import Mathlib.Tactic.FieldSimp
import Mathlib.Tactic.Linarith
import ThunderForge.Canvas.Movement

/-! Snapping a token, stepping it and the cells it covers agree on a square grid, for every size of token. All of them
put a corner on a lattice with the same rule for halves. -/

namespace ThunderForge.Canvas

/-! Rounding to the lattice. -/

theorem halfUp_intCast (n : ℤ) : halfUp (n : ℝ) = n := by
  rw [halfUp, Int.floor_eq_iff]
  constructor <;> linarith

theorem halfUp_add_intCast (v : ℝ) (n : ℤ) : halfUp (v + n) = halfUp v + n := by
  unfold halfUp
  rw [add_right_comm, Int.floor_add_intCast]

theorem halfUp_near (v : ℝ) : |(halfUp v : ℝ) - v| ≤ 1 / 2 := by
  have hle := Int.floor_le (v + 1 / 2)
  have hlt := Int.lt_floor_add_one (v + 1 / 2)
  rw [abs_le, halfUp]
  constructor <;> linarith

/-- One coordinate of a token that snaps. -/
noncomputable def snapCoordinate (step offset v : ℝ) : ℝ := halfUp ((v - offset) / step) * step + offset

section coordinates

variable {step : ℝ} (hstep : 0 < step) (offset : ℝ)

include hstep

theorem snapCoordinate_lattice (n : ℤ) : snapCoordinate step offset (n * step + offset) = n * step + offset := by
  unfold snapCoordinate
  rw [add_sub_cancel_right, mul_div_cancel_right₀ _ hstep.ne', halfUp_intCast]

theorem snapCoordinate_idempotent (v : ℝ) :
    snapCoordinate step offset (snapCoordinate step offset v) = snapCoordinate step offset v :=
  snapCoordinate_lattice hstep offset _

theorem snapCoordinate_near (v : ℝ) : |snapCoordinate step offset v - v| ≤ step / 2 := by
  have hnear := halfUp_near ((v - offset) / step)
  have hscaled : snapCoordinate step offset v - v = (halfUp ((v - offset) / step) - (v - offset) / step) * step := by
    unfold snapCoordinate
    field_simp
    ring
  rw [hscaled, abs_mul, abs_of_pos hstep]
  nlinarith

theorem snapCoordinate_add (v : ℝ) (n : ℤ) :
    snapCoordinate step offset (v + n * step) = snapCoordinate step offset v + n * step := by
  have hshift : (v + n * step - offset) / step = (v - offset) / step + n := by
    field_simp
    ring
  unfold snapCoordinate
  rw [hshift, halfUp_add_intCast, Int.cast_add]
  ring

end coordinates

/-! Square grids. -/

theorem GridSpec.safeSize_pos (grid : GridSpec ℝ) : 0 < grid.safeSize := by
  unfold safeSize
  split_ifs with hsize
  · exact lt_trans (by norm_num) hsize
  · norm_num

noncomputable def squareGrid (size : ℝ) (origin : Vec2 ℝ) : GridSpec ℝ := { kind := .square, size, origin }

section square

variable (size : ℝ) (origin : Vec2 ℝ) (footprint : Footprint ℝ)

theorem cornerStep_pos : 0 < footprint.cornerStep := by
  unfold Footprint.cornerStep
  split_ifs <;> norm_num

/-- A cell is a whole number of corner steps. -/
theorem exists_cornerSteps : ∃ n : ℤ, n * footprint.cornerStep = 1 := by
  unfold Footprint.cornerStep
  split_ifs
  · exact ⟨2, by norm_num⟩
  · exact ⟨1, by norm_num⟩

/-- The corner a token snaps by, from its centre. -/
noncomputable def halfExtent : ℝ := footprint.worldSize (squareGrid size origin).safeSize / 2

theorem snapFootprint_square (point : Vec2 ℝ) :
    (squareGrid size origin).snapFootprint point footprint =
      let step := footprint.cornerStep * (squareGrid size origin).safeSize
      ⟨snapCoordinate step (origin.x + halfExtent size origin footprint) point.x,
        snapCoordinate step (origin.y + halfExtent size origin footprint) point.y⟩ := by
  have hkind : (squareGrid size origin).kind = .square := rfl
  have horigin : (squareGrid size origin).origin = origin := rfl
  unfold GridSpec.snapFootprint
  rw [hkind, if_neg (by decide)]
  simp only [GridKind.isHex, Bool.false_eq_true, if_false, horigin]
  ext
  · simp only [Vec2.add_x, Vec2.sub_x, Vec2.splat_x, snapCoordinate, halfExtent, sub_sub, add_assoc]
  · simp only [Vec2.add_y, Vec2.sub_y, Vec2.splat_y, snapCoordinate, halfExtent, sub_sub, add_assoc]

/-- A number of whole cells, as a way across the grid. -/
noncomputable def cells (columns rows : ℤ) : Vec2 ℝ :=
  ⟨columns * (squareGrid size origin).safeSize, rows * (squareGrid size origin).safeSize⟩

theorem snapFootprint_add (point : Vec2 ℝ) (columns rows : ℤ) :
    (squareGrid size origin).snapFootprint (point + cells size origin columns rows) footprint =
      (squareGrid size origin).snapFootprint point footprint + cells size origin columns rows := by
  have hstep : 0 < footprint.cornerStep * (squareGrid size origin).safeSize :=
    mul_pos (cornerStep_pos footprint) (GridSpec.safeSize_pos _)
  obtain ⟨n, hn⟩ := exists_cornerSteps footprint
  have hcells (count : ℤ) : (count : ℝ) * (squareGrid size origin).safeSize =
      ((count * n : ℤ) : ℝ) * (footprint.cornerStep * (squareGrid size origin).safeSize) := by
    rw [Int.cast_mul, ← mul_assoc, mul_assoc (count : ℝ), hn, mul_one]
  rw [snapFootprint_square, snapFootprint_square]
  ext
  · simp only [cells, Vec2.add_x, hcells]
    exact snapCoordinate_add hstep _ _ _
  · simp only [cells, Vec2.add_y, hcells]
    exact snapCoordinate_add hstep _ _ _

/-- The way one step goes. -/
def Step.heading : Step → ℤ × ℤ
  | north => (0, 1)
  | south => (0, -1)
  | east => (1, 0)
  | west => (-1, 0)

noncomputable def oneCell (step : Step) : Vec2 ℝ := cells size origin step.heading.1 step.heading.2

theorem cellCenter_apply (cell : Cell ℤ) (step : Step) :
    (squareGrid size origin).cellCenter (step.apply cell .square) - (squareGrid size origin).cellCenter cell =
      oneCell size origin step := by
  cases step <;> ext <;>
    simp only [GridSpec.cellCenter, squareGrid, Step.apply, oneCell, cells, Step.heading, Vec2.sub_x, Vec2.sub_y,
      Vec2.add_x, Vec2.add_y] <;> push_cast <;> ring

theorem stepToken_square {point : Vec2 ℝ} (h : (squareGrid size origin).snapFootprint point footprint = point)
    (step : Step) : stepToken (squareGrid size origin) point footprint step = point + oneCell size origin step := by
  have hkind : (squareGrid size origin).kind = .square := rfl
  unfold stepToken footprintMoved
  dsimp only
  rw [hkind, cellCenter_apply, oneCell, snapFootprint_add, h]

theorem oneCell_opposite (step : Step) (point : Vec2 ℝ) :
    point + oneCell size origin step + oneCell size origin step.opposite = point := by
  cases step <;> ext <;>
    simp only [oneCell, cells, Step.heading, Step.opposite, Vec2.add_x, Vec2.add_y] <;> push_cast <;> ring

/-! The cells that are covered. -/

theorem roundAway_of_nonneg {v : ℝ} (h : 0 ≤ v) : roundAway v = halfUp v := if_neg (not_lt.mpr h)

/-- The lowest cell, by one coordinate of a snapped corner. -/
theorem halfUp_corner (hlarge : 1 ≤ footprint.cells) (n : ℤ) :
    halfUp (n + footprint.cells / 2 - max (roundAway footprint.cells : ℝ) 1 / 2) = n := by
  have hnear := halfUp_near footprint.cells
  have hround : (1 : ℝ) ≤ roundAway footprint.cells := by
    rw [roundAway_of_nonneg (by linarith)]
    have hone : (1 : ℤ) ≤ halfUp footprint.cells := Int.le_floor.mpr (by push_cast; linarith)
    exact_mod_cast hone
  rw [max_eq_left hround, roundAway_of_nonneg (by linarith)]
  rw [abs_le] at hnear
  rw [halfUp, Int.floor_eq_iff]
  constructor <;> linarith

/-- A token under a cell is in the cell of its corner, which is on a half cell. -/
theorem floor_tiny (hleast : 1 / 2 ≤ footprint.cells) (hsmall : footprint.cells < 1) (n : ℤ) :
    ⌊(n : ℝ) / 2 + footprint.cells / 2⌋ = ⌊(n : ℝ) / 2⌋ := by
  have hfloor : ⌊(n : ℝ) / 2⌋ = n / 2 := by
    have hdiv := Int.floor_div_natCast (k := ℝ) (n : ℝ) 2
    simpa using hdiv
  have hle : ((n / 2 : ℤ) : ℝ) * 2 ≤ n := by exact_mod_cast (by omega : n / 2 * 2 ≤ n)
  have hlt : (n : ℝ) ≤ ((n / 2 : ℤ) : ℝ) * 2 + 1 := by exact_mod_cast (by omega : n ≤ n / 2 * 2 + 1)
  rw [hfloor, Int.floor_eq_iff]
  constructor <;> linarith

/-- Where the corner of a token is. -/
noncomputable def corner (centre : Vec2 ℝ) : Vec2 ℝ := centre - Vec2.splat (halfExtent size origin footprint)

/-- One coordinate of what is covered, by the token's corner on the lattice. -/
theorem covered_coordinate {cellSize : ℝ} (hsize : 0 < cellSize) (n : ℤ) :
    (if footprint.cells < 1 then
      ⌊(n * (footprint.cornerStep * cellSize) + footprint.worldSize cellSize / 2) / cellSize⌋
    else
      halfUp ((n * (footprint.cornerStep * cellSize) + footprint.worldSize cellSize / 2) / cellSize -
        max (roundAway footprint.cells : ℝ) 1 / 2)) =
      ⌊n * (footprint.cornerStep * cellSize) / cellSize⌋ := by
  have hne := hsize.ne'
  unfold Footprint.cornerStep Footprint.worldSize
  split_ifs with hsmall
  · have hcentre : ((n : ℝ) * (1 / 2 * cellSize) + footprint.cells * cellSize / 2) / cellSize =
        n / 2 + footprint.cells / 2 := by
      field_simp
    have hcorner : (n : ℝ) * (1 / 2 * cellSize) / cellSize = n / 2 := by field_simp
    rw [hcentre, hcorner]
    exact floor_tiny footprint footprint.least hsmall n
  · have hcentre : ((n : ℝ) * (1 * cellSize) + footprint.cells * cellSize / 2) / cellSize = n + footprint.cells / 2 := by
      field_simp
    have hcorner : (n : ℝ) * (1 * cellSize) / cellSize = n := by field_simp
    rw [hcentre, hcorner, Int.floor_intCast]
    exact halfUp_corner footprint (not_lt.mp hsmall) n

theorem coveredCells_min (point : Vec2 ℝ) :
    ((squareGrid size origin).coveredCells ((squareGrid size origin).snapFootprint point footprint) footprint).min =
      (squareGrid size origin).worldToCell
        (corner size origin footprint ((squareGrid size origin).snapFootprint point footprint)) := by
  have hkind : (squareGrid size origin).kind = .square := rfl
  have horigin : (squareGrid size origin).origin = origin := rfl
  have hcovered := covered_coordinate footprint (GridSpec.safeSize_pos (squareGrid size origin))
  rw [snapFootprint_square]
  dsimp only
  generalize hx : halfUp ((point.x - (origin.x + halfExtent size origin footprint)) /
    (footprint.cornerStep * (squareGrid size origin).safeSize)) = nx
  generalize hy : halfUp ((point.y - (origin.y + halfExtent size origin footprint)) /
    (footprint.cornerStep * (squareGrid size origin).safeSize)) = ny
  unfold GridSpec.coveredCells GridSpec.worldToCell corner snapCoordinate
  rw [hkind, hx, hy, horigin]
  have hcentre (lattice o h : ℝ) : lattice + (o + h) - o = lattice + h := by ring
  have hcorner (lattice o h : ℝ) : lattice + (o + h) - h - o = lattice := by ring
  simp only [ne_eq, not_true_eq_false, false_or, Vec2.sub_x, Vec2.sub_y, Vec2.splat_x, Vec2.splat_y, hcorner, hcentre]
  rw [← hcovered nx, ← hcovered ny]
  split_ifs <;> rfl

/-- Snapping, stepping and covering, for one size of token. -/
structure SnapsStepsCovers (point : Vec2 ℝ) : Prop where
  idempotent : (squareGrid size origin).snapFootprint ((squareGrid size origin).snapFootprint point footprint) footprint =
    (squareGrid size origin).snapFootprint point footprint
  /-- Each coordinate moves by half its corner step at most. -/
  near : let step := footprint.cornerStep * (squareGrid size origin).safeSize
    |((squareGrid size origin).snapFootprint point footprint).x - point.x| ≤ step / 2 ∧
      |((squareGrid size origin).snapFootprint point footprint).y - point.y| ≤ step / 2
  translates : ∀ columns rows : ℤ,
    (squareGrid size origin).snapFootprint (point + cells size origin columns rows) footprint =
      (squareGrid size origin).snapFootprint point footprint + cells size origin columns rows
  /-- A token of a cell or more, standing where it snaps, goes one cell the way it is asked to. -/
  steps : 1 ≤ footprint.cells → (squareGrid size origin).snapFootprint point footprint = point → ∀ step,
    stepToken (squareGrid size origin) point footprint step = point + oneCell size origin step
  returns : 1 ≤ footprint.cells → (squareGrid size origin).snapFootprint point footprint = point → ∀ step,
    stepToken (squareGrid size origin) (stepToken (squareGrid size origin) point footprint step) footprint
      step.opposite = point
  covers :
    ((squareGrid size origin).coveredCells ((squareGrid size origin).snapFootprint point footprint) footprint).min =
      (squareGrid size origin).worldToCell
        (corner size origin footprint ((squareGrid size origin).snapFootprint point footprint))

theorem snapsStepsCovers (point : Vec2 ℝ) : SnapsStepsCovers size origin footprint point := by
  have hstep : 0 < footprint.cornerStep * (squareGrid size origin).safeSize :=
    mul_pos (cornerStep_pos footprint) (GridSpec.safeSize_pos _)
  refine ⟨?_, ?_, snapFootprint_add size origin footprint point, ?_, ?_, coveredCells_min size origin footprint point⟩
  · rw [snapFootprint_square, snapFootprint_square]
    ext
    · exact snapCoordinate_idempotent hstep _ _
    · exact snapCoordinate_idempotent hstep _ _
  · rw [snapFootprint_square]
    exact ⟨snapCoordinate_near hstep _ _, snapCoordinate_near hstep _ _⟩
  · intro _ hsnapped step
    exact stepToken_square size origin footprint hsnapped step
  · intro _ hsnapped step
    have hthere : (squareGrid size origin).snapFootprint (point + oneCell size origin step) footprint =
        point + oneCell size origin step := by
      unfold oneCell
      rw [snapFootprint_add, hsnapped]
    rw [stepToken_square size origin footprint hsnapped, stepToken_square size origin footprint hthere,
      oneCell_opposite]

end square

end ThunderForge.Canvas
