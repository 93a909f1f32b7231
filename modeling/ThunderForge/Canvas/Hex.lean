import Mathlib.Combinatorics.SimpleGraph.Walk.Basic
import Mathlib.Order.Bounds.Basic
import Mathlib.Tactic.FieldSimp
import Mathlib.Tactic.LinearCombination
import ThunderForge.Canvas.Plane
import ThunderForge.Canvas.Snapping
import ThunderForge.Lib.HexLattice

/-! A point on a hexagonal grid is in the cell whose centre is nearest, and the distance of two cells is how many cells
one walks over. Both orientations are the hexagonal lattice, drawn at the size of the grid. -/

namespace ThunderForge.Canvas

open HexLattice

/-! Rounding. -/

theorem roundAway_near (v : ℝ) : |v - roundAway v| ≤ 1 / 2 := by
  unfold roundAway
  split_ifs with hneg
  · have hle := Int.floor_le (-v + 1 / 2)
    have hlt := Int.lt_floor_add_one (-v + 1 / 2)
    rw [abs_le]
    push_cast
    constructor <;> linarith
  · have hle := Int.floor_le (v + 1 / 2)
    have hlt := Int.lt_floor_add_one (v + 1 / 2)
    rw [abs_le]
    constructor <;> linarith

theorem axialRound_inside (q r : ℝ) : Inside (q - (axialRound q r).q) (r - (axialRound q r).r) := by
  have hsum : q - roundAway q + (r - roundAway r) + (-q - r - roundAway (-q - r)) =
      ((-(roundAway q + roundAway r + roundAway (-q - r)) : ℤ) : ℝ) := by
    push_cast
    ring
  have hq := roundAway_near q
  have hr := roundAway_near r
  have hs := roundAway_near (-q - r)
  simp only [axialRound]
  rw [abs_sub_comm _ q, abs_sub_comm _ r, abs_sub_comm _ (-q - r)]
  split_ifs with hqmax hrmax
  · have hinside := inside_of_drift hsum hq hqmax.1.le hqmax.2.le
    convert hinside using 1
    push_cast
    ring
  · have hle : |q - roundAway q| ≤ |r - roundAway r| := by
      by_contra hgt
      exact hqmax ⟨lt_of_not_ge hgt, hrmax.trans (lt_of_not_ge hgt)⟩
    rw [add_comm (q - _), add_assoc, add_comm (q - _), ← add_assoc] at hsum
    have hinside := (inside_of_drift hsum hr hrmax.le hle).rotate.rotate
    convert hinside using 1
    · ring
    · show r - ((-roundAway q - roundAway (-q - r) : ℤ) : ℝ) = _
      push_cast
      ring
  · have hle : |q - roundAway q| ≤ |-q - r - roundAway (-q - r)| := by
      by_contra hgt
      exact hqmax ⟨(le_of_not_gt hrmax).trans_lt (lt_of_not_ge hgt), lt_of_not_ge hgt⟩
    rw [add_comm, ← add_assoc] at hsum
    have hinside := (inside_of_drift hsum hs hle (le_of_not_gt hrmax)).rotate
    convert hinside using 1
    ring

/-! The lattice of a grid. -/

/-- How the lattice lies in the plane: the axial coordinates of a point, which cells and lengths are read from. -/
structure HexLayout (grid : GridSpec ℝ) where
  q : Vec2 ℝ → ℝ
  r : Vec2 ℝ → ℝ
  worldToCell : ∀ world, grid.worldToCell world = axialRound (q world) (r world)
  lengthSquared : ∀ world cell,
    (world - grid.cellCenter cell).lengthSquared = grid.safeSize ^ 2 * normSq (q world - cell.q) (r world - cell.r)

/-- A point's distance from a cell's centre, for a grid whose rows lie along the first of the two axes. -/
theorem lengthSquared_layout {root size x y q r : ℝ} (hroot : root * root = 3) (hroot0 : root ≠ 0) (hsize : size ≠ 0) :
    (x - size / root * root * (q + r / 2)) * (x - size / root * root * (q + r / 2)) +
        (y - size / root * (3 / 2) * r) * (y - size / root * (3 / 2) * r) =
      size ^ 2 * normSq ((root / 3 * x - y / 3) / (size / root) - q) (2 / 3 * y / (size / root) - r) := by
  have hx : x = size * ((root / 3 * x - y / 3) / (size / root) + 2 / 3 * y / (size / root) / 2) := by
    field_simp
    linear_combination (-x) * hroot
  have hheight : size / root * (3 / 2) = size * root / 2 := by
    field_simp
    linear_combination (-1) * hroot
  have hy : y = size * root / 2 * (2 / 3 * y / (size / root)) := by
    field_simp
    linear_combination (-y) * hroot
  generalize (root / 3 * x - y / 3) / (size / root) = cq at hx ⊢
  generalize 2 / 3 * y / (size / root) = cr at hx hy ⊢
  rw [div_mul_cancel₀ _ hroot0, hheight, hx, hy]
  unfold normSq
  linear_combination (size * (cr - r) / 2) ^ 2 * hroot

theorem sqrt_three_mul_self : Real.sqrt 3 * Real.sqrt 3 = 3 := Real.mul_self_sqrt (by norm_num)

theorem sqrt_three_ne_zero : Real.sqrt 3 ≠ 0 := (Real.sqrt_pos.mpr (by norm_num)).ne'

noncomputable def pointyLayout (grid : GridSpec ℝ) (hkind : grid.kind = .hexPointyTop) : HexLayout grid where
  q world := (Real.sqrt 3 / 3 * (world - grid.origin).x - (world - grid.origin).y / 3) / grid.hexRadius
  r world := 2 / 3 * (world - grid.origin).y / grid.hexRadius
  worldToCell world := by
    unfold GridSpec.worldToCell
    rw [hkind]
    rfl
  lengthSquared world cell := by
    have hlength := lengthSquared_layout (x := (world - grid.origin).x) (y := (world - grid.origin).y)
      (q := cell.q) (r := cell.r) sqrt_three_mul_self sqrt_three_ne_zero grid.safeSize_pos.ne'
    refine Eq.trans ?_ hlength
    rw [Vec2.lengthSquared, GridSpec.cellCenter, hkind]
    simp only [Vec2.sub_x, Vec2.sub_y, Vec2.add_x, Vec2.add_y, GridSpec.hexRadius, HasSqrt.sqrt]
    ring

noncomputable def flatLayout (grid : GridSpec ℝ) (hkind : grid.kind = .hexFlatTop) : HexLayout grid where
  q world := 2 / 3 * (world - grid.origin).x / grid.hexRadius
  r world := (-(world - grid.origin).x / 3 + Real.sqrt 3 / 3 * (world - grid.origin).y) / grid.hexRadius
  worldToCell world := by
    unfold GridSpec.worldToCell
    rw [hkind]
    rfl
  lengthSquared world cell := by
    have hlength := lengthSquared_layout (x := (world - grid.origin).y) (y := (world - grid.origin).x)
      (q := cell.r) (r := cell.q) sqrt_three_mul_self sqrt_three_ne_zero grid.safeSize_pos.ne'
    rw [normSq_comm, neg_div, neg_add_eq_sub]
    refine Eq.trans ?_ hlength
    rw [Vec2.lengthSquared, GridSpec.cellCenter, hkind]
    simp only [Vec2.sub_x, Vec2.sub_y, Vec2.add_x, Vec2.add_y, GridSpec.hexRadius, HasSqrt.sqrt]
    ring

namespace HexLayout

variable {grid : GridSpec ℝ} (layout : HexLayout grid)

include layout

/-- No other cell's centre is nearer to a point than that of the cell it is in. -/
theorem nearest (world : Vec2 ℝ) (cell : Cell ℤ) :
    (world - grid.cellCenter (grid.worldToCell world)).length ≤ (world - grid.cellCenter cell).length := by
  rw [Vec2.length_le_length_iff, layout.lengthSquared, layout.lengthSquared, layout.worldToCell]
  have hinside := axialRound_inside (layout.q world) (layout.r world)
  generalize axialRound (layout.q world) (layout.r world) = found at hinside ⊢
  have hle := hinside.normSq_le (cell.q - found.q) (cell.r - found.r)
  apply mul_le_mul_of_nonneg_left _ (sq_nonneg _)
  refine hle.trans_eq ?_
  push_cast
  congr 1 <;> ring

theorem axial_cellCenter (cell : Cell ℤ) :
    layout.q (grid.cellCenter cell) = cell.q ∧ layout.r (grid.cellCenter cell) = cell.r := by
  have hlength := layout.lengthSquared (grid.cellCenter cell) cell
  have hsize : 0 < grid.safeSize ^ 2 := pow_pos grid.safeSize_pos 2
  rw [Vec2.lengthSquared_sub_self] at hlength
  have hzero := (mul_eq_zero.mp hlength.symm).resolve_left hsize.ne'
  have hfirst : layout.q (grid.cellCenter cell) - cell.q = 0 := eq_zero_of_normSq hzero
  rw [normSq_comm] at hzero
  exact ⟨sub_eq_zero.mp hfirst, sub_eq_zero.mp (eq_zero_of_normSq hzero)⟩

/-- Where two cells are in the plane. -/
theorem lengthSquared_centres (a b : Cell ℤ) : (grid.cellCenter a - grid.cellCenter b).lengthSquared =
    grid.safeSize ^ 2 * (normSq (a.q - b.q) (a.r - b.r) : ℤ) := by
  rw [layout.lengthSquared, (layout.axial_cellCenter a).1, (layout.axial_cellCenter a).2]
  unfold normSq
  push_cast
  rfl

theorem cellCenter_injective : Function.Injective grid.cellCenter := by
  intro a b heq
  have ha := layout.axial_cellCenter a
  rw [heq, (layout.axial_cellCenter b).1, (layout.axial_cellCenter b).2] at ha
  exact Cell.ext (Int.cast_injective ha.1).symm (Int.cast_injective ha.2).symm

/-- The cell of a cell's centre. -/
theorem worldToCell_cellCenter (cell : Cell ℤ) : grid.worldToCell (grid.cellCenter cell) = cell := by
  apply layout.cellCenter_injective
  have hnearest := layout.nearest (grid.cellCenter cell) cell
  rw [Vec2.length_le_length_iff, Vec2.lengthSquared_sub_self] at hnearest
  exact (Vec2.eq_of_lengthSquared_sub hnearest).symm

/-- Two centres are as far apart as the grid's cells where a step leads from one to the other. -/
theorem length_centres_iff (a b : Cell ℤ) :
    (grid.cellCenter a - grid.cellCenter b).length = grid.safeSize ↔ HexLattice.Step (a.q - b.q) (a.r - b.r) := by
  have hsize : grid.safeSize ^ 2 ≠ 0 := (pow_pos grid.safeSize_pos 2).ne'
  rw [Vec2.length_eq_iff grid.safeSize_pos, layout.lengthSquared_centres, mul_eq_left₀ hsize, Int.cast_eq_one,
    step_iff_normSq]

end HexLayout

/-! Walks over neighbours. -/

/-- The cells that share an edge: their centres are as far apart as the grid's spacing. -/
def GridSpec.neighbours (grid : GridSpec ℝ) : SimpleGraph (Cell ℤ) where
  Adj a b := (grid.cellCenter a - grid.cellCenter b).length = grid.safeSize
  symm := ⟨fun a b h => by
    rwa [Vec2.length_eq_iff grid.safeSize_pos, Vec2.lengthSquared_sub_comm, ← Vec2.length_eq_iff grid.safeSize_pos]⟩
  loopless := ⟨fun a h => by
    rw [Vec2.length_eq_iff grid.safeSize_pos, Vec2.lengthSquared_sub_self] at h
    exact (pow_pos grid.safeSize_pos 2).ne h⟩

theorem GridSpec.cellDistance_hex {grid : GridSpec ℝ} (hhex : grid.kind.isHex = true) (a b : Cell ℤ) :
    grid.cellDistance a b = steps (a.q - b.q) (a.r - b.r) := by
  unfold GridSpec.cellDistance
  cases hkind : grid.kind <;> simp_all [GridKind.isHex, steps]

namespace HexLayout

variable {grid : GridSpec ℝ} (layout : HexLayout grid)

include layout

/-- No walk over neighbours is shorter than the steps it takes. -/
theorem steps_le_length {a b : Cell ℤ} (walk : grid.neighbours.Walk a b) :
    steps (a.q - b.q) (a.r - b.r) ≤ walk.length := by
  induction walk with
  | nil => simp [steps]
  | @cons a next b hadj walk ih =>
    have hstep : HexLattice.Step (a.q - next.q) (a.r - next.r) := (layout.length_centres_iff a next).mp hadj
    have hle := steps_le_of_step (q := a.q - b.q) (r := a.r - b.r) hstep
    rw [sub_sub_sub_cancel_left, sub_sub_sub_cancel_left] at hle
    rw [SimpleGraph.Walk.length_cons]
    push_cast
    exact hle.trans (add_le_add_left ih 1)

/-- A walk over neighbours that takes as many steps as there are. -/
theorem exists_walk (n : ℕ) (a b : Cell ℤ) (h : steps (a.q - b.q) (a.r - b.r) = n) :
    ∃ walk : grid.neighbours.Walk a b, walk.length = n := by
  induction n generalizing a with
  | zero =>
    obtain ⟨hq, hr⟩ := steps_eq_zero_iff.mp h
    obtain rfl : a = b := Cell.ext (sub_eq_zero.mp hq) (sub_eq_zero.mp hr)
    exact ⟨.nil, rfl⟩
  | succ n ih =>
    obtain ⟨q, r, hstep, hnearer⟩ := exists_step (q := a.q - b.q) (r := a.r - b.r) (by omega)
    let next : Cell ℤ := ⟨a.q - q, a.r - r⟩
    have hadj : grid.neighbours.Adj a next := by
      apply (layout.length_centres_iff a next).mpr
      simpa [next] using hstep
    obtain ⟨walk, hwalk⟩ := ih next (by
      rw [show next.q - b.q = a.q - b.q - q by simp only [next]; ring,
        show next.r - b.r = a.r - b.r - r by simp only [next]; ring]
      omega)
    exact ⟨.cons hadj walk, by rw [SimpleGraph.Walk.length_cons, hwalk]⟩

end HexLayout

/-- Which cell a point is in, where the cell's centre is, and how far two cells are apart. -/
structure NearestCells (grid : GridSpec ℝ) : Prop where
  nearest : ∀ world cell,
    (world - grid.cellCenter (grid.worldToCell world)).length ≤ (world - grid.cellCenter cell).length
  centre : ∀ cell, grid.worldToCell (grid.cellCenter cell) = cell
  distance : ∀ a b, IsLeast {n : ℤ | ∃ walk : grid.neighbours.Walk a b, walk.length = n} (grid.cellDistance a b)

/-- A grid of hexes of either orientation is laid out on the lattice. -/
theorem exists_layout (grid : GridSpec ℝ) (hhex : grid.kind.isHex = true) : Nonempty (HexLayout grid) := by
  cases hkind : grid.kind with
  | square | gridless => simp [hkind, GridKind.isHex] at hhex
  | hexPointyTop => exact ⟨pointyLayout grid hkind⟩
  | hexFlatTop => exact ⟨flatLayout grid hkind⟩

/-- A point on a hex grid belongs to the nearest hex, and the distance of two hexes is the length of a shortest walk
over hexes that share an edge. -/
theorem hex_nearestCells (grid : GridSpec ℝ) (hhex : grid.kind.isHex = true) : NearestCells grid := by
  obtain ⟨layout⟩ := exists_layout grid hhex
  refine ⟨layout.nearest, layout.worldToCell_cellCenter, fun a b => ?_⟩
  rw [GridSpec.cellDistance_hex hhex]
  constructor
  · obtain ⟨walk, hwalk⟩ := layout.exists_walk (steps (a.q - b.q) (a.r - b.r)).toNat a b
      (Int.toNat_of_nonneg (steps_nonneg _ _)).symm
    exact ⟨walk, by rw [hwalk, Int.toNat_of_nonneg (steps_nonneg _ _)]⟩
  · rintro n ⟨walk, rfl⟩
    exact layout.steps_le_length walk

theorem unit_hexes_nearestCells : NearestCells (⟨.hexPointyTop, 1, 0⟩ : GridSpec ℝ) ∧
    NearestCells (⟨.hexFlatTop, 1, 0⟩ : GridSpec ℝ) :=
  ⟨hex_nearestCells _ rfl, hex_nearestCells _ rfl⟩

end ThunderForge.Canvas
