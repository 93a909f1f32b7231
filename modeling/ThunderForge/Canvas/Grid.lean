import Mathlib.Algebra.Order.Floor.Ring
import Mathlib.Algebra.Order.Archimedean.Real.Basic
import Mathlib.Analysis.Real.Sqrt

/-! Where the cells of a scene are (`thunderforge-canvas-core/src/grid.rs`), with numbers that are exact: those of a
field with an order, a floor and square roots, for which what is proved takes the reals. A position's whole numbers
are unbounded, and a non-finite number does not occur. -/

namespace ThunderForge.Canvas

scoped instance atLeastTwo_two : Nat.AtLeastTwo 2 := inferInstance

scoped instance atLeastTwo_three : Nat.AtLeastTwo 3 := inferInstance

scoped instance atLeastTwo_ten : Nat.AtLeastTwo 10 := inferInstance

/-- The square roots the geometry takes. -/
class HasSqrt (K : Type) where
  sqrt : K → K

noncomputable instance : HasSqrt ℝ := ⟨Real.sqrt⟩

inductive GridKind where
  | square
  | hexPointyTop
  | hexFlatTop
  | gridless
  deriving DecidableEq

def GridKind.isHex : GridKind → Bool
  | hexPointyTop | hexFlatTop => true
  | square | gridless => false

@[ext] structure Vec2 (K : Type) where
  x : K
  y : K
  deriving DecidableEq

/-- A cell address: column and row, or axial coordinates. Its numbers are the integers, or those that wrap. -/
@[ext] structure Cell (ι : Type) where
  q : ι
  r : ι
  deriving DecidableEq

namespace Vec2

variable {K : Type}

instance [Zero K] : Zero (Vec2 K) := ⟨⟨0, 0⟩⟩

instance [Add K] : Add (Vec2 K) := ⟨fun a b => ⟨a.x + b.x, a.y + b.y⟩⟩

instance [Sub K] : Sub (Vec2 K) := ⟨fun a b => ⟨a.x - b.x, a.y - b.y⟩⟩

instance [Neg K] : Neg (Vec2 K) := ⟨fun a => ⟨-a.x, -a.y⟩⟩

def splat (v : K) : Vec2 K := ⟨v, v⟩

def lengthSquared [Add K] [Mul K] (v : Vec2 K) : K := v.x * v.x + v.y * v.y

def length [Add K] [Mul K] [HasSqrt K] (v : Vec2 K) : K := HasSqrt.sqrt v.lengthSquared

@[simp] theorem zero_x [Zero K] : (0 : Vec2 K).x = 0 := rfl

@[simp] theorem zero_y [Zero K] : (0 : Vec2 K).y = 0 := rfl

@[simp] theorem add_x [Add K] (a b : Vec2 K) : (a + b).x = a.x + b.x := rfl

@[simp] theorem add_y [Add K] (a b : Vec2 K) : (a + b).y = a.y + b.y := rfl

@[simp] theorem sub_x [Sub K] (a b : Vec2 K) : (a - b).x = a.x - b.x := rfl

@[simp] theorem sub_y [Sub K] (a b : Vec2 K) : (a - b).y = a.y - b.y := rfl

@[simp] theorem neg_x [Neg K] (a : Vec2 K) : (-a).x = -a.x := rfl

@[simp] theorem neg_y [Neg K] (a : Vec2 K) : (-a).y = -a.y := rfl

@[simp] theorem splat_x (v : K) : (splat v).x = v := rfl

@[simp] theorem splat_y (v : K) : (splat v).y = v := rfl

end Vec2

section grid

variable {K : Type} [Field K] [LinearOrder K]

/-- How many cells across a token occupies: half a cell at least. -/
structure Footprint (K : Type) [Field K] [LinearOrder K] where
  cells : K
  least : 1 / 2 ≤ cells

namespace Footprint

/-- `Footprint::new`, of a number that is finite. -/
def new (cells : K) : Footprint K := ⟨max cells (1 / 2), le_max_right ..⟩

def worldSize (footprint : Footprint K) (cellSize : K) : K := footprint.cells * cellSize

/-- The lattice a token of this size snaps its corner to, in cells. -/
def cornerStep (footprint : Footprint K) : K := if footprint.cells < 1 then 1 / 2 else 1

end Footprint

structure GridSpec (K : Type) where
  kind : GridKind
  /-- Spacing of the centres of cells that share an edge. -/
  size : K
  /-- Where the corner of cell (0, 0) is. -/
  origin : Vec2 K

namespace GridSpec

variable (grid : GridSpec K)

/-- A spacing no larger than `f32::EPSILON` is taken for the default one. -/
def safeSize : K := if grid.size > 1 / 8388608 then grid.size else 128

/-- From a hex's centre to its vertices. -/
def hexRadius [HasSqrt K] : K := grid.safeSize / HasSqrt.sqrt 3

/-- The centre of a cell. -/
def cellCenter [HasSqrt K] (cell : Cell ℤ) : Vec2 K :=
  let q : K := cell.q
  let r : K := cell.r
  let local' : Vec2 K :=
    match grid.kind with
    | .gridless => 0
    | .square => ⟨(q + 1 / 2) * grid.safeSize, (r + 1 / 2) * grid.safeSize⟩
    | .hexPointyTop =>
      let radius := grid.hexRadius
      ⟨radius * HasSqrt.sqrt 3 * (q + r / 2), radius * (3 / 2) * r⟩
    | .hexFlatTop =>
      let radius := grid.hexRadius
      ⟨radius * (3 / 2) * q, radius * HasSqrt.sqrt 3 * (r + q / 2)⟩
  local' + grid.origin

/-- How far two cells are from each other, in cells. -/
def cellDistance (a b : Cell ℤ) : ℤ :=
  match grid.kind with
  | .gridless => 0
  | .square => max |a.q - b.q| |a.r - b.r|
  | .hexPointyTop | .hexFlatTop =>
    let dq := a.q - b.q
    let dr := a.r - b.r
    (|dq| + |dr| + |dq + dr|) / 2

end GridSpec

variable [FloorRing K]

/-- `f32::round`: halves go away from zero. -/
def roundAway (v : K) : ℤ := if v < 0 then -⌊-v + 1 / 2⌋ else ⌊v + 1 / 2⌋

/-- Rounds each of the three axes, and corrects the one that drifted furthest. -/
def axialRound (q r : K) : Cell ℤ :=
  let s := -q - r
  let rq := roundAway q
  let rr := roundAway r
  let rs := roundAway s
  let dq := |(rq : K) - q|
  let dr := |(rr : K) - r|
  let ds := |(rs : K) - s|
  if dq > dr ∧ dq > ds then ⟨-rr - rs, rr⟩
  else if dr > ds then ⟨rq, -rq - rs⟩
  else ⟨rq, rr⟩

/-- `(v + 0.5).floor()` -/
def halfUp (v : K) : ℤ := ⌊v + 1 / 2⌋

/-- The cells of a block, inclusive at both corners. -/
structure CoveredCells where
  min : Cell ℤ
  max : Cell ℤ
  deriving DecidableEq

namespace GridSpec

variable [HasSqrt K] (grid : GridSpec K)

/-- The cell a position is in. -/
def worldToCell (world : Vec2 K) : Cell ℤ :=
  let local' := world - grid.origin
  match grid.kind with
  | .gridless => ⟨0, 0⟩
  | .square => ⟨⌊local'.x / grid.safeSize⌋, ⌊local'.y / grid.safeSize⌋⟩
  | .hexPointyTop =>
    let radius := grid.hexRadius
    axialRound ((HasSqrt.sqrt 3 / 3 * local'.x - local'.y / 3) / radius) (2 / 3 * local'.y / radius)
  | .hexFlatTop =>
    let radius := grid.hexRadius
    axialRound (2 / 3 * local'.x / radius) ((-local'.x / 3 + HasSqrt.sqrt 3 / 3 * local'.y) / radius)

/-- Where a token comes to stand: its lower left corner on the lattice, or its centre on a hex's. -/
def snapFootprint (world : Vec2 K) (footprint : Footprint K) : Vec2 K :=
  if grid.kind = .gridless then world
  else
    let size := grid.safeSize
    let halfExtent := footprint.worldSize size / 2
    if grid.kind.isHex then grid.cellCenter (grid.worldToCell world)
    else
      let step := footprint.cornerStep * size
      let localCorner := world - grid.origin - Vec2.splat halfExtent
      let snappedCorner : Vec2 K := ⟨halfUp (localCorner.x / step) * step, halfUp (localCorner.y / step) * step⟩
      snappedCorner + grid.origin + Vec2.splat halfExtent

/-- The cells a token covers. -/
def coveredCells (centre : Vec2 K) (footprint : Footprint K) : CoveredCells :=
  if grid.kind ≠ .square ∨ footprint.cells < 1 then
    let cell := grid.worldToCell centre
    { min := cell, max := cell }
  else
    let size := grid.safeSize
    let across : K := Max.max (roundAway footprint.cells : K) 1
    let corner : Vec2 K :=
      ⟨(centre - grid.origin).x / size - across / 2, (centre - grid.origin).y / size - across / 2⟩
    let min : Cell ℤ := ⟨halfUp corner.x, halfUp corner.y⟩
    let last := ⌊across⌋ - 1
    { min, max := ⟨min.q + last, min.r + last⟩ }

end GridSpec

end grid

end ThunderForge.Canvas
