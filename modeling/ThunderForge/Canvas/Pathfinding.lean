import Mathlib.Data.List.Destutter
import ThunderForge.Canvas.Grid
import ThunderForge.Lib.AStar

/-! The way round the walls of a scene (`thunderforge-canvas-core/src/pathfinding.rs`, with the walls of `wall.rs`): a
search over the cells of a square grid, then the walk it finds pulled taut. -/

namespace ThunderForge.Canvas

open AStar

/-! Walls. -/

inductive DoorState where
  | none
  | open'
  | closed
  deriving DecidableEq

structure Wall (K : Type) where
  id : String
  x1 : K
  y1 : K
  x2 : K
  y2 : K
  blocksMovement : Bool
  doorState : DoorState

namespace Wall

variable {K : Type} (wall : Wall K)

def start : Vec2 K := ⟨wall.x1, wall.y1⟩

def end' : Vec2 K := ⟨wall.x2, wall.y2⟩

def currentlyBlocksMovement : Bool := if wall.doorState = .open' then false else wall.blocksMovement

end Wall

section walls

variable {K : Type} [Field K] [LinearOrder K]

def segmentsIntersect (p1 p2 p3 p4 : Vec2 K) : Bool :=
  let cross (o a b : Vec2 K) : K := (a.x - o.x) * (b.y - o.y) - (a.y - o.y) * (b.x - o.x)
  let onSegment (p q r : Vec2 K) : Bool :=
    q.x ≤ max p.x r.x ∧ q.x ≥ min p.x r.x ∧ q.y ≤ max p.y r.y ∧ q.y ≥ min p.y r.y
  let d1 := cross p3 p4 p1
  let d2 := cross p3 p4 p2
  let d3 := cross p1 p2 p3
  let d4 := cross p1 p2 p4
  if ((d1 > 0 ∧ d2 < 0) ∨ (d1 < 0 ∧ d2 > 0)) ∧ ((d3 > 0 ∧ d4 < 0) ∨ (d3 < 0 ∧ d4 > 0)) then true
  else if d1 = 0 ∧ onSegment p3 p1 p4 then true
  else if d2 = 0 ∧ onSegment p3 p2 p4 then true
  else if d3 = 0 ∧ onSegment p1 p3 p2 then true
  else if d4 = 0 ∧ onSegment p1 p4 p2 then true
  else false

/-- The wall in the way of a move. A move that goes nowhere has none. -/
def movementBlockedBy (from' to' : Vec2 K) (walls : List (Wall K)) : Option (Wall K) :=
  if from' = to' then none
  else (walls.filter Wall.currentlyBlocksMovement).find? fun wall => segmentsIntersect from' to' wall.start wall.end'

end walls

/-! The search. -/

/-- What bounds a search. -/
structure PathOptions where
  /-- The rectangle of cells a path may use, both corners inclusive. -/
  bounds : Option (Cell ℤ × Cell ℤ)
  blocked : Finset (Cell ℤ)
  maxNodes : ℕ

/-- `PathOptions::default` -/
def PathOptions.default : PathOptions := { bounds := none, blocked := ∅, maxNodes := 20000 }

def PathOptions.inside (options : PathOptions) (c : Cell ℤ) : Bool :=
  match options.bounds with
  | none => true
  | some (lo, hi) => c.q ≥ lo.q ∧ c.q ≤ hi.q ∧ c.r ≥ lo.r ∧ c.r ≤ hi.r

/-- Where the search would not end in an answer. -/
inductive Fault where
  | missingCost
  | cyclicRoute
  deriving DecidableEq

namespace Pathfinding

/-- The eight steps, orthogonal first. -/
def steps : List (ℤ × ℤ) := [(0, -1), (1, 0), (0, 1), (-1, 0), (1, -1), (1, 1), (-1, 1), (-1, -1)]

section search

variable {K : Type} [Field K] [LinearOrder K] [HasSqrt K]

/-- How far, in cells, a pulled-taut leg keeps from a wall it passes. -/
def clearance : K := 3 / 10

/-- Octile distance between two cells, in cells. -/
def octile (a b : Cell ℤ) : K :=
  let dx : K := (a.q - b.q).natAbs
  let dy : K := (a.r - b.r).natAbs
  max dx dy + (HasSqrt.sqrt 2 - 1) * min dx dy

omit [Field K] [HasSqrt K] in
/-- `Open::cmp`, read as which of two the heap pops first. -/
def before (a b : Open (Cell ℤ) K) : Bool :=
  a.f < b.f ∨ a.f = b.f ∧
    (a.h < b.h ∨ a.h = b.h ∧
      (a.cell.r < b.cell.r ∨ a.cell.r = b.cell.r ∧ a.cell.q ≤ b.cell.q))

variable (grid : GridSpec K) (walls : List (Wall K)) (options : PathOptions) (goal : Cell ℤ)

def free (c : Cell ℤ) : Bool := c = goal ∨ (options.inside c ∧ c ∉ options.blocked)

def clear (a b : Cell ℤ) : Bool := (movementBlockedBy (grid.cellCenter a) (grid.cellCenter b) walls).isNone

/-- Whether a cell beside a diagonal step is open, and the way through it. -/
def around (cell next side : Cell ℤ) : Bool :=
  options.inside side ∧ side ∉ options.blocked ∧ clear grid walls cell side ∧ clear grid walls side next

/-- One of the eight steps from a cell that is expanded. -/
def visit (cell : Cell ℤ) (here : K) (s : State (Cell ℤ) K) (d : ℤ × ℤ) : State (Cell ℤ) K :=
  let next : Cell ℤ := ⟨cell.q + d.1, cell.r + d.2⟩
  if next ∈ s.done ∨ ¬ free options goal next ∨ ¬ clear grid walls cell next then s
  else
    let sideA : Cell ℤ := ⟨cell.q + d.1, cell.r⟩
    let sideB : Cell ℤ := ⟨cell.q, cell.r + d.2⟩
    if (d.1 ≠ 0 ∧ d.2 ≠ 0) ∧ (¬ around grid walls options cell next sideA ∨ ¬ around grid walls options cell next sideB)
    then s
    else
      let step : K := if d.1 ≠ 0 ∧ d.2 ≠ 0 then HasSqrt.sqrt 2 else 1
      let g := here + step
      if (s.cost next).any (· ≤ g) then s
      else
        let h := octile next goal
        { s with
          cost := Function.update s.cost next (some g)
          came := Function.update s.came next (some cell)
          open' := { f := g + h, h, cell := next } :: s.open' }

@[simp] theorem visit_done (cell : Cell ℤ) (here : K) (s : State (Cell ℤ) K) (d : ℤ × ℤ) :
    (visit grid walls options goal cell here s d).done = s.done := by
  simp only [visit]
  split_ifs <;> rfl

@[simp] theorem foldl_visit_done (cell : Cell ℤ) (here : K) (directions : List (ℤ × ℤ)) (s : State (Cell ℤ) K) :
    (directions.foldl (visit grid walls options goal cell here) s).done = s.done := by
  induction directions generalizing s with
  | nil => rfl
  | cons d directions ih => rw [List.foldl_cons, ih, visit_done]

/-- The search from what it knows, to the state in which it takes the goal. -/
def search (s : State (Cell ℤ) K) : Except Fault (Option (State (Cell ℤ) K)) :=
  match _hpop : popLeast before s.open' with
  | none => .ok none
  | some (entry, rest) =>
    if _hdone : entry.cell ∈ s.done then search { s with open' := rest }
    else
      let closed := { s with open' := rest, done := insert entry.cell s.done }
      if entry.cell = goal then .ok (some closed)
      else if _hbudget : closed.done.card > options.maxNodes then .ok none
      else
        match closed.cost entry.cell with
        | none => .error .missingCost
        | some here => search (steps.foldl (visit grid walls options goal entry.cell here) closed)
termination_by (options.maxNodes + 1 - s.done.card, s.open'.length)
decreasing_by
  · apply Prod.Lex.right
    have hlength := popLeast_length _hpop
    simp [hlength]
  · apply Prod.Lex.left
    have hcard := Finset.card_insert_of_notMem _hdone
    simp only [foldl_visit_done, closed] at _hbudget ⊢
    omega

/-- The cells from the start to the goal, as the predecessors of the search lead back. -/
def findRoute (start : Cell ℤ) : Except Fault (Option (List (Cell ℤ))) :=
  match search grid walls options goal (.first start (octile start goal)) with
  | .error fault => .error fault
  | .ok none => .ok none
  | .ok (some s) =>
    -- A cell is passed once at most on the way back, unless the predecessors lead in a circle.
    match backtrack s.came (s.done.card + 1) goal [] with
    | none => .error .cyclicRoute
    | some cells => .ok (some cells)

end search

section taut

variable {K : Type} [Field K] [LinearOrder K] [FloorRing K] [HasSqrt K]

/-- Whether a straight leg is walkable: no wall across it or across either of its edges a little to each side, and no
blocked cell under it. -/
def sees (grid : GridSpec K) (a b : Vec2 K) (walls : List (Wall K)) (blocked : Finset (Cell ℤ)) (goal : Cell ℤ) : Bool :=
  let along := b - a
  let length := along.length
  if length = 0 then true
  else
    let side : Vec2 K :=
      ⟨-along.y / length * clearance * grid.safeSize, along.x / length * clearance * grid.safeSize⟩
    let lanes : List (Vec2 K) := [0, side, -side]
    if lanes.any fun off => (movementBlockedBy (a + off) (b + off) walls).isSome then false
    else if blocked = ∅ then true
    else
      let samples := ⌈length / (grid.safeSize * (1 / 4))⌉.toNat
      (List.range (samples + 1)).all fun k =>
        let t : K := k / samples
        let p : Vec2 K := ⟨a.x + (b.x - a.x) * t, a.y + (b.y - a.y) * t⟩
        lanes.all fun off =>
          let cell := grid.worldToCell (p + off)
          cell = goal ∨ cell ∉ blocked

/-- The farthest of the points that is seen, and those after it. -/
def farthest {P : Type} (seen : P → Bool) : List P → Option (P × List P)
  | [] => none
  | b :: later => (farthest seen later).or (if seen b then some (b, later) else none)

theorem farthest_length {P : Type} {seen : P → Bool} {points later : List P} {c : P}
    (h : farthest seen points = some (c, later)) : later.length < points.length := by
  induction points with
  | nil => cases h
  | cons b points ih =>
    rw [farthest, Option.or_eq_some_iff] at h
    rcases h with h | ⟨-, h⟩
    · exact (ih h).trans (Nat.lt_succ_self _)
    · split at h <;> cases h
      exact Nat.lt_succ_self _

/-- The points kept after one that is: the next, or the farthest later one it sees. -/
def keptAfter {P : Type} (seen : P → P → Bool) (a : P) : List P → List P
  | [] => []
  | b :: later =>
    match _hfar : farthest (seen a) later with
    | none => b :: keptAfter seen b later
    | some (c, rest) => c :: keptAfter seen c rest
termination_by points => points.length
decreasing_by
  · simp
  · have hlength := farthest_length _hfar
    simp only [List.length_cons]
    omega

/-- Drops every waypoint its neighbours can do without. -/
def pullTaut (grid : GridSpec K) (raw : List (Vec2 K)) (walls : List (Wall K)) (blocked : Finset (Cell ℤ))
    (goal : Cell ℤ) : List (Vec2 K) :=
  match raw with
  | [] => [] -- `raw[0]` would panic, but there is always the point to go from
  | a :: later => a :: keptAfter (fun a b => sees grid a b walls blocked goal) a later

end taut

end Pathfinding

section path

variable {K : Type} [Field K] [LinearOrder K] [FloorRing K] [HasSqrt K]

open Pathfinding

/-- The points that are pulled taut: those to go from and to, and the centres between them. -/
def rawPath (grid : GridSpec K) (from' to' : Vec2 K) (cells : List (Cell ℤ)) : List (Vec2 K) :=
  (from' :: (cells.map grid.cellCenter ++ [to'])).destutter (· ≠ ·)

/-- The waypoints round every wall and closed door, or none when there is no way within the bounds and budget. -/
def findPath (grid : GridSpec K) (from' to' : Vec2 K) (walls : List (Wall K)) (options : PathOptions) :
    Except Fault (Option (List (Vec2 K))) :=
  if grid.kind ≠ .square then .ok none
  else
    let start := grid.worldToCell from'
    let goal := grid.worldToCell to'
    if start = goal ∧ (movementBlockedBy from' to' walls).isNone then .ok (some [from', to'])
    else if (movementBlockedBy from' (grid.cellCenter start) walls).isSome ∨
        (movementBlockedBy (grid.cellCenter goal) to' walls).isSome then .ok none
    else
      match findRoute grid walls options goal start with
      | .error fault => .error fault
      | .ok none => .ok none
      | .ok (some cells) => .ok (some (pullTaut grid (rawPath grid from' to' cells) walls options.blocked goal))

end path

end ThunderForge.Canvas
