import Mathlib.Data.BitVec
import Mathlib.GroupTheory.FreeGroup.Reduce
import Mathlib.Tactic.LinearCombination
import ThunderForge.Canvas.Grid

/-! Planned movement (`thunderforge-canvas-core/src/movement.rs`): steps between cells, where they carry a token, and
the route a player plans. A route holds the cells of the freely reduced word of its steps: a correction is taken back,
not charged for. -/

namespace ThunderForge.Canvas

inductive Step where
  | north
  | south
  | east
  | west
  deriving DecidableEq

namespace Step

variable {ι : Type} [CommRing ι]

/-- The neighbouring cell in a direction. -/
def apply (step : Step) (cell : Cell ι) (kind : GridKind) : Cell ι :=
  match kind with
  | .square | .gridless | .hexPointyTop =>
    match step with
    | north => ⟨cell.q, cell.r + 1⟩
    | south => ⟨cell.q, cell.r - 1⟩
    | east => ⟨cell.q + 1, cell.r⟩
    | west => ⟨cell.q - 1, cell.r⟩
  | .hexFlatTop =>
    match step with
    | north => ⟨cell.q, cell.r + 1⟩
    | south => ⟨cell.q, cell.r - 1⟩
    | east => ⟨cell.q + 1, cell.r - 1⟩
    | west => ⟨cell.q - 1, cell.r + 1⟩

def opposite : Step → Step
  | north => south
  | south => north
  | east => west
  | west => east

end Step

/-! A token that steps. -/

section tokens

variable {K : Type} [Field K] [LinearOrder K] [FloorRing K] [HasSqrt K]

/-- Where a token lands that is carried as a cell is. -/
def footprintMoved (grid : GridSpec K) (position : Vec2 K) (footprint : Footprint K) (origin target : Cell ℤ) : Vec2 K :=
  grid.snapFootprint (position + (grid.cellCenter target - grid.cellCenter origin)) footprint

def stepToken (grid : GridSpec K) (position : Vec2 K) (footprint : Footprint K) (step : Step) : Vec2 K :=
  let here := grid.worldToCell position
  footprintMoved grid position footprint here (step.apply here grid.kind)

end tokens

/-! A route that is planned. -/

/-- The cells visited from an origin on, in order. -/
structure PlannedPath (ι : Type) where
  origin : Cell ι
  steps : List (Cell ι)
  deriving DecidableEq

namespace PlannedPath

variable {ι : Type}

def new (origin : Cell ι) : PlannedPath ι := { origin, steps := [] }

/-- Where a token would end. -/
def head (path : PlannedPath ι) : Cell ι := path.steps.getLast?.getD path.origin

/-- The cell before the last. -/
def previous (path : PlannedPath ι) : Cell ι :=
  if path.steps.length ≥ 2 then (path.steps[path.steps.length - 2]?).getD path.origin else path.origin

/-- One step more, or the last one taken back. -/
def push [CommRing ι] [DecidableEq ι] (kind : GridKind) (path : PlannedPath ι) (step : Step) : PlannedPath ι :=
  let next := step.apply path.head kind
  if path.steps ≠ [] ∧ next = path.previous then { path with steps := path.steps.dropLast }
  else { path with steps := path.steps ++ [next] }

/-- The number of steps, as the number `as f32` makes of it. -/
def costInCells {F : Type} (asF32 : Nat → F) (path : PlannedPath ι) : F := asF32 path.steps.length

/-- The route of a sequence of steps. -/
def plan [CommRing ι] [DecidableEq ι] (kind : GridKind) (origin : Cell ι) (steps : List Step) : PlannedPath ι :=
  steps.foldl (push kind) (new origin)

end PlannedPath

/-! The word of a route. -/

inductive Axis where
  | vertical
  | horizontal
  deriving DecidableEq

namespace Step

/-- A step as a letter of the free group on the two axes. -/
def letter : Step → Axis × Bool
  | north => (.vertical, true)
  | south => (.vertical, false)
  | east => (.horizontal, true)
  | west => (.horizontal, false)

def ofLetter : Axis × Bool → Step
  | (.vertical, true) => north
  | (.vertical, false) => south
  | (.horizontal, true) => east
  | (.horizontal, false) => west

@[simp] theorem ofLetter_letter (step : Step) : ofLetter step.letter = step := by cases step <;> rfl

@[simp] theorem letter_ofLetter (letter : Axis × Bool) : (ofLetter letter).letter = letter := by
  obtain ⟨_ | _, _ | _⟩ := letter <;> rfl

theorem letter_opposite (step : Step) : step.opposite.letter = (step.letter.1, !step.letter.2) := by
  cases step <;> rfl

end Step

/-- The steps that are left when steps that undo each other are cancelled, until none do. -/
def reduction (steps : List Step) : List Step := (FreeGroup.reduce (steps.map Step.letter)).map Step.ofLetter

section words

variable {ι : Type} [CommRing ι] (kind : GridKind)

/-- The cells that steps lead through. -/
def walk (cell : Cell ι) : List Step → List (Cell ι)
  | [] => []
  | step :: steps => step.apply cell kind :: walk (step.apply cell kind) steps

/-- Where steps lead. -/
def moved (cell : Cell ι) (steps : List Step) : Cell ι := steps.foldl (fun cell step => step.apply cell kind) cell

theorem walk_append (cell : Cell ι) (steps more : List Step) :
    walk kind cell (steps ++ more) = walk kind cell steps ++ walk kind (moved kind cell steps) more := by
  induction steps generalizing cell with
  | nil => rfl
  | cons step steps ih =>
      rw [List.cons_append, walk, ih]
      rfl

@[simp] theorem length_walk (cell : Cell ι) (steps : List Step) : (walk kind cell steps).length = steps.length := by
  induction steps generalizing cell with
  | nil => rfl
  | cons step steps ih => rw [walk, List.length_cons, ih, List.length_cons]

theorem moved_concat (cell : Cell ι) (steps : List Step) (step : Step) :
    moved kind cell (steps ++ [step]) = step.apply (moved kind cell steps) kind := by
  unfold moved
  rw [List.foldl_append]
  rfl

theorem head_walk (origin : Cell ι) (steps : List Step) :
    (PlannedPath.mk origin (walk kind origin steps)).head = moved kind origin steps := by
  rcases List.eq_nil_or_concat steps with rfl | ⟨before, step, rfl⟩
  · rfl
  · rw [List.concat_eq_append, moved_concat, walk_append]
    simp [PlannedPath.head, walk]

theorem previous_walk (origin : Cell ι) (steps : List Step) (step : Step) :
    (PlannedPath.mk origin (walk kind origin (steps ++ [step]))).previous = moved kind origin steps := by
  rcases List.eq_nil_or_concat steps with rfl | ⟨before, last, rfl⟩
  · rfl
  · rw [List.concat_eq_append, moved_concat, walk_append, walk_append]
    simp [PlannedPath.previous, walk]

/-- A step leads back where it undoes the one before, and only there. -/
theorem apply_apply_eq_iff (htwo : (2 : ι) ≠ 0) (first second : Step) (cell : Cell ι) :
    second.apply (first.apply cell kind) kind = cell ↔ second = first.opposite := by
  have hone : (1 : ι) ≠ 0 := fun h => htwo (by rw [← one_add_one_eq_two, h, add_zero])
  have hdouble : (1 + 1 : ι) ≠ 0 := by rwa [one_add_one_eq_two]
  have hnegDouble : (-1 + -1 : ι) ≠ 0 := fun h => htwo (by linear_combination -h)
  obtain ⟨q, r⟩ := cell
  cases kind <;> cases first <;> cases second <;>
    simp [Step.apply, Step.opposite, hone, hdouble, hnegDouble, add_assoc, sub_eq_add_neg]

end words

/-! The word that a route is the cells of. -/

section reductions

theorem reduction_eq_self {steps : List Step} (h : FreeGroup.IsReduced (steps.map Step.letter)) :
    reduction steps = steps := by
  unfold reduction
  rw [h.reduce_eq, List.map_map]
  exact List.map_id'' Step.ofLetter_letter steps

theorem letters_reduction (steps : List Step) :
    (reduction steps).map Step.letter = FreeGroup.reduce (steps.map Step.letter) := by
  unfold reduction
  rw [List.map_map]
  exact List.map_id'' Step.letter_ofLetter _

theorem isReduced_reduction (steps : List Step) : FreeGroup.IsReduced ((reduction steps).map Step.letter) := by
  rw [letters_reduction]
  exact FreeGroup.isReduced_iff_reduce_eq.mpr FreeGroup.reduce.idem

theorem reduction_reduction_append (steps more : List Step) :
    reduction (reduction steps ++ more) = reduction (steps ++ more) := by
  unfold reduction
  congr 1
  rw [List.map_append, show ((FreeGroup.reduce (steps.map Step.letter)).map Step.ofLetter).map Step.letter = _ from
    letters_reduction steps, List.map_append, ← FreeGroup.reduce_append_reduce_reduce, FreeGroup.reduce.idem,
    FreeGroup.reduce_append_reduce_reduce]

/-- One step more, after a word that is reduced: it takes back the last one, or stays. -/
theorem reduction_concat_opposite {steps : List Step} {last : Step}
    (h : FreeGroup.IsReduced ((steps ++ [last]).map Step.letter)) :
    reduction (steps ++ [last] ++ [last.opposite]) = steps := by
  have hreduced : FreeGroup.IsReduced (steps.map Step.letter) := by
    rw [List.map_append] at h
    exact h.infix (List.prefix_append ..).isInfix
  have hstep : FreeGroup.Red.Step ((steps ++ [last] ++ [last.opposite]).map Step.letter) (steps.map Step.letter) := by
    rw [List.append_assoc, List.map_append]
    have hcancel := @FreeGroup.Red.Step.not _ (steps.map Step.letter) [] last.letter.1 last.letter.2
    rwa [List.append_nil, ← Step.letter_opposite] at hcancel
  unfold reduction
  rw [FreeGroup.reduce.Step.eq hstep]
  exact reduction_eq_self hreduced

theorem reduction_concat {steps : List Step} {last step : Step}
    (h : FreeGroup.IsReduced ((steps ++ [last]).map Step.letter)) (hne : step ≠ last.opposite) :
    reduction (steps ++ [last] ++ [step]) = steps ++ [last] ++ [step] := by
  refine reduction_eq_self ?_
  rw [List.map_append, List.map_append]
  rw [List.map_append] at h
  refine h.append_overlap ?_ (by simp)
  have hpair : last.letter.1 = step.letter.1 → last.letter.2 = step.letter.2 := by
    intro haxis
    cases last <;> cases step <;> first | rfl | exact absurd rfl hne | cases haxis
  simpa [FreeGroup.IsReduced] using hpair

end reductions

namespace PlannedPath

variable {ι : Type} [CommRing ι] [DecidableEq ι] {kind : GridKind}

/-- What a route is after one step more. -/
theorem push_walk (htwo : (2 : ι) ≠ 0) {origin : Cell ι} {steps : List Step}
    (h : FreeGroup.IsReduced (steps.map Step.letter)) (step : Step) :
    push kind { origin, steps := walk kind origin steps } step =
      { origin, steps := walk kind origin (reduction (steps ++ [step])) } := by
  unfold push
  rw [head_walk]
  rcases List.eq_nil_or_concat steps with rfl | ⟨before, last, rfl⟩
  · have hone : reduction [step] = [step] := reduction_eq_self FreeGroup.IsReduced.singleton
    rw [List.nil_append, hone]
    rfl
  · rw [List.concat_eq_append] at h ⊢
    rw [previous_walk, moved_concat]
    have hne : walk kind origin (before ++ [last]) ≠ [] := by
      simp [walk_append, walk]
    by_cases hback : step = last.opposite
    · have hsame := (apply_apply_eq_iff kind htwo last step (moved kind origin before)).mpr hback
      rw [if_pos ⟨hne, hsame⟩, hback, reduction_concat_opposite h, walk_append]
      simp [walk]
    · have hother := mt (apply_apply_eq_iff kind htwo last step (moved kind origin before)).mp hback
      rw [if_neg (fun hboth => hother hboth.2), reduction_concat h hback, walk_append kind origin (before ++ [last])]
      rw [moved_concat]
      rfl

/-- A route holds the cells of the reduced word of its steps. -/
theorem plan_eq (htwo : (2 : ι) ≠ 0) (origin : Cell ι) (steps : List Step) :
    plan kind origin steps = { origin, steps := walk kind origin (reduction steps) } := by
  induction steps using List.reverseRecOn with
  | nil => rfl
  | append_singleton steps step ih =>
      have hplan : plan kind origin (steps ++ [step]) = push kind (plan kind origin steps) step := by
        unfold plan
        rw [List.foldl_append]
        rfl
      rw [hplan, ih, push_walk htwo (isReduced_reduction steps), reduction_reduction_append]

end PlannedPath

section routes

variable {ι : Type} [CommRing ι] {kind : GridKind}

/-- From a cell to those it shares an edge with. -/
def edges (kind : GridKind) : List (ι × ι) :=
  match kind with
  | .square | .gridless => [(0, 1), (0, -1), (1, 0), (-1, 0)]
  | .hexPointyTop | .hexFlatTop => [(0, 1), (0, -1), (1, 0), (-1, 0), (1, -1), (-1, 1)]

def Adjacent (kind : GridKind) (a b : Cell ι) : Prop := (b.q - a.q, b.r - a.r) ∈ edges kind

theorem adjacent_apply (step : Step) (cell : Cell ι) : Adjacent kind cell (step.apply cell kind) := by
  obtain ⟨q, r⟩ := cell
  cases kind <;> cases step <;> simp [Adjacent, edges, Step.apply, sub_sub_cancel_left]

theorem isChain_walk (cell : Cell ι) (steps : List Step) :
    (cell :: walk kind cell steps).IsChain (Adjacent kind) := by
  induction steps generalizing cell with
  | nil => exact .singleton _
  | cons step steps ih => exact .cons_cons (adjacent_apply step cell) (ih _)

/-- The cells of a reduced word never go straight back. -/
theorem walk_onward (htwo : (2 : ι) ≠ 0) {steps : List Step} (h : FreeGroup.IsReduced (steps.map Step.letter))
    {cell a b : Cell ι} {index : Nat} (ha : (cell :: walk kind cell steps)[index]? = some a)
    (hb : (cell :: walk kind cell steps)[index + 2]? = some b) : a ≠ b := by
  induction steps generalizing cell index with
  | nil => simp [walk] at hb
  | cons first steps ih =>
      cases steps with
      | nil => simp [walk] at hb
      | cons second steps =>
          rw [List.map_cons, List.map_cons, FreeGroup.isReduced_cons_cons] at h
          cases index with
          | succ index => exact ih h.2 ha hb
          | zero =>
              simp only [walk, List.getElem?_cons_zero, List.getElem?_cons_succ, Nat.zero_add, Option.some.injEq] at ha hb
              subst ha hb
              intro hback
              have hopposite := (apply_apply_eq_iff kind htwo first second cell).mp hback.symm
              rw [hopposite, Step.letter_opposite] at h
              simpa using h.1 rfl

/-- Where the cells of a word end does not change when it is reduced. -/
theorem moved_reduction (htwo : (2 : ι) ≠ 0) (origin : Cell ι) (steps : List Step) :
    moved kind origin (reduction steps) = moved kind origin steps := by
  induction steps using List.reverseRecOn with
  | nil => rfl
  | append_singleton steps step ih =>
      rw [← reduction_reduction_append, moved_concat, ← ih]
      have h := isReduced_reduction steps
      generalize reduction steps = word at h
      rcases List.eq_nil_or_concat word with rfl | ⟨before, last, rfl⟩
      · have hone : reduction [step] = [step] := reduction_eq_self FreeGroup.IsReduced.singleton
        rw [List.nil_append, hone]
        rfl
      · rw [List.concat_eq_append] at h ⊢
        by_cases hback : step = last.opposite
        · rw [hback, reduction_concat_opposite h, moved_concat]
          exact ((apply_apply_eq_iff kind htwo last _ _).mpr rfl).symm
        · rw [reduction_concat h hback, moved_concat]

/-- Steps that undo each other are cancelled until none do. -/
def CancelsTo (steps left : List Step) : Prop :=
  FreeGroup.Red (steps.map Step.letter) (left.map Step.letter) ∧ FreeGroup.IsReduced (left.map Step.letter)

theorem cancelsTo_iff {steps left : List Step} : CancelsTo steps left ↔ left = reduction steps := by
  constructor
  · rintro ⟨hred, hreduced⟩
    rw [← reduction_eq_self hreduced]
    unfold reduction
    rw [FreeGroup.reduce.eq_of_red hred]
  · rintro rfl
    refine ⟨?_, isReduced_reduction steps⟩
    rw [letters_reduction]
    exact FreeGroup.reduce.red

open PlannedPath in
/-- A route charges for the ground it covers and never for a correction. -/
structure ChargesForGround {ι : Type} [CommRing ι] [DecidableEq ι] (kind : GridKind) (origin : Cell ι)
    (steps : List Step) : Prop where
  /-- Whatever is cancelled first, the cells are those of what is left. -/
  cells : ∀ {left}, CancelsTo steps left → (plan kind origin steps).steps = walk kind origin left
  cancels : ∃ left, CancelsTo steps left
  same : ∀ {steps' left}, CancelsTo steps left → CancelsTo steps' left → plan kind origin steps' = plan kind origin steps
  head : (plan kind origin steps).head = moved kind origin steps
  neighbours : (origin :: (plan kind origin steps).steps).IsChain (Adjacent kind)
  onward : ∀ {index : Nat} {a b : Cell ι}, (origin :: (plan kind origin steps).steps)[index]? = some a →
    (origin :: (plan kind origin steps).steps)[index + 2]? = some b → a ≠ b
  cost : ∀ {F : Type} (asF32 : Nat → F) {left}, CancelsTo steps left →
    (plan kind origin steps).costInCells asF32 = asF32 left.length

theorem chargesForGround [DecidableEq ι] (htwo : (2 : ι) ≠ 0) (kind : GridKind) (origin : Cell ι) (steps : List Step) :
    ChargesForGround kind origin steps := by
  have hplan : PlannedPath.plan kind origin steps = { origin, steps := walk kind origin (reduction steps) } :=
    PlannedPath.plan_eq htwo origin steps
  have hcells : (PlannedPath.plan kind origin steps).steps = walk kind origin (reduction steps) := by rw [hplan]
  refine ⟨?_, ⟨reduction steps, cancelsTo_iff.mpr rfl⟩, ?_, ?_, ?_, ?_, ?_⟩
  · intro left hleft
    rw [cancelsTo_iff.mp hleft, hcells]
  · intro steps' left hleft hleft'
    rw [hplan, PlannedPath.plan_eq htwo, ← cancelsTo_iff.mp hleft, ← cancelsTo_iff.mp hleft']
  · rw [hplan, head_walk, moved_reduction htwo]
  · rw [hcells]
    exact isChain_walk _ _
  · rw [hcells]
    exact walk_onward htwo (isReduced_reduction steps)
  · intro F asF32 left hleft
    unfold PlannedPath.costInCells
    rw [hcells, length_walk, cancelsTo_iff.mp hleft]

/-- Routes over cells whose numbers are those of an `i32`. -/
theorem plan_chargesForGround (kind : GridKind) (origin : Cell (BitVec 32)) (steps : List Step) :
    ChargesForGround kind origin steps :=
  chargesForGround (by decide) kind origin steps

end routes

end ThunderForge.Canvas
