import Mathlib.Data.List.Nodup
import Mathlib.Order.Lattice
import Mathlib.Data.Set.Defs

/-! Taking turns in a linear order, with a set of those who may that changes from turn to turn. The turn goes to the
next one who may, and when there is none it starts again from the least. -/

namespace RoundRobin

variable {α : Type*} [LinearOrder α]

/-- Who may take a turn, who takes it, and whether the order starts again with it. -/
structure Turn (α : Type*) where
  eligible : Set α
  taker : α
  wrapped : Bool

/-- What the turn after a holder's is. -/
inductive Follows : Option α → Turn α → Prop
  | enters {turn : Turn α} (htaker : turn.taker ∈ turn.eligible) (hleast : ∀ a ∈ turn.eligible, turn.taker ≤ a)
      (hwrapped : turn.wrapped = false) : Follows none turn
  | passes {holder : α} {turn : Turn α} (htaker : turn.taker ∈ turn.eligible) (hlater : holder < turn.taker)
      (hnext : ∀ a ∈ turn.eligible, holder < a → turn.taker ≤ a) (hwrapped : turn.wrapped = false) :
      Follows (some holder) turn
  | wraps {holder : α} {turn : Turn α} (htaker : turn.taker ∈ turn.eligible)
      (hlast : ∀ a ∈ turn.eligible, a ≤ holder) (hleast : ∀ a ∈ turn.eligible, turn.taker ≤ a)
      (hwrapped : turn.wrapped = true) : Follows (some holder) turn

theorem Follows.eligible {holder : Option α} {turn : Turn α} (h : Follows holder turn) :
    turn.taker ∈ turn.eligible := by
  cases h <;> assumption

theorem Follows.first {turn : Turn α} (h : Follows none turn) : turn.wrapped = false := by
  cases h
  assumption

/-- The order starts again when the turn does not come later in it. -/
theorem Follows.wrapped_iff {holder : α} {turn : Turn α} (h : Follows (some holder) turn) :
    turn.wrapped = true ↔ turn.taker ≤ holder := by
  cases h with
  | passes _ hlater _ hwrapped => simp [hwrapped, hlater]
  | wraps htaker hlast _ hwrapped => simp [hwrapped, hlast _ htaker]

theorem Follows.lt {holder : α} {turn : Turn α} (h : Follows (some holder) turn) (hwrapped : turn.wrapped = false) :
    holder < turn.taker := by
  rw [← not_le, ← h.wrapped_iff, hwrapped]
  exact Bool.false_ne_true

theorem Follows.le_of_later {holder a : α} {turn : Turn α} (h : Follows (some holder) turn)
    (hwrapped : turn.wrapped = false) (ha : a ∈ turn.eligible) (hlater : holder < a) : turn.taker ≤ a := by
  cases h with
  | passes _ _ hnext _ => exact hnext a ha hlater
  | wraps _ _ _ h => simp [hwrapped] at h

theorem Follows.le_holder {holder a : α} {turn : Turn α} (h : Follows (some holder) turn)
    (hwrapped : turn.wrapped = true) (ha : a ∈ turn.eligible) : a ≤ holder := by
  cases h with
  | passes _ _ _ h => simp [hwrapped] at h
  | wraps _ hlast _ _ => exact hlast a ha

/-- A round is opened by the least who may. -/
theorem Follows.opens {holder : Option α} {turn : Turn α} (h : Follows holder turn)
    (hopens : holder = none ∨ turn.wrapped = true) {a : α} (ha : a ∈ turn.eligible) : turn.taker ≤ a := by
  cases h with
  | enters _ hleast _ => exact hleast a ha
  | passes _ _ _ h => simp [h] at hopens
  | wraps _ _ hleast _ => exact hleast a ha

/-- Turns taken one after another. -/
def Run : Option α → List (Turn α) → Prop
  | _, [] => True
  | holder, turn :: rest => Follows holder turn ∧ Run (some turn.taker) rest

/-- Who holds the turn after some turns. -/
def holderAfter : Option α → List (Turn α) → Option α
  | holder, [] => holder
  | _, turn :: rest => holderAfter (some turn.taker) rest

theorem run_append {holder : Option α} {before after : List (Turn α)} :
    Run holder (before ++ after) ↔ Run holder before ∧ Run (holderAfter holder before) after := by
  induction before generalizing holder with
  | nil => simp [Run, holderAfter]
  | cons turn rest ih => simp only [List.cons_append, Run, holderAfter, ih, and_assoc]

/-- Turns in the middle of a run are a run. -/
theorem Run.cut {holder : Option α} {before within after : List (Turn α)} (h : Run holder (before ++ within ++ after)) :
    Run (holderAfter holder before) within :=
  (run_append.mp (run_append.mp h).1).2

/-- The order starts again exactly where a turn is not later in it than the one before. -/
theorem Run.wraps {holder : Option α} {turns : List (Turn α)} (h : Run holder turns) :
    turns.IsChain fun last next => next.wrapped = true ↔ ¬last.taker < next.taker := by
  induction turns generalizing holder with
  | nil => exact .nil
  | cons turn rest ih =>
      have hrest := ih h.2
      cases rest with
      | nil => exact .singleton turn
      | cons next later => exact .cons_cons (by rw [not_lt, h.2.1.wrapped_iff]) hrest

/-- Until the order starts again each turn comes later in it. -/
theorem Run.increasing {holder : α} {turns : List (Turn α)} (h : Run (some holder) turns)
    (hround : ∀ turn ∈ turns, turn.wrapped = false) : (holder :: turns.map Turn.taker).Pairwise (· < ·) := by
  induction turns generalizing holder with
  | nil => exact List.pairwise_singleton ..
  | cons turn rest ih =>
      obtain ⟨hturn, hrest⟩ := h
      have hlt := hturn.lt (hround turn List.mem_cons_self)
      have hincreasing := ih hrest fun next hnext => hround next (List.mem_cons_of_mem _ hnext)
      refine List.pairwise_cons.mpr ⟨fun a ha => ?_, hincreasing⟩
      rcases List.mem_cons.mp ha with rfl | ha
      · exact hlt
      · exact hlt.trans ((List.pairwise_cons.mp hincreasing).1 a ha)

/-- Who may at every turn of a round, and at the one that ends it, has had a turn. -/
theorem Run.everyone {holder a : α} {turns : List (Turn α)} {closing : Turn α}
    (h : Run (some holder) (turns ++ [closing])) (hround : ∀ turn ∈ turns, turn.wrapped = false)
    (hclosing : closing.wrapped = true) (ha : ∀ turn ∈ turns ++ [closing], a ∈ turn.eligible) (hle : holder ≤ a) :
    a ∈ holder :: turns.map Turn.taker := by
  induction turns generalizing holder with
  | nil =>
      have hlast := h.1.le_holder hclosing (ha closing (by simp))
      exact List.mem_cons.mpr (.inl (le_antisymm hlast hle))
  | cons turn rest ih =>
      obtain ⟨hturn, hrest⟩ := h
      rcases hle.eq_or_lt with rfl | hlt
      · exact List.mem_cons_self
      · have hnext := hturn.le_of_later (hround turn List.mem_cons_self) (ha turn (by simp)) hlt
        have hmem := ih hrest (fun next hnext => hround next (List.mem_cons_of_mem _ hnext))
          (fun next hnext => ha next (List.mem_cons_of_mem _ hnext)) hnext
        exact List.mem_cons_of_mem _ hmem

end RoundRobin
