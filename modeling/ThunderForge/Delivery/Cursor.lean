import Mathlib

/-! How far a reader of the event table may take it that it has seen everything: past the rows of a poll, from the
lowest id on, up to the first one so young that a transaction which took a lower id may still be open. -/

namespace ThunderForge.Delivery

/-- A `NaiveDateTime`, in nanoseconds. -/
abbrev NaiveDateTime := Int

/-- How long a row must have existed before the cursor may pass it: two seconds. -/
def commitGrace : Int := 2 * 10 ^ 9

/-- One row's identity, as far as the cursor is concerned. -/
structure RowStamp where
  id : Int
  createdAt : NaiveDateTime
deriving DecidableEq

/-- The loop of `settledCursor`: up to the first row that is not older than the cutoff. -/
def settleRows (cutoff : NaiveDateTime) : List RowStamp → Int → Int
  | [], settled => settled
  | row :: rows, settled => if cutoff ≤ row.createdAt then settled else settleRows cutoff rows (max settled row.id)

/-- The highest id the cursor may advance to, given what this poll returned. -/
def settledCursor (rows : List RowStamp) (current : Int) (now : NaiveDateTime) : Int :=
  settleRows (now - commitGrace) rows current

/-- A row old enough for the cursor to pass it. -/
def RowStamp.Settled (now : NaiveDateTime) (row : RowStamp) : Prop := row.createdAt < now - commitGrace

instance (now : NaiveDateTime) (row : RowStamp) : Decidable (row.Settled now) :=
  inferInstanceAs (Decidable (_ < _))

theorem le_settleRows (cutoff : NaiveDateTime) (rows : List RowStamp) (settled : Int) :
    settled ≤ settleRows cutoff rows settled := by
  induction rows generalizing settled with
  | nil => exact le_refl settled
  | cons row rows ih =>
      unfold settleRows
      split_ifs
      · exact le_refl settled
      · exact (le_max_left _ _).trans (ih _)

/-- It stays, or it is the id of a row older than the cutoff. -/
theorem settleRows_cases (cutoff : NaiveDateTime) (rows : List RowStamp) (settled : Int) :
    settleRows cutoff rows settled = settled ∨
      ∃ row ∈ rows, row.createdAt < cutoff ∧ settleRows cutoff rows settled = row.id := by
  induction rows generalizing settled with
  | nil => exact Or.inl rfl
  | cons row rows ih =>
      unfold settleRows
      split_ifs with hyoung
      · exact Or.inl rfl
      · rcases ih (max settled row.id) with hsame | ⟨row', hrow', hold, heq⟩
        · rcases max_choice settled row.id with hmax | hmax
          · exact Or.inl (hsame.trans hmax)
          · exact Or.inr ⟨row, List.mem_cons_self, not_le.mp hyoung, hsame.trans hmax⟩
        · exact Or.inr ⟨row', List.mem_cons_of_mem _ hrow', hold, heq⟩

/-- Of ascending rows, it passes only such as are older than the cutoff. -/
theorem old_of_le_settleRows {cutoff : NaiveDateTime} {rows : List RowStamp} {settled : Int}
    (hsorted : rows.Pairwise fun a b => a.id < b.id) (habove : ∀ row ∈ rows, settled < row.id) {row : RowStamp}
    (hrow : row ∈ rows) (hle : row.id ≤ settleRows cutoff rows settled) : row.createdAt < cutoff := by
  induction rows generalizing settled with
  | nil => cases hrow
  | cons first rows ih =>
      obtain ⟨hfirst, hsorted⟩ := List.pairwise_cons.mp hsorted
      have hlt : settled < first.id := habove first List.mem_cons_self
      unfold settleRows at hle
      split_ifs at hle with hyoung
      · exact absurd hle (not_le.mpr (habove row hrow))
      · rcases List.mem_cons.mp hrow with rfl | hrow
        · exact not_le.mp hyoung
        · rw [max_eq_right hlt.le] at hle
          exact ih hsorted hfirst hrow hle

/-- With all ascending rows older than the cutoff, it passes every one of them. -/
theorem le_settleRows_of_old {cutoff : NaiveDateTime} {rows : List RowStamp} {settled : Int}
    (hold : ∀ row ∈ rows, row.createdAt < cutoff) {row : RowStamp} (hrow : row ∈ rows) :
    row.id ≤ settleRows cutoff rows settled := by
  induction rows generalizing settled with
  | nil => cases hrow
  | cons first rows ih =>
      obtain ⟨hfirst, hrest⟩ := List.forall_mem_cons.mp hold
      unfold settleRows
      rw [if_neg (not_le.mpr hfirst)]
      rcases List.mem_cons.mp hrow with rfl | hrow
      · exact (le_max_right _ _).trans (le_settleRows _ _ _)
      · exact ih hrest hrow

section

variable {rows : List RowStamp} {current : Int} {now : NaiveDateTime}

/-- The cursor never goes backwards. -/
theorem le_settledCursor : current ≤ settledCursor rows current now := le_settleRows _ _ _

theorem settledCursor_cases (rows : List RowStamp) (current : Int) (now : NaiveDateTime) :
    settledCursor rows current now = current ∨
      ∃ row ∈ rows, row.Settled now ∧ settledCursor rows current now = row.id :=
  settleRows_cases _ _ _

theorem settled_of_le (hsorted : rows.Pairwise fun a b => a.id < b.id) (habove : ∀ row ∈ rows, current < row.id)
    {row : RowStamp} (hrow : row ∈ rows) (hle : row.id ≤ settledCursor rows current now) : row.Settled now :=
  old_of_le_settleRows hsorted habove hrow hle

theorem le_settledCursor_of_settled (hold : ∀ row ∈ rows, row.Settled now) {row : RowStamp} (hrow : row ∈ rows) :
    row.id ≤ settledCursor rows current now :=
  le_settleRows_of_old hold hrow

end

end ThunderForge.Delivery
