import Mathlib.Algebra.BigOperators.Group.List.Lemmas
import Mathlib.Algebra.Order.Group.Abs
import Mathlib.Algebra.Order.Ring.Int
import Mathlib.Algebra.Ring.Int.Defs
import Mathlib.Data.List.Nodup

/-! An amount split as evenly as it can be: everyone gets the quotient, and the first get one of the
remainder each. -/

namespace EvenSplit

/-- What the one at this place gets of an amount split among so many. -/
def share (amount : Int) (count place : Nat) : Int :=
  amount.tdiv count + if (place : Int) < amount.tmod count then 1 else 0

theorem share_nonneg {amount : Int} (hamount : 0 ≤ amount) (count place : Nat) : 0 ≤ share amount count place := by
  have hquotient := Int.tdiv_nonneg hamount (Int.natCast_nonneg count)
  unfold share
  split_ifs <;> omega

/-- No one gets more than one more than another. -/
theorem abs_share_sub_le (amount : Int) (count left right : Nat) :
    |share amount count left - share amount count right| ≤ 1 := by
  unfold share
  rw [abs_le]
  split_ifs <;> omega

/-- Counting those before a bound. -/
theorem sum_lt_bound (bound : Int) (hbound : 0 ≤ bound) (count : Nat) :
    ((List.range count).map fun place : Nat => if (place : Int) < bound then (1 : Int) else 0).sum =
      min (count : Int) bound := by
  induction count with
  | zero => simp [hbound]
  | succ count ih =>
      rw [List.range_succ, List.map_append, List.sum_append, ih, List.map_singleton, List.sum_singleton]
      split_ifs <;> omega

/-- Nothing of the amount is lost. -/
theorem sum_share {amount : Int} (hamount : 0 ≤ amount) {count : Nat} (hcount : 0 < count) :
    ((List.range count).map (share amount count)).sum = amount := by
  have hremainder := Int.tmod_lt_of_pos amount (by omega : (0 : Int) < count)
  have hnonneg := Int.tmod_nonneg (count : Int) hamount
  calc ((List.range count).map (share amount count)).sum
    _ = ((List.range count).map fun _ => amount.tdiv count).sum +
          ((List.range count).map fun place : Nat =>
            if (place : Int) < amount.tmod count then (1 : Int) else 0).sum :=
        List.sum_map_add
    _ = count * amount.tdiv count + amount.tmod count := by
        rw [sum_lt_bound _ hnonneg, min_eq_right hremainder.le, List.map_const', List.sum_replicate,
          List.length_range, nsmul_eq_mul]
    _ = amount := Int.mul_tdiv_add_tmod amount count

variable {α : Type*} [DecidableEq α]

/-- What one gets of an amount split among some. -/
def gain (amount : Int) (recipients : List α) (a : α) : Int :=
  if a ∈ recipients then share amount recipients.length (recipients.idxOf a) else 0

theorem gain_of_notMem {amount : Int} {recipients : List α} {a : α} (h : a ∉ recipients) :
    gain amount recipients a = 0 := if_neg h

theorem gain_getElem {amount : Int} {recipients : List α} (hnodup : recipients.Nodup) {place : Nat}
    (h : place < recipients.length) :
    gain amount recipients recipients[place] = share amount recipients.length place := by
  rw [gain, if_pos (List.getElem_mem h), hnodup.idxOf_getElem place h]

theorem sum_gain {amount : Int} (hamount : 0 ≤ amount) {recipients : List α} (hnodup : recipients.Nodup)
    (hsome : recipients ≠ []) : (recipients.map (gain amount recipients)).sum = amount := by
  have hshares : recipients.map (gain amount recipients) =
      (List.range recipients.length).map (share amount recipients.length) := by
    refine List.ext_getElem (by simp) fun place hleft hright => ?_
    rw [List.getElem_map, List.getElem_map, List.getElem_range]
    exact gain_getElem hnodup (by simpa using hleft)
  rw [hshares]
  exact sum_share hamount (List.length_pos_iff.mpr hsome)

theorem abs_gain_sub_le {amount : Int} {recipients : List α} {a b : α} (ha : a ∈ recipients)
    (hb : b ∈ recipients) : |gain amount recipients a - gain amount recipients b| ≤ 1 := by
  rw [gain, gain, if_pos ha, if_pos hb]
  exact abs_share_sub_le amount recipients.length _ _

/-- What one gets when the recipients are gone through in order. -/
theorem sum_zipIdx {amount : Int} {recipients : List α} (hnodup : recipients.Nodup) (a : α) :
    (recipients.zipIdx.map fun recipient =>
      if recipient.1 = a then share amount recipients.length recipient.2 else 0).sum =
        gain amount recipients a := by
  have hfrom (f : Nat → Int) (xs : List α) (first : Nat) (hxs : xs.Nodup) :
      ((xs.zipIdx first).map fun recipient => if recipient.1 = a then f recipient.2 else 0).sum =
        if a ∈ xs then f (first + xs.idxOf a) else 0 := by
    induction xs generalizing first with
    | nil => rfl
    | cons x xs ih =>
        obtain ⟨hx, hxs⟩ := List.nodup_cons.mp hxs
        rw [List.zipIdx_cons, List.map_cons, List.sum_cons, ih (first + 1) hxs]
        by_cases hxa : x = a
        · subst hxa
          simp [hx]
        · have hplace : first + 1 + xs.idxOf a = first + (x :: xs).idxOf a := by
            rw [List.idxOf_cons_ne _ hxa]
            omega
          rw [if_neg hxa, zero_add, hplace]
          simp only [List.mem_cons, Ne.symm hxa, false_or]
  rw [hfrom (share amount recipients.length) recipients 0 hnodup, Nat.zero_add]
  rfl

/-- An amount that some divide among themselves, to the last of it and as evenly as it can be. -/
structure Fair (amount : Int) (recipients : List α) (gained : α → Int) : Prop where
  once : recipients.Nodup
  total : (recipients.map gained).sum = amount
  even : ∀ a ∈ recipients, ∀ b ∈ recipients, |gained a - gained b| ≤ 1
  others : ∀ a, a ∉ recipients → gained a = 0

theorem fair_gain {amount : Int} (hamount : 0 ≤ amount) {recipients : List α} (hnodup : recipients.Nodup)
    (hsome : recipients ≠ []) : Fair amount recipients (gain amount recipients) where
  once := hnodup
  total := sum_gain hamount hnodup hsome
  even _ ha _ hb := abs_gain_sub_le ha hb
  others _ h := gain_of_notMem h

end EvenSplit
