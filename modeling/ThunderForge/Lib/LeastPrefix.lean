import Mathlib

/-! Taking the elements of a list from the front, each with a weight, until some need is met: the least
prefix that is heavy enough, or the whole list when it is not. -/

namespace LeastPrefix

variable {α : Type*} (weight : α → Nat)

/-- How many elements are taken to meet the need. -/
def count (need : Nat) : List α → Nat
  | [] => 0
  | x :: xs => if need = 0 then 0 else count (need - weight x) xs + 1

/-- What the first elements weigh. -/
def weigh (xs : List α) (j : Nat) : Nat := ((xs.take j).map weight).sum

@[simp] theorem weigh_zero (xs : List α) : weigh weight xs 0 = 0 := rfl

@[simp] theorem weigh_succ (x : α) (xs : List α) (j : Nat) :
    weigh weight (x :: xs) (j + 1) = weight x + weigh weight xs j := rfl

variable {weight}

theorem count_le (need : Nat) (xs : List α) : count weight need xs ≤ xs.length := by
  induction xs generalizing need with
  | nil => exact Nat.le_refl 0
  | cons x xs ih =>
      unfold count
      split_ifs
      · exact Nat.zero_le _
      · exact Nat.succ_le_succ (ih _)

theorem weigh_lt_of_lt_count {need j : Nat} {xs : List α} (h : j < count weight need xs) :
    weigh weight xs j < need := by
  induction xs generalizing need j with
  | nil => exact absurd h (Nat.not_lt_zero j)
  | cons x xs ih =>
      unfold count at h
      split_ifs at h with hneed
      · exact absurd h (Nat.not_lt_zero j)
      cases j with
      | zero => exact Nat.pos_of_ne_zero hneed
      | succ j =>
          have hrest : weigh weight xs j < need - weight x := ih (Nat.lt_of_succ_lt_succ h)
          rw [weigh_succ]
          omega

theorem le_weigh_count (need : Nat) (xs : List α) :
    need ≤ weigh weight xs (count weight need xs) ∨ count weight need xs = xs.length := by
  induction xs generalizing need with
  | nil => exact .inr rfl
  | cons x xs ih =>
      unfold count
      split_ifs with hneed
      · exact .inl (hneed.trans_le (Nat.zero_le _))
      rcases ih (need - weight x) with hmet | hall
      · left
        rw [weigh_succ]
        omega
      · right
        rw [hall, List.length_cons]

end LeastPrefix
