import Mathlib.Data.List.Basic
import Mathlib.Order.Lattice
import Mathlib.Order.Nat

/-! Logs of timed events, newest first, in which some events are bad and some are good. How many bad
events a span of time without a good one contains. -/

namespace RateWindow

variable {α : Type*} (bad good : α → Bool)

/-- No good event falls into the span. -/
def Quiet (start length : Nat) (log : List (Nat × α)) : Prop :=
  ∀ event ∈ log, start ≤ event.1 → event.1 ≤ start + length → good event.2 = false

/-- How many bad events fall into the span. -/
def count (start length : Nat) (log : List (Nat × α)) : Nat :=
  log.countP fun event => bad event.2 && decide (start ≤ event.1 ∧ event.1 ≤ start + length)

/-- No quiet span shorter than the window contains more bad events than the bound. -/
def Bounded (bound window : Nat) (log : List (Nat × α)) : Prop :=
  ∀ start length, length < window → Quiet good start length log → count bad start length log ≤ bound

/-- The events since the last good one. -/
def sinceGood (log : List (Nat × α)) : List (Nat × α) := log.takeWhile fun event => !good event.2

/-- How many bad events since the last good one are less than the window before a time. -/
def recent (window time : Nat) (log : List (Nat × α)) : Nat :=
  (sinceGood good log).countP fun event => bad event.2 && decide (time < event.1 + window)

variable {bad good} {bound window start length time : Nat} {log : List (Nat × α)} {event : α}

theorem Bounded.nil : Bounded bad good bound window [] := fun _ _ _ _ => Nat.zero_le _

theorem Quiet.of_cons (h : Quiet good start length ((time, event) :: log)) : Quiet good start length log :=
  fun e he => h e (List.mem_cons_of_mem _ he)

@[simp] theorem sinceGood_cons_good (h : good event = true) : sinceGood good ((time, event) :: log) = [] := by
  simp [sinceGood, h]

@[simp] theorem sinceGood_cons_other (h : good event = false) :
    sinceGood good ((time, event) :: log) = (time, event) :: sinceGood good log := by
  simp [sinceGood, h]

/-- In a quiet span that reaches up to now, every event came after the last good one. -/
theorem count_le_recent (hordered : ∀ e ∈ log, e.1 ≤ time) (hsorted : log.Pairwise fun e e' => e'.1 ≤ e.1)
    (hquiet : Quiet good start length log) (hlength : length < window) (hnow : time ≤ start + length) :
    count bad start length log ≤ recent bad good window time log := by
  induction log with
  | nil => exact le_rfl
  | cons e log ih =>
      obtain ⟨at_, event⟩ := e
      have hat : at_ ≤ time := hordered _ List.mem_cons_self
      obtain ⟨holder, hsorted⟩ := List.pairwise_cons.mp hsorted
      cases hgood : good event with
      | true =>
          -- The good event lies before the span, and so does everything older.
          have hbefore : at_ < start := by
            by_contra hnot
            have := hquiet _ List.mem_cons_self (not_lt.mp hnot) (hat.trans hnow)
            rw [hgood] at this
            cases this
          have hnone : count bad start length ((at_, event) :: log) = 0 := by
            refine List.countP_eq_zero.mpr fun e he => ?_
            have hle : e.1 ≤ at_ := by
              obtain rfl | he := List.mem_cons.mp he
              · exact le_rfl
              · exact holder e he
            simp only [Bool.and_eq_true, decide_eq_true_eq, not_and]
            omega
          omega
      | false =>
          have hrest := ih (fun e he => hordered e (List.mem_cons_of_mem _ he)) hsorted hquiet.of_cons
          unfold recent at hrest ⊢
          unfold count at hrest ⊢
          rw [sinceGood_cons_other hgood, List.countP_cons, List.countP_cons]
          cases hbad : bad event with
          | false => simpa [hbad] using hrest
          | true =>
              have hrecent : (start ≤ at_ ∧ at_ ≤ start + length) → time < at_ + window := by omega
              by_cases hin : start ≤ at_ ∧ at_ ≤ start + length
              · simp only [hin, hrecent hin]
                simpa using hrest
              · simp only [hin]
                exact hrest.trans (Nat.le_add_right _ _)

/-- An event that is not bad breaks no bound. -/
theorem Bounded.cons_other (h : Bounded bad good bound window log) (hevent : bad event = false) :
    Bounded bad good bound window ((time, event) :: log) := by
  intro start length hlength hquiet
  calc count bad start length ((time, event) :: log)
      = count bad start length log := by simp [count, hevent]
    _ ≤ bound := h start length hlength hquiet.of_cons

/-- A bad event breaks no bound while fewer bad ones than the bound are recent. -/
theorem Bounded.cons_bad (h : Bounded bad good bound window log) (hordered : ∀ e ∈ log, e.1 ≤ time)
    (hsorted : log.Pairwise fun e e' => e'.1 ≤ e.1) (hrecent : recent bad good window time log < bound) :
    Bounded bad good bound window ((time, event) :: log) := by
  intro start length hlength hquiet
  by_cases hin : start ≤ time ∧ time ≤ start + length
  · calc count bad start length ((time, event) :: log)
        ≤ count bad start length log + 1 := by
          rw [count, count, List.countP_cons]
          split <;> omega
      _ ≤ recent bad good window time log + 1 :=
          Nat.succ_le_succ (count_le_recent hordered hsorted hquiet.of_cons hlength hin.2)
      _ ≤ bound := hrecent
  · calc count bad start length ((time, event) :: log)
        = count bad start length log := by simp [count, hin]
      _ ≤ bound := h start length hlength hquiet.of_cons

/-- Nothing is recent once the window has passed since every bad event after the last good one. -/
theorem recent_eq_zero (h : ∀ e ∈ sinceGood good log, bad e.2 = true → e.1 + window ≤ time) :
    recent bad good window time log = 0 := by
  refine List.countP_eq_zero.mpr fun e he => ?_
  simp only [Bool.and_eq_true, decide_eq_true_eq, not_and]
  intro hbad
  have := h e he hbad
  omega

end RateWindow
