import ThunderForge.Lib.Run

/-! A Lamport counter without an upper bound: whatever was taken or seen before is below the counter,
so what is taken next is after it. -/

namespace Lamport

/-- A stamp is taken, or one is seen. -/
inductive Event where
  | take
  | see (stamp : Nat)

/-- The counter is raised past what is taken or seen. -/
def tick (counter : Nat) : Event → Nat
  | .take => counter + 1
  | .see stamp => max counter (stamp + 1)

/-- The counter after some events. -/
def counter (events : List Event) : Nat := Run.run tick 0 events

theorem le_tick (counter : Nat) (event : Event) : counter ≤ tick counter event := by
  cases event with
  | take => exact Nat.le_succ counter
  | see stamp => exact Nat.le_max_left counter (stamp + 1)

variable {before events : List Event}

theorem counter_concat (events : List Event) (event : Event) :
    counter (events ++ [event]) = tick (counter events) event :=
  Run.run_concat tick 0 events event

/-- The counter never goes back. -/
theorem counter_mono (h : before <+: events) : counter before ≤ counter events := by
  obtain ⟨after, rfl⟩ := h
  rw [counter, counter, Run.run_append]
  refine Run.invariant (I := fun n => counter before ≤ n) (fun n event hle => ?_) (Nat.le_refl _) after
  exact Nat.le_trans hle (le_tick n event)

/-- A stamp that was taken is below the counter from then on. -/
theorem counter_lt_of_take (h : before ++ [.take] <+: events) : counter before < counter events := by
  calc counter before < counter (before ++ [.take]) := by
        rw [counter_concat]
        exact Nat.lt_succ_self _
    _ ≤ counter events := counter_mono h

/-- A stamp that was seen is below the counter from then on. -/
theorem lt_counter_of_see {stamp : Nat} (h : .see stamp ∈ events) : stamp < counter events := by
  obtain ⟨before, after, rfl⟩ := List.append_of_mem h
  calc stamp < counter (before ++ [.see stamp]) := by
        rw [counter_concat]
        exact Nat.le_max_right _ _
    _ ≤ counter (before ++ .see stamp :: after) := counter_mono ⟨after, by rw [← List.append_cons]⟩

end Lamport
