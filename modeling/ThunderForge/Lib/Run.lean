import Mathlib.Data.List.Basic
import Mathlib.Data.List.Induction

/-! Runs of a deterministic step function over a list of actions, the runs all of whose steps meet
a condition on the state they start from, and the induction rules for both; and what a step function
that also answers says along a run. -/

namespace Run

variable {σ α : Type*} (step : σ → α → σ)

/-- The state after the actions, first action first. -/
def run (s : σ) (acts : List α) : σ := acts.foldl step s

@[simp] theorem run_nil (s : σ) : run step s [] = s := rfl

@[simp] theorem run_cons (s : σ) (a : α) (acts : List α) :
    run step s (a :: acts) = run step (step s a) acts := rfl

theorem run_append (s : σ) (left right : List α) :
    run step s (left ++ right) = run step (run step s left) right :=
  List.foldl_append

theorem run_concat (s : σ) (acts : List α) (a : α) :
    run step s (acts ++ [a]) = step (run step s acts) a := by
  rw [run_append, run_cons, run_nil]

/-- Every step of the run meets the condition in the state it starts from. -/
def Meets (ok : σ → α → Prop) : σ → List α → Prop
  | _, [] => True
  | s, a :: acts => ok s a ∧ Meets ok (step s a) acts

instance Meets.decidable (ok : σ → α → Prop) [∀ s a, Decidable (ok s a)] :
    ∀ s acts, Decidable (Meets step ok s acts)
  | _, [] => inferInstanceAs (Decidable True)
  | s, a :: acts =>
    have := Meets.decidable ok (step s a) acts
    inferInstanceAs (Decidable (ok s a ∧ Meets step ok (step s a) acts))

variable {step} {ok : σ → α → Prop}

theorem Meets.append {s : σ} {left right : List α} :
    Meets step ok s (left ++ right) ↔ Meets step ok s left ∧ Meets step ok (run step s left) right := by
  induction left generalizing s with
  | nil => simp [Meets]
  | cons a left ih => simp [Meets, ih, and_assoc]

theorem Meets.of_forall (h : ∀ s a, ok s a) (s : σ) (acts : List α) : Meets step ok s acts := by
  induction acts generalizing s with
  | nil => trivial
  | cons a acts ih => exact ⟨h s a, ih (step s a)⟩

theorem Meets.imp {ok' : σ → α → Prop} (h : ∀ s a, ok s a → ok' s a) {s : σ} {acts : List α}
    (hmeets : Meets step ok s acts) : Meets step ok' s acts := by
  induction acts generalizing s with
  | nil => trivial
  | cons a acts ih => exact ⟨h s a hmeets.1, ih hmeets.2⟩

/-- A run meets a condition when every step of it does, told by what was done before. -/
theorem meets_iff {s : σ} {acts : List α} :
    Meets step ok s acts ↔ ∀ before a, before ++ [a] <+: acts → ok (run step s before) a := by
  induction acts generalizing s with
  | nil => exact iff_of_true trivial fun before a h => absurd (List.prefix_nil.mp h) (by simp)
  | cons first acts ih =>
      constructor
      · intro h before a hbefore
        cases before with
        | nil =>
            obtain ⟨rfl, -⟩ := List.cons_prefix_cons.mp hbefore
            exact h.1
        | cons first' before =>
            obtain ⟨rfl, hrest⟩ := List.cons_prefix_cons.mp hbefore
            exact ih.mp h.2 before a hrest
      · intro h
        refine ⟨h [] first (by simp), ih.mpr fun before a hbefore => ?_⟩
        exact h (first :: before) a (List.cons_prefix_cons.mpr ⟨rfl, hbefore⟩)

/-- What every step of a run keeps exactly when the step meets a condition holds at the end exactly when the
whole run meets it. -/
theorem meets_iff_of_steps {P : σ → Prop} {s : σ} (hinit : P s) {acts : List α}
    (hstep : ∀ before a, before ++ [a] <+: acts →
      (P (step (run step s before) a) ↔ P (run step s before) ∧ ok (run step s before) a)) :
    P (run step s acts) ↔ Meets step ok s acts := by
  induction acts using List.reverseRecOn with
  | nil => exact iff_of_true hinit trivial
  | append_singleton acts a ih =>
      have hbefore := ih fun before b hpre => hstep before b (hpre.trans (List.prefix_append _ _))
      rw [run_concat, hstep acts a List.prefix_rfl, hbefore, Meets.append]
      exact and_congr_right fun _ => ⟨fun hok => ⟨hok, trivial⟩, And.left⟩

/-- An invariant that every step meeting the condition keeps holds at the end of such a run. -/
theorem Meets.invariant {I : σ → Prop} (hstep : ∀ s a, I s → ok s a → I (step s a))
    {s : σ} {acts : List α} (hmeets : Meets step ok s acts) (hinit : I s) : I (run step s acts) := by
  induction acts generalizing s with
  | nil => exact hinit
  | cons a acts ih => exact ih hmeets.2 (hstep s a hinit hmeets.1)

/-- An invariant that every step keeps holds at the end of every run. -/
theorem invariant {I : σ → Prop} (hstep : ∀ s a, I s → I (step s a)) {s : σ} (hinit : I s)
    (acts : List α) : I (run step s acts) := by
  induction acts generalizing s with
  | nil => exact hinit
  | cons a acts ih => exact ih (hstep s a hinit)

/-- An invariant that the actions of a kind keep holds at the end of every run of such actions. -/
theorem invariant_of_mem {I : σ → Prop} {ok : α → Prop} (hstep : ∀ s a, I s → ok a → I (step s a)) {s : σ}
    (hinit : I s) {acts : List α} (hacts : ∀ a ∈ acts, ok a) : I (run step s acts) := by
  induction acts generalizing s with
  | nil => exact hinit
  | cons a acts ih =>
      obtain ⟨hfirst, hrest⟩ := List.forall_mem_cons.mp hacts
      exact ih (hstep s a hinit hfirst) hrest

/-- What holds at the end of a run held from the start, or began where it had cause to. -/
theorem or_exists_of_steps {P Q : σ → Prop} (hstep : ∀ s a, P (step s a) → P s ∨ Q s) {s : σ} {acts : List α}
    (h : P (run step s acts)) : P s ∨ ∃ before, before <+: acts ∧ Q (run step s before) := by
  induction acts using List.reverseRecOn with
  | nil => exact Or.inl h
  | append_singleton acts a ih =>
      rw [run_concat] at h
      rcases hstep _ a h with hbefore | hcause
      · exact (ih hbefore).imp_right fun hcause => hcause.imp fun _ hb => ⟨hb.1.trans (List.prefix_append _ _), hb.2⟩
      · exact Or.inr ⟨acts, List.prefix_append _ _, hcause⟩

section

variable {β : Type*} (reply : σ → α → σ × β)

/-- Where a step function that also answers goes. -/
def next (s : σ) (a : α) : σ := (reply s a).1

/-- What a step function that also answers says, one answer an action. -/
def answers : σ → List α → List β
  | _, [] => []
  | s, a :: acts => (reply s a).2 :: answers (next reply s a) acts

@[simp] theorem answers_nil (s : σ) : answers reply s [] = [] := rfl

@[simp] theorem answers_cons (s : σ) (a : α) (acts : List α) :
    answers reply s (a :: acts) = (reply s a).2 :: answers reply (next reply s a) acts := rfl

theorem answers_append (s : σ) (left right : List α) :
    answers reply s (left ++ right) =
      answers reply s left ++ answers reply (run (next reply) s left) right := by
  induction left generalizing s with
  | nil => rfl
  | cons a left ih => rw [List.cons_append, answers_cons, answers_cons, ih, run_cons, List.cons_append]

@[simp] theorem answers_length (s : σ) (acts : List α) : (answers reply s acts).length = acts.length := by
  induction acts generalizing s with
  | nil => rfl
  | cons a acts ih => rw [answers_cons, List.length_cons, List.length_cons, ih]

end

end Run
