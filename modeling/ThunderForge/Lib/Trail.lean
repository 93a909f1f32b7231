import Mathlib.Data.List.Forall2
import ThunderForge.Lib.Feed

/-! Labelled steps one after another, and computations that leave such a trail whenever they succeed, with the
labels' names known beforehand. -/

variable {σ ε ℓ τ β γ ω : Type}

/-- Steps from one state to another, with their labels in order. -/
inductive Trail (step : σ → ℓ → σ → Prop) : σ → List ℓ → σ → Prop where
  | nil (s : σ) : Trail step s [] s
  | cons {s s' s'' : σ} {label : ℓ} {labels : List ℓ} (h : step s label s') (rest : Trail step s' labels s'') :
      Trail step s (label :: labels) s''

namespace Trail

variable {step : σ → ℓ → σ → Prop} {s s' s'' : σ} {labels labels' : List ℓ}

theorem append (h : Trail step s labels s') (h' : Trail step s' labels' s'') : Trail step s (labels ++ labels') s'' := by
  induction h with
  | nil _ => exact h'
  | cons hstep _ ih => exact .cons hstep (ih h')

theorem invariant {I : σ → Prop} (h : Trail step s labels s') (hstep : ∀ s label s', I s → step s label s' → I s')
    (hs : I s) : I s' := by
  induction h with
  | nil _ => exact hs
  | cons hfirst _ ih => exact ih (hstep _ _ _ hs hfirst)

/-- What each step writes, under an invariant, is written one after another along the trail. -/
theorem writes {I : σ → Prop} {Wrote : σ → List ω → σ → Prop} {Of : ℓ → ω → Prop} (hrefl : ∀ s, Wrote s [] s)
    (hcons : ∀ {s s' s'' w ws}, Wrote s [w] s' → Wrote s' ws s'' → Wrote s (w :: ws) s'')
    (hstep : ∀ s label s', I s → step s label s' → I s' ∧ ∃ w, Of label w ∧ Wrote s [w] s')
    (h : Trail step s labels s') (hs : I s) : I s' ∧ ∃ ws, List.Forall₂ Of labels ws ∧ Wrote s ws s' := by
  induction h with
  | nil s => exact ⟨hs, [], .nil, hrefl s⟩
  | cons hfirst _ ih =>
      obtain ⟨hmid, w, hof, hwrote⟩ := hstep _ _ _ hs hfirst
      obtain ⟨hlast, ws, hofs, hwrites⟩ := ih hmid
      exact ⟨hlast, w :: ws, .cons hof hofs, hcons hwrote hwrites⟩

end Trail

/-- What was written was written by some step. -/
theorem Trail.exists_label {Of : ℓ → ω → Prop} {labels : List ℓ} {ws : List ω} (h : List.Forall₂ Of labels ws) {w : ω}
    (hw : w ∈ ws) : ∃ label ∈ labels, Of label w := by
  induction h with
  | nil => exact absurd hw List.not_mem_nil
  | cons hof _ ih =>
      rcases List.mem_cons.mp hw with rfl | hw
      · exact ⟨_, List.mem_cons_self, hof⟩
      · obtain ⟨label, hlabel, hof⟩ := ih hw
        exact ⟨label, List.mem_cons_of_mem _ hlabel, hof⟩

/-- Whenever a computation succeeds it has left a trail of steps with the given names. -/
def Leaves (step : σ → ℓ → σ → Prop) (name : ℓ → τ) (names : List τ) (run : σ → Except ε (β × σ)) : Prop :=
  ∀ s v s', run s = .ok (v, s') → ∃ labels : List ℓ, labels.map name = names ∧ Trail step s labels s'

namespace Leaves

variable {step : σ → ℓ → σ → Prop} {name : ℓ → τ} {names names' : List τ}

theorem pure (value : β) : Leaves (ε := ε) step name [] fun s => .ok (value, s) := by
  intro s v s' h
  cases h
  exact ⟨[], rfl, .nil s⟩

theorem fail (error : ε) (names : List τ) : Leaves step name names fun _ => (.error error : Except ε (β × σ)) := by
  intro s v s' h
  cases h

/-- A step that does not see the state leaves nothing. -/
theorem after (result : Except ε β) {next : β → σ → Except ε (γ × σ)} (h : ∀ v, Leaves step name names (next v)) :
    Leaves step name names fun s => result >>= fun v => next v s := by
  cases result with
  | error error => exact fail error names
  | ok v => exact h v

theorem andThen {run : σ → Except ε (β × σ)} {next : β → σ → Except ε (γ × σ)} (h : Leaves step name names run)
    (h' : ∀ v, Leaves step name names' (next v)) : Leaves step name (names ++ names') (Feed.andThen run next) := by
  intro s w s'' hrun
  obtain ⟨v, s', hfirst, hsecond⟩ := Feed.andThen_ok hrun
  obtain ⟨labels, hlabels, htrail⟩ := h s v s' hfirst
  obtain ⟨labels', hlabels', htrail'⟩ := h' v s' w s'' hsecond
  refine ⟨labels ++ labels', ?_, htrail.append htrail'⟩
  rw [List.map_append, hlabels, hlabels']

end Leaves
