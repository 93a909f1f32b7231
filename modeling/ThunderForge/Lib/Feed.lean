import Mathlib.Data.List.Basic

/-! A run that can be done again from what it wrote. One computation writes a log, the other is fed it; `Fed` says
what the second has still to be fed, with what it keeps throughout, so that whatever follows can stay in line behind
it. -/

namespace Feed

variable {σ τ κ ε ℓ β γ : Type}

/-- One run after another. -/
def andThen (run : σ → Except ε (β × σ)) (next : β → σ → Except ε (γ × σ)) (s : σ) : Except ε (γ × σ) :=
  run s >>= fun x => next x.1 x.2

theorem andThen_ok {run : σ → Except ε (β × σ)} {next : β → σ → Except ε (γ × σ)} {s s'' : σ} {w : γ}
    (h : andThen run next s = .ok (w, s'')) : ∃ v s', run s = .ok (v, s') ∧ next v s' = .ok (w, s'') := by
  unfold andThen at h
  cases hrun : run s with
  | error error =>
      rw [hrun] at h
      cases h
  | ok x =>
      rw [hrun] at h
      exact ⟨x.1, x.2, rfl, h⟩

/-- Runs are the same when their first parts are, and then what follows these. -/
theorem andThen_congr {run run' : σ → Except ε (β × σ)} {next next' : β → σ → Except ε (γ × σ)} {s : σ}
    (h : run s = run' s) (h' : ∀ v s', run' s = .ok (v, s') → next v s' = next' v s') :
    andThen run next s = andThen run' next' s := by
  unfold andThen
  rw [h]
  cases hrun : run' s with
  | error error => rfl
  | ok x => exact h' x.1 x.2 hrun

/-- Each run of the first that meets `Pre` writes a log by which the second comes to the same value. -/
def Feeds (Pre : σ → Prop) (Wrote : σ → List ℓ → σ → Prop) (Fed : κ → σ → τ → List ℓ → Prop)
    (run : σ → Except ε (β × σ)) (again : τ → Except ε (β × τ)) : Prop :=
  ∀ s v s', Pre s → run s = .ok (v, s') → Pre s' ∧ ∃ log, Wrote s log s' ∧
    ∀ kept t more, Fed kept s t (log ++ more) → ∃ t', again t = .ok (v, t') ∧ Fed kept s' t' more

variable {Pre : σ → Prop} {Wrote : σ → List ℓ → σ → Prop} {Fed : κ → σ → τ → List ℓ → Prop}

theorem Feeds.pure (hrefl : ∀ s, Wrote s [] s) (value : β) :
    @Feeds σ τ κ ε ℓ β Pre Wrote Fed (fun s => .ok (value, s)) (fun t => .ok (value, t)) := by
  intro s v s' hpre hrun
  cases hrun
  exact ⟨hpre, [], hrefl s, fun kept t more hfed => ⟨t, rfl, hfed⟩⟩

theorem Feeds.fail (error : ε) (again : τ → Except ε (β × τ)) :
    Feeds Pre Wrote Fed (fun _ => .error error) again := by
  intro s v s' hpre hrun
  cases hrun

/-- A step that does not see the state. -/
theorem Feeds.after (result : Except ε β) {next : β → σ → Except ε (γ × σ)} {nextAgain : β → τ → Except ε (γ × τ)}
    (h : ∀ v, Feeds Pre Wrote Fed (next v) (nextAgain v)) :
    Feeds Pre Wrote Fed (fun s => result >>= fun v => next v s) (fun t => result >>= fun v => nextAgain v t) := by
  cases result with
  | error error => exact Feeds.fail error _
  | ok v => exact h v

/-- The logs of two runs follow one another. -/
theorem Feeds.andThen (htrans : ∀ {s log s' log' s''}, Wrote s log s' → Wrote s' log' s'' → Wrote s (log ++ log') s'')
    {run : σ → Except ε (β × σ)} {again : τ → Except ε (β × τ)} {next : β → σ → Except ε (γ × σ)}
    {nextAgain : β → τ → Except ε (γ × τ)} (h : Feeds Pre Wrote Fed run again)
    (h' : ∀ v, Feeds Pre Wrote Fed (next v) (nextAgain v)) :
    Feeds Pre Wrote Fed (Feed.andThen run next) (Feed.andThen again nextAgain) := by
  intro s w s'' hpre hrun
  obtain ⟨v, s', hfirst, hsecond⟩ := andThen_ok hrun
  obtain ⟨hpre', log, hwrote, hfeed⟩ := h s v s' hpre hfirst
  obtain ⟨hpre'', log', hwrote', hfeed'⟩ := h' v s' w s'' hpre' hsecond
  refine ⟨hpre'', log ++ log', htrans hwrote hwrote', fun kept t more hfed => ?_⟩
  rw [List.append_assoc] at hfed
  obtain ⟨t', hagain, hfed'⟩ := hfeed kept t _ hfed
  obtain ⟨t'', hagain', hfed''⟩ := hfeed' kept t' more hfed'
  refine ⟨t'', ?_, hfed''⟩
  unfold Feed.andThen
  rw [hagain]
  exact hagain'

end Feed
