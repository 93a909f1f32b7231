import ThunderForge.Reconcile.OwnEdits

/-! What a mark can become. An edit is applied only where nobody's mark comes before it, and leaves its own; so from
then on every contender no better than it is refused there. -/

namespace ThunderForge.Reconcile

/-- No mark is lost or gives way to a later contender, and no place in the sequence is handed out twice. -/
structure Descends (before after : Server) : Prop where
  seq : ∀ worldId, before.marks.nextSeq worldId ≤ after.marks.nextSeq worldId
  marks : ∀ worldId tokenId mark, before.existingMark worldId tokenId = some mark →
    ∃ first, after.existingMark worldId tokenId = some first ∧ first ≤ mark

namespace Descends

variable {first second third : Server}

theorem refl (server : Server) : Descends server server :=
  ⟨fun _ => UInt64.le_refl _, fun _ _ mark hmark => ⟨mark, hmark, le_rfl⟩⟩

theorem trans (h : Descends first second) (h' : Descends second third) : Descends first third := by
  refine ⟨fun worldId => UInt64.le_trans (h.seq worldId) (h'.seq worldId), fun worldId tokenId mark hmark => ?_⟩
  obtain ⟨between, hbetween, hle⟩ := h.marks worldId tokenId mark hmark
  obtain ⟨last, hlast, hle'⟩ := h'.marks worldId tokenId between hbetween
  exact ⟨last, hlast, hle'.trans hle⟩

theorem of_marks_eq (h : second.marks = first.marks) : Descends first second := by
  refine ⟨fun worldId => by rw [h]; exact UInt64.le_refl _, fun worldId tokenId mark hmark => ⟨mark, ?_, le_rfl⟩⟩
  rw [Server.existingMark_congr h]
  exact hmark

theorem takeReconnectSeq (server : Server) (worldId : Uuid) : Descends server (server.takeReconnectSeq worldId).1 := by
  refine ⟨fun other => ?_, fun _ _ mark hmark => ⟨mark, hmark, le_rfl⟩⟩
  show server.marks.nextSeq other ≤
    Function.update server.marks.nextSeq worldId (saturatingSucc (server.marks.nextSeq worldId)) other
  by_cases hother : other = worldId
  · rw [hother, Function.update_self]
    exact le_saturatingSucc _
  · rw [Function.update_of_ne hother]
    exact UInt64.le_refl _

theorem rememberMark (server : Server) {worldId tokenId : Uuid} {incoming : Contender}
    (hfirst : supersededBy server worldId tokenId incoming = none) :
    Descends server (server.rememberMark worldId tokenId incoming) := by
  refine ⟨fun _ => UInt64.le_refl _, fun world token mark hmark => ?_⟩
  by_cases hworld : world = worldId
  · subst hworld
    by_cases htoken : token = tokenId
    · subst htoken
      refine ⟨incoming, Server.existingMark_rememberMark _ _ _ _, ?_⟩
      have hnot : ¬mark ≤ incoming := by
        intro hle
        have hsome := supersededBy_isSome.mpr ⟨mark, hmark, hle⟩
        rw [hfirst] at hsome
        cases hsome
      exact (not_le.mp hnot).le
    · exact ⟨mark, (Server.existingMark_rememberMark_of_ne _ _ _ htoken).trans hmark, le_rfl⟩
  · refine ⟨mark, Eq.trans ?_ hmark, le_rfl⟩
    show Function.update server.marks.marks worldId _ world token = server.marks.marks world token
    rw [Function.update_of_ne hworld]

end Descends

section

variable {platform : Platform} {worldId userId : Uuid} {incoming : Contender} {server : Server}
  {change : QueuedChangeInput}

theorem parse_of_admitted {db : Database} {role : Role} {edit : TokenEdit}
    (h : admittedEdit platform userId db role change = some edit) :
    parseTokenEdit platform change.command = some edit := by
  unfold admittedEdit at h
  split at h
  · unfold adjudicate at h
    cases hparse : parseTokenEdit platform change.command with
    | none => simp [hparse, Except.toOption] at h
    | some parsed =>
        simp only [hparse] at h
        split at h
        · cases h
        split at h
        · cases h
        split at h
        · split at h
          · cases h
          · exact h
        · exact h
  · cases h

variable (platform worldId userId incoming server change)

theorem descends_applyOne : Descends server (applyOne platform worldId userId incoming server change).1 := by
  obtain ⟨edit, updated, hlands, hupdate, hstate, -⟩ | ⟨-, hstate, -⟩ :=
    applyOne_cases platform worldId userId incoming server change
  · have hmarks := (Server.updateToken_spec hupdate).1
    have hfirst : supersededBy updated worldId edit.tokenId incoming = none := by
      have hbefore := hlands.first
      unfold supersededBy at hbefore ⊢
      rwa [Server.existingMark_congr hmarks]
    rw [hstate]
    exact (Descends.of_marks_eq hmarks).trans (.rememberMark _ hfirst)
  · rw [hstate]
    exact .refl _

theorem descends_applyChange : Descends server (applyChange platform worldId userId incoming server change).1 := by
  unfold applyChange
  split
  · exact .of_marks_eq (applyAttackIntent_reaches ..).1
  · exact descends_applyOne ..

theorem descends_applyChanges (changes : List QueuedChangeInput) :
    Descends server (applyChanges platform worldId userId incoming server changes).1 := by
  induction changes generalizing server with
  | nil => exact .refl _
  | cons change changes ih => exact (descends_applyChange ..).trans (ih _)

/-- Whoever replays what: marks descend. -/
theorem descends_reconcile (changes : List QueuedChangeInput) :
    Descends server (reconcileQueuedChanges platform server userId worldId changes).1 := by
  unfold reconcileQueuedChanges
  split
  · exact .refl _
  split
  · exact .refl _
  · exact (Descends.takeReconnectSeq server worldId).trans (descends_applyChanges ..)

variable {platform worldId userId incoming server change}

/-- A token edit that is applied met no mark that comes before it, and leaves its own. -/
theorem applied_spec (hedit : parseAttackIntent platform change.command = none)
    (happlied : (applyChange platform worldId userId incoming server change).2.applied = true) :
    ∃ edit, parseTokenEdit platform change.command = some edit ∧
      (∀ mark, server.existingMark worldId edit.tokenId = some mark → incoming < mark) ∧
      (applyChange platform worldId userId incoming server change).1.existingMark worldId edit.tokenId =
        some incoming := by
  have hchange : applyChange platform worldId userId incoming server change =
      applyOne platform worldId userId incoming server change := by
    unfold applyChange
    rw [hedit]
  rw [hchange] at happlied ⊢
  obtain ⟨edit, updated, hlands, -⟩ | ⟨-, -, hnot⟩ := applyOne_cases platform worldId userId incoming server change
  · refine ⟨edit, parse_of_admitted hlands.admitted, fun mark hmark => ?_, (applyOne_of_lands hlands).2.2.1⟩
    rw [← not_le]
    intro hle
    have hsome := supersededBy_isSome.mpr ⟨mark, hmark, hle⟩
    rw [hlands.first] at hsome
    cases hsome
  · rw [hnot] at happlied
    cases happlied

theorem fightOutcome_localId (localId : String) (refusal : FightRefusal) :
    (fightOutcome localId refusal).localId = localId := by
  cases refusal <;> rfl

theorem localId_adjudicate {db : Database} {role : Role} {outcome : ReconcileOutcome}
    (h : adjudicate platform db userId role change = .error outcome) : outcome.localId = change.localId := by
  unfold adjudicate at h
  split at h
  · exact (Except.error.inj h) ▸ rfl
  split at h
  · exact (Except.error.inj h) ▸ rfl
  split at h
  · exact (Except.error.inj h) ▸ rfl
  split at h
  · split at h
    · exact (Except.error.inj h) ▸ rfl
    · cases h
  · cases h

variable (platform worldId userId incoming server change) in
/-- What became of a change is said under its own id. -/
theorem localId_applyChange :
    (applyChange platform worldId userId incoming server change).2.localId = change.localId := by
  unfold applyChange
  split
  · unfold applyAttackIntent
    split
    · rfl
    split
    · rfl
    split
    · rfl
    split
    · rfl
    split
    · exact fightOutcome_localId ..
    · rfl
  · unfold applyOne
    split
    · rfl
    dsimp only
    split
    · rename_i outcome hadjudicate
      have hlocal : outcome.localId = change.localId := localId_adjudicate hadjudicate
      exact hlocal
    split
    · rfl
    split <;> rfl

end

end ThunderForge.Reconcile
