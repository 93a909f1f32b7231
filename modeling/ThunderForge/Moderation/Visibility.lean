import ThunderForge.Lib.Run
import ThunderForge.Moderation.Log

/-! Taken-down content stays hidden. The gate looks at the latest event on an entity over all its cases, so
this holds in the runs in which a case comes to hide nothing, by an event or as its counter-notice falls
due, only while no other case on the entity hides it. -/

namespace ThunderForge.Moderation

/-- An action that hides what it is about: one that disables, or a forwarded counter-notice not yet due. -/
def actionHides (now : Int) (action : ActionType) (restorationDueAt : Option Int) : Bool :=
  isDisabledStatus action ||
    (action = .counterNoticeForwarded && !restorationDueAt.any fun due => decide (due ≤ now))

def hidesAt (now : Int) (event : ContentModerationAction) : Bool :=
  actionHides now event.actionType event.restorationDueAt

/-- What the gate answers is whether some case on the entity hides it. -/
def TakenDownStaysHidden (s : Programme) : Prop :=
  ∀ entity, ((∃ caseId last, lastOf s.log caseId = some last ∧ last.entity = entity ∧
        hidesAt s.time last = true) → (s.effectiveStatusSync entity).1.isSome = true) ∧
    ((∀ caseId last, lastOf s.log caseId = some last → last.entity = entity →
        hidesAt s.time last = false) → (s.effectiveStatusSync entity).1 = none)

/-- Some other case on an entity hides it. -/
def OtherHides (log : List ContentModerationAction) (now : Int) (entity : Entity) (caseId : CaseId) : Prop :=
  ∃ event ∈ log, lastOf log event.caseId = some event ∧ event.caseId ≠ caseId ∧ event.entity = entity ∧
    hidesAt now event = true

instance (log : List ContentModerationAction) (now : Int) (entity : Entity) (caseId : CaseId) :
    Decidable (OtherHides log now entity caseId) := by
  unfold OtherHides
  infer_instance

/-- The case whose last event this is, and its child cases: what a resolution writes. -/
def reach (log : List ContentModerationAction) (last : ContentModerationAction) : List (CaseId × Entity) :=
  (last.caseId, last.entity) :: (childCases log last.caseId).map fun child => (child.caseId, child.entity)

/-- A call that leaves a case hiding nothing does so only where no other case hides the entity: an
incomplete notice, a counter-notice that is due as it is filed, a resolution that does not disable, and
the passing of a due date. -/
def SparesOthers (s : Programme) : Call → Prop
  | .submitTakedownNotice entity fields =>
    (s.content.owner entity).isSome = true → validateTakedownNotice fields ≠ [] →
      ¬OtherHides s.log s.time entity s.nextCase
  | .submitCounterNotice userId isAdmin waitingDays caseId fields =>
    waitingDays ≤ 0 → validateCounterNotice fields = [] → ∀ last ∈ lastOf s.log caseId,
      s.isDmOfWorld userId isAdmin last.worldId = true →
        ∀ target ∈ reach s.log last, ¬OtherHides s.log s.time target.2 target.1
  | .resolveModerationCase isAdmin caseId resolution =>
    isAdmin = true → isDisabledStatus resolution = false → resolution ≠ .counterNoticeForwarded →
      ∀ last ∈ lastOf s.log caseId, ∀ target ∈ reach s.log last, ¬OtherHides s.log s.time target.2 target.1
  | .effectiveStatus _ => True
  | .wait duration =>
    ∀ event ∈ s.log, latestEvent s.log event.entity = some event → hidesAt s.time event = true →
      hidesAt (s.time + duration) event = false →
        ¬OtherHides s.log (s.time + duration) event.entity event.caseId
  | .elsewhere _ => True

instance (s : Programme) (call : Call) : Decidable (SparesOthers s call) := by
  cases call <;> unfold SparesOthers <;> infer_instance

section

variable {s : Programme} {log : List ContentModerationAction} {event : ContentModerationAction} {now : Int}

/-- Where the latest event on an entity does not hide it, no case on the entity does. -/
def Visible (log : List ContentModerationAction) (now : Int) : Prop :=
  ∀ entity latest, latestEvent log entity = some latest → hidesAt now latest = false →
    ∀ caseId last, lastOf log caseId = some last → last.entity = entity → hidesAt now last = false

/-- Every case is about one entity. -/
def Consistent (log : List ContentModerationAction) : Prop :=
  ∀ event ∈ log, ∀ event' ∈ log, event.caseId = event'.caseId → event.entity = event'.entity

theorem mem_of_lastOf {caseId : CaseId} (h : lastOf log caseId = some event) : event ∈ log :=
  List.mem_of_find?_eq_some h

theorem mem_of_latestEvent {entity : Entity} (h : latestEvent log entity = some event) : event ∈ log :=
  List.mem_of_find?_eq_some h

theorem not_otherHides {entity : Entity} {caseId : CaseId} (h : ¬OtherHides log now entity caseId) {other : CaseId}
    {last : ContentModerationAction} (hlast : lastOf log other = some last) (hother : other ≠ caseId)
    (hentity : last.entity = entity) : hidesAt now last = false := by
  obtain rfl := lastOf_caseId hlast
  by_contra hhides
  exact h ⟨last, mem_of_lastOf hlast, hlast, hother, hentity, by simpa using hhides⟩

/-- Events of one case on one entity keep the law when the last of them hides, or no other case does. -/
theorem Visible.append (h : Visible log now) (mid : List ContentModerationAction)
    (hmid : ∀ earlier ∈ mid, earlier.caseId = event.caseId ∧ earlier.entity = event.entity)
    (hevent : hidesAt now event = true ∨ ¬OtherHides log now event.entity event.caseId) :
    Visible (event :: mid ++ log) now := by
  have hcase {caseId : CaseId} (hne : event.caseId ≠ caseId) :
      lastOf (event :: mid ++ log) caseId = lastOf log caseId := by
    have hnone : mid.find? (fun event => decide (event.caseId = caseId)) = none :=
      List.find?_eq_none.mpr fun earlier hearlier => by simp [(hmid earlier hearlier).1, hne]
    simp [lastOf, hne, hnone]
  have hentity {entity : Entity} (hne : event.entity ≠ entity) :
      latestEvent (event :: mid ++ log) entity = latestEvent log entity := by
    have hnone : mid.find? (fun event => decide (event.entity = entity)) = none :=
      List.find?_eq_none.mpr fun earlier hearlier => by simp [(hmid earlier hearlier).2, hne]
    simp [latestEvent, hne, hnone]
  intro entity latest hlatest hshown caseId last hlast hlastEntity
  by_cases hown : event.caseId = caseId
  · -- The case is the one written: its last event is the new one, so the entity is its entity.
    have hlastEvent : event = last := by simpa [lastOf, hown] using hlast
    subst hlastEvent
    have hlatestEvent : event = latest := by simpa [latestEvent, hlastEntity] using hlatest
    rw [hlatestEvent, hshown]
  · rw [hcase hown] at hlast
    by_cases hsame : event.entity = entity
    · have hlatestEvent : event = latest := by simpa [latestEvent, hsame] using hlatest
      rw [← hlatestEvent] at hshown
      obtain hhides | hother := hevent
      · rw [hshown] at hhides
        cases hhides
      · exact not_otherHides hother hlast (Ne.symm hown) (hlastEntity.trans hsame.symm)
    · rw [hentity hsame] at hlatest
      exact h entity latest hlatest hshown caseId last hlast hlastEntity

/-- Among events that do not hide, no case comes to hide. -/
theorem OtherHides.of_cons {entity : Entity} {caseId : CaseId} (hevent : hidesAt now event = false)
    (h : OtherHides (event :: log) now entity caseId) : OtherHides log now entity caseId := by
  obtain ⟨other, hmem, hlast, hne, hentity, hhides⟩ := h
  obtain rfl | hmem := List.mem_cons.mp hmem
  · rw [hevent] at hhides
    cases hhides
  · refine ⟨other, hmem, ?_, hne, hentity, hhides⟩
    by_cases hcase : event.caseId = other.caseId
    · obtain rfl : event = other := by simpa [lastOf, hcase] using hlast
      rw [hevent] at hhides
      cases hhides
    · simpa [lastOf, hcase] using hlast

/-- Events that all hide, or of which none does and no other case hides what they are about. -/
theorem Visible.insertAll {events : List ContentModerationAction} (h : Visible log now)
    (hevents : (∀ event ∈ events, hidesAt now event = true) ∨
      ∀ event ∈ events, hidesAt now event = false ∧ ¬OtherHides log now event.entity event.caseId) :
    Visible (events.reverse ++ log) now := by
  induction events generalizing log with
  | nil => exact h
  | cons event events ih =>
      rw [List.reverse_cons, List.append_assoc]
      refine ih ?_ ?_
      · refine h.append [] (by simp) ?_
        obtain hhide | hshow := hevents
        · exact Or.inl (hhide event List.mem_cons_self)
        · exact Or.inr (hshow event List.mem_cons_self).2
      · obtain hhide | hshow := hevents
        · exact Or.inl fun later hlater => hhide later (List.mem_cons_of_mem _ hlater)
        · refine Or.inr fun later hlater => ?_
          obtain ⟨hnot, hother⟩ := hshow later (List.mem_cons_of_mem _ hlater)
          exact ⟨hnot, fun hothers => hother (hothers.of_cons (hshow event List.mem_cons_self).1)⟩

/-- The cases so far are older than the next, and each is about one entity. -/
structure Kept (s : Programme) : Prop where
  fresh : ∀ event ∈ s.log, event.caseId < s.nextCase
  consistent : Consistent s.log

/-- New events keep each case about its one entity. -/
theorem Kept.insert (h : Kept s) {events : List (Stamp → ContentModerationAction)} {nextCase : CaseId}
    (hnext : s.nextCase ≤ nextCase) (hfresh : ∀ event ∈ events, (event s.now).caseId < nextCase)
    (hold : ∀ event ∈ events, ∀ old ∈ s.log, (event s.now).caseId = old.caseId → (event s.now).entity = old.entity)
    (hnew : ∀ event ∈ events, ∀ event' ∈ events, (event s.now).caseId = (event' s.now).caseId →
      (event s.now).entity = (event' s.now).entity) :
    Kept { s.insert events with nextCase } := by
  have hmem {event : ContentModerationAction} : event ∈ (s.insert events).log ↔
      (∃ new ∈ events, new s.now = event) ∨ event ∈ s.log := by
    simp [Programme.insert]
  refine ⟨fun event hevent => ?_, fun event hevent event' hevent' hcase => ?_⟩
  · obtain ⟨new, hnew, rfl⟩ | hlog := hmem.mp hevent
    · exact hfresh new hnew
    · exact (h.fresh event hlog).trans_le hnext
  · obtain ⟨new, hnewMem, rfl⟩ | hlog := hmem.mp hevent
    · obtain ⟨new', hnewMem', rfl⟩ | hlog' := hmem.mp hevent'
      · exact hnew new hnewMem new' hnewMem' hcase
      · exact hold new hnewMem event' hlog' hcase
    · obtain ⟨new', hnewMem', rfl⟩ | hlog' := hmem.mp hevent'
      · exact (hold new' hnewMem' event hlog hcase.symm).symm
      · exact h.consistent event hlog event' hlog' hcase

/-- One more event in a case there is. -/
theorem Kept.followUp (h : Kept s) {last : ContentModerationAction} (hlast : last ∈ s.log) (action : ActionType)
    (accountId : Option Uuid) (due : Option Int) : Kept (s.insert [followUp last action accountId due]) := by
  refine h.insert le_rfl ?_ ?_ ?_
  · exact List.forall_mem_singleton.mpr (h.fresh last hlast)
  · exact List.forall_mem_singleton.mpr fun old hold hcase => h.consistent last hlast old hold hcase
  · exact List.forall_mem_singleton.mpr (List.forall_mem_singleton.mpr fun _ => rfl)

theorem childCases_mem {parentCaseId : CaseId} {child : Child} (h : child ∈ childCases log parentCaseId) :
    ∃ event ∈ log, event.parentCaseId = some parentCaseId ∧ event.caseId = child.caseId ∧
      event.entity = child.entity := by
  obtain ⟨event, hevent, hcase, hentity⟩ := (childCases_listed parentCaseId).2 child h
  obtain ⟨hlog, hparent⟩ := List.mem_filter.mp hevent
  exact ⟨event, hlog, by simpa using hparent, hcase, hentity⟩

/-- One more event in every child case. -/
theorem Kept.fanOut (h : Kept s) (parentCaseId : CaseId) (action : ActionType) (due : Option Int) :
    Kept (s.insert ((childCases s.log parentCaseId).map (childEvent parentCaseId action due))) := by
  refine h.insert le_rfl ?_ ?_ ?_
  · refine List.forall_mem_map.mpr fun child hchild => ?_
    obtain ⟨event, hevent, -, hcase, -⟩ := childCases_mem hchild
    exact (le_of_eq hcase.symm).trans_lt (h.fresh event hevent)
  · refine List.forall_mem_map.mpr fun child hchild old hold hsame => ?_
    obtain ⟨event, hevent, -, hcase, hentity⟩ := childCases_mem hchild
    exact hentity.symm.trans (h.consistent event hevent old hold (hcase.trans hsame))
  · refine List.forall_mem_map.mpr fun child hchild => List.forall_mem_map.mpr fun child' hchild' hsame => ?_
    obtain ⟨event, hevent, -, hcase, hentity⟩ := childCases_mem hchild
    obtain ⟨event', hevent', -, hcase', hentity'⟩ := childCases_mem hchild'
    exact (hentity.symm.trans (h.consistent event hevent event' hevent'
      (hcase.trans (hsame.trans hcase'.symm)))).trans hentity'

/-- The child cases a takedown opens are new, and all different. -/
theorem Kept.fanOutDisable (h : Kept s) (parentCaseId : CaseId) (entity : Entity) :
    Kept (s.fanOutDisable parentCaseId entity) := by
  have hmem {there : List Adoption} {event : Stamp → ContentModerationAction}
      (hevent : event ∈ ((there.zipIdx s.nextCase).map openChild).map
        (childEvent parentCaseId .contentDisabledAsCopy none)) :
      ∃ copy i, there[i]? = some copy ∧ (event s.now).caseId = s.nextCase + i ∧
        (event s.now).entity = copy.copy := by
    obtain ⟨child, hchild, rfl⟩ := List.mem_map.mp hevent
    obtain ⟨⟨copy, id⟩, hcopy, rfl⟩ := List.mem_map.mp hchild
    obtain ⟨hle, hget⟩ := List.mk_mem_zipIdx_iff_le_and_getElem?_sub.mp hcopy
    exact ⟨copy, id - s.nextCase, hget, (Nat.add_sub_cancel' hle).symm, rfl⟩
  refine h.insert (Nat.le_add_right _ _) ?_ ?_ ?_
  · intro event hevent
    obtain ⟨copy, i, hget, hcase, -⟩ := hmem hevent
    rw [hcase]
    exact Nat.add_lt_add_left (List.getElem?_eq_some_iff.mp hget).1 _
  · intro event hevent old hold hsame
    obtain ⟨copy, i, -, hcase, -⟩ := hmem hevent
    have holder := h.fresh old hold
    rw [← hsame, hcase] at holder
    exact absurd holder (Nat.not_lt.mpr (Nat.le_add_right _ _))
  · intro event hevent event' hevent' hsame
    obtain ⟨copy, i, hget, hcase, hentity⟩ := hmem hevent
    obtain ⟨copy', i', hget', hcase', hentity'⟩ := hmem hevent'
    obtain rfl : i = i' := Nat.add_left_cancel (hcase.symm.trans (hsame.trans hcase'))
    obtain rfl : copy = copy' := Option.some.inj (hget.symm.trans hget')
    exact hentity.trans hentity'.symm

theorem step_kept (h : Kept s) (call : Call) : Kept (step s call) := by
  cases call with
  | submitTakedownNotice entity fields =>
      have hopened (accountId : Uuid) : Kept (s.opened accountId) :=
        ⟨fun event hevent => (h.fresh event hevent).trans (Nat.lt_succ_self _), h.consistent⟩
      -- The first event of a new case meets no earlier one of it.
      have hfirst (owner : Uuid × Uuid) (action : ActionType) :
          Kept ((s.opened owner.2).insert [noticeEvent s.nextCase entity owner action]) := by
        refine (hopened owner.2).insert le_rfl ?_ ?_ ?_
        · exact List.forall_mem_singleton.mpr (Nat.lt_succ_self _)
        · refine List.forall_mem_singleton.mpr fun old hold hsame => ?_
          exact absurd (hsame ▸ h.fresh old hold) (lt_irrefl _)
        · exact List.forall_mem_singleton.mpr (List.forall_mem_singleton.mpr fun _ => rfl)
      obtain hsame | ⟨owner, -, ⟨-, hstep⟩ | ⟨-, hstep⟩⟩ := submitTakedownNotice_cases entity fields (s := s)
      · rw [hsame]
        exact h
      · rw [hstep]
        exact hfirst owner _
      · rw [hstep]
        have hreceived : noticeEvent s.nextCase entity owner .noticeReceived (s.opened owner.2).now ∈
            ((s.opened owner.2).insert [noticeEvent s.nextCase entity owner .noticeReceived]).log :=
          List.mem_cons_self
        exact Kept.fanOutDisable ((hfirst owner .noticeReceived).followUp hreceived .contentDisabled
          (some owner.2) none) _ _
  | submitCounterNotice userId isAdmin waitingDays caseId fields =>
      obtain hsame | ⟨last, hlast, -, -, hstep⟩ := submitCounterNotice_cases userId isAdmin waitingDays caseId
        fields (s := s)
      · rw [hsame]
        exact h
      · rw [hstep]
        refine Kept.fanOut ((h.followUp (mem_of_lastOf hlast) _ _ _).followUp ?_ _ _ _) _ _ _
        exact List.mem_append_right _ (mem_of_lastOf hlast)
  | resolveModerationCase isAdmin caseId resolution =>
      obtain hsame | ⟨last, hlast, -, -, hstep⟩ := resolveModerationCase_cases isAdmin caseId resolution (s := s)
      · rw [hsame]
        exact h
      · rw [hstep]
        exact (h.followUp (mem_of_lastOf hlast) _ _ _).fanOut _ _ _
  | effectiveStatus entity =>
      obtain hsame | ⟨last, due, hlast, -, -, -, hstep⟩ := effectiveStatus_cases entity (s := s)
      · rw [hsame]
        exact h
      · rw [hstep]
        exact h.followUp (mem_of_latestEvent hlast) _ _ _
  | wait duration => exact ⟨h.fresh, h.consistent⟩
  | elsewhere content => exact ⟨h.fresh, h.consistent⟩

/-- The latest event on an entity is the latest of its case. -/
theorem lastOf_of_latestEvent (h : Consistent log) {entity : Entity}
    (hlatest : latestEvent log entity = some event) : lastOf log event.caseId = some event := by
  induction log with
  | nil => cases hlatest
  | cons newest log ih =>
      have hconsistent : Consistent log := fun e he e' he' =>
        h e (List.mem_cons_of_mem _ he) e' (List.mem_cons_of_mem _ he')
      unfold latestEvent at hlatest
      unfold lastOf
      rw [List.find?_cons] at hlatest ⊢
      by_cases hentity : newest.entity = entity
      · obtain rfl : newest = event := by simpa [hentity] using hlatest
        simp
      · simp only [hentity, decide_false] at hlatest
        have hother : newest.caseId ≠ event.caseId := fun hcase => hentity
          ((h newest List.mem_cons_self event (List.mem_cons_of_mem _ (mem_of_latestEvent hlatest)) hcase).trans
            (latestEvent_entity hlatest))
        simp only [hother, decide_false]
        exact ih hconsistent hlatest

/-- The gate answers by the latest event on the entity. -/
theorem effectiveStatusSync_isSome (entity : Entity) : (s.effectiveStatusSync entity).1.isSome =
    (latestEvent s.log entity).any (hidesAt s.time) := by
  unfold Programme.effectiveStatusSync
  cases latestEvent s.log entity with
  | none => rfl
  | some event =>
      dsimp only [Option.any_some]
      unfold hidesAt actionHides
      split_ifs with hforwarded hdue hdisabled
      · simp [hforwarded, isDisabledStatus, hdue]
      · simp only [Bool.not_eq_true] at hdue
        simp [hforwarded, hdue]
      · simp [hdisabled]
      · simp only [Bool.not_eq_true] at hdisabled
        simp [hforwarded, hdisabled]

theorem Visible.takenDownStaysHidden (h : Visible s.log s.time) (hkept : Kept s) : TakenDownStaysHidden s := by
  intro entity
  rw [← Option.isNone_iff_eq_none, ← Option.not_isSome, effectiveStatusSync_isSome]
  refine ⟨?_, fun hnone => ?_⟩
  · rintro ⟨caseId, last, hlast, rfl, hhides⟩
    cases hlatest : latestEvent s.log last.entity with
    | none =>
        have := List.find?_eq_none.mp hlatest last (mem_of_lastOf hlast)
        simp at this
    | some latest =>
        by_contra hshown
        have hvisible := h _ latest hlatest (by simpa using hshown) caseId last hlast rfl
        rw [hvisible] at hhides
        cases hhides
  · cases hlatest : latestEvent s.log entity with
    | none => rfl
    | some latest =>
        have hshown := hnone latest.caseId latest (lastOf_of_latestEvent hkept.consistent hlatest)
          (latestEvent_entity hlatest)
        simp [hshown]

/-- As time passes a case only comes to hide less. -/
theorem hidesAt_later {later : Int} (hle : now ≤ later) (h : hidesAt now event = false) :
    hidesAt later event = false := by
  simp only [hidesAt, actionHides, Bool.or_eq_false_iff, Bool.and_eq_false_imp, Bool.not_eq_false', decide_eq_true_eq] at h ⊢
  refine ⟨h.1, fun hforwarded => ?_⟩
  obtain ⟨due, hat, hdue⟩ := Option.any_eq_true _ _ |>.mp (h.2 hforwarded)
  exact (Option.any_eq_true _ _).mpr ⟨due, hat, by simpa using (by simpa using hdue : due ≤ now).trans hle⟩

/-- One more event in every child case. -/
theorem Visible.fanOut (h : Visible s.log now) (parentCaseId : CaseId) {action : ActionType} {due : Option Int}
    (hchildren : actionHides now action due = true ∨
      ∀ child ∈ childCases s.log parentCaseId, ¬OtherHides s.log now child.entity child.caseId) :
    Visible (s.insert ((childCases s.log parentCaseId).map (childEvent parentCaseId action due))).log now := by
  refine Visible.insertAll h ?_
  rw [List.map_map]
  cases hhides : actionHides now action due with
  | true => exact Or.inl (List.forall_mem_map.mpr fun child _ => hhides)
  | false =>
      obtain hyes | hothers := hchildren
      · rw [hhides] at hyes
        cases hyes
      · exact Or.inr (List.forall_mem_map.mpr fun child hchild => ⟨hhides, hothers child hchild⟩)

/-- An event in a case and in every child case, after earlier ones in the case that hide nothing. -/
theorem Visible.reach (h : Visible s.log now) {last : ContentModerationAction}
    {s' : Programme} (mid : List ContentModerationAction) {action : ActionType} {accountId : Option Uuid}
    {due : Option Int} {createdAt : Stamp} (hs' : s'.log = followUp last action accountId due createdAt :: mid ++ s.log)
    (hmid : ∀ earlier ∈ mid, earlier.parentCaseId = none ∧ earlier.caseId = last.caseId ∧
      earlier.entity = last.entity ∧ hidesAt now earlier = false)
    (hothers : actionHides now action due = true ∨
      ∀ target ∈ reach s.log last, ¬OtherHides s.log now target.2 target.1) :
    Visible (s'.insert ((childCases s'.log last.caseId).map (childEvent last.caseId action due))).log now := by
  have hparent : ∀ event ∈ followUp last action accountId due createdAt :: mid, event.parentCaseId = none :=
    List.forall_mem_cons.mpr ⟨rfl, fun earlier hearlier => (hmid earlier hearlier).1⟩
  have hchildren : childCases s'.log last.caseId = childCases s.log last.caseId := by
    rw [hs', childCases_append hparent]
  have hvisible : Visible s'.log now := by
    rw [hs']
    refine h.append mid (fun earlier hearlier => ⟨(hmid earlier hearlier).2.1, (hmid earlier hearlier).2.2.1⟩) ?_
    exact hothers.imp id fun hothers => hothers _ List.mem_cons_self
  refine hvisible.fanOut last.caseId ?_
  rw [hchildren]
  cases hhides : actionHides now action due with
  | true => exact Or.inl rfl
  | false =>
      refine Or.inr fun child hchild hother => ?_
      obtain hyes | hothers := hothers
      · rw [hhides] at hyes
        cases hyes
      refine hothers (child.caseId, child.entity) (List.mem_cons_of_mem _ (List.mem_map_of_mem hchild)) ?_
      rw [hs'] at hother
      have hshown : hidesAt now (followUp last action accountId due createdAt) = false := hhides
      have hrest := OtherHides.of_cons hshown hother
      clear hother hs' hvisible hchildren
      induction mid with
      | nil => exact hrest
      | cons earlier mid ih =>
          obtain ⟨hearlier, hmid⟩ := List.forall_mem_cons.mp hmid
          refine ih hmid ?_ (OtherHides.of_cons hearlier.2.2.2 hrest)
          exact List.forall_mem_cons.mpr ⟨rfl, fun e he => (hmid e he).1⟩

theorem step_visible (hkept : Kept s) (h : Visible s.log s.time) (call : Call) (hspares : SparesOthers s call) :
    Visible (step s call).log (step s call).time := by
  cases call with
  | submitTakedownNotice entity fields =>
      obtain hsame | ⟨owner, howner, ⟨hmissing, hstep⟩ | ⟨-, hstep⟩⟩ :=
        submitTakedownNotice_cases entity fields (s := s)
      · rw [hsame]
        exact h
      · rw [hstep]
        refine Visible.append h [] (by simp) (Or.inr ?_)
        exact hspares (by rw [howner]; rfl) hmissing
      · rw [hstep]
        refine Visible.insertAll (Visible.append h [_] ?_ (Or.inl rfl)) (Or.inl ?_)
        · exact List.forall_mem_singleton.mpr ⟨rfl, rfl⟩
        · rw [List.map_map]
          exact List.forall_mem_map.mpr fun child _ => rfl
  | submitCounterNotice userId isAdmin waitingDays caseId fields =>
      obtain hsame | ⟨last, hlast, hmissing, hdm, hstep⟩ := submitCounterNotice_cases userId isAdmin waitingDays caseId
        fields (s := s)
      · rw [hsame]
        exact h
      · rw [hstep]
        obtain rfl := lastOf_caseId hlast
        refine h.reach [_] rfl (List.forall_mem_singleton.mpr ⟨rfl, rfl, rfl, rfl⟩) ?_
        by_cases hwaiting : waitingDays ≤ 0
        · exact Or.inr (hspares hwaiting hmissing last hlast hdm)
        · refine Or.inl ?_
          have hday : 0 < waitingDays * day := Int.mul_pos (not_le.mp hwaiting) (by decide)
          have hlater : ¬s.time + waitingDays * day ≤ s.time := by omega
          show (false || (true && !decide (s.time + waitingDays * day ≤ s.time))) = true
          rw [decide_eq_false hlater]
          rfl
  | resolveModerationCase isAdmin caseId resolution =>
      obtain hsame | ⟨last, hlast, hadmin, -, hstep⟩ := resolveModerationCase_cases isAdmin caseId resolution (s := s)
      · rw [hsame]
        exact h
      · rw [hstep]
        obtain rfl := lastOf_caseId hlast
        refine h.reach [] rfl (by simp) ?_
        by_cases hforwarded : resolution = .counterNoticeForwarded
        · exact Or.inl (by simp [actionHides, hforwarded])
        · cases hdisabled : isDisabledStatus resolution with
          | true => exact Or.inl (by simp [actionHides, hdisabled])
          | false => exact Or.inr (hspares hadmin hdisabled hforwarded last hlast)
  | effectiveStatus entity =>
      obtain hsame | ⟨last, due, hlast, hforwarded, hat, hdue, hstep⟩ := effectiveStatus_cases entity (s := s)
      · rw [hsame]
        exact h
      · rw [hstep]
        have hshown : hidesAt s.time last = false := by
          simp [hidesAt, actionHides, hforwarded, hat, hdue, isDisabledStatus]
        refine Visible.append h [] (by simp) (Or.inr ?_)
        rintro ⟨other, -, hother, -, hentity, hhides⟩
        have hsubject : other.entity = last.entity := hentity
        have hnone : hidesAt s.time other = false :=
          h entity last hlast hshown other.caseId other hother (hsubject.trans (latestEvent_entity hlast))
        exact absurd (hnone.symm.trans hhides) (by decide)
  | wait duration =>
      intro entity latest hlatest hshown caseId last hlast hentity
      have hlater : s.time ≤ s.time + (duration : Int) := by omega
      cases hbefore : hidesAt s.time latest with
      | false => exact hidesAt_later hlater (h entity latest hlatest hbefore caseId last hlast hentity)
      | true =>
          obtain rfl := latestEvent_entity hlatest
          by_cases hown : caseId = latest.caseId
          · subst hown
            have hsame := lastOf_of_latestEvent hkept.consistent hlatest
            obtain rfl : latest = last := Option.some.inj (hsame.symm.trans hlast)
            exact hshown
          · exact not_otherHides (hspares latest (mem_of_latestEvent hlatest) hlatest hbefore hshown) hlast hown hentity
  | elsewhere content => exact h

end

/-- Taken-down content stays hidden in every run whose calls spare the other cases on what they reach. -/
theorem taken_down_stays_hidden_when_others_spared (content : Content) (time : Int) (calls : List Call)
    (hmeets : Run.Meets step SparesOthers { content, time } calls) :
    TakenDownStaysHidden (Run.run step { content, time } calls) := by
  have hinit : Kept { content, time } ∧ Visible ({ content, time } : Programme).log time :=
    ⟨⟨by simp, by simp [Consistent]⟩, fun _ _ hlatest => nomatch hlatest⟩
  obtain ⟨hkept, hvisible⟩ := hmeets.invariant (I := fun s => Kept s ∧ Visible s.log s.time)
    (fun _ call h hspares => ⟨step_kept h.1 call, step_visible h.1 h.2 call hspares⟩) hinit
  exact hvisible.takenDownStaysHidden hkept

/-- An item of account 7, in world 5, and a copy of it in world 6. -/
def sword : Entity := { entityType := .worldItem, entityId := 1 }

def swordCopy : Entity := { entityType := .worldItem, entityId := 2 }

def shelf : Content where
  owner entity := if entity = sword then some (5, 7) else if entity = swordCopy then some (6, 8) else none
  adoptions := [{ source := sword, copy := swordCopy, destinationWorldId := 6, adoptedBy := 8 }]
  runsTheWorld userId worldId := userId = 7 && worldId = 5

def completeNotice : TakedownNoticeFields where
  claimantName := "Acme"
  claimantContact := "legal"
  copyrightedWorkDescription := "a sword"
  infringingMaterialLocation := "an item"
  goodFaithStatement := true
  accuracyStatement := true
  signature := "J"

def completeCounterNotice : CounterNoticeFields where
  removedMaterialDescription := "my sword"
  goodFaithMistakeStatement := true
  consentToJurisdiction := true
  contactInformation := "me"
  signature := "O"

/-- Taken down, contested by its owner and restored a fortnight later. -/
theorem taken_down_contested_restored : TakenDownStaysHidden (Run.run step { content := shelf, time := 0 }
    [.submitTakedownNotice sword completeNotice, .wait 10,
      .submitCounterNotice 7 false 14 0 completeCounterNotice, .wait (14 * 24 * 60 * 60 * 1000000),
      .effectiveStatus sword, .effectiveStatus swordCopy]) :=
  taken_down_stays_hidden_when_others_spared shelf 0 _ (by decide +kernel)

/-- A stranger's incomplete notice shows again what a complete one has taken down. -/
theorem incomplete_notice_uncovers : ¬TakenDownStaysHidden (Run.run step { content := shelf, time := 0 }
    [.submitTakedownNotice sword completeNotice, .wait 10,
      .submitTakedownNotice sword { completeNotice with signature := "" }]) := by
  intro h
  have hhidden := (h sword).1 ⟨0, _, Option.eq_some_of_isSome (by decide +kernel), by decide +kernel,
    by decide +kernel⟩
  revert hhidden
  decide +kernel

end ThunderForge.Moderation
