import ThunderForge.Reconcile.Offline

/-! No change made while disconnected is lost: a row leaves the outbox only when the server has spoken about it. -/

namespace ThunderForge.Reconcile

open Offline (Effect step step_effect)

/-- A local id is given once. -/
def Offline.Fresh (state : Offline) : OfflineStep → Prop
  | .note _ localId _ _ => localId ∉ (state.made ++ state.noted).map QueuedChange.localId
  | .put _ | .open _ | .pass _ | .take _ | .serve _ | .answer _ | .forget _ _ | .leave _ | .live _ | .otherTake _
  | .otherServe _ _ _ _ => True

instance (state : Offline) : ∀ act, Decidable (Offline.Fresh state act)
  | .note _ localId _ _ => inferInstanceAs (Decidable (localId ∉ (state.made ++ state.noted).map QueuedChange.localId))
  | .put _ => inferInstanceAs (Decidable True)
  | .open _ => inferInstanceAs (Decidable True)
  | .pass _ => inferInstanceAs (Decidable True)
  | .take _ => inferInstanceAs (Decidable True)
  | .serve _ => inferInstanceAs (Decidable True)
  | .answer _ => inferInstanceAs (Decidable True)
  | .forget _ _ => inferInstanceAs (Decidable True)
  | .leave _ => inferInstanceAs (Decidable True)
  | .live _ => inferInstanceAs (Decidable True)
  | .otherTake _ => inferInstanceAs (Decidable True)
  | .otherServe _ _ _ _ => inferInstanceAs (Decidable True)

section

variable (browser : Browser)

/-- The server has spoken about a change it was sent. -/
def Answered (requests : List Request) (change : QueuedChange) : Prop :=
  ∃ request ∈ requests, change ∈ request.rows ∧ ∃ outcomes, request.service = .answered outcomes ∧
    ∃ outcome ∈ outcomes, outcome.localId = browser.spell change.localId

/-- A call is of rows that were stored for its world, and nothing of it has gone unaccounted for. -/
structure Request.Sound (made : List QueuedChange) (request : Request) : Prop where
  rows : ∀ row ∈ request.rows, row ∈ made ∧ row.worldId = request.worldId
  changes : request.rows.mapM browser.wire = some request.changes
  serving : ∀ incoming rest outcomes, request.service = .serving incoming rest outcomes →
    outcomes.map ReconcileOutcome.localId ++ rest.map QueuedChangeInput.localId =
        request.changes.map QueuedChangeInput.localId ∧
      ∀ change ∈ rest, change ∈ request.changes
  answered : ∀ outcomes, request.service = .answered outcomes →
    outcomes.map ReconcileOutcome.localId = request.changes.map QueuedChangeInput.localId

/-- What holds of the browser and its calls in every state. -/
structure Kept (state : Offline) : Prop where
  fresh : ((state.made ++ state.noted).map QueuedChange.localId).Nodup
  rows : ∀ row ∈ state.outbox.rows, row ∈ state.made
  requests : ∀ request ∈ state.requests, request.Sound browser state.made
  forgetting : ∀ drain ∈ state.drains, ∀ localIds, drain.phase = .forgetting localIds → ∀ localId ∈ localIds,
    ∃ row ∈ state.made, row.localId = localId ∧ Answered browser state.requests row
  kept : ∀ row ∈ state.made, row ∈ state.outbox.rows ∨ Answered browser state.requests row

variable {browser} {state : Offline}

theorem wire_spec {row : QueuedChange} {change : QueuedChangeInput} (h : browser.wire row = some change) :
    change.localId = browser.spell row.localId ∧ change.command = browser.commandOf row := by
  unfold Browser.wire at h
  dsimp only at h
  split at h
  · obtain rfl := Option.some.inj h
    exact ⟨rfl, rfl⟩
  · obtain ⟨user, -, rfl⟩ := Option.map_eq_some_iff.mp h
    exact ⟨rfl, rfl⟩

/-- What was sent for each row. -/
theorem wires_spec {rows : List QueuedChange} {changes : List QueuedChangeInput}
    (h : rows.mapM browser.wire = some changes) :
    changes.map QueuedChangeInput.localId = rows.map (fun row => browser.spell row.localId) ∧
      ∀ change ∈ changes, ∃ row ∈ rows, browser.wire row = some change := by
  induction rows generalizing changes with
  | nil =>
      obtain rfl := Option.some.inj h
      exact ⟨rfl, by simp⟩
  | cons row rows ih =>
      rw [List.mapM_cons] at h
      obtain ⟨first, hfirst, h⟩ := Option.bind_eq_some_iff.mp h
      obtain ⟨rest, hrest, h⟩ := Option.bind_eq_some_iff.mp h
      obtain rfl := Option.some.inj h
      obtain ⟨hids, hmem⟩ := ih hrest
      refine ⟨by rw [List.map_cons, List.map_cons, hids, (wire_spec hfirst).1], fun change hchange => ?_⟩
      rcases List.mem_cons.mp hchange with rfl | hchange
      · exact ⟨row, List.mem_cons_self, hfirst⟩
      · obtain ⟨sent, hsent, hwire⟩ := hmem change hchange
        exact ⟨sent, List.mem_cons_of_mem _ hsent, hwire⟩

theorem Request.Sound.mono {made made' : List QueuedChange} {request : Request} (h : request.Sound browser made)
    (hmade : ∀ row ∈ made, row ∈ made') : request.Sound browser made' :=
  ⟨fun row hrow => ⟨hmade row (h.rows row hrow).1, (h.rows row hrow).2⟩, h.changes, h.serving, h.answered⟩

theorem Answered.mono {requests requests' : List Request} {row : QueuedChange} (h : Answered browser requests row)
    (hrequests : ∀ request ∈ requests, ∀ outcomes, request.service = .answered outcomes → request ∈ requests') :
    Answered browser requests' row := by
  obtain ⟨request, hrequest, hrow, outcomes, hanswered, houtcome⟩ := h
  exact ⟨request, hrequests request hrequest outcomes hanswered, hrow, outcomes, hanswered, houtcome⟩

/-- A call that has not ended moves on; all others stay. -/
theorem answered_mem_set {requests : List Request} {index : Nat} {request request' : Request}
    (hrequest : requests[index]? = some request) (hopen : ∀ outcomes, request.service ≠ .answered outcomes) :
    ∀ other ∈ requests, ∀ outcomes, other.service = .answered outcomes → other ∈ requests.set index request' := by
  intro other hother outcomes hanswered
  obtain ⟨position, hposition⟩ := List.mem_iff_getElem?.mp hother
  have hne : index ≠ position := by
    rintro rfl
    obtain rfl := Option.some.inj (hrequest.symm.trans hposition)
    exact hopen outcomes hanswered
  refine List.mem_of_getElem? (i := position) ?_
  rw [List.getElem?_set_ne hne, hposition]

/-- The call that moves on is as sound as it was, when what it comes to is accounted for. -/
theorem Kept.setService (h : Kept browser state) {index : Nat} {request : Request}
    (hrequest : state.requests[index]? = some request) (hopen : ∀ outcomes, request.service ≠ .answered outcomes)
    {service : Service} (hsound : Request.Sound browser state.made { request with service }) :
    Kept browser (state.setService index request service) where
  fresh := h.fresh
  rows := h.rows
  requests other hother := by
    rcases List.mem_or_eq_of_mem_set hother with hother | rfl
    · exact h.requests other hother
    · exact hsound
  forgetting drain hdrain localIds hphase localId hlocalId := by
    obtain ⟨row, hrow, hid, hanswered⟩ := h.forgetting drain hdrain localIds hphase localId hlocalId
    exact ⟨row, hrow, hid, hanswered.mono (answered_mem_set hrequest hopen)⟩
  kept row hrow := (h.kept row hrow).imp_right fun hanswered => hanswered.mono (answered_mem_set hrequest hopen)

/-- The rest of the state does not count. -/
theorem Kept.congr {state' : Offline} (h : Kept browser state) (houtbox : state'.outbox = state.outbox)
    (hmade : state'.made = state.made) (hnoted : state'.noted = state.noted)
    (hrequests : state'.requests = state.requests) (hdrains : state'.drains = state.drains) : Kept browser state' where
  fresh := by rw [hmade, hnoted]; exact h.fresh
  rows := by rw [houtbox, hmade]; exact h.rows
  requests := by rw [hrequests, hmade]; exact h.requests
  forgetting := by rw [hdrains, hmade, hrequests]; exact h.forgetting
  kept := by rw [hmade, houtbox, hrequests]; exact h.kept

theorem Kept.start (browser : Browser) (server : Server) : Kept browser (Offline.start server) where
  fresh := .nil
  rows _ hrow := absurd hrow List.not_mem_nil
  requests _ hrequest := absurd hrequest List.not_mem_nil
  forgetting _ hdrain := absurd hdrain List.not_mem_nil
  kept _ hrow := absurd hrow List.not_mem_nil

theorem Kept.noted (h : Kept browser state) {change : QueuedChange}
    (hfresh : change.localId ∉ (state.made ++ state.noted).map QueuedChange.localId) :
    Kept browser { state with noted := state.noted ++ [change] } where
  fresh := by
    show ((state.made ++ (state.noted ++ [change])).map QueuedChange.localId).Nodup
    rw [← List.append_assoc, List.map_append]
    refine List.nodup_append.mpr ⟨h.fresh, List.nodup_singleton _, fun localId hlocalId other hother => ?_⟩
    obtain rfl := List.mem_singleton.mp hother
    rintro rfl
    exact hfresh hlocalId
  rows := h.rows
  requests := h.requests
  forgetting := h.forgetting
  kept := h.kept

/-- No two changes have one local id. -/
theorem Kept.eq_of_localId (h : Kept browser state) {row row' : QueuedChange} (hrow : row ∈ state.made ++ state.noted)
    (hrow' : row' ∈ state.made ++ state.noted) (hid : row.localId = row'.localId) : row = row' :=
  List.inj_on_of_nodup_map h.fresh hrow hrow' hid

/-- A change that is stored writes over no other. -/
theorem Kept.mem_put (h : Kept browser state) {index : Nat} {change : QueuedChange}
    (hnoted : state.noted[index]? = some change) {row : QueuedChange} :
    row ∈ (state.outbox.put change).rows ↔ row = change ∨ row ∈ state.outbox.rows := by
  rw [Outbox.mem_put]
  refine or_congr_right ⟨And.left, fun hrow => ⟨hrow, fun hid => ?_⟩⟩
  have hchange : change ∈ state.noted := List.mem_of_getElem? hnoted
  have hmade := h.rows row hrow
  obtain rfl := h.eq_of_localId (List.mem_append_left _ hmade) (List.mem_append_right _ hchange) hid
  have hnodup := h.fresh
  rw [List.map_append] at hnodup
  exact (List.nodup_append.mp hnodup).2.2 _ (List.mem_map_of_mem hmade) _ (List.mem_map_of_mem hchange) rfl

theorem Kept.stored (h : Kept browser state) {index : Nat} {change : QueuedChange}
    (hnoted : state.noted[index]? = some change) : Kept browser
      { state with
        outbox := state.outbox.put change
        noted := state.noted.eraseIdx index
        made := state.made ++ [change] } where
  fresh := by
    have hperm : (state.made ++ [change] ++ state.noted.eraseIdx index).Perm (state.made ++ state.noted) := by
      rw [List.append_assoc]
      refine List.Perm.append_left _ ?_
      obtain ⟨hlt, rfl⟩ := List.getElem?_eq_some_iff.mp hnoted
      exact List.getElem_cons_eraseIdx_perm hlt
    exact (hperm.map _).nodup_iff.mpr h.fresh
  rows row hrow := by
    rcases (h.mem_put hnoted).mp hrow with rfl | hrow
    · exact List.mem_append_right _ List.mem_cons_self
    · exact List.mem_append_left _ (h.rows row hrow)
  requests request hrequest := (h.requests request hrequest).mono fun row hrow => List.mem_append_left _ hrow
  forgetting drain hdrain localIds hphase localId hlocalId := by
    obtain ⟨row, hrow, hanswered⟩ := h.forgetting drain hdrain localIds hphase localId hlocalId
    exact ⟨row, List.mem_append_left _ hrow, hanswered⟩
  kept row hrow := by
    rcases List.mem_append.mp hrow with hrow | hrow
    · exact (h.kept row hrow).imp_left fun hrow => (h.mem_put hnoted).mpr (Or.inr hrow)
    · exact Or.inl ((h.mem_put hnoted).mpr (Or.inl (List.mem_singleton.mp hrow)))

theorem Kept.setDrain (h : Kept browser state) {index : Nat} {drain : Drain}
    (hphase : ∀ localIds, drain.phase = .forgetting localIds → ∀ localId ∈ localIds,
      ∃ row ∈ state.made, row.localId = localId ∧ Answered browser state.requests row) :
    Kept browser (state.setDrain index drain) where
  fresh := h.fresh
  rows := h.rows
  requests := h.requests
  forgetting other hother := by
    rcases List.mem_or_eq_of_mem_set hother with hother | rfl
    · exact h.forgetting other hother
    · exact hphase
  kept := h.kept

theorem Kept.opened (h : Kept browser state) {drain : Drain} (hphase : drain.phase = .reading) :
    Kept browser { state with drains := state.drains ++ [drain] } where
  fresh := h.fresh
  rows := h.rows
  requests := h.requests
  forgetting other hother localIds hother' := by
    rcases List.mem_append.mp hother with hother | hother
    · exact h.forgetting other hother localIds hother'
    · rw [List.mem_singleton.mp hother, hphase] at hother'
      cases hother'
  kept := h.kept

theorem Kept.sent (h : Kept browser state) {request : Request} (hsound : request.Sound browser state.made) :
    Kept browser { state with requests := state.requests ++ [request] } where
  fresh := h.fresh
  rows := h.rows
  requests other hother := by
    rcases List.mem_append.mp hother with hother | hother
    · exact h.requests other hother
    · rw [List.mem_singleton.mp hother]
      exact hsound
  forgetting drain hdrain localIds hphase localId hlocalId := by
    obtain ⟨row, hrow, hid, hanswered⟩ := h.forgetting drain hdrain localIds hphase localId hlocalId
    exact ⟨row, hrow, hid, hanswered.mono fun other hother _ _ => List.mem_append_left _ hother⟩
  kept row hrow := (h.kept row hrow).imp_right fun hanswered =>
    hanswered.mono fun other hother _ _ => List.mem_append_left _ hother

/-- What an answer speaks about was sent. -/
theorem Kept.of_answer (h : Kept browser state) {request : Request} (hrequest : request ∈ state.requests)
    {outcomes : List ReconcileOutcome} (hanswered : request.service = .answered outcomes) {localId : Uuid}
    (hlocalId : localId ∈ outcomes.filterMap fun outcome => browser.read outcome.localId) :
    ∃ row ∈ state.made, row.localId = localId ∧ Answered browser state.requests row := by
  obtain ⟨outcome, houtcome, hread⟩ := List.mem_filterMap.mp hlocalId
  have hsound := h.requests request hrequest
  have hid : outcome.localId ∈ request.rows.map fun row => browser.spell row.localId := by
    rw [← (wires_spec hsound.changes).1, ← hsound.answered outcomes hanswered]
    exact List.mem_map_of_mem houtcome
  obtain ⟨row, hrow, hspell⟩ := List.mem_map.mp hid
  refine ⟨row, (hsound.rows row hrow).1, ?_, request, hrequest, hrow, outcomes, hanswered, outcome, houtcome,
    hspell.symm⟩
  rw [← hspell, browser.read_spell] at hread
  exact Option.some.inj hread

/-- A row that is deleted has been answered. -/
theorem Kept.deleted (h : Kept browser state) {localId : Uuid}
    (hanswered : ∃ row ∈ state.made, row.localId = localId ∧ Answered browser state.requests row) :
    Kept browser { state with outbox := state.outbox.delete localId } where
  fresh := h.fresh
  rows row hrow := h.rows row (Outbox.mem_delete.mp hrow).1
  requests := h.requests
  forgetting := h.forgetting
  kept row hrow := by
    rcases h.kept row hrow with hqueued | hgone
    · by_cases hid : row.localId = localId
      · obtain ⟨answered, hmade, hid', hanswered⟩ := hanswered
        obtain rfl := h.eq_of_localId (List.mem_append_left _ hrow) (List.mem_append_left _ hmade) (hid.trans hid'.symm)
        exact Or.inr hanswered
      · exact Or.inl (Outbox.mem_delete.mpr ⟨hqueued, hid⟩)
    · exact Or.inr hgone

variable {platform : Platform} {userId : Uuid}

theorem Kept.effect (h : Kept browser state) {act : OfflineStep} (hfresh : state.Fresh act) {state' : Offline}
    (heffect : Effect state platform userId browser act state') : Kept browser state' := by
  cases heffect with
  | idle => exact h
  | noted worldId localId command actorRoleHint => exact h.noted hfresh
  | stored hnoted => exact h.stored hnoted
  | opened worldId => exact h.opened rfl
  | turned act index hphase => exact h.setDrain fun localIds heq => absurd heq (hphase localIds)
  | sent act index hrows hchanges hphase =>
      rename_i worldId submittedAlready drain rows changes
      have hsound : Request.Sound browser state.made { worldId, rows, changes, service := .sent } := by
        refine ⟨fun row hrow => ?_, hchanges, by rintro _ _ _ ⟨⟩, by rintro _ ⟨⟩⟩
        rw [hrows] at hrow
        obtain ⟨hqueued, hworld⟩ := Outbox.mem_forWorld.mp (List.mem_filter.mp hrow).1
        exact ⟨h.rows row hqueued, hworld⟩
      exact (h.sent hsound).setDrain fun localIds heq => absurd heq (hphase localIds)
  | refused act hrequest hsent houtcomes =>
      have hsound := h.requests _ (List.mem_of_getElem? hrequest)
      refine h.setService hrequest (by rw [hsent]; rintro _ ⟨⟩) ⟨hsound.rows, hsound.changes, by rintro _ _ _ ⟨⟩, ?_⟩
      rintro _ ⟨⟩
      exact houtcomes
  | taken hrequest hsent hmember =>
      rename_i index request memberRole
      have hsound := h.requests _ (List.mem_of_getElem? hrequest)
      have hsound' (incoming : Contender) :
          Request.Sound browser state.made { request with service := .serving incoming request.changes [] } := by
        refine ⟨hsound.rows, hsound.changes, ?_, by rintro _ ⟨⟩⟩
        rintro _ _ _ ⟨⟩
        exact ⟨rfl, fun _ hchange => hchange⟩
      exact (h.setService hrequest (by rw [hsent]; rintro _ ⟨⟩) (hsound' _)).congr rfl rfl rfl rfl rfl
  | served hrequest hserving hserve =>
      rename_i index request incoming change rest outcomes served
      have hsound := h.requests _ (List.mem_of_getElem? hrequest)
      obtain ⟨hids, hrest⟩ := hsound.serving _ _ _ hserving
      have hlocal := localId_applyChange platform request.worldId userId incoming state.server change
      rw [hserve] at hlocal
      have hsound' : Request.Sound browser state.made
          { request with service := .serving incoming rest (outcomes ++ [served.2]) } := by
        refine ⟨hsound.rows, hsound.changes, ?_, by rintro _ ⟨⟩⟩
        rintro _ _ _ ⟨⟩
        refine ⟨?_, fun other hother => hrest other (List.mem_cons_of_mem _ hother)⟩
        rw [← hids, List.map_append, List.map_cons, List.map_cons, hlocal, List.append_assoc]
        rfl
      exact (h.setService hrequest (by rw [hserving]; rintro _ ⟨⟩) hsound').congr rfl rfl rfl rfl rfl
  | finished hrequest hserving =>
      have hsound := h.requests _ (List.mem_of_getElem? hrequest)
      obtain ⟨hids, -⟩ := hsound.serving _ _ _ hserving
      refine h.setService hrequest (by rw [hserving]; rintro _ ⟨⟩) ⟨hsound.rows, hsound.changes, by rintro _ _ _ ⟨⟩, ?_⟩
      rintro _ ⟨⟩
      rw [← hids, List.map_nil, List.append_nil]
  | answered act index hrequest hanswered =>
      refine h.setDrain ?_
      rintro _ ⟨⟩ localId hlocalId
      exact h.of_answer hrequest hanswered hlocalId
  | forgot act hdrain hphase deleted =>
      rename_i index drain localId rest
      have hanswered := h.forgetting _ hdrain _ hphase
      have hrest : ∀ localIds, DrainPhase.forgetting rest = .forgetting localIds → ∀ localId ∈ localIds,
          ∃ row ∈ state.made, row.localId = localId ∧ Answered browser state.requests row := by
        rintro _ ⟨⟩ other hother
        exact hanswered other (List.mem_cons_of_mem _ hother)
      cases deleted with
      | true => exact (h.deleted (hanswered localId List.mem_cons_self)).setDrain hrest
      | false => exact h.setDrain hrest
  | elsewhere act hserver => exact h.congr rfl rfl rfl rfl rfl

theorem kept_run {server : Server} {acts : List OfflineStep}
    (hfresh : Run.Meets (step platform userId browser) Offline.Fresh (.start server) acts) :
    Kept browser (Run.run (step platform userId browser) (.start server) acts) :=
  hfresh.invariant (fun state act h hok => h.effect hok (step_effect state platform userId browser act))
    (Kept.start browser server)

/-- As long as local ids are given once: in whatever order pages, calls and the server take their steps, whatever fails
and whichever answers are lost, every change that was ever stored is in the outbox, or the server has answered a call
that carried it, under its id. -/
theorem kept_or_answered {server : Server} {acts : List OfflineStep}
    (hfresh : Run.Meets (step platform userId browser) Offline.Fresh (.start server) acts) {change : QueuedChange}
    (hmade : change ∈ (Run.run (step platform userId browser) (.start server) acts).made) :
    change ∈ (Run.run (step platform userId browser) (.start server) acts).outbox.rows ∨
      Answered browser (Run.run (step platform userId browser) (.start server) acts).requests change :=
  (kept_run hfresh).kept change hmade

theorem kept_or_answered_lostAnswer : Answered movesText
    (Run.run (step readsMove 30 movesText) (.start twoTables) lostAnswer).requests ⟨1, 2, moveText, 0, .player⟩ :=
  (kept_or_answered (by decide +kernel) (by decide +kernel)).resolve_left (by decide +kernel)

end

end ThunderForge.Reconcile
