import ThunderForge.Reconcile.OfflineKept

/-! What a person did one thing after another is submitted in that order. -/

namespace ThunderForge.Reconcile

open Offline (Effect step step_effect)

/-- A change is stored before the next one is numbered, and there are numbers left. -/
def Offline.OneByOne (state : Offline) : OfflineStep → Prop
  | .note _ _ _ _ => state.noted = [] ∧ state.made.length < 2 ^ 64 - 1
  | .put _ | .open _ | .pass _ | .take _ | .serve _ | .answer _ | .forget _ _ | .leave _ | .live _ | .otherTake _
  | .otherServe _ _ _ _ => True

instance (state : Offline) : ∀ act, Decidable (state.OneByOne act)
  | .note _ _ _ _ => inferInstanceAs (Decidable (state.noted = [] ∧ state.made.length < 2 ^ 64 - 1))
  | .put _ => inferInstanceAs (Decidable True)
  | .open _ => inferInstanceAs (Decidable True)
  | .pass _ => inferInstanceAs (Decidable True)
  | .take _ => inferInstanceAs (Decidable True)
  | .serve _ => inferInstanceAs (Decidable True)
  | .answer _ => inferInstanceAs (Decidable True)
  | .forget _ _ => inferInstanceAs (Decidable True)
  | .leave _ => inferInstanceAs (Decidable True)
  | .live _ => inferInstanceAs (Decidable True)
  | .otherTake _ => inferInstanceAs (Decidable True)
  | .otherServe _ _ _ _ => inferInstanceAs (Decidable True)

/-- What is still queued, in the order in which it was stored. -/
def Offline.queued (state : Offline) : List QueuedChange := state.made.filter (· ∈ state.outbox.rows)

/-- The numbers of what is queued follow the order in which it was stored, and so do the calls. -/
structure InOrder (state : Offline) : Prop where
  bound : ∀ change ∈ state.made, change.enqueuedSeq.toNat < state.made.length
  noted : ∀ change ∈ state.noted, state.noted = [change] ∧ change.enqueuedSeq.toNat ≤ state.made.length ∧
    ∀ row ∈ state.outbox.rows, row.enqueuedSeq.toNat < change.enqueuedSeq.toNat
  queued : state.queued.Pairwise fun a b => a.enqueuedSeq.toNat < b.enqueuedSeq.toNat
  sent : ∀ request ∈ state.requests, request.rows.Sublist state.made

section

variable {browser : Browser} {platform : Platform} {userId : Uuid} {state : Offline}

theorem InOrder.start (server : Server) : InOrder (Offline.start server) where
  bound _ hchange := absurd hchange List.not_mem_nil
  noted _ hchange := absurd hchange List.not_mem_nil
  queued := .nil
  sent _ hrequest := absurd hrequest List.not_mem_nil

/-- Who serves the calls and how far they are does not count. -/
theorem InOrder.congr (h : InOrder state) {state' : Offline} (houtbox : state'.outbox = state.outbox)
    (hmade : state'.made = state.made) (hnoted : state'.noted = state.noted)
    (hrequests : ∀ request ∈ state'.requests, ∃ request' ∈ state.requests, request.rows = request'.rows) :
    InOrder state' where
  bound := by rw [hmade]; exact h.bound
  noted := by rw [hnoted, hmade, houtbox]; exact h.noted
  queued := by unfold Offline.queued; rw [hmade, houtbox]; exact h.queued
  sent request hrequest := by
    obtain ⟨request', hrequest', hrows⟩ := hrequests request hrequest
    rw [hmade, hrows]
    exact h.sent request' hrequest'

theorem InOrder.setService (h : InOrder state) {index : Nat} {request : Request}
    (hrequest : state.requests[index]? = some request) (service : Service) :
    InOrder (state.setService index request service) := by
  refine h.congr rfl rfl rfl fun other hother => ?_
  rcases List.mem_or_eq_of_mem_set hother with hother | rfl
  · exact ⟨other, hother, rfl⟩
  · exact ⟨request, List.mem_of_getElem? hrequest, rfl⟩

/-- The next number is above all that are queued. -/
theorem InOrder.stamped (h : InOrder state) (hkept : Kept browser state) (hnone : state.noted = [])
    (hlength : state.made.length < 2 ^ 64 - 1) (worldId localId : Uuid) (command : String) (actorRoleHint : Role) :
    InOrder { state with noted := state.noted ++ [state.outbox.stamp worldId localId command actorRoleHint] } where
  bound := h.bound
  noted change hchange := by
    have hrow : ∀ row ∈ state.outbox.all, row.enqueuedSeq.toNat < state.made.length :=
      fun row hrow => h.bound row (hkept.rows row (Outbox.mem_all.mp hrow))
    change change ∈ state.noted ++ [_] at hchange
    show state.noted ++ [_] = [change] ∧ _ ∧ _
    rw [hnone, List.nil_append] at hchange ⊢
    obtain rfl := List.mem_singleton.mp hchange
    refine ⟨rfl, nextSeq_le hrow, fun row hqueued => ?_⟩
    exact lt_nextSeq (fun row hrow' => (hrow row hrow').trans hlength) (Outbox.mem_all.mpr hqueued)
  queued := h.queued
  sent := h.sent

/-- The change that was numbered last comes last. -/
theorem InOrder.stored (h : InOrder state) (hkept : Kept browser state) {index : Nat} {change : QueuedChange}
    (hnoted : state.noted[index]? = some change) :
    InOrder { state with
      outbox := state.outbox.put change
      noted := state.noted.eraseIdx index
      made := state.made ++ [change] } := by
  have hmem : change ∈ state.noted := List.mem_of_getElem? hnoted
  obtain ⟨honly, hle, habove⟩ := h.noted change hmem
  have hindex : index = 0 := by
    have hlt := (List.getElem?_eq_some_iff.mp hnoted).1
    rw [honly, List.length_singleton] at hlt
    omega
  have hfresh : change ∉ state.made := by
    intro hmade
    have hnodup := hkept.fresh
    rw [List.map_append] at hnodup
    exact (List.nodup_append.mp hnodup).2.2 _ (List.mem_map_of_mem hmade) _ (List.mem_map_of_mem hmem) rfl
  have hqueued : (state.made ++ [change]).filter (· ∈ (state.outbox.put change).rows) = state.queued ++ [change] := by
    rw [List.filter_append, List.filter_singleton, decide_eq_true ((hkept.mem_put hnoted).mpr (Or.inl rfl)), cond_true]
    refine congrArg (· ++ [change]) (List.filter_congr fun row hrow => decide_eq_decide.mpr ?_)
    rw [hkept.mem_put hnoted]
    exact or_iff_right fun heq => hfresh (heq ▸ hrow)
  constructor
  · intro row hrow
    show row.enqueuedSeq.toNat < (state.made ++ [change]).length
    rw [List.length_append, List.length_singleton]
    rcases List.mem_append.mp hrow with hrow | hrow
    · exact (h.bound row hrow).trans (Nat.lt_succ_self _)
    · rw [List.mem_singleton.mp hrow]
      exact Nat.lt_succ_of_le hle
  · intro row hrow
    change row ∈ state.noted.eraseIdx index at hrow
    rw [honly, hindex] at hrow
    exact absurd hrow List.not_mem_nil
  · show ((state.made ++ [change]).filter (· ∈ (state.outbox.put change).rows)).Pairwise _
    rw [hqueued]
    refine List.pairwise_append.mpr ⟨h.queued, List.pairwise_singleton _ _, fun row hrow last hlast => ?_⟩
    rw [List.mem_singleton.mp hlast]
    exact habove row (of_decide_eq_true (List.mem_filter.mp hrow).2)
  · exact fun request hrequest => (h.sent request hrequest).trans (List.sublist_append_left _ _)

/-- A call takes up what is queued in the order it was stored. -/
theorem InOrder.sends (h : InOrder state) (hkept : Kept browser state) (worldId : Uuid) (submittedAlready : List Uuid)
    (changes : List QueuedChangeInput) :
    InOrder { state with requests := state.requests ++ [
      { worldId
        rows := (state.outbox.forWorld worldId).filter fun change => change.localId ∉ submittedAlready
        changes
        service := .sent }] } where
  bound := h.bound
  noted := h.noted
  queued := h.queued
  sent request hrequest := by
    rcases List.mem_append.mp hrequest with hrequest | hrequest
    · exact h.sent request hrequest
    · rw [List.mem_singleton.mp hrequest]
      have hworld := Outbox.forWorld_eq h.queued hkept.rows worldId
      show ((state.outbox.forWorld worldId).filter _).Sublist state.made
      rw [hworld]
      exact List.filter_sublist.trans (List.filter_sublist.trans List.filter_sublist)

theorem InOrder.deleted (h : InOrder state) (localId : Uuid) :
    InOrder { state with outbox := state.outbox.delete localId } where
  bound := h.bound
  noted change hchange := by
    obtain ⟨honly, hle, habove⟩ := h.noted change hchange
    exact ⟨honly, hle, fun row hrow => habove row (Outbox.mem_delete.mp hrow).1⟩
  queued := by
    refine h.queued.sublist ?_
    show (state.made.filter (· ∈ (state.outbox.delete localId).rows)).Sublist
      (state.made.filter (· ∈ state.outbox.rows))
    refine List.monotone_filter_right _ fun row hrow => ?_
    exact decide_eq_true (Outbox.mem_delete.mp (of_decide_eq_true hrow)).1
  sent := h.sent

theorem InOrder.effect (h : InOrder state) (hkept : Kept browser state) {act : OfflineStep}
    (hone : state.OneByOne act) {state' : Offline} (heffect : Effect state platform userId browser act state') :
    InOrder state' := by
  have hsame : ∀ request ∈ state.requests, ∃ request' ∈ state.requests, request.rows = request'.rows :=
    fun request hrequest => ⟨request, hrequest, rfl⟩
  cases heffect with
  | idle => exact h
  | noted worldId localId command actorRoleHint => exact h.stamped hkept hone.1 hone.2 worldId localId command _
  | stored hnoted => exact h.stored hkept hnoted
  | opened worldId => exact h.congr rfl rfl rfl hsame
  | turned act index hphase => exact h.congr rfl rfl rfl hsame
  | sent act index hrows hchanges hphase =>
      rename_i worldId submittedAlready drain rows changes
      subst hrows
      exact (h.sends hkept worldId submittedAlready changes).congr rfl rfl rfl fun request hrequest =>
        ⟨request, hrequest, rfl⟩
  | refused act hrequest hsent houtcomes => exact h.setService hrequest _
  | taken hrequest hsent hmember =>
      exact (h.setService hrequest _).congr rfl rfl rfl fun request hrequest => ⟨request, hrequest, rfl⟩
  | served hrequest hserving hserve =>
      exact (h.setService hrequest _).congr rfl rfl rfl fun request hrequest => ⟨request, hrequest, rfl⟩
  | finished hrequest hserving => exact h.setService hrequest _
  | answered act index hrequest hanswered => exact h.congr rfl rfl rfl hsame
  | forgot act hdrain hphase deleted =>
      cases deleted with
      | true => exact (h.deleted _).congr rfl rfl rfl fun request hrequest => ⟨request, hrequest, rfl⟩
      | false => exact h.congr rfl rfl rfl hsame
  | elsewhere act hserver => exact h.congr rfl rfl rfl hsame

/-- As long as each change is stored before the next is numbered, every call lists its changes in the order in which
they were stored, whatever was deleted and submitted in between. -/
theorem sent_in_order {server : Server} {acts : List OfflineStep}
    (hone : Run.Meets (step platform userId browser) (fun state act => state.Fresh act ∧ state.OneByOne act)
      (.start server) acts) {request : Request}
    (hrequest : request ∈ (Run.run (step platform userId browser) (.start server) acts).requests) :
    request.rows.Sublist (Run.run (step platform userId browser) (.start server) acts).made := by
  have hrun : Kept browser (Run.run (step platform userId browser) (.start server) acts) ∧
      InOrder (Run.run (step platform userId browser) (.start server) acts) := by
    refine hone.invariant (I := fun state => Kept browser state ∧ InOrder state) (fun state act h hok => ?_)
      ⟨Kept.start browser server, InOrder.start server⟩
    have heffect := step_effect state platform userId browser act
    exact ⟨h.1.effect hok.1 heffect, h.2.effect h.1 hok.2 heffect⟩
  exact hrun.2.sent request hrequest

/-- Two changes one after the other, the second with the smaller id, and a call for both. -/
def twoMoves : List OfflineStep :=
  [.note 2 6 moveText .player, .put 0, .note 2 5 moveText .player, .put 0, .open 2, .pass 0]

theorem sent_in_order_twoMoves :
    ((Run.run (step readsMove 30 movesText) (.start twoTables) twoMoves).requests.map Request.rows) =
        [[⟨6, 2, moveText, 0, .player⟩, ⟨5, 2, moveText, 1, .player⟩]] ∧
      ∀ request ∈ (Run.run (step readsMove 30 movesText) (.start twoTables) twoMoves).requests,
        request.rows.Sublist (Run.run (step readsMove 30 movesText) (.start twoTables) twoMoves).made :=
  ⟨by decide +kernel, fun _ hrequest => sent_in_order (by decide +kernel) hrequest⟩

end

end ThunderForge.Reconcile
