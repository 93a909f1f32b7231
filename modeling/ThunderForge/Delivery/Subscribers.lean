import ThunderForge.Delivery.Router

/-! A subscriber hears the events of its world, all of them and in order, but for those it was told it missed; its
channel is not dropped while it listens. -/

namespace ThunderForge.Delivery

open Broadcast (Channel Received Covers)

variable {α : Type}

namespace WorldRouter

section Wired

variable {router : WorldRouter α}

theorem mem_of_receiver? {handle : Nat} {receiver : Receiver} (h : router.receiver? handle = some receiver) :
    receiver ∈ router.receivers ∧ receiver.handle = handle := by
  refine ⟨List.mem_of_find?_eq_some h, ?_⟩
  simpa using List.find?_some h

theorem receiver?_eq_none {handle : Nat} (h : router.receiver? handle = none) :
    ∀ receiver ∈ router.receivers, receiver.handle ≠ handle := by
  intro receiver hmem
  simpa using List.find?_eq_none.mp h receiver hmem

theorem Wired.eq_of_handle (h : router.Wired) {left right : Receiver} (hleft : left ∈ router.receivers)
    (hright : right ∈ router.receivers) (heq : left.handle = right.handle) : left = right :=
  List.inj_on_of_nodup_map h.handles hleft hright heq

/-- A channel has the receivers of its world. -/
theorem Wired.serial_iff (h : router.Wired) {worldId : Uuid} {sender : Sender α}
    (hroute : router.routes worldId = some sender) {receiver : Receiver} (hmem : receiver ∈ router.receivers) :
    receiver.serial = sender.serial ↔ receiver.worldId = worldId := by
  obtain ⟨sender', hroute', hserial⟩ := h.routed receiver hmem
  constructor
  · intro heq
    exact h.apart _ _ _ _ hroute' hroute (hserial.trans heq)
  · rintro rfl
    rw [← hserial, Option.some.inj (hroute'.symm.trans hroute)]

theorem Wired.receiverCount_pos (h : router.Wired) {receiver : Receiver} (hmem : receiver ∈ router.receivers)
    {sender : Sender α} (hroute : router.routes receiver.worldId = some sender) :
    0 < router.receiverCount sender := by
  refine List.countP_pos_iff.mpr ⟨receiver, hmem, ?_⟩
  simpa using (h.serial_iff hroute hmem).mpr rfl

theorem Wired.not_mem_of_count (h : router.Wired) {worldId : Uuid} {sender : Sender α}
    (hroute : router.routes worldId = some sender) (hcount : router.receiverCount sender = 0) :
    ∀ receiver ∈ router.receivers, receiver.worldId ≠ worldId := by
  rintro receiver hmem rfl
  exact absurd hcount (h.receiverCount_pos hmem hroute).ne'

/-- What a table with one entry renewed answers. -/
theorem update_eq_some {routes : Uuid → Option (Sender α)} {worldId other : Uuid} {renewed sender : Sender α}
    (h : Function.update routes worldId (some renewed) other = some sender) :
    (other = worldId ∧ renewed = sender) ∨ (other ≠ worldId ∧ routes other = some sender) := by
  by_cases heq : other = worldId
  · subst heq
    rw [Function.update_self] at h
    exact Or.inl ⟨rfl, Option.some.inj h⟩
  · rw [Function.update_of_ne heq] at h
    exact Or.inr ⟨heq, h⟩

theorem wired_new : (new : WorldRouter α).Wired where
  serials := by rintro worldId sender ⟨⟩
  apart := by rintro worldId sender worldId' sender' ⟨⟩
  handles := .nil
  routed := by rintro receiver ⟨⟩

/-- One more receiver, on the channel its world has. -/
theorem Wired.receive (h : router.Wired) {receiver : Receiver} {sender : Sender α}
    (hroute : router.routes receiver.worldId = some sender) (hserial : sender.serial = receiver.serial)
    (hhandle : ∀ other ∈ router.receivers, other.handle ≠ receiver.handle) :
    ({ router with receivers := router.receivers ++ [receiver] } : WorldRouter α).Wired where
  serials := h.serials
  apart := h.apart
  handles := by
    rw [List.map_append, List.nodup_append]
    refine ⟨h.handles, List.nodup_singleton _, fun handle hmem handle' hmem' heq => ?_⟩
    obtain ⟨other, hother, rfl⟩ := List.mem_map.mp hmem
    exact hhandle other hother (heq.trans (List.mem_singleton.mp hmem'))
  routed other hmem := by
    rcases List.mem_append.mp hmem with hmem | hmem
    · exact h.routed other hmem
    · obtain rfl := List.mem_singleton.mp hmem
      exact ⟨sender, hroute, hserial⟩

/-- A channel for a world that has none. -/
def opened (router : WorldRouter α) (worldId : Uuid) : WorldRouter α :=
  { router with
    routes := Function.update router.routes worldId (some { serial := router.serials, channel := .empty }),
    serials := router.serials + 1 }

/-- The first subscriber of a world comes as any other does to a world with a channel. -/
theorem subscribe_opened {worldId : Uuid} (hroute : router.routes worldId = none) (handle : Nat) :
    (router.opened worldId).subscribe handle worldId = router.subscribe handle worldId := by
  simp [subscribe, opened, hroute, Channel.empty]

theorem Wired.opened (h : router.Wired) {worldId : Uuid} (hroute : router.routes worldId = none) :
    (router.opened worldId).Wired where
  serials other sender hother := by
    rcases update_eq_some hother with ⟨-, rfl⟩ | ⟨-, hold⟩
    · exact Nat.lt_succ_self _
    · exact (h.serials other sender hold).trans (Nat.lt_succ_self _)
  apart left sender right sender' hleft hright hserial := by
    rcases update_eq_some hleft with ⟨rfl, rfl⟩ | ⟨-, hold⟩
    · rcases update_eq_some hright with ⟨rfl, -⟩ | ⟨-, hold'⟩
      · rfl
      · exact absurd hserial (h.serials right sender' hold').ne'
    · rcases update_eq_some hright with ⟨-, rfl⟩ | ⟨-, hold'⟩
      · exact absurd hserial (h.serials left sender hold).ne
      · exact h.apart left sender right sender' hold hold' hserial
  handles := h.handles
  routed receiver hmem := by
    obtain ⟨sender, hsender, hserial⟩ := h.routed receiver hmem
    refine ⟨sender, ?_, hserial⟩
    rw [← hsender]
    refine Function.update_of_ne (fun heq => ?_) _ _
    cases (heq ▸ hsender).symm.trans hroute

/-- A channel whose contents change keeps its place. -/
theorem Wired.refill (h : router.Wired) {worldId : Uuid} {sender sender' : Sender α}
    (hroute : router.routes worldId = some sender) (hserial : sender'.serial = sender.serial) :
    ({ router with routes := Function.update router.routes worldId (some sender') } : WorldRouter α).Wired := by
  have hold {other : Uuid} {s : Sender α}
      (hother : Function.update router.routes worldId (some sender') other = some s) :
      ∃ s', router.routes other = some s' ∧ s'.serial = s.serial := by
    rcases update_eq_some hother with ⟨rfl, rfl⟩ | ⟨-, hother⟩
    · exact ⟨sender, hroute, hserial.symm⟩
    · exact ⟨s, hother, rfl⟩
  refine ⟨fun other s hother => ?_, fun left s right s' hleft hright heq => ?_, h.handles, fun receiver hmem => ?_⟩
  · obtain ⟨s', hs', hserial'⟩ := hold hother
    exact hserial' ▸ h.serials other s' hs'
  · obtain ⟨sl, hsl, hserialLeft⟩ := hold hleft
    obtain ⟨sr, hsr, hserialRight⟩ := hold hright
    exact h.apart left sl right sr hsl hsr (hserialLeft.trans (heq.trans hserialRight.symm))
  · obtain ⟨s, hs, hs'⟩ := h.routed receiver hmem
    by_cases heq : receiver.worldId = worldId
    · refine ⟨sender', by rw [heq]; exact Function.update_self .., ?_⟩
      rw [heq] at hs
      rw [hserial, ← hs', Option.some.inj (hs.symm.trans hroute)]
    · exact ⟨s, (Function.update_of_ne heq _ _).trans hs, hs'⟩

theorem Wired.leave (h : router.Wired) (handle : Nat) : (router.leave handle).Wired where
  serials := h.serials
  apart := h.apart
  handles := h.handles.sublist (List.filter_sublist.map _)
  routed receiver hmem := h.routed receiver (List.mem_filter.mp hmem).1

theorem Wired.reap (h : router.Wired) : router.reap.Wired where
  serials worldId sender hroute := h.serials worldId sender (Option.filter_eq_some_iff.mp hroute).1
  apart left sender right sender' hleft hright :=
    h.apart left sender right sender' (Option.filter_eq_some_iff.mp hleft).1 (Option.filter_eq_some_iff.mp hright).1
  handles := h.handles
  routed receiver hmem := by
    obtain ⟨sender, hroute, hserial⟩ := h.routed receiver hmem
    refine ⟨sender, Option.filter_eq_some_iff.mpr ⟨hroute, ?_⟩, hserial⟩
    exact decide_eq_true (h.receiverCount_pos hmem hroute)

/-- Where a receiver stands does not matter to the wiring. -/
theorem Wired.advance (h : router.Wired) (handle next : Nat) :
    ({ router with
        receivers := router.receivers.map fun other => if other.handle = handle then { other with next } else other } :
      WorldRouter α).Wired where
  serials := h.serials
  apart := h.apart
  handles := by
    have hsame : (router.receivers.map fun other => if other.handle = handle then { other with next } else other).map
        Receiver.handle = router.receivers.map Receiver.handle := by
      rw [List.map_map]
      refine List.map_congr_left fun other _ => ?_
      simp only [Function.comp_apply]
      split_ifs <;> rfl
    exact hsame ▸ h.handles
  routed receiver hmem := by
    obtain ⟨other, hother, rfl⟩ := List.mem_map.mp hmem
    obtain ⟨sender, hroute, hserial⟩ := h.routed other hother
    exact ⟨sender, by split_ifs <;> exact hroute, by split_ifs <;> exact hserial⟩

end Wired

end WorldRouter

open WorldRouter (Wired)

section Follows

variable {s s' : Audience α} {receiver : Receiver} {log : List α}

/-- What a receiver follows depends on nothing of the other subscribers. -/
theorem Audience.Follows.congr (h : s.Follows receiver log) (hpublished : s'.published = s.published)
    (hjoined : s'.joined receiver.handle = s.joined receiver.handle)
    (htold : s'.told receiver.handle = s.told receiver.handle) : s'.Follows receiver log where
  joined := by
    rw [hjoined, hpublished]
    exact h.joined
  next := h.next
  told := by
    rw [Audience.due, hpublished, hjoined, htold]
    exact h.told

/-- One that comes is due nothing yet. -/
theorem Audience.follows_new (hjoined : s.joined receiver.handle = s.published.length)
    (htold : s.told receiver.handle = []) (hnext : receiver.next = log.length) : s.Follows receiver log where
  joined := hjoined.le
  next := hnext.le
  told := by
    refine ⟨receiver.next, le_refl _, ?_, ?_⟩
    · rw [Audience.due, hjoined, List.drop_length, hnext, List.drop_length]
      rfl
    · rw [htold, hnext, List.take_length, List.drop_length]
      exact .start

theorem due_publish (s : Audience α) (worldId : Uuid) (event : α)
    (hjoined : s.joined receiver.handle ≤ s.published.length) :
    (s.step (.publish worldId event)).due receiver =
      s.due receiver ++ if worldId = receiver.worldId then [event] else [] := by
  show (((s.published ++ [(worldId, event)]).drop (s.joined receiver.handle)).filter _).map _ = _
  rw [List.drop_append_of_le_length hjoined, List.filter_append, List.map_append, Audience.due]
  refine congrArg _ ?_
  by_cases heq : worldId = receiver.worldId <;> simp [heq]

theorem Audience.Follows.publish (h : s.Follows receiver log) (worldId : Uuid) (event : α) :
    (s.step (.publish worldId event)).Follows receiver
      (log ++ if worldId = receiver.worldId then [event] else []) := by
  obtain ⟨since, hsince, hdue, hcovers⟩ := h.told
  refine ⟨?_, ?_, since, hsince, ?_, ?_⟩
  · exact h.joined.trans (by simp [Audience.step])
  · rw [List.length_append]
    exact h.next.trans (Nat.le_add_right _ _)
  · rw [due_publish s worldId event h.joined, hdue, List.drop_append_of_le_length (hsince.trans h.next)]
  · rw [List.take_append_of_le_length h.next]
    exact hcovers

end Follows

section Attends

variable {s : Audience α}

theorem Audience.attends_empty : (Audience.empty : Audience α).Attends where
  wired := WorldRouter.wired_new
  logged := by rintro worldId sender ⟨⟩

/-- A subscriber comes to a world that has a channel. -/
theorem Audience.Attends.receive (h : s.Attends) {handle : Nat} (hfree : s.router.receiver? handle = none)
    {worldId : Uuid} {sender : Sender α} (hroute : s.router.routes worldId = some sender) :
    (s.step (.subscribe handle worldId)).Attends := by
  have hother := WorldRouter.receiver?_eq_none hfree
  have hrouter : (s.step (.subscribe handle worldId)).router = { s.router with
      receivers := s.router.receivers ++
        [{ handle, worldId, serial := sender.serial, next := sender.channel.sent }] } := by
    simp [Audience.step, hfree, WorldRouter.subscribe, hroute]
  have hpublished : (s.step (.subscribe handle worldId)).published = s.published := by
    simp [Audience.step, hfree]
  have hjoined : (s.step (.subscribe handle worldId)).joined = Function.update s.joined handle s.published.length := by
    simp [Audience.step, hfree]
  have htold : (s.step (.subscribe handle worldId)).told = Function.update s.told handle [] := by
    simp [Audience.step, hfree]
  refine ⟨?_, fun worldId' sender' hroute' => ?_⟩
  · rw [hrouter]
    exact h.wired.receive hroute rfl hother
  · rw [hrouter] at hroute' ⊢
    obtain ⟨log, hkeeps, hlog⟩ := h.logged worldId' sender' hroute'
    refine ⟨log, hkeeps, fun receiver hmem hworld => ?_⟩
    rcases List.mem_append.mp hmem with hmem | hmem
    · refine (hlog receiver hmem hworld).congr hpublished ?_ ?_
      · rw [hjoined, Function.update_of_ne (hother receiver hmem)]
      · rw [htold, Function.update_of_ne (hother receiver hmem)]
    · obtain rfl := List.mem_singleton.mp hmem
      subst hworld
      obtain rfl := Option.some.inj (hroute.symm.trans hroute')
      refine Audience.follows_new ?_ ?_ hkeeps.sent
      · rw [hjoined, hpublished, Function.update_self]
      · rw [htold, Function.update_self]

/-- A world gets a channel before anyone reads it. -/
theorem Audience.Attends.opened (h : s.Attends) {worldId : Uuid} (hroute : s.router.routes worldId = none) :
    ({ s with router := s.router.opened worldId } : Audience α).Attends where
  wired := h.wired.opened hroute
  logged other sender hother := by
    rcases WorldRouter.update_eq_some hother with ⟨rfl, rfl⟩ | ⟨-, hold⟩
    · refine ⟨[], Channel.keeps_empty, fun receiver hmem hworld => ?_⟩
      obtain ⟨sender, hsender, -⟩ := h.wired.routed receiver hmem
      rw [hworld, hroute] at hsender
      cases hsender
    · obtain ⟨log, hkeeps, hlog⟩ := h.logged other sender hold
      exact ⟨log, hkeeps, fun receiver hmem hworld => (hlog receiver hmem hworld).congr rfl rfl rfl⟩

theorem Audience.Attends.subscribe (h : s.Attends) (handle : Nat) (worldId : Uuid) :
    (s.step (.subscribe handle worldId)).Attends := by
  cases hfree : s.router.receiver? handle with
  | some receiver =>
      have hsame : s.step (.subscribe handle worldId) = s := by simp [Audience.step, hfree]
      exact hsame.symm ▸ h
  | none =>
      cases hroute : s.router.routes worldId with
      | some sender => exact h.receive hfree hroute
      | none =>
          have hopened : s.step (.subscribe handle worldId) =
              ({ s with router := s.router.opened worldId } : Audience α).step (.subscribe handle worldId) := by
            have hfree' : (s.router.opened worldId).receiver? handle = none := hfree
            simp only [Audience.step, hfree, hfree', WorldRouter.subscribe_opened hroute, Option.isSome_none,
              Bool.false_eq_true, if_false]
          rw [hopened]
          exact (h.opened hroute).receive hfree (Function.update_self ..)

theorem Audience.Attends.publish (h : s.Attends) (worldId : Uuid) (event : α) :
    (s.step (.publish worldId event)).Attends := by
  -- A world that takes nothing has no receivers, and no other world's receivers are due the event.
  have hother {receiver : Receiver} {log : List α} (hne : receiver.worldId ≠ worldId)
      (hfollows : s.Follows receiver log) : (s.step (.publish worldId event)).Follows receiver log := by
    have hafter := hfollows.publish worldId event
    rwa [if_neg fun heq => hne heq.symm, List.append_nil] at hafter
  have hidle (hnone : ∀ receiver ∈ s.router.receivers, receiver.worldId ≠ worldId)
      (hrouter : (s.router.publish worldId event).1 = s.router) : (s.step (.publish worldId event)).Attends := by
    refine ⟨?_, fun worldId' sender hroute => ?_⟩
    · show (s.router.publish worldId event).1.Wired
      exact hrouter.symm ▸ h.wired
    · replace hroute : (s.router.publish worldId event).1.routes worldId' = some sender := hroute
      rw [hrouter] at hroute
      obtain ⟨log, hkeeps, hlog⟩ := h.logged worldId' sender hroute
      refine ⟨log, hkeeps, fun receiver hmem hworld => ?_⟩
      replace hmem : receiver ∈ (s.router.publish worldId event).1.receivers := hmem
      rw [hrouter] at hmem
      exact hother (hnone receiver hmem) (hlog receiver hmem hworld)
  cases hroute : s.router.routes worldId with
  | none =>
      refine hidle (fun receiver hmem heq => ?_) (by simp [WorldRouter.publish, hroute])
      obtain ⟨sender, hsender, -⟩ := h.wired.routed receiver hmem
      rw [heq, hroute] at hsender
      cases hsender
  | some sender =>
      by_cases hcount : s.router.receiverCount sender = 0
      · exact hidle (h.wired.not_mem_of_count hroute hcount) (by simp [WorldRouter.publish, hroute, hcount])
      · have hrouter : (s.router.publish worldId event).1 = { s.router with
            routes := Function.update s.router.routes worldId
              (some { sender with channel := sender.channel.send worldChannelCapacity event }) } := by
          simp [WorldRouter.publish, hroute, hcount]
        refine ⟨?_, fun worldId' sender' hroute' => ?_⟩
        · show (s.router.publish worldId event).1.Wired
          exact hrouter.symm ▸ h.wired.refill hroute rfl
        · replace hroute' : (s.router.publish worldId event).1.routes worldId' = some sender' := hroute'
          have hmem' (receiver : Receiver) (hmem : receiver ∈ (s.step (.publish worldId event)).router.receivers) :
              receiver ∈ s.router.receivers := by
            replace hmem : receiver ∈ (s.router.publish worldId event).1.receivers := hmem
            rwa [hrouter] at hmem
          rw [hrouter] at hroute'
          rcases WorldRouter.update_eq_some hroute' with ⟨rfl, rfl⟩ | ⟨hne, hold⟩
          · obtain ⟨log, hkeeps, hlog⟩ := h.logged worldId' sender hroute
            refine ⟨log ++ [event], hkeeps.send worldChannelCapacity event, fun receiver hmem hworld => ?_⟩
            have hafter := (hlog receiver (hmem' receiver hmem) hworld).publish worldId' event
            rwa [if_pos hworld.symm] at hafter
          · obtain ⟨log, hkeeps, hlog⟩ := h.logged worldId' sender' hold
            refine ⟨log, hkeeps, fun receiver hmem hworld => ?_⟩
            exact hother (fun heq => hne (hworld.symm.trans heq)) (hlog receiver (hmem' receiver hmem) hworld)

/-- A read moves the receiver and adds to what its subscriber was told. -/
theorem Audience.step_recv {receiver : Receiver} (hfind : s.router.receiver? receiver.handle = some receiver)
    {sender : Sender α} (hroute : s.router.routes receiver.worldId = some sender)
    (hserial : sender.serial = receiver.serial) : s.step (.recv receiver.handle) = { s with
      router := { s.router with
        receivers := s.router.receivers.map fun other =>
          if other.handle = receiver.handle then { other with next := (sender.channel.recv receiver.next).2 }
          else other }
      told := Function.update s.told receiver.handle
        (s.told receiver.handle ++ [(sender.channel.recv receiver.next).1]) } := by
  simp [Audience.step, WorldRouter.recv, hfind, hroute, hserial]

theorem Audience.step_recv_none {handle : Nat} (hfind : s.router.receiver? handle = none) :
    s.step (.recv handle) = s := by
  simp [Audience.step, WorldRouter.recv, hfind]

theorem Audience.Attends.recv (h : s.Attends) (handle : Nat) : (s.step (.recv handle)).Attends := by
  cases hfind : s.router.receiver? handle with
  | none =>
      rw [Audience.step_recv_none hfind]
      exact h
  | some receiver =>
      obtain ⟨hreceiver, rfl⟩ := WorldRouter.mem_of_receiver? hfind
      obtain ⟨sender, hroute, hserial⟩ := h.wired.routed receiver hreceiver
      rw [Audience.step_recv hfind hroute hserial]
      refine ⟨h.wired.advance receiver.handle _, fun worldId sender' hroute' => ?_⟩
      obtain ⟨log, hkeeps, hlog⟩ := h.logged worldId sender' hroute'
      refine ⟨log, hkeeps, fun moved hmem hworld => ?_⟩
      obtain ⟨other, hother, rfl⟩ := List.mem_map.mp hmem
      by_cases heq : other.handle = receiver.handle
      · obtain rfl := h.wired.eq_of_handle hother hreceiver heq
        rw [if_pos rfl] at hworld ⊢
        subst hworld
        obtain rfl := Option.some.inj (hroute.symm.trans hroute')
        have hfollows := hlog other hother rfl
        obtain ⟨since, hsince, hdue, hcovers⟩ := hfollows.told
        obtain ⟨hle, hnext, hcovers'⟩ := hkeeps.recv hsince hfollows.next hcovers
        refine ⟨hfollows.joined, hnext, since, hsince.trans hle, hdue, ?_⟩
        show Covers (Function.update s.told other.handle _ other.handle) _
        rw [Function.update_self]
        exact hcovers'
      · rw [if_neg heq] at hworld ⊢
        exact (hlog other hother hworld).congr rfl rfl (Function.update_of_ne heq _ _)

theorem Audience.Attends.leave (h : s.Attends) (handle : Nat) : (s.step (.leave handle)).Attends where
  wired := h.wired.leave handle
  logged worldId sender hroute := by
    obtain ⟨log, hkeeps, hlog⟩ := h.logged worldId sender hroute
    exact ⟨log, hkeeps, fun receiver hmem hworld =>
      (hlog receiver (List.mem_filter.mp hmem).1 hworld).congr rfl rfl rfl⟩

theorem Audience.Attends.reap (h : s.Attends) : (s.step .reap).Attends where
  wired := h.wired.reap
  logged worldId sender hroute := by
    obtain ⟨log, hkeeps, hlog⟩ := h.logged worldId sender (Option.filter_eq_some_iff.mp hroute).1
    exact ⟨log, hkeeps, fun receiver hmem hworld => (hlog receiver hmem hworld).congr rfl rfl rfl⟩

theorem Audience.Attends.step (h : s.Attends) (act : Fanout α) : (s.step act).Attends := by
  cases act with
  | subscribe handle worldId => exact h.subscribe handle worldId
  | publish worldId event => exact h.publish worldId event
  | recv handle => exact h.recv handle
  | leave handle => exact h.leave handle
  | reap => exact h.reap

theorem Audience.Attends.run (h : s.Attends) (acts : List (Fanout α)) : (Run.run Audience.step s acts).Attends :=
  Run.invariant (I := Audience.Attends) (fun _ act h => h.step act) h acts

/-- What a subscriber was told accounts, in order, for what it is due up to where it has read; and its channel is
open. -/
theorem Audience.Attends.hears (h : s.Attends) {receiver : Receiver} (hmem : receiver ∈ s.router.receivers) :
    (∃ passed pending, s.due receiver = passed ++ pending ∧ Covers (s.told receiver.handle) passed ∧
      pending.length = s.behind receiver) ∧
      ∃ received, (s.router.recv receiver.handle).2 = some (.told received) := by
  obtain ⟨sender, hroute, hserial⟩ := h.wired.routed receiver hmem
  obtain ⟨log, hkeeps, hlog⟩ := h.logged receiver.worldId sender hroute
  have hfollows := hlog receiver hmem rfl
  obtain ⟨since, hsince, hdue, hcovers⟩ := hfollows.told
  refine ⟨⟨(log.take receiver.next).drop since, log.drop receiver.next, ?_, hcovers, ?_⟩, ?_⟩
  · calc s.due receiver = log.drop since := hdue
      _ = (log.take receiver.next ++ log.drop receiver.next).drop since := by rw [List.take_append_drop]
      _ = (log.take receiver.next).drop since ++ log.drop receiver.next := by
          rw [List.drop_append_of_le_length]
          rw [List.length_take, min_eq_left hfollows.next]
          exact hsince
  · rw [List.length_drop, Audience.behind, hroute, ← hkeeps.sent]
    rfl
  · have hfind : s.router.receiver? receiver.handle = some receiver := by
      cases hfind : s.router.receiver? receiver.handle with
      | none => exact absurd rfl (WorldRouter.receiver?_eq_none hfind receiver hmem)
      | some other =>
          obtain ⟨hother, hhandle⟩ := WorldRouter.mem_of_receiver? hfind
          rw [h.wired.eq_of_handle hother hmem hhandle]
    exact ⟨(sender.channel.recv receiver.next).1, by simp [WorldRouter.recv, hfind, hroute, hserial]⟩

end Attends

/-- Every channel keeps as much as it may. -/
def Audience.Roomy (s : Audience α) : Prop :=
  ∀ worldId sender, s.router.routes worldId = some sender → sender.channel.Full worldChannelCapacity

/-- No subscriber was told that it missed anything. -/
def Audience.Lossless (s : Audience α) : Prop :=
  ∀ receiver ∈ s.router.receivers, Broadcast.missed (s.told receiver.handle) = 0

/-- No subscriber is further behind than its channel keeps. -/
def Audience.KeepsUp (s : Audience α) : Prop :=
  ∀ receiver ∈ s.router.receivers, s.behind receiver ≤ worldChannelCapacity

instance (s : Audience α) : Decidable s.KeepsUp :=
  inferInstanceAs (Decidable (∀ receiver ∈ s.router.receivers, s.behind receiver ≤ worldChannelCapacity))

section KeepsUp

variable {s : Audience α}

theorem Audience.Roomy.step (h : s.Roomy) (hwired : s.router.Wired) (act : Fanout α) : (s.step act).Roomy := by
  cases act with
  | subscribe handle worldId =>
      cases hfree : s.router.receiver? handle with
      | some receiver =>
          have hsame : s.step (.subscribe handle worldId) = s := by simp [Audience.step, hfree]
          exact hsame.symm ▸ h
      | none =>
          intro other sender hother
          simp only [Audience.step, hfree, Option.isSome_none, Bool.false_eq_true, if_false] at hother
          cases hroute : s.router.routes worldId with
          | some _ =>
              simp only [WorldRouter.subscribe, hroute] at hother
              exact h other sender hother
          | none =>
              simp only [WorldRouter.subscribe, hroute] at hother
              rcases WorldRouter.update_eq_some hother with ⟨-, rfl⟩ | ⟨-, hold⟩
              · exact (Nat.zero_min _).symm
              · exact h other sender hold
  | publish worldId event =>
      intro other sender hother
      replace hother : (s.router.publish worldId event).1.routes other = some sender := hother
      cases hroute : s.router.routes worldId with
      | none =>
          simp only [WorldRouter.publish, hroute] at hother
          exact h other sender hother
      | some sender' =>
          simp only [WorldRouter.publish, hroute] at hother
          split_ifs at hother
          · exact h other sender hother
          · rcases WorldRouter.update_eq_some hother with ⟨-, rfl⟩ | ⟨-, hold⟩
            · exact (h worldId sender' hroute).send event
            · exact h other sender hold
  | recv handle =>
      cases hfind : s.router.receiver? handle with
      | none =>
          rw [Audience.step_recv_none hfind]
          exact h
      | some receiver =>
          obtain ⟨hreceiver, rfl⟩ := WorldRouter.mem_of_receiver? hfind
          obtain ⟨sender, hroute, hserial⟩ := hwired.routed receiver hreceiver
          rw [Audience.step_recv hfind hroute hserial]
          exact h
  | leave handle => exact h
  | reap => exact fun other sender hother => h other sender (Option.filter_eq_some_iff.mp hother).1

theorem Audience.Lossless.step (h : s.Lossless) (hattends : s.Attends) (hroomy : s.Roomy) (hkeeps : s.KeepsUp)
    (act : Fanout α) : (s.step act).Lossless := by
  cases act with
  | subscribe handle worldId =>
      cases hfree : s.router.receiver? handle with
      | some receiver =>
          have hsame : s.step (.subscribe handle worldId) = s := by simp [Audience.step, hfree]
          exact hsame.symm ▸ h
      | none =>
          have htold : (s.step (.subscribe handle worldId)).told = Function.update s.told handle [] := by
            simp [Audience.step, hfree]
          intro receiver hmem
          rw [htold]
          by_cases heq : receiver.handle = handle
          · rw [heq, Function.update_self]
            rfl
          · rw [Function.update_of_ne heq]
            refine h receiver ?_
            have hrouter : (s.step (.subscribe handle worldId)).router = s.router.subscribe handle worldId := by
              simp [Audience.step, hfree]
            rw [hrouter] at hmem
            unfold WorldRouter.subscribe at hmem
            split at hmem <;> rcases List.mem_append.mp hmem with hmem | hmem
            · exact hmem
            · exact absurd (congrArg Receiver.handle (List.mem_singleton.mp hmem)) heq
            · exact hmem
            · exact absurd (congrArg Receiver.handle (List.mem_singleton.mp hmem)) heq
  | publish worldId event =>
      intro receiver hmem
      refine h receiver ?_
      replace hmem : receiver ∈ (s.router.publish worldId event).1.receivers := hmem
      unfold WorldRouter.publish at hmem
      split at hmem
      · split_ifs at hmem <;> exact hmem
      · exact hmem
  | recv handle =>
      cases hfind : s.router.receiver? handle with
      | none =>
          rw [Audience.step_recv_none hfind]
          exact h
      | some receiver =>
          obtain ⟨hreceiver, rfl⟩ := WorldRouter.mem_of_receiver? hfind
          obtain ⟨sender, hroute, hserial⟩ := hattends.wired.routed receiver hreceiver
          rw [Audience.step_recv hfind hroute hserial]
          intro moved hmem
          obtain ⟨other, hother, rfl⟩ := List.mem_map.mp hmem
          by_cases heq : other.handle = receiver.handle
          · rw [if_pos heq]
            show Broadcast.missed (Function.update s.told receiver.handle _ other.handle) = 0
            have hbehind : sender.channel.sent - receiver.next ≤ worldChannelCapacity := by
              have hkept := hkeeps receiver hreceiver
              rw [Audience.behind, hroute] at hkept
              exact hkept
            rw [heq, Function.update_self, Broadcast.missed_concat, h receiver hreceiver, Nat.zero_add]
            exact (hroomy receiver.worldId sender hroute).missed_recv hbehind
          · rw [if_neg heq]
            show Broadcast.missed (Function.update s.told receiver.handle _ other.handle) = 0
            rw [Function.update_of_ne heq]
            exact h other hother
  | leave handle => exact fun receiver hmem => h receiver (List.mem_filter.mp hmem).1
  | reap => exact h

end KeepsUp

/-- A subscriber of one of two worlds that has read one event of the three. -/
def oneOfThree : List (Fanout Nat) :=
  [.publish 7 0, .subscribe 0 7, .publish 7 1, .publish 8 2, .recv 0, .publish 7 3]

end ThunderForge.Delivery
