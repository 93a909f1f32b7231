import Mathlib.Data.Finset.Basic
import Mathlib.Data.Finset.Dedup
import ThunderForge.Basic
import ThunderForge.Lib.Run
import ThunderForge.Transfer.Message

/-! What a client serves to its peers (`PeerServer`, `peer/transfer.rs`), and the tasks that serve
(`serve`, `peer/wasm_transport.rs`): how many of them one peer has at a time. -/

namespace ThunderForge.Transfer

def rateWindowMs : UInt64 := 10000
def maxRequestsPerWindow : UInt32 := 32
def floodDropRequests : UInt32 := 256
def maxBytesPerWindow : UInt64 := 16 * 1024 * 1024
def maxConcurrentServes : UInt32 := 2

/-- How to answer one peer's request. -/
inductive ServeDecision where
  | serve
  | decline (reason : DeclineReason)
  | dropChannel
  deriving DecidableEq

/-- One peer's recent behaviour. -/
structure PeerMeter where
  windowStartedMs : UInt64 := 0
  requests : UInt32 := 0
  bytes : UInt64 := 0
  inFlight : UInt32 := 0

namespace PeerMeter

def roll (meter : PeerMeter) (nowMs : UInt64) : PeerMeter :=
  if rateWindowMs ≤ saturatingSub nowMs meter.windowStartedMs then
    { meter with windowStartedMs := nowMs, requests := 0, bytes := 0 }
  else meter

/-- One more request, as `saturating_add(1)` counts it. -/
def request (meter : PeerMeter) : PeerMeter :=
  { meter with requests := if meter.requests = UInt32.ofNat (2 ^ 32 - 1) then meter.requests else meter.requests + 1 }

/-- Bytes are accounted for and a slot is released, by `saturating_add` and `saturating_sub(1)`. -/
def served (meter : PeerMeter) (bytes : UInt64) : PeerMeter :=
  { meter with
    bytes := if 2 ^ 64 ≤ meter.bytes.toNat + bytes.toNat then UInt64.ofNat (2 ^ 64 - 1) else meter.bytes + bytes
    inFlight := if meter.inFlight = 0 then 0 else meter.inFlight - 1 }

end PeerMeter

/-- What this client will serve to peers, and to whom. -/
structure PeerServer where
  worldId : Uuid
  member : Bool
  held : Finset Fingerprint
  meters : Session → Option PeerMeter

namespace PeerServer

def new (worldId : Uuid) : PeerServer := { worldId, member := true, held := ∅, meters := fun _ => none }

variable (server : PeerServer)

def holds (fingerprint : Fingerprint) : PeerServer := { server with held := insert fingerprint server.held }

def forgets (fingerprint : Fingerprint) : PeerServer := { server with held := server.held.erase fingerprint }

def holdsOnly (fingerprints : List Fingerprint) : PeerServer := { server with held := fingerprints.toFinset }

/-- Membership in this world ended. -/
def membershipLost : PeerServer :=
  { server with
    member := false
    held := ∅
    meters := fun peer => (server.meters peer).map fun meter => { meter with inFlight := 0 } }

/-- What is kept of a peer is replaced. -/
def setMeter (peer : Session) (meter : Option PeerMeter) : PeerServer :=
  { server with meters := Function.update server.meters peer meter }

/-- The meter as a request finds it: its window is rolled on and the request is counted. -/
def meterFor (peer : Session) (nowMs : UInt64) : PeerMeter := (((server.meters peer).getD {}).roll nowMs).request

def onRequest (peer : Session) (fingerprint : Fingerprint) (nowMs : UInt64) : PeerServer × ServeDecision :=
  if ¬server.member then (server, .decline .notPermitted)
  else
    let meter := server.meterFor peer nowMs
    let metered := server.setMeter peer (some meter)
    if floodDropRequests < meter.requests then (metered, .dropChannel)
    else if maxRequestsPerWindow < meter.requests ∨ maxBytesPerWindow < meter.bytes ∨
        maxConcurrentServes ≤ meter.inFlight then
      (metered, .decline .busy)
    else if fingerprint ∉ server.held then (metered, .decline .notHeld)
    else (server.setMeter peer (some { meter with inFlight := meter.inFlight + 1 }), .serve)

/-- Account for bytes actually sent, and release the slot. -/
def served (peer : Session) (bytes : UInt64) : PeerServer :=
  match server.meters peer with
  | none => server
  | some meter => server.setMeter peer (some (meter.served bytes))

/-- Forget a peer that has disconnected. -/
def peerGone (peer : Session) : PeerServer := server.setMeter peer none

/-- The slots that a peer has taken, as its meter counts them. -/
def inFlight (peer : Session) : Nat := (server.meters peer).elim 0 (·.inFlight.toNat)

@[simp] theorem member_setMeter (peer : Session) (meter : Option PeerMeter) :
    (server.setMeter peer meter).member = server.member := rfl

@[simp] theorem inFlight_setMeter (peer other : Session) (meter : Option PeerMeter) :
    (server.setMeter peer meter).inFlight other =
      if other = peer then meter.elim 0 (·.inFlight.toNat) else server.inFlight other := by
  show (Function.update server.meters peer meter other).elim 0 _ = _
  split_ifs with hother
  · rw [hother, Function.update_self]
  · rw [Function.update_of_ne hother]
    rfl

end PeerServer

/-! The tasks. -/

/-- A task that was told to serve and has not said yet that it served: its number, its peer, and whether the peer
has stayed since. -/
structure Sending where
  number : Nat
  peer : Session
  current : Bool
  deriving DecidableEq

/-- A server, the tasks that it awaits, and how many it has told to serve. -/
structure Traffic where
  server : PeerServer
  sending : List Sending
  made : Nat

inductive TrafficCall where
  | request (peer : Session) (fingerprint : Fingerprint) (nowMs : UInt64)
  /-- The task with a number is done: it says that it served. -/
  | finish (number : Nat) (bytes : UInt64)
  | peerGone (peer : Session)
  | membershipLost
  | holds (fingerprint : Fingerprint)
  | forgets (fingerprint : Fingerprint)
  | holdsOnly (fingerprints : List Fingerprint)

namespace Traffic

def new (worldId : Uuid) : Traffic := { server := PeerServer.new worldId, sending := [], made := 0 }

/-- The task with a number, if it is awaited. -/
def awaited (traffic : Traffic) (number : Nat) : Option Sending :=
  traffic.sending.find? fun sending => sending.number = number

/-- A task of a peer is told to serve. -/
def told (traffic : Traffic) (server : PeerServer) (peer : Session) : Traffic :=
  { server, made := traffic.made + 1
    sending := traffic.sending ++ [{ number := traffic.made, peer, current := true }] }

/-- A task says that it served. -/
def done (traffic : Traffic) (sending : Sending) (bytes : UInt64) : Traffic :=
  { traffic with server := traffic.server.served sending.peer bytes, sending := traffic.sending.erase sending }

def step (traffic : Traffic) : TrafficCall → Traffic
  | .request peer fingerprint nowMs =>
    match traffic.server.onRequest peer fingerprint nowMs with
    | (server, .serve) => traffic.told server peer
    | (server, _) => { traffic with server }
  | .finish number bytes =>
    match traffic.awaited number with
    | none => traffic
    | some sending => traffic.done sending bytes
  | .peerGone peer =>
    { traffic with
      server := traffic.server.peerGone peer
      sending := traffic.sending.map fun sending =>
        if sending.peer = peer then { sending with current := false } else sending }
  | .membershipLost => { traffic with server := traffic.server.membershipLost }
  | .holds fingerprint => { traffic with server := traffic.server.holds fingerprint }
  | .forgets fingerprint => { traffic with server := traffic.server.forgets fingerprint }
  | .holdsOnly fingerprints => { traffic with server := traffic.server.holdsOnly fingerprints }

theorem step_request (traffic : Traffic) (peer : Session) (fingerprint : Fingerprint) (nowMs : UInt64) :
    traffic.step (.request peer fingerprint nowMs) = match traffic.server.onRequest peer fingerprint nowMs with
      | (server, .serve) => traffic.told server peer
      | (server, _) => { traffic with server } := rfl

theorem step_finish (traffic : Traffic) (number : Nat) (bytes : UInt64) :
    traffic.step (.finish number bytes) = match traffic.awaited number with
      | none => traffic
      | some sending => traffic.done sending bytes := rfl

/-- How many tasks a peer has that were told to serve since it was last gone. -/
def current (traffic : Traffic) (peer : Session) : Nat :=
  traffic.sending.countP fun sending => sending.peer = peer && sending.current

/-- At no point of a run does a peer have more tasks than it may have. -/
def Bounded (worldId : Uuid) (calls : List TrafficCall) : Prop :=
  ∀ before, before <+: calls → ∀ peer, (Run.run step (new worldId) before).current peer ≤ maxConcurrentServes.toNat

/-- A task whose peer was gone since finds no slot of that peer to release. -/
def ReleasesOwn (traffic : Traffic) : TrafficCall → Prop
  | .finish number _ => ((traffic.awaited number).all fun sending =>
      sending.current || traffic.server.inFlight sending.peer = 0) = true
  | _ => True

instance : ∀ (traffic : Traffic) (call : TrafficCall), Decidable (traffic.ReleasesOwn call)
  | _, .finish _ _ => inferInstanceAs (Decidable (_ = true))
  | _, .request _ _ _ | _, .peerGone _ | _, .membershipLost | _, .holds _ | _, .forgets _ | _, .holdsOnly _ =>
    .isTrue trivial

theorem ReleasesOwn.zero {traffic : Traffic} {number : Nat} {bytes : UInt64} {sending : Sending}
    (h : traffic.ReleasesOwn (.finish number bytes)) (hawaited : traffic.awaited number = some sending)
    (hgone : sending.current = false) : traffic.server.inFlight sending.peer = 0 := by
  rw [ReleasesOwn, hawaited, Option.all_some, hgone, Bool.false_or] at h
  exact of_decide_eq_true h

end Traffic

namespace PeerServer

variable (server : PeerServer) (peer : Session)

theorem inFlight_meterFor (nowMs : UInt64) : (server.meterFor peer nowMs).inFlight.toNat = server.inFlight peer := by
  unfold meterFor inFlight PeerMeter.request PeerMeter.roll
  cases server.meters peer <;> simp only [Option.getD_none, Option.getD_some, Option.elim_none, Option.elim_some] <;>
    split_ifs <;> rfl

/-- Everything a request can do: only an answer to serve takes a slot, and only of the peer that asks; it is
given to a member that finds a slot free. -/
theorem onRequest_cases (fingerprint : Fingerprint) (nowMs : UInt64) :
    (∃ server', server.onRequest peer fingerprint nowMs = (server', .serve) ∧ server.member = true ∧
        server.inFlight peer < maxConcurrentServes.toNat ∧
        ∀ other, server'.inFlight other = server.inFlight other + if other = peer then 1 else 0) ∨
      ∃ server' decision, server.onRequest peer fingerprint nowMs = (server', decision) ∧ decision ≠ .serve ∧
        server'.member = server.member ∧ ∀ other, server'.inFlight other = server.inFlight other := by
  have hmetered : ∀ other, (server.setMeter peer (some (server.meterFor peer nowMs))).inFlight other =
      server.inFlight other := by
    intro other
    rw [inFlight_setMeter]
    split_ifs with hother
    · rw [hother]
      exact server.inFlight_meterFor peer nowMs
    · rfl
  unfold onRequest
  by_cases hmember : server.member = true
  · rw [if_neg (not_not.mpr hmember)]
    dsimp only
    split_ifs with hflood hbusy hheld
    · exact .inr ⟨_, _, rfl, by decide, rfl, hmetered⟩
    · exact .inr ⟨_, _, rfl, by decide, rfl, hmetered⟩
    · have hfree : server.inFlight peer < maxConcurrentServes.toNat := by
        obtain ⟨-, hbusy⟩ := not_or.mp hbusy
        obtain ⟨-, hbusy⟩ := not_or.mp hbusy
        rwa [UInt32.le_iff_toNat_le, Nat.not_le, inFlight_meterFor] at hbusy
      refine .inl ⟨_, rfl, hmember, hfree, fun other => ?_⟩
      rw [inFlight_setMeter]
      split_ifs with hother
      · have hlt : server.inFlight peer + 1 < 2 ^ 32 := (Nat.succ_le_of_lt hfree).trans_lt (by decide)
        show ((server.meterFor peer nowMs).inFlight + 1).toNat = _
        rw [UInt32.toNat_add, inFlight_meterFor, hother]
        exact Nat.mod_eq_of_lt hlt
      · rfl
    · exact .inr ⟨_, _, rfl, by decide, rfl, hmetered⟩
  · rw [if_pos hmember]
    exact .inr ⟨_, _, rfl, by decide, rfl, fun _ => rfl⟩

/-- A task that is done releases one slot of its peer, if the peer has one taken. -/
theorem inFlight_served (bytes : UInt64) (other : Session) :
    (server.served peer bytes).inFlight other = server.inFlight other - if other = peer then 1 else 0 := by
  unfold served
  cases hmeter : server.meters peer with
  | none =>
      show server.inFlight other = _
      split_ifs with hother
      · rw [hother, inFlight, hmeter]
        rfl
      · rfl
  | some meter =>
      rw [inFlight_setMeter]
      split_ifs with hother
      · rw [hother, inFlight, hmeter]
        show (if meter.inFlight = 0 then 0 else meter.inFlight - 1).toNat = meter.inFlight.toNat - 1
        split_ifs with hzero
        · rw [hzero]
          rfl
        · have hpos : 1 ≤ meter.inFlight := by
            rw [UInt32.le_iff_toNat_le]
            exact Nat.pos_of_ne_zero fun h => hzero (UInt32.toNat_inj.mp h)
          exact UInt32.toNat_sub_of_le _ _ hpos
      · rfl

theorem member_served (bytes : UInt64) : (server.served peer bytes).member = server.member := by
  unfold served
  cases server.meters peer <;> rfl

end PeerServer

namespace Traffic

variable {traffic : Traffic}

/-- A member's meters count the tasks told to serve since each peer was last gone, and they are never too many. -/
structure Metered (traffic : Traffic) : Prop where
  inFlight_eq : traffic.server.member = true → ∀ peer, traffic.server.inFlight peer = traffic.current peer
  current_le : ∀ peer, traffic.current peer ≤ maxConcurrentServes.toNat

theorem metered_new (worldId : Uuid) : (new worldId).Metered where
  inFlight_eq _ _ := rfl
  current_le _ := Nat.zero_le _

/-- What takes and releases no slot keeps the meters right; so does the end of membership. -/
theorem Metered.of_eq {server : PeerServer} (h : traffic.Metered)
    (hmeters : server.member = true → traffic.server.member = true ∧
      ∀ peer, server.inFlight peer = traffic.server.inFlight peer) :
    ({ traffic with server } : Traffic).Metered where
  inFlight_eq hmember peer := by
    obtain ⟨hmember, hmeters⟩ := hmeters hmember
    exact (hmeters peer).trans (h.inFlight_eq hmember peer)
  current_le := h.current_le

theorem Metered.request (h : traffic.Metered) (peer : Session) (fingerprint : Fingerprint) (nowMs : UInt64) :
    (traffic.step (.request peer fingerprint nowMs)).Metered := by
  rw [step_request]
  rcases traffic.server.onRequest_cases peer fingerprint nowMs with
    ⟨server', heq, hmember, hfree, hmeters⟩ | ⟨server', decision, heq, hdecision, hmember, hmeters⟩
  · have hcurrent : ∀ other, (traffic.told server' peer).current other =
        traffic.current other + if other = peer then 1 else 0 := by
      intro other
      show (traffic.sending ++ [_]).countP _ = _
      rw [List.countP_append, List.countP_singleton, Bool.and_true, current]
      simp only [decide_eq_true_eq, @eq_comm Session other peer]
    rw [heq]
    constructor
    · intro _ other
      show server'.inFlight other = (traffic.told server' peer).current other
      rw [hcurrent, hmeters, h.inFlight_eq hmember]
    · intro other
      show (traffic.told server' peer).current other ≤ _
      rw [hcurrent]
      split_ifs with hother
      · rw [hother, ← h.inFlight_eq hmember]
        exact hfree
      · exact h.current_le other
  · rw [heq]
    have hkept : ({ traffic with server := server' } : Traffic).Metered :=
      h.of_eq fun hmember' => ⟨hmember ▸ hmember', hmeters⟩
    cases decision with
    | serve => exact absurd rfl hdecision
    | decline _ => exact hkept
    | dropChannel => exact hkept

theorem Metered.finish (h : traffic.Metered) {number : Nat} (bytes : UInt64)
    (hown : traffic.ReleasesOwn (.finish number bytes)) : (traffic.step (.finish number bytes)).Metered := by
  rw [step_finish]
  cases hawaited : traffic.awaited number with
  | none => exact h
  | some sending =>
      have hmem : sending ∈ traffic.sending := List.mem_of_find?_eq_some hawaited
      have hcurrent : ∀ other, (traffic.done sending bytes).current other =
          traffic.current other - if other = sending.peer ∧ sending.current = true then 1 else 0 := by
        intro other
        show (traffic.sending.erase sending).countP _ = _
        rw [List.countP_erase, current]
        simp only [hmem, true_and, Bool.and_eq_true, decide_eq_true_eq, @eq_comm Session other sending.peer]
      constructor
      · intro hmember other
        have hmember : traffic.server.member = true :=
          (traffic.server.member_served sending.peer bytes).symm.trans hmember
        have hbefore := h.inFlight_eq hmember other
        show (traffic.server.served sending.peer bytes).inFlight other = (traffic.done sending bytes).current other
        rw [hcurrent, PeerServer.inFlight_served, hbefore]
        cases hstayed : sending.current with
        | true => simp only [and_true]
        | false =>
            simp only [Bool.false_eq_true, and_false, if_false, Nat.sub_zero]
            split_ifs with hother
            · have hzero := hown.zero hawaited hstayed
              rw [← hother, hbefore] at hzero
              rw [hzero]
            · rfl
      · intro other
        show (traffic.done sending bytes).current other ≤ _
        rw [hcurrent]
        exact (Nat.sub_le _ _).trans (h.current_le other)

theorem Metered.peerGone (h : traffic.Metered) (peer : Session) : (traffic.step (.peerGone peer)).Metered := by
  have hcurrent : ∀ other, (traffic.step (.peerGone peer)).current other =
      if other = peer then 0 else traffic.current other := by
    intro other
    show (traffic.sending.map _).countP _ = _
    rw [List.countP_map]
    split_ifs with hother
    · subst hother
      refine List.countP_eq_zero.mpr fun sending _ => ?_
      simp only [Function.comp_apply]
      split_ifs with hpeer <;> simp [hpeer]
    · refine List.countP_congr fun sending _ => ?_
      simp only [Function.comp_apply]
      split_ifs with hpeer
      · simp [hpeer, Ne.symm hother]
      · rfl
  constructor
  · intro hmember other
    rw [hcurrent]
    show (traffic.server.setMeter peer none).inFlight other = _
    rw [PeerServer.inFlight_setMeter, h.inFlight_eq hmember]
    rfl
  · intro other
    rw [hcurrent]
    split_ifs
    · exact Nat.zero_le _
    · exact h.current_le other

/-- One call keeps the meters right, if a task whose peer was gone since releases no slot. -/
theorem Metered.step (call : TrafficCall) (h : traffic.Metered) (hown : traffic.ReleasesOwn call) :
    (traffic.step call).Metered := by
  cases call with
  | request peer fingerprint nowMs => exact h.request peer fingerprint nowMs
  | finish number bytes => exact h.finish bytes hown
  | peerGone peer => exact h.peerGone peer
  | membershipLost => exact h.of_eq fun hmember => absurd hmember Bool.false_ne_true
  | holds fingerprint => exact h.of_eq fun hmember => ⟨hmember, fun _ => rfl⟩
  | forgets fingerprint => exact h.of_eq fun hmember => ⟨hmember, fun _ => rfl⟩
  | holdsOnly fingerprints => exact h.of_eq fun hmember => ⟨hmember, fun _ => rfl⟩

/-- When no task whose peer was gone since releases a slot, no peer ever has too many. -/
theorem bounded_of_releasesOwn (worldId : Uuid) (calls : List TrafficCall)
    (hown : Run.Meets step ReleasesOwn (new worldId) calls) : Bounded worldId calls := by
  rintro before ⟨after, rfl⟩ peer
  obtain ⟨hbefore, -⟩ := Run.Meets.append.mp hown
  exact (hbefore.invariant (fun traffic call h hown => h.step call hown) (metered_new worldId)).current_le peer

/-- Content for the runs below. -/
def blank : Fingerprint := ⟨List.replicate 32 0, rfl⟩

/-- A task that is done after its peer was gone, and the peer's next request. -/
theorem bounded_gone : Bounded 1 [.holds blank, .request "a" blank 20000, .peerGone "a", .finish 0 5,
    .request "a" blank 20001] :=
  bounded_of_releasesOwn 1 _ (by decide)

/-- Two tasks are under way, the peer goes and comes back and two more are; the first is done, and there is
room for one more beside those two. -/
def overlapping : List TrafficCall :=
  [.holds blank, .request "a" blank 20000, .request "a" blank 20000, .peerGone "a", .request "a" blank 20001,
    .request "a" blank 20001, .finish 0 5, .request "a" blank 20002]

/-- The peer has three tasks then, though all tasks are done in the end. -/
theorem overlapping_not_bounded :
    ¬∀ worldId calls, (Run.run step (new worldId) calls).sending = [] → Bounded worldId calls := by
  intro h
  have hthree := h 1 (overlapping ++ [.finish 1 5, .finish 2 5, .finish 3 5, .finish 4 5]) (by decide) overlapping
    (List.prefix_append _ _) "a"
  exact absurd hthree (by decide)

end Traffic

end ThunderForge.Transfer
