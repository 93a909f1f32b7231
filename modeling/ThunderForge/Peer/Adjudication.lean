import ThunderForge.Peer.AdjudicationMessage

/-! Peer-adjudicated play on one client (`peer/adjudication.rs`): the state, the calls that change it,
and one lemma for each call that says everything the call can do. -/

namespace ThunderForge.Peer

open Std (ExtTreeMap ExtTreeSet)

/-- Why peer-adjudicated play stopped. -/
inductive AdjudicationEnd where
  | peerLost
  | gameMasterLost
  | serverReturned
  | ended
  deriving DecidableEq

/-- Why one frame changed nothing. -/
inductive Refusal where
  | notAdjudicating
  | notTheGameMaster
  | notYours
  | unknown
  | superseded
  | nothingProposed
  deriving DecidableEq

/-- One change this client applied while server-isolated. -/
structure AdjudicatedChange where
  nonce : Nonce
  originUser : Uuid
  entityId : Uuid
  transform : TokenTransform
  deriving DecidableEq

/-- What one frame did to the session. -/
inductive AdjudicationStep where
  | ignore
  | broadcast (frames : List Frame) (applied : Option AdjudicatedChange)
  | applied (change : AdjudicatedChange)
  | refused (refusal : Refusal)
  deriving DecidableEq

/-- Peer-adjudicated play, for as long as the conditions hold. -/
structure Adjudication where
  selfSession : Session
  selfUser : Uuid
  /-- Who holds the Game Master role, according to the server. -/
  gmUser : Uuid
  /-- Everyone who must stay reachable, fixed when play began. -/
  roster : ExtTreeSet Session
  reachable : ExtTreeSet Session
  /-- Which user each peer says it is: a claim. -/
  users : ExtTreeMap Session Uuid
  nonces : NonceSequence
  /-- Proposals seen and not yet applied. -/
  pending : ExtTreeMap Nonce AdjudicatedChange
  /-- The last nonce applied to each token. -/
  applied : ExtTreeMap Uuid Nonce
  log : List AdjudicatedChange
  stopped : Option AdjudicationEnd
  serverUnreachable : Bool

namespace Adjudication

/-- Begin, given who is here; nothing when there is nobody to adjudicate with. -/
def begin (selfSession : Session) (selfUser gmUser : Uuid) (roster : List Session) :
    Option Adjudication :=
  let roster := ExtTreeSet.ofList (roster.filter fun session => session ≠ selfSession) compare
  if roster.isEmpty then none
  else some {
    selfSession, selfUser, gmUser, roster
    reachable := roster
    users := (∅ : ExtTreeMap Session Uuid).insert selfSession selfUser
    nonces := NonceSequence.new selfSession
    pending := ∅
    applied := ∅
    log := []
    stopped := none
    serverUnreachable := true }

variable (a : Adjudication)

/-- Whether this client is the adjudicating authority. -/
def isGameMaster : Bool := a.selfUser = a.gmUser

/-- The session the Game Master is speaking on, if one is known. -/
def gmSession : Option Session :=
  if a.isGameMaster then some a.selfSession
  else (a.users.toList.find? fun (session, user) =>
    user = a.gmUser && a.reachable.contains session).map Prod.fst

/-- Whether peer-adjudicated play is running right now. -/
def isAdjudicating : Bool :=
  a.stopped.isNone && a.serverUnreachable && a.roster.toList.all (a.reachable.contains ·) &&
    a.gmSession.isSome

/-- Why it stopped, if it has. -/
def ended : Option AdjudicationEnd := a.stopped

/-- The frame announcing who this client is. -/
def hello : Frame := (AdjudicationMessage.hello a.selfUser).encode

def stop (reason : AdjudicationEnd) : Adjudication × Option AdjudicationEnd :=
  if a.stopped.isSome then (a, none)
  else ({ a with pending := ∅, stopped := some reason }, some reason)

/-- A participant became unreachable. -/
def peerLost (session : Session) : Adjudication × Option AdjudicationEnd :=
  let wasGm := a.gmSession = some session
  let left := { a with reachable := a.reachable.erase session }
  if ¬a.roster.contains session then (left, none)
  else left.stop (if wasGm then .gameMasterLost else .peerLost)

/-- The server is reachable again. -/
def serverReturned : Adjudication × Option AdjudicationEnd :=
  { a with serverUnreachable := false }.stop .serverReturned

/-- The world closed, or peer transfer was turned off. -/
def «end» : Adjudication × Option AdjudicationEnd := a.stop .ended

/-- Apply one accepted proposal, if the order allows. -/
def apply (nonce : Nonce) : Adjudication × AdjudicationStep :=
  match a.pending[nonce]? with
  | none => (a, .refused .unknown)
  | some change =>
    let taken := { a with pending := a.pending.erase nonce }
    if (a.applied[change.entityId]?).any (nonce ≤ ·) then (taken, .refused .superseded)
    else ({ taken with
        applied := a.applied.insert change.entityId nonce
        log := a.log ++ [change] }, .applied change)

/-- Propose a move of this client's own. -/
def propose (entityId : Uuid) (transform : TokenTransform) : Adjudication × AdjudicationStep :=
  if ¬a.isAdjudicating then (a, .refused .notAdjudicating)
  else if transform.isEmpty then (a, .refused .nothingProposed)
  else
    let (nonces, nonce) := a.nonces.issue
    let change := { nonce, originUser := a.selfUser, entityId, transform : AdjudicatedChange }
    let frame := (AdjudicationMessage.propose nonce change.originUser entityId transform).encode
    let seen := { a with nonces, pending := a.pending.insert nonce change }
    if ¬a.isGameMaster then (seen, .broadcast [frame] none)
    else
      let frames := [frame, (AdjudicationMessage.adjudicate nonce .accept).encode,
        (AdjudicationMessage.apply nonce).encode]
      match seen.apply nonce with
      | (after, .applied change) => (after, .broadcast frames (some change))
      | (after, _) => (after, .broadcast frames none)

/-- Feed one decoded message from a session. -/
def onMessage (sender : Session) : AdjudicationMessage → Adjudication × AdjudicationStep
  | .hello userId =>
    if a.roster.contains sender then
      let heard := { a with users := a.users.insert sender userId }
      -- Answered in kind when it is news, and only then.
      if (a.users[sender]?).isNone then (heard, .broadcast [a.hello] none) else (heard, .ignore)
    else (a, .ignore)
  | .propose nonce originUser entityId transform =>
    if ¬a.isAdjudicating ∨ ¬a.roster.contains sender then (a, .refused .notAdjudicating)
    else
      let seen := { a with nonces := a.nonces.observe nonce }
      if nonce.origin ≠ sender then (seen, .refused .notYours)
      else if ¬a.users[sender]? = some originUser ∧ ¬a.gmSession = some sender then
        (seen, .refused .notYours)
      else
        let change := { nonce, originUser, entityId, transform : AdjudicatedChange }
        let noted := { seen with pending := a.pending.insert nonce change }
        -- A player records the proposal and waits for the verdict.
        if ¬a.isGameMaster then (noted, .ignore)
        else match noted.apply nonce with
          | (after, .applied change) =>
            (after, .broadcast [(AdjudicationMessage.adjudicate nonce .accept).encode,
              (AdjudicationMessage.apply nonce).encode] (some change))
          | other => other
  | .adjudicate nonce verdict =>
    if ¬a.isAdjudicating ∨ ¬a.roster.contains sender then (a, .refused .notAdjudicating)
    else
      let seen := { a with nonces := a.nonces.observe nonce }
      if ¬a.gmSession = some sender then (seen, .refused .notTheGameMaster)
      else if verdict = .reject then ({ seen with pending := a.pending.erase nonce }, .ignore)
      else if a.pending.contains nonce then (seen, .ignore)
      else (seen, .refused .unknown)
  | .apply nonce =>
    if ¬a.isAdjudicating ∨ ¬a.roster.contains sender then (a, .refused .notAdjudicating)
    else
      let seen := { a with nonces := a.nonces.observe nonce }
      if ¬a.gmSession = some sender then (seen, .refused .notTheGameMaster)
      else seen.apply nonce

/-- Feed one raw frame from a session. -/
def onFrame (sender : Session) (frame : Frame) : Adjudication × AdjudicationStep :=
  match AdjudicationMessage.decode frame with
  | some message => a.onMessage sender message
  | none => (a, .ignore)

/-! ### What each call can do -/

/-- The change `apply` takes from `pending` is logged when it is ordered after the last one applied
to its token; either way it is pending no longer, and nothing else moves. -/
theorem apply_cases (nonce : Nonce) :
    (a.apply nonce = (a, .refused .unknown) ∧ a.pending[nonce]? = none) ∨
    ∃ change, a.pending[nonce]? = some change ∧
      ((a.apply nonce = ({ a with pending := a.pending.erase nonce }, .refused .superseded) ∧
          ∃ previous, a.applied[change.entityId]? = some previous ∧ nonce ≤ previous) ∨
        (a.apply nonce = ({ a with
            pending := a.pending.erase nonce
            applied := a.applied.insert change.entityId nonce
            log := a.log ++ [change] }, .applied change) ∧
          ∀ previous, a.applied[change.entityId]? = some previous → previous < nonce)) := by
  unfold apply
  cases hpending : a.pending[nonce]? with
  | none => exact .inl ⟨rfl, rfl⟩
  | some change =>
      refine .inr ⟨change, rfl, ?_⟩
      cases happlied : a.applied[change.entityId]? with
      | none => exact .inr ⟨by simp [happlied], by simp⟩
      | some previous =>
          by_cases hle : nonce ≤ previous
          · exact .inl ⟨by simp [happlied, hle], previous, rfl, hle⟩
          · refine .inr ⟨by simp [happlied, hle], ?_⟩
            rintro _ ⟨⟩
            exact not_le.mp hle

/-- A call that came from outside: what the tab feeds its client. -/
inductive Call where
  | propose (entityId : Uuid) (transform : TokenTransform)
  | onFrame (sender : Session) (frame : Frame)
  | peerLost (session : Session)
  | serverReturned
  | «end»

/-- The client after one call. -/
def after : Call → Adjudication
  | .propose entityId transform => (a.propose entityId transform).1
  | .onFrame sender frame => (a.onFrame sender frame).1
  | .peerLost session => (a.peerLost session).1
  | .serverReturned => a.serverReturned.1
  | .end => a.end.1

/-- The part of the state fixed when play began. -/
structure SameTable (a b : Adjudication) : Prop where
  selfSession : b.selfSession = a.selfSession
  selfUser : b.selfUser = a.selfUser
  gmUser : b.gmUser = a.gmUser
  roster : b.roster = a.roster
  nonceSession : b.nonces.session = a.nonces.session

theorem SameTable.refl : SameTable a a := ⟨rfl, rfl, rfl, rfl, rfl⟩

variable {a}

theorem SameTable.trans {b c : Adjudication} (hab : SameTable a b) (hbc : SameTable b c) :
    SameTable a c :=
  ⟨hbc.selfSession.trans hab.selfSession, hbc.selfUser.trans hab.selfUser,
    hbc.gmUser.trans hab.gmUser, hbc.roster.trans hab.roster,
    hbc.nonceSession.trans hab.nonceSession⟩

theorem SameTable.isGameMaster {b : Adjudication} (h : SameTable a b) :
    b.isGameMaster = a.isGameMaster := by
  rw [Adjudication.isGameMaster, h.selfUser, h.gmUser, Adjudication.isGameMaster]

variable (a)

/-- The call proposes this change, and its proposer may propose it: this client for itself, or a roster
session under its own nonce, for the user it claims to be or as the Game Master's session. -/
def Proposes : Call → AdjudicatedChange → Prop
  | .propose entityId transform, change =>
      change = { nonce := a.nonces.issue.2, originUser := a.selfUser, entityId, transform }
  | .onFrame sender frame, change =>
      AdjudicationMessage.decode frame =
          some (.propose change.nonce change.originUser change.entityId change.transform) ∧
        sender ∈ a.roster ∧ change.nonce.origin = sender ∧
        (a.users[sender]? = some change.originUser ∨ a.gmSession = some sender)
  | _, _ => False

/-- The call may put a change on the log: the Game Master's own client decides, any other only
follows an `APPLY` from the session it holds to be the Game Master's. -/
def MayLog (call : Call) : Prop :=
  a.isGameMaster = true ∨ ∃ sender frame nonce, call = .onFrame sender frame ∧
    AdjudicationMessage.decode frame = some (.apply nonce) ∧ a.gmSession = some sender

/-- The client after a call, as far as the record of changes goes. -/
inductive Effect (call : Call) (b : Adjudication) : Prop
  /-- Nothing is logged; what is newly pending the call proposed. -/
  | quiet (hlog : b.log = a.log) (happlied : b.applied = a.applied)
      (hpending : ∀ (nonce : Nonce) change, b.pending[nonce]? = some change →
        a.pending[nonce]? = some change ∨ a.Proposes call change ∧ change.nonce = nonce)
  /-- One change is logged: it was pending, or the call proposed it. -/
  | logged (nonce : Nonce) (change : AdjudicatedChange) (hlog : b.log = a.log ++ [change])
      (happlied : b.applied = a.applied.insert change.entityId nonce)
      (hpending : ∀ (other : Nonce) change, b.pending[other]? = some change →
        a.pending[other]? = some change)
      (horigin : a.pending[nonce]? = some change ∨ a.Proposes call change ∧ change.nonce = nonce)
      (hordered : ∀ previous, a.applied[change.entityId]? = some previous → previous < nonce)
      (hmay : a.MayLog call) (hrunning : a.stopped = none)

variable {a}

theorem Effect.of_eq {call : Call} {b : Adjudication} (hlog : b.log = a.log)
    (happlied : b.applied = a.applied) (hpending : b.pending = a.pending) : Effect a call b :=
  .quiet hlog happlied fun _ _ h => .inl (hpending ▸ h)

theorem Effect.of_subset {call : Call} {b : Adjudication} (hlog : b.log = a.log)
    (happlied : b.applied = a.applied)
    (hpending : ∀ (nonce : Nonce) change, b.pending[nonce]? = some change →
      a.pending[nonce]? = some change) : Effect a call b :=
  .quiet hlog happlied fun _ _ h => .inl (hpending _ _ h)

theorem getElem?_erase_eq_some {pending : ExtTreeMap Nonce AdjudicatedChange} {nonce other : Nonce}
    {change : AdjudicatedChange} (h : (pending.erase nonce)[other]? = some change) :
    nonce ≠ other ∧ pending[other]? = some change := by
  rw [ExtTreeMap.getElem?_erase] at h
  split_ifs at h with heq
  exact ⟨fun hne => heq (compare_eq_iff_eq.mpr hne), h⟩

theorem getElem?_insert_eq_some {pending : ExtTreeMap Nonce AdjudicatedChange} {nonce other : Nonce}
    {change found : AdjudicatedChange} (h : (pending.insert nonce change)[other]? = some found) :
    nonce = other ∧ change = found ∨ nonce ≠ other ∧ pending[other]? = some found := by
  rw [ExtTreeMap.getElem?_insert] at h
  split_ifs at h with heq
  · exact .inl ⟨compare_eq_iff_eq.mp heq, Option.some.inj h⟩
  · exact .inr ⟨fun hne => heq (compare_eq_iff_eq.mpr hne), h⟩

theorem stopped_eq_none_of_isAdjudicating (h : a.isAdjudicating = true) : a.stopped = none := by
  simp only [isAdjudicating, Bool.and_eq_true] at h
  exact Option.isNone_iff_eq_none.mp h.1.1.1

/-- Recording a proposal and applying it at once, as the Game Master's client does with its own and
with everybody else's. -/
theorem Effect.of_insert_apply {call : Call} {change : AdjudicatedChange} {nonces : NonceSequence}
    (hpropose : a.Proposes call change) (hmay : a.MayLog call) (hrunning : a.stopped = none) :
    Effect a call ({ a with nonces, pending := a.pending.insert change.nonce change }.apply
      change.nonce).1 := by
  have hother : ∀ (other : Nonce) found,
      ((a.pending.insert change.nonce change).erase change.nonce)[other]? = some found →
        a.pending[other]? = some found := by
    intro other found h
    obtain ⟨hne, h⟩ := getElem?_erase_eq_some h
    rcases getElem?_insert_eq_some h with ⟨heq, -⟩ | ⟨-, h⟩
    · exact absurd heq hne
    · exact h
  rcases apply_cases { a with nonces, pending := a.pending.insert change.nonce change } change.nonce with
    ⟨-, hnone⟩ | ⟨found, hfound, ⟨heq, -⟩ | ⟨heq, hordered⟩⟩
  · simp at hnone
  · rw [heq]
    exact .of_subset rfl rfl hother
  · rw [heq]
    obtain rfl : change = found := by simpa using hfound
    exact .logged change.nonce change rfl rfl hother (.inr ⟨hpropose, rfl⟩) hordered hmay hrunning

/-- Applying what was already pending, as an `APPLY` from the Game Master's session does. -/
theorem Effect.of_apply {call : Call} {nonces : NonceSequence} (nonce : Nonce) (hmay : a.MayLog call)
    (hrunning : a.stopped = none) : Effect a call ({ a with nonces }.apply nonce).1 := by
  rcases apply_cases { a with nonces } nonce with
    ⟨heq, -⟩ | ⟨change, hfound, ⟨heq, -⟩ | ⟨heq, hordered⟩⟩
  · rw [heq]
    exact .of_eq rfl rfl rfl
  · rw [heq]
    exact .of_subset rfl rfl fun _ _ h => (getElem?_erase_eq_some h).2
  · rw [heq]
    exact .logged nonce change rfl rfl (fun _ _ h => (getElem?_erase_eq_some h).2)
      (.inl hfound) hordered hmay hrunning

/-- A proposal this client may make: it is recorded, and on the Game Master's client applied. -/
theorem propose_fst {entityId : Uuid} {transform : TokenTransform} (hadj : a.isAdjudicating = true)
    (hsome : transform.isEmpty = false) :
    (a.propose entityId transform).1 =
      let nonce := a.nonces.issue.2
      let seen := { a with
        nonces := a.nonces.issue.1
        pending := a.pending.insert nonce { nonce, originUser := a.selfUser, entityId, transform } }
      if a.isGameMaster then (seen.apply nonce).1 else seen := by
  unfold propose
  rw [if_neg (not_not.mpr hadj), if_neg (by simp [hsome])]
  simp only
  by_cases hgm : a.isGameMaster = true
  · simp only [hgm, not_true_eq_false, if_false, if_true]
    split <;> simp_all
  · simp [hgm]

/-- A proposal this client may not make changes nothing. -/
theorem propose_refused {entityId : Uuid} {transform : TokenTransform}
    (h : ¬(a.isAdjudicating = true ∧ transform.isEmpty = false)) :
    (a.propose entityId transform).1 = a := by
  unfold propose
  by_cases hadj : a.isAdjudicating = true
  · rw [if_neg (not_not.mpr hadj), if_pos (by simpa [hadj] using h)]
  · rw [if_pos hadj]

/-- A proposal accepted from a peer: it is recorded, and on the Game Master's client applied. -/
theorem onMessage_propose_fst {sender : Session} {nonce : Nonce} {originUser entityId : Uuid}
    {transform : TokenTransform} (hadj : a.isAdjudicating = true) (hmember : sender ∈ a.roster)
    (horigin : nonce.origin = sender)
    (hspeaks : a.users[sender]? = some originUser ∨ a.gmSession = some sender) :
    (a.onMessage sender (.propose nonce originUser entityId transform)).1 =
      let seen := { a with
        nonces := a.nonces.observe nonce
        pending := a.pending.insert nonce { nonce, originUser, entityId, transform } }
      if a.isGameMaster then (seen.apply nonce).1 else seen := by
  have hrefuse : ¬(¬a.isAdjudicating = true ∨ ¬a.roster.contains sender = true) := by
    simp [hadj, hmember]
  have hyours : ¬(¬a.users[sender]? = some originUser ∧ ¬a.gmSession = some sender) := by tauto
  simp only [onMessage, if_neg hrefuse, ne_eq, horigin, not_true_eq_false, if_false, if_neg hyours]
  by_cases hgm : a.isGameMaster = true
  · simp only [hgm, not_true_eq_false, if_false, if_true]
    split <;> simp_all
  · simp [hgm]

/-- A proposal not accepted from a peer moves nothing but the counter. -/
theorem onMessage_propose_refused {sender : Session} {nonce : Nonce} {originUser : Uuid}
    (entityId : Uuid) (transform : TokenTransform)
    (h : ¬(a.isAdjudicating = true ∧ sender ∈ a.roster ∧ nonce.origin = sender ∧
      (a.users[sender]? = some originUser ∨ a.gmSession = some sender))) :
    (a.onMessage sender (.propose nonce originUser entityId transform)).1 = a ∨
      (a.onMessage sender (.propose nonce originUser entityId transform)).1 =
        { a with nonces := a.nonces.observe nonce } := by
  simp only [onMessage]
  split_ifs with hrefuse horigin hyours hgm
  · exact .inl rfl
  · exact .inr rfl
  · exact .inr rfl
  all_goals
    simp only [not_or, not_not] at hrefuse horigin
    exact absurd ⟨hrefuse.1, hrefuse.2, horigin, by tauto⟩ h

theorem effect_propose (entityId : Uuid) (transform : TokenTransform) :
    Effect a (.propose entityId transform) (a.propose entityId transform).1 := by
  by_cases hmade : a.isAdjudicating = true ∧ transform.isEmpty = false
  swap
  · rw [propose_refused hmade]
    exact .of_eq rfl rfl rfl
  rw [propose_fst hmade.1 hmade.2]
  by_cases hgm : a.isGameMaster = true
  · simp only [hgm, if_true]
    have hproposes : a.Proposes (.propose entityId transform)
        { nonce := a.nonces.issue.2, originUser := a.selfUser, entityId, transform } := rfl
    exact Effect.of_insert_apply hproposes (.inl hgm) (stopped_eq_none_of_isAdjudicating hmade.1)
  · simp only [hgm]
    refine .quiet rfl rfl fun nonce change h => ?_
    rcases getElem?_insert_eq_some h with ⟨rfl, rfl⟩ | ⟨-, h⟩
    · exact .inr ⟨rfl, rfl⟩
    · exact .inl h

theorem effect_onMessage {sender : Session} {frame : Frame} {message : AdjudicationMessage}
    (hdecode : AdjudicationMessage.decode frame = some message) :
    Effect a (.onFrame sender frame) (a.onMessage sender message).1 := by
  cases message with
  | hello userId =>
      simp only [onMessage]
      split_ifs <;> exact .of_eq rfl rfl rfl
  | propose nonce originUser entityId transform =>
      by_cases hmade : a.isAdjudicating = true ∧ sender ∈ a.roster ∧ nonce.origin = sender ∧
          (a.users[sender]? = some originUser ∨ a.gmSession = some sender)
      swap
      · rcases onMessage_propose_refused entityId transform hmade with heq | heq <;>
          rw [heq] <;> exact .of_eq rfl rfl rfl
      obtain ⟨hadj, hmember, horigin, hspeaks⟩ := hmade
      have hproposes : a.Proposes (.onFrame sender frame)
          { nonce, originUser, entityId, transform } := ⟨hdecode, hmember, horigin, hspeaks⟩
      rw [onMessage_propose_fst hadj hmember horigin hspeaks]
      by_cases hgm : a.isGameMaster = true
      · simp only [hgm, if_true]
        exact Effect.of_insert_apply hproposes (.inl hgm) (stopped_eq_none_of_isAdjudicating hadj)
      · simp only [hgm]
        refine .quiet rfl rfl fun other change h => ?_
        rcases getElem?_insert_eq_some h with ⟨rfl, rfl⟩ | ⟨-, h⟩
        · exact .inr ⟨hproposes, rfl⟩
        · exact .inl h
  | adjudicate nonce verdict =>
      simp only [onMessage]
      split_ifs
      · exact .of_eq rfl rfl rfl
      · exact .of_subset rfl rfl fun _ _ h => (getElem?_erase_eq_some h).2
      · exact .of_eq rfl rfl rfl
      · exact .of_eq rfl rfl rfl
      · exact .of_eq rfl rfl rfl
  | apply nonce =>
      simp only [onMessage]
      split_ifs with hrefuse hgm
      · exact .of_eq rfl rfl rfl
      · simp only [not_or, not_not] at hrefuse
        exact Effect.of_apply nonce (.inr ⟨sender, frame, nonce, rfl, hdecode, hgm⟩)
          (stopped_eq_none_of_isAdjudicating hrefuse.1)
      · exact .of_eq rfl rfl rfl

theorem Effect.of_stop {call : Call} (b : Adjudication) (hlog : b.log = a.log)
    (happlied : b.applied = a.applied) (hpending : b.pending = a.pending) (reason : AdjudicationEnd) :
    Effect a call (b.stop reason).1 := by
  unfold stop
  split_ifs
  · exact .of_eq hlog happlied hpending
  · exact .of_subset hlog happlied fun _ _ h => by simp at h

/-- Every call does to the record of changes what `Effect` allows, whoever made it. -/
theorem effect_after (call : Call) : Effect a call (a.after call) := by
  cases call with
  | propose entityId transform => exact effect_propose entityId transform
  | onFrame sender frame =>
      simp only [after, onFrame]
      split
      · exact effect_onMessage ‹_›
      · exact .of_eq rfl rfl rfl
  | peerLost session =>
      simp only [after, peerLost]
      split_ifs
      · refine Effect.of_stop _ ?_ ?_ ?_ _ <;> rfl
      · refine Effect.of_stop _ ?_ ?_ ?_ _ <;> rfl
      · exact .of_eq rfl rfl rfl
  | serverReturned => refine Effect.of_stop _ ?_ ?_ ?_ _ <;> rfl
  | «end» => exact Effect.of_stop a rfl rfl rfl _

/-! ### What no call moves -/

theorem sameTable_apply (nonce : Nonce) : SameTable a (a.apply nonce).1 := by
  rcases apply_cases a nonce with ⟨heq, -⟩ | ⟨change, -, ⟨heq, -⟩ | ⟨heq, -⟩⟩ <;> rw [heq] <;>
    exact ⟨rfl, rfl, rfl, rfl, rfl⟩

theorem sameTable_stop (reason : AdjudicationEnd) : SameTable a (a.stop reason).1 := by
  unfold stop
  split_ifs <;> exact ⟨rfl, rfl, rfl, rfl, rfl⟩

theorem sameTable_propose (entityId : Uuid) (transform : TokenTransform) :
    SameTable a (a.propose entityId transform).1 := by
  by_cases hmade : a.isAdjudicating = true ∧ transform.isEmpty = false
  swap
  · rw [propose_refused hmade]
    exact .refl a
  rw [propose_fst hmade.1 hmade.2]
  simp only
  split_ifs
  · refine SameTable.trans ?_ (sameTable_apply _)
    exact ⟨rfl, rfl, rfl, rfl, rfl⟩
  · exact ⟨rfl, rfl, rfl, rfl, rfl⟩

theorem sameTable_onMessage (sender : Session) (message : AdjudicationMessage) :
    SameTable a (a.onMessage sender message).1 := by
  cases message with
  | hello userId =>
      simp only [onMessage]
      split_ifs <;> exact ⟨rfl, rfl, rfl, rfl, rfl⟩
  | propose nonce originUser entityId transform =>
      by_cases hmade : a.isAdjudicating = true ∧ sender ∈ a.roster ∧ nonce.origin = sender ∧
          (a.users[sender]? = some originUser ∨ a.gmSession = some sender)
      swap
      · rcases onMessage_propose_refused entityId transform hmade with heq | heq <;>
          rw [heq] <;> exact ⟨rfl, rfl, rfl, rfl, rfl⟩
      obtain ⟨hadj, hmember, horigin, hspeaks⟩ := hmade
      rw [onMessage_propose_fst hadj hmember horigin hspeaks]
      simp only
      split_ifs
      · refine SameTable.trans ?_ (sameTable_apply _)
        exact ⟨rfl, rfl, rfl, rfl, rfl⟩
      · exact ⟨rfl, rfl, rfl, rfl, rfl⟩
  | adjudicate nonce verdict =>
      simp only [onMessage]
      split_ifs <;> exact ⟨rfl, rfl, rfl, rfl, rfl⟩
  | apply nonce =>
      simp only [onMessage]
      split_ifs
      · exact .refl a
      · refine SameTable.trans ?_ (sameTable_apply _)
        exact ⟨rfl, rfl, rfl, rfl, rfl⟩
      · exact ⟨rfl, rfl, rfl, rfl, rfl⟩

/-- Who plays, and who the server named Game Master, is fixed when play begins. -/
theorem sameTable_after (call : Call) : SameTable a (a.after call) := by
  cases call with
  | propose entityId transform => exact sameTable_propose entityId transform
  | onFrame sender frame =>
      simp only [after, onFrame]
      split
      · exact sameTable_onMessage sender _
      · exact .refl a
  | peerLost session =>
      simp only [after, peerLost]
      split_ifs
      · refine SameTable.trans ?_ (sameTable_stop _)
        exact ⟨rfl, rfl, rfl, rfl, rfl⟩
      · refine SameTable.trans ?_ (sameTable_stop _)
        exact ⟨rfl, rfl, rfl, rfl, rfl⟩
      · exact ⟨rfl, rfl, rfl, rfl, rfl⟩
  | serverReturned =>
      refine SameTable.trans ?_ (sameTable_stop _)
      exact ⟨rfl, rfl, rfl, rfl, rfl⟩
  | «end» => exact sameTable_stop _

theorem users_apply (nonce : Nonce) : (a.apply nonce).1.users = a.users := by
  rcases apply_cases a nonce with ⟨heq, -⟩ | ⟨change, -, ⟨heq, -⟩ | ⟨heq, -⟩⟩ <;> rw [heq]

theorem users_stop (reason : AdjudicationEnd) : (a.stop reason).1.users = a.users := by
  unfold stop
  split_ifs <;> rfl

theorem users_propose (entityId : Uuid) (transform : TokenTransform) :
    (a.propose entityId transform).1.users = a.users := by
  by_cases hmade : a.isAdjudicating = true ∧ transform.isEmpty = false
  · rw [propose_fst hmade.1 hmade.2]
    simp only
    split_ifs
    · exact users_apply _
    · rfl
  · rw [propose_refused hmade]

/-- The user a message claims for its sender's channel. -/
def claimOf : AdjudicationMessage → Option Uuid
  | .hello userId => some userId
  | _ => none

/-- Only a `HELLO` from the roster changes whom a session claims to be. -/
theorem users_onMessage (sender : Session) (message : AdjudicationMessage) :
    (a.onMessage sender message).1.users =
      match claimOf message with
      | some userId => if sender ∈ a.roster then a.users.insert sender userId else a.users
      | none => a.users := by
  cases message with
  | hello userId =>
      simp only [onMessage, claimOf]
      split_ifs <;> simp_all
  | propose nonce originUser entityId transform =>
      by_cases hmade : a.isAdjudicating = true ∧ sender ∈ a.roster ∧ nonce.origin = sender ∧
          (a.users[sender]? = some originUser ∨ a.gmSession = some sender)
      swap
      · rcases onMessage_propose_refused entityId transform hmade with heq | heq <;> rw [heq] <;> rfl
      obtain ⟨hadj, hmember, horigin, hspeaks⟩ := hmade
      rw [onMessage_propose_fst hadj hmember horigin hspeaks]
      simp only [claimOf]
      split_ifs
      · exact users_apply _
      · rfl
  | adjudicate nonce verdict =>
      simp only [onMessage, claimOf]
      split_ifs <;> rfl
  | apply nonce =>
      simp only [onMessage, claimOf]
      split_ifs
      · rfl
      · exact users_apply _
      · rfl

/-- The user a call claims a session to be: a `HELLO` arriving from that session. -/
def claimIn (call : Call) (session : Session) : Option Uuid :=
  match call with
  | .onFrame sender frame =>
      if sender = session then (AdjudicationMessage.decode frame).bind claimOf else none
  | _ => none

theorem users_after (call : Call) {session : Session} (hmember : session ∈ a.roster) :
    (a.after call).users[session]? = (claimIn call session).or a.users[session]? := by
  cases call with
  | propose entityId transform => simp [after, claimIn, users_propose]
  | onFrame sender frame =>
      simp only [after, onFrame, claimIn]
      cases hdecode : AdjudicationMessage.decode frame with
      | none => simp
      | some message =>
          simp only [users_onMessage, Option.bind_some]
          cases hclaim : claimOf message with
          | none => simp
          | some userId =>
              by_cases heq : sender = session
              · subst heq
                simp [hmember]
              · by_cases hsender : sender ∈ a.roster <;>
                  simp [heq, hsender, ExtTreeMap.getElem?_insert]
  | peerLost session =>
      simp only [after, peerLost, claimIn]
      split_ifs <;> simp [users_stop]
  | serverReturned => simp [after, serverReturned, claimIn, users_stop]
  | «end» => simp [after, «end», claimIn, users_stop]

/-- Once play has stopped nothing is logged or applied any more, and the reason stands. -/
theorem after_of_stopped (call : Call) (hstopped : a.stopped.isSome = true) :
    (a.after call).stopped = a.stopped ∧ (a.after call).log = a.log ∧
      (a.after call).applied = a.applied := by
  have hrecord : (a.after call).log = a.log ∧ (a.after call).applied = a.applied := by
    cases effect_after (a := a) call with
    | quiet hlog happlied hpending => exact ⟨hlog, happlied⟩
    | logged nonce change hlog happlied hpending horigin hordered hmay hrunning =>
        rw [hrunning] at hstopped
        cases hstopped
  have hidle : a.isAdjudicating = false := by
    simp only [isAdjudicating, Bool.and_eq_false_iff]
    exact .inl (.inl (.inl (by simpa using hstopped)))
  have hstop (b : Adjudication) (hb : b.stopped = a.stopped) (reason : AdjudicationEnd) :
      (b.stop reason).1.stopped = a.stopped := by
    rw [stop, if_pos (hb ▸ hstopped), hb]
  refine ⟨?_, hrecord⟩
  cases call with
  | propose entityId transform => simp [after, propose, hidle]
  | onFrame sender frame =>
      simp only [after, onFrame]
      cases AdjudicationMessage.decode frame with
      | none => rfl
      | some message =>
          cases message with
          | hello userId =>
              simp only [onMessage]
              split_ifs <;> rfl
          | propose nonce originUser entityId transform => simp [onMessage, hidle]
          | adjudicate nonce verdict => simp [onMessage, hidle]
          | apply nonce => simp [onMessage, hidle]
  | peerLost session =>
      simp only [after, peerLost]
      split_ifs
      · refine hstop _ ?_ _
        rfl
      · refine hstop _ ?_ _
        rfl
      · rfl
  | serverReturned =>
      refine hstop _ ?_ _
      rfl
  | «end» =>
      refine hstop _ ?_ _
      rfl

end Adjudication

end ThunderForge.Peer
