import ThunderForge.Peer.AdjudicationNetwork

/-! Agreement of the clients at one table. Every decision of the Game Master's client reaches the others
in the order it was made, so each of them replays a prefix of the decisions, provided that a decision
never overtakes the proposal it is about. Nothing in the protocol sees to that: the proposal and the
decision travel on different channels. -/

namespace ThunderForge.Peer

open Std (ExtTreeMap ExtTreeSet)

/-! ### What one call does to the record of a seated client -/

/-- A call that leaves the client seated, with at most one more proposal pending. -/
structure Keeps (table : Table) (session : Session) (a b : Adjudication)
    (seen : List AdjudicatedChange) : Prop where
  seated : Seated table table.sessions session b
  pending : ∀ (nonce : Nonce) change, b.pending[nonce]? = some change →
    a.pending[nonce]? = some change ∨ change ∈ seen ∧ change.nonce = nonce

section Calls

variable {table : Table} {session : Session} {a : Adjudication}

/-- The messages the Game Master sends about a proposal it accepts. -/
def accepted (nonce : Nonce) : List AdjudicationMessage := [.adjudicate nonce .accept, .apply nonce]

theorem Keeps.noted (h : Seated table table.sessions session a) (nonces : NonceSequence)
    (hnonces : nonces.session = a.nonces.session) (change : AdjudicatedChange) :
    Keeps table session a
      { a with nonces, pending := a.pending.insert change.nonce change } [change] where
  seated := h.of_same ⟨rfl, rfl, rfl, rfl, hnonces⟩ rfl rfl rfl rfl
  pending nonce found hfound := by
    rcases Adjudication.getElem?_insert_eq_some hfound with ⟨rfl, rfl⟩ | ⟨-, hold⟩
    · exact .inr ⟨by simp, rfl⟩
    · exact .inl hold

theorem Keeps.apply {b : Adjudication} {seen : List AdjudicatedChange} (h : Keeps table session a b seen)
    (nonce : Nonce) : Keeps table session a (b.apply nonce).1 seen where
  seated := h.seated.apply nonce
  pending other found hfound := by
    refine h.pending other found ?_
    rcases b.apply_cases nonce with ⟨heq, -⟩ | ⟨change, -, ⟨heq, -⟩ | ⟨heq, -⟩⟩ <;> rw [heq] at hfound
    · exact hfound
    · exact (Adjudication.getElem?_erase_eq_some hfound).2
    · exact (Adjudication.getElem?_erase_eq_some hfound).2

theorem Keeps.observed (h : Seated table table.sessions session a) (nonce : Nonce) :
    Keeps table session a { a with nonces := a.nonces.observe nonce } [] where
  seated := h.of_same ⟨rfl, rfl, rfl, rfl, rfl⟩ rfl rfl rfl rfl
  pending _ _ hfound := .inl hfound

theorem Keeps.same (h : Seated table table.sessions session a) : Keeps table session a a [] where
  seated := h
  pending _ _ hfound := .inl hfound

/-- The frame that proposes a change. -/
def AdjudicatedChange.proposal (change : AdjudicatedChange) : AdjudicationMessage :=
  .propose change.nonce change.originUser change.entityId change.transform

/-- What a call sends about the proposals it made and the decisions it took. -/
def notices (made decided : List AdjudicatedChange) : List AdjudicationMessage :=
  made.map AdjudicatedChange.proposal ++ decided.flatMap fun change => accepted change.nonce

/-- A call that sends the proposals it made and the decisions it took, and takes nothing else. -/
structure Outcome (table : Table) (session : Session) (a : Adjudication)
    (result : Adjudication × AdjudicationStep) (seen made decided : List AdjudicatedChange) : Prop where
  keeps : Keeps table session a result.1 seen
  frames : result.2.frames = (notices made decided).map AdjudicationMessage.encode
  record : result.1.record = decided.foldl ChangeRecord.settle a.record
  byGm : decided ≠ [] → session = table.gm

/-- What `apply` answers for a change just put into `pending`. -/
theorem apply_noted (nonces : NonceSequence) (change : AdjudicatedChange) :
    let noted := { a with nonces, pending := a.pending.insert change.nonce change }
    (noted.apply change.nonce).1.record = a.record.settle change ∧
      ((noted.apply change.nonce).2 = .applied change ∨
        (noted.apply change.nonce).2 = .refused .superseded ∧ a.record.settle change = a.record) := by
  intro noted
  have hnoted : noted.pending[change.nonce]? = some change := by simp [noted]
  have hrecord : (noted.apply change.nonce).1.record = a.record.settle change :=
    Adjudication.record_apply hnoted rfl
  refine ⟨hrecord, ?_⟩
  rcases noted.apply_cases change.nonce with ⟨-, hnone⟩ | ⟨found, hfound, ⟨heq, -⟩ | ⟨heq, -⟩⟩
  · rw [hnoted] at hnone
    cases hnone
  · refine .inr ⟨by rw [heq], ?_⟩
    rw [← hrecord, heq]
    rfl
  · obtain rfl : change = found := by simpa [hnoted] using hfound
    exact .inl (by rw [heq])

/-- Proposing: nothing at all for an empty transform, otherwise the proposal is sent, with the decision
when this is the Game Master's client. -/
theorem outcome_propose (h : Seated table table.sessions session a) (hmember : session ∈ table.sessions)
    (entityId : Uuid) (transform : TokenTransform) :
    (∃ refusal, a.propose entityId transform = (a, .refused refusal)) ∨
    (transform.isEmpty = false ∧ (∃ frames applied, (a.propose entityId transform).2 = .broadcast frames applied) ∧
      ∃ decided, decided ⊆ [{ nonce := a.nonces.issue.2, originUser := a.selfUser, entityId, transform }] ∧
        Outcome table session a (a.propose entityId transform)
          [{ nonce := a.nonces.issue.2, originUser := a.selfUser, entityId, transform }]
          [{ nonce := a.nonces.issue.2, originUser := a.selfUser, entityId, transform }] decided) := by
  by_cases hempty : transform.isEmpty = true
  · refine .inl ⟨.nothingProposed, ?_⟩
    rw [Adjudication.propose, if_neg (not_not.mpr (h.isAdjudicating hmember)), if_pos hempty]
  refine .inr ⟨by simpa using hempty, ?_⟩
  set change : AdjudicatedChange :=
    { nonce := a.nonces.issue.2, originUser := a.selfUser, entityId, transform } with hchange
  have hkeeps := Keeps.noted h a.nonces.issue.1 rfl change
  rw [Adjudication.propose, if_neg (not_not.mpr (h.isAdjudicating hmember)), if_neg hempty]
  simp only
  by_cases hgm : a.isGameMaster = true
  · rw [if_neg (not_not.mpr hgm)]
    obtain ⟨hrecord, hstep⟩ := apply_noted (a := a) a.nonces.issue.1 change
    have happly := hkeeps.apply change.nonce
    generalize Adjudication.apply _ change.nonce = result at hrecord hstep happly ⊢
    obtain ⟨after, outcome⟩ := result
    simp only at hrecord hstep happly ⊢
    have hsession := (h.isGameMaster hmember).mp hgm
    rcases hstep with rfl | ⟨rfl, -⟩ <;>
      exact ⟨⟨_, _, rfl⟩, [change], by simp, happly,
        by simp [AdjudicationStep.frames, notices, AdjudicatedChange.proposal, accepted, hchange], hrecord,
        fun _ => hsession⟩
  · rw [if_pos hgm]
    exact ⟨⟨_, _, rfl⟩, [], by simp, hkeeps,
      by simp [AdjudicationStep.frames, notices, AdjudicatedChange.proposal, hchange], rfl, by simp⟩

/-- A proposal arriving: noted, or refused, and decided on when this is the Game Master's client. -/
theorem outcome_proposal (h : Seated table table.sessions session a) (hmember : session ∈ table.sessions)
    (source : Session) (change : AdjudicatedChange) :
    ∃ seen decided, seen ⊆ [change] ∧ decided ⊆ [change] ∧
      Outcome table session a (a.onMessage source change.proposal) seen [] decided := by
  have hobserved := Keeps.observed h change.nonce
  simp only [AdjudicatedChange.proposal, Adjudication.onMessage]
  split_ifs with hrefuse horigin hyours hgm
  · exact ⟨[], [], by simp, by simp, .same h, by simp [AdjudicationStep.frames, notices], rfl, by simp⟩
  · exact ⟨[], [], by simp, by simp, hobserved, by simp [AdjudicationStep.frames, notices], rfl, by simp⟩
  · exact ⟨[], [], by simp, by simp, hobserved, by simp [AdjudicationStep.frames, notices], rfl, by simp⟩
  · have hsession := (h.isGameMaster hmember).mp hgm
    obtain ⟨hrecord, hstep⟩ := apply_noted (a := a) (a.nonces.observe change.nonce) change
    have happly := (Keeps.noted h (a.nonces.observe change.nonce) rfl change).apply change.nonce
    generalize Adjudication.apply _ change.nonce = result at hrecord hstep happly ⊢
    obtain ⟨after, outcome⟩ := result
    simp only at hrecord hstep happly ⊢
    rcases hstep with rfl | ⟨rfl, hlate⟩
    · exact ⟨[change], [change], by simp, by simp, happly,
        by simp [AdjudicationStep.frames, notices, accepted], hrecord, fun _ => hsession⟩
    · exact ⟨[change], [], by simp, by simp, happly, by simp [AdjudicationStep.frames, notices],
        hrecord.trans hlate, by simp⟩
  · exact ⟨[change], [], by simp, by simp, .noted h (a.nonces.observe _) rfl change, by simp [AdjudicationStep.frames, notices], rfl,
      by simp⟩

/-- The verdict on its own settles nothing. -/
theorem outcome_accept (h : Seated table table.sessions session a) (source : Session) (nonce : Nonce) :
    Outcome table session a (a.onMessage source (.adjudicate nonce .accept)) [] [] [] := by
  have hobserved := Keeps.observed h nonce
  simp only [Adjudication.onMessage, reduceCtorEq, if_false]
  split_ifs <;> first
    | exact ⟨.same h, by simp [AdjudicationStep.frames, notices], rfl, by simp⟩
    | exact ⟨hobserved, by simp [AdjudicationStep.frames, notices], rfl, by simp⟩

/-- An `APPLY` for a change that is pending settles it. -/
theorem onMessage_apply (h : Seated table table.sessions session a) (hmember : session ∈ table.sessions)
    (hplayer : session ≠ table.gm) {change : AdjudicatedChange}
    (hpending : a.pending[change.nonce]? = some change) :
    Keeps table session a (a.onMessage table.gm (.apply change.nonce)).1 [] ∧
      (a.onMessage table.gm (.apply change.nonce)).2.frames = [] ∧
      (a.onMessage table.gm (.apply change.nonce)).1.record = a.record.settle change := by
  have hroster : a.roster.contains table.gm = true := by
    simp [h.roster, table.gm_mem, Ne.symm hplayer]
  have hobserved := Keeps.observed h change.nonce
  simp only [Adjudication.onMessage, h.isAdjudicating hmember, h.gmSession hmember, hroster,
    not_true_eq_false, or_self, if_false]
  refine ⟨hobserved.apply change.nonce, ?_, ?_⟩
  · rcases Adjudication.apply_cases { a with nonces := a.nonces.observe change.nonce } change.nonce with
      ⟨heq, -⟩ | ⟨found, -, ⟨heq, -⟩ | ⟨heq, -⟩⟩ <;> rw [heq] <;> rfl
  · refine (Adjudication.record_apply ?_ rfl).trans ?_
    · exact hpending
    · rfl

end Calls

/-! ### The invariant of the network -/

/-- The change an `APPLY` says to apply. -/
def AdjudicationMessage.decision : AdjudicationMessage → Option Nonce
  | .apply nonce => some nonce
  | _ => none

/-- What an honest client may have sent: proposals that were made, and from the Game Master's client the
decisions about them. -/
def Honest (table : Table) (proposed : List AdjudicatedChange) (source : Session) :
    AdjudicationMessage → Prop
  | .hello _ => False
  | .propose nonce originUser entityId transform => ⟨nonce, originUser, entityId, transform⟩ ∈ proposed
  | .adjudicate nonce verdict =>
      source = table.gm ∧ verdict = .accept ∧ ∃ change ∈ proposed, change.nonce = nonce
  | .apply nonce => source = table.gm ∧ ∃ change ∈ proposed, change.nonce = nonce

theorem Honest.mono {table : Table} {proposed made : List AdjudicatedChange} {source : Session}
    {message : AdjudicationMessage} (h : Honest table proposed source message) :
    Honest table (proposed ++ made) source message := by
  cases message with
  | hello userId => exact h
  | propose nonce originUser entityId transform => exact List.mem_append_left _ h
  | adjudicate nonce verdict =>
      obtain ⟨hgm, haccept, change, hchange, hnonce⟩ := h
      exact ⟨hgm, haccept, change, List.mem_append_left _ hchange, hnonce⟩
  | apply nonce =>
      obtain ⟨hgm, change, hchange, hnonce⟩ := h
      exact ⟨hgm, change, List.mem_append_left _ hchange, hnonce⟩

theorem decisions_notices (made decided : List AdjudicatedChange) :
    (notices made decided).filterMap AdjudicationMessage.decision =
      decided.map AdjudicatedChange.nonce := by
  have hmade : (made.map AdjudicatedChange.proposal).filterMap AdjudicationMessage.decision = [] := by
    simp [List.filterMap_map, AdjudicatedChange.proposal, AdjudicationMessage.decision]
  rw [notices, List.filterMap_append, hmade, List.nil_append]
  induction decided with
  | nil => rfl
  | cons change decided ih =>
      rw [List.flatMap_cons, List.filterMap_append, ih, List.map_cons]
      rfl

theorem honest_notices {table : Table} {proposed made decided : List AdjudicatedChange}
    {session : Session} {message : AdjudicationMessage} (hmade : ∀ change ∈ made, change ∈ proposed)
    (hdecided : ∀ change ∈ decided, change ∈ proposed) (hgm : decided ≠ [] → session = table.gm)
    (h : message ∈ notices made decided) : Honest table proposed session message := by
  rcases List.mem_append.mp h with h | h
  · obtain ⟨change, hchange, rfl⟩ := List.mem_map.mp h
    exact hmade change hchange
  · obtain ⟨change, hchange, hmessage⟩ := List.mem_flatMap.mp h
    have hsession := hgm (List.ne_nil_of_mem hchange)
    have hproposed := hdecided change hchange
    simp only [accepted, List.mem_cons, List.not_mem_nil, or_false] at hmessage
    rcases hmessage with rfl | rfl
    · exact ⟨hsession, rfl, change, hproposed, rfl⟩
    · exact ⟨hsession, change, hproposed, rfl⟩

/-- One client follows the decisions: it has replayed some of them, and the rest are on their way. -/
structure Following (table : Table) (proposed : List AdjudicatedChange)
    (queue : Fifo.Channels Session AdjudicationMessage) (announced : List AdjudicatedChange)
    (session : Session) (a : Adjudication) : Prop where
  seated : Seated table table.sessions session a
  pending : ∀ (nonce : Nonce) change, a.pending[nonce]? = some change →
    change ∈ proposed ∧ change.nonce = nonce
  replayed : ∃ settled awaited, announced = settled ++ awaited ∧ a.record = .replay settled ∧
    (queue table.gm session).filterMap AdjudicationMessage.decision = awaited.map AdjudicatedChange.nonce

/-- The network between two steps: `queue` is what the channels carry, `announced` what the Game Master's
client has decided on so far. -/
structure Agreeing (table : Table) (net : Network) (queue : Fifo.Channels Session AdjudicationMessage)
    (announced : List AdjudicatedChange) : Prop where
  channels : net.channels = Fifo.map AdjudicationMessage.encode queue
  between : ∀ source target, ∀ message ∈ queue source target,
    source ≠ target ∧ target ∈ table.sessions ∧ Honest table net.proposed source message
  proposals : ∀ change ∈ net.proposed, SessionFits change.nonce.origin ∧ change.transform.isEmpty = false
  unique : ∀ change ∈ net.proposed, ∀ other ∈ net.proposed, change.nonce = other.nonce → change = other
  decided : ∀ change ∈ announced, change ∈ net.proposed
  absent : ∀ session, session ∉ table.sessions → net.clients session = none
  clients : ∀ session ∈ table.sessions, ∃ a, net.clients session = some a ∧
    Following table net.proposed queue announced session a

namespace Agreeing

variable {table : Table} {net : Network} {queue : Fifo.Channels Session AdjudicationMessage}
  {announced : List AdjudicatedChange}

/-- What is in flight is read as it was sent. -/
theorem sendable (h : Agreeing table net queue announced) {source target : Session}
    {message : AdjudicationMessage} (hmessage : message ∈ queue source target) : message.Sendable := by
  obtain ⟨-, -, hhonest⟩ := h.between source target message hmessage
  cases message with
  | hello userId => trivial
  | propose nonce originUser entityId transform => exact h.proposals _ hhonest
  | adjudicate nonce verdict =>
      obtain ⟨-, -, change, hchange, rfl⟩ := hhonest
      exact (h.proposals change hchange).1
  | apply nonce =>
      obtain ⟨-, change, hchange, rfl⟩ := hhonest
      exact (h.proposals change hchange).1

/-- Taking a message that decides nothing off its channel. -/
theorem pop (h : Agreeing table net queue announced) {source target : Session}
    {message : AdjudicationMessage} {rest : List AdjudicationMessage}
    (hqueue : queue source target = message :: rest) (hdecides : message.decision = none) :
    Agreeing table { net with channels := Fifo.pop source target net.channels }
      (Fifo.pop source target queue) announced where
  channels := by rw [h.channels, Fifo.map_pop]
  between sender receiver other hother := h.between sender receiver other (Fifo.mem_of_mem_pop hother)
  proposals := h.proposals
  unique := h.unique
  decided := h.decided
  absent := h.absent
  clients session hmember := by
    obtain ⟨a, ha, hfollows⟩ := h.clients session hmember
    obtain ⟨settled, awaited, hannounced, hrecord, hawaited⟩ := hfollows.replayed
    refine ⟨a, ha, hfollows.seated, hfollows.pending, settled, awaited, hannounced, hrecord, ?_⟩
    rw [← hawaited]
    by_cases hsame : table.gm = source ∧ session = target
    · rw [hsame.1, hsame.2, Fifo.pop_self, hqueue, List.tail_cons, List.filterMap_cons, hdecides]
    · rw [Fifo.pop_of_ne _ hsame]

/-- A client acting on one step: its proposals become known, and its decisions are announced. -/
theorem handle (h : Agreeing table net queue announced) {session : Session}
    (hmember : session ∈ table.sessions) {a : Adjudication} (ha : net.clients session = some a)
    {result : Adjudication × AdjudicationStep} {seen made decided : List AdjudicatedChange}
    (houtcome : Outcome table session a result seen made decided)
    (hseen : ∀ change ∈ seen, change ∈ net.proposed ++ made)
    (hdecided : ∀ change ∈ decided, change ∈ net.proposed ++ made)
    (hmade : ∀ change ∈ made, SessionFits change.nonce.origin ∧ change.transform.isEmpty = false)
    (hunique : ∀ change ∈ net.proposed ++ made, ∀ other ∈ net.proposed ++ made,
      change.nonce = other.nonce → change = other) :
    Agreeing table (table.handle { net with proposed := net.proposed ++ made } session result)
      (Fifo.broadcast table.sessions session (notices made decided) queue) (announced ++ decided) where
  channels := by rw [Fifo.map_broadcast, ← houtcome.frames, ← h.channels]; rfl
  between sender receiver message hmessage := by
    rcases Fifo.mem_broadcast hmessage with hold | ⟨hnew, rfl, hreceiver, hne⟩
    · obtain ⟨hne, hreceiver, hhonest⟩ := h.between sender receiver message hold
      exact ⟨hne, hreceiver, hhonest.mono⟩
    · exact ⟨hne.symm, hreceiver, honest_notices (fun _ hchange => List.mem_append_right _ hchange)
        hdecided houtcome.byGm hnew⟩
  proposals change hchange := by
    rcases List.mem_append.mp hchange with hold | hnew
    · exact h.proposals change hold
    · exact hmade change hnew
  unique := hunique
  decided change hchange := by
    rcases List.mem_append.mp hchange with hold | hnew
    · exact List.mem_append_left _ (h.decided change hold)
    · exact hdecided change hnew
  absent other hother := by
    have hne : other ≠ session := fun heq => hother (heq ▸ hmember)
    simpa [Table.handle, Function.update_of_ne hne] using h.absent other hother
  clients other hother := by
    obtain ⟨b, hb, hfollows⟩ := h.clients other hother
    obtain ⟨settled, awaited, hannounced, hrecord, hawaited⟩ := hfollows.replayed
    by_cases hsame : other = session
    · subst hsame
      obtain rfl : b = a := by simpa [hb] using ha
      refine ⟨result.1, by simp [Table.handle], houtcome.keeps.seated, ?_, ?_⟩
      · intro nonce change hchange
        rcases houtcome.keeps.pending nonce change hchange with hold | ⟨hnew, hnonce⟩
        · obtain ⟨hproposed, hnonce⟩ := hfollows.pending nonce change hold
          exact ⟨List.mem_append_left _ hproposed, hnonce⟩
        · exact ⟨hseen change hnew, hnonce⟩
      · by_cases hgm : other = table.gm
        · subst hgm
          have hnothing : queue table.gm table.gm = [] := by
            refine List.eq_nil_iff_forall_not_mem.mpr fun message hmessage => ?_
            exact (h.between _ _ message hmessage).1 rfl
          obtain rfl : awaited = [] := by simpa [hnothing] using hawaited
          refine ⟨settled ++ decided, [], by simp [hannounced], ?_, ?_⟩
          · rw [houtcome.record, hrecord, ChangeRecord.replay, ChangeRecord.replay, List.foldl_append]
          · rw [Fifo.broadcast_to_self, hnothing]
            rfl
        · obtain rfl : decided = [] := by
            by_contra hne
            exact hgm (houtcome.byGm hne)
          refine ⟨settled, awaited, by simpa using hannounced, houtcome.record.trans hrecord, ?_⟩
          rw [Fifo.broadcast_of_ne _ _ (Ne.symm hgm)]
          exact hawaited
    · refine ⟨b, by simp [Table.handle, Function.update_of_ne hsame, hb], hfollows.seated, ?_,
        settled, awaited ++ decided, by simp [hannounced], hrecord, ?_⟩
      · intro nonce change hchange
        obtain ⟨hproposed, hnonce⟩ := hfollows.pending nonce change hchange
        exact ⟨List.mem_append_left _ hproposed, hnonce⟩
      · by_cases hgm : session = table.gm
        · subst hgm
          rw [Fifo.broadcast_to_other _ _ hother hsame, List.filterMap_append, hawaited,
            decisions_notices, List.map_append]
        · obtain rfl : decided = [] := by
            by_contra hne
            exact hgm (houtcome.byGm hne)
          rw [Fifo.broadcast_of_ne _ _ (Ne.symm hgm), hawaited, List.append_nil]

/-- A decision arriving where the proposal is already known. -/
theorem settle (h : Agreeing table net queue announced) {target : Session} {nonce : Nonce}
    {rest : List AdjudicationMessage} (hqueue : queue table.gm target = .apply nonce :: rest)
    {a : Adjudication} (ha : net.clients target = some a) (hpending : a.pending.contains nonce = true) :
    Agreeing table (table.handle { net with channels := Fifo.pop table.gm target net.channels } target
      (a.onMessage table.gm (.apply nonce))) (Fifo.pop table.gm target queue) announced := by
  obtain ⟨hne, hmember, -⟩ := h.between table.gm target (.apply nonce) (by simp [hqueue])
  obtain ⟨b, hb, hfollows⟩ := h.clients target hmember
  obtain rfl : b = a := by simpa [hb] using ha
  obtain ⟨settled, awaited, hannounced, hrecord, hawaited⟩ := hfollows.replayed
  rw [hqueue, List.filterMap_cons, AdjudicationMessage.decision] at hawaited
  obtain ⟨change, awaited, rfl, rfl, hrest⟩ := List.map_eq_cons_iff.mp hawaited.symm
  -- What is pending under that nonce is the change the Game Master decided on.
  obtain ⟨found, hfound⟩ : ∃ found, b.pending[change.nonce]? = some found :=
    Option.isSome_iff_exists.mp (by simpa using hpending)
  obtain ⟨hproposed, hnonce⟩ := hfollows.pending _ found hfound
  obtain rfl : found = change :=
    h.unique found hproposed change (h.decided change (by simp [hannounced])) hnonce
  obtain ⟨hkeeps, hframes, hsettle⟩ := onMessage_apply hfollows.seated hmember (Ne.symm hne) hfound
  refine ⟨?_, ?_, h.proposals, h.unique, h.decided, ?_, fun session hsession => ?_⟩
  · rw [Fifo.map_pop, ← h.channels, Table.handle, hframes, Fifo.broadcast_nil]
  · exact fun sender receiver message hmessage =>
      h.between sender receiver message (Fifo.mem_of_mem_pop hmessage)
  · intro session hsession
    have hother : session ≠ target := fun heq => hsession (heq ▸ hmember)
    simpa [Table.handle, Function.update_of_ne hother] using h.absent session hsession
  · by_cases hsame : session = target
    · subst hsame
      refine ⟨_, by simp [Table.handle], hkeeps.seated, fun other c hc => ?_, settled ++ [found],
        awaited, by simp [hannounced], ?_, ?_⟩
      · rcases hkeeps.pending other c hc with hold | ⟨hnew, -⟩
        · exact hfollows.pending other c hold
        · exact absurd hnew List.not_mem_nil
      · rw [hsettle, hrecord, ChangeRecord.replay_concat]
      · rw [Fifo.pop_self, hqueue, List.tail_cons, hrest]
    · obtain ⟨c, hc, hothers⟩ := h.clients session hsession
      obtain ⟨settled', awaited', hannounced', hrecord', hawaited'⟩ := hothers.replayed
      refine ⟨c, by simp [Table.handle, Function.update_of_ne hsame, hc], hothers.seated,
        hothers.pending, settled', awaited', hannounced', hrecord', ?_⟩
      rw [Fifo.pop_of_ne _ fun hboth => hsame hboth.2]
      exact hawaited'

end Agreeing

/-! ### Runs in which no decision overtakes its proposal -/

/-- A proposal takes a nonce no earlier proposal took, and an `APPLY` is delivered to a client that
already has the proposal it is about. -/
def Orderly (net : Network) : Act → Prop
  | .propose session _ _ => ∀ a ∈ net.clients session, ∀ change ∈ net.proposed,
      change.nonce ≠ a.nonces.issue.2
  | .deliver source target => ∀ frame ∈ (net.channels source target).head?,
      ∀ nonce ∈ (AdjudicationMessage.decode frame).bind AdjudicationMessage.decision,
        ∀ a ∈ net.clients target, a.pending.contains nonce = true

instance (net : Network) : ∀ act, Decidable (Orderly net act)
  | .propose session _ _ => inferInstanceAs (Decidable (∀ a ∈ net.clients session, _))
  | .deliver source target => inferInstanceAs (Decidable (∀ frame ∈ (net.channels source target).head?, _))

theorem Agreeing.propose {table : Table} {net : Network}
    {queue : Fifo.Channels Session AdjudicationMessage} {announced : List AdjudicatedChange}
    (h : Agreeing table net queue announced) {session : Session} {entityId : Uuid}
    {transform : TokenTransform} (hok : Orderly net (.propose session entityId transform)) :
    ∃ queue announced, Agreeing table (table.step net (.propose session entityId transform)) queue
      announced := by
  cases ha : net.clients session with
  | none => exact ⟨queue, announced, by simpa [Table.step, ha] using h⟩
  | some a =>
      have hmember : session ∈ table.sessions := by
        by_contra hnot
        rw [h.absent session hnot] at ha
        cases ha
      obtain ⟨b, hb, hfollows⟩ := h.clients session hmember
      obtain rfl : b = a := by simpa [hb] using ha
      simp only [Table.step, ha]
      rcases outcome_propose hfollows.seated hmember entityId transform with
        ⟨refusal, hrefused⟩ | ⟨hsome, ⟨frames, applied, hframes⟩, decided, hdecided, houtcome⟩
      · rw [hrefused]
        have hnothing : Outcome table session b (b, .refused refusal) [] [] [] :=
          ⟨.same hfollows.seated, rfl, rfl, by simp⟩
        exact ⟨_, _, h.handle hmember hb hnothing (by simp) (by simp) (by simp)
          (by simpa using h.unique)⟩
      · simp only [hframes]
        refine ⟨_, _, h.handle hmember hb houtcome (by simp) (fun change hchange => ?_) ?_ ?_⟩
        · exact List.mem_append_right _ (hdecided hchange)
        · intro change hchange
          obtain rfl := List.mem_singleton.mp hchange
          exact ⟨by simpa [hfollows.seated.nonceSession] using table.fits session hmember, hsome⟩
        · have hfresh := hok b hb
          intro change hchange other hother heq
          simp only [List.mem_append, List.mem_singleton] at hchange hother
          rcases hchange with hchange | rfl <;> rcases hother with hother | rfl
          · exact h.unique change hchange other hother heq
          · exact absurd heq (hfresh change hchange)
          · exact absurd heq.symm (hfresh other hother)
          · rfl

theorem Agreeing.deliver {table : Table} {net : Network}
    {queue : Fifo.Channels Session AdjudicationMessage} {announced : List AdjudicatedChange}
    (h : Agreeing table net queue announced) {source target : Session}
    (hok : Orderly net (.deliver source target)) :
    ∃ queue announced, Agreeing table (table.step net (.deliver source target)) queue announced := by
  have hchannel : net.channels source target = (queue source target).map AdjudicationMessage.encode := by
    rw [h.channels]
    rfl
  cases hqueue : queue source target with
  | nil =>
      refine ⟨queue, announced, ?_⟩
      simpa [Table.step, hchannel, hqueue] using h
  | cons message rest =>
      obtain ⟨hne, hmember, hhonest⟩ := h.between source target message (by simp [hqueue])
      obtain ⟨a, ha, hfollows⟩ := h.clients target hmember
      have hsent : message ∈ queue source target := by simp [hqueue]
      have hread := AdjudicationMessage.decode_encode (h.sendable hsent)
      have hstep : table.step net (.deliver source target) =
          table.handle { net with channels := Fifo.pop source target net.channels } target
            (a.onMessage source message) := by
        simp only [Table.step, hchannel, hqueue, List.map_cons, ha, Adjudication.onFrame, hread]
      rw [hstep]
      have hquiet : net.proposed ++ [] = net.proposed := List.append_nil _
      cases message with
      | hello userId => exact hhonest.elim
      | propose nonce originUser entityId transform =>
          obtain ⟨seen, decided, hseen, hdecided, houtcome⟩ :=
            outcome_proposal hfollows.seated hmember source ⟨nonce, originUser, entityId, transform⟩
          have hpopped := (h.pop hqueue rfl).handle hmember ha houtcome
            (fun change hchange => by
              rw [hquiet, List.mem_singleton.mp (hseen hchange)]
              exact hhonest)
            (fun change hchange => by
              rw [hquiet, List.mem_singleton.mp (hdecided hchange)]
              exact hhonest)
            (by simp) (by simpa using h.unique)
          simp only [List.append_nil] at hpopped
          exact ⟨_, _, hpopped⟩
      | adjudicate nonce verdict =>
          obtain ⟨-, rfl, -⟩ := hhonest
          have hpopped := (h.pop hqueue rfl).handle hmember ha
            (outcome_accept hfollows.seated source nonce) (by simp) (by simp) (by simp)
            (by simpa using h.unique)
          simp only [List.append_nil] at hpopped
          exact ⟨_, _, hpopped⟩
      | apply nonce =>
          obtain ⟨rfl, -⟩ := hhonest
          refine ⟨_, _, h.settle hqueue ha ?_⟩
          refine hok (AdjudicationMessage.apply nonce).encode (by simp [hchannel, hqueue]) nonce ?_ a ha
          simp [hread, AdjudicationMessage.decision]

/-- One orderly step keeps the network agreeing. -/
theorem Agreeing.step {table : Table} {net : Network} (act : Act)
    (h : ∃ queue announced, Agreeing table net queue announced) (hok : Orderly net act) :
    ∃ queue announced, Agreeing table (table.step net act) queue announced := by
  obtain ⟨queue, announced, h⟩ := h
  cases act with
  | propose session entityId transform => exact h.propose hok
  | deliver source target => exact h.deliver hok

theorem agreeing_start (table : Table) : Agreeing table table.start (fun _ _ => []) [] where
  channels := rfl
  between _ _ _ hmessage := absurd hmessage List.not_mem_nil
  proposals _ hchange := absurd hchange List.not_mem_nil
  unique _ hchange := absurd hchange List.not_mem_nil
  decided _ hchange := absurd hchange List.not_mem_nil
  absent session hsession := by simp [Table.start, hsession]
  clients session hmember := by
    obtain ⟨a, ha, hseated, hpending, hrecord⟩ := Table.seat_spec hmember
    exact ⟨a, by simp [Table.start, hmember, ha], hseated, by simp [hpending], [], [], rfl, hrecord, rfl⟩

/-- No frame is in flight. -/
def Table.Quiet (table : Table) (net : Network) : Prop :=
  ∀ source ∈ table.sessions, ∀ target ∈ table.sessions, net.channels source target = []

/-- Where the changes of a log leave a token: each field as the last change naming it set it. -/
def placed (log : List AdjudicatedChange) (token : Uuid) : TokenTransform :=
  (log.filter fun change => change.entityId = token).foldl (fun placed change =>
    { position := change.transform.position.or placed.position
      rotation := change.transform.rotation.or placed.rotation
      scale := change.transform.scale.or placed.scale }) {}

/-- Every client has applied the same changes, and holds the same last nonce and transform for each
token. -/
def Table.Agree (table : Table) (net : Network) : Prop :=
  ∀ session ∈ table.sessions, ∀ other ∈ table.sessions,
    ∀ a ∈ net.clients session, ∀ b ∈ net.clients other,
      (∀ change, change ∈ a.log ↔ change ∈ b.log) ∧
        ∀ token, a.applied[token]? = b.applied[token]? ∧ placed a.log token = placed b.log token

/-- Every client is still adjudicating. -/
def Table.AllAdjudicating (table : Table) (net : Network) : Prop :=
  ∀ session ∈ table.sessions, ∀ a ∈ net.clients session, a.isAdjudicating = true

instance (table : Table) (net : Network) : Decidable (table.Quiet net) :=
  inferInstanceAs (Decidable (∀ source ∈ table.sessions, _))

instance (table : Table) (net : Network) : Decidable (table.AllAdjudicating net) :=
  inferInstanceAs (Decidable (∀ session ∈ table.sessions, _))

/-- With nothing in flight, every client has replayed all the decisions. -/
theorem Following.caught_up {table : Table} {net : Network}
    {queue : Fifo.Channels Session AdjudicationMessage} {announced : List AdjudicatedChange}
    (h : Agreeing table net queue announced) (hquiet : table.Quiet net) {session : Session}
    (hmember : session ∈ table.sessions) {a : Adjudication} (ha : net.clients session = some a) :
    a.record = .replay announced := by
  obtain ⟨b, hb, hfollows⟩ := h.clients session hmember
  obtain rfl : b = a := by simpa [hb] using ha
  obtain ⟨settled, awaited, hannounced, hrecord, hawaited⟩ := hfollows.replayed
  have hnothing : queue table.gm session = [] := by
    have hchannel := hquiet table.gm table.gm_mem session hmember
    rw [h.channels] at hchannel
    exact List.map_eq_nil_iff.mp hchannel
  obtain rfl : awaited = [] := by simpa [hnothing] using hawaited
  rw [hrecord, hannounced, List.append_nil]

/-- Whatever is proposed and however the channels are interleaved: if no decision is delivered before its
proposal and no nonce is taken twice, every client goes on adjudicating, and whenever nothing is in flight
they have all applied the same changes. -/
theorem agreement_when_decisions_follow_proposals (table : Table) (acts : List Act)
    (horderly : Run.Meets table.step Orderly table.start acts) :
    table.AllAdjudicating (table.run acts) ∧
      (table.Quiet (table.run acts) → table.Agree (table.run acts)) := by
  obtain ⟨queue, announced, h⟩ := horderly.invariant
    (I := fun net => ∃ queue announced, Agreeing table net queue announced)
    (fun _ act h hok => Agreeing.step act h hok) ⟨_, _, agreeing_start table⟩
  refine ⟨fun session hmember a ha => ?_, fun hquiet session hmember other hother a ha b hb => ?_⟩
  · obtain ⟨b, hb, hfollows⟩ := h.clients session hmember
    obtain rfl : b = a := by simpa [hb] using ha
    exact hfollows.seated.isAdjudicating hmember
  · have hsame : a.record = b.record :=
      (Following.caught_up h hquiet hmember ha).trans (Following.caught_up h hquiet hother hb).symm
    obtain ⟨happlied, hlog⟩ := ChangeRecord.mk.inj hsame
    rw [happlied, hlog]
    exact ⟨fun _ => Iff.rfl, fun _ => ⟨rfl, rfl⟩⟩

/-- A Game Master and two players. -/
def threeClients : Table where
  sessions := ["gm", "p", "q"]
  userOf session := if session = "gm" then 1 else if session = "p" then 2 else 3
  gm := "gm"
  heard session := ["gm", "p", "q"].filter (· ≠ session)
  gm_mem := by decide
  gm_unique := by decide
  company := by decide
  heard_all := by simp
  fits := by decide

/-- `p` turns a token; both other clients hear of it, and `q` hears the Game Master's answer after it. -/
def proposalFirst : List Act :=
  [.propose "p" 7 { rotation := some 1 }, .deliver "p" "gm", .deliver "p" "q", .deliver "gm" "q",
    .deliver "gm" "q", .deliver "gm" "p", .deliver "gm" "p"]

/-- The same frames, but `q` hears the Game Master's answer before the proposal. -/
def answerFirst : List Act :=
  [.propose "p" 7 { rotation := some 1 }, .deliver "p" "gm", .deliver "gm" "q", .deliver "gm" "q",
    .deliver "p" "q", .deliver "gm" "p", .deliver "gm" "p"]

theorem agreement_when_decisions_follow_proposals_at_three :
    ((threeClients.run proposalFirst).clients "q").any (fun a => a.log.length = 1) = true ∧
      threeClients.Agree (threeClients.run proposalFirst) :=
  ⟨by decide, (agreement_when_decisions_follow_proposals threeClients proposalFirst (by decide)).2
    (by decide)⟩

/-- An answer that overtakes its proposal is refused, and the proposal then waits for it forever. -/
theorem disagreement_when_the_answer_comes_first :
    ¬∀ (table : Table) (acts : List Act), table.Quiet (table.run acts) →
      table.AllAdjudicating (table.run acts) → table.Agree (table.run acts) := by
  intro hclaim
  have hagree := hclaim threeClients answerFirst (by decide) (by decide)
  have hgm : ((threeClients.run answerFirst).clients "gm").map Adjudication.log =
      some [⟨⟨0, "p"⟩, 2, 7, { rotation := some 1 }⟩] := by decide
  have hq : ((threeClients.run answerFirst).clients "q").map Adjudication.log = some [] := by decide
  obtain ⟨a, ha, hlog⟩ := Option.map_eq_some_iff.mp hgm
  obtain ⟨b, hb, hnothing⟩ := Option.map_eq_some_iff.mp hq
  have hsame := (hagree "gm" (by decide) "q" (by decide) a ha b hb).1
  rw [hlog, hnothing] at hsame
  exact absurd ((hsame _).mp (List.mem_singleton_self _)) List.not_mem_nil

end ThunderForge.Peer
