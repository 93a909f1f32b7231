import Mathlib.Data.List.Induction
import Mathlib.Logic.Function.Basic
import ThunderForge.Lib.Fifo
import ThunderForge.Peer.AdjudicationSafety

/-! Several clients at one table, each pair joined by a data channel (`peer/wasm.rs`): who sits where,
what a step of the network is, and what one call does to a client that has heard everybody. -/

namespace ThunderForge.Peer

open Std (ExtTreeMap ExtTreeSet)

/-- The clients of one world: their sessions, who speaks on each, and which one is the Game Master. -/
structure Table where
  sessions : List Session
  userOf : Session → Uuid
  gm : Session
  /-- The order in which each client heard the others' `HELLO`. -/
  heard : Session → List Session
  gm_mem : gm ∈ sessions
  gm_unique : ∀ session ∈ sessions, userOf session = userOf gm → session = gm
  company : ∃ session ∈ sessions, session ≠ gm
  heard_all : ∀ session ∈ sessions, ∀ other, other ∈ heard session ↔ other ∈ sessions ∧ other ≠ session
  fits : ∀ session ∈ sessions, SessionFits session

/-- The frames a step says to broadcast. -/
def AdjudicationStep.frames : AdjudicationStep → List Frame
  | .broadcast frames _ => frames
  | _ => []

/-- All clients and everything in flight. `proposed` is a record of the run that no client reads. -/
structure Network where
  clients : Session → Option Adjudication
  channels : Fifo.Channels Session Frame
  proposed : List AdjudicatedChange

/-- A client proposes, or the head of one channel is delivered. -/
inductive Act where
  | propose (session : Session) (entityId : Uuid) (transform : TokenTransform)
  | deliver (source target : Session)

namespace Table

variable (table : Table)

/-- The `HELLO`s of the sessions as they arrive. -/
def greetings (heard : List Session) : List Adjudication.Call :=
  heard.map fun other => .onFrame other (AdjudicationMessage.hello (table.userOf other)).encode

/-- A client that has begun and has heard every other client's `HELLO`. -/
def seat (session : Session) : Option Adjudication :=
  (Adjudication.begin session (table.userOf session) (table.userOf table.gm) table.sessions).map
    fun a => a.run (table.greetings (table.heard session))

/-- The table when play starts: everybody introduced, nothing in flight. -/
def start : Network where
  clients session := if session ∈ table.sessions then table.seat session else none
  channels := fun _ _ => []
  proposed := []

/-- Act on one step: keep the client's new state, and send what it says to every other client. -/
def handle (net : Network) (session : Session) (result : Adjudication × AdjudicationStep) : Network :=
  { net with
    clients := Function.update net.clients session (some result.1)
    channels := Fifo.broadcast table.sessions session result.2.frames net.channels }

def step (net : Network) : Act → Network
  | .propose session entityId transform =>
    match net.clients session with
    | none => net
    | some a =>
      let made : List AdjudicatedChange := match (a.propose entityId transform).2 with
        | .broadcast _ _ => [{ nonce := a.nonces.issue.2, originUser := a.selfUser, entityId, transform }]
        | _ => []
      table.handle { net with proposed := net.proposed ++ made } session (a.propose entityId transform)
  | .deliver source target =>
    match net.channels source target, net.clients target with
    | frame :: _, some a =>
      table.handle { net with channels := Fifo.pop source target net.channels } target
        (a.onFrame source frame)
    | _, _ => net

/-- The network after a sequence of steps. -/
abbrev run (acts : List Act) : Network := Run.run table.step table.start acts

end Table

/-! ### A client that sits at the table -/

/-- The client plays for `session`, and has heard `HELLO` from the sessions in `known`. -/
structure Seated (table : Table) (known : List Session) (session : Session) (a : Adjudication) :
    Prop where
  selfSession : a.selfSession = session
  selfUser : a.selfUser = table.userOf session
  gmUser : a.gmUser = table.userOf table.gm
  roster : ∀ other, other ∈ a.roster ↔ other ∈ table.sessions ∧ other ≠ session
  reachable : a.reachable = a.roster
  users : ∀ other, a.users[other]? = if other ∈ known then some (table.userOf other) else none
  running : a.stopped = none
  isolated : a.serverUnreachable = true
  nonceSession : a.nonces.session = session

namespace Seated

variable {table : Table} {known : List Session} {session : Session} {a : Adjudication}

theorem isGameMaster (h : Seated table known session a) (hmember : session ∈ table.sessions) :
    a.isGameMaster = true ↔ session = table.gm := by
  rw [Adjudication.isGameMaster, decide_eq_true_iff, h.selfUser, h.gmUser]
  exact ⟨table.gm_unique session hmember, congrArg table.userOf⟩

theorem gmSession (h : Seated table table.sessions session a) (hmember : session ∈ table.sessions) :
    a.gmSession = some table.gm := by
  unfold Adjudication.gmSession
  split_ifs with hgm
  · rw [h.selfSession, (h.isGameMaster hmember).mp hgm]
  have hother : table.gm ≠ session := fun heq => hgm ((h.isGameMaster hmember).mpr heq.symm)
  have hfound : ∃ entry ∈ a.users.toList, (entry.2 = a.gmUser && a.reachable.contains entry.1) = true := by
    refine ⟨(table.gm, table.userOf table.gm), ?_, ?_⟩
    · rw [ExtTreeMap.mem_toList_iff_getElem?_eq_some, h.users, if_pos table.gm_mem]
    · simp [h.gmUser, h.reachable, h.roster, table.gm_mem, hother]
  obtain ⟨entry, hentry⟩ := Option.isSome_iff_exists.mp (List.find?_isSome.mpr hfound)
  have hmem := List.mem_of_find?_eq_some hentry
  have htest := List.find?_some hentry
  rw [ExtTreeMap.mem_toList_iff_getElem?_eq_some, h.users] at hmem
  split_ifs at hmem with hknown
  rw [hentry, Option.map_some, table.gm_unique entry.1 hknown]
  rw [Option.some.inj hmem, ← h.gmUser]
  simpa using (Bool.and_eq_true_iff.mp htest).1

theorem isAdjudicating (h : Seated table table.sessions session a) (hmember : session ∈ table.sessions) :
    a.isAdjudicating = true := by
  have hgm := h.gmSession hmember
  simp [Adjudication.isAdjudicating, h.running, h.isolated, h.reachable, hgm]

theorem of_known {known' : List Session} (h : Seated table known session a)
    (heq : ∀ other, other ∈ known ↔ other ∈ known') : Seated table known' session a :=
  { h with users := fun other => by rw [h.users, if_congr (heq other) rfl rfl] }

/-- Only the counter and the record of changes move once everybody is introduced. -/
theorem of_same {b : Adjudication} (h : Seated table known session a)
    (htable : Adjudication.SameTable a b) (hreachable : b.reachable = a.reachable)
    (husers : b.users = a.users) (hstopped : b.stopped = a.stopped)
    (hisolated : b.serverUnreachable = a.serverUnreachable) : Seated table known session b where
  selfSession := htable.selfSession.trans h.selfSession
  selfUser := htable.selfUser.trans h.selfUser
  gmUser := htable.gmUser.trans h.gmUser
  roster := by rw [htable.roster]; exact h.roster
  reachable := by rw [hreachable, htable.roster, h.reachable]
  users := by rw [husers]; exact h.users
  running := hstopped.trans h.running
  isolated := hisolated.trans h.isolated
  nonceSession := htable.nonceSession.trans h.nonceSession

theorem apply (h : Seated table known session a) (nonce : Nonce) :
    Seated table known session (a.apply nonce).1 := by
  rcases a.apply_cases nonce with ⟨heq, -⟩ | ⟨change, -, ⟨heq, -⟩ | ⟨heq, -⟩⟩ <;> rw [heq] <;>
    exact h.of_same ⟨rfl, rfl, rfl, rfl, rfl⟩ rfl rfl rfl rfl

end Seated

/-- The part of the state the agreement is about: what was applied and in which order. -/
structure ChangeRecord where
  applied : ExtTreeMap Uuid Nonce
  log : List AdjudicatedChange

namespace ChangeRecord

def empty : ChangeRecord := ⟨∅, []⟩

/-- Apply one change that has been decided on, if the order allows. -/
def settle (record : ChangeRecord) (change : AdjudicatedChange) : ChangeRecord :=
  if (record.applied[change.entityId]?).any (change.nonce ≤ ·) then record
  else ⟨record.applied.insert change.entityId change.nonce, record.log ++ [change]⟩

/-- The record after the decisions, first decision first. -/
def replay (changes : List AdjudicatedChange) : ChangeRecord := changes.foldl settle empty

theorem replay_concat (changes : List AdjudicatedChange) (change : AdjudicatedChange) :
    replay (changes ++ [change]) = (replay changes).settle change := by
  simp [replay]

end ChangeRecord

namespace Adjudication

def record (a : Adjudication) : ChangeRecord := ⟨a.applied, a.log⟩

theorem record_apply {a : Adjudication} {nonce : Nonce} {change : AdjudicatedChange}
    (hpending : a.pending[nonce]? = some change) (hnonce : change.nonce = nonce) :
    (a.apply nonce).1.record = a.record.settle change := by
  subst hnonce
  rcases a.apply_cases change.nonce with
    ⟨-, hnone⟩ | ⟨found, hfound, ⟨heq, previous, hprevious, hle⟩ | ⟨heq, hordered⟩⟩
  · rw [hpending] at hnone
    cases hnone
  · obtain rfl : change = found := by simpa [hpending] using hfound
    have hlate : (a.record.applied[change.entityId]?).any (change.nonce ≤ ·) = true := by
      simp [record, hprevious, hle]
    rw [heq, ChangeRecord.settle, if_pos hlate]
    rfl
  · obtain rfl : change = found := by simpa [hpending] using hfound
    have hlate : ¬(a.record.applied[change.entityId]?).any (change.nonce ≤ ·) = true := by
      cases happlied : a.applied[change.entityId]? with
      | none => simp [record, happlied]
      | some previous => simpa [record, happlied] using hordered previous happlied
    rw [heq, ChangeRecord.settle, if_neg hlate]
    rfl

end Adjudication

/-- A `HELLO` introduces one more session and leaves the record of changes alone. -/
theorem Seated.onFrame_hello {table : Table} {known : List Session} {session other : Session}
    {a : Adjudication} (h : Seated table known session a)
    (hother : other ∈ table.sessions ∧ other ≠ session) {b : Adjudication}
    (hb : (a.onFrame other (AdjudicationMessage.hello (table.userOf other)).encode).1 = b) :
    Seated table (other :: known) session b ∧ b.pending = a.pending ∧ b.record = a.record := by
  have hmember : a.roster.contains other = true := by simp [h.roster, hother]
  have hread : AdjudicationMessage.decode (AdjudicationMessage.hello (table.userOf other)).encode =
      some (.hello (table.userOf other)) := AdjudicationMessage.decode_encode trivial
  have hheard : b = { a with users := a.users.insert other (table.userOf other) } := by
    rw [← hb, Adjudication.onFrame, hread]
    simp only [Adjudication.onMessage, hmember, if_true]
    split_ifs <;> rfl
  refine ⟨?_, by rw [hheard], by rw [hheard]; rfl⟩
  rw [hheard]
  refine { h with users := fun third => ?_ }
  rw [ExtTreeMap.getElem?_insert, h.users]
  by_cases heq : other = third
  · subst heq
    simp
  · simp [heq, Ne.symm heq]

theorem seated_begin (table : Table) (session : Session) :
    ∃ a, Adjudication.begin session (table.userOf session) (table.userOf table.gm) table.sessions =
        some a ∧ Seated table [session] session a ∧ a.pending = ∅ ∧ a.record = .empty := by
  obtain ⟨other, hother, hne⟩ : ∃ other ∈ table.sessions, other ≠ session := by
    by_cases heq : session = table.gm
    · exact heq ▸ table.company
    · exact ⟨table.gm, table.gm_mem, Ne.symm heq⟩
  have hroster : (ExtTreeSet.ofList (table.sessions.filter fun other => other ≠ session)
      compare).isEmpty = false := by
    refine Bool.eq_false_iff.mpr fun hempty => ?_
    have hmem : other ∈ ExtTreeSet.ofList (table.sessions.filter fun other => other ≠ session)
        compare := by simp [ExtTreeSet.mem_ofList, hother, hne]
    rw [ExtTreeSet.isEmpty_iff.mp hempty] at hmem
    simp at hmem
  unfold Adjudication.begin
  simp only [hroster, Bool.false_eq_true, if_false]
  refine ⟨_, rfl, ⟨rfl, rfl, rfl, ?_, rfl, ?_, rfl, rfl, rfl⟩, rfl, rfl⟩
  · simp [ExtTreeSet.mem_ofList]
  · intro third
    by_cases heq : session = third
    · simp [heq]
    · simp [heq, Ne.symm heq]

/-- The introductions come one after another, in any order. -/
theorem Seated.greeted {table : Table} {known : List Session} {session : Session} {a : Adjudication}
    (h : Seated table known session a) (heard : List Session)
    (hfrom : ∀ other ∈ heard, other ∈ table.sessions ∧ other ≠ session) {b : Adjudication}
    (hb : a.run (table.greetings heard) = b) :
    Seated table (heard.reverse ++ known) session b ∧ b.pending = a.pending ∧ b.record = a.record := by
  induction heard using List.reverseRecOn generalizing b with
  | nil => exact hb ▸ ⟨h, rfl, rfl⟩
  | append_singleton heard other ih =>
      obtain ⟨hseated, hpending, hrecord⟩ := ih (fun o ho => hfrom o (by simp [ho])) rfl
      rw [Table.greetings, List.map_append, Adjudication.run, Run.run_append] at hb
      obtain ⟨hnext, hpending', hrecord'⟩ := hseated.onFrame_hello (hfrom other (by simp)) hb
      rw [List.reverse_concat, List.cons_append]
      exact ⟨hnext, hpending'.trans hpending, hrecord'.trans hrecord⟩

/-- What every client is like when play starts. -/
theorem Table.seat_spec {table : Table} {session : Session} (hmember : session ∈ table.sessions) :
    ∃ a, table.seat session = some a ∧ Seated table table.sessions session a ∧
      a.pending = ∅ ∧ a.record = .empty := by
  obtain ⟨begun, hbegun, hseated, hpending, hrecord⟩ := seated_begin table session
  obtain ⟨hgreeted, hpending', hrecord'⟩ := hseated.greeted (table.heard session)
    (fun other hother => (table.heard_all session hmember other).mp hother) rfl
  refine ⟨_, by rw [seat, hbegun, Option.map_some], hgreeted.of_known fun other => ?_,
    hpending'.trans hpending, hrecord'.trans hrecord⟩
  simp only [List.mem_append, List.mem_reverse, List.mem_singleton, table.heard_all session hmember]
  by_cases heq : other = session
  · simp [heq, hmember]
  · simp [heq]

end ThunderForge.Peer
