import ThunderForge.Lib.HexText
import ThunderForge.Lib.Run
import ThunderForge.Reconcile.Descent
import ThunderForge.Reconcile.Outbox

/-! Playing on while disconnected (`sync/offlineQueue.ts`). One person's pages queue changes and, whenever the
connection is back, drain the queue; calls may fail on either side of being served, pages may close at any moment, rows
may outlive their removal. Between any two steps play goes on and others reconcile; the process keeps its marks. -/

namespace ThunderForge.Reconcile

/-- How ids are spelled, and what text is read as JSON. -/
structure Browser where
  spell : Uuid → String
  read : String → Option Uuid
  read_spell : ∀ id, read (spell id) = some id
  parse : String → Option Json

namespace Browser

variable (browser : Browser)

theorem spell_injective : Function.Injective browser.spell := by
  intro a b h
  have hread := congrArg browser.read h
  rw [browser.read_spell, browser.read_spell] at hread
  exact Option.some.inj hread

/-- A stored command as it travels: as a value, or as a string when it is none. -/
def commandOf (change : QueuedChange) : Json := (browser.parse change.command).getD (.string change.command)

end Browser

/-- Digits in groups of eight, four, four, four and the rest. -/
def hyphenated (cs : List Char) : List Char :=
  cs.take 8 ++ '-' :: ((cs.drop 8).take 4 ++ '-' :: ((cs.drop 12).take 4 ++ '-' :: ((cs.drop 16).take 4 ++
    '-' :: cs.drop 20)))

theorem filter_hyphenated {cs : List Char} (h : ∀ c ∈ cs, c ≠ '-') : (hyphenated cs).filter (· ≠ '-') = cs := by
  have hkeep {part : List Char} (hpart : ∀ c ∈ part, c ∈ cs) : part.filter (· ≠ '-') = part :=
    List.filter_eq_self.mpr fun c hc => decide_eq_true (h c (hpart c hc))
  have hgroup (left right : List Char) (hleft : ∀ c ∈ left, c ∈ cs) :
      (left ++ '-' :: right).filter (· ≠ '-') = left ++ right.filter (· ≠ '-') := by
    rw [List.filter_append, hkeep hleft, List.filter_cons_of_neg (by decide)]
  have hmem (i n : Nat) : ∀ c ∈ (cs.drop i).take n, c ∈ cs := fun c hc => List.mem_of_mem_drop (List.mem_of_mem_take hc)
  have hsplit (i n : Nat) : (cs.drop i).take n ++ cs.drop (i + n) = cs.drop i := by
    rw [← List.drop_drop, List.take_append_drop]
  rw [hyphenated, hgroup _ _ fun c hc => List.mem_of_mem_take hc, hgroup _ _ (hmem 8 4), hgroup _ _ (hmem 12 4),
    hgroup _ _ (hmem 16 4), hkeep fun c hc => List.mem_of_mem_drop hc, hsplit 16 4, hsplit 12 4, hsplit 8 4,
    List.take_append_drop]
/-- The browser in which ids are spelled in groups of hexadecimal digits, and these are the texts read as JSON. -/
def Browser.reading (commands : List (String × Json)) : Browser where
  spell id := String.ofList (hyphenated (HexText.digits 32 id.toNat))
  read text := (HexText.value (text.toList.filter (· ≠ '-'))).map (BitVec.ofNat 128)
  read_spell id := by
    have hnone : HexText.digitValue '-' = none := by decide
    have hlt : id.toNat < 16 ^ 32 := id.isLt
    rw [String.toList_ofList, filter_hyphenated fun c hc => HexText.ne_of_mem_digits hc hnone, HexText.value_digits,
      Nat.mod_eq_of_lt hlt, Option.map_some, BitVec.ofNat_toNat, BitVec.setWidth_eq]
  parse text := commands.lookup text

/-- Attribution read back off a stored command. -/
def readAdjudication (command : Json) : Option String :=
  match (command.get? "adjudication").bind (Json.get? "originator_user_id") with
  | some (.string originator) => if originator = "" then none else some originator
  | _ => none

/-- A queued change as it is submitted; there is none where it is stamped with what is no user's id. -/
def Browser.wire (browser : Browser) (change : QueuedChange) : Option QueuedChangeInput :=
  let input : QueuedChangeInput := { localId := browser.spell change.localId, command := browser.commandOf change }
  match readAdjudication input.command with
  | none => some input
  | some originator => (browser.read originator).map fun user => { input with attributedToUserId := some user }

/-- How far the server is with a call. -/
inductive Service where
  | sent
  | serving (incoming : Contender) (rest : List QueuedChangeInput) (outcomes : List ReconcileOutcome)
  | answered (outcomes : List ReconcileOutcome)
deriving DecidableEq

/-- One call of `reconcileQueuedChanges`, and the rows it was made of. -/
structure Request where
  worldId : Uuid
  rows : List QueuedChange
  changes : List QueuedChangeInput
  service : Service
deriving DecidableEq

/-- How far a page is with draining. -/
inductive DrainPhase where
  | reading
  | waiting (request : Nat)
  | forgetting (localIds : List Uuid)
  | ended
deriving DecidableEq

structure Drain where
  worldId : Uuid
  submittedAlready : List Uuid
  passes : Nat
  phase : DrainPhase
deriving DecidableEq

def maxDrainPasses : Nat := 3

/-- What the server made of one change, and for whom. -/
structure Verdict where
  worldId : Uuid
  incoming : Contender
  outcome : ReconcileOutcome
deriving DecidableEq

/-- The browser, its pages' calls and the server. -/
structure Offline where
  outbox : Outbox
  /-- Changes that are numbered and not stored yet. -/
  noted : List QueuedChange
  drains : List Drain
  requests : List Request
  server : Server
  /-- All that was ever stored, in that order. -/
  made : List QueuedChange
  verdicts : List Verdict

/-- What can happen next. -/
inductive OfflineStep where
  | note (worldId localId : Uuid) (command : String) (actorRoleHint : Role)
  | put (index : Nat)
  | open (worldId : Uuid)
  | pass (drain : Nat)
  | take (request : Nat)
  | serve (request : Nat)
  | answer (drain : Nat)
  | forget (drain : Nat) (deleted : Bool)
  | leave (drain : Nat)
  | live (database : Database)
  | otherTake (worldId : Uuid)
  | otherServe (worldId userId : Uuid) (incoming : Contender) (change : QueuedChangeInput)

namespace Offline

def start (server : Server) : Offline where
  outbox := .empty
  noted := []
  drains := []
  requests := []
  server
  made := []
  verdicts := []

section

variable (state : Offline)

def setDrain (index : Nat) (drain : Drain) : Offline := { state with drains := state.drains.set index drain }

def setService (index : Nat) (request : Request) (service : Service) : Offline :=
  { state with requests := state.requests.set index { request with service } }

section

variable (browser : Browser)

/-- The queue is read again until it gives nothing that this drain has not sent. -/
def pass (index : Nat) (drain : Drain) : Offline :=
  let queued := (state.outbox.forWorld drain.worldId).filter fun change => change.localId ∉ drain.submittedAlready
  if drain.passes = maxDrainPasses ∨ queued = [] then state.setDrain index { drain with phase := .ended }
  else
    let submittedAlready := drain.submittedAlready ++ queued.map QueuedChange.localId
    match queued.mapM browser.wire with
    | none => state.setDrain index { drain with submittedAlready, passes := drain.passes + 1, phase := .ended }
    | some changes =>
        { state with
          requests := state.requests ++ [{ worldId := drain.worldId, rows := queued, changes, service := .sent }]
          drains := state.drains.set index
            { drain with submittedAlready, passes := drain.passes + 1, phase := .waiting state.requests.length } }

/-- An answer that arrives: what it speaks about may go. -/
def answer (index : Nat) (drain : Drain) (outcomes : List ReconcileOutcome) : Offline :=
  state.setDrain index
    { drain with phase := .forgetting (outcomes.filterMap fun outcome => browser.read outcome.localId) }

/-- A row is deleted, or stays when it cannot be. -/
def forget (index : Nat) (drain : Drain) (localId : Uuid) (rest : List Uuid) (deleted : Bool) : Offline :=
  { state with
    outbox := if deleted then state.outbox.delete localId else state.outbox
    drains := state.drains.set index { drain with phase := .forgetting rest } }

end

section

variable (platform : Platform) (userId : Uuid)

/-- The server begins with a call: membership, pause, and a place in the sequence. -/
def take (index : Nat) (request : Request) : Offline :=
  match state.server.database.requireWorldMember userId request.worldId with
  | none => state.setService index request
      (.answered (request.changes.map fun change => .rejected change.localId .permissionDenied))
  | some memberRole =>
    if state.server.database.paused request.worldId then state.setService index request
      (.answered (request.changes.map fun change => .rejected change.localId .playPaused))
    else
      let (taken, reconnectSeq) := state.server.takeReconnectSeq request.worldId
      let service := .serving { role := roleFromMembership memberRole, reconnectSeq } request.changes []
      { state.setService index request service with server := taken }

/-- One change of a call, or the answer when none is left. -/
def serve (index : Nat) (request : Request) (incoming : Contender) (outcomes : List ReconcileOutcome) :
    List QueuedChangeInput → Offline
  | [] => state.setService index request (.answered outcomes)
  | change :: rest =>
    let (server, outcome) := applyChange platform request.worldId userId incoming state.server change
    { state.setService index request (.serving incoming rest (outcomes ++ [outcome])) with
      server
      verdicts := state.verdicts ++ [{ worldId := request.worldId, incoming, outcome }] }

end

end

/-- One step; what cannot happen now does nothing. -/
def step (platform : Platform) (userId : Uuid) (browser : Browser) (state : Offline) : OfflineStep → Offline
  | .note worldId localId command actorRoleHint =>
      { state with noted := state.noted ++ [state.outbox.stamp worldId localId command actorRoleHint] }
  | .put index =>
      match state.noted[index]? with
      | none => state
      | some change =>
          { state with
            outbox := state.outbox.put change
            noted := state.noted.eraseIdx index
            made := state.made ++ [change] }
  | .open worldId =>
      let drain := { worldId, submittedAlready := [], passes := 0, phase := .reading }
      { state with drains := state.drains ++ [drain] }
  | .pass index =>
      match state.drains[index]? with
      | some drain => if drain.phase = .reading then state.pass browser index drain else state
      | none => state
  | .take index =>
      match state.requests[index]? with
      | some request => if request.service = .sent then state.take userId index request else state
      | none => state
  | .serve index =>
      match state.requests[index]? with
      | none => state
      | some request =>
          match request.service with
          | .serving incoming rest outcomes => state.serve platform userId index request incoming outcomes rest
          | .sent | .answered _ => state
  | .answer index =>
      match state.drains[index]? with
      | none => state
      | some drain =>
          match drain.phase with
          | .waiting request =>
              match (state.requests[request]?).map Request.service with
              | some (.answered outcomes) => state.answer browser index drain outcomes
              | some .sent | some (.serving _ _ _) | none => state
          | .reading | .forgetting _ | .ended => state
  | .forget index deleted =>
      match state.drains[index]? with
      | none => state
      | some drain =>
          match drain.phase with
          | .forgetting (localId :: rest) => state.forget index drain localId rest deleted
          | .forgetting [] => state.setDrain index { drain with phase := .reading }
          | .reading | .waiting _ | .ended => state
  | .leave index =>
      match state.drains[index]? with
      | none => state
      | some drain => state.setDrain index { drain with phase := .ended }
  | .live database => { state with server := { state.server with database } }
  | .otherTake worldId => { state with server := (state.server.takeReconnectSeq worldId).1 }
  | .otherServe worldId other incoming change =>
      { state with server := (applyChange platform worldId other incoming state.server change).1 }

variable (state : Offline) (platform : Platform) (userId : Uuid) (browser : Browser)

/-- Everything one step can do. -/
inductive Effect : OfflineStep → Offline → Prop
  | idle (act : OfflineStep) : Effect act state
  | noted (worldId localId : Uuid) (command : String) (actorRoleHint : Role) :
      Effect (.note worldId localId command actorRoleHint)
        { state with noted := state.noted ++ [state.outbox.stamp worldId localId command actorRoleHint] }
  | stored {index : Nat} {change : QueuedChange} (hnoted : state.noted[index]? = some change) :
      Effect (.put index) { state with
        outbox := state.outbox.put change
        noted := state.noted.eraseIdx index
        made := state.made ++ [change] }
  | opened (worldId : Uuid) : Effect (.open worldId)
      { state with drains := state.drains ++ [{ worldId, submittedAlready := [], passes := 0, phase := .reading }] }
  | turned (act : OfflineStep) (index : Nat) {drain : Drain} (hphase : ∀ localIds, drain.phase ≠ .forgetting localIds) :
      Effect act (state.setDrain index drain)
  | sent (act : OfflineStep) (index : Nat) {worldId : Uuid} {submittedAlready : List Uuid} {drain : Drain}
      {rows : List QueuedChange} {changes : List QueuedChangeInput}
      (hrows : rows = (state.outbox.forWorld worldId).filter fun change => change.localId ∉ submittedAlready)
      (hchanges : rows.mapM browser.wire = some changes) (hphase : ∀ localIds, drain.phase ≠ .forgetting localIds) :
      Effect act { state with
        requests := state.requests ++ [{ worldId, rows, changes, service := .sent }]
        drains := state.drains.set index drain }
  | refused (act : OfflineStep) {index : Nat} {request : Request} (hrequest : state.requests[index]? = some request)
      (hsent : request.service = .sent) {outcomes : List ReconcileOutcome}
      (houtcomes : outcomes.map ReconcileOutcome.localId = request.changes.map QueuedChangeInput.localId) :
      Effect act (state.setService index request (.answered outcomes))
  | taken {index : Nat} {request : Request} (hrequest : state.requests[index]? = some request)
      (hsent : request.service = .sent) {memberRole : String}
      (hmember : state.server.database.requireWorldMember userId request.worldId = some memberRole) :
      Effect (.take index) { state.setService index request
          (.serving { role := roleFromMembership memberRole,
                      reconnectSeq := state.server.marks.nextSeq request.worldId } request.changes []) with
        server := (state.server.takeReconnectSeq request.worldId).1 }
  | served {index : Nat} {request : Request} (hrequest : state.requests[index]? = some request)
      {incoming : Contender} {change : QueuedChangeInput} {rest : List QueuedChangeInput}
      {outcomes : List ReconcileOutcome} (hserving : request.service = .serving incoming (change :: rest) outcomes)
      {served : Server × ReconcileOutcome}
      (hserve : applyChange platform request.worldId userId incoming state.server change = served) :
      Effect (.serve index) { state.setService index request (.serving incoming rest (outcomes ++ [served.2])) with
        server := served.1
        verdicts := state.verdicts ++ [{ worldId := request.worldId, incoming, outcome := served.2 }] }
  | finished {index : Nat} {request : Request} (hrequest : state.requests[index]? = some request)
      {incoming : Contender} {outcomes : List ReconcileOutcome}
      (hserving : request.service = .serving incoming [] outcomes) :
      Effect (.serve index) (state.setService index request (.answered outcomes))
  | answered (act : OfflineStep) (index : Nat) {drain : Drain} {request : Request} (hrequest : request ∈ state.requests)
      {outcomes : List ReconcileOutcome} (hanswered : request.service = .answered outcomes) :
      Effect act (state.answer browser index drain outcomes)
  | forgot (act : OfflineStep) {index : Nat} {drain : Drain} (hdrain : drain ∈ state.drains)
      {localId : Uuid} {rest : List Uuid}
      (hphase : drain.phase = .forgetting (localId :: rest)) (deleted : Bool) :
      Effect act (state.forget index drain localId rest deleted)
  | elsewhere (act : OfflineStep) {server : Server} (hserver : Descends state.server server) :
      Effect act { state with server }

theorem step_pass (act : OfflineStep) (index : Nat) (drain : Drain) :
    Effect state platform userId browser act (state.pass browser index drain) := by
  unfold pass
  dsimp only
  split_ifs
  · exact .turned _ index (by rintro _ ⟨⟩)
  · split
    · exact .turned _ index (by rintro _ ⟨⟩)
    · rename_i changes hchanges
      exact .sent _ index rfl hchanges (by rintro _ ⟨⟩)

theorem step_take {index : Nat} {request : Request} (hrequest : state.requests[index]? = some request)
    (hsent : request.service = .sent) :
    Effect state platform userId browser (.take index) (state.take userId index request) := by
  unfold take
  split
  · exact .refused _ hrequest hsent (by rw [List.map_map]; rfl)
  · rename_i memberRole hmember
    split_ifs
    · exact .refused _ hrequest hsent (by rw [List.map_map]; rfl)
    · exact .taken hrequest hsent hmember

/-- One step has one of these effects. -/
theorem step_effect (act : OfflineStep) :
    Effect state platform userId browser act (state.step platform userId browser act) := by
  cases act with
  | note worldId localId command actorRoleHint => exact .noted ..
  | put index =>
      unfold step
      dsimp only
      split
      · exact .idle _
      · rename_i change hnoted
        exact .stored hnoted
  | «open» worldId => exact .opened worldId
  | pass index =>
      unfold step
      dsimp only
      split
      · split_ifs
        · exact step_pass ..
        · exact .idle _
      · exact .idle _
  | take index =>
      unfold step
      dsimp only
      split
      · rename_i request hrequest
        split_ifs with hsent
        · exact step_take state platform userId browser hrequest hsent
        · exact .idle _
      · exact .idle _
  | serve index =>
      unfold step
      dsimp only
      split
      · exact .idle _
      · rename_i request hrequest
        split
        · rename_i incoming rest outcomes hserving
          cases rest with
          | nil => exact .finished hrequest hserving
          | cons change rest => exact .served hrequest hserving rfl
        · exact .idle _
        · exact .idle _
  | answer index =>
      unfold step
      dsimp only
      split
      · exact .idle _
      · rename_i drain hdrain
        split
        · rename_i number hphase
          split
          · rename_i outcomes hservice
            obtain ⟨request, hrequest, hanswered⟩ := Option.map_eq_some_iff.mp hservice
            exact .answered _ index (List.mem_of_getElem? hrequest) hanswered
          · exact .idle _
          · exact .idle _
          · exact .idle _
        · exact .idle _
        · exact .idle _
        · exact .idle _
  | forget index deleted =>
      unfold step
      dsimp only
      split
      · exact .idle _
      · rename_i drain hdrain
        split
        · rename_i localId rest hphase
          exact .forgot _ (List.mem_of_getElem? hdrain) hphase deleted
        · exact .turned _ index (by rintro _ ⟨⟩)
        · exact .idle _
        · exact .idle _
        · exact .idle _
  | leave index =>
      unfold step
      dsimp only
      split
      · exact .idle _
      · exact .turned _ index (by rintro _ ⟨⟩)
  | live database => exact .elsewhere _ (.of_marks_eq rfl)
  | otherTake worldId => exact .elsewhere _ (.takeReconnectSeq _ worldId)
  | otherServe worldId other incoming change => exact .elsewhere _ (descends_applyChange ..)

section Uninterrupted

variable {state : Offline} {platform : Platform} {userId : Uuid} {browser : Browser} {index : Nat} {request : Request}

theorem run_serve_answered {outcomes : List ReconcileOutcome} (hrequest : state.requests[index]? = some request)
    (hanswered : request.service = .answered outcomes) (count : Nat) :
    Run.run (step platform userId browser) state (List.replicate count (.serve index)) = state := by
  have hstep (reached : Offline) (act : OfflineStep) (hreached : reached = state) (hact : act = .serve index) :
      step platform userId browser reached act = state := by
    subst hreached hact
    unfold step
    simp only [hrequest, hanswered]
  exact Run.invariant_of_mem hstep rfl fun act hact => List.eq_of_mem_replicate hact

theorem step_serve {incoming : Contender} {rest : List QueuedChangeInput} {outcomes : List ReconcileOutcome}
    (hrequest : state.requests[index]? = some request) (hserving : request.service = .serving incoming rest outcomes) :
    step platform userId browser state (.serve index) =
      state.serve platform userId index request incoming outcomes rest := by
  unfold step
  simp only [hrequest, hserving]

theorem run_serve {incoming : Contender} {rest : List QueuedChangeInput} {outcomes : List ReconcileOutcome}
    (hrequest : state.requests[index]? = some request) (hserving : request.service = .serving incoming rest outcomes) :
    let served := Run.run (step platform userId browser) state (List.replicate (rest.length + 1) (.serve index))
    let applied := applyChanges platform request.worldId userId incoming state.server rest
    served.server = applied.1 ∧
      served.requests[index]? = some { request with service := .answered (outcomes ++ applied.2) } := by
  dsimp only
  have hlt := (List.getElem?_eq_some_iff.mp hrequest).1
  induction rest generalizing state request outcomes with
  | nil =>
      rw [List.length_nil, List.replicate_one, Run.run_cons, Run.run_nil, step_serve hrequest hserving]
      refine ⟨rfl, ?_⟩
      rw [applyChanges, List.append_nil]
      exact List.getElem?_set_self hlt
  | cons change rest ih =>
      rw [List.length_cons, List.replicate_succ, Run.run_cons, step_serve hrequest hserving]
      have hnext : (state.serve platform userId index request incoming outcomes (change :: rest)).requests[index]? =
          some { request with
            service := .serving incoming rest
              (outcomes ++ [(applyChange platform request.worldId userId incoming state.server change).2]) } :=
        List.getElem?_set_self hlt
      obtain ⟨hdone, hanswered⟩ := ih hnext rfl (List.getElem?_eq_some_iff.mp hnext).1
      refine ⟨hdone, hanswered.trans ?_⟩
      rw [List.append_assoc]
      rfl

/-- A call that nothing comes between is what `reconcileQueuedChanges` makes of it. -/
theorem run_take_serve (hrequest : state.requests[index]? = some request) (hsent : request.service = .sent) :
    let served := Run.run (step platform userId browser) state
      (.take index :: List.replicate (request.changes.length + 1) (.serve index))
    let reconciled := reconcileQueuedChanges platform state.server userId request.worldId request.changes
    served.server = reconciled.1 ∧
      served.requests[index]? = some { request with service := .answered reconciled.2 } := by
  dsimp only
  have hlt := (List.getElem?_eq_some_iff.mp hrequest).1
  have hset (service : Service) : (state.setService index request service).requests[index]? =
      some { request with service } := List.getElem?_set_self hlt
  rw [Run.run_cons]
  have htake : step platform userId browser state (.take index) = state.take userId index request := by
    unfold step
    simp only [hrequest, hsent, if_true]
  rw [htake]
  unfold Offline.take reconcileQueuedChanges
  cases hmember : state.server.database.requireWorldMember userId request.worldId with
  | none =>
      dsimp only
      rw [run_serve_answered (hset _) rfl]
      exact ⟨rfl, hset _⟩
  | some memberRole =>
      dsimp only
      split_ifs
      · rw [run_serve_answered (hset _) rfl]
        exact ⟨rfl, hset _⟩
      · have hserving : ({ state.setService index request
              (.serving { role := roleFromMembership memberRole,
                          reconnectSeq := state.server.marks.nextSeq request.worldId } request.changes []) with
            server := (state.server.takeReconnectSeq request.worldId).1 } : Offline).requests[index]? = some _ := hset _
        exact run_serve hserving rfl

end Uninterrupted

end Offline

/-- Move token 7 to x = 5.5. -/
def moveCommand : Json :=
  upsertCommand "00000000-0000-0000-0000-000000000007" [("x", .float 0x4016000000000000)]

def moveText : String :=
  "\x7b\"token\":\x7b\"id\":\"00000000-0000-0000-0000-000000000007\",\"x\":5.5\x7d,\"type\":\"upsert_token\"\x7d"

def movesText : Browser := .reading [(moveText, moveCommand)]

def readsMove : Platform :=
  .reading [(moveCommand, { kind := "upsert_token", token := { tokenId := 7, x := some 0x4016000000000000 } })]

/-- One change, submitted again after the answer was lost. -/
def lostAnswer : List OfflineStep :=
  [.note 2 1 moveText .player, .put 0, .open 2, .pass 0, .take 0, .serve 0, .serve 0, .leave 0,
    .open 2, .pass 1, .take 1, .serve 1, .serve 1, .answer 1, .forget 1 true]

end ThunderForge.Reconcile
