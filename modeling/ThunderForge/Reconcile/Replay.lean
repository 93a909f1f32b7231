import ThunderForge.Reconcile.Server

/-! `reconcile_queued_changes` (`graphql/mutations_reconcile.rs`): what a queued change asks for, the
rules one token edit and one queued attack are decided by, and a whole batch. -/

namespace ThunderForge.Reconcile

/-- Why a queued change did not stand. -/
inductive RejectionReason where
  | permissionDenied
  | superseded
  | goneAway
  | invalid
  | playPaused
  | notYourTurn
  deriving DecidableEq

/-- An outcome a client reports for a change it made while server-isolated. -/
structure ReportedOutcomeInput where
  kind : String
  version : Int
  recordId : Option Uuid
  value : Option F64
  deriving DecidableEq

/-- One change made while disconnected. -/
structure QueuedChangeInput where
  localId : String
  command : Json
  attributedToUserId : Option Uuid := none
  reportedOutcome : Option ReportedOutcomeInput := none
  deriving DecidableEq

/-- A client reported one value; the server determined another. -/
structure Discrepancy where
  userId : Uuid
  recordId : Uuid
  reportedValue : F64
  determinedValue : F64
  deriving DecidableEq

/-- What became of one queued change. -/
structure ReconcileOutcome where
  localId : String
  applied : Bool
  reason : Option RejectionReason := none
  supersededByRole : Option String := none
  discrepancy : Option Discrepancy := none
  refusal : Option String := none
  deriving DecidableEq

namespace ReconcileOutcome

def accepted (localId : String) : ReconcileOutcome := { localId, applied := true }

def rejected (localId : String) (reason : RejectionReason) : ReconcileOutcome :=
  { localId, applied := false, reason := some reason }

def notYourTurn (localId refusal : String) : ReconcileOutcome :=
  { rejected localId .notYourTurn with refusal := some refusal }

def roleName : Role → String
  | .gameMaster => "GameMaster"
  | .player => "Player"

def superseded (localId : String) (role : Role) : ReconcileOutcome :=
  { rejected localId .superseded with supersededByRole := some (roleName role) }

/-- Attach a disclosure to whatever became of the change. -/
def disclosing (outcome : ReconcileOutcome) (discrepancy : Option Discrepancy) : ReconcileOutcome :=
  { outcome with discrepancy }

end ReconcileOutcome

/-- What a queued change is asking of a token. -/
structure TokenEdit where
  tokenId : Uuid
  x : Option F64 := none
  y : Option F64 := none
  rotation : Option F64 := none
  scale : Option F64 := none
  deriving DecidableEq

namespace TokenEdit

variable (edit : TokenEdit)

/-- Position only: rotation and scale are not a move. -/
def moves : Bool := edit.x.isSome || edit.y.isSome

/-- The fields named take their values, the others stay. -/
def applyTo (pose : Pose) : Pose where
  x := edit.x.getD pose.x
  y := edit.y.getD pose.y
  rotation := edit.rotation.getD pose.rotation
  scale := edit.scale.getD pose.scale

end TokenEdit

/-- `UpsertTokenCommand` as it is read off the wire. -/
structure UpsertTokenCommand where
  kind : String
  token : TokenEdit

/-- `AttackIntentCommand` as it is read off the wire. -/
structure AttackIntentCommand where
  kind : String
  tokenId : Uuid
  abilityId : Option Uuid
  itemId : Option Uuid
  targetTokenId : Option Uuid
  targets : Option (List Uuid)
  actionCost : Option String

inductive ActionCost where
  | action
  | bonusAction
  | reaction
  | legendary
  | free
  deriving DecidableEq

inductive Attacker where
  | token (tokenId : Uuid)
  | lair (combatantId : Uuid)
  deriving DecidableEq

/-- What an attack is asked to be. -/
structure AttackRequest where
  attacker : Attacker
  abilityId : Option Uuid
  itemId : Option Uuid
  targetTokenId : Option Uuid
  targets : Option (List Uuid)
  actionCost : Option ActionCost
  deriving DecidableEq

/-- Why a fight's rule refused. -/
inductive FightRefusal where
  | paused
  | notYourTurn (sentence : String)
  | notControlled
  | notFound (sentence : String)
  | invalid (sentence : String)
  | failed (sentence : String)
  | notAdopted
  deriving DecidableEq

/-- What an attack is made with: what it costs by itself, and how many parts it makes. -/
structure Weapon where
  actionCost : ActionCost
  parts : Except FightRefusal Nat

/-- What one part of an attack comes to: the rolls it records and, when it hits and its damage is applied
at once, what the damage makes of a record of hit points. -/
structure Struck where
  rolls : List (Uuid × RollRecord)
  damage : Option (Json → Option Json)

/-- What replay takes from elsewhere: how JSON is read into a command, when two floats are further apart
than a round trip leaves them, a weapon's data, and what the dice and the packs make of one part. -/
structure Platform where
  upsertToken : Json → Option UpsertTokenCommand
  attackIntent : Json → Option AttackIntentCommand
  differ : F64 → F64 → Bool
  findWeapon : Database → TokenControl → Bool → AttackRequest → Except FightRefusal Weapon
  strike : Database → AttackRequest → Nat → Except FightRefusal Struck

/-- `f64::is_finite`. -/
def isFinite (value : F64) : Bool := value.extractLsb' 52 11 ≠ BitVec.allOnes 11

/-- `CHECK (scale > 0)`, on the numbers JSON can carry. -/
def isPositive (value : F64) : Bool := value ≠ 0 && !value.msb

def Server.updateToken (server : Server) (edit : TokenEdit) : Option Server :=
  match server.database.tokens edit.tokenId with
  | none => some server
  | some token =>
    let pose := edit.applyTo token.toPose
    if isPositive pose.scale then some (server.writeToken edit.tokenId { token with toPose := pose })
    else none

/-- Owner and Game Master are the Game Master's side of the table; everyone else a player's. -/
def roleFromMembership (memberRole : String) : Role :=
  if (Authz.Role.fromStored memberRole).any Authz.Role.runsTheWorld then .gameMaster else .player

section Changes

variable (platform : Platform)

/-- Interpret a queued command as a token edit: the one kind, naming at least one field. -/
def parseTokenEdit (command : Json) : Option TokenEdit :=
  (platform.upsertToken command).bind fun parsed =>
    if parsed.kind ≠ "upsert_token" then none
    else if parsed.token.x.isNone && parsed.token.y.isNone && parsed.token.rotation.isNone &&
      parsed.token.scale.isNone then none
    else some parsed.token

/-- What an action cost is spelled as, in any case. -/
def actionCostOf (spelled : String) : Option ActionCost :=
  let upper := spelled.map Char.toUpper
  if upper = "ACTION" then some .action
  else if upper = "BONUS_ACTION" then some .bonusAction
  else if upper = "REACTION" then some .reaction
  else if upper = "LEGENDARY" then some .legendary
  else if upper = "FREE" then some .free
  else none

/-- Interpret a queued command as an attack made by a creature. -/
def parseAttackIntent (command : Json) : Option AttackRequest :=
  (platform.attackIntent command).bind fun parsed =>
    let request (actionCost : Option ActionCost) : AttackRequest :=
      { attacker := .token parsed.tokenId
        abilityId := parsed.abilityId
        itemId := parsed.itemId
        targetTokenId := parsed.targetTokenId
        targets := parsed.targets
        actionCost }
    if parsed.kind ≠ "make_attack" then none
    else match parsed.actionCost with
      | none => some (request none)
      | some spelled => (actionCostOf spelled).map fun cost => request (some cost)

def reportedOutcomeVersion : Int := 1

def reportedOutcomeKindDice : String := "dice"

/-- The record a reported outcome is about and the value it claims, when it can be read. -/
def parseReportedOutcome (input : ReportedOutcomeInput) : Option (Uuid × F64) :=
  if input.version ≠ reportedOutcomeVersion then none
  else if input.kind ≠ reportedOutcomeKindDice then none
  else input.value.bind fun claimed =>
    if isFinite claimed then input.recordId.map fun recordId => (recordId, claimed) else none

/-- What the server itself recorded for a roll in this world. -/
def determinedRollValue (db : Database) (worldId recordId : Uuid) : Option F64 :=
  ((db.rolls recordId).filter fun roll => roll.worldId = worldId && isFinite roll.resultValue).map
    RollRecord.resultValue

/-- Compare a reported outcome against the server's own. -/
def detectDiscrepancy (db : Database) (worldId subjectUser : Uuid)
    (reported : Option ReportedOutcomeInput) : Option Discrepancy :=
  (reported.bind parseReportedOutcome).bind fun (recordId, claimed) =>
    (determinedRollValue db worldId recordId).bind fun determined =>
      if platform.differ claimed determined then
        some { userId := subjectUser, recordId, reportedValue := claimed, determinedValue := determined }
      else none

/-- Who a change is for: the submitter unless it names someone else. -/
def subjectUser (userId : Uuid) (change : QueuedChangeInput) : Uuid :=
  change.attributedToUserId.getD userId

/-- Naming someone else is a Game Master's prerogative. -/
def mayAttribute (userId : Uuid) (role : Role) (change : QueuedChangeInput) : Bool :=
  subjectUser userId change = userId || role = .gameMaster

/-- The rules a token edit is refused by before anybody else's edit is looked at. -/
def adjudicate (db : Database) (userId : Uuid) (role : Role) (change : QueuedChangeInput) :
    Except ReconcileOutcome TokenEdit :=
  match parseTokenEdit platform change.command with
  | none => .error (.rejected change.localId .invalid)
  | some edit =>
    match db.tokens edit.tokenId with
    | none => .error (.rejected change.localId .goneAway)
    | some existing =>
      -- The world is never asked: a Game Master may edit every token there is.
      if role = .player ∧ existing.ownerUserId ≠ some userId then
        .error (.rejected change.localId .permissionDenied)
      else if edit.moves then
        match (turnCheck db existing.sceneId edit.tokenId (subjectUser userId change)).refusal with
        | some sentence => .error (.notYourTurn change.localId sentence)
        | none => .ok edit
      else .ok edit

/-- The role of the earlier edit that takes precedence over this one, if there is such an edit. -/
def supersededBy (server : Server) (worldId tokenId : Uuid) (incoming : Contender) : Option Role :=
  match server.existingMark worldId tokenId with
  | none => none
  | some previous => if resolve previous incoming = .a then some previous.role else none

/-- Adjudicate and apply one queued token edit. -/
def applyOne (worldId userId : Uuid) (incoming : Contender) (server : Server) (change : QueuedChangeInput) :
    Server × ReconcileOutcome :=
  if !mayAttribute userId incoming.role change then (server, .rejected change.localId .permissionDenied)
  else
    let discrepancy := match incoming.role with
      | .gameMaster => detectDiscrepancy platform server.database worldId (subjectUser userId change)
          change.reportedOutcome
      | .player => none
    match adjudicate platform server.database userId incoming.role change with
    | .error outcome => (server, outcome.disclosing discrepancy)
    | .ok edit =>
      match supersededBy server worldId edit.tokenId incoming with
      | some role => (server, (ReconcileOutcome.superseded change.localId role).disclosing discrepancy)
      | none =>
        match server.updateToken edit with
        | none => (server, (ReconcileOutcome.rejected change.localId .invalid).disclosing discrepancy)
        | some updated => (updated.rememberMark worldId edit.tokenId incoming,
            (ReconcileOutcome.accepted change.localId).disclosing discrepancy)

/-- The target of one part: its own, else the attack's. -/
def targetOf (request : AttackRequest) (index : Nat) : Option Uuid :=
  (request.targets.bind (·[index]?)).or request.targetTokenId

/-- Every target is on the attacker's scene. -/
def targetsOnScene (db : Database) (request : AttackRequest) (parts : Nat) (sceneId : Uuid) : Bool :=
  (List.range parts).all fun index => (targetOf request index).all fun target =>
    (db.tokens target).any fun token => token.sceneId = sceneId

/-- Damage to a creature: a linked token's is its actor's sheet, which is no token; an unlinked copy keeps
its own record, and one that has none leaves the offer for a person. -/
def applyHitPointChange (db : Database) (tokenId : Uuid) (change : Json → Option Json) : Database :=
  match db.tokens tokenId with
  | none => db
  | some token =>
    if token.linked then db
    else match token.systemData.bind change with
      | none => db
      | some written => { db with
          tokens := Function.update db.tokens tokenId (some { token with systemData := some written }) }

def recordRolls (db : Database) (rolls : List (Uuid × RollRecord)) : Database :=
  { db with rolls := rolls.foldl (fun table (id, roll) => Function.update table id (some roll)) db.rolls }

/-- Roll and record one part of an attack. -/
def recordPart (request : AttackRequest) (db : Database) (index : Nat) : Except FightRefusal Database :=
  (platform.strike db request index).map fun struck =>
    match targetOf request index, struck.damage with
    | some target, some damage => applyHitPointChange (recordRolls db struck.rolls) target damage
    | _, _ => recordRolls db struck.rolls

/-- Only turn order refuses, and a reaction is taken between turns. -/
def holdToTurn (db : Database) (sceneId attackerTokenId userId : Uuid) (cost : ActionCost) :
    Except FightRefusal Unit :=
  if cost = .reaction then .ok ()
  else match (turnCheck db sceneId attackerTokenId userId).refusal with
    | some sentence => .error (.notYourTurn sentence)
    | none => .ok ()

/-- Make a creature's attack: who may, whose turn it is, where the targets are, and then every part in one
transaction. -/
def makeAttack (db : Database) (userId attackerTokenId : Uuid) (request : AttackRequest) :
    Except FightRefusal Database :=
  match db.tokens attackerTokenId, tokenControl db attackerTokenId with
  | some attacker, some control =>
    if db.paused control.worldId then .error .paused
    else if !mayActFor db userId control then .error .notControlled
    else do
      let weapon ← platform.findWeapon db control (db.runsTheWorld userId control.worldId) request
      holdToTurn db attacker.sceneId attackerTokenId userId (request.actionCost.getD weapon.actionCost)
      let parts ← weapon.parts
      if targetsOnScene db request parts attacker.sceneId then
        (List.range parts).foldlM (recordPart platform request) db
      else .error (.notFound "That target is not on this scene")
  | _, _ => .error (.notFound "That creature is not on the board")

/-- The outcome a refused attack is reported as. -/
def fightOutcome (localId : String) : FightRefusal → ReconcileOutcome
  | .notYourTurn sentence => .notYourTurn localId sentence
  | .notControlled | .notAdopted => .rejected localId .permissionDenied
  | .paused => .rejected localId .playPaused
  | .notFound _ => .rejected localId .goneAway
  | .invalid _ | .failed _ => .rejected localId .invalid

/-- Resolve a queued attack: its attacker must be in the world this batch is for. -/
def applyAttackIntent (worldId userId : Uuid) (role : Role) (server : Server) (change : QueuedChangeInput)
    (intent : AttackRequest) : Server × ReconcileOutcome :=
  if !mayAttribute userId role change then (server, .rejected change.localId .permissionDenied)
  else match intent.attacker with
    | .lair _ => (server, .rejected change.localId .invalid)
    | .token attackerTokenId =>
      match tokenControl server.database attackerTokenId with
      | none => (server, .rejected change.localId .goneAway)
      | some control =>
        if control.worldId ≠ worldId then (server, .rejected change.localId .goneAway)
        else match makeAttack platform server.database (subjectUser userId change) attackerTokenId intent with
          | .error refusal => (server, fightOutcome change.localId refusal)
          | .ok database => ({ server with database }, .accepted change.localId)

/-- One queued change: an attack, or else a token edit. -/
def applyChange (worldId userId : Uuid) (incoming : Contender) (server : Server)
    (change : QueuedChangeInput) : Server × ReconcileOutcome :=
  match parseAttackIntent platform change.command with
  | some intent => applyAttackIntent platform worldId userId incoming.role server change intent
  | none => applyOne platform worldId userId incoming server change

/-- A batch in submitted order, one outcome each. -/
def applyChanges (worldId userId : Uuid) (incoming : Contender) (server : Server) :
    List QueuedChangeInput → Server × List ReconcileOutcome
  | [] => (server, [])
  | change :: rest =>
    let (next, outcome) := applyChange platform worldId userId incoming server change
    let (last, outcomes) := applyChanges worldId userId incoming next rest
    (last, outcome :: outcomes)

/-- Replay changes made while disconnected, and report what became of each. -/
def reconcileQueuedChanges (server : Server) (userId worldId : Uuid) (changes : List QueuedChangeInput) :
    Server × List ReconcileOutcome :=
  match server.database.requireWorldMember userId worldId with
  | none => (server, changes.map fun change => .rejected change.localId .permissionDenied)
  | some memberRole =>
    if server.database.paused worldId then
      (server, changes.map fun change => .rejected change.localId .playPaused)
    else
      let (taken, reconnectSeq) := server.takeReconnectSeq worldId
      applyChanges platform worldId userId { role := roleFromMembership memberRole, reconnectSeq } taken changes

end Changes

/-- A queued token command, with its fields as JSON has them. -/
def upsertCommand (id : String) (fields : List (String × Json)) : Json :=
  .object [("token", .object (("id", .string id) :: fields)), ("type", .string "upsert_token")]

/-- A platform on which these are the token commands queued, and nobody carries a weapon. -/
def Platform.reading (commands : List (Json × UpsertTokenCommand)) : Platform where
  upsertToken command := commands.lookup command
  attackIntent _ := none
  differ _ _ := false
  findWeapon _ _ _ _ := .error (.notFound "No such attack")
  strike _ _ _ := .error (.failed "Failed to record the roll")

/-- A token of scene 200 that user 30 plays with. -/
def tokenSeven : Token where
  x := 0
  y := 0
  rotation := 0
  scale := 0x3ff0000000000000
  sceneId := 200
  actorId := none
  ownerUserId := some 30
  nameVisibleToPlayers := true
  linked := false
  systemData := none

/-- Two worlds, each run by the user who created it. The second has one player and one token. -/
def twoTables : Server where
  database :=
    { tokens := fun id => if id = 7 then some tokenSeven else none
      scenes := fun id => if id = 100 then some 1 else if id = 200 then some 2 else none
      worlds := fun id => if id = 1 then some { createdBy := 10, members := fun _ => none, paused := false }
        else if id = 2 then some
          { createdBy := 20, members := fun id => if id = 30 then some "Player" else none, paused := false }
        else none
      actors := fun _ => none
      actorPermissions := fun _ _ => none
      combats := []
      combatants := []
      rolls := fun _ => none }
  marks := { nextSeq := fun _ => 0, marks := fun _ _ => none }

/-- Move that token to x = 5. -/
def moveRight : QueuedChangeInput where
  localId := "a"
  command := upsertCommand "00000000-0000-0000-0000-000000000007" [("x", .float 0x4014000000000000)]

def readsMoveRight : Platform :=
  .reading [(moveRight.command, { kind := "upsert_token", token := { tokenId := 7, x := some 0x4014000000000000 } })]

end ThunderForge.Reconcile
