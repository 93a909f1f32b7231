import ThunderForge.Basic
import ThunderForge.Lib.Transaction

/-! Claims on actors and the access that goes with them: claiming, creating and claiming, releasing,
binding, and the grants a Game Master sets by hand. The members and worlds are a parameter. -/

namespace ThunderForge.Actors

/-- The roles a person can hold in a world, lowest first. -/
inductive Role where
  | player
  | trustedPlayer
  | gameMaster
  | owner
  deriving DecidableEq

def Role.fromStored (stored : String) : Option Role :=
  if stored = "Owner" then some .owner
  else if stored = "GM" then some .gameMaster
  else if stored = "TrustedPlayer" then some .trustedPlayer
  else if stored = "Player" then some .player
  else none

def Role.runsTheWorld : Role → Bool
  | player | trustedPlayer => false
  | gameMaster | owner => true

inductive ActorPermissionLevel where
  | viewer
  | editor
  | owner
  deriving DecidableEq

def ActorPermissionLevel.rank : ActorPermissionLevel → Nat
  | viewer => 0
  | editor => 1
  | owner => 2

structure WorldMember where
  id : Uuid
  worldId : Uuid
  userId : Uuid
  role : String

structure World where
  createdBy : Uuid
  allowPlayerCreatedActors : Bool
  gameSystemId : Option String
  firstScene : Option Uuid
  paused : Bool

/-- What the calls read and do not write. -/
structure Table where
  members : List WorldMember
  memberIds : (members.map (·.id)).Nodup
  worlds : Uuid → Option World
  userExists : Uuid → Bool

/-- An actor, but for its id. -/
structure WorldActor where
  worldId : Uuid
  sceneId : Uuid
  actorType : String
  gameSystemId : Option String
  label : String
  createdBy : Uuid
  ownedBy : Uuid
  isPublic : Bool
  isNpc : Bool
  description : Option String
  visibleToPlayers : Bool
  isUnique : Bool
  availableForClaim : Bool
  deriving DecidableEq

structure ActorClaim where
  actorId : Uuid
  worldMemberId : Uuid
  deriving DecidableEq

structure ActorPermission where
  level : ActorPermissionLevel
  grantedByClaim : Bool
  deriving DecidableEq

/-- The tables the calls write; there is one permission row for an actor and a user. -/
structure Database where
  actors : Uuid → Option WorldActor
  claims : List ActorClaim
  permissions : Uuid → Uuid → Option ActorPermission

def Database.setPermission (db : Database) (actorId userId : Uuid) (row : Option ActorPermission) : Database :=
  { db with permissions := fun actorId' userId' =>
      if actorId' = actorId ∧ userId' = userId then row else db.permissions actorId' userId' }

@[simp] theorem Database.permissions_setPermission (db : Database) (actorId userId : Uuid)
    (row : Option ActorPermission) (actorId' userId' : Uuid) :
    (db.setPermission actorId userId row).permissions actorId' userId' =
      if actorId' = actorId ∧ userId' = userId then row else db.permissions actorId' userId' := rfl

@[simp] theorem Database.claims_setPermission (db : Database) (actorId userId : Uuid)
    (row : Option ActorPermission) : (db.setPermission actorId userId row).claims = db.claims := rfl

def Database.addClaim (db : Database) (claim : ActorClaim) : Database :=
  { db with claims := db.claims ++ [claim] }

@[simp] theorem Database.claims_addClaim (db : Database) (claim : ActorClaim) :
    (db.addClaim claim).claims = db.claims ++ [claim] := rfl

@[simp] theorem Database.permissions_addClaim (db : Database) (claim : ActorClaim) :
    (db.addClaim claim).permissions = db.permissions := rfl

/-- A row a statement can lock. -/
inductive Row where
  | actor (id : Uuid)
  | claim (actorId : Uuid)
  | permission (actorId userId : Uuid)
  deriving DecidableEq

/-- An error with its extension code. -/
structure GraphQLError where
  message : String
  code : Option String
  deriving DecidableEq

inductive ClaimError where
  | alreadyClaimed
  | claimChanged
  | paused
  | message (text : String)
  deriving DecidableEq

def playPaused : GraphQLError where
  message := "Play in this world has been paused by an operator."
  code := some "WORLD_PLAY_PAUSED"

def ClaimError.toError : ClaimError → GraphQLError
  | alreadyClaimed => ⟨"That character is already played by someone else", some "ALREADY_CLAIMED"⟩
  | claimChanged => ⟨"That character's player has changed since this page was loaded", some "CLAIM_CHANGED"⟩
  | paused => playPaused
  | .message text => ⟨text, none⟩

structure Caller where
  userId : Uuid
  isAdmin : Bool

/-- What a call that succeeds answers. -/
inductive Answer where
  | claim (claim : ActorClaim) (claimedByUserId : Uuid)
  | actor (actor : WorldActor)
  | bound (actor : Option WorldActor)
  | permission (permission : ActorPermission)
  | removed (removed : Bool)

abbrev Query (ε α : Type) := Transaction Database Row ε α

variable (table : Table)

/-- The user a membership belongs to. -/
def Table.userOf (memberId : Uuid) : Option Uuid :=
  (table.members.find? fun member => member.id = memberId).map (·.userId)

def requireWorldMember (userId worldId : Uuid) : Option String :=
  match table.members.find? fun member => member.worldId = worldId && member.userId = userId with
  | some member => some member.role
  | none => if (table.worlds worldId).any fun world => world.createdBy = userId then some "Owner" else none

def isDmOfWorld (caller : Caller) (worldId : Uuid) : Bool :=
  caller.isAdmin || ((requireWorldMember table caller.userId worldId).bind Role.fromStored).any Role.runsTheWorld

def isPaused (worldId : Uuid) : Bool := (table.worlds worldId).any (·.paused)

/-- The level a user's row on an actor gives. -/
def grantedLevel (db : Database) (actorId userId : Uuid) : ActorPermissionLevel :=
  (db.permissions actorId userId).elim .viewer (·.level)

def loadActor {ε : Type} (actorId : Uuid) (error : ε) : Query ε WorldActor := do
  let row ← .read fun db => db.actors actorId
  .getOr row error

/-- The claim, unless the actor or the member is taken: `INSERT … ON CONFLICT DO NOTHING`. -/
def bindClaim (actorId memberId : Uuid) : Query ClaimError (Option ActorClaim) :=
  let free (db : Database) : Bool :=
    db.claims.all fun claim => claim.actorId ≠ actorId && claim.worldMemberId ≠ memberId
  .write (fun db => if free db then [.claim actorId] else [])
    (fun db => .ok (if free db then some ⟨actorId, memberId⟩ else none))
    fun db => if free db then db.addClaim ⟨actorId, memberId⟩ else db

/-- Change the row of one actor and user. -/
def updatePermission {ε : Type} (actorId userId : Uuid) (f : Option ActorPermission → Option ActorPermission) :
    Query ε Unit :=
  .write (fun _ => [.permission actorId userId]) (fun _ => .ok ())
    fun db => db.setPermission actorId userId (f (db.permissions actorId userId))

/-- A row below Editor, or none, becomes an Editor row that is the claim's. -/
def claimed : Option ActorPermission → Option ActorPermission
  | none => some ⟨.editor, true⟩
  | some row => if row.level ≠ .editor ∧ row.level ≠ .owner then some ⟨.editor, true⟩ else some row

def grantClaimAccess (actorId userId : Uuid) : Query ClaimError Unit := updatePermission actorId userId claimed

def revokeClaimAccess (actorId userId : Uuid) : Query ClaimError Unit :=
  updatePermission actorId userId (·.filter (!·.grantedByClaim))

def explainFailedBind (actorId : Uuid) : Query ClaimError ClaimError :=
  .read fun db => if db.claims.any fun claim => claim.actorId = actorId then .alreadyClaimed
    else .message "That player already plays another character"

def requireNoExistingClaim (worldId userId : Uuid) : Query ClaimError WorldMember := do
  let member ← .getOr (table.members.find? fun member => member.worldId = worldId && member.userId = userId)
    (.message "You are not a member of this world")
  .require ((Role.fromStored member.role).any Role.runsTheWorld = false)
    (.message "The GM does not claim characters")
  let alreadyClaimed ← .read fun db => db.claims.countP fun claim => claim.worldMemberId = member.id
  .require (alreadyClaimed = 0) (.message "You have already claimed a character in this world")
  return member

/-- Bind a member to an actor and give the member's user access, or say why not. -/
def bindAndGrant (actorId : Uuid) (member : WorldMember) : Query ClaimError ActorClaim := do
  match ← bindClaim actorId member.id with
  | some claim =>
    grantClaimAccess actorId member.userId
    return claim
  | none =>
    let error ← explainFailedBind actorId
    .fail error

def claimActor (userId worldId actorId : Uuid) : Query GraphQLError Answer :=
  .mapError ClaimError.toError do
    let member ← requireNoExistingClaim table worldId userId
    .require (isPaused table worldId = false) .paused
    let actor ← loadActor actorId (.message "Actor not found in this world")
    .require (actor.worldId = worldId) (.message "Actor not found in this world")
    .require (actor.isNpc = false ∧ actor.availableForClaim = true)
      (.message "This character is not available to claim")
    let claim ← bindAndGrant actorId member
    return .claim claim userId

/-- The row of a new actor, under an id minted for it. -/
def insertActor (actorId : Uuid) (actor : WorldActor) : Query ClaimError Unit :=
  .write (fun _ => [.actor actorId])
    (fun db => if (db.actors actorId).isSome then .error (.message "Failed to create character") else .ok ())
    fun db => { db with actors := Function.update db.actors actorId (some actor) }

def flagAvailable (actorId : Uuid) : Query ClaimError Unit :=
  .write (fun _ => [.actor actorId]) (fun _ => .ok ())
    fun db => { db with
      actors := Function.update db.actors actorId ((db.actors actorId).map ({ · with availableForClaim := true })) }

def createAndClaimActor (actorId userId worldId : Uuid) (name : String) (description : Option String) :
    Query GraphQLError Answer := do
  .require (trim name ≠ "") ⟨"Character name must not be empty", none⟩
  .mapError ClaimError.toError do
    let member ← requireNoExistingClaim table worldId userId
    .require (isPaused table worldId = false) .paused
    let world ← .getOr (table.worlds worldId) (.message "World not found")
    .require (world.allowPlayerCreatedActors = true)
      (.message "This world's GM has not enabled player-created characters")
    let sceneId ← .getOr world.firstScene (.message "World has no scenes to assign the new character to")
    insertActor actorId
      { worldId, sceneId, actorType := "character", gameSystemId := some (world.gameSystemId.getD "generic")
        label := name, createdBy := userId, ownedBy := userId, isPublic := false, isNpc := false, description
        visibleToPlayers := false, isUnique := false, availableForClaim := false }
    flagAvailable actorId
    let claim ← bindAndGrant actorId member
    return .claim claim userId

/-- The members a deletion of an actor's claim has released. -/
def deleteClaims (released : ActorClaim → Bool) : Query ClaimError (List ActorClaim) :=
  .write (fun db => (db.claims.filter released).map fun claim => .claim claim.actorId)
    (fun db => .ok (db.claims.filter released))
    fun db => { db with claims := db.claims.filter (!released ·) }

def effectiveActorPermission (caller : Caller) (actorId : Uuid) : Query GraphQLError ActorPermissionLevel := do
  let actor ← loadActor actorId ⟨"Actor not found", none⟩
  if isDmOfWorld table caller actor.worldId then return .owner
  else .read fun db => grantedLevel db actorId caller.userId

def requireActorPermission (caller : Caller) (actorId : Uuid) (minimum : ActorPermissionLevel) :
    Query GraphQLError Unit := do
  let level ← effectiveActorPermission table caller actorId
  .require (minimum.rank ≤ level.rank)
    ⟨"You do not have sufficient permission on this actor", some "FORBIDDEN"⟩

def refuseContentIfPaused (actorId : Uuid) : Query GraphQLError Unit := do
  let actor ← .read fun db : Database => db.actors actorId
  .require (actor.all fun actor => isPaused table actor.worldId = false) playPaused

def unclaimActor (caller : Caller) (actorId : Uuid) (expectedWorldMemberId : Option Uuid) :
    Query GraphQLError Answer := do
  requireActorPermission table caller actorId .owner
  refuseContentIfPaused table actorId
  .mapError ClaimError.toError do
    let released ← deleteClaims fun claim =>
      claim.actorId = actorId && expectedWorldMemberId.all fun memberId => claim.worldMemberId = memberId
    .require (released ≠ [] ∨ expectedWorldMemberId = none) .claimChanged
    .forEach (fun claim => do
      let holderId ← .getOr (table.userOf claim.worldMemberId) (.message "Record not found")
      revokeClaimAccess actorId holderId) released
    let actor ← loadActor actorId (.message "Actor not found after unclaim")
    return .actor actor

def setPlayerCharacterBinding (caller : Caller) (worldId worldMemberId : Uuid) (actorId : Option Uuid) :
    Query GraphQLError Answer := do
  .require (isDmOfWorld table caller worldId = true)
    ⟨"Only Owners and GMs can set a player's character", some "FORBIDDEN"⟩
  .require (isPaused table worldId = false) playPaused
  .mapError ClaimError.toError do
    let member ← .getOr (table.members.find? fun member => member.id = worldMemberId && member.worldId = worldId)
      (.message "That player is not a member of this world")
    let released ← deleteClaims fun claim => claim.worldMemberId = member.id
    .forEach (fun claim => revokeClaimAccess claim.actorId member.userId) released
    match actorId with
    | none => return .bound none
    | some actorId =>
      let actor ← loadActor actorId (.message "Character not found in this world")
      .require (actor.worldId = worldId) (.message "Character not found in this world")
      .require (actor.isNpc = false) (.message "An NPC cannot be given to a player")
      let _ ← bindAndGrant actorId member
      return .bound (some actor)

def requireDmOfActorsWorld (caller : Caller) (actorId : Uuid) : Query GraphQLError Uuid := do
  let actor ← loadActor actorId ⟨"Actor not found", none⟩
  .require (isDmOfWorld table caller actor.worldId = true)
    ⟨"Only the DM (Owner or GM) may view or change an actor's ownership block", none⟩
  return actor.worldId

structure SetActorPermissionInput where
  actorId : Uuid
  userId : Uuid
  level : ActorPermissionLevel

/-- A level set by hand is not the claim's any more. -/
def setActorPermission (caller : Caller) (input : SetActorPermissionInput) : Query GraphQLError Answer := do
  let worldId ← requireDmOfActorsWorld table caller input.actorId
  .require (isPaused table worldId = false) playPaused
  .require (table.userExists input.userId = true) ⟨"Failed to set actor permission", none⟩
  let row : ActorPermission := ⟨input.level, false⟩
  updatePermission input.actorId input.userId fun _ => some row
  return .permission row

def removeActorPermission (caller : Caller) (actorId userId : Uuid) : Query GraphQLError Answer := do
  let worldId ← requireDmOfActorsWorld table caller actorId
  .require (isPaused table worldId = false) playPaused
  let removed ← .read fun db => (db.permissions actorId userId).isSome
  updatePermission actorId userId fun _ => none
  return .removed removed

inductive Operation where
  | claimActor (userId worldId actorId : Uuid)
  | createAndClaimActor (actorId userId worldId : Uuid) (name : String) (description : Option String)
  | unclaimActor (caller : Caller) (actorId : Uuid) (expectedWorldMemberId : Option Uuid)
  | setPlayerCharacterBinding (caller : Caller) (worldId worldMemberId : Uuid) (actorId : Option Uuid)
  | setActorPermission (caller : Caller) (input : SetActorPermissionInput)
  | removeActorPermission (caller : Caller) (actorId userId : Uuid)

def Operation.query : Operation → Query GraphQLError Answer
  | claimActor userId worldId actorId => Actors.claimActor table userId worldId actorId
  | createAndClaimActor actorId userId worldId name description =>
    Actors.createAndClaimActor table actorId userId worldId name description
  | unclaimActor caller actorId expected => Actors.unclaimActor table caller actorId expected
  | setPlayerCharacterBinding caller worldId memberId actorId =>
    Actors.setPlayerCharacterBinding table caller worldId memberId actorId
  | setActorPermission caller input => Actors.setActorPermission table caller input
  | removeActorPermission caller actorId userId => Actors.removeActorPermission table caller actorId userId

/-- A call that is refused leaves the database as it was. -/
def step (db : Database) (operation : Operation) : Database := ((operation.query table).landed db).getD db

end ThunderForge.Actors
