import Mathlib.Data.Option.Basic
import Mathlib.Logic.Function.Basic
import ThunderForge.Lib.Json
import ThunderForge.Reconcile.Conflict

/-! What the server holds when a client replays the changes it queued while disconnected: the tables
that decide who may do what, whose turn it is (`combat/turn.rs`), who acts for a creature
(`combat/controllers.rs`), and the marks reconciliation leaves behind. -/

namespace ThunderForge.Authz

/-- A person's standing in one world (`thunderforge_authz::Role`). -/
inductive Role where
  | player
  | trustedPlayer
  | gameMaster
  | owner
  deriving DecidableEq

namespace Role

def fromStored (stored : String) : Option Role :=
  if stored = "Owner" then some .owner
  else if stored = "GM" then some .gameMaster
  else if stored = "TrustedPlayer" then some .trustedPlayer
  else if stored = "Player" then some .player
  else none

/-- Owner or Game Master. -/
def runsTheWorld : Role → Bool
  | .owner | .gameMaster => true
  | .trustedPlayer | .player => false

end Role

end ThunderForge.Authz

namespace ThunderForge.Reconcile

/-- Where a token stands and how: what may be edited offline. -/
structure Pose where
  x : F64
  y : F64
  rotation : F64
  scale : F64
  deriving DecidableEq

/-- One row of `tokens`; the table keeps them by id. -/
structure Token extends Pose where
  sceneId : Uuid
  actorId : Option Uuid
  ownerUserId : Option Uuid
  nameVisibleToPlayers : Bool
  linked : Bool
  systemData : Option Json
  deriving DecidableEq

/-- A world, its members' roles as they are stored, and whether an operator has paused it. -/
structure World where
  createdBy : Uuid
  members : Uuid → Option String
  paused : Bool

structure Actor where
  worldId : Uuid
  isNpc : Bool
  visibleToPlayers : Bool
  deriving DecidableEq

structure Combat where
  id : Uuid
  worldId : Uuid
  /-- A combat with no scene holds every scene of its world. -/
  sceneId : Option Uuid
  ended : Bool
  activeCombatantId : Option Uuid
  deriving DecidableEq

structure Combatant where
  id : Uuid
  combatId : Uuid
  tokenId : Option Uuid
  actorId : Option Uuid
  label : String
  deriving DecidableEq

structure RollRecord where
  worldId : Uuid
  resultValue : F64
  deriving DecidableEq

structure Database where
  tokens : Uuid → Option Token
  /-- The world each scene belongs to. -/
  scenes : Uuid → Option Uuid
  worlds : Uuid → Option World
  actors : Uuid → Option Actor
  /-- What level a user is granted on an actor, as it is stored. -/
  actorPermissions : Uuid → Uuid → Option String
  combats : List Combat
  combatants : List Combatant
  rolls : Uuid → Option RollRecord

namespace Database

variable (db : Database)

/-- The role a member is stored with; a world's creator needs no row. -/
def requireWorldMember (userId worldId : Uuid) : Option String :=
  (db.worlds worldId).bind fun world =>
    (world.members userId).or (if world.createdBy = userId then some "Owner" else none)

def runsTheWorld (userId worldId : Uuid) : Bool :=
  ((db.requireWorldMember userId worldId).bind Authz.Role.fromStored).any Authz.Role.runsTheWorld

/-- Whether an operator has paused play in the world (`refuse_if_paused`). -/
def paused (worldId : Uuid) : Bool := (db.worlds worldId).any World.paused

/-- The world a token's scene belongs to. -/
def worldOf (tokenId : Uuid) : Option Uuid := (db.tokens tokenId).bind fun token => db.scenes token.sceneId

/-- The token's own switch, and the creature it stands for being one players may see. -/
def tokenNameReadable (tokenId : Uuid) : Bool :=
  (db.tokens tokenId).any fun token => token.nameVisibleToPlayers &&
    (token.actorId.bind db.actors).all fun actor => !actor.isNpc || actor.visibleToPlayers

end Database

/-- What a player's attempt to act would meet. -/
structure TurnCheck where
  allowed : Bool
  activeLabel : Option String
  deriving DecidableEq

def unknownCombatant : String := "Unknown"

def turnRefusal (label : String) : String := "It is " ++ label ++ "'s turn"

namespace TurnCheck

def permitted : TurnCheck := { allowed := true, activeLabel := none }

/-- The sentence a refusal is given in. -/
def refusal (check : TurnCheck) : Option String :=
  if check.allowed then none else some (turnRefusal (check.activeLabel.getD unknownCombatant))

end TurnCheck

/-- The combatant whose turn holds the acting token back. -/
def heldBy (combatants : List Combatant) (activeId actingToken : Uuid) (actingActor : Option Uuid) :
    Option Combatant :=
  let isActing (combatant : Combatant) : Bool := match combatant.tokenId with
    | some token => token = actingToken
    | none => actingActor.isSome && combatant.actorId = actingActor
  let mine := combatants.filter isActing
  if mine.isEmpty || mine.any (·.id = activeId) then none else combatants.find? (·.id = activeId)

/-- Whether a user may act with a token of a scene now. -/
def turnCheck (db : Database) (sceneId actingTokenId userId : Uuid) : TurnCheck :=
  match db.scenes sceneId with
  | none => .permitted
  | some worldId =>
    if db.runsTheWorld userId worldId then .permitted
    else
      let combat := db.combats.find? fun combat =>
        combat.worldId = worldId && !combat.ended && (combat.sceneId.isNone || combat.sceneId = some sceneId)
      match combat.bind fun combat => combat.activeCombatantId.map fun activeId => (combat.id, activeId) with
      | none => .permitted
      | some (combatId, activeId) =>
        match db.tokens actingTokenId with
        | none => .permitted
        | some token =>
          match heldBy (db.combatants.filter (·.combatId = combatId)) activeId actingTokenId token.actorId with
          | none => .permitted
          | some active =>
            let hidden := active.tokenId.any fun token => !db.tokenNameReadable token
            { allowed := false, activeLabel := some (if hidden then unknownCombatant else active.label) }

/-- The rows of a token that control is decided from. -/
structure TokenControl where
  tokenId : Uuid
  worldId : Uuid
  ownerUserId : Option Uuid
  actorId : Option Uuid
  deriving DecidableEq

def tokenControl (db : Database) (tokenId : Uuid) : Option TokenControl :=
  (db.tokens tokenId).bind fun token => (db.scenes token.sceneId).map fun worldId =>
    { tokenId, worldId, ownerUserId := token.ownerUserId, actorId := token.actorId }

/-- The token's owner, a Game Master of its actor's world, or an explicit Owner of the actor. -/
def mayMove (db : Database) (userId : Uuid) (token : TokenControl) : Bool :=
  token.ownerUserId = some userId ||
    token.actorId.any fun actorId => (db.actors actorId).any fun actor =>
      db.runsTheWorld userId actor.worldId || db.actorPermissions actorId userId = some "Owner"

/-- A controller of the creature, or a Game Master of its world. -/
def mayActFor (db : Database) (userId : Uuid) (token : TokenControl) : Bool :=
  db.runsTheWorld userId token.worldId || mayMove db userId token

/-- Who last won an item, and the reconnect that won it. -/
abbrev Mark := Contender

/-- Per-world memory of what reconciliation has already settled. -/
structure ReconcileMarks where
  nextSeq : Uuid → ReconnectSeq
  marks : Uuid → Uuid → Option Mark

structure Server where
  database : Database
  marks : ReconcileMarks

namespace Server

variable (server : Server)

/-- Take this reconnection's position in the order, for one world. -/
def takeReconnectSeq (worldId : Uuid) : Server × ReconnectSeq :=
  let seq := server.marks.nextSeq worldId
  ({ server with marks.nextSeq := Function.update server.marks.nextSeq worldId (saturatingSucc seq) }, seq)

def existingMark (worldId tokenId : Uuid) : Option Mark := server.marks.marks worldId tokenId

def rememberMark (worldId tokenId : Uuid) (mark : Mark) : Server :=
  let marks := Function.update (server.marks.marks worldId) tokenId (some mark)
  { server with marks.marks := Function.update server.marks.marks worldId marks }

/-- Write one row of `tokens`. -/
def writeToken (tokenId : Uuid) (token : Token) : Server :=
  { server with database.tokens := Function.update server.database.tokens tokenId (some token) }

end Server

end ThunderForge.Reconcile
