import Mathlib
import ThunderForge.Actors.Claim
import ThunderForge.Lib.Json
import ThunderForge.Lib.ReadCommitted

/-! Items on the map and in inventories, statement by statement: picking a placed item up
(`mutations_pickup.rs`), deleting a token (`mutations_tokens.rs`), and adding, adjusting and removing what a
character carries (`mutations_inventory.rs`). World events, fingerprints, timestamps and entries that are
linked to a staged piece are left out. -/

namespace ThunderForge.Inventory

open ReadCommitted Actors

structure Token where
  sceneId : Uuid
  metadata : Option Json
  deriving DecidableEq

structure Interactive where
  effectId : String
  effectConfig : Option Json
  deriving DecidableEq

structure World where
  createdBy : Uuid
  paused : Bool
  deriving DecidableEq

/-- A row of `world_actor_inventory`, but for its actor and item. -/
structure ActorInventoryEntry where
  id : Uuid
  itemNameSnapshot : String
  quantity : Int
  createdBy : Option Uuid
  updatedBy : Option Uuid
  deriving DecidableEq

/-- The rows; interactives by the token they are attached to, entries by actor and item and by their id,
scenes and actors with the world they are in, items with their name. -/
inductive Key where
  | token (id : Uuid)
  | interactives (subjectRef : Uuid)
  | inventory (actorId itemId : Uuid)
  | entry (id : Uuid)
  | scene (id : Uuid)
  | actor (id : Uuid)
  | item (id : Uuid)
  | member (worldId userId : Uuid)
  | world (id : Uuid)
  | permission (actorId userId : Uuid)
  deriving DecidableEq

abbrev Key.Row : Key → Type
  | .token _ => Option Token
  | .interactives _ => List Interactive
  | .inventory _ _ => Option ActorInventoryEntry
  | .entry _ => Option (Uuid × Uuid)
  | .scene _ => Option Uuid
  | .actor _ => Option Uuid
  | .item _ => Option String
  | .member _ _ => Option String
  | .world _ => Option World
  | .permission _ _ => Option ActorPermissionLevel

abbrev Database := Rows Key.Row

abbrev Program (α : Type) := Call Key.Row Empty GraphQLError α

/-- What a placed item's authoring says it is. -/
structure PlacedItem where
  itemId : Uuid
  quantity : Int
  deriving DecidableEq

/-- What a call that succeeds answers, with what it is about. -/
inductive Answer where
  | pickedUp (tokenId actorId : Uuid) (placed : PlacedItem)
  | deletedToken (tokenId : Uuid) (deleted : Bool)
  | added (actorId itemId : Uuid) (quantity : Int)
  | adjusted (actorId itemId : Uuid) (quantity : Int)
  | removed (entry : Option (Uuid × Uuid))
  deriving DecidableEq

def requireWorldMember (userId worldId : Uuid) : Program (Option String) := do
  let member ← Call.read fun db : Database => db (.member worldId userId)
  match member with
  | some role => pure (some role)
  | none => do
    let isCreator ← Call.read fun db : Database => (db (.world worldId)).any fun world => world.createdBy = userId
    pure (if isCreator then some "Owner" else none)

def isDmOfWorld (caller : Caller) (worldId : Uuid) : Program Bool :=
  if caller.isAdmin then pure true
  else do
    let role ← requireWorldMember caller.userId worldId
    pure ((role.bind Role.fromStored).any Role.runsTheWorld)

def isDmOfScene (caller : Caller) (sceneId : Uuid) : Program Bool := do
  let worldId ← Call.read fun db : Database => db (.scene sceneId)
  match worldId with
  | none => pure false
  | some worldId => isDmOfWorld caller worldId

def effectiveActorPermission (caller : Caller) (actorId : Uuid) : Program ActorPermissionLevel := do
  let worldId ← Call.read fun db : Database => db (.actor actorId)
  let worldId ← Call.getOr worldId ⟨"Actor not found", none⟩
  let dm ← isDmOfWorld caller worldId
  if dm then pure .owner
  else do
    let level ← Call.read fun db : Database => db (.permission actorId caller.userId)
    pure (level.getD .viewer)

def requireActorPermission (caller : Caller) (actorId : Uuid) (minimum : ActorPermissionLevel) : Program Unit := do
  let level ← effectiveActorPermission caller actorId
  Call.require (minimum.rank ≤ level.rank)
    ⟨"You do not have sufficient permission on this actor", some "FORBIDDEN"⟩

def refuseIfPaused (worldId : Uuid) : Program Unit := do
  let paused ← Call.read fun db : Database => (db (.world worldId)).any (·.paused)
  Call.require (paused = false) playPaused

/-- What has no world is in none that could be paused. -/
def refuseWorldIfPaused (worldOf : Database → Option Uuid) : Program Unit := do
  let worldId ← Call.read worldOf
  worldId.elim (pure ()) refuseIfPaused

def refuseSceneIfPaused (sceneId : Uuid) : Program Unit := refuseWorldIfPaused fun db => db (.scene sceneId)

def refuseContentIfPaused (actorId : Uuid) : Program Unit := refuseWorldIfPaused fun db => db (.actor actorId)

/-! Placed items. -/

section

variable (parseUuid : String → Option Uuid)

def pickupEffect : String := "item.pickup"

def readQuantity (config : Json) : Int :=
  match config.get? "quantity" with
  | some (.integer n) => if 0 < n ∧ n < 2 ^ 31 then n else 1
  | _ => 1

/-- Pulls item and quantity out of an effect configuration or token metadata. -/
def readPlacedItem (config : Json) : Option PlacedItem := do
  let raw ← ["item", "itemId", "item_id"].findSome? fun key =>
    (config.get? key).bind fun value => match value with
      | .string text => some text
      | _ => none
  let itemId ← parseUuid raw
  some { itemId, quantity := readQuantity config }

def pickupConfig (rows : List Interactive) : Option Json :=
  (rows.find? fun row => row.effectId = pickupEffect).bind (·.effectConfig)

/-- Reads the item a token stands for out of its authoring: its interactive first, and then its metadata. -/
def placedItemOf (tokenId : Uuid) : Program (Option PlacedItem) := do
  let fromInteractive ← Call.read fun db : Database => pickupConfig (db (.interactives tokenId))
  match fromInteractive.bind (readPlacedItem parseUuid) with
  | some placed => pure (some placed)
  | none => do
    let token ← Call.read fun db : Database => db (.token tokenId)
    let token ← Call.getOr token ⟨"Failed to read the placed item: Record not found", none⟩
    pure (token.metadata.bind (readPlacedItem parseUuid))

def gone : GraphQLError := ⟨"That item is no longer there", some "ALREADY_TAKEN"⟩

/-- Take the token, if it is still on the map. -/
def claimToken (tokenId : Uuid) : Program Bool :=
  Call.updateWhere (ρ := Key.Row) (.token tokenId) (·.isSome) fun _ => none

def deleteInteractives (tokenId : Uuid) : Program Bool :=
  Call.updateWhere (ρ := Key.Row) (.interactives tokenId) (!·.isEmpty) fun _ => []

structure Topping where
  actorId : Uuid
  itemId : Uuid
  quantity : Int
  actingUserId : Uuid
  /-- The id the database gives a new entry. -/
  entryId : Uuid

def addFailed (reason : String) : GraphQLError := ⟨"Failed to add item to inventory: " ++ reason, none⟩

/-- The entry after an `INSERT … ON CONFLICT … DO UPDATE`. -/
def Topping.upserted (topping : Topping) (itemName : String) (db : Database) :
    Except GraphQLError ActorInventoryEntry :=
  match db (.inventory topping.actorId topping.itemId) with
  | none =>
    if (db (.entry topping.entryId)).isSome then .error (addFailed "duplicate key value violates unique constraint")
    else .ok { id := topping.entryId, itemNameSnapshot := itemName, quantity := topping.quantity
               createdBy := some topping.actingUserId, updatedBy := some topping.actingUserId }
  | some entry =>
    if entry.quantity + topping.quantity < 2 ^ 31 then
      .ok { entry with
            quantity := entry.quantity + topping.quantity
            itemNameSnapshot := itemName
            updatedBy := some topping.actingUserId }
    else .error (addFailed "integer out of range")

/-- An entry with its row under its id. -/
def putEntry (db : Database) (actorId itemId : Uuid) (entry : ActorInventoryEntry) : Database :=
  Function.update (β := Key.Row) (Function.update (β := Key.Row) db (.inventory actorId itemId) (some entry))
    (.entry entry.id) (some (actorId, itemId))

def Topping.upsert (topping : Topping) (itemName : String) : Program (Except GraphQLError ActorInventoryEntry) :=
  Call.statement (fun kind => kind.elim)
    (fun db => (topping.upserted itemName db).toOption.toList.flatMap fun entry =>
      [.inventory topping.actorId topping.itemId, .entry entry.id])
    (fun db => (topping.upserted itemName db).toOption.elim db (putEntry db topping.actorId topping.itemId))
    (topping.upserted itemName) pure

/-- The one place an inventory entry is created or topped up. -/
def upsertInventoryEntry (topping : Topping) : Program ActorInventoryEntry := do
  let itemName ← Call.read fun db : Database => db (.item topping.itemId)
  let itemName ← Call.getOr itemName ⟨"Item not found", none⟩
  let entry ← topping.upsert itemName
  Call.ofExcept entry

structure PickUpPlacedItem where
  caller : Caller
  tokenId : Uuid
  actorId : Uuid
  entryId : Uuid

def PickUpPlacedItem.topping (pick : PickUpPlacedItem) (placed : PlacedItem) : Topping where
  actorId := pick.actorId
  itemId := placed.itemId
  quantity := placed.quantity
  actingUserId := pick.caller.userId
  entryId := pick.entryId

/-- Take the token and write the entry, or neither. -/
def PickUpPlacedItem.take (pick : PickUpPlacedItem) (placed : PlacedItem) : Program Answer := do
  let claimed ← claimToken pick.tokenId
  Call.require claimed gone
  let _ ← deleteInteractives pick.tokenId
  let _ ← upsertInventoryEntry (pick.topping placed)
  pure (.pickedUp pick.tokenId pick.actorId placed)

def pickUpPlacedItemImpl (pick : PickUpPlacedItem) : Program Answer := do
  let token ← Call.read fun db : Database => db (.token pick.tokenId)
  let token ← Call.getOr token gone
  let placed ← placedItemOf parseUuid pick.tokenId
  let placed ← Call.getOr placed ⟨"That token is not a placed item", none⟩
  requireActorPermission pick.caller pick.actorId .editor
  -- what follows is one transaction
  let worldId ← Call.read fun db : Database => db (.scene token.sceneId)
  let worldId ← Call.getOr worldId ⟨"Scene not found", none⟩
  let actorWorld ← Call.read fun db : Database => db (.actor pick.actorId)
  let actorWorld ← Call.getOr actorWorld ⟨"Character not found", none⟩
  Call.require (actorWorld = worldId) ⟨"That character is not in this world", none⟩
  refuseIfPaused worldId
  pick.take placed

end

/-- Who may not delete a token is told that there was none. -/
def deleteToken (caller : Caller) (tokenId : Uuid) : Program Answer := do
  let token ← Call.read fun db : Database => db (.token tokenId)
  match token with
  | none => pure (.deletedToken tokenId false)
  | some token => do
    let authorized ← isDmOfScene caller token.sceneId
    if authorized then do
      refuseSceneIfPaused token.sceneId
      let deleted ← claimToken tokenId
      pure (.deletedToken tokenId deleted)
    else pure (.deletedToken tokenId false)

def addItemToInventoryImpl (caller : Caller) (actorId itemId : Uuid) (quantity : Int) (entryId : Uuid) :
    Program Answer := do
  Call.require (1 ≤ quantity) ⟨"Quantity must be at least 1 when adding an item", none⟩
  requireActorPermission caller actorId .editor
  refuseContentIfPaused actorId
  let _ ← upsertInventoryEntry { actorId, itemId, quantity, actingUserId := caller.userId, entryId }
  pure (.added actorId itemId quantity)

/-- The actor and item of an entry. -/
def entryById (entryId : Uuid) (db : Database) : Option (Uuid × Uuid) :=
  (db (.entry entryId)).filter fun place => (db (.inventory place.1 place.2)).any fun entry => entry.id = entryId

/-- `DELETE … WHERE id`, answering with what is deleted. -/
def deleteEntry (entryId : Uuid) : Program (Option (Uuid × Uuid)) :=
  Call.statement (fun kind => kind.elim)
    (fun db => (entryById entryId db).toList.flatMap fun place => [.inventory place.1 place.2, .entry entryId])
    (fun db => (entryById entryId db).elim db fun place =>
      Function.update (β := Key.Row) (Function.update (β := Key.Row) db (.inventory place.1 place.2) none)
        (.entry entryId) none)
    (entryById entryId) pure

/-- The entry's actor, for whom the caller may act. -/
def requireEntry (caller : Caller) (entryId : Uuid) : Program Unit := do
  let place ← Call.read (entryById entryId)
  let place ← Call.getOr place ⟨"Inventory entry not found", none⟩
  requireActorPermission caller place.1 .editor
  refuseContentIfPaused place.1

/-- A row of the inventory with its quantity set. -/
def setQuantity (quantity : Int) (userId : Uuid) : ∀ key : Key, key.Row → key.Row
  | .inventory _ _, row => row.map fun entry => { entry with quantity, updatedBy := some userId }
  | .token _, row => row
  | .interactives _, row => row
  | .entry _, row => row
  | .scene _, row => row
  | .actor _, row => row
  | .item _, row => row
  | .member _ _, row => row
  | .world _, row => row
  | .permission _ _, row => row

/-- Sets an absolute value; zero deletes the row. -/
def adjustInventoryQuantityImpl (caller : Caller) (entryId : Uuid) (quantity : Int) : Program Answer := do
  Call.require (0 ≤ quantity) ⟨"Quantity must not be negative", none⟩
  requireEntry caller entryId
  if quantity = 0 then do
    let deleted ← deleteEntry entryId
    pure (.removed deleted)
  else do
    let place ← Call.updateFound (fun db : Database => (entryById entryId db).map fun place =>
      .inventory place.1 place.2) (setQuantity quantity caller.userId) (entryById entryId)
    let place ← Call.getOr place ⟨"Failed to adjust inventory quantity: Record not found", none⟩
    pure (.adjusted place.1 place.2 quantity)

/-- Deletes the row outright, regardless of quantity. -/
def removeInventoryEntryImpl (caller : Caller) (entryId : Uuid) : Program Answer := do
  requireEntry caller entryId
  let deleted ← deleteEntry entryId
  pure (.removed deleted)

inductive Operation where
  | pickUpPlacedItem (pick : PickUpPlacedItem)
  | deleteToken (caller : Caller) (tokenId : Uuid)
  | addItemToInventory (caller : Caller) (actorId itemId : Uuid) (quantity : Int) (entryId : Uuid)
  | adjustInventoryQuantity (caller : Caller) (entryId : Uuid) (quantity : Int)
  | removeInventoryEntry (caller : Caller) (entryId : Uuid)

def Operation.program (parseUuid : String → Option Uuid) : Operation → Program Answer
  | pickUpPlacedItem pick => pickUpPlacedItemImpl parseUuid pick
  | deleteToken caller tokenId => Inventory.deleteToken caller tokenId
  | addItemToInventory caller actorId itemId quantity entryId =>
    addItemToInventoryImpl caller actorId itemId quantity entryId
  | adjustInventoryQuantity caller entryId quantity => adjustInventoryQuantityImpl caller entryId quantity
  | removeInventoryEntry caller entryId => removeInventoryEntryImpl caller entryId

end ThunderForge.Inventory
