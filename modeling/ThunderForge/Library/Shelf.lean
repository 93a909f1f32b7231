import ThunderForge.Lib.BigEndian
import ThunderForge.Lib.Transaction
import ThunderForge.Library.Deltas

/-! The tables behind the shelf, and the statements that more than one call makes: who owns what, what a
collection holds, and keeping the version in force before replacing it (`compendium/versions.rs`,
`compendium/collections.rs`). -/

namespace ThunderForge.Library

open Std (ExtTreeMap)

/-- One row of `compendiums`, a book or a collection; the table keeps them by id. -/
structure Compendium where
  ownerUserId : Uuid
  bookTitle : String
  systemId : String
  origin : ContentOrigin
  entryCounts : ExtTreeMap String Nat := ∅
  baseVersion : Nat := 1
  updatedBy : Uuid
  deriving DecidableEq

/-- One entry as a version holds it: its identity and what it said, and not its id. -/
structure VersionEntry where
  kind : String
  name : String
  nameUncertain : Bool
  fieldValues : FieldValues
  proseText : Option String
  suspect : Bool
  extras : Option Json
  deriving DecidableEq

/-- One row of `shelf_collection_versions`. -/
structure CollectionVersion where
  id : Uuid
  compendiumId : Uuid
  version : Nat
  bookTitle : String
  entries : List VersionEntry
  entryCounts : ExtTreeMap String Nat
  replacedBy : String
  deriving DecidableEq

/-- What the calls read of a world: its members trusted with its books, whether an operator has paused
it, and the books on its list, each with whether the world's system still matches. -/
structure World where
  name : String
  createdBy : Uuid
  bookManagers : List Uuid
  paused : Bool
  books : List (Uuid × Bool)
  deriving DecidableEq

structure Database where
  compendiums : ExtTreeMap Uuid Compendium
  entries : List StoredEntry
  versions : List CollectionVersion
  deltas : List Delta
  worlds : ExtTreeMap Uuid World

/-- A row a statement can lock. -/
inductive Row where
  | compendium (id : Uuid)
  | entry (id : Uuid)
  | delta (worldId compendiumId : Uuid) (identity : Identity)
  deriving DecidableEq

/-- Why the database refuses a statement. -/
inductive DatabaseError where
  | notFound
  | uniqueViolation
  | checkViolation
  | outOfRange
  /-- A version of anything but a collection (spec 050 FR-101). -/
  | onlyAuthoredKeepsVersions
  /-- A delta whose origin is not its form's (spec 050 FR-052). -/
  | originFollowsForm
  deriving DecidableEq

inductive CollectionError where
  | notYours
  | importedBook (title : String)
  | alreadyHas (kind name : String)
  | unnamed
  | untitled
  | noSuchEntry
  | noSuchVersion (version : Int)
  | database (error : DatabaseError)
  deriving DecidableEq

inductive BookListError where
  | mayNotManageBooks
  | systemMismatch
  | notOnTheList
  | paused
  deriving DecidableEq

inductive DeltaError where
  | book (error : BookListError)
  | noSuchEntry (kind name : String)
  | ambiguous (kind name : String) (count : Nat)
  | alreadyInTheBook (kind name : String)
  | alreadyAdded (kind name : String)
  | alreadyWrittenHere (kind name bookTitle : String)
  | noSuchAddition
  | nothingToRestore (kind name : String)
  | proseHasNoFields (name : String)
  | fieldsHaveNoProse (name : String)
  | unnamed
  | bookNeverSyncsBack (title : String)
  | onlyTheOwnerSyncs
  | syncPlanChanged
  | nothingToSync
  | database (error : DatabaseError)
  deriving DecidableEq

/-- The statements of a call on the library. -/
abbrev Query (ε α : Type) := Transaction Database Row ε α

/-- One declared field, with the certainty it was read with. -/
inductive ReadValue where
  | clear (value : String)
  | uncertain (value : String)
  | unread
  deriving DecidableEq

def ReadValue.toJson : ReadValue → Json
  | clear value => .object [("state", .string "clear"), ("value", .string value)]
  | uncertain value => .object [("state", .string "uncertain"), ("value", .string value)]
  | unread => .object [("state", .string "unread")]

/-- What a person asks to change an entry's content to. -/
inductive Content where
  | fields (values : ExtTreeMap String ReadValue)
  | prose (text : String)

/-- `serde_json::to_value` of a map of fields. -/
def toFieldValues (values : ExtTreeMap String ReadValue) : FieldValues :=
  .object (values.map fun _ value => value.toJson)

namespace Database

variable (db : Database)

/-- The entries of one collection. -/
def entriesOf (collectionId : Uuid) : List StoredEntry :=
  db.entries.filter fun entry => entry.compendiumId = collectionId

/-- The base in force, by kind and name. -/
def baseEntries (collectionId : Uuid) : List StoredEntry :=
  SortBy.sortBy StoredEntry.identity (db.entriesOf collectionId)

/-- How many entries of each kind a collection holds. -/
def countsByKind (collectionId : Uuid) : ExtTreeMap String Nat :=
  (db.entriesOf collectionId).foldl
    (fun counts entry => counts.insert entry.kind (counts.getD entry.kind 0 + 1)) ∅

/-- A world's deltas over one book, by kind and name. -/
def deltasOver (worldId compendiumId : Uuid) : List Delta :=
  SortBy.sortBy Delta.identity
    (db.deltas.filter fun delta => delta.worldId = worldId ∧ delta.compendiumId = some compendiumId)

/-- The rows of a collection under one kind and name. -/
def entriesAt (collectionId : Uuid) (identity : Identity) : List StoredEntry :=
  (db.entriesOf collectionId).filter fun entry => entry.identity = identity

/-- The keys the database keeps on these tables. -/
structure Sound : Prop where
  entryIds : (db.entries.map StoredEntry.id).Nodup
  entryBooks : ∀ entry ∈ db.entries, entry.compendiumId ∈ db.compendiums
  versionBooks : ∀ version ∈ db.versions, version.compendiumId ∈ db.compendiums
  deltaIds : (db.deltas.map Delta.id).Nodup
  deltaIdentities : ∀ worldId compendiumId, ((db.deltas.filter fun delta =>
    delta.worldId = worldId ∧ delta.compendiumId = some compendiumId).map Delta.identity).Nodup

end Database

def VersionEntry.ofStored (entry : StoredEntry) : VersionEntry where
  kind := entry.kind
  name := entry.name
  nameUncertain := entry.nameUncertain
  fieldValues := entry.fieldValues
  proseText := entry.proseText
  suspect := entry.suspect
  extras := entry.extras

def VersionEntry.identity (entry : VersionEntry) : Identity := ⟨entry.kind, entry.name⟩

/-- What a collection holds, as a version would hold it. -/
def Database.entriesInForce (db : Database) (collectionId : Uuid) : List VersionEntry :=
  (db.baseEntries collectionId).map VersionEntry.ofStored

/-! ### Gates -/

/-- Refuse unless the caller is the account that owns the collection. -/
def requireAccountOwner (caller collectionId : Uuid) : Query CollectionError Unit := do
  let owner ← .read fun db => (db.compendiums[collectionId]?).map Compendium.ownerUserId
  .require (owner = some caller) .notYours

/-- The world's owner, for a caller trusted with its books. -/
def requireBookManager (caller worldId : Uuid) : Query DeltaError Uuid := do
  match ← .read fun db => (db.worlds[worldId]?).map fun world => (world.createdBy, world.bookManagers) with
  | none => .fail (.book .mayNotManageBooks)
  | some (owner, managers) =>
    .require (caller ∈ managers) (.book .mayNotManageBooks)
    return owner

def refuseIfPaused (worldId : Uuid) : Query DeltaError Unit := do
  let paused ← .read fun db => (db.worlds[worldId]?).any World.paused
  .require (paused = false) (.book .paused)

/-- Refuse a book that is not on the world's list, or that its system no longer matches. -/
def requireServed (worldId compendiumId : Uuid) : Query DeltaError Unit := do
  let listed ← .read fun db => (db.worlds[worldId]?).bind fun world =>
    (world.books.find? fun book => book.1 = compendiumId).map Prod.snd
  match listed with
  | none => .fail (.book .notOnTheList)
  | some matching => .require (matching = true) (.book .systemMismatch)

/-! ### Versions -/

/-- The first 300 characters. -/
def truncated (text : String) : String := String.ofList (text.toList.take 300)

/-- The row of a collection, or the refusal that there is none. -/
def compendiumRow (collectionId : Uuid) : Query DatabaseError Compendium :=
  .write (fun _ => []) (fun db => match db.compendiums[collectionId]? with
    | some collection => .ok collection
    | none => .error .notFound) id

/-- Keep the collection's version in force before something replaces it. -/
def record (versionId collectionId : Uuid) (replacedBy : String) : Query DatabaseError Unit := do
  .lock (.compendium collectionId)
  let collection ← compendiumRow collectionId
  let entries ← .read fun db => db.entriesInForce collectionId
  let version : CollectionVersion :=
    { id := versionId, compendiumId := collectionId, version := collection.baseVersion
      bookTitle := collection.bookTitle, entries, entryCounts := collection.entryCounts
      replacedBy := truncated replacedBy }
  .write (fun _ => [])
    (fun db =>
      if collection.origin ≠ .authored then .error .onlyAuthoredKeepsVersions
      else if db.versions.any fun row => row.id = versionId ∨
          row.compendiumId = collectionId ∧ row.version = version.version then .error .uniqueViolation
      else .ok ())
    fun db => { db with versions := db.versions ++ [version] }

/-- The conditions the database keeps on a row of `compendium_entries`. -/
def storable (entry : StoredEntry) : Bool :=
  entry.kind.length ≤ 64 && (entry.proseText.isNone || entry.fieldValues = .object ∅)

/-- Insert a row into `compendium_entries`. -/
def insertRow (entry : StoredEntry) : Query DatabaseError StoredEntry :=
  .write (fun _ => [])
    (fun db =>
      if db.entries.any fun row => row.id = entry.id then .error .uniqueViolation
      else if ¬storable entry then .error .checkViolation
      else .ok entry)
    fun db => { db with entries := db.entries ++ [entry] }

/-- Write one entry into a collection as a new row. -/
def insertEntry (entryId collectionId : Uuid) (entry : VersionEntry) : Query DatabaseError StoredEntry :=
  insertRow
    { id := entryId, compendiumId := collectionId, kind := entry.kind, name := entry.name
      nameUncertain := entry.nameUncertain, fieldValues := entry.fieldValues
      proseText := entry.proseText, suspect := entry.suspect, extras := entry.extras }

/-- Recount the collection's entries and move it on a version. -/
def nextVersion (caller collectionId : Uuid) : Query DatabaseError Unit := do
  let counts ← .read fun db => db.countsByKind collectionId
  .write (fun _ => [.compendium collectionId])
    (fun db => match db.compendiums[collectionId]? with
      | none => .ok ()
      | some collection => if collection.baseVersion + 1 < 2 ^ 31 then .ok () else .error .outOfRange)
    fun db => { db with
      compendiums := db.compendiums.modify collectionId fun collection =>
        { collection with
          entryCounts := counts, baseVersion := collection.baseVersion + 1, updatedBy := caller } }

end ThunderForge.Library
