import ThunderForge.Basic
import ThunderForge.Lib.ReadCommitted

/-! The operations on lore entries, statement by statement. Who may do what, which worlds are paused and
which slug is free are a parameter; tags, links, images and permissions of entries are left out. -/

namespace ThunderForge.Lore

open ReadCommitted

structure LoreEntry where
  worldId : Uuid
  title : String
  slug : String
  content : String
  currentRevisionId : Option Uuid
  parentId : Option Uuid
  deriving DecidableEq

structure LoreRevision where
  loreEntryId : Uuid
  contentMarkdown : String
  authorId : Uuid
  restoredFromRevisionId : Option Uuid
  deriving DecidableEq

/-- The rows the operations write or lock; the tree of a world is locked by an advisory lock. -/
inductive Key where
  | tree (worldId : Uuid)
  | entry (id : Uuid)
  | revision (id : Uuid)
  deriving DecidableEq

abbrev Key.Row : Key → Type
  | .tree _ => Unit
  | .entry _ => Option LoreEntry
  | .revision _ => Option LoreRevision

abbrev Database := Rows Key.Row

/-- What a statement relies on: that the parent, or the current revision, of an entry is as it was read. -/
inductive Reliance where
  | parentAsRead
  | revisionAsRead
  deriving DecidableEq

/-- `LoreWriteError` and `LoreTreeError`. -/
inductive LoreError where
  | database (message : String)
  | notFound
  | tooLarge
  | conflict
  | cycle
  | otherWorld
  | paused
  deriving DecidableEq

/-- What a call that succeeds answers. -/
inductive Answer where
  | entry (entry : LoreEntry)
  | deleted (deleted : Bool)

abbrev Program (α : Type) := Call Key.Row Reliance LoreError α

inductive PermissionLevel where
  | editor
  | owner
  deriving DecidableEq

structure Caller where
  userId : Uuid
  isAdmin : Bool

/-- What the operations read of the rest of the world, and the ids entries have. -/
structure Wiki where
  permits : Caller → Uuid → PermissionLevel → Bool
  isDmOfWorld : Caller → Uuid → Bool
  paused : Uuid → Bool
  uniqueSlugForWorld : Database → Uuid → String → Option Uuid → String
  entryIds : List Uuid

def maxLoreContentBytes : Nat := 25 * 1024 * 1024

def maxAncestorWalk : Nat := 256

def parentOf (db : Database) (id : Uuid) : Option Uuid := (db (.entry id)).bind (·.parentId)

/-- The entries under an entry. -/
def childrenOf (wiki : Wiki) (db : Database) (id : Uuid) : List Uuid :=
  wiki.entryIds.filter fun child => parentOf db child = some id

/-- Every entry with another parent. -/
def reparented (parentId : Option Uuid) (db : Database) : Database
  | .tree worldId => db (.tree worldId)
  | .entry id => (db (.entry id)).map ({ · with parentId })
  | .revision id => db (.revision id)

/-- Whether the foreign key lets entries have this parent. -/
def parentExists (parentId : Option Uuid) (db : Database) : Bool :=
  parentId.all fun id => (db (.entry id)).isSome

/-- `UPDATE … SET parent_id`: of the entries given, unless the parent is missing. -/
def setParent (relies : Reliance → Database → Bool) (entries : Database → List Uuid) (parentId : Option Uuid) :
    Program Unit := do
  let written ← Call.statement relies
    (fun db => if parentExists parentId db then (entries db).map .entry else []) (reparented parentId)
    (fun db => (entries db).isEmpty || parentExists parentId db) .done
  Call.require written (.database "insert or update on table violates foreign key constraint")

variable (wiki : Wiki)

def requireLorePermission (caller : Caller) (entryId : Uuid) (level : PermissionLevel) : Program Unit :=
  Call.require (wiki.permits caller entryId level) (.database "You do not have permission")

def refuseIfPaused (worldId : Uuid) : Program Unit := Call.require (wiki.paused worldId = false) .paused

def loadEntry (entryId : Uuid) (error : LoreError) : Program LoreEntry := do
  let row ← Call.read fun db : Database => db (.entry entryId)
  Call.getOr row error

/-- `pg_advisory_xact_lock`, held to the end of the transaction. -/
def lockWorldTree (worldId : Uuid) : Program Unit := Call.lock (fun _ => [.tree worldId]) fun _ => ()

/-- The insert of a row whose id is new. -/
def insertRevision (revisionId : Uuid) (revision : LoreRevision) : Program Unit := do
  let inserted ← Call.updateWhere (ρ := Key.Row) (.revision revisionId) (·.isNone) fun _ => some revision
  Call.require inserted (.database "duplicate key value violates unique constraint")

def insertEntry (entryId : Uuid) (entry : LoreEntry) : Program Unit := do
  let inserted ← Call.updateWhere (ρ := Key.Row) (.entry entryId) (·.isNone) fun _ => some entry
  Call.require inserted (.database "duplicate key value violates unique constraint")

section

variable {n : Nat} {discipline : Discipline n Key.Row Answer} {kinds : List Reliance} {α : Type}
  {post : Writes Key.Row → Database → α → Prop} {f : Unit → Program α} {writes : Writes Key.Row} {db : Database}

theorem insertRevision_bind {revisionId : Uuid} {revision : LoreRevision}
    (h : ∀ db', discipline.Later writes db db' → overlay writes db' (.revision revisionId) = none →
      Safe discipline kinds post (f ()) (Function.update writes (.revision revisionId) (some (some revision))) db') :
    Safe discipline kinds post (insertRevision revisionId revision >>= f) writes db := by
  unfold insertRevision
  rw [bind_assoc]
  refine Safe.updateWhere_bind (fun db' hlater hnew => Safe.require_bind fun _ => ?_)
    fun db' _ _ => Safe.require_bind fun h => absurd h (by decide)
  exact h db' hlater (Option.isNone_iff_eq_none.mp hnew)

theorem insertEntry_bind {entryId : Uuid} {entry : LoreEntry}
    (h : ∀ db', discipline.Later writes db db' → overlay writes db' (.entry entryId) = none →
      Safe discipline kinds post (f ()) (Function.update writes (.entry entryId) (some (some entry))) db') :
    Safe discipline kinds post (insertEntry entryId entry >>= f) writes db := by
  unfold insertEntry
  rw [bind_assoc]
  refine Safe.updateWhere_bind (fun db' hlater hnew => Safe.require_bind fun _ => ?_)
    fun db' _ _ => Safe.require_bind fun h => absurd h (by decide)
  exact h db' hlater (Option.isNone_iff_eq_none.mp hnew)

end

structure CreateLoreEntryInput where
  worldId : Uuid
  title : String
  content : Option String

def createLoreEntry (caller : Caller) (entryId revisionId : Uuid) (input : CreateLoreEntryInput) :
    Program Answer := do
  Call.require (wiki.isDmOfWorld caller input.worldId)
    (.database "Only the DM (Owner or GM) may create lore entries")
  let content := input.content.getD ""
  Call.require (content.utf8ByteSize ≤ maxLoreContentBytes) .tooLarge
  refuseIfPaused wiki input.worldId
  let slug ← Call.read fun db => wiki.uniqueSlugForWorld db input.worldId input.title none
  insertEntry entryId
    { worldId := input.worldId, title := input.title, slug, content, currentRevisionId := none, parentId := none }
  if content ≠ "" then
    insertRevision revisionId
      { loreEntryId := entryId, contentMarkdown := content, authorId := caller.userId,
        restoredFromRevisionId := none }
    let _ ← Call.update (ρ := Key.Row) (fun _ _ => true) (.entry entryId)
      fun row => row.map ({ · with currentRevisionId := some revisionId })
    let entry ← loadEntry entryId (.database "Record not found")
    pure (.entry entry)
  else
    let entry ← loadEntry entryId (.database "Record not found")
    pure (.entry entry)

/-- Whether the entry is met on the way up, one `SELECT` a step; a walk that does not end is taken to meet
it. -/
def climb (entryId : Uuid) : Nat → Option Uuid → Program Bool
  | 0, _ => pure true
  | _ + 1, none => pure false
  | steps + 1, some current =>
    if current = entryId then pure true
    else do
      let cursor ← Call.read fun db : Database => parentOf db current
      climb entryId steps cursor

def wouldCycle (entryId candidateParent : Uuid) : Program Bool :=
  climb entryId maxAncestorWalk (some candidateParent)

/-- A new parent is in the same world and not below the entry. -/
def checkParent (entryId : Uuid) (entry : LoreEntry) : Option Uuid → Program Unit
  | none => pure ()
  | some parentId => do
    let parent ← loadEntry parentId .notFound
    Call.require (parent.worldId = entry.worldId) .otherWorld
    let cycle ← wouldCycle entryId parentId
    Call.require (cycle = false) .cycle

def moveLoreEntry (caller : Caller) (entryId : Uuid) (parentId : Option Uuid) : Program Answer := do
  requireLorePermission wiki caller entryId .editor
  let entry ← loadEntry entryId .notFound
  refuseIfPaused wiki entry.worldId
  lockWorldTree entry.worldId
  checkParent entryId entry parentId
  setParent (fun _ _ => true) (fun db => if (db (.entry entryId)).isSome then [entryId] else []) parentId
  let moved ← loadEntry entryId (.database "Record not found")
  pure (.entry moved)

/-- `DELETE` of an entry, which leaves no parent to the entries still under it. -/
def deleteRow (entryId : Uuid) : Program Bool :=
  Call.statement (fun _ _ => true)
    (fun db : Database => if (db (.entry entryId)).isSome then
      .entry entryId :: (childrenOf wiki db entryId).map .entry else [])
    (fun db => Function.update (reparented none db) (.entry entryId) none)
    (fun db => (db (.entry entryId)).isSome) .done

def deleteLoreEntry (caller : Caller) (entryId : Uuid) : Program Answer := do
  requireLorePermission wiki caller entryId .owner
  let existing ← Call.read fun db : Database => db (.entry entryId)
  match existing with
  | none => pure (.deleted false)
  | some entry =>
    refuseIfPaused wiki entry.worldId
    lockWorldTree entry.worldId
    setParent
      (fun kind db => kind != .parentAsRead || (childrenOf wiki db entryId).isEmpty ||
        !parentExists entry.parentId db || parentOf db entryId = entry.parentId)
      (fun db => childrenOf wiki db entryId) entry.parentId
    let deleted ← deleteRow wiki entryId
    pure (.deleted deleted)

structure UpdateLoreEntryInput where
  loreEntryId : Uuid
  title : Option String
  content : Option String
  expectedCurrentRevisionId : Option Uuid

/-- The content and the revision an update leaves: what it read, or the content given as a new revision. -/
def newContent (caller : Caller) (revisionId : Uuid) (input : UpdateLoreEntryInput) (existing : LoreEntry) :
    Program (String × Option Uuid) := do
  match input.content with
  | none => pure (existing.content, existing.currentRevisionId)
  | some content =>
    Call.require (existing.currentRevisionId = input.expectedCurrentRevisionId) .conflict
    insertRevision revisionId
      { loreEntryId := input.loreEntryId, contentMarkdown := content, authorId := caller.userId,
        restoredFromRevisionId := none }
    pure (content, some revisionId)

def updateLoreEntry (caller : Caller) (revisionId : Uuid) (input : UpdateLoreEntryInput) : Program Answer := do
  requireLorePermission wiki caller input.loreEntryId .editor
  Call.require (input.content.all (·.utf8ByteSize ≤ maxLoreContentBytes)) .tooLarge
  let existing ← loadEntry input.loreEntryId .notFound
  refuseIfPaused wiki existing.worldId
  let title := input.title.getD existing.title
  let slug ← Call.read fun db => if title = existing.title then existing.slug
    else wiki.uniqueSlugForWorld db existing.worldId title (some input.loreEntryId)
  let written ← newContent caller revisionId input existing
  let _ ← Call.update (ρ := Key.Row)
    (fun kind db => kind != .revisionAsRead ||
      (db (.entry input.loreEntryId)).all (·.currentRevisionId = existing.currentRevisionId))
    (.entry input.loreEntryId) fun row => row.map
      ({ · with title, slug, content := written.1, currentRevisionId := written.2 })
  let updated ← loadEntry input.loreEntryId (.database "Record not found")
  pure (.entry updated)

def restoreLoreRevision (caller : Caller) (revisionId newRevisionId : Uuid) : Program Answer := do
  let row ← Call.read fun db : Database => (db (.revision revisionId)).map (·.loreEntryId)
  let loreEntryId ← Call.getOr row .notFound
  requireLorePermission wiki caller loreEntryId .editor
  let row ← Call.read fun db : Database => db (.revision revisionId)
  let target ← Call.getOr row (.database "Record not found")
  let entry ← loadEntry loreEntryId (.database "Record not found")
  refuseIfPaused wiki entry.worldId
  insertRevision newRevisionId
    { loreEntryId, contentMarkdown := target.contentMarkdown, authorId := caller.userId,
      restoredFromRevisionId := some revisionId }
  let _ ← Call.update (ρ := Key.Row) (fun _ _ => true) (.entry loreEntryId) fun row => row.map
    ({ · with content := target.contentMarkdown, currentRevisionId := some newRevisionId })
  let restored ← loadEntry loreEntryId (.database "Record not found")
  pure (.entry restored)

/-- A world at rest, whose entries are 1, 2 and 3. -/
def smallWiki : Wiki where
  permits _ _ _ := true
  isDmOfWorld _ _ := true
  paused _ := false
  uniqueSlugForWorld _ _ title _ := title
  entryIds := [1, 2, 3]

def loreKeeper : Caller where
  userId := 100
  isAdmin := false

end ThunderForge.Lore
