import ThunderForge.Library.Shelf

/-! Collections (`compendium/collections.rs`, `compendium/versions.rs`): writing entries into one and
taking them out, reading a version of one, and putting an earlier version back. -/

namespace ThunderForge.Library

open Std (ExtTreeMap)

/-- Start a collection on this account's shelf, under an id minted for it. -/
def createCollection (collectionId owner : Uuid) (title systemId : String) :
    Query CollectionError Compendium :=
  let title := trim title
  let collection : Compendium :=
    { ownerUserId := owner, bookTitle := title, systemId, origin := .authored, updatedBy := owner }
  if title = "" then .fail .untitled
  else .write (fun _ => [])
    (fun db =>
      if collectionId ∈ db.compendiums then .error (.database .uniqueViolation)
      else if 300 < title.length ∨ 64 < systemId.length then .error (.database .checkViolation)
      else .ok collection)
    fun db => { db with compendiums := db.compendiums.insert collectionId collection }

/-- The caller's collection, refused if it is an imported book. -/
def writable (caller collectionId : Uuid) : Query CollectionError Compendium := do
  requireAccountOwner caller collectionId
  let collection ← (compendiumRow collectionId).mapError .database
  .require (collection.origin = .authored) (.importedBook collection.bookTitle)
  return collection

/-- What an entry of this content holds. -/
def Content.columns : Content → FieldValues × Option String
  | .fields values => (toFieldValues values, none)
  | .prose text => (.object ∅, some text)

/-- Write an entry into a collection. -/
def writeEntry (versionId entryId caller collectionId : Uuid) (kind name : String) (content : Content) :
    Query CollectionError StoredEntry := do
  let _ ← writable caller collectionId
  let kind := trim kind
  let name := trim name
  .require (kind ≠ "" ∧ name ≠ "") .unnamed
  let held ← .read fun db => identityCount (db.entriesOf collectionId) ⟨kind, name⟩
  .require (held = 0) (.alreadyHas kind name)
  (record versionId collectionId ("Wrote " ++ kind ++ " \"" ++ name ++ "\"")).mapError .database
  let entry ← (insertRow
    { id := entryId, compendiumId := collectionId, kind, name
      fieldValues := content.columns.1, proseText := content.columns.2 }).mapError .database
  (nextVersion caller collectionId).mapError .database
  return entry

/-- Delete one row of a collection, answering how many there were. -/
def deleteEntry (collectionId entryId : Uuid) : Query DatabaseError Nat :=
  .write (fun _ => [.entry entryId])
    (fun db => .ok ((db.entriesOf collectionId).countP fun entry => entry.id = entryId))
    fun db => { db with
      entries := db.entries.filter fun entry => ¬(entry.id = entryId ∧ entry.compendiumId = collectionId) }

/-- Take an entry out of a collection. -/
def removeEntry (versionId caller collectionId entryId : Uuid) : Query CollectionError Unit := do
  let _ ← writable caller collectionId
  let named ← .read fun db => (db.entriesOf collectionId).find? fun entry => entry.id = entryId
  match named with
  | none => .fail .noSuchEntry
  | some entry =>
    (record versionId collectionId ("Took out " ++ entry.kind ++ " \"" ++ entry.name ++ "\"")).mapError
      .database
    let removed ← (deleteEntry collectionId entryId).mapError .database
    .require (removed ≠ 0) .noSuchEntry
    (nextVersion caller collectionId).mapError .database

/-- Which version of a collection to read. -/
inductive At where
  | current
  | version (version : Int)

/-- The row that keeps one earlier version of a collection. -/
def Database.versionRow (db : Database) (collectionId : Uuid) (version : Int) : Option CollectionVersion :=
  db.versions.find? fun row => row.compendiumId = collectionId ∧ (row.version : Int) = version

/-- What a collection held at a version, by kind and name. -/
def readAt (caller collectionId : Uuid) (which : At) : Query CollectionError (List VersionEntry) := do
  requireAccountOwner caller collectionId
  match which with
  | .current =>
    let entries ← .read fun db => db.entriesInForce collectionId
    return SortBy.sortBy VersionEntry.identity entries
  | .version version =>
    match ← .read fun db => (db.versionRow collectionId version).map CollectionVersion.entries with
    | none => .fail (.noSuchVersion version)
    | some entries => return SortBy.sortBy VersionEntry.identity entries

def refuseUnlessAuthored (collectionId : Uuid) : Query CollectionError Unit := do
  let collection ← (compendiumRow collectionId).mapError .database
  .require (collection.origin = .authored) (.importedBook collection.bookTitle)

/-- Delete every entry of a collection. -/
def clearEntries (collectionId : Uuid) : Query DatabaseError Unit :=
  .write (fun db => (db.entriesOf collectionId).map fun entry => .entry entry.id) (fun _ => .ok ())
    fun db => { db with entries := db.entries.filter fun entry => entry.compendiumId ≠ collectionId }

/-- One row of a restore, under the next id minted. -/
def restoreEntry (mint : Nat → Uuid) (collectionId : Uuid) (entry : VersionEntry × Nat) :
    Query CollectionError Unit := do
  let _ ← (insertEntry (mint entry.2) collectionId entry.1).mapError .database

/-- Put an earlier version back, as a new version. -/
def restore (versionId : Uuid) (mint : Nat → Uuid) (caller collectionId : Uuid) (version : Int) :
    Query CollectionError Compendium := do
  let entries ← readAt caller collectionId (.version version)
  refuseUnlessAuthored collectionId
  (record versionId collectionId ("Went back to version " ++ toString version)).mapError .database
  (clearEntries collectionId).mapError .database
  .forEach (restoreEntry mint collectionId) entries.zipIdx
  (nextVersion caller collectionId).mapError .database
  (compendiumRow collectionId).mapError .database

/-! ### What each statement comes to -/

section Statements

variable {db db' : Database} {collectionId caller : Uuid}

theorem exec_requireAccountOwner_bind {α : Type} {f : Unit → Query CollectionError α}
    {r : α × Database} : (requireAccountOwner caller collectionId >>= f).exec db = .ok r ↔
      (db.compendiums[collectionId]?).map Compendium.ownerUserId = some caller ∧
        (f ()).exec db = .ok r := by
  change (Transaction.read _ >>= fun owner => Transaction.require _ _ >>= f).exec db = _ ↔ _
  rw [Transaction.exec_read_bind, Transaction.exec_require_bind_eq_ok]

theorem exec_compendiumRow {collection : Compendium} :
    (compendiumRow collectionId).exec db = .ok (collection, db') ↔
      db.compendiums[collectionId]? = some collection ∧ db = db' := by
  unfold compendiumRow
  rw [Transaction.exec_write_eq_ok]
  cases db.compendiums[collectionId]? <;> simp

/-- The caller owns the collection, and it is one that was written here. -/
theorem exec_writable {collection : Compendium} :
    (writable caller collectionId).exec db = .ok (collection, db') ↔
      db.compendiums[collectionId]? = some collection ∧ collection.ownerUserId = caller ∧
        collection.origin = .authored ∧ db = db' := by
  unfold writable
  simp only [exec_requireAccountOwner_bind, Transaction.exec_mapError_bind_eq_ok, exec_compendiumRow,
    Transaction.exec_require_bind_eq_ok, Transaction.exec_pure, Except.ok.injEq, Prod.mk.injEq]
  constructor
  · rintro ⟨howner, row, s, ⟨hrow, rfl⟩, horigin, rfl, hdb⟩
    exact ⟨hrow, by simpa [hrow] using howner, horigin, hdb⟩
  · rintro ⟨hrow, howner, horigin, hdb⟩
    exact ⟨by simp [hrow, howner], collection, db, ⟨hrow, rfl⟩, horigin, rfl, hdb⟩

theorem exec_readAt_current {entries : List VersionEntry} :
    (readAt caller collectionId .current).exec db = .ok (entries, db') ↔
      (db.compendiums[collectionId]?).map Compendium.ownerUserId = some caller ∧
        SortBy.sortBy VersionEntry.identity (db.entriesInForce collectionId) = entries ∧ db = db' := by
  simp [readAt, exec_requireAccountOwner_bind]

theorem exec_readAt_version {version : Int} {entries : List VersionEntry} :
    (readAt caller collectionId (.version version)).exec db = .ok (entries, db') ↔
      (db.compendiums[collectionId]?).map Compendium.ownerUserId = some caller ∧
        ∃ row, db.versionRow collectionId version = some row ∧
          SortBy.sortBy VersionEntry.identity row.entries = entries ∧ db = db' := by
  simp only [readAt, exec_requireAccountOwner_bind, Transaction.exec_read_bind]
  cases db.versionRow collectionId version <;> simp

/-- A version kept is the collection as it stands, under its version in force. -/
theorem exec_record {versionId : Uuid} {replacedBy : String} {u : Unit}
    (h : (record versionId collectionId replacedBy).exec db = .ok (u, db')) :
    ∃ collection version, db.compendiums[collectionId]? = some collection ∧
      collection.origin = .authored ∧ version.compendiumId = collectionId ∧
      version.version = collection.baseVersion ∧ version.entries = db.entriesInForce collectionId ∧
      db' = { db with versions := db.versions ++ [version] } := by
  unfold record at h
  rw [Transaction.exec_lock_bind] at h
  obtain ⟨collection, s₁, hrow, h⟩ := Transaction.exec_bind_eq_ok.mp h
  obtain ⟨hcollection, rfl⟩ := exec_compendiumRow.mp hrow
  rw [Transaction.exec_read_bind] at h
  obtain ⟨hanswer, rfl⟩ := Transaction.exec_write_eq_ok.mp h
  split_ifs at hanswer with horigin
  exact ⟨collection, _, hcollection, not_not.mp horigin, rfl, rfl, rfl, rfl⟩

/-- Moving on a version changes the row of the collection alone. -/
theorem exec_nextVersion {u : Unit} (h : (nextVersion caller collectionId).exec db = .ok (u, db')) :
    db' = { db with compendiums := db.compendiums.modify collectionId fun collection =>
      { collection with
        entryCounts := db.countsByKind collectionId, baseVersion := collection.baseVersion + 1
        updatedBy := caller } } := by
  unfold nextVersion at h
  rw [Transaction.exec_read_bind] at h
  exact (Transaction.exec_write_eq_ok.mp h).2.symm

theorem exec_insertRow {entry stored : StoredEntry} :
    (insertRow entry).exec db = .ok (stored, db') ↔
      (∀ row ∈ db.entries, row.id ≠ entry.id) ∧ storable entry = true ∧ stored = entry ∧
        db' = { db with entries := db.entries ++ [entry] } := by
  unfold insertRow
  rw [Transaction.exec_write_eq_ok]
  by_cases htaken : db.entries.any fun row => row.id = entry.id
  · rw [if_pos htaken]
    obtain ⟨row, hrow, hid⟩ := List.any_eq_true.mp htaken
    exact iff_of_false (fun h => nomatch h.1) fun h => h.1 row hrow (by simpa using hid)
  · have hfresh : ∀ row ∈ db.entries, row.id ≠ entry.id := fun row hrow hid =>
      htaken (List.any_eq_true.mpr ⟨row, hrow, by simpa using hid⟩)
    rw [if_neg htaken]
    by_cases hstorable : storable entry = true
    · simp only [hstorable, not_true_eq_false, if_false, Except.ok.injEq, true_and]
      exact ⟨fun h => ⟨hfresh, h.1.symm, h.2.symm⟩, fun h => ⟨h.2.1.symm, h.2.2.symm⟩⟩
    · simp [hstorable]

end Statements

/-! ### What a change leaves -/

/-- A change of a collection that lands: the version in force is kept, and the collection holds the next
one with its entries counted. -/
structure Advanced (collectionId : Uuid) (db db' : Database) : Prop where
  row : ∃ collection caller, db.compendiums[collectionId]? = some collection ∧
    db'.compendiums[collectionId]? = some { collection with
      entryCounts := db'.countsByKind collectionId, baseVersion := collection.baseVersion + 1
      updatedBy := caller }
  kept : ∃ collection version, db.compendiums[collectionId]? = some collection ∧
    version.compendiumId = collectionId ∧ version.version = collection.baseVersion ∧
    version.entries = db.entriesInForce collectionId ∧ db'.versions = db.versions ++ [version]

/-- Keeping a version, changing entries or deltas, and moving on is such a change. -/
theorem advanced_of_statements {db db₁ db₂ db' : Database} {collectionId versionId caller : Uuid}
    {replacedBy : String} {u v : Unit}
    (hrecord : (record versionId collectionId replacedBy).exec db = .ok (u, db₁))
    (hnext : (nextVersion caller collectionId).exec db₂ = .ok (v, db'))
    (hcompendiums : db₂.compendiums = db₁.compendiums) (hversions : db₂.versions = db₁.versions) :
    Advanced collectionId db db' := by
  obtain ⟨collection, version, hcollection, -, hid, hversion, hentries, rfl⟩ := exec_record hrecord
  obtain rfl := exec_nextVersion hnext
  refine ⟨⟨collection, caller, hcollection, ?_⟩, ⟨collection, version, hcollection, hid, hversion,
    hentries, hversions⟩⟩
  dsimp only
  rw [ExtTreeMap.getElem?_modify, if_pos (by simp), hcompendiums, hcollection]
  rfl

theorem advanced_writeEntry {db db' : Database} {versionId entryId caller collectionId : Uuid}
    {kind name : String} {content : Content} {stored : StoredEntry}
    (h : (writeEntry versionId entryId caller collectionId kind name content).exec db =
      .ok (stored, db')) : Advanced collectionId db db' := by
  unfold writeEntry at h
  obtain ⟨_, s₁, hwritable, h⟩ := Transaction.exec_bind_eq_ok.mp h
  obtain ⟨-, -, -, rfl⟩ := exec_writable.mp hwritable
  obtain ⟨-, h⟩ := Transaction.exec_require_bind_eq_ok.mp h
  rw [Transaction.exec_read_bind] at h
  obtain ⟨-, h⟩ := Transaction.exec_require_bind_eq_ok.mp h
  obtain ⟨_, s₂, hrecord, h⟩ := Transaction.exec_mapError_bind_eq_ok.mp h
  obtain ⟨_, s₃, hinsert, h⟩ := Transaction.exec_mapError_bind_eq_ok.mp h
  obtain ⟨-, -, -, rfl⟩ := exec_insertRow.mp hinsert
  obtain ⟨_, s₄, hnext, h⟩ := Transaction.exec_mapError_bind_eq_ok.mp h
  obtain ⟨-, rfl⟩ := Prod.mk.inj (Except.ok.inj h)
  exact advanced_of_statements hrecord hnext rfl rfl

theorem advanced_removeEntry {db db' : Database} {versionId caller collectionId entryId : Uuid} {u : Unit}
    (h : (removeEntry versionId caller collectionId entryId).exec db = .ok (u, db')) :
    Advanced collectionId db db' := by
  unfold removeEntry at h
  obtain ⟨_, s₁, hwritable, h⟩ := Transaction.exec_bind_eq_ok.mp h
  obtain ⟨-, -, -, rfl⟩ := exec_writable.mp hwritable
  rw [Transaction.exec_read_bind] at h
  cases hnamed : (db.entriesOf collectionId).find? fun entry => entry.id = entryId with
  | none => simp [hnamed] at h
  | some entry =>
      simp only [hnamed] at h
      obtain ⟨_, s₂, hrecord, h⟩ := Transaction.exec_mapError_bind_eq_ok.mp h
      obtain ⟨_, s₃, hdelete, h⟩ := Transaction.exec_mapError_bind_eq_ok.mp h
      obtain ⟨-, rfl⟩ := Transaction.exec_write_eq_ok.mp hdelete
      obtain ⟨-, h⟩ := Transaction.exec_require_bind_eq_ok.mp h
      exact advanced_of_statements hrecord (Transaction.exec_mapError_eq_ok.mp h) rfl rfl

/-- A restore inserts the version's entries and nothing else. -/
theorem exec_restoreEntries {mint : Nat → Uuid} {collectionId : Uuid} {entries : List VersionEntry}
    {db db' : Database} {u : Unit} (hempty : db.entriesOf collectionId = [])
    (h : (Transaction.forEach (restoreEntry mint collectionId) entries.zipIdx).exec db = .ok (u, db')) :
    db'.compendiums = db.compendiums ∧ db'.versions = db.versions ∧
      (db'.entriesOf collectionId).map VersionEntry.ofStored = entries := by
  have hround (before : List (VersionEntry × Nat)) (entry : VersionEntry × Nat) (s : Database) (v : Unit)
      (s' : Database) (hbefore : s.compendiums = db.compendiums ∧ s.versions = db.versions ∧
        (s.entriesOf collectionId).map VersionEntry.ofStored = before.map Prod.fst)
      (hentry : (restoreEntry mint collectionId entry).exec s = .ok (v, s')) :
      s'.compendiums = db.compendiums ∧ s'.versions = db.versions ∧
        (s'.entriesOf collectionId).map VersionEntry.ofStored = (before ++ [entry]).map Prod.fst := by
    obtain ⟨hcompendiums, hversions, hentries⟩ := hbefore
    obtain ⟨_, s₁, hinsert, hentry⟩ := Transaction.exec_mapError_bind_eq_ok.mp hentry
    obtain ⟨-, -, -, rfl⟩ := exec_insertRow.mp hinsert
    obtain ⟨-, rfl⟩ := Prod.mk.inj (Except.ok.inj hentry)
    refine ⟨hcompendiums, hversions, ?_⟩
    rw [List.map_append, ← hentries]
    simp [Database.entriesOf, VersionEntry.ofStored]
  have hloop := Transaction.exec_forEach hround h ⟨rfl, rfl, by simp [hempty]⟩
  rwa [List.zipIdx_map_fst] at hloop

/-- What a restore leaves: a new version holding the old one's entries. -/
theorem advanced_restore {db db' : Database} {versionId caller collectionId : Uuid} {mint : Nat → Uuid}
    {version : Int} {collection : Compendium}
    (h : (restore versionId mint caller collectionId version).exec db = .ok (collection, db')) :
    Advanced collectionId db db' ∧ ∃ row, db.versionRow collectionId version = some row ∧
      (db'.entriesInForce collectionId).Perm row.entries := by
  unfold restore at h
  obtain ⟨entries, s₁, hread, h⟩ := Transaction.exec_bind_eq_ok.mp h
  obtain ⟨-, row, hrow, rfl, rfl⟩ := exec_readAt_version.mp hread
  obtain ⟨_, s₂, hauthored, h⟩ := Transaction.exec_bind_eq_ok.mp h
  have hsame : db = s₂ := by
    obtain ⟨_, s₃, hcollection, hauthored⟩ := Transaction.exec_mapError_bind_eq_ok.mp hauthored
    obtain ⟨-, rfl⟩ := exec_compendiumRow.mp hcollection
    exact (Transaction.exec_require_eq_ok.mp hauthored).2
  obtain ⟨_, s₃, hrecord, h⟩ := Transaction.exec_mapError_bind_eq_ok.mp h
  obtain ⟨_, s₄, hclear, h⟩ := Transaction.exec_mapError_bind_eq_ok.mp h
  obtain ⟨-, rfl⟩ := Transaction.exec_write_eq_ok.mp hclear
  obtain ⟨_, s₅, hinsert, h⟩ := Transaction.exec_bind_eq_ok.mp h
  obtain ⟨hcompendiums, hversions, hentries⟩ := exec_restoreEntries (by simp [Database.entriesOf]) hinsert
  obtain ⟨_, s₆, hnext, h⟩ := Transaction.exec_mapError_bind_eq_ok.mp h
  obtain ⟨hcollection, rfl⟩ := exec_compendiumRow.mp (Transaction.exec_mapError_eq_ok.mp h)
  subst hsame
  refine ⟨advanced_of_statements hrecord hnext hcompendiums hversions, row, hrow, ?_⟩
  have hsorted : (s₅.entriesInForce collectionId).Perm ((s₅.entriesOf collectionId).map _) :=
    (SortBy.sortBy_perm _ _).map VersionEntry.ofStored
  rw [hentries] at hsorted
  rw [exec_nextVersion hnext]
  exact hsorted.trans (SortBy.sortBy_perm _ _)

end ThunderForge.Library
