import ThunderForge.Library.Collections

/-! Syncing a world's changes back to the collection they were made over
(`library/deltas/sync_back.rs`, `library/deltas/reimport.rs`). The digest behind a stamp and the order in
which hash maps yield what they hold are parameters. -/

namespace ThunderForge.Library

/-- What a sync back does to one entry on the shelf. -/
inductive ShelfChange where
  | rewritten (kind name : String) (before after : Before)
  | takenOut (kind name : String) (before : Before)
  | added (kind name : String) (after : Before)
  deriving DecidableEq

/-- The kind and name of the entry this change is to. -/
def ShelfChange.identity : ShelfChange → Identity
  | rewritten kind name _ _ => ⟨kind, name⟩
  | takenOut kind name _ => ⟨kind, name⟩
  | added kind name _ => ⟨kind, name⟩

/-- Everything a sync back would do. -/
structure SyncPlan where
  collectionId : Uuid
  collectionTitle : String
  worldName : String
  baseVersion : Nat
  changes : List ShelfChange
  staying : List (Delta × Unattached)
  stamp : String

/-- One world's deltas over a book that no longer attach to it. -/
structure WorldUnattached where
  worldId : Uuid
  worldName : String
  deltas : List (Delta × Unattached)

/-- What a landed sync back did. -/
structure SyncOutcome where
  plan : SyncPlan
  baseVersion : Nat
  stranded : List WorldUnattached

section SyncBack

variable (digest : List UInt8 → List UInt8) (hash : HashOrder Delta)

/-- Who may sync, and to what: the world's owner, over a collection on this world's list. -/
def maySync (caller worldId compendiumId : Uuid) : Query DeltaError Unit := do
  let owner ← requireBookManager caller worldId
  requireServed worldId compendiumId
  let collection ← (compendiumRow compendiumId).mapError .database
  .require (collection.origin = .authored) (.bookNeverSyncsBack collection.bookTitle)
  .require (caller = owner) .onlyTheOwnerSyncs

/-- A byte as two hexadecimal digits. -/
def hexByte (byte : UInt8) : String :=
  String.ofList [Nat.digitChar (byte.toNat / 16), Nat.digitChar (byte.toNat % 16)]

/-- The version in force and each delta as it last stood. -/
def stampOf (baseVersion : Nat) (deltas : List Delta) : String :=
  String.join ((digest (BigEndian.encode 4 baseVersion ++ deltas.flatMap fun delta =>
    BigEndian.encode 16 delta.id.toNat ++ BigEndian.encode 8 delta.updatedAt)).map hexByte)

/-- What the base holds under a kind and name. -/
def beforeOf (base : List StoredEntry) (identity : Identity) : Option Before :=
  (base.find? fun entry => entry.identity = identity).map fun entry =>
    ⟨entry.fieldValues, entry.proseText⟩

/-- The change that an entry, as its world reads it, makes to the shelf. -/
def changeOf (base : List StoredEntry) (read : WorldEntry) : Option ShelfChange :=
  let after : Before := ⟨read.fieldValues, read.proseText⟩
  match read.state with
  | .inherited => none
  | .changed => (read.before.or (beforeOf base read.identity)).map fun before =>
      .rewritten read.kind read.name before after
  | .hidden => some (.takenOut read.kind read.name after)
  | .added => some (.added read.kind read.name after)

/-- What syncing a world's deltas back would do. -/
def plan (worldId compendiumId : Uuid) : Query DeltaError SyncPlan := do
  let collection ← (compendiumRow compendiumId).mapError .database
  match ← .read fun db => (db.worlds[worldId]?).map World.name with
  | none => .fail (.database .notFound)
  | some worldName =>
    let base ← .read fun db => db.baseEntries compendiumId
    let deltas ← .read fun db => db.deltasOver worldId compendiumId
    let resolution := resolve hash .authored base deltas true
    return { collectionId := compendiumId, collectionTitle := collection.bookTitle, worldName
             baseVersion := collection.baseVersion
             changes := resolution.entries.filterMap (changeOf base)
             staying := resolution.unattached
             stamp := stampOf digest collection.baseVersion deltas }

/-- What a sync back would do, without doing it. -/
def planSyncBack (caller worldId compendiumId : Uuid) : Query DeltaError SyncPlan := do
  maySync caller worldId compendiumId
  plan digest hash worldId compendiumId

/-- Give the row with this id other content. -/
def updateEntry (entryId : Uuid) (content : Before) : Query DatabaseError Unit :=
  .write (fun _ => [.entry entryId])
    (fun db =>
      if db.entries.all fun entry => entry.id ≠ entryId ∨ storable
          { entry with fieldValues := content.fieldValues, proseText := content.proseText } then .ok ()
      else .error .checkViolation)
    fun db => { db with
      entries := db.entries.map fun entry =>
        if entry.id = entryId then
          { entry with fieldValues := content.fieldValues, proseText := content.proseText }
        else entry }

/-- Delete the row with this id. -/
def deleteRow (entryId : Uuid) : Query DatabaseError Unit :=
  .write (fun _ => [.entry entryId]) (fun _ => .ok ())
    fun db => { db with entries := db.entries.filter fun entry => entry.id ≠ entryId }

/-- The id of the base's row under a kind and name. -/
def idOf (base : List StoredEntry) (identity : Identity) : Query DeltaError Uuid :=
  match base.find? fun entry => entry.identity = identity with
  | some entry => return entry.id
  | none => .fail .syncPlanChanged

/-- Land one change on the shelf. -/
def land (mint : Nat → Uuid) (compendiumId : Uuid) (base : List StoredEntry) (change : ShelfChange × Nat) :
    Query DeltaError Unit :=
  match change.1 with
  | .rewritten kind name _ after => do
    let entryId ← idOf base ⟨kind, name⟩
    (updateEntry entryId after).mapError .database
  | .takenOut kind name _ => do
    let entryId ← idOf base ⟨kind, name⟩
    (deleteRow entryId).mapError .database
  | .added kind name after => do
    let _ ← (insertEntry (mint change.2) compendiumId
      { kind, name, nameUncertain := false, fieldValues := after.fieldValues, proseText := after.proseText
        suspect := false, extras := none }).mapError .database

/-- The world stops holding the delta this change came from. -/
def release (worldId compendiumId : Uuid) (change : ShelfChange) : Query DeltaError Unit :=
  .write (fun _ => [.delta worldId compendiumId change.identity]) (fun _ => .ok ())
    fun db => { db with
      deltas := db.deltas.filter fun delta => ¬(delta.worldId = worldId ∧
        delta.compendiumId = some compendiumId ∧ delta.identity = change.identity) }

/-- The database's refusal of a version, in the words a person is shown. -/
def refusedAsABook (title : String) : DatabaseError → DeltaError
  | .onlyAuthoredKeepsVersions => .bookNeverSyncsBack title
  | error => .database error

/-- Every world's deltas over a book that do not attach to the base in force, by world name. -/
def unattachedAfterReimport (compendiumId : Uuid) : Query DatabaseError (List WorldUnattached) := do
  let held ← .read fun db => db.deltas.filterMap fun delta =>
    if delta.compendiumId = some compendiumId then
      (db.worlds[delta.worldId]?).map fun world => (delta, world.name)
    else none
  if held = [] then return []
  let base ← .read fun db => db.entriesOf compendiumId
  let collection ← compendiumRow compendiumId
  let worlds := SortBy.sortBy (fun world : String × Uuid => toLex (world.1, world.2.toNat))
    (held.map fun (delta, name) => (name, delta.worldId)).dedup
  return worlds.filterMap fun (worldName, worldId) =>
    let deltas := (held.filter fun (delta, name) => (name, delta.worldId) = (worldName, worldId)).map
      Prod.fst
    let unattached := (resolve hash collection.origin base deltas false).unattached
    if unattached = [] then none else some { worldId, worldName, deltas := unattached }

/-- Sync a world's changes over a collection back to it, if they are still the ones the stamp names. -/
def syncBack (versionId : Uuid) (mint : Nat → Uuid) (caller worldId compendiumId : Uuid)
    (stamp : String) : Query DeltaError SyncOutcome := do
  let _ ← requireBookManager caller worldId
  refuseIfPaused worldId
  maySync caller worldId compendiumId
  .lock (.compendium compendiumId)
  let _ ← (compendiumRow compendiumId).mapError .database
  let plan ← plan digest hash worldId compendiumId
  .require (plan.stamp = stamp) .syncPlanChanged
  .require (plan.changes ≠ []) .nothingToSync
  (record versionId compendiumId ("Synced from " ++ plan.worldName)).mapError
    (refusedAsABook plan.collectionTitle)
  let base ← .read fun db => db.baseEntries compendiumId
  .forEach (land mint compendiumId base) plan.changes.zipIdx
  .forEach (release worldId compendiumId) plan.changes
  (nextVersion caller compendiumId).mapError .database
  let collection ← (compendiumRow compendiumId).mapError .database
  let stranded ← (unattachedAfterReimport hash compendiumId).mapError .database
  return { plan, baseVersion := collection.baseVersion, stranded }

/-- What a world reads from one book. -/
def worldReads (worldId compendiumId : Uuid) (showHidden : Bool) : Query DeltaError Resolution := do
  requireServed worldId compendiumId
  let base ← .read fun db => db.baseEntries compendiumId
  let collection ← (compendiumRow compendiumId).mapError .database
  let deltas ← .read fun db => db.deltasOver worldId compendiumId
  return resolve hash collection.origin base deltas showHidden

/-! ### What a sync back leaves -/

variable {digest hash} {db db' : Database} {caller worldId compendiumId : Uuid}

theorem readOnly_requireBookManager : (requireBookManager caller worldId).ReadOnly := by
  refine .bind (.read _) fun world => ?_
  cases world with
  | none => exact .fail _
  | some world => exact .bind (.require _ _) fun _ => .pure _

theorem readOnly_requireServed : (requireServed worldId compendiumId).ReadOnly := by
  refine .bind (.read _) fun listed => ?_
  cases listed with
  | none => exact .fail _
  | some matching => exact .require _ _

theorem readOnly_compendiumRow : (compendiumRow compendiumId).ReadOnly :=
  fun _ _ _ h => (exec_compendiumRow.mp h).2

theorem readOnly_maySync : (maySync caller worldId compendiumId).ReadOnly := by
  refine .bind readOnly_requireBookManager fun owner => .bind readOnly_requireServed fun _ => ?_
  refine .bind (readOnly_compendiumRow.mapError _) fun collection => ?_
  exact .bind (.require _ _) fun _ => .require _ _

/-- The plan, from what the tables hold. -/
theorem exec_plan {result : SyncPlan} :
    (plan digest hash worldId compendiumId).exec db = .ok (result, db') ↔
      ∃ collection world, db.compendiums[compendiumId]? = some collection ∧
        db.worlds[worldId]? = some world ∧
        let resolution := resolve hash .authored (db.baseEntries compendiumId)
          (db.deltasOver worldId compendiumId) true
        result = { collectionId := compendiumId, collectionTitle := collection.bookTitle
                   worldName := world.name, baseVersion := collection.baseVersion
                   changes := resolution.entries.filterMap (changeOf (db.baseEntries compendiumId))
                   staying := resolution.unattached
                   stamp := stampOf digest collection.baseVersion (db.deltasOver worldId compendiumId) } ∧
          db = db' := by
  unfold plan
  simp only [Transaction.exec_mapError_bind_eq_ok, exec_compendiumRow, Transaction.exec_read_bind]
  constructor
  · rintro ⟨collection, s₁, ⟨hcollection, rfl⟩, h⟩
    cases hworld : db.worlds[worldId]? with
    | none => simp [hworld] at h
    | some world =>
        simp only [hworld, Option.map_some, Transaction.exec_read_bind, Transaction.exec_pure] at h
        obtain ⟨hresult, hdb⟩ := Prod.mk.inj (Except.ok.inj h)
        exact ⟨collection, world, hcollection, rfl, hresult.symm, hdb⟩
  · rintro ⟨collection, world, hcollection, hworld, rfl, rfl⟩
    exact ⟨collection, db, ⟨hcollection, rfl⟩, by simp [hworld]⟩

theorem readOnly_unattachedAfterReimport : (unattachedAfterReimport hash compendiumId).ReadOnly := by
  refine .bind (.read _) fun held => ?_
  split_ifs
  · exact .pure _
  · exact .bind (.read _) fun base => .bind readOnly_compendiumRow fun collection => .pure _

/-- The statements of a sync back that lands, and the states between them. -/
theorem exec_syncBack {versionId : Uuid} {mint : Nat → Uuid} {stamp : String} {outcome : SyncOutcome}
    (h : (syncBack digest hash versionId mint caller worldId compendiumId stamp).exec db =
      .ok (outcome, db')) :
    (∃ u, (requireServed worldId compendiumId).exec db = .ok (u, db)) ∧
    (plan digest hash worldId compendiumId).exec db = .ok (outcome.plan, db) ∧
    outcome.plan.stamp = stamp ∧ outcome.plan.changes ≠ [] ∧
    ∃ db₁ db₂ db₃ u₁ u₂ u₃ u₄,
      (record versionId compendiumId ("Synced from " ++ outcome.plan.worldName)).exec db = .ok (u₁, db₁) ∧
      (Transaction.forEach (land mint compendiumId (db.baseEntries compendiumId))
        outcome.plan.changes.zipIdx).exec db₁ = .ok (u₂, db₂) ∧
      (Transaction.forEach (release worldId compendiumId) outcome.plan.changes).exec db₂ = .ok (u₃, db₃) ∧
      (nextVersion caller compendiumId).exec db₃ = .ok (u₄, db') := by
  unfold syncBack at h
  obtain ⟨owner, s₁, hmanager, h⟩ := Transaction.exec_bind_eq_ok.mp h
  obtain rfl := readOnly_requireBookManager _ _ _ hmanager
  obtain ⟨_, s₂, hpaused, h⟩ := Transaction.exec_bind_eq_ok.mp h
  obtain rfl : db = s₂ := (Transaction.ReadOnly.read _).bind (fun _ => .require _ _) _ _ _ hpaused
  obtain ⟨_, s₃, hmay, h⟩ := Transaction.exec_bind_eq_ok.mp h
  obtain rfl := readOnly_maySync _ _ _ hmay
  rw [Transaction.exec_lock_bind] at h
  obtain ⟨_, s₄, hrow, h⟩ := Transaction.exec_mapError_bind_eq_ok.mp h
  obtain rfl := readOnly_compendiumRow _ _ _ hrow
  obtain ⟨planned, s₅, hplan, h⟩ := Transaction.exec_bind_eq_ok.mp h
  obtain ⟨_, _, _, _, _, rfl⟩ := exec_plan.mp hplan
  obtain ⟨hstamp, h⟩ := Transaction.exec_require_bind_eq_ok.mp h
  obtain ⟨hchanges, h⟩ := Transaction.exec_require_bind_eq_ok.mp h
  obtain ⟨_, s₆, hrecord, h⟩ := Transaction.exec_mapError_bind_eq_ok.mp h
  rw [Transaction.exec_read_bind] at h
  obtain ⟨_, s₇, hland, h⟩ := Transaction.exec_bind_eq_ok.mp h
  obtain ⟨_, s₈, hrelease, h⟩ := Transaction.exec_bind_eq_ok.mp h
  obtain ⟨_, s₉, hnext, h⟩ := Transaction.exec_mapError_bind_eq_ok.mp h
  obtain ⟨_, s₁₀, hcollection, h⟩ := Transaction.exec_mapError_bind_eq_ok.mp h
  obtain rfl := readOnly_compendiumRow _ _ _ hcollection
  obtain ⟨_, s₁₁, hstranded, h⟩ := Transaction.exec_mapError_bind_eq_ok.mp h
  obtain rfl := readOnly_unattachedAfterReimport _ _ _ hstranded
  obtain ⟨rfl, rfl⟩ := Prod.mk.inj (Except.ok.inj h)
  have hbase : s₆.baseEntries compendiumId = db.baseEntries compendiumId := by
    obtain ⟨_, _, _, _, _, _, _, rfl⟩ := exec_record hrecord
    rfl
  rw [hbase] at hland
  have hserved : ∃ u, (requireServed worldId compendiumId).exec db = .ok (u, db) := by
    obtain ⟨_, t₁, hmanager, hmay⟩ := Transaction.exec_bind_eq_ok.mp hmay
    obtain rfl := readOnly_requireBookManager _ _ _ hmanager
    obtain ⟨u, t₂, hserved, -⟩ := Transaction.exec_bind_eq_ok.mp hmay
    obtain rfl := readOnly_requireServed _ _ _ hserved
    exact ⟨u, hserved⟩
  exact ⟨hserved, hplan, hstamp, hchanges, s₆, s₇, s₈, _, _, _, _, hrecord, hland, hrelease, hnext⟩

/-- The world stops holding what was synced, and nothing else changes. -/
theorem exec_releases {changes : List ShelfChange} {u : Unit}
    (h : (Transaction.forEach (release worldId compendiumId) changes).exec db = .ok (u, db')) :
    db' = { db with
      deltas := db.deltas.filter fun delta => ¬(delta.worldId = worldId ∧
        delta.compendiumId = some compendiumId ∧ delta.identity ∈ changes.map ShelfChange.identity) } := by
  refine Transaction.exec_forEach (I := fun done s => s = { db with
    deltas := db.deltas.filter fun delta => ¬(delta.worldId = worldId ∧
      delta.compendiumId = some compendiumId ∧ delta.identity ∈ done.map ShelfChange.identity) })
    (fun done change s v s' hs hrelease => ?_) h (by simp)
  obtain ⟨-, rfl⟩ := Transaction.exec_write_eq_ok.mp hrelease
  subst hs
  simp only [List.filter_filter, List.map_append, List.map_cons, List.map_nil, List.mem_append,
    List.mem_singleton]
  congr 1
  refine List.filter_congr fun delta _ => ?_
  simp only [decide_not, Bool.decide_and, Bool.decide_or]
  grind

/-- What one change does to the rows under its kind and name. -/
def Landing (compendiumId : Uuid) (before after : List StoredEntry) : ShelfChange → Prop
  | .rewritten _ _ _ content => ∃ entry ∈ before, after = before.map fun row =>
      if row.id = entry.id then
        { row with fieldValues := content.fieldValues, proseText := content.proseText }
      else row
  | .takenOut _ _ _ => ∃ entry ∈ before, after = before.filter fun row => row.id ≠ entry.id
  | .added kind name content => ∃ entryId, after = before ++
      [{ id := entryId, compendiumId, kind, name, fieldValues := content.fieldValues
         proseText := content.proseText }]

/-- The shelf when some of the changes have landed. -/
structure Landed (compendiumId : Uuid) (db : Database) (done : List ShelfChange) (s : Database) : Prop where
  elsewhere : s.compendiums = db.compendiums ∧ s.versions = db.versions ∧ s.deltas = db.deltas ∧
    s.worlds = db.worlds
  ids : (s.entries.map StoredEntry.id).Nodup
  touched : ∀ change ∈ done, Landing compendiumId (db.entriesAt compendiumId change.identity)
    (s.entriesAt compendiumId change.identity) change
  untouched : ∀ otherId identity, (otherId = compendiumId → identity ∉ done.map ShelfChange.identity) →
    s.entriesAt otherId identity = db.entriesAt otherId identity

theorem mem_entriesAt {identity : Identity} {entry : StoredEntry} :
    entry ∈ db.entriesAt compendiumId identity ↔
      entry ∈ db.entries ∧ entry.compendiumId = compendiumId ∧ entry.identity = identity := by
  simp only [Database.entriesAt, Database.entriesOf, List.mem_filter, decide_eq_true_eq, and_assoc]

theorem entriesAt_map {f : StoredEntry → StoredEntry}
    (hcompendium : ∀ entry, (f entry).compendiumId = entry.compendiumId)
    (hidentity : ∀ entry, (f entry).identity = entry.identity) (db : Database) (compendiumId : Uuid)
    (identity : Identity) :
    ({ db with entries := db.entries.map f } : Database).entriesAt compendiumId identity =
      (db.entriesAt compendiumId identity).map f := by
  simp [Database.entriesAt, Database.entriesOf, List.filter_map, Function.comp_def, hcompendium, hidentity]

theorem entriesAt_filter (p : StoredEntry → Bool) (identity : Identity) :
    ({ db with entries := db.entries.filter p } : Database).entriesAt compendiumId identity =
      (db.entriesAt compendiumId identity).filter p := by
  simp only [Database.entriesAt, Database.entriesOf, List.filter_filter]
  refine List.filter_congr fun entry _ => ?_
  rw [← Bool.and_assoc, Bool.and_comm]

theorem entriesAt_append (entry : StoredEntry) (identity : Identity) :
    ({ db with entries := db.entries ++ [entry] } : Database).entriesAt compendiumId identity =
      db.entriesAt compendiumId identity ++
        if entry.compendiumId = compendiumId ∧ entry.identity = identity then [entry] else [] := by
  simp only [Database.entriesAt, Database.entriesOf, List.filter_append, List.filter_singleton]
  by_cases hcompendium : entry.compendiumId = compendiumId <;>
    by_cases hidentity : entry.identity = identity <;> simp [hcompendium, hidentity]

theorem exec_idOf {base : List StoredEntry} {identity : Identity} {entryId : Uuid}
    (h : (idOf base identity).exec db = .ok (entryId, db')) :
    ∃ entry ∈ base, entry.identity = identity ∧ entry.id = entryId ∧ db = db' := by
  unfold idOf at h
  cases hentry : base.find? fun entry => entry.identity = identity with
  | none => simp [hentry] at h
  | some entry =>
      simp only [hentry, Transaction.exec_pure] at h
      obtain ⟨rfl, rfl⟩ := Prod.mk.inj (Except.ok.inj h)
      exact ⟨entry, List.mem_of_find?_eq_some hentry, by simpa using List.find?_some hentry, rfl, rfl⟩

/-- Landing a change changes entries alone. -/
theorem exec_land {mint : Nat → Uuid} {base : List StoredEntry} {change : ShelfChange × Nat} {u : Unit}
    (h : (land mint compendiumId base change).exec db = .ok (u, db')) :
    db' = { db with entries := db'.entries } := by
  obtain ⟨change, position⟩ := change
  cases change with
  | rewritten kind name before after =>
      obtain ⟨entryId, s₁, hid, h⟩ := Transaction.exec_bind_eq_ok.mp h
      obtain ⟨entry, -, -, -, rfl⟩ := exec_idOf hid
      obtain ⟨-, rfl⟩ := Transaction.exec_write_eq_ok.mp (Transaction.exec_mapError_eq_ok.mp h)
      rfl
  | takenOut kind name before =>
      obtain ⟨entryId, s₁, hid, h⟩ := Transaction.exec_bind_eq_ok.mp h
      obtain ⟨entry, -, -, -, rfl⟩ := exec_idOf hid
      obtain ⟨-, rfl⟩ := Transaction.exec_write_eq_ok.mp (Transaction.exec_mapError_eq_ok.mp h)
      rfl
  | added kind name after =>
      obtain ⟨stored, s₁, hinsert, h⟩ := Transaction.exec_mapError_bind_eq_ok.mp h
      obtain ⟨-, -, -, rfl⟩ := exec_insertRow.mp hinsert
      obtain ⟨-, rfl⟩ := Prod.mk.inj (Except.ok.inj h)
      rfl

theorem advanced_syncBack {versionId : Uuid} {mint : Nat → Uuid} {stamp : String} {outcome : SyncOutcome}
    (h : (syncBack digest hash versionId mint caller worldId compendiumId stamp).exec db =
      .ok (outcome, db')) : Advanced compendiumId db db' := by
  obtain ⟨-, -, -, -, db₁, db₂, db₃, u₁, u₂, u₃, u₄, hrecord, hland, hrelease, hnext⟩ := exec_syncBack h
  have hframe : db₂ = { db₁ with entries := db₂.entries } := by
    refine Transaction.exec_forEach (I := fun _ s => s = { db₁ with entries := s.entries })
      (fun done change s v s' hs hchange => ?_) hland rfl
    rw [exec_land hchange, hs]
  have hreleased := exec_releases hrelease
  refine advanced_of_statements hrecord hnext ?_ ?_
  · rw [hreleased, hframe]
  · rw [hreleased, hframe]

/-- A row is under its own kind and name only. -/
theorem id_ne_of_entriesAt (hids : (db.entries.map StoredEntry.id).Nodup) {entry row : StoredEntry}
    {otherId : Uuid} {identity other : Identity} (hentry : entry ∈ db.entriesAt compendiumId identity)
    (hrow : row ∈ db.entriesAt otherId other) (helse : otherId = compendiumId → other ≠ identity) :
    row.id ≠ entry.id := by
  intro hid
  obtain ⟨hentry, hcompendium, hidentity⟩ := mem_entriesAt.mp hentry
  obtain ⟨hrow, hother, hsame⟩ := mem_entriesAt.mp hrow
  obtain rfl := List.inj_on_of_nodup_map hids hrow hentry hid
  exact helse (hother.symm.trans hcompendium) (hsame.symm.trans hidentity)

/-- A change that touches the rows under its own kind and name alone. -/
theorem Landed.concat {done : List ShelfChange} {change : ShelfChange} {s s' : Database}
    (h : Landed compendiumId db done s) (hnew : change.identity ∉ done.map ShelfChange.identity)
    (helsewhere : s' = { s with entries := s'.entries }) (hids : (s'.entries.map StoredEntry.id).Nodup)
    (hhere : Landing compendiumId (s.entriesAt compendiumId change.identity)
      (s'.entriesAt compendiumId change.identity) change)
    (hothers : ∀ otherId identity, (otherId = compendiumId → identity ≠ change.identity) →
      s'.entriesAt otherId identity = s.entriesAt otherId identity) :
    Landed compendiumId db (done ++ [change]) s' := by
  refine ⟨?_, hids, fun other hother => ?_, fun otherId identity hidentity => ?_⟩
  · rw [helsewhere]
    exact h.elsewhere
  · rcases List.mem_append.mp hother with hold | hold
    · have hne : other.identity ≠ change.identity := fun heq =>
        hnew (heq ▸ List.mem_map_of_mem hold)
      rw [hothers compendiumId other.identity fun _ => hne]
      exact h.touched other hold
    · obtain rfl := List.mem_singleton.mp hold
      rw [h.untouched compendiumId other.identity fun _ => hnew] at hhere
      exact hhere
  · rw [hothers otherId identity fun heq => ?_, h.untouched otherId identity fun heq => ?_]
    · exact fun hmem => hidentity heq (by simp [hmem])
    · exact fun hsame => hidentity heq (by simp [hsame])

theorem land_step {mint : Nat → Uuid} {done : List ShelfChange} {change : ShelfChange × Nat}
    {s s' : Database} {u : Unit} (hlanded : Landed compendiumId db done s)
    (hnew : change.1.identity ∉ done.map ShelfChange.identity)
    (h : (land mint compendiumId (db.baseEntries compendiumId) change).exec s = .ok (u, s')) :
    Landed compendiumId db (done ++ [change.1]) s' := by
  obtain ⟨change, position⟩ := change
  have hfound {entry : StoredEntry} (hentry : entry ∈ db.baseEntries compendiumId)
      (hidentity : entry.identity = change.identity) :
      entry ∈ s.entriesAt compendiumId change.identity := by
    rw [hlanded.untouched compendiumId change.identity fun _ => hnew]
    exact List.mem_filter.mpr ⟨(SortBy.mem_sortBy _).mp hentry, by simpa using hidentity⟩
  cases change with
  | rewritten kind name before after =>
      obtain ⟨entryId, s₁, hid, h⟩ := Transaction.exec_bind_eq_ok.mp h
      obtain ⟨entry, hentry, hidentity, rfl, rfl⟩ := exec_idOf hid
      obtain ⟨-, rfl⟩ := Transaction.exec_write_eq_ok.mp (Transaction.exec_mapError_eq_ok.mp h)
      have hmem := hfound hentry hidentity
      have hsame := entriesAt_map (f := fun row => if row.id = entry.id then
          { row with fieldValues := after.fieldValues, proseText := after.proseText } else row)
        (fun row => by split_ifs <;> rfl) (fun row => by split_ifs <;> rfl) s
      refine hlanded.concat hnew rfl ?_ ?_ fun otherId identity hother => ?_
      · have hids (row : StoredEntry) : (if row.id = entry.id then
            { row with fieldValues := after.fieldValues, proseText := after.proseText } else row).id =
              row.id := by split_ifs <;> rfl
        simpa [Function.comp_def, hids] using hlanded.ids
      · rw [hsame]
        exact ⟨entry, hmem, rfl⟩
      · rw [hsame]
        refine (List.map_congr_left fun row hrow => if_neg ?_).trans (List.map_id _)
        exact id_ne_of_entriesAt hlanded.ids hmem hrow (hother ·)
  | takenOut kind name before =>
      obtain ⟨entryId, s₁, hid, h⟩ := Transaction.exec_bind_eq_ok.mp h
      obtain ⟨entry, hentry, hidentity, rfl, rfl⟩ := exec_idOf hid
      obtain ⟨-, rfl⟩ := Transaction.exec_write_eq_ok.mp (Transaction.exec_mapError_eq_ok.mp h)
      have hmem := hfound hentry hidentity
      refine hlanded.concat hnew rfl (hlanded.ids.sublist (List.filter_sublist.map _)) ?_
        fun otherId identity hother => ?_
      · rw [entriesAt_filter]
        exact ⟨entry, hmem, rfl⟩
      · rw [entriesAt_filter, List.filter_eq_self]
        intro row hrow
        have hne := id_ne_of_entriesAt hlanded.ids hmem hrow (hother ·)
        simpa using hne
  | added kind name after =>
      obtain ⟨stored, s₁, hinsert, h⟩ := Transaction.exec_mapError_bind_eq_ok.mp h
      obtain ⟨hfresh, -, -, rfl⟩ := exec_insertRow.mp hinsert
      obtain ⟨-, rfl⟩ := Prod.mk.inj (Except.ok.inj h)
      refine hlanded.concat hnew rfl ?_ ?_ fun otherId identity hother => ?_
      · rw [List.map_append, List.nodup_append']
        refine ⟨hlanded.ids, List.nodup_singleton _, List.disjoint_singleton.mpr fun hmem => ?_⟩
        obtain ⟨row, hrow, hid⟩ := List.mem_map.mp hmem
        exact hfresh row hrow hid
      · rw [entriesAt_append, if_pos ⟨rfl, rfl⟩]
        exact ⟨_, rfl⟩
      · rw [entriesAt_append, if_neg, List.append_nil]
        rintro ⟨rfl, rfl⟩
        exact hother rfl rfl

/-- Changes to different entries land each on its own. -/
theorem landed_of_exec {mint : Nat → Uuid} {changes : List ShelfChange} {s s' : Database} {u : Unit}
    (hstart : Landed compendiumId db [] s) (hdistinct : (changes.map ShelfChange.identity).Nodup)
    (h : (Transaction.forEach (land mint compendiumId (db.baseEntries compendiumId))
      changes.zipIdx).exec s = .ok (u, s')) : Landed compendiumId db changes s' := by
  have hloop := Transaction.exec_forEach (I := fun done s =>
    ((done.map Prod.fst).map ShelfChange.identity).Nodup → Landed compendiumId db (done.map Prod.fst) s)
    (fun done change s v s' hdone hchange hnodup => ?_) h fun _ => hstart
  · rw [List.zipIdx_map_fst] at hloop
    exact hloop hdistinct
  · rw [List.map_append, List.map_append, List.nodup_append'] at hnodup
    rw [List.map_append]
    exact land_step (hdone hnodup.1) (fun hmem => List.disjoint_left.mp hnodup.2.2 hmem (by simp)) hchange

end SyncBack

end ThunderForge.Library
