import ThunderForge.Lib.Run
import ThunderForge.Library.Keys
import ThunderForge.Library.SyncBackKeeps

/-! What a table wrote beside a book, and which calls on the library can take it away. -/

namespace ThunderForge.Library

open Std (ExtTreeMap)

/-- A call on the library: a write of a world, or a change of a collection. -/
inductive Request where
  | changeEntry (deltaId : Uuid) (now : Nat) (caller worldId compendiumId : Uuid) (identity : Identity)
      (content : Content)
  | hideEntry (deltaId : Uuid) (now : Nat) (caller worldId compendiumId : Uuid) (identity : Identity)
  | addEntry (deltaId : Uuid) (now : Nat) (caller worldId compendiumId : Uuid) (identity : Identity)
      (content : Content)
  | restoreEntry (caller worldId compendiumId : Uuid) (identity : Identity)
  | removeKeptAddition (caller worldId additionId : Uuid)
  | syncBack (versionId : Uuid) (mint : Nat → Uuid) (caller worldId compendiumId : Uuid) (stamp : String)
  | writeEntry (versionId entryId caller collectionId : Uuid) (kind name : String) (content : Content)
  | removeEntry (versionId caller collectionId entryId : Uuid)
  | restore (versionId : Uuid) (mint : Nat → Uuid) (caller collectionId : Uuid) (version : Int)

section Additions

variable (digest : List UInt8 → List UInt8) (hash : HashOrder Delta)

/-- The state a call leaves, when it succeeds. -/
def Request.landed : Request → Database → Option Database
  | changeEntry deltaId now caller worldId compendiumId identity content =>
    (Write.changeEntry deltaId now caller worldId compendiumId identity content).landed
  | hideEntry deltaId now caller worldId compendiumId identity =>
    (Write.hideEntry deltaId now caller worldId compendiumId identity).landed
  | addEntry deltaId now caller worldId compendiumId identity content =>
    (Write.addEntry deltaId now caller worldId compendiumId identity content).landed
  | restoreEntry caller worldId compendiumId identity =>
    (Write.restoreEntry caller worldId compendiumId identity).landed
  | removeKeptAddition caller worldId additionId =>
    (Write.removeKeptAddition caller worldId additionId).landed
  | syncBack versionId mint caller worldId compendiumId stamp =>
    (Library.syncBack digest hash versionId mint caller worldId compendiumId stamp).landed
  | writeEntry versionId entryId caller collectionId kind name content =>
    (Library.writeEntry versionId entryId caller collectionId kind name content).landed
  | removeEntry versionId caller collectionId entryId =>
    (Library.removeEntry versionId caller collectionId entryId).landed
  | restore versionId mint caller collectionId version =>
    (Library.restore versionId mint caller collectionId version).landed

/-- A call that fails leaves everything as it was. -/
def Request.apply (db : Database) (request : Request) : Database :=
  (request.landed digest hash db).getD db

/-- The ways a table lets an addition go, or has it landed: restoring it, removing it, changing it where the
book has no entry for it, and syncing it back. -/
def Request.LetsGo (addition : Delta) (db : Database) : Request → Prop
  | changeEntry _ _ _ worldId compendiumId identity _ =>
    addition.Over worldId compendiumId identity ∧ db.entriesAt compendiumId identity = []
  | restoreEntry _ worldId compendiumId identity => addition.Over worldId compendiumId identity
  | removeKeptAddition _ worldId additionId => addition.id = additionId ∧ addition.worldId = worldId
  | syncBack versionId mint caller worldId compendiumId stamp =>
    addition.Over worldId compendiumId addition.identity ∧
      db.entriesAt compendiumId addition.identity = [] ∧
      ∃ entry ∈ ((syncBack versionId mint caller worldId compendiumId stamp).apply digest hash
          db).entriesAt compendiumId addition.identity,
        entry.fieldValues = addition.fieldValues.getD (.object ∅) ∧ entry.proseText = addition.proseText
  | _ => False

/-- The identity as its columns keep it. -/
def Identity.fitted (identity : Identity) : Option Identity :=
  (varchar 64 identity.kind).map fun kind => ⟨kind, identity.name⟩

/-- The addition a world holds over an identity. -/
def Database.additionOver (db : Database) (worldId compendiumId : Uuid) (identity : Identity) :
    Option Delta :=
  (db.heldOver worldId compendiumId identity).filter fun held => held.form = .added

/-- Fields for an entry read as fields, or prose for one read as prose. -/
def Content.Fits (entry : StoredEntry) : Content → Prop
  | .fields _ => entry.proseText = none
  | .prose _ => entry.proseText ≠ none

/-- Nothing in the content is other than the book says. -/
def Content.SaysTheBook (entry : StoredEntry) : Content → Prop
  | .fields values => ∀ field value, values[field]? = some value →
      entry.fieldValues.field? field = some value.toJson
  | .prose text => entry.proseText = some text

/-- An upsert in this form over the identity would not be written over an addition: the world holds none
there, or the trigger refuses the form over the addition's origin. -/
def Database.SparesOver (db : Database) (worldId compendiumId : Uuid) (identity : Identity) : Prop :=
  ∀ stored ∈ identity.fitted, ∀ addition ∈ db.additionOver worldId compendiumId stored,
    (db.compendiums[compendiumId]?).map Compendium.origin ≠ some addition.origin

/-- The call does not get to write over an addition, or to remove one, that it was not asked about: a change
or a hide that is let through names no identity under which the world holds an addition and the book has one
entry, and the name an addition is written under is cut to no other's. -/
def Request.Spares (db : Database) : Request → Prop
  | changeEntry _ _ caller worldId compendiumId identity content =>
    db.Allows caller worldId compendiumId → ∀ entry, db.entriesAt compendiumId identity = [entry] →
      content.Fits entry →
        (content.SaysTheBook entry → db.additionOver worldId compendiumId identity = none) ∧
          db.SparesOver worldId compendiumId identity
  | hideEntry _ _ caller worldId compendiumId identity =>
    db.Allows caller worldId compendiumId → ∀ entry, db.entriesAt compendiumId identity = [entry] →
      db.SparesOver worldId compendiumId identity
  | addEntry _ _ caller worldId compendiumId identity _ =>
    db.Allows caller worldId compendiumId → ∀ stored ∈ identity.fitted,
      db.additionOver worldId compendiumId stored = none
  | _ => True

/-! ### What one call leaves -/

variable {digest hash} {db db' : Database}

theorem additionOver_eq_some (hsound : db.Sound) {addition : Delta} (hmem : addition ∈ db.deltas)
    (hform : addition.form = .added) {worldId compendiumId : Uuid} {identity : Identity}
    (hover : addition.Over worldId compendiumId identity) :
    db.additionOver worldId compendiumId identity = some addition := by
  rw [Database.additionOver, (Database.heldOver_eq_some hsound).mpr ⟨hmem, hover⟩, Option.filter_some,
    if_pos (by simpa using hform)]

/-- An upsert leaves every addition but one over its own identity, and that one too where the trigger refuses
the form. -/
theorem mem_of_upsert (hsound : db.Sound) {addition : Delta} (hmem : addition ∈ db.deltas)
    (hform : addition.form = .added) {written : Write.Written} {worldId compendiumId : Uuid}
    {identity : Identity} {row : Delta}
    (hspares : ∀ stored ∈ identity.fitted, ∀ other ∈ db.additionOver worldId compendiumId stored,
      written.form ≠ .added ∧ (db.compendiums[compendiumId]?).map Compendium.origin ≠ some other.origin)
    (h : (Write.upsert written worldId compendiumId identity).exec db = .ok (row, db')) :
    addition ∈ db'.deltas := by
  obtain ⟨kind, hkind, rfl, -, horigin, -, rfl⟩ := Write.exec_upsert.mp h
  refine Database.mem_placing.mpr (.inl ⟨hmem, fun hover => ?_⟩)
  have hheld := (Database.heldOver_eq_some hsound).mpr ⟨hmem, hover⟩
  have hfitted : (⟨kind, identity.name⟩ : Identity) ∈ identity.fitted := by
    simp [Identity.fitted, hkind]
  obtain ⟨hchanges, hrefused⟩ :=
    hspares _ hfitted addition (additionOver_eq_some hsound hmem hform hover)
  have hrow : (written.row db worldId compendiumId ⟨kind, identity.name⟩).compendiumId = some compendiumId ∧
      (written.row db worldId compendiumId ⟨kind, identity.name⟩).origin = addition.origin := by
    simp only [Write.Written.row, hheld]
    exact ⟨hover.2.1, trivial⟩
  unfold Database.originFollowsForm at horigin
  rw [Write.Written.row_form, hrow.1, hrow.2] at horigin
  cases hwritten : written.form with
  | added => exact hchanges hwritten
  | changed => exact hrefused (by simpa [hwritten] using horigin)
  | hidden => exact hrefused (by simpa [hwritten] using horigin)

/-- Over an addition, what differs is all that the content says otherwise than the book. -/
theorem getElem?_changedFields_addition {addition : Delta} (hform : addition.form = .added)
    (entry : StoredEntry) (values : ExtTreeMap String ReadValue) (field : String) :
    (Write.changedFields (some addition) entry values)[field]? =
      ((values[field]?).map ReadValue.toJson).filter fun value =>
        entry.fieldValues.field? field ≠ some value := by
  have hheld : Write.changeHeld (some addition) = ∅ := by simp [Write.changeHeld, hform]
  rw [Write.changedFields, ExtTreeMap.getElem?_filter', Write.laidOver, hheld, ExtTreeMap.getElem?_union,
    ExtTreeMap.getElem?_map, ExtTreeMap.getElem?_empty, Option.or_none]

/-- A change over an addition that leaves nothing to hold says what the book says. -/
theorem saysTheBook_of_same {addition : Delta} (hform : addition.form = .added) {entry : StoredEntry}
    {identity : Identity} {content : Content}
    (h : (Write.differing (some addition) entry identity content).exec db = .ok ((none, none), db')) :
    content.SaysTheBook entry := by
  cases content with
  | fields values =>
      obtain ⟨-, -, hsaid⟩ := Write.exec_differing_fields.mp h
      have hempty : Write.changedFields (some addition) entry values = ∅ := by
        by_contra hne
        rw [if_neg hne] at hsaid
        cases hsaid
      intro field value hvalue
      have hfield := getElem?_changedFields_addition hform entry values field
      rw [hempty, ExtTreeMap.getElem?_empty, hvalue] at hfield
      by_contra hother
      simp [Option.filter_some, hother] at hfield
  | prose text =>
      obtain ⟨-, hsaid⟩ := Transaction.exec_require_bind_eq_ok.mp h
      have hsame := (Prod.mk.inj (Prod.mk.inj (Except.ok.inj hsaid)).1).2
      by_contra hother
      rw [if_pos (by simpa [Content.SaysTheBook] using hother)] at hsame
      cases hsame

theorem fits_of_differing {held : Option Delta} {entry : StoredEntry} {identity : Identity}
    {content : Content} {said : Option FieldValues × Option String}
    (h : (Write.differing held entry identity content).exec db = .ok (said, db')) : content.Fits entry := by
  cases content with
  | fields values => exact (Transaction.exec_require_bind_eq_ok.mp h).1
  | prose text => exact (Transaction.exec_require_bind_eq_ok.mp h).1

theorem mem_of_changeEntry (hsound : db.Sound) {addition : Delta} (hmem : addition ∈ db.deltas)
    (hform : addition.form = .added) {deltaId : Uuid} {now : Nat} {caller worldId compendiumId : Uuid}
    {identity : Identity} {content : Content}
    (hspares : (Request.changeEntry deltaId now caller worldId compendiumId identity content).Spares db)
    (hkept : ¬(Request.changeEntry deltaId now caller worldId compendiumId identity content).LetsGo digest
      hash addition db) {result : Option Delta}
    (h : (Write.changeEntry deltaId now caller worldId compendiumId identity content).exec db =
      .ok (result, db')) : addition ∈ db'.deltas := by
  obtain ⟨hallows, ⟨edited, _, hbase, hheld, -, hedit, -⟩ | ⟨entry, said, hbase, hsaid, hrest⟩⟩ :=
    Write.exec_changeEntry.mp h
  · obtain ⟨fieldValues, proseText, rfl⟩ := Write.exec_changeAddition hedit
    refine List.mem_map.mpr ⟨addition, hmem, if_neg fun hid => ?_⟩
    obtain ⟨hedited, hover⟩ := (Database.heldOver_eq_some hsound).mp hheld
    obtain rfl := hsound.eq_of_id hmem hedited hid
    exact hkept ⟨hover, hbase⟩
  · obtain ⟨hremoves, hover⟩ := hspares hallows entry hbase (fits_of_differing hsaid)
    rcases hrest with ⟨rfl, -, rfl⟩ | ⟨-, origin, delta, -, hupsert, -⟩
    · refine Database.mem_without.mpr ⟨hmem, fun hhere => ?_⟩
      rw [(Database.heldOver_eq_some hsound).mpr ⟨hmem, hhere⟩] at hsaid
      have hnone := hremoves (saysTheBook_of_same hform hsaid)
      rw [additionOver_eq_some hsound hmem hform hhere] at hnone
      cases hnone
    · exact mem_of_upsert hsound hmem hform
        (fun stored hstored other hother => ⟨by simp, hover stored hstored other hother⟩) hupsert

theorem mem_of_hideEntry (hsound : db.Sound) {addition : Delta} (hmem : addition ∈ db.deltas)
    (hform : addition.form = .added) {deltaId : Uuid} {now : Nat} {caller worldId compendiumId : Uuid}
    {identity : Identity}
    (hspares : (Request.hideEntry deltaId now caller worldId compendiumId identity).Spares db) {row : Delta}
    (h : (Write.hideEntry deltaId now caller worldId compendiumId identity).exec db = .ok (row, db')) :
    addition ∈ db'.deltas := by
  obtain ⟨hallows, entry, origin, hbase, -, hupsert⟩ := Write.exec_hideEntry.mp h
  refine mem_of_upsert hsound hmem hform (fun stored hstored other hother => ⟨by simp, ?_⟩) hupsert
  exact hspares hallows entry hbase stored hstored other hother

theorem mem_of_addEntry (hsound : db.Sound) {addition : Delta} (hmem : addition ∈ db.deltas)
    (hform : addition.form = .added) {deltaId : Uuid} {now : Nat} {caller worldId compendiumId : Uuid}
    {identity : Identity} {content : Content}
    (hspares : (Request.addEntry deltaId now caller worldId compendiumId identity content).Spares db)
    {row : Delta} (h : (Write.addEntry deltaId now caller worldId compendiumId identity content).exec db =
      .ok (row, db')) : addition ∈ db'.deltas := by
  obtain ⟨hallows, -, -, origin, -, hupsert⟩ := Write.exec_addEntry h
  refine mem_of_upsert hsound hmem hform (fun stored hstored other hother => ?_) hupsert
  rw [hspares hallows stored hstored] at hother
  cases hother

/-- A sync back takes an addition out of the world only by landing it. -/
theorem mem_of_syncBack (hsound : db.Sound) {addition : Delta} (hmem : addition ∈ db.deltas)
    (hform : addition.form = .added) {versionId caller worldId compendiumId : Uuid} {mint : Nat → Uuid}
    {stamp : String}
    (hkept : ¬(Request.syncBack versionId mint caller worldId compendiumId stamp).LetsGo digest hash
      addition db) {outcome : SyncOutcome}
    (h : (syncBack digest hash versionId mint caller worldId compendiumId stamp).exec db =
      .ok (outcome, db')) : addition ∈ db'.deltas := by
  have hsynced := synced_of_exec hsound h
  rw [hsynced.deltas]
  refine List.mem_filter.mpr ⟨hmem, ?_⟩
  rw [decide_eq_true_iff]
  rintro ⟨hworld, hbook, hnamed⟩
  have hdeltas := nodup_deltasOver hsound worldId compendiumId
  have hover : addition ∈ db.deltasOver worldId compendiumId :=
    (SortBy.mem_sortBy _).mpr (List.mem_filter.mpr ⟨hmem, by simp [hworld, hbook]⟩)
  obtain ⟨change, hchange, hidentity⟩ := List.mem_map.mp hnamed
  have hplanned := (mem_changesOf hdeltas).mp hchange
  have hsame {other : Delta} (hother : other ∈ db.deltasOver worldId compendiumId)
      (hother' : other.identity = change.identity) : other = addition :=
    List.inj_on_of_nodup_map hdeltas hother hover (hother'.trans hidentity)
  cases hplanned with
  | rewritten entry other _ _ hother hentry hchanged =>
      obtain rfl := hsame hother hentry
      cases hchanged.symm.trans hform
  | takenOut entry other _ _ hother hentry hhidden =>
      obtain rfl := hsame hother hentry
      cases hhidden.symm.trans hform
  | added other hother habsent _ =>
      obtain rfl := hsame hother rfl
      rw [identityCount_of_rows (baseEntries_rows db compendiumId other.identity)] at habsent
      have hempty := List.length_eq_zero_iff.mp habsent
      obtain ⟨entryId, hafter⟩ := hsynced.landed _ hchange
      rw [show (ShelfChange.added other.kind other.name _).identity = other.identity from rfl, hempty,
        List.nil_append] at hafter
      have happly : (Request.syncBack versionId mint caller worldId compendiumId stamp).apply digest hash db =
          db' := by
        have hlanded : (syncBack digest hash versionId mint caller worldId compendiumId stamp).landed db =
            some db' := Transaction.landed_eq_some.mpr ⟨outcome, h⟩
        rw [Request.apply, Request.landed, hlanded, Option.getD_some]
      refine hkept ⟨⟨hworld, hbook, rfl⟩, hempty, ?_⟩
      rw [happly, hafter]
      exact ⟨_, List.mem_singleton_self _, rfl, rfl⟩

/-- One call that spares them leaves in place every addition it does not let go. -/
theorem mem_of_apply (hsound : db.Sound) {addition : Delta} (hmem : addition ∈ db.deltas)
    (hform : addition.form = .added) {request : Request} (hspares : request.Spares db)
    (hkept : ¬request.LetsGo digest hash addition db) :
    addition ∈ (request.apply digest hash db).deltas := by
  unfold Request.apply
  cases hlanded : request.landed digest hash db with
  | none => exact hmem
  | some next =>
      rw [Option.getD_some]
      cases request with
      | changeEntry deltaId now caller worldId compendiumId identity content =>
          obtain ⟨result, h⟩ := Transaction.landed_eq_some.mp hlanded
          exact mem_of_changeEntry hsound hmem hform hspares hkept h
      | hideEntry deltaId now caller worldId compendiumId identity =>
          obtain ⟨row, h⟩ := Transaction.landed_eq_some.mp hlanded
          exact mem_of_hideEntry hsound hmem hform hspares h
      | addEntry deltaId now caller worldId compendiumId identity content =>
          obtain ⟨row, h⟩ := Transaction.landed_eq_some.mp hlanded
          exact mem_of_addEntry hsound hmem hform hspares h
      | restoreEntry caller worldId compendiumId identity =>
          obtain ⟨row, h⟩ := Transaction.landed_eq_some.mp hlanded
          obtain ⟨-, rfl⟩ := Write.exec_restoreEntry h
          exact Database.mem_without.mpr ⟨hmem, hkept⟩
      | removeKeptAddition caller worldId additionId =>
          obtain ⟨row, h⟩ := Transaction.landed_eq_some.mp hlanded
          rw [Write.exec_removeKeptAddition h]
          refine List.mem_filter.mpr ⟨hmem, ?_⟩
          rw [decide_eq_true_iff]
          exact fun hgone => hkept ⟨hgone.1, hgone.2.1⟩
      | syncBack versionId mint caller worldId compendiumId stamp =>
          obtain ⟨outcome, h⟩ := Transaction.landed_eq_some.mp hlanded
          exact mem_of_syncBack hsound hmem hform hkept h
      | writeEntry versionId entryId caller collectionId kind name content =>
          have hsame := ((deltas_kept collectionId db.deltas).writeEntry).landed rfl hlanded
          rwa [hsame]
      | removeEntry versionId caller collectionId entryId =>
          have hsame := ((deltas_kept collectionId db.deltas).removeEntry).landed rfl hlanded
          rwa [hsame]
      | restore versionId mint caller collectionId version =>
          have hsame := ((deltas_kept collectionId db.deltas).restore).landed rfl hlanded
          rwa [hsame]

/-- Every call keeps the keys. -/
theorem sound_apply (hsound : db.Sound) (request : Request) : (request.apply digest hash db).Sound := by
  unfold Request.apply
  cases hlanded : request.landed digest hash db with
  | none => exact hsound
  | some next =>
      cases request with
      | changeEntry => exact Write.sound_changeEntry.landed hsound hlanded
      | hideEntry => exact Write.sound_hideEntry.landed hsound hlanded
      | addEntry => exact Write.sound_addEntry.landed hsound hlanded
      | restoreEntry => exact Write.sound_restoreEntry.landed hsound hlanded
      | removeKeptAddition => exact Write.sound_removeKeptAddition.landed hsound hlanded
      | syncBack => exact sound_syncBack.landed hsound hlanded
      | writeEntry => exact sound_writeEntry.landed hsound hlanded
      | removeEntry => exact sound_removeEntry.landed hsound hlanded
      | restore => exact sound_restore.landed hsound hlanded

def wisp : Identity := ⟨"creature", "Wisp"⟩

def wispAddition : Delta :=
  { id := 60, worldId := 7, compendiumId := some 9, kind := "creature", name := "Wisp", form := .added
    origin := .authored, fieldValues := some (.object ∅), proseText := some "pale", changedBy := some 1
    updatedAt := 0 }

/-- A collection of one entry, and a world that wrote another beside it. -/
def moor : Database where
  compendiums := (∅ : ExtTreeMap Uuid Compendium).insert 9 mireRow
  entries := [{ id := 31, compendiumId := 9, kind := "creature", name := "Bog Eel", fieldValues := .object ∅
                proseText := some "old" }]
  versions := []
  deltas := [wispAddition]
  worlds := (∅ : ExtTreeMap Uuid World).insert 7 fens

theorem sound_moor : moor.Sound := ⟨by decide, by decide, nofun, by decide, fun _ _ =>
  (by decide : (moor.deltas.map Delta.identity).Nodup).sublist (List.filter_sublist.map _)⟩

end Additions

end ThunderForge.Library
