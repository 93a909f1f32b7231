import ThunderForge.Library.Write

/-! Every call on the library keeps the keys of its tables. -/

namespace ThunderForge.Library

open Std (ExtTreeMap)

namespace Database

variable {db : Database}

theorem Sound.filter_entries (h : db.Sound) (p : StoredEntry → Bool) :
    ({ db with entries := db.entries.filter p } : Database).Sound where
  entryIds := h.entryIds.sublist (List.filter_sublist.map _)
  entryBooks entry hentry := h.entryBooks entry (List.mem_of_mem_filter hentry)
  versionBooks := h.versionBooks
  deltaIds := h.deltaIds
  deltaIdentities := h.deltaIdentities

theorem Sound.map_entries (h : db.Sound) {f : StoredEntry → StoredEntry} (hid : ∀ entry, (f entry).id = entry.id)
    (hbook : ∀ entry, (f entry).compendiumId = entry.compendiumId) :
    ({ db with entries := db.entries.map f } : Database).Sound where
  entryIds := by simpa [Function.comp_def, hid] using h.entryIds
  entryBooks entry hentry := by
    obtain ⟨before, hbefore, rfl⟩ := List.mem_map.mp hentry
    rw [hbook]
    exact h.entryBooks before hbefore
  versionBooks := h.versionBooks
  deltaIds := h.deltaIds
  deltaIdentities := h.deltaIdentities

theorem Sound.append_entry (h : db.Sound) {entry : StoredEntry} (hfresh : ∀ row ∈ db.entries, row.id ≠ entry.id)
    (hbook : entry.compendiumId ∈ db.compendiums) :
    ({ db with entries := db.entries ++ [entry] } : Database).Sound where
  entryIds := by
    rw [List.map_append, List.nodup_append']
    refine ⟨h.entryIds, List.nodup_singleton _, List.disjoint_singleton.mpr ?_⟩
    intro hmem
    obtain ⟨row, hrow, hid⟩ := List.mem_map.mp hmem
    exact hfresh row hrow hid
  entryBooks row hrow := by
    rcases List.mem_append.mp hrow with hold | hnew
    · exact h.entryBooks row hold
    · obtain rfl := List.mem_singleton.mp hnew
      exact hbook
  versionBooks := h.versionBooks
  deltaIds := h.deltaIds
  deltaIdentities := h.deltaIdentities

theorem Sound.append_version (h : db.Sound) {version : CollectionVersion}
    (hbook : version.compendiumId ∈ db.compendiums) :
    ({ db with versions := db.versions ++ [version] } : Database).Sound where
  entryIds := h.entryIds
  entryBooks := h.entryBooks
  versionBooks row hrow := by
    rcases List.mem_append.mp hrow with hold | hnew
    · exact h.versionBooks row hold
    · obtain rfl := List.mem_singleton.mp hnew
      exact hbook
  deltaIds := h.deltaIds
  deltaIdentities := h.deltaIdentities

theorem Sound.modify_compendium (h : db.Sound) (compendiumId : Uuid) (f : Compendium → Compendium) :
    ({ db with compendiums := db.compendiums.modify compendiumId f } : Database).Sound where
  entryIds := h.entryIds
  entryBooks entry hentry := ExtTreeMap.mem_modify.mpr (h.entryBooks entry hentry)
  versionBooks version hversion := ExtTreeMap.mem_modify.mpr (h.versionBooks version hversion)
  deltaIds := h.deltaIds
  deltaIdentities := h.deltaIdentities

theorem Sound.filter_deltas (h : db.Sound) (p : Delta → Bool) :
    ({ db with deltas := db.deltas.filter p } : Database).Sound where
  entryIds := h.entryIds
  entryBooks := h.entryBooks
  versionBooks := h.versionBooks
  deltaIds := h.deltaIds.sublist (List.filter_sublist.map _)
  deltaIdentities worldId compendiumId := by
    dsimp only
    rw [List.filter_comm]
    exact (h.deltaIdentities worldId compendiumId).sublist (List.filter_sublist.map _)

/-- Two rows over one identity are one row. -/
theorem Sound.eq_of_over (h : db.Sound) {worldId compendiumId : Uuid} {identity : Identity}
    {left right : Delta} (hleft : left ∈ db.deltas) (hright : right ∈ db.deltas)
    (hoverLeft : left.Over worldId compendiumId identity)
    (hoverRight : right.Over worldId compendiumId identity) : left = right := by
  refine List.inj_on_of_nodup_map (h.deltaIdentities worldId compendiumId) ?_ ?_
    (hoverLeft.2.2.trans hoverRight.2.2.symm)
  · exact List.mem_filter.mpr ⟨hleft, by simp [hoverLeft.1, hoverLeft.2.1]⟩
  · exact List.mem_filter.mpr ⟨hright, by simp [hoverRight.1, hoverRight.2.1]⟩

theorem Sound.eq_of_id (h : db.Sound) {left right : Delta} (hleft : left ∈ db.deltas)
    (hright : right ∈ db.deltas) (hid : left.id = right.id) : left = right :=
  List.inj_on_of_nodup_map h.deltaIds hleft hright hid

theorem heldOver_eq_some (h : db.Sound) {worldId compendiumId : Uuid} {identity : Identity} {delta : Delta} :
    db.heldOver worldId compendiumId identity = some delta ↔
      delta ∈ db.deltas ∧ delta.Over worldId compendiumId identity := by
  constructor
  · intro hheld
    exact ⟨List.mem_of_find?_eq_some hheld, by simpa using List.find?_some hheld⟩
  · rintro ⟨hmem, hover⟩
    cases hheld : db.heldOver worldId compendiumId identity with
    | none =>
        have hnot := List.find?_eq_none.mp hheld delta hmem
        simp [hover] at hnot
    | some other =>
        have hother : other.Over worldId compendiumId identity := by simpa using List.find?_some hheld
        rw [h.eq_of_over (List.mem_of_find?_eq_some hheld) hmem hother hover]

theorem heldOver_eq_none {worldId compendiumId : Uuid} {identity : Identity} :
    db.heldOver worldId compendiumId identity = none ↔
      ∀ delta ∈ db.deltas, ¬delta.Over worldId compendiumId identity := by
  simp [heldOver, List.find?_eq_none]

theorem mem_placing {worldId compendiumId : Uuid} {identity : Identity} {row delta : Delta} :
    delta ∈ (db.placing worldId compendiumId identity row).deltas ↔
      delta ∈ db.deltas ∧ ¬delta.Over worldId compendiumId identity ∨ delta = row := by
  simp [placing]

theorem mem_without {worldId compendiumId : Uuid} {identity : Identity} {delta : Delta} :
    delta ∈ (db.without worldId compendiumId identity).deltas ↔
      delta ∈ db.deltas ∧ ¬delta.Over worldId compendiumId identity := by
  simp [without]

theorem Sound.without (h : db.Sound) (worldId compendiumId : Uuid) (identity : Identity) :
    (db.without worldId compendiumId identity).Sound :=
  h.filter_deltas _

/-- A row goes in the place of the one held, under its id, or in a place of its own. -/
theorem Sound.placing (h : db.Sound) {worldId compendiumId : Uuid} {identity : Identity} {row : Delta}
    (hover : row.Over worldId compendiumId identity)
    (hid : ∀ delta ∈ db.deltas, ¬delta.Over worldId compendiumId identity → delta.id ≠ row.id) :
    (db.placing worldId compendiumId identity row).Sound where
  entryIds := h.entryIds
  entryBooks := h.entryBooks
  versionBooks := h.versionBooks
  deltaIds := by
    dsimp only [Database.placing]
    rw [List.map_append, List.nodup_append']
    refine ⟨(h.without worldId compendiumId identity).deltaIds, List.nodup_singleton _,
      List.disjoint_singleton.mpr ?_⟩
    intro hmem
    obtain ⟨delta, hdelta, hsame⟩ := List.mem_map.mp hmem
    obtain ⟨hdelta, hnot⟩ := mem_without.mp hdelta
    exact hid delta hdelta hnot hsame
  deltaIdentities otherWorld otherBook := by
    dsimp only [Database.placing]
    rw [List.filter_append, List.map_append, List.nodup_append']
    refine ⟨(h.without worldId compendiumId identity).deltaIdentities otherWorld otherBook,
      (List.nodup_singleton row).sublist List.filter_sublist |>.map_on ?_, ?_⟩
    · intro left hleft right hright _
      rw [List.mem_singleton.mp (List.mem_of_mem_filter hleft),
        List.mem_singleton.mp (List.mem_of_mem_filter hright)]
    · rw [List.disjoint_left]
      intro other hother hnew
      obtain ⟨delta, hdelta, rfl⟩ := List.mem_map.mp hother
      obtain ⟨new, hrow, hsame⟩ := List.mem_map.mp hnew
      obtain ⟨hrow, hplace⟩ := List.mem_filter.mp hrow
      obtain rfl := List.mem_singleton.mp hrow
      obtain ⟨hdelta, hthere⟩ := List.mem_filter.mp hdelta
      have hnot := (mem_without.mp hdelta).2
      simp only [decide_eq_true_eq] at hplace hthere
      apply hnot
      refine ⟨hthere.1.trans (hplace.1.symm.trans hover.1), ?_, hsame.symm.trans hover.2.2⟩
      exact hthere.2.trans (hplace.2.symm.trans hover.2.1)

theorem Sound.map_deltas (h : db.Sound) {f : Delta → Delta} (hid : ∀ delta, (f delta).id = delta.id)
    (hover : ∀ delta, (f delta).worldId = delta.worldId ∧ (f delta).compendiumId = delta.compendiumId ∧
      (f delta).identity = delta.identity) :
    ({ db with deltas := db.deltas.map f } : Database).Sound where
  entryIds := h.entryIds
  entryBooks := h.entryBooks
  versionBooks := h.versionBooks
  deltaIds := by simpa [Function.comp_def, hid] using h.deltaIds
  deltaIdentities worldId compendiumId := by
    have hidentities := h.deltaIdentities worldId compendiumId
    simpa [List.filter_map, Function.comp_def, hover] using hidentities

end Database

/-! ### The calls on a collection -/

section Calls

variable {caller collectionId versionId : Uuid} {I : Database → Prop}

/-- An invariant that the statements of the calls on a collection keep. -/
structure KeptByStatements (collectionId : Uuid) (I : Database → Prop) : Prop where
  record : ∀ versionId replacedBy, (record versionId collectionId replacedBy).Keeps I
  insertRow : ∀ entry, entry.compendiumId = collectionId → (insertRow entry).Keeps I
  deleteEntry : ∀ entryId, (deleteEntry collectionId entryId).Keeps I
  clearEntries : (clearEntries collectionId).Keeps I
  nextVersion : ∀ caller, (nextVersion caller collectionId).Keeps I

theorem readOnly_writable : (writable caller collectionId).ReadOnly :=
  fun _ _ _ h => (exec_writable.mp h).2.2.2

theorem readOnly_refuseUnlessAuthored : (refuseUnlessAuthored collectionId).ReadOnly :=
  .bind (readOnly_compendiumRow.mapError _) fun _ => .require _ _

theorem readOnly_requireAccountOwner : (requireAccountOwner caller collectionId).ReadOnly :=
  .bind (.read _) fun _ => .require _ _

theorem readOnly_readAt {version : Int} : (readAt caller collectionId (.version version)).ReadOnly := by
  refine .bind readOnly_requireAccountOwner fun _ => .bind (.read _) fun entries => ?_
  cases entries with
  | none => exact .fail _
  | some entries => exact .pure _

theorem KeptByStatements.writeEntry (h : KeptByStatements collectionId I) {entryId : Uuid}
    {kind name : String} {content : Content} :
    (writeEntry versionId entryId caller collectionId kind name content).Keeps I := by
  refine (readOnly_writable.keeps _).bind fun _ => ((Transaction.ReadOnly.require _ _).keeps _).bind fun _ =>
    ((Transaction.ReadOnly.read _).keeps _).bind fun _ =>
    ((Transaction.ReadOnly.require _ _).keeps _).bind fun _ => ?_
  refine ((h.record _ _).mapError _).bind fun _ => ((h.insertRow _ rfl).mapError _).bind fun _ => ?_
  exact ((h.nextVersion _).mapError _).bind fun _ => (Transaction.ReadOnly.pure _).keeps _

theorem KeptByStatements.removeEntry (h : KeptByStatements collectionId I) {entryId : Uuid} :
    (removeEntry versionId caller collectionId entryId).Keeps I := by
  refine (readOnly_writable.keeps _).bind fun _ => ((Transaction.ReadOnly.read _).keeps _).bind fun named => ?_
  cases named with
  | none => exact (Transaction.ReadOnly.fail _).keeps _
  | some entry =>
      refine ((h.record _ _).mapError _).bind fun _ => ((h.deleteEntry _).mapError _).bind fun _ => ?_
      exact ((Transaction.ReadOnly.require _ _).keeps _).bind fun _ => (h.nextVersion _).mapError _

theorem KeptByStatements.restore (h : KeptByStatements collectionId I) {mint : Nat → Uuid} {version : Int} :
    (restore versionId mint caller collectionId version).Keeps I := by
  refine (readOnly_readAt.keeps _).bind fun entries =>
    (readOnly_refuseUnlessAuthored.keeps _).bind fun _ => ((h.record _ _).mapError _).bind fun _ =>
    (h.clearEntries.mapError _).bind fun _ => .bind (.forEach fun entry _ => ?_) fun _ =>
    ((h.nextVersion _).mapError _).bind fun _ => (readOnly_compendiumRow.mapError _).keeps _
  exact ((h.insertRow _ rfl).mapError _).bind fun _ => (Transaction.ReadOnly.pure _).keeps _

/-- The keys hold, and there is such a compendium. -/
def Database.SoundWith (collectionId : Uuid) (db : Database) : Prop :=
  db.Sound ∧ collectionId ∈ db.compendiums

theorem soundWith_kept (collectionId : Uuid) :
    KeptByStatements collectionId (Database.SoundWith collectionId) where
  record versionId replacedBy := by
    rintro db u db' ⟨hsound, hbook⟩ h
    obtain ⟨collection, version, -, -, hid, -, -, rfl⟩ := exec_record h
    exact ⟨hsound.append_version (hid ▸ hbook), hbook⟩
  insertRow entry hentry := by
    rintro db stored db' ⟨hsound, hbook⟩ h
    obtain ⟨hfresh, -, -, rfl⟩ := exec_insertRow.mp h
    exact ⟨hsound.append_entry hfresh (hentry ▸ hbook), hbook⟩
  deleteEntry entryId := .write fun _ _ hsound _ => ⟨hsound.1.filter_entries _, hsound.2⟩
  clearEntries := .write fun _ _ hsound _ => ⟨hsound.1.filter_entries _, hsound.2⟩
  nextVersion caller := by
    rintro db u db' ⟨hsound, hbook⟩ h
    rw [exec_nextVersion h]
    exact ⟨hsound.modify_compendium collectionId _, ExtTreeMap.mem_modify.mpr hbook⟩

/-- The calls on a collection leave the deltas alone. -/
theorem deltas_kept (collectionId : Uuid) (deltas : List Delta) :
    KeptByStatements collectionId fun db => db.deltas = deltas where
  record versionId replacedBy db u db' hdeltas h := by
    obtain ⟨_, _, -, -, -, -, -, rfl⟩ := exec_record h
    exact hdeltas
  insertRow entry _ db stored db' hdeltas h := by
    obtain ⟨-, -, -, rfl⟩ := exec_insertRow.mp h
    exact hdeltas
  deleteEntry entryId := .write fun _ _ hdeltas _ => hdeltas
  clearEntries := .write fun _ _ hdeltas _ => hdeltas
  nextVersion caller db u db' hdeltas h := by
    rw [exec_nextVersion h]
    exact hdeltas

/-- A call that keeps the keys of a collection it finds. -/
theorem keeps_of_found {ε α : Type} {x : Query ε α}
    (hfound : ∀ db r, x.exec db = .ok r → collectionId ∈ db.compendiums)
    (hkeeps : x.Keeps (Database.SoundWith collectionId)) : x.Keeps Database.Sound :=
  fun db a db' hsound h => (hkeeps db a db' ⟨hsound, hfound db _ h⟩ h).1

theorem mem_compendiums {db : Database} {collection : Compendium}
    (h : db.compendiums[collectionId]? = some collection) : collectionId ∈ db.compendiums :=
  ExtTreeMap.mem_iff_isSome_getElem?.mpr (by rw [h, Option.isSome_some])

theorem found_of_writable {α : Type} {f : Compendium → Query CollectionError α} {db : Database}
    {r : α × Database} (h : (writable caller collectionId >>= f).exec db = .ok r) :
    collectionId ∈ db.compendiums := by
  obtain ⟨_, _, hwritable, -⟩ := Transaction.exec_bind_eq_ok.mp h
  exact mem_compendiums (exec_writable.mp hwritable).1

theorem found_of_requireAccountOwner {α : Type} {f : Unit → Query CollectionError α} {db : Database}
    {r : α × Database} (h : (requireAccountOwner caller collectionId >>= f).exec db = .ok r) :
    collectionId ∈ db.compendiums := by
  obtain ⟨collection, hcollection, -⟩ := Option.map_eq_some_iff.mp (exec_requireAccountOwner_bind.mp h).1
  exact mem_compendiums hcollection

theorem sound_writeEntry {entryId : Uuid} {kind name : String} {content : Content} :
    (writeEntry versionId entryId caller collectionId kind name content).Keeps Database.Sound :=
  keeps_of_found (fun _ _ h => found_of_writable h) (soundWith_kept collectionId).writeEntry

theorem sound_removeEntry {entryId : Uuid} :
    (removeEntry versionId caller collectionId entryId).Keeps Database.Sound :=
  keeps_of_found (fun _ _ h => found_of_writable h) (soundWith_kept collectionId).removeEntry

theorem sound_restore {mint : Nat → Uuid} {version : Int} :
    (restore versionId mint caller collectionId version).Keeps Database.Sound := by
  refine keeps_of_found (fun db r h => ?_) (soundWith_kept collectionId).restore
  obtain ⟨_, _, hread, -⟩ := Transaction.exec_bind_eq_ok.mp h
  exact found_of_requireAccountOwner hread

theorem keeps_land {mint : Nat → Uuid} {base : List StoredEntry} {change : ShelfChange × Nat} :
    (land mint collectionId base change).Keeps (Database.SoundWith collectionId) := by
  have hidOf (identity : Identity) : (idOf base identity).ReadOnly := by
    intro db entryId db' h
    obtain ⟨_, -, -, -, rfl⟩ := exec_idOf h
    rfl
  obtain ⟨change, position⟩ := change
  cases change with
  | rewritten kind name before after =>
      refine ((hidOf _).keeps _).bind fun entryId => .mapError (.write fun db _ hsound _ => ?_) _
      refine ⟨hsound.1.map_entries (fun entry => ?_) fun entry => ?_, hsound.2⟩
      · split_ifs <;> rfl
      · split_ifs <;> rfl
  | takenOut kind name before =>
      refine ((hidOf _).keeps _).bind fun entryId => .mapError (.write fun db _ hsound _ => ?_) _
      exact ⟨hsound.1.filter_entries _, hsound.2⟩
  | added kind name after =>
      exact (((soundWith_kept collectionId).insertRow _ rfl).mapError _).bind fun _ =>
        (Transaction.ReadOnly.pure _).keeps _

theorem keeps_release {worldId : Uuid} {change : ShelfChange} :
    (release worldId collectionId change).Keeps (Database.SoundWith collectionId) :=
  .write fun _ _ hsound _ => ⟨hsound.1.filter_deltas _, hsound.2⟩

theorem sound_syncBack {digest : List UInt8 → List UInt8} {hash : HashOrder Delta} {mint : Nat → Uuid}
    {worldId : Uuid} {stamp : String} :
    (syncBack digest hash versionId mint caller worldId collectionId stamp).Keeps Database.Sound := by
  intro db outcome db' hsound h
  obtain ⟨-, hplan, -, -, db₁, db₂, db₃, _, _, _, _, hrecord, hland, hrelease, hnext⟩ := exec_syncBack h
  obtain ⟨collection, _, hcollection, -⟩ := exec_plan.mp hplan
  have hstatements := soundWith_kept collectionId
  have hfirst := hstatements.record _ _ _ _ _ ⟨hsound, mem_compendiums hcollection⟩ hrecord
  have hlanded := Transaction.Keeps.forEach (fun _ _ => keeps_land) _ _ _ hfirst hland
  have hreleased := Transaction.Keeps.forEach (fun _ _ => keeps_release) _ _ _ hlanded hrelease
  exact (hstatements.nextVersion _ _ _ _ hreleased hnext).1

end Calls

/-! ### The writes of a world -/

namespace Write

variable {db : Database} {caller worldId compendiumId deltaId : Uuid} {now : Nat} {identity : Identity}

/-- The row of an upsert is over the identity it was asked for. -/
theorem Written.row_over (written : Written) (db : Database) (worldId compendiumId : Uuid)
    (identity : Identity) :
    (written.row db worldId compendiumId identity).Over worldId compendiumId identity := by
  unfold Written.row
  cases hheld : db.heldOver worldId compendiumId identity with
  | none => exact ⟨rfl, rfl, rfl⟩
  | some held =>
      have hover : held.Over worldId compendiumId identity := by simpa using List.find?_some hheld
      exact hover

theorem Written.row_form (written : Written) (db : Database) (worldId compendiumId : Uuid)
    (identity : Identity) : (written.row db worldId compendiumId identity).form = written.form := by
  unfold Written.row
  split <;> rfl

theorem Written.row_fieldValues (written : Written) (db : Database) (worldId compendiumId : Uuid)
    (identity : Identity) :
    (written.row db worldId compendiumId identity).fieldValues = written.fieldValues := by
  unfold Written.row
  split <;> rfl

theorem Written.row_proseText (written : Written) (db : Database) (worldId compendiumId : Uuid)
    (identity : Identity) : (written.row db worldId compendiumId identity).proseText = written.proseText := by
  unfold Written.row
  split <;> rfl

theorem sound_upsert {written : Written} :
    (upsert written worldId compendiumId identity).Keeps Database.Sound := by
  intro db row db' hsound h
  obtain ⟨kind, -, rfl, -, -, hfresh, rfl⟩ := exec_upsert.mp h
  refine hsound.placing (written.row_over _ _ _ _) fun delta hdelta hnot hid => ?_
  cases hheld : db.heldOver worldId compendiumId ⟨kind, identity.name⟩ with
  | none => exact hfresh hheld delta hdelta hid
  | some held =>
      obtain ⟨hmem, hover⟩ := (Database.heldOver_eq_some hsound).mp hheld
      have hsame : (written.row db worldId compendiumId ⟨kind, identity.name⟩).id = held.id := by
        simp only [Written.row, hheld]
      obtain rfl := hsound.eq_of_id hdelta hmem (hid.trans hsame)
      exact hnot hover

theorem sound_changeAddition {addition : Delta} {content : Content} :
    (changeAddition now caller addition content).Keeps Database.Sound := by
  intro db edited db' hsound h
  obtain ⟨fieldValues, proseText, rfl⟩ := exec_changeAddition h
  refine hsound.map_deltas (fun delta => ?_) fun delta => ?_
  · split_ifs <;> rfl
  · split_ifs <;> exact ⟨rfl, rfl, rfl⟩

theorem sound_changeEntry {content : Content} :
    (changeEntry deltaId now caller worldId compendiumId identity content).Keeps Database.Sound := by
  intro db result db' hsound h
  obtain ⟨-, ⟨addition, edited, -, -, -, hedit, -⟩ | ⟨entry, said, -, -, hrest⟩⟩ := exec_changeEntry.mp h
  · exact sound_changeAddition _ _ _ hsound hedit
  · rcases hrest with ⟨-, -, rfl⟩ | ⟨-, origin, delta, -, hupsert, -⟩
    · exact hsound.without worldId compendiumId identity
    · exact sound_upsert _ _ _ hsound hupsert

theorem sound_hideEntry :
    (hideEntry deltaId now caller worldId compendiumId identity).Keeps Database.Sound := by
  intro db delta db' hsound h
  obtain ⟨-, entry, origin, -, -, hupsert⟩ := exec_hideEntry.mp h
  exact sound_upsert _ _ _ hsound hupsert

theorem sound_addEntry {content : Content} :
    (addEntry deltaId now caller worldId compendiumId identity content).Keeps Database.Sound := by
  intro db delta db' hsound h
  obtain ⟨-, -, -, origin, -, hupsert⟩ := exec_addEntry h
  exact sound_upsert _ _ _ hsound hupsert

theorem sound_restoreEntry : (restoreEntry caller worldId compendiumId identity).Keeps Database.Sound := by
  intro db delta db' hsound h
  obtain ⟨-, rfl⟩ := exec_restoreEntry h
  exact hsound.without worldId compendiumId identity

theorem sound_removeKeptAddition {additionId : Uuid} :
    (removeKeptAddition caller worldId additionId).Keeps Database.Sound := by
  intro db delta db' hsound h
  rw [exec_removeKeptAddition h]
  exact hsound.filter_deltas _

end Write

end ThunderForge.Library
