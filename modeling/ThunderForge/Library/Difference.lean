import ThunderForge.Lib.Run
import ThunderForge.Library.Keys
import ThunderForge.Library.SyncBackKeeps

/-! A delta holds exactly the difference: whatever is asked of an entry of a book in one world, the world
reads what it was last told, field by field, and holds those fields alone that are not what the book says. -/

namespace ThunderForge.Library

open Std (ExtTreeMap)

/-- Something asked of one entry of a book in one world, or anything else that happens. -/
inductive Ask where
  | changeEntry (deltaId : Uuid) (now : Nat) (caller : Uuid) (content : Content)
  | hideEntry (deltaId : Uuid) (now : Nat) (caller : Uuid)
  | restoreEntry (caller : Uuid)
  | elsewhere (next : Database)

/-- The book has the entries it had under this identity, and the world holds what it held over it. -/
structure LeavesAlone (worldId compendiumId : Uuid) (identity : Identity) (db next : Database) : Prop where
  sound : next.Sound
  entries : next.entriesAt compendiumId identity = db.entriesAt compendiumId identity
  held : next.heldOver worldId compendiumId identity = db.heldOver worldId compendiumId identity

namespace Ask

/-- The state it leaves, when it is not refused. -/
def landed (worldId compendiumId : Uuid) (identity : Identity) : Ask → Database → Option Database
  | changeEntry deltaId now caller content =>
    (Write.changeEntry deltaId now caller worldId compendiumId identity content).landed
  | hideEntry deltaId now caller => (Write.hideEntry deltaId now caller worldId compendiumId identity).landed
  | restoreEntry caller => (Write.restoreEntry caller worldId compendiumId identity).landed
  | elsewhere next => fun _ => some next

/-- The database, and what was not refused so far, latest first. -/
def step (worldId compendiumId : Uuid) (identity : Identity) (state : Database × List Ask) (ask : Ask) :
    Database × List Ask :=
  match ask.landed worldId compendiumId identity state.1 with
  | some next => (next, ask :: state.2)
  | none => state

/-- What happens elsewhere leaves this entry alone. -/
def Allowed (worldId compendiumId : Uuid) (identity : Identity) (state : Database × List Ask) : Ask → Prop
  | elsewhere next => LeavesAlone worldId compendiumId identity state.1 next
  | _ => True

end Ask

/-- What the last change said of a field, since the last hide or restore. -/
def lastSaid (field : String) : List Ask → Option Json
  | [] => none
  | .changeEntry _ _ _ (.fields values) :: earlier =>
    (values[field]?.map ReadValue.toJson).or (lastSaid field earlier)
  | .changeEntry _ _ _ (.prose _) :: earlier => lastSaid field earlier
  | .hideEntry .. :: _ => none
  | .restoreEntry _ :: _ => none
  | .elsewhere _ :: earlier => lastSaid field earlier

/-- Whether the entry was hidden, and neither changed nor restored since. -/
def isHidden : List Ask → Bool
  | [] => false
  | .changeEntry .. :: _ => false
  | .hideEntry .. :: _ => true
  | .restoreEntry _ :: _ => false
  | .elsewhere _ :: earlier => isHidden earlier

/-- What the world should read of a field. -/
def saying (entry : StoredEntry) (told : List Ask) (field : String) : Option Json :=
  (lastSaid field told).or (entry.fieldValues.field? field)

theorem lastSaid_eq_none_of_isHidden {told : List Ask} (h : isHidden told = true) (field : String) :
    lastSaid field told = none := by
  induction told with
  | nil => rfl
  | cons ask earlier ih =>
      cases ask with
      | changeEntry => simp [isHidden] at h
      | hideEntry => rfl
      | restoreEntry => rfl
      | elsewhere next => exact ih h

/-- What a world holds over an entry, once it was told all this. -/
inductive Holds (entry : StoredEntry) (told : List Ask) : Option Delta → Prop
  | untouched (held : Option Delta) (hforms : ∀ delta ∈ held, delta.form = .added)
      (hshown : isHidden told = false)
      (hsame : ∀ field, saying entry told field = entry.fieldValues.field? field) : Holds entry told held
  | hidden (delta : Delta) (hform : delta.form = .hidden) (hhidden : isHidden told = true) :
      Holds entry told (some delta)
  | changed (delta : Delta) (fields : ExtTreeMap String Json) (hform : delta.form = .changed)
      (hshown : isHidden told = false) (hprose : delta.proseText = none)
      (hfields : delta.fieldValues = some (.object fields)) (hdiffers : fields ≠ ∅)
      (hstores : ∀ field value, fields[field]? = some value ↔
        saying entry told field = some value ∧ entry.fieldValues.field? field ≠ some value) :
      Holds entry told (some delta)

/-- A value differs from the book's when it was said and the book says another. -/
theorem saying_differs {entry : StoredEntry} {told : List Ask} {field : String} {value : Json} :
    saying entry told field = some value ∧ entry.fieldValues.field? field ≠ some value ↔
      lastSaid field told = some value ∧ entry.fieldValues.field? field ≠ some value := by
  refine and_congr_left fun hbook => ?_
  unfold saying
  cases lastSaid field told with
  | none => simp [hbook]
  | some said => simp

/-- The fields already held are those said that the book does not say. -/
theorem Holds.prior {entry : StoredEntry} {told : List Ask} {held : Option Delta} (h : Holds entry told held)
    (field : String) : (Write.changeHeld held)[field]? =
      (lastSaid field told).filter fun value => entry.fieldValues.field? field ≠ some value := by
  cases h with
  | untouched held hforms hshown hsame =>
      have hnothing : Write.changeHeld held = ∅ := by
        cases held with
        | none => rfl
        | some delta => simp [Write.changeHeld, hforms delta rfl]
      have hfield := hsame field
      unfold saying at hfield
      rw [hnothing, ExtTreeMap.getElem?_empty]
      cases hsaid : lastSaid field told with
      | none => rfl
      | some said =>
          rw [hsaid, Option.some_or] at hfield
          simp [← hfield, Option.filter_some]
  | hidden delta hform hhidden =>
      rw [lastSaid_eq_none_of_isHidden hhidden field]
      simp [Write.changeHeld, hform]
  | changed delta fields hform hshown hprose hfields hdiffers hstores =>
      refine Option.ext fun value => ?_
      rw [Write.changeHeld, if_pos hform, Write.heldFields, hfields]
      simp only [hstores, saying_differs, Option.filter_eq_some_iff, decide_eq_true_eq]

theorem Holds.elsewhere {entry : StoredEntry} {told : List Ask} {held : Option Delta}
    (h : Holds entry told held) (next : Database) : Holds entry (.elsewhere next :: told) held := by
  cases h with
  | untouched held hforms hshown hsame => exact .untouched held hforms hshown hsame
  | hidden delta hform hhidden => exact .hidden delta hform hhidden
  | changed delta fields hform hshown hprose hfields hdiffers hstores =>
      exact .changed delta fields hform hshown hprose hfields hdiffers hstores

/-- What a change keeps is what was said last, where the book says something else. -/
theorem Holds.getElem?_changedFields {entry : StoredEntry} {told : List Ask} {held : Option Delta}
    (h : Holds entry told held) (deltaId : Uuid) (now : Nat) (caller : Uuid)
    (values : ExtTreeMap String ReadValue) (field : String) :
    (Write.changedFields held entry values)[field]? =
      (lastSaid field (.changeEntry deltaId now caller (.fields values) :: told)).filter fun value =>
        entry.fieldValues.field? field ≠ some value := by
  rw [Write.changedFields, ExtTreeMap.getElem?_filter', Write.laidOver, ExtTreeMap.getElem?_union,
    ExtTreeMap.getElem?_map, h.prior field, lastSaid]
  cases values[field]? with
  | some value => simp
  | none =>
      rw [Option.map_none, Option.none_or, Option.none_or, Option.filter_filter]
      simp

/-- The fields of a delta over an entry are exactly those that the world reads differently. -/
theorem stores_of_filter {entry : StoredEntry} {told : List Ask} {fields : ExtTreeMap String Json}
    (h : ∀ field, fields[field]? = (lastSaid field told).filter fun value =>
      entry.fieldValues.field? field ≠ some value) (field : String) (value : Json) :
    fields[field]? = some value ↔
      saying entry told field = some value ∧ entry.fieldValues.field? field ≠ some value := by
  rw [h field, Option.filter_eq_some_iff, saying_differs, decide_eq_true_eq]

/-- Where nothing said differs from the book, the world reads the book. -/
theorem saying_eq_of_filter {entry : StoredEntry} {told : List Ask} {field : String}
    (h : (lastSaid field told).filter (fun value => entry.fieldValues.field? field ≠ some value) = none) :
    saying entry told field = entry.fieldValues.field? field := by
  unfold saying
  cases hsaid : lastSaid field told with
  | none => rw [Option.none_or]
  | some said =>
      rw [Option.some_or]
      rw [hsaid, Option.filter_eq_none_iff] at h
      exact (by simpa using h said rfl : entry.fieldValues.field? field = some said).symm

/-- The stored fields over the book's are what the world should read. -/
theorem or_eq_saying {entry : StoredEntry} {told : List Ask} {fields : ExtTreeMap String Json}
    (hstores : ∀ field value, fields[field]? = some value ↔
      saying entry told field = some value ∧ entry.fieldValues.field? field ≠ some value) (field : String) :
    (fields[field]?).or (entry.fieldValues.field? field) = saying entry told field := by
  cases hstored : fields[field]? with
  | some value => exact ((hstores field value).mp hstored).1.symm
  | none =>
      rw [Option.none_or]
      cases hsaid : saying entry told field with
      | none => exact (Option.or_eq_none_iff.mp hsaid).2
      | some value =>
          by_contra hne
          rw [(hstores field value).mpr ⟨hsaid, hne⟩] at hstored
          cases hstored

section Difference

variable {worldId compendiumId : Uuid} {identity : Identity} {entry : StoredEntry}

/-- The book has the one entry, read as fields, and the world holds over it what it was told. -/
structure Kept (worldId compendiumId : Uuid) (identity : Identity) (entry : StoredEntry)
    (state : Database × List Ask) : Prop where
  sound : state.1.Sound
  entries : state.1.entriesAt compendiumId identity = [entry]
  held : Holds entry state.2 (state.1.heldOver worldId compendiumId identity)

/-- Where nothing was said, a world that holds nothing reads the book. -/
theorem Holds.nothing {told : List Ask} (hshown : isHidden told = false)
    (hsame : ∀ field, saying entry told field = entry.fieldValues.field? field) : Holds entry told none :=
  .untouched none (fun _ hmem => absurd hmem (Option.not_mem_none _)) hshown hsame

theorem heldOver_without (db : Database) (worldId compendiumId : Uuid) (identity : Identity) :
    (db.without worldId compendiumId identity).heldOver worldId compendiumId identity = none :=
  Database.heldOver_eq_none.mpr fun _ hdelta => (Database.mem_without.mp hdelta).2

theorem heldOver_placing (db : Database) {row : Delta} (hover : row.Over worldId compendiumId identity) :
    (db.placing worldId compendiumId identity row).heldOver worldId compendiumId identity = some row := by
  have hnone := heldOver_without db worldId compendiumId identity
  unfold Database.heldOver Database.without at hnone
  rw [Database.heldOver, Database.placing, List.find?_append, hnone, Option.none_or]
  simp [hover]

/-- A column wide enough for the identity keeps it as it is. -/
theorem exec_upsert_of_fits {db db' : Database} {written : Write.Written} {row : Delta}
    (hfits : identity.kind.toList.length ≤ 64)
    (h : (Write.upsert written worldId compendiumId identity).exec db = .ok (row, db')) :
    row = written.row db worldId compendiumId identity ∧
      db' = db.placing worldId compendiumId identity row := by
  obtain ⟨kind, hkind, hrow, -, -, -, hplaced⟩ := Write.exec_upsert.mp h
  obtain rfl := Option.some.inj ((Write.varchar_eq_some hfits).symm.trans hkind)
  exact ⟨hrow, hplaced⟩

section asked

variable {db next : Database} {told : List Ask} {deltaId : Uuid} {now : Nat} {caller : Uuid}

/-- A change is stored as the fields that differ, or as nothing where none does. -/
theorem Kept.changeEntry (hkept : Kept worldId compendiumId identity entry (db, told))
    (hprose : entry.proseText = none) (hfits : identity.kind.toList.length ≤ 64) {content : Content}
    {result : Option Delta}
    (hexec : (Write.changeEntry deltaId now caller worldId compendiumId identity content).exec db =
      .ok (result, next)) :
    Kept worldId compendiumId identity entry (next, .changeEntry deltaId now caller content :: told) := by
  have hsound : next.Sound := Write.sound_changeEntry _ _ _ hkept.sound hexec
  obtain ⟨-, ⟨_, _, hempty, -⟩ | ⟨only, said, hbase, hsaid, hrest⟩⟩ := Write.exec_changeEntry.mp hexec
  · rw [hkept.entries] at hempty
    cases hempty
  obtain rfl : entry = only := by simpa using hkept.entries.symm.trans hbase
  cases content with
  | prose text => exact absurd hprose (Transaction.exec_require_bind_eq_ok.mp hsaid).1
  | fields values =>
      obtain ⟨-, -, rfl⟩ := Write.exec_differing_fields.mp hsaid
      have hkeeps := hkept.held.getElem?_changedFields deltaId now caller values
      rcases hrest with ⟨hsame, -, rfl⟩ | ⟨hdiffers, origin, delta, -, hupsert, -⟩
      · have hempty : Write.changedFields (db.heldOver worldId compendiumId identity) entry values = ∅ := by
          by_contra hne
          rw [if_neg hne] at hsame
          cases hsame
        refine ⟨hsound, hkept.entries, ?_⟩
        rw [heldOver_without]
        refine .nothing rfl fun field => saying_eq_of_filter ?_
        rw [← hkeeps field, hempty, ExtTreeMap.getElem?_empty]
      · have hne : Write.changedFields (db.heldOver worldId compendiumId identity) entry values ≠ ∅ :=
          fun hempty => hdiffers (by rw [if_pos hempty])
        obtain ⟨rfl, rfl⟩ := exec_upsert_of_fits hfits hupsert
        refine ⟨hsound, hkept.entries, ?_⟩
        rw [heldOver_placing _ (Write.Written.row_over _ _ _ _ _)]
        refine .changed _ _ (Write.Written.row_form _ _ _ _ _) rfl
          (Write.Written.row_proseText _ _ _ _ _) ?_ hne (stores_of_filter hkeeps)
        rw [Write.Written.row_fieldValues, if_neg hne]

theorem Kept.hideEntry (hkept : Kept worldId compendiumId identity entry (db, told))
    (hfits : identity.kind.toList.length ≤ 64) {delta : Delta}
    (hexec : (Write.hideEntry deltaId now caller worldId compendiumId identity).exec db = .ok (delta, next)) :
    Kept worldId compendiumId identity entry (next, .hideEntry deltaId now caller :: told) := by
  have hsound : next.Sound := Write.sound_hideEntry _ _ _ hkept.sound hexec
  obtain ⟨-, _, _, -, -, hupsert⟩ := Write.exec_hideEntry.mp hexec
  obtain ⟨rfl, rfl⟩ := exec_upsert_of_fits hfits hupsert
  refine ⟨hsound, hkept.entries, ?_⟩
  rw [heldOver_placing _ (Write.Written.row_over _ _ _ _ _)]
  exact .hidden _ (Write.Written.row_form _ _ _ _ _) rfl

theorem Kept.restoreEntry (hkept : Kept worldId compendiumId identity entry (db, told)) {delta : Delta}
    (hexec : (Write.restoreEntry caller worldId compendiumId identity).exec db = .ok (delta, next)) :
    Kept worldId compendiumId identity entry (next, .restoreEntry caller :: told) := by
  have hsound : next.Sound := Write.sound_restoreEntry _ _ _ hkept.sound hexec
  obtain ⟨-, rfl⟩ := Write.exec_restoreEntry hexec
  refine ⟨hsound, hkept.entries, ?_⟩
  rw [heldOver_without]
  exact .nothing rfl fun field => by rw [saying, lastSaid, Option.none_or]

end asked

theorem Kept.step {state : Database × List Ask} (hkept : Kept worldId compendiumId identity entry state)
    (hprose : entry.proseText = none) (hfits : identity.kind.toList.length ≤ 64) {ask : Ask}
    (hallowed : ask.Allowed worldId compendiumId identity state) :
    Kept worldId compendiumId identity entry (Ask.step worldId compendiumId identity state ask) := by
  obtain ⟨db, told⟩ := state
  unfold Ask.step
  cases hlanded : ask.landed worldId compendiumId identity db with
  | none => exact hkept
  | some next =>
      cases ask with
      | changeEntry deltaId now caller content =>
          obtain ⟨result, hexec⟩ := Transaction.landed_eq_some.mp hlanded
          exact hkept.changeEntry hprose hfits hexec
      | hideEntry deltaId now caller =>
          obtain ⟨delta, hexec⟩ := Transaction.landed_eq_some.mp hlanded
          exact hkept.hideEntry hfits hexec
      | restoreEntry caller =>
          obtain ⟨delta, hexec⟩ := Transaction.landed_eq_some.mp hlanded
          exact hkept.restoreEntry hexec
      | elsewhere other =>
          obtain rfl := Option.some.inj hlanded
          refine ⟨hallowed.sound, hallowed.entries.trans hkept.entries, ?_⟩
          rw [hallowed.held]
          exact hkept.held.elsewhere other

theorem deltaOver_deltasOver {db : Database} (hsound : db.Sound) (worldId compendiumId : Uuid)
    (identity : Identity) : deltaOver (db.deltasOver worldId compendiumId) identity =
      db.heldOver worldId compendiumId identity := by
  refine Option.ext fun delta => ?_
  rw [deltaOver_eq_some (nodup_deltasOver hsound worldId compendiumId), Database.heldOver_eq_some hsound]
  simp only [Database.deltasOver, SortBy.mem_sortBy, List.mem_filter, decide_eq_true_eq, Delta.Over, and_assoc]

/-- The entry is the one of its identity. -/
theorem Kept.once {state : Database × List Ask} (hkept : Kept worldId compendiumId identity entry state) :
    entry ∈ state.1.baseEntries compendiumId ∧ entry.identity = identity ∧
      identityCount (state.1.baseEntries compendiumId) entry.identity = 1 := by
  have hrows := baseEntries_rows state.1 compendiumId identity
  rw [hkept.entries] at hrows
  obtain ⟨hentry, hidentity⟩ := mem_of_rows hrows (List.mem_singleton_self entry)
  refine ⟨hentry, hidentity, ?_⟩
  rw [hidentity, identityCount_of_rows hrows]
  rfl

/-- How a world reads the entry. -/
theorem Kept.readOf {state : Database × List Ask} (hkept : Kept worldId compendiumId identity entry state)
    (bookOrigin : ContentOrigin) (showHidden : Bool) :
    let read := Library.readOf bookOrigin (state.1.baseEntries compendiumId)
      (state.1.deltasOver worldId compendiumId) showHidden entry
    (read = none ↔ isHidden state.2 = true ∧ showHidden = false) ∧
      ∀ reading ∈ read, ∀ field, reading.fieldValues.field? field = saying entry state.2 field := by
  obtain ⟨hentry, hidentity, honce⟩ := hkept.once
  have hdeltas := nodup_deltasOver hkept.sound worldId compendiumId
  have hover := deltaOver_deltasOver hkept.sound worldId compendiumId identity
  have hheld := hkept.held
  generalize state.1.heldOver worldId compendiumId identity = held at hover hheld
  have hread {delta : Delta} (hfound : held = some delta) :=
    have hmem := (deltaOver_eq_some hdeltas).mp (hover.trans hfound)
    @readOf_once _ _ bookOrigin showHidden hdeltas entry delta honce hmem.1 (hmem.2.trans hidentity.symm)
  cases hheld with
  | untouched _ hforms hshown hsame =>
      have hbook : Library.readOf bookOrigin (state.1.baseEntries compendiumId)
          (state.1.deltasOver worldId compendiumId) showHidden entry =
            some (entry.asRead bookOrigin false) := by
        cases held with
        | none =>
            refine readOf_untouched honce fun delta hdelta hsame => ?_
            rw [(deltaOver_eq_some hdeltas).mpr ⟨hdelta, hsame.trans hidentity⟩] at hover
            cases hover
        | some delta => rw [hread rfl, hforms delta rfl]
      rw [hbook]
      refine ⟨by simp [hshown], fun reading hreading field => ?_⟩
      obtain rfl := Option.some.inj hreading
      exact (hsame field).symm
  | hidden delta hform hhidden =>
      dsimp only
      rw [hread rfl, hform]
      refine ⟨by cases showHidden <;> simp [hhidden], fun reading hreading field => ?_⟩
      rw [saying, lastSaid_eq_none_of_isHidden hhidden, Option.none_or]
      cases showHidden with
      | false => cases hreading
      | true =>
          obtain rfl := Option.some.inj hreading
          rfl
  | changed delta fields hform hshown hprose hfields hdiffers hstores =>
      dsimp only
      rw [hread rfl, hform]
      refine ⟨by simp [hshown], fun reading hreading field => ?_⟩
      obtain rfl := Option.some.inj hreading
      calc (overlay entry.fieldValues delta.fieldValues).field? field
        _ = (fields[field]?).or (entry.fieldValues.field? field) := by
            rw [field?_overlay, hfields]
            rfl
        _ = saying entry state.2 field := or_eq_saying hstores field

/-- What the world reads under the identity. -/
theorem Kept.reads {state : Database × List Ask} (hkept : Kept worldId compendiumId identity entry state)
    {hash : HashOrder Delta} {showHidden : Bool} {result : Resolution} {s : Database}
    (h : (worldReads hash worldId compendiumId showHidden).exec state.1 = .ok (result, s)) :
    (result.entries.filter fun read => read.identity = identity).length =
        (if isHidden state.2 ∧ showHidden = false then 0 else 1) ∧
      ∀ read ∈ result.entries, read.identity = identity →
        ∀ field, read.fieldValues.field? field = saying entry state.2 field := by
  obtain ⟨-, collection, -, rfl, -⟩ := exec_worldReads.mp h
  obtain ⟨hentry, hidentity, honce⟩ := hkept.once
  have hunder := filter_entries_once hash collection.origin showHidden
    (nodup_baseEntries hkept.sound.entryIds compendiumId)
    (nodup_deltasOver hkept.sound worldId compendiumId) hentry honce
  rw [hidentity] at hunder
  obtain ⟨hnone, hreading⟩ := hkept.readOf collection.origin showHidden
  constructor
  · rw [hunder]
    split_ifs with hwithheld
    · rw [hnone.mpr hwithheld]
      rfl
    · obtain ⟨read, hread⟩ := Option.ne_none_iff_exists'.mp (mt hnone.mp hwithheld)
      rw [hread]
      rfl
  · intro read hread hsame
    have hmem : read ∈ (Library.readOf collection.origin (state.1.baseEntries compendiumId)
        (state.1.deltasOver worldId compendiumId) showHidden entry).toList := by
      rw [← hunder]
      exact List.mem_filter.mpr ⟨hread, by simpa using hsame⟩
    exact hreading read (Option.mem_toList.mp hmem)

/-- Whether a change is held, and what it stores. -/
theorem Kept.changed {state : Database × List Ask} (hkept : Kept worldId compendiumId identity entry state) :
    ((∃ delta ∈ state.1.deltas, delta.Over worldId compendiumId identity ∧ delta.form = .changed) ↔
      ∃ field, saying entry state.2 field ≠ entry.fieldValues.field? field) ∧
    ∀ delta ∈ state.1.deltas, delta.Over worldId compendiumId identity → delta.form = .changed →
      delta.proseText = none ∧ ∃ fields, delta.fieldValues = some (.object fields) ∧
        ∀ field value, fields[field]? = some value ↔
          saying entry state.2 field = some value ∧ entry.fieldValues.field? field ≠ some value := by
  have hheld {delta : Delta} (hmem : delta ∈ state.1.deltas) (hover : delta.Over worldId compendiumId identity) :
      Holds entry state.2 (some delta) := by
    have hholds := hkept.held
    rwa [(Database.heldOver_eq_some hkept.sound).mpr ⟨hmem, hover⟩] at hholds
  refine ⟨⟨?_, ?_⟩, ?_⟩
  · rintro ⟨delta, hmem, hover, hchanged⟩
    cases hheld hmem hover with
    | untouched _ hforms => cases hchanged.symm.trans (hforms delta rfl)
    | hidden _ hform => cases hchanged.symm.trans hform
    | changed _ fields hform hshown hprose hfields hdiffers hstores =>
        by_contra hall
        push Not at hall
        refine hdiffers (ExtTreeMap.ext_getElem? fun field => ?_)
        rw [ExtTreeMap.getElem?_empty]
        refine Option.eq_none_iff_forall_ne_some.mpr fun value hvalue => ?_
        obtain ⟨hsaid, hbook⟩ := (hstores field value).mp hvalue
        exact hbook ((hall field).symm.trans hsaid)
  · rintro ⟨field, hdiffers⟩
    have hholds := hkept.held
    generalize hfound : state.1.heldOver worldId compendiumId identity = held at hholds
    cases hholds with
    | untouched _ hforms hshown hsame => exact absurd (hsame field) hdiffers
    | hidden delta hform hhidden =>
        refine absurd ?_ hdiffers
        rw [saying, lastSaid_eq_none_of_isHidden hhidden, Option.none_or]
    | changed delta fields hform =>
        obtain ⟨hmem, hover⟩ := (Database.heldOver_eq_some hkept.sound).mp hfound
        exact ⟨delta, hmem, hover, hform⟩
  · intro delta hmem hover hchanged
    cases hheld hmem hover with
    | untouched _ hforms => cases hchanged.symm.trans (hforms delta rfl)
    | hidden _ hform => cases hchanged.symm.trans hform
    | changed _ fields hform hshown hprose hfields hdiffers hstores =>
        exact ⟨hprose, fields, hfields, hstores⟩

/-- A delta holds exactly the difference. Over an entry read as fields that is alone under its identity in
its book, and that a world has neither changed nor hidden yet, however often the world changes, hides and
restores it, and whatever else happens meanwhile, the world reads of each field what the last change said
since the last hide or restore, or else what the book says; it holds a change just when some field reads
otherwise than in the book, and stores those fields alone. -/
theorem delta_holds_the_difference (hash : HashOrder Delta) {db : Database} {worldId compendiumId : Uuid}
    {identity : Identity} {entry : StoredEntry} (hsound : db.Sound)
    (hbase : db.entriesAt compendiumId identity = [entry]) (hstorable : storable entry = true)
    (hfields : entry.proseText = none)
    (hfresh : ∀ delta ∈ db.deltas, delta.Over worldId compendiumId identity → delta.form = .added)
    {asks : List Ask} (hasks : Run.Meets (Ask.step worldId compendiumId identity)
      (Ask.Allowed worldId compendiumId identity) (db, []) asks) :
    let (last, told) := Run.run (Ask.step worldId compendiumId identity) (db, []) asks
    let reads (field : String) : Option Json :=
      (lastSaid field told).or (entry.fieldValues.field? field)
    (∀ showHidden result s, (worldReads hash worldId compendiumId showHidden).exec last = .ok (result, s) →
      (result.entries.filter fun read => read.identity = identity).length =
          (if isHidden told ∧ showHidden = false then 0 else 1) ∧
        ∀ read ∈ result.entries, read.identity = identity →
          ∀ field, read.fieldValues.field? field = reads field) ∧
    ((∃ delta ∈ last.deltas, delta.Over worldId compendiumId identity ∧ delta.form = .changed) ↔
      ∃ field, reads field ≠ entry.fieldValues.field? field) ∧
    ∀ delta ∈ last.deltas, delta.Over worldId compendiumId identity → delta.form = .changed →
      delta.proseText = none ∧ ∃ fields, delta.fieldValues = some (.object fields) ∧
        ∀ field value, fields[field]? = some value ↔
          reads field = some value ∧ entry.fieldValues.field? field ≠ some value := by
  have hidentity : entry.identity = identity := (mem_entriesAt.mp (hbase ▸ List.mem_singleton_self entry)).2.2
  have hfits : identity.kind.toList.length ≤ 64 := by
    rw [← hidentity, String.length_toList]
    simp only [storable, Bool.and_eq_true, decide_eq_true_eq] at hstorable
    exact hstorable.1
  have hinit : Kept worldId compendiumId identity entry (db, []) := by
    refine ⟨hsound, hbase, .untouched _ (fun delta hheld => ?_) rfl fun field => Option.none_or⟩
    obtain ⟨hmem, hover⟩ := (Database.heldOver_eq_some hsound).mp hheld
    exact hfresh delta hmem hover
  have hkept : Kept worldId compendiumId identity entry
      (Run.run (Ask.step worldId compendiumId identity) (db, []) asks) :=
    hasks.invariant (fun state ask hstate hallowed => hstate.step hfields hfits hallowed) hinit
  obtain ⟨hheld, hstores⟩ := hkept.changed
  exact ⟨fun showHidden result s hread => hkept.reads hread, hheld, hstores⟩

def bogEel : Identity := ⟨"creature", "Bog Eel"⟩

def bogEelRow : StoredEntry :=
  { id := 31, compendiumId := 9, kind := "creature", name := "Bog Eel"
    fieldValues := toFieldValues ((∅ : ExtTreeMap String ReadValue).insert "armour" (.clear "12"))
    proseText := none }

/-- A collection of one entry, on the list of one world. -/
def bog : Database where
  compendiums := (∅ : ExtTreeMap Uuid Compendium).insert 9 mireRow
  entries := [bogEelRow]
  versions := []
  deltas := []
  worlds := (∅ : ExtTreeMap Uuid World).insert 7 fens

def changeTo (deltaId : Uuid) (field value : String) : Ask :=
  .changeEntry deltaId 0 1 (.fields ((∅ : ExtTreeMap String ReadValue).insert field (.clear value)))

theorem delta_holds_the_difference_bog :
    let (last, _) := Run.run (Ask.step 7 9 bogEel) (bog, [])
      [changeTo 50 "armour" "13", .hideEntry 51 0 1, changeTo 52 "speed" "40"]
    ∃ delta ∈ last.deltas, delta.Over 7 9 bogEel ∧ delta.form = .changed := by
  have hsound : bog.Sound := ⟨by decide, by decide, fun _ hmem => absurd hmem List.not_mem_nil, by decide,
    fun _ _ => by simp [bog]⟩
  have hbase : bog.entriesAt 9 bogEel = [bogEelRow] := by decide +kernel
  have hasks : Run.Meets (Ask.step 7 9 bogEel) (Ask.Allowed 7 9 bogEel) (bog, [])
      [changeTo 50 "armour" "13", .hideEntry 51 0 1, changeTo 52 "speed" "40"] :=
    ⟨trivial, trivial, trivial, trivial⟩
  have hlast := delta_holds_the_difference (.sorted _) hsound hbase (by decide) rfl
    (fun _ hmem => absurd hmem List.not_mem_nil) hasks
  exact hlast.2.1.mpr ⟨"speed", by decide +kernel⟩

end Difference

end ThunderForge.Library
