import ThunderForge.Library.SyncBack

/-! Writing a world's deltas (`library/deltas/write.rs`): change, hide, add, restore. The ids minted and the
database's clock are parameters. -/

namespace ThunderForge.Library

open Std (ExtTreeMap)

/-- The delta is the one this world holds over the identity in the book. -/
def Delta.Over (worldId compendiumId : Uuid) (identity : Identity) (delta : Delta) : Prop :=
  delta.worldId = worldId ∧ delta.compendiumId = some compendiumId ∧ delta.identity = identity

instance (worldId compendiumId : Uuid) (identity : Identity) :
    DecidablePred (Delta.Over worldId compendiumId identity) := fun _ => inferInstanceAs (Decidable (_ ∧ _))

/-- The row a statement locks to change a delta that is over a book. -/
def Delta.locked (delta : Delta) : List Row :=
  (delta.compendiumId.map fun compendiumId => .delta delta.worldId compendiumId delta.identity).toList

/-- What a `VARCHAR(limit)` column makes of a text: blanks beyond the limit are cut, anything else beyond it
is refused. -/
def varchar (limit : Nat) (text : String) : Option String :=
  if (text.toList.drop limit).all (· = ' ') then some (String.ofList (text.toList.take limit)) else none

/-- The conditions the database keeps on a row of `world_entry_deltas`. -/
def Delta.storable (delta : Delta) : Bool :=
  delta.name.toList.any (· ≠ ' ') &&
  (delta.compendiumId.isNone != delta.writtenBesideTitle.isNone) &&
  (match delta.fieldValues with
    | some (.other _) => false
    | _ => true) &&
  match delta.form with
  | .hidden => delta.compendiumId.isSome && delta.fieldValues.isNone && delta.proseText.isNone
  | .changed => delta.compendiumId.isSome && (delta.fieldValues.isNone != delta.proseText.isNone) &&
      delta.fieldValues ≠ some (.object ∅)
  | .added => delta.fieldValues.isSome && (delta.proseText.isNone || delta.fieldValues = some (.object ∅))

namespace Database

variable (db : Database)

/-- The delta a world holds over an identity. -/
def heldOver (worldId compendiumId : Uuid) (identity : Identity) : Option Delta :=
  db.deltas.find? fun delta => delta.Over worldId compendiumId identity

/-- Whether the trigger lets a delta carry its origin. -/
def originFollowsForm (delta : Delta) : Bool :=
  match delta.form with
  | .added => delta.origin = .authored
  | .changed | .hidden =>
    (delta.compendiumId.bind fun compendiumId => db.compendiums[compendiumId]?).map Compendium.origin =
      some delta.origin

/-- The row of `world_entry_deltas` put in the place of whatever its world held there. -/
def placing (worldId compendiumId : Uuid) (identity : Identity) (row : Delta) : Database :=
  { db with deltas := (db.deltas.filter fun delta => ¬delta.Over worldId compendiumId identity) ++ [row] }

/-- Nothing of a world over one identity. -/
def without (worldId compendiumId : Uuid) (identity : Identity) : Database :=
  { db with deltas := db.deltas.filter fun delta => ¬delta.Over worldId compendiumId identity }

end Database

namespace Write

/-- Both gates a change passes: the caller is trusted with this table's books, and the book is one this
world is reading. -/
def mayChange (caller worldId compendiumId : Uuid) : Query DeltaError Unit := do
  let _ ← requireBookManager caller worldId
  refuseIfPaused worldId
  requireServed worldId compendiumId

def originOfBook (compendiumId : Uuid) : Query DeltaError ContentOrigin := do
  let collection ← (compendiumRow compendiumId).mapError .database
  return collection.origin

/-- The base entry a delta may attach to, or the refusal. -/
def theOne (base : List StoredEntry) (identity : Identity) : Query DeltaError StoredEntry :=
  match base with
  | [] => .fail (.noSuchEntry identity.kind identity.name)
  | [entry] => return entry
  | _ :: _ :: _ => .fail (.ambiguous identity.kind identity.name base.length)

/-- The world stops holding its delta over the identity, if it holds one. -/
def removeHeld (worldId compendiumId : Uuid) (identity : Identity) : Query DeltaError (Option Delta) :=
  .write (fun _ => [.delta worldId compendiumId identity])
    (fun db => .ok (db.heldOver worldId compendiumId identity))
    fun db => db.without worldId compendiumId identity

/-- What a write says of a delta, whichever identity it is over. -/
structure Written where
  deltaId : Uuid
  now : Nat
  caller : Uuid
  form : DeltaForm
  bookOrigin : ContentOrigin
  fieldValues : Option FieldValues
  proseText : Option String

/-- The row an upsert leaves: the one held, which keeps its id and its origin, or a new one. -/
def Written.row (written : Written) (db : Database) (worldId compendiumId : Uuid) (identity : Identity) :
    Delta :=
  match db.heldOver worldId compendiumId identity with
  | some held =>
    { held with
      form := written.form, fieldValues := written.fieldValues, proseText := written.proseText
      changedBy := some written.caller, updatedAt := written.now }
  | none =>
    { id := written.deltaId, worldId, compendiumId := some compendiumId, kind := identity.kind
      name := identity.name, form := written.form, origin := written.form.originOver written.bookOrigin
      fieldValues := written.fieldValues, proseText := written.proseText
      changedBy := some written.caller, updatedAt := written.now }

/-- Write a delta over an identity, replacing whatever this world held there. -/
def upsert (written : Written) (worldId compendiumId : Uuid) (identity : Identity) :
    Query DeltaError Delta :=
  match varchar 64 identity.kind with
  | none => .fail (.database .checkViolation)
  | some kind =>
    let identity : Identity := ⟨kind, identity.name⟩
    .write (fun _ => [.delta worldId compendiumId identity])
      (fun db =>
        let row := written.row db worldId compendiumId identity
        if ¬row.storable then .error (.database .checkViolation)
        else if ¬db.originFollowsForm row then .error (.database .originFollowsForm)
        else if db.heldOver worldId compendiumId identity = none ∧
            db.deltas.any fun delta => delta.id = row.id then .error (.database .uniqueViolation)
        else .ok row)
      fun db => db.placing worldId compendiumId identity (written.row db worldId compendiumId identity)

/-- The fields a change or an addition holds. -/
def heldFields (delta : Delta) : ExtTreeMap String Json :=
  match delta.fieldValues with
  | some (.object fields) => fields
  | _ => ∅

/-- The fields held, with those named laid over them. -/
def laidOver (held : ExtTreeMap String Json) (values : ExtTreeMap String ReadValue) :
    ExtTreeMap String Json :=
  held ∪ values.map fun _ value => value.toJson

/-- The fields that the change already held says. -/
def changeHeld : Option Delta → ExtTreeMap String Json
  | some held => if held.form = .changed then heldFields held else ∅
  | none => ∅

/-- The fields named laid over those of the change already held, with what matches the book left out. -/
def changedFields (held : Option Delta) (base : StoredEntry) (values : ExtTreeMap String ReadValue) :
    ExtTreeMap String Json :=
  (laidOver (changeHeld held) values).filter fun field value => base.fieldValues.field? field ≠ some value

/-- What an entry would say differently from the book. -/
def differing (held : Option Delta) (base : StoredEntry) (identity : Identity) :
    Content → Query DeltaError (Option FieldValues × Option String)
  | .fields values => do
    .require (base.proseText = none) (.proseHasNoFields identity.name)
    let fields := changedFields held base values
    return (if fields = ∅ then none else some (.object fields), none)
  | .prose text => do
    .require (base.proseText ≠ none) (.fieldsHaveNoProse identity.name)
    return (none, if base.proseText ≠ some text then some text else none)

/-- What an addition holds once it is changed: there is no book to differ from. -/
def additionHolds (addition : Delta) : Content → Query DeltaError (FieldValues × Option String)
  | .fields values => do
    .require (addition.proseText = none) (.proseHasNoFields addition.name)
    return (.object (laidOver (heldFields addition) values), none)
  | .prose text => do
    .require (heldFields addition = ∅) (.fieldsHaveNoProse addition.name)
    return (.object ∅, some text)

/-- Replace what an addition holds. -/
def changeAddition (now : Nat) (caller : Uuid) (addition : Delta) (content : Content) :
    Query DeltaError Delta := do
  let (fieldValues, proseText) ← additionHolds addition content
  let edited (delta : Delta) : Delta :=
    { delta with fieldValues := some fieldValues, proseText, changedBy := some caller, updatedAt := now }
  .write (fun _ => addition.locked)
    (fun db => match db.deltas.find? fun delta => delta.id = addition.id with
      | none => .error (.database .notFound)
      | some delta =>
        if ¬(edited delta).storable then .error (.database .checkViolation)
        else if ¬db.originFollowsForm (edited delta) then .error (.database .originFollowsForm)
        else .ok (edited delta))
    fun db => { db with
      deltas := db.deltas.map fun delta => if delta.id = addition.id then edited delta else delta }

/-- Change what an entry says in this world, answering with the delta as it now stands, if anything
differs from the book. -/
def changeEntry (deltaId : Uuid) (now : Nat) (caller worldId compendiumId : Uuid) (identity : Identity)
    (content : Content) : Query DeltaError (Option Delta) := do
  mayChange caller worldId compendiumId
  let held ← .read fun db => db.heldOver worldId compendiumId identity
  let base ← .read fun db => db.entriesAt compendiumId identity
  match base, held.filter fun held => held.form = .added with
  | [], some addition => return some (← changeAddition now caller addition content)
  | base, _ =>
    let entry ← theOne base identity
    let (fieldValues, proseText) ← differing held entry identity content
    if fieldValues = none ∧ proseText = none then
      let _ ← removeHeld worldId compendiumId identity
      return none
    else
      let bookOrigin ← originOfBook compendiumId
      let delta ← upsert ⟨deltaId, now, caller, .changed, bookOrigin, fieldValues, proseText⟩ worldId
        compendiumId identity
      return some delta

/-- Stop showing an entry in this world, leaving it in the book. -/
def hideEntry (deltaId : Uuid) (now : Nat) (caller worldId compendiumId : Uuid) (identity : Identity) :
    Query DeltaError Delta := do
  mayChange caller worldId compendiumId
  let base ← .read fun db => db.entriesAt compendiumId identity
  let _ ← theOne base identity
  let bookOrigin ← originOfBook compendiumId
  upsert ⟨deltaId, now, caller, .hidden, bookOrigin, none, none⟩ worldId compendiumId identity

/-- The addition of this identity that a world kept when its book left the shelf. -/
def keptFromARemovedBook (db : Database) (worldId : Uuid) (identity : Identity) : Option String :=
  (db.deltas.find? fun delta => delta.worldId = worldId ∧ delta.compendiumId = none ∧
    delta.identity = identity).bind Delta.writtenBesideTitle

/-- Write an entry into this world beside the book. -/
def addEntry (deltaId : Uuid) (now : Nat) (caller worldId compendiumId : Uuid) (identity : Identity)
    (content : Content) : Query DeltaError Delta := do
  mayChange caller worldId compendiumId
  .require (trim identity.kind ≠ "" ∧ trim identity.name ≠ "") .unnamed
  let base ← .read fun db => db.entriesAt compendiumId identity
  .require (base = []) (.alreadyInTheBook identity.kind identity.name)
  let held ← .read fun db => db.heldOver worldId compendiumId identity
  .require (held = none) (.alreadyAdded identity.kind identity.name)
  match ← .read fun db => keptFromARemovedBook db worldId identity with
  | some title => .fail (.alreadyWrittenHere identity.kind identity.name title)
  | none =>
    let bookOrigin ← originOfBook compendiumId
    upsert ⟨deltaId, now, caller, .added, bookOrigin, some content.columns.1, content.columns.2⟩ worldId
      compendiumId identity

/-- Put an entry back as the book has it, or take an addition out of the world. An addition whose book is
switched off can still be taken out. -/
def restoreEntry (caller worldId compendiumId : Uuid) (identity : Identity) : Query DeltaError Delta := do
  let _ ← requireBookManager caller worldId
  refuseIfPaused worldId
  let held ← .read fun db => db.heldOver worldId compendiumId identity
  let listed ← .read fun db => (db.worlds[worldId]?).any fun world =>
    world.books.any fun book => book.1 = compendiumId
  let orphanedAddition := (held.any fun held => held.form = .added) ∧ listed = false
  if orphanedAddition then pure () else requireServed worldId compendiumId
  let removed ← removeHeld worldId compendiumId identity
  .getOr removed (.nothingToRestore identity.kind identity.name)

/-- Remove an addition this world kept, by its id. -/
def removeKeptAddition (caller worldId additionId : Uuid) : Query DeltaError Delta := do
  let _ ← requireBookManager caller worldId
  refuseIfPaused worldId
  let isIt (delta : Delta) : Bool :=
    delta.id = additionId ∧ delta.worldId = worldId ∧ delta.form = .added
  let removed ← .write (fun db => (db.deltas.filter isIt).flatMap Delta.locked)
    (fun db => .ok (db.deltas.find? isIt))
    fun db => { db with deltas := db.deltas.filter fun delta => ¬isIt delta }
  .getOr removed .noSuchAddition

/-! ### What each call comes to -/

end Write

/-- A caller trusted with the books of a world that is not paused, and a book that it reads. -/
def Database.Allows (db : Database) (caller worldId compendiumId : Uuid) : Prop :=
  (∃ world, db.worlds[worldId]? = some world ∧ caller ∈ world.bookManagers) ∧
    (db.worlds[worldId]?).any World.paused = false ∧
    ((db.worlds[worldId]?).bind fun world =>
      (world.books.find? fun book => book.1 = compendiumId).map Prod.snd) = some true

namespace Write

variable {db db' : Database} {caller worldId compendiumId deltaId : Uuid} {now : Nat} {identity : Identity}

theorem exec_requireBookManager {owner : Uuid} :
    (requireBookManager caller worldId).exec db = .ok (owner, db') ↔
      ∃ world, db.worlds[worldId]? = some world ∧ caller ∈ world.bookManagers ∧
        world.createdBy = owner ∧ db = db' := by
  unfold requireBookManager
  rw [Transaction.exec_read_bind]
  cases hworld : db.worlds[worldId]? with
  | none => simp
  | some world => simp [Transaction.exec_require_bind_eq_ok]

theorem exec_refuseIfPaused {u : Unit} : (refuseIfPaused worldId).exec db = .ok (u, db') ↔
    (db.worlds[worldId]?).any World.paused = false ∧ db = db' := by
  unfold refuseIfPaused
  rw [Transaction.exec_read_bind, Transaction.exec_require_eq_ok]

theorem exec_requireServed {u : Unit} : (requireServed worldId compendiumId).exec db = .ok (u, db') ↔
    ((db.worlds[worldId]?).bind fun world =>
      (world.books.find? fun book => book.1 = compendiumId).map Prod.snd) = some true ∧ db = db' := by
  unfold requireServed
  rw [Transaction.exec_read_bind]
  cases (db.worlds[worldId]?).bind fun world =>
      (world.books.find? fun book => book.1 = compendiumId).map Prod.snd with
  | none => simp
  | some matching => simp [Transaction.exec_require_eq_ok]

theorem exec_mayChange {u : Unit} : (mayChange caller worldId compendiumId).exec db = .ok (u, db') ↔
    db.Allows caller worldId compendiumId ∧ db = db' := by
  unfold mayChange
  simp only [Transaction.exec_bind_eq_ok, exec_requireBookManager, exec_refuseIfPaused, exec_requireServed]
  constructor
  · rintro ⟨owner, _, ⟨world, hworld, hcaller, -, rfl⟩, _, _, ⟨hpaused, rfl⟩, hserved, rfl⟩
    exact ⟨⟨⟨world, hworld, hcaller⟩, hpaused, hserved⟩, rfl⟩
  · rintro ⟨⟨⟨world, hworld, hcaller⟩, hpaused, hserved⟩, rfl⟩
    exact ⟨_, db, ⟨world, hworld, hcaller, rfl, rfl⟩, (), db, ⟨hpaused, rfl⟩, hserved, rfl⟩

theorem exec_originOfBook {origin : ContentOrigin} :
    (originOfBook compendiumId).exec db = .ok (origin, db') ↔
      (db.compendiums[compendiumId]?).map Compendium.origin = some origin ∧ db = db' := by
  unfold originOfBook
  simp only [Transaction.exec_mapError_bind_eq_ok, exec_compendiumRow, Option.map_eq_some_iff]
  constructor
  · rintro ⟨collection, _, ⟨hcollection, rfl⟩, h⟩
    obtain ⟨rfl, rfl⟩ := Prod.mk.inj (Except.ok.inj h)
    exact ⟨⟨collection, hcollection, rfl⟩, rfl⟩
  · rintro ⟨⟨collection, hcollection, rfl⟩, rfl⟩
    exact ⟨collection, db, ⟨hcollection, rfl⟩, rfl⟩

theorem exec_theOne {base : List StoredEntry} {entry : StoredEntry} :
    (theOne base identity).exec db = .ok (entry, db') ↔ base = [entry] ∧ db = db' := by
  unfold theOne
  split <;> simp

theorem exec_removeHeld {held : Option Delta} :
    (removeHeld worldId compendiumId identity).exec db = .ok (held, db') ↔
      held = db.heldOver worldId compendiumId identity ∧
        db' = db.without worldId compendiumId identity := by
  unfold removeHeld
  rw [Transaction.exec_write_eq_ok, Except.ok.injEq, eq_comm, @eq_comm _ db']

/-- What a text that fits its column becomes. -/
theorem varchar_eq_some {limit : Nat} {text : String} (h : text.toList.length ≤ limit) :
    varchar limit text = some text := by
  simp [varchar, List.drop_eq_nil_of_le h, List.take_of_length_le h]

/-- An upsert that lands puts one row, which the database can keep, in the place of what was held. -/
theorem exec_upsert {written : Written} {row : Delta} :
    (upsert written worldId compendiumId identity).exec db = .ok (row, db') ↔
      ∃ kind, varchar 64 identity.kind = some kind ∧
        row = written.row db worldId compendiumId ⟨kind, identity.name⟩ ∧ row.storable = true ∧
        db.originFollowsForm row = true ∧
        (db.heldOver worldId compendiumId ⟨kind, identity.name⟩ = none →
          ∀ delta ∈ db.deltas, delta.id ≠ row.id) ∧
        db' = db.placing worldId compendiumId ⟨kind, identity.name⟩ row := by
  unfold upsert
  cases hkind : varchar 64 identity.kind with
  | none => simp
  | some kind =>
      simp only [Transaction.exec_write_eq_ok, Option.some.injEq, exists_eq_left']
      generalize written.row db worldId compendiumId ⟨kind, identity.name⟩ = next
      constructor
      · rintro ⟨hanswer, rfl⟩
        split_ifs at hanswer with hstorable horigin hfresh
        obtain rfl := Except.ok.inj hanswer
        refine ⟨rfl, hstorable, horigin, fun hnone delta hdelta hid => ?_, rfl⟩
        exact hfresh ⟨hnone, List.any_eq_true.mpr ⟨delta, hdelta, by simpa using hid⟩⟩
      · rintro ⟨rfl, hstorable, horigin, hfresh, rfl⟩
        rw [if_neg (not_not.mpr hstorable), if_neg (not_not.mpr horigin), if_neg]
        · exact ⟨rfl, rfl⟩
        · rintro ⟨hnone, htaken⟩
          obtain ⟨delta, hdelta, hid⟩ := List.any_eq_true.mp htaken
          exact hfresh hnone delta hdelta (by simpa using hid)

theorem readOnly_differing {held : Option Delta} {entry : StoredEntry} {content : Content} :
    (differing held entry identity content).ReadOnly := by
  cases content with
  | fields values => exact .bind (.require _ _) fun _ => .pure _
  | prose text => exact .bind (.require _ _) fun _ => .pure _

theorem readOnly_additionHolds {addition : Delta} {content : Content} :
    (additionHolds addition content).ReadOnly := by
  cases content with
  | fields values => exact .bind (.require _ _) fun _ => .pure _
  | prose text => exact .bind (.require _ _) fun _ => .pure _

theorem exec_differing_fields {held : Option Delta} {entry : StoredEntry}
    {values : ExtTreeMap String ReadValue} {said : Option FieldValues × Option String} :
    (differing held entry identity (.fields values)).exec db = .ok (said, db') ↔
      entry.proseText = none ∧ db = db' ∧
        said = (if changedFields held entry values = ∅ then none
          else some (.object (changedFields held entry values)), none) := by
  unfold differing
  rw [Transaction.exec_require_bind_eq_ok, Transaction.exec_pure, Except.ok.injEq, Prod.mk.injEq]
  constructor
  · rintro ⟨hprose, rfl, rfl⟩
    exact ⟨hprose, rfl, rfl⟩
  · rintro ⟨hprose, rfl, rfl⟩
    exact ⟨hprose, rfl, rfl⟩

/-- What changing an entry can do: edit an addition the book has no entry for, let go of what is held when
nothing differs, or hold the difference. -/
theorem exec_changeEntry {content : Content} {result : Option Delta} :
    (changeEntry deltaId now caller worldId compendiumId identity content).exec db = .ok (result, db') ↔
      db.Allows caller worldId compendiumId ∧
      ((∃ addition edited, db.entriesAt compendiumId identity = [] ∧
          db.heldOver worldId compendiumId identity = some addition ∧ addition.form = .added ∧
          (changeAddition now caller addition content).exec db = .ok (edited, db') ∧
          result = some edited) ∨
        ∃ entry said, db.entriesAt compendiumId identity = [entry] ∧
          (differing (db.heldOver worldId compendiumId identity) entry identity content).exec db =
            .ok (said, db) ∧
          (said = (none, none) ∧ result = none ∧ db' = db.without worldId compendiumId identity ∨
            said ≠ (none, none) ∧ ∃ origin delta,
              (db.compendiums[compendiumId]?).map Compendium.origin = some origin ∧
              (upsert ⟨deltaId, now, caller, .changed, origin, said.1, said.2⟩ worldId compendiumId
                identity).exec db = .ok (delta, db') ∧ result = some delta)) := by
  unfold changeEntry
  constructor
  · intro h
    obtain ⟨_, s, hmay, h⟩ := Transaction.exec_bind_eq_ok.mp h
    obtain ⟨hallows, rfl⟩ := exec_mayChange.mp hmay
    rw [Transaction.exec_read_bind, Transaction.exec_read_bind] at h
    refine ⟨hallows, ?_⟩
    split at h
    · rename_i addition hbase hadded
      obtain ⟨edited, s, hedit, h⟩ := Transaction.exec_bind_eq_ok.mp h
      obtain ⟨rfl, rfl⟩ := Prod.mk.inj (Except.ok.inj h)
      obtain ⟨hheld, hform⟩ := Option.filter_eq_some_iff.mp hadded
      exact .inl ⟨addition, edited, hbase, hheld, by simpa using hform, hedit, rfl⟩
    · obtain ⟨entry, s, hone, h⟩ := Transaction.exec_bind_eq_ok.mp h
      obtain ⟨hbase, rfl⟩ := exec_theOne.mp hone
      obtain ⟨⟨fieldValues, proseText⟩, s, hsaid, h⟩ := Transaction.exec_bind_eq_ok.mp h
      obtain rfl := readOnly_differing _ _ _ hsaid
      refine .inr ⟨entry, _, hbase, hsaid, ?_⟩
      dsimp only at h
      split_ifs at h with hsame
      · obtain ⟨_, s, hremove, h⟩ := Transaction.exec_bind_eq_ok.mp h
        obtain ⟨rfl, rfl⟩ := Prod.mk.inj (Except.ok.inj h)
        exact .inl ⟨by rw [hsame.1, hsame.2], rfl, (exec_removeHeld.mp hremove).2⟩
      · obtain ⟨origin, s, hasked, h⟩ := Transaction.exec_bind_eq_ok.mp h
        obtain ⟨horigin, rfl⟩ := exec_originOfBook.mp hasked
        obtain ⟨delta, s, hupsert, h⟩ := Transaction.exec_bind_eq_ok.mp h
        obtain ⟨rfl, rfl⟩ := Prod.mk.inj (Except.ok.inj h)
        exact .inr ⟨fun heq => hsame (Prod.mk.inj heq), origin, delta, horigin, hupsert, rfl⟩
  · rintro ⟨hallows, ⟨addition, edited, hbase, hheld, hform, hedit, rfl⟩ |
      ⟨entry, ⟨fieldValues, proseText⟩, hbase, hsaid, hrest⟩⟩
    · refine Transaction.exec_bind_eq_ok.mpr ⟨(), db, exec_mayChange.mpr ⟨hallows, rfl⟩, ?_⟩
      rw [Transaction.exec_read_bind, Transaction.exec_read_bind, hbase, hheld, Option.filter_some,
        if_pos (by simpa using hform)]
      exact Transaction.exec_bind_eq_ok.mpr ⟨edited, db', hedit, rfl⟩
    · refine Transaction.exec_bind_eq_ok.mpr ⟨(), db, exec_mayChange.mpr ⟨hallows, rfl⟩, ?_⟩
      rw [Transaction.exec_read_bind, Transaction.exec_read_bind, hbase]
      refine Transaction.exec_bind_eq_ok.mpr ⟨entry, db, exec_theOne.mpr ⟨rfl, rfl⟩, ?_⟩
      refine Transaction.exec_bind_eq_ok.mpr ⟨_, db, hsaid, ?_⟩
      rcases hrest with ⟨hsame, rfl, rfl⟩ | ⟨hdiffers, origin, delta, horigin, hupsert, rfl⟩
      · obtain ⟨rfl, rfl⟩ := Prod.mk.inj hsame
        dsimp only
        rw [if_pos ⟨rfl, rfl⟩]
        exact Transaction.exec_bind_eq_ok.mpr ⟨_, _, exec_removeHeld.mpr ⟨rfl, rfl⟩, rfl⟩
      · dsimp only
        rw [if_neg fun hsame => hdiffers (by rw [hsame.1, hsame.2])]
        refine Transaction.exec_bind_eq_ok.mpr ⟨origin, db, exec_originOfBook.mpr ⟨horigin, rfl⟩, ?_⟩
        exact Transaction.exec_bind_eq_ok.mpr ⟨delta, db', hupsert, rfl⟩

theorem exec_hideEntry {delta : Delta} :
    (hideEntry deltaId now caller worldId compendiumId identity).exec db = .ok (delta, db') ↔
      db.Allows caller worldId compendiumId ∧ ∃ entry origin, db.entriesAt compendiumId identity = [entry] ∧
        (db.compendiums[compendiumId]?).map Compendium.origin = some origin ∧
        (upsert ⟨deltaId, now, caller, .hidden, origin, none, none⟩ worldId compendiumId identity).exec db =
          .ok (delta, db') := by
  unfold hideEntry
  simp only [Transaction.exec_bind_eq_ok, exec_mayChange, Transaction.exec_read_bind, exec_theOne,
    exec_originOfBook]
  constructor
  · rintro ⟨_, _, ⟨hallows, rfl⟩, entry, _, ⟨hbase, rfl⟩, origin, _, ⟨horigin, rfl⟩, hupsert⟩
    exact ⟨hallows, entry, origin, hbase, horigin, hupsert⟩
  · rintro ⟨hallows, entry, origin, hbase, horigin, hupsert⟩
    exact ⟨(), db, ⟨hallows, rfl⟩, entry, db, ⟨hbase, rfl⟩, origin, db, ⟨horigin, rfl⟩, hupsert⟩

theorem exec_addEntry {content : Content} {delta : Delta}
    (h : (addEntry deltaId now caller worldId compendiumId identity content).exec db = .ok (delta, db')) :
    db.Allows caller worldId compendiumId ∧ db.entriesAt compendiumId identity = [] ∧
      db.heldOver worldId compendiumId identity = none ∧ ∃ origin,
        (db.compendiums[compendiumId]?).map Compendium.origin = some origin ∧
        (upsert ⟨deltaId, now, caller, .added, origin, some content.columns.1, content.columns.2⟩ worldId
          compendiumId identity).exec db = .ok (delta, db') := by
  unfold addEntry at h
  obtain ⟨_, s, hmay, h⟩ := Transaction.exec_bind_eq_ok.mp h
  obtain ⟨hallows, rfl⟩ := exec_mayChange.mp hmay
  obtain ⟨-, h⟩ := Transaction.exec_require_bind_eq_ok.mp h
  rw [Transaction.exec_read_bind] at h
  obtain ⟨hbase, h⟩ := Transaction.exec_require_bind_eq_ok.mp h
  rw [Transaction.exec_read_bind] at h
  obtain ⟨hheld, h⟩ := Transaction.exec_require_bind_eq_ok.mp h
  rw [Transaction.exec_read_bind] at h
  split at h
  · cases h
  · obtain ⟨origin, s, hasked, h⟩ := Transaction.exec_bind_eq_ok.mp h
    obtain ⟨horigin, rfl⟩ := exec_originOfBook.mp hasked
    exact ⟨hallows, hbase, hheld, origin, horigin, h⟩

theorem exec_getOr {α : Type} {value : Option α} {error : DeltaError} {a : α} :
    (Transaction.getOr value error : Query DeltaError α).exec db = .ok (a, db') ↔ value = some a ∧ db = db' := by
  cases value <;> simp [Transaction.getOr]

theorem exec_restoreEntry {delta : Delta}
    (h : (restoreEntry caller worldId compendiumId identity).exec db = .ok (delta, db')) :
    db.heldOver worldId compendiumId identity = some delta ∧
      db' = db.without worldId compendiumId identity := by
  unfold restoreEntry at h
  obtain ⟨_, s, hmanager, h⟩ := Transaction.exec_bind_eq_ok.mp h
  obtain rfl := readOnly_requireBookManager _ _ _ hmanager
  obtain ⟨_, s, hpaused, h⟩ := Transaction.exec_bind_eq_ok.mp h
  obtain ⟨-, rfl⟩ := exec_refuseIfPaused.mp hpaused
  rw [Transaction.exec_read_bind, Transaction.exec_read_bind] at h
  dsimp only at h
  have hrest : (removeHeld worldId compendiumId identity >>= fun removed => Transaction.getOr removed
      (.nothingToRestore identity.kind identity.name)).exec db = .ok (delta, db') := by
    split_ifs at h
    · exact h
    · obtain ⟨_, s, hserved, h⟩ := Transaction.exec_bind_eq_ok.mp h
      obtain rfl := readOnly_requireServed _ _ _ hserved
      exact h
  obtain ⟨held, s, hremove, h⟩ := Transaction.exec_bind_eq_ok.mp hrest
  obtain ⟨rfl, rfl⟩ := exec_removeHeld.mp hremove
  obtain ⟨hheld, rfl⟩ := exec_getOr.mp h
  exact ⟨hheld, rfl⟩

theorem exec_removeKeptAddition {additionId : Uuid} {delta : Delta}
    (h : (removeKeptAddition caller worldId additionId).exec db = .ok (delta, db')) :
    db' = { db with deltas := db.deltas.filter fun delta =>
      ¬(delta.id = additionId ∧ delta.worldId = worldId ∧ delta.form = .added) } := by
  unfold removeKeptAddition at h
  obtain ⟨_, s, hmanager, h⟩ := Transaction.exec_bind_eq_ok.mp h
  obtain rfl := readOnly_requireBookManager _ _ _ hmanager
  obtain ⟨_, s, hpaused, h⟩ := Transaction.exec_bind_eq_ok.mp h
  obtain ⟨-, rfl⟩ := exec_refuseIfPaused.mp hpaused
  dsimp only at h
  obtain ⟨removed, s, hdelete, h⟩ := Transaction.exec_bind_eq_ok.mp h
  obtain ⟨-, rfl⟩ := Transaction.exec_write_eq_ok.mp hdelete
  obtain ⟨-, rfl⟩ := exec_getOr.mp h
  simp

/-- Changing an addition edits what it holds and leaves the rest of the table alone. -/
theorem exec_changeAddition {addition edited : Delta} {content : Content}
    (h : (changeAddition now caller addition content).exec db = .ok (edited, db')) :
    ∃ fieldValues proseText, db' = { db with deltas := db.deltas.map fun delta =>
      if delta.id = addition.id then
        { delta with
          fieldValues := some fieldValues, proseText, changedBy := some caller, updatedAt := now }
      else delta } := by
  unfold changeAddition at h
  obtain ⟨⟨fieldValues, proseText⟩, s, hholds, h⟩ := Transaction.exec_bind_eq_ok.mp h
  obtain rfl := readOnly_additionHolds _ _ _ hholds
  obtain ⟨-, rfl⟩ := Transaction.exec_write_eq_ok.mp h
  exact ⟨fieldValues, proseText, rfl⟩

end Write

end ThunderForge.Library
