import ThunderForge.Lib.Run
import ThunderForge.Library.SyncBack

/-! A collection's history. Whatever changes are asked of a collection, and whatever else happens in the
database, every version it passed through stays readable as it was. -/

namespace ThunderForge.Library

open Std (ExtTreeMap)

/-- A change asked of a collection, with the ids minted for it. -/
inductive Change where
  | writeEntry (versionId entryId caller : Uuid) (kind name : String) (content : Content)
  | removeEntry (versionId caller entryId : Uuid)
  | syncBack (versionId : Uuid) (mint : Nat → Uuid) (caller worldId : Uuid) (stamp : String)
  | restore (versionId : Uuid) (mint : Nat → Uuid) (caller : Uuid) (version : Int)

/-- Something that happens: a change of the collection, or anything that leaves it alone. -/
inductive Event where
  | change (change : Change)
  | elsewhere (next : Database)

namespace Database

variable (db : Database) (collectionId : Uuid)

/-- The earlier versions kept of a collection. -/
def versionsOf : List CollectionVersion :=
  db.versions.filter fun row => row.compendiumId = collectionId

/-- The version of a collection in force. -/
def baseVersion : Nat := (db.compendiums[collectionId]?).elim 0 Compendium.baseVersion

/-- How many entries of one kind a collection holds. -/
def countOfKind (kind : String) : Nat :=
  (db.entriesOf collectionId).countP fun entry => entry.kind = kind

end Database

/-- The collection, its entries and its versions are as they were. -/
def Undisturbed (collectionId : Uuid) (db db' : Database) : Prop :=
  db'.compendiums[collectionId]? = db.compendiums[collectionId]? ∧
    db'.entriesOf collectionId = db.entriesOf collectionId ∧
    db'.versionsOf collectionId = db.versionsOf collectionId

section History

variable (digest : List UInt8 → List UInt8) (hash : HashOrder Delta) (collectionId : Uuid)

/-- The state a change leaves, when it succeeds. -/
def Change.landed : Change → Database → Option Database
  | writeEntry versionId entryId caller kind name content =>
    (Library.writeEntry versionId entryId caller collectionId kind name content).landed
  | removeEntry versionId caller entryId =>
    (Library.removeEntry versionId caller collectionId entryId).landed
  | syncBack versionId mint caller worldId stamp =>
    (Library.syncBack digest hash versionId mint caller worldId collectionId stamp).landed
  | restore versionId mint caller version =>
    (Library.restore versionId mint caller collectionId version).landed

/-- A change that fails leaves everything as it was. -/
def Event.apply (db : Database) : Event → Database
  | change request => (request.landed digest hash collectionId db).getD db
  | elsewhere next => next

/-- What happens elsewhere leaves this collection alone. -/
def Event.Allowed (db : Database) : Event → Prop
  | change _ => True
  | elsewhere next => Undisturbed collectionId db next

variable {digest hash collectionId} {db db' : Database}

theorem advanced_of_landed {change : Change} (h : change.landed digest hash collectionId db = some db') :
    Advanced collectionId db db' := by
  cases change with
  | writeEntry versionId entryId caller kind name content =>
      obtain ⟨_, h⟩ := Transaction.landed_eq_some.mp h
      exact advanced_writeEntry h
  | removeEntry versionId caller entryId =>
      obtain ⟨_, h⟩ := Transaction.landed_eq_some.mp h
      exact advanced_removeEntry h
  | syncBack versionId mint caller worldId stamp =>
      obtain ⟨_, h⟩ := Transaction.landed_eq_some.mp h
      exact advanced_syncBack h
  | restore versionId mint caller version =>
      obtain ⟨_, h⟩ := Transaction.landed_eq_some.mp h
      exact (advanced_restore h).1

/-! ### What every step keeps -/

/-- The collection as its history leaves it: its owner's, its entries counted, every version it keeps
earlier than the one in force. -/
structure WellKept (collectionId owner : Uuid) (db : Database) : Prop where
  row : ∃ collection, db.compendiums[collectionId]? = some collection ∧
    collection.ownerUserId = owner ∧ collection.entryCounts = db.countsByKind collectionId
  earlier : ∀ version ∈ db.versionsOf collectionId, version.version < db.baseVersion collectionId

/-- The entries are those of this version, in force or kept. -/
def Remembers (collectionId : Uuid) (version : Nat) (entries : List VersionEntry) (db : Database) : Prop :=
  db.baseVersion collectionId = version ∧ db.entriesInForce collectionId = entries ∨
    version < db.baseVersion collectionId ∧
      (db.versionRow collectionId version).map CollectionVersion.entries = some entries

theorem versionRow_eq_find? (version : Int) : db.versionRow collectionId version =
    (db.versionsOf collectionId).find? fun row => (row.version : Int) = version := by
  simp [Database.versionRow, Database.versionsOf, List.find?_filter]

theorem Advanced.baseVersion (h : Advanced collectionId db db') :
    db'.baseVersion collectionId = db.baseVersion collectionId + 1 := by
  obtain ⟨collection, caller, hrow, hrow'⟩ := h.row
  simp [Database.baseVersion, hrow, hrow']

/-- The version that was in force is the last one kept. -/
theorem Advanced.versionsOf (h : Advanced collectionId db db') :
    ∃ version, version.version = db.baseVersion collectionId ∧
      version.entries = db.entriesInForce collectionId ∧
      db'.versionsOf collectionId = db.versionsOf collectionId ++ [version] := by
  obtain ⟨collection, version, hrow, hid, hversion, hentries, hkept⟩ := h.kept
  refine ⟨version, ?_, hentries, ?_⟩
  · simp [Database.baseVersion, hrow, hversion]
  · simp [Database.versionsOf, hkept, hid]

/-- A version once kept is never replaced. -/
theorem Advanced.versionRow (h : Advanced collectionId db db') {version : Int} {row : CollectionVersion}
    (hrow : db.versionRow collectionId version = some row) :
    db'.versionRow collectionId version = some row := by
  obtain ⟨added, -, -, hkept⟩ := h.versionsOf
  rw [versionRow_eq_find?] at hrow ⊢
  rw [hkept, List.find?_append, hrow, Option.some_or]

theorem WellKept.advanced {owner : Uuid} (hkept : WellKept collectionId owner db)
    (h : Advanced collectionId db db') : WellKept collectionId owner db' := by
  obtain ⟨collection, caller, hrow, hrow'⟩ := h.row
  obtain ⟨previous, hprevious, howner, -⟩ := hkept.row
  obtain rfl : collection = previous := Option.some.inj (hrow.symm.trans hprevious)
  refine ⟨⟨_, hrow', howner, rfl⟩, fun version hversion => ?_⟩
  obtain ⟨added, hadded, -, hversions⟩ := h.versionsOf
  rw [h.baseVersion]
  rw [hversions] at hversion
  rcases List.mem_append.mp hversion with hold | hnew
  · exact (hkept.earlier version hold).trans (Nat.lt_succ_self _)
  · obtain rfl := List.mem_singleton.mp hnew
    omega

theorem Remembers.advanced {owner : Uuid} {version : Nat} {entries : List VersionEntry}
    (hremembers : Remembers collectionId version entries db) (hkept : WellKept collectionId owner db)
    (h : Advanced collectionId db db') : Remembers collectionId version entries db' := by
  refine .inr ?_
  rw [h.baseVersion]
  rcases hremembers with ⟨rfl, rfl⟩ | ⟨hlt, hrow⟩
  · obtain ⟨added, hadded, hentries, hversions⟩ := h.versionsOf
    have hnone : (db.versionsOf collectionId).find? (fun row =>
        (row.version : Int) = db.baseVersion collectionId) = none := by
      refine List.find?_eq_none.mpr fun row hrow => ?_
      have := hkept.earlier row hrow
      simp only [decide_eq_true_eq]
      omega
    refine ⟨Nat.lt_succ_self _, ?_⟩
    rw [versionRow_eq_find?, hversions, List.find?_append, hnone, Option.none_or]
    simp [hadded, hentries]
  · obtain ⟨row, hfound, rfl⟩ := Option.map_eq_some_iff.mp hrow
    exact ⟨hlt.trans (Nat.lt_succ_self _), by rw [h.versionRow hfound]; rfl⟩

theorem Undisturbed.baseVersion (h : Undisturbed collectionId db db') :
    db'.baseVersion collectionId = db.baseVersion collectionId := by
  rw [Database.baseVersion, Database.baseVersion, h.1]

theorem WellKept.undisturbed {owner : Uuid} (hkept : WellKept collectionId owner db)
    (h : Undisturbed collectionId db db') : WellKept collectionId owner db' := by
  obtain ⟨collection, hrow, howner, hcounts⟩ := hkept.row
  refine ⟨⟨collection, h.1.trans hrow, howner, hcounts.trans ?_⟩, fun version hversion => ?_⟩
  · rw [Database.countsByKind, Database.countsByKind, h.2.1]
  · rw [h.baseVersion]
    exact hkept.earlier version (h.2.2 ▸ hversion)

theorem Remembers.undisturbed {version : Nat} {entries : List VersionEntry}
    (hremembers : Remembers collectionId version entries db) (h : Undisturbed collectionId db db') :
    Remembers collectionId version entries db' := by
  have hentries : db'.entriesInForce collectionId = db.entriesInForce collectionId := by
    rw [Database.entriesInForce, Database.entriesInForce, Database.baseEntries, Database.baseEntries, h.2.1]
  have hrow : db'.versionRow collectionId version = db.versionRow collectionId version := by
    rw [versionRow_eq_find?, versionRow_eq_find?, h.2.2]
  rw [Remembers, h.baseVersion, hentries, hrow]
  exact hremembers

/-- What every change that lands and everything elsewhere keeps, every event keeps. -/
theorem Event.keeps {I : Database → Prop} (hlanded : ∀ s s', I s → Advanced collectionId s s' → I s')
    (helsewhere : ∀ s s', I s → Undisturbed collectionId s s' → I s') (s : Database) (event : Event)
    (hs : I s) (hallowed : event.Allowed collectionId s) : I (event.apply digest hash collectionId s) := by
  cases event with
  | change request =>
      show I ((request.landed digest hash collectionId s).getD s)
      cases hrequest : request.landed digest hash collectionId s with
      | none => exact hs
      | some s' => exact hlanded s s' hs (advanced_of_landed hrequest)
  | elsewhere next => exact helsewhere s next hs hallowed

theorem wellKept_run {owner : Uuid} {events : List Event} (hkept : WellKept collectionId owner db)
    (hallowed : Run.Meets (Event.apply digest hash collectionId) (fun s event => event.Allowed collectionId s)
      db events) :
    WellKept collectionId owner (Run.run (Event.apply digest hash collectionId) db events) :=
  hallowed.invariant (Event.keeps (fun _ _ => WellKept.advanced) fun _ _ => WellKept.undisturbed) hkept

theorem remembers_run {owner : Uuid} {version : Nat} {entries : List VersionEntry} {events : List Event}
    (hkept : WellKept collectionId owner db) (hremembers : Remembers collectionId version entries db)
    (hallowed : Run.Meets (Event.apply digest hash collectionId) (fun s event => event.Allowed collectionId s)
      db events) :
    Remembers collectionId version entries (Run.run (Event.apply digest hash collectionId) db events) := by
  refine (hallowed.invariant (I := fun s => WellKept collectionId owner s ∧
    Remembers collectionId version entries s) (Event.keeps ?_ ?_) ⟨hkept, hremembers⟩).2
  · rintro s s' ⟨hkept, hremembers⟩ hadvanced
    exact ⟨hkept.advanced hadvanced, hremembers.advanced hkept hadvanced⟩
  · rintro s s' ⟨hkept, hremembers⟩ hsame
    exact ⟨hkept.undisturbed hsame, hremembers.undisturbed hsame⟩

/-- A new collection has no entries and no earlier versions. -/
theorem wellKept_createCollection {owner : Uuid} {title systemId : String} {collection : Compendium}
    (hsound : db.Sound) (h : (createCollection collectionId owner title systemId).exec db =
      .ok (collection, db')) : WellKept collectionId owner db' ∧ db'.baseVersion collectionId = 1 := by
  unfold createCollection at h
  dsimp only at h
  by_cases htitle : trim title = ""
  · rw [if_pos htitle] at h
    cases h
  rw [if_neg htitle] at h
  obtain ⟨hanswer, rfl⟩ := Transaction.exec_write_eq_ok.mp h
  have hfresh : collectionId ∉ db.compendiums := fun hmem => by simp [hmem] at hanswer
  have hentries : db.entriesOf collectionId = [] :=
    List.filter_eq_nil_iff.mpr fun entry hentry hsame =>
      hfresh (by simpa [of_decide_eq_true hsame] using hsound.entryBooks entry hentry)
  have hversions : db.versionsOf collectionId = [] :=
    List.filter_eq_nil_iff.mpr fun version hversion hsame =>
      hfresh (by simpa [of_decide_eq_true hsame] using hsound.versionBooks version hversion)
  refine ⟨⟨?_, fun version hversion => ?_⟩, ?_⟩
  · refine ⟨_, ExtTreeMap.getElem?_insert_self, ?_⟩
    refine ⟨rfl, ?_⟩
    have hcounts := congrArg (List.foldl (fun (counts : ExtTreeMap String Nat) (entry : StoredEntry) =>
      counts.insert entry.kind (counts.getD entry.kind 0 + 1)) ∅) hentries
    exact hcounts.symm
  · exact absurd (hversions ▸ hversion) List.not_mem_nil
  · simp [Database.baseVersion]

/-- The counts by kind are the numbers of entries, for the kinds there are. -/
theorem getElem?_countsByKind (kind : String) : (db.countsByKind collectionId)[kind]? =
    if db.countOfKind collectionId kind = 0 then none else some (db.countOfKind collectionId kind) := by
  rw [Database.countsByKind, Database.countOfKind]
  induction db.entriesOf collectionId using List.reverseRecOn with
  | nil => simp
  | append_singleton entries entry ih =>
      rw [List.foldl_append, List.foldl_cons, List.foldl_nil, ExtTreeMap.getElem?_insert,
        List.countP_append, List.countP_singleton, ExtTreeMap.getD_eq_getD_getElem?]
      by_cases hkind : entry.kind = kind
      · subst hkind
        rw [if_pos (by simp), ih]
        split_ifs with hzero <;> simp_all
      · rw [if_neg (by simpa using hkind), ih]
        simp [hkind]

/-- Reading the version in force, for the collection's owner. -/
theorem exists_readAt_current {owner : Uuid} (hkept : WellKept collectionId owner db) :
    ∃ entries, (readAt owner collectionId .current).exec db = .ok (entries, db) ∧
      entries.Perm (db.entriesInForce collectionId) ∧
      entries.Pairwise fun a b => a.identity ≤ b.identity := by
  obtain ⟨collection, hrow, howner, -⟩ := hkept.row
  refine ⟨_, exec_readAt_current.mpr ⟨by simp [hrow, howner], rfl, rfl⟩, ?_, ?_⟩
  · exact SortBy.sortBy_perm _ _
  · exact SortBy.pairwise_le_sortBy _ _

/-- Reading an earlier version, for the collection's owner. -/
theorem exists_readAt_version {owner : Uuid} (hkept : WellKept collectionId owner db) {version : Int}
    {row : CollectionVersion} (hversion : db.versionRow collectionId version = some row) :
    ∃ entries, (readAt owner collectionId (.version version)).exec db = .ok (entries, db) ∧
      entries.Perm row.entries ∧ entries.Pairwise fun a b => a.identity ≤ b.identity := by
  obtain ⟨collection, hrow, howner, -⟩ := hkept.row
  refine ⟨_, exec_readAt_version.mpr ⟨by simp [hrow, howner], row, hversion, rfl, rfl⟩, ?_, ?_⟩
  · exact SortBy.sortBy_perm _ _
  · exact SortBy.pairwise_le_sortBy _ _

theorem Advanced.readAt_version {caller : Uuid} (h : Advanced collectionId db db') {version : Int} {entries : List VersionEntry}
    (hread : (readAt caller collectionId (.version version)).exec db = .ok (entries, db)) :
    (readAt caller collectionId (.version version)).exec db' = .ok (entries, db') := by
  obtain ⟨howner, row, hrow, hentries, -⟩ := exec_readAt_version.mp hread
  obtain ⟨collection, updated, hbefore, hafter⟩ := h.row
  refine exec_readAt_version.mpr ⟨?_, row, h.versionRow hrow, hentries, rfl⟩
  rw [← howner, hbefore, hafter]
  rfl

/-- The history of a collection is faithful. From its creation on, in any order of changes and of whatever
else happens, the version grows by one with every change that succeeds and by none with one that fails,
the counts are those of the entries in force, every version passed through reads as the collection read
when it was in force, and a restore puts its version back with every earlier version as it was. -/
theorem history_faithful (digest : List UInt8 → List UInt8) (hash : HashOrder Delta)
    {collectionId owner : Uuid} {title systemId : String} {start db : Database} {collection : Compendium}
    (hsound : start.Sound)
    (hcreate : (createCollection collectionId owner title systemId).exec start = .ok (collection, db))
    (events : List Event) (hallowed : Run.Meets (Event.apply digest hash collectionId)
      (fun s event => event.Allowed collectionId s) db events) :
    let history := Run.run (Event.apply digest hash collectionId) db
    let final := history events
    db.baseVersion collectionId = 1 ∧
    (∀ change : Change, let landed := change.landed digest hash collectionId final
      let next := history (events ++ [.change change])
      next.baseVersion collectionId = final.baseVersion collectionId + (if landed.isSome then 1 else 0) ∧
      (landed = none → next = final)) ∧
    (∃ row, final.compendiums[collectionId]? = some row ∧ ∀ kind, row.entryCounts[kind]? =
      if final.countOfKind collectionId kind = 0 then none
      else some (final.countOfKind collectionId kind)) ∧
    (∀ before after, events = before ++ after →
      (history before).baseVersion collectionId < final.baseVersion collectionId →
      ∃ past now, (readAt owner collectionId (.version ((history before).baseVersion collectionId))).exec
          final = .ok (past, final) ∧
        (readAt owner collectionId .current).exec (history before) = .ok (now, history before) ∧
        past.Perm now ∧ past.Pairwise (fun a b => a.identity ≤ b.identity) ∧
        now.Pairwise fun a b => a.identity ≤ b.identity) ∧
    (∀ versionId mint caller version next,
      (Change.restore versionId mint caller version).landed digest hash collectionId final = some next →
      (∃ past now, (readAt owner collectionId (.version version)).exec final = .ok (past, final) ∧
        (readAt owner collectionId .current).exec next = .ok (now, next) ∧ now.Perm past) ∧
      ∀ earlier entries, (readAt owner collectionId (.version earlier)).exec final = .ok (entries, final) →
        (readAt owner collectionId (.version earlier)).exec next = .ok (entries, next)) := by
  intro history final
  obtain ⟨hstart, hone⟩ := wellKept_createCollection hsound hcreate
  have hfinal : WellKept collectionId owner final := wellKept_run hstart hallowed
  refine ⟨hone, fun change => ?_, ?_, fun before after hevents hlt => ?_,
    fun versionId mint caller version next hlanded => ?_⟩
  · have hnext : history (events ++ [.change change]) =
        (change.landed digest hash collectionId final).getD final := Run.run_concat _ _ _ _
    cases hrequest : change.landed digest hash collectionId final with
    | none => simp [hnext, hrequest]
    | some next => simp [hnext, hrequest, (advanced_of_landed hrequest).baseVersion]
  · obtain ⟨row, hrow, -, hcounts⟩ := hfinal.row
    exact ⟨row, hrow, fun kind => hcounts ▸ getElem?_countsByKind kind⟩
  · subst hevents
    obtain ⟨hbefore, hafter⟩ := Run.Meets.append.mp hallowed
    have hthen : WellKept collectionId owner (history before) := wellKept_run hstart hbefore
    have hremembers := remembers_run hthen (.inl ⟨rfl, rfl⟩) hafter
    rw [← Run.run_append] at hremembers
    obtain ⟨now, hnow, hnowPerm, hnowSorted⟩ := exists_readAt_current hthen
    rcases hremembers with ⟨hsame, -⟩ | ⟨-, hrow⟩
    · exact absurd hsame hlt.ne'
    · obtain ⟨row, hrow, hentries⟩ := Option.map_eq_some_iff.mp hrow
      obtain ⟨past, hpast, hpastPerm, hpastSorted⟩ := exists_readAt_version hfinal hrow
      exact ⟨past, now, hpast, hnow, hpastPerm.trans (hentries ▸ hnowPerm.symm), hpastSorted, hnowSorted⟩
  · obtain ⟨_, hrestore⟩ := Transaction.landed_eq_some.mp hlanded
    obtain ⟨hadvanced, row, hrow, hentries⟩ := advanced_restore hrestore
    obtain ⟨past, hpast, hpastPerm, -⟩ := exists_readAt_version hfinal hrow
    obtain ⟨now, hnow, hnowPerm, -⟩ := exists_readAt_current (hfinal.advanced hadvanced)
    exact ⟨⟨past, now, hpast, hnow, hnowPerm.trans (hentries.trans hpastPerm.symm)⟩,
      fun earlier entries hread => hadvanced.readAt_version hread⟩

/-! ### A collection written, emptied and put back -/

def emptyShelf : Database := ⟨∅, [], [], [], ∅⟩

def bestiaryRow : Compendium :=
  { ownerUserId := 1, bookTitle := "Bestiary", systemId := "system", origin := .authored, updatedBy := 1 }

def bestiary : Database := { emptyShelf with compendiums := (∅ : ExtTreeMap Uuid Compendium).insert 9 bestiaryRow }

def bestiaryEvents : List Event :=
  [.change (.writeEntry 20 30 1 "creature" " Goblin " (.prose "small")),
    .change (.writeEntry 21 31 1 "creature" "Goblin" (.prose "twice")),
    .change (.removeEntry 22 1 30),
    .change (.restore 23 (fun i => 40 + BitVec.ofNat 128 i) 1 2)]

theorem history_faithful_bestiary :
    let history := Run.run (Event.apply id (.sorted _) 9) bestiary
    (history bestiaryEvents).baseVersion 9 = 4 ∧
    ∃ past now, (readAt 1 9 (.version ((history (bestiaryEvents.take 2)).baseVersion 9))).exec
        (history bestiaryEvents) = .ok (past, history bestiaryEvents) ∧
      (readAt 1 9 .current).exec (history (bestiaryEvents.take 2)) =
        .ok (now, history (bestiaryEvents.take 2)) ∧ past.Perm now := by
  refine ⟨by decide, ?_⟩
  have hsound : emptyShelf.Sound := ⟨.nil, nofun, nofun, .nil, fun _ _ => .nil⟩
  have hcreate : (createCollection 9 1 "Bestiary" "system").exec emptyShelf = .ok (bestiaryRow, bestiary) := rfl
  obtain ⟨past, now, hpast, hnow, hperm, -⟩ := (history_faithful id (.sorted _) hsound hcreate
    bestiaryEvents ⟨trivial, trivial, trivial, trivial, trivial⟩).2.2.2.1
    (bestiaryEvents.take 2) (bestiaryEvents.drop 2) rfl (by decide)
  exact ⟨past, now, hpast, hnow, hperm⟩

end History

end ThunderForge.Library
