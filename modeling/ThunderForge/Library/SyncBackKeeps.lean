import ThunderForge.Library.Locality
import ThunderForge.Library.SyncBack

/-! A sync back changes nothing for the table that synced: the world reads from the new base, with fewer
deltas, what it read before, and other worlds read as before under every name the plan does not have. -/

namespace ThunderForge.Library

/-- What an entry says. -/
def WorldEntry.content (read : WorldEntry) : Identity × FieldValues × Option String :=
  (read.identity, read.fieldValues, read.proseText)

section Plan

variable {base : List StoredEntry} {deltas : List Delta} {hash : HashOrder Delta}

/-- The changes of a plan, from the deltas they come from. -/
inductive Planned (base : List StoredEntry) (deltas : List Delta) : ShelfChange → Prop
  | rewritten (entry : StoredEntry) (delta : Delta) (hentry : entry ∈ base)
      (honce : identityCount base entry.identity = 1) (hdelta : delta ∈ deltas)
      (hsame : delta.identity = entry.identity) (hform : delta.form = .changed) :
      Planned base deltas (.rewritten entry.kind entry.name ⟨entry.fieldValues, entry.proseText⟩
        ⟨overlay entry.fieldValues delta.fieldValues, delta.proseText.or entry.proseText⟩)
  | takenOut (entry : StoredEntry) (delta : Delta) (hentry : entry ∈ base)
      (honce : identityCount base entry.identity = 1) (hdelta : delta ∈ deltas)
      (hsame : delta.identity = entry.identity) (hform : delta.form = .hidden) :
      Planned base deltas (.takenOut entry.kind entry.name ⟨entry.fieldValues, entry.proseText⟩)
  | added (delta : Delta) (hdelta : delta ∈ deltas) (habsent : identityCount base delta.identity = 0)
      (hform : delta.form = .added) :
      Planned base deltas (.added delta.kind delta.name
        ⟨delta.fieldValues.getD (.object ∅), delta.proseText⟩)

/-- The changes that laying these deltas over this base makes. -/
def changesOf (hash : HashOrder Delta) (base : List StoredEntry) (deltas : List Delta) : List ShelfChange :=
  (resolve hash .authored base deltas true).entries.filterMap (changeOf base)

theorem mem_changesOf (hdeltas : (deltas.map Delta.identity).Nodup) {change : ShelfChange} :
    change ∈ changesOf hash base deltas ↔ Planned base deltas change := by
  rw [changesOf, List.mem_filterMap]
  constructor
  · rintro ⟨read, hread, hchange⟩
    rcases (mem_entries hash hdeltas read).mp hread with ⟨entry, hentry, hreadOf⟩ | ⟨delta, hmem, hplace, rfl⟩
    · have hreading := reading .authored true hdeltas hentry
      rw [hreadOf] at hreading
      cases hreading with
      | twin | untouched | shadowing => cases hchange
      | changed honce delta hmem hsame hform =>
          obtain rfl := Option.some.inj hchange
          exact .rewritten entry delta hentry honce hmem hsame hform
      | hidden honce delta hmem hsame hform =>
          obtain rfl := Option.some.inj hchange
          exact .takenOut entry delta hentry honce hmem hsame hform
    · obtain rfl := Option.some.inj hchange
      have habsent : identityCount base delta.identity = 0 := by
        by_contra hpresent
        exact (placeOf_present hpresent).1 hplace
      refine .added delta hmem habsent ?_
      rw [placeOf_absent habsent] at hplace
      by_contra hform
      rw [if_neg hform] at hplace
      cases hplace
  · have hreadOf {entry : StoredEntry} {delta : Delta} (honce : identityCount base entry.identity = 1)
        (hdelta : delta ∈ deltas) (hsame : delta.identity = entry.identity) :
        deltaOver deltas entry.identity = some delta ∧ ¬identityCount base entry.identity > 1 :=
      ⟨(deltaOver_eq_some hdeltas).mpr ⟨hdelta, hsame⟩, by omega⟩
    rintro (⟨entry, delta, hentry, honce, hdelta, hsame, hform⟩ |
      ⟨entry, delta, hentry, honce, hdelta, hsame, hform⟩ | ⟨delta, hdelta, habsent, hform⟩)
    · obtain ⟨hover, htwice⟩ := hreadOf honce hdelta hsame
      refine ⟨(entry.asRead .authored false).change .authored delta,
        (mem_entries hash hdeltas _).mpr (.inl ⟨entry, hentry, ?_⟩), rfl⟩
      simp [readOf, htwice, hover, hform]
    · obtain ⟨hover, htwice⟩ := hreadOf honce hdelta hsame
      refine ⟨(entry.asRead .authored false).hide .authored delta,
        (mem_entries hash hdeltas _).mpr (.inl ⟨entry, hentry, ?_⟩), rfl⟩
      simp [readOf, htwice, hover, hform]
    · refine ⟨_, (mem_entries hash hdeltas _).mpr (.inr ⟨delta, hdelta, ?_, rfl⟩), rfl⟩
      rw [placeOf_absent habsent, if_pos hform]

theorem identity_of_changeOf {read : WorldEntry} {change : ShelfChange}
    (h : changeOf base read = some change) : change.identity = read.identity := by
  unfold changeOf at h
  split at h
  · cases h
  · obtain ⟨_, -, rfl⟩ := Option.map_eq_some_iff.mp h
    rfl
  · obtain rfl := Option.some.inj h
    rfl
  · obtain rfl := Option.some.inj h
    rfl

theorem Planned.count_le_one {change : ShelfChange} (h : Planned base deltas change) :
    identityCount base change.identity ≤ 1 := by
  cases h with
  | rewritten entry delta hentry honce => exact honce.le
  | takenOut entry delta hentry honce => exact honce.le
  | added delta hdelta habsent => exact habsent.le.trans (Nat.zero_le 1)

theorem Planned.exists_delta {change : ShelfChange} (h : Planned base deltas change) :
    ∃ delta ∈ deltas, delta.identity = change.identity := by
  cases h with
  | rewritten entry delta hentry honce hdelta hsame => exact ⟨delta, hdelta, hsame⟩
  | takenOut entry delta hentry honce hdelta hsame => exact ⟨delta, hdelta, hsame⟩
  | added delta hdelta => exact ⟨delta, hdelta, rfl⟩

/-- No two changes of a plan are to one name. -/
theorem nodup_changesOf (hash : HashOrder Delta) (hbase : (base.map StoredEntry.id).Nodup)
    (hdeltas : (deltas.map Delta.identity).Nodup) :
    ((changesOf hash base deltas).map ShelfChange.identity).Nodup := by
  have hordered := (resolve_ordered hash .authored true hbase hdeltas).1
  have hpairs : (changesOf hash base deltas).Pairwise fun a b => a.identity ≠ b.identity := by
    refine List.pairwise_filterMap.mpr (hordered.imp_of_mem fun {left right} hleft hright hlt => ?_)
    intro change hchange other hother hsame
    have hplanned : Planned base deltas other :=
      (mem_changesOf hdeltas).mp (List.mem_filterMap.mpr ⟨right, hright, hother⟩)
    rw [identity_of_changeOf hchange, identity_of_changeOf hother] at hsame
    have hcount := identity_of_changeOf hother ▸ hplanned.count_le_one
    obtain rfl := eq_of_count_le_one hbase hdeltas hleft hright hsame hcount
    exact lt_irrefl _ hlt
  exact List.pairwise_map.mpr hpairs

/-- A delta that the plan does not leave in the world is one of its changes. -/
theorem mem_changesOf_or_unattached (hdeltas : (deltas.map Delta.identity).Nodup) {delta : Delta}
    (hmem : delta ∈ deltas) :
    delta.identity ∈ (changesOf hash base deltas).map ShelfChange.identity ↔
      ∀ why, placeOf base true delta ≠ .unattached why := by
  constructor
  · rintro hnamed why hplace
    obtain ⟨change, hchange, hidentity⟩ := List.mem_map.mp hnamed
    cases (mem_changesOf hdeltas).mp hchange with
    | rewritten entry other hentry honce hother hsame hform =>
        obtain rfl := List.inj_on_of_nodup_map hdeltas hother hmem (hsame.trans hidentity)
        simp [placeOf, hsame, honce, hform] at hplace
    | takenOut entry other hentry honce hother hsame hform =>
        obtain rfl := List.inj_on_of_nodup_map hdeltas hother hmem (hsame.trans hidentity)
        simp [placeOf, hsame, honce, hform] at hplace
    | added other hother habsent hform =>
        obtain rfl := List.inj_on_of_nodup_map hdeltas hother hmem hidentity
        simp [placeOf, habsent, hform] at hplace
  · intro hattached
    have hnamed {change : ShelfChange} (hplanned : Planned base deltas change)
        (hidentity : change.identity = delta.identity) :
        delta.identity ∈ (changesOf hash base deltas).map ShelfChange.identity :=
      List.mem_map.mpr ⟨change, (mem_changesOf hdeltas).mpr hplanned, hidentity⟩
    by_cases habsent : identityCount base delta.identity = 0
    · rw [placeOf_absent habsent] at hattached
      have hform : delta.form = .added := by
        by_contra hform
        exact hattached _ (if_neg hform)
      exact hnamed (.added delta hmem habsent hform) rfl
    · have honce : identityCount base delta.identity = 1 := by
        by_contra htwice
        obtain ⟨extra, hextra⟩ : ∃ extra, identityCount base delta.identity = extra + 2 :=
          ⟨identityCount base delta.identity - 2, by omega⟩
        exact hattached (.ambiguous (extra + 2)) (by simp [placeOf, hextra])
      obtain ⟨entry, hentry, hsame⟩ := exists_entry_of_once honce
      rw [← hsame] at honce
      cases hform : delta.form with
      | changed => exact hnamed (.rewritten entry delta hentry honce hmem hsame.symm hform) hsame
      | hidden => exact hnamed (.takenOut entry delta hentry honce hmem hsame.symm hform) hsame
      | added => exact absurd (by simp [placeOf, ← hsame, honce, hform]) (hattached .shadowsTheBook)

/-! ### One name, before and after -/

variable {base' : List StoredEntry} {deltas' : List Delta} {hash' : HashOrder Delta}
  {bookOrigin : ContentOrigin} {showHidden : Bool}

theorem identityCount_of_rows {identity : Identity} {rows : List StoredEntry}
    (hrows : (base.filter fun entry => entry.identity = identity).Perm rows) :
    identityCount base identity = rows.length := by
  rw [identityCount, List.countP_eq_length_filter, hrows.length_eq]

theorem mem_of_rows {identity : Identity} {rows : List StoredEntry}
    (hrows : (base.filter fun entry => entry.identity = identity).Perm rows) {entry : StoredEntry}
    (hmem : entry ∈ rows) : entry ∈ base ∧ entry.identity = identity := by
  simpa using hrows.mem_iff.mpr hmem

theorem rows_eq_singleton {entry : StoredEntry} {rows : List StoredEntry} (hentry : entry ∈ base)
    (honce : identityCount base entry.identity = 1)
    (hrows : (base.filter fun other => other.identity = entry.identity).Perm rows) : rows = [entry] := by
  rw [identityCount_of_rows hrows, List.length_eq_one_iff] at honce
  obtain ⟨only, rfl⟩ := honce
  have hmem := hrows.mem_iff.mp (List.mem_filter.mpr ⟨hentry, by simp⟩)
  rw [List.mem_singleton.mp hmem]

theorem readOf_once (hdeltas : (deltas.map Delta.identity).Nodup) {entry : StoredEntry} {delta : Delta}
    (honce : identityCount base entry.identity = 1) (hmem : delta ∈ deltas)
    (hsame : delta.identity = entry.identity) :
    readOf bookOrigin base deltas showHidden entry = match delta.form with
      | .changed => some ((entry.asRead bookOrigin false).change bookOrigin delta)
      | .hidden => if showHidden then some ((entry.asRead bookOrigin false).hide bookOrigin delta) else none
      | .added => some (entry.asRead bookOrigin false) := by
  have hover := (deltaOver_eq_some hdeltas).mpr ⟨hmem, hsame⟩
  cases hform : delta.form <;> simp [readOf, honce, hover, hform]

theorem deltaOver_eq_none {identity : Identity} (h : ∀ delta ∈ deltas, delta.identity ≠ identity) :
    deltaOver deltas identity = none :=
  List.find?_eq_none.mpr fun delta hmem => by simpa using h delta hmem

theorem readOf_untouched {entry : StoredEntry} (honce : identityCount base entry.identity = 1)
    (h : ∀ delta ∈ deltas, delta.identity ≠ entry.identity) :
    readOf bookOrigin base deltas showHidden entry = some (entry.asRead bookOrigin false) := by
  simp [readOf, honce, deltaOver_eq_none h]

/-- A single entry with no delta over its name is read as the book has it. -/
theorem filter_entries_untouched (hash : HashOrder Delta) (bookOrigin : ContentOrigin)
    (showHidden : Bool) (hbase : (base.map StoredEntry.id).Nodup)
    (hdeltas : (deltas.map Delta.identity).Nodup) {identity : Identity} {entry : StoredEntry}
    (hrows : (base.filter fun other => other.identity = identity).Perm [entry])
    (hgone : ∀ delta ∈ deltas, delta.identity ≠ identity) :
    (resolve hash bookOrigin base deltas showHidden).entries.filter (fun read => read.identity = identity) =
      [entry.asRead bookOrigin false] := by
  have honce := identityCount_of_rows hrows
  obtain ⟨hentry, rfl⟩ := mem_of_rows hrows (List.mem_singleton_self _)
  rw [filter_entries_once hash bookOrigin showHidden hbase hdeltas hentry honce, readOf_untouched honce hgone]
  rfl

/-- Under the name of a change that landed, with its delta gone, the world reads what it read. -/
theorem content_of_landing {change : ShelfChange} {compendiumId : Uuid} {rows rows' : List StoredEntry}
    (hash hash' : HashOrder Delta) (hbase : (base.map StoredEntry.id).Nodup)
    (hbase' : (base'.map StoredEntry.id).Nodup) (hdeltas : (deltas.map Delta.identity).Nodup)
    (hdeltas' : (deltas'.map Delta.identity).Nodup) (hplanned : Planned base deltas change)
    (hrows : (base.filter fun entry => entry.identity = change.identity).Perm rows)
    (hrows' : (base'.filter fun entry => entry.identity = change.identity).Perm rows')
    (hlanding : Landing compendiumId rows rows' change)
    (hgone : ∀ delta ∈ deltas', delta.identity ≠ change.identity) :
    ((resolve hash' bookOrigin base' deltas' false).entries.filter fun read =>
        read.identity = change.identity).map WorldEntry.content =
      ((resolve hash bookOrigin base deltas false).entries.filter fun read =>
        read.identity = change.identity).map WorldEntry.content := by
  cases hplanned with
  | rewritten entry delta hentry honce hdelta hsame hform =>
      obtain rfl := rows_eq_singleton hentry honce hrows
      obtain ⟨found, hfound, rfl⟩ := hlanding
      obtain rfl := List.mem_singleton.mp hfound
      rw [List.map_singleton, if_pos rfl] at hrows'
      have hbefore := filter_entries_once hash bookOrigin false hbase hdeltas
        hentry honce
      have hafter := filter_entries_untouched hash' bookOrigin false hbase'
        hdeltas' hrows' hgone
      rw [readOf_once hdeltas honce hdelta hsame, hform] at hbefore
      exact (congrArg (List.map WorldEntry.content) hafter).trans
        (congrArg (List.map WorldEntry.content) hbefore).symm
  | takenOut entry delta hentry honce hdelta hsame hform =>
      obtain rfl := rows_eq_singleton hentry honce hrows
      obtain ⟨found, hfound, rfl⟩ := hlanding
      obtain rfl := List.mem_singleton.mp hfound
      have habsent' := (identityCount_of_rows hrows').trans (by simp : List.length _ = 0)
      have hbefore := filter_entries_once hash bookOrigin false hbase hdeltas
        hentry honce
      have hafter := filter_entries_absent hash' bookOrigin false hbase'
        hdeltas' habsent'
      rw [readOf_once hdeltas honce hdelta hsame, hform] at hbefore
      rw [deltaOver_eq_none hgone] at hafter
      exact (congrArg (List.map WorldEntry.content) hafter).trans
        (congrArg (List.map WorldEntry.content) hbefore).symm
  | added delta hdelta habsent hform =>
      have hempty : rows = [] := List.length_eq_zero_iff.mp ((identityCount_of_rows hrows).symm.trans habsent)
      obtain ⟨entryId, rfl⟩ := hlanding
      rw [hempty, List.nil_append] at hrows'
      have hbefore := filter_entries_absent hash bookOrigin false hbase
        hdeltas habsent
      have hafter := filter_entries_untouched hash' bookOrigin false hbase'
        hdeltas' hrows' hgone
      rw [(deltaOver_eq_some hdeltas).mpr ⟨hdelta, rfl⟩, Option.filter_some,
        if_pos (by simpa using hform)] at hbefore
      exact (congrArg (List.map WorldEntry.content) hafter).trans
        (congrArg (List.map WorldEntry.content) hbefore).symm

end Plan

/-! ### The whole shelf, before and after -/

section Synced

variable {digest : List UInt8 → List UInt8} {hash : HashOrder Delta} {db db' : Database}
  {worldId compendiumId : Uuid}

/-- What a sync back of these changes leaves. -/
structure Synced (worldId compendiumId : Uuid) (changes : List ShelfChange) (db db' : Database) : Prop where
  ids : (db'.entries.map StoredEntry.id).Nodup
  landed : ∀ change ∈ changes, Landing compendiumId (db.entriesAt compendiumId change.identity)
    (db'.entriesAt compendiumId change.identity) change
  untouched : ∀ identity, identity ∉ changes.map ShelfChange.identity →
    db'.entriesAt compendiumId identity = db.entriesAt compendiumId identity
  deltas : db'.deltas = db.deltas.filter fun delta => ¬(delta.worldId = worldId ∧
    delta.compendiumId = some compendiumId ∧ delta.identity ∈ changes.map ShelfChange.identity)
  worlds : db'.worlds = db.worlds
  collection : ∃ before after, db.compendiums[compendiumId]? = some before ∧ before.origin = .authored ∧
    db'.compendiums[compendiumId]? = some after ∧ after.origin = .authored

theorem nodup_deltasOver (hsound : db.Sound) (worldId compendiumId : Uuid) :
    ((db.deltasOver worldId compendiumId).map Delta.identity).Nodup :=
  ((SortBy.sortBy_perm _ _).map _).nodup_iff.mpr (hsound.deltaIdentities worldId compendiumId)

theorem nodup_baseEntries (hids : (db.entries.map StoredEntry.id).Nodup) (compendiumId : Uuid) :
    ((db.baseEntries compendiumId).map StoredEntry.id).Nodup :=
  ((SortBy.sortBy_perm _ _).map _).nodup_iff.mpr (hids.sublist (List.filter_sublist.map _))

theorem baseEntries_rows (db : Database) (compendiumId : Uuid) (identity : Identity) :
    ((db.baseEntries compendiumId).filter fun entry => entry.identity = identity).Perm
      (db.entriesAt compendiumId identity) :=
  (SortBy.sortBy_perm _ _).filter _

/-- The plan that a sync back carries out. -/
theorem synced_of_exec {caller versionId : Uuid} {mint : Nat → Uuid} {stamp : String}
    {outcome : SyncOutcome} (hsound : db.Sound)
    (h : (syncBack digest hash versionId mint caller worldId compendiumId stamp).exec db =
      .ok (outcome, db')) :
    Synced worldId compendiumId
      (changesOf hash (db.baseEntries compendiumId) (db.deltasOver worldId compendiumId)) db db' := by
  obtain ⟨before, updatedBy, hbefore, hafter⟩ := (advanced_syncBack h).row
  obtain ⟨-, hplan, -, -, db₁, db₂, db₃, u₁, u₂, u₃, u₄, hrecord, hland, hrelease, hnext⟩ := exec_syncBack h
  obtain ⟨collection, world, -, -, hresult, -⟩ := exec_plan.mp hplan
  have hchanges : outcome.plan.changes =
      changesOf hash (db.baseEntries compendiumId) (db.deltasOver worldId compendiumId) := by
    rw [hresult]
    rfl
  rw [hchanges] at hland hrelease
  obtain ⟨row, version, hrow, hauthored, -, -, -, rfl⟩ := exec_record hrecord
  obtain rfl : before = row := Option.some.inj (hbefore.symm.trans hrow)
  have hlanded : Landed compendiumId { db with versions := db.versions ++ [version] } _ db₂ :=
    landed_of_exec ⟨⟨rfl, rfl, rfl, rfl⟩, hsound.entryIds, nofun, fun _ _ _ => rfl⟩
      (nodup_changesOf hash (nodup_baseEntries hsound.entryIds compendiumId)
        (nodup_deltasOver hsound worldId compendiumId)) hland
  obtain ⟨-, -, hdeltas, hworlds⟩ := hlanded.elsewhere
  obtain rfl := exec_releases hrelease
  obtain rfl := exec_nextVersion hnext
  refine ⟨hlanded.ids, hlanded.touched, fun identity hidentity => ?_, ?_, hworlds,
    before, _, hbefore, hauthored, hafter, hauthored⟩
  · exact hlanded.untouched compendiumId identity fun _ => hidentity
  · dsimp only
    rw [hdeltas]

theorem exec_requireServed_congr {u : Unit} (hworlds : db'.worlds = db.worlds)
    (h : (requireServed worldId compendiumId).exec db = .ok (u, db)) :
    (requireServed worldId compendiumId).exec db' = .ok (u, db') := by
  unfold requireServed at h ⊢
  rw [Transaction.exec_read_bind] at h ⊢
  rw [hworlds]
  cases hlisted : (db.worlds[worldId]?).bind fun world =>
      (world.books.find? fun book => book.1 = compendiumId).map Prod.snd with
  | none => simp [hlisted] at h
  | some matching =>
      simp only [hlisted] at h ⊢
      exact Transaction.exec_require_eq_ok.mpr ⟨(Transaction.exec_require_eq_ok.mp h).1, rfl⟩

theorem exec_worldReads {showHidden : Bool} {result : Resolution} :
    (worldReads hash worldId compendiumId showHidden).exec db = .ok (result, db') ↔
      (∃ u, (requireServed worldId compendiumId).exec db = .ok (u, db)) ∧
      ∃ collection, db.compendiums[compendiumId]? = some collection ∧
        resolve hash collection.origin (db.baseEntries compendiumId) (db.deltasOver worldId compendiumId)
          showHidden = result ∧ db = db' := by
  unfold worldReads
  constructor
  · intro h
    obtain ⟨u, s, hserved, h⟩ := Transaction.exec_bind_eq_ok.mp h
    obtain rfl := readOnly_requireServed _ _ _ hserved
    rw [Transaction.exec_read_bind] at h
    obtain ⟨collection, s₁, hcollection, h⟩ := Transaction.exec_mapError_bind_eq_ok.mp h
    obtain ⟨hrow, rfl⟩ := exec_compendiumRow.mp hcollection
    rw [Transaction.exec_read_bind] at h
    obtain ⟨hresult, hdb⟩ := Prod.mk.inj (Except.ok.inj h)
    exact ⟨⟨u, hserved⟩, collection, hrow, hresult, hdb⟩
  · rintro ⟨⟨u, hserved⟩, collection, hrow, rfl, rfl⟩
    refine Transaction.exec_bind_eq_ok.mpr ⟨u, db, hserved, ?_⟩
    rw [Transaction.exec_read_bind]
    exact Transaction.exec_mapError_bind_eq_ok.mpr
      ⟨collection, db, exec_compendiumRow.mpr ⟨hrow, rfl⟩, rfl⟩

theorem Synced.mem_deltasOver {changes : List ShelfChange} (h : Synced worldId compendiumId changes db db')
    {otherId : Uuid} {delta : Delta} : delta ∈ db'.deltasOver otherId compendiumId ↔
      delta ∈ db.deltasOver otherId compendiumId ∧
        (otherId = worldId → delta.identity ∉ changes.map ShelfChange.identity) := by
  simp only [Database.deltasOver, SortBy.mem_sortBy, List.mem_filter, h.deltas, decide_eq_true_eq]
  constructor
  · rintro ⟨⟨hmem, hkept⟩, rfl, hbook⟩
    exact ⟨⟨hmem, rfl, hbook⟩, fun hworld hnamed => hkept ⟨hworld, hbook, hnamed⟩⟩
  · rintro ⟨⟨hmem, rfl, hbook⟩, hkept⟩
    exact ⟨⟨hmem, fun hgone => hkept hgone.1 hgone.2.2⟩, rfl, hbook⟩

theorem Synced.nodup_deltasOver {changes : List ShelfChange} (hsound : db.Sound)
    (h : Synced worldId compendiumId changes db db') (otherId : Uuid) :
    ((db'.deltasOver otherId compendiumId).map Delta.identity).Nodup := by
  refine ((SortBy.sortBy_perm _ _).map _).nodup_iff.mpr ?_
  rw [h.deltas, List.filter_comm]
  exact (hsound.deltaIdentities otherId compendiumId).sublist (List.filter_sublist.map _)

/-- Under a name the plan does not have, nothing differs for any world. -/
theorem Synced.agreeAt {changes : List ShelfChange} (h : Synced worldId compendiumId changes db db')
    {identity : Identity} (hidentity : identity ∉ changes.map ShelfChange.identity) (otherId : Uuid) :
    AgreeAt identity (db.baseEntries compendiumId) (db'.baseEntries compendiumId)
      (db.deltasOver otherId compendiumId) (db'.deltasOver otherId compendiumId) := by
  have hrows := baseEntries_rows db compendiumId identity
  have hrows' := baseEntries_rows db' compendiumId identity
  rw [h.untouched identity hidentity] at hrows'
  refine ⟨?_, fun entry hentry => ?_, fun delta hdelta => ?_⟩
  · rw [identityCount_of_rows hrows, identityCount_of_rows hrows']
  · have hboth := (hrows'.trans hrows.symm).mem_iff (a := entry)
    simpa [hentry] using hboth
  · rw [h.mem_deltasOver]
    exact ⟨And.left, fun hmem => ⟨hmem, fun _ => hdelta ▸ hidentity⟩⟩

/-- The world that synced reads what it read. -/
theorem Synced.map_content (hash hash' hash'' : HashOrder Delta) (bookOrigin : ContentOrigin)
    (hsound : db.Sound) (h : Synced worldId compendiumId
      (changesOf hash (db.baseEntries compendiumId) (db.deltasOver worldId compendiumId)) db db') :
    (resolve hash'' bookOrigin (db'.baseEntries compendiumId) (db'.deltasOver worldId compendiumId)
        false).entries.map WorldEntry.content =
      (resolve hash' bookOrigin (db.baseEntries compendiumId) (db.deltasOver worldId compendiumId)
        false).entries.map WorldEntry.content := by
  have hbase := nodup_baseEntries hsound.entryIds compendiumId
  have hbase' := nodup_baseEntries h.ids compendiumId
  have hdeltas := Library.nodup_deltasOver hsound worldId compendiumId
  have hdeltas' := h.nodup_deltasOver hsound worldId
  have hordered {entries : List WorldEntry} (hentries : entries.Pairwise fun a b => a.key < b.key) :
      (entries.map WorldEntry.content).Pairwise fun a b => a.1 ≤ b.1 :=
    List.pairwise_map.mpr (hentries.imp fun {a b} hlt =>
      (Prod.Lex.lt_iff.mp hlt).elim (fun hless => hless.le) fun hsame => hsame.1.le)
  refine SortBy.eq_of_filter_eq (hordered (resolve_ordered hash'' bookOrigin false hbase' hdeltas').1)
    (hordered (resolve_ordered hash' bookOrigin false hbase hdeltas).1) fun identity => ?_
  have hfilter (entries : List WorldEntry) : (entries.map WorldEntry.content).filter (fun content =>
      content.1 = identity) = (entries.filter fun read => read.identity = identity).map
        WorldEntry.content := List.filter_map
  rw [hfilter, hfilter]
  by_cases hnamed : identity ∈ (changesOf hash (db.baseEntries compendiumId)
      (db.deltasOver worldId compendiumId)).map ShelfChange.identity
  · obtain ⟨change, hchange, rfl⟩ := List.mem_map.mp hnamed
    refine content_of_landing hash' hash'' hbase hbase' hdeltas hdeltas' ((mem_changesOf hdeltas).mp hchange)
      (baseEntries_rows db compendiumId _) (baseEntries_rows db' compendiumId _) (h.landed change hchange) ?_
    intro delta hdelta hsame
    exact (h.mem_deltasOver.mp hdelta).2 rfl (hsame ▸ hnamed)
  · rw [(h.agreeAt hnamed worldId).filter_entries hash' hash'' hbase hbase' hdeltas hdeltas']

/-- What the world still holds is what the plan left it, for the reasons the plan gave. -/
theorem Synced.unattached (hash hash' : HashOrder Delta) (bookOrigin : ContentOrigin) (showHidden : Bool)
    (hsound : db.Sound) (h : Synced worldId compendiumId
      (changesOf hash (db.baseEntries compendiumId) (db.deltasOver worldId compendiumId)) db db') :
    (resolve hash' bookOrigin (db'.baseEntries compendiumId) (db'.deltasOver worldId compendiumId)
        showHidden).unattached =
      (resolve hash .authored (db.baseEntries compendiumId) (db.deltasOver worldId compendiumId)
        true).unattached := by
  have hbase := nodup_baseEntries hsound.entryIds compendiumId
  have hbase' := nodup_baseEntries h.ids compendiumId
  have hdeltas := Library.nodup_deltasOver hsound worldId compendiumId
  have hdeltas' := h.nodup_deltasOver hsound worldId
  refine SortBy.eq_of_pairwise_lt (resolve_ordered hash' bookOrigin showHidden hbase' hdeltas').2
    (resolve_ordered hash .authored true hbase hdeltas).2 ?_
  rintro ⟨delta, why⟩
  rw [mem_unattached hash' hdeltas', mem_unattached hash hdeltas, h.mem_deltasOver]
  by_cases hnamed : delta.identity ∈ (changesOf hash (db.baseEntries compendiumId)
      (db.deltasOver worldId compendiumId)).map ShelfChange.identity
  · refine iff_of_false (fun hleft => hleft.1.2 rfl hnamed) fun hright => ?_
    exact (mem_changesOf_or_unattached hdeltas hright.1).mp hnamed why hright.2
  · have hplace : placeOf (db'.baseEntries compendiumId) showHidden delta =
        placeOf (db.baseEntries compendiumId) showHidden delta := (h.agreeAt hnamed worldId).placeOf rfl
    rw [hplace, placeOf_unattached_iff showHidden true]
    exact and_congr_left fun _ => ⟨And.left, fun hmem => ⟨hmem, fun _ => hnamed⟩⟩

/-- The world holds nothing else. -/
theorem Synced.deltasOver (hash : HashOrder Delta) (hsound : db.Sound) (h : Synced worldId compendiumId
      (changesOf hash (db.baseEntries compendiumId) (db.deltasOver worldId compendiumId)) db db') :
    db'.deltasOver worldId compendiumId =
      (resolve hash .authored (db.baseEntries compendiumId) (db.deltasOver worldId compendiumId)
        true).unattached.map Prod.fst := by
  have hbase := nodup_baseEntries hsound.entryIds compendiumId
  have hdeltas := Library.nodup_deltasOver hsound worldId compendiumId
  have hsorted := (resolve_ordered hash .authored true hbase hdeltas).2
  have hheld : (db'.deltasOver worldId compendiumId).Pairwise fun a b => a.identity < b.identity := by
    refine SortBy.pairwise_lt_sortBy _ (((SortBy.sortBy_perm Delta.identity _).map _).nodup_iff.mp ?_)
    exact h.nodup_deltasOver hsound worldId
  refine SortBy.eq_of_pairwise_lt hheld (List.pairwise_map.mpr hsorted) fun delta => ?_
  rw [h.mem_deltasOver]
  constructor
  · rintro ⟨hmem, hkept⟩
    have hstays := mt (mem_changesOf_or_unattached hdeltas hmem).mpr (hkept rfl)
    push Not at hstays
    obtain ⟨why, hplace⟩ := hstays
    exact List.mem_map.mpr ⟨(delta, why), (mem_unattached hash hdeltas delta why).mpr ⟨hmem, hplace⟩, rfl⟩
  · intro hstaying
    obtain ⟨⟨other, why⟩, hother, rfl⟩ := List.mem_map.mp hstaying
    obtain ⟨hmem, hplace⟩ := (mem_unattached hash hdeltas other why).mp hother
    exact ⟨hmem, fun _ hnamed => (mem_changesOf_or_unattached hdeltas hmem).mp hnamed why hplace⟩

/-- There is nothing left to sync. -/
theorem Synced.changesOf_eq_nil (hash hash' : HashOrder Delta) (hsound : db.Sound)
    (h : Synced worldId compendiumId
      (changesOf hash (db.baseEntries compendiumId) (db.deltasOver worldId compendiumId)) db db') :
    changesOf hash' (db'.baseEntries compendiumId) (db'.deltasOver worldId compendiumId) = [] := by
  have hdeltas' := h.nodup_deltasOver hsound worldId
  refine List.eq_nil_iff_forall_not_mem.mpr fun change hchange => ?_
  obtain ⟨delta, hmem, hidentity⟩ := ((mem_changesOf hdeltas').mp hchange).exists_delta
  have hnamed : delta.identity ∈ (changesOf hash' (db'.baseEntries compendiumId)
      (db'.deltasOver worldId compendiumId)).map ShelfChange.identity :=
    List.mem_map.mpr ⟨change, hchange, hidentity.symm⟩
  have hstays := hmem
  rw [h.deltasOver hash hsound, ← h.unattached hash hash' .authored true hsound] at hstays
  obtain ⟨⟨other, why⟩, hother, rfl⟩ := List.mem_map.mp hstays
  exact (mem_changesOf_or_unattached hdeltas' hmem).mp hnamed why
    ((mem_unattached hash' hdeltas' other why).mp hother).2

/-- Syncing back changes nothing for the table that synced. With the stamp of the current plan and no one
else writing, the world reads the same kinds, names, fields and prose; its deltas are those the plan left
in it, reported for the same reasons; a further plan has nothing in it; and every world reads as before
under every name the plan does not have. -/
theorem syncBack_keeps_what_is_read (digest : List UInt8 → List UInt8) (hash hash' : HashOrder Delta)
    {db db' : Database} {versionId caller worldId compendiumId : Uuid} {mint : Nat → Uuid}
    {current : SyncPlan} {outcome : SyncOutcome} (hsound : db.Sound)
    (hplan : (plan digest hash worldId compendiumId).exec db = .ok (current, db))
    (hsync : (syncBack digest hash' versionId mint caller worldId compendiumId current.stamp).exec db =
      .ok (outcome, db')) :
    (∃ before after, (worldReads hash worldId compendiumId false).exec db = .ok (before, db) ∧
      (worldReads hash' worldId compendiumId false).exec db' = .ok (after, db') ∧
      after.entries.map WorldEntry.content = before.entries.map WorldEntry.content ∧
      after.unattached = current.staying) ∧
    db'.deltasOver worldId compendiumId = current.staying.map Prod.fst ∧
    (∃ next, (plan digest hash' worldId compendiumId).exec db' = .ok (next, db') ∧ next.changes = [] ∧
      next.staying = current.staying) ∧
    ∀ otherId showHidden before,
      (worldReads hash otherId compendiumId showHidden).exec db = .ok (before, db) →
      ∃ after, (worldReads hash' otherId compendiumId showHidden).exec db' = .ok (after, db') ∧
        ∀ identity, identity ∉ current.changes.map ShelfChange.identity →
          (after.entries.filter fun read => read.identity = identity) =
            before.entries.filter (fun read => read.identity = identity) ∧
          (after.unattached.filter fun left => left.1.identity = identity) =
            before.unattached.filter fun left => left.1.identity = identity := by
  obtain ⟨collection, world, hcollection, hworld, hcurrent, -⟩ := exec_plan.mp hplan
  obtain ⟨⟨u, hserved⟩, -⟩ := exec_syncBack hsync
  have hbase := nodup_baseEntries hsound.entryIds compendiumId
  have hdeltas := Library.nodup_deltasOver hsound worldId compendiumId
  -- The order in which a hash map yields what it holds decides nothing about the plan.
  have hresolve := resolve_perm hash hash' .authored true hbase hdeltas (.refl _) (.refl _)
  have hsynced : Synced worldId compendiumId
      (changesOf hash (db.baseEntries compendiumId) (db.deltasOver worldId compendiumId)) db db' := by
    have hexec := synced_of_exec hsound hsync
    rwa [changesOf, hresolve] at hexec
  have hchanges : current.changes =
      changesOf hash (db.baseEntries compendiumId) (db.deltasOver worldId compendiumId) := by
    rw [hcurrent]
    rfl
  have hstaying : current.staying = (resolve hash .authored (db.baseEntries compendiumId)
      (db.deltasOver worldId compendiumId) true).unattached := by rw [hcurrent]
  obtain ⟨row, row', hrow, horigin, hrow', horigin'⟩ := hsynced.collection
  refine ⟨⟨_, _, exec_worldReads.mpr ⟨⟨u, hserved⟩, row, hrow, rfl, rfl⟩,
    exec_worldReads.mpr ⟨⟨u, exec_requireServed_congr hsynced.worlds hserved⟩, row', hrow', rfl, rfl⟩,
    ?_, ?_⟩, ?_, ?_, ?_⟩
  · rw [horigin, horigin']
    exact hsynced.map_content hash hash hash' .authored hsound
  · rw [hstaying]
    exact hsynced.unattached hash hash' row'.origin false hsound
  · rw [hstaying]
    exact hsynced.deltasOver hash hsound
  · refine ⟨_, exec_plan.mpr ⟨row', world, hrow', hsynced.worlds ▸ hworld, rfl, rfl⟩, ?_, ?_⟩
    · exact hsynced.changesOf_eq_nil hash hash' hsound
    · rw [hstaying]
      exact hsynced.unattached hash hash' .authored true hsound
  · intro otherId showHidden before hread
    obtain ⟨⟨v, hlisted⟩, found, hfound, rfl, -⟩ := exec_worldReads.mp hread
    obtain rfl : row = found := Option.some.inj (hrow.symm.trans hfound)
    refine ⟨_, exec_worldReads.mpr
      ⟨⟨v, exec_requireServed_congr hsynced.worlds hlisted⟩, row', hrow', rfl, rfl⟩, fun identity hidentity => ?_⟩
    have hbase' := nodup_baseEntries hsynced.ids compendiumId
    have hheld := Library.nodup_deltasOver hsound otherId compendiumId
    have hheld' := hsynced.nodup_deltasOver hsound otherId
    have hagree := hsynced.agreeAt (hchanges ▸ hidentity) otherId
    rw [horigin, horigin']
    exact ⟨hagree.filter_entries hash hash' hbase hbase' hheld hheld',
      hagree.filter_unattached hash hash' hbase hbase' hheld hheld'⟩

def mireRow : Compendium :=
  { ownerUserId := 1, bookTitle := "Mire", systemId := "system", origin := .authored, updatedBy := 1 }

def fens : World :=
  { name := "Fens", createdBy := 1, bookManagers := [1], paused := false, books := [(9, true)] }

/-- A collection with one changed entry, one hidden, one added and one change that dangles. -/
def mire : Database where
  compendiums := (∅ : Std.ExtTreeMap Uuid Compendium).insert 9 mireRow
  entries :=
    [{ id := 30, compendiumId := 9, kind := "creature", name := "Mire Hag", fieldValues := .object ∅
       proseText := some "old" },
      { id := 31, compendiumId := 9, kind := "creature", name := "Bog Eel", fieldValues := .object ∅
        proseText := none }]
  versions := []
  deltas :=
    [{ id := 1, worldId := 7, compendiumId := some 9, kind := "creature", name := "Mire Hag"
       form := .changed, origin := .authored, fieldValues := none, proseText := some "older"
       changedBy := none, updatedAt := 0 },
      { id := 2, worldId := 7, compendiumId := some 9, kind := "creature", name := "Bog Eel", form := .hidden
        origin := .authored, fieldValues := none, proseText := none, changedBy := none, updatedAt := 0 },
      { id := 3, worldId := 7, compendiumId := some 9, kind := "creature", name := "Wisp", form := .added
        origin := .authored, fieldValues := some (.object ∅), proseText := some "pale", changedBy := none
        updatedAt := 0 },
      { id := 4, worldId := 7, compendiumId := some 9, kind := "creature", name := "Gone", form := .hidden
        origin := .authored, fieldValues := none, proseText := none, changedBy := none, updatedAt := 0 }]
  worlds := (∅ : Std.ExtTreeMap Uuid World).insert 7 fens

theorem syncBack_keeps_what_is_read_mire : ∃ outcome db' before after,
    (syncBack id (.sorted _) 20 (fun i => 40 + BitVec.ofNat 128 i) 1 7 9
      (stampOf id mireRow.baseVersion (mire.deltasOver 7 9))).exec mire = .ok (outcome, db') ∧
    (worldReads (.sorted _) 7 9 false).exec mire = .ok (before, mire) ∧
    (worldReads (.sorted _) 7 9 false).exec db' = .ok (after, db') ∧
    after.entries.map WorldEntry.content = before.entries.map WorldEntry.content := by
  have hsound : mire.Sound := ⟨by decide, by decide, nofun, by decide, fun _ _ =>
    (by decide : (mire.deltas.map Delta.identity).Nodup).sublist (List.filter_sublist.map _)⟩
  have hplan : (plan id (.sorted _) 7 9).exec mire = .ok (_, mire) :=
    exec_plan.mpr ⟨mireRow, fens, rfl, rfl, rfl, rfl⟩
  have hlands : ((syncBack id (.sorted _) 20 (fun i => 40 + BitVec.ofNat 128 i) 1 7 9
      (stampOf id mireRow.baseVersion (mire.deltasOver 7 9))).landed mire).isSome := by decide +kernel
  obtain ⟨db', hlanded⟩ := Option.isSome_iff_exists.mp hlands
  obtain ⟨outcome, hsync⟩ := Transaction.landed_eq_some.mp hlanded
  obtain ⟨⟨before, after, hbefore, hafter, hsame, -⟩, -⟩ :=
    syncBack_keeps_what_is_read id (.sorted _) (.sorted _) hsound hplan hsync
  exact ⟨outcome, db', before, after, hsync, hbefore, hafter, hsame⟩

end Synced

end ThunderForge.Library
