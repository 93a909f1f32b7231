import ThunderForge.Mirror.Incoming

/-! What a repository proposes for one entry. An author can copy the identifier a file is matched by; the entry then
has a proposal for every file that carries it with a text of its own, and of these only the last is kept to be decided. -/

namespace ThunderForge.Mirror

/-! One file. -/

section detect

variable (readers : Readers) (exported : List ExportedEntry) (withheld : List Uuid)

/-- The identifier that a readable file carries, and its body with the links restored. -/
def restored (file : RepositoryFile) : Option (Uuid × Text) :=
  match parse readers file.contents with
  | .ok parsed => some (parsed.header.id, restoreAuthoredLinks parsed.body file.path exported)
  | .error _ => none

/-- Whether a readable file carries an entry's identifier with a text that is neither the exported one nor the current
one. -/
def proposes (entry : ExportedEntry) (file : RepositoryFile) : Bool :=
  match restored readers exported file with
  | some (id, incoming) =>
    id = entry.loreEntryId ∧ incoming ≠ entry.exportedBody ∧ incoming ≠ entry.currentBody
  | none => false

/-- What one file proposes. -/
def changeOf (file : RepositoryFile) : Option DetectedChange :=
  match parse readers file.contents with
  | .error _ => some (.newEntry file.path (titleFromFilename file.path) file.contents)
  | .ok parsed =>
    if parsed.header.id ∈ withheld then none
    else
      let incoming := restoreAuthoredLinks parsed.body file.path exported
      match entryById exported parsed.header.id with
      | none =>
        let title := trimChars parsed.header.title
        some (.newEntry file.path (if title = [] then titleFromFilename file.path else title) incoming)
      | some entry =>
        if incoming = entry.exportedBody ∨ incoming = entry.currentBody then none
        else
          some (.update entry.loreEntryId file.path incoming entry.exportedRevisionId entry.currentRevisionId
            (entry.currentRevisionId ≠ entry.exportedRevisionId))

/-- The entry a file is matched to. -/
def matchOf (file : RepositoryFile) : Option Uuid :=
  match restored readers exported file with
  | some (id, _) => if id ∈ withheld then none else (entryById exported id).map (·.loreEntryId)
  | none => none

theorem detectFile_eq (found : Detection) (file : RepositoryFile) :
    detectFile readers exported withheld found file =
      { accountedFor := (matchOf readers exported withheld file).toList ++ found.accountedFor
        changes := found.changes ++ (changeOf readers exported withheld file).toList } := by
  unfold detectFile changeOf matchOf restored
  cases parse readers file.contents with
  | error _ => rfl
  | ok parsed =>
    simp only
    split
    · simp
    · cases entryById exported parsed.header.id with
      | none => rfl
      | some entry =>
        simp only
        split <;> simp

theorem foldl_detectFile (files : List RepositoryFile) (found : Detection) :
    let last := files.foldl (detectFile readers exported withheld) found
    (∀ id, id ∈ last.accountedFor ↔
      id ∈ found.accountedFor ∨ ∃ file ∈ files, matchOf readers exported withheld file = some id) ∧
    last.changes = found.changes ++ files.filterMap (changeOf readers exported withheld) := by
  induction files generalizing found with
  | nil => simp
  | cons file files ih =>
    obtain ⟨haccounted, hchanges⟩ := ih (detectFile readers exported withheld found file)
    rw [detectFile_eq] at haccounted hchanges
    refine ⟨fun id => ?_, ?_⟩
    · rw [List.foldl_cons, detectFile_eq, haccounted]
      simp only [List.mem_append, Option.mem_toList, List.mem_cons, exists_eq_or_imp]
      tauto
    · rw [List.foldl_cons, detectFile_eq, hchanges, List.filterMap_cons]
      cases changeOf readers exported withheld file <;> simp

variable {readers exported withheld}

theorem entryById_eq_some {id : Uuid} {entry : ExportedEntry} (h : entryById exported id = some entry) :
    entry ∈ exported ∧ entry.loreEntryId = id := by
  unfold entryById at h
  have hid := List.find?_some h
  exact ⟨List.mem_reverse.mp (List.mem_of_find?_eq_some h), of_decide_eq_true hid⟩

theorem entryById_of_mem (hids : (exported.map ExportedEntry.loreEntryId).Nodup) {entry : ExportedEntry}
    (hmem : entry ∈ exported) : entryById exported entry.loreEntryId = some entry := by
  cases hfound : entryById exported entry.loreEntryId with
  | none =>
    unfold entryById at hfound
    have hnone := List.find?_eq_none.mp hfound entry (List.mem_reverse.mpr hmem)
    exact absurd (decide_eq_true rfl) hnone
  | some found =>
    obtain ⟨hfoundMem, hid⟩ := entryById_eq_some hfound
    rw [List.inj_on_of_nodup_map hids hfoundMem hmem hid]

/-- A file is matched to the entry whose identifier it carries, where that is not withheld. -/
theorem matchOf_eq_some (hids : (exported.map ExportedEntry.loreEntryId).Nodup) {file : RepositoryFile}
    {entry : ExportedEntry} (hmem : entry ∈ exported) (hwithheld : entry.loreEntryId ∉ withheld) :
    matchOf readers exported withheld file = some entry.loreEntryId ↔
      ∃ incoming, restored readers exported file = some (entry.loreEntryId, incoming) := by
  unfold matchOf
  cases restored readers exported file with
  | none => simp
  | some carried =>
    obtain ⟨id, incoming⟩ := carried
    simp only [Option.some.injEq, Prod.mk.injEq, exists_and_left, exists_eq', and_true]
    constructor
    · intro h
      split at h
      · cases h
      · obtain ⟨found, hfound, hid⟩ := Option.map_eq_some_iff.mp h
        rw [← hid, (entryById_eq_some hfound).2]
    · rintro rfl
      rw [if_neg hwithheld, entryById_of_mem hids hmem]
      rfl

/-- What a file proposes names an entry exactly when the file carries its identifier with a text of its own. -/
theorem changeOf_names (hids : (exported.map ExportedEntry.loreEntryId).Nodup) {entry : ExportedEntry}
    (hmem : entry ∈ exported) (hwithheld : entry.loreEntryId ∉ withheld) (file : RepositoryFile) :
    (changeOf readers exported withheld file).any (fun change => change.loreEntryId = some entry.loreEntryId) =
      proposes readers exported entry file := by
  unfold changeOf proposes restored
  cases parse readers file.contents with
  | error _ => rfl
  | ok parsed =>
    simp only
    by_cases hid : parsed.header.id = entry.loreEntryId
    · rw [hid, if_neg hwithheld, entryById_of_mem hids hmem]
      simp only
      split
      · next hsame =>
        exact (decide_eq_false fun hown => hsame.elim hown.2.1 hown.2.2).symm
      · next hown =>
        rw [not_or] at hown
        simp [hown, DetectedChange.loreEntryId]
    · split
      · simp [hid]
      · cases hfound : entryById exported parsed.header.id with
        | none => simp [hid, DetectedChange.loreEntryId]
        | some found =>
          have hne : found.loreEntryId ≠ entry.loreEntryId := (entryById_eq_some hfound).2.trans_ne hid
          simp only
          split <;> simp [hid, hne, DetectedChange.loreEntryId]

/-- A file proposes a new entry, or an update of the one it is matched to. -/
theorem changeOf_cases {file : RepositoryFile} {change : DetectedChange}
    (h : changeOf readers exported withheld file = some change) :
    (∃ path title incoming, change = .newEntry path title incoming) ∨
      ∃ entry ∈ exported, ∃ path incoming, entry.loreEntryId ∉ withheld ∧
        change = .update entry.loreEntryId path incoming entry.exportedRevisionId entry.currentRevisionId
          (entry.currentRevisionId ≠ entry.exportedRevisionId) := by
  unfold changeOf at h
  cases hparse : parse readers file.contents with
  | error _ =>
    rw [hparse] at h
    cases h
    exact .inl ⟨_, _, _, rfl⟩
  | ok parsed =>
    rw [hparse] at h
    simp only at h
    split at h
    · cases h
    · next hwithheld =>
      cases hfound : entryById exported parsed.header.id with
      | none =>
        rw [hfound] at h
        cases h
        exact .inl ⟨_, _, _, rfl⟩
      | some found =>
        rw [hfound] at h
        simp only at h
        split at h <;> cases h
        obtain ⟨hmem, hid⟩ := entryById_eq_some hfound
        rw [← hid] at hwithheld
        exact .inr ⟨found, hmem, _, _, hwithheld, rfl⟩

theorem changeOf_not_withheld {file : RepositoryFile} {change : DetectedChange} {id : Uuid}
    (h : changeOf readers exported withheld file = some change) (hid : change.loreEntryId = some id) : id ∉ withheld := by
  rcases changeOf_cases h with ⟨_, _, _, rfl⟩ | ⟨entry, -, _, _, hwithheld, rfl⟩ <;> cases hid
  exact hwithheld

theorem changeOf_ne_deletion {file : RepositoryFile} {id : Uuid} {path : Text} :
    changeOf readers exported withheld file ≠ some (.deletion id path) := by
  intro h
  rcases changeOf_cases h with ⟨_, _, _, heq⟩ | ⟨_, _, _, _, _, heq⟩ <;> cases heq

/-- A file with a text of its own is proposed as an update. -/
theorem changeOf_update (hids : (exported.map ExportedEntry.loreEntryId).Nodup) {entry : ExportedEntry}
    (hmem : entry ∈ exported) (hwithheld : entry.loreEntryId ∉ withheld) {file : RepositoryFile} {incoming : Text}
    (hrestored : restored readers exported file = some (entry.loreEntryId, incoming))
    (hexported : incoming ≠ entry.exportedBody) (hcurrent : incoming ≠ entry.currentBody) :
    changeOf readers exported withheld file = some (.update entry.loreEntryId file.path incoming
      entry.exportedRevisionId entry.currentRevisionId (entry.currentRevisionId ≠ entry.exportedRevisionId)) := by
  unfold restored at hrestored
  unfold changeOf
  cases hparse : parse readers file.contents with
  | error _ =>
    rw [hparse] at hrestored
    cases hrestored
  | ok parsed =>
    rw [hparse] at hrestored
    simp only [Option.some.injEq, Prod.mk.injEq] at hrestored
    simp only
    rw [hrestored.1, hrestored.2, if_neg hwithheld, entryById_of_mem hids hmem]
    exact if_neg (not_or.mpr ⟨hexported, hcurrent⟩)

/-! All files. -/

variable (readers exported withheld)

/-- The entries that no file is matched to and that are not withheld. -/
def missing (files : List RepositoryFile) : List ExportedEntry :=
  exported.filter fun entry =>
    ¬ ((∃ file ∈ files, matchOf readers exported withheld file = some entry.loreEntryId) ∨ entry.loreEntryId ∈ withheld)

theorem detect_eq (files : List RepositoryFile) : detect readers exported withheld files =
    files.filterMap (changeOf readers exported withheld) ++
      (missing readers exported withheld files).map fun entry => .deletion entry.loreEntryId entry.currentPath := by
  obtain ⟨haccounted, hchanges⟩ :=
    foldl_detectFile readers exported withheld files { accountedFor := [], changes := [] }
  unfold detect missing
  simp only [haccounted, hchanges, List.not_mem_nil, false_or, List.nil_append]

variable {readers exported withheld}

theorem mem_missing (hids : (exported.map ExportedEntry.loreEntryId).Nodup) {files : List RepositoryFile}
    {entry : ExportedEntry} (hmem : entry ∈ exported) : entry ∈ missing readers exported withheld files ↔
      entry.loreEntryId ∉ withheld ∧
        ∀ file ∈ files, ∀ incoming, restored readers exported file ≠ some (entry.loreEntryId, incoming) := by
  rw [missing, List.mem_filter, decide_eq_true_iff, not_or]
  constructor
  · rintro ⟨-, hunmatched, hwithheld⟩
    refine ⟨hwithheld, fun file hfile incoming hrestored => hunmatched ⟨file, hfile, ?_⟩⟩
    exact (matchOf_eq_some hids hmem hwithheld).mpr ⟨incoming, hrestored⟩
  · rintro ⟨hwithheld, hcarried⟩
    refine ⟨hmem, ?_, hwithheld⟩
    rintro ⟨file, hfile, hmatch⟩
    obtain ⟨incoming, hrestored⟩ := (matchOf_eq_some hids hmem hwithheld).mp hmatch
    exact hcarried file hfile incoming hrestored

/-- How many of the proposals name an entry. -/
theorem countP_detect (hids : (exported.map ExportedEntry.loreEntryId).Nodup) {entry : ExportedEntry}
    (hmem : entry ∈ exported) (hwithheld : entry.loreEntryId ∉ withheld) (files : List RepositoryFile) :
    (detect readers exported withheld files).countP (fun change => change.loreEntryId = some entry.loreEntryId) =
      files.countP (proposes readers exported entry) +
        (missing readers exported withheld files).countP fun other => other.loreEntryId = entry.loreEntryId := by
  rw [detect_eq, List.countP_append, List.countP_filterMap, List.countP_map]
  congr 1
  · apply List.countP_congr
    intro file _
    rw [← changeOf_names hids hmem hwithheld file]
    cases changeOf readers exported withheld file <;> simp
  · apply List.countP_congr
    intro other _
    simp [DetectedChange.loreEntryId]

/-- An entry is missing once at most. -/
theorem countP_missing_le (hids : (exported.map ExportedEntry.loreEntryId).Nodup) (files : List RepositoryFile)
    (id : Uuid) : (missing readers exported withheld files).countP (fun entry => entry.loreEntryId = id) ≤ 1 := by
  have hsub : ((missing readers exported withheld files).map ExportedEntry.loreEntryId).Sublist
      (exported.map ExportedEntry.loreEntryId) := List.filter_sublist.map _
  have hcount := List.nodup_iff_count_le_one.mp (hids.sublist hsub) id
  rw [List.count, List.countP_map] at hcount
  refine le_of_eq_of_le (List.countP_congr fun entry _ => ?_) hcount
  simp

/-- An entry that a file proposes a text for is not missing. -/
theorem countP_missing_eq_zero (hids : (exported.map ExportedEntry.loreEntryId).Nodup) {files : List RepositoryFile}
    {entry : ExportedEntry} (hmem : entry ∈ exported) (hproposes : 0 < files.countP (proposes readers exported entry)) :
    (missing readers exported withheld files).countP (fun other => other.loreEntryId = entry.loreEntryId) = 0 := by
  rw [List.countP_eq_zero]
  intro other hother heq
  have hotherMem : other ∈ exported := List.mem_of_mem_filter hother
  obtain rfl : other = entry := List.inj_on_of_nodup_map hids hotherMem hmem (of_decide_eq_true heq)
  obtain ⟨file, hfile, hproposed⟩ := List.countP_pos_iff.mp hproposes
  unfold proposes at hproposed
  split at hproposed
  · next id incoming hrestored =>
    rw [(of_decide_eq_true hproposed).1] at hrestored
    exact ((mem_missing hids hmem).mp hother).2 file hfile incoming hrestored
  · cases hproposed

/-- An entry is named once at most exactly when one file at most has a text of its own for it. -/
theorem countP_detect_le_one_iff (hids : (exported.map ExportedEntry.loreEntryId).Nodup) {entry : ExportedEntry}
    (hmem : entry ∈ exported) (hwithheld : entry.loreEntryId ∉ withheld) (files : List RepositoryFile) :
    (detect readers exported withheld files).countP (fun change => change.loreEntryId = some entry.loreEntryId) ≤ 1 ↔
      files.countP (proposes readers exported entry) ≤ 1 := by
  rw [countP_detect hids hmem hwithheld]
  have hmissing : (missing readers exported withheld files).countP
      (fun other => other.loreEntryId = entry.loreEntryId) ≤ 1 := countP_missing_le hids files entry.loreEntryId
  rcases Nat.eq_zero_or_pos (files.countP (proposes readers exported entry)) with hzero | hpos
  · omega
  · have hnone : (missing readers exported withheld files).countP
        (fun other => other.loreEntryId = entry.loreEntryId) = 0 := countP_missing_eq_zero hids hmem hpos
    omega

theorem detect_not_withheld {files : List RepositoryFile} {change : DetectedChange} {id : Uuid}
    (h : change ∈ detect readers exported withheld files) (hid : change.loreEntryId = some id) : id ∉ withheld := by
  rw [detect_eq] at h
  rcases List.mem_append.mp h with h | h
  · obtain ⟨file, -, hchange⟩ := List.mem_filterMap.mp h
    exact changeOf_not_withheld hchange hid
  · obtain ⟨entry, hentry, rfl⟩ := List.mem_map.mp h
    cases hid
    have hkept := of_decide_eq_true (List.mem_filter.mp hentry).2
    exact fun hwithheld => hkept (.inr hwithheld)

/-- A deletion is proposed for just the entries that are not withheld and whose identifier no readable file carries. -/
theorem deletion_mem_detect (hids : (exported.map ExportedEntry.loreEntryId).Nodup) {files : List RepositoryFile}
    {id : Uuid} {path : Text} : .deletion id path ∈ detect readers exported withheld files ↔
      ∃ entry ∈ exported, entry.loreEntryId = id ∧ entry.currentPath = path ∧ id ∉ withheld ∧
        ∀ file ∈ files, ∀ incoming, restored readers exported file ≠ some (id, incoming) := by
  rw [detect_eq, List.mem_append, List.mem_filterMap, List.mem_map]
  constructor
  · rintro (⟨file, -, hchange⟩ | ⟨entry, hentry, heq⟩)
    · exact absurd hchange changeOf_ne_deletion
    · cases heq
      have hmem : entry ∈ exported := List.mem_of_mem_filter hentry
      exact ⟨entry, hmem, rfl, rfl, (mem_missing hids hmem).mp hentry⟩
  · rintro ⟨entry, hmem, rfl, rfl, hmissing⟩
    exact .inr ⟨entry, (mem_missing hids hmem).mpr hmissing, rfl⟩

end detect

/-! Pending rows. -/

/-- A row under which a text waits to be decided on. -/
structure PendingChange.Holds (row : PendingChange) (gate : IncomingEnabled) (entryId : Uuid) (incoming : Text) :
    Prop where
  connectionId : row.connectionId = gate.connectionId
  status : row.status = .pending
  loreEntryId : row.loreEntryId = some entryId
  incomingBody : row.incomingBody = some incoming

/-- The rows' identifiers differ from each other and from those of the rows to be inserted. -/
def FreshIds (rows : List PendingChange) (newIds : List Uuid) : Prop := (rows.map PendingChange.id ++ newIds).Nodup

section record

variable {gate : IncomingEnabled} {now : Instant} {stored : List PendingChange × List Uuid}

theorem rowFor_loreEntryId (id : Uuid) (change : DetectedChange) :
    (rowFor gate now id change).loreEntryId = change.loreEntryId := by
  cases change <;> rfl

theorem rowFor_id (id : Uuid) (change : DetectedChange) : (rowFor gate now id change).id = id := by
  cases change <;> rfl

/-- A proposal replaces a row about the same entry, or about none. -/
theorem replaces_loreEntryId {row other : PendingChange} (h : replaces gate row other = true) :
    other.connectionId = gate.connectionId ∧ other.status = .pending ∧ other.loreEntryId = row.loreEntryId := by
  unfold replaces at h
  obtain ⟨hpending, hmatch⟩ := Bool.and_eq_true_iff.mp h
  obtain ⟨hconnection, hstatus⟩ := of_decide_eq_true hpending
  refine ⟨hconnection, hstatus, ?_⟩
  cases hrow : row.loreEntryId <;> rw [hrow] at hmatch
  · exact (of_decide_eq_true hmatch).1
  · exact of_decide_eq_true hmatch

theorem recordChange_rows (change : DetectedChange) (id : Uuid) : (recordChange gate now stored (change, id)).1 =
    match stored.1.find? (replaces gate (rowFor gate now id change)) with
    | some existing => stored.1.map fun other =>
        if other.id = existing.id then other.overwrite (rowFor gate now id change) now else other
    | none => stored.1 ++ [rowFor gate now id change] := by
  simp only [recordChange]
  cases stored.1.find? (replaces gate (rowFor gate now id change)) <;> rfl

/-- Rows that are written over keep their identifiers. -/
theorem map_ids {rows : List PendingChange} {write : PendingChange → PendingChange}
    (h : ∀ row, (write row).id = row.id) : (rows.map write).map PendingChange.id = rows.map PendingChange.id := by
  rw [List.map_map]
  apply List.map_congr_left
  exact fun row _ => h row

theorem recordChange_fresh {change : DetectedChange} {id : Uuid} {newIds : List Uuid}
    (hfresh : FreshIds stored.1 (id :: newIds)) : FreshIds (recordChange gate now stored (change, id)).1 newIds := by
  unfold FreshIds at hfresh ⊢
  rw [recordChange_rows]
  cases stored.1.find? (replaces gate (rowFor gate now id change)) with
  | none =>
    simp only [List.map_append, List.map_cons, List.map_nil, rowFor_id]
    rwa [List.append_assoc]
  | some existing =>
    simp only
    rw [map_ids fun other => by split <;> rfl]
    exact hfresh.sublist ((List.sublist_cons_self _ _).append_left _)

/-- A proposed text is in a pending row once it is stored. -/
theorem recordChange_holds {entryId id : Uuid} {path incoming : Text} {base app : Option Uuid} {also : Bool} :
    ∃ row ∈ (recordChange gate now stored (.update entryId path incoming base app also, id)).1,
      row.Holds gate entryId incoming := by
  rw [recordChange_rows]
  cases hfound : stored.1.find?
      (replaces gate (rowFor gate now id (.update entryId path incoming base app also))) with
  | none => exact ⟨_, List.mem_append_right _ List.mem_cons_self, rfl, rfl, rfl, rfl⟩
  | some existing =>
    obtain ⟨hconnection, hstatus, hentry⟩ := replaces_loreEntryId (List.find?_some hfound)
    refine ⟨_, List.mem_map_of_mem (List.mem_of_find?_eq_some hfound), ?_⟩
    rw [if_pos rfl]
    exact ⟨hconnection, hstatus, hentry, rfl⟩

/-- A proposal about another entry leaves a row alone. -/
theorem recordChange_keeps {change : DetectedChange} {id : Uuid} {row : PendingChange}
    (hids : (stored.1.map PendingChange.id).Nodup) (hrow : row ∈ stored.1) (hother : change.loreEntryId ≠ row.loreEntryId) :
    row ∈ (recordChange gate now stored (change, id)).1 := by
  rw [recordChange_rows]
  cases hfound : stored.1.find? (replaces gate (rowFor gate now id change)) with
  | none => exact List.mem_append_left _ hrow
  | some existing =>
    have hne : row.id ≠ existing.id := by
      intro heq
      obtain rfl : row = existing := List.inj_on_of_nodup_map hids hrow (List.mem_of_find?_eq_some hfound) heq
      have hentry := (replaces_loreEntryId (List.find?_some hfound)).2.2
      rw [rowFor_loreEntryId] at hentry
      exact hother hentry.symm
    exact List.mem_map.mpr ⟨row, hrow, if_neg hne⟩

/-- Proposals that do not name a row's entry leave it alone. -/
theorem foldl_recordChange_keeps {changes : List (DetectedChange × Uuid)} {row : PendingChange}
    (hfresh : FreshIds stored.1 (changes.map Prod.snd)) (hrow : row ∈ stored.1)
    (hothers : ∀ change ∈ changes, change.1.loreEntryId ≠ row.loreEntryId) :
    row ∈ (changes.foldl (recordChange gate now) stored).1 := by
  induction changes generalizing stored with
  | nil => exact hrow
  | cons change changes ih =>
    apply ih (recordChange_fresh hfresh)
    · exact recordChange_keeps (List.nodup_append.mp hfresh).1 hrow (hothers change List.mem_cons_self)
    · exact fun other hother => hothers other (List.mem_cons_of_mem _ hother)

/-- A text that is the only proposal about its entry is kept to be decided on. -/
theorem foldl_recordChange_holds {changes : List (DetectedChange × Uuid)} {entryId : Uuid} {path incoming : Text}
    {base app : Option Uuid} {also : Bool} (hfresh : FreshIds stored.1 (changes.map Prod.snd))
    (hmem : DetectedChange.update entryId path incoming base app also ∈ changes.map Prod.fst)
    (honce : (changes.map Prod.fst).countP (fun change => change.loreEntryId = some entryId) ≤ 1) :
    ∃ row ∈ (changes.foldl (recordChange gate now) stored).1, row.Holds gate entryId incoming := by
  induction changes generalizing stored with
  | nil => cases hmem
  | cons change changes ih =>
    obtain ⟨change, id⟩ := change
    rw [List.map_cons, List.countP_cons] at honce
    rcases List.mem_cons.mp hmem with rfl | hmem
    · obtain ⟨row, hrow, hholds⟩ := @recordChange_holds gate now stored entryId id path incoming base app also
      have hnone : (changes.map Prod.fst).countP (fun change => change.loreEntryId = some entryId) = 0 := by
        rw [if_pos] at honce
        · omega
        · exact decide_eq_true rfl
      have hothers : ∀ change ∈ changes, change.1.loreEntryId ≠ row.loreEntryId := by
        intro other hother heq
        rw [hholds.loreEntryId] at heq
        exact List.countP_eq_zero.mp hnone _ (List.mem_map_of_mem hother) (decide_eq_true heq)
      refine ⟨row, ?_, hholds⟩
      rw [List.foldl_cons]
      exact foldl_recordChange_keeps (recordChange_fresh hfresh) hrow hothers
    · exact ih (recordChange_fresh hfresh) hmem (by omega)

end record

/-! What is proposed. -/

section proposals

variable (readers : Readers) (exported : List ExportedEntry) (withheld : List Uuid) (files : List RepositoryFile)

/-- What a repository proposes names each entry once at most, and no text is lost when it is recorded. -/
structure NamesOnce : Prop where
  once : ∀ entry ∈ exported,
    (detect readers exported withheld files).countP (fun change => change.loreEntryId = some entry.loreEntryId) ≤ 1
  notWithheld : ∀ change ∈ detect readers exported withheld files, ∀ id, change.loreEntryId = some id → id ∉ withheld
  deletions : ∀ id path, .deletion id path ∈ detect readers exported withheld files ↔
    ∃ entry ∈ exported, entry.loreEntryId = id ∧ entry.currentPath = path ∧ id ∉ withheld ∧
      ∀ file ∈ files, ∀ incoming, restored readers exported file ≠ some (id, incoming)
  represented : ∀ file ∈ files, ∀ entry ∈ exported, entry.loreEntryId ∉ withheld → ∀ incoming,
    restored readers exported file = some (entry.loreEntryId, incoming) →
    incoming ≠ entry.exportedBody → incoming ≠ entry.currentBody →
    .update entry.loreEntryId file.path incoming entry.exportedRevisionId entry.currentRevisionId
      (entry.currentRevisionId ≠ entry.exportedRevisionId) ∈ detect readers exported withheld files
  recorded : ∀ file ∈ files, ∀ entry ∈ exported, entry.loreEntryId ∉ withheld → ∀ incoming,
    restored readers exported file = some (entry.loreEntryId, incoming) →
    incoming ≠ entry.exportedBody → incoming ≠ entry.currentBody →
    ∀ gate now newIds rows, FreshIds rows newIds → newIds.length = (detect readers exported withheld files).length →
    ∃ row ∈ (record gate now newIds (detect readers exported withheld files) rows).1,
      row.Holds gate entry.loreEntryId incoming

/-- A repository names each entry once at most exactly when no two files carry an entry's identifier with texts of their
own. -/
theorem detect_namesOnce_iff (hids : (exported.map ExportedEntry.loreEntryId).Nodup) :
    NamesOnce readers exported withheld files ↔
      ∀ entry ∈ exported, entry.loreEntryId ∉ withheld → files.countP (proposes readers exported entry) ≤ 1 := by
  have hrepresented : ∀ file ∈ files, ∀ entry ∈ exported, entry.loreEntryId ∉ withheld → ∀ incoming,
      restored readers exported file = some (entry.loreEntryId, incoming) →
      incoming ≠ entry.exportedBody → incoming ≠ entry.currentBody →
      .update entry.loreEntryId file.path incoming entry.exportedRevisionId entry.currentRevisionId
        (entry.currentRevisionId ≠ entry.exportedRevisionId) ∈ detect readers exported withheld files := by
    intro file hfile entry hmem hwithheld incoming hrestored hexported hcurrent
    rw [detect_eq]
    apply List.mem_append_left
    exact List.mem_filterMap.mpr ⟨file, hfile, changeOf_update hids hmem hwithheld hrestored hexported hcurrent⟩
  constructor
  · intro h entry hmem hwithheld
    exact (countP_detect_le_one_iff hids hmem hwithheld files).mp (h.once entry hmem)
  · intro h
    have honce : ∀ entry ∈ exported, (detect readers exported withheld files).countP
        (fun change => change.loreEntryId = some entry.loreEntryId) ≤ 1 := by
      intro entry hmem
      by_cases hwithheld : entry.loreEntryId ∈ withheld
      · have hnone : (detect readers exported withheld files).countP
            (fun change => change.loreEntryId = some entry.loreEntryId) = 0 :=
          List.countP_eq_zero.mpr fun change hchange hid =>
            detect_not_withheld hchange (of_decide_eq_true hid) hwithheld
        omega
      · exact (countP_detect_le_one_iff hids hmem hwithheld files).mpr (h entry hmem hwithheld)
    refine ⟨honce, fun _ hchange _ hid => detect_not_withheld hchange hid, fun _ _ => deletion_mem_detect hids,
      hrepresented, ?_⟩
    intro file hfile entry hmem hwithheld incoming hrestored hexported hcurrent gate now newIds rows hfresh hlength
    have hupdate := hrepresented file hfile entry hmem hwithheld incoming hrestored hexported hcurrent
    have hsnd : ((detect readers exported withheld files).zip newIds).map Prod.snd = newIds :=
      List.map_snd_zip hlength.le
    have hfst : ((detect readers exported withheld files).zip newIds).map Prod.fst =
        detect readers exported withheld files := List.map_fst_zip hlength.ge
    unfold record
    apply foldl_recordChange_holds
    · rwa [hsnd]
    · rw [hfst]
      exact hupdate
    · rw [hfst]
      exact honce entry hmem

end proposals

/-! A file that was copied. -/

def keepId : Text := "00000000-0000-0000-0000-000000000001".toList

def keepReaders : Readers where
  uuid text := if text = keepId then .ok 1 else .error "invalid character".toList
  rfc3339 text := if text = "1970-01-01T00:00:00Z".toList then .ok 0 else .error "premature end of input".toList

def keep : ExportedEntry :=
  { loreEntryId := 1, title := "Keep".toList, currentPath := "keep.md".toList, exportedRevisionId := none,
    exportedBody := "A tower.".toList, currentRevisionId := none, currentBody := "A tower.".toList }

def keepFile (path body : String) : RepositoryFile where
  path := path.toList
  contents := "---\nid: ".toList ++ keepId ++
    "\ntitle: Keep\ntags: []\nupdated: 1970-01-01T00:00:00Z\nunresolvable_links: []\n---\n\n".toList ++ body.toList

/-- The file of an entry with a text of its own, and a copy of it with another. -/
def copiedFile : List RepositoryFile := [keepFile "keep.md" "Two towers.", keepFile "copy.md" "No towers."]

/-- One file has one text at most. -/
theorem one_file_namesOnce : NamesOnce keepReaders [keep] [] [keepFile "keep.md" "Two towers."] :=
  (detect_namesOnce_iff keepReaders [keep] [] _ (by decide)).mpr fun _ _ _ => List.countP_le_length

theorem keepFile_proposes {path body : String}
    (hparse : parse keepReaders (keepFile path body).contents = .ok ⟨⟨1, "Keep".toList, [], 0, []⟩, body.toList⟩)
    (hlinks : '[' ∉ body.toList) (hown : body.toList ≠ "A tower.".toList) :
    proposes keepReaders [keep] keep (keepFile path body) = true := by
  unfold proposes restored
  rw [hparse]
  simp only [restoreAuthoredLinks, restoreLinks, restoreLinksAfter_of_notMem hlinks]
  exact decide_eq_true ⟨rfl, hown, hown⟩

/-- Both texts are proposed for the one entry. -/
theorem copied_file_namesTwice : ¬ NamesOnce keepReaders [keep] [] copiedFile := by
  intro h
  have honce := (countP_detect_le_one_iff (by decide) List.mem_cons_self (by decide) copiedFile).mp
    (h.once keep List.mem_cons_self)
  have hfirst : proposes keepReaders [keep] keep (keepFile "keep.md" "Two towers.") = true :=
    keepFile_proposes (by decide +kernel) (by decide) (by decide)
  have hsecond : proposes keepReaders [keep] keep (keepFile "copy.md" "No towers.") = true :=
    keepFile_proposes (by decide +kernel) (by decide) (by decide)
  rw [copiedFile, List.countP_cons_of_pos hfirst, List.countP_cons_of_pos hsecond] at honce
  omega

end ThunderForge.Mirror
