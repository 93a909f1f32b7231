import ThunderForge.Lib.Run
import ThunderForge.Mirror.Proposals
import ThunderForge.Mirror.Review

/-! What acceptances replace. A proposal says which revision of its entry was current when it was detected; it is
accepted without a look at which one is by then, so an edit in between is replaced without a word. -/

namespace ThunderForge.Mirror

/-- What is to be promised of an action: a pass is told what the app holds, and rows are inserted under new
identifiers. -/
def Review.Allows (review : Review) : Act → Prop
  | .detect exported _ _ => ∀ entry ∈ exported,
    (review.lore (.entry entry.loreEntryId)).map (fun row => (row.currentRevisionId, row.content)) =
      some (entry.currentRevisionId, String.ofList entry.currentBody)
  | .record _ _ newIds => FreshIds review.rows newIds ∧ newIds.length = review.found.length
  | _ => True

instance (review : Review) : DecidablePred review.Allows
  | .detect exported _ _ => inferInstanceAs (Decidable (∀ entry ∈ exported,
    (review.lore (.entry entry.loreEntryId)).map (fun row => (row.currentRevisionId, row.content)) =
      some (entry.currentRevisionId, String.ofList entry.currentBody)))
  | .record _ _ newIds =>
    inferInstanceAs (Decidable ((review.rows.map PendingChange.id ++ newIds).Nodup ∧
      newIds.length = review.found.length))
  | .updateLoreEntry .. | .restoreLoreRevision .. | .accept .. | .decline .. => inferInstanceAs (Decidable True)

/-- Lore whose current revisions exist, and nothing proposed yet. -/
structure Review.Starts (review : Review) : Prop where
  rows : review.rows = []
  decisions : review.decisions = []
  found : review.found = []
  current : ∀ id revisionId, currentOf review.lore id = some revisionId → (review.lore (.revision revisionId)).isSome

section what

variable (wiki : Lore.Wiki) (review : Review)

/-- The proposal whose text an acceptance puts in the place of an entry's, with the entry. -/
def replacement : Act → Option (PendingChange × Uuid)
  | .accept gate changeId acceptingUser now revisionId newEntryId =>
    match accept wiki gate changeId acceptingUser now revisionId newEntryId review with
    | .ok (.updated loreEntryId _, _) => (review.pending gate changeId).map fun change => (change, loreEntryId)
    | _ => none
  | _ => none

/-- What is replaced is the revision that the proposal says, and whether the app has moved on is as it says too. -/
def Shown (act : Act) : Prop :=
  ∀ change ∈ replacement wiki review act, currentOf review.lore change.2 = change.1.appRevisionId ∧
    (change.1.alsoChangedInApp = true ↔ change.1.appRevisionId ≠ change.1.baseRevisionId)

instance (act : Act) : Decidable (Shown wiki review act) :=
  inferInstanceAs (Decidable (∀ change ∈ replacement wiki review act, currentOf review.lore change.2 =
    change.1.appRevisionId ∧ (change.1.alsoChangedInApp = true ↔ change.1.appRevisionId ≠ change.1.baseRevisionId)))

/-- The entry that an action gives a new revision. -/
def revised : Act → Option Uuid
  | .updateLoreEntry caller revisionId input =>
    match (Lore.updateLoreEntry wiki caller revisionId input).exec review.lore with
    | .ok _ => if input.content.isSome then some input.loreEntryId else none
    | .error _ => none
  | .restoreLoreRevision caller revisionId newRevisionId =>
    match (Lore.restoreLoreRevision wiki caller revisionId newRevisionId).exec review.lore with
    | .ok _ => (review.lore (.revision revisionId)).map (·.loreEntryId)
    | .error _ => none
  | .accept gate changeId acceptingUser now revisionId newEntryId =>
    match accept wiki gate changeId acceptingUser now revisionId newEntryId review with
    | .ok (acceptance, _) => acceptance.revised
    | .error _ => none
  | .detect .. | .record .. | .decline .. => none

end what

/-- What has been edited since: the entries that have had a new revision since the pass that is not yet recorded, and
the proposals whose entry has had one since the pass they are from. -/
structure Edits where
  found : List Uuid
  rows : List Uuid

/-- A row is out of date once it is recorded: by the pass, if it is of the pass, and as before otherwise. -/
def Edits.recorded (edits : Edits) (ids : List Uuid) (row : PendingChange) : Bool :=
  if row.id ∈ ids then row.loreEntryId.any fun id => id ∈ edits.found else row.id ∈ edits.rows

/-- An entry has had a new revision. -/
def Edits.revise (edits : Edits) (rows : List PendingChange) : Option Uuid → Edits
  | none => edits
  | some id =>
    { found := id :: edits.found
      rows := edits.rows ++ (rows.filter fun row => row.loreEntryId = some id).map PendingChange.id }

def Edits.step (wiki : Lore.Wiki) (edits : Edits) (review : Review) (act : Act) : Edits :=
  match act with
  | .detect .. => { edits with found := [] }
  | .record gate now newIds =>
    let stored := record gate now newIds review.found review.rows
    { found := [], rows := (stored.1.filter (edits.recorded stored.2)).map PendingChange.id }
  | act => edits.revise review.rows (revised wiki review act)

/-- The review as it goes on, with what has been edited since. -/
def watchedStep (readers : Readers) (wiki : Lore.Wiki) (watched : Review × Edits) (act : Act) : Review × Edits :=
  (watched.1.step readers wiki act, watched.2.step wiki watched.1 act)

/-- The entry of the proposal that is accepted has had no new revision since the pass the proposal is from. -/
def UpToDate (wiki : Lore.Wiki) (watched : Review × Edits) (act : Act) : Prop :=
  ∀ change ∈ replacement wiki watched.1 act, change.1.id ∉ watched.2.rows

instance (wiki : Lore.Wiki) (watched : Review × Edits) (act : Act) : Decidable (UpToDate wiki watched act) :=
  inferInstanceAs (Decidable (∀ change ∈ replacement wiki watched.1 act, change.1.id ∉ watched.2.rows))

/-- No edit of the app is replaced that the reviewer was not told of; proposals are decided once, and declining changes
no lore. -/
structure KeepsAppEdits (readers : Readers) (wiki : Lore.Wiki) (review : Review) (acts : List Act) : Prop where
  shown : Run.Meets (Review.step readers wiki) (Shown wiki) review acts
  once : ((Run.run (Review.step readers wiki) review acts).decisions.map Decision.changeId).Nodup
  declined : Run.Meets (Review.step readers wiki)
    (fun review act => ∀ gate changeId user now, act = .decline gate changeId user now →
      (review.step readers wiki act).lore = review.lore) review acts

/-! What is known of the proposals. -/

/-- An undecided update tells the revision that was current, and so does the one that is, unless it is out of date. -/
def Tells (lore : Lore.Database) (stale : Prop) (row : PendingChange) : Prop :=
  row.kind = .update → row.status = .pending → ∀ id, row.loreEntryId = some id →
    (currentOf lore id = row.appRevisionId ↔ ¬stale) ∧
      (row.alsoChangedInApp = true ↔ row.appRevisionId ≠ row.baseRevisionId)

/-- The proposals, and the changes that are found, with what has been edited since. -/
structure Known (lore : Lore.Database) (rows : List PendingChange) (found : List DetectedChange) (edits : Edits) :
    Prop where
  ids : (rows.map PendingChange.id).Nodup
  tells : ∀ row ∈ rows, Tells lore (row.id ∈ edits.rows) row
  stored : ∀ row ∈ rows, ∀ revisionId, row.appRevisionId = some revisionId → (lore (.revision revisionId)).isSome
  changes : ∀ change ∈ found, ∀ gate now id, Tells lore (∃ entryId ∈ edits.found, change.loreEntryId = some entryId)
    (rowFor gate now id change)
  changesStored : ∀ change ∈ found, ∀ gate now id revisionId,
    (rowFor gate now id change).appRevisionId = some revisionId → (lore (.revision revisionId)).isSome
  current : ∀ id revisionId, currentOf lore id = some revisionId → (lore (.revision revisionId)).isSome

/-- A row is told by its identifier among those that are picked out. -/
theorem mem_filter_ids {rows : List PendingChange} {picked : PendingChange → Bool} {row : PendingChange}
    (hids : (rows.map PendingChange.id).Nodup) (hrow : row ∈ rows) :
    row.id ∈ (rows.filter picked).map PendingChange.id ↔ picked row = true := by
  rw [List.mem_map]
  constructor
  · rintro ⟨other, hother, hid⟩
    obtain ⟨hother, hpicked⟩ := List.mem_filter.mp hother
    rwa [← List.inj_on_of_nodup_map hids hother hrow hid]
  · exact fun hpicked => ⟨row, List.mem_filter.mpr ⟨hrow, hpicked⟩, rfl⟩

section known

variable {lore lore' : Lore.Database} {rows : List PendingChange} {found : List DetectedChange} {edits : Edits}

theorem Known.same (h : Known lore rows found edits) (hsame : SameRevisions lore lore') :
    Known lore' rows found edits where
  ids := h.ids
  tells row hrow hkind hstatus id hid := by
    rw [hsame.current]
    exact h.tells row hrow hkind hstatus id hid
  stored row hrow revisionId happ := by
    rw [hsame.stored]
    exact h.stored row hrow revisionId happ
  changes change hchange gate now rowId hkind hstatus id hid := by
    rw [hsame.current]
    exact h.changes change hchange gate now rowId hkind hstatus id hid
  changesStored change hchange gate now id revisionId happ := by
    rw [hsame.stored]
    exact h.changesStored change hchange gate now id revisionId happ
  current id revisionId hcurrent := by
    rw [hsame.current] at hcurrent
    rw [hsame.stored]
    exact h.current id revisionId hcurrent

theorem Tells.congr {stale stale' : Prop} {row : PendingChange} (h : Tells lore stale row) (hstale : stale' ↔ stale) :
    Tells lore stale' row := by
  rwa [propext hstale]

/-- A new revision of an entry puts what tells of the entry out of date. -/
theorem Revises.tells {entryId revisionId : Uuid} {stale stale' : Prop} {row : PendingChange}
    (h : Revises lore lore' entryId revisionId) (htells : Tells lore stale row)
    (hstored : ∀ id, row.appRevisionId = some id → (lore (.revision id)).isSome)
    (hstale : stale' ↔ stale ∨ row.loreEntryId = some entryId) : Tells lore' stale' row := by
  intro hkind hstatus id hid
  obtain ⟨hcurrent, hflag⟩ := htells hkind hstatus id hid
  refine ⟨?_, hflag⟩
  rw [hstale, hid]
  by_cases hentry : id = entryId
  · subst hentry
    refine iff_of_false (fun heq => ?_) (fun hnot => hnot (Or.inr rfl))
    rw [h.current] at heq
    have hexists := hstored revisionId heq.symm
    rw [h.new] at hexists
    cases hexists
  · rw [h.others id hentry, hcurrent]
    simp [hentry]

theorem Known.revises {entryId revisionId : Uuid} (h : Known lore rows found edits)
    (hrevises : Revises lore lore' entryId revisionId) : Known lore' rows found (edits.revise rows (some entryId)) where
  ids := h.ids
  tells row hrow := by
    refine hrevises.tells (h.tells row hrow) (h.stored row hrow) ?_
    rw [Edits.revise, List.mem_append, mem_filter_ids h.ids hrow, decide_eq_true_iff]
  stored row hrow id happ := (hrevises.stored id).mpr (Or.inr (h.stored row hrow id happ))
  changes change hchange gate now id := by
    refine hrevises.tells (h.changes change hchange gate now id) (h.changesStored change hchange gate now id) ?_
    rw [rowFor_loreEntryId]
    simp only [Edits.revise, List.mem_cons]
    constructor
    · rintro ⟨other, rfl | hother, hentry⟩
      · exact Or.inr hentry
      · exact Or.inl ⟨other, hother, hentry⟩
    · rintro (⟨other, hother, hentry⟩ | hentry)
      · exact ⟨other, Or.inr hother, hentry⟩
      · exact ⟨entryId, Or.inl rfl, hentry⟩
  changesStored change hchange gate now id revisionId happ :=
    (hrevises.stored revisionId).mpr (Or.inr (h.changesStored change hchange gate now id revisionId happ))
  current id other hcurrent := by
    refine (hrevises.stored other).mpr ?_
    by_cases hentry : id = entryId
    · subst hentry
      rw [hrevises.current] at hcurrent
      exact Or.inl (Option.some.inj hcurrent).symm
    · rw [hrevises.others id hentry] at hcurrent
      exact Or.inr (h.current id other hcurrent)

/-- A decision leaves the others as they are, and the decided one is no longer waiting. -/
theorem Known.decided {changeId : Uuid} {status : PendingStatus} (h : Known lore rows found edits)
    (hstatus : status ≠ .pending) :
    Known lore (rows.map fun row => if row.id = changeId then { row with status } else row) found edits where
  ids := by
    rw [map_ids fun row => by split <;> rfl]
    exact h.ids
  tells row hrow := by
    obtain ⟨old, hold, rfl⟩ := List.mem_map.mp hrow
    split_ifs with hid
    · exact fun _ hpending => absurd hpending hstatus
    · exact h.tells old hold
  stored row hrow := by
    obtain ⟨old, hold, rfl⟩ := List.mem_map.mp hrow
    split_ifs with hid
    · exact h.stored old hold
    · exact h.stored old hold
  changes := h.changes
  changesStored := h.changesStored
  current := h.current

end known

/-! Recording a pass. -/

section record

variable {lore : Lore.Database} {edits : Edits} {gate : IncomingEnabled} {now : Instant}
  {stored : List PendingChange × List Uuid}

/-- Rows that tell what they are to tell, with some of a pass among them. -/
structure Midway (lore : Lore.Database) (edits : Edits) (stored : List PendingChange × List Uuid) : Prop where
  tells : ∀ row ∈ stored.1, Tells lore (edits.recorded stored.2 row = true) row
  exist : ∀ row ∈ stored.1, ∀ revisionId, row.appRevisionId = some revisionId → (lore (.revision revisionId)).isSome

/-- A proposal that overwrites a row tells what it would have told as one of its own. -/
theorem Tells.overwrite {stale : Prop} {row other : PendingChange} (h : Tells lore stale row)
    (hstatus : row.status = .pending) (hentry : other.loreEntryId = row.loreEntryId) :
    Tells lore stale (other.overwrite row now) :=
  fun hkind _ id hid => h hkind hstatus id (hentry.symm.trans hid)

theorem recorded_concat {ids : List Uuid} {id : Uuid} {row : PendingChange} :
    edits.recorded (ids ++ [id]) row =
      if row.id = id then row.loreEntryId.any fun entryId => entryId ∈ edits.found else edits.recorded ids row := by
  unfold Edits.recorded
  by_cases hid : row.id = id
  · rw [if_pos hid, if_pos (by simp [hid])]
  · rw [if_neg hid]
    simp [hid]

theorem midway_recordChange {change : DetectedChange} {id : Uuid} {newIds : List Uuid} (h : Midway lore edits stored)
    (hfresh : FreshIds stored.1 (id :: newIds))
    (htells : Tells lore (∃ entryId ∈ edits.found, change.loreEntryId = some entryId) (rowFor gate now id change))
    (hexist : ∀ revisionId, (rowFor gate now id change).appRevisionId = some revisionId →
      (lore (.revision revisionId)).isSome) : Midway lore edits (recordChange gate now stored (change, id)) := by
  have hids : (stored.1.map PendingChange.id).Nodup := (List.nodup_append.mp hfresh).1
  have hstale {row : PendingChange} (hrow : row.loreEntryId = change.loreEntryId) :
      (row.loreEntryId.any fun entryId => decide (entryId ∈ edits.found)) = true ↔
        ∃ entryId ∈ edits.found, change.loreEntryId = some entryId := by
    rw [hrow, Option.any_eq_true]
    simp [and_comm]
  unfold recordChange
  dsimp only
  cases hfound : stored.1.find? (replaces gate (rowFor gate now id change)) with
  | none =>
      have hnew : ∀ row ∈ stored.1, row.id ≠ id := fun row hrow heq =>
        (List.nodup_append.mp hfresh).2.2 row.id (List.mem_map_of_mem hrow) id List.mem_cons_self heq
      refine ⟨fun row hrow => ?_, fun row hrow => ?_⟩
      · dsimp only at hrow ⊢
        rw [rowFor_id, recorded_concat]
        rcases List.mem_append.mp hrow with hold | hlast
        · rw [if_neg (hnew row hold)]
          exact h.tells row hold
        · obtain rfl := List.mem_singleton.mp hlast
          rw [if_pos (rowFor_id id change), hstale (rowFor_loreEntryId id change)]
          exact htells
      · rcases List.mem_append.mp hrow with hold | hlast
        · exact h.exist row hold
        · obtain rfl := List.mem_singleton.mp hlast
          exact hexist
  | some existing =>
      have hmem := List.mem_of_find?_eq_some hfound
      have hentry := (replaces_loreEntryId (List.find?_some hfound)).2.2
      refine ⟨fun row hrow => ?_, fun row hrow => ?_⟩
      · dsimp only at hrow ⊢
        obtain ⟨other, hother, rfl⟩ := List.mem_map.mp hrow
        rw [recorded_concat]
        by_cases hid : other.id = existing.id
        · obtain rfl : other = existing := List.inj_on_of_nodup_map hids hother hmem hid
          rw [if_pos rfl]
          have hsame : (other.overwrite (rowFor gate now id change) now).loreEntryId = change.loreEntryId :=
            hentry.trans (rowFor_loreEntryId id change)
          rw [if_pos (by rfl), hstale hsame]
          exact htells.overwrite (by cases change <;> rfl) hentry
        · rw [if_neg hid, if_neg hid]
          exact h.tells other hother
      · obtain ⟨other, hother, rfl⟩ := List.mem_map.mp hrow
        by_cases hid : other.id = existing.id
        · rw [if_pos hid]
          exact hexist
        · rw [if_neg hid]
          exact h.exist other hother

/-- A recorded pass leaves each row in its place, as decided as it was. -/
theorem recordChange_status (change : DetectedChange × Uuid) {row : PendingChange} (hrow : row ∈ stored.1) :
    ∃ after ∈ (recordChange gate now stored change).1, after.id = row.id ∧ after.status = row.status := by
  rw [recordChange_rows]
  cases stored.1.find? (replaces gate (rowFor gate now change.2 change.1)) with
  | none => exact ⟨row, List.mem_append_left _ hrow, rfl, rfl⟩
  | some existing =>
      refine ⟨_, List.mem_map_of_mem hrow, ?_⟩
      split <;> exact ⟨rfl, rfl⟩

theorem foldl_recordChange {changes : List (DetectedChange × Uuid)} (h : Midway lore edits stored)
    (hfresh : FreshIds stored.1 (changes.map Prod.snd))
    (htells : ∀ change ∈ changes, ∀ gate now id,
      Tells lore (∃ entryId ∈ edits.found, change.1.loreEntryId = some entryId) (rowFor gate now id change.1))
    (hexist : ∀ change ∈ changes, ∀ gate now id revisionId,
      (rowFor gate now id change.1).appRevisionId = some revisionId → (lore (.revision revisionId)).isSome) :
    Midway lore edits (changes.foldl (recordChange gate now) stored) ∧
      ((changes.foldl (recordChange gate now) stored).1.map PendingChange.id).Nodup ∧
        ∀ row ∈ stored.1, ∃ after ∈ (changes.foldl (recordChange gate now) stored).1,
          after.id = row.id ∧ after.status = row.status := by
  induction changes generalizing stored with
  | nil => exact ⟨h, (List.nodup_append.mp hfresh).1, fun row hrow => ⟨row, hrow, rfl, rfl⟩⟩
  | cons change changes ih =>
      have hmidway := midway_recordChange h hfresh (htells change List.mem_cons_self gate now change.2)
        (hexist change List.mem_cons_self gate now change.2)
      obtain ⟨hlast, hids, hstatus⟩ := ih hmidway (recordChange_fresh hfresh)
        (fun other hother => htells other (List.mem_cons_of_mem _ hother))
        (fun other hother => hexist other (List.mem_cons_of_mem _ hother))
      refine ⟨hlast, hids, fun row hrow => ?_⟩
      obtain ⟨between, hbetween, hid, hsame⟩ := recordChange_status change hrow
      obtain ⟨after, hafter, hid', hsame'⟩ := hstatus between hbetween
      exact ⟨after, hafter, hid'.trans hid, hsame'.trans hsame⟩

end record

/-! Detecting. -/

section detect

variable {readers : Readers} {review : Review} {exported : List ExportedEntry} {withheld : List Uuid}
  {files : List RepositoryFile} {change : DetectedChange}

/-- What a pass finds tells of the lore that the pass was told. -/
theorem detect_tells (hallowed : review.Allows (.detect exported withheld files))
    (hcurrent : ∀ id revisionId, currentOf review.lore id = some revisionId →
      (review.lore (.revision revisionId)).isSome)
    (hchange : change ∈ detect readers exported withheld files) (gate : IncomingEnabled) (now : Instant) (id : Uuid) :
    Tells review.lore False (rowFor gate now id change) ∧
      ∀ revisionId, (rowFor gate now id change).appRevisionId = some revisionId →
        (review.lore (.revision revisionId)).isSome := by
  rw [detect_eq] at hchange
  rcases List.mem_append.mp hchange with hfile | hmissing
  · obtain ⟨file, -, hfile⟩ := List.mem_filterMap.mp hfile
    rcases changeOf_cases hfile with ⟨path, title, incoming, rfl⟩ | ⟨entry, hentry, path, incoming, -, rfl⟩
    · exact ⟨by rintro - - - ⟨⟩, by rintro - ⟨⟩⟩
    · have hnow : currentOf review.lore entry.loreEntryId = entry.currentRevisionId := by
        obtain ⟨row, hrow, hagrees⟩ := Option.map_eq_some_iff.mp (hallowed entry hentry)
        rw [currentOf, hrow]
        exact congrArg Prod.fst hagrees
      refine ⟨fun _ _ entryId hid => ?_, fun revisionId happ => ?_⟩
      · obtain rfl : entry.loreEntryId = entryId := Option.some.inj hid
        exact ⟨iff_of_true hnow not_false, decide_eq_true_iff⟩
      · exact hcurrent entry.loreEntryId revisionId (hnow.trans happ)
  · obtain ⟨entry, -, rfl⟩ := List.mem_map.mp hmissing
    exact ⟨by rintro ⟨⟩, by rintro - ⟨⟩⟩

end detect

/-! Whole runs. -/

/-- Each decision is of a row that is no longer waiting, and no row has two. -/
structure DecidedOnce (rows : List PendingChange) (decided : List Uuid) : Prop where
  rows : ∀ changeId ∈ decided, ∃ row ∈ rows, row.id = changeId ∧ row.status ≠ .pending
  once : decided.Nodup

theorem DecidedOnce.decides {review review' : Review} {change : PendingChange} {status : PendingStatus}
    (h : DecidedOnce review.rows (review.decisions.map Decision.changeId))
    (hids : (review.rows.map PendingChange.id).Nodup) (hdecides : Decides review review' change status)
    (hstatus : status ≠ .pending) : DecidedOnce review'.rows (review'.decisions.map Decision.changeId) := by
  have hnew : change.id ∉ review.decisions.map Decision.changeId := by
    intro hold
    obtain ⟨row, hrow, hid, hdecided⟩ := h.rows change.id hold
    obtain rfl := List.inj_on_of_nodup_map hids hrow hdecides.mem hid
    exact hdecided hdecides.undecided
  rw [hdecides.rows, hdecides.decisions]
  refine ⟨fun changeId hchange => ?_, ?_⟩
  · rcases List.mem_append.mp hchange with hold | hlast
    · obtain ⟨row, hrow, hid, hdecided⟩ := h.rows changeId hold
      refine ⟨_, List.mem_map_of_mem hrow, ?_⟩
      split
      · exact ⟨hid, hstatus⟩
      · exact ⟨hid, hdecided⟩
    · obtain rfl := List.mem_singleton.mp hlast
      refine ⟨_, List.mem_map_of_mem hdecides.mem, ?_⟩
      rw [if_pos rfl]
      exact ⟨rfl, hstatus⟩
  · exact List.nodup_append.mpr ⟨h.once, List.nodup_singleton _, by
      rintro id hid other hother rfl
      exact hnew (List.mem_singleton.mp hother ▸ hid)⟩

/-- What holds of the review in every run. -/
structure Sound (watched : Review × Edits) : Prop where
  known : Known watched.1.lore watched.1.rows watched.1.found watched.2
  decided : DecidedOnce watched.1.rows (watched.1.decisions.map Decision.changeId)

section steps

variable {readers : Readers} {wiki : Lore.Wiki} {review : Review} {edits : Edits}

theorem Review.Starts.sound (h : review.Starts) : Sound (review, ⟨[], []⟩) where
  known := by
    refine ⟨?_, ?_, ?_, ?_, ?_, h.current⟩
    · simp [h.rows]
    · simp [h.rows]
    · simp [h.rows]
    · simp [h.found]
    · simp [h.found]
  decided := by
    refine ⟨?_, ?_⟩
    · simp [h.decisions]
    · simp [h.decisions]

theorem Sound.detect {exported : List ExportedEntry} {withheld : List Uuid} {files : List RepositoryFile}
    (h : Sound (review, edits)) (hallowed : review.Allows (.detect exported withheld files)) :
    Sound (watchedStep readers wiki (review, edits) (.detect exported withheld files)) := by
  refine ⟨⟨h.known.ids, h.known.tells, h.known.stored, ?_, ?_, h.known.current⟩, h.decided⟩
  · intro change hchange gate now id
    refine (detect_tells hallowed h.known.current hchange gate now id).1.congr (iff_of_false ?_ not_false)
    rintro ⟨_, hnone, -⟩
    cases hnone
  · intro change hchange gate now id
    exact (detect_tells hallowed h.known.current hchange gate now id).2

theorem Sound.record {gate : IncomingEnabled} {now : Instant} {newIds : List Uuid} (h : Sound (review, edits))
    (hallowed : review.Allows (.record gate now newIds)) :
    Sound (watchedStep readers wiki (review, edits) (.record gate now newIds)) := by
  obtain ⟨hfresh, hlength⟩ := hallowed
  have hids : (review.found.zip newIds).map Prod.snd = newIds := List.map_snd_zip hlength.le
  have hmem {change : DetectedChange × Uuid} (hchange : change ∈ review.found.zip newIds) : change.1 ∈ review.found :=
    (List.of_mem_zip hchange).1
  have hstart : Midway review.lore edits (review.rows, []) := by
    refine ⟨fun row hrow => (h.known.tells row hrow).congr ?_, h.known.stored⟩
    simp [Edits.recorded]
  obtain ⟨hmidway, hnodup, hstatus⟩ := @foldl_recordChange review.lore edits gate now (review.rows, [])
    (review.found.zip newIds) hstart (by rwa [hids])
    (fun change hchange => h.known.changes change.1 (hmem hchange))
    (fun change hchange => h.known.changesStored change.1 (hmem hchange))
  refine ⟨⟨hnodup, ?_, hmidway.exist, ?_, ?_, h.known.current⟩, ?_, h.decided.once⟩
  · exact fun row hrow => (hmidway.tells row hrow).congr (mem_filter_ids hnodup hrow)
  · intro change hchange
    cases hchange
  · intro change hchange
    cases hchange
  · intro changeId hchange
    obtain ⟨row, hrow, hid, hdecided⟩ := h.decided.rows changeId hchange
    obtain ⟨after, hafter, hsame, hsame'⟩ := hstatus row hrow
    exact ⟨after, hafter, hsame.trans hid, fun hpending => hdecided (hsame'.symm.trans hpending)⟩

theorem Sound.updateLoreEntry {caller : Lore.Caller} {revisionId : Uuid} {input : Lore.UpdateLoreEntryInput}
    (h : Sound (review, edits)) :
    Sound (watchedStep readers wiki (review, edits) (.updateLoreEntry caller revisionId input)) := by
  show Sound (review.edit (Lore.updateLoreEntry wiki caller revisionId input),
    edits.revise review.rows (revised wiki review (.updateLoreEntry caller revisionId input)))
  dsimp only [Review.edit, revised]
  cases hexec : (Lore.updateLoreEntry wiki caller revisionId input).exec review.lore with
  | error _ => exact h
  | ok written =>
      obtain ⟨answer, lore⟩ := written
      have hlore := exec_updateLoreEntry hexec
      dsimp only
      split_ifs at hlore ⊢ with hcontent
      · exact ⟨h.known.revises hlore, h.decided⟩
      · exact ⟨h.known.same hlore, h.decided⟩

theorem Sound.restoreLoreRevision {caller : Lore.Caller} {revisionId newRevisionId : Uuid}
    (h : Sound (review, edits)) :
    Sound (watchedStep readers wiki (review, edits) (.restoreLoreRevision caller revisionId newRevisionId)) := by
  show Sound (review.edit (Lore.restoreLoreRevision wiki caller revisionId newRevisionId),
    edits.revise review.rows (revised wiki review (.restoreLoreRevision caller revisionId newRevisionId)))
  dsimp only [Review.edit, revised]
  cases hexec : (Lore.restoreLoreRevision wiki caller revisionId newRevisionId).exec review.lore with
  | error _ => exact h
  | ok written =>
      obtain ⟨answer, lore⟩ := written
      obtain ⟨revision, hrevision, hrevises⟩ := exec_restoreLoreRevision hexec
      dsimp only
      rw [hrevision]
      exact ⟨h.known.revises hrevises, h.decided⟩

/-- A decision keeps what is known of the lore that it leaves. -/
theorem Sound.decides {review' : Review} {edits' : Edits} {change : PendingChange} {status : PendingStatus}
    (h : Sound (review, edits)) (hdecides : Decides review review' change status) (hstatus : status ≠ .pending)
    (hknown : Known review'.lore review.rows review.found edits') : Sound (review', edits') := by
  refine ⟨?_, h.decided.decides h.known.ids hdecides hstatus⟩
  show Known review'.lore review'.rows review'.found edits'
  rw [hdecides.rows, hdecides.found]
  exact hknown.decided hstatus

theorem Sound.accept {gate : IncomingEnabled} {changeId user revisionId newEntryId : Uuid} {now : Instant}
    (h : Sound (review, edits)) :
    Sound (watchedStep readers wiki (review, edits) (.accept gate changeId user now revisionId newEntryId)) := by
  show Sound (review.step readers wiki (.accept gate changeId user now revisionId newEntryId),
    edits.revise review.rows (revised wiki review (.accept gate changeId user now revisionId newEntryId)))
  dsimp only [Review.step, revised]
  cases haccept : Mirror.accept wiki gate changeId user now revisionId newEntryId review with
  | error _ => exact h
  | ok accepted =>
      obtain ⟨acceptance, review'⟩ := accepted
      obtain ⟨change, -, -, hdecides, hlore⟩ := accept_ok haccept
      refine h.decides hdecides (by decide) ?_
      dsimp only
      cases hrevised : acceptance.revised with
      | none =>
          rw [hrevised] at hlore
          dsimp only at hlore
          rw [hlore]
          exact h.known
      | some entryId =>
          rw [hrevised] at hlore
          exact h.known.revises hlore

theorem Sound.decline {gate : IncomingEnabled} {changeId user : Uuid} {now : Instant} (h : Sound (review, edits)) :
    Sound (watchedStep readers wiki (review, edits) (.decline gate changeId user now)) := by
  show Sound (review.step readers wiki (.decline gate changeId user now), edits)
  dsimp only [Review.step]
  cases hdecline : Mirror.decline gate changeId user now review with
  | error _ => exact h
  | ok review' =>
      obtain ⟨change, -, hdecides, hlore⟩ := decline_ok hdecline
      refine h.decides hdecides (by decide) ?_
      rw [hlore]
      exact h.known

/-- What holds of the review is kept by each step. -/
theorem Sound.step {watched : Review × Edits} {act : Act} (h : Sound watched) (hallowed : watched.1.Allows act) :
    Sound (watchedStep readers wiki watched act) := by
  obtain ⟨review, edits⟩ := watched
  cases act with
  | detect exported withheld files => exact h.detect hallowed
  | record gate now newIds => exact h.record hallowed
  | updateLoreEntry caller revisionId input => exact h.updateLoreEntry
  | restoreLoreRevision caller revisionId newRevisionId => exact h.restoreLoreRevision
  | accept gate changeId user now revisionId newEntryId => exact h.accept
  | decline gate changeId user now => exact h.decline

/-- The proposal whose text is put in the place of an entry's is an undecided update of the entry. -/
theorem replacement_eq_some {act : Act} {change : PendingChange} {entryId : Uuid}
    (h : replacement wiki review act = some (change, entryId)) :
    change ∈ review.rows ∧ change.status = .pending ∧ change.kind = .update ∧ change.loreEntryId = some entryId := by
  unfold replacement at h
  cases act with
  | accept gate changeId user now revisionId newEntryId =>
      dsimp only at h
      cases haccept : Mirror.accept wiki gate changeId user now revisionId newEntryId review with
      | error _ =>
          rw [haccept] at h
          cases h
      | ok accepted =>
          obtain ⟨acceptance, review'⟩ := accepted
          rw [haccept] at h
          obtain ⟨applied, hpending, hof, -, -⟩ := accept_ok haccept
          cases acceptance with
          | updated loreEntryId _ =>
              dsimp only at h
              rw [hpending] at h
              obtain ⟨hmem, -, hundecided⟩ := pending_eq_some hpending
              cases h
              exact ⟨hmem, hundecided, hof.1, hof.2⟩
          | created loreEntryId _ => cases h
          | deletionConfirmed loreEntryId => cases h
  | _ => cases h

/-- A reviewer is told what an acceptance replaces exactly when the entry has had no new revision since. -/
theorem shown_iff {watched : Review × Edits} {act : Act} (h : Sound watched) :
    Shown wiki watched.1 act ↔ UpToDate wiki watched act := by
  unfold Shown UpToDate
  refine forall₂_congr fun replaced hreplaced => ?_
  obtain ⟨change, entryId⟩ := replaced
  obtain ⟨hmem, hpending, hkind, hentry⟩ := replacement_eq_some hreplaced
  obtain ⟨hcurrent, hflag⟩ := h.known.tells change hmem hkind hpending entryId hentry
  rw [and_iff_left hflag]
  exact hcurrent

theorem meets_shown_iff {watched : Review × Edits} {acts : List Act} (h : Sound watched)
    (hallowed : Run.Meets (Review.step readers wiki) Review.Allows watched.1 acts) :
    Run.Meets (Review.step readers wiki) (Shown wiki) watched.1 acts ↔
      Run.Meets (watchedStep readers wiki) (UpToDate wiki) watched acts := by
  induction acts generalizing watched with
  | nil => exact Iff.rfl
  | cons act acts ih => exact and_congr (shown_iff h) (ih (h.step hallowed.1) hallowed.2)

theorem run_decidedOnce {watched : Review × Edits} {acts : List Act} (h : Sound watched)
    (hallowed : Run.Meets (Review.step readers wiki) Review.Allows watched.1 acts) :
    ((Run.run (Review.step readers wiki) watched.1 acts).decisions.map Decision.changeId).Nodup := by
  induction acts generalizing watched with
  | nil => exact h.decided.once
  | cons act acts ih => exact ih (h.step hallowed.1) hallowed.2

/-- Declining changes no lore. -/
theorem step_decline_lore {gate : IncomingEnabled} {changeId user : Uuid} {now : Instant} :
    (review.step readers wiki (.decline gate changeId user now)).lore = review.lore := by
  dsimp only [Review.step]
  cases hdecline : Mirror.decline gate changeId user now review with
  | error _ => rfl
  | ok review' =>
      obtain ⟨change, -, -, hlore⟩ := decline_ok hdecline
      exact hlore

end steps

/-- Acceptances keep the edits of the app exactly when each is of an entry that has had no new revision since the pass
that the proposal is from. -/
theorem keepsAppEdits_iff {readers : Readers} {wiki : Lore.Wiki} {review : Review} {acts : List Act}
    (hstarts : review.Starts) (hallowed : Run.Meets (Review.step readers wiki) Review.Allows review acts) :
    KeepsAppEdits readers wiki review acts ↔
      Run.Meets (watchedStep readers wiki) (UpToDate wiki) (review, ⟨[], []⟩) acts := by
  have hsound := hstarts.sound
  constructor
  · exact fun h => (meets_shown_iff hsound hallowed).mp h.shown
  · intro h
    refine ⟨(meets_shown_iff hsound hallowed).mpr h, run_decidedOnce hsound hallowed, ?_⟩
    refine Run.Meets.of_forall (fun review act gate changeId user now hact => ?_) review acts
    subst hact
    exact step_decline_lore

/-! The file of an entry is edited, and a reviewer accepts it. -/

def keepLore : Lore.Database
  | .entry id =>
    if id = 1 then some
      { worldId := 0, title := "Keep", slug := "keep", content := "A tower.", currentRevisionId := none,
        parentId := none }
    else none
  | .revision _ => none
  | .tree _ => ()

def keepReview : Review where
  lore := keepLore
  rows := []
  decisions := []
  found := []

theorem keepReview_starts : keepReview.Starts := by
  refine ⟨rfl, rfl, rfl, fun id revisionId hcurrent => ?_⟩
  simp only [currentOf, keepReview, keepLore] at hcurrent
  split_ifs at hcurrent <;> cases hcurrent

def keepConnection : IncomingEnabled where
  connectionId := 5
  worldId := 0

/-- A pass finds the edit and records it. -/
def editedFile : List Act := [.detect [keep] [] [keepFile "keep.md" "Two towers."], .record keepConnection 0 [7]]

def acceptEdit : Act := .accept keepConnection 7 100 1 10 8

/-- The entry is edited in the app, too. -/
def appEdit : Act :=
  .updateLoreEntry Lore.loreKeeper 11
    { loreEntryId := 1, title := none, content := some "Three towers.", expectedCurrentRevisionId := none }

/-- Nothing is lost where nothing happens in between. -/
theorem edited_file_keeps : KeepsAppEdits keepReaders Lore.smallWiki keepReview (editedFile ++ [acceptEdit]) :=
  (keepsAppEdits_iff keepReview_starts (by decide +kernel)).mpr (by decide +kernel)

/-- The edit of the app is replaced, and the reviewer is told that there is none. -/
theorem app_edit_replaced :
    Run.Meets (Review.step keepReaders Lore.smallWiki) Review.Allows keepReview
      (editedFile ++ [appEdit, acceptEdit]) ∧
        ¬KeepsAppEdits keepReaders Lore.smallWiki keepReview (editedFile ++ [appEdit, acceptEdit]) := by
  refine ⟨by decide +kernel, fun h => ?_⟩
  exact absurd h.shown (by decide +kernel)

end ThunderForge.Mirror
