import ThunderForge.Lore.Entry
import ThunderForge.Mirror.Incoming

/-! Decisions about what a repository proposes (`accept` and `decline` of `lore_sync/incoming.rs`), and the operations
of the app on the same lore in between. The index of the links between entries is left out. -/

namespace ThunderForge.Mirror

open ReadCommitted

/-- What is known of a proposal once it is decided. -/
structure Decision where
  changeId : Uuid
  decidedAt : Instant
  decidedBy : Uuid
  appliedRevisionId : Option Uuid
  createdEntryId : Option Uuid
  deriving DecidableEq

/-- The lore, the proposals about it with what was decided, and what the polling pass has found and not yet recorded. -/
structure Review where
  lore : Lore.Database
  rows : List PendingChange
  decisions : List Decision
  found : List DetectedChange

/-- Why an acceptance or a refusal could not be carried out. -/
inductive IncomingError where
  | notPending
  | malformed (what : String)
  | database (message : String)
  deriving DecidableEq

/-- What accepting a change did. -/
inductive Acceptance where
  | updated (loreEntryId revisionId : Uuid)
  | created (loreEntryId revisionId : Uuid)
  | deletionConfirmed (loreEntryId : Uuid)
  deriving DecidableEq

/-- The undecided row of a connection. -/
def Review.pending (review : Review) (gate : IncomingEnabled) (changeId : Uuid) : Option PendingChange :=
  review.rows.find? fun row => row.id = changeId ∧ row.connectionId = gate.connectionId ∧ row.status = .pending

def Review.decide (review : Review) (changeId : Uuid) (status : PendingStatus) (user : Uuid) (now : Instant) : Review :=
  { review with
    rows := review.rows.map fun row => if row.id = changeId then { row with status } else row
    decisions := review.decisions ++
      [{ changeId, decidedAt := now, decidedBy := user, appliedRevisionId := none, createdEntryId := none }] }

/-- What a decision has led to. -/
def Review.apply (review : Review) (changeId revisionId : Uuid) (createdEntryId : Option Uuid) : Review :=
  { review with
    decisions := review.decisions.map fun decision =>
      if decision.changeId = changeId then { decision with appliedRevisionId := some revisionId, createdEntryId }
      else decision }

/-- An ordinary revision row, of an entry that exists. -/
def writeRevision (lore : Lore.Database) (revisionId loreEntryId : Uuid) (body : Text) (authorId : Uuid) :
    Except IncomingError Lore.Database :=
  if (lore (.revision revisionId)).isSome then
    .error (.database "duplicate key value violates unique constraint")
  else if (lore (.entry loreEntryId)).isNone then
    .error (.database "insert or update on table violates foreign key constraint")
  else
    .ok (Function.update lore (.revision revisionId) (some
      { loreEntryId, contentMarkdown := String.ofList body, authorId, restoredFromRevisionId := none }))

/-- An entry's text is replaced by that of a revision. -/
def setContent (lore : Lore.Database) (loreEntryId revisionId : Uuid) (body : Text) : Lore.Database :=
  Function.update lore (.entry loreEntryId) ((lore (.entry loreEntryId)).map
    ({ · with content := String.ofList body, currentRevisionId := some revisionId }))

def orMalformed {β : Type} (value : Option β) (what : String) : Except IncomingError β :=
  value.elim (.error (.malformed what)) .ok

/-- Applies an accepted change as an ordinary revision, attributed to the accepting user. -/
def accept (wiki : Lore.Wiki) (gate : IncomingEnabled) (changeId acceptingUser : Uuid) (now : Instant)
    (revisionId newEntryId : Uuid) (review : Review) : Except IncomingError (Acceptance × Review) :=
  match review.pending gate changeId with
  | none => .error .notPending
  | some change =>
    match change.kind with
    | .deletion => do
      let loreEntryId ← orMalformed change.loreEntryId "a deletion names no entry"
      return (.deletionConfirmed loreEntryId, review.decide change.id .accepted acceptingUser now)
    | .update => do
      let loreEntryId ← orMalformed change.loreEntryId "an update names no entry"
      let body ← orMalformed change.incomingBody "an update carries no text"
      let lore ← writeRevision review.lore revisionId loreEntryId body acceptingUser
      let review := { review with lore := setContent lore loreEntryId revisionId body }
      return (.updated loreEntryId revisionId,
        (review.decide change.id .accepted acceptingUser now).apply change.id revisionId none)
    | .newEntry => do
      let body ← orMalformed change.incomingBody "a new entry carries no text"
      let title := String.ofList (change.proposedTitle.getD "Untitled".toList)
      let slug := wiki.uniqueSlugForWorld review.lore gate.worldId title none
      if (review.lore (.entry newEntryId)).isSome then
        .error (.database "duplicate key value violates unique constraint")
      let created := Function.update review.lore (.entry newEntryId) (some
        { worldId := gate.worldId, title, slug, content := String.ofList body, currentRevisionId := none,
          parentId := none })
      let lore ← writeRevision created revisionId newEntryId body acceptingUser
      let review := { review with lore := setContent lore newEntryId revisionId body }
      return (.created newEntryId revisionId,
        (review.decide change.id .accepted acceptingUser now).apply change.id revisionId (some newEntryId))

/-- Refuses a proposed change. -/
def decline (gate : IncomingEnabled) (changeId decliningUser : Uuid) (now : Instant) (review : Review) :
    Except IncomingError Review :=
  match review.pending gate changeId with
  | none => .error .notPending
  | some change => .ok (review.decide change.id .declined decliningUser now)

/-- What happens to the lore and to the proposals. -/
inductive Act where
  | detect (exported : List ExportedEntry) (withheld : List Uuid) (files : List RepositoryFile)
  | record (gate : IncomingEnabled) (now : Instant) (newIds : List Uuid)
  | updateLoreEntry (caller : Lore.Caller) (revisionId : Uuid) (input : Lore.UpdateLoreEntryInput)
  | restoreLoreRevision (caller : Lore.Caller) (revisionId newRevisionId : Uuid)
  | accept (gate : IncomingEnabled) (changeId acceptingUser : Uuid) (now : Instant) (revisionId newEntryId : Uuid)
  | decline (gate : IncomingEnabled) (changeId decliningUser : Uuid) (now : Instant)

/-- An operation of the app on the lore; one that fails leaves it as it was. -/
def Review.edit (review : Review) (program : Lore.Program Lore.Answer) : Review :=
  match program.exec review.lore with
  | .ok (_, lore) => { review with lore }
  | .error _ => review

def Review.step (readers : Readers) (wiki : Lore.Wiki) (review : Review) : Act → Review
  | .detect exported withheld files => { review with found := detect readers exported withheld files }
  | .record gate now newIds =>
    { review with rows := (Mirror.record gate now newIds review.found review.rows).1, found := [] }
  | .updateLoreEntry caller revisionId input => review.edit (Lore.updateLoreEntry wiki caller revisionId input)
  | .restoreLoreRevision caller revisionId newRevisionId =>
    review.edit (Lore.restoreLoreRevision wiki caller revisionId newRevisionId)
  | .accept gate changeId acceptingUser now revisionId newEntryId =>
    match Mirror.accept wiki gate changeId acceptingUser now revisionId newEntryId review with
    | .ok (_, accepted) => accepted
    | .error _ => review
  | .decline gate changeId decliningUser now =>
    match Mirror.decline gate changeId decliningUser now review with
    | .ok declined => declined
    | .error _ => review

/-! What the operations do to the revisions. -/

/-- The current revision of an entry. -/
def currentOf (lore : Lore.Database) (id : Uuid) : Option Uuid := (lore (.entry id)).bind (·.currentRevisionId)

/-- The current revisions and the rows of revisions are as they were. -/
structure SameRevisions (lore lore' : Lore.Database) : Prop where
  current : ∀ id, currentOf lore' id = currentOf lore id
  stored : ∀ id, (lore' (.revision id)).isSome = (lore (.revision id)).isSome

/-- One entry has a new revision. -/
structure Revises (lore lore' : Lore.Database) (entryId revisionId : Uuid) : Prop where
  new : lore (.revision revisionId) = none
  stored : ∀ id, (lore' (.revision id)).isSome ↔ id = revisionId ∨ (lore (.revision id)).isSome
  current : currentOf lore' entryId = some revisionId
  others : ∀ id, id ≠ entryId → currentOf lore' id = currentOf lore id

section operations

variable {lore lore' : Lore.Database} {wiki : Lore.Wiki} {caller : Lore.Caller}

theorem revises_insert {entryId revisionId : Uuid} {revision : Lore.LoreRevision} {row : Lore.LoreEntry}
    (hnew : lore (.revision revisionId) = none) (hrow : row.currentRevisionId = some revisionId)
    (hlore : lore' = Function.update (Function.update lore (.revision revisionId) (some revision)) (.entry entryId)
      (some row)) : Revises lore lore' entryId revisionId := by
  subst hlore
  refine ⟨hnew, fun id => ?_, ?_, fun id hid => ?_⟩
  · rw [Function.update_of_ne (by simp)]
    by_cases hid : id = revisionId
    · subst hid
      simp
    · rw [Function.update_of_ne (by simpa using hid)]
      simp [hid]
  · simp [currentOf, hrow]
  · simp [currentOf, Function.update_of_ne, hid]

section statements

variable {r : Lore.Answer × Lore.Database}

theorem exec_insertRevision_bind {revisionId : Uuid} {revision : Lore.LoreRevision}
    {f : Unit → Lore.Program Lore.Answer} :
    (Lore.insertRevision revisionId revision >>= f).exec lore = .ok r ↔ lore (.revision revisionId) = none ∧
      (f ()).exec (Function.update lore (.revision revisionId) (some revision)) = .ok r := by
  rw [Lore.insertRevision, bind_assoc, Call.exec_bind, Call.exec_updateWhere, ← Option.isNone_iff_eq_none]
  show (Call.require ((lore (.revision revisionId)).isNone = true) _ >>= f).exec
    (if (lore (.revision revisionId)).isNone then _ else lore) = .ok r ↔ _
  rw [Call.exec_require_bind_eq_ok]
  refine and_congr_right fun hnew => ?_
  rw [if_pos hnew]

theorem exec_loadEntry_bind {entryId : Uuid} {error : Lore.LoreError} {f : Lore.LoreEntry → Lore.Program Lore.Answer} :
    (Lore.loadEntry entryId error >>= f).exec lore = .ok r ↔
      ∃ entry, lore (.entry entryId) = some entry ∧ (f entry).exec lore = .ok r := by
  rw [Lore.loadEntry, bind_assoc, Call.exec_read_bind_eq_ok, Call.exec_getOr_bind_eq_ok]

theorem exec_update_bind {key : Lore.Key} {relies : Lore.Reliance → Lore.Database → Bool} {write : key.Row → key.Row}
    {f : key.Row → Lore.Program Lore.Answer} :
    (Call.update relies key write >>= f).exec lore = .ok r ↔
      (f (write (lore key))).exec (Function.update lore key (write (lore key))) = .ok r := by
  rw [Call.exec_bind, Call.exec_update]
  rfl

/-- What is written to an entry at the end of an edit, which then answers with it. -/
theorem exec_written {entryId : Uuid} {entry : Lore.LoreEntry} {relies : Lore.Reliance → Lore.Database → Bool}
    {write : Lore.LoreEntry → Lore.LoreEntry} {answer : Lore.Answer} (hentry : lore (.entry entryId) = some entry)
    (h : (Call.update (ρ := Lore.Key.Row) relies (.entry entryId) (Option.map write) >>= fun _ =>
      Lore.loadEntry entryId (.database "Record not found") >>= fun written => pure (.entry written)).exec lore =
        .ok (answer, lore')) : lore' = Function.update lore (.entry entryId) (some (write entry)) := by
  rw [exec_update_bind, exec_loadEntry_bind, hentry] at h
  obtain ⟨written, -, h⟩ := h
  rw [Call.exec_pure_eq_ok] at h
  exact h.2.symm

end statements

/-- An edit with content gives its entry a new revision; without, revisions are as they were. -/
theorem exec_updateLoreEntry {revisionId : Uuid} {input : Lore.UpdateLoreEntryInput} {answer : Lore.Answer}
    (h : (Lore.updateLoreEntry wiki caller revisionId input).exec lore = .ok (answer, lore')) :
    if input.content.isSome then Revises lore lore' input.loreEntryId revisionId else SameRevisions lore lore' := by
  unfold Lore.updateLoreEntry Lore.requireLorePermission Lore.refuseIfPaused at h
  rw [Call.exec_require_bind_eq_ok, Call.exec_require_bind_eq_ok, exec_loadEntry_bind] at h
  obtain ⟨-, -, existing, hexisting, h⟩ := h
  rw [Call.exec_require_bind_eq_ok, Call.exec_read_bind_eq_ok] at h
  obtain ⟨-, h⟩ := h
  unfold Lore.newContent at h
  cases hcontent : input.content with
  | none =>
      rw [hcontent] at h
      have hlore := exec_written hexisting h
      rw [if_neg (by simp), hlore]
      refine ⟨fun id => ?_, fun id => by rw [Function.update_of_ne (by simp)]⟩
      by_cases hid : id = input.loreEntryId
      · subst hid
        simp [currentOf, hexisting]
      · simp [currentOf, Function.update_of_ne, hid]
  | some content =>
      rw [hcontent] at h
      dsimp only at h
      rw [bind_assoc, Call.exec_require_bind_eq_ok, bind_assoc, exec_insertRevision_bind] at h
      obtain ⟨-, hnew, h⟩ := h
      have hlore := exec_written (by rw [Function.update_of_ne (by simp), hexisting]) h
      rw [if_pos (by simp)]
      exact revises_insert hnew rfl hlore

/-- A restore gives the entry of its revision a new one. -/
theorem exec_restoreLoreRevision {revisionId newRevisionId : Uuid} {answer : Lore.Answer}
    (h : (Lore.restoreLoreRevision wiki caller revisionId newRevisionId).exec lore = .ok (answer, lore')) :
    ∃ revision, lore (.revision revisionId) = some revision ∧
      Revises lore lore' revision.loreEntryId newRevisionId := by
  unfold Lore.restoreLoreRevision Lore.requireLorePermission Lore.refuseIfPaused at h
  rw [Call.exec_read_bind_eq_ok, Call.exec_getOr_bind_eq_ok] at h
  obtain ⟨loreEntryId, hentry, h⟩ := h
  rw [Call.exec_require_bind_eq_ok, Call.exec_read_bind_eq_ok, Call.exec_getOr_bind_eq_ok] at h
  obtain ⟨-, target, htarget, h⟩ := h
  rw [exec_loadEntry_bind] at h
  obtain ⟨entry, hexisting, h⟩ := h
  rw [Call.exec_require_bind_eq_ok, exec_insertRevision_bind] at h
  obtain ⟨-, hnew, h⟩ := h
  rw [htarget] at hentry
  cases hentry
  have hlore := exec_written (by rw [Function.update_of_ne (by simp), hexisting]) h
  exact ⟨target, htarget, revises_insert hnew rfl hlore⟩

end operations

/-! What a decision does to the proposals. -/

/-- An undecided proposal is decided; the others are as they were. -/
structure Decides (review review' : Review) (change : PendingChange) (status : PendingStatus) : Prop where
  mem : change ∈ review.rows
  undecided : change.status = .pending
  rows : review'.rows = review.rows.map fun row => if row.id = change.id then { row with status } else row
  decisions : review'.decisions.map Decision.changeId = review.decisions.map Decision.changeId ++ [change.id]
  found : review'.found = review.found

section decisions

variable {review review' : Review} {gate : IncomingEnabled} {changeId user : Uuid} {change : PendingChange}
  {now : Instant}

theorem pending_eq_some (h : review.pending gate changeId = some change) :
    change ∈ review.rows ∧ change.id = changeId ∧ change.status = .pending := by
  unfold Review.pending at h
  have hmet := List.find?_some h
  rw [decide_eq_true_eq] at hmet
  exact ⟨List.mem_of_find?_eq_some h, hmet.1, hmet.2.2⟩

theorem decides_decide {status : PendingStatus} (lore : Lore.Database)
    (h : review.pending gate changeId = some change) :
    Decides review (Review.decide { review with lore } change.id status user now) change status := by
  obtain ⟨hmem, -, hundecided⟩ := pending_eq_some h
  refine ⟨hmem, hundecided, rfl, ?_, rfl⟩
  rw [Review.decide, List.map_append]
  rfl

theorem Decides.apply {status : PendingStatus} {revisionId : Uuid} {createdEntryId : Option Uuid}
    (h : Decides review review' change status) :
    Decides review (review'.apply change.id revisionId createdEntryId) change status := by
  refine ⟨h.mem, h.undecided, h.rows, ?_, h.found⟩
  rw [← h.decisions, Review.apply, List.map_map]
  apply List.map_congr_left
  intro decision _
  simp only [Function.comp_apply]
  split <;> rfl

theorem decline_ok (h : decline gate changeId user now review = .ok review') :
    ∃ change, review.pending gate changeId = some change ∧ Decides review review' change .declined ∧
      review'.lore = review.lore := by
  unfold decline at h
  cases hpending : review.pending gate changeId with
  | none =>
      rw [hpending] at h
      cases h
  | some change =>
      rw [hpending] at h
      cases h
      exact ⟨change, rfl, decides_decide review.lore hpending, rfl⟩

/-- The entry that an acceptance gives a new revision. -/
def Acceptance.revised : Acceptance → Option Uuid
  | .updated loreEntryId _ => some loreEntryId
  | .created loreEntryId _ => some loreEntryId
  | .deletionConfirmed _ => none

/-- What an acceptance is of. -/
def Acceptance.Of (change : PendingChange) : Acceptance → Prop
  | .updated loreEntryId _ => change.kind = .update ∧ change.loreEntryId = some loreEntryId
  | .created _ _ => change.kind = .newEntry
  | .deletionConfirmed _ => change.kind = .deletion

theorem writeRevision_ok {lore lore' : Lore.Database} {revisionId entryId : Uuid} {body : Text}
    (h : writeRevision lore revisionId entryId body user = .ok lore') :
    Revises lore (setContent lore' entryId revisionId body) entryId revisionId := by
  unfold writeRevision at h
  split_ifs at h with hold hmissing
  cases h
  cases hentry : lore (.entry entryId) with
  | none =>
      rw [hentry] at hmissing
      exact absurd rfl hmissing
  | some entry =>
      have hnew : lore (.revision revisionId) = none := by simpa using hold
      have hset (revision : Lore.LoreRevision) :
          setContent (Function.update lore (.revision revisionId) (some revision)) entryId revisionId body =
            Function.update (Function.update lore (.revision revisionId) (some revision)) (.entry entryId)
              (some { entry with content := String.ofList body, currentRevisionId := some revisionId }) := by
        rw [setContent, Function.update_of_ne (by simp), hentry]
        rfl
      exact revises_insert hnew rfl (hset _)

/-- An entry that is inserted first has the revision all the same. -/
theorem Revises.of_inserted {lore lore' : Lore.Database} {entryId revisionId : Uuid} {row : Option Lore.LoreEntry}
    (h : Revises (Function.update lore (.entry entryId) row) lore' entryId revisionId) :
    Revises lore lore' entryId revisionId := by
  have hsame (id : Uuid) : Function.update lore (.entry entryId) row (.revision id) = lore (.revision id) :=
    Function.update_of_ne (by simp) _ _
  refine ⟨(hsame revisionId).symm.trans h.new, fun id => by rw [h.stored, hsame], h.current, fun id hid => ?_⟩
  rw [h.others id hid, currentOf, Function.update_of_ne (by simpa using hid), currentOf]

theorem orMalformed_ok {β : Type} {value : Option β} {what : String} {result : β}
    (h : orMalformed value what = .ok result) : value = some result := by
  cases value with
  | none => cases h
  | some found => exact congrArg some (Except.ok.inj h)

/-- An acceptance decides an undecided proposal, and gives an entry its one new revision or none. -/
theorem accept_ok {wiki : Lore.Wiki} {revisionId newEntryId : Uuid} {acceptance : Acceptance}
    (h : accept wiki gate changeId user now revisionId newEntryId review = .ok (acceptance, review')) :
    ∃ change, review.pending gate changeId = some change ∧ acceptance.Of change ∧
      Decides review review' change .accepted ∧
        match acceptance.revised with
        | some entryId => Revises review.lore review'.lore entryId revisionId
        | none => review'.lore = review.lore := by
  unfold accept at h
  cases hpending : review.pending gate changeId with
  | none =>
      rw [hpending] at h
      cases h
  | some change =>
      rw [hpending] at h
      dsimp only at h
      refine ⟨change, rfl, ?_⟩
      cases hkind : change.kind with
      | deletion =>
          rw [hkind] at h
          obtain ⟨entryId, hentry, h⟩ := except_bind_eq_ok.mp h
          cases h
          exact ⟨hkind, decides_decide review.lore hpending, rfl⟩
      | update =>
          rw [hkind] at h
          obtain ⟨entryId, hentry, h⟩ := except_bind_eq_ok.mp h
          obtain ⟨body, hbody, h⟩ := except_bind_eq_ok.mp h
          obtain ⟨lore, hlore, h⟩ := except_bind_eq_ok.mp h
          cases h
          exact ⟨⟨hkind, orMalformed_ok hentry⟩, (decides_decide _ hpending).apply, writeRevision_ok hlore⟩
      | newEntry =>
          rw [hkind] at h
          obtain ⟨body, hbody, h⟩ := except_bind_eq_ok.mp h
          split_ifs at h with hold
          · cases h
          · obtain ⟨lore, hlore, h⟩ := except_bind_eq_ok.mp h
            cases h
            exact ⟨hkind, (decides_decide _ hpending).apply, (writeRevision_ok hlore).of_inserted⟩

end decisions

end ThunderForge.Mirror
