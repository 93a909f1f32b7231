import ThunderForge.Lore.Entry

/-! The content of lore entries under edits and restores at the same time. The expected revision is compared
with an entry that was read without a lock and the entry is written whole, so an edit can undo another; that
an entry's content is the text of its current revision holds in every run. -/

namespace ThunderForge.Lore

open ReadCommitted

inductive RevisionOperation where
  | updateLoreEntry (caller : Caller) (revisionId : Uuid) (input : UpdateLoreEntryInput)
  | restoreLoreRevision (caller : Caller) (revisionId newRevisionId : Uuid)

def RevisionOperation.program (wiki : Wiki) : RevisionOperation → Program Answer
  | updateLoreEntry caller revisionId input => Lore.updateLoreEntry wiki caller revisionId input
  | restoreLoreRevision caller revisionId newRevisionId =>
    Lore.restoreLoreRevision wiki caller revisionId newRevisionId

/-- The text of a revision; `unrevised` is the text of an entry that has none. -/
def textOf (unrevised : Uuid → String) (db : Database) (id : Uuid) : Option Uuid → Option String
  | none => some (unrevised id)
  | some revisionId => (db (.revision revisionId)).map (·.contentMarkdown)

/-- The content of each entry is the text of its current revision. -/
def TextsOfRevisions (unrevised : Uuid → String) (db : Database) : Prop :=
  ∀ id entry, db (.entry id) = some entry → textOf unrevised db id entry.currentRevisionId = some entry.content

/-- What a call may do to the entry it is about: with content, only to the revision it expected; without, to
neither the content nor the current revision. -/
def RevisionOperation.Edited (operation : RevisionOperation) (before after : Database) : Prop :=
  match operation with
  | updateLoreEntry _ _ input =>
    if input.content.isSome then
      (before (.entry input.loreEntryId)).map (·.currentRevisionId) = some input.expectedCurrentRevisionId
    else
      (after (.entry input.loreEntryId)).map (fun entry => (entry.content, entry.currentRevisionId)) =
        (before (.entry input.loreEntryId)).map fun entry => (entry.content, entry.currentRevisionId)
  | restoreLoreRevision .. => True

instance (operation : RevisionOperation) (before after : Database) : Decidable (operation.Edited before after) :=
  match operation with
  | .updateLoreEntry _ _ input =>
    inferInstanceAs (Decidable (if input.content.isSome then
      (before (.entry input.loreEntryId)).map (·.currentRevisionId) = some input.expectedCurrentRevisionId
    else
      (after (.entry input.loreEntryId)).map (fun entry => (entry.content, entry.currentRevisionId)) =
        (before (.entry input.loreEntryId)).map fun entry => (entry.content, entry.currentRevisionId)))
  | .restoreLoreRevision .. => inferInstanceAs (Decidable True)

/-- Revisions stay as they are. -/
def RevisionsStay (db db' : Database) : Prop :=
  ∀ revisionId revision, db (.revision revisionId) = some revision → db' (.revision revisionId) = some revision

/-- What a call has done by its commit, and to what entry when it was told what it relies on. -/
structure EditStep (unrevised : Uuid → String) (kinds : List Reliance) (operation : RevisionOperation)
    (writes : Writes Key.Row) (db : Database) : Prop where
  texts : TextsOfRevisions unrevised (overlay writes db)
  stay : RevisionsStay db (overlay writes db)
  edited : .revisionAsRead ∈ kinds → operation.Edited db (overlay writes db)

section

variable {unrevised : Uuid → String} {db db' db'' : Database} {writes : Writes Key.Row}

theorem RevisionsStay.trans (h : RevisionsStay db db') (h' : RevisionsStay db' db'') : RevisionsStay db db'' :=
  fun revisionId revision hrevision => h' revisionId revision (h revisionId revision hrevision)

/-- A text that was there is there later. -/
theorem RevisionsStay.textOf (h : RevisionsStay db db') {id : Uuid} {revisionId : Option Uuid} {text : String}
    (htext : textOf unrevised db id revisionId = some text) : textOf unrevised db' id revisionId = some text := by
  cases revisionId with
  | none => exact htext
  | some revisionId =>
      obtain ⟨revision, hrevision, htext⟩ := Option.map_eq_some_iff.mp htext
      rw [Lore.textOf, h revisionId revision hrevision, Option.map_some, htext]

/-- Rows of revisions are written only when there were none. -/
theorem stay_of_new (hnew : ∀ revisionId, (writes (.revision revisionId)).isSome → db (.revision revisionId) = none) :
    RevisionsStay db (overlay writes db) := by
  intro revisionId revision hrevision
  cases hrow : writes (.revision revisionId) with
  | none => exact (overlay_of_none hrow).trans hrevision
  | some row =>
      rw [hnew revisionId (by rw [hrow]; rfl)] at hrevision
      cases hrevision

/-- One entry is written, with a text that is that of the revision it names. -/
theorem texts_of_edit {entryId : Uuid} {row : Option LoreEntry} (htexts : TextsOfRevisions unrevised db)
    (hstay : RevisionsStay db (overlay writes db)) (hentries : ∀ id, writes (.entry id) = none)
    (hrow : ∀ entry, row = some entry →
      textOf unrevised (overlay writes db) entryId entry.currentRevisionId = some entry.content) :
    TextsOfRevisions unrevised (overlay (Function.update writes (.entry entryId) (some row)) db) := by
  have hsame (id : Uuid) (revisionId : Option Uuid) :
      textOf unrevised (overlay (Function.update writes (.entry entryId) (some row)) db) id revisionId =
        textOf unrevised (overlay writes db) id revisionId := by
    cases revisionId with
    | none => rfl
    | some revisionId => rw [textOf, overlay_update, Function.update_of_ne (by simp), textOf]
  intro id entry hentry
  rw [hsame]
  by_cases hid : id = entryId
  · subst hid
    rw [overlay_update, Function.update_self] at hentry
    exact hrow entry hentry
  · rw [overlay_update, Function.update_of_ne (by simpa using hid), overlay_of_none (hentries id)] at hentry
    exact hstay.textOf (htexts id entry hentry)

end

section

variable (unrevised : Uuid → String) (kinds : List Reliance) {n : Nat} (operations : Fin n → RevisionOperation)

/-- Revisions stay as they are, and the texts of the entries are those of their revisions. -/
def editDiscipline : Discipline n Key.Row Answer where
  valid := TextsOfRevisions unrevised
  rely _ := RevisionsStay
  post i writes db _ := EditStep unrevised kinds (operations i) writes db
  refl _ _ _ _ h := h
  trans := RevisionsStay.trans
  keeps _ hpost := hpost.texts
  guarantees _ _ hpost := hpost.stay

def editReliance : List Reliance := [.revisionAsRead]

/-- An operation is safe from the start. -/
def SafeRevisionOperation (operation : RevisionOperation) : Prop :=
  ∀ wiki db, TextsOfRevisions unrevised db → Safe (editDiscipline unrevised kinds operations) kinds
    (fun writes db _ => EditStep unrevised kinds operation writes db) (operation.program wiki) (fun _ => none) db

variable {unrevised kinds operations} {operation : RevisionOperation} {db db' : Database} {writes : Writes Key.Row}

/-- A call that has written no entry yet ends with the write of one. -/
theorem write_safe {entryId : Uuid} {g : LoreEntry → LoreEntry} {relies : Reliance → Database → Bool}
    {error : LoreError} (hentries : ∀ id, writes (.entry id) = none)
    (hnew : ∀ revisionId, (writes (.revision revisionId)).isSome → db (.revision revisionId) = none)
    (htext : ∀ db', (editDiscipline unrevised kinds operations).Later writes db db' → ∀ entry,
      textOf unrevised (overlay writes db') entryId (g entry).currentRevisionId = some (g entry).content)
    (hedited : ∀ db', (editDiscipline unrevised kinds operations).Later writes db db' → ∀ entry,
      db' (.entry entryId) = some entry → .revisionAsRead ∈ kinds → relies .revisionAsRead (overlay writes db') →
      ∀ before after : Database, before (.entry entryId) = some entry →
        after (.entry entryId) = some (g entry) → operation.Edited before after) :
    Safe (editDiscipline unrevised kinds operations) kinds
      (fun writes db _ => EditStep unrevised kinds operation writes db) (do
        let _ ← Call.update (ρ := Key.Row) relies (.entry entryId) (·.map g)
        let entry ← loadEntry entryId error
        pure (Answer.entry entry)) writes db := by
  unfold loadEntry
  simp only [bind_assoc]
  refine Safe.update_bind fun db₁ h₁ hrelied => Safe.read_bind fun db₂ h₂ => Safe.getOr_bind fun written hwritten =>
    Safe.pure fun db' hlater => ?_
  rw [overlay_of_none (hentries entryId)] at h₂ hlater hwritten ⊢
  rw [overlay_update, Function.update_self] at hwritten
  obtain ⟨entry, hentry, -⟩ := Option.map_eq_some_iff.mp hwritten
  have hentry' : db' (.entry entryId) = some entry := by
    rw [(h₂.trans hlater).held (.entry entryId) (by simp), hentry]
  have hafter : (editDiscipline unrevised kinds operations).Later writes db db' :=
    h₁.trans ((h₂.trans hlater).of_update (h₂.rely.trans hlater.rely))
  have hnew' (revisionId : Uuid) (hwrites : (writes (.revision revisionId)).isSome) :
      db' (.revision revisionId) = none := (hafter.held _ hwrites).trans (hnew revisionId hwrites)
  constructor
  · refine texts_of_edit hafter.valid (stay_of_new hnew') hentries fun entry' hrow => ?_
    rw [hentry, Option.map_some] at hrow
    obtain rfl := Option.some.inj hrow
    exact htext db' hafter entry
  · refine stay_of_new fun revisionId hwrites => hnew' revisionId ?_
    rwa [Function.update_of_ne (by simp)] at hwrites
  · intro hkind
    refine hedited db₁ h₁ entry hentry hkind (hrelied .revisionAsRead hkind) _ _ hentry' ?_
    rw [overlay_update, Function.update_self, hentry]
    rfl

/-- The text of a revision just inserted. -/
theorem textOf_inserted {revisionId id : Uuid} {revision : LoreRevision} :
    textOf unrevised (overlay (Function.update writes (.revision revisionId) (some (some revision))) db) id
      (some revisionId) = some revision.contentMarkdown := by
  rw [textOf, overlay_update, Function.update_self]
  rfl

theorem new_of_inserted {revisionId id : Uuid} {revision : LoreRevision} (hnew : db (.revision revisionId) = none)
    (hid : (Function.update (fun _ => none : Writes Key.Row) (.revision revisionId) (some (some revision))
      (.revision id)).isSome) : db (.revision id) = none := by
  by_cases hsame : id = revisionId
  · rwa [hsame]
  · rw [Function.update_of_ne (by simpa using hsame)] at hid
    cases hid

/-- Entries read at the same revision have the same content. -/
theorem content_of_revision {id : Uuid} {entry entry' : LoreEntry} (htexts : TextsOfRevisions unrevised db)
    (htexts' : TextsOfRevisions unrevised db') (hstay : RevisionsStay db db') (hentry : db (.entry id) = some entry)
    (hentry' : db' (.entry id) = some entry') (hsame : entry'.currentRevisionId = entry.currentRevisionId) :
    entry'.content = entry.content := by
  have hold := hstay.textOf (htexts id entry hentry)
  have hnew := htexts' id entry' hentry'
  rw [hsame, hold] at hnew
  exact (Option.some.inj hnew).symm

theorem updateLoreEntry_safe (caller : Caller) (revisionId : Uuid) (input : UpdateLoreEntryInput) :
    SafeRevisionOperation unrevised kinds operations (.updateLoreEntry caller revisionId input) := by
  intro wiki db _
  unfold RevisionOperation.program updateLoreEntry requireLorePermission refuseIfPaused
  refine Safe.require_bind fun _ => Safe.require_bind fun _ => ?_
  rw [loadEntry, bind_assoc]
  refine Safe.read_bind fun db₁ h₁ => Safe.getOr_bind fun existing hexisting => Safe.require_bind fun _ =>
    Safe.read_bind fun db₂ h₂ => ?_
  unfold newContent
  cases hcontent : input.content with
  | none =>
      refine write_safe (fun _ => rfl) (fun _ h => by cases h) (fun db₃ h₃ entry => ?_)
        fun db₃ h₃ entry hentry _ hread before after hbefore hafter => ?_
      · exact (h₂.rely.trans h₃.rely).textOf (h₁.valid _ existing hexisting)
      · have hsame : entry.currentRevisionId = existing.currentRevisionId := by simpa [hentry] using hread
        have htext : entry.content = existing.content :=
          content_of_revision h₁.valid h₃.valid (h₂.rely.trans h₃.rely) hexisting hentry hsame
        simp [RevisionOperation.Edited, hcontent, hbefore, hafter, hsame, htext]
  | some content =>
      simp only [bind_assoc]
      refine Safe.require_bind fun hexpected => insertRevision_bind fun db₃ h₃ hnew => ?_
      refine write_safe (fun _ => rfl) (fun id hid => ?_) (fun db₄ _ entry => textOf_inserted)
        fun db₄ h₄ entry hentry _ hread before after hbefore hafter => ?_
      · exact new_of_inserted hnew hid
      · have hsame : entry.currentRevisionId = existing.currentRevisionId := by simpa [hentry] using hread
        simp [RevisionOperation.Edited, hcontent, hbefore, hsame, hexpected]

theorem restoreLoreRevision_safe (caller : Caller) (revisionId newRevisionId : Uuid) :
    SafeRevisionOperation unrevised kinds operations (.restoreLoreRevision caller revisionId newRevisionId) := by
  intro wiki db _
  unfold RevisionOperation.program restoreLoreRevision requireLorePermission refuseIfPaused
  refine Safe.read_bind fun db₁ h₁ => Safe.getOr_bind fun loreEntryId _ => Safe.require_bind fun _ =>
    Safe.read_bind fun db₂ h₂ => Safe.getOr_bind fun target _ => ?_
  unfold loadEntry
  rw [bind_assoc]
  refine Safe.read_bind fun db₃ h₃ => Safe.getOr_bind fun entry _ => Safe.require_bind fun _ =>
    insertRevision_bind fun db₄ h₄ hnew => ?_
  exact write_safe (fun _ => rfl) (fun id hid => new_of_inserted hnew hid) (fun db₅ _ entry => textOf_inserted)
    fun _ _ _ _ _ _ _ _ _ _ => trivial

theorem RevisionOperation.safe (operation : RevisionOperation) :
    SafeRevisionOperation unrevised kinds operations operation := by
  cases operation with
  | updateLoreEntry caller revisionId input => exact updateLoreEntry_safe caller revisionId input
  | restoreLoreRevision caller revisionId newRevisionId => exact restoreLoreRevision_safe caller revisionId newRevisionId

end

section run

variable (wiki : Wiki) {n : Nat} (operations : Fin n → RevisionOperation) (first : Database)

/-- The edits after some actions. -/
def editsAfter (actions : List (Action n)) : System n Key.Row Reliance LoreError Answer :=
  Run.run step (System.start (fun i => (operations i).program wiki) first) actions

/-- After every commit of a run the content of each entry is the text of its current revision, and each call
has edited only what it may. -/
structure EditsKept (unrevised : Uuid → String) (actions : List (Action n)) : Prop where
  texts : ∀ commit ∈ (editsAfter wiki operations first actions).commits,
    TextsOfRevisions unrevised (overlay commit.writes commit.before)
  edited : ∀ commit ∈ (editsAfter wiki operations first actions).commits,
    (operations commit.call).Edited commit.before (overlay commit.writes commit.before)

variable {unrevised : Uuid → String} (hfirst : TextsOfRevisions unrevised first) (actions : List (Action n))
include hfirst

theorem edits_sound {kinds : List Reliance}
    (hmeets : Run.Meets step (Relied kinds) (System.start (fun i => (operations i).program wiki) first) actions) :
    Sound (editDiscipline unrevised kinds operations) kinds first (editsAfter wiki operations first actions) :=
  Sound.run hfirst (fun i => (operations i).safe wiki first hfirst) hmeets

/-- In every run the content of each entry is the text of its current revision. -/
theorem texts_of_run : TextsOfRevisions unrevised (editsAfter wiki operations first actions).db :=
  (edits_sound wiki operations first hfirst actions (.of_forall relied_nil _ _)).valid

/-- No edit is overwritten unseen in a run in which the entry an update writes is still at the revision at
which it was read. -/
theorem lore_edits_kept
    (hmeets : Run.Meets step (Relied editReliance)
      (System.start (fun i => (operations i).program wiki) first) actions) :
    EditsKept wiki operations first unrevised actions := by
  have hsound := edits_sound wiki operations first hfirst actions hmeets
  have hstep (commit) (hcommit : commit ∈ (editsAfter wiki operations first actions).commits) :
      EditStep unrevised editReliance (operations commit.call) commit.writes commit.before :=
    (hsound.history.of_mem hcommit).2
  exact ⟨fun commit hcommit => (hstep commit hcommit).texts,
    fun commit hcommit => (hstep commit hcommit).edited (by simp [editReliance])⟩

end run

/-- An entry at its first revision. -/
def firstRevision : Database
  | .entry id =>
    if id = 1 then some
      { worldId := 0, title := "entry", slug := "entry", content := "first", currentRevisionId := some 10,
        parentId := none }
    else none
  | .revision id =>
    if id = 10 then some
      { loreEntryId := 1, contentMarkdown := "first", authorId := 100, restoredFromRevisionId := none }
    else none
  | .tree _ => ()

theorem firstRevision_texts : TextsOfRevisions (fun _ => "") firstRevision := by
  intro id entry hentry
  simp only [firstRevision] at hentry
  split_ifs at hentry
  obtain rfl := Option.some.inj hentry
  rfl

/-- Two edits of the first revision. -/
def twoEdits : Fin 2 → RevisionOperation
  | 0 => .updateLoreEntry loreKeeper 11
    { loreEntryId := 1, title := none, content := some "second", expectedCurrentRevisionId := some 10 }
  | 1 => .updateLoreEntry loreKeeper 12
    { loreEntryId := 1, title := none, content := some "other", expectedCurrentRevisionId := some 10 }

/-- The second edit comes after the first, and is refused. -/
theorem one_edit_after_another : EditsKept smallWiki twoEdits firstRevision (fun _ => "")
    (List.replicate 6 (.step 0) ++ List.replicate 3 (.step 1)) :=
  lore_edits_kept smallWiki twoEdits firstRevision firstRevision_texts _ (by decide +kernel)

/-- Both edits read the entry before either is written. -/
theorem edit_overwritten : ¬EditsKept smallWiki twoEdits firstRevision (fun _ => "")
    (List.replicate 3 (.step 0) ++ List.replicate 3 (.step 1) ++ List.replicate 3 (.step 0) ++
      List.replicate 3 (.step 1)) := by
  intro h
  exact absurd h.edited (by decide +kernel)

end ThunderForge.Lore
