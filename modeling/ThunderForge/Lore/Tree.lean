import ThunderForge.Lib.Forest
import ThunderForge.Lore.Entry

/-! The tree of lore entries under creates, moves and deletions at the same time. A move reads the tree
under the lock of its world; a deletion reads its entry's parent before it takes the lock, so the tree
stays a forest in the runs in which that parent is as it was read. -/

namespace ThunderForge.Lore

open ReadCommitted

inductive TreeOperation where
  | createLoreEntry (caller : Caller) (entryId revisionId : Uuid) (input : CreateLoreEntryInput)
  | moveLoreEntry (caller : Caller) (entryId : Uuid) (parentId : Option Uuid)
  | deleteLoreEntry (caller : Caller) (entryId : Uuid)

def TreeOperation.program (wiki : Wiki) : TreeOperation → Program Answer
  | createLoreEntry caller entryId revisionId input => Lore.createLoreEntry wiki caller entryId revisionId input
  | moveLoreEntry caller entryId parentId => Lore.moveLoreEntry wiki caller entryId parentId
  | deleteLoreEntry caller entryId => Lore.deleteLoreEntry wiki caller entryId

/-- A new entry gets an id of its world; no id is used in two worlds. -/
def TreeOperation.Registered (wiki : Wiki) (worldOf : Uuid → Uuid) : TreeOperation → Prop
  | createLoreEntry _ entryId _ input => entryId ∈ wiki.entryIds ∧ worldOf entryId = input.worldId
  | moveLoreEntry _ _ _ | deleteLoreEntry _ _ => True

/-- The entries of each world form a forest. -/
structure LoreForest (wiki : Wiki) (worldOf : Uuid → Uuid) (db : Database) : Prop where
  worlds : ∀ id entry, db (.entry id) = some entry → entry.worldId = worldOf id
  known : ∀ id, (db (.entry id)).isSome → id ∈ wiki.entryIds
  parents : ∀ id parentId, parentOf db id = some parentId →
    (db (.entry parentId)).isSome ∧ worldOf parentId = worldOf id
  acyclic : Forest.Acyclic (parentOf db)

/-- Each entry that is gone has left its children under the parent it had. -/
def LeavesChildren (before after : Database) : Prop :=
  ∀ id, (before (.entry id)).isSome → after (.entry id) = none →
    ∀ child, parentOf before child = some id → parentOf after child = parentOf before id

/-- What a call has done by its commit: other than to add a root, it has written entries of worlds whose
tree it holds. -/
structure TreeStep (wiki : Wiki) (worldOf : Uuid → Uuid) (writes : Writes Key.Row) (db : Database) : Prop where
  forest : LoreForest wiki worldOf (overlay writes db)
  locked : ∀ id row, writes (.entry id) = some row → (writes (.tree (worldOf id))).isSome ∨
    db (.entry id) = none ∧ ∃ entry, row = some entry ∧ entry.parentId = none
  children : LeavesChildren db (overlay writes db)

/-- While a call holds a tree, its entries stay as they are, and others appear only as roots. -/
def TreeHeld (worldOf : Uuid → Uuid) (writes : Writes Key.Row) (db db' : Database) : Prop :=
  ∀ id, (writes (.tree (worldOf id))).isSome →
    (∀ entry, db (.entry id) = some entry → db' (.entry id) = some entry) ∧
      (db (.entry id) = none → parentOf db' id = none)

section

variable {wiki : Wiki} {worldOf : Uuid → Uuid} {db db' db'' : Database} {writes : Writes Key.Row}

theorem LoreForest.congr (h : LoreForest wiki worldOf db) (hsame : ∀ id, db' (.entry id) = db (.entry id)) :
    LoreForest wiki worldOf db' := by
  have hparent : parentOf db' = parentOf db := by
    funext id
    rw [parentOf, parentOf, hsame]
  constructor
  · simpa only [hsame] using h.worlds
  · simpa only [hsame] using h.known
  · simpa only [hsame, hparent] using h.parents
  · simpa only [hparent] using h.acyclic

theorem overlay_entry (hentries : ∀ id, writes (.entry id) = none) (id : Uuid) :
    overlay writes db (.entry id) = db (.entry id) := overlay_of_none (hentries id)

theorem TreeStep.idle (h : LoreForest wiki worldOf db) (hentries : ∀ id, writes (.entry id) = none) :
    TreeStep wiki worldOf writes db where
  forest := h.congr (overlay_entry hentries)
  locked id row hrow := by simp [hentries id] at hrow
  children id hid hgone := by
    rw [overlay_entry hentries] at hgone
    simp [hgone] at hid

theorem TreeHeld.refl (writes : Writes Key.Row) (db : Database) : TreeHeld worldOf writes db db := by
  intro id _
  refine ⟨fun _ h => h, fun h => ?_⟩
  rw [parentOf, h]
  rfl

theorem TreeHeld.trans (h : TreeHeld worldOf writes db db') (h' : TreeHeld worldOf writes db' db'') :
    TreeHeld worldOf writes db db'' := by
  intro id hheld
  obtain ⟨hkept, hroot⟩ := h id hheld
  obtain ⟨hkept', hroot'⟩ := h' id hheld
  refine ⟨fun entry hentry => hkept' entry (hkept entry hentry), fun hnone => ?_⟩
  have hmid := hroot hnone
  cases hentry : db' (.entry id) with
  | none => exact hroot' hentry
  | some entry =>
      rw [parentOf, hkept' entry hentry]
      rwa [parentOf, hentry] at hmid

/-- A commit does to the others' trees only what they can rely on. -/
theorem TreeStep.held {others : Writes Key.Row} (h : TreeStep wiki worldOf writes db)
    (hdisjoint : ∀ k, (writes k).isSome → others k = none) :
    TreeHeld worldOf others db (overlay writes db) := by
  intro id hheld
  cases hrow : writes (.entry id) with
  | none =>
      have hsame : overlay writes db (.entry id) = db (.entry id) := overlay_of_none hrow
      refine ⟨fun entry hentry => hsame.trans hentry, fun hnone => ?_⟩
      rw [parentOf, hsame, hnone]
      rfl
  | some row =>
      rcases h.locked id row hrow with hlocked | ⟨hnew, entry, rfl, hroot⟩
      · rw [hdisjoint _ hlocked] at hheld
        cases hheld
      · refine ⟨fun entry' hentry' => ?_, fun _ => ?_⟩
        · rw [hnew] at hentry'
          cases hentry'
        · rw [parentOf, overlay, hrow]
          exact hroot

end

section

variable (wiki : Wiki) (worldOf : Uuid → Uuid) (n : Nat)

/-- The entries stay a forest, and the holder of a tree finds it as it left it. -/
def treeDiscipline : Discipline n Key.Row Answer where
  valid := LoreForest wiki worldOf
  rely := TreeHeld worldOf
  post _ writes db _ := TreeStep wiki worldOf writes db
  refl := TreeHeld.refl
  trans := TreeHeld.trans
  keeps _ hpost := hpost.forest
  guarantees hdisjoint _ hpost := hpost.held hdisjoint

def treeReliance : List Reliance := [.parentAsRead]

variable {wiki worldOf n} {db db' : Database} {writes : Writes Key.Row}

theorem parentOf_of_later {id : Uuid} (hlater : (treeDiscipline wiki worldOf n).Later writes db db')
    (hlocked : (writes (.tree (worldOf id))).isSome) : parentOf db' id = parentOf db id := by
  obtain ⟨hkept, hroot⟩ := hlater.rely id hlocked
  cases hentry : db (.entry id) with
  | none =>
      rw [hroot hentry, parentOf, hentry]
      rfl
  | some entry => rw [parentOf, parentOf, hkept entry hentry, hentry]

theorem later_of_entry {id : Uuid} {row : Option LoreEntry}
    (h : (treeDiscipline wiki worldOf n).Later (Function.update writes (.entry id) (some row)) db db') :
    (treeDiscipline wiki worldOf n).Later writes db db' :=
  h.of_update fun id' hlocked => h.rely id' (by rwa [Function.update_of_ne (by simp)])

/-- What is reached from an entry whose tree is held was reached before. -/
theorem reaches_of_later {id target : Uuid} (hlater : (treeDiscipline wiki worldOf n).Later writes db db')
    (hvalid : LoreForest wiki worldOf db) (hlocked : (writes (.tree (worldOf id))).isSome)
    (h : Forest.Reaches (parentOf db') id target) : Forest.Reaches (parentOf db) id target := by
  induction h using Relation.ReflTransGen.head_induction_on with
  | refl => exact .refl
  | @head current next hstep _ ih =>
      have hstep' : parentOf db current = some next := (parentOf_of_later hlater hlocked).symm.trans hstep
      have hworld := (hvalid.parents current next hstep').2
      exact .head hstep' (ih (by rwa [hworld]))

theorem parentOf_overlay (hentries : ∀ id, writes (.entry id) = none) : parentOf (overlay writes db) = parentOf db := by
  funext id
  rw [parentOf, parentOf, overlay_entry hentries]

section programs

variable {α : Type} {post : Writes Key.Row → Database → α → Prop}

/-- A climb that does not meet the entry has found it not to be above where it began. -/
theorem climb_safe {entryId worldId : Uuid} (hentries : ∀ id, writes (.entry id) = none)
    (hlocked : (writes (.tree worldId)).isSome) (steps : Nat) (cursor : Option Uuid)
    (hcursor : ∀ current, cursor = some current → worldOf current = worldId) :
    Safe (treeDiscipline wiki worldOf n) treeReliance
      (fun writes' db' cycle => writes' = writes ∧ (treeDiscipline wiki worldOf n).Later writes db db' ∧
        (cycle = false → ∀ current, cursor = some current → ¬Forest.Reaches (parentOf db') current entryId))
      (climb entryId steps cursor) writes db := by
  induction steps generalizing cursor db with
  | zero => exact fun db' hlater => ⟨rfl, hlater, fun hcycle => by cases hcycle⟩
  | succ steps ih =>
      cases cursor with
      | none => exact fun db' hlater => ⟨rfl, hlater, fun _ _ h => by cases h⟩
      | some current =>
          unfold climb
          split_ifs with hmet
          · exact fun db' hlater => ⟨rfl, hlater, fun hcycle => by cases hcycle⟩
          · refine Safe.read_bind fun db₁ h₁ => ?_
            have hworld := hcursor current rfl
            refine (ih _ fun next hnext => ?_).mono fun writes' db' cycle hclimb => ?_
            · rw [parentOf_overlay hentries] at hnext
              exact (h₁.valid.parents current next hnext).2.trans hworld
            · obtain ⟨hwrites, hlater, hclear⟩ := hclimb
              refine ⟨hwrites, h₁.trans hlater, fun hcycle current' hcurrent' hreach => ?_⟩
              obtain rfl := Option.some.inj hcurrent'
              rcases hreach.cases with hself | ⟨next, hnext, habove⟩
              · exact hmet hself
              · rw [parentOf_of_later hlater (by rwa [hworld])] at hnext
                exact hclear hcycle next (by rwa [parentOf_overlay hentries]) habove

/-- A parent that is checked under the lock is there, in the same world, and not below the entry. -/
theorem checkParent_bind {entryId : Uuid} {entry : LoreEntry} {parentId : Option Uuid} {f : Unit → Program α}
    (hvalid : LoreForest wiki worldOf db) (hentries : ∀ id, writes (.entry id) = none)
    (hlocked : (writes (.tree entry.worldId)).isSome)
    (hrest : ∀ db', (treeDiscipline wiki worldOf n).Later writes db db' → (∀ parent, parentId = some parent →
        (db' (.entry parent)).isSome ∧ worldOf parent = entry.worldId ∧
          ¬Forest.Reaches (parentOf db') parent entryId) →
      Safe (treeDiscipline wiki worldOf n) treeReliance post (f ()) writes db') :
    Safe (treeDiscipline wiki worldOf n) treeReliance post (checkParent entryId entry parentId >>= f) writes db := by
  cases parentId with
  | none => exact hrest db (.refl hvalid) (fun _ h => by cases h)
  | some parentId =>
      unfold checkParent loadEntry wouldCycle
      simp only [bind_assoc]
      refine Safe.read_bind fun db₁ h₁ => Safe.getOr_bind fun parent hparent => Safe.require_bind fun hworld => ?_
      rw [overlay_entry hentries] at hparent
      have hparentWorld : worldOf parentId = entry.worldId :=
        (h₁.valid.worlds parentId parent hparent).symm.trans hworld
      refine Safe.bind (climb_safe hentries hlocked maxAncestorWalk (some parentId) fun current hcurrent => by
        rwa [← Option.some.inj hcurrent]) h₁.valid fun writes' db₂ cycle _ hclimb => ?_
      obtain ⟨rfl, h₂, hclear⟩ := hclimb
      refine Safe.require_bind fun hcycle => hrest db₂ (h₁.trans h₂) fun parent' hparent' => ?_
      obtain rfl := Option.some.inj hparent'
      refine ⟨?_, hparentWorld, hclear hcycle parentId rfl⟩
      have hkept := (h₂.rely parentId (by rwa [hparentWorld])).1 parent hparent
      rw [hkept]
      rfl

theorem lockWorldTree_bind {worldId : Uuid} {f : Unit → Program α}
    (hrest : ∀ writes' db', LoreForest wiki worldOf db' → (∀ id, writes' (.entry id) = none) →
      (writes' (.tree worldId)).isSome →
      Safe (treeDiscipline wiki worldOf n) treeReliance post (f ()) writes' db') :
    Safe (treeDiscipline wiki worldOf n) treeReliance post (lockWorldTree worldId >>= f) (fun _ => none) db := by
  refine Safe.lock_bind fun db' hlater => hrest _ db' hlater.valid (fun id => record_of_notMem (by simp)) ?_
  rw [record_of_mem (by simp)]
  rfl

/-- Entries are given a parent that is there, or there are none to give it. -/
theorem setParent_bind {relies : Reliance → Database → Bool} {entries : Database → List Uuid}
    {parentId : Option Uuid} {f : Unit → Program α}
    (hrest : ∀ db', (treeDiscipline wiki worldOf n).Later writes db db' →
      (∀ kind ∈ treeReliance, relies kind (overlay writes db')) →
      (entries (overlay writes db') = [] ∨ parentExists parentId (overlay writes db') = true) →
      Safe (treeDiscipline wiki worldOf n) treeReliance post (f ())
        (record writes ((entries (overlay writes db')).map .entry) (reparented parentId (overlay writes db'))) db') :
    Safe (treeDiscipline wiki worldOf n) treeReliance post (setParent relies entries parentId >>= f) writes db := by
  rw [setParent, bind_assoc]
  intro db' hlater hrelied
  have hnext := hrest db' hlater hrelied
  refine Safe.require_bind fun hwritten => ?_
  rw [Bool.or_eq_true, List.isEmpty_iff] at hwritten
  have hrows : (if parentExists parentId (overlay writes db') then
      (entries (overlay writes db')).map Key.entry else []) = (entries (overlay writes db')).map .entry := by
    rcases hwritten with hempty | hexists
    · rw [hempty, List.map_nil, ite_self]
    · rw [if_pos hexists]
  beta_reduce
  rw [hrows]
  exact hnext hwritten

end programs

/-- A call has added one root, and written no other entry. -/
structure Added (worldOf : Uuid → Uuid) (entryId : Uuid) (writes : Writes Key.Row) (db : Database) : Prop where
  written : ∃ entry, writes (.entry entryId) = some (some entry) ∧ entry.parentId = none ∧
    entry.worldId = worldOf entryId
  new : db (.entry entryId) = none
  others : ∀ id, id ≠ entryId → writes (.entry id) = none

theorem Added.later {entryId : Uuid} (h : Added worldOf entryId writes db)
    (hlater : (treeDiscipline wiki worldOf n).Later writes db db') : Added worldOf entryId writes db' where
  written := h.written
  new := by
    obtain ⟨entry, hentry, -⟩ := h.written
    rw [hlater.held (.entry entryId) (by simp [hentry])]
    exact h.new
  others := h.others

theorem Added.revision {entryId revisionId : Uuid} {row : Option LoreRevision} (h : Added worldOf entryId writes db) :
    Added worldOf entryId (Function.update writes (.revision revisionId) (some row)) db where
  written := by
    obtain ⟨entry, hentry, hrest⟩ := h.written
    exact ⟨entry, by rwa [Function.update_of_ne (by simp)], hrest⟩
  new := h.new
  others id hid := by
    rw [Function.update_of_ne (by simp)]
    exact h.others id hid

/-- The entry added is written again, with its world and as a root. -/
theorem Added.rewrite {entryId : Uuid} {g : LoreEntry → LoreEntry} (h : Added worldOf entryId writes db)
    (hparent : ∀ entry, (g entry).parentId = entry.parentId) (hworld : ∀ entry, (g entry).worldId = entry.worldId) :
    Added worldOf entryId
      (Function.update writes (.entry entryId) (some ((overlay writes db (.entry entryId)).map g))) db where
  written := by
    obtain ⟨entry, hentry, hroot, hentryWorld⟩ := h.written
    refine ⟨g entry, ?_, (hparent entry).trans hroot, (hworld entry).trans hentryWorld⟩
    rw [Function.update_self, overlay, hentry]
    rfl
  new := h.new
  others id hid := by
    rw [Function.update_of_ne (by simpa using hid)]
    exact h.others id hid

theorem Added.step {entryId : Uuid} (h : Added worldOf entryId writes db) (hvalid : LoreForest wiki worldOf db)
    (hknown : entryId ∈ wiki.entryIds) : TreeStep wiki worldOf writes db := by
  obtain ⟨entry, hentry, hroot, hworld⟩ := h.written
  have hself : overlay writes db (.entry entryId) = some entry := by simp [overlay, hentry]
  have hothers (id : Uuid) (hid : id ≠ entryId) : overlay writes db (.entry id) = db (.entry id) :=
    overlay_of_none (h.others id hid)
  have hparent : parentOf (overlay writes db) = parentOf db := by
    funext id
    by_cases hid : id = entryId
    · subst hid
      rw [parentOf, parentOf, hself, h.new]
      exact hroot
    · rw [parentOf, parentOf, hothers id hid]
  have hkept (id : Uuid) (hid : (db (.entry id)).isSome) : overlay writes db (.entry id) = db (.entry id) := by
    refine hothers id ?_
    rintro rfl
    rw [h.new] at hid
    cases hid
  refine ⟨⟨fun id entry' hentry' => ?_, fun id hid => ?_, fun id parentId hid => ?_, ?_⟩, fun id row hrow => ?_,
    fun id hid hgone => ?_⟩
  · by_cases hid : id = entryId
    · subst hid
      obtain rfl := Option.some.inj (hself.symm.trans hentry')
      exact hworld
    · exact hvalid.worlds id entry' ((hothers id hid).symm.trans hentry')
  · by_cases hid' : id = entryId
    · rwa [hid']
    · rw [hothers id hid'] at hid
      exact hvalid.known id hid
  · rw [hparent] at hid
    obtain ⟨hthere, hsame⟩ := hvalid.parents id parentId hid
    exact ⟨by rwa [hkept parentId hthere], hsame⟩
  · rw [hparent]
    exact hvalid.acyclic
  · by_cases hid : id = entryId
    · subst hid
      exact .inr ⟨h.new, entry, Option.some.inj (hrow.symm.trans hentry), hroot⟩
    · rw [h.others id hid] at hrow
      cases hrow
  · rw [hkept id hid] at hgone
    rw [hgone] at hid
    cases hid

/-- An operation is safe from the start. -/
def SafeTreeOperation (wiki : Wiki) (worldOf : Uuid → Uuid) (n : Nat) (operation : TreeOperation) : Prop :=
  ∀ db, LoreForest wiki worldOf db → Safe (treeDiscipline wiki worldOf n) treeReliance
    (fun writes db _ => TreeStep wiki worldOf writes db) (operation.program wiki) (fun _ => none) db

theorem createLoreEntry_safe {caller : Caller} {entryId revisionId : Uuid} {input : CreateLoreEntryInput}
    (hregistered : (TreeOperation.createLoreEntry caller entryId revisionId input).Registered wiki worldOf) :
    SafeTreeOperation wiki worldOf n (.createLoreEntry caller entryId revisionId input) := by
  intro db _
  obtain ⟨hknown, hworld⟩ := hregistered
  unfold TreeOperation.program createLoreEntry
  simp only
  refine Safe.require_bind fun _ => Safe.require_bind fun _ => Safe.require_bind fun _ =>
    Safe.read_bind fun db₁ _ => ?_
  refine insertEntry_bind fun db₂ h₂ hnew => ?_
  have hadded₂ : Added worldOf entryId (Function.update (fun _ => none) (.entry entryId) (some (some
      { worldId := input.worldId, title := input.title,
        slug := wiki.uniqueSlugForWorld (overlay (fun _ => none) db₁) input.worldId input.title none,
        content := input.content.getD "", currentRevisionId := none, parentId := none }))) db₂ :=
    { written := ⟨_, Function.update_self .., rfl, hworld.symm⟩
      new := hnew
      others := fun id hid => Function.update_of_ne (by simpa using hid) _ _ }
  have hload (writes : Writes Key.Row) (db : Database) (hadded : Added worldOf entryId writes db) :
      Safe (treeDiscipline wiki worldOf n) treeReliance (fun writes db _ => TreeStep wiki worldOf writes db) (do
        let entry ← loadEntry entryId (.database "Record not found")
        pure (Answer.entry entry)) writes db := by
    unfold loadEntry
    rw [bind_assoc]
    refine Safe.read_bind fun db₃ h₃ => Safe.getOr_bind fun entry _ => Safe.pure fun db' hlater => ?_
    exact ((hadded.later h₃).later hlater).step hlater.valid hknown
  split_ifs with hcontent
  · refine insertRevision_bind fun db₃ h₃ _ => ?_
    refine Safe.update_bind fun db₄ h₄ _ => hload _ db₄ ?_
    exact ((hadded₂.later h₃).revision.later h₄).rewrite (fun _ => rfl) fun _ => rfl
  · exact hload _ db₂ hadded₂

/-- A move has written the entry with its new parent. -/
theorem moved_step {entryId : Uuid} {entry : LoreEntry} {parentId : Option Uuid}
    (hvalid : LoreForest wiki worldOf db) (hentries : ∀ id, writes (.entry id) = none)
    (hlocked : (writes (.tree (worldOf entryId))).isSome) (hentry : db (.entry entryId) = some entry)
    (hparent : ∀ parent, parentId = some parent → (db (.entry parent)).isSome ∧ worldOf parent = worldOf entryId ∧
      ¬Forest.Reaches (parentOf db) parent entryId) :
    TreeStep wiki worldOf
      (Function.update writes (.entry entryId) (some (some { entry with parentId }))) db := by
  have hself : overlay (Function.update writes (.entry entryId) (some (some { entry with parentId }))) db
      (.entry entryId) = some { entry with parentId } := by simp
  have hothers (id : Uuid) (hid : id ≠ entryId) :
      overlay (Function.update writes (.entry entryId) (some (some { entry with parentId }))) db (.entry id) =
        db (.entry id) := by
    rw [overlay_update, Function.update_of_ne (by simpa using hid), overlay_entry hentries]
  have hparents : parentOf
      (overlay (Function.update writes (.entry entryId) (some (some { entry with parentId }))) db) =
        Function.update (parentOf db) entryId parentId := by
    funext id
    by_cases hid : id = entryId
    · subst hid
      rw [parentOf, hself, Function.update_self]
      rfl
    · rw [parentOf, hothers id hid, Function.update_of_ne hid]
      rfl
  have hthere (id : Uuid) (hid : (db (.entry id)).isSome) :
      (overlay (Function.update writes (.entry entryId) (some (some { entry with parentId }))) db
        (.entry id)).isSome := by
    by_cases hid' : id = entryId
    · rw [hid', hself]
      rfl
    · rwa [hothers id hid']
  refine ⟨⟨fun id entry' hentry' => ?_, fun id hid => ?_, fun id parent hid => ?_, ?_⟩, fun id row hrow => ?_,
    fun id hid hgone => ?_⟩
  · by_cases hid : id = entryId
    · subst hid
      obtain rfl := Option.some.inj (hself.symm.trans hentry')
      exact hvalid.worlds id entry hentry
    · exact hvalid.worlds id entry' ((hothers id hid).symm.trans hentry')
  · by_cases hid' : id = entryId
    · rw [hid']
      exact hvalid.known entryId (by rw [hentry]; rfl)
    · rw [hothers id hid'] at hid
      exact hvalid.known id hid
  · rw [hparents] at hid
    by_cases hid' : id = entryId
    · subst hid'
      rw [Function.update_self] at hid
      obtain ⟨hthere', hworld, -⟩ := hparent parent hid
      exact ⟨hthere parent hthere', hworld⟩
    · rw [Function.update_of_ne hid'] at hid
      obtain ⟨hthere', hworld⟩ := hvalid.parents id parent hid
      exact ⟨hthere parent hthere', hworld⟩
  · rw [hparents]
    cases parentId with
    | none =>
        refine hvalid.acyclic.of_transGen fun a b hab => .single ?_
        by_cases ha : a = entryId
        · subst ha
          rw [Function.update_self] at hab
          cases hab
        · rwa [Function.update_of_ne ha] at hab
    | some parent => exact hvalid.acyclic.hang (hparent parent rfl).2.2
  · by_cases hid : id = entryId
    · subst hid
      left
      rwa [Function.update_of_ne (by simp)]
    · rw [Function.update_of_ne (by simpa using hid), hentries id] at hrow
      cases hrow
  · have hsome := hthere id hid
    rw [hgone] at hsome
    cases hsome

theorem moveLoreEntry_safe (caller : Caller) (entryId : Uuid) (parentId : Option Uuid) :
    SafeTreeOperation wiki worldOf n (.moveLoreEntry caller entryId parentId) := by
  intro db _
  unfold TreeOperation.program moveLoreEntry requireLorePermission loadEntry refuseIfPaused
  simp only [bind_assoc]
  refine Safe.require_bind fun _ => Safe.read_bind fun db₁ h₁ => Safe.getOr_bind fun entry hentry =>
    Safe.require_bind fun _ => ?_
  have hworld : entry.worldId = worldOf entryId := h₁.valid.worlds entryId entry hentry
  refine lockWorldTree_bind fun writes db₂ hvalid hentries hlocked => ?_
  refine checkParent_bind hvalid hentries hlocked fun db₃ h₃ hparent => ?_
  rw [hworld] at hlocked
  refine setParent_bind fun db₄ h₄ _ _ => Safe.read_bind fun db₅ h₅ => Safe.getOr_bind fun moved _ =>
    Safe.pure fun db' hlater => ?_
  have hview : overlay writes db₄ (.entry entryId) = db₄ (.entry entryId) := overlay_entry hentries entryId
  simp only [hview] at h₅ hlater ⊢
  cases hrow : db₄ (.entry entryId) with
  | none =>
      simp only [Option.isSome_none, Bool.false_eq_true, if_false, List.map_nil, record_nil]
      exact .idle hlater.valid hentries
  | some current =>
      have hrecord : record writes [.entry entryId] (reparented parentId (overlay writes db₄)) =
          Function.update writes (.entry entryId) (some (some { current with parentId })) := by
        rw [← record_singleton _ _ (overlay writes db₄)]
        funext k
        by_cases hk : k = .entry entryId
        · subst hk
          simp [record, reparented, hview, hrow]
        · simp [record, hk]
      simp only [hrow, Option.isSome_some, if_true, List.map_cons, List.map_nil, hrecord] at h₅ hlater ⊢
      have hlater' := h₅.trans hlater
      have hlocked' : (Function.update writes (.entry entryId) (some (some { current with parentId }))
          (.tree (worldOf entryId))).isSome := by rwa [Function.update_of_ne (by simp)]
      have hentry' : db' (.entry entryId) = some current := by
        rw [hlater'.held (.entry entryId) (by simp), hrow]
      refine moved_step hlater'.valid hentries hlocked hentry' fun parent hgiven => ?_
      obtain ⟨hthere, hparentWorld, hclear⟩ := hparent parent hgiven
      rw [hworld] at hparentWorld
      obtain ⟨row, hrow'⟩ := Option.isSome_iff_exists.mp hthere
      have hkept := (hlater'.rely parent (by rwa [hparentWorld])).1 row
        ((h₄.rely parent (by rwa [hparentWorld])).1 row hrow')
      refine ⟨by rw [hkept]; rfl, hparentWorld, fun hreach => hclear ?_⟩
      have hreach₄ := reaches_of_later hlater' h₄.valid (by rwa [hparentWorld]) hreach
      exact reaches_of_later h₄ h₃.valid (by rwa [hparentWorld]) hreach₄

/-- A deletion has taken the entry out from between its children and its parent. -/
structure TakenOut (worldOf : Uuid → Uuid) (entryId : Uuid) (parentId : Option Uuid) (writes : Writes Key.Row)
    (db : Database) : Prop where
  locked : (writes (.tree (worldOf entryId))).isSome
  gone : writes (.entry entryId) = some none
  children : ∀ id, parentOf db id = some entryId →
    writes (.entry id) = some ((db (.entry id)).map ({ · with parentId }))
  others : ∀ id, id ≠ entryId → parentOf db id ≠ some entryId → writes (.entry id) = none
  parent : ∀ id, parentOf db id = some entryId → parentOf db entryId = parentId

theorem LoreForest.parentOf_ne_self (h : LoreForest wiki worldOf db) (id : Uuid) : parentOf db id ≠ some id :=
  fun hself => h.acyclic id (.single hself)

theorem TakenOut.parentOf_overlay {entryId : Uuid} {parentId : Option Uuid}
    (h : TakenOut worldOf entryId parentId writes db) (id : Uuid) :
    parentOf (overlay writes db) id = if id = entryId then none
      else if parentOf db id = some entryId then parentOf db entryId else parentOf db id := by
  split_ifs with hself hchild
  · subst hself
    rw [parentOf, overlay, h.gone]
    rfl
  · rw [parentOf, overlay, h.children id hchild, h.parent id hchild]
    cases hrow : db (.entry id) with
    | none =>
        rw [parentOf, hrow] at hchild
        cases hchild
    | some entry => rfl
  · rw [parentOf, overlay_of_none (h.others id hself hchild)]
    rfl

theorem TakenOut.isSome_overlay {entryId : Uuid} {parentId : Option Uuid}
    (h : TakenOut worldOf entryId parentId writes db) {id : Uuid} (hid : id ≠ entryId) :
    (overlay writes db (.entry id)).isSome = (db (.entry id)).isSome := by
  by_cases hchild : parentOf db id = some entryId
  · rw [overlay, h.children id hchild]
    exact Option.isSome_map
  · rw [overlay_of_none (h.others id hid hchild)]

theorem TakenOut.step {entryId : Uuid} {parentId : Option Uuid} (h : TakenOut worldOf entryId parentId writes db)
    (hvalid : LoreForest wiki worldOf db) : TreeStep wiki worldOf writes db := by
  have hgone : overlay writes db (.entry entryId) = none := by
    rw [overlay, h.gone]
    rfl
  refine ⟨⟨fun id entry hentry => ?_, fun id hid => ?_, fun id parent hid => ?_, ?_⟩, fun id row hrow => ?_,
    fun id hid hgone' child hchild => ?_⟩
  · by_cases hchild : parentOf db id = some entryId
    · by_cases hself : id = entryId
      · rw [hself, hgone] at hentry
        cases hentry
      · rw [overlay, h.children id hchild] at hentry
        obtain ⟨before, hbefore, rfl⟩ := Option.map_eq_some_iff.mp hentry
        exact hvalid.worlds id before hbefore
    · by_cases hself : id = entryId
      · rw [hself, hgone] at hentry
        cases hentry
      · exact hvalid.worlds id entry ((overlay_of_none (h.others id hself hchild)).symm.trans hentry)
  · by_cases hself : id = entryId
    · rw [hself, hgone] at hid
      cases hid
    · rw [h.isSome_overlay hself] at hid
      exact hvalid.known id hid
  · rw [h.parentOf_overlay] at hid
    split_ifs at hid with hself hchild
    · obtain ⟨hthere, hworld⟩ := hvalid.parents entryId parent hid
      have hne : parent ≠ entryId := fun hsame => hvalid.parentOf_ne_self entryId (by rw [hid, hsame])
      exact ⟨by rwa [h.isSome_overlay hne], hworld.trans (hvalid.parents id entryId hchild).2⟩
    · obtain ⟨hthere, hworld⟩ := hvalid.parents id parent hid
      have hne : parent ≠ entryId := fun hsame => hchild (by rw [hid, hsame])
      exact ⟨by rwa [h.isSome_overlay hne], hworld⟩
  · refine hvalid.acyclic.bypass entryId fun id parent hid => ?_
    rw [h.parentOf_overlay] at hid
    split_ifs at hid with hself hchild
    · exact .inr ⟨hchild, hid⟩
    · exact .inl hid
  · left
    by_cases hself : id = entryId
    · rw [hself]
      exact h.locked
    · by_cases hchild : parentOf db id = some entryId
      · rw [← (hvalid.parents id entryId hchild).2]
        exact h.locked
      · rw [h.others id hself hchild] at hrow
        cases hrow
  · by_cases hself : id = entryId
    · subst hself
      have hne : child ≠ id := fun hsame => hvalid.parentOf_ne_self id (by rwa [hsame] at hchild)
      rw [h.parentOf_overlay, if_neg hne, if_pos hchild]
    · rw [← h.isSome_overlay hself, hgone'] at hid
      cases hid

theorem LoreForest.mem_childrenOf (h : LoreForest wiki worldOf db) {id child : Uuid} :
    child ∈ childrenOf wiki db id ↔ parentOf db child = some id := by
  simp only [childrenOf, List.mem_filter, decide_eq_true_eq, and_iff_right_iff_imp]
  intro hchild
  refine h.known child ?_
  cases hrow : db (.entry child) with
  | none =>
      rw [parentOf, hrow] at hchild
      cases hchild
  | some entry => rfl

theorem childrenOf_overlay (hentries : ∀ id, writes (.entry id) = none) (id : Uuid) :
    childrenOf wiki (overlay writes db) id = childrenOf wiki db id := by
  simp only [childrenOf, parentOf_overlay hentries]

/-- A deletion has handed the children of the entry on to its parent. -/
structure HandedOn (worldOf : Uuid → Uuid) (entryId : Uuid) (parentId : Option Uuid) (writes : Writes Key.Row)
    (db : Database) : Prop where
  locked : (writes (.tree (worldOf entryId))).isSome
  children : ∀ id, parentOf db id = some entryId →
    writes (.entry id) = some ((db (.entry id)).map ({ · with parentId }))
  others : ∀ id, parentOf db id ≠ some entryId → writes (.entry id) = none
  parent : ∀ id, parentOf db id = some entryId → parentOf db entryId = parentId

theorem HandedOn.later {entryId : Uuid} {parentId : Option Uuid} (h : HandedOn worldOf entryId parentId writes db)
    (hvalid : LoreForest wiki worldOf db) (hlater : (treeDiscipline wiki worldOf n).Later writes db db') :
    HandedOn worldOf entryId parentId writes db' := by
  have hchild (id : Uuid) : parentOf db' id = some entryId ↔ parentOf db id = some entryId := by
    constructor
    · intro hid
      rw [← hid, parentOf_of_later hlater]
      rw [← (hlater.valid.parents id entryId hid).2]
      exact h.locked
    · intro hid
      rw [← hid, parentOf_of_later hlater]
      rw [← (hvalid.parents id entryId hid).2]
      exact h.locked
  refine ⟨h.locked, fun id hid => ?_, fun id hid => h.others id (mt (hchild id).mpr hid), fun id hid => ?_⟩
  · have hrow := h.children id ((hchild id).mp hid)
    rw [hrow, hlater.held (.entry id) (by simp [hrow])]
  · rw [parentOf_of_later hlater h.locked]
    exact h.parent id ((hchild id).mp hid)

/-- No entry is left under the one whose children have been handed on. -/
theorem HandedOn.childrenOf {entryId : Uuid} {parentId : Option Uuid}
    (h : HandedOn worldOf entryId parentId writes db) (hvalid : LoreForest wiki worldOf db) :
    childrenOf wiki (overlay writes db) entryId = [] := by
  rw [Lore.childrenOf, List.filter_eq_nil_iff]
  intro id _ hid
  rw [decide_eq_true_eq, parentOf] at hid
  by_cases hchild : parentOf db id = some entryId
  · rw [overlay, h.children id hchild] at hid
    cases hrow : db (.entry id) with
    | none =>
        rw [hrow] at hid
        cases hid
    | some row =>
        rw [hrow] at hid
        exact hvalid.parentOf_ne_self entryId ((h.parent id hchild).trans hid)
  · rw [overlay_of_none (h.others id hchild)] at hid
    exact hchild hid

theorem HandedOn.takenOut {entryId : Uuid} {parentId : Option Uuid}
    (h : HandedOn worldOf entryId parentId writes db) (hvalid : LoreForest wiki worldOf db) :
    TakenOut worldOf entryId parentId (Function.update writes (.entry entryId) (some none)) db where
  locked := by
    rw [Function.update_of_ne (by simp)]
    exact h.locked
  gone := Function.update_self ..
  children id hid := by
    have hne : id ≠ entryId := fun hself => hvalid.parentOf_ne_self entryId (by rwa [hself] at hid)
    rw [Function.update_of_ne (by simpa using hne)]
    exact h.children id hid
  others id hne hid := by
    rw [Function.update_of_ne (by simpa using hne)]
    exact h.others id hid
  parent := h.parent

/-- When the entry is not there, no other had to be handed on. -/
theorem HandedOn.unwritten {entryId : Uuid} {parentId : Option Uuid}
    (h : HandedOn worldOf entryId parentId writes db) (hvalid : LoreForest wiki worldOf db)
    (hgone : db (.entry entryId) = none) (id : Uuid) : writes (.entry id) = none := by
  refine h.others id fun hchild => ?_
  have hthere := (hvalid.parents id entryId hchild).1
  rw [hgone] at hthere
  cases hthere

/-- The row of an entry is deleted when its children have been handed on, or was not there any more. -/
theorem HandedOn.deleteRow_bind {entryId : Uuid} {parentId : Option Uuid} {α : Type}
    {post : Writes Key.Row → Database → α → Prop} {f : Bool → Program α}
    (h : HandedOn worldOf entryId parentId writes db) (hvalid : LoreForest wiki worldOf db)
    (hdeleted : ∀ db', (treeDiscipline wiki worldOf n).Later writes db db' →
      Safe (treeDiscipline wiki worldOf n) treeReliance post (f true)
        (Function.update writes (.entry entryId) (some none)) db')
    (hgone : ∀ db', (treeDiscipline wiki worldOf n).Later writes db db' → db' (.entry entryId) = none →
      Safe (treeDiscipline wiki worldOf n) treeReliance post (f false) writes db') :
    Safe (treeDiscipline wiki worldOf n) treeReliance post (deleteRow wiki entryId >>= f) writes db := by
  intro db' hlater _
  have hlater' := h.later hvalid hlater
  have hview : overlay writes db' (.entry entryId) = db' (.entry entryId) :=
    overlay_of_none (hlater'.others entryId (hlater.valid.parentOf_ne_self entryId))
  beta_reduce
  rw [hview, hlater'.childrenOf hlater.valid, List.map_nil]
  cases hrow : db' (.entry entryId) with
  | none => exact hgone db' hlater hrow
  | some entry =>
      have hrest := hdeleted db' hlater
      rw [← record_singleton _ _ (reparented none (overlay writes db'))] at hrest
      exact hrest

theorem deleteLoreEntry_safe (caller : Caller) (entryId : Uuid) :
    SafeTreeOperation wiki worldOf n (.deleteLoreEntry caller entryId) := by
  intro db _
  unfold TreeOperation.program deleteLoreEntry requireLorePermission refuseIfPaused
  refine Safe.require_bind fun _ => Safe.read_bind fun db₁ h₁ => ?_
  cases hexisting : overlay (fun _ => none) db₁ (.entry entryId) with
  | none => exact Safe.pure fun db' hlater => .idle hlater.valid fun _ => rfl
  | some entry =>
      have hworld : entry.worldId = worldOf entryId := h₁.valid.worlds entryId entry hexisting
      refine Safe.require_bind fun _ => lockWorldTree_bind fun writes db₂ _ hentries hlocked => ?_
      rw [hworld] at hlocked
      refine setParent_bind fun db₃ h₃ hrelied hexists => ?_
      have hhanded : HandedOn worldOf entryId entry.parentId
          (record writes ((childrenOf wiki (overlay writes db₃) entryId).map .entry)
            (reparented entry.parentId (overlay writes db₃))) db₃ := by
        rw [childrenOf_overlay hentries] at hexists ⊢
        refine ⟨?_, fun id hid => ?_, fun id hid => ?_, fun id hid => ?_⟩
        · rwa [record_of_notMem (by simp)]
        · rw [record_of_mem (List.mem_map_of_mem (h₃.valid.mem_childrenOf.mpr hid)), reparented,
            overlay_entry hentries]
        · rw [record_of_notMem, hentries id]
          simpa [h₃.valid.mem_childrenOf] using hid
        · have hne : childrenOf wiki db₃ entryId ≠ [] := List.ne_nil_of_mem (h₃.valid.mem_childrenOf.mpr hid)
          have hread := hrelied .parentAsRead (by simp [treeReliance])
          rw [childrenOf_overlay hentries, parentOf_overlay hentries] at hread
          simpa [hne, hexists.resolve_left hne] using hread
      generalize record writes _ _ = handed at hhanded
      refine hhanded.deleteRow_bind h₃.valid (fun db₄ h₄ => Safe.pure fun db' hlater => ?_)
        fun db₄ h₄ hgone => Safe.pure fun db' hlater => ?_
      · have hhanded' := (hhanded.later h₃.valid h₄).later h₄.valid (later_of_entry hlater)
        exact (hhanded'.takenOut hlater.valid).step hlater.valid
      · exact .idle hlater.valid ((hhanded.later h₃.valid h₄).unwritten h₄.valid hgone)

end

theorem TreeOperation.safe {wiki : Wiki} {worldOf : Uuid → Uuid} {n : Nat} {operation : TreeOperation}
    (h : operation.Registered wiki worldOf) : SafeTreeOperation wiki worldOf n operation := by
  cases operation with
  | createLoreEntry caller entryId revisionId input => exact createLoreEntry_safe h
  | moveLoreEntry caller entryId parentId => exact moveLoreEntry_safe caller entryId parentId
  | deleteLoreEntry caller entryId => exact deleteLoreEntry_safe caller entryId

section run

variable (wiki : Wiki) {n : Nat} (operations : Fin n → TreeOperation) (first : Database)

/-- The calls on a tree after some actions. -/
def treeAfter (actions : List (Action n)) : System n Key.Row Reliance LoreError Answer :=
  Run.run step (System.start (fun i => (operations i).program wiki) first) actions

/-- After every commit of a run no entry is above itself, and the children of an entry deleted are under
the parent it had. -/
structure TreeKept (actions : List (Action n)) : Prop where
  acyclic : Forest.Acyclic (parentOf (treeAfter wiki operations first actions).db)
  commits : ∀ commit ∈ (treeAfter wiki operations first actions).commits,
    Forest.Acyclic (parentOf (overlay commit.writes commit.before)) ∧
      LeavesChildren commit.before (overlay commit.writes commit.before)

/-- The lore tree is kept in every run in which a deletion that hands children on hands them to the parent
its entry still has. -/
theorem lore_tree_kept {worldOf : Uuid → Uuid} (hfirst : LoreForest wiki worldOf first)
    (hregistered : ∀ i, (operations i).Registered wiki worldOf) (actions : List (Action n))
    (hmeets : Run.Meets step (Relied treeReliance)
      (System.start (fun i => (operations i).program wiki) first) actions) :
    TreeKept wiki operations first actions := by
  have hsound : Sound (treeDiscipline wiki worldOf n) treeReliance first (treeAfter wiki operations first actions) :=
    Sound.run hfirst (fun i => TreeOperation.safe (hregistered i) first hfirst) hmeets
  refine ⟨hsound.valid.acyclic, fun commit hcommit => ?_⟩
  have hstep : TreeStep wiki worldOf commit.writes commit.before := (hsound.history.of_mem hcommit).2
  exact ⟨hstep.forest.acyclic, hstep.children⟩

end run

def emptyEntry (title : String) (parentId : Option Uuid) : LoreEntry where
  worldId := 0
  title
  slug := title
  content := ""
  currentRevisionId := none
  parentId

/-- A child under an entry under a root. -/
def chain : Database
  | .entry id =>
    if id = 1 then some (emptyEntry "root" none)
    else if id = 2 then some (emptyEntry "entry" (some 1))
    else if id = 3 then some (emptyEntry "child" (some 2))
    else none
  | .revision _ => none
  | .tree _ => ()

/-- The entry is deleted, and made a root; the root is moved under the child. -/
def deletionAndMoves : Fin 3 → TreeOperation
  | 0 => .deleteLoreEntry loreKeeper 2
  | 1 => .moveLoreEntry loreKeeper 2 none
  | 2 => .moveLoreEntry loreKeeper 1 (some 3)

theorem chain_forest : LoreForest smallWiki (fun _ => 0) chain := by
  have hrows (id : Uuid) (entry : LoreEntry) (hentry : chain (.entry id) = some entry) :
      id = 1 ∧ entry = emptyEntry "root" none ∨ id = 2 ∧ entry = emptyEntry "entry" (some 1) ∨
        id = 3 ∧ entry = emptyEntry "child" (some 2) := by
    unfold chain at hentry
    simp only at hentry
    split_ifs at hentry with h₁ h₂ h₃
    · exact .inl ⟨h₁, (Option.some.inj hentry).symm⟩
    · exact .inr (.inl ⟨h₂, (Option.some.inj hentry).symm⟩)
    · exact .inr (.inr ⟨h₃, (Option.some.inj hentry).symm⟩)
  have hparent (id parentId : Uuid) (hid : parentOf chain id = some parentId) :
      id = 2 ∧ parentId = 1 ∨ id = 3 ∧ parentId = 2 := by
    obtain ⟨entry, hentry, hentryParent⟩ := Option.bind_eq_some_iff.mp hid
    obtain ⟨rfl, rfl⟩ | ⟨rfl, rfl⟩ | ⟨rfl, rfl⟩ := hrows id entry hentry
    · cases hentryParent
    · exact .inl ⟨rfl, (Option.some.inj hentryParent).symm⟩
    · exact .inr ⟨rfl, (Option.some.inj hentryParent).symm⟩
  refine ⟨fun id entry hentry => ?_, fun id hid => ?_, fun id parentId hid => ?_,
    .of_rank BitVec.toNat fun id parentId hid => ?_⟩
  · obtain ⟨-, rfl⟩ | ⟨-, rfl⟩ | ⟨-, rfl⟩ := hrows id entry hentry <;> rfl
  · obtain ⟨entry, hentry⟩ := Option.isSome_iff_exists.mp hid
    obtain ⟨rfl, -⟩ | ⟨rfl, -⟩ | ⟨rfl, -⟩ := hrows id entry hentry <;> decide
  · obtain ⟨-, rfl⟩ | ⟨-, rfl⟩ := hparent id parentId hid <;> exact ⟨rfl, rfl⟩
  · obtain ⟨rfl, rfl⟩ | ⟨rfl, rfl⟩ := hparent id parentId hid <;> decide

/-- The moves one after the other, then the deletion. -/
theorem moves_then_deletion : TreeKept smallWiki deletionAndMoves chain
    (List.replicate 5 (.step 1) ++ List.replicate 8 (.step 2) ++ List.replicate 5 (.step 0)) :=
  lore_tree_kept smallWiki deletionAndMoves chain chain_forest (fun i => by match i with | 0 | 1 | 2 => trivial) _
    (by decide +kernel)

/-- The deletion reads the entry's parent before both moves, and hands the child on to what is by then
below it. -/
theorem parent_read_too_early : ¬TreeKept smallWiki deletionAndMoves chain
    ((.step 0 :: List.replicate 5 (.step 1)) ++ List.replicate 8 (.step 2) ++ List.replicate 4 (.step 0)) := by
  intro h
  refine h.acyclic 1 (.tail (b := 3) (.single ?_) ?_)
  · unfold Forest.Up
    decide +kernel
  · unfold Forest.Up
    decide +kernel

end ThunderForge.Lore
