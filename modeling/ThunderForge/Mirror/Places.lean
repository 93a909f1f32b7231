import ThunderForge.Mirror.Shape

/-! The whole place of an entry: its path, the directory of its children and the reasons are told by the paths
known at its turn and by its own path. -/

namespace ThunderForge.Mirror

open FirstFree

/-- The reasons tell no more of the taken names than the stem does. -/
theorem chooseStem_reasons {taken taken' : List Name} {budget : Nat} {reasons : List DisambiguationReason}
    {id : Uuid} {base : Name}
    (h : (chooseStem taken budget reasons id base).1 = (chooseStem taken' budget reasons id base).1) :
    (chooseStem taken budget reasons id base).2 = (chooseStem taken' budget reasons id base).2 := by
  have huntaken (taken : List Name) :
      firstUntaken taken (suffixed budget base (shortId id)) (taken.length + 1) 0 ∉ taken := by
    obtain ⟨-, -, hfree, -⟩ := firstUntaken_isFirst (exists_untaken taken budget base (shortId id))
    exact hfree
  unfold chooseStem at h ⊢
  dsimp only at h ⊢
  by_cases hforced : DisambiguationReason.titleNormalisedToNothing ∈ reasons ∨
      DisambiguationReason.reservedName ∈ reasons
  · simp only [hforced, not_true, false_and, if_false, if_true]
  · simp only [hforced, not_false_eq_true, true_and, if_false] at h ⊢
    by_cases hbase : base ∈ taken
    · by_cases hbase' : base ∈ taken'
      · simp only [hbase, hbase', not_true, if_false]
      · rw [if_neg (not_not.mpr hbase), if_pos hbase'] at h
        have hsame : firstUntaken taken (suffixed budget base (shortId id)) (taken.length + 1) 0 = base := h
        exact absurd hbase (hsame ▸ huntaken taken)
    · by_cases hbase' : base ∈ taken'
      · rw [if_pos hbase, if_neg (not_not.mpr hbase')] at h
        have hsame : base = firstUntaken taken' (suffixed budget base (shortId id)) (taken'.length + 1) 0 := h
        exact absurd hbase' (hsame ▸ huntaken taken')
      · simp only [hbase, hbase', not_false_eq_true, if_true]

/-- What has been said already is said still. -/
theorem mem_chooseStem_reasons {taken : List Name} {budget : Nat} {reasons : List DisambiguationReason} {id : Uuid}
    {base : Name} {reason : DisambiguationReason} (h : reason ∈ reasons) :
    reason ∈ (chooseStem taken budget reasons id base).2 := by
  unfold chooseStem
  dsimp only
  split_ifs <;> simp [h]

/-- The choice of a stem never puts it down to the depth. -/
theorem depthExceeded_mem_chooseStem {taken : List Name} {budget : Nat} {reasons : List DisambiguationReason}
    {id : Uuid} {base : Name} :
    DisambiguationReason.depthExceeded ∈ (chooseStem taken budget reasons id base).2 ↔
      DisambiguationReason.depthExceeded ∈ reasons := by
  unfold chooseStem
  dsimp only
  split_ifs <;> simp

theorem depthExceeded_mem_baseReasons (budget : Nat) (slug : Name) :
    DisambiguationReason.depthExceeded ∉ baseReasons budget slug := by
  unfold baseReasons
  split_ifs <;> simp

section

variable {slugify : String → Name} {nodes : List EntryNode}

variable (slugify nodes) in
/-- The place an entry's turn gives it, given the paths known and the names taken so far. -/
def placeFor (id : Uuid) (held : Uuid → Option Name) (taken : List Name) : AssignedPath :=
  let directory := directoryOf nodes id held
  let chosen := chooseStem taken (stemBudget directory)
    ((if descends (parentDirectoryOf nodes id held) then [] else [.depthExceeded]) ++
      baseReasons (stemBudget directory) (slugOf slugify nodes id)) id
    (baseName (stemBudget directory) (slugOf slugify nodes id))
  { path := filePath directory chosen.1, directory := childDirectory (filePath directory chosen.1), reasons := chosen.2 }

theorem filePath_cancel {directory stem stem' : Name} (h : filePath directory stem = filePath directory stem') :
    stem = stem' := by
  have hcancel := List.append_cancel_right h
  split_ifs at hcancel
  · exact hcancel
  · exact (List.cons.inj (List.append_cancel_left hcancel)).2

/-- Two such places with one path are one place. -/
theorem placeFor_eq {id : Uuid} {held held' : Uuid → Option Name} {taken taken' : List Name}
    (hheld : (resolveParents nodes id).bind held = (resolveParents nodes id).bind held')
    (hpath : (placeFor slugify nodes id held taken).path = (placeFor slugify nodes id held' taken').path) :
    placeFor slugify nodes id held taken = placeFor slugify nodes id held' taken' := by
  have hparent : parentDirectoryOf nodes id held = parentDirectoryOf nodes id held' := by
    rw [parentDirectoryOf, parentDirectoryOf, hheld]
  have hdirectory : directoryOf nodes id held = directoryOf nodes id held' := by
    rw [directoryOf, directoryOf, hheld]
  unfold placeFor at hpath ⊢
  rw [hdirectory, hparent] at hpath ⊢
  dsimp only at hpath ⊢
  have hstem := filePath_cancel hpath
  rw [hstem, chooseStem_reasons hstem]

/-- An entry is put deeper than it may go exactly where its place says so. -/
theorem depthExceeded_mem_placeFor {id : Uuid} {held : Uuid → Option Name} {taken : List Name} :
    DisambiguationReason.depthExceeded ∈ (placeFor slugify nodes id held taken).reasons ↔
      descends (parentDirectoryOf nodes id held) = false := by
  unfold placeFor
  dsimp only
  rw [depthExceeded_mem_chooseStem, List.mem_append]
  have hbase := depthExceeded_mem_baseReasons (stemBudget (directoryOf nodes id held)) (slugOf slugify nodes id)
  cases descends (parentDirectoryOf nodes id held) with
  | false => simp
  | true => simp [hbase]

variable {done : List EntryNode} {state : Allocator} {node : EntryNode}

/-- The place an entry's turn gives it. -/
theorem Placed.allocate_self (h : Placed slugify nodes done state) (hnode : byId nodes node.id = some node) :
    (Mirror.allocate slugify (resolveParents nodes) state node).assigned node.id =
      some (placeFor slugify nodes node.id (FirstFree.known state.path (done.map EntryNode.id))
        (state.claims (state.directoryFor (resolveParents nodes) node.id))) := by
  have hslugOf : slugOf slugify nodes node.id = slugify node.title := by rw [slugOf, hnode]; rfl
  unfold placeFor
  rw [← h.directoryFor_eq, ← h.parentDirectory_eq, hslugOf]
  exact Function.update_self _ _ _

/-- Every place is the one given at the entry's turn. -/
theorem told_run (hslug : SlugText slugify) {order : List EntryNode}
    (hnodes : ∀ node ∈ order, byId nodes node.id = some node) (hids : (order.map EntryNode.id).Nodup) :
    ∀ id ∈ order.map EntryNode.id, ∃ taken,
      (Run.run (Mirror.allocate slugify (resolveParents nodes)) Allocator.empty order).assigned id =
        some (placeFor slugify nodes id
          (known (Run.run (Mirror.allocate slugify (resolveParents nodes)) Allocator.empty order).path
            (before (order.map EntryNode.id) id)) taken) := by
  induction order using List.reverseRecOn with
  | nil => exact fun _ h => nomatch h
  | append_singleton order node ih =>
      have hplaced := placed_run hslug (fun other hmem => hnodes other (List.mem_append_left _ hmem))
        (hids.sublist ((List.sublist_append_left order [node]).map EntryNode.id))
      rw [List.map_append, List.nodup_append] at hids
      have hnew : node.id ∉ order.map EntryNode.id := fun hmem => hids.2.2 node.id hmem node.id (by simp) rfl
      have hbefore := ih (fun other hmem => hnodes other (List.mem_append_left _ hmem)) hids.1
      rw [Run.run_concat, List.map_append, List.map_cons, List.map_nil]
      set state := Run.run (Mirror.allocate slugify (resolveParents nodes)) Allocator.empty order with hstate
      obtain ⟨stem, reasons, -, hgive⟩ := allocate_eq_give slugify (resolveParents nodes) state node
      have hkept (id : Uuid) (hid : id ∈ order.map EntryNode.id) :
          (Mirror.allocate slugify (resolveParents nodes) state node).assigned id = state.assigned id := by
        rw [hgive, Allocator.give_assigned_of_ne _ _ _ _ (ne_of_mem_of_not_mem hid hnew)]
      have hpath (id : Uuid) (hid : id ∈ order.map EntryNode.id) :
          (Mirror.allocate slugify (resolveParents nodes) state node).path id = state.path id := by
        rw [Allocator.path, hkept id hid, Allocator.path]
      intro id hid
      rcases List.mem_append.mp hid with hid | hid
      · obtain ⟨taken, htaken⟩ := hbefore id hid
        refine ⟨taken, ?_⟩
        rw [hkept id hid, htaken, before_concat_of_mem hid]
        rw [known_congr fun other hother => hpath other (mem_of_mem_before hother)]
      · rw [List.mem_singleton.mp hid, before_concat_self hnew, known_congr hpath]
        exact ⟨state.claims (state.directoryFor (resolveParents nodes) node.id),
          hplaced.allocate_self (hnodes node (by simp))⟩

end

end ThunderForge.Mirror
