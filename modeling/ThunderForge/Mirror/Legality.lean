import ThunderForge.Mirror.Components
import ThunderForge.Mirror.Orders

/-! When every entry has a legal path of its own, whatever the order of the list. -/

namespace ThunderForge.Mirror

open Forest FirstFree

variable {slugify : String → Name} {entries entries' : List EntryNode} {id parent : Uuid} {place : AssignedPath}

/-! The places of the whole map. -/

theorem mapEntryPaths_isSome_iff (hslug : SlugText slugify) (hids : (entries.map EntryNode.id).Nodup) :
    (mapEntryPaths slugify entries id).isSome ↔ id ∈ entries.map EntryNode.id := by
  have hplaced := (placed_entries hslug hids).assigned id
  rwa [← mapEntryPaths_eq hids, show (ordered entries).map EntryNode.id = orderIds entries from rfl,
    mem_orderIds] at hplaced

theorem pathOf_eq (h : mapEntryPaths slugify entries id = some place) : pathOf slugify entries id = place.path := by
  rw [pathOf, h, Option.map_some, Option.getD_some]

/-- What is known when an entry's turn comes. -/
def heldAt (slugify : String → Name) (entries : List EntryNode) (id : Uuid) : Uuid → Option Name :=
  known (pathOf slugify entries) (before (orderIds entries) id)

theorem mapEntryPaths_told (hslug : SlugText slugify) (hids : (entries.map EntryNode.id).Nodup)
    (h : mapEntryPaths slugify entries id = some place) :
    ∃ taken, place = placeFor slugify entries id (heldAt slugify entries id) taken := by
  have hid : id ∈ entries.map EntryNode.id := by
    rw [← mapEntryPaths_isSome_iff hslug hids, h]
    rfl
  have hnodes : ∀ node ∈ ordered entries, byId entries node.id = some node :=
    fun _ hmem => byId_of_mem hids ((SortBy.mem_sortBy _).mp hmem)
  have htold := told_run hslug hnodes (nodup_orderIds hids) id (mem_orderIds.mpr hid)
  unfold Allocator.path at htold
  rw [← mapEntryPaths_eq hids, h] at htold
  obtain ⟨taken, htaken⟩ := htold
  exact ⟨taken, Option.some.inj htaken⟩

theorem mapEntryPaths_shaped (hslug : Slugs slugify) (hids : (entries.map EntryNode.id).Nodup)
    (h : mapEntryPaths slugify entries id = some place) :
    place.directory = childDirectory place.path ∧ ∃ directories stem, Shaped place.path directories stem := by
  rw [mapEntryPaths_eq hids] at h
  exact wellShaped_run hslug (resolveParents entries) (ordered entries) id place h

/-- A path is in the directory of its entry's turn. -/
theorem Shaped.directory_eq (hslug : Slugs slugify) (hids : (entries.map EntryNode.id).Nodup)
    (h : mapEntryPaths slugify entries id = some place) {directories : List Name} {stem : Name}
    (hshaped : Shaped place.path directories stem) :
    joinSegments directories = directoryOf entries id (heldAt slugify entries id) := by
  have hid : id ∈ orderIds entries := by
    rw [mem_orderIds, ← mapEntryPaths_isSome_iff hslug.text hids, h]
    rfl
  obtain ⟨i, hi, -, -⟩ := allocation_paths hslug.text hids id hid
  rw [pathOf_eq h, hshaped.path_eq] at hi
  have hslugged (budget : Nat) := ((isSlug_slugOf entries hslug.text id).stemNames budget id i).no_slash
  exact (filePath_inj (hslugged _) (hshaped.parts stem (by simp)).no_slash hi).1.symm

/-- The directory of the children of an entry's parent. -/
def parentsDirectory (slugify : String → Name) (entries : List EntryNode) (id : Uuid) : Name :=
  (((resolveParents entries id).bind (mapEntryPaths slugify entries)).map AssignedPath.directory).getD []

/-- An entry is in its parent's directory, or was found too deep for it, exactly when the parent's turn came
first. -/
theorem directory_iff (hslug : Slugs slugify) (hids : (entries.map EntryNode.id).Nodup)
    (h : mapEntryPaths slugify entries id = some place) :
    (joinSegments (components place.path).dropLast = parentsDirectory slugify entries id ∨
        DisambiguationReason.depthExceeded ∈ place.reasons) ↔
      ∀ parent, resolveParents entries id = some parent → parent ∈ before (orderIds entries) id := by
  obtain ⟨-, directories, stem, hshaped⟩ := mapEntryPaths_shaped hslug hids h
  obtain ⟨taken, htold⟩ := mapEntryPaths_told hslug.text hids h
  have hreasons : DisambiguationReason.depthExceeded ∈ place.reasons ↔
      descends (parentDirectoryOf entries id (heldAt slugify entries id)) = false := by
    rw [htold]
    exact depthExceeded_mem_placeFor
  rw [hreasons, hshaped.components_eq, List.dropLast_concat, hshaped.directory_eq hslug hids h,
    show directoryOf entries id (heldAt slugify entries id) =
      landing (parentDirectoryOf entries id (heldAt slugify entries id)) from rfl]
  unfold parentDirectoryOf parentsDirectory
  cases hparent : resolveParents entries id with
  | none =>
      refine iff_of_true (Or.inl rfl) fun parent hnone => nomatch hnone
  | some parent =>
      obtain ⟨parentPlace, hparentPlace⟩ := Option.isSome_iff_exists.mp
        ((mapEntryPaths_isSome_iff hslug.text hids).mpr (mem_of_resolveParents hparent).2)
      obtain ⟨hchild, above, last, habove⟩ := mapEntryPaths_shaped hslug hids hparentPlace
      rw [Option.bind_some, Option.bind_some, hparentPlace, Option.map_some, Option.getD_some]
      by_cases hbefore : parent ∈ before (orderIds entries) id
      · have hheld : heldAt slugify entries id parent = some parentPlace.path := by
          rw [heldAt, known, if_pos hbefore, pathOf_eq hparentPlace]
        rw [hheld, Option.map_some, Option.getD_some, ← hchild]
        refine iff_of_true ?_ fun other hother => Option.some.inj hother ▸ hbefore
        unfold landing
        cases descends parentPlace.directory with
        | true => exact Or.inl rfl
        | false => exact Or.inr rfl
      · have hheld : heldAt slugify entries id parent = none := by rw [heldAt, known, if_neg hbefore]
        rw [hheld]
        refine iff_of_false ?_ fun hall => hbefore (hall parent rfl)
        rintro (hroot | hdeep)
        · rw [hchild, habove.path_eq, childDirectory_filePath habove.parts] at hroot
          have hnil := (joinSegments_eq_nil habove.parts).mp hroot.symm
          simp at hnil
        · cases hdeep

/-! What holds of every path. -/

/-- A place that obeys the rules for paths, in the directory of its entry's parent where that is not too deep. -/
structure LegalPlace (parentDirectory : Name) (place : AssignedPath) : Prop where
  extension : ".md".toList <:+ place.path
  length : byteLen place.path ≤ maxPathBytes
  depth : (components place.path).dropLast.length ≤ maxDepth
  stem : ∀ stem ∈ (components place.path).getLast?, stem ∉ reservedStems
  directory : joinSegments (components place.path).dropLast = parentDirectory ∨
    DisambiguationReason.depthExceeded ∈ place.reasons

theorem Shaped.extension {path stem : Name} {directories : List Name} (h : Shaped path directories stem) :
    ".md".toList <:+ path := by
  rw [h.path_eq]
  exact List.suffix_append _ _

theorem Shaped.depth {path stem : Name} {directories : List Name} (h : Shaped path directories stem) :
    (components path).dropLast.length ≤ maxDepth := by
  rw [h.components_eq, List.dropLast_concat]
  rcases h.holds with hroot | hfits
  · rw [hroot]
    exact Nat.zero_le _
  · simp only [fits, Bool.and_eq_true, decide_eq_true_eq] at hfits
    exact hfits.1

theorem Shaped.stem_free {path stem : Name} {directories : List Name} (h : Shaped path directories stem) :
    ∀ stem ∈ (components path).getLast?, stem ∉ reservedStems := by
  intro last hlast
  rw [h.components_eq, List.getLast?_concat, Option.mem_some_iff] at hlast
  exact hlast ▸ h.free

theorem byteLen_filePath (directory stem : Name) :
    byteLen (filePath directory stem) = (if directory = [] then 0 else byteLen directory + 1) + byteLen stem + 3 := by
  have hmd : byteLen ".md".toList = 3 := by decide
  have hslash : '/'.utf8Size = 1 := rfl
  rw [filePath, byteLen_append, hmd]
  split_ifs
  · rw [Nat.zero_add]
  · rw [byteLen_append, byteLen_cons, hslash]
    omega

/-- A path keeps its budget exactly when its stem does. -/
theorem Shaped.length_iff {stem : Name} {directories : List Name}
    (h : Shaped (filePath (joinSegments directories) stem) directories stem) :
    byteLen (filePath (joinSegments directories) stem) ≤ maxPathBytes ↔
      byteLen stem ≤ stemBudget (joinSegments directories) := by
  have hroom := h.holds.stemBudget
  rw [byteLen_filePath]
  unfold stemBudget minFileBytes maxPathBytes at *
  omega

/-- Where an entry takes a suffixed name, the suffix and the counter alone keep within the budget. -/
abbrev CounterFits (slugify : String → Name) (parents : Uuid → Option Uuid) : Allocator → EntryNode → Prop :=
  SuffixOk (fun budget _ k => suffixBytes k ≤ budget + 1) slugify parents

/-- No path is too long exactly when no counter is. -/
theorem paths_length_iff (hslug : Slugs slugify) (hids : (entries.map EntryNode.id).Nodup) :
    (∀ id place, mapEntryPaths slugify entries id = some place → byteLen place.path ≤ maxPathBytes) ↔
      Run.Meets (allocate slugify (resolveParents entries)) (CounterFits slugify (resolveParents entries))
        Allocator.empty (ordered entries) := by
  rw [mapEntryPaths_eq hids]
  refine forall_paths_iff hslug hids (Q := fun path => byteLen path ≤ maxPathBytes) ?_
  intro before node _ directories stem hturn _
  rw [hturn.shaped.length_iff]
  refine stem_iff_suffixOk (P := fun stem => byteLen stem ≤ stemBudget (joinSegments directories))
    hturn.directory_eq hturn.isFirst ?_ fun k _ => byteLen_suffixed_le_budget
  exact (byteLen_truncateSlug_le _ _).trans (min_le_right _ _)

/-- Only among a hundred million entries is a counter too long. -/
theorem counterFits_of_few (hslug : Slugs slugify) (hfew : entries.length < 10 ^ 8 - 1) :
    Run.Meets (allocate slugify (resolveParents entries)) (CounterFits slugify (resolveParents entries))
      Allocator.empty (ordered entries) := by
  rw [Run.meets_iff]
  intro turns node hpre _ k hk _
  obtain ⟨directories, stem, -, hturn, -⟩ :=
    (wellShaped_run hslug (resolveParents entries) turns).turn hslug (resolveParents entries) node
  have hroom := hturn.shaped.holds.stemBudget
  have hclaims := claims_length_run slugify (resolveParents entries) turns (joinSegments directories)
  have hturns : turns.length + 1 ≤ entries.length := by
    have hlength := hpre.length_le
    rwa [List.length_append, ordered, (SortBy.sortBy_perm (orderKey entries) entries).length_eq] at hlength
  rw [hturn.directory_eq] at hk ⊢
  unfold minFileBytes at hroom
  cases k with
  | zero =>
      rw [suffixBytes, suffixHexChars]
      omega
  | succ k =>
      have hdigits : (Nat.toDigits 10 (k + 2)).length ≤ 8 :=
        (Nat.length_toDigits_le_iff (by decide) (by decide)).mpr (by omega)
      rw [suffixBytes, suffixHexChars]
      omega

/-! Who holds the names an entry passes over. -/

/-- Each taken name that an entry passes over is held by one whose turn comes first in any case. -/
def HeldAbove (slugify : String → Name) (parents : Uuid → Option Uuid) (state : Allocator) (node : EntryNode) :
    Prop :=
  let directory := state.directoryFor parents node.id
  let tried := stemNames (stemBudget directory) (slugify node.title) node.id
  ∀ k, (∀ j ≤ k, tried j ∈ state.claims directory) → ∀ holder place, state.assigned holder = some place →
    place.path = filePath directory (tried k) → ComesFirst parents holder node.id

/-- The turns of others change no entry's place. -/
theorem assigned_run {parents : Uuid → Option Uuid} {order : List EntryNode} (hid : id ∉ order.map EntryNode.id)
    (state : Allocator) : (Run.run (allocate slugify parents) state order).assigned id = state.assigned id := by
  induction order generalizing state with
  | nil => rfl
  | cons node order ih =>
      rw [List.map_cons, List.mem_cons, not_or] at hid
      obtain ⟨stem, reasons, -, hgive⟩ := allocate_eq_give slugify parents state node
      rw [Run.run_cons, ih hid.2, hgive, Allocator.give_assigned_of_ne _ _ _ _ hid.1]

/-- The turns before an entry's. -/
theorem before_of_isPrefix (hids : (entries.map EntryNode.id).Nodup) {turns : List EntryNode} {node : EntryNode}
    (h : turns ++ [node] <+: ordered entries) : before (orderIds entries) node.id = turns.map EntryNode.id := by
  obtain ⟨later, hlater⟩ := h
  have hnodup := nodup_orderIds hids
  have horder : orderIds entries = turns.map EntryNode.id ++ node.id :: later.map EntryNode.id := by
    rw [orderIds, ← hlater]
    simp
  rw [horder] at hnodup ⊢
  have hnew : node.id ∉ turns.map EntryNode.id := fun hmem =>
    (List.nodup_append.mp hnodup).2.2 node.id hmem node.id List.mem_cons_self rfl
  rw [before, List.idxOf_append_of_notMem hnew, List.idxOf_cons_self, Nat.add_zero, List.take_left' rfl]

/-- The places an entry finds are those of the whole map. -/
theorem assigned_of_isPrefix (hids : (entries.map EntryNode.id).Nodup) {turns : List EntryNode}
    (h : turns <+: ordered entries) (hid : id ∈ turns.map EntryNode.id) :
    (Run.run (allocate slugify (resolveParents entries)) Allocator.empty turns).assigned id =
      mapEntryPaths slugify entries id := by
  obtain ⟨later, hlater⟩ := h
  have hnodup := nodup_orderIds hids
  rw [orderIds, ← hlater, List.map_append] at hnodup
  have hlast : id ∉ later.map EntryNode.id := fun hmem => (List.nodup_append.mp hnodup).2.2 id hid id hmem rfl
  rw [mapEntryPaths_eq hids, ← hlater, Run.run_append, assigned_run hlast]

/-- In terms of the whole map: what an entry tries before its path, and finds taken, is held by such a one. -/
theorem heldAbove_iff (hslug : Slugs slugify) (hids : (entries.map EntryNode.id).Nodup) {turns : List EntryNode}
    {node : EntryNode} (h : turns ++ [node] <+: ordered entries) :
    HeldAbove slugify (resolveParents entries)
        (Run.run (allocate slugify (resolveParents entries)) Allocator.empty turns) node ↔
      ∀ holder ∈ before (orderIds entries) node.id,
        TriedBefore (pathsTried slugify entries node.id (heldAt slugify entries node.id))
          (pathOf slugify entries node.id) (pathOf slugify entries holder) →
        ComesFirst (resolveParents entries) holder node.id := by
  have hturns : turns <+: ordered entries := (List.prefix_append turns [node]).trans h
  have hmem : node ∈ entries := (SortBy.mem_sortBy _).mp (h.subset (by simp))
  have hbefore := before_of_isPrefix hids h
  have hnodup : (turns.map EntryNode.id).Nodup :=
    (nodup_orderIds hids).sublist (hturns.sublist.map EntryNode.id)
  have hplaced := placed_run hslug.text
    (fun other hother => byId_of_mem hids ((SortBy.mem_sortBy _).mp (hturns.subset hother))) hnodup
  set state := Run.run (allocate slugify (resolveParents entries)) Allocator.empty turns with hstate
  have hassigned (id : Uuid) (hid : id ∈ turns.map EntryNode.id) :
      state.assigned id = mapEntryPaths slugify entries id := assigned_of_isPrefix hids hturns hid
  have hpath (id : Uuid) (hid : id ∈ turns.map EntryNode.id) : state.path id = pathOf slugify entries id := by
    rw [Allocator.path, hassigned id hid, pathOf]
  have hheld : heldAt slugify entries node.id = known state.path (turns.map EntryNode.id) := by
    rw [heldAt, hbefore, known_congr hpath]
  have hdirectory : state.directoryFor (resolveParents entries) node.id =
      directoryOf entries node.id (heldAt slugify entries node.id) := by
    rw [hheld]
    exact hplaced.directoryFor_eq node.id
  have hslugOf : slugOf slugify entries node.id = slugify node.title := by
    rw [slugOf, byId_of_mem hids hmem]
    rfl
  have htried (k : Nat) : pathsTried slugify entries node.id (heldAt slugify entries node.id) k =
      filePath (state.directoryFor (resolveParents entries) node.id)
        (stemNames (stemBudget (state.directoryFor (resolveParents entries) node.id)) (slugify node.title)
          node.id k) := by rw [pathsTried, hdirectory, hslugOf]
  have hclaims (k : Nat) : stemNames (stemBudget (state.directoryFor (resolveParents entries) node.id))
      (slugify node.title) node.id k ∈ state.claims (state.directoryFor (resolveParents entries) node.id) ↔
        pathsTried slugify entries node.id (heldAt slugify entries node.id) k ∈
          (before (orderIds entries) node.id).map (pathOf slugify entries) := by
    have hplain := (IsSlug.stemNames (hslug.text node.title)
      (stemBudget (state.directoryFor (resolveParents entries) node.id)) node.id k).no_slash
    rw [hplaced.claims, htried, hbefore, List.map_congr_left hpath]
    exact and_iff_right hplain
  have hfirst := allocation_paths hslug.text hids node.id (mem_orderIds.mpr (List.mem_map_of_mem hmem))
  constructor
  · intro habove holder hholder hbeforeIt
    obtain ⟨k, hk, htaken⟩ := hfirst.triedBefore_iff.mp hbeforeIt
    have hin : holder ∈ turns.map EntryNode.id := hbefore ▸ hholder
    obtain ⟨place, hplace⟩ := Option.isSome_iff_exists.mp ((hplaced.assigned holder).mpr hin)
    refine habove k (fun j hj => (hclaims j).mpr (htaken j hj)) holder place hplace ?_
    rw [← htried, show pathsTried slugify entries node.id (heldAt slugify entries node.id) k = _ from hk]
    exact (pathOf_eq ((hassigned holder hin).symm.trans hplace)).symm
  · intro hall k htaken holder place hplace hheldBy
    have hin : holder ∈ turns.map EntryNode.id := (hplaced.assigned holder).mp (by rw [hplace]; rfl)
    refine hall holder (hbefore ▸ hin) (hfirst.triedBefore_iff.mpr ⟨k, ?_, fun j hj => (hclaims j).mp (htaken j hj)⟩)
    have hown : pathOf slugify entries holder = place.path := pathOf_eq ((hassigned holder hin).symm.trans hplace)
    rw [hown, hheldBy]
    exact htried k

/-- Every name that an entry of the set passes over is held by one whose turn comes first in any case. -/
def PassesAncestors (slugify : String → Name) (entries : List EntryNode) : Prop :=
  ∀ id ∈ entries.map EntryNode.id, ∀ holder ∈ before (orderIds entries) id,
    TriedBefore (pathsTried slugify entries id (heldAt slugify entries id)) (pathOf slugify entries id)
      (pathOf slugify entries holder) → ComesFirst (resolveParents entries) holder id

theorem meets_heldAbove_iff (hslug : Slugs slugify) (hids : (entries.map EntryNode.id).Nodup) :
    Run.Meets (allocate slugify (resolveParents entries)) (HeldAbove slugify (resolveParents entries))
      Allocator.empty (ordered entries) ↔ PassesAncestors slugify entries := by
  rw [Run.meets_iff]
  constructor
  · intro h id hid
    obtain ⟨node, hnode, rfl⟩ := List.mem_map.mp (mem_orderIds.mpr hid)
    obtain ⟨turns, later, hsplit⟩ := List.append_of_mem hnode
    have hpre : turns ++ [node] <+: ordered entries := ⟨later, by rw [hsplit, List.append_assoc]; rfl⟩
    exact (heldAbove_iff hslug hids hpre).mp (h turns node hpre)
  · intro h turns node hpre
    have hmem : node ∈ entries := (SortBy.mem_sortBy _).mp (hpre.subset (by simp))
    exact (heldAbove_iff hslug hids hpre).mpr (h node.id (List.mem_map_of_mem hmem))

/-! The order of the list. -/

/-- The paths an entry tries depend on what is known of its parent's path alone. -/
theorem pathsTried_congr {held held' : Uuid → Option Name}
    (h : ∀ parent, resolveParents entries id = some parent → held parent = held' parent) :
    pathsTried slugify entries id held = pathsTried slugify entries id held' := by
  have hbind : (resolveParents entries id).bind held = (resolveParents entries id).bind held' := by
    cases hparent : resolveParents entries id with
    | none => rfl
    | some parent => exact h parent hparent
  funext k
  rw [pathsTried, pathsTried, directoryOf, directoryOf, hbind]

theorem OlderParents.perm (hids : (entries.map EntryNode.id).Nodup) (hperm : entries'.Perm entries)
    (h : OlderParents entries) : OlderParents entries' := by
  intro id parent hparent
  rw [resolveParents_perm hids hperm] at hparent
  exact h id parent hparent

/-- With parents older than their children, a parent is known by its path at its child's turn. -/
theorem OlderParents.known_parent (h : OlderParents entries) (hparent : resolveParents entries id = some parent)
    (slot : Uuid → Name) : known slot (before (orderIds entries) id) parent = some (slot parent) :=
  if_pos (h.parent_before hparent)

/-- The paths of the entries do not change with the order of the list exactly when no entry meets a difference. -/
theorem paths_perm_iff (hslug : Slugs slugify) (hids : (entries.map EntryNode.id).Nodup)
    (hperm : entries'.Perm entries) :
    (∀ id ∈ orderIds entries', pathOf slugify entries' id = pathOf slugify entries id) ↔
      Unmoved (pathsTried slugify entries) (orderIds entries) (orderIds entries') (pathOf slugify entries) := by
  have hids' : (entries'.map EntryNode.id).Nodup := ((hperm.map EntryNode.id).nodup_iff).mpr hids
  have hallocated := allocation_paths hslug.text hids'
  rw [pathsTried_perm hids hperm] at hallocated
  have hpart : orderIds entries' ⊆ orderIds entries := fun id hid =>
    mem_orderIds.mpr ((hperm.map EntryNode.id).mem_iff.mp (mem_orderIds.mp hid))
  exact (allocation_paths hslug.text hids).eq_iff (pathsTried_sep hslug.text) hallocated hpart

/-- Where parents are older and hold, with smaller roots, all that is passed over, the paths stay as they are. -/
theorem pathOf_perm (hslug : Slugs slugify) (hids : (entries.map EntryNode.id).Nodup)
    (hlower : OlderParents entries) (habove : PassesAncestors slugify entries) (hperm : entries'.Perm entries)
    (hid : id ∈ entries.map EntryNode.id) : pathOf slugify entries' id = pathOf slugify entries id := by
  have hlower' := hlower.perm hids hperm
  have hparents := resolveParents_perm hids hperm
  have hmem (id : Uuid) : id ∈ entries'.map EntryNode.id ↔ id ∈ entries.map EntryNode.id :=
    (hperm.map EntryNode.id).mem_iff
  refine (paths_perm_iff hslug hids hperm).mpr (fun id hid => ?_) id (mem_orderIds.mpr ((hmem id).mpr hid))
  rw [mem_orderIds, hmem] at hid
  refine ⟨pathsTried_congr fun parent hparent => ?_, fun holder hholder hnot htried => hnot ?_⟩
  · have hparent' : resolveParents entries' id = some parent := by rw [hparents, hparent]
    rw [hlower.known_parent hparent, hlower'.known_parent hparent']
  · have hin : holder ∈ entries.map EntryNode.id := mem_orderIds.mp (mem_of_mem_before hholder)
    have hne : holder ≠ id := by
      rintro rfl
      exact not_before_of_before hholder hholder
    refine hlower'.comesFirst_before ((hmem holder).mpr hin) ((hmem id).mpr hid) hne ?_
    rw [hparents]
    exact habove id hid holder hholder htried

/-- With the same paths the places are the same. -/
theorem mapEntryPaths_eq_of_pathOf (hslug : Slugs slugify) (hids : (entries.map EntryNode.id).Nodup)
    (hlower : OlderParents entries) (hperm : entries'.Perm entries)
    (hpath : ∀ id ∈ entries.map EntryNode.id, pathOf slugify entries' id = pathOf slugify entries id)
    (hid : id ∈ entries.map EntryNode.id) : mapEntryPaths slugify entries' id = mapEntryPaths slugify entries id := by
  have hids' : (entries'.map EntryNode.id).Nodup := ((hperm.map EntryNode.id).nodup_iff).mpr hids
  have hid' : id ∈ entries'.map EntryNode.id := (hperm.map EntryNode.id).mem_iff.mpr hid
  obtain ⟨place, hplace⟩ := Option.isSome_iff_exists.mp ((mapEntryPaths_isSome_iff hslug.text hids).mpr hid)
  obtain ⟨place', hplace'⟩ := Option.isSome_iff_exists.mp ((mapEntryPaths_isSome_iff hslug.text hids').mpr hid')
  obtain ⟨taken, htold⟩ := mapEntryPaths_told hslug.text hids hplace
  obtain ⟨taken', htold'⟩ := mapEntryPaths_told hslug.text hids' hplace'
  rw [placeFor_perm hids hperm] at htold'
  have hheld : (resolveParents entries id).bind (heldAt slugify entries' id) =
      (resolveParents entries id).bind (heldAt slugify entries id) := by
    cases hparent : resolveParents entries id with
    | none => rw [Option.bind_none, Option.bind_none]
    | some parent =>
        have hparent' : resolveParents entries' id = some parent := by rw [resolveParents_perm hids hperm, hparent]
        rw [Option.bind_some, Option.bind_some, heldAt, heldAt, hlower.known_parent hparent,
          (hlower.perm hids hperm).known_parent hparent', hpath parent (mem_of_resolveParents hparent).2]
  have hsame : place'.path = place.path := by rw [← pathOf_eq hplace', ← pathOf_eq hplace, hpath id hid]
  rw [hplace, hplace', Option.some.injEq]
  subst htold htold'
  exact placeFor_eq hheld hsame

/-- So where all that is passed over is held by such as come first, the order does not show. -/
theorem mapEntryPaths_perm (hslug : Slugs slugify) (hids : (entries.map EntryNode.id).Nodup)
    (hlower : OlderParents entries) (habove : PassesAncestors slugify entries) (hperm : entries'.Perm entries) :
    mapEntryPaths slugify entries' = mapEntryPaths slugify entries := by
  have hids' : (entries'.map EntryNode.id).Nodup := ((hperm.map EntryNode.id).nodup_iff).mpr hids
  funext id
  by_cases hid : id ∈ entries.map EntryNode.id
  · exact mapEntryPaths_eq_of_pathOf hslug hids hlower hperm
      (fun _ hid => pathOf_perm hslug hids hlower habove hperm hid) hid
  · have hid' : id ∉ entries'.map EntryNode.id := fun hin => hid ((hperm.map EntryNode.id).mem_iff.mp hin)
    rw [← mapEntryPaths_isSome_iff hslug.text hids, Option.not_isSome_iff_eq_none] at hid
    rw [← mapEntryPaths_isSome_iff hslug.text hids', Option.not_isSome_iff_eq_none] at hid'
    rw [hid, hid']

/-- The result does not depend on the order of the list. -/
def OrderFree (slugify : String → Name) (entries : List EntryNode) : Prop :=
  ∀ entries', entries'.Perm entries → mapEntryPaths slugify entries' = mapEntryPaths slugify entries

/-- Where the order does not show, what an entry passes over is held by such as come first in any order. -/
theorem OrderFree.passesAncestors (h : OrderFree slugify entries) (hslug : Slugs slugify)
    (hids : (entries.map EntryNode.id).Nodup) (hlower : OlderParents entries) : PassesAncestors slugify entries := by
  intro id hid holder hholder htried
  by_contra hnot
  have hin : holder ∈ entries.map EntryNode.id := mem_orderIds.mp (mem_of_mem_before hholder)
  obtain ⟨first, hfirst, rfl⟩ := List.mem_map.mp hin
  have hne : first.id ≠ id := by
    rintro rfl
    exact not_before_of_before hholder hholder
  have hperm := firstThenById_perm hfirst
  have hpaths : ∀ id ∈ orderIds (firstThenById first entries),
      pathOf slugify (firstThenById first entries) id = pathOf slugify entries id := by
    intro id _
    rw [pathOf, h _ hperm, pathOf]
  have hturn : id ∈ orderIds (firstThenById first entries) :=
    mem_orderIds.mpr ((hperm.map EntryNode.id).mem_iff.mpr hid)
  obtain ⟨-, hskipped⟩ := (paths_perm_iff hslug hids hperm).mp hpaths id hturn
  exact hskipped first.id hholder (not_before_firstThenById hids hlower hfirst hid hne hnot) htried

/-- Where the order does not show, and entries are in their parents' directories, parents are older. -/
theorem OrderFree.olderParents (h : OrderFree slugify entries) (hslug : Slugs slugify)
    (hids : (entries.map EntryNode.id).Nodup)
    (hdirectory : ∀ id place, mapEntryPaths slugify entries id = some place →
      (joinSegments (components place.path).dropLast = parentsDirectory slugify entries id ∨
        DisambiguationReason.depthExceeded ∈ place.reasons)) : OlderParents entries := by
  intro id parent hparent
  by_contra hle
  obtain ⟨hid, hin⟩ := mem_of_resolveParents hparent
  obtain ⟨below, hbelow, rfl⟩ := List.mem_map.mp hid
  obtain ⟨above, habove, rfl⟩ := List.mem_map.mp hin
  have hself : below.id ≠ above.id := by
    intro heq
    exact not_reaches_of_parent (ends_resolveParents hid) hparent (heq ▸ .refl)
  have hlt : below.id.toNat < above.id.toNat :=
    lt_of_le_of_ne (not_lt.mp hle) fun heq => hself (BitVec.eq_of_toNat_eq heq)
  have hperm : (parentThenChild above below entries).Perm entries :=
    parentThenChild_perm habove hbelow fun heq => hself (congrArg EntryNode.id heq)
  have hids' : ((parentThenChild above below entries).map EntryNode.id).Nodup :=
    ((hperm.map EntryNode.id).nodup_iff).mpr hids
  obtain ⟨place, hplace⟩ := Option.isSome_iff_exists.mp ((mapEntryPaths_isSome_iff hslug.text hids).mpr hid)
  have hplace' : mapEntryPaths slugify (parentThenChild above below entries) below.id = some place := by
    rw [h _ hperm, hplace]
  have hin := hdirectory below.id place hplace
  have hsame : parentsDirectory slugify (parentThenChild above below entries) below.id =
      parentsDirectory slugify entries below.id := by
    rw [parentsDirectory, resolveParents_perm hids hperm, h _ hperm, parentsDirectory]
  rw [← hsame, directory_iff hslug hids' hplace'] at hin
  have hparent' : resolveParents (parentThenChild above below entries) below.id = some above.id := by
    rw [resolveParents_perm hids hperm, hparent]
  exact not_before_of_before (before_parentThenChild hids habove hbelow hparent hlt) (hin above.id hparent')

/-! Legal paths. -/

/-- Each entry has a legal path of its own, whatever the order of the list; and the loops on the way there end
within the steps that are counted for them. -/
structure LegalPaths (slugify : String → Name) (entries : List EntryNode) : Prop where
  chains_end : ∀ id ∈ entries.map EntryNode.id, ∀ memo extra,
    chainTo (resolveParents entries) memo (entries.length + extra) id =
      chainTo (resolveParents entries) memo entries.length id
  ties_end : ∀ taken budget base suffix extra,
    firstUntaken taken (suffixed budget base suffix) (taken.length + 1 + extra) 0 =
      firstUntaken taken (suffixed budget base suffix) (taken.length + 1) 0
  total : ∀ entry ∈ entries, (mapEntryPaths slugify entries entry.id).isSome
  order_free : OrderFree slugify entries
  distinct : ∀ id id' place place', mapEntryPaths slugify entries id = some place →
    mapEntryPaths slugify entries id' = some place' → place.path = place'.path → id = id'
  legal : ∀ id place, mapEntryPaths slugify entries id = some place →
    LegalPlace (parentsDirectory slugify entries id) place

/-- Parents are older than their children, no counter is too long, and every name an entry passes over is held by
one of its ancestors or by a root with a smaller identifier. -/
structure Orderly (slugify : String → Name) (entries : List EntryNode) : Prop where
  older : OlderParents entries
  counters : Run.Meets (allocate slugify (resolveParents entries)) (CounterFits slugify (resolveParents entries))
    Allocator.empty (ordered entries)
  held : Run.Meets (allocate slugify (resolveParents entries)) (HeldAbove slugify (resolveParents entries))
    Allocator.empty (ordered entries)

theorem firstUntaken_complete (taken : List Name) (budget : Nat) (base suffix : Name) (extra : Nat) :
    firstUntaken taken (suffixed budget base suffix) (taken.length + 1 + extra) 0 =
      firstUntaken taken (suffixed budget base suffix) (taken.length + 1) 0 := by
  obtain ⟨i, hi, hfree⟩ := exists_untaken taken budget base suffix
  exact (firstUntaken_isFirst ⟨i, hi.trans (Nat.le_add_right _ _), hfree⟩).unique (firstUntaken_isFirst ⟨i, hi, hfree⟩)

theorem mapEntryPaths_distinct (hslug : Slugs slugify) (hids : (entries.map EntryNode.id).Nodup) {id id' : Uuid}
    {place place' : AssignedPath} (h : mapEntryPaths slugify entries id = some place)
    (h' : mapEntryPaths slugify entries id' = some place') (hpath : place.path = place'.path) : id = id' := by
  have hmem {id : Uuid} {place : AssignedPath} (h : mapEntryPaths slugify entries id = some place) :
      id ∈ orderIds entries := by
    rw [mem_orderIds, ← mapEntryPaths_isSome_iff hslug.text hids, h]
    rfl
  refine (allocation_paths hslug.text hids).injective (hmem h) (hmem h') ?_
  rw [pathOf_eq h, pathOf_eq h', hpath]

/-- Every entry has a legal path of its own, whatever the order of the list, exactly when the set is orderly. -/
theorem legalPaths_iff (hslug : Slugs slugify) (hids : (entries.map EntryNode.id).Nodup) :
    LegalPaths slugify entries ↔ Orderly slugify entries := by
  constructor
  · intro h
    have hlower := h.order_free.olderParents hslug hids fun id place hplace => (h.legal id place hplace).directory
    refine ⟨hlower, ?_, ?_⟩
    · exact (paths_length_iff hslug hids).mp fun id place hplace => (h.legal id place hplace).length
    · exact (meets_heldAbove_iff hslug hids).mpr (h.order_free.passesAncestors hslug hids hlower)
  · rintro ⟨hlower, hcounters, hheld⟩
    have habove := (meets_heldAbove_iff hslug hids).mp hheld
    have hlength := (paths_length_iff hslug hids).mpr hcounters
    constructor
    case chains_end => exact fun id hid memo extra => chainTo_complete memo hid extra
    case ties_end => exact firstUntaken_complete
    case total =>
      exact fun entry hentry => (mapEntryPaths_isSome_iff hslug.text hids).mpr (List.mem_map_of_mem hentry)
    case order_free => exact fun entries' hperm => mapEntryPaths_perm hslug hids hlower habove hperm
    case distinct => exact fun id id' place place' h h' hpath => mapEntryPaths_distinct hslug hids h h' hpath
    case legal =>
      intro id place hplace
      obtain ⟨-, directories, stem, hshaped⟩ := mapEntryPaths_shaped hslug hids hplace
      refine ⟨hshaped.extension, hlength id place hplace, hshaped.depth, hshaped.stem_free, ?_⟩
      exact (directory_iff hslug hids hplace).mpr fun parent hparent => hlower.parent_before hparent

/-- A keep and the cell in it. -/
def keepOfCell : List EntryNode := [⟨1, none, "Keep"⟩, ⟨2, some 1, "Cell"⟩]

/-- The cell is younger than its keep, and nothing is in its way. -/
theorem keepOfCell_legal :
    LegalPaths sampleSlug keepOfCell ∧
      (mapEntryPaths sampleSlug keepOfCell 2).map AssignedPath.path = some "keep/cell.md".toList := by
  refine ⟨(legalPaths_iff slugs_sampleSlug (by decide)).mpr
    ⟨?_, counterFits_of_few slugs_sampleSlug (by decide), ?_⟩, by decide +kernel⟩
  · have hkeep : resolveParents keepOfCell 1 = none := by decide +kernel
    have hcell : resolveParents keepOfCell 2 = some 1 := by decide +kernel
    intro id parent hparent
    obtain rfl | rfl : id = 1 ∨ id = 2 := by simpa [keepOfCell] using (mem_of_resolveParents hparent).1
    · rw [hkeep] at hparent
      cases hparent
    · rw [hcell, Option.some.injEq] at hparent
      rw [← hparent]
      decide
  · refine ⟨fun k htaken => ?_, fun k htaken => ?_, trivial⟩
    · exact absurd (htaken 0 (Nat.zero_le k)) (by decide +kernel)
    · exact absurd (htaken 0 (Nat.zero_le k)) (by decide +kernel)

/-- A cell that has been moved into a younger keep, listed after it. -/
def keepThenCell : List EntryNode := [⟨2, none, "Keep"⟩, ⟨1, some 2, "Cell"⟩]

/-- The cell is counted as deep as its keep, so its turn is first, and it is put beside the keep; listed before
the keep it is put into it. -/
theorem moved_cell_leaves_keep :
    Slugs sampleSlug ∧ ¬(∀ entries, (entries.map EntryNode.id).Nodup → LegalPaths sampleSlug entries) ∧
      (mapEntryPaths sampleSlug keepThenCell 1).map (fun place => (place.path, place.reasons)) =
        some ("cell.md".toList, []) ∧
      (mapEntryPaths sampleSlug keepThenCell.reverse 1).map (fun place => (place.path, place.reasons)) =
        some ("keep/cell.md".toList, []) := by
  have hafter : (mapEntryPaths sampleSlug keepThenCell 1).map (fun place => (place.path, place.reasons)) =
      some ("cell.md".toList, []) := by decide +kernel
  have hbefore : (mapEntryPaths sampleSlug keepThenCell.reverse 1).map (fun place => (place.path, place.reasons)) =
      some ("keep/cell.md".toList, []) := by decide +kernel
  refine ⟨slugs_sampleSlug, fun hlegal => ?_, hafter, hbefore⟩
  have hfree := (hlegal keepThenCell (by decide)).order_free keepThenCell.reverse (List.reverse_perm _)
  rw [hfree, hafter] at hbefore
  revert hbefore
  decide

end ThunderForge.Mirror
