import ThunderForge.Mirror.Depths
import ThunderForge.Mirror.Places

/-! The same entries in another order. They have the same parents and try the same paths; their turns come in
another order, in which an entry is sure to come after another only when it is below it, or when the other is a
root with a smaller identifier. -/

namespace ThunderForge.Mirror

open Forest FirstFree

section

variable {slugify : String → Name} {entries entries' : List EntryNode} {id holder parent : Uuid}

theorem byId_eq_some_iff (hids : (entries.map EntryNode.id).Nodup) {node : EntryNode} :
    byId entries id = some node ↔ node ∈ entries ∧ node.id = id := by
  refine ⟨byId_eq_some, ?_⟩
  rintro ⟨hmem, rfl⟩
  exact byId_of_mem hids hmem

theorem byId_perm (hids : (entries.map EntryNode.id).Nodup) (hperm : entries'.Perm entries) (id : Uuid) :
    byId entries' id = byId entries id := by
  have hids' : (entries'.map EntryNode.id).Nodup := ((hperm.map EntryNode.id).nodup_iff).mpr hids
  ext node
  rw [byId_eq_some_iff hids', byId_eq_some_iff hids, hperm.mem_iff]

theorem resolveParents_perm (hids : (entries.map EntryNode.id).Nodup) (hperm : entries'.Perm entries) :
    resolveParents entries' = resolveParents entries := by
  have hnamed : namedParent entries' = namedParent entries := by
    funext id
    simp only [namedParent, byId_perm hids hperm]
  funext id
  ext parent
  rw [resolveParents_eq_some, resolveParents_eq_some, hnamed]

theorem slugOf_perm (hids : (entries.map EntryNode.id).Nodup) (hperm : entries'.Perm entries) :
    slugOf slugify entries' = slugOf slugify entries := by
  funext id
  rw [slugOf, slugOf, byId_perm hids hperm]

theorem parentDirectoryOf_perm (hids : (entries.map EntryNode.id).Nodup) (hperm : entries'.Perm entries) :
    parentDirectoryOf entries' = parentDirectoryOf entries := by
  funext id held
  rw [parentDirectoryOf, parentDirectoryOf, resolveParents_perm hids hperm]

theorem directoryOf_perm (hids : (entries.map EntryNode.id).Nodup) (hperm : entries'.Perm entries) :
    directoryOf entries' = directoryOf entries := by
  funext id held
  exact congrArg landing (congrFun (congrFun (parentDirectoryOf_perm hids hperm) id) held)

theorem pathsTried_perm (hids : (entries.map EntryNode.id).Nodup) (hperm : entries'.Perm entries) :
    pathsTried slugify entries' = pathsTried slugify entries := by
  funext id held k
  rw [pathsTried, pathsTried, directoryOf_perm hids hperm, slugOf_perm hids hperm]

theorem placeFor_perm (hids : (entries.map EntryNode.id).Nodup) (hperm : entries'.Perm entries) :
    placeFor slugify entries' = placeFor slugify entries := by
  funext id held taken
  unfold placeFor
  rw [directoryOf_perm hids hperm, parentDirectoryOf_perm hids hperm, slugOf_perm hids hperm]

/-! The order of the turns. -/

/-- What the turns are ordered by. -/
def turnKey (entries : List EntryNode) (id : Uuid) : Nat ×ₗ Nat := toLex (depthIn entries id, id.toNat)

theorem pairwise_orderIds (entries : List EntryNode) :
    (orderIds entries).Pairwise fun a b => turnKey entries a ≤ turnKey entries b :=
  List.pairwise_map.mpr (SortBy.pairwise_le_sortBy (orderKey entries) entries)

theorem before_of_turnKey (hholder : holder ∈ entries.map EntryNode.id) (hid : id ∈ entries.map EntryNode.id)
    (hlt : turnKey entries holder < turnKey entries id) : holder ∈ before (orderIds entries) id :=
  before_of_key_lt (pairwise_orderIds entries) (mem_orderIds.mpr hholder) (mem_orderIds.mpr hid) hlt

theorem mem_of_resolveParents (h : resolveParents entries id = some parent) :
    id ∈ entries.map EntryNode.id ∧ parent ∈ entries.map EntryNode.id := by
  obtain ⟨hown, hin⟩ := namedParent_eq_some.mp (resolveParents_eq_some.mp h).1
  obtain ⟨node, hnode, -⟩ := Option.bind_eq_some_iff.mp hown
  exact ⟨isSome_byId.mp (by rw [hnode]; rfl), isSome_byId.mp hin⟩

/-- Every entry that counts as a parent has a smaller identifier than its child. -/
def OlderParents (entries : List EntryNode) : Prop :=
  ∀ id parent, resolveParents entries id = some parent → parent.toNat < id.toNat

theorem OlderParents.turnKey_lt (h : OlderParents entries) (hparent : resolveParents entries id = some parent) :
    turnKey entries parent < turnKey entries id := by
  rw [turnKey, turnKey, Prod.Lex.toLex_lt_toLex]
  rcases (depthIn_parent_le (mem_of_resolveParents hparent).1 hparent).lt_or_eq with hlt | heq
  · exact Or.inl hlt
  · exact Or.inr ⟨heq, h id parent hparent⟩

theorem OlderParents.parent_before (h : OlderParents entries) (hparent : resolveParents entries id = some parent) :
    parent ∈ before (orderIds entries) id := by
  obtain ⟨hid, hin⟩ := mem_of_resolveParents hparent
  exact before_of_turnKey hin hid (h.turnKey_lt hparent)

/-- An entry whose turn comes before another's whatever the order of the list: it is above it, or a root with a
smaller identifier. -/
def ComesFirst (parents : Uuid → Option Uuid) (holder id : Uuid) : Prop :=
  Reaches parents id holder ∨ parents holder = none ∧ holder.toNat < id.toNat

theorem OlderParents.reaches_turnKey (h : OlderParents entries) (hreaches : Reaches (resolveParents entries) id holder) :
    holder = id ∨ turnKey entries holder < turnKey entries id := by
  induction hreaches using Relation.ReflTransGen.head_induction_on with
  | refl => exact Or.inl rfl
  | head hstep _ ih =>
      have hlt := h.turnKey_lt hstep
      rcases ih with heq | hbelow
      · exact Or.inr (heq ▸ hlt)
      · exact Or.inr (hbelow.trans hlt)

theorem OlderParents.comesFirst_before (h : OlderParents entries) (hholder : holder ∈ entries.map EntryNode.id)
    (hid : id ∈ entries.map EntryNode.id) (hne : holder ≠ id) (hfirst : ComesFirst (resolveParents entries) holder id) :
    holder ∈ before (orderIds entries) id := by
  refine before_of_turnKey hholder hid ?_
  rcases hfirst with hreaches | ⟨hroot, hlt⟩
  · exact (h.reaches_turnKey hreaches).resolve_left hne
  · rw [turnKey, turnKey, Prod.Lex.toLex_lt_toLex, depthIn_root hholder hroot]
    rcases Nat.eq_zero_or_pos (depthIn entries id) with hzero | hpos
    · exact Or.inr ⟨hzero.symm, hlt⟩
    · exact Or.inl hpos

/-- The entries with one listed first and the others by their identifiers. -/
def firstThenById (first : EntryNode) (entries : List EntryNode) : List EntryNode :=
  first :: SortBy.sortBy (fun node => node.id.toNat) (entries.erase first)

theorem firstThenById_perm {first : EntryNode} (hfirst : first ∈ entries) :
    (firstThenById first entries).Perm entries :=
  ((SortBy.sortBy_perm _ _).cons first).trans (List.perm_cons_erase hfirst).symm

theorem parentsFirst_of_sorted {parents : Uuid → Option Uuid} {seen ids : List Uuid}
    (hlower : ∀ id parent, parents id = some parent → parent.toNat < id.toNat ∧ (parent ∈ seen ∨ parent ∈ ids))
    (hsorted : ids.Pairwise fun a b => a.toNat ≤ b.toNat) : ParentsFirst parents seen ids := by
  induction ids generalizing seen with
  | nil => trivial
  | cons id ids ih =>
      obtain ⟨hleast, hsorted⟩ := List.pairwise_cons.mp hsorted
      refine ⟨fun parent hparent => ?_, ih (fun other parent hparent => ?_) hsorted⟩
      · obtain ⟨hlt, hseen | hmem⟩ := hlower id parent hparent
        · exact hseen
        · rcases List.mem_cons.mp hmem with rfl | hmem
          · exact absurd hlt (lt_irrefl _)
          · exact absurd hlt (not_lt.mpr (hleast parent hmem))
      · obtain ⟨hlt, hseen | hmem⟩ := hlower other parent hparent
        · exact ⟨hlt, Or.inl (List.mem_cons_of_mem _ hseen)⟩
        · rcases List.mem_cons.mp hmem with rfl | hmem
          · exact ⟨hlt, Or.inl List.mem_cons_self⟩
          · exact ⟨hlt, Or.inr hmem⟩

/-- Where an entry is not sure to come first, there is an order of the list in which it does not. -/
theorem not_before_firstThenById (hids : (entries.map EntryNode.id).Nodup) (hlower : OlderParents entries)
    {first : EntryNode} (hfirst : first ∈ entries) (hid : id ∈ entries.map EntryNode.id) (hne : first.id ≠ id)
    (hnot : ¬ComesFirst (resolveParents entries) first.id id) :
    first.id ∉ before (orderIds (firstThenById first entries)) id := by
  have hperm := firstThenById_perm hfirst
  have hparents := resolveParents_perm hids hperm
  have hmem {id : Uuid} (hid : id ∈ entries.map EntryNode.id) :
      id ∈ (firstThenById first entries).map EntryNode.id := (hperm.map EntryNode.id).mem_iff.mpr hid
  obtain ⟨hbelow, hroot⟩ := not_or.mp hnot
  have hsorted : ((SortBy.sortBy (fun node : EntryNode => node.id.toNat) (entries.erase first)).map
      EntryNode.id).Pairwise fun a b => a.toNat ≤ b.toNat :=
    List.pairwise_map.mpr (SortBy.pairwise_le_sortBy _ _)
  have horder : ParentsFirst (resolveParents (firstThenById first entries)) [first.id]
      ((SortBy.sortBy (fun node : EntryNode => node.id.toNat) (entries.erase first)).map EntryNode.id) := by
    refine parentsFirst_of_sorted (fun other parent hparent => ?_) hsorted
    rw [hparents] at hparent
    refine ⟨hlower other parent hparent, ?_⟩
    have hin := hmem (mem_of_resolveParents hparent).2
    rw [firstThenById, List.map_cons, List.mem_cons] at hin
    exact hin.imp_left List.mem_singleton.mpr
  refine not_before_of_before (before_of_turnKey (hmem hid) (hmem (List.mem_map_of_mem hfirst)) ?_)
  rw [turnKey, turnKey, Prod.Lex.toLex_lt_toLex]
  rcases depthIn_parentsFirst horder (hmem hid) (hparents ▸ hbelow) with hlt | ⟨htop, hzero⟩
  · exact Or.inl hlt
  · refine Or.inr ⟨hzero.trans (depthIn_root (hmem (List.mem_map_of_mem hfirst)) htop).symm, ?_⟩
    have htop' : resolveParents entries first.id = none := hparents ▸ htop
    have hle : id.toNat ≤ first.id.toNat := not_lt.mp fun hlt => hroot ⟨htop', hlt⟩
    exact lt_of_le_of_ne hle fun heq => hne (BitVec.eq_of_toNat_eq heq).symm

/-- The entries with a child listed right after its parent. -/
def parentThenChild (above below : EntryNode) (entries : List EntryNode) : List EntryNode :=
  above :: below :: (entries.erase above).erase below

theorem parentThenChild_perm {above below : EntryNode} (habove : above ∈ entries) (hbelow : below ∈ entries)
    (hne : below ≠ above) : (parentThenChild above below entries).Perm entries :=
  ((List.perm_cons_erase ((List.mem_erase_of_ne hne).mpr hbelow)).symm.cons above).trans
    (List.perm_cons_erase habove).symm

/-- In that order a child with a smaller identifier has its turn before its parent. -/
theorem before_parentThenChild (hids : (entries.map EntryNode.id).Nodup) {above below : EntryNode}
    (habove : above ∈ entries) (hbelow : below ∈ entries) (hparent : resolveParents entries below.id = some above.id)
    (hlt : below.id.toNat < above.id.toNat) :
    below.id ∈ before (orderIds (parentThenChild above below entries)) above.id := by
  have hne : below ≠ above := by
    rintro rfl
    exact lt_irrefl _ hlt
  have hperm := parentThenChild_perm habove hbelow hne
  have hparents := resolveParents_perm hids hperm
  have hmem {node : EntryNode} (hnode : node ∈ entries) :
      node.id ∈ (parentThenChild above below entries).map EntryNode.id :=
    List.mem_map_of_mem (hperm.mem_iff.mpr hnode)
  refine before_of_turnKey (hmem hbelow) (hmem habove) ?_
  rw [turnKey, turnKey, Prod.Lex.toLex_lt_toLex]
  exact Or.inr ⟨depthIn_after_parent (by rw [← hparent, ← hparents]; rfl), hlt⟩

end

end ThunderForge.Mirror
