import ThunderForge.SheetImport.Plan

/-! Leaves composed into one value: each stays where it was written while the others are written apart from it. -/

namespace ThunderForge.SheetImport

/-- The value at a path of segments. -/
def valueAt : List String → Json → Option Json
  | [], node => some node
  | first :: rest, node =>
    match parseUsize first with
    | some index =>
      match node with
      | .array items => items[index]?.bind (valueAt rest)
      | _ => none
    | none => (node.get? first).bind (valueAt rest)

/-- Neither path is under the other, and where they part both are indices or both are keys. -/
def Apart : List String → List String → Prop
  | first :: rest, first' :: rest' =>
    match parseUsize first, parseUsize first' with
    | some index, some index' => index = index' → Apart rest rest'
    | none, none => first = first' → Apart rest rest'
    | some _, none | none, some _ => False
  | _, _ => False

instance Apart.decidable : ∀ path path', Decidable (Apart path path')
  | first :: rest, first' :: rest' =>
    have := Apart.decidable rest rest'
    match h : parseUsize first, h' : parseUsize first' with
    | some index, some index' => decidable_of_iff (index = index' → Apart rest rest') (by simp [Apart, h, h'])
    | none, none => decidable_of_iff (first = first' → Apart rest rest') (by simp [Apart, h, h'])
    | some _, none | none, some _ => isFalse (by simp [Apart, h, h'])
  | [], _ => isFalse (by simp [Apart])
  | _ :: _, [] => isFalse (by simp [Apart])

theorem valueAt_setPath (path : List String) (node value : Json) :
    valueAt path (setPath path node value) = some value := by
  induction path generalizing node with
  | nil => rfl
  | cons first rest ih =>
      unfold valueAt setPath
      cases hindex : parseUsize first with
      | none =>
          simp only
          rw [Json.get?_setField_self, Option.bind_some, ih]
      | some index =>
          simp only
          rw [List.getElem?_set_self (by rw [List.length_append, List.length_replicate]; omega), Option.bind_some, ih]

/-- What is written apart from a value leaves it where it is. -/
theorem valueAt_setPath_of_apart {path path' : List String} (h : Apart path path') {node held : Json} (value : Json)
    (hheld : valueAt path node = some held) : valueAt path (setPath path' node value) = some held := by
  induction path generalizing path' node with
  | nil => exact h.elim
  | cons first rest ih =>
      cases path' with
      | nil => exact h.elim
      | cons first' rest' =>
          unfold Apart at h
          unfold valueAt at hheld ⊢
          unfold setPath
          cases hindex : parseUsize first with
          | none =>
              cases hindex' : parseUsize first' with
              | some index' =>
                  rw [hindex, hindex'] at h
                  exact h.elim
              | none =>
                  simp only [hindex, hindex'] at h hheld ⊢
                  cases node with
                  | object fields =>
                      obtain ⟨child, hchild, hrest⟩ := Option.bind_eq_some_iff.mp hheld
                      by_cases hkey : first = first'
                      · subst hkey
                        rw [Json.get?_setField_self, Option.bind_some]
                        exact ih (h rfl) (by rw [hchild]; exact hrest)
                      · rw [Json.get?_setField_of_ne hkey, hchild]
                        exact hrest
                  | null | bool | integer | float | string | array => simp [Json.get?] at hheld
          | some index =>
              cases hindex' : parseUsize first' with
              | none =>
                  rw [hindex, hindex'] at h
                  exact h.elim
              | some index' =>
                  simp only [hindex, hindex'] at h hheld ⊢
                  cases node with
                  | array items =>
                      obtain ⟨child, hchild, hrest⟩ := Option.bind_eq_some_iff.mp hheld
                      have hlt : index < items.length := (List.getElem?_eq_some_iff.mp hchild).1
                      have hpadded : (items ++ List.replicate (index' + 1 - items.length) Json.null)[index]? =
                          some child := by rw [List.getElem?_append_left hlt, hchild]
                      dsimp only
                      by_cases hsame : index = index'
                      · subst hsame
                        rw [List.getElem?_set_self (by rw [List.length_append]; omega), Option.bind_some]
                        exact ih (h rfl) (by rw [hpadded]; exact hrest)
                      · rw [List.getElem?_set_ne (Ne.symm hsame), hpadded]
                        exact hrest
                  | null | bool | integer | float | string | object => simp at hheld

/-- A leaf that what is written later is apart from is in the value they make. -/
theorem valueAt_foldl {α : Type} {segments : α → List String} {value : α → Json} {leaves : List α} {leaf : α}
    {Kept : α → Prop} (hleaf : leaf ∈ leaves) (hkept : Kept leaf)
    (hapart : leaves.Pairwise fun left right => Kept left → Apart (segments left) (segments right)) (start : Json) :
    valueAt (segments leaf) (leaves.foldl (fun node leaf => setPath (segments leaf) node (value leaf)) start) =
      some (value leaf) := by
  obtain ⟨before, after, rfl⟩ := List.append_of_mem hleaf
  have hafter : ∀ other ∈ after, Apart (segments leaf) (segments other) := fun other hother =>
    (List.pairwise_cons.mp (List.pairwise_append.mp hapart).2.1).1 other hother hkept
  rw [List.foldl_append, List.foldl_cons]
  generalize hnode : setPath (segments leaf) (before.foldl _ start) (value leaf) = node
  have hheld : valueAt (segments leaf) node = some (value leaf) := by rw [← hnode, valueAt_setPath]
  clear hapart hnode hleaf
  induction after generalizing node with
  | nil => exact hheld
  | cons other after ih =>
      obtain ⟨hother, hothers⟩ := List.forall_mem_cons.mp hafter
      exact ih hothers _ (valueAt_setPath_of_apart hother _ hheld)

/-- A leaf that its group is composed apart from is part of the value composed. -/
theorem valueAt_compose {declared : String} {group : List Planned} {leaf : Planned} {Kept : Planned → Prop}
    (hleaf : leaf ∈ group) (hkept : Kept leaf) (hunread : leaf.certainty ≠ .unread) {value : Json}
    (hvalue : leaf.value = some value)
    (hapart : (group.filter fun leaf => leaf.certainty ≠ .unread).Pairwise fun left right =>
      Kept left → Apart (relative declared left.path) (relative declared right.path)) (old : Option Json) :
    (compose declared group old).certainty ≠ .unread ∧
      (compose declared group old).value.bind (valueAt (relative declared leaf.path)) = some value := by
  have htold : leaf ∈ group.filter fun leaf => leaf.certainty ≠ .unread :=
    List.mem_filter.mpr ⟨hleaf, by simpa using hunread⟩
  unfold compose
  simp only
  rw [if_neg (List.ne_nil_of_mem htold)]
  refine ⟨?_, ?_⟩
  · dsimp only
    split_ifs <;> simp
  · have hplaced (start : Json) : valueAt (relative declared leaf.path)
        ((group.filter fun leaf => leaf.certainty ≠ .unread).foldl
          (fun node leaf => setPath (relative declared leaf.path) node (leaf.value.getD .null)) start) =
        some (leaf.value.getD .null) := valueAt_foldl htold hkept hapart start
    rw [hvalue, Option.getD_some] at hplaced
    rw [Option.bind_some]
    exact hplaced _

end ThunderForge.SheetImport
