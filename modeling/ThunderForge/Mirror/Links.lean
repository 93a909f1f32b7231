import ThunderForge.Mirror.Paths

/-! Relative links lead where they are meant to: followed from the directory of the file that carries one, a link comes
to its target. -/

namespace ThunderForge.Mirror

/-- A path whose components all name something. -/
def PlainPath (path : Name) : Prop :=
  ∀ part ∈ path.splitOn '/', part ≠ [] ∧ part ≠ ".".toList ∧ part ≠ "..".toList

instance (path : Name) : Decidable (PlainPath path) := inferInstanceAs (Decidable (∀ part ∈ path.splitOn '/', _))

/-- One component of a link that is followed. -/
def followPart (directory : List Name) (part : Name) : List Name :=
  if part = "..".toList then directory.dropLast
  else if part = ".".toList ∨ part = [] then directory
  else directory ++ [part]

/-- Where a link leads from a directory. -/
def follow (directory : List Name) (link : Name) : List Name := (link.splitOn '/').foldl followPart directory

/-- The directory of a file. -/
def directoryOfFile (path : Name) : List Name := (path.splitOn '/').dropLast

theorem follow_parts (directory : List Name) {parts : List Name}
    (hparts : ∀ part ∈ parts, part ≠ [] ∧ part ≠ ".".toList ∧ part ≠ "..".toList) :
    parts.foldl followPart directory = directory ++ parts := by
  induction parts generalizing directory with
  | nil => exact (List.append_nil directory).symm
  | cons part parts ih =>
      obtain ⟨⟨hne, hdot, hup⟩, hrest⟩ := List.forall_mem_cons.mp hparts
      have hstep : followPart directory part = directory ++ [part] := by
        rw [followPart, if_neg hup, if_neg (not_or.mpr ⟨hdot, hne⟩)]
      rw [List.foldl_cons, hstep, ih _ hrest, List.append_assoc]
      rfl

theorem follow_up (directory : List Name) (n : Nat) :
    (List.replicate n "..".toList).foldl followPart directory = directory.take (directory.length - n) := by
  induction n generalizing directory with
  | zero => exact (List.take_length (l := directory)).symm
  | succ n ih =>
      have hstep : followPart directory "..".toList = directory.dropLast := if_pos rfl
      rw [List.replicate_succ, List.foldl_cons, hstep, ih, List.length_dropLast, List.dropLast_eq_take, List.take_take]
      congr 1
      omega

theorem splitOn_up (n : Nat) (text : Name) :
    ((List.replicate n "../".toList).flatten ++ text).splitOn '/' =
      List.replicate n "..".toList ++ text.splitOn '/' := by
  induction n with
  | zero => rfl
  | succ n ih =>
      rw [List.replicate_succ, List.flatten_cons, List.append_assoc, List.replicate_succ, List.cons_append, ← ih]
      have hup : '/' ∉ "..".toList := by decide
      exact List.splitOn_append_cons_self_of_not_mem hup _

theorem notMem_of_mem_splitOn {sep : Char} {text part : Name} (h : part ∈ text.splitOn sep) : sep ∉ part := by
  induction text generalizing part with
  | nil =>
      obtain rfl := List.mem_singleton.mp h
      exact List.not_mem_nil
  | cons c text ih =>
      rw [List.splitOn_cons_eq_if_modifyHead] at h
      split_ifs at h with hc
      · rcases List.mem_cons.mp h with rfl | h
        · exact List.not_mem_nil
        · exact ih h
      · obtain ⟨first, others, hsplit⟩ := List.exists_cons_of_ne_nil (List.splitOn_ne_nil sep text)
        rw [hsplit] at h ih
        rcases List.mem_cons.mp h with rfl | h
        · rw [List.mem_cons, not_or]
          exact ⟨fun heq => hc (beq_iff_eq.mpr heq.symm), ih List.mem_cons_self⟩
        · exact ih (List.mem_cons_of_mem first h)

/-- What two lists share at the front. -/
theorem take_shared {α : Type} [DecidableEq α] (left right : List α) {n : Nat}
    (h : n ≤ ((left.zip right).takeWhile fun (a, b) => a = b).length) : left.take n = right.take n ∧ n ≤ left.length := by
  induction left generalizing right n with
  | nil =>
      obtain rfl := Nat.le_zero.mp h
      exact ⟨rfl, le_rfl⟩
  | cons a left ih =>
      cases n with
      | zero => exact ⟨rfl, Nat.zero_le _⟩
      | succ n =>
          cases right with
          | nil => cases h
          | cons b right =>
              rw [List.zip_cons_cons, List.takeWhile_cons] at h
              split_ifs at h with heq
              · obtain ⟨htake, hle⟩ := ih right (Nat.le_of_succ_le_succ h)
                rw [List.take_succ_cons, List.take_succ_cons, of_decide_eq_true heq, htake]
                exact ⟨rfl, Nat.succ_le_succ hle⟩
              · cases h

/-- A relative link goes up to the directory that both files share, and down from there. -/
theorem follow_relativeLink (from' : Name) {to' : Name} (hto : PlainPath to') :
    follow (directoryOfFile from') (relativeLink from' to') = to'.splitOn '/' := by
  have hpos : 0 < (to'.splitOn '/').length := List.length_pos_iff.mpr (List.splitOn_ne_nil _ _)
  unfold relativeLink
  dsimp only
  set toParts := to'.splitOn '/' with htoParts
  set fromDirs := (from'.splitOn '/').dropLast with hfromDirs
  generalize hshared : min _ (toParts.length - 1) = shared
  have hrest : toParts.drop shared ≠ [] := by
    rw [Ne, List.drop_eq_nil_iff]
    omega
  have hsplit : (joinSegments (toParts.drop shared)).splitOn '/' = toParts.drop shared :=
    List.splitOn_intercalate '/' (fun part hpart => notMem_of_mem_splitOn (List.mem_of_mem_drop hpart)) hrest
  have hlink : ((List.replicate (fromDirs.length - shared) "../".toList).flatten ++
      joinSegments (toParts.drop shared)).splitOn '/' =
        List.replicate (fromDirs.length - shared) "..".toList ++ toParts.drop shared := by
    rw [splitOn_up, hsplit]
  obtain ⟨htake, hle⟩ := take_shared fromDirs toParts (min_le_left _ (toParts.length - 1))
  rw [hshared] at htake hle
  rw [if_neg]
  · rw [follow, hlink, List.foldl_append, directoryOfFile, ← hfromDirs, follow_up, Nat.sub_sub_self hle, htake,
      follow_parts _ fun part hpart => hto part (List.mem_of_mem_drop hpart), List.take_append_drop]
  · intro hempty
    rw [hempty, List.splitOn_nil] at hlink
    have hmem : ([] : Name) ∈ List.replicate (fromDirs.length - shared) "..".toList ++ toParts.drop shared := by
      rw [← hlink]
      exact List.mem_singleton_self _
    rcases List.mem_append.mp hmem with hup | hpart
    · exact absurd (List.eq_of_mem_replicate hup) (by decide)
    · exact (hto [] (List.mem_of_mem_drop hpart)).1 rfl

/-- Every relative link leads to its target, so from one file distinct targets have distinct links. -/
theorem relativeLinks_lead (from' : Name) :
    (∀ to', PlainPath to' → joinSegments (follow (directoryOfFile from') (relativeLink from' to')) = to') ∧
      ∀ to₁ to₂, PlainPath to₁ → PlainPath to₂ → relativeLink from' to₁ = relativeLink from' to₂ → to₁ = to₂ := by
  have hleads (to' : Name) (hto : PlainPath to') :
      joinSegments (follow (directoryOfFile from') (relativeLink from' to')) = to' := by
    rw [follow_relativeLink from' hto]
    exact List.intercalate_splitOn '/'
  refine ⟨hleads, fun to₁ to₂ h₁ h₂ hlink => ?_⟩
  rw [← hleads to₁ h₁, hlink, hleads to₂ h₂]

/-- From a file to one in the directory that is called like it. -/
theorem keep_links_lead :
    joinSegments (follow (directoryOfFile "x/a.md".toList) (relativeLink "x/a.md".toList "x/a/b.md".toList)) =
        "x/a/b.md".toList ∧
      relativeLink "x/a.md".toList "x/a/b.md".toList ≠ relativeLink "x/a.md".toList "b.md".toList := by
  obtain ⟨hleads, hinj⟩ := relativeLinks_lead "x/a.md".toList
  refine ⟨hleads _ (by decide), fun hlink => ?_⟩
  exact absurd (hinj _ _ (by decide) (by decide) hlink) (by decide)

end ThunderForge.Mirror
