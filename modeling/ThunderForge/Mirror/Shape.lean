import Mathlib.Data.List.DropRight
import ThunderForge.Mirror.Stability

/-! What the paths of the mirror look like: every directory an entry goes into is a directory its parent's
path is made of, within the depth and with room for a name; and how long the names tried in it are. -/

namespace ThunderForge.Mirror

/-! Lengths. -/

@[simp] theorem byteLen_nil : byteLen [] = 0 := rfl

@[simp] theorem byteLen_cons (c : Char) (text : Name) : byteLen (c :: text) = c.utf8Size + byteLen text := rfl

@[simp] theorem byteLen_append (left right : Name) : byteLen (left ++ right) = byteLen left + byteLen right := by
  induction left with
  | nil => simp
  | cons c left ih => rw [List.cons_append, byteLen_cons, byteLen_cons, ih, Nat.add_assoc]

theorem byteLen_pos {text : Name} (h : text ≠ []) : 0 < byteLen text := by
  cases text with
  | nil => exact absurd rfl h
  | cons c text => exact Nat.add_pos_left c.utf8Size_pos _

theorem byteLen_eq_length {text : Name} (h : ∀ c ∈ text, c.utf8Size = 1) : byteLen text = text.length := by
  induction text with
  | nil => rfl
  | cons c text ih =>
      obtain ⟨hc, htext⟩ := List.forall_mem_cons.mp h
      rw [byteLen_cons, hc, ih htext, List.length_cons, Nat.add_comm]

theorem byteLen_takeBytes_le (room : Nat) (text : Name) : byteLen (takeBytes room text) ≤ room := by
  induction text generalizing room with
  | nil => exact Nat.zero_le room
  | cons c text ih =>
      unfold takeBytes
      split_ifs with hfits
      · have hrest := ih (room - c.utf8Size)
        rw [byteLen_cons]
        omega
      · exact Nat.zero_le room

theorem byteLen_dropWhile_le (p : Char → Bool) (text : Name) : byteLen (text.dropWhile p) ≤ byteLen text := by
  induction text with
  | nil => exact le_rfl
  | cons c text ih =>
      rw [List.dropWhile_cons]
      split_ifs
      · exact ih.trans (Nat.le_add_left _ _)
      · exact le_rfl

theorem byteLen_reverse (text : Name) : byteLen text.reverse = byteLen text := by
  induction text with
  | nil => rfl
  | cons c text ih =>
      rw [List.reverse_cons, byteLen_append, ih, byteLen_cons, byteLen_cons, byteLen_nil]
      omega

theorem byteLen_truncateSlug_le (slug : Name) (room : Nat) : byteLen (truncateSlug slug room) ≤ room := by
  unfold truncateSlug
  split_ifs with hshort
  · exact hshort
  · calc byteLen (trimDashes (takeBytes room slug))
        = byteLen ((takeBytes room slug).reverse.dropWhile (· == '-')) := byteLen_reverse _
      _ ≤ byteLen (takeBytes room slug).reverse := byteLen_dropWhile_le _ _
      _ = byteLen (takeBytes room slug) := byteLen_reverse _
      _ ≤ room := byteLen_takeBytes_le _ _

theorem length_shortId (id : Uuid) : (shortId id).length = suffixHexChars := by
  rw [shortId, List.length_map, List.length_range]

theorem byteLen_shortId (id : Uuid) : byteLen (shortId id) = suffixHexChars := by
  have hdigit : ∀ n < 16, (Nat.digitChar n).utf8Size = 1 := by decide
  rw [byteLen_eq_length, length_shortId]
  intro c hc
  obtain ⟨i, -, rfl⟩ := List.mem_map.mp hc
  exact hdigit _ (Nat.mod_lt _ (by decide))

theorem byteLen_toDigits (n : Nat) : byteLen (Nat.toDigits 10 n) = (Nat.toDigits 10 n).length := by
  refine byteLen_eq_length fun c hc => ?_
  have hdigit := Nat.isDigit_of_mem_toDigits (by decide) (by decide) hc
  simp only [Char.isDigit, Bool.and_eq_true, decide_eq_true_eq] at hdigit
  have hascii : '9'.val ≤ 127 := by decide
  exact Char.utf8Size_eq_one_iff.mpr (UInt32.le_trans hdigit.2 hascii)

/-- What the suffix and the counter take on one try, with the dashes before them. -/
def suffixBytes : Nat → Nat
  | 0 => suffixHexChars + 1
  | k + 1 => suffixHexChars + (Nat.toDigits 10 (k + 2)).length + 2

/-- The base as it is shortened for one try. -/
def shortened (budget : Nat) (base suffix : Name) : Nat → Name
  | 0 => trimmedBase budget base suffix
  | k + 1 => truncateSlug (trimmedBase budget base suffix) (budget - suffixBytes (k + 1))

theorem byteLen_shortened_le (budget : Nat) (base : Name) (id : Uuid) (k : Nat) :
    byteLen (shortened budget base (shortId id) k) ≤ budget - suffixBytes k := by
  cases k with
  | zero =>
      rw [shortened, trimmedBase, byteLen_shortId]
      exact byteLen_truncateSlug_le _ _
  | succ k => exact byteLen_truncateSlug_le _ _

theorem byteLen_joinStem (base suffix : Name) :
    byteLen (joinStem base suffix) = (if base = [] then 0 else byteLen base + 1) + byteLen suffix := by
  have hdash : '-'.utf8Size = 1 := rfl
  unfold joinStem
  split_ifs
  · rw [Nat.zero_add]
  · rw [byteLen_append, byteLen_cons, hdash, Nat.add_assoc]

/-- A suffixed name is as long as its base and the suffix, without the dash when nothing is left of the base. -/
theorem byteLen_suffixed (budget : Nat) (base : Name) (id : Uuid) (k : Nat) :
    byteLen (suffixed budget base (shortId id) k) =
      if shortened budget base (shortId id) k = [] then suffixBytes k - 1
      else byteLen (shortened budget base (shortId id) k) + suffixBytes k := by
  have hdash : '-'.utf8Size = 1 := rfl
  cases k with
  | zero =>
      rw [suffixed, shortened, byteLen_joinStem, byteLen_shortId, suffixBytes]
      split_ifs <;> omega
  | succ k =>
      have hroom : budget - (byteLen (shortId id) + byteLen (Nat.toDigits 10 (k + 2)) + 2) =
          budget - suffixBytes (k + 1) := by rw [byteLen_shortId, byteLen_toDigits, suffixBytes]
      rw [suffixed, shortened, hroom, byteLen_append, byteLen_joinStem, byteLen_cons, byteLen_shortId,
        byteLen_toDigits, hdash, suffixBytes]
      split_ifs <;> omega

/-- A suffixed name keeps within the budget exactly when the suffix and the counter alone do. -/
theorem byteLen_suffixed_le_budget {budget k : Nat} {base : Name} {id : Uuid} :
    byteLen (suffixed budget base (shortId id) k) ≤ budget ↔ suffixBytes k ≤ budget + 1 := by
  have hcut := byteLen_shortened_le budget base id k
  rw [byteLen_suffixed]
  split_ifs with hempty
  · exact Nat.sub_le_iff_le_add
  · have hpos := byteLen_pos hempty
    omega

/-- It keeps within a component exactly when enough of the base is cut off, as long as the counter does. -/
theorem byteLen_suffixed_le_component {budget k : Nat} {base : Name} {id : Uuid}
    (hcounter : suffixBytes k ≤ maxComponentBytes + 1) :
    byteLen (suffixed budget base (shortId id) k) ≤ maxComponentBytes ↔
      byteLen (shortened budget base (shortId id) k) ≤ maxComponentBytes - suffixBytes k := by
  rw [byteLen_suffixed]
  split_ifs with hempty
  · rw [hempty]
    exact iff_of_true (Nat.sub_le_of_le_add hcounter) (Nat.zero_le _)
  · have hpos := byteLen_pos hempty
    omega

/-! Directories. -/

/-- What the components of a path are: names, without separators of directories or extensions. -/
structure Component (part : Name) : Prop where
  ne_nil : part ≠ []
  no_slash : '/' ∉ part
  no_dot : '.' ∉ part

variable {directories : List Name} {stem : Name}

theorem joinSegments_concat (hne : directories ≠ []) (stem : Name) :
    joinSegments (directories ++ [stem]) = joinSegments directories ++ '/' :: stem := by
  induction directories with
  | nil => exact absurd rfl hne
  | cons directory directories ih =>
      unfold joinSegments at ih ⊢
      by_cases hlast : directories = []
      · rw [hlast, List.cons_append, List.nil_append, List.intercalate_cons_cons, List.intercalate_singleton,
          List.intercalate_singleton, List.append_assoc]
        rfl
      · rw [List.cons_append, List.intercalate_cons_of_ne_nil (by simp), List.intercalate_cons_of_ne_nil hlast,
          ih hlast]
        simp only [List.append_assoc]

theorem joinSegments_eq_nil (hparts : ∀ part ∈ directories, Component part) :
    joinSegments directories = [] ↔ directories = [] := by
  refine ⟨fun hempty => ?_, fun hnil => by rw [hnil]; rfl⟩
  rcases List.eq_nil_or_concat' directories with hnil | ⟨before, last, rfl⟩
  · exact hnil
  · by_cases hbefore : before = []
    · rw [hbefore, List.nil_append, joinSegments, List.intercalate_singleton] at hempty
      exact absurd hempty (hparts last (by simp)).ne_nil
    · rw [joinSegments_concat hbefore] at hempty
      simp at hempty

theorem splitOn_joinSegments (hparts : ∀ part ∈ directories, Component part) (hne : directories ≠ []) :
    (joinSegments directories).splitOn '/' = directories :=
  List.splitOn_intercalate '/' (fun part hpart => (hparts part hpart).no_slash) hne

theorem segments_joinSegments (hparts : ∀ part ∈ directories, Component part) :
    segments (joinSegments directories) = directories := by
  by_cases hne : directories = []
  · rw [hne]
    rfl
  · rw [segments, splitOn_joinSegments hparts hne, List.filter_eq_self]
    exact fun part hpart => decide_eq_true (hparts part hpart).ne_nil

theorem filePath_joinSegments (hparts : ∀ part ∈ directories, Component part) :
    filePath (joinSegments directories) stem = joinSegments (directories ++ [stem]) ++ ".md".toList := by
  unfold filePath
  split_ifs with hempty
  · rw [(joinSegments_eq_nil hparts).mp hempty, List.nil_append, joinSegments, List.intercalate_singleton]
  · rw [joinSegments_concat fun hnil => hempty ((joinSegments_eq_nil hparts).mpr hnil)]

theorem no_dot_joinSegments (hparts : ∀ part ∈ directories, Component part) : '.' ∉ joinSegments directories := by
  induction directories using List.reverseRecOn with
  | nil => exact List.not_mem_nil
  | append_singleton before last ih =>
      have hlast := (hparts last (by simp)).no_dot
      by_cases hbefore : before = []
      · rwa [hbefore, List.nil_append, joinSegments, List.intercalate_singleton]
      · rw [joinSegments_concat hbefore]
        have hrest := ih fun part hpart => hparts part (List.mem_append_left _ hpart)
        simp [hrest, hlast]

theorem dropMd_of_no_dot {text : Name} (h : '.' ∉ text) : dropMd text = text := by
  unfold dropMd
  split
  · simp at h
  · rfl

/-- The children of a file go into the directory called like it. -/
theorem childDirectory_filePath (hparts : ∀ part ∈ directories ++ [stem], Component part) :
    childDirectory (filePath (joinSegments directories) stem) = joinSegments (directories ++ [stem]) := by
  rw [filePath_joinSegments fun part hpart => hparts part (List.mem_append_left _ hpart)]
  have hclean : '.' ∉ (joinSegments (directories ++ [stem])).reverse :=
    fun hmem => no_dot_joinSegments hparts (List.mem_reverse.mp hmem)
  have hdrop : dropMd (joinSegments (directories ++ [stem]) ++ ".md".toList).reverse =
      (joinSegments (directories ++ [stem])).reverse := by
    rw [List.reverse_append]
    exact dropMd_of_no_dot hclean
  rw [childDirectory, hdrop, List.reverse_reverse]

/-- A directory that something nameable still fits in. -/
def Holds (directories : List Name) : Prop :=
  directories = [] ∨ fits directories.length (joinSegments directories) = true

/-- Climbing stops at a directory on the way up that something fits in. -/
theorem climbSegments_eq (directories : List Name) :
    ∃ kept, kept <+: directories ∧ climbSegments directories.reverse = joinSegments kept ∧ Holds kept := by
  induction directories using List.reverseRecOn with
  | nil => exact ⟨[], List.prefix_rfl, rfl, Or.inl rfl⟩
  | append_singleton above last ih =>
      rw [List.reverse_append, List.reverse_singleton, List.singleton_append, climbSegments, List.reverse_cons,
        List.reverse_reverse, List.length_reverse]
      split_ifs with hfits
      · exact ⟨above ++ [last], List.prefix_rfl, rfl, Or.inr (by rwa [List.length_append])⟩
      · obtain ⟨kept, hkept, hclimb, hholds⟩ := ih
        exact ⟨kept, hkept.trans (List.prefix_append _ _), hclimb, hholds⟩

/-- An entry lands in a directory on the way up from its parent's that something fits in. -/
theorem landing_eq (hparts : ∀ part ∈ directories, Component part) :
    ∃ kept, kept <+: directories ∧ landing (joinSegments directories) = joinSegments kept ∧ Holds kept := by
  unfold landing
  split_ifs with hdescends
  · refine ⟨directories, List.prefix_rfl, rfl, ?_⟩
    rw [descends, Bool.or_eq_true, List.isEmpty_iff, joinSegments_eq_nil hparts, segments_joinSegments hparts]
      at hdescends
    exact hdescends
  · rw [climbUntilItFits, segments_joinSegments hparts]
    exact climbSegments_eq directories

/-! Names. -/

/-- The slugs of the `slug` crate, which never begin with a dash. -/
structure Slugs (slugify : String → Name) : Prop where
  text : SlugText slugify
  head : ∀ title, (slugify title).head? ≠ some '-'

theorem slugs_sampleSlug : Slugs sampleSlug where
  text := sampleSlug_text
  head title := by
    unfold sampleSlug
    split_ifs <;> decide

theorem IsSlug.no_dot {text : Name} (h : IsSlug text) : '.' ∉ text := h.notMem (by decide)

theorem IsSlug.utf8Size {text : Name} (h : IsSlug text) {c : Char} (hc : c ∈ text) : c.utf8Size = 1 := by
  have hlower : 'z'.val ≤ 127 := by decide
  have hdigit : '9'.val ≤ 127 := by decide
  rcases h c hc with hin | hin | rfl
  · simp only [Char.isLower, Bool.and_eq_true, decide_eq_true_eq] at hin
    exact Char.utf8Size_eq_one_iff.mpr (UInt32.le_trans hin.2 hlower)
  · simp only [Char.isDigit, Bool.and_eq_true, decide_eq_true_eq] at hin
    exact Char.utf8Size_eq_one_iff.mpr (UInt32.le_trans hin.2 hdigit)
  · rfl

theorem trimDashes_ne_nil {c : Char} (hc : c ≠ '-') (text : Name) : trimDashes (c :: text) ≠ [] := by
  intro hempty
  rw [trimDashes, List.reverse_eq_nil_iff, List.dropWhile_eq_nil_iff] at hempty
  exact hc (beq_iff_eq.mp (hempty c (by simp)))

theorem truncateSlug_ne_nil {slug : Name} (hne : slug ≠ []) (htext : IsSlug slug) (hhead : slug.head? ≠ some '-')
    {room : Nat} (hroom : 0 < room) : truncateSlug slug room ≠ [] := by
  cases slug with
  | nil => exact absurd rfl hne
  | cons c rest =>
      have hdash : c ≠ '-' := fun heq => hhead (congrArg some heq)
      unfold truncateSlug
      split_ifs
      · exact hne
      · rw [takeBytes, htext.utf8Size List.mem_cons_self, if_pos (show 1 ≤ room from hroom)]
        exact trimDashes_ne_nil hdash _

theorem baseName_ne_nil {slug : Name} (htext : IsSlug slug) (hhead : slug.head? ≠ some '-') {budget : Nat}
    (hbudget : 0 < budget) : baseName budget slug ≠ [] := by
  have hroom : 0 < min maxComponentBytes budget := lt_min (by decide) hbudget
  unfold baseName
  split_ifs with hempty
  · exact truncateSlug_ne_nil (by decide) isSlug_entry (by decide) hroom
  · exact truncateSlug_ne_nil hempty htext hhead hroom

theorem joinStem_length (base suffix : Name) : suffix.length ≤ (joinStem base suffix).length := by
  unfold joinStem
  split_ifs
  · exact le_rfl
  · rw [List.length_append, List.length_cons]
    omega

/-- A suffixed name is at least as long as the suffix. -/
theorem suffixed_length (budget : Nat) (base : Name) (id : Uuid) (k : Nat) :
    suffixHexChars ≤ (suffixed budget base (shortId id) k).length := by
  rw [← length_shortId id]
  cases k with
  | zero => exact joinStem_length _ _
  | succ k =>
      rw [suffixed, List.length_append]
      exact (joinStem_length _ _).trans (Nat.le_add_right _ _)

theorem suffixed_ne_nil (budget : Nat) (base : Name) (id : Uuid) (k : Nat) :
    suffixed budget base (shortId id) k ≠ [] :=
  List.ne_nil_of_length_pos (lt_of_lt_of_le (by decide) (suffixed_length budget base id k))

/-- Whether an entry takes one of the suffixed names. -/
def NeedsSuffix (taken : List Name) (budget : Nat) (slug : Name) : Prop :=
  Forced budget slug ∨ baseName budget slug ∈ taken

instance (taken : List Name) (budget : Nat) (slug : Name) : Decidable (NeedsSuffix taken budget slug) :=
  inferInstanceAs (Decidable (_ ∨ _))

/-- The loop over the suffixed names stops at this one. -/
def StopsAt (taken : List Name) (names : Nat → Name) (k : Nat) : Prop :=
  names k ∉ taken ∧ ∀ j < k, names j ∈ taken

instance (taken : List Name) (names : Nat → Name) (k : Nat) : Decidable (StopsAt taken names k) :=
  inferInstanceAs (Decidable (_ ∧ _))

/-- The stem an entry takes is the bare name, or the suffixed one its loop stops at. -/
theorem stem_cases {taken : List Name} {budget : Nat} {slug : Name} {id : Uuid}
    (h : FirstFree.IsFirst taken (stemNames budget slug id) stem) :
    (¬NeedsSuffix taken budget slug ∧ stem = baseName budget slug) ∨
      NeedsSuffix taken budget slug ∧ ∃ k, stem = suffixed budget (baseName budget slug) (shortId id) k ∧
        StopsAt taken (suffixed budget (baseName budget slug) (shortId id)) k := by
  obtain ⟨i, rfl, hfree, hskipped⟩ := h
  by_cases hforced : Forced budget slug
  · have hnames (j : Nat) : stemNames budget slug id j = suffixed budget (baseName budget slug) (shortId id) j := by
      cases j with
      | zero => rw [stemNames, if_pos hforced]
      | succ j => rw [stemNames, if_pos hforced]
    simp only [hnames] at hfree hskipped ⊢
    exact Or.inr ⟨Or.inl hforced, i, rfl, hfree, hskipped⟩
  · have hbase : stemNames budget slug id 0 = baseName budget slug := by rw [stemNames, if_neg hforced]
    have hrest (j : Nat) :
        stemNames budget slug id (j + 1) = suffixed budget (baseName budget slug) (shortId id) j := by
      rw [stemNames, if_neg hforced]
    cases i with
    | zero =>
        rw [hbase] at hfree
        exact Or.inl ⟨fun hneeds => hneeds.elim hforced hfree, hbase⟩
    | succ k =>
        refine Or.inr ⟨Or.inr (hbase ▸ hskipped 0 (Nat.succ_pos k)), k, hrest k, ?_, fun j hj => ?_⟩
        · rwa [hrest] at hfree
        · rw [← hrest]
          exact hskipped (j + 1) (Nat.succ_lt_succ hj)

theorem reservedStems_length : ∀ stem ∈ reservedStems, stem.length < suffixHexChars := by decide

/-- No stem is a reserved name: a base that is one is suffixed. -/
theorem not_reserved {taken : List Name} {budget : Nat} {slug : Name} {id : Uuid}
    (h : FirstFree.IsFirst taken (stemNames budget slug id) stem) : stem ∉ reservedStems := by
  rcases stem_cases h with ⟨hneeds, hbase⟩ | ⟨-, k, hsuffixed, -⟩
  · rw [hbase]
    exact fun hreserved => hneeds (Or.inl (Or.inr hreserved))
  · intro hreserved
    have hshort := reservedStems_length stem hreserved
    rw [hsuffixed] at hshort
    exact absurd (suffixed_length _ _ _ _) (not_le.mpr hshort)

theorem StopsAt.unique {taken : List Name} {names : Nat → Name} {i j : Nat} (hi : StopsAt taken names i)
    (hj : StopsAt taken names j) : i = j := by
  rcases lt_trichotomy i j with hlt | heq | hlt
  · exact absurd (hj.2 i hlt) hi.1
  · exact heq
  · exact absurd (hi.2 j hlt) hj.1

/-! Every path the allocator has given. -/

/-- A path and what it is made of. -/
structure Shaped (path : Name) (directories : List Name) (stem : Name) : Prop where
  path_eq : path = filePath (joinSegments directories) stem
  parts : ∀ part ∈ directories ++ [stem], Component part
  holds : Holds directories
  free : stem ∉ reservedStems

/-- The places given out so far have the shape of paths, and their children's directories are named like them. -/
def WellShaped (state : Allocator) : Prop :=
  ∀ id place, state.assigned id = some place → place.directory = childDirectory place.path ∧
    ∃ directories stem, Shaped place.path directories stem

theorem wellShaped_empty : WellShaped Allocator.empty := fun _ _ h => nomatch h

variable {slugify : String → Name} {parents : Uuid → Option Uuid} {state : Allocator} {node : EntryNode} {id : Uuid}

/-- The directory of a turn is made of components of the parent's path. -/
theorem WellShaped.directoryFor (h : WellShaped state) (parents : Uuid → Option Uuid) (id : Uuid) :
    ∃ directories, state.directoryFor parents id = joinSegments directories ∧ Holds directories ∧
      (∀ part ∈ directories, Component part) ∧
      (directories = [] ∨ ∃ parent place above stem, parents id = some parent ∧
        state.assigned parent = some place ∧ Shaped place.path above stem ∧ directories <+: above ++ [stem]) := by
  have hroot : ∃ directories, landing [] = joinSegments directories ∧ Holds directories ∧
      (∀ part ∈ directories, Component part) ∧ directories = [] := ⟨[], rfl, Or.inl rfl, by simp, rfl⟩
  unfold Allocator.directoryFor
  cases hparent : parents id with
  | none =>
      obtain ⟨directories, heq, hholds, hparts, hnil⟩ := hroot
      exact ⟨directories, heq, hholds, hparts, Or.inl hnil⟩
  | some parent =>
      rw [Option.bind_some]
      cases hplace : state.assigned parent with
      | none =>
          obtain ⟨directories, heq, hholds, hparts, hnil⟩ := hroot
          exact ⟨directories, heq, hholds, hparts, Or.inl hnil⟩
      | some place =>
          obtain ⟨hdirectory, above, stem, hshaped⟩ := h parent place hplace
          obtain ⟨kept, hkept, hlanding, hholds⟩ := landing_eq hshaped.parts
          have hchild : place.directory = joinSegments (above ++ [stem]) := by
            rw [hdirectory, hshaped.path_eq, childDirectory_filePath hshaped.parts]
          refine ⟨kept, ?_, hholds, fun part hpart => hshaped.parts part (hkept.subset hpart), Or.inr ?_⟩
          · rw [Option.map_some, Option.getD_some, hchild, hlanding]
          · exact ⟨parent, place, above, stem, rfl, hplace, hshaped, hkept⟩

/-- There is always room for the shortest file name. -/
theorem Holds.stemBudget {directories : List Name} (h : Holds directories) :
    minFileBytes ≤ stemBudget (joinSegments directories) + 3 := by
  rcases h with hnil | hfits
  · rw [hnil]
    decide
  · simp only [fits, Bool.and_eq_true, decide_eq_true_eq] at hfits
    obtain ⟨-, hroom⟩ := hfits
    unfold minFileBytes maxPathBytes at hroom
    unfold Mirror.stemBudget minFileBytes maxPathBytes
    split_ifs <;> omega

theorem Slugs.component (hslug : Slugs slugify) {directories : List Name} (hholds : Holds directories)
    {taken : List Name} {title : String}
    (h : FirstFree.IsFirst taken (stemNames (stemBudget (joinSegments directories)) (slugify title) id) stem) :
    Component stem := by
  have htext : IsSlug stem := by
    obtain ⟨i, hi, -⟩ := h
    exact hi ▸ IsSlug.stemNames (hslug.text title) _ _ _
  have hbudget := hholds.stemBudget
  unfold minFileBytes at hbudget
  refine ⟨?_, htext.no_slash, htext.no_dot⟩
  rcases stem_cases h with ⟨-, hbase⟩ | ⟨-, k, hsuffixed, -⟩
  · rw [hbase]
    exact baseName_ne_nil (hslug.text title) (hslug.head title) (by omega)
  · rw [hsuffixed]
    exact suffixed_ne_nil _ _ _ _

/-- A turn that puts an entry under these directories with this stem. -/
structure Turn (slugify : String → Name) (parents : Uuid → Option Uuid) (state : Allocator) (node : EntryNode)
    (directories : List Name) (stem : Name) : Prop where
  directory_eq : state.directoryFor parents node.id = joinSegments directories
  shaped : Shaped (filePath (joinSegments directories) stem) directories stem
  isFirst : FirstFree.IsFirst (state.claims (joinSegments directories))
    (stemNames (stemBudget (joinSegments directories)) (slugify node.title) node.id) stem
  above : directories = [] ∨ ∃ parent place directories' stem', parents node.id = some parent ∧
    state.assigned parent = some place ∧ Shaped place.path directories' stem' ∧ directories <+: directories' ++ [stem']

/-- What one turn does to the shape of the paths. -/
theorem WellShaped.turn (hslug : Slugs slugify) (h : WellShaped state) (parents : Uuid → Option Uuid)
    (node : EntryNode) :
    ∃ directories stem reasons, Turn slugify parents state node directories stem ∧
      allocate slugify parents state node = state.give node.id (joinSegments directories) stem reasons := by
  obtain ⟨stem, reasons, hfirst, hgive⟩ := allocate_eq_give slugify parents state node
  obtain ⟨directories, hdirectory, hholds, hparts, habove⟩ := h.directoryFor parents node.id
  rw [hdirectory] at hfirst hgive
  refine ⟨directories, stem, reasons, ⟨hdirectory, ⟨rfl, ?_, hholds, not_reserved hfirst⟩, hfirst, habove⟩, hgive⟩
  intro part hpart
  rcases List.mem_append.mp hpart with hpart | hpart
  · exact hparts part hpart
  · rw [List.mem_singleton.mp hpart]
    exact hslug.component hholds hfirst

theorem WellShaped.allocate (hslug : Slugs slugify) (h : WellShaped state) (parents : Uuid → Option Uuid)
    (node : EntryNode) : WellShaped (allocate slugify parents state node) := by
  obtain ⟨directories, stem, reasons, hturn, hgive⟩ := h.turn hslug parents node
  rw [hgive]
  intro id place hplace
  by_cases hid : id = node.id
  · rw [hid, Allocator.give_assigned_self, Option.some.injEq] at hplace
    rw [← hplace]
    exact ⟨rfl, directories, stem, hturn.shaped⟩
  · rw [Allocator.give_assigned_of_ne _ _ _ _ hid] at hplace
    exact h id place hplace

theorem wellShaped_run (hslug : Slugs slugify) (parents : Uuid → Option Uuid) (order : List EntryNode) :
    WellShaped (Run.run (allocate slugify parents) Allocator.empty order) :=
  Run.invariant (fun _ node h => h.allocate hslug parents node) wellShaped_empty order

/-- What every path has once an entry is given one is what they had before, and the new one has it. -/
theorem forall_give_iff {Q : Name → Prop} {directory stem : Name} {reasons : List DisambiguationReason}
    (hnew : state.assigned id = none) :
    (∀ other place, (state.give id directory stem reasons).assigned other = some place → Q place.path) ↔
      (∀ other place, state.assigned other = some place → Q place.path) ∧ Q (filePath directory stem) := by
  constructor
  · intro h
    refine ⟨fun other place hplace => h other place ?_, h id _ (Allocator.give_assigned_self _ _ _ _)⟩
    have hne : other ≠ id := by
      rintro rfl
      rw [hnew] at hplace
      cases hplace
    exact (Allocator.give_assigned_of_ne _ _ _ _ hne).trans hplace
  · rintro ⟨hbefore, hpath⟩ other place hplace
    by_cases hother : other = id
    · rw [hother, Allocator.give_assigned_self, Option.some.injEq] at hplace
      rw [← hplace]
      exact hpath
    · rw [Allocator.give_assigned_of_ne _ _ _ _ hother] at hplace
      exact hbefore other place hplace

/-- What a turn gives the new path exactly when it meets a condition, if the paths before it have it, all paths
have at the end exactly when every turn meets the condition. -/
theorem forall_paths_iff (hslug : Slugs slugify) {nodes : List EntryNode} (hids : (nodes.map EntryNode.id).Nodup)
    {Q : Name → Prop} {ok : Allocator → EntryNode → Prop}
    (hturn : ∀ before node, before ++ [node] <+: ordered nodes → ∀ directories stem,
      Turn slugify (resolveParents nodes)
        (Run.run (Mirror.allocate slugify (resolveParents nodes)) Allocator.empty before) node directories stem →
      (∀ id place, (Run.run (Mirror.allocate slugify (resolveParents nodes)) Allocator.empty before).assigned id =
        some place → Q place.path) →
      (Q (filePath (joinSegments directories) stem) ↔
        ok (Run.run (Mirror.allocate slugify (resolveParents nodes)) Allocator.empty before) node)) :
    (∀ id place, (Run.run (Mirror.allocate slugify (resolveParents nodes)) Allocator.empty
        (ordered nodes)).assigned id = some place → Q place.path) ↔
      Run.Meets (Mirror.allocate slugify (resolveParents nodes)) ok Allocator.empty (ordered nodes) := by
  have hempty : ∀ id place, Allocator.empty.assigned id = some place → Q place.path := fun _ _ h => nomatch h
  refine Run.meets_iff_of_steps
    (P := fun state : Allocator => ∀ id place, state.assigned id = some place → Q place.path) hempty ?_
  intro before node hpre
  have hnodup : ((before ++ [node]).map EntryNode.id).Nodup :=
    (nodup_orderIds hids).sublist (hpre.sublist.map EntryNode.id)
  rw [List.map_append, List.nodup_append] at hnodup
  have hnodes : ∀ other ∈ before, byId nodes other.id = some other := fun other hother =>
    byId_of_mem hids ((SortBy.mem_sortBy _).mp (hpre.subset (List.mem_append_left _ hother)))
  have hplaced := placed_run hslug.text hnodes hnodup.1
  obtain ⟨directories, stem, reasons, hat, hgive⟩ :=
    (wellShaped_run hslug (resolveParents nodes) before).turn hslug (resolveParents nodes) node
  rw [hgive, forall_give_iff]
  · exact and_congr_right fun hbefore => hturn before node hpre directories stem hat hbefore
  · rw [← Option.not_isSome_iff_eq_none, hplaced.assigned]
    exact fun hmem => hnodup.2.2 node.id hmem node.id (by simp) rfl

/-! Where the loop over the suffixed names stops. -/

/-- Where an entry takes a suffixed name, the try its loop stops at is in order. -/
def SuffixOk (ok : Nat → Name → Nat → Prop) (slugify : String → Name) (parents : Uuid → Option Uuid)
    (state : Allocator) (node : EntryNode) : Prop :=
  let directory := state.directoryFor parents node.id
  let budget := stemBudget directory
  let base := baseName budget (slugify node.title)
  let taken := state.claims directory
  NeedsSuffix taken budget (slugify node.title) →
    ∀ k ≤ taken.length + 1, StopsAt taken (suffixed budget base (shortId node.id)) k →
      ok budget (shortened budget base (shortId node.id) k) k

instance (ok : Nat → Name → Nat → Prop) [∀ budget base k, Decidable (ok budget base k)] (slugify : String → Name)
    (parents : Uuid → Option Uuid) (state : Allocator) (node : EntryNode) :
    Decidable (SuffixOk ok slugify parents state node) := inferInstanceAs (Decidable (_ → _))

theorem StopsAt.le {taken : List Name} {budget k : Nat} {base suffix : Name}
    (h : StopsAt taken (suffixed budget base suffix) k) : k ≤ taken.length + 1 := by
  obtain ⟨i, hi, hfree⟩ := exists_untaken taken budget base suffix
  rw [Nat.zero_add] at hfree
  exact (not_lt.mp fun hlt => hfree (h.2 i hlt)).trans hi

/-- What every bare name has, and a suffixed name exactly when its try is in order, the stem taken has exactly
when the turn is in order. -/
theorem stem_iff_suffixOk {ok : Nat → Name → Nat → Prop} {P : Name → Prop} {directory : Name}
    (hdirectory : state.directoryFor parents node.id = directory)
    (hfirst : FirstFree.IsFirst (state.claims directory)
      (stemNames (stemBudget directory) (slugify node.title) node.id) stem)
    (hbare : P (baseName (stemBudget directory) (slugify node.title)))
    (hsuffixed : ∀ k ≤ (state.claims directory).length + 1,
      (P (suffixed (stemBudget directory) (baseName (stemBudget directory) (slugify node.title))
          (shortId node.id) k) ↔
        ok (stemBudget directory) (shortened (stemBudget directory)
          (baseName (stemBudget directory) (slugify node.title)) (shortId node.id) k) k)) :
    P stem ↔ SuffixOk ok slugify parents state node := by
  subst hdirectory
  rcases stem_cases hfirst with ⟨hneeds, rfl⟩ | ⟨hneeds, k, rfl, hstops⟩
  · exact iff_of_true hbare fun h => absurd h hneeds
  · rw [hsuffixed k hstops.le]
    constructor
    · intro hok _ j _ hj
      rwa [hj.unique hstops]
    · intro hok
      exact hok hneeds k hstops.le hstops

/-- No more names are taken in a directory than entries have had their turn. -/
theorem claims_length_run (slugify : String → Name) (parents : Uuid → Option Uuid) (order : List EntryNode)
    (directory : Name) :
    ((Run.run (Mirror.allocate slugify parents) Allocator.empty order).claims directory).length ≤ order.length := by
  induction order using List.reverseRecOn with
  | nil => exact le_rfl
  | append_singleton order node ih =>
      rw [Run.run_concat, List.length_append]
      obtain ⟨stem, reasons, -, hgive⟩ := allocate_eq_give slugify parents
        (Run.run (Mirror.allocate slugify parents) Allocator.empty order) node
      rw [hgive, Allocator.give_claims]
      by_cases hsame : directory = Allocator.directoryFor parents
          (Run.run (Mirror.allocate slugify parents) Allocator.empty order) node.id
      · rw [hsame, Function.update_self, List.length_cons, ← hsame]
        exact Nat.succ_le_succ ih
      · rw [Function.update_of_ne hsame]
        exact ih.trans (Nat.le_add_right _ _)

/-- There are only so many identifiers. -/
theorem length_le_of_nodup {ids : List Uuid} (h : ids.Nodup) : ids.length ≤ 2 ^ 128 := by
  have hnats : (ids.map BitVec.toNat).Nodup := h.map fun _ _ heq => BitVec.eq_of_toNat_eq heq
  have hsubset : ids.map BitVec.toNat ⊆ List.range (2 ^ 128) := by
    intro n hn
    obtain ⟨id, -, rfl⟩ := List.mem_map.mp hn
    exact List.mem_range.mpr id.isLt
  have hlength := (hnats.subperm hsubset).length_le
  rwa [List.length_map, List.length_range] at hlength

/-- Hence a counter never fills a component. -/
theorem suffixBytes_le {k : Nat} (h : k ≤ 2 ^ 128 + 1) : suffixBytes k ≤ maxComponentBytes + 1 := by
  cases k with
  | zero => decide
  | succ k =>
      have hdigits : (Nat.toDigits 10 (k + 2)).length ≤ 39 :=
        (Nat.length_toDigits_le_iff (by decide) (by decide)).mpr (by omega)
      rw [suffixBytes, suffixHexChars, maxComponentBytes]
      omega

end ThunderForge.Mirror
