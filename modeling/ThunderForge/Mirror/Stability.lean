import Mathlib.Data.Nat.Digits.Defs
import ThunderForge.Lib.FirstFree
import ThunderForge.Mirror.Parents

/-! What leaving one entry out does to the paths of the others. The allocator gives every entry the first
free of the paths it tries, so the others keep their paths exactly when none of them meets a difference:
in the paths it tries, or in a taken path it passes over. -/

namespace ThunderForge.Mirror

open FirstFree

/-- A separator splits a text at its last occurrence in one way. -/
theorem append_cons_inj_last {sep : Char} {left left' right right' : Name} (hright : sep ∉ right)
    (hright' : sep ∉ right') (h : left ++ sep :: right = left' ++ sep :: right') :
    left = left' ∧ right = right' := by
  have hwhile (left right : Name) (hright : sep ∉ right) :
      (left ++ sep :: right).reverse.takeWhile (· ≠ sep) = right.reverse := by
    have hall : ∀ c ∈ right.reverse, decide (c ≠ sep) = true := by
      intro c hc
      exact decide_eq_true fun heq => hright (heq ▸ List.mem_reverse.mp hc)
    rw [List.reverse_append, List.reverse_cons, List.append_assoc, List.takeWhile_append_of_pos hall]
    simp
  have hsame : right = right' := by
    rw [← List.reverse_inj, ← hwhile left right hright, ← hwhile left' right' hright', h]
  subst hsame
  exact ⟨List.append_cancel_right h, rfl⟩

/-- What the slugs of the `slug` crate are made of. -/
def SlugText (slugify : String → Name) : Prop :=
  ∀ title, ∀ c ∈ slugify title, c.isLower ∨ c.isDigit ∨ c = '-'

/-- A text of the characters slugs are made of. -/
def IsSlug (text : Name) : Prop := ∀ c ∈ text, c.isLower ∨ c.isDigit ∨ c = '-'

theorem IsSlug.notMem {text : Name} (h : IsSlug text) {c : Char}
    (hc : c.isLower = false ∧ c.isDigit = false ∧ c ≠ '-') : c ∉ text := by
  obtain ⟨hlower, hdigit, hdash⟩ := hc
  intro hmem
  rcases h c hmem with h | h | h
  · rw [hlower] at h
    cases h
  · rw [hdigit] at h
    cases h
  · exact hdash h

theorem IsSlug.no_slash {text : Name} (h : IsSlug text) : '/' ∉ text := h.notMem (by decide)

theorem IsSlug.append {left right : Name} (hleft : IsSlug left) (hright : IsSlug right) : IsSlug (left ++ right) := by
  intro c hc
  rcases List.mem_append.mp hc with hc | hc
  · exact hleft c hc
  · exact hright c hc

theorem IsSlug.dash {text : Name} (h : IsSlug text) : IsSlug ('-' :: text) := by
  have hdash : IsSlug ['-'] := fun c hc => Or.inr (Or.inr (List.mem_singleton.mp hc))
  exact hdash.append h

theorem mem_takeBytes {room : Nat} {text : Name} {c : Char} (h : c ∈ takeBytes room text) : c ∈ text := by
  induction text generalizing room with
  | nil => simp [takeBytes] at h
  | cons d text ih =>
      unfold takeBytes at h
      split_ifs at h
      · rcases List.mem_cons.mp h with rfl | h
        · exact List.mem_cons_self ..
        · exact List.mem_cons_of_mem d (ih h)
      · cases h

theorem mem_truncateSlug {slug : Name} {room : Nat} {c : Char} (h : c ∈ truncateSlug slug room) :
    c ∈ slug := by
  unfold truncateSlug trimDashes at h
  split_ifs at h
  · exact h
  · rw [List.mem_reverse] at h
    exact mem_takeBytes (List.mem_reverse.mp (List.dropWhile_sublist _ |>.subset h))

theorem IsSlug.truncateSlug {slug : Name} (h : IsSlug slug) (room : Nat) : IsSlug (truncateSlug slug room) :=
  fun c hc => h c (mem_truncateSlug hc)

theorem isSlug_entry : IsSlug "entry".toList := by
  have hlower : "entry".toList.all Char.isLower = true := by decide
  exact fun c hc => Or.inl (List.all_eq_true.mp hlower c hc)

theorem IsSlug.baseName {slug : Name} (h : IsSlug slug) (budget : Nat) : IsSlug (baseName budget slug) := by
  refine IsSlug.truncateSlug ?_ _
  split_ifs
  · exact isSlug_entry
  · exact h

theorem IsSlug.joinStem {base suffix : Name} (hbase : IsSlug base) (hsuffix : IsSlug suffix) :
    IsSlug (joinStem base suffix) := by
  unfold Mirror.joinStem
  split_ifs
  · exact hsuffix
  · exact hbase.append hsuffix.dash

theorem isSlug_shortId (id : Uuid) : IsSlug (shortId id) := by
  have hdigit : ∀ n < 16, (Nat.digitChar n).isLower = true ∨ (Nat.digitChar n).isDigit = true := by decide
  intro c hc
  obtain ⟨i, -, rfl⟩ := List.mem_map.mp hc
  rcases hdigit _ (Nat.mod_lt _ (by decide)) with hlower | hdigit
  · exact Or.inl hlower
  · exact Or.inr (Or.inl hdigit)

theorem isSlug_toDigits (n : Nat) : IsSlug (Nat.toDigits 10 n) :=
  fun _ hc => Or.inr (Or.inl (Nat.isDigit_of_mem_toDigits (by decide) (by decide) hc))

theorem IsSlug.suffixed {base suffix : Name} (hbase : IsSlug base) (hsuffix : IsSlug suffix) (budget k : Nat) :
    IsSlug (suffixed budget base suffix k) := by
  have htrimmed : IsSlug (trimmedBase budget base suffix) := hbase.truncateSlug _
  cases k with
  | zero => exact htrimmed.joinStem hsuffix
  | succ k => exact ((htrimmed.truncateSlug _).joinStem hsuffix).append (isSlug_toDigits _).dash

theorem notMem_toDigits {c : Char} (hc : c.isDigit = false) (n : Nat) : c ∉ Nat.toDigits 10 n := by
  intro hmem
  rw [Nat.isDigit_of_mem_toDigits (by decide) (by decide) hmem] at hc
  cases hc

/-- Two counted names differ in their counters. -/
theorem suffixed_succ_inj {budget i j : Nat} {base suffix : Name}
    (h : suffixed budget base suffix (i + 1) = suffixed budget base suffix (j + 1)) : i = j := by
  have hdigits := (append_cons_inj_last (notMem_toDigits (by decide) _) (notMem_toDigits (by decide) _) h).2
  have hread := congrArg (Nat.ofDigitChars 10 · 0) hdigits
  simpa using hread

/-- Whether a name is suffixed whatever is taken. -/
def Forced (budget : Nat) (slug : Name) : Prop := slug = [] ∨ baseName budget slug ∈ reservedStems

instance (budget : Nat) (slug : Name) : Decidable (Forced budget slug) :=
  inferInstanceAs (Decidable (_ ∨ _))

/-- The stems an entry tries in a directory, in order. -/
def stemNames (budget : Nat) (slug : Name) (id : Uuid) : Nat → Name
  | 0 => if Forced budget slug then suffixed budget (baseName budget slug) (shortId id) 0
    else baseName budget slug
  | k + 1 => suffixed budget (baseName budget slug) (shortId id) (if Forced budget slug then k + 1 else k)

theorem IsSlug.stemNames {slug : Name} (h : IsSlug slug) (budget : Nat) (id : Uuid) (k : Nat) :
    IsSlug (stemNames budget slug id k) := by
  have hbase := h.baseName budget
  have hsuffixed := hbase.suffixed (isSlug_shortId id) budget
  cases k with
  | zero =>
      unfold Mirror.stemNames
      split_ifs
      · exact hsuffixed 0
      · exact hbase
  | succ k => exact hsuffixed _

/-- A loop with enough fuel stops at the first name that is not taken. -/
theorem firstUntaken_isFirst {taken : List Name} {names : Nat → Name} {fuel k : Nat}
    (h : ∃ i ≤ fuel, names (k + i) ∉ taken) :
    IsFirst taken (fun i => names (k + i)) (firstUntaken taken names fuel k) := by
  induction fuel generalizing k with
  | zero =>
      obtain ⟨i, hi, hfree⟩ := h
      obtain rfl := Nat.le_zero.mp hi
      exact ⟨0, rfl, hfree, by simp⟩
  | succ fuel ih =>
      rw [firstUntaken]
      split_ifs with htaken
      · obtain ⟨i, hi, hfree⟩ := h
        cases i with
        | zero => exact absurd htaken hfree
        | succ i =>
            have hshift (m : Nat) : names (k + 1 + m) = names (k + (m + 1)) := by
              rw [Nat.succ_add_eq_add_succ]
            obtain ⟨j, hj, hfree, hskipped⟩ := ih ⟨i, Nat.le_of_succ_le_succ hi, by rwa [hshift]⟩
            refine ⟨j + 1, (hshift j).symm.trans hj, hfree, fun m hm => ?_⟩
            cases m with
            | zero => exact htaken
            | succ m =>
                show names (k + (m + 1)) ∈ taken
                rw [← hshift]
                exact hskipped m (Nat.lt_of_succ_lt_succ hm)
      · exact ⟨0, rfl, htaken, by simp⟩

/-- Among more counted names than are taken one is free. -/
theorem exists_untaken (taken : List Name) (budget : Nat) (base suffix : Name) :
    ∃ i ≤ taken.length + 1, suffixed budget base suffix (0 + i) ∉ taken := by
  by_contra hall
  push Not at hall
  let names := (List.range (taken.length + 1)).map fun i => suffixed budget base suffix (i + 1)
  have hnodup : names.Nodup :=
    (List.nodup_range).map fun i j h => suffixed_succ_inj h
  have hsubset : names ⊆ taken := by
    intro name hname
    obtain ⟨i, hi, rfl⟩ := List.mem_map.mp hname
    have hfound := hall (i + 1) (Nat.succ_le_of_lt (List.mem_range.mp hi))
    rwa [Nat.zero_add] at hfound
  have hlength := (hnodup.subperm hsubset).length_le
  simp [names] at hlength

/-- A later name is passed over when the first is. -/
theorem IsFirst_cons {taken : List Name} {first name : Name} {names : Nat → Name} (hfirst : first ∈ taken)
    (h : IsFirst taken names name) :
    IsFirst taken (fun i => match i with | 0 => first | k + 1 => names k) name := by
  obtain ⟨i, hi, hfree, hskipped⟩ := h
  refine ⟨i + 1, hi, hfree, fun j hj => ?_⟩
  cases j with
  | zero => exact hfirst
  | succ j => exact hskipped j (Nat.lt_of_succ_lt_succ hj)

section

variable {slugify : String → Name} {nodes : List EntryNode}

/-- The stem chosen is the first of those tried that is not taken. -/
theorem chooseStem_isFirst (taken : List Name) (budget : Nat) (slug : Name)
    {reasons : List DisambiguationReason} (hreasons : reasons = [] ∨ reasons = [.depthExceeded]) (id : Uuid) :
    IsFirst taken (stemNames budget slug id)
      (chooseStem taken budget (reasons ++ baseReasons budget slug) id (baseName budget slug)).1 := by
  have hforced : (DisambiguationReason.titleNormalisedToNothing ∈ reasons ++ baseReasons budget slug ∨
      DisambiguationReason.reservedName ∈ reasons ++ baseReasons budget slug) ↔ Forced budget slug := by
    unfold baseReasons Forced
    rcases hreasons with rfl | rfl <;> split_ifs <;> simp_all
  have huntaken := firstUntaken_isFirst (k := 0)
    (exists_untaken taken budget (baseName budget slug) (shortId id))
  simp only [Nat.zero_add] at huntaken
  unfold chooseStem
  simp only [hforced]
  by_cases hforce : Forced budget slug
  · rw [if_neg (by simp [hforce])]
    refine (funext fun i => ?_ : suffixed budget (baseName budget slug) (shortId id) =
      stemNames budget slug id) ▸ huntaken
    cases i with
    | zero => rw [stemNames, if_pos hforce]
    | succ k => rw [stemNames, if_pos hforce]
  · have hnames : stemNames budget slug id = fun i => match i with
        | 0 => baseName budget slug
        | k + 1 => suffixed budget (baseName budget slug) (shortId id) k := by
      funext i
      cases i with
      | zero => rw [stemNames, if_neg hforce]
      | succ k => rw [stemNames, if_neg hforce]
    rw [hnames]
    by_cases hbase : ¬Forced budget slug ∧ baseName budget slug ∉ taken
    · rw [if_pos hbase]
      exact ⟨0, rfl, hbase.2, by simp⟩
    · rw [if_neg hbase]
      have htaken : baseName budget slug ∈ taken := by
        by_contra hfree
        exact hbase ⟨hforce, hfree⟩
      exact IsFirst_cons htaken huntaken

/-- The directory of an entry's turn. -/
def Allocator.directoryFor (parents : Uuid → Option Uuid) (state : Allocator) (id : Uuid) : Name :=
  landing ((((parents id).bind state.assigned).map AssignedPath.directory).getD [])

/-- An entry is given a stem in a directory. -/
def Allocator.give (state : Allocator) (id : Uuid) (directory stem : Name) (reasons : List DisambiguationReason) :
    Allocator where
  assigned := Function.update state.assigned id
    (some { path := filePath directory stem, directory := childDirectory (filePath directory stem), reasons })
  claims := Function.update state.claims directory (stem :: state.claims directory)

section

variable (state : Allocator) {id id' : Uuid} (directory stem : Name) (reasons : List DisambiguationReason)

@[simp] theorem Allocator.give_assigned_self :
    (state.give id directory stem reasons).assigned id =
      some { path := filePath directory stem, directory := childDirectory (filePath directory stem), reasons } :=
  Function.update_self _ _ _

theorem Allocator.give_assigned_of_ne (h : id' ≠ id) :
    (state.give id directory stem reasons).assigned id' = state.assigned id' := Function.update_of_ne h _ _

theorem Allocator.give_claims :
    (state.give id directory stem reasons).claims =
      Function.update state.claims directory (stem :: state.claims directory) := rfl

end

variable (slugify) in
/-- An entry's turn gives it the first stem of those it tries that is not taken. -/
theorem allocate_eq_give (parents : Uuid → Option Uuid) (state : Allocator) (node : EntryNode) :
    ∃ stem reasons, IsFirst (state.claims (state.directoryFor parents node.id))
        (stemNames (stemBudget (state.directoryFor parents node.id)) (slugify node.title) node.id) stem ∧
      allocate slugify parents state node = state.give node.id (state.directoryFor parents node.id) stem reasons := by
  let parentDirectory := (((parents node.id).bind state.assigned).map AssignedPath.directory).getD []
  have hreasons : (if descends parentDirectory then [] else [DisambiguationReason.depthExceeded]) = [] ∨
      (if descends parentDirectory then [] else [DisambiguationReason.depthExceeded]) = [.depthExceeded] := by
    split_ifs
    · exact Or.inl rfl
    · exact Or.inr rfl
  exact ⟨_, _, chooseStem_isFirst _ _ _ hreasons _, rfl⟩

theorem filePath_inj {directory directory' stem stem' : Name} (hstem : '/' ∉ stem) (hstem' : '/' ∉ stem')
    (h : filePath directory stem = filePath directory' stem') : directory = directory' ∧ stem = stem' := by
  have hcancel := List.append_cancel_right h
  split_ifs at hcancel with hempty hempty' hempty'
  · exact ⟨hempty.trans hempty'.symm, hcancel⟩
  · exact absurd (by simp [hcancel]) hstem
  · exact absurd (by simp [← hcancel]) hstem'
  · exact append_cons_inj_last hstem hstem' hcancel

variable (slugify nodes) in
/-- The slug of an entry's title. -/
def slugOf (id : Uuid) : Name := ((byId nodes id).map fun node => slugify node.title).getD []

variable (slugify nodes) in
/-- The directory an entry goes into, given the paths known so far. -/
def directoryOf (id : Uuid) (held : Uuid → Option Name) : Name :=
  landing ((((resolveParents nodes id).bind held).map childDirectory).getD [])

variable (slugify nodes) in
/-- The paths an entry tries, in order, given the paths known so far. -/
def pathsTried (id : Uuid) (held : Uuid → Option Name) (i : Nat) : Name :=
  filePath (directoryOf nodes id held)
    (stemNames (stemBudget (directoryOf nodes id held)) (slugOf slugify nodes id) id i)

variable (nodes) in
theorem isSlug_slugOf (hslug : SlugText slugify) (id : Uuid) : IsSlug (slugOf slugify nodes id) := by
  unfold slugOf
  cases byId nodes id with
  | none => exact fun _ hc => nomatch hc
  | some node => exact hslug node.title

/-- A path tells which paths an entry that tries it tries. -/
theorem pathsTried_sep (hslug : SlugText slugify) (id : Uuid) (held held' : Uuid → Option Name) (i j : Nat)
    (h : pathsTried slugify nodes id held i = pathsTried slugify nodes id held' j) :
    pathsTried slugify nodes id held = pathsTried slugify nodes id held' := by
  have hstem := (isSlug_slugOf nodes hslug id).stemNames
  have hdirectory := (filePath_inj (hstem _ _ _).no_slash (hstem _ _ _).no_slash h).1
  funext k
  unfold pathsTried
  rw [hdirectory]

/-- The path an entry has been given. -/
def Allocator.path (state : Allocator) (id : Uuid) : Name := ((state.assigned id).map AssignedPath.path).getD []

/-- What the allocator has done once it has been through some entries. -/
structure Placed (slugify : String → Name) (nodes done : List EntryNode) (state : Allocator) : Prop where
  assigned : ∀ id, (state.assigned id).isSome ↔ id ∈ done.map EntryNode.id
  directory : ∀ id place, state.assigned id = some place → place.directory = childDirectory place.path
  claims : ∀ directory stem, stem ∈ state.claims directory ↔
    '/' ∉ stem ∧ filePath directory stem ∈ (done.map EntryNode.id).map state.path
  allocation : Allocation (pathsTried slugify nodes) (done.map EntryNode.id) state.path

theorem placed_empty : Placed slugify nodes [] Allocator.empty where
  assigned := by simp [Allocator.empty]
  directory id place h := by cases h
  claims := by simp [Allocator.empty]
  allocation id hid := by cases hid

variable {done : List EntryNode} {state : Allocator} {node : EntryNode}

theorem Placed.known (h : Placed slugify nodes done state) (id : Uuid) :
    FirstFree.known state.path (done.map EntryNode.id) id = (state.assigned id).map AssignedPath.path := by
  unfold FirstFree.known Allocator.path
  cases hplace : state.assigned id with
  | none => rw [if_neg fun hmem => by simpa [hplace] using (h.assigned id).mpr hmem, Option.map_none]
  | some place => rw [if_pos ((h.assigned id).mp (by rw [hplace]; rfl)), Option.map_some, Option.getD_some]

variable (nodes) in
/-- The directory of the children of an entry's parent, given the paths known so far. -/
def parentDirectoryOf (id : Uuid) (held : Uuid → Option Name) : Name :=
  (((resolveParents nodes id).bind held).map childDirectory).getD []

theorem Placed.parentDirectory_eq (h : Placed slugify nodes done state) (id : Uuid) :
    (((resolveParents nodes id).bind state.assigned).map AssignedPath.directory).getD [] =
      parentDirectoryOf nodes id (FirstFree.known state.path (done.map EntryNode.id)) := by
  unfold parentDirectoryOf
  rw [funext h.known]
  cases resolveParents nodes id with
  | none => rfl
  | some parent =>
      rw [Option.bind_some, Option.bind_some, Option.map_map]
      cases hplace : state.assigned parent with
      | none => rfl
      | some place => simp [h.directory parent place hplace]

/-- The directory of an entry's turn is the one it tries its paths in. -/
theorem Placed.directoryFor_eq (h : Placed slugify nodes done state) (id : Uuid) :
    state.directoryFor (resolveParents nodes) id =
      directoryOf nodes id (FirstFree.known state.path (done.map EntryNode.id)) :=
  congrArg landing (h.parentDirectory_eq id)

/-- The first free stem of a directory is the first free path of those in it. -/
theorem Placed.isFirst_path (h : Placed slugify nodes done state) {directory stem : Name}
    {names : Nat → Name} (hnames : ∀ i, '/' ∉ names i) (hfirst : IsFirst (state.claims directory) names stem) :
    IsFirst ((done.map EntryNode.id).map state.path) (fun i => filePath directory (names i))
      (filePath directory stem) := by
  obtain ⟨i, rfl, hfree, hskipped⟩ := hfirst
  refine ⟨i, rfl, fun hmem => hfree ((h.claims _ _).mpr ⟨hnames i, hmem⟩), fun j hj => ?_⟩
  exact ((h.claims _ _).mp (hskipped j hj)).2

/-- One entry's turn. -/
theorem Placed.allocate (hslug : SlugText slugify) (h : Placed slugify nodes done state)
    (hnode : byId nodes node.id = some node) (hnew : node.id ∉ done.map EntryNode.id) :
    Placed slugify nodes (done ++ [node]) (allocate slugify (resolveParents nodes) state node) := by
  obtain ⟨stem, reasons, hchosen, hstate⟩ := allocate_eq_give slugify (resolveParents nodes) state node
  set directory := state.directoryFor (resolveParents nodes) node.id with hdirectory
  have hslugOf : slugOf slugify nodes node.id = slugify node.title := by rw [slugOf, hnode]; rfl
  have hnames (i : Nat) : '/' ∉ stemNames (stemBudget directory) (slugify node.title) node.id i :=
    (IsSlug.stemNames (hslug node.title) _ _ _).no_slash
  have hfirst := h.isFirst_path hnames hchosen
  have hstem : '/' ∉ stem := by
    obtain ⟨i, hi, -⟩ := hchosen
    exact hi ▸ hnames i
  have hpath : (Mirror.allocate slugify (resolveParents nodes) state node).path =
      Function.update state.path node.id (filePath directory stem) := by
    funext id
    rw [hstate]
    by_cases hid : id = node.id
    · simp [Allocator.path, hid]
    · simp [Allocator.path, Allocator.give_assigned_of_ne, hid]
  constructor
  case assigned =>
    intro id
    rw [hstate]
    by_cases hid : id = node.id
    · simp [hid]
    · have hold := h.assigned id
      simpa [Allocator.give_assigned_of_ne, hid] using hold
  case directory =>
    intro id place hplace
    rw [hstate] at hplace
    by_cases hid : id = node.id
    · rw [hid, Allocator.give_assigned_self, Option.some.injEq] at hplace
      rw [← hplace]
    · rw [Allocator.give_assigned_of_ne _ _ _ _ hid] at hplace
      exact h.directory id place hplace
  case claims =>
    intro directory' stem'
    have hold : ((done.map EntryNode.id).map
        (Function.update state.path node.id (filePath directory stem))) =
          (done.map EntryNode.id).map state.path :=
      List.map_congr_left fun id hid => Function.update_of_ne (ne_of_mem_of_not_mem hid hnew) _ _
    rw [hpath, hstate, Allocator.give_claims, List.map_append, List.map_append, hold]
    simp only [List.map_cons, List.map_nil, Function.update_self, List.mem_append, List.mem_singleton]
    by_cases hsame : directory' = directory
    · rw [hsame, Function.update_self, List.mem_cons, h.claims]
      constructor
      · rintro (rfl | ⟨hclean, hmem⟩)
        · exact ⟨hstem, Or.inr rfl⟩
        · exact ⟨hclean, Or.inl hmem⟩
      · rintro ⟨hclean, hmem | heq⟩
        · exact Or.inr ⟨hclean, hmem⟩
        · exact Or.inl (filePath_inj hclean hstem heq).2
    · rw [Function.update_of_ne hsame, h.claims]
      refine and_congr_right fun hclean => (or_iff_left fun heq => ?_).symm
      exact hsame (filePath_inj hclean hstem heq).1
  case allocation =>
    rw [hpath, List.map_append, List.map_cons, List.map_nil]
    refine h.allocation.concat hnew ?_
    have htried : pathsTried slugify nodes node.id (FirstFree.known state.path (done.map EntryNode.id)) =
        fun i => filePath directory (stemNames (stemBudget directory) (slugify node.title) node.id i) := by
      funext i
      rw [pathsTried, ← h.directoryFor_eq, hslugOf]
    rw [htried]
    exact hfirst

/-- A run through entries of the set, each once. -/
theorem placed_run (hslug : SlugText slugify) {order : List EntryNode}
    (hnodes : ∀ node ∈ order, byId nodes node.id = some node) (hids : (order.map EntryNode.id).Nodup) :
    Placed slugify nodes order
      (Run.run (Mirror.allocate slugify (resolveParents nodes)) Allocator.empty order) := by
  induction order using List.reverseRecOn with
  | nil => exact placed_empty
  | append_singleton order node ih =>
      rw [List.map_append, List.nodup_append] at hids
      rw [Run.run_concat]
      refine (ih (fun other hmem => hnodes other (List.mem_append_left _ hmem)) hids.1).allocate hslug
        (hnodes node (by simp)) fun hmem => ?_
      exact hids.2.2 node.id hmem node.id (by simp) rfl

end

/-- The entries with one left out. -/
def without (entries : List EntryNode) (entry : EntryNode) : List EntryNode :=
  entries.filter fun other => other.id ≠ entry.id

theorem keepFirst_of_nodup {entries : List EntryNode} {seen : List Uuid}
    (hids : (entries.map EntryNode.id).Nodup) (hseen : ∀ entry ∈ entries, entry.id ∉ seen) :
    keepFirst entries seen = entries := by
  induction entries generalizing seen with
  | nil => rfl
  | cons entry entries ih =>
      rw [List.map_cons, List.nodup_cons] at hids
      rw [keepFirst, if_neg (by simpa using hseen entry (List.mem_cons_self ..))]
      refine congrArg (entry :: ·) (ih hids.2 fun other hother => ?_)
      rw [List.mem_cons, not_or]
      refine ⟨fun heq => hids.1 (heq ▸ List.mem_map_of_mem hother), ?_⟩
      exact hseen other (List.mem_cons_of_mem entry hother)

section

variable {slugify : String → Name} {entries : List EntryNode} {entry : EntryNode} {id : Uuid}

theorem byId_of_mem (hids : (entries.map EntryNode.id).Nodup) {node : EntryNode} (hmem : node ∈ entries) :
    byId entries node.id = some node := by
  cases hfound : byId entries node.id with
  | none =>
      have hin := isSome_byId.mpr (List.mem_map_of_mem (f := EntryNode.id) hmem)
      rw [hfound] at hin
      cases hin
  | some found =>
      obtain ⟨hfoundMem, hid⟩ := byId_eq_some hfound
      rw [List.inj_on_of_nodup_map hids hfoundMem hmem hid]

theorem byId_without (hid : id ≠ entry.id) : byId (without entries entry) id = byId entries id := by
  rw [byId, byId, without, List.find?_filter]
  congr 1
  funext other
  by_cases hother : other.id = id <;> simp [hother, hid]

/-- Nobody else names `entry` as parent. -/
def IsLeaf (entries : List EntryNode) (entry : EntryNode) : Prop :=
  ∀ other ∈ entries, other.id ≠ entry.id → other.parentId ≠ some entry.id

theorem IsLeaf.parent_ne (hleaf : IsLeaf entries entry) (hid : id ≠ entry.id) {parent : Uuid}
    (hparent : (byId entries id).bind EntryNode.parentId = some parent) : parent ≠ entry.id := by
  obtain ⟨node, hnode, hown⟩ := Option.bind_eq_some_iff.mp hparent
  obtain ⟨hmem, rfl⟩ := byId_eq_some hnode
  rintro rfl
  exact hleaf node hmem hid hown

theorem namedParent_without (hleaf : IsLeaf entries entry) (hid : id ≠ entry.id) :
    namedParent (without entries entry) id = namedParent entries id := by
  ext parent
  rw [namedParent_eq_some, namedParent_eq_some, byId_without hid]
  refine and_congr_right fun hparent => ?_
  rw [byId_without (hleaf.parent_ne hid hparent)]

theorem climb_without (hleaf : IsLeaf entries entry) (hid : id ≠ entry.id) (k : Nat) :
    Forest.climb (namedParent (without entries entry)) k id = Forest.climb (namedParent entries) k id := by
  induction k generalizing id with
  | zero => rfl
  | succ k ih =>
      rw [Forest.climb, Forest.climb, namedParent_without hleaf hid]
      cases hparent : namedParent entries id with
      | none => rfl
      | some parent =>
          rw [Option.bind_some, Option.bind_some]
          exact ih (hleaf.parent_ne hid (namedParent_eq_some.mp hparent).1)

/-- Leaving out a leaf changes no other entry's parent. -/
theorem resolveParents_without (hleaf : IsLeaf entries entry) (hid : id ≠ entry.id) :
    resolveParents (without entries entry) id = resolveParents entries id := by
  ext parent
  rw [resolveParents_eq_some, resolveParents_eq_some, namedParent_without hleaf hid]
  simp only [Forest.Ends, climb_without hleaf hid]

theorem pathsTried_without (hleaf : IsLeaf entries entry) (hid : id ≠ entry.id) :
    pathsTried slugify (without entries entry) id = pathsTried slugify entries id := by
  funext held k
  simp only [pathsTried, directoryOf, slugOf, resolveParents_without hleaf hid, byId_without hid]

/-- The ids in the order the allocator takes the entries. -/
def orderIds (entries : List EntryNode) : List Uuid := (ordered entries).map EntryNode.id

theorem mem_orderIds : id ∈ orderIds entries ↔ id ∈ entries.map EntryNode.id :=
  ((SortBy.sortBy_perm (orderKey entries) entries).map EntryNode.id).mem_iff

theorem nodup_orderIds (hids : (entries.map EntryNode.id).Nodup) : (orderIds entries).Nodup :=
  (((SortBy.sortBy_perm (orderKey entries) entries).map EntryNode.id).nodup_iff).mpr hids

/-- The path an entry has in the whole map. -/
def pathOf (slugify : String → Name) (entries : List EntryNode) (id : Uuid) : Name :=
  ((mapEntryPaths slugify entries id).map AssignedPath.path).getD []

theorem placed_entries (hslug : SlugText slugify) (hids : (entries.map EntryNode.id).Nodup) :
    Placed slugify entries (ordered entries)
      (Run.run (allocate slugify (resolveParents entries)) Allocator.empty (ordered entries)) :=
  placed_run hslug (fun _ hmem => byId_of_mem hids ((SortBy.mem_sortBy _).mp hmem)) (nodup_orderIds hids)

theorem mapEntryPaths_eq (hids : (entries.map EntryNode.id).Nodup) :
    mapEntryPaths slugify entries =
      (Run.run (allocate slugify (resolveParents entries)) Allocator.empty (ordered entries)).assigned := by
  rw [mapEntryPaths, keepFirst_of_nodup hids fun _ _ => List.not_mem_nil]

/-- Every entry is given a path. -/
theorem mapEntryPaths_isSome (hslug : SlugText slugify) (hids : (entries.map EntryNode.id).Nodup)
    (hid : id ∈ entries.map EntryNode.id) :
    (mapEntryPaths slugify entries id).map AssignedPath.path = some (pathOf slugify entries id) := by
  have hsome := (placed_entries hslug hids).assigned id
  rw [← mapEntryPaths_eq hids] at hsome
  obtain ⟨place, hplace⟩ := Option.isSome_iff_exists.mp (hsome.mpr (mem_orderIds.mpr hid))
  rw [pathOf, hplace]
  rfl

theorem allocation_paths (hslug : SlugText slugify) (hids : (entries.map EntryNode.id).Nodup) :
    Allocation (pathsTried slugify entries) (orderIds entries) (pathOf slugify entries) := by
  have hplaced := (placed_entries hslug hids).allocation
  unfold Allocator.path at hplaced
  rwa [← mapEntryPaths_eq hids] at hplaced

/-- No other entry meets a difference when `entry` is left out: each tries the same paths, and none of those
it passes over is held by `entry` or by one that only comes before it while `entry` is there. -/
def Undisturbed (slugify : String → Name) (entries : List EntryNode) (entry : EntryNode) : Prop :=
  Unmoved (pathsTried slugify entries) (orderIds entries) (orderIds (without entries entry))
    (pathOf slugify entries)

/-- Leaving out an entry that is nobody's parent keeps the paths of the others exactly when it disturbs
none of them. -/
theorem paths_kept_iff (hslug : SlugText slugify) (hids : (entries.map EntryNode.id).Nodup)
    (hleaf : IsLeaf entries entry) :
    (∀ other ∈ entries, other.id ≠ entry.id →
      (mapEntryPaths slugify (without entries entry) other.id).map AssignedPath.path =
        (mapEntryPaths slugify entries other.id).map AssignedPath.path) ↔
      Undisturbed slugify entries entry := by
  have hidsWithout : ((without entries entry).map EntryNode.id).Nodup :=
    hids.sublist (List.filter_sublist.map EntryNode.id)
  have hmem (id : Uuid) : id ∈ orderIds (without entries entry) ↔
      id ∈ entries.map EntryNode.id ∧ id ≠ entry.id := by
    rw [mem_orderIds]
    simp only [without, List.mem_map, List.mem_filter, decide_eq_true_eq]
    constructor
    · rintro ⟨other, ⟨hother, hne⟩, rfl⟩
      exact ⟨⟨other, hother, rfl⟩, hne⟩
    · rintro ⟨⟨other, hother, rfl⟩, hne⟩
      exact ⟨other, ⟨hother, hne⟩, rfl⟩
  have hpart : orderIds (without entries entry) ⊆ orderIds entries :=
    fun id hid => mem_orderIds.mpr ((hmem id).mp hid).1
  have hallocated : Allocation (pathsTried slugify entries) (orderIds (without entries entry))
      (pathOf slugify (without entries entry)) :=
    (allocation_paths hslug hidsWithout).congr_tries fun id hid => pathsTried_without hleaf ((hmem id).mp hid).2
  rw [Undisturbed, ← (allocation_paths hslug hids).eq_iff (pathsTried_sep hslug) hallocated hpart]
  constructor
  · intro hkept id hid
    obtain ⟨hin, hne⟩ := (hmem id).mp hid
    obtain ⟨other, hother, rfl⟩ := List.mem_map.mp hin
    have hsame := hkept other hother hne
    rwa [mapEntryPaths_isSome hslug hids hin, mapEntryPaths_isSome hslug hidsWithout
      (mem_orderIds.mp hid), Option.some.injEq] at hsame
  · intro hsame other hother hne
    have hin : other.id ∈ entries.map EntryNode.id := List.mem_map_of_mem hother
    have hid := (hmem other.id).mpr ⟨hin, hne⟩
    rw [mapEntryPaths_isSome hslug hids hin, mapEntryPaths_isSome hslug hidsWithout
      (mem_orderIds.mp hid), hsame other.id hid]

end

/-- Leaving out an entry that is nobody's parent keeps every other entry's path. -/
def PathsStable (slugify : String → Name) : Prop :=
  ∀ (entries : List EntryNode) (entry : EntryNode), (entries.map EntryNode.id).Nodup → entry ∈ entries →
    IsLeaf entries entry → ∀ other ∈ entries, other.id ≠ entry.id →
      (mapEntryPaths slugify (without entries entry) other.id).map AssignedPath.path =
        (mapEntryPaths slugify entries other.id).map AssignedPath.path

/-- The slugs of the titles below. -/
def sampleSlug (title : String) : Name :=
  if title = "Vale" then "vale".toList else if title = "Keep" then "keep".toList else "cell".toList

theorem all_isLower_sampleSlug (title : String) : (sampleSlug title).all Char.isLower = true := by
  unfold sampleSlug
  split_ifs <;> decide

theorem sampleSlug_text : SlugText sampleSlug :=
  fun title c hc => Or.inl (List.all_eq_true.mp (all_isLower_sampleSlug title) c hc)

/-- Two entries called Vale, the first of which holds the clean name. -/
def twoVales : List EntryNode := [⟨1, none, "Vale"⟩, ⟨2, none, "Vale"⟩]

/-- A tree listed from its leaf upwards, its child older than its root. -/
def keepAndCell : List EntryNode := [⟨3, some 1, "Vale"⟩, ⟨2, none, "Keep"⟩, ⟨1, some 2, "Cell"⟩]

/-- The second Vale loses its suffix with the first; and the cell leaves its keep with the leaf below it,
for without the leaf both are counted as deep as each other. -/
theorem leaf_leaving_renames :
    SlugText sampleSlug ∧ ¬PathsStable sampleSlug ∧
      (mapEntryPaths sampleSlug keepAndCell 1).map AssignedPath.path = some "keep/cell.md".toList ∧
      (mapEntryPaths sampleSlug (without keepAndCell ⟨3, some 1, "Vale"⟩) 1).map AssignedPath.path =
        some "cell.md".toList := by
  refine ⟨sampleSlug_text, fun hstable => ?_, by decide +kernel, by decide +kernel⟩
  have hsame := hstable twoVales ⟨1, none, "Vale"⟩ (by decide) (by decide) (by unfold IsLeaf; decide)
    ⟨2, none, "Vale"⟩ (by decide) (by decide)
  revert hsame
  decide +kernel

/-- The later of the two Vales leaves without a trace. -/
theorem later_vale_leaves :
    (∀ other ∈ twoVales, other.id ≠ 2 →
      (mapEntryPaths sampleSlug (without twoVales ⟨2, none, "Vale"⟩) other.id).map AssignedPath.path =
        (mapEntryPaths sampleSlug twoVales other.id).map AssignedPath.path) ∧
      Undisturbed sampleSlug twoVales ⟨2, none, "Vale"⟩ := by
  have hids : (twoVales.map EntryNode.id).Nodup := by decide
  have hleaf : IsLeaf twoVales ⟨2, none, "Vale"⟩ := by
    unfold IsLeaf
    decide
  have hkept : ∀ other ∈ twoVales, other.id ≠ 2 →
      (mapEntryPaths sampleSlug (without twoVales ⟨2, none, "Vale"⟩) other.id).map AssignedPath.path =
        (mapEntryPaths sampleSlug twoVales other.id).map AssignedPath.path := by
    decide +kernel
  exact ⟨hkept, (paths_kept_iff sampleSlug_text hids hleaf).mp hkept⟩

end ThunderForge.Mirror
