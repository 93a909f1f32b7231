import Mathlib

/-! A tree of files and directories with the operations a program has on it, each of which succeeds or changes nothing.
A place is the list of the names that lead to it. -/

namespace FileTree

variable {σ β : Type*}

inductive Node (β : Type*)
  | file (contents : β)
  | directory
deriving DecidableEq

def Node.isFile : Node β → Bool
  | file _ => true
  | directory => false

/-- What there is lies in a directory, and among the places. -/
structure Tree (σ β : Type*) where
  node : List σ → Option (Node β)
  places : List (List σ)
  closed : ∀ place name, node (place ++ [name]) ≠ none → node place = some .directory
  listed : ∀ place, node place ≠ none → place ∈ places

namespace Tree

def empty : Tree σ β where
  node := fun _ => none
  places := []
  closed := fun _ _ h => absurd rfl h
  listed := fun _ h => absurd rfl h

/-- Whether there is anything at a place. -/
def holds (tree : Tree σ β) (place : List σ) : Bool := (tree.node place).isSome

/-- Whether there is a directory at a place. -/
def isDirectory (tree : Tree σ β) (place : List σ) : Bool := (tree.node place).any fun node => !node.isFile

/-- What the file at a place holds. -/
def read (tree : Tree σ β) (place : List σ) : Option β :=
  match tree.node place with
  | some (.file contents) => some contents
  | _ => none

section

variable {tree : Tree σ β} {place : List σ}

theorem read_eq_some {contents : β} : tree.read place = some contents ↔ tree.node place = some (.file contents) := by
  unfold read
  cases tree.node place with
  | none => simp
  | some node => cases node <;> simp

theorem isDirectory_iff : tree.isDirectory place = true ↔ tree.node place = some .directory := by
  unfold isDirectory
  cases tree.node place with
  | none => simp
  | some node => cases node <;> simp [Node.isFile]

theorem read_ne_none_of_isFile (h : (tree.node place).any Node.isFile = true) : tree.read place ≠ none := by
  unfold read
  cases hnode : tree.node place with
  | none => simp [hnode] at h
  | some node =>
      cases node with
      | file contents => simp
      | directory => simp [hnode, Node.isFile] at h

theorem read_of_directory (h : tree.node place = some .directory) : tree.read place = none := by
  rw [read, h]

/-- A directory is above what there is. -/
theorem node_of_prefix (tree : Tree σ β) {above place : List σ} (hpre : above <+: place) (hne : above ≠ place)
    (hplace : tree.node place ≠ none) : tree.node above = some .directory := by
  induction place using List.reverseRecOn with
  | nil => exact absurd (List.prefix_nil.mp hpre) hne
  | append_singleton place name ih =>
      have hdirectory : tree.node place = some .directory := tree.closed place name hplace
      rcases List.prefix_concat_iff.mp hpre with heq | hpre
      · exact absurd heq hne
      · by_cases heq : above = place
        · rw [heq, hdirectory]
        · refine ih hpre heq ?_
          rw [hdirectory]
          exact Option.some_ne_none _

/-- Below what is no directory there is nothing. -/
theorem node_below {above : List σ} (habove : tree.node above ≠ some .directory) (hpre : above <+: place)
    (hne : above ≠ place) : tree.node place = none := by
  by_contra hplace
  exact habove (Tree.node_of_prefix tree hpre hne hplace)

end

/-! Places for files: none lies below another, and no directory is or file is in the way. -/

/-- No place is at the root or below another. -/
structure Apart (places : Set (List σ)) : Prop where
  root : [] ∉ places
  below : ∀ place ∈ places, ∀ other ∈ places, place <+: other → place = other

/-- A file can stand at each of the places. -/
structure Clear (places : Set (List σ)) (tree : Tree σ β) : Prop where
  noDirectory : ∀ place ∈ places, tree.node place ≠ some .directory
  noFile : ∀ place ∈ places, ∀ above, above <+: place → above ≠ place → tree.read above = none

section

variable {places : Set (List σ)} {tree : Tree σ β} {place : List σ}

theorem Apart.mono {fewer : Set (List σ)} (h : Apart places) (hsub : fewer ⊆ places) : Apart fewer :=
  ⟨fun hroot => h.root (hsub hroot), fun place hplace other hother => h.below place (hsub hplace) other (hsub hother)⟩

theorem Clear.mono {fewer : Set (List σ)} (h : Clear places tree) (hsub : fewer ⊆ places) : Clear fewer tree :=
  ⟨fun place hplace => h.noDirectory place (hsub hplace), fun place hplace => h.noFile place (hsub hplace)⟩

theorem Clear.holds_iff (h : Clear places tree) (hplace : place ∈ places) :
    tree.holds place = true ↔ tree.read place ≠ none := by
  have hdirectory := h.noDirectory place hplace
  unfold holds read
  cases hnode : tree.node place with
  | none => simp
  | some node =>
      cases node with
      | file contents => simp
      | directory => exact absurd hnode hdirectory

/-- What makes places files or removes files there keeps them clear. -/
theorem Clear.of_read {tree' : Tree σ β} (h : Clear places tree) (hapart : Apart places)
    (hdirectory : ∀ place, tree'.node place = some .directory → place ∈ places → tree.node place = some .directory)
    (hread : ∀ place, place ∉ places → tree'.read place = tree.read place) : Clear places tree' where
  noDirectory place hplace hnode := h.noDirectory place hplace (hdirectory place hnode hplace)
  noFile place hplace above hpre hne := by
    have habove : above ∉ places := fun hmem => hne (hapart.below above hmem place hplace hpre)
    rw [hread above habove]
    exact h.noFile place hplace above hpre hne

end

/-- The directory that a place is in is there. -/
def hasParent (tree : Tree σ β) (place : List σ) : Bool := place ≠ [] ∧ tree.isDirectory place.dropLast

theorem hasParent_concat {tree : Tree σ β} {place : List σ} {name : σ} :
    tree.hasParent (place ++ [name]) = true ↔ tree.node place = some .directory := by
  simp [hasParent, isDirectory_iff]

variable [DecidableEq σ]

/-- A file stands on the way to a directory. -/
def blocked (tree : Tree σ β) (directory : List σ) : Bool :=
  directory.inits.any fun place => (tree.node place).any Node.isFile

/-- `create_dir_all`: every directory on the way, unless a file stands there. -/
def createDirAll (tree : Tree σ β) (directory : List σ) : Tree σ β :=
  if tree.blocked directory then tree
  else
    { node := fun place => if place <+: directory then some .directory else tree.node place
      places := directory.inits ++ tree.places
      closed := by
        intro place name hnode
        split_ifs with hplace
        · rfl
        · have hlonger : ¬place ++ [name] <+: directory := fun h => hplace ((List.prefix_append _ _).trans h)
          rw [if_neg hlonger] at hnode
          exact tree.closed place name hnode
      listed := by
        intro place hnode
        split_ifs at hnode with hplace
        · exact List.mem_append_left _ ((List.mem_inits _ _).mpr hplace)
        · exact List.mem_append_right _ (tree.listed place hnode) }

/-- `write`: where there is no directory, in a directory that is there. -/
def write (tree : Tree σ β) (place : List σ) (contents : β) : Option (Tree σ β) :=
  if h : tree.hasParent place = true ∧ tree.isDirectory place = false then
    some
      { node := Function.update tree.node place (some (.file contents))
        places := place :: tree.places
        closed := by
          intro above name hnode
          have hplace : tree.node place ≠ some .directory := by
            rw [Ne, ← isDirectory_iff, h.2]
            exact Bool.false_ne_true
          by_cases heq : above ++ [name] = place
          · have hne : above ≠ place := by
              rintro rfl
              exact absurd (congrArg List.length heq) (by simp)
            rw [Function.update_of_ne hne]
            exact hasParent_concat.mp (heq ▸ h.1)
          · rw [Function.update_of_ne heq] at hnode
            have habove : tree.node above = some .directory := tree.closed above name hnode
            have hne : above ≠ place := by
              rintro rfl
              exact hplace habove
            rw [Function.update_of_ne hne, habove]
        listed := by
          intro other hnode
          by_cases heq : other = place
          · exact heq ▸ List.mem_cons_self
          · rw [Function.update_of_ne heq] at hnode
            exact List.mem_cons_of_mem _ (tree.listed other hnode) }
  else none

/-- `remove_file` -/
def removeFile (tree : Tree σ β) (place : List σ) : Option (Tree σ β) :=
  if h : (tree.node place).any Node.isFile = true then
    some
      { node := Function.update tree.node place none
        places := tree.places
        closed := by
          intro above name hnode
          have hother : above ++ [name] ≠ place := by
            rintro rfl
            exact hnode (Function.update_self _ _ _)
          rw [Function.update_of_ne hother] at hnode
          have habove : tree.node above = some .directory := tree.closed above name hnode
          have hne : above ≠ place := by
            rintro rfl
            simp [habove, Node.isFile] at h
          rw [Function.update_of_ne hne, habove]
        listed := by
          intro other hnode
          have hother : other ≠ place := by
            rintro rfl
            exact hnode (Function.update_self _ _ _)
          rw [Function.update_of_ne hother] at hnode
          exact tree.listed other hnode }
  else none

/-- Nothing lies below a place. -/
def bare (tree : Tree σ β) (place : List σ) : Bool :=
  tree.places.all fun other => ¬(place <+: other ∧ place ≠ other ∧ tree.holds other)

/-- What may take a place by a renaming: a file that of a file, a directory that of a bare one. -/
def mayTake (tree : Tree σ β) (place : List σ) : Node β → Bool
  | .file _ => !tree.isDirectory place
  | .directory => !(tree.node place).any Node.isFile && tree.bare place

/-- `rename`: with all that lies below it, what there is moves to a place that it may take. -/
def rename (tree : Tree σ β) (old new : List σ) : Option (Tree σ β) :=
  match tree.node old with
  | none => none
  | some moved =>
      if old = new then some tree
      else if h : tree.hasParent new = true ∧ tree.mayTake new moved = true ∧ ¬old <+: new then
        some
          { node := fun place =>
              if new <+: place then tree.node (old ++ place.drop new.length)
              else if old <+: place then none
              else tree.node place
            places := (tree.places.filter (old <+: ·)).map (fun place => new ++ place.drop old.length) ++ tree.places
            closed := by
              intro place name hnode
              by_cases hplace : new <+: place
              · have hlonger : new <+: place ++ [name] := hplace.trans (List.prefix_append _ _)
                rw [if_pos hlonger, List.drop_append_of_le_length hplace.length_le, ← List.append_assoc] at hnode
                rw [if_pos hplace]
                exact tree.closed _ name hnode
              · rw [if_neg hplace]
                by_cases hnew : new <+: place ++ [name]
                · rcases List.prefix_concat_iff.mp hnew with rfl | hnew
                  · have hold : ¬old <+: place := fun hold => h.2.2 (hold.trans (List.prefix_append _ _))
                    rw [if_neg hold]
                    exact hasParent_concat.mp h.1
                  · exact absurd hnew hplace
                · rw [if_neg hnew] at hnode
                  by_cases hold : old <+: place ++ [name]
                  · rw [if_pos hold] at hnode
                    exact absurd rfl hnode
                  · rw [if_neg hold] at hnode
                    rw [if_neg fun hold' => hold (hold'.trans (List.prefix_append _ _))]
                    exact tree.closed place name hnode
            listed := by
              intro place hnode
              by_cases hplace : new <+: place
              · rw [if_pos hplace] at hnode
                refine List.mem_append_left _ (List.mem_map.mpr ⟨_, List.mem_filter.mpr ⟨tree.listed _ hnode, ?_⟩, ?_⟩)
                · exact decide_eq_true (List.prefix_append _ _)
                · rw [List.drop_left]
                  exact List.prefix_iff_eq_append.mp hplace
              · rw [if_neg hplace] at hnode
                by_cases hold : old <+: place
                · rw [if_pos hold] at hnode
                  exact absurd rfl hnode
                · rw [if_neg hold] at hnode
                  exact List.mem_append_right _ (tree.listed place hnode) }
      else none

section Frame

variable {tree tree' : Tree σ β} {place : List σ}

/-- To make directories leaves alone what is there. -/
theorem createDirAll_of_holds (directory : List σ) (hplace : tree.node place ≠ none) :
    (tree.createDirAll directory).node place = tree.node place := by
  unfold createDirAll
  split_ifs with hblocked
  · rfl
  · show (if place <+: directory then some .directory else tree.node place) = tree.node place
    split_ifs with hpre
    · have hfile : ¬(tree.node place).any Node.isFile = true := fun hfile =>
        hblocked (List.any_eq_true.mpr ⟨place, (List.mem_inits _ _).mpr hpre, hfile⟩)
      cases hnode : tree.node place with
      | none => exact absurd hnode hplace
      | some node =>
          cases node with
          | file contents => simp [hnode, Node.isFile] at hfile
          | directory => rfl
    · rfl

theorem write_of_ne {target : List σ} {contents : β} (h : tree.write target contents = some tree')
    (hne : place ≠ target) : tree'.node place = tree.node place := by
  unfold write at h
  split_ifs at h
  obtain rfl := Option.some.inj h
  exact Function.update_of_ne hne _ _

theorem removeFile_of_ne {target : List σ} (h : tree.removeFile target = some tree') (hne : place ≠ target) :
    tree'.node place = tree.node place := by
  unfold removeFile at h
  split_ifs at h
  obtain rfl := Option.some.inj h
  exact Function.update_of_ne hne _ _

theorem removeFile_of_self {target : List σ} (h : tree.removeFile target = some tree') : tree'.node target = none := by
  unfold removeFile at h
  split_ifs at h
  obtain rfl := Option.some.inj h
  exact Function.update_self _ _ _

/-- What is not removed is no file. -/
theorem read_of_not_removeFile {target : List σ} (h : tree.removeFile target = none) : tree.read target = none := by
  unfold removeFile at h
  split_ifs at h with hfile
  cases hnode : tree.node target with
  | none => rw [read, hnode]
  | some node =>
      cases node with
      | file contents => simp [hnode, Node.isFile] at hfile
      | directory => rw [read, hnode]

/-- A renaming leaves alone what lies neither at nor below the two places. -/
theorem rename_of_holds {old new : List σ} (h : tree.rename old new = some tree') (hold : ¬old <+: place)
    (hnew : new <+: place → tree.node new = none) (hplace : tree.node place ≠ none) :
    tree'.node place = tree.node place := by
  have hnew' : ¬new <+: place := by
    intro hpre
    have hnone : tree.node new = none := hnew hpre
    refine hplace (node_below (by simp [hnone]) hpre ?_)
    rintro rfl
    exact hplace hnone
  unfold rename at h
  split at h
  · cases h
  · split_ifs at h
    · exact congrArg (node · place) (Option.some.inj h).symm
    · obtain rfl := Option.some.inj h
      show (if new <+: place then _ else if old <+: place then none else tree.node place) = _
      rw [if_neg hnew', if_neg hold]

end Frame

section Clear

variable {places : Set (List σ)} {tree : Tree σ β} {place : List σ}

/-- The directory of a place can be made, and no file changes by it. -/
theorem Clear.createDirAll (h : Clear places tree) (hapart : Apart places) (hplace : place ∈ places) :
    Clear places (tree.createDirAll place.dropLast) ∧ (tree.createDirAll place.dropLast).hasParent place = true ∧
      ∀ other, (tree.createDirAll place.dropLast).read other = tree.read other := by
  have hne : place ≠ [] := fun heq => hapart.root (heq ▸ hplace)
  have habove {above : List σ} (hpre : above <+: place.dropLast) : above <+: place ∧ above ≠ place := by
    refine ⟨hpre.trans (List.dropLast_prefix place), ?_⟩
    rintro rfl
    have hlength := hpre.length_le
    rw [List.length_dropLast] at hlength
    have hpos := List.length_pos_of_ne_nil hne
    omega
  have hblocked : tree.blocked place.dropLast = false := by
    refine Bool.eq_false_iff.mpr fun hblocked => ?_
    obtain ⟨above, hmem, hfile⟩ := List.any_eq_true.mp hblocked
    obtain ⟨hpre, hother⟩ := habove ((List.mem_inits _ _).mp hmem)
    have hread := h.noFile place hplace above hpre hother
    unfold read at hread
    cases hnode : tree.node above with
    | none => simp [hnode] at hfile
    | some node => cases node <;> simp_all [Node.isFile]
  have hnode (other : List σ) : (tree.createDirAll place.dropLast).node other =
      if other <+: place.dropLast then some .directory else tree.node other := by
    simp only [Tree.createDirAll, hblocked, Bool.false_eq_true, if_false]
  have hread (other : List σ) : (tree.createDirAll place.dropLast).read other = tree.read other := by
    by_cases hpre : other <+: place.dropLast
    · obtain ⟨hpre', hother⟩ := habove hpre
      rw [read_of_directory (by rw [hnode, if_pos hpre]), h.noFile place hplace other hpre' hother]
    · rw [read, read, hnode, if_neg hpre]
  refine ⟨⟨fun other hmem hdirectory => ?_, fun other hmem above hpre hother => ?_⟩, ?_, hread⟩
  · rw [hnode] at hdirectory
    split_ifs at hdirectory with hpre
    · obtain ⟨hpre', hother⟩ := habove hpre
      exact hother (hapart.below other hmem place hplace hpre')
    · exact h.noDirectory other hmem hdirectory
  · rw [hread]
    exact h.noFile other hmem above hpre hother
  · simp [hasParent, hne, isDirectory_iff, hnode]

theorem Clear.write (h : Clear places tree) (hapart : Apart places) (hplace : place ∈ places)
    (hparent : tree.hasParent place = true) (contents : β) :
    ∃ tree', tree.write place contents = some tree' ∧ Clear places tree' ∧
      tree'.read = Function.update tree.read place (some contents) := by
  have hdirectory : tree.isDirectory place = false := by
    refine Bool.eq_false_iff.mpr fun hdirectory => ?_
    exact h.noDirectory place hplace (isDirectory_iff.mp hdirectory)
  obtain ⟨tree', hwrite⟩ : ∃ tree', tree.write place contents = some tree' := by
    unfold Tree.write
    rw [dif_pos ⟨hparent, hdirectory⟩]
    exact ⟨_, rfl⟩
  have hself : tree'.node place = some (.file contents) := by
    unfold Tree.write at hwrite
    rw [dif_pos ⟨hparent, hdirectory⟩] at hwrite
    obtain rfl := Option.some.inj hwrite
    exact Function.update_self _ _ _
  have hread : tree'.read = Function.update tree.read place (some contents) := by
    funext other
    by_cases heq : other = place
    · rw [heq, Function.update_self, read_eq_some, hself]
    · rw [Function.update_of_ne heq, read, read, write_of_ne hwrite heq]
  refine ⟨tree', hwrite, h.of_read hapart (fun other hnode hmem => ?_) (fun other hmem => ?_), hread⟩
  · by_cases heq : other = place
    · rw [heq, hself] at hnode
      cases hnode
    · rwa [write_of_ne hwrite heq] at hnode
  · rw [hread, Function.update_of_ne]
    rintro rfl
    exact hmem hplace

theorem Clear.removeFile (h : Clear places tree) (hapart : Apart places) (hplace : place ∈ places)
    (hread : tree.read place ≠ none) :
    ∃ tree', tree.removeFile place = some tree' ∧ Clear places tree' ∧
      tree'.read = Function.update tree.read place none := by
  obtain ⟨contents, hcontents⟩ := Option.ne_none_iff_exists'.mp hread
  have hfile : (tree.node place).any Node.isFile = true := by
    rw [read_eq_some.mp hcontents]
    rfl
  obtain ⟨tree', hremove⟩ : ∃ tree', tree.removeFile place = some tree' := by
    unfold Tree.removeFile
    rw [dif_pos hfile]
    exact ⟨_, rfl⟩
  have hself : tree'.node place = none := removeFile_of_self hremove
  have hread' : tree'.read = Function.update tree.read place none := by
    funext other
    by_cases heq : other = place
    · rw [heq, Function.update_self, read, hself]
    · rw [Function.update_of_ne heq, read, read, removeFile_of_ne hremove heq]
  refine ⟨tree', hremove, h.of_read hapart (fun other hnode hmem => ?_) (fun other hmem => ?_), hread'⟩
  · by_cases heq : other = place
    · rw [heq, hself] at hnode
      cases hnode
    · rwa [removeFile_of_ne hremove heq] at hnode
  · rw [hread', Function.update_of_ne]
    rintro rfl
    exact hmem hplace

/-- A file moves from one of the places to another. -/
theorem Clear.rename {old new : List σ} {contents : β} (h : Clear places tree) (hapart : Apart places)
    (hold : old ∈ places) (hnew : new ∈ places) (hne : old ≠ new) (hparent : tree.hasParent new = true)
    (hread : tree.read old = some contents) :
    ∃ tree', tree.rename old new = some tree' ∧ Clear places tree' ∧
      tree'.read = Function.update (Function.update tree.read old none) new (some contents) := by
  have hnode : tree.node old = some (.file contents) := read_eq_some.mp hread
  have hmay : tree.mayTake new (.file contents) = true := by
    have hdirectory : tree.isDirectory new ≠ true := fun hdirectory =>
      h.noDirectory new hnew (isDirectory_iff.mp hdirectory)
    simpa [mayTake] using hdirectory
  have hbelow : ¬old <+: new := fun hpre => hne (hapart.below old hold new hnew hpre)
  obtain ⟨tree', hrename, hmoved⟩ : ∃ tree', tree.rename old new = some tree' ∧ ∀ place, tree'.node place =
      if new <+: place then tree.node (old ++ place.drop new.length) else if old <+: place then none
        else tree.node place := by
    unfold Tree.rename
    rw [hnode]
    dsimp only
    rw [if_neg hne, dif_pos ⟨hparent, hmay, hbelow⟩]
    exact ⟨_, rfl, fun place => rfl⟩
  -- Both places hold files or nothing, so nothing is below either.
  have hunder {place other : List σ} (hplace : place ∈ places) (hpre : place <+: other) (hother : other ≠ place) :
      tree.node other = none := node_below (h.noDirectory place hplace) hpre hother.symm
  have hnode' : tree'.node = Function.update (Function.update tree.node old none) new (some (.file contents)) := by
    funext place
    rw [hmoved]
    by_cases hplace : place = new
    · rw [hplace, Function.update_self, if_pos List.prefix_rfl, List.drop_length, List.append_nil, hnode]
    · rw [Function.update_of_ne hplace]
      by_cases hplace' : place = old
      · have hpre : ¬new <+: place := fun hpre =>
          hne (hplace' ▸ (hapart.below new hnew place (hplace' ▸ hold) hpre).symm)
        rw [if_neg hpre, hplace', if_pos List.prefix_rfl, Function.update_self]
      · rw [Function.update_of_ne hplace']
        split_ifs with hpre hpre'
        · have hrest : old ++ place.drop new.length ≠ old := by
            intro heq
            have hlength := congrArg List.length heq
            rw [List.length_append, List.length_drop] at hlength
            exact hplace (hpre.eq_of_length_le (by omega)).symm
          rw [hunder hold (List.prefix_append _ _) hrest, hunder hnew hpre hplace]
        · exact (hunder hold hpre' hplace').symm
        · rfl
  have hread' : tree'.read = Function.update (Function.update tree.read old none) new (some contents) := by
    funext place
    unfold read
    rw [hnode']
    by_cases hplace : place = new
    · rw [hplace, Function.update_self, Function.update_self]
    · rw [Function.update_of_ne hplace, Function.update_of_ne hplace]
      by_cases hplace' : place = old
      · rw [hplace', Function.update_self, Function.update_self]
      · rw [Function.update_of_ne hplace', Function.update_of_ne hplace']
  refine ⟨tree', hrename, h.of_read hapart (fun place hdirectory hmem => ?_) (fun place hmem => ?_), hread'⟩
  · rw [hnode'] at hdirectory
    by_cases hplace : place = new
    · rw [hplace, Function.update_self] at hdirectory
      cases hdirectory
    · rw [Function.update_of_ne hplace] at hdirectory
      by_cases hplace' : place = old
      · rw [hplace', Function.update_self] at hdirectory
        cases hdirectory
      · rwa [Function.update_of_ne hplace'] at hdirectory
  · have hplace : place ≠ new := by
      rintro rfl
      exact hmem hnew
    have hplace' : place ≠ old := by
      rintro rfl
      exact hmem hold
    rw [hread', Function.update_of_ne hplace, Function.update_of_ne hplace']

end Clear

end Tree

end FileTree
