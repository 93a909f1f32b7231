import ThunderForge.Lib.FileTree
import ThunderForge.Lib.Run
import ThunderForge.Mirror.Links

/-! Making a working clone match a plan (`lore_sync/apply.rs`). What was written before, by the records of it, is all
that a pass may move, overwrite or remove: whatever else there is stays. -/

namespace ThunderForge.Mirror

open FileTree (Tree)

variable {β : Type} [DecidableEq β]

/-- One file the repository should contain, and the entry it represents. -/
structure PlannedFile (β : Type) where
  entryId : Uuid
  path : Name
  contents : β

/-- An image the repository should contain. -/
structure PlannedImage where
  assetId : Uuid
  path : Name
  objectKey : Name

/-- Everything a pass should make true of the repository. -/
structure Plan (β : Type) where
  files : List (PlannedFile β)
  images : List PlannedImage

/-- What a pass changed. -/
structure Changes where
  written : List Name
  moved : List (Name × Name)
  removed : List Name
deriving DecidableEq

def Changes.none : Changes := { written := [], moved := [], removed := [] }

def Changes.isEmpty (changes : Changes) : Bool :=
  changes.written.isEmpty && changes.moved.isEmpty && changes.removed.isEmpty

/-- The path last written for each entry, in the order in which the map is gone through. -/
structure Records where
  rows : List (Uuid × Name)
  nodup : (rows.map Prod.fst).Nodup

def Records.get (records : Records) (id : Uuid) : Option Name :=
  (records.rows.find? fun row => row.1 = id).map Prod.snd

/-- Whether a path was written for any entry. -/
def Records.wrote (records : Records) (path : Name) : Bool := records.rows.any fun row => row.2 = path

/-- A path collision with content we did not write. -/
structure Collision where
  path : Name
deriving DecidableEq

/-- How far a pass has come. -/
structure Progress (β : Type) where
  tree : Tree Name β
  changes : Changes

/-- What a pass is given beside the tree. -/
structure Pass (β : Type) where
  plan : Plan β
  previouslyWritten : Records
  readImage : Name → Option β

/-- `Path::join`: a path that starts at the root leads from there. -/
def join (subtree : List Name) (path : Name) : List Name :=
  follow (if path.head? = some '/' then [] else subtree) path

section

variable (subtree : List Name) (pass : Pass β)

/-- There is something at a path that was never written. -/
def collides (tree : Tree Name β) (file : PlannedFile β) : Bool :=
  pass.previouslyWritten.get file.entryId ≠ some file.path ∧ tree.holds (join subtree file.path) ∧
    ¬pass.previouslyWritten.wrote file.path

/-- A move, performed as a move. -/
def moveFile (progress : Progress β) (file : PlannedFile β) : Progress β :=
  match pass.previouslyWritten.get file.entryId with
  | none => progress
  | some oldPath =>
      if oldPath ≠ file.path ∧ progress.tree.holds (join subtree oldPath) then
        let tree := progress.tree.createDirAll (join subtree file.path).dropLast
        match tree.rename (join subtree oldPath) (join subtree file.path) with
        | some tree =>
            { tree, changes := { progress.changes with moved := progress.changes.moved ++ [(oldPath, file.path)] } }
        | none => { progress with tree }
      else progress

/-- Only write when the contents differ. -/
def writeFile (progress : Progress β) (file : PlannedFile β) : Progress β :=
  let target := join subtree file.path
  let tree := progress.tree.createDirAll target.dropLast
  if tree.read target = some file.contents then { progress with tree }
  else
    match tree.write target file.contents with
    | some tree => { tree, changes := { progress.changes with written := progress.changes.written ++ [file.path] } }
    | none => { progress with tree }

/-- The loop over the planned files; a collision stops it, with the tree as it is then. -/
def applyFiles : List (PlannedFile β) → Progress β → Except (Collision × Tree Name β) (Progress β)
  | [], progress => .ok progress
  | file :: files, progress =>
      if collides subtree pass progress.tree file then .error ({ path := file.path }, progress.tree)
      else applyFiles files (writeFile subtree (moveFile subtree pass progress file) file)

def writeImage (progress : Progress β) (image : PlannedImage) : Progress β :=
  let target := join subtree image.path
  if progress.tree.holds target then progress
  else
    match pass.readImage image.objectKey with
    | none => progress
    | some bytes =>
        let tree := progress.tree.createDirAll target.dropLast
        match tree.write target bytes with
        | some tree =>
            { tree, changes := { progress.changes with written := progress.changes.written ++ [image.path] } }
        | none => { progress with tree }

/-- An entry that left the plan takes its file with it. -/
def removeFile (progress : Progress β) (row : Uuid × Name) : Progress β :=
  if row.1 ∈ pass.plan.files.map PlannedFile.entryId then progress
  else
    match progress.tree.removeFile (join subtree row.2) with
    | some tree => { tree, changes := { progress.changes with removed := progress.changes.removed ++ [row.2] } }
    | none => progress

/-- Write a plan into a world's subtree. -/
def apply (tree : Tree Name β) : Except (Collision × Tree Name β) (Progress β) :=
  (applyFiles subtree pass pass.plan.files { tree, changes := .none }).map fun progress =>
    Run.run (removeFile subtree pass) (Run.run (writeImage subtree pass) progress pass.plan.images)
      pass.previouslyWritten.rows

end

/-- The tree that a pass leaves, whether it ended or stopped. -/
def treeLeft : Except (Collision × Tree Name β) (Progress β) → Tree Name β
  | .ok progress => progress.tree
  | .error stopped => stopped.2

/-- One pass after another on the same subtree. -/
def passes (subtree : List Name) (tree : Tree Name β) (run : List (Pass β)) : Tree Name β :=
  Run.run (fun tree pass => treeLeft (apply subtree pass tree)) tree run

/-- No path that was written leads to a place, or to where it lies. -/
def Pass.Foreign (subtree : List Name) (pass : Pass β) (place : List Name) : Prop :=
  ∀ row ∈ pass.previouslyWritten.rows, ¬join subtree row.2 <+: place

theorem apply_eq_ok {subtree : List Name} {pass : Pass β} {tree : Tree Name β} {ended : Progress β} :
    apply subtree pass tree = .ok ended ↔
      ∃ progress, applyFiles subtree pass pass.plan.files { tree, changes := .none } = .ok progress ∧
        Run.run (removeFile subtree pass) (Run.run (writeImage subtree pass) progress pass.plan.images)
          pass.previouslyWritten.rows = ended := by
  unfold apply
  cases applyFiles subtree pass pass.plan.files { tree, changes := .none } <;> simp [Except.map]

section Records

variable {records : Records} {id : Uuid} {path : Name}

theorem Records.mem_of_get (h : records.get id = some path) : (id, path) ∈ records.rows := by
  obtain ⟨row, hfind, hpath⟩ := Option.map_eq_some_iff.mp h
  have hid : row.1 = id := by simpa using List.find?_some hfind
  rw [← hid, ← hpath]
  exact List.mem_of_find?_eq_some hfind

theorem Records.get_of_mem (h : (id, path) ∈ records.rows) : records.get id = some path := by
  unfold Records.get
  cases hfind : records.rows.find? fun row => row.1 = id with
  | none => simpa using List.find?_eq_none.mp hfind (id, path) h
  | some row =>
      have hid : row.1 = id := by simpa using List.find?_some hfind
      have heq : row = (id, path) :=
        List.inj_on_of_nodup_map records.nodup (List.mem_of_find?_eq_some hfind) h hid
      rw [heq]
      rfl

theorem Records.get_eq_some : records.get id = some path ↔ (id, path) ∈ records.rows :=
  ⟨Records.mem_of_get, Records.get_of_mem⟩

theorem Records.wrote_iff : records.wrote path = true ↔ ∃ row ∈ records.rows, row.2 = path := by
  simp [Records.wrote]

end Records

section Foreign

variable {subtree : List Name} {pass : Pass β} {place : List Name} {tree : Tree Name β}

omit [DecidableEq β] in
/-- Where a planned file goes without a collision there is nothing of anybody else's. -/
theorem not_prefix_of_not_collides (hforeign : pass.Foreign subtree place) (hplace : tree.node place ≠ none)
    {file : PlannedFile β} (hcollides : ¬collides subtree pass tree file = true) :
    ¬join subtree file.path <+: place := by
  intro hprefix
  have hholds : tree.holds (join subtree file.path) = true := by
    rw [Tree.holds, Option.isSome_iff_ne_none]
    by_cases heq : join subtree file.path = place
    · rwa [heq]
    · rw [Tree.node_of_prefix tree hprefix heq hplace]
      exact Option.some_ne_none _
  apply hcollides
  refine decide_eq_true ⟨fun hget => ?_, hholds, fun hwrote => ?_⟩
  · exact hforeign _ (Records.mem_of_get hget) hprefix
  · obtain ⟨row, hrow, hpath⟩ := Records.wrote_iff.mp hwrote
    exact hforeign row hrow (hpath ▸ hprefix)

omit [DecidableEq β] in
theorem moveFile_node (hforeign : pass.Foreign subtree place) {progress : Progress β}
    (hplace : progress.tree.node place ≠ none) {file : PlannedFile β} (htarget : ¬join subtree file.path <+: place) :
    (moveFile subtree pass progress file).tree.node place = progress.tree.node place := by
  unfold moveFile
  split
  · rfl
  · rename_i oldPath hget
    split_ifs
    · have hcreated : (progress.tree.createDirAll (join subtree file.path).dropLast).node place =
          progress.tree.node place := Tree.createDirAll_of_holds _ hplace
      dsimp only
      split
      · rename_i tree hrename
        rw [Tree.rename_of_holds hrename (hforeign _ (Records.mem_of_get hget)) (fun h => absurd h htarget)
          (hcreated ▸ hplace), hcreated]
      · exact hcreated
    · rfl

theorem writeFile_node {progress : Progress β} (hplace : progress.tree.node place ≠ none) {file : PlannedFile β}
    (htarget : ¬join subtree file.path <+: place) :
    (writeFile subtree progress file).tree.node place = progress.tree.node place := by
  have hne : place ≠ join subtree file.path := by
    rintro rfl
    exact htarget List.prefix_rfl
  have hcreated : (progress.tree.createDirAll (join subtree file.path).dropLast).node place =
      progress.tree.node place := Tree.createDirAll_of_holds _ hplace
  unfold writeFile
  dsimp only
  split_ifs
  · exact hcreated
  · split
    · rename_i tree hwrite
      rw [Tree.write_of_ne hwrite hne, hcreated]
    · exact hcreated

theorem applyFiles_node (hforeign : pass.Foreign subtree place) (files : List (PlannedFile β)) {progress : Progress β}
    (hplace : progress.tree.node place ≠ none) :
    (treeLeft (applyFiles subtree pass files progress)).node place = progress.tree.node place := by
  induction files generalizing progress with
  | nil => rfl
  | cons file files ih =>
      unfold applyFiles
      split_ifs with hcollides
      · rfl
      · have htarget := not_prefix_of_not_collides hforeign hplace hcollides
        have hmoved := moveFile_node hforeign hplace htarget
        have hwritten : (writeFile subtree (moveFile subtree pass progress file) file).tree.node place =
            progress.tree.node place := (writeFile_node (hmoved ▸ hplace) htarget).trans hmoved
        rw [ih (hwritten ▸ hplace), hwritten]

omit [DecidableEq β] in
theorem writeImage_node {progress : Progress β} (hplace : progress.tree.node place ≠ none) (image : PlannedImage) :
    (writeImage subtree pass progress image).tree.node place = progress.tree.node place := by
  unfold writeImage
  dsimp only
  split_ifs with hholds
  · rfl
  · have hne : place ≠ join subtree image.path := by
      rintro rfl
      exact hholds (Option.isSome_iff_ne_none.mpr hplace)
    have hcreated : (progress.tree.createDirAll (join subtree image.path).dropLast).node place =
        progress.tree.node place := Tree.createDirAll_of_holds _ hplace
    split
    · rfl
    · split
      · rename_i tree hwrite
        rw [Tree.write_of_ne hwrite hne, hcreated]
      · exact hcreated

omit [DecidableEq β] in
theorem removeFile_node {progress : Progress β} {row : Uuid × Name} (hrow : ¬join subtree row.2 <+: place) :
    (removeFile subtree pass progress row).tree.node place = progress.tree.node place := by
  unfold removeFile
  split_ifs
  · rfl
  · split
    · rename_i tree hremove
      refine Tree.removeFile_of_ne hremove ?_
      rintro rfl
      exact hrow List.prefix_rfl
    · rfl

theorem apply_node (hforeign : pass.Foreign subtree place) (hplace : tree.node place ≠ none) :
    (treeLeft (apply subtree pass tree)).node place = tree.node place := by
  have hfiles : (treeLeft (applyFiles subtree pass pass.plan.files { tree, changes := .none })).node place =
      tree.node place := applyFiles_node hforeign pass.plan.files hplace
  unfold apply
  cases happlied : applyFiles subtree pass pass.plan.files { tree, changes := .none } with
  | error stopped =>
      rw [happlied] at hfiles
      exact hfiles
  | ok progress =>
      rw [happlied] at hfiles
      have hwrite : ∀ (progress : Progress β) (image : PlannedImage), progress.tree.node place = tree.node place →
          (writeImage subtree pass progress image).tree.node place = tree.node place :=
        fun progress image h => (writeImage_node (h ▸ hplace) image).trans h
      have hremove : ∀ (progress : Progress β) (row : Uuid × Name), progress.tree.node place = tree.node place →
          ¬join subtree row.2 <+: place → (removeFile subtree pass progress row).tree.node place = tree.node place :=
        fun progress row h hrow => (removeFile_node hrow).trans h
      exact Run.invariant_of_mem hremove (Run.invariant hwrite hfiles pass.plan.images) hforeign

end Foreign

/-- Whatever passes are made on a subtree, and wherever they stop: a file or directory to which none of the paths on
record leads is there in the end as it was. An image is never on record, so it stays when its entry has gone. -/
theorem foreign_stays (subtree : List Name) (tree : Tree Name β) (run : List (Pass β)) {place : List Name}
    (hplace : tree.node place ≠ none) (hforeign : ∀ pass ∈ run, pass.Foreign subtree place) :
    (passes subtree tree run).node place = tree.node place :=
  Run.invariant_of_mem (I := fun left : Tree Name β => left.node place = tree.node place)
    (fun _ _ h hpass => (apply_node hpass (h ▸ hplace)).trans h) rfl hforeign

/-- An entry with a picture. -/
def pictured : Pass Nat where
  plan := { files := [⟨1, "a.md".toList, 1⟩], images := [⟨9, "_images/9.webp".toList, "lore/9.webp".toList⟩] }
  previouslyWritten := ⟨[], .nil⟩
  readImage _ := some 9

/-- The entry has gone. -/
def emptied : Pass Nat where
  plan := { files := [], images := [] }
  previouslyWritten := ⟨[(1, "a.md".toList)], by decide⟩
  readImage _ := some 9

theorem picture_stays : (passes [] (passes [] Tree.empty [pictured]) [emptied]).node
    ["_images".toList, "9.webp".toList] = some (.file 9) := by
  have hplace : (passes [] Tree.empty [pictured]).node ["_images".toList, "9.webp".toList] = some (.file 9) := by
    decide
  rw [foreign_stays [] _ [emptied] (hplace ▸ Option.some_ne_none _) (by unfold Pass.Foreign; decide), hplace]

section Withdrawn

variable {subtree : List Name} {pass : Pass β} {place : List Name}

omit [DecidableEq β] in
theorem read_removeFile {progress : Progress β} (hread : progress.tree.read place = none) (row : Uuid × Name) :
    (removeFile subtree pass progress row).tree.read place = none := by
  unfold removeFile
  split_ifs
  · exact hread
  · split
    · rename_i tree hremove
      by_cases heq : place = join subtree row.2
      · rw [Tree.read, heq, Tree.removeFile_of_self hremove]
      · rwa [Tree.read, Tree.removeFile_of_ne hremove heq]
    · exact hread

omit [DecidableEq β] in
theorem read_removeFile_self (progress : Progress β) {row : Uuid × Name}
    (hrow : row.1 ∉ pass.plan.files.map PlannedFile.entryId) :
    (removeFile subtree pass progress row).tree.read (join subtree row.2) = none := by
  unfold removeFile
  rw [if_neg hrow]
  split
  · rename_i tree hremove
    rw [Tree.read, Tree.removeFile_of_self hremove]
  · rename_i hremove
    exact Tree.read_of_not_removeFile hremove

omit [DecidableEq β] in
/-- A pass ends with `removeFile` for every record. -/
theorem read_removed (progress : Progress β) {row : Uuid × Name} (hrow : row ∈ pass.previouslyWritten.rows)
    (hwithdrawn : row.1 ∉ pass.plan.files.map PlannedFile.entryId) :
    (Run.run (removeFile subtree pass) progress pass.previouslyWritten.rows).tree.read (join subtree row.2) = none := by
  obtain ⟨before, after, hrows⟩ := List.append_of_mem hrow
  rw [hrows, Run.run_append, Run.run_cons]
  exact Run.invariant (I := fun progress : Progress β => progress.tree.read (join subtree row.2) = none)
    (fun _ row h => read_removeFile h row) (read_removeFile_self _ hwithdrawn) after

end Withdrawn

/-- When a pass ends, no file is at the path on record for an entry that left the plan. -/
theorem withdrawn_gone (subtree : List Name) (pass : Pass β) (tree : Tree Name β) {ended : Progress β}
    (hended : apply subtree pass tree = .ok ended) {row : Uuid × Name} (hrow : row ∈ pass.previouslyWritten.rows)
    (hwithdrawn : row.1 ∉ pass.plan.files.map PlannedFile.entryId) :
    ended.tree.read (join subtree row.2) = none := by
  obtain ⟨progress, -, rfl⟩ := apply_eq_ok.mp hended
  exact read_removed _ hrow hwithdrawn

theorem picture_withdrawn : ∃ ended, apply [] emptied (passes [] Tree.empty [pictured]) = .ok ended ∧
    ended.tree.read ["a.md".toList] = none := by
  have hgone : (1, "a.md".toList).1 ∉ emptied.plan.files.map PlannedFile.entryId := by decide
  exact ⟨_, rfl, withdrawn_gone [] emptied _ rfl List.mem_cons_self hgone⟩

end ThunderForge.Mirror
