import ThunderForge.Mirror.Applying

/-! What a pass makes of a subtree where a file can stand at every path it is about: which planned files are in place
when it ends, and that a repeated pass puts every one of them there. -/

namespace ThunderForge.Mirror

open FileTree (Tree)
open FileTree.Tree (Apart Clear)

variable {β : Type} [DecidableEq β]

/-- The paths a pass is about. -/
def Pass.paths (pass : Pass β) : List Name :=
  pass.plan.files.map PlannedFile.path ++ pass.plan.images.map PlannedImage.path ++
    pass.previouslyWritten.rows.map Prod.snd

/-- Where they lead. -/
def Pass.targets (subtree : List Name) (pass : Pass β) : Set (List Name) :=
  {place | ∃ path ∈ pass.paths, join subtree path = place}

/-- One file an entry, and no two paths of the pass lead to one place or to one below the other. -/
structure Pass.Laid (subtree : List Name) (pass : Pass β) : Prop where
  entries : (pass.plan.files.map PlannedFile.entryId).Nodup
  files : (pass.plan.files.map PlannedFile.path).Nodup
  images : ∀ image ∈ pass.plan.images, image.path ∉ pass.plan.files.map PlannedFile.path ∧
    image.path ∉ pass.previouslyWritten.rows.map Prod.snd
  distinct : ∀ path ∈ pass.paths, ∀ other ∈ pass.paths, join subtree path = join subtree other → path = other
  apart : Apart (pass.targets subtree)

/-- What the file at a path holds. -/
def fileAt (subtree : List Name) (tree : Tree Name β) (path : Name) : Option β := tree.read (join subtree path)

section

variable {subtree : List Name} {pass : Pass β}

omit [DecidableEq β] in
theorem Pass.file_mem {file : PlannedFile β} (hfile : file ∈ pass.plan.files) : file.path ∈ pass.paths :=
  List.mem_append_left _ (List.mem_append_left _ (List.mem_map_of_mem hfile))

omit [DecidableEq β] in
theorem Pass.image_mem {image : PlannedImage} (himage : image ∈ pass.plan.images) : image.path ∈ pass.paths :=
  List.mem_append_left _ (List.mem_append_right _ (List.mem_map_of_mem himage))

omit [DecidableEq β] in
theorem Pass.row_mem {row : Uuid × Name} (hrow : row ∈ pass.previouslyWritten.rows) : row.2 ∈ pass.paths :=
  List.mem_append_right _ (List.mem_map_of_mem hrow)

variable {tree : Tree Name β} {progress : Progress β}

omit [DecidableEq β] in
theorem holds_iff (hclear : Clear (pass.targets subtree) tree) {path : Name} (hpath : path ∈ pass.paths) :
    tree.holds (join subtree path) = true ↔ fileAt subtree tree path ≠ none :=
  hclear.holds_iff ⟨path, hpath, rfl⟩

omit [DecidableEq β] in
/-- Moving a file leaves nothing where it was, and what is at other paths. -/
theorem moveFile_fileAt (hlaid : pass.Laid subtree) (hclear : Clear (pass.targets subtree) progress.tree)
    {file : PlannedFile β} (hfile : file ∈ pass.plan.files) :
    Clear (pass.targets subtree) (moveFile subtree pass progress file).tree ∧
      ∀ path ∈ pass.paths, path ≠ file.path → fileAt subtree (moveFile subtree pass progress file).tree path =
        if pass.previouslyWritten.get file.entryId = some path then none else fileAt subtree progress.tree path := by
  have htarget : join subtree file.path ∈ pass.targets subtree := ⟨_, Pass.file_mem hfile, rfl⟩
  unfold moveFile
  cases hget : pass.previouslyWritten.get file.entryId with
  | none => exact ⟨hclear, fun path _ _ => by simp⟩
  | some oldPath =>
      have hold : oldPath ∈ pass.paths := Pass.row_mem (Records.mem_of_get hget)
      dsimp only
      split_ifs with hmoves
      · obtain ⟨hne, hholds⟩ := hmoves
        obtain ⟨contents, hcontents⟩ := Option.ne_none_iff_exists'.mp ((holds_iff hclear hold).mp hholds)
        obtain ⟨hcreated, hparent, hread⟩ := hclear.createDirAll hlaid.apart htarget
        have hplaces : join subtree oldPath ≠ join subtree file.path := fun heq =>
          hne (hlaid.distinct _ hold _ (Pass.file_mem hfile) heq)
        obtain ⟨moved, hrename, hclear', hread'⟩ := hcreated.rename hlaid.apart ⟨oldPath, hold, rfl⟩ htarget hplaces
          hparent ((hread _).trans hcontents)
        rw [hrename]
        refine ⟨hclear', fun path hpath hother => ?_⟩
        have hother' : join subtree path ≠ join subtree file.path := fun heq =>
          hother (hlaid.distinct _ hpath _ (Pass.file_mem hfile) heq)
        show moved.read (join subtree path) = _
        rw [hread', Function.update_of_ne hother']
        by_cases heq : oldPath = path
        · rw [heq, Function.update_self, if_pos rfl]
        · have hplace : join subtree path ≠ join subtree oldPath := fun h =>
            heq (hlaid.distinct _ hold _ hpath h.symm)
          rw [Function.update_of_ne hplace, hread, if_neg fun h => heq (Option.some.inj h)]
          rfl
      · refine ⟨hclear, fun path hpath hother => ?_⟩
        split_ifs with heq
        · obtain rfl := Option.some.inj heq
          by_contra hheld
          exact hmoves ⟨hother, (holds_iff hclear hold).mpr hheld⟩
        · rfl

theorem writeFile_fileAt (hlaid : pass.Laid subtree) (hclear : Clear (pass.targets subtree) progress.tree)
    {file : PlannedFile β} (hfile : file ∈ pass.plan.files) :
    Clear (pass.targets subtree) (writeFile subtree progress file).tree ∧
      ∀ path ∈ pass.paths, fileAt subtree (writeFile subtree progress file).tree path =
        if path = file.path then some file.contents else fileAt subtree progress.tree path := by
  have htarget : join subtree file.path ∈ pass.targets subtree := ⟨_, Pass.file_mem hfile, rfl⟩
  obtain ⟨hcreated, hparent, hread⟩ := hclear.createDirAll hlaid.apart htarget
  unfold writeFile
  dsimp only
  split_ifs with hsame
  · refine ⟨hcreated, fun path _ => ?_⟩
    show Tree.read _ _ = _
    split_ifs with heq
    · rw [heq, hsame]
    · exact hread _
  · obtain ⟨written, hwrite, hclear', hread'⟩ := hcreated.write hlaid.apart htarget hparent file.contents
    rw [hwrite]
    refine ⟨hclear', fun path hpath => ?_⟩
    show written.read (join subtree path) = _
    rw [hread']
    split_ifs with heq
    · rw [heq, Function.update_self]
    · rw [Function.update_of_ne fun h => heq (hlaid.distinct _ hpath _ (Pass.file_mem hfile) h), hread]
      rfl

/-- One planned file: it is there, and no longer where it was. -/
theorem step_fileAt (hlaid : pass.Laid subtree) (hclear : Clear (pass.targets subtree) progress.tree)
    {file : PlannedFile β} (hfile : file ∈ pass.plan.files) :
    Clear (pass.targets subtree) (writeFile subtree (moveFile subtree pass progress file) file).tree ∧
      ∀ path ∈ pass.paths, fileAt subtree (writeFile subtree (moveFile subtree pass progress file) file).tree path =
        if path = file.path then some file.contents
        else if pass.previouslyWritten.get file.entryId = some path then none
        else fileAt subtree progress.tree path := by
  obtain ⟨hmoved, hmove⟩ := moveFile_fileAt hlaid hclear hfile
  obtain ⟨hwritten, hwrite⟩ := writeFile_fileAt hlaid hmoved hfile
  refine ⟨hwritten, fun path hpath => ?_⟩
  rw [hwrite path hpath]
  split_ifs with heq hget
  · rfl
  · rw [hmove path hpath heq, if_pos hget]
  · rw [hmove path hpath heq, if_neg hget]

omit [DecidableEq β] in
/-- A file collides with what is there unless its path is on record. -/
theorem collides_iff (hclear : Clear (pass.targets subtree) tree) {file : PlannedFile β}
    (hfile : file ∈ pass.plan.files) : collides subtree pass tree file = true ↔
      fileAt subtree tree file.path ≠ none ∧ ¬pass.previouslyWritten.wrote file.path = true := by
  have hown : pass.previouslyWritten.get file.entryId = some file.path →
      pass.previouslyWritten.wrote file.path = true := fun hget =>
    Records.wrote_iff.mpr ⟨_, Records.mem_of_get hget, rfl⟩
  rw [← holds_iff hclear (Pass.file_mem hfile)]
  unfold collides
  rw [decide_eq_true_eq]
  exact ⟨fun h => h.2, fun h => ⟨fun hget => h.2 (hown hget), h⟩⟩

/-- The planned files that are done leave at any other path what was there, unless one of them was moved from it. -/
theorem applyFiles_fileAt (hlaid : pass.Laid subtree) {files : List (PlannedFile β)} {ended : Progress β}
    (hfiles : ∀ file ∈ files, file ∈ pass.plan.files) (hclear : Clear (pass.targets subtree) progress.tree)
    (hended : applyFiles subtree pass files progress = .ok ended) :
    Clear (pass.targets subtree) ended.tree ∧
      ∀ path ∈ pass.paths, path ∉ files.map PlannedFile.path → fileAt subtree ended.tree path =
        if ∃ file ∈ files, pass.previouslyWritten.get file.entryId = some path then none
        else fileAt subtree progress.tree path := by
  induction files generalizing progress with
  | nil =>
      obtain rfl := Except.ok.inj hended
      exact ⟨hclear, fun path _ _ => by simp⟩
  | cons file files ih =>
      obtain ⟨hfile, hrest⟩ := List.forall_mem_cons.mp hfiles
      unfold applyFiles at hended
      split_ifs at hended
      obtain ⟨hclear', hstep⟩ := step_fileAt hlaid hclear hfile
      obtain ⟨hclear'', hleft⟩ := ih hrest hclear' hended
      refine ⟨hclear'', fun path hpath hother => ?_⟩
      obtain ⟨hne, hother⟩ := not_or.mp (List.mem_cons.not.mp hother)
      have hcons := List.exists_mem_cons_iff (p := fun moved : PlannedFile β =>
        pass.previouslyWritten.get moved.entryId = some path) (a := file) (l := files)
      rw [hleft path hpath hother, hstep path hpath, if_neg hne]
      by_cases hlater : ∃ later ∈ files, pass.previouslyWritten.get later.entryId = some path
      · rw [if_pos hlater, if_pos (hcons.mpr (Or.inr hlater))]
      · by_cases hhere : pass.previouslyWritten.get file.entryId = some path
        · rw [if_neg hlater, if_pos hhere, if_pos (hcons.mpr (Or.inl hhere))]
        · rw [if_neg hlater, if_neg hhere, if_neg fun h => (hcons.mp h).elim hhere hlater]

/-- All planned files are done unless one goes where something is that is not on record. -/
theorem applyFiles_ok_iff (hlaid : pass.Laid subtree) {files : List (PlannedFile β)}
    (hfiles : ∀ file ∈ files, file ∈ pass.plan.files) (hnodup : (files.map PlannedFile.path).Nodup)
    (hclear : Clear (pass.targets subtree) progress.tree) :
    (∃ ended, applyFiles subtree pass files progress = .ok ended) ↔
      ∀ file ∈ files, fileAt subtree progress.tree file.path ≠ none →
        pass.previouslyWritten.wrote file.path = true := by
  induction files generalizing progress with
  | nil => exact iff_of_true ⟨_, rfl⟩ (by rintro file ⟨⟩)
  | cons file files ih =>
      obtain ⟨hfile, hrest⟩ := List.forall_mem_cons.mp hfiles
      obtain ⟨hother, hnodup⟩ := List.nodup_cons.mp hnodup
      obtain ⟨hclear', hstep⟩ := step_fileAt hlaid hclear hfile
      have hlater : ∀ later ∈ files,
          (fileAt subtree (writeFile subtree (moveFile subtree pass progress file) file).tree later.path ≠ none →
            pass.previouslyWritten.wrote later.path = true) ↔
          (fileAt subtree progress.tree later.path ≠ none → pass.previouslyWritten.wrote later.path = true) := by
        intro later hlater
        have hne : later.path ≠ file.path := fun heq => hother (heq ▸ List.mem_map_of_mem hlater)
        rw [hstep _ (Pass.file_mem (hrest later hlater)), if_neg hne]
        split_ifs with hget
        · have hwrote : pass.previouslyWritten.wrote later.path = true :=
            Records.wrote_iff.mpr ⟨_, Records.mem_of_get hget, rfl⟩
          simp [hwrote]
        · rfl
      rw [List.forall_mem_cons]
      unfold applyFiles
      split_ifs with hcollides
      · obtain ⟨hheld, hwrote⟩ := (collides_iff hclear hfile).mp hcollides
        refine iff_of_false ?_ fun h => hwrote (h.1 hheld)
        rintro ⟨ended, ⟨⟩⟩
      · rw [collides_iff hclear hfile, not_and_not_right] at hcollides
        rw [ih hrest hnodup hclear']
        constructor
        · intro h
          exact ⟨hcollides, fun later hmem => (hlater later hmem).mp (h later hmem)⟩
        · intro h later hmem
          exact (hlater later hmem).mpr (h.2 later hmem)

omit [DecidableEq β] in
theorem writeImage_fileAt (hlaid : pass.Laid subtree) (hclear : Clear (pass.targets subtree) progress.tree)
    {image : PlannedImage} (himage : image ∈ pass.plan.images) :
    Clear (pass.targets subtree) (writeImage subtree pass progress image).tree ∧
      ∀ path ∈ pass.paths, fileAt subtree (writeImage subtree pass progress image).tree path =
        if path = image.path then (fileAt subtree progress.tree path).or (pass.readImage image.objectKey)
        else fileAt subtree progress.tree path := by
  have htarget : join subtree image.path ∈ pass.targets subtree := ⟨_, Pass.image_mem himage, rfl⟩
  unfold writeImage
  dsimp only
  split_ifs with hholds
  · refine ⟨hclear, fun path hpath => ?_⟩
    split_ifs with heq
    · obtain ⟨contents, hcontents⟩ :=
        Option.ne_none_iff_exists'.mp ((holds_iff hclear (Pass.image_mem himage)).mp hholds)
      rw [heq, hcontents, Option.some_or]
    · rfl
  · have hnothing : fileAt subtree progress.tree image.path = none := by
      by_contra hheld
      exact hholds ((holds_iff hclear (Pass.image_mem himage)).mpr hheld)
    cases hbytes : pass.readImage image.objectKey with
    | none =>
        refine ⟨hclear, fun path hpath => ?_⟩
        split_ifs
        · rw [Option.or_none]
        · rfl
    | some bytes =>
        obtain ⟨hcreated, hparent, hread⟩ := hclear.createDirAll hlaid.apart htarget
        obtain ⟨written, hwrite, hclear', hread'⟩ := hcreated.write hlaid.apart htarget hparent bytes
        dsimp only
        rw [hwrite]
        refine ⟨hclear', fun path hpath => ?_⟩
        show written.read (join subtree path) = _
        rw [hread']
        split_ifs with heq
        · rw [heq, Function.update_self, hnothing, Option.none_or]
        · rw [Function.update_of_ne fun h => heq (hlaid.distinct _ hpath _ (Pass.image_mem himage) h), hread]
          rfl

omit [DecidableEq β] in
theorem removeFile_fileAt (hlaid : pass.Laid subtree) (hclear : Clear (pass.targets subtree) progress.tree)
    {row : Uuid × Name} (hrow : row ∈ pass.previouslyWritten.rows) :
    Clear (pass.targets subtree) (removeFile subtree pass progress row).tree ∧
      ∀ path ∈ pass.paths, fileAt subtree (removeFile subtree pass progress row).tree path =
        if row.1 ∉ pass.plan.files.map PlannedFile.entryId ∧ row.2 = path then none
        else fileAt subtree progress.tree path := by
  unfold removeFile
  split_ifs with hplanned
  · exact ⟨hclear, fun path _ => (if_neg fun h => h.1 hplanned).symm⟩
  · have htarget : join subtree row.2 ∈ pass.targets subtree := ⟨_, Pass.row_mem hrow, rfl⟩
    by_cases hheld : progress.tree.read (join subtree row.2) = none
    · have hnothing : progress.tree.removeFile (join subtree row.2) = none := by
        cases hremove : progress.tree.removeFile (join subtree row.2) with
        | none => rfl
        | some removed =>
            unfold Tree.removeFile at hremove
            split_ifs at hremove with hfile
            exact absurd hheld (Tree.read_ne_none_of_isFile hfile)
      rw [hnothing]
      refine ⟨hclear, fun path _ => ?_⟩
      split_ifs with heq
      · rw [← heq.2]
        exact hheld
      · rfl
    · obtain ⟨removed, hremove, hclear', hread⟩ := hclear.removeFile hlaid.apart htarget hheld
      rw [hremove]
      refine ⟨hclear', fun path hpath => ?_⟩
      show removed.read (join subtree path) = _
      rw [hread]
      split_ifs with heq
      · rw [← heq.2, Function.update_self]
      · have hne : join subtree path ≠ join subtree row.2 := fun h =>
          heq ⟨hplanned, (hlaid.distinct _ hpath _ (Pass.row_mem hrow) h).symm⟩
        rw [Function.update_of_ne hne]
        rfl

omit [DecidableEq β] in
theorem images_fileAt (hlaid : pass.Laid subtree) (hclear : Clear (pass.targets subtree) progress.tree) :
    Clear (pass.targets subtree) (Run.run (writeImage subtree pass) progress pass.plan.images).tree ∧
      ∀ path ∈ pass.paths, path ∉ pass.plan.images.map PlannedImage.path →
        fileAt subtree (Run.run (writeImage subtree pass) progress pass.plan.images).tree path =
          fileAt subtree progress.tree path := by
  have hstep : ∀ (written : Progress β) (image : PlannedImage),
      (Clear (pass.targets subtree) written.tree ∧ ∀ path ∈ pass.paths,
        path ∉ pass.plan.images.map PlannedImage.path →
          fileAt subtree written.tree path = fileAt subtree progress.tree path) → image ∈ pass.plan.images →
      Clear (pass.targets subtree) (writeImage subtree pass written image).tree ∧ ∀ path ∈ pass.paths,
        path ∉ pass.plan.images.map PlannedImage.path →
          fileAt subtree (writeImage subtree pass written image).tree path = fileAt subtree progress.tree path := by
    intro written image h himage
    obtain ⟨hclear', hwrite⟩ := writeImage_fileAt hlaid h.1 himage
    refine ⟨hclear', fun path hpath hother => ?_⟩
    have hne : path ≠ image.path := fun heq => hother (heq ▸ List.mem_map_of_mem himage)
    rw [hwrite path hpath, if_neg hne, h.2 path hpath hother]
  exact Run.invariant_of_mem hstep ⟨hclear, fun _ _ _ => rfl⟩ fun _ h => h

omit [DecidableEq β] in
theorem rows_fileAt (hlaid : pass.Laid subtree) {rows : List (Uuid × Name)}
    (hrows : ∀ row ∈ rows, row ∈ pass.previouslyWritten.rows)
    (hclear : Clear (pass.targets subtree) progress.tree) {path : Name} (hpath : path ∈ pass.paths) :
    fileAt subtree (Run.run (removeFile subtree pass) progress rows).tree path =
      if ∃ row ∈ rows, row.1 ∉ pass.plan.files.map PlannedFile.entryId ∧ row.2 = path then none
      else fileAt subtree progress.tree path := by
  induction rows generalizing progress with
  | nil => simp
  | cons row rows ih =>
      obtain ⟨hrow, hrest⟩ := List.forall_mem_cons.mp hrows
      obtain ⟨hclear', hstep⟩ := removeFile_fileAt hlaid hclear hrow
      have hcons := List.exists_mem_cons_iff (p := fun row : Uuid × Name =>
        row.1 ∉ pass.plan.files.map PlannedFile.entryId ∧ row.2 = path) (a := row) (l := rows)
      rw [Run.run_cons, ih hrest hclear', hstep path hpath]
      by_cases hlater : ∃ row ∈ rows, row.1 ∉ pass.plan.files.map PlannedFile.entryId ∧ row.2 = path
      · rw [if_pos hlater, if_pos (hcons.mpr (Or.inr hlater))]
      · by_cases hhere : row.1 ∉ pass.plan.files.map PlannedFile.entryId ∧ row.2 = path
        · rw [if_neg hlater, if_pos hhere, if_pos (hcons.mpr (Or.inl hhere))]
        · rw [if_neg hlater, if_neg hhere, if_neg fun h => (hcons.mp h).elim hhere hlater]

omit [DecidableEq β] in
theorem rows_clear (hlaid : pass.Laid subtree) {rows : List (Uuid × Name)}
    (hrows : ∀ row ∈ rows, row ∈ pass.previouslyWritten.rows) (hclear : Clear (pass.targets subtree) progress.tree) :
    Clear (pass.targets subtree) (Run.run (removeFile subtree pass) progress rows).tree :=
  Run.invariant_of_mem (I := fun reached : Progress β => Clear (pass.targets subtree) reached.tree)
    (fun _ _ h hrow => (removeFile_fileAt hlaid h hrow).1) hclear hrows

theorem apply_clear (hlaid : pass.Laid subtree) (hclear : Clear (pass.targets subtree) tree) {ended : Progress β}
    (hended : apply subtree pass tree = .ok ended) : Clear (pass.targets subtree) ended.tree := by
  obtain ⟨progress, happlied, rfl⟩ := apply_eq_ok.mp hended
  obtain ⟨hprogress, -⟩ := applyFiles_fileAt hlaid (fun _ h => h) hclear happlied
  exact rows_clear hlaid (fun _ h => h) (images_fileAt hlaid hprogress).1

theorem applyFiles_append (left right : List (PlannedFile β)) :
    applyFiles subtree pass (left ++ right) progress =
      applyFiles subtree pass left progress >>= applyFiles subtree pass right := by
  induction left generalizing progress with
  | nil => rfl
  | cons file left ih =>
      rw [List.cons_append, applyFiles, applyFiles]
      split_ifs
      · rfl
      · exact ih

/-- What is at the path of a planned file when the pass ends. -/
theorem apply_fileAt (hlaid : pass.Laid subtree) (hclear : Clear (pass.targets subtree) tree) {ended : Progress β}
    (hended : apply subtree pass tree = .ok ended) {before after : List (PlannedFile β)} {file : PlannedFile β}
    (hfiles : pass.plan.files = before ++ file :: after) :
    fileAt subtree ended.tree file.path =
      if (∃ later ∈ after, pass.previouslyWritten.get later.entryId = some file.path) ∨
        ∃ row ∈ pass.previouslyWritten.rows, row.1 ∉ pass.plan.files.map PlannedFile.entryId ∧ row.2 = file.path
      then none else some file.contents := by
  obtain ⟨progress, happlied, rfl⟩ := apply_eq_ok.mp hended
  have hmem : file ∈ pass.plan.files := hfiles ▸ List.mem_append_right _ List.mem_cons_self
  have hbefore : ∀ other ∈ before, other ∈ pass.plan.files := fun other h => hfiles ▸ List.mem_append_left _ h
  have hafter : ∀ other ∈ after, other ∈ pass.plan.files := fun other h =>
    hfiles ▸ List.mem_append_right _ (List.mem_cons_of_mem _ h)
  have hother : file.path ∉ after.map PlannedFile.path := by
    have hnodup := hlaid.files
    rw [hfiles, List.map_append, List.map_cons] at hnodup
    exact (List.nodup_cons.mp (List.nodup_append.mp hnodup).2.1).1
  have himage : file.path ∉ pass.plan.images.map PlannedImage.path := by
    intro h
    obtain ⟨image, himage, heq⟩ := List.mem_map.mp h
    exact (hlaid.images image himage).1 (heq ▸ List.mem_map_of_mem hmem)
  have hall : ∀ other ∈ pass.plan.files, other ∈ pass.plan.files := fun _ h => h
  obtain ⟨hprogress, -⟩ := applyFiles_fileAt hlaid hall hclear happlied
  rw [hfiles, applyFiles_append, except_bind_eq_ok] at happlied
  obtain ⟨reached, hreached, hrest⟩ := happlied
  have hbegun : Clear (pass.targets subtree) ({ tree, changes := .none } : Progress β).tree := hclear
  obtain ⟨hclear₁, -⟩ := applyFiles_fileAt hlaid hbefore hbegun hreached
  unfold applyFiles at hrest
  split_ifs at hrest
  obtain ⟨hclear₂, hstep⟩ := step_fileAt hlaid hclear₁ hmem
  obtain ⟨-, hleft⟩ := applyFiles_fileAt hlaid hafter hclear₂ hrest
  obtain ⟨himages, hsame⟩ := images_fileAt hlaid hprogress
  have hpath := Pass.file_mem hmem
  rw [rows_fileAt hlaid (fun _ h => h) himages hpath, hsame _ hpath himage, hleft _ hpath hother, hstep _ hpath,
    if_pos rfl]
  by_cases hrow : ∃ row ∈ pass.previouslyWritten.rows,
    row.1 ∉ pass.plan.files.map PlannedFile.entryId ∧ row.2 = file.path
  · rw [if_pos hrow, if_pos (Or.inr hrow)]
  · by_cases hlater : ∃ later ∈ after, pass.previouslyWritten.get later.entryId = some file.path
    · rw [if_neg hrow, if_pos hlater, if_pos (Or.inl hlater)]
    · rw [if_neg hrow, if_neg hlater, if_neg fun h => h.elim hlater hrow]

/-- Two entries that take each other's name. -/
def swapped : Pass Nat where
  plan := { files := [⟨2, "a.md".toList, 2⟩, ⟨1, "b.md".toList, 1⟩], images := [] }
  previouslyWritten := ⟨[(1, "a.md".toList), (2, "b.md".toList)], by decide⟩
  readImage _ := none

theorem laid_swapped : swapped.Laid [] where
  entries := by decide
  files := by decide
  images := by decide
  distinct := by decide
  apart := by
    have hbelow : ∀ path ∈ swapped.paths, ∀ other ∈ swapped.paths, join [] path <+: join [] other →
        join [] path = join [] other := by decide
    refine ⟨?_, ?_⟩
    · rintro ⟨path, hpath, hroot⟩
      exact absurd hroot ((by decide : ∀ path ∈ swapped.paths, join [] path ≠ []) path hpath)
    · rintro _ ⟨path, hpath, rfl⟩ _ ⟨other, hother, rfl⟩
      exact hbelow path hpath other hother

omit [DecidableEq β] in
theorem clear_empty (places : Set (List Name)) : Clear places (Tree.empty : Tree Name β) :=
  ⟨fun _ _ h => Option.some_ne_none _ h.symm, fun _ _ _ _ _ => rfl⟩

/-- All is on record where it is planned, and nothing else. -/
structure Pass.Settled (pass : Pass β) : Prop where
  planned : ∀ file ∈ pass.plan.files, pass.previouslyWritten.get file.entryId = some file.path
  only : ∀ row ∈ pass.previouslyWritten.rows, row.1 ∈ pass.plan.files.map PlannedFile.entryId

omit [DecidableEq β] in
theorem Pass.Settled.row_path (h : pass.Settled) {row : Uuid × Name} (hrow : row ∈ pass.previouslyWritten.rows) :
    ∃ file ∈ pass.plan.files, file.path = row.2 := by
  obtain ⟨file, hfile, hid⟩ := List.mem_map.mp (h.only row hrow)
  refine ⟨file, hfile, ?_⟩
  have hget := h.planned file hfile
  rw [hid] at hget
  exact Option.some.inj (hget.symm.trans (Records.get_of_mem hrow))

omit [DecidableEq β] in
/-- The next pass over the same plan is about no other paths. -/
theorem Pass.Settled.paths_subset {next : Pass β} (h : next.Settled) (hplan : next.plan = pass.plan) {path : Name}
    (hpath : path ∈ next.paths) : path ∈ pass.paths := by
  rcases List.mem_append.mp hpath with hpath | hpath
  · rw [hplan] at hpath
    exact List.mem_append_left _ hpath
  · obtain ⟨row, hrow, rfl⟩ := List.mem_map.mp hpath
    obtain ⟨file, hfile, hpath⟩ := h.row_path hrow
    rw [← hpath]
    exact Pass.file_mem (hplan ▸ hfile)

omit [DecidableEq β] in
theorem Pass.Settled.targets_subset {next : Pass β} (h : next.Settled) (hplan : next.plan = pass.plan) :
    next.targets subtree ⊆ pass.targets subtree := by
  rintro place ⟨path, hpath, rfl⟩
  exact ⟨path, h.paths_subset hplan hpath, rfl⟩

omit [DecidableEq β] in
theorem Pass.Settled.laid {next : Pass β} (h : next.Settled) (hplan : next.plan = pass.plan)
    (hlaid : pass.Laid subtree) : next.Laid subtree where
  entries := hplan ▸ hlaid.entries
  files := hplan ▸ hlaid.files
  images image himage := by
    have hother := (hlaid.images image (hplan ▸ himage)).1
    rw [hplan]
    refine ⟨hother, fun hmem => ?_⟩
    obtain ⟨row, hrow, hpath⟩ := List.mem_map.mp hmem
    obtain ⟨file, hfile, hpath'⟩ := h.row_path hrow
    exact hother (List.mem_map.mpr ⟨file, hplan ▸ hfile, hpath'.trans hpath⟩)
  distinct path hpath other hother :=
    hlaid.distinct path (h.paths_subset hplan hpath) other (h.paths_subset hplan hother)
  apart := hlaid.apart.mono (h.targets_subset hplan)

section Settled

variable (hsettled : pass.Settled)
include hsettled

omit [DecidableEq β] in
theorem moveFile_of_settled {file : PlannedFile β} (hfile : file ∈ pass.plan.files) :
    moveFile subtree pass progress file = progress := by
  unfold moveFile
  rw [hsettled.planned file hfile]
  exact if_neg fun h => h.1 rfl

/-- Nothing is in the way of a settled pass, which only writes. -/
theorem applyFiles_of_settled {files : List (PlannedFile β)} (hfiles : ∀ file ∈ files, file ∈ pass.plan.files) :
    applyFiles subtree pass files progress = .ok (Run.run (writeFile subtree) progress files) := by
  induction files generalizing progress with
  | nil => rfl
  | cons file files ih =>
      obtain ⟨hfile, hrest⟩ := List.forall_mem_cons.mp hfiles
      have hfree : ¬collides subtree pass progress.tree file = true := by
        unfold collides
        rw [decide_eq_true_eq]
        exact fun h => h.1 (hsettled.planned file hfile)
      unfold applyFiles
      rw [if_neg hfree, moveFile_of_settled hsettled hfile, ih hrest, Run.run_cons]

omit [DecidableEq β] in
theorem rows_of_settled {rows : List (Uuid × Name)} (hrows : ∀ row ∈ rows, row ∈ pass.previouslyWritten.rows) :
    Run.run (removeFile subtree pass) progress rows = progress :=
  Run.invariant_of_mem (I := fun reached : Progress β => reached = progress)
    (fun reached row h hrow => by rw [removeFile, if_pos (hsettled.only row hrow), h]) rfl hrows

theorem apply_of_settled : apply subtree pass tree =
    .ok (Run.run (writeImage subtree pass)
      (Run.run (writeFile subtree) { tree, changes := .none } pass.plan.files) pass.plan.images) := by
  refine apply_eq_ok.mpr ⟨_, applyFiles_of_settled hsettled fun _ h => h, ?_⟩
  exact rows_of_settled hsettled fun _ h => h

end Settled

theorem writeFile_moved (file : PlannedFile β) :
    (writeFile subtree progress file).changes.moved = progress.changes.moved ∧
      (writeFile subtree progress file).changes.removed = progress.changes.removed := by
  unfold writeFile
  dsimp only
  split_ifs
  · exact ⟨rfl, rfl⟩
  · split <;> exact ⟨rfl, rfl⟩

omit [DecidableEq β] in
theorem writeImage_moved (image : PlannedImage) :
    (writeImage subtree pass progress image).changes.moved = progress.changes.moved ∧
      (writeImage subtree pass progress image).changes.removed = progress.changes.removed := by
  unfold writeImage
  dsimp only
  split_ifs
  · exact ⟨rfl, rfl⟩
  · split
    · exact ⟨rfl, rfl⟩
    · split <;> exact ⟨rfl, rfl⟩

/-- A settled pass moves and removes nothing. -/
theorem moved_of_settled (hsettled : pass.Settled) {ended : Progress β} (hended : apply subtree pass tree = .ok ended) :
    ended.changes.moved = [] ∧ ended.changes.removed = [] := by
  rw [apply_of_settled hsettled] at hended
  obtain rfl := Except.ok.inj hended
  have hwrite : ∀ (reached : Progress β) (file : PlannedFile β),
      reached.changes.moved = [] ∧ reached.changes.removed = [] →
        (writeFile subtree reached file).changes.moved = [] ∧ (writeFile subtree reached file).changes.removed = [] :=
    fun reached file h => ⟨(writeFile_moved file).1.trans h.1, (writeFile_moved file).2.trans h.2⟩
  have himage : ∀ (reached : Progress β) (image : PlannedImage),
      reached.changes.moved = [] ∧ reached.changes.removed = [] →
        (writeImage subtree pass reached image).changes.moved = [] ∧
          (writeImage subtree pass reached image).changes.removed = [] :=
    fun reached image h => ⟨(writeImage_moved image).1.trans h.1, (writeImage_moved image).2.trans h.2⟩
  exact Run.invariant himage (Run.invariant hwrite ⟨rfl, rfl⟩ _) _

omit [DecidableEq β] in
/-- Every image that can be read is there when the images are done. -/
theorem images_written (hlaid : pass.Laid subtree) (hclear : Clear (pass.targets subtree) progress.tree)
    {image : PlannedImage} (himage : image ∈ pass.plan.images) :
    fileAt subtree (Run.run (writeImage subtree pass) progress pass.plan.images).tree image.path ≠ none ∨
      pass.readImage image.objectKey = none := by
  by_cases hbytes : pass.readImage image.objectKey = none
  · exact Or.inr hbytes
  · obtain ⟨before, after, himages⟩ := List.append_of_mem himage
    have hkept : ∀ (reached : Progress β) (other : PlannedImage),
        Clear (pass.targets subtree) reached.tree ∧ fileAt subtree reached.tree image.path ≠ none →
          other ∈ pass.plan.images → Clear (pass.targets subtree) (writeImage subtree pass reached other).tree ∧
            fileAt subtree (writeImage subtree pass reached other).tree image.path ≠ none := by
      intro reached other h hother
      obtain ⟨hclear', hwrite⟩ := writeImage_fileAt hlaid h.1 hother
      refine ⟨hclear', ?_⟩
      rw [hwrite _ (Pass.image_mem himage)]
      split_ifs
      · obtain ⟨contents, hcontents⟩ := Option.ne_none_iff_exists'.mp h.2
        rw [hcontents, Option.some_or]
        exact Option.some_ne_none _
      · exact h.2
    have hbefore : Clear (pass.targets subtree) (Run.run (writeImage subtree pass) progress before).tree :=
      Run.invariant_of_mem (I := fun reached : Progress β => Clear (pass.targets subtree) reached.tree)
        (fun _ _ h hother => (writeImage_fileAt hlaid h hother).1) hclear
        fun other hother => himages ▸ List.mem_append_left _ hother
    obtain ⟨hclear', hwrite⟩ := writeImage_fileAt hlaid hbefore himage
    rw [himages, Run.run_append, Run.run_cons]
    refine Or.inl (Run.invariant_of_mem hkept ⟨hclear', ?_⟩ fun other hother => ?_).2
    · rw [hwrite _ (Pass.image_mem himage), if_pos rfl, Ne, Option.or_eq_none_iff]
      exact fun h => hbytes h.2
    · exact himages ▸ List.mem_append_right _ (List.mem_cons_of_mem _ hother)

/-- What is in place already is not written again. -/
theorem writeFile_of_inPlace (hlaid : pass.Laid subtree) (hclear : Clear (pass.targets subtree) progress.tree)
    {file : PlannedFile β} (hfile : file ∈ pass.plan.files)
    (hplace : fileAt subtree progress.tree file.path = some file.contents) :
    (writeFile subtree progress file).changes = progress.changes := by
  obtain ⟨-, -, hread⟩ := hclear.createDirAll hlaid.apart ⟨_, Pass.file_mem hfile, rfl⟩
  unfold writeFile
  dsimp only
  rw [if_pos ((hread _).trans hplace)]

omit [DecidableEq β] in
theorem writeImage_of_written (hclear : Clear (pass.targets subtree) progress.tree) {image : PlannedImage}
    (himage : image ∈ pass.plan.images)
    (hwritten : fileAt subtree progress.tree image.path ≠ none ∨ pass.readImage image.objectKey = none) :
    writeImage subtree pass progress image = progress := by
  unfold writeImage
  dsimp only
  split_ifs with hholds
  · rfl
  · rcases hwritten with hwritten | hbytes
    · exact absurd ((holds_iff hclear (Pass.image_mem himage)).mpr hwritten) hholds
    · rw [hbytes]

/-- A settled pass changes nothing where all is in place. -/
theorem unchanged_of_settled (hlaid : pass.Laid subtree) (hsettled : pass.Settled)
    (hclear : Clear (pass.targets subtree) tree)
    (hfiles : ∀ file ∈ pass.plan.files, fileAt subtree tree file.path = some file.contents)
    (himages : ∀ image ∈ pass.plan.images,
      fileAt subtree tree image.path ≠ none ∨ pass.readImage image.objectKey = none) :
    ∃ ended, apply subtree pass tree = .ok ended ∧ ended.changes = .none := by
  have hwrite : ∀ (reached : Progress β) (file : PlannedFile β),
      (Clear (pass.targets subtree) reached.tree ∧ reached.changes = .none ∧
        ∀ path ∈ pass.paths, fileAt subtree reached.tree path = fileAt subtree tree path) → file ∈ pass.plan.files →
      Clear (pass.targets subtree) (writeFile subtree reached file).tree ∧
        (writeFile subtree reached file).changes = .none ∧
        ∀ path ∈ pass.paths, fileAt subtree (writeFile subtree reached file).tree path = fileAt subtree tree path := by
    rintro reached file ⟨hreached, hchanges, hsame⟩ hfile
    have hplace := (hsame _ (Pass.file_mem hfile)).trans (hfiles file hfile)
    obtain ⟨hclear', hwritten⟩ := writeFile_fileAt hlaid hreached hfile
    refine ⟨hclear', (writeFile_of_inPlace hlaid hreached hfile hplace).trans hchanges, fun path hpath => ?_⟩
    rw [hwritten path hpath]
    split_ifs with heq
    · rw [heq, hfiles file hfile]
    · exact hsame path hpath
  have hreached := Run.invariant_of_mem hwrite (s := { tree, changes := .none }) ⟨hclear, rfl, fun _ _ => rfl⟩
    fun _ h => h
  have hquiet := Run.invariant_of_mem (I := fun reached : Progress β => reached =
      Run.run (writeFile subtree) { tree, changes := .none } pass.plan.files)
    (fun reached image h himage => by
      rw [h]
      refine writeImage_of_written hreached.1 himage ?_
      rw [hreached.2.2 _ (Pass.image_mem himage)]
      exact himages image himage) rfl fun _ h => h
  exact ⟨_, apply_of_settled hsettled, (congrArg Progress.changes hquiet).trans hreached.2.1⟩

/-- The next pass over them. -/
def swappedNext : Pass Nat where
  plan := swapped.plan
  previouslyWritten := ⟨[(2, "a.md".toList), (1, "b.md".toList)], by decide⟩
  readImage _ := none

end

end ThunderForge.Mirror
