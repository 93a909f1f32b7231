import ThunderForge.Mirror.InlineLinks
import ThunderForge.Mirror.Shape

/-! What paths and the links between them are written with: no character of theirs has a meaning in markdown. -/

namespace ThunderForge.Mirror

/-- The characters of paths and links. -/
def PathText (text : Name) : Prop := ∀ c ∈ text, c.isAlphanum = true ∨ c ∈ ['-', '.', '/']

instance (text : Name) : Decidable (PathText text) := List.decidableBAll _ text

theorem PathText.append {left right : Name} (hleft : PathText left) (hright : PathText right) :
    PathText (left ++ right) := by
  intro c hc
  rcases List.mem_append.mp hc with hc | hc
  · exact hleft c hc
  · exact hright c hc

theorem IsSlug.pathText {text : Name} (h : IsSlug text) : PathText text := by
  intro c hc
  rcases h c hc with hlower | hdigit | rfl
  · exact .inl (by rw [Char.isAlphanum, Char.isAlpha, hlower, Bool.or_true, Bool.true_or])
  · exact .inl (by rw [Char.isAlphanum, hdigit, Bool.or_true])
  · exact .inr List.mem_cons_self

theorem PathText.allowed {text : Name} (h : PathText text) : ∀ c ∈ text, isDestination c = true ∧ c ≠ '[' := by
  intro c hc
  rcases h c hc with hc | hc
  · have hplain := (plain_char (.inl hc)).1
    unfold isDestination
    rw [hplain, decide_eq_true_iff]
    refine ⟨⟨?_, ?_, by decide⟩, ?_⟩ <;>
      · rintro rfl
        exact absurd hc (by decide)
  · simp only [List.mem_cons, List.not_mem_nil, or_false] at hc
    rcases hc with rfl | rfl | rfl <;> decide

theorem pathText_joinSegments {parts : List Name} (h : ∀ part ∈ parts, PathText part) : PathText (joinSegments parts) := by
  have hslash : PathText ['/'] := by decide
  induction parts using List.reverseRecOn with
  | nil => exact fun c hc => absurd hc List.not_mem_nil
  | append_singleton before last ih =>
      have hlast := h last (by simp)
      by_cases hbefore : before = []
      · rwa [hbefore, List.nil_append, joinSegments, List.intercalate_singleton]
      · rw [joinSegments_concat hbefore]
        exact (ih fun part hpart => h part (List.mem_append_left _ hpart)).append (hslash.append hlast)

theorem mem_of_mem_splitOn {sep c : Char} {text part : Name} (hpart : part ∈ text.splitOn sep) (hc : c ∈ part) :
    c ∈ text := by
  induction text generalizing part with
  | nil =>
      rw [List.splitOn_nil, List.mem_singleton] at hpart
      rwa [hpart] at hc
  | cons d text ih =>
      rw [List.splitOn_cons_eq_if_modifyHead] at hpart
      split_ifs at hpart
      · rcases List.mem_cons.mp hpart with rfl | hpart
        · cases hc
        · exact List.mem_cons_of_mem d (ih hpart hc)
      · obtain ⟨first, others, hsplit⟩ := List.exists_cons_of_ne_nil (List.splitOn_ne_nil sep text)
        rw [hsplit] at hpart ih
        rcases List.mem_cons.mp hpart with rfl | hpart
        · rcases List.mem_cons.mp hc with rfl | hc
          · exact List.mem_cons_self
          · exact List.mem_cons_of_mem d (ih List.mem_cons_self hc)
        · exact List.mem_cons_of_mem d (ih (List.mem_cons_of_mem first hpart) hc)

theorem PathText.splitOn {text : Name} (h : PathText text) : ∀ part ∈ text.splitOn '/', PathText part :=
  fun _ hpart c hc => h c (mem_of_mem_splitOn hpart hc)

/-! Paths. -/

section

variable {path stem : Name} {directories : List Name}

theorem Shaped.splitOn_eq (h : Shaped path directories stem) :
    path.splitOn '/' = directories ++ [stem ++ ".md".toList] := by
  have hstem : '/' ∉ stem ++ ".md".toList := by
    rw [List.mem_append, not_or]
    exact ⟨(h.parts stem (by simp)).no_slash, by decide⟩
  have hjoin : path = joinSegments (directories ++ [stem ++ ".md".toList]) := by
    rw [h.path_eq, filePath_joinSegments fun part hpart => h.parts part (List.mem_append_left _ hpart)]
    by_cases hdirectories : directories = []
    · rw [hdirectories, List.nil_append, List.nil_append, joinSegments, joinSegments, List.intercalate_singleton,
        List.intercalate_singleton]
    · rw [joinSegments_concat hdirectories, joinSegments_concat hdirectories, List.append_assoc, List.cons_append]
  rw [hjoin, joinSegments, List.splitOn_intercalate]
  · intro part hpart
    rcases List.mem_append.mp hpart with hpart | hpart
    · exact (h.parts part (List.mem_append_left _ hpart)).no_slash
    · rwa [List.mem_singleton.mp hpart]
  · simp

theorem Shaped.plainPath (h : Shaped path directories stem) : PlainPath path := by
  unfold PlainPath
  rw [h.splitOn_eq]
  intro part hpart
  rcases List.mem_append.mp hpart with hpart | hpart
  · have hcomponent := h.parts part (List.mem_append_left _ hpart)
    refine ⟨hcomponent.ne_nil, ?_, ?_⟩ <;>
      · rintro rfl
        exact hcomponent.no_dot (by decide)
  · rw [List.mem_singleton.mp hpart]
    have hlength : 3 ≤ (stem ++ ".md".toList).length := by
      rw [List.length_append]
      exact Nat.le_add_left _ _
    refine ⟨?_, ?_, ?_⟩ <;>
      · intro heq
        rw [heq] at hlength
        exact absurd hlength (by decide)

end

section

variable {slugify : String → Name} {state : Allocator}

/-- The paths given out so far are written with the characters of paths. -/
def PathTexts (state : Allocator) : Prop := ∀ id place, state.assigned id = some place → PathText place.path

theorem PathTexts.allocate (hslug : Slugs slugify) (h : WellShaped state) (htexts : PathTexts state)
    (parents : Uuid → Option Uuid) (node : EntryNode) : PathTexts (allocate slugify parents state node) := by
  obtain ⟨directories, stem, reasons, hturn, hgive⟩ := h.turn hslug parents node
  have hdirectories : ∀ part ∈ directories, PathText part := by
    rcases hturn.above with rfl | ⟨parent, place, directories', stem', -, hplace, hshaped, habove⟩
    · exact fun part hpart => absurd hpart List.not_mem_nil
    · intro part hpart c hc
      refine htexts parent place hplace c ?_
      have hsplit := splitOn_joinSegments hshaped.parts (by simp)
      rw [hshaped.path_eq, filePath_joinSegments fun part hpart => hshaped.parts part (List.mem_append_left _ hpart)]
      exact List.mem_append_left _ (mem_of_mem_splitOn (hsplit ▸ habove.subset hpart) hc)
  have hstem : PathText stem := by
    obtain ⟨k, hk, -⟩ := hturn.isFirst
    rw [← hk]
    exact (IsSlug.stemNames (hslug.text node.title) _ node.id k).pathText
  have hpath : PathText (filePath (joinSegments directories) stem) := by
    have hmd : PathText ".md".toList := by decide
    rw [hturn.shaped.path_eq, filePath_joinSegments fun part hpart =>
      hturn.shaped.parts part (List.mem_append_left _ hpart)]
    refine (pathText_joinSegments fun part hpart => ?_).append hmd
    rcases List.mem_append.mp hpart with hpart | hpart
    · exact hdirectories part hpart
    · rwa [List.mem_singleton.mp hpart]
  rw [hgive]
  intro id place hplace
  by_cases hid : id = node.id
  · rw [hid, Allocator.give_assigned_self, Option.some.injEq] at hplace
    rwa [← hplace]
  · rw [Allocator.give_assigned_of_ne _ _ _ _ hid] at hplace
    exact htexts id place hplace

/-- Every path that is given out is plain. -/
theorem mapEntryPaths_plain (hslug : Slugs slugify) {nodes : List EntryNode} {id : Uuid} {place : AssignedPath}
    (h : mapEntryPaths slugify nodes id = some place) : PathText place.path ∧ PlainPath place.path := by
  have hrun := Run.invariant (I := fun state => WellShaped state ∧ PathTexts state)
    (fun _ node h => ⟨h.1.allocate hslug (resolveParents (keepFirst nodes [])) node,
      h.2.allocate hslug h.1 (resolveParents (keepFirst nodes [])) node⟩)
    ⟨wellShaped_empty, fun _ _ h => nomatch h⟩ (ordered (keepFirst nodes []))
  obtain ⟨-, directories, stem, hshaped⟩ := hrun.1 id place h
  exact ⟨hrun.2 id place h, hshaped.plainPath⟩

end

/-! Links. -/

/-- A relative link is written with the characters of paths, and is not empty. -/
theorem relativeLink_text (from' : Name) {to' : Name} (htext : PathText to') (hplain : PlainPath to') :
    PathText (relativeLink from' to') ∧ relativeLink from' to' ≠ [] := by
  have hup : PathText "../".toList := by decide
  have hups (n : Nat) : PathText (List.replicate n "../".toList).flatten := by
    intro c hc
    obtain ⟨part, hpart, hc⟩ := List.mem_flatten.mp hc
    rw [List.eq_of_mem_replicate hpart] at hc
    exact hup c hc
  obtain ⟨before, last, hlast⟩ := (List.eq_nil_or_concat' (to'.splitOn '/')).resolve_left (List.splitOn_ne_nil _ _)
  have hmem : last ∈ to'.splitOn '/' := by
    rw [hlast]
    simp
  unfold relativeLink
  simp only
  split_ifs with hout
  · rw [hlast, List.getLast?_concat, Option.getD_some]
    exact ⟨htext.splitOn last hmem, (hplain last hmem).1⟩
  · refine ⟨(hups _).append (pathText_joinSegments fun part hpart => ?_), hout⟩
    exact htext.splitOn part (List.mem_of_mem_drop hpart)

end ThunderForge.Mirror
