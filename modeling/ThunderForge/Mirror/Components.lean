import ThunderForge.Mirror.Shape

/-! The budget of one component. The base of a name is cut to it before the suffix is added, and the name with
the suffix is cut to the budget of the whole path only. -/

namespace ThunderForge.Mirror

/-- The directories of a path and the stem of its file. -/
def components (path : Name) : List Name := (path.rdrop 3).splitOn '/'

/-- Every component of every path is within its budget. -/
def WithinComponents (assigned : Uuid → Option AssignedPath) : Prop :=
  ∀ id place, assigned id = some place → ∀ part ∈ components place.path, byteLen part ≤ maxComponentBytes

/-- Where an entry takes a suffixed name, so much of the base has been cut off for the budget of the path that
the suffix and the counter fit into a component. -/
abbrev CutsEnough (slugify : String → Name) (parents : Uuid → Option Uuid) :
    Allocator → EntryNode → Prop :=
  SuffixOk (fun _ base k => byteLen base ≤ maxComponentBytes - suffixBytes k) slugify parents

theorem Shaped.components_eq {path stem : Name} {directories : List Name} (h : Shaped path directories stem) :
    components path = directories ++ [stem] := by
  rw [h.path_eq, filePath_joinSegments fun part hpart => h.parts part (List.mem_append_left _ hpart), components,
    List.rdrop_eq_reverse_drop_reverse, List.reverse_append]
  change ((joinSegments (directories ++ [stem])).reverse.reverse).splitOn '/' = _
  rw [List.reverse_reverse, splitOn_joinSegments h.parts (by simp)]

theorem keepFirst_ids (entries : List EntryNode) (seen : List Uuid) :
    ((keepFirst entries seen).map EntryNode.id).Nodup ∧ ∀ entry ∈ keepFirst entries seen, entry.id ∉ seen := by
  induction entries generalizing seen with
  | nil => exact ⟨List.nodup_nil, fun _ h => nomatch h⟩
  | cons entry entries ih =>
      unfold keepFirst
      split_ifs with hseen
      · exact ih seen
      · obtain ⟨hnodup, hnew⟩ := ih (entry.id :: seen)
        rw [List.map_cons, List.nodup_cons]
        refine ⟨⟨fun hmem => ?_, hnodup⟩, fun other hother => ?_⟩
        · obtain ⟨other, hother, hid⟩ := List.mem_map.mp hmem
          exact hnew other hother (List.mem_cons.mpr (Or.inl hid))
        · rcases List.mem_cons.mp hother with rfl | hother
          · simpa using hseen
          · exact fun hmem => hnew other hother (List.mem_cons_of_mem _ hmem)

/-- One turn keeps the budget exactly when it cuts enough off the base, if the turns before it did. -/
theorem Turn.within_iff {slugify : String → Name} {parents : Uuid → Option Uuid} {state : Allocator}
    {node : EntryNode} {directories : List Name} {stem : Name}
    (h : Turn slugify parents state node directories stem) (hbefore : WithinComponents state.assigned)
    (hfew : ∀ directory, (state.claims directory).length ≤ 2 ^ 128) :
    (∀ part ∈ components (filePath (joinSegments directories) stem), byteLen part ≤ maxComponentBytes) ↔
      CutsEnough slugify parents state node := by
  have hstem : byteLen stem ≤ maxComponentBytes ↔ CutsEnough slugify parents state node := by
    refine stem_iff_suffixOk (P := fun stem => byteLen stem ≤ maxComponentBytes) h.directory_eq h.isFirst ?_ ?_
    · exact (byteLen_truncateSlug_le _ _).trans (min_le_left _ _)
    · intro k hk
      have hcounter : k ≤ 2 ^ 128 + 1 := hk.trans (Nat.succ_le_succ (hfew _))
      exact byteLen_suffixed_le_component (suffixBytes_le hcounter)
  rw [← hstem, h.shaped.components_eq]
  constructor
  · intro hall
    exact hall stem (by simp)
  · intro hlong part hpart
    rcases List.mem_append.mp hpart with hpart | hpart
    · rcases h.above with hroot | ⟨parent, place, directories', stem', -, hplace, hshaped, hkept⟩
      · rw [hroot] at hpart
        cases hpart
      · refine hbefore parent place hplace part ?_
        rw [hshaped.components_eq]
        exact hkept.subset hpart
    · rwa [List.mem_singleton.mp hpart]

/-- Every component of every path is within its budget exactly when every turn that takes a suffixed name cuts
enough off the base for it. -/
theorem withinComponents_iff {slugify : String → Name} (hslug : Slugs slugify) (entries : List EntryNode) :
    WithinComponents (mapEntryPaths slugify entries) ↔
      Run.Meets (allocate slugify (resolveParents (keepFirst entries [])))
        (CutsEnough slugify (resolveParents (keepFirst entries []))) Allocator.empty
        (ordered (keepFirst entries [])) := by
  have hids := (keepFirst_ids entries []).1
  refine forall_paths_iff hslug hids (Q := fun path => ∀ part ∈ components path, byteLen part ≤ maxComponentBytes) ?_
  intro before node hpre directories stem hturn hbefore
  refine hturn.within_iff hbefore fun directory => ?_
  have hnodup : (before.map EntryNode.id).Nodup := (nodup_orderIds hids).sublist
    (((List.sublist_append_left before [node]).trans hpre.sublist).map EntryNode.id)
  refine (claims_length_run slugify _ before directory).trans ?_
  have hfew := length_le_of_nodup hnodup
  rwa [List.length_map] at hfew

/-- The second of two short titles takes its suffix within the budget. -/
theorem two_vales_within :
    WithinComponents (mapEntryPaths sampleSlug twoVales) ∧
      (mapEntryPaths sampleSlug twoVales 2).map AssignedPath.path = some "vale-00000000.md".toList :=
  ⟨(withinComponents_iff slugs_sampleSlug twoVales).mpr (by decide +kernel), by decide +kernel⟩

/-- The slugs of titles in lower case without spaces. -/
def lowerSlug (title : String) : Name := title.toList.filter Char.isLower

theorem slugs_lowerSlug : Slugs lowerSlug where
  text title c hc := Or.inl (List.mem_filter.mp hc).2
  head title hdash := by
    have hmem : '-' ∈ lowerSlug title := List.mem_of_mem_head? hdash
    exact absurd (List.mem_filter.mp hmem).2 (by decide)

/-- Two entries of the same title, as long as a component may be. -/
def twoLongTitles : List EntryNode :=
  [⟨1, none, String.ofList (List.replicate 64 'v')⟩, ⟨2, none, String.ofList (List.replicate 64 'v')⟩]

/-- The stem of the second is nine bytes too long. -/
theorem long_title_overflows :
    Slugs lowerSlug ∧ ¬(∀ entries, WithinComponents (mapEntryPaths lowerSlug entries)) ∧
      (mapEntryPaths lowerSlug twoLongTitles 2).map AssignedPath.path =
        some (List.replicate 64 'v' ++ "-00000000.md".toList) := by
  have hpath : (mapEntryPaths lowerSlug twoLongTitles 2).map AssignedPath.path =
      some (List.replicate 64 'v' ++ "-00000000.md".toList) := by decide +kernel
  refine ⟨slugs_lowerSlug, fun hwithin => ?_, hpath⟩
  obtain ⟨place, hplace, heq⟩ := Option.map_eq_some_iff.mp hpath
  have hstem : List.replicate 64 'v' ++ "-00000000".toList ∈ components place.path := by
    rw [heq]
    decide
  exact absurd (hwithin twoLongTitles 2 place hplace _ hstem) (by decide)

end ThunderForge.Mirror
