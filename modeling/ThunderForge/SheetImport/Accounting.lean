import ThunderForge.SheetImport.Content
import ThunderForge.SheetImport.Routing

/-! A sheet import drops nothing it read: each field with a value, each piece of content and each note with text
has one place in the plan. A field is lost where a map's keys make it look like a field, and where another that
lands with it is written over it. -/

namespace ThunderForge.SheetImport

open Std (ExtTreeMap)

/-- In how many of the lists of checked, ignored and unmapped paths and of content changes a path is. -/
def ImportPlan.places (plan : ImportPlan) (path : String) : Nat :=
  (if path ∈ plan.checked then 1 else 0) + (if path ∈ plan.ignored then 1 else 0) +
    (if path ∈ plan.unmapped.map Unmapped.path then 1 else 0) +
    plan.content.countP fun change => change.from_.contains path

/-- How often a plan deals with a declared path. -/
def ImportPlan.dealt (plan : ImportPlan) (declared : String) : Nat :=
  plan.fields.countP (fun change => change.path = declared) + if declared ∈ plan.identical then 1 else 0

/-- A value is where it belongs, and only there: with its declared field, or listed once. -/
def ImportPlan.Accounts (plan : ImportPlan) (mapping : SheetMapping) (corrections : Corrections)
    (current : ActorSnapshot) (path : String) (value : Json) : Prop :=
  plan.places path = 1 ∨
    (plan.places path = 0 ∧ ∃ declared target, mapping.fieldFor path = some (declared, target) ∧
      plan.dealt declared = 1 ∧ ∃ new, plan.New mapping current declared new ∧
        PartOf corrections declared path value new)

/-- A value as the person leaves it: corrected, or cleared, or as it was read. -/
def corrected (corrections : Corrections) (path : String) (value : Json) : Option Json :=
  match corrections[path]? with
  | some correction => notNull correction
  | none => some value

/-- Every field read with a value, every piece of content and every note with text has a path of its own, and is
accounted for. -/
structure SheetAccounted (mapping : SheetMapping) (reading : ImportedCharacter) (corrections : Corrections)
    (current : ActorSnapshot) (world : World) : Prop where
  paths : reading.paths.Nodup
  fields : ∀ entry ∈ reading.fields, entry.2.certainty ≠ .unread → ∀ read, entry.2.value = some read →
    ∀ value, corrected corrections entry.1 read.toValue = some value →
      (planWith mapping none reading corrections current world).Accounts mapping corrections current entry.1 value
  content : ∀ index < reading.content.val.length,
    (planWith mapping none reading corrections current world).places (contentPath index) = 1
  notes : ∀ index note text, reading.notes.val[index]? = some note → note.text.value = some text →
    (corrected corrections (notePath index) (.string text)).isSome →
      (planWith mapping none reading corrections current world).places (notePath index) = 1

/-- A leaf of the reading that has a value, as the person leaves it. -/
def HasValue (reading : ImportedCharacter) (leaf : Planned) : Prop :=
  leaf.path ∈ reading.leaves.map Leaf.path ∧ leaf.value.isSome

/-- What lands on one declared path, neither unread, lands apart where the first has a value; the person may have
given that path as a whole. -/
def LandsApart (mapping : SheetMapping) (reading : ImportedCharacter) (corrections : Corrections)
    (left right : Planned) : Prop :=
  match placeOf mapping left.path with
  | .field declared =>
    placeOf mapping right.path = .field declared → left.certainty ≠ .unread → right.certainty ≠ .unread →
      corrections[declared]?.isNone → HasValue reading left →
        Apart (relative declared left.path) (relative declared right.path)
  | .content _ | .checked | .ignored | .unmapped => True

/-- Each leaf lands apart from those after it. -/
def LandApart (mapping : SheetMapping) (reading : ImportedCharacter) (corrections : Corrections) : Prop :=
  (plannedLeaves mapping reading corrections).Pairwise (LandsApart mapping reading corrections)

instance (reading : ImportedCharacter) (leaf : Planned) : Decidable (HasValue reading leaf) :=
  inferInstanceAs (Decidable (_ ∧ _))

instance (mapping : SheetMapping) (reading : ImportedCharacter) (corrections : Corrections) (left right : Planned) :
    Decidable (LandsApart mapping reading corrections left right) := by
  unfold LandsApart
  cases placeOf mapping left.path <;> infer_instance

instance (mapping : SheetMapping) (reading : ImportedCharacter) (corrections : Corrections) :
    Decidable (LandApart mapping reading corrections) :=
  inferInstanceAs (Decidable (List.Pairwise _ _))

section places

variable {mapping : SheetMapping} {reading : ImportedCharacter} {corrections : Corrections} {current : ActorSnapshot}
  {world : World}

theorem stripPrefix_append (front rest : String) : stripPrefix front (front ++ rest) = some rest := by
  simp [stripPrefix]

theorem parseUsize_toString {n : Nat} (h : n < 2 ^ 64) : parseUsize (toString n) = some n := by
  have hdigits : ∀ c ∈ Nat.toDigits 10 n, c.isDigit = true :=
    fun c hc => Nat.isDigit_of_mem_toDigits (by decide) (by decide) hc
  have hplus : (Nat.toDigits 10 n).head? ≠ some '+' := by
    intro hhead
    exact absurd (hdigits '+' (List.mem_of_head? hhead)) (by decide)
  have hne : Nat.toDigits 10 n ≠ [] := List.ne_nil_of_length_pos Nat.length_toDigits_pos
  simp only [parseUsize, toList_toString, if_neg hplus, Nat.ofDigitChars_ten_toDigits]
  rw [if_pos ⟨hne, List.all_eq_true.mpr hdigits, h⟩]

theorem placeOf_contentPath {index : Nat} (h : index < 2 ^ 64) :
    placeOf mapping (contentPath index) = .content (some index) := by
  unfold placeOf
  rw [show contentPath index = "content." ++ toString index from rfl, stripPrefix_append]
  dsimp only
  rw [parseUsize_toString h]

/-- What is planned as content is under it. -/
theorem under_content_of_place {path : String} {index : Option Nat} (h : placeOf mapping path = .content index) :
    Under "content" path := by
  have hstrip : (stripPrefix "content." path).isSome := by
    cases hstrip : stripPrefix "content." path with
    | some rest => rfl
    | none =>
        rw [placeOf, hstrip] at h
        dsimp only at h
        split_ifs at h
        split at h <;> exact absurd h (by simp)
  unfold stripPrefix at hstrip
  split_ifs at hstrip with hprefix
  · obtain ⟨rest, hrest⟩ := List.isPrefixOf_iff_prefix.mp hprefix
    exact ⟨'.' :: rest, by rw [← hrest]; rfl, Or.inr ⟨rest, rfl⟩⟩
  · exact absurd hstrip Bool.false_ne_true

variable (mapping) in
/-- A note is ignored or kept in the notes. -/
theorem placeOf_notePath (index : Nat) :
    placeOf mapping (notePath index) = .ignored ∨ placeOf mapping (notePath index) = .unmapped := by
  have hcontent : stripPrefix "content." (notePath index) = none := by
    simp [stripPrefix, notePath, List.isPrefixOf]
  have hderived : stripPrefix "derived." (notePath index) = none := by
    simp [stripPrefix, notePath, List.isPrefixOf]
  have hnotes : "notes.".toList.isPrefixOf (notePath index).toList = true := by
    simp [notePath, List.isPrefixOf]
  unfold placeOf
  rw [hcontent, hderived]
  simp only [Option.any_none, Bool.false_eq_true, if_false, hnotes, if_true]
  split_ifs
  · exact Or.inl rfl
  · exact Or.inr rfl

theorem fieldFor_of_place {path declared : String} (h : placeOf mapping path = .field declared) :
    ∃ target, mapping.fieldFor path = some (declared, target) := by
  unfold placeOf at h
  split at h
  · exact absurd h (by simp)
  · split_ifs at h
    split at h
    case h_1 declared' target hfield =>
      cases h
      exact ⟨target, hfield⟩
    case h_2 => exact absurd h (by simp)

/-- Where the paths of a reading are in its plan, with the content as it was filed. -/
structure PlacedAs (mapping : SheetMapping) (reading : ImportedCharacter) (corrections : Corrections) (world : World)
    (content : ContentPlan) (plan : ImportPlan) : Prop where
  checked : ∀ path, path ∈ plan.checked ↔ Sent mapping .checked (plannedLeaves mapping reading corrections) path
  ignored : ∀ path, path ∈ plan.ignored ↔ Sent mapping .ignored (plannedLeaves mapping reading corrections) path
  unmapped : ∀ path, path ∈ plan.unmapped.map Unmapped.path ↔
    Sent mapping .unmapped (plannedLeaves mapping reading corrections) path ∨
      path ∈ content.unmapped.map Unmapped.path ∨ ∃ change ∈ content.byKey, change.undecided ∧ path ∈ change.from_
  content : ∀ path, plan.content.countP (fun change => change.from_.contains path) =
    content.byKey.countP fun change => change.from_.contains path && !change.undecided

theorem mem_unmapped_sort {plan : ImportPlan} {path : String} :
    path ∈ plan.sort.unmapped.map Unmapped.path ↔ path ∈ plan.unmapped.map Unmapped.path :=
  ((SortBy.sortBy_perm _ _).map Unmapped.path).mem_iff

/-- What is left undecided is kept in the notes, path by path. -/
theorem mem_unmapped_keepUndecided {plan : ImportPlan} {path : String} :
    path ∈ (keepUndecided mapping plan).unmapped.map Unmapped.path ↔
      path ∈ plan.unmapped.map Unmapped.path ∨ ∃ change ∈ plan.content, change.undecided ∧ path ∈ change.from_ := by
  simp only [keepUndecided, List.map_append, List.mem_append]
  refine or_congr_right ⟨?_, ?_⟩
  · intro hkept
    obtain ⟨entry, hentry, rfl⟩ := List.mem_map.mp hkept
    obtain ⟨change, hchange, hfrom⟩ := List.mem_flatMap.mp hentry
    obtain ⟨hmem, hundecided⟩ := List.mem_filter.mp hchange
    obtain ⟨path, hpath, rfl⟩ := List.mem_map.mp hfrom
    exact ⟨change, hmem, hundecided, hpath⟩
  · rintro ⟨change, hmem, hundecided, hpath⟩
    exact List.mem_map.mpr ⟨_, List.mem_flatMap.mpr ⟨change, List.mem_filter.mpr ⟨hmem, hundecided⟩,
      List.mem_map_of_mem hpath⟩, rfl⟩

/-- What is in a finished plan. -/
theorem planned_parts (mapping : SheetMapping) (reading : ImportedCharacter) (corrections : Corrections)
    (current : ActorSnapshot) (world : World) : ∃ routed content landed,
      RoutedAs mapping (plannedLeaves mapping reading corrections)
          { plan := emptyPlan reading current, groups := ∅, content := [] } routed ∧
        Filed mapping reading corrections world routed.content.reverse content ∧
        LandedAs mapping corrections current routed.groups.toList routed.plan landed ∧
        PlacedAs mapping reading corrections world content (planWith mapping none reading corrections current world) ∧
        (planWith mapping none reading corrections current world).fields = SortBy.sortBy FieldChange.path landed.fields ∧
        (planWith mapping none reading corrections current world).identical = sortDedup landed.identical := by
  have hrouted := routed_foldl mapping reading (plannedLeaves mapping reading corrections)
    { plan := emptyPlan reading current, groups := ∅, content := [] }
  rw [show (plannedLeaves mapping reading corrections).foldl (Routed.add mapping reading)
    { plan := emptyPlan reading current, groups := ∅, content := [] } = route mapping reading corrections current from
    rfl] at hrouted
  generalize hroute : route mapping reading corrections current = routed at hrouted
  have hlanded := landed_foldl mapping corrections current routed.groups.toList routed.plan
  generalize hland : routed.groups.toList.foldl (fieldChange mapping current corrections) routed.plan = landed
    at hlanded
  obtain ⟨content, removed, hfiled, hremoved, hplan⟩ := planContent_eq mapping reading corrections world current
    routed.content landed
  have hwith : planWith mapping none reading corrections current world =
      (keepUndecided mapping (planContent mapping reading corrections current world routed.content landed)).sort := by
    rw [← hland, ← hroute]
    rfl
  rw [hplan] at hwith
  have hlandedContent : landed.content = [] := hlanded.rest.2.2.2.trans hrouted.rest.2.2
  refine ⟨routed, content, landed, hrouted, hfiled, hlanded, ⟨fun path => ?_, fun path => ?_, fun path => ?_,
    fun path => ?_⟩, ?_, ?_⟩
  · rw [hwith]
    simp only [ImportPlan.sort, keepUndecided, sortDedup, SortBy.mem_dedup, SortBy.mem_sortBy, hlanded.rest.1,
      hrouted.checked, emptyPlan, List.not_mem_nil, false_or]
  · rw [hwith]
    simp only [ImportPlan.sort, keepUndecided, sortDedup, SortBy.mem_dedup, SortBy.mem_sortBy, hlanded.rest.2.1,
      hrouted.ignored, emptyPlan, List.not_mem_nil, false_or]
  · rw [hwith, mem_unmapped_sort, mem_unmapped_keepUndecided]
    simp only [List.map_append, List.mem_append, hlandedContent, List.nil_append, hlanded.rest.2.2.1,
      hrouted.unmapped, emptyPlan, List.map_nil, List.not_mem_nil, false_or]
    rw [or_assoc]
    refine or_congr_right (or_congr_right ⟨?_, ?_⟩)
    · rintro ⟨change, hgone | hkept, hundecided, hpath⟩
      · rw [hremoved change hgone] at hpath
        exact absurd hpath List.not_mem_nil
      · exact ⟨change, (SortBy.mem_sortBy _).mp hkept, hundecided, hpath⟩
    · rintro ⟨change, hmem, hundecided, hpath⟩
      exact ⟨change, Or.inr ((SortBy.mem_sortBy _).mpr hmem), hundecided, hpath⟩
  · have hgone : removed.countP (fun change => change.from_.contains path && !change.undecided) = 0 := by
      refine List.countP_eq_zero.mpr fun change hchange => ?_
      rw [hremoved change hchange]
      simp
    rw [hwith]
    simp only [ImportPlan.sort, keepUndecided]
    rw [(SortBy.sortBy_perm _ _).countP_eq, List.countP_filter, List.countP_append, List.countP_append, hlandedContent,
      hgone, (SortBy.sortBy_perm _ _).countP_eq]
    simp
  · rw [hwith]
    rfl
  · rw [hwith]
    rfl

section accounting

variable {content : ContentPlan} {indices : List Nat} {plan : ImportPlan}

/-- What is not planned as content is in no change's list. -/
theorem Filed.not_mem (h : Filed mapping reading corrections world indices content) {path : String}
    (hplace : ∀ index, placeOf mapping path ≠ .content index) :
    path ∉ content.unmapped.map Unmapped.path ∧ ∀ change ∈ content.byKey, path ∉ change.from_ := by
  have hne (index : Nat) : path ≠ contentPath index := by
    rintro rfl
    refine hplace (parseUsize (toString index)) ?_
    unfold placeOf
    rw [show contentPath index = "content." ++ toString index from rfl, stripPrefix_append]
  refine ⟨fun hmem => ?_, fun change hchange hmem => ?_⟩
  · obtain ⟨entry, hentry, rfl⟩ := List.mem_map.mp hmem
    obtain ⟨index, hpath, -⟩ := h.unmapped entry hentry
    exact hne index hpath
  · obtain ⟨index, hpath, -⟩ := h.changes change hchange path hmem
    exact hne index hpath

/-- A leaf with a value is listed once, unless it lands on a declared path. -/
theorem PlacedAs.places_leaf (h : PlacedAs mapping reading corrections world content plan)
    (hfiled : Filed mapping reading corrections world indices content) {leaf : Planned}
    (hleaf : leaf ∈ plannedLeaves mapping reading corrections) (hvalue : leaf.value.isSome)
    (hplace : ∀ index, placeOf mapping leaf.path ≠ .content index) :
    plan.places leaf.path =
      match placeOf mapping leaf.path with
      | .field _ => 0
      | .content _ | .checked | .ignored | .unmapped => 1 := by
  obtain ⟨hunmapped, hchanges⟩ := hfiled.not_mem hplace
  have hsent (place : Place) : Sent mapping place (plannedLeaves mapping reading corrections) leaf.path ↔
      placeOf mapping leaf.path = place := by
    constructor
    · exact fun hsent => hsent.1
    · exact fun hthis => ⟨hthis, leaf, hleaf, rfl, hvalue⟩
  have hkept : ¬∃ change ∈ content.byKey, change.undecided ∧ leaf.path ∈ change.from_ := by
    rintro ⟨change, hchange, -, hpath⟩
    exact hchanges change hchange hpath
  have hcontent : plan.content.countP (fun change => change.from_.contains leaf.path) = 0 := by
    rw [h.content]
    refine List.countP_eq_zero.mpr fun change hchange => ?_
    simp [hchanges change hchange]
  unfold ImportPlan.places
  rw [hcontent]
  simp only [h.checked, h.ignored, h.unmapped, hsent, hunmapped, hkept, or_false]
  cases hthis : placeOf mapping leaf.path with
  | content index => exact absurd hthis (hplace index)
  | checked | ignored | unmapped | field declared => simp

/-- A piece of content is only in the change of its name. -/
theorem Filed.slot_of_mem (h : Filed mapping reading corrections world indices content) {index : Nat}
    {change : ContentChange} (hchange : change ∈ content.byKey) (hpath : contentPath index ∈ change.from_) :
    slotOf mapping reading corrections world index = some change.key := by
  obtain ⟨other, hother, hslot⟩ := h.changes change hchange _ hpath
  exact contentPath_inj hother ▸ hslot

theorem Filed.slot_of_unmapped (h : Filed mapping reading corrections world indices content) {index : Nat}
    (hpath : contentPath index ∈ content.unmapped.map Unmapped.path) :
    slotOf mapping reading corrections world index = none := by
  obtain ⟨entry, hentry, hthis⟩ := List.mem_map.mp hpath
  obtain ⟨other, hother, hslot⟩ := h.unmapped entry hentry
  exact contentPath_inj (hthis.symm.trans hother) ▸ hslot

theorem Filed.eq_of_mem (h : Filed mapping reading corrections world indices content) {index : Nat}
    {change other : ContentChange} (hchange : change ∈ content.byKey) (hpath : contentPath index ∈ change.from_)
    (hother : other ∈ content.byKey) (hpath' : contentPath index ∈ other.from_) : other = change := by
  refine List.inj_on_of_nodup_map h.keys hother hchange (Option.some_inj.mp ?_)
  rw [← h.slot_of_mem hother hpath', ← h.slot_of_mem hchange hpath]

/-- A piece of content is in one change that is kept, unless its change is left undecided. -/
theorem Filed.countP_decided (h : Filed mapping reading corrections world indices content) {index : Nat}
    {change : ContentChange} (hchange : change ∈ content.byKey) (hpath : contentPath index ∈ change.from_) :
    content.byKey.countP (fun change => change.from_.contains (contentPath index) && !change.undecided) =
      if change.undecided then 0 else 1 := by
  by_cases hundecided : change.undecided = true
  · rw [if_pos hundecided]
    refine List.countP_eq_zero.mpr fun other hother hcounted => ?_
    rw [Bool.and_eq_true, List.contains_iff_mem] at hcounted
    rw [h.eq_of_mem hchange hpath hother hcounted.1, hundecided] at hcounted
    exact absurd hcounted.2 Bool.false_ne_true
  · rw [if_neg hundecided]
    have hsame : ∀ other ∈ content.byKey,
        ((other.from_.contains (contentPath index) && !other.undecided) = true ↔
          (other.key == change.key) = true) := by
      intro other hother
      rw [Bool.and_eq_true, List.contains_iff_mem, beq_iff_eq]
      constructor
      · rintro ⟨hpath', -⟩
        rw [h.eq_of_mem hchange hpath hother hpath']
      · intro hkey
        obtain rfl : other = change := List.inj_on_of_nodup_map h.keys hother hchange hkey
        exact ⟨hpath, by simpa using hundecided⟩
    calc
      _ = content.byKey.countP (fun other => other.key == change.key) := List.countP_congr hsame
      _ = (content.byKey.map ContentChange.key).count change.key := by
        rw [List.count, List.countP_map]
        rfl
      _ = 1 := List.count_eq_one_of_mem h.keys (List.mem_map_of_mem hchange)

/-- A piece of content is in one place. -/
theorem PlacedAs.places_content (h : PlacedAs mapping reading corrections world content plan)
    (hfiled : Filed mapping reading corrections world indices content) {index : Nat} (hindex : index ∈ indices)
    (hlt : index < reading.content.val.length) : plan.places (contentPath index) = 1 := by
  have hplace : placeOf mapping (contentPath index) = .content (some index) :=
    placeOf_contentPath (hlt.trans reading.content.property)
  have hsent {place : Place} (hne : place ≠ .content (some index)) :
      ¬Sent mapping place (plannedLeaves mapping reading corrections) (contentPath index) :=
    fun hsent => hne (hsent.1.symm.trans hplace)
  have hholds := hfiled.holds index hindex hlt
  unfold ImportPlan.places
  rw [h.content]
  simp only [h.checked, h.ignored, h.unmapped, hsent (show Place.checked ≠ _ by simp),
    hsent (show Place.ignored ≠ _ by simp), hsent (show Place.unmapped ≠ _ by simp), if_false, false_or, Nat.zero_add]
  cases hslot : slotOf mapping reading corrections world index with
  | none =>
      rw [hslot] at hholds
      have hkept : contentPath index ∈ content.unmapped.map Unmapped.path := hholds
      have hnone : content.byKey.countP
          (fun change => change.from_.contains (contentPath index) && !change.undecided) = 0 := by
        refine List.countP_eq_zero.mpr fun change hchange hcounted => ?_
        rw [Bool.and_eq_true, List.contains_iff_mem] at hcounted
        rw [hfiled.slot_of_mem hchange hcounted.1] at hslot
        exact absurd hslot (by simp)
      rw [hnone, if_pos (Or.inl hkept)]
  | some key =>
      rw [hslot] at hholds
      obtain ⟨change, hchange, -, hpath⟩ := hholds
      have hnot : contentPath index ∉ content.unmapped.map Unmapped.path := by
        intro hmem
        rw [hfiled.slot_of_unmapped hmem] at hslot
        exact absurd hslot (by simp)
      have hundecided : (∃ other ∈ content.byKey, other.undecided ∧ contentPath index ∈ other.from_) ↔
          change.undecided := by
        constructor
        · rintro ⟨other, hother, hother', hpath'⟩
          rwa [hfiled.eq_of_mem hchange hpath hother hpath'] at hother'
        · exact fun hthis => ⟨change, hchange, hthis, hpath⟩
      rw [hfiled.countP_decided hchange hpath]
      simp only [hnot, false_or, hundecided]
      split_ifs <;> rfl

end accounting

/-- The plan deals once with each declared path a leaf lands on. -/
theorem dealt_of_leaf {routed : Routed} {landed plan : ImportPlan}
    (hrouted : RoutedAs mapping (plannedLeaves mapping reading corrections)
      { plan := emptyPlan reading current, groups := ∅, content := [] } routed)
    (hlanded : LandedAs mapping corrections current routed.groups.toList routed.plan landed)
    (hfields : plan.fields = SortBy.sortBy FieldChange.path landed.fields)
    (hidentical : plan.identical = sortDedup landed.identical) {declared : String} {group : List Planned}
    (hentry : (declared, group) ∈ routed.groups.toList) : plan.dealt declared = 1 := by
  have hone : routed.groups.toList.countP (fun entry => entry.1 = declared) = 1 := by
    have hkey : declared ∈ routed.groups.keys := by
      rw [← ExtTreeMap.map_fst_toList_eq_keys]
      exact List.mem_map_of_mem hentry
    calc
      _ = (routed.groups.toList.map Prod.fst).count declared := by
        rw [List.count, List.countP_map]
        exact List.countP_congr fun entry _ => by simp
      _ = 1 := by
        rw [ExtTreeMap.map_fst_toList_eq_keys]
        exact List.count_eq_one_of_mem ExtTreeMap.nodup_keys hkey
  have hnamed : landed.named declared = 1 := by
    rw [hlanded.named, hone, ImportPlan.named, hrouted.rest.1, hrouted.rest.2.1]
    rfl
  unfold ImportPlan.named at hnamed
  unfold ImportPlan.dealt
  rw [hfields, hidentical, (SortBy.sortBy_perm _ _).countP_eq]
  simp only [sortDedup, SortBy.mem_dedup, SortBy.mem_sortBy]
  split_ifs with hmem
  · have := List.count_pos_iff.mpr hmem
    omega
  · rw [List.count_eq_zero.mpr hmem] at hnamed
    omega

theorem planned_path (corrections : Corrections) (leaf : Leaf) : (planned corrections leaf).path = leaf.path := by
  unfold planned
  split
  · rfl
  · split <;> rfl

theorem planned_value {leaf : Leaf} {read value : Json} (hread : leaf.value = some read)
    (hvalue : corrected corrections leaf.path read = some value) : (planned corrections leaf).value = some value := by
  unfold corrected at hvalue
  unfold planned
  cases hcorrection : corrections[leaf.path]? with
  | some correction =>
      rw [hcorrection] at hvalue
      exact hvalue
  | none =>
      rw [hcorrection] at hvalue
      cases leaf.certainty <;> exact hread.trans hvalue

theorem planned_certainty {leaf : Leaf} (hunread : leaf.certainty ≠ .unread) :
    (planned corrections leaf).certainty ≠ .unread := by
  unfold planned
  split
  · simp
  · cases hcertainty : leaf.certainty with
    | read => simp
    | uncertain reason => simp
    | unread => exact absurd hcertainty hunread

/-- A field of the reading is where it belongs. -/
theorem accounts_field (hplain : reading.PlainMaps) (hapart : LandApart mapping reading corrections)
    {entry : String × Field FieldValue} (hentry : entry ∈ reading.fields) (hunread : entry.2.certainty ≠ .unread)
    {read : FieldValue} (hread : entry.2.value = some read) {value : Json}
    (hvalue : corrected corrections entry.1 read.toValue = some value) :
    (planWith mapping none reading corrections current world).Accounts mapping corrections current entry.1 value := by
  have hmemLeaf : fieldLeaf entry ∈ reading.leaves :=
    fieldLeaf_mem hplain hentry ⟨hunread, by rw [hread]; rfl⟩
  have hleaf : planned corrections (fieldLeaf entry) ∈ plannedLeaves mapping reading corrections :=
    List.mem_append_left _ (List.mem_map_of_mem hmemLeaf)
  have hpath : (planned corrections (fieldLeaf entry)).path = entry.1 := planned_path corrections _
  have hleafValue : (planned corrections (fieldLeaf entry)).value = some value :=
    planned_value (by rw [fieldLeaf, hread]; rfl) hvalue
  have hcertainty : (planned corrections (fieldLeaf entry)).certainty ≠ .unread := planned_certainty hunread
  have hwhole : ∀ whole, corrections[entry.1]? = some whole → notNull whole = some value := by
    intro whole hcorrection
    rw [corrected, hcorrection] at hvalue
    exact hvalue
  have hkept : HasValue reading (planned corrections (fieldLeaf entry)) := by
    refine ⟨?_, by rw [hleafValue]; rfl⟩
    rw [planned_path]
    exact List.mem_map_of_mem hmemLeaf
  generalize planned corrections (fieldLeaf entry) = leaf at hleaf hpath hleafValue hcertainty hkept
  rw [← hpath] at hwhole
  obtain ⟨routed, content, landed, hrouted, hfiled, hlanded, hplaced, hfields, hidentical⟩ :=
    planned_parts mapping reading corrections current world
  have hcontent : ∀ index, placeOf mapping leaf.path ≠ .content index := by
    intro index hplace
    exact under_of_field hentry (Or.inl rfl) (hpath ▸ under_content_of_place hplace)
  have hplaces := hplaced.places_leaf hfiled hleaf (by rw [hleafValue]; rfl) hcontent
  rw [← hpath]
  cases hplace : placeOf mapping leaf.path with
  | content index => exact absurd hplace (hcontent index)
  | checked | ignored | unmapped =>
      rw [hplace] at hplaces
      exact Or.inl hplaces
  | field declared =>
      rw [hplace] at hplaces
      obtain ⟨target, hfield⟩ := fieldFor_of_place hplace
      obtain ⟨group, hgroup, hmem⟩ := group_of_leaf hrouted hleaf hplace
      have hgroupApart (hnone : corrections[declared]? = none) :
          (group.filter fun leaf => leaf.certainty ≠ .unread).Pairwise fun left right =>
            HasValue reading left → Apart (relative declared left.path) (relative declared right.path) := by
        rw [mem_groups hrouted hgroup, List.pairwise_filter, List.pairwise_filter]
        refine hapart.imp fun hleaves hleft hright hleft' hright' => ?_
        rw [LandsApart, of_decide_eq_true hleft] at hleaves
        exact hleaves (of_decide_eq_true hright) (of_decide_eq_true hleft') (of_decide_eq_true hright')
          (by rw [hnone]; rfl)
      obtain ⟨hnew, hpart⟩ := partOf_newOf mapping current hmem hkept hcertainty hleafValue
        hwhole hgroupApart
      refine Or.inr ⟨hplaces, declared, target, hfield, dealt_of_leaf hrouted hlanded hfields hidentical hgroup, _, ?_,
        hpart⟩
      have hlandedNew := hlanded.new _ hgroup hnew
      unfold ImportPlan.New at hlandedNew ⊢
      rw [hfields, hidentical]
      simpa only [sortDedup, SortBy.mem_dedup, SortBy.mem_sortBy] using hlandedNew

/-- A reading is all accounted for where no map looks like a field and the leaves of one path land apart. -/
theorem sheet_import_accounts (hplain : reading.PlainMaps) (hapart : LandApart mapping reading corrections) :
    SheetAccounted mapping reading corrections current world where
  paths := nodup_paths reading
  fields := by
    intro entry hentry hunread read hread value hvalue
    exact accounts_field hplain hapart hentry hunread hread hvalue
  content := by
    intro index hlt
    obtain ⟨routed, content, landed, hrouted, hfiled, -, hplaced, -, -⟩ :=
      planned_parts mapping reading corrections current world
    refine hplaced.places_content hfiled ?_ hlt
    have hleaf : planned corrections
        { path := contentPath index, value := some reading.content.val[index].toValue
          certainty := reading.content.val[index].name.certainty
          source := reading.content.val[index].name.source } ∈ plannedLeaves mapping reading corrections := by
      refine List.mem_append_left _ (List.mem_map_of_mem (contentLeaf_mem ?_))
      refine List.mem_map.mpr ⟨(reading.content.val[index], index), ?_, rfl⟩
      exact List.mem_zipIdx_iff_getElem?.mpr (List.getElem?_eq_getElem hlt)
    rw [List.mem_reverse, hrouted.content]
    refine Or.inr ⟨_, hleaf, ?_⟩
    rw [planned_path]
    exact placeOf_contentPath (hlt.trans reading.content.property)
  notes := by
    intro index note text hnote htext hvalue
    obtain ⟨value, hvalue⟩ := Option.isSome_iff_exists.mp hvalue
    obtain ⟨routed, content, landed, -, hfiled, -, hplaced, -, -⟩ :=
      planned_parts mapping reading corrections current world
    have hleaf : planned corrections
        { path := notePath index, value := note.text.value.map .string, certainty := note.text.certainty
          source := note.text.source } ∈ plannedLeaves mapping reading corrections := by
      refine List.mem_append_left _ (List.mem_map_of_mem (noteLeaf_mem ?_))
      refine List.mem_map.mpr ⟨(note, index), ?_, rfl⟩
      exact List.mem_zipIdx_iff_getElem?.mpr hnote
    have hplace := placeOf_notePath mapping index
    have hplaces := hplaced.places_leaf hfiled hleaf
      (by rw [planned_value (by rw [htext]; rfl) hvalue]; rfl)
      (by rw [planned_path]; rcases hplace with hplace | hplace <;> simp [hplace])
    rw [planned_path] at hplaces
    rcases hplace with hplace | hplace <;> rw [hplace] at hplaces <;> exact hplaces

end places

/-- A reading in which nothing was read. -/
def ImportedCharacter.blank : ImportedCharacter where
  reader := ⟨"pdf", "1"⟩
  identity := ⟨.unread, .unread, .unread, .unread, .unread, .unread, .unread⟩
  classes := []
  abilities := ∅
  proficiencies := ⟨∅, ∅, .unread, .unread, .unread, .unread⟩
  defences := ⟨.unread, .unread, .unread, .unread, .unread⟩
  resources := ⟨.unread, .unread, .unread, [], ⟨.unread, .unread⟩, ∅, .unread⟩
  movement := ⟨∅, ∅⟩
  spellcasting := []
  content := ⟨[], by decide⟩
  derived := ∅
  persona := ∅
  notes := ⟨[], by decide⟩

/-- An elf with two ability scores and a spell, and a note. -/
def ImportedCharacter.elf : ImportedCharacter where
  __ := ImportedCharacter.blank
  identity := { ImportedCharacter.blank.identity with species := ⟨some "elf", .read, none⟩ }
  abilities := (∅ : FieldMap Int).insert "str" ⟨some 8, .read, none⟩ |>.insert "dex" ⟨some 16, .uncertain "smudged", none⟩
  content := ⟨[⟨"spell", ⟨some "Light", .read, none⟩, ∅, .default⟩], by decide⟩
  notes := ⟨[⟨"Bonds", ⟨some "Owes a debt", .read, none⟩⟩], by decide⟩

/-- The ability scores as one trait; spells are left to the pack. -/
def abilitiesMapping : SheetMapping where
  fields := (∅ : ExtTreeMap String String).insert "abilities" "scores"
  content := (∅ : ExtTreeMap String ContentTarget).insert "spell" .refine
  derived := []
  playState := []
  ignore := []
  notes := "biography"

def emptyWorld : World := ⟨fun _ _ => none, fun _ _ => "", fun _ => true, fun c => [c]⟩

theorem elf_is_accounted :
    SheetAccounted abilitiesMapping ImportedCharacter.elf ∅ ⟨false, ∅, []⟩ emptyWorld := by
  have hplain : ImportedCharacter.elf.PlainMaps := by
    constructor
    case slots => simp [ImportedCharacter.elf, ImportedCharacter.blank]
    all_goals exact Or.inl (by decide +kernel)
  have hapart : LandApart abilitiesMapping ImportedCharacter.elf ∅ := by decide +kernel
  exact sheet_import_accounts hplain hapart

/-- A persona with the keys of a field. -/
def ImportedCharacter.sureOfItself : ImportedCharacter where
  __ := ImportedCharacter.blank
  persona := (∅ : FieldMap String).insert "age" ⟨some "40", .read, none⟩
    |>.insert "certainty" ⟨some "high", .read, none⟩ |>.insert "value" ⟨some "low", .read, none⟩

/-- The age of a persona with the keys of a field is lost. -/
theorem persona_is_lost : ¬∀ mapping reading corrections current world,
    SheetAccounted mapping reading corrections current world := by
  intro h
  have haccounted := h ⟨∅, ∅, [], [], [], "biography"⟩ .sureOfItself ∅ ⟨false, ∅, []⟩ emptyWorld
  have hage := haccounted.fields ("persona.age", ⟨some (.text "40"), .read, none⟩) (by decide +kernel) (by decide)
    (.text "40") rfl (.string "40") (by simp [corrected, FieldValue.toValue])
  rcases hage with hplaced | ⟨-, declared, target, hfield, -⟩
  · exact absurd hplaced (by decide +kernel)
  · have hnone : SheetMapping.fieldFor ⟨∅, ∅, [], [], [], "biography"⟩ "persona.age" = none := by decide +kernel
    rw [hnone] at hfield
    exact absurd hfield (by simp)

end ThunderForge.SheetImport
