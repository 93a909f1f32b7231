import ThunderForge.SheetImport.Faithful
import ThunderForge.SheetImport.Write

/-! Importing a sheet twice: when the second plan has nothing left to change. -/

namespace ThunderForge.SheetImport

open Std

/-- A leaf as it is planned: a correction stands for what was read, and a doubt comes with its reason. -/
structure SheetLeaf (corrections : Corrections) (leaf : Planned) : Prop where
  corrected : ∀ whole, corrections[leaf.path]? = some whole →
    leaf.value = notNull whole ∧ leaf.certainty = .corrected
  reason : leaf.reason = none ↔ leaf.certainty ≠ .uncertain

/-- The person gave the value of a declared path as a whole, or a leaf of it was read, and none is in doubt. -/
def Sure (corrections : Corrections) (declared : String) (group : List Planned) : Prop :=
  (corrections[declared]?).isSome ∨ toldOf group ≠ [] ∧ ∀ leaf ∈ toldOf group, leaf.certainty ≠ .uncertain

/-- The person cleared a declared path, or its one leaf, at the path itself, has no value. -/
def Clears (corrections : Corrections) (declared : String) (group : List Planned) : Prop :=
  corrections[declared]? = some .null ∨
    corrections[declared]? = none ∧ group.map (fun leaf => (leaf.path, leaf.value)) = [(declared, none)]

instance (corrections : Corrections) (declared : String) (group : List Planned) :
    Decidable (Clears corrections declared group) :=
  inferInstanceAs (Decidable (_ ∨ _ ∧ _))

/-- The text a declared path is given: by the person, or by the last of its leaves that was read, at the path
itself. -/
def textOf (corrections : Corrections) (declared : String) (group : List Planned) : Option String :=
  match corrections[declared]? with
  | some whole => asStr whole
  | none => (toldOf group).getLast?.bind fun leaf =>
    if placeIn declared leaf = [] then asStr (landing leaf) else none

section groupValue

variable {corrections : Corrections} {declared : String} {group : List Planned}

theorem asStr_notNull (value : Json) : (notNull value).bind asStr = asStr value := by
  unfold notNull
  split_ifs with hnull
  · rw [hnull]
    rfl
  · rfl

theorem notNull_eq_none {value : Json} : notNull value = none ↔ value = .null := by
  unfold notNull
  split_ifs with hnull
  · exact iff_of_true rfl hnull
  · exact iff_of_false nofun hnull

theorem placeIn_self {leaf : Planned} (h : leaf.path = declared) : placeIn declared leaf = [] := by
  rw [placeIn, relative, h, List.drop_length]
  rfl

/-- How a group of leaves comes to its value: from the person, from its one leaf, or composed. -/
inductive Given (corrections : Corrections) (declared : String) (group : List Planned) : Prop where
  | whole (whole : Json) (hwhole : corrections[declared]? = some whole)
      (hvalue : ∀ old, (groupValue corrections declared old group).value = notNull whole)
      (hcertainty : ∀ old, (groupValue corrections declared old group).certainty = .corrected)
  | alone (only : Planned) (hwhole : corrections[declared]? = none) (hgroup : group = [only])
      (hpath : only.path = declared)
      (hvalue : ∀ old, (groupValue corrections declared old group).value = only.value)
      (hcertainty : ∀ old, (groupValue corrections declared old group).certainty = only.certainty)
  | composed (hwhole : corrections[declared]? = none)
      (hgroup : ∀ only, group = [only] → only.path ≠ declared)
      (hcompose : ∀ old, groupValue corrections declared old group = compose declared group old)

variable (declared) in
theorem given (hleaves : ∀ leaf ∈ group, SheetLeaf corrections leaf) : Given corrections declared group := by
  by_cases halone : ∃ only, group = [only] ∧ only.path = declared
  · obtain ⟨only, rfl, rfl⟩ := halone
    have hvalue (old : Option Json) : groupValue corrections only.path old [only] =
        { value := only.value, certainty := only.certainty, reason := only.reason, source := only.source } := by
      unfold groupValue
      exact if_pos rfl
    cases hwhole : corrections[only.path]? with
    | none =>
        refine .alone only hwhole rfl rfl (fun old => ?_) (fun old => ?_)
        · rw [hvalue]
        · rw [hvalue]
    | some whole =>
        obtain ⟨hread, hcorrected⟩ := (hleaves only (List.mem_singleton_self only)).corrected whole hwhole
        refine .whole whole hwhole (fun old => ?_) (fun old => ?_)
        · rw [hvalue]
          exact hread
        · rw [hvalue]
          exact hcorrected
  · have hwholeValue (old : Option Json) : groupValue corrections declared old group =
        wholeValue corrections declared old group := by
      unfold groupValue
      split
      · next only =>
        rw [if_neg fun hpath => halone ⟨only, rfl, hpath⟩]
      · rfl
    cases hwhole : corrections[declared]? with
    | none =>
        refine .composed hwhole (fun only hgroup hpath => halone ⟨only, hgroup, hpath⟩) fun old => ?_
        rw [hwholeValue, wholeValue, hwhole]
    | some whole =>
        refine .whole whole hwhole (fun old => ?_) (fun old => ?_)
        · rw [hwholeValue, wholeValue, hwhole]
        · rw [hwholeValue, wholeValue, hwhole]

theorem compose_certainty (old : Option Json) (hleaves : ∀ leaf ∈ group, SheetLeaf corrections leaf) :
    (compose declared group old).certainty = .read ∨ (compose declared group old).certainty = .corrected ↔
      toldOf group ≠ [] ∧ ∀ leaf ∈ toldOf group, leaf.certainty ≠ .uncertain := by
  have hreasons : (toldOf group).filterMap (fun leaf => leaf.reason.map fun reason =>
      ".".intercalate (relative declared leaf.path) ++ ": " ++ reason) = [] ↔
        ∀ leaf ∈ toldOf group, leaf.certainty ≠ .uncertain := by
    rw [List.filterMap_eq_nil_iff]
    refine forall₂_congr fun leaf hleaf => ?_
    rw [Option.map_eq_none_iff]
    exact (hleaves leaf (List.mem_filter.mp hleaf).1).reason
  unfold toldOf at hreasons ⊢
  unfold compose
  dsimp only
  by_cases htold : (group.filter fun leaf => leaf.certainty ≠ .unread) = []
  · rw [if_pos htold]
    exact iff_of_false (fun hsure => hsure.elim nofun nofun) fun hall => hall.1 htold
  · rw [if_neg htold, ← hreasons]
    dsimp only
    by_cases hdoubt : (group.filter fun leaf => leaf.certainty ≠ .unread).filterMap (fun leaf =>
        leaf.reason.map fun reason => ".".intercalate (relative declared leaf.path) ++ ": " ++ reason) = []
    · rw [if_neg (not_not.mpr hdoubt)]
      refine iff_of_true ?_ ⟨htold, hdoubt⟩
      split_ifs
      · exact .inr rfl
      · exact .inl rfl
    · rw [if_pos hdoubt]
      exact iff_of_false nofun fun hall => hdoubt hall.2

theorem sure_iff (hleaves : ∀ leaf ∈ group, SheetLeaf corrections leaf) (old : Option Json) :
    (groupValue corrections declared old group).certainty = .read ∨
      (groupValue corrections declared old group).certainty = .corrected ↔ Sure corrections declared group := by
  unfold Sure
  cases given declared hleaves with
  | whole whole hwhole hvalue hcertainty =>
      rw [hcertainty, hwhole]
      exact iff_of_true (.inr rfl) (.inl rfl)
  | alone only hwhole hgroup hpath hvalue hcertainty =>
      rw [hcertainty, hwhole, hgroup, toldOf]
      cases hread : only.certainty <;> simp [hread]
  | composed hwhole hgroup hcompose =>
      rw [hcompose, hwhole, compose_certainty old hleaves]
      exact ⟨.inr, fun h => h.resolve_left nofun⟩

/-- What is composed into itself again stays. -/
theorem compose_again {old : Option Json} {value : Json} (h : (compose declared group old).value = some value) :
    (compose declared group (some value)).value = some value := by
  have htold : toldOf group ≠ [] := by
    intro hnone
    rw [compose_untold hnone] at h
    cases h
  rw [compose_value htold] at h ⊢
  have hvalue := Option.some.inj h
  refine congrArg some ?_
  cases hlist : composesList declared group with
  | true =>
      have hstart (old : Option Json) : startOf declared group old = .array [] := by
        unfold startOf
        rw [hlist]
      rw [hstart] at hvalue ⊢
      exact hvalue
  | false =>
      have hobject : (startOf declared group old).isObject := by
        unfold startOf
        rw [hlist]
        split <;> first | rfl | contradiction
      have hobject' : (startOf declared group (some value)).isObject := by
        unfold startOf
        rw [hlist]
        split <;> first | rfl | contradiction
      rcases Json.writeAll_objects (writesOf declared group) hobject hobject' with hsame | ⟨hleft, -⟩
      · rw [← hsame, hvalue]
      · rw [hvalue] at hleft
        cases value with
        | object fields =>
            have hstart : startOf declared group (some (.object fields)) = .object fields := by
              unfold startOf
              rw [hlist]
            rw [hstart, ← hvalue, Json.writeAll_writeAll]
        | null | bool | integer | float | string | array => cases hleft

theorem again (hleaves : ∀ leaf ∈ group, SheetLeaf corrections leaf) {old : Option Json} {value : Json}
    (h : (groupValue corrections declared old group).value = some value) :
    (groupValue corrections declared (some value) group).value = some value := by
  cases given declared hleaves with
  | whole whole hwhole hvalue hcertainty => rw [hvalue] at h ⊢; exact h
  | alone only hwhole hgroup hpath hvalue hcertainty => rw [hvalue] at h ⊢; exact h
  | composed hwhole hgroup hcompose => rw [hcompose] at h ⊢; exact compose_again h

theorem clears_iff (hleaves : ∀ leaf ∈ group, SheetLeaf corrections leaf) (hsure : Sure corrections declared group)
    (old : Option Json) :
    (groupValue corrections declared old group).value = none ↔ Clears corrections declared group := by
  unfold Clears
  cases given declared hleaves with
  | whole whole hwhole hvalue hcertainty => simp [hvalue, hwhole, notNull_eq_none]
  | alone only hwhole hgroup hpath hvalue hcertainty =>
      rw [hvalue, hwhole, hgroup]
      simp [hpath]
  | composed hwhole hgroup hcompose =>
      have htold : toldOf group ≠ [] := by
        rw [Sure, hwhole] at hsure
        exact (hsure.resolve_left nofun).1
      rw [hcompose, hwhole, compose_value htold]
      refine iff_of_false nofun ?_
      rintro (h | ⟨-, h⟩)
      · exact nomatch h
      · obtain ⟨only, hone, heq⟩ := List.map_eq_singleton_iff.mp h
        exact hgroup only hone (Prod.mk.inj heq).1

theorem compose_text (htold : toldOf group ≠ []) (old : Option Json) :
    (compose declared group old).value.bind asStr = (toldOf group).getLast?.bind fun leaf =>
      if placeIn declared leaf = [] then asStr (landing leaf) else none := by
  rw [compose_value htold, Option.bind_some, writesOf]
  obtain ⟨leaves, last, hlast⟩ := (List.eq_nil_or_concat (toldOf group)).resolve_left htold
  rw [hlast, List.concat_eq_append, List.getLast?_concat, Option.bind_some, List.map_append, Json.writeAll,
    List.foldl_append]
  show asStr (Json.write (placeIn declared last) _ (landing last)) = _
  cases placeIn declared last with
  | nil => rfl
  | cons step place =>
      rw [Json.write_cons, if_neg (by rintro ⟨⟩)]
      cases step <;> rfl

theorem text_eq (hleaves : ∀ leaf ∈ group, SheetLeaf corrections leaf) (hsure : Sure corrections declared group)
    (old : Option Json) :
    (groupValue corrections declared old group).value.bind asStr = textOf corrections declared group := by
  unfold textOf
  cases given declared hleaves with
  | whole whole hwhole hvalue hcertainty => rw [hvalue, hwhole, asStr_notNull]
  | alone only hwhole hgroup hpath hvalue hcertainty =>
      have htold : toldOf group = [only] := by
        rw [Sure, hwhole, hgroup] at hsure
        have hread : only.certainty ≠ .unread := by
          intro hunread
          apply (hsure.resolve_left nofun).1
          simp [toldOf, hunread]
        simp [hgroup, toldOf, hread]
      rw [hvalue, hwhole, htold]
      show only.value.bind asStr = if placeIn declared only = [] then asStr (landing only) else none
      rw [if_pos (placeIn_self hpath), landing]
      cases only.value <;> rfl
  | composed hwhole hgroup hcompose =>
      have htold : toldOf group ≠ [] := by
        rw [Sure, hwhole] at hsure
        exact (hsure.resolve_left nofun).1
      rw [hcompose, hwhole, compose_text htold]

end groupValue

/-! ### The changes of a plan -/

section plan

variable {mapping : SheetMapping} {reading : ImportedCharacter} {corrections : Corrections} {current : ActorSnapshot}
  {world : World}

theorem groups_foldl (leaves : List Planned) {left right : Routed} (h : left.groups = right.groups) :
    (leaves.foldl (Routed.add mapping reading) left).groups =
      (leaves.foldl (Routed.add mapping reading) right).groups := by
  induction leaves generalizing left right with
  | nil => exact h
  | cons leaf leaves ih =>
      refine ih ?_
      unfold Routed.add
      cases placeOf mapping leaf.path with
      | content index => exact h
      | checked => split_ifs <;> exact h
      | ignored => split_ifs <;> exact h
      | unmapped => exact h
      | field declared =>
          dsimp only
          rw [h]

/-- What lands where does not depend on the actor. -/
theorem route_groups (mapping : SheetMapping) (reading : ImportedCharacter) (corrections : Corrections)
    (current current' : ActorSnapshot) :
    (route mapping reading corrections current).groups = (route mapping reading corrections current').groups :=
  groups_foldl _ rfl

theorem groups_declared {leaves : List Planned} {start : Routed} {declared : String}
    (h : declared ∈ (leaves.foldl (Routed.add mapping reading) start).groups) :
    declared ∈ start.groups ∨ ∃ leaf ∈ leaves, placeOf mapping leaf.path = .field declared := by
  induction leaves generalizing start with
  | nil => exact .inl h
  | cons leaf leaves ih =>
      rcases ih h with hfirst | ⟨other, hother, hplace⟩
      · unfold Routed.add at hfirst
        cases hplace : placeOf mapping leaf.path with
        | content index => rw [hplace] at hfirst; exact .inl hfirst
        | checked => rw [hplace] at hfirst; dsimp only at hfirst; split_ifs at hfirst <;> exact .inl hfirst
        | ignored => rw [hplace] at hfirst; dsimp only at hfirst; split_ifs at hfirst <;> exact .inl hfirst
        | unmapped => rw [hplace] at hfirst; exact .inl hfirst
        | field declared' =>
            rw [hplace] at hfirst
            dsimp only at hfirst
            rw [ExtTreeMap.mem_insert, Std.compare_eq_iff_eq] at hfirst
            rcases hfirst with rfl | hfirst
            · exact .inr ⟨leaf, List.mem_cons_self, hplace⟩
            · exact .inl hfirst
      · exact .inr ⟨other, List.mem_cons_of_mem _ hother, hplace⟩

theorem mem_fields_of_fieldFor {path declared target : String}
    (h : mapping.fieldFor path = some (declared, target)) : mapping.fields[declared]? = some target := by
  have hmem (fields : List (String × String)) (best : Option (String × String)) : ∀ field,
      fields.foldl (fun best field =>
        if best.all fun held => held.1.utf8ByteSize ≤ field.1.utf8ByteSize then some field else best) best =
          some field → best = some field ∨ field ∈ fields := by
    induction fields generalizing best with
    | nil => exact fun field h => .inl h
    | cons first fields ih =>
        intro field h
        rcases ih _ field h with hbest | hrest
        · dsimp only at hbest
          split_ifs at hbest
          · exact .inr (Option.some.inj hbest ▸ List.mem_cons_self)
          · exact .inl hbest
        · exact .inr (List.mem_cons_of_mem _ hrest)
  rcases hmem _ none _ h with hnone | hfield
  · exact nomatch hnone
  · exact ExtTreeMap.mem_toList_iff_getElem?_eq_some.mp (List.mem_filter.mp hfield).1

theorem sheetLeaf_of_mem {leaf : Planned} (h : leaf ∈ plannedLeaves mapping reading corrections) :
    SheetLeaf corrections leaf := by
  rcases List.mem_append.mp h with hread | hcorrected
  · obtain ⟨read, -, rfl⟩ := List.mem_map.mp hread
    unfold planned
    cases hwhole : corrections[read.path]? with
    | some whole =>
        refine ⟨fun other hother => ?_, iff_of_true rfl (by rintro ⟨⟩)⟩
        obtain rfl := Option.some.inj (hwhole.symm.trans hother)
        exact ⟨rfl, rfl⟩
    | none =>
        have hnone {whole : Json} (h : corrections[read.path]? = some whole) : False := by
          cases (hwhole.symm.trans h)
        dsimp only
        cases read.certainty with
        | read => exact ⟨fun _ h => (hnone h).elim, iff_of_true rfl (by rintro ⟨⟩)⟩
        | uncertain reason => exact ⟨fun _ h => (hnone h).elim, iff_of_false (by rintro ⟨⟩) fun h => h rfl⟩
        | unread => exact ⟨fun _ h => (hnone h).elim, iff_of_true rfl (by rintro ⟨⟩)⟩
  · obtain ⟨correction, hmem, hleaf⟩ := List.mem_filterMap.mp hcorrected
    split_ifs at hleaf
    obtain rfl := Option.some.inj hleaf
    refine ⟨fun whole hwhole => ?_, iff_of_true rfl (by rintro ⟨⟩)⟩
    have hthis := ExtTreeMap.mem_toList_iff_getElem?_eq_some.mp hmem
    obtain rfl := Option.some.inj (hthis.symm.trans hwhole)
    exact ⟨rfl, rfl⟩

/-- A group of leaves, on the declared path it lands on, with the target of that. -/
structure Lands (mapping : SheetMapping) (reading : ImportedCharacter) (corrections : Corrections)
    (declared target : String) (group : List Planned) : Prop where
  group : ∀ current, (declared, group) ∈ (route mapping reading corrections current).groups.toList
  target : mapping.fields[declared]? = some target

theorem Lands.leaves {declared target : String} {group : List Planned}
    (h : Lands mapping reading corrections declared target group) : ∀ leaf ∈ group, SheetLeaf corrections leaf := by
  intro leaf hleaf
  have hrouted := routed_foldl mapping reading (plannedLeaves mapping reading corrections)
    { plan := emptyPlan reading ⟨false, ∅, []⟩, groups := ∅, content := [] }
  rw [mem_groups hrouted (h.group ⟨false, ∅, []⟩)] at hleaf
  exact sheetLeaf_of_mem (List.mem_filter.mp hleaf).1

theorem lands_of_mem {declared : String} {group : List Planned}
    (h : (declared, group) ∈ (route mapping reading corrections current).groups.toList) :
    ∃ target, Lands mapping reading corrections declared target group := by
  have hsome := ExtTreeMap.mem_toList_iff_getElem?_eq_some.mp h
  have hmem : declared ∈ (route mapping reading corrections current).groups :=
    ExtTreeMap.mem_iff_isSome_getElem?.mpr (by rw [hsome]; rfl)
  rcases groups_declared hmem with hstart | ⟨leaf, -, hplace⟩
  · exact absurd hstart ExtTreeMap.not_mem_empty
  · obtain ⟨target, hfield⟩ := fieldFor_of_place hplace
    refine ⟨target, fun current' => ?_, mem_fields_of_fieldFor hfield⟩
    rw [route_groups mapping reading corrections current' current]
    exact h

/-- The change that a group of leaves makes at its target. -/
def changeAt (mapping : SheetMapping) (corrections : Corrections) (current : ActorSnapshot) (declared target : String)
    (group : List Planned) : FieldChange :=
  let new := groupValue corrections declared current.values[target]? group
  { path := declared, target, old := current.values[target]?
    new := if new.certainty = .unread then none else new.value
    certainty := new.certainty, reason := new.reason, source := new.source
    playState := current.isReimport && mapping.playState.contains target }

/-- A group of leaves says for sure what its target holds already. -/
def Identical (corrections : Corrections) (current : ActorSnapshot) (declared target : String)
    (group : List Planned) : Prop :=
  Sure corrections declared group ∧
    (groupValue corrections declared current.values[target]? group).value = current.values[target]?

theorem mem_fieldChange {declared target : String} {group : List Planned} (plan : ImportPlan)
    (h : Lands mapping reading corrections declared target group) {change : FieldChange} :
    change ∈ (fieldChange mapping current corrections plan (declared, group)).fields ↔
      change ∈ plan.fields ∨
        ¬Identical corrections current declared target group ∧
          change = changeAt mapping corrections current declared target group := by
  have htarget : (mapping.fields[declared]?).getD "" = target := by rw [h.target, Option.getD_some]
  unfold fieldChange Identical
  dsimp only
  rw [htarget, ← sure_iff h.leaves current.values[target]?]
  by_cases hsame : ((groupValue corrections declared current.values[target]? group).certainty = .read ∨
      (groupValue corrections declared current.values[target]? group).certainty = .corrected) ∧
        (groupValue corrections declared current.values[target]? group).value = current.values[target]?
  · rw [if_pos hsame]
    exact ⟨.inl, fun hchange => hchange.resolve_right fun hnot => hnot.1 hsame⟩
  · rw [if_neg hsame]
    show change ∈ plan.fields ++ [changeAt mapping corrections current declared target group] ↔ _
    rw [List.mem_append, List.mem_singleton]
    exact or_congr_right ((and_iff_right hsame).symm)

theorem mem_foldl_fieldChange (entries : List (String × List Planned)) (plan : ImportPlan)
    (hentries : ∀ entry ∈ entries, ∃ target, Lands mapping reading corrections entry.1 target entry.2)
    {change : FieldChange} :
    change ∈ (entries.foldl (fieldChange mapping current corrections) plan).fields ↔
      change ∈ plan.fields ∨ ∃ entry ∈ entries, ∃ target, Lands mapping reading corrections entry.1 target entry.2 ∧
        ¬Identical corrections current entry.1 target entry.2 ∧
          change = changeAt mapping corrections current entry.1 target entry.2 := by
  induction entries generalizing plan with
  | nil => simp
  | cons entry entries ih =>
      obtain ⟨hfirst, hrest⟩ := List.forall_mem_cons.mp hentries
      obtain ⟨target, hlands⟩ := hfirst
      rw [List.foldl_cons, ih _ hrest, mem_fieldChange plan hlands, or_assoc, List.exists_mem_cons_iff]
      refine or_congr_right (or_congr_left ⟨fun h => ⟨target, hlands, h⟩, ?_⟩)
      rintro ⟨target', hlands', h⟩
      obtain rfl := Option.some.inj (hlands.target.symm.trans hlands'.target)
      exact h

theorem fields_planWith : (planWith mapping none reading corrections current world).fields =
    SortBy.sortBy FieldChange.path ((route mapping reading corrections current).groups.toList.foldl
      (fieldChange mapping current corrections) (route mapping reading corrections current).plan).fields := by
  unfold planWith
  dsimp only
  generalize (route mapping reading corrections current).groups.toList.foldl _ _ = landed
  obtain ⟨content, removed, -, -, hplan⟩ := planContent_eq mapping reading corrections world current
    (route mapping reading corrections current).content landed
  rw [hplan]
  rfl

/-- The changes of a plan are those of the groups that say something new. -/
theorem mem_planned_fields {change : FieldChange} :
    change ∈ (planWith mapping none reading corrections current world).fields ↔
      ∃ declared target group, Lands mapping reading corrections declared target group ∧
        ¬Identical corrections current declared target group ∧
          change = changeAt mapping corrections current declared target group := by
  have hnone : (route mapping reading corrections current).plan.fields = [] :=
    (routed_foldl mapping reading (plannedLeaves mapping reading corrections)
      { plan := emptyPlan reading current, groups := ∅, content := [] }).rest.1
  rw [fields_planWith, SortBy.mem_sortBy, mem_foldl_fieldChange _ _ fun entry hentry => lands_of_mem hentry, hnone]
  constructor
  · rintro (hmem | ⟨entry, -, target, h⟩)
    · exact absurd hmem List.not_mem_nil
    · exact ⟨entry.1, target, entry.2, h⟩
  · rintro ⟨declared, target, group, hlands, h⟩
    exact .inr ⟨(declared, group), hlands.group current, target, hlands, h⟩

end plan

/-! ### Twice -/

/-- No two declared paths of the mapping have one target, and each target is one that the actor has. -/
structure SheetMapping.Targets (mapping : SheetMapping) : Prop where
  distinct : ∀ (declared declared' target : String), mapping.fields[declared]? = some target →
    mapping.fields[declared']? = some target → declared = declared'
  known : ∀ (declared target : String), mapping.fields[declared]? = some target → KnownTarget target

theorem targets_of_toList {mapping : SheetMapping} (hnodup : (mapping.fields.toList.map Prod.snd).Nodup)
    (hknown : ∀ field ∈ mapping.fields.toList, KnownTarget field.2) : mapping.Targets where
  distinct declared declared' target h h' := by
    have hmem := ExtTreeMap.mem_toList_iff_getElem?_eq_some.mpr h
    have hmem' := ExtTreeMap.mem_toList_iff_getElem?_eq_some.mpr h'
    exact (Prod.mk.inj (List.inj_on_of_nodup_map hnodup hmem hmem' rfl)).1
  known declared target h := hknown (declared, target) (ExtTreeMap.mem_toList_iff_getElem?_eq_some.mpr h)

/-- A target the import kept as play state. -/
def Withheld (mapping : SheetMapping) (ctx : ActorContext) (overwrite : List String) (target : String) : Prop :=
  ctx.isReimport = true ∧ target ∈ mapping.playState ∧ target ∉ overwrite

/-- A plan changes nothing for sure, but what the import before it kept as play state. -/
def ImportPlan.Quiet (again : ImportPlan) (mapping : SheetMapping) (ctx : ActorContext) (overwrite : List String) :
    Prop :=
  ∀ change ∈ again.fields, change.certainty = .read ∨ change.certainty = .corrected →
    change.playState = true ∧ Withheld mapping ctx overwrite change.target

/-- What a target is given is what it will hold: it is not cleared while the actor holds something there, the label
is given a text, and where the notes go to the target too, they are in the text already. -/
structure SettlesAt (corrections : Corrections) (notes : String) (lines : List (String × String)) (old : Option Json)
    (declared target : String) (group : List Planned) : Prop where
  cleared : Clears corrections declared group → old = none
  label : target = "actor.label" → (textOf corrections declared group).isSome
  notes : target = notes → target ≠ "actor.label" →
    notesWithUnmapped (textOf corrections declared group) lines = (textOf corrections declared group).getD ""

/-- Every declared path that is given for sure, and is not kept as play state, settles. -/
def Settles (mapping : SheetMapping) (reading : ImportedCharacter) (corrections : Corrections) (ctx : ActorContext)
    (overwrite : List String) (lines : List (String × String)) : Prop :=
  ∀ declared target group, Lands mapping reading corrections declared target group →
    Sure corrections declared group → ¬Withheld mapping ctx overwrite target →
      SettlesAt corrections mapping.notes lines ctx.snapshot.values[target]? declared target group

section twice

variable {mapping : SheetMapping} {reading : ImportedCharacter} {corrections : Corrections} {ctx : ActorContext}
  {world world' : World} {overwrite : List String} {declared target : String} {group : List Planned}

/-- What a target holds once the unmapped values are written into the notes. -/
def withNotes (notes : String) (lines : List (String × String)) (target : String) (value : Option Json) : Option Json :=
  if target = notes ∧ target ≠ "actor.label" ∧ KnownTarget target ∧
      notesWithUnmapped (value.bind asStr) lines ≠ (value.bind asStr).getD "" then
    some (.string (notesWithUnmapped (value.bind asStr) lines))
  else value

/-- The label stays as it is given exactly when it is given a text. -/
theorem label_settles (hleaves : ∀ leaf ∈ group, SheetLeaf corrections leaf) (hsure : Sure corrections declared group)
    {label : String} {stored : Option Json}
    (hstored : stored = storedAt "actor.label" (groupValue corrections declared (some (.string label)) group).value
      (some (.string label))) :
    (groupValue corrections declared stored group).value = stored ↔ (textOf corrections declared group).isSome := by
  rw [← text_eq hleaves hsure (some (.string label))]
  cases hvalue : (groupValue corrections declared (some (.string label)) group).value with
  | none =>
      have hkept : stored = some (.string label) := by rw [hstored, hvalue]; rfl
      rw [hkept, hvalue]
      exact iff_of_false nofun nofun
  | some value =>
      rw [hvalue] at hstored
      cases value with
      | string text =>
          have hgiven : stored = some (.string text) := hstored
          rw [hgiven]
          exact iff_of_true (again hleaves hvalue) rfl
      | null | bool | integer | float | array | object =>
          have hkept : stored = some (.string label) := hstored
          rw [hkept, hvalue]
          exact iff_of_false nofun nofun

/-- What a target is given stays as it is given exactly when it settles. -/
theorem settlesAt_iff (hleaves : ∀ leaf ∈ group, SheetLeaf corrections leaf) (hsure : Sure corrections declared group)
    (hknown : KnownTarget target) {old : Option Json} (hlabel : target = "actor.label" → ∃ label, old = some (.string label))
    {notes : String} {lines : List (String × String)} {stored : Option Json}
    (hstored : stored = if (groupValue corrections declared old group).value = old then old
      else storedAt target (groupValue corrections declared old group).value old) :
    (groupValue corrections declared (withNotes notes lines target stored) group).value =
        withNotes notes lines target stored ↔
      SettlesAt corrections notes lines old declared target group := by
  have hclears := clears_iff hleaves hsure
  have htext := text_eq hleaves hsure
  by_cases hactor : target = "actor.label"
  · obtain ⟨label, rfl⟩ := hlabel hactor
    have hnotes : withNotes notes lines target stored = stored := if_neg fun hall => hall.2.1 hactor
    have hsame : stored = storedAt "actor.label" (groupValue corrections declared (some (.string label)) group).value
        (some (.string label)) := by
      rw [hstored, hactor]
      split_ifs with heq
      · rw [heq]
        rfl
      · rfl
    rw [hnotes, label_settles hleaves hsure hsame]
    refine ⟨fun hsome => ⟨fun hcleared => ?_, fun _ => hsome, fun _ hne => absurd hactor hne⟩, fun h => h.label hactor⟩
    rw [← htext none, (hclears none).mpr hcleared] at hsome
    cases hsome
  · have hstored' : stored = if (groupValue corrections declared old group).value = old then old
        else some ((groupValue corrections declared old group).value.getD .null) := by
      have hdata (new : Option Json) : storedAt target new old = some (new.getD .null) := if_neg hactor
      rw [hstored, hdata]
    cases hvalue : (groupValue corrections declared old group).value with
    | none =>
        have hcleared : Clears corrections declared group := (hclears old).mp hvalue
        have hnone : textOf corrections declared group = none := by rw [← htext old, hvalue]; rfl
        rw [(hclears _).mpr hcleared]
        rw [hvalue] at hstored'
        cases old with
        | some held =>
            have hnull : stored = some .null := by rw [hstored', if_neg (by rintro ⟨⟩), Option.getD_none]
            refine iff_of_false ?_ fun h => by cases (h.cleared hcleared)
            rw [hnull, withNotes]
            split_ifs <;> rintro ⟨⟩
        | none =>
            have hstill : stored = none := by rw [hstored', if_pos rfl]
            rw [hstill, withNotes, Option.bind_none]
            split_ifs with hchanged
            · refine iff_of_false (by rintro ⟨⟩) fun h => hchanged.2.2.2 ?_
              have hnotes := h.notes hchanged.1 hactor
              rwa [hnone] at hnotes
            · refine iff_of_true rfl ⟨fun _ => rfl, fun h => absurd h hactor, fun hnotes _ => ?_⟩
              by_contra hchanged'
              rw [hnone] at hchanged'
              exact hchanged ⟨hnotes, hactor, hknown, hchanged'⟩
    | some value =>
        have hgiven : stored = some value := by
          rw [hstored', hvalue]
          split_ifs with heq
          · exact heq.symm
          · rfl
        have htext' : (some value).bind asStr = textOf corrections declared group := by rw [← hvalue, htext]
        rw [hgiven, withNotes, htext']
        split_ifs with hchanged
        · refine iff_of_false (fun heq => hchanged.2.2.2 ?_) fun h => hchanged.2.2.2 (h.notes hchanged.1 hactor)
          have hnext := htext (some (.string (notesWithUnmapped (textOf corrections declared group) lines)))
          rw [heq] at hnext
          exact (congrArg (fun text => text.getD "") hnext)
        · refine iff_of_true (again hleaves hvalue) ⟨fun hcleared => ?_, fun h => absurd h hactor, fun hnotes _ => ?_⟩
          · rw [(hclears old).mpr hcleared] at hvalue
            cases hvalue
          · by_contra hchanged'
            exact hchanged ⟨hnotes, hactor, hknown, hchanged'⟩

/-- Of what an import writes, all that is written to the target of a group is the group's change. -/
theorem mem_writes (htargets : mapping.Targets) (hlands : Lands mapping reading corrections declared target group)
    (hsure : Sure corrections declared group) (hfree : ¬Withheld mapping ctx overwrite target) {field : FieldChange} :
    field ∈ (planWith mapping none reading corrections ctx.snapshot world).writes overwrite ∧ field.target = target ↔
      ¬Identical corrections ctx.snapshot declared target group ∧
        field = changeAt mapping corrections ctx.snapshot declared target group := by
  have hcertain := (sure_iff hlands.leaves ctx.snapshot.values[target]?).mpr hsure
  unfold ImportPlan.writes
  rw [List.mem_filter, mem_planned_fields]
  constructor
  · rintro ⟨⟨⟨declared', target', group', hlands', hnew, rfl⟩, -⟩, rfl⟩
    obtain rfl := htargets.distinct declared' declared target' hlands'.target hlands.target
    have hgroup := ExtTreeMap.mem_toList_iff_getElem?_eq_some.mp (hlands.group ctx.snapshot)
    have hgroup' := ExtTreeMap.mem_toList_iff_getElem?_eq_some.mp (hlands'.group ctx.snapshot)
    obtain rfl := Option.some.inj (hgroup'.symm.trans hgroup)
    exact ⟨hnew, rfl⟩
  · rintro ⟨hnew, rfl⟩
    refine ⟨⟨⟨declared, target, group, hlands, hnew, rfl⟩, decide_eq_true ⟨?_, ?_⟩⟩, rfl⟩
    · intro hunread
      have hunread' : (groupValue corrections declared ctx.snapshot.values[target]? group).certainty = .unread := hunread
      rw [hunread'] at hcertain
      exact hcertain.elim nofun nofun
    · by_contra hkept
      obtain ⟨hplay, hnot⟩ := not_or.mp hkept
      obtain ⟨hreimport, hstate⟩ := Bool.and_eq_true_iff.mp (Bool.eq_true_of_not_eq_false hplay)
      exact hfree ⟨hreimport, List.contains_iff_mem.mp hstate, hnot⟩

/-- What the target of a group holds after the import. -/
theorem imported_at {print : Json → String} {validate : DataType → Json → Option String} {written : Written}
    (htargets : mapping.Targets)
    (hwritten : writeFields print validate mapping.notes ctx
      (planWith mapping none reading corrections ctx.snapshot world) overwrite = .ok written)
    (links : List CurrentLink) (hlands : Lands mapping reading corrections declared target group)
    (hsure : Sure corrections declared group) (hfree : ¬Withheld mapping ctx overwrite target) :
    (ctx.imported written links).snapshot.values[target]? =
      withNotes mapping.notes (noteLines print (planWith mapping none reading corrections ctx.snapshot world).unmapped)
        target
        (if (groupValue corrections declared ctx.snapshot.values[target]? group).value = ctx.snapshot.values[target]? then
          ctx.snapshot.values[target]?
        else storedAt target (groupValue corrections declared ctx.snapshot.values[target]? group).value
          ctx.snapshot.values[target]?) := by
  have hstart : ctx.start.held target = ctx.snapshot.values[target]? := (snapshot_values ctx target).symm
  have hwrites {field : FieldChange} : field ∈ (planWith mapping none reading corrections ctx.snapshot world).writes
      overwrite ∧ field.target = target ↔ ¬Identical corrections ctx.snapshot declared target group ∧
        field = changeAt mapping corrections ctx.snapshot declared target group :=
    mem_writes htargets hlands hsure hfree
  have hknown : ∀ field ∈ (planWith mapping none reading corrections ctx.snapshot world).writes overwrite,
      KnownTarget field.target := by
    intro field hfield
    obtain ⟨declared', target', group', hlands', -, rfl⟩ := mem_planned_fields.mp (List.mem_filter.mp hfield).1
    exact htargets.known declared' target' hlands'.target
  have hnew : ∀ field ∈ (planWith mapping none reading corrections ctx.snapshot world).writes overwrite,
      field.target = target →
        field.new = (groupValue corrections declared ctx.snapshot.values[target]? group).value := by
    intro field hfield htarget
    obtain ⟨-, rfl⟩ := hwrites.mp ⟨hfield, htarget⟩
    have hcertain := (sure_iff hlands.leaves ctx.snapshot.values[target]?).mpr hsure
    refine if_neg fun hunread => ?_
    rw [hunread] at hcertain
    exact hcertain.elim nofun nofun
  have hloop := held_foldl hknown hnew ctx.start
  rw [imported_values hwritten, writeFields_eq_ok hwritten, held_writeNotes, hloop, hstart]
  have hchange : (∃ field ∈ (planWith mapping none reading corrections ctx.snapshot world).writes overwrite,
      field.target = target) ↔
        ¬(groupValue corrections declared ctx.snapshot.values[target]? group).value = ctx.snapshot.values[target]? := by
    constructor
    · rintro ⟨field, hfield⟩ hsame
      exact (hwrites.mp hfield).1 ⟨hsure, hsame⟩
    · intro hdiffers
      exact ⟨_, hwrites.mpr ⟨fun hidentical => hdiffers hidentical.2, rfl⟩⟩
  rw [if_congr hchange rfl rfl, ite_not]
  rfl

/-- Importing a sheet again changes nothing, but what was kept as play state, exactly when every path settles. -/
theorem reimport_quiet_iff {print : Json → String} {validate : DataType → Json → Option String} {written : Written}
    (htargets : mapping.Targets)
    (hwritten : writeFields print validate mapping.notes ctx
      (planWith mapping none reading corrections ctx.snapshot world) overwrite = .ok written)
    (links : List CurrentLink) :
    (planWith mapping none reading corrections (ctx.imported written links).snapshot world').Quiet mapping ctx
        overwrite ↔
      Settles mapping reading corrections ctx overwrite
        (noteLines print (planWith mapping none reading corrections ctx.snapshot world).unmapped) := by
  have hsettles {declared target : String} {group : List Planned}
      (hlands : Lands mapping reading corrections declared target group) (hsure : Sure corrections declared group)
      (hfree : ¬Withheld mapping ctx overwrite target) :
      Identical corrections (ctx.imported written links).snapshot declared target group ↔
        SettlesAt corrections mapping.notes
          (noteLines print (planWith mapping none reading corrections ctx.snapshot world).unmapped)
          ctx.snapshot.values[target]? declared target group := by
    have hlabel : target = "actor.label" → ∃ label, ctx.snapshot.values[target]? = some (.string label) := by
      rintro rfl
      exact ⟨ctx.label, snapshot_values ctx "actor.label"⟩
    rw [Identical, and_iff_right hsure, imported_at htargets hwritten links hlands hsure hfree]
    exact settlesAt_iff hlands.leaves hsure (htargets.known declared target hlands.target) hlabel rfl
  constructor
  · intro h declared target group hlands hsure hfree
    rw [← hsettles hlands hsure hfree]
    by_contra hnew
    have hchange := h _ (mem_planned_fields.mpr ⟨declared, target, group, hlands, hnew, rfl⟩)
      ((sure_iff hlands.leaves _).mpr hsure)
    exact hfree hchange.2
  · intro h change hchange hcertain
    obtain ⟨declared, target, group, hlands, hnew, rfl⟩ := mem_planned_fields.mp hchange
    have hsure : Sure corrections declared group := (sure_iff hlands.leaves _).mp hcertain
    have hkept : Withheld mapping ctx overwrite target := by
      by_contra hfree
      exact hnew ((hsettles hlands hsure hfree).mpr (h declared target group hlands hsure hfree))
    exact ⟨Bool.and_eq_true_iff.mpr ⟨rfl, List.contains_iff_mem.mpr hkept.2.1⟩, hkept⟩

end twice

/-- A reading with a name and a species. -/
def ImportedCharacter.wren : ImportedCharacter where
  __ := ImportedCharacter.blank
  identity :=
    { ImportedCharacter.blank.identity with
      name := ⟨some "Wren", .read, none⟩
      species := ⟨some "elf", .read, none⟩ }

def wrenMapping : SheetMapping where
  fields := (∅ : ExtTreeMap String String).insert "identity.name" "actor.label"
    |>.insert "identity.species" "trait_data.species"
  content := ∅
  derived := []
  playState := []
  ignore := []
  notes := "trait_data.biography"

theorem wren_targets : wrenMapping.Targets := targets_of_toList (by decide +kernel) (by decide +kernel)

/-- An actor with one trait. -/
def orc : ActorContext where
  label := "New character"
  systemData
    | .traitData => some (.object [("species", .string "orc")])
    | .abilityData | .resourceData | .proficiencyData | .spellData => none
  links := []
  isReimport := false
  sorted dataType fields h := by
    cases dataType with
    | traitData => cases h; exact List.pairwise_singleton _ _
    | abilityData | resourceData | proficiencyData | spellData => exact nomatch h

/-- What is written where the validators accept everything. -/
def accepted (mapping : SheetMapping) (reading : ImportedCharacter) (corrections : Corrections) (ctx : ActorContext) :
    Written :=
  let plan := planWith mapping none reading corrections ctx.snapshot emptyWorld
  writeNotes (fun _ => "") mapping.notes plan.unmapped ((plan.writes []).foldl writeField ctx.start)

theorem accepted_eq_ok (mapping : SheetMapping) (reading : ImportedCharacter) (corrections : Corrections)
    (ctx : ActorContext) :
    writeFields (fun _ => "") (fun _ _ => none) mapping.notes ctx
      (planWith mapping none reading corrections ctx.snapshot emptyWorld) [] =
        .ok (accepted mapping reading corrections ctx) := by
  have hnone (dataTypes : List DataType) : dataTypes.findSome? (fun _ => (none : Option String)) = none :=
    List.findSome?_eq_none_iff.mpr fun _ _ => rfl
  unfold writeFields
  dsimp only [Option.map_none]
  rw [hnone]
  rfl

theorem wren_quiet : (planWith wrenMapping none .wren ∅
    (orc.imported (accepted wrenMapping .wren ∅ orc) []).snapshot emptyWorld).Quiet wrenMapping orc [] := by
  refine (reimport_quiet_iff wren_targets (accepted_eq_ok wrenMapping .wren ∅ orc) []).mpr ?_
  intro declared target group hlands _ _
  have hall : ∀ entry ∈ (route wrenMapping .wren ∅ orc.snapshot).groups.toList,
      ¬Clears ∅ entry.1 entry.2 ∧ (textOf ∅ entry.1 entry.2).isSome ∧
        wrenMapping.fields[entry.1]? ≠ some wrenMapping.notes := by decide +kernel
  obtain ⟨hheld, htext, hnotes⟩ := hall _ (hlands.group orc.snapshot)
  refine ⟨fun hcleared => absurd hcleared hheld, fun _ => htext, fun heq _ => absurd hlands.target ?_⟩
  rw [heq]
  exact hnotes

/-- A species cleared is a change at every import. -/
theorem cleared_species_changes_again : ¬∀ mapping reading corrections ctx world world' overwrite print validate
    written links, mapping.Targets →
      writeFields print validate mapping.notes ctx (planWith mapping none reading corrections ctx.snapshot world)
        overwrite = .ok written →
          (planWith mapping none reading corrections (ctx.imported written links).snapshot world').Quiet mapping ctx
            overwrite := by
  intro h
  have hquiet := h wrenMapping .wren ((∅ : Corrections).insert "identity.species" .null) orc emptyWorld emptyWorld []
    (fun _ => "") (fun _ _ => none) _ [] wren_targets (accepted_eq_ok ..)
  have hfree (target : String) : ¬Withheld wrenMapping orc [] target := fun hkept => nomatch hkept.1
  have hchange : ∃ change ∈ (planWith wrenMapping none .wren ((∅ : Corrections).insert "identity.species" .null)
      (orc.imported (accepted wrenMapping .wren ((∅ : Corrections).insert "identity.species" .null) orc)
        []).snapshot emptyWorld).fields, change.certainty = .corrected := by decide +kernel
  obtain ⟨change, hmem, hcertain⟩ := hchange
  exact hfree change.target (hquiet change hmem (.inr hcertain)).2

end ThunderForge.SheetImport
