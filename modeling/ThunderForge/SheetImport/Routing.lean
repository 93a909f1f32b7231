import ThunderForge.SheetImport.Compose
import ThunderForge.SheetImport.Fields

/-! Where the leaves of a reading go: each to the list of its place, and those of one declared path together to
its value. -/

namespace ThunderForge.SheetImport

open Std (ExtTreeMap)

/-- What a plan writes to a declared path, or finds there already. -/
def ImportPlan.New (plan : ImportPlan) (mapping : SheetMapping) (current : ActorSnapshot) (declared : String)
    (new : Option Json) : Prop :=
  (∃ change ∈ plan.fields, change.path = declared ∧ change.new = new) ∨
    (declared ∈ plan.identical ∧ current.values[(mapping.fields[declared]?).getD ""]? = new)

/-- A value at a path is part of the new value of its declared path, unless the person gave that as a whole. -/
def PartOf (corrections : Corrections) (declared path : String) (value : Json) (new : Option Json) : Prop :=
  new.bind (valueAt (relative declared path)) = some value ∨
    (declared ≠ path ∧ ∃ whole, corrections[declared]? = some whole ∧ new = notNull whole)

section routing

variable {mapping : SheetMapping} {reading : ImportedCharacter} {corrections : Corrections}

/-- The leaves with a value that are sent to a place. -/
def Sent (mapping : SheetMapping) (place : Place) (leaves : List Planned) (path : String) : Prop :=
  placeOf mapping path = place ∧ ∃ leaf ∈ leaves, leaf.path = path ∧ leaf.value.isSome

/-- What routing the leaves has gathered. -/
structure RoutedAs (mapping : SheetMapping) (leaves : List Planned) (start routed : Routed) : Prop where
  checked : ∀ path, path ∈ routed.plan.checked ↔ path ∈ start.plan.checked ∨ Sent mapping .checked leaves path
  ignored : ∀ path, path ∈ routed.plan.ignored ↔ path ∈ start.plan.ignored ∨ Sent mapping .ignored leaves path
  unmapped : ∀ path, path ∈ routed.plan.unmapped.map Unmapped.path ↔
    path ∈ start.plan.unmapped.map Unmapped.path ∨ Sent mapping .unmapped leaves path
  groups : ∀ declared, (routed.groups[declared]?).getD [] =
    (start.groups[declared]?).getD [] ++ leaves.filter fun leaf => placeOf mapping leaf.path = .field declared
  content : ∀ index, index ∈ routed.content ↔
    index ∈ start.content ∨ ∃ leaf ∈ leaves, placeOf mapping leaf.path = .content (some index)
  rest : routed.plan.fields = start.plan.fields ∧ routed.plan.identical = start.plan.identical ∧
    routed.plan.content = start.plan.content

theorem sent_cons {place : Place} {leaf : Planned} {leaves : List Planned} {path : String} :
    Sent mapping place (leaf :: leaves) path ↔
      (leaf.path = path ∧ placeOf mapping leaf.path = place ∧ leaf.value.isSome) ∨ Sent mapping place leaves path := by
  unfold Sent
  constructor
  · rintro ⟨hplace, other, hother, rfl, hvalue⟩
    rcases List.mem_cons.mp hother with rfl | hother
    · exact Or.inl ⟨rfl, hplace, hvalue⟩
    · exact Or.inr ⟨hplace, other, hother, rfl, hvalue⟩
  · rintro (⟨rfl, hplace, hvalue⟩ | ⟨hplace, other, hother, rfl, hvalue⟩)
    · exact ⟨hplace, leaf, List.mem_cons_self .., rfl, hvalue⟩
    · exact ⟨hplace, other, List.mem_cons_of_mem _ hother, rfl, hvalue⟩

theorem routed_add (leaf : Planned) (start : Routed) :
    RoutedAs mapping [leaf] start (start.add mapping reading leaf) := by
  have hsent {place : Place} {path : String} : Sent mapping place [leaf] path ↔
      leaf.path = path ∧ placeOf mapping leaf.path = place ∧ leaf.value.isSome := by
    rw [sent_cons]
    simp [Sent]
  unfold Routed.add
  cases hplace : placeOf mapping leaf.path with
  | content index => constructor <;> simp [hsent, hplace]
  | checked =>
      by_cases hvalue : leaf.value.isSome <;> constructor <;> simp [hsent, hplace, hvalue, eq_comm]
  | ignored =>
      by_cases hvalue : leaf.value.isSome <;> constructor <;> simp [hsent, hplace, hvalue, eq_comm]
  | unmapped =>
      cases hvalue : leaf.value <;> constructor <;> simp [hsent, hplace, hvalue, unmappedLeaf, eq_comm]
  | field declared =>
      constructor
      case groups =>
        intro declared'
        by_cases hsame : declared = declared'
        · subst hsame
          simp [hplace]
        · simp [hplace, hsame, ExtTreeMap.getElem?_insert]
      all_goals simp [hsent, hplace]

theorem RoutedAs.trans {leaf : Planned} {leaves : List Planned} {start mid routed : Routed}
    (h : RoutedAs mapping [leaf] start mid) (h' : RoutedAs mapping leaves mid routed) :
    RoutedAs mapping (leaf :: leaves) start routed := by
  have hsent {place : Place} {path : String} : Sent mapping place (leaf :: leaves) path ↔
      Sent mapping place [leaf] path ∨ Sent mapping place leaves path := by
    rw [sent_cons, sent_cons]
    simp [Sent]
  refine ⟨fun path => ?_, fun path => ?_, fun path => ?_, fun declared => ?_, fun index => ?_, ?_⟩
  · rw [h'.checked, h.checked, hsent, or_assoc]
  · rw [h'.ignored, h.ignored, hsent, or_assoc]
  · rw [h'.unmapped, h.unmapped, hsent, or_assoc]
  · rw [h'.groups, h.groups, List.append_assoc, ← List.filter_append, List.singleton_append]
  · rw [h'.content, h.content, or_assoc]
    simp
  · exact ⟨h'.rest.1.trans h.rest.1, h'.rest.2.1.trans h.rest.2.1, h'.rest.2.2.trans h.rest.2.2⟩

variable (mapping reading) in
theorem routed_foldl (leaves : List Planned) (start : Routed) :
    RoutedAs mapping leaves start (leaves.foldl (Routed.add mapping reading) start) := by
  induction leaves generalizing start with
  | nil => constructor <;> simp [Sent]
  | cons leaf leaves ih => exact (routed_add leaf start).trans (ih _)

/-- The groups are the leaves by the declared path they land on. -/
theorem mem_groups {leaves : List Planned} {routed : Routed} {plan : ImportPlan}
    (h : RoutedAs mapping leaves { plan, groups := ∅, content := [] } routed) {declared : String} {group : List Planned}
    (hentry : (declared, group) ∈ routed.groups.toList) :
    group = leaves.filter fun leaf => placeOf mapping leaf.path = .field declared := by
  have hgroup := ExtTreeMap.mem_toList_iff_getElem?_eq_some.mp hentry
  have hall := h.groups declared
  rw [hgroup] at hall
  simpa using hall

theorem group_of_leaf {leaves : List Planned} {routed : Routed} {plan : ImportPlan}
    (h : RoutedAs mapping leaves { plan, groups := ∅, content := [] } routed) {leaf : Planned} (hleaf : leaf ∈ leaves)
    {declared : String} (hplace : placeOf mapping leaf.path = .field declared) :
    ∃ group, (declared, group) ∈ routed.groups.toList ∧ leaf ∈ group := by
  have hmem : leaf ∈ leaves.filter fun leaf => placeOf mapping leaf.path = .field declared :=
    List.mem_filter.mpr ⟨hleaf, by simpa using hplace⟩
  cases hgroup : routed.groups[declared]? with
  | none =>
      have hall := h.groups declared
      rw [hgroup] at hall
      simp only [Option.getD_none, ExtTreeMap.getElem?_empty, List.nil_append] at hall
      rw [← hall] at hmem
      exact absurd hmem List.not_mem_nil
  | some group =>
      have hentry := ExtTreeMap.mem_toList_iff_getElem?_eq_some.mpr hgroup
      exact ⟨group, hentry, mem_groups h hentry ▸ hmem⟩

end routing

section landing

variable {mapping : SheetMapping} {corrections : Corrections} {current : ActorSnapshot}

/-- How often the lists of a plan name a declared path. -/
def ImportPlan.named (plan : ImportPlan) (declared : String) : Nat :=
  plan.fields.countP (fun change => change.path = declared) + plan.identical.count declared

/-- What a group of leaves makes of its declared path. -/
def newOf (mapping : SheetMapping) (corrections : Corrections) (current : ActorSnapshot)
    (entry : String × List Planned) : Composed :=
  groupValue corrections entry.1 current.values[(mapping.fields[entry.1]?).getD ""]? entry.2

/-- What landing the groups has added. -/
structure LandedAs (mapping : SheetMapping) (corrections : Corrections) (current : ActorSnapshot)
    (entries : List (String × List Planned)) (before after : ImportPlan) : Prop where
  named : ∀ declared, after.named declared = before.named declared + entries.countP fun entry => entry.1 = declared
  grows : ∀ declared new, before.New mapping current declared new → after.New mapping current declared new
  new : ∀ entry ∈ entries, (newOf mapping corrections current entry).certainty ≠ .unread →
    after.New mapping current entry.1 (newOf mapping corrections current entry).value
  rest : after.checked = before.checked ∧ after.ignored = before.ignored ∧ after.unmapped = before.unmapped ∧
    after.content = before.content

theorem landed_fieldChange (plan : ImportPlan) (entry : String × List Planned) :
    LandedAs mapping corrections current [entry] plan (fieldChange mapping current corrections plan entry) := by
  obtain ⟨declared, group⟩ := entry
  have hnew : groupValue corrections declared current.values[(mapping.fields[declared]?).getD ""]? group =
      newOf mapping corrections current (declared, group) := rfl
  have hcount (declared' : String) : [(declared, group)].countP (fun entry => entry.1 = declared') =
      if declared = declared' then 1 else 0 := by
    simp [List.countP_singleton]
  unfold fieldChange
  simp only [hnew]
  by_cases hsame : ((newOf mapping corrections current (declared, group)).certainty = .read ∨
      (newOf mapping corrections current (declared, group)).certainty = .corrected) ∧
        (newOf mapping corrections current (declared, group)).value =
          current.values[(mapping.fields[declared]?).getD ""]?
  · rw [if_pos hsame]
    refine ⟨fun declared' => ?_, fun declared' new hnew' => ?_, fun entry hentry _ => ?_, rfl, rfl, rfl, rfl⟩
    · rw [hcount, ImportPlan.named, ImportPlan.named, List.count_append, List.count_singleton, Nat.add_assoc]
      simp only [beq_iff_eq]
    · exact hnew'.imp_right fun hidentical => ⟨List.mem_append_left _ hidentical.1, hidentical.2⟩
    · obtain rfl := List.mem_singleton.mp hentry
      exact Or.inr ⟨List.mem_append_right _ (List.mem_singleton_self _), hsame.2.symm⟩
  · rw [if_neg hsame]
    refine ⟨fun declared' => ?_, fun declared' new hnew' => ?_, fun entry hentry hunread => ?_, rfl, rfl, rfl, rfl⟩
    · rw [hcount, ImportPlan.named, ImportPlan.named, List.countP_append, List.countP_singleton]
      simp only [decide_eq_true_eq]
      omega
    · refine hnew'.imp_left fun hchange => ?_
      obtain ⟨change, hchange, hpath⟩ := hchange
      exact ⟨change, List.mem_append_left _ hchange, hpath⟩
    · obtain rfl := List.mem_singleton.mp hentry
      exact Or.inl ⟨_, List.mem_append_right _ (List.mem_singleton_self _), rfl, if_neg hunread⟩

theorem LandedAs.trans {entry : String × List Planned} {entries : List (String × List Planned)}
    {before mid after : ImportPlan} (h : LandedAs mapping corrections current [entry] before mid)
    (h' : LandedAs mapping corrections current entries mid after) :
    LandedAs mapping corrections current (entry :: entries) before after where
  named declared := by
    rw [h'.named, h.named, Nat.add_assoc, ← List.countP_append, List.singleton_append]
  grows declared new hnew := h'.grows declared new (h.grows declared new hnew)
  new other hother hunread := by
    rcases List.mem_cons.mp hother with rfl | hother
    · exact h'.grows _ _ (h.new other (List.mem_singleton_self _) hunread)
    · exact h'.new other hother hunread
  rest := ⟨h'.rest.1.trans h.rest.1, h'.rest.2.1.trans h.rest.2.1, h'.rest.2.2.1.trans h.rest.2.2.1,
    h'.rest.2.2.2.trans h.rest.2.2.2⟩

variable (mapping corrections current) in
theorem landed_foldl (entries : List (String × List Planned)) (plan : ImportPlan) :
    LandedAs mapping corrections current entries plan
      (entries.foldl (fieldChange mapping current corrections) plan) := by
  induction entries generalizing plan with
  | nil => exact ⟨fun _ => rfl, fun _ _ hnew => hnew, fun _ hentry => absurd hentry List.not_mem_nil, rfl, rfl, rfl, rfl⟩
  | cons entry entries ih => exact (landed_fieldChange plan entry).trans (ih _)

variable (mapping current) in
/-- A leaf's value is part of what its group makes, unless the person gave that as a whole. -/
theorem partOf_newOf {declared : String} {group : List Planned} {leaf : Planned} {Kept : Planned → Prop}
    (hleaf : leaf ∈ group) (hkept : Kept leaf) (hunread : leaf.certainty ≠ .unread) {value : Json}
    (hvalue : leaf.value = some value)
    (hwhole : ∀ whole, corrections[leaf.path]? = some whole → notNull whole = some value)
    (hapart : corrections[declared]? = none →
      (group.filter fun leaf => leaf.certainty ≠ .unread).Pairwise fun left right =>
        Kept left → Apart (relative declared left.path) (relative declared right.path)) :
    (newOf mapping corrections current (declared, group)).certainty ≠ .unread ∧
      PartOf corrections declared leaf.path value (newOf mapping corrections current (declared, group)).value := by
  have hself : valueAt (relative declared declared) value = some value := by
    simp [relative, valueAt]
  have hgroup (old : Option Json) : (wholeValue corrections declared old group).certainty ≠ .unread ∧
      PartOf corrections declared leaf.path value (wholeValue corrections declared old group).value := by
    unfold wholeValue
    cases hwhole' : corrections[declared]? with
    | none =>
        obtain ⟨hcertainty, hpart⟩ := valueAt_compose hleaf hkept hunread hvalue (hapart hwhole') old
        exact ⟨hcertainty, Or.inl hpart⟩
    | some whole =>
        refine ⟨by simp, ?_⟩
        by_cases hpath : declared = leaf.path
        · rw [← hpath]
          refine Or.inl ?_
          dsimp only
          rw [hwhole whole (hpath ▸ hwhole'), Option.bind_some, hself]
        · exact Or.inr ⟨hpath, whole, hwhole', rfl⟩
  unfold newOf groupValue
  dsimp only
  split
  case h_1 only =>
    obtain rfl := List.mem_singleton.mp hleaf
    split_ifs with hpath
    · refine ⟨hunread, Or.inl ?_⟩
      rw [hvalue, hpath, Option.bind_some, hself]
    · exact hgroup _
  case h_2 => exact hgroup _

end landing

end ThunderForge.SheetImport
