import ThunderForge.SheetImport.Fields
import ThunderForge.SheetImport.Plan

/-! Where the content of a reading goes: the pieces of one kind and name to one change, and the pieces without a
name or a target to the notes. -/

namespace ThunderForge.SheetImport

section content

variable {mapping : SheetMapping} {reading : ImportedCharacter} {corrections : Corrections} {world : World}

def ContentChange.key (change : ContentChange) : String × String := (change.kind, change.normalised)

theorem keyed_iff {kind normalised : String} {change : ContentChange} :
    change.keyed kind normalised = true ↔ change.key = (kind, normalised) := by
  simp [ContentChange.keyed, ContentChange.key]

/-- The kind and name a piece of content is planned under; none where it is kept in the notes. -/
def slotOf (mapping : SheetMapping) (reading : ImportedCharacter) (corrections : Corrections) (world : World)
    (index : Nat) : Option (String × String) :=
  (reading.content.val[index]?).bind fun item =>
    match (renamed corrections index).or item.name.value, mapping.content[item.kind]? with
    | some name, some _ => some (item.kind, normaliseName world name)
    | _, _ => none

/-- Where a piece of content is, once it is planned. -/
def ContentPlan.Holds (plan : ContentPlan) (index : Nat) : Option (String × String) → Prop
  | none => contentPath index ∈ plan.unmapped.map Unmapped.path
  | some key => ∃ change ∈ plan.byKey, change.key = key ∧ contentPath index ∈ change.from_

/-- What holds while content is planned: one change a name, each piece in its own place. -/
structure Filed (mapping : SheetMapping) (reading : ImportedCharacter) (corrections : Corrections) (world : World)
    (indices : List Nat) (plan : ContentPlan) : Prop where
  keys : (plan.byKey.map ContentChange.key).Nodup
  changes : ∀ change ∈ plan.byKey, ∀ path ∈ change.from_,
    ∃ index, path = contentPath index ∧ slotOf mapping reading corrections world index = some change.key
  unmapped : ∀ entry ∈ plan.unmapped,
    ∃ index, entry.path = contentPath index ∧ slotOf mapping reading corrections world index = none
  holds : ∀ index ∈ indices, index < reading.content.val.length →
    plan.Holds index (slotOf mapping reading corrections world index)

/-- Changes that keep their names, and lose no path, stay where content is found. -/
theorem ContentPlan.Holds.mono {plan plan' : ContentPlan} {index : Nat} {slot : Option (String × String)}
    (h : plan.Holds index slot) (hunmapped : ∀ entry ∈ plan.unmapped, entry ∈ plan'.unmapped)
    (hchanges : ∀ change ∈ plan.byKey, ∃ change' ∈ plan'.byKey,
      change'.key = change.key ∧ ∀ path ∈ change.from_, path ∈ change'.from_) : plan'.Holds index slot := by
  cases slot with
  | none =>
      obtain ⟨entry, hentry, hpath⟩ := List.mem_map.mp h
      exact List.mem_map.mpr ⟨entry, hunmapped entry hentry, hpath⟩
  | some key =>
      obtain ⟨change, hchange, hkey, hfrom⟩ := h
      obtain ⟨change', hchange', hkey', hfrom'⟩ := hchanges change hchange
      exact ⟨change', hchange', hkey'.trans hkey, hfrom' _ hfrom⟩

theorem map_key {f : ContentChange → ContentChange} (hkey : ∀ change, (f change).key = change.key)
    (changes : List ContentChange) : (changes.map f).map ContentChange.key = changes.map ContentChange.key := by
  rw [List.map_map]
  exact List.map_congr_left fun change _ => hkey change

/-- Another piece of a name that is planned already. -/
theorem Filed.merge {indices : List Nat} {plan : ContentPlan}
    (h : Filed mapping reading corrections world indices plan) {index : Nat} {kind normalised : String}
    (hslot : slotOf mapping reading corrections world index = some (kind, normalised))
    (hkeyed : plan.byKey.any (ContentChange.keyed kind normalised)) (link : ContentLink) :
    Filed mapping reading corrections world (index :: indices)
      { plan with
        byKey := plan.byKey.map fun change =>
          if change.keyed kind normalised then
            { change with link := mergeLink change.link link, from_ := change.from_ ++ [contentPath index] }
          else change } := by
  have hkey (change : ContentChange) :
      (if change.keyed kind normalised then
        { change with link := mergeLink change.link link, from_ := change.from_ ++ [contentPath index] }
        else change).key = change.key := by
    split_ifs <;> rfl
  have hgrows (change : ContentChange) : ∀ path ∈ change.from_, path ∈
      (if change.keyed kind normalised then
        { change with link := mergeLink change.link link, from_ := change.from_ ++ [contentPath index] }
        else change).from_ := by
    intro path hpath
    split_ifs
    · exact List.mem_append_left _ hpath
    · exact hpath
  refine ⟨?_, ?_, h.unmapped, ?_⟩
  · rw [map_key hkey]
    exact h.keys
  · intro change hchange path hpath
    obtain ⟨before, hbefore, rfl⟩ := List.mem_map.mp hchange
    rw [hkey]
    split_ifs at hpath with hthis
    · rcases List.mem_append.mp hpath with hold | hnew
      · exact h.changes before hbefore path hold
      · obtain rfl := List.mem_singleton.mp hnew
        exact ⟨index, rfl, hslot.trans (congrArg some (keyed_iff.mp hthis).symm)⟩
    · exact h.changes before hbefore path hpath
  · intro other hother hlt
    rcases List.mem_cons.mp hother with rfl | hother
    · rw [hslot]
      obtain ⟨change, hchange, hthis⟩ := List.any_eq_true.mp hkeyed
      refine ⟨_, List.mem_map_of_mem hchange, (hkey change).trans (keyed_iff.mp hthis), ?_⟩
      rw [if_pos hthis]
      exact List.mem_append_right _ (List.mem_singleton_self _)
    · exact (h.holds other hother hlt).mono (fun _ hentry => hentry) fun change hchange =>
        ⟨_, List.mem_map_of_mem hchange, hkey change, hgrows change⟩

/-- The first piece of its name. -/
theorem Filed.append {indices : List Nat} {plan : ContentPlan}
    (h : Filed mapping reading corrections world indices plan) {index : Nat} {kind normalised : String}
    (hslot : slotOf mapping reading corrections world index = some (kind, normalised))
    (hkeyed : ¬plan.byKey.any (ContentChange.keyed kind normalised)) (change : ContentChange)
    (hkey : change.key = (kind, normalised)) (hfrom : change.from_ = [contentPath index]) :
    Filed mapping reading corrections world (index :: indices) { plan with byKey := plan.byKey ++ [change] } := by
  refine ⟨?_, ?_, h.unmapped, ?_⟩
  · rw [List.map_append, List.nodup_append]
    refine ⟨h.keys, List.nodup_singleton _, fun key hold key' hnew heq => hkeyed ?_⟩
    subst heq
    obtain ⟨before, hbefore, rfl⟩ := List.mem_map.mp hold
    rw [List.map_singleton, List.mem_singleton, hkey] at hnew
    exact List.any_eq_true.mpr ⟨before, hbefore, keyed_iff.mpr hnew⟩
  · intro other hother path hpath
    rcases List.mem_append.mp hother with hold | hnew
    · exact h.changes other hold path hpath
    · obtain rfl := List.mem_singleton.mp hnew
      rw [hfrom, List.mem_singleton] at hpath
      exact ⟨index, hpath, hslot.trans (congrArg some hkey.symm)⟩
  · intro other hother hlt
    rcases List.mem_cons.mp hother with rfl | hother
    · rw [hslot]
      exact ⟨change, List.mem_append_right _ (List.mem_singleton_self _), hkey, by simp [hfrom]⟩
    · exact (h.holds other hother hlt).mono (fun _ hentry => hentry) fun before hbefore =>
        ⟨before, List.mem_append_left _ hbefore, rfl, fun _ hpath => hpath⟩

theorem Filed.add {indices : List Nat} {plan : ContentPlan}
    (h : Filed mapping reading corrections world indices plan) (index : Nat) :
    Filed mapping reading corrections world (index :: indices) (plan.add mapping reading corrections world index) := by
  unfold ContentPlan.add
  cases hitem : reading.content.val[index]? with
  | none =>
      refine ⟨h.keys, h.changes, h.unmapped, fun other hother hlt => ?_⟩
      rcases List.mem_cons.mp hother with rfl | hother
      · exact absurd hlt (by simpa using hitem)
      · exact h.holds other hother hlt
  | some item =>
      have hslot : slotOf mapping reading corrections world index =
          match (renamed corrections index).or item.name.value, mapping.content[item.kind]? with
          | some name, some _ => some (item.kind, normaliseName world name)
          | _, _ => none := by
        rw [slotOf, hitem, Option.bind_some]
      have hnotes (hslot : slotOf mapping reading corrections world index = none) (entry : Unmapped)
          (hpath : entry.path = contentPath index) :
          Filed mapping reading corrections world (index :: indices)
            { plan with unmapped := plan.unmapped ++ [entry] } := by
        refine ⟨h.keys, h.changes, fun other hother => ?_, fun other hother hlt => ?_⟩
        · rcases List.mem_append.mp hother with hold | hnew
          · exact h.unmapped other hold
          · obtain rfl := List.mem_singleton.mp hnew
            exact ⟨index, hpath, hslot⟩
        · rcases List.mem_cons.mp hother with rfl | hother
          · rw [hslot]
            exact List.mem_map.mpr ⟨entry, List.mem_append_right _ (List.mem_singleton_self _), hpath⟩
          · exact (h.holds other hother hlt).mono (fun entry hentry => List.mem_append_left _ hentry)
              fun change hchange => ⟨change, hchange, rfl, fun _ hpath => hpath⟩
      dsimp only
      cases hname : (renamed corrections index).or item.name.value with
      | none =>
          rw [hname] at hslot
          exact hnotes hslot _ rfl
      | some name =>
          cases htarget : mapping.content[item.kind]? with
          | none =>
              rw [hname, htarget] at hslot
              exact hnotes hslot _ rfl
          | some target =>
              rw [hname, htarget] at hslot
              dsimp only at hslot ⊢
              by_cases hkeyed : plan.byKey.any (ContentChange.keyed item.kind (normaliseName world name))
              · rw [if_pos hkeyed]
                exact h.merge hslot hkeyed item.link
              · rw [if_neg hkeyed]
                exact h.append hslot hkeyed _ rfl rfl

/-- A link of the actor marks the change of its name, or is one that is removed. -/
theorem Filed.addLink {indices : List Nat} {plan : ContentPlan × List ContentChange}
    (h : Filed mapping reading corrections world indices plan.1) (hremoved : ∀ change ∈ plan.2, change.from_ = [])
    (link : CurrentLink) :
    Filed mapping reading corrections world indices (ContentPlan.addLink mapping world plan link).1 ∧
      ∀ change ∈ (ContentPlan.addLink mapping world plan link).2, change.from_ = [] := by
  unfold ContentPlan.addLink
  dsimp only
  by_cases hkeyed : plan.1.byKey.any (ContentChange.keyed link.kind (normaliseName world link.name))
  · rw [if_pos hkeyed]
    have hkey (change : ContentChange) :
        (if change.keyed link.kind (normaliseName world link.name) then { change with linked := true }
          else change).key = change.key := by
      split_ifs <;> rfl
    have hfrom (change : ContentChange) :
        (if change.keyed link.kind (normaliseName world link.name) then { change with linked := true }
          else change).from_ = change.from_ := by
      split_ifs <;> rfl
    refine ⟨⟨?_, ?_, h.unmapped, ?_⟩, hremoved⟩
    · rw [map_key hkey]
      exact h.keys
    · intro change hchange path hpath
      obtain ⟨before, hbefore, rfl⟩ := List.mem_map.mp hchange
      rw [hfrom] at hpath
      rw [hkey]
      exact h.changes before hbefore path hpath
    · intro index hindex hlt
      refine (h.holds index hindex hlt).mono (fun _ hentry => hentry) fun change hchange =>
        ⟨_, List.mem_map_of_mem hchange, hkey change, fun path hpath => ?_⟩
      rw [hfrom]
      exact hpath
  · rw [if_neg hkeyed]
    cases mapping.content[link.kind]? with
    | none => exact ⟨h, hremoved⟩
    | some target =>
        refine ⟨h, fun change hchange => ?_⟩
        rcases List.mem_append.mp hchange with hold | hnew
        · exact hremoved change hold
        · obtain rfl := List.mem_singleton.mp hnew
          rfl

theorem filed_foldl (indices done : List Nat) {plan : ContentPlan}
    (h : Filed mapping reading corrections world done plan) :
    Filed mapping reading corrections world (indices.reverse ++ done)
      (indices.foldl (ContentPlan.add mapping reading corrections world) plan) := by
  induction indices generalizing done plan with
  | nil => exact h
  | cons index indices ih =>
      rw [List.foldl_cons, List.reverse_cons, List.append_assoc]
      exact ih (index :: done) (h.add index)

theorem filed_links {indices : List Nat} {plan : ContentPlan × List ContentChange}
    (h : Filed mapping reading corrections world indices plan.1) (hremoved : ∀ change ∈ plan.2, change.from_ = [])
    (links : List CurrentLink) :
    Filed mapping reading corrections world indices (links.foldl (ContentPlan.addLink mapping world) plan).1 ∧
      ∀ change ∈ (links.foldl (ContentPlan.addLink mapping world) plan).2, change.from_ = [] := by
  induction links generalizing plan with
  | nil => exact ⟨h, hremoved⟩
  | cons link links ih =>
      obtain ⟨hfiled, hremoved'⟩ := h.addLink hremoved link
      exact ih hfiled hremoved'

variable (mapping reading corrections world) in
/-- Planning the content files each piece, and adds what the actor links no more. -/
theorem planContent_eq (current : ActorSnapshot) (indices : List Nat) (plan : ImportPlan) :
    ∃ content removed, Filed mapping reading corrections world indices.reverse content ∧
      (∀ change ∈ removed, change.from_ = []) ∧
        planContent mapping reading corrections current world indices plan =
          { plan with
            unmapped := plan.unmapped ++ content.unmapped
            content := plan.content ++ removed ++
              SortBy.sortBy (fun change => toLex (change.kind, change.normalised)) content.byKey } := by
  have hstart : Filed mapping reading corrections world [] { byKey := [], unmapped := [] } := by
    constructor <;> simp
  have hfiled := filed_foldl indices [] hstart
  rw [List.append_nil] at hfiled
  have hremoved : ∀ change ∈ ([] : List ContentChange), change.from_ = [] := by simp
  unfold planContent
  by_cases hreimport : current.isReimport = true
  · obtain ⟨hlinked, hremoved'⟩ : Filed mapping reading corrections world indices.reverse
        (current.links.foldl (ContentPlan.addLink mapping world)
          (indices.foldl (ContentPlan.add mapping reading corrections world) { byKey := [], unmapped := [] }, [])).1 ∧
        _ := filed_links hfiled hremoved current.links
    refine ⟨_, _, hlinked, hremoved', ?_⟩
    simp only [if_pos hreimport]
  · refine ⟨_, _, hfiled, hremoved, ?_⟩
    simp only [if_neg hreimport]

end content

end ThunderForge.SheetImport
