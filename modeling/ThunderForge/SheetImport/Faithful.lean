import ThunderForge.Lib.JsonTree
import ThunderForge.SheetImport.Accounting

/-! Leaves composed into one value, as a whole: when each stands in it, and what of the old value stays. -/

namespace ThunderForge.SheetImport

open Json (Step)

/-- Where a segment steps to: an element where it reads as a number, else a field. -/
def stepOf (segment : String) : Step :=
  match parseUsize segment with
  | some index => .index index
  | none => .key segment

theorem setPath_eq_write (path : List String) (node value : Json) :
    setPath path node value = Json.write (path.map stepOf) node value := by
  induction path generalizing node with
  | nil => rfl
  | cons first rest ih =>
      unfold setPath
      rw [List.map_cons, stepOf]
      cases parseUsize first with
      | some index =>
          dsimp only
          rw [ih]
          cases node <;> rfl
      | none =>
          dsimp only
          rw [ih]
          cases node <;> rfl

/-- Where a leaf lands below its declared path. -/
def placeIn (declared : String) (leaf : Planned) : List Step := (relative declared leaf.path).map stepOf

/-- What a leaf lands as. -/
def landing (leaf : Planned) : Json := leaf.value.getD .null

/-- The leaves of a group that were read. -/
def toldOf (group : List Planned) : List Planned := group.filter fun leaf => leaf.certainty ≠ .unread

/-- Whether a group is composed as a list. -/
def composesList (declared : String) (group : List Planned) : Bool :=
  (group.head?.bind fun leaf => (relative declared leaf.path).head?).any fun first => (parseUsize first).isSome

/-- A place as the path of a leaf names it: a key that reads as a number is an element. -/
def asNamed : Step → Step
  | .key key => stepOf key
  | .index index => .index index

/-- A place is neither above nor below where a leaf that was read lands. -/
def Untouched (declared : String) (group : List Planned) (place : List Step) : Prop :=
  ∀ leaf ∈ toldOf group, ¬place.map asNamed <+: placeIn declared leaf ∧
    ¬placeIn declared leaf <+: place.map asNamed

/-- Each leaf that was read stands at its own place in the value composed, and an object that is composed into
keeps what is neither above nor below any of them. -/
structure ComposedFaithfully (declared : String) (group : List Planned) (old : Option Json) : Prop where
  stands : ∀ leaf ∈ group, leaf.certainty ≠ .unread →
    (compose declared group old).value.bind (Json.lookup (placeIn declared leaf)) = some (landing leaf)
  keeps : ∀ value fields, (compose declared group old).value = some value → old = some (.object fields) →
    composesList declared group = false → ∀ place held, (Json.object fields).lookup place = some held →
      Untouched declared group place → value.lookup place = some held

/-- The leaves that were read fit into one value, and none of them needs an object where the old value has a
list, or a list where it has an object, that holds what none of them touches. -/
structure FitTogether (declared : String) (group : List Planned) (old : Option Json) : Prop where
  together : (toldOf group).Pairwise fun left right =>
    Json.Compatible (placeIn declared left, landing left) (placeIn declared right, landing right)
  withOld : ∀ fields, old = some (.object fields) → composesList declared group = false →
    ∀ place, ((Json.object fields).lookup place).isSome → Untouched declared group place →
      ∀ leaf ∈ toldOf group, ¬Json.Clash (placeIn declared leaf) place

variable {declared : String} {group : List Planned} {old : Option Json}

/-- What a group writes. -/
def writesOf (declared : String) (group : List Planned) : List (List Step × Json) :=
  (toldOf group).map fun leaf => (placeIn declared leaf, landing leaf)

/-- What a group is written into. -/
def startOf (declared : String) (group : List Planned) (old : Option Json) : Json :=
  match composesList declared group, old with
  | false, some (.object fields) => .object fields
  | false, _ => .object []
  | true, _ => .array []

theorem compose_value (h : toldOf group ≠ []) : (compose declared group old).value =
    some (Json.writeAll (writesOf declared group) (startOf declared group old)) := by
  rw [writesOf, Json.writeAll, List.foldl_map]
  unfold toldOf at h ⊢
  unfold compose
  dsimp only
  rw [if_neg h]
  simp only [setPath_eq_write]
  rfl

theorem compose_untold (h : toldOf group = []) : (compose declared group old).value = none := by
  unfold toldOf at h
  unfold compose
  dsimp only
  rw [if_pos h]

theorem asNamed_stepOf (segment : String) : asNamed (stepOf segment) = stepOf segment := by
  unfold stepOf
  cases hindex : parseUsize segment with
  | some index => rfl
  | none => rw [asNamed, stepOf, hindex]

theorem map_asNamed_placeIn (declared : String) (leaf : Planned) :
    (placeIn declared leaf).map asNamed = placeIn declared leaf := by
  rw [placeIn, List.map_map]
  exact List.map_congr_left fun segment _ => asNamed_stepOf segment

/-- What no leaf touches parts from where each lands. -/
theorem Untouched.beside {place : List Step} (h : Untouched declared group place) {leaf : Planned}
    (hleaf : leaf ∈ toldOf group) (hclash : ¬Json.Clash (placeIn declared leaf) place) :
    Json.Beside (placeIn declared leaf) place := by
  obtain ⟨habove, hbelow⟩ := h leaf hleaf
  rcases Json.beside_or_clash (placeIn declared leaf) place with hfront | hfront | hbeside | hclash'
  · refine absurd ?_ hbelow
    rw [← map_asNamed_placeIn]
    exact hfront.map asNamed
  · refine absurd ?_ habove
    rw [← map_asNamed_placeIn]
    exact hfront.map asNamed
  · exact hbeside
  · exact absurd hclash' hclash

/-- Leaves are composed faithfully exactly when they fit together, with one another and with the old value. -/
theorem composed_faithfully_iff
    (hordered : ∀ leaf ∈ group, ∀ value, leaf.value = some value → value.Ordered) :
    ComposedFaithfully declared group old ↔ FitTogether declared group old := by
  have hlanding : ∀ entry ∈ writesOf declared group, entry.2.Ordered := by
    intro entry hentry
    obtain ⟨leaf, hleaf, rfl⟩ := List.mem_map.mp hentry
    show (leaf.value.getD .null).Ordered
    cases hvalue : leaf.value with
    | none => exact .null
    | some value => exact hordered leaf (List.mem_filter.mp hleaf).1 value hvalue
  have hwrites (node : Json) : (∀ leaf ∈ toldOf group, (Json.writeAll (writesOf declared group) node).lookup
      (placeIn declared leaf) = some (landing leaf)) ↔
        (toldOf group).Pairwise fun left right =>
          Json.Compatible (placeIn declared left, landing left) (placeIn declared right, landing right) := by
    rw [← List.pairwise_map, ← writesOf, ← Json.lookup_writeAll_iff hlanding node, writesOf, List.forall_mem_map]
  by_cases htold : toldOf group = []
  · have hnone : (compose declared group old).value = none := compose_untold htold
    constructor
    · intro _
      exact ⟨htold ▸ .nil, fun _ _ _ _ _ _ leaf hleaf => absurd hleaf (htold ▸ List.not_mem_nil)⟩
    · intro _
      refine ⟨fun leaf hleaf hread => ?_, fun value _ hvalue => absurd (hnone.symm.trans hvalue) (by rintro ⟨⟩)⟩
      have hmem : leaf ∈ toldOf group := List.mem_filter.mpr ⟨hleaf, decide_eq_true hread⟩
      exact absurd (htold ▸ hmem) List.not_mem_nil
  · have hvalue : (compose declared group old).value = some
        (Json.writeAll (writesOf declared group) (startOf declared group old)) := compose_value htold
    constructor
    · intro h
      have hstands : ∀ leaf ∈ toldOf group, (Json.writeAll (writesOf declared group)
          (startOf declared group old)).lookup (placeIn declared leaf) = some (landing leaf) := by
        intro leaf hleaf
        obtain ⟨hleaf, hread⟩ := List.mem_filter.mp hleaf
        have hstand := h.stands leaf hleaf (of_decide_eq_true hread)
        rwa [hvalue] at hstand
      refine ⟨(hwrites _).mp hstands, fun fields hold hlist place hplace huntouched leaf hleaf => ?_⟩
      obtain ⟨held, hheld⟩ := Option.isSome_iff_exists.mp hplace
      have hkept := h.keeps _ fields hvalue hold hlist place held hheld huntouched
      exact Json.not_clash (Option.isSome_of_eq_some (hstands leaf hleaf)) (Option.isSome_of_eq_some hkept)
    · intro h
      constructor
      · intro leaf hleaf hread
        rw [hvalue]
        exact (hwrites _).mpr h.together leaf (List.mem_filter.mpr ⟨hleaf, decide_eq_true hread⟩)
      · intro value fields hvalue' hold hlist place held hheld huntouched
        have hstart : startOf declared group old = .object fields := by
          unfold startOf
          rw [hlist, hold]
        obtain rfl := Option.some.inj (hvalue.symm.trans hvalue')
        rw [hstart]
        refine Json.lookup_writeAll_beside (fun entry hentry => ?_) hheld
        obtain ⟨leaf, hleaf, rfl⟩ := List.mem_map.mp hentry
        apply huntouched.beside hleaf
        exact h.withOld fields hold hlist place (Option.isSome_of_eq_some hheld) huntouched leaf hleaf

/-- A wizard's spell slots, those of the second level left unread. -/
def wizardSlots : List Planned :=
  [⟨"spellcasting.0.slots.first", some (.integer 2), .read, none, none⟩,
    ⟨"spellcasting.0.slots.second", none, .unread, none, none⟩]

/-- The wizard's slots of the second level stay as the actor has them. -/
theorem wizard_slots_composed : ComposedFaithfully "spellcasting.0.slots" wizardSlots
    (some (.object [("first", .integer 4), ("second", .integer 1)])) := by
  have hordered : ∀ leaf ∈ wizardSlots, ∀ value, leaf.value = some value → value.Ordered := by
    intro leaf hleaf value hvalue
    rcases List.mem_pair.mp hleaf with rfl | rfl
    · exact Option.some.inj hvalue ▸ .integer 2
    · exact nomatch hvalue
  have htold : toldOf wizardSlots = [⟨"spellcasting.0.slots.first", some (.integer 2), .read, none, none⟩] := rfl
  have hplace : placeIn "spellcasting.0.slots" ⟨"spellcasting.0.slots.first", some (.integer 2), .read, none, none⟩ =
      [.key "first"] := by decide +kernel
  refine (composed_faithfully_iff hordered).mpr ⟨by rw [htold]; exact List.pairwise_singleton _ _, ?_⟩
  rintro fields ⟨⟩ - place hplaced - leaf hleaf hclash
  rw [htold, List.mem_singleton] at hleaf
  subst hleaf
  have hfirst : (Json.object [("first", .integer 4), ("second", .integer 1)]).lookup [.key "first"] =
      some (.integer 4) := rfl
  rw [hplace] at hclash
  exact Json.not_clash (Option.isSome_of_eq_some hfirst) hplaced hclash

/-- A casting whose slots are of the first level and of a pact. -/
def ImportedCharacter.warlock : ImportedCharacter where
  __ := ImportedCharacter.blank
  spellcasting :=
    [{ classField := .unread, ability := .unread, saveDc := .unread, attackBonus := .unread
       slots := (∅ : FieldMap Int).insert "1" ⟨some 4, .read, none⟩ |>.insert "pact" ⟨some 2, .read, none⟩
       pactSlots := none }]

/-- The slots of the first level are lost to those of the pact. -/
theorem pact_slots_replace : ¬∀ (reading : ImportedCharacter) declared old, ComposedFaithfully declared
    ((reading.leaves.filter fun leaf => covers declared leaf.path).map (planned ∅)) old := by
  intro h
  have hstands := (h .warlock "spellcasting.0.slots" none).stands
    (planned ∅ ⟨"spellcasting.0.slots.1", some (.integer 4), .read, none⟩)
    (List.mem_map_of_mem (by decide +kernel)) (by decide +kernel)
  exact absurd hstands (by decide +kernel)

end ThunderForge.SheetImport
