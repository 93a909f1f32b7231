import Mathlib.Data.List.Induction
import ThunderForge.Lib.Json
import ThunderForge.Lib.SortBy

/-! JSON values as trees: what stands at each place, and a value told by what stands at all of them. -/

namespace Json

/-- A step from a value into it. -/
inductive Step where
  | key (key : String)
  | index (index : Nat)
  deriving DecidableEq

def child : Step → Json → Option Json
  | .key key, node => node.get? key
  | .index index, array items => items[index]?
  | .index _, _ => none

/-- What stands at a place. -/
def lookup : List Step → Json → Option Json
  | [], node => some node
  | step :: place, node => (node.child step).bind (lookup place)

/-- A value without what is in it. -/
inductive Head where
  | null
  | bool (value : Bool)
  | integer (value : Int)
  | float (bits : BitVec 64)
  | string (text : String)
  | array (length : Nat)
  | object
  deriving DecidableEq

def head : Json → Head
  | null => .null
  | bool value => .bool value
  | integer value => .integer value
  | float bits => .float bits
  | string text => .string text
  | array items => .array items.length
  | object _ => .object

/-- What stands at a place, without what is in it. -/
def shape (place : List Step) (node : Json) : Option Head := (node.lookup place).map head

def isObject : Json → Bool
  | object _ => true
  | null | bool _ | integer _ | float _ | string _ | array _ => false

/-- Every object in the value lists its fields in key order, once each. -/
inductive Ordered : Json → Prop
  | null : Ordered null
  | bool (value : Bool) : Ordered (bool value)
  | integer (value : Int) : Ordered (integer value)
  | float (bits : BitVec 64) : Ordered (float bits)
  | string (text : String) : Ordered (string text)
  | array {items : List Json} (hitems : ∀ item ∈ items, Ordered item) : Ordered (array items)
  | object {fields : List (String × Json)} (hkeys : fields.Pairwise fun left right => left.1 < right.1)
      (hvalues : ∀ field ∈ fields, Ordered field.2) : Ordered (object fields)

/-- The fields without one of them. -/
def removeField (key : String) (fields : List (String × Json)) : List (String × Json) :=
  fields.filter fun field => field.1 ≠ key

/-! ### Fields -/

theorem get?_removeField_self (key : String) (fields : List (String × Json)) :
    (object (removeField key fields)).get? key = none := by
  rw [get?, removeField, List.find?_filter, Option.map_eq_none_iff, List.find?_eq_none]
  simp

theorem get?_removeField_of_ne {key key' : String} (hne : key' ≠ key) (fields : List (String × Json)) :
    (object (removeField key fields)).get? key' = (object fields).get? key' := by
  rw [get?, get?, removeField, List.find?_filter]
  congr 2
  funext field
  by_cases hfield : field.1 = key'
  · simp [hfield, hne]
  · simp [hfield]

theorem mem_of_get? {key : String} {fields : List (String × Json)} {value : Json}
    (h : (object fields).get? key = some value) : (key, value) ∈ fields := by
  obtain ⟨field, hfield, rfl⟩ := Option.map_eq_some_iff.mp h
  have hkey : field.1 = key := by simpa using List.find?_some hfield
  exact hkey ▸ List.mem_of_find?_eq_some hfield

theorem get?_eq_some {key : String} {fields : List (String × Json)} {value : Json}
    (hkeys : fields.Pairwise fun left right => left.1 < right.1) :
    (object fields).get? key = some value ↔ (key, value) ∈ fields := by
  refine ⟨mem_of_get?, fun hmem => ?_⟩
  induction fields with
  | nil => exact absurd hmem List.not_mem_nil
  | cons field fields ih =>
      obtain ⟨hfirst, hrest⟩ := List.pairwise_cons.mp hkeys
      rcases List.mem_cons.mp hmem with rfl | hmem
      · simp [get?]
      · have hne : field.1 ≠ key := (hfirst _ hmem).ne
        simpa [get?, hne] using ih hrest hmem

theorem mem_setField {key : String} {value : Json} {fields : List (String × Json)} {field : String × Json}
    (h : field ∈ setField key value fields) : field = (key, value) ∨ field ∈ fields := by
  induction fields with
  | nil => exact .inl (List.mem_singleton.mp h)
  | cons first fields ih =>
      unfold setField at h
      split_ifs at h
      · rcases List.mem_cons.mp h with h | h
        · exact .inl h
        · exact .inr (List.mem_cons_of_mem _ h)
      · rcases List.mem_cons.mp h with h | h
        · exact .inl h
        · exact .inr h
      · rcases List.mem_cons.mp h with h | h
        · exact .inr (h ▸ List.mem_cons_self)
        · exact (ih h).imp_right (List.mem_cons_of_mem _)

theorem pairwise_setField (key : String) (value : Json) {fields : List (String × Json)}
    (hkeys : fields.Pairwise fun left right => left.1 < right.1) :
    (setField key value fields).Pairwise fun left right => left.1 < right.1 := by
  induction fields with
  | nil => exact List.pairwise_singleton _ _
  | cons first fields ih =>
      obtain ⟨hfirst, hrest⟩ := List.pairwise_cons.mp hkeys
      unfold setField
      split_ifs with heq hlt
      · exact List.pairwise_cons.mpr ⟨fun field hfield => heq ▸ hfirst field hfield, hrest⟩
      · refine List.pairwise_cons.mpr ⟨fun field hfield => ?_, hkeys⟩
        rcases List.mem_cons.mp hfield with rfl | hfield
        · exact hlt
        · exact hlt.trans (hfirst field hfield)
      · refine List.pairwise_cons.mpr ⟨fun field hfield => ?_, ih hrest⟩
        rcases mem_setField hfield with rfl | hfield
        · exact lt_of_le_of_ne (not_lt.mp hlt) heq
        · exact hfirst field hfield

/-! ### Order -/

theorem Ordered.item {items : List Json} (h : Ordered (.array items)) {item : Json} (hitem : item ∈ items) :
    Ordered item := by
  cases h with
  | array hitems => exact hitems item hitem

theorem Ordered.keys {fields : List (String × Json)} (h : Ordered (.object fields)) :
    fields.Pairwise fun left right => left.1 < right.1 := by
  cases h with
  | object hkeys => exact hkeys

theorem Ordered.value {fields : List (String × Json)} (h : Ordered (.object fields)) {field : String × Json}
    (hfield : field ∈ fields) : Ordered field.2 := by
  cases h with
  | object _ hvalues => exact hvalues field hfield

theorem Ordered.get? {node value : Json} (h : node.Ordered) {key : String} (hvalue : node.get? key = some value) :
    value.Ordered := by
  cases node with
  | object fields => exact h.value (mem_of_get? hvalue)
  | null | bool | integer | float | string | array => exact nomatch hvalue

theorem Ordered.setField {fields : List (String × Json)} (h : Ordered (.object fields)) (key : String) {value : Json}
    (hvalue : value.Ordered) : Ordered (.object (Json.setField key value fields)) := by
  refine .object (pairwise_setField key value h.keys) fun field hfield => ?_
  rcases mem_setField hfield with rfl | hfield
  · exact hvalue
  · exact h.value hfield

theorem Ordered.removeField {fields : List (String × Json)} (h : Ordered (.object fields)) (key : String) :
    Ordered (.object (Json.removeField key fields)) :=
  .object (h.keys.filter _) fun _ hfield => h.value (List.mem_filter.mp hfield).1

theorem Ordered.child {node value : Json} (h : node.Ordered) {step : Step} (hvalue : node.child step = some value) :
    value.Ordered := by
  cases step with
  | key key => exact h.get? hvalue
  | index index =>
      cases node with
      | array items => exact h.item (List.mem_of_getElem? hvalue)
      | null | bool | integer | float | string | object => exact nomatch hvalue

theorem Ordered.lookup {node value : Json} (h : node.Ordered) {place : List Step}
    (hvalue : node.lookup place = some value) : value.Ordered := by
  induction place generalizing node with
  | nil => exact Option.some.inj hvalue ▸ h
  | cons step place ih =>
      obtain ⟨next, hnext, hrest⟩ := Option.bind_eq_some_iff.mp hvalue
      exact ih (h.child hnext) hrest

/-! ### Places -/

theorem lookup_append (place rest : List Step) (node : Json) :
    node.lookup (place ++ rest) = (node.lookup place).bind (lookup rest) := by
  induction place generalizing node with
  | nil => rfl
  | cons step place ih =>
      rw [List.cons_append, lookup, lookup, Option.bind_assoc]
      congr 1
      funext next
      exact ih next

theorem shape_cons (step : Step) (place : List Step) (node : Json) :
    node.shape (step :: place) = (node.child step).bind (shape place) := by
  rw [shape, lookup, Option.map_bind]
  rfl

theorem shape_append (place rest : List Step) (node : Json) :
    node.shape (place ++ rest) = (node.lookup place).bind (shape rest) := by
  rw [shape, lookup_append, Option.map_bind]
  rfl

theorem shape_object_congr {fields fields' : List (String × Json)} {place : List Step}
    (h : ∀ key, place.head? = some (.key key) → (object fields).get? key = (object fields').get? key) :
    (object fields).shape place = (object fields').shape place := by
  cases place with
  | nil => rfl
  | cons step place =>
      rw [shape_cons, shape_cons]
      cases step with
      | key key => rw [child, child, h key rfl]
      | index index => rfl

theorem shape_setField_self (key : String) (value : Json) (fields : List (String × Json)) (place : List Step) :
    (object (setField key value fields)).shape (.key key :: place) = value.shape place := by
  rw [shape_cons, child, get?_setField_self, Option.bind_some]

theorem shape_setField_of_ne {key : String} (value : Json) (fields : List (String × Json)) {place : List Step}
    (h : place.head? ≠ some (.key key)) :
    (object (setField key value fields)).shape place = (object fields).shape place :=
  shape_object_congr fun key' hkey' =>
    get?_setField_of_ne (fun heq => h (by rw [hkey', heq])) value fields

theorem shape_removeField_self (key : String) (fields : List (String × Json)) (place : List Step) :
    (object (removeField key fields)).shape (.key key :: place) = none := by
  rw [shape_cons, child, get?_removeField_self, Option.bind_none]

theorem shape_removeField_of_ne {key : String} (fields : List (String × Json)) {place : List Step}
    (h : place.head? ≠ some (.key key)) :
    (object (removeField key fields)).shape place = (object fields).shape place :=
  shape_object_congr fun key' hkey' => get?_removeField_of_ne (fun heq => h (by rw [hkey', heq])) fields

theorem shape_nil (node : Json) : node.shape [] = some node.head := rfl

/-- What has a field is an object. -/
theorem shape_of_concat {place : List Step} {key : String} {node : Json}
    (h : (node.shape (place ++ [.key key])).isSome) : node.shape place = some .object := by
  obtain ⟨head, hhead⟩ := Option.isSome_iff_exists.mp h
  rw [shape_append] at hhead
  obtain ⟨parent, hparent, hfield⟩ := Option.bind_eq_some_iff.mp hhead
  rw [shape, hparent, Option.map_some]
  cases parent with
  | object fields => rfl
  | null | bool | integer | float | string | array => exact nomatch hfield

theorem shape_isSome_of_prefix {place place' : List Step} (hfront : place <+: place') {node : Json}
    (h : (node.shape place').isSome) : (node.shape place).isSome := by
  obtain ⟨rest, rfl⟩ := hfront
  rw [shape_append] at h
  rw [shape, Option.isSome_map]
  exact Option.isSome_of_isSome_bind h

/-- Values are equal when the same stands at every place of both. -/
theorem eq_of_shape {left right : Json} (hleft : left.Ordered) (hright : right.Ordered)
    (h : ∀ place, left.shape place = right.shape place) : left = right := by
  have hhead : left.head = right.head := Option.some.inj (h [])
  induction hleft generalizing right with
  | null | bool | integer | float | string => cases right <;> simp_all [head]
  | @array items hitems ih =>
      cases right with
      | array items' =>
          refine congrArg Json.array (List.ext_getElem (Head.array.inj hhead) fun index hl hr => ?_)
          have hchild (place : List Step) : shape place items[index] = shape place items'[index] := by
            have hplace := h (.index index :: place)
            rw [shape_cons, shape_cons, child, child, List.getElem?_eq_getElem hl, List.getElem?_eq_getElem hr]
              at hplace
            exact hplace
          exact ih _ (List.getElem_mem hl) (hright.item (List.getElem_mem hr)) hchild (Option.some.inj (hchild []))
      | null | bool | integer | float | string | object => exact nomatch hhead
  | @object fields hkeys hvalues ih =>
      cases right with
      | object fields' =>
          have hget (key : String) : (object fields).get? key = (object fields').get? key := by
            have hchild (place : List Step) := h (.key key :: place)
            simp only [shape_cons, child] at hchild
            cases hl : (object fields).get? key with
            | none =>
                cases hr : (object fields').get? key with
                | none => rfl
                | some value => simpa [hl, hr, shape, lookup] using hchild []
            | some value =>
                cases hr : (object fields').get? key with
                | none => simpa [hl, hr, shape, lookup] using hchild []
                | some value' =>
                    simp only [hl, hr, Option.bind_some] at hchild
                    exact congrArg some (ih _ (mem_of_get? hl) (hright.get? hr) hchild (Option.some.inj (hchild [])))
          refine congrArg Json.object (SortBy.eq_of_pairwise_lt hkeys hright.keys fun field => ?_)
          rw [← get?_eq_some hkeys, ← get?_eq_some hright.keys, hget]
      | null | bool | integer | float | string | array => exact nomatch hhead

/-- What stands at a place is told by what stands there and below. -/
theorem lookup_eq_of_shape {left right : Json} (hleft : left.Ordered) (hright : right.Ordered) {place : List Step}
    (h : ∀ rest, left.shape (place ++ rest) = right.shape (place ++ rest)) :
    left.lookup place = right.lookup place := by
  simp only [shape_append] at h
  cases hl : left.lookup place with
  | none =>
      cases hr : right.lookup place with
      | none => rfl
      | some value => simpa [hl, hr, shape_nil] using h []
  | some value =>
      cases hr : right.lookup place with
      | none => simpa [hl, hr, shape_nil] using h []
      | some value' =>
          simp only [hl, hr, Option.bind_some] at h
          rw [eq_of_shape (hleft.lookup hl) (hright.lookup hr) h]

/-! ### Writing at a place -/

def Step.isKey : Step → Bool
  | key _ => true
  | index _ => false

/-- The places part at two fields of one object, or at two elements of one list. -/
def Beside : List Step → List Step → Prop
  | step :: place, step' :: place' => if step = step' then Beside place place' else step.isKey = step'.isKey
  | _, _ => False

/-- The places part at a field and an element: no value has both. -/
def Clash : List Step → List Step → Prop
  | step :: place, step' :: place' => if step = step' then Clash place place' else step.isKey ≠ step'.isKey
  | _, _ => False

def entries : Json → List (String × Json)
  | object fields => fields
  | null | bool _ | integer _ | float _ | string _ | array _ => []

def elements : Json → List Json
  | array items => items
  | null | bool _ | integer _ | float _ | string _ | object _ => []

/-- The value with another at a place. What is on the way and is no object or list, as the place asks for, is
replaced by one. -/
def write : List Step → Json → Json → Json
  | [], _, value => value
  | .index index :: place, node, value =>
    let items := node.elements ++ List.replicate (index + 1 - node.elements.length) null
    array (items.set index (write place (items[index]?.getD null) value))
  | .key key :: place, node, value =>
    object (setField key (write place ((node.get? key).getD null) value) node.entries)

theorem beside_or_clash (left right : List Step) :
    left <+: right ∨ right <+: left ∨ Beside left right ∨ Clash left right := by
  induction left generalizing right with
  | nil => exact .inl (List.nil_prefix)
  | cons step left ih =>
      cases right with
      | nil => exact .inr (.inl List.nil_prefix)
      | cons step' right =>
          unfold Beside Clash
          by_cases hstep : step = step'
          · subst hstep
            simpa [List.cons_prefix_cons] using ih right
          · rw [if_neg hstep, if_neg hstep]
            exact .inr (.inr (em _))

theorem Clash.symm {left right : List Step} (h : Clash left right) : Clash right left := by
  induction left generalizing right with
  | nil => exact h.elim
  | cons step left ih =>
      cases right with
      | nil => exact h.elim
      | cons step' right =>
          unfold Clash at h ⊢
          by_cases hstep : step = step'
          · rw [if_pos hstep] at h
            rw [if_pos hstep.symm]
            exact ih h
          · rw [if_neg hstep] at h
            rw [if_neg (Ne.symm hstep)]
            exact h.symm

theorem child_index (index : Nat) (node : Json) : node.child (.index index) = node.elements[index]? := by
  cases node <;> rfl

theorem child_write (step : Step) (place : List Step) (node value : Json) :
    (write (step :: place) node value).child step = some (write place ((node.child step).getD null) value) := by
  cases step with
  | key key => exact get?_setField_self ..
  | index index =>
      have hlt : index < (node.elements ++ List.replicate (index + 1 - node.elements.length) null).length := by
        rw [List.length_append, List.length_replicate]
        omega
      have hpadded : ((node.elements ++ List.replicate (index + 1 - node.elements.length) null)[index]?).getD null =
          (node.elements[index]?).getD null := by
        by_cases hhas : index < node.elements.length
        · rw [List.getElem?_append_left hhas]
        · rw [List.getElem?_append_right (not_lt.mp hhas), List.getElem?_replicate,
            List.getElem?_eq_none (not_lt.mp hhas)]
          split_ifs <;> rfl
      rw [child_index, child_index, ← hpadded]
      exact List.getElem?_set_self hlt

/-- Beside what is written, what is there stays. -/
theorem child_write_of_ne {step step' : Step} (hne : step ≠ step') (hkind : step.isKey = step'.isKey)
    {node held : Json} (place : List Step) (value : Json) (hheld : node.child step' = some held) :
    (write (step :: place) node value).child step' = some held := by
  cases step with
  | key key =>
      cases step' with
      | index => exact nomatch hkind
      | key key' =>
          cases node with
          | object fields =>
              have hkey : key' ≠ key := fun heq => hne (by rw [heq])
              exact (get?_setField_of_ne hkey _ fields).trans hheld
          | null | bool | integer | float | string | array => exact nomatch hheld
  | index index =>
      cases step' with
      | key => exact nomatch hkind
      | index index' =>
          have hindex : index ≠ index' := fun heq => hne (by rw [heq])
          rw [child_index] at hheld ⊢
          have hlt : index' < node.elements.length := (List.getElem?_eq_some_iff.mp hheld).1
          show (List.set _ _ _)[index']? = some held
          rw [List.getElem?_set_ne hindex, List.getElem?_append_left hlt]
          exact hheld

theorem lookup_write_append (place rest : List Step) (node value : Json) :
    (write place node value).lookup (place ++ rest) = value.lookup rest := by
  induction place generalizing node with
  | nil => rfl
  | cons step place ih => rw [List.cons_append, lookup, child_write, Option.bind_some, ih]

theorem lookup_write_beside {place place' : List Step} (h : Beside place place') {node held : Json} (value : Json)
    (hheld : node.lookup place' = some held) : (write place node value).lookup place' = some held := by
  induction place generalizing place' node with
  | nil => exact h.elim
  | cons step place ih =>
      cases place' with
      | nil => exact h.elim
      | cons step' place' =>
          unfold Beside at h
          obtain ⟨next, hnext, hrest⟩ := Option.bind_eq_some_iff.mp hheld
          rw [lookup]
          split_ifs at h with hstep
          · subst hstep
            rw [child_write, hnext, Option.bind_some]
            exact ih h hrest
          · rw [child_write_of_ne hstep h place value hnext]
            exact hrest

theorem not_clash {place place' : List Step} {node : Json} (h : (node.lookup place).isSome)
    (h' : (node.lookup place').isSome) : ¬Clash place place' := by
  induction place generalizing place' node with
  | nil => exact id
  | cons step place ih =>
      cases place' with
      | nil => exact id
      | cons step' place' =>
          obtain ⟨held, hheld⟩ := Option.isSome_iff_exists.mp h
          obtain ⟨held', hheld'⟩ := Option.isSome_iff_exists.mp h'
          obtain ⟨next, hnext, hrest⟩ := Option.bind_eq_some_iff.mp hheld
          obtain ⟨next', hnext', hrest'⟩ := Option.bind_eq_some_iff.mp hheld'
          unfold Clash
          split_ifs with hstep
          · subst hstep
            obtain rfl := Option.some.inj (hnext.symm.trans hnext')
            exact ih (Option.isSome_of_eq_some hrest) (Option.isSome_of_eq_some hrest')
          · cases step <;> cases step' <;> cases node <;> simp_all [child, Json.get?, Step.isKey]

/-- What is written within a value changes the value there. -/
theorem lookup_write_above (place rest : List Step) {node held : Json} (value : Json)
    (hheld : node.lookup place = some held) :
    (write (place ++ rest) node value).lookup place = some (write rest held value) := by
  induction place generalizing node with
  | nil => rw [← Option.some.inj hheld]; rfl
  | cons step place ih =>
      obtain ⟨next, hnext, hrest⟩ := Option.bind_eq_some_iff.mp hheld
      rw [List.cons_append, lookup, child_write, hnext, Option.bind_some, Option.getD_some, ih hrest]

theorem setField_same {key : String} {value : Json} {fields : List (String × Json)}
    (hkeys : fields.Pairwise fun left right => left.1 < right.1) (h : (key, value) ∈ fields) :
    setField key value fields = fields := by
  induction fields with
  | nil => exact absurd h List.not_mem_nil
  | cons field fields ih =>
      obtain ⟨hfirst, hrest⟩ := List.pairwise_cons.mp hkeys
      unfold setField
      rcases List.mem_cons.mp h with rfl | h
      · rw [if_pos rfl]
      · have hlt := hfirst _ h
        rw [if_neg hlt.ne, if_neg hlt.asymm, ih hrest h]

/-- To write what is there already changes nothing. -/
theorem write_same {place : List Step} {node value : Json} (hordered : node.Ordered)
    (h : node.lookup place = some value) : write place node value = node := by
  induction place generalizing node with
  | nil => exact (Option.some.inj h).symm
  | cons step place ih =>
      obtain ⟨next, hnext, hrest⟩ := Option.bind_eq_some_iff.mp h
      have hsame := ih (hordered.child hnext) hrest
      cases step with
      | key key =>
          cases node with
          | object fields =>
              rw [child] at hnext
              rw [write, hnext, Option.getD_some, hsame]
              exact congrArg object (setField_same hordered.keys (mem_of_get? hnext))
          | null | bool | integer | float | string | array => exact nomatch hnext
      | index index =>
          cases node with
          | array items =>
              obtain ⟨hlt, hnext⟩ := List.getElem?_eq_some_iff.mp hnext
              have hpad : index + 1 - items.length = 0 := by omega
              rw [write, elements, hpad, List.replicate_zero, List.append_nil, List.getElem?_eq_getElem hlt, hnext,
                Option.getD_some, hsame, ← hnext, List.set_getElem_self]
          | null | bool | integer | float | string | object => exact nomatch hnext

/-- Several values written, each at its place, in order. -/
def writeAll (writes : List (List Step × Json)) (node : Json) : Json :=
  writes.foldl (fun node entry => write entry.1 node entry.2) node

/-- One value has both, each at its place: the places do not clash, and where one is within the other, so is
the value. -/
structure Compatible (left right : List Step × Json) : Prop where
  noClash : ¬Clash left.1 right.1
  within : ∀ rest, right.1 = left.1 ++ rest → left.2.lookup rest = some right.2
  around : ∀ rest, left.1 = right.1 ++ rest → right.2.lookup rest = some left.2

theorem compatible_of_lookup {node : Json} {left right : List Step × Json}
    (hleft : node.lookup left.1 = some left.2) (hright : node.lookup right.1 = some right.2) :
    Compatible left right where
  noClash := not_clash (Option.isSome_of_eq_some hleft) (Option.isSome_of_eq_some hright)
  within rest hrest := by rw [← hright, hrest, lookup_append, hleft, Option.bind_some]
  around rest hrest := by rw [← hleft, hrest, lookup_append, hright, Option.bind_some]

/-- What was written stays when what is compatible with it is written after. -/
theorem lookup_write_of_compatible {left right : List Step × Json} (h : Compatible left right)
    (hordered : left.2.Ordered) {node : Json} (hleft : node.lookup left.1 = some left.2) :
    (write right.1 node right.2).lookup left.1 = some left.2 := by
  rcases beside_or_clash right.1 left.1 with ⟨rest, hrest⟩ | ⟨rest, hrest⟩ | hbeside | hclash
  · rw [← hrest, lookup_write_append, h.around rest hrest.symm]
  · rw [← hrest, lookup_write_above left.1 rest right.2 hleft, write_same hordered (h.within rest hrest.symm)]
  · exact lookup_write_beside hbeside right.2 hleft
  · exact absurd hclash.symm h.noClash

/-- Values written are all there in the end exactly when any two of them are compatible. -/
theorem lookup_writeAll_iff {writes : List (List Step × Json)} (hordered : ∀ entry ∈ writes, entry.2.Ordered)
    (node : Json) : (∀ entry ∈ writes, (writeAll writes node).lookup entry.1 = some entry.2) ↔
      writes.Pairwise Compatible := by
  constructor
  · intro h
    exact List.pairwise_of_forall_mem_list fun left hleft right hright =>
      compatible_of_lookup (h left hleft) (h right hright)
  · intro h
    induction writes using List.reverseRecOn with
    | nil => exact fun _ hmem => absurd hmem List.not_mem_nil
    | append_singleton writes last ih =>
        obtain ⟨hbefore, -, hlast⟩ := List.pairwise_append.mp h
        have hstood := ih (fun entry hentry => hordered entry (List.mem_append_left _ hentry)) hbefore
        intro entry hentry
        rw [writeAll, List.foldl_append]
        rcases List.mem_append.mp hentry with hentry | hentry
        · exact lookup_write_of_compatible (hlast entry hentry last (List.mem_singleton.mpr rfl))
            (hordered entry (List.mem_append_left _ hentry)) (hstood entry hentry)
        · obtain rfl := List.mem_singleton.mp hentry
          have hself := lookup_write_append entry.1 [] (writeAll writes node) entry.2
          rwa [List.append_nil] at hself

/-- What all that is written is beside of stays. -/
theorem lookup_writeAll_beside {writes : List (List Step × Json)} {place : List Step}
    (hbeside : ∀ entry ∈ writes, Beside entry.1 place) {node held : Json} (hheld : node.lookup place = some held) :
    (writeAll writes node).lookup place = some held := by
  induction writes generalizing node with
  | nil => exact hheld
  | cons entry writes ih =>
      obtain ⟨hfirst, hrest⟩ := List.forall_mem_cons.mp hbeside
      exact ih hrest (lookup_write_beside hfirst entry.2 hheld)

end Json
