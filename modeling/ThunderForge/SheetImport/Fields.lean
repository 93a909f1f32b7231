import Mathlib.Data.List.Nodup
import ThunderForge.SheetImport.Character

/-! The fields of a reading by their structure, each with a path of its own. Walking the serialised reading finds
exactly these where no map has both the keys by which a field is recognised. -/

namespace ThunderForge.SheetImport

mutual

/-- The fields of a part, each with its neutral path. -/
def Node.fields (path : String) : Node → List (String × Field FieldValue)
  | .field field => [(path, field)]
  | .object entries => entriesFields (path ++ ".") entries
  | .array items => itemsFields (path ++ ".") 0 items
  | .absent => []

def entriesFields (front : String) : List (String × Node) → List (String × Field FieldValue)
  | [] => []
  | (key, node) :: entries => node.fields (front ++ key) ++ entriesFields front entries

def itemsFields (front : String) (index : Nat) : List Node → List (String × Field FieldValue)
  | [] => []
  | node :: items => node.fields (front ++ toString index) ++ itemsFields front (index + 1) items

end

/-- The fields of a reading, apart from those of its content and notes. -/
def ImportedCharacter.fields (reading : ImportedCharacter) : List (String × Field FieldValue) :=
  entriesFields "" reading.parts

/-- A field that was read, with a value. -/
def Field.Told {α : Type} (field : Field α) : Prop := field.certainty ≠ .unread ∧ field.value.isSome

/-- Keys that do not make an object look like a field. -/
def PlainKeys (keys : List String) : Prop := ¬("certainty" ∈ keys ∧ "value" ∈ keys)

instance (keys : List String) : Decidable (PlainKeys keys) := inferInstanceAs (Decidable (¬_))

/-- A map that does not look like a field, or that has nothing read in it. -/
def PlainMap {α : Type} (map : FieldMap α) : Prop :=
  PlainKeys map.keys ∨ ∀ entry ∈ map.toList, ¬entry.2.Told

/-- No map of a reading looks like a field and has something read in it. -/
structure ImportedCharacter.PlainMaps (reading : ImportedCharacter) : Prop where
  abilities : PlainMap reading.abilities
  derived : PlainMap reading.derived
  senses : PlainMap reading.movement.senses
  speeds : PlainMap reading.movement.speeds
  persona : PlainMap reading.persona
  saves : PlainMap reading.proficiencies.saves
  skills : PlainMap reading.proficiencies.skills
  coins : PlainMap reading.resources.coins
  slots : ∀ casting ∈ reading.spellcasting, PlainMap casting.slots

mutual

/-- No object of a part looks like a field and has something read in it. -/
def Node.Plain : Node → Prop
  | .field _ | .absent => True
  | .object entries =>
      (PlainKeys (entries.map Prod.fst) ∨ ∀ front, ∀ entry ∈ entriesFields front entries, ¬entry.2.Told) ∧
        EntriesPlain entries
  | .array items => ItemsPlain items

def EntriesPlain : List (String × Node) → Prop
  | [] => True
  | (_, node) :: entries => node.Plain ∧ EntriesPlain entries

def ItemsPlain : List Node → Prop
  | [] => True
  | node :: items => node.Plain ∧ ItemsPlain items

end

mutual

/-- Where a part has parts, its keys hold no dot; each key is there once. -/
def Node.Tidy : Node → Prop
  | .field _ | .absent => True
  | .object entries => (entries.map Prod.fst).Nodup ∧
      ((∀ entry ∈ entries, '.' ∉ entry.1.toList) ∨ ∀ entry ∈ entries, ∃ field, entry.2 = .field field) ∧
        EntriesTidy entries
  | .array items => ItemsTidy items

def EntriesTidy : List (String × Node) → Prop
  | [] => True
  | (_, node) :: entries => node.Tidy ∧ EntriesTidy entries

def ItemsTidy : List Node → Prop
  | [] => True
  | node :: items => node.Tidy ∧ ItemsTidy items

end

theorem entriesPlain_iff {entries : List (String × Node)} :
    EntriesPlain entries ↔ ∀ entry ∈ entries, entry.2.Plain := by
  induction entries with
  | nil => simp [EntriesPlain]
  | cons entry entries ih => simp [EntriesPlain, ih]

theorem itemsPlain_iff {items : List Node} : ItemsPlain items ↔ ∀ node ∈ items, node.Plain := by
  induction items with
  | nil => simp [ItemsPlain]
  | cons node items ih => simp [ItemsPlain, ih]

theorem entriesTidy_iff {entries : List (String × Node)} :
    EntriesTidy entries ↔ ∀ entry ∈ entries, entry.2.Tidy := by
  induction entries with
  | nil => simp [EntriesTidy]
  | cons entry entries ih => simp [EntriesTidy, ih]

theorem itemsTidy_iff {items : List Node} : ItemsTidy items ↔ ∀ node ∈ items, node.Tidy := by
  induction items with
  | nil => simp [ItemsTidy]
  | cons node items ih => simp [ItemsTidy, ih]

/-- The leaf of a field. -/
def fieldLeaf (entry : String × Field FieldValue) : Leaf where
  path := entry.1
  value := entry.2.value.map FieldValue.toValue
  certainty := entry.2.certainty
  source := (entry.2.source.map Source.toValue).bind readSource

theorem FieldValue.toValue_ne_null (value : FieldValue) : value.toValue ≠ .null := by
  cases value with
  | mark value => cases value <;> simp [FieldValue.toValue, SkillMark.toValue]
  | text | integer | flag | texts => simp [FieldValue.toValue]

theorem readCertainty_toValue (certainty : Certainty) : readCertainty certainty.toValue = some certainty := by
  cases certainty <;> simp [Certainty.toValue, readCertainty, Json.get?]

theorem isField_toValue (field : Field FieldValue) : isField field.toValue = true := by
  simp [Field.toValue, isField]

theorem leafOf_toValue (path : String) (field : Field FieldValue) : leafOf path field.toValue = fieldLeaf (path, field) := by
  have hvalue : (field.toValue.get? "value").filter (fun value => value ≠ .null) =
      field.value.map FieldValue.toValue := by
    cases hfield : field.value with
    | none => simp [Field.toValue, Json.get?, hfield]
    | some value => simp [Field.toValue, Json.get?, hfield, FieldValue.toValue_ne_null]
  have hcertainty : (readCertainty ((field.toValue.get? "certainty").getD .null)).getD .unread = field.certainty := by
    simp [Field.toValue, Json.get?, readCertainty_toValue]
  have hsource : (field.toValue.get? "source").bind readSource =
      (field.source.map Source.toValue).bind readSource := by
    cases hfield : field.source with
    | none => simp [Field.toValue, Json.get?, hfield, readSource]
    | some source => simp [Field.toValue, Json.get?, hfield]
  unfold leafOf fieldLeaf
  rw [hvalue, hcertainty, hsource]

theorem isField_object {fields : List (String × Json)} (h : PlainKeys (fields.map Prod.fst)) :
    isField (.object fields) = false := by
  rw [isField, Bool.eq_false_iff]
  intro hfield
  rw [Bool.and_eq_true, List.any_eq_true, List.any_eq_true] at hfield
  obtain ⟨⟨entry, hentry, hkey⟩, entry', hentry', hkey'⟩ := hfield
  exact h ⟨List.mem_map.mpr ⟨entry, hentry, of_decide_eq_true hkey⟩,
    List.mem_map.mpr ⟨entry', hentry', of_decide_eq_true hkey'⟩⟩

theorem keys_entriesToValue (entries : List (String × Node)) :
    (entriesToValue entries).map Prod.fst = entries.map Prod.fst := by
  induction entries with
  | nil => rfl
  | cons entry entries ih => rw [entriesToValue, List.map_cons, List.map_cons, ih]

mutual

/-- Walking a serialised part finds each field that was read. -/
theorem mem_walk (path : String) : ∀ node : Node, node.Plain → ∀ {entry : String × Field FieldValue},
    entry ∈ node.fields path → entry.2.Told → fieldLeaf entry ∈ walk path node.toValue
  | .field field, _, entry, h, _ => by
    have hfield := isField_toValue field
    rw [Node.fields, List.mem_singleton] at h
    subst h
    rw [Node.toValue, ← leafOf_toValue]
    unfold Field.toValue at hfield ⊢
    rw [walk, if_pos hfield]
    exact List.mem_singleton_self _
  | .object entries, hplain, entry, h, htold => by
    rw [Node.fields] at h
    have hkeys : PlainKeys (entries.map Prod.fst) :=
      hplain.1.resolve_right fun huntold => huntold _ entry h htold
    have hobject : isField (.object (entriesToValue entries)) = false := by
      refine isField_object ?_
      rw [keys_entriesToValue]
      exact hkeys
    rw [Node.toValue, walk, if_neg (by rw [hobject]; exact Bool.false_ne_true)]
    exact mem_walkFields path entries hplain.2 h htold
  | .array items, hplain, entry, h, htold => by
    rw [Node.fields] at h
    rw [Node.toValue, walk]
    exact mem_walkItems path 0 items hplain h htold
  | .absent, _, entry, h, _ => by
    rw [Node.fields] at h
    exact absurd h List.not_mem_nil

theorem mem_walkFields (path : String) :
    ∀ entries : List (String × Node), EntriesPlain entries → ∀ {entry : String × Field FieldValue},
      entry ∈ entriesFields (path ++ ".") entries → entry.2.Told →
        fieldLeaf entry ∈ walkFields path (entriesToValue entries)
  | [], _, entry, h, _ => by
    rw [entriesFields] at h
    exact absurd h List.not_mem_nil
  | (key, node) :: entries, hplain, entry, h, htold => by
    rw [entriesFields, List.mem_append] at h
    rw [entriesToValue, walkFields, List.mem_append]
    exact h.imp (fun h => mem_walk (path ++ "." ++ key) node hplain.1 h htold)
      fun h => mem_walkFields path entries hplain.2 h htold

theorem mem_walkItems (path : String) (index : Nat) :
    ∀ items : List Node, ItemsPlain items → ∀ {entry : String × Field FieldValue},
      entry ∈ itemsFields (path ++ ".") index items → entry.2.Told →
        fieldLeaf entry ∈ walkItems path index (itemsToValue items)
  | [], _, entry, h, _ => by
    rw [itemsFields] at h
    exact absurd h List.not_mem_nil
  | node :: items, hplain, entry, h, htold => by
    rw [itemsFields, List.mem_append] at h
    rw [itemsToValue, walkItems, List.mem_append]
    exact h.imp (fun h => mem_walk (path ++ "." ++ toString index) node hplain.1 h htold)
      fun h => mem_walkItems path (index + 1) items hplain.2 h htold

end

/-! Each field has a path of its own. -/

/-- What follows a part's path in the paths of its fields. -/
def IsTail (tail : List Char) : Prop := tail = [] ∨ ∃ rest, tail = '.' :: rest

mutual

theorem Node.fields_path (path : String) : ∀ (node : Node) {entry : String × Field FieldValue},
    entry ∈ node.fields path → ∃ tail, entry.1.toList = path.toList ++ tail ∧ IsTail tail
  | .field field, entry, h => by
    rw [Node.fields, List.mem_singleton] at h
    subst h
    exact ⟨[], by simp, Or.inl rfl⟩
  | .object entries, entry, h => by
    rw [Node.fields] at h
    obtain ⟨key, -, tail, hpath, -⟩ := entriesFields_path (path ++ ".") entries h
    exact ⟨'.' :: (key.toList ++ tail), by simpa using hpath, Or.inr ⟨_, rfl⟩⟩
  | .array items, entry, h => by
    rw [Node.fields] at h
    obtain ⟨i, -, tail, hpath, -⟩ := itemsFields_path (path ++ ".") 0 items h
    exact ⟨'.' :: ((toString i).toList ++ tail), by simpa using hpath, Or.inr ⟨_, rfl⟩⟩
  | .absent, entry, h => by
    rw [Node.fields] at h
    exact absurd h List.not_mem_nil

theorem entriesFields_path (front : String) : ∀ (entries : List (String × Node)) {entry : String × Field FieldValue},
    entry ∈ entriesFields front entries → ∃ key ∈ entries.map Prod.fst, ∃ tail,
      entry.1.toList = front.toList ++ (key.toList ++ tail) ∧ IsTail tail ∧
        ((∀ entry ∈ entries, ∃ field, entry.2 = .field field) → tail = [])
  | [], entry, h => by
    rw [entriesFields] at h
    exact absurd h List.not_mem_nil
  | (key, node) :: entries, entry, h => by
    rw [entriesFields, List.mem_append] at h
    rcases h with h | h
    · obtain ⟨tail, hpath, htail⟩ := node.fields_path (front ++ key) h
      refine ⟨key, by simp, tail, by simpa using hpath, htail, fun hfields => ?_⟩
      obtain ⟨field, rfl⟩ : ∃ field, node = .field field := hfields (key, node) (List.mem_cons_self ..)
      rw [Node.fields, List.mem_singleton] at h
      subst h
      simpa using hpath
    · obtain ⟨key', hkey', tail, hpath, htail, hfields⟩ := entriesFields_path front entries h
      exact ⟨key', List.mem_cons_of_mem _ hkey', tail, hpath, htail,
        fun hall => hfields fun entry hentry => hall entry (List.mem_cons_of_mem _ hentry)⟩

theorem itemsFields_path (front : String) (index : Nat) :
    ∀ (items : List Node) {entry : String × Field FieldValue}, entry ∈ itemsFields front index items →
      ∃ i ≥ index, ∃ tail, entry.1.toList = front.toList ++ ((toString i).toList ++ tail) ∧ IsTail tail
  | [], entry, h => by
    rw [itemsFields] at h
    exact absurd h List.not_mem_nil
  | node :: items, entry, h => by
    rw [itemsFields, List.mem_append] at h
    rcases h with h | h
    · obtain ⟨tail, hpath, htail⟩ := node.fields_path (front ++ toString index) h
      exact ⟨index, le_rfl, tail, by simpa using hpath, htail⟩
    · obtain ⟨i, hi, tail, hpath, htail⟩ := itemsFields_path front (index + 1) items h
      exact ⟨i, by omega, tail, hpath, htail⟩

end

/-- A text before a dot is told from what follows it. -/
theorem eq_of_append_tail {text text' tail tail' : List Char} (hdot : '.' ∉ text) (hdot' : '.' ∉ text')
    (htail : IsTail tail) (htail' : IsTail tail') (h : text ++ tail = text' ++ tail') : text = text' := by
  have hbefore {text tail : List Char} (hdot : '.' ∉ text) (htail : IsTail tail) :
      (text ++ tail).takeWhile (· ≠ '.') = text := by
    rw [List.takeWhile_append_of_pos (by simpa using fun c hc => ne_of_mem_of_not_mem hc hdot)]
    rcases htail with rfl | ⟨rest, rfl⟩ <;> simp
  calc
    text = (text ++ tail).takeWhile (· ≠ '.') := (hbefore hdot htail).symm
    _ = (text' ++ tail').takeWhile (· ≠ '.') := by rw [h]
    _ = text' := hbefore hdot' htail'

theorem toList_toString (n : Nat) : (toString n).toList = Nat.toDigits 10 n := Nat.toList_repr

theorem dot_notMem_toString (n : Nat) : '.' ∉ (toString n).toList := by
  rw [toList_toString]
  intro hdot
  exact absurd (Nat.isDigit_of_mem_toDigits (by decide) (by decide) hdot) (by decide)

theorem toString_inj {m n : Nat} (h : (toString m).toList = (toString n).toList) : m = n := by
  rw [toList_toString, toList_toString] at h
  calc
    m = Nat.ofDigitChars 10 (Nat.toDigits 10 m) 0 := Nat.ofDigitChars_ten_toDigits.symm
    _ = n := by rw [h, Nat.ofDigitChars_ten_toDigits]

/-- Parts under different keys have no path in common. -/
theorem key_eq_of_path {entries : List (String × Node)} {key key' : String} {tail tail' : List Char}
    (htidy : (∀ entry ∈ entries, '.' ∉ entry.1.toList) ∨ ∀ entry ∈ entries, ∃ field, entry.2 = .field field)
    (hkey : key ∈ entries.map Prod.fst) (hkey' : key' ∈ entries.map Prod.fst) (htail : IsTail tail)
    (htail' : IsTail tail') (hfields : (∀ entry ∈ entries, ∃ field, entry.2 = .field field) → tail = [] ∧ tail' = [])
    (h : key.toList ++ tail = key'.toList ++ tail') : key = key' := by
  rcases htidy with hdots | hall
  · have hdot {key : String} (hkey : key ∈ entries.map Prod.fst) : '.' ∉ key.toList := by
      obtain ⟨entry, hentry, rfl⟩ := List.mem_map.mp hkey
      exact hdots entry hentry
    exact String.toList_inj.mp (eq_of_append_tail (hdot hkey) (hdot hkey') htail htail' h)
  · obtain ⟨rfl, rfl⟩ := hfields hall
    exact String.toList_inj.mp (by simpa using h)

mutual

theorem Node.nodup_fields (path : String) : ∀ node : Node, node.Tidy → ((node.fields path).map Prod.fst).Nodup
  | .field field, _ => by
    rw [Node.fields, List.map_singleton]
    exact List.nodup_singleton _
  | .object entries, h => by
    rw [Node.fields]
    exact nodup_entriesFields (path ++ ".") entries h.1 h.2.1 h.2.2
  | .array items, h => by
    rw [Node.fields]
    exact nodup_itemsFields (path ++ ".") 0 items h
  | .absent, _ => by
    rw [Node.fields]
    exact List.nodup_nil

theorem nodup_entriesFields (front : String) : ∀ entries : List (String × Node), (entries.map Prod.fst).Nodup →
    ((∀ entry ∈ entries, '.' ∉ entry.1.toList) ∨ ∀ entry ∈ entries, ∃ field, entry.2 = .field field) →
      EntriesTidy entries → ((entriesFields front entries).map Prod.fst).Nodup
  | [], _, _, _ => by
    rw [entriesFields]
    exact List.nodup_nil
  | (key, node) :: entries, hkeys, hdots, htidy => by
    rw [List.map_cons, List.nodup_cons] at hkeys
    have hdots' : (∀ entry ∈ entries, '.' ∉ entry.1.toList) ∨ ∀ entry ∈ entries, ∃ field, entry.2 = .field field :=
      hdots.imp (fun h entry hentry => h entry (List.mem_cons_of_mem _ hentry))
        fun h entry hentry => h entry (List.mem_cons_of_mem _ hentry)
    rw [entriesFields, List.map_append, List.nodup_append]
    refine ⟨node.nodup_fields (front ++ key) htidy.1, nodup_entriesFields front entries hkeys.2 hdots' htidy.2, ?_⟩
    intro path hpath path' hpath' heq
    subst heq
    obtain ⟨entry, hentry, rfl⟩ := List.mem_map.mp hpath
    obtain ⟨entry', hentry', hsame⟩ := List.mem_map.mp hpath'
    obtain ⟨tail, hshape, htail⟩ := node.fields_path (front ++ key) hentry
    obtain ⟨key', hkey', tail', hshape', htail', hfields'⟩ := entriesFields_path front entries hentry'
    have heq : key = key' := by
      refine key_eq_of_path hdots (by simp) (List.mem_cons_of_mem _ hkey') htail htail' (fun hall => ⟨?_, ?_⟩) ?_
      · obtain ⟨field, rfl⟩ : ∃ field, node = .field field := hall (key, node) (List.mem_cons_self ..)
        rw [Node.fields, List.mem_singleton] at hentry
        subst hentry
        simpa using hshape
      · exact hfields' fun entry hentry => hall entry (List.mem_cons_of_mem _ hentry)
      · rw [hsame, hshape] at hshape'
        simpa using hshape'
    exact hkeys.1 (heq ▸ hkey')

theorem nodup_itemsFields (front : String) (index : Nat) :
    ∀ items : List Node, ItemsTidy items → ((itemsFields front index items).map Prod.fst).Nodup
  | [], _ => by
    rw [itemsFields]
    exact List.nodup_nil
  | node :: items, htidy => by
    rw [itemsFields, List.map_append, List.nodup_append]
    refine ⟨node.nodup_fields (front ++ toString index) htidy.1, nodup_itemsFields front (index + 1) items htidy.2, ?_⟩
    intro path hpath path' hpath' heq
    subst heq
    obtain ⟨entry, hentry, rfl⟩ := List.mem_map.mp hpath
    obtain ⟨entry', hentry', hsame⟩ := List.mem_map.mp hpath'
    obtain ⟨tail, hshape, htail⟩ := node.fields_path (front ++ toString index) hentry
    obtain ⟨i, hi, tail', hshape', htail'⟩ := itemsFields_path front (index + 1) items hentry'
    rw [hsame, hshape] at hshape'
    have heq := eq_of_append_tail (dot_notMem_toString index) (dot_notMem_toString i) htail htail'
      (by simpa using hshape')
    have := toString_inj heq
    omega

end

section reading

variable {reading : ImportedCharacter}

theorem mapNode_keys {α : Type} (encode : α → FieldValue) (map : FieldMap α) :
    (map.toList.map fun entry => (entry.1, Node.field (entry.2.map encode))).map Prod.fst = map.keys := by
  rw [List.map_map, ← Std.ExtTreeMap.map_fst_toList_eq_keys]
  rfl

theorem mapNode_tidy {α : Type} (encode : α → FieldValue) (map : FieldMap α) : (mapNode encode map).Tidy := by
  have hfields : ∀ entry ∈ map.toList.map fun entry => (entry.1, Node.field (entry.2.map encode)),
      ∃ field, entry.2 = .field field := by
    intro entry hentry
    obtain ⟨entry', -, rfl⟩ := List.mem_map.mp hentry
    exact ⟨_, rfl⟩
  refine ⟨?_, Or.inr hfields, entriesTidy_iff.mpr fun entry hentry => ?_⟩
  · rw [mapNode_keys]
    exact Std.ExtTreeMap.nodup_keys
  · obtain ⟨field, hfield⟩ := hfields entry hentry
    rw [hfield]
    trivial

theorem mem_mapFields {α : Type} {encode : α → FieldValue} {entries : List (String × Field α)} {front : String}
    {entry : String × Field FieldValue}
    (h : entry ∈ entriesFields front (entries.map fun entry => (entry.1, .field (entry.2.map encode)))) :
    ∃ read ∈ entries, entry = (front ++ read.1, read.2.map encode) := by
  induction entries with
  | nil => exact absurd h List.not_mem_nil
  | cons read entries ih =>
      rw [List.map_cons, entriesFields, Node.fields, List.singleton_append, List.mem_cons] at h
      rcases h with rfl | h
      · exact ⟨read, List.mem_cons_self .., rfl⟩
      · obtain ⟨other, hother, heq⟩ := ih h
        exact ⟨other, List.mem_cons_of_mem _ hother, heq⟩

theorem mapNode_plain {α : Type} (encode : α → FieldValue) {map : FieldMap α} (h : PlainMap map) :
    (mapNode encode map).Plain := by
  refine ⟨?_, entriesPlain_iff.mpr fun entry hentry => ?_⟩
  · rw [mapNode_keys]
    refine h.imp id fun huntold front entry hentry htold => ?_
    obtain ⟨read, hread, rfl⟩ := mem_mapFields hentry
    refine huntold read hread ⟨htold.1, ?_⟩
    simpa [Field.map] using htold.2
  · obtain ⟨entry', -, rfl⟩ := List.mem_map.mp hentry
    trivial

/-- The names of a reading's parts hold no dot. -/
theorem parts_tidy (reading : ImportedCharacter) : EntriesTidy reading.parts := by
  have hclass (level : ClassLevel) : level.node.Tidy := by
    refine ⟨by simp, Or.inl (by simp), ?_⟩
    simp [EntriesTidy, Node.Tidy, textNode, integerNode]
  have hdice (dice : HitDice) : dice.node.Tidy := by
    refine ⟨by simp, Or.inl (by simp), ?_⟩
    simp [EntriesTidy, Node.Tidy, integerNode]
  have hcasting (casting : Spellcasting) : casting.node.Tidy := by
    have hpact : ((casting.pactSlots.map PactSlots.node).getD .absent).Tidy := by
      cases casting.pactSlots with
      | none => trivial
      | some slots =>
          refine ⟨by simp, Or.inl (by simp), ?_⟩
          simp [EntriesTidy, Node.Tidy, integerNode]
    refine ⟨by simp, Or.inl (by simp), ?_⟩
    simp [EntriesTidy, Node.Tidy, textNode, integerNode, hpact, mapNode_tidy]
  simp [ImportedCharacter.parts, EntriesTidy, mapNode_tidy, Node.Tidy, itemsTidy_iff, hclass, hcasting,
    Defences.node, Identity.node, Movement.node, Proficiencies.node, Resources.node, DeathSaves.node, textNode,
    integerNode, flagNode, textsNode, hdice]

/-- Only a map can look like a field. -/
theorem parts_plain (h : reading.PlainMaps) : EntriesPlain reading.parts := by
  have hclass (level : ClassLevel) : level.node.Plain := by
    simp [ClassLevel.node, Node.Plain, EntriesPlain, PlainKeys, textNode, integerNode]
  have hdice (dice : HitDice) : dice.node.Plain := by
    simp [HitDice.node, Node.Plain, EntriesPlain, PlainKeys, integerNode]
  have hcasting : ∀ casting ∈ reading.spellcasting, casting.node.Plain := by
    intro casting hcasting
    have hslots : (mapNode FieldValue.integer casting.slots).Plain := mapNode_plain _ (h.slots casting hcasting)
    have hpact : ((casting.pactSlots.map PactSlots.node).getD .absent).Plain := by
      cases casting.pactSlots with
      | none => trivial
      | some slots => simp [PactSlots.node, Node.Plain, EntriesPlain, PlainKeys, integerNode]
    simp [Spellcasting.node, Node.Plain, EntriesPlain, PlainKeys, textNode, integerNode, hpact, hslots]
  have hdefences : reading.defences.node.Plain := by
    simp [Defences.node, Node.Plain, EntriesPlain, PlainKeys, textsNode, integerNode]
  have hidentity : reading.identity.node.Plain := by
    simp [Identity.node, Node.Plain, EntriesPlain, PlainKeys, textNode, integerNode]
  have hmovement : reading.movement.node.Plain := by
    simp [Movement.node, Node.Plain, EntriesPlain, PlainKeys, mapNode_plain _ h.senses, mapNode_plain _ h.speeds]
  have hproficiencies : reading.proficiencies.node.Plain := by
    simp [Proficiencies.node, Node.Plain, EntriesPlain, PlainKeys, textsNode, mapNode_plain _ h.saves,
      mapNode_plain _ h.skills]
  have hsavesNode : reading.resources.deathSaves.node.Plain := by
    simp [DeathSaves.node, Node.Plain, EntriesPlain, PlainKeys, integerNode]
  have hresources : reading.resources.node.Plain := by
    simp [Resources.node, Node.Plain, EntriesPlain, PlainKeys, integerNode, flagNode, mapNode_plain _ h.coins,
      hsavesNode, hdice, itemsPlain_iff]
  exact ⟨mapNode_plain _ h.abilities, itemsPlain_iff.mpr (by simp [hclass]), hdefences, mapNode_plain _ h.derived,
    hidentity, hmovement, mapNode_plain _ h.persona, hproficiencies, hresources,
    itemsPlain_iff.mpr (by simpa using hcasting), trivial⟩

theorem leaves_eq (reading : ImportedCharacter) : reading.leaves =
    walk "abilities" (mapNode .integer reading.abilities).toValue ++
      (walk "classes" (Node.array (reading.classes.map ClassLevel.node)).toValue ++
      (reading.contentLeaves ++ (walk "defences" reading.defences.node.toValue ++
      (walk "derived" (mapNode .integer reading.derived).toValue ++
      (walk "identity" reading.identity.node.toValue ++ (walk "movement" reading.movement.node.toValue ++
      (reading.noteLeaves ++ (walk "persona" (mapNode .text reading.persona).toValue ++
      (walk "proficiencies" reading.proficiencies.node.toValue ++
      (walk "resources" reading.resources.node.toValue ++
      walk "spellcasting" (Node.array (reading.spellcasting.map Spellcasting.node)).toValue)))))))))) := by
  simp [ImportedCharacter.leaves, ImportedCharacter.toValue]

/-- Each field that was read has its leaf where no map looks like a field. -/
theorem fieldLeaf_mem (h : reading.PlainMaps) {entry : String × Field FieldValue} (hentry : entry ∈ reading.fields)
    (htold : entry.2.Told) : fieldLeaf entry ∈ reading.leaves := by
  obtain ⟨habilities, hclasses, hdefences, hderived, hidentity, hmovement, hpersona, hproficiencies, hresources,
    hcasting, -⟩ := parts_plain h
  have hwalk {key : String} {node : Node} (hplain : node.Plain) (hmem : entry ∈ node.fields key) :
      fieldLeaf entry ∈ walk key node.toValue := mem_walk key node hplain hmem htold
  simp only [ImportedCharacter.fields, ImportedCharacter.parts, entriesFields, String.empty_append, List.append_nil,
    List.mem_append] at hentry
  simp only [leaves_eq, List.mem_append]
  rcases hentry with h | h | h | h | h | h | h | h | h | h
  · exact Or.inl (hwalk habilities h)
  · exact Or.inr (Or.inl (hwalk hclasses h))
  · exact Or.inr (Or.inr (Or.inr (Or.inl (hwalk hdefences h))))
  · simp only [hwalk hderived h, true_or, or_true]
  · simp only [hwalk hidentity h, true_or, or_true]
  · simp only [hwalk hmovement h, true_or, or_true]
  · simp only [hwalk hpersona h, true_or, or_true]
  · simp only [hwalk hproficiencies h, true_or, or_true]
  · simp only [hwalk hresources h, true_or, or_true]
  · simp only [hwalk hcasting h, or_true]

theorem contentLeaf_mem {leaf : Leaf} (h : leaf ∈ reading.contentLeaves) : leaf ∈ reading.leaves := by
  simp only [leaves_eq, List.mem_append, h, true_or, or_true]

theorem noteLeaf_mem {leaf : Leaf} (h : leaf ∈ reading.noteLeaves) : leaf ∈ reading.leaves := by
  simp only [leaves_eq, List.mem_append, h, true_or, or_true]

/-- A path under a name without a dot. -/
def Under (name path : String) : Prop := ∃ tail, path.toList = name.toList ++ tail ∧ IsTail tail

theorem Under.eq {name name' path : String} (h : Under name path) (h' : Under name' path)
    (hdot : '.' ∉ name.toList) (hdot' : '.' ∉ name'.toList) : name = name' := by
  obtain ⟨tail, hpath, htail⟩ := h
  obtain ⟨tail', hpath', htail'⟩ := h'
  exact String.toList_inj.mp (eq_of_append_tail hdot hdot' htail htail' (hpath.symm.trans hpath'))

theorem under_contentPath (index : Nat) : Under "content" (contentPath index) :=
  ⟨'.' :: (toString index).toList, by simp [contentPath], Or.inr ⟨_, rfl⟩⟩

theorem under_notePath (index : Nat) : Under "notes" (notePath index) :=
  ⟨'.' :: (toString index).toList, by simp [notePath], Or.inr ⟨_, rfl⟩⟩

theorem contentPath_inj {i j : Nat} (h : contentPath i = contentPath j) : i = j := by
  have hlist := congrArg String.toList h
  simp only [contentPath, String.toList_append, List.append_cancel_left_eq] at hlist
  exact toString_inj hlist

theorem notePath_inj {i j : Nat} (h : notePath i = notePath j) : i = j := by
  have hlist := congrArg String.toList h
  simp only [notePath, String.toList_append, List.append_cancel_left_eq] at hlist
  exact toString_inj hlist

/-- The path of a field is under the name of a part, and no content's or note's. -/
theorem under_of_field {entry : String × Field FieldValue} (h : entry ∈ reading.fields) {name : String}
    (hname : name = "content" ∨ name = "notes") : ¬Under name entry.1 := by
  intro hunder
  obtain ⟨key, hkey, tail, hpath, htail, -⟩ := entriesFields_path "" reading.parts h
  have hpart : Under key entry.1 := ⟨tail, by simpa using hpath, htail⟩
  simp only [ImportedCharacter.parts, List.map_cons, List.map_nil, List.mem_cons, List.not_mem_nil, or_false] at hkey
  have hdots : '.' ∉ name.toList := by rcases hname with rfl | rfl <;> decide
  have hdots' : '.' ∉ key.toList := by
    rcases hkey with rfl | rfl | rfl | rfl | rfl | rfl | rfl | rfl | rfl | rfl <;> decide
  have heq := hpart.eq hunder hdots' hdots
  rw [heq] at hkey
  rcases hname with rfl | rfl <;> simp at hkey

/-- The paths of a reading's fields, content and notes. -/
def ImportedCharacter.paths (reading : ImportedCharacter) : List String :=
  reading.fields.map Prod.fst ++ ((List.range reading.content.val.length).map contentPath ++
    (List.range reading.notes.val.length).map notePath)

/-- Every field, piece of content and note has a path of its own. -/
theorem nodup_paths (reading : ImportedCharacter) : reading.paths.Nodup := by
  have hfields : (reading.fields.map Prod.fst).Nodup :=
    nodup_entriesFields "" reading.parts (by simp [ImportedCharacter.parts])
      (Or.inl (by simp [ImportedCharacter.parts])) (parts_tidy reading)
  have hunder {path : String} (hpath : path ∈ reading.fields.map Prod.fst) {name : String}
      (hname : name = "content" ∨ name = "notes") : ¬Under name path := by
    obtain ⟨entry, hentry, rfl⟩ := List.mem_map.mp hpath
    exact under_of_field hentry hname
  have hcontent : ((List.range reading.content.val.length).map contentPath).Nodup :=
    List.nodup_range.map fun _ _ heq => contentPath_inj heq
  have hnotes : ((List.range reading.notes.val.length).map notePath).Nodup :=
    List.nodup_range.map fun _ _ heq => notePath_inj heq
  unfold ImportedCharacter.paths
  rw [List.nodup_append, List.nodup_append]
  refine ⟨hfields, ⟨hcontent, hnotes, ?_⟩, ?_⟩
  · intro path hpath path' hpath' heq
    obtain ⟨i, -, rfl⟩ := List.mem_map.mp hpath
    obtain ⟨j, -, rfl⟩ := List.mem_map.mp hpath'
    have hsame := (under_contentPath i).eq (heq ▸ under_notePath j) (by decide) (by decide)
    exact absurd hsame (by decide)
  · intro path hpath path' hpath' heq
    subst heq
    rcases List.mem_append.mp hpath' with hother | hother
    · obtain ⟨index, -, rfl⟩ := List.mem_map.mp hother
      exact hunder hpath (Or.inl rfl) (under_contentPath index)
    · obtain ⟨index, -, rfl⟩ := List.mem_map.mp hother
      exact hunder hpath (Or.inr rfl) (under_notePath index)

end reading

end ThunderForge.SheetImport
