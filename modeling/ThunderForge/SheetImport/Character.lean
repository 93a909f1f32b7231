import Std.Data.ExtTreeMap
import ThunderForge.Basic
import ThunderForge.Lib.Json

/-! The character a sheet reader produces, and the leaves found by walking it as serialised JSON
(`thunderforge-sheet-import/src/character.rs`). -/

namespace ThunderForge.SheetImport

instance stringTransOrd : Std.TransOrd String := String.instTransOrd

/-- How sure a reader is of one value. -/
inductive Certainty where
  | read
  | uncertain (reason : String)
  | unread
  deriving DecidableEq

/-- A box on a page; a coordinate is the `f64` its `f32` is written as. -/
structure Rect where
  x0 : BitVec 64
  y0 : BitVec 64
  x1 : BitVec 64
  y1 : BitVec 64
  deriving DecidableEq

/-- Where on the sheet a value came from. -/
structure Source where
  page : Nat
  rect : Rect
  text : String
  deriving DecidableEq

/-- One value read from a sheet. -/
structure Field (α : Type) where
  value : Option α
  certainty : Certainty
  source : Option Source
  deriving DecidableEq

def Field.unread {α : Type} : Field α := ⟨none, .unread, none⟩

def Field.map {α β : Type} (f : α → β) (field : Field α) : Field β :=
  ⟨field.value.map f, field.certainty, field.source⟩

/-- A map of the source, whose keys come in order. -/
abbrev FieldMap (α : Type) := Std.ExtTreeMap String (Field α)

structure ReaderStamp where
  id : String
  version : String

structure Identity where
  name : Field String
  playerName : Field String
  species : Field String
  background : Field String
  alignment : Field String
  size : Field String
  xp : Field Int

structure ClassLevel where
  name : Field String
  subclass : Field String
  level : Field Int
  hitDie : Field Int

/-- How well a character knows a skill. -/
inductive SkillMark where
  | none
  | half
  | proficient
  | expertise
  deriving DecidableEq

structure Proficiencies where
  skills : FieldMap SkillMark
  saves : FieldMap Bool
  armour : Field (List String)
  weapons : Field (List String)
  tools : Field (List String)
  languages : Field (List String)

structure Defences where
  armourClass : Field Int
  resistances : Field (List String)
  immunities : Field (List String)
  vulnerabilities : Field (List String)
  conditionImmunities : Field (List String)

structure HitDice where
  die : Field Int
  total : Field Int
  used : Field Int

structure DeathSaves where
  successes : Field Int
  failures : Field Int

structure Resources where
  hpMax : Field Int
  hpCurrent : Field Int
  hpTemp : Field Int
  hitDice : List HitDice
  deathSaves : DeathSaves
  coins : FieldMap Int
  inspiration : Field Bool

structure Movement where
  speeds : FieldMap Int
  senses : FieldMap Int

structure PactSlots where
  level : Field Int
  total : Field Int

structure Spellcasting where
  classField : Field String
  ability : Field String
  saveDc : Field Int
  attackBonus : Field Int
  slots : FieldMap Int
  pactSlots : Option PactSlots

/-- How a piece of content sits on this character. -/
structure ContentLink where
  prepared : Option Bool
  grantedBy : List String
  uses : Option Int
  recharge : Option String
  equipped : Option Bool
  attuned : Option Bool
  quantity : Option Int

def ContentLink.default : ContentLink := ⟨none, [], none, none, none, none, none⟩

/-- A spell, feature, item or other named thing the sheet lists. -/
structure NamedContent where
  kind : String
  name : Field String
  fields : Std.ExtTreeMap String Json
  link : ContentLink

/-- Something read that has no neutral home. -/
structure Note where
  label : String
  text : Field String

/-- A `Vec`, which has no more items than a `usize` counts. -/
abbrev Vec (α : Type) := { items : List α // items.length < 2 ^ 64 }

/-- A system-neutral character, read from a sheet. -/
structure ImportedCharacter where
  reader : ReaderStamp
  identity : Identity
  classes : List ClassLevel
  abilities : FieldMap Int
  proficiencies : Proficiencies
  defences : Defences
  resources : Resources
  movement : Movement
  spellcasting : List Spellcasting
  content : Vec NamedContent
  derived : FieldMap Int
  persona : FieldMap String
  notes : Vec Note

/-! The reading as JSON: every part is a tree of fields, and an object writes its keys in order. -/

/-- The values fields hold. -/
inductive FieldValue where
  | text (value : String)
  | integer (value : Int)
  | flag (value : Bool)
  | mark (value : SkillMark)
  | texts (values : List String)
  deriving DecidableEq

def SkillMark.toValue : SkillMark → Json
  | none => .string "none"
  | half => .string "half"
  | proficient => .string "proficient"
  | expertise => .string "expertise"

def FieldValue.toValue : FieldValue → Json
  | text value => .string value
  | integer value => .integer value
  | flag value => .bool value
  | mark value => value.toValue
  | texts values => .array (values.map .string)

def Certainty.toValue : Certainty → Json
  | read => .object [("kind", .string "read")]
  | uncertain reason => .object [("kind", .string "uncertain"), ("reason", .string reason)]
  | unread => .object [("kind", .string "unread")]

/-- `f64::is_finite`; what is not finite is written as `null`. -/
def isFinite (bits : BitVec 64) : Bool := bits.extractLsb' 52 11 ≠ 2047#11

def coordinateToValue (bits : BitVec 64) : Json := if isFinite bits then .float bits else .null

def Source.toValue (source : Source) : Json :=
  .object
    [("page", .integer source.page),
      ("rect", .object
        [("x0", coordinateToValue source.rect.x0), ("x1", coordinateToValue source.rect.x1),
          ("y0", coordinateToValue source.rect.y0), ("y1", coordinateToValue source.rect.y1)]),
      ("text", .string source.text)]

def Field.toValue (field : Field FieldValue) : Json :=
  .object
    [("certainty", field.certainty.toValue), ("source", (field.source.map Source.toValue).getD .null),
      ("value", (field.value.map FieldValue.toValue).getD .null)]

/-- A part of a reading: a field, or an object or list of parts, or nothing. -/
inductive Node where
  | field (field : Field FieldValue)
  | object (entries : List (String × Node))
  | array (items : List Node)
  | absent

mutual

def Node.toValue : Node → Json
  | .field field => field.toValue
  | .object entries => .object (entriesToValue entries)
  | .array items => .array (itemsToValue items)
  | .absent => .null

def entriesToValue : List (String × Node) → List (String × Json)
  | [] => []
  | (key, node) :: entries => (key, node.toValue) :: entriesToValue entries

def itemsToValue : List Node → List Json
  | [] => []
  | node :: items => node.toValue :: itemsToValue items

end

def textNode (field : Field String) : Node := .field (field.map .text)
def integerNode (field : Field Int) : Node := .field (field.map .integer)
def flagNode (field : Field Bool) : Node := .field (field.map .flag)
def textsNode (field : Field (List String)) : Node := .field (field.map .texts)

def mapNode {α : Type} (encode : α → FieldValue) (map : FieldMap α) : Node :=
  .object (map.toList.map fun entry => (entry.1, .field (entry.2.map encode)))

def Identity.node (identity : Identity) : Node :=
  .object
    [("alignment", textNode identity.alignment), ("background", textNode identity.background),
      ("name", textNode identity.name), ("player_name", textNode identity.playerName),
      ("size", textNode identity.size), ("species", textNode identity.species), ("xp", integerNode identity.xp)]

def ClassLevel.node (level : ClassLevel) : Node :=
  .object
    [("hit_die", integerNode level.hitDie), ("level", integerNode level.level), ("name", textNode level.name),
      ("subclass", textNode level.subclass)]

def Proficiencies.node (proficiencies : Proficiencies) : Node :=
  .object
    [("armour", textsNode proficiencies.armour), ("languages", textsNode proficiencies.languages),
      ("saves", mapNode .flag proficiencies.saves), ("skills", mapNode .mark proficiencies.skills),
      ("tools", textsNode proficiencies.tools), ("weapons", textsNode proficiencies.weapons)]

def Defences.node (defences : Defences) : Node :=
  .object
    [("armour_class", integerNode defences.armourClass),
      ("condition_immunities", textsNode defences.conditionImmunities), ("immunities", textsNode defences.immunities),
      ("resistances", textsNode defences.resistances), ("vulnerabilities", textsNode defences.vulnerabilities)]

def HitDice.node (dice : HitDice) : Node :=
  .object [("die", integerNode dice.die), ("total", integerNode dice.total), ("used", integerNode dice.used)]

def DeathSaves.node (saves : DeathSaves) : Node :=
  .object [("failures", integerNode saves.failures), ("successes", integerNode saves.successes)]

def Resources.node (resources : Resources) : Node :=
  .object
    [("coins", mapNode .integer resources.coins), ("death_saves", resources.deathSaves.node),
      ("hit_dice", .array (resources.hitDice.map HitDice.node)), ("hp_current", integerNode resources.hpCurrent),
      ("hp_max", integerNode resources.hpMax), ("hp_temp", integerNode resources.hpTemp),
      ("inspiration", flagNode resources.inspiration)]

def Movement.node (movement : Movement) : Node :=
  .object [("senses", mapNode .integer movement.senses), ("speeds", mapNode .integer movement.speeds)]

def PactSlots.node (slots : PactSlots) : Node :=
  .object [("level", integerNode slots.level), ("total", integerNode slots.total)]

def Spellcasting.node (casting : Spellcasting) : Node :=
  .object
    [("ability", textNode casting.ability), ("attack_bonus", integerNode casting.attackBonus),
      ("class", textNode casting.classField), ("pact_slots", (casting.pactSlots.map PactSlots.node).getD .absent),
      ("save_dc", integerNode casting.saveDc), ("slots", mapNode .integer casting.slots)]

def optionValue {α : Type} (encode : α → Json) (value : Option α) : Json := (value.map encode).getD .null

def ContentLink.toValue (link : ContentLink) : Json :=
  .object
    [("attuned", optionValue .bool link.attuned), ("equipped", optionValue .bool link.equipped),
      ("granted_by", .array (link.grantedBy.map .string)), ("prepared", optionValue .bool link.prepared),
      ("quantity", optionValue .integer link.quantity), ("recharge", optionValue .string link.recharge),
      ("uses", optionValue .integer link.uses)]

def NamedContent.toValue (item : NamedContent) : Json :=
  .object
    [("fields", .object item.fields.toList), ("kind", .string item.kind), ("link", item.link.toValue),
      ("name", (textNode item.name).toValue)]

def Note.toValue (note : Note) : Json :=
  .object [("label", .string note.label), ("text", (textNode note.text).toValue)]

def ReaderStamp.toValue (reader : ReaderStamp) : Json :=
  .object [("id", .string reader.id), ("version", .string reader.version)]

/-- The parts whose fields are leaves of their own. -/
def ImportedCharacter.parts (reading : ImportedCharacter) : List (String × Node) :=
  [("abilities", mapNode .integer reading.abilities), ("classes", .array (reading.classes.map ClassLevel.node)),
    ("defences", reading.defences.node), ("derived", mapNode .integer reading.derived),
    ("identity", reading.identity.node), ("movement", reading.movement.node),
    ("persona", mapNode .text reading.persona), ("proficiencies", reading.proficiencies.node),
    ("resources", reading.resources.node),
    ("spellcasting", .array (reading.spellcasting.map Spellcasting.node))]

def ImportedCharacter.toValue (reading : ImportedCharacter) : Json :=
  .object
    [("abilities", (mapNode .integer reading.abilities).toValue),
      ("classes", (Node.array (reading.classes.map ClassLevel.node)).toValue),
      ("content", .array (reading.content.val.map NamedContent.toValue)), ("defences", reading.defences.node.toValue),
      ("derived", (mapNode .integer reading.derived).toValue), ("identity", reading.identity.node.toValue),
      ("movement", reading.movement.node.toValue), ("notes", .array (reading.notes.val.map Note.toValue)),
      ("persona", (mapNode .text reading.persona).toValue), ("proficiencies", reading.proficiencies.node.toValue),
      ("reader", reading.reader.toValue), ("resources", reading.resources.node.toValue),
      ("spellcasting", (Node.array (reading.spellcasting.map Spellcasting.node)).toValue)]

/-! What is read back from the JSON, and the leaves. -/

/-- `serde_json::from_value` for a certainty. -/
def readCertainty (value : Json) : Option Certainty :=
  match value.get? "kind" with
  | some (.string kind) =>
    if kind = "read" then some .read
    else if kind = "unread" then some .unread
    else if kind = "uncertain" then
      match value.get? "reason" with
      | some (.string reason) => some (.uncertain reason)
      | _ => none
    else none
  | _ => none

def readCoordinate (rect : Json) (key : String) : Option (BitVec 64) :=
  match rect.get? key with
  | some (.float bits) => some bits
  | _ => none

/-- `serde_json::from_value` for a source. -/
def readSource (value : Json) : Option Source :=
  match value.get? "page", value.get? "rect", value.get? "text" with
  | some (.integer page), some rect, some (.string text) =>
    match readCoordinate rect "x0", readCoordinate rect "y0", readCoordinate rect "x1", readCoordinate rect "y1" with
    | some x0, some y0, some x1, some y1 => some { page := page.toNat, rect := { x0, y0, x1, y1 }, text }
    | _, _, _, _ => none
  | _, _, _ => none

/-- One value-bearing place in a reading, by neutral path. -/
structure Leaf where
  path : String
  value : Option Json
  certainty : Certainty
  source : Option Source
  deriving DecidableEq

/-- Whether a node is a serialised field. -/
def isField : Json → Bool
  | .object fields => fields.any (·.1 = "certainty") && fields.any (·.1 = "value")
  | .null | .bool _ | .integer _ | .float _ | .string _ | .array _ => false

def leafOf (path : String) (node : Json) : Leaf where
  path
  value := (node.get? "value").filter fun value => value ≠ .null
  certainty := (readCertainty ((node.get? "certainty").getD .null)).getD .unread
  source := (node.get? "source").bind readSource

mutual

def walk (path : String) : Json → List Leaf
  | .object fields =>
    if isField (.object fields) then [leafOf path (.object fields)] else walkFields path fields
  | .array items => walkItems path 0 items
  | .null | .bool _ | .integer _ | .float _ | .string _ => []

def walkFields (path : String) : List (String × Json) → List Leaf
  | [] => []
  | (key, child) :: fields => walk (path ++ "." ++ key) child ++ walkFields path fields

def walkItems (path : String) (index : Nat) : List Json → List Leaf
  | [] => []
  | child :: items => walk (path ++ "." ++ toString index) child ++ walkItems path (index + 1) items

end

def contentPath (index : Nat) : String := "content." ++ toString index

def notePath (index : Nat) : String := "notes." ++ toString index

def ImportedCharacter.contentLeaves (reading : ImportedCharacter) : List Leaf :=
  reading.content.val.zipIdx.map fun item =>
    { path := contentPath item.2, value := some item.1.toValue, certainty := item.1.name.certainty
      source := item.1.name.source }

def ImportedCharacter.noteLeaves (reading : ImportedCharacter) : List Leaf :=
  reading.notes.val.zipIdx.map fun note =>
    { path := notePath note.2, value := note.1.text.value.map .string, certainty := note.1.text.certainty
      source := note.1.text.source }

/-- Every leaf, in path order within each part; a piece of content and a note are one leaf each. -/
def ImportedCharacter.leaves (reading : ImportedCharacter) : List Leaf :=
  match reading.toValue with
  | .object parts => parts.flatMap fun part =>
    if part.1 = "reader" then []
    else if part.1 = "content" then reading.contentLeaves
    else if part.1 = "notes" then reading.noteLeaves
    else walk part.1 part.2
  | .null | .bool _ | .integer _ | .float _ | .string _ | .array _ => []

end ThunderForge.SheetImport
