import ThunderForge.Basic
import ThunderForge.Lib.Json

/-! What a system says about rerolling its rolls: the slot a pack fills, and 5e's, the one pack that does.
The rewriting of a dice formula is a parameter. -/

namespace ThunderForge.Rolls

inductive RollKind where
  | check
  | toHit
  | damage
  deriving DecidableEq

def kindOf (name : String) : Option RollKind :=
  if name = "check" then some .check
  else if name = "to_hit" then some .toHit
  else if name = "damage" then some .damage
  else none

def RollKind.asStr : RollKind → String
  | check => "check"
  | toHit => "to_hit"
  | damage => "damage"

@[simp] theorem kindOf_asStr (kind : RollKind) : kindOf kind.asStr = some kind := by cases kind <;> rfl

/-- What the pack is given to plan one reroll. -/
structure RerollInput where
  spend : String
  kind : RollKind
  formula : String
  facets : List String
  actorName : String
  sheet : Json
  settings : Json

/-- How the dice change. -/
inductive RerollEdit where
  | rerollLowest (sides : Nat)
  | reshape (formula : String)
  deriving DecidableEq

/-- A reroll the pack allows: the dice edit and the sheet after the spend. -/
structure RerollPlan where
  edit : RerollEdit
  traitData : Json
  deriving DecidableEq

/-- What a system says about rerolling its rolls; spends and facets have an id and a label. -/
structure RollFacets where
  reroll : RerollInput → Except String RerollPlan
  spends : List (String × String)
  labels : List (String × String)

def notAD20Test : String := "Only a d20 test can be rerolled."

/-! The pack of 5e. -/

def spends : List (String × String) := [("inspiration", "Heroic Inspiration"), ("luck_point", "Luck Point")]

def labels : List (String × String) :=
  [("advantage", "Advantage"), ("disadvantage", "Disadvantage"), ("halfling_luck", "Halfling Luck"),
    ("great_weapon_fighting", "Great Weapon Fighting"), ("lucky", "Lucky"),
    ("inspiration", "Heroic Inspiration"), ("luck_point", "Luck Point")]

/-- Whether the sheet's `trait_data.facets` lists a facet. -/
def hasFacet (traitData : Json) (id : String) : Bool :=
  match traitData.get? "facets" with
  | some (.array facets) => facets.any fun facet => facet = .string id
  | _ => false

/-- The sheet's `trait_data`, as an object to write back. -/
def traitDataOf (input : RerollInput) : List (String × Json) :=
  match input.sheet.get? "trait_data" with
  | some (.object fields) => fields
  | _ => []

/-- `Value::as_i64`. -/
def asI64 : Json → Option Int
  | .integer value => if -9223372036854775808 ≤ value ∧ value < 9223372036854775808 then some value else none
  | _ => none

/-- `str::parse::<i32>`. -/
def parseI32 (text : String) : Option Int :=
  let parseDigits (digits : List Char) : Option Int :=
    if digits ≠ [] ∧ digits.all Char.isDigit then
      some (digits.foldl (fun value c => 10 * value + (c.toNat - '0'.toNat)) 0)
    else none
  let value := match text.toList with
    | '-' :: digits => (parseDigits digits).map fun value => -value
    | '+' :: digits => parseDigits digits
    | digits => parseDigits digits
  value.filter fun value => -2147483648 ≤ value ∧ value < 2147483648

def proficiencyBonus (level : Int) : Option Int :=
  if 1 ≤ level ∧ level ≤ 4 then some 2
  else if 5 ≤ level ∧ level ≤ 8 then some 3
  else if 9 ≤ level ∧ level ≤ 12 then some 4
  else if 13 ≤ level ∧ level ≤ 16 then some 5
  else if 17 ≤ level ∧ level ≤ 20 then some 6
  else none

def proficiencyBonusForChallenge (challenge : String) : Option Int :=
  if challenge = "0" ∨ challenge = "1/8" ∨ challenge = "1/4" ∨ challenge = "1/2" then some 2
  else (parseI32 challenge).bind fun rating =>
    if 21 ≤ rating ∧ rating ≤ 24 then some 7
    else if 25 ≤ rating ∧ rating ≤ 28 then some 8
    else if 29 ≤ rating ∧ rating ≤ 30 then some 9
    else proficiencyBonus rating

/-- The proficiency bonus, from a level or else a challenge rating. -/
def proficiencyOf (traitData : Json) : Option Int :=
  match (traitData.get? "level").bind asI64 with
  | some level => proficiencyBonus level
  | none =>
    match traitData.get? "challenge" with
    | some (.string challenge) => proficiencyBonusForChallenge challenge
    | _ => none

/-- The lowest d20 is rolled again, and `inspiration` goes back to false. -/
def spendInspiration (input : RerollInput) : Except String RerollPlan :=
  let traitData := traitDataOf input
  if input.kind = .damage then .error notAD20Test
  else if input.settings.get? "inspiration" = some (.bool false) then
    .error "This table does not use Heroic Inspiration."
  else if (Json.object traitData).get? "inspiration" ≠ some (.bool true) then
    .error (input.actorName ++ " has no Heroic Inspiration.")
  else .ok
    { edit := .rerollLowest 20
      traitData := .object (Json.setField "inspiration" (.bool false) traitData) }

/-- One more d20 in the first d20 term, the highest kept, and one more of the points used. The formula is
rewritten by `addD20`, which finds no d20 or cannot read the formula. -/
def spendLuckPoint (addD20 : String → Except String (Option String)) (input : RerollInput) :
    Except String RerollPlan :=
  let traitData := traitDataOf input
  let used := (((Json.object traitData).get? "luck_points_used").bind asI64).getD 0
  let points := (proficiencyOf (.object traitData)).getD 0
  if input.kind = .damage then .error notAD20Test
  else if hasFacet (.object traitData) "lucky" = false then
    .error (input.actorName ++ " does not have the Lucky feat.")
  else if "disadvantage" ∈ input.facets then
    .error "A Luck Point does nothing on a roll made with disadvantage."
  else if points ≤ used then .error (input.actorName ++ " has no Luck Points left.")
  else
    match addD20 input.formula with
    | .error message => .error message
    | .ok none => .error notAD20Test
    | .ok (some formula) => .ok
        { edit := .reshape formula
          traitData := .object (Json.setField "luck_points_used" (.integer (used + 1)) traitData) }

def reroll (addD20 : String → Except String (Option String)) (input : RerollInput) : Except String RerollPlan :=
  if input.spend = "inspiration" then spendInspiration input
  else if input.spend = "luck_point" then spendLuckPoint addD20 input
  else .error ("This system has no reroll called \"" ++ input.spend ++ "\".")

def rollFacets (addD20 : String → Except String (Option String)) : RollFacets where
  reroll := reroll addD20
  spends
  labels

/-- The slot of a system: 5e's, and empty for every other. -/
def facetsFor (addD20 : String → Except String (Option String)) (systemId : String) : Option RollFacets :=
  if systemId = "dnd5e" then some (rollFacets addD20) else none

/-- The name a spend is shown by, or its id. -/
def spendLabel (addD20 : String → Except String (Option String)) (systemId spend : String) : String :=
  (((facetsFor addD20 systemId).bind fun system =>
    (system.labels ++ system.spends).find? fun label => label.1 = spend).map (·.2)).getD spend

section

variable {addD20 : String → Except String (Option String)} {input : RerollInput} {plan : RerollPlan}

/-- The pack plans only the spends it has. -/
theorem spend_of_reroll (h : reroll addD20 input = .ok plan) : input.spend ∈ spends.map (·.1) := by
  unfold reroll at h
  split_ifs at h with hinspiration hluck
  · simp [spends, hinspiration]
  · simp [spends, hluck]

/-- An empty sheet pays for nothing. -/
theorem sheet_of_reroll (h : reroll addD20 input = .ok plan) :
    ∃ fields, input.sheet.get? "trait_data" = some (.object fields) := by
  by_contra hnone
  have hempty : traitDataOf input = [] := by
    unfold traitDataOf
    split
    · rename_i fields hfields
      exact absurd ⟨fields, hfields⟩ hnone
    · rfl
  unfold reroll spendInspiration spendLuckPoint at h
  rw [hempty] at h
  simp only [Json.get?, List.find?_nil, Option.map_none, hasFacet] at h
  split_ifs at h <;> simp_all

end

end ThunderForge.Rolls
