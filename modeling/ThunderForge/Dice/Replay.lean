import ThunderForge.Dice.Eval

/-! Rolling a recorded roll again with its own dice (`thunderforge-dice/src/replay.rs`): a first pass finds how many
of the dice each term took, the second feeds them back term by term. -/

namespace ThunderForge.Dice

variable {α : Type} [Double α]

/-- A roll as it was stored. -/
structure Recorded (α : Type) where
  formula : String
  bindings : PlaceholderBindings α
  resolution : RollResolution α

inductive ReplayEdit where
  | none
  | rerollDie (index : Nat)
  deriving DecidableEq

/-- A recorded die as it came off the table: kept, and showing its last face. -/
def fresh (die : DieOutcome) : DieOutcome :=
  { die with kept := true, finalValue := die.rolls.getLast?.getD die.finalValue }

/-- One more face for a die, which it then shows. -/
def reroll (draw : UInt32) (die : DieOutcome) : DieOutcome :=
  let face := faceOf draw die.sides
  { die with
    steps := if die.steps.length + 1 = die.rolls.length then die.steps ++ [.reroll] else die.steps
    rolls := die.rolls ++ [face]
    finalValue := face }

/-- The dice in groups of the given sizes. -/
def groupsOf : List Nat → List DieOutcome → List (List DieOutcome)
  | [], _ => []
  | size :: sizes, dice => dice.take size :: groupsOf sizes (dice.drop size)

/-- The recorded dice with the edit made, and the draws taken so far. -/
def editDice (draws : Nat → UInt32) (edit : ReplayEdit) (dice : List DieOutcome) (drawn : Nat) :
    Except Failure (List DieOutcome × Nat) :=
  match edit with
  | .none => .ok (dice, drawn)
  | .rerollDie index =>
    if index < dice.length then .ok (dice.modify index (reroll (draws drawn)), drawn + 1)
    else .error (mismatch "there is no such die to reroll")

/-- Replays a roll through its own formula or a reshaped one; with it, how many draws it takes. -/
def replay (overflow : Overflow) (original : Recorded α) (reshaped : Option String) (edit : ReplayEdit)
    (draws : Nat → UInt32) : Except Failure (RollResolution α × Nat) := do
  let env : Env α := { overflow, bindings := original.bindings, draws }
  let source ← (DiceFormula.parse original.formula).mapError Failure.error
  let recorded := original.resolution.dice.map fresh
  let (_, ctx) ← resolveWith env source (some (.flat { dice := recorded, sizes := [], leftInTerm := 0 })) 0
  let (left, sizes) :=
    match ctx.source with
    | some (.flat flat) => (flat.dice, flat.sizes)
    | _ => ([], [])
  if left ≠ [] then throw (mismatch "more dice were recorded than the formula rolls")
  let (dice, drawn) ← editDice draws edit recorded ctx.drawn
  let target ←
    match reshaped with
    | some formula => (DiceFormula.parse formula).mapError Failure.error
    | none => pure source
  let (resolution, ctx) ←
    resolveWith env target (some (.grouped { groups := groupsOf sizes dice, next := 0, current := none })) drawn
  let fewer : Bool :=
    match ctx.source with
    | some (.grouped grouped) => grouped.next ≠ grouped.groups.length
    | _ => false
  if fewer then throw (mismatch "the formula has fewer dice terms than were recorded")
  return (resolution, ctx.drawn)

end ThunderForge.Dice
