import ThunderForge.Lib.Double

/-! A dice formula as it is parsed, and the roll it is resolved to (`thunderforge-dice/src/ast.rs`, `lib.rs` and
`error.rs`). -/

namespace ThunderForge.Dice

inductive BinOp where
  | add
  | sub
  | mul
  | div
  deriving DecidableEq

inductive MathFn where
  | floor
  | ceil
  | round
  | abs
  deriving DecidableEq

/-- What a face is compared with; `maxFace` is the die's own greatest. -/
inductive Condition where
  | eq (n : Int)
  | gt (n : Int)
  | gte (n : Int)
  | lt (n : Int)
  | lte (n : Int)
  | maxFace
  deriving DecidableEq

inductive Modifier where
  | keepHighest (n : Nat)
  | keepLowest (n : Nat)
  | dropHighest (n : Nat)
  | dropLowest (n : Nat)
  | reroll (condition : Condition)
  | rerollRecursive (condition : Condition)
  | explode (condition : Condition)
  | explodeOnce (condition : Condition)
  | min (n : Int)
  | max (n : Int)
  | countSuccesses (condition : Condition)
  | countFailures (condition : Condition)
  | subtractFailureValue (condition : Condition)
  | even
  | odd
  | marginOfSuccess (n : Int)
  deriving DecidableEq

mutual

inductive Expr (α : Type) where
  | number (n : α)
  | placeholder (name : String)
  | dice (term : DiceTerm α)
  /-- Terms whose totals share a keep or drop. -/
  | pool (items : List (Expr α)) (modifiers : List Modifier)
  | neg (inner : Expr α)
  | binOp (lhs : Expr α) (op : BinOp) (rhs : Expr α)
  | mathFn (kind : MathFn) (inner : Expr α)

/-- `count` dice of `sides`. -/
inductive DiceTerm (α : Type) where
  | mk (count : Expr α) (sides : Sides α) (modifiers : List Modifier)

inductive Sides (α : Type) where
  | numeric (sides : Expr α)
  | fate
  | coin

end

namespace DiceTerm

variable {α : Type}

def count : DiceTerm α → Expr α
  | mk count _ _ => count

def sides : DiceTerm α → Sides α
  | mk _ sides _ => sides

def modifiers : DiceTerm α → List Modifier
  | mk _ _ modifiers => modifiers

end DiceTerm

inductive FormulaError where
  | parseError (message : String) (position : Nat)
  | divisionByZero
  | nonFiniteResult
  | missingPlaceholder (name : String)
  | diceCountExceeded
  | iterationCapExceeded
  | replayMismatch (why : String)
  deriving DecidableEq

inductive DieSides where
  | numeric (sides : Nat)
  | fate
  | coin
  deriving DecidableEq

/-- Why a value after the first was rolled. -/
inductive ChainStep where
  | reroll
  | explode
  deriving DecidableEq

/-- One die's history within a resolution. -/
structure DieOutcome where
  sides : DieSides
  rolls : List Int
  steps : List ChainStep
  kept : Bool
  finalValue : Int
  deriving DecidableEq

inductive ResolutionKind (α : Type) where
  | total (value : α)
  | successCount (count : Int)
  deriving DecidableEq

structure RollResolution (α : Type) where
  formula : String
  dice : List DieOutcome
  kind : ResolutionKind α
  deriving DecidableEq

/-- The values of a formula's placeholders, by name. -/
abbrev PlaceholderBindings (α : Type) := String → Option α

end ThunderForge.Dice
