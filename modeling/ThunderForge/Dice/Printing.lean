import ThunderForge.Dice.Parser

/-! A formula printed back out in one canonical order (the printer of `thunderforge-dice/src/rewrite.rs`). What is
printed goes onto the end of what was printed before it. -/

namespace ThunderForge.Dice

variable {α : Type} [Double α]

def precedence : Expr α → Nat
  | .binOp _ .add _ | .binOp _ .sub _ => 1
  | .binOp _ .mul _ | .binOp _ .div _ => 2
  | _ => 3

/-- `write_wrapped`, which is given how its expression is written. -/
def writeWrapped (out : String) (write : String → String) (wrap : Bool) : String :=
  if wrap then (write (out.push '(')).push ')' else write out

/-- `write_number` -/
def writeNumber (out : String) (n : α) : String :=
  if Double.isWhole n = true ∧ |Double.value n| < 1000000000000000 then out ++ toString (Double.toI64 n)
  else out ++ Double.display n

/-- Whether a count or a size is written without parentheses. -/
def isBare : Expr α → Bool
  | .number n => Double.isNonNegative n
  | _ => false

/-- `write_operand`, a count or a size. -/
def writeOperand (out : String) (write : String → String) (expr : Expr α) : String :=
  writeWrapped out write (!isBare expr)

/-- What a modifier is written with: its keyword, its condition and its number. -/
def modifierParts : Modifier → String × Option Condition × Option Int
  | .keepHighest n => ("kh", none, some n)
  | .keepLowest n => ("kl", none, some n)
  | .dropHighest n => ("dh", none, some n)
  | .dropLowest n => ("dl", none, some n)
  | .reroll condition => ("r", some condition, none)
  | .rerollRecursive condition => ("rr", some condition, none)
  | .explode condition => ("x", some condition, none)
  | .explodeOnce condition => ("xo", some condition, none)
  | .min n => ("min", none, some n)
  | .max n => ("max", none, some n)
  | .countSuccesses condition => ("cs", some condition, none)
  | .countFailures condition => ("cf", some condition, none)
  | .subtractFailureValue condition => ("sf", some condition, none)
  | .even => ("eo", none, none)
  | .odd => ("od", none, none)
  | .marginOfSuccess n => ("ms", none, some n)

/-- The comparison of a condition and its number; the greatest face is written as nothing. -/
def conditionParts : Condition → Option (String × Int)
  | .eq n => some ("", n)
  | .gt n => some (">", n)
  | .gte n => some (">=", n)
  | .lt n => some ("<", n)
  | .lte n => some ("<=", n)
  | .maxFace => none

def writeCount (out : String) : Option Int → String
  | none => out
  | some n => out ++ toString n

def writeCondition (out : String) (condition : Option Condition) : String :=
  match condition.bind conditionParts with
  | none => out
  | some (op, n) => out ++ op ++ toString n

def writeModifier (out : String) (modifier : Modifier) : String :=
  let (keyword, condition, count) := modifierParts modifier
  writeCondition (writeCount (out ++ keyword) count) condition

def endsInLetter (out : String) : Bool := out.toList.getLast?.any Char.isAlpha

/-- The modifiers from a place on; one that ends in a letter would run into the next one's keyword. -/
def writeModifiersFrom (i : Nat) (out : String) : List Modifier → String
  | [] => out
  | modifier :: modifiers =>
    writeModifiersFrom (i + 1)
      (writeModifier (if 0 < i ∧ endsInLetter out = true then out.push ' ' else out) modifier) modifiers

def writeModifiers (out : String) (modifiers : List Modifier) : String := writeModifiersFrom 0 out modifiers

def opText : BinOp → String
  | .add => " + "
  | .sub => " - "
  | .mul => " * "
  | .div => " / "

def mathFnText : MathFn → String
  | .floor => "floor("
  | .ceil => "ceil("
  | .round => "round("
  | .abs => "abs("

mutual

def writeExpr (out : String) : Expr α → String
  | .number n => writeNumber out n
  | .placeholder name => out ++ name
  | .dice term => writeTerm out term
  | .pool items modifiers => writeModifiers ((writeItems 0 (out.push '{') items).push '}') modifiers
  | .neg inner => writeWrapped (out.push '-') (fun out => writeExpr out inner) (precedence inner < 3)
  | .binOp lhs op rhs =>
    let mine := precedence (.binOp lhs op rhs)
    let out := writeWrapped out (fun out => writeExpr out lhs) (precedence lhs < mine)
    writeWrapped (out ++ opText op) (fun out => writeExpr out rhs) (precedence rhs ≤ mine)
  | .mathFn kind inner => (writeExpr (out ++ mathFnText kind) inner).push ')'

/-- The items of a pool from a place on. -/
def writeItems (i : Nat) (out : String) : List (Expr α) → String
  | [] => out
  | item :: items => writeItems (i + 1) (writeExpr (if 0 < i then out ++ ", " else out) item) items

def writeTerm (out : String) : DiceTerm α → String
  | .mk count sides modifiers =>
    let out := (writeOperand out (fun out => writeExpr out count) count).push 'd'
    let (out, endsInLetter) := writeSides out sides
    writeModifiers (if endsInLetter && !modifiers.isEmpty then out.push ' ' else out) modifiers

/-- The size, and whether it is a letter, so that a modifier straight after it would be read as part of the word. -/
def writeSides (out : String) : Sides α → String × Bool
  | .fate => (out.push 'F', true)
  | .coin => (out.push 'c', true)
  | .numeric sides => (writeOperand out (fun out => writeExpr out sides) sides, false)

end

def printExpr (expr : Expr α) : String := writeExpr "" expr

end ThunderForge.Dice
