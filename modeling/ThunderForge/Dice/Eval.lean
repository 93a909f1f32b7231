import ThunderForge.Dice.Parser
import ThunderForge.Lib.SortBy

/-! The evaluator (`thunderforge-dice/src/eval.rs`) and the recorded dice it may take instead of drawing
(`Flat` and `Grouped` of `replay.rs`). A panic ends a run as an error does. -/

namespace ThunderForge.Dice

variable {α : Type} [Double α]

def maxTotalDice : Nat := 1000

def maxIterationsPerDie : Nat := 100

/-- How a run ends without a resolution. -/
inductive Failure where
  | error (error : FormulaError)
  | panic
  deriving DecidableEq

/-- What the sum of two `i64` is when it is out of range: it panics or wraps by the build, or is taken as exact. -/
inductive Overflow where
  | panics
  | wraps
  | exact
  deriving DecidableEq

def inI64 (n : Int) : Bool := -9223372036854775808 ≤ n && n ≤ 9223372036854775807

/-- The result of an `i64` operation. -/
def Overflow.i64 (overflow : Overflow) (n : Int) : Except Failure Int :=
  match overflow with
  | panics => if inI64 n then .ok n else .error .panic
  | wraps => .ok (Int.bmod n 18446744073709551616)
  | exact => .ok n

/-- `Iterator::sum::<i64>` -/
def Overflow.sum (overflow : Overflow) (values : List Int) : Except Failure Int :=
  values.foldlM (fun sum value => overflow.i64 (sum + value)) 0

/-- What a run is given: how sums overflow, the values of the placeholders and the draws of the generator. -/
structure Env (α : Type) where
  overflow : Overflow
  bindings : PlaceholderBindings α
  draws : Nat → UInt32

/-! Recorded dice. -/

/-- The recorded dice in one line, taken a term at a time. -/
structure Flat where
  dice : List DieOutcome
  sizes : List Nat
  leftInTerm : Nat

/-- Each term's recorded dice. -/
structure Grouped where
  groups : List (List DieOutcome)
  next : Nat
  current : Option Nat

inductive DrawSource where
  | flat (flat : Flat)
  | grouped (grouped : Grouped)

def mismatch (why : String) : Failure := .error (.replayMismatch why)

def Flat.beginTerm (flat : Flat) (count : Nat) (sides : DieSides) : Except Failure Flat :=
  if flat.dice.length < count then .error (mismatch "fewer dice were recorded than the formula rolls")
  else if (flat.dice.take count).any (·.sides ≠ sides) then
    .error (mismatch "a recorded die has the wrong number of sides")
  else .ok { flat with sizes := flat.sizes ++ [count], leftInTerm := count }

def Flat.nextDie (flat : Flat) : Option DieOutcome × Flat :=
  if flat.leftInTerm = 0 then (none, flat)
  else (flat.dice.head?, { flat with dice := flat.dice.tail, leftInTerm := flat.leftInTerm - 1 })

def Grouped.beginTerm (grouped : Grouped) (count : Nat) (sides : DieSides) : Except Failure Grouped :=
  match grouped.groups[grouped.next]? with
  | none => .error (mismatch "the formula has more dice terms than were recorded")
  | some group =>
    if count < group.length then .error (mismatch "a term rolls fewer dice than were recorded")
    else if group.any (·.sides ≠ sides) then .error (mismatch "a term's die has changed its sides")
    else .ok { grouped with next := grouped.next + 1, current := some grouped.next }

def Grouped.nextDie (grouped : Grouped) : Option DieOutcome × Grouped :=
  match grouped.current with
  | none => (none, grouped)
  | some current =>
    (((grouped.groups[current]?).getD []).head?,
      { grouped with groups := grouped.groups.modify current List.tail })

def DrawSource.beginTerm (source : DrawSource) (count : Nat) (sides : DieSides) : Except Failure DrawSource :=
  match source with
  | flat source => (source.beginTerm count sides).map flat
  | grouped source => (source.beginTerm count sides).map grouped

def DrawSource.nextDie : DrawSource → Option DieOutcome × DrawSource
  | flat source => (source.nextDie.1, flat source.nextDie.2)
  | grouped source => (source.nextDie.1, grouped source.nextDie.2)

/-! Rolling. -/

/-- `drawn` of the generator's draws have been taken. -/
structure EvalCtx where
  drawn : Nat
  dice : List DieOutcome
  totalDiceRolled : Nat
  source : Option DrawSource

/-- A value, and how many successes where the notation counts them. -/
structure ExprValue (α : Type) where
  value : α
  successCount : Option Int

def ExprValue.total (value : α) : ExprValue α := ⟨value, none⟩

def EvalCtx.takeDiceBudget (ctx : EvalCtx) (count : Nat) : Except Failure EvalCtx :=
  if ctx.totalDiceRolled + count > maxTotalDice then .error (.error .diceCountExceeded)
  else .ok { ctx with totalDiceRolled := ctx.totalDiceRolled + count }

/-- The face a draw shows. -/
def faceOf (draw : UInt32) : DieSides → Int
  | .numeric n => 1 + (draw.toNat % max n 1 : Nat)
  | .fate => (draw.toNat % 3 : Nat) - 1
  | .coin => (draw.toNat % 2 : Nat)

def EvalCtx.rollFace (env : Env α) (ctx : EvalCtx) (sides : DieSides) : Int × EvalCtx :=
  (faceOf (env.draws ctx.drawn) sides, { ctx with drawn := ctx.drawn + 1 })

def maxFace : DieSides → Int
  | .numeric n => n
  | .fate => 1
  | .coin => 1

def conditionMatches (condition : Condition) (value maxFace : Int) : Bool :=
  match condition with
  | .eq n => value = n
  | .gt n => value > n
  | .gte n => value ≥ n
  | .lt n => value < n
  | .lte n => value ≤ n
  | .maxFace => value = maxFace

def findCondition (modifiers : List Modifier) (f : Modifier → Option Condition) : Option Condition :=
  modifiers.findSome? f

def rerollOnceOf : Modifier → Option Condition
  | .reroll condition => some condition
  | _ => none

def rerollRecursiveOf : Modifier → Option Condition
  | .rerollRecursive condition => some condition
  | _ => none

def explodeOf : Modifier → Option Condition
  | .explode condition => some condition
  | _ => none

def explodeOnceOf : Modifier → Option Condition
  | .explodeOnce condition => some condition
  | _ => none

def countSuccessesOf : Modifier → Option Condition
  | .countSuccesses condition => some condition
  | _ => none

def countFailuresOf : Modifier → Option Condition
  | .countFailures condition => some condition
  | _ => none

def subtractFailureValueOf : Modifier → Option Condition
  | .subtractFailureValue condition => some condition
  | _ => none

def marginOf : Modifier → Option Int
  | .marginOfSuccess n => some n
  | _ => none

/-- The values a die has shown, and why each after the first was rolled. -/
structure Chain where
  rolls : List Int
  steps : List ChainStep

def lastRoll (rolls : List Int) : Int := rolls.getLast?.getD 0

/-- One more roll of a die, which counts as a die. -/
def extendChain (env : Env α) (sides : DieSides) (step : ChainStep) (chain : Chain) (ctx : EvalCtx) :
    Except Failure (Chain × EvalCtx) := do
  let ctx ← ctx.takeDiceBudget 1
  let (face, ctx) := ctx.rollFace env sides
  return ({ rolls := chain.rolls ++ [face], steps := chain.steps ++ [step] }, ctx)

/-- A reroll or explosion that is made once. -/
def chainOnce (env : Env α) (sides : DieSides) (step : ChainStep) (condition : Option Condition) (chain : Chain)
    (ctx : EvalCtx) : Except Failure (Chain × EvalCtx) :=
  match condition with
  | none => .ok (chain, ctx)
  | some condition =>
    if conditionMatches condition (lastRoll chain.rolls) (maxFace sides) then extendChain env sides step chain ctx
    else .ok (chain, ctx)

/-- The loop of a reroll or explosion that is repeated, with the iterations that are left to it. -/
def chainWhile (env : Env α) (sides : DieSides) (step : ChainStep) (condition : Condition) (left : Nat) (chain : Chain)
    (ctx : EvalCtx) : Except Failure (Chain × Nat × EvalCtx) :=
  if conditionMatches condition (lastRoll chain.rolls) (maxFace sides) then
    match left with
    | 0 => .error (.error .iterationCapExceeded)
    | left + 1 => do
      let (chain, ctx) ← extendChain env sides step chain ctx
      chainWhile env sides step condition left chain ctx
  else .ok (chain, left, ctx)

def chainRepeated (env : Env α) (sides : DieSides) (step : ChainStep) (condition : Option Condition) (left : Nat)
    (chain : Chain) (ctx : EvalCtx) : Except Failure (Chain × Nat × EvalCtx) :=
  match condition with
  | none => .ok (chain, left, ctx)
  | some condition => chainWhile env sides step condition left chain ctx

/-- A die that is drawn, with its rerolls and explosions. -/
def rollDie (env : Env α) (modifiers : List Modifier) (sides : DieSides) (ctx : EvalCtx) :
    Except Failure (DieOutcome × EvalCtx) := do
  let (face, ctx) := ctx.rollFace env sides
  let (chain, ctx) ←
    chainOnce env sides .reroll (findCondition modifiers rerollOnceOf) { rolls := [face], steps := [] } ctx
  let (chain, left, ctx) ←
    chainRepeated env sides .reroll (findCondition modifiers rerollRecursiveOf) maxIterationsPerDie chain ctx
  let (chain, ctx) ← chainOnce env sides .explode (findCondition modifiers explodeOnceOf) chain ctx
  let (chain, _, ctx) ← chainRepeated env sides .explode (findCondition modifiers explodeOf) left chain ctx
  return ({ sides, rolls := chain.rolls, steps := chain.steps, kept := true, finalValue := lastRoll chain.rolls }, ctx)

/-- A term's next die: a recorded one while there is one. -/
def takeDie (env : Env α) (modifiers : List Modifier) (sides : DieSides) (ctx : EvalCtx) :
    Except Failure (DieOutcome × EvalCtx) :=
  match ctx.source with
  | none => rollDie env modifiers sides ctx
  | some source =>
    match source.nextDie with
    | (some recorded, source) => .ok (recorded, { ctx with source := some source })
    | (none, source) => rollDie env modifiers sides { ctx with source := some source }

/-- The dice of a term. -/
def takeDice (env : Env α) (modifiers : List Modifier) (sides : DieSides) :
    Nat → EvalCtx → Except Failure (List DieOutcome × EvalCtx)
  | 0, ctx => .ok ([], ctx)
  | count + 1, ctx => do
    let (die, ctx) ← takeDie env modifiers sides ctx
    let (dice, ctx) ← takeDice env modifiers sides count ctx
    return (die :: dice, ctx)

/-! Keep and drop, clamps and counting. -/

def markDropped (dropped : List Nat) (outcomes : List DieOutcome) : List DieOutcome :=
  outcomes.mapIdx fun index die => if dropped.contains index then { die with kept := false } else die

/-- The indices, greatest or least first; those of one value keep their order. -/
def sortHighest (value : Nat → Int) (indices : List Nat) : List Nat :=
  SortBy.sortBy (fun index => OrderDual.toDual (value index)) indices

def sortLowest (value : Nat → Int) (indices : List Nat) : List Nat := SortBy.sortBy value indices

def finalValueAt (outcomes : List DieOutcome) (index : Nat) : Int :=
  ((outcomes[index]?).map DieOutcome.finalValue).getD 0

/-- One modifier of keep and drop; each sorts the indices as the one before left them. -/
def keepDropStep (state : List Nat × List DieOutcome) (modifier : Modifier) : List Nat × List DieOutcome :=
  let (indices, outcomes) := state
  let highest := sortHighest (finalValueAt outcomes) indices
  let lowest := sortLowest (finalValueAt outcomes) indices
  match modifier with
  | .keepHighest n => (highest, markDropped (highest.drop n) outcomes)
  | .keepLowest n => (lowest, markDropped (lowest.drop n) outcomes)
  | .dropHighest n => (highest, markDropped (highest.take n) outcomes)
  | .dropLowest n => (lowest, markDropped (lowest.take n) outcomes)
  | _ => (indices, outcomes)

def applyKeepDrop (modifiers : List Modifier) (outcomes : List DieOutcome) : List DieOutcome :=
  (modifiers.foldl keepDropStep (List.range outcomes.length, outcomes)).2

def clampStep (outcomes : List DieOutcome) (modifier : Modifier) : List DieOutcome :=
  match modifier with
  | .min n => outcomes.map fun die => if die.finalValue < n then { die with finalValue := n } else die
  | .max n => outcomes.map fun die => if die.finalValue > n then { die with finalValue := n } else die
  | _ => outcomes

def applyClamp (modifiers : List Modifier) (outcomes : List DieOutcome) : List DieOutcome :=
  modifiers.foldl clampStep outcomes

def keptValues (outcomes : List DieOutcome) : List Int := (outcomes.filter DieOutcome.kept).map DieOutcome.finalValue

def countMatching (condition : Condition) (maxFace : Int) (values : List Int) : Int :=
  ((values.filter fun value => conditionMatches condition value maxFace).length : Nat)

/-- The successes a term's modifiers count, if any of them does. -/
def computeSuccessCount (overflow : Overflow) (outcomes : List DieOutcome) (modifiers : List Modifier) (maxFace : Int) :
    Except Failure (Option Int) :=
  let kept := keptValues outcomes
  let successes := findCondition modifiers countSuccessesOf
  let failures := findCondition modifiers countFailuresOf
  let subtractFailureValue := findCondition modifiers subtractFailureValueOf
  let even := modifiers.contains .even
  let odd := modifiers.contains .odd
  match modifiers.findSome? marginOf with
  | some n => do
    let sum ← overflow.sum kept
    return some (← overflow.i64 (sum - n))
  | none =>
    if even || odd then .ok (some ((kept.filter fun value => (value.tmod 2 = 0) = even).length : Nat))
    else if successes.isNone && failures.isNone && subtractFailureValue.isNone then .ok none
    else do
      let total := (successes.map fun condition => countMatching condition maxFace kept).getD 0
      let total := total - (failures.map fun condition => countMatching condition maxFace kept).getD 0
      match subtractFailureValue with
      | none => return some total
      | some condition =>
        let sum ← overflow.sum (kept.filter fun value => conditionMatches condition value maxFace)
        return some (← overflow.i64 (total - sum))

/-- Tells the source of recorded dice of a term. -/
def EvalCtx.beginTerm (ctx : EvalCtx) (count : Nat) (sides : DieSides) : Except Failure EvalCtx :=
  match ctx.source with
  | none => .ok ctx
  | some source => (source.beginTerm count sides).map fun source => { ctx with source := some source }

/-- What a term counts for: its successes, or the sum of its kept dice. -/
def termValue (overflow : Overflow) (outcomes : List DieOutcome) : Option Int → Except Failure Int
  | some n => .ok n
  | none => overflow.sum (keptValues outcomes)

/-- A term whose count and sides are known. -/
def rollTerm (env : Env α) (modifiers : List Modifier) (count : Nat) (sides : DieSides) (ctx : EvalCtx) :
    Except Failure (ExprValue α × EvalCtx) := do
  let ctx ← ctx.takeDiceBudget count
  let ctx ← ctx.beginTerm count sides
  let (outcomes, ctx) ← takeDice env modifiers sides count ctx
  let outcomes := applyClamp modifiers (applyKeepDrop modifiers outcomes)
  let successCount ← computeSuccessCount env.overflow outcomes modifiers (maxFace sides)
  let value ← termValue env.overflow outcomes successCount
  return ({ value := Double.ofInt value, successCount }, { ctx with dice := ctx.dice ++ outcomes })

/-- The end of `eval_int_expr`: to the nearest integer, as an `i64`. -/
def intValue (value : ExprValue α) : Except Failure Int :=
  if Double.isFinite value.value then .ok (Double.toI64 (Double.round value.value))
  else .error (.error .nonFiniteResult)

/-- `as u32` of an `i64` -/
def asU32 (n : Int) : Nat := (n % 4294967296).toNat

/-! Pools. -/

/-- One modifier of a pool's keep and drop, on the totals of its items. -/
def poolStep (totals : List α) (state : List Nat × List Nat) (modifier : Modifier) : List Nat × List Nat :=
  let (indices, dropped) := state
  let value := fun index => ((totals[index]?).map fun total => (Double.magnitude total).key).getD ⊥
  let highest := SortBy.sortBy (fun index => OrderDual.toDual (value index)) indices
  let lowest := SortBy.sortBy value indices
  match modifier with
  | .keepHighest n => (highest, dropped ++ highest.drop n)
  | .keepLowest n => (lowest, dropped ++ lowest.drop n)
  | .dropHighest n => (highest, dropped ++ highest.take n)
  | .dropLowest n => (lowest, dropped ++ lowest.take n)
  | _ => (indices, dropped)

def Modifier.keepsOrDrops : Modifier → Bool
  | keepHighest _ | keepLowest _ | dropHighest _ | dropLowest _ => true
  | _ => false

/-- A comparison with what is not a number panics, and sorting two or more compares each. -/
def poolPanics (totals : List α) (modifiers : List Modifier) : Bool :=
  modifiers.any Modifier.keepsOrDrops && totals.length ≥ 2 && totals.any fun total => Double.magnitude total = .nan

def poolValue (totals : List α) (modifiers : List Modifier) : Except Failure (ExprValue α) :=
  if poolPanics totals modifiers then .error .panic
  else
    let dropped := (modifiers.foldl (poolStep totals) (List.range totals.length, [])).2
    .ok (.total (Double.sum (((totals.zipIdx.filter fun total => !dropped.contains total.2)).map Prod.fst)))

/-! The expressions. -/

def requireFinite (value : α) : Except Failure α :=
  if Double.isFinite value then .ok value else .error (.error .nonFiniteResult)

def applyBinOp (op : BinOp) (l r : α) : Except Failure α :=
  match op with
  | .add => .ok (Double.add l r)
  | .sub => .ok (Double.sub l r)
  | .mul => .ok (Double.mul l r)
  | .div => if Double.isZero r then .error (.error .divisionByZero) else .ok (Double.div l r)

/-- Only a sum keeps its operands' successes. -/
def combineSuccesses (overflow : Overflow) (op : BinOp) (l r : Option Int) : Except Failure (Option Int) :=
  match op with
  | .add =>
    match l, r with
    | some a, some b => (overflow.i64 (a + b)).map some
    | some a, none => .ok (some a)
    | none, some b => .ok (some b)
    | none, none => .ok none
  | .sub | .mul | .div => .ok none

def applyMathFn : MathFn → α → α
  | .floor => Double.floor
  | .ceil => Double.ceil
  | .round => Double.round
  | .abs => Double.abs

mutual

def evalExpr (env : Env α) : Expr α → EvalCtx → Except Failure (ExprValue α × EvalCtx)
  | .number n, ctx => .ok (.total n, ctx)
  | .placeholder name, ctx =>
    match env.bindings name with
    | none => .error (.error (.missingPlaceholder name))
    | some value => .ok (.total value, ctx)
  | .neg inner, ctx => do
    let (v, ctx) ← evalExpr env inner ctx
    return (.total (Double.neg v.value), ctx)
  | .binOp lhs op rhs, ctx => do
    let (l, ctx) ← evalExpr env lhs ctx
    let (r, ctx) ← evalExpr env rhs ctx
    let value ← applyBinOp op l.value r.value
    let value ← requireFinite value
    let successCount ← combineSuccesses env.overflow op l.successCount r.successCount
    return ({ value, successCount }, ctx)
  | .mathFn kind inner, ctx => do
    let (v, ctx) ← evalExpr env inner ctx
    let value ← requireFinite (applyMathFn kind v.value)
    return (.total value, ctx)
  | .dice term, ctx => evalDiceTerm env term ctx
  | .pool items modifiers, ctx => do
    let (totals, ctx) ← evalItems env items ctx
    let value ← poolValue totals modifiers
    return (value, ctx)

def evalDiceTerm (env : Env α) : DiceTerm α → EvalCtx → Except Failure (ExprValue α × EvalCtx)
  | .mk count sides modifiers, ctx => do
    let (v, ctx) ← evalExpr env count ctx
    let n ← intValue v
    if n < 0 then .error (.error (.parseError "dice count must not be negative" 0))
    else
      let (dieSides, ctx) ← evalSides env sides ctx
      rollTerm env modifiers (asU32 n) dieSides ctx

def evalSides (env : Env α) : Sides α → EvalCtx → Except Failure (DieSides × EvalCtx)
  | .fate, ctx => .ok (.fate, ctx)
  | .coin, ctx => .ok (.coin, ctx)
  | .numeric sides, ctx => do
    let (v, ctx) ← evalExpr env sides ctx
    let n ← intValue v
    if n < 1 then .error (.error (.parseError "die size must be at least 1" 0))
    else return (.numeric (asU32 n), ctx)

def evalItems (env : Env α) : List (Expr α) → EvalCtx → Except Failure (List α × EvalCtx)
  | [], ctx => .ok ([], ctx)
  | item :: items, ctx => do
    let (v, ctx) ← evalExpr env item ctx
    let (totals, ctx) ← evalItems env items ctx
    return (v.value :: totals, ctx)

end

/-- `eval_int_expr` -/
def evalIntExpr (env : Env α) (expr : Expr α) (ctx : EvalCtx) : Except Failure (Int × EvalCtx) := do
  let (v, ctx) ← evalExpr env expr ctx
  return (← intValue v, ctx)

/-- A parsed formula. -/
structure DiceFormula (α : Type) where
  source : String
  ast : Expr α

def DiceFormula.parse (source : String) : Except FormulaError (DiceFormula α) := do
  let ast ← Dice.parse source
  return { source, ast }

/-- `resolve`, taking each term's dice from a source while it has them, and draws from one on. -/
def resolveWith (env : Env α) (formula : DiceFormula α) (source : Option DrawSource) (drawn : Nat) :
    Except Failure (RollResolution α × EvalCtx) := do
  let (result, ctx) ← evalExpr env formula.ast { drawn, dice := [], totalDiceRolled := 0, source }
  let value ← requireFinite result.value
  let kind :=
    match result.successCount with
    | some count => ResolutionKind.successCount count
    | none => .total value
  return ({ formula := formula.source, dice := ctx.dice, kind }, ctx)

def resolve (env : Env α) (formula : DiceFormula α) : Except Failure (RollResolution α) := do
  let (resolution, _) ← resolveWith env formula none 0
  return resolution

end ThunderForge.Dice
