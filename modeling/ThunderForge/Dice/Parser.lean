import ThunderForge.Basic
import ThunderForge.Dice.Ast

/-! The tokenizer and the recursive-descent parser of formulas (`thunderforge-dice/src/parser.rs`). What is left of
the tokens is shorter after each step, which is why the parser ends. -/

namespace ThunderForge.Dice

variable {α : Type} [Double α]

inductive Symbol where
  | plus
  | minus
  | star
  | slash
  | lParen
  | rParen
  | lBrace
  | rBrace
  | comma
  | eq
  | gt
  | lt
  deriving DecidableEq

inductive Token (α : Type) where
  | number (n : α)
  | ident (name : String)
  | symbol (symbol : Symbol)
  | eof

/-- What is left to parse, each token with its place in the source. -/
abbrev Tokens (α : Type) := List (Token α × Nat)

/-- The digits a number token takes, with one dot at most. -/
def spanNumber (seenDot : Bool) : List Char → List Char × List Char
  | [] => ([], [])
  | c :: cs =>
    if c.isDigit then ((c :: (spanNumber seenDot cs).1), (spanNumber seenDot cs).2)
    else if c = '.' ∧ seenDot = false then ((c :: (spanNumber true cs).1), (spanNumber true cs).2)
    else ([], c :: cs)

def isWordChar (c : Char) : Bool := c.isAlpha || c = '_'

def isNumberStart (c : Char) : Bool := c.isDigit || c = '.'

def symbolOf : Char → Option Symbol
  | '+' => some .plus
  | '-' => some .minus
  | '*' => some .star
  | '/' => some .slash
  | '(' => some .lParen
  | ')' => some .rParen
  | '{' => some .lBrace
  | '}' => some .rBrace
  | ',' => some .comma
  | '=' => some .eq
  | '>' => some .gt
  | '<' => some .lt
  | _ => none

theorem length_spanNumber (seenDot : Bool) (text : List Char) : (spanNumber seenDot text).2.length ≤ text.length := by
  induction text generalizing seenDot with
  | nil => exact le_rfl
  | cons c cs ih =>
      unfold spanNumber
      split_ifs
      · exact (ih seenDot).trans (Nat.le_succ _)
      · exact (ih true).trans (Nat.le_succ _)
      · exact le_rfl

/-- What is left after a number is shorter. -/
theorem length_afterNumber {c : Char} {cs : List Char} (h : isNumberStart c) :
    (spanNumber false (c :: cs)).2.length ≤ cs.length := by
  unfold spanNumber
  split_ifs with hdigit hdot
  · exact length_spanNumber false cs
  · exact length_spanNumber true cs
  · simp_all [isNumberStart]

/-- What is left after a word is shorter. -/
theorem length_afterWord {c : Char} {cs : List Char} (h : isWordChar c) :
    ((c :: cs).dropWhile isWordChar).length ≤ cs.length := by
  rw [List.dropWhile_cons_of_pos h]
  exact (List.dropWhile_suffix _).length_le

/-- The loop of `tokenize`, from a place in the source. -/
def tokenizeFrom (pos : Nat) (text : List Char) : Except FormulaError (Tokens α) :=
  match text with
  | [] => .ok [(.eof, pos)]
  | c :: cs =>
    if isWhitespace c then tokenizeFrom (pos + c.utf8Size) cs
    else if hnumber : isNumberStart c then
      let digits := String.ofList (spanNumber false (c :: cs)).1
      match Double.parse digits with
      | none => .error (.parseError ("invalid number \"" ++ digits ++ "\"") pos)
      | some value => do
        have := @length_afterNumber c cs hnumber
        let tokens ← tokenizeFrom (pos + digits.utf8ByteSize) (spanNumber false (c :: cs)).2
        return (.number value, pos) :: tokens
    else if hword : isWordChar c then do
      have := @length_afterWord c cs hword
      let name := String.ofList ((c :: cs).takeWhile isWordChar)
      let tokens ← tokenizeFrom (pos + name.utf8ByteSize) ((c :: cs).dropWhile isWordChar)
      return (.ident name, pos) :: tokens
    else
      match symbolOf c with
      | none => .error (.parseError ("unexpected character '" ++ String.ofList [c] ++ "'") pos)
      | some symbol => do
        let tokens ← tokenizeFrom (pos + c.utf8Size) cs
        return (.symbol symbol, pos) :: tokens
  termination_by text.length

def tokenize (source : String) : Except FormulaError (Tokens α) := tokenizeFrom 0 source.toList

/-! The parser. -/

/-- What a step leaves of the tokens. -/
abbrev Rest (ts : Tokens α) := { rest : Tokens α // rest.length ≤ ts.length }

/-- What a step leaves that has taken a token. -/
abbrev Fewer (ts : Tokens α) := { rest : Tokens α // rest.length < ts.length }

/-- `Parser::err` -/
def parseErr (message : String) (ts : Tokens α) : FormulaError :=
  .parseError message (match ts with
    | (_, pos) :: _ => pos
    | [] => 0)

def Symbol.debug : Symbol → String
  | plus => "Plus"
  | minus => "Minus"
  | star => "Star"
  | slash => "Slash"
  | lParen => "LParen"
  | rParen => "RParen"
  | lBrace => "LBrace"
  | rBrace => "RBrace"
  | comma => "Comma"
  | eq => "Eq"
  | gt => "Gt"
  | lt => "Lt"

def expect (expected : Symbol) : (ts : Tokens α) → Except FormulaError (Fewer ts)
  | (.symbol symbol, pos) :: rest =>
    if symbol = expected then .ok ⟨rest, Nat.lt_succ_self _⟩
    else .error (parseErr ("expected " ++ expected.debug) ((.symbol symbol, pos) :: rest))
  | ts => .error (parseErr ("expected " ++ expected.debug) ts)

/-- `str::to_ascii_lowercase` -/
def lowercase (name : String) : String := String.ofList (name.toList.map Char.toLower)

inductive Keyword where
  | keepHigh
  | keepLow
  | dropHigh
  | dropLow
  | rerollRecursive
  | rerollOnce
  | explodeOnce
  | explode
  | minMod
  | maxMod
  | countSuccess
  | countFailure
  | subtractFailure
  | evenMod
  | oddMod
  | marginSuccess
  deriving DecidableEq

def Keyword.text : Keyword → String
  | keepHigh => "kh"
  | keepLow => "kl"
  | dropHigh => "dh"
  | dropLow => "dl"
  | rerollRecursive => "rr"
  | rerollOnce => "r"
  | explodeOnce => "xo"
  | explode => "x"
  | minMod => "min"
  | maxMod => "max"
  | countSuccess => "cs"
  | countFailure => "cf"
  | subtractFailure => "sf"
  | evenMod => "eo"
  | oddMod => "od"
  | marginSuccess => "ms"

def modifierKeyword (ident : String) : Option Keyword :=
  [Keyword.keepHigh, .keepLow, .dropHigh, .dropLow, .rerollRecursive, .rerollOnce, .explodeOnce, .explode, .minMod,
    .maxMod, .countSuccess, .countFailure, .subtractFailure, .evenMod, .oddMod, .marginSuccess].find? fun keyword =>
      lowercase ident = keyword.text

/-- The count after a keyword, 1 where there is none. -/
def parseOptionalCount : (ts : Tokens α) → Except FormulaError (Nat × Rest ts)
  | (.number n, _) :: rest =>
    if Double.isNegative n = true ∨ Double.isWhole n = false then
      .error (parseErr "expected a non-negative whole number" rest)
    else .ok (Double.toU32 n, ⟨rest, Nat.le_succ _⟩)
  | ts => .ok (1, ⟨ts, le_rfl⟩)

def parseRequiredInt : (ts : Tokens α) → Except FormulaError (Int × Rest ts)
  | (.number n, _) :: rest => .ok (Double.toI64 n, ⟨rest, Nat.le_succ _⟩)
  | ts => .error (parseErr "expected a number" ts)

/-- The number of a comparison, whose operator has been taken. -/
def comparison (condition : Int → Condition) (ts : Tokens α) : Except FormulaError (Condition × Rest ts) := do
  let (n, rest) ← parseRequiredInt ts
  return (condition n, rest)

/-- A comparison, a bare number for `=`, or the greatest face. -/
def parseConditionOrDefault (ts : Tokens α) : Except FormulaError (Condition × Rest ts) :=
  match ts with
  | (.symbol .eq, _) :: rest => do
    let (condition, ⟨rest', h⟩) ← comparison .eq rest
    return (condition, ⟨rest', h.trans (Nat.le_succ _)⟩)
  | (.symbol .gt, _) :: (.symbol .eq, _) :: rest => do
    let (condition, ⟨rest', h⟩) ← comparison .gte rest
    return (condition, ⟨rest', (h.trans (Nat.le_succ _)).trans (Nat.le_succ _)⟩)
  | (.symbol .gt, _) :: rest => do
    let (condition, ⟨rest', h⟩) ← comparison .gt rest
    return (condition, ⟨rest', h.trans (Nat.le_succ _)⟩)
  | (.symbol .lt, _) :: (.symbol .eq, _) :: rest => do
    let (condition, ⟨rest', h⟩) ← comparison .lte rest
    return (condition, ⟨rest', (h.trans (Nat.le_succ _)).trans (Nat.le_succ _)⟩)
  | (.symbol .lt, _) :: rest => do
    let (condition, ⟨rest', h⟩) ← comparison .lt rest
    return (condition, ⟨rest', h.trans (Nat.le_succ _)⟩)
  | (.number n, _) :: rest => .ok (.eq (Double.toI64 n), ⟨rest, Nat.le_succ _⟩)
  | ts => .ok (.maxFace, ⟨ts, le_rfl⟩)

def withCount (modifier : Nat → Modifier) (ts : Tokens α) : Except FormulaError (Modifier × Rest ts) := do
  let (n, rest) ← parseOptionalCount ts
  return (modifier n, rest)

def withInt (modifier : Int → Modifier) (ts : Tokens α) : Except FormulaError (Modifier × Rest ts) := do
  let (n, rest) ← parseRequiredInt ts
  return (modifier n, rest)

def withCondition (modifier : Condition → Modifier) (ts : Tokens α) : Except FormulaError (Modifier × Rest ts) := do
  let (condition, rest) ← parseConditionOrDefault ts
  return (modifier condition, rest)

/-- A modifier, from after its keyword. -/
def parseModifier (keyword : Keyword) (ts : Tokens α) : Except FormulaError (Modifier × Rest ts) :=
  match keyword with
  | .keepHigh => withCount .keepHighest ts
  | .keepLow => withCount .keepLowest ts
  | .dropHigh => withCount .dropHighest ts
  | .dropLow => withCount .dropLowest ts
  | .rerollOnce => withCondition .reroll ts
  | .rerollRecursive => withCondition .rerollRecursive ts
  | .explode => withCondition .explode ts
  | .explodeOnce => withCondition .explodeOnce ts
  | .minMod => withInt .min ts
  | .maxMod => withInt .max ts
  | .countSuccess => withCondition .countSuccesses ts
  | .countFailure => withCondition .countFailures ts
  | .subtractFailure => withCondition .subtractFailureValue ts
  | .evenMod => .ok (.even, ⟨ts, le_rfl⟩)
  | .oddMod => .ok (.odd, ⟨ts, le_rfl⟩)
  | .marginSuccess => withInt .marginOfSuccess ts

def parseModifiers (ts : Tokens α) : Except FormulaError (List Modifier × Rest ts) :=
  match ts with
  | (.ident name, pos) :: rest =>
    match modifierKeyword name with
    | none => .ok ([], ⟨(.ident name, pos) :: rest, le_rfl⟩)
    | some keyword => do
      let (modifier, ⟨rest₁, h⟩) ← parseModifier keyword rest
      let (modifiers, ⟨rest₂, h'⟩) ← parseModifiers rest₁
      return (modifier :: modifiers, ⟨rest₂, (h'.trans h).trans (Nat.le_succ _)⟩)
  | ts => .ok ([], ⟨ts, le_rfl⟩)
  termination_by ts.length

/-- Whether the next token is a word that begins with the dice operator. -/
def peekStartsWithD (ts : Tokens α) : Bool :=
  match ts with
  | (.ident name, _) :: _ => name.toList.head? = some 'd' || name.toList.head? = some 'D'
  | _ => false

/-- Takes the dice operator off the next word. -/
def consumeLeadingD : (ts : Tokens α) → Rest ts
  | (.ident name, pos) :: rest =>
    if name.utf8ByteSize = 1 then ⟨rest, Nat.le_succ _⟩
    else ⟨(.ident (String.ofList (name.toList.drop 1)), pos) :: rest, le_rfl⟩
  | ts => ⟨ts, le_rfl⟩

def sizeExpected : String :=
  "expected die size after 'd' (a number, 'F', 'c', or a parenthesized expression)"

/-- The functions that are written with parentheses after them. -/
def mathFnOf (name : String) : Option MathFn :=
  if lowercase name = "floor" then some .floor
  else if lowercase name = "ceil" then some .ceil
  else if lowercase name = "round" then some .round
  else if lowercase name = "abs" then some .abs
  else none

mutual

/-- Terms, added and subtracted from the left. -/
def parseExpr (ts : Tokens α) : Except FormulaError (Expr α × Fewer ts) := do
  let (left, ⟨rest, h⟩) ← parseTerm ts
  let (expr, ⟨rest', h'⟩) ← parseExprLoop left rest
  return (expr, ⟨rest', by omega⟩)
  termination_by 8 * ts.length + 5

def parseExprLoop (left : Expr α) (ts : Tokens α) : Except FormulaError (Expr α × Rest ts) :=
  match ts with
  | (.symbol .plus, _) :: rest => do
    let (right, ⟨rest₁, h⟩) ← parseTerm rest
    let (expr, ⟨rest₂, h'⟩) ← parseExprLoop (.binOp left .add right) rest₁
    return (expr, ⟨rest₂, by rw [List.length_cons]; omega⟩)
  | (.symbol .minus, _) :: rest => do
    let (right, ⟨rest₁, h⟩) ← parseTerm rest
    let (expr, ⟨rest₂, h'⟩) ← parseExprLoop (.binOp left .sub right) rest₁
    return (expr, ⟨rest₂, by rw [List.length_cons]; omega⟩)
  | ts => .ok (left, ⟨ts, le_rfl⟩)
  termination_by 8 * ts.length
  decreasing_by all_goals (simp only [List.length_cons]; omega)

/-- Unary expressions, multiplied and divided from the left. -/
def parseTerm (ts : Tokens α) : Except FormulaError (Expr α × Fewer ts) := do
  let (left, ⟨rest, h⟩) ← parseUnary ts
  let (expr, ⟨rest', h'⟩) ← parseTermLoop left rest
  return (expr, ⟨rest', by omega⟩)
  termination_by 8 * ts.length + 4

def parseTermLoop (left : Expr α) (ts : Tokens α) : Except FormulaError (Expr α × Rest ts) :=
  match ts with
  | (.symbol .star, _) :: rest => do
    let (right, ⟨rest₁, h⟩) ← parseUnary rest
    let (expr, ⟨rest₂, h'⟩) ← parseTermLoop (.binOp left .mul right) rest₁
    return (expr, ⟨rest₂, by rw [List.length_cons]; omega⟩)
  | (.symbol .slash, _) :: rest => do
    let (right, ⟨rest₁, h⟩) ← parseUnary rest
    let (expr, ⟨rest₂, h'⟩) ← parseTermLoop (.binOp left .div right) rest₁
    return (expr, ⟨rest₂, by rw [List.length_cons]; omega⟩)
  | ts => .ok (left, ⟨ts, le_rfl⟩)
  termination_by 8 * ts.length
  decreasing_by all_goals (simp only [List.length_cons]; omega)

def parseUnary (ts : Tokens α) : Except FormulaError (Expr α × Fewer ts) :=
  match ts with
  | (.symbol .minus, _) :: rest => do
    let (inner, ⟨rest', h⟩) ← parseUnary rest
    return (.neg inner, ⟨rest', h.trans (Nat.lt_succ_self _)⟩)
  | ts => parseDiceOrPrimary ts
  termination_by 8 * ts.length + 3

/-- A number or a parenthesised expression may be the count of a dice term. -/
def parseDiceOrPrimary (ts : Tokens α) : Except FormulaError (Expr α × Fewer ts) :=
  if peekStartsWithD ts then do
    let (expr, ⟨rest, h⟩) ← parseDiceTerm (.number (Double.ofInt 1)) (consumeLeadingD ts).val
    return (expr, ⟨rest, h.trans_le (consumeLeadingD ts).property⟩)
  else
    match ts with
    | (.number n, _) :: rest => do
      let (expr, ⟨rest', h⟩) ← parseAfterCount (.number n) rest
      return (expr, ⟨rest', Nat.lt_succ_of_le h⟩)
    | (.symbol .lParen, _) :: rest => do
      let (inner, ⟨rest₁, h⟩) ← parseExpr rest
      let ⟨rest₂, h'⟩ ← expect .rParen rest₁
      let (expr, ⟨rest₃, h''⟩) ← parseAfterCount inner rest₂
      return (expr, ⟨rest₃, by rw [List.length_cons]; omega⟩)
    | ts => parseAtom ts
  termination_by 8 * ts.length + 2
  decreasing_by
    · have := (consumeLeadingD ts).property
      omega
    iterate 3
      rw [List.length_cons]
      omega
    omega

/-- What may be a count, and is one where a dice operator follows. -/
def parseAfterCount (candidate : Expr α) (ts : Tokens α) : Except FormulaError (Expr α × Rest ts) :=
  if peekStartsWithD ts then do
    let (expr, ⟨rest, h⟩) ← parseDiceTerm candidate (consumeLeadingD ts).val
    return (expr, ⟨rest, (h.trans_le (consumeLeadingD ts).property).le⟩)
  else .ok (candidate, ⟨ts, le_rfl⟩)
  termination_by 8 * ts.length + 2
  decreasing_by
    have := (consumeLeadingD ts).property
    omega

def parseDiceTerm (count : Expr α) (ts : Tokens α) : Except FormulaError (Expr α × Fewer ts) := do
  let (sides, ⟨rest, h⟩) ← parseSides ts
  let (modifiers, ⟨rest', h'⟩) ← parseModifiers rest
  return (.dice (.mk count sides modifiers), ⟨rest', by omega⟩)
  termination_by 8 * ts.length + 1

def parseSides (ts : Tokens α) : Except FormulaError (Sides α × Fewer ts) :=
  match ts with
  | (.ident name, pos) :: rest =>
    if lowercase name = "f" then .ok (.fate, ⟨rest, Nat.lt_succ_self _⟩)
    else if lowercase name = "c" then .ok (.coin, ⟨rest, Nat.lt_succ_self _⟩)
    else .error (parseErr sizeExpected ((.ident name, pos) :: rest))
  | (.number n, _) :: rest => .ok (.numeric (.number n), ⟨rest, Nat.lt_succ_self _⟩)
  | (.symbol .lParen, _) :: rest => do
    let (inner, ⟨rest₁, h⟩) ← parseExpr rest
    let ⟨rest₂, h'⟩ ← expect .rParen rest₁
    return (.numeric inner, ⟨rest₂, by rw [List.length_cons]; omega⟩)
  | ts => .error (parseErr sizeExpected ts)
  termination_by 8 * ts.length
  decreasing_by all_goals (simp only [List.length_cons]; omega)

def parseAtom (ts : Tokens α) : Except FormulaError (Expr α × Fewer ts) :=
  match ts with
  | (.number n, _) :: rest => .ok (.number n, ⟨rest, Nat.lt_succ_self _⟩)
  | (.symbol .lParen, _) :: rest => do
    let (inner, ⟨rest₁, h⟩) ← parseExpr rest
    let ⟨rest₂, h'⟩ ← expect .rParen rest₁
    return (inner, ⟨rest₂, by rw [List.length_cons]; omega⟩)
  | (.symbol .lBrace, _) :: rest => do
    let (items, ⟨rest₁, h⟩) ← parseItems rest
    let ⟨rest₂, h'⟩ ← expect .rBrace rest₁
    let (modifiers, ⟨rest₃, h''⟩) ← parseModifiers rest₂
    return (.pool items modifiers, ⟨rest₃, by rw [List.length_cons]; omega⟩)
  | (.ident name, _) :: rest =>
    match mathFnOf name with
    | none => .ok (.placeholder name, ⟨rest, Nat.lt_succ_self _⟩)
    | some kind => do
      let ⟨rest₁, h⟩ ← expect .lParen rest
      let (inner, ⟨rest₂, h'⟩) ← parseExpr rest₁
      let ⟨rest₃, h''⟩ ← expect .rParen rest₂
      return (.mathFn kind inner, ⟨rest₃, by rw [List.length_cons]; omega⟩)
  | ts => .error (parseErr "expected a number, placeholder, dice term, or '('" ts)
  termination_by 8 * ts.length
  decreasing_by all_goals (simp only [List.length_cons]; omega)

/-- The items of a pool, with commas between them. -/
def parseItems (ts : Tokens α) : Except FormulaError (List (Expr α) × Fewer ts) := do
  let (item, ⟨rest, h⟩) ← parseExpr ts
  let (items, ⟨rest', h'⟩) ← parseMoreItems rest
  return (item :: items, ⟨rest', by omega⟩)
  termination_by 8 * ts.length + 6

def parseMoreItems (ts : Tokens α) : Except FormulaError (List (Expr α) × Rest ts) :=
  match ts with
  | (.symbol .comma, _) :: rest => do
    let (item, ⟨rest₁, h⟩) ← parseExpr rest
    let (items, ⟨rest₂, h'⟩) ← parseMoreItems rest₁
    return (item :: items, ⟨rest₂, by rw [List.length_cons]; omega⟩)
  | ts => .ok ([], ⟨ts, le_rfl⟩)
  termination_by 8 * ts.length
  decreasing_by all_goals (simp only [List.length_cons]; omega)

end

/-- A whole source: every token is taken. -/
def parse (source : String) : Except FormulaError (Expr α) := do
  let tokens ← tokenize source
  let (expr, ⟨rest, _⟩) ← parseExpr tokens
  match rest with
  | (.eof, _) :: _ => return expr
  | rest => throw (parseErr "unexpected trailing input" rest)

end ThunderForge.Dice
