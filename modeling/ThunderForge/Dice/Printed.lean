import ThunderForge.Dice.Lexing
import ThunderForge.Dice.Printing

/-! The tokens that a formula is printed as. -/

namespace ThunderForge.Dice

variable {α : Type} [Double α]

/-! The tokens of a tree. -/

/-- The number that an integer is read as. -/
def readInt (n : Int) : α := (Double.parse (toString n)).getD (Double.ofInt n)

/-- The comparison and the number that a modifier's keyword is followed by. -/
def modifierNumber (modifier : Modifier) : Option (String × Int) :=
  match modifierParts modifier with
  | (_, condition, none) => condition.bind conditionParts
  | (_, _, some n) => some ("", n)

def numberTokens : Option (String × Int) → List (Token α)
  | none => []
  | some (op, n) => (op.toList.filterMap symbolOf).map .symbol ++ [.number (readInt n)]

def modifierTokens (modifier : Modifier) : List (Token α) :=
  .ident (modifierParts modifier).1 :: numberTokens (modifierNumber modifier)

def modifiersTokens (modifiers : List Modifier) : List (Token α) := modifiers.flatMap modifierTokens

def wrapped (wrap : Bool) (tokens : List (Token α)) : List (Token α) :=
  if wrap then .symbol .lParen :: (tokens ++ [.symbol .rParen]) else tokens

def opSymbol : BinOp → Symbol
  | .add => .plus
  | .sub => .minus
  | .mul => .star
  | .div => .slash

def mathFnName : MathFn → String
  | .floor => "floor"
  | .ceil => "ceil"
  | .round => "round"
  | .abs => "abs"

mutual

def exprTokens : Expr α → List (Token α)
  | .number n => [.number n]
  | .placeholder name => [.ident name]
  | .dice term => termTokens term
  | .pool items modifiers => .symbol .lBrace :: (itemsTokens items ++ .symbol .rBrace :: modifiersTokens modifiers)
  | .neg inner => .symbol .minus :: wrapped (precedence inner < 3) (exprTokens inner)
  | .binOp lhs op rhs =>
    wrapped (precedence lhs < precedence (.binOp lhs op rhs)) (exprTokens lhs) ++
      .symbol (opSymbol op) :: wrapped (precedence rhs ≤ precedence (.binOp lhs op rhs)) (exprTokens rhs)
  | .mathFn kind inner => .ident (mathFnName kind) :: .symbol .lParen :: (exprTokens inner ++ [.symbol .rParen])

def itemsTokens : List (Expr α) → List (Token α)
  | [] => []
  | item :: items => exprTokens item ++ moreItemsTokens items

def moreItemsTokens : List (Expr α) → List (Token α)
  | [] => []
  | item :: items => .symbol .comma :: (exprTokens item ++ moreItemsTokens items)

def termTokens : DiceTerm α → List (Token α)
  | .mk count sides modifiers => wrapped (!isBare count) (exprTokens count) ++ (sidesTokens sides ++ modifiersTokens modifiers)

/-- The dice operator and the size, which are one word where the size is a letter. -/
def sidesTokens : Sides α → List (Token α)
  | .fate => [.ident "dF"]
  | .coin => [.ident "dc"]
  | .numeric sides => .ident "d" :: wrapped (!isBare sides) (exprTokens sides)

end

/-! The trees that can be printed and read. -/

/-- An integer that is read as itself. -/
def ReadsBack (α : Type) [Double α] (n : Int) : Prop :=
  0 ≤ n ∧ ∃ x : α, Double.parse (toString n) = some x ∧ Double.toI64 x = n

def Condition.Printable (α : Type) [Double α] : Condition → Prop
  | .eq n | .gt n | .gte n | .lt n | .lte n => ReadsBack α n
  | .maxFace => True

def Modifier.Printable (α : Type) [Double α] : Modifier → Prop
  | .keepHighest n | .keepLowest n | .dropHighest n | .dropLowest n => n ≤ 4294967295
  | .reroll condition | .rerollRecursive condition | .explode condition | .explodeOnce condition
  | .countSuccesses condition | .countFailures condition | .subtractFailureValue condition => condition.Printable α
  | .min n | .max n | .marginOfSuccess n => ReadsBack α n
  | .even | .odd => True

/-- A name that is read as a placeholder and nothing else. -/
def IsPlaceholder (name : String) : Prop :=
  IsName name ∧ name.toList.head? ≠ some 'd' ∧ name.toList.head? ≠ some 'D' ∧ mathFnOf name = none

mutual

/-- A tree of literals with a property, of names and of modifiers that can be read. -/
def Expr.Lexical (P : α → Prop) : Expr α → Prop
  | .number n => IsLiteral n ∧ P n
  | .placeholder name => IsPlaceholder name
  | .dice term => term.Lexical P
  | .pool items modifiers => items ≠ [] ∧ itemsLexical P items ∧ ∀ modifier ∈ modifiers, modifier.Printable α
  | .neg inner => inner.Lexical P
  | .binOp lhs _ rhs => lhs.Lexical P ∧ rhs.Lexical P
  | .mathFn _ inner => inner.Lexical P

def itemsLexical (P : α → Prop) : List (Expr α) → Prop
  | [] => True
  | item :: items => item.Lexical P ∧ itemsLexical P items

def DiceTerm.Lexical (P : α → Prop) : DiceTerm α → Prop
  | .mk count sides modifiers => count.Lexical P ∧ sides.Lexical P ∧ ∀ modifier ∈ modifiers, modifier.Printable α

def Sides.Lexical (P : α → Prop) : Sides α → Prop
  | .fate | .coin => True
  | .numeric sides => sides.Lexical P

end

abbrev Expr.Printable (expr : Expr α) : Prop := expr.Lexical fun n => Double.isFinite n = true

abbrev itemsPrintable (items : List (Expr α)) : Prop := itemsLexical (fun n => Double.isFinite n = true) items

abbrev DiceTerm.Printable (term : DiceTerm α) : Prop := term.Lexical fun n => Double.isFinite n = true

abbrev Sides.Printable (sides : Sides α) : Prop := sides.Lexical fun n => Double.isFinite n = true

/-! What is written is read as the tokens of the tree. -/

/-- What is written is the same text wherever it is written, and is read as some tokens where more follows that may. -/
def Writes (follow : List (Token α) → Prop) (write : String → String) (tokens : List (Token α)) : Prop :=
  ∃ text, (∀ out, (write out).toList = out.toList ++ text) ∧
    ∀ {cs : List Char} {after : List (Token α)}, Lexed cs after → follow after → Lexed (text ++ cs) (tokens ++ after)

def NotNumber (after : List (Token α)) : Prop := ∀ token ∈ after.head?, token.isNumber = false

def NotIdent (after : List (Token α)) : Prop := ∀ token ∈ after.head?, token.isIdent = false

/-- What neither a number nor a word runs into. -/
def Apart (after : List (Token α)) : Prop := NotNumber after ∧ NotIdent after

omit [Double α] in
theorem apart_symbol (symbol : Symbol) (after : List (Token α)) : Apart (.symbol symbol :: after) := by
  constructor
  · rintro token ⟨⟩
    rfl
  · rintro token ⟨⟩
    rfl

omit [Double α] in
theorem notNumber_ident (name : String) (after : List (Token α)) : NotNumber (.ident name :: after) := by
  rintro token ⟨⟩
  rfl

omit [Double α] in
theorem notIdent_number (n : α) (after : List (Token α)) : NotIdent (.number n :: after) := by
  rintro token ⟨⟩
  rfl

theorem notNumber_modifiers (modifiers : List Modifier) {after : List (Token α)} (h : NotNumber after) :
    NotNumber (modifiersTokens modifiers ++ after) := by
  cases modifiers with
  | nil => exact h
  | cons modifier modifiers => exact notNumber_ident _ _

section writes

variable {follow follow' : List (Token α) → Prop} {write write' : String → String} {tokens tokens' : List (Token α)}

theorem Writes.imp (h : Writes follow write tokens) (himp : ∀ {after}, follow' after → follow after) :
    Writes follow' write tokens := by
  obtain ⟨text, hout, hlexed⟩ := h
  exact ⟨text, hout, fun hcs hafter => hlexed hcs (himp hafter)⟩

/-- One thing is written after another. -/
theorem Writes.andThen (h : Writes follow write tokens) (h' : Writes follow' write' tokens')
    (hfollow : ∀ {after}, follow' after → follow (tokens' ++ after)) :
    Writes follow' (fun out => write' (write out)) (tokens ++ tokens') := by
  obtain ⟨text, hout, hlexed⟩ := h
  obtain ⟨text', hout', hlexed'⟩ := h'
  refine ⟨text ++ text', fun out => ?_, fun hcs hafter => ?_⟩
  · rw [hout', hout, List.append_assoc]
  · rw [List.append_assoc, List.append_assoc]
    exact hlexed (hlexed' hcs hafter) (hfollow hafter)

/-- A symbol, after and before which anything may stand. -/
theorem writes_symbol {c : Char} {symbol : Symbol} (h : symbolOf c = some symbol) :
    Writes (fun _ => True) (fun out => out.push c) [Token.symbol (α := α) symbol] :=
  ⟨[c], fun out => by rw [String.toList_push], fun hcs _ => .symbol h hcs⟩

theorem writes_name {name : String} (h : IsName name) :
    Writes NotIdent (fun out => out ++ name) [Token.ident (α := α) name] := by
  refine ⟨name.toList, fun _ => String.toList_append, fun hcs hafter => ?_⟩
  rw [← String.ofList_toList (s := name)]
  rw [String.toList_ofList]
  exact .word h.1 h.2 (hcs.not_isWordChar hafter) hcs

theorem writes_text {text : String} {n : α} (hnumeral : Double.IsNumeral text.toList)
    (hparse : Double.parse text = some n) : Writes NotNumber (fun out => out ++ text) [Token.number n] := by
  refine ⟨text.toList, fun _ => String.toList_append, fun hcs hafter => ?_⟩
  exact .number hnumeral (by rwa [String.ofList_toList]) (hcs.not_isNumberStart hafter) hcs

theorem toString_natCast (n : Nat) : toString (n : Int) = toString n := rfl

/-- A literal that is whole is a natural number. -/
theorem natCast_of_literal {n : α} {value : ℚ} (h : IsLiteral n) (hvalue : Double.magnitude n = .finite value)
    (hwhole : Double.isWhole n = true) : ∃ k : Nat, value = k := by
  obtain ⟨text, hnumeral, hparse⟩ := h
  have hnonneg : 0 ≤ value := by
    rcases Double.magnitude_parse hnumeral hparse with ⟨value', hnonneg, hvalue'⟩ | hinfinite
    · rw [hvalue] at hvalue'
      cases hvalue'
      exact hnonneg
    · rw [hvalue] at hinfinite
      exact nomatch hinfinite
  have hden : value.den = 1 := by simpa [Double.isWhole, hvalue] using hwhole
  have hnum : ((value.num.toNat : Nat) : Int) = value.num := Int.toNat_of_nonneg (Rat.num_nonneg.mpr hnonneg)
  refine ⟨value.num.toNat, ?_⟩
  rw [← Int.cast_natCast, hnum]
  exact ((Rat.den_eq_one_iff value).mp hden).symm

theorem toI64_natCast {n : α} {k : Nat} (hvalue : Double.magnitude n = .finite k) (hbound : k ≤ 9223372036854775807) :
    Double.toI64 n = k := by
  unfold Double.toI64 Double.toInt
  rw [hvalue]
  simp only [Double.truncate, Double.clamp, Rat.num_natCast, Rat.den_natCast, Nat.cast_one, Int.tdiv_one]
  omega

/-- A literal is written as it is read, whichever way a number is written. -/
theorem writeNumber_eq {n : α} {value : ℚ} (h : IsLiteral n) (hvalue : Double.magnitude n = .finite value)
    (out : String) : writeNumber out n = out ++ Double.display n := by
  unfold writeNumber
  split_ifs with hshort
  · obtain ⟨hwhole, hbound⟩ := hshort
    obtain ⟨k, rfl⟩ := natCast_of_literal h hvalue hwhole
    have hk : k < 1000000000000000 := by
      rw [Double.value, hvalue, Nat.abs_cast] at hbound
      exact_mod_cast hbound
    obtain ⟨text, hnumeral, hparse⟩ := h
    rw [toI64_natCast hvalue (by omega), toString_natCast, Double.display_whole hnumeral hparse hvalue]
  · rfl

theorem writes_number {n : α} (h : IsLiteral n) (hfinite : Double.isFinite n = true) :
    Writes NotNumber (fun out => writeNumber out n) [Token.number n] := by
  obtain ⟨value, hvalue⟩ : ∃ value, Double.magnitude n = .finite value := by
    unfold Double.isFinite at hfinite
    split at hfinite
    · exact ⟨_, by assumption⟩
    · exact absurd hfinite (by decide)
    · exact absurd hfinite (by decide)
  have hsame : (fun out => writeNumber out n) = fun out => out ++ Double.display n := by
    funext out
    exact writeNumber_eq h hvalue out
  obtain ⟨text, hnumeral, hparse⟩ := h
  obtain ⟨hnumeral', hparse'⟩ := Double.parse_display hnumeral hparse hvalue
  rw [hsame]
  exact writes_text hnumeral' hparse'

theorem Writes.parenthesised (h : Writes Apart write tokens) :
    Writes (fun _ => True) (fun out => writeWrapped out write true) (wrapped true tokens) := by
  have hopen : Writes (fun _ => True) (fun out => out.push '(') [Token.symbol (α := α) .lParen] := writes_symbol rfl
  have hclose : Writes (fun _ => True) (fun out => out.push ')') [Token.symbol (α := α) .rParen] := writes_symbol rfl
  exact (hopen.andThen h fun _ => trivial).andThen hclose fun _ => apart_symbol _ _

theorem Writes.wrapped (h : Writes Apart write tokens) (wrap : Bool) :
    Writes Apart (fun out => writeWrapped out write wrap) (wrapped wrap tokens) := by
  cases wrap with
  | false => exact h
  | true => exact h.parenthesised.imp fun _ => trivial

/-- A count or a size ends in a digit or a parenthesis. -/
theorem writes_operand {expr : Expr α} (hexpr : expr.Printable)
    (h : Writes Apart (fun out => writeExpr out expr) (exprTokens expr)) :
    Writes NotNumber (fun out => writeOperand out (fun out => writeExpr out expr) expr)
      (Dice.wrapped (!isBare expr) (exprTokens expr)) := by
  unfold writeOperand
  cases hbare : isBare expr with
  | false => exact h.parenthesised.imp fun _ => trivial
  | true =>
      cases expr with
      | number n =>
          rw [Expr.Printable, Expr.Lexical] at hexpr
          exact writes_number hexpr.1 hexpr.2
      | _ => exact nomatch hbare

end writes

/-! Modifiers. -/

def keywordOf : Modifier → Keyword
  | .keepHighest _ => .keepHigh
  | .keepLowest _ => .keepLow
  | .dropHighest _ => .dropHigh
  | .dropLowest _ => .dropLow
  | .reroll _ => .rerollOnce
  | .rerollRecursive _ => .rerollRecursive
  | .explode _ => .explode
  | .explodeOnce _ => .explodeOnce
  | .min _ => .minMod
  | .max _ => .maxMod
  | .countSuccesses _ => .countSuccess
  | .countFailures _ => .countFailure
  | .subtractFailureValue _ => .subtractFailure
  | .even => .evenMod
  | .odd => .oddMod
  | .marginOfSuccess _ => .marginSuccess

theorem keyword_text (modifier : Modifier) : (modifierParts modifier).1 = (keywordOf modifier).text := by
  cases modifier <;> rfl

theorem isName_keyword (keyword : Keyword) : IsName keyword.text := by
  cases keyword <;> exact ⟨by decide, by decide⟩

theorem letter_keyword (keyword : Keyword) : keyword.text.toList.getLast?.any Char.isAlpha = true := by
  cases keyword <;> decide

theorem writeModifier_eq (out : String) (modifier : Modifier) :
    writeModifier out modifier = match modifierNumber modifier with
      | none => out ++ (keywordOf modifier).text
      | some (op, n) => out ++ (keywordOf modifier).text ++ op ++ toString n := by
  cases modifier with
  | reroll condition | rerollRecursive condition | explode condition | explodeOnce condition
  | countSuccesses condition | countFailures condition | subtractFailureValue condition =>
    cases hparts : conditionParts condition <;>
      simp only [writeModifier, modifierParts, writeCount, writeCondition, modifierNumber, keywordOf, Keyword.text,
        Option.bind_some, hparts]
  | _ =>
    simp only [writeModifier, modifierParts, writeCount, writeCondition, modifierNumber, keywordOf, Keyword.text,
      String.append_empty, Option.bind_none]

/-- A comparison and a number that are read. -/
def IsNumberPart (α : Type) [Double α] (op : String) (n : Int) : Prop :=
  (op.toList.all fun c => (symbolOf c).isSome) = true ∧ 0 ≤ n ∧ ∃ x : α, Double.parse (toString n) = some x

/-- The number after a keyword is read. -/
theorem isNumberPart_modifierNumber {modifier : Modifier} {op : String} {n : Int} (h : modifier.Printable α)
    (hnumber : modifierNumber modifier = some (op, n)) : IsNumberPart α op n := by
  have hcount : ∀ count : Nat, count ≤ 4294967295 → some ("", (count : Int)) = some (op, n) →
      IsNumberPart α op n := by
    rintro count hle ⟨⟩
    refine ⟨rfl, by omega, Double.ofInt count, ?_⟩
    rw [toString_natCast]
    exact Double.parse_ofInt count (by omega)
  have hint : ∀ m : Int, ReadsBack α m → some ("", m) = some (op, n) →
      IsNumberPart α op n := by
    rintro m ⟨hnonneg, x, hparse, -⟩ ⟨⟩
    exact ⟨rfl, hnonneg, x, hparse⟩
  have hcondition : ∀ condition : Condition, condition.Printable α → conditionParts condition = some (op, n) →
      IsNumberPart α op n := by
    intro condition hprintable hparts
    cases condition with
    | maxFace => exact nomatch hparts
    | eq m | gt m | gte m | lt m | lte m =>
        obtain ⟨hnonneg, x, hparse, -⟩ := hprintable
        cases hparts
        exact ⟨by decide, hnonneg, x, hparse⟩
  cases modifier with
  | keepHighest count | keepLowest count | dropHighest count | dropLowest count => exact hcount count h hnumber
  | min m | max m | marginOfSuccess m => exact hint m h hnumber
  | even | odd => exact nomatch hnumber
  | reroll condition | rerollRecursive condition | explode condition | explodeOnce condition | countSuccesses condition
  | countFailures condition | subtractFailureValue condition => exact hcondition condition h hnumber

theorem lexed_symbols {symbols cs : List Char} {after : List (Token α)}
    (h : (symbols.all fun c => (symbolOf c).isSome) = true) (hcs : Lexed cs after) :
    Lexed (symbols ++ cs) ((symbols.filterMap symbolOf).map .symbol ++ after) := by
  induction symbols with
  | nil => exact hcs
  | cons c symbols ih =>
      rw [List.all_cons, Bool.and_eq_true] at h
      obtain ⟨symbol, hsymbol⟩ := Option.isSome_iff_exists.mp h.1
      rw [List.filterMap_cons_some hsymbol]
      exact .symbol hsymbol (ih h.2)

theorem lexed_readInt {n : Int} (hnonneg : 0 ≤ n) {x : α} (hparse : Double.parse (toString n) = some x) {cs : List Char}
    {after : List (Token α)} (hcs : Lexed cs after) (hafter : NotNumber after) :
    Lexed ((toString n).toList ++ cs) (.number (readInt n) :: after) := by
  obtain ⟨k, rfl⟩ := Int.eq_ofNat_of_zero_le hnonneg
  have hread : readInt (k : Int) = x := by rw [readInt, hparse, Option.getD_some]
  rw [hread]
  refine .number (Double.isNumeral_toString k) ?_ (hcs.not_isNumberStart hafter) hcs
  rw [String.ofList_toList]
  exact hparse

theorem not_letter_digits (k : Nat) : (toString k).toList.getLast?.any Char.isAlpha = false := by
  rw [Nat.toString_eq_ofList_toDigits, String.toList_ofList]
  cases hlast : (Nat.toDigits 10 k).getLast? with
  | none => rfl
  | some c =>
      have hdigit : c.isDigit = true :=
        List.all_eq_true.mp (Double.all_isDigit_toDigits k) c (List.mem_of_getLast? hlast)
      rw [Option.any_some, Bool.eq_false_iff]
      intro halpha
      have hword : isWordChar c = true := by simp [isWordChar, halpha]
      have hnumber := isNumberStart_of_isDigit hdigit
      rw [not_isNumberStart_of_isWordChar hword] at hnumber
      exact Bool.false_ne_true hnumber

theorem endsInLetter_append (out text : String) (hne : text.toList ≠ []) :
    endsInLetter (out ++ text) = text.toList.getLast?.any Char.isAlpha := by
  obtain ⟨c, hlast⟩ := Option.isSome_iff_exists.mp (List.getLast?_isSome.mpr hne)
  rw [endsInLetter, String.toList_append, List.getLast?_append, hlast]
  rfl

/-- A modifier, and whether a keyword may come straight after it. -/
theorem writes_modifier {modifier : Modifier} (h : modifier.Printable α) :
    ∃ text : List Char, (∀ out, (writeModifier out modifier).toList = out.toList ++ text) ∧
      (∀ out, endsInLetter (writeModifier out modifier) = (modifierNumber modifier).isNone) ∧
      ∀ {cs : List Char} {after : List (Token α)}, Lexed cs after → NotNumber after →
        ((modifierNumber modifier).isNone = true → ∀ c ∈ cs.head?, isWordChar c = false) →
        Lexed (text ++ cs) (modifierTokens modifier ++ after) := by
  have hname := isName_keyword (keywordOf modifier)
  have hwrite := fun out => writeModifier_eq out modifier
  have hword : ∀ {cs : List Char} {after : List (Token α)}, (∀ c ∈ cs.head?, isWordChar c = false) → Lexed cs after →
      Lexed ((keywordOf modifier).text.toList ++ cs) (.ident (keywordOf modifier).text :: after) := by
    intro cs after hends hcs
    have hlexed := Lexed.word hname.1 hname.2 hends hcs
    rwa [String.ofList_toList] at hlexed
  unfold modifierTokens
  rw [keyword_text]
  cases hnumber : modifierNumber modifier with
  | none =>
      simp only [hnumber] at hwrite
      refine ⟨(keywordOf modifier).text.toList, fun out => ?_, fun out => ?_, fun hcs _ hends => ?_⟩
      · rw [hwrite, String.toList_append]
      · rw [hwrite, endsInLetter_append _ _ hname.1, letter_keyword]
        rfl
      · exact hword (hends rfl) hcs
  | some part =>
      obtain ⟨op, n⟩ := part
      simp only [hnumber] at hwrite
      obtain ⟨hop, hnonneg, x, hparse⟩ := isNumberPart_modifierNumber h hnumber
      refine ⟨(keywordOf modifier).text.toList ++ (op.toList ++ (toString n).toList), fun out => ?_, fun out => ?_,
        fun {cs after} hcs hafter _ => ?_⟩
      · rw [hwrite, String.toList_append, String.toList_append, String.toList_append, List.append_assoc, List.append_assoc]
      · obtain ⟨k, rfl⟩ := Int.eq_ofNat_of_zero_le hnonneg
        rw [hwrite, toString_natCast, endsInLetter_append, not_letter_digits]
        · rfl
        · rw [Nat.toString_eq_ofList_toDigits, String.toList_ofList]
          exact Double.toDigits_ne_nil k
      · have hlexed := lexed_symbols hop (lexed_readInt hnonneg hparse hcs hafter)
        have hident : NotIdent ((op.toList.filterMap symbolOf).map .symbol ++ .number (readInt n : α) :: after) := by
          cases op.toList.filterMap symbolOf with
          | nil => exact notIdent_number _ _
          | cons symbol symbols => exact (apart_symbol symbol _).2
        simp only [numberTokens, List.append_assoc, List.cons_append, List.nil_append]
        exact hword (hlexed.not_isWordChar hident) hlexed

/-- The modifiers from a place on, kept apart from a letter before them. -/
theorem writes_modifiersFrom {modifiers : List Modifier} (h : ∀ modifier ∈ modifiers, modifier.Printable α) {i : Nat}
    {letter : Bool} (hletter : letter = true → 0 < i) :
    ∃ text : List Char,
      (∀ out, (0 < i → endsInLetter out = letter) → (writeModifiersFrom i out modifiers).toList = out.toList ++ text) ∧
      ∀ {cs : List Char} {after : List (Token α)}, Lexed cs after → Apart after →
        Lexed (text ++ cs) (modifiersTokens modifiers ++ after) ∧
          (letter = true → ∀ c ∈ (text ++ cs).head?, isWordChar c = false) := by
  induction modifiers generalizing i letter with
  | nil => exact ⟨[], fun out _ => (List.append_nil _).symm, fun hcs hafter => ⟨hcs, fun _ => hcs.not_isWordChar hafter.2⟩⟩
  | cons modifier modifiers ih =>
      obtain ⟨hfirst, hrest⟩ := List.forall_mem_cons.mp h
      obtain ⟨first, hout, hends, hlexed⟩ := writes_modifier hfirst
      obtain ⟨rest, hout', hlexed'⟩ :=
        @ih hrest (i + 1) (modifierNumber modifier).isNone fun _ => Nat.succ_pos i
      have hmodifier : ∀ {cs : List Char} {after : List (Token α)}, Lexed cs after → Apart after →
          Lexed (first ++ (rest ++ cs)) (modifiersTokens (modifier :: modifiers) ++ after) := by
        intro cs after hcs hafter
        obtain ⟨hmore, hword⟩ := hlexed' hcs hafter
        rw [modifiersTokens, List.flatMap_cons, List.append_assoc]
        exact hlexed hmore (notNumber_modifiers modifiers hafter.1) hword
      cases letter with
      | true =>
          have hi := hletter rfl
          refine ⟨' ' :: (first ++ rest), fun out hprevious => ?_, fun hcs hafter => ?_⟩
          · rw [writeModifiersFrom, if_pos ⟨hi, hprevious hi⟩, hout' _ fun _ => hends _, hout, String.toList_push]
            simp only [List.append_assoc, List.cons_append, List.nil_append]
          · rw [List.cons_append, List.append_assoc]
            refine ⟨.space (hmodifier hcs hafter), fun _ c hc => ?_⟩
            cases hc
            decide
      | false =>
          refine ⟨first ++ rest, fun out hprevious => ?_, fun hcs hafter => ?_⟩
          · have hstraight : ¬(0 < i ∧ endsInLetter out = true) := by
              rintro ⟨hi, htrue⟩
              exact Bool.false_ne_true ((hprevious hi).symm.trans htrue)
            rw [writeModifiersFrom, if_neg hstraight, hout' _ fun _ => hends _, hout, List.append_assoc]
          · rw [List.append_assoc]
            exact ⟨hmodifier hcs hafter, fun hfalse => nomatch hfalse⟩

theorem writes_modifiers {modifiers : List Modifier} (h : ∀ modifier ∈ modifiers, modifier.Printable α) :
    Writes Apart (fun out => writeModifiers out modifiers) (modifiersTokens modifiers : List (Token α)) := by
  obtain ⟨text, hout, hlexed⟩ :=
    @writes_modifiersFrom α _ modifiers h 0 false fun hfalse => nomatch hfalse
  exact ⟨text, fun out => hout out fun hpos => absurd hpos (lt_irrefl 0), fun hcs hafter => (hlexed hcs hafter).1⟩

/-! Trees. -/

theorem writes_op (op : BinOp) : Writes (fun _ => True) (fun out => out ++ opText op) [Token.symbol (α := α) (opSymbol op)] := by
  have htext : ∃ c, (opText op).toList = [' ', c, ' '] ∧ symbolOf c = some (opSymbol op) := by
    cases op <;> exact ⟨_, rfl, rfl⟩
  obtain ⟨c, htext, hsymbol⟩ := htext
  refine ⟨_, fun _ => String.toList_append, fun hcs _ => ?_⟩
  rw [htext]
  exact .space (.symbol hsymbol (.space hcs))

theorem writes_comma : Writes (fun _ => True) (fun out => out ++ ", ") [Token.symbol (α := α) .comma] :=
  ⟨[',', ' '], fun _ => String.toList_append, fun hcs _ => .symbol rfl (.space hcs)⟩

theorem writes_mathFn (kind : MathFn) : Writes (fun _ => True) (fun out => out ++ mathFnText kind)
    [Token.ident (α := α) (mathFnName kind), .symbol .lParen] := by
  have htext : (mathFnText kind).toList = (mathFnName kind).toList ++ ['('] := by cases kind <;> rfl
  have hname : IsName (mathFnName kind) := by cases kind <;> exact ⟨by decide, by decide⟩
  refine ⟨_, fun _ => String.toList_append, fun {cs after} hcs _ => ?_⟩
  have hends : ∀ c ∈ ('(' :: cs).head?, isWordChar c = false := by
    rintro c ⟨⟩
    decide
  have hlexed := Lexed.word hname.1 hname.2 hends (.symbol rfl hcs)
  rw [String.ofList_toList] at hlexed
  rw [htext, List.append_assoc]
  exact hlexed

/-- A size that is a letter is one word with the dice operator, with a space after it where a modifier follows. -/
theorem writes_letter {c : Char} (hc : isWordChar c = true) (spaced : Bool) :
    Writes (fun after => spaced = false → NotIdent after)
      (fun out => if spaced then ((out.push 'd').push c).push ' ' else (out.push 'd').push c)
      [Token.ident (α := α) (String.ofList ['d', c])] := by
  have hword : ['d', c].all isWordChar = true := by
    rw [List.all_cons, List.all_cons, hc]
    rfl
  cases spaced with
  | true =>
      refine ⟨['d', c, ' '], fun out => ?_, fun {cs after} hcs _ => ?_⟩
      · simp only [if_true, String.toList_push, List.append_assoc, List.cons_append, List.nil_append]
      · have hends : ∀ c ∈ (' ' :: cs).head?, isWordChar c = false := by
          rintro c ⟨⟩
          decide
        exact Lexed.word (List.cons_ne_nil _ _) hword hends (.space hcs)
  | false =>
      refine ⟨['d', c], fun out => ?_, fun hcs hafter => ?_⟩
      · simp only [Bool.false_eq_true, if_false, String.toList_push, List.append_assoc, List.cons_append, List.nil_append]
      · exact Lexed.word (List.cons_ne_nil _ _) hword (hcs.not_isWordChar (hafter rfl)) hcs

theorem notIdent_operand (expr : Expr α) (after : List (Token α)) :
    NotIdent (wrapped (!isBare expr) (exprTokens expr) ++ after) := by
  cases hbare : isBare expr with
  | false => exact (apart_symbol _ _).2
  | true =>
      cases expr with
      | number n =>
          rw [exprTokens]
          exact notIdent_number _ _
      | _ => exact nomatch hbare

theorem apart_moreItems (items : List (Expr α)) {after : List (Token α)} (h : Apart after) :
    Apart (moreItemsTokens items ++ after) := by
  cases items with
  | nil => exact h
  | cons item items => exact apart_symbol _ _

theorem notNumber_sides (sides : Sides α) (after : List (Token α)) : NotNumber (sidesTokens sides ++ after) := by
  cases sides <;> exact notNumber_ident _ _

mutual

theorem writes_expr : ∀ expr : Expr α, expr.Printable →
    Writes Apart (fun out => writeExpr out expr) (exprTokens expr)
  | .number n, h => by
      rw [Expr.Printable, Expr.Lexical] at h
      simp only [writeExpr, exprTokens]
      exact (writes_number h.1 h.2).imp fun hafter => hafter.1
  | .placeholder name, h => by
      rw [Expr.Printable, Expr.Lexical] at h
      simp only [writeExpr, exprTokens]
      exact (writes_name h.1).imp fun hafter => hafter.2
  | .dice term, h => by
      rw [Expr.Printable, Expr.Lexical] at h
      simp only [writeExpr, exprTokens]
      exact writes_term term h
  | .pool items modifiers, h => by
      rw [Expr.Printable, Expr.Lexical] at h
      have hopen : Writes (fun _ => True) (fun out => out.push '{') [Token.symbol (α := α) .lBrace] := writes_symbol rfl
      have hclose : Writes (fun _ => True) (fun out => out.push '}') [Token.symbol (α := α) .rBrace] := writes_symbol rfl
      have hitems := (hopen.andThen (writes_items items h.1 h.2.1) fun _ => trivial).andThen hclose
        fun _ => apart_symbol _ _
      have hpool := hitems.andThen (writes_modifiers h.2.2) fun _ => trivial
      simp only [writeExpr, exprTokens]
      simpa only [List.append_assoc, List.cons_append, List.nil_append] using hpool
  | .neg inner, h => by
      rw [Expr.Printable, Expr.Lexical] at h
      have hminus : Writes (fun _ => True) (fun out => out.push '-') [Token.symbol (α := α) .minus] := writes_symbol rfl
      simp only [writeExpr, exprTokens]
      exact hminus.andThen ((writes_expr inner h).wrapped _) fun _ => trivial
  | .binOp lhs op rhs, h => by
      rw [Expr.Printable, Expr.Lexical] at h
      have hlhs := ((writes_expr lhs h.1).wrapped (precedence lhs < precedence (.binOp lhs op rhs))).andThen (writes_op op)
        fun _ => apart_symbol _ _
      have hboth := hlhs.andThen ((writes_expr rhs h.2).wrapped (precedence rhs ≤ precedence (.binOp lhs op rhs)))
        fun _ => trivial
      rw [List.append_assoc] at hboth
      simp only [writeExpr, exprTokens]
      exact hboth
  | .mathFn kind inner, h => by
      rw [Expr.Printable, Expr.Lexical] at h
      have hclose : Writes (fun _ => True) (fun out => out.push ')') [Token.symbol (α := α) .rParen] := writes_symbol rfl
      simp only [writeExpr, exprTokens]
      exact (((writes_mathFn kind).andThen (writes_expr inner h) fun _ => trivial).andThen hclose
        fun _ => apart_symbol _ _).imp fun _ => trivial

theorem writes_items : ∀ items : List (Expr α), items ≠ [] → itemsPrintable items →
    Writes Apart (fun out => writeItems 0 out items) (itemsTokens items)
  | [], hne, _ => absurd rfl hne
  | item :: items, _, h => by
      rw [itemsPrintable, itemsLexical] at h
      simp only [writeItems, itemsTokens, lt_irrefl, if_false]
      exact (writes_expr item h.1).andThen (writes_moreItems items h.2 1 Nat.one_pos) (apart_moreItems items)

theorem writes_moreItems : ∀ items : List (Expr α), itemsPrintable items → ∀ i, 0 < i →
    Writes Apart (fun out => writeItems i out items) (moreItemsTokens items)
  | [], _, i, hi => by
      simp only [writeItems, moreItemsTokens]
      exact ⟨[], fun out => (List.append_nil _).symm, fun hcs _ => hcs⟩
  | item :: items, h, i, hi => by
      rw [itemsPrintable, itemsLexical] at h
      have hmore := writes_moreItems items h.2 (i + 1) (Nat.succ_pos i)
      simp only [writeItems, moreItemsTokens, if_pos hi]
      exact writes_comma.andThen ((writes_expr item h.1).andThen hmore (apart_moreItems items)) fun _ => trivial

theorem writes_term : ∀ term : DiceTerm α, term.Printable →
    Writes Apart (fun out => writeTerm out term) (termTokens term)
  | .mk count sides modifiers, h => by
      rw [DiceTerm.Printable, DiceTerm.Lexical] at h
      obtain ⟨hcount, hsides, hmodifiers⟩ := h
      have hoperand := writes_operand hcount (writes_expr count hcount)
      simp only [writeTerm, termTokens]
      refine hoperand.andThen ((writes_sides sides hsides _).andThen (writes_modifiers hmodifiers) fun hafter => ?_)
        fun hafter => ?_
      · refine ⟨notNumber_modifiers modifiers hafter.1, fun hnone => ?_⟩
        cases modifiers with
        | nil => exact hafter
        | cons => exact nomatch hnone
      · rw [List.append_assoc]
        exact notNumber_sides sides _

/-- The dice operator, a size, and a space where it is a letter and modifiers follow. -/
theorem writes_sides : ∀ sides : Sides α, sides.Printable → ∀ followed : Bool,
    Writes (fun after => NotNumber after ∧ (followed = false → Apart after))
      (fun out => if (writeSides (out.push 'd') sides).2 && followed then (writeSides (out.push 'd') sides).1.push ' '
        else (writeSides (out.push 'd') sides).1)
      (sidesTokens sides)
  | .fate, _, followed => by
      simp only [writeSides, sidesTokens, Bool.true_and]
      exact (writes_letter (by decide) followed).imp fun hafter hfalse => (hafter.2 hfalse).2
  | .coin, _, followed => by
      simp only [writeSides, sidesTokens, Bool.true_and]
      exact (writes_letter (by decide) followed).imp fun hafter hfalse => (hafter.2 hfalse).2
  | .numeric sides, h, followed => by
      rw [Sides.Printable, Sides.Lexical] at h
      have hd : Writes NotIdent (fun out => out.push 'd') [Token.ident (α := α) "d"] :=
        ⟨['d'], fun _ => String.toList_push _, fun hcs hafter =>
          Lexed.word (List.cons_ne_nil _ _) (by decide) (hcs.not_isWordChar hafter) hcs⟩
      simp only [writeSides, sidesTokens, Bool.false_and, Bool.false_eq_true, if_false]
      exact hd.andThen ((writes_operand h (writes_expr sides h)).imp fun hafter => hafter.1)
        fun _ => notIdent_operand _ _

end

/-- A printed formula is read as its tree's tokens. -/
theorem lexed_printExpr {expr : Expr α} (h : expr.Printable) :
    Lexed (printExpr expr).toList (exprTokens expr ++ [.eof]) := by
  obtain ⟨text, hout, hlexed⟩ := writes_expr expr h
  have hapart : Apart [(.eof : Token α)] := by
    constructor <;> (rintro token ⟨⟩; rfl)
  have htext : (printExpr expr).toList = text := by
    rw [printExpr, hout]
    rfl
  rw [htext, ← List.append_nil text]
  exact hlexed .eof hapart

end ThunderForge.Dice
