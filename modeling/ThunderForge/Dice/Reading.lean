import ThunderForge.Dice.Printed

/-! A printed formula is parsed as the tree that was printed. -/

namespace ThunderForge.Dice

variable {α : Type}

/-! What a step of the parser makes of tokens. -/

section steps

variable {β γ : Type} {b : β} {c : γ} {after after' : List (Token α)}

/-- A step succeeds with a value and leaves some tokens. -/
def Yields {P : Tokens α → Prop} (result : Except FormulaError (β × { rest : Tokens α // P rest })) (b : β)
    (after : List (Token α)) : Prop :=
  ∃ rest, result = .ok (b, rest) ∧ rest.val.map Prod.fst = after

/-- A step reads tokens as a value, wherever in a source they are. -/
def Reads {P : Tokens α → Tokens α → Prop}
    (step : (ts : Tokens α) → Except FormulaError (β × { rest : Tokens α // P ts rest })) (tokens : List (Token α))
    (b : β) (after : List (Token α)) : Prop :=
  ∀ ts, ts.map Prod.fst = tokens → Yields (step ts) b after

theorem Yields.bind {P Q : Tokens α → Prop} {x : Except FormulaError (β × { rest : Tokens α // P rest })}
    {f : β × { rest : Tokens α // P rest } → Except FormulaError (γ × { rest : Tokens α // Q rest })}
    (hx : Yields x b after) (hf : ∀ rest h, rest.map Prod.fst = after → Yields (f (b, ⟨rest, h⟩)) c after') :
    Yields (x >>= f) c after' := by
  obtain ⟨⟨rest, h⟩, rfl, hrest⟩ := hx
  exact hf rest h hrest

theorem Yields.pure {P : Tokens α → Prop} {rest : Tokens α} (h : P rest) (hrest : rest.map Prod.fst = after) :
    Yields (.ok (b, ⟨rest, h⟩) : Except FormulaError (β × { rest : Tokens α // P rest })) b after :=
  ⟨⟨rest, h⟩, rfl, hrest⟩

theorem exists_first {ts : Tokens α} {token : Token α} (h : ts.map Prod.fst = token :: after) :
    ∃ pos rest, ts = (token, pos) :: rest ∧ rest.map Prod.fst = after := by
  obtain ⟨⟨first, pos⟩, rest, rfl, rfl, hrest⟩ := List.map_eq_cons_iff.mp h
  exact ⟨pos, rest, rfl, hrest⟩

/-- A symbol that is expected is taken. -/
theorem expect_symbol {ts : Tokens α} {symbol : Symbol} (h : ts.map Prod.fst = .symbol symbol :: after) :
    ∃ rest : Fewer ts, expect symbol ts = .ok rest ∧ rest.val.map Prod.fst = after := by
  obtain ⟨pos, rest, rfl, hrest⟩ := exists_first h
  exact ⟨⟨rest, Nat.lt_succ_self _⟩, by rw [expect, if_pos rfl], hrest⟩

end steps

/-! What may come next. -/

/-- What no condition goes on with. -/
def NotCondition (after : List (Token α)) : Prop :=
  ∀ token ∈ after.head?, token.isNumber = false ∧ token ≠ .symbol .eq ∧ token ≠ .symbol .gt ∧ token ≠ .symbol .lt

theorem notCondition_ident (name : String) (after : List (Token α)) : NotCondition (.ident name :: after) := by
  rintro token ⟨⟩
  exact ⟨rfl, by simp, by simp, by simp⟩

/-- What may come after a list of modifiers. -/
def NotModifier (after : List (Token α)) : Prop := NotCondition after ∧ NotIdent after

/-- The tokens that end an expression of a precedence. -/
def ends (level : Nat) : Token α → Bool
  | .eof | .symbol .rParen | .symbol .rBrace | .symbol .comma => true
  | .symbol .plus | .symbol .minus => 2 ≤ level
  | .symbol .star | .symbol .slash => 3 ≤ level
  | _ => false

def Stops (level : Nat) (after : List (Token α)) : Prop := ∃ token ∈ after.head?, ends level token = true

theorem Stops.mono {level level' : Nat} {after : List (Token α)} (h : Stops level after) (hle : level ≤ level') :
    Stops level' after := by
  obtain ⟨token, hmem, hends⟩ := h
  refine ⟨token, hmem, ?_⟩
  unfold ends at hends ⊢
  split at hends <;> simp_all <;> omega

theorem Stops.notModifier {level : Nat} {after : List (Token α)} (h : Stops level after) : NotModifier after := by
  obtain ⟨token, hmem, hends⟩ := h
  constructor
  · intro token' hmem'
    cases hmem.symm.trans hmem'
    unfold ends at hends
    split at hends <;> simp_all [Token.isNumber]
  · intro token' hmem'
    cases hmem.symm.trans hmem'
    unfold ends at hends
    split at hends <;> simp_all [Token.isIdent]

theorem not_peekStartsWithD {ts : Tokens α} (h : NotIdent (ts.map Prod.fst)) : peekStartsWithD ts = false := by
  unfold peekStartsWithD
  split
  · cases (h _ rfl)
  · rfl

variable [Double α]

/-! Modifiers. -/

theorem readInt_eq {n : Int} (h : ReadsBack α n) : Double.toI64 (readInt n : α) = n := by
  obtain ⟨-, x, hparse, hx⟩ := h
  rw [readInt, hparse, Option.getD_some, hx]

theorem reads_requiredInt {n : Int} (h : ReadsBack α n) (after : List (Token α)) :
    Reads parseRequiredInt (.number (readInt n) :: after) n after := by
  intro ts hts
  obtain ⟨pos, rest, rfl, hrest⟩ := exists_first hts
  rw [parseRequiredInt, readInt_eq h]
  exact Yields.pure _ hrest

theorem toU32_natCast {x : α} {n : Nat} (hvalue : Double.magnitude x = .finite n) (hbound : n ≤ 4294967295) :
    Double.toU32 x = n := by
  unfold Double.toU32 Double.toInt
  rw [hvalue]
  simp only [Double.truncate, Double.clamp, Rat.num_natCast, Rat.den_natCast, Nat.cast_one, Int.tdiv_one]
  omega

theorem reads_optionalCount {n : Nat} (h : n ≤ 4294967295) (after : List (Token α)) :
    Reads parseOptionalCount (.number (readInt (n : Int)) :: after) n after := by
  intro ts hts
  obtain ⟨pos, rest, rfl, hrest⟩ := exists_first hts
  have hread : (readInt (n : Int) : α) = Double.ofInt n := by
    rw [readInt, toString_natCast, Double.parse_ofInt n (by omega), Option.getD_some]
  have hvalue := @Double.magnitude_ofInt α _ n (by omega)
  have hwhole : ¬(Double.isNegative (Double.ofInt n : α) = true ∨ Double.isWhole (Double.ofInt n : α) = false) := by
    simp [Double.isNegative, Double.isWhole, hvalue]
  rw [hread, parseOptionalCount, if_neg hwhole, toU32_natCast hvalue h]
  exact Yields.pure _ hrest

theorem reads_comparison (condition : Int → Condition) {n : Int} (h : ReadsBack α n) (after : List (Token α)) :
    Reads (comparison condition) (.number (readInt n) :: after) (condition n) after := by
  intro ts hts
  exact (reads_requiredInt h after ts hts).bind fun rest hle hrest => Yields.pure _ hrest

theorem reads_condition {condition : Condition} (h : condition.Printable α) {after : List (Token α)}
    (hafter : NotCondition after) :
    Reads parseConditionOrDefault (numberTokens (conditionParts condition) ++ after) condition after := by
  intro ts hts
  cases condition with
  | maxFace =>
      rw [show numberTokens (conditionParts .maxFace) ++ after = after from rfl] at hts
      subst hts
      unfold parseConditionOrDefault
      split
      · exact absurd rfl (hafter _ rfl).2.1
      · exact absurd rfl (hafter _ rfl).2.2.1
      · exact absurd rfl (hafter _ rfl).2.2.1
      · exact absurd rfl (hafter _ rfl).2.2.2
      · exact absurd rfl (hafter _ rfl).2.2.2
      · exact nomatch (hafter _ rfl).1
      · exact Yields.pure _ rfl
  | eq n =>
      obtain ⟨pos, rest, rfl, hrest⟩ := exists_first hts
      rw [parseConditionOrDefault, readInt_eq h]
      exact Yields.pure _ hrest
  | gt n =>
      obtain ⟨pos, rest, rfl, hrest⟩ := exists_first hts
      obtain ⟨pos', rest', rfl, hrest'⟩ := exists_first hrest
      exact (reads_comparison .gt h after _ hrest).bind fun _ _ hlast => Yields.pure _ hlast
  | lt n =>
      obtain ⟨pos, rest, rfl, hrest⟩ := exists_first hts
      obtain ⟨pos', rest', rfl, hrest'⟩ := exists_first hrest
      exact (reads_comparison .lt h after _ hrest).bind fun _ _ hlast => Yields.pure _ hlast
  | gte n =>
      obtain ⟨pos, rest, rfl, hrest⟩ := exists_first hts
      obtain ⟨pos', rest', rfl, hrest'⟩ := exists_first hrest
      exact (reads_comparison .gte h after _ hrest').bind fun _ _ hlast => Yields.pure _ hlast
  | lte n =>
      obtain ⟨pos, rest, rfl, hrest⟩ := exists_first hts
      obtain ⟨pos', rest', rfl, hrest'⟩ := exists_first hrest
      exact (reads_comparison .lte h after _ hrest').bind fun _ _ hlast => Yields.pure _ hlast

theorem reads_withCount (modifier : Nat → Modifier) {n : Nat} (h : n ≤ 4294967295) (after : List (Token α)) :
    Reads (withCount modifier) (.number (readInt (n : Int)) :: after) (modifier n) after := by
  intro ts hts
  exact (reads_optionalCount h after ts hts).bind fun _ _ hrest => Yields.pure _ hrest

theorem reads_withInt (modifier : Int → Modifier) {n : Int} (h : ReadsBack α n) (after : List (Token α)) :
    Reads (withInt modifier) (.number (readInt n) :: after) (modifier n) after := by
  intro ts hts
  exact (reads_requiredInt h after ts hts).bind fun _ _ hrest => Yields.pure _ hrest

theorem reads_withCondition (modifier : Condition → Modifier) {condition : Condition} (h : condition.Printable α)
    {after : List (Token α)} (hafter : NotCondition after) :
    Reads (withCondition modifier) (numberTokens (conditionParts condition) ++ after) (modifier condition) after := by
  intro ts hts
  exact (reads_condition h hafter ts hts).bind fun _ _ hrest => Yields.pure _ hrest

/-- A modifier is read from after its keyword. -/
theorem reads_modifier {modifier : Modifier} (h : modifier.Printable α) {after : List (Token α)}
    (hafter : NotCondition after) :
    Reads (parseModifier (keywordOf modifier)) (numberTokens (modifierNumber modifier) ++ after) modifier after := by
  cases modifier with
  | keepHighest n | keepLowest n | dropHighest n | dropLowest n => exact reads_withCount _ h after
  | min n | max n | marginOfSuccess n => exact reads_withInt _ h after
  | reroll condition | rerollRecursive condition | explode condition | explodeOnce condition | countSuccesses condition
  | countFailures condition | subtractFailureValue condition => exact reads_withCondition _ h hafter
  | even | odd => exact fun ts hts => Yields.pure _ hts

theorem modifierKeyword_text (keyword : Keyword) : modifierKeyword keyword.text = some keyword := by
  cases keyword <;> decide

theorem reads_modifiers {modifiers : List Modifier} (h : ∀ modifier ∈ modifiers, modifier.Printable α)
    {after : List (Token α)} (hafter : NotModifier after) :
    Reads parseModifiers (modifiersTokens modifiers ++ after) modifiers after := by
  induction modifiers with
  | nil =>
      rintro ts rfl
      unfold parseModifiers
      split
      · cases (hafter.2 _ rfl)
      · exact Yields.pure _ rfl
  | cons modifier modifiers ih =>
      obtain ⟨hfirst, hrest⟩ := List.forall_mem_cons.mp h
      intro ts hts
      rw [modifiersTokens, List.flatMap_cons, modifierTokens, keyword_text, List.append_assoc] at hts
      obtain ⟨pos, rest, rfl, hnext⟩ := exists_first hts
      have hcondition : NotCondition (modifiersTokens modifiers ++ after) := by
        cases modifiers with
        | nil => exact hafter.1
        | cons => exact notCondition_ident _ _
      rw [parseModifiers, modifierKeyword_text]
      refine (reads_modifier hfirst hcondition rest hnext).bind fun rest₁ _ hrest₁ => ?_
      exact (ih hrest rest₁ hrest₁).bind fun _ _ hlast => Yields.pure _ hlast

/-! Expressions. -/

/-- How the parser reads what an expression is printed as: at each level, what comes after is read as it would be
had the expression just been read. -/
structure Readable (expr : Expr α) : Prop where
  unary : precedence expr = 3 → ∀ {after : List (Token α)}, Stops 3 after →
    Reads parseUnary (exprTokens expr ++ after) expr after
  term : 2 ≤ precedence expr → ∀ {after after' : List (Token α)} {whole : Expr α}, Stops 3 after →
    Reads (parseTermLoop expr) after whole after' → Reads parseTerm (exprTokens expr ++ after) whole after'
  expr : ∀ {after after' : List (Token α)} {whole : Expr α}, Stops 2 after →
    Reads (parseExprLoop expr) after whole after' → Reads parseExpr (exprTokens expr ++ after) whole after'

theorem reads_termLoop (expr : Expr α) {after : List (Token α)} (h : Stops 2 after) :
    Reads (parseTermLoop expr) after expr after := by
  rintro ts rfl
  obtain ⟨token, hmem, hends⟩ := h
  unfold parseTermLoop
  split
  · cases hmem
    cases hends
  · cases hmem
    cases hends
  · exact Yields.pure _ rfl

theorem reads_exprLoop (expr : Expr α) {after : List (Token α)} (h : Stops 1 after) :
    Reads (parseExprLoop expr) after expr after := by
  rintro ts rfl
  obtain ⟨token, hmem, hends⟩ := h
  unfold parseExprLoop
  split
  · cases hmem
    cases hends
  · cases hmem
    cases hends
  · exact Yields.pure _ rfl

/-- An expression that is read as a term is read as an expression. -/
theorem Readable.ofTerm {expr : Expr α}
    (hunary : precedence expr = 3 → ∀ {after : List (Token α)}, Stops 3 after →
      Reads parseUnary (exprTokens expr ++ after) expr after)
    (hterm : ∀ {after after' : List (Token α)} {whole : Expr α}, Stops 3 after →
      Reads (parseTermLoop expr) after whole after' → Reads parseTerm (exprTokens expr ++ after) whole after') :
    Readable expr := by
  refine ⟨hunary, fun _ => hterm, fun {after after' whole} hafter hwhole ts hts => ?_⟩
  rw [parseExpr]
  refine (hterm (hafter.mono (by omega)) (reads_termLoop expr hafter) ts hts).bind fun rest _ hrest => ?_
  exact (hwhole rest hrest).bind fun _ _ hlast => Yields.pure _ hlast

/-- An expression that is read as a unary one is read as a term. -/
theorem Readable.ofUnary {expr : Expr α} 
    (hunary : ∀ {after : List (Token α)}, Stops 3 after → Reads parseUnary (exprTokens expr ++ after) expr after) :
    Readable expr := by
  refine Readable.ofTerm (fun _ => hunary) fun {after after' whole} hafter hwhole ts hts => ?_
  rw [parseTerm]
  refine (hunary hafter ts hts).bind fun rest _ hrest => ?_
  exact (hwhole rest hrest).bind fun _ _ hlast => Yields.pure _ hlast

namespace Readable

variable {expr : Expr α} {after : List (Token α)}

/-- A whole expression. -/
theorem complete (h : Readable expr) (hafter : Stops 1 after) : Reads parseExpr (exprTokens expr ++ after) expr after :=
  h.expr (hafter.mono (by omega)) (reads_exprLoop expr hafter)

theorem parenthesised (h : Readable expr) {after' : List (Token α)} {whole : Expr α}
    (hwhole : Reads (parseAfterCount expr) after whole after') :
    Reads parseDiceOrPrimary (wrapped true (exprTokens expr) ++ after) whole after' := by
  intro ts hts
  rw [wrapped, if_pos rfl, List.cons_append, List.append_assoc] at hts
  obtain ⟨pos, rest, rfl, hrest⟩ := exists_first hts
  rw [parseDiceOrPrimary, if_neg (by simp [peekStartsWithD])]
  refine (h.complete ⟨_, rfl, rfl⟩ rest hrest).bind fun rest₁ _ hrest₁ => ?_
  obtain ⟨⟨rest₂, _⟩, hexpect, hrest₂⟩ := expect_symbol hrest₁
  simp only [hexpect]
  exact (hwhole rest₂ hrest₂).bind fun _ _ hlast => Yields.pure _ hlast

end Readable

theorem reads_number {n : α} {after after' : List (Token α)} {whole : Expr α}
    (hwhole : Reads (parseAfterCount (.number n)) after whole after') :
    Reads parseDiceOrPrimary (.number n :: after) whole after' := by
  intro ts hts
  obtain ⟨pos, rest, rfl, hrest⟩ := exists_first hts
  rw [parseDiceOrPrimary, if_neg (by simp [peekStartsWithD])]
  exact (hwhole rest hrest).bind fun _ _ hlast => Yields.pure _ hlast

theorem reads_afterCount (expr : Expr α) {after : List (Token α)} (h : NotIdent after) :
    Reads (parseAfterCount expr) after expr after := by
  rintro ts rfl
  rw [parseAfterCount, if_neg (by simp [not_peekStartsWithD h])]
  exact Yields.pure _ rfl

theorem reads_unary {tokens after : List (Token α)} {expr : Expr α}
    (hminus : ∀ token ∈ tokens.head?, token ≠ .symbol .minus) (h : Reads parseDiceOrPrimary tokens expr after) :
    Reads parseUnary tokens expr after := by
  rintro ts rfl
  unfold parseUnary
  split
  · exact absurd rfl (hminus _ rfl)
  · exact h _ rfl

/-- A count, with what comes after it. -/
theorem Readable.count {expr : Expr α} (h : Readable expr) {after after' : List (Token α)} {whole : Expr α}
    (hwhole : Reads (parseAfterCount expr) after whole after') :
    Reads parseDiceOrPrimary (wrapped (!isBare expr) (exprTokens expr) ++ after) whole after' := by
  cases hbare : isBare expr with
  | false => exact h.parenthesised hwhole
  | true =>
      cases expr with
      | number n =>
          rw [exprTokens]
          exact reads_number hwhole
      | _ => exact nomatch hbare

/-- A size. -/
theorem Readable.size {expr : Expr α} (h : Readable expr) (after : List (Token α)) :
    Reads parseSides (wrapped (!isBare expr) (exprTokens expr) ++ after) (.numeric expr) after := by
  intro ts hts
  cases hbare : isBare expr with
  | false =>
      rw [hbare, Bool.not_false, wrapped, if_pos rfl, List.cons_append, List.append_assoc] at hts
      obtain ⟨pos, rest, rfl, hrest⟩ := exists_first hts
      rw [parseSides]
      refine (h.complete ⟨_, rfl, rfl⟩ rest hrest).bind fun rest₁ _ hrest₁ => ?_
      obtain ⟨⟨rest₂, _⟩, hexpect, hrest₂⟩ := expect_symbol hrest₁
      simp only [hexpect]
      exact Yields.pure _ hrest₂
  | true =>
      cases expr with
      | number n =>
          rw [hbare, exprTokens] at hts
          obtain ⟨pos, rest, rfl, hrest⟩ := exists_first hts
          rw [parseSides]
          exact Yields.pure _ hrest
      | _ => cases hbare

/-- A term is read from its count on. -/
theorem reads_diceTerm {count : Expr α} {sides : Sides α} {modifiers : List Modifier} {tokens after : List (Token α)}
    (hsides : Reads parseSides tokens sides (modifiersTokens modifiers ++ after))
    (hmodifiers : ∀ modifier ∈ modifiers, modifier.Printable α) (hafter : NotModifier after) :
    Reads (parseDiceTerm count) tokens (.dice (.mk count sides modifiers)) after := by
  intro ts hts
  rw [parseDiceTerm]
  refine (hsides ts hts).bind fun rest _ hrest => ?_
  exact (reads_modifiers hmodifiers hafter rest hrest).bind fun _ _ hlast => Yields.pure _ hlast

/-- What is left of a word when the dice operator is taken off it is read on. -/
theorem reads_operator {name : String} {count whole : Expr α} {tokens after after' : List (Token α)}
    (hname : name.toList.head? = some 'd')
    (htaken : ∀ pos (rest : Tokens α), rest.map Prod.fst = after →
      (consumeLeadingD ((.ident name, pos) :: rest)).val.map Prod.fst = tokens)
    (hwhole : Reads (parseDiceTerm count) tokens whole after') :
    Reads (parseAfterCount count) (.ident name :: after) whole after' := by
  intro ts hts
  obtain ⟨pos, rest, rfl, hrest⟩ := exists_first hts
  rw [parseAfterCount, if_pos (by simp [peekStartsWithD, hname])]
  exact (hwhole _ (htaken pos rest hrest)).bind fun _ _ hlast => Yields.pure _ hlast

theorem reads_letter {name letter : String} {count : Expr α} {sides : Sides α} {modifiers : List Modifier}
    {after : List (Token α)} (hname : name.toList = 'd' :: letter.toList) (hne : name.utf8ByteSize ≠ 1)
    (hsides : ∀ pos (rest : Tokens α), parseSides ((.ident letter, pos) :: rest) = .ok (sides, ⟨rest, Nat.lt_succ_self _⟩))
    (hmodifiers : ∀ modifier ∈ modifiers, modifier.Printable α) (hafter : NotModifier after) :
    Reads (parseAfterCount count) (.ident name :: (modifiersTokens modifiers ++ after)) (.dice (.mk count sides modifiers))
      after := by
  refine @reads_operator α _ name count _ (.ident letter :: (modifiersTokens modifiers ++ after)) _ _ (by rw [hname]; rfl)
    ?_ ?_
  · intro pos rest hrest
    rw [consumeLeadingD, if_neg hne, hname]
    simp only [List.drop_succ_cons, List.drop_zero, String.ofList_toList, List.map_cons, hrest]
  · refine reads_diceTerm (fun ts hts => ?_) hmodifiers hafter
    obtain ⟨pos, rest, rfl, hrest⟩ := exists_first hts
    rw [hsides]
    exact Yields.pure _ hrest

omit [Double α] in
theorem precedence_pos (expr : Expr α) : 1 ≤ precedence expr := by
  unfold precedence
  split <;> decide

omit [Double α] in
theorem precedence_le (expr : Expr α) : precedence expr ≤ 3 := by
  unfold precedence
  split <;> decide

theorem notMinus_operand (expr : Expr α) (after : List (Token α)) :
    ∀ token ∈ (wrapped (!isBare expr) (exprTokens expr) ++ after).head?, token ≠ .symbol .minus := by
  cases hbare : isBare expr with
  | false =>
      rintro token ⟨⟩
      simp
  | true =>
      cases expr with
      | number n =>
          rw [exprTokens]
          rintro token ⟨⟩
          simp
      | _ => exact nomatch hbare

/-- An operand of a sign, in parentheses unless it binds as closely. -/
theorem Readable.wrappedUnary {expr : Expr α} (h : Readable expr) {wrap : Bool}
    (hwrap : wrap = false → precedence expr = 3) {after : List (Token α)} (hafter : Stops 3 after) :
    Reads parseUnary (wrapped wrap (exprTokens expr) ++ after) expr after := by
  cases wrap with
  | false => exact h.unary (hwrap rfl) hafter
  | true =>
      exact reads_unary (by rintro token ⟨⟩; simp) (h.parenthesised (reads_afterCount expr hafter.notModifier.2))

/-- A factor or a summand, in parentheses unless it binds as closely. -/
theorem Readable.wrappedTerm {expr whole : Expr α} (h : Readable expr) {wrap : Bool}
    (hwrap : wrap = false → 2 ≤ precedence expr) {after after' : List (Token α)} (hafter : Stops 3 after)
    (hwhole : Reads (parseTermLoop expr) after whole after') :
    Reads parseTerm (wrapped wrap (exprTokens expr) ++ after) whole after' := by
  cases wrap with
  | false => exact h.term (hwrap rfl) hafter hwhole
  | true =>
      intro ts hts
      rw [parseTerm]
      refine (@wrappedUnary α _ expr h true (fun hfalse => nomatch hfalse) after hafter ts hts).bind fun rest _ hrest => ?_
      exact (hwhole rest hrest).bind fun _ _ hlast => Yields.pure _ hlast

/-- A product, whose right factor binds closer. -/
theorem Readable.product {lhs rhs : Expr α} {op : BinOp} (hop : op = .mul ∨ op = .div) (hlhs : Readable lhs)
    (hrhs : Readable rhs) : Readable (.binOp lhs op rhs) := by
  have hlevel : precedence (.binOp lhs op rhs) = 2 := by rcases hop with rfl | rfl <;> rfl
  refine Readable.ofTerm (fun h => by omega) fun {after after' whole} hafter hwhole => ?_
  rw [exprTokens, hlevel, List.append_assoc]
  have hsymbol : Stops 3 (.symbol (opSymbol op) :: (wrapped (precedence rhs ≤ 2) (exprTokens rhs) ++ after)) := by
    rcases hop with rfl | rfl <;> exact ⟨_, rfl, rfl⟩
  refine hlhs.wrappedTerm (fun h => by simp at h; omega) hsymbol fun ts hts => ?_
  have hfactor : Reads parseUnary (wrapped (precedence rhs ≤ 2) (exprTokens rhs) ++ after) rhs after :=
    hrhs.wrappedUnary (fun h => by have := precedence_le rhs; simp at h; omega) hafter
  obtain ⟨pos, rest, rfl, hrest⟩ := exists_first hts
  rcases hop with rfl | rfl
  · rw [opSymbol, parseTermLoop]
    refine (hfactor rest hrest).bind fun rest₁ _ hrest₁ => ?_
    exact (hwhole rest₁ hrest₁).bind fun _ _ hlast => Yields.pure _ hlast
  · rw [opSymbol, parseTermLoop]
    refine (hfactor rest hrest).bind fun rest₁ _ hrest₁ => ?_
    exact (hwhole rest₁ hrest₁).bind fun _ _ hlast => Yields.pure _ hlast

/-- A sum, whose right summand binds closer. -/
theorem Readable.sum {lhs rhs : Expr α} {op : BinOp} (hop : op = .add ∨ op = .sub) (hlhs : Readable lhs)
    (hrhs : Readable rhs) : Readable (.binOp lhs op rhs) := by
  have hlevel : precedence (.binOp lhs op rhs) = 1 := by rcases hop with rfl | rfl <;> rfl
  refine ⟨fun h => by omega, fun h => by omega, fun {after after' whole} hafter hwhole => ?_⟩
  have hlower : decide (precedence lhs < 1) = false := by
    have := precedence_pos lhs
    simp only [decide_eq_false_iff_not]
    omega
  have hsymbol : Stops 2 (.symbol (opSymbol op) :: (wrapped (precedence rhs ≤ 1) (exprTokens rhs) ++ after)) := by
    rcases hop with rfl | rfl <;> exact ⟨_, rfl, rfl⟩
  rw [exprTokens, hlevel, hlower, List.append_assoc]
  refine hlhs.expr hsymbol fun ts hts => ?_
  have hsummand : Reads parseTerm (wrapped (precedence rhs ≤ 1) (exprTokens rhs) ++ after) rhs after :=
    hrhs.wrappedTerm (fun h => by simp at h; omega) (hafter.mono (by omega)) (reads_termLoop rhs hafter)
  obtain ⟨pos, rest, rfl, hrest⟩ := exists_first hts
  rcases hop with rfl | rfl
  · rw [opSymbol, parseExprLoop]
    refine (hsummand rest hrest).bind fun rest₁ _ hrest₁ => ?_
    exact (hwhole rest₁ hrest₁).bind fun _ _ hlast => Yields.pure _ hlast
  · rw [opSymbol, parseExprLoop]
    refine (hsummand rest hrest).bind fun rest₁ _ hrest₁ => ?_
    exact (hwhole rest₁ hrest₁).bind fun _ _ hlast => Yields.pure _ hlast

theorem reads_atom {expr : Expr α} {token : Token α} {tokens after : List (Token α)}
    (htoken : token.isNumber = false ∧ token ≠ .symbol .lParen ∧ token ≠ .symbol .minus)
    (hd : ∀ name, token = .ident name → name.toList.head? ≠ some 'd' ∧ name.toList.head? ≠ some 'D')
    (h : Reads parseAtom (token :: tokens) expr after) : Reads parseUnary (token :: tokens) expr after := by
  refine reads_unary (by rintro token ⟨⟩; exact htoken.2.2) fun ts hts => ?_
  obtain ⟨pos, rest, rfl, hrest⟩ := exists_first hts
  have hpeek : peekStartsWithD ((token, pos) :: rest) = false := by
    cases token with
    | ident name => simp [peekStartsWithD, hd name rfl]
    | _ => rfl
  rw [parseDiceOrPrimary, if_neg (by simp [hpeek])]
  · exact h _ hts
  · rintro n pos' rest' ⟨⟩
    cases (htoken.1)
  · rintro pos' rest' ⟨⟩
    exact absurd rfl htoken.2.1

/-- A pool is closed next. -/
def Closes (after : List (Token α)) : Prop := after.head? = some (.symbol .rBrace)

theorem stops_moreItems (items : List (Expr α)) {after : List (Token α)} (h : Closes after) :
    Stops 1 (moreItemsTokens items ++ after) := by
  cases items with
  | nil => exact ⟨_, h, rfl⟩
  | cons => exact ⟨_, rfl, rfl⟩

/-- What the count of a term is followed by. -/
theorem reads_sides {count : Expr α} {sides : Sides α} {modifiers : List Modifier} {after : List (Token α)}
    (hsides : ∀ size, sides = .numeric size → Readable size) (hmodifiers : ∀ modifier ∈ modifiers, modifier.Printable α)
    (hafter : NotModifier after) :
    Reads (parseAfterCount count) (sidesTokens sides ++ (modifiersTokens modifiers ++ after))
      (.dice (.mk count sides modifiers)) after := by
  cases sides with
  | fate =>
      rw [sidesTokens]
      refine @reads_letter α _ "dF" "F" count .fate _ _ rfl (by decide) (fun pos rest => ?_) hmodifiers hafter
      rw [parseSides, if_pos (by decide)]
  | coin =>
      rw [sidesTokens]
      refine @reads_letter α _ "dc" "c" count .coin _ _ rfl (by decide) (fun pos rest => ?_) hmodifiers hafter
      rw [parseSides, if_neg (by decide), if_pos (by decide)]
  | numeric size =>
      rw [sidesTokens, List.cons_append]
      refine reads_operator rfl (fun pos rest hrest => ?_)
        (reads_diceTerm ((hsides size rfl).size (modifiersTokens modifiers ++ after)) hmodifiers hafter)
      rw [consumeLeadingD, if_pos (by decide)]
      exact hrest

mutual

theorem readable_expr : ∀ expr : Expr α, expr.Printable → Readable expr
  | .number n, _ => Readable.ofUnary fun {after} hafter => by
      rw [exprTokens]
      exact reads_unary (by rintro token ⟨⟩; simp) (reads_number (reads_afterCount _ hafter.notModifier.2))
  | .placeholder name, h => Readable.ofUnary fun {after} hafter => by
      rw [Expr.Printable, Expr.Lexical] at h
      obtain ⟨-, hlower, hupper, hmath⟩ := h
      rw [exprTokens]
      refine reads_atom ⟨rfl, by simp, by simp⟩ (by rintro name ⟨⟩; exact ⟨hlower, hupper⟩) fun ts hts => ?_
      obtain ⟨pos, rest, rfl, hrest⟩ := exists_first hts
      rw [parseAtom, hmath]
      exact Yields.pure _ hrest
  | .dice (.mk count sides modifiers), h => Readable.ofUnary fun {after} hafter => by
      rw [Expr.Printable, Expr.Lexical, DiceTerm.Lexical] at h
      obtain ⟨hcount, hsides, hmodifiers⟩ := h
      rw [exprTokens, termTokens, List.append_assoc, List.append_assoc]
      refine reads_unary (notMinus_operand count _) ((readable_expr count hcount).count ?_)
      exact reads_sides (readable_sides sides hsides) hmodifiers hafter.notModifier
  | .pool items modifiers, h => Readable.ofUnary fun {after} hafter => by
      rw [Expr.Printable, Expr.Lexical] at h
      obtain ⟨hne, hitems, hmodifiers⟩ := h
      rw [exprTokens, List.cons_append, List.append_assoc]
      refine reads_atom ⟨rfl, by simp, by simp⟩ (by rintro name ⟨⟩) fun ts hts => ?_
      obtain ⟨pos, rest, rfl, hrest⟩ := exists_first hts
      rw [parseAtom]
      have hclose : Closes (.symbol .rBrace :: (modifiersTokens modifiers ++ after)) := rfl
      refine (readable_items items hne hitems hclose rest hrest).bind fun rest₁ _ hrest₁ => ?_
      obtain ⟨⟨rest₂, _⟩, hexpect, hrest₂⟩ := expect_symbol hrest₁
      simp only [hexpect]
      refine (reads_modifiers hmodifiers hafter.notModifier rest₂ hrest₂).bind fun _ _ hlast => Yields.pure _ hlast
  | .neg inner, h => Readable.ofUnary fun {after} hafter => by
      rw [Expr.Printable, Expr.Lexical] at h
      rw [exprTokens]
      intro ts hts
      obtain ⟨pos, rest, rfl, hrest⟩ := exists_first hts
      have hlevel : decide (precedence inner < 3) = false → precedence inner = 3 := by
        have := precedence_le inner
        intro hfalse
        simp only [decide_eq_false_iff_not] at hfalse
        omega
      rw [parseUnary]
      exact ((readable_expr inner h).wrappedUnary hlevel hafter rest hrest).bind fun _ _ hlast => Yields.pure _ hlast
  | .binOp lhs op rhs, h => by
      rw [Expr.Printable, Expr.Lexical] at h
      cases op with
      | add => exact .sum (Or.inl rfl) (readable_expr lhs h.1) (readable_expr rhs h.2)
      | sub => exact .sum (Or.inr rfl) (readable_expr lhs h.1) (readable_expr rhs h.2)
      | mul => exact .product (Or.inl rfl) (readable_expr lhs h.1) (readable_expr rhs h.2)
      | div => exact .product (Or.inr rfl) (readable_expr lhs h.1) (readable_expr rhs h.2)
  | .mathFn kind inner, h => Readable.ofUnary fun {after} hafter => by
      rw [Expr.Printable, Expr.Lexical] at h
      have hname : mathFnOf (mathFnName kind) = some kind := by cases kind <;> decide
      have hd : (mathFnName kind).toList.head? ≠ some 'd' ∧ (mathFnName kind).toList.head? ≠ some 'D' := by
        cases kind <;> decide
      rw [exprTokens, List.cons_append, List.cons_append, List.append_assoc]
      refine reads_atom ⟨rfl, by simp, by simp⟩ (by rintro name ⟨⟩; exact hd) fun ts hts => ?_
      obtain ⟨pos, rest, rfl, hrest⟩ := exists_first hts
      obtain ⟨⟨rest₁, _⟩, hopen, hrest₁⟩ := expect_symbol hrest
      rw [parseAtom, hname]
      simp only [hopen]
      refine ((readable_expr inner h).complete ⟨_, rfl, rfl⟩ rest₁ hrest₁).bind fun rest₂ _ hrest₂ => ?_
      obtain ⟨⟨rest₃, _⟩, hclose, hrest₃⟩ := expect_symbol hrest₂
      simp only [hclose]
      exact Yields.pure _ hrest₃

theorem readable_items : ∀ items : List (Expr α), items ≠ [] → itemsPrintable items → ∀ {after : List (Token α)},
    Closes after → Reads parseItems (itemsTokens items ++ after) items after
  | [], hne, _, _, _ => absurd rfl hne
  | item :: items, _, h, after, hafter => by
      rw [itemsPrintable, itemsLexical] at h
      intro ts hts
      rw [itemsTokens, List.append_assoc] at hts
      rw [parseItems]
      refine ((readable_expr item h.1).complete (stops_moreItems items hafter) ts hts).bind fun rest _ hrest => ?_
      exact (readable_moreItems items h.2 hafter rest hrest).bind fun _ _ hlast => Yields.pure _ hlast

theorem readable_moreItems : ∀ items : List (Expr α), itemsPrintable items → ∀ {after : List (Token α)},
    Closes after → Reads parseMoreItems (moreItemsTokens items ++ after) items after
  | [], _, after, hafter => by
      rintro ts rfl
      unfold parseMoreItems
      split
      · exact nomatch hafter
      · exact Yields.pure _ rfl
  | item :: items, h, after, hafter => by
      rw [itemsPrintable, itemsLexical] at h
      intro ts hts
      rw [moreItemsTokens, List.cons_append, List.append_assoc] at hts
      obtain ⟨pos, rest, rfl, hrest⟩ := exists_first hts
      rw [parseMoreItems]
      refine ((readable_expr item h.1).complete (stops_moreItems items hafter) rest hrest).bind fun rest₁ _ hrest₁ => ?_
      exact (readable_moreItems items h.2 hafter rest₁ hrest₁).bind fun _ _ hlast => Yields.pure _ hlast

theorem readable_sides : ∀ sides : Sides α, sides.Printable → ∀ size, sides = .numeric size → Readable size
  | .fate, _, _, h => nomatch h
  | .coin, _, _, h => nomatch h
  | .numeric size, h, _, rfl => by
      rw [Sides.Printable, Sides.Lexical] at h
      exact readable_expr size h

end

/-- A source with the tokens of a tree is parsed as the tree, however it is spaced. -/
theorem parse_of_lexed {source : String} {expr : Expr α} (h : expr.Printable)
    (hsource : Lexed source.toList (exprTokens expr ++ [.eof])) : parse source = .ok expr := by
  obtain ⟨ts, htokens, hts⟩ := hsource.tokenizeFrom 0
  obtain ⟨⟨rest, _⟩, hparse, hrest⟩ := (readable_expr expr h).complete ⟨_, rfl, rfl⟩ ts hts
  obtain ⟨pos, last, rfl, -⟩ := exists_first hrest
  rw [parse, tokenize, htokens]
  simp only [bind, Except.bind, hparse]
  rfl

/-- What is printed is parsed as what was printed. -/
theorem parse_of_printable {expr : Expr α} (h : expr.Printable) : parse (printExpr expr) = .ok expr :=
  parse_of_lexed h (lexed_printExpr h)

end ThunderForge.Dice
