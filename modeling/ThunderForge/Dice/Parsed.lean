import ThunderForge.Dice.Reading

/-! What the parser makes of a source can be printed, and is parsed again from what is printed. -/

namespace ThunderForge.Dice

variable {α : Type} [Double α]

/-! The numbers of modifiers. -/

/-- What is left of a number that is not negative is its floor. -/
theorem truncate_of_nonneg {value : ℚ} (h : 0 ≤ value) : Double.truncate value = (⌊value⌋₊ : Int) := by
  rw [Int.natCast_floor_eq_floor h, Rat.floor_def', Double.truncate, Int.tdiv_eq_ediv_of_nonneg (Rat.num_nonneg.mpr h)]

theorem toI64_of_large {x : α} {value : ℚ} (hvalue : Double.magnitude x = .finite value)
    (hlarge : 9223372036854775807 ≤ value) : Double.toI64 x = 9223372036854775807 := by
  have hfloor : 9223372036854775807 ≤ ⌊value⌋₊ := Nat.le_floor (by exact_mod_cast hlarge)
  unfold Double.toI64 Double.toInt
  rw [hvalue]
  simp only [Double.clamp, truncate_of_nonneg (le_trans (by norm_num) hlarge)]
  omega

/-- The largest `i64` is read as itself, if by way of a number that is larger. -/
theorem readsBack_max : ReadsBack α 9223372036854775807 := by
  obtain ⟨y, hparse, hlarge⟩ := @Double.parse_maxI64 α _
  refine ⟨by decide, y, hparse, ?_⟩
  rcases Double.magnitude_parse (Double.isNumeral_toString 9223372036854775807) hparse with ⟨value, -, hvalue⟩ | hinfinite
  · exact toI64_of_large hvalue (hlarge value hvalue)
  · unfold Double.toI64 Double.toInt
    rw [hinfinite]
    rfl

/-- The number that a modifier takes from a literal is read as itself. -/
theorem readsBack_toI64 {n : α} (h : IsLiteral n) : ReadsBack α (Double.toI64 n) := by
  obtain ⟨text, hnumeral, hparse⟩ := h
  rcases Double.magnitude_parse hnumeral hparse with ⟨value, hnonneg, hvalue⟩ | hinfinite
  · rcases Nat.lt_or_ge 9223372036854775807 ⌊value⌋₊ with hover | hfits
    · have hlarge : (9223372036854775807 : ℚ) ≤ value := by
        calc
          (9223372036854775807 : ℚ) ≤ ⌊value⌋₊ := by exact_mod_cast hover.le
          _ ≤ value := Nat.floor_le hnonneg
      rw [toI64_of_large hvalue hlarge]
      exact readsBack_max
    · have hn : Double.toI64 n = (⌊value⌋₊ : Int) := by
        unfold Double.toI64 Double.toInt
        rw [hvalue]
        simp only [Double.clamp, truncate_of_nonneg hnonneg]
        omega
      obtain ⟨y, hread, hy⟩ := Double.parse_floor hnumeral hparse hvalue
      rw [hn]
      exact ⟨Int.natCast_nonneg _, y, hread, toI64_natCast hy hfits⟩
  · have hn : Double.toI64 n = 9223372036854775807 := by
      unfold Double.toI64 Double.toInt
      rw [hinfinite]
      rfl
    rw [hn]
    exact readsBack_max

theorem toU32_le (n : α) : Double.toU32 n ≤ 4294967295 := by
  unfold Double.toU32 Double.toInt
  split
  · simp only [Double.clamp]
    omega
  · split <;> decide
  · decide

theorem isLiteral_ofInt {n : Nat} (h : n ≤ 9007199254740992) : IsLiteral (Double.ofInt n : α) :=
  ⟨toString n, Double.isNumeral_toString n, Double.parse_ofInt n h⟩

/-! What the parser makes. -/

section makes

variable {β γ : Type} {P : α → Prop} {Q : β → Prop} {R : γ → Prop}

/-- Tokens of a source. Their numbers have a property, as has the count of a term that is written without one. -/
structure Fit (P : α → Prop) (ts : Tokens α) : Prop where
  one : P (Double.ofInt 1)
  token : ∀ token ∈ ts, token.1.Lexical ∧ ∀ n, token.1 = .number n → P n

theorem Fit.tail {token : Token α × Nat} {rest : Tokens α} (h : Fit P (token :: rest)) : Fit P rest :=
  ⟨h.one, fun token htoken => h.token token (List.mem_cons_of_mem _ htoken)⟩

theorem Fit.number {n : α} {pos : Nat} {rest : Tokens α} (h : Fit P ((.number n, pos) :: rest)) :
    IsLiteral n ∧ P n :=
  ⟨(h.token _ List.mem_cons_self).1, (h.token _ List.mem_cons_self).2 n rfl⟩

theorem Fit.ident {name : String} {pos : Nat} {rest : Tokens α} (h : Fit P ((.ident name, pos) :: rest)) : IsName name :=
  (h.token _ List.mem_cons_self).1

/-- What a step makes, if it succeeds, has a property, and the tokens it leaves are of a source. -/
def Makes (P : α → Prop) (Q : β → Prop) {S : Tokens α → Prop}
    (result : Except FormulaError (β × { rest : Tokens α // S rest })) : Prop :=
  ∀ b rest, result = .ok (b, rest) → Q b ∧ Fit P rest.val

theorem Makes.pure {S : Tokens α → Prop} {b : β} {rest : Tokens α} {h : S rest} (hb : Q b) (hrest : Fit P rest) :
    Makes P Q (.ok (b, ⟨rest, h⟩) : Except FormulaError (β × { rest : Tokens α // S rest })) := by
  rintro b' rest' ⟨⟩
  exact ⟨hb, hrest⟩

theorem Makes.error {S : Tokens α → Prop} {e : FormulaError} :
    Makes P Q (.error e : Except FormulaError (β × { rest : Tokens α // S rest })) :=
  fun _ _ h => nomatch h

theorem Makes.bind {S T : Tokens α → Prop} {x : Except FormulaError (β × { rest : Tokens α // S rest })}
    {f : β × { rest : Tokens α // S rest } → Except FormulaError (γ × { rest : Tokens α // T rest })}
    (hx : Makes P Q x) (hf : ∀ b rest h, Q b → Fit P rest → Makes P R (f (b, ⟨rest, h⟩))) : Makes P R (x >>= f) := by
  intro c last heq
  obtain ⟨⟨b, rest, h⟩, hok, hlast⟩ := except_bind_eq_ok.mp heq
  obtain ⟨hb, hrest⟩ := hx b ⟨rest, h⟩ hok
  exact hf b rest h hb hrest c last hlast

/-- A symbol that is expected is the only thing taken. -/
theorem Makes.expect {T : Tokens α → Prop} {symbol : Symbol} {ts : Tokens α} (h : Fit P ts)
    {f : Fewer ts → Except FormulaError (γ × { rest : Tokens α // T rest })}
    (hf : ∀ rest h, Fit P rest → Makes P R (f ⟨rest, h⟩)) : Makes P R (expect symbol ts >>= f) := by
  intro c last heq
  obtain ⟨⟨rest, hless⟩, hok, hlast⟩ := except_bind_eq_ok.mp heq
  unfold Dice.expect at hok
  split at hok
  · split at hok
    · cases hok
      exact hf _ _ h.tail c last hlast
    · exact nomatch hok
  · exact nomatch hok

end makes

section parsed

variable {P : α → Prop}

theorem makes_optionalCount {ts : Tokens α} (h : Fit P ts) : Makes P (· ≤ 4294967295) (parseOptionalCount ts) := by
  unfold parseOptionalCount
  split
  · split
    · exact Makes.error
    · exact Makes.pure (toU32_le _) h.tail
  · exact Makes.pure (by decide) h

theorem makes_requiredInt {ts : Tokens α} (h : Fit P ts) : Makes P (ReadsBack α) (parseRequiredInt ts) := by
  unfold parseRequiredInt
  split
  · exact Makes.pure (readsBack_toI64 h.number.1) h.tail
  · exact Makes.error

theorem makes_comparison (condition : Int → Condition) (hcondition : ∀ n, ReadsBack α n → (condition n).Printable α)
    {ts : Tokens α} (h : Fit P ts) : Makes P (Condition.Printable α) (comparison condition ts) := by
  unfold comparison
  exact (makes_requiredInt h).bind fun n rest _ hn hrest => Makes.pure (hcondition n hn) hrest

theorem makes_condition {ts : Tokens α} (h : Fit P ts) : Makes P (Condition.Printable α) (parseConditionOrDefault ts) := by
  unfold parseConditionOrDefault
  split
  · exact (makes_comparison .eq (fun n hn => hn) h.tail).bind fun _ _ _ hc hrest => Makes.pure hc hrest
  · exact (makes_comparison .gte (fun n hn => hn) h.tail.tail).bind fun _ _ _ hc hrest => Makes.pure hc hrest
  · exact (makes_comparison .gt (fun n hn => hn) h.tail).bind fun _ _ _ hc hrest => Makes.pure hc hrest
  · exact (makes_comparison .lte (fun n hn => hn) h.tail.tail).bind fun _ _ _ hc hrest => Makes.pure hc hrest
  · exact (makes_comparison .lt (fun n hn => hn) h.tail).bind fun _ _ _ hc hrest => Makes.pure hc hrest
  · exact Makes.pure (readsBack_toI64 h.number.1) h.tail
  · exact Makes.pure trivial h

theorem makes_modifier (keyword : Keyword) {ts : Tokens α} (h : Fit P ts) :
    Makes P (Modifier.Printable α) (parseModifier keyword ts) := by
  have hcount : ∀ {modifier : Nat → Modifier}, (∀ n ≤ 4294967295, (modifier n).Printable α) →
      Makes P (Modifier.Printable α) (withCount modifier ts) := fun hmodifier =>
    (makes_optionalCount h).bind fun n _ _ hn hrest => Makes.pure (hmodifier n hn) hrest
  have hint : ∀ {modifier : Int → Modifier}, (∀ n, ReadsBack α n → (modifier n).Printable α) →
      Makes P (Modifier.Printable α) (withInt modifier ts) := fun hmodifier =>
    (makes_requiredInt h).bind fun n _ _ hn hrest => Makes.pure (hmodifier n hn) hrest
  have hcondition : ∀ {modifier : Condition → Modifier},
      (∀ condition : Condition, condition.Printable α → (modifier condition).Printable α) →
      Makes P (Modifier.Printable α) (withCondition modifier ts) := fun hmodifier =>
    (makes_condition h).bind fun condition _ _ hc hrest => Makes.pure (hmodifier condition hc) hrest
  cases keyword with
  | keepHigh | keepLow | dropHigh | dropLow => exact hcount fun n hn => hn
  | minMod | maxMod | marginSuccess => exact hint fun n hn => hn
  | evenMod | oddMod => exact Makes.pure trivial h
  | rerollOnce | rerollRecursive | explode | explodeOnce | countSuccess | countFailure | subtractFailure =>
      exact hcondition fun condition hc => hc

theorem makes_modifiers (ts : Tokens α) (h : Fit P ts) :
    Makes P (fun modifiers => ∀ modifier ∈ modifiers, modifier.Printable α) (parseModifiers ts) := by
  have hnone : ∀ modifier ∈ [], Modifier.Printable α modifier := fun _ hmem => nomatch hmem
  unfold parseModifiers
  split
  · split
    · exact Makes.pure hnone h
    · refine (makes_modifier _ h.tail).bind fun modifier rest _ hmodifier hrest => ?_
      refine (makes_modifiers rest hrest).bind fun modifiers rest' _ hmodifiers hrest' => ?_
      exact Makes.pure (List.forall_mem_cons.mpr ⟨hmodifier, hmodifiers⟩) hrest'
  · exact Makes.pure hnone h
  termination_by ts.length
  decreasing_by
    subst_vars
    rw [List.length_cons]
    omega

/-- A word that begins with the dice operator is still one without it. -/
theorem fit_consumeLeadingD {ts : Tokens α} (h : Fit P ts) (hd : peekStartsWithD ts = true) :
    Fit P (consumeLeadingD ts).val := by
  unfold consumeLeadingD
  split
  · rename_i name pos rest
    split
    · exact h.tail
    · rename_i hsize
      refine ⟨h.one, List.forall_mem_cons.mpr ⟨⟨?_, fun n hn => by cases hn⟩, h.tail.token⟩⟩
      obtain ⟨hne, hword⟩ := h.ident
      obtain ⟨c, cs, hname⟩ := List.exists_cons_of_ne_nil hne
      rw [hname, List.all_cons, Bool.and_eq_true] at hword
      show IsName (String.ofList (name.toList.drop 1))
      rw [IsName, String.toList_ofList, hname, List.drop_succ_cons, List.drop_zero]
      refine ⟨fun hnil => hsize ?_, hword.2⟩
      rw [hnil] at hname
      have hletter : c = 'd' ∨ c = 'D' := by simpa [peekStartsWithD, hname] using hd
      rw [← String.ofList_toList (s := name), hname]
      rcases hletter with rfl | rfl <;> decide
  · exact h

mutual

theorem makes_expr (ts : Tokens α) (h : Fit P ts) : Makes P (Expr.Lexical P) (parseExpr ts) := by
  rw [parseExpr]
  refine (makes_term ts h).bind fun left rest _ hleft hrest => ?_
  exact (makes_exprLoop left rest hleft hrest).bind fun _ _ _ hexpr hlast => Makes.pure hexpr hlast
  termination_by 8 * ts.length + 5

theorem makes_exprLoop (left : Expr α) (ts : Tokens α) (hleft : left.Lexical P) (h : Fit P ts) :
    Makes P (Expr.Lexical P) (parseExprLoop left ts) := by
  unfold parseExprLoop
  split
  · refine (makes_term _ h.tail).bind fun right rest _ hright hrest => ?_
    refine (makes_exprLoop _ rest ?_ hrest).bind fun _ _ _ hexpr hlast => Makes.pure hexpr hlast
    rw [Expr.Lexical]
    exact ⟨hleft, hright⟩
  · refine (makes_term _ h.tail).bind fun right rest _ hright hrest => ?_
    refine (makes_exprLoop _ rest ?_ hrest).bind fun _ _ _ hexpr hlast => Makes.pure hexpr hlast
    rw [Expr.Lexical]
    exact ⟨hleft, hright⟩
  · exact Makes.pure hleft h
  termination_by 8 * ts.length
  decreasing_by all_goals (subst_vars; simp only [List.length_cons]; omega)

theorem makes_term (ts : Tokens α) (h : Fit P ts) : Makes P (Expr.Lexical P) (parseTerm ts) := by
  rw [parseTerm]
  refine (makes_unary ts h).bind fun left rest _ hleft hrest => ?_
  exact (makes_termLoop left rest hleft hrest).bind fun _ _ _ hexpr hlast => Makes.pure hexpr hlast
  termination_by 8 * ts.length + 4

theorem makes_termLoop (left : Expr α) (ts : Tokens α) (hleft : left.Lexical P) (h : Fit P ts) :
    Makes P (Expr.Lexical P) (parseTermLoop left ts) := by
  unfold parseTermLoop
  split
  · refine (makes_unary _ h.tail).bind fun right rest _ hright hrest => ?_
    refine (makes_termLoop _ rest ?_ hrest).bind fun _ _ _ hexpr hlast => Makes.pure hexpr hlast
    rw [Expr.Lexical]
    exact ⟨hleft, hright⟩
  · refine (makes_unary _ h.tail).bind fun right rest _ hright hrest => ?_
    refine (makes_termLoop _ rest ?_ hrest).bind fun _ _ _ hexpr hlast => Makes.pure hexpr hlast
    rw [Expr.Lexical]
    exact ⟨hleft, hright⟩
  · exact Makes.pure hleft h
  termination_by 8 * ts.length
  decreasing_by all_goals (subst_vars; simp only [List.length_cons]; omega)

theorem makes_unary (ts : Tokens α) (h : Fit P ts) : Makes P (Expr.Lexical P) (parseUnary ts) := by
  unfold parseUnary
  split
  · refine (makes_unary _ h.tail).bind fun inner rest _ hinner hrest => Makes.pure ?_ hrest
    rw [Expr.Lexical]
    exact hinner
  · exact makes_diceOrPrimary _ h
  termination_by 8 * ts.length + 3
  decreasing_by all_goals (subst_vars; first | omega | (simp only [List.length_cons]; omega))

theorem makes_diceOrPrimary (ts : Tokens α) (h : Fit P ts) : Makes P (Expr.Lexical P) (parseDiceOrPrimary ts) := by
  unfold parseDiceOrPrimary
  split_ifs with hd
  · have hliteral : (Expr.number (Double.ofInt 1) : Expr α).Lexical P := by
      rw [Expr.Lexical]
      exact ⟨@isLiteral_ofInt α _ 1 (by decide), h.one⟩
    have hshorter := (consumeLeadingD ts).property
    exact (makes_diceTerm _ _ hliteral (fit_consumeLeadingD h hd)).bind fun _ _ _ hexpr hlast => Makes.pure hexpr hlast
  · split
    · refine (makes_afterCount _ _ ?_ h.tail).bind fun _ _ _ hexpr hlast => Makes.pure hexpr hlast
      rw [Expr.Lexical]
      exact h.number
    · refine (makes_expr _ h.tail).bind fun inner rest _ hinner hrest => ?_
      refine Makes.expect hrest fun rest' _ hrest' => ?_
      exact (makes_afterCount inner rest' hinner hrest').bind fun _ _ _ hexpr hlast => Makes.pure hexpr hlast
    · exact makes_atom _ h (by simpa using hd)
  termination_by 8 * ts.length + 2
  decreasing_by all_goals (subst_vars; first | omega | (simp only [List.length_cons]; omega))

theorem makes_afterCount (candidate : Expr α) (ts : Tokens α) (hcandidate : candidate.Lexical P) (h : Fit P ts) :
    Makes P (Expr.Lexical P) (parseAfterCount candidate ts) := by
  unfold parseAfterCount
  split_ifs with hd
  · have hshorter := (consumeLeadingD ts).property
    exact (makes_diceTerm _ _ hcandidate (fit_consumeLeadingD h hd)).bind fun _ _ _ hexpr hlast =>
      Makes.pure hexpr hlast
  · exact Makes.pure hcandidate h
  termination_by 8 * ts.length + 2

theorem makes_diceTerm (count : Expr α) (ts : Tokens α) (hcount : count.Lexical P) (h : Fit P ts) :
    Makes P (Expr.Lexical P) (parseDiceTerm count ts) := by
  unfold parseDiceTerm
  refine (makes_sides ts h).bind fun sides rest _ hsides hrest => ?_
  refine (makes_modifiers rest hrest).bind fun modifiers rest' _ hmodifiers hrest' => Makes.pure ?_ hrest'
  rw [Expr.Lexical, DiceTerm.Lexical]
  exact ⟨hcount, hsides, hmodifiers⟩
  termination_by 8 * ts.length + 1

theorem makes_sides (ts : Tokens α) (h : Fit P ts) : Makes P (Sides.Lexical P) (parseSides ts) := by
  unfold parseSides
  split
  · split_ifs
    · refine Makes.pure ?_ h.tail
      rw [Sides.Lexical]
      trivial
    · refine Makes.pure ?_ h.tail
      rw [Sides.Lexical]
      trivial
    · exact Makes.error
  · refine Makes.pure ?_ h.tail
    rw [Sides.Lexical, Expr.Lexical]
    exact h.number
  · refine (makes_expr _ h.tail).bind fun inner rest _ hinner hrest => ?_
    refine Makes.expect hrest fun rest' _ hrest' => Makes.pure ?_ hrest'
    rw [Sides.Lexical]
    exact hinner
  · exact Makes.error
  termination_by 8 * ts.length
  decreasing_by all_goals (subst_vars; simp only [List.length_cons]; omega)

theorem makes_atom (ts : Tokens α) (h : Fit P ts) (hd : peekStartsWithD ts = false) :
    Makes P (Expr.Lexical P) (parseAtom ts) := by
  unfold parseAtom
  split
  · refine Makes.pure ?_ h.tail
    rw [Expr.Lexical]
    exact h.number
  · refine (makes_expr _ h.tail).bind fun inner rest _ hinner hrest => ?_
    exact Makes.expect hrest fun rest' _ hrest' => Makes.pure hinner hrest'
  · refine (makes_items _ h.tail).bind fun items rest _ hitems hrest => ?_
    refine Makes.expect hrest fun rest' _ hrest' => ?_
    refine (makes_modifiers rest' hrest').bind fun modifiers last _ hmodifiers hlast => Makes.pure ?_ hlast
    rw [Expr.Lexical]
    exact ⟨hitems.1, hitems.2, hmodifiers⟩
  · split
    · rename_i hmath
      have hhead := hd
      simp only [peekStartsWithD, Bool.or_eq_false_iff, decide_eq_false_iff_not] at hhead
      refine Makes.pure ?_ h.tail
      rw [Expr.Lexical]
      exact ⟨h.ident, hhead.1, hhead.2, hmath⟩
    · refine Makes.expect h.tail fun rest _ hrest => ?_
      refine (makes_expr rest hrest).bind fun inner rest' _ hinner hrest' => ?_
      refine Makes.expect hrest' fun last _ hlast => Makes.pure ?_ hlast
      rw [Expr.Lexical]
      exact hinner
  · exact Makes.error
  termination_by 8 * ts.length
  decreasing_by all_goals (subst_vars; simp only [List.length_cons]; omega)

theorem makes_items (ts : Tokens α) (h : Fit P ts) :
    Makes P (fun items => items ≠ [] ∧ itemsLexical P items) (parseItems ts) := by
  unfold parseItems
  refine (makes_expr ts h).bind fun item rest _ hitem hrest => ?_
  refine (makes_moreItems rest hrest).bind fun items rest' _ hitems hrest' => Makes.pure ?_ hrest'
  rw [itemsLexical]
  exact ⟨List.cons_ne_nil _ _, hitem, hitems⟩
  termination_by 8 * ts.length + 6

theorem makes_moreItems (ts : Tokens α) (h : Fit P ts) : Makes P (itemsLexical P) (parseMoreItems ts) := by
  unfold parseMoreItems
  split
  · refine (makes_expr _ h.tail).bind fun item rest _ hitem hrest => ?_
    refine (makes_moreItems rest hrest).bind fun items rest' _ hitems hrest' => Makes.pure ?_ hrest'
    rw [itemsLexical]
    exact ⟨hitem, hitems⟩
  · refine Makes.pure ?_ h
    rw [itemsLexical]
    trivial
  termination_by 8 * ts.length
  decreasing_by all_goals (subst_vars; simp only [List.length_cons]; omega)

end

end parsed

/-! Whole sources. -/

/-- The numbers written in a source have a property. -/
def Literals (P : α → Prop) (source : String) : Prop :=
  ∀ tokens : Tokens α, tokenize source = .ok tokens → ∀ n pos, (.number n, pos) ∈ tokens → P n

/-- No number written in a source is too large to be finite. -/
def FiniteLiterals (α : Type) [Double α] (source : String) : Prop :=
  Literals (fun n : α => Double.isFinite n = true) source

theorem lexical_parse {P : α → Prop} {source : String} {expr : Expr α} (hone : P (Double.ofInt 1))
    (hliterals : Literals P source) (h : parse source = .ok expr) : expr.Lexical P := by
  obtain ⟨tokens, htokens, h⟩ := except_bind_eq_ok.mp h
  obtain ⟨⟨expr', rest⟩, hexpr, h⟩ := except_bind_eq_ok.mp h
  have hfit : Fit P tokens :=
    ⟨hone, fun token hmem => ⟨lexical_tokenizeFrom htokens token hmem, fun n hn => hliterals tokens htokens n token.2 (by
      rw [← hn]
      exact hmem)⟩⟩
  have hlexical := (makes_expr tokens hfit expr' rest hexpr).1
  dsimp only at h
  split at h
  · cases h
    exact hlexical
  · exact nomatch h

theorem isFinite_one : Double.isFinite (Double.ofInt 1 : α) = true := by
  have hvalue : Double.magnitude (Double.ofInt 1 : α) = .finite (1 : Nat) := Double.magnitude_ofInt 1 (by decide)
  rw [Double.isFinite, hvalue]

theorem printable_parse {source : String} {expr : Expr α} (hfinite : FiniteLiterals α source)
    (h : parse source = .ok expr) : expr.Printable :=
  lexical_parse isFinite_one hfinite h

/-- Two dice that explode, the higher of them, and a modifier. -/
def exploding : Expr ℚ :=
  .binOp (.dice (.mk (.number (Double.ofInt 2)) (.numeric (.number (Double.ofInt 6))) [.explode .maxFace, .keepHighest 1]))
    .add (.placeholder "STR")

theorem exploding_printable : exploding.Printable := by
  have hplaceholder : IsPlaceholder "STR" := ⟨⟨by decide, by decide⟩, by decide, by decide, by decide⟩
  have hmodifiers : ∀ modifier ∈ [Modifier.explode .maxFace, .keepHighest 1], modifier.Printable ℚ := by
    refine List.forall_mem_cons.mpr ⟨trivial, List.forall_mem_singleton.mpr ?_⟩
    show 1 ≤ 4294967295
    decide
  simp only [exploding, Expr.Printable, Expr.Lexical, DiceTerm.Lexical, Sides.Lexical]
  exact ⟨⟨⟨isLiteral_ofInt (by decide), rfl⟩, ⟨isLiteral_ofInt (by decide), rfl⟩, hmodifiers⟩, hplaceholder⟩

theorem parse_exploding : parse "2d6x kh1+STR" = .ok exploding := by
  refine parse_of_lexed exploding_printable ?_
  have hword : ∀ (name : List Char) {cs : List Char} {tokens : List (Token ℚ)}, name ≠ [] →
      name.all isWordChar = true → (∀ c ∈ cs.head?, isWordChar c = false) → Lexed cs tokens →
      Lexed (name ++ cs) (.ident (String.ofList name) :: tokens) := fun _ _ _ => .word
  have hdigit : ∀ (n : Nat) {cs : List Char} {tokens : List (Token ℚ)}, n ≤ 9 →
      (∀ c ∈ cs.head?, isNumberStart c = false) → Lexed cs tokens →
      Lexed ((toString n).toList ++ cs) (.number (Double.ofInt n) :: tokens) := fun n _ _ hn hends hcs =>
    .number (Double.isNumeral_toString n) (by
      rw [String.ofList_toList]
      exact Double.parse_ofInt n (by omega)) hends hcs
  have hhead : ∀ {c : Char} {cs : List Char}, isWordChar c = false →
      ∀ d ∈ (c :: cs).head?, isWordChar d = false := fun h d hd => Option.some.inj hd ▸ h
  have hnumber : ∀ {c : Char} {cs : List Char}, isNumberStart c = false →
      ∀ d ∈ (c :: cs).head?, isNumberStart d = false := fun h d hd => Option.some.inj hd ▸ h
  have hone : (readInt 1 : ℚ) = Double.ofInt 1 := by
    rw [readInt, show Double.parse (toString (1 : Int)) = some (Double.ofInt 1 : ℚ) from Double.parse_ofInt 1 (by decide)]
    rfl
  have hmodifier : Lexed ['k', 'h', '1', '+', 'S', 'T', 'R'] [.ident "kh", .number (readInt 1 : ℚ), .symbol .plus, .ident "STR", .eof] := by
    rw [hone]
    refine hword ['k', 'h'] (by decide) (by decide) (hhead rfl)
      (hdigit 1 (by decide) (hnumber rfl) (.symbol rfl ?_))
    exact hword ['S', 'T', 'R'] (by decide) (by decide) (by rintro _ ⟨⟩) .eof
  exact hdigit 2 (by decide) (hnumber rfl) (hword ['d'] (by decide) (by decide) (hhead rfl)
    (hdigit 6 (by decide) (hnumber rfl) (hword ['x'] (by decide) (by decide) (hhead rfl) (.space hmodifier))))

end ThunderForge.Dice
