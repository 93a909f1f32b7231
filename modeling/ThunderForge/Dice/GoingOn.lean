import ThunderForge.Dice.Rewrite

/-! A formula that goes on with a sum where another ended: what the parser makes of the first part stays what it made of
it alone. -/

namespace ThunderForge.Dice

section goesOn

variable {α β γ : Type} {plusAt : Nat} {summand : Tokens α} {ts ts' : Tokens α}

/-- The tokens of a source, and those of one that goes on with a plus where it ended. -/
inductive GoesOn (plusAt : Nat) (summand : Tokens α) : Tokens α → Tokens α → Prop where
  | ended (pos : Nat) : GoesOn plusAt summand [(.eof, pos)] ((.symbol .plus, plusAt) :: summand)
  | token {token : Token α × Nat} {ts ts' : Tokens α} (hne : token.1 ≠ .eof) (h : GoesOn plusAt summand ts ts') :
      GoesOn plusAt summand (token :: ts) (token :: ts')

theorem GoesOn.tail {token : Token α × Nat} (h : GoesOn plusAt summand (token :: ts) ts') (hne : token.1 ≠ .eof) :
    ∃ rest', ts' = token :: rest' ∧ GoesOn plusAt summand ts rest' := by
  cases h with
  | ended pos => exact absurd rfl hne
  | token _ h => exact ⟨_, rfl, h⟩

/-- A token that the one does not begin with, the other does not begin with, unless it is the plus. -/
theorem GoesOn.avoids (h : GoesOn plusAt summand ts ts') {token : Token α} (hplus : token ≠ .symbol .plus)
    (hts : ∀ pos rest, ts ≠ (token, pos) :: rest) (pos : Nat) (rest : Tokens α) : ts' ≠ (token, pos) :: rest := by
  cases h with
  | ended pos' =>
      intro heq
      exact hplus (congrArg Prod.fst (List.cons.inj heq).1).symm
  | token hne h =>
      intro heq
      obtain ⟨rfl, -⟩ := List.cons.inj heq
      exact hts _ _ rfl

theorem GoesOn.peekStartsWithD (h : GoesOn plusAt summand ts ts') : Dice.peekStartsWithD ts' = Dice.peekStartsWithD ts := by
  cases h with
  | ended pos => rfl
  | @token token ts ts' hne h => rcases token with ⟨n | name | symbol | _, pos⟩ <;> rfl

theorem GoesOn.consumeLeadingD (h : GoesOn plusAt summand ts ts') :
    GoesOn plusAt summand (Dice.consumeLeadingD ts).val (Dice.consumeLeadingD ts').val := by
  cases h with
  | ended pos => exact .ended pos
  | @token token ts ts' hne h =>
      rcases token with ⟨n | name | symbol | _, pos⟩
      · exact .token hne h
      · simp only [Dice.consumeLeadingD]
        split_ifs
        · exact h
        · exact .token (by rintro ⟨⟩) h
      · exact .token hne h
      · exact absurd rfl hne

/-- Where one step succeeds and what it leaves is as said, the other makes the same and leaves what goes on. -/
def Agrees (plusAt : Nat) (summand : Tokens α) (leaves : Tokens α → Prop) {S T : Tokens α → Prop}
    (x : Except FormulaError (β × { rest : Tokens α // S rest }))
    (y : Except FormulaError (β × { rest : Tokens α // T rest })) : Prop :=
  ∀ b rest, x = .ok (b, rest) → leaves rest.val → ∃ rest', y = .ok (b, rest') ∧ GoesOn plusAt summand rest.val rest'.val

variable {leaves leaves' : Tokens α → Prop} {S T S' T' : Tokens α → Prop}

theorem Agrees.pure {b : β} {rest rest' : Tokens α} {hrest : S rest} {hrest' : T rest'}
    (h : GoesOn plusAt summand rest rest') :
    Agrees plusAt summand leaves (.ok (b, ⟨rest, hrest⟩) : Except FormulaError (β × { rest : Tokens α // S rest }))
      (.ok (b, ⟨rest', hrest'⟩) : Except FormulaError (β × { rest : Tokens α // T rest })) := by
  rintro _ _ ⟨⟩ -
  exact ⟨⟨rest', hrest'⟩, rfl, h⟩

theorem Agrees.error {e : FormulaError} {y : Except FormulaError (β × { rest : Tokens α // T rest })} :
    Agrees plusAt summand leaves (.error e : Except FormulaError (β × { rest : Tokens α // S rest })) y :=
  fun _ _ h => nomatch h

theorem Agrees.bindLeaving {x : Except FormulaError (β × { rest : Tokens α // S rest })}
    {y : Except FormulaError (β × { rest : Tokens α // T rest })}
    {f : β × { rest : Tokens α // S rest } → Except FormulaError (γ × { rest : Tokens α // S' rest })}
    {g : β × { rest : Tokens α // T rest } → Except FormulaError (γ × { rest : Tokens α // T' rest })}
    (hx : Agrees plusAt summand leaves' x y)
    (hleaves : ∀ b rest h c last, f (b, ⟨rest, h⟩) = .ok (c, last) → leaves last.val → leaves' rest)
    (hf : ∀ b rest h rest' h', GoesOn plusAt summand rest rest' →
      Agrees plusAt summand leaves (f (b, ⟨rest, h⟩)) (g (b, ⟨rest', h'⟩))) :
    Agrees plusAt summand leaves (x >>= f) (y >>= g) := by
  intro c last heq hlast
  obtain ⟨⟨b, rest, h⟩, hok, hrest⟩ := except_bind_eq_ok.mp heq
  obtain ⟨⟨rest', h'⟩, hok', hgoes⟩ := hx b ⟨rest, h⟩ hok (hleaves b rest h c last hrest hlast)
  obtain ⟨last', hlast', hgoes'⟩ := hf b rest h rest' h' hgoes c last hrest hlast
  exact ⟨last', except_bind_eq_ok.mpr ⟨_, hok', hlast'⟩, hgoes'⟩

theorem Agrees.bind {x : Except FormulaError (β × { rest : Tokens α // S rest })}
    {y : Except FormulaError (β × { rest : Tokens α // T rest })}
    {f : β × { rest : Tokens α // S rest } → Except FormulaError (γ × { rest : Tokens α // S' rest })}
    {g : β × { rest : Tokens α // T rest } → Except FormulaError (γ × { rest : Tokens α // T' rest })}
    (hx : Agrees plusAt summand (fun _ => True) x y)
    (hf : ∀ b rest h rest' h', GoesOn plusAt summand rest rest' →
      Agrees plusAt summand leaves (f (b, ⟨rest, h⟩)) (g (b, ⟨rest', h'⟩))) :
    Agrees plusAt summand leaves (x >>= f) (y >>= g) :=
  hx.bindLeaving (fun _ _ _ _ _ _ _ => trivial) hf

/-- A symbol that is expected is the next token of both. -/
theorem Agrees.expect {symbol : Symbol} (h : GoesOn plusAt summand ts ts')
    {f : Fewer ts → Except FormulaError (γ × { rest : Tokens α // S rest })}
    {g : Fewer ts' → Except FormulaError (γ × { rest : Tokens α // T rest })}
    (hf : ∀ rest h rest' h', GoesOn plusAt summand rest rest' →
      Agrees plusAt summand leaves (f ⟨rest, h⟩) (g ⟨rest', h'⟩)) :
    Agrees plusAt summand leaves (expect symbol ts >>= f) (expect symbol ts' >>= g) := by
  intro c last heq hlast
  obtain ⟨⟨rest, hless⟩, hok, hrest⟩ := except_bind_eq_ok.mp heq
  unfold Dice.expect at hok
  split at hok
  · split_ifs at hok with hsymbol
    cases hok
    obtain ⟨rest', rfl, hgoes⟩ := h.tail (by rintro ⟨⟩)
    obtain ⟨last', hlast', hgoes'⟩ := hf rest hless rest' (Nat.lt_succ_self _) hgoes c last hrest hlast
    refine ⟨last', except_bind_eq_ok.mpr ⟨⟨rest', Nat.lt_succ_self _⟩, ?_, hlast'⟩, hgoes'⟩
    rw [Dice.expect, if_pos hsymbol]
  · cases hok

/-- Tokens that begin with a symbol which ends a sum. -/
def Closed (ts : Tokens α) : Prop :=
  ∃ symbol pos rest, ts = (.symbol symbol, pos) :: rest ∧ symbol ≠ .plus ∧ symbol ≠ .minus

theorem closed_of_expect {symbol : Symbol} (hplus : symbol ≠ .plus) (hminus : symbol ≠ .minus) {c : γ}
    {f : Fewer ts → Except FormulaError γ} (h : (expect symbol ts >>= f) = .ok c) : Closed ts := by
  obtain ⟨rest, hok, -⟩ := except_bind_eq_ok.mp h
  unfold Dice.expect at hok
  split at hok
  · split_ifs at hok with hsymbol
    exact ⟨symbol, _, _, by rw [hsymbol], hplus, hminus⟩
  · exact nomatch hok

end goesOn

section agrees

variable {α : Type} [Double α] {plusAt : Nat} {summand : Tokens α} {ts ts' : Tokens α}

/-! Modifiers. -/

theorem agrees_optionalCount (h : GoesOn plusAt summand ts ts') :
    Agrees plusAt summand (fun _ => True) (parseOptionalCount ts) (parseOptionalCount ts') := by
  cases h with
  | ended pos => exact Agrees.pure (.ended pos)
  | @token token rest rest' hne h =>
      rcases token with ⟨n | name | symbol | _, pos⟩
      · simp only [parseOptionalCount]
        split_ifs
        · exact Agrees.error
        · exact Agrees.pure h
      · exact Agrees.pure (.token hne h)
      · exact Agrees.pure (.token hne h)
      · exact absurd rfl hne

theorem agrees_requiredInt (h : GoesOn plusAt summand ts ts') :
    Agrees plusAt summand (fun _ => True) (parseRequiredInt ts) (parseRequiredInt ts') := by
  cases h with
  | ended pos => exact Agrees.error
  | @token token rest rest' hne h =>
      rcases token with ⟨n | name | symbol | _, pos⟩
      · exact Agrees.pure h
      · exact Agrees.error
      · exact Agrees.error
      · exact absurd rfl hne

theorem agrees_comparison (condition : Int → Condition) (h : GoesOn plusAt summand ts ts') :
    Agrees plusAt summand (fun _ => True) (comparison condition ts) (comparison condition ts') :=
  (agrees_requiredInt h).bind fun _ _ _ _ _ hrest => Agrees.pure hrest

/-- After a comparison sign the next token is looked at as well. -/
theorem agrees_condition (h : GoesOn plusAt summand ts ts') :
    Agrees plusAt summand (fun _ => True) (parseConditionOrDefault ts) (parseConditionOrDefault ts') := by
  cases h with
  | ended pos => exact Agrees.pure (.ended pos)
  | @token token rest rest' hne h =>
      rcases token with ⟨n | name | symbol | _, pos⟩
      · exact Agrees.pure h
      · exact Agrees.pure (.token hne h)
      · cases symbol with
        | eq => exact (agrees_comparison .eq h).bind fun _ _ _ _ _ hrest => Agrees.pure hrest
        | gt =>
            cases h with
            | ended pos' => exact Agrees.error
            | @token next last last' hne' h =>
                rcases next with ⟨n | name | symbol | _, pos'⟩
                · exact (agrees_comparison .gt (.token hne' h)).bind fun _ _ _ _ _ hrest => Agrees.pure hrest
                · exact (agrees_comparison .gt (.token hne' h)).bind fun _ _ _ _ _ hrest => Agrees.pure hrest
                · cases symbol with
                  | eq => exact (agrees_comparison .gte h).bind fun _ _ _ _ _ hrest => Agrees.pure hrest
                  | _ => exact (agrees_comparison .gt (.token hne' h)).bind fun _ _ _ _ _ hrest => Agrees.pure hrest
                · exact absurd rfl hne'
        | lt =>
            cases h with
            | ended pos' => exact Agrees.error
            | @token next last last' hne' h =>
                rcases next with ⟨n | name | symbol | _, pos'⟩
                · exact (agrees_comparison .lt (.token hne' h)).bind fun _ _ _ _ _ hrest => Agrees.pure hrest
                · exact (agrees_comparison .lt (.token hne' h)).bind fun _ _ _ _ _ hrest => Agrees.pure hrest
                · cases symbol with
                  | eq => exact (agrees_comparison .lte h).bind fun _ _ _ _ _ hrest => Agrees.pure hrest
                  | _ => exact (agrees_comparison .lt (.token hne' h)).bind fun _ _ _ _ _ hrest => Agrees.pure hrest
                · exact absurd rfl hne'
        | _ => exact Agrees.pure (.token hne h)
      · exact absurd rfl hne

theorem agrees_modifier (keyword : Keyword) (h : GoesOn plusAt summand ts ts') :
    Agrees plusAt summand (fun _ => True) (parseModifier keyword ts) (parseModifier keyword ts') := by
  have hcount (modifier : Nat → Modifier) :
      Agrees plusAt summand (fun _ => True) (withCount modifier ts) (withCount modifier ts') :=
    (agrees_optionalCount h).bind fun _ _ _ _ _ hrest => Agrees.pure hrest
  have hint (modifier : Int → Modifier) : Agrees plusAt summand (fun _ => True) (withInt modifier ts) (withInt modifier ts') :=
    (agrees_requiredInt h).bind fun _ _ _ _ _ hrest => Agrees.pure hrest
  have hcondition (modifier : Condition → Modifier) :
      Agrees plusAt summand (fun _ => True) (withCondition modifier ts) (withCondition modifier ts') :=
    (agrees_condition h).bind fun _ _ _ _ _ hrest => Agrees.pure hrest
  cases keyword with
  | keepHigh | keepLow | dropHigh | dropLow => exact hcount _
  | minMod | maxMod | marginSuccess => exact hint _
  | evenMod | oddMod => exact Agrees.pure h
  | rerollOnce | rerollRecursive | explode | explodeOnce | countSuccess | countFailure | subtractFailure =>
      exact hcondition _

theorem agrees_modifiers (ts : Tokens α) {ts' : Tokens α} (h : GoesOn plusAt summand ts ts') :
    Agrees plusAt summand (fun _ => True) (parseModifiers ts) (parseModifiers ts') := by
  cases h with
  | ended pos =>
      rw [parseModifiers.eq_def, parseModifiers.eq_def]
      exact Agrees.pure (.ended pos)
  | @token token rest rest' hne h =>
      rcases token with ⟨n | name | symbol | _, pos⟩
      · rw [parseModifiers.eq_def, parseModifiers.eq_def (_ :: rest')]
        exact Agrees.pure (.token hne h)
      · rw [parseModifiers, parseModifiers]
        cases hkeyword : modifierKeyword name with
        | none => exact Agrees.pure (.token hne h)
        | some keyword =>
            refine (agrees_modifier keyword h).bind fun modifier rest₁ hle rest₁' _ hrest => ?_
            exact (agrees_modifiers rest₁ hrest).bind fun _ _ _ _ _ hlast => Agrees.pure hlast
      · rw [parseModifiers.eq_def, parseModifiers.eq_def (_ :: rest')]
        exact Agrees.pure (.token hne h)
      · exact absurd rfl hne
  termination_by ts.length
  decreasing_by
    subst_vars
    rw [List.length_cons]
    omega

/-! Expressions. -/

theorem termLoop_stops {left : Expr α} (hstar : ∀ pos rest, ts ≠ (.symbol .star, pos) :: rest)
    (hslash : ∀ pos rest, ts ≠ (.symbol .slash, pos) :: rest) : parseTermLoop left ts = .ok (left, ⟨ts, le_rfl⟩) := by
  unfold parseTermLoop
  split
  · exact absurd rfl (hstar _ _)
  · exact absurd rfl (hslash _ _)
  · rfl

theorem exprLoop_stops {left : Expr α} (hplus : ∀ pos rest, ts ≠ (.symbol .plus, pos) :: rest)
    (hminus : ∀ pos rest, ts ≠ (.symbol .minus, pos) :: rest) : parseExprLoop left ts = .ok (left, ⟨ts, le_rfl⟩) := by
  unfold parseExprLoop
  split
  · exact absurd rfl (hplus _ _)
  · exact absurd rfl (hminus _ _)
  · rfl

theorem moreItems_stops (hcomma : ∀ pos rest, ts ≠ (.symbol .comma, pos) :: rest) :
    parseMoreItems ts = .ok ([], ⟨ts, le_rfl⟩) := by
  unfold parseMoreItems
  split
  · exact absurd rfl (hcomma _ _)
  · rfl

theorem unary_of_not_minus (hminus : ∀ pos rest, ts ≠ (.symbol .minus, pos) :: rest) :
    parseUnary ts = parseDiceOrPrimary ts := by
  rw [parseUnary.eq_def]
  split
  · exact absurd rfl (hminus _ _)
  · rfl

theorem diceOrPrimary_atom (hd : peekStartsWithD ts = false) (hnumber : ∀ n pos rest, ts ≠ (.number n, pos) :: rest)
    (hparen : ∀ pos rest, ts ≠ (.symbol .lParen, pos) :: rest) : parseDiceOrPrimary ts = parseAtom ts := by
  rw [parseDiceOrPrimary.eq_def, if_neg (by rw [hd]; exact Bool.false_ne_true)]
  split
  · exact absurd rfl (hnumber _ _ _)
  · exact absurd rfl (hparen _ _)
  · rfl

theorem closed_of_moreItems {items : List (Expr α)} {rest : Rest ts} (h : parseMoreItems ts = .ok (items, rest))
    (hrest : Closed rest.val) : Closed ts := by
  by_cases hcomma : ∃ pos later, ts = (.symbol .comma, pos) :: later
  · obtain ⟨pos, later, rfl⟩ := hcomma
    exact ⟨.comma, pos, later, rfl, by decide, by decide⟩
  · rw [moreItems_stops fun pos later heq => hcomma ⟨pos, later, heq⟩] at h
    cases h
    exact hrest

section taken

variable {β γ : Type} {S T S' T' : Tokens α → Prop}

/-- What is made, and the tokens that are left. -/
def taken (result : Except FormulaError (β × { rest : Tokens α // S rest })) : Except FormulaError (β × Tokens α) :=
  result.map fun step => (step.1, step.2.val)

omit [Double α] in
theorem of_taken {y : Except FormulaError (β × { rest : Tokens α // S rest })} {b : β} {rest : Tokens α}
    (h : taken y = .ok (b, rest)) : ∃ left, y = .ok (b, left) ∧ left.val = rest := by
  cases y with
  | error e => cases h
  | ok step =>
      cases h
      exact ⟨step.2, rfl, rfl⟩

omit [Double α] in
/-- To carry on what a step has made changes nothing. -/
theorem taken_carried {x : Except FormulaError (β × { rest : Tokens α // S rest })} (h : ∀ rest, S rest → T rest) :
    taken (x >>= fun step => (.ok (step.1, ⟨step.2.val, h _ step.2.property⟩) :
      Except FormulaError (β × { rest : Tokens α // T rest }))) = taken x := by
  cases x with
  | error e => rfl
  | ok step => rfl

/-- A sum that has ended is one that may go on: from where it ended, it goes on with what it was. -/
def Continues (plusAt : Nat) (summand : Tokens α) (x : Except FormulaError (Expr α × { rest : Tokens α // S rest }))
    (y : Except FormulaError (Expr α × { rest : Tokens α // T rest })) : Prop :=
  ∀ expr rest, x = .ok (expr, rest) →
    ∃ rest', GoesOn plusAt summand rest.val rest' ∧ taken y = taken (parseExprLoop expr rest')

/-- A sum in brackets has ended. -/
theorem Continues.closed {x : Except FormulaError (Expr α × { rest : Tokens α // S rest })}
    {y : Except FormulaError (Expr α × { rest : Tokens α // T rest })} (h : Continues plusAt summand x y) :
    Agrees plusAt summand Closed x y := by
  rintro expr ⟨rest, hS⟩ hok ⟨symbol, pos, last, rfl, hplus, hminus⟩
  obtain ⟨rest', hgoes, htaken⟩ := h expr _ hok
  obtain ⟨last', rfl, -⟩ := hgoes.tail nofun
  have hstops : parseExprLoop expr ((.symbol symbol, pos) :: last') = .ok (expr, ⟨_, le_rfl⟩) := by
    refine exprLoop_stops (fun pos' rest' heq => hplus ?_) fun pos' rest' heq => hminus ?_
    · cases heq
      rfl
    · cases heq
      rfl
  rw [hstops] at htaken
  obtain ⟨left, hy, hleft⟩ := of_taken htaken
  exact ⟨left, hy, hleft ▸ hgoes⟩

/-- A term, and the loop that takes it further. -/
theorem Continues.ofTerm {x : Except FormulaError (Expr α × { rest : Tokens α // S rest })}
    {y : Except FormulaError (Expr α × { rest : Tokens α // T rest })}
    {f : Expr α × { rest : Tokens α // S rest } → Except FormulaError (Expr α × { rest : Tokens α // S' rest })}
    {g : Expr α × { rest : Tokens α // T rest } → Except FormulaError (Expr α × { rest : Tokens α // T' rest })}
    (combine : Expr α → Expr α) (hx : Agrees plusAt summand (fun _ => True) x y)
    (hf : ∀ b rest h, taken (f (b, ⟨rest, h⟩)) = taken (parseExprLoop (combine b) rest))
    (hg : ∀ b rest h, taken (g (b, ⟨rest, h⟩)) = taken (parseExprLoop (combine b) rest))
    (hloop : ∀ b rest, S rest → ∀ rest', GoesOn plusAt summand rest rest' →
      Continues plusAt summand (parseExprLoop (combine b) rest) (parseExprLoop (combine b) rest')) :
    Continues plusAt summand (x >>= f) (y >>= g) := by
  intro expr last hok
  obtain ⟨⟨b, rest, hrest⟩, hterm, hlast⟩ := except_bind_eq_ok.mp hok
  obtain ⟨⟨rest', hrest'⟩, hterm', hgoes⟩ := hx b _ hterm trivial
  have htaken : taken (parseExprLoop (combine b) rest) = .ok (expr, last.val) := by
    rw [← hf b rest hrest, hlast]
    rfl
  obtain ⟨left, hleft, hval⟩ := of_taken htaken
  obtain ⟨after, hafter, hsame⟩ := hloop b rest hrest rest' hgoes expr left hleft
  refine ⟨after, hval ▸ hafter, ?_⟩
  rw [hterm', ← hsame]
  exact hg b rest' hrest'

end taken

mutual

theorem continues_expr (ts : Tokens α) {ts' : Tokens α} (h : GoesOn plusAt summand ts ts') :
    Continues plusAt summand (parseExpr ts) (parseExpr ts') := by
  rw [parseExpr.eq_def ts, parseExpr.eq_def ts']
  refine Continues.ofTerm id (agrees_term ts h) (fun _ _ _ => taken_carried _) (fun _ _ _ => taken_carried _) ?_
  exact fun left rest hless rest' hgoes => continues_exprLoop left rest hgoes
  termination_by 8 * ts.length + 5

theorem continues_exprLoop (left : Expr α) (ts : Tokens α) {ts' : Tokens α} (h : GoesOn plusAt summand ts ts') :
    Continues plusAt summand (parseExprLoop left ts) (parseExprLoop left ts') := by
  cases h with
  | ended pos =>
      have hstops : parseExprLoop left [((.eof : Token α), pos)] = .ok (left, ⟨_, le_rfl⟩) :=
        exprLoop_stops (fun _ _ heq => nomatch heq) fun _ _ heq => nomatch heq
      rw [hstops]
      rintro _ _ ⟨⟩
      exact ⟨_, .ended pos, rfl⟩
  | @token token rest rest' hne h =>
      by_cases hplus : ∃ pos, token = (.symbol .plus, pos)
      · obtain ⟨pos, rfl⟩ := hplus
        rw [parseExprLoop, parseExprLoop]
        refine Continues.ofTerm (Expr.binOp left .add) (agrees_term rest h) (fun _ _ _ => taken_carried _)
          (fun _ _ _ => taken_carried _) ?_
        exact fun right mid hless mid' hgoes => continues_exprLoop _ mid hgoes
      · by_cases hminus : ∃ pos, token = (.symbol .minus, pos)
        · obtain ⟨pos, rfl⟩ := hminus
          rw [parseExprLoop, parseExprLoop]
          refine Continues.ofTerm (Expr.binOp left .sub) (agrees_term rest h) (fun _ _ _ => taken_carried _)
            (fun _ _ _ => taken_carried _) ?_
          exact fun right mid hless mid' hgoes => continues_exprLoop _ mid hgoes
        · have hstops : parseExprLoop left (token :: rest) = .ok (left, ⟨_, le_rfl⟩) :=
            exprLoop_stops (fun pos after heq => hplus ⟨pos, (List.cons.inj heq).1⟩)
              fun pos after heq => hminus ⟨pos, (List.cons.inj heq).1⟩
          rw [hstops]
          rintro _ _ ⟨⟩
          exact ⟨_, .token hne h, rfl⟩
  termination_by 8 * ts.length
  decreasing_by all_goals (subst_vars; simp only [List.length_cons]; omega)

theorem agrees_term (ts : Tokens α) {ts' : Tokens α} (h : GoesOn plusAt summand ts ts') :
    Agrees plusAt summand (fun _ => True) (parseTerm ts) (parseTerm ts') := by
  rw [parseTerm.eq_def ts, parseTerm.eq_def ts']
  refine (agrees_unary ts h).bind fun left rest hless rest' _ hrest => ?_
  exact (agrees_termLoop left rest hrest).bind fun _ _ _ _ _ hlast => Agrees.pure hlast
  termination_by 8 * ts.length + 4

theorem agrees_termLoop (left : Expr α) (ts : Tokens α) {ts' : Tokens α} (h : GoesOn plusAt summand ts ts') :
    Agrees plusAt summand (fun _ => True) (parseTermLoop left ts) (parseTermLoop left ts') := by
  rw [parseTermLoop.eq_def left ts]
  split
  · obtain ⟨rest', rfl, hrest⟩ := h.tail nofun
    rw [parseTermLoop]
    refine (agrees_unary _ hrest).bind fun right mid hless mid' _ hmid => ?_
    exact (agrees_termLoop _ mid hmid).bind fun _ _ _ _ _ hlast => Agrees.pure hlast
  · obtain ⟨rest', rfl, hrest⟩ := h.tail nofun
    rw [parseTermLoop]
    refine (agrees_unary _ hrest).bind fun right mid hless mid' _ hmid => ?_
    exact (agrees_termLoop _ mid hmid).bind fun _ _ _ _ _ hlast => Agrees.pure hlast
  · next hstar hslash =>
      rw [termLoop_stops (h.avoids nofun fun pos rest heq => hstar _ _ heq)
        (h.avoids nofun fun pos rest heq => hslash _ _ heq)]
      exact Agrees.pure h
  termination_by 8 * ts.length
  decreasing_by all_goals (subst_vars; simp only [List.length_cons]; omega)

theorem agrees_unary (ts : Tokens α) {ts' : Tokens α} (h : GoesOn plusAt summand ts ts') :
    Agrees plusAt summand (fun _ => True) (parseUnary ts) (parseUnary ts') := by
  rw [parseUnary.eq_def ts]
  split
  · obtain ⟨rest', rfl, hrest⟩ := h.tail nofun
    rw [parseUnary]
    exact (agrees_unary _ hrest).bind fun _ _ _ _ _ hlast => Agrees.pure hlast
  · next hminus =>
      rw [unary_of_not_minus (h.avoids nofun fun pos rest heq => hminus _ _ heq)]
      exact agrees_diceOrPrimary _ h
  termination_by 8 * ts.length + 3
  decreasing_by all_goals (subst_vars; first | omega | (simp only [List.length_cons]; omega))

theorem agrees_diceOrPrimary (ts : Tokens α) {ts' : Tokens α} (h : GoesOn plusAt summand ts ts') :
    Agrees plusAt summand (fun _ => True) (parseDiceOrPrimary ts) (parseDiceOrPrimary ts') := by
  rw [parseDiceOrPrimary.eq_def ts]
  split_ifs with hd
  · rw [parseDiceOrPrimary.eq_def ts', h.peekStartsWithD, if_pos hd]
    have hshorter := (consumeLeadingD ts).property
    exact (agrees_diceTerm _ _ h.consumeLeadingD).bind fun _ _ _ _ _ hlast => Agrees.pure hlast
  · split
    · obtain ⟨rest', rfl, hrest⟩ := h.tail nofun
      rw [parseDiceOrPrimary.eq_def (_ :: rest'), h.peekStartsWithD, if_neg hd]
      exact (agrees_afterCount _ _ hrest).bind fun _ _ _ _ _ hlast => Agrees.pure hlast
    · obtain ⟨rest', rfl, hrest⟩ := h.tail nofun
      rw [parseDiceOrPrimary.eq_def (_ :: rest'), h.peekStartsWithD, if_neg hd]
      refine ((continues_expr _ hrest).closed).bindLeaving (fun inner rest₁ _ c last hok _ => ?_)
        fun inner rest₁ _ rest₁' _ hrest₁ => ?_
      · exact closed_of_expect (by decide) (by decide) hok
      · refine Agrees.expect hrest₁ fun rest₂ _ rest₂' _ hrest₂ => ?_
        exact (agrees_afterCount inner rest₂ hrest₂).bind fun _ _ _ _ _ hlast => Agrees.pure hlast
    · next hnumber hparen =>
        rw [diceOrPrimary_atom (h.peekStartsWithD.trans (Bool.eq_false_iff.mpr hd))
          (fun n => h.avoids nofun fun pos rest heq => hnumber _ _ _ heq)
          (h.avoids nofun fun pos rest heq => hparen _ _ heq)]
        exact agrees_atom _ h
  termination_by 8 * ts.length + 2
  decreasing_by all_goals (subst_vars; first | omega | (simp only [List.length_cons]; omega))

theorem agrees_afterCount (candidate : Expr α) (ts : Tokens α) {ts' : Tokens α} (h : GoesOn plusAt summand ts ts') :
    Agrees plusAt summand (fun _ => True) (parseAfterCount candidate ts) (parseAfterCount candidate ts') := by
  rw [parseAfterCount.eq_def candidate ts, parseAfterCount.eq_def candidate ts', h.peekStartsWithD]
  split_ifs with hd
  · have hshorter := (consumeLeadingD ts).property
    exact (agrees_diceTerm _ _ h.consumeLeadingD).bind fun _ _ _ _ _ hlast => Agrees.pure hlast
  · exact Agrees.pure h
  termination_by 8 * ts.length + 2

theorem agrees_diceTerm (count : Expr α) (ts : Tokens α) {ts' : Tokens α} (h : GoesOn plusAt summand ts ts') :
    Agrees plusAt summand (fun _ => True) (parseDiceTerm count ts) (parseDiceTerm count ts') := by
  rw [parseDiceTerm.eq_def count ts, parseDiceTerm.eq_def count ts']
  refine (agrees_sides ts h).bind fun sides rest _ rest' _ hrest => ?_
  exact (agrees_modifiers rest hrest).bind fun _ _ _ _ _ hlast => Agrees.pure hlast
  termination_by 8 * ts.length + 1

theorem agrees_sides (ts : Tokens α) {ts' : Tokens α} (h : GoesOn plusAt summand ts ts') :
    Agrees plusAt summand (fun _ => True) (parseSides ts) (parseSides ts') := by
  rw [parseSides.eq_def ts]
  split
  · obtain ⟨rest', rfl, hrest⟩ := h.tail nofun
    rw [parseSides]
    split_ifs
    · exact Agrees.pure hrest
    · exact Agrees.pure hrest
    · exact Agrees.error
  · obtain ⟨rest', rfl, hrest⟩ := h.tail nofun
    rw [parseSides]
    exact Agrees.pure hrest
  · obtain ⟨rest', rfl, hrest⟩ := h.tail nofun
    rw [parseSides]
    refine ((continues_expr _ hrest).closed).bindLeaving (fun inner rest₁ _ c last hok _ => ?_)
      fun inner rest₁ _ rest₁' _ hrest₁ => ?_
    · exact closed_of_expect (by decide) (by decide) hok
    · exact Agrees.expect hrest₁ fun _ _ _ _ hlast => Agrees.pure hlast
  · exact Agrees.error
  termination_by 8 * ts.length
  decreasing_by all_goals (subst_vars; simp only [List.length_cons]; omega)

theorem agrees_atom (ts : Tokens α) {ts' : Tokens α} (h : GoesOn plusAt summand ts ts') :
    Agrees plusAt summand (fun _ => True) (parseAtom ts) (parseAtom ts') := by
  rw [parseAtom.eq_def ts]
  split
  · obtain ⟨rest', rfl, hrest⟩ := h.tail nofun
    rw [parseAtom]
    exact Agrees.pure hrest
  · obtain ⟨rest', rfl, hrest⟩ := h.tail nofun
    rw [parseAtom]
    refine ((continues_expr _ hrest).closed).bindLeaving (fun inner rest₁ _ c last hok _ => ?_)
      fun inner rest₁ _ rest₁' _ hrest₁ => ?_
    · exact closed_of_expect (by decide) (by decide) hok
    · exact Agrees.expect hrest₁ fun _ _ _ _ hlast => Agrees.pure hlast
  · obtain ⟨rest', rfl, hrest⟩ := h.tail nofun
    rw [parseAtom]
    refine (agrees_items _ hrest).bindLeaving (fun items rest₁ _ c last hok _ => ?_)
      fun items rest₁ _ rest₁' _ hrest₁ => ?_
    · exact closed_of_expect (by decide) (by decide) hok
    · refine Agrees.expect hrest₁ fun rest₂ _ rest₂' _ hrest₂ => ?_
      exact (agrees_modifiers rest₂ hrest₂).bind fun _ _ _ _ _ hlast => Agrees.pure hlast
  · obtain ⟨rest', rfl, hrest⟩ := h.tail nofun
    rw [parseAtom]
    split
    · exact Agrees.pure hrest
    · refine Agrees.expect hrest fun rest₁ _ rest₁' _ hrest₁ => ?_
      refine ((continues_expr rest₁ hrest₁).closed).bindLeaving (fun inner rest₂ _ c last hok _ => ?_)
        fun inner rest₂ _ rest₂' _ hrest₂ => ?_
      · exact closed_of_expect (by decide) (by decide) hok
      · exact Agrees.expect hrest₂ fun _ _ _ _ hlast => Agrees.pure hlast
  · exact Agrees.error
  termination_by 8 * ts.length
  decreasing_by all_goals (subst_vars; simp only [List.length_cons]; omega)

theorem agrees_items (ts : Tokens α) {ts' : Tokens α} (h : GoesOn plusAt summand ts ts') :
    Agrees plusAt summand Closed (parseItems ts) (parseItems ts') := by
  rw [parseItems.eq_def ts, parseItems.eq_def ts']
  refine ((continues_expr ts h).closed).bindLeaving (fun item rest _ items last hok hlast => ?_)
    fun item rest _ rest' _ hrest => ?_
  · obtain ⟨⟨others, left⟩, hothers, hlast'⟩ := except_bind_eq_ok.mp hok
    cases hlast'
    exact closed_of_moreItems hothers hlast
  · refine (agrees_moreItems rest hrest).bindLeaving (fun _ _ _ _ _ hok hlast => ?_) fun _ _ _ _ _ hlast => Agrees.pure hlast
    cases hok
    exact hlast
  termination_by 8 * ts.length + 6

theorem agrees_moreItems (ts : Tokens α) {ts' : Tokens α} (h : GoesOn plusAt summand ts ts') :
    Agrees plusAt summand Closed (parseMoreItems ts) (parseMoreItems ts') := by
  rw [parseMoreItems.eq_def ts]
  split
  · obtain ⟨rest', rfl, hrest⟩ := h.tail nofun
    rw [parseMoreItems]
    refine ((continues_expr _ hrest).closed).bindLeaving (fun item rest₁ _ items last hok hlast => ?_)
      fun item rest₁ _ rest₁' _ hrest₁ => ?_
    · obtain ⟨⟨others, left⟩, hothers, hlast'⟩ := except_bind_eq_ok.mp hok
      cases hlast'
      exact closed_of_moreItems hothers hlast
    · refine (agrees_moreItems rest₁ hrest₁).bindLeaving (fun _ _ _ _ _ hok hlast => ?_) fun _ _ _ _ _ hlast =>
        Agrees.pure hlast
      cases hok
      exact hlast
  · next hcomma =>
      rw [moreItems_stops (h.avoids nofun fun pos rest heq => hcomma _ _ heq)]
      exact Agrees.pure h
  termination_by 8 * ts.length
  decreasing_by all_goals (subst_vars; simp only [List.length_cons]; omega)

end

end agrees

section source

variable {α : Type} [Double α]

/-! The tokens of a source that goes on. -/

theorem spanNumber_append {seenDot : Bool} {text cs : List Char} (h : ∀ c ∈ cs.head?, isNumberStart c = false) :
    spanNumber seenDot (text ++ cs) = ((spanNumber seenDot text).1, (spanNumber seenDot text).2 ++ cs) := by
  induction text generalizing seenDot with
  | nil => rw [List.nil_append, spanNumber_ends h, spanNumber, List.nil_append]
  | cons c text ih =>
      rw [List.cons_append, spanNumber, spanNumber]
      split_ifs with hdigit hdot
      · rw [ih]
      · rw [ih]
      · rfl

theorem word_append {text cs : List Char} (h : ∀ c ∈ cs.head?, isWordChar c = false) :
    (text ++ cs).takeWhile isWordChar = text.takeWhile isWordChar ∧
      (text ++ cs).dropWhile isWordChar = text.dropWhile isWordChar ++ cs := by
  induction text with
  | nil => exact takeWhile_word rfl h
  | cons c text ih =>
      by_cases hc : isWordChar c = true
      · rw [List.cons_append, List.takeWhile_cons_of_pos hc, List.dropWhile_cons_of_pos hc,
          List.takeWhile_cons_of_pos hc, List.dropWhile_cons_of_pos hc, ih.1, ih.2]
        exact ⟨rfl, rfl⟩
      · rw [List.cons_append, List.takeWhile_cons_of_neg hc, List.dropWhile_cons_of_neg hc,
          List.takeWhile_cons_of_neg hc, List.dropWhile_cons_of_neg hc]
        exact ⟨rfl, rfl⟩

/-- A source that goes on has the tokens it had, and what it goes on with has its own from there. -/
theorem tokenizeFrom_append {pos : Nat} {text cs : List Char} {ts : Tokens α} (h : tokenizeFrom pos text = .ok ts)
    (hnumber : ∀ c ∈ cs.head?, isNumberStart c = false) (hword : ∀ c ∈ cs.head?, isWordChar c = false) :
    ∃ last, ∀ (plusAt : Nat) (summand : Tokens α), tokenizeFrom last cs = .ok ((.symbol .plus, plusAt) :: summand) →
      ∃ ts', tokenizeFrom pos (text ++ cs) = .ok ts' ∧ GoesOn plusAt summand ts ts' := by
  induction pos, text using tokenizeFrom.induct (α := α) generalizing ts with
  | case1 pos =>
      rw [tokenizeFrom] at h
      cases h
      exact ⟨pos, fun plusAt summand hcs => ⟨_, hcs, .ended pos⟩⟩
  | case2 pos c text hwhite ih =>
      rw [tokenizeFrom, if_pos hwhite] at h
      obtain ⟨last, hlast⟩ := ih h
      refine ⟨last, fun plusAt summand hcs => ?_⟩
      rw [List.cons_append, tokenizeFrom, if_pos hwhite]
      exact hlast plusAt summand hcs
  | case3 pos c text hwhite hstart digits =>
      rename_i hparse
      rw [tokenizeFrom, if_neg hwhite, dif_pos hstart] at h
      simp only [digits] at hparse
      simp only [hparse, reduceCtorEq] at h
  | case4 pos c text hwhite hstart digits value hparse =>
      rename_i ih
      rw [tokenizeFrom, if_neg hwhite, dif_pos hstart] at h
      simp only [digits] at hparse
      simp only [hparse] at h
      obtain ⟨rest, hrest, h⟩ := except_bind_eq_ok.mp h
      cases h
      obtain ⟨last, hlast⟩ := ih hrest
      refine ⟨last, fun plusAt summand hcs => ?_⟩
      obtain ⟨rest', hrest', hgoes⟩ := hlast plusAt summand hcs
      have hspan := @spanNumber_append false (c :: text) cs hnumber
      rw [List.cons_append] at hspan
      refine ⟨_, ?_, .token (by rintro ⟨⟩) hgoes⟩
      rw [List.cons_append, tokenizeFrom, if_neg hwhite, dif_pos hstart]
      simp only [hspan, hparse]
      exact except_bind_eq_ok.mpr ⟨rest', hrest', rfl⟩
  | case5 pos c text hwhite hstart hletter _ name =>
      rename_i ih
      rw [tokenizeFrom, if_neg hwhite, dif_neg hstart, dif_pos hletter] at h
      obtain ⟨rest, hrest, h⟩ := except_bind_eq_ok.mp h
      cases h
      obtain ⟨last, hlast⟩ := ih hrest
      refine ⟨last, fun plusAt summand hcs => ?_⟩
      obtain ⟨rest', hrest', hgoes⟩ := hlast plusAt summand hcs
      obtain ⟨htake, hdrop⟩ := @word_append (c :: text) cs hword
      rw [List.cons_append] at htake hdrop
      refine ⟨_, ?_, .token (by rintro ⟨⟩) hgoes⟩
      rw [List.cons_append, tokenizeFrom, if_neg hwhite, dif_neg hstart, dif_pos hletter]
      simp only [htake, hdrop]
      exact except_bind_eq_ok.mpr ⟨rest', hrest', rfl⟩
  | case6 pos c text hwhite hstart hletter hnone =>
      rw [tokenizeFrom, if_neg hwhite, dif_neg hstart, dif_neg hletter, hnone] at h
      cases h
  | case7 pos c text hwhite hstart hletter symbol hsymbol ih =>
      rw [tokenizeFrom, if_neg hwhite, dif_neg hstart, dif_neg hletter, hsymbol] at h
      obtain ⟨rest, hrest, h⟩ := except_bind_eq_ok.mp h
      cases h
      obtain ⟨last, hlast⟩ := ih hrest
      refine ⟨last, fun plusAt summand hcs => ?_⟩
      obtain ⟨rest', hrest', hgoes⟩ := hlast plusAt summand hcs
      refine ⟨_, ?_, .token (by rintro ⟨⟩) hgoes⟩
      rw [List.cons_append, tokenizeFrom, if_neg hwhite, dif_neg hstart, dif_neg hletter, hsymbol]
      exact except_bind_eq_ok.mpr ⟨rest', hrest', rfl⟩

/-! A name after a plus. -/

/-- The end of `parse`: every token has been taken. -/
def finish (made : Expr α × Tokens α) : Except FormulaError (Expr α) :=
  match made.2 with
  | (.eof, _) :: _ => .ok made.1
  | rest => .error (parseErr "unexpected trailing input" rest)

theorem parse_of_tokens {source : String} {tokens : Tokens α} (h : tokenize source = .ok tokens) :
    parse source = taken (parseExpr tokens) >>= finish := by
  rw [parse, h]
  show (parseExpr tokens >>= _) = _
  cases hparse : parseExpr tokens with
  | error e => rfl
  | ok made =>
      obtain ⟨expr, ⟨rest, hless⟩⟩ := made
      cases rest with
      | nil => rfl
      | cons first left => rcases first with ⟨n | name | symbol | _, pos⟩ <;> rfl

/-- The tokens of a plus and a name. -/
theorem tokenizeFrom_plusName {name : String} (hname : IsName name) (pos : Nat) :
    ∃ plusAt nameAt last, tokenizeFrom pos (' ' :: '+' :: ' ' :: name.toList) =
      .ok ([(.symbol .plus, plusAt), (.ident name, nameAt), (.eof, last)] : Tokens α) := by
  have hword : Lexed (name.toList ++ []) [Token.ident (α := α) (String.ofList name.toList), .eof] :=
    .word hname.1 hname.2 (by simp) .eof
  rw [List.append_nil, String.ofList_toList] at hword
  have hlexed : Lexed (' ' :: '+' :: ' ' :: name.toList) [.symbol .plus, Token.ident (α := α) name, .eof] :=
    .space (.symbol rfl (.space hword))
  obtain ⟨ts, hts, hmap⟩ := hlexed.tokenizeFrom pos
  obtain ⟨plusAt, afterPlus, rfl, hafterPlus⟩ := exists_first hmap
  obtain ⟨nameAt, afterName, rfl, hafterName⟩ := exists_first hafterPlus
  obtain ⟨last, left, rfl, hleft⟩ := exists_first hafterName
  obtain rfl := List.map_eq_nil_iff.mp hleft
  exact ⟨plusAt, nameAt, last, hts⟩

/-- A source that goes on with a plus and a name is parsed as far as it was, and from there. -/
theorem parse_plusName {source : String} {expr : Expr α} (h : parse source = .ok expr) {name : String}
    (hname : IsName name) :
    ∃ plusAt nameAt last, parse (source ++ " + " ++ name) =
      taken (parseExprLoop expr [(.symbol .plus, plusAt), (.ident name, nameAt), (.eof, last)]) >>= finish := by
  obtain ⟨tokens, htokens, h⟩ := except_bind_eq_ok.mp h
  obtain ⟨⟨expr', rest⟩, hparse, h⟩ := except_bind_eq_ok.mp h
  obtain ⟨last, hlast⟩ := @tokenizeFrom_append α _ 0 source.toList (' ' :: '+' :: ' ' :: name.toList) tokens htokens
    (by rintro c ⟨⟩; decide) (by rintro c ⟨⟩; decide)
  obtain ⟨plusAt, nameAt, ends, hsummand⟩ := @tokenizeFrom_plusName α _ name hname last
  obtain ⟨tokens', htokens', hgoes⟩ := hlast plusAt _ hsummand
  have hsource : (source ++ " + " ++ name).toList = source.toList ++ ' ' :: '+' :: ' ' :: name.toList := by
    rw [String.toList_append, String.toList_append, List.append_assoc]
    rfl
  have hwhole : tokenize (source ++ " + " ++ name) = .ok tokens' := by
    rw [tokenize, hsource]
    exact htokens'
  obtain ⟨after, hafter, htaken⟩ := continues_expr tokens hgoes expr' rest hparse
  refine ⟨plusAt, nameAt, ends, ?_⟩
  rw [parse_of_tokens hwhole, htaken]
  dsimp only at h
  split at h
  · next pos left heq =>
      cases h
      rw [heq] at hafter
      cases hafter with
      | ended _ => rfl
      | token hne _ => exact absurd rfl hne
  · cases h

theorem parseTerm_name {name : String} (hd : name.toList.head? ≠ some 'd' ∧ name.toList.head? ≠ some 'D')
    (hmath : mathFnOf name = none) (nameAt last : Nat) :
    ∃ h, parseTerm ([(.ident name, nameAt), (.eof, last)] : Tokens α) = .ok (.placeholder name, ⟨[(.eof, last)], h⟩) := by
  have hpeek : peekStartsWithD ([(.ident name, nameAt), (.eof, last)] : Tokens α) = false := by
    rw [peekStartsWithD, decide_eq_false hd.1, decide_eq_false hd.2]
    rfl
  have hprimary : parseUnary ([(.ident name, nameAt), (.eof, last)] : Tokens α) =
      parseDiceOrPrimary [(.ident name, nameAt), (.eof, last)] := unary_of_not_minus fun _ _ heq => by cases heq
  have hatom : parseDiceOrPrimary ([(.ident name, nameAt), (.eof, last)] : Tokens α) =
      parseAtom [(.ident name, nameAt), (.eof, last)] :=
    diceOrPrimary_atom hpeek (fun _ _ _ heq => nomatch heq) fun _ _ heq => nomatch heq
  have hstops : parseTermLoop (.placeholder name) [((.eof : Token α), last)] =
      .ok (.placeholder name, ⟨[(.eof, last)], le_rfl⟩) :=
    termLoop_stops (fun _ _ heq => nomatch heq) fun _ _ heq => nomatch heq
  refine ⟨Nat.lt_succ_self _, ?_⟩
  rw [parseTerm.eq_def, hprimary, hatom, parseAtom, hmath]
  show (parseTermLoop (.placeholder name) [((.eof : Token α), last)] >>= _) = _
  rw [hstops]
  rfl

/-- A word of two letters or more is more than one byte. -/
theorem utf8ByteSize_ne_one (c c' : Char) (cs : List Char) : (String.ofList (c :: c' :: cs)).utf8ByteSize ≠ 1 := by
  have hsplit : String.ofList (c :: c' :: cs) = String.ofList [c] ++ (String.ofList [c'] ++ String.ofList cs) := by
    rw [← String.ofList_append, ← String.ofList_append]
    rfl
  have hsize (c : Char) : 0 < (String.ofList [c]).utf8ByteSize := by
    rw [← String.singleton_eq_ofList, String.utf8ByteSize_singleton]
    exact Char.utf8Size_pos c
  have hfirst := hsize c
  have hsecond := hsize c'
  rw [hsplit, String.utf8ByteSize_append, String.utf8ByteSize_append]
  omega

/-- After the letter of the dice a size is expected, and the rest of a word is none. -/
theorem parseTerm_startsWithD {name : String} (hd : name.toList.head? = some 'd' ∨ name.toList.head? = some 'D')
    (hoperator : lowercase name ∉ ["d", "df", "dc"]) (nameAt last : Nat) :
    ∃ e, parseTerm ([(.ident name, nameAt), (.eof, last)] : Tokens α) = .error e := by
  obtain ⟨d, cs, hname, hlower⟩ : ∃ d cs, name = String.ofList (d :: cs) ∧ Char.toLower d = 'd' := by
    rcases hd with hd | hd
    · obtain ⟨cs, hcs⟩ := List.head?_eq_some_iff.mp hd
      exact ⟨'d', cs, by rw [← hcs, String.ofList_toList], by decide⟩
    · obtain ⟨cs, hcs⟩ := List.head?_eq_some_iff.mp hd
      exact ⟨'D', cs, by rw [← hcs, String.ofList_toList], by decide⟩
  have hspelled : lowercase name = String.ofList ('d' :: cs.map Char.toLower) := by
    rw [hname, lowercase, String.toList_ofList, List.map_cons, hlower]
  cases cs with
  | nil => exact absurd (hspelled ▸ List.mem_cons_self) hoperator
  | cons c cs =>
      have hpeek : peekStartsWithD ([(.ident name, nameAt), (.eof, last)] : Tokens α) = true := by
        rw [peekStartsWithD, Bool.or_eq_true, decide_eq_true_iff, decide_eq_true_iff]
        exact hd
      have hrest : (consumeLeadingD ([(.ident name, nameAt), (.eof, last)] : Tokens α)).val =
          [(.ident (String.ofList (c :: cs)), nameAt), (.eof, last)] := by
        rw [consumeLeadingD, if_neg (by rw [hname]; exact utf8ByteSize_ne_one d c cs), hname, String.toList_ofList]
        rfl
      have hnot (letter : Char) (hin : String.ofList ['d', letter] ∈ ["d", "df", "dc"]) :
          lowercase (String.ofList (c :: cs)) ≠ String.ofList [letter] := by
        intro heq
        rw [lowercase, String.toList_ofList] at heq
        rw [String.ofList_injective heq] at hspelled
        exact hoperator (hspelled ▸ hin)
      have hsides : ∃ e,
          parseSides (consumeLeadingD ([(.ident name, nameAt), (.eof, last)] : Tokens α)).val = .error e := by
        rw [hrest, parseSides, if_neg (hnot 'f' (by decide)), if_neg (hnot 'c' (by decide))]
        exact ⟨_, rfl⟩
      obtain ⟨e, hsides⟩ := hsides
      have hprimary : parseUnary ([(.ident name, nameAt), (.eof, last)] : Tokens α) =
          parseDiceOrPrimary [(.ident name, nameAt), (.eof, last)] := unary_of_not_minus fun _ _ heq => by cases heq
      refine ⟨e, ?_⟩
      rw [parseTerm.eq_def, hprimary, parseDiceOrPrimary.eq_def, if_pos hpeek, parseDiceTerm.eq_def, hsides]
      rfl

/-- A name after a plus is the placeholder it spells as long as it does not begin with the letter of the dice. -/
theorem placeholder_after_plus_iff {source : String} {expr : Expr α} (h : parse source = .ok expr) {name : String}
    (hname : IsName name) (hmath : mathFnOf name = none) (hoperator : lowercase name ∉ ["d", "df", "dc"]) :
    parse (source ++ " + " ++ name) = .ok (.binOp expr .add (.placeholder name)) ↔
      name.toList.head? ≠ some 'd' ∧ name.toList.head? ≠ some 'D' := by
  obtain ⟨plusAt, nameAt, last, hparse⟩ := parse_plusName h hname
  rw [hparse, parseExprLoop]
  constructor
  · intro hok
    by_contra hd
    rw [not_and_or, not_not, not_not] at hd
    obtain ⟨e, herror⟩ := @parseTerm_startsWithD α _ name hd hoperator nameAt last
    rw [herror] at hok
    exact nomatch hok
  · intro hd
    obtain ⟨hless, hterm⟩ := @parseTerm_name α _ name hd hmath nameAt last
    have hstops : parseExprLoop (.binOp expr .add (.placeholder name)) [((.eof : Token α), last)] =
        .ok (.binOp expr .add (.placeholder name), ⟨[(.eof, last)], le_rfl⟩) :=
      exprLoop_stops (fun _ _ heq => nomatch heq) fun _ _ heq => nomatch heq
    rw [hterm]
    show taken (parseExprLoop (.binOp expr .add (.placeholder name)) [((.eof : Token α), last)] >>= _) >>= finish = _
    rw [hstops]
    rfl

end source

/-! A name that begins with the letter, and one that does not. -/

theorem strength_after_plus : parse "1d20 + STR" = .ok (.binOp (oneDie 1 []) .add (.placeholder "STR")) := by
  have hname : IsName "STR" := ⟨by decide, by decide⟩
  exact (placeholder_after_plus_iff parse_oneDie hname (by decide) (by decide)).mpr (by decide)

/-- The name of the parser's own comment is read as a die of no size. -/
theorem dexterity_after_plus :
    parse "1d20" = .ok (oneDie 1 []) ∧ IsName "DEX" ∧ mathFnOf "DEX" = none ∧ lowercase "DEX" ∉ ["d", "df", "dc"] ∧
      parse "1d20 + DEX" ≠ .ok (.binOp (oneDie 1 []) .add (.placeholder "DEX")) := by
  have hname : IsName "DEX" := ⟨by decide, by decide⟩
  refine ⟨parse_oneDie, hname, by decide, by decide, fun hok => ?_⟩
  obtain ⟨plusAt, nameAt, last, hparse⟩ := parse_plusName parse_oneDie hname
  obtain ⟨e, herror⟩ := @parseTerm_startsWithD ℚ _ "DEX" (Or.inr (by decide)) (by decide) nameAt last
  rw [show "1d20 + DEX" = "1d20" ++ " + " ++ "DEX" by decide, hparse, parseExprLoop, herror] at hok
  exact nomatch hok

end ThunderForge.Dice
