import ThunderForge.Dice.IdentityReplay

/-! What the dice terms of a roll ask for, and what they are given. A count or a size is worked out as a number, taken
to an `i64` and then narrowed to 32 bits, before the count is held against what is left of the budget. -/

namespace ThunderForge.Dice

variable {α : Type}

/-! The terms that a roll evaluates. -/

/-- A term, with the state in which it is evaluated when an expression is. -/
inductive Reached [Double α] (env : Env α) : Expr α → EvalCtx → DiceTerm α → EvalCtx → Prop where
  | term (term : DiceTerm α) (ctx : EvalCtx) : Reached env (.dice term) ctx term ctx
  | count {count : Expr α} {sides : Sides α} {modifiers : List Modifier} {ctx ctx' : EvalCtx} {term : DiceTerm α}
      (h : Reached env count ctx term ctx') : Reached env (.dice (.mk count sides modifiers)) ctx term ctx'
  | size {count size : Expr α} {modifiers : List Modifier} {v : ExprValue α} {n : Int} {ctx counted ctx' : EvalCtx}
      {term : DiceTerm α} (hcount : evalExpr env count ctx = .ok (v, counted)) (hn : intValue v = .ok n)
      (hnonneg : ¬n < 0) (h : Reached env size counted term ctx') :
      Reached env (.dice (.mk count (.numeric size) modifiers)) ctx term ctx'
  | neg {inner : Expr α} {ctx ctx' : EvalCtx} {term : DiceTerm α} (h : Reached env inner ctx term ctx') :
      Reached env (.neg inner) ctx term ctx'
  | lhs {lhs rhs : Expr α} {op : BinOp} {ctx ctx' : EvalCtx} {term : DiceTerm α} (h : Reached env lhs ctx term ctx') :
      Reached env (.binOp lhs op rhs) ctx term ctx'
  | rhs {lhs rhs : Expr α} {op : BinOp} {l : ExprValue α} {ctx mid ctx' : EvalCtx} {term : DiceTerm α}
      (hlhs : evalExpr env lhs ctx = .ok (l, mid)) (h : Reached env rhs mid term ctx') :
      Reached env (.binOp lhs op rhs) ctx term ctx'
  | mathFn {kind : MathFn} {inner : Expr α} {ctx ctx' : EvalCtx} {term : DiceTerm α}
      (h : Reached env inner ctx term ctx') : Reached env (.mathFn kind inner) ctx term ctx'
  | item {before after : List (Expr α)} {item : Expr α} {modifiers : List Modifier} {totals : List α}
      {ctx mid ctx' : EvalCtx} {term : DiceTerm α} (hbefore : evalItems env before ctx = .ok (totals, mid))
      (h : Reached env item mid term ctx') : Reached env (.pool (before ++ item :: after) modifiers) ctx term ctx'

section reached

variable [Double α] {env : Env α}

theorem evalItems_error {before after : List (Expr α)} {item : Expr α} {totals : List α} {ctx mid : EvalCtx}
    {failure : Failure} (hbefore : evalItems env before ctx = .ok (totals, mid))
    (h : evalExpr env item mid = .error failure) : evalItems env (before ++ item :: after) ctx = .error failure := by
  induction before generalizing ctx totals with
  | nil =>
      cases hbefore
      rw [List.nil_append, evalItems, h]
      rfl
  | cons first before ih =>
      rw [evalItems_cons] at hbefore
      obtain ⟨v, between, hfirst, hrest⟩ := Feed.andThen_ok hbefore
      obtain ⟨others, last, hothers, hdone⟩ := Feed.andThen_ok hrest
      cases hdone
      rw [List.cons_append, evalItems, hfirst]
      show (evalItems env (before ++ item :: after) between >>= _) = _
      rw [ih hothers]
      rfl

/-- How a term fails is how the whole fails. -/
theorem Reached.error {expr : Expr α} {ctx ctx' : EvalCtx} {term : DiceTerm α} {failure : Failure}
    (h : Reached env expr ctx term ctx') (hterm : evalDiceTerm env term ctx' = .error failure) :
    evalExpr env expr ctx = .error failure := by
  induction h with
  | term => rw [evalExpr, hterm]
  | count _ ih =>
      rw [evalExpr, evalDiceTerm, ih hterm]
      rfl
  | size hcount hn hnonneg _ ih =>
      rw [evalExpr, evalDiceTerm, hcount]
      dsimp only [bind, Except.bind]
      rw [hn]
      dsimp only
      rw [if_neg hnonneg, evalSides, ih hterm]
      rfl
  | neg _ ih =>
      rw [evalExpr, ih hterm]
      rfl
  | lhs _ ih =>
      rw [evalExpr, ih hterm]
      rfl
  | rhs hlhs _ ih =>
      rw [evalExpr, hlhs]
      dsimp only [bind, Except.bind]
      rw [ih hterm]
  | mathFn _ ih =>
      rw [evalExpr, ih hterm]
      rfl
  | item hbefore _ ih =>
      rw [evalExpr, evalItems_error hbefore (ih hterm)]
      rfl

/-- What evaluating does to the dice: it adds some. -/
theorem evalExpr_adds {expr : Expr α} {v : ExprValue α} {ctx ctx' : EvalCtx} (hdraws : Draws ctx)
    (h : evalExpr env expr ctx = .ok (v, ctx')) : Draws ctx' ∧ ctx.dice <+: ctx'.dice := by
  obtain ⟨hdraws', groups, ⟨dice, hdice, -⟩, -⟩ := replays_evalExpr env.draws expr ctx v ctx' hdraws h
  exact ⟨hdraws', dice, hdice.symm⟩

theorem evalItems_adds {items : List (Expr α)} {totals : List α} {ctx ctx' : EvalCtx} (hdraws : Draws ctx)
    (h : evalItems env items ctx = .ok (totals, ctx')) : Draws ctx' ∧ ctx.dice <+: ctx'.dice := by
  obtain ⟨hdraws', groups, ⟨dice, hdice, -⟩, -⟩ := replays_evalItems env.draws items ctx totals ctx' hdraws h
  exact ⟨hdraws', dice, hdice.symm⟩

theorem evalSides_adds {sides : Sides α} {dieSides : DieSides} {ctx ctx' : EvalCtx} (hdraws : Draws ctx)
    (h : evalSides env sides ctx = .ok (dieSides, ctx')) : Draws ctx' ∧ ctx.dice <+: ctx'.dice := by
  obtain ⟨hdraws', groups, ⟨dice, hdice, -⟩, -⟩ := replays_evalSides env.draws sides ctx dieSides ctx' hdraws h
  exact ⟨hdraws', dice, hdice.symm⟩

/-- An item of a pool that is evaluated. -/
theorem evalItems_item {before after : List (Expr α)} {item : Expr α} {totals all : List α} {ctx mid last : EvalCtx}
    (hdraws : Draws ctx) (hbefore : evalItems env before ctx = .ok (totals, mid))
    (h : evalItems env (before ++ item :: after) ctx = .ok (all, last)) :
    ∃ v next, evalExpr env item mid = .ok (v, next) ∧ next.dice <+: last.dice := by
  induction before generalizing ctx totals all with
  | nil =>
      cases hbefore
      rw [List.nil_append, evalItems_cons] at h
      obtain ⟨v, next, hitem, hrest⟩ := Feed.andThen_ok h
      obtain ⟨others, end', hothers, hdone⟩ := Feed.andThen_ok hrest
      cases hdone
      exact ⟨v, next, hitem, (evalItems_adds (evalExpr_adds hdraws hitem).1 hothers).2⟩
  | cons first before ih =>
      rw [evalItems_cons] at hbefore
      rw [List.cons_append, evalItems_cons] at h
      obtain ⟨v, next, hfirst, hrest⟩ := Feed.andThen_ok hbefore
      obtain ⟨others, end', hothers, hdone⟩ := Feed.andThen_ok hrest
      cases hdone
      obtain ⟨v', next', hfirst', hrest'⟩ := Feed.andThen_ok h
      rw [hfirst] at hfirst'
      cases hfirst'
      obtain ⟨others', end'', hothers', hdone'⟩ := Feed.andThen_ok hrest'
      cases hdone'
      exact ih (evalExpr_adds hdraws hfirst).1 hothers hothers'

theorem Reached.draws {expr : Expr α} {ctx ctx' : EvalCtx} {term : DiceTerm α} (h : Reached env expr ctx term ctx')
    (hdraws : Draws ctx) : Draws ctx' := by
  induction h with
  | term => exact hdraws
  | count _ ih => exact ih hdraws
  | size hcount _ _ _ ih => exact ih (evalExpr_adds hdraws hcount).1
  | neg _ ih => exact ih hdraws
  | lhs _ ih => exact ih hdraws
  | rhs hlhs _ ih => exact ih (evalExpr_adds hdraws hlhs).1
  | mathFn _ ih => exact ih hdraws
  | item hbefore _ ih => exact ih (evalItems_adds hdraws hbefore).1

theorem evalDiceTerm_ok {count : Expr α} {sides : Sides α} {modifiers : List Modifier} {v : ExprValue α}
    {ctx ctx' : EvalCtx} (h : evalDiceTerm env (.mk count sides modifiers) ctx = .ok (v, ctx')) :
    ∃ w n counted dieSides sized, evalExpr env count ctx = .ok (w, counted) ∧ intValue w = .ok n ∧ ¬n < 0 ∧
      evalSides env sides counted = .ok (dieSides, sized) ∧
        rollTerm env modifiers (asU32 n) dieSides sized = .ok (v, ctx') := by
  rw [evalDiceTerm_mk] at h
  obtain ⟨w, counted, hcount, h⟩ := Feed.andThen_ok h
  obtain ⟨n, hn, h⟩ := except_bind_eq_ok.mp h
  split_ifs at h with hneg
  obtain ⟨dieSides, sized, hsides, hroll⟩ := Feed.andThen_ok h
  exact ⟨w, n, counted, dieSides, sized, hcount, hn, hneg, hsides, hroll⟩

theorem evalSides_ok {size : Expr α} {dieSides : DieSides} {ctx ctx' : EvalCtx}
    (h : evalSides env (.numeric size) ctx = .ok (dieSides, ctx')) :
    ∃ w m, evalExpr env size ctx = .ok (w, ctx') ∧ intValue w = .ok m ∧ ¬m < 1 ∧ dieSides = .numeric (asU32 m) := by
  rw [evalSides_numeric] at h
  obtain ⟨w, sized, hsize, h⟩ := Feed.andThen_ok h
  obtain ⟨m, hm, h⟩ := except_bind_eq_ok.mp h
  split_ifs at h with hless
  cases h
  exact ⟨w, m, hsize, hm, hless, rfl⟩

theorem requireFinite_ok {x y : α} (h : requireFinite x = .ok y) : x = y ∧ Double.isFinite x := by
  unfold requireFinite at h
  split_ifs at h with hfinite
  exact ⟨Except.ok.inj h, hfinite⟩

theorem evalExpr_binOp_ok {lhs rhs : Expr α} {op : BinOp} {v : ExprValue α} {ctx ctx' : EvalCtx}
    (h : evalExpr env (.binOp lhs op rhs) ctx = .ok (v, ctx')) :
    ∃ l r mid, evalExpr env lhs ctx = .ok (l, mid) ∧ evalExpr env rhs mid = .ok (r, ctx') ∧
      applyBinOp op l.value r.value = .ok v.value := by
  rw [evalExpr_binOp] at h
  obtain ⟨l, mid, hlhs, h⟩ := Feed.andThen_ok h
  obtain ⟨r, last, hrhs, h⟩ := Feed.andThen_ok h
  obtain ⟨result, happly, h⟩ := except_bind_eq_ok.mp h
  obtain ⟨value, hfinite, h⟩ := except_bind_eq_ok.mp h
  obtain ⟨successCount, hcombined, h⟩ := except_bind_eq_ok.mp h
  cases h
  rw [(requireFinite_ok hfinite).1] at happly
  exact ⟨l, r, mid, hlhs, hrhs, happly⟩

/-- Every term of an evaluation that ends well does, and its dice are among the whole's. -/
theorem Reached.ok {expr : Expr α} {ctx ctx' mid : EvalCtx} {term : DiceTerm α} {v : ExprValue α}
    (h : Reached env expr ctx term mid) (hdraws : Draws ctx) (hwhole : evalExpr env expr ctx = .ok (v, ctx')) :
    ∃ w after, evalDiceTerm env term mid = .ok (w, after) ∧ after.dice <+: ctx'.dice := by
  induction h generalizing v ctx' with
  | term =>
      rw [evalExpr_dice] at hwhole
      exact ⟨v, ctx', hwhole, List.prefix_rfl⟩
  | count _ ih =>
      rw [evalExpr_dice] at hwhole
      obtain ⟨w, n, counted, dieSides, sized, hcount, -, -, hsides, hroll⟩ := evalDiceTerm_ok hwhole
      obtain ⟨u, after, hterm, hamong⟩ := ih hdraws hcount
      obtain ⟨hdraws₁, -⟩ := evalExpr_adds hdraws hcount
      obtain ⟨hdraws₂, hsized⟩ := evalSides_adds hdraws₁ hsides
      obtain ⟨dice, value, hrolled⟩ := rollTerm_ok hroll hdraws₂.source
      exact ⟨u, after, hterm, (hamong.trans hsized).trans ⟨_, hrolled.dice.symm⟩⟩
  | size hcount _ _ _ ih =>
      rw [evalExpr_dice] at hwhole
      obtain ⟨w, n, counted, dieSides, sized, hcount', -, -, hsides, hroll⟩ := evalDiceTerm_ok hwhole
      rw [hcount] at hcount'
      cases hcount'
      obtain ⟨hdraws₁, -⟩ := evalExpr_adds hdraws hcount
      obtain ⟨x, m, hsize, -, -, -⟩ := evalSides_ok hsides
      obtain ⟨u, after, hterm, hamong⟩ := ih hdraws₁ hsize
      obtain ⟨dice, value, hrolled⟩ := rollTerm_ok hroll (evalSides_adds hdraws₁ hsides).1.source
      exact ⟨u, after, hterm, hamong.trans ⟨_, hrolled.dice.symm⟩⟩
  | neg _ ih =>
      rw [evalExpr_neg] at hwhole
      obtain ⟨w, mid', hinner, hdone⟩ := Feed.andThen_ok hwhole
      cases hdone
      exact ih hdraws hinner
  | lhs _ ih =>
      obtain ⟨l, r, mid', hlhs, hrhs, -⟩ := evalExpr_binOp_ok hwhole
      obtain ⟨u, after, hterm, hamong⟩ := ih hdraws hlhs
      exact ⟨u, after, hterm, hamong.trans (evalExpr_adds (evalExpr_adds hdraws hlhs).1 hrhs).2⟩
  | rhs hlhs _ ih =>
      obtain ⟨l, r, mid', hlhs', hrhs, -⟩ := evalExpr_binOp_ok hwhole
      rw [hlhs] at hlhs'
      cases hlhs'
      exact ih (evalExpr_adds hdraws hlhs).1 hrhs
  | mathFn _ ih =>
      rw [evalExpr_mathFn] at hwhole
      obtain ⟨w, mid', hinner, hdone⟩ := Feed.andThen_ok hwhole
      obtain ⟨value, hvalue, hdone⟩ := except_bind_eq_ok.mp hdone
      cases hdone
      exact ih hdraws hinner
  | item hbefore _ ih =>
      rw [evalExpr_pool] at hwhole
      obtain ⟨totals, last, hitems, hdone⟩ := Feed.andThen_ok hwhole
      obtain ⟨value, hvalue, hdone⟩ := except_bind_eq_ok.mp hdone
      cases hdone
      obtain ⟨w, after, hitem, hamong⟩ := evalItems_item hdraws hbefore hitems
      obtain ⟨u, after', hterm, hamong'⟩ := ih (evalItems_adds hdraws hbefore).1 hitem
      exact ⟨u, after', hterm, hamong'.trans hamong⟩

end reached

/-! Counts and sizes as they are narrowed. -/

/-- A whole number as an `i64` and then `as u32`. -/
def narrowed (n : Int) : Nat := asU32 (Double.clamp (-9223372036854775808) 9223372036854775807 n)

theorem narrowed_of_lt {n : Int} (hnonneg : 0 ≤ n) (h : n < 4294967296) : (narrowed n : Int) = n := by
  unfold narrowed asU32 Double.clamp
  omega

theorem narrowed_lt (n : Int) : narrowed n < 4294967296 := by
  unfold narrowed asU32
  omega

theorem truncate_intCast (n : Int) : Double.truncate (n : ℚ) = n := by
  simp [Double.truncate]

section asked

variable [Double α]

/-- An expression comes to a whole number, once it is rounded. -/
def ComesTo (env : Env α) (expr : Expr α) (ctx : EvalCtx) (n : Int) (ctx' : EvalCtx) : Prop :=
  ∃ v value, evalExpr env expr ctx = .ok (v, ctx') ∧ Double.magnitude v.value = .finite value ∧
    Double.roundAway value = n

/-- The dice a term adds to a roll's, after those of its count and its size. -/
def Adds (env : Env α) (term : DiceTerm α) (ctx sized : EvalCtx) (own dice : List DieOutcome) : Prop :=
  ∃ v ctx', evalDiceTerm env term ctx = .ok (v, ctx') ∧ ctx'.dice = sized.dice ++ own ∧ ctx'.dice <+: dice

/-- A term whose count and sides are known has been given its part of the budget, and rolls as many dice. -/
def Begins (env : Env α) (term : DiceTerm α) (ctx : EvalCtx) (count : Nat) : Prop :=
  ∃ v n counted sides sized charged, evalExpr env term.count ctx = .ok (v, counted) ∧ intValue v = .ok n ∧ ¬n < 0 ∧
    count = asU32 n ∧ evalSides env term.sides counted = .ok (sides, sized) ∧
      sized.takeDiceBudget count = .ok charged

def EvalCtx.start : EvalCtx := { drawn := 0, dice := [], totalDiceRolled := 0, source := none }

/-- A roll is made as its formula asks. -/
structure RollsAsAsked (env : Env α) (formula : DiceFormula α) : Prop where
  /-- Each term of a roll that resolves has as many dice as its count comes to, of the size its size comes to. -/
  rolled : ∀ {r count size modifiers ctx counted sized} {n m : Int}, resolve env formula = .ok r →
    Reached env formula.ast .start (.mk count (.numeric size) modifiers) ctx → ComesTo env count ctx n counted →
      ComesTo env size counted m sized →
        ∃ own, Adds env (.mk count (.numeric size) modifiers) ctx sized own r.dice ∧ (own.length : Int) = n ∧
          ∀ die ∈ own, (∃ sides : Nat, die.sides = .numeric sides ∧ (sides : Int) = m) ∧
            ∀ roll ∈ die.rolls, 1 ≤ roll ∧ roll ≤ m
  /-- A count above the most dice a roll may have is refused, and no smaller number of dice is rolled for it. -/
  refused : ∀ {term ctx counted} {n : Int}, Reached env formula.ast .start term ctx →
    ComesTo env term.count ctx n counted → maxTotalDice < n →
      resolve env formula = .error (.error .diceCountExceeded) ∧ ∀ count, ¬Begins env term ctx count

/-- No count or size of a roll is narrowed to another that it then goes by. -/
structure Fits (env : Env α) (formula : DiceFormula α) : Prop where
  /-- A count that is too high is still too high for what is left of the budget when it has been narrowed. -/
  counts : ∀ {term ctx counted} {n : Int}, Reached env formula.ast .start term ctx →
    ComesTo env term.count ctx n counted → maxTotalDice < n →
      evalSides env term.sides counted = .error (.error .diceCountExceeded) ∨
        ∃ sides sized, evalSides env term.sides counted = .ok (sides, sized) ∧
          maxTotalDice < sized.totalDiceRolled + narrowed n
  /-- A size is one of 32 bits. -/
  sizes : ∀ {r count size modifiers ctx counted sized} {n m : Int}, resolve env formula = .ok r →
    Reached env formula.ast .start (.mk count (.numeric size) modifiers) ctx → ComesTo env count ctx n counted →
      ComesTo env size counted m sized → n = 0 ∨ m < 4294967296

section terms

variable {env : Env α} {formula : DiceFormula α} {ctx ctx' : EvalCtx}

theorem ComesTo.intValue {expr : Expr α} {n : Int} (h : ComesTo env expr ctx n ctx') :
    ∃ v, evalExpr env expr ctx = .ok (v, ctx') ∧
      Dice.intValue v = .ok (Double.clamp (-9223372036854775808) 9223372036854775807 n) := by
  obtain ⟨v, value, heval, hmagnitude, rfl⟩ := h
  refine ⟨v, heval, ?_⟩
  unfold Dice.intValue Double.isFinite Double.toI64 Double.toInt
  rw [Double.magnitude_round, hmagnitude]
  simp only [Magnitude.map, truncate_intCast]
  rfl

theorem clamp_neg_iff (n : Int) : Double.clamp (-9223372036854775808) 9223372036854775807 n < 0 ↔ n < 0 := by
  unfold Double.clamp
  omega

theorem clamp_lt_one_iff (n : Int) : Double.clamp (-9223372036854775808) 9223372036854775807 n < 1 ↔ n < 1 := by
  unfold Double.clamp
  omega

/-- A term whose count is known. -/
theorem ComesTo.evalDiceTerm {term : DiceTerm α} {n : Int} (h : ComesTo env term.count ctx n ctx') (hnonneg : 0 ≤ n) :
    Dice.evalDiceTerm env term ctx =
      Feed.andThen (evalSides env term.sides) (rollTerm env term.modifiers (narrowed n)) ctx' := by
  obtain ⟨v, heval, hvalue⟩ := h.intValue
  cases term with
  | mk count sides modifiers =>
      have hclamp := mt (clamp_neg_iff n).mp (not_lt.mpr hnonneg)
      rw [evalDiceTerm_mk, Feed.andThen, show evalExpr env count ctx = _ from heval]
      show (Dice.intValue v >>= _) = _
      rw [hvalue]
      show (if _ then _ else _) = _
      rw [if_neg hclamp]
      rfl

theorem rollTerm_overBudget {modifiers : List Modifier} {count : Nat} {sides : DieSides}
    (h : maxTotalDice < ctx.totalDiceRolled + count) :
    rollTerm env modifiers count sides ctx = .error (.error .diceCountExceeded) := by
  have hbudget : ctx.takeDiceBudget count = .error (.error .diceCountExceeded) := if_pos h
  unfold rollTerm
  rw [hbudget]
  rfl

/-- How a term that rolls none of its dice fails. -/
theorem evalDiceTerm_refused {term : DiceTerm α} {n : Int} {sides : DieSides} {sized : EvalCtx}
    (h : ComesTo env term.count ctx n ctx') (hnonneg : 0 ≤ n)
    (hsides : evalSides env term.sides ctx' = .ok (sides, sized))
    (hover : maxTotalDice < sized.totalDiceRolled + narrowed n) :
    evalDiceTerm env term ctx = .error (.error .diceCountExceeded) := by
  rw [h.evalDiceTerm hnonneg, Feed.andThen, hsides]
  exact rollTerm_overBudget hover

theorem evalDiceTerm_sides {term : DiceTerm α} {n : Int} {failure : Failure}
    (h : ComesTo env term.count ctx n ctx') (hnonneg : 0 ≤ n)
    (hsides : evalSides env term.sides ctx' = .error failure) : evalDiceTerm env term ctx = .error failure := by
  rw [h.evalDiceTerm hnonneg, Feed.andThen, hsides]
  rfl

/-- What a term that is rolled has added: as many dice as its count was narrowed to, of the size its size was. -/
theorem adds_narrowed {count size : Expr α} {modifiers : List Modifier} {v : ExprValue α} {counted sized : EvalCtx}
    {n m : Int} (hdraws : Draws ctx) (h : evalDiceTerm env (.mk count (.numeric size) modifiers) ctx = .ok (v, ctx'))
    (hcount : ComesTo env count ctx n counted) (hsize : ComesTo env size counted m sized) :
    0 ≤ n ∧ 1 ≤ m ∧ sized.totalDiceRolled + narrowed n ≤ maxTotalDice ∧
      evalSides env (.numeric size) counted = .ok (.numeric (narrowed m), sized) ∧
        ∃ own, ctx'.dice = sized.dice ++ own ∧ own.length = narrowed n ∧
          ∀ die ∈ own, die.sides = .numeric (narrowed m) ∧
            ∀ roll ∈ die.rolls, ∃ draw, roll = faceOf draw (.numeric (narrowed m)) := by
  obtain ⟨w, heval, hn⟩ := hcount.intValue
  obtain ⟨x, heval', hm⟩ := hsize.intValue
  obtain ⟨w', n', counted', dieSides, sized', hcounted, hn', hnonneg, hsides, hroll⟩ := evalDiceTerm_ok h
  rw [heval] at hcounted
  cases hcounted
  rw [hn] at hn'
  cases hn'
  obtain ⟨x', m', hsized, hm', hpos, rfl⟩ := evalSides_ok hsides
  rw [heval'] at hsized
  cases hsized
  rw [hm] at hm'
  cases hm'
  have hdraws' := (evalSides_adds (evalExpr_adds hdraws heval).1 hsides).1
  obtain ⟨dice, value, hrolled⟩ := rollTerm_ok hroll hdraws'.source
  have hsame := sameDraws_modified modifiers dice
  refine ⟨not_lt.mp (mt (clamp_neg_iff n).mpr hnonneg), not_lt.mp (mt (clamp_lt_one_iff m).mpr hpos),
    hrolled.budget.trans hrolled.bound, hsides, modified modifiers dice, hrolled.dice,
    hsame.length.trans hrolled.length, fun die hdie => ?_⟩
  obtain ⟨drawn, hdrawn, hdieSides, hrolls, -⟩ := hsame.exists_drawn hdie
  have hfaces := hrolled.drawn drawn hdrawn
  exact ⟨hdieSides.symm.trans hfaces.sides, fun roll hmem => hfaces.faces.2 roll (hrolls ▸ hmem)⟩

theorem resolve_ok {r : RollResolution α} (h : resolve env formula = .ok r) :
    ∃ v last, evalExpr env formula.ast .start = .ok (v, last) ∧ last.dice = r.dice ∧
      ∀ value, r.kind = .total value → v.value = value := by
  obtain ⟨ctx, hresolve⟩ := resolve_resolveWith h
  obtain ⟨v, value, heval, hfinite, rfl⟩ := resolveWith_ok hresolve
  refine ⟨v, ctx, heval, rfl, fun total htotal => ?_⟩
  rw [(requireFinite_ok hfinite).1]
  cases hcount : v.successCount with
  | none =>
      rw [hcount] at htotal
      exact ResolutionKind.total.inj htotal
  | some count =>
      rw [hcount] at htotal
      cases htotal

theorem resolve_error {failure : Failure} (h : evalExpr env formula.ast .start = .error failure) :
    resolve env formula = .error failure := by
  unfold resolve resolveWith
  rw [show evalExpr env formula.ast { drawn := 0, dice := [], totalDiceRolled := 0, source := none } = _ from h]
  rfl

theorem draws_start : Draws .start := ⟨rfl, le_rfl, Nat.zero_le _⟩

/-- A term of a roll that resolves, with what it has added. -/
theorem rolled_narrowed {r : RollResolution α} {count size : Expr α} {modifiers : List Modifier}
    {counted sized : EvalCtx} {n m : Int} (h : resolve env formula = .ok r)
    (hreached : Reached env formula.ast .start (.mk count (.numeric size) modifiers) ctx)
    (hcount : ComesTo env count ctx n counted) (hsize : ComesTo env size counted m sized) :
    0 ≤ n ∧ 1 ≤ m ∧ sized.totalDiceRolled + narrowed n ≤ maxTotalDice ∧
      evalSides env (.numeric size) counted = .ok (.numeric (narrowed m), sized) ∧
        ∃ own, Adds env (.mk count (.numeric size) modifiers) ctx sized own r.dice ∧ own.length = narrowed n ∧
          ∀ die ∈ own, die.sides = .numeric (narrowed m) ∧
            ∀ roll ∈ die.rolls, ∃ draw, roll = faceOf draw (.numeric (narrowed m)) := by
  obtain ⟨v, last, heval, hdice, -⟩ := resolve_ok h
  obtain ⟨w, after, hterm, hamong⟩ := hreached.ok draws_start heval
  obtain ⟨hnonneg, hpos, hbudget, hsides, own, hown, hlength, hall⟩ :=
    adds_narrowed (hreached.draws draws_start) hterm hcount hsize
  exact ⟨hnonneg, hpos, hbudget, hsides, own, ⟨w, after, hterm, hown, hdice ▸ hamong⟩, hlength, hall⟩

theorem Adds.unique {term : DiceTerm α} {sized : EvalCtx} {own own' dice : List DieOutcome}
    (h : Adds env term ctx sized own dice) (h' : Adds env term ctx sized own' dice) : own = own' := by
  obtain ⟨v, after, hterm, hown, -⟩ := h
  obtain ⟨v', after', hterm', hown', -⟩ := h'
  rw [hterm] at hterm'
  cases hterm'
  exact List.append_cancel_left (hown.symm.trans hown')

theorem faceOf_numeric {draw : UInt32} {sides : Nat} (hpos : 1 ≤ sides) :
    1 ≤ faceOf draw (.numeric sides) ∧ faceOf draw (.numeric sides) ≤ sides := by
  have hlt : draw.toNat % max sides 1 < max sides 1 := Nat.mod_lt _ (by omega)
  show 1 ≤ 1 + ((draw.toNat % max sides 1 : Nat) : Int) ∧ 1 + ((draw.toNat % max sides 1 : Nat) : Int) ≤ sides
  omega

/-- A term whose count is too high is refused where the count still is when it has been narrowed. -/
theorem Fits.refused {term : DiceTerm α} {counted : EvalCtx} {n : Int} (hfits : Fits env formula)
    (hreached : Reached env formula.ast .start term ctx) (hcount : ComesTo env term.count ctx n counted)
    (hmany : maxTotalDice < n) :
    resolve env formula = .error (.error .diceCountExceeded) ∧ ∀ count, ¬Begins env term ctx count := by
  have hnonneg : 0 ≤ n := by omega
  obtain ⟨w, heval, hn⟩ := hcount.intValue
  rcases hfits.counts hreached hcount hmany with hsides | ⟨sides, sized, hsides, hover⟩
  · refine ⟨resolve_error (hreached.error (evalDiceTerm_sides hcount hnonneg hsides)), ?_⟩
    rintro count ⟨v, k, counted', sides, sized, charged, heval', -, -, -, hsides', -⟩
    rw [heval] at heval'
    cases heval'
    rw [hsides] at hsides'
    cases hsides'
  · refine ⟨resolve_error (hreached.error (evalDiceTerm_refused hcount hnonneg hsides hover)), ?_⟩
    rintro count ⟨v, k, counted', sides', sized', charged, heval', hk, -, rfl, hsides', hbudget⟩
    rw [heval] at heval'
    cases heval'
    rw [hn] at hk
    cases hk
    rw [hsides] at hsides'
    cases hsides'
    exact absurd (takeDiceBudget_ok hbudget).1 (not_le.mpr hover)

theorem Fits.rolled {r : RollResolution α} {count size : Expr α} {modifiers : List Modifier} {counted sized : EvalCtx}
    {n m : Int} (hfits : Fits env formula) (h : resolve env formula = .ok r)
    (hreached : Reached env formula.ast .start (.mk count (.numeric size) modifiers) ctx)
    (hcount : ComesTo env count ctx n counted) (hsize : ComesTo env size counted m sized) :
    ∃ own, Adds env (.mk count (.numeric size) modifiers) ctx sized own r.dice ∧ (own.length : Int) = n ∧
      ∀ die ∈ own, (∃ sides : Nat, die.sides = .numeric sides ∧ (sides : Int) = m) ∧
        ∀ roll ∈ die.rolls, 1 ≤ roll ∧ roll ≤ m := by
  obtain ⟨hnonneg, hpos, hbudget, hsides, own, hadds, hlength, hall⟩ := rolled_narrowed h hreached hcount hsize
  have hfew : n ≤ maxTotalDice := by
    by_contra hmany
    rw [(hfits.refused hreached hcount (not_le.mp hmany)).1] at h
    cases h
  have hn : (narrowed n : Int) = n := narrowed_of_lt hnonneg (lt_of_le_of_lt hfew (by decide))
  have hcounted : (own.length : Int) = n := by rw [hlength, hn]
  refine ⟨own, hadds, hcounted, fun die hdie => ?_⟩
  have hm : (narrowed m : Int) = m := by
    rcases hfits.sizes h hreached hcount hsize with hzero | hsmall
    · have hempty : own = [] := List.length_eq_zero_iff.mp (by omega)
      exact absurd (hempty ▸ hdie) List.not_mem_nil
    · exact narrowed_of_lt (by omega) hsmall
  obtain ⟨hdieSides, hrolls⟩ := hall die hdie
  refine ⟨⟨narrowed m, hdieSides, hm⟩, fun roll hroll => ?_⟩
  obtain ⟨draw, rfl⟩ := hrolls roll hroll
  have hface := @faceOf_numeric draw (narrowed m) (by omega)
  rw [hm] at hface
  exact hface

theorem RollsAsAsked.fits (hasked : RollsAsAsked env formula) : Fits env formula where
  counts {term ctx counted n} hreached hcount hmany := by
    have hnonneg : 0 ≤ n := by omega
    obtain ⟨hresolve, hnone⟩ := hasked.refused hreached hcount hmany
    obtain ⟨w, heval, hn⟩ := hcount.intValue
    cases hsides : evalSides env term.sides counted with
    | error failure =>
        rw [resolve_error (hreached.error (evalDiceTerm_sides hcount hnonneg hsides))] at hresolve
        cases hresolve
        exact Or.inl rfl
    | ok result =>
        refine Or.inr ⟨result.1, result.2, rfl, not_le.mp fun hwithin => ?_⟩
        exact hnone (narrowed n) ⟨w, _, counted, result.1, result.2, _, heval, hn,
          mt (clamp_neg_iff n).mp (not_lt.mpr hnonneg), rfl, hsides, if_neg (not_lt.mpr hwithin)⟩
  sizes {r count size modifiers ctx counted sized n m} h hreached hcount hsize := by
    obtain ⟨-, -, -, -, own, hadds, -, hall⟩ := rolled_narrowed h hreached hcount hsize
    obtain ⟨own', hadds', hlength, hall'⟩ := hasked.rolled h hreached hcount hsize
    obtain rfl := hadds.unique hadds'
    cases own with
    | nil => exact Or.inl (by simpa using hlength.symm)
    | cons die dice =>
        obtain ⟨⟨sides, hsides, hm⟩, -⟩ := hall' die (List.mem_cons_self ..)
        have hnarrowed := (hall die (List.mem_cons_self ..)).1
        rw [hsides] at hnarrowed
        have hlt := narrowed_lt m
        rw [← DieSides.numeric.inj hnarrowed] at hlt
        exact Or.inr (by omega)

end terms

/-- A roll is made as its formula asks when, and only when, what it asks for fits. -/
theorem rollsAsAsked_iff (env : Env α) (formula : DiceFormula α) : RollsAsAsked env formula ↔ Fits env formula :=
  ⟨fun hasked => hasked.fits, fun hfits => ⟨hfits.rolled, hfits.refused⟩⟩

end asked

/-- One die, where there are to be four billion and some. -/
def oneOfMany : RollResolution ℚ where
  formula := "4294967297d6"
  dice := [{ sides := .numeric 6, rolls := [4], steps := [], kept := true, finalValue := 4 }]
  kind := .total 4

/-- The count of a die term that is written as a number. -/
def countOf : Expr ℚ → Option ℚ
  | .dice (.mk (.number n) (.numeric _) _) => some n
  | _ => none

theorem eq_of_countOf {expr : Expr ℚ} {n : ℚ} (h : countOf expr = some n) :
    ∃ size modifiers, expr = .dice (.mk (.number n) (.numeric size) modifiers) := by
  unfold countOf at h
  split at h
  · cases h
    exact ⟨_, _, rfl⟩
  · cases h

theorem narrowed_count_is_rolled :
    ∃ formula : DiceFormula ℚ, DiceFormula.parse "4294967297d6" = .ok formula ∧
      ¬RollsAsAsked { overflow := .panics, bindings := fun _ => none, draws := fun _ => 3 } formula := by
  have hrun :
      ((DiceFormula.parse "4294967297d6" : Except FormulaError (DiceFormula ℚ)).toOption >>= fun formula =>
        if countOf formula.ast = some 4294967297 then
          (resolve { overflow := .panics, bindings := fun _ => none, draws := fun _ => 3 } formula).toOption
        else none) = some oneOfMany := by
    decide +kernel
  obtain ⟨⟨source, ast⟩, hparse, hrun⟩ := Option.bind_eq_some_iff.mp hrun
  refine ⟨⟨source, ast⟩, of_toOption hparse, fun hasked => ?_⟩
  dsimp only at hrun
  split_ifs at hrun with hn
  obtain ⟨size, modifiers, rfl⟩ := eq_of_countOf hn
  have hcount : ComesTo { overflow := .panics, bindings := fun _ => none, draws := fun _ => 3 } (.number (4294967297 : ℚ))
      .start 4294967297 .start := by
    refine ⟨.total (4294967297 : ℚ), (4294967297 : ℚ), by rw [evalExpr], rfl, ?_⟩
    decide +kernel
  obtain ⟨hrefused, -⟩ := hasked.refused (.term _ _) hcount (by decide)
  rw [hrefused] at hrun
  cases hrun

end ThunderForge.Dice
