import ThunderForge.Dice.Asked
import ThunderForge.Dice.Sums

/-! Whole rolls whose `i64` operations all fit: the sums of dice, the margins and the successes of each term, and the
successes that are added up. -/

namespace ThunderForge.Dice

open Feed

variable {α : Type}

/-! How sums overflow is no matter to the dice. -/

section dice

variable {env : Env α} (overflow : Overflow) (modifiers : List Modifier) (sides : DieSides)

theorem chainRepeated_overflow (step : ChainStep) (condition : Option Condition) (left : Nat) (chain : Chain)
    (ctx : EvalCtx) : chainRepeated { env with overflow } sides step condition left chain ctx =
      chainRepeated env sides step condition left chain ctx := by
  cases condition with
  | none => rfl
  | some condition =>
      show chainWhile { env with overflow } sides step condition left chain ctx =
        chainWhile env sides step condition left chain ctx
      induction left generalizing chain ctx with
      | zero =>
          unfold chainWhile
          rfl
      | succ left ih =>
          unfold chainWhile
          simp only [ih]
          rfl

theorem rollDie_overflow (ctx : EvalCtx) : rollDie { env with overflow } modifiers sides ctx = rollDie env modifiers sides ctx := by
  unfold rollDie
  simp only [chainRepeated_overflow]
  rfl

theorem takeDice_overflow (count : Nat) (ctx : EvalCtx) :
    takeDice { env with overflow } modifiers sides count ctx = takeDice env modifiers sides count ctx := by
  have hdie (ctx : EvalCtx) : takeDie { env with overflow } modifiers sides ctx = takeDie env modifiers sides ctx := by
    unfold takeDie
    simp only [rollDie_overflow]
  induction count generalizing ctx with
  | zero => rfl
  | succ count ih =>
      unfold takeDice
      simp only [hdie, ih]

end dice

section runs

variable [Double α]

/-! What a roll comes to evaluate. -/

/-- An expression that is evaluated when another is, with its state. -/
inductive Visits (env : Env α) : Expr α → EvalCtx → Expr α → EvalCtx → Prop where
  | refl (expr : Expr α) (ctx : EvalCtx) : Visits env expr ctx expr ctx
  | count {count sub : Expr α} {sides : Sides α} {modifiers : List Modifier} {ctx ctx' : EvalCtx}
      (h : Visits env count ctx sub ctx') : Visits env (.dice (.mk count sides modifiers)) ctx sub ctx'
  | size {count size sub : Expr α} {modifiers : List Modifier} {v : ExprValue α} {n : Int} {ctx counted ctx' : EvalCtx}
      (hcount : evalExpr env count ctx = .ok (v, counted)) (hn : intValue v = .ok n) (hnonneg : ¬n < 0)
      (h : Visits env size counted sub ctx') :
      Visits env (.dice (.mk count (.numeric size) modifiers)) ctx sub ctx'
  | neg {inner sub : Expr α} {ctx ctx' : EvalCtx} (h : Visits env inner ctx sub ctx') :
      Visits env (.neg inner) ctx sub ctx'
  | lhs {lhs rhs sub : Expr α} {op : BinOp} {ctx ctx' : EvalCtx} (h : Visits env lhs ctx sub ctx') :
      Visits env (.binOp lhs op rhs) ctx sub ctx'
  | rhs {lhs rhs sub : Expr α} {op : BinOp} {l : ExprValue α} {ctx mid ctx' : EvalCtx}
      (hlhs : evalExpr env lhs ctx = .ok (l, mid)) (h : Visits env rhs mid sub ctx') :
      Visits env (.binOp lhs op rhs) ctx sub ctx'
  | mathFn {kind : MathFn} {inner sub : Expr α} {ctx ctx' : EvalCtx} (h : Visits env inner ctx sub ctx') :
      Visits env (.mathFn kind inner) ctx sub ctx'
  | item {before after : List (Expr α)} {item sub : Expr α} {modifiers : List Modifier} {totals : List α}
      {ctx mid ctx' : EvalCtx} (hbefore : evalItems env before ctx = .ok (totals, mid))
      (h : Visits env item mid sub ctx') : Visits env (.pool (before ++ item :: after) modifiers) ctx sub ctx'

theorem Visits.draws {env : Env α} {expr sub : Expr α} {ctx ctx' : EvalCtx} (h : Visits env expr ctx sub ctx')
    (hdraws : Draws ctx) : Draws ctx' := by
  induction h with
  | refl => exact hdraws
  | count _ ih => exact ih hdraws
  | size hcount _ _ _ ih => exact ih (evalExpr_adds hdraws hcount).1
  | neg _ ih => exact ih hdraws
  | lhs _ ih => exact ih hdraws
  | rhs hlhs _ ih => exact ih (evalExpr_adds hdraws hlhs).1
  | mathFn _ ih => exact ih hdraws
  | item hbefore _ ih => exact ih (evalItems_adds hdraws hbefore).1

/-- A term whose count and sides are worked out is rolled within the budget, with its dice as they are drawn. -/
def TermDice (env : Env α) (term : DiceTerm α) (ctx : EvalCtx) (sides : DieSides) (dice : List DieOutcome) : Prop :=
  ∃ v n counted sized rolled, evalExpr env term.count ctx = .ok (v, counted) ∧ intValue v = .ok n ∧ ¬n < 0 ∧
    evalSides env term.sides counted = .ok (sides, sized) ∧ sized.totalDiceRolled + asU32 n ≤ maxTotalDice ∧
      takeDice env term.modifiers sides (asU32 n) { sized with totalDiceRolled := sized.totalDiceRolled + asU32 n } =
        .ok (dice, rolled)

/-- A sum whose operands both have successes. -/
def SuccessesAdded (env : Env α) (sum : Expr α) (ctx : EvalCtx) (a b : Int) : Prop :=
  ∃ lhs rhs l mid r last value, sum = .binOp lhs .add rhs ∧ evalExpr env lhs ctx = .ok (l, mid) ∧
    evalExpr env rhs mid = .ok (r, last) ∧ requireFinite (Double.add l.value r.value) = .ok value ∧
      l.successCount = some a ∧ r.successCount = some b

/-- That the dice of each term an expression rolls, and the successes it adds up, are of some kind. -/
structure Throughout (env : Env α) (fit : List Modifier → DieSides → List DieOutcome → Prop) (expr : Expr α)
    (ctx : EvalCtx) : Prop where
  terms : ∀ term ctx' sides dice, Visits env expr ctx (.dice term) ctx' → TermDice env term ctx' sides dice →
    fit term.modifiers sides dice
  additions : ∀ sum ctx' a b, Visits env expr ctx sum ctx' → SuccessesAdded env sum ctx' a b → inI64 (a + b)

theorem Throughout.of {env : Env α} {fit : List Modifier → DieSides → List DieOutcome → Prop} {expr inner : Expr α}
    {ctx mid : EvalCtx} (h : Throughout env fit expr ctx)
    (hvisits : ∀ {sub ctx'}, Visits env inner mid sub ctx' → Visits env expr ctx sub ctx') :
    Throughout env fit inner mid where
  terms term ctx' sides dice hvisit := h.terms term ctx' sides dice (hvisits hvisit)
  additions sum ctx' a b hvisit := h.additions sum ctx' a b (hvisits hvisit)

/-! Runs in which everything fits. -/

/-- A run whose sums are exact. -/
def exactly (bindings : PlaceholderBindings α) (draws : Nat → UInt32) : Env α := { overflow := .exact, bindings, draws }

/-- Each operation on a term's dice fits. -/
def SumsInRange (modifiers : List Modifier) (sides : DieSides) (dice : List DieOutcome) : Prop :=
  OpsFit (SumsFit 0) modifiers (maxFace sides) (keptValues (modified modifiers dice))

section same

variable {bindings : PlaceholderBindings α} {draws : Nat → UInt32} (overflow : Overflow)

theorem same_rollTerm {modifiers : List Modifier} {count : Nat} {sides : DieSides} {ctx : EvalCtx}
    (hsource : ctx.source = none)
    (hfits : ∀ dice rolled, ctx.totalDiceRolled + count ≤ maxTotalDice →
      takeDice (exactly bindings draws) modifiers sides count
        { ctx with totalDiceRolled := ctx.totalDiceRolled + count } = .ok (dice, rolled) →
      SumsInRange modifiers sides dice) :
    rollTerm { overflow, bindings, draws } modifiers count sides ctx =
      rollTerm (exactly bindings draws) modifiers count sides ctx := by
  by_cases hbudget : maxTotalDice < ctx.totalDiceRolled + count
  · rw [rollTerm_overBudget hbudget, rollTerm_overBudget hbudget]
  let charged : EvalCtx := { ctx with totalDiceRolled := ctx.totalDiceRolled + count }
  have hcharge : ctx.takeDiceBudget count = .ok charged := if_neg hbudget
  have hbegin : charged.beginTerm count sides = .ok charged := beginTerm_none (by exact hsource) count sides
  have htakes : takeDice { overflow, bindings, draws } modifiers sides count charged =
      takeDice (exactly bindings draws) modifiers sides count charged :=
    @takeDice_overflow α (exactly bindings draws) overflow modifiers sides count charged
  have hrun (env : Env α) : rollTerm env modifiers count sides ctx =
      takeDice env modifiers sides count charged >>= fun taken =>
        countTerm env.overflow modifiers (maxFace sides) (modified modifiers taken.1) >>= fun counted =>
          .ok ({ value := Double.ofInt counted.2, successCount := counted.1 },
            { taken.2 with dice := taken.2.dice ++ modified modifiers taken.1 }) := by
    unfold rollTerm countTerm
    rw [hcharge]
    show (charged.beginTerm count sides >>= _) = _
    rw [hbegin]
    simp only [bind_assoc]
    rfl
  rw [hrun, hrun, htakes]
  cases htake : takeDice (exactly bindings draws) modifiers sides count charged with
  | error failure => rfl
  | ok taken =>
      obtain ⟨result, hresult⟩ := countTerm_of_fits (hfits taken.1 taken.2 (not_lt.mp hbudget) htake)
      show (countTerm overflow modifiers (maxFace sides) (modified modifiers taken.1) >>= _) =
        countTerm .exact modifiers (maxFace sides) (modified modifiers taken.1) >>= _
      rw [hresult, hresult]

theorem same_combine {op : BinOp} {x y value : α} {l r : Option Int} (happly : applyBinOp op x y = .ok value)
    (hadd : ∀ a b, op = .add → value = Double.add x y → l = some a → r = some b → inI64 (a + b)) :
    combineSuccesses overflow op l r = combineSuccesses .exact op l r := by
  cases op with
  | add =>
      cases happly
      cases l with
      | none => cases r <;> rfl
      | some a =>
          cases r with
          | none => rfl
          | some b =>
              unfold combineSuccesses
              dsimp only
              rw [i64_of_inI64 (hadd a b rfl rfl rfl rfl), i64_of_inI64 (hadd a b rfl rfl rfl rfl)]
  | sub => rfl
  | mul => rfl
  | div => rfl

mutual

/-- An evaluation in which everything fits is the same in every build. -/
theorem same_evalExpr : ∀ (expr : Expr α) {ctx : EvalCtx}, Draws ctx →
    Throughout (exactly bindings draws) SumsInRange expr ctx →
    evalExpr { overflow, bindings, draws } expr ctx = evalExpr (exactly bindings draws) expr ctx
  | .number n, _, _, _ => by
      rw [evalExpr, evalExpr]
  | .placeholder name, _, _, _ => by
      rw [evalExpr_placeholder, evalExpr_placeholder]
      rfl
  | .neg inner, ctx, hdraws, hfits => by
      rw [evalExpr_neg, evalExpr_neg]
      exact andThen_congr (same_evalExpr inner hdraws (hfits.of Visits.neg)) fun v ctx' _ => rfl
  | .binOp lhs op rhs, ctx, hdraws, hfits => by
      rw [evalExpr_binOp, evalExpr_binOp]
      refine andThen_congr (same_evalExpr lhs hdraws (hfits.of Visits.lhs)) fun l mid hlhs => ?_
      obtain ⟨hdraws', -⟩ := evalExpr_adds hdraws hlhs
      refine andThen_congr (same_evalExpr rhs hdraws' (hfits.of (Visits.rhs hlhs))) fun r last hrhs => ?_
      cases happly : applyBinOp op l.value r.value with
      | error failure => rfl
      | ok result =>
          show (requireFinite result >>= _) = (requireFinite result >>= _)
          cases hfinite : requireFinite result with
          | error failure => rfl
          | ok value =>
              show (combineSuccesses overflow op l.successCount r.successCount >>= _) =
                (combineSuccesses .exact op l.successCount r.successCount >>= _)
              rw [same_combine overflow happly]
              rintro a b rfl rfl hl hr
              exact hfits.additions _ ctx a b (.refl _ ctx) ⟨lhs, rhs, l, mid, r, last, value, rfl, hlhs, hrhs, hfinite, hl, hr⟩
  | .mathFn kind inner, ctx, hdraws, hfits => by
      rw [evalExpr_mathFn, evalExpr_mathFn]
      exact andThen_congr (same_evalExpr inner hdraws (hfits.of Visits.mathFn)) fun v ctx' _ => rfl
  | .dice (.mk count sides modifiers), ctx, hdraws, hfits => by
      rw [evalExpr_dice, evalExpr_dice, evalDiceTerm_mk, evalDiceTerm_mk]
      refine andThen_congr (same_evalExpr count hdraws (hfits.of Visits.count)) fun v counted hcount => ?_
      obtain ⟨hdraws', -⟩ := evalExpr_adds hdraws hcount
      cases hn : intValue v with
      | error failure => rfl
      | ok n =>
          show (if n < 0 then _ else _) = (if n < 0 then _ else _)
          by_cases hneg : n < 0
          · rw [if_pos hneg, if_pos hneg]
          · rw [if_neg hneg, if_neg hneg]
            have hsides : evalSides { overflow, bindings, draws } sides counted =
                evalSides (exactly bindings draws) sides counted := by
              cases sides with
              | fate => rfl
              | coin => rfl
              | numeric size =>
                  rw [evalSides_numeric, evalSides_numeric]
                  exact andThen_congr (same_evalExpr size hdraws' (hfits.of (Visits.size hcount hn hneg)))
                    fun v ctx' _ => rfl
            refine andThen_congr hsides fun dieSides sized hsized => ?_
            refine same_rollTerm overflow (evalSides_adds hdraws' hsized).1.source fun dice rolled hbudget htake => ?_
            exact hfits.terms _ ctx dieSides dice (.refl _ ctx) ⟨v, n, counted, sized, rolled, hcount, hn, hneg, hsized, hbudget, htake⟩
  | .pool items modifiers, ctx, hdraws, hfits => by
      rw [evalExpr_pool, evalExpr_pool]
      refine andThen_congr (same_evalItems items hdraws fun before item after totals mid hitems hbefore => ?_)
        fun totals ctx' _ => rfl
      subst hitems
      exact hfits.of (Visits.item hbefore)

theorem same_evalItems : ∀ (items : List (Expr α)) {ctx : EvalCtx}, Draws ctx →
    (∀ before item after totals mid, items = before ++ item :: after →
      evalItems (exactly bindings draws) before ctx = .ok (totals, mid) →
        Throughout (exactly bindings draws) SumsInRange item mid) →
    evalItems { overflow, bindings, draws } items ctx = evalItems (exactly bindings draws) items ctx
  | [], _, _, _ => by
      rw [evalItems, evalItems]
  | item :: items, ctx, hdraws, hfits => by
      rw [evalItems_cons, evalItems_cons]
      have hfirst := hfits [] item items [] ctx rfl (by rw [evalItems])
      refine andThen_congr (same_evalExpr item hdraws hfirst) fun v mid hitem => ?_
      obtain ⟨hdraws', -⟩ := evalExpr_adds hdraws hitem
      refine andThen_congr (same_evalItems items hdraws' fun before next after totals last hitems hbefore => ?_)
        fun totals ctx' _ => rfl
      refine hfits (item :: before) next after (v.value :: totals) last (by rw [hitems, List.cons_append]) ?_
      rw [evalItems_cons, andThen, hitem]
      dsimp only [bind, Except.bind]
      rw [andThen, hbefore]
      rfl

end

end same

/-! Faces. -/

theorem faceOf_faceSized {draw : UInt32} {sides : DieSides} (h : ∀ n, sides = .numeric n → n ≤ 4294967296) :
    FaceSized (faceOf draw sides) := by
  unfold FaceSized faceOf
  cases sides with
  | numeric n =>
      have hn := h n rfl
      have hlt : draw.toNat % max n 1 < max n 1 := Nat.mod_lt _ (by omega)
      dsimp only
      omega
  | fate =>
      dsimp only
      omega
  | coin =>
      dsimp only
      omega

theorem Drawn.faceSized {sides : DieSides} {die : DieOutcome} (h : Drawn sides die)
    (hsides : ∀ n, sides = .numeric n → n ≤ 4294967296) : FaceSized die.finalValue := by
  have hmem : lastRoll die.rolls ∈ die.rolls := by
    rw [lastRoll, List.getLast?_eq_some_getLast h.faces.1]
    exact List.getLast_mem h.faces.1
  obtain ⟨draw, hface⟩ := h.faces.2 _ hmem
  rw [h.shown, hface]
  exact faceOf_faceSized hsides

/-- The dice of a term are few, and show faces. -/
theorem TermDice.faces {env : Env α} {term : DiceTerm α} {ctx : EvalCtx} {sides : DieSides} {dice : List DieOutcome}
    (hdraws : Draws ctx) (h : TermDice env term ctx sides dice) :
    dice.length ≤ maxTotalDice ∧ ∀ die ∈ dice, FaceSized die.finalValue := by
  obtain ⟨v, n, counted, sized, rolled, hcount, -, -, hsides, hbudget, htake⟩ := h
  obtain ⟨hdraws', -⟩ := evalExpr_adds hdraws hcount
  obtain ⟨hlength, hdrawn, -⟩ := takeDice_ok htake (evalSides_adds hdraws' hsides).1.source
  have hsize : ∀ k, sides = .numeric k → k ≤ 4294967296 := by
    rintro k rfl
    cases hterm : term.sides with
    | fate =>
        rw [hterm] at hsides
        cases hsides
    | coin =>
        rw [hterm] at hsides
        cases hsides
    | numeric size =>
        rw [hterm] at hsides
        obtain ⟨w, m, -, -, -, hm⟩ := evalSides_ok hsides
        cases hm
        unfold asU32
        omega
  exact ⟨by omega, fun die hdie => (hdrawn die hdie).faceSized hsize⟩

/-! Every operation. -/

/-- No `i64` operation of a roll overflows: in a build that checks them a term's dice come to a count, successes less
failures and successes that are added fit, and the roll resolves as it does with exact sums. -/
structure NoOverflow (bindings : PlaceholderBindings α) (draws : Nat → UInt32) (formula : DiceFormula α) : Prop where
  operations : Throughout (exactly bindings draws)
    (fun modifiers sides dice =>
      (∃ result, countTerm .panics modifiers (maxFace sides) (modified modifiers dice) = .ok result) ∧
        inI64 (successBalance modifiers (maxFace sides) (keptValues (modified modifiers dice))))
    formula.ast .start
  resolves : ∀ overflow, resolve { overflow, bindings, draws } formula = resolve (exactly bindings draws) formula

/-- As many dice as a sum takes, at what the clamps make of nothing, fit; and so do a margin's difference, and what is
left of the successes when faces are subtracted. -/
def MultiplesFit (modifiers : List Modifier) (sides : DieSides) (dice : List DieOutcome) : Prop :=
  OpsFit (fun values => inI64 (values.length * clamped modifiers 0)) modifiers (maxFace sides)
    (keptValues (modified modifiers dice))

theorem matching_length (condition : Option Condition) (greatest : Int) (kept : List Int) :
    (matching condition greatest kept).length ≤ kept.length := by
  cases condition with
  | none => exact Nat.zero_le _
  | some condition => exact List.length_filter_le _ _

section terms

variable {modifiers : List Modifier} {sides : DieSides} {dice : List DieOutcome}

theorem sumsInRange_iff (hfew : dice.length ≤ maxTotalDice) (hfaces : ∀ die ∈ dice, FaceSized die.finalValue) :
    SumsInRange modifiers sides dice ↔ MultiplesFit modifiers sides dice := by
  refine OpsFit.congr fun values hsub => ?_
  refine sumsFit_iff (fun value hvalue => kept_near modifiers hfaces value (hsub.subset hvalue)) ?_
  exact hsub.length_le.trans ((kept_length modifiers dice).trans hfew)

theorem inI64_successBalance (hfew : dice.length ≤ maxTotalDice) (greatest : Int) :
    inI64 (successBalance modifiers greatest (keptValues (modified modifiers dice))) := by
  have hkept := (kept_length modifiers dice).trans hfew
  have hsuccesses := (matching_length (findCondition modifiers countSuccessesOf) greatest _).trans hkept
  have hfailures := (matching_length (findCondition modifiers countFailuresOf) greatest _).trans hkept
  unfold maxTotalDice at hsuccesses hfailures
  unfold inI64 successBalance
  simp only [Bool.and_eq_true, decide_eq_true_eq]
  omega

end terms

/-- No operation of a roll overflows if and only if the multiples of each term's clamped dice, its margins and the
successes that are added fit. -/
theorem noOverflow_iff (bindings : PlaceholderBindings α) (draws : Nat → UInt32) (formula : DiceFormula α) :
    NoOverflow bindings draws formula ↔ Throughout (exactly bindings draws) MultiplesFit formula.ast .start := by
  constructor
  · intro h
    refine ⟨fun term ctx sides dice hvisit hdice => ?_, h.operations.additions⟩
    obtain ⟨hfew, hfaces⟩ := hdice.faces (hvisit.draws draws_start)
    obtain ⟨⟨result, hresult⟩, -⟩ := h.operations.terms term ctx sides dice hvisit hdice
    exact (sumsInRange_iff hfew hfaces).mp (fits_of_countTerm hresult)
  · intro h
    have hfits : Throughout (exactly bindings draws) SumsInRange formula.ast .start := by
      refine ⟨fun term ctx sides dice hvisit hdice => ?_, h.additions⟩
      obtain ⟨hfew, hfaces⟩ := hdice.faces (hvisit.draws draws_start)
      exact (sumsInRange_iff hfew hfaces).mpr (h.terms term ctx sides dice hvisit hdice)
    refine ⟨⟨fun term ctx sides dice hvisit hdice => ?_, h.additions⟩, fun overflow => ?_⟩
    · obtain ⟨hfew, -⟩ := hdice.faces (hvisit.draws draws_start)
      obtain ⟨result, hresult⟩ := countTerm_of_fits (hfits.terms term ctx sides dice hvisit hdice)
      exact ⟨⟨result, hresult .panics⟩, inI64_successBalance hfew _⟩
    · have hsame := same_evalExpr overflow formula.ast draws_start hfits
      unfold EvalCtx.start at hsame
      unfold resolve resolveWith
      rw [hsame]

end runs

/-- Two dice whose clamp is the greatest `i64`. -/
theorem greatest_min_overflows : ∃ formula : DiceFormula ℚ,
    DiceFormula.parse "2d6min9223372036854775807" = .ok formula ∧
      ¬NoOverflow (fun _ => none) (fun _ => 3) formula := by
  have hrun :
      ((DiceFormula.parse "2d6min9223372036854775807" : Except FormulaError (DiceFormula ℚ)).toOption.map fun formula =>
        decide ((resolve { overflow := .panics, bindings := fun _ => none, draws := fun _ => 3 } formula).isOk =
          (resolve (exactly (fun _ => none) fun _ => 3) formula).isOk)) = some false := by
    decide +kernel
  obtain ⟨formula, hparse, hdiffers⟩ := Option.map_eq_some_iff.mp hrun
  refine ⟨formula, of_toOption hparse, fun h => ?_⟩
  rw [h.resolves .panics] at hdiffers
  simp at hdiffers

end ThunderForge.Dice
