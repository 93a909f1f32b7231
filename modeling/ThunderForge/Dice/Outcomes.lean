import ThunderForge.Dice.Replay
import ThunderForge.Lib.Feed

/-! What a term's dice are: each as it was drawn, before keep, drop and clamps, and what these leave of it. -/

namespace ThunderForge.Dice

open Feed

variable {α : Type}

/-! A die that is drawn. -/

/-- Faces of a die, one at least. -/
def Faces (sides : DieSides) (rolls : List Int) : Prop :=
  rolls ≠ [] ∧ ∀ roll ∈ rolls, ∃ draw, roll = faceOf draw sides

/-- A die as it comes off the table. -/
structure Drawn (dieSides : DieSides) (die : DieOutcome) : Prop where
  sides : die.sides = dieSides
  faces : Faces dieSides die.rolls
  kept : die.kept = true
  shown : die.finalValue = lastRoll die.rolls

/-- What rolling a die changes. -/
structure Rolls (ctx ctx' : EvalCtx) : Prop where
  source : ctx'.source = ctx.source
  dice : ctx'.dice = ctx.dice
  budget : ctx.totalDiceRolled ≤ ctx'.totalDiceRolled
  bound : ctx.totalDiceRolled ≤ maxTotalDice → ctx'.totalDiceRolled ≤ maxTotalDice

theorem Rolls.refl (ctx : EvalCtx) : Rolls ctx ctx := ⟨rfl, rfl, le_rfl, id⟩

theorem Rolls.trans {ctx ctx' ctx'' : EvalCtx} (h : Rolls ctx ctx') (h' : Rolls ctx' ctx'') : Rolls ctx ctx'' where
  source := h'.source.trans h.source
  dice := h'.dice.trans h.dice
  budget := h.budget.trans h'.budget
  bound hle := h'.bound (h.bound hle)

theorem takeDiceBudget_ok {ctx ctx' : EvalCtx} {count : Nat} (h : ctx.takeDiceBudget count = .ok ctx') :
    ctx.totalDiceRolled + count ≤ maxTotalDice ∧
      ctx' = { ctx with totalDiceRolled := ctx.totalDiceRolled + count } := by
  unfold EvalCtx.takeDiceBudget at h
  split_ifs at h with hover
  cases h
  exact ⟨not_lt.mp hover, rfl⟩

theorem rolls_of_budget {ctx ctx' : EvalCtx} {count : Nat} (h : ctx.takeDiceBudget count = .ok ctx') :
    Rolls ctx ctx' := by
  obtain ⟨hle, rfl⟩ := takeDiceBudget_ok h
  exact ⟨rfl, rfl, Nat.le_add_right _ _, fun _ => hle⟩

theorem rolls_rollFace (env : Env α) (ctx : EvalCtx) (sides : DieSides) : Rolls ctx (ctx.rollFace env sides).2 :=
  ⟨rfl, rfl, le_rfl, id⟩

theorem map_ok {ε β γ : Type} {result : Except ε β} {f : β → γ} {c : γ} (h : result.map f = .ok c) :
    ∃ b, result = .ok b ∧ f b = c := by
  cases result with
  | error failure => cases h
  | ok b => exact ⟨b, rfl, Except.ok.inj h⟩

theorem mapError_ok {ε ε' β : Type} {f : ε → ε'} {result : Except ε β} {v : β} (h : result.mapError f = .ok v) :
    result = .ok v := by
  cases result with
  | error failure => cases h
  | ok w =>
      cases h
      rfl

theorem of_toOption {ε β : Type} {result : Except ε β} {value : β} (h : result.toOption = some value) :
    result = .ok value := by
  cases result with
  | ok found => exact congrArg Except.ok (Option.some.inj h)
  | error error => cases h

section chains

variable {env : Env α} {sides : DieSides} {step : ChainStep} {chain chain' : Chain} {ctx ctx' : EvalCtx}

theorem extendChain_ok (h : extendChain env sides step chain ctx = .ok (chain', ctx')) (hfaces : Faces sides chain.rolls) :
    Faces sides chain'.rolls ∧ Rolls ctx ctx' := by
  obtain ⟨charged, hbudget, hroll⟩ := except_bind_eq_ok.mp h
  cases hroll
  refine ⟨⟨by simp, fun roll hroll => ?_⟩, (rolls_of_budget hbudget).trans (rolls_rollFace env charged sides)⟩
  rcases List.mem_append.mp hroll with hold | hnew
  · exact hfaces.2 roll hold
  · exact ⟨_, List.mem_singleton.mp hnew⟩

theorem chainOnce_ok {condition : Option Condition} (h : chainOnce env sides step condition chain ctx = .ok (chain', ctx'))
    (hfaces : Faces sides chain.rolls) : Faces sides chain'.rolls ∧ Rolls ctx ctx' := by
  cases condition with
  | none =>
      cases h
      exact ⟨hfaces, .refl _⟩
  | some condition =>
      unfold chainOnce at h
      dsimp only at h
      split_ifs at h with hmatch
      · exact extendChain_ok h hfaces
      · cases h
        exact ⟨hfaces, .refl _⟩

theorem chainWhile_ok {condition : Condition} {left left' : Nat}
    (h : chainWhile env sides step condition left chain ctx = .ok (chain', left', ctx'))
    (hfaces : Faces sides chain.rolls) : Faces sides chain'.rolls ∧ Rolls ctx ctx' := by
  induction left generalizing chain ctx with
  | zero =>
      unfold chainWhile at h
      split_ifs at h with hmatch
      cases h
      exact ⟨hfaces, .refl _⟩
  | succ left ih =>
      unfold chainWhile at h
      split_ifs at h with hmatch
      · obtain ⟨⟨longer, mid⟩, hextend, hrest⟩ := except_bind_eq_ok.mp h
        obtain ⟨hlonger, hrolls⟩ := extendChain_ok hextend hfaces
        obtain ⟨hfaces', hrolls'⟩ := ih hrest hlonger
        exact ⟨hfaces', hrolls.trans hrolls'⟩
      · cases h
        exact ⟨hfaces, .refl _⟩

theorem chainRepeated_ok {condition : Option Condition} {left left' : Nat}
    (h : chainRepeated env sides step condition left chain ctx = .ok (chain', left', ctx'))
    (hfaces : Faces sides chain.rolls) : Faces sides chain'.rolls ∧ Rolls ctx ctx' := by
  cases condition with
  | none =>
      cases h
      exact ⟨hfaces, .refl _⟩
  | some condition => exact chainWhile_ok h hfaces

theorem rollDie_ok {modifiers : List Modifier} {die : DieOutcome} (h : rollDie env modifiers sides ctx = .ok (die, ctx')) :
    Drawn sides die ∧ Rolls ctx ctx' := by
  have hface : Faces sides [(ctx.rollFace env sides).1] := by
    refine ⟨by simp, fun roll hroll => ⟨_, List.mem_singleton.mp hroll⟩⟩
  obtain ⟨⟨chain₁, ctx₁⟩, hreroll, h⟩ := except_bind_eq_ok.mp h
  obtain ⟨⟨chain₂, left, ctx₂⟩, hrerolls, h⟩ := except_bind_eq_ok.mp h
  obtain ⟨⟨chain₃, ctx₃⟩, hexplode, h⟩ := except_bind_eq_ok.mp h
  obtain ⟨⟨chain₄, left', ctx₄⟩, hexplodes, h⟩ := except_bind_eq_ok.mp h
  obtain ⟨hfaces₁, hrolls₁⟩ := chainOnce_ok hreroll hface
  obtain ⟨hfaces₂, hrolls₂⟩ := chainRepeated_ok hrerolls hfaces₁
  obtain ⟨hfaces₃, hrolls₃⟩ := chainOnce_ok hexplode hfaces₂
  obtain ⟨hfaces₄, hrolls₄⟩ := chainRepeated_ok hexplodes hfaces₃
  cases h
  exact ⟨⟨rfl, hfaces₄, rfl, rfl⟩,
    ((((rolls_rollFace env ctx sides).trans hrolls₁).trans hrolls₂).trans hrolls₃).trans hrolls₄⟩

theorem takeDie_none {modifiers : List Modifier} (hsource : ctx.source = none) :
    takeDie env modifiers sides ctx = rollDie env modifiers sides ctx := by
  rw [takeDie, hsource]

/-- The first die of a term, and then the others. -/
theorem takeDice_succ {modifiers : List Modifier} {count : Nat} {dice : List DieOutcome}
    (h : takeDice env modifiers sides (count + 1) ctx = .ok (dice, ctx')) :
    ∃ die mid others, takeDie env modifiers sides ctx = .ok (die, mid) ∧
      takeDice env modifiers sides count mid = .ok (others, ctx') ∧ dice = die :: others := by
  obtain ⟨⟨die, mid⟩, hdie, h⟩ := except_bind_eq_ok.mp h
  obtain ⟨⟨others, last⟩, hothers, h⟩ := except_bind_eq_ok.mp h
  cases h
  exact ⟨die, mid, others, hdie, hothers, rfl⟩

/-- A term that has no recorded dice draws them all. -/
theorem takeDice_ok {modifiers : List Modifier} {count : Nat} {dice : List DieOutcome}
    (h : takeDice env modifiers sides count ctx = .ok (dice, ctx')) (hsource : ctx.source = none) :
    dice.length = count ∧ (∀ die ∈ dice, Drawn sides die) ∧ Rolls ctx ctx' := by
  induction count generalizing ctx dice with
  | zero =>
      cases h
      exact ⟨rfl, by simp, .refl _⟩
  | succ count ih =>
      obtain ⟨die, mid, others, hdie, hothers, rfl⟩ := takeDice_succ h
      rw [takeDie_none hsource] at hdie
      obtain ⟨hdrawn, hrolls⟩ := rollDie_ok hdie
      obtain ⟨hlength, hall, hrolls'⟩ := ih hothers (hrolls.source.trans hsource)
      refine ⟨congrArg Nat.succ hlength, fun other hother => ?_, hrolls.trans hrolls'⟩
      rcases List.mem_cons.mp hother with rfl | hother
      · exact hdrawn
      · exact hall other hother

end chains

/-! Keep, drop and clamps. -/

/-- What a modifier leaves of dice: they have been drawn alike. -/
def SameDraws (outcomes outcomes' : List DieOutcome) : Prop :=
  outcomes'.map (fun die => (die.sides, die.rolls, die.steps)) = outcomes.map fun die => (die.sides, die.rolls, die.steps)

/-- Dropping dice leaves what does not say whether they are kept. -/
theorem map_markDropped {β : Type} {f : DieOutcome → β} (hf : ∀ die, f { die with kept := false } = f die)
    (dropped : List Nat) (outcomes : List DieOutcome) : (markDropped dropped outcomes).map f = outcomes.map f := by
  refine List.ext_getElem? fun index => ?_
  unfold markDropped
  rw [List.getElem?_map, List.getElem?_mapIdx, List.getElem?_map]
  cases outcomes[index]? with
  | none => rfl
  | some die =>
      simp only [Option.map_some]
      split_ifs
      · rw [hf]
      · rfl

theorem map_applyKeepDrop {β : Type} {f : DieOutcome → β} (hf : ∀ die, f { die with kept := false } = f die)
    (modifiers : List Modifier) (outcomes : List DieOutcome) :
    (applyKeepDrop modifiers outcomes).map f = outcomes.map f := by
  have hfold (state : List Nat × List DieOutcome) : (modifiers.foldl keepDropStep state).2.map f = state.2.map f := by
    induction modifiers generalizing state with
    | nil => rfl
    | cons modifier modifiers ih =>
        rw [List.foldl_cons, ih]
        cases modifier with
        | keepHighest n => exact map_markDropped hf _ _
        | keepLowest n => exact map_markDropped hf _ _
        | dropHighest n => exact map_markDropped hf _ _
        | dropLowest n => exact map_markDropped hf _ _
        | _ => rfl
  exact hfold _

theorem sameDraws_applyKeepDrop (modifiers : List Modifier) (outcomes : List DieOutcome) :
    SameDraws outcomes (applyKeepDrop modifiers outcomes) :=
  map_applyKeepDrop (fun _ => rfl) modifiers outcomes

theorem sameDraws_map {f : DieOutcome → DieOutcome} (outcomes : List DieOutcome)
    (h : ∀ die, (f die).sides = die.sides ∧ (f die).rolls = die.rolls ∧ (f die).steps = die.steps) :
    SameDraws outcomes (outcomes.map f) := by
  unfold SameDraws
  rw [List.map_map]
  refine List.map_congr_left fun die _ => ?_
  obtain ⟨hsides, hrolls, hsteps⟩ := h die
  simp only [Function.comp_apply, hsides, hrolls, hsteps]

theorem sameDraws_clampStep (outcomes : List DieOutcome) (modifier : Modifier) :
    SameDraws outcomes (clampStep outcomes modifier) := by
  cases modifier with
  | min n =>
      refine sameDraws_map outcomes fun die => ?_
      split_ifs <;> exact ⟨rfl, rfl, rfl⟩
  | max n =>
      refine sameDraws_map outcomes fun die => ?_
      split_ifs <;> exact ⟨rfl, rfl, rfl⟩
  | _ => exact rfl

theorem sameDraws_applyClamp (modifiers : List Modifier) (outcomes : List DieOutcome) :
    SameDraws outcomes (applyClamp modifiers outcomes) := by
  unfold applyClamp
  induction modifiers generalizing outcomes with
  | nil => exact rfl
  | cons modifier modifiers ih => exact (ih _).trans (sameDraws_clampStep outcomes modifier)

/-- A term's dice, after its modifiers. -/
theorem sameDraws_modified (modifiers : List Modifier) (outcomes : List DieOutcome) :
    SameDraws outcomes (applyClamp modifiers (applyKeepDrop modifiers outcomes)) :=
  (sameDraws_applyClamp _ _).trans (sameDraws_applyKeepDrop _ _)

theorem SameDraws.length {outcomes outcomes' : List DieOutcome} (h : SameDraws outcomes outcomes') :
    outcomes'.length = outcomes.length := by
  simpa using congrArg List.length h

/-- Each die was drawn as some die was before. -/
theorem SameDraws.exists_drawn {outcomes outcomes' : List DieOutcome} (h : SameDraws outcomes outcomes') {die : DieOutcome}
    (hdie : die ∈ outcomes') :
    ∃ drawn ∈ outcomes, drawn.sides = die.sides ∧ drawn.rolls = die.rolls ∧ drawn.steps = die.steps := by
  have hmem : (die.sides, die.rolls, die.steps) ∈ outcomes.map fun die => (die.sides, die.rolls, die.steps) := by
    rw [← h]
    exact List.mem_map_of_mem hdie
  obtain ⟨drawn, hdrawn, heq⟩ := List.mem_map.mp hmem
  simp only [Prod.mk.injEq] at heq
  exact ⟨drawn, hdrawn, heq⟩

theorem SameDraws.forall_sides {outcomes outcomes' : List DieOutcome} {sides : DieSides} (h : SameDraws outcomes outcomes')
    (hsides : ∀ die ∈ outcomes, die.sides = sides) : ∀ die ∈ outcomes', die.sides = sides := by
  intro die hdie
  obtain ⟨drawn, hdrawn, hsame, -⟩ := h.exists_drawn hdie
  exact hsame.symm.trans (hsides drawn hdrawn)

/-- Dice that were drawn alike come off the table alike. -/
theorem SameDraws.map_fresh {sides : DieSides} {outcomes outcomes' : List DieOutcome} (h : SameDraws outcomes outcomes')
    (hdrawn : ∀ die ∈ outcomes, Drawn sides die) : outcomes'.map fresh = outcomes := by
  induction outcomes' generalizing outcomes with
  | nil =>
      cases outcomes with
      | nil => rfl
      | cons die dice => exact absurd h (by simp [SameDraws])
  | cons die' dice' ih =>
      cases outcomes with
      | nil => exact absurd h (by simp [SameDraws])
      | cons die dice =>
          simp only [SameDraws, List.map_cons, List.cons.injEq, Prod.mk.injEq] at h
          obtain ⟨⟨hsides, hrolls, hsteps⟩, hrest⟩ := h
          have hdie := hdrawn die (List.mem_cons_self ..)
          have hlast : die'.rolls.getLast? = some (lastRoll die.rolls) := by
            rw [hrolls, lastRoll, List.getLast?_eq_some_getLast hdie.faces.1]
            rfl
          have hfresh : fresh die' = die := by
            unfold fresh
            rw [hlast, Option.getD_some, ← hdie.shown, ← hdie.kept, hsides, hrolls, hsteps]
          rw [List.map_cons, hfresh, ih hrest fun other hother => hdrawn other (List.mem_cons_of_mem _ hother)]

/-! A whole term. -/

theorem beginTerm_none {ctx : EvalCtx} (h : ctx.source = none) (count : Nat) (sides : DieSides) :
    ctx.beginTerm count sides = .ok ctx := by
  unfold EvalCtx.beginTerm
  rw [h]

/-- A term's dice once its modifiers have been applied. -/
def modified (modifiers : List Modifier) (dice : List DieOutcome) : List DieOutcome :=
  applyClamp modifiers (applyKeepDrop modifiers dice)

/-- A term that was rolled from draws: its dice, what they count for, and what it changes. -/
structure TermRolled [Double α] (overflow : Overflow) (modifiers : List Modifier) (count : Nat) (sides : DieSides)
    (ctx : EvalCtx) (v : ExprValue α) (ctx' : EvalCtx) (drawnDice : List DieOutcome) (value : Int) : Prop where
  length : drawnDice.length = count
  drawn : ∀ die ∈ drawnDice, Drawn sides die
  budget : ctx.totalDiceRolled + count ≤ ctx'.totalDiceRolled
  bound : ctx'.totalDiceRolled ≤ maxTotalDice
  source : ctx'.source = none
  dice : ctx'.dice = ctx.dice ++ modified modifiers drawnDice
  successes : computeSuccessCount overflow (modified modifiers drawnDice) modifiers (maxFace sides) = .ok v.successCount
  counted : termValue overflow (modified modifiers drawnDice) v.successCount = .ok value
  shown : v.value = Double.ofInt value

/-- The parts of rolling a term: its dice are charged, its source is told of it, and it takes them. -/
structure RollParts [Double α] (env : Env α) (modifiers : List Modifier) (count : Nat) (sides : DieSides)
    (ctx : EvalCtx) (v : ExprValue α) (ctx' begun rolled : EvalCtx) (dice : List DieOutcome) (value : Int) : Prop where
  bound : ctx.totalDiceRolled + count ≤ maxTotalDice
  begins : EvalCtx.beginTerm { ctx with totalDiceRolled := ctx.totalDiceRolled + count } count sides = .ok begun
  takes : takeDice env modifiers sides count begun = .ok (dice, rolled)
  successes : computeSuccessCount env.overflow (modified modifiers dice) modifiers (maxFace sides) = .ok v.successCount
  counted : termValue env.overflow (modified modifiers dice) v.successCount = .ok value
  shown : v.value = Double.ofInt value
  state : ctx' = { rolled with dice := rolled.dice ++ modified modifiers dice }

theorem rollTerm_parts [Double α] {env : Env α} {modifiers : List Modifier} {count : Nat} {sides : DieSides}
    {ctx ctx' : EvalCtx} {v : ExprValue α} (h : rollTerm env modifiers count sides ctx = .ok (v, ctx')) :
    ∃ begun rolled dice value, RollParts env modifiers count sides ctx v ctx' begun rolled dice value := by
  obtain ⟨charged, hbudget, h⟩ := except_bind_eq_ok.mp h
  obtain ⟨begun, hbegin, h⟩ := except_bind_eq_ok.mp h
  obtain ⟨⟨dice, rolled⟩, htake, h⟩ := except_bind_eq_ok.mp h
  obtain ⟨successCount, hcount, h⟩ := except_bind_eq_ok.mp h
  obtain ⟨value, hvalue, h⟩ := except_bind_eq_ok.mp h
  cases h
  obtain ⟨hbound, rfl⟩ := takeDiceBudget_ok hbudget
  exact ⟨begun, rolled, dice, value, hbound, hbegin, htake, hcount, hvalue, rfl, rfl⟩

theorem rollTerm_ok [Double α] {env : Env α} {modifiers : List Modifier} {count : Nat} {sides : DieSides}
    {ctx ctx' : EvalCtx} {v : ExprValue α} (h : rollTerm env modifiers count sides ctx = .ok (v, ctx'))
    (hsource : ctx.source = none) :
    ∃ dice value, TermRolled env.overflow modifiers count sides ctx v ctx' dice value := by
  obtain ⟨begun, rolled, dice, value, hparts⟩ := rollTerm_parts h
  obtain rfl := hparts.state
  have hbegin := hparts.begins
  rw [beginTerm_none (by exact hsource)] at hbegin
  cases hbegin
  obtain ⟨hlength, hdrawn, hrolls⟩ := takeDice_ok hparts.takes hsource
  refine ⟨dice, value, hlength, hdrawn, hrolls.budget, hrolls.bound hparts.bound, hrolls.source.trans hsource, ?_,
    hparts.successes, hparts.counted, hparts.shown⟩
  rw [hrolls.dice]

/-! A whole roll. -/

theorem resolve_resolveWith [Double α] {env : Env α} {formula : DiceFormula α} {r : RollResolution α}
    (h : resolve env formula = .ok r) : ∃ ctx, resolveWith env formula none 0 = .ok (r, ctx) := by
  obtain ⟨⟨resolution, ctx⟩, hwith, h⟩ := except_bind_eq_ok.mp h
  cases h
  exact ⟨ctx, hwith⟩

/-- What a resolution comes from: all that the formula evaluates to. -/
theorem resolveWith_ok [Double α] {env : Env α} {formula : DiceFormula α} {source : Option DrawSource} {drawn : Nat}
    {r : RollResolution α} {ctx : EvalCtx} (h : resolveWith env formula source drawn = .ok (r, ctx)) :
    ∃ v value, evalExpr env formula.ast { drawn, dice := [], totalDiceRolled := 0, source } = .ok (v, ctx) ∧
      requireFinite v.value = .ok value ∧
      r = { formula := formula.source, dice := ctx.dice, kind := v.successCount.elim (.total value) .successCount } := by
  obtain ⟨⟨v, last⟩, heval, h⟩ := except_bind_eq_ok.mp h
  obtain ⟨value, hfinite, h⟩ := except_bind_eq_ok.mp h
  cases h
  refine ⟨v, value, heval, hfinite, ?_⟩
  cases v.successCount <;> rfl

/-! The evaluator as it passes its state on. -/

section equations

variable [Double α] (env : Env α)

theorem evalExpr_placeholder (name : String) :
    evalExpr env (.placeholder name) = fun ctx =>
      (env.bindings name).elim (.error (.error (.missingPlaceholder name))) fun value => .ok (.total value, ctx) := by
  funext ctx
  rw [evalExpr]
  cases env.bindings name <;> rfl

theorem evalExpr_neg (inner : Expr α) :
    evalExpr env (.neg inner) =
      andThen (evalExpr env inner) fun v ctx => .ok (.total (Double.neg v.value), ctx) := by
  funext ctx
  rw [evalExpr]
  rfl

theorem evalExpr_binOp (lhs : Expr α) (op : BinOp) (rhs : Expr α) :
    evalExpr env (.binOp lhs op rhs) =
      andThen (evalExpr env lhs) fun l => andThen (evalExpr env rhs) fun r ctx =>
        applyBinOp op l.value r.value >>= fun value => requireFinite value >>= fun value =>
          combineSuccesses env.overflow op l.successCount r.successCount >>= fun successCount =>
            .ok ({ value, successCount }, ctx) := by
  funext ctx
  rw [evalExpr]
  rfl

theorem evalExpr_mathFn (kind : MathFn) (inner : Expr α) :
    evalExpr env (.mathFn kind inner) =
      andThen (evalExpr env inner) fun v ctx =>
        requireFinite (applyMathFn kind v.value) >>= fun value => .ok (.total value, ctx) := by
  funext ctx
  rw [evalExpr]
  rfl

theorem evalExpr_dice (term : DiceTerm α) : evalExpr env (.dice term) = evalDiceTerm env term := by
  funext ctx
  rw [evalExpr]

theorem evalExpr_pool (items : List (Expr α)) (modifiers : List Modifier) :
    evalExpr env (.pool items modifiers) =
      andThen (evalItems env items) fun totals ctx =>
        poolValue totals modifiers >>= fun value => .ok (value, ctx) := by
  funext ctx
  rw [evalExpr]
  rfl

theorem evalDiceTerm_mk (count : Expr α) (sides : Sides α) (modifiers : List Modifier) :
    evalDiceTerm env (.mk count sides modifiers) =
      andThen (evalExpr env count) fun v ctx => intValue v >>= fun n =>
        if n < 0 then .error (.error (.parseError "dice count must not be negative" 0))
        else andThen (evalSides env sides) (rollTerm env modifiers (asU32 n)) ctx := by
  funext ctx
  rw [evalDiceTerm]
  rfl

theorem evalSides_numeric (sides : Expr α) :
    evalSides env (.numeric sides) =
      andThen (evalExpr env sides) fun v ctx => intValue v >>= fun n =>
        if n < 1 then .error (.error (.parseError "die size must be at least 1" 0))
        else .ok (.numeric (asU32 n), ctx) := by
  funext ctx
  rw [evalSides]
  rfl

theorem evalItems_cons (item : Expr α) (items : List (Expr α)) :
    evalItems env (item :: items) =
      andThen (evalExpr env item) fun v => andThen (evalItems env items) fun totals ctx =>
        .ok (v.value :: totals, ctx) := by
  funext ctx
  rw [evalItems]
  rfl

end equations

end ThunderForge.Dice
