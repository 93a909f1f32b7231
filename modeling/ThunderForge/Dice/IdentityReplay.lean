import ThunderForge.Dice.Outcomes

/-! A recorded roll that is replayed as it was: each term finds the dice it rolled, in the order it rolled them, and
what keep, drop and clamps did to them is done again. -/

namespace ThunderForge.Dice

open Feed

variable {α : Type}

/-! What a recorded source has still to give. -/

/-- A source between terms, with the dice of the terms that follow; `sizes` are those of all the terms, where the
dice are in one line. -/
def Serves (sizes : Option (List Nat)) : DrawSource → List (List DieOutcome) → Prop
  | .flat flat, groups => flat.dice = groups.flatten ∧ sizes = some (flat.sizes ++ groups.map List.length)
  | .grouped grouped, groups =>
    grouped.groups.drop grouped.next = groups ∧ grouped.next + groups.length = grouped.groups.length ∧ sizes = none

/-- A source within a term, with the term's dice that are left. -/
def InTerm (sizes : Option (List Nat)) : DrawSource → List DieOutcome → List (List DieOutcome) → Prop
  | .flat flat, dice, groups =>
    flat.dice = dice ++ groups.flatten ∧ flat.leftInTerm = dice.length ∧
      sizes = some (flat.sizes ++ groups.map List.length)
  | .grouped grouped, dice, groups =>
    (∃ current, grouped.current = some current ∧ current + 1 = grouped.next ∧ grouped.groups[current]? = some dice) ∧
      grouped.groups.drop grouped.next = groups ∧ grouped.next + groups.length = grouped.groups.length ∧ sizes = none

section sources

variable {sizes : Option (List Nat)} {source : DrawSource} {groups : List (List DieOutcome)} {dice : List DieOutcome}

theorem Serves.beginTerm {group : List DieOutcome} {sides : DieSides} (h : Serves sizes source (group :: groups))
    (hsides : ∀ die ∈ group, die.sides = sides) :
    ∃ source', source.beginTerm group.length sides = .ok source' ∧ InTerm sizes source' group groups := by
  have hsame : group.any (·.sides ≠ sides) = false := by
    simpa using hsides
  cases source with
  | flat flat =>
      obtain ⟨hdice, hsizes⟩ := h
      rw [List.flatten_cons] at hdice
      have hlength : ¬flat.dice.length < group.length := by
        rw [hdice, List.length_append]
        omega
      have htake : flat.dice.take group.length = group := by rw [hdice, List.take_left]
      refine ⟨.flat { flat with sizes := flat.sizes ++ [group.length], leftInTerm := group.length }, ?_, hdice, rfl, ?_⟩
      · simp only [DrawSource.beginTerm, Flat.beginTerm, htake, hsame]
        rw [if_neg hlength]
        rfl
      · rw [List.append_assoc]
        exact hsizes
  | grouped grouped =>
      obtain ⟨hdrop, hlength, hnone⟩ := h
      have hgroup : grouped.groups[grouped.next]? = some group := by
        rw [← List.head?_drop, hdrop, List.head?_cons]
      rw [List.length_cons] at hlength
      refine ⟨.grouped { grouped with next := grouped.next + 1, current := some grouped.next }, ?_,
        ⟨grouped.next, rfl, rfl, hgroup⟩, ?_, ?_, hnone⟩
      · simp only [DrawSource.beginTerm, Grouped.beginTerm, hgroup, hsame]
        rw [if_neg (lt_irrefl _)]
        rfl
      · rw [← List.tail_drop, hdrop, List.tail_cons]
      · show grouped.next + 1 + groups.length = grouped.groups.length
        omega

theorem InTerm.nextDie {die : DieOutcome} (h : InTerm sizes source (die :: dice) groups) :
    source.nextDie.1 = some die ∧ InTerm sizes source.nextDie.2 dice groups := by
  cases source with
  | flat flat =>
      obtain ⟨hdice, hleft, hsizes⟩ := h
      have hpos : flat.leftInTerm ≠ 0 := by
        rw [hleft]
        exact Nat.succ_ne_zero _
      simp only [DrawSource.nextDie, Flat.nextDie, if_neg hpos, hdice]
      refine ⟨rfl, rfl, ?_, hsizes⟩
      show flat.leftInTerm - 1 = dice.length
      rw [hleft]
      rfl
  | grouped grouped =>
      obtain ⟨⟨current, hcurrent, hnext, hgroup⟩, hdrop, hlength, hnone⟩ := h
      simp only [DrawSource.nextDie, Grouped.nextDie, hcurrent, hgroup]
      refine ⟨rfl, ⟨current, rfl, hnext, ?_⟩, ?_, ?_, hnone⟩
      · rw [List.getElem?_modify_eq, hgroup]
        rfl
      · rw [← hdrop]
        exact List.drop_modify_of_lt _ _ _ _ (by show current < grouped.next; omega)
      · rw [List.length_modify]
        exact hlength

theorem InTerm.serves (h : InTerm sizes source [] groups) : Serves sizes source groups := by
  cases source with
  | flat flat => exact ⟨h.1, h.2.2⟩
  | grouped grouped => exact h.2

/-- A term takes the dice its source holds for it, and draws none. -/
theorem takeDice_fed {env : Env α} {modifiers : List Modifier} {sides : DieSides} {ctx : EvalCtx}
    (hsource : ctx.source = some source) (h : InTerm sizes source dice groups) :
    ∃ source', takeDice env modifiers sides dice.length ctx = .ok (dice, { ctx with source := some source' }) ∧
      InTerm sizes source' [] groups := by
  induction dice generalizing ctx source with
  | nil => exact ⟨source, by rw [← hsource]; rfl, h⟩
  | cons die dice ih =>
      obtain ⟨hdie, hnext⟩ := h.nextDie
      obtain ⟨source', htake, hdone⟩ := @ih source.nextDie.2 { ctx with source := some source.nextDie.2 } rfl hnext
      refine ⟨source', ?_, hdone⟩
      have hfirst : takeDie env modifiers sides ctx = .ok (die, { ctx with source := some source.nextDie.2 }) := by
        unfold takeDie
        rw [hsource]
        dsimp only
        rw [show source.nextDie = (some die, source.nextDie.2) from Prod.ext hdie rfl]
      rw [List.length_cons, takeDice, hfirst]
      show (takeDice env modifiers sides dice.length { ctx with source := some source.nextDie.2 } >>= _) = _
      rw [htake]
      rfl

end sources

/-! The two runs. -/

/-- A run that draws its dice, within its budget. -/
structure Draws (ctx : EvalCtx) : Prop where
  source : ctx.source = none
  counted : ctx.dice.length ≤ ctx.totalDiceRolled
  bound : ctx.totalDiceRolled ≤ maxTotalDice

/-- The dice of the terms that were evaluated, as they came off the table. -/
def Wrote (ctx : EvalCtx) (groups : List (List DieOutcome)) (ctx' : EvalCtx) : Prop :=
  ∃ dice, ctx'.dice = ctx.dice ++ dice ∧ dice.map fresh = groups.flatten

/-- A replay in line with a run, with the dice of the terms that follow. It draws nothing, and keeps its kind. -/
def Fed (kept : Nat × Option (List Nat)) (ctx again : EvalCtx) (groups : List (List DieOutcome)) : Prop :=
  again.drawn = kept.1 ∧ again.dice = ctx.dice ∧ again.totalDiceRolled ≤ ctx.totalDiceRolled ∧
    ∃ source, again.source = some source ∧ Serves kept.2 source groups

theorem Wrote.refl (ctx : EvalCtx) : Wrote ctx [] ctx := ⟨[], by simp, rfl⟩

theorem Wrote.trans {ctx ctx' ctx'' : EvalCtx} {groups groups' : List (List DieOutcome)} (h : Wrote ctx groups ctx')
    (h' : Wrote ctx' groups' ctx'') : Wrote ctx (groups ++ groups') ctx'' := by
  obtain ⟨dice, hdice, hfresh⟩ := h
  obtain ⟨dice', hdice', hfresh'⟩ := h'
  exact ⟨dice ++ dice', by rw [hdice', hdice, List.append_assoc], by
    rw [List.map_append, hfresh, hfresh', List.flatten_append]⟩

section runs

variable {β : Type} [Double α] {env : Env α}

/-- A run that is replayed with other draws. -/
abbrev Replays (run again : EvalCtx → Except Failure (β × EvalCtx)) : Prop := Feeds Draws Wrote Fed run again

variable (draws : Nat → UInt32)

theorem replays_rollTerm (modifiers : List Modifier) (count : Nat) (sides : DieSides) :
    Replays (rollTerm env modifiers count sides) (rollTerm { env with draws } modifiers count sides) := by
  intro ctx v ctx' hdraws hrun
  obtain ⟨dice, value, h⟩ := rollTerm_ok hrun hdraws.source
  have hsame : SameDraws dice (modified modifiers dice) := sameDraws_modified modifiers dice
  have hbudget := h.budget
  have hbound := h.bound
  refine ⟨⟨h.source, ?_, h.bound⟩, [dice], ⟨modified modifiers dice, h.dice, ?_⟩, ?_⟩
  · have hcounted := hdraws.counted
    rw [h.dice, List.length_append, hsame.length, h.length]
    omega
  · rw [hsame.map_fresh h.drawn, List.flatten_singleton]
  · rintro ⟨drawn, sizes⟩ again more ⟨rfl, hsameDice, hless, source, hsource, hserves⟩
    let charged : EvalCtx := { again with totalDiceRolled := again.totalDiceRolled + count }
    have hcharge : again.takeDiceBudget count = .ok charged := if_neg (by omega)
    obtain ⟨begun, hbegin, hin⟩ := hserves.beginTerm fun die hdie => (h.drawn die hdie).sides
    rw [h.length] at hbegin
    have hbegin' : charged.beginTerm count sides = .ok { charged with source := some begun } := by
      unfold EvalCtx.beginTerm
      rw [show charged.source = some source from hsource]
      dsimp only
      rw [hbegin]
      rfl
    obtain ⟨left, htake, hdone⟩ : ∃ left, takeDice { env with draws } modifiers sides dice.length
        { charged with source := some begun } = .ok (dice, { charged with source := some left }) ∧
        InTerm sizes left [] more := takeDice_fed rfl hin
    rw [h.length] at htake
    refine ⟨{ charged with dice := ctx'.dice, source := some left }, ?_, rfl, rfl, ?_, left, rfl, hdone.serves⟩
    · unfold rollTerm
      rw [hcharge]
      show (charged.beginTerm count sides >>= _) = _
      rw [hbegin']
      show (takeDice { env with draws } modifiers sides count { charged with source := some begun } >>= _) = _
      rw [htake]
      show (computeSuccessCount env.overflow (modified modifiers dice) modifiers (maxFace sides) >>= _) = _
      rw [h.successes]
      show (termValue env.overflow (modified modifiers dice) v.successCount >>= _) = _
      rw [h.counted, h.dice, ← hsameDice]
      show Except.ok (ExprValue.mk (Double.ofInt value) v.successCount, _) = _
      rw [← h.shown]
      rfl
    · show again.totalDiceRolled + count ≤ ctx'.totalDiceRolled
      omega

mutual

theorem replays_evalExpr : ∀ expr : Expr α,
    Replays (evalExpr env expr) (evalExpr { env with draws } expr)
  | .number n => Feeds.pure Wrote.refl _
  | .placeholder name => by
      rw [evalExpr_placeholder, evalExpr_placeholder]
      dsimp only
      cases env.bindings name with
      | none => exact Feeds.fail _ _
      | some value => exact Feeds.pure Wrote.refl _
  | .neg inner => by
      rw [evalExpr_neg, evalExpr_neg]
      exact Feeds.andThen Wrote.trans (replays_evalExpr inner) fun v => Feeds.pure Wrote.refl _
  | .binOp lhs op rhs => by
      rw [evalExpr_binOp, evalExpr_binOp]
      exact Feeds.andThen Wrote.trans (replays_evalExpr lhs) fun l =>
        Feeds.andThen Wrote.trans (replays_evalExpr rhs) fun r =>
          Feeds.after _ fun value => Feeds.after _ fun value => Feeds.after _ fun successCount =>
            Feeds.pure Wrote.refl _
  | .mathFn kind inner => by
      rw [evalExpr_mathFn, evalExpr_mathFn]
      exact Feeds.andThen Wrote.trans (replays_evalExpr inner) fun v => Feeds.after _ fun value =>
        Feeds.pure Wrote.refl _
  | .dice term => by
      rw [evalExpr_dice, evalExpr_dice]
      exact replays_evalDiceTerm term
  | .pool items modifiers => by
      rw [evalExpr_pool, evalExpr_pool]
      exact Feeds.andThen Wrote.trans (replays_evalItems items) fun totals => Feeds.after _ fun value =>
        Feeds.pure Wrote.refl _

theorem replays_evalDiceTerm : ∀ term : DiceTerm α,
    Replays (evalDiceTerm env term) (evalDiceTerm { env with draws } term)
  | .mk count sides modifiers => by
      rw [evalDiceTerm_mk, evalDiceTerm_mk]
      refine Feeds.andThen Wrote.trans (replays_evalExpr count) fun v => Feeds.after _ fun n => ?_
      by_cases hneg : n < 0
      · simp only [if_pos hneg]
        exact Feeds.fail _ _
      · simp only [if_neg hneg]
        exact Feeds.andThen Wrote.trans (replays_evalSides sides) fun dieSides => replays_rollTerm draws _ _ _

theorem replays_evalSides : ∀ sides : Sides α,
    Replays (evalSides env sides) (evalSides { env with draws } sides)
  | .fate => Feeds.pure Wrote.refl _
  | .coin => Feeds.pure Wrote.refl _
  | .numeric sides => by
      rw [evalSides_numeric, evalSides_numeric]
      refine Feeds.andThen Wrote.trans (replays_evalExpr sides) fun v => Feeds.after _ fun n => ?_
      by_cases hless : n < 1
      · simp only [if_pos hless]
        exact Feeds.fail _ _
      · simp only [if_neg hless]
        exact Feeds.pure Wrote.refl _

theorem replays_evalItems : ∀ items : List (Expr α),
    Replays (evalItems env items) (evalItems { env with draws } items)
  | [] => Feeds.pure Wrote.refl _
  | item :: items => by
      rw [evalItems_cons, evalItems_cons]
      exact Feeds.andThen Wrote.trans (replays_evalExpr item) fun v =>
        Feeds.andThen Wrote.trans (replays_evalItems items) fun totals => Feeds.pure Wrote.refl _

end

end runs

/-! A whole roll. -/

theorem groupsOf_flatten (groups : List (List DieOutcome)) :
    groupsOf (groups.map List.length) groups.flatten = groups := by
  induction groups with
  | nil => rfl
  | cons group groups ih =>
      rw [List.map_cons, List.flatten_cons, groupsOf, List.take_left, List.drop_left, ih]

theorem takesInOrder_flat (groups : List (List DieOutcome)) :
    Serves (some (groups.map List.length)) (.flat { dice := groups.flatten, sizes := [], leftInTerm := 0 }) groups :=
  ⟨rfl, rfl⟩

theorem takesInOrder_grouped (groups : List (List DieOutcome)) :
    Serves none (.grouped { groups, next := 0, current := none }) groups :=
  ⟨rfl, Nat.zero_add _, rfl⟩

section whole

variable [Double α] {env : Env α} {formula : DiceFormula α} {r : RollResolution α}

/-- What a resolution comes from, and what it has been done with again. -/
theorem resolve_again (h : resolve env formula = .ok r) (draws : Nat → UInt32) :
    ∃ groups, r.dice.map fresh = groups.flatten ∧ r.formula = formula.source ∧
      ∀ sizes source drawn, Serves sizes source groups →
        ∃ ctx last, resolveWith { env with draws } formula (some source) drawn = .ok (r, ctx) ∧ ctx.drawn = drawn ∧
          ctx.source = some last ∧ Serves sizes last [] := by
  obtain ⟨ctx, hresolve⟩ := resolve_resolveWith h
  obtain ⟨v, value, heval, hfinite, rfl⟩ := resolveWith_ok hresolve
  have hdraws : Draws { drawn := 0, dice := [], totalDiceRolled := 0, source := none } :=
    ⟨rfl, le_rfl, Nat.zero_le _⟩
  obtain ⟨-, groups, ⟨dice, hdice, hfresh⟩, hfeed⟩ := replays_evalExpr draws formula.ast _ v ctx hdraws heval
  rw [List.nil_append] at hdice
  refine ⟨groups, by rw [← hfresh, ← hdice], rfl, fun sizes source drawn hserves => ?_⟩
  have hfed : Fed (drawn, sizes) { drawn := 0, dice := [], totalDiceRolled := 0, source := none }
      { drawn, dice := [], totalDiceRolled := 0, source := some source } (groups ++ []) :=
    ⟨rfl, rfl, le_rfl, source, rfl, by rw [List.append_nil]; exact hserves⟩
  obtain ⟨again, hagain, hdrawn, hsame, -, last, hlast, hdone⟩ := hfeed _ _ [] hfed
  refine ⟨again, last, ?_, hdrawn, hlast, hdone⟩
  unfold resolveWith
  rw [hagain]
  show (requireFinite v.value >>= _) = _
  rw [hfinite, ← hsame]
  cases v.successCount <;> rfl

/-- A roll that is replayed as it was recorded comes out as it was recorded, and draws nothing. -/
theorem identity_replay (overflow : Overflow) (bindings : PlaceholderBindings α) (draws : Nat → UInt32)
    {source : String} (hparse : DiceFormula.parse source = .ok formula)
    (hresolve : resolve { overflow, bindings, draws } formula = .ok r) (draws' : Nat → UInt32) :
    replay overflow { formula := source, bindings, resolution := r } none .none draws' = .ok (r, 0) := by
  obtain ⟨groups, hfresh, hformula, hagain⟩ := resolve_again hresolve draws'
  obtain ⟨ctx₁, last₁, hfirst, hdrawn₁, hlast₁, hdone₁⟩ := hagain _ _ 0 (takesInOrder_flat groups)
  obtain ⟨ctx₂, last₂, hsecond, hdrawn₂, hlast₂, hdone₂⟩ := hagain _ _ 0 (takesInOrder_grouped groups)
  unfold replay
  dsimp only
  rw [hparse, hfresh]
  show (resolveWith { overflow, bindings, draws := draws' } formula _ 0 >>= _) = _
  rw [hfirst]
  dsimp only [bind, Except.bind]
  rw [hlast₁]
  cases last₁ with
  | grouped grouped => exact absurd hdone₁.2.2 (by simp)
  | flat flat =>
      obtain ⟨hleft, hsizes⟩ := hdone₁
      rw [List.flatten_nil] at hleft
      rw [List.map_nil, List.append_nil, Option.some_inj] at hsizes
      dsimp only
      rw [if_neg (not_not_intro hleft), hdrawn₁, ← hsizes]
      dsimp only [editDice, pure, Except.pure]
      rw [groupsOf_flatten, hsecond]
      dsimp only
      rw [hlast₂, hdrawn₂]
      cases last₂ with
      | flat flat => rfl
      | grouped grouped =>
          have hall : grouped.next = grouped.groups.length := hdone₂.2.1
          exact if_neg (by simpa using hall)

end whole

/-- Two dice of which one is dropped, and a constant. -/
def keptAndConstant : RollResolution ℚ where
  formula := "2d6kh1+3"
  dice :=
    [{ sides := .numeric 6, rolls := [2], steps := [], kept := false, finalValue := 2 },
      { sides := .numeric 6, rolls := [5], steps := [], kept := true, finalValue := 5 }]
  kind := .total 8

theorem keptAndConstant_resolves : ∃ formula, DiceFormula.parse "2d6kh1+3" = .ok formula ∧
    resolve { overflow := .panics, bindings := fun _ => none, draws := fun index => if index = 0 then 1 else 4 }
      formula = .ok keptAndConstant := by
  have hrun :
      ((DiceFormula.parse "2d6kh1+3").toOption >>= fun formula =>
        (resolve { overflow := .panics, bindings := fun _ => none, draws := fun index => if index = 0 then 1 else 4 }
          formula).toOption) = some keptAndConstant := by
    decide +kernel
  obtain ⟨formula, hparse, hresolve⟩ := Option.bind_eq_some_iff.mp hrun
  exact ⟨formula, of_toOption hparse, of_toOption hresolve⟩

theorem keptAndConstant_replays :
    replay .panics { formula := "2d6kh1+3", bindings := fun _ => none, resolution := keptAndConstant } none .none
      (fun _ => 3) = .ok (keptAndConstant, 0) := by
  obtain ⟨formula, hparse, hresolve⟩ := keptAndConstant_resolves
  exact identity_replay .panics _ _ hparse hresolve _

end ThunderForge.Dice
