import Mathlib.Data.List.Count
import ThunderForge.Dice.Terms

/-! The chain of rerolls and explosions of a die: what made each of its steps, how many there may be, and that every
roll is one draw and one die of the budget. -/

namespace ThunderForge.Dice

variable {α : Type}

/-- What makes a step of a chain. -/
inductive Mechanism where
  | rerollOnce
  | rerollRecursive
  | explodeOnce
  | explode
  deriving DecidableEq

namespace Mechanism

def step : Mechanism → ChainStep
  | rerollOnce | rerollRecursive => .reroll
  | explodeOnce | explode => .explode

/-- The condition that a term's modifiers set for it. -/
def condition (modifiers : List Modifier) : Mechanism → Option Condition
  | rerollOnce => findCondition modifiers rerollOnceOf
  | rerollRecursive => findCondition modifiers rerollRecursiveOf
  | explodeOnce => findCondition modifiers explodeOnceOf
  | explode => findCondition modifiers explodeOf

/-- A roll makes a step when there is a condition for it that holds of the roll. -/
def Triggers (modifiers : List Modifier) (sides : DieSides) (mechanism : Mechanism) (roll : Int) : Prop :=
  ∃ condition, mechanism.condition modifiers = some condition ∧ conditionMatches condition roll (maxFace sides) = true

end Mechanism

/-- A chain with what made each step: the roll before it. -/
structure Linked (modifiers : List Modifier) (sides : DieSides) (rolls : List Int) (steps : List ChainStep)
    (mechanisms : List Mechanism) : Prop where
  steps : steps = mechanisms.map Mechanism.step
  length : rolls.length = mechanisms.length + 1
  triggered : List.Forall₂ (Mechanism.Triggers modifiers sides) mechanisms rolls.dropLast

/-- A die whose steps were each made by the roll before, and are not too many. -/
structure Chained (modifiers : List Modifier) (die : DieOutcome) (mechanisms : List Mechanism) : Prop where
  linked : Linked modifiers die.sides die.rolls die.steps mechanisms
  rerollOnce : mechanisms.count .rerollOnce ≤ 1
  explodeOnce : mechanisms.count .explodeOnce ≤ 1
  repeated : mechanisms.count .rerollRecursive + mechanisms.count .explode ≤ maxIterationsPerDie

theorem Chained.length {modifiers : List Modifier} {die : DieOutcome} {mechanisms : List Mechanism}
    (h : Chained modifiers die mechanisms) : die.rolls.length = die.steps.length + 1 := by
  rw [h.linked.length, h.linked.steps, List.length_map]

/-- Some draws are taken, and as many dice of the budget. -/
structure Takes (ctx : EvalCtx) (draws dice : Nat) (ctx' : EvalCtx) : Prop where
  drawn : ctx'.drawn = ctx.drawn + draws
  rolled : ctx'.totalDiceRolled = ctx.totalDiceRolled + dice

theorem Takes.refl (ctx : EvalCtx) : Takes ctx 0 0 ctx := ⟨rfl, rfl⟩

theorem Takes.trans {ctx ctx' ctx'' : EvalCtx} {draws dice draws' dice' : Nat} (h : Takes ctx draws dice ctx')
    (h' : Takes ctx' draws' dice' ctx'') : Takes ctx (draws + draws') (dice + dice') ctx'' := by
  constructor
  · rw [h'.drawn, h.drawn, Nat.add_assoc]
  · rw [h'.rolled, h.rolled, Nat.add_assoc]

section chains

variable {env : Env α} {modifiers : List Modifier} {sides : DieSides} {chain chain' : Chain} {ctx ctx' : EvalCtx}
  {mechanisms : List Mechanism} {mechanism : Mechanism}

/-- One more roll is one more step, made by the last roll before. -/
theorem extendChain_linked (h : extendChain env sides mechanism.step chain ctx = .ok (chain', ctx'))
    (hlinked : Linked modifiers sides chain.rolls chain.steps mechanisms)
    (htriggers : mechanism.Triggers modifiers sides (lastRoll chain.rolls)) :
    Linked modifiers sides chain'.rolls chain'.steps (mechanisms ++ [mechanism]) ∧ Takes ctx 1 1 ctx' := by
  obtain ⟨charged, hbudget, hroll⟩ := except_bind_eq_ok.mp h
  obtain ⟨-, rfl⟩ := takeDiceBudget_ok hbudget
  cases hroll
  have hne : chain.rolls ≠ [] := by
    rw [ne_eq, ← List.length_eq_zero_iff, hlinked.length]
    exact Nat.succ_ne_zero _
  refine ⟨⟨?_, ?_, ?_⟩, rfl, rfl⟩
  · rw [List.map_append, ← hlinked.steps]
    rfl
  · rw [List.length_append, List.length_append, hlinked.length]
    rfl
  · have hlast : lastRoll chain.rolls = chain.rolls.getLast hne := by
      rw [lastRoll, List.getLast?_eq_some_getLast hne, Option.getD_some]
    show List.Forall₂ _ _ (chain.rolls ++ [_]).dropLast
    rw [List.dropLast_concat, ← List.dropLast_append_getLast hne, ← hlast]
    exact List.rel_append hlinked.triggered (.cons htriggers .nil)

theorem chainOnce_linked {condition : Option Condition} (hcondition : mechanism.condition modifiers = condition)
    (h : chainOnce env sides mechanism.step condition chain ctx = .ok (chain', ctx'))
    (hlinked : Linked modifiers sides chain.rolls chain.steps mechanisms) :
    ∃ k ≤ 1, Linked modifiers sides chain'.rolls chain'.steps (mechanisms ++ List.replicate k mechanism) ∧
      Takes ctx k k ctx' := by
  have hsame : ∀ {chain' : Chain} {ctx' : EvalCtx}, (Except.ok (chain, ctx) : Except Failure _) = .ok (chain', ctx') →
      ∃ k ≤ 1, Linked modifiers sides chain'.rolls chain'.steps (mechanisms ++ List.replicate k mechanism) ∧
        Takes ctx k k ctx' := by
    rintro _ _ ⟨⟩
    exact ⟨0, Nat.zero_le 1, by rwa [List.replicate_zero, List.append_nil], .refl _⟩
  cases condition with
  | none => exact hsame h
  | some condition =>
      unfold chainOnce at h
      dsimp only at h
      split_ifs at h with hmatch
      · exact ⟨1, le_rfl, extendChain_linked h hlinked ⟨condition, hcondition, hmatch⟩⟩
      · exact hsame h

theorem chainWhile_linked {condition : Condition} {left left' : Nat}
    (hcondition : mechanism.condition modifiers = some condition)
    (h : chainWhile env sides mechanism.step condition left chain ctx = .ok (chain', left', ctx'))
    (hlinked : Linked modifiers sides chain.rolls chain.steps mechanisms) :
    ∃ k, k + left' = left ∧
      Linked modifiers sides chain'.rolls chain'.steps (mechanisms ++ List.replicate k mechanism) ∧
        Takes ctx k k ctx' := by
  induction left generalizing chain ctx mechanisms with
  | zero =>
      unfold chainWhile at h
      split_ifs at h with hmatch
      cases h
      exact ⟨0, rfl, by rwa [List.replicate_zero, List.append_nil], .refl _⟩
  | succ left ih =>
      unfold chainWhile at h
      split_ifs at h with hmatch
      · obtain ⟨⟨longer, mid⟩, hextend, hrest⟩ := except_bind_eq_ok.mp h
        obtain ⟨hlonger, htakes⟩ := extendChain_linked hextend hlinked ⟨condition, hcondition, hmatch⟩
        obtain ⟨k, hleft, hlinked', htakes'⟩ := ih hrest hlonger
        refine ⟨k + 1, by omega, ?_, Nat.add_comm 1 k ▸ htakes.trans htakes'⟩
        rwa [List.append_assoc, List.singleton_append, ← List.replicate_succ] at hlinked'
      · cases h
        exact ⟨0, Nat.zero_add _, by rwa [List.replicate_zero, List.append_nil], .refl _⟩

theorem chainRepeated_linked {condition : Option Condition} {left left' : Nat}
    (hcondition : mechanism.condition modifiers = condition)
    (h : chainRepeated env sides mechanism.step condition left chain ctx = .ok (chain', left', ctx'))
    (hlinked : Linked modifiers sides chain.rolls chain.steps mechanisms) :
    ∃ k, k + left' = left ∧
      Linked modifiers sides chain'.rolls chain'.steps (mechanisms ++ List.replicate k mechanism) ∧
        Takes ctx k k ctx' := by
  cases condition with
  | none =>
      cases h
      exact ⟨0, Nat.zero_add _, by rwa [List.replicate_zero, List.append_nil], .refl _⟩
  | some condition => exact chainWhile_linked hcondition h hlinked

/-- A die that is rolled: its chain, and what it takes; its first roll is in the budget already. -/
theorem rollDie_chained {die : DieOutcome} (h : rollDie env modifiers sides ctx = .ok (die, ctx')) :
    (∃ mechanisms, Chained modifiers die mechanisms) ∧ Takes ctx die.rolls.length die.steps.length ctx' := by
  obtain ⟨⟨chain₁, ctx₁⟩, hreroll, h⟩ := except_bind_eq_ok.mp h
  obtain ⟨⟨chain₂, left, ctx₂⟩, hrerolls, h⟩ := except_bind_eq_ok.mp h
  obtain ⟨⟨chain₃, ctx₃⟩, hexplode, h⟩ := except_bind_eq_ok.mp h
  obtain ⟨⟨chain₄, left', ctx₄⟩, hexplodes, h⟩ := except_bind_eq_ok.mp h
  have hfirst : Linked modifiers sides [(ctx.rollFace env sides).1] [] [] := ⟨rfl, rfl, .nil⟩
  have hcondition (mechanism : Mechanism) : mechanism.condition modifiers = mechanism.condition modifiers := rfl
  obtain ⟨once, honce, hlinked, htakes₁⟩ := chainOnce_linked (hcondition .rerollOnce) hreroll hfirst
  obtain ⟨again, hagain, hlinked, htakes₂⟩ := chainRepeated_linked (hcondition .rerollRecursive) hrerolls hlinked
  obtain ⟨boom, hboom, hlinked, htakes₃⟩ := chainOnce_linked (hcondition .explodeOnce) hexplode hlinked
  obtain ⟨booms, hbooms, hlinked, htakes₄⟩ := chainRepeated_linked (hcondition .explode) hexplodes hlinked
  cases h
  have hlength : chain₄.steps.length = once + again + boom + booms := by
    rw [hlinked.steps]
    simp only [List.length_map, List.length_append, List.length_replicate, List.length_nil, Nat.zero_add]
  have hrolls : chain₄.rolls.length = chain₄.steps.length + 1 := by
    rw [hlinked.length, hlinked.steps, List.length_map]
  refine ⟨⟨_, hlinked, ?_, ?_, ?_⟩, ?_⟩
  · simpa [List.count_append, List.count_replicate] using honce
  · simpa [List.count_append, List.count_replicate] using hboom
  · simp only [List.count_append, List.count_replicate, List.count_nil, Nat.zero_add]
    show 0 + again + 0 + 0 + (0 + 0 + 0 + booms) ≤ maxIterationsPerDie
    omega
  · have hface : Takes ctx 1 0 (ctx.rollFace env sides).2 := ⟨rfl, rfl⟩
    have hall := (((hface.trans htakes₁).trans htakes₂).trans htakes₃).trans htakes₄
    rw [hrolls, hlength]
    convert hall using 1 <;> omega

/-- How often some dice were rolled. -/
def rollCount (dice : List DieOutcome) : Nat := (dice.map (·.rolls.length)).sum

@[simp] theorem rollCount_nil : rollCount [] = 0 := rfl

@[simp] theorem rollCount_cons (die : DieOutcome) (dice : List DieOutcome) :
    rollCount (die :: dice) = die.rolls.length + rollCount dice := rfl

@[simp] theorem rollCount_append (dice dice' : List DieOutcome) :
    rollCount (dice ++ dice') = rollCount dice + rollCount dice' := by
  rw [rollCount, List.map_append, List.sum_append, rollCount, rollCount]

/-- Dice that are drawn take as many draws as they have rolls; the first roll of each is in the budget already. -/
theorem takeDice_chained {count : Nat} {dice : List DieOutcome}
    (h : takeDice env modifiers sides count ctx = .ok (dice, ctx')) (hsource : ctx.source = none) :
    (∀ die ∈ dice, ∃ mechanisms, Chained modifiers die mechanisms) ∧
      ∃ extra, extra + count = rollCount dice ∧ Takes ctx (rollCount dice) extra ctx' := by
  induction count generalizing ctx dice with
  | zero =>
      cases h
      exact ⟨by simp, 0, rfl, .refl _⟩
  | succ count ih =>
      obtain ⟨die, mid, others, hdie, hothers, rfl⟩ := takeDice_succ h
      rw [takeDie_none hsource] at hdie
      obtain ⟨hchained, htakes⟩ := rollDie_chained hdie
      obtain ⟨-, hrolls⟩ := rollDie_ok hdie
      obtain ⟨hall, extra, hextra, htakes'⟩ := ih hothers (hrolls.source.trans hsource)
      refine ⟨List.forall_mem_cons.mpr ⟨hchained, hall⟩, die.steps.length + extra, ?_, htakes.trans htakes'⟩
      obtain ⟨mechanisms, hmechanisms⟩ := hchained
      rw [rollCount_cons, hmechanisms.length]
      omega

end chains

/-! A whole roll. -/

theorem SameDraws.rollCount_eq {dice dice' : List DieOutcome} (h : SameDraws dice dice') :
    rollCount dice' = rollCount dice := by
  have hlengths := congrArg (List.map fun drawn : DieSides × List Int × List ChainStep => drawn.2.1.length) h
  rw [List.map_map, List.map_map] at hlengths
  exact congrArg List.sum hlengths

theorem SameDraws.forall_chained {modifiers : List Modifier} {dice dice' : List DieOutcome} (h : SameDraws dice dice')
    (hall : ∀ die ∈ dice, ∃ mechanisms, Chained modifiers die mechanisms) :
    ∀ die ∈ dice', ∃ mechanisms, Chained modifiers die mechanisms := by
  intro die hdie
  obtain ⟨drawn, hdrawn, hsides, hrolls, hsteps⟩ := h.exists_drawn hdie
  obtain ⟨mechanisms, hlinked, honce, hboom, hrepeated⟩ := hall drawn hdrawn
  exact ⟨mechanisms, hsides ▸ hrolls ▸ hsteps ▸ hlinked, honce, hboom, hrepeated⟩

/-- The dice of the terms that were rolled, one group for each. -/
structure RolledGroups (ctx : EvalCtx) (groups : List (List DieOutcome)) (ctx' : EvalCtx) : Prop where
  dice : ctx'.dice = ctx.dice ++ groups.flatten
  takes : Takes ctx (rollCount groups.flatten) (rollCount groups.flatten) ctx'

theorem RolledGroups.refl (ctx : EvalCtx) : RolledGroups ctx [] ctx := ⟨(List.append_nil _).symm, .refl ctx⟩

theorem RolledGroups.cons {ctx ctx' ctx'' : EvalCtx} {group : List DieOutcome} {groups : List (List DieOutcome)}
    (h : RolledGroups ctx [group] ctx') (h' : RolledGroups ctx' groups ctx'') :
    RolledGroups ctx (group :: groups) ctx'' := by
  have htakes := h.takes.trans h'.takes
  rw [← rollCount_append, List.flatten_singleton] at htakes
  refine ⟨?_, htakes⟩
  rw [h'.dice, h.dice, List.flatten_singleton, List.append_assoc, List.flatten_cons]

/-- No recorded dice, and a budget that is kept. -/
structure Within (ctx : EvalCtx) : Prop where
  source : ctx.source = none
  budget : ctx.totalDiceRolled ≤ maxTotalDice

section whole

variable [Double α] {env : Env α}

/-- A term that is rolled: its dice are chained, and each roll is a draw and a die of the budget. -/
theorem rollStep_chained (ctx : EvalCtx) (roll : Roll α) (ctx' : EvalCtx) (hwithin : Within ctx)
    (h : RollStep env ctx roll ctx') :
    Within ctx' ∧ ∃ group, (∀ die ∈ group, ∃ mechanisms, Chained roll.term.modifiers die mechanisms) ∧
      RolledGroups ctx [group] ctx' := by
  obtain ⟨v, h⟩ := h
  obtain ⟨begun, rolled, dice, value, hparts⟩ := rollTerm_parts h
  obtain rfl := hparts.state
  have hbegin := hparts.begins
  rw [beginTerm_none (by exact hwithin.source)] at hbegin
  cases hbegin
  obtain ⟨hchained, extra, hextra, htakes⟩ := takeDice_chained hparts.takes hwithin.source
  obtain ⟨-, -, hrolls⟩ := takeDice_ok hparts.takes hwithin.source
  have hsame : SameDraws dice (modified roll.term.modifiers dice) := sameDraws_modified _ dice
  refine ⟨⟨hrolls.source.trans hwithin.source, hrolls.bound hparts.bound⟩, modified roll.term.modifiers dice,
    hsame.forall_chained hchained, ?_, ?_⟩
  · rw [List.flatten_singleton, ← hrolls.dice]
  · rw [List.flatten_singleton, hsame.rollCount_eq]
    refine ⟨htakes.drawn, ?_⟩
    have hrolled := htakes.rolled
    dsimp only at hrolled ⊢
    omega

/-- A formula that resolves has drawn each roll of its dice, within the budget; each term's dice are chains of rolls
whose steps were made by the roll before them. -/
theorem resolve_chained {formula : DiceFormula α} {r : RollResolution α} (h : resolve env formula = .ok r) :
    ∃ ctx, resolveWith env formula none 0 = .ok (r, ctx) ∧ rollCount r.dice = ctx.drawn ∧ ctx.drawn ≤ maxTotalDice ∧
      (∀ die ∈ r.dice, die.rolls.length = die.steps.length + 1) ∧
      ∃ groups, r.dice = groups.flatten ∧
        List.Forall₂ (fun term group => ∀ die ∈ group, ∃ mechanisms, Chained term.modifiers die mechanisms)
          formula.ast.terms groups := by
  obtain ⟨ctx, hresolve⟩ := resolve_resolveWith h
  refine ⟨ctx, hresolve, ?_⟩
  obtain ⟨v, value, heval, -, rfl⟩ := resolveWith_ok hresolve
  obtain ⟨rolls, hterms, htrail⟩ := leaves_evalExpr env formula.ast _ v ctx heval
  obtain ⟨hwithin, groups, hgroups, hdice, htakes⟩ :=
    htrail.writes RolledGroups.refl RolledGroups.cons rollStep_chained ⟨rfl, Nat.zero_le _⟩
  rw [List.nil_append] at hdice
  have hdrawn : ctx.drawn = rollCount groups.flatten := htakes.drawn.trans (Nat.zero_add _)
  have hrolled : ctx.totalDiceRolled = rollCount groups.flatten := htakes.rolled.trans (Nat.zero_add _)
  have hterm : List.Forall₂ (fun term group => ∀ die ∈ group, ∃ mechanisms, Chained term.modifiers die mechanisms)
      formula.ast.terms groups := by
    rw [← hterms, List.forall₂_map_left_iff]
    exact hgroups
  refine ⟨by rw [hdice, hdrawn], ?_, ?_, groups, hdice, hterm⟩
  · rw [hdrawn, ← hrolled]
    exact hwithin.budget
  · intro die hdie
    rw [hdice] at hdie
    obtain ⟨group, hgroup, hdie⟩ := List.mem_flatten.mp hdie
    obtain ⟨term, -, hchained⟩ := Trail.exists_label hterm hgroup
    obtain ⟨mechanisms, hmechanisms⟩ := hchained die hdie
    exact hmechanisms.length

end whole

/-- A die that shows its highest face twice, and is rolled again each time. -/
def explodedTwice : RollResolution ℚ where
  formula := "1d6x"
  dice := [{ sides := .numeric 6, rolls := [6, 6, 2], steps := [.explode, .explode], kept := true, finalValue := 2 }]
  kind := .total 2

theorem explodedTwice_chained : ∃ env : Env ℚ, ∃ formula, DiceFormula.parse "1d6x" = .ok formula ∧
    ∃ ctx, resolveWith env formula none 0 = .ok (explodedTwice, ctx) ∧ rollCount explodedTwice.dice = ctx.drawn ∧
      ctx.drawn ≤ maxTotalDice ∧ (∀ die ∈ explodedTwice.dice, die.rolls.length = die.steps.length + 1) ∧
      ∃ groups, explodedTwice.dice = groups.flatten ∧
        List.Forall₂ (fun term group => ∀ die ∈ group, ∃ mechanisms, Chained term.modifiers die mechanisms)
          formula.ast.terms groups := by
  let env : Env ℚ :=
    { overflow := .panics, bindings := fun _ => none, draws := fun index => if index < 2 then 5 else 1 }
  have hrun : ((DiceFormula.parse "1d6x").toOption >>= fun formula => (resolve env formula).toOption) =
      some explodedTwice := by
    decide +kernel
  obtain ⟨formula, hparse, hresolve⟩ := Option.bind_eq_some_iff.mp hrun
  exact ⟨env, formula, of_toOption hparse, resolve_chained (of_toOption hresolve)⟩

end ThunderForge.Dice
