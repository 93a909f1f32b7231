import ThunderForge.Dice.Asked
import ThunderForge.Dice.ReplayKeeps

/-! The two passes of a replay (`thunderforge-dice/src/replay.rs`): what the first finds recorded for each term, and
that the second keeps it on the table or is refused. -/

namespace ThunderForge.Dice

variable {α : Type}

/-! The edit. -/

/-- One more face for a die, and its step where the die's steps are known. -/
def OneMoreFace (draw : UInt32) (die edited : DieOutcome) : Prop :=
  edited.sides = die.sides ∧ edited.rolls = die.rolls ++ [faceOf draw die.sides] ∧
    edited.steps = if die.steps.length + 1 = die.rolls.length then die.steps ++ [.reroll] else die.steps

/-- The recorded dice, of which the edit's die alone has one more face. -/
structure EditMade (draw : UInt32) (edit : ReplayEdit) (dice edited : List DieOutcome) : Prop where
  length : edited.length = dice.length
  inRange : ∀ index, edit = .rerollDie index → index < dice.length
  die : ∀ index die after, dice[index]? = some die → edited[index]? = some after →
    if edit = .rerollDie index then OneMoreFace draw die after
    else after.sides = die.sides ∧ after.rolls = die.rolls ∧ after.steps = die.steps

theorem editDice_ok {draws : Nat → UInt32} {edit : ReplayEdit} {dice edited : List DieOutcome} {drawn : Nat}
    (h : editDice draws edit (dice.map fresh) 0 = .ok (edited, drawn)) : EditMade (draws 0) edit dice edited := by
  cases edit with
  | none =>
      cases h
      refine ⟨List.length_map _, by simp, fun index die after hdie hafter => ?_⟩
      rw [List.getElem?_map, hdie] at hafter
      cases hafter
      rw [if_neg (by simp)]
      exact ⟨rfl, rfl, rfl⟩
  | rerollDie rerolled =>
      unfold editDice at h
      dsimp only at h
      split_ifs at h with hlt
      cases h
      rw [List.length_map] at hlt
      refine ⟨by rw [List.length_modify, List.length_map], ?_, fun index die after hdie hafter => ?_⟩
      · rintro index ⟨rfl⟩
        exact hlt
      · by_cases hindex : rerolled = index
        · rw [hindex, List.getElem?_modify_eq, List.getElem?_map, hdie] at hafter
          cases hafter
          rw [if_pos (by rw [hindex])]
          exact ⟨rfl, rfl, rfl⟩
        · rw [List.getElem?_modify_ne _ _ hindex, List.getElem?_map, hdie] at hafter
          cases hafter
          rw [if_neg (by simpa using hindex)]
          exact ⟨rfl, rfl, rfl⟩

theorem groupsOf_lengths {sizes : List Nat} {dice : List DieOutcome} (h : sizes.sum = dice.length) :
    (groupsOf sizes dice).map List.length = sizes ∧ (groupsOf sizes dice).flatten = dice := by
  induction sizes generalizing dice with
  | nil =>
      rw [List.sum_nil] at h
      exact ⟨rfl, (List.length_eq_zero_iff.mp h.symm).symm⟩
  | cons size sizes ih =>
      rw [List.sum_cons] at h
      obtain ⟨hlengths, hflatten⟩ := @ih (dice.drop size) (by rw [List.length_drop]; omega)
      have htake : (dice.take size).length = size := by
        rw [List.length_take]
        omega
      exact ⟨by rw [groupsOf, List.map_cons, htake, hlengths],
        by rw [groupsOf, List.flatten_cons, hflatten, List.take_append_drop]⟩

/-! The passes. -/

section passes

variable [Double α]

/-- Where a pass starts. -/
def passStart (source : DrawSource) (drawn : Nat) : EvalCtx :=
  { drawn, dice := [], totalDiceRolled := 0, source := some source }

/-- The dice in one line. -/
def inLine (dice : List DieOutcome) : DrawSource := .flat { dice, sizes := [], leftInTerm := 0 }

/-- The dice of each term. -/
def byTerm (groups : List (List DieOutcome)) : DrawSource := .grouped { groups, next := 0, current := none }

/-- The recorded dice of each term of a formula: as many as it rolls, in order. -/
structure Grouping (env : Env α) (formula : DiceFormula α) (dice : List DieOutcome) (groups : List (List DieOutcome)) :
    Prop where
  flatten : groups.flatten = dice
  taken : ∃ v rolls last, evalExpr env formula.ast (passStart (inLine dice) 0) = .ok (v, last) ∧
    Trail (RollStep env) (passStart (inLine dice) 0) rolls last ∧ rolls.map Roll.term = formula.ast.terms ∧
      groups.map List.length = rolls.map Roll.count

theorem Grouping.length {env : Env α} {formula : DiceFormula α} {dice : List DieOutcome}
    {groups : List (List DieOutcome)} (h : Grouping env formula dice groups) :
    groups.length = formula.ast.terms.length := by
  obtain ⟨v, rolls, last, -, -, hterms, hlengths⟩ := h.taken
  calc groups.length = (groups.map List.length).length := (List.length_map _).symm
    _ = (rolls.map Roll.term).length := by rw [hlengths, List.length_map, List.length_map]
    _ = formula.ast.terms.length := by rw [hterms]

/-- What the first pass finds when it goes through: the recorded dice of each term. -/
theorem firstPass {env : Env α} {formula : DiceFormula α} {dice : List DieOutcome} {v : ExprValue α} {ctx : EvalCtx}
    (h : evalExpr env formula.ast (passStart (inLine dice) 0) = .ok (v, ctx)) :
    ∃ flat groups, ctx.source = some (.flat flat) ∧ ctx.drawn = 0 ∧ flat.sizes = groups.map List.length ∧
      dice = groups.flatten ++ flat.dice ∧ (flat.dice = [] → Grouping env formula dice groups) := by
  obtain ⟨rolls, hterms, htrail⟩ := leaves_evalExpr env formula.ast _ v ctx h
  obtain ⟨flat, groups, hsource, hlengths, hdice, hsizes, hdrawn⟩ := trail_flat htrail rfl
  have hall : dice = groups.flatten ++ flat.dice := hdice
  refine ⟨flat, groups, hsource, hdrawn, by rw [hsizes, hlengths]; rfl, hall, fun hleft => ?_⟩
  refine ⟨?_, v, rolls, ctx, h, htrail, hterms, hlengths⟩
  rw [hall, hleft, List.append_nil]

/-- Where the first pass ends when all that was recorded is taken. -/
theorem Grouping.last {env : Env α} {formula : DiceFormula α} {dice : List DieOutcome}
    {groups : List (List DieOutcome)} {v : ExprValue α} {ctx : EvalCtx} (h : Grouping env formula dice groups)
    (heval : evalExpr env formula.ast (passStart (inLine dice) 0) = .ok (v, ctx)) :
    ∃ flat, ctx.source = some (.flat flat) ∧ ctx.drawn = 0 ∧ flat.sizes = groups.map List.length ∧ flat.dice = [] := by
  obtain ⟨w, rolls, last, hagain, htrail, -, hlengths⟩ := h.taken
  rw [heval] at hagain
  cases hagain
  obtain ⟨flat, groups', hsource, hlengths', hdice, hsizes, hdrawn⟩ := trail_flat htrail rfl
  have hall : dice = groups'.flatten ++ flat.dice := hdice
  have hlength : groups'.flatten.length = dice.length := by
    rw [← h.flatten, List.length_flatten, List.length_flatten, hlengths, hlengths']
  refine ⟨flat, hsource, hdrawn, by rw [hsizes, hlengths]; rfl, List.length_eq_zero_iff.mp ?_⟩
  have hcount := congrArg List.length hall
  rw [List.length_append] at hcount
  omega

/-- The second pass, and the check that every group was taken. -/
def secondPass (env : Env α) (target : DiceFormula α) (groups : List (List DieOutcome)) (drawn : Nat) :
    Except Failure (RollResolution α × Nat) := do
  let (resolution, ctx) ← resolveWith env target (some (byTerm groups)) drawn
  let fewer : Bool :=
    match ctx.source with
    | some (.grouped grouped) => grouped.next ≠ grouped.groups.length
    | _ => false
  if fewer then throw (mismatch "the formula has fewer dice terms than were recorded")
  return (resolution, ctx.drawn)

/-- What the second pass starts from: the formulas, the recorded dice of each term, these dice with the edit made, and
how many draws that took. -/
structure Prepared (env : Env α) (original : Recorded α) (reshaped : Option String) (edit : ReplayEdit)
    (parsed target : DiceFormula α) (recorded groups : List (List DieOutcome)) (drawn : Nat) : Prop where
  parses : DiceFormula.parse original.formula = .ok parsed
  reshapes : DiceFormula.parse (reshaped.getD original.formula) = .ok target
  resolves : ∃ result, resolveWith env parsed (some (inLine (original.resolution.dice.map fresh))) 0 = .ok result
  grouping : Grouping env parsed (original.resolution.dice.map fresh) recorded
  lengths : groups.map List.length = recorded.map List.length
  edits : editDice env.draws edit (original.resolution.dice.map fresh) 0 = .ok (groups.flatten, drawn)

section replays

variable {overflow : Overflow} {original : Recorded α} {reshaped : Option String} {edit : ReplayEdit}
  {draws : Nat → UInt32}

/-- A replay whose first pass goes through. -/
theorem replay_firstPass {parsed : DiceFormula α} {resolution : RollResolution α} {ctx : EvalCtx} {flat : Flat}
    (hparses : DiceFormula.parse original.formula = .ok parsed)
    (hresolves : resolveWith { overflow, bindings := original.bindings, draws } parsed
      (some (inLine (original.resolution.dice.map fresh))) 0 = .ok (resolution, ctx))
    (hsource : ctx.source = some (.flat flat)) (hdrawn : ctx.drawn = 0) :
    replay overflow original reshaped edit draws =
      if flat.dice ≠ [] then .error (mismatch "more dice were recorded than the formula rolls")
      else
        editDice draws edit (original.resolution.dice.map fresh) 0 >>= fun edited =>
          ((DiceFormula.parse (reshaped.getD original.formula)).mapError Failure.error : Except Failure (DiceFormula α))
            >>= fun target =>
              secondPass { overflow, bindings := original.bindings, draws } target (groupsOf flat.sizes edited.1) edited.2 := by
  unfold inLine at hresolves
  unfold replay
  dsimp only
  rw [hparses]
  show (resolveWith { overflow, bindings := original.bindings, draws } parsed _ 0 >>= _) = _
  rw [hresolves]
  show (if _ then _ else _) = _
  dsimp only
  rw [hsource, hdrawn]
  by_cases hleft : flat.dice = []
  · rw [if_neg (not_not_intro hleft), if_neg (not_not_intro hleft)]
    cases reshaped with
    | none =>
      rw [Option.getD_none, hparses]
      rfl
    | some formula => rfl
  · rw [if_pos hleft, if_pos hleft]
    rfl

/-- A replay that succeeds has come to its second pass. -/
theorem replay_ok {r : RollResolution α} {last : Nat} (h : replay overflow original reshaped edit draws = .ok (r, last)) :
    ∃ parsed target recorded groups drawn,
      Prepared { overflow, bindings := original.bindings, draws } original reshaped edit parsed target recorded groups
        drawn ∧
      secondPass { overflow, bindings := original.bindings, draws } target groups drawn = .ok (r, last) := by
  have hwhole := h
  unfold replay at h
  obtain ⟨parsed, hparses, h⟩ := except_bind_eq_ok.mp h
  obtain ⟨⟨resolution, ctx⟩, hresolves, -⟩ := except_bind_eq_ok.mp h
  obtain ⟨v, -, heval, -, -⟩ := resolveWith_ok hresolves
  obtain ⟨flat, recorded, hsource, hdrawn, hsizes, hdice, hgrouping⟩ := firstPass heval
  have hparses := mapError_ok hparses
  rw [replay_firstPass hparses hresolves hsource hdrawn] at hwhole
  split_ifs at hwhole with hleft
  obtain ⟨⟨edited, drawn⟩, hedits, hwhole⟩ := except_bind_eq_ok.mp hwhole
  obtain ⟨target, hreshapes, hwhole⟩ := except_bind_eq_ok.mp hwhole
  have hall := hgrouping (not_not.mp hleft)
  have hsum : flat.sizes.sum = edited.length := by
    rw [(editDice_ok hedits).length, hsizes, ← List.length_flatten, hall.flatten, List.length_map]
  obtain ⟨hlengths, hflatten⟩ := groupsOf_lengths hsum
  exact ⟨parsed, target, recorded, groupsOf flat.sizes edited, drawn,
    { parses := hparses
      reshapes := mapError_ok hreshapes
      resolves := ⟨_, hresolves⟩
      grouping := hall
      lengths := hlengths.trans hsizes
      edits := by rw [hflatten]; exact hedits }, hwhole⟩

/-- A replay that is prepared for its second pass comes to it. -/
theorem Prepared.replay {parsed target : DiceFormula α} {recorded groups : List (List DieOutcome)} {drawn : Nat}
    (h : Prepared { overflow, bindings := original.bindings, draws } original reshaped edit parsed target recorded groups
      drawn) :
    Dice.replay overflow original reshaped edit draws =
      secondPass { overflow, bindings := original.bindings, draws } target groups drawn := by
  obtain ⟨⟨resolution, ctx⟩, hresolves⟩ := h.resolves
  obtain ⟨v, -, heval, -, -⟩ := resolveWith_ok hresolves
  obtain ⟨flat, hsource, hdrawn, hsizes, hleft⟩ := h.grouping.last heval
  rw [replay_firstPass h.parses hresolves hsource hdrawn, if_neg (not_not_intro hleft)]
  show (editDice draws edit (original.resolution.dice.map fresh) 0 >>= _) = _
  rw [show editDice draws edit _ 0 = _ from h.edits, h.reshapes, hsizes, ← h.lengths]
  show secondPass _ target (groupsOf (groups.map List.length) groups.flatten) drawn = _
  rw [groupsOf_flatten]

end replays

/-! The second pass. -/

section second

variable {env : Env α} {target : DiceFormula α} {groups : List (List DieOutcome)} {drawn : Nat}

/-- A second pass that succeeds has given each term its recorded dice first, and all of them to some term. -/
theorem secondPass_ok {r : RollResolution α} {last : Nat} (h : secondPass env target groups drawn = .ok (r, last)) :
    ∃ terms : List (TermReplay α), terms.map (fun replayed => replayed.roll.term) = target.ast.terms ∧
      Trail (fun n replayed => replayed.Keeps env n) drawn terms last ∧ terms.map TermReplay.recorded = groups ∧
        r.dice = (terms.map TermReplay.outcomes).flatten := by
  obtain ⟨⟨resolution, ctx⟩, hresolves, h⟩ := except_bind_eq_ok.mp h
  obtain ⟨v, value, heval, -, rfl⟩ := resolveWith_ok hresolves
  obtain ⟨rolls, hterms, htrail⟩ := leaves_evalExpr env target.ast _ v ctx heval
  obtain ⟨grouped, terms, hsource, hrolls, hkeeps, hgroups, hnext, hlength, hall⟩ := trail_grouped htrail rfl
  dsimp only at h
  rw [hsource] at h
  dsimp only at h
  split_ifs at h with hfewer
  · cases h
  · cases h
    have hdone : grouped.next = grouped.groups.length := by simpa using hfewer
    refine ⟨terms, ?_, hkeeps, ?_, hall⟩
    · rw [← hterms, ← hrolls, List.map_map]
      rfl
    · rw [hdone, List.drop_length, List.append_nil] at hgroups
      exact hgroups.symm

/-- A formula that is worked out to its end with recorded terms left is refused. -/
theorem secondPass_fewer {result : RollResolution α × EvalCtx}
    (h : resolveWith env target (some (byTerm groups)) drawn = .ok result)
    (hfewer : target.ast.terms.length < groups.length) :
    secondPass env target groups drawn = .error (mismatch "the formula has fewer dice terms than were recorded") := by
  obtain ⟨r, ctx⟩ := result
  obtain ⟨v, -, heval, -, -⟩ := resolveWith_ok h
  obtain ⟨rolls, hterms, htrail⟩ := leaves_evalExpr env target.ast _ v ctx heval
  obtain ⟨grouped, terms, hsource, hrolls, -, -, hnext, hlength, -⟩ := trail_grouped htrail rfl
  have hshort : grouped.next < grouped.groups.length := by
    calc grouped.next = terms.length := by rw [hnext]; exact Nat.zero_add _
      _ = target.ast.terms.length := by rw [← hterms, ← hrolls, List.length_map, List.length_map]
      _ < grouped.groups.length := hfewer.trans_eq hlength.symm
  unfold secondPass
  rw [h]
  show (if _ then _ else _) = _
  dsimp only
  rw [hsource]
  dsimp only
  rw [if_pos (by simpa using hshort.ne)]
  rfl

/-- A term is reached after the terms that come before it, in their order. -/
theorem Reached.before {expr : Expr α} {term : DiceTerm α} {ctx ctx' : EvalCtx} (h : Reached env expr ctx term ctx') :
    ∃ rolls, Trail (RollStep env) ctx rolls ctx' ∧ rolls.map Roll.term ++ term.terms <+: expr.terms := by
  induction h with
  | term term ctx => exact ⟨[], .nil ctx, by rw [Expr.terms, List.map_nil, List.nil_append]⟩
  | count _ ih =>
      obtain ⟨rolls, htrail, hterms⟩ := ih
      refine ⟨rolls, htrail, hterms.trans ?_⟩
      rw [Expr.terms, DiceTerm.terms]
      exact List.prefix_append _ _
  | size hcount _ _ _ ih =>
      obtain ⟨before, hbefore, htrail₀⟩ := leaves_evalExpr env _ _ _ _ hcount
      obtain ⟨rolls, htrail, hterms⟩ := ih
      refine ⟨before ++ rolls, htrail₀.append htrail, ?_⟩
      rw [Expr.terms, DiceTerm.terms, Sides.terms, ← hbefore, List.map_append, List.append_assoc,
        List.prefix_append_right_inj]
      exact hterms.trans (List.prefix_append _ _)
  | neg _ ih =>
      rw [Expr.terms]
      exact ih
  | lhs _ ih =>
      obtain ⟨rolls, htrail, hterms⟩ := ih
      refine ⟨rolls, htrail, hterms.trans ?_⟩
      rw [Expr.terms]
      exact List.prefix_append _ _
  | rhs hlhs _ ih =>
      obtain ⟨before, hbefore, htrail₀⟩ := leaves_evalExpr env _ _ _ _ hlhs
      obtain ⟨rolls, htrail, hterms⟩ := ih
      refine ⟨before ++ rolls, htrail₀.append htrail, ?_⟩
      rw [Expr.terms, ← hbefore, List.map_append, List.append_assoc, List.prefix_append_right_inj]
      exact hterms
  | mathFn _ ih =>
      rw [Expr.terms]
      exact ih
  | item hbefore _ ih =>
      obtain ⟨before, hnames, htrail₀⟩ := leaves_evalItems env _ _ _ _ hbefore
      obtain ⟨rolls, htrail, hterms⟩ := ih
      refine ⟨before ++ rolls, htrail₀.append htrail, ?_⟩
      rw [Expr.terms, itemsTerms_append, itemsTerms, ← hnames, List.map_append, List.append_assoc,
        List.prefix_append_right_inj]
      exact hterms.trans (List.prefix_append _ _)

/-- A term comes up to be rolled: others have been, and its count and its sides are worked out. -/
structure ComesUp (env : Env α) (expr : Expr α) (start : EvalCtx) (rolls : List (Roll α)) (roll : Roll α)
    (sized : EvalCtx) : Prop where
  reached : ∃ ctx counted v n, Reached env expr start roll.term ctx ∧
    evalExpr env roll.term.count ctx = .ok (v, counted) ∧ intValue v = .ok n ∧ ¬n < 0 ∧ roll.count = asU32 n ∧
      evalSides env roll.term.sides counted = .ok (roll.sides, sized)
  before : Trail (RollStep env) start rolls sized

/-- Every term that is reached comes up, in its place among the formula's. -/
theorem Reached.comesUp {expr : Expr α} {term : DiceTerm α} {start ctx counted sized : EvalCtx} {v : ExprValue α}
    {n : Int} {sides : DieSides} (h : Reached env expr start term ctx)
    (hcount : evalExpr env term.count ctx = .ok (v, counted)) (hn : intValue v = .ok n) (hnonneg : ¬n < 0)
    (hsides : evalSides env term.sides counted = .ok (sides, sized)) :
    ∃ rolls, ComesUp env expr start rolls ⟨term, asU32 n, sides⟩ sized ∧
      rolls.map Roll.term ++ [term] <+: expr.terms := by
  obtain ⟨rolls, htrail, hterms⟩ := h.before
  obtain ⟨rolls₁, hnames₁, htrail₁⟩ := leaves_evalExpr env term.count _ _ _ hcount
  obtain ⟨rolls₂, hnames₂, htrail₂⟩ := leaves_evalSides env term.sides _ _ _ hsides
  refine ⟨rolls ++ (rolls₁ ++ rolls₂), ⟨⟨ctx, counted, v, n, h, hcount, hn, hnonneg, rfl, hsides⟩,
    htrail.append (htrail₁.append htrail₂)⟩, ?_⟩
  have hterm : term.terms = rolls₁.map Roll.term ++ (rolls₂.map Roll.term ++ [term]) := by
    rw [hnames₁, hnames₂]
    cases term
    rw [DiceTerm.terms]
    rfl
  rw [hterm] at hterms
  simpa only [List.map_append, List.append_assoc] using hterms

/-- A term has no recorded dice that it could take: there is no group for it, a larger one, or one of other dice. -/
def OutOfLine (groups : List (List DieOutcome)) (index : Nat) (roll : Roll α) : Prop :=
  ∀ group, groups[index]? = some group → roll.count < group.length ∨ ∃ die ∈ group, die.sides ≠ roll.sides

/-- A term that comes up out of line, within the budget, is refused. -/
theorem secondPass_outOfLine {rolls : List (Roll α)} {roll : Roll α} {sized : EvalCtx}
    (h : ComesUp env target.ast (passStart (byTerm groups) drawn) rolls roll sized)
    (hbudget : sized.totalDiceRolled + roll.count ≤ maxTotalDice) (hout : OutOfLine groups rolls.length roll) :
    ∃ why, secondPass env target groups drawn = .error (mismatch why) := by
  obtain ⟨grouped, terms, hsource, hrolls, -, hgroups, hnext, -, -⟩ := trail_grouped h.before rfl
  have hindex : grouped.groups[grouped.next]? = groups[rolls.length]? := by
    have hplace : (terms.map TermReplay.recorded).length = rolls.length := by
      rw [← hrolls, List.length_map, List.length_map]
    have hall : groups = terms.map TermReplay.recorded ++ grouped.groups.drop grouped.next := hgroups
    rw [hall, ← hplace, List.getElem?_append_right le_rfl, Nat.sub_self, List.getElem?_drop, Nat.add_zero]
  obtain ⟨why, hbegin⟩ : ∃ why, grouped.beginTerm roll.count roll.sides = .error (mismatch why) := by
    unfold Grouped.beginTerm
    rw [hindex]
    cases hgroup : groups[rolls.length]? with
    | none => exact ⟨_, rfl⟩
    | some group =>
        dsimp only
        split_ifs with hfew hother
        · exact ⟨_, rfl⟩
        · exact ⟨_, rfl⟩
        · rcases hout group hgroup with hless | ⟨die, hdie, hsides⟩
          · exact absurd hless hfew
          · exact absurd (List.any_eq_true.mpr ⟨die, hdie, by simpa using hsides⟩) hother
  obtain ⟨ctx, counted, v, n, hreached, hcount, hn, hnonneg, hasked, hsides⟩ := h.reached
  have hroll : rollTerm env roll.term.modifiers roll.count roll.sides sized = .error (mismatch why) := by
    unfold rollTerm EvalCtx.takeDiceBudget
    rw [if_neg (not_lt.mpr hbudget)]
    show (EvalCtx.beginTerm { sized with totalDiceRolled := _ } roll.count roll.sides >>= _) = _
    unfold EvalCtx.beginTerm
    rw [hsource]
    show (((grouped.beginTerm roll.count roll.sides).map _).map _ >>= _) = _
    rw [hbegin]
    rfl
  have hterm : evalDiceTerm env roll.term ctx = .error (mismatch why) := by
    rw [hasked] at hroll
    obtain ⟨⟨count, sides, modifiers⟩, asked, dieSides⟩ := roll
    rw [evalDiceTerm_mk, Feed.andThen, show evalExpr env count ctx = _ from hcount]
    show (intValue v >>= _) = _
    rw [hn]
    show (if _ then _ else _) = _
    rw [if_neg hnonneg, Feed.andThen, show evalSides env sides counted = _ from hsides]
    exact hroll
  refine ⟨why, ?_⟩
  unfold secondPass resolveWith
  rw [show evalExpr env target.ast { drawn, dice := [], totalDiceRolled := 0, source := some (byTerm groups) } = _ from
    hreached.error hterm]
  rfl

end second

/-! A whole replay. -/

/-- The table of a replay: the recorded dice of each term, with the edit made, and after them those it has drawn. -/
structure KeepsTable (env : Env α) (original : Recorded α) (edit : ReplayEdit) (parsed target : DiceFormula α)
    (terms : List (TermReplay α)) (r : RollResolution α) : Prop where
  grouping : ∃ recorded, Grouping env parsed (original.resolution.dice.map fresh) recorded ∧
    recorded.map List.length = terms.map fun replayed => replayed.recorded.length
  edited : EditMade (env.draws 0) edit original.resolution.dice (terms.map TermReplay.recorded).flatten
  shape : target.ast.terms.length = parsed.ast.terms.length
  inOrder : terms.map (fun replayed => replayed.roll.term) = target.ast.terms
  keeps : ∃ drawn last, Trail (fun n replayed => replayed.Keeps env n) drawn terms last ∧
    (drawn = if edit = .none then 0 else 1)
  dice : r.dice = (terms.map TermReplay.outcomes).flatten

/-- A formula that does not line up with the recorded dice of each term is refused. -/
structure RefusesOthers (env : Env α) (target : DiceFormula α) (groups : List (List DieOutcome)) (drawn : Nat)
    (outcome : Except Failure (RollResolution α × Nat)) : Prop where
  /-- A term that no group was recorded for, that rolls fewer dice than its group has, or dice of other sides. -/
  outOfLine : ∀ rolls roll sized, ComesUp env target.ast (passStart (byTerm groups) drawn) rolls roll sized →
    sized.totalDiceRolled + roll.count ≤ maxTotalDice → OutOfLine groups rolls.length roll →
      ∃ why, outcome = .error (mismatch why)
  /-- A formula that has come to its end with groups left. -/
  fewer : ∀ result, resolveWith env target (some (byTerm groups)) drawn = .ok result →
    target.ast.terms.length < groups.length → ∃ why, outcome = .error (mismatch why)

theorem editDice_drawn {draws : Nat → UInt32} {edit : ReplayEdit} {dice edited : List DieOutcome} {drawn : Nat}
    (h : editDice draws edit dice 0 = .ok (edited, drawn)) : drawn = if edit = .none then 0 else 1 := by
  cases edit with
  | none =>
      cases h
      rfl
  | rerollDie index =>
      unfold editDice at h
      dsimp only at h
      split_ifs at h with hlt
      cases h
      rfl

end passes

/-- Two d6, of a term each. -/
def twoTerms : RollResolution ℚ where
  formula := "1d6+1d6"
  dice :=
    [{ sides := .numeric 6, rolls := [2], steps := [], kept := true, finalValue := 2 },
      { sides := .numeric 6, rolls := [5], steps := [], kept := true, finalValue := 5 }]
  kind := .total 7

/-- No dice. -/
def noDice : RollResolution ℚ where
  formula := "0d6"
  dice := []
  kind := .total 0

/-- How many terms a formula has. -/
def termsOf (source : String) : Option Nat :=
  (DiceFormula.parse source : Except FormulaError (DiceFormula ℚ)).toOption.map fun formula => formula.ast.terms.length

/-- The count and the size of a formula that is one plain term. -/
def diceOf (source : String) : Option (ℚ × ℚ) :=
  (DiceFormula.parse source : Except FormulaError (DiceFormula ℚ)).toOption.bind fun formula =>
    match formula.ast with
    | .dice (.mk (.number n) (.numeric (.number m)) []) => some (n, m)
    | _ => none

theorem diceOf_some {source : String} {n m : ℚ} (h : diceOf source = some (n, m)) :
    ∃ formula : DiceFormula ℚ, DiceFormula.parse source = .ok formula ∧
      formula.ast = .dice (.mk (.number n) (.numeric (.number m)) []) := by
  obtain ⟨⟨written, ast⟩, hparse, h⟩ := Option.bind_eq_some_iff.mp h
  dsimp only at h
  split at h
  · cases h
    exact ⟨_, of_toOption hparse, rfl⟩
  · cases h

end ThunderForge.Dice
