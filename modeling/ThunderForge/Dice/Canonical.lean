import ThunderForge.Dice.Eval
import ThunderForge.Dice.Rewrite

/-! The canonical order of a term's modifiers changes no result: the evaluator applies each family at its own stage. -/

namespace ThunderForge.Dice

variable {α β : Type} [Double α] {modifiers sorted : List Modifier}

/-! Each stage reads one family. -/

theorem foldl_filter (step : β → Modifier → β) (k : Nat) (hstep : ∀ b modifier, family modifier ≠ k → step b modifier = b)
    (modifiers : List Modifier) (b : β) :
    (modifiers.filter fun modifier => family modifier = k).foldl step b = modifiers.foldl step b := by
  induction modifiers generalizing b with
  | nil => rfl
  | cons modifier modifiers ih =>
      by_cases hk : family modifier = k
      · rw [List.filter_cons_of_pos (by simpa using hk), List.foldl_cons, List.foldl_cons, ih]
      · rw [List.filter_cons_of_neg (by simpa using hk), List.foldl_cons, hstep b modifier hk, ih]

theorem findSome?_filter (f : Modifier → Option β) (k : Nat) (hf : ∀ modifier, family modifier ≠ k → f modifier = none)
    (modifiers : List Modifier) :
    (modifiers.filter fun modifier => family modifier = k).findSome? f = modifiers.findSome? f := by
  induction modifiers with
  | nil => rfl
  | cons modifier modifiers ih =>
      by_cases hk : family modifier = k
      · rw [List.filter_cons_of_pos (by simpa using hk), List.findSome?_cons, List.findSome?_cons, ih]
      · rw [List.filter_cons_of_neg (by simpa using hk), List.findSome?_cons, hf modifier hk, ih]

namespace StablySorted

theorem foldl (h : StablySorted modifiers sorted) {step : β → Modifier → β} (k : Nat)
    (hstep : ∀ b modifier, family modifier ≠ k → step b modifier = b) (b : β) :
    sorted.foldl step b = modifiers.foldl step b := by
  rw [← foldl_filter step k hstep sorted, h.2 k, foldl_filter step k hstep]

theorem findSome? (h : StablySorted modifiers sorted) {f : Modifier → Option β} (k : Nat)
    (hf : ∀ modifier, family modifier ≠ k → f modifier = none) : sorted.findSome? f = modifiers.findSome? f := by
  rw [← findSome?_filter f k hf sorted, h.2 k, findSome?_filter f k hf]

theorem contains (h : StablySorted modifiers sorted) (modifier : Modifier) :
    sorted.contains modifier = modifiers.contains modifier := by
  have hmem : modifier ∈ sorted ↔ modifier ∈ modifiers := by rw [stablySorted_iff.mp h, SortBy.mem_sortBy]
  rw [Bool.eq_iff_iff, List.contains_iff_mem, List.contains_iff_mem, hmem]

omit [Double α] in
theorem rollDie (h : StablySorted modifiers sorted) (env : Env α) : rollDie env sorted = rollDie env modifiers := by
  have hreroll : findCondition sorted rerollOnceOf = findCondition modifiers rerollOnceOf :=
    h.findSome? 0 fun modifier hk => by cases modifier <;> first | rfl | exact absurd rfl hk
  have hrecursive : findCondition sorted rerollRecursiveOf = findCondition modifiers rerollRecursiveOf :=
    h.findSome? 0 fun modifier hk => by cases modifier <;> first | rfl | exact absurd rfl hk
  have honce : findCondition sorted explodeOnceOf = findCondition modifiers explodeOnceOf :=
    h.findSome? 1 fun modifier hk => by cases modifier <;> first | rfl | exact absurd rfl hk
  have hexplode : findCondition sorted explodeOf = findCondition modifiers explodeOf :=
    h.findSome? 1 fun modifier hk => by cases modifier <;> first | rfl | exact absurd rfl hk
  funext sides ctx
  unfold Dice.rollDie
  rw [hreroll, hrecursive, honce, hexplode]

omit [Double α] in
theorem takeDice (h : StablySorted modifiers sorted) (env : Env α) (sides : DieSides) (count : Nat) (ctx : EvalCtx) :
    takeDice env sorted sides count ctx = takeDice env modifiers sides count ctx := by
  have htake : takeDie env sorted = takeDie env modifiers := by
    funext sides ctx
    unfold takeDie
    rw [h.rollDie env]
  induction count generalizing ctx with
  | zero => rfl
  | succ count ih =>
      unfold Dice.takeDice
      simp only [htake, ih]

theorem applyKeepDrop (h : StablySorted modifiers sorted) (outcomes : List DieOutcome) :
    applyKeepDrop sorted outcomes = applyKeepDrop modifiers outcomes := by
  unfold Dice.applyKeepDrop
  rw [h.foldl 2]
  rintro ⟨indices, outcomes⟩ modifier hk
  cases modifier <;> first | rfl | exact absurd rfl hk

theorem applyClamp (h : StablySorted modifiers sorted) (outcomes : List DieOutcome) :
    applyClamp sorted outcomes = applyClamp modifiers outcomes := by
  unfold Dice.applyClamp
  refine h.foldl 3 (fun outcomes modifier hk => ?_) outcomes
  cases modifier <;> first | rfl | exact absurd rfl hk

theorem computeSuccessCount (h : StablySorted modifiers sorted) (overflow : Overflow) (outcomes : List DieOutcome)
    (maxFace : Int) : computeSuccessCount overflow outcomes sorted maxFace =
      computeSuccessCount overflow outcomes modifiers maxFace := by
  have hsuccesses : findCondition sorted countSuccessesOf = findCondition modifiers countSuccessesOf :=
    h.findSome? 4 fun modifier hk => by cases modifier <;> first | rfl | exact absurd rfl hk
  have hfailures : findCondition sorted countFailuresOf = findCondition modifiers countFailuresOf :=
    h.findSome? 4 fun modifier hk => by cases modifier <;> first | rfl | exact absurd rfl hk
  have hsubtract : findCondition sorted subtractFailureValueOf = findCondition modifiers subtractFailureValueOf :=
    h.findSome? 4 fun modifier hk => by cases modifier <;> first | rfl | exact absurd rfl hk
  have hmargin : sorted.findSome? marginOf = modifiers.findSome? marginOf :=
    h.findSome? 4 fun modifier hk => by cases modifier <;> first | rfl | exact absurd rfl hk
  unfold Dice.computeSuccessCount
  rw [hsuccesses, hfailures, hsubtract, hmargin, h.contains, h.contains]

/-- A term is rolled in the same way. -/
theorem rollTerm (h : StablySorted modifiers sorted) (env : Env α) : rollTerm env sorted = rollTerm env modifiers := by
  funext count sides ctx
  unfold Dice.rollTerm
  simp only [h.takeDice env, h.applyKeepDrop, h.applyClamp, h.computeSuccessCount]

end StablySorted

/-! A tree each of whose edits only sorts. -/

section edited

variable {σ : Type} {edit : Edit σ} (env : Env α)

/-- Each answer leaves the count and adds nothing. -/
def OnlySorts (changes : List TermEdit) : Prop := ∀ change ∈ changes, change.count = none ∧ change.add = []

mutual

/-- A tree whose modifiers are sorted is evaluated in the same way. -/
theorem Edited.evalExpr {call last : Call σ} {expr edited : Expr α} {changes : List TermEdit} :
    Edited edit call expr edited last changes → OnlySorts changes → evalExpr env edited = evalExpr env expr
  | .number n call, _ => rfl
  | .placeholder name call, _ => rfl
  | .kept hanswer hcount hsides, h => by
      obtain ⟨h₁, h₂⟩ := List.forall_mem_append.mp h
      funext ctx
      simp only [Dice.evalExpr, evalDiceTerm, hcount.evalExpr h₁, hsides.evalSides h₂]
  | .changed hanswer hkeeps hsorted hcount hsides, h => by
      obtain ⟨hfirst, hrest⟩ := List.forall_mem_cons.mp h
      obtain ⟨h₁, h₂⟩ := List.forall_mem_append.mp hrest
      rw [TermEdit.modifiers, hfirst.2, List.map_nil, List.append_nil] at hsorted
      funext ctx
      simp only [Dice.evalExpr, evalDiceTerm, hcount.evalExpr h₁, hsides.evalSides h₂, hsorted.rollTerm env]
  | .recounted hanswer hcount hsorted hsides, h => by
      obtain ⟨hfirst, -⟩ := List.forall_mem_cons.mp h
      exact nomatch hcount.symm.trans hfirst.1
  | .pool modifiers hitems, h => by
      funext ctx
      simp only [Dice.evalExpr, hitems.evalItems h]
  | .neg hinner, h => by
      funext ctx
      simp only [Dice.evalExpr, hinner.evalExpr h]
  | .mathFn kind hinner, h => by
      funext ctx
      simp only [Dice.evalExpr, hinner.evalExpr h]
  | .binOp op hlhs hrhs, h => by
      obtain ⟨h₁, h₂⟩ := List.forall_mem_append.mp h
      funext ctx
      simp only [Dice.evalExpr, hlhs.evalExpr h₁, hrhs.evalExpr h₂]

theorem EditedSides.evalSides {call last : Call σ} {sides edited : Sides α} {changes : List TermEdit} :
    EditedSides edit call sides edited last changes → OnlySorts changes → evalSides env edited = evalSides env sides
  | .fate call, _ => rfl
  | .coin call, _ => rfl
  | .numeric hsides, h => by
      funext ctx
      simp only [Dice.evalSides, hsides.evalExpr h]

theorem EditedItems.evalItems {call last : Call σ} {items edited : List (Expr α)} {changes : List TermEdit} :
    EditedItems edit call items edited last changes → OnlySorts changes → evalItems env edited = evalItems env items
  | .nil call, _ => rfl
  | .cons hitem hitems, h => by
      obtain ⟨h₁, h₂⟩ := List.forall_mem_append.mp h
      funext ctx
      simp only [Dice.evalItems, hitem.evalExpr h₁, hitems.evalItems h₂]

end

section answers

variable {R : TermEdit → Prop}

mutual

/-- What is true of every answer is true of those that were given. -/
theorem Edited.answered {call last : Call σ} {expr edited : Expr α} {changes : List TermEdit}
    (hanswers : ∀ (state : σ) (view : TermView) change, (edit state view).1 = some change → R change) :
    Edited edit call expr edited last changes → ∀ change ∈ changes, R change
  | .number n call => fun _ h => nomatch h
  | .placeholder name call => fun _ h => nomatch h
  | .kept hanswer hcount hsides =>
      List.forall_mem_append.mpr ⟨hcount.answered hanswers, hsides.answered hanswers⟩
  | .changed hanswer hkeeps hsorted hcount hsides =>
      List.forall_mem_cons.mpr ⟨hanswers _ _ _ (congrArg Prod.fst hanswer),
        List.forall_mem_append.mpr ⟨hcount.answered hanswers, hsides.answered hanswers⟩⟩
  | .recounted hanswer hcount hsorted hsides =>
      List.forall_mem_cons.mpr ⟨hanswers _ _ _ (congrArg Prod.fst hanswer), hsides.answered hanswers⟩
  | .pool modifiers hitems => hitems.answered hanswers
  | .neg hinner => hinner.answered hanswers
  | .mathFn kind hinner => hinner.answered hanswers
  | .binOp op hlhs hrhs => List.forall_mem_append.mpr ⟨hlhs.answered hanswers, hrhs.answered hanswers⟩

theorem EditedSides.answered {call last : Call σ} {sides edited : Sides α} {changes : List TermEdit}
    (hanswers : ∀ (state : σ) (view : TermView) change, (edit state view).1 = some change → R change) :
    EditedSides edit call sides edited last changes → ∀ change ∈ changes, R change
  | .fate call => fun _ h => nomatch h
  | .coin call => fun _ h => nomatch h
  | .numeric hsides => hsides.answered hanswers

theorem EditedItems.answered {call last : Call σ} {items edited : List (Expr α)} {changes : List TermEdit}
    (hanswers : ∀ (state : σ) (view : TermView) change, (edit state view).1 = some change → R change) :
    EditedItems edit call items edited last changes → ∀ change ∈ changes, R change
  | .nil call => fun _ h => nomatch h
  | .cons hitem hitems => List.forall_mem_append.mpr ⟨hitem.answered hanswers, hitems.answered hanswers⟩

end

end answers

end edited

/-! Whole rolls. -/

/-- `TermEdit::default()` for the terms of a subset, by their indices. -/
def defaultsOn (subset : Nat → Bool) : Edit Unit := fun _ view =>
  (if subset view.index then some {} else none, ())

theorem defaultsOn_onlySorts {subset : Nat → Bool} {call last : Call Unit} {expr edited : Expr α}
    {changes : List TermEdit} (h : Edited (defaultsOn subset) call expr edited last changes) : OnlySorts changes := by
  refine h.answered fun state view change hanswer => ?_
  rw [defaultsOn] at hanswer
  split at hanswer
  · cases hanswer
    exact ⟨rfl, rfl⟩
  · exact nomatch hanswer

/-- What a roll shows, its dice and its result, with the number of draws it took; or how it failed. -/
def rolled (env : Env α) (formula : DiceFormula α) : Except Failure (List DieOutcome × ResolutionKind α × Nat) := do
  let (resolution, ctx) ← resolveWith env formula none 0
  return (resolution.dice, resolution.kind, ctx.drawn)

theorem rolled_congr {env : Env α} {formula formula' : DiceFormula α}
    (h : evalExpr env formula'.ast = evalExpr env formula.ast) : rolled env formula' = rolled env formula := by
  unfold rolled resolveWith
  rw [h]
  cases evalExpr env formula.ast { drawn := 0, dice := [], totalDiceRolled := 0, source := none } with
  | error failure => rfl
  | ok result =>
      simp only [bind, Except.bind]
      cases requireFinite result.1.value with
      | error failure => rfl
      | ok value => rfl

end ThunderForge.Dice
