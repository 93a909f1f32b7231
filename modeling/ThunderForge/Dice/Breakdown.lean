import ThunderForge.Dice.Asked

/-! A resolved roll as arithmetic that can be followed (`thunderforge-dice/src/breakdown.rs`): the formula is read a
second time and its dice terms are paired with the dice of the resolution, in the order they were rolled. -/

namespace ThunderForge.Dice

variable {α : Type} [Double α]

inductive AddendKind (α : Type) where
  /-- A kept die, by its index in the resolution. -/
  | die (index : Nat) (value : Int)
  /-- A literal, or the value of a placeholder, without its sign. -/
  | constant (value : α) (placeholder : Option String)
  deriving DecidableEq

/-- One term of a sum, with its sign as it reaches the total. -/
structure Addend (α : Type) where
  negative : Bool
  kind : AddendKind α
  deriving DecidableEq

inductive Breakdown (α : Type) where
  | sum (addends : List (Addend α))
  /-- For each die, whether it succeeded. -/
  | successes (marks : List Bool)
  deriving DecidableEq

/-- `cursor` is the next die of the resolution that a term will claim. -/
structure Walk (α : Type) where
  cursor : Nat
  addends : List (Addend α)

def countsSuccesses : Modifier → Bool
  | .countSuccesses _ | .countFailures _ | .subtractFailureValue _ | .even | .odd | .marginOfSuccess _ => true
  | _ => false

section walk

variable (resolution : RollResolution α) (bindings : PlaceholderBindings α)

/-- A count or a size: a number or a placeholder. -/
def whole : Expr α → Option Int
  | .number n => if Double.isFinite n then some (Double.toI64 (Double.round n)) else none
  | .placeholder name => do
    let value ← bindings name
    if Double.isFinite value then some (Double.toI64 (Double.round value)) else none
  | _ => none

def claimedSides : Sides α → Option DieSides
  | .fate => some .fate
  | .coin => some .coin
  | .numeric expr => do
    let n ← whole bindings expr
    if 0 ≤ n ∧ n < 4294967296 then some (.numeric n.toNat) else none

/-- The dice of a term, with the index of the first. -/
def claim (term : DiceTerm α) (walk : Walk α) : Option (List DieOutcome × Nat × Walk α) := do
  let count ← whole bindings term.count
  let sides ← claimedSides bindings term.sides
  if count < 0 then none
  else
    let last := walk.cursor + count.toNat
    if resolution.dice.length < last then none
    else
      let dice := (resolution.dice.drop walk.cursor).take count.toNat
      if dice.any (·.sides ≠ sides) then none else some (dice, walk.cursor, { walk with cursor := last })

/-- The addends of kept dice, from an index on. -/
def keptAddends (negative : Bool) (start : Nat) (dice : List DieOutcome) : List (Addend α) :=
  ((dice.zipIdx start).filter (·.1.kept)).map fun die => { negative, kind := .die die.2 die.1.finalValue }

def constant (value : α) (placeholder : Option String) (negative : Bool) (walk : Walk α) : Option (Walk α) :=
  if Double.isFinite value then
    some { walk with addends := walk.addends ++
      [{ negative := negative != Double.isNegative value, kind := .constant (Double.abs value) placeholder }] }
  else none

def Walk.sum : Expr α → Bool → Walk α → Option (Walk α)
  | .number n, negative, walk => constant n none negative walk
  | .placeholder name, negative, walk => do
    let value ← bindings name
    constant value (some name) negative walk
  | .neg inner, negative, walk => sum inner (!negative) walk
  | .binOp lhs op rhs, negative, walk =>
    match op with
    | .add => do
      let walk ← sum lhs negative walk
      sum rhs negative walk
    | .sub => do
      let walk ← sum lhs negative walk
      sum rhs (!negative) walk
    | .mul | .div => none
  | .dice term, negative, walk =>
    if term.modifiers.any countsSuccesses then none
    else do
      let (dice, start, walk) ← claim resolution bindings term walk
      some { walk with addends := walk.addends ++ keptAddends negative start dice }
  | .mathFn _ _, _, _ => none
  | .pool _ _, _, _ => none

/-- The last condition of its kind counts; other ways to count have no mark for each die. -/
def markConditions : List Modifier → Option Condition × Option Condition → Option (Option Condition × Option Condition)
  | [], conditions => some conditions
  | .countSuccesses condition :: modifiers, (_, failure) => markConditions modifiers (some condition, failure)
  | .countFailures condition :: modifiers, (success, _) => markConditions modifiers (success, some condition)
  | modifier :: modifiers, conditions => if countsSuccesses modifier then none else markConditions modifiers conditions

/-- Whether each die of a term that counts successes and failures counted for the roll. -/
def Walk.successes (term : DiceTerm α) (walk : Walk α) : Option (List Bool × Walk α) := do
  let (success, failure) ← markConditions term.modifiers (none, none)
  if success.isNone && failure.isNone then none
  else
    let (dice, _, walk) ← claim resolution bindings term walk
    let hit := fun (condition : Option Condition) (die : DieOutcome) =>
      condition.any fun condition => conditionMatches condition die.finalValue (maxFace die.sides)
    return (dice.map fun die => die.kept && (success.isSome && hit success die || success.isNone && !hit failure die),
      walk)

end walk

/-- A resolution explained by its formula, where that is a plain sum or a single count of successes. -/
def breakdown (formula : String) (resolution : RollResolution α) (bindings : PlaceholderBindings α) :
    Option (Breakdown α) := do
  let parsed ← (DiceFormula.parse (α := α) formula).toOption
  match resolution.kind with
  | .successCount _ =>
    match parsed.ast with
    | .dice term => do
      let (marks, walk) ← Walk.successes resolution bindings term { cursor := 0, addends := [] }
      if walk.cursor = resolution.dice.length then some (.successes marks) else none
    | _ => none
  | .total _ => do
    let walk ← Walk.sum resolution bindings parsed.ast false { cursor := 0, addends := [] }
    if walk.cursor = resolution.dice.length then some (.sum walk.addends) else none

/-! What the addends come to. -/

def signed (negative : Bool) (value : ℚ) : ℚ := if negative then -value else value

def Addend.value (addend : Addend α) : ℚ :=
  signed addend.negative
    (match addend.kind with
      | .die _ value => value
      | .constant value _ => Double.value value)

def signedSum (addends : List (Addend α)) : ℚ := (addends.map Addend.value).sum

/-- The die of an addend, with the value it shows. -/
def Addend.die (addend : Addend α) : Option (Nat × Int) :=
  match addend.kind with
  | .die index value => some (index, value)
  | .constant _ _ => none

/-- The kept dice, from an index on. -/
def keptDice (start : Nat) (dice : List DieOutcome) : List (Nat × Int) :=
  ((dice.zipIdx start).filter (·.1.kept)).map fun die => (die.2, die.1.finalValue)

section signs

@[simp] theorem signed_not (negative : Bool) (value : ℚ) : signed (!negative) value = signed negative (-value) := by
  cases negative <;> simp [signed]

theorem signed_add (negative : Bool) (a b : ℚ) : signed negative (a + b) = signed negative a + signed negative b := by
  cases negative
  · rfl
  · exact neg_add a b

theorem signedSum_append (addends addends' : List (Addend α)) :
    signedSum (addends ++ addends') = signedSum addends + signedSum addends' := by
  unfold signedSum
  rw [List.map_append, List.sum_append]

theorem keptDice_append (start : Nat) (dice dice' : List DieOutcome) :
    keptDice start (dice ++ dice') = keptDice start dice ++ keptDice (start + dice.length) dice' := by
  unfold keptDice
  rw [List.zipIdx_append, List.filter_append, List.map_append]

omit [Double α] in
theorem die_keptAddends (negative : Bool) (start : Nat) (dice : List DieOutcome) :
    (keptAddends (α := α) negative start dice).filterMap Addend.die = keptDice start dice := by
  unfold keptAddends keptDice
  rw [List.filterMap_map, ← List.filterMap_eq_map]
  rfl

theorem signedSum_keptAddends (negative : Bool) (start : Nat) (dice : List DieOutcome) :
    signedSum (keptAddends (α := α) negative start dice) = signed negative ((keptValues dice).sum : Int) := by
  induction dice generalizing start with
  | nil => cases negative <;> simp [signedSum, keptAddends, signed, keptValues]
  | cons die dice ih =>
      have ih := ih (start + 1)
      unfold signedSum keptAddends keptValues at ih ⊢
      rw [List.zipIdx_cons]
      cases hkept : die.kept with
      | false => simpa [hkept] using ih
      | true =>
          simp only [List.filter_cons, hkept, if_true, List.map_cons, List.sum_cons, Int.cast_add, signed_add]
          rw [ih]
          rfl

end signs

/-! Terms that count no successes. -/

theorem i64_ok {overflow : Overflow} {n k : Int} (hwraps : overflow ≠ .wraps) (h : overflow.i64 n = .ok k) : k = n := by
  cases overflow with
  | panics =>
      unfold Overflow.i64 at h
      dsimp only at h
      split_ifs at h
      exact (Except.ok.inj h).symm
  | wraps => exact absurd rfl hwraps
  | exact => exact (Except.ok.inj h).symm

theorem foldlM_sum_ok {overflow : Overflow} {values : List Int} {total n : Int} (hwraps : overflow ≠ .wraps)
    (h : values.foldlM (fun sum value => overflow.i64 (sum + value)) total = .ok n) : n = total + values.sum := by
  induction values generalizing total with
  | nil =>
      rw [List.sum_nil, Int.add_zero]
      exact (Except.ok.inj h).symm
  | cons value values ih =>
      obtain ⟨next, hnext, h⟩ := except_bind_eq_ok.mp h
      rw [ih h, i64_ok hwraps hnext, List.sum_cons, Int.add_assoc]

theorem sum_ok {overflow : Overflow} {values : List Int} {n : Int} (hwraps : overflow ≠ .wraps)
    (h : overflow.sum values = .ok n) : n = values.sum := by
  rw [foldlM_sum_ok hwraps h, Int.zero_add]

theorem findCondition_none {modifiers : List Modifier} {f : Modifier → Option Condition}
    (h : modifiers.any countsSuccesses = false) (hf : ∀ modifier, countsSuccesses modifier = false → f modifier = none) :
    findCondition modifiers f = none :=
  List.findSome?_eq_none_iff.mpr fun modifier hmem => hf modifier (by simpa using List.any_eq_false.mp h modifier hmem)

theorem computeSuccessCount_none {overflow : Overflow} {modifiers : List Modifier} {outcomes : List DieOutcome}
    {greatest : Int} (h : modifiers.any countsSuccesses = false) :
    computeSuccessCount overflow outcomes modifiers greatest = .ok none := by
  have hno {modifier : Modifier} (hcounts : countsSuccesses modifier = true) : modifiers.contains modifier = false := by
    cases hmem : modifiers.contains modifier with
    | false => rfl
    | true => exact absurd hcounts (List.any_eq_false.mp h modifier (List.contains_iff_mem.mp hmem))
  have hmargin : modifiers.findSome? marginOf = none := by
    refine List.findSome?_eq_none_iff.mpr fun modifier hmem => ?_
    have hcounts := List.any_eq_false.mp h modifier hmem
    cases modifier <;> first | rfl | exact absurd rfl hcounts
  have hsuccesses := @findCondition_none _ countSuccessesOf h (by rintro ⟨⟩ h <;> first | rfl | cases h)
  have hfailures := @findCondition_none _ countFailuresOf h (by rintro ⟨⟩ h <;> first | rfl | cases h)
  have hsubtract := @findCondition_none _ subtractFailureValueOf h (by rintro ⟨⟩ h <;> first | rfl | cases h)
  unfold computeSuccessCount
  simp only [hmargin, hsuccesses, hfailures, hsubtract, @hno .even rfl, @hno .odd rfl]
  rfl

/-! The two walks over an expression. -/

section walks

variable {env : Env α} {resolution : RollResolution α} {walk walk' : Walk α} {negative : Bool} {ctx ctx' : EvalCtx}

/-- What the walk has added for an expression that was evaluated: its dice, and what it came to. -/
structure Explained (negative : Bool) (walk walk' : Walk α) (ctx ctx' : EvalCtx) (v : α) (dice : List DieOutcome)
    (addends : List (Addend α)) (value : ℚ) : Prop where
  rolled : ctx'.dice = ctx.dice ++ dice
  cursor : walk'.cursor = walk.cursor + dice.length
  added : walk'.addends = walk.addends ++ addends
  comesTo : Double.magnitude v = .finite value
  sum : signedSum addends = signed negative value
  kept : addends.filterMap Addend.die = keptDice walk.cursor dice

/-- A walk over one operand and then over the other. -/
theorem Explained.trans {negative' : Bool} {between : Walk α} {mid : EvalCtx} {l r v : α} {dice dice' : List DieOutcome}
    {addends addends' : List (Addend α)} {a b c : ℚ} (h : Explained negative walk between ctx mid l dice addends a)
    (h' : Explained negative' between walk' mid ctx' r dice' addends' b) (hv : Double.magnitude v = .finite c)
    (hsum : signed negative c = signed negative a + signed negative' b) :
    Explained negative walk walk' ctx ctx' v (dice ++ dice') (addends ++ addends') c where
  rolled := by rw [h'.rolled, h.rolled, List.append_assoc]
  cursor := by rw [h'.cursor, h.cursor, List.length_append, Nat.add_assoc]
  added := by rw [h'.added, h.added, List.append_assoc]
  comesTo := hv
  sum := by rw [signedSum_append, h.sum, h'.sum, hsum]
  kept := by rw [List.filterMap_append, h.kept, h'.kept, h.cursor, keptDice_append]

/-- A constant is evaluated without dice. -/
theorem constant_explained (hexact : Double.Exact α) {value : α} {placeholder : Option String}
    (h : constant value placeholder negative walk = some walk') :
    ∃ addends a, Explained negative walk walk' ctx ctx value [] addends a := by
  unfold constant at h
  split_ifs at h with hfinite
  cases h
  obtain ⟨a, ha⟩ : ∃ a, Double.magnitude value = .finite a := by
    unfold Double.isFinite at hfinite
    split at hfinite
    · next a ha => exact ⟨a, ha⟩
    · cases hfinite
    · cases hfinite
  refine ⟨_, a, by simp, rfl, rfl, ha, ?_, rfl⟩
  have habs : Double.value (Double.abs value) = |a| := by
    unfold Double.value
    rw [hexact.abs ha]
  have hnegative : Double.isNegative value = decide (a < 0) := by
    unfold Double.isNegative
    rw [ha]
  simp only [signedSum, List.map_cons, List.map_nil, List.sum_cons, List.sum_nil, add_zero, Addend.value, habs,
    hnegative]
  by_cases hneg : a < 0
  · rw [abs_of_neg hneg]
    cases negative <;> simp [signed, hneg]
  · rw [abs_of_nonneg (not_lt.mp hneg)]
    cases negative <;> simp [signed, hneg]

/-- A count or a size that the walk can read is evaluated without dice. -/
theorem whole_eval {expr : Expr α} {n : Int} {v : ExprValue α} (h : whole env.bindings expr = some n)
    (heval : evalExpr env expr ctx = .ok (v, ctx')) : ctx' = ctx ∧ intValue v = .ok n := by
  cases expr with
  | number value =>
      rw [evalExpr] at heval
      cases heval
      unfold whole at h
      dsimp only at h
      split_ifs at h with hfinite
      cases h
      exact ⟨rfl, if_pos hfinite⟩
  | placeholder name =>
      rw [evalExpr_placeholder] at heval
      unfold whole at h
      dsimp only at h
      cases hbound : env.bindings name with
      | none =>
          rw [hbound] at h
          cases h
      | some value =>
          rw [hbound] at h heval
          cases heval
          dsimp only [bind, Option.bind] at h
          split_ifs at h with hfinite
          cases h
          exact ⟨rfl, if_pos hfinite⟩
  | _ => cases h

theorem claimedSides_eval {sides : Sides α} {claimed dieSides : DieSides}
    (h : claimedSides env.bindings sides = some claimed) (heval : evalSides env sides ctx = .ok (dieSides, ctx')) :
    ctx' = ctx := by
  cases sides with
  | fate =>
      cases heval
      rfl
  | coin =>
      cases heval
      rfl
  | numeric size =>
      obtain ⟨n, hn, -⟩ := Option.bind_eq_some_iff.mp h
      obtain ⟨w, m, hsize, -, -, -⟩ := evalSides_ok heval
      exact (whole_eval hn hsize).1

theorem claim_ok {term : DiceTerm α} {dice : List DieOutcome} {start : Nat}
    (h : claim resolution env.bindings term walk = some (dice, start, walk')) :
    ∃ n sides, whole env.bindings term.count = some n ∧ claimedSides env.bindings term.sides = some sides ∧ 0 ≤ n ∧
      walk.cursor + n.toNat ≤ resolution.dice.length ∧ dice = (resolution.dice.drop walk.cursor).take n.toNat ∧
        start = walk.cursor ∧ walk' = { walk with cursor := walk.cursor + n.toNat } := by
  obtain ⟨n, hcount, h⟩ := Option.bind_eq_some_iff.mp h
  obtain ⟨sides, hsides, h⟩ := Option.bind_eq_some_iff.mp h
  dsimp only at h
  split_ifs at h with hneg hlength hother
  cases h
  exact ⟨n, sides, hcount, hsides, not_lt.mp hneg, not_lt.mp hlength, rfl, rfl, rfl⟩

/-- The dice a term claims are those it rolled. -/
theorem dice_explained (hexact : Double.Exact α) (hwraps : env.overflow ≠ .wraps) {count : Expr α} {sides : Sides α}
    {modifiers : List Modifier} {claimed : List DieOutcome} {start : Nat} {v : ExprValue α}
    (hplain : modifiers.any countsSuccesses = false)
    (hclaim : claim resolution env.bindings (.mk count sides modifiers) walk = some (claimed, start, walk'))
    (heval : evalDiceTerm env (.mk count sides modifiers) ctx = .ok (v, ctx')) (hdraws : Draws ctx)
    (hcursor : walk.cursor = ctx.dice.length) (hamong : ctx'.dice <+: resolution.dice)
    (hfew : resolution.dice.length ≤ maxTotalDice) :
    ∃ addends a, Explained negative walk
      { walk' with addends := walk'.addends ++ keptAddends negative start claimed } ctx ctx' v.value claimed addends a := by
  obtain ⟨n, dieSides, hwhole, hsides, hnonneg, hlast, hclaimed, rfl, rfl⟩ := claim_ok hclaim
  obtain ⟨w, n', counted, dieSides', sized, hcounted, hint, -, hsized, hroll⟩ := evalDiceTerm_ok heval
  obtain ⟨rfl, hint'⟩ := whole_eval hwhole hcounted
  rw [hint] at hint'
  cases hint'
  obtain rfl := claimedSides_eval hsides hsized
  obtain ⟨drawn, value, hrolled⟩ := rollTerm_ok hroll hdraws.source
  have hsame : SameDraws drawn (modified modifiers drawn) := sameDraws_modified modifiers drawn
  have hlength : (modified modifiers drawn).length = n.toNat := by
    have hmax : maxTotalDice = 1000 := rfl
    rw [hsame.length, hrolled.length]
    unfold asU32
    omega
  have hown : claimed = modified modifiers drawn := by
    obtain ⟨rest, hrest⟩ := hamong
    rw [hclaimed, ← hrest, hrolled.dice, hcursor, List.append_assoc, List.drop_left, ← hlength, List.take_left]
  have hnone : v.successCount = none := by
    have hcount := hrolled.successes
    rw [computeSuccessCount_none hplain] at hcount
    exact (Except.ok.inj hcount).symm
  have hvalue : value = (keptValues claimed).sum := by
    have hcounted := hrolled.counted
    rw [hnone, ← hown] at hcounted
    exact sum_ok hwraps hcounted
  refine ⟨keptAddends negative walk.cursor claimed, value, ?_, ?_, rfl, ?_, ?_, die_keptAddends _ _ _⟩
  · rw [hown]
    exact hrolled.dice
  · rw [hown, hlength]
  · rw [hrolled.shown]
    exact hexact.ofInt value
  · rw [hvalue]
    exact signedSum_keptAddends _ _ _

/-- A walk that is not refused explains what was evaluated. -/
theorem sum_explained (hexact : Double.Exact α) (hwraps : env.overflow ≠ .wraps)
    (hfew : resolution.dice.length ≤ maxTotalDice) : ∀ (expr : Expr α) {negative : Bool} {walk walk' : Walk α}
    {ctx ctx' : EvalCtx} {v : ExprValue α}, Walk.sum resolution env.bindings expr negative walk = some walk' →
      evalExpr env expr ctx = .ok (v, ctx') → Draws ctx → walk.cursor = ctx.dice.length →
        ctx'.dice <+: resolution.dice →
          ∃ dice addends a, Explained negative walk walk' ctx ctx' v.value dice addends a
  | .number n, negative, walk, walk', ctx, ctx', v, hsum, heval, hdraws, hcursor, hamong => by
      rw [evalExpr] at heval
      cases heval
      exact ⟨[], constant_explained hexact hsum⟩
  | .placeholder name, negative, walk, walk', ctx, ctx', v, hsum, heval, hdraws, hcursor, hamong => by
      rw [evalExpr_placeholder] at heval
      obtain ⟨value, hbound, hsum⟩ := Option.bind_eq_some_iff.mp hsum
      rw [hbound] at heval
      cases heval
      exact ⟨[], constant_explained hexact hsum⟩
  | .neg inner, negative, walk, walk', ctx, ctx', v, hsum, heval, hdraws, hcursor, hamong => by
      rw [evalExpr_neg] at heval
      obtain ⟨w, last, hinner, hdone⟩ := Feed.andThen_ok heval
      cases hdone
      obtain ⟨dice, addends, a, h⟩ := sum_explained hexact hwraps hfew inner hsum hinner hdraws hcursor hamong
      have hsum := h.sum
      rw [signed_not] at hsum
      exact ⟨dice, addends, -a, h.rolled, h.cursor, h.added, hexact.neg h.comesTo, hsum, h.kept⟩
  | .binOp lhs op rhs, negative, walk, walk', ctx, ctx', v, hsum, heval, hdraws, hcursor, hamong => by
      obtain ⟨l, r, mid, hlhs, hrhs, hop⟩ := evalExpr_binOp_ok heval
      obtain ⟨hdraws', -⟩ := evalExpr_adds hdraws hlhs
      have hfirst := (evalExpr_adds hdraws' hrhs).2.trans hamong
      cases op with
      | add =>
          obtain ⟨between, hwalk, hwalk'⟩ := Option.bind_eq_some_iff.mp hsum
          obtain ⟨dice, addends, a, h⟩ := sum_explained hexact hwraps hfew lhs hwalk hlhs hdraws hcursor hfirst
          have hbetween : between.cursor = mid.dice.length := by rw [h.cursor, h.rolled, List.length_append, hcursor]
          obtain ⟨dice', addends', b, h'⟩ :=
            sum_explained hexact hwraps hfew rhs hwalk' hrhs hdraws' hbetween hamong
          have hv := hexact.add h.comesTo h'.comesTo
          rw [Except.ok.inj hop] at hv
          exact ⟨_, _, a + b, h.trans h' hv (signed_add _ _ _)⟩
      | sub =>
          obtain ⟨between, hwalk, hwalk'⟩ := Option.bind_eq_some_iff.mp hsum
          obtain ⟨dice, addends, a, h⟩ := sum_explained hexact hwraps hfew lhs hwalk hlhs hdraws hcursor hfirst
          have hbetween : between.cursor = mid.dice.length := by rw [h.cursor, h.rolled, List.length_append, hcursor]
          obtain ⟨dice', addends', b, h'⟩ :=
            sum_explained hexact hwraps hfew rhs hwalk' hrhs hdraws' hbetween hamong
          have hv := hexact.sub h.comesTo h'.comesTo
          rw [Except.ok.inj hop] at hv
          exact ⟨_, _, a - b, h.trans h' hv (by rw [signed_not, sub_eq_add_neg, signed_add])⟩
      | mul => cases hsum
      | div => cases hsum
  | .dice (.mk count sides modifiers), negative, walk, walk', ctx, ctx', v, hsum, heval, hdraws, hcursor, hamong => by
      rw [evalExpr_dice] at heval
      unfold Walk.sum at hsum
      split_ifs at hsum with hcounts
      obtain ⟨⟨claimed, start, mid⟩, hclaim, hdone⟩ := Option.bind_eq_some_iff.mp hsum
      cases hdone
      exact ⟨claimed, dice_explained hexact hwraps (Bool.eq_false_iff.mpr hcounts) hclaim heval hdraws hcursor hamong hfew⟩

end walks

/-! A whole breakdown. -/

theorem mem_keptDice {dice : List DieOutcome} {index : Nat} {value : Int} :
    (index, value) ∈ keptDice 0 dice ↔ ∃ die, dice[index]? = some die ∧ die.kept = true ∧ value = die.finalValue := by
  simp only [keptDice, List.mem_map, List.mem_filter, Prod.exists, Prod.mk.injEq]
  constructor
  · rintro ⟨die, place, ⟨hmem, hkept⟩, rfl, rfl⟩
    exact ⟨die, List.mem_zipIdx_iff_getElem?.mp hmem, hkept, rfl⟩
  · rintro ⟨die, hdie, hkept, rfl⟩
    exact ⟨die, index, ⟨List.mem_zipIdx_iff_getElem?.mpr hdie, hkept⟩, rfl, rfl⟩

theorem nodup_keptDice (dice : List DieOutcome) : (keptDice 0 dice).Nodup := by
  have hsublist : ((keptDice 0 dice).map Prod.fst).Sublist (List.range' 0 dice.length) := by
    have hfilter := (List.filter_sublist (p := fun die => die.1.kept) (l := dice.zipIdx 0)).map Prod.snd
    rw [List.zipIdx_map_snd] at hfilter
    simpa [keptDice, Function.comp_def] using hfilter
  exact List.Nodup.of_map _ (hsublist.nodup List.nodup_range')

/-- A value that a list of values without repeats holds comes from one place. -/
theorem filterMap_place {β γ : Type} {f : β → Option γ} {xs : List β} (hnodup : (xs.filterMap f).Nodup) {c : γ}
    {place place' : Nat} {b b' : β} (h : xs[place]? = some b) (hb : f b = some c) (h' : xs[place']? = some b')
    (hb' : f b' = some c) : place = place' := by
  have hpairs := List.pairwise_filterMap.mp hnodup
  rw [List.pairwise_iff_getElem] at hpairs
  obtain ⟨hlt, rfl⟩ := List.getElem?_eq_some_iff.mp h
  obtain ⟨hlt', rfl⟩ := List.getElem?_eq_some_iff.mp h'
  rcases Nat.lt_trichotomy place place' with hless | heq | hmore
  · exact absurd rfl (hpairs place place' hlt hlt' hless c hb c hb')
  · exact heq
  · exact absurd rfl (hpairs place' place hlt' hlt hmore c hb' c hb)

/-- A sum that adds up to the roll it explains, and shows its kept dice. -/
structure AddsUp (r : RollResolution α) (addends : List (Addend α)) : Prop where
  total : ∃ value, r.kind = .total value ∧ Double.magnitude value = .finite (signedSum addends)
  kept : ∀ {index : Nat} {die : DieOutcome}, r.dice[index]? = some die → die.kept = true →
    ∃! place : Nat, ∃ negative, addends[place]? = some (Addend.mk negative (.die index die.finalValue))
  only : ∀ {addend : Addend α} {index : Nat} {value : Int}, addend ∈ addends → addend.kind = .die index value →
    ∃ die, r.dice[index]? = some die ∧ die.kept = true ∧ value = die.finalValue

omit [Double α] in
theorem Addend.die_eq {addend : Addend α} {index : Nat} {value : Int} :
    addend.die = some (index, value) ↔ addend.kind = .die index value := by
  unfold Addend.die
  cases addend.kind with
  | die index' value' => simp
  | constant value' placeholder => simp

/-- The dice of addends, as they are listed. -/
theorem AddsUp.of_dice {r : RollResolution α} {addends : List (Addend α)} {value : α} (hkind : r.kind = .total value)
    (hvalue : Double.magnitude value = .finite (signedSum addends))
    (hdice : addends.filterMap Addend.die = keptDice 0 r.dice) : AddsUp r addends where
  total := ⟨value, hkind, hvalue⟩
  kept {index die} hdie hkept := by
    have hmem : (index, die.finalValue) ∈ addends.filterMap Addend.die := by
      rw [hdice]
      exact mem_keptDice.mpr ⟨die, hdie, hkept, rfl⟩
    obtain ⟨addend, hmem, hshown⟩ := List.mem_filterMap.mp hmem
    obtain ⟨place, hplace⟩ := List.getElem?_of_mem hmem
    have hkind := Addend.die_eq.mp hshown
    refine ⟨place, ⟨addend.negative, by rw [hplace, ← hkind]⟩, ?_⟩
    rintro place' ⟨negative, hplace'⟩
    have hnodup : (addends.filterMap Addend.die).Nodup := hdice ▸ nodup_keptDice r.dice
    exact filterMap_place hnodup hplace' (Addend.die_eq.mpr rfl) hplace hshown
  only {addend index value} hmem hkind := by
    have hlisted : (index, value) ∈ keptDice 0 r.dice := by
      rw [← hdice]
      exact List.mem_filterMap.mpr ⟨addend, hmem, Addend.die_eq.mpr hkind⟩
    exact mem_keptDice.mp hlisted

/-- A breakdown that is a sum adds up. -/
theorem breakdown_addsUp (hexact : Double.Exact α) {env : Env α} (hwraps : env.overflow ≠ .wraps) {source : String}
    {formula : DiceFormula α} {r : RollResolution α} {addends : List (Addend α)}
    (hparse : DiceFormula.parse source = .ok formula) (hresolve : resolve env formula = .ok r)
    (h : breakdown source r env.bindings = some (.sum addends)) : AddsUp r addends := by
  obtain ⟨parsed, hparsed, h⟩ := Option.bind_eq_some_iff.mp h
  rw [hparse] at hparsed
  cases hparsed
  obtain ⟨v, last, heval, hdice, htotal⟩ := resolve_ok hresolve
  cases hkind : r.kind with
  | successCount count =>
      rw [hkind] at h
      dsimp only at h
      split at h
      · obtain ⟨⟨marks, walk⟩, -, h⟩ := Option.bind_eq_some_iff.mp h
        split_ifs at h
        cases h
      · cases h
  | total value =>
      rw [hkind] at h
      obtain ⟨walk, hwalk, h⟩ := Option.bind_eq_some_iff.mp h
      split_ifs at h with hcursor
      cases h
      obtain ⟨hdraws, -⟩ := evalExpr_adds draws_start heval
      have hfew : r.dice.length ≤ maxTotalDice := by
        rw [← hdice]
        exact hdraws.counted.trans hdraws.bound
      obtain ⟨dice, addends, a, hexplained⟩ :=
        sum_explained hexact hwraps hfew _ hwalk heval draws_start rfl (by rw [hdice])
      have hadded : walk.addends = addends := hexplained.added
      have hrolled : last.dice = dice := hexplained.rolled
      have hsum : signedSum addends = a := hexplained.sum
      have hvalue := hexplained.comesTo
      rw [htotal value hkind, ← hsum, ← hadded] at hvalue
      refine AddsUp.of_dice hkind hvalue ?_
      rw [hadded, ← hdice, hrolled]
      exact hexplained.kept

theorem keptAndConstant_addsUp :
    AddsUp keptAndConstant
      [{ negative := false, kind := .die 1 5 }, { negative := false, kind := .constant 3 none }] := by
  obtain ⟨formula, hparse, hresolve⟩ := keptAndConstant_resolves
  exact breakdown_addsUp Double.exact_rat (by decide) hparse hresolve (by decide +kernel)

end ThunderForge.Dice
