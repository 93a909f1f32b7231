import ThunderForge.Dice.Breakdown

/-! The marks of a term that counts successes, against the count it came to (`Walk::successes` and
`compute_success_count`): the count goes by the first condition of the term's modifiers, the marks by the last. -/

namespace ThunderForge.Dice

variable {α : Type}

/-- The conditions of a term's `cs` modifiers, in order. -/
def successConditions (modifiers : List Modifier) : List Condition := modifiers.filterMap countSuccessesOf

/-- The only modifiers that count are of the `cs` kind. -/
def OnlySuccesses (modifiers : List Modifier) : Prop :=
  ∀ modifier ∈ modifiers, countsSuccesses modifier = true → (countSuccessesOf modifier).isSome = true

instance (modifiers : List Modifier) : Decidable (OnlySuccesses modifiers) :=
  inferInstanceAs (Decidable (∀ modifier ∈ modifiers, _))

/-- How many of some dice are kept and meet a condition. -/
def meeting (condition : Condition) (dice : List DieOutcome) : Nat :=
  dice.countP fun die => die.kept && conditionMatches condition die.finalValue (maxFace die.sides)

/-- As many marks are true as successes were counted, each at a kept die. -/
structure MarksAgree (dice : List DieOutcome) (n : Int) (marks : List Bool) : Prop where
  count : (marks.count true : Int) = n
  kept : ∀ index : Nat, marks[index]? = some true → ∃ die, dice[index]? = some die ∧ die.kept = true

section modifiers

variable {modifiers : List Modifier}

theorem OnlySuccesses.tail {modifier : Modifier} (h : OnlySuccesses (modifier :: modifiers)) : OnlySuccesses modifiers :=
  fun other hother => h other (List.mem_cons_of_mem _ hother)

/-- The last condition stands for the marks, and there is none of failures. -/
theorem markConditions_eq (h : OnlySuccesses modifiers) (success failure : Option Condition) :
    markConditions modifiers (success, failure) = some ((successConditions modifiers).getLast?.or success, failure) := by
  induction modifiers generalizing success with
  | nil => rfl
  | cons modifier modifiers ih =>
      cases hmodifier : countSuccessesOf modifier with
      | none =>
          have hplain : countsSuccesses modifier = false := by
            cases hcounts : countsSuccesses modifier with
            | false => rfl
            | true =>
                have hsome := h modifier List.mem_cons_self hcounts
                rw [hmodifier] at hsome
                cases hsome
          have hskip : markConditions (modifier :: modifiers) (success, failure) =
              markConditions modifiers (success, failure) := by
            cases modifier <;> first | rfl | cases hplain
          have hconditions : successConditions (modifier :: modifiers) = successConditions modifiers :=
            List.filterMap_cons_none hmodifier
          rw [hskip, ih h.tail, hconditions]
      | some condition =>
          obtain rfl : modifier = .countSuccesses condition := by
            cases modifier <;> cases hmodifier
            rfl
          have hconditions : successConditions (.countSuccesses condition :: modifiers) =
              condition :: successConditions modifiers := List.filterMap_cons_some hmodifier
          rw [markConditions, ih h.tail, hconditions, List.getLast?_cons]
          cases (successConditions modifiers).getLast? <;> rfl

/-- The first condition stands for the count. -/
theorem computeSuccessCount_first (h : OnlySuccesses modifiers) {overflow : Overflow} {outcomes : List DieOutcome}
    {greatest n : Int} (hcount : computeSuccessCount overflow outcomes modifiers greatest = .ok (some n)) :
    ∃ first, (successConditions modifiers).head? = some first ∧ n = countMatching first greatest (keptValues outcomes) := by
  have hnone {β : Type} {f : Modifier → Option β} (hf : ∀ modifier, countsSuccesses modifier = false → f modifier = none)
      (hcs : ∀ condition, f (.countSuccesses condition) = none) : modifiers.findSome? f = none := by
    refine List.findSome?_eq_none_iff.mpr fun modifier hmem => ?_
    cases hcounts : countsSuccesses modifier with
    | false => exact hf modifier hcounts
    | true =>
        have hsome := h modifier hmem hcounts
        cases modifier <;> first | exact hcs _ | cases hsome
  have hno {modifier : Modifier} (hcounts : countsSuccesses modifier = true) (hcs : countSuccessesOf modifier = none) :
      modifiers.contains modifier = false := by
    cases hmem : modifiers.contains modifier with
    | false => rfl
    | true =>
        have hsome := h modifier (List.contains_iff_mem.mp hmem) hcounts
        rw [hcs] at hsome
        cases hsome
  have hmargin : modifiers.findSome? marginOf = none := hnone (by rintro ⟨⟩ h <;> first | rfl | cases h) fun _ => rfl
  have hfailures : findCondition modifiers countFailuresOf = none :=
    hnone (by rintro ⟨⟩ h <;> first | rfl | cases h) fun _ => rfl
  have hsubtract : findCondition modifiers subtractFailureValueOf = none :=
    hnone (by rintro ⟨⟩ h <;> first | rfl | cases h) fun _ => rfl
  have hsuccesses : findCondition modifiers countSuccessesOf = (successConditions modifiers).head? :=
    List.head?_filterMap.symm
  unfold computeSuccessCount at hcount
  simp only [hmargin, hfailures, hsubtract, hsuccesses, @hno .even rfl rfl, @hno .odd rfl rfl] at hcount
  cases hfirst : (successConditions modifiers).head? with
  | none =>
      rw [hfirst] at hcount
      cases hcount
  | some first =>
      rw [hfirst] at hcount
      have hcounted : (Except.ok (some (countMatching first greatest (keptValues outcomes) - 0)) : Except Failure _) =
          .ok (some n) := hcount
      cases hcounted
      exact ⟨first, rfl, Int.sub_zero _⟩

end modifiers

theorem countMatching_eq {dice : List DieOutcome} {sides : DieSides} (hsides : ∀ die ∈ dice, die.sides = sides)
    (condition : Condition) : countMatching condition (maxFace sides) (keptValues dice) = meeting condition dice := by
  rw [countMatching, keptValues, meeting, ← List.countP_eq_length_filter, List.countP_map, List.countP_filter]
  congr 1
  refine List.countP_congr fun die hdie => ?_
  rw [Function.comp_apply, hsides die hdie, Bool.and_comm]

section marks

variable [Double α] {env : Env α} {count : Expr α} {sides : Sides α} {modifiers : List Modifier} {r : RollResolution α}
  {n : Int} {marks : List Bool}

/-- What a single term's successes and its marks come from. -/
theorem successes_ok {v : ExprValue α} {last : EvalCtx} {walk : Walk α} (honly : OnlySuccesses modifiers)
    (heval : evalDiceTerm env (.mk count sides modifiers)
      { drawn := 0, dice := [], totalDiceRolled := 0, source := none } = .ok (v, last))
    (hdice : r.dice = last.dice) (hcount : v.successCount = some n)
    (hmarks : Walk.successes r env.bindings (.mk count sides modifiers) { cursor := 0, addends := [] } =
      some (marks, walk)) (hall : walk.cursor = r.dice.length) :
    ∃ first final, (successConditions modifiers).head? = some first ∧
      (successConditions modifiers).getLast? = some final ∧ n = meeting first r.dice ∧
        marks = r.dice.map fun die => die.kept && conditionMatches final die.finalValue (maxFace die.sides) := by
  obtain ⟨conditions, hconditions, hmarks⟩ := Option.bind_eq_some_iff.mp hmarks
  rw [DiceTerm.modifiers, markConditions_eq honly] at hconditions
  obtain rfl := Option.some.inj hconditions
  dsimp only at hmarks
  split_ifs at hmarks with hnone
  obtain ⟨⟨dice, start, walk'⟩, hclaim, hmarks⟩ := Option.bind_eq_some_iff.mp hmarks
  obtain ⟨m, dieSides, hwhole, hsides, -, -, hclaimed, -, rfl⟩ := claim_ok hclaim
  obtain ⟨w, m', counted, dieSides', sized, hcounted, -, -, hsized, hroll⟩ := evalDiceTerm_ok heval
  obtain ⟨rfl, -⟩ := whole_eval hwhole hcounted
  obtain rfl := claimedSides_eval hsides hsized
  obtain ⟨drawn, value, hrolled⟩ := rollTerm_ok hroll rfl
  have hrolls : r.dice = modified modifiers drawn := by
    rw [hdice, hrolled.dice]
    rfl
  have hsame : SameDraws drawn (modified modifiers drawn) := sameDraws_modified modifiers drawn
  obtain ⟨first, hfirst, hn⟩ := computeSuccessCount_first honly (hcount ▸ hrolled.successes)
  rw [countMatching_eq (hsame.forall_sides fun die hdie => (hrolled.drawn die hdie).sides), ← hrolls] at hn
  cases hmarks
  have hown : dice = r.dice := by
    have hlength : m.toNat = r.dice.length := (Nat.zero_add _).symm.trans hall
    rw [hclaimed, hlength, List.drop_zero, List.take_length]
  rw [Option.or_none] at *
  cases hfinal : (successConditions modifiers).getLast? with
  | none =>
      rw [List.getLast?_eq_none_iff] at hfinal
      rw [hfinal] at hfirst
      cases hfirst
  | some final =>
      refine ⟨first, final, hfirst, rfl, hn, ?_⟩
      rw [hown]
      refine List.map_congr_left fun die _ => ?_
      simp

omit [Double α] in
/-- Marks by a condition agree with a count when it is of the kept dice that the condition holds of. -/
theorem marksAgree_map (dice : List DieOutcome) (n : Int) (condition : Condition) :
    MarksAgree dice n (dice.map fun die => die.kept && conditionMatches condition die.finalValue (maxFace die.sides)) ↔
      (meeting condition dice : Int) = n := by
  have hcount : (dice.map fun die => die.kept && conditionMatches condition die.finalValue (maxFace die.sides)).count
      true = meeting condition dice := by
    rw [List.count, List.countP_map]
    refine List.countP_congr fun die _ => ?_
    simp
  constructor
  · intro h
    rw [← hcount]
    exact h.count
  · intro h
    refine ⟨by rw [hcount, h], fun index hindex => ?_⟩
    rw [List.getElem?_map] at hindex
    obtain ⟨die, hdie, hmark⟩ := Option.map_eq_some_iff.mp hindex
    exact ⟨die, hdie, (Bool.and_eq_true _ _ ▸ hmark).1⟩

/-- The marks of a single term agree with the count it came to if and only if the first and the last of its `cs`
conditions hold of equally many of its kept dice. -/
theorem marksAgree_iff {source : String} {formula : DiceFormula α} (hparse : DiceFormula.parse source = .ok formula)
    (hterm : formula.ast = .dice (.mk count sides modifiers)) (honly : OnlySuccesses modifiers)
    (hresolve : resolve env formula = .ok r) (hkind : r.kind = .successCount n)
    (hmarks : breakdown source r env.bindings = some (.successes marks)) :
    MarksAgree r.dice n marks ↔ ∃ first final, (successConditions modifiers).head? = some first ∧
      (successConditions modifiers).getLast? = some final ∧ meeting first r.dice = meeting final r.dice := by
  obtain ⟨ctx, hwith⟩ := resolve_resolveWith hresolve
  obtain ⟨v, value, heval, -, rfl⟩ := resolveWith_ok hwith
  have hcount : v.successCount = some n := by
    cases hsuccesses : v.successCount with
    | none =>
        rw [hsuccesses] at hkind
        cases hkind
    | some m =>
        rw [hsuccesses] at hkind
        cases hkind
        rfl
  rw [hterm, evalExpr_dice] at heval
  obtain ⟨parsed, hparsed, hmarks⟩ := Option.bind_eq_some_iff.mp hmarks
  rw [hparse] at hparsed
  cases hparsed
  rw [hkind, hterm] at hmarks
  obtain ⟨⟨marks', walk⟩, hwalk, hmarks⟩ := Option.bind_eq_some_iff.mp hmarks
  dsimp only at hmarks
  split_ifs at hmarks with hall
  cases hmarks
  obtain ⟨first, final, hfirst, hfinal, hn, rfl⟩ := successes_ok honly heval rfl hcount hwalk hall
  rw [marksAgree_map, hn, Int.natCast_inj]
  constructor
  · exact fun hsame => ⟨first, final, hfirst, hfinal, hsame.symm⟩
  · rintro ⟨first', final', hfirst', hfinal', hsame⟩
    obtain rfl := Option.some.inj (hfirst.symm.trans hfirst')
    obtain rfl := Option.some.inj (hfinal.symm.trans hfinal')
    exact hsame.symm

end marks

/-- One die of six sides that shows three, and two conditions: the first holds of it, the last does not. -/
def threeCounted : RollResolution ℚ where
  formula := "1d6cs>=2cs>=5"
  dice := [{ sides := .numeric 6, rolls := [3], steps := [], kept := true, finalValue := 3 }]
  kind := .successCount 1

/-- What a formula that is a single term is read as. -/
def onlyTerm (formula : DiceFormula ℚ) : Option (List Modifier) :=
  match formula.ast with
  | .dice term => some term.modifiers
  | _ => none

theorem onlyTerm_eq {formula : DiceFormula ℚ} {modifiers : List Modifier} (h : onlyTerm formula = some modifiers) :
    ∃ count sides, formula.ast = .dice (.mk count sides modifiers) := by
  unfold onlyTerm at h
  split at h
  · rename_i term hast
    obtain ⟨count, sides, modifiers'⟩ := term
    cases h
    exact ⟨count, sides, hast⟩
  · cases h

/-- A single die that succeeds, and is marked as having failed. -/
theorem threeCounted_disagrees : ¬∀ (env : Env ℚ) (source : String) (formula : DiceFormula ℚ) (count : Expr ℚ)
    (sides : Sides ℚ) (modifiers : List Modifier) (r : RollResolution ℚ) (n : Int) (marks : List Bool),
    DiceFormula.parse source = .ok formula → formula.ast = .dice (.mk count sides modifiers) →
      OnlySuccesses modifiers → resolve env formula = .ok r → r.kind = .successCount n →
        breakdown source r env.bindings = some (.successes marks) → MarksAgree r.dice n marks := by
  intro h
  let env : Env ℚ := { overflow := .panics, bindings := fun _ => none, draws := fun _ => 2 }
  have hrun : ((DiceFormula.parse threeCounted.formula).toOption >>= fun formula =>
      onlyTerm formula >>= fun modifiers => if OnlySuccesses modifiers then (resolve env formula).toOption else none) =
        some threeCounted := by
    decide +kernel
  obtain ⟨formula, hparse, hrun⟩ := Option.bind_eq_some_iff.mp hrun
  obtain ⟨modifiers, hterm, hrun⟩ := Option.bind_eq_some_iff.mp hrun
  split_ifs at hrun with honly
  obtain ⟨count, sides, hast⟩ := onlyTerm_eq hterm
  have hagree := h env _ formula count sides modifiers threeCounted 1 [false] (of_toOption hparse) hast honly
    (of_toOption hrun) rfl (by decide +kernel)
  exact absurd hagree.count (by decide)

/-- A single die that succeeds, and is marked so. -/
def fiveCounted : RollResolution ℚ where
  formula := "1d6cs>=5"
  dice := [{ sides := .numeric 6, rolls := [5], steps := [], kept := true, finalValue := 5 }]
  kind := .successCount 1

theorem fiveCounted_agrees : MarksAgree fiveCounted.dice 1 [true] := by
  let env : Env ℚ := { overflow := .panics, bindings := fun _ => none, draws := fun _ => 4 }
  have hrun : ((DiceFormula.parse fiveCounted.formula).toOption >>= fun formula => onlyTerm formula >>= fun modifiers =>
      if modifiers = [.countSuccesses (.gte 5)] then (resolve env formula).toOption else none) = some fiveCounted := by
    decide +kernel
  obtain ⟨formula, hparse, hrun⟩ := Option.bind_eq_some_iff.mp hrun
  obtain ⟨modifiers, hterm, hrun⟩ := Option.bind_eq_some_iff.mp hrun
  split_ifs at hrun with hmodifiers
  subst hmodifiers
  obtain ⟨count, sides, hast⟩ := onlyTerm_eq hterm
  exact (marksAgree_iff (of_toOption hparse) hast (by decide) (of_toOption hrun) rfl (by decide +kernel)).mpr
    ⟨.gte 5, .gte 5, rfl, rfl, rfl⟩

end ThunderForge.Dice
