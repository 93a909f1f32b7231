import Mathlib.Tactic.Linarith
import ThunderForge.Dice.Outcomes

/-! The `i64` sums at the end of a dice term (`eval_dice_term` and `compute_success_count`). The clamps of a term leave
its dice as small as faces are, or make them all one number, so a sum fits as soon as it is small or the multiple is. -/

namespace ThunderForge.Dice

/-! Sums that are checked as they go. -/

section sums

variable {overflow : Overflow} {acc n : Int} {values : List Int}

theorem i64_panics : Overflow.panics.i64 n = .ok acc ↔ inI64 n ∧ acc = n := by
  unfold Overflow.i64
  dsimp only
  split_ifs with hin
  · rw [Except.ok.injEq]
    exact ⟨fun h => ⟨hin, h.symm⟩, fun h => h.2.symm⟩
  · exact ⟨fun h => (by cases h), fun h => absurd h.1 hin⟩

/-- What fits is the same however a build treats what does not. -/
theorem i64_of_inI64 (h : inI64 n) : overflow.i64 n = .ok n := by
  have hbounds : -9223372036854775808 ≤ n ∧ n ≤ 9223372036854775807 := by
    simpa [inI64] using h
  cases overflow with
  | panics => exact if_pos h
  | wraps =>
      show Except.ok (Int.bmod n 18446744073709551616) = _
      rw [Int.bmod_eq_of_le (by omega) (by omega)]
  | exact => rfl

/-- Every sum on the way is an `i64`. -/
def SumsFit (acc : Int) : List Int → Prop
  | [] => True
  | value :: values => inI64 (acc + value) ∧ SumsFit (acc + value) values

theorem foldlM_of_sumsFit (h : SumsFit acc values) :
    values.foldlM (fun sum value => overflow.i64 (sum + value)) acc = .ok (acc + values.sum) := by
  induction values generalizing acc with
  | nil =>
      rw [List.sum_nil, Int.add_zero]
      rfl
  | cons value values ih =>
      rw [List.foldlM_cons, i64_of_inI64 h.1]
      show values.foldlM _ (acc + value) = _
      rw [ih h.2, List.sum_cons, Int.add_assoc]

theorem sumsFit_of_foldlM (h : values.foldlM (fun sum value => Overflow.panics.i64 (sum + value)) acc = .ok n) :
    SumsFit acc values := by
  induction values generalizing acc with
  | nil => exact trivial
  | cons value values ih =>
      rw [List.foldlM_cons] at h
      obtain ⟨sum, hfirst, hrest⟩ := except_bind_eq_ok.mp h
      obtain ⟨hin, rfl⟩ := i64_panics.mp hfirst
      exact ⟨hin, ih hrest⟩

theorem sum_of_sumsFit (h : SumsFit 0 values) : overflow.sum values = .ok values.sum := by
  unfold Overflow.sum
  rw [foldlM_of_sumsFit h, Int.zero_add]

/-- A sum comes out in a build that checks when, and only when, each sum on the way fits. -/
theorem sum_panics : Overflow.panics.sum values = .ok n ↔ SumsFit 0 values ∧ n = values.sum := by
  constructor
  · intro h
    have hfit : SumsFit 0 values := sumsFit_of_foldlM h
    rw [sum_of_sumsFit hfit, Except.ok.injEq] at h
    exact ⟨hfit, h.symm⟩
  · rintro ⟨hfit, rfl⟩
    exact sum_of_sumsFit hfit

end sums

/-! Sums of few small numbers, and of one number over and over. -/

/-- As small as a face of a die. -/
def FaceSized (n : Int) : Prop := -1 ≤ n ∧ n ≤ 4294967296

theorem sumsFit_small {values : List Int} {acc bound : Int} (hbound : -bound ≤ acc ∧ acc ≤ bound)
    (hsmall : ∀ value ∈ values, FaceSized value) (hfew : bound + values.length * 4294967296 ≤ 9223372036854775807) :
    SumsFit acc values := by
  induction values generalizing acc bound with
  | nil => exact trivial
  | cons value values ih =>
      obtain ⟨hlow, hhigh⟩ := hsmall value List.mem_cons_self
      rw [List.length_cons] at hfew
      push_cast at hfew
      have hfits : inI64 (acc + value) := by
        simp only [inI64, Bool.and_eq_true, decide_eq_true_eq]
        omega
      exact ⟨hfits, @ih (acc + value) (bound + 4294967296) (by omega)
        (fun other hother => hsmall other (List.mem_cons_of_mem _ hother)) (by omega)⟩

/-- A number over and over: the sums grow one way, so they fit when the last of them does. -/
theorem sumsFit_replicate {K : Int} {done count : Nat} (hdone : inI64 (done * K)) :
    SumsFit (done * K) (List.replicate count K) ↔ inI64 ((done + count : Nat) * K) := by
  induction count generalizing done with
  | zero => exact ⟨fun _ => hdone, fun _ => trivial⟩
  | succ count ih =>
      have hnext : (done : Int) * K + K = (done + 1 : Nat) * K := by
        push_cast
        ring
      have hplace : done + 1 + count = done + (count + 1) := by omega
      show inI64 (done * K + K) ∧ SumsFit (done * K + K) (List.replicate count K) ↔ _
      rw [hnext]
      constructor
      · rintro ⟨hfirst, hrest⟩
        rw [← hplace]
        exact (ih hfirst).mp hrest
      · intro hall
        have hfirst : inI64 ((done + 1 : Nat) * K) := by
          simp only [inI64, Bool.and_eq_true, decide_eq_true_eq] at hall hdone ⊢
          push_cast at hall ⊢
          rcases le_total 0 K with hsign | hsign
          · have hgrow : ((done : Int) + 1) * K ≤ ((done : Int) + (count + 1)) * K :=
              mul_le_mul_of_nonneg_right (by omega) hsign
            have hstart : (done : Int) * K ≤ ((done : Int) + 1) * K := mul_le_mul_of_nonneg_right (by omega) hsign
            omega
          · have hgrow : ((done : Int) + (count + 1)) * K ≤ ((done : Int) + 1) * K :=
              mul_le_mul_of_nonpos_right (by omega) hsign
            have hstart : ((done : Int) + 1) * K ≤ (done : Int) * K := mul_le_mul_of_nonpos_right (by omega) hsign
            omega
        exact ⟨hfirst, (ih hfirst).mpr (by rwa [hplace])⟩

/-- Each number is a given one, or both are small. -/
def NearTo (K : Int) (values : List Int) : Prop := ∀ value ∈ values, value = K ∨ FaceSized value ∧ FaceSized K

/-- Such numbers, where they are few, add up as many of the given one would. -/
theorem sumsFit_iff {K : Int} {values : List Int} (hnear : NearTo K values) (hfew : values.length ≤ maxTotalDice) :
    SumsFit 0 values ↔ inI64 (values.length * K) := by
  have hmany : (values.length : Int) ≤ 1000 := by exact_mod_cast hfew
  by_cases hsmall : FaceSized K
  · have hall : ∀ value ∈ values, FaceSized value := by
      intro value hvalue
      rcases hnear value hvalue with rfl | ⟨hvalue, -⟩
      · exact hsmall
      · exact hvalue
    have hsums : SumsFit 0 values := @sumsFit_small values 0 0 (by omega) hall (by omega)
    refine ⟨fun _ => ?_, fun _ => hsums⟩
    obtain ⟨hlow, hhigh⟩ := hsmall
    have hleast : (values.length : Int) * -1 ≤ values.length * K := mul_le_mul_of_nonneg_left hlow (by omega)
    have hmost : (values.length : Int) * K ≤ values.length * 4294967296 := mul_le_mul_of_nonneg_left hhigh (by omega)
    simp only [inI64, Bool.and_eq_true, decide_eq_true_eq]
    omega
  · have hsame : values = List.replicate values.length K := by
      refine List.eq_replicate_of_mem fun value hvalue => ?_
      rcases hnear value hvalue with heq | ⟨-, hK⟩
      · exact heq
      · exact absurd hK hsmall
    have hzero : inI64 ((0 : Nat) * K) := by simp [inI64]
    have hreplicate := @sumsFit_replicate K 0 values.length hzero
    rw [← hsame] at hreplicate
    simpa using hreplicate

/-! Clamps. -/

/-- A clamp, on a single value. -/
def clampValue (value : Int) : Modifier → Int
  | .min n => if value < n then n else value
  | .max n => if value > n then n else value
  | _ => value

/-- The clamps of a term, on a single value. -/
def clamped (modifiers : List Modifier) (value : Int) : Int := modifiers.foldl clampValue value

theorem applyClamp_eq (modifiers : List Modifier) (outcomes : List DieOutcome) :
    applyClamp modifiers outcomes =
      outcomes.map fun die => { die with finalValue := clamped modifiers die.finalValue } := by
  unfold applyClamp clamped
  induction modifiers generalizing outcomes with
  | nil => exact (List.map_id' outcomes).symm
  | cons modifier modifiers ih =>
      have hstep : clampStep outcomes modifier =
          outcomes.map fun die => { die with finalValue := clampValue die.finalValue modifier } := by
        cases modifier with
        | min n =>
            refine List.map_congr_left fun die _ => ?_
            simp only [clampValue]
            split_ifs <;> rfl
        | max n =>
            refine List.map_congr_left fun die _ => ?_
            simp only [clampValue]
            split_ifs <;> rfl
        | _ => exact (List.map_id' outcomes).symm
      rw [List.foldl_cons, hstep, ih, List.map_map]
      rfl

/-- Clamps bring two small values to one number, or leave both small. -/
theorem clamped_near {modifiers : List Modifier} {v w : Int} (h : v = w ∨ FaceSized v ∧ FaceSized w) :
    clamped modifiers v = clamped modifiers w ∨
      FaceSized (clamped modifiers v) ∧ FaceSized (clamped modifiers w) := by
  unfold clamped
  induction modifiers generalizing v w with
  | nil => exact h
  | cons modifier modifiers ih =>
      refine ih ?_
      unfold FaceSized at h ⊢
      cases modifier with
      | min n =>
          simp only [clampValue]
          omega
      | max n =>
          simp only [clampValue]
          omega
      | _ => exact h

theorem keptValues_applyClamp (modifiers : List Modifier) (dice : List DieOutcome) :
    keptValues (applyClamp modifiers dice) = (keptValues dice).map (clamped modifiers) := by
  unfold keptValues
  rw [applyClamp_eq, List.filter_map, List.map_map, List.map_map]
  rfl

/-- The dice that keep and drop have kept, as the clamps leave them. -/
theorem keptValues_modified (modifiers : List Modifier) (dice : List DieOutcome) :
    keptValues (modified modifiers dice) = (keptValues (applyKeepDrop modifiers dice)).map (clamped modifiers) :=
  keptValues_applyClamp modifiers _

/-- What a term's dice may be clamped to, before they are added. -/
theorem kept_near (modifiers : List Modifier) {dice : List DieOutcome} (h : ∀ die ∈ dice, FaceSized die.finalValue) :
    NearTo (clamped modifiers 0) (keptValues (modified modifiers dice)) := by
  intro value hvalue
  rw [keptValues_modified] at hvalue
  obtain ⟨shown, hshown, rfl⟩ := List.mem_map.mp hvalue
  obtain ⟨die, hdie, rfl⟩ := List.mem_map.mp hshown
  have hface : die.finalValue ∈ dice.map DieOutcome.finalValue := by
    rw [← map_applyKeepDrop (fun _ => rfl) modifiers dice]
    exact List.mem_map_of_mem (List.mem_of_mem_filter hdie)
  obtain ⟨drawn, hdrawn, heq⟩ := List.mem_map.mp hface
  exact clamped_near (Or.inr ⟨heq ▸ h drawn hdrawn, by unfold FaceSized; omega⟩)

theorem kept_length (modifiers : List Modifier) (dice : List DieOutcome) :
    (keptValues (modified modifiers dice)).length ≤ dice.length := by
  calc (keptValues (modified modifiers dice)).length ≤ (modified modifiers dice).length := by
        unfold keptValues
        rw [List.length_map]
        exact List.length_filter_le _ _
    _ = dice.length := (sameDraws_modified modifiers dice).length

/-! What a term counts for. -/

/-- The end of `eval_dice_term`: the successes of a term's dice and its value. -/
def countTerm (overflow : Overflow) (modifiers : List Modifier) (greatest : Int) (outcomes : List DieOutcome) :
    Except Failure (Option Int × Int) := do
  let successCount ← computeSuccessCount overflow outcomes modifiers greatest
  let value ← termValue overflow outcomes successCount
  return (successCount, value)

/-- The kept values that a condition of a term holds of. -/
def matching (condition : Option Condition) (greatest : Int) (kept : List Int) : List Int :=
  condition.elim [] fun condition => kept.filter fun value => conditionMatches condition value greatest

/-- Successes less failures. -/
def successBalance (modifiers : List Modifier) (greatest : Int) (kept : List Int) : Int :=
  (matching (findCondition modifiers countSuccessesOf) greatest kept).length -
    (matching (findCondition modifiers countFailuresOf) greatest kept).length

/-- That the operations a term's modifiers ask for fit: the sums they take, and what is taken from these or these are
taken from. -/
def OpsFit (fits : List Int → Prop) (modifiers : List Modifier) (greatest : Int) (kept : List Int) : Prop :=
  match modifiers.findSome? marginOf with
  | some n => fits kept ∧ inI64 (kept.sum - n)
  | none =>
    if modifiers.contains .even || modifiers.contains .odd then True
    else
      match findCondition modifiers subtractFailureValueOf with
      | some condition =>
        fits (matching (some condition) greatest kept) ∧
          inI64 (successBalance modifiers greatest kept - (matching (some condition) greatest kept).sum)
      | none =>
        if (findCondition modifiers countSuccessesOf).isNone && (findCondition modifiers countFailuresOf).isNone then
          fits kept
        else True

theorem OpsFit.congr {fits fits' : List Int → Prop} {modifiers : List Modifier} {greatest : Int} {kept : List Int}
    (h : ∀ values, values.Sublist kept → (fits values ↔ fits' values)) :
    OpsFit fits modifiers greatest kept ↔ OpsFit fits' modifiers greatest kept := by
  unfold OpsFit
  split
  · rw [h kept (List.Sublist.refl kept)]
  · split
    · exact Iff.rfl
    · split
      · rw [h (matching (some _) greatest kept) List.filter_sublist]
      · split
        · rw [h kept (List.Sublist.refl kept)]
        · exact Iff.rfl

section count

variable {modifiers : List Modifier} {greatest : Int} {outcomes : List DieOutcome}

/-- The successes of a term, by what its modifiers ask for. -/
theorem computeSuccessCount_eq (overflow : Overflow) :
    computeSuccessCount overflow outcomes modifiers greatest =
      match modifiers.findSome? marginOf with
      | some n => overflow.sum (keptValues outcomes) >>= fun sum => (overflow.i64 (sum - n)).map some
      | none =>
        if modifiers.contains .even || modifiers.contains .odd then
          .ok (some (((keptValues outcomes).filter fun value =>
            (value.tmod 2 = 0) = modifiers.contains .even).length : Nat))
        else
          match findCondition modifiers subtractFailureValueOf with
          | some condition =>
            overflow.sum (matching (some condition) greatest (keptValues outcomes)) >>= fun sum =>
              (overflow.i64 (successBalance modifiers greatest (keptValues outcomes) - sum)).map some
          | none =>
            if (findCondition modifiers countSuccessesOf).isNone && (findCondition modifiers countFailuresOf).isNone then
              .ok none
            else .ok (some (successBalance modifiers greatest (keptValues outcomes))) := by
  have hbalance :
      ((findCondition modifiers countSuccessesOf).map
          fun condition => countMatching condition greatest (keptValues outcomes)).getD 0 -
        ((findCondition modifiers countFailuresOf).map
          fun condition => countMatching condition greatest (keptValues outcomes)).getD 0 =
      successBalance modifiers greatest (keptValues outcomes) := by
    unfold successBalance matching
    cases findCondition modifiers countSuccessesOf <;> cases findCondition modifiers countFailuresOf <;> rfl
  unfold computeSuccessCount
  dsimp only
  rw [hbalance]
  cases modifiers.findSome? marginOf with
  | some n => rfl
  | none =>
      dsimp only
      split
      · rfl
      · cases findCondition modifiers subtractFailureValueOf with
        | some condition =>
            rw [if_neg (by simp)]
            rfl
        | none => simp only [Option.isNone_none, Bool.and_true]; rfl

/-- Where every operation fits, a term counts for the same in every build. -/
theorem countTerm_of_fits (h : OpsFit (SumsFit 0) modifiers greatest (keptValues outcomes)) :
    ∃ result, ∀ overflow, countTerm overflow modifiers greatest outcomes = .ok result := by
  unfold OpsFit at h
  unfold countTerm
  simp only [computeSuccessCount_eq]
  cases hmargin : modifiers.findSome? marginOf with
  | some n =>
      rw [hmargin] at h
      refine ⟨(some ((keptValues outcomes).sum - n), (keptValues outcomes).sum - n), fun overflow => ?_⟩
      rw [sum_of_sumsFit h.1]
      show ((overflow.i64 ((keptValues outcomes).sum - n)).map some >>= _) = _
      rw [i64_of_inI64 h.2]
      rfl
  | none =>
      rw [hmargin] at h
      dsimp only at h ⊢
      by_cases hparity : (modifiers.contains .even || modifiers.contains .odd) = true
      · simp only [if_pos hparity]
        exact ⟨_, fun overflow => rfl⟩
      · rw [if_neg hparity] at h
        simp only [if_neg hparity]
        cases hsubtract : findCondition modifiers subtractFailureValueOf with
        | some condition =>
            rw [hsubtract] at h
            let result := successBalance modifiers greatest (keptValues outcomes) -
              (matching (some condition) greatest (keptValues outcomes)).sum
            refine ⟨(some result, result), fun overflow => ?_⟩
            dsimp only
            rw [sum_of_sumsFit h.1]
            show ((overflow.i64 result).map some >>= _) = _
            rw [i64_of_inI64 h.2]
            rfl
        | none =>
            rw [hsubtract] at h
            dsimp only at h ⊢
            split_ifs at h ⊢ with hplain
            · refine ⟨(none, (keptValues outcomes).sum), fun overflow => ?_⟩
              show (overflow.sum (keptValues outcomes) >>= _) = _
              rw [sum_of_sumsFit h]
              rfl
            · exact ⟨_, fun overflow => rfl⟩

/-- What a term counts for in a build that checks: every operation has fitted. -/
theorem fits_of_countTerm {result : Option Int × Int}
    (h : countTerm .panics modifiers greatest outcomes = .ok result) :
    OpsFit (SumsFit 0) modifiers greatest (keptValues outcomes) := by
  obtain ⟨successCount, hcount, h⟩ := except_bind_eq_ok.mp h
  obtain ⟨value, hvalue, h⟩ := except_bind_eq_ok.mp h
  rw [computeSuccessCount_eq] at hcount
  unfold OpsFit
  cases hmargin : modifiers.findSome? marginOf with
  | some n =>
      rw [hmargin] at hcount
      obtain ⟨sum, hsum, hcount⟩ := except_bind_eq_ok.mp hcount
      obtain ⟨difference, hdifference, -⟩ := map_ok hcount
      obtain ⟨hfit, rfl⟩ := sum_panics.mp hsum
      exact ⟨hfit, (i64_panics.mp hdifference).1⟩
  | none =>
      rw [hmargin] at hcount
      dsimp only at hcount ⊢
      by_cases hparity : (modifiers.contains .even || modifiers.contains .odd) = true
      · rw [if_pos hparity]
        trivial
      · rw [if_neg hparity] at hcount ⊢
        cases hsubtract : findCondition modifiers subtractFailureValueOf with
        | some condition =>
            rw [hsubtract] at hcount
            obtain ⟨sum, hsum, hcount⟩ := except_bind_eq_ok.mp hcount
            obtain ⟨difference, hdifference, -⟩ := map_ok hcount
            obtain ⟨hfit, rfl⟩ := sum_panics.mp hsum
            exact ⟨hfit, (i64_panics.mp hdifference).1⟩
        | none =>
            rw [hsubtract] at hcount
            dsimp only at hcount ⊢
            split_ifs at hcount ⊢ with hplain
            cases hcount
            exact (sum_panics.mp hvalue).1

end count

end ThunderForge.Dice
