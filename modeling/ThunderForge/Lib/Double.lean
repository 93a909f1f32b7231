import Mathlib.Data.List.TakeWhile
import Mathlib.Data.Nat.Digits.Defs
import Mathlib.Data.Nat.Factorization.Basic
import Mathlib.Data.Rat.Floor
import Mathlib.Order.WithBot
import Mathlib.Tactic.FieldSimp
import Mathlib.Tactic.NormNum
import Mathlib.Tactic.Push

/-! Floating-point numbers by the exact values they stand for. How sums and products are rounded is left open, and
reading and writing text is by its documented behaviour, so what is proved holds of every such type; the rational
numbers are the instance that never rounds. -/

/-- What a floating-point number stands for. -/
inductive Magnitude where
  | finite (value : ℚ)
  | infinite (negative : Bool)
  | nan
  deriving DecidableEq

namespace Magnitude

def map (f : ℚ → ℚ) : Magnitude → Magnitude
  | finite value => finite (f value)
  | infinite negative => infinite negative
  | nan => nan

/-- The order of the numbers between the infinities. -/
def key : Magnitude → WithBot (WithTop ℚ)
  | finite value => some (some value)
  | infinite true => ⊥
  | infinite false => some ⊤
  | nan => ⊥

end Magnitude

namespace Double

/-- Toward zero. -/
def truncate (value : ℚ) : Int := value.num.tdiv value.den

/-- To the nearest integer, halves away from zero. -/
def roundAway (value : ℚ) : Int := if value < 0 then -⌊-value + 1 / 2⌋ else ⌊value + 1 / 2⌋

def clamp (low high value : Int) : Int := max low (min high value)

/-- Digits, with one dot at most. -/
inductive IsNumeral : List Char → Prop
  | whole {digits : List Char} (h : digits.all Char.isDigit) (hne : digits ≠ []) : IsNumeral digits
  | fraction {digits places : List Char} (h : digits.all Char.isDigit) (h' : places.all Char.isDigit)
      (hne : digits ++ places ≠ []) : IsNumeral (digits ++ '.' :: places)

end Double

open Double in
/-- A type of floating-point numbers. -/
class Double (α : Type) where
  magnitude : α → Magnitude
  /-- The text of a number as it is read; none where it is no number. -/
  parse : String → Option α
  display : α → String
  ofInt : Int → α
  neg : α → α
  add : α → α → α
  sub : α → α → α
  mul : α → α → α
  div : α → α → α
  sum : List α → α
  floor : α → α
  ceil : α → α
  /-- Halves away from zero. -/
  round : α → α
  abs : α → α
  magnitude_round : ∀ x, magnitude (round x) = (magnitude x).map fun value => roundAway value
  magnitude_ofInt : ∀ n : Nat, n ≤ 9007199254740992 → magnitude (ofInt n) = .finite n
  parse_dot : parse "." = none
  /-- What a numeral stands for is not negative. -/
  magnitude_parse : ∀ {text x}, IsNumeral text.toList → parse text = some x →
    (∃ value ≥ 0, magnitude x = .finite value) ∨ magnitude x = .infinite false
  /-- A number that was read is written as a numeral that is read as it. -/
  parse_display : ∀ {text x value}, IsNumeral text.toList → parse text = some x → magnitude x = .finite value →
    IsNumeral (display x).toList ∧ parse (display x) = some x
  /-- A number that is whole is written with its digits alone. -/
  display_whole : ∀ {text x} {n : Nat}, IsNumeral text.toList → parse text = some x → magnitude x = .finite n →
    display x = toString n
  parse_ofInt : ∀ n : Nat, n ≤ 9007199254740992 → parse (toString n) = some (ofInt n)
  /-- The whole part of a number that was read is such a number. -/
  parse_floor : ∀ {text x value}, IsNumeral text.toList → parse text = some x → magnitude x = .finite value →
    ∃ y, parse (toString ⌊value⌋₊) = some y ∧ magnitude y = .finite ⌊value⌋₊
  /-- The largest `i64` is read as a number no smaller, if not as itself. -/
  parse_maxI64 : ∃ y, parse (toString (9223372036854775807 : Nat)) = some y ∧
    ∀ value, magnitude y = .finite value → 9223372036854775807 ≤ value

namespace Double

section kinds

variable {α : Type} [Double α]

def isFinite (x : α) : Bool :=
  match magnitude x with
  | .finite _ => true
  | .infinite _ | .nan => false

/-- `x < 0.0` -/
def isNegative (x : α) : Bool :=
  match magnitude x with
  | .finite value => value < 0
  | .infinite negative => negative
  | .nan => false

/-- `x >= 0.0` -/
def isNonNegative (x : α) : Bool :=
  match magnitude x with
  | .finite value => 0 ≤ value
  | .infinite negative => !negative
  | .nan => false

def isZero (x : α) : Bool := magnitude x = .finite 0

/-- `x.fract() == 0.0` -/
def isWhole (x : α) : Bool :=
  match magnitude x with
  | .finite value => value.den = 1
  | .infinite _ | .nan => false

/-- `x as` an integer of a range: toward zero, and to the nearer end from outside it. -/
def toInt (low high : Int) (x : α) : Int :=
  match magnitude x with
  | .finite value => clamp low high (truncate value)
  | .infinite negative => if negative then low else high
  | .nan => 0

def toI64 (x : α) : Int := toInt (-9223372036854775808) 9223372036854775807 x

def toU32 (x : α) : Nat := (toInt 0 4294967295 x).toNat

/-- The number that is meant, 0 where there is none. -/
def value (x : α) : ℚ :=
  match magnitude x with
  | .finite value => value
  | .infinite _ | .nan => 0

/-- No sum or difference is rounded. -/
structure Exact (α : Type) [Double α] : Prop where
  ofInt : ∀ n : Int, magnitude (ofInt n : α) = .finite n
  neg : ∀ {x : α} {a : ℚ}, magnitude x = .finite a → magnitude (neg x) = .finite (-a)
  add : ∀ {x y : α} {a b : ℚ}, magnitude x = .finite a → magnitude y = .finite b → magnitude (add x y) = .finite (a + b)
  sub : ∀ {x y : α} {a b : ℚ}, magnitude x = .finite a → magnitude y = .finite b → magnitude (sub x y) = .finite (a - b)
  abs : ∀ {x : α} {a : ℚ}, magnitude x = .finite a → magnitude (abs x) = .finite |a|

end kinds

/-! The rational numbers. -/

/-- The digits after the dot of a number that has finitely many. -/
def places (value : ℚ) : Nat := ((List.range (value.den + 1)).find? fun k => value.den ∣ Nat.pow 10 k).getD 0

/-- The digits of a number, with zeros before them up to a length. -/
def padded (length n : Nat) : List Char :=
  List.replicate (length - (Nat.toDigits 10 n).length) '0' ++ Nat.toDigits 10 n

def displayPositive (value : ℚ) : String :=
  let k := places value
  let scaled := value.num.toNat * (Nat.pow 10 k / value.den)
  if k = 0 then toString scaled
  else String.ofList (Nat.toDigits 10 (scaled / Nat.pow 10 k) ++ '.' :: padded k (scaled % Nat.pow 10 k))

def displayRat (value : ℚ) : String :=
  if value < 0 then "-" ++ displayPositive (-value) else displayPositive value

def parseRat (text : String) : Option ℚ :=
  let digits := text.toList.takeWhile Char.isDigit
  match text.toList.dropWhile Char.isDigit with
  | [] => if digits = [] then none else some ((Nat.ofDigitChars 10 digits 0 : Nat) : ℚ)
  | c :: places =>
    if c = '.' ∧ places.all Char.isDigit ∧ digits ++ places ≠ [] then
      some (((Nat.ofDigitChars 10 (digits ++ places) 0 : Nat) : ℚ) / (Nat.pow 10 places.length : Nat))
    else none

theorem parseRat_whole {digits : List Char} (h : digits.all Char.isDigit) (hne : digits ≠ []) :
    parseRat (String.ofList digits) = some ((Nat.ofDigitChars 10 digits 0 : Nat) : ℚ) := by
  have htake : digits.takeWhile Char.isDigit = digits := List.takeWhile_eq_self_iff.mpr (List.all_eq_true.mp h)
  have hdrop : digits.dropWhile Char.isDigit = [] := List.dropWhile_eq_nil_iff.mpr (List.all_eq_true.mp h)
  simp only [parseRat, String.toList_ofList, htake, hdrop, if_neg hne]

theorem parseRat_fraction {digits places : List Char} (h : digits.all Char.isDigit) (h' : places.all Char.isDigit)
    (hne : digits ++ places ≠ []) :
    parseRat (String.ofList (digits ++ '.' :: places)) =
      some (((Nat.ofDigitChars 10 (digits ++ places) 0 : Nat) : ℚ) / (Nat.pow 10 places.length : Nat)) := by
  have hdot : Char.isDigit '.' = false := by decide
  have htake : (digits ++ '.' :: places).takeWhile Char.isDigit = digits := by
    rw [List.takeWhile_append_of_pos (List.all_eq_true.mp h), List.takeWhile_cons_of_neg (by simp [hdot]),
      List.append_nil]
  have hdrop : (digits ++ '.' :: places).dropWhile Char.isDigit = '.' :: places := by
    rw [List.dropWhile_append_of_pos (List.all_eq_true.mp h), List.dropWhile_cons_of_neg (by simp [hdot])]
  simp only [parseRat, String.toList_ofList, htake, hdrop]
  rw [if_pos ⟨trivial, h', hne⟩]

theorem all_isDigit_toDigits (n : Nat) : (Nat.toDigits 10 n).all Char.isDigit :=
  List.all_eq_true.mpr fun _ hc => Nat.isDigit_of_mem_toDigits (by decide) (by decide) hc

theorem toDigits_ne_nil (n : Nat) : Nat.toDigits 10 n ≠ [] := List.ne_nil_of_length_pos Nat.length_toDigits_pos

theorem parseRat_toString (n : Nat) : parseRat (toString n) = some (n : ℚ) := by
  rw [Nat.toString_eq_ofList_toDigits, parseRat_whole (all_isDigit_toDigits n) (toDigits_ne_nil n), Nat.ofDigitChars_ten_toDigits]

theorem isNumeral_toString (n : Nat) : IsNumeral (toString n).toList := by
  rw [Nat.toString_eq_ofList_toDigits, String.toList_ofList]
  exact .whole (all_isDigit_toDigits n) (toDigits_ne_nil n)

/-- What is read from a numeral has finitely many digits. -/
theorem of_parseRat {text : String} {value : ℚ} (hnumeral : IsNumeral text.toList)
    (h : parseRat text = some value) : ∃ n k : Nat, value = n / (10 ^ k : Nat) := by
  rw [← String.ofList_toList (s := text)] at h
  generalize text.toList = chars at hnumeral h
  cases hnumeral with
  | whole hdigits hne =>
      rw [parseRat_whole hdigits hne, Option.some_inj] at h
      exact ⟨Nat.ofDigitChars 10 chars 0, 0, by rw [← h]; simp⟩
  | fraction hdigits hplaces hne =>
      rw [parseRat_fraction hdigits hplaces hne, Option.some_inj] at h
      exact ⟨_, _, h.symm⟩

/-- A denominator that divides a power of ten divides one no higher than itself. -/
theorem dvd_ten_pow {d k : Nat} (hd : d ≠ 0) (h : d ∣ 10 ^ k) : d ∣ 10 ^ d := by
  refine (Nat.factorization_prime_le_iff_dvd hd (by positivity)).mp fun p hp => ?_
  by_cases hdvd : p ∣ d
  · have hten : p ∣ 10 := hp.dvd_of_dvd_pow (hdvd.trans h)
    have hpos : 0 < (10 : Nat).factorization p := hp.factorization_pos_of_dvd (by decide) hten
    rw [Nat.factorization_pow]
    calc
      d.factorization p ≤ d * 1 := by
        rw [mul_one]
        exact (Nat.factorization_lt p hd).le
      _ ≤ d * (10 : Nat).factorization p := Nat.mul_le_mul_left d hpos
  · rw [Nat.factorization_eq_zero_of_not_dvd hdvd]
    exact Nat.zero_le _

theorem den_dvd_places {n k : Nat} {value : ℚ} (h : value = n / (10 ^ k : Nat)) :
    value.den ∣ 10 ^ places value := by
  have hdvd : value.den ∣ 10 ^ k := by
    have hdiv : ((Rat.divInt (n : Int) ((10 ^ k : Nat) : Int)).den : Int) ∣ ((10 ^ k : Nat) : Int) := Rat.den_dvd _ _
    rw [Rat.divInt_eq_div, Int.cast_natCast, Int.cast_natCast, ← h] at hdiv
    exact Int.natCast_dvd_natCast.mp hdiv
  have hself := dvd_ten_pow value.den_ne_zero hdvd
  unfold places
  cases hfind : (List.range (value.den + 1)).find? fun k => value.den ∣ Nat.pow 10 k with
  | none =>
      have hnone := List.find?_eq_none.mp hfind value.den (List.mem_range.mpr (Nat.lt_succ_self _))
      exact absurd (decide_eq_true hself) hnone
  | some k => exact of_decide_eq_true (List.find?_some hfind :)

theorem ofDigitChars_padded {length n : Nat} : Nat.ofDigitChars 10 (padded length n) 0 = n := by
  rw [padded, Nat.ofDigitChars_append, Nat.ofDigitChars_replicate_zero, Nat.mul_zero, Nat.ofDigitChars_ten_toDigits]

theorem length_padded {length n : Nat} (hpos : 0 < length) (h : n < 10 ^ length) : (padded length n).length = length := by
  have hle := Nat.toDigits_length 10 n length hpos h
  rw [padded, List.length_append, List.length_replicate]
  omega

theorem all_isDigit_padded (length n : Nat) : (padded length n).all Char.isDigit := by
  rw [padded, List.all_append, all_isDigit_toDigits, Bool.and_true]
  refine List.all_eq_true.mpr fun c hc => ?_
  rw [List.eq_of_mem_replicate hc]
  decide

/-- A number with finitely many digits is written as a numeral that is read as it. -/
theorem parseRat_displayPositive {n k : Nat} {value : ℚ} (h : value = n / (10 ^ k : Nat)) :
    IsNumeral (displayPositive value).toList ∧ parseRat (displayPositive value) = some value := by
  obtain ⟨factor, hfactor⟩ := den_dvd_places h
  have hpos : 0 < 10 ^ places value := by positivity
  have hnum : ((value.num.toNat : Nat) : ℚ) = value.num := by
    have hnonneg : 0 ≤ value.num := Rat.num_nonneg.mpr (by rw [h]; positivity)
    exact_mod_cast Int.toNat_of_nonneg hnonneg
  have hquotient : Nat.pow 10 (places value) / value.den = factor := by
    rw [show Nat.pow 10 (places value) = value.den * factor from hfactor]
    exact Nat.mul_div_cancel_left _ value.den_pos
  have hvalue : ((value.num.toNat * factor : Nat) : ℚ) / (10 ^ places value : Nat) = value := by
    have hden : (value.den : ℚ) ≠ 0 := by exact_mod_cast value.den_ne_zero
    have hne : (factor : ℚ) ≠ 0 := by
      intro hzero
      have hzero' : factor = 0 := by exact_mod_cast hzero
      rw [hfactor, hzero', Nat.mul_zero] at hpos
      exact absurd hpos (lt_irrefl 0)
    rw [hfactor]
    push_cast
    rw [hnum, mul_div_mul_right _ _ hne, Rat.num_div_den]
  unfold displayPositive
  simp only [hquotient]
  generalize value.num.toNat * factor = scaled at hvalue
  by_cases hk : places value = 0
  · rw [if_pos hk, parseRat_toString]
    rw [hk] at hvalue
    exact ⟨isNumeral_toString scaled, by rw [← hvalue]; simp⟩
  · have hmod : scaled % Nat.pow 10 (places value) < 10 ^ places value := Nat.mod_lt _ hpos
    have hdigits := all_isDigit_toDigits (scaled / Nat.pow 10 (places value))
    have hplaces := all_isDigit_padded (places value) (scaled % Nat.pow 10 (places value))
    have hne : Nat.toDigits 10 (scaled / Nat.pow 10 (places value)) ++
        padded (places value) (scaled % Nat.pow 10 (places value)) ≠ [] :=
      fun hnil => toDigits_ne_nil _ (List.append_eq_nil_iff.mp hnil).1
    rw [if_neg hk, String.toList_ofList, parseRat_fraction hdigits hplaces hne]
    refine ⟨.fraction hdigits hplaces hne, congrArg some ?_⟩
    rw [Nat.ofDigitChars_append, Nat.ofDigitChars_ten_toDigits, Nat.ofDigitChars_eq_ofDigitChars_zero,
      ofDigitChars_padded, length_padded (Nat.pos_of_ne_zero hk) hmod,
      show 10 ^ places value * (scaled / Nat.pow 10 (places value)) + scaled % Nat.pow 10 (places value) = scaled from
        Nat.div_add_mod _ _]
    exact hvalue

theorem places_natCast (n : Nat) : places (n : ℚ) = 0 := by
  simp [places, List.range_succ]

theorem displayRat_natCast (n : Nat) : displayRat (n : ℚ) = toString n := by
  have hnonneg : ¬((n : ℚ) < 0) := not_lt.mpr (Nat.cast_nonneg n)
  rw [displayRat, if_neg hnonneg, displayPositive]
  simp [places_natCast]

theorem parseRat_displayRat {text : String} {value : ℚ} (hnumeral : IsNumeral text.toList)
    (h : parseRat text = some value) : IsNumeral (displayRat value).toList ∧ parseRat (displayRat value) = some value := by
  obtain ⟨n, k, hvalue⟩ := of_parseRat hnumeral h
  have hnonneg : ¬(value < 0) := not_lt.mpr (by rw [hvalue]; positivity)
  rw [displayRat, if_neg hnonneg]
  exact parseRat_displayPositive hvalue

instance : Double ℚ where
  magnitude := .finite
  parse := parseRat
  display := displayRat
  ofInt n := n
  neg x := -x
  add x y := x + y
  sub x y := x - y
  mul x y := x * y
  div x y := x / y
  sum values := values.foldr (· + ·) 0
  floor x := ⌊x⌋
  ceil x := ⌈x⌉
  round x := roundAway x
  abs x := |x|
  magnitude_round _ := rfl
  magnitude_ofInt n _ := by simp
  parse_dot := by decide +kernel
  magnitude_parse hnumeral h := by
    obtain ⟨n, k, hvalue⟩ := of_parseRat hnumeral h
    exact Or.inl ⟨_, by rw [hvalue]; positivity, rfl⟩
  parse_display hnumeral h _ := parseRat_displayRat hnumeral h
  display_whole := by
    rintro text x n - - hwhole
    rw [Magnitude.finite.injEq] at hwhole
    rw [hwhole, displayRat_natCast]
  parse_ofInt n _ := by rw [parseRat_toString, Int.cast_natCast]
  parse_floor _ _ _ := ⟨_, parseRat_toString _, rfl⟩
  parse_maxI64 := by
    refine ⟨_, parseRat_toString _, fun value hvalue => ?_⟩
    rw [← Magnitude.finite.inj hvalue]
    norm_num

theorem exact_rat : Exact ℚ where
  ofInt _ := rfl
  neg h := congrArg _ (congrArg _ (Magnitude.finite.inj h))
  add h h' := by
    cases h
    cases h'
    rfl
  sub h h' := by
    cases h
    cases h'
    rfl
  abs h := by
    cases h
    rfl

end Double
