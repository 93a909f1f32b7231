import Mathlib

/-! Numbers as hexadecimal digits of a fixed width, written and read back. -/

namespace HexText

/-- The low `width` digits of a number, most significant first. -/
def digits : Nat → Nat → List Char
  | 0, _ => []
  | width + 1, value => digits width (value / 16) ++ [Nat.digitChar (value % 16)]

/-- What a digit stands for. -/
def digitValue (c : Char) : Option Nat := (List.range 16).find? fun digit => Nat.digitChar digit = c

/-- The number that digits spell, most significant first. -/
def value (cs : List Char) : Option Nat := cs.foldlM (fun high c => (digitValue c).map (16 * high + ·)) 0

@[simp] theorem digits_length (width value : Nat) : (digits width value).length = width := by
  induction width generalizing value with
  | zero => rfl
  | succ width ih => rw [digits, List.length_append, ih, List.length_singleton]

theorem digitValue_digitChar {digit : Nat} (h : digit < 16) : digitValue (Nat.digitChar digit) = some digit := by
  have hall : ∀ digit : Fin 16, digitValue (Nat.digitChar digit) = some digit.val := by decide
  exact hall ⟨digit, h⟩

theorem value_digits (width number : Nat) : value (digits width number) = some (number % 16 ^ width) := by
  induction width generalizing number with
  | zero => simp [digits, value, Nat.mod_one]
  | succ width ih =>
      have hlow : number % 16 < 16 := Nat.mod_lt _ (by decide)
      have hhigh : (digits width (number / 16)).foldlM (fun high c => (digitValue c).map (16 * high + ·)) 0 =
          some (number / 16 % 16 ^ width) := ih (number / 16)
      rw [value, digits, List.foldlM_append, hhigh]
      show ((digitValue (Nat.digitChar (number % 16))).map (16 * (number / 16 % 16 ^ width) + ·)).bind some = _
      rw [digitValue_digitChar hlow, Option.map_some, Option.bind_some, pow_succ', Nat.mod_mul]
      congr 1
      omega

/-- A digit is none of the other characters. -/
theorem ne_of_mem_digits {c other : Char} {width number : Nat} (hc : c ∈ digits width number)
    (hother : digitValue other = none) : c ≠ other := by
  induction width generalizing number with
  | zero => exact absurd hc List.not_mem_nil
  | succ width ih =>
      rcases List.mem_append.mp hc with hc | hc
      · exact ih hc
      · rintro rfl
        rw [List.mem_singleton.mp hc, digitValue_digitChar (Nat.mod_lt _ (by decide))] at hother
        cases hother

end HexText
