import Mathlib.Data.List.Induction
import Mathlib.Data.Nat.ModEq
import Mathlib.Tactic.Ring
import Mathlib.Tactic.NormNum

/-! Big-endian byte strings of a fixed width: writing a number, reading one back, and taking a
number off the front of a longer string. -/

namespace BigEndian

/-- A property of a byte that each of the 256 values has. -/
theorem forall_byte {P : UInt8 → Prop} (h : ∀ n : Fin 256, P (UInt8.ofFin n)) (byte : UInt8) : P byte := by
  rw [← UInt8.ofFin_toFin byte]
  exact h byte.toFin

/-- The low `width` bytes of `value`, most significant first. -/
def encode : Nat → Nat → List UInt8
  | 0, _ => []
  | width + 1, value => encode width (value / 256) ++ [UInt8.ofNat (value % 256)]

/-- The number a byte string spells, most significant byte first. -/
def decode (bytes : List UInt8) : Nat := bytes.foldl (fun value byte => value * 256 + byte.toNat) 0

@[simp] theorem encode_length (width value : Nat) : (encode width value).length = width := by
  induction width generalizing value with
  | zero => rfl
  | succ width ih => simp [encode, ih]

theorem decode_concat (bytes : List UInt8) (byte : UInt8) :
    decode (bytes ++ [byte]) = decode bytes * 256 + byte.toNat := by
  simp [decode]

theorem decode_encode (width value : Nat) : decode (encode width value) = value % 256 ^ width := by
  induction width generalizing value with
  | zero => simp [encode, decode, Nat.mod_one]
  | succ width ih =>
      rw [encode, decode_concat, ih, pow_succ', Nat.mod_mul, UInt8.toNat_ofNat',
        Nat.mod_mod_of_dvd _ (by norm_num)]
      ring

theorem decode_encode_of_lt {width value : Nat} (h : value < 256 ^ width) :
    decode (encode width value) = value := by
  rw [decode_encode, Nat.mod_eq_of_lt h]

theorem encode_decode (bytes : List UInt8) : encode bytes.length (decode bytes) = bytes := by
  induction bytes using List.reverseRecOn with
  | nil => rfl
  | append_singleton bytes byte ih =>
      have hbyte : byte.toNat < 256 := byte.toNat_lt
      have hhigh : (decode bytes * 256 + byte.toNat) / 256 = decode bytes := by omega
      have hlow : (decode bytes * 256 + byte.toNat) % 256 = byte.toNat := by omega
      rw [List.length_append, List.length_singleton, encode, decode_concat, hhigh, hlow, ih,
        UInt8.ofNat_toNat]

theorem decode_lt (bytes : List UInt8) : decode bytes < 256 ^ bytes.length := by
  induction bytes using List.reverseRecOn with
  | nil => simp [decode]
  | append_singleton bytes byte ih =>
      have hbyte : byte.toNat < 256 := byte.toNat_lt
      rw [decode_concat, List.length_append, List.length_singleton, pow_succ]
      omega

/-- Two strings that begin with numbers of one width. -/
theorem encode_append_inj {width value value' : Nat} {rest rest' : List UInt8} (h : value < 256 ^ width)
    (h' : value' < 256 ^ width) (heq : encode width value ++ rest = encode width value' ++ rest') :
    value = value' ∧ rest = rest' := by
  obtain ⟨hnumber, hrest⟩ := List.append_inj heq (by rw [encode_length, encode_length])
  refine ⟨?_, hrest⟩
  rw [← decode_encode_of_lt h, hnumber, decode_encode_of_lt h']

/-- Two strings that begin with the bits of a bit vector of whole bytes. -/
theorem encode_bits_append_inj {width bits : Nat} {value value' : BitVec bits} {rest rest' : List UInt8}
    (hbits : 2 ^ bits = 256 ^ width) (heq : encode width value.toNat ++ rest = encode width value'.toNat ++ rest') :
    value = value' ∧ rest = rest' := by
  have hlt (value : BitVec bits) : value.toNat < 256 ^ width := value.isLt.trans_eq hbits
  obtain ⟨hvalue, hrest⟩ := encode_append_inj (hlt value) (hlt value') heq
  exact ⟨BitVec.eq_of_toNat_eq hvalue, hrest⟩

/-- Strings of records, each of one width and each told by its bytes. -/
theorem flatMap_injective {α : Type*} {record : α → List UInt8} {width : Nat} (hpos : 0 < width)
    (hlength : ∀ a, (record a).length = width) (hinj : Function.Injective record) :
    Function.Injective fun xs : List α => xs.flatMap record := by
  intro xs
  induction xs with
  | nil =>
      intro ys h
      cases ys with
      | nil => rfl
      | cons y ys =>
          have hempty := congrArg List.length h
          simp only [List.flatMap_nil, List.flatMap_cons, List.length_append, List.length_nil, hlength] at hempty
          omega
  | cons x xs ih =>
      intro ys h
      cases ys with
      | nil =>
          have hempty := congrArg List.length h
          simp only [List.flatMap_nil, List.flatMap_cons, List.length_append, List.length_nil, hlength] at hempty
          omega
      | cons y ys =>
          simp only [List.flatMap_cons] at h
          obtain ⟨hfirst, hrest⟩ := List.append_inj h (by rw [hlength, hlength])
          rw [hinj hfirst, ih hrest]

/-- Takes a number of `width` bytes off the front, or nothing when fewer bytes are left. -/
def take (width : Nat) (bytes : List UInt8) : Option (Nat × List UInt8) :=
  if bytes.length < width then none
  else some (decode (bytes.take width), bytes.drop width)

theorem take_encode {width value : Nat} (h : value < 256 ^ width) (rest : List UInt8) :
    take width (encode width value ++ rest) = some (value, rest) := by
  have hlength := encode_length width value
  rw [take, if_neg (by simp), List.take_left' hlength, List.drop_left' hlength,
    decode_encode_of_lt h]

/-- What was taken off the front, written back, is the string it was taken from. -/
theorem take_eq_some {width value : Nat} {bytes rest : List UInt8}
    (h : take width bytes = some (value, rest)) :
    bytes = encode width value ++ rest ∧ value < 256 ^ width := by
  unfold take at h
  split_ifs at h with hshort
  simp only [Option.some.injEq, Prod.mk.injEq] at h
  obtain ⟨rfl, rfl⟩ := h
  have hlength : (bytes.take width).length = width := by
    rw [List.length_take]
    omega
  have hback := encode_decode (bytes.take width)
  rw [hlength] at hback
  constructor
  · rw [hback, List.take_append_drop]
  · simpa only [hlength] using decode_lt (bytes.take width)

end BigEndian
