import Mathlib.Data.String.Basic

/-! Identifiers, numbers, strings and results as the whole program uses them. -/

namespace ThunderForge

/-- A `Uuid`, by its 128 bits. -/
abbrev Uuid := BitVec 128

/-- An `f64`, by its bit pattern. -/
abbrev F64 := BitVec 64

/-- A session id, as the peers name each other. -/
abbrev Session := String

/-- `u64::saturating_add(1)`. -/
def saturatingSucc (seq : UInt64) : UInt64 := if seq = UInt64.ofNat (2 ^ 64 - 1) then seq else seq + 1

theorem saturatingSucc_toNat (seq : UInt64) : (saturatingSucc seq).toNat = min (seq.toNat + 1) (2 ^ 64 - 1) := by
  have hlt := seq.toNat_lt
  unfold saturatingSucc
  split
  · rename_i hmax
    rw [hmax]
    rfl
  · rename_i hmax
    have hne : seq.toNat ≠ 2 ^ 64 - 1 := fun heq => hmax (UInt64.toNat_inj.mp heq)
    rw [UInt64.toNat_add]
    show (seq.toNat + 1) % 2 ^ 64 = _
    omega

/-- `u64::saturating_sub` -/
def saturatingSub (left right : UInt64) : UInt64 := if right ≤ left then left - right else 0

theorem saturatingSub_toNat (left right : UInt64) :
    (saturatingSub left right).toNat = left.toNat - right.toNat := by
  unfold saturatingSub
  split
  · exact UInt64.toNat_sub_of_le left right (by assumption)
  · rename_i hle
    rw [UInt64.le_iff_toNat_le] at hle
    show 0 = left.toNat - right.toNat
    omega

instance Uuid.transOrd : Std.TransOrd Uuid := inferInstance

instance Uuid.lawfulBEq : LawfulBEq Uuid := inferInstance

instance Session.transOrd : Std.TransOrd Session := inferInstance

/-- `char::is_whitespace`: the Unicode property `White_Space`. -/
def isWhitespace (c : Char) : Bool :=
  (0x09 ≤ c.toNat && c.toNat ≤ 0x0d) || c.toNat = 0x20 || c.toNat = 0x85 || c.toNat = 0xa0 ||
    c.toNat = 0x1680 || (0x2000 ≤ c.toNat && c.toNat ≤ 0x200a) || c.toNat = 0x2028 ||
    c.toNat = 0x2029 || c.toNat = 0x202f || c.toNat = 0x205f || c.toNat = 0x3000

/-- `str::trim`, on the characters. -/
def trimChars (text : List Char) : List Char :=
  ((text.dropWhile isWhitespace).reverse.dropWhile isWhitespace).reverse

/-- `str::trim`. -/
def trim (text : String) : String := String.ofList (trimChars text.toList)

theorem except_bind_eq_ok {ε α β : Type} {x : Except ε α} {f : α → Except ε β} {b : β} :
    (x >>= f) = .ok b ↔ ∃ a, x = .ok a ∧ f a = .ok b := by
  cases x <;> simp [bind, Except.bind]

end ThunderForge
