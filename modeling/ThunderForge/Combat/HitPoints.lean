import Mathlib.Order.Lattice
import ThunderForge.Lib.Json

/-! Damage and healing, the arithmetic (`thunderforge-combat/src/hit_points.rs`), and the record it is read from and
written back to. -/

namespace ThunderForge.Combat

/-- An `i32`. -/
@[ext] structure I32 where
  val : ℤ
  lower : -2147483648 ≤ val
  upper : val ≤ 2147483647
  deriving DecidableEq

namespace I32

instance : LinearOrder I32 := LinearOrder.lift' val fun _ _ => I32.ext

instance : Zero I32 := ⟨⟨0, by decide, by decide⟩⟩

/-- `clamp(i32::MIN as i64, i32::MAX as i64) as i32` -/
def clamp (value : ℤ) : I32 where
  val := max (-2147483648) (min value 2147483647)
  lower := le_max_left _ _
  upper := max_le (by decide) (min_le_right _ _)

/-- A subtraction, unless it overflows. -/
def checkedSub (a b : I32) : Option I32 :=
  if h : -2147483648 ≤ a.val - b.val ∧ a.val - b.val ≤ 2147483647 then some ⟨a.val - b.val, h.1, h.2⟩ else none

def saturatingAdd (a b : I32) : I32 := clamp (a.val + b.val)

@[simp] theorem zero_val : (0 : I32).val = 0 := rfl

theorem le_iff {a b : I32} : a ≤ b ↔ a.val ≤ b.val := Iff.rfl

@[simp] theorem max_val (a b : I32) : (max a b).val = max a.val b.val := by
  rcases le_total a b with h | h
  · rw [max_eq_right h, max_eq_right (le_iff.mp h)]
  · rw [max_eq_left h, max_eq_left (le_iff.mp h)]

@[simp] theorem min_val (a b : I32) : (min a b).val = min a.val b.val := by
  rcases le_total a b with h | h
  · rw [min_eq_left h, min_eq_left (le_iff.mp h)]
  · rw [min_eq_right h, min_eq_right (le_iff.mp h)]

theorem checkedSub_eq_some {a b c : I32} : a.checkedSub b = some c ↔ a.val - b.val = c.val := by
  unfold checkedSub
  split_ifs with h
  · rw [Option.some_inj, I32.ext_iff]
  · refine iff_of_false (by simp) fun heq => h ?_
    rw [heq]
    exact ⟨c.lower, c.upper⟩

theorem saturatingAdd_val (a b : I32) :
    (a.saturatingAdd b).val = max (-2147483648) (min (a.val + b.val) 2147483647) := rfl

theorem clamp_val_self (a : I32) : clamp a.val = a := by
  ext
  have hlower := a.lower
  have hupper := a.upper
  unfold clamp
  dsimp only
  omega

end I32

/-- Which way a change goes. -/
inductive HitPointChangeKind where
  | damage
  | healing
  deriving DecidableEq

/-- A creature's hit points, as the pack declares them. -/
@[ext] structure HitPoints where
  current : I32
  max : I32
  temporary : I32
  deriving DecidableEq

/-- The arithmetic, unless an operation of it overflows. -/
def applyTo (before : HitPoints) (kind : HitPointChangeKind) (amount : I32) : Option HitPoints := do
  let amount := Max.max amount 0
  match kind with
  | .damage =>
    let temporary := Max.max before.temporary 0
    let absorbed := min temporary amount
    let rest ← amount.checkedSub absorbed
    let current ← before.current.checkedSub rest
    let left ← temporary.checkedSub absorbed
    return { current := Max.max current 0, max := before.max, temporary := left }
  | .healing =>
    return {
      current := if before.max ≤ before.current then before.current
        else min (before.current.saturatingAdd amount) before.max
      max := before.max
      temporary := before.temporary }

/-- Where a creature's hit points live, in a slot of its sheet. -/
structure SystemHitPoints where
  current : String
  max : String
  temporary : Option String

/-- `Value::as_i64` -/
def asI64 : Json → Option ℤ
  | .integer value => if -9223372036854775808 ≤ value ∧ value ≤ 9223372036854775807 then some value else none
  | _ => none

def readInt (slot : Json) (field : String) : Option I32 := ((slot.get? field).bind asI64).map I32.clamp

/-- A missing `current` reads as the maximum, and a missing maximum is not guessed at. -/
def readHitPoints (slot : Json) (declared : SystemHitPoints) : Except String HitPoints := do
  let max ← (readInt slot declared.max).elim (.error "That creature has no maximum hit points recorded") .ok
  return {
    current := (readInt slot declared.current).getD max
    max
    temporary := (declared.temporary.bind fun field => readInt slot field).getD 0 }

/-- `as_object().cloned().unwrap_or_default()` -/
def fieldsOf : Json → List (String × Json)
  | .object fields => fields
  | _ => []

/-- The declared fields written back, everything else in the slot left alone. -/
def writeHitPoints (slot : Json) (declared : SystemHitPoints) (value : HitPoints) : Json :=
  let out := Json.setField declared.current (.integer value.current.val) (fieldsOf slot)
  match declared.temporary with
  | some field =>
    if ((Json.object out).get? field).isSome ∨ value.temporary ≠ 0 then
      .object (Json.setField field (.integer value.temporary.val) out)
    else .object out
  | none => .object out

/-! What a change should leave, in numbers that do not run out. -/

/-- The current and the temporary hit points that are left. -/
def wanted (before : HitPoints) : HitPointChangeKind → ℤ → ℤ × ℤ
  | .damage, amount =>
    let temporary := Max.max before.temporary.val 0
    let absorbed := min temporary amount
    (Max.max (before.current.val - (amount - absorbed)) 0, temporary - absorbed)
  | .healing, amount =>
    (if before.max.val ≤ before.current.val then before.current.val
      else min (before.current.val + amount) before.max.val, before.temporary.val)

/-- Damage whose excess over the temporary hit points can be taken from the current ones. -/
def Fits (before : HitPoints) : HitPointChangeKind → ℤ → Prop
  | .damage, amount => -2147483648 ≤ before.current.val - (amount - min (Max.max before.temporary.val 0) amount)
  | .healing, _ => True

section change

variable {before : HitPoints} {kind : HitPointChangeKind} {amount : I32} (hamount : 0 ≤ amount.val)

include hamount

theorem applyTo_eq_some_iff {after : HitPoints} : applyTo before kind amount = some after ↔
    Fits before kind amount.val ∧ after.max = before.max ∧
      (after.current.val, after.temporary.val) = wanted before kind amount.val := by
  have hcurrent := before.current.lower
  have hcurrent' := before.current.upper
  have htemporary := before.temporary.upper
  have hamount' := amount.upper
  cases kind with
  | damage =>
      unfold applyTo Fits wanted
      dsimp only
      constructor
      · intro h
        obtain ⟨rest, hrest, h⟩ := Option.bind_eq_some_iff.mp h
        obtain ⟨current, hleft, h⟩ := Option.bind_eq_some_iff.mp h
        obtain ⟨left, htemporaryleft, h⟩ := Option.bind_eq_some_iff.mp h
        obtain rfl := Option.some_inj.mp h
        rw [I32.checkedSub_eq_some] at hrest hleft htemporaryleft
        simp only [I32.max_val, I32.min_val, I32.zero_val, max_eq_left hamount] at hrest hleft htemporaryleft
        have hlower := current.lower
        refine ⟨by omega, rfl, ?_⟩
        rw [I32.max_val, I32.zero_val, Prod.mk.injEq]
        dsimp only
        constructor <;> omega
      · rintro ⟨hfits, hmax, houtcome⟩
        obtain ⟨houtcurrent, houttemporary⟩ := Prod.mk.inj houtcome
        refine Option.bind_eq_some_iff.mpr ⟨⟨amount.val - min (Max.max before.temporary.val 0) amount.val, by omega,
          by omega⟩, ?_, ?_⟩
        · rw [I32.checkedSub_eq_some]
          simp only [I32.max_val, I32.min_val, I32.zero_val, max_eq_left hamount]
        refine Option.bind_eq_some_iff.mpr ⟨⟨before.current.val -
          (amount.val - min (Max.max before.temporary.val 0) amount.val), hfits, by omega⟩, ?_, ?_⟩
        · rw [I32.checkedSub_eq_some]
        refine Option.bind_eq_some_iff.mpr ⟨after.temporary, ?_, ?_⟩
        · rw [I32.checkedSub_eq_some]
          simp only [I32.max_val, I32.min_val, I32.zero_val, max_eq_left hamount]
          omega
        · refine congrArg some (HitPoints.ext ?_ hmax.symm rfl)
          ext
          rw [I32.max_val, I32.zero_val, houtcurrent]
  | healing =>
      unfold applyTo Fits wanted
      dsimp only
      rw [true_and]
      have hhealed : (if before.max ≤ before.current then before.current
          else min (before.current.saturatingAdd (Max.max amount 0)) before.max).val =
            if before.max.val ≤ before.current.val then before.current.val
            else min (before.current.val + amount.val) before.max.val := by
        have hmax := before.max.upper
        rw [apply_ite I32.val, I32.min_val, I32.saturatingAdd_val, I32.max_val, I32.zero_val, max_eq_left hamount]
        split_ifs with h h' h'
        · rfl
        · exact absurd (I32.le_iff.mp h) h'
        · exact absurd (I32.le_iff.mpr h') h
        · omega
      constructor
      · intro h
        obtain rfl := Option.some_inj.mp h
        exact ⟨rfl, Prod.ext hhealed rfl⟩
      · rintro ⟨hmax, houtcome⟩
        obtain ⟨houtcurrent, houttemporary⟩ := Prod.mk.inj houtcome
        refine congrArg some (HitPoints.ext (I32.ext ?_) hmax.symm (I32.ext houttemporary.symm))
        rw [hhealed, houtcurrent]

end change

/-! Records in a slot. -/

theorem isSome_of_read {slot : Json} {declared : SystemHitPoints} {before : HitPoints}
    (h : readHitPoints slot declared = .ok before) : readInt slot declared.max = some before.max := by
  unfold readHitPoints at h
  cases hmax : readInt slot declared.max with
  | none =>
      rw [hmax] at h
      exact nomatch h
  | some max =>
      rw [hmax] at h
      obtain rfl := Except.ok.inj h
      rfl

theorem object_of_readInt {slot : Json} {field : String} {value : I32} (h : readInt slot field = some value) :
    slot = .object (fieldsOf slot) := by
  cases slot with
  | object fields => rfl
  | null | bool _ | integer _ | float _ | string _ | array _ => exact nomatch h

theorem readInt_setField_self (field : String) (value : I32) (fields : List (String × Json)) :
    readInt (.object (Json.setField field (.integer value.val) fields)) field = some value := by
  have hlower := value.lower
  have hupper := value.upper
  unfold readInt
  rw [Json.get?_setField_self, Option.bind_some, asI64, if_pos (by omega), Option.map_some, I32.clamp_val_self]

theorem readInt_setField_of_ne {field field' : String} (hne : field' ≠ field) (value : Json)
    (fields : List (String × Json)) :
    readInt (.object (Json.setField field value fields)) field' = readInt (.object fields) field' := by
  unfold readInt
  rw [Json.get?_setField_of_ne hne]

/-- What is read of one of the declared fields after they are written. -/
theorem readInt_writeHitPoints {slot : Json} {declared : SystemHitPoints} {field : String}
    (htemporary : declared.temporary = some field) (after : HitPoints) (other : String) :
    (readInt (writeHitPoints slot declared after) other) =
      if other = field ∧ (field = declared.current ∨ ((Json.object (fieldsOf slot)).get? field).isSome ∨ after.temporary ≠ 0) then
        some after.temporary
      else if other = declared.current then some after.current
      else readInt (.object (fieldsOf slot)) other := by
  have hpresent : ((Json.object (Json.setField declared.current (.integer after.current.val) (fieldsOf slot))).get?
      field).isSome ↔ field = declared.current ∨ ((Json.object (fieldsOf slot)).get? field).isSome := by
    by_cases hsame : field = declared.current
    · rw [hsame, Json.get?_setField_self]
      simp
    · rw [Json.get?_setField_of_ne hsame]
      simp [hsame]
  have hcurrent : readInt (.object (Json.setField declared.current (.integer after.current.val) (fieldsOf slot))) other =
      if other = declared.current then some after.current else readInt (.object (fieldsOf slot)) other := by
    split_ifs with hother
    · rw [hother, readInt_setField_self]
    · exact readInt_setField_of_ne hother _ _
  unfold writeHitPoints
  rw [htemporary]
  dsimp only
  by_cases hwritten : field = declared.current ∨ ((Json.object (fieldsOf slot)).get? field).isSome ∨ after.temporary ≠ 0
  · have hcondition : ((Json.object (Json.setField declared.current (.integer after.current.val) (fieldsOf slot))).get?
        field).isSome ∨ after.temporary ≠ 0 := by
      rw [hpresent]
      tauto
    rw [if_pos hcondition]
    by_cases hother : other = field
    · rw [if_pos ⟨hother, hwritten⟩, hother, readInt_setField_self]
    · rw [if_neg fun h => hother h.1, readInt_setField_of_ne hother, hcurrent]
  · have hcondition : ¬(((Json.object (Json.setField declared.current (.integer after.current.val)
        (fieldsOf slot))).get? field).isSome ∨ after.temporary ≠ 0) := by
      rw [hpresent]
      tauto
    rw [if_neg hcondition, if_neg fun h => hwritten h.2, hcurrent]

/-- What is written is read again when no field is one of the others, or the two are left one value. -/
theorem readHitPoints_writeHitPoints {slot : Json} {declared : SystemHitPoints} {before after : HitPoints}
    (hread : readHitPoints slot declared = .ok before) (hmax : after.max = before.max) {field : String}
    (htemporary : declared.temporary = some field) :
    readHitPoints (writeHitPoints slot declared after) declared = .ok after ↔
      (declared.current = field → after.current = after.temporary) ∧
        (declared.max = field → after.temporary = before.max) ∧
        (declared.max = declared.current → after.current = before.max) := by
  have hreadmax := isSome_of_read hread
  have hslot := object_of_readInt hreadmax
  rw [hslot] at hreadmax
  have hpresent : ((Json.object (fieldsOf slot)).get? declared.max).isSome := by
    unfold readInt at hreadmax
    obtain ⟨_, hbind, -⟩ := Option.map_eq_some_iff.mp hreadmax
    obtain ⟨_, hget, -⟩ := Option.bind_eq_some_iff.mp hbind
    rw [hget, Option.isSome_some]
  have hmaxagain : readInt (writeHitPoints slot declared after) declared.max =
      some (if declared.max = field then after.temporary
        else if declared.max = declared.current then after.current else before.max) := by
    rw [readInt_writeHitPoints htemporary]
    by_cases hfield : declared.max = field
    · rw [if_pos ⟨hfield, .inr (.inl (hfield ▸ hpresent))⟩, if_pos hfield]
    · rw [if_neg fun h => hfield h.1, if_neg hfield]
      split_ifs
      · rfl
      · exact hreadmax
  have hcurrentagain : readInt (writeHitPoints slot declared after) declared.current =
      some (if declared.current = field then after.temporary else after.current) := by
    rw [readInt_writeHitPoints htemporary]
    by_cases hfield : declared.current = field
    · rw [if_pos ⟨hfield, .inl hfield.symm⟩, if_pos hfield]
    · rw [if_neg fun h => hfield h.1, if_neg hfield, if_pos rfl]
  have htemporaryagain : (readInt (writeHitPoints slot declared after) field).getD 0 = after.temporary := by
    rw [readInt_writeHitPoints htemporary]
    by_cases hwritten : field = declared.current ∨ ((Json.object (fieldsOf slot)).get? field).isSome ∨ after.temporary ≠ 0
    · rw [if_pos ⟨rfl, hwritten⟩, Option.getD_some]
    · have hzero : after.temporary = 0 := by tauto
      have hnone : (Json.object (fieldsOf slot)).get? field = none := by
        rw [← Option.not_isSome_iff_eq_none]
        tauto
      have hcurrent : field ≠ declared.current := by tauto
      rw [if_neg fun h => hwritten h.2, if_neg hcurrent, readInt, hnone, hzero]
      rfl
  unfold readHitPoints
  rw [hmaxagain, hcurrentagain, htemporary, Option.bind_some, htemporaryagain, Option.elim_some]
  have hagain (max : I32) : (Except.ok ⟨if declared.current = field then after.temporary else after.current, max,
      after.temporary⟩ : Except String HitPoints) = .ok after ↔
        (if declared.current = field then after.temporary else after.current) = after.current ∧ max = after.max ∧
          after.temporary = after.temporary := by
    rw [Except.ok.injEq, HitPoints.ext_iff]
  refine (hagain _).trans ?_
  constructor
  · rintro ⟨hcurrent, hmaximum, -⟩
    refine ⟨fun h => ?_, fun h => ?_, fun h => ?_⟩
    · rw [if_pos h] at hcurrent
      exact hcurrent.symm
    · rw [if_pos h] at hmaximum
      exact hmaximum.trans hmax
    · by_cases hfield : declared.max = field
      · rw [if_pos hfield] at hmaximum
        rw [if_pos (h ▸ hfield)] at hcurrent
        exact (hcurrent.symm.trans hmaximum).trans hmax
      · rw [if_neg hfield, if_pos h] at hmaximum
        exact hmaximum.trans hmax
  · rintro ⟨hcurrent, hmaximum, hboth⟩
    refine ⟨?_, ?_, rfl⟩
    · split_ifs with h
      · exact (hcurrent h).symm
      · rfl
    · split_ifs with h h'
      · exact (hmaximum h).trans hmax.symm
      · exact (hboth h').trans hmax.symm
      · exact hmax.symm

/-! The arithmetic on a sheet's record, for every change of it. -/

/-- Sound arithmetic of a record that a slot holds. -/
structure SoundArithmetic (slot : Json) (declared : SystemHitPoints) (before : HitPoints) : Prop where
  /-- No operation overflows. -/
  fits : ∀ kind (amount : I32), 0 ≤ amount.val → ∃ after, applyTo before kind amount = some after
  damageLowers : ∀ {amount : I32} {after}, 0 ≤ amount.val → applyTo before .damage amount = some after →
    after.current.val ≤ max before.current.val 0 ∧ after.temporary.val ≤ max before.temporary.val 0
  /-- Damage takes the whole amount, of what there is, and temporary hit points first. -/
  damageTakes : ∀ {amount : I32} {after}, 0 ≤ amount.val → applyTo before .damage amount = some after →
    0 ≤ before.current.val → 0 ≤ before.temporary.val →
      before.temporary.val - after.temporary.val + (before.current.val - after.current.val) =
          min amount.val (before.temporary.val + before.current.val) ∧
        before.temporary.val - after.temporary.val = min amount.val before.temporary.val
  damageAdds : ∀ {first second sum : I32}, 0 ≤ first.val → 0 ≤ second.val → sum.val = first.val + second.val →
    ((applyTo before .damage first).bind fun between => applyTo between .damage second) = applyTo before .damage sum
  healingRaises : ∀ {amount : I32} {after}, 0 ≤ amount.val → applyTo before .healing amount = some after →
    before.current.val ≤ after.current.val ∧ after.current.val ≤ max before.current.val before.max.val ∧
      after.temporary = before.temporary
  roundTrip : ∀ {field}, declared.temporary = some field → ∀ {kind} {amount : I32} {after}, 0 ≤ amount.val →
    applyTo before kind amount = some after →
      readHitPoints (writeHitPoints slot declared after) declared = .ok after

/-- The current hit points and the temporary ones are not below minus one together, and no two of the declared fields
are one, unless every change leaves both at one value. -/
structure Roomy (declared : SystemHitPoints) (before : HitPoints) : Prop where
  room : -1 ≤ before.current.val + max before.temporary.val 0
  separate : ∀ {field}, declared.temporary = some field → ∀ kind (amount : I32), 0 ≤ amount.val →
    (declared.current = field → (wanted before kind amount.val).1 = (wanted before kind amount.val).2) ∧
      (declared.max = field → (wanted before kind amount.val).2 = before.max.val) ∧
      (declared.max = declared.current → (wanted before kind amount.val).1 = before.max.val)

section record

variable {before : HitPoints}

/-- The largest damage is the one to make room for. -/
theorem fits_iff : (∀ kind (amount : I32), 0 ≤ amount.val → Fits before kind amount.val) ↔
    -1 ≤ before.current.val + max before.temporary.val 0 := by
  have htemporary := before.temporary.upper
  constructor
  · intro h
    have hlargest := h .damage ⟨2147483647, by decide, by decide⟩ (by decide)
    unfold Fits at hlargest
    dsimp only at hlargest
    omega
  · intro h kind amount hamount
    have hupper := amount.upper
    cases kind with
    | damage =>
        unfold Fits
        omega
    | healing => trivial

theorem exists_applyTo_iff {kind : HitPointChangeKind} {amount : I32} (hamount : 0 ≤ amount.val) :
    (∃ after, applyTo before kind amount = some after) ↔ Fits before kind amount.val := by
  constructor
  · rintro ⟨after, h⟩
    exact ((applyTo_eq_some_iff hamount).mp h).1
  · intro hfits
    obtain ⟨hbounds, hbounds'⟩ : (-2147483648 ≤ (wanted before kind amount.val).1 ∧
        (wanted before kind amount.val).1 ≤ 2147483647) ∧
          -2147483648 ≤ (wanted before kind amount.val).2 ∧ (wanted before kind amount.val).2 ≤ 2147483647 := by
      have hcurrent := before.current.lower
      have hcurrent' := before.current.upper
      have hmax := before.max.lower
      have hmax' := before.max.upper
      have htemporary := before.temporary.lower
      have htemporary' := before.temporary.upper
      cases kind <;> unfold wanted <;> dsimp only <;> omega
    refine ⟨⟨⟨_, hbounds.1, hbounds.2⟩, before.max, ⟨_, hbounds'.1, hbounds'.2⟩⟩, ?_⟩
    exact (applyTo_eq_some_iff hamount).mpr ⟨hfits, rfl, rfl⟩

/-- What a change leaves, when nothing overflows. -/
theorem wanted_of_applyTo {kind : HitPointChangeKind} {amount : I32} {after : HitPoints} (hamount : 0 ≤ amount.val)
    (h : applyTo before kind amount = some after) :
    after.max = before.max ∧ after.current.val = (wanted before kind amount.val).1 ∧
      after.temporary.val = (wanted before kind amount.val).2 := by
  obtain ⟨-, hmax, houtcome⟩ := (applyTo_eq_some_iff hamount).mp h
  exact ⟨hmax, congrArg Prod.fst houtcome, congrArg Prod.snd houtcome⟩

theorem damage_lowers {amount : I32} {after : HitPoints} (hamount : 0 ≤ amount.val)
    (h : applyTo before .damage amount = some after) :
    after.current.val ≤ max before.current.val 0 ∧ after.temporary.val ≤ max before.temporary.val 0 := by
  obtain ⟨-, hcurrent, htemporary⟩ := wanted_of_applyTo hamount h
  rw [hcurrent, htemporary]
  unfold wanted
  dsimp only
  omega

theorem damage_takes {amount : I32} {after : HitPoints} (hamount : 0 ≤ amount.val)
    (h : applyTo before .damage amount = some after) (hcurrent : 0 ≤ before.current.val)
    (htemporary : 0 ≤ before.temporary.val) :
    before.temporary.val - after.temporary.val + (before.current.val - after.current.val) =
        min amount.val (before.temporary.val + before.current.val) ∧
      before.temporary.val - after.temporary.val = min amount.val before.temporary.val := by
  obtain ⟨-, hleft, htemporaryleft⟩ := wanted_of_applyTo hamount h
  rw [hleft, htemporaryleft]
  unfold wanted
  dsimp only
  omega

/-- One damage after another is their sum, once both can be taken. -/
theorem damage_adds (hroom : -1 ≤ before.current.val + max before.temporary.val 0) {first second sum : I32}
    (hfirst : 0 ≤ first.val) (hsecond : 0 ≤ second.val) (hsum : sum.val = first.val + second.val) :
    ((applyTo before .damage first).bind fun between => applyTo between .damage second) =
      applyTo before .damage sum := by
  have hfits := fits_iff.mpr hroom
  have hsumamount : 0 ≤ sum.val := by omega
  obtain ⟨between, hbetween⟩ := (exists_applyTo_iff hfirst).mpr (hfits .damage first hfirst)
  obtain ⟨after, hafter⟩ := (exists_applyTo_iff hsumamount).mpr (hfits .damage sum hsumamount)
  obtain ⟨hbetweenmax, hbetweencurrent, hbetweentemporary⟩ := wanted_of_applyTo hfirst hbetween
  obtain ⟨haftermax, haftercurrent, haftertemporary⟩ := wanted_of_applyTo hsumamount hafter
  have hupper := second.upper
  unfold wanted at hbetweencurrent hbetweentemporary haftercurrent haftertemporary
  dsimp only at hbetweencurrent hbetweentemporary haftercurrent haftertemporary
  rw [hbetween, hafter, Option.bind_some]
  refine (applyTo_eq_some_iff hsecond).mpr ⟨?_, haftermax.trans hbetweenmax.symm, ?_⟩
  · unfold Fits
    omega
  · unfold wanted
    dsimp only
    rw [Prod.mk.injEq]
    constructor <;> omega

theorem healing_raises {amount : I32} {after : HitPoints} (hamount : 0 ≤ amount.val)
    (h : applyTo before .healing amount = some after) :
    before.current.val ≤ after.current.val ∧ after.current.val ≤ max before.current.val before.max.val ∧
      after.temporary = before.temporary := by
  obtain ⟨-, hcurrent, htemporary⟩ := wanted_of_applyTo hamount h
  refine ⟨?_, ?_, I32.ext htemporary⟩ <;> rw [hcurrent] <;> unfold wanted <;> dsimp only <;> omega

end record

/-- A record's arithmetic is sound when there is room for the largest damage and the declared fields are different. -/
theorem hitPoints_sound_iff {slot : Json} {declared : SystemHitPoints} {before : HitPoints}
    (hread : readHitPoints slot declared = .ok before) :
    SoundArithmetic slot declared before ↔ Roomy declared before := by
  -- Writing and reading again, in the terms of what a change should leave.
  have hround {field : String} (htemporary : declared.temporary = some field) {kind : HitPointChangeKind} {amount : I32}
      (hamount : 0 ≤ amount.val) {after : HitPoints} (hafter : applyTo before kind amount = some after) :
      readHitPoints (writeHitPoints slot declared after) declared = .ok after ↔
        (declared.current = field → (wanted before kind amount.val).1 = (wanted before kind amount.val).2) ∧
          (declared.max = field → (wanted before kind amount.val).2 = before.max.val) ∧
          (declared.max = declared.current → (wanted before kind amount.val).1 = before.max.val) := by
    obtain ⟨hmax, hcurrent, htemporaryleft⟩ := wanted_of_applyTo hamount hafter
    rw [readHitPoints_writeHitPoints hread hmax htemporary, ← hcurrent, ← htemporaryleft, I32.ext_iff, I32.ext_iff,
      I32.ext_iff]
  constructor
  · intro h
    have hroom : -1 ≤ before.current.val + max before.temporary.val 0 :=
      fits_iff.mp fun kind amount hamount => (exists_applyTo_iff hamount).mp (h.fits kind amount hamount)
    refine ⟨hroom, fun htemporary kind amount hamount => ?_⟩
    obtain ⟨after, hafter⟩ := h.fits kind amount hamount
    exact (hround htemporary hamount hafter).mp (h.roundTrip htemporary hamount hafter)
  · rintro ⟨hroom, hseparate⟩
    have hfits := fits_iff.mpr hroom
    refine ⟨fun kind amount hamount => (exists_applyTo_iff hamount).mpr (hfits kind amount hamount), damage_lowers,
      damage_takes, damage_adds hroom, healing_raises, fun htemporary kind amount after hamount hafter => ?_⟩
    exact (hround htemporary hamount hafter).mpr (hseparate htemporary kind amount hamount)

/-! A sheet of one system. -/

def sheetFields : SystemHitPoints := ⟨"current_hp", "max_hp", some "temporary_hp"⟩

/-- A sheet with a current value and a maximum of ten. -/
def sheet (current : ℤ) : Json := .object [("current_hp", .integer current), ("max_hp", .integer 10)]

theorem healthySheet_sound :
    SoundArithmetic (sheet 7) sheetFields ⟨I32.clamp 7, I32.clamp 10, 0⟩ :=
  (hitPoints_sound_iff (by rfl)).mpr ⟨by decide, fun htemporary kind amount hamount => by
    obtain rfl := Option.some_inj.mp htemporary
    exact ⟨fun h => absurd h (by decide), fun h => absurd h (by decide), fun h => absurd h (by decide)⟩⟩

/-- The least current value there is, which damage of one does not fit under. -/
theorem lowestCurrent_overflows : readHitPoints (sheet (-2147483648)) sheetFields =
    .ok ⟨I32.clamp (-2147483648), I32.clamp 10, 0⟩ ∧
      ¬SoundArithmetic (sheet (-2147483648)) sheetFields ⟨I32.clamp (-2147483648), I32.clamp 10, 0⟩ := by
  refine ⟨by rfl, fun h => ?_⟩
  obtain ⟨after, hafter⟩ := h.fits .damage (I32.clamp 1) (by decide)
  have hnone : applyTo ⟨I32.clamp (-2147483648), I32.clamp 10, 0⟩ .damage (I32.clamp 1) = none := by decide
  exact nomatch hnone.symm.trans hafter

end ThunderForge.Combat
