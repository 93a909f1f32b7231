import Mathlib.Data.String.Basic

/-! JSON values, with decidable equality. An object lists its fields in key order, as a sorted map writes
them. -/

inductive Json where
  | null
  | bool (value : Bool)
  | integer (value : Int)
  | float (bits : BitVec 64)
  | string (text : String)
  | array (items : List Json)
  | object (fields : List (String × Json))

namespace Json

mutual

def decEq : (left right : Json) → Decidable (left = right)
  | null, null => isTrue rfl
  | bool left, bool right => decidable_of_iff (left = right) (by simp)
  | integer left, integer right => decidable_of_iff (left = right) (by simp)
  | float left, float right => decidable_of_iff (left = right) (by simp)
  | string left, string right => decidable_of_iff (left = right) (by simp)
  | array left, array right =>
    have := decEqItems left right
    decidable_of_iff (left = right) (by simp)
  | object left, object right =>
    have := decEqFields left right
    decidable_of_iff (left = right) (by simp)
  | null, bool _ | null, integer _ | null, float _ | null, string _ | null, array _ | null, object _
  | bool _, null | bool _, integer _ | bool _, float _ | bool _, string _ | bool _, array _
  | bool _, object _ | integer _, null | integer _, bool _ | integer _, float _ | integer _, string _
  | integer _, array _ | integer _, object _ | float _, null | float _, bool _ | float _, integer _
  | float _, string _ | float _, array _ | float _, object _ | string _, null | string _, bool _
  | string _, integer _ | string _, float _ | string _, array _ | string _, object _ | array _, null
  | array _, bool _ | array _, integer _ | array _, float _ | array _, string _ | array _, object _
  | object _, null | object _, bool _ | object _, integer _ | object _, float _ | object _, string _
  | object _, array _ => isFalse (by simp)

def decEqItems : (left right : List Json) → Decidable (left = right)
  | [], [] => isTrue rfl
  | [], _ :: _ | _ :: _, [] => isFalse (by simp)
  | left :: lefts, right :: rights =>
    have := decEq left right
    have := decEqItems lefts rights
    decidable_of_iff (left = right ∧ lefts = rights) (by simp)

def decEqFields : (left right : List (String × Json)) → Decidable (left = right)
  | [], [] => isTrue rfl
  | [], _ :: _ | _ :: _, [] => isFalse (by simp)
  | (leftKey, left) :: lefts, (rightKey, right) :: rights =>
    have := decEq left right
    have := decEqFields lefts rights
    decidable_of_iff ((leftKey = rightKey ∧ left = right) ∧ lefts = rights) (by simp)

end

instance : DecidableEq Json := decEq

/-- A field of an object. -/
def get? (key : String) : Json → Option Json
  | object fields => (fields.find? fun field => field.1 = key).map (·.2)
  | null | bool _ | integer _ | float _ | string _ | array _ => none

/-- The fields with one of them set. -/
def setField (key : String) (value : Json) : List (String × Json) → List (String × Json)
  | [] => [(key, value)]
  | field :: fields =>
    if field.1 = key then (key, value) :: fields
    else if key < field.1 then (key, value) :: field :: fields
    else field :: setField key value fields

theorem get?_setField_self (key : String) (value : Json) (fields : List (String × Json)) :
    (object (setField key value fields)).get? key = some value := by
  induction fields with
  | nil => simp [setField, get?]
  | cons field fields ih =>
      unfold setField
      split_ifs with heq hlt
      · simp [get?]
      · simp [get?]
      · simpa [get?, heq] using ih

theorem get?_setField_of_ne {key key' : String} (hne : key' ≠ key) (value : Json) (fields : List (String × Json)) :
    (object (setField key value fields)).get? key' = (object fields).get? key' := by
  induction fields with
  | nil => simp [setField, get?, hne.symm]
  | cons field fields ih =>
      unfold setField
      split_ifs with heq hlt
      · simp [get?, heq, hne.symm]
      · simp [get?, hne.symm]
      · by_cases hfield : field.1 = key'
        · simp [get?, hfield]
        · simpa [get?, hfield] using ih

end Json
