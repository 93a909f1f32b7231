import ThunderForge.Lib.JsonTree

/-! Writing into a JSON value again what was written into it: nothing changes. -/

namespace Json

section padSet

variable {index index' : Nat} {value value' : Json} {items : List Json}

/-- A list with an element set, made long enough for it. -/
def padSet (index : Nat) (value : Json) (items : List Json) : List Json :=
  (items ++ List.replicate (index + 1 - items.length) null).set index value

theorem getElem?_padSet (index index' : Nat) (value : Json) (items : List Json) :
    (padSet index value items)[index']? =
      if index' = index then some value else if index' < index then some (items[index']?.getD null)
      else items[index']? := by
  have hlength : (items ++ List.replicate (index + 1 - items.length) null).length = max items.length (index + 1) := by
    rw [List.length_append, List.length_replicate]
    omega
  rw [padSet, List.getElem?_set, hlength]
  split_ifs with hsame _ _ hbelow
  all_goals try omega
  · rfl
  · by_cases hhas : index' < items.length
    · rw [List.getElem?_append_left hhas, List.getElem?_eq_getElem hhas, Option.getD_some]
    · rw [List.getElem?_append_right (not_lt.mp hhas), List.getElem?_replicate, if_pos (by omega),
        List.getElem?_eq_none (not_lt.mp hhas), Option.getD_none]
  · by_cases hhas : index' < items.length
    · exact List.getElem?_append_left hhas
    · rw [List.getElem?_append_right (not_lt.mp hhas), List.getElem?_replicate, if_neg (by omega),
        List.getElem?_eq_none (not_lt.mp hhas)]

theorem padSet_padSet (index : Nat) (value value' : Json) (items : List Json) :
    padSet index value (padSet index value' items) = padSet index value items := by
  apply List.ext_getElem?
  intro i
  simp only [getElem?_padSet]
  split_ifs <;> rfl

theorem padSet_comm (hne : index ≠ index') (value value' : Json) (items : List Json) :
    padSet index value (padSet index' value' items) = padSet index' value' (padSet index value items) := by
  apply List.ext_getElem?
  intro i
  simp only [getElem?_padSet]
  split_ifs
  all_goals first
    | rfl
    | omega

end padSet

section setField

variable {key key' : String} {field : String × Json}

theorem setField_cons_of_eq (h : field.1 = key) (value : Json) (fields : List (String × Json)) :
    setField key value (field :: fields) = (key, value) :: fields :=
  if_pos h

theorem setField_cons_of_lt (h : key < field.1) (value : Json) (fields : List (String × Json)) :
    setField key value (field :: fields) = (key, value) :: field :: fields := by
  rw [setField, if_neg h.ne', if_pos h]

theorem setField_cons_of_gt (h : field.1 < key) (value : Json) (fields : List (String × Json)) :
    setField key value (field :: fields) = field :: setField key value fields := by
  rw [setField, if_neg h.ne, if_neg h.asymm]

theorem setField_setField (key : String) (value value' : Json) (fields : List (String × Json)) :
    setField key value (setField key value' fields) = setField key value fields := by
  induction fields with
  | nil => exact setField_cons_of_eq rfl value []
  | cons field fields ih =>
      rcases lt_trichotomy field.1 key with hbefore | hsame | hafter
      · rw [setField_cons_of_gt hbefore, setField_cons_of_gt hbefore, setField_cons_of_gt hbefore, ih]
      · rw [setField_cons_of_eq hsame, setField_cons_of_eq hsame]
        exact setField_cons_of_eq rfl value fields
      · rw [setField_cons_of_lt hafter, setField_cons_of_lt hafter]
        exact setField_cons_of_eq rfl value (field :: fields)

theorem setField_comm_of_lt (hlt : key < key') (value value' : Json) (fields : List (String × Json)) :
    setField key value (setField key' value' fields) = setField key' value' (setField key value fields) := by
  induction fields with
  | nil => exact (setField_cons_of_lt hlt value []).trans (setField_cons_of_gt hlt value' []).symm
  | cons field fields ih =>
      rcases lt_trichotomy field.1 key with hbefore | hsame | hfirst
      · have hbefore' := hbefore.trans hlt
        rw [setField_cons_of_gt hbefore', setField_cons_of_gt hbefore, setField_cons_of_gt hbefore,
          setField_cons_of_gt hbefore', ih]
      · rw [setField_cons_of_gt (hsame.trans_lt hlt), setField_cons_of_eq hsame, setField_cons_of_eq hsame]
        exact (setField_cons_of_gt hlt value' fields).symm
      · have hafter : setField key' value' (setField key value (field :: fields)) =
            (key, value) :: setField key' value' (field :: fields) := by
          rw [setField_cons_of_lt hfirst]
          exact setField_cons_of_gt hlt value' (field :: fields)
        rw [hafter]
        rcases lt_trichotomy field.1 key' with hbefore' | hsame' | hafter'
        · rw [setField_cons_of_gt hbefore', setField_cons_of_lt hfirst]
        · rw [setField_cons_of_eq hsame']
          exact setField_cons_of_lt (show key < (key', value').1 from hlt) value fields
        · rw [setField_cons_of_lt hafter']
          exact setField_cons_of_lt (show key < (key', value').1 from hlt) value (field :: fields)

theorem setField_comm (hne : key ≠ key') (value value' : Json) (fields : List (String × Json)) :
    setField key value (setField key' value' fields) = setField key' value' (setField key value fields) := by
  rcases lt_or_gt_of_ne hne with hlt | hlt
  · exact setField_comm_of_lt hlt value value' fields
  · exact (setField_comm_of_lt hlt value' value fields).symm

end setField

/-! ### One step -/

/-- A value with another just below it. -/
def put : Step → Json → Json → Json
  | .key key, node, value => object (setField key value node.entries)
  | .index index, node, value => array (padSet index value node.elements)

variable {step step' : Step} {place place' : List Step} {node left right value : Json}

theorem child_put (step : Step) (node value : Json) : (put step node value).child step = some value := by
  cases step with
  | key key => exact get?_setField_self ..
  | index index =>
      show (padSet index value node.elements)[index]? = some value
      rw [getElem?_padSet, if_pos rfl]

theorem write_cons (step : Step) (place : List Step) (node value : Json) :
    write (step :: place) node value = put step node (write place ((node.child step).getD null) value) := by
  have hchild := child_write step place node value
  cases step with
  | key key => rfl
  | index index =>
      have hput : write (.index index :: place) node value = put (.index index) node _ := rfl
      rw [hput, child_put] at hchild
      rw [hput, Option.some.inj hchild]

theorem get?_entries (key : String) (node : Json) : (object node.entries).get? key = node.get? key := by
  cases node <;> rfl

/-- What is just below elsewhere is read as before. -/
theorem child_put_of_ne (hne : step ≠ step') (hkind : step.isKey = step'.isKey) (node value : Json) :
    ((put step node value).child step').getD null = (node.child step').getD null := by
  cases step with
  | key key =>
      cases step' with
      | index => exact nomatch hkind
      | key key' =>
          have hkey : key' ≠ key := fun heq => hne (by rw [heq])
          show ((object _).get? key').getD null = (node.get? key').getD null
          rw [get?_setField_of_ne hkey, get?_entries]
  | index index =>
      cases step' with
      | key => exact nomatch hkind
      | index index' =>
          have hindex : index' ≠ index := fun heq => hne (by rw [heq])
          show ((padSet index value node.elements)[index']?).getD null = _
          rw [child_index, getElem?_padSet, if_neg hindex]
          split_ifs <;> rfl

theorem child_put_of_kind (hkind : step.isKey ≠ step'.isKey) (node value : Json) :
    (put step node value).child step' = none := by
  cases step <;> cases step' <;> first | rfl | exact absurd rfl hkind

theorem put_put (step : Step) (node value value' : Json) : put step (put step node value') value = put step node value := by
  cases step with
  | key key => exact congrArg object (setField_setField key value value' node.entries)
  | index index => exact congrArg array (padSet_padSet index value value' node.elements)

theorem put_comm (hne : step ≠ step') (hkind : step.isKey = step'.isKey) (node value value' : Json) :
    put step (put step' node value') value = put step' (put step node value) value' := by
  cases step with
  | key key =>
      cases step' with
      | index => exact nomatch hkind
      | key key' => exact congrArg object (setField_comm (fun heq => hne (by rw [heq])) value value' node.entries)
  | index index =>
      cases step' with
      | key => exact nomatch hkind
      | index index' => exact congrArg array (padSet_comm (fun heq => hne (by rw [heq])) value value' node.elements)

/-- What is put where the value is of another kind replaces it. -/
theorem put_of_kind (hkind : step.isKey ≠ step'.isKey) (left right under under' value : Json) :
    put step (put step' left under) value = put step (put step' right under') value := by
  cases step <;> cases step' <;> first | rfl | exact absurd rfl hkind

/-! ### One write, and several -/

theorem write_write (place : List Step) (node value : Json) :
    write place (write place node value) value = write place node value := by
  induction place generalizing node with
  | nil => rfl
  | cons step place ih =>
      rw [write_cons, write_cons, child_put, Option.getD_some, ih, put_put]

/-- Two values that one write makes the same are made the same by it after any other write too. -/
theorem write_same_after (h : write place left value = write place right value) (place' : List Step) (value' : Json) :
    write place (write place' left value') value = write place (write place' right value') value := by
  induction place generalizing place' left right with
  | nil => rfl
  | cons step place ih =>
      cases place' with
      | nil => rfl
      | cons step' place' =>
          have hbelow : write place ((left.child step).getD null) value = write place ((right.child step).getD null) value := by
            have hchild := congrArg (child step) h
            rw [child_write, child_write] at hchild
            exact Option.some.inj hchild
          rw [write_cons step place left, write_cons step place right, hbelow] at h
          rw [write_cons step, write_cons step, write_cons step', write_cons step' place' right]
          by_cases hsame : step = step'
          · subst hsame
            rw [child_put, child_put, Option.getD_some, Option.getD_some, ih hbelow, put_put, put_put]
            have hput := congrArg (fun node => put step node (write place
              (write place' ((right.child step).getD null) value') value)) h
            simpa only [put_put] using hput
          · by_cases hkind : step.isKey = step'.isKey
            · have hbeside : (left.child step').getD null = (right.child step').getD null := by
                have hchild := congrArg (fun node => (node.child step').getD null) h
                simpa only [child_put_of_ne hsame hkind] using hchild
              rw [child_put_of_ne (Ne.symm hsame) hkind.symm, child_put_of_ne (Ne.symm hsame) hkind.symm, hbelow,
                put_comm hsame hkind, put_comm hsame hkind, h, hbeside]
            · rw [child_put_of_kind (Ne.symm hkind), child_put_of_kind (Ne.symm hkind)]
              exact put_of_kind hkind ..

theorem write_writeAll_same (h : write place left value = write place right value) (writes : List (List Step × Json)) :
    write place (writeAll writes left) value = write place (writeAll writes right) value := by
  induction writes generalizing left right with
  | nil => exact h
  | cons entry writes ih => exact ih (write_same_after h entry.1 entry.2)

/-- To write again all that was written changes nothing. -/
theorem writeAll_writeAll (writes : List (List Step × Json)) (node : Json) :
    writeAll writes (writeAll writes node) = writeAll writes node := by
  induction writes using List.reverseRecOn with
  | nil => rfl
  | append_singleton writes last ih =>
      have hlast (node : Json) : writeAll (writes ++ [last]) node = write last.1 (writeAll writes node) last.2 :=
        List.foldl_append
      calc writeAll (writes ++ [last]) (writeAll (writes ++ [last]) node)
          = write last.1 (writeAll writes (write last.1 (writeAll writes node) last.2)) last.2 := by rw [hlast, hlast]
        _ = write last.1 (writeAll writes (writeAll writes node)) last.2 :=
            write_writeAll_same (write_write last.1 (writeAll writes node) last.2) writes
        _ = writeAll (writes ++ [last]) node := by rw [ih, hlast]

/-- What is written into two objects makes the same value, or two objects again. -/
theorem writeAll_objects (writes : List (List Step × Json)) (hleft : left.isObject) (hright : right.isObject) :
    writeAll writes left = writeAll writes right ∨ (writeAll writes left).isObject ∧ (writeAll writes right).isObject := by
  induction writes generalizing left right with
  | nil => exact .inr ⟨hleft, hright⟩
  | cons entry writes ih =>
      obtain ⟨place, value⟩ := entry
      cases place with
      | nil => exact .inl rfl
      | cons step place =>
          cases step with
          | key key => exact ih rfl rfl
          | index index =>
              have hsame : write (.index index :: place) left value = write (.index index :: place) right value := by
                cases left with
                | object fields =>
                    cases right with
                    | object fields' => rfl
                    | null | bool | integer | float | string | array => exact nomatch hright
                | null | bool | integer | float | string | array => exact nomatch hleft
              exact .inl (congrArg (writeAll writes) hsame)

end Json
