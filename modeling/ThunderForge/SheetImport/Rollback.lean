import ThunderForge.Lib.JsonTree
import ThunderForge.SheetImport.Plan

/-! Rolling an actor's sheet back to before an import (`sheet_import/rollback.rs`): its data goes back, and the
values of play stay as they are. -/

namespace ThunderForge.SheetImport

open Json (Step)

/-- The data types an actor's system data has, one column each. -/
inductive DataType where
  | abilityData
  | resourceData
  | proficiencyData
  | traitData
  | spellData
  deriving DecidableEq

def DataType.asStr : DataType → String
  | abilityData => "ability_data"
  | resourceData => "resource_data"
  | proficiencyData => "proficiency_data"
  | traitData => "trait_data"
  | spellData => "spell_data"

/-- Of everything an import writes, the label and the data. -/
structure ActorState where
  label : String
  systemData : DataType → Option Json
  ordered : ∀ dataType value, systemData dataType = some value → value.Ordered

def stripSuffix (back text : String) : Option String :=
  if back.toList.isSuffixOf text.toList then
    some (String.ofList (text.toList.take (text.toList.length - back.toList.length)))
  else none

/-- Change the elements of a list by those of another, as far as both go. -/
def updateZip {α β : Type} (f : α → β → α) : List α → List β → List α
  | x :: xs, y :: ys => f x y :: updateZip f xs ys
  | xs, _ => xs

/-- Copy the value at a path from now into the past; absent now means absent after. A segment that ends in `[]`
walks a list element by element. -/
def keepPlayState : Json → Json → List String → Json
  | .object fields, now, first :: rest =>
    match stripSuffix "[]" first with
    | some key =>
      match (Json.object fields).get? key, now.get? key with
      | some (.array past), some (.array now) =>
        .object (Json.setField key (.array (updateZip (fun past now => keepPlayState past now rest) past now)) fields)
      | _, _ => .object fields
    | none =>
      if rest = [] then
        match now.get? first with
        | some value => .object (Json.setField first value fields)
        | none => .object (Json.removeField first fields)
      else
        match (Json.object fields).get? first, now.get? first with
        | some past, some now => .object (Json.setField first (keepPlayState past now rest) fields)
        | _, _ => .object fields
  | past, _, _ => past

/-- The path of a play-state target in a data type. -/
def pathIn (dataType : DataType) (target : String) : Option (List String) :=
  ((stripPrefix dataType.asStr target).bind (stripPrefix ".")).map segmentsOf

/-- Each data type as the snapshot holds it, with the play-state values carried over from now. -/
def restoreData (current restored : ActorState) (playState : List String) (dataType : DataType) : Option Json :=
  (restored.systemData dataType).map fun past =>
    match current.systemData dataType with
    | some now => (playState.filterMap (pathIn dataType)).foldl (fun past path => keepPlayState past now path) past
    | none => past

/-- A place a path of segments names. A path that ends in `[]` names none: what it walks to has no key. -/
inductive Names : List String → List Step → Prop
  | last {first : String} (hplain : stripSuffix "[]" first = none) : Names [first] [.key first]
  | field {first : String} {rest : List String} {place : List Step} (hplain : stripSuffix "[]" first = none)
      (hrest : Names rest place) : Names (first :: rest) (.key first :: place)
  | items {first key : String} {rest : List String} {place : List Step}
      (hitems : stripSuffix "[]" first = some key) (index : Nat) (hrest : Names rest place) :
      Names (first :: rest) (.key key :: .index index :: place)

/-- A path is followed in both values, and copies what holds a place. -/
inductive Copies : Json → Json → List String → List Step → Prop
  | last {fields : List (String × Json)} {now : Json} {first : String} (hplain : stripSuffix "[]" first = none)
      (place : List Step) : Copies (.object fields) now [first] (.key first :: place)
  | field {past now past' now' : Json} {first : String} {rest : List String} {place : List Step}
      (hplain : stripSuffix "[]" first = none) (hpast : past.get? first = some past')
      (hnow : now.get? first = some now') (hrest : Copies past' now' rest place) :
      Copies past now (first :: rest) (.key first :: place)
  | items {past now past' now' : Json} {pasts nows : List Json} {first key : String} {rest : List String}
      {index : Nat} {place : List Step} (hitems : stripSuffix "[]" first = some key)
      (hpast : past.get? key = some (.array pasts)) (hnow : now.get? key = some (.array nows))
      (hpast' : pasts[index]? = some past') (hnow' : nows[index]? = some now')
      (hrest : Copies past' now' rest place) :
      Copies past now (first :: rest) (.key key :: .index index :: place)

section updateZip

variable {α β : Type} (f : α → β → α)

theorem length_updateZip (xs : List α) (ys : List β) : (updateZip f xs ys).length = xs.length := by
  induction xs generalizing ys with
  | nil => cases ys <;> rfl
  | cons x xs ih =>
      cases ys with
      | nil => rfl
      | cons y ys => rw [updateZip, List.length_cons, List.length_cons, ih]

theorem getElem?_updateZip (xs : List α) (ys : List β) (index : Nat) :
    (updateZip f xs ys)[index]? = xs[index]?.map fun x => (ys[index]?).elim x (f x) := by
  induction xs generalizing ys index with
  | nil => cases ys <;> rfl
  | cons x xs ih =>
      cases ys with
      | nil =>
          show (x :: xs)[index]? = _
          cases (x :: xs)[index]? <;> rfl
      | cons y ys =>
          cases index with
          | zero => rfl
          | succ index => exact ih ys index

end updateZip

/-! ### One path -/

theorem get?_of_isObject {node : Json} (h : node.isObject = false) (key : String) : node.get? key = none := by
  cases node with
  | object fields => exact nomatch h
  | null | bool | integer | float | string | array => rfl

theorem not_copies_of_isObject {past now : Json} {path : List String} {place : List Step}
    (h : past.isObject = false) : ¬Copies past now path place := by
  intro hcopies
  cases hcopies with
  | last => exact nomatch h
  | field _ hpast => rw [get?_of_isObject h] at hpast; exact nomatch hpast
  | items _ hpast => rw [get?_of_isObject h] at hpast; exact nomatch hpast

variable {fields : List (String × Json)} {now : Json} {first key : String} {rest : List String}
  {place : List Step}

theorem copies_last_iff (hplain : stripSuffix "[]" first = none) :
    Copies (.object fields) now [first] place ↔ place.head? = some (.key first) := by
  constructor
  · intro h
    cases h with
    | last => rfl
    | field => rfl
    | items hitems => rw [hplain] at hitems; exact nomatch hitems
  · intro h
    obtain ⟨place', rfl⟩ := List.head?_eq_some_iff.mp h
    exact .last hplain place'

theorem Copies.of_field (hplain : stripSuffix "[]" first = none) (hrest : rest ≠ []) {past : Json}
    (h : Copies past now (first :: rest) place) : ∃ past' now' place', past.get? first = some past' ∧
      now.get? first = some now' ∧ place = .key first :: place' ∧ Copies past' now' rest place' := by
  cases h with
  | last => exact absurd rfl hrest
  | field _ hpast hnow hcopies => exact ⟨_, _, _, hpast, hnow, rfl, hcopies⟩
  | items hitems => rw [hplain] at hitems; exact nomatch hitems

theorem Copies.of_items (hitems : stripSuffix "[]" first = some key) {past : Json}
    (h : Copies past now (first :: rest) place) : ∃ pasts nows index past' now' place',
      past.get? key = some (.array pasts) ∧ now.get? key = some (.array nows) ∧ pasts[index]? = some past' ∧
        nows[index]? = some now' ∧ place = .key key :: .index index :: place' ∧ Copies past' now' rest place' := by
  cases h with
  | last hplain => rw [hplain] at hitems; exact nomatch hitems
  | field hplain => rw [hplain] at hitems; exact nomatch hitems
  | items hitems' hpast hnow hpast' hnow' hcopies =>
      obtain rfl := Option.some.inj (hitems.symm.trans hitems')
      exact ⟨_, _, _, _, _, _, hpast, hnow, hpast', hnow', rfl, hcopies⟩

/-- What is copied stands as it is now; the rest stands as it was. -/
structure CopiedAt (past now kept : Json) (path : List String) (place : List Step) : Prop where
  copied : Copies past now path place → kept.shape place = now.shape place
  kept : ¬Copies past now path place → kept.shape place = past.shape place

theorem CopiedAt.of_not {past kept : Json} {path : List String} (h : ¬Copies past now path place)
    (hkept : kept.shape place = past.shape place) : CopiedAt past now kept path place :=
  ⟨fun hcopies => absurd hcopies h, fun _ => hkept⟩

theorem CopiedAt.congr {past past' now' kept kept' : Json} {path path' : List String} {place' : List Step}
    (h : CopiedAt past' now' kept' path' place')
    (hcopies : Copies past now path place ↔ Copies past' now' path' place')
    (hkept : kept.shape place = kept'.shape place') (hpast : past.shape place = past'.shape place')
    (hnow : now.shape place = now'.shape place') : CopiedAt past now kept path place where
  copied hcopied := by rw [hkept, hnow, h.copied (hcopies.mp hcopied)]
  kept hnot := by rw [hkept, hpast, h.kept fun hcopied => hnot (hcopies.mpr hcopied)]

theorem copiedAt_last (hplain : stripSuffix "[]" first = none) (place : List Step) :
    CopiedAt (.object fields) now (keepPlayState (.object fields) now [first]) [first] place := by
  rw [keepPlayState, hplain]
  dsimp only
  rw [if_pos rfl]
  by_cases hhead : place.head? = some (.key first)
  · refine ⟨fun _ => ?_, fun hnot => absurd ((copies_last_iff hplain).mpr hhead) hnot⟩
    obtain ⟨place', rfl⟩ := List.head?_eq_some_iff.mp hhead
    rw [Json.shape_cons (.key first) place' now, Json.child]
    cases now.get? first with
    | some value => rw [Json.shape_setField_self, Option.bind_some]
    | none => rw [Json.shape_removeField_self, Option.bind_none]
  · refine .of_not (fun h => hhead ((copies_last_iff hplain).mp h)) ?_
    cases now.get? first with
    | some value => exact Json.shape_setField_of_ne value fields hhead
    | none => exact Json.shape_removeField_of_ne fields hhead

/-- What is copied within a field is copied in the value of the field. -/
theorem copiedAt_field (hplain : stripSuffix "[]" first = none) (hrest : rest ≠ [])
    (ih : ∀ past now place, CopiedAt past now (keepPlayState past now rest) rest place) (place : List Step) :
    CopiedAt (.object fields) now (keepPlayState (.object fields) now (first :: rest)) (first :: rest) place := by
  rw [keepPlayState, hplain]
  dsimp only
  rw [if_neg hrest]
  split
  case h_1 past now' hpast hnow =>
    by_cases hhead : place.head? = some (.key first)
    · obtain ⟨place', rfl⟩ := List.head?_eq_some_iff.mp hhead
      refine (ih past now' place').congr ⟨fun h => ?_, .field hplain hpast hnow⟩
        (Json.shape_setField_self ..) ?_ ?_
      · obtain ⟨_, _, _, hpast', hnow', hplace, h⟩ := h.of_field hplain hrest
        obtain rfl := Option.some.inj (hpast.symm.trans hpast')
        obtain rfl := Option.some.inj (hnow.symm.trans hnow')
        obtain rfl := (List.cons.inj hplace).2
        exact h
      · rw [Json.shape_cons, Json.child, hpast, Option.bind_some]
      · rw [Json.shape_cons, Json.child, hnow, Option.bind_some]
    · refine .of_not (fun h => ?_) (Json.shape_setField_of_ne _ fields hhead)
      obtain ⟨_, _, _, -, -, rfl, -⟩ := h.of_field hplain hrest
      exact hhead rfl
  case h_2 hnot =>
    refine .of_not (fun h => ?_) rfl
    obtain ⟨past, now', _, hpast, hnow, -⟩ := h.of_field hplain hrest
    exact hnot past now' hpast hnow

section items

variable {pasts nows : List Json} (hitems : stripSuffix "[]" first = some key)
  (hpast : (Json.object fields).get? key = some (.array pasts)) (hnow : now.get? key = some (.array nows))

include hitems hpast hnow

/-- What is copied in the list of a field is in an element that both lists have. -/
theorem Copies.of_item {place' : List Step} (h : Copies (.object fields) now (first :: rest) (.key key :: place')) :
    ∃ index past' now' place'', pasts[index]? = some past' ∧ nows[index]? = some now' ∧
      place' = .index index :: place'' ∧ Copies past' now' rest place'' := by
  obtain ⟨_, _, index, past', now', place'', hpasts, hnows, hpast', hnow', hplace, h⟩ := h.of_items hitems
  cases hpast.symm.trans hpasts
  cases hnow.symm.trans hnows
  exact ⟨index, past', now', place'', hpast', hnow', (List.cons.inj hplace).2, h⟩

/-- In one element, what is copied is copied within it, where both lists have it. -/
theorem copiedAt_item (ih : ∀ past now place, CopiedAt past now (keepPlayState past now rest) rest place)
    (index : Nat) (place' : List Step) :
    CopiedAt (.object fields) now
      (.object (Json.setField key
        (.array (updateZip (fun past now => keepPlayState past now rest) pasts nows)) fields))
      (first :: rest) (.key key :: .index index :: place') := by
  have hpastAt : (Json.object fields).shape (.key key :: .index index :: place') =
      pasts[index]?.bind (Json.shape place') := by
    rw [Json.shape_cons, Json.child, hpast, Option.bind_some, Json.shape_cons, Json.child]
  have hkeptAt : (Json.object (Json.setField key
      (.array (updateZip (fun past now => keepPlayState past now rest) pasts nows)) fields)).shape
        (.key key :: .index index :: place') = (pasts[index]?.map fun past =>
          (nows[index]?).elim past fun now => keepPlayState past now rest).bind (Json.shape place') := by
    rw [Json.shape_setField_self, Json.shape_cons, Json.child, getElem?_updateZip]
  cases hpast' : pasts[index]? with
  | none =>
      refine .of_not (fun h => ?_) ?_
      · obtain ⟨_, _, _, _, hpast'', -, hplace, -⟩ := h.of_item hitems hpast hnow
        cases hplace
        cases (hpast'.symm.trans hpast'')
      · rw [hkeptAt, hpastAt, hpast']
        rfl
  | some past' =>
      cases hnow' : nows[index]? with
      | none =>
          refine .of_not (fun h => ?_) ?_
          · obtain ⟨_, _, _, _, -, hnow'', hplace, -⟩ := h.of_item hitems hpast hnow
            cases hplace
            cases (hnow'.symm.trans hnow'')
          · rw [hkeptAt, hpastAt, hpast', hnow']
            rfl
      | some now' =>
          refine (ih past' now' place').congr ⟨fun h => ?_, .items hitems hpast hnow hpast' hnow'⟩ ?_ ?_ ?_
          · obtain ⟨_, _, _, _, hpast'', hnow'', hplace, h⟩ := h.of_item hitems hpast hnow
            cases hplace
            cases hpast'.symm.trans hpast''
            cases (hnow'.symm.trans hnow'')
            exact h
          · rw [hkeptAt, hpast', hnow']
            rfl
          · rw [hpastAt, hpast', Option.bind_some]
          · rw [Json.shape_cons, Json.child, hnow, Option.bind_some, Json.shape_cons, Json.child, hnow',
              Option.bind_some]

end items

/-- What is copied within the elements of a list is copied in each that both lists have. -/
theorem copiedAt_items (hitems : stripSuffix "[]" first = some key)
    (ih : ∀ past now place, CopiedAt past now (keepPlayState past now rest) rest place) (place : List Step) :
    CopiedAt (.object fields) now (keepPlayState (.object fields) now (first :: rest)) (first :: rest) place := by
  rw [keepPlayState, hitems]
  dsimp only
  split
  case h_1 pasts nows hpast hnow =>
    by_cases hhead : place.head? = some (.key key)
    · obtain ⟨place', rfl⟩ := List.head?_eq_some_iff.mp hhead
      have hpastAt : (Json.object fields).shape (.key key :: place') = (Json.array pasts).shape place' := by
        rw [Json.shape_cons, Json.child, hpast, Option.bind_some]
      cases place' with
      | nil =>
          refine .of_not (fun h => ?_) ?_
          · obtain ⟨_, _, _, _, -, -, hplace, -⟩ := h.of_item hitems hpast hnow
            cases hplace
          · rw [Json.shape_setField_self, hpastAt]
            show some (Json.Head.array _) = some (Json.Head.array _)
            rw [length_updateZip]
      | cons step place'' =>
          cases step with
          | key key' =>
              refine .of_not (fun h => ?_) (by rw [Json.shape_setField_self, hpastAt]; rfl)
              obtain ⟨_, _, _, _, -, -, hplace, -⟩ := h.of_item hitems hpast hnow
              cases hplace
          | index index => exact copiedAt_item hitems hpast hnow ih index place''
    · refine .of_not (fun h => ?_) (Json.shape_setField_of_ne _ fields hhead)
      obtain ⟨_, _, _, _, _, _, -, -, -, -, rfl, -⟩ := h.of_items hitems
      exact hhead rfl
  case h_2 hnot =>
    refine .of_not (fun h => ?_) rfl
    obtain ⟨pasts, nows, _, _, _, _, hpast, hnow, -⟩ := h.of_items hitems
    exact hnot pasts nows hpast hnow

theorem copiedAt_keepPlayState (path : List String) (past now : Json) (place : List Step) :
    CopiedAt past now (keepPlayState past now path) path place := by
  induction path generalizing past now place with
  | nil =>
      have hkept : keepPlayState past now [] = past := by cases past <;> rfl
      exact ⟨nofun, fun _ => by rw [hkept]⟩
  | cons first rest ih =>
      cases past with
      | object fields =>
          cases hsuffix : stripSuffix "[]" first with
          | some key => exact copiedAt_items hsuffix ih place
          | none =>
              by_cases hrest : rest = []
              · subst hrest
                exact copiedAt_last hsuffix place
              · exact copiedAt_field hsuffix hrest ih place
      | null | bool | integer | float | string | array =>
          exact ⟨fun h => absurd h (not_copies_of_isObject rfl), fun _ => rfl⟩

theorem Names.ends {path : List String} (h : Names path place) : ∃ parent key, place = parent ++ [.key key] := by
  induction h with
  | last => exact ⟨[], _, rfl⟩
  | field _ _ ih =>
      obtain ⟨parent, key, rfl⟩ := ih
      exact ⟨_ :: parent, key, rfl⟩
  | items _ index _ ih =>
      obtain ⟨parent, key, rfl⟩ := ih
      exact ⟨_ :: _ :: parent, key, rfl⟩

theorem Names.parent_cons {path : List String} (h : Names path place) (step : Step) :
    (step :: place).dropLast = step :: place.dropLast := by
  obtain ⟨parent, key, rfl⟩ := h.ends
  exact List.dropLast_cons_of_ne_nil (List.append_ne_nil_of_right_ne_nil _ (List.cons_ne_nil _ _))

theorem exists_get?_of_shape {node : Json} {head : Json.Head}
    (h : node.shape (.key key :: place) = some head) : ∃ value, node.get? key = some value ∧
      value.shape place = some head := by
  rw [Json.shape_cons] at h
  exact Option.bind_eq_some_iff.mp h

theorem exists_item_of_shape {node : Json} {index : Nat} {head : Json.Head}
    (h : node.shape (.index index :: place) = some head) : ∃ items value, node = .array items ∧
      items[index]? = some value ∧ value.shape place = some head := by
  rw [Json.shape_cons] at h
  obtain ⟨value, hvalue, hshape⟩ := Option.bind_eq_some_iff.mp h
  cases node with
  | array items => exact ⟨items, value, rfl, hvalue, hshape⟩
  | null | bool | integer | float | string | object => exact nomatch hvalue

/-- A path copies what holds a place it names, when an object holds the place in the past and anything does now. -/
theorem copies_iff {past now : Json} {path : List String} : Copies past now path place ↔
    ∃ named, Names path named ∧ named <+: place ∧ past.shape named.dropLast = some .object ∧
      (now.shape named.dropLast).isSome := by
  constructor
  · intro h
    induction h with
    | last hplain place => exact ⟨_, .last hplain, ⟨place, rfl⟩, rfl, rfl⟩
    | field hplain hpast hnow _ ih =>
        obtain ⟨named, hnames, hfront, hobject, hsome⟩ := ih
        refine ⟨_, .field hplain hnames, List.cons_prefix_cons.mpr ⟨rfl, hfront⟩, ?_, ?_⟩
        · rw [hnames.parent_cons, Json.shape_cons, Json.child, hpast, Option.bind_some, hobject]
        · rw [hnames.parent_cons, Json.shape_cons, Json.child, hnow, Option.bind_some]
          exact hsome
    | @items past now past' now' pasts nows first key rest index place hitems hpast hnow hpast' hnow' _ ih =>
        obtain ⟨named, hnames, hfront, hobject, hsome⟩ := ih
        refine ⟨_, .items hitems index hnames,
          List.cons_prefix_cons.mpr ⟨rfl, List.cons_prefix_cons.mpr ⟨rfl, hfront⟩⟩, ?_, ?_⟩
        · rw [List.dropLast_cons_of_ne_nil (List.cons_ne_nil _ _), hnames.parent_cons, Json.shape_cons, Json.child,
            hpast, Option.bind_some, Json.shape_cons, Json.child, hpast', Option.bind_some, hobject]
        · rw [List.dropLast_cons_of_ne_nil (List.cons_ne_nil _ _), hnames.parent_cons, Json.shape_cons, Json.child,
            hnow, Option.bind_some, Json.shape_cons, Json.child, hnow', Option.bind_some]
          exact hsome
  · rintro ⟨named, hnames, ⟨below, rfl⟩, hobject, hsome⟩
    obtain ⟨head, hhead⟩ := Option.isSome_iff_exists.mp hsome
    induction hnames generalizing past now with
    | last hplain =>
        cases past with
        | object fields => exact .last hplain below
        | null | bool | integer | float | string | array => cases hobject
    | field hplain hrest ih =>
        rw [hrest.parent_cons] at hobject hhead
        obtain ⟨past', hpast, hobject⟩ := exists_get?_of_shape hobject
        obtain ⟨now', hnow, hhead⟩ := exists_get?_of_shape hhead
        exact .field hplain hpast hnow (ih hobject (hhead ▸ rfl) hhead)
    | items hitems index hrest ih =>
        rw [List.dropLast_cons_of_ne_nil (List.cons_ne_nil _ _), hrest.parent_cons] at hobject hhead
        obtain ⟨past', hpast, hobject⟩ := exists_get?_of_shape hobject
        obtain ⟨now', hnow, hhead⟩ := exists_get?_of_shape hhead
        obtain ⟨pasts, pastItem, rfl, hpastItem, hobject⟩ := exists_item_of_shape hobject
        obtain ⟨nows, nowItem, rfl, hnowItem, hhead⟩ := exists_item_of_shape hhead
        exact .items hitems hpast hnow hpastItem hnowItem (ih hobject (hhead ▸ rfl) hhead)

/-! ### All paths -/

/-- Some path copies what holds the place. -/
def Covers (past now : Json) (paths : List (List String)) (place : List Step) : Prop :=
  ∃ path ∈ paths, Copies past now path place

theorem Copies.of_prefix {past : Json} {path : List String} {place' : List Step} (hfront : place <+: place')
    (h : Copies past now path place) : Copies past now path place' := by
  obtain ⟨named, hnames, hnamed, hobject, hsome⟩ := copies_iff.mp h
  exact copies_iff.mpr ⟨named, hnames, hnamed.trans hfront, hobject, hsome⟩

/-- What is not copied is followed as before. -/
theorem copies_congr {past kept : Json} {path : List String}
    (h : ∀ above, above <+: place → kept.shape above = past.shape above) :
    Copies kept now path place ↔ Copies past now path place := by
  have hdrop {named : List Step} (hnamed : named <+: place) :
      kept.shape named.dropLast = past.shape named.dropLast :=
    h _ ((List.dropLast_prefix named).trans hnamed)
  rw [copies_iff, copies_iff]
  constructor
  · rintro ⟨named, hnames, hnamed, hobject, hsome⟩
    exact ⟨named, hnames, hnamed, hdrop hnamed ▸ hobject, hsome⟩
  · rintro ⟨named, hnames, hnamed, hobject, hsome⟩
    exact ⟨named, hnames, hnamed, (hdrop hnamed).trans hobject, hsome⟩

/-- The play state of now carried over into the past, path by path. -/
def keepAll (past now : Json) (paths : List (List String)) : Json :=
  paths.foldl (fun past path => keepPlayState past now path) past

theorem shape_keepAll (paths : List (List String)) (past now : Json) (place : List Step) :
    (Covers past now paths place → (keepAll past now paths).shape place = now.shape place) ∧
      (¬Covers past now paths place → (keepAll past now paths).shape place = past.shape place) := by
  induction paths generalizing past with
  | nil => exact ⟨fun ⟨_, h, _⟩ => absurd h List.not_mem_nil, fun _ => rfl⟩
  | cons path paths ih =>
      obtain ⟨hcovered, hkept⟩ := ih (keepPlayState past now path)
      rw [keepAll, List.foldl_cons]
      change (_ → (keepAll _ _ _).shape _ = _) ∧ (_ → (keepAll _ _ _).shape _ = _)
      by_cases hcopies : Copies past now path place
      · have hstands := (copiedAt_keepPlayState path past now place).copied hcopies
        refine ⟨fun _ => ?_, fun h => absurd ⟨path, List.mem_cons_self, hcopies⟩ h⟩
        by_cases hlater : Covers (keepPlayState past now path) now paths place
        · exact hcovered hlater
        · rw [hkept hlater, hstands]
      · have habove (above : List Step) (habove : above <+: place) :
            (keepPlayState past now path).shape above = past.shape above :=
          (copiedAt_keepPlayState path past now above).kept fun h => hcopies (h.of_prefix habove)
        have hlater : Covers (keepPlayState past now path) now paths place ↔ Covers past now (path :: paths) place := by
          unfold Covers
          rw [List.exists_mem_cons_iff, or_iff_right hcopies]
          simp only [copies_congr habove]
        rw [← habove place List.prefix_rfl, ← hlater]
        exact ⟨hcovered, hkept⟩

theorem Names.shape_parent {path : List String} (h : Names path place) {node : Json}
    (hplace : (node.shape place).isSome) : node.shape place.dropLast = some .object := by
  obtain ⟨parent, key, rfl⟩ := h.ends
  rw [List.dropLast_concat]
  exact Json.shape_of_concat hplace

/-- What carrying back the play state would lose: a value that an object holds now, where in the past there is
something that is no object, and that is not itself within a value of play. -/
def Loses (now past : Json) (paths : List (List String)) (place : List Step) : Prop :=
  (now.shape place).isSome ∧ (∃ head, past.shape place.dropLast = some head ∧ head ≠ .object) ∧
    ∀ path ∈ paths, ∀ named, Names path named → ¬named <+: place.dropLast

theorem shape_none_below {node : Json} {parent : List Step} {key : String} {head : Json.Head}
    (hparent : node.shape parent = some head) (hhead : head ≠ .object) (below : List Step) :
    node.shape (parent ++ [.key key] ++ below) = none := by
  by_contra hnot
  have hsome : (node.shape (parent ++ [.key key])).isSome :=
    Json.shape_isSome_of_prefix (List.prefix_append _ below) (Option.isSome_iff_ne_none.mpr hnot)
  rw [Json.shape_of_concat hsome] at hparent
  exact hhead (Option.some.inj hparent).symm

/-- What no path copies at a place's parent stands there as it was. -/
theorem covers_of_object {past : Json} {paths : List (List String)} {path : List String} {named : List Step}
    (hpath : path ∈ paths) (hnames : Names path named) (hnamed : named <+: place)
    (hpast : past.shape named.dropLast = some .object) (hnow : (now.shape named.dropLast).isSome) :
    Covers past now paths place :=
  ⟨path, hpath, copies_iff.mpr ⟨named, hnames, hnamed, hpast, hnow⟩⟩

theorem Loses.not_kept {past : Json} {paths : List (List String)} {path : List String} (hpath : path ∈ paths)
    (hnames : Names path place) (hloses : Loses now past paths place) :
    keepAll now (keepAll past now paths) paths ≠ now := by
  obtain ⟨hthere, ⟨head, hhead, hne⟩, hfree⟩ := hloses
  obtain ⟨parent, key, rfl⟩ := hnames.ends
  rw [List.dropLast_concat] at hhead hfree
  have hparent : (keepAll past now paths).shape parent = some head := by
    rw [(shape_keepAll paths past now parent).2, hhead]
    rintro ⟨path', hpath', hcopies⟩
    obtain ⟨named, hnamed, hfront, -⟩ := copies_iff.mp hcopies
    exact hfree path' hpath' named hnamed hfront
  have hcovers : Covers now (keepAll past now paths) paths (parent ++ [.key key]) := by
    refine covers_of_object hpath hnames List.prefix_rfl (hnames.shape_parent hthere) ?_
    rw [List.dropLast_concat, hparent]
    rfl
  have hgone := (shape_keepAll paths now (keepAll past now paths) _).1 hcovers
  have hbelow : (keepAll past now paths).shape (parent ++ [.key key]) = none := by
    have hnothing : (keepAll past now paths).shape (parent ++ [.key key] ++ []) = none :=
      shape_none_below hparent hne []
    rwa [List.append_nil] at hnothing
  rw [hbelow] at hgone
  intro hsame
  rw [hsame] at hgone
  rw [hgone] at hthere
  exact nomatch hthere

theorem shape_keepAll_keepAll {now past : Json} {paths : List (List String)}
    (h : ∀ path ∈ paths, ∀ place, Names path place → ¬Loses now past paths place) (place : List Step) :
    (keepAll now (keepAll past now paths) paths).shape place = now.shape place := by
  obtain ⟨hcovered, hkept⟩ := shape_keepAll paths now (keepAll past now paths) place
  by_cases hback : Covers now (keepAll past now paths) paths place
  · rw [hcovered hback]
    by_cases hover : Covers past now paths place
    · exact (shape_keepAll paths past now place).1 hover
    · obtain ⟨path, hpath, hcopies⟩ := hback
      obtain ⟨named, hnames, ⟨below, rfl⟩, hobject, hsome⟩ := copies_iff.mp hcopies
      have hlost := h path hpath named hnames
      obtain ⟨parent, key, rfl⟩ := hnames.ends
      have habove : parent <+: parent ++ [.key key] ++ below := ⟨[.key key] ++ below, by simp⟩
      rw [List.dropLast_concat] at hobject hsome
      have huncovered : ¬Covers past now paths parent := fun ⟨path', hpath', hcopies'⟩ =>
        hover ⟨path', hpath', hcopies'.of_prefix habove⟩
      rw [(shape_keepAll paths past now parent).2 huncovered] at hsome
      obtain ⟨head, hhead⟩ := Option.isSome_iff_exists.mp hsome
      have hnone : head ≠ .object := by
        rintro rfl
        refine hover (covers_of_object hpath hnames (List.prefix_append _ below) ?_ ?_)
        · rw [List.dropLast_concat, hhead]
        · rw [List.dropLast_concat, hobject]
          rfl
      rw [(shape_keepAll paths past now _).2 hover, shape_none_below hhead hnone]
      symm
      by_contra hthere
      have hheld : (now.shape (parent ++ [.key key])).isSome :=
        Json.shape_isSome_of_prefix (List.prefix_append _ below) (Option.isSome_iff_ne_none.mpr hthere)
      refine hlost ⟨hheld, ?_, fun path' hpath' named' hnames' hfront => huncovered ?_⟩
      · rw [List.dropLast_concat]
        exact ⟨head, hhead, hnone⟩
      · rw [List.dropLast_concat] at hfront
        have hwithin := (List.dropLast_prefix named').trans hfront
        refine covers_of_object hpath' hnames' hfront ?_ ?_
        · exact hnames'.shape_parent (Json.shape_isSome_of_prefix hfront (hhead ▸ rfl))
        · exact Json.shape_isSome_of_prefix hwithin (hobject ▸ rfl)
  · exact hkept hback

theorem ordered_updateZip {f : Json → Json → Json} {pasts nows : List Json}
    (hf : ∀ past ∈ pasts, ∀ now ∈ nows, (f past now).Ordered) (hpasts : ∀ past ∈ pasts, past.Ordered) :
    ∀ item ∈ updateZip f pasts nows, item.Ordered := by
  intro item hitem
  obtain ⟨index, hindex⟩ := List.getElem?_of_mem hitem
  rw [getElem?_updateZip] at hindex
  obtain ⟨past, hpast, rfl⟩ := Option.map_eq_some_iff.mp hindex
  cases hnow : nows[index]? with
  | none => exact hpasts past (List.mem_of_getElem? hpast)
  | some now => exact hf past (List.mem_of_getElem? hpast) now (List.mem_of_getElem? hnow)

theorem ordered_keepPlayState (path : List String) {past now : Json} (hpast : past.Ordered) (hnow : now.Ordered) :
    (keepPlayState past now path).Ordered := by
  induction path generalizing past now with
  | nil => cases past <;> exact hpast
  | cons first rest ih =>
      cases past with
      | object fields =>
          unfold keepPlayState
          split
          · split
            · next hpasts hnows =>
                have hitems := hpast.get? hpasts
                have hitems' := hnow.get? hnows
                exact hpast.setField _ (.array (ordered_updateZip
                  (fun past hmem now hmem' => ih (hitems.item hmem) (hitems'.item hmem')) fun past => hitems.item))
            · exact hpast
          · split_ifs
            · split
              · next hvalue => exact hpast.setField _ (hnow.get? hvalue)
              · exact hpast.removeField _
            · split
              · next hvalue hvalue' => exact hpast.setField _ (ih (hpast.get? hvalue) (hnow.get? hvalue'))
              · exact hpast
      | null | bool | integer | float | string | array => exact hpast

theorem ordered_keepAll (paths : List (List String)) {past now : Json} (hpast : past.Ordered) (hnow : now.Ordered) :
    (keepAll past now paths).Ordered := by
  induction paths generalizing past with
  | nil => exact hpast
  | cons path paths ih => exact ih (ordered_keepPlayState path hpast hnow)

/-- Carried over and back again, a value is what it was unless something of it is lost. -/
theorem keepAll_keepAll_iff {now past : Json} (hnow : now.Ordered) (hpast : past.Ordered)
    (paths : List (List String)) : keepAll now (keepAll past now paths) paths = now ↔
      ∀ path ∈ paths, ∀ place, Names path place → ¬Loses now past paths place := by
  constructor
  · intro hsame path hpath place hnames hloses
    exact hloses.not_kept hpath hnames hsame
  · intro h
    have hordered := ordered_keepAll paths hnow (ordered_keepAll paths hpast hnow)
    exact Json.eq_of_shape hordered hnow (shape_keepAll_keepAll h)

/-! ### The actor -/

theorem restoreData_of_some {current restored : ActorState} (playState : List String) {dataType : DataType}
    {now past : Json} (hnow : current.systemData dataType = some now)
    (hpast : restored.systemData dataType = some past) : restoreData current restored playState dataType =
      some (keepAll past now (playState.filterMap (pathIn dataType))) := by
  rw [restoreData, hpast, hnow]
  rfl

theorem restoreData_of_none {current restored : ActorState} (playState : List String) {dataType : DataType}
    (h : current.systemData dataType = none ∨ restored.systemData dataType = none) :
    restoreData current restored playState dataType = restored.systemData dataType := by
  rw [restoreData]
  cases hpast : restored.systemData dataType with
  | none => rfl
  | some past =>
      rcases h with hnow | hnone
      · rw [hnow]
        rfl
      · exact nomatch hnone.symm.trans hpast

/-- The label and the data as a rollback leaves them. -/
def rollBack (current restored : ActorState) (playState : List String) : ActorState where
  label := restored.label
  systemData := restoreData current restored playState
  ordered dataType value h := by
    cases hpast : restored.systemData dataType with
    | none =>
        rw [restoreData_of_none playState (.inr hpast), hpast] at h
        exact nomatch h
    | some past =>
        have hordered := restored.ordered dataType past hpast
        cases hnow : current.systemData dataType with
        | none =>
            rw [restoreData_of_none playState (.inl hnow), hpast] at h
            exact Option.some.inj h ▸ hordered
        | some now =>
            rw [restoreData_of_some playState hnow hpast] at h
            exact Option.some.inj h ▸ ordered_keepAll _ hordered (current.ordered dataType now hnow)

variable (current restored : ActorState) (playState : List String)

/-- A rollback can itself be rolled back, and every play-state value that an object holds the place of, in both
states, is left as it is. -/
structure RollsBack : Prop where
  undone : ∀ dataType, restoreData (rollBack current restored playState) current playState dataType =
    current.systemData dataType
  kept : ∀ dataType now past after, current.systemData dataType = some now →
    restored.systemData dataType = some past →
    (rollBack current restored playState).systemData dataType = some after →
      ∀ target ∈ playState, ∀ path, pathIn dataType target = some path → ∀ place, Names path place →
        now.shape place.dropLast = some .object → past.shape place.dropLast = some .object →
          after.lookup place = now.lookup place

/-- No play-state value is held now by an object where the snapshot has something that is no object. -/
def LosesNothing : Prop :=
  ∀ dataType now past, current.systemData dataType = some now → restored.systemData dataType = some past →
    ∀ path ∈ playState.filterMap (pathIn dataType), ∀ place, Names path place →
      ¬Loses now past (playState.filterMap (pathIn dataType)) place

variable {current restored playState}

theorem lookup_keepAll {now past : Json} (hnow : now.Ordered) (hpast : past.Ordered) {paths : List (List String)}
    {path : List String} (hpath : path ∈ paths) (hnames : Names path place)
    (hobject : now.shape place.dropLast = some .object) (hobject' : past.shape place.dropLast = some .object) :
    (keepAll past now paths).lookup place = now.lookup place := by
  refine Json.lookup_eq_of_shape (ordered_keepAll paths hpast hnow) hnow fun rest => ?_
  exact (shape_keepAll paths past now _).1
    (covers_of_object hpath hnames (List.prefix_append place rest) hobject' (hobject ▸ rfl))

/-- A rollback is undone by rolling back to what it replaced, exactly when it loses nothing. -/
theorem rolls_back_iff : RollsBack current restored playState ↔ LosesNothing current restored playState := by
  constructor
  · intro h dataType now past hnow hpast
    have hrolled : (rollBack current restored playState).systemData dataType = _ :=
      restoreData_of_some playState hnow hpast
    have hundone := h.undone dataType
    rw [restoreData_of_some playState hrolled hnow, hnow] at hundone
    exact (keepAll_keepAll_iff (current.ordered dataType now hnow) (restored.ordered dataType past hpast) _).mp
      (Option.some.inj hundone)
  · intro h
    refine ⟨fun dataType => ?_, ?_⟩
    · cases hnow : current.systemData dataType with
      | none => rw [restoreData_of_none playState (.inr hnow), hnow]
      | some now =>
          cases hpast : restored.systemData dataType with
          | none =>
              have hrolled : (rollBack current restored playState).systemData dataType = none :=
                (restoreData_of_none playState (.inr hpast)).trans hpast
              rw [restoreData_of_none playState (.inl hrolled), hnow]
          | some past =>
              have hrolled : (rollBack current restored playState).systemData dataType = _ :=
                restoreData_of_some playState hnow hpast
              rw [restoreData_of_some playState hrolled hnow]
              exact congrArg some ((keepAll_keepAll_iff (current.ordered dataType now hnow)
                (restored.ordered dataType past hpast) _).mpr (h dataType now past hnow hpast))
    · intro dataType now past after hnow hpast hafter target htarget path hpath place hnames hobject hobject'
      have hrolled : (rollBack current restored playState).systemData dataType = _ :=
        restoreData_of_some playState hnow hpast
      obtain rfl := Option.some.inj (hrolled.symm.trans hafter)
      exact lookup_keepAll (current.ordered dataType now hnow) (restored.ordered dataType past hpast)
        (List.mem_filterMap.mpr ⟨target, htarget, hpath⟩) hnames hobject hobject'

/-- A character with nothing but spell data. -/
def casterWith (pactSlots : Json) (hordered : pactSlots.Ordered) : ActorState where
  label := "Wren"
  systemData
    | .spellData => some (.object [("pact_slots", pactSlots)])
    | .abilityData | .resourceData | .proficiencyData | .traitData => none
  ordered dataType value h := by
    cases dataType with
    | spellData =>
        obtain rfl := Option.some.inj h
        exact .object (List.pairwise_singleton _ _) fun field hfield => by
          obtain rfl := List.mem_singleton.mp hfield
          exact hordered
    | abilityData | resourceData | proficiencyData | traitData => exact nomatch h

/-- Two pact slots, one of them used. -/
def pactSlots : Json := .object [("level", .integer 3), ("total", .integer 2), ("used", .integer 1)]

theorem pactSlots_ordered : pactSlots.Ordered := by
  refine .object (by decide) fun field hfield => ?_
  simp only [List.mem_cons, List.not_mem_nil, or_false] at hfield
  rcases hfield with rfl | rfl | rfl <;> exact .integer _

/-- Rolled back to when there were no pact slots and forward again, the character has lost the one used. -/
theorem used_slot_lost : ¬RollsBack (casterWith pactSlots pactSlots_ordered) (casterWith .null .null)
    ["spell_data.pact_slots.used"] := by
  intro h
  exact absurd (h.undone .spellData) (by decide +kernel)

end ThunderForge.SheetImport
