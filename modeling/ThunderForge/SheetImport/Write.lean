import Mathlib.Data.List.TakeWhile
import ThunderForge.Lib.JsonRewrite
import ThunderForge.SheetImport.Rollback

/-! What an import writes of its plan's fields onto the actor, and what the planner then diffs against
(`write_fields` of `sheet_import/apply.rs` and `snapshot.rs`). The validators of a system and how JSON is printed
are parameters; the columns keep what is written to them. -/

namespace ThunderForge.SheetImport

open Std

/-- The columns, by name. -/
def DataType.all : List DataType := [abilityData, proficiencyData, resourceData, spellData, traitData]

def DataType.ofName (name : String) : Option DataType := DataType.all.find? fun dataType => dataType.asStr = name

/-- `str::split_once('.')`. -/
def splitOnce (text : String) : Option (String × String) :=
  match text.toList.dropWhile (· ≠ '.') with
  | [] => none
  | _ :: rest => some (String.ofList (text.toList.takeWhile (· ≠ '.')), String.ofList rest)

/-- The data type and the key that a target names. -/
def dataTarget (target : String) : Option (DataType × String) :=
  (splitOnce target).bind fun (name, key) => (DataType.ofName name).map fun dataType => (dataType, key)

/-- The actor as it is loaded, its links as the planner asks for them. -/
structure ActorContext where
  label : String
  systemData : DataType → Option Json
  links : List CurrentLink
  isReimport : Bool
  sorted : ∀ dataType fields, systemData dataType = some (.object fields) →
    fields.Pairwise fun left right => left.1 < right.1

/-- What the actor has in a data type, nothing where it has no object. -/
def ActorContext.dataObject (ctx : ActorContext) (dataType : DataType) : List (String × Json) :=
  (ctx.systemData dataType).elim [] Json.entries

/-- Each field of an object, under the name of its data type. -/
def insertFields (dataType : DataType) (values : ExtTreeMap String Json) (fields : List (String × Json)) :
    ExtTreeMap String Json :=
  fields.foldl (fun values field => values.insert (dataType.asStr ++ "." ++ field.1) field.2) values

/-- What the planner diffs against. -/
def ActorContext.snapshot (ctx : ActorContext) : ActorSnapshot where
  isReimport := ctx.isReimport
  values := DataType.all.foldl (fun values dataType => insertFields dataType values (ctx.dataObject dataType))
    ((∅ : ExtTreeMap String Json).insert "actor.label" (.string ctx.label))
  links := ctx.links

/-- The field changes an import writes; one of play state only where it is to be overwritten. -/
def ImportPlan.writes (plan : ImportPlan) (overwrite : List String) : List FieldChange :=
  plan.fields.filter fun field => field.certainty ≠ .unread ∧ (field.playState = false ∨ field.target ∈ overwrite)

/-- The label and the objects as they are written, with the data types and the targets touched. -/
structure Written where
  label : String
  objects : DataType → List (String × Json)
  touched : DataType → Bool
  targets : List String
  sorted : ∀ dataType, (objects dataType).Pairwise fun left right => left.1 < right.1

def Written.insert (written : Written) (target : String) (dataType : DataType) (key : String) (value : Json) :
    Written where
  label := written.label
  objects := Function.update written.objects dataType (Json.setField key value (written.objects dataType))
  touched := Function.update written.touched dataType true
  targets := written.targets ++ [target]
  sorted other := by
    by_cases hsame : other = dataType
    · subst hsame
      rw [Function.update_self]
      exact Json.pairwise_setField key value (written.sorted other)
    · rw [Function.update_of_ne hsame]
      exact written.sorted other

theorem Written.objects_insert (written : Written) (target : String) (dataType : DataType) (key : String) (value : Json)
    (other : DataType) : (written.insert target dataType key value).objects other =
      if other = dataType then Json.setField key value (written.objects dataType) else written.objects other :=
  Function.update_apply ..

theorem Written.touched_insert (written : Written) (target : String) (dataType : DataType) (key : String) (value : Json)
    (other : DataType) : (written.insert target dataType key value).touched other =
      if other = dataType then true else written.touched other :=
  Function.update_apply ..

/-- The loop of `write_fields`. -/
def writeField (written : Written) (field : FieldChange) : Written :=
  if field.target = "actor.label" then
    match field.new with
    | some (.string label) => { written with label, targets := written.targets ++ [field.target] }
    | _ => written
  else
    match dataTarget field.target with
    | some (dataType, key) => written.insert field.target dataType key (field.new.getD .null)
    | none => written

def notesHeading : String := "From the imported sheet"

/-- What stands before a text's first occurrence in another. -/
def before (needle : List Char) : List Char → Option (List Char)
  | [] => if needle = [] then some [] else none
  | c :: text => if needle.isPrefixOf (c :: text) then some [] else (before needle text).map (c :: ·)

/-- `str::trim_end`. -/
def trimEnd (text : List Char) : String := String.ofList (text.reverse.dropWhile isWhitespace).reverse

/-- The notes with the unmapped values under their heading, replacing an earlier block. -/
def notesWithUnmapped (current : Option String) (lines : List (String × String)) : String :=
  let kept := (current.map fun text =>
    trimEnd ((before notesHeading.toList text.toList).getD text.toList)).getD ""
  if lines = [] then kept
  else
    kept ++ (if kept = "" then "" else "\n\n") ++ notesHeading ++
      String.join (lines.map fun line => "\n- " ++ line.1 ++ ": " ++ line.2)

section writeFields

variable (print : Json → String)

/-- A value as the notes show it. -/
def noteText : Json → String
  | .string text => text
  | other => print other

def noteLines (unmapped : List Unmapped) : List (String × String) :=
  unmapped.map fun row => (row.label, noteText print row.value)

/-- The unmapped values, into the notes. -/
def writeNotes (notes : String) (unmapped : List Unmapped) (written : Written) : Written :=
  match dataTarget notes with
  | some (dataType, key) =>
    let current := ((Json.object (written.objects dataType)).get? key).bind asStr
    let next := notesWithUnmapped current (noteLines print unmapped)
    if current.getD "" ≠ next then written.insert notes dataType key (.string next) else written
  | none => written

def ActorContext.start (ctx : ActorContext) : Written where
  label := ctx.label
  objects := ctx.dataObject
  touched _ := false
  targets := []
  sorted dataType := by
    unfold dataObject
    cases hdata : ctx.systemData dataType with
    | none => exact .nil
    | some value =>
        cases value with
        | object fields => exact ctx.sorted dataType fields hdata
        | null | bool | integer | float | string | array => exact .nil

/-- The sheet's fields onto the actor's label and system data, each data type through its validator. -/
def writeFields (validate : DataType → Json → Option String) (notes : String) (ctx : ActorContext)
    (plan : ImportPlan) (overwrite : List String) : Except String Written :=
  let written := writeNotes print notes plan.unmapped ((plan.writes overwrite).foldl writeField ctx.start)
  match (DataType.all.filter written.touched).findSome? fun dataType =>
    (validate dataType (.object (written.objects dataType))).map fun error => dataType.asStr ++ ": " ++ error with
  | some error => .error error
  | none => .ok written

end writeFields

/-- The actor as it is loaded after the import. -/
def ActorContext.imported (ctx : ActorContext) (written : Written) (links : List CurrentLink) : ActorContext where
  label := written.label
  systemData dataType :=
    if written.touched dataType then some (.object (written.objects dataType)) else ctx.systemData dataType
  links
  isReimport := true
  sorted dataType fields h := by
    split_ifs at h
    · cases h
      exact written.sorted dataType
    · exact ctx.sorted dataType fields h

/-! ### Targets -/

theorem splitOnce_eq_some {text front back : String} :
    splitOnce text = some (front, back) ↔ text = front ++ "." ++ back ∧ '.' ∉ front.toList := by
  have hparts : text.toList.takeWhile (· ≠ '.') ++ text.toList.dropWhile (· ≠ '.') = text.toList :=
    List.takeWhile_append_dropWhile
  have hnodot : '.' ∉ text.toList.takeWhile (· ≠ '.') := fun hdot => by
    have hne := List.mem_takeWhile_imp hdot
    simp at hne
  unfold splitOnce
  constructor
  · intro h
    cases hrest : text.toList.dropWhile (· ≠ '.') with
    | nil => rw [hrest] at h; exact nomatch h
    | cons c rest =>
        rw [hrest] at h hparts
        obtain ⟨rfl, rfl⟩ := Prod.mk.inj (Option.some.inj h)
        have hdot : c = '.' := by
          have hhead := List.head?_dropWhile_not (· ≠ '.') text.toList
          rw [hrest] at hhead
          simpa using hhead
        subst hdot
        refine ⟨String.toList_injective ?_, by simpa using hnodot⟩
        simpa using hparts.symm
  · rintro ⟨rfl, hdot⟩
    have hfront : ∀ c ∈ front.toList, decide (c ≠ '.') = true := by
      intro c hc
      exact decide_eq_true fun heq => hdot (heq ▸ hc)
    have hlist : (front ++ "." ++ back).toList = front.toList ++ '.' :: back.toList := by simp
    rw [hlist, List.dropWhile_append_of_pos hfront, List.takeWhile_append_of_pos hfront]
    simp

theorem DataType.mem_all (dataType : DataType) : dataType ∈ DataType.all := by
  cases dataType <;> decide

theorem DataType.ofName_eq_some {name : String} {dataType : DataType} :
    DataType.ofName name = some dataType ↔ name = dataType.asStr := by
  constructor
  · intro h
    have hname := List.find?_some h
    exact (of_decide_eq_true hname).symm
  · rintro rfl
    cases dataType <;> rfl

theorem DataType.dot_notMem_asStr (dataType : DataType) : '.' ∉ dataType.asStr.toList := by
  cases dataType <;> decide

theorem dataTarget_eq_some {target : String} {dataType : DataType} {key : String} :
    dataTarget target = some (dataType, key) ↔ target = dataType.asStr ++ "." ++ key := by
  unfold dataTarget
  constructor
  · intro h
    obtain ⟨⟨name, key'⟩, hsplit, hname⟩ := Option.bind_eq_some_iff.mp h
    obtain ⟨dataType', hofName, heq⟩ := Option.map_eq_some_iff.mp hname
    obtain ⟨rfl, rfl⟩ := Prod.mk.inj heq
    rw [(splitOnce_eq_some.mp hsplit).1, DataType.ofName_eq_some.mp hofName]
  · intro h
    rw [splitOnce_eq_some.mpr ⟨h, dataType.dot_notMem_asStr⟩, Option.bind_some]
    dsimp only
    rw [DataType.ofName_eq_some.mpr rfl, Option.map_some]

/-! ### What the actor holds -/

/-- What is held at a target. -/
def held (label : String) (objects : DataType → List (String × Json)) (target : String) : Option Json :=
  if target = "actor.label" then some (.string label)
  else (dataTarget target).bind fun (dataType, key) => (Json.object (objects dataType)).get? key

abbrev Written.held (written : Written) : String → Option Json := SheetImport.held written.label written.objects

theorem held_of_dataTarget {target : String} {dataType : DataType} {key : String}
    (h : dataTarget target = some (dataType, key)) (label : String) (objects : DataType → List (String × Json)) :
    held label objects target = (Json.object (objects dataType)).get? key := by
  have hlabel : target ≠ "actor.label" := by
    rintro rfl
    exact nomatch h
  rw [held, if_neg hlabel, h, Option.bind_some]

theorem getElem?_insertFields_of_ne {dataType : DataType} {target : String}
    (hother : ∀ key, target ≠ dataType.asStr ++ "." ++ key) (values : ExtTreeMap String Json)
    (fields : List (String × Json)) : (insertFields dataType values fields)[target]? = values[target]? := by
  induction fields generalizing values with
  | nil => rfl
  | cons field fields ih =>
      refine (ih _).trans ?_
      rw [ExtTreeMap.getElem?_insert, if_neg]
      simpa using (hother field.1).symm

theorem getElem?_insertFields {dataType : DataType} {target key : String}
    (htarget : target = dataType.asStr ++ "." ++ key) (values : ExtTreeMap String Json)
    {fields : List (String × Json)} (hsorted : fields.Pairwise fun left right => left.1 < right.1) :
    (insertFields dataType values fields)[target]? = ((Json.object fields).get? key).or values[target]? := by
  induction fields generalizing values with
  | nil => rfl
  | cons field fields ih =>
      obtain ⟨hfirst, hrest⟩ := List.pairwise_cons.mp hsorted
      refine (ih _ hrest).trans ?_
      by_cases hkey : field.1 = key
      · have hgone : (Json.object fields).get? key = none := by
          rw [Json.get?, Option.map_eq_none_iff, List.find?_eq_none]
          intro other hother
          simpa using (hkey ▸ hfirst other hother : key < other.1).ne'
        have hhere : (Json.object (field :: fields)).get? key = some field.2 := by simp [Json.get?, hkey]
        rw [hgone, hhere, Option.none_or, Option.some_or, ExtTreeMap.getElem?_insert, if_pos]
        rw [htarget, hkey]
        exact compare_self
      · have hthere : (Json.object (field :: fields)).get? key = (Json.object fields).get? key := by
          simp [Json.get?, hkey]
        rw [hthere, ExtTreeMap.getElem?_insert, if_neg]
        rw [htarget]
        simpa using hkey

theorem getElem?_foldl_insertFields {target key : String} {dataType : DataType}
    (htarget : target = dataType.asStr ++ "." ++ key) {objects : DataType → List (String × Json)}
    (hsorted : ∀ dataType, (objects dataType).Pairwise fun left right => left.1 < right.1)
    (dataTypes : List DataType) (values : ExtTreeMap String Json) :
    (dataTypes.foldl (fun values dataType => insertFields dataType values (objects dataType)) values)[target]? =
      if dataType ∈ dataTypes then ((Json.object (objects dataType)).get? key).or values[target]?
      else values[target]? := by
  induction dataTypes generalizing values with
  | nil => rfl
  | cons first dataTypes ih =>
      rw [List.foldl_cons, ih]
      by_cases hsame : dataType = first
      · subst hsame
        rw [getElem?_insertFields htarget values (hsorted dataType), if_pos List.mem_cons_self]
        cases (Json.object (objects dataType)).get? key <;> simp
      · rw [getElem?_insertFields_of_ne]
        · simp [hsame]
        · rintro key' rfl
          have hthis := (dataTarget_eq_some.mpr htarget).symm.trans (dataTarget_eq_some.mpr rfl)
          exact hsame (Prod.mk.inj (Option.some.inj hthis)).1

theorem getElem?_foldl_insertFields_of_none {target : String} (htarget : dataTarget target = none)
    (objects : DataType → List (String × Json)) (dataTypes : List DataType) (values : ExtTreeMap String Json) :
    (dataTypes.foldl (fun values dataType => insertFields dataType values (objects dataType)) values)[target]? =
      values[target]? := by
  induction dataTypes generalizing values with
  | nil => rfl
  | cons first dataTypes ih =>
      rw [List.foldl_cons, ih]
      refine getElem?_insertFields_of_ne (fun key heq => ?_) values (objects first)
      rw [dataTarget_eq_some.mpr heq] at htarget
      exact nomatch htarget

theorem snapshot_values (ctx : ActorContext) (target : String) :
    ctx.snapshot.values[target]? = held ctx.label ctx.dataObject target := by
  have hlabel : ((∅ : ExtTreeMap String Json).insert "actor.label" (.string ctx.label))[target]? =
      if target = "actor.label" then some (Json.string ctx.label) else none := by
    rw [ExtTreeMap.getElem?_insert, ExtTreeMap.getElem?_empty]
    exact if_congr (Std.compare_eq_iff_eq.trans eq_comm) rfl rfl
  unfold ActorContext.snapshot
  dsimp only
  cases htarget : dataTarget target with
  | none =>
      rw [getElem?_foldl_insertFields_of_none htarget, hlabel, held, htarget]
      rfl
  | some named =>
      obtain ⟨dataType, key⟩ := named
      have hne : target ≠ "actor.label" := by
        rintro rfl
        exact nomatch htarget
      have hsorted : ∀ dataType, (ctx.dataObject dataType).Pairwise fun left right => left.1 < right.1 := ctx.start.sorted
      rw [held_of_dataTarget htarget, getElem?_foldl_insertFields (dataTarget_eq_some.mp htarget) hsorted,
        if_pos dataType.mem_all, hlabel, if_neg hne, Option.or_none]

/-! ### What is written -/

/-- A target that `write_fields` knows. -/
def KnownTarget (target : String) : Prop := target = "actor.label" ∨ (dataTarget target).isSome

instance (target : String) : Decidable (KnownTarget target) := inferInstanceAs (Decidable (_ ∨ _))

/-- What a target holds after a value is written to it. -/
def storedAt (target : String) (new old : Option Json) : Option Json :=
  if target = "actor.label" then
    match new with
    | some (.string label) => some (.string label)
    | _ => old
  else some (new.getD .null)

theorem storedAt_again (target : String) (new old : Option Json) :
    storedAt target new (storedAt target new old) = storedAt target new old := by
  unfold storedAt
  split_ifs
  · cases new with
    | none => rfl
    | some new => cases new <;> rfl
  · rfl

theorem held_insert {written : Written} {target : String} {dataType : DataType} {key : String}
    (htarget : dataTarget target = some (dataType, key)) (value : Json) (other : String) :
    (written.insert target dataType key value).held other = if other = target then some value else written.held other := by
  split_ifs with hsame
  · subst hsame
    rw [Written.held, held_of_dataTarget htarget, Written.objects_insert, if_pos rfl, Json.get?_setField_self]
  · cases hother : dataTarget other with
    | none =>
        rw [Written.held, Written.held, held, held, hother]
        rfl
    | some named =>
        obtain ⟨dataType', key'⟩ := named
        rw [Written.held, Written.held, held_of_dataTarget hother, held_of_dataTarget hother, Written.objects_insert]
        by_cases hdata : dataType' = dataType
        · subst hdata
          have hkey : key' ≠ key := by
            rintro rfl
            exact hsame ((dataTarget_eq_some.mp hother).trans (dataTarget_eq_some.mp htarget).symm)
          rw [if_pos rfl, Json.get?_setField_of_ne hkey]
        · rw [if_neg hdata]

theorem held_writeField {written : Written} {field : FieldChange} (hknown : KnownTarget field.target)
    (other : String) : (writeField written field).held other =
      if other = field.target then storedAt field.target field.new (written.held other) else written.held other := by
  unfold writeField storedAt
  by_cases hlabel : field.target = "actor.label"
  · rw [if_pos hlabel, if_pos hlabel, hlabel]
    cases hnew : field.new with
    | none => simp
    | some new =>
        cases new with
        | string label =>
            unfold Written.held held
            split_ifs <;> rfl
        | null | bool | integer | float | array | object => simp
  · rw [if_neg hlabel, if_neg hlabel]
    obtain ⟨⟨dataType, key⟩, htarget⟩ := Option.isSome_iff_exists.mp (hknown.resolve_left hlabel)
    rw [htarget]
    exact held_insert htarget _ other

/-- What is held once all changes are written, where those to one target say the same. -/
theorem held_foldl {fields : List FieldChange} {target : String} {new : Option Json}
    (hknown : ∀ field ∈ fields, KnownTarget field.target)
    (hnew : ∀ field ∈ fields, field.target = target → field.new = new) (written : Written) :
    (fields.foldl writeField written).held target =
      if ∃ field ∈ fields, field.target = target then storedAt target new (written.held target)
      else written.held target := by
  induction fields generalizing written with
  | nil => simp
  | cons field fields ih =>
      obtain ⟨hfirst, hrest⟩ := List.forall_mem_cons.mp hknown
      obtain ⟨hthis, hothers⟩ := List.forall_mem_cons.mp hnew
      rw [List.foldl_cons, ih hrest hothers, held_writeField hfirst]
      simp only [List.exists_mem_cons_iff]
      by_cases hsame : target = field.target
      · subst hsame
        rw [if_pos rfl, hthis rfl, storedAt_again, ite_self, if_pos (.inl rfl)]
      · rw [if_neg hsame]
        simp only [Ne.symm hsame, false_or]

/-- What is not touched stays. -/
def Frame (before after : Written) : Prop :=
  ∀ dataType, after.touched dataType = false →
    before.touched dataType = false ∧ after.objects dataType = before.objects dataType

theorem frame_insert (written : Written) (target : String) (dataType : DataType) (key : String) (value : Json) :
    Frame written (written.insert target dataType key value) := by
  intro other huntouched
  rw [Written.touched_insert] at huntouched
  rw [Written.objects_insert]
  split_ifs at huntouched ⊢
  exact ⟨huntouched, rfl⟩

theorem Frame.trans {before middle after : Written} (h : Frame before middle) (h' : Frame middle after) :
    Frame before after := by
  intro dataType huntouched
  obtain ⟨hmiddle, hafter⟩ := h' dataType huntouched
  obtain ⟨hbefore, heq⟩ := h dataType hmiddle
  exact ⟨hbefore, hafter.trans heq⟩

theorem frame_writeField (written : Written) (field : FieldChange) : Frame written (writeField written field) := by
  unfold writeField
  split_ifs
  · split
    all_goals exact fun _ huntouched => ⟨huntouched, rfl⟩
  · split
    · exact frame_insert _ _ _ _ _
    · exact fun _ huntouched => ⟨huntouched, rfl⟩

theorem frame_foldl (fields : List FieldChange) (written : Written) :
    Frame written (fields.foldl writeField written) := by
  induction fields generalizing written with
  | nil => exact fun _ huntouched => ⟨huntouched, rfl⟩
  | cons field fields ih => exact (frame_writeField written field).trans (ih _)

theorem frame_writeNotes (print : Json → String) (notes : String) (unmapped : List Unmapped) (written : Written) :
    Frame written (writeNotes print notes unmapped written) := by
  unfold writeNotes
  split
  · dsimp only
    split_ifs
    · exact frame_insert _ _ _ _ _
    · exact fun _ huntouched => ⟨huntouched, rfl⟩
  · exact fun _ huntouched => ⟨huntouched, rfl⟩

/-- What the notes hold after the unmapped values are written into them; every other target is as it was. -/
theorem held_writeNotes (print : Json → String) {notes : String} {unmapped : List Unmapped} {written : Written}
    {target : String} : (writeNotes print notes unmapped written).held target =
      if target = notes ∧ target ≠ "actor.label" ∧ KnownTarget target ∧
          notesWithUnmapped ((written.held target).bind asStr) (noteLines print unmapped) ≠
            ((written.held target).bind asStr).getD "" then
        some (.string (notesWithUnmapped ((written.held target).bind asStr) (noteLines print unmapped)))
      else written.held target := by
  unfold writeNotes
  cases hnotes : dataTarget notes with
  | none =>
      rw [if_neg]
      rintro ⟨rfl, hlabel, hknown⟩
      rw [KnownTarget, hnotes] at hknown
      exact hknown.1.elim hlabel nofun
  | some named =>
      obtain ⟨dataType, key⟩ := named
      have hlabel : notes ≠ "actor.label" := by
        rintro rfl
        exact nomatch hnotes
      have hknown : KnownTarget notes := .inr (by rw [hnotes]; rfl)
      have hheld : (Json.object (written.objects dataType)).get? key = written.held notes :=
        (held_of_dataTarget hnotes ..).symm
      dsimp only
      rw [hheld]
      by_cases hsame : target = notes
      · subst hsame
        split_ifs with hchanged hall hall
        · rw [held_insert hnotes, if_pos rfl]
        · exact absurd ⟨rfl, hlabel, hknown, Ne.symm hchanged⟩ hall
        · exact absurd hall.2.2.2.symm hchanged
        · rfl
      · have hother : ¬(target = notes ∧ target ≠ "actor.label" ∧ KnownTarget target ∧
            notesWithUnmapped ((written.held target).bind asStr) (noteLines print unmapped) ≠
              ((written.held target).bind asStr).getD "") := fun hall => hsame hall.1
        rw [if_neg hother]
        split_ifs
        · rw [held_insert hnotes, if_neg hsame]
        · rfl

/-! ### The import -/

variable {print : Json → String} {validate : DataType → Json → Option String} {notes : String} {ctx : ActorContext}
  {plan : ImportPlan} {overwrite : List String} {written : Written}

theorem writeFields_eq_ok (h : writeFields print validate notes ctx plan overwrite = .ok written) :
    written = writeNotes print notes plan.unmapped ((plan.writes overwrite).foldl writeField ctx.start) := by
  unfold writeFields at h
  dsimp only at h
  split at h
  · exact nomatch h
  · exact (Except.ok.inj h).symm

/-- What the planner is told after an import is what was written. -/
theorem imported_values (h : writeFields print validate notes ctx plan overwrite = .ok written)
    (links : List CurrentLink) (target : String) :
    (ctx.imported written links).snapshot.values[target]? = written.held target := by
  have hframe : Frame ctx.start written := by
    rw [writeFields_eq_ok h]
    exact (frame_foldl _ ctx.start).trans (frame_writeNotes print notes plan.unmapped _)
  have hobjects : (ctx.imported written links).dataObject = written.objects := by
    funext dataType
    show Option.elim (if written.touched dataType then some (Json.object (written.objects dataType))
      else ctx.systemData dataType) [] Json.entries = written.objects dataType
    split_ifs with htouched
    · rfl
    · exact (hframe dataType (Bool.eq_false_iff.mpr htouched)).2.symm
  rw [snapshot_values, hobjects]
  rfl

end ThunderForge.SheetImport
