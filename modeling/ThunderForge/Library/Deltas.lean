import Std.Data.ExtTreeMap
import Mathlib.Data.List.Induction
import Mathlib.Data.Prod.Lex
import ThunderForge.Basic
import ThunderForge.Lib.Json
import ThunderForge.Lib.SortBy

/-! What a world reads from a book (`library/deltas/mod.rs`): the base with the world's deltas laid over
it, and the deltas that could not be applied. -/

namespace ThunderForge.Library

open Std (ExtTreeMap)

/-- Where a piece of content came from. -/
inductive ContentOrigin where
  | authored
  | uploaded
  deriving DecidableEq

/-- The three forms a delta takes. -/
inductive DeltaForm where
  | changed
  | hidden
  | added
  deriving DecidableEq

/-- What origin an entry in this form carries, over a book of `book`'s origin. -/
def DeltaForm.originOver : DeltaForm → ContentOrigin → ContentOrigin
  | changed, book => book
  | hidden, book => book
  | added, _ => .authored

/-- A JSON column that is meant to hold an object. -/
inductive FieldValues where
  | object (fields : ExtTreeMap String Json)
  | other (value : Json)
  deriving DecidableEq

/-- The kind and name a delta attaches to. -/
structure Identity where
  kind : String
  name : String
  deriving DecidableEq

namespace Identity

instance : LinearOrder Identity :=
  LinearOrder.lift' (fun identity => toLex (identity.kind, identity.name)) fun left right h => by
    have hpair := congrArg ofLex h
    simp only [ofLex_toLex, Prod.mk.injEq] at hpair
    cases left
    cases right
    simp_all

instance : Std.LawfulEqOrd Identity where
  eq_of_compare h := compare_eq_iff_eq.mp h

instance transOrd : Std.TransOrd Identity := inferInstance

end Identity

/-- One entry as it is stored. -/
structure StoredEntry where
  id : Uuid
  compendiumId : Uuid
  kind : String
  name : String
  nameUncertain : Bool := false
  page : Option Int := none
  fieldValues : FieldValues
  proseText : Option String
  suspect : Bool := false
  extras : Option Json := none
  deriving DecidableEq

/-- One delta, as it is stored. -/
structure Delta where
  id : Uuid
  worldId : Uuid
  compendiumId : Option Uuid
  kind : String
  name : String
  form : DeltaForm
  origin : ContentOrigin
  fieldValues : Option FieldValues
  proseText : Option String
  changedBy : Option Uuid
  updatedAt : Nat
  writtenBesideTitle : Option String := none
  deriving DecidableEq

/-- How an entry stands in a world. -/
inductive EntryState where
  | inherited
  | changed
  | hidden
  | added
  deriving DecidableEq

/-- What an entry was before this world changed it. -/
structure Before where
  fieldValues : FieldValues
  proseText : Option String
  deriving DecidableEq

/-- One entry as this world reads it. -/
structure WorldEntry where
  id : Uuid
  compendiumId : Option Uuid
  kind : String
  name : String
  nameUncertain : Bool
  page : Option Int
  fieldValues : FieldValues
  proseText : Option String
  suspect : Bool
  state : EntryState
  origin : ContentOrigin
  deltaId : Option Uuid
  before : Option Before
  ambiguous : Bool
  deriving DecidableEq

/-- Why a delta held by this world is not being applied. -/
inductive Unattached where
  | ambiguous (count : Nat)
  | noSuchEntry
  | shadowsTheBook
  deriving DecidableEq

/-- What a world reads from one book, and what it holds that could not be applied. -/
structure Resolution where
  entries : List WorldEntry
  unattached : List (Delta × Unattached)
  deriving DecidableEq

def StoredEntry.identity (entry : StoredEntry) : Identity := ⟨entry.kind, entry.name⟩

def Delta.identity (delta : Delta) : Identity := ⟨delta.kind, delta.name⟩

def WorldEntry.identity (entry : WorldEntry) : Identity := ⟨entry.kind, entry.name⟩

/-- The key entries are ordered by: kind, name and id. -/
def WorldEntry.key (entry : WorldEntry) : Identity ×ₗ Nat := toLex (entry.identity, entry.id.toNat)

/-- The order in which a hash map happens to yield what it holds. -/
structure HashOrder (α : Type) where
  order : List α → List α
  perm : ∀ xs, (order xs).Perm xs

/-- A hash map that yields what it holds in key order. -/
def HashOrder.sorted (α : Type) : HashOrder α := ⟨id, fun _ => .refl _⟩

/-- The entry as the book has it. -/
def StoredEntry.asRead (bookOrigin : ContentOrigin) (entry : StoredEntry) (ambiguous : Bool) :
    WorldEntry where
  id := entry.id
  compendiumId := some entry.compendiumId
  kind := entry.kind
  name := entry.name
  nameUncertain := entry.nameUncertain
  page := entry.page
  fieldValues := entry.fieldValues
  proseText := entry.proseText
  suspect := entry.suspect
  state := .inherited
  origin := bookOrigin
  deltaId := none
  before := none
  ambiguous

/-- The fields of `base` with those of a change laid over them. -/
def overlay (base : FieldValues) : Option FieldValues → FieldValues
  | some (.object changed) =>
    match base with
    | .object fields => .object (fields ∪ changed)
    | .other _ => .object changed
  | _ => base

/-- Lay one change over the entry it attaches to. -/
def WorldEntry.change (read : WorldEntry) (bookOrigin : ContentOrigin) (delta : Delta) : WorldEntry :=
  { read with
    before := some ⟨read.fieldValues, read.proseText⟩
    fieldValues := overlay read.fieldValues delta.fieldValues
    proseText := delta.proseText.or read.proseText
    state := .changed
    origin := DeltaForm.changed.originOver bookOrigin
    deltaId := some delta.id }

/-- Mark an entry this world does not show. -/
def WorldEntry.hide (read : WorldEntry) (bookOrigin : ContentOrigin) (delta : Delta) : WorldEntry :=
  { read with
    state := .hidden
    origin := DeltaForm.hidden.originOver bookOrigin
    deltaId := some delta.id }

/-- An addition, served as an entry. -/
def Delta.asAddition (bookOrigin : ContentOrigin) (delta : Delta) : WorldEntry where
  id := delta.id
  compendiumId := delta.compendiumId
  kind := delta.kind
  name := delta.name
  nameUncertain := false
  page := none
  fieldValues := delta.fieldValues.getD (.object ∅)
  proseText := delta.proseText
  suspect := false
  state := .added
  origin := DeltaForm.added.originOver bookOrigin
  deltaId := some delta.id
  before := none
  ambiguous := false

/-- What the walk over the base carries: the deltas not yet met, what is read, what is reported. -/
structure Walk where
  held : ExtTreeMap Identity Delta
  entries : List WorldEntry
  unattached : List (Delta × Unattached)

/-- One base entry of the walk. -/
def Walk.step (bookOrigin : ContentOrigin) (showHidden : Bool) (inTheBook : ExtTreeMap Identity Nat)
    (walk : Walk) (entry : StoredEntry) : Walk :=
  let count := inTheBook.getD entry.identity 0
  let ambiguous := decide (count > 1)
  -- Taken out the first time its identity is met, so a delta is reported once and not once per twin.
  let delta := walk.held[entry.identity]?
  let walk := { walk with held := walk.held.erase entry.identity }
  let read := entry.asRead bookOrigin ambiguous
  match delta with
  | none => { walk with entries := walk.entries ++ [read] }
  | some delta =>
    if ambiguous then
      { walk with
        entries := walk.entries ++ [read]
        unattached := walk.unattached ++ [(delta, .ambiguous count)] }
    else match delta.form with
      | .changed => { walk with entries := walk.entries ++ [read.change bookOrigin delta] }
      | .hidden =>
        if showHidden then { walk with entries := walk.entries ++ [read.hide bookOrigin delta] } else walk
      | .added =>
        { walk with
          entries := walk.entries ++ [read]
          unattached := walk.unattached ++ [(delta, .shadowsTheBook)] }

/-- One delta that named nothing in the book. -/
def Walk.leftover (bookOrigin : ContentOrigin) (walk : Walk) (delta : Delta) : Walk :=
  match delta.form with
  | .added => { walk with entries := walk.entries ++ [delta.asAddition bookOrigin] }
  | .changed | .hidden => { walk with unattached := walk.unattached ++ [(delta, .noSuchEntry)] }

/-- How many base entries each identity names. -/
def countIdentities (base : List StoredEntry) : ExtTreeMap Identity Nat :=
  base.foldl (fun counts entry => counts.insert entry.identity (counts.getD entry.identity 0 + 1)) ∅

/-- Lay a world's deltas over a book's entries. -/
def resolve (hash : HashOrder Delta) (bookOrigin : ContentOrigin) (base : List StoredEntry)
    (deltas : List Delta) (showHidden : Bool) : Resolution :=
  let held := deltas.foldl (fun held delta => held.insert delta.identity delta)
    (∅ : ExtTreeMap Identity Delta)
  let walk := base.foldl (Walk.step bookOrigin showHidden (countIdentities base)) ⟨held, [], []⟩
  -- What is left named nothing in the book.
  let walk := (hash.order (walk.held.toList.map Prod.snd)).foldl (Walk.leftover bookOrigin) walk
  { entries := SortBy.sortBy WorldEntry.key walk.entries
    unattached := SortBy.sortBy (fun left => left.1.identity) walk.unattached }

/-! ### What the walk comes to -/

/-- How many base entries have this identity. -/
def identityCount (base : List StoredEntry) (identity : Identity) : Nat :=
  base.countP fun entry => entry.identity = identity

/-- The delta over this identity. -/
def deltaOver (deltas : List Delta) (identity : Identity) : Option Delta :=
  deltas.find? fun delta => delta.identity = identity

/-- How a world reads one base entry. -/
def readOf (bookOrigin : ContentOrigin) (base : List StoredEntry) (deltas : List Delta)
    (showHidden : Bool) (entry : StoredEntry) : Option WorldEntry :=
  let ambiguous := decide (identityCount base entry.identity > 1)
  let read := entry.asRead bookOrigin ambiguous
  match if ambiguous then none else deltaOver deltas entry.identity with
  | none => some read
  | some delta =>
    match delta.form with
    | .changed => some (read.change bookOrigin delta)
    | .hidden => if showHidden then some (read.hide bookOrigin delta) else none
    | .added => some read

/-- Where a delta ends up. -/
inductive Place where
  | attached
  | addition
  | withheld
  | unattached (why : Unattached)
  deriving DecidableEq

def placeOf (base : List StoredEntry) (showHidden : Bool) (delta : Delta) : Place :=
  match identityCount base delta.identity, delta.form with
  | 0, .added => .addition
  | 0, _ => .unattached .noSuchEntry
  | 1, .changed => .attached
  | 1, .hidden => if showHidden then .attached else .withheld
  | 1, .added => .unattached .shadowsTheBook
  | count, _ => .unattached (.ambiguous count)

theorem getD_countIdentities (base : List StoredEntry) (identity : Identity) :
    (countIdentities base).getD identity 0 = identityCount base identity := by
  induction base using List.reverseRecOn with
  | nil => simp [countIdentities, identityCount]
  | append_singleton base entry ih =>
      rw [countIdentities, List.foldl_append, ← countIdentities, identityCount, List.countP_append,
        ← identityCount]
      simp only [List.foldl_cons, List.foldl_nil, ExtTreeMap.getD_insert, List.countP_singleton]
      by_cases heq : entry.identity = identity
      · subst heq
        simp [ih]
      · simp [ih, heq]

theorem getElem?_heldBy {deltas : List Delta} (hdeltas : (deltas.map Delta.identity).Nodup)
    (identity : Identity) :
    (deltas.foldl (fun held delta => held.insert delta.identity delta)
      (∅ : ExtTreeMap Identity Delta))[identity]? = deltaOver deltas identity := by
  induction deltas using List.reverseRecOn with
  | nil => simp [deltaOver]
  | append_singleton deltas delta ih =>
      rw [List.map_append, List.nodup_append'] at hdeltas
      obtain ⟨hnodup, -, hdisjoint⟩ := hdeltas
      rw [List.foldl_append, List.foldl_cons, List.foldl_nil, ExtTreeMap.getElem?_insert,
        ih hnodup, deltaOver, deltaOver, List.find?_append]
      by_cases heq : delta.identity = identity
      · subst heq
        have hnone : deltas.find? (fun other => other.identity = delta.identity) = none := by
          refine List.find?_eq_none.mpr fun other hother => ?_
          have hne := List.disjoint_left.mp hdisjoint (List.mem_map_of_mem hother)
          simpa using hne
        simp [hnone]
      · simp [heq]

theorem deltaOver_eq_some {deltas : List Delta} (hdeltas : (deltas.map Delta.identity).Nodup)
    {identity : Identity} {delta : Delta} :
    deltaOver deltas identity = some delta ↔ delta ∈ deltas ∧ delta.identity = identity := by
  constructor
  · intro h
    exact ⟨List.mem_of_find?_eq_some h, by simpa using List.find?_some h⟩
  · rintro ⟨hmem, rfl⟩
    cases hfound : deltaOver deltas delta.identity with
    | none =>
        have hnot := List.find?_eq_none.mp hfound delta hmem
        simp at hnot
    | some other =>
        have hsame : other.identity = delta.identity := by simpa using List.find?_some hfound
        rw [List.inj_on_of_nodup_map hdeltas (List.mem_of_find?_eq_some hfound) hmem hsame]

section Walk

variable {bookOrigin : ContentOrigin} {base : List StoredEntry} {deltas : List Delta}
  {showHidden : Bool}

/-- What is reported when an identity of the base is first met. -/
def reportOn (base : List StoredEntry) (deltas : List Delta) (showHidden : Bool) (identity : Identity) :
    List (Delta × Unattached) :=
  match deltaOver deltas identity with
  | none => []
  | some delta =>
    match placeOf base showHidden delta with
    | .unattached why => [(delta, why)]
    | _ => []

/-- The walk after the entries in `walked`. -/
structure Walked (bookOrigin : ContentOrigin) (base : List StoredEntry) (deltas : List Delta)
    (showHidden : Bool) (walked : List StoredEntry) (walk : Walk) : Prop where
  held : ∀ identity, walk.held[identity]? =
    if identity ∈ walked.map StoredEntry.identity then none else deltaOver deltas identity
  entries : walk.entries = walked.filterMap (readOf bookOrigin base deltas showHidden)
  unattached : ∀ delta why, (delta, why) ∈ walk.unattached ↔
    delta.identity ∈ walked.map StoredEntry.identity ∧ delta ∈ deltas ∧
      placeOf base showHidden delta = .unattached why
  distinct : (walk.unattached.map fun left => left.1.identity).Nodup

theorem identityCount_pos {entry : StoredEntry} (h : entry ∈ base) :
    0 < identityCount base entry.identity :=
  List.countP_pos_iff.mpr ⟨entry, h, by simp⟩

theorem two_le_identityCount {walked rest : List StoredEntry} {entry : StoredEntry}
    (hbase : walked ++ entry :: rest = base)
    (hseen : entry.identity ∈ walked.map StoredEntry.identity) :
    1 < identityCount base entry.identity := by
  obtain ⟨other, hother, hsame⟩ := List.mem_map.mp hseen
  have hwalked : 0 < walked.countP fun seen => decide (seen.identity = entry.identity) :=
    List.countP_pos_iff.mpr ⟨other, hother, by simpa using hsame⟩
  rw [identityCount, ← hbase, List.countP_append, List.countP_cons]
  simp only [decide_true, if_true]
  omega

/-- What one entry of the walk adds: its reading, and a report the first time its identity is met. -/
theorem Walk.step_eq {walked rest : List StoredEntry} {walk : Walk} {entry : StoredEntry}
    (hdeltas : (deltas.map Delta.identity).Nodup)
    (h : Walked bookOrigin base deltas showHidden walked walk) (hbase : walked ++ entry :: rest = base) :
    walk.step bookOrigin showHidden (countIdentities base) entry =
      { held := walk.held.erase entry.identity
        entries := walk.entries ++ (readOf bookOrigin base deltas showHidden entry).toList
        unattached := walk.unattached ++
          if entry.identity ∈ walked.map StoredEntry.identity then []
          else reportOn base deltas showHidden entry.identity } := by
  have hcount : 0 < identityCount base entry.identity := identityCount_pos (by simp [← hbase])
  simp only [Walk.step, getD_countIdentities, h.held, readOf]
  by_cases hseen : entry.identity ∈ walked.map StoredEntry.identity
  · have htwice := two_le_identityCount hbase hseen
    simp [hseen, htwice]
  simp only [hseen, if_false, reportOn]
  cases hdelta : deltaOver deltas entry.identity with
  | none => simp
  | some delta =>
      obtain ⟨-, hsame⟩ := (deltaOver_eq_some hdeltas).mp hdelta
      by_cases htwice : 1 < identityCount base entry.identity
      · obtain ⟨extra, hextra⟩ : ∃ extra, identityCount base entry.identity = extra + 2 :=
          ⟨_, (Nat.sub_add_cancel htwice).symm⟩
        simp [placeOf, hsame, hextra]
      · have honce : identityCount base entry.identity = 1 := by omega
        cases hform : delta.form with
        | changed => simp [placeOf, hsame, honce, hform]
        | hidden => cases showHidden <;> simp [placeOf, hsame, honce, hform]
        | added => simp [placeOf, hsame, honce, hform]

theorem mem_reportOn (hdeltas : (deltas.map Delta.identity).Nodup) {identity : Identity} {delta : Delta}
    {why : Unattached} : (delta, why) ∈ reportOn base deltas showHidden identity ↔
      delta.identity = identity ∧ delta ∈ deltas ∧ placeOf base showHidden delta = .unattached why := by
  unfold reportOn
  cases hfound : deltaOver deltas identity with
  | none =>
      refine iff_of_false List.not_mem_nil ?_
      rintro ⟨hsame, hmem, -⟩
      rw [(deltaOver_eq_some hdeltas).mpr ⟨hmem, hsame⟩] at hfound
      cases hfound
  | some found =>
      obtain ⟨hmem, hsame⟩ := (deltaOver_eq_some hdeltas).mp hfound
      have hunique : delta.identity = identity ∧ delta ∈ deltas ↔ delta = found := by
        constructor
        · rintro ⟨hidentity, hdelta⟩
          exact List.inj_on_of_nodup_map hdeltas hdelta hmem (hidentity.trans hsame.symm)
        · rintro rfl
          exact ⟨hsame, hmem⟩
      rw [← and_assoc, hunique]
      dsimp only
      cases hplace : placeOf base showHidden found with
      | unattached other =>
          simp only [List.mem_singleton, Prod.mk.injEq]
          refine and_congr_right fun heq => ?_
          rw [heq, hplace, Place.unattached.injEq, eq_comm]
      | attached | addition | withheld =>
          refine iff_of_false List.not_mem_nil fun h => ?_
          rw [h.1, hplace] at h
          cases h.2

theorem Walked.step {walked rest : List StoredEntry} {walk : Walk} {entry : StoredEntry}
    (hdeltas : (deltas.map Delta.identity).Nodup)
    (h : Walked bookOrigin base deltas showHidden walked walk) (hbase : walked ++ entry :: rest = base) :
    Walked bookOrigin base deltas showHidden (walked ++ [entry])
      (walk.step bookOrigin showHidden (countIdentities base) entry) := by
  rw [Walk.step_eq hdeltas h hbase]
  have hmember (identity : Identity) : identity ∈ (walked ++ [entry]).map StoredEntry.identity ↔
      identity ∈ walked.map StoredEntry.identity ∨ identity = entry.identity := by simp
  refine ⟨fun identity => ?_, ?_, fun delta why => ?_, ?_⟩
  · rw [ExtTreeMap.getElem?_erase, h.held]
    simp only [hmember, compare_eq_iff_eq]
    by_cases heq : entry.identity = identity
    · simp [heq]
    · simp [heq, Ne.symm heq]
  · rw [h.entries, List.filterMap_append, List.filterMap_cons, List.filterMap_nil]
    cases readOf bookOrigin base deltas showHidden entry <;> rfl
  · rw [List.mem_append, h.unattached, hmember]
    by_cases hseen : entry.identity ∈ walked.map StoredEntry.identity
    · rw [if_pos hseen]
      refine ⟨fun hleft => ?_, fun hright => .inl ⟨?_, hright.2⟩⟩
      · rcases hleft with hleft | hleft
        · exact ⟨.inl hleft.1, hleft.2⟩
        · exact absurd hleft List.not_mem_nil
      · rcases hright.1 with hwalked | heq
        · exact hwalked
        · exact heq ▸ hseen
    · rw [if_neg hseen, mem_reportOn hdeltas]
      tauto
  · rw [List.map_append, List.nodup_append']
    refine ⟨h.distinct, ?_, List.disjoint_left.mpr fun identity hold hnew => ?_⟩
    · split_ifs
      · exact .nil
      · unfold reportOn
        cases deltaOver deltas entry.identity with
        | none => exact .nil
        | some delta =>
            dsimp only
            cases placeOf base showHidden delta <;> simp
    · obtain ⟨⟨delta, why⟩, hdelta, rfl⟩ := List.mem_map.mp hold
      have hwalked := ((h.unattached delta why).mp hdelta).1
      split_ifs at hnew with hseen
      · exact absurd hnew List.not_mem_nil
      · obtain ⟨⟨other, again⟩, hother, heq⟩ := List.mem_map.mp hnew
        have hentry := ((mem_reportOn hdeltas).mp hother).1
        exact hseen (by rw [← hentry, heq]; exact hwalked)

theorem walked_foldl {walked rest : List StoredEntry} {walk : Walk}
    (hdeltas : (deltas.map Delta.identity).Nodup)
    (h : Walked bookOrigin base deltas showHidden walked walk) (hbase : walked ++ rest = base) :
    Walked bookOrigin base deltas showHidden base
      (rest.foldl (Walk.step bookOrigin showHidden (countIdentities base)) walk) := by
  induction rest generalizing walked walk with
  | nil => simpa [← hbase] using h
  | cons entry rest ih => exact ih (h.step hdeltas hbase) (by simp [← hbase])

theorem leftover_foldl (left : List Delta) (walk : Walk) :
    left.foldl (Walk.leftover bookOrigin) walk =
      { held := walk.held
        entries := walk.entries ++
          (left.filter fun delta => delta.form = .added).map (Delta.asAddition bookOrigin)
        unattached := walk.unattached ++
          (left.filter fun delta => delta.form ≠ .added).map fun delta => (delta, .noSuchEntry) } := by
  induction left generalizing walk with
  | nil => simp
  | cons delta left ih =>
      rw [List.foldl_cons, ih]
      cases hform : delta.form <;> simp [Walk.leftover, hform]

theorem identityCount_eq_zero {identity : Identity} :
    identityCount base identity = 0 ↔ identity ∉ base.map StoredEntry.identity := by
  rw [identityCount, List.countP_eq_zero]
  simp

theorem placeOf_absent {delta : Delta} (h : identityCount base delta.identity = 0) :
    placeOf base showHidden delta =
      if delta.form = .added then .addition else .unattached .noSuchEntry := by
  cases hform : delta.form <;> simp [placeOf, h, hform]

theorem placeOf_present {delta : Delta} (h : identityCount base delta.identity ≠ 0) :
    placeOf base showHidden delta ≠ .addition ∧
      placeOf base showHidden delta ≠ .unattached .noSuchEntry := by
  obtain ⟨count, hcount⟩ := Nat.exists_eq_succ_of_ne_zero h
  rcases count with _ | count
  · cases hform : delta.form <;> cases showHidden <;> simp [placeOf, hcount, hform]
  · simp [placeOf, hcount]

/-- The deltas left over are those whose identity the book lacks, each once. -/
theorem mem_leftover (hash : HashOrder Delta) {walk : Walk} (hdeltas : (deltas.map Delta.identity).Nodup)
    (h : Walked bookOrigin base deltas showHidden base walk) :
    (∀ delta, delta ∈ hash.order (walk.held.toList.map Prod.snd) ↔
      delta ∈ deltas ∧ delta.identity ∉ base.map StoredEntry.identity) ∧
    ((hash.order (walk.held.toList.map Prod.snd)).map Delta.identity).Nodup := by
  have hentry (identity : Identity) (delta : Delta) : (identity, delta) ∈ walk.held.toList ↔
      identity ∉ base.map StoredEntry.identity ∧ delta ∈ deltas ∧ delta.identity = identity := by
    rw [ExtTreeMap.mem_toList_iff_getElem?_eq_some, h.held]
    split_ifs with hseen
    · simp [hseen]
    · rw [deltaOver_eq_some hdeltas]
      simp [hseen]
  constructor
  · intro delta
    rw [(hash.perm _).mem_iff, List.mem_map]
    constructor
    · rintro ⟨⟨identity, found⟩, hfound, rfl⟩
      obtain ⟨hseen, hmem, hsame⟩ := (hentry _ _).mp hfound
      exact ⟨hmem, hsame ▸ hseen⟩
    · rintro ⟨hmem, hseen⟩
      exact ⟨(delta.identity, delta), (hentry _ _).mpr ⟨hseen, hmem, rfl⟩, rfl⟩
  · refine ((hash.perm _).map Delta.identity).nodup_iff.mpr ?_
    have hkeys : (walk.held.toList.map Prod.snd).map Delta.identity = walk.held.toList.map Prod.fst := by
      rw [List.map_map]
      refine List.map_congr_left fun entry hmem => ?_
      exact ((hentry entry.1 entry.2).mp hmem).2.2
    rw [hkeys, ExtTreeMap.map_fst_toList_eq_keys]
    exact ExtTreeMap.nodup_keys

/-- The two lists the walk hands over to be sorted. -/
theorem resolve_eq (hash : HashOrder Delta) (bookOrigin : ContentOrigin) (base : List StoredEntry)
    (showHidden : Bool) (hdeltas : (deltas.map Delta.identity).Nodup) :
    ∃ (left : List Delta) (reported : List (Delta × Unattached)), (∀ delta, delta ∈ left ↔
        delta ∈ deltas ∧ identityCount base delta.identity = 0) ∧
      (left.map Delta.identity).Nodup ∧
      (∀ delta why, (delta, why) ∈ reported ↔ identityCount base delta.identity ≠ 0 ∧
        delta ∈ deltas ∧ placeOf base showHidden delta = .unattached why) ∧
      (reported.map fun left => left.1.identity).Nodup ∧
      resolve hash bookOrigin base deltas showHidden =
        { entries := SortBy.sortBy WorldEntry.key
            (base.filterMap (readOf bookOrigin base deltas showHidden) ++
              (left.filter fun delta => delta.form = .added).map (Delta.asAddition bookOrigin))
          unattached := SortBy.sortBy (fun left => left.1.identity) (reported ++
            (left.filter fun delta => delta.form ≠ .added).map fun delta => (delta, .noSuchEntry)) } := by
  have hstart : Walked bookOrigin base deltas showHidden []
      ⟨deltas.foldl (fun held delta => held.insert delta.identity delta) ∅, [], []⟩ :=
    ⟨fun identity => by simp [getElem?_heldBy hdeltas], rfl, by simp, .nil⟩
  have hwalk := walked_foldl hdeltas hstart (List.nil_append base)
  obtain ⟨hleft, hdistinct⟩ := mem_leftover hash hdeltas hwalk
  refine ⟨_, _, fun delta => ?_, hdistinct, fun delta why => ?_, hwalk.distinct, ?_⟩
  · rw [hleft, identityCount_eq_zero]
  · rw [hwalk.unattached, Ne, identityCount_eq_zero, not_not]
  · simp only [resolve, leftover_foldl, hwalk.entries]

/-- What a world reads is a base entry as it is read there, or an addition. -/
theorem mem_entries (hash : HashOrder Delta) (hdeltas : (deltas.map Delta.identity).Nodup)
    (read : WorldEntry) : read ∈ (resolve hash bookOrigin base deltas showHidden).entries ↔
      (∃ entry ∈ base, readOf bookOrigin base deltas showHidden entry = some read) ∨
        ∃ delta ∈ deltas, placeOf base showHidden delta = .addition ∧
          delta.asAddition bookOrigin = read := by
  obtain ⟨left, reported, hleft, -, -, -, heq⟩ := resolve_eq hash bookOrigin base showHidden hdeltas
  rw [heq, SortBy.mem_sortBy, List.mem_append, List.mem_filterMap]
  refine or_congr_right ?_
  simp only [List.mem_map, List.mem_filter, decide_eq_true_eq, hleft]
  constructor
  · rintro ⟨delta, ⟨⟨hmem, habsent⟩, hform⟩, hread⟩
    exact ⟨delta, hmem, by rw [placeOf_absent habsent, if_pos hform], hread⟩
  · rintro ⟨delta, hmem, hplace, hread⟩
    have habsent : identityCount base delta.identity = 0 := by
      by_contra hpresent
      exact (placeOf_present hpresent).1 hplace
    rw [placeOf_absent habsent] at hplace
    split_ifs at hplace with hform
    exact ⟨delta, ⟨⟨hmem, habsent⟩, hform⟩, hread⟩

/-- What is reported is every delta with a reason not to be applied, and that reason. -/
theorem mem_unattached (hash : HashOrder Delta) (hdeltas : (deltas.map Delta.identity).Nodup)
    (delta : Delta) (why : Unattached) :
    (delta, why) ∈ (resolve hash bookOrigin base deltas showHidden).unattached ↔
      delta ∈ deltas ∧ placeOf base showHidden delta = .unattached why := by
  obtain ⟨left, reported, hleft, -, hreported, -, heq⟩ :=
    resolve_eq hash bookOrigin base showHidden hdeltas
  rw [heq, SortBy.mem_sortBy, List.mem_append, hreported]
  by_cases habsent : identityCount base delta.identity = 0
  swap
  · refine ⟨fun h => h.elim (·.2) fun hlost => ?_, fun h => .inl ⟨habsent, h⟩⟩
    obtain ⟨other, hother, heq⟩ := List.mem_map.mp hlost
    obtain ⟨rfl, -⟩ := Prod.mk.inj heq
    exact absurd ((hleft other).mp (List.mem_of_mem_filter hother)).2 habsent
  · rw [placeOf_absent habsent]
    simp only [habsent, ne_eq, not_true_eq_false, false_and, false_or, List.mem_map, List.mem_filter,
      hleft, Prod.mk.injEq]
    constructor
    · rintro ⟨other, ⟨⟨hmem, -⟩, hform⟩, rfl, rfl⟩
      exact ⟨hmem, if_neg (by simpa using hform)⟩
    · rintro ⟨hmem, hwhy⟩
      split_ifs at hwhy with hform
      exact ⟨delta, ⟨⟨hmem, habsent⟩, by simpa using hform⟩, rfl, Place.unattached.inj hwhy⟩

theorem key_of_readOf {entry : StoredEntry} {read : WorldEntry}
    (h : readOf bookOrigin base deltas showHidden entry = some read) :
    read.id = entry.id ∧ read.identity = entry.identity ∧ read.state ≠ .added := by
  dsimp only [readOf] at h
  split at h
  · obtain rfl := Option.some.inj h
    exact ⟨rfl, rfl, nofun⟩
  · split at h
    · obtain rfl := Option.some.inj h
      exact ⟨rfl, rfl, nofun⟩
    · split_ifs at h
      obtain rfl := Option.some.inj h
      exact ⟨rfl, rfl, nofun⟩
    · obtain rfl := Option.some.inj h
      exact ⟨rfl, rfl, nofun⟩

theorem nodup_keys_filterMap {walked : List StoredEntry} (hwalked : (walked.map StoredEntry.id).Nodup) :
    ((walked.filterMap (readOf bookOrigin base deltas showHidden)).map WorldEntry.key).Nodup := by
  induction walked with
  | nil => exact .nil
  | cons entry walked ih =>
      obtain ⟨hnew, hwalked⟩ := List.nodup_cons.mp hwalked
      rw [List.filterMap_cons]
      cases hread : readOf bookOrigin base deltas showHidden entry with
      | none => exact ih hwalked
      | some read =>
          refine List.nodup_cons.mpr ⟨fun hmem => hnew ?_, ih hwalked⟩
          obtain ⟨other, hother, hkey⟩ := List.mem_map.mp hmem
          obtain ⟨source, hsource, hread'⟩ := List.mem_filterMap.mp hother
          have hid : other.id = read.id := BitVec.eq_of_toNat_eq (congrArg (fun key => (ofLex key).2) hkey)
          rw [(key_of_readOf hread).1, (key_of_readOf hread').1] at hid
          exact List.mem_map.mpr ⟨source, hsource, hid⟩

/-- Both lists are in strict order. -/
theorem resolve_ordered (hash : HashOrder Delta) (bookOrigin : ContentOrigin) (showHidden : Bool)
    (hbase : (base.map StoredEntry.id).Nodup) (hdeltas : (deltas.map Delta.identity).Nodup) :
    (resolve hash bookOrigin base deltas showHidden).entries.Pairwise (fun a b => a.key < b.key) ∧
      (resolve hash bookOrigin base deltas showHidden).unattached.Pairwise
        (fun a b => a.1.identity < b.1.identity) := by
  obtain ⟨left, reported, hleft, hdistinct, hreported, hunique, heq⟩ :=
    resolve_eq hash bookOrigin base showHidden hdeltas
  rw [heq]
  constructor
  · refine SortBy.pairwise_lt_sortBy _ ?_
    rw [List.map_append, List.nodup_append']
    refine ⟨?_, ?_, List.disjoint_left.mpr fun key hread hadded => ?_⟩
    · exact nodup_keys_filterMap hbase
    · refine List.Nodup.of_map (fun key => (ofLex key).1) ?_
      rw [List.map_map, List.map_map]
      exact (hdistinct.sublist (List.filter_sublist.map _))
    · obtain ⟨read, hmem, rfl⟩ := List.mem_map.mp hread
      obtain ⟨entry, hentry, hread⟩ := List.mem_filterMap.mp hmem
      obtain ⟨added, hadded, hkey⟩ := List.mem_map.mp hadded
      obtain ⟨delta, hdelta, rfl⟩ := List.mem_map.mp hadded
      have hsame : delta.identity = read.identity := congrArg (fun key => (ofLex key).1) hkey
      have habsent := ((hleft delta).mp (List.mem_of_mem_filter hdelta)).2
      rw [hsame, (key_of_readOf hread).2.1] at habsent
      exact (identityCount_pos hentry).ne' habsent
  · refine SortBy.pairwise_lt_sortBy _ ?_
    rw [List.map_append, List.nodup_append']
    refine ⟨hunique, ?_, List.disjoint_left.mpr fun identity hreport hlost => ?_⟩
    · rw [List.map_map]
      exact hdistinct.sublist (List.filter_sublist.map _)
    · obtain ⟨⟨delta, why⟩, hdelta, rfl⟩ := List.mem_map.mp hreport
      obtain ⟨⟨lost, reason⟩, hlost, hsame⟩ := List.mem_map.mp hlost
      obtain ⟨other, hother, heq⟩ := List.mem_map.mp hlost
      obtain ⟨rfl, -⟩ := Prod.mk.inj heq
      have habsent := ((hleft other).mp (List.mem_of_mem_filter hother)).2
      rw [show other.identity = delta.identity from hsame] at habsent
      exact ((hreported delta why).mp hdelta).1 habsent

/-- The ways a base entry can be read. -/
inductive Reading (bookOrigin : ContentOrigin) (base : List StoredEntry) (deltas : List Delta)
    (showHidden : Bool) (entry : StoredEntry) : Option WorldEntry → Prop
  | twin (htwins : 1 < identityCount base entry.identity) :
      Reading bookOrigin base deltas showHidden entry (some (entry.asRead bookOrigin true))
  | untouched (honce : identityCount base entry.identity = 1)
      (hnone : ∀ delta ∈ deltas, delta.identity ≠ entry.identity) :
      Reading bookOrigin base deltas showHidden entry (some (entry.asRead bookOrigin false))
  | changed (honce : identityCount base entry.identity = 1) (delta : Delta) (hmem : delta ∈ deltas)
      (hsame : delta.identity = entry.identity) (hform : delta.form = .changed) :
      Reading bookOrigin base deltas showHidden entry
        (some ((entry.asRead bookOrigin false).change bookOrigin delta))
  | hidden (honce : identityCount base entry.identity = 1) (delta : Delta) (hmem : delta ∈ deltas)
      (hsame : delta.identity = entry.identity) (hform : delta.form = .hidden)
      (hshow : showHidden = true) : Reading bookOrigin base deltas showHidden entry
        (some ((entry.asRead bookOrigin false).hide bookOrigin delta))
  | withheld (honce : identityCount base entry.identity = 1) (delta : Delta) (hmem : delta ∈ deltas)
      (hsame : delta.identity = entry.identity) (hform : delta.form = .hidden)
      (hshow : showHidden = false) : Reading bookOrigin base deltas showHidden entry none
  | shadowing (honce : identityCount base entry.identity = 1) (delta : Delta) (hmem : delta ∈ deltas)
      (hsame : delta.identity = entry.identity) (hform : delta.form = .added) :
      Reading bookOrigin base deltas showHidden entry (some (entry.asRead bookOrigin false))

theorem reading (bookOrigin : ContentOrigin) (showHidden : Bool)
    (hdeltas : (deltas.map Delta.identity).Nodup) {entry : StoredEntry} (hentry : entry ∈ base) :
    Reading bookOrigin base deltas showHidden entry (readOf bookOrigin base deltas showHidden entry) := by
  dsimp only [readOf]
  by_cases htwins : 1 < identityCount base entry.identity
  · simp only [gt_iff_lt, htwins, decide_true, if_true]
    exact .twin htwins
  have honce : identityCount base entry.identity = 1 := by
    have := identityCount_pos hentry
    omega
  simp only [gt_iff_lt, htwins, decide_false, Bool.false_eq_true, if_false]
  cases hdelta : deltaOver deltas entry.identity with
  | none =>
      refine .untouched honce fun delta hmem hsame => ?_
      rw [(deltaOver_eq_some hdeltas).mpr ⟨hmem, hsame⟩] at hdelta
      cases hdelta
  | some delta =>
      obtain ⟨hmem, hsame⟩ := (deltaOver_eq_some hdeltas).mp hdelta
      cases hform : delta.form with
      | changed => simpa only [hform] using .changed honce delta hmem hsame hform
      | hidden =>
          cases hshow : showHidden with
          | true => simpa only [hform, if_true] using .hidden honce delta hmem hsame hform rfl
          | false => simpa [hform] using .withheld honce delta hmem hsame hform rfl
      | added => simpa only [hform] using .shadowing honce delta hmem hsame hform

end Walk

/-! ### Fields -/

/-- The value of a field, when there is one. -/
def FieldValues.field? : FieldValues → String → Option Json
  | .object fields, field => fields[field]?
  | .other _, _ => none

/-- The fields of a change win, and every other field is the base's. -/
theorem field?_overlay (base : FieldValues) (changed : Option FieldValues) (field : String) :
    (overlay base changed).field? field =
      (changed.bind (FieldValues.field? · field)).or (base.field? field) := by
  rcases changed with _ | changed | value
  · simp [overlay]
  · rcases base with fields | value <;> simp [overlay, FieldValues.field?, ExtTreeMap.getElem?_union]
  · simp [overlay, FieldValues.field?]

end ThunderForge.Library
