import Mathlib.Data.List.Nodup
import Mathlib.Data.Prod.Lex
import ThunderForge.Basic

/-! The moderation log, and the calls that write it: takedown notices, counter-notices, resolutions, their
fan-outs to the copies people took, and reads, which restore what has fallen due. -/

namespace ThunderForge.Moderation

/-- `ModerationActionType`. -/
inductive ActionType where
  | noticeReceived
  | noticeRejectedIncomplete
  | contentDisabled
  | counterNoticeReceived
  | counterNoticeForwarded
  | contentRestored
  | contentRemainsDisabled
  | contentDisabledAsCopy
  deriving DecidableEq

/-- `ModerationEntityType`. -/
inductive EntityType where
  | worldActor
  | worldItem
  | worldLoreEntry
  | worldAbility
  | scene
  deriving DecidableEq

/-- The text `resolve_entity_owner` fails with when there is no such entity. -/
def EntityType.notFound : EntityType → String
  | .worldActor => "Actor not found"
  | .worldItem => "Item not found"
  | .worldLoreEntry => "Lore entry not found"
  | .worldAbility => "Ability not found"
  | .scene => "Scene not found"

structure Entity where
  entityType : EntityType
  entityId : Uuid
  deriving DecidableEq

/-- A `created_at`: the time in microseconds, and how many statements ran before this one. -/
abbrev Stamp := Int ×ₗ Nat

def Stamp.time (stamp : Stamp) : Int := (ofLex stamp).1

/-- A case id, `Uuid::now_v7()`: a new one is new, and comes after every earlier one. -/
abbrev CaseId := Nat

structure ContentModerationAction where
  caseId : CaseId
  parentCaseId : Option CaseId := none
  actionType : ActionType
  entity : Entity
  worldId : Uuid
  accountId : Option Uuid
  restorationDueAt : Option Int := none
  createdAt : Stamp
  deriving DecidableEq

/-- A row of `content_adoptions`. -/
structure Adoption where
  source : Entity
  copy : Entity
  destinationWorldId : Uuid
  adoptedBy : Uuid
  deriving DecidableEq

/-- What the rest of the program decides: the entities there are, each with its world and the account
that made it, the copies taken, oldest first, and who runs a world. -/
structure Content where
  owner : Entity → Option (Uuid × Uuid) := fun _ => none
  adoptions : List Adoption := []
  runsTheWorld : Uuid → Uuid → Bool := fun _ _ => false

/-- The moderation log, newest first, the clock, and the cases opened by a notice so far, each with the
account that owned the content then; no code reads the last. -/
structure Programme where
  log : List ContentModerationAction := []
  content : Content := {}
  time : Int := 0
  statements : Nat := 0
  nextCase : CaseId := 0
  noticed : List (CaseId × Uuid) := []

structure TakedownNoticeFields where
  claimantName : String
  claimantContact : String
  copyrightedWorkDescription : String
  infringingMaterialLocation : String
  goodFaithStatement : Bool
  accuracyStatement : Bool
  signature : String

/-- The elements a takedown notice lacks. -/
def validateTakedownNotice (fields : TakedownNoticeFields) : List String :=
  (if trim fields.claimantName = "" then ["claimantName"] else []) ++
    (if trim fields.claimantContact = "" then ["claimantContact"] else []) ++
    (if trim fields.copyrightedWorkDescription = "" then ["copyrightedWorkDescription"] else []) ++
    (if trim fields.infringingMaterialLocation = "" then ["infringingMaterialLocation"] else []) ++
    (if fields.goodFaithStatement then [] else ["goodFaithStatement"]) ++
    (if fields.accuracyStatement then [] else ["accuracyStatement"]) ++
    (if trim fields.signature = "" then ["signature"] else [])

structure CounterNoticeFields where
  removedMaterialDescription : String
  goodFaithMistakeStatement : Bool
  consentToJurisdiction : Bool
  contactInformation : String
  signature : String

/-- The elements a counter-notice lacks. -/
def validateCounterNotice (fields : CounterNoticeFields) : List String :=
  (if trim fields.removedMaterialDescription = "" then ["removedMaterialDescription"] else []) ++
    (if fields.goodFaithMistakeStatement then [] else ["goodFaithMistakeStatement"]) ++
    (if fields.consentToJurisdiction then [] else ["consentToJurisdiction"]) ++
    (if trim fields.contactInformation = "" then ["contactInformation"] else []) ++
    (if trim fields.signature = "" then ["signature"] else [])

/-- A day, in microseconds. -/
def day : Int := 24 * 60 * 60 * 1000000

/-- Whether a case whose latest event is `action` counts as a strike. -/
def countsAsStrike (action : ActionType) : Bool :=
  action = .contentDisabled || action = .contentRemainsDisabled

def isDisabledStatus (action : ActionType) : Bool :=
  action = .contentDisabled || action = .contentRemainsDisabled || action = .contentDisabledAsCopy

/-- The latest event on an entity, over all its cases. -/
def latestEvent (log : List ContentModerationAction) (entity : Entity) : Option ContentModerationAction :=
  log.find? fun event => event.entity = entity

/-- The latest event of a case. -/
def lastOf (log : List ContentModerationAction) (caseId : CaseId) : Option ContentModerationAction :=
  log.find? fun event => event.caseId = caseId

/-- The events of a case, oldest first. -/
def loadCaseEvents (log : List ContentModerationAction) (caseId : CaseId) : List ContentModerationAction :=
  log.reverse.filter fun event => event.caseId = caseId

namespace Programme

/-- The `created_at` of a row written now. -/
def now (s : Programme) : Stamp := toLex (s.time, s.statements)

/-- Rows written by one statement, or in one transaction: `created_at` defaults to its beginning. -/
def insert (s : Programme) (events : List (Stamp → ContentModerationAction)) : Programme :=
  { s with
    log := (events.map (· s.now)).reverse ++ s.log
    statements := s.statements + 1 }

end Programme

/-- The rows whose copy has not been seen yet, each copy once, and what has been seen after them. -/
def takeUnseen : List Entity → List Adoption → List Adoption × List Entity
  | seen, [] => ([], seen)
  | seen, row :: rows =>
    if row.copy ∈ seen then takeUnseen seen rows
    else
      let (taken, seen') := takeUnseen (row.copy :: seen) rows
      (row :: taken, seen')

/-- The walk of `copies_of` over its queue. -/
def copiesWalk (adoptions : List Adoption) : Nat → List Entity → List Entity → List Adoption
  | 0, _, _ => []
  | _, _, [] => []
  | fuel + 1, seen, source :: frontier =>
    let (reached, seen') := takeUnseen seen (adoptions.filter fun row => row.source = source)
    reached ++ copiesWalk adoptions fuel seen' (frontier ++ reached.map Adoption.copy)

/-- Every copy descended from an entity, nearest first. No walk is longer than the adoptions are many. -/
def copiesOf (adoptions : List Adoption) (entity : Entity) : List Adoption :=
  copiesWalk adoptions (adoptions.length + 1) [entity] [entity]

/-- What a walk takes was unseen, is seen after it, and takes no copy twice. -/
theorem takeUnseen_spec (seen : List Entity) (rows : List Adoption) :
    (takeUnseen seen rows).1.Sublist rows ∧ (∀ row ∈ (takeUnseen seen rows).1, row.copy ∉ seen) ∧
      ∀ copy, copy ∈ (takeUnseen seen rows).2 ↔ copy ∈ seen ∨ copy ∈ (takeUnseen seen rows).1.map Adoption.copy := by
  induction rows generalizing seen with
  | nil => simp [takeUnseen]
  | cons row rows ih =>
      unfold takeUnseen
      split_ifs with hseen
      · obtain ⟨hsub, hnew, hmem⟩ := ih seen
        exact ⟨hsub.cons _, hnew, hmem⟩
      · obtain ⟨hsub, hnew, hmem⟩ := ih (row.copy :: seen)
        refine ⟨hsub.cons_cons _, ?_, fun copy => ?_⟩
        · refine List.forall_mem_cons.mpr ⟨hseen, fun taken htaken hold => ?_⟩
          exact hnew taken htaken (List.mem_cons_of_mem _ hold)
        · simp only [hmem, List.mem_cons, List.map_cons]
          tauto

/-- What is taken was unseen and is seen after it, so there is so much less to take. -/
theorem takeUnseen_measure (adoptions : List Adoption) (seen : List Entity) (source : Entity) :
    let (reached, seen') := takeUnseen seen (adoptions.filter fun row => row.source = source)
    reached.length + (adoptions.countP fun row => row.copy ∉ seen') ≤ adoptions.countP fun row => row.copy ∉ seen := by
  obtain ⟨hsub, hnew, hmem⟩ := takeUnseen_spec seen (adoptions.filter fun row => row.source = source)
  generalize takeUnseen seen (adoptions.filter fun row => row.source = source) = result at *
  obtain ⟨reached, seen'⟩ := result
  have htaken : reached.length ≤ (adoptions.filter fun row => row.copy ∉ seen).countP
      fun row => row.copy ∈ seen' := by
    rw [List.countP_filter, ← List.countP_eq_length.mpr fun row hrow => ?_]
    · exact (hsub.trans List.filter_sublist).countP_le
    · simp only [decide_eq_true_eq, Bool.and_eq_true]
      exact ⟨(hmem _).mpr (Or.inr (List.mem_map_of_mem hrow)), hnew row hrow⟩
  have hrest : (adoptions.countP fun row => row.copy ∉ seen') =
      (adoptions.filter fun row => row.copy ∉ seen).countP fun row => row.copy ∉ seen' := by
    rw [List.countP_filter]
    refine List.countP_congr fun row _ => ?_
    simp only [decide_eq_true_eq, Bool.and_eq_true, hmem]
    tauto
  have hcount := List.length_eq_countP_add_countP (fun row : Adoption => decide (row.copy ∈ seen'))
    (l := adoptions.filter fun row => row.copy ∉ seen)
  rw [← List.countP_eq_length_filter] at hcount
  simp only [decide_eq_true_eq] at hcount
  dsimp only
  omega

/-- A walk ends when nothing unseen is left to be reached: more fuel than that changes nothing. -/
theorem copiesWalk_fuel (adoptions : List Adoption) {fuel : Nat} {seen frontier : List Entity}
    (h : frontier.length + (adoptions.countP fun row => row.copy ∉ seen) ≤ fuel) :
    copiesWalk adoptions (fuel + 1) seen frontier = copiesWalk adoptions fuel seen frontier := by
  induction fuel generalizing seen frontier with
  | zero =>
      obtain rfl : frontier = [] := List.length_eq_zero_iff.mp (by omega)
      rfl
  | succ fuel ih =>
      cases frontier with
      | nil => rfl
      | cons source frontier =>
          have hmeasure := takeUnseen_measure adoptions seen source
          rw [copiesWalk, copiesWalk]
          generalize takeUnseen seen (adoptions.filter fun row => row.source = source) = result at *
          obtain ⟨reached, seen'⟩ := result
          refine congrArg (reached ++ ·) (ih ?_)
          simp only [List.length_append, List.length_map, List.length_cons] at h hmeasure ⊢
          omega

/-- No fuel beyond what `copiesOf` has reaches another copy. -/
theorem copiesWalk_eq_copiesOf (adoptions : List Adoption) (entity : Entity) (extra : Nat) :
    copiesWalk adoptions (adoptions.length + 1 + extra) [entity] [entity] = copiesOf adoptions entity := by
  induction extra with
  | zero => rfl
  | succ extra ih =>
      rw [← ih, ← Nat.add_assoc]
      refine copiesWalk_fuel adoptions ?_
      have hle : (adoptions.countP fun row => row.copy ∉ [entity]) ≤ adoptions.length := List.countP_le_length
      rw [List.length_singleton]
      omega

structure Child where
  caseId : CaseId
  entity : Entity
  worldId : Uuid
  deriving DecidableEq

/-- A row lists its case unless an earlier row has. -/
def addChild (children : List Child) (event : ContentModerationAction) : List Child :=
  if children.any fun child => child.caseId = event.caseId then children
  else children ++ [{ caseId := event.caseId, entity := event.entity, worldId := event.worldId }]

/-- The child cases of a case, each as its opening row describes it. -/
def childCases (log : List ContentModerationAction) (parentCaseId : CaseId) : List Child :=
  (log.reverse.filter fun event => event.parentCaseId = some parentCaseId).foldl addChild []

/-- One event in a child case: no account, ever. -/
def childEvent (parentCaseId : CaseId) (action : ActionType) (restorationDueAt : Option Int) (child : Child)
    (createdAt : Stamp) : ContentModerationAction where
  caseId := child.caseId
  parentCaseId := some parentCaseId
  actionType := action
  entity := child.entity
  worldId := child.worldId
  accountId := none
  restorationDueAt
  createdAt

/-- The child case opened for a copy. -/
def openChild (entry : Adoption × CaseId) : Child where
  caseId := entry.2
  entity := entry.1.copy
  worldId := entry.1.destinationWorldId

namespace Programme

/-- Disable every copy taken of an entity, each in a child case. A copy since deleted is skipped. -/
def fanOutDisable (s : Programme) (parentCaseId : CaseId) (entity : Entity) : Programme :=
  let there := (copiesOf s.content.adoptions entity).filter fun copy => (s.content.owner copy.copy).isSome
  let children := (there.zipIdx s.nextCase).map openChild
  { s.insert (children.map (childEvent parentCaseId .contentDisabledAsCopy none)) with
    nextCase := s.nextCase + there.length }

/-- Forward a counter-notice, with the same due date, in every child case. -/
def fanOutForward (s : Programme) (parentCaseId : CaseId) (restorationDueAt : Int) : Programme :=
  s.insert ((childCases s.log parentCaseId).map
    (childEvent parentCaseId .counterNoticeForwarded (some restorationDueAt)))

/-- The same resolution in every child case. -/
def fanOutResolve (s : Programme) (parentCaseId : CaseId) (resolution : ActionType) : Programme :=
  s.insert ((childCases s.log parentCaseId).map (childEvent parentCaseId resolution none))

/-- Public: anybody may submit a notice. An incomplete one is recorded and refused. -/
def submitTakedownNotice (s : Programme) (entity : Entity) (fields : TakedownNoticeFields) :
    Except String Programme :=
  match s.content.owner entity with
  | none => .error entity.entityType.notFound
  | some (worldId, accountId) =>
    let caseId := s.nextCase
    let opened := { s with nextCase := caseId + 1, noticed := (caseId, accountId) :: s.noticed }
    let event (action : ActionType) (createdAt : Stamp) : ContentModerationAction :=
      { caseId, actionType := action, entity, worldId, accountId := some accountId, createdAt }
    if validateTakedownNotice fields ≠ [] then .ok (opened.insert [event .noticeRejectedIncomplete])
    else
      let disabled := (opened.insert [event .noticeReceived]).insert [event .contentDisabled]
      .ok (disabled.fanOutDisable caseId entity)

def isDmOfWorld (s : Programme) (userId : Uuid) (isAdmin : Bool) (worldId : Uuid) : Bool :=
  isAdmin || s.content.runsTheWorld userId worldId

/-- Any Game Master of the world the case is about may file a counter-notice, under the waiting period
in force. -/
def submitCounterNotice (s : Programme) (userId : Uuid) (isAdmin : Bool) (waitingDays : Int) (caseId : CaseId)
    (fields : CounterNoticeFields) : Except String Programme :=
  let missing := validateCounterNotice fields
  if missing ≠ [] then .error ("Counter-notice missing required elements: " ++ ", ".intercalate missing)
  else
    match lastOf s.log caseId with
    | none => .error "Case not found"
    | some last =>
      if !s.isDmOfWorld userId isAdmin last.worldId then
        .error "Only the content's owning GM may submit a counter-notice for this case"
      else
        let restorationDueAt := s.time + waitingDays * day
        let event (action : ActionType) (due : Option Int) (createdAt : Stamp) : ContentModerationAction :=
          { caseId, actionType := action, entity := last.entity, worldId := last.worldId
            accountId := some userId, restorationDueAt := due, createdAt }
        let received := s.insert [event .counterNoticeReceived none]
        let forwarded := received.insert [event .counterNoticeForwarded (some restorationDueAt)]
        .ok (forwarded.fanOutForward caseId restorationDueAt)

/-- Compliance staff resolve a case. -/
def resolveModerationCase (s : Programme) (isAdmin : Bool) (caseId : CaseId) (resolution : ActionType) :
    Except String Programme :=
  if !isAdmin then .error "Only compliance staff may resolve a moderation case"
  else
    match lastOf s.log caseId with
    | none => .error "Case not found"
    | some last =>
      if resolution = .contentDisabledAsCopy then
        .error "A copy is disabled only by its source's takedown. Resolve the notice's case instead."
      else
        let resolved := s.insert [fun createdAt =>
          { caseId, actionType := resolution, entity := last.entity, worldId := last.worldId
            accountId := last.accountId, createdAt }]
        .ok (resolved.fanOutResolve caseId resolution)

/-- The gate every read path consults, and what the read leaves behind: a forwarded counter-notice whose
waiting period has elapsed restores now. -/
def effectiveStatusSync (s : Programme) (entity : Entity) : Option ActionType × Programme :=
  match latestEvent s.log entity with
  | none => (none, s)
  | some event =>
    if event.actionType = .counterNoticeForwarded then
      if event.restorationDueAt.any fun due => decide (due ≤ s.time) then
        (none, s.insert [fun createdAt =>
          { caseId := event.caseId, actionType := .contentRestored, entity := event.entity
            worldId := event.worldId, accountId := none, createdAt }])
      else (some .contentDisabled, s)
    else if isDisabledStatus event.actionType then (some event.actionType, s)
    else (none, s)

end Programme

inductive Call where
  | submitTakedownNotice (entity : Entity) (fields : TakedownNoticeFields)
  | submitCounterNotice (userId : Uuid) (isAdmin : Bool) (waitingDays : Int) (caseId : CaseId)
      (fields : CounterNoticeFields)
  | resolveModerationCase (isAdmin : Bool) (caseId : CaseId) (resolution : ActionType)
  | effectiveStatus (entity : Entity)
  | wait (duration : Nat)
  | elsewhere (content : Content)

/-- One call; a refused one changes nothing. Time passes, and the rest of the program works on content,
adoptions and memberships, between the calls. -/
def step (s : Programme) : Call → Programme
  | .submitTakedownNotice entity fields => (s.submitTakedownNotice entity fields).toOption.getD s
  | .submitCounterNotice userId isAdmin waitingDays caseId fields =>
    (s.submitCounterNotice userId isAdmin waitingDays caseId fields).toOption.getD s
  | .resolveModerationCase isAdmin caseId resolution =>
    (s.resolveModerationCase isAdmin caseId resolution).toOption.getD s
  | .effectiveStatus entity => (s.effectiveStatusSync entity).2
  | .wait duration => { s with time := s.time + duration }
  | .elsewhere content => { s with content }

section

variable {s : Programme} {log : List ContentModerationAction} {event : ContentModerationAction}

/-- The event a notice's own call writes. -/
def noticeEvent (caseId : CaseId) (entity : Entity) (owner : Uuid × Uuid) (action : ActionType)
    (createdAt : Stamp) : ContentModerationAction where
  caseId
  actionType := action
  entity
  worldId := owner.1
  accountId := some owner.2
  createdAt

/-- An event that follows the last one of a case. -/
def followUp (last : ContentModerationAction) (action : ActionType) (accountId : Option Uuid)
    (restorationDueAt : Option Int) (createdAt : Stamp) : ContentModerationAction where
  caseId := last.caseId
  actionType := action
  entity := last.entity
  worldId := last.worldId
  accountId
  restorationDueAt
  createdAt

/-- The case a notice opens, before anything is written in it. -/
def Programme.opened (s : Programme) (accountId : Uuid) : Programme :=
  { s with nextCase := s.nextCase + 1, noticed := (s.nextCase, accountId) :: s.noticed }

theorem lastOf_caseId {caseId : CaseId} (h : lastOf log caseId = some event) : event.caseId = caseId := by
  simpa using List.find?_some h

theorem latestEvent_entity {entity : Entity} (h : latestEvent log entity = some event) :
    event.entity = entity := by
  simpa using List.find?_some h

/-- A notice is refused for want of its subject, recorded as incomplete, or disables the content and the
copies of it. -/
theorem submitTakedownNotice_cases (entity : Entity) (fields : TakedownNoticeFields) :
    step s (.submitTakedownNotice entity fields) = s ∨
      ∃ owner, s.content.owner entity = some owner ∧
        ((validateTakedownNotice fields ≠ [] ∧ step s (.submitTakedownNotice entity fields) =
            (s.opened owner.2).insert [noticeEvent s.nextCase entity owner .noticeRejectedIncomplete]) ∨
          (validateTakedownNotice fields = [] ∧ step s (.submitTakedownNotice entity fields) =
            (((s.opened owner.2).insert [noticeEvent s.nextCase entity owner .noticeReceived]).insert
              [noticeEvent s.nextCase entity owner .contentDisabled]).fanOutDisable s.nextCase entity)) := by
  simp only [step, Programme.submitTakedownNotice]
  cases howner : s.content.owner entity with
  | none => exact Or.inl rfl
  | some owner =>
      refine Or.inr ⟨owner, rfl, ?_⟩
      by_cases hmissing : validateTakedownNotice fields = []
      · refine Or.inr ⟨hmissing, ?_⟩
        simp only [hmissing, ne_eq, not_true_eq_false, if_false]
        rfl
      · refine Or.inl ⟨hmissing, ?_⟩
        simp only [hmissing, ne_eq, not_false_eq_true, if_true]
        rfl

/-- A counter-notice is refused, or received, forwarded, and forwarded in every child case. -/
theorem submitCounterNotice_cases (userId : Uuid) (isAdmin : Bool) (waitingDays : Int) (caseId : CaseId)
    (fields : CounterNoticeFields) :
    step s (.submitCounterNotice userId isAdmin waitingDays caseId fields) = s ∨
      ∃ last, lastOf s.log caseId = some last ∧ validateCounterNotice fields = [] ∧
        s.isDmOfWorld userId isAdmin last.worldId = true ∧
        step s (.submitCounterNotice userId isAdmin waitingDays caseId fields) =
          ((s.insert [followUp last .counterNoticeReceived (some userId) none]).insert
            [followUp last .counterNoticeForwarded (some userId)
              (some (s.time + waitingDays * day))]).fanOutForward caseId (s.time + waitingDays * day) := by
  simp only [step, Programme.submitCounterNotice]
  by_cases hmissing : validateCounterNotice fields = []
  · simp only [hmissing, ne_eq, not_true_eq_false, if_false]
    cases hlast : lastOf s.log caseId with
    | none => exact Or.inl rfl
    | some last =>
        by_cases hdm : s.isDmOfWorld userId isAdmin last.worldId = true
        · refine Or.inr ⟨last, rfl, trivial, hdm, ?_⟩
          obtain rfl := lastOf_caseId hlast
          simp only [hdm, Bool.not_true, Bool.false_eq_true, if_false]
          rfl
        · refine Or.inl ?_
          simp only [Bool.not_eq_true] at hdm
          simp only [hdm, Bool.not_false, if_true]
          rfl
  · refine Or.inl ?_
    simp only [hmissing, ne_eq, not_false_eq_true, if_true]
    rfl

/-- A resolution is refused, or written in the case and in every child case. -/
theorem resolveModerationCase_cases (isAdmin : Bool) (caseId : CaseId) (resolution : ActionType) :
    step s (.resolveModerationCase isAdmin caseId resolution) = s ∨
      ∃ last, lastOf s.log caseId = some last ∧ isAdmin = true ∧ resolution ≠ .contentDisabledAsCopy ∧
        step s (.resolveModerationCase isAdmin caseId resolution) =
          (s.insert [followUp last resolution last.accountId none]).fanOutResolve caseId resolution := by
  simp only [step, Programme.resolveModerationCase]
  cases isAdmin with
  | false => exact Or.inl rfl
  | true =>
      cases hlast : lastOf s.log caseId with
      | none => exact Or.inl rfl
      | some last =>
          by_cases hcopy : resolution = .contentDisabledAsCopy
          · subst hcopy
            exact Or.inl rfl
          · refine Or.inr ⟨last, rfl, rfl, hcopy, ?_⟩
            obtain rfl := lastOf_caseId hlast
            simp only [hcopy, Bool.not_true, Bool.false_eq_true, if_false]
            rfl

/-- A read changes nothing, or restores what a forwarded counter-notice left to fall due. -/
theorem effectiveStatus_cases (entity : Entity) :
    step s (.effectiveStatus entity) = s ∨
      ∃ last due, latestEvent s.log entity = some last ∧ last.actionType = .counterNoticeForwarded ∧
        last.restorationDueAt = some due ∧ due ≤ s.time ∧
        step s (.effectiveStatus entity) = s.insert [followUp last .contentRestored none none] := by
  simp only [step, Programme.effectiveStatusSync]
  cases hlast : latestEvent s.log entity with
  | none => exact Or.inl rfl
  | some last =>
      dsimp only
      split_ifs with hforwarded hdue hdisabled
      · obtain ⟨due, hat, hdue⟩ := Option.any_eq_true _ _ |>.mp hdue
        exact Or.inr ⟨last, due, rfl, hforwarded, hat, by simpa using hdue, rfl⟩
      · exact Or.inl rfl
      · exact Or.inl rfl
      · exact Or.inl rfl

/-- An event of no child case opens none. -/
theorem childCases_append {parentCaseId : CaseId} {new : List ContentModerationAction}
    (h : ∀ event ∈ new, event.parentCaseId = none) : childCases (new ++ log) parentCaseId = childCases log parentCaseId := by
  have hnone : (new.filter fun event => decide (event.parentCaseId = some parentCaseId)) = [] := by
    refine List.filter_eq_nil_iff.mpr fun event hevent => ?_
    simp [h event hevent]
  simp only [childCases, List.reverse_append, List.filter_append, List.filter_reverse, hnone,
    List.reverse_nil, List.append_nil]

/-- Children that rows list: each once, each as a row has it. -/
def Listed (rows : List ContentModerationAction) (children : List Child) : Prop :=
  (children.map Child.caseId).Nodup ∧
    ∀ child ∈ children, ∃ event ∈ rows, event.caseId = child.caseId ∧ event.entity = child.entity

theorem Listed.addChild {rows : List ContentModerationAction} {children : List Child}
    (h : Listed rows children) (hevent : event ∈ rows) : Listed rows (addChild children event) := by
  unfold Moderation.addChild
  split_ifs with hseen
  · exact h
  · refine ⟨?_, fun child hchild => ?_⟩
    · rw [List.map_append, List.nodup_append]
      refine ⟨h.1, List.nodup_singleton _, fun id hid id' hid' heq => hseen ?_⟩
      obtain ⟨child, hchild, rfl⟩ := List.mem_map.mp hid
      rw [List.map_singleton, List.mem_singleton] at hid'
      exact List.any_eq_true.mpr ⟨child, hchild, by simpa using heq.trans hid'⟩
    · obtain hold | hnew := List.mem_append.mp hchild
      · exact h.2 child hold
      · rw [List.mem_singleton] at hnew
        subst hnew
        exact ⟨event, hevent, rfl, rfl⟩

/-- A child case is one that an event of the log opens under its parent, and each is listed once. -/
theorem childCases_listed (parentCaseId : CaseId) :
    Listed (log.filter fun event => event.parentCaseId = some parentCaseId) (childCases log parentCaseId) := by
  have hfold : ∀ (rows : List ContentModerationAction) children, (∀ event ∈ rows, event ∈ log.filter fun event =>
        event.parentCaseId = some parentCaseId) →
      Listed (log.filter fun event => event.parentCaseId = some parentCaseId) children →
      Listed (log.filter fun event => event.parentCaseId = some parentCaseId) (rows.foldl addChild children) := by
    intro rows
    induction rows with
    | nil => exact fun children _ h => h
    | cons row rows ih =>
        intro children hrows h
        obtain ⟨hrow, hrows⟩ := List.forall_mem_cons.mp hrows
        exact ih (Moderation.addChild children row) hrows (h.addChild hrow)
  refine hfold _ [] (fun event hevent => ?_) ⟨List.nodup_nil, by simp⟩
  simpa using hevent

end

end ThunderForge.Moderation
