import ThunderForge.Moderation.Visibility

/-! How far a takedown reaches (`moderation/reach.rs`): the walk over the copies ends, and takes every copy there is
to be reached once; and a copy with no other case is hidden and shown with its source. -/

namespace ThunderForge.Moderation

section walk

/-- `copy` was taken of `source`. -/
def Taken (adoptions : List Adoption) (source copy : Entity) : Prop :=
  ∃ row ∈ adoptions, row.source = source ∧ row.copy = copy

/-- The loop of `copies_of`, from what it has seen and its queue to what it has reached by its end. -/
inductive Walks (adoptions : List Adoption) : List Entity → List Entity → List Adoption → Prop
  | done (seen : List Entity) : Walks adoptions seen [] []
  | next {seen frontier : List Entity} {source : Entity} {reached rest : List Adoption} {seen' : List Entity}
      (htake : takeUnseen seen (adoptions.filter fun row => row.source = source) = (reached, seen'))
      (hrest : Walks adoptions seen' (frontier ++ reached.map Adoption.copy) rest) :
      Walks adoptions seen (source :: frontier) (reached ++ rest)

variable {adoptions : List Adoption} {seen frontier : List Entity} {result : List Adoption}

theorem takeUnseen_nodup (seen : List Entity) (rows : List Adoption) :
    ((takeUnseen seen rows).1.map Adoption.copy).Nodup := by
  induction rows generalizing seen with
  | nil => exact List.nodup_nil
  | cons row rows ih =>
      unfold takeUnseen
      split_ifs with hseen
      · exact ih seen
      · refine List.nodup_cons.mpr ⟨fun hmem => ?_, ih _⟩
        obtain ⟨taken, htaken, hcopy⟩ := List.mem_map.mp hmem
        apply (takeUnseen_spec (row.copy :: seen) rows).2.1 taken htaken
        rw [hcopy]
        exact List.mem_cons_self

theorem takeUnseen_seen (seen : List Entity) (rows : List Adoption) {row : Adoption} (h : row ∈ rows) :
    row.copy ∈ (takeUnseen seen rows).2 := by
  induction rows generalizing seen with
  | nil => cases h
  | cons first rows ih =>
      have hfirst (seen : List Entity) (hseen : first.copy ∈ seen) : first.copy ∈ (takeUnseen seen rows).2 :=
        ((takeUnseen_spec seen rows).2.2 _).mpr (.inl hseen)
      unfold takeUnseen
      split_ifs with hseen
      · rcases List.mem_cons.mp h with rfl | h
        · exact hfirst seen hseen
        · exact ih seen h
      · rcases List.mem_cons.mp h with rfl | h
        · exact hfirst _ List.mem_cons_self
        · exact ih _ h

/-- With a step for every entity in the queue and every copy unseen, the walk comes to its end. -/
theorem walks_copiesWalk {fuel : Nat} (h : frontier.length + (adoptions.countP fun row => row.copy ∉ seen) ≤ fuel) :
    Walks adoptions seen frontier (copiesWalk adoptions fuel seen frontier) := by
  induction fuel generalizing seen frontier with
  | zero =>
      obtain rfl : frontier = [] := List.length_eq_zero_iff.mp (by omega)
      exact .done seen
  | succ fuel ih =>
      cases frontier with
      | nil => exact .done seen
      | cons source frontier =>
          rw [copiesWalk]
          refine .next rfl (ih ?_)
          have hmeasure := takeUnseen_measure adoptions seen source
          simp only [List.length_append, List.length_map, List.length_cons] at h ⊢
          omega

theorem walks_copiesOf (adoptions : List Adoption) (entity : Entity) :
    Walks adoptions [entity] [entity] (copiesOf adoptions entity) := by
  apply walks_copiesWalk
  have hle : (adoptions.countP fun row => row.copy ∉ [entity]) ≤ adoptions.length := List.countP_le_length
  rw [List.length_singleton]
  omega

/-- A walk reaches no copy twice, and none it had seen. -/
theorem Walks.nodup (h : Walks adoptions seen frontier result) :
    (result.map Adoption.copy).Nodup ∧ ∀ row ∈ result, row.copy ∉ seen := by
  induction h with
  | done seen => exact ⟨List.nodup_nil, by simp⟩
  | @next seen frontier source reached rest seen' htake hrest ih =>
      have hspec := takeUnseen_spec seen (adoptions.filter fun row => row.source = source)
      have hfirst := takeUnseen_nodup seen (adoptions.filter fun row => row.source = source)
      rw [htake] at hspec hfirst
      obtain ⟨-, hnew, hmem⟩ := hspec
      obtain ⟨hlater, hunseen⟩ := ih
      refine ⟨?_, fun row hrow hseen => ?_⟩
      · rw [List.map_append, List.nodup_append]
        refine ⟨hfirst, hlater, ?_⟩
        rintro copy hcopy other hother rfl
        obtain ⟨row, hrow, rfl⟩ := List.mem_map.mp hother
        exact hunseen row hrow ((hmem _).mpr (.inr hcopy))
      · rcases List.mem_append.mp hrow with hreached | hrow
        · exact hnew row hreached hseen
        · exact hunseen row hrow ((hmem _).mpr (.inl hseen))

/-- What a walk reaches is descended from its queue. -/
theorem Walks.sound (h : Walks adoptions seen frontier result) :
    ∀ row ∈ result, ∃ source ∈ frontier, Relation.ReflTransGen (Taken adoptions) source row.copy := by
  induction h with
  | done seen => simp
  | @next seen frontier source reached rest seen' htake hrest ih =>
      have hsub := (takeUnseen_spec seen (adoptions.filter fun row => row.source = source)).1
      rw [htake] at hsub
      have hstep (row : Adoption) (hrow : row ∈ reached) : Taken adoptions source row.copy := by
        obtain ⟨hmem, hsource⟩ := List.mem_filter.mp (hsub.subset hrow)
        exact ⟨row, hmem, of_decide_eq_true hsource, rfl⟩
      intro row hrow
      rcases List.mem_append.mp hrow with hreached | hrow
      · exact ⟨source, List.mem_cons_self, .single (hstep row hreached)⟩
      · obtain ⟨from', hfrom, hpath⟩ := ih row hrow
        rcases List.mem_append.mp hfrom with hfrontier | hreached
        · exact ⟨from', List.mem_cons_of_mem _ hfrontier, hpath⟩
        · obtain ⟨middle, hmiddle, rfl⟩ := List.mem_map.mp hreached
          exact ⟨source, List.mem_cons_self, .head (hstep middle hmiddle) hpath⟩

/-- Every copy of what has been seen has been seen, or its source is still in the queue. -/
def Pending (adoptions : List Adoption) (seen frontier : List Entity) : Prop :=
  ∀ source copy, Taken adoptions source copy → source ∈ seen → source ∈ frontier ∨ copy ∈ seen

/-- By the end of a walk nothing is left that could be reached. -/
theorem Walks.closed (h : Walks adoptions seen frontier result) (hpending : Pending adoptions seen frontier) :
    ∀ source copy, Taken adoptions source copy → source ∈ seen ∨ source ∈ result.map Adoption.copy →
      copy ∈ seen ∨ copy ∈ result.map Adoption.copy := by
  induction h with
  | done seen =>
      intro source copy htaken hsource
      rcases hsource with hseen | hnone
      · exact .inl ((hpending source copy htaken hseen).resolve_left List.not_mem_nil)
      · cases hnone
  | @next seen frontier first reached rest seen' htake hrest ih =>
      have hspec := takeUnseen_spec seen (adoptions.filter fun row => row.source = first)
      have hall (row : Adoption) := @takeUnseen_seen seen (adoptions.filter fun row => row.source = first) row
      rw [htake] at hspec
      simp only [htake] at hall
      obtain ⟨-, -, hmem⟩ := hspec
      have hpending' : Pending adoptions seen' (frontier ++ reached.map Adoption.copy) := by
        intro source copy htaken hsource
        rcases (hmem source).mp hsource with hold | hreached
        · rcases hpending source copy htaken hold with hqueued | hseen
          · rcases List.mem_cons.mp hqueued with rfl | hqueued
            · obtain ⟨row, hrow, hsame, rfl⟩ := htaken
              exact .inr (hall row (List.mem_filter.mpr ⟨hrow, decide_eq_true hsame⟩))
            · exact .inl (List.mem_append_left _ hqueued)
          · exact .inr ((hmem copy).mpr (.inl hseen))
        · exact .inl (List.mem_append_right _ hreached)
      have hsplit (entity : Entity) : entity ∈ seen ∨ entity ∈ (reached ++ rest).map Adoption.copy ↔
          entity ∈ seen' ∨ entity ∈ rest.map Adoption.copy := by
        rw [List.map_append, List.mem_append, hmem, or_assoc]
      intro source copy htaken hsource
      rw [hsplit] at hsource ⊢
      exact ih hpending' source copy htaken hsource

/-- The copies of an entity are what can be reached from it by adoption, other than itself. -/
theorem mem_copiesOf (adoptions : List Adoption) (entity copy : Entity) :
    copy ∈ (copiesOf adoptions entity).map Adoption.copy ↔
      copy ≠ entity ∧ Relation.ReflTransGen (Taken adoptions) entity copy := by
  have hwalks := walks_copiesOf adoptions entity
  constructor
  · intro hcopy
    obtain ⟨row, hrow, rfl⟩ := List.mem_map.mp hcopy
    obtain ⟨source, hsource, hpath⟩ := hwalks.sound row hrow
    obtain rfl := List.mem_singleton.mp hsource
    refine ⟨fun hself => hwalks.nodup.2 row hrow ?_, hpath⟩
    rw [hself]
    exact List.mem_singleton_self _
  · rintro ⟨hne, hpath⟩
    have hpending : Pending adoptions [entity] [entity] := fun source copy _ hsource => .inl hsource
    have hreached : copy ∈ [entity] ∨ copy ∈ (copiesOf adoptions entity).map Adoption.copy := by
      induction hpath with
      | refl => exact .inl (List.mem_singleton_self _)
      | @tail middle copy _ htaken ih =>
          by_cases hmiddle : middle = entity
          · subst hmiddle
            exact hwalks.closed hpending _ _ htaken (.inl (List.mem_singleton_self _))
          · exact hwalks.closed hpending _ _ htaken (ih hmiddle)
    exact hreached.resolve_left fun hself => hne (List.mem_singleton.mp hself)

end walk

section children

variable {s : Programme} {log : List ContentModerationAction}

/-- The child cases a takedown of an entity opens: one for each copy that is still there, nearest first. -/
def openedChildren (s : Programme) (entity : Entity) : List Child :=
  (((copiesOf s.content.adoptions entity).filter fun copy => (s.content.owner copy.copy).isSome).zipIdx s.nextCase).map
    openChild

theorem openedChildren_entities (s : Programme) (entity : Entity) :
    (openedChildren s entity).map Child.entity =
      ((copiesOf s.content.adoptions entity).filter fun copy => (s.content.owner copy.copy).isSome).map
        Adoption.copy := by
  have hentity : Child.entity ∘ openChild = Adoption.copy ∘ Prod.fst := by
    funext entry
    rfl
  unfold openedChildren
  rw [List.map_map, hentity, ← List.map_map, List.zipIdx_map_fst]

theorem openedChildren_cases (s : Programme) (entity : Entity) :
    ∃ count, (openedChildren s entity).map Child.caseId = List.range' s.nextCase count := by
  have hcase : Child.caseId ∘ openChild = Prod.snd := by
    funext entry
    rfl
  unfold openedChildren
  rw [List.map_map, hcase, List.zipIdx_map_snd]
  exact ⟨_, rfl⟩

/-- Each copy that is there to be reached gets one child case, and nothing else does. -/
theorem openedChildren_spec (s : Programme) (entity : Entity) :
    ((openedChildren s entity).map Child.entity).Nodup ∧ ((openedChildren s entity).map Child.caseId).Nodup ∧
      (∀ child ∈ openedChildren s entity, s.nextCase ≤ child.caseId) ∧
      ∀ copy, copy ∈ (openedChildren s entity).map Child.entity ↔ copy ≠ entity ∧
        Relation.ReflTransGen (Taken s.content.adoptions) entity copy ∧ (s.content.owner copy).isSome = true := by
  obtain ⟨count, hcases⟩ := openedChildren_cases s entity
  refine ⟨?_, ?_, fun child hchild => ?_, fun copy => ?_⟩
  · rw [openedChildren_entities]
    exact (walks_copiesOf s.content.adoptions entity).nodup.1.sublist (List.filter_sublist.map _)
  · rw [hcases]
    exact List.nodup_range'
  · have hmem : child.caseId ∈ (openedChildren s entity).map Child.caseId := List.mem_map_of_mem hchild
    rw [hcases, List.mem_range'_1] at hmem
    exact hmem.1
  · rw [openedChildren_entities, ← and_assoc, ← mem_copiesOf]
    simp only [List.mem_map, List.mem_filter]
    constructor
    · rintro ⟨row, ⟨hrow, hthere⟩, rfl⟩
      exact ⟨⟨row, hrow, rfl⟩, hthere⟩
    · rintro ⟨⟨row, hrow, rfl⟩, hthere⟩
      exact ⟨row, ⟨hrow, hthere⟩, rfl⟩

/-- Every parent case is one that has been opened. -/
def ParentsOpened (s : Programme) : Prop :=
  ∀ event ∈ s.log, ∀ parentCaseId, event.parentCaseId = some parentCaseId → parentCaseId < s.nextCase

theorem ParentsOpened.insert (h : ParentsOpened s) {events : List (Stamp → ContentModerationAction)}
    {nextCase : CaseId} (hnext : s.nextCase ≤ nextCase)
    (hevents : ∀ event ∈ events, ∀ parentCaseId, (event s.now).parentCaseId = some parentCaseId →
      parentCaseId < nextCase) : ParentsOpened { s.insert events with nextCase } := by
  intro event hevent parentCaseId hparent
  rcases List.mem_append.mp hevent with hnew | hold
  · obtain ⟨new, hmem, rfl⟩ := List.mem_map.mp (List.mem_reverse.mp hnew)
    exact hevents new hmem parentCaseId hparent
  · exact (h event hold parentCaseId hparent).trans_le hnext

/-- An event of no child case. -/
theorem ParentsOpened.followUp (h : ParentsOpened s) {event : Stamp → ContentModerationAction}
    (hevent : (event s.now).parentCaseId = none) : ParentsOpened (s.insert [event]) := by
  apply h.insert le_rfl
  refine List.forall_mem_singleton.mpr fun parentCaseId hparent => ?_
  rw [hevent] at hparent
  cases hparent

/-- An event in some child cases of a case that has been opened. -/
theorem ParentsOpened.fanOut (h : ParentsOpened s) {parentCaseId : CaseId} (hparent : parentCaseId < s.nextCase)
    (children : List Child) (action : ActionType) (due : Option Int) (more : Nat) :
    ParentsOpened { s.insert (children.map (childEvent parentCaseId action due)) with nextCase := s.nextCase + more } := by
  apply h.insert (Nat.le_add_right _ _)
  refine List.forall_mem_map.mpr fun child _ other hother => ?_
  obtain rfl := Option.some.inj hother
  exact hparent.trans_le (Nat.le_add_right _ _)

theorem step_parentsOpened (hkept : Kept s) (h : ParentsOpened s) (call : Call) : ParentsOpened (step s call) := by
  cases call with
  | submitTakedownNotice entity fields =>
      have hopened (accountId : Uuid) : ParentsOpened (s.opened accountId) :=
        fun event hevent parentCaseId hparent => (h event hevent parentCaseId hparent).trans (Nat.lt_succ_self _)
      obtain hsame | ⟨owner, -, ⟨-, hstep⟩ | ⟨-, hstep⟩⟩ := submitTakedownNotice_cases entity fields (s := s)
      · rw [hsame]
        exact h
      · rw [hstep]
        exact (hopened owner.2).followUp rfl
      · rw [hstep]
        exact (((hopened owner.2).followUp rfl).followUp rfl).fanOut (Nat.lt_succ_self _) _ _ _ _
  | submitCounterNotice userId isAdmin waitingDays caseId fields =>
      obtain hsame | ⟨last, hlast, -, -, hstep⟩ := submitCounterNotice_cases userId isAdmin waitingDays caseId
        fields (s := s)
      · rw [hsame]
        exact h
      · rw [hstep]
        obtain rfl := lastOf_caseId hlast
        exact ((h.followUp rfl).followUp rfl).fanOut (hkept.fresh last (mem_of_lastOf hlast)) _ _ _ 0
  | resolveModerationCase isAdmin caseId resolution =>
      obtain hsame | ⟨last, hlast, -, -, hstep⟩ := resolveModerationCase_cases isAdmin caseId resolution (s := s)
      · rw [hsame]
        exact h
      · rw [hstep]
        obtain rfl := lastOf_caseId hlast
        exact (h.followUp rfl).fanOut (hkept.fresh last (mem_of_lastOf hlast)) _ _ _ 0
  | effectiveStatus entity =>
      obtain hsame | ⟨last, due, hlast, -, -, -, hstep⟩ := effectiveStatus_cases entity (s := s)
      · rw [hsame]
        exact h
      · rw [hstep]
        exact h.followUp rfl
  | wait duration => exact h
  | elsewhere content => exact h

/-- Rows of new cases are listed as they are. -/
theorem foldl_addChild_new {parentCaseId : CaseId} {action : ActionType} {due : Option Int} {createdAt : Stamp}
    {children listed : List Child} (hnodup : (children.map Child.caseId).Nodup)
    (hnew : ∀ child ∈ children, child.caseId ∉ listed.map Child.caseId) :
    (children.map fun child => childEvent parentCaseId action due child createdAt).foldl addChild listed =
      listed ++ children := by
  induction children generalizing listed with
  | nil => exact (List.append_nil _).symm
  | cons child children ih =>
      obtain ⟨hfirst, hrest⟩ := List.nodup_cons.mp hnodup
      have hadd : addChild listed (childEvent parentCaseId action due child createdAt) = listed ++ [child] := by
        apply if_neg
        intro hany
        obtain ⟨other, hother, hsame⟩ := List.any_eq_true.mp hany
        exact hnew child List.mem_cons_self (List.mem_map.mpr ⟨other, hother, of_decide_eq_true hsame⟩)
      rw [List.map_cons, List.foldl_cons, hadd, ih hrest, List.append_assoc]
      · rfl
      · intro later hlater hmem
        rw [List.map_append, List.mem_append] at hmem
        rcases hmem with hlisted | hsame
        · exact hnew later (List.mem_cons_of_mem _ hlater) hlisted
        · apply hfirst
          rw [← List.mem_singleton.mp hsame]
          exact List.mem_map_of_mem hlater

/-- Rows of cases that are listed list nothing more. -/
theorem foldl_addChild_listed {rows : List ContentModerationAction} {listed : List Child}
    (h : ∀ event ∈ rows, event.caseId ∈ listed.map Child.caseId) : rows.foldl addChild listed = listed := by
  induction rows with
  | nil => rfl
  | cons event rows ih =>
      obtain ⟨hfirst, hrest⟩ := List.forall_mem_cons.mp h
      have hadd : addChild listed event = listed := by
        apply if_pos
        obtain ⟨child, hchild, hsame⟩ := List.mem_map.mp hfirst
        exact List.any_eq_true.mpr ⟨child, hchild, decide_eq_true hsame⟩
      rw [List.foldl_cons, hadd, ih hrest]

/-- One more event in every child case opens none. -/
theorem childCases_fanOut (parentCaseId : CaseId) (action : ActionType) (due : Option Int) :
    childCases (s.insert ((childCases s.log parentCaseId).map (childEvent parentCaseId action due))).log parentCaseId =
      childCases s.log parentCaseId := by
  have hrows : (s.insert ((childCases s.log parentCaseId).map (childEvent parentCaseId action due))).log.reverse =
      s.log.reverse ++ (childCases s.log parentCaseId).map fun child => childEvent parentCaseId action due child s.now := by
    simp [Programme.insert]
  rw [childCases, hrows, List.filter_append, List.foldl_append]
  apply foldl_addChild_listed
  intro event hevent
  obtain ⟨child, hchild, rfl⟩ := List.mem_map.mp (List.mem_filter.mp hevent).1
  exact List.mem_map_of_mem hchild

/-- The child cases of a case that had none are those a takedown opens for it. -/
theorem childCases_fanOutDisable {parentCaseId : CaseId} (entity : Entity)
    (hnone : ∀ event ∈ s.log, event.parentCaseId ≠ some parentCaseId) :
    childCases (s.fanOutDisable parentCaseId entity).log parentCaseId = openedChildren s entity := by
  have hrows : (s.fanOutDisable parentCaseId entity).log.reverse = s.log.reverse ++ (openedChildren s entity).map
      fun child => childEvent parentCaseId .contentDisabledAsCopy none child s.now := by
    simp [Programme.fanOutDisable, Programme.insert, openedChildren]
  have hold : (s.log.reverse.filter fun event => decide (event.parentCaseId = some parentCaseId)) = [] := by
    refine List.filter_eq_nil_iff.mpr fun event hevent => ?_
    simpa using hnone event (List.mem_reverse.mp hevent)
  have hnew : (((openedChildren s entity).map fun child => childEvent parentCaseId .contentDisabledAsCopy none child
      s.now).filter fun event => decide (event.parentCaseId = some parentCaseId)) = (openedChildren s entity).map
        fun child => childEvent parentCaseId .contentDisabledAsCopy none child s.now := by
    refine List.filter_eq_self.mpr fun event hevent => ?_
    obtain ⟨child, -, rfl⟩ := List.mem_map.mp hevent
    exact decide_eq_true rfl
  rw [childCases, hrows, List.filter_append, hold, hnew, List.nil_append]
  exact foldl_addChild_new (openedChildren_spec s entity).2.1 (by simp)

variable {children : List Child} {parentCaseId : CaseId} {action : ActionType} {due : Option Int} {entity : Entity}

theorem latestEvent_others (h : entity ∉ children.map Child.entity) :
    latestEvent (s.insert (children.map (childEvent parentCaseId action due))).log entity = latestEvent s.log entity := by
  have hnone : ((children.map (childEvent parentCaseId action due)).map (· s.now)).reverse.find?
      (fun event => decide (event.entity = entity)) = none := by
    refine List.find?_eq_none.mpr fun event hevent => ?_
    obtain ⟨new, hnew, rfl⟩ := List.mem_map.mp (List.mem_reverse.mp hevent)
    obtain ⟨child, hchild, rfl⟩ := List.mem_map.mp hnew
    simp only [decide_eq_true_eq]
    exact fun hentity => h (List.mem_map.mpr ⟨child, hchild, hentity⟩)
  rw [latestEvent, Programme.insert, List.find?_append, hnone, Option.none_or]
  rfl

theorem latestEvent_child (hnodup : (children.map Child.entity).Nodup) {child : Child} (h : child ∈ children) :
    latestEvent (s.insert (children.map (childEvent parentCaseId action due))).log child.entity =
      some (childEvent parentCaseId action due child s.now) := by
  have hmem {event : ContentModerationAction} :
      event ∈ ((children.map (childEvent parentCaseId action due)).map (· s.now)).reverse ↔
        ∃ child ∈ children, childEvent parentCaseId action due child s.now = event := by
    simp
  cases hfind : ((children.map (childEvent parentCaseId action due)).map (· s.now)).reverse.find?
      (fun event => decide (event.entity = child.entity)) with
  | none =>
      have hnone := List.find?_eq_none.mp hfind _ (hmem.mpr ⟨child, h, rfl⟩)
      exact absurd (decide_eq_true rfl) hnone
  | some event =>
      obtain ⟨other, hother, rfl⟩ := hmem.mp (List.mem_of_find?_eq_some hfind)
      have hentity := List.find?_some hfind
      rw [decide_eq_true_eq] at hentity
      obtain rfl := List.inj_on_of_nodup_map hnodup hother h hentity
      rw [latestEvent, Programme.insert, List.find?_append, hfind, Option.some_or]

end children

/-! A copy beside its source. -/

/-- A counter-notice or a resolution on one case, a read, or what is not the programme's doing. -/
def OnCase (caseId : CaseId) : Call → Prop
  | .submitTakedownNotice _ _ => False
  | .submitCounterNotice _ _ _ id _ => id = caseId
  | .resolveModerationCase _ id _ => id = caseId
  | .effectiveStatus _ | .wait _ | .elsewhere _ => True

instance (caseId : CaseId) : (call : Call) → Decidable (OnCase caseId call)
  | .submitTakedownNotice _ _ => inferInstanceAs (Decidable False)
  | .submitCounterNotice _ _ _ id _ => inferInstanceAs (Decidable (id = caseId))
  | .resolveModerationCase _ id _ => inferInstanceAs (Decidable (id = caseId))
  | .effectiveStatus _ | .wait _ | .elsewhere _ => inferInstanceAs (Decidable True)

/-- The last event on a copy, in a child case of the last event on its source, hides from now on as that does. -/
structure InStep (source copy : Entity) (caseId : CaseId) (s : Programme) : Prop where
  kept : Kept s
  once : ((childCases s.log caseId).map Child.entity).Nodup
  apart : source ∉ (childCases s.log caseId).map Child.entity
  child : copy ∈ (childCases s.log caseId).map Child.entity
  alike : ∃ ofSource ofCopy, latestEvent s.log source = some ofSource ∧ ofSource.caseId = caseId ∧
    latestEvent s.log copy = some ofCopy ∧ ∀ later ≥ s.time, hidesAt later ofSource = hidesAt later ofCopy

section inStep

variable {s : Programme} {source copy : Entity} {caseId : CaseId}

theorem InStep.ne (h : InStep source copy caseId s) : copy ≠ source := by
  rintro rfl
  exact h.apart h.child

theorem InStep.agree (h : InStep source copy caseId s) :
    (s.effectiveStatusSync copy).1.isSome = (s.effectiveStatusSync source).1.isSome := by
  obtain ⟨ofSource, ofCopy, hsource, -, hcopy, halike⟩ := h.alike
  rw [effectiveStatusSync_isSome, effectiveStatusSync_isSome, hsource, hcopy, Option.any_some, Option.any_some,
    halike s.time le_rfl]

/-- The last event of the case is the last on the source. -/
theorem InStep.last (h : InStep source copy caseId s) {last : ContentModerationAction}
    (hlast : lastOf s.log caseId = some last) : last.entity = source := by
  obtain ⟨ofSource, -, hsource, rfl, -⟩ := h.alike
  rw [lastOf_of_latestEvent h.kept.consistent hsource] at hlast
  cases hlast
  exact latestEvent_entity hsource

/-- An event in the case, and the same in its child cases. -/
theorem InStep.fanOut (h : InStep source copy caseId s) {s' : Programme} (event : ContentModerationAction)
    (mid : List ContentModerationAction) (hlog : s'.log = event :: mid ++ s.log)
    (hparents : ∀ new ∈ event :: mid, new.parentCaseId = none) (hentity : event.entity = source)
    (hcase : event.caseId = caseId) (hkept : Kept s') :
    InStep source copy caseId (s'.insert ((childCases s'.log caseId).map
      (childEvent caseId event.actionType event.restorationDueAt))) := by
  have hchildren : childCases s'.log caseId = childCases s.log caseId := by
    rw [hlog, childCases_append hparents]
  have honce := h.once
  have hapart := h.apart
  obtain ⟨child, hchild, hcopy⟩ := List.mem_map.mp h.child
  rw [← hchildren] at honce hapart hchild
  refine ⟨hkept.fanOut _ _ _, ?_, ?_, ?_, event,
    childEvent caseId event.actionType event.restorationDueAt child s'.now, ?_, hcase, ?_, fun later _ => rfl⟩
  · rw [childCases_fanOut]
    exact honce
  · rw [childCases_fanOut]
    exact hapart
  · rw [childCases_fanOut]
    exact List.mem_map.mpr ⟨child, hchild, hcopy⟩
  · rw [latestEvent_others hapart, hlog, latestEvent, List.cons_append, List.find?_cons_of_pos]
    exact decide_eq_true hentity
  · rw [← hcopy]
    exact latestEvent_child honce hchild

/-- A read of what has fallen due on an entity. -/
theorem InStep.restore (h : InStep source copy caseId s) {entity : Entity} {last : ContentModerationAction} {due : Int}
    (hlast : latestEvent s.log entity = some last) (hforwarded : last.actionType = .counterNoticeForwarded)
    (hat : last.restorationDueAt = some due) (hdue : due ≤ s.time) :
    InStep source copy caseId (s.insert [followUp last .contentRestored none none]) := by
  have hchildren : childCases (s.insert [followUp last .contentRestored none none]).log caseId =
      childCases s.log caseId := childCases_append (List.forall_mem_singleton.mpr rfl)
  have hshown (later : Int) (hlater : later ≥ s.time) : hidesAt later last = false := by
    have : due ≤ later := hdue.trans hlater
    simp [hidesAt, actionHides, hforwarded, hat, isDisabledStatus, this]
  have hentity : last.entity = entity := latestEvent_entity hlast
  have hself : latestEvent (s.insert [followUp last .contentRestored none none]).log entity =
      some (followUp last .contentRestored none none s.now) := by
    exact List.find?_cons_of_pos (decide_eq_true hentity)
  have hother (x : Entity) (hx : entity ≠ x) :
      latestEvent (s.insert [followUp last .contentRestored none none]).log x = latestEvent s.log x := by
    apply List.find?_cons_of_neg
    rw [decide_eq_true_eq]
    exact fun hsame => hx (hentity.symm.trans hsame)
  obtain ⟨ofSource, ofCopy, hsource, hcase, hcopy, halike⟩ := h.alike
  refine ⟨h.kept.followUp (mem_of_latestEvent hlast) _ _ _, by rw [hchildren]; exact h.once,
    by rw [hchildren]; exact h.apart, by rw [hchildren]; exact h.child, ?_⟩
  by_cases hisSource : entity = source
  · subst hisSource
    obtain rfl : last = ofSource := Option.some.inj (hlast.symm.trans hsource)
    refine ⟨_, ofCopy, hself, hcase, (hother copy h.ne.symm).trans hcopy, fun later hlater => ?_⟩
    rw [← halike later hlater, hshown later hlater]
    rfl
  by_cases hisCopy : entity = copy
  · subst hisCopy
    obtain rfl : last = ofCopy := Option.some.inj (hlast.symm.trans hcopy)
    refine ⟨ofSource, _, (hother source hisSource).trans hsource, hcase, hself, fun later hlater => ?_⟩
    rw [halike later hlater, hshown later hlater]
    rfl
  · exact ⟨ofSource, ofCopy, (hother source hisSource).trans hsource, hcase, (hother copy hisCopy).trans hcopy, halike⟩

theorem step_inStep (h : InStep source copy caseId s) (call : Call) (hcall : OnCase caseId call) :
    InStep source copy caseId (step s call) := by
  have hkept := h.kept
  cases call with
  | submitTakedownNotice entity fields => cases hcall
  | submitCounterNotice userId isAdmin waitingDays id fields =>
      obtain rfl : id = caseId := hcall
      obtain hsame | ⟨last, hlast, -, -, hstep⟩ := submitCounterNotice_cases userId isAdmin waitingDays id fields (s := s)
      · rw [hsame]
        exact h
      · rw [hstep]
        have hmem := mem_of_lastOf hlast
        have hentity : last.entity = source := h.last hlast
        have hcase : last.caseId = id := lastOf_caseId hlast
        refine h.fanOut (followUp last .counterNoticeForwarded (some userId) (some (s.time + waitingDays * day)) _)
          [followUp last .counterNoticeReceived (some userId) none s.now] rfl ?_ hentity hcase ?_
        · exact List.forall_mem_cons.mpr ⟨rfl, List.forall_mem_singleton.mpr rfl⟩
        · exact (hkept.followUp hmem _ _ _).followUp (List.mem_append_right _ hmem) _ _ _
  | resolveModerationCase isAdmin id resolution =>
      obtain rfl : id = caseId := hcall
      obtain hsame | ⟨last, hlast, -, -, hstep⟩ := resolveModerationCase_cases isAdmin id resolution (s := s)
      · rw [hsame]
        exact h
      · rw [hstep]
        have hentity : last.entity = source := h.last hlast
        have hcase : last.caseId = id := lastOf_caseId hlast
        exact h.fanOut (followUp last resolution last.accountId none s.now) [] rfl
          (List.forall_mem_singleton.mpr rfl) hentity hcase
          (hkept.followUp (mem_of_lastOf hlast) _ _ _)
  | effectiveStatus entity =>
      obtain hsame | ⟨last, due, hlast, hforwarded, hat, hdue, hstep⟩ := effectiveStatus_cases entity (s := s)
      · rw [hsame]
        exact h
      · rw [hstep]
        exact h.restore hlast hforwarded hat hdue
  | wait duration =>
      obtain ⟨ofSource, ofCopy, hsource, hcase, hcopy, halike⟩ := h.alike
      have hlater : s.time ≤ s.time + (duration : Int) := by omega
      exact ⟨step_kept hkept (.wait duration), h.once, h.apart, h.child, ofSource, ofCopy, hsource, hcase, hcopy,
        fun later hle => halike later (hlater.trans hle)⟩
  | elsewhere content => exact ⟨step_kept hkept (.elsewhere content), h.once, h.apart, h.child, h.alike⟩

theorem submitTakedownNotice_complete {entity : Entity} {owner : Uuid × Uuid} {fields : TakedownNoticeFields}
    (howner : s.content.owner entity = some owner) (hcomplete : validateTakedownNotice fields = []) :
    step s (.submitTakedownNotice entity fields) =
      (((s.opened owner.2).insert [noticeEvent s.nextCase entity owner .noticeReceived]).insert
        [noticeEvent s.nextCase entity owner .contentDisabled]).fanOutDisable s.nextCase entity := by
  simp only [step, Programme.submitTakedownNotice, howner, hcomplete, ne_eq, not_true_eq_false, if_false]
  rfl

/-- A takedown puts each copy it reaches beside its source. -/
theorem InStep.start (hkept : Kept s) (hparents : ParentsOpened s) {fields : TakedownNoticeFields}
    (hcomplete : validateTakedownNotice fields = []) (hthere : (s.content.owner source).isSome = true)
    (hne : copy ≠ source) (hreached : Relation.ReflTransGen (Taken s.content.adoptions) source copy)
    (hcopy : (s.content.owner copy).isSome = true) :
    InStep source copy s.nextCase (step s (.submitTakedownNotice source fields)) := by
  obtain ⟨owner, howner⟩ := Option.isSome_iff_exists.mp hthere
  have hkept' := step_kept hkept (.submitTakedownNotice source fields)
  rw [submitTakedownNotice_complete howner hcomplete] at hkept' ⊢
  obtain ⟨noticed, hnoticed⟩ : ∃ noticed, noticed =
      ((s.opened owner.2).insert [noticeEvent s.nextCase source owner .noticeReceived]).insert
        [noticeEvent s.nextCase source owner .contentDisabled] := ⟨_, rfl⟩
  rw [← hnoticed] at hkept' ⊢
  have hcontent : noticed.content = s.content := by rw [hnoticed]; rfl
  have hnone : ∀ event ∈ noticed.log, event.parentCaseId ≠ some s.nextCase := by
    rw [hnoticed]
    refine List.forall_mem_cons.mpr ⟨nofun, List.forall_mem_cons.mpr ⟨nofun, fun event hevent hparent => ?_⟩⟩
    exact lt_irrefl _ (hparents event hevent _ hparent)
  have hdisabled : ∃ event, latestEvent noticed.log source = some event ∧ event.caseId = s.nextCase ∧
      event.actionType = .contentDisabled := by
    rw [hnoticed]
    exact ⟨_, List.find?_cons_of_pos (decide_eq_true rfl), rfl, rfl⟩
  obtain ⟨hentities, -, -, hreach⟩ := openedChildren_spec noticed source
  rw [hcontent] at hreach
  have hlisted := childCases_fanOutDisable source hnone
  have hapart : source ∉ (openedChildren noticed source).map Child.entity := fun h => ((hreach source).mp h).1 rfl
  have hmem := (hreach copy).mpr ⟨hne, hreached, hcopy⟩
  obtain ⟨child, hchild, hentity⟩ := List.mem_map.mp hmem
  obtain ⟨event, hsource, hcase, haction⟩ := hdisabled
  refine ⟨hkept', by rwa [hlisted], by rwa [hlisted], by rwa [hlisted], event,
    childEvent s.nextCase .contentDisabledAsCopy none child noticed.now, ?_, hcase, ?_, fun later _ => ?_⟩
  · exact (latestEvent_others hapart).trans hsource
  · rw [← hentity]
    exact latestEvent_child hentities hchild
  · rw [hidesAt, haction]
    rfl

end inStep

/-- A walk over the adoptions ends, and a takedown opens one child case for each copy that is still there and can be
reached from its source. From then on a copy is hidden exactly while its source is, whatever is filed and resolved on
the notice's case. -/
theorem copies_follow_their_source :
    (∀ (s : Programme) (parentCaseId : CaseId) (source : Entity),
      Walks s.content.adoptions [source] [source] (copiesOf s.content.adoptions source) ∧
        ∃ children : List Child,
          (s.fanOutDisable parentCaseId source).log = (children.map fun child =>
            childEvent parentCaseId .contentDisabledAsCopy none child s.now).reverse ++ s.log ∧
          (children.map Child.entity).Nodup ∧ (children.map Child.caseId).Nodup ∧
          (∀ child ∈ children, s.nextCase ≤ child.caseId) ∧
          ∀ copy, copy ∈ children.map Child.entity ↔ copy ≠ source ∧
            Relation.ReflTransGen (Taken s.content.adoptions) source copy ∧ (s.content.owner copy).isSome = true) ∧
      ∀ (content : Content) (time : Int) (earlier later : List Call) (source copy : Entity)
        (fields : TakedownNoticeFields),
        let before := Run.run step { content, time } earlier
        let after := Run.run step (step before (.submitTakedownNotice source fields)) later
        validateTakedownNotice fields = [] → (before.content.owner source).isSome = true → copy ≠ source →
          Relation.ReflTransGen (Taken before.content.adoptions) source copy →
          (before.content.owner copy).isSome = true → (∀ call ∈ later, OnCase before.nextCase call) →
          (after.effectiveStatusSync copy).1.isSome = (after.effectiveStatusSync source).1.isSome := by
  refine ⟨fun s parentCaseId source => ⟨walks_copiesOf _ _, openedChildren s source, ?_, openedChildren_spec s source⟩,
    ?_⟩
  · simp [Programme.fanOutDisable, Programme.insert, openedChildren]
  intro content time earlier later source copy fields before after hcomplete hthere hne hreached hcopy hlater
  have hinit : Kept ({ content, time } : Programme) ∧ ParentsOpened ({ content, time } : Programme) :=
    ⟨⟨by simp, by simp [Consistent]⟩, by simp [ParentsOpened]⟩
  obtain ⟨hkept, hparents⟩ : Kept before ∧ ParentsOpened before :=
    Run.invariant (I := fun s => Kept s ∧ ParentsOpened s)
      (fun s call h => ⟨step_kept h.1 call, step_parentsOpened h.1 h.2 call⟩) hinit earlier
  have hstart := InStep.start hkept hparents hcomplete hthere hne hreached hcopy
  have hend : InStep source copy before.nextCase
      (Run.run step (step before (.submitTakedownNotice source fields)) later) :=
    Run.invariant_of_mem (I := InStep source copy before.nextCase) (fun s call h hcall => step_inStep h call hcall)
      hstart hlater
  exact hend.agree

/-- The copy is read once its source's counter-notice has fallen due, and stays with it as the case is resolved. -/
theorem copy_back_with_its_source :
    let before := Run.run step { content := shelf, time := 0 } []
    let after := Run.run step (step before (.submitTakedownNotice sword completeNotice))
      [.submitCounterNotice 7 false 14 0 completeCounterNotice, .wait (14 * 24 * 60 * 60 * 1000000),
        .effectiveStatus swordCopy, .resolveModerationCase true 0 .contentRemainsDisabled]
    (after.effectiveStatusSync swordCopy).1.isSome = (after.effectiveStatusSync sword).1.isSome :=
  copies_follow_their_source.2 shelf 0 [] _ sword swordCopy completeNotice (by decide +kernel) (by decide +kernel)
    (by decide +kernel) (.single ⟨_, List.mem_cons_self, rfl, rfl⟩) (by decide +kernel) (by decide +kernel)

end ThunderForge.Moderation
