import ThunderForge.Moderation.Strikes

/-! What the strikes cost at the last rung: termination windows, opened as a strike is told or by a sweep,
appealed, closed and carried out. The exception for the last administrator is judged as a window opens
and counts administrators whom a window disables, so an administrator is left in the runs in which a
window that disables one opens only while another is not disabled. -/

namespace ThunderForge.Moderation

/-- The rungs that windows depend on. -/
structure Ladder where
  threshold : Int := 3
  lookbackDays : Int := 365
  windowDays : Int := 30
  requiresHuman : Bool := true

inductive AppealState where
  | none
  | open
  | upheld
  | rejected
  deriving DecidableEq

inductive ClosedReason where
  | appealUpheld
  | strikesAgedOut
  | counterNotice
  | deleted
  | adminReversed
  deriving DecidableEq

/-- A row of `account_terminations`. -/
structure AccountTermination where
  id : Nat
  accountId : Uuid
  openedAt : Int
  deletionDueAt : Int
  strikeCountAtOpen : Nat
  requiresHuman : Bool
  disablesAccount : Bool
  appealState : AppealState := .none
  closedAt : Option Int := none
  closedReason : Option ClosedReason := none
  deriving DecidableEq

structure User where
  id : Uuid
  isAdmin : Bool
  deriving DecidableEq

/-- How far the call in progress has come: the accounts it is still to open windows for, and whether it
goes on to the open windows, or the windows it has loaded and not yet looked at. -/
inductive Progress where
  | idle
  | opening (accounts : List Uuid) (ladder : Ladder) (now : Int) (sweeping : Option (Option Uuid))
  | visiting (terminations : List AccountTermination) (ladder : Ladder) (now : Int)

/-- The accounts and their windows, beside the moderation log. Ids are primary keys. -/
structure Instance where
  programme : Programme
  users : List User
  terminations : List AccountTermination
  nextTermination : Nat
  progress : Progress
  usersKey : (users.map User.id).Nodup
  terminationsKey : (terminations.map AccountTermination.id).Nodup
  fresh : ∀ termination ∈ terminations, termination.id < nextTermination

namespace Instance

def strikesOf (s : Instance) (accountId : Uuid) (ladder : Ladder) : List Strike :=
  Moderation.strikesOf s.programme.log s.programme.time accountId ladder.lookbackDays

def openTerminationOf (s : Instance) (accountId : Uuid) : Option AccountTermination :=
  s.terminations.find? fun termination => termination.accountId = accountId && termination.closedAt.isNone

/-- Whether an open window disables the account. -/
def isDisabled (s : Instance) (accountId : Uuid) : Bool :=
  s.terminations.any fun termination =>
    termination.accountId = accountId && termination.closedAt.isNone && termination.disablesAccount

def isAdmin (s : Instance) (accountId : Uuid) : Bool :=
  (s.users.find? fun user => user.id = accountId).any User.isAdmin

def otherAdmins (s : Instance) (accountId : Uuid) : Nat :=
  s.users.countP fun user => user.isAdmin && user.id ≠ accountId

end Instance

/-- The terms a window opens on: whether it disables the account, and whether a person must decide its
end. -/
def terminationTerms (ladder : Ladder) (isAdmin : Bool) (otherAdmins : Nat) : Bool × Bool :=
  if isAdmin && otherAdmins = 0 then (false, true) else (true, ladder.requiresHuman)

/-- The row with an id changes, and keeps its id. -/
def changeRow (id : Nat) (change : AccountTermination → AccountTermination) (termination : AccountTermination) :
    AccountTermination :=
  if termination.id = id then { change termination with id := termination.id } else termination

theorem changeRow_id (id : Nat) (change : AccountTermination → AccountTermination)
    (termination : AccountTermination) : (changeRow id change termination).id = termination.id := by
  unfold changeRow
  split_ifs <;> rfl

namespace Instance

def insertTermination (s : Instance) (termination : AccountTermination) (h : termination.id = s.nextTermination) :
    Instance :=
  { s with
    terminations := s.terminations ++ [termination]
    nextTermination := s.nextTermination + 1
    terminationsKey := by
      rw [List.map_append, List.nodup_append]
      refine ⟨s.terminationsKey, by simp, fun id hid id' hid' heq => ?_⟩
      obtain ⟨older, holder, rfl⟩ := List.mem_map.mp hid
      rw [List.map_singleton, List.mem_singleton] at hid'
      exact (s.fresh older holder).ne (heq.trans (hid'.trans h))
    fresh := by
      intro other hother
      obtain hold | hnew := List.mem_append.mp hother
      · exact (s.fresh other hold).trans (Nat.lt_succ_self _)
      · rw [List.mem_singleton] at hnew
        rw [hnew, h]
        exact Nat.lt_succ_self _ }

/-- Change the row with an id, which it keeps. -/
def updateTermination (s : Instance) (id : Nat) (change : AccountTermination → AccountTermination) : Instance :=
  { s with
    terminations := s.terminations.map (changeRow id change)
    terminationsKey := by
      have hids : AccountTermination.id ∘ changeRow id change = AccountTermination.id :=
        funext fun termination => changeRow_id id change termination
      rw [List.map_map, hids]
      exact s.terminationsKey
    fresh := by
      refine List.forall_mem_map.mpr fun termination htermination => ?_
      rw [changeRow_id]
      exact s.fresh termination htermination }

/-- `delete_user_data_on`, as far as the accounts go. -/
def deleteUser (s : Instance) (accountId : Uuid) : Instance :=
  { s with
    users := s.users.filter fun user => user.id ≠ accountId
    usersKey := s.usersKey.sublist (List.filter_sublist.map _) }

/-- Open a window for an account at or over the threshold, if none is open. -/
def openTermination (s : Instance) (accountId : Uuid) (ladder : Ladder) (now : Int) : Instance :=
  if (s.openTerminationOf accountId).isSome then s
  else
    let count := (s.strikesOf accountId ladder).length
    if (count : Int) < ladder.threshold then s
    else
      let terms := terminationTerms ladder (s.isAdmin accountId) (s.otherAdmins accountId)
      s.insertTermination
        { id := s.nextTermination, accountId, openedAt := now, deletionDueAt := now + ladder.windowDays * day
          strikeCountAtOpen := count, requiresHuman := terms.2, disablesAccount := terms.1 } rfl

def closeTermination (s : Instance) (termination : AccountTermination) (reason : ClosedReason) (now : Int) :
    Instance :=
  s.updateTermination termination.id fun row => { row with closedAt := some now, closedReason := some reason }

end Instance

/-- Whether a window's end has come and nothing stands in its way. -/
def isDueForDeletion (termination : AccountTermination) (now : Int) : Bool :=
  termination.closedAt.isNone && termination.disablesAccount && termination.appealState ≠ .open &&
    termination.deletionDueAt ≤ now

namespace Instance

/-- Carry out a window's end: real deletion, then the row closed as the record that it happened. -/
def executeTermination (s : Instance) (termination : AccountTermination) (now : Int) : Instance :=
  (s.deleteUser termination.accountId).closeTermination termination .deleted now

def happenedSince (s : Instance) (accountId : Uuid) (action : ActionType) (since : Int) : Bool :=
  s.programme.log.any fun event =>
    event.accountId = some accountId && event.actionType = action && since ≤ event.createdAt.time

/-- Why an account fell below the threshold, so the closed window says so. -/
def whyBelowThreshold (s : Instance) (termination : AccountTermination) : ClosedReason :=
  if s.happenedSince termination.accountId .counterNoticeReceived termination.openedAt then .counterNotice
  else if s.happenedSince termination.accountId .contentRestored termination.openedAt then .adminReversed
  else .strikesAgedOut

/-- What a sweep does about one open window. -/
def visit (s : Instance) (termination : AccountTermination) (ladder : Ladder) (now : Int) : Instance :=
  if ((s.strikesOf termination.accountId ladder).length : Int) < ladder.threshold then
    s.closeTermination termination (s.whyBelowThreshold termination) now
  else if isDueForDeletion termination now && !termination.requiresHuman then s.executeTermination termination now
  else s

/-- The accounts a sweep is to open windows for, in the order of their ids. -/
def sweepOpens (s : Instance) (ladder : Ladder) (only : Option Uuid) : List Uuid :=
  (strikesByAccount s.programme.log s.programme.time only ladder.lookbackDays).toList.filterMap fun entry =>
    if ladder.threshold ≤ (entry.2.length : Int) then some entry.1 else none

/-- The open windows, of one account when one is given. -/
def openTerminations (s : Instance) (only : Option Uuid) : List AccountTermination :=
  s.terminations.filter fun termination =>
    termination.closedAt.isNone && only.all fun accountId => termination.accountId = accountId

/-- One appeal per window. -/
def fileAppeal (s : Instance) (accountId : Uuid) : Except String Instance :=
  match s.openTerminationOf accountId with
  | none => .error "There is no open decision on this account to appeal"
  | some termination =>
    if termination.appealState ≠ .none then
      .error "An appeal has already been filed against this decision"
    else .ok (s.updateTermination termination.id fun row => { row with appealState := .open })

/-- Put a case back: a restoring event, which is what stops a case counting. -/
def restoreCase (s : Instance) (caseId : CaseId) : Instance :=
  match lastOf s.programme.log caseId with
  | none => s
  | some last =>
    { s with programme := s.programme.insert [followUp last .contentRestored last.accountId none] }

/-- The case an upheld appeal overturns: the one named, or the most recent strike. -/
def overturned (strikes : List Strike) (overturnedCase : Option CaseId) : Except String CaseId :=
  match overturnedCase with
  | some caseId =>
    if strikes.any fun strike => strike.caseId = caseId then .ok caseId
    else .error "That case is not one of this account's strikes"
  | none =>
    match strikes.getLast? with
    | none => .error "This account holds no strike to overturn"
    | some strike => .ok strike.caseId

/-- An administrator decides an appeal; a refusal rolls everything back. -/
def resolveAppeal (s : Instance) (accountId : Uuid) (upheld : Bool) (overturnedCase : Option CaseId)
    (ladder : Ladder) (now : Int) : Except String Instance :=
  match s.openTerminationOf accountId with
  | none => .error "There is no open decision on this account"
  | some termination =>
    if termination.appealState ≠ .open then .error "There is no open appeal on this account"
    else
      let decided := s.updateTermination termination.id fun row =>
        { row with appealState := if upheld then .upheld else .rejected }
      if !upheld then .ok decided
      else
        match overturned (s.strikesOf accountId ladder) overturnedCase with
        | .error error => .error error
        | .ok caseId => .ok ((decided.restoreCase caseId).closeTermination termination .appealUpheld now)

/-- An administrator carries out a window that waits for a person. -/
def executeByAdministrator (s : Instance) (accountId : Uuid) (now : Int) : Except String Instance :=
  match s.openTerminationOf accountId with
  | none => .error "There is no open decision on this account"
  | some termination =>
    if !termination.disablesAccount then
      .error ("This is the instance's last administrator. Deleting it would lock the instance out " ++
        "of its own administration; appoint another administrator first.")
    else if termination.appealState = .open then .error "An appeal is open; decide it first"
    else if !isDueForDeletion termination now then .error "The window has not ended"
    else .ok (s.executeTermination termination now)

/-- A case against an account has just become upheld; at the threshold the window opens there and then. -/
def tellOfStrike (s : Instance) (accountId : Uuid) (caseId : CaseId) (ladder : Ladder) : Progress :=
  let strikes := s.strikesOf accountId ladder
  if (strikes.any fun strike => strike.caseId = caseId) && ladder.threshold ≤ (strikes.length : Int) then
    .opening [accountId] ladder s.programme.time none
  else .idle

end Instance

/-- A call, or the next statement of the one in progress. -/
inductive Enforcement where
  | moderate (call : Call)
  | tellOfStrike (accountId : Uuid) (caseId : CaseId) (ladder : Ladder)
  | sweep (ladder : Ladder) (now : Int) (only : Option Uuid)
  | fileAppeal (accountId : Uuid)
  | resolveAppeal (accountId : Uuid) (upheld : Bool) (overturnedCase : Option CaseId) (ladder : Ladder) (now : Int)
  | executeByAdministrator (accountId : Uuid) (now : Int)
  | next

/-- A call begins. -/
def Instance.start (s : Instance) : Enforcement → Instance
  | .moderate call => { s with programme := step s.programme call }
  | .tellOfStrike accountId caseId ladder => { s with progress := s.tellOfStrike accountId caseId ladder }
  | .sweep ladder now only => { s with progress := .opening (s.sweepOpens ladder only) ladder now (some only) }
  | .fileAppeal accountId => (s.fileAppeal accountId).toOption.getD s
  | .resolveAppeal accountId upheld overturnedCase ladder now =>
    (s.resolveAppeal accountId upheld overturnedCase ladder now).toOption.getD s
  | .executeByAdministrator accountId now => (s.executeByAdministrator accountId now).toOption.getD s
  | .next => s

/-- The call in progress goes on. -/
def Instance.goOn (s : Instance) : Instance :=
  match s.progress with
  | .idle => s
  | .opening (accountId :: accounts) ladder now sweeping =>
    { s.openTermination accountId ladder now with progress := .opening accounts ladder now sweeping }
  | .opening [] _ _ none => { s with progress := .idle }
  | .opening [] ladder now (some only) => { s with progress := .visiting (s.openTerminations only) ladder now }
  | .visiting (termination :: terminations) ladder now =>
    { s.visit termination ladder now with progress := .visiting terminations ladder now }
  | .visiting [] _ _ => { s with progress := .idle }

/-- One call at a time: while one is in progress, the others wait. -/
def enforce (s : Instance) (act : Enforcement) : Instance :=
  match s.progress, act with
  | .idle, act => s.start act
  | _, .next => s.goOn
  | _, _ => s

/-- There is an administrator whom no open window disables. -/
def Governed (s : Instance) : Prop := ∃ user ∈ s.users, user.isAdmin = true ∧ s.isDisabled user.id = false

instance (s : Instance) : Decidable (Governed s) :=
  inferInstanceAs (Decidable (∃ user ∈ s.users, user.isAdmin = true ∧ s.isDisabled user.id = false))

/-- A window that opens on one administrator of several finds another whom no open window disables. -/
def SparesAnAdministrator (s : Instance) (act : Enforcement) : Prop :=
  match s.progress, act with
  | .opening (accountId :: _) ladder _ _, .next =>
    s.openTerminationOf accountId = none → ladder.threshold ≤ ((s.strikesOf accountId ladder).length : Int) →
      s.isAdmin accountId = true → s.otherAdmins accountId ≠ 0 →
        ∃ user ∈ s.users, user.isAdmin = true ∧ user.id ≠ accountId ∧ s.isDisabled user.id = false
  | _, _ => True

instance (s : Instance) (act : Enforcement) : Decidable (SparesAnAdministrator s act) := by
  unfold SparesAnAdministrator
  split <;> infer_instance

section

variable {s : Instance}

theorem isDisabled_iff {accountId : Uuid} : s.isDisabled accountId = true ↔
    ∃ termination ∈ s.terminations, termination.accountId = accountId ∧ termination.closedAt = none ∧
      termination.disablesAccount = true := by
  simp [Instance.isDisabled, and_assoc]

/-- A state whose disabling windows are among those of another, with its users, is as governed. -/
theorem Governed.mono (h : Governed s) {s' : Instance} (husers : s'.users = s.users)
    (hdisabled : ∀ accountId, s'.isDisabled accountId = true → s.isDisabled accountId = true) : Governed s' := by
  obtain ⟨user, huser, hadmin, hnot⟩ := h
  refine ⟨user, husers ▸ huser, hadmin, ?_⟩
  rw [Bool.eq_false_iff] at hnot ⊢
  exact fun hdis => hnot (hdisabled user.id hdis)

/-- A change of a row that neither opens nor disables disables nobody. -/
theorem isDisabled_updateTermination {id : Nat} {change : AccountTermination → AccountTermination}
    (haccount : ∀ row, (change row).accountId = row.accountId)
    (hclosed : ∀ row, (change row).closedAt = none → row.closedAt = none)
    (hdisables : ∀ row, (change row).disablesAccount = row.disablesAccount) (accountId : Uuid)
    (h : (s.updateTermination id change).isDisabled accountId = true) : s.isDisabled accountId = true := by
  obtain ⟨termination, hmem, hof, hopen, hdis⟩ := isDisabled_iff.mp h
  obtain ⟨row, hrow, rfl⟩ := List.mem_map.mp hmem
  refine isDisabled_iff.mpr ⟨row, hrow, ?_⟩
  unfold changeRow at hof hopen hdis
  split_ifs at hof hopen hdis
  · exact ⟨(haccount row).symm.trans hof, hclosed row hopen, (hdisables row).symm.trans hdis⟩
  · exact ⟨hof, hopen, hdis⟩

theorem Governed.closeTermination (h : Governed s) (termination : AccountTermination) (reason : ClosedReason)
    (now : Int) : Governed (s.closeTermination termination reason now) :=
  h.mono rfl (isDisabled_updateTermination (fun _ => rfl) nofun fun _ => rfl)

/-- Deleting an account that an open window disables leaves an administrator whom none disables. -/
theorem Governed.executeTermination (h : Governed s) {termination : AccountTermination} (hmem : termination ∈ s.terminations)
    (hopen : termination.closedAt = none) (hdisables : termination.disablesAccount = true) (now : Int) :
    Governed (s.executeTermination termination now) := by
  refine Governed.closeTermination ?_ termination .deleted now
  obtain ⟨user, huser, hadmin, hnot⟩ := h
  refine ⟨user, List.mem_filter.mpr ⟨huser, ?_⟩, hadmin, hnot⟩
  have hother : user.id ≠ termination.accountId := by
    intro hsame
    have hdisabled := isDisabled_iff.mpr ⟨termination, hmem, hsame.symm, hopen, hdisables⟩
    rw [hnot] at hdisabled
    cases hdisabled
  simpa using hother

theorem isAdmin_of_mem {user : User} (huser : user ∈ s.users) (hadmin : user.isAdmin = true) :
    s.isAdmin user.id = true := by
  unfold Instance.isAdmin
  cases hfind : s.users.find? fun other => decide (other.id = user.id) with
  | none =>
      have hnot := List.find?_eq_none.mp hfind user huser
      simp at hnot
  | some found =>
      have hsame : found.id = user.id := by simpa using List.find?_some hfind
      obtain rfl := List.inj_on_of_nodup_map s.usersKey (List.mem_of_find?_eq_some hfind) huser hsame
      exact hadmin

/-- A window that opens where the exception or another administrator protects the instance. -/
theorem Governed.openTermination (h : Governed s) {accountId : Uuid} {ladder : Ladder} {now : Int}
    (hspares : s.openTerminationOf accountId = none → ladder.threshold ≤ ((s.strikesOf accountId ladder).length : Int) →
      s.isAdmin accountId = true → s.otherAdmins accountId ≠ 0 →
        ∃ user ∈ s.users, user.isAdmin = true ∧ user.id ≠ accountId ∧ s.isDisabled user.id = false) :
    Governed (s.openTermination accountId ladder now) := by
  unfold Instance.openTermination
  dsimp only
  split_ifs with hopen hbelow
  · exact h
  · exact h
  · have hnone : s.openTerminationOf accountId = none := by simpa using hopen
    -- Somebody else is left, or the window does not disable.
    have hleft : (terminationTerms ladder (s.isAdmin accountId) (s.otherAdmins accountId)).1 = false ∨
        ∃ user ∈ s.users, user.isAdmin = true ∧ user.id ≠ accountId ∧ s.isDisabled user.id = false := by
      by_cases hadmin : s.isAdmin accountId = true
      · by_cases hothers : s.otherAdmins accountId = 0
        · exact Or.inl (by simp [terminationTerms, hadmin, hothers])
        · exact Or.inr (hspares hnone (not_lt.mp hbelow) hadmin hothers)
      · obtain ⟨user, huser, huserAdmin, hnot⟩ := h
        refine Or.inr ⟨user, huser, huserAdmin, ?_, hnot⟩
        rintro rfl
        exact hadmin (isAdmin_of_mem huser huserAdmin)
    have hnew (other : Uuid) (hdisabled : (s.insertTermination
        { id := s.nextTermination, accountId, openedAt := now, deletionDueAt := now + ladder.windowDays * day
          strikeCountAtOpen := (s.strikesOf accountId ladder).length
          requiresHuman := (terminationTerms ladder (s.isAdmin accountId) (s.otherAdmins accountId)).2
          disablesAccount := (terminationTerms ladder (s.isAdmin accountId) (s.otherAdmins accountId)).1 }
        rfl).isDisabled other = true) :
        s.isDisabled other = true ∨ (other = accountId ∧
          (terminationTerms ladder (s.isAdmin accountId) (s.otherAdmins accountId)).1 = true) := by
      obtain ⟨termination, hmem, hof, hstill, hdis⟩ := isDisabled_iff.mp hdisabled
      obtain hold | hnewest := List.mem_append.mp hmem
      · exact Or.inl (isDisabled_iff.mpr ⟨termination, hold, hof, hstill, hdis⟩)
      · rw [List.mem_singleton] at hnewest
        subst hnewest
        exact Or.inr ⟨hof.symm, hdis⟩
    obtain hharmless | ⟨user, huser, hadmin, hother, hnot⟩ := hleft
    · refine h.mono rfl fun other hdisabled => ?_
      obtain hbefore | ⟨-, hdis⟩ := hnew other hdisabled
      · exact hbefore
      · rw [hharmless] at hdis
        cases hdis
    · refine ⟨user, huser, hadmin, ?_⟩
      rw [Bool.eq_false_iff]
      intro hdisabled
      obtain hbefore | ⟨hsame, -⟩ := hnew user.id hdisabled
      · rw [hnot] at hbefore
        cases hbefore
      · exact hother hsame

/-- The windows a sweep has still to look at are rows as they stand, open, and all different. -/
def Progress.Current (terminations : List AccountTermination) : Progress → Prop
  | .visiting rows _ _ => (∀ row ∈ rows, row ∈ terminations ∧ row.closedAt = none) ∧
      (rows.map AccountTermination.id).Nodup
  | _ => True

/-- An administrator is left, and the sweep in progress looks at rows as they stand. -/
structure InOffice (s : Instance) : Prop where
  governed : Governed s
  current : s.progress.Current s.terminations

/-- Closing one window leaves the rows of the others as they stand. -/
theorem mem_closeTermination {termination row : AccountTermination} {reason : ClosedReason} {now : Int}
    (hrow : row ∈ s.terminations) (hne : row.id ≠ termination.id) :
    row ∈ (s.closeTermination termination reason now).terminations := by
  refine List.mem_map.mpr ⟨row, hrow, ?_⟩
  rw [changeRow, if_neg hne]

theorem InOffice.visit {termination : AccountTermination} {rows : List AccountTermination} {ladder : Ladder}
    {now : Int} (h : InOffice s) (hprogress : s.progress = .visiting (termination :: rows) ladder now) :
    InOffice { s.visit termination ladder now with progress := .visiting rows ladder now } := by
  have hcurrent := h.current
  rw [hprogress] at hcurrent
  obtain ⟨hrows, hkeys⟩ := hcurrent
  obtain ⟨⟨hmem, hopen⟩, hrows⟩ := List.forall_mem_cons.mp hrows
  obtain ⟨hfirst, hkeys⟩ := List.nodup_cons.mp hkeys
  have hothers : ∀ row ∈ rows, row.id ≠ termination.id := fun row hrow hsame =>
    hfirst (hsame ▸ List.mem_map_of_mem hrow)
  unfold Instance.visit
  split_ifs with hbelow hdue
  · exact ⟨h.governed.closeTermination termination _ now,
      fun row hrow => ⟨mem_closeTermination (hrows row hrow).1 (hothers row hrow), (hrows row hrow).2⟩, hkeys⟩
  · have hdisables : termination.disablesAccount = true := by
      simp only [isDueForDeletion, Bool.and_eq_true] at hdue
      exact hdue.1.1.1.2
    refine ⟨h.governed.executeTermination hmem hopen hdisables now, fun row hrow => ⟨?_, (hrows row hrow).2⟩, hkeys⟩
    exact mem_closeTermination (s := s.deleteUser termination.accountId) (hrows row hrow).1 (hothers row hrow)
  · exact ⟨h.governed, fun row hrow => hrows row hrow, hkeys⟩

theorem InOffice.goOn (h : InOffice s) (hspares : SparesAnAdministrator s .next) : InOffice s.goOn := by
  unfold Instance.goOn
  unfold SparesAnAdministrator at hspares
  split
  · exact h
  · rename_i accountId accounts ladder now sweeping hprogress
    rw [hprogress] at hspares
    exact ⟨h.governed.openTermination hspares, trivial⟩
  · exact ⟨h.governed, trivial⟩
  · rename_i ladder now only hprogress
    refine ⟨h.governed, fun row hrow => ?_, s.terminationsKey.sublist (List.filter_sublist.map _)⟩
    obtain ⟨hmem, hwhich⟩ := List.mem_filter.mp hrow
    simp only [Bool.and_eq_true, Option.isNone_iff_eq_none] at hwhich
    exact ⟨hmem, hwhich.1⟩
  · rename_i termination terminations ladder now hprogress
    exact h.visit hprogress
  · exact ⟨h.governed, trivial⟩

theorem openTerminationOf_spec {accountId : Uuid} {termination : AccountTermination}
    (h : s.openTerminationOf accountId = some termination) :
    termination ∈ s.terminations ∧ termination.closedAt = none := by
  have hmatch := List.find?_some h
  simp only [Bool.and_eq_true, Option.isNone_iff_eq_none] at hmatch
  exact ⟨List.mem_of_find?_eq_some h, hmatch.2⟩

theorem fileAppeal_eq_ok {s' : Instance} {accountId : Uuid} (h : s.fileAppeal accountId = .ok s') :
    ∃ termination, s.openTerminationOf accountId = some termination ∧
      s' = s.updateTermination termination.id fun row => { row with appealState := .open } := by
  unfold Instance.fileAppeal at h
  split at h
  · cases h
  · rename_i termination hopen
    split_ifs at h
    exact ⟨termination, hopen, (Except.ok.inj h).symm⟩

theorem resolveAppeal_eq_ok {s' : Instance} {accountId : Uuid} {upheld : Bool} {overturnedCase : Option CaseId}
    {ladder : Ladder} {now : Int} (h : s.resolveAppeal accountId upheld overturnedCase ladder now = .ok s') :
    ∃ termination appealState, s.openTerminationOf accountId = some termination ∧
      (s' = (s.updateTermination termination.id fun row => { row with appealState }) ∨
        ∃ caseId, s' = (((s.updateTermination termination.id fun row => { row with appealState }).restoreCase
          caseId).closeTermination termination .appealUpheld now)) := by
  unfold Instance.resolveAppeal at h
  split at h
  · cases h
  · rename_i termination hopen
    refine ⟨termination, if upheld then .upheld else .rejected, hopen, ?_⟩
    dsimp only at h
    by_cases hstate : termination.appealState ≠ .open
    · rw [if_pos hstate] at h
      cases h
    · rw [if_neg hstate] at h
      by_cases hupheld : (!upheld) = true
      · rw [if_pos hupheld] at h
        exact Or.inl (Except.ok.inj h).symm
      · rw [if_neg hupheld] at h
        split at h
        · cases h
        · rename_i caseId _
          exact Or.inr ⟨caseId, (Except.ok.inj h).symm⟩

theorem executeByAdministrator_eq_ok {s' : Instance} {accountId : Uuid} {now : Int}
    (h : s.executeByAdministrator accountId now = .ok s') :
    ∃ termination, s.openTerminationOf accountId = some termination ∧ termination.disablesAccount = true ∧
      s' = s.executeTermination termination now := by
  unfold Instance.executeByAdministrator at h
  split at h
  · cases h
  · rename_i termination hopen
    split_ifs at h with hharmless
    exact ⟨termination, hopen, by simpa using hharmless, (Except.ok.inj h).symm⟩

/-- What holds when a call is refused and whenever it succeeds holds after it. -/
theorem settled {P : Instance → Prop} {x : Except String Instance} (hrefused : P s)
    (hdone : ∀ s', x = .ok s' → P s') : P (x.toOption.getD s) := by
  cases x with
  | error error => exact hrefused
  | ok s' => exact hdone s' rfl

theorem Governed.appeal (h : Governed s) (terminationId : Nat) (appealState : AppealState) :
    Governed (s.updateTermination terminationId fun row => { row with appealState }) :=
  h.mono rfl (isDisabled_updateTermination (fun _ => rfl) (fun _ => id) fun _ => rfl)

theorem Governed.restoreCase (h : Governed s) (caseId : CaseId) : Governed (s.restoreCase caseId) := by
  unfold Instance.restoreCase
  split
  · exact h
  · exact h

/-- A call that begins leaves an administrator: it closes windows, answers appeals, or deletes an account
that its window disables. -/
theorem Governed.start (h : Governed s) (act : Enforcement) : Governed (s.start act) := by
  cases act with
  | moderate call => exact h
  | tellOfStrike accountId caseId ladder => exact h
  | sweep ladder now only => exact h
  | next => exact h
  | fileAppeal accountId =>
      refine settled h fun s' hdone => ?_
      obtain ⟨termination, -, rfl⟩ := fileAppeal_eq_ok hdone
      exact h.appeal termination.id .open
  | resolveAppeal accountId upheld overturnedCase ladder now =>
      refine settled h fun s' hdone => ?_
      obtain ⟨termination, appealState, -, rfl | ⟨caseId, rfl⟩⟩ := resolveAppeal_eq_ok hdone
      · exact h.appeal termination.id appealState
      · exact ((h.appeal termination.id appealState).restoreCase caseId).closeTermination termination _ now
  | executeByAdministrator accountId now =>
      refine settled h fun s' hdone => ?_
      obtain ⟨termination, hopen, hdisables, rfl⟩ := executeByAdministrator_eq_ok hdone
      obtain ⟨hmem, hstill⟩ := openTerminationOf_spec hopen
      exact h.executeTermination hmem hstill hdisables now

/-- A call that begins looks at no window before its next statement. -/
theorem start_current (hidle : s.progress = .idle) (act : Enforcement) :
    (s.start act).progress.Current (s.start act).terminations := by
  have hcurrent {s' : Instance} (hsame : s'.progress = s.progress) : s'.progress.Current s'.terminations := by
    rw [hsame, hidle]
    trivial
  cases act with
  | moderate call => exact hcurrent rfl
  | tellOfStrike accountId caseId ladder =>
      show (s.tellOfStrike accountId caseId ladder).Current s.terminations
      unfold Instance.tellOfStrike
      dsimp only
      split_ifs <;> trivial
  | sweep ladder now only => trivial
  | next => exact hcurrent rfl
  | fileAppeal accountId =>
      refine settled (P := fun s' => s'.progress.Current s'.terminations) (hcurrent rfl) fun s' hdone => ?_
      obtain ⟨termination, -, rfl⟩ := fileAppeal_eq_ok hdone
      exact hcurrent rfl
  | resolveAppeal accountId upheld overturnedCase ladder now =>
      refine settled (P := fun s' => s'.progress.Current s'.terminations) (hcurrent rfl) fun s' hdone => ?_
      obtain ⟨termination, appealState, -, rfl | ⟨caseId, rfl⟩⟩ := resolveAppeal_eq_ok hdone
      · exact hcurrent rfl
      · refine hcurrent ?_
        show (Instance.restoreCase _ caseId).progress = s.progress
        unfold Instance.restoreCase
        split <;> rfl
  | executeByAdministrator accountId now =>
      refine settled (P := fun s' => s'.progress.Current s'.terminations) (hcurrent rfl) fun s' hdone => ?_
      obtain ⟨termination, -, -, rfl⟩ := executeByAdministrator_eq_ok hdone
      exact hcurrent rfl

theorem enforce_inOffice (h : InOffice s) (act : Enforcement) (hspares : SparesAnAdministrator s act) :
    InOffice (enforce s act) := by
  unfold enforce
  split
  · rename_i hidle
    exact ⟨h.governed.start _, start_current hidle _⟩
  · exact h.goOn hspares
  · exact h

end

/-- Enforcement leaves an administrator, so in particular one that is not deleted, in every run in which
a window that opens on one administrator of several finds another whom no open window disables. -/
theorem administrator_remains_when_spared (s : Instance) (acts : List Enforcement) (hgoverned : Governed s)
    (hmeets : Run.Meets enforce SparesAnAdministrator { s with progress := .idle } acts) :
    Governed (Run.run enforce { s with progress := .idle } acts) ∧
      ∃ user ∈ (Run.run enforce { s with progress := .idle } acts).users, user.isAdmin = true := by
  have hinit : InOffice { s with progress := .idle } := ⟨hgoverned, trivial⟩
  have hend := hmeets.invariant (fun s act h hspares => enforce_inOffice h act hspares) hinit
  obtain ⟨user, huser, hadmin, -⟩ := hend.governed
  exact ⟨hend.governed, user, huser, hadmin⟩

/-- Two administrators, each with an item. -/
def twoAdministrators : Instance where
  programme := { content := { owner := fun entity => if entity = sword then some (5, 1) else some (6, 2) } }
  users := [{ id := 1, isAdmin := true }, { id := 2, isAdmin := true }]
  terminations := []
  nextTermination := 0
  progress := .idle
  usersKey := by decide
  terminationsKey := List.nodup_nil
  fresh := by simp

/-- One strike is enough, and a sweep carries the window out when its day has come. -/
def swift : Ladder where
  threshold := 1
  windowDays := 30
  requiresHuman := false

/-- One administrator of two is disabled and deleted; the other's windows then do not disable. -/
theorem administrator_remains_of_two :
    Governed (Run.run enforce twoAdministrators [.moderate (.submitTakedownNotice sword completeNotice),
      .tellOfStrike 1 0 swift, .next, .next, .sweep swift (30 * day) none, .next, .next, .next, .next,
      .moderate (.submitTakedownNotice swordCopy completeNotice), .tellOfStrike 2 1 swift, .next, .next]) ∧
    ∃ user ∈ (Run.run enforce twoAdministrators [.moderate (.submitTakedownNotice sword completeNotice),
      .tellOfStrike 1 0 swift, .next, .next, .sweep swift (30 * day) none, .next, .next, .next, .next,
      .moderate (.submitTakedownNotice swordCopy completeNotice), .tellOfStrike 2 1 swift, .next, .next]).users,
        user.isAdmin = true :=
  administrator_remains_when_spared twoAdministrators _ (by decide +kernel) (by decide +kernel)

/-- Two administrators reach the threshold one after the other, and a window disables each. -/
theorem both_administrators_disabled : Governed twoAdministrators ∧
    ¬Governed (Run.run enforce twoAdministrators [.moderate (.submitTakedownNotice sword completeNotice),
      .tellOfStrike 1 0 swift, .next, .next, .moderate (.submitTakedownNotice swordCopy completeNotice),
      .tellOfStrike 2 1 swift, .next, .next]) := by
  decide +kernel

end ThunderForge.Moderation
