import ThunderForge.Lib.Latest
import ThunderForge.Lib.SortBy
import ThunderForge.Moderation.Visibility

/-! Strikes, derived from the log by account, case and lookback. They fall on the account a notice names
in the runs in which a counter-notice by somebody else, and an event that carries somebody else's account
or none, do not come between a case and its owner. -/

namespace ThunderForge.Moderation

open Std (ExtTreeMap)

/-- One strike: an upheld takedown that was not restored. -/
structure Strike where
  caseId : CaseId
  entity : Entity
  worldId : Uuid
  recordedAt : Stamp
  deriving DecidableEq

def Strike.of (event : ContentModerationAction) : Strike where
  caseId := event.caseId
  entity := event.entity
  worldId := event.worldId
  recordedAt := event.createdAt

/-- The rows a count of strikes loads: inside the lookback, with an account, narrowed to one when one is
given. -/
def isCounted (only : Option Uuid) (cutoff : Int) (event : ContentModerationAction) : Bool :=
  cutoff ≤ event.createdAt.time && event.accountId.isSome &&
    only.all fun account => decide (event.accountId = some account)

/-- One case goes to the account its latest event carries, when that event counts. -/
def addStrike (strikes : ExtTreeMap Uuid (List Strike)) (event : ContentModerationAction) :
    ExtTreeMap Uuid (List Strike) :=
  if !countsAsStrike event.actionType then strikes
  else
    match event.accountId with
    | none => strikes
    | some account => Latest.push strikes account (.of event)

/-- The latest of the rows loaded for each case, gathered oldest first. -/
def latestCounted (log : List ContentModerationAction) (only : Option Uuid) (cutoff : Int) :
    ExtTreeMap CaseId ContentModerationAction :=
  (log.filter (isCounted only cutoff)).reverse.foldl
    (Latest.keepNewer ContentModerationAction.caseId fun row existing =>
      decide (existing.createdAt < row.createdAt)) ∅

/-- Every account's strikes inside the lookback, each account's oldest first. -/
def strikesByAccount (log : List ContentModerationAction) (now : Int) (only : Option Uuid) (lookbackDays : Int) :
    ExtTreeMap Uuid (List Strike) :=
  let latest := latestCounted log only (now - lookbackDays * day)
  let strikes := latest.toList.foldl (fun strikes entry => addStrike strikes entry.2) ∅
  strikes.map fun _ list => SortBy.sortBy Strike.recordedAt list

/-- One account's strikes inside the lookback, oldest first. -/
def strikesOf (log : List ContentModerationAction) (now : Int) (accountId : Uuid) (lookbackDays : Int) :
    List Strike :=
  (strikesByAccount log now (some accountId) lookbackDays)[accountId]?.getD []

/-- An account's strikes are the same in the narrowed and in the full reading, and are the cases that a
notice opened against its content and whose latest event, inside the lookback, disables. -/
def StrikesFallOnOwners (s : Programme) : Prop :=
  ∀ accountId lookbackDays,
    strikesOf s.log s.time accountId lookbackDays =
      (strikesByAccount s.log s.time none lookbackDays)[accountId]?.getD [] ∧
    ∀ caseId, (∃ strike ∈ strikesOf s.log s.time accountId lookbackDays, strike.caseId = caseId) ↔
      (caseId, accountId) ∈ s.noticed ∧ ∃ last, lastOf s.log caseId = some last ∧
        s.time - lookbackDays * day ≤ last.createdAt.time ∧ countsAsStrike last.actionType = true

/-- The account whose content a notice opened the case against; none for a copy's child case. -/
def Programme.noticedAccount (s : Programme) (caseId : CaseId) : Option Uuid :=
  (s.noticed.find? fun entry => entry.1 = caseId).map Prod.snd

/-- The latest event of a case that carries an account. -/
def lastBy (log : List ContentModerationAction) (caseId : CaseId) (accountId : Uuid) :
    Option ContentModerationAction :=
  log.find? fun event => event.accountId = some accountId && event.caseId = caseId

/-- Nobody else comes between a case and the account it is against: a counter-notice by another account
is filed only while the latest event that carries the owner's account does not count, and a resolution
that counts is made only while the last event carries that account, for a child case none. -/
def KeepsAccount (s : Programme) : Call → Prop
  | .submitCounterNotice userId isAdmin _ caseId fields =>
    validateCounterNotice fields = [] → ∀ last ∈ lastOf s.log caseId,
      s.isDmOfWorld userId isAdmin last.worldId = true → s.noticedAccount caseId ≠ some userId →
        ∀ own ∈ (s.noticedAccount caseId).bind (lastBy s.log caseId), countsAsStrike own.actionType = false
  | .resolveModerationCase isAdmin caseId resolution =>
    isAdmin = true → countsAsStrike resolution = true →
      ∀ last ∈ lastOf s.log caseId, last.accountId = s.noticedAccount caseId
  | _ => True

instance (s : Programme) : ∀ call, Decidable (KeepsAccount s call)
  | .submitCounterNotice userId isAdmin _ caseId fields =>
    inferInstanceAs (Decidable (validateCounterNotice fields = [] → ∀ last ∈ lastOf s.log caseId,
      s.isDmOfWorld userId isAdmin last.worldId = true → s.noticedAccount caseId ≠ some userId →
        ∀ own ∈ (s.noticedAccount caseId).bind (lastBy s.log caseId), countsAsStrike own.actionType = false))
  | .resolveModerationCase isAdmin caseId resolution =>
    inferInstanceAs (Decidable (isAdmin = true → countsAsStrike resolution = true →
      ∀ last ∈ lastOf s.log caseId, last.accountId = s.noticedAccount caseId))
  | .submitTakedownNotice _ _ | .effectiveStatus _ | .wait _ | .elsewhere _ => inferInstanceAs (Decidable True)

section

variable {s : Programme} {log : List ContentModerationAction} {event : ContentModerationAction} {cutoff : Int}

/-- The strike an account has of an event. -/
def strikeFor (accountId : Uuid) (event : ContentModerationAction) : Option Strike :=
  if countsAsStrike event.actionType = true ∧ event.accountId = some accountId then some (.of event) else none

/-- The log is in the order of its timestamps, strictly within a case. -/
structure Dated (log : List ContentModerationAction) : Prop where
  ordered : log.Pairwise fun event older => event.caseId = older.caseId →
    decide (older.createdAt < event.createdAt) = true
  timed : log.Pairwise fun event older => older.createdAt.time ≤ event.createdAt.time

/-- An account's entry is read off the latest counted event of each case. -/
theorem strikesByAccount_getD (log : List ContentModerationAction) (now : Int) (only : Option Uuid)
    (lookbackDays : Int) (accountId : Uuid) :
    (strikesByAccount log now only lookbackDays)[accountId]?.getD [] = SortBy.sortBy Strike.recordedAt
      ((latestCounted log only (now - lookbackDays * day)).toList.filterMap fun entry =>
        strikeFor accountId entry.2) := by
  have hfold : ∀ (entries : List (CaseId × ContentModerationAction)) (strikes : ExtTreeMap Uuid (List Strike)),
      (entries.foldl (fun strikes entry => addStrike strikes entry.2) strikes)[accountId]?.getD [] =
        strikes[accountId]?.getD [] ++ entries.filterMap fun entry => strikeFor accountId entry.2 := by
    intro entries
    induction entries with
    | nil => simp
    | cons entry entries ih =>
        intro strikes
        rw [List.foldl_cons, ih, List.filterMap_cons]
        unfold addStrike strikeFor
        cases hcounts : countsAsStrike entry.2.actionType with
        | false => simp
        | true =>
            cases haccount : entry.2.accountId with
            | none => simp
            | some account =>
                simp only [Bool.not_true, Bool.false_eq_true, if_false, Latest.getD_push, Option.some.injEq]
                by_cases hsame : account = accountId
                · simp [hsame]
                · simp [hsame]
  have hentries := hfold (latestCounted log only (now - lookbackDays * day)).toList ∅
  rw [ExtTreeMap.getElem?_empty, Option.getD_none, List.nil_append] at hentries
  rw [strikesByAccount, ExtTreeMap.getElem?_map, ← hentries]
  exact Option.getD_map (SortBy.sortBy Strike.recordedAt) [] _

theorem Dated.filter (h : Dated log) (p : ContentModerationAction → Bool) : Dated (log.filter p) :=
  ⟨h.ordered.filter p, h.timed.filter p⟩

theorem latestCounted_getElem? (h : Dated log) (only : Option Uuid) (caseId : CaseId) :
    (latestCounted log only cutoff)[caseId]? = lastOf (log.filter (isCounted only cutoff)) caseId :=
  Latest.getElem?_foldl_keepNewer (h.filter _).ordered caseId

/-- The first that matches is the first that matches something weaker, where that matches too. -/
theorem find?_of_imp {p q : ContentModerationAction → Bool} (hfind : log.find? p = some event)
    (himp : ∀ e, q e = true → p e = true) (hq : q event = true) : log.find? q = some event := by
  obtain ⟨hp, before, after, rfl, hbefore⟩ := List.find?_eq_some_iff_append.mp hfind
  refine List.find?_eq_some_iff_append.mpr ⟨hq, before, after, rfl, fun e he => ?_⟩
  cases hqe : q e with
  | false => rfl
  | true =>
      have hpe := hbefore e he
      rw [himp e hqe] at hpe
      cases hpe

/-- Inside the lookback the latest is the latest of all, or there is none. -/
theorem find?_filter_cutoff (h : Dated log) (p : ContentModerationAction → Bool) :
    log.find? (fun event => decide (cutoff ≤ event.createdAt.time) && p event) =
      (log.find? p).filter fun event => decide (cutoff ≤ event.createdAt.time) := by
  induction log with
  | nil => rfl
  | cons newest log ih =>
      obtain ⟨hnewest, htimed⟩ := List.pairwise_cons.mp h.timed
      have ih := ih ⟨(List.pairwise_cons.mp h.ordered).2, htimed⟩
      rw [List.find?_cons, List.find?_cons]
      cases hp : p newest with
      | false => simpa using ih
      | true =>
          by_cases hcutoff : cutoff ≤ newest.createdAt.time
          · simp [Option.filter_some, hcutoff]
          · have hnone : log.find? (fun event => decide (cutoff ≤ event.createdAt.time) && p event) = none := by
              refine List.find?_eq_none.mpr fun older holder => ?_
              have hlate : ¬cutoff ≤ older.createdAt.time := fun hle => hcutoff (hle.trans (hnewest older holder))
              simp [hlate]
            simp [Option.filter_some, hcutoff, hnone]

/-- What holds of the accounts that the events of a log carry, while nobody comes between a case and the
account it is against. -/
structure Owned (s : Programme) : Prop where
  child : ∀ event ∈ s.log, event.parentCaseId ≠ none → s.noticedAccount event.caseId = none
  disabling : ∀ event ∈ s.log, countsAsStrike event.actionType = true →
    event.accountId = s.noticedAccount event.caseId
  latest : ∀ caseId owner own, s.noticedAccount caseId = some owner → lastBy s.log caseId owner = some own →
    countsAsStrike own.actionType = true → lastOf s.log caseId = some own

/-- The strike that a case is to an account, by the notice that opened it and its latest event. -/
def owed (s : Programme) (accountId : Uuid) (cutoff : Int) (caseId : CaseId) : Option Strike :=
  (lastOf s.log caseId).bind fun last =>
    if s.noticedAccount caseId = some accountId ∧ cutoff ≤ last.createdAt.time ∧
        countsAsStrike last.actionType = true then some (.of last)
    else none

/-- A reading that finds the latest of some events of a case, those of its owner among them. -/
theorem Owned.strikeFor_eq (h : Owned s) {accountId : Uuid} {caseId : CaseId}
    {p : ContentModerationAction → Bool} (hp : ∀ event, event.accountId = some accountId → p event = true) :
    (((s.log.find? fun event => p event && decide (event.caseId = caseId)).filter fun event =>
      decide (cutoff ≤ event.createdAt.time)).bind (strikeFor accountId)) = owed s accountId cutoff caseId := by
  have hlastBy {event : ContentModerationAction} (haccount : event.accountId = some accountId)
      (hfind : (s.log.find? fun event => p event && decide (event.caseId = caseId)) = some event) :
      lastBy s.log caseId accountId = some event := by
    have hcase : event.caseId = caseId := by
      have hmatch := List.find?_some hfind
      simp only [Bool.and_eq_true, decide_eq_true_eq] at hmatch
      exact hmatch.2
    refine find?_of_imp hfind (fun e he => ?_) (by simp [haccount, hcase])
    simp only [Bool.and_eq_true, decide_eq_true_eq] at he ⊢
    exact ⟨hp e he.1, he.2⟩
  cases howed : owed s accountId cutoff caseId with
  | some strike =>
      -- The latest event of the case is the owner's, so every reading that has the owner's events finds it.
      obtain ⟨last, hlast, hstrike⟩ := Option.bind_eq_some_iff.mp howed
      obtain ⟨hnoticed, hcutoff, hcounts⟩ : s.noticedAccount caseId = some accountId ∧
          cutoff ≤ last.createdAt.time ∧ countsAsStrike last.actionType = true := by
        by_contra hnot
        rw [if_neg hnot] at hstrike
        cases hstrike
      rw [if_pos ⟨hnoticed, hcutoff, hcounts⟩] at hstrike
      have hcase := lastOf_caseId hlast
      have haccount : last.accountId = some accountId := by
        rw [h.disabling last (mem_of_lastOf hlast) hcounts, hcase, hnoticed]
      have hfind : (s.log.find? fun event => p event && decide (event.caseId = caseId)) = some last := by
        refine find?_of_imp hlast (fun e he => ?_) (by simp [hp last haccount, hcase])
        simp only [Bool.and_eq_true] at he
        exact he.2
      rw [hfind, Option.filter_some, if_pos (by simpa using hcutoff), Option.bind_some, strikeFor,
        if_pos ⟨hcounts, haccount⟩, hstrike]
  | none =>
      rw [Option.bind_eq_none_iff]
      intro found hfound
      obtain ⟨hfind, hcutoff⟩ := Option.filter_eq_some_iff.mp hfound
      unfold strikeFor
      by_cases hstrike : countsAsStrike found.actionType = true ∧ found.accountId = some accountId
      · have hcase : found.caseId = caseId := by
          have hmatch := List.find?_some hfind
          simp only [Bool.and_eq_true, decide_eq_true_eq] at hmatch
          exact hmatch.2
        have hnoticed : s.noticedAccount caseId = some accountId := by
          rw [← hcase, ← h.disabling found (List.mem_of_find?_eq_some hfind) hstrike.1, hstrike.2]
        have hlast := h.latest caseId accountId found hnoticed (hlastBy hstrike.2 hfind) hstrike.1
        rw [owed, hlast, Option.bind_some, if_pos ⟨hnoticed, by simpa using hcutoff, hstrike.1⟩] at howed
        cases howed
      · rw [if_neg hstrike]

/-- Narrowed to the account or not, the latest counted event of a case is the account's strike when the
case is one it is owed. -/
theorem Owned.latestCounted_bind (h : Owned s) (hdated : Dated s.log) {only : Option Uuid} {accountId : Uuid}
    (honly : only = none ∨ only = some accountId) (caseId : CaseId) :
    (latestCounted s.log only cutoff)[caseId]?.bind (strikeFor accountId) = owed s accountId cutoff caseId := by
  have hp : ∀ event : ContentModerationAction, event.accountId = some accountId →
      (event.accountId.isSome && only.all fun account => decide (event.accountId = some account)) = true := by
    intro event haccount
    obtain rfl | rfl := honly <;> simp [haccount]
  rw [latestCounted_getElem? hdated, ← h.strikeFor_eq hp, ← find?_filter_cutoff hdated, lastOf, List.find?_filter]
  congr 2
  funext event
  simp [isCounted, Bool.and_assoc]

theorem Owned.strikesFallOnOwners (h : Owned s) (hdated : Dated s.log)
    (hnoticed : ∀ caseId accountId, (caseId, accountId) ∈ s.noticed ↔ s.noticedAccount caseId = some accountId) :
    StrikesFallOnOwners s := by
  intro accountId lookbackDays
  refine ⟨?_, fun caseId => ?_⟩
  · rw [strikesOf, strikesByAccount_getD, strikesByAccount_getD]
    refine congrArg _ (Latest.filterMap_toList_congr fun caseId => ?_)
    rw [h.latestCounted_bind hdated (Or.inr rfl), h.latestCounted_bind hdated (Or.inl rfl)]
  · have howed (id : CaseId) : (latestCounted s.log (some accountId) (s.time - lookbackDays * day))[id]?.bind
        (strikeFor accountId) = owed s accountId (s.time - lookbackDays * day) id :=
      h.latestCounted_bind hdated (Or.inr rfl) id
    rw [hnoticed, strikesOf, strikesByAccount_getD]
    constructor
    · rintro ⟨strike, hstrike, rfl⟩
      rw [SortBy.mem_sortBy] at hstrike
      obtain ⟨⟨id, event⟩, hevent, hof⟩ := List.mem_filterMap.mp hstrike
      rw [ExtTreeMap.mem_toList_iff_getElem?_eq_some] at hevent
      have howed := howed id
      rw [hevent, Option.bind_some, hof] at howed
      obtain ⟨last, hlast, hif⟩ := Option.bind_eq_some_iff.mp howed.symm
      split_ifs at hif with hall
      obtain rfl := Option.some.inj hif
      have hid : (Strike.of last).caseId = id := lastOf_caseId hlast
      rw [hid]
      exact ⟨hall.1, last, hlast, hall.2⟩
    · rintro ⟨howner, last, hlast, hcutoff, hcounts⟩
      have howed := howed caseId
      rw [owed, hlast, Option.bind_some, if_pos ⟨howner, hcutoff, hcounts⟩] at howed
      obtain ⟨event, hevent, hof⟩ := Option.bind_eq_some_iff.mp howed
      refine ⟨.of last, ?_, lastOf_caseId hlast⟩
      rw [SortBy.mem_sortBy]
      refine List.mem_filterMap.mpr ⟨(caseId, event), ?_, hof⟩
      rwa [ExtTreeMap.mem_toList_iff_getElem?_eq_some]

/-- Timestamps grow, and a case is opened once. -/
structure Orderly (s : Programme) : Prop where
  dated : Dated s.log
  past : ∀ event ∈ s.log, event.createdAt < s.now
  opened : ∀ entry ∈ s.noticed, entry.1 < s.nextCase
  once : (s.noticed.map Prod.fst).Nodup

theorem Stamp.time_le {earlier later : Stamp} (h : earlier < later) : earlier.time ≤ later.time := by
  obtain hlt | ⟨heq, -⟩ := Prod.Lex.lt_iff.mp h
  · exact hlt.le
  · exact heq.le

/-- Rows of different cases, written now. -/
theorem Orderly.insert (h : Orderly s) {events : List (Stamp → ContentModerationAction)} {nextCase : CaseId}
    (hnext : s.nextCase ≤ nextCase) (hstamp : ∀ event ∈ events, (event s.now).createdAt = s.now)
    (hcases : (events.map fun event => (event s.now).caseId).Nodup) :
    Orderly { s.insert events with nextCase } := by
  have hnew : ∀ event ∈ (events.map (· s.now)).reverse, event.createdAt = s.now := by
    intro event hevent
    obtain ⟨new, hmem, rfl⟩ := List.mem_map.mp (List.mem_reverse.mp hevent)
    exact hstamp new hmem
  have hnow : s.now < (s.insert events).now := Prod.Lex.lt_iff.mpr (Or.inr ⟨rfl, Nat.lt_succ_self _⟩)
  have hnodup : (events.map (· s.now)).reverse.Pairwise fun event older => event.caseId ≠ older.caseId := by
    refine List.pairwise_reverse.mpr (List.pairwise_map.mpr ?_)
    exact (List.pairwise_map.mp hcases).imp fun hne => hne.symm
  refine ⟨⟨?_, ?_⟩, fun event hevent => ?_, fun entry hentry => (h.opened entry hentry).trans_le hnext, h.once⟩
  · refine List.pairwise_append.mpr ⟨hnodup.imp fun hne heq => absurd heq hne, h.dated.ordered, ?_⟩
    intro event hevent older holder _
    rw [hnew event hevent]
    exact decide_eq_true (h.past older holder)
  · refine List.pairwise_append.mpr ⟨?_, h.dated.timed, ?_⟩
    · refine List.Pairwise.imp_of_mem (fun hevent holder _ => ?_) hnodup
      rw [hnew _ hevent, hnew _ holder]
    · intro event hevent older holder
      rw [hnew event hevent]
      exact Stamp.time_le (h.past older holder)
  · obtain hnewer | hold := List.mem_append.mp hevent
    · exact (hnew event hnewer).trans_lt hnow
    · exact (h.past event hold).trans hnow

theorem Orderly.insertOne (h : Orderly s) {event : Stamp → ContentModerationAction}
    (hstamp : (event s.now).createdAt = s.now) : Orderly (s.insert [event]) :=
  h.insert le_rfl (List.forall_mem_singleton.mpr hstamp) (by simp)

theorem Orderly.fanOut (h : Orderly s) (parentCaseId : CaseId) (action : ActionType) (due : Option Int) :
    Orderly (s.insert ((childCases s.log parentCaseId).map (childEvent parentCaseId action due))) := by
  refine h.insert le_rfl (List.forall_mem_map.mpr fun _ _ => rfl) ?_
  rw [List.map_map]
  exact (childCases_listed parentCaseId).1

theorem Orderly.fanOutDisable (h : Orderly s) (parentCaseId : CaseId) (entity : Entity) :
    Orderly (s.fanOutDisable parentCaseId entity) := by
  refine h.insert (Nat.le_add_right _ _) (List.forall_mem_map.mpr fun _ _ => rfl) ?_
  rw [List.map_map, List.map_map]
  change (List.map Prod.snd _).Nodup
  rw [List.zipIdx_map_snd]
  exact List.nodup_range'

theorem Orderly.open (h : Orderly s) (accountId : Uuid) : Orderly (s.opened accountId) := by
  refine ⟨h.dated, h.past, List.forall_mem_cons.mpr ⟨Nat.lt_succ_self _, fun entry hentry => ?_⟩, ?_⟩
  · exact (h.opened entry hentry).trans (Nat.lt_succ_self _)
  · refine List.nodup_cons.mpr ⟨fun hmem => ?_, h.once⟩
    obtain ⟨entry, hentry, heq⟩ := List.mem_map.mp hmem
    exact absurd (heq ▸ h.opened entry hentry) (lt_irrefl _)

theorem step_orderly (h : Orderly s) (call : Call) : Orderly (step s call) := by
  cases call with
  | submitTakedownNotice entity fields =>
      obtain hsame | ⟨owner, -, ⟨-, hstep⟩ | ⟨-, hstep⟩⟩ := submitTakedownNotice_cases entity fields (s := s)
      · rw [hsame]
        exact h
      · rw [hstep]
        exact (h.open owner.2).insertOne rfl
      · rw [hstep]
        exact (((h.open owner.2).insertOne rfl).insertOne rfl).fanOutDisable _ _
  | submitCounterNotice userId isAdmin waitingDays caseId fields =>
      obtain hsame | ⟨last, -, -, -, hstep⟩ := submitCounterNotice_cases userId isAdmin waitingDays caseId
        fields (s := s)
      · rw [hsame]
        exact h
      · rw [hstep]
        exact ((h.insertOne rfl).insertOne rfl).fanOut _ _ _
  | resolveModerationCase isAdmin caseId resolution =>
      obtain hsame | ⟨last, -, -, -, hstep⟩ := resolveModerationCase_cases isAdmin caseId resolution (s := s)
      · rw [hsame]
        exact h
      · rw [hstep]
        exact (h.insertOne rfl).fanOut _ _ _
  | effectiveStatus entity =>
      obtain hsame | ⟨last, due, -, -, -, -, hstep⟩ := effectiveStatus_cases entity (s := s)
      · rw [hsame]
        exact h
      · rw [hstep]
        exact h.insertOne rfl
  | wait duration =>
      refine ⟨h.dated, fun event hevent => (h.past event hevent).trans_le ?_, h.opened, h.once⟩
      refine Prod.Lex.le_iff.mpr ?_
      obtain hzero | hpos := Nat.eq_zero_or_pos duration
      · subst hzero
        exact Or.inr ⟨by simp [step, Programme.now], le_rfl⟩
      · refine Or.inl ?_
        show s.time < s.time + (duration : Int)
        omega
  | elsewhere content => exact ⟨h.dated, h.past, h.opened, h.once⟩

theorem Orderly.mem_noticed (h : Orderly s) (caseId : CaseId) (accountId : Uuid) :
    (caseId, accountId) ∈ s.noticed ↔ s.noticedAccount caseId = some accountId := by
  unfold Programme.noticedAccount
  constructor
  · intro hmem
    cases hfind : s.noticed.find? fun entry => decide (entry.1 = caseId) with
    | none =>
        have hnot := List.find?_eq_none.mp hfind _ hmem
        simp at hnot
    | some entry =>
        have hcase : entry.1 = caseId := by simpa using List.find?_some hfind
        have hentry : entry = (caseId, accountId) :=
          List.inj_on_of_nodup_map h.once (List.mem_of_find?_eq_some hfind) hmem hcase
        simp [hentry]
  · intro hfind
    obtain ⟨entry, hentry, rfl⟩ := Option.map_eq_some_iff.mp hfind
    have hcase : entry.1 = caseId := by simpa using List.find?_some hentry
    exact hcase ▸ List.mem_of_find?_eq_some hentry

/-- An event that comes between no case and the account it is against. -/
structure Fits (s : Programme) (event : ContentModerationAction) : Prop where
  child : event.parentCaseId ≠ none → s.noticedAccount event.caseId = none
  disabling : countsAsStrike event.actionType = true → event.accountId = s.noticedAccount event.caseId
  latest : ∀ owner, s.noticedAccount event.caseId = some owner → event.accountId = some owner ∨
    ∀ own, lastBy s.log event.caseId owner = some own → countsAsStrike own.actionType = false

theorem Owned.cons (h : Owned s) {s' : Programme} (hlog : s'.log = event :: s.log) (hnoticed : s'.noticed = s.noticed)
    (hfits : Fits s event) : Owned s' := by
  have haccount (caseId : CaseId) : s'.noticedAccount caseId = s.noticedAccount caseId := by
    rw [Programme.noticedAccount, hnoticed, Programme.noticedAccount]
  refine ⟨?_, ?_, fun caseId owner own howner hown hcounts => ?_⟩
  · rw [hlog]
    exact List.forall_mem_cons.mpr ⟨fun hparent => (haccount _).trans (hfits.child hparent),
      fun e he hparent => (haccount _).trans (h.child e he hparent)⟩
  · rw [hlog]
    exact List.forall_mem_cons.mpr ⟨fun hcounts => (hfits.disabling hcounts).trans (haccount _).symm,
      fun e he hcounts => (h.disabling e he hcounts).trans (haccount _).symm⟩
  · rw [haccount] at howner
    rw [hlog, lastBy, List.find?_cons] at hown
    rw [hlog, lastOf, List.find?_cons]
    by_cases hcase : event.caseId = caseId
    · subst hcase
      obtain hmine | hother := hfits.latest owner howner
      · simp only [hmine, decide_true, Bool.and_self] at hown
        simpa using hown
      · by_cases hmine : event.accountId = some owner
        · simp only [hmine, decide_true, Bool.and_self] at hown
          simpa using hown
        · simp only [hmine, decide_false, Bool.false_and] at hown
          rw [hother own hown] at hcounts
          cases hcounts
    · simp only [hcase, decide_false, Bool.and_false] at hown
      simp only [hcase, decide_false]
      exact h.latest caseId owner own howner hown hcounts

theorem Owned.insertOne (h : Owned s) {event : Stamp → ContentModerationAction} (hfits : Fits s (event s.now)) :
    Owned (s.insert [event]) := h.cons rfl rfl hfits

/-- An event of a case that no notice opened, without an account. -/
theorem Fits.of_unnoticed (hnoticed : s.noticedAccount event.caseId = none) (haccount : event.accountId = none) :
    Fits s event where
  child _ := hnoticed
  disabling _ := haccount.trans hnoticed.symm
  latest owner howner := by
    rw [hnoticed] at howner
    cases howner

theorem Owned.insertUnnoticed (h : Owned s) {events : List (Stamp → ContentModerationAction)} {nextCase : CaseId}
    (hnoticed : ∀ event ∈ events, s.noticedAccount (event s.now).caseId = none)
    (haccount : ∀ event ∈ events, (event s.now).accountId = none) :
    Owned { s.insert events with nextCase } := by
  have hall : ∀ (events : List ContentModerationAction) (s : Programme), Owned s →
      (∀ event ∈ events, s.noticedAccount event.caseId = none ∧ event.accountId = none) →
      Owned { s with log := events.reverse ++ s.log } := by
    intro events
    induction events with
    | nil => exact fun _ h _ => h
    | cons event events ih =>
        intro s h hevents
        obtain ⟨⟨hnone, haccount⟩, hrest⟩ := List.forall_mem_cons.mp hevents
        have hone : Owned { s with log := event :: s.log } := h.cons rfl rfl (.of_unnoticed hnone haccount)
        rw [List.reverse_cons, List.append_assoc]
        exact ih { s with log := event :: s.log } hone hrest
  have hnew := hall (events.map (· s.now)) s h (List.forall_mem_map.mpr fun event hevent =>
    ⟨hnoticed event hevent, haccount event hevent⟩)
  exact ⟨hnew.child, hnew.disabling, hnew.latest⟩

theorem Owned.fanOut (h : Owned s) (parentCaseId : CaseId) (action : ActionType) (due : Option Int) :
    Owned (s.insert ((childCases s.log parentCaseId).map (childEvent parentCaseId action due))) := by
  refine h.insertUnnoticed (List.forall_mem_map.mpr fun child hchild => ?_) (List.forall_mem_map.mpr fun _ _ => rfl)
  obtain ⟨event, hevent, hparent, hcase, -⟩ := childCases_mem hchild
  have hnone := h.child event hevent (by simp [hparent])
  show s.noticedAccount child.caseId = none
  rw [← hcase, hnone]

theorem Owned.open (h : Owned s) (hkept : Kept s) (accountId : Uuid) : Owned (s.opened accountId) := by
  have hother {caseId : CaseId} (hne : caseId ≠ s.nextCase) :
      (s.opened accountId).noticedAccount caseId = s.noticedAccount caseId := by
    simp [Programme.noticedAccount, Programme.opened, hne.symm]
  have hold : ∀ event ∈ s.log, event.caseId ≠ s.nextCase := fun event hevent => (hkept.fresh event hevent).ne
  refine ⟨fun event hevent hparent => ?_, fun event hevent hcounts => ?_,
    fun caseId owner own howner hown hcounts => ?_⟩
  · rw [hother (hold event hevent)]
    exact h.child event hevent hparent
  · rw [hother (hold event hevent)]
    exact h.disabling event hevent hcounts
  · have hcase : own.caseId = caseId := by
      have hmatch := List.find?_some hown
      simp only [Bool.and_eq_true, decide_eq_true_eq] at hmatch
      exact hmatch.2
    have hne : caseId ≠ s.nextCase := hcase ▸ hold own (List.mem_of_find?_eq_some hown)
    rw [hother hne] at howner
    exact h.latest caseId owner own howner hown hcounts

theorem noticedAccount_opened (accountId : Uuid) :
    (s.opened accountId).noticedAccount s.nextCase = some accountId := by
  simp [Programme.noticedAccount, Programme.opened]

/-- The child cases a takedown opens are opened by no notice. -/
theorem Owned.fanOutDisable (h : Owned s) (horderly : Orderly s) (parentCaseId : CaseId) (entity : Entity) :
    Owned (s.fanOutDisable parentCaseId entity) := by
  refine h.insertUnnoticed (List.forall_mem_map.mpr fun child hchild => ?_) (List.forall_mem_map.mpr fun _ _ => rfl)
  obtain ⟨⟨copy, id⟩, hcopy, rfl⟩ := List.mem_map.mp hchild
  obtain ⟨hle, -⟩ := List.mk_mem_zipIdx_iff_le_and_getElem?_sub.mp hcopy
  show s.noticedAccount id = none
  refine Option.map_eq_none_iff.mpr (List.find?_eq_none.mpr fun entry hentry => ?_)
  have hlt : entry.1 < id := (horderly.opened entry hentry).trans_le hle
  simp [hlt.ne]

/-- An event of the owner's, in the case a notice opened against it. -/
theorem Fits.of_owner {owner : Uuid} (hnoticed : s.noticedAccount event.caseId = some owner)
    (haccount : event.accountId = some owner) (hparent : event.parentCaseId = none) : Fits s event where
  child hchild := absurd hparent hchild
  disabling _ := haccount.trans hnoticed.symm
  latest _ howner' := Or.inl (haccount.trans (hnoticed.symm.trans howner'))

/-- An event that follows the last one of its case. -/
theorem Fits.followUp {last : ContentModerationAction} {action : ActionType} {accountId : Option Uuid}
    {due : Option Int} {createdAt : Stamp}
    (hdisabling : countsAsStrike action = true → accountId = s.noticedAccount last.caseId)
    (hlatest : ∀ owner, s.noticedAccount last.caseId = some owner → accountId = some owner ∨
      ∀ own, lastBy s.log last.caseId owner = some own → countsAsStrike own.actionType = false) :
    Fits s (followUp last action accountId due createdAt) where
  child hparent := absurd rfl hparent
  disabling := hdisabling
  latest := hlatest

/-- Where the last event of a case is not a disabling one of its owner, neither is the owner's latest. -/
theorem Owned.lastBy_of_lastOf (h : Owned s) {last own : ContentModerationAction} {owner : Uuid}
    (hlast : lastOf s.log last.caseId = some last) (hnoticed : s.noticedAccount last.caseId = some owner)
    (hown : lastBy s.log last.caseId owner = some own)
    (hnot : ¬(last.accountId = some owner ∧ countsAsStrike last.actionType = true)) :
    countsAsStrike own.actionType = false := by
  by_contra hcounts
  rw [Bool.not_eq_false] at hcounts
  have hsame := h.latest last.caseId owner own hnoticed hown hcounts
  obtain rfl : last = own := Option.some.inj (hlast.symm.trans hsame)
  have hmatch := List.find?_some hown
  simp only [Bool.and_eq_true, decide_eq_true_eq] at hmatch
  exact hnot ⟨hmatch.1, hcounts⟩

theorem step_owned (hkept : Kept s) (horderly : Orderly s) (h : Owned s) (call : Call)
    (hkeeps : KeepsAccount s call) : Owned (step s call) := by
  cases call with
  | submitTakedownNotice entity fields =>
      obtain hsame | ⟨owner, -, ⟨-, hstep⟩ | ⟨-, hstep⟩⟩ := submitTakedownNotice_cases entity fields (s := s)
      · rw [hsame]
        exact h
      · rw [hstep]
        exact (h.open hkept owner.2).insertOne (.of_owner (noticedAccount_opened _) rfl rfl)
      · rw [hstep]
        refine Owned.fanOutDisable ?_ (((horderly.open owner.2).insertOne rfl).insertOne rfl) _ _
        refine Owned.insertOne ?_ (.of_owner (noticedAccount_opened _) rfl rfl)
        exact (h.open hkept owner.2).insertOne (.of_owner (noticedAccount_opened _) rfl rfl)
  | submitCounterNotice userId isAdmin waitingDays caseId fields =>
      obtain hsame | ⟨last, hlast, hmissing, hdm, hstep⟩ := submitCounterNotice_cases userId isAdmin waitingDays caseId
        fields (s := s)
      · rw [hsame]
        exact h
      · rw [hstep]
        obtain rfl := lastOf_caseId hlast
        have hothers (owner : Uuid) (hnoticed : s.noticedAccount last.caseId = some owner) :
            some userId = some owner ∨
              ∀ own, lastBy s.log last.caseId owner = some own → countsAsStrike own.actionType = false := by
          by_cases hme : userId = owner
          · exact Or.inl (congrArg some hme)
          · refine Or.inr fun own hown => hkeeps hmissing last hlast hdm ?_ own ?_
            · rw [hnoticed]
              exact fun hsame => hme (Option.some.inj hsame).symm
            · exact Option.bind_eq_some_iff.mpr ⟨owner, hnoticed, hown⟩
        have hreceived : Owned (s.insert [followUp last .counterNoticeReceived (some userId) none]) :=
          h.insertOne (.followUp (fun hcounts => absurd hcounts (by decide)) hothers)
        refine Owned.fanOut (hreceived.insertOne (.followUp (fun hcounts => absurd hcounts (by decide))
          fun owner hnoticed => ?_)) _ _ _
        -- The counter-notice received is another account's, or the owner's own, and counts in neither case.
        obtain hmine | hother := hothers owner hnoticed
        · exact Or.inl hmine
        · refine Or.inr fun own hown => ?_
          change List.find? _ (_ :: s.log) = _ at hown
          rw [List.find?_cons] at hown
          split at hown
          · obtain rfl := Option.some.inj hown
            rfl
          · exact hother own hown
  | resolveModerationCase isAdmin caseId resolution =>
      obtain hsame | ⟨last, hlast, hadmin, -, hstep⟩ := resolveModerationCase_cases isAdmin caseId resolution (s := s)
      · rw [hsame]
        exact h
      · rw [hstep]
        obtain rfl := lastOf_caseId hlast
        refine Owned.fanOut (h.insertOne (.followUp (fun hcounts => hkeeps hadmin hcounts last hlast)
          fun owner hnoticed => ?_)) _ _ _
        by_cases hmine : last.accountId = some owner
        · exact Or.inl hmine
        · exact Or.inr fun own hown => h.lastBy_of_lastOf hlast hnoticed hown fun hboth => hmine hboth.1
  | effectiveStatus entity =>
      obtain hsame | ⟨last, due, hlast, hforwarded, -, -, hstep⟩ := effectiveStatus_cases entity (s := s)
      · rw [hsame]
        exact h
      · rw [hstep]
        have hcase := lastOf_of_latestEvent hkept.consistent hlast
        refine h.insertOne (.followUp (fun hcounts => absurd hcounts (by decide))
          fun owner hnoticed => Or.inr fun own hown => ?_)
        refine h.lastBy_of_lastOf hcase hnoticed hown fun hboth => ?_
        rw [hforwarded] at hboth
        exact absurd hboth.2 (by decide)
  | wait duration => exact ⟨h.child, h.disabling, h.latest⟩
  | elsewhere content => exact ⟨h.child, h.disabling, h.latest⟩

end

/-- Strikes fall on the owners in every run in which nobody comes between a case and its owner. -/
theorem strikes_fall_on_owners_when_account_kept (content : Content) (time : Int) (calls : List Call)
    (hmeets : Run.Meets step KeepsAccount { content, time } calls) :
    StrikesFallOnOwners (Run.run step { content, time } calls) := by
  have hinit : Kept { content, time } ∧ Orderly { content, time } ∧ Owned { content, time } :=
    ⟨⟨by simp, by simp [Consistent]⟩, ⟨⟨.nil, .nil⟩, by simp, by simp, List.nodup_nil⟩,
      ⟨by simp, by simp, fun _ _ _ _ hown => nomatch hown⟩⟩
  obtain ⟨-, horderly, howned⟩ := hmeets.invariant (I := fun s => Kept s ∧ Orderly s ∧ Owned s)
    (fun _ call h hkeeps => ⟨step_kept h.1 call, step_orderly h.2.1 call, step_owned h.1 h.2.1 h.2.2 call hkeeps⟩)
    hinit
  exact howned.strikesFallOnOwners horderly.dated horderly.mem_noticed

/-- The owner contests a notice, which staff then uphold. -/
theorem strikes_of_contested_and_upheld : StrikesFallOnOwners (Run.run step { content := shelf, time := 0 }
    [.submitTakedownNotice sword completeNotice, .wait 10,
      .submitCounterNotice 7 false 14 0 completeCounterNotice, .wait 10,
      .resolveModerationCase true 0 .contentRemainsDisabled]) :=
  strikes_fall_on_owners_when_account_kept shelf 0 _ (by decide +kernel)

/-- Another Game Master contests the notice against account 7: the narrowed reading still counts it. -/
theorem strike_of_contested_notice : ¬StrikesFallOnOwners (Run.run step { content := shelf, time := 0 }
    [.submitTakedownNotice sword completeNotice, .wait 10,
      .submitCounterNotice 9 true 14 0 completeCounterNotice]) := by
  intro h
  have hsame := (h 7 365).1
  revert hsame
  decide +kernel

end ThunderForge.Moderation
