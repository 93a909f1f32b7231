import Mathlib.Data.List.Induction
import ThunderForge.Lib.Run
import ThunderForge.Peer.Adjudication

/-! Safety of one client against arbitrary traffic: what its log can hold after any sequence of calls,
whatever frames arrive and whoever sends them. -/

namespace ThunderForge.Peer.Adjudication

open Std (ExtTreeMap ExtTreeSet)

/-- The client after a sequence of calls. -/
abbrev run (a : Adjudication) (calls : List Call) : Adjudication := Run.run after a calls

/-- The user a session last claimed to be in a `HELLO`. -/
def lastClaim (calls : List Call) (session : Session) : Option Uuid :=
  (calls.filterMap (claimIn · session)).getLast?

/-- The nonces logged for one token, in log order. -/
def tokenNonces (log : List AdjudicatedChange) (token : Uuid) : List Nonce :=
  (log.filter fun change => change.entityId = token).map AdjudicatedChange.nonce

/-- One of the calls proposed the change, and its proposer could: this client for itself, or a roster
session under a nonce of its own, for the user it had last claimed to be or as the session then held
to be the Game Master's. -/
def ProposedIn (a : Adjudication) (calls : List Call) (change : AdjudicatedChange) : Prop :=
  ∃ before call rest, calls = before ++ call :: rest ∧
    match call with
    | .propose entityId transform =>
        change = { nonce := (run a before).nonces.issue.2, originUser := a.selfUser, entityId, transform }
    | .onFrame sender frame =>
        AdjudicationMessage.decode frame =
            some (.propose change.nonce change.originUser change.entityId change.transform) ∧
          sender ∈ a.roster ∧ change.nonce.origin = sender ∧
          (lastClaim before sender = some change.originUser ∨ (run a before).gmSession = some sender)
    | _ => False

theorem lastClaim_concat (calls : List Call) (call : Call) (session : Session) :
    lastClaim (calls ++ [call]) session = (claimIn call session).or (lastClaim calls session) := by
  unfold lastClaim
  cases h : claimIn call session <;> simp [h]

theorem tokenNonces_concat (log : List AdjudicatedChange) (change : AdjudicatedChange) (token : Uuid) :
    tokenNonces (log ++ [change]) token =
      if change.entityId = token then tokenNonces log token ++ [change.nonce] else tokenNonces log token := by
  unfold tokenNonces
  split_ifs with h <;> simp [h]

/-- A strictly increasing list stays so when something above its last element is put at its end. -/
theorem pairwise_concat_of_getLast_lt {α : Type*} [Preorder α] {xs : List α} {x : α}
    (hxs : xs.Pairwise (· < ·)) (hlast : ∀ y, xs.getLast? = some y → y < x) :
    (xs ++ [x]).Pairwise (· < ·) := by
  induction xs using List.reverseRecOn with
  | nil => simp
  | append_singleton ys y ih =>
      have hy : y < x := hlast y (by simp)
      rw [List.pairwise_append] at hxs ⊢
      refine ⟨List.pairwise_append.mpr hxs, List.pairwise_singleton _ _, fun z hz w hw => ?_⟩
      obtain rfl : w = x := by simpa using hw
      rcases List.mem_append.mp hz with hz | hz
      · exact (hxs.2.2 z hz y (by simp)).trans hy
      · obtain rfl : z = y := by simpa using hz
        exact hy

/-- The invariant of every run: claims are what was last heard, what is pending or logged was
proposed, and the log is ordered token by token with its last nonces in `applied`. -/
structure Safe (a : Adjudication) (calls : List Call) (b : Adjudication) : Prop where
  table : SameTable a b
  claims : ∀ session ∈ a.roster, b.users[session]? = lastClaim calls session
  keyed : ∀ (nonce : Nonce) change, b.pending[nonce]? = some change → change.nonce = nonce
  pending : ∀ (nonce : Nonce) change, b.pending[nonce]? = some change → ProposedIn a calls change
  logged : ∀ change ∈ b.log, ProposedIn a calls change
  ordered : ∀ token, (tokenNonces b.log token).Pairwise (· < ·)
  last : ∀ token, (tokenNonces b.log token).getLast? = b.applied[token]?

theorem ProposedIn.concat {a : Adjudication} {calls : List Call} {change : AdjudicatedChange}
    (h : ProposedIn a calls change) (call : Call) : ProposedIn a (calls ++ [call]) change := by
  obtain ⟨before, made, rest, rfl, hmade⟩ := h
  exact ⟨before, made, rest ++ [call], by simp, hmade⟩

theorem Safe.proposedIn {a : Adjudication} {calls : List Call} (h : Safe a calls (run a calls))
    {call : Call} {change : AdjudicatedChange} (hproposes : (run a calls).Proposes call change) :
    ProposedIn a (calls ++ [call]) change := by
  refine ⟨calls, call, [], rfl, ?_⟩
  cases call with
  | propose entityId transform => rw [← h.table.selfUser]; exact hproposes
  | onFrame sender frame =>
      obtain ⟨hdecode, hmember, horigin, hspeaks⟩ := hproposes
      rw [h.table.roster] at hmember
      rw [h.claims sender hmember] at hspeaks
      exact ⟨hdecode, hmember, horigin, hspeaks⟩
  | peerLost session => exact hproposes
  | serverReturned => exact hproposes
  | «end» => exact hproposes

/-- One call keeps the invariant. -/
theorem Safe.step {a : Adjudication} {calls : List Call} (h : Safe a calls (run a calls)) (call : Call) :
    Safe a (calls ++ [call]) (run a (calls ++ [call])) := by
  rw [run, Run.run_concat]
  have htable := h.table.trans (sameTable_after call)
  have hclaims : ∀ session ∈ a.roster,
      ((run a calls).after call).users[session]? = lastClaim (calls ++ [call]) session := by
    intro session hmember
    rw [users_after call (h.table.roster ▸ hmember), lastClaim_concat, h.claims session hmember]
  cases effect_after (a := run a calls) call with
  | quiet hlog happlied hpending =>
      have hfrom : ∀ (nonce : Nonce) change, ((run a calls).after call).pending[nonce]? = some change →
          change.nonce = nonce ∧ ProposedIn a (calls ++ [call]) change := by
        intro nonce change hchange
        rcases hpending nonce change hchange with hold | ⟨hnew, hnonce⟩
        · exact ⟨h.keyed nonce change hold, (h.pending nonce change hold).concat call⟩
        · exact ⟨hnonce, h.proposedIn hnew⟩
      refine ⟨htable, hclaims, fun n c hc => (hfrom n c hc).1, fun n c hc => (hfrom n c hc).2, ?_, ?_, ?_⟩
      · rw [hlog]
        exact fun change hchange => (h.logged change hchange).concat call
      · rw [hlog]
        exact h.ordered
      · rw [hlog, happlied]
        exact h.last
  | logged nonce change hlog happlied hpending horigin hordered hmay hrunning =>
      obtain ⟨rfl, hproposed⟩ : change.nonce = nonce ∧ ProposedIn a (calls ++ [call]) change := by
        rcases horigin with hold | ⟨hnew, hnonce⟩
        · exact ⟨h.keyed nonce change hold, (h.pending nonce change hold).concat call⟩
        · exact ⟨hnonce, h.proposedIn hnew⟩
      refine ⟨htable, hclaims, fun n c hc => h.keyed n c (hpending n c hc),
        fun n c hc => (h.pending n c (hpending n c hc)).concat call, ?_, ?_, ?_⟩
      · rw [hlog]
        intro other hother
        rcases List.mem_append.mp hother with hother | hother
        · exact (h.logged other hother).concat call
        · obtain rfl : other = change := by simpa using hother
          exact hproposed
      · intro token
        rw [hlog, tokenNonces_concat]
        split_ifs with htoken
        · subst htoken
          refine pairwise_concat_of_getLast_lt (h.ordered _) fun previous hprevious => ?_
          rw [h.last] at hprevious
          exact hordered previous hprevious
        · exact h.ordered token
      · intro token
        rw [hlog, happlied, tokenNonces_concat, ExtTreeMap.getElem?_insert]
        split_ifs with htoken hcompare hcompare
        · simp
        · exact absurd (Std.LawfulEqOrd.compare_eq_iff_eq.mpr htoken) hcompare
        · exact absurd (Std.LawfulEqOrd.compare_eq_iff_eq.mp hcompare) htoken
        · exact h.last token

/-- A client that has just begun has heard and logged nothing. -/
theorem safe_of_begin {selfSession : Session} {selfUser gmUser : Uuid} {roster : List Session}
    {a : Adjudication} (hbegin : begin selfSession selfUser gmUser roster = some a) : Safe a [] a := by
  unfold begin at hbegin
  dsimp only at hbegin
  split_ifs at hbegin
  obtain rfl := Option.some.inj hbegin
  refine ⟨SameTable.refl _, ?_, ?_, ?_, by simp, by simp [tokenNonces], by simp [tokenNonces]⟩
  · intro session hmember
    have hother : selfSession ≠ session := by
      rintro rfl
      simp [ExtTreeSet.mem_ofList] at hmember
    simp [lastClaim, hother]
  · simp
  · simp

theorem safe_run {a : Adjudication} (hinit : Safe a [] a) (calls : List Call) :
    Safe a calls (run a calls) := by
  induction calls using List.reverseRecOn with
  | nil => exact hinit
  | append_singleton calls call ih => exact ih.step call

/-- What a call may log, read from the log it leaves. -/
theorem mayLog_of_log_ne {a : Adjudication} {call : Call} (hlog : (a.after call).log ≠ a.log) :
    a.MayLog call := by
  cases effect_after (a := a) call with
  | quiet hsame => exact absurd hsame hlog
  | logged _ _ _ _ _ _ _ hmay => exact hmay

theorem isStopped_run {a : Adjudication} (hended : a.ended.isSome = true) (calls : List Call) :
    (run a calls).ended = a.ended ∧ (run a calls).log = a.log ∧ (run a calls).applied = a.applied := by
  refine Run.invariant (I := fun b : Adjudication => b.ended = a.ended ∧ b.log = a.log ∧ b.applied = a.applied)
    (fun b call hb => ?_) ⟨rfl, rfl, rfl⟩ calls
  obtain ⟨hreason, hlog, happlied⟩ := after_of_stopped call (a := b) (hb.1 ▸ hended : b.ended.isSome = true)
  exact ⟨hreason.trans hb.1, hlog.trans hb.2.1, happlied.trans hb.2.2⟩

/-- Whatever is called and whatever frames arrive, from whomever: the log is ordered token by token and
`applied` holds its last nonces, every logged change was proposed by someone who could, only the Game
Master's `APPLY` logs anything on another client, and nothing is logged once play has ended. -/
theorem log_safe_under_any_traffic {selfSession : Session} {selfUser gmUser : Uuid}
    {roster : List Session} {a : Adjudication}
    (hbegin : begin selfSession selfUser gmUser roster = some a) (calls : List Call) :
    (∀ token, (tokenNonces (run a calls).log token).Pairwise (· < ·) ∧
      (tokenNonces (run a calls).log token).getLast? = (run a calls).applied[token]?) ∧
    (∀ change ∈ (run a calls).log, ProposedIn a calls change) ∧
    (∀ before call rest, calls = before ++ call :: rest → (run a before).isGameMaster = false →
      (run a (before ++ [call])).log ≠ (run a before).log →
      ∃ sender frame nonce, call = .onFrame sender frame ∧
        AdjudicationMessage.decode frame = some (.apply nonce) ∧
        (run a before).gmSession = some sender) ∧
    (∀ before rest, calls = before ++ rest → (run a before).ended.isSome = true →
      (run a calls).ended = (run a before).ended ∧ (run a calls).log = (run a before).log ∧
        (run a calls).applied = (run a before).applied) := by
  have hsafe := safe_run (safe_of_begin hbegin) calls
  refine ⟨fun token => ⟨hsafe.ordered token, hsafe.last token⟩, hsafe.logged, ?_, ?_⟩
  · intro before call rest _ hplayer hlog
    rw [run, Run.run_concat] at hlog
    rcases mayLog_of_log_ne hlog with hgm | hfollows
    · rw [hplayer] at hgm
      cases hgm
    · exact hfollows
  · rintro before rest rfl hended
    rw [run, Run.run_append]
    exact isStopped_run hended rest

theorem log_safe_under_any_traffic_two_moves :
    ∃ a, begin "gm" 1 1 ["gm", "player"] = some a ∧
      ∃ calls : List Call, (run a calls).log.length = 2 ∧
        (tokenNonces (run a calls).log 7).Pairwise (· < ·) :=
  ⟨_, rfl, [.propose 7 { rotation := some 1 }, .propose 7 { rotation := some 2 }], by decide,
    ((@log_safe_under_any_traffic "gm" 1 1 ["gm", "player"] _ rfl _).1 7).1⟩

end ThunderForge.Peer.Adjudication
