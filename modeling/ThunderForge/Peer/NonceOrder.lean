import ThunderForge.Lib.Lamport
import ThunderForge.Peer.AdjudicationMessage

/-! When a client's nonces move forward (`NonceSequence`, `peer/adjudication.rs`): the sequence is a Lamport
counter that stops at the greatest `u64`, and until it gets there every nonce it issues is after all that it
issued or observed before. -/

namespace ThunderForge.Peer

/-- A call on one sequence. -/
inductive NonceCall where
  | issue
  | observe (nonce : Nonce)

namespace NonceSequence

/-- What a call does, and the nonce it returns. -/
def reply (nonces : NonceSequence) : NonceCall → NonceSequence × Option Nonce
  | .issue => (nonces.issue.1, some nonces.issue.2)
  | .observe nonce => (nonces.observe nonce, none)

/-- A session's sequence after some calls. -/
def after (session : Session) (calls : List NonceCall) : NonceSequence :=
  Run.run (Run.next reply) (new session) calls

/-- The nonces that some calls returned. -/
def issued (session : Session) (calls : List NonceCall) : List Nonce :=
  (Run.answers reply (new session) calls).filterMap id

/-- Every nonce that is issued is after every nonce issued or observed before it. -/
def MovesForward (session : Session) (calls : List NonceCall) : Prop :=
  ∀ before, before ++ [.issue] <+: calls → ∀ nonce, nonce ∈ issued session before ∨ .observe nonce ∈ before →
    nonce < (after session before).issue.2

end NonceSequence

/-- What a call is to a Lamport counter. -/
def NonceCall.event : NonceCall → Lamport.Event
  | issue => .take
  | observe nonce => .see nonce.seq.toNat

/-- Where the counter of some calls would be if it had no upper bound. -/
def clock (calls : List NonceCall) : Nat := Lamport.counter (calls.map NonceCall.event)

namespace NonceSequence

variable {session : Session} {before calls : List NonceCall}

theorem next_reply (nonces : NonceSequence) (call : NonceCall) :
    (Run.next reply nonces call).session = nonces.session ∧ ∀ n, nonces.next.toNat = min n (2 ^ 64 - 1) →
      (Run.next reply nonces call).next.toNat = min (Lamport.tick n call.event) (2 ^ 64 - 1) := by
  cases call with
  | issue =>
      refine ⟨rfl, fun n hnext => ?_⟩
      show (saturatingSucc nonces.next).toNat = min (n + 1) _
      rw [saturatingSucc_toNat]
      omega
  | observe nonce =>
      refine ⟨rfl, fun n hnext => ?_⟩
      show (if nonces.next < saturatingSucc nonce.seq then saturatingSucc nonce.seq else nonces.next).toNat =
        min (max n (nonce.seq.toNat + 1)) _
      split_ifs with hlt <;> rw [UInt64.lt_iff_toNat_lt, saturatingSucc_toNat] at hlt
      · rw [saturatingSucc_toNat]
        omega
      · omega

/-- The sequence is at the counter, or at the greatest number when the counter is past that. -/
theorem after_eq (session : Session) (calls : List NonceCall) :
    (after session calls).session = session ∧ (after session calls).next.toNat = min (clock calls) (2 ^ 64 - 1) := by
  induction calls using List.reverseRecOn with
  | nil => exact ⟨rfl, rfl⟩
  | append_singleton calls call ih =>
      obtain ⟨hsession, hnext⟩ := ih
      rw [after, Run.run_concat, clock, List.map_append, List.map_singleton, Lamport.counter_concat]
      exact ⟨(next_reply _ call).1.trans hsession, (next_reply _ call).2 _ hnext⟩

theorem issued_concat (session : Session) (calls : List NonceCall) (call : NonceCall) :
    issued session (calls ++ [call]) = issued session calls ++ (reply (after session calls) call).2.toList := by
  rw [issued, Run.answers_append, List.filterMap_append, ← issued]
  refine congrArg (issued session calls ++ ·) ?_
  show [(reply (after session calls) call).2].filterMap id = _
  cases (reply (after session calls) call).2 <;> rfl

/-- What some calls returned, one nonce for each issue among them. -/
theorem mem_issued {nonce : Nonce} : nonce ∈ issued session calls ↔
    ∃ before, before ++ [.issue] <+: calls ∧ nonce = (after session before).issue.2 := by
  induction calls using List.reverseRecOn with
  | nil => simp [issued]
  | append_singleton calls call ih =>
      rw [issued_concat, List.mem_append, ih]
      constructor
      · rintro (⟨before, hbefore, rfl⟩ | hlast)
        · exact ⟨before, hbefore.trans (List.prefix_append calls [call]), rfl⟩
        · cases call with
          | issue => exact ⟨calls, List.prefix_rfl, by simpa [reply] using hlast⟩
          | observe other => simp [reply] at hlast
      · rintro ⟨before, hbefore, rfl⟩
        rcases List.prefix_concat_iff.mp hbefore with heq | hbefore
        · obtain ⟨rfl, hcall⟩ := List.append_inj' heq rfl
          obtain rfl := (List.cons.inj hcall).1
          exact .inr (by simp [reply])
        · exact .inl ⟨before, hbefore, rfl⟩

/-- The nonces of a run move forward if and only if no issue comes where the counter has reached the greatest
number and an earlier issue found it there or a nonce with that number, of a session not before this one, was
observed. -/
theorem movesForward_iff (session : Session) (calls : List NonceCall) :
    MovesForward session calls ↔ ∀ before, before ++ [.issue] <+: calls →
      clock before < 2 ^ 64 - 1 ∨
        (∀ earlier, earlier ++ [.issue] <+: before → clock earlier < 2 ^ 64 - 1) ∧
          ∀ nonce, .observe nonce ∈ before → nonce.seq.toNat = 2 ^ 64 - 1 → nonce.origin < session := by
  refine forall_congr' fun before => forall_congr' fun hbefore => ?_
  obtain ⟨hsession, hnext⟩ := after_eq session before
  have hseen : ∀ nonce, .observe nonce ∈ before → nonce.seq.toNat < clock before := fun nonce hmem =>
    Lamport.lt_counter_of_see (List.mem_map_of_mem (f := NonceCall.event) hmem)
  have htaken : ∀ earlier, earlier ++ [.issue] <+: before → clock earlier < clock before := by
    intro earlier hearlier
    have hmap := hearlier.map NonceCall.event
    rw [List.map_append] at hmap
    exact Lamport.counter_lt_of_take hmap
  have hbelow (nonce : Nonce) : nonce < (after session before).issue.2 ↔
      nonce.seq.toNat < min (clock before) (2 ^ 64 - 1) ∨
        nonce.seq.toNat = min (clock before) (2 ^ 64 - 1) ∧ nonce.origin < session := by
    rw [Nonce.lt_iff, issue_snd, ← UInt64.toNat_inj, hnext, hsession]
  constructor
  · intro h
    by_contra hnot
    obtain ⟨hfull, hnot⟩ := not_or.mp hnot
    rw [Nat.not_lt] at hfull
    refine hnot ⟨fun earlier hearlier => ?_, fun nonce hmem hgreatest => ?_⟩
    · obtain ⟨hsession', hnext'⟩ := after_eq session earlier
      have hissued := (hbelow _).mp (h _ (.inl (mem_issued.mpr ⟨earlier, hearlier, rfl⟩)))
      rw [issue_snd, hnext', hsession'] at hissued
      rcases hissued with hlt | ⟨-, hirrefl⟩
      · omega
      · exact absurd hirrefl (lt_irrefl session)
    · rcases (hbelow nonce).mp (h nonce (.inr hmem)) with hlt | ⟨-, horigin⟩
      · omega
      · exact horigin
  · intro h nonce hnonce
    rw [hbelow]
    rcases hnonce with hissued | hobserved
    · obtain ⟨earlier, hearlier, rfl⟩ := mem_issued.mp hissued
      have hlt := htaken earlier hearlier
      rw [issue_snd, (after_eq session earlier).2]
      left
      rcases h with hroom | ⟨hearly, -⟩
      · omega
      · have hroom := hearly earlier hearlier
        omega
    · have hlt := hseen nonce hobserved
      have hbound := nonce.seq.toNat_lt
      rcases h with hroom | ⟨-, horigin⟩
      · left
        omega
      · by_cases hgreatest : nonce.seq.toNat = 2 ^ 64 - 1
        · exact .inr ⟨by omega, horigin nonce hobserved hgreatest⟩
        · left
          omega

/-- A peer's nonce with the greatest number: this client's next two nonces are the same one. -/
theorem greatest_not_movesForward :
    ¬MovesForward "b" [.observe ⟨UInt64.ofNat (2 ^ 64 - 1), "a"⟩, .issue, .issue] := by
  intro h
  have hlt := h [.observe ⟨UInt64.ofNat (2 ^ 64 - 1), "a"⟩, .issue] (by simp) ⟨UInt64.ofNat (2 ^ 64 - 1), "b"⟩
    (.inl (mem_issued.mpr ⟨[.observe ⟨UInt64.ofNat (2 ^ 64 - 1), "a"⟩], by simp, by decide⟩))
  exact absurd hlt (lt_irrefl _)

end NonceSequence

end ThunderForge.Peer
