import ThunderForge.Genie.Rewards

/-! What the rewards of a Puzzle Clock are over every run of calls: when they are granted, and what their
recipients gain. -/

namespace ThunderForge.Genie

open ReadCommitted

/-- The reward's clock stands at or past the segment that triggers it. -/
def RewardDatabase.AtOrPast (db : RewardDatabase) (reward : GeniePuzzleClockReward) : Prop :=
  ∃ clock, db.rows (.clock reward.clockId) = some clock ∧ reward.triggerSegment ≤ clock.segmentsCurrent

/-- The rewards that a call granted. -/
def newlyGranted (before after : RewardDatabase) : List GeniePuzzleClockReward :=
  before.rewards.filter fun reward => reward.grantedAt = none ∧
    ∃ marked ∈ after.rewards, marked.id = reward.id ∧ marked.grantedAt.isSome

/-- The actor a call credits. -/
def ClockRequest.creditedActor : ClockRequest → Option Uuid
  | configurePuzzleClockReward .. => none
  | advancePuzzleClock _ _ _ _ actorId => actorId
  | spendResourceOnPuzzleClock _ _ _ actorId _ _ => some actorId

/-- What a call takes from a holding. -/
def ClockRequest.spent (db : RewardDatabase) (sessionId actorId : Uuid) (resourceType : String) :
    ClockRequest → Int
  | spendResourceOnPuzzleClock _ _ clockId spender spentType quantity =>
    if (db.rows (.clock clockId)).map (·.sessionId) = some sessionId ∧ spender = actorId ∧
      spentType = resourceType then quantity else 0
  | _ => 0

/-- The session a reward is paid in. -/
def RewardDatabase.sessionOf (db : RewardDatabase) (reward : GeniePuzzleClockReward) : Option Uuid :=
  (db.rows (.clock reward.clockId)).map (·.sessionId)

section Payout

variable (world : World) (actors : List WorldActor)

/-- The party of the world a reward is paid in. -/
def RewardDatabase.partyOf (db : RewardDatabase) (reward : GeniePuzzleClockReward) : List Uuid :=
  (((db.sessionOf reward).bind fun sessionId => db.rows (.session sessionId)).map fun session =>
    partyMemberIds actors session.worldId).getD []

/-- A call left the rewards granted before as they were, and paid those it granted: each resource reward
in full and evenly, and nothing else but what was spent moved a holding. -/
structure Paid (request : ClockRequest) (before after : RewardDatabase) : Prop where
  once : ∀ reward ∈ before.rewards, reward.grantedAt.isSome → reward ∈ after.rewards
  shares : ∃ gained : GeniePuzzleClockReward → Uuid → Int,
    (∀ reward ∈ newlyGranted before after, ∀ amount, reward.rewardResourceAmount = some amount →
      before.partyOf actors reward ≠ [] → EvenSplit.Fair amount
        (recipientsOf (before.partyOf actors reward) request.creditedActor reward) (gained reward)) ∧
    ∀ sessionId actorId resourceType, after.rows (.holding sessionId actorId resourceType) =
      before.rows (.holding sessionId actorId resourceType) -
          request.spent before sessionId actorId resourceType +
        (((newlyGranted before after).filter fun reward => reward.rewardResourceType = some resourceType ∧
          before.sessionOf reward = some sessionId).map fun reward => gained reward actorId).sum

/-- After the calls, first call first. -/
abbrev RewardDatabase.after (db : RewardDatabase) (requests : List ClockRequest) : RewardDatabase :=
  Run.run (ClockRequest.apply world actors) db requests

/-- At some time since it was configured the reward's clock stood at or past its trigger. -/
def StoodPast (db : RewardDatabase) (requests : List ClockRequest) (reward : GeniePuzzleClockReward) : Prop :=
  ∃ before, before <+: requests ∧
    (∃ configured ∈ (db.after world actors before).rewards, configured.id = reward.id) ∧
    (db.after world actors before).AtOrPast reward

/-- After every call a reward is granted exactly when its clock stood at or past its trigger, and every
call paid what it granted. -/
structure PaidOnceInFull (db : RewardDatabase) (requests : List ClockRequest) : Prop where
  granted : ∀ before, before <+: requests → ∀ reward ∈ (db.after world actors before).rewards,
    (reward.grantedAt.isSome ↔ StoodPast world actors db before reward)
  paid : ∀ before request after, before ++ [request] <+: requests →
    request.exec world actors (db.after world actors before) = .ok after →
      Paid actors request (db.after world actors before) after

/-- No spend that is accepted carries its clock past the trigger of a reward not granted yet. -/
def Spares (db : RewardDatabase) : ClockRequest → Prop
  | .spendResourceOnPuzzleClock caller _ clockId actorId resourceType quantity => ∀ clock session,
    db.rows (.clock clockId) = some clock → db.rows (.session clock.sessionId) = some session →
      MaySpend world db.rows caller clock session actorId resourceType quantity →
        dueRewards db.rewards clockId clock.segmentsCurrent (clock.moved quantity) = []
  | _ => True

/-- A reward is configured with a trigger above the present segment of its clock. -/
def ConfiguresAbove (db : RewardDatabase) : ClockRequest → Prop
  | .configurePuzzleClockReward _ _ clockId triggerSegment _ _ _ _ _ => ∀ clock,
    db.rows (.clock clockId) = some clock → clock.segmentsCurrent < triggerSegment
  | _ => True

/-- What holds of the rewards at all times. -/
structure Ledger (rewards : List GeniePuzzleClockReward) : Prop where
  ids : (rewards.map GeniePuzzleClockReward.id).Nodup
  storable : ∀ reward ∈ rewards, reward.storable

variable {world actors} {db after : RewardDatabase} {requests : List ClockRequest}

/-! ### One call -/

theorem exec_configure {caller : Caller} {rewardId clockId : Uuid} {triggerSegment : Int}
    {rewardResourceType : Option String} {rewardResourceAmount : Option Int} {rewardItemId : Option Uuid}
    {rewardItemQuantity : Option Int} {recipientMode : GenieRewardRecipientMode}
    (hexec : (ClockRequest.configurePuzzleClockReward caller rewardId clockId triggerSegment rewardResourceType
      rewardResourceAmount rewardItemId rewardItemQuantity recipientMode).exec world actors db = .ok after) :
    ∃ reward, after = { db with rewards := db.rewards ++ [reward] } ∧ reward.storable ∧
      (∀ other ∈ db.rewards, other.id ≠ reward.id) ∧ reward.clockId = clockId ∧
      reward.triggerSegment = triggerSegment ∧ reward.grantedAt = none := by
  obtain ⟨⟨_, rows⟩, hmay, hinsert⟩ := except_bind_eq_ok.mp hexec
  dsimp only at hinsert
  split_ifs at hinsert with hfits
  · obtain rfl := exec_mayConfigure hmay
    obtain rfl := Except.ok.inj hinsert
    exact ⟨_, rfl, hfits.1, hfits.2, rfl, rfl, rfl⟩

theorem exec_advance {caller : Caller} {now : Nat} {clockId : Uuid} {delta : Int} {actorId : Option Uuid}
    (hstorable : ∀ reward ∈ db.rewards, reward.storable) (hactors : (actors.map WorldActor.id).Nodup)
    (hexec : (ClockRequest.advancePuzzleClock caller now clockId delta actorId).exec world actors db = .ok after) :
    ∃ clock session mid due, db.rows (.clock clockId) = some clock ∧
      db.rows (.session clock.sessionId) = some session ∧ Moved clockId (clock.moved delta) db.rows mid ∧
      due = dueRewards db.rewards clockId clock.segmentsCurrent (clock.moved delta) ∧
      after.rewards = markGranted now due db.rewards ∧
      Credited clock.sessionId (fun resourceType recipient => (due.map fun reward =>
        if reward.rewardResourceType = some resourceType then
          gainedBy (partyMemberIds actors session.worldId) actorId reward recipient else 0).sum)
        mid after.rows := by
  obtain ⟨⟨⟨_, due⟩, rows⟩, hadvance, hafter⟩ := except_bind_eq_ok.mp hexec
  obtain rfl := Except.ok.inj hafter
  obtain ⟨clock, session, mid, hclock, hsession, hmoved, rfl, hgrant⟩ := exec_advancePuzzleClock hadvance
  refine ⟨clock, session, mid, _, hclock, hsession, hmoved, rfl, rfl, credited_forEach ?_ hgrant⟩
  intro reward hreward s s' hexec
  exact credited_grantReward (hstorable reward (List.mem_filter.mp hreward).1)
    (nodup_partyMemberIds hactors session.worldId) hexec

theorem exec_spend {caller : Caller} {now : Nat} {clockId actorId : Uuid} {resourceType : String}
    {quantity : Int} (hexec : (ClockRequest.spendResourceOnPuzzleClock caller now clockId actorId resourceType
      quantity).exec world actors db = .ok after) :
    ∃ clock session, db.rows (.clock clockId) = some clock ∧ db.rows (.session clock.sessionId) = some session ∧
      MaySpend world db.rows caller clock session actorId resourceType quantity ∧
      Moved clockId (clock.moved quantity) (Function.update db.rows
        (.holding clock.sessionId actorId resourceType)
          (db.rows (.holding clock.sessionId actorId resourceType) - quantity)) after.rows ∧
      after.rewards = db.rewards := by
  obtain ⟨⟨answer, rows⟩, hspend, hafter⟩ := except_bind_eq_ok.mp hexec
  obtain rfl := Except.ok.inj hafter
  obtain ⟨clock, session, hclock, hsession, hmay, updated, hwrite⟩ :=
    exec_spendResourceOnPuzzleClock.mp ⟨answer, hspend⟩
  have hthere : Function.update db.rows (.holding clock.sessionId actorId resourceType)
      (db.rows (.holding clock.sessionId actorId resourceType) - quantity) (.clock clockId) = some clock :=
    (Function.update_of_ne (by simp) _ _).trans hclock
  obtain ⟨_, _, hwrite', -, hmoved⟩ :=
    exec_writePuzzleClock world now quantity "Database error: Record not found" hthere
  obtain ⟨-, rfl⟩ := Prod.mk.inj (Except.ok.inj (hwrite.symm.trans hwrite'))
  exact ⟨clock, session, hclock, hsession, hmay, hmoved, rfl⟩

/-- A spend that meets its conditions is accepted. -/
theorem spend_accepted (actors : List WorldActor) {caller : Caller} (now : Nat) {clockId actorId : Uuid}
    {resourceType : String} {quantity : Int} {clock : GeniePuzzleClock} {session : GenieSession}
    (hclock : db.rows (.clock clockId) = some clock)
    (hsession : db.rows (.session clock.sessionId) = some session)
    (hmay : MaySpend world db.rows caller clock session actorId resourceType quantity) :
    ∃ after, (ClockRequest.spendResourceOnPuzzleClock caller now clockId actorId resourceType quantity).exec
      world actors db = .ok after := by
  have hthere : Function.update db.rows (.holding clock.sessionId actorId resourceType)
      (db.rows (.holding clock.sessionId actorId resourceType) - quantity) (.clock clockId) = some clock :=
    (Function.update_of_ne (by simp) _ _).trans hclock
  obtain ⟨updated, rows, hwrite, -⟩ :=
    exec_writePuzzleClock world now quantity "Database error: Record not found" hthere
  obtain ⟨answer, hexec⟩ :=
    exec_spendResourceOnPuzzleClock.mpr ⟨clock, session, hclock, hsession, hmay, updated, hwrite⟩
  exact ⟨{ db with rows }, except_bind_eq_ok.mpr ⟨(answer, rows), hexec, rfl⟩⟩

theorem mem_dueRewards {rewards : List GeniePuzzleClockReward} {clockId : Uuid} {oldSegments newSegments : Int}
    {reward : GeniePuzzleClockReward} : reward ∈ dueRewards rewards clockId oldSegments newSegments ↔
      reward ∈ rewards ∧ reward.clockId = clockId ∧ reward.grantedAt = none ∧
        oldSegments < reward.triggerSegment ∧ reward.triggerSegment ≤ newSegments := by
  simp [dueRewards]

/-- A reward marked is one of those there were, with everything but the mark as it was. -/
theorem mem_markGranted {now : Nat} {due rewards : List GeniePuzzleClockReward}
    {marked : GeniePuzzleClockReward} (h : marked ∈ markGranted now due rewards) :
    ∃ reward ∈ rewards, marked = if reward ∈ due then { reward with grantedAt := some now } else reward := by
  obtain ⟨reward, hreward, rfl⟩ := List.mem_map.mp h
  exact ⟨reward, hreward, rfl⟩

theorem Ledger.markGranted {rewards : List GeniePuzzleClockReward} (h : Ledger rewards) (now : Nat)
    (due : List GeniePuzzleClockReward) : Ledger (Genie.markGranted now due rewards) where
  ids := by
    have hids : (Genie.markGranted now due rewards).map GeniePuzzleClockReward.id =
        rewards.map GeniePuzzleClockReward.id := by
      rw [Genie.markGranted, List.map_map]
      refine List.map_congr_left fun reward _ => ?_
      show GeniePuzzleClockReward.id (if _ then _ else _) = _
      split_ifs <;> rfl
    rw [hids]
    exact h.ids
  storable marked hmarked := by
    obtain ⟨reward, hreward, rfl⟩ := mem_markGranted hmarked
    have hstorable := h.storable reward hreward
    split_ifs
    · exact hstorable
    · exact hstorable

theorem Ledger.concat {rewards : List GeniePuzzleClockReward} (h : Ledger rewards)
    {reward : GeniePuzzleClockReward} (hstorable : reward.storable)
    (hfresh : ∀ other ∈ rewards, other.id ≠ reward.id) : Ledger (rewards ++ [reward]) where
  ids := by
    rw [List.map_append, List.nodup_append]
    refine ⟨h.ids, List.nodup_singleton _, ?_⟩
    intro id hid id' hid'
    obtain ⟨other, hother, rfl⟩ := List.mem_map.mp hid
    obtain rfl := List.mem_singleton.mp hid'
    exact hfresh other hother
  storable other hother := by
    rcases List.mem_append.mp hother with hother | hother
    · exact h.storable other hother
    · obtain rfl := List.mem_singleton.mp hother
      exact hstorable

theorem Ledger.step (h : Ledger db.rewards) (hactors : (actors.map WorldActor.id).Nodup) {request : ClockRequest}
    (hexec : request.exec world actors db = .ok after) : Ledger after.rewards := by
  cases request with
  | configurePuzzleClockReward =>
      obtain ⟨reward, rfl, hstorable, hfresh, -⟩ := exec_configure hexec
      exact h.concat hstorable hfresh
  | advancePuzzleClock =>
      obtain ⟨_, _, _, _, -, -, -, -, hrewards, -⟩ := exec_advance h.storable hactors hexec
      rw [hrewards]
      exact h.markGranted _ _
  | spendResourceOnPuzzleClock =>
      obtain ⟨_, _, -, -, -, -, hrewards⟩ := exec_spend hexec
      rwa [hrewards]

theorem Ledger.eq_of_id {rewards : List GeniePuzzleClockReward} (h : Ledger rewards)
    {left right : GeniePuzzleClockReward} (hleft : left ∈ rewards) (hright : right ∈ rewards)
    (hid : left.id = right.id) : left = right := List.inj_on_of_nodup_map h.ids hleft hright hid

/-- A call that marks nothing grants nothing. -/
theorem newlyGranted_eq_nil (h : Ledger db.rewards)
    (hmarked : ∀ marked ∈ after.rewards, marked.grantedAt.isSome → marked ∈ db.rewards) :
    newlyGranted db after = [] := by
  refine List.filter_eq_nil_iff.mpr fun reward hreward => ?_
  rw [decide_eq_true_eq]
  rintro ⟨hnone, marked, hmem, hid, hgranted⟩
  obtain rfl := h.eq_of_id (hmarked marked hmem hgranted) hreward hid
  rw [hnone] at hgranted
  cases hgranted

/-- What a call marks is what it grants. -/
theorem newlyGranted_eq_due (h : Ledger db.rewards) {now : Nat} {clockId : Uuid}
    {oldSegments newSegments : Int} (hrewards : after.rewards =
      markGranted now (dueRewards db.rewards clockId oldSegments newSegments) db.rewards) :
    newlyGranted db after = dueRewards db.rewards clockId oldSegments newSegments := by
  refine List.filter_congr fun reward hreward => decide_eq_decide.mpr ?_
  have hdue : reward ∈ dueRewards db.rewards clockId oldSegments newSegments ↔
      reward.clockId = clockId ∧ reward.grantedAt = none ∧ oldSegments < reward.triggerSegment ∧
        reward.triggerSegment ≤ newSegments := mem_dueRewards.trans (and_iff_right hreward)
  rw [← hdue, hrewards]
  constructor
  · rintro ⟨hnone, marked, hmarked, hid, hgranted⟩
    obtain ⟨other, hother, rfl⟩ := mem_markGranted hmarked
    split_ifs at hid hgranted with hmem
    · rwa [← h.eq_of_id hother hreward hid]
    · rw [h.eq_of_id hother hreward hid, hnone] at hgranted
      cases hgranted
  · intro hmem
    refine ⟨(mem_dueRewards.mp hmem).2.2.1, _, List.mem_map_of_mem hreward, ?_⟩
    rw [if_pos hmem]
    exact ⟨rfl, rfl⟩

theorem paid_configure (h : Ledger db.rewards) {request : ClockRequest} {reward : GeniePuzzleClockReward}
    (hspent : ∀ sessionId actorId resourceType, request.spent db sessionId actorId resourceType = 0)
    (hnone : reward.grantedAt = none) :
    Paid actors request db { db with rewards := db.rewards ++ [reward] } where
  once other hother _ := List.mem_append_left [reward] hother
  shares := by
    have hnew : newlyGranted db { db with rewards := db.rewards ++ [reward] } = [] := by
      refine newlyGranted_eq_nil h fun marked hmarked hgranted => ?_
      rcases List.mem_append.mp hmarked with hold | hnew
      · exact hold
      · obtain rfl := List.mem_singleton.mp hnew
        rw [hnone] at hgranted
        cases hgranted
    refine ⟨fun _ _ => 0, ?_, ?_⟩
    · rw [hnew]
      exact fun _ hmem => absurd hmem List.not_mem_nil
    · intro sessionId actorId resourceType
      rw [hnew, hspent]
      simp

theorem paid_spend (h : Ledger db.rewards) {caller : Caller} {now : Nat} {clockId actorId : Uuid}
    {resourceType : String} {quantity : Int} (hexec : (ClockRequest.spendResourceOnPuzzleClock caller now clockId
      actorId resourceType quantity).exec world actors db = .ok after) :
    Paid actors (.spendResourceOnPuzzleClock caller now clockId actorId resourceType quantity) db after := by
  obtain ⟨clock, session, hclock, hsession, -, hmoved, hrewards⟩ := exec_spend hexec
  have hnew : newlyGranted db after = [] := newlyGranted_eq_nil h fun marked hmarked _ => hrewards ▸ hmarked
  refine ⟨fun reward hreward _ => hrewards ▸ hreward, fun _ _ => 0, ?_, ?_⟩
  · rw [hnew]
    exact fun _ hmem => absurd hmem List.not_mem_nil
  · intro sessionId holder heldType
    rw [hnew, hmoved.holdings, ClockRequest.spent, hclock, Option.map_some]
    by_cases hkey : Key.holding sessionId holder heldType = .holding clock.sessionId actorId resourceType
    · obtain ⟨rfl, rfl, rfl⟩ := Key.holding.inj hkey
      simp
    · rw [Function.update_of_ne hkey, if_neg ?_]
      · simp
      · rintro ⟨hsame, rfl, rfl⟩
        exact hkey (by rw [Option.some.inj hsame])

theorem paid_advance (h : Ledger db.rewards) (hactors : (actors.map WorldActor.id).Nodup) {caller : Caller}
    {now : Nat} {clockId : Uuid} {delta : Int} {actorId : Option Uuid}
    (hexec : (ClockRequest.advancePuzzleClock caller now clockId delta actorId).exec world actors db =
      .ok after) : Paid actors (.advancePuzzleClock caller now clockId delta actorId) db after := by
  obtain ⟨clock, session, mid, due, hclock, hsession, hmoved, rfl, hrewards, hcredited⟩ :=
    exec_advance h.storable hactors hexec
  have hnew := newlyGranted_eq_due h hrewards
  have hdue : ∀ reward ∈ newlyGranted db after, reward ∈ db.rewards ∧ db.sessionOf reward = some clock.sessionId ∧
      db.partyOf actors reward = partyMemberIds actors session.worldId := by
    intro reward hreward
    obtain ⟨hmem, rfl, -⟩ := mem_dueRewards.mp (hnew ▸ hreward)
    have hsessionOf : db.sessionOf reward = some clock.sessionId := by
      rw [RewardDatabase.sessionOf, hclock, Option.map_some]
    refine ⟨hmem, hsessionOf, ?_⟩
    rw [RewardDatabase.partyOf, hsessionOf, Option.bind_some, hsession, Option.map_some, Option.getD_some]
  rw [← hnew] at hrewards hcredited
  refine ⟨?_, gainedBy (partyMemberIds actors session.worldId) actorId, ?_, ?_⟩
  · intro reward hreward hgranted
    rw [hrewards]
    refine List.mem_map.mpr ⟨reward, hreward, if_neg fun hmem => ?_⟩
    rw [(mem_dueRewards.mp (hnew ▸ hmem)).2.2.1] at hgranted
    cases hgranted
  · intro reward hreward amount hamount hparty
    obtain ⟨hmem, -, hpartyOf⟩ := hdue reward hreward
    rw [hpartyOf] at hparty ⊢
    have hgained : gainedBy (partyMemberIds actors session.worldId) actorId reward =
        EvenSplit.gain amount (recipientsOf (partyMemberIds actors session.worldId) actorId reward) := by
      funext recipient
      rw [gainedBy, hamount, Option.getD_some]
    rw [hgained]
    exact EvenSplit.fair_gain (GeniePuzzleClockReward.amount_pos (h.storable reward hmem) hamount).le
      (nodup_recipientsOf (nodup_partyMemberIds hactors session.worldId) actorId reward)
      (recipientsOf_ne_nil hparty actorId reward)
  · intro sessionId holder heldType
    show after.rows _ = db.rows _ - 0 + _
    rw [sub_zero, ← hmoved.holdings]
    by_cases hsame : sessionId = clock.sessionId
    · subst hsame
      have hfilter : (newlyGranted db after).filter (fun reward => reward.rewardResourceType = some heldType ∧
            db.sessionOf reward = some clock.sessionId) =
          (newlyGranted db after).filter fun reward => reward.rewardResourceType = some heldType :=
        List.filter_congr fun reward hreward => decide_eq_decide.mpr (and_iff_left (hdue reward hreward).2.1)
      rw [hcredited.holdings, hfilter, List.sum_map_ite]
      simp
    · have hfilter : (newlyGranted db after).filter (fun reward => reward.rewardResourceType = some heldType ∧
          db.sessionOf reward = some sessionId) = [] := by
        refine List.filter_eq_nil_iff.mpr fun reward hreward => ?_
        rw [decide_eq_true_eq, (hdue reward hreward).2.1]
        exact fun hboth => hsame (Option.some.inj hboth.2).symm
      rw [hcredited.others sessionId hsame, hfilter, List.map_nil, List.sum_nil, add_zero]

/-- Every accepted call pays what it grants. -/
theorem Ledger.paid (h : Ledger db.rewards) (hactors : (actors.map WorldActor.id).Nodup) {request : ClockRequest}
    (hexec : request.exec world actors db = .ok after) : Paid actors request db after := by
  cases request with
  | configurePuzzleClockReward =>
      obtain ⟨reward, rfl, -, -, -, -, hnone⟩ := exec_configure hexec
      exact paid_configure h (fun _ _ _ => rfl) hnone
  | advancePuzzleClock => exact paid_advance h hactors hexec
  | spendResourceOnPuzzleClock => exact paid_spend h hexec

/-! ### Every run -/

theorem after_concat (requests : List ClockRequest) (request : ClockRequest) :
    db.after world actors (requests ++ [request]) =
      (request.exec world actors (db.after world actors requests)).toOption.getD
        (db.after world actors requests) :=
  Run.run_concat ..

theorem after_of_ok {request : ClockRequest}
    (hexec : request.exec world actors (db.after world actors requests) = .ok after) :
    db.after world actors (requests ++ [request]) = after := by
  rw [after_concat, hexec]
  rfl

theorem after_of_error {request : ClockRequest} {error : String}
    (hexec : request.exec world actors (db.after world actors requests) = .error error) :
    db.after world actors (requests ++ [request]) = db.after world actors requests := by
  rw [after_concat, hexec]
  rfl

theorem ledger_after (hactors : (actors.map WorldActor.id).Nodup) (h : Ledger db.rewards)
    (requests : List ClockRequest) : Ledger (db.after world actors requests).rewards := by
  refine Run.invariant (I := fun db : RewardDatabase => Ledger db.rewards) ?_ h requests
  intro db request h
  unfold ClockRequest.apply
  cases hexec : request.exec world actors db with
  | error error => exact h
  | ok after => exact h.step hactors hexec

/-- No call takes a reward away. -/
theorem Ledger.ids_stay (h : Ledger db.rewards) (hactors : (actors.map WorldActor.id).Nodup)
    {request : ClockRequest} (hexec : request.exec world actors db = .ok after)
    {reward : GeniePuzzleClockReward} (hreward : reward ∈ db.rewards) :
    ∃ later ∈ after.rewards, later.id = reward.id := by
  cases request with
  | configurePuzzleClockReward =>
      obtain ⟨configured, rfl, -⟩ := exec_configure hexec
      exact ⟨reward, List.mem_append_left _ hreward, rfl⟩
  | advancePuzzleClock =>
      obtain ⟨_, _, _, _, -, -, -, -, hrewards, -⟩ := exec_advance h.storable hactors hexec
      rw [hrewards]
      refine ⟨_, List.mem_map_of_mem hreward, ?_⟩
      split_ifs <;> rfl
  | spendResourceOnPuzzleClock =>
      obtain ⟨_, _, -, -, -, -, hrewards⟩ := exec_spend hexec
      exact ⟨reward, hrewards ▸ hreward, rfl⟩

theorem ids_stay_after (hactors : (actors.map WorldActor.id).Nodup) (h : Ledger db.rewards)
    {before : List ClockRequest} (hbefore : before <+: requests) {reward : GeniePuzzleClockReward}
    (hreward : reward ∈ (db.after world actors before).rewards) :
    ∃ later ∈ (db.after world actors requests).rewards, later.id = reward.id := by
  obtain ⟨rest, rfl⟩ := hbefore
  rw [RewardDatabase.after, Run.run_append]
  refine (Run.invariant (I := fun db : RewardDatabase => Ledger db.rewards ∧
    ∃ later ∈ db.rewards, later.id = reward.id) ?_ ⟨ledger_after hactors h before, reward, hreward, rfl⟩ rest).2
  rintro db request ⟨hledger, later, hlater, hid⟩
  unfold ClockRequest.apply
  cases hexec : request.exec world actors db with
  | error error => exact ⟨hledger, later, hlater, hid⟩
  | ok after =>
      obtain ⟨latest, hlatest, hid'⟩ := hledger.ids_stay hactors hexec hlater
      exact ⟨hledger.step hactors hexec, latest, hlatest, hid'.trans hid⟩

/-- What was told of a reward is told of it with its mark changed. -/
theorem StoodPast.congr {left right : GeniePuzzleClockReward} (hid : left.id = right.id)
    (hclock : left.clockId = right.clockId) (htrigger : left.triggerSegment = right.triggerSegment) :
    StoodPast world actors db requests left ↔ StoodPast world actors db requests right := by
  unfold StoodPast RewardDatabase.AtOrPast
  rw [hid, hclock, htrigger]

theorem StoodPast.of_now {reward : GeniePuzzleClockReward}
    (hreward : reward ∈ (db.after world actors requests).rewards)
    (hnow : (db.after world actors requests).AtOrPast reward) : StoodPast world actors db requests reward :=
  ⟨requests, List.prefix_rfl, ⟨reward, hreward, rfl⟩, hnow⟩

theorem stoodPast_concat {request : ClockRequest} {reward : GeniePuzzleClockReward} :
    StoodPast world actors db (requests ++ [request]) reward ↔ StoodPast world actors db requests reward ∨
      (∃ configured ∈ (db.after world actors (requests ++ [request])).rewards, configured.id = reward.id) ∧
        (db.after world actors (requests ++ [request])).AtOrPast reward := by
  constructor
  · rintro ⟨before, hbefore, hthere⟩
    rcases List.prefix_concat_iff.mp hbefore with rfl | hbefore
    · exact .inr hthere
    · exact .inl ⟨before, hbefore, hthere⟩
  · rintro (⟨before, hbefore, hthere⟩ | hthere)
    · exact ⟨before, hbefore.trans (List.prefix_append ..), hthere⟩
    · exact ⟨_, List.prefix_rfl, hthere⟩

/-- The rewards granted are those whose clock stood at or past their trigger. -/
def Told (world : World) (actors : List WorldActor) (db : RewardDatabase) (requests : List ClockRequest) : Prop :=
  ∀ reward ∈ (db.after world actors requests).rewards,
    (reward.grantedAt.isSome ↔ StoodPast world actors db requests reward)

/-- A call that leaves the rows as they are and marks nothing keeps what is told of the rewards there. -/
theorem Told.same_rows (htold : Told world actors db requests) {request : ClockRequest}
    (hafter : db.after world actors (requests ++ [request]) = after)
    (hrows : after.rows = (db.after world actors requests).rows)
    {reward : GeniePuzzleClockReward} (hreward : reward ∈ (db.after world actors requests).rewards) :
    reward.grantedAt.isSome ↔ StoodPast world actors db (requests ++ [request]) reward := by
  rw [htold reward hreward, stoodPast_concat, hafter]
  refine (or_iff_left_of_imp fun hthere => ?_).symm
  obtain ⟨-, clock, hclock, hpast⟩ := hthere
  exact .of_now hreward ⟨clock, hrows ▸ hclock, hpast⟩

/-- When a clock is carried on, the rewards it passes are all that is to be told anew. -/
theorem Told.carried (htold : Told world actors db requests) {request : ClockRequest} {clockId : Uuid}
    {clock : GeniePuzzleClock} {segments : Int}
    (hafter : db.after world actors (requests ++ [request]) = after)
    (hclock : (db.after world actors requests).rows (.clock clockId) = some clock)
    (hcarried : Carried clockId segments (db.after world actors requests).rows after.rows)
    {reward : GeniePuzzleClockReward} (hreward : reward ∈ (db.after world actors requests).rewards)
    (hstays : ∃ later ∈ after.rewards, later.id = reward.id) :
    StoodPast world actors db (requests ++ [request]) reward ↔ reward.grantedAt.isSome ∨
      reward ∈ dueRewards (db.after world actors requests).rewards clockId clock.segmentsCurrent segments := by
  rw [stoodPast_concat, hafter, ← htold reward hreward, and_iff_right hstays, mem_dueRewards]
  obtain ⟨later, hlater, hsegments⟩ := hcarried.carried
  constructor
  · rintro (hgranted | ⟨there, hthere, hpast⟩)
    · exact .inl hgranted
    · by_cases hgranted : reward.grantedAt.isSome
      · exact .inl hgranted
      · have hnot : ¬(db.after world actors requests).AtOrPast reward := fun hnow =>
          hgranted ((htold reward hreward).mpr (.of_now hreward hnow))
        by_cases hsame : reward.clockId = clockId
        · subst hsame
          obtain rfl := Option.some.inj (hthere.symm.trans hlater)
          refine .inr ⟨hreward, rfl, by simpa using hgranted, ?_, hsegments ▸ hpast⟩
          exact not_le.mp fun hle => hnot ⟨clock, hclock, hle⟩
        · exact absurd ⟨there, (hcarried.clocks _ hsame).symm.trans hthere, hpast⟩ hnot
  · rintro (hgranted | ⟨-, rfl, -, -, hreached⟩)
    · exact .inl hgranted
    · exact .inr ⟨later, hlater, hsegments ▸ hreached⟩

theorem Told.step (htold : Told world actors db requests) (hactors : (actors.map WorldActor.id).Nodup)
    (hledger : Ledger db.rewards) {request : ClockRequest}
    (habove : ConfiguresAbove (db.after world actors requests) request)
    (hspares : Spares world (db.after world actors requests) request) :
    Told world actors db (requests ++ [request]) := by
  have hnow : Ledger (db.after world actors requests).rewards := ledger_after hactors hledger requests
  intro reward hreward
  cases hexec : request.exec world actors (db.after world actors requests) with
  | error error =>
      have hafter := after_of_error hexec
      rw [hafter] at hreward
      exact htold.same_rows hafter rfl hreward
  | ok after =>
      have hafter := after_of_ok hexec
      rw [hafter] at hreward
      cases request with
      | configurePuzzleClockReward =>
          obtain ⟨configured, rfl, -, hfresh, rfl, rfl, hnone⟩ := exec_configure hexec
          rcases List.mem_append.mp hreward with hold | hnew
          · exact htold.same_rows hafter rfl hold
          · obtain rfl := List.mem_singleton.mp hnew
            rw [hnone, stoodPast_concat, hafter]
            refine iff_of_false (by simp) ?_
            rintro (⟨before, hbefore, ⟨earlier, hearlier, hid⟩, -⟩ | ⟨-, clock, hclock, hpast⟩)
            · obtain ⟨later, hlater, hid'⟩ := ids_stay_after hactors hledger hbefore hearlier
              exact hfresh later hlater (hid'.trans hid)
            · exact absurd hpast (not_le.mpr (habove clock hclock))
      | advancePuzzleClock =>
          obtain ⟨clock, session, mid, due, hclock, -, hmoved, rfl, hrewards, hcredited⟩ :=
            exec_advance hnow.storable hactors hexec
          rw [hrewards] at hreward
          obtain ⟨old, hold, rfl⟩ := mem_markGranted hreward
          have hwas := htold.carried hafter hclock (hmoved.toCarried.of_credited hcredited) hold
            (hnow.ids_stay hactors hexec hold)
          split_ifs with hdue
          · exact iff_of_true rfl ((StoodPast.congr rfl rfl rfl).mp (hwas.mpr (.inr hdue)))
          · exact (hwas.trans (or_iff_left hdue)).symm
      | spendResourceOnPuzzleClock =>
          obtain ⟨clock, session, hclock, hsession, hmay, hmoved, hrewards⟩ := exec_spend hexec
          rw [hrewards] at hreward
          have hcarried : Carried _ _ (db.after world actors requests).rows after.rows :=
            ⟨hmoved.carried, fun id hid => (hmoved.clocks id hid).trans (Function.update_of_ne (by simp) _ _)⟩
          have hwas := htold.carried hafter hclock hcarried hreward (hnow.ids_stay hactors hexec hreward)
          rw [hspares clock session hclock hsession hmay] at hwas
          exact (hwas.trans (or_iff_left List.not_mem_nil)).symm

/-- Rewards are paid once and in full, over every run, exactly when no spend passes one by. -/
theorem rewards_paid_once_in_full_iff (hactors : (actors.map WorldActor.id).Nodup) (hstart : db.rewards = [])
    (habove : Run.Meets (ClockRequest.apply world actors) ConfiguresAbove db requests) :
    PaidOnceInFull world actors db requests ↔
      Run.Meets (ClockRequest.apply world actors) (Spares world) db requests := by
  have hledger : Ledger db.rewards := by
    rw [hstart]
    exact ⟨List.nodup_nil, fun _ hmem => absurd hmem List.not_mem_nil⟩
  rw [Run.meets_iff] at habove ⊢
  constructor
  · intro h before request hbefore
    cases request with
    | configurePuzzleClockReward => trivial
    | advancePuzzleClock => trivial
    | spendResourceOnPuzzleClock caller now clockId actorId resourceType quantity =>
        intro clock session hclock hsession hmay
        refine List.eq_nil_iff_forall_not_mem.mpr fun reward hreward => ?_
        obtain ⟨after, hexec⟩ := spend_accepted actors now hclock hsession hmay
        have hafter := after_of_ok hexec
        obtain ⟨hmem, rfl, hnone, -, hreached⟩ := mem_dueRewards.mp hreward
        obtain ⟨spentClock, _, hspent, -, -, hmoved, hrewards⟩ := exec_spend hexec
        obtain rfl := Option.some.inj (hclock.symm.trans hspent)
        obtain ⟨later, hlater, hsegments⟩ := hmoved.carried
        have htold := h.granted _ hbefore
        rw [hafter, hrewards] at htold
        have hgranted := (htold reward hmem).mpr ⟨_, List.prefix_rfl, by
          rw [hafter, hrewards]
          exact ⟨⟨reward, hmem, rfl⟩, later, hlater, hsegments ▸ hreached⟩⟩
        rw [hnone] at hgranted
        cases hgranted
  · intro hspares
    have htold (before : List ClockRequest) (hbefore : before <+: requests) : Told world actors db before := by
      induction before using List.reverseRecOn with
      | nil =>
          intro reward hreward
          rw [RewardDatabase.after, Run.run_nil, hstart] at hreward
          exact absurd hreward List.not_mem_nil
      | append_singleton before request ih =>
          exact (ih ((List.prefix_append ..).trans hbefore)).step hactors hledger
            (habove before request hbefore) (hspares before request hbefore)
    exact ⟨htold, fun before request after hbefore hexec =>
      (ledger_after hactors hledger before).paid hactors hexec⟩

end Payout

/-! ### Vaults with a reward at the second segment -/

/-- Everyone may do everything. -/
def vaultWorld : World where
  controlsActor _ _ _ := some true
  isDmOfWorld _ _ _ := true
  paused _ := false
  actorWorldId _ := some 0
  itemExists _ := true
  sessionIds := [1]
  clockIds := [5]

/-- A party of two, with someone who is none of it. -/
def vaultActors : List WorldActor :=
  [{ id := 11, worldId := 0, isNpc := false }, { id := 10, worldId := 0, isNpc := false },
    { id := 12, worldId := 0, isNpc := true }]

/-- A clock of six segments that no one has touched. -/
def vaultSession : RewardDatabase where
  rows
    | .session id => if id = 1 then
        some { worldId := 0, wishesRemaining := 3, doomClockCurrent := 0, doomClockMax := 6, status := .active }
      else none
    | .clock id => if id = 5 then
        some { sessionId := 1, segmentsCurrent := 0, segmentsMax := 6, resolvedAt := none }
      else none
    | .holding _ actorId resourceType => if actorId = 10 ∧ resourceType = "keys" then 3 else 0
    | .proposal _ => none
    | .listing _ => none
    | .stock _ _ => none
  rewards := []

def vaultMaster : Caller where
  userId := 100
  isAdmin := false

/-- Five coins for the party at the second segment. -/
def vaultReward : ClockRequest :=
  .configurePuzzleClockReward vaultMaster 9 5 2 (some "coins") (some 5) none none .wholeParty

theorem vaultReward_above (requests : List ClockRequest)
    (h : Run.Meets (ClockRequest.apply vaultWorld vaultActors) ConfiguresAbove
      (vaultReward.apply vaultWorld vaultActors vaultSession) requests) :
    Run.Meets (ClockRequest.apply vaultWorld vaultActors) ConfiguresAbove vaultSession
      (vaultReward :: requests) := by
  refine ⟨fun clock hclock => ?_, h⟩
  obtain rfl : _ = clock := Option.some.inj hclock
  decide

/-- A key brings the clock to the first segment, an advance past the second, and it goes back and forth. -/
def vaultPlay : List ClockRequest :=
  [.spendResourceOnPuzzleClock vaultMaster 1 5 10 "keys" 1, .advancePuzzleClock vaultMaster 2 5 2 none,
    .advancePuzzleClock vaultMaster 3 5 (-2) none, .advancePuzzleClock vaultMaster 4 5 3 none]

theorem rewards_paid_once_in_full_vault :
    PaidOnceInFull vaultWorld vaultActors vaultSession (vaultReward :: vaultPlay) := by
  have habove := vaultReward_above vaultPlay ⟨trivial, trivial, trivial, trivial, trivial⟩
  refine (rewards_paid_once_in_full_iff (by decide) rfl habove).mpr
    ⟨trivial, fun clock session hclock _ _ => ?_, trivial, trivial, trivial, trivial⟩
  obtain rfl : _ = clock := Option.some.inj hclock
  decide +kernel

/-- Two keys carry the clock past the reward. -/
def twoKeys : ClockRequest := .spendResourceOnPuzzleClock vaultMaster 1 5 10 "keys" 2

/-- No one is paid, though the clock stands at the reward's segment. -/
theorem two_keys_pass_the_reward :
    Run.Meets (ClockRequest.apply vaultWorld vaultActors) ConfiguresAbove vaultSession [vaultReward, twoKeys] ∧
      ¬PaidOnceInFull vaultWorld vaultActors vaultSession [vaultReward, twoKeys] := by
  refine ⟨vaultReward_above _ ⟨trivial, trivial⟩, fun h => ?_⟩
  have hrewards : (vaultSession.after vaultWorld vaultActors [vaultReward, twoKeys]).rewards =
      [{ id := 9, clockId := 5, triggerSegment := 2, rewardResourceType := some "coins"
         rewardResourceAmount := some 5, rewardItemId := none, rewardItemQuantity := none
         recipientMode := .wholeParty, grantedAt := none, createdBy := 100 }] := by
    decide +kernel
  have hclock : (vaultSession.after vaultWorld vaultActors [vaultReward, twoKeys]).rows (.clock 5) =
      some { sessionId := 1, segmentsCurrent := 2, segmentsMax := 6, resolvedAt := none } := by
    decide +kernel
  have htold := h.granted _ List.prefix_rfl
  rw [hrewards] at htold
  have hgranted := (htold _ (List.mem_singleton.mpr rfl)).mpr ⟨_, List.prefix_rfl, by
    rw [hrewards]
    exact ⟨⟨_, List.mem_singleton.mpr rfl, rfl⟩, _, hclock, by decide⟩⟩
  cases hgranted

end ThunderForge.Genie
