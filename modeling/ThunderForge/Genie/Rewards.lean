import ThunderForge.Genie.Session
import ThunderForge.Lib.EvenSplit
import ThunderForge.Lib.SortBy

/-! Puzzle Clock rewards (`session/mutations/clocks.rs`, `session/mutations/trades.rs`), one call after
another: configuring them, and the two ways a clock moves. -/

namespace ThunderForge.Genie

open ReadCommitted

inductive GenieRewardRecipientMode where
  | triggeringActor
  | wholeParty
  deriving DecidableEq

structure GeniePuzzleClockReward where
  id : Uuid
  clockId : Uuid
  triggerSegment : Int
  rewardResourceType : Option String
  rewardResourceAmount : Option Int
  rewardItemId : Option Uuid
  rewardItemQuantity : Option Int
  recipientMode : GenieRewardRecipientMode
  grantedAt : Option Nat
  createdBy : Uuid
  deriving DecidableEq

/-- The conditions the database keeps on a row of `world_genie_puzzle_clock_rewards`. -/
def GeniePuzzleClockReward.storable (reward : GeniePuzzleClockReward) : Bool :=
  0 < reward.triggerSegment && reward.rewardResourceAmount.all (0 < ·) &&
    reward.rewardItemQuantity.all (0 < ·) &&
    (reward.rewardResourceType.isSome && reward.rewardResourceAmount.isSome &&
        reward.rewardItemId.isNone && reward.rewardItemQuantity.isNone ||
      reward.rewardItemId.isSome && reward.rewardItemQuantity.isSome &&
        reward.rewardResourceType.isNone && reward.rewardResourceAmount.isNone)

/-- What is read of an actor to tell who is in a party. -/
structure WorldActor where
  id : Uuid
  worldId : Uuid
  isNpc : Bool

/-- The rows the operations on sessions write, and the rewards. -/
structure RewardDatabase where
  rows : Database
  rewards : List GeniePuzzleClockReward

section Rewards

variable (world : World) (actors : List WorldActor)

/-- Every actor of the world that is no NPC, by id. -/
def partyMemberIds (worldId : Uuid) : List Uuid :=
  SortBy.sortBy BitVec.toNat
    ((actors.filter fun actor => actor.worldId = worldId ∧ actor.isNpc = false).map WorldActor.id)

/-- Who a reward goes to. Without an actor to credit, it goes to the whole party. -/
def recipientsOf (partyMemberIds : List Uuid) (actorId : Option Uuid) (reward : GeniePuzzleClockReward) :
    List Uuid :=
  match reward.recipientMode, actorId with
  | .triggeringActor, some id => [id]
  | _, _ => partyMemberIds

/-- One recipient's share. A sum past the end of its type wraps to a quantity the table refuses, as it
refuses a holding of no actor. -/
def payShare (sessionId : Uuid) (resourceType : String) (amount : Int) (count : Nat)
    (recipient : Uuid × Nat) : Program Unit :=
  let share := EvenSplit.share amount count recipient.2
  if share ≤ 0 then pure ()
  else do
    let current ← loadHoldingQuantity sessionId recipient.1 resourceType
    Call.require ((world.actorWorldId recipient.1).isSome ∧ 0 ≤ current + share ∧ fitsI32 (current + share))
      "Failed to advance Puzzle Clock: The current transaction was aborted"
    let _ ← setHoldingQuantity sessionId recipient.1 resourceType current (current + share)

/-- Pay one reward out. Items are not divided: every recipient gets as many. -/
def grantReward (sessionId : Uuid) (partyMemberIds : List Uuid) (actorId : Option Uuid)
    (reward : GeniePuzzleClockReward) : Program Unit :=
  let recipients := recipientsOf partyMemberIds actorId reward
  match reward.rewardResourceType, reward.rewardResourceAmount, reward.rewardItemId,
    reward.rewardItemQuantity with
  | some resourceType, some amount, _, _ =>
    Call.forEach (payShare world sessionId resourceType amount recipients.length) recipients.zipIdx
  | _, _, some itemId, some quantity =>
    Call.forEach (fun recipientId => grantItemToActor world recipientId itemId quantity) recipients
  | _, _, _, _ => pure ()

/-- The rewards of a clock that a move passes and that were not granted yet. -/
def dueRewards (rewards : List GeniePuzzleClockReward) (clockId : Uuid) (oldSegments newSegments : Int) :
    List GeniePuzzleClockReward :=
  rewards.filter fun reward => reward.clockId = clockId ∧ reward.grantedAt = none ∧
    oldSegments < reward.triggerSegment ∧ reward.triggerSegment ≤ newSegments

/-- Pay out the rewards that a move of the clock passes, answering with them. -/
def grantPuzzleClockRewards (rewards : List GeniePuzzleClockReward) (clockId worldId sessionId : Uuid)
    (oldSegments newSegments : Int) (actorId : Option Uuid) : Program (List GeniePuzzleClockReward) := do
  let due := dueRewards rewards clockId oldSegments newSegments
  Call.forEach (grantReward world sessionId (partyMemberIds actors worldId) actorId) due
  pure due

/-- The rewards with those marked that were paid out. -/
def markGranted (now : Nat) (due rewards : List GeniePuzzleClockReward) : List GeniePuzzleClockReward :=
  rewards.map fun reward => if reward ∈ due then { reward with grantedAt := some now } else reward

namespace Rewards

/-- All of `advance_puzzle_clock_impl`: the clock, the win, and the rewards. -/
def advancePuzzleClock (rewards : List GeniePuzzleClockReward) (caller : Caller) (now : Nat) (clockId : Uuid)
    (delta : Int) (actorId : Option Uuid) : Program (GeniePuzzleClock × List GeniePuzzleClockReward) := do
  let clock ← loadPuzzleClockRow clockId
  let session ← loadSessionRow clock.sessionId
  Call.require (world.isDmOfWorld caller.userId caller.isAdmin session.worldId)
    "Only the GM may advance a Puzzle Clock"
  refuseWorldIfPaused world session.worldId
  Call.require (session.status = .active) "This Genie session has already concluded"
  Call.require clock.resolvedAt.isNone "This Puzzle Clock has already resolved"
  let updatedClock ← writePuzzleClock world now clockId clock delta
    "Failed to advance Puzzle Clock: Record not found"
  let due ← grantPuzzleClockRewards world actors rewards clockId session.worldId clock.sessionId
    clock.segmentsCurrent updatedClock.segmentsCurrent actorId
  pure (updatedClock, due)

/-- What has to hold before a reward is written. -/
def mayConfigure (caller : Caller) (clockId : Uuid) (reward : GeniePuzzleClockReward) : Program Unit := do
  Call.require (0 < reward.triggerSegment) "triggerSegment must be greater than zero"
  let isResourceReward := reward.rewardResourceType.isSome && reward.rewardResourceAmount.isSome
  let isItemReward := reward.rewardItemId.isSome && reward.rewardItemQuantity.isSome
  Call.require (isResourceReward ≠ isItemReward)
    "Exactly one of a resource reward or an item reward must be configured per entry"
  let clock ← loadPuzzleClockRow clockId
  let session ← loadSessionRow clock.sessionId
  Call.require (world.isDmOfWorld caller.userId caller.isAdmin session.worldId)
    "Only the GM may configure Puzzle Clock rewards"
  refuseWorldIfPaused world session.worldId

end Rewards

/-- A call on a Puzzle Clock. A reward to configure is given with the id minted for it. -/
inductive ClockRequest where
  | configurePuzzleClockReward (caller : Caller) (rewardId clockId : Uuid) (triggerSegment : Int)
      (rewardResourceType : Option String) (rewardResourceAmount : Option Int) (rewardItemId : Option Uuid)
      (rewardItemQuantity : Option Int) (recipientMode : GenieRewardRecipientMode)
  | advancePuzzleClock (caller : Caller) (now : Nat) (clockId : Uuid) (delta : Int) (actorId : Option Uuid)
  | spendResourceOnPuzzleClock (caller : Caller) (now : Nat) (clockId actorId : Uuid) (resourceType : String)
      (quantity : Int)

/-- The database that a call leaves, or its refusal. -/
def ClockRequest.exec (db : RewardDatabase) : ClockRequest → Except String RewardDatabase
  | configurePuzzleClockReward caller rewardId clockId triggerSegment rewardResourceType
      rewardResourceAmount rewardItemId rewardItemQuantity recipientMode => do
    let reward : GeniePuzzleClockReward :=
      { id := rewardId, clockId, triggerSegment, rewardResourceType, rewardResourceAmount, rewardItemId
        rewardItemQuantity, recipientMode, grantedAt := none, createdBy := caller.userId }
    let (_, rows) ← (Rewards.mayConfigure world caller clockId reward).exec db.rows
    if reward.storable ∧ (∀ other ∈ db.rewards, other.id ≠ rewardId) then
      .ok { rows, rewards := db.rewards ++ [reward] }
    else .error "Failed to configure Puzzle Clock reward: new row violates a constraint"
  | advancePuzzleClock caller now clockId delta actorId => do
    let ((_, due), rows) ←
      (Rewards.advancePuzzleClock world actors db.rewards caller now clockId delta actorId).exec db.rows
    .ok { rows, rewards := markGranted now due db.rewards }
  | spendResourceOnPuzzleClock caller now clockId actorId resourceType quantity => do
    let (_, rows) ←
      (Genie.spendResourceOnPuzzleClock world caller now clockId actorId resourceType quantity).exec db.rows
    .ok { db with rows }

/-- A call that is refused leaves everything as it was. -/
def ClockRequest.apply (db : RewardDatabase) (request : ClockRequest) : RewardDatabase :=
  (request.exec world actors db).toOption.getD db

/-! ### What each part leaves -/

/-- Where a move carries a clock. -/
def GeniePuzzleClock.moved (clock : GeniePuzzleClock) (delta : Int) : Int :=
  clamp (addI32 clock.segmentsCurrent delta) 0 clock.segmentsMax

/-- What has to hold for a spend to be accepted. -/
structure MaySpend (db : Database) (caller : Caller) (clock : GeniePuzzleClock) (session : GenieSession)
    (actorId : Uuid) (resourceType : String) (quantity : Int) : Prop where
  positive : 0 < quantity
  controls : world.controlsActor caller.userId caller.isAdmin actorId = some true
  running : world.paused session.worldId = false
  active : session.status = .active
  unresolved : clock.resolvedAt = none
  holds : quantity ≤ db (.holding clock.sessionId actorId resourceType)

/-- Of the clocks, one was carried to a segment. -/
structure Carried (clockId : Uuid) (segments : Int) (db db' : Database) : Prop where
  carried : ∃ clock, db' (.clock clockId) = some clock ∧ clock.segmentsCurrent = segments
  clocks : ∀ id, id ≠ clockId → db' (.clock id) = db (.clock id)

/-- A clock was carried to a segment, and of the rest only sessions were written. -/
structure Moved (clockId : Uuid) (segments : Int) (db db' : Database) : Prop
    extends Carried clockId segments db db' where
  holdings : ∀ sessionId actorId resourceType,
    db' (.holding sessionId actorId resourceType) = db (.holding sessionId actorId resourceType)

/-- Holdings of a session grew by what was gained, and nothing but stocks was written besides. -/
structure Credited (sessionId : Uuid) (gained : String → Uuid → Int) (db db' : Database) : Prop where
  clocks : ∀ id, db' (.clock id) = db (.clock id)
  holdings : ∀ actorId resourceType, db' (.holding sessionId actorId resourceType) =
    db (.holding sessionId actorId resourceType) + gained resourceType actorId
  others : ∀ otherId, otherId ≠ sessionId → ∀ actorId resourceType,
    db' (.holding otherId actorId resourceType) = db (.holding otherId actorId resourceType)

/-- What one gains by a reward, of the resource it pays. -/
def gainedBy (party : List Uuid) (actorId : Option Uuid) (reward : GeniePuzzleClockReward)
    (recipient : Uuid) : Int :=
  EvenSplit.gain (reward.rewardResourceAmount.getD 0) (recipientsOf party actorId reward) recipient

variable {world actors} {db db' : Database}

theorem exec_loadPuzzleClockRow_bind {α : Type} {clockId : Uuid} {f : GeniePuzzleClock → Program α}
    {r : α × Database} : (loadPuzzleClockRow clockId >>= f).exec db = .ok r ↔
      ∃ clock, db (.clock clockId) = some clock ∧ (f clock).exec db = .ok r := by
  rw [loadPuzzleClockRow, bind_assoc]
  exact Call.exec_getOr_bind_eq_ok

theorem exec_loadSessionRow_bind {α : Type} {sessionId : Uuid} {f : GenieSession → Program α}
    {r : α × Database} : (loadSessionRow sessionId >>= f).exec db = .ok r ↔
      ∃ session, db (.session sessionId) = some session ∧ (f session).exec db = .ok r := by
  rw [loadSessionRow, bind_assoc]
  exact Call.exec_getOr_bind_eq_ok

theorem exec_refuseWorldIfPaused_bind {α : Type} {worldId : Uuid} {f : Unit → Program α} {r : α × Database} :
    (refuseWorldIfPaused world worldId >>= f).exec db = .ok r ↔
      world.paused worldId = false ∧ (f ()).exec db = .ok r :=
  Call.exec_require_bind_eq_ok

theorem Moved.of_update {clockId : Uuid} {updated : GeniePuzzleClock} {segments : Int}
    (hsegments : updated.segmentsCurrent = segments) :
    Moved clockId segments db (Function.update db (.clock clockId) (some updated)) where
  carried := ⟨updated, Function.update_self .., hsegments⟩
  clocks id hid := Function.update_of_ne (by simpa using hid) _ _
  holdings _ _ _ := Function.update_of_ne (by simp) _ _

theorem Moved.win {clockId sessionId : Uuid} {segments : Int} (h : Moved clockId segments db db')
    (row : Option GenieSession) : Moved clockId segments db (Function.update db' (.session sessionId) row) where
  carried := by
    obtain ⟨clock, hclock, hsegments⟩ := h.carried
    exact ⟨clock, (Function.update_of_ne (by simp) _ _).trans hclock, hsegments⟩
  clocks id hid := (Function.update_of_ne (by simp) _ _).trans (h.clocks id hid)
  holdings _ _ _ := (Function.update_of_ne (by simp) _ _).trans (h.holdings _ _ _)

variable (world) in
/-- The clock is there, so nothing refuses the write. -/
theorem exec_writePuzzleClock (now : Nat) {clockId : Uuid} {clock : GeniePuzzleClock} (delta : Int)
    (notFound : String) (hclock : db (.clock clockId) = some clock) :
    ∃ updated db', (writePuzzleClock world now clockId clock delta notFound).exec db = .ok (updated, db') ∧
      updated.segmentsCurrent = clock.moved delta ∧ Moved clockId (clock.moved delta) db db' := by
  let written : GeniePuzzleClock :=
    { clock with
      segmentsCurrent := clock.moved delta
      resolvedAt := if clock.segmentsMax ≤ clock.moved delta then some now else none }
  have hmoved : Moved clockId (clock.moved delta) db (Function.update db (.clock clockId) (some written)) :=
    .of_update rfl
  suffices h : ∃ db', (writePuzzleClock world now clockId clock delta notFound).exec db = .ok (written, db') ∧
      Moved clockId (clock.moved delta) db db' by
    obtain ⟨db', hexec, h⟩ := h
    exact ⟨written, db', hexec, rfl, h⟩
  have hrest : (writePuzzleClock world now clockId clock delta notFound).exec db =
      (if clock.segmentsMax ≤ clock.moved delta then
        (Call.read (puzzleClocksForSession world clock.sessionId) >>= fun allClocks =>
          if allPuzzleClocksResolved allClocks then
            Call.update (ρ := Key.Row)
              (fun kind db => kind != .outcomeOpen || (db (.session clock.sessionId)).any (·.status ≠ .lost))
              (.session clock.sessionId) (fun row => row.map ({ · with status := .won })) >>= fun _ =>
                pure written
          else pure written : Program GeniePuzzleClock)
      else pure written).exec (Function.update db (.clock clockId) (some written)) := by
    unfold writePuzzleClock
    rw [Call.exec_bind, Call.exec_update, hclock]
    rfl
  rw [hrest]
  split_ifs
  · rw [Call.exec_bind, Call.exec_read]
    change ∃ db', (ite _ _ _ : Program GeniePuzzleClock).exec _ = _ ∧ _
    split_ifs
    · rw [Call.exec_bind, Call.exec_update]
      exact ⟨_, rfl, hmoved.win _⟩
    · exact ⟨_, rfl, hmoved⟩
  · exact ⟨_, rfl, hmoved⟩

theorem exec_requireCallerControlsActor_bind {α : Type} {caller : Caller} {actorId : Uuid}
    {f : Unit → Program α} {r : α × Database} :
    (requireCallerControlsActor world caller actorId >>= f).exec db = .ok r ↔
      world.controlsActor caller.userId caller.isAdmin actorId = some true ∧ (f ()).exec db = .ok r := by
  unfold requireCallerControlsActor callerControlsActor
  rw [bind_assoc, Call.exec_getOr_bind_eq_ok]
  simp only [Call.exec_require_bind_eq_ok]
  constructor
  · rintro ⟨controls, hcontrols, rfl, hrest⟩
    exact ⟨hcontrols, hrest⟩
  · exact fun ⟨hcontrols, hrest⟩ => ⟨true, hcontrols, rfl, hrest⟩

/-- A spend that meets its conditions is accepted: what is spent is taken, and the clock is carried on. -/
theorem exec_spendResourceOnPuzzleClock {caller : Caller} {now : Nat} {clockId actorId : Uuid}
    {resourceType : String} {quantity : Int} :
    (∃ answer, (spendResourceOnPuzzleClock world caller now clockId actorId resourceType quantity).exec db =
      .ok (answer, db')) ↔
    ∃ clock session, db (.clock clockId) = some clock ∧ db (.session clock.sessionId) = some session ∧
      MaySpend world db caller clock session actorId resourceType quantity ∧
      ∃ updated, (writePuzzleClock world now clockId clock quantity "Database error: Record not found").exec
        (Function.update db (.holding clock.sessionId actorId resourceType)
          (db (.holding clock.sessionId actorId resourceType) - quantity)) = .ok (updated, db') := by
  unfold spendResourceOnPuzzleClock loadHoldingQuantity setHoldingQuantity
  simp only [Call.exec_require_bind_eq_ok, exec_requireCallerControlsActor_bind,
    exec_loadPuzzleClockRow_bind, exec_loadSessionRow_bind, exec_refuseWorldIfPaused_bind,
    Call.exec_read_bind_eq_ok, bind_assoc, pure_bind]
  constructor
  · rintro ⟨answer, hpositive, hcontrols, clock, hclock, session, hsession, hrunning, hactive, hunresolved,
      hholds, hexec⟩
    rw [Call.exec_bind, Call.exec_update] at hexec
    obtain ⟨updated, _, hwrite, hanswer⟩ := Call.exec_bind_eq_ok.mp hexec
    obtain ⟨-, rfl⟩ := Call.exec_pure_eq_ok.mp hanswer
    exact ⟨clock, session, hclock, hsession, ⟨hpositive, hcontrols, hrunning, hactive,
      Option.isNone_iff_eq_none.mp hunresolved, hholds⟩, updated, hwrite⟩
  · rintro ⟨clock, session, hclock, hsession, hmay, updated, hwrite⟩
    refine ⟨.spend updated clock.sessionId, hmay.positive, hmay.controls, clock, hclock, session, hsession,
      hmay.running, hmay.active, Option.isNone_iff_eq_none.mpr hmay.unresolved, hmay.holds, ?_⟩
    rw [Call.exec_bind, Call.exec_update]
    exact Call.exec_bind_eq_ok.mpr ⟨updated, db', hwrite, Call.exec_pure _ _⟩

theorem Credited.refl (sessionId : Uuid) (db : Database) : Credited sessionId (fun _ _ => 0) db db where
  clocks _ := rfl
  holdings _ _ := (add_zero _).symm
  others _ _ _ _ := rfl

theorem Credited.trans {sessionId : Uuid} {left right : String → Uuid → Int} {mid : Database}
    (h : Credited sessionId left db mid) (h' : Credited sessionId right mid db') :
    Credited sessionId (fun resourceType actorId => left resourceType actorId + right resourceType actorId)
      db db' where
  clocks id := (h'.clocks id).trans (h.clocks id)
  holdings actorId resourceType := by rw [h'.holdings, h.holdings, add_assoc]
  others otherId hother actorId resourceType :=
    (h'.others otherId hother actorId resourceType).trans (h.others otherId hother actorId resourceType)

theorem Carried.of_credited {clockId sessionId : Uuid} {segments : Int} {gained : String → Uuid → Int}
    {mid : Database} (h : Carried clockId segments db mid) (hcredited : Credited sessionId gained mid db') :
    Carried clockId segments db db' where
  carried := by
    obtain ⟨clock, hclock, hsegments⟩ := h.carried
    exact ⟨clock, (hcredited.clocks clockId).trans hclock, hsegments⟩
  clocks id hid := (hcredited.clocks id).trans (h.clocks id hid)

/-- A loop credits what its rounds credit together. -/
theorem credited_forEach {γ : Type} {sessionId : Uuid} {f : γ → Program Unit}
    {gained : γ → String → Uuid → Int} {xs : List γ}
    (hround : ∀ x ∈ xs, ∀ s s', (f x).exec s = .ok ((), s') → Credited sessionId (gained x) s s')
    (hexec : (Call.forEach f xs).exec db = .ok ((), db')) :
    Credited sessionId (fun resourceType actorId => (xs.map fun x => gained x resourceType actorId).sum)
      db db' := by
  induction xs generalizing db with
  | nil =>
      obtain ⟨-, rfl⟩ := Call.exec_pure_eq_ok.mp hexec
      exact .refl sessionId db
  | cons x xs ih =>
      obtain ⟨_, mid, hx, hrest⟩ := Call.exec_bind_eq_ok.mp hexec
      have hfirst := hround x List.mem_cons_self db mid hx
      have hothers := ih (fun y hy => hround y (List.mem_cons_of_mem x hy)) hrest
      simpa only [List.map_cons, List.sum_cons] using hfirst.trans hothers

theorem credited_payShare {sessionId : Uuid} {resourceType : String} {amount : Int} (hamount : 0 ≤ amount)
    {count : Nat} {recipient : Uuid × Nat}
    (hexec : (payShare world sessionId resourceType amount count recipient).exec db = .ok ((), db')) :
    Credited sessionId (fun paidType actorId =>
      if paidType = resourceType ∧ recipient.1 = actorId then EvenSplit.share amount count recipient.2 else 0)
        db db' := by
  have hshare := EvenSplit.share_nonneg hamount count recipient.2
  unfold payShare at hexec
  generalize EvenSplit.share amount count recipient.2 = share at hexec hshare ⊢
  dsimp only at hexec
  split_ifs at hexec with hnone
  · obtain ⟨-, rfl⟩ := Call.exec_pure_eq_ok.mp hexec
    obtain rfl : share = 0 := by omega
    simpa only [ite_self] using Credited.refl sessionId db
  · unfold loadHoldingQuantity setHoldingQuantity at hexec
    rw [Call.exec_read_bind_eq_ok, Call.exec_require_bind_eq_ok, bind_assoc, Call.exec_bind, Call.exec_update]
      at hexec
    have hdone : (pure () : Program Unit).exec (Function.update db (.holding sessionId recipient.1 resourceType)
        (db (.holding sessionId recipient.1 resourceType) + share)) = .ok ((), db') := hexec.2
    obtain ⟨-, rfl⟩ := Call.exec_pure_eq_ok.mp hdone
    refine ⟨fun id => Function.update_of_ne (by simp) _ _, fun actorId paidType => ?_,
      fun otherId hother actorId paidType => Function.update_of_ne (by simp [hother]) _ _⟩
    by_cases hkey : paidType = resourceType ∧ recipient.1 = actorId
    · obtain ⟨rfl, rfl⟩ := hkey
      rw [Function.update_self, if_pos ⟨rfl, rfl⟩]
    · rw [if_neg hkey, add_zero]
      refine Function.update_of_ne ?_ _ _
      simp only [ne_eq, Key.holding.injEq, true_and]
      exact fun h => hkey ⟨h.2, h.1.symm⟩

theorem credited_grantItemToActor {sessionId actorId itemId : Uuid} {quantity : Int}
    (hexec : (grantItemToActor world actorId itemId quantity).exec db = .ok ((), db')) :
    Credited sessionId (fun _ _ => 0) db db' := by
  unfold grantItemToActor at hexec
  obtain ⟨-, hexec⟩ := Call.exec_require_bind_eq_ok.mp hexec
  rw [Call.exec_bind, Call.exec_update] at hexec
  obtain ⟨-, rfl⟩ := Call.exec_pure_eq_ok.mp hexec
  refine ⟨fun id => Function.update_of_ne (by simp) _ _, fun _ _ => ?_,
    fun _ _ _ _ => Function.update_of_ne (by simp) _ _⟩
  rw [Function.update_of_ne (by simp), add_zero]

theorem nodup_recipientsOf {party : List Uuid} (hparty : party.Nodup) (actorId : Option Uuid)
    (reward : GeniePuzzleClockReward) : (recipientsOf party actorId reward).Nodup := by
  unfold recipientsOf
  split
  · exact List.nodup_singleton _
  · exact hparty

theorem recipientsOf_ne_nil {party : List Uuid} (hparty : party ≠ []) (actorId : Option Uuid)
    (reward : GeniePuzzleClockReward) : recipientsOf party actorId reward ≠ [] := by
  unfold recipientsOf
  split
  · exact List.cons_ne_nil _ _
  · exact hparty

theorem GeniePuzzleClockReward.amount_pos {reward : GeniePuzzleClockReward} (h : reward.storable) {amount : Int}
    (hamount : reward.rewardResourceAmount = some amount) : 0 < amount := by
  simp only [storable, hamount, Option.all_some, Bool.and_eq_true, decide_eq_true_eq] at h
  exact h.1.1.2

/-- A reward that is stored pays a resource or an item. -/
theorem GeniePuzzleClockReward.storable_cases {reward : GeniePuzzleClockReward} (h : reward.storable) :
    (∃ resourceType amount, reward.rewardResourceType = some resourceType ∧
      reward.rewardResourceAmount = some amount) ∨
    reward.rewardResourceType = none ∧ ∃ itemId quantity, reward.rewardItemId = some itemId ∧
      reward.rewardItemQuantity = some quantity := by
  simp only [storable, Bool.and_eq_true, Bool.or_eq_true, Option.isSome_iff_exists, Option.isNone_iff_eq_none]
    at h
  rcases h.2 with ⟨⟨⟨⟨resourceType, htype⟩, amount, hamount⟩, -⟩, -⟩ |
    ⟨⟨⟨⟨itemId, hitem⟩, quantity, hquantity⟩, htype⟩, -⟩
  · exact .inl ⟨resourceType, amount, htype, hamount⟩
  · exact .inr ⟨htype, itemId, quantity, hitem, hquantity⟩

theorem credited_grantReward {sessionId : Uuid} {party : List Uuid} {actorId : Option Uuid}
    {reward : GeniePuzzleClockReward} (hstorable : reward.storable) (hparty : party.Nodup)
    (hexec : (grantReward world sessionId party actorId reward).exec db = .ok ((), db')) :
    Credited sessionId (fun resourceType recipient => if reward.rewardResourceType = some resourceType then
      gainedBy party actorId reward recipient else 0) db db' := by
  have hnodup := nodup_recipientsOf hparty actorId reward
  unfold grantReward at hexec
  unfold gainedBy
  rcases GeniePuzzleClockReward.storable_cases hstorable with ⟨resourceType, amount, htype, hamount⟩ |
    ⟨htype, itemId, quantity, hitem, hquantity⟩
  · have hpositive := GeniePuzzleClockReward.amount_pos hstorable hamount
    simp only [htype, hamount] at hexec
    have hcredited := credited_forEach (fun recipient _ _ _ h => credited_payShare hpositive.le h) hexec
    convert hcredited using 3 with paidType actorId
    rw [htype, hamount, Option.getD_some, ← EvenSplit.sum_zipIdx hnodup]
    by_cases hpaid : paidType = resourceType
    · simp [hpaid]
    · simp [hpaid, Ne.symm hpaid]
  · simp only [htype, hitem, hquantity] at hexec
    have hcredited : Credited sessionId _ db db' :=
      credited_forEach (fun _ _ _ _ h => credited_grantItemToActor h) hexec
    simpa [htype] using hcredited

/-- All that a clock's advance writes: the clock is carried on, and those due are paid. -/
theorem exec_advancePuzzleClock {rewards due : List GeniePuzzleClockReward} {caller : Caller} {now : Nat}
    {clockId : Uuid} {delta : Int} {actorId : Option Uuid} {updated : GeniePuzzleClock}
    (hexec : (Rewards.advancePuzzleClock world actors rewards caller now clockId delta actorId).exec db =
      .ok ((updated, due), db')) :
    ∃ clock session mid, db (.clock clockId) = some clock ∧ db (.session clock.sessionId) = some session ∧
      Moved clockId (clock.moved delta) db mid ∧
      due = dueRewards rewards clockId clock.segmentsCurrent (clock.moved delta) ∧
      (Call.forEach (grantReward world clock.sessionId (partyMemberIds actors session.worldId) actorId)
        due).exec mid = .ok ((), db') := by
  unfold Rewards.advancePuzzleClock grantPuzzleClockRewards at hexec
  simp only [Call.exec_require_bind_eq_ok, exec_loadPuzzleClockRow_bind, exec_loadSessionRow_bind,
    exec_refuseWorldIfPaused_bind] at hexec
  obtain ⟨clock, hclock, session, hsession, -, -, -, -, hexec⟩ := hexec
  obtain ⟨written, mid, hwrite, hexec⟩ := Call.exec_bind_eq_ok.mp hexec
  obtain ⟨written', mid', hwrite', hsegments, hmoved⟩ :=
    exec_writePuzzleClock world now delta "Failed to advance Puzzle Clock: Record not found" hclock
  obtain ⟨rfl, rfl⟩ := Prod.mk.inj (Except.ok.inj (hwrite.symm.trans hwrite'))
  obtain ⟨paid, last, hgrant, hpure⟩ := Call.exec_bind_eq_ok.mp hexec
  obtain ⟨_, last', hloop, hdue⟩ := Call.exec_bind_eq_ok.mp hgrant
  obtain ⟨hpaid, rfl⟩ := Call.exec_pure_eq_ok.mp hdue
  obtain ⟨hanswer, rfl⟩ := Call.exec_pure_eq_ok.mp hpure
  obtain ⟨rfl, rfl⟩ := Prod.mk.inj hanswer
  rw [← hpaid, hsegments]
  rw [hsegments] at hloop
  exact ⟨clock, session, mid, hclock, hsession, hmoved, rfl, hloop⟩

theorem exec_mayConfigure {caller : Caller} {clockId : Uuid} {reward : GeniePuzzleClockReward}
    (hexec : (Rewards.mayConfigure world caller clockId reward).exec db = .ok ((), db')) : db' = db := by
  unfold Rewards.mayConfigure at hexec
  simp only [Call.exec_require_bind_eq_ok, exec_loadPuzzleClockRow_bind, exec_loadSessionRow_bind] at hexec
  obtain ⟨-, -, _, -, _, -, -, hexec⟩ := hexec
  unfold refuseWorldIfPaused Call.require at hexec
  split_ifs at hexec
  · exact (Call.exec_pure_eq_ok.mp hexec).2.symm
  · cases hexec

theorem nodup_partyMemberIds (hactors : (actors.map WorldActor.id).Nodup) (worldId : Uuid) :
    (partyMemberIds actors worldId).Nodup :=
  (SortBy.sortBy_perm BitVec.toNat _).nodup_iff.mpr (hactors.sublist (List.filter_sublist.map _))

end Rewards

end ThunderForge.Genie
