import Mathlib.Data.List.Nodup
import ThunderForge.Actors.Claim
import ThunderForge.Lib.Run

/-! Access follows the claim. A claim raises a row below Editor and flags it, a release deletes the row
while it is flagged, and a grant by hand clears the flag: without the flagged rows there remains what a
Game Master set by hand. -/

namespace ThunderForge.Actors

open Transaction

/-- The user plays the actor. -/
def HoldsClaim (table : Table) (db : Database) (actorId userId : Uuid) : Prop :=
  ∃ claim ∈ db.claims, claim.actorId = actorId ∧ table.userOf claim.worldMemberId = some userId

/-- The row a Game Master has set by hand. -/
def byHand (row : Option ActorPermission) : Option ActorPermission := row.filter (!·.grantedByClaim)

/-- The level a Game Master has set by hand. -/
def handLevel (db : Database) (actorId userId : Uuid) : ActorPermissionLevel :=
  (byHand (db.permissions actorId userId)).elim .viewer (·.level)

/-- Claims are one to one, and access given by a claim goes with it. -/
structure AccessSound (table : Table) (db : Database) : Prop where
  actors : (db.claims.map (·.actorId)).Nodup
  members : (db.claims.map (·.worldMemberId)).Nodup
  flagged : ∀ actorId userId row, db.permissions actorId userId = some row → row.grantedByClaim = true →
    HoldsClaim table db actorId userId

section

variable {table : Table} {db db' : Database}

/-- Who plays no actor has on it what was set by hand. -/
theorem AccessSound.grantedLevel (h : AccessSound table db) {actorId userId : Uuid}
    (hnone : ¬HoldsClaim table db actorId userId) : grantedLevel db actorId userId = handLevel db actorId userId := by
  unfold Actors.grantedLevel handLevel byHand
  cases hrow : db.permissions actorId userId with
  | none => rfl
  | some row =>
      have hflag : row.grantedByClaim = false :=
        Bool.eq_false_iff.mpr fun hflag => hnone (h.flagged actorId userId row hrow hflag)
      simp [Option.filter, hflag]

theorem byHand_claimed (row : Option ActorPermission) :
    (byHand (claimed row)).elim ActorPermissionLevel.viewer (·.level) = (byHand row).elim .viewer (·.level) := by
  cases row with
  | none => rfl
  | some row =>
      obtain ⟨level, flag⟩ := row
      cases level <;> cases flag <;> rfl

theorem rank_claimed (row : Option ActorPermission) :
    ActorPermissionLevel.editor.rank ≤ ((claimed row).elim ActorPermissionLevel.viewer (·.level)).rank := by
  cases row with
  | none => decide
  | some row =>
      obtain ⟨level, flag⟩ := row
      cases level <;> cases flag <;> decide

theorem exec_updatePermission {ε : Type} {actorId userId : Uuid} {f : Option ActorPermission → Option ActorPermission}
    {u : Unit} (h : (updatePermission actorId userId f : Query ε Unit).exec db = .ok (u, db')) :
    db' = db.setPermission actorId userId (f (db.permissions actorId userId)) :=
  (exec_write_eq_ok.mp h).2.symm

/-- What a change of one row leaves of the levels set by hand. -/
theorem handLevel_setPermission (actorId userId : Uuid) (row : Option ActorPermission) (actorId' userId' : Uuid) :
    handLevel (db.setPermission actorId userId row) actorId' userId' =
      if actorId' = actorId ∧ userId' = userId then (byHand row).elim .viewer (·.level)
      else handLevel db actorId' userId' := by
  unfold handLevel
  rw [Database.permissions_setPermission]
  split_ifs <;> rfl

/-- A change of one row that changes nothing set by hand. -/
theorem handLevel_of_byHand {actorId userId : Uuid} {row : Option ActorPermission}
    (hrow : (byHand row).elim ActorPermissionLevel.viewer (·.level) = handLevel db actorId userId) :
    handLevel (db.setPermission actorId userId row) = handLevel db := by
  funext actorId' userId'
  rw [handLevel_setPermission]
  split_ifs with hsame
  · rw [hrow, hsame.1, hsame.2]
  · rfl

/-- A call has bound the user to the actor and given access, and left what was set by hand. -/
structure Bound (table : Table) (actorId userId : Uuid) (db db' : Database) : Prop where
  sound : AccessSound table db'
  hand : handLevel db' = handLevel db
  holds : HoldsClaim table db' actorId userId
  editor : ActorPermissionLevel.editor.rank ≤ (Actors.grantedLevel db' actorId userId).rank

/-- A member is bound to an actor when neither is taken. -/
theorem exec_bindAndGrant {actorId : Uuid} {member : WorldMember} {claim : ActorClaim}
    (h : (bindAndGrant actorId member).exec db = .ok (claim, db')) :
    (∀ claim ∈ db.claims, claim.actorId ≠ actorId ∧ claim.worldMemberId ≠ member.id) ∧
      db' = (db.addClaim ⟨actorId, member.id⟩).setPermission actorId member.userId
        (claimed (db.permissions actorId member.userId)) := by
  obtain ⟨bound, db₁, hbind, hrest⟩ := exec_bind_eq_ok.mp h
  obtain ⟨hbound, rfl⟩ := exec_write_eq_ok.mp hbind
  obtain rfl := Except.ok.inj hbound
  split_ifs at hrest with hfree
  · obtain ⟨u, db₁, hgrant, hdone⟩ := exec_bind_eq_ok.mp hrest
    obtain ⟨-, rfl⟩ := Prod.mk.inj (Except.ok.inj hdone)
    exact ⟨by simpa using hfree, exec_updatePermission hgrant⟩
  · cases hrest

theorem bound_of_exec {actorId : Uuid} {member : WorldMember} {claim : ActorClaim} (hsound : AccessSound table db)
    (hmember : table.userOf member.id = some member.userId)
    (h : (bindAndGrant actorId member).exec db = .ok (claim, db')) : Bound table actorId member.userId db db' := by
  obtain ⟨hfree, rfl⟩ := exec_bindAndGrant h
  have hholds : HoldsClaim table ((db.addClaim ⟨actorId, member.id⟩).setPermission actorId member.userId
      (claimed (db.permissions actorId member.userId))) actorId member.userId :=
    ⟨⟨actorId, member.id⟩, by simp, rfl, hmember⟩
  refine ⟨⟨?_, ?_, fun actorId' userId' row hrow hflag => ?_⟩, handLevel_of_byHand (byHand_claimed _), hholds, ?_⟩
  · rw [Database.claims_setPermission, Database.claims_addClaim, List.map_append, List.map_singleton, List.nodup_append]
    exact ⟨hsound.actors, by simp, by simpa using fun claim hclaim => (hfree claim hclaim).1⟩
  · rw [Database.claims_setPermission, Database.claims_addClaim, List.map_append, List.map_singleton, List.nodup_append]
    exact ⟨hsound.members, by simp, by simpa using fun claim hclaim => (hfree claim hclaim).2⟩
  · rw [Database.permissions_setPermission] at hrow
    split_ifs at hrow with hsame
    · rw [hsame.1, hsame.2]
      exact hholds
    · obtain ⟨claim, hclaim, hactor, huser⟩ := hsound.flagged actorId' userId' row hrow hflag
      exact ⟨claim, List.mem_append_left _ hclaim, hactor, huser⟩
  · rw [Actors.grantedLevel, Database.permissions_setPermission, if_pos ⟨rfl, rfl⟩]
    exact rank_claimed _

/-- Claims have been deleted, and with each the access it gave. -/
structure Released (table : Table) (released : ActorClaim → Bool) (db db' : Database) : Prop where
  claims : db'.claims = db.claims.filter (!released ·)
  hand : handLevel db' = handLevel db
  kept : ∀ actorId userId row, db'.permissions actorId userId = some row → db.permissions actorId userId = some row
  revoked : ∀ claim ∈ db.claims, released claim = true → ∀ userId, table.userOf claim.worldMemberId = some userId →
    ∀ row, db'.permissions claim.actorId userId = some row → row.grantedByClaim = false

theorem Released.sound {released : ActorClaim → Bool} (h : Released table released db db')
    (hsound : AccessSound table db) : AccessSound table db' where
  actors := by
    rw [h.claims]
    exact (List.filter_sublist.map _).nodup hsound.actors
  members := by
    rw [h.claims]
    exact (List.filter_sublist.map _).nodup hsound.members
  flagged actorId userId row hrow hflag := by
    obtain ⟨claim, hclaim, rfl, huser⟩ := hsound.flagged actorId userId row (h.kept _ _ row hrow) hflag
    cases hreleased : released claim with
    | true =>
        rw [h.revoked claim hclaim hreleased userId huser row hrow] at hflag
        cases hflag
    | false => exact ⟨claim, by simp [h.claims, hclaim, hreleased], rfl, huser⟩

theorem byHand_byHand (row : Option ActorPermission) : byHand (byHand row) = byHand row := by
  rw [byHand, byHand, Option.filter_filter]
  simp

theorem byHand_eq_some {row : Option ActorPermission} {permission : ActorPermission} :
    byHand row = some permission ↔ row = some permission ∧ permission.grantedByClaim = false := by
  simp [byHand, Option.filter_eq_some_iff]

/-- The loop that takes back the access the claims gave. -/
theorem released_of_forEach {released : ActorClaim → Bool} {f : ActorClaim → Query ClaimError Unit} {u : Unit}
    (hround : ∀ claim, released claim = true → ∀ s s' v, (f claim).exec s = .ok (v, s') →
      ∃ userId, table.userOf claim.worldMemberId = some userId ∧
        s' = s.setPermission claim.actorId userId (byHand (s.permissions claim.actorId userId)))
    (h : (Transaction.forEach f (db.claims.filter released)).exec
      { db with claims := db.claims.filter (!released ·) } = .ok (u, db')) : Released table released db db' := by
  have hloop := Transaction.exec_forEach_mem (I := fun done s => s.claims = db.claims.filter (!released ·) ∧
    handLevel s = handLevel db ∧
    (∀ actorId userId row, s.permissions actorId userId = some row → db.permissions actorId userId = some row) ∧
    ∀ claim ∈ done, ∀ userId, table.userOf claim.worldMemberId = some userId →
      ∀ row, s.permissions claim.actorId userId = some row → row.grantedByClaim = false)
    (fun done x s v s' hx hbefore hexec => ?_) h ⟨rfl, rfl, fun _ _ _ h => h, by simp⟩
  · obtain ⟨hclaims, hhand, hkept, hrevoked⟩ := hloop
    exact ⟨hclaims, hhand, hkept, fun claim hclaim hreleased => hrevoked claim (by simp [hclaim, hreleased])⟩
  · obtain ⟨hclaims, hhand, hkept, hrevoked⟩ := hbefore
    obtain ⟨userId, huser, rfl⟩ := hround x (List.mem_filter.mp hx).2 s s' v hexec
    have hrow {actorId' userId' : Uuid} {row : ActorPermission}
        (h : (s.setPermission x.actorId userId (byHand (s.permissions x.actorId userId))).permissions actorId' userId' =
          some row) : s.permissions actorId' userId' = some row ∧
            ((actorId' = x.actorId ∧ userId' = userId) → row.grantedByClaim = false) := by
      rw [Database.permissions_setPermission] at h
      split_ifs at h with hsame
      · obtain ⟨hold, hflag⟩ := byHand_eq_some.mp h
        exact ⟨by rwa [hsame.1, hsame.2], fun _ => hflag⟩
      · exact ⟨h, fun h => absurd h hsame⟩
    refine ⟨hclaims, ?_, fun actorId' userId' row h => hkept _ _ row (hrow h).1, fun claim hclaim userId' huser' row h => ?_⟩
    · rw [handLevel_of_byHand, hhand]
      rw [byHand_byHand]
      rfl
    · rcases List.mem_append.mp hclaim with hdone | hnow
      · exact hrevoked claim hdone userId' huser' row (hrow h).1
      · obtain rfl := List.mem_singleton.mp hnow
        exact (hrow h).2 ⟨rfl, Option.some.inj (huser'.symm.trans huser)⟩

theorem exec_requireNoExistingClaim {worldId userId : Uuid} {member : WorldMember}
    (h : (requireNoExistingClaim table worldId userId).exec db = .ok (member, db')) :
    db = db' ∧ member ∈ table.members ∧ member.userId = userId := by
  obtain ⟨member', hfound, hrest⟩ := exec_getOr_bind_eq_ok.mp h
  obtain ⟨-, hrest⟩ := exec_require_bind_eq_ok.mp hrest
  rw [exec_read_bind] at hrest
  obtain ⟨-, hdone⟩ := exec_require_bind_eq_ok.mp hrest
  obtain ⟨rfl, rfl⟩ := Prod.mk.inj (Except.ok.inj hdone)
  have huser := List.find?_some hfound
  simp only [Bool.and_eq_true, decide_eq_true_eq] at huser
  exact ⟨rfl, List.mem_of_find?_eq_some hfound, huser.2⟩

/-- A membership belongs to its user. -/
theorem Table.userOf_id (table : Table) {member : WorldMember} (h : member ∈ table.members) :
    table.userOf member.id = some member.userId := by
  unfold Table.userOf
  have hfound : table.members.find? (fun other => other.id = member.id) = some member := by
    obtain ⟨other, hother⟩ := Option.isSome_iff_exists.mp
      (List.find?_isSome.mpr ⟨member, h, by simp⟩ : (table.members.find? (fun other => other.id = member.id)).isSome)
    have hid : other.id = member.id := by simpa using List.find?_some hother
    rw [hother, List.inj_on_of_nodup_map table.memberIds (List.mem_of_find?_eq_some hother) h hid]
  rw [hfound]
  rfl

theorem exec_loadActor_bind {ε α : Type} {actorId : Uuid} {error : ε} {f : WorldActor → Query ε α}
    {r : α × Database} (h : (loadActor actorId error >>= f).exec db = .ok r) :
    ∃ actor, db.actors actorId = some actor ∧ (f actor).exec db = .ok r := by
  obtain ⟨b, db'⟩ := r
  obtain ⟨actor, db₁, hload, hrest⟩ := exec_bind_eq_ok.mp h
  unfold loadActor at hload
  rw [exec_read_bind] at hload
  cases hrow : db.actors actorId with
  | none =>
      rw [hrow] at hload
      cases hload
  | some row =>
      rw [hrow] at hload
      obtain ⟨rfl, rfl⟩ := Prod.mk.inj (Except.ok.inj hload)
      exact ⟨_, rfl, hrest⟩

theorem claimActor_bound {userId worldId actorId : Uuid} {answer : Answer} (hsound : AccessSound table db)
    (h : (claimActor table userId worldId actorId).exec db = .ok (answer, db')) :
    Bound table actorId userId db db' := by
  unfold claimActor at h
  obtain ⟨member, db₁, hmember, h⟩ := exec_bind_eq_ok.mp (exec_mapError_eq_ok.mp h)
  obtain ⟨rfl, hmem, rfl⟩ := exec_requireNoExistingClaim hmember
  obtain ⟨-, h⟩ := exec_require_bind_eq_ok.mp h
  obtain ⟨actor, -, h⟩ := exec_loadActor_bind h
  obtain ⟨-, h⟩ := exec_require_bind_eq_ok.mp h
  obtain ⟨-, h⟩ := exec_require_bind_eq_ok.mp h
  obtain ⟨claim, db₂, hbind, hdone⟩ := exec_bind_eq_ok.mp h
  obtain ⟨-, rfl⟩ := Prod.mk.inj (Except.ok.inj hdone)
  exact bound_of_exec hsound (table.userOf_id hmem) hbind

/-- Actors play no part in claims and access. -/
theorem AccessSound.actors_eq {actors : Uuid → Option WorldActor} (h : AccessSound table db) :
    AccessSound table { db with actors } := ⟨h.actors, h.members, h.flagged⟩

theorem createAndClaimActor_bound {actorId userId worldId : Uuid} {name : String} {description : Option String}
    {answer : Answer} (hsound : AccessSound table db)
    (h : (createAndClaimActor table actorId userId worldId name description).exec db = .ok (answer, db')) :
    Bound table actorId userId db db' := by
  unfold createAndClaimActor at h
  obtain ⟨-, h⟩ := exec_require_bind_eq_ok.mp h
  obtain ⟨member, db₁, hmember, h⟩ := exec_bind_eq_ok.mp (exec_mapError_eq_ok.mp h)
  obtain ⟨rfl, hmem, rfl⟩ := exec_requireNoExistingClaim hmember
  obtain ⟨-, h⟩ := exec_require_bind_eq_ok.mp h
  obtain ⟨world, -, h⟩ := exec_getOr_bind_eq_ok.mp h
  obtain ⟨-, h⟩ := exec_require_bind_eq_ok.mp h
  obtain ⟨sceneId, -, h⟩ := exec_getOr_bind_eq_ok.mp h
  obtain ⟨u, db₁, hinsert, h⟩ := exec_bind_eq_ok.mp h
  obtain ⟨-, rfl⟩ := exec_write_eq_ok.mp hinsert
  obtain ⟨u, db₂, hflag, h⟩ := exec_bind_eq_ok.mp h
  obtain ⟨-, rfl⟩ := exec_write_eq_ok.mp hflag
  obtain ⟨claim, db₃, hbind, hdone⟩ := exec_bind_eq_ok.mp h
  obtain ⟨-, rfl⟩ := Prod.mk.inj (Except.ok.inj hdone)
  have hbound := bound_of_exec hsound.actors_eq.actors_eq (table.userOf_id hmem) hbind
  exact ⟨hbound.sound, hbound.hand, hbound.holds, hbound.editor⟩

/-- A call has left claims and access sound, and what was set by hand. -/
structure Kept (table : Table) (db db' : Database) : Prop where
  sound : AccessSound table db'
  hand : handLevel db' = handLevel db

theorem Released.kept' {released : ActorClaim → Bool} (h : Released table released db db')
    (hsound : AccessSound table db) : Kept table db db' := ⟨h.sound hsound, h.hand⟩

theorem readOnly_loadActor {ε : Type} (actorId : Uuid) (error : ε) : ReadOnly (loadActor actorId error) :=
  (ReadOnly.read _).bind fun row => .getOr row error

theorem readOnly_requireActorPermission (caller : Caller) (actorId : Uuid) (minimum : ActorPermissionLevel) :
    ReadOnly (requireActorPermission table caller actorId minimum) := by
  have heffective : ReadOnly (effectiveActorPermission table caller actorId) := by
    refine (readOnly_loadActor actorId _).bind fun actor => ?_
    split_ifs
    · exact .pure _
    · exact .read _
  exact heffective.bind fun level => .require _ _

theorem readOnly_refuseContentIfPaused (actorId : Uuid) : ReadOnly (refuseContentIfPaused table actorId) :=
  (ReadOnly.read _).bind fun _ => .require _ _

theorem readOnly_requireDmOfActorsWorld (caller : Caller) (actorId : Uuid) :
    ReadOnly (requireDmOfActorsWorld table caller actorId) :=
  (readOnly_loadActor actorId _).bind fun _ => (ReadOnly.require _ _).bind fun _ => .pure _

theorem unclaimActor_kept {caller : Caller} {actorId : Uuid} {expected : Option Uuid} {answer : Answer}
    (hsound : AccessSound table db)
    (h : (unclaimActor table caller actorId expected).exec db = .ok (answer, db')) : Kept table db db' := by
  unfold unclaimActor at h
  obtain ⟨u, db₁, hpermission, h⟩ := exec_bind_eq_ok.mp h
  obtain rfl := readOnly_requireActorPermission caller actorId .owner db u db₁ hpermission
  obtain ⟨u, db₁, hpause, h⟩ := exec_bind_eq_ok.mp h
  obtain rfl := readOnly_refuseContentIfPaused actorId db u db₁ hpause
  obtain ⟨released, db₁, hdelete, h⟩ := exec_bind_eq_ok.mp (exec_mapError_eq_ok.mp h)
  obtain ⟨hreleased, rfl⟩ := exec_write_eq_ok.mp hdelete
  obtain rfl := Except.ok.inj hreleased
  obtain ⟨-, h⟩ := exec_require_bind_eq_ok.mp h
  obtain ⟨u, db₂, hloop, h⟩ := exec_bind_eq_ok.mp h
  obtain ⟨actor, -, hdone⟩ := exec_loadActor_bind h
  obtain ⟨-, rfl⟩ := Prod.mk.inj (Except.ok.inj hdone)
  refine (released_of_forEach (fun claim hclaim s s' v hround => ?_) hloop).kept' hsound
  obtain ⟨holderId, hholder, hrevoke⟩ := exec_getOr_bind_eq_ok.mp hround
  rw [Bool.and_eq_true, decide_eq_true_eq] at hclaim
  rw [hclaim.1]
  exact ⟨holderId, hholder, exec_updatePermission hrevoke⟩

theorem setPlayerCharacterBinding_kept {caller : Caller} {worldId worldMemberId : Uuid} {actorId : Option Uuid}
    {answer : Answer} (hsound : AccessSound table db)
    (h : (setPlayerCharacterBinding table caller worldId worldMemberId actorId).exec db = .ok (answer, db')) :
    Kept table db db' ∧ ∀ actor, actorId = some actor → ∀ user, table.userOf worldMemberId = some user →
      Bound table actor user db db' := by
  unfold setPlayerCharacterBinding at h
  obtain ⟨-, h⟩ := exec_require_bind_eq_ok.mp h
  obtain ⟨-, h⟩ := exec_require_bind_eq_ok.mp h
  obtain ⟨member, hmember, h⟩ := exec_getOr_bind_eq_ok.mp (exec_mapError_eq_ok.mp h)
  have huser : table.userOf member.id = some member.userId := table.userOf_id (List.mem_of_find?_eq_some hmember)
  have hid : member.id = worldMemberId := by
    have hfound := List.find?_some hmember
    rw [Bool.and_eq_true, decide_eq_true_eq] at hfound
    exact hfound.1
  obtain ⟨released, db₁, hdelete, h⟩ := exec_bind_eq_ok.mp h
  obtain ⟨hreleased, rfl⟩ := exec_write_eq_ok.mp hdelete
  obtain rfl := Except.ok.inj hreleased
  obtain ⟨u, db₂, hloop, h⟩ := exec_bind_eq_ok.mp h
  have hkept : Kept table db db₂ := by
    refine (released_of_forEach (fun claim hclaim s s' v hround => ?_) hloop).kept' hsound
    rw [decide_eq_true_eq] at hclaim
    rw [hclaim]
    exact ⟨member.userId, huser, exec_updatePermission hround⟩
  cases actorId with
  | none =>
      obtain ⟨-, rfl⟩ := Prod.mk.inj (Except.ok.inj h)
      exact ⟨hkept, fun actor hactor => by cases hactor⟩
  | some actorId =>
      obtain ⟨actor, -, h⟩ := exec_loadActor_bind h
      obtain ⟨-, h⟩ := exec_require_bind_eq_ok.mp h
      obtain ⟨-, h⟩ := exec_require_bind_eq_ok.mp h
      obtain ⟨claim, db₃, hbind, hdone⟩ := exec_bind_eq_ok.mp h
      obtain ⟨-, rfl⟩ := Prod.mk.inj (Except.ok.inj hdone)
      have hbound := bound_of_exec hkept.sound huser hbind
      refine ⟨⟨hbound.sound, hbound.hand.trans hkept.hand⟩, fun actor' hactor' user huser' => ?_⟩
      obtain rfl := Option.some.inj hactor'
      rw [← hid, huser] at huser'
      obtain rfl := Option.some.inj huser'
      exact ⟨hbound.sound, hbound.hand.trans hkept.hand, hbound.holds, hbound.editor⟩

/-- A row that is not the claim's replaces what was there. -/
theorem AccessSound.setPermission {actorId userId : Uuid} {row : Option ActorPermission}
    (h : AccessSound table db) (hrow : byHand row = row) : AccessSound table (db.setPermission actorId userId row) where
  actors := h.actors
  members := h.members
  flagged actorId' userId' permission hpermission hflag := by
    rw [Database.permissions_setPermission] at hpermission
    split_ifs at hpermission
    · rw [(byHand_eq_some.mp (hrow.trans hpermission)).2] at hflag
      cases hflag
    · exact h.flagged actorId' userId' permission hpermission hflag

theorem exec_setActorPermission {caller : Caller} {input : SetActorPermissionInput} {answer : Answer}
    (h : (setActorPermission table caller input).exec db = .ok (answer, db')) :
    db' = db.setPermission input.actorId input.userId (some ⟨input.level, false⟩) := by
  obtain ⟨worldId, db₁, hgate, h⟩ := exec_bind_eq_ok.mp h
  obtain rfl := readOnly_requireDmOfActorsWorld caller input.actorId db worldId db₁ hgate
  obtain ⟨-, h⟩ := exec_require_bind_eq_ok.mp h
  obtain ⟨-, h⟩ := exec_require_bind_eq_ok.mp h
  obtain ⟨u, db₁, hset, hdone⟩ := exec_bind_eq_ok.mp h
  obtain ⟨-, rfl⟩ := Prod.mk.inj (Except.ok.inj hdone)
  exact exec_updatePermission hset

theorem exec_removeActorPermission {caller : Caller} {actorId userId : Uuid} {answer : Answer}
    (h : (removeActorPermission table caller actorId userId).exec db = .ok (answer, db')) :
    db' = db.setPermission actorId userId none := by
  obtain ⟨worldId, db₁, hgate, h⟩ := exec_bind_eq_ok.mp h
  obtain rfl := readOnly_requireDmOfActorsWorld caller actorId db worldId db₁ hgate
  obtain ⟨-, h⟩ := exec_require_bind_eq_ok.mp h
  rw [exec_read_bind] at h
  obtain ⟨u, db₁, hset, hdone⟩ := exec_bind_eq_ok.mp h
  obtain ⟨-, rfl⟩ := Prod.mk.inj (Except.ok.inj hdone)
  exact exec_updatePermission hset

end

/-- The levels set by hand after a call that was not refused. -/
def Operation.setByHand (operation : Operation) (hand : Uuid → Uuid → ActorPermissionLevel) :
    Uuid → Uuid → ActorPermissionLevel :=
  let put (actorId userId : Uuid) (level : ActorPermissionLevel) (actorId' userId' : Uuid) :=
    if actorId' = actorId ∧ userId' = userId then level else hand actorId' userId'
  match operation with
  | setActorPermission _ input => put input.actorId input.userId input.level
  | removeActorPermission _ actorId userId => put actorId userId .viewer
  | claimActor .. | createAndClaimActor .. | unclaimActor .. | setPlayerCharacterBinding .. => hand

/-- What was last set by hand, in calls that were not refused. -/
def lastSetByHand (table : Table) : Database → (Uuid → Uuid → ActorPermissionLevel) → List Operation →
    Uuid → Uuid → ActorPermissionLevel
  | _, hand, [] => hand
  | db, hand, operation :: operations =>
    lastSetByHand table (step table db operation)
      (if ((operation.query table).landed db).isSome then operation.setByHand hand else hand) operations

/-- The call, unless it is refused, makes this user the player of this actor. -/
def Operation.Claims (table : Table) (operation : Operation) (actorId userId : Uuid) : Prop :=
  match operation with
  | claimActor userId' _ actorId' => actorId' = actorId ∧ userId' = userId
  | createAndClaimActor actorId' userId' _ _ _ => actorId' = actorId ∧ userId' = userId
  | setPlayerCharacterBinding _ _ worldMemberId actorId' =>
    actorId' = some actorId ∧ table.userOf worldMemberId = some userId
  | unclaimActor .. | setActorPermission .. | removeActorPermission .. => False

section

variable {table : Table} {db db' : Database}

/-- What a call that is not refused has done. -/
structure Done (table : Table) (operation : Operation) (db db' : Database) : Prop where
  sound : AccessSound table db'
  hand : handLevel db' = operation.setByHand (handLevel db)
  bound : ∀ actorId userId, operation.Claims table actorId userId → HoldsClaim table db' actorId userId ∧
    ActorPermissionLevel.editor.rank ≤ (grantedLevel db' actorId userId).rank

theorem Operation.done {operation : Operation} {answer : Answer} (hsound : AccessSound table db)
    (h : (operation.query table).exec db = .ok (answer, db')) : Done table operation db db' := by
  cases operation with
  | claimActor userId worldId actorId =>
      have hbound := claimActor_bound hsound h
      refine ⟨hbound.sound, hbound.hand, ?_⟩
      rintro _ _ ⟨rfl, rfl⟩
      exact ⟨hbound.holds, hbound.editor⟩
  | createAndClaimActor actorId userId worldId name description =>
      have hbound := createAndClaimActor_bound hsound h
      refine ⟨hbound.sound, hbound.hand, ?_⟩
      rintro _ _ ⟨rfl, rfl⟩
      exact ⟨hbound.holds, hbound.editor⟩
  | unclaimActor caller actorId expected =>
      have hkept := unclaimActor_kept hsound h
      exact ⟨hkept.sound, hkept.hand, fun _ _ hclaims => hclaims.elim⟩
  | setPlayerCharacterBinding caller worldId worldMemberId actorId =>
      obtain ⟨hkept, hbinds⟩ := setPlayerCharacterBinding_kept hsound h
      refine ⟨hkept.sound, hkept.hand, ?_⟩
      rintro actorId userId ⟨hactor, huser⟩
      have hbound := hbinds actorId hactor userId huser
      exact ⟨hbound.holds, hbound.editor⟩
  | setActorPermission caller input =>
      obtain rfl := exec_setActorPermission h
      refine ⟨hsound.setPermission rfl, ?_, fun _ _ hclaims => hclaims.elim⟩
      funext actorId userId
      exact handLevel_setPermission ..
  | removeActorPermission caller actorId userId =>
      obtain rfl := exec_removeActorPermission h
      refine ⟨hsound.setPermission rfl, ?_, fun _ _ hclaims => hclaims.elim⟩
      funext actorId userId
      exact handLevel_setPermission ..

theorem step_of_landed {operation : Operation} (h : (operation.query table).landed db = some db') :
    step table db operation = db' := by
  rw [step, h]
  rfl

theorem AccessSound.step (hsound : AccessSound table db) (operation : Operation) :
    AccessSound table (step table db operation) ∧
      handLevel (Actors.step table db operation) =
        if ((operation.query table).landed db).isSome then operation.setByHand (handLevel db) else handLevel db := by
  cases hlanded : (operation.query table).landed db with
  | none =>
      rw [Actors.step, hlanded]
      exact ⟨hsound, rfl⟩
  | some db' =>
      obtain ⟨answer, hexec⟩ := landed_eq_some.mp hlanded
      have hdone := operation.done hsound hexec
      rw [step_of_landed hlanded]
      exact ⟨hdone.sound, hdone.hand⟩

theorem AccessSound.run (hsound : AccessSound table db) (operations : List Operation) :
    AccessSound table (Run.run (Actors.step table) db operations) :=
  Run.invariant (fun _ operation h => (h.step operation).1) hsound operations

/-- The levels set by hand in a state are those last set by hand. -/
theorem handLevel_run (hsound : AccessSound table db) (operations : List Operation) :
    handLevel (Run.run (step table) db operations) = lastSetByHand table db (handLevel db) operations := by
  induction operations generalizing db with
  | nil => rfl
  | cons operation operations ih =>
      obtain ⟨hnext, hhand⟩ := hsound.step operation
      rw [Run.run_cons, ih hnext, lastSetByHand, hhand]

end

/-- After the calls, refused or not, claims are one to one and access given by a claim goes with it; a user
just made the player of an actor can edit it, and who does not play it has on it what was last set by hand. -/
structure AccessFollowsClaim (table : Table) (first : Database) (operations : List Operation) : Prop where
  sound : AccessSound table (Run.run (step table) first operations)
  editor : ∀ earlier last, operations = earlier ++ [last] → ∀ actorId userId, last.Claims table actorId userId →
    ((last.query table).landed (Run.run (step table) first earlier)).isSome →
      HoldsClaim table (Run.run (step table) first operations) actorId userId ∧
        ActorPermissionLevel.editor.rank ≤ (grantedLevel (Run.run (step table) first operations) actorId userId).rank
  level : ∀ actorId userId, ¬HoldsClaim table (Run.run (step table) first operations) actorId userId →
    grantedLevel (Run.run (step table) first operations) actorId userId =
      lastSetByHand table first (handLevel first) operations actorId userId

theorem access_follows_claim (table : Table) {first : Database} (hfirst : AccessSound table first)
    (operations : List Operation) : AccessFollowsClaim table first operations := by
  refine ⟨hfirst.run operations, ?_, fun actorId userId hnone => ?_⟩
  · rintro earlier last rfl actorId userId hclaims hlands
    obtain ⟨db', hlanded⟩ := Option.isSome_iff_exists.mp hlands
    obtain ⟨answer, hexec⟩ := landed_eq_some.mp hlanded
    rw [Run.run_concat, step_of_landed hlanded]
    exact (last.done (hfirst.run earlier) hexec).bound actorId userId hclaims
  · rw [(hfirst.run operations).grantedLevel hnone, handLevel_run hfirst]

/-- A world with a Game Master, a player, and a character to claim. -/
def tavern : Table where
  members := [⟨10, 0, 100, "GM"⟩, ⟨11, 0, 101, "Player"⟩]
  memberIds := by decide
  worlds worldId := if worldId = 0 then some ⟨100, true, none, some 5, false⟩ else none
  userExists _ := true

def unclaimed : Database where
  actors actorId := if actorId = 1 then some
    { worldId := 0, sceneId := 5, actorType := "character", gameSystemId := none, label := "Mire", createdBy := 100
      ownedBy := 100, isPublic := false, isNpc := false, description := none, visibleToPlayers := false
      isUnique := false, availableForClaim := true }
    else none
  claims := []
  permissions _ _ := none

/-- The player is made a Viewer by hand, claims the character, and is released. -/
def claimAndRelease : List Operation :=
  [.setActorPermission ⟨100, false⟩ ⟨1, 101, .viewer⟩, .claimActor 101 0 1, .unclaimActor ⟨100, false⟩ 1 (some 11)]

theorem unclaimed_sound : AccessSound tavern unclaimed where
  actors := List.nodup_nil
  members := List.nodup_nil
  flagged _ _ _ hrow := by cases hrow

theorem claimed_and_released : AccessFollowsClaim tavern unclaimed claimAndRelease :=
  access_follows_claim tavern unclaimed_sound claimAndRelease

example : grantedLevel (Run.run (step tavern) unclaimed (claimAndRelease.take 2)) 1 101 = .editor := by decide +kernel

example : grantedLevel (Run.run (step tavern) unclaimed claimAndRelease) 1 101 = .viewer := by decide +kernel

end ThunderForge.Actors
