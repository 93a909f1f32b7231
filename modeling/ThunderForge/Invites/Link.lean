import ThunderForge.Actors.Claim
import ThunderForge.Lib.ReadCommitted

/-! Joining a world by an access link, and revoking and rotating links, statement by statement
(`mutations_invites.rs`). World events and the ids and timestamps of memberships are left out. -/

namespace ThunderForge.Invites

open ReadCommitted Actors

/-- A row of `world_invites`; times are in microseconds. -/
structure WorldInvite where
  worldId : Uuid
  inviteCode : String
  maxUses : Option Nat
  usedCount : Nat
  expiresAt : Option Int
  createdBy : Uuid
  createdAt : Int
  updatedAt : Int
  revoked : Bool
  rotatedFrom : Option Uuid
  deriving DecidableEq

structure WorldMember where
  role : String
  deriving DecidableEq

structure World where
  createdBy : Uuid
  paused : Bool
  deriving DecidableEq

/-- The rows; links by their id and by their code, members by world and user. -/
inductive Key where
  | invite (id : Uuid)
  | code (code : String)
  | member (worldId userId : Uuid)
  | world (id : Uuid)
  deriving DecidableEq

abbrev Key.Row : Key → Type
  | .invite _ => Option WorldInvite
  | .code _ => Option Uuid
  | .member _ _ => Option WorldMember
  | .world _ => Option World

abbrev Database := Rows Key.Row

/-- What a call that succeeds answers, with the link it is about. -/
inductive Answer where
  | joined (inviteId worldId userId : Uuid)
  | revoked (inviteId : Uuid)
  | rotated (inviteId replacementId : Uuid)
  deriving DecidableEq

abbrev Program (α : Type) := Call Key.Row Empty GraphQLError α

/-- Whether a link works right now, and if not, why. -/
inductive WorldAccessLinkState where
  | active
  | expired
  | exhausted
  | revoked
  deriving DecidableEq

def deriveLinkState (now : Int) (invite : WorldInvite) : WorldAccessLinkState :=
  if invite.revoked then .revoked
  else if invite.expiresAt.any fun expiresAt => now ≥ expiresAt then .expired
  else if invite.maxUses.any fun maxUses => invite.usedCount ≥ maxUses then .exhausted
  else .active

def linkUnknownMessage : String := "There is no world behind this link. Check it was copied whole."

/-- Why a link admitted no one. -/
def linkRefusal : Option WorldAccessLinkState → GraphQLError
  | none => ⟨linkUnknownMessage, some "LINK_UNKNOWN"⟩
  | some .revoked => ⟨"The GM has withdrawn this link. Ask them for a new one.", some "LINK_REVOKED"⟩
  | some .expired => ⟨"This link has expired. Ask your GM for a new one.", some "LINK_EXPIRED"⟩
  | some .exhausted | some .active =>
    ⟨"This link has already been used. Ask your GM for a new one.", some "LINK_USED_UP"⟩

def alreadyMemberRefusal : GraphQLError := ⟨"You are already a member of this world.", some "ALREADY_MEMBER"⟩

def toAsciiUppercase (c : Char) : Char := if 'a' ≤ c ∧ c ≤ 'z' then Char.ofNat (c.toNat - 32) else c

/-- Reads a code the way it was meant. -/
def normalizeLinkCode (code : String) : String :=
  String.ofList <| (code.toList.filter fun c => !isWhitespace c && c ≠ '-').map fun c =>
    let upper := toAsciiUppercase c
    if upper = 'O' then '0' else if upper = 'I' ∨ upper = 'L' then '1' else upper

/-- The link behind a code. -/
def inviteByCode (db : Database) (code : String) : Option (Uuid × WorldInvite) :=
  (db (.code code)).bind fun id => (db (.invite id)).map (id, ·)

def requireWorldMember (userId worldId : Uuid) : Program (Option String) := do
  let member ← Call.read fun db : Database => db (.member worldId userId)
  match member with
  | some member => pure (some member.role)
  | none => do
    let isCreator ← Call.read fun db : Database => (db (.world worldId)).any fun world => world.createdBy = userId
    pure (if isCreator then some "Owner" else none)

def isMemberOrOwner (userId worldId : Uuid) : Program Bool := do
  let role ← requireWorldMember userId worldId
  pure role.isSome

def refuseIfPaused (worldId : Uuid) : Program Unit := do
  let paused ← Call.read fun db : Database => (db (.world worldId)).any (·.paused)
  Call.require (paused = false) playPaused

/-- A link that admits someone more now. -/
def WorldInvite.usable (now : Int) (invite : WorldInvite) : Bool :=
  !invite.revoked && (invite.expiresAt.all fun expiresAt => expiresAt > now) &&
    invite.maxUses.all fun maxUses => invite.usedCount < maxUses

/-- The usable link behind a code. -/
def usableByCode (code : String) (now : Int) (db : Database) : Option (Uuid × WorldInvite) :=
  (inviteByCode db code).filter fun link => link.2.usable now

/-- A row of `world_invites` with some of its columns set. -/
def setInvite (f : WorldInvite → WorldInvite) : ∀ key : Key, key.Row → key.Row
  | .invite _, row => row.map f
  | .code _, row => row
  | .member _ _, row => row
  | .world _, row => row

def WorldInvite.consumed (now : Int) (invite : WorldInvite) : WorldInvite :=
  { invite with usedCount := invite.usedCount + 1, updatedAt := now }

def WorldInvite.retired (now : Int) (invite : WorldInvite) : WorldInvite :=
  { invite with revoked := true, updatedAt := now }

/-- The guarded count of one more use, answering with the link it was counted on. -/
def consume (code : String) (now : Int) : Program (Option (Uuid × WorldInvite)) :=
  Call.updateFound (fun db => (usableByCode code now db).map fun link => .invite link.1)
    (setInvite (WorldInvite.consumed now)) (usableByCode code now)

structure JoinWorld where
  userId : Uuid
  inviteCode : String
  now : Int
  /-- The time at which a refused call reads the link again. -/
  refusedAt : Int

def databaseError : GraphQLError := ⟨linkUnknownMessage, none⟩

def joinWorldImpl (join : JoinWorld) : Program Answer := do
  let code := normalizeLinkCode join.inviteCode
  let behind ← Call.read fun db : Database => (inviteByCode db code).map fun link => link.2.worldId
  let already ← behind.elim (pure false) (isMemberOrOwner join.userId)
  Call.require (already = false) alreadyMemberRefusal
  let consumed ← consume code join.now
  match consumed with
  | none => do
    let state ← Call.read fun db : Database =>
      (inviteByCode db code).map fun link => deriveLinkState join.refusedAt link.2
    Call.fail (linkRefusal state)
  | some (inviteId, invite) => do
    -- the count is a 32-bit integer, and one more than the largest is an error
    Call.require (invite.usedCount + 1 < 2 ^ 31) databaseError
    let already ← isMemberOrOwner join.userId invite.worldId
    Call.require (already = false) alreadyMemberRefusal
    refuseIfPaused invite.worldId
    let inserted ← Call.updateWhere (ρ := Key.Row) (.member invite.worldId join.userId) (·.isNone)
      fun _ => some { role := "Player" }
    Call.require inserted alreadyMemberRefusal
    pure (.joined inviteId invite.worldId join.userId)

def worldIdOfInvite (inviteId : Uuid) : Program Uuid := do
  let worldId ← Call.read fun db : Database => (db (.invite inviteId)).map (·.worldId)
  Call.getOr worldId ⟨linkUnknownMessage, none⟩

def isDmOfWorld (caller : Caller) (worldId : Uuid) : Program Bool :=
  if caller.isAdmin then pure true
  else do
    let role ← requireWorldMember caller.userId worldId
    pure ((role.bind Role.fromStored).any Role.runsTheWorld)

def requireDmOfWorld (caller : Caller) (worldId : Uuid) : Program Unit := do
  let dm ← isDmOfWorld caller worldId
  Call.require (dm = true) ⟨"Only Owners and GMs can manage this world's invite links", some "FORBIDDEN"⟩

/-- Retire a link permanently. -/
def revokeInviteCodeImpl (caller : Caller) (now : Int) (inviteId : Uuid) : Program Answer := do
  let worldId ← worldIdOfInvite inviteId
  requireDmOfWorld caller worldId
  refuseIfPaused worldId
  let revoked ← Call.updateFound (fun db : Database => (db (.invite inviteId)).map fun _ => .invite inviteId)
    (setInvite (WorldInvite.retired now)) fun db => db (.invite inviteId)
  Call.require revoked.isSome ⟨"Failed to revoke invite: Record not found", none⟩
  pure (.revoked inviteId)

/-- The expiry a rotation's replacement should carry. -/
def rotatedExpiry (retired : WorldInvite) (now : Int) : Option Int :=
  retired.expiresAt.map fun expiresAt =>
    let lifetime := expiresAt - retired.createdAt
    if lifetime > 0 then now + lifetime else expiresAt

structure RotateInvite where
  caller : Caller
  inviteId : Uuid
  now : Int
  replacementId : Uuid
  newCode : String

def RotateInvite.replacement (rotate : RotateInvite) (retired : WorldInvite) : WorldInvite where
  worldId := retired.worldId
  inviteCode := rotate.newCode
  maxUses := retired.maxUses
  usedCount := 0
  expiresAt := rotatedExpiry retired rotate.now
  createdBy := rotate.caller.userId
  createdAt := rotate.now
  updatedAt := rotate.now
  revoked := false
  rotatedFrom := some rotate.inviteId

/-- The insert of a link, whose id and code must both be new. -/
def insertInvite (id : Uuid) (invite : WorldInvite) : Program Bool :=
  Call.insert [.invite id, .code invite.inviteCode]
    (fun db => (db (.invite id)).isNone && (db (.code invite.inviteCode)).isNone)
    fun db => Function.update (β := Key.Row) (Function.update (β := Key.Row) db (.invite id) (some invite))
      (.code invite.inviteCode) (some id)

/-- A link that is not retired yet. -/
def liveInvite (inviteId : Uuid) (db : Database) : Option WorldInvite :=
  (db (.invite inviteId)).filter fun invite => !invite.revoked

/-- Retire a link and issue its replacement in one atomic action. -/
def rotateInviteCodeImpl (rotate : RotateInvite) : Program Answer := do
  let worldId ← worldIdOfInvite rotate.inviteId
  requireDmOfWorld rotate.caller worldId
  refuseIfPaused worldId
  let retired ← Call.updateFound
    (fun db : Database => (liveInvite rotate.inviteId db).map fun _ => .invite rotate.inviteId)
    (setInvite (WorldInvite.retired rotate.now)) (liveInvite rotate.inviteId)
  let retired ← Call.getOr retired
    ⟨"This link has already been revoked and cannot be rotated.", none⟩
  let inserted ← insertInvite rotate.replacementId (rotate.replacement retired)
  Call.require inserted ⟨"Failed to rotate invite: duplicate key value violates unique constraint", none⟩
  pure (.rotated rotate.inviteId rotate.replacementId)

inductive Operation where
  | joinWorld (join : JoinWorld)
  | revokeInviteCode (caller : Caller) (now : Int) (inviteId : Uuid)
  | rotateInviteCode (rotate : RotateInvite)

def Operation.program : Operation → Program Answer
  | joinWorld join => joinWorldImpl join
  | revokeInviteCode caller now inviteId => revokeInviteCodeImpl caller now inviteId
  | rotateInviteCode rotate => rotateInviteCodeImpl rotate

end ThunderForge.Invites
