import ThunderForge.Invites.Link

/-! The uses of access links under any number of joins, revocations and rotations at the same time. A use is
counted on a row that is held to the end of the join, so the counts are those of the commits; and a link is
retired for good, so that nobody joins through it afterwards and it is replaced once. -/

namespace ThunderForge.Invites

open ReadCommitted Actors

/-- Uses are within the caps, and what has been replaced is retired and has one replacement. -/
structure LinksValid (db : Database) : Prop where
  capped : ∀ id invite maxUses, db (.invite id) = some invite → invite.maxUses = some maxUses →
    invite.usedCount ≤ maxUses
  retired : ∀ id invite source, db (.invite id) = some invite → invite.rotatedFrom = some source →
    ∃ old, db (.invite source) = some old ∧ old.revoked = true
  unique : ∀ id invite id' invite' source, db (.invite id) = some invite → db (.invite id') = some invite' →
    invite.rotatedFrom = some source → invite'.rotatedFrom = some source → id = id'

/-- The world is not this user's own. -/
def NotOwner (db : Database) (userId worldId : Uuid) : Prop :=
  ∀ world, db (.world worldId) = some world → world.createdBy ≠ userId

/-- The state after a join. -/
def afterJoin (db : Database) (inviteId worldId userId : Uuid) (invite : WorldInvite) (now : Int)
    (member : WorldMember) : Database :=
  Function.update (β := Key.Row) (Function.update (β := Key.Row) db (.invite inviteId) (some (invite.consumed now)))
    (.member worldId userId) (some member)

/-- The state after a revocation. -/
def afterRevoke (db : Database) (inviteId : Uuid) (invite : WorldInvite) (now : Int) : Database :=
  Function.update (β := Key.Row) db (.invite inviteId) (some (invite.retired now))

/-- The state after a rotation. -/
def afterRotate (db : Database) (rotate : RotateInvite) (invite : WorldInvite) : Database :=
  Function.update (β := Key.Row)
    (Function.update (β := Key.Row) (afterRevoke db rotate.inviteId invite rotate.now)
      (.invite rotate.replacementId) (some (rotate.replacement invite)))
    (.code rotate.newCode) (some rotate.replacementId)

/-- What a call has done by its commit. -/
inductive LinkStep (db : Database) : Answer → Database → Prop where
  | joined {inviteId userId : Uuid} {invite : WorldInvite} (now : Int) (member : WorldMember) :
      db (.invite inviteId) = some invite → invite.usable now = true →
      db (.member invite.worldId userId) = none → NotOwner db userId invite.worldId →
      LinkStep db (.joined inviteId invite.worldId userId)
        (afterJoin db inviteId invite.worldId userId invite now member)
  | revoked {inviteId : Uuid} {invite : WorldInvite} (now : Int) :
      db (.invite inviteId) = some invite → LinkStep db (.revoked inviteId) (afterRevoke db inviteId invite now)
  | rotated {rotate : RotateInvite} {invite : WorldInvite} :
      db (.invite rotate.inviteId) = some invite → invite.revoked = false →
      db (.invite rotate.replacementId) = none →
      LinkStep db (.rotated rotate.inviteId rotate.replacementId) (afterRotate db rotate invite)

section

variable {db db' : Database} {inviteId worldId userId : Uuid} {invite : WorldInvite} {answer : Answer}

@[simp] theorem invite_afterJoin (now : Int) (member : WorldMember) (id : Uuid) :
    afterJoin db inviteId worldId userId invite now member (.invite id) =
      if id = inviteId then some (invite.consumed now) else db (.invite id) := by
  by_cases hid : id = inviteId
  · subst hid
    simp [afterJoin]
  · simp [afterJoin, hid]

@[simp] theorem member_afterJoin (now : Int) (member : WorldMember) (world user : Uuid) :
    afterJoin db inviteId worldId userId invite now member (.member world user) =
      if world = worldId ∧ user = userId then some member else db (.member world user) := by
  by_cases hrow : world = worldId ∧ user = userId
  · obtain ⟨rfl, rfl⟩ := hrow
    simp [afterJoin]
  · rw [afterJoin, Function.update_of_ne (by simpa using hrow), Function.update_of_ne (by simp), if_neg hrow]

@[simp] theorem invite_afterRevoke (now : Int) (id : Uuid) :
    afterRevoke db inviteId invite now (.invite id) =
      if id = inviteId then some (invite.retired now) else db (.invite id) := by
  by_cases hid : id = inviteId
  · subst hid
    simp [afterRevoke]
  · simp [afterRevoke, hid]

@[simp] theorem invite_afterRotate (rotate : RotateInvite) (id : Uuid) :
    afterRotate db rotate invite (.invite id) =
      if id = rotate.replacementId then some (rotate.replacement invite)
      else if id = rotate.inviteId then some (invite.retired rotate.now) else db (.invite id) := by
  by_cases hid : id = rotate.replacementId
  · subst hid
    simp [afterRotate]
  · rw [afterRotate, Function.update_of_ne (by simp), Function.update_of_ne (by simpa using hid), if_neg hid,
      invite_afterRevoke]

@[simp] theorem member_afterRevoke (now : Int) (world user : Uuid) :
    afterRevoke db inviteId invite now (.member world user) = db (.member world user) := by
  simp [afterRevoke]

@[simp] theorem member_afterRotate (rotate : RotateInvite) (world user : Uuid) :
    afterRotate db rotate invite (.member world user) = db (.member world user) := by
  simp [afterRotate]

/-- A step leaves the worlds as they are. -/
theorem LinkStep.world (h : LinkStep db answer db') (id : Uuid) : db' (.world id) = db (.world id) := by
  cases h with
  | joined => simp [afterJoin]
  | revoked => simp [afterRevoke]
  | rotated => simp [afterRotate, afterRevoke]

/-- A link that some step finds stays, with its cap and its lineage, no less used and no less retired. -/
theorem LinkStep.stays (h : LinkStep db answer db') {id : Uuid} {row : WorldInvite}
    (hrow : db (.invite id) = some row) :
    ∃ row', db' (.invite id) = some row' ∧ row'.rotatedFrom = row.rotatedFrom ∧ row'.maxUses = row.maxUses ∧
      (row.revoked = true → row'.revoked = true) := by
  cases h with
  | @joined inviteId userId invite now member hinvite =>
      rw [invite_afterJoin]
      split_ifs with hid
      · rw [hid, hinvite, Option.some.injEq] at hrow
        subst hrow
        exact ⟨_, rfl, rfl, rfl, fun h => h⟩
      · exact ⟨row, hrow, rfl, rfl, fun h => h⟩
  | @revoked inviteId invite now hinvite =>
      rw [invite_afterRevoke]
      split_ifs with hid
      · rw [hid, hinvite, Option.some.injEq] at hrow
        subst hrow
        exact ⟨_, rfl, rfl, rfl, fun _ => rfl⟩
      · exact ⟨row, hrow, rfl, rfl, fun h => h⟩
  | @rotated rotate invite hinvite hlive hnew =>
      rw [invite_afterRotate]
      split_ifs with hreplacement hid
      · rw [hreplacement, hnew] at hrow
        cases hrow
      · rw [hid, hinvite, Option.some.injEq] at hrow
        subst hrow
        exact ⟨_, rfl, rfl, rfl, fun _ => rfl⟩
      · exact ⟨row, hrow, rfl, rfl, fun h => h⟩

/-- A link a step leaves was there before with the same lineage, unless it is a rotation's replacement. -/
theorem LinkStep.came_from (h : LinkStep db answer db') {id : Uuid} {row' : WorldInvite}
    (hrow : db' (.invite id) = some row') :
    (∃ row, db (.invite id) = some row ∧ row'.rotatedFrom = row.rotatedFrom) ∨
      ∃ source old, answer = .rotated source id ∧ row'.rotatedFrom = some source ∧
        db (.invite source) = some old ∧ old.revoked = false := by
  cases h with
  | @joined inviteId userId invite now member hinvite =>
      rw [invite_afterJoin] at hrow
      split_ifs at hrow with hid
      · obtain rfl := Option.some.inj hrow
        exact Or.inl ⟨invite, hid ▸ hinvite, rfl⟩
      · exact Or.inl ⟨row', hrow, rfl⟩
  | @revoked inviteId invite now hinvite =>
      rw [invite_afterRevoke] at hrow
      split_ifs at hrow with hid
      · obtain rfl := Option.some.inj hrow
        exact Or.inl ⟨invite, hid ▸ hinvite, rfl⟩
      · exact Or.inl ⟨row', hrow, rfl⟩
  | @rotated rotate invite hinvite hlive hnew =>
      rw [invite_afterRotate] at hrow
      split_ifs at hrow with hreplacement hid
      · obtain rfl := Option.some.inj hrow
        subst hreplacement
        exact Or.inr ⟨rotate.inviteId, invite, rfl, rfl, hinvite, hlive⟩
      · obtain rfl := Option.some.inj hrow
        exact Or.inl ⟨invite, hid ▸ hinvite, rfl⟩
      · exact Or.inl ⟨row', hrow, rfl⟩

/-- A rotation leaves its link retired. -/
theorem LinkStep.rotated_retired {source : Uuid} {replacement : Uuid}
    (h : LinkStep db (.rotated source replacement) db') :
    ∃ old, db' (.invite source) = some old ∧ old.revoked = true := by
  cases h with
  | @rotated rotate invite hinvite hlive hnew =>
      have hne : rotate.inviteId ≠ rotate.replacementId := by
        intro heq
        rw [heq, hnew] at hinvite
        cases hinvite
      rw [invite_afterRotate, if_neg hne, if_pos rfl]
      exact ⟨_, rfl, rfl⟩

theorem LinkStep.capped (h : LinkStep db answer db') (hvalid : LinksValid db) {id : Uuid}
    {row' : WorldInvite} {maxUses : Nat} (hrow : db' (.invite id) = some row')
    (hmax : row'.maxUses = some maxUses) : row'.usedCount ≤ maxUses := by
  cases h with
  | @joined inviteId userId invite now member hinvite husable =>
      rw [invite_afterJoin] at hrow
      split_ifs at hrow
      · obtain rfl := Option.some.inj hrow
        have hfree : invite.usedCount < maxUses := by
          have hmax' : invite.maxUses = some maxUses := hmax
          simp only [WorldInvite.usable, hmax', Bool.and_eq_true, Option.all_some, decide_eq_true_eq] at husable
          exact husable.2
        exact hfree
      · exact hvalid.capped id row' maxUses hrow hmax
  | @revoked inviteId invite now hinvite =>
      rw [invite_afterRevoke] at hrow
      split_ifs at hrow
      · obtain rfl := Option.some.inj hrow
        exact hvalid.capped inviteId invite maxUses hinvite hmax
      · exact hvalid.capped id row' maxUses hrow hmax
  | @rotated rotate invite hinvite =>
      rw [invite_afterRotate] at hrow
      split_ifs at hrow
      · obtain rfl := Option.some.inj hrow
        exact Nat.zero_le _
      · obtain rfl := Option.some.inj hrow
        exact hvalid.capped rotate.inviteId invite maxUses hinvite hmax
      · exact hvalid.capped id row' maxUses hrow hmax

/-- Each step keeps the links valid. -/
theorem LinkStep.valid (h : LinkStep db answer db') (hvalid : LinksValid db) : LinksValid db' where
  capped _ _ _ hrow hmax := h.capped hvalid hrow hmax
  retired id row source hrow hsource := by
    rcases h.came_from hrow with ⟨before, hbefore, hlineage⟩ | ⟨source', _, rfl, hlineage, _, _⟩
    · obtain ⟨old, hold, hrevoked⟩ := hvalid.retired id before source hbefore (hlineage ▸ hsource)
      obtain ⟨old', hold', -, -, hstays⟩ := h.stays hold
      exact ⟨old', hold', hstays hrevoked⟩
    · rw [hlineage, Option.some.injEq] at hsource
      subst hsource
      exact h.rotated_retired
  unique id row id' row' source hrow hrow' hsource hsource' := by
    -- a replacement is of a link that was not retired, and older ones are of links that were
    have hclash {id id' source : Uuid} {before : WorldInvite} (hanswer : answer = .rotated source id)
        (hbefore : db (.invite id') = some before) (hlineage : before.rotatedFrom = some source)
        {old : WorldInvite} (hold : db (.invite source) = some old) (hlive : old.revoked = false) : False := by
      obtain ⟨old', hold', hrevoked⟩ := hvalid.retired id' before source hbefore hlineage
      rw [hold, Option.some.injEq] at hold'
      rw [← hold', hlive] at hrevoked
      cases hrevoked
    rcases h.came_from hrow with ⟨before, hbefore, hlineage⟩ | ⟨new, old, hanswer, hlineage, hold, hlive⟩
    · rcases h.came_from hrow' with ⟨before', hbefore', hlineage'⟩ | ⟨new, old, hanswer, hlineage', hold, hlive⟩
      · exact hvalid.unique id before id' before' source hbefore hbefore' (hlineage ▸ hsource)
          (hlineage' ▸ hsource')
      · rw [hlineage', Option.some.injEq] at hsource'
        subst hsource'
        exact (hclash hanswer hbefore (hlineage ▸ hsource) hold hlive).elim
    · rw [hlineage, Option.some.injEq] at hsource
      subst hsource
      rcases h.came_from hrow' with ⟨before', hbefore', hlineage'⟩ | ⟨new', old', hanswer', hlineage', -, -⟩
      · exact (hclash hanswer hbefore' (hlineage' ▸ hsource') hold hlive).elim
      · rw [hanswer, Answer.rotated.injEq] at hanswer'
        exact hanswer'.2

/-! What a step does to the count of a link, to its retirement and to the members. -/

def usedOf (inviteId : Uuid) (db : Database) : Nat := (db (.invite inviteId)).elim 0 WorldInvite.usedCount

def retiredOf (inviteId : Uuid) (db : Database) : Bool := (db (.invite inviteId)).any WorldInvite.revoked

def memberOf (worldId userId : Uuid) (db : Database) : Bool := (db (.member worldId userId)).isSome

/-- Whether an answer is that of a join through this link. -/
def Answer.joins (inviteId : Uuid) : Answer → Bool
  | joined inviteId' _ _ => inviteId' = inviteId
  | revoked _ | rotated _ _ => false

/-- Whether an answer is that of a join of this user to this world. -/
def Answer.admits (worldId userId : Uuid) : Answer → Bool
  | joined _ worldId' userId' => decide (worldId' = worldId ∧ userId' = userId)
  | revoked _ | rotated _ _ => false

/-- Whether an answer is that of a revocation or rotation of this link. -/
def Answer.retires (inviteId : Uuid) : Answer → Bool
  | revoked inviteId' | rotated inviteId' _ => inviteId' = inviteId
  | joined _ _ _ => false

theorem LinkStep.usedOf (h : LinkStep db answer db') (inviteId : Uuid) :
    usedOf inviteId db' = usedOf inviteId db + if answer.joins inviteId then 1 else 0 := by
  cases h with
  | @joined inviteId' userId invite now member hinvite =>
      by_cases hid : inviteId = inviteId'
      · subst hid
        simp [Invites.usedOf, Answer.joins, hinvite, WorldInvite.consumed]
      · simp [Invites.usedOf, Answer.joins, hid, Ne.symm hid]
  | @revoked inviteId' invite now hinvite =>
      by_cases hid : inviteId = inviteId'
      · subst hid
        simp [Invites.usedOf, Answer.joins, hinvite, WorldInvite.retired]
      · simp [Invites.usedOf, Answer.joins, hid]
  | @rotated rotate invite hinvite hlive hnew =>
      by_cases hreplacement : inviteId = rotate.replacementId
      · subst hreplacement
        simp [Invites.usedOf, Answer.joins, hnew, RotateInvite.replacement]
      · by_cases hid : inviteId = rotate.inviteId
        · subst hid
          simp [Invites.usedOf, Answer.joins, hreplacement, hinvite, WorldInvite.retired]
        · simp [Invites.usedOf, Answer.joins, hreplacement, hid]

theorem LinkStep.retiredOf (h : LinkStep db answer db') (inviteId : Uuid) :
    retiredOf inviteId db' = (retiredOf inviteId db || answer.retires inviteId) := by
  cases h with
  | @joined inviteId' userId invite now member hinvite =>
      by_cases hid : inviteId = inviteId'
      · subst hid
        simp [Invites.retiredOf, Answer.retires, hinvite, WorldInvite.consumed]
      · simp [Invites.retiredOf, Answer.retires, hid]
  | @revoked inviteId' invite now hinvite =>
      by_cases hid : inviteId = inviteId'
      · subst hid
        simp [Invites.retiredOf, Answer.retires, WorldInvite.retired]
      · simp [Invites.retiredOf, Answer.retires, hid, Ne.symm hid]
  | @rotated rotate invite hinvite hlive hnew =>
      have hne : rotate.inviteId ≠ rotate.replacementId := by
        intro heq
        rw [heq, hnew] at hinvite
        cases hinvite
      by_cases hreplacement : inviteId = rotate.replacementId
      · subst hreplacement
        simp [Invites.retiredOf, Answer.retires, hnew, hne, RotateInvite.replacement]
      · by_cases hid : inviteId = rotate.inviteId
        · subst hid
          simp [Invites.retiredOf, Answer.retires, hreplacement, WorldInvite.retired]
        · simp [Invites.retiredOf, Answer.retires, hreplacement, hid, Ne.symm hid]

theorem LinkStep.memberOf (h : LinkStep db answer db') (worldId userId : Uuid) :
    memberOf worldId userId db' = (memberOf worldId userId db || answer.admits worldId userId) := by
  cases h with
  | @joined inviteId' userId' invite now member hinvite =>
      by_cases hrow : worldId = invite.worldId ∧ userId = userId'
      · obtain ⟨rfl, rfl⟩ := hrow
        simp [Invites.memberOf, Answer.admits]
      · have hother : ¬(invite.worldId = worldId ∧ userId' = userId) := fun h => hrow ⟨h.1.symm, h.2.symm⟩
        simp [Invites.memberOf, Answer.admits, hrow, hother]
  | revoked => simp [Invites.memberOf, Answer.admits]
  | rotated => simp [Invites.memberOf, Answer.admits]

end

/-- The worlds stay as they are, and each commit is a step of the links. -/
def linkDiscipline (n : Nat) : Discipline n Key.Row Answer where
  valid := LinksValid
  rely _ db db' := ∀ id, db' (.world id) = db (.world id)
  post _ writes db answer := LinkStep db answer (overlay writes db)
  refl _ _ _ := rfl
  trans h h' id := (h' id).trans (h id)
  keeps hvalid hpost := hpost.valid hvalid
  guarantees _ _ hpost := hpost.world

section

variable {n : Nat} {α : Type} {post : Writes Key.Row → Database → α → Prop} {writes : Writes Key.Row}
  {db : Database} {userId worldId : Uuid}

/-- An answer that there is no role is right for as long as the worlds stay as they are. -/
theorem requireWorldMember_bind {f : Option String → Program α} (hworld : ∀ id, writes (.world id) = none)
    (h : ∀ db' role, (linkDiscipline n).Later writes db db' → (role = none → NotOwner db' userId worldId) →
      Safe (linkDiscipline n) [] post (f role) writes db') :
    Safe (linkDiscipline n) [] post (requireWorldMember userId worldId >>= f) writes db := by
  unfold requireWorldMember
  rw [bind_assoc]
  refine Safe.read_bind fun db₁ h₁ => ?_
  cases overlay writes db₁ (.member worldId userId) with
  | some member => exact h db₁ (some member.role) h₁ fun hnone => by cases hnone
  | none =>
      simp only [bind_assoc]
      refine Safe.read_bind fun db₂ h₂ => ?_
      rw [overlay_of_none (hworld worldId)]
      cases hcreator : (db₂ (.world worldId)).any fun world => world.createdBy = userId with
      | true => exact h db₂ (some "Owner") (h₁.trans h₂) fun hnone => by cases hnone
      | false =>
          refine h db₂ none (h₁.trans h₂) fun _ world hrow hown => ?_
          simp [hrow, hown] at hcreator

theorem isMemberOrOwner_bind {f : Bool → Program α} (hworld : ∀ id, writes (.world id) = none)
    (h : ∀ db' already, (linkDiscipline n).Later writes db db' →
      (already = false → NotOwner db' userId worldId) → Safe (linkDiscipline n) [] post (f already) writes db') :
    Safe (linkDiscipline n) [] post (isMemberOrOwner userId worldId >>= f) writes db := by
  unfold isMemberOrOwner
  rw [bind_assoc]
  refine requireWorldMember_bind hworld fun db' role hlater hrole => h db' role.isSome hlater fun hnone => ?_
  exact hrole (Option.isNone_iff_eq_none.mp (by simpa using hnone))

theorem refuseIfPaused_bind {f : Unit → Program α}
    (h : ∀ db', (linkDiscipline n).Later writes db db' → Safe (linkDiscipline n) [] post (f ()) writes db') :
    Safe (linkDiscipline n) [] post (refuseIfPaused worldId >>= f) writes db := by
  unfold refuseIfPaused
  rw [bind_assoc]
  exact Safe.read_bind fun db' hlater => Safe.require_bind fun _ => h db' hlater

theorem requireDmOfWorld_bind {caller : Caller} {f : Unit → Program α} (hworld : ∀ id, writes (.world id) = none)
    (hvalid : LinksValid db)
    (h : ∀ db', (linkDiscipline n).Later writes db db' → Safe (linkDiscipline n) [] post (f ()) writes db') :
    Safe (linkDiscipline n) [] post (requireDmOfWorld caller worldId >>= f) writes db := by
  unfold requireDmOfWorld isDmOfWorld
  rw [bind_assoc]
  split_ifs
  · exact Safe.require_bind fun _ => h db (.refl hvalid)
  · rw [bind_assoc]
    exact requireWorldMember_bind hworld fun db' _ hlater _ => Safe.require_bind fun _ => h db' hlater

theorem inviteByCode_eq_some {code : String} {inviteId : Uuid} {invite : WorldInvite}
    (h : inviteByCode db code = some (inviteId, invite)) : db (.invite inviteId) = some invite := by
  obtain ⟨id, -, hlink⟩ := Option.bind_eq_some_iff.mp h
  obtain ⟨row, hrow, heq⟩ := Option.map_eq_some_iff.mp hlink
  obtain ⟨rfl, rfl⟩ := Prod.mk.inj heq
  exact hrow

theorem usableByCode_eq_some {code : String} {now : Int} {inviteId : Uuid} {invite : WorldInvite}
    (h : usableByCode code now db = some (inviteId, invite)) :
    db (.invite inviteId) = some invite ∧ invite.usable now = true := by
  obtain ⟨hlink, husable⟩ := Option.filter_eq_some_iff.mp h
  exact ⟨inviteByCode_eq_some hlink, husable⟩

/-- A call is safe from the start. -/
def SafeProgram (n : Nat) (program : Program Answer) : Prop :=
  ∀ db, LinksValid db → Safe (linkDiscipline n) [] (fun writes db answer => LinkStep db answer (overlay writes db))
    program (fun _ => none) db

/-- Once a use is counted, the join ends with it or is rolled back. -/
theorem consumed_safe {join : JoinWorld} {inviteId : Uuid} {invite : WorldInvite}
    (hinvite : db (.invite inviteId) = some invite) (husable : invite.usable join.now = true) :
    Safe (linkDiscipline n) [] (fun writes db answer => LinkStep db answer (overlay writes db)) (do
      Call.require (invite.usedCount + 1 < 2 ^ 31) databaseError
      let already ← isMemberOrOwner join.userId invite.worldId
      Call.require (already = false) alreadyMemberRefusal
      refuseIfPaused invite.worldId
      let inserted ← Call.updateWhere (ρ := Key.Row) (.member invite.worldId join.userId) (·.isNone)
        fun _ => some { role := "Player" }
      Call.require inserted alreadyMemberRefusal
      pure (Answer.joined inviteId invite.worldId join.userId))
      (Function.update (fun _ => none) (.invite inviteId) (some (some (invite.consumed join.now)))) db := by
  refine Safe.require_bind fun _ => isMemberOrOwner_bind (fun id => by simp) fun db₁ already h₁ howner =>
    Safe.require_bind fun halready => refuseIfPaused_bind fun db₂ h₂ => Safe.updateWhere_bind
      (fun db₃ h₃ hfree => Safe.require_bind fun _ => Safe.pure fun db' hlater => ?_)
      fun db₃ h₃ _ => Safe.require_bind fun hinserted => absurd hinserted (by decide)
  have hafter := h₁.trans (h₂.trans h₃)
  have hrely := hlater.rely
  have hrow : db' (.invite inviteId) = some invite := by
    rw [hlater.held (.invite inviteId) (by simp), hafter.held (.invite inviteId) (by simp), hinvite]
  have hmember : db' (.member invite.worldId join.userId) = none := by
    rw [hlater.held (.member invite.worldId join.userId) (by simp)]
    rw [overlay_of_none (by simp)] at hfree
    exact Option.isNone_iff_eq_none.mp hfree
  have hown : NotOwner db' join.userId invite.worldId := by
    intro world hworld
    refine howner halready world ?_
    rw [← h₂.rely, ← h₃.rely, ← hrely, hworld]
  have hstep := LinkStep.joined join.now { role := "Player" } hrow husable hmember hown
  rw [overlay_update, overlay_update, overlay_none]
  exact hstep

theorem joinWorldImpl_safe (join : JoinWorld) : SafeProgram n (joinWorldImpl join) := by
  intro db hvalid
  unfold joinWorldImpl
  have hworld (id : Uuid) : (fun _ => none : Writes Key.Row) (.world id) = none := rfl
  -- the probe before the transaction only refuses
  have hprobe (behind : Option Uuid) {f : Bool → Program Answer} {db : Database} (hvalid : LinksValid db)
      (h : ∀ db' already, (linkDiscipline n).Later (fun _ => none) db db' →
        Safe (linkDiscipline n) [] (fun writes db answer => LinkStep db answer (overlay writes db)) (f already)
          (fun _ => none) db') :
      Safe (linkDiscipline n) [] (fun writes db answer => LinkStep db answer (overlay writes db))
        (behind.elim (pure false) (isMemberOrOwner join.userId) >>= f) (fun _ => none) db := by
    cases behind with
    | none => exact h db false (.refl hvalid)
    | some worldId => exact isMemberOrOwner_bind hworld fun db' already hlater _ => h db' already hlater
  refine Safe.read_bind fun db₁ h₁ => hprobe _ h₁.valid fun db₂ already h₂ => Safe.require_bind fun _ => ?_
  unfold consume
  refine Safe.updateFound_bind (fun db₃ row h₃ hfound => ?_) fun db₃ h₃ hnone => ?_
  · obtain ⟨⟨inviteId, invite⟩, hlink, rfl⟩ := Option.map_eq_some_iff.mp hfound
    obtain ⟨hinvite, husable⟩ := usableByCode_eq_some hlink
    rw [overlay_none] at hlink hinvite ⊢
    rw [hlink]
    have hwrite : setInvite (WorldInvite.consumed join.now) (.invite inviteId) (db₃ (.invite inviteId)) =
        some (invite.consumed join.now) := by rw [hinvite]; rfl
    rw [hwrite]
    exact consumed_safe hinvite husable
  · rw [Option.map_eq_none_iff] at hnone
    rw [hnone]
    exact Safe.read_bind fun _ _ => trivial

theorem worldIdOfInvite_bind {inviteId : Uuid} {f : Uuid → Program α}
    (h : ∀ db' worldId, (linkDiscipline n).Later writes db db' →
      Safe (linkDiscipline n) [] post (f worldId) writes db') :
    Safe (linkDiscipline n) [] post (worldIdOfInvite inviteId >>= f) writes db := by
  unfold worldIdOfInvite
  rw [bind_assoc]
  exact Safe.read_bind fun db' hlater => Safe.getOr_bind fun worldId _ => h db' worldId hlater

theorem revokeInviteCodeImpl_safe (caller : Caller) (now : Int) (inviteId : Uuid) :
    SafeProgram n (revokeInviteCodeImpl caller now inviteId) := by
  intro db _
  unfold revokeInviteCodeImpl
  refine worldIdOfInvite_bind fun db₁ worldId h₁ => requireDmOfWorld_bind (fun _ => rfl) h₁.valid fun db₂ h₂ =>
    refuseIfPaused_bind fun db₃ h₃ => Safe.updateFound_bind (fun db₄ row h₄ hfound => ?_) fun db₄ h₄ hnone => ?_
  · obtain ⟨invite, hinvite, rfl⟩ := Option.map_eq_some_iff.mp hfound
    rw [overlay_none] at hinvite ⊢
    refine Safe.require_bind fun _ => Safe.pure fun db' hlater => ?_
    have hrow : db' (.invite inviteId) = some invite := by
      rw [hlater.held (.invite inviteId) (by simp), hinvite]
    have hwrite : setInvite (WorldInvite.retired now) (.invite inviteId) (db₄ (.invite inviteId)) =
        some (invite.retired now) := by rw [hinvite]; rfl
    rw [hwrite, overlay_update, overlay_none]
    exact LinkStep.revoked now hrow
  · rw [Option.map_eq_none_iff] at hnone
    exact Safe.require_bind fun hfound => by simp [hnone] at hfound

/-- What a rotation writes. -/
theorem overlay_rotated (rotate : RotateInvite) (invite : WorldInvite) (db view : Database) :
    overlay (record (Function.update (fun _ => none) (.invite rotate.inviteId)
        (some (some (invite.retired rotate.now))))
      [.invite rotate.replacementId, .code rotate.newCode]
      (Function.update (β := Key.Row)
        (Function.update (β := Key.Row) view (.invite rotate.replacementId) (some (rotate.replacement invite)))
        (.code rotate.newCode) (some rotate.replacementId))) db = afterRotate db rotate invite := by
  funext key
  by_cases hcode : key = .code rotate.newCode
  · subst hcode
    rw [overlay_record_of_mem (by simp)]
    simp [afterRotate]
  · by_cases hinvite : key = .invite rotate.replacementId
    · subst hinvite
      rw [overlay_record_of_mem (by simp)]
      simp [afterRotate]
    · rw [overlay_record_of_notMem (by simp [hcode, hinvite]), overlay_update, overlay_none, afterRotate,
        Function.update_of_ne hcode, Function.update_of_ne hinvite, afterRevoke]

theorem rotateInviteCodeImpl_safe (rotate : RotateInvite) : SafeProgram n (rotateInviteCodeImpl rotate) := by
  intro db _
  unfold rotateInviteCodeImpl
  refine worldIdOfInvite_bind fun db₁ worldId h₁ => requireDmOfWorld_bind (fun _ => rfl) h₁.valid fun db₂ h₂ =>
    refuseIfPaused_bind fun db₃ h₃ => Safe.updateFound_bind (fun db₄ row h₄ hfound => ?_) fun db₄ h₄ hnone => ?_
  · obtain ⟨invite, hlive, rfl⟩ := Option.map_eq_some_iff.mp hfound
    obtain ⟨hinvite, hrevoked⟩ := Option.filter_eq_some_iff.mp hlive
    rw [overlay_none] at hlive hinvite ⊢
    have hwrite : setInvite (WorldInvite.retired rotate.now) (.invite rotate.inviteId)
        (db₄ (.invite rotate.inviteId)) = some (invite.retired rotate.now) := by rw [hinvite]; rfl
    rw [hwrite]
    refine Safe.getOr_bind fun retired hretired => ?_
    rw [hlive, Option.some.injEq] at hretired
    subst hretired
    unfold insertInvite
    refine Safe.insert_bind (fun db₅ h₅ hfree => Safe.require_bind fun _ => Safe.pure fun db' hlater => ?_)
      fun db₅ h₅ _ => Safe.require_bind fun hinserted => absurd hinserted (by decide)
    rw [Bool.and_eq_true, Option.isNone_iff_eq_none, overlay_update] at hfree
    have hne : rotate.replacementId ≠ rotate.inviteId := by
      intro heq
      have hclash := hfree.1
      rw [heq, Function.update_self] at hclash
      cases hclash
    rw [Function.update_of_ne (by simpa using hne), overlay_none] at hfree
    have hrow : db' (.invite rotate.inviteId) = some invite := by
      rw [hlater.held (.invite rotate.inviteId) (by rw [record_of_notMem (by simpa using hne.symm)]; simp),
        h₅.held (.invite rotate.inviteId) (by simp), hinvite]
    have hnew : db' (.invite rotate.replacementId) = none := by
      rw [hlater.held (.invite rotate.replacementId) (by rw [record_of_mem (by simp)]; rfl), hfree.1]
    rw [show (rotate.replacement invite).inviteCode = rotate.newCode from rfl, overlay_rotated]
    exact LinkStep.rotated hrow (by simpa using hrevoked) hnew
  · rw [Option.map_eq_none_iff] at hnone
    exact Safe.getOr_bind fun retired hretired => by rw [hnone] at hretired; cases hretired

theorem Operation.safe (operation : Operation) : SafeProgram n operation.program := by
  cases operation with
  | joinWorld join => exact joinWorldImpl_safe join
  | revokeInviteCode caller now inviteId => exact revokeInviteCodeImpl_safe caller now inviteId
  | rotateInviteCode rotate => exact rotateInviteCodeImpl_safe rotate

end

section run

variable {n : Nat} (operations : Fin n → Operation) (first : Database)

/-- The links after some actions. -/
def linksAfter (actions : List (Action n)) : System n Key.Row Empty GraphQLError Answer :=
  Run.run step (System.start (fun i => (operations i).program) first) actions

/-- What links admit, at every moment of a run. -/
structure LinksAdmitTheirUses (actions : List (Action n)) : Prop where
  counted : ∀ inviteId invite, (linksAfter operations first actions).db (.invite inviteId) = some invite →
    invite.usedCount = (linksAfter operations first actions).commits.countP (·.result.joins inviteId) ∧
      ∀ maxUses, invite.maxUses = some maxUses → invite.usedCount ≤ maxUses
  newcomers : ∀ later commit earlier, (linksAfter operations first actions).commits = later ++ commit :: earlier →
    ∀ inviteId worldId userId, commit.result = .joined inviteId worldId userId →
      commit.before (.member worldId userId) = none ∧
        (overlay commit.writes commit.before (.member worldId userId)).isSome ∧
        first (.member worldId userId) = none ∧ NotOwner first userId worldId ∧
        ∀ before ∈ earlier, before.result.admits worldId userId = false
  live : ∀ later commit earlier, (linksAfter operations first actions).commits = later ++ commit :: earlier →
    ∀ inviteId worldId userId, commit.result = .joined inviteId worldId userId →
      ∀ before ∈ earlier, before.result.retires inviteId = false
  replacedOnce : ∀ id invite id' invite' source,
    (linksAfter operations first actions).db (.invite id) = some invite →
    (linksAfter operations first actions).db (.invite id') = some invite' →
      invite.rotatedFrom = some source → invite'.rotatedFrom = some source → id = id'
  replacement : ∀ commit ∈ (linksAfter operations first actions).commits, ∀ inviteId replacementId,
    commit.result = .rotated inviteId replacementId → ∃ old new, commit.before (.invite inviteId) = some old ∧
      overlay commit.writes commit.before (.invite replacementId) = some new ∧
        new.rotatedFrom = some inviteId ∧ new.maxUses = old.maxUses ∧ new.usedCount = 0

/-- Links none of which has been used, where what has been replaced is retired and has one replacement. -/
structure UnusedLinks (db : Database) : Prop where
  valid : LinksValid db
  unused : ∀ id invite, db (.invite id) = some invite → invite.usedCount = 0

variable {operations first} {last : Database} {commits : List (Commit n Key.Row Answer)}

theorem usedOf_history (h : History (linkDiscipline n) first commits last) (inviteId : Uuid) :
    usedOf inviteId last = usedOf inviteId first + commits.countP (·.result.joins inviteId) := by
  have hfold : usedOf inviteId last = commits.foldr
      (fun commit count => count + if commit.result.joins inviteId then 1 else 0) (usedOf inviteId first) :=
    h.foldr fun commit _ hpost => LinkStep.usedOf hpost inviteId
  rw [hfold]
  clear hfold
  induction commits generalizing last with
  | nil => rfl
  | cons commit earlier ih =>
      rw [List.foldr_cons, ih h.1, List.countP_cons]
      omega

theorem or_foldr {γ : Type} (test : γ → Bool) (items : List γ) (b : Bool) :
    items.foldr (fun item seen => seen || test item) b = (b || items.any test) := by
  induction items with
  | nil => simp
  | cons item items ih =>
      rw [List.foldr_cons, ih, List.any_cons]
      cases b <;> cases test item <;> simp

theorem retiredOf_history (h : History (linkDiscipline n) first commits last) (inviteId : Uuid) :
    retiredOf inviteId last = (retiredOf inviteId first || commits.any (·.result.retires inviteId)) := by
  rw [← or_foldr]
  exact h.foldr fun commit _ hpost => LinkStep.retiredOf hpost inviteId

theorem memberOf_history (h : History (linkDiscipline n) first commits last) (worldId userId : Uuid) :
    memberOf worldId userId last =
      (memberOf worldId userId first || commits.any (·.result.admits worldId userId)) := by
  rw [← or_foldr]
  exact h.foldr fun commit _ hpost => LinkStep.memberOf hpost worldId userId

theorem world_history (h : History (linkDiscipline n) first commits last) (worldId : Uuid) :
    last (.world worldId) = first (.world worldId) := by
  induction commits generalizing last with
  | nil => rw [show first = last from h]
  | cons commit earlier ih =>
      obtain ⟨hearlier, -, hpost, rfl⟩ := h
      rw [LinkStep.world hpost worldId, ih hearlier]

/-- What a join finds: a link that is not retired, and no membership of this user, whose world it is not. -/
theorem LinkStep.newcomer {db db' : Database} {inviteId worldId userId : Uuid}
    (h : LinkStep db (.joined inviteId worldId userId) db') :
    Invites.retiredOf inviteId db = false ∧ db (.member worldId userId) = none ∧
      (db' (.member worldId userId)).isSome ∧ NotOwner db userId worldId := by
  cases h with
  | @joined _ _ invite now member hinvite husable hmember hown =>
      refine ⟨?_, hmember, by simp, hown⟩
      rw [WorldInvite.usable, Bool.and_eq_true, Bool.and_eq_true] at husable
      simpa [Invites.retiredOf, hinvite] using husable.1.1

/-- What a rotation finds and leaves. -/
theorem LinkStep.replacement {db db' : Database} {inviteId replacementId : Uuid}
    (h : LinkStep db (.rotated inviteId replacementId) db') :
    ∃ old new, db (.invite inviteId) = some old ∧ db' (.invite replacementId) = some new ∧
      new.rotatedFrom = some inviteId ∧ new.maxUses = old.maxUses ∧ new.usedCount = 0 := by
  cases h with
  | @rotated rotate invite hinvite _ _ =>
      exact ⟨invite, rotate.replacement invite, hinvite, by simp, rfl, rfl, rfl⟩

theorem UnusedLinks.usedOf {db : Database} (h : UnusedLinks db) (inviteId : Uuid) : usedOf inviteId db = 0 := by
  unfold Invites.usedOf
  cases hrow : db (.invite inviteId) with
  | none => rfl
  | some invite => exact h.unused inviteId invite hrow

/-- However the statements of any number of joins, revocations and rotations fall among one another, access
links admit exactly their uses. -/
theorem links_admit_their_uses (operations : Fin n → Operation) (first : Database) (hfirst : UnusedLinks first)
    (actions : List (Action n)) : LinksAdmitTheirUses operations first actions := by
  have hsound : Sound (linkDiscipline n) [] first (linksAfter operations first actions) :=
    Sound.run hfirst.valid (fun i => (operations i).safe first hfirst.valid) (.of_forall relied_nil _ _)
  have hhistory := hsound.history
  constructor
  case counted =>
    intro inviteId invite hinvite
    refine ⟨?_, fun maxUses hmax => hsound.valid.capped inviteId invite maxUses hinvite hmax⟩
    calc
      invite.usedCount = usedOf inviteId (linksAfter operations first actions).db := by
        rw [usedOf, hinvite, Option.elim_some]
      _ = _ := by rw [usedOf_history hhistory, hfirst.usedOf, Nat.zero_add]
  case newcomers =>
    intro later commit earlier hsplit inviteId worldId userId hjoined
    rw [hsplit] at hhistory
    obtain ⟨hearlier, -, hpost⟩ := hhistory.split
    rw [hjoined] at hpost
    obtain ⟨-, hnone, hcreated, hown⟩ := LinkStep.newcomer hpost
    have hmember := memberOf_history hearlier worldId userId
    rw [memberOf, hnone, Option.isSome_none, Eq.comm, Bool.or_eq_false_iff, List.any_eq_false] at hmember
    refine ⟨hnone, hcreated, ?_, fun world hworld => hown world (by rw [world_history hearlier, hworld]),
      fun before hbefore => by simpa using hmember.2 before hbefore⟩
    simpa [memberOf] using hmember.1
  case live =>
    intro later commit earlier hsplit inviteId worldId userId hjoined before hbefore
    rw [hsplit] at hhistory
    obtain ⟨hearlier, -, hpost⟩ := hhistory.split
    rw [hjoined] at hpost
    have hretired := retiredOf_history hearlier inviteId
    rw [(LinkStep.newcomer hpost).1, Eq.comm, Bool.or_eq_false_iff, List.any_eq_false] at hretired
    simpa using hretired.2 before hbefore
  case replacedOnce => exact hsound.valid.unique
  case replacement =>
    intro commit hcommit inviteId replacementId hrotated
    have hpost := (hhistory.of_mem hcommit).2
    rw [hrotated] at hpost
    exact LinkStep.replacement hpost

end run

/-- A world with one access link, good for a single use. -/
def oneUse : Database
  | .invite id =>
    if id = 1 then some
      { worldId := 0, inviteCode := "ABCD", maxUses := some 1, usedCount := 0, expiresAt := none, createdBy := 100
        createdAt := 0, updatedAt := 0, revoked := false, rotatedFrom := none }
    else none
  | .code code => if code = "ABCD" then some 1 else none
  | .member _ _ => none
  | .world id => if id = 0 then some { createdBy := 100, paused := false } else none

theorem oneUse_invite {id : Uuid} {invite : WorldInvite} (h : oneUse (.invite id) = some invite) :
    invite.usedCount = 0 ∧ invite.rotatedFrom = none := by
  simp only [oneUse] at h
  split_ifs at h
  obtain rfl := Option.some.inj h
  exact ⟨rfl, rfl⟩

theorem oneUse_unused : UnusedLinks oneUse where
  valid :=
    { capped := fun id invite maxUses hinvite _ => by rw [(oneUse_invite hinvite).1]; exact Nat.zero_le maxUses
      retired := fun id invite source hinvite hsource => by rw [(oneUse_invite hinvite).2] at hsource; cases hsource
      unique := fun id invite _ _ source hinvite _ hsource => by
        rw [(oneUse_invite hinvite).2] at hsource
        cases hsource }
  unused _ _ hinvite := (oneUse_invite hinvite).1

/-- Two people with the same code. -/
def twoJoins : Fin 2 → Operation
  | 0 => .joinWorld { userId := 101, inviteCode := "abcd", now := 5, refusedAt := 6 }
  | 1 => .joinWorld { userId := 102, inviteCode := "AB-CD", now := 5, refusedAt := 6 }

/-- Both read the link before either use is counted. -/
theorem one_of_two_joined : LinksAdmitTheirUses twoJoins oneUse
    (List.replicate 3 (.step 0) ++ List.replicate 3 (.step 1) ++ List.replicate 12 (.step 0) ++
      List.replicate 12 (.step 1)) :=
  links_admit_their_uses twoJoins oneUse oneUse_unused _

example : (linksAfter twoJoins oneUse (List.replicate 3 (.step 0) ++ List.replicate 3 (.step 1) ++
    List.replicate 12 (.step 0) ++ List.replicate 12 (.step 1))).commits.map (·.result) = [.joined 1 0 101] := by
  decide +kernel

end ThunderForge.Invites
