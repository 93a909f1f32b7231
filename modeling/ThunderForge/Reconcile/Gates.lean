import ThunderForge.Reconcile.Replay

/-! What replay never changes: everything that decides who may do what. A replayed batch moves tokens,
writes records of hit points and records rolls, so the rules every change of it meets are those of the
database the batch started from. One lemma says everything a single token edit can do. -/

namespace ThunderForge.Reconcile

/-- A token less its pose and its record of hit points. -/
def Token.standing (token : Token) : Uuid × Option Uuid × Option Uuid × Bool × Bool :=
  (token.sceneId, token.actorId, token.ownerUserId, token.nameVisibleToPlayers, token.linked)

/-- Two databases in which every rule about who may do what has the same answer. -/
structure SameGates (left right : Database) : Prop where
  tokens : ∀ id, (left.tokens id).map Token.standing = (right.tokens id).map Token.standing
  scenes : left.scenes = right.scenes
  worlds : left.worlds = right.worlds
  actors : left.actors = right.actors
  actorPermissions : left.actorPermissions = right.actorPermissions
  combats : left.combats = right.combats
  combatants : left.combatants = right.combatants

namespace SameGates

variable {left right third : Database}

theorem refl (db : Database) : SameGates db db := ⟨fun _ => rfl, rfl, rfl, rfl, rfl, rfl, rfl⟩

theorem symm (h : SameGates left right) : SameGates right left :=
  ⟨fun id => (h.tokens id).symm, h.scenes.symm, h.worlds.symm, h.actors.symm, h.actorPermissions.symm,
    h.combats.symm, h.combatants.symm⟩

theorem trans (h : SameGates left right) (h' : SameGates right third) : SameGates left third :=
  ⟨fun id => (h.tokens id).trans (h'.tokens id), h.scenes.trans h'.scenes, h.worlds.trans h'.worlds,
    h.actors.trans h'.actors, h.actorPermissions.trans h'.actorPermissions, h.combats.trans h'.combats,
    h.combatants.trans h'.combatants⟩

/-- Replacing one token by one of the same standing. -/
theorem update {db : Database} {tokenId : Uuid} {token token' : Token} (htoken : db.tokens tokenId = some token)
    (hstanding : token.standing = token'.standing) :
    SameGates db { db with tokens := Function.update db.tokens tokenId (some token') } := by
  refine ⟨fun id => ?_, rfl, rfl, rfl, rfl, rfl, rfl⟩
  by_cases hid : id = tokenId
  · subst hid
    simp [htoken, hstanding]
  · simp [hid]

theorem requireWorldMember (h : SameGates left right) :
    left.requireWorldMember = right.requireWorldMember := by
  unfold Database.requireWorldMember
  rw [h.worlds]

theorem runsTheWorld (h : SameGates left right) : left.runsTheWorld = right.runsTheWorld := by
  unfold Database.runsTheWorld
  rw [h.requireWorldMember]

theorem paused (h : SameGates left right) : left.paused = right.paused := by
  unfold Database.paused
  rw [h.worlds]

/-- A token on one side is a token of the same standing on the other. -/
theorem token (h : SameGates left right) {id : Uuid} {there : Token} (hthere : left.tokens id = some there) :
    ∃ here, right.tokens id = some here ∧ there.standing = here.standing := by
  have hmap := h.tokens id
  rw [hthere, Option.map_some] at hmap
  obtain ⟨here, hhere, hstanding⟩ := Option.map_eq_some_iff.mp hmap.symm
  exact ⟨here, hhere, hstanding.symm⟩

theorem token_none (h : SameGates left right) {id : Uuid} (hnone : left.tokens id = none) :
    right.tokens id = none := by
  have hmap := h.tokens id
  rw [hnone] at hmap
  exact Option.map_eq_none_iff.mp hmap.symm

theorem worldOf (h : SameGates left right) : left.worldOf = right.worldOf := by
  funext id
  unfold Database.worldOf
  rw [h.scenes]
  cases htoken : left.tokens id with
  | none => rw [h.token_none htoken]
  | some there =>
      obtain ⟨here, hhere, hstanding⟩ := h.token htoken
      rw [hhere, Option.bind_some, Option.bind_some, (Prod.mk.inj hstanding).1]

theorem tokenNameReadable (h : SameGates left right) : left.tokenNameReadable = right.tokenNameReadable := by
  funext id
  unfold Database.tokenNameReadable
  rw [h.actors]
  cases htoken : left.tokens id with
  | none => rw [h.token_none htoken]
  | some there =>
      obtain ⟨here, hhere, hstanding⟩ := h.token htoken
      simp only [Token.standing, Prod.mk.injEq] at hstanding
      rw [hhere, Option.any_some, Option.any_some, hstanding.2.1, hstanding.2.2.2.1]

theorem turnCheck (h : SameGates left right) (sceneId tokenId userId : Uuid) :
    turnCheck left sceneId tokenId userId = turnCheck right sceneId tokenId userId := by
  unfold Reconcile.turnCheck
  rw [h.scenes, h.runsTheWorld, h.combats, h.combatants, h.tokenNameReadable]
  cases htoken : left.tokens tokenId with
  | none => rw [h.token_none htoken]
  | some there =>
      obtain ⟨here, hhere, hstanding⟩ := h.token htoken
      simp only [Token.standing, Prod.mk.injEq] at hstanding
      simp only [hhere, hstanding.2.1]

variable (platform : Platform)

theorem adjudicate (h : SameGates left right) (userId : Uuid) (role : Role) (change : QueuedChangeInput) :
    adjudicate platform left userId role change = adjudicate platform right userId role change := by
  unfold Reconcile.adjudicate
  cases parseTokenEdit platform change.command with
  | none => rfl
  | some edit =>
      cases htoken : left.tokens edit.tokenId with
      | none => simp only [htoken, h.token_none htoken]
      | some there =>
          obtain ⟨here, hhere, hstanding⟩ := h.token htoken
          simp only [Token.standing, Prod.mk.injEq] at hstanding
          simp only [htoken, hhere, hstanding.1, hstanding.2.2.1, h.turnCheck]

end SameGates

/-- The table's check lets an edit be: it leaves a row that passes. -/
def Database.Writable (db : Database) (edit : TokenEdit) : Prop :=
  (db.tokens edit.tokenId).all fun token => isPositive (edit.applyTo token.toPose).scale

instance (db : Database) (edit : TokenEdit) : Decidable (db.Writable edit) :=
  inferInstanceAs (Decidable (_ = true))

theorem Database.writable_of_row {db : Database} {edit : TokenEdit} {token : Token}
    (h : db.tokens edit.tokenId = some token) :
    db.Writable edit ↔ isPositive (edit.applyTo token.toPose).scale := by
  rw [Database.Writable, h, Option.all_some]

namespace Server

variable {server updated : Server} {edit : TokenEdit} {tokenId worldId : Uuid}

theorem updateToken_isSome : (server.updateToken edit).isSome ↔ server.database.Writable edit := by
  unfold updateToken Database.Writable
  cases server.database.tokens edit.tokenId with
  | none => simp
  | some token => cases hscale : isPositive (edit.applyTo token.toPose).scale <;> simp [hscale]

/-- Everything an update of one token can do. -/
theorem updateToken_spec (h : server.updateToken edit = some updated) :
    updated.marks = server.marks ∧ SameGates server.database updated.database ∧
      (∀ id, id ≠ edit.tokenId → updated.database.tokens id = server.database.tokens id) ∧
      updated.database.tokens edit.tokenId = (server.database.tokens edit.tokenId).map fun token =>
        { token with toPose := edit.applyTo token.toPose } := by
  unfold updateToken at h
  cases htoken : server.database.tokens edit.tokenId with
  | none =>
      rw [htoken] at h
      obtain rfl : server = updated := by simpa using h
      exact ⟨rfl, .refl _, fun _ _ => rfl, by rw [htoken]; rfl⟩
  | some token =>
      simp only [htoken] at h
      split at h
      · obtain rfl := Option.some.inj h
        refine ⟨rfl, SameGates.update htoken rfl, fun id hid => ?_, ?_⟩
        · exact Function.update_of_ne hid _ _
        · exact Function.update_self _ _ _
      · cases h

@[simp] theorem rememberMark_database (server : Server) (worldId tokenId : Uuid) (mark : Mark) :
    (server.rememberMark worldId tokenId mark).database = server.database := rfl

@[simp] theorem rememberMark_nextSeq (server : Server) (worldId tokenId : Uuid) (mark : Mark) :
    (server.rememberMark worldId tokenId mark).marks.nextSeq = server.marks.nextSeq := rfl

@[simp] theorem existingMark_rememberMark (server : Server) (worldId tokenId : Uuid) (mark : Mark) :
    (server.rememberMark worldId tokenId mark).existingMark worldId tokenId = some mark := by
  simp [rememberMark, existingMark]

theorem existingMark_rememberMark_of_ne (server : Server) (worldId : Uuid) {id tokenId : Uuid} (mark : Mark)
    (h : id ≠ tokenId) :
    (server.rememberMark worldId tokenId mark).existingMark worldId id = server.existingMark worldId id := by
  simp [rememberMark, existingMark, h]

theorem existingMark_congr {server server' : Server} (h : server.marks = server'.marks) :
    server.existingMark worldId tokenId = server'.existingMark worldId tokenId := by
  unfold existingMark
  rw [h]

@[simp] theorem takeReconnectSeq_database (server : Server) (worldId : Uuid) :
    (server.takeReconnectSeq worldId).1.database = server.database := rfl

@[simp] theorem existingMark_takeReconnectSeq (server : Server) (taken worldId tokenId : Uuid) :
    (server.takeReconnectSeq taken).1.existingMark worldId tokenId = server.existingMark worldId tokenId :=
  rfl

end Server

/-- An edit is superseded exactly when the mark on its token comes first. -/
theorem supersededBy_isSome {server : Server} {worldId tokenId : Uuid} {incoming : Contender} :
    (supersededBy server worldId tokenId incoming).isSome ↔
      ∃ mark, server.existingMark worldId tokenId = some mark ∧ mark ≤ incoming := by
  unfold supersededBy
  cases server.existingMark worldId tokenId with
  | none => simp
  | some mark =>
      by_cases h : mark ≤ incoming
      · simp [resolve_eq_a, h]
      · simp [resolve_eq_a, h]

section Edits

variable (platform : Platform) (worldId userId : Uuid) (incoming : Contender)

/-- The edit a change asks for, when no rule but precedence stands in its way. -/
def admittedEdit (db : Database) (role : Role) (change : QueuedChangeInput) : Option TokenEdit :=
  if mayAttribute userId role change then (adjudicate platform db userId role change).toOption else none

variable {platform worldId userId incoming}

theorem SameGates.admittedEdit {left right : Database} (h : SameGates left right) :
    admittedEdit platform userId left = admittedEdit platform userId right := by
  funext role change
  unfold Reconcile.admittedEdit
  rw [h.adjudicate]

theorem adjudicate_error {db : Database} {role : Role} {change : QueuedChangeInput} {outcome : ReconcileOutcome}
    (h : adjudicate platform db userId role change = .error outcome) : outcome.applied = false := by
  unfold adjudicate at h
  split at h
  · exact (Except.error.inj h) ▸ rfl
  split at h
  · exact (Except.error.inj h) ▸ rfl
  split at h
  · exact (Except.error.inj h) ▸ rfl
  split at h
  · split at h
    · exact (Except.error.inj h) ▸ rfl
    · cases h
  · cases h

/-- An edit that lands: admitted, not superseded, and leaving a row the table's check lets be. -/
structure Lands (platform : Platform) (worldId userId : Uuid) (incoming : Contender) (server : Server)
    (change : QueuedChangeInput) (edit : TokenEdit) : Prop where
  admitted : admittedEdit platform userId server.database incoming.role change = some edit
  first : supersededBy server worldId edit.tokenId incoming = none
  writable : server.database.Writable edit

variable (platform worldId userId incoming) in
/-- Everything one token edit can do: land, or change nothing and not be applied. -/
theorem applyOne_cases (server : Server) (change : QueuedChangeInput) :
    (∃ edit updated, Lands platform worldId userId incoming server change edit ∧
      server.updateToken edit = some updated ∧
      (applyOne platform worldId userId incoming server change).1 =
        updated.rememberMark worldId edit.tokenId incoming ∧
      (applyOne platform worldId userId incoming server change).2.applied = true) ∨
    ((∀ edit, ¬Lands platform worldId userId incoming server change edit) ∧
      (applyOne platform worldId userId incoming server change).1 = server ∧
      (applyOne platform worldId userId incoming server change).2.applied = false) := by
  unfold applyOne
  by_cases hattribute : mayAttribute userId incoming.role change = true
  · rw [if_neg (by simp [hattribute])]
    have hadmitted : admittedEdit platform userId server.database incoming.role change =
        (adjudicate platform server.database userId incoming.role change).toOption := if_pos hattribute
    cases hadjudicate : adjudicate platform server.database userId incoming.role change with
    | error outcome =>
        rw [hadjudicate] at hadmitted
        have happlied := adjudicate_error hadjudicate
        refine Or.inr ⟨fun edit hlands => ?_, rfl, happlied⟩
        exact Option.some_ne_none _ (hlands.admitted.symm.trans hadmitted)
    | ok edit =>
        rw [hadjudicate] at hadmitted
        have hedit {edit' : TokenEdit} (hlands : Lands platform worldId userId incoming server change edit') :
            edit = edit' := Option.some.inj (hadmitted.symm.trans hlands.admitted)
        cases hfirst : supersededBy server worldId edit.tokenId incoming with
        | some role =>
            simp only [hfirst]
            refine Or.inr ⟨fun edit' hlands => ?_, trivial, rfl⟩
            obtain rfl := hedit hlands
            exact Option.some_ne_none _ (hfirst.symm.trans hlands.first)
        | none =>
            cases hupdate : server.updateToken edit with
            | none =>
                simp only [hfirst, hupdate]
                refine Or.inr ⟨fun edit' hlands => ?_, trivial, rfl⟩
                obtain rfl := hedit hlands
                have hsome := Server.updateToken_isSome.mpr hlands.writable
                simp [hupdate] at hsome
            | some updated =>
                simp only [hfirst, hupdate]
                have hwritable := Server.updateToken_isSome.mp (Option.isSome_of_eq_some hupdate)
                exact Or.inl ⟨edit, updated, ⟨hadmitted, hfirst, hwritable⟩, hupdate, rfl, rfl⟩
  · rw [if_pos (by simpa using hattribute)]
    refine Or.inr ⟨fun edit hlands => ?_, rfl, rfl⟩
    have hadmitted := hlands.admitted
    rw [admittedEdit, if_neg hattribute] at hadmitted
    cases hadmitted

/-- What landing leaves: the token's named fields and its mark; every other token and mark as it was. -/
theorem applyOne_of_lands {server : Server} {change : QueuedChangeInput} {edit : TokenEdit}
    (h : Lands platform worldId userId incoming server change edit) :
    (applyOne platform worldId userId incoming server change).2.applied = true ∧
      (applyOne platform worldId userId incoming server change).1.database.tokens edit.tokenId =
        (server.database.tokens edit.tokenId).map (fun token =>
          { token with toPose := edit.applyTo token.toPose }) ∧
      (applyOne platform worldId userId incoming server change).1.existingMark worldId edit.tokenId =
        some incoming ∧
      ∀ id, id ≠ edit.tokenId →
        (applyOne platform worldId userId incoming server change).1.database.tokens id =
          server.database.tokens id ∧
        (applyOne platform worldId userId incoming server change).1.existingMark worldId id =
          server.existingMark worldId id := by
  obtain ⟨edit', updated, hlands, hupdate, hstate, happlied⟩ | ⟨hnone, -⟩ :=
    applyOne_cases platform worldId userId incoming server change
  · obtain rfl : edit' = edit := Option.some.inj (hlands.admitted.symm.trans h.admitted)
    obtain ⟨hmarks, -, hothers, hself⟩ := Server.updateToken_spec hupdate
    rw [hstate]
    refine ⟨happlied, hself, Server.existingMark_rememberMark _ _ _ _, fun id hid => ⟨hothers id hid, ?_⟩⟩
    rw [Server.existingMark_rememberMark_of_ne _ _ _ hid]
    exact Server.existingMark_congr hmarks
  · exact absurd h (hnone edit)

theorem applyOne_of_not_lands {server : Server} {change : QueuedChangeInput}
    (h : ∀ edit, ¬Lands platform worldId userId incoming server change edit) :
    (applyOne platform worldId userId incoming server change).1 = server ∧
      (applyOne platform worldId userId incoming server change).2.applied = false := by
  obtain ⟨edit, -, hlands, -⟩ | ⟨-, hstate, happlied⟩ :=
    applyOne_cases platform worldId userId incoming server change
  · exact absurd hlands (h edit)
  · exact ⟨hstate, happlied⟩

variable (platform worldId userId incoming) in
theorem sameGates_applyOne (server : Server) (change : QueuedChangeInput) :
    SameGates server.database (applyOne platform worldId userId incoming server change).1.database := by
  obtain ⟨edit, updated, -, hupdate, hstate, -⟩ | ⟨-, hstate, -⟩ :=
    applyOne_cases platform worldId userId incoming server change
  · rw [hstate]
    exact (Server.updateToken_spec hupdate).2.1
  · rw [hstate]
    exact .refl _

end Edits

section Attacks

variable {platform : Platform} {request : AttackRequest} {db db' : Database}

/-- Two databases with the same gates whose tokens differ at most where `reach` holds. -/
structure Reaches (reach : Uuid → Prop) (left right : Database) : Prop where
  gates : SameGates left right
  others : ∀ id, ¬reach id → right.tokens id = left.tokens id

namespace Reaches

variable {reach : Uuid → Prop}

theorem refl (db : Database) : Reaches reach db db := ⟨.refl db, fun _ _ => rfl⟩

theorem trans {third : Database} (h : Reaches reach db db') (h' : Reaches reach db' third) :
    Reaches reach db third :=
  ⟨h.gates.trans h'.gates, fun id hid => (h'.others id hid).trans (h.others id hid)⟩

theorem applyHitPointChange {tokenId : Uuid} (hreach : reach tokenId) (change : Json → Option Json) :
    Reaches reach db (applyHitPointChange db tokenId change) := by
  unfold Reconcile.applyHitPointChange
  split
  · exact .refl db
  · rename_i token htoken
    split
    · exact .refl db
    · split
      · exact .refl db
      · refine ⟨SameGates.update htoken rfl, fun id hid => ?_⟩
        have hne : id ≠ tokenId := fun heq => hid (heq ▸ hreach)
        exact Function.update_of_ne hne _ _

theorem recordRolls (rolls : List (Uuid × RollRecord)) : Reaches reach db (recordRolls db rolls) :=
  ⟨⟨fun _ => rfl, rfl, rfl, rfl, rfl, rfl, rfl⟩, fun _ _ => rfl⟩

theorem recordPart {index : Nat} (htarget : ∀ target, targetOf request index = some target → reach target)
    (h : recordPart platform request db index = .ok db') : Reaches reach db db' := by
  unfold Reconcile.recordPart at h
  cases hstrike : platform.strike db request index with
  | error refusal => simp [hstrike, Except.map] at h
  | ok struck =>
      simp only [hstrike, Except.map] at h
      split at h
      · rename_i target damage hindex _
        rw [← Except.ok.inj h]
        exact (recordRolls _).trans (applyHitPointChange (htarget target hindex) damage)
      · rw [← Except.ok.inj h]
        exact recordRolls _

theorem recordParts {indices : List Nat}
    (htargets : ∀ index ∈ indices, ∀ target, targetOf request index = some target → reach target)
    (h : indices.foldlM (Reconcile.recordPart platform request) db = .ok db') : Reaches reach db db' := by
  induction indices generalizing db with
  | nil =>
      obtain rfl : db = db' := Except.ok.inj h
      exact .refl db
  | cons index indices ih =>
      rw [List.foldlM_cons] at h
      cases hpart : Reconcile.recordPart platform request db index with
      | error refusal => simp [hpart, Except.bind, bind] at h
      | ok next =>
          simp only [hpart, Except.bind, bind] at h
          have hfirst : Reaches reach db next := recordPart (htargets index List.mem_cons_self) hpart
          exact hfirst.trans (ih (fun index hindex => htargets index (List.mem_cons_of_mem _ hindex)) h)

end Reaches

/-- An attack writes to tokens of its attacker's scene and to no others. -/
theorem makeAttack_reaches {userId attackerTokenId : Uuid}
    (h : makeAttack platform db userId attackerTokenId request = .ok db') :
    ∃ attacker, db.tokens attackerTokenId = some attacker ∧
      Reaches (fun id => ∃ token, db.tokens id = some token ∧ token.sceneId = attacker.sceneId) db db' := by
  unfold makeAttack at h
  split at h
  · rename_i attacker control hattacker _
    refine ⟨attacker, hattacker, ?_⟩
    split at h
    · cases h
    split at h
    · cases h
    obtain ⟨weapon, -, h⟩ := except_bind_eq_ok.mp h
    obtain ⟨-, -, h⟩ := except_bind_eq_ok.mp h
    obtain ⟨parts, -, h⟩ := except_bind_eq_ok.mp h
    split at h
    · rename_i htargets
      refine Reaches.recordParts (fun index hindex target htarget => ?_) h
      have hany := List.all_eq_true.mp htargets index hindex
      rw [htarget, Option.all_some] at hany
      obtain ⟨token, htoken, hscene⟩ := (Option.any_eq_true _ _).mp hany
      exact ⟨token, htoken, of_decide_eq_true hscene⟩
    · cases h
  · cases h

/-- A queued attack leaves the marks alone, and every token outside the world of its batch. -/
theorem applyAttackIntent_reaches (platform : Platform) (worldId userId : Uuid) (role : Role)
    (server : Server) (change : QueuedChangeInput) (request : AttackRequest) :
    (applyAttackIntent platform worldId userId role server change request).1.marks = server.marks ∧
      Reaches (fun id => server.database.worldOf id = some worldId) server.database
        (applyAttackIntent platform worldId userId role server change request).1.database := by
  unfold applyAttackIntent
  split
  · exact ⟨rfl, .refl _⟩
  split
  · exact ⟨rfl, .refl _⟩
  rename_i attackerTokenId _
  split
  · exact ⟨rfl, .refl _⟩
  rename_i control hcontrol
  split
  · exact ⟨rfl, .refl _⟩
  rename_i hworld
  cases hmade : makeAttack platform server.database (subjectUser userId change) attackerTokenId request with
  | error refusal => exact ⟨rfl, .refl _⟩
  | ok database =>
      obtain ⟨attacker, hattacker, hgates, hothers⟩ := makeAttack_reaches hmade
      refine ⟨rfl, hgates, fun id hid => hothers id ?_⟩
      rintro ⟨token, htoken, hscene⟩
      obtain ⟨found, hfound, hmap⟩ := Option.bind_eq_some_iff.mp hcontrol
      obtain ⟨attackerWorld, hattackerWorld, hbuilt⟩ := Option.map_eq_some_iff.mp hmap
      obtain rfl : found = attacker := Option.some.inj (hfound.symm.trans hattacker)
      have hcontrolled : attackerWorld = worldId := by
        rw [← hbuilt] at hworld
        exact not_not.mp hworld
      refine hid ?_
      rw [Database.worldOf, htoken, Option.bind_some, hscene, hattackerWorld, hcontrolled]

end Attacks

end ThunderForge.Reconcile
