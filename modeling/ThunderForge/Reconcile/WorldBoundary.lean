import ThunderForge.Reconcile.Refinement

/-! Replay and the world it was submitted for. An attack checks where its attacker stands; a token edit
never asks, so a batch changes a token of another world exactly when an edit of it is admitted. -/

namespace ThunderForge.Reconcile

open Precedence

variable (platform : Platform) (server : Server) (userId worldId : Uuid)

/-- A token whose scene belongs to another world. -/
def Foreign (db : Database) (worldId tokenId : Uuid) : Prop :=
  ∃ other, db.worldOf tokenId = some other ∧ other ≠ worldId

/-- The first edit of a token that a batch makes and the table's check lets be. -/
def firstEdit (db : Database) (role : Role) (tokenId : Uuid) (changes : List QueuedChangeInput) :
    Option TokenEdit :=
  (editsOn platform userId db role tokenId changes).find? fun edit => db.Writable edit

/-- Of the edits of another world's token, the first is superseded or says what is there already. -/
def KeepsToItsWorld (memberRole : String) (changes : List QueuedChangeInput) : Prop :=
  server.database.paused worldId ∨
    ∀ tokenId token edit, Foreign server.database worldId tokenId →
      server.database.tokens tokenId = some token →
      firstEdit platform userId server.database (roleFromMembership memberRole) tokenId changes = some edit →
      (supersededBy server worldId tokenId (reconnectsAs server worldId memberRole)).isSome ∨
        edit.applyTo token.toPose = token.toPose

variable {platform server userId worldId}

theorem Foreign.not_worldOf {db : Database} {tokenId : Uuid} (h : Foreign db worldId tokenId) :
    db.worldOf tokenId ≠ some worldId := by
  obtain ⟨other, hother, hne⟩ := h
  rw [hother]
  exact fun heq => hne (Option.some.inj heq)

/-- The first write possible is the first edit the table's check lets be. -/
theorem findSome?_offers {tokenId : Uuid} {token : Token} (hrow : server.database.tokens tokenId = some token)
    (incoming : Contender) {edits : List TokenEdit} (hedits : ∀ edit ∈ edits, edit.tokenId = tokenId) :
    (edits.map (TokenEdit.offer incoming)).findSome? (fun o => o.write token.toPose) =
      (edits.find? fun edit => server.database.Writable edit).map fun edit => edit.applyTo token.toPose := by
  induction edits with
  | nil => rfl
  | cons edit edits ih =>
      have hrest := ih fun e he => hedits e (List.mem_cons_of_mem edit he)
      have hwritable : server.database.Writable edit ↔ isPositive (edit.applyTo token.toPose).scale :=
        Database.writable_of_row (hedits edit List.mem_cons_self ▸ hrow)
      rw [List.map_cons, List.findSome?_cons, List.find?_cons]
      by_cases h : isPositive (edit.applyTo token.toPose).scale
      · simp [TokenEdit.offer, hwritable.mpr h, h]
      · simp [TokenEdit.offer, mt hwritable.mp h, h, ← hrest]

theorem editsOn_tokenId {db : Database} {role : Role} {tokenId : Uuid} {changes : List QueuedChangeInput} :
    ∀ edit ∈ editsOn platform userId db role tokenId changes, edit.tokenId = tokenId := by
  intro edit hedit
  obtain ⟨change, -, hchange⟩ := List.mem_filterMap.mp hedit
  unfold editOn at hchange
  split at hchange
  · cases hchange
  · exact of_decide_eq_true (Option.filter_eq_some_iff.mp hchange).2

/-- What a batch leaves of a token no attack of it reaches: its first edit, unless that is superseded. -/
theorem applyChanges_row (server : Server) {incoming : Contender} {tokenId : Uuid} {token : Token}
    (hrow : server.database.tokens tokenId = some token) {changes : List QueuedChangeInput}
    (hreach : server.database.worldOf tokenId ≠ some worldId) :
    (applyChanges platform worldId userId incoming server changes).1.database.tokens tokenId =
      some { token with toPose :=
        if (supersededBy server worldId tokenId incoming).isSome then token.toPose
        else match firstEdit platform userId server.database incoming.role tokenId changes with
          | none => token.toPose
          | some edit => edit.applyTo token.toPose } := by
  have hshows : Shows server worldId tokenId token
      { mark := server.existingMark worldId tokenId, value := token.toPose } := ⟨rfl, hrow⟩
  have howner : ∀ o ∈ (editsOn platform userId server.database incoming.role tokenId changes).map
      (TokenEdit.offer incoming), o.owner = incoming := by
    intro o ho
    obtain ⟨edit, -, rfl⟩ := List.mem_map.mp ho
    rfl
  obtain ⟨hfinal, -⟩ := applyChanges_shows platform userId incoming (SameGates.refl _) hshows changes fun _ _ _ => hreach
  rw [hfinal.row]
  by_cases hblocks : (supersededBy server worldId tokenId incoming).isSome
  · rw [if_pos hblocks, Register.offers_of_blocks (hshows.supersededBy.mp hblocks) howner]
  · rw [if_neg hblocks, Register.offers_of_owner (mt hshows.supersededBy.mpr hblocks) howner,
      findSome?_offers hrow incoming editsOn_tokenId]
    unfold firstEdit
    cases (editsOn platform userId server.database incoming.role tokenId changes).find? fun edit =>
      server.database.Writable edit <;> rfl

/-- A call for one world leaves every token of another as it was exactly when the batch keeps to its
world. -/
theorem reconcile_stays_in_world_iff {memberRole : String}
    (hmember : server.database.requireWorldMember userId worldId = some memberRole)
    (changes : List QueuedChangeInput) :
    (∀ tokenId, Foreign server.database worldId tokenId →
      (reconcileQueuedChanges platform server userId worldId changes).1.database.tokens tokenId =
        server.database.tokens tokenId) ↔
      KeepsToItsWorld platform server userId worldId memberRole changes := by
  unfold reconcileQueuedChanges KeepsToItsWorld
  rw [hmember]
  by_cases hpaused : server.database.paused worldId
  · simp [hpaused]
  · simp only [hpaused, Bool.false_eq_true, if_false, false_or]
    have hrow {tokenId : Uuid} {token : Token} (hforeign : Foreign server.database worldId tokenId)
        (htoken : server.database.tokens tokenId = some token) :
        (applyChanges platform worldId userId (reconnectsAs server worldId memberRole)
          (server.takeReconnectSeq worldId).1 changes).1.database.tokens tokenId =
          some { token with toPose :=
            if (supersededBy server worldId tokenId (reconnectsAs server worldId memberRole)).isSome then
              token.toPose
            else match firstEdit platform userId server.database (roleFromMembership memberRole) tokenId changes with
              | none => token.toPose
              | some edit => edit.applyTo token.toPose } :=
      applyChanges_row (server.takeReconnectSeq worldId).1 htoken hforeign.not_worldOf
    constructor
    · intro hkept tokenId token edit hforeign htoken hfirst
      have hsame := pose_eq_of_row_eq.mp ((hrow hforeign htoken).symm.trans
        ((hkept tokenId hforeign).trans htoken))
      by_cases hsuperseded : (supersededBy server worldId tokenId
          (reconnectsAs server worldId memberRole)).isSome
      · exact Or.inl hsuperseded
      · rw [if_neg hsuperseded, hfirst] at hsame
        exact Or.inr hsame
    · intro hkeeps tokenId hforeign
      obtain ⟨other, hother, -⟩ := id hforeign
      obtain ⟨token, htoken, -⟩ := Option.bind_eq_some_iff.mp hother
      refine (hrow hforeign htoken).trans (Eq.trans (pose_eq_of_row_eq.mpr ?_) htoken.symm)
      by_cases hsuperseded : (supersededBy server worldId tokenId
          (reconnectsAs server worldId memberRole)).isSome
      · rw [if_pos hsuperseded]
      · rw [if_neg hsuperseded]
        cases hfirst : firstEdit platform userId server.database (roleFromMembership memberRole) tokenId changes with
        | none => rfl
        | some edit => exact (hkeeps tokenId token edit hforeign htoken hfirst).resolve_left hsuperseded

theorem reconcile_stays_in_world_iff_at_two_tables :
    (∀ tokenId, Foreign twoTables.database 1 tokenId →
      (reconcileQueuedChanges readsMoveRight twoTables 10 1 [moveRight]).1.database.tokens tokenId =
        twoTables.database.tokens tokenId) ↔
      KeepsToItsWorld readsMoveRight twoTables 10 1 "Owner" [moveRight] :=
  reconcile_stays_in_world_iff (by decide) [moveRight]

/-- Running one world is power over the tokens of another. -/
theorem replay_reaches_into_another_world :
    ¬∀ (platform : Platform) (server : Server) (userId worldId : Uuid) (changes : List QueuedChangeInput),
      (server.database.requireWorldMember userId worldId).isSome →
      ∀ tokenId, Foreign server.database worldId tokenId →
        (reconcileQueuedChanges platform server userId worldId changes).1.database.tokens tokenId =
          server.database.tokens tokenId := by
  intro hstays
  have hsame := hstays readsMoveRight twoTables 10 1 [moveRight] (by decide) 7 ⟨2, by decide, by decide⟩
  revert hsame
  decide +kernel

end ThunderForge.Reconcile
