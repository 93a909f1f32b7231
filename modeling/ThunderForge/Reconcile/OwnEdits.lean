import ThunderForge.Lib.Run
import ThunderForge.Reconcile.Refinement

/-! One user's queued edits of one token, over any number of batches. The mark an edit leaves is held
against the user's own next edit, so a second edit stands only where the user has become a Game Master
since the first. -/

namespace ThunderForge.Reconcile

open Precedence

/-- The user's next batch, or whatever else happens on the server. -/
inductive Event where
  | submit (changes : List QueuedChangeInput)
  | elsewhere (next : Server)

section

variable (platform : Platform) (userId worldId tokenId : Uuid)

def eventStep (server : Server) : Event → Server
  | .submit changes => (reconcileQueuedChanges platform server userId worldId changes).1
  | .elsewhere next => next

/-- Nothing else writes the token's pose or its mark, and the sequence does not run backwards. -/
structure LeavesAlone (server next : Server) : Prop where
  pose : (next.database.tokens tokenId).map Token.toPose = (server.database.tokens tokenId).map Token.toPose
  mark : next.existingMark worldId tokenId = server.existingMark worldId tokenId
  seq : server.marks.nextSeq worldId ≤ next.marks.nextSeq worldId

/-- Every change of the batch is a well-formed token edit that no rule but precedence refuses. -/
def Unrefused (server : Server) (changes : List QueuedChangeInput) : Prop :=
  ∃ memberRole, server.database.requireWorldMember userId worldId = some memberRole ∧
    ¬server.database.paused worldId ∧
    ∀ change ∈ changes, parseAttackIntent platform change.command = none ∧
      ∃ edit, admittedEdit platform userId server.database (roleFromMembership memberRole) change = some edit ∧
        edit.scale.all isPositive

/-- The steps a run of the user's own edits is made of. -/
def OwnStep (server : Server) : Event → Prop
  | .submit changes => Unrefused platform userId worldId server changes
  | .elsewhere next => LeavesAlone worldId tokenId server next

/-- One edit of the token: on whose behalf it was made, and whether it was applied. -/
structure Attempt where
  incoming : Contender
  edit : TokenEdit
  applied : Bool

def Attempt.offer (attempt : Attempt) : Offer Contender Pose := attempt.edit.offer attempt.incoming

/-- The edits of the token one batch makes, in submitted order. -/
def batchAttempts (server : Server) (changes : List QueuedChangeInput) : List Attempt :=
  match server.database.requireWorldMember userId worldId with
  | none => []
  | some memberRole =>
    let outcomes := (reconcileQueuedChanges platform server userId worldId changes).2
    (changes.zip outcomes).filterMap fun (change, outcome) =>
      (editOn platform userId server.database (roleFromMembership memberRole) tokenId change).map fun edit =>
        { incoming := reconnectsAs server worldId memberRole, edit, applied := outcome.applied }

/-- The edits of the token a run makes. -/
def attempts (server : Server) : List Event → List Attempt
  | [] => []
  | .submit changes :: events => batchAttempts platform userId worldId tokenId server changes ++
      attempts (eventStep platform userId worldId server (.submit changes)) events
  | .elsewhere next :: events => attempts next events

end

/-- The value of the last edit that names a field. -/
def lastNamed (field : TokenEdit → Option F64) (start : F64) (edits : List TokenEdit) : F64 :=
  (edits.filterMap field).getLast?.getD start

/-- Every field at the value of the last edit that names it. -/
def namedLast (start : Pose) (edits : List TokenEdit) : Pose where
  x := lastNamed TokenEdit.x start.x edits
  y := lastNamed TokenEdit.y start.y edits
  rotation := lastNamed TokenEdit.rotation start.rotation edits
  scale := lastNamed TokenEdit.scale start.scale edits

/-- If the first edit is applied then so is every later one, and the token ends where the user put it. -/
def ReplaysInOrder (start : Pose) (made : List Attempt) (final : Option Pose) : Prop :=
  (∀ first ∈ made.head?, first.applied = true) →
    (∀ attempt ∈ made, attempt.applied = true) ∧ final = some (namedLast start (made.map Attempt.edit))

/-- Superseded from the first, or at most one edit, or two: one as a player, then one as a Game Master. -/
def HeldOnce (mark : Option Mark) : List Attempt → Prop
  | [] => True
  | [_] => True
  | first :: second :: rest => (∃ previous, mark = some previous ∧ previous ≤ first.incoming) ∨
      rest = [] ∧ first.incoming.role = .player ∧ second.incoming.role = .gameMaster

theorem lastNamed_cons (field : TokenEdit → Option F64) (start : F64) (edit : TokenEdit)
    (edits : List TokenEdit) :
    lastNamed field start (edit :: edits) = lastNamed field ((field edit).getD start) edits := by
  unfold lastNamed
  cases hfield : field edit with
  | none => simp [hfield]
  | some value => simp [hfield, List.getLast?_cons]

/-- Edits applied in order leave every field at its last named value. -/
theorem foldl_applyTo (start : Pose) (edits : List TokenEdit) :
    edits.foldl (fun pose edit => edit.applyTo pose) start = namedLast start edits := by
  induction edits generalizing start with
  | nil => rfl
  | cons edit edits ih =>
      rw [List.foldl_cons, ih]
      simp only [namedLast, lastNamed_cons, TokenEdit.applyTo]

/-- Contenders of whom each comes before the one before, though none reconnected earlier, are at most a
player and then a Game Master. -/
theorem descending_iff {first second : Contender} {rest : List Contender}
    (hseq : ((first :: second :: rest).map Contender.reconnectSeq).Pairwise (· ≤ ·)) :
    (first :: second :: rest).IsChain (· > ·) ↔
      rest = [] ∧ first.role = .player ∧ second.role = .gameMaster := by
  have hroles {a b : Contender} (hle : a.reconnectSeq ≤ b.reconnectSeq) :
      b < a ↔ a.role = .player ∧ b.role = .gameMaster := by
    constructor
    · intro hlt
      have hne : a.role ≠ b.role := fun heq => absurd ((le_iff_of_role_eq heq).mpr hle) (not_le.mpr hlt)
      cases ha : a.role <;> cases hb : b.role
      · exact absurd (ha.trans hb.symm) hne
      · exact absurd (lt_of_roles ha hb) (not_lt.mpr hlt.le)
      · exact ⟨rfl, rfl⟩
      · exact absurd (ha.trans hb.symm) hne
    · rintro ⟨ha, hb⟩
      exact lt_of_roles hb ha
  have hfirst : first.reconnectSeq ≤ second.reconnectSeq := by simp_all
  cases rest with
  | nil => simp [hroles hfirst]
  | cons third rest =>
      have hsecond : second.reconnectSeq ≤ third.reconnectSeq := by simp_all
      simp only [List.isChain_cons_cons, gt_iff_lt, hroles hfirst, hroles hsecond, reduceCtorEq,
        false_and, iff_false]
      rintro ⟨⟨-, hgm⟩, ⟨hplayer, -⟩, -⟩
      rw [hgm] at hplayer
      cases hplayer

section

variable {platform : Platform} {userId worldId tokenId : Uuid} {server : Server} {token : Token}
  {r : Register Contender Pose}

theorem le_saturatingSucc (seq : UInt64) : seq ≤ saturatingSucc seq := by
  have hbound := seq.toNat_lt
  rw [UInt64.le_iff_toNat_le, saturatingSucc_toNat]
  omega

theorem nextSeq_applyChange (incoming : Contender) (change : QueuedChangeInput) :
    (applyChange platform worldId userId incoming server change).1.marks.nextSeq = server.marks.nextSeq := by
  unfold applyChange
  split
  · rw [(applyAttackIntent_reaches _ _ _ _ _ _ _).1]
  · obtain ⟨edit, updated, -, hupdate, hstate, -⟩ | ⟨-, hstate, -⟩ := applyOne_cases platform worldId userId
      incoming server change
    · rw [hstate, Server.rememberMark_nextSeq, (Server.updateToken_spec hupdate).1]
    · rw [hstate]

theorem nextSeq_applyChanges (incoming : Contender) (changes : List QueuedChangeInput) :
    (applyChanges platform worldId userId incoming server changes).1.marks.nextSeq = server.marks.nextSeq := by
  induction changes generalizing server with
  | nil => rfl
  | cons change changes ih => exact ih.trans (nextSeq_applyChange incoming change)

variable (platform userId worldId server) in
theorem length_applyChanges (incoming : Contender) (changes : List QueuedChangeInput) :
    (applyChanges platform worldId userId incoming server changes).2.length = changes.length := by
  induction changes generalizing server with
  | nil => rfl
  | cons change changes ih => exact congrArg (· + 1) (ih _)

/-- One batch, on the register of the token. -/
theorem batch_shows {changes : List QueuedChangeInput} (hunrefused : Unrefused platform userId worldId server changes)
    (hshows : Shows server worldId tokenId token r) :
    let made := batchAttempts platform userId worldId tokenId server changes
    let next := eventStep platform userId worldId server (.submit changes)
    Shows next worldId tokenId token (r.offers (made.map Attempt.offer)).1 ∧
      made.map Attempt.applied = (r.offers (made.map Attempt.offer)).2 ∧
      (∀ attempt ∈ made, attempt.incoming.reconnectSeq = server.marks.nextSeq worldId ∧
        attempt.edit.scale.all isPositive) ∧
      server.marks.nextSeq worldId ≤ next.marks.nextSeq worldId := by
  obtain ⟨memberRole, hmember, hopen, hchanges⟩ := hunrefused
  have hreconcile : reconcileQueuedChanges platform server userId worldId changes =
      applyChanges platform worldId userId (reconnectsAs server worldId memberRole)
        (server.takeReconnectSeq worldId).1 changes := by
    unfold reconcileQueuedChanges
    rw [hmember]
    exact if_neg hopen
  obtain ⟨hfinal, hverdicts⟩ := applyChanges_shows platform userId (reconnectsAs server worldId memberRole)
    (SameGates.refl (server.takeReconnectSeq worldId).1.database) ⟨hshows.mark, hshows.row⟩ changes fun change hchange hattack => by
      rw [(hchanges change hchange).1] at hattack
      cases hattack
  have hmade : batchAttempts platform userId worldId tokenId server changes = (changes.zip
      (applyChanges platform worldId userId (reconnectsAs server worldId memberRole)
        (server.takeReconnectSeq worldId).1 changes).2).filterMap fun (change, outcome) =>
      (editOn platform userId server.database (roleFromMembership memberRole) tokenId change).map fun edit =>
        { incoming := reconnectsAs server worldId memberRole, edit, applied := outcome.applied } := by
    unfold batchAttempts
    rw [hmember, hreconcile]
  have hoffers : (batchAttempts platform userId worldId tokenId server changes).map Attempt.offer =
      (editsOn platform userId server.database (roleFromMembership memberRole) tokenId changes).map
        (TokenEdit.offer (reconnectsAs server worldId memberRole)) := by
    have hfst := List.map_fst_zip (length_applyChanges platform userId worldId (server.takeReconnectSeq worldId).1
      (reconnectsAs server worldId memberRole) changes).ge
    rw [hmade, editsOn, List.map_filterMap, List.map_filterMap]
    conv_rhs => rw [← hfst, List.filterMap_map]
    congr 1
    funext pair
    simp [Function.comp_def, Attempt.offer]
  have happlied : (batchAttempts platform userId worldId tokenId server changes).map Attempt.applied =
      verdictsOn platform userId server.database (roleFromMembership memberRole) tokenId changes
        (applyChanges platform worldId userId (reconnectsAs server worldId memberRole)
          (server.takeReconnectSeq worldId).1 changes).2 := by
    rw [hmade, verdictsOn, List.map_filterMap]
    congr 1
    funext pair
    simp [Function.comp_def]
  refine ⟨?_, ?_, fun attempt hattempt => ?_, ?_⟩
  · rw [hoffers, eventStep, hreconcile]
    exact hfinal
  · rw [hoffers, happlied]
    exact hverdicts
  · rw [hmade] at hattempt
    obtain ⟨⟨change, outcome⟩, hpair, hmap⟩ := List.mem_filterMap.mp hattempt
    obtain ⟨edit, hedit, rfl⟩ := Option.map_eq_some_iff.mp hmap
    refine ⟨rfl, ?_⟩
    obtain ⟨hparse, edit', hadmitted, hscale⟩ := hchanges change (List.of_mem_zip hpair).1
    unfold editOn at hedit
    rw [hparse] at hedit
    obtain ⟨hadmitted', -⟩ := Option.filter_eq_some_iff.mp hedit
    obtain rfl := Option.some.inj (hadmitted.symm.trans hadmitted')
    exact hscale
  · rw [eventStep, hreconcile, nextSeq_applyChanges]
    change _ ≤ Function.update server.marks.nextSeq worldId (saturatingSucc (server.marks.nextSeq worldId)) worldId
    rw [Function.update_self]
    exact le_saturatingSucc _

/-- A run of the user's own edits, on the register of the token. -/
theorem run_shows {events : List Event}
    (hmeets : Run.Meets (eventStep platform userId worldId) (OwnStep platform userId worldId tokenId) server events)
    (hshows : Shows server worldId tokenId token r) :
    let made := attempts platform userId worldId tokenId server events
    (∃ token', Shows (Run.run (eventStep platform userId worldId) server events) worldId tokenId token'
      (r.offers (made.map Attempt.offer)).1) ∧
    made.map Attempt.applied = (r.offers (made.map Attempt.offer)).2 ∧
    (∀ attempt ∈ made, server.marks.nextSeq worldId ≤ attempt.incoming.reconnectSeq ∧
      attempt.edit.scale.all isPositive) ∧
    (made.map fun attempt => attempt.incoming.reconnectSeq).Pairwise (· ≤ ·) := by
  induction events generalizing server token r with
  | nil => exact ⟨⟨token, hshows⟩, rfl, by simp [attempts], by simp [attempts]⟩
  | cons event events ih =>
      obtain ⟨hstep, hrest⟩ := hmeets
      cases event with
      | elsewhere next =>
          obtain ⟨hpose, hmark, hseq⟩ : LeavesAlone worldId tokenId server next := hstep
          rw [hshows.row, Option.map_some] at hpose
          obtain ⟨token', hrow, hvalue⟩ := Option.map_eq_some_iff.mp hpose
          have hnext : Shows next worldId tokenId token' r := by
            refine ⟨hmark.trans hshows.mark, hrow.trans (pose_eq_of_row_eq.mpr ?_).symm⟩
            exact hvalue.symm
          obtain ⟨hfinal, happlied, hmade, hpairwise⟩ := ih hrest hnext
          exact ⟨hfinal, happlied, fun attempt hattempt =>
            ⟨UInt64.le_trans hseq (hmade attempt hattempt).1, (hmade attempt hattempt).2⟩, hpairwise⟩
      | submit changes =>
          obtain ⟨hfirst, happlied, hmade, hseq⟩ := batch_shows hstep hshows
          obtain ⟨hfinal, happlied', hmade', hpairwise⟩ := ih hrest hfirst
          simp only [attempts, List.map_append, Register.offers_append]
          refine ⟨hfinal, ?_, fun attempt hattempt => ?_, List.pairwise_append.mpr ⟨?_, hpairwise, ?_⟩⟩
          · rw [happlied, happlied']
          · obtain hhere | hlater := List.mem_append.mp hattempt
            · exact ⟨(hmade attempt hhere).1 ▸ UInt64.le_refl _, (hmade attempt hhere).2⟩
            · exact ⟨UInt64.le_trans hseq (hmade' attempt hlater).1, (hmade' attempt hlater).2⟩
          · refine List.pairwise_map.mpr (List.pairwise_of_forall_mem_list fun a ha b hb => ?_)
            rw [(hmade a ha).1, (hmade b hb).1]
            exact UInt64.le_refl _
          · intro a ha b hb
            obtain ⟨first, hfirst, rfl⟩ := List.mem_map.mp ha
            obtain ⟨later, hlater, rfl⟩ := List.mem_map.mp hb
            rw [(hmade first hfirst).1]
            exact UInt64.le_trans hseq (hmade' later hlater).1

/-- A well-formed edit fits every row that passes the table's check. -/
theorem offer_fits {attempt : Attempt} (hscale : attempt.edit.scale.all isPositive) {pose : Pose}
    (hpose : isPositive pose.scale) :
    ∃ pose', attempt.offer.write pose = some pose' ∧ isPositive pose'.scale := by
  have hfit : isPositive (attempt.edit.applyTo pose).scale := by
    unfold TokenEdit.applyTo
    cases hnamed : attempt.edit.scale with
    | none => exact hpose
    | some scale => simpa [hnamed] using hscale
  exact ⟨attempt.edit.applyTo pose, if_pos hfit, hfit⟩

/-- Every edit stands exactly when the first does and each comes before the one before it. -/
theorem all_applied_iff {made : List Attempt} {r : Register Contender Pose} (hfit : isPositive r.value.scale)
    (happlied : made.map Attempt.applied = (r.offers (made.map Attempt.offer)).2)
    (hscales : ∀ attempt ∈ made, attempt.edit.scale.all isPositive) :
    (∀ attempt ∈ made, attempt.applied = true) ↔
      (∀ first ∈ made.head?, ¬r.Blocks first.incoming) ∧ (made.map Attempt.incoming).IsChain (· > ·) := by
  have hwrite : ∀ o ∈ made.map Attempt.offer, ∀ pose, isPositive pose.scale →
      ∃ pose', o.write pose = some pose' ∧ isPositive pose'.scale := by
    intro o ho pose hpose
    obtain ⟨attempt, hattempt, rfl⟩ := List.mem_map.mp ho
    exact offer_fits (hscales attempt hattempt) hpose
  have hstand := Register.offers_all_stand hwrite hfit
  rw [← happlied, List.forall_mem_map, List.map_map, List.head?_map] at hstand
  rw [hstand]
  simp [Attempt.offer, TokenEdit.offer, Function.comp_def]

/-- The first edit stands unless the token's mark blocks it. -/
theorem first_applied_iff {first : Attempt} {rest : List Attempt} {r : Register Contender Pose}
    (hfit : isPositive r.value.scale)
    (happlied : (first :: rest).map Attempt.applied = (r.offers ((first :: rest).map Attempt.offer)).2)
    (hscale : first.edit.scale.all isPositive) : first.applied = true ↔ ¬r.Blocks first.incoming := by
  have hfirst : first.applied = (r.offer first.offer).2 := List.head_eq_of_cons_eq happlied
  rw [hfirst]
  by_cases hblocks : r.Blocks first.incoming
  · rw [Register.offer_of_blocks hblocks]
    simp [hblocks]
  · obtain ⟨pose, hwrite, -⟩ := offer_fits hscale hfit
    rw [Register.offer_of_write hblocks hwrite]
    simp [hblocks]

/-- Edits that all stand leave every field at the last value named for it. -/
theorem value_of_all_applied {made : List Attempt} {r : Register Contender Pose}
    (happlied : made.map Attempt.applied = (r.offers (made.map Attempt.offer)).2)
    (hall : ∀ attempt ∈ made, attempt.applied = true) :
    (r.offers (made.map Attempt.offer)).1.value = namedLast r.value (made.map Attempt.edit) := by
  have hstand : ∀ stood ∈ (r.offers (made.map Attempt.offer)).2, stood = true := by
    rw [← happlied]
    exact List.forall_mem_map.mpr hall
  have hwrite : ∀ attempt ∈ made, ∀ pose pose', attempt.offer.write pose = some pose' →
      pose' = attempt.edit.applyTo pose := by
    intro attempt _ pose pose' hwritten
    simp only [Attempt.offer, TokenEdit.offer, Option.ite_none_right_eq_some, Option.some.injEq] at hwritten
    exact hwritten.2.symm
  rw [Register.value_of_all_stand hwrite hstand, ← foldl_applyTo, List.foldl_map]

/-- A user's own edits replay in order exactly when the mark of the first is never held against a later
one. -/
theorem own_edits_replay_in_order_iff {events : List Event}
    (htoken : server.database.tokens tokenId = some token) (hcheck : isPositive token.scale)
    (hmeets : Run.Meets (eventStep platform userId worldId) (OwnStep platform userId worldId tokenId) server events) :
    ReplaysInOrder token.toPose (attempts platform userId worldId tokenId server events)
        (((Run.run (eventStep platform userId worldId) server events).database.tokens tokenId).map
          Token.toPose) ↔
      HeldOnce (server.existingMark worldId tokenId)
        (attempts platform userId worldId tokenId server events) := by
  have hshows : Shows server worldId tokenId token
      { mark := server.existingMark worldId tokenId, value := token.toPose } := ⟨rfl, htoken⟩
  obtain ⟨⟨token', hfinal⟩, happlied, hmade, hseq⟩ := run_shows hmeets hshows
  generalize attempts platform userId worldId tokenId server events = made at *
  have hscales := fun attempt hattempt => (hmade attempt hattempt).2
  have hall := all_applied_iff hcheck happlied hscales
  have hpose (hstand : ∀ attempt ∈ made, attempt.applied = true) :
      ((Run.run (eventStep platform userId worldId) server events).database.tokens tokenId).map
        Token.toPose = some (namedLast token.toPose (made.map Attempt.edit)) := by
    rw [hfinal.row, Option.map_some, value_of_all_applied happlied hstand]
  match made with
  | [] => exact iff_of_true (fun _ => ⟨by simp, hpose (by simp)⟩) trivial
  | [only] =>
      refine iff_of_true (fun hfirst => ?_) trivial
      have honly : ∀ attempt ∈ [only], attempt.applied = true := by simpa using hfirst
      exact ⟨honly, hpose honly⟩
  | first :: second :: rest =>
      have hfirst := first_applied_iff hcheck happlied (hscales first List.mem_cons_self)
      have hpairwise : ((first.incoming :: second.incoming :: rest.map Attempt.incoming).map
          Contender.reconnectSeq).Pairwise (· ≤ ·) := by
        simpa only [List.map_map, List.map_cons, Function.comp_def] using hseq
      have hdescending := descending_iff hpairwise
      have hsuperseded : Register.Blocks { mark := server.existingMark worldId tokenId, value := token.toPose }
          first.incoming ↔ _ := Register.blocks_iff
      simp only [List.head?_cons, Option.mem_def, Option.some.injEq, forall_eq'] at hall
      rw [List.map_cons, List.map_cons, hdescending, List.map_eq_nil_iff] at hall
      simp only [ReplaysInOrder, HeldOnce, List.head?_cons, Option.mem_def, Option.some.injEq, forall_eq',
        ← hsuperseded]
      constructor
      · intro hreplays
        by_cases hstands : first.applied = true
        · exact Or.inr (hall.mp (hreplays hstands).1).2
        · exact Or.inl (not_not.mp (mt hfirst.mpr hstands))
      · rintro (hblocks | honce) happlied
        · exact absurd hblocks (hfirst.mp happlied)
        · have hstand := hall.mpr ⟨hfirst.mp happlied, honce⟩
          exact ⟨hstand, hpose hstand⟩

end

/-- Up by five, after `moveRight`. -/
def moveUp : QueuedChangeInput where
  localId := "b"
  command := upsertCommand "00000000-0000-0000-0000-000000000007" [("y", .float 0x4014000000000000)]

def readsBothMoves : Platform :=
  .reading [(moveRight.command, { kind := "upsert_token", token := { tokenId := 7, x := some 0x4014000000000000 } }),
    (moveUp.command, { kind := "upsert_token", token := { tokenId := 7, y := some 0x4014000000000000 } })]

theorem rightThenUp_meets :
    Run.Meets (eventStep readsBothMoves 30 2) (OwnStep readsBothMoves 30 2 7) twoTables
      [.submit [moveRight, moveUp]] := by
  refine ⟨⟨"Player", by decide, by decide, ?_⟩, trivial⟩
  simp only [List.mem_cons, List.not_mem_nil, or_false, forall_eq_or_imp, forall_eq]
  refine ⟨⟨rfl, { tokenId := 7, x := some 0x4014000000000000 }, ?_, rfl⟩,
    ⟨rfl, { tokenId := 7, y := some 0x4014000000000000 }, ?_, rfl⟩⟩
  · decide +kernel
  · decide +kernel

theorem own_edits_replay_in_order_iff_right_then_up :
    ReplaysInOrder tokenSeven.toPose (attempts readsBothMoves 30 2 7 twoTables [.submit [moveRight, moveUp]])
        (((Run.run (eventStep readsBothMoves 30 2) twoTables
          [.submit [moveRight, moveUp]]).database.tokens 7).map Token.toPose) ↔
      HeldOnce (twoTables.existingMark 2 7)
        (attempts readsBothMoves 30 2 7 twoTables [.submit [moveRight, moveUp]]) :=
  own_edits_replay_in_order_iff rfl (by decide) rightThenUp_meets

/-- Of "move right, then move up" only the first is applied. -/
theorem moving_right_then_up_only_moves_right :
    ¬∀ (platform : Platform) (server : Server) (userId worldId tokenId : Uuid) (token : Token)
      (events : List Event), server.database.tokens tokenId = some token → isPositive token.scale →
      Run.Meets (eventStep platform userId worldId) (OwnStep platform userId worldId tokenId) server events →
      ReplaysInOrder token.toPose (attempts platform userId worldId tokenId server events)
        (((Run.run (eventStep platform userId worldId) server events).database.tokens tokenId).map
          Token.toPose) := by
  intro hreplays
  have hstands : ∀ first ∈ (attempts readsBothMoves 30 2 7 twoTables [.submit [moveRight, moveUp]]).head?,
      first.applied = true := by decide +kernel
  obtain ⟨hall, -⟩ := hreplays readsBothMoves twoTables 30 2 7 tokenSeven _ rfl (by decide)
    rightThenUp_meets hstands
  revert hall
  decide +kernel

end ThunderForge.Reconcile
