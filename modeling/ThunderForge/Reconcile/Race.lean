import ThunderForge.Lib.Run
import ThunderForge.Reconcile.Refinement

/-! Several reconcile calls in one world at the same time, each with one edit of the same token. The marks
are locked for each access and not from reading the mark to writing the token, so precedence holds in
the runs in which nobody writes over an edit that comes first. -/

namespace ThunderForge.Reconcile

/-- One call: who reconnects, and the one change queued. -/
structure Call where
  userId : Uuid
  change : QueuedChangeInput

/-- How far a call has come. -/
inductive Phase where
  | arriving
  | refused
  | sequenced (incoming : Contender)
  | admitted (incoming : Contender) (edit : TokenEdit)
  | written (incoming : Contender) (edit : TokenEdit)
  | finished (incoming : Contender) (applied : Bool)
  deriving DecidableEq

/-- The server, and how far each call has come. -/
structure Race (n : Nat) where
  server : Server
  phase : Fin n → Phase

/-- What a call does next: take its place in the sequence, meet the rules and read the mark, write the
token, write the mark. -/
def callStep (platform : Platform) (worldId : Uuid) (call : Call) (server : Server) : Phase → Server × Phase
  | .arriving =>
    match server.database.requireWorldMember call.userId worldId with
    | none => (server, .refused)
    | some memberRole =>
      if server.database.paused worldId then (server, .refused)
      else
        let (taken, reconnectSeq) := server.takeReconnectSeq worldId
        (taken, .sequenced { role := roleFromMembership memberRole, reconnectSeq })
  | .sequenced incoming =>
    match admittedEdit platform call.userId server.database incoming.role call.change with
    | none => (server, .refused)
    | some edit =>
      if (supersededBy server worldId edit.tokenId incoming).isSome then (server, .finished incoming false)
      else (server, .admitted incoming edit)
  | .admitted incoming edit =>
    match server.updateToken edit with
    | none => (server, .refused)
    | some updated => (updated, .written incoming edit)
  | .written incoming edit => (server.rememberMark worldId edit.tokenId incoming, .finished incoming true)
  | .refused => (server, .refused)
  | .finished incoming applied => (server, .finished incoming applied)

section

variable {n : Nat} (platform : Platform) (worldId : Uuid) (calls : Fin n → Call)

/-- One call takes its next step. -/
def raceStep (race : Race n) (i : Fin n) : Race n :=
  let (server, phase) := callStep platform worldId (calls i) race.server (race.phase i)
  { server, phase := Function.update race.phase i phase }

/-- Every call still to come. -/
def Race.start (server : Server) : Race n where
  server
  phase _ := .arriving

end

/-- The edit that sets all four fields of a token. -/
def wholeEdit (tokenId : Uuid) (pose : Pose) : TokenEdit where
  tokenId
  x := some pose.x
  y := some pose.y
  rotation := some pose.rotation
  scale := some pose.scale

@[simp] theorem wholeEdit_applyTo (tokenId : Uuid) (pose old : Pose) :
    (wholeEdit tokenId pose).applyTo old = pose := rfl

/-- Calls of one authorised edit each, all of the same token, which carries no mark. -/
structure Contest {n : Nat} (platform : Platform) (worldId tokenId : Uuid) (server : Server)
    (calls : Fin n → Call) (poses : Fin n → Pose) : Prop where
  running : ¬server.database.paused worldId
  noMark : server.existingMark worldId tokenId = none
  edits : ∀ i, parseAttackIntent platform (calls i).change.command = none
  authorised : ∀ i, ∃ memberRole,
    server.database.requireWorldMember (calls i).userId worldId = some memberRole ∧
    admittedEdit platform (calls i).userId server.database (roleFromMembership memberRole) (calls i).change =
      some (wholeEdit tokenId (poses i))
  positive : ∀ i, isPositive (poses i).scale

/-- The contender a call is, once it has taken its place in the sequence. -/
def Phase.contender : Phase → Option Contender
  | .arriving | .refused => none
  | .sequenced incoming | .admitted incoming _ | .written incoming _ | .finished incoming _ => some incoming

/-- The contender on whose behalf a call has written the token. -/
def Phase.wrote : Phase → Option Contender
  | .written incoming _ | .finished incoming true => some incoming
  | _ => none

theorem Phase.contender_of_wrote {phase : Phase} {incoming : Contender} (h : phase.wrote = some incoming) :
    phase.contender = some incoming := by
  unfold Phase.wrote at h
  split at h
  · exact h
  · exact h
  · cases h

def Phase.isFinished : Phase → Bool
  | .finished _ _ => true
  | _ => false

/-- The contender on whose behalf a call is about to write the token. -/
def Phase.writer : Phase → Option Contender
  | .admitted incoming _ => some incoming
  | _ => none

/-- A call writes the token only while no call that the conflict rule prefers to it has written. -/
def WritesInOrder {n : Nat} (race : Race n) (i : Fin n) : Prop :=
  ∀ incoming ∈ (race.phase i).writer, ∀ j, ∀ other ∈ (race.phase j).wrote, resolve other incoming ≠ .a

instance {n : Nat} (race : Race n) (i : Fin n) : Decidable (WritesInOrder race i) :=
  inferInstanceAs (Decidable (∀ incoming ∈ (race.phase i).writer, ∀ j, ∀ other ∈ (race.phase j).wrote,
    resolve other incoming ≠ .a))

/-- The token holds the edit of a call that the conflict rule prefers to every other. -/
def PreferredStands {n : Nat} (tokenId : Uuid) (poses : Fin n → Pose) (race : Race n) : Prop :=
  ∃ i incoming, (race.phase i).contender = some incoming ∧
    (∀ j other, (race.phase j).contender = some other → resolve incoming other = .a) ∧
    (race.server.database.tokens tokenId).map Token.toPose = some (poses i)

section

variable {n : Nat} {platform : Platform} {worldId tokenId : Uuid} {server : Server} {calls : Fin n → Call}
  {poses : Fin n → Pose}

/-- What holds of one call's phase, given how far the others have come. -/
def PhaseFits (db : Database) (worldId tokenId : Uuid) (calls : Fin n → Call) (poses : Fin n → Pose)
    (phases : Fin n → Phase) (i : Fin n) : Phase → Prop
  | .arriving | .finished _ true => True
  | .refused => False
  | .sequenced incoming => ∃ memberRole, db.requireWorldMember (calls i).userId worldId = some memberRole ∧
      incoming.role = roleFromMembership memberRole
  | .admitted _ edit | .written _ edit => edit = wholeEdit tokenId (poses i)
  | .finished incoming false => ∃ j first, phases j = .finished first true ∧ first ≤ incoming

theorem PhaseFits.mono {phases phases' : Fin n → Phase} {i : Fin n} {phase : Phase}
    (hmono : ∀ j incoming, phases j = .finished incoming true → phases' j = .finished incoming true)
    (h : PhaseFits server.database worldId tokenId calls poses phases i phase) :
    PhaseFits server.database worldId tokenId calls poses phases' i phase := by
  unfold PhaseFits at h ⊢
  split at h
  · trivial
  · trivial
  · exact h
  · exact h
  · exact h
  · exact h
  · obtain ⟨j, first, hfirst, hle⟩ := h
    exact ⟨j, first, hmono j first hfirst, hle⟩

/-- The token is as it was before the race, or holds the edit of a writer that comes before every writer. -/
def BestStands (tokenId : Uuid) (poses : Fin n → Pose) (race : Race n) : Prop :=
  (∀ i, (race.phase i).wrote = none) ∨
    ∃ i incoming, (race.phase i).wrote = some incoming ∧
      (∀ j other, (race.phase j).wrote = some other → incoming ≤ other) ∧
      (race.server.database.tokens tokenId).map Token.toPose = some (poses i)

/-- What every reachable state of a race written in order satisfies. -/
structure RaceInvariant (worldId tokenId : Uuid) (server : Server) (calls : Fin n → Call)
    (poses : Fin n → Pose) (race : Race n) : Prop where
  gates : SameGates server.database race.server.database
  mark : ∀ mark, race.server.existingMark worldId tokenId = some mark → ∃ i, race.phase i = .finished mark true
  phases : ∀ i, PhaseFits server.database worldId tokenId calls poses race.phase i (race.phase i)
  best : BestStands tokenId poses race

theorem RaceInvariant.start (h : Contest platform worldId tokenId server calls poses) :
    RaceInvariant worldId tokenId server calls poses (Race.start server) := by
  refine ⟨.refl _, fun mark hmark => ?_, fun _ => trivial, Or.inl fun _ => rfl⟩
  rw [Race.start, h.noMark] at hmark
  cases hmark

/-- A call moves on from a phase it has not ended in. -/
theorem RaceInvariant.advance {race : Race n} (h : RaceInvariant worldId tokenId server calls poses race)
    {i : Fin n} {server' : Server} {phase : Phase}
    (hended : ∀ incoming, race.phase i ≠ .finished incoming true)
    (hgates : SameGates race.server.database server'.database)
    (hmark : ∀ mark, server'.existingMark worldId tokenId = some mark →
      race.server.existingMark worldId tokenId = some mark ∨ phase = .finished mark true)
    (hphase : PhaseFits server.database worldId tokenId calls poses race.phase i phase)
    (hbest : BestStands tokenId poses { server := server', phase := Function.update race.phase i phase }) :
    RaceInvariant worldId tokenId server calls poses
      { server := server', phase := Function.update race.phase i phase } := by
  have hmono : ∀ j incoming, race.phase j = .finished incoming true →
      Function.update race.phase i phase j = .finished incoming true := by
    intro j incoming hj
    have hne : j ≠ i := by
      rintro rfl
      exact hended incoming hj
    rw [Function.update_of_ne hne, hj]
  refine ⟨h.gates.trans hgates, fun mark hmark' => ?_, fun j => ?_, hbest⟩
  · obtain hold | hnew := hmark mark hmark'
    · obtain ⟨j, hj⟩ := h.mark mark hold
      exact ⟨j, hmono j mark hj⟩
    · exact ⟨i, by simp [hnew]⟩
  · by_cases hji : j = i
    · subst hji
      dsimp only
      rw [Function.update_self]
      exact hphase.mono hmono
    · simp only [Function.update_of_ne hji]
      exact (h.phases j).mono hmono

/-- A step that writes nothing leaves the best writer's edit in place. -/
theorem BestStands.of_wrote_eq {race : Race n} (h : BestStands tokenId poses race) {i : Fin n}
    {server' : Server} {phase : Phase} (hwrote : phase.wrote = (race.phase i).wrote)
    (hrow : server'.database.tokens tokenId = race.server.database.tokens tokenId) :
    BestStands tokenId poses { server := server', phase := Function.update race.phase i phase } := by
  have hsame (j : Fin n) : (Function.update race.phase i phase j).wrote = (race.phase j).wrote := by
    by_cases hji : j = i
    · subst hji
      rw [Function.update_self, hwrote]
    · rw [Function.update_of_ne hji]
  simpa only [BestStands, hsame, hrow] using h

/-- A write in order makes its writer the best. -/
theorem BestStands.of_write {race : Race n} {i : Fin n} {server' : Server} {incoming : Contender}
    {edit : TokenEdit} (hfirst : ∀ j other, (race.phase j).wrote = some other → incoming ≤ other)
    (hrow : (server'.database.tokens tokenId).map Token.toPose = some (poses i)) :
    BestStands tokenId poses
      { server := server', phase := Function.update race.phase i (.written incoming edit) } := by
  refine Or.inr ⟨i, incoming, by simp [Phase.wrote], fun j other hj => ?_, hrow⟩
  by_cases hji : j = i
  · subst hji
    simp only [Function.update_self, Phase.wrote, Option.some.injEq] at hj
    exact hj.le
  · simp only [Function.update_of_ne hji] at hj
    exact hfirst j other hj

/-- Only an edit of a token that is there is admitted. -/
theorem admittedEdit_token {db : Database} {userId : Uuid} {role : Role} {change : QueuedChangeInput}
    {edit : TokenEdit} (h : admittedEdit platform userId db role change = some edit) :
    ∃ token, db.tokens edit.tokenId = some token := by
  unfold admittedEdit adjudicate at h
  split at h
  · split at h
    · cases h
    rename_i parsed _
    split at h
    · cases h
    rename_i token htoken
    have hparsed : parsed = edit := by
      split at h
      · cases h
      split at h
      · split at h
        · cases h
        · exact Option.some.inj h
      · exact Option.some.inj h
    exact ⟨token, hparsed ▸ htoken⟩
  · cases h

/-- A call that has ended stays as it is. -/
theorem raceStep_of_ended {race : Race n} {i : Fin n}
    (h : callStep platform worldId (calls i) race.server (race.phase i) = (race.server, race.phase i)) :
    raceStep platform worldId calls race i = race := by
  unfold raceStep
  rw [h]
  simp only [Function.update_eq_self]

theorem raceStep_invariant {race : Race n} (hcontest : Contest platform worldId tokenId server calls poses)
    (h : RaceInvariant worldId tokenId server calls poses race) (i : Fin n) (horder : WritesInOrder race i) :
    RaceInvariant worldId tokenId server calls poses (raceStep platform worldId calls race i) := by
  obtain ⟨memberRole, hmember, hadmitted⟩ := hcontest.authorised i
  have hfits := h.phases i
  cases hphase : race.phase i with
  | arriving =>
      have hstep : callStep platform worldId (calls i) race.server .arriving =
          ((race.server.takeReconnectSeq worldId).1,
            .sequenced (reconnectsAs race.server worldId memberRole)) := by
        unfold callStep
        rw [← h.gates.requireWorldMember, ← h.gates.paused, hmember]
        exact if_neg hcontest.running
      unfold raceStep
      rw [hphase, hstep]
      refine h.advance (by simp [hphase]) (.refl _) (fun mark hmark => Or.inl hmark)
        ⟨memberRole, hmember, rfl⟩ (h.best.of_wrote_eq ?_ rfl)
      rw [hphase]
      rfl
  | refused =>
      rw [hphase] at hfits
      exact hfits.elim
  | sequenced incoming =>
      rw [hphase] at hfits
      obtain ⟨memberRole', hmember', hrole⟩ := hfits
      obtain rfl : memberRole = memberRole' := Option.some.inj (hmember.symm.trans hmember')
      have hedit : admittedEdit platform (calls i).userId race.server.database incoming.role (calls i).change =
          some (wholeEdit tokenId (poses i)) := by
        rw [← h.gates.admittedEdit, hrole, hadmitted]
      unfold raceStep
      rw [hphase]
      simp only [callStep, hedit]
      by_cases hsuperseded : (supersededBy race.server worldId tokenId incoming).isSome
      · obtain ⟨mark, hmark, hle⟩ := supersededBy_isSome.mp hsuperseded
        obtain ⟨j, hj⟩ := h.mark mark hmark
        simp only [wholeEdit, hsuperseded, if_true]
        refine h.advance (by simp [hphase]) (.refl _) (fun mark hmark => Or.inl hmark) ⟨j, mark, hj, hle⟩
          (h.best.of_wrote_eq ?_ rfl)
        rw [hphase]
        rfl
      · simp only [wholeEdit, hsuperseded]
        refine h.advance (by simp [hphase]) (.refl _) (fun mark hmark => Or.inl hmark) rfl
          (h.best.of_wrote_eq ?_ rfl)
        rw [hphase]
        rfl
  | admitted incoming edit =>
      rw [hphase] at hfits
      obtain rfl : edit = wholeEdit tokenId (poses i) := hfits
      obtain ⟨token, htoken⟩ := admittedEdit_token hadmitted
      obtain ⟨here, hhere, -⟩ := h.gates.token htoken
      obtain ⟨updated, hupdate⟩ : ∃ updated, race.server.updateToken (wholeEdit tokenId (poses i)) = some updated :=
        Option.isSome_iff_exists.mp (Server.updateToken_isSome.mpr
          ((Database.writable_of_row hhere).mpr (hcontest.positive i)))
      obtain ⟨hmarks, hgates, -, hrow⟩ := Server.updateToken_spec hupdate
      unfold raceStep
      rw [hphase]
      simp only [callStep, hupdate]
      refine h.advance (by simp [hphase]) hgates (fun mark hmark => Or.inl ?_) rfl (.of_write ?_ ?_)
      · rwa [Server.existingMark_congr hmarks] at hmark
      · intro j other hj
        have hnot := mt resolve_eq_a.mpr (horder incoming (by rw [hphase]; rfl) j other hj)
        exact (not_le.mp hnot).le
      · rw [show (wholeEdit tokenId (poses i)).tokenId = tokenId from rfl] at hrow hhere
        rw [hrow, hhere]
        rfl
  | written incoming edit =>
      rw [hphase] at hfits
      obtain rfl : edit = wholeEdit tokenId (poses i) := hfits
      unfold raceStep
      rw [hphase]
      refine h.advance (by simp [hphase]) (.refl _) (fun mark hmark => ?_) trivial (h.best.of_wrote_eq ?_ rfl)
      · simp only [wholeEdit, Server.existingMark_rememberMark, Option.some.injEq] at hmark
        exact Or.inr (hmark ▸ rfl)
      · rw [hphase]
        rfl
  | finished incoming applied =>
      rw [raceStep_of_ended (by rw [hphase]; rfl)]
      exact h

/-- Precedence survives every complete run in which nobody writes over an edit that comes first. -/
theorem preferred_stands_when_written_in_order (hcontest : Contest platform worldId tokenId server calls poses)
    {order : List (Fin n)}
    (hmeets : Run.Meets (raceStep platform worldId calls) WritesInOrder (Race.start server) order)
    (hfinished : ∀ i, ((Run.run (raceStep platform worldId calls) (Race.start server) order).phase i).isFinished)
    (hcalls : 0 < n) :
    PreferredStands tokenId poses (Run.run (raceStep platform worldId calls) (Race.start server) order) := by
  have hinv := hmeets.invariant (fun race i h horder => raceStep_invariant hcontest h i horder)
    (RaceInvariant.start hcontest)
  generalize Run.run (raceStep platform worldId calls) (Race.start server) order = race at *
  -- Everybody wrote, or was superseded by somebody who wrote and comes first.
  have hbeaten (j : Fin n) (other : Contender) (hj : (race.phase j).contender = some other) :
      ∃ k first, (race.phase k).wrote = some first ∧ first ≤ other := by
    have hfits := hinv.phases j
    have hend := hfinished j
    cases hphase : race.phase j with
    | finished incoming applied =>
        rw [hphase] at hfits hj
        obtain rfl := Option.some.inj hj
        cases applied with
        | true => exact ⟨j, incoming, by rw [hphase]; rfl, le_rfl⟩
        | false =>
            obtain ⟨k, first, hk, hle⟩ := hfits
            exact ⟨k, first, by rw [hk]; rfl, hle⟩
    | _ =>
        rw [hphase] at hend
        cases hend
  have hcontender (j : Fin n) : ∃ other, (race.phase j).contender = some other := by
    have hend := hfinished j
    cases hphase : race.phase j with
    | finished incoming applied => exact ⟨incoming, rfl⟩
    | _ =>
        rw [hphase] at hend
        cases hend
  obtain hnobody | ⟨i, incoming, hwrote, hfirst, hrow⟩ := hinv.best
  · obtain ⟨other, hother⟩ := hcontender ⟨0, hcalls⟩
    obtain ⟨k, first, hk, -⟩ := hbeaten _ other hother
    rw [hnobody k] at hk
    cases hk
  · refine ⟨i, incoming, Phase.contender_of_wrote hwrote, fun j other hj => ?_, hrow⟩
    obtain ⟨k, first, hk, hle⟩ := hbeaten j other hj
    exact resolve_eq_a.mpr ((hfirst k first hk).trans hle)

/-- From its place in the sequence on, a call that runs by itself is `applyOne`. -/
theorem callStep_sequenced_alone {call : Call} {incoming : Contender} :
    let step := fun state : Server × Phase => callStep platform worldId call state.1 state.2
    (step (step (step (server, .sequenced incoming)))).1 =
      (applyOne platform worldId call.userId incoming server call.change).1 := by
  obtain ⟨edit, updated, hlands, hupdate, hstate, -⟩ | ⟨hnone, hstate, -⟩ := applyOne_cases platform worldId
    call.userId incoming server call.change
  · rw [hstate]
    simp [callStep, hlands.admitted, hlands.first, hupdate]
  · rw [hstate]
    cases hadmitted : admittedEdit platform call.userId server.database incoming.role call.change with
    | none => simp [callStep, hadmitted]
    | some edit =>
        by_cases hsuperseded : (supersededBy server worldId edit.tokenId incoming).isSome
        · simp [callStep, hadmitted, hsuperseded]
        · have hfirst : supersededBy server worldId edit.tokenId incoming = none := by simpa using hsuperseded
          have hrefused : server.updateToken edit = none := by
            rw [← Option.not_isSome_iff_eq_none, Server.updateToken_isSome]
            exact fun hwritable => hnone edit ⟨hadmitted, hfirst, hwritable⟩
          simp [callStep, hadmitted, hfirst, hrefused]

/-- A call that runs by itself does what replaying its one change does. -/
theorem callStep_alone {call : Call} (hedit : parseAttackIntent platform call.change.command = none) :
    let step := fun state : Server × Phase => callStep platform worldId call state.1 state.2
    (step (step (step (step (server, .arriving))))).1 =
      (reconcileQueuedChanges platform server call.userId worldId [call.change]).1 := by
  unfold reconcileQueuedChanges
  cases hmember : server.database.requireWorldMember call.userId worldId with
  | none => simp [callStep, hmember]
  | some memberRole =>
      by_cases hpaused : server.database.paused worldId
      · simp [callStep, hmember, hpaused]
      · have harrived : callStep platform worldId call server .arriving =
            ((server.takeReconnectSeq worldId).1, .sequenced (reconnectsAs server worldId memberRole)) := by
          unfold callStep
          rw [hmember]
          exact if_neg hpaused
        have hchange (taken : Server) (incoming : Contender) :
            (applyChanges platform worldId call.userId incoming taken [call.change]).1 =
              (applyOne platform worldId call.userId incoming taken call.change).1 := by
          simp only [applyChanges, applyChange, hedit]
        simp only [harrived, hpaused, Bool.false_eq_true, if_false]
        exact callStep_sequenced_alone.trans (hchange _ _).symm

end

/-- A change that sets all four fields of token 7. -/
def setsAll (localId : String) (pose : Pose) : QueuedChangeInput where
  localId
  command := upsertCommand "00000000-0000-0000-0000-000000000007"
    [("rotation", .float pose.rotation), ("scale", .float pose.scale), ("x", .float pose.x), ("y", .float pose.y)]

/-- Where the player and the Game Master of the second table want the token. -/
def wanted (i : Fin 2) : Pose where
  x := if i = 0 then 0x4014000000000000 else 0x4018000000000000
  y := 0
  rotation := 0
  scale := 0x3ff0000000000000

def rivals (i : Fin 2) : Call where
  userId := if i = 0 then 30 else 20
  change := setsAll "c" (wanted i)

def readsRivals : Platform :=
  .reading [((rivals 0).change.command, { kind := "upsert_token", token := wholeEdit 7 (wanted 0) }),
    ((rivals 1).change.command, { kind := "upsert_token", token := wholeEdit 7 (wanted 1) })]

theorem rivals_contest : Contest readsRivals 2 7 twoTables rivals wanted where
  running := by decide
  noMark := rfl
  edits _ := rfl
  authorised
    | 0 => ⟨"Player", by decide, by decide +kernel⟩
    | 1 => ⟨"Owner", by decide, by decide +kernel⟩
  positive := by decide

/-- The two calls one after the other. -/
def oneAfterTheOther : List (Fin 2) := [0, 0, 0, 0, 1, 1, 1, 1]

theorem preferred_stands_when_written_in_order_by_rivals :
    PreferredStands 7 wanted (Run.run (raceStep readsRivals 2 rivals) (Race.start twoTables) oneAfterTheOther) :=
  preferred_stands_when_written_in_order rivals_contest (by decide +kernel) (by decide +kernel) (by decide)

/-- Both read that the token carries no mark; the Game Master writes, and then the player. -/
def playerWritesLast : List (Fin 2) := [0, 1, 0, 1, 1, 0, 1, 0]

/-- The player's edit stands over the Game Master's. -/
theorem player_stands_over_game_master :
    ¬∀ (n : Nat) (platform : Platform) (worldId tokenId : Uuid) (server : Server) (calls : Fin n → Call)
      (poses : Fin n → Pose) (order : List (Fin n)), Contest platform worldId tokenId server calls poses →
      (∀ i, ((Run.run (raceStep platform worldId calls) (Race.start server) order).phase i).isFinished) →
      0 < n →
      PreferredStands tokenId poses (Run.run (raceStep platform worldId calls) (Race.start server) order) := by
  intro hstands
  obtain ⟨i, incoming, hincoming, hfirst, hrow⟩ := hstands 2 readsRivals 2 7 twoTables rivals wanted
    playerWritesLast rivals_contest (by decide +kernel) (by decide)
  match i with
  | 0 =>
      obtain rfl : { role := .player, reconnectSeq := 0 } = incoming := by
        refine Option.some.inj (Eq.trans ?_ hincoming)
        decide +kernel
      exact absurd (hfirst 1 { role := .gameMaster, reconnectSeq := 1 } (by decide +kernel)) (by decide)
  | 1 =>
      revert hrow
      decide +kernel

end ThunderForge.Reconcile
