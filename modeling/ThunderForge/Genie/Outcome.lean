import ThunderForge.Genie.Session

/-! Wishes spent and clocks advanced at the same time. Each operation writes values it computed from an
earlier reading, so the pools, the clocks and the outcome are kept in the runs in which that reading still
holds when it is written over. -/

namespace ThunderForge.Genie

open ReadCommitted

/-- The operations on a session's pool and clocks. -/
inductive ClockOperation where
  | spendWish (caller : Caller) (sessionId : Uuid) (narrativeEffect : String)
  | advanceDoomClock (caller : Caller) (sessionId : Uuid) (delta : Int)
  | advancePuzzleClock (caller : Caller) (now : Nat) (clockId : Uuid) (delta : Int)
  | spendResourceOnPuzzleClock (caller : Caller) (now : Nat) (clockId actorId : Uuid) (resourceType : String)
      (quantity : Int)

def ClockOperation.program (world : World) : ClockOperation → Program Answer
  | spendWish caller sessionId narrativeEffect => Genie.spendWish world caller sessionId narrativeEffect
  | advanceDoomClock caller sessionId delta => Genie.advanceDoomClock world caller sessionId delta
  | advancePuzzleClock caller now clockId delta => Genie.advancePuzzleClock world caller now clockId delta
  | spendResourceOnPuzzleClock caller now clockId actorId resourceType quantity =>
    Genie.spendResourceOnPuzzleClock world caller now clockId actorId resourceType quantity

/-- Whether an operation spends a wish of the session. -/
def ClockOperation.spendsWish (sessionId : Uuid) : ClockOperation → Bool
  | spendWish _ sessionId' _ => sessionId' = sessionId
  | _ => false

/-- How far an operation advances the Doom Clock of the session. -/
def ClockOperation.doomDelta (sessionId : Uuid) : ClockOperation → Option Int
  | advanceDoomClock _ sessionId' delta => if sessionId' = sessionId then some delta else none
  | _ => none

/-- How far an operation advances the Puzzle Clock. -/
def ClockOperation.clockDelta (clockId : Uuid) : ClockOperation → Option Int
  | advancePuzzleClock _ _ clockId' delta => if clockId' = clockId then some delta else none
  | spendResourceOnPuzzleClock _ _ clockId' _ _ quantity => if clockId' = clockId then some quantity else none
  | _ => none

/-- One advance of a clock, clamped to its range. -/
def advanced (max delta current : Int) : Int := clamp (current + delta) 0 max

/-- What an operation makes of a session. -/
structure SessionStep (operation : ClockOperation) (sessionId : Uuid) (before after : GenieSession) : Prop where
  wishes : after.wishesRemaining = before.wishesRemaining - if operation.spendsWish sessionId then 1 else 0
  doom : after.doomClockCurrent =
    (operation.doomDelta sessionId).elim before.doomClockCurrent
      (advanced before.doomClockMax · before.doomClockCurrent)
  doomMax : after.doomClockMax = before.doomClockMax
  outcome : before.status ≠ .active → after.status = before.status

/-- What an operation makes of a Puzzle Clock. -/
structure ClockStep (operation : ClockOperation) (clockId : Uuid) (before after : GeniePuzzleClock) : Prop where
  segments : after.segmentsCurrent =
    (operation.clockDelta clockId).elim before.segmentsCurrent
      (advanced before.segmentsMax · before.segmentsCurrent)
  segmentsMax : after.segmentsMax = before.segmentsMax

/-- What others may do to the sessions and clocks: a range stays, and so does an outcome. -/
structure Stands (db db' : Database) : Prop where
  sessions : ∀ id before, db (.session id) = some before → ∃ after, db' (.session id) = some after ∧
    after.doomClockMax = before.doomClockMax ∧ (before.status ≠ .active → after.status = before.status)
  clocks : ∀ id before, db (.clock id) = some before →
    ∃ after, db' (.clock id) = some after ∧ after.segmentsMax = before.segmentsMax

theorem Stands.refl (db : Database) : Stands db db where
  sessions _ before h := ⟨before, h, rfl, fun _ => rfl⟩
  clocks _ before h := ⟨before, h, rfl⟩

theorem Stands.trans {db db' db'' : Database} (h : Stands db db') (h' : Stands db' db'') : Stands db db'' where
  sessions id before hbefore := by
    obtain ⟨mid, hmid, hmax, hstatus⟩ := h.sessions id before hbefore
    obtain ⟨after, hafter, hmax', hstatus'⟩ := h'.sessions id mid hmid
    refine ⟨after, hafter, hmax'.trans hmax, fun hconcluded => ?_⟩
    have hkept := hstatus hconcluded
    exact (hstatus' (by rwa [hkept])).trans hkept
  clocks id before hbefore := by
    obtain ⟨mid, hmid, hmax⟩ := h.clocks id before hbefore
    obtain ⟨after, hafter, hmax'⟩ := h'.clocks id mid hmid
    exact ⟨after, hafter, hmax'.trans hmax⟩

/-- What an operation has written is its step of the sessions and clocks there are. -/
structure SoFar (operation : ClockOperation) (writes : Writes Key.Row) (db : Database) : Prop where
  sessions : ∀ id row, writes (.session id) = some row → ∃ before after,
    db (.session id) = some before ∧ row = some after ∧ SessionStep operation id before after
  clocks : ∀ id row, writes (.clock id) = some row → ∃ before after,
    db (.clock id) = some before ∧ row = some after ∧ ClockStep operation id before after

/-- What an operation has done by its commit: it has written all that it is to change. -/
structure Played (operation : ClockOperation) (writes : Writes Key.Row) (db : Database) : Prop
    extends SoFar operation writes db where
  noSession : ∀ id, writes (.session id) = none →
    operation.spendsWish id = false ∧ operation.doomDelta id = none
  noClock : ∀ id, writes (.clock id) = none → operation.clockDelta id = none

section

variable {operation : ClockOperation} {writes : Writes Key.Row} {db db' : Database}

theorem SessionStep.idle {id : Uuid} (session : GenieSession) (hwish : operation.spendsWish id = false)
    (hdoom : operation.doomDelta id = none) : SessionStep operation id session session where
  wishes := by simp [hwish]
  doom := by simp [hdoom]
  doomMax := rfl
  outcome _ := rfl

theorem ClockStep.idle {id : Uuid} (clock : GeniePuzzleClock) (h : operation.clockDelta id = none) :
    ClockStep operation id clock clock where
  segments := by simp [h]
  segmentsMax := rfl

theorem Played.session (h : Played operation writes db) {id : Uuid} {before : GenieSession}
    (hbefore : db (.session id) = some before) :
    ∃ after, overlay writes db (.session id) = some after ∧ SessionStep operation id before after := by
  cases hrow : writes (.session id) with
  | none =>
      obtain ⟨hwish, hdoom⟩ := h.noSession id hrow
      exact ⟨before, (overlay_of_none hrow).trans hbefore, .idle before hwish hdoom⟩
  | some row =>
      obtain ⟨before', after, hbefore', rfl, hstep⟩ := h.sessions id row hrow
      obtain rfl := Option.some.inj (hbefore.symm.trans hbefore')
      exact ⟨after, by simp [overlay, hrow], hstep⟩

theorem Played.clock (h : Played operation writes db) {id : Uuid} {before : GeniePuzzleClock}
    (hbefore : db (.clock id) = some before) :
    ∃ after, overlay writes db (.clock id) = some after ∧ ClockStep operation id before after := by
  cases hrow : writes (.clock id) with
  | none => exact ⟨before, (overlay_of_none hrow).trans hbefore, .idle before (h.noClock id hrow)⟩
  | some row =>
      obtain ⟨before', after, hbefore', rfl, hstep⟩ := h.clocks id row hrow
      obtain rfl := Option.some.inj (hbefore.symm.trans hbefore')
      exact ⟨after, by simp [overlay, hrow], hstep⟩

theorem Played.stands (h : Played operation writes db) : Stands db (overlay writes db) where
  sessions _ _ hbefore := by
    obtain ⟨after, hafter, hstep⟩ := h.session hbefore
    exact ⟨after, hafter, hstep.doomMax, hstep.outcome⟩
  clocks _ _ hbefore := by
    obtain ⟨after, hafter, hstep⟩ := h.clock hbefore
    exact ⟨after, hafter, hstep.segmentsMax⟩

end

section

variable {n : Nat} (operations : Fin n → ClockOperation)

/-- Ranges and outcomes stand, and every call plays its step. -/
def clockDiscipline : Discipline n Key.Row Answer where
  valid _ := True
  rely _ db db' := Stands db db'
  post i writes db _ := Played (operations i) writes db
  refl _ := Stands.refl
  trans := Stands.trans
  keeps _ _ := trivial
  guarantees _ _ hpost := hpost.stands

/-- The kinds of reliance the pools, the clocks and the outcome rest on. -/
def clockReliance : List Reliance := [.wishesAsRead, .clockAsRead, .outcomeOpen, .sumFits]

variable {operations} {operation : ClockOperation} {writes : Writes Key.Row} {db db' : Database}

theorem SoFar.start (operation : ClockOperation) (db : Database) : SoFar operation (fun _ => none) db where
  sessions _ _ h := by cases h
  clocks _ _ h := by cases h

theorem SoFar.later (h : SoFar operation writes db) (hlater : (clockDiscipline operations).Later writes db db') :
    SoFar operation writes db' where
  sessions id row hrow := by
    rw [hlater.held (.session id) (Option.isSome_iff_exists.mpr ⟨row, hrow⟩)]
    exact h.sessions id row hrow
  clocks id row hrow := by
    rw [hlater.held (.clock id) (Option.isSome_iff_exists.mpr ⟨row, hrow⟩)]
    exact h.clocks id row hrow

theorem SoFar.session (h : SoFar operation writes db) {id : Uuid} {before after : GenieSession}
    (hbefore : db (.session id) = some before) (hstep : SessionStep operation id before after) :
    SoFar operation (Function.update writes (.session id) (some (some after))) db where
  sessions id' row hrow := by
    by_cases hid : id' = id
    · subst hid
      rw [Function.update_self] at hrow
      exact ⟨before, after, hbefore, (Option.some.inj hrow).symm, hstep⟩
    · rw [Function.update_of_ne (by simpa using hid)] at hrow
      exact h.sessions id' row hrow
  clocks id' row hrow := by
    rw [Function.update_of_ne (by simp)] at hrow
    exact h.clocks id' row hrow

theorem SoFar.clock (h : SoFar operation writes db) {id : Uuid} {before after : GeniePuzzleClock}
    (hbefore : db (.clock id) = some before) (hstep : ClockStep operation id before after) :
    SoFar operation (Function.update writes (.clock id) (some (some after))) db where
  sessions id' row hrow := by
    rw [Function.update_of_ne (by simp)] at hrow
    exact h.sessions id' row hrow
  clocks id' row hrow := by
    by_cases hid : id' = id
    · subst hid
      rw [Function.update_self] at hrow
      exact ⟨before, after, hbefore, (Option.some.inj hrow).symm, hstep⟩
    · rw [Function.update_of_ne (by simpa using hid)] at hrow
      exact h.clocks id' row hrow

theorem SoFar.other (h : SoFar operation writes db) {key : Key} {row : Key.Row key}
    (hsession : ∀ id, Key.session id ≠ key) (hclock : ∀ id, Key.clock id ≠ key) :
    SoFar operation (Function.update writes key (some row)) db where
  sessions id row' hrow := by
    rw [Function.update_of_ne (hsession id)] at hrow
    exact h.sessions id row' hrow
  clocks id row' hrow := by
    rw [Function.update_of_ne (hclock id)] at hrow
    exact h.clocks id row' hrow

theorem addI32_of_fits {a b : Int} (h : fitsI32 (a + b) = true) : addI32 a b = a + b := by
  simp only [fitsI32, Bool.and_eq_true, decide_eq_true_eq] at h
  exact Int.bmod_eq_of_le_mul_two (by omega) (by omega)

section programs

variable {α : Type} {post : Writes Key.Row → Database → α → Prop} {relies : Reliance → Database → Bool} {id : Uuid}

/-- A session written: what the statement relies on makes it the operation's step. -/
theorem safe_updateSession {g : GenieSession → GenieSession} {f : Option GenieSession → Program α}
    (h : SoFar operation writes db) (hfree : writes (.session id) = none)
    (hstep : ∀ db', (clockDiscipline operations).Later writes db db' →
      (∀ kind ∈ clockReliance, relies kind (overlay writes db')) →
      ∃ before, db' (.session id) = some before ∧ SessionStep operation id before (g before))
    (hrest : ∀ db' after, SoFar operation (Function.update writes (.session id) (some (some after))) db' →
      Safe (clockDiscipline operations) clockReliance post (f (some after))
        (Function.update writes (.session id) (some (some after))) db') :
    Safe (clockDiscipline operations) clockReliance post
      (Call.update relies (.session id) (fun row => row.map g) >>= f) writes db := by
  refine Safe.update_bind fun db' hlater hrelied => ?_
  obtain ⟨before, hbefore, hsession⟩ := hstep db' hlater hrelied
  rw [overlay_of_none hfree, hbefore]
  exact hrest db' (g before) ((h.later hlater).session hbefore hsession)

/-- A clock written. -/
theorem safe_updateClock {g : GeniePuzzleClock → GeniePuzzleClock} {f : Option GeniePuzzleClock → Program α}
    (h : SoFar operation writes db) (hfree : writes (.clock id) = none)
    (hstep : ∀ db', (clockDiscipline operations).Later writes db db' →
      (∀ kind ∈ clockReliance, relies kind (overlay writes db')) →
      ∃ before, db' (.clock id) = some before ∧ ClockStep operation id before (g before))
    (hrest : ∀ db' after, SoFar operation (Function.update writes (.clock id) (some (some after))) db' →
      Safe (clockDiscipline operations) clockReliance post (f (some after))
        (Function.update writes (.clock id) (some (some after))) db') :
    Safe (clockDiscipline operations) clockReliance post
      (Call.update relies (.clock id) (fun row => row.map g) >>= f) writes db := by
  refine Safe.update_bind fun db' hlater hrelied => ?_
  obtain ⟨before, hbefore, hclock⟩ := hstep db' hlater hrelied
  rw [overlay_of_none hfree, hbefore]
  exact hrest db' (g before) ((h.later hlater).clock hbefore hclock)

end programs

/-- A row that is there and meets what a statement relies on. -/
theorem exists_of_relied {γ : Type} {row : Option γ} {p : γ → Prop} [DecidablePred p]
    (h : row.any (fun value => decide (p value)) = true) : ∃ value, row = some value ∧ p value := by
  obtain ⟨value, hvalue, hp⟩ := (Option.any_eq_true _ _).mp h
  exact ⟨value, hvalue, of_decide_eq_true hp⟩

/-- An operation is safe from the start. -/
def SafeClockOperation (operations : Fin n → ClockOperation) (world : World) (operation : ClockOperation) : Prop :=
  ∀ db, Safe (clockDiscipline operations) clockReliance (fun writes db _ => Played operation writes db)
    (operation.program world) (fun _ => none) db

theorem spendWish_safe (world : World) (caller : Caller) (sessionId : Uuid) (narrativeEffect : String) :
    SafeClockOperation operations world (.spendWish caller sessionId narrativeEffect) := by
  intro db
  unfold ClockOperation.program spendWish loadSessionRow
  simp only [bind_assoc]
  refine Safe.read_bind fun db₁ h₁ => Safe.getOr_bind fun session _ => Safe.require_bind fun _ =>
    Safe.require_bind fun _ => Safe.require_bind fun _ => Safe.require_bind fun _ => ?_
  refine safe_updateSession (.start (.spendWish caller sessionId narrativeEffect) db₁) rfl
    (fun db₂ _ hrelied => ?_) fun db₂ after hsofar =>
    Safe.getOr_bind fun updated _ => Safe.pure fun db' hlater => ?_
  · obtain ⟨before, hbefore, hwishes⟩ := exists_of_relied (hrelied .wishesAsRead (by simp [clockReliance]))
    exact ⟨before, hbefore, by simp [ClockOperation.spendsWish, hwishes], rfl, rfl, fun _ => rfl⟩
  · refine { hsofar.later hlater with noSession := fun id hid => ?_, noClock := fun _ _ => rfl }
    by_cases hsame : id = sessionId
    · subst hsame
      simp at hid
    · exact ⟨by simpa [ClockOperation.spendsWish] using Ne.symm hsame, rfl⟩

theorem advanceDoomClock_safe (world : World) (caller : Caller) (sessionId : Uuid) (delta : Int) :
    SafeClockOperation operations world (.advanceDoomClock caller sessionId delta) := by
  intro db
  unfold ClockOperation.program advanceDoomClock loadSessionRow
  simp only [bind_assoc]
  refine Safe.read_bind fun db₁ h₁ => Safe.getOr_bind fun session hsession => Safe.require_bind fun _ =>
    Safe.require_bind fun _ => Safe.require_bind fun _ => ?_
  refine safe_updateSession (.start (.advanceDoomClock caller sessionId delta) db₁) rfl
    (fun db₂ hlater hrelied => ?_) fun db₂ after hsofar =>
    Safe.getOr_bind fun updated _ => Safe.pure fun db' hlater => ?_
  · obtain ⟨before, hbefore, hmax, -⟩ := hlater.rely.sessions sessionId session hsession
    obtain ⟨before', hbefore', hdoom⟩ := exists_of_relied (hrelied .clockAsRead (by simp [clockReliance]))
    obtain ⟨before'', hbefore'', hactive⟩ := exists_of_relied (hrelied .outcomeOpen (by simp [clockReliance]))
    obtain rfl := Option.some.inj (hbefore.symm.trans hbefore')
    obtain rfl := Option.some.inj (hbefore.symm.trans hbefore'')
    have hfits := addI32_of_fits (hrelied .sumFits (by simp [clockReliance]))
    refine ⟨before, hbefore, by simp [ClockOperation.spendsWish], ?_, rfl, (absurd hactive ·)⟩
    simp [ClockOperation.doomDelta, advanced, hfits, hdoom, hmax]
  · refine { hsofar.later hlater with noSession := fun id hid => ?_, noClock := fun _ _ => rfl }
    by_cases hsame : id = sessionId
    · subst hsame
      simp at hid
    · exact ⟨rfl, if_neg (Ne.symm hsame)⟩

/-- An operation that advances a Puzzle Clock, and neither spends a wish nor advances the Doom Clock. -/
structure AdvancesClock (operation : ClockOperation) (clockId : Uuid) (delta : Int) : Prop where
  clock : ∀ id, operation.clockDelta id = if clockId = id then some delta else none
  wish : ∀ id, operation.spendsWish id = false
  doom : ∀ id, operation.doomDelta id = none

theorem SoFar.safe_writePuzzleClock {world : World} {now : Nat} {clockId : Uuid} {clock : GeniePuzzleClock} {delta : Int}
    {notFound : String} {α : Type} {f : GeniePuzzleClock → Program α} {post : Writes Key.Row → Database → α → Prop}
    (hoperation : AdvancesClock operation clockId delta) (h : SoFar operation writes db)
    (hsessions : ∀ id, writes (.session id) = none) (hclocks : ∀ id, writes (.clock id) = none)
    (hread : ∃ before, db (.clock clockId) = some before ∧ before.segmentsMax = clock.segmentsMax)
    (hrest : ∀ writes' db' updated,
      (∀ db'', (clockDiscipline operations).Later writes' db' db'' → Played operation writes' db'') →
      Safe (clockDiscipline operations) clockReliance post (f updated) writes' db') :
    Safe (clockDiscipline operations) clockReliance post
      (writePuzzleClock world now clockId clock delta notFound >>= f) writes db := by
  have hplayed {writes' : Writes Key.Row} {db' : Database} (h' : SoFar operation writes' db')
      (hwritten : (writes' (.clock clockId)).isSome) (db'' : Database)
      (hlater : (clockDiscipline operations).Later writes' db' db'') : Played operation writes' db'' :=
    { h'.later hlater with
      noSession := fun id _ => ⟨hoperation.wish id, hoperation.doom id⟩
      noClock := fun id hid => by
        rw [hoperation.clock, if_neg]
        rintro rfl
        simp [hid] at hwritten }
  rw [writePuzzleClock, bind_assoc]
  refine safe_updateClock h (hclocks clockId) (fun db₁ hlater hrelied => ?_) fun db₁ after h₁ => ?_
  · obtain ⟨before₀, hbefore₀, hmax₀⟩ := hread
    obtain ⟨before, hbefore, hmax⟩ := hlater.rely.clocks clockId before₀ hbefore₀
    have hrelied' := hrelied .clockAsRead (by simp [clockReliance])
    simp only [overlay_of_none (hclocks clockId)] at hrelied'
    obtain ⟨before', hbefore', hsegments⟩ := exists_of_relied hrelied'
    obtain rfl := Option.some.inj (hbefore.symm.trans hbefore')
    have hfits := addI32_of_fits (hrelied .sumFits (by simp [clockReliance]))
    refine ⟨before, hbefore, ?_, rfl⟩
    simp [hoperation.clock, advanced, hfits, hsegments, hmax, hmax₀]
  · rw [bind_assoc]
    refine Safe.getOr_bind fun updated _ => ?_
    have hwritten : (Function.update writes (.clock clockId) (some (some after)) (.clock clockId)).isSome := by simp
    split_ifs
    · rw [bind_assoc]
      refine Safe.read_bind fun db₂ hlater₂ => ?_
      split_ifs
      · rw [bind_assoc]
        refine safe_updateSession (h₁.later hlater₂) ?_ (fun db₃ _ hrelied => ?_) fun db₃ session h₃ =>
          hrest _ db₃ updated (hplayed h₃ ?_)
        · rw [Function.update_of_ne (by simp), hsessions]
        · have hopen := hrelied .outcomeOpen (by simp [clockReliance])
          rw [overlay_update, Function.update_of_ne (by simp), overlay_of_none (hsessions _)] at hopen
          obtain ⟨before, hbefore, hlost⟩ := exists_of_relied hopen
          refine ⟨before, hbefore, by simp [hoperation.wish], by simp [hoperation.doom], rfl, fun hconcluded => ?_⟩
          cases hstatus : before.status with
          | active => exact absurd hstatus hconcluded
          | won => rfl
          | lost => exact absurd hstatus hlost
        · rw [Function.update_of_ne (by simp)]
          exact hwritten
      · exact hrest _ db₂ updated (hplayed (h₁.later hlater₂) hwritten)
    · exact hrest _ db₁ updated (hplayed h₁ hwritten)

theorem advancePuzzleClock_safe (world : World) (caller : Caller) (now : Nat) (clockId : Uuid) (delta : Int) :
    SafeClockOperation operations world (.advancePuzzleClock caller now clockId delta) := by
  intro db
  unfold ClockOperation.program advancePuzzleClock loadPuzzleClockRow loadSessionRow
  simp only [bind_assoc]
  refine Safe.read_bind fun db₁ h₁ => Safe.getOr_bind fun clock hclock => ?_
  refine Safe.read_bind fun db₂ h₂ => Safe.getOr_bind fun session _ => ?_
  refine Safe.require_bind fun _ => Safe.require_bind fun _ => Safe.require_bind fun _ =>
    Safe.require_bind fun _ => ?_
  refine SoFar.safe_writePuzzleClock ⟨fun _ => rfl, fun _ => rfl, fun _ => rfl⟩
    (.start (.advancePuzzleClock caller now clockId delta) db₂) (fun _ => rfl) (fun _ => rfl)
    (h₂.rely.clocks clockId clock hclock) fun writes₃ db₃ updated hplayed => Safe.pure hplayed

theorem spendOnPuzzleClock_safe (world : World) (caller : Caller) (now : Nat) (clockId actorId : Uuid)
    (resourceType : String) (quantity : Int) : SafeClockOperation operations world
      (.spendResourceOnPuzzleClock caller now clockId actorId resourceType quantity) := by
  intro db
  unfold ClockOperation.program spendResourceOnPuzzleClock requireCallerControlsActor loadPuzzleClockRow
    loadSessionRow loadHoldingQuantity setHoldingQuantity
  simp only [bind_assoc]
  refine Safe.require_bind fun _ => Safe.getOr_bind fun controls _ => Safe.require_bind fun _ => ?_
  refine Safe.read_bind fun db₁ h₁ => Safe.getOr_bind fun clock hclock => ?_
  refine Safe.read_bind fun db₂ h₂ => Safe.getOr_bind fun session _ => ?_
  refine Safe.require_bind fun _ => Safe.require_bind fun _ => Safe.require_bind fun _ => ?_
  refine Safe.read_bind fun db₃ h₃ => Safe.require_bind fun _ => ?_
  refine Safe.update_bind fun db₄ h₄ _ => ?_
  have hread := ((h₂.trans h₃).trans h₄).rely.clocks clockId clock hclock
  refine SoFar.safe_writePuzzleClock ⟨fun _ => rfl, fun _ => rfl, fun _ => rfl⟩
    ((SoFar.start (.spendResourceOnPuzzleClock caller now clockId actorId resourceType quantity) db₄).other ?_ ?_)
    ?_ ?_ hread fun writes₅ db₅ updated hplayed => Safe.pure hplayed
  all_goals intros; simp

theorem ClockOperation.safe (world : World) (operation : ClockOperation) :
    SafeClockOperation operations world operation := by
  cases operation with
  | spendWish caller sessionId narrativeEffect => exact spendWish_safe world caller sessionId narrativeEffect
  | advanceDoomClock caller sessionId delta => exact advanceDoomClock_safe world caller sessionId delta
  | advancePuzzleClock caller now clockId delta => exact advancePuzzleClock_safe world caller now clockId delta
  | spendResourceOnPuzzleClock caller now clockId actorId resourceType quantity =>
      exact spendOnPuzzleClock_safe world caller now clockId actorId resourceType quantity

section history

variable {first last : Database} {commits : List (Commit n Key.Row Answer)}

/-- The advances of a session's Doom Clock among the commits, newest first. -/
def doomAdvances (operations : Fin n → ClockOperation) (commits : List (Commit n Key.Row Answer))
    (sessionId : Uuid) : List Int :=
  commits.filterMap fun commit => (operations commit.call).doomDelta sessionId

/-- The advances of a Puzzle Clock among the commits, newest first. -/
def clockAdvances (operations : Fin n → ClockOperation) (commits : List (Commit n Key.Row Answer))
    (clockId : Uuid) : List Int :=
  commits.filterMap fun commit => (operations commit.call).clockDelta clockId

/-- How many of the commits spent a wish of the session. -/
def wishesSpent (operations : Fin n → ClockOperation) (commits : List (Commit n Key.Row Answer))
    (sessionId : Uuid) : Nat :=
  commits.countP fun commit => (operations commit.call).spendsWish sessionId

theorem session_of_history (h : History (clockDiscipline operations) first commits last) {sessionId : Uuid}
    {before : GenieSession} (hbefore : first (.session sessionId) = some before) :
    ∃ after, last (.session sessionId) = some after ∧
      after.wishesRemaining = before.wishesRemaining - wishesSpent operations commits sessionId ∧
      after.doomClockMax = before.doomClockMax ∧
      after.doomClockCurrent =
        (doomAdvances operations commits sessionId).foldr (advanced before.doomClockMax) before.doomClockCurrent := by
  induction commits generalizing last with
  | nil =>
      rw [← show first = last from h]
      exact ⟨before, hbefore, by simp [wishesSpent], rfl, rfl⟩
  | cons commit earlier ih =>
      obtain ⟨hearlier, -, hpost, rfl⟩ := h
      obtain ⟨mid, hmid, hwishes, hmax, hdoom⟩ := ih hearlier
      obtain ⟨after, hafter, hstep⟩ := hpost.session hmid
      refine ⟨after, hafter, ?_, hstep.doomMax.trans hmax, ?_⟩
      · rw [hstep.wishes, hwishes, wishesSpent, wishesSpent, List.countP_cons]
        split_ifs <;> omega
      · rw [hstep.doom, hmax, hdoom, doomAdvances, doomAdvances, List.filterMap_cons]
        cases (operations commit.call).doomDelta sessionId <;> rfl

theorem clock_of_history (h : History (clockDiscipline operations) first commits last) {clockId : Uuid}
    {before : GeniePuzzleClock} (hbefore : first (.clock clockId) = some before) :
    ∃ after, last (.clock clockId) = some after ∧ after.segmentsMax = before.segmentsMax ∧
      after.segmentsCurrent =
        (clockAdvances operations commits clockId).foldr (advanced before.segmentsMax) before.segmentsCurrent := by
  induction commits generalizing last with
  | nil =>
      rw [← show first = last from h]
      exact ⟨before, hbefore, rfl, rfl⟩
  | cons commit earlier ih =>
      obtain ⟨hearlier, -, hpost, rfl⟩ := h
      obtain ⟨mid, hmid, hmax, hsegments⟩ := ih hearlier
      obtain ⟨after, hafter, hstep⟩ := hpost.clock hmid
      refine ⟨after, hafter, hstep.segmentsMax.trans hmax, ?_⟩
      rw [hstep.segments, hmax, hsegments, clockAdvances, clockAdvances, List.filterMap_cons]
      cases (operations commit.call).clockDelta clockId <;> rfl

end history

end

section run

variable (world : World) {n : Nat} (operations : Fin n → ClockOperation) (first : Database)

/-- The calls on a session after some actions. -/
def playAfter (actions : List (Action n)) : System n Key.Row Reliance String Answer :=
  Run.run step (System.start (fun i => (operations i).program world) first) actions

/-- What a run makes of sessions and clocks: an outcome once reached is the outcome at the end, as many
wishes have left a pool as were spent, and the clocks are where the advances leave them, each clamped, in
the order of their commits. -/
structure PlayedHonestly (actions : List (Action n)) : Prop where
  outcome : ∀ earlier later, earlier ++ later = actions → ∀ sessionId before,
    (playAfter world operations first earlier).db (.session sessionId) = some before →
    before.status ≠ .active → ∃ after,
      (playAfter world operations first actions).db (.session sessionId) = some after ∧ after.status = before.status
  wishes : ∀ sessionId before, first (.session sessionId) = some before → ∃ after,
    (playAfter world operations first actions).db (.session sessionId) = some after ∧
      after.wishesRemaining = before.wishesRemaining -
        wishesSpent operations (playAfter world operations first actions).commits sessionId
  doomClock : ∀ sessionId before, first (.session sessionId) = some before → ∃ after,
    (playAfter world operations first actions).db (.session sessionId) = some after ∧
      after.doomClockCurrent =
        (doomAdvances operations (playAfter world operations first actions).commits sessionId).foldr
          (advanced before.doomClockMax) before.doomClockCurrent
  puzzleClocks : ∀ clockId before, first (.clock clockId) = some before → ∃ after,
    (playAfter world operations first actions).db (.clock clockId) = some after ∧
      after.segmentsCurrent =
        (clockAdvances operations (playAfter world operations first actions).commits clockId).foldr
          (advanced before.segmentsMax) before.segmentsCurrent

/-- Sessions are played honestly in every run in which what each write was computed from still holds. -/
theorem sessions_played_honestly (actions : List (Action n))
    (hmeets : Run.Meets step (Relied clockReliance)
      (System.start (fun i => (operations i).program world) first) actions) :
    PlayedHonestly world operations first actions := by
  have hsound {actions : List (Action n)} (hmeets : Run.Meets step (Relied clockReliance)
      (System.start (fun i => (operations i).program world) first) actions) :
      Sound (clockDiscipline operations) clockReliance first (playAfter world operations first actions) :=
    Sound.run trivial (fun i => (operations i).safe world first) hmeets
  refine ⟨fun earlier later hsplit sessionId before hbefore hconcluded => ?_, fun sessionId before hbefore => ?_,
    fun sessionId before hbefore => ?_, fun clockId before hbefore => ?_⟩
  · subst hsplit
    obtain ⟨hearlier, hlater⟩ := Run.Meets.append.mp hmeets
    have hstands := ((hsound hearlier).rely_run hlater).sessions sessionId before hbefore
    rw [playAfter, ← Run.run_append] at hstands
    obtain ⟨after, hafter, -, hstatus⟩ := hstands
    exact ⟨after, hafter, hstatus hconcluded⟩
  · obtain ⟨after, hafter, hwishes, -, -⟩ := session_of_history (hsound hmeets).history hbefore
    exact ⟨after, hafter, hwishes⟩
  · obtain ⟨after, hafter, -, -, hdoom⟩ := session_of_history (hsound hmeets).history hbefore
    exact ⟨after, hafter, hdoom⟩
  · obtain ⟨after, hafter, -, hsegments⟩ := clock_of_history (hsound hmeets).history hbefore
    exact ⟨after, hafter, hsegments⟩

end run

/-- A world in play, with session 1 and its clock 5. -/
def tableInPlay : World where
  controlsActor _ _ _ := some true
  isDmOfWorld _ _ _ := true
  paused _ := false
  actorWorldId _ := some 0
  itemExists _ := true
  sessionIds := [1]
  clockIds := [5]

def gameMaster : Caller where
  userId := 100
  isAdmin := false

/-- The session with so many wishes left, standing so. -/
def sessionOf (wishesRemaining : Int) (status : SessionStatus) : GenieSession where
  worldId := 0
  wishesRemaining
  doomClockCurrent := 4
  doomClockMax := 6
  status

/-- The last clock one segment short. -/
def lastSegment : Database
  | .session id => if id = 1 then some (sessionOf 3 .active) else none
  | .clock id =>
    if id = 5 then some { sessionId := 1, segmentsCurrent := 3, segmentsMax := 4, resolvedAt := none } else none
  | .holding _ _ _ => 0
  | .proposal _ => none
  | .listing _ => none
  | .stock _ _ => none

/-- The Doom Clock advances by one, and so does the Puzzle Clock. -/
def doomAndPuzzle : Fin 2 → ClockOperation
  | 0 => .advanceDoomClock gameMaster 1 1
  | 1 => .advancePuzzleClock gameMaster 1000 5 1

/-- The Doom Clock first, then the Puzzle Clock, which wins the session. -/
theorem doom_then_puzzle : PlayedHonestly tableInPlay doomAndPuzzle lastSegment
    (List.replicate 3 (.step 0) ++ List.replicate 6 (.step 1)) :=
  sessions_played_honestly tableInPlay doomAndPuzzle lastSegment _ (by decide +kernel)

/-- The Doom Clock's advance reads the session, the Puzzle Clock wins it, and the session is active again. -/
theorem win_undone : ¬PlayedHonestly tableInPlay doomAndPuzzle lastSegment
    ((.step 0 :: List.replicate 6 (.step 1)) ++ List.replicate 2 (.step 0)) := by
  intro h
  obtain ⟨after, hafter, hstatus⟩ := h.outcome (.step 0 :: List.replicate 6 (.step 1)) _ rfl 1
    (sessionOf 3 .won) (by decide +kernel) (by decide)
  have hactive : some after = some { sessionOf 3 .active with doomClockCurrent := 5 } := by
    rw [← hafter]
    decide +kernel
  obtain rfl := Option.some.inj hactive
  exact absurd hstatus (by decide)

end ThunderForge.Genie
