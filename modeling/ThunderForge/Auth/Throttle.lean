import Mathlib.Algebra.BigOperators.Group.Finset.Piecewise
import Mathlib.Data.Fintype.Card
import ThunderForge.Lib.RateWindow
import ThunderForge.Lib.Run

/-! The pause after wrong second factors, over any number of guarded calls on one account at the same
time. Times are microseconds. The check, the verification and the count are steps of their own, so
the bound on guesses holds in the runs in which the check still holds when the verification is run. -/

namespace ThunderForge.Auth

/-- `MAX_CONSECUTIVE_FAILURES`. -/
def maxConsecutiveFailures : Nat := 5

/-- `COOLING_OFF`: sixty seconds. -/
def coolingOff : Nat := 60 * 1000000

/-- What the throttle keeps about an account. -/
structure ThrottleRow where
  attempts : Nat := 0
  lockedUntil : Option Nat := none
  deriving DecidableEq

def isCoolingOff (lockedUntil : Option Nat) (now : Nat) : Bool := lockedUntil.any fun until_ => now < until_

/-- `i32::saturating_add(1)` of a count. -/
def saturatingCount (attempts : Nat) : Nat := min (attempts + 1) (2 ^ 31 - 1)

theorem isCoolingOff_some {until_ now : Nat} : isCoolingOff (some until_) now = false ↔ until_ ≤ now := by
  simp [isCoolingOff]

/-- The count and pause after a failure: reaching the bound starts a pause and resets the count. -/
def afterFailure (attempts now : Nat) : Nat × Option Nat :=
  if maxConsecutiveFailures ≤ saturatingCount attempts then (0, some (now + coolingOff))
  else (saturatingCount attempts, none)

/-- The row `record_failure` writes, having locked it. -/
def ThrottleRow.recordFailure (row : ThrottleRow) (now : Nat) : ThrottleRow where
  attempts := (afterFailure row.attempts now).1
  lockedUntil := (afterFailure row.attempts now).2.or row.lockedUntil

/-- The row `record_success` writes. -/
def ThrottleRow.recordSuccess (_ : ThrottleRow) : ThrottleRow := {}

/-- What the verification handed to `guarded` comes to. -/
inductive Verdict where
  | right
  | wrong
  | error
  deriving DecidableEq

/-- How far a guarded call has come. `check` and `record_failure` look at the clock before they reach
the database. -/
inductive GuardedPhase where
  | arriving
  | checking (now : Nat)
  | throttled
  | allowed
  | verifiedWrong
  | recordingFailure (now : Nat)
  | refused
  | verifiedRight
  | held
  | failed
  deriving DecidableEq

/-- What a guarded call does next, given the clock, whether the database answers it and what its
verification would come to. -/
def guardedStep (time : Nat) (answered : Bool) (verdict : Verdict) (row : ThrottleRow) :
    GuardedPhase → ThrottleRow × GuardedPhase
  | .arriving => (row, .checking time)
  | .checking now => (row, if !answered || isCoolingOff row.lockedUntil now then .throttled else .allowed)
  | .allowed =>
    match verdict with
    | .right => (row, .verifiedRight)
    | .wrong => (row, .verifiedWrong)
    | .error => (row, .failed)
  | .verifiedWrong => (row, .recordingFailure time)
  | .recordingFailure now => (if answered then row.recordFailure now else row, .refused)
  | .verifiedRight => (if answered then row.recordSuccess else row, .held)
  | .throttled => (row, .throttled)
  | .refused => (row, .refused)
  | .held => (row, .held)
  | .failed => (row, .failed)

/-- The clock, the account, how far each call has come, and the verifications that were run, newest
first: when each came out, and whether it was right. -/
structure Throttle (n : Nat) where
  time : Nat
  row : ThrottleRow
  phase : Fin n → GuardedPhase
  log : List (Nat × Bool)

inductive ThrottleAction (n : Nat) where
  | wait (duration : Nat)
  | step (i : Fin n) (answered : Bool) (verdict : Verdict)

/-- The verification a step runs, when it runs one that comes to an answer. -/
def verified (phase : GuardedPhase) (verdict : Verdict) : Option Bool :=
  match phase, verdict with
  | .allowed, .right => some true
  | .allowed, .wrong => some false
  | _, _ => none

def throttleStep {n : Nat} (s : Throttle n) : ThrottleAction n → Throttle n
  | .wait duration => { s with time := s.time + duration }
  | .step i answered verdict =>
    let (row, phase) := guardedStep s.time answered verdict s.row (s.phase i)
    { s with
      row
      phase := Function.update s.phase i phase
      log := ((verified (s.phase i) verdict).map (s.time, ·)).toList ++ s.log }

/-- Every call still to come. -/
def Throttle.start (n time : Nat) (row : ThrottleRow) : Throttle n where
  time
  row
  phase _ := .arriving
  log := []

/-- No span shorter than the pause in which no verification succeeded contains more wrong
verifications than the bound. -/
def GuessesBounded {n : Nat} (s : Throttle n) : Prop :=
  RateWindow.Bounded (!·) id maxConsecutiveFailures coolingOff s.log

/-- A wrong verification that the count does not show yet. -/
def GuardedPhase.isUnrecorded : GuardedPhase → Bool
  | .verifiedWrong | .recordingFailure _ => true
  | _ => false

def Throttle.unrecorded {n : Nat} (s : Throttle n) : Nat :=
  (Finset.univ.filter fun i => (s.phase i).isUnrecorded).card

/-- The check still holds at a wrong verification: no pause is running, the wrong verifications
counted and those still to be counted leave room for one more, and no success is waiting to clear
them. A failure is recorded, and a pause it starts counts from the last wrong verification or later. -/
def CheckHolds {n : Nat} (s : Throttle n) : ThrottleAction n → Prop
  | .wait _ => True
  | .step i answered verdict =>
    match s.phase i with
    | .allowed => verdict = .wrong → isCoolingOff s.row.lockedUntil s.time = false ∧
        s.row.attempts + s.unrecorded < maxConsecutiveFailures ∧ ∀ j, s.phase j ≠ .verifiedRight
    | .recordingFailure now => answered = true ∧ (maxConsecutiveFailures ≤ s.row.attempts + 1 →
        ∀ event ∈ RateWindow.sinceGood id s.log, event.1 ≤ now)
    | _ => True

instance {n : Nat} (s : Throttle n) (action : ThrottleAction n) : Decidable (CheckHolds s action) := by
  unfold CheckHolds
  split
  · infer_instance
  · split <;> infer_instance

section

variable {n : Nat} {s : Throttle n} {row row' : ThrottleRow} {now time : Nat}

theorem ThrottleRow.recordFailure_below (h : row.attempts + 1 < maxConsecutiveFailures) :
    row.recordFailure now = { row with attempts := row.attempts + 1 } := by
  have hcount : saturatingCount row.attempts = row.attempts + 1 := by
    unfold saturatingCount maxConsecutiveFailures at *
    omega
  unfold recordFailure afterFailure
  rw [hcount, if_neg (not_le.mpr h)]
  rfl

theorem ThrottleRow.recordFailure_reached (h : maxConsecutiveFailures ≤ row.attempts + 1) :
    row.recordFailure now = { attempts := 0, lockedUntil := some (now + coolingOff) } := by
  have hcount : maxConsecutiveFailures ≤ saturatingCount row.attempts := by
    unfold saturatingCount maxConsecutiveFailures at *
    omega
  unfold recordFailure afterFailure
  rw [if_pos hcount]
  rfl

/-- A call moves on: what is still to be counted changes by that call alone. -/
theorem unrecorded_update (i : Fin n) (phase : GuardedPhase) :
    (Finset.univ.filter fun j => (Function.update s.phase i phase j).isUnrecorded).card +
        (s.phase i).isUnrecorded.toNat = s.unrecorded + phase.isUnrecorded.toNat := by
  have hcard (f : Fin n → GuardedPhase) : (Finset.univ.filter fun j => (f j).isUnrecorded).card =
      ∑ j, (f j).isUnrecorded.toNat := by
    rw [Finset.card_filter]
    refine Finset.sum_congr rfl fun j _ => ?_
    cases (f j).isUnrecorded <;> rfl
  have hsplit (f : Fin n → GuardedPhase) : ∑ j, (f j).isUnrecorded.toNat =
      (f i).isUnrecorded.toNat + ∑ j ∈ Finset.univ.erase i, (f j).isUnrecorded.toNat :=
    (Finset.add_sum_erase _ _ (Finset.mem_univ i)).symm
  have hothers : ∑ j ∈ Finset.univ.erase i, (Function.update s.phase i phase j).isUnrecorded.toNat =
      ∑ j ∈ Finset.univ.erase i, (s.phase j).isUnrecorded.toNat := by
    refine Finset.sum_congr rfl fun j hj => ?_
    rw [Function.update_of_ne (Finset.ne_of_mem_erase hj)]
  rw [Throttle.unrecorded, hcard, hcard, hsplit, hsplit s.phase, hothers, Function.update_self]
  omega

/-- What every state reached by steps at which the check holds satisfies. -/
structure Counted (s : Throttle n) : Prop where
  ordered : ∀ event ∈ s.log, event.1 ≤ s.time
  sorted : s.log.Pairwise fun event event' => event'.1 ≤ event.1
  bounded : GuessesBounded s
  recent : ∀ t, s.time ≤ t → isCoolingOff s.row.lockedUntil t = false →
    RateWindow.recent (!·) id coolingOff t s.log ≤ s.row.attempts + s.unrecorded
  uncleared : ∀ i, s.phase i = .verifiedRight → RateWindow.sinceGood id s.log = []

theorem Counted.start : Counted (Throttle.start n time row) where
  ordered := by simp [Throttle.start]
  sorted := List.Pairwise.nil
  bounded := RateWindow.Bounded.nil
  recent _ _ _ := Nat.zero_le _
  uncleared _ _ := rfl

theorem Counted.wait (h : Counted s) (duration : Nat) : Counted (throttleStep s (.wait duration)) where
  ordered event he := (h.ordered event he).trans (Nat.le_add_right _ _)
  sorted := h.sorted
  bounded := h.bounded
  recent t ht := h.recent t ((Nat.le_add_right _ _).trans ht)
  uncleared := h.uncleared

/-- A call that runs no verification moves on. -/
theorem Counted.moveOn (h : Counted s) {i : Fin n} {phase : GuardedPhase} {row' : ThrottleRow}
    (hrecent : ∀ t, s.time ≤ t → isCoolingOff row'.lockedUntil t = false →
      RateWindow.recent (!·) id coolingOff t s.log + (s.phase i).isUnrecorded.toNat ≤
        row'.attempts + s.unrecorded + phase.isUnrecorded.toNat)
    (hphase : phase = .verifiedRight → s.phase i = .verifiedRight) :
    Counted { s with row := row', phase := Function.update s.phase i phase } where
  ordered := h.ordered
  sorted := h.sorted
  bounded := h.bounded
  recent t ht hlock := by
    have hcard := unrecorded_update (s := s) i phase
    have := hrecent t ht hlock
    simp only [Throttle.unrecorded] at this ⊢ hcard
    omega
  uncleared j hj := by
    by_cases hji : j = i
    · subst hji
      exact h.uncleared j (hphase (by simpa using hj))
    · exact h.uncleared j (by simpa [hji] using hj)

/-- A call that moves on and leaves the row as it is. -/
theorem Counted.keepRow (h : Counted s) {i : Fin n} {phase : GuardedPhase}
    (hunrecorded : phase.isUnrecorded = (s.phase i).isUnrecorded)
    (hphase : phase = .verifiedRight → s.phase i = .verifiedRight) :
    Counted { s with row := s.row, phase := Function.update s.phase i phase } := by
  refine h.moveOn (fun t ht hlock => ?_) hphase
  rw [hunrecorded]
  exact Nat.add_le_add_right (h.recent t ht hlock) _

theorem Counted.verifyWrong (h : Counted s) {i : Fin n} (hphase : s.phase i = .allowed)
    (hlock : isCoolingOff s.row.lockedUntil s.time = false)
    (hroom : s.row.attempts + s.unrecorded < maxConsecutiveFailures)
    (hclear : ∀ j, s.phase j ≠ .verifiedRight) :
    Counted { s with
      phase := Function.update s.phase i .verifiedWrong, log := (s.time, false) :: s.log } where
  ordered := List.forall_mem_cons.mpr ⟨le_rfl, h.ordered⟩
  sorted := List.pairwise_cons.mpr ⟨h.ordered, h.sorted⟩
  bounded := h.bounded.cons_bad h.ordered h.sorted ((h.recent s.time le_rfl hlock).trans_lt hroom)
  recent t ht hlock' := by
    have hcard := unrecorded_update (s := s) i .verifiedWrong
    have hold := h.recent t ht hlock'
    have hnew : RateWindow.recent (!·) id coolingOff t ((s.time, false) :: s.log) ≤
        RateWindow.recent (!·) id coolingOff t s.log + 1 := by
      simp only [RateWindow.recent]
      rw [RateWindow.sinceGood_cons_other rfl, List.countP_cons]
      split <;> omega
    rw [hphase] at hcard
    simp only [Throttle.unrecorded, GuardedPhase.isUnrecorded, Bool.toNat_true, Bool.toNat_false] at *
    omega
  uncleared j hj := by
    by_cases hji : j = i
    · subst hji
      simp at hj
    · simp only [Function.update_of_ne hji] at hj
      exact (hclear j hj).elim

theorem Counted.verifyRight (h : Counted s) {i : Fin n} :
    Counted { s with
      phase := Function.update s.phase i .verifiedRight, log := (s.time, true) :: s.log } where
  ordered := List.forall_mem_cons.mpr ⟨le_rfl, h.ordered⟩
  sorted := List.pairwise_cons.mpr ⟨h.ordered, h.sorted⟩
  bounded := h.bounded.cons_other rfl
  recent _ _ _ := by
    rw [RateWindow.recent, RateWindow.sinceGood_cons_good rfl]
    exact Nat.zero_le _
  uncleared _ _ := RateWindow.sinceGood_cons_good rfl

/-- A failure is counted: one more towards the bound, or the start of a pause after which nothing so
far is recent. -/
theorem Counted.recordFailure (h : Counted s) {i : Fin n} (hphase : s.phase i = .recordingFailure now)
    (hlast : maxConsecutiveFailures ≤ s.row.attempts + 1 →
      ∀ event ∈ RateWindow.sinceGood id s.log, event.1 ≤ now) :
    Counted { s with row := s.row.recordFailure now, phase := Function.update s.phase i .refused } := by
  refine h.moveOn (fun t ht hlock => ?_) (by simp)
  simp only [hphase, GuardedPhase.isUnrecorded, Bool.toNat_true, Bool.toNat_false]
  by_cases hreached : maxConsecutiveFailures ≤ s.row.attempts + 1
  · rw [ThrottleRow.recordFailure_reached hreached] at hlock ⊢
    have hzero : RateWindow.recent (!·) id coolingOff t s.log = 0 := by
      refine RateWindow.recent_eq_zero fun event hevent _ => ?_
      have hover : now + coolingOff ≤ t := isCoolingOff_some.mp hlock
      exact (Nat.add_le_add_right (hlast hreached event hevent) _).trans hover
    have hpos := unrecorded_update (s := s) i .refused
    simp only [hphase, GuardedPhase.isUnrecorded, Bool.toNat_true, Bool.toNat_false] at hpos
    rw [hzero]
    omega
  · rw [ThrottleRow.recordFailure_below (not_le.mp hreached)] at hlock ⊢
    have hold := h.recent t ht hlock
    show _ ≤ s.row.attempts + 1 + s.unrecorded + 0
    omega

theorem throttleStep_counted (h : Counted s) (action : ThrottleAction n) (hcheck : CheckHolds s action) :
    Counted (throttleStep s action) := by
  cases action with
  | wait duration => exact h.wait duration
  | step i answered verdict =>
      simp only [CheckHolds] at hcheck
      simp only [throttleStep]
      cases hphase : s.phase i with
      | arriving => exact h.keepRow (by rw [hphase]; rfl) nofun
      | checking now =>
          refine h.keepRow ?_ ?_
          · rw [hphase, guardedStep]
            split <;> rfl
          · rw [guardedStep]
            split <;> exact nofun
      | throttled => exact h.keepRow (by rw [hphase]; rfl) nofun
      | allowed =>
          simp only [hphase] at hcheck
          cases verdict with
          | right => exact h.verifyRight
          | wrong =>
              obtain ⟨hlock, hroom, hclear⟩ := hcheck rfl
              exact h.verifyWrong hphase hlock hroom hclear
          | error => exact h.keepRow (by rw [hphase]; rfl) nofun
      | verifiedWrong => exact h.keepRow (by rw [hphase]; rfl) nofun
      | recordingFailure now =>
          simp only [hphase] at hcheck
          obtain ⟨rfl, hlast⟩ := hcheck
          exact h.recordFailure hphase hlast
      | refused => exact h.keepRow (by rw [hphase]; rfl) nofun
      | verifiedRight =>
          have hnone (t : Nat) : RateWindow.recent (!·) id coolingOff t s.log = 0 := by
            rw [RateWindow.recent, h.uncleared i hphase]
            rfl
          refine h.moveOn (fun t _ _ => ?_) nofun
          rw [hnone, hphase]
          exact Nat.zero_le _
      | held => exact h.keepRow (by rw [hphase]; rfl) nofun
      | failed => exact h.keepRow (by rw [hphase]; rfl) nofun

end

/-- Wrong guesses are bounded in every run at whose verifications the check still holds. -/
theorem guesses_bounded_while_check_holds {n : Nat} (time : Nat) (row : ThrottleRow)
    (actions : List (ThrottleAction n))
    (hmeets : Run.Meets throttleStep CheckHolds (Throttle.start n time row) actions) :
    GuessesBounded (Run.run throttleStep (Throttle.start n time row) actions) :=
  (hmeets.invariant (fun _ action h hcheck => throttleStep_counted h action hcheck) Counted.start).bounded

/-- A guarded call of wrong verification, from its check to its count. -/
def wrongGuess {n : Nat} (i : Fin n) : List (ThrottleAction n) := List.replicate 5 (.step i true .wrong)

/-- Five wrong guesses one after another, and a sixth call, which is paused. -/
theorem guesses_bounded_one_after_another :
    GuessesBounded (Run.run throttleStep (Throttle.start 6 0 {}) ((List.finRange 6).flatMap wrongGuess)) :=
  guesses_bounded_while_check_holds 0 {} _ (by decide +kernel)

/-- Six calls are checked before any of them verifies, and all six verify a wrong code. -/
theorem six_guesses_at_once : ¬GuessesBounded (Run.run throttleStep (Throttle.start 6 0 {})
    ((List.finRange 6).flatMap (fun i => [.step i true .wrong, .step i true .wrong]) ++
      (List.finRange 6).map fun i => .step i true .wrong)) := by
  intro h
  have hsix := h 0 0 (by decide) (by unfold RateWindow.Quiet; decide +kernel)
  revert hsix
  decide +kernel

end ThunderForge.Auth
