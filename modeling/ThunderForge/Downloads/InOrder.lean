import ThunderForge.Downloads.Parts
import ThunderForge.Lib.Run

/-! A file fetched in parts is the file, in whatever order the parts' answers, chunks, failures and retries come.
Each part holds the bytes of the file from its start on, less those handed on; the parts before the cursor are
handed on whole. -/

namespace ThunderForge.Downloads

/-- The input of a download is of this file, which the first answer announces and begins to give. -/
structure PartsInput.Of (input : PartsInput) (file : List UInt8) : Prop where
  size : input.size = file.length
  first : input.first.take (newPart input 0).length <+: file
  settings : ∃ given, input.settings = resolveSettings given

/-- An answer that is accepted carries the file from the asked offset on, as far as was asked. -/
def Response.Honest (response : Response) (file : List UInt8) (input : PartsInput) (first last : Nat) : Prop :=
  checkPart input response first last = .ok () →
    ∀ body ∈ response.body, body.take (last + 1 - first) <+: file.drop first

instance (response : Response) (file : List UInt8) (input : PartsInput) (first last : Nat) :
    Decidable (response.Honest file input first last) :=
  inferInstanceAs (Decidable (_ → _))

/-- The range a part has asked for. -/
def PartRun.asked (run : PartRun) : Option (Nat × Nat) :=
  match run.phase with
  | .asking request => some (request.first, run.last)
  | _ => none

/-- The answer that comes, and for which part. -/
def Action.answered : Action → Option (Nat × Response)
  | part i (.answer response) => some (i, response)
  | _ => none

/-- An answer to what a part has asked is honest. -/
def Honest (file : List UInt8) (input : PartsInput) (s : State) (action : Action) : Prop :=
  ∀ answer ∈ action.answered, ∀ range ∈ (s.parts answer.1).bind PartRun.asked,
    answer.2.Honest file input range.1 range.2

instance (file : List UInt8) (input : PartsInput) (s : State) (action : Action) :
    Decidable (Honest file input s action) :=
  inferInstanceAs (Decidable (∀ answer ∈ action.answered, ∀ range ∈ (s.parts answer.1).bind PartRun.asked,
    answer.2.Honest file input range.1 range.2))

/-- The errors the code makes itself of a part that fails for good. -/
def Thrown.IsOwn : Thrown → Prop
  | downloadError .. | versionChangedError _ => True
  | undefined | null | abortError | typeError | other _ | retryable .. => False

/-- A part that has failed for good. -/
def PartRun.FailedWith (run : PartRun) (error : Thrown) : Prop := run.phase = .rejected error ∨ run.phase = .failed error

/-- An action in which the stream's `pull` runs. -/
def State.Pulls (s : State) : Action → Prop
  | .pull => s.pull = .idle ∧ s.stream = .readable
  | .resume => s.pull = .woken
  | .cancel _ | .abort _ | .part _ _ | .caught _ => False

/-- What is handed on is the file from its start on, and all of it when the stream closes; a part that fails for
good keeps it from closing, and once `fail` is told the stream's next `pull` errors it. -/
structure FetchedInParts (file : List UInt8) (input : PartsInput) (s : State) : Prop where
  inOrder : s.enqueued <+: file
  closed : s.stream = .closed → s.enqueued = file
  failed : ∀ i run error, s.parts i = some run → run.FailedWith error →
    s.stream ≠ .closed ∧ (error.IsOwn ∨ s.aborted = some error)
  told : ∀ i run error, s.parts i = some run → run.phase = .failed error → error ≠ .null → s.failure ≠ .null
  errors : s.failure ≠ .null → s.pull ≠ .waiting ∧ ∀ action, s.Pulls action → s.stream = .readable →
    (step input s action).stream = .errored s.failure

section part

variable {file : List UInt8} {input : PartsInput} {aborted : Option Thrown} {i : Nat} {run : PartRun}

theorem take_append_of_isPrefix {α : Type} {xs ys : List α} {k : Nat} (h : ys <+: xs.drop k) :
    xs.take k ++ ys = xs.take (k + ys.length) := by
  obtain ⟨rest, hrest⟩ := h
  rw [List.take_add, ← hrest, List.take_left]

/-- A part in its place in the file, where what it reads goes on from what it has received. -/
structure PartSound (file : List UInt8) (input : PartsInput) (i : Nat) (run : PartRun) : Prop where
  start : run.start = i * input.settings.partSize
  last : run.last + 1 = min (run.start + input.settings.partSize) file.length
  within : run.start ≤ run.last
  received : run.received ≤ run.length
  done : run.done = true → run.received = run.length ∧ run.phase = .returned
  asking : ∀ request, run.phase = .asking request → request = run.request input
  reading : ∀ body, run.phase = .reading body →
    body.take (run.length - run.received) <+: file.drop (run.start + run.received)

/-- The bytes a part holds follow on `base`. -/
def PartRun.Follows (file base : List UInt8) (run : PartRun) : Prop :=
  base ++ run.chunks.flatten = file.take (run.start + run.received)

/-- A part's run goes on with the part as it is, in a phase that does not end it well. -/
theorem PartSound.goOn (h : PartSound file input i run) (hdone : run.done = false) (attempt : Nat)
    (lastStatus : Option Nat) {phase : Phase}
    (hasking : ∀ request, phase = .asking request → request = run.request input)
    (hreading : ∀ body, phase = .reading body →
      body.take (run.length - run.received) <+: file.drop (run.start + run.received)) :
    PartSound file input i { run with attempt, lastStatus, phase } where
  start := h.start
  last := h.last
  within := h.within
  received := h.received
  done hdone' := by rw [hdone] at hdone'; cases hdone'
  asking := hasking
  reading := hreading

/-- What an event does to a part. -/
structure Advance (file : List UInt8) (input : PartsInput) (aborted : Option Thrown) (i : Nat)
    (run run' : PartRun) : Prop where
  sound : PartSound file input i run'
  follows : ∀ base, run.Follows file base → run'.Follows file base
  rejected : ∀ error, run'.phase = .rejected error →
    run.phase = .rejected error ∨ error.IsOwn ∨ aborted = some error
  failed : ∀ error, run'.phase = .failed error → run.phase = .failed error

theorem PartSound.stays (h : PartSound file input i run) : Advance file input aborted i run run where
  sound := h
  follows _ hfollows := hfollows
  rejected _ hphase := Or.inl hphase
  failed _ hphase := hphase

/-- The part goes on in a phase that is no end. -/
theorem PartSound.moves (h : PartSound file input i run) (hdone : run.done = false) (attempt : Nat)
    (lastStatus : Option Nat) {phase : Phase}
    (hasking : ∀ request, phase = .asking request → request = run.request input)
    (hreading : ∀ body, phase = .reading body →
      body.take (run.length - run.received) <+: file.drop (run.start + run.received))
    (hrejected : ∀ error, phase = .rejected error → error.IsOwn ∨ aborted = some error)
    (hfailed : ∀ error, phase ≠ .failed error) :
    Advance file input aborted i run { run with attempt, lastStatus, phase } where
  sound := h.goOn hdone attempt lastStatus hasking hreading
  follows _ hfollows := hfollows
  rejected error hphase := Or.inr (hrejected error hphase)
  failed error hphase := absurd hphase (hfailed error)

theorem PartSound.caught (h : PartSound file input i run) (hdone : run.done = false) (lastStatus : Option Nat)
    (error : Thrown) :
    Advance file input aborted i run ({ run with lastStatus }.caught input aborted error) := by
  unfold PartRun.caught
  cases aborted with
  | some reason =>
      exact h.moves hdone run.attempt lastStatus (by simp) (by simp) (by simp) (by simp)
  | none =>
      have hagain : Advance file input none i run
          (if run.attempt + 1 > input.settings.retries then
            { run with
              attempt := run.attempt + 1, lastStatus
              phase := .rejected (.downloadError input.url lastStatus error) }
          else
            { run with
              attempt := run.attempt + 1, lastStatus
              phase := .pausing (retryDelay input.settings (run.attempt + 1)) }) := by
        split_ifs
        · exact h.moves hdone _ lastStatus (by simp) (by simp) (by simp [Thrown.IsOwn]) (by simp)
        · exact h.moves hdone _ lastStatus (by simp) (by simp) (by simp) (by simp)
      cases error with
      | versionChangedError url =>
          exact h.moves hdone run.attempt lastStatus (by simp) (by simp) (by simp [Thrown.IsOwn]) (by simp)
      | downloadError url status cause =>
          exact h.moves hdone run.attempt lastStatus (by simp) (by simp) (by simp [Thrown.IsOwn]) (by simp)
      | undefined | null | abortError | typeError | other | retryable => exact hagain

theorem PartSound.notDone (h : PartSound file input i run) (hphase : run.phase ≠ .returned) :
    run.done = false := by
  by_contra hdone
  exact hphase (h.done (by simpa using hdone)).2

theorem PartSound.end_eq (h : PartSound file input i run) : run.start + run.length = run.last + 1 := by
  have := h.within
  unfold Part.length
  omega

theorem PartSound.onAnswer (h : PartSound file input i run) {request : RangeRequest}
    (hphase : run.phase = .asking request) {response : Response}
    (hhonest : response.Honest file input request.first run.last) :
    Advance file input aborted i run (run.onAnswer input aborted request response) := by
  have hdone := h.notDone (by rw [hphase]; simp)
  have hrequest : request.first = run.start + run.received := by rw [h.asking request hphase]; rfl
  unfold PartRun.onAnswer
  cases hcheck : checkPart input response request.first run.last with
  | error error => simpa only [hcheck] using h.caught hdone (some response.status) error
  | ok accepted =>
      cases hbody : response.body with
      | none => simpa only [hcheck] using h.caught hdone (some response.status) .typeError
      | some body =>
          have hgives := hhonest hcheck body hbody
          have hlength : run.last + 1 - request.first = run.length - run.received := by
            have := h.end_eq
            omega
          rw [hlength, hrequest] at hgives
          simp only [hcheck, PartRun.readFrom]
          refine h.moves hdone run.attempt (some response.status) ?_ ?_ ?_ ?_
          · split_ifs <;> simp
          · intro body' hread
            split_ifs at hread
            obtain rfl := Phase.reading.inj hread
            exact hgives
          · split_ifs <;> simp
          · split_ifs <;> simp

/-- What is left of a body after a chunk goes on where the chunk ends. -/
theorem drop_isPrefix {body rest : List UInt8} {missing byteLength : Nat} (h : body.take missing <+: rest) :
    (body.drop byteLength).take (missing - ((body.take byteLength).take missing).length) <+:
      rest.drop ((body.take byteLength).take missing).length := by
  rw [List.take_take]
  by_cases hcut : min missing byteLength = missing
  · rw [hcut]
    by_cases hlong : missing ≤ body.length
    · rw [List.length_take_of_le hlong, Nat.sub_self, List.take_zero]
      exact List.nil_prefix
    · rw [List.drop_eq_nil_of_le (by omega), List.take_nil]
      exact List.nil_prefix
  · have hlt : byteLength < missing := by omega
    rw [min_eq_right hlt.le]
    by_cases hlong : byteLength ≤ body.length
    · rw [List.length_take_of_le hlong, ← List.drop_take]
      exact h.drop byteLength
    · rw [List.drop_eq_nil_of_le (by omega), List.take_nil]
      exact List.nil_prefix

theorem PartSound.onChunk (h : PartSound file input i run) {body : List UInt8} (hphase : run.phase = .reading body)
    (byteLength : Nat) : Advance file input aborted i run (run.onChunk body byteLength).1 := by
  have hdone := h.notDone (by rw [hphase]; simp)
  have hgives := h.reading body hphase
  have hrest : (body.drop byteLength).take
        (run.length - run.received - ((body.take byteLength).take (run.length - run.received)).length) <+:
      (file.drop (run.start + run.received)).drop
        ((body.take byteLength).take (run.length - run.received)).length := drop_isPrefix hgives
  have hchunk : (body.take byteLength).take (run.length - run.received) <+: file.drop (run.start + run.received) := by
    rw [List.take_take, min_comm, ← List.take_take]
    exact (List.take_prefix byteLength _).trans hgives
  have hlength : ((body.take byteLength).take (run.length - run.received)).length ≤ run.length - run.received :=
    List.length_take_le ..
  unfold PartRun.onChunk
  generalize (body.take byteLength).take (run.length - run.received) = chunk at hrest hchunk hlength
  simp only
  split_ifs with hnil
  · subst hnil
    refine h.moves hdone run.attempt run.lastStatus (by simp) ?_ (by simp) (by simp)
    intro body' hread
    obtain rfl := Phase.reading.inj hread
    simpa using hrest
  · have hreceived := h.received
    simp only [PartRun.readFrom]
    refine ⟨⟨h.start, h.last, h.within, ?_, ?_, ?_, ?_⟩, ?_, ?_, ?_⟩
    · change run.received + chunk.length ≤ run.length
      omega
    · intro hdone'
      rw [hdone] at hdone'
      cases hdone'
    · intro request hask
      split_ifs at hask
    · intro body' hread
      split_ifs at hread
      obtain rfl := Phase.reading.inj hread
      change (body.drop byteLength).take (run.length - (run.received + chunk.length)) <+:
        file.drop (run.start + (run.received + chunk.length))
      rwa [Nat.sub_sub, List.drop_drop, Nat.add_assoc] at hrest
    · intro base hfollows
      change base ++ (run.chunks ++ [chunk]).flatten = file.take (run.start + (run.received + chunk.length))
      calc
        base ++ (run.chunks ++ [chunk]).flatten = (base ++ run.chunks.flatten) ++ chunk := by simp
        _ = file.take (run.start + run.received) ++ chunk := by rw [hfollows]
        _ = file.take (run.start + (run.received + chunk.length)) := by
          rw [take_append_of_isPrefix hchunk, Nat.add_assoc]
    · intro error hphase'
      split_ifs at hphase'
    · intro error hphase'
      split_ifs at hphase'

theorem PartSound.afterRead (h : PartSound file input i run) (hphase : run.phase = .read) :
    Advance file input aborted i run (run.afterRead input aborted).1 := by
  have hdone := h.notDone (by rw [hphase]; simp)
  unfold PartRun.afterRead
  split_ifs with hshort
  · dsimp only
    exact h.caught hdone run.lastStatus _
  · have hwhole : run.received = run.length := le_antisymm h.received (not_lt.mp hshort)
    exact
      { sound := ⟨h.start, h.last, h.within, h.received, fun _ => ⟨hwhole, rfl⟩, by simp, by simp⟩
        follows := fun _ hfollows => hfollows
        rejected := by simp
        failed := by simp }

/-- Every event leaves a part sound. -/
theorem PartSound.after (h : PartSound file input i run) {event : PartEvent}
    (hhonest : ∀ response request, event = .answer response → run.phase = .asking request →
      response.Honest file input request.first run.last) :
    Advance file input aborted i run (run.after input aborted event).1 := by
  unfold PartRun.after
  split
  case h_1 request response hphase => exact h.onAnswer hphase (hhonest response request rfl hphase)
  case h_2 request error hphase =>
      exact h.caught (h.notDone (by rw [hphase]; simp)) run.lastStatus error
  case h_3 body byteLength hphase => exact h.onChunk hphase byteLength
  case h_4 body hphase =>
      exact h.moves (h.notDone (by rw [hphase]; simp)) run.attempt run.lastStatus (by simp) (by simp) (by simp)
        (by simp)
  case h_5 body error hphase =>
      exact h.moves (h.notDone (by rw [hphase]; simp)) run.attempt run.lastStatus (by simp) (by simp) (by simp)
        (by simp)
  case h_6 hphase => exact h.afterRead hphase
  case h_7 error hphase => exact h.caught (h.notDone (by rw [hphase]; simp)) run.lastStatus error
  case h_8 ms hphase =>
      exact h.moves (h.notDone (by rw [hphase]; simp)) run.attempt run.lastStatus (by simp) (by simp) (by simp)
        (by simp)
  case h_9 ms hphase =>
      cases aborted with
      | none => exact h.stays
      | some reason =>
          exact h.moves (h.notDone (by rw [hphase]; simp)) run.attempt run.lastStatus (by simp) (by simp) (by simp)
            (by simp)
  case h_10 => exact h.stays

theorem PartsInput.Of.pos (hinput : input.Of file) :
    0 < input.settings.partSize ∧ 0 < input.settings.concurrency := by
  obtain ⟨given, hgiven⟩ := hinput.settings
  rw [hgiven]
  exact ⟨Nat.lt_of_lt_of_le Nat.one_pos (Nat.le_max_left ..), Nat.lt_of_lt_of_le Nat.one_pos (Nat.le_max_left ..)⟩

theorem lt_count_iff (hinput : input.Of file) (i : Nat) :
    i < input.count ↔ i * input.settings.partSize < file.length := by
  have hpos := hinput.pos.1
  rw [PartsInput.count, hinput.size, Nat.lt_iff_add_one_le, Nat.le_div_iff_mul_le hpos, Nat.add_mul]
  omega

/-- A part is made in its place. -/
theorem newPart_sound (hinput : input.Of file) {i : Nat} (hi : i < input.count) :
    PartSound file input i (newPart input i) ∧ (newPart input i).chunks = [] ∧ (newPart input i).received = 0 ∧
      ∀ error, ¬(newPart input i).FailedWith error := by
  have hpos := hinput.pos.1
  rw [lt_count_iff hinput] at hi
  have hplace (phase : Phase) (hreturned : phase ≠ .returned)
      (hasking : ∀ request, phase = .asking request → request =
        { first := i * input.settings.partSize + 0
          last := min (i * input.settings.partSize + input.settings.partSize) input.size - 1
          ifRange := (input.validator.etag.or input.validator.lastModified).filter fun tag => truthy (some tag) })
      (hreading : ∀ body, phase = .reading body → i = 0 ∧ body = input.first) :
      PartSound file input i
        { start := i * input.settings.partSize
          last := min (i * input.settings.partSize + input.settings.partSize) input.size - 1
          received := 0, chunks := [], done := false, attempt := 0, lastStatus := none, phase } := by
    refine ⟨rfl, ?_, ?_, Nat.zero_le _, by simp, hasking, ?_⟩
    · simp only [hinput.size]
      omega
    · simp only [hinput.size]
      omega
    · intro body hread
      obtain ⟨rfl, rfl⟩ := hreading body hread
      have hfirst := hinput.first
      simpa [newPart, Part.length, PartRun.readFrom] using hfirst
  unfold newPart
  simp only
  split_ifs with hzero
  · refine ⟨?_, rfl, rfl, ?_⟩
    · unfold PartRun.readFrom
      exact hplace _ (by split_ifs <;> simp) (by split_ifs <;> simp)
        (by split_ifs <;> simp [hzero, Eq.comm])
    · intro error hfailed
      unfold PartRun.readFrom PartRun.FailedWith at hfailed
      split_ifs at hfailed <;> simp at hfailed
  · refine ⟨hplace _ (by simp) ?_ (by simp), rfl, rfl, ?_⟩
    · intro request hrequest
      obtain rfl := Phase.asking.inj hrequest
      rfl
    · intro error hfailed
      simp [PartRun.FailedWith] at hfailed

end part

section state

variable {file : List UInt8} {input : PartsInput} {s : State}

/-- What the parts from `i` on follow: what is handed on, or what will be when it is their turn. -/
def State.before (file : List UInt8) (input : PartsInput) (s : State) (i : Nat) : List UInt8 :=
  if i = s.next then s.enqueued else file.take (i * input.settings.partSize)

/-- While the stream is readable, the parts before the cursor are handed on whole and the others hold what they
have received of the file. -/
structure Delivering (file : List UInt8) (input : PartsInput) (s : State) : Prop where
  cursor : s.parts s.next = none → s.enqueued = file.take (s.next * input.settings.partSize)
  ahead : ∀ i run, s.parts i = some run → s.next ≤ i
  follows : ∀ i run, s.parts i = some run → run.Follows file (s.before file input i)

/-- What holds in every state of a download. -/
structure Sound (file : List UInt8) (input : PartsInput) (s : State) : Prop where
  part : ∀ i run, s.parts i = some run → i < input.count ∧ PartSound file input i run
  own : ∀ i run error, s.parts i = some run → run.FailedWith error → error.IsOwn ∨ s.aborted = some error
  told : ∀ i run error, s.parts i = some run → run.phase = .failed error → error ≠ .null → s.failure ≠ .null
  awake : s.failure ≠ .null → s.pull ≠ .waiting
  inOrder : s.enqueued <+: file
  closed : s.stream = .closed → s.enqueued = file ∧ s.pull = .idle ∧ ∀ i, s.parts i = none
  delivering : s.stream = .readable → Delivering file input s

theorem Delivering.inOrder (h : Delivering file input s) : s.enqueued <+: file := by
  cases hpart : s.parts s.next with
  | none =>
      rw [h.cursor hpart]
      exact List.take_prefix ..
  | some run =>
      have hfollows := h.follows s.next run hpart
      rw [State.before, if_pos rfl] at hfollows
      exact (List.prefix_append _ _).trans (hfollows ▸ List.take_prefix _ file)

theorem Sound.start : Sound file input State.start where
  part _ _ hpart := by cases hpart
  own _ _ _ hpart := by cases hpart
  told _ _ _ hpart := by cases hpart
  awake hfailure := absurd rfl hfailure
  inOrder := List.nil_prefix
  closed hclosed := by cases hclosed
  delivering _ :=
    { cursor := fun _ => by simp [State.start]
      ahead := fun _ _ hpart => by cases hpart
      follows := fun _ _ hpart => by cases hpart }

/-- Only the reader's side has changed. -/
theorem Sound.setPull (h : Sound file input s) {pull : Pull} (hwaiting : s.failure ≠ .null → pull ≠ .waiting)
    (hclosed : s.stream = .closed → pull = .idle) : Sound file input { s with pull } where
  part := h.part
  own := h.own
  told := h.told
  awake := hwaiting
  inOrder := h.inOrder
  closed hstream := ⟨(h.closed hstream).1, hclosed hstream, (h.closed hstream).2.2⟩
  delivering hstream := ⟨(h.delivering hstream).cursor, (h.delivering hstream).ahead, (h.delivering hstream).follows⟩

theorem Sound.notify (h : Sound file input s) : Sound file input s.notify := by
  unfold State.notify
  split_ifs with hwaiting
  · refine h.setPull (by simp) fun hclosed => ?_
    rw [(h.closed hclosed).2.1] at hwaiting
    cases hwaiting
  · exact h

theorem Sound.load (h : Sound file input s) (n : Nat) : Sound file input { s with loaded := s.loaded + n } where
  part := h.part
  own := h.own
  told := h.told
  awake := h.awake
  inOrder := h.inOrder
  closed := h.closed
  delivering hstream := ⟨(h.delivering hstream).cursor, (h.delivering hstream).ahead, (h.delivering hstream).follows⟩

theorem Sound.tell (h : Sound file input s) (told : Told) : Sound file input (s.tell told) := by
  cases told with
  | nothing => exact h
  | bytes n => exact (h.load n).notify
  | done => exact h.notify

theorem Sound.abort (h : Sound file input s) (reason : Thrown) : Sound file input (s.abort reason) where
  part := h.part
  own i run error hpart hfailed := by
    refine (h.own i run error hpart hfailed).imp_right fun haborted => ?_
    simp [State.abort, haborted]
  told := h.told
  awake := h.awake
  inOrder := h.inOrder
  closed := h.closed
  delivering hstream := ⟨(h.delivering hstream).cursor, (h.delivering hstream).ahead, (h.delivering hstream).follows⟩

/-- A part's run goes on. -/
theorem Sound.setPart (h : Sound file input s) {i : Nat} {run run' : PartRun} (hpart : s.parts i = some run)
    (hsound : PartSound file input i run') (hfollows : ∀ base, run.Follows file base → run'.Follows file base)
    (hown : ∀ error, run'.FailedWith error → error.IsOwn ∨ s.aborted = some error)
    (htold : ∀ error, run'.phase = .failed error → error ≠ .null → s.failure ≠ .null) :
    Sound file input { s with parts := Function.update s.parts i (some run') } := by
  have hcases {j : Nat} {other : PartRun} (hother : Function.update s.parts i (some run') j = some other) :
      (j = i ∧ run' = other) ∨ s.parts j = some other := by
    by_cases hj : j = i
    · subst hj
      rw [Function.update_self, Option.some.injEq] at hother
      exact Or.inl ⟨rfl, hother⟩
    · rw [Function.update_of_ne hj] at hother
      exact Or.inr hother
  constructor
  case part =>
    intro j other hother
    rcases hcases hother with ⟨rfl, rfl⟩ | hsame
    · exact ⟨(h.part j run hpart).1, hsound⟩
    · exact h.part j other hsame
  case own =>
    intro j other error hother hfailed
    rcases hcases hother with ⟨rfl, rfl⟩ | hsame
    · exact hown error hfailed
    · exact h.own j other error hsame hfailed
  case told =>
    intro j other error hother hphase
    rcases hcases hother with ⟨rfl, rfl⟩ | hsame
    · exact htold error hphase
    · exact h.told j other error hsame hphase
  case awake => exact h.awake
  case inOrder => exact h.inOrder
  case closed =>
    intro hclosed
    rw [(h.closed hclosed).2.2 i] at hpart
    cases hpart
  case delivering =>
    intro hstream
    have hdelivering := h.delivering hstream
    refine ⟨fun hnone => hdelivering.cursor ?_, fun j other hother => ?_, fun j other hother => ?_⟩
    · have hnext : s.next ≠ i := by
        intro hnext
        rw [hnext] at hnone
        simp at hnone
      simpa [hnext] using hnone
    · rcases hcases hother with ⟨rfl, rfl⟩ | hsame
      · exact hdelivering.ahead j run hpart
      · exact hdelivering.ahead j other hsame
    · rcases hcases hother with ⟨rfl, rfl⟩ | hsame
      · exact hfollows _ (hdelivering.follows j run hpart)
      · exact hdelivering.follows j other hsame

/-- A part takes an event. -/
theorem Sound.advance (h : Sound file input s) {i : Nat} {run run' : PartRun} (hpart : s.parts i = some run)
    (hadvance : Advance file input s.aborted i run run') :
    Sound file input { s with parts := Function.update s.parts i (some run') } := by
  refine h.setPart hpart hadvance.sound hadvance.follows (fun error hfailed => ?_) fun error hphase => ?_
  · rcases hfailed with hphase | hphase
    · rcases hadvance.rejected error hphase with hbefore | hown
      · exact h.own i run error hpart (Or.inl hbefore)
      · exact hown
    · exact h.own i run error hpart (Or.inr (hadvance.failed error hphase))
  · exact h.told i run error hpart (hadvance.failed error hphase)

theorem pull_notify (s : State) : s.notify.pull ≠ .waiting := by
  unfold State.notify
  split_ifs with hwaiting
  · simp
  · exact hwaiting

/-- The first failure is set where no `pull` waits. -/
theorem Sound.setFailure (h : Sound file input s) (hnone : s.failure = .null) (hpull : s.pull ≠ .waiting)
    (error : Thrown) : Sound file input { s with failure := error } where
  part := h.part
  own := h.own
  told i run error hpart hphase hnull := absurd hnone (h.told i run error hpart hphase hnull)
  awake _ := hpull
  inOrder := h.inOrder
  closed := h.closed
  delivering hstream := ⟨(h.delivering hstream).cursor, (h.delivering hstream).ahead, (h.delivering hstream).follows⟩

theorem fail_eq (s : State) (error : Thrown) :
    s.fail error = if s.failure = .null then { s.notify with failure := error }.abort error else s.notify := by
  unfold State.fail
  split_ifs with hnone
  · unfold State.notify State.abort
    dsimp only
    split_ifs <;> rfl
  · rfl

theorem failure_notify (s : State) : s.notify.failure = s.failure := by
  unfold State.notify
  split_ifs <;> rfl

theorem Sound.fail (h : Sound file input s) (error : Thrown) : Sound file input (s.fail error) := by
  rw [fail_eq]
  split_ifs with hnone
  · exact (h.notify.setFailure ((failure_notify s).trans hnone) (pull_notify s) error).abort error
  · exact h.notify

theorem failure_fail (s : State) {error : Thrown} (herror : error ≠ .null) : (s.fail error).failure ≠ .null := by
  rw [fail_eq]
  split_ifs with hnone
  · exact herror
  · rwa [failure_notify]

theorem parts_fail (s : State) (error : Thrown) : (s.fail error).parts = s.parts := by
  unfold State.fail State.notify State.abort
  split_ifs <;> rfl

theorem fail_setParts (s : State) (parts : Nat → Option PartRun) (error : Thrown) :
    { s with parts }.fail error = { s.fail error with parts } := by
  unfold State.fail State.notify State.abort
  dsimp only
  split_ifs <;> rfl

/-- `fail` is told of a rejection. -/
theorem Sound.caught (h : Sound file input s) {i : Nat} {run : PartRun} {error : Thrown}
    (hpart : s.parts i = some run) (hphase : run.phase = .rejected error) :
    Sound file input
      ({ s with parts := Function.update s.parts i (some { run with phase := .failed error }) }.fail error) := by
  have hsound := (h.part i run hpart).2
  have hdone := hsound.notDone (by rw [hphase]; simp)
  have hpart' : (s.fail error).parts i = some run := by rw [parts_fail, hpart]
  rw [fail_setParts, ← parts_fail s error]
  refine (h.fail error).setPart hpart' (hsound.goOn hdone run.attempt run.lastStatus (by simp) (by simp))
    (fun _ hfollows => hfollows) (fun error' hfailed => ?_) fun error' hfailed hnull => ?_
  · have heq : error = error' := by
      rcases hfailed with hphase' | hphase'
      · cases hphase'
      · exact Phase.failed.inj hphase'
    subst heq
    exact (h.fail error).own i run error hpart' (Or.inl hphase)
  · obtain rfl := Phase.failed.inj hfailed
    exact failure_fail s hnull

theorem startAhead_part {i : Nat} {run : PartRun}
    (hpart : (s.startAhead input).parts i = some run) :
    s.parts i = some run ∨ (s.parts i = none ∧ s.next ≤ i ∧ i < input.count ∧ run = newPart input i) := by
  have hpart' : (s.parts i).or (if s.next ≤ i ∧ i < min input.count (s.next + input.settings.concurrency) then
      some (newPart input i) else none) = some run := hpart
  cases hold : s.parts i with
  | some run' =>
      rw [hold, Option.some_or] at hpart'
      exact Or.inl hpart'
  | none =>
      rw [hold, Option.none_or] at hpart'
      split_ifs at hpart' with hrange
      exact Or.inr ⟨rfl, hrange.1, hrange.2.trans_le (min_le_left ..), (Option.some.inj hpart').symm⟩

theorem Sound.startAhead (hinput : input.Of file) (h : Sound file input s) (hclosed : s.stream ≠ .closed) :
    Sound file input (s.startAhead input) := by
  constructor
  case part =>
    intro i run hpart
    rcases startAhead_part hpart with hold | ⟨-, -, hcount, rfl⟩
    · exact h.part i run hold
    · exact ⟨hcount, (newPart_sound hinput hcount).1⟩
  case own =>
    intro i run error hpart hfailed
    rcases startAhead_part hpart with hold | ⟨-, -, hcount, rfl⟩
    · exact h.own i run error hold hfailed
    · exact absurd hfailed ((newPart_sound hinput hcount).2.2.2 error)
  case told =>
    intro i run error hpart hphase
    rcases startAhead_part hpart with hold | ⟨-, -, hcount, rfl⟩
    · exact h.told i run error hold hphase
    · exact absurd (Or.inr hphase) ((newPart_sound hinput hcount).2.2.2 error)
  case awake => exact h.awake
  case inOrder => exact h.inOrder
  case closed => exact fun hstream => absurd hstream hclosed
  case delivering =>
    intro hstream
    have hdelivering := h.delivering hstream
    refine ⟨fun hnone => hdelivering.cursor (Option.or_eq_none_iff.mp hnone).1, fun i run hpart => ?_,
      fun i run hpart => ?_⟩
    · rcases startAhead_part hpart with hold | ⟨-, hnext, -, -⟩
      · exact hdelivering.ahead i run hold
      · exact hnext
    · rcases startAhead_part hpart with hold | ⟨hnone, -, hcount, rfl⟩
      · exact hdelivering.follows i run hold
      · obtain ⟨hsound, hchunks, hreceived, -⟩ := newPart_sound hinput hcount
        change s.before file input i ++ (newPart input i).chunks.flatten = file.take _
        rw [hchunks, hreceived, hsound.start, List.flatten_nil, List.append_nil, Nat.add_zero, State.before]
        split_ifs with hnext
        · rw [hnext]
          rw [hnext] at hnone
          exact hdelivering.cursor hnone
        · rfl

/-- A running `pull` finds the part it hands on. -/
theorem startAhead_isSome (hinput : input.Of file) (hnext : s.next < input.count) :
    ((s.startAhead input).parts s.next).isSome := by
  have hpos := hinput.pos.2
  change ((s.parts s.next).or (if s.next ≤ s.next ∧ s.next < min input.count (s.next + input.settings.concurrency) then
      some (newPart input s.next) else none)).isSome
  rw [if_pos ⟨le_rfl, lt_min hnext (by omega)⟩]
  cases s.parts s.next <;> rfl

theorem Sound.pullThrows (h : Sound file input s) (hclosed : s.stream ≠ .closed) (error : Thrown) :
    Sound file input (s.pullThrows error) where
  part := h.part
  own := h.own
  told := h.told
  awake _ hwaiting := by cases hwaiting
  inOrder := h.inOrder
  closed hstream := by
    unfold State.pullThrows at hstream
    dsimp only at hstream
    split_ifs at hstream
    exact absurd hstream hclosed
  delivering hstream := by
    unfold State.pullThrows at hstream
    dsimp only at hstream
    split_ifs at hstream with hreadable
    exact absurd hstream hreadable

/-- The chunk that is next is handed on. -/
theorem Sound.enqueue (h : Sound file input s) (hclosed : s.stream ≠ .closed) {run : PartRun}
    (hpart : s.parts s.next = some run) {chunk : List UInt8} {chunks : List (List UInt8)}
    (hchunks : run.chunks = chunk :: chunks) :
    Sound file input
      ({ s with parts := Function.update s.parts s.next (some { run with chunks }) }.enqueue chunk) := by
  have hold := (h.part s.next run hpart).2
  have hsound : PartSound file input s.next { run with chunks } :=
    ⟨hold.start, hold.last, hold.within, hold.received, hold.done, hold.asking, hold.reading⟩
  have hcases {j : Nat} {other : PartRun}
      (hother : Function.update s.parts s.next (some { run with chunks }) j = some other) :
      (j = s.next ∧ { run with chunks } = other) ∨ (j ≠ s.next ∧ s.parts j = some other) := by
    by_cases hj : j = s.next
    · subst hj
      rw [Function.update_self, Option.some.injEq] at hother
      exact Or.inl ⟨rfl, hother⟩
    · rw [Function.update_of_ne hj] at hother
      exact Or.inr ⟨hj, hother⟩
  have hparts : ∀ j other, Function.update s.parts s.next (some { run with chunks }) j = some other →
      (j < input.count ∧ PartSound file input j other) ∧
        ∃ before, s.parts j = some before ∧ other.phase = before.phase := by
    intro j other hother
    rcases hcases hother with ⟨rfl, rfl⟩ | ⟨-, hsame⟩
    · exact ⟨⟨(h.part s.next run hpart).1, hsound⟩, run, hpart, rfl⟩
    · exact ⟨h.part j other hsame, other, hsame, rfl⟩
  have hown : ∀ j other error, Function.update s.parts s.next (some { run with chunks }) j = some other →
      other.FailedWith error → error.IsOwn ∨ s.aborted = some error := by
    intro j other error hother hfailed
    obtain ⟨-, before, hbefore, hphase⟩ := hparts j other hother
    rw [PartRun.FailedWith, hphase] at hfailed
    exact h.own j before error hbefore hfailed
  have htold : ∀ j other error, Function.update s.parts s.next (some { run with chunks }) j = some other →
      other.phase = .failed error → error ≠ .null → s.failure ≠ .null := by
    intro j other error hother hfailed
    obtain ⟨-, before, hbefore, hphase⟩ := hparts j other hother
    exact h.told j before error hbefore (hphase ▸ hfailed)
  unfold State.enqueue
  dsimp only
  split_ifs with hreadable
  · have hdelivering := h.delivering hreadable
    have hfollows := hdelivering.follows s.next run hpart
    rw [State.before, if_pos rfl, PartRun.Follows, hchunks, List.flatten_cons, ← List.append_assoc] at hfollows
    have hafter : Delivering file input
        { s with
          parts := Function.update s.parts s.next (some { run with chunks }), pull := .idle
          enqueued := s.enqueued ++ chunk } := by
      refine ⟨fun hnone => by simp at hnone, fun j other hother => ?_, fun j other hother => ?_⟩
      · rcases hcases hother with ⟨rfl, rfl⟩ | ⟨-, hsame⟩
        · exact le_rfl
        · exact hdelivering.ahead j other hsame
      · rcases hcases hother with ⟨rfl, rfl⟩ | ⟨hj, hsame⟩
        · rw [State.before, if_pos rfl]
          exact hfollows
        · have hother' := hdelivering.follows j other hsame
          rw [State.before, if_neg hj] at hother' ⊢
          exact hother'
    exact
      { part := fun j other hother => (hparts j other hother).1
        own := hown
        told := htold
        awake := by simp
        inOrder := hafter.inOrder
        closed := fun hstream => absurd hstream hclosed
        delivering := fun _ => hafter }
  · have hafter : Sound file input { s with parts := Function.update s.parts s.next (some { run with chunks }) } :=
      { part := fun j other hother => (hparts j other hother).1
        own := hown
        told := htold
        awake := h.awake
        inOrder := h.inOrder
        closed := fun hstream => absurd hstream hclosed
        delivering := fun hstream => absurd hstream hreadable }
    exact hafter.pullThrows hclosed .typeError

/-- A part that is done and empty is left behind. -/
theorem Sound.leave (h : Sound file input s) (hclosed : s.stream ≠ .closed)
    {run : PartRun} (hpart : s.parts s.next = some run) (hchunks : run.chunks = []) (hdone : run.done = true) :
    Sound file input { s with parts := Function.update s.parts s.next none, next := s.next + 1 } := by
  have hsame {j : Nat} {other : PartRun} (hother : Function.update s.parts s.next none j = some other) :
      j ≠ s.next ∧ s.parts j = some other := by
    by_cases hj : j = s.next
    · rw [hj, Function.update_self] at hother
      cases hother
    · rw [Function.update_of_ne hj] at hother
      exact ⟨hj, hother⟩
  constructor
  case part => exact fun j other hother => h.part j other (hsame hother).2
  case own => exact fun j other error hother => h.own j other error (hsame hother).2
  case told => exact fun j other error hother => h.told j other error (hsame hother).2
  case awake => exact h.awake
  case inOrder => exact h.inOrder
  case closed => exact fun hstream => absurd hstream hclosed
  case delivering =>
    intro hstream
    have hdelivering := h.delivering hstream
    have hsound := (h.part s.next run hpart).2
    have hwhole : s.enqueued = file.take ((s.next + 1) * input.settings.partSize) := by
      have hfollows := hdelivering.follows s.next run hpart
      rw [State.before, if_pos rfl, PartRun.Follows, hchunks, List.flatten_nil, List.append_nil] at hfollows
      rw [hfollows, (hsound.done hdone).1, hsound.end_eq, hsound.last, hsound.start, Nat.add_one_mul]
      rcases le_total (s.next * input.settings.partSize + input.settings.partSize) file.length with hle | hle
      · rw [min_eq_left hle]
      · rw [min_eq_right hle, List.take_length, List.take_of_length_le hle]
    refine ⟨fun _ => hwhole, fun j other hother => ?_, fun j other hother => ?_⟩
    · have hbefore := hdelivering.ahead j other (hsame hother).2
      have hne := (hsame hother).1
      change s.next + 1 ≤ j
      omega
    · have hfollows := hdelivering.follows j other (hsame hother).2
      rw [State.before, if_neg (hsame hother).1] at hfollows
      rw [State.before]
      split_ifs with hj
      · change s.enqueued ++ other.chunks.flatten = file.take (other.start + other.received)
        rw [hwhole, ← show j = s.next + 1 from hj]
        exact hfollows
      · exact hfollows

/-- Behind the last part the whole file is handed on. -/
theorem Sound.close (hinput : input.Of file) (h : Sound file input s) (hclosed : s.stream ≠ .closed)
    (hend : input.count ≤ s.next) : Sound file input s.close := by
  unfold State.close
  split_ifs with hreadable
  · have hdelivering := h.delivering hreadable
    have hnone (i : Nat) : s.parts i = none := by
      cases hpart : s.parts i with
      | none => rfl
      | some run =>
          have hcount := (h.part i run hpart).1
          have hahead := hdelivering.ahead i run hpart
          omega
    have hwhole : s.enqueued = file := by
      have hsize : file.length ≤ s.next * input.settings.partSize := by
        by_contra hlt
        exact absurd ((lt_count_iff hinput s.next).mpr (not_le.mp hlt)) (by omega)
      rw [hdelivering.cursor (hnone s.next), List.take_of_length_le hsize]
    exact
      { part := h.part
        own := h.own
        told := h.told
        awake := by simp
        inOrder := h.inOrder
        closed := fun _ => ⟨hwhole, rfl, hnone⟩
        delivering := by simp }
  · exact h.pullThrows hclosed .typeError

theorem Sound.pullLoop (hinput : input.Of file) {left : Nat} (h : Sound file input s) (hclosed : s.stream ≠ .closed)
    (hleft : left = input.count - s.next) : Sound file input (s.pullLoop input left) := by
  induction left generalizing s with
  | zero =>
      unfold State.pullLoop
      split_ifs
      · exact h.pullThrows hclosed s.failure
      · exact h.close hinput hclosed (by omega)
  | succ left ih =>
      unfold State.pullLoop
      split_ifs with hfailure
      · exact h.pullThrows hclosed s.failure
      · have hstarted := h.startAhead hinput hclosed
        obtain ⟨run, hpart⟩ := Option.isSome_iff_exists.mp (startAhead_isSome (s := s) hinput (by omega))
        have hpart' : (s.startAhead input).parts (s.startAhead input).next = some run := hpart
        dsimp only
        rw [hpart']
        dsimp only
        cases hchunks : run.chunks with
        | cons chunk chunks => exact hstarted.enqueue hclosed hpart' hchunks
        | nil =>
            dsimp only
            split_ifs with hdone
            · refine ih (hstarted.leave hclosed hpart' hchunks hdone) hclosed ?_
              change left = input.count - (s.next + 1)
              omega
            · exact hstarted.setPull (fun hfailure' => absurd hfailure' hfailure)
                fun hstream => absurd hstream hclosed

theorem Sound.runPull (hinput : input.Of file) (h : Sound file input s) (hclosed : s.stream ≠ .closed) :
    Sound file input (s.runPull input) := h.pullLoop hinput hclosed rfl

theorem Sound.step (hinput : input.Of file) (h : Sound file input s) (action : Action)
    (hhonest : Honest file input s action) : Sound file input (step input s action) := by
  cases action with
  | pull =>
      simp only [Downloads.step]
      split_ifs with hpull
      · exact h.runPull hinput (by rw [hpull.2]; simp)
      · exact h
  | resume =>
      simp only [Downloads.step]
      split_ifs with hpull
      · refine h.runPull hinput fun hstream => ?_
        rw [(h.closed hstream).2.1] at hpull
        cases hpull
      · exact h
  | cancel reason =>
      simp only [Downloads.step]
      split_ifs with hstream
      · refine Sound.abort ?_ reason
        exact
          { part := h.part
            own := h.own
            told := h.told
            awake := h.awake
            inOrder := h.inOrder
            closed := by simp
            delivering := by simp }
      · exact h
  | abort reason => exact h.abort reason
  | part i event =>
      simp only [Downloads.step]
      cases hpart : s.parts i with
      | none => exact h
      | some run =>
          refine Sound.tell ?_ _
          refine h.advance hpart ((h.part i run hpart).2.after fun response request hevent hphase => ?_)
          subst hevent
          exact hhonest (i, response) rfl (request.first, run.last) (by simp [hpart, PartRun.asked, hphase])
  | caught i =>
      simp only [Downloads.step]
      cases hpart : s.parts i with
      | none => exact h
      | some run =>
          dsimp only
          split
          case h_1 error hphase => exact h.caught hpart hphase
          case h_2 => exact h

/-- A `pull` that runs after a failure errors the stream. -/
theorem step_of_pulls {action : Action} (hpulls : s.Pulls action) (hfailure : s.failure ≠ .null)
    (hstream : s.stream = .readable) : (step input s action).stream = .errored s.failure := by
  have hrun : (s.runPull input).stream = .errored s.failure := by
    unfold State.runPull
    cases input.count - s.next with
    | zero => simp [State.pullLoop, hfailure, State.pullThrows, hstream]
    | succ left => simp [State.pullLoop, hfailure, State.pullThrows, hstream]
  cases action with
  | pull =>
      have hpull : s.pull = .idle ∧ s.stream = .readable := hpulls
      rw [Downloads.step, if_pos hpull, hrun]
  | resume =>
      have hpull : s.pull = .woken := hpulls
      rw [Downloads.step, if_pos hpull, hrun]
  | cancel | abort | part | caught => exact hpulls.elim

theorem Sound.fetchedInParts (h : Sound file input s) : FetchedInParts file input s where
  inOrder := h.inOrder
  closed hstream := (h.closed hstream).1
  failed i run error hpart hfailed := by
    refine ⟨fun hstream => ?_, h.own i run error hpart hfailed⟩
    rw [(h.closed hstream).2.2 i] at hpart
    cases hpart
  told := h.told
  errors hfailure := ⟨h.awake hfailure, fun _ hpulls hstream => step_of_pulls hpulls hfailure hstream⟩

end state

/-- Five bytes in parts of two, two at a time, with one more try of each. -/
def fiveBytes : PartsInput where
  url := "file.bin"
  size := 5
  validator := { etag := some "v1", lastModified := none }
  settings := resolveSettings { partSize := 2, concurrency := 2, retries := 1, retryDelayMs := 1 }
  first := [1, 2, 3, 4, 5]

/-- A `206` of this version. -/
def rangeAnswer (i : Nat) (range : String) (body : List UInt8) : Action :=
  .part i (.answer
    { status := 206, contentRange := some range, etag := some "v1", lastModified := none, body := some body })

theorem fiveBytes_of : fiveBytes.Of [1, 2, 3, 4, 5] where
  size := rfl
  first := by decide
  settings := ⟨_, rfl⟩

example : (Run.run (step fiveBytes) State.start
    [.pull, rangeAnswer 1 "bytes 2-3/5" [3], .part 1 (.chunk 1), .part 1 .bodyEnd, .part 1 .goOn, .part 1 .pauseEnd,
      rangeAnswer 1 "bytes 3-3/5" [4, 9], .part 1 (.chunk 2), .part 1 .goOn, .part 0 (.chunk 5), .part 0 .goOn,
      .resume, .pull, .pull, .pull, rangeAnswer 2 "bytes 4-4/5" [5], .part 2 (.chunk 1), .part 2 .goOn, .resume,
      .pull]).stream = .closed := by decide +kernel

end ThunderForge.Downloads
