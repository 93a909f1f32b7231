import Mathlib.Data.List.Infix
import Mathlib.Logic.Function.Basic

/-! One large file fetched as parts and handed on in order (`packages/downloads/src/parts.ts`). The code runs
on one thread, and what it awaits comes as the events of `step`, in any order. Sizes and counts are whole
numbers that a JavaScript number holds exactly. -/

namespace ThunderForge.Downloads

structure DownloadSettings where
  partSize : Nat
  concurrency : Nat
  retries : Nat
  retryDelayMs : Nat

def maxRetryDelayMs : Nat := 4000

def resolveSettings (settings : DownloadSettings) : DownloadSettings :=
  { settings with partSize := max 1 settings.partSize, concurrency := max 1 settings.concurrency }

/-- The pause before try `attempt` (1-based) of a part. -/
def retryDelay (settings : DownloadSettings) (attempt : Nat) : Nat :=
  min (settings.retryDelayMs * Nat.pow 2 (attempt - 1)) maxRetryDelayMs

/-- What is thrown, or given as the reason of an abort; `other` is a value of the platform or a caller. -/
inductive Thrown where
  | undefined
  | null
  | abortError
  | typeError
  | other (value : Nat)
  | retryable (message : String) (status : Option Nat)
  | versionChangedError (url : String)
  | downloadError (url : String) (status : Option Nat) (cause : Thrown)
  deriving DecidableEq

/-- What identifies the version every part must come from. -/
structure Validator where
  etag : Option String
  lastModified : Option String
  deriving DecidableEq

structure PartsInput where
  url : String
  size : Nat
  validator : Validator
  settings : DownloadSettings
  /-- The first answer's body; part 0. -/
  first : List UInt8

structure Response where
  status : Nat
  contentRange : Option String
  etag : Option String
  lastModified : Option String
  body : Option (List UInt8)

/-- The `Range` and `If-Range` headers of the request for the rest of a part. -/
structure RangeRequest where
  first : Nat
  last : Nat
  ifRange : Option String
  deriving DecidableEq

/-- Where a `runPart` is: what it awaits, or how it has ended. -/
inductive Phase where
  | asking (request : RangeRequest)
  /-- In `readInto`, with what the answer's body still gives. -/
  | reading (body : List UInt8)
  | read
  | readThrew (error : Thrown)
  | pausing (ms : Nat)
  | returned
  | rejected (error : Thrown)
  /-- Rejected, and `fail` has been told. -/
  | failed (error : Thrown)
  deriving DecidableEq

structure Part where
  start : Nat
  /-- Inclusive. -/
  last : Nat
  received : Nat
  chunks : List (List UInt8)
  done : Bool
  deriving DecidableEq

def Part.length (part : Part) : Nat := part.last - part.start + 1

/-- A part, with the variables of its `runPart`. -/
structure PartRun extends Part where
  attempt : Nat
  lastStatus : Option Nat
  phase : Phase
  deriving DecidableEq

/-- What a part's code awaits comes. -/
inductive PartEvent where
  | answer (response : Response)
  | refuse (error : Thrown)
  | chunk (byteLength : Nat)
  | bodyEnd
  | bodyError (error : Thrown)
  | goOn
  | pauseEnd
  | pauseAbort

/-- What a part tells the stream: bytes that came in, or that it is done. -/
inductive Told where
  | nothing
  | bytes (n : Nat)
  | done
  deriving DecidableEq

/-- The white space and line terminators of `String.prototype.trim`. -/
def isJsSpace (c : Char) : Bool :=
  (0x09 ≤ c.toNat && c.toNat ≤ 0x0d) || c.toNat = 0x20 || c.toNat = 0xa0 || c.toNat = 0x1680 ||
    (0x2000 ≤ c.toNat && c.toNat ≤ 0x200a) || c.toNat = 0x2028 || c.toNat = 0x2029 || c.toNat = 0x202f ||
    c.toNat = 0x205f || c.toNat = 0x3000 || c.toNat = 0xfeff

def jsTrim (text : List Char) : List Char := ((text.dropWhile isJsSpace).reverse.dropWhile isJsSpace).reverse

/-- `Number` of a text of digits, if it is one. -/
def number (text : List Char) : Option Nat :=
  if text ≠ [] ∧ text.all Char.isDigit then some (text.foldl (fun n c => 10 * n + (c.toNat - '0'.toNat)) 0)
  else none

/-- `/^bytes (\d+)-(\d+)\/(\d+)$/`, with the numbers it finds. -/
def contentRange (text : List Char) : Option (Nat × Nat × Nat) :=
  if "bytes ".toList.isPrefixOf text then
    let rest := text.drop 6
    let first := rest.takeWhile Char.isDigit
    let rest := rest.drop first.length
    let last := (rest.drop 1).takeWhile Char.isDigit
    let rest' := (rest.drop 1).drop last.length
    if rest.head? = some '-' ∧ rest'.head? = some '/' then
      (number first).bind fun first => (number last).bind fun last => (number (rest'.drop 1)).map (first, last, ·)
    else none
  else none

/-- A header that is there and not empty. -/
def truthy : Option String → Bool
  | some text => text ≠ ""
  | none => false

def refused : List Nat := [401, 403, 404, 410]

def Validator.sameVersion (validator : Validator) (response : Response) : Bool :=
  if truthy validator.etag then response.etag = validator.etag else response.lastModified = validator.lastModified

/-- Accepts a part answer, or says why not. -/
def checkPart (input : PartsInput) (response : Response) (first last : Nat) : Except Thrown Unit :=
  let status := response.status
  if status ∈ refused then .error (.downloadError input.url (some status) .undefined)
  else if status = 200 ∨ status = 416 then .error (.versionChangedError input.url)
  else if status ≠ 206 then .error (.retryable s!"part answered {status}" (some status))
  else
    match contentRange (jsTrim (response.contentRange.getD "").toList) with
    | none => .error (.versionChangedError input.url)
    | some (gotFirst, gotLast, total) =>
      if total ≠ input.size ∨ input.validator.sameVersion response = false then
        .error (.versionChangedError input.url)
      else if gotFirst ≠ first ∨ gotLast ≠ last then
        .error (.retryable s!"asked for {first}-{last}, got {gotFirst}-{gotLast}" (some 206))
      else .ok ()

/-- The request for what a part still misses. -/
def PartRun.request (input : PartsInput) (run : PartRun) : RangeRequest where
  first := run.start + run.received
  last := run.last
  ifRange := (input.validator.etag.or input.validator.lastModified).filter fun tag => truthy (some tag)

/-- The loop of `readInto`, which goes on while the part misses bytes. -/
def PartRun.readFrom (run : PartRun) (body : List UInt8) : PartRun :=
  { run with phase := if run.received < run.length then .reading body else .read }

/-- The `catch` of `runPart`. -/
def PartRun.caught (input : PartsInput) (aborted : Option Thrown) (run : PartRun) (error : Thrown) : PartRun :=
  match aborted with
  | some reason => { run with phase := .rejected reason }
  | none =>
    match error with
    | .versionChangedError _ | .downloadError .. => { run with phase := .rejected error }
    | .undefined | .null | .abortError | .typeError | .other _ | .retryable .. =>
      let attempt := run.attempt + 1
      if attempt > input.settings.retries then
        { run with attempt, phase := .rejected (.downloadError input.url run.lastStatus error) }
      else { run with attempt, phase := .pausing (retryDelay input.settings attempt) }

def PartRun.onAnswer (input : PartsInput) (aborted : Option Thrown) (run : PartRun) (request : RangeRequest)
    (response : Response) : PartRun :=
  let run := { run with lastStatus := some response.status }
  match checkPart input response request.first run.last with
  | .error error => run.caught input aborted error
  | .ok () =>
    match response.body with
    | none => run.caught input aborted .typeError
    | some body => run.readFrom body

/-- A chunk of the body, of which the part keeps no more than it misses. -/
def PartRun.onChunk (run : PartRun) (body : List UInt8) (byteLength : Nat) : PartRun × Told :=
  let chunk := (body.take byteLength).take (run.length - run.received)
  if chunk = [] then ({ run with phase := .reading (body.drop byteLength) }, .nothing)
  else
    let run := { run with chunks := run.chunks ++ [chunk], received := run.received + chunk.length }
    (run.readFrom (body.drop byteLength), .bytes chunk.length)

/-- What follows the awaited `readInto`. -/
def PartRun.afterRead (input : PartsInput) (aborted : Option Thrown) (run : PartRun) : PartRun × Told :=
  if run.received < run.length then
    let received := run.received
    let length := run.length
    (run.caught input aborted (.retryable s!"part ended at {received} of {length} bytes" run.lastStatus), .nothing)
  else ({ run with done := true, phase := .returned }, .done)

/-- An event of a part; one the part does not await changes nothing. -/
def PartRun.after (input : PartsInput) (aborted : Option Thrown) (run : PartRun) (event : PartEvent) :
    PartRun × Told :=
  match run.phase, event with
  | .asking request, .answer response => (run.onAnswer input aborted request response, .nothing)
  | .asking _, .refuse error => (run.caught input aborted error, .nothing)
  | .reading body, .chunk byteLength => run.onChunk body byteLength
  | .reading _, .bodyEnd => ({ run with phase := .read }, .nothing)
  | .reading _, .bodyError error => ({ run with phase := .readThrew error }, .nothing)
  | .read, .goOn => run.afterRead input aborted
  | .readThrew error, .goOn => (run.caught input aborted error, .nothing)
  | .pausing _, .pauseEnd => ({ run with phase := .asking (run.request input) }, .nothing)
  | .pausing _, .pauseAbort =>
    match aborted with
    | some reason => ({ run with phase := .rejected reason }, .nothing)
    | none => (run, .nothing)
  | _, _ => (run, .nothing)

inductive StreamState where
  | readable
  | closed
  | errored (error : Thrown)
  | cancelled
  deriving DecidableEq

/-- The stream's `pull`: not running, awaiting `wake`, or woken and not yet gone on. -/
inductive Pull where
  | idle
  | waiting
  | woken
  deriving DecidableEq

structure State where
  /-- The parts that are started and not handed on yet. -/
  parts : Nat → Option PartRun
  next : Nat
  failure : Thrown
  /-- The reason the signal was aborted for. -/
  aborted : Option Thrown
  pull : Pull
  stream : StreamState
  /-- The bytes handed on. -/
  enqueued : List UInt8
  /-- The bytes told to `onBytes`. -/
  loaded : Nat

def State.start : State where
  parts _ := none
  next := 0
  failure := .null
  aborted := none
  pull := .idle
  stream := .readable
  enqueued := []
  loaded := 0

def PartsInput.count (input : PartsInput) : Nat :=
  (input.size + input.settings.partSize - 1) / input.settings.partSize

def State.notify (s : State) : State := if s.pull = .waiting then { s with pull := .woken } else s

def State.abort (s : State) (reason : Thrown) : State :=
  { s with aborted := s.aborted.or (some (if reason = .undefined then .abortError else reason)) }

def State.fail (s : State) (error : Thrown) : State :=
  (if s.failure = .null then { s with failure := error }.abort error else s).notify

/-- A part as `startAhead` makes it, where its `runPart` first awaits. -/
def newPart (input : PartsInput) (i : Nat) : PartRun :=
  let start := i * input.settings.partSize
  let run : PartRun :=
    { start, last := min (start + input.settings.partSize) input.size - 1, received := 0, chunks := [], done := false
      attempt := 0, lastStatus := none, phase := .read }
  if i = 0 then run.readFrom input.first else { run with phase := .asking (run.request input) }

/-- Starts each part that is not too far ahead of the reader and not started yet. -/
def State.startAhead (input : PartsInput) (s : State) : State :=
  let last := min input.count (s.next + input.settings.concurrency)
  { s with
    parts := fun i => (s.parts i).or (if s.next ≤ i ∧ i < last then some (newPart input i) else none) }

/-- `pull` ends with an exception. -/
def State.pullThrows (s : State) (error : Thrown) : State :=
  { s with pull := .idle, stream := if s.stream = .readable then .errored error else s.stream }

/-- `controller.enqueue`, which throws where the stream is not readable. -/
def State.enqueue (s : State) (chunk : List UInt8) : State :=
  if s.stream = .readable then { s with pull := .idle, enqueued := s.enqueued ++ chunk }
  else s.pullThrows .typeError

/-- `controller.close`, which throws where the stream is not readable. -/
def State.close (s : State) : State :=
  if s.stream = .readable then { s with pull := .idle, stream := .closed } else s.pullThrows .typeError

/-- The loop of `pull`, with `count - next` parts still to hand on. -/
def State.pullLoop (input : PartsInput) : Nat → State → State
  | 0, s => if s.failure ≠ .null then s.pullThrows s.failure else s.close
  | left + 1, s =>
    if s.failure ≠ .null then s.pullThrows s.failure
    else
      let s := s.startAhead input
      match s.parts s.next with
      | none => s.pullThrows .typeError
      | some run =>
        match run.chunks with
        | chunk :: chunks =>
          { s with parts := Function.update s.parts s.next (some { run with chunks }) }.enqueue chunk
        | [] =>
          if run.done then
            pullLoop input left { s with parts := Function.update s.parts s.next none, next := s.next + 1 }
          else { s with pull := .waiting }

def State.runPull (input : PartsInput) (s : State) : State := s.pullLoop input (input.count - s.next)

inductive Action where
  /-- The stream asks for more. -/
  | pull
  /-- A woken `pull` goes on. -/
  | resume
  | cancel (reason : Thrown)
  /-- The caller's own signal is aborted. -/
  | abort (reason : Thrown)
  | part (i : Nat) (event : PartEvent)
  /-- `fail` is told of a part's rejection. -/
  | caught (i : Nat)

def State.tell (s : State) : Told → State
  | .nothing => s
  | .bytes n => { s with loaded := s.loaded + n }.notify
  | .done => s.notify

def step (input : PartsInput) (s : State) : Action → State
  | .pull => if s.pull = .idle ∧ s.stream = .readable then s.runPull input else s
  | .resume => if s.pull = .woken then s.runPull input else s
  | .cancel reason => if s.stream = .readable then { s with stream := .cancelled }.abort reason else s
  | .abort reason => s.abort reason
  | .part i event =>
    match s.parts i with
    | none => s
    | some run =>
      let (run, told) := run.after input s.aborted event
      { s with parts := Function.update s.parts i (some run) }.tell told
  | .caught i =>
    match s.parts i with
    | none => s
    | some run =>
      match run.phase with
      | .rejected error =>
        { s with parts := Function.update s.parts i (some { run with phase := .failed error }) }.fail error
      | _ => s

end ThunderForge.Downloads
