import ThunderForge.Transfer.Download

/-! What a transfer can come to: the effect of one call, what holds after any calls, and the run in which
an honest peer's frames arrive in order among noise. -/

namespace ThunderForge.Transfer

open PeerDownload PeerMessage

section

variable (sha256 : List UInt8 → Fingerprint)

/-- What one call can do to a transfer. -/
inductive Effect (download : PeerDownload) : Call → PeerDownload → DownloadStep → Prop where
  | ignored (call : Call) : Effect download call download .ignore
  | ticked (now : UInt64) : download.phase ≠ .done → Effect download (.tick now) download .continues
  | offered {frame : List UInt8} (now : UInt64) {byteSize : UInt64} :
      decode frame = some (.offer download.request.fingerprint byteSize) → download.phase = .requested →
      (download.request.byteSize ≠ 0 → byteSize = download.request.byteSize) →
      Effect download (.onFrame frame now)
        { download with offered := byteSize, phase := .receiving, progressMs := now } .continues
  | took {frame : List UInt8} (now : UInt64) {seq : UInt32} {bytes : List UInt8} :
      decode frame = some (.chunk download.request.fingerprint seq bytes) → download.phase = .receiving →
      download.buffer.length + bytes.length ≤ download.offered.toNat →
      Effect download (.onFrame frame now)
        { download with
          buffer := download.buffer ++ bytes, nextSeq := download.nextSeq + 1, progressMs := now }
        .continues
  | gaveUp (call : Call) {ended : PeerDownload} (reason : Fallback) :
      download.phase ≠ .done → ended.phase = .done → ended.buffer = [] → ended.request = download.request →
      Effect download call ended (.fallBack reason)
  | verified (call : Call) {ended : PeerDownload} :
      download.phase = .receiving → ended.phase = .done → ended.buffer = [] →
      ended.request = download.request → download.buffer.length = download.offered.toNat →
      sha256 download.buffer = download.request.fingerprint →
      Effect download call ended (.verified download.buffer)

variable {sha256} {download : PeerDownload}

theorem Effect.finish (call : Call) (reason : Fallback) (h : download.phase ≠ .done) :
    Effect sha256 download call (download.finish reason).1 (download.finish reason).2 :=
  .gaveUp call reason h rfl rfl rfl

theorem Effect.onOffer {frame : List UInt8} {now byteSize : UInt64} (h : download.phase ≠ .done)
    (hframe : decode frame = some (.offer download.request.fingerprint byteSize)) :
    Effect sha256 download (.onFrame frame now) (download.onOffer byteSize now).1
      (download.onOffer byteSize now).2 := by
  unfold PeerDownload.onOffer
  split
  case isTrue => exact Effect.finish _ _ h
  case isFalse hphase =>
    rw [not_not] at hphase
    split
    case isTrue => exact Effect.finish _ _ h
    case isFalse hacceptable =>
      refine Effect.offered now hframe hphase fun hpromised => ?_
      have hpos : download.request.byteSize > 0 := UInt64.pos_iff_ne_zero.mpr hpromised
      simpa [PeerRequest.acceptable, hpos] using hacceptable

theorem Effect.onChunk {frame : List UInt8} {now : UInt64} {seq : UInt32} {bytes : List UInt8}
    (h : download.phase ≠ .done)
    (hframe : decode frame = some (.chunk download.request.fingerprint seq bytes)) :
    Effect sha256 download (.onFrame frame now) (download.onChunk seq bytes now).1
      (download.onChunk seq bytes now).2 := by
  unfold PeerDownload.onChunk
  split
  case isTrue => exact Effect.finish _ _ h
  case isFalse hphase =>
    rw [not_not] at hphase
    split
    case isTrue => exact Effect.finish _ _ h
    case isFalse =>
      split
      case isTrue => exact Effect.finish _ _ h
      case isFalse hfits =>
        dsimp only
        split
        case isTrue => exact .gaveUp _ _ h rfl rfl rfl
        case isFalse => exact Effect.took now hframe hphase (not_lt.mp hfits)

theorem Effect.onDone (call : Call) (h : download.phase ≠ .done) :
    Effect sha256 download call (download.onDone sha256).1 (download.onDone sha256).2 := by
  unfold PeerDownload.onDone
  split
  case isTrue => exact Effect.finish _ _ h
  case isFalse hready =>
    rw [not_or, not_not, not_not] at hready
    by_cases hhash : sha256 download.buffer = download.request.fingerprint
    · simp only [verify, if_pos hhash]
      exact .verified call hready.1 rfl rfl rfl hready.2 hhash
    · simp only [verify, if_neg hhash]
      exact .gaveUp call _ h rfl rfl rfl

variable (sha256) in
/-- Every call has one of these effects. -/
theorem effect_call (download : PeerDownload) (call : Call) :
    Effect sha256 download call (download.call sha256 call).1 (download.call sha256 call).2 := by
  cases call with
  | onFrame frame now =>
      simp only [PeerDownload.call, onFrame]
      cases hframe : decode frame with
      | none => exact .ignored _
      | some message =>
          simp only [onMessage]
          split
          case isTrue => exact .ignored _
          case isFalse hgate =>
            rw [not_or, not_not] at hgate
            obtain ⟨habout, hphase⟩ := hgate
            cases message with
            | request fingerprint => exact .ignored _
            | offer fingerprint byteSize =>
                exact Effect.onOffer hphase (by rw [hframe, ← habout, PeerMessage.fingerprint])
            | chunk fingerprint seq bytes =>
                exact Effect.onChunk hphase (by rw [hframe, ← habout, PeerMessage.fingerprint])
            | done fingerprint => exact Effect.onDone _ hphase
            | decline fingerprint reason => exact Effect.finish _ _ hphase
  | tick now =>
      simp only [PeerDownload.call, tick]
      split
      case isTrue => exact .ignored _
      case isFalse hphase =>
        split
        case isTrue => exact Effect.finish _ _ hphase
        case isFalse => exact .ticked now hphase
  | peerGone =>
      simp only [PeerDownload.call, peerGone]
      split
      case isTrue => exact .ignored _
      case isFalse hphase => exact Effect.finish _ _ hphase

end

/-- Whether an answer ends the transfer. -/
def DownloadStep.ends : DownloadStep → Bool
  | .verified _ | .fallBack _ => true
  | .continues | .ignore => false

/-- At most one answer ends the transfer, and every answer after it is `ignore`. -/
def SingleExit : List DownloadStep → Prop
  | [] => True
  | answer :: later => if answer.ends then ∀ after ∈ later, after = .ignore else SingleExit later

/-- The size in an offer that was taken, if that is what a call and its answer are. -/
def acceptedOffer (fingerprint : Fingerprint) : Call × DownloadStep → Option UInt64
  | (.onFrame frame _, .continues) =>
    match decode frame with
    | some (.offer about byteSize) => if about = fingerprint then some byteSize else none
    | _ => none
  | _ => none

/-- The offered size, as the calls so far and their answers show it. -/
def offeredSize (fingerprint : Fingerprint) (history : List (Call × DownloadStep)) : Option UInt64 :=
  history.findSome? (acceptedOffer fingerprint)

section

variable (sha256 : List UInt8 → Fingerprint)

/-- The transfer after some calls. -/
def PeerDownload.after (download : PeerDownload) (calls : List Call) : PeerDownload :=
  Run.run (Run.next (PeerDownload.call sha256)) download calls

/-- The calls, each with what it answered. -/
def PeerDownload.history (download : PeerDownload) (calls : List Call) : List (Call × DownloadStep) :=
  calls.zip (Run.answers (PeerDownload.call sha256) download calls)

theorem after_concat (download : PeerDownload) (calls : List Call) (call : Call) :
    download.after sha256 (calls ++ [call]) = ((download.after sha256 calls).call sha256 call).1 :=
  Run.run_concat ..

theorem history_concat (download : PeerDownload) (calls : List Call) (call : Call) :
    download.history sha256 (calls ++ [call]) =
      download.history sha256 calls ++ [(call, ((download.after sha256 calls).call sha256 call).2)] := by
  rw [PeerDownload.history, Run.answers_append, List.zip_append (by simp)]
  rfl

/-- What no traffic can change, from the first call on. -/
structure TransferSafe (request : PeerRequest) (start : UInt64) : Prop where
  single_exit : ∀ calls,
    SingleExit (Run.answers (PeerDownload.call sha256) (PeerDownload.begin request start).1 calls)
  verified : ∀ calls call bytes,
    (((PeerDownload.begin request start).1.after sha256 calls).call sha256 call).2 = .verified bytes →
      sha256 bytes = request.fingerprint ∧
      (offeredSize request.fingerprint ((PeerDownload.begin request start).1.history sha256 calls)).map
        UInt64.toNat = some bytes.length ∧
      (request.byteSize ≠ 0 → bytes.length = request.byteSize.toNat)
  bounded : ∀ calls,
    ((PeerDownload.begin request start).1.after sha256 calls).buffer.length ≤
      ((offeredSize request.fingerprint
        ((PeerDownload.begin request start).1.history sha256 calls)).getD 0).toNat

variable {sha256} {request : PeerRequest}

/-- What the history shows of the transfer it led to. -/
structure Tracked (request : PeerRequest) (history : List (Call × DownloadStep)) (download : PeerDownload) :
    Prop where
  request_eq : download.request = request
  requested : download.phase = .requested →
    offeredSize request.fingerprint history = none ∧ download.buffer = []
  receiving : download.phase = .receiving →
    offeredSize request.fingerprint history = some download.offered ∧
      download.buffer.length ≤ download.offered.toNat ∧
      (request.byteSize ≠ 0 → download.offered = request.byteSize)
  emptied : download.phase = .done → download.buffer = []

theorem offeredSize_concat (fingerprint : Fingerprint) (history : List (Call × DownloadStep))
    (heard : Call × DownloadStep) :
    offeredSize fingerprint (history ++ [heard]) =
      (offeredSize fingerprint history).or (acceptedOffer fingerprint heard) := by
  simp [offeredSize, List.findSome?_append]

theorem acceptedOffer_ignore (fingerprint : Fingerprint) (call : Call) :
    acceptedOffer fingerprint (call, .ignore) = none := by
  cases call <;> rfl

theorem Tracked.quiet {history : List (Call × DownloadStep)} {download : PeerDownload}
    {heard : Call × DownloadStep} (h : Tracked request history download)
    (hquiet : acceptedOffer request.fingerprint heard = none) :
    Tracked request (history ++ [heard]) download where
  request_eq := h.request_eq
  requested hphase := by
    rw [offeredSize_concat, hquiet, Option.or_none]
    exact h.requested hphase
  receiving hphase := by
    rw [offeredSize_concat, hquiet, Option.or_none]
    exact h.receiving hphase
  emptied := h.emptied

theorem Tracked.of_over {history : List (Call × DownloadStep)} {download : PeerDownload}
    (hrequest : download.request = request) (hphase : download.phase = .done)
    (hbuffer : download.buffer = []) : Tracked request history download where
  request_eq := hrequest
  requested h := by rw [hphase] at h; cases h
  receiving h := by rw [hphase] at h; cases h
  emptied _ := hbuffer

theorem receiving_ne_requested : Phase.receiving ≠ .requested := by decide

theorem receiving_ne_done : Phase.receiving ≠ .done := by decide

/-- One call keeps the history true of the transfer. -/
theorem Tracked.step {history : List (Call × DownloadStep)} {download next : PeerDownload} {call : Call}
    {answer : DownloadStep} (h : Tracked request history download)
    (heffect : Effect sha256 download call next answer) :
    Tracked request (history ++ [(call, answer)]) next := by
  cases heffect with
  | ignored => exact h.quiet (acceptedOffer_ignore _ _)
  | ticked => exact h.quiet rfl
  | @offered frame now byteSize hframe hphase hpromised =>
      rw [h.request_eq] at hframe hpromised
      obtain ⟨hnone, hbuffer⟩ := h.requested hphase
      refine ⟨h.request_eq, fun hwrong => absurd hwrong receiving_ne_requested,
        fun _ => ⟨?_, ?_, hpromised⟩, fun hwrong => absurd hwrong receiving_ne_done⟩
      · rw [offeredSize_concat, hnone, Option.none_or]
        simp [acceptedOffer, hframe]
      · simp [hbuffer]
  | @took frame now seq bytes hframe hphase hfits =>
      obtain ⟨hoffered, -, hpromised⟩ := h.receiving hphase
      have hquiet : acceptedOffer request.fingerprint (.onFrame frame now, .continues) = none := by
        simp [acceptedOffer, hframe]
      refine ⟨h.request_eq, fun hwrong => ?_, fun _ => ⟨?_, ?_, hpromised⟩, fun hwrong => ?_⟩
      · rw [hphase] at hwrong
        cases hwrong
      · rw [offeredSize_concat, hquiet, Option.or_none, hoffered]
      · rw [List.length_append]
        exact hfits
      · rw [hphase] at hwrong
        cases hwrong
  | gaveUp call reason _ hover hbuffer hrequest =>
      exact .of_over (hrequest.trans h.request_eq) hover hbuffer
  | verified call _ hover hbuffer hrequest => exact .of_over (hrequest.trans h.request_eq) hover hbuffer

variable (sha256 request) in
theorem tracked_after (start : UInt64) (calls : List Call) :
    Tracked request ((PeerDownload.begin request start).1.history sha256 calls)
      ((PeerDownload.begin request start).1.after sha256 calls) := by
  induction calls using List.reverseRecOn with
  | nil => exact ⟨rfl, fun _ => ⟨rfl, rfl⟩, fun h => absurd h.symm receiving_ne_requested, fun _ => rfl⟩
  | append_singleton calls call ih =>
      rw [history_concat, after_concat]
      exact ih.step (effect_call _ _ _)

theorem answers_of_over {download : PeerDownload} (hover : download.phase = .done) (calls : List Call) :
    ∀ answer ∈ Run.answers (PeerDownload.call sha256) download calls, answer = .ignore := by
  induction calls with
  | nil => simp
  | cons call calls ih =>
      have heffect := effect_call sha256 download call
      rw [Run.answers_cons]
      unfold Run.next
      generalize hanswer : (download.call sha256 call).2 = answer at heffect ⊢
      generalize (download.call sha256 call).1 = next at heffect ⊢
      cases heffect with
      | ignored =>
          intro answer hmem
          rcases List.mem_cons.mp hmem with rfl | hmem
          · rfl
          · exact ih answer hmem
      | ticked _ hphase => exact absurd hover hphase
      | offered _ _ hphase => rw [hover] at hphase; cases hphase
      | took _ _ hphase => rw [hover] at hphase; cases hphase
      | gaveUp _ _ hphase => exact absurd hover hphase
      | verified _ hphase => rw [hover] at hphase; cases hphase

theorem singleExit_answers (download : PeerDownload) (calls : List Call) :
    SingleExit (Run.answers (PeerDownload.call sha256) download calls) := by
  induction calls generalizing download with
  | nil => trivial
  | cons call calls ih =>
      have heffect := effect_call sha256 download call
      rw [Run.answers_cons, SingleExit]
      split
      case isFalse => exact ih _
      case isTrue hends =>
        unfold Run.next
        generalize (download.call sha256 call).2 = answer at heffect hends
        generalize (download.call sha256 call).1 = next at heffect ⊢
        cases heffect with
        | ignored => cases hends
        | ticked => cases hends
        | offered => cases hends
        | took => cases hends
        | gaveUp _ _ _ hover => exact answers_of_over hover calls
        | verified _ _ hover => exact answers_of_over hover calls

theorem transfer_safe (start : UInt64) : TransferSafe sha256 request start where
  single_exit calls := singleExit_answers _ calls
  verified calls call bytes hverified := by
    have htracked := tracked_after sha256 request start calls
    have heffect := effect_call sha256 ((begin request start).1.after sha256 calls) call
    rw [hverified] at heffect
    generalize (((begin request start).1.after sha256 calls).call sha256 call).1 = ended at heffect
    cases heffect with
    | verified _ hphase _ _ _ hlength hhash =>
        obtain ⟨hoffered, -, hpromised⟩ := htracked.receiving hphase
        refine ⟨hhash.trans (congrArg _ htracked.request_eq), ?_, fun hsize => ?_⟩
        · rw [hoffered, Option.map_some, hlength]
        · rw [hlength, hpromised hsize]
  bounded calls := by
    have htracked := tracked_after sha256 request start calls
    cases hphase : ((begin request start).1.after sha256 calls).phase with
    | requested => simp [(htracked.requested hphase).2]
    | receiving =>
        obtain ⟨hoffered, hlength, -⟩ := htracked.receiving hphase
        rw [hoffered]
        exact hlength
    | done => simp [htracked.emptied hphase]

end

/-- Frames an honest run is not about: what does not decode, carries another fingerprint, or asks. -/
def isNoise (fingerprint : Fingerprint) (frame : List UInt8) : Bool :=
  match decode frame with
  | none => true
  | some (.request _) => true
  | some message => decide (message.fingerprint ≠ fingerprint)

/-- A frame with the time it arrives at. -/
abbrev Arrival := List UInt8 × UInt64

/-- An honest peer's frames for `bytes`, in order and in time, with noise anywhere among them. -/
structure HonestFeed (sha256 : List UInt8 → Fingerprint) (bytes : List UInt8) (request : PeerRequest)
    (start : UInt64) (feed : List Arrival) : Prop where
  fingerprint_eq : request.fingerprint = sha256 bytes
  size : request.byteSize.toNat = bytes.length ∨ request.byteSize = 0 ∧ bytes.length ≤ maxTransferBytes
  frames : (feed.map Prod.fst).filter (fun frame => !isNoise request.fingerprint frame) =
    (serveFrames (sha256 bytes) bytes).map encode
  in_time : ∀ arrival ∈ feed, arrival.2.toNat - start.toNat ≤ deadlineMs

/-- The answers to a feed hand over `bytes` at the closing frame, and nothing ends the transfer before. -/
inductive VerifiedAtDone (bytes : List UInt8) (fingerprint : Fingerprint) :
    List Arrival → List DownloadStep → Prop where
  | done (now : UInt64) (feed : List Arrival) {later : List DownloadStep} :
      (∀ answer ∈ later, answer = .ignore) →
      VerifiedAtDone bytes fingerprint ((encode (.done fingerprint), now) :: feed) (.verified bytes :: later)
  | going {arrival : Arrival} {feed : List Arrival} {answer : DownloadStep} {later : List DownloadStep} :
      arrival.1 ≠ encode (.done fingerprint) → answer = .continues ∨ answer = .ignore →
      VerifiedAtDone bytes fingerprint feed later →
      VerifiedAtDone bytes fingerprint (arrival :: feed) (answer :: later)

/-- What a transfer answers to a feed. -/
def PeerDownload.answersTo (sha256 : List UInt8 → Fingerprint) (download : PeerDownload)
    (feed : List Arrival) : List DownloadStep :=
  Run.answers (PeerDownload.call sha256) download (feed.map fun arrival => .onFrame arrival.1 arrival.2)

section

variable {sha256 : List UInt8 → Fingerprint} {bytes rest : List UInt8} {download : PeerDownload}

theorem answersTo_cons (download : PeerDownload) (arrival : Arrival) (feed : List Arrival) :
    download.answersTo sha256 (arrival :: feed) =
      (download.onFrame sha256 arrival.1 arrival.2).2 ::
        (download.onFrame sha256 arrival.1 arrival.2).1.answersTo sha256 feed := rfl

theorem onFrame_encode (message : PeerMessage) (now : UInt64) :
    download.onFrame sha256 message.encode now = download.onMessage sha256 message now := by
  rw [onFrame, decode_encode]

theorem encode_inj {left right : PeerMessage} (h : left.encode = right.encode) : left = right := by
  have hdecode := congrArg decode h
  rwa [decode_encode, decode_encode, Option.some.injEq] at hdecode

theorem onFrame_noise {frame : List UInt8} (h : isNoise download.request.fingerprint frame = true)
    (now : UInt64) : download.onFrame sha256 frame now = (download, .ignore) := by
  unfold onFrame
  unfold isNoise at h
  cases hframe : decode frame with
  | none => rfl
  | some message =>
      simp only [hframe] at h
      cases message with
      | request fingerprint => exact ite_self ..
      | offer | chunk | done | decline => exact if_pos (Or.inl (of_decide_eq_true h))

theorem done_not_noise (fingerprint : Fingerprint) :
    isNoise fingerprint (encode (.done fingerprint)) = false := by
  simp [isNoise, decode_encode, PeerMessage.fingerprint]

/-- The transfer between two of an honest peer's frames: `rest` is still to come, from `seq` on. -/
structure Midway (sha256 : List UInt8 → Fingerprint) (bytes rest : List UInt8) (seq : Nat)
    (download : PeerDownload) : Prop where
  phase_eq : download.phase = .receiving
  fingerprint_eq : download.request.fingerprint = sha256 bytes
  buffer_append : download.buffer ++ rest = bytes
  offered_eq : download.offered.toNat = bytes.length
  nextSeq_eq : download.nextSeq = UInt32.ofNat seq

theorem Midway.onDone {seq : Nat} (h : Midway sha256 bytes [] seq download) (now : UInt64) :
    ∃ ended, download.onMessage sha256 (.done (sha256 bytes)) now = (ended, .verified bytes) ∧
      ended.phase = .done := by
  have hbuffer : download.buffer = bytes := by rw [← h.buffer_append, List.append_nil]
  simp [onMessage, PeerMessage.fingerprint, h.fingerprint_eq, h.phase_eq, PeerDownload.onDone, hbuffer,
    h.offered_eq, verify]

theorem Midway.onChunk {seq : Nat} {now : UInt64} (h : Midway sha256 bytes rest seq download)
    (htime : now.toNat - download.startedMs.toNat ≤ deadlineMs) :
    ∃ next, download.onMessage sha256
        (.chunk (sha256 bytes) (UInt32.ofNat seq) (rest.take chunkBytes)) now = (next, .continues) ∧
      Midway sha256 bytes (rest.drop chunkBytes) (seq + 1) next ∧
      next.startedMs = download.startedMs := by
  have hlength : (rest.take chunkBytes).length ≤ chunkBytes := List.length_take_le ..
  have hfits : download.buffer.length + (rest.take chunkBytes).length ≤ download.offered.toNat := by
    rw [h.offered_eq, ← h.buffer_append, List.length_append]
    exact Nat.add_le_add_left (List.length_take_le' ..) _
  refine ⟨{ download with
    buffer := download.buffer ++ rest.take chunkBytes, nextSeq := download.nextSeq + 1,
    progressMs := now }, ?_, ⟨h.phase_eq, h.fingerprint_eq, ?_, h.offered_eq, ?_⟩, rfl⟩
  · have hgate : ¬(PeerMessage.fingerprint (.chunk (sha256 bytes) (UInt32.ofNat seq) (rest.take chunkBytes)) ≠
        download.request.fingerprint ∨ download.phase = .done) := by
      simp [PeerMessage.fingerprint, h.fingerprint_eq, h.phase_eq]
    have horder : ¬(UInt32.ofNat seq ≠ download.nextSeq ∨ (rest.take chunkBytes).length > chunkBytes) := by
      rw [h.nextSeq_eq]
      exact not_or.mpr ⟨not_not.mpr rfl, Nat.not_lt.mpr hlength⟩
    rw [onMessage, if_neg hgate]
    simp only [PeerDownload.onChunk]
    rw [if_neg (not_not.mpr h.phase_eq), if_neg horder, if_neg (Nat.not_lt.mpr hfits),
      if_neg (Nat.not_lt.mpr htime)]
  · rw [List.append_assoc, List.take_append_drop, h.buffer_append]
  · simp [h.nextSeq_eq]

/-- The frames of a feed that are not noise. -/
def heard (fingerprint : Fingerprint) (feed : List Arrival) : List (List UInt8) :=
  (feed.map Prod.fst).filter fun frame => !isNoise fingerprint frame

theorem heard_noise {fingerprint : Fingerprint} {arrival : Arrival}
    (h : isNoise fingerprint arrival.1 = true) (feed : List Arrival) :
    heard fingerprint (arrival :: feed) = heard fingerprint feed := by
  simp [heard, h]

theorem heard_frame {fingerprint : Fingerprint} {arrival : Arrival}
    (h : isNoise fingerprint arrival.1 = false) (feed : List Arrival) :
    heard fingerprint (arrival :: feed) = arrival.1 :: heard fingerprint feed := by
  simp [heard, h]

theorem ne_done_of_noise {fingerprint : Fingerprint} {frame : List UInt8}
    (h : isNoise fingerprint frame = true) : frame ≠ encode (.done fingerprint) := by
  rintro rfl
  rw [done_not_noise] at h
  cases h

theorem chunk_ne_done (fingerprint : Fingerprint) (seq : UInt32) (chunk : List UInt8) :
    encode (.chunk fingerprint seq chunk) ≠ encode (.done fingerprint) :=
  fun h => PeerMessage.noConfusion (encode_inj h)

theorem offer_ne_done (fingerprint : Fingerprint) (byteSize : UInt64) :
    encode (.offer fingerprint byteSize) ≠ encode (.done fingerprint) :=
  fun h => PeerMessage.noConfusion (encode_inj h)

/-- Once the offer is taken, the chunks that are still to come and the closing frame yield the content. -/
theorem Midway.receives {seq : Nat} {feed : List Arrival} (h : Midway sha256 bytes rest seq download)
    (htime : ∀ arrival ∈ feed, arrival.2.toNat - download.startedMs.toNat ≤ deadlineMs)
    (hframes : heard (sha256 bytes) feed =
      (chunkFrames (sha256 bytes) seq rest ++ [PeerMessage.done (sha256 bytes)]).map encode) :
    VerifiedAtDone bytes (sha256 bytes) feed (download.answersTo sha256 feed) := by
  induction feed generalizing download rest seq with
  | nil => simp [heard] at hframes
  | cons arrival feed ih =>
      have hlater := fun later hmem => htime later (List.mem_cons_of_mem arrival hmem)
      rw [answersTo_cons]
      cases hnoise : isNoise (sha256 bytes) arrival.1 with
      | true =>
          rw [heard_noise hnoise] at hframes
          rw [onFrame_noise (by rw [h.fingerprint_eq, hnoise])]
          exact .going (ne_done_of_noise hnoise) (Or.inr rfl) (ih h hlater hframes)
      | false =>
          obtain ⟨frame, now⟩ := arrival
          rw [heard_frame hnoise] at hframes
          cases rest with
          | nil =>
              simp only [chunkFrames_nil, List.nil_append, List.map_cons, List.map_nil,
                List.cons.injEq] at hframes
              obtain ⟨rfl, -⟩ := hframes
              obtain ⟨ended, hanswer, hover⟩ := h.onDone now
              rw [onFrame_encode, hanswer]
              exact .done now feed (answers_of_over hover _)
          | cons byte rest =>
              rw [chunkFrames_of_ne_nil _ _ (List.cons_ne_nil byte rest), List.cons_append, List.map_cons,
                List.cons.injEq] at hframes
              obtain ⟨rfl, hframes⟩ := hframes
              obtain ⟨next, hanswer, hmidway, hstarted⟩ := h.onChunk (htime _ (List.mem_cons_self ..))
              rw [onFrame_encode, hanswer]
              refine .going (chunk_ne_done _ _ _) (Or.inl rfl) (ih hmidway ?_ hframes)
              rwa [hstarted]

theorem onMessage_offer {request : PeerRequest} (start now : UInt64)
    (hfingerprint : request.fingerprint = sha256 bytes)
    (hsize : request.byteSize.toNat = bytes.length ∨ request.byteSize = 0 ∧ bytes.length ≤ maxTransferBytes) :
    ∃ next, (begin request start).1.onMessage sha256
        (.offer (sha256 bytes) (UInt64.ofNat bytes.length)) now = (next, .continues) ∧
      Midway sha256 bytes bytes 0 next ∧ next.startedMs = start := by
  have hwidth : maxTransferBytes < 2 ^ 64 := by norm_num [maxTransferBytes]
  have hlength : bytes.length < 2 ^ 64 := by
    rcases hsize with hsize | ⟨-, hsize⟩
    · rw [← hsize]
      exact request.byteSize.toNat_lt
    · exact lt_of_le_of_lt hsize hwidth
  have hoffered : (UInt64.ofNat bytes.length).toNat = bytes.length := UInt64.toNat_ofNat_of_lt' hlength
  have hacceptable : request.acceptable (UInt64.ofNat bytes.length) = true := by
    unfold PeerRequest.acceptable
    split
    case isTrue hpromised =>
      rcases hsize with hsize | ⟨hzero, -⟩
      · exact decide_eq_true (UInt64.toNat_inj.mp (hoffered.trans hsize.symm))
      · rw [hzero] at hpromised
        exact absurd hpromised (by decide)
    case isFalse hpromised =>
      refine decide_eq_true (le_of_eq_of_le hoffered ?_)
      rcases hsize with hsize | ⟨-, hsize⟩
      · have hzero : request.byteSize.toNat = 0 := by
          simpa [UInt64.lt_iff_toNat_lt] using hpromised
        omega
      · exact hsize
  refine ⟨{ (begin request start).1 with
    offered := UInt64.ofNat bytes.length, phase := .receiving, progressMs := now }, ?_,
    ⟨rfl, hfingerprint, rfl, hoffered, rfl⟩, rfl⟩
  simp [onMessage, PeerMessage.fingerprint, begin, hfingerprint, PeerDownload.onOffer, hacceptable]

/-- Before the offer, noise leaves the transfer as it began; the offer starts it. -/
theorem HonestFeed.verified {request : PeerRequest} {start : UInt64} {feed : List Arrival}
    (h : HonestFeed sha256 bytes request start feed) :
    VerifiedAtDone bytes request.fingerprint feed ((begin request start).1.answersTo sha256 feed) := by
  obtain ⟨hfingerprint, hsize, hframes, htime⟩ := h
  rw [hfingerprint] at hframes ⊢
  change heard _ feed = _ at hframes
  induction feed with
  | nil => simp [heard, serveFrames] at hframes
  | cons arrival feed ih =>
      have hlater := fun later hmem => htime later (List.mem_cons_of_mem arrival hmem)
      rw [answersTo_cons]
      cases hnoise : isNoise (sha256 bytes) arrival.1 with
      | true =>
          rw [heard_noise hnoise] at hframes
          rw [onFrame_noise (by rwa [← hfingerprint] at hnoise)]
          exact .going (ne_done_of_noise hnoise) (Or.inr rfl) (ih hlater hframes)
      | false =>
          obtain ⟨frame, now⟩ := arrival
          rw [heard_frame hnoise, serveFrames, List.map_cons, List.cons.injEq] at hframes
          obtain ⟨rfl, hframes⟩ := hframes
          obtain ⟨next, hanswer, hmidway, hstarted⟩ :=
            onMessage_offer start now hfingerprint hsize
          rw [onFrame_encode, hanswer]
          refine .going (offer_ne_done _ _) (Or.inl rfl) (hmidway.receives ?_ hframes)
          rwa [hstarted]

/-- An honest transfer ends with the content at its closing frame, and no traffic whatsoever makes a
transfer end twice, hand over other bytes than were asked for, or hold more than was offered. -/
theorem transfer_complete_and_safe (sha256 : List UInt8 → Fingerprint) :
    (∀ bytes request start feed, HonestFeed sha256 bytes request start feed →
      VerifiedAtDone bytes request.fingerprint feed
        ((begin request start).1.answersTo sha256 feed)) ∧
    ∀ request start, TransferSafe sha256 request start :=
  ⟨fun _ _ _ _ => HonestFeed.verified, fun _ => transfer_safe⟩

/-- The digest of the three bytes `abc`. -/
def abcDigest : Fingerprint :=
  ⟨[0xba, 0x78, 0x16, 0xbf, 0x8f, 0x01, 0xcf, 0xea, 0x41, 0x41, 0x40, 0xde, 0x5d, 0xae, 0x22, 0x23,
    0xb0, 0x03, 0x61, 0xa3, 0x96, 0x17, 0x7a, 0x9c, 0xb4, 0x10, 0xff, 0x61, 0xf2, 0x00, 0x15, 0xad], rfl⟩

/-- The three bytes, asked for with no size promised, beside a frame that does not decode and a request. -/
def abcFeed : List Arrival :=
  [([7], 1), (encode (.offer abcDigest 3), 2), (encode (.request abcDigest), 3),
   (encode (.chunk abcDigest 0 [0x61, 0x62, 0x63]), 4), (encode (.done abcDigest), 5)]

theorem serveFrames_abc : serveFrames abcDigest [0x61, 0x62, 0x63] =
    [.offer abcDigest 3, .chunk abcDigest 0 [0x61, 0x62, 0x63], .done abcDigest] := by
  rw [serveFrames, chunkFrames_of_ne_nil _ _ (by decide)]
  simp [chunkBytes]

theorem abc_transferred :
    HonestFeed (fun _ => abcDigest) [0x61, 0x62, 0x63] ⟨0, abcDigest, 0⟩ 1 abcFeed ∧
      VerifiedAtDone [0x61, 0x62, 0x63] abcDigest abcFeed
        ((begin ⟨0, abcDigest, 0⟩ 1).1.answersTo (fun _ => abcDigest) abcFeed) := by
  have hfeed : HonestFeed (fun _ => abcDigest) [0x61, 0x62, 0x63] ⟨0, abcDigest, 0⟩ 1 abcFeed := by
    refine ⟨rfl, Or.inr ⟨rfl, by decide⟩, ?_, by decide +kernel⟩
    rw [serveFrames_abc]
    decide +kernel
  exact ⟨hfeed, (transfer_complete_and_safe fun _ => abcDigest).1 _ _ _ _ hfeed⟩

end

end ThunderForge.Transfer
