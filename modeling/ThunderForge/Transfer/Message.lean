import ThunderForge.Lib.BigEndian

/-! The framing of a peer transfer (`peer/transfer.rs`): fingerprints and their hex form, the five frames
of a data channel, and the frames that carry one piece of content. What is encoded is read back as it
was sent, whatever the frame. -/

namespace ThunderForge.Transfer

/-- A SHA-256 digest of some content. -/
structure Fingerprint where
  bytes : List UInt8
  length_eq : bytes.length = 32
  deriving DecidableEq

/-- Why a hex string was not a fingerprint. -/
inductive ParseError where
  | wrongLength (found : Nat)
  | notLowercaseHex
  deriving DecidableEq

/-- One digit of `{b:02x}`, by its ASCII code. -/
def hexDigit (nibble : UInt8) : UInt8 := if nibble < 10 then 0x30 + nibble else 0x57 + nibble

/-- `format!("{b:02x}")`. -/
def byteHex (byte : UInt8) : List UInt8 := [hexDigit (byte >>> 4), hexDigit (byte &&& 0x0f)]

def hexNibble (c : UInt8) : Except ParseError UInt8 :=
  if 0x30 ≤ c ∧ c ≤ 0x39 then .ok (c - 0x30)
  else if 0x61 ≤ c ∧ c ≤ 0x66 then .ok (c - 0x61 + 10)
  else .error .notLowercaseHex

/-- The loop of `from_hex`: two digits a byte. -/
def hexBytes : List UInt8 → Except ParseError (List UInt8)
  | hi :: lo :: rest => do
    let hi ← hexNibble hi
    let lo ← hexNibble lo
    let bytes ← hexBytes rest
    .ok (((hi <<< 4) ||| lo) :: bytes)
  | _ => .ok []

theorem hexBytes_length : ∀ {s bytes : List UInt8}, hexBytes s = .ok bytes → bytes.length = s.length / 2
  | hi :: lo :: rest, bytes, h => by
    cases hhi : hexNibble hi with
    | error e => simp [hexBytes, hhi, bind, Except.bind] at h
    | ok hi' =>
        cases hlo : hexNibble lo with
        | error e => simp [hexBytes, hhi, hlo, bind, Except.bind] at h
        | ok lo' =>
            cases hrest : hexBytes rest with
            | error e => simp [hexBytes, hhi, hlo, hrest, bind, Except.bind] at h
            | ok tail =>
                simp only [hexBytes, hhi, hlo, hrest, bind, Except.bind, Except.ok.injEq] at h
                rw [← h, List.length_cons, hexBytes_length hrest, List.length_cons, List.length_cons]
                omega
  | [], bytes, h => by simp_all [hexBytes]
  | [_], bytes, h => by simp_all [hexBytes]

/-- `Fingerprint::from_hex`, on the bytes of the text. -/
def fromHex (s : List UInt8) : Except ParseError Fingerprint :=
  if hlen : s.length = 64 then
    match hbytes : hexBytes s with
    | .ok bytes => .ok ⟨bytes, by rw [hexBytes_length hbytes, hlen]⟩
    | .error e => .error e
  else .error (.wrongLength s.length)

theorem hexNibble_hexDigit_high (byte : UInt8) : hexNibble (hexDigit (byte >>> 4)) = .ok (byte >>> 4) :=
  BigEndian.forall_byte (P := fun b => hexNibble (hexDigit (b >>> 4)) = .ok (b >>> 4)) (by decide +kernel) byte

theorem hexNibble_hexDigit_low (byte : UInt8) :
    hexNibble (hexDigit (byte &&& 0x0f)) = .ok (byte &&& 0x0f) :=
  BigEndian.forall_byte (P := fun b => hexNibble (hexDigit (b &&& 0x0f)) = .ok (b &&& 0x0f)) (by decide +kernel) byte

theorem nibbles (byte : UInt8) : ((byte >>> 4) <<< 4) ||| (byte &&& 0x0f) = byte :=
  BigEndian.forall_byte (P := fun b => ((b >>> 4) <<< 4) ||| (b &&& 0x0f) = b) (by decide +kernel) byte

theorem hexBytes_byteHex (bytes : List UInt8) : hexBytes (bytes.flatMap byteHex) = .ok bytes := by
  induction bytes with
  | nil => rfl
  | cons byte bytes ih =>
      simp only [List.flatMap_cons, byteHex, List.cons_append, List.nil_append, hexBytes,
        hexNibble_hexDigit_high, hexNibble_hexDigit_low, ih, nibbles, bind, Except.bind]

/-- The raw bytes of a fingerprint, through hex and back, are that fingerprint. -/
theorem fromHex_byteHex (fingerprint : Fingerprint) :
    fromHex (fingerprint.bytes.flatMap byteHex) = .ok fingerprint := by
  have hlen : (fingerprint.bytes.flatMap byteHex).length = 64 := by
    simp [List.length_flatMap, byteHex, List.map_const', fingerprint.length_eq]
  rw [fromHex, dif_pos hlen]
  split
  case h_1 bytes hbytes =>
    rw [hexBytes_byteHex, Except.ok.injEq] at hbytes
    cases fingerprint
    simp_all
  case h_2 e hbytes =>
    rw [hexBytes_byteHex] at hbytes
    cases hbytes

/-- How much of one transfer travels in a single message. -/
def chunkBytes : Nat := 16 * 1024

/-- Why a peer will not serve a fingerprint. -/
inductive DeclineReason where
  | notHeld
  | notPermitted
  | busy
  deriving DecidableEq

namespace DeclineReason

def tag : DeclineReason → UInt8
  | .notHeld => 0
  | .notPermitted => 1
  | .busy => 2

def fromTag (tag : UInt8) : Option DeclineReason :=
  if tag = 0 then some .notHeld
  else if tag = 1 then some .notPermitted
  else if tag = 2 then some .busy
  else none

@[simp] theorem fromTag_tag (reason : DeclineReason) : fromTag reason.tag = some reason := by
  cases reason <;> rfl

theorem tag_of_fromTag {byte : UInt8} {reason : DeclineReason} (h : fromTag byte = some reason) : reason.tag = byte := by
  unfold fromTag at h
  split_ifs at h with hnotHeld hnotPermitted hbusy
  all_goals
    cases h
    symm
    assumption

end DeclineReason

/-- One frame on a peer data channel. -/
inductive PeerMessage where
  | request (fingerprint : Fingerprint)
  | offer (fingerprint : Fingerprint) (byteSize : UInt64)
  | chunk (fingerprint : Fingerprint) (seq : UInt32) (bytes : List UInt8)
  | done (fingerprint : Fingerprint)
  | decline (fingerprint : Fingerprint) (reason : DeclineReason)
  deriving DecidableEq

def tagRequest : UInt8 := 1
def tagOffer : UInt8 := 2
def tagChunk : UInt8 := 3
def tagDone : UInt8 := 4
def tagDecline : UInt8 := 5

/-- Tag byte plus the fingerprint every frame carries. -/
def headerBytes : Nat := 1 + 32

namespace PeerMessage

/-- The fingerprint this frame is about. -/
def fingerprint : PeerMessage → Fingerprint
  | request fingerprint | offer fingerprint _ | chunk fingerprint _ _ | done fingerprint
  | decline fingerprint _ => fingerprint

def tag : PeerMessage → UInt8
  | request _ => tagRequest
  | offer _ _ => tagOffer
  | chunk _ _ _ => tagChunk
  | done _ => tagDone
  | decline _ _ => tagDecline

/-- The per-variant tail. -/
def tail : PeerMessage → List UInt8
  | request _ | done _ => []
  | offer _ byteSize => BigEndian.encode 8 byteSize.toNat
  | chunk _ seq bytes => BigEndian.encode 4 seq.toNat ++ bytes
  | decline _ reason => [reason.tag]

/-- Render for the wire. -/
def encode (message : PeerMessage) : List UInt8 :=
  message.tag :: message.fingerprint.bytes ++ message.tail

/-- What the tag and the tail of a frame make of its fingerprint. -/
def ofTail (tag : UInt8) (fingerprint : Fingerprint) (tail : List UInt8) : Option PeerMessage :=
  if tag = tagRequest ∧ tail = [] then some (request fingerprint)
  else if tag = tagDone ∧ tail = [] then some (done fingerprint)
  else if tag = tagOffer ∧ tail.length = 8 then
    some (offer fingerprint (UInt64.ofNat (BigEndian.decode tail)))
  else if tag = tagChunk ∧ 4 ≤ tail.length then
    some (chunk fingerprint (UInt32.ofNat (BigEndian.decode (tail.take 4))) (tail.drop 4))
  else if tag = tagDecline ∧ tail.length = 1 then
    (DeclineReason.fromTag (tail.headD 0)).map (decline fingerprint)
  else none

/-- Read a frame, or `none`. -/
def decode (frame : List UInt8) : Option PeerMessage :=
  if frame.length < headerBytes then none
  else
    let raw := (frame.drop 1).take 32
    match fromHex (raw.flatMap byteHex) with
    | .error _ => none
    | .ok fingerprint => ofTail (frame.headD 0) fingerprint (frame.drop headerBytes)

theorem ofTail_tail (message : PeerMessage) :
    ofTail message.tag message.fingerprint message.tail = some message := by
  cases message with
  | request fingerprint => rfl
  | done fingerprint => rfl
  | offer fingerprint byteSize =>
      have hread : BigEndian.decode (BigEndian.encode 8 byteSize.toNat) = byteSize.toNat :=
        BigEndian.decode_encode_of_lt (lt_of_lt_of_eq byteSize.toNat_lt (by norm_num))
      simp [ofTail, tag, tail, PeerMessage.fingerprint, tagRequest, tagDone, tagOffer, hread]
  | chunk fingerprint seq bytes =>
      have hlen := BigEndian.encode_length 4 seq.toNat
      have hread : BigEndian.decode (BigEndian.encode 4 seq.toNat) = seq.toNat :=
        BigEndian.decode_encode_of_lt (lt_of_lt_of_eq seq.toNat_lt (by norm_num))
      have htake : (BigEndian.encode 4 seq.toNat ++ bytes).take 4 = BigEndian.encode 4 seq.toNat :=
        List.take_left' hlen
      have hdrop : (BigEndian.encode 4 seq.toNat ++ bytes).drop 4 = bytes := List.drop_left' hlen
      simp [ofTail, tag, tail, PeerMessage.fingerprint, tagRequest, tagDone, tagOffer, tagChunk, htake,
        hdrop, hread]
  | decline fingerprint reason =>
      simp [ofTail, tag, tail, PeerMessage.fingerprint, tagRequest, tagDone, tagOffer, tagChunk, tagDecline]

/-- What is encoded is read back as it was sent. -/
theorem decode_encode (message : PeerMessage) : decode message.encode = some message := by
  have hlen := message.fingerprint.length_eq
  have hraw : (message.encode.drop 1).take 32 = message.fingerprint.bytes := by
    rw [encode, List.cons_append, List.drop_one, List.tail_cons, List.take_left' hlen]
  have htail : message.encode.drop headerBytes = message.tail := by
    rw [encode, List.cons_append, headerBytes, Nat.add_comm, List.drop_succ_cons, List.drop_left' hlen]
  have hlong : ¬message.encode.length < headerBytes := by
    simp [encode, headerBytes, hlen]
  have hhead : message.encode.headD 0 = message.tag := rfl
  rw [decode, if_neg hlong]
  simp only [hraw, htail, hhead, fromHex_byteHex, ofTail_tail]

/-- A tail that makes a frame is the tail of that frame. -/
theorem ofTail_eq_some {byte : UInt8} {fingerprint : Fingerprint} {tail : List UInt8} {message : PeerMessage}
    (h : ofTail byte fingerprint tail = some message) :
    message.tag = byte ∧ message.fingerprint = fingerprint ∧ message.tail = tail := by
  unfold ofTail at h
  split_ifs at h with hrequest hdone hoffer hchunk hdecline
  · cases h
    exact ⟨hrequest.1.symm, rfl, hrequest.2.symm⟩
  · cases h
    exact ⟨hdone.1.symm, rfl, hdone.2.symm⟩
  · cases h
    refine ⟨hoffer.1.symm, rfl, ?_⟩
    have hlt := BigEndian.decode_lt tail
    rw [hoffer.2] at hlt
    rw [PeerMessage.tail, UInt64.toNat_ofNat', Nat.mod_eq_of_lt (by omega), ← hoffer.2, BigEndian.encode_decode]
  · cases h
    refine ⟨hchunk.1.symm, rfl, ?_⟩
    have hlength : (tail.take 4).length = 4 := List.length_take_of_le hchunk.2
    have hlt := BigEndian.decode_lt (tail.take 4)
    rw [hlength] at hlt
    have hback := BigEndian.encode_decode (tail.take 4)
    rw [hlength] at hback
    rw [PeerMessage.tail, UInt32.toNat_ofNat', Nat.mod_eq_of_lt (by omega), hback, List.take_append_drop]
  · obtain ⟨reason, hreason, rfl⟩ := Option.map_eq_some_iff.mp h
    obtain ⟨byte', rfl⟩ := List.length_eq_one_iff.mp hdecline.2
    exact ⟨hdecline.1.symm, rfl, congrArg (fun byte => [byte]) (DeclineReason.tag_of_fromTag hreason)⟩

/-- A frame that is accepted is what the message it carries is encoded as. -/
theorem encode_decode {frame : List UInt8} {message : PeerMessage} (h : decode frame = some message) :
    encode message = frame := by
  unfold decode at h
  split_ifs at h with hshort
  cases frame with
  | nil => exact absurd (by decide) hshort
  | cons tag body =>
      have hlong : 32 ≤ body.length := by
        rw [List.length_cons, headerBytes] at hshort
        omega
      have hraw : (body.take 32).length = 32 := List.length_take_of_le hlong
      have hback := fromHex_byteHex ⟨body.take 32, hraw⟩
      simp only [List.drop_one, List.tail_cons] at h hback
      rw [hback] at h
      obtain ⟨htag, hfingerprint, htail⟩ := ofTail_eq_some h
      rw [encode, htag, hfingerprint, htail, headerBytes, Nat.add_comm, List.drop_succ_cons, List.headD_cons,
        List.cons_append, List.take_append_drop]

end PeerMessage

/-- `slice::chunks`. -/
def chunks (size : Nat) (bytes : List UInt8) : List (List UInt8) :=
  if _h : size = 0 ∨ bytes = [] then [] else bytes.take size :: chunks size (bytes.drop size)
termination_by bytes.length
decreasing_by
  rw [not_or] at _h
  have := List.length_pos_iff.mpr _h.2
  rw [List.length_drop]
  omega

@[simp] theorem chunks_nil (size : Nat) : chunks size [] = [] := by
  rw [chunks, dif_pos (Or.inr rfl)]

theorem chunks_of_ne_nil {size : Nat} {bytes : List UInt8} (hsize : size ≠ 0) (hbytes : bytes ≠ []) :
    chunks size bytes = bytes.take size :: chunks size (bytes.drop size) := by
  rw [chunks, dif_neg (not_or.mpr ⟨hsize, hbytes⟩)]

/-- The frames of some content's chunks, numbered from `seq` on. -/
def chunkFrames (fingerprint : Fingerprint) (seq : Nat) (bytes : List UInt8) : List PeerMessage :=
  ((chunks chunkBytes bytes).zipIdx seq).map fun entry => .chunk fingerprint (UInt32.ofNat entry.2) entry.1

/-- Split content into the frames that carry it. -/
def serveFrames (fingerprint : Fingerprint) (bytes : List UInt8) : List PeerMessage :=
  .offer fingerprint (UInt64.ofNat bytes.length) ::
    (chunkFrames fingerprint 0 bytes ++ [.done fingerprint])

@[simp] theorem chunkFrames_nil (fingerprint : Fingerprint) (seq : Nat) :
    chunkFrames fingerprint seq [] = [] := by
  simp [chunkFrames]

theorem chunkFrames_of_ne_nil (fingerprint : Fingerprint) (seq : Nat) {bytes : List UInt8}
    (hbytes : bytes ≠ []) :
    chunkFrames fingerprint seq bytes =
      .chunk fingerprint (UInt32.ofNat seq) (bytes.take chunkBytes) ::
        chunkFrames fingerprint (seq + 1) (bytes.drop chunkBytes) := by
  rw [chunkFrames, chunks_of_ne_nil (by decide) hbytes]
  rfl

end ThunderForge.Transfer
