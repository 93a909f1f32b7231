import Mathlib.Data.Prod.Lex
import Mathlib.Data.String.Basic
import Std.Data.ExtTreeMap
import Std.Data.ExtTreeSet
import ThunderForge.Basic
import ThunderForge.Lib.BigEndian

/-! The wire format of peer adjudication (`peer/adjudication.rs`): token transforms, nonces, the four
messages, and their encoding, with the fact the protocol relies on: what an honest client encodes is
read back as it was sent. -/

namespace ThunderForge

namespace Peer

/-- One token movement, and the only shape a peer-adjudicated change has. -/
structure TokenTransform where
  position : Option (F64 × F64) := none
  rotation : Option F64 := none
  scale : Option F64 := none
  deriving DecidableEq

def fieldPosition : UInt8 := 0b001
def fieldRotation : UInt8 := 0b010
def fieldScale : UInt8 := 0b100
def fieldAll : UInt8 := fieldPosition ||| fieldRotation ||| fieldScale

namespace TokenTransform

/-- Whether this proposes nothing at all. -/
def isEmpty (transform : TokenTransform) : Bool :=
  transform.position.isNone && transform.rotation.isNone && transform.scale.isNone

def mask (transform : TokenTransform) : UInt8 :=
  (if transform.position.isSome then fieldPosition else 0) |||
    (if transform.rotation.isSome then fieldRotation else 0) |||
    (if transform.scale.isSome then fieldScale else 0)

theorem mask_position (transform : TokenTransform) :
    transform.mask &&& fieldPosition ≠ 0 ↔ transform.position.isSome := by
  unfold mask
  cases transform.position.isSome <;> cases transform.rotation.isSome <;>
    cases transform.scale.isSome <;> decide

theorem mask_rotation (transform : TokenTransform) :
    transform.mask &&& fieldRotation ≠ 0 ↔ transform.rotation.isSome := by
  unfold mask
  cases transform.position.isSome <;> cases transform.rotation.isSome <;>
    cases transform.scale.isSome <;> decide

theorem mask_scale (transform : TokenTransform) :
    transform.mask &&& fieldScale ≠ 0 ↔ transform.scale.isSome := by
  unfold mask
  cases transform.position.isSome <;> cases transform.rotation.isSome <;>
    cases transform.scale.isSome <;> decide

/-- A transform that proposes something names some field, and no field the protocol lacks. -/
theorem mask_in_scope {transform : TokenTransform} (h : transform.isEmpty = false) :
    ¬(transform.mask = 0 ∨ transform.mask &&& ~~~fieldAll ≠ 0) := by
  have hsome : transform.position.isSome ∨ transform.rotation.isSome ∨ transform.scale.isSome := by
    obtain ⟨position, rotation, scale⟩ := transform
    cases position <;> cases rotation <;> cases scale <;> simp_all [isEmpty]
  unfold mask
  revert hsome
  cases transform.position.isSome <;> cases transform.rotation.isSome <;>
    cases transform.scale.isSome <;> decide

theorem isEmpty_of_mask {transform : TokenTransform} (h : transform.mask ≠ 0) : transform.isEmpty = false := by
  obtain ⟨position, rotation, scale⟩ := transform
  cases position <;> cases rotation <;> cases scale <;> first | rfl | exact absurd rfl h

end TokenTransform

/-- Where one proposal sits in the session's agreed order: a Lamport counter, then the session. -/
structure Nonce where
  seq : UInt64
  origin : Session

namespace Nonce

@[ext] theorem ext {left right : Nonce} (hseq : left.seq = right.seq)
    (horigin : left.origin = right.origin) : left = right := by
  cases left; cases right; simp_all

/-- The derived `Ord`: the counter first, the origin only to break ties. -/
instance : LinearOrder Nonce :=
  LinearOrder.lift' (fun nonce => toLex (nonce.seq.toNat, nonce.origin)) fun left right h => by
    have hpair := congrArg ofLex h
    simp only [ofLex_toLex, Prod.mk.injEq] at hpair
    exact ext (UInt64.toNat_inj.mp hpair.1) hpair.2

instance : Std.LawfulEqOrd Nonce where
  eq_of_compare h := compare_eq_iff_eq.mp h

instance transOrd : Std.TransOrd Nonce := inferInstance

theorem lt_iff {left right : Nonce} :
    left < right ↔ left.seq.toNat < right.seq.toNat ∨
      left.seq = right.seq ∧ left.origin < right.origin := by
  change toLex (left.seq.toNat, left.origin) < toLex (right.seq.toNat, right.origin) ↔ _
  rw [Prod.Lex.toLex_lt_toLex, UInt64.toNat_inj]

end Nonce

/-- This client's place in the session-agreed sequence. -/
structure NonceSequence where
  session : Session
  next : UInt64

namespace NonceSequence

def new (session : Session) : NonceSequence := { session, next := 0 }

/-- Take the next nonce for something this client is proposing. -/
def issue (nonces : NonceSequence) : NonceSequence × Nonce :=
  ({ nonces with next := saturatingSucc nonces.next }, { seq := nonces.next, origin := nonces.session })

/-- Note a nonce seen from someone else, so anything issued afterwards is ordered after it. -/
def observe (nonces : NonceSequence) (nonce : Nonce) : NonceSequence :=
  { nonces with
    next := if nonces.next < saturatingSucc nonce.seq then saturatingSucc nonce.seq else nonces.next }

@[simp] theorem issue_snd (nonces : NonceSequence) :
    nonces.issue.2 = { seq := nonces.next, origin := nonces.session } := rfl

@[simp] theorem issue_fst_session (nonces : NonceSequence) : nonces.issue.1.session = nonces.session := rfl

@[simp] theorem observe_session (nonces : NonceSequence) (nonce : Nonce) :
    (nonces.observe nonce).session = nonces.session := rfl

end NonceSequence

/-- The Game Master's answer to one proposal. -/
inductive Verdict where
  | accept
  | reject
  deriving DecidableEq

namespace Verdict

def tag : Verdict → UInt8
  | accept => 0
  | reject => 1

def fromTag (tag : UInt8) : Option Verdict :=
  if tag = 0 then some accept else if tag = 1 then some reject else none

theorem tag_of_fromTag {byte : UInt8} {verdict : Verdict} (h : fromTag byte = some verdict) : verdict.tag = byte := by
  unfold fromTag at h
  split_ifs at h with haccept hreject
  · cases h
    exact haccept.symm
  · cases h
    exact hreject.symm

end Verdict

/-- One frame of the adjudication protocol. -/
inductive AdjudicationMessage where
  | hello (userId : Uuid)
  | propose (nonce : Nonce) (originUser entityId : Uuid) (transform : TokenTransform)
  | adjudicate (nonce : Nonce) (verdict : Verdict)
  | apply (nonce : Nonce)
  deriving DecidableEq

/-- The bytes of one frame on the data channel. -/
abbrev Frame := List UInt8

def tagHello : UInt8 := 6
def tagPropose : UInt8 := 7
def tagAdjudicate : UInt8 := 8
def tagApply : UInt8 := 9

/-- The UTF-8 bytes of a string. -/
def utf8Bytes (text : String) : List UInt8 := text.toUTF8.data.toList

/-- `std::str::from_utf8`. -/
def fromUtf8 (bytes : List UInt8) : Option String := String.fromUTF8? ⟨bytes.toArray⟩

theorem fromUtf8_utf8Bytes (text : String) : fromUtf8 (utf8Bytes text) = some text := by
  unfold fromUtf8 utf8Bytes String.fromUTF8?
  simp [String.toUTF8, text.isValidUTF8, String.fromUTF8]

def takeUuid (tail : List UInt8) : Option (Uuid × List UInt8) :=
  (BigEndian.take 16 tail).map fun (value, rest) => (BitVec.ofNat 128 value, rest)

def takeF64 (tail : List UInt8) : Option (F64 × List UInt8) :=
  (BigEndian.take 8 tail).map fun (value, rest) => (BitVec.ofNat 64 value, rest)

def putUuid (id : Uuid) : List UInt8 := BigEndian.encode 16 id.toNat

def putF64 (value : F64) : List UInt8 := BigEndian.encode 8 value.toNat

/-- Read a nonce from the head of `tail`, returning it and the rest. -/
def takeNonce (tail : List UInt8) : Option (Nonce × List UInt8) := do
  let (seq, rest) ← BigEndian.take 8 tail
  let (len, rest) ← rest.head?.map fun len => (len.toNat, rest.tail)
  if rest.length < len then none
  let origin ← fromUtf8 (rest.take len)
  -- An empty origin would make two different clients' nonces compare equal.
  if origin.isEmpty then none
  return ({ seq := UInt64.ofNat seq, origin }, rest.drop len)

def putNonce (nonce : Nonce) : List UInt8 :=
  let origin := utf8Bytes nonce.origin
  let len := min origin.length 255
  BigEndian.encode 8 nonce.seq.toNat ++ UInt8.ofNat len :: origin.take len

namespace AdjudicationMessage

/-- Render for the wire. -/
def encode : AdjudicationMessage → Frame
  | hello userId => tagHello :: putUuid userId
  | propose nonce originUser entityId transform =>
      tagPropose :: (putNonce nonce ++ (putUuid originUser ++ (putUuid entityId ++ transform.mask ::
        ((transform.position.elim [] fun (x, y) => putF64 x ++ putF64 y) ++
          (transform.rotation.elim [] putF64 ++ transform.scale.elim [] putF64)))))
  | adjudicate nonce verdict => tagAdjudicate :: (putNonce nonce ++ [verdict.tag])
  | apply nonce => tagApply :: putNonce nonce

/-- The fields a `PROPOSE` mask names, read off the rest of the frame. -/
def takeTransform (mask : UInt8) (tail : List UInt8) : Option (TokenTransform × List UInt8) := do
  let (position, tail) ← if mask &&& fieldPosition ≠ 0 then do
      let (x, rest) ← takeF64 tail
      let (y, rest) ← takeF64 rest
      some (some (x, y), rest)
    else some (none, tail)
  let (rotation, tail) ← if mask &&& fieldRotation ≠ 0 then
      (takeF64 tail).map fun (rotation, rest) => (some rotation, rest)
    else some (none, tail)
  let (scale, tail) ← if mask &&& fieldScale ≠ 0 then
      (takeF64 tail).map fun (scale, rest) => (some scale, rest)
    else some (none, tail)
  return ({ position, rotation, scale }, tail)

/-- Read a frame, or nothing: total and silent, since the channel is written by a party this client
does not trust. -/
def decode : Frame → Option AdjudicationMessage
  | [] => none
  | tag :: tail =>
    if tag = tagHello then do
      let (userId, rest) ← takeUuid tail
      if rest.isEmpty then some (hello userId) else none
    else if tag = tagPropose then do
      let (nonce, tail) ← takeNonce tail
      let (originUser, tail) ← takeUuid tail
      let (entityId, tail) ← takeUuid tail
      let (mask, tail) ← tail.head?.map fun mask => (mask, tail.tail)
      if mask = 0 ∨ mask &&& ~~~fieldAll ≠ 0 then none
      let (transform, tail) ← takeTransform mask tail
      if tail.isEmpty then some (propose nonce originUser entityId transform) else none
    else if tag = tagAdjudicate then do
      let (nonce, tail) ← takeNonce tail
      let (verdict, rest) ← tail.head?.map fun verdict => (verdict, tail.tail)
      if rest.isEmpty then (Verdict.fromTag verdict).map fun verdict => adjudicate nonce verdict
      else none
    else if tag = tagApply then do
      let (nonce, tail) ← takeNonce tail
      if tail.isEmpty then some (apply nonce) else none
    else none

end AdjudicationMessage

/-! ### What is sent is what is read -/

/-- A session id a nonce can carry whole: not empty, and short enough for its length byte. -/
def SessionFits (session : Session) : Prop := session ≠ "" ∧ (utf8Bytes session).length ≤ 255

instance (session : Session) : Decidable (SessionFits session) :=
  inferInstanceAs (Decidable (_ ∧ _))

theorem takeUuid_putUuid (id : Uuid) (rest : List UInt8) :
    takeUuid (putUuid id ++ rest) = some (id, rest) := by
  have hlt : id.toNat < 256 ^ 16 := by
    have := id.isLt
    norm_num at this ⊢
    exact this
  simp [takeUuid, putUuid, BigEndian.take_encode hlt]

theorem takeF64_putF64 (value : F64) (rest : List UInt8) :
    takeF64 (putF64 value ++ rest) = some (value, rest) := by
  have hlt : value.toNat < 256 ^ 8 := by
    have := value.isLt
    norm_num at this ⊢
    exact this
  simp [takeF64, putF64, BigEndian.take_encode hlt]

theorem takeNonce_putNonce {nonce : Nonce} (hfits : SessionFits nonce.origin) (rest : List UInt8) :
    takeNonce (putNonce nonce ++ rest) = some (nonce, rest) := by
  obtain ⟨hne, hlen⟩ := hfits
  have hseq : nonce.seq.toNat < 256 ^ 8 := by
    have := nonce.seq.toNat_lt
    norm_num at this ⊢
    exact this
  have hbyte : (UInt8.ofNat (utf8Bytes nonce.origin).length).toNat = (utf8Bytes nonce.origin).length := by
    rw [UInt8.toNat_ofNat']
    exact Nat.mod_eq_of_lt (by omega)
  have hput : putNonce nonce ++ rest = BigEndian.encode 8 nonce.seq.toNat ++
      (UInt8.ofNat (utf8Bytes nonce.origin).length :: (utf8Bytes nonce.origin ++ rest)) := by
    rw [putNonce, min_eq_left hlen, List.take_length]
    simp
  rw [hput, takeNonce, BigEndian.take_encode hseq]
  simp [hbyte, fromUtf8_utf8Bytes, hne]

namespace AdjudicationMessage

/-- What an honest client sends: its session id fits a nonce, and a proposal proposes something. -/
def Sendable : AdjudicationMessage → Prop
  | hello _ => True
  | propose nonce _ _ transform => SessionFits nonce.origin ∧ transform.isEmpty = false
  | adjudicate nonce _ => SessionFits nonce.origin
  | apply nonce => SessionFits nonce.origin

theorem takeTransform_encode (transform : TokenTransform) :
    takeTransform transform.mask ((transform.position.elim [] fun (x, y) => putF64 x ++ putF64 y) ++
      (transform.rotation.elim [] putF64 ++ transform.scale.elim [] putF64)) =
        some (transform, []) := by
  have hlast (value : F64) : takeF64 (putF64 value) = some (value, []) := by
    simpa using takeF64_putF64 value []
  simp only [takeTransform, TokenTransform.mask_position, TokenTransform.mask_rotation,
    TokenTransform.mask_scale]
  obtain ⟨position, rotation, scale⟩ := transform
  rcases position with _ | ⟨x, y⟩ <;> rcases rotation with _ | r <;> rcases scale with _ | z <;>
    simp [takeF64_putF64, hlast]

/-- A frame an honest client encodes is read back as the message it sent. -/
theorem decode_encode {message : AdjudicationMessage} (h : message.Sendable) :
    decode message.encode = some message := by
  cases message with
  | hello userId =>
      have hid := takeUuid_putUuid userId []
      rw [List.append_nil] at hid
      simp [encode, decode, hid]
  | propose nonce originUser entityId transform =>
      obtain ⟨hfits, hsome⟩ := h
      simp only [encode, decode, takeNonce_putNonce hfits, takeUuid_putUuid, Option.bind_eq_bind,
        Option.bind_some, List.head?_cons, Option.map_some, List.tail_cons,
        if_neg (TokenTransform.mask_in_scope hsome), takeTransform_encode]
      simp [tagHello, tagPropose]
  | adjudicate nonce verdict =>
      cases verdict <;>
        simp [encode, decode, takeNonce_putNonce h, tagHello, tagPropose, tagAdjudicate, Verdict.tag,
          Verdict.fromTag]
  | apply nonce =>
      have hnonce := takeNonce_putNonce h []
      rw [List.append_nil] at hnonce
      simp [encode, decode, hnonce, tagHello, tagPropose, tagAdjudicate, tagApply]

end AdjudicationMessage

/-! ### What is accepted is what is sent -/

theorem utf8Bytes_of_fromUtf8 {bytes : List UInt8} {text : String} (h : fromUtf8 bytes = some text) :
    utf8Bytes text = bytes := by
  unfold fromUtf8 String.fromUTF8? at h
  split_ifs at h with hvalid
  cases h
  rfl

theorem takeUuid_eq_some {tail rest : List UInt8} {id : Uuid} (h : takeUuid tail = some (id, rest)) :
    tail = putUuid id ++ rest := by
  obtain ⟨⟨value, left⟩, htake, hread⟩ := Option.map_eq_some_iff.mp h
  obtain ⟨hbytes, hlt⟩ := BigEndian.take_eq_some htake
  cases hread
  rw [putUuid, BitVec.toNat_ofNat, Nat.mod_eq_of_lt (by omega)]
  exact hbytes

theorem takeF64_eq_some {tail rest : List UInt8} {value : F64} (h : takeF64 tail = some (value, rest)) :
    tail = putF64 value ++ rest := by
  obtain ⟨⟨bits, left⟩, htake, hread⟩ := Option.map_eq_some_iff.mp h
  obtain ⟨hbytes, hlt⟩ := BigEndian.take_eq_some htake
  cases hread
  rw [putF64, BitVec.toNat_ofNat, Nat.mod_eq_of_lt (by omega)]
  exact hbytes

/-- A nonce that is read names a session, and is written as it was read. -/
theorem takeNonce_eq_some {tail rest : List UInt8} {nonce : Nonce} (h : takeNonce tail = some (nonce, rest)) :
    tail = putNonce nonce ++ rest ∧ SessionFits nonce.origin := by
  obtain ⟨⟨seq, body⟩, hseq, h⟩ := Option.bind_eq_some_iff.mp h
  obtain ⟨⟨len, body'⟩, hlen, h⟩ := Option.bind_eq_some_iff.mp h
  obtain ⟨hbytes, hlt⟩ := BigEndian.take_eq_some hseq
  obtain ⟨byte, hbyte, hsplit⟩ := Option.map_eq_some_iff.mp hlen
  cases hsplit
  dsimp only at h
  split_ifs at h with hshort
  · cases h
  obtain ⟨origin, horigin, h⟩ := Option.bind_eq_some_iff.mp h
  split_ifs at h with hempty
  · cases h
  cases h
  have hback := utf8Bytes_of_fromUtf8 horigin
  have hbound : byte.toNat < 256 := byte.toNat_lt
  have hlength : (utf8Bytes origin).length = byte.toNat := by
    rw [hback, List.length_take_of_le (not_lt.mp hshort)]
  refine ⟨?_, fun (hnone : origin = "") => hempty (by rw [hnone]; rfl), hlength.trans_le (by omega)⟩
  have hbody : body = byte :: body.tail := (List.cons_head?_tail hbyte).symm
  have hput : putNonce { seq := UInt64.ofNat seq, origin } =
      BigEndian.encode 8 seq ++ byte :: body.tail.take byte.toNat := by
    rw [putNonce, hlength, min_eq_left (by omega), UInt8.ofNat_toNat, hback, List.take_take, Nat.min_self,
      UInt64.toNat_ofNat', Nat.mod_eq_of_lt (by omega)]
  calc
    tail = BigEndian.encode 8 seq ++ body := hbytes
    _ = BigEndian.encode 8 seq ++ byte :: (body.tail.take byte.toNat ++ body.tail.drop byte.toNat) := by
        rw [List.take_append_drop, ← hbody]
    _ = putNonce { seq := UInt64.ofNat seq, origin } ++ body.tail.drop byte.toNat := by
        rw [hput, List.append_assoc, List.cons_append]

/-- A mask the protocol knows is the sum of the fields it names. -/
theorem mask_of_fields {mask : UInt8} (h : mask &&& ~~~fieldAll = 0) :
    ((if mask &&& fieldPosition ≠ 0 then fieldPosition else 0) |||
      (if mask &&& fieldRotation ≠ 0 then fieldRotation else 0) |||
      (if mask &&& fieldScale ≠ 0 then fieldScale else 0)) = mask := by
  revert h
  apply BigEndian.forall_byte (P := fun mask => mask &&& ~~~fieldAll = 0 →
    ((if mask &&& fieldPosition ≠ 0 then fieldPosition else 0) |||
      (if mask &&& fieldRotation ≠ 0 then fieldRotation else 0) |||
      (if mask &&& fieldScale ≠ 0 then fieldScale else 0)) = mask)
  decide +kernel

namespace AdjudicationMessage

/-- The position of a transform whose mask names it. -/
def takePosition (mask : UInt8) (tail : List UInt8) : Option (Option (F64 × F64) × List UInt8) :=
  if mask &&& fieldPosition ≠ 0 then
    (takeF64 tail).bind fun (x, rest) => (takeF64 rest).map fun (y, rest) => (some (x, y), rest)
  else some (none, tail)

/-- A field of one number, where the mask names it. -/
def takeField (mask bit : UInt8) (tail : List UInt8) : Option (Option F64 × List UInt8) :=
  if mask &&& bit ≠ 0 then (takeF64 tail).map fun (value, rest) => (some value, rest) else some (none, tail)

theorem takeTransform_fields (mask : UInt8) (tail : List UInt8) :
    takeTransform mask tail = (takePosition mask tail).bind fun (position, tail) =>
      (takeField mask fieldRotation tail).bind fun (rotation, tail) =>
        (takeField mask fieldScale tail).map fun (scale, tail) => ({ position, rotation, scale }, tail) := by
  unfold takeTransform takePosition takeField
  split_ifs <;> simp [Option.map_eq_bind, Option.bind_assoc]

theorem takePosition_eq_some {mask : UInt8} {tail rest : List UInt8} {position : Option (F64 × F64)}
    (h : takePosition mask tail = some (position, rest)) :
    (position.isSome ↔ mask &&& fieldPosition ≠ 0) ∧
      tail = (position.elim [] fun (x, y) => putF64 x ++ putF64 y) ++ rest := by
  unfold takePosition at h
  split_ifs at h with hbit
  · obtain ⟨⟨x, middle⟩, hx, h⟩ := Option.bind_eq_some_iff.mp h
    obtain ⟨⟨y, left⟩, hy, hread⟩ := Option.map_eq_some_iff.mp h
    cases hread
    refine ⟨iff_of_true rfl hbit, ?_⟩
    rw [takeF64_eq_some hx, takeF64_eq_some hy]
    exact (List.append_assoc _ _ _).symm
  · cases h
    exact ⟨iff_of_false Bool.noConfusion hbit, rfl⟩

theorem takeField_eq_some {mask bit : UInt8} {tail rest : List UInt8} {field : Option F64}
    (h : takeField mask bit tail = some (field, rest)) :
    (field.isSome ↔ mask &&& bit ≠ 0) ∧ tail = field.elim [] putF64 ++ rest := by
  unfold takeField at h
  split_ifs at h with hbit
  · obtain ⟨⟨value, left⟩, hvalue, hread⟩ := Option.map_eq_some_iff.mp h
    cases hread
    exact ⟨iff_of_true rfl hbit, takeF64_eq_some hvalue⟩
  · cases h
    exact ⟨iff_of_false Bool.noConfusion hbit, rfl⟩

theorem takeTransform_eq_some {mask : UInt8} {tail rest : List UInt8} {transform : TokenTransform}
    (h : takeTransform mask tail = some (transform, rest)) (hscope : mask &&& ~~~fieldAll = 0) :
    transform.mask = mask ∧
      tail = (transform.position.elim [] fun (x, y) => putF64 x ++ putF64 y) ++
        (transform.rotation.elim [] putF64 ++ (transform.scale.elim [] putF64 ++ rest)) := by
  rw [takeTransform_fields] at h
  obtain ⟨⟨position, tail₁⟩, hposition, h⟩ := Option.bind_eq_some_iff.mp h
  obtain ⟨⟨rotation, tail₂⟩, hrotation, h⟩ := Option.bind_eq_some_iff.mp h
  obtain ⟨⟨scale, tail₃⟩, hscale, hread⟩ := Option.map_eq_some_iff.mp h
  cases hread
  obtain ⟨hpositionBit, hpositionBytes⟩ := takePosition_eq_some hposition
  obtain ⟨hrotationBit, hrotationBytes⟩ := takeField_eq_some hrotation
  obtain ⟨hscaleBit, hscaleBytes⟩ := takeField_eq_some hscale
  refine ⟨?_, by rw [hpositionBytes, hrotationBytes, hscaleBytes]⟩
  rw [TokenTransform.mask]
  simp only [hpositionBit, hrotationBit, hscaleBit]
  exact mask_of_fields hscope

/-- A frame that is accepted is what the message it carries is encoded as, and that message can be sent. -/
theorem encode_decode {frame : Frame} {message : AdjudicationMessage} (h : decode frame = some message) :
    encode message = frame ∧ message.Sendable := by
  cases frame with
  | nil => cases h
  | cons tag tail =>
      unfold decode at h
      dsimp only at h
      split_ifs at h with hhello hpropose hadjudicate happly
      · obtain ⟨⟨userId, rest⟩, huser, h⟩ := Option.bind_eq_some_iff.mp h
        dsimp only at h
        split_ifs at h with hrest
        cases h
        rw [takeUuid_eq_some huser, List.isEmpty_iff.mp hrest, List.append_nil, hhello]
        exact ⟨rfl, trivial⟩
      · obtain ⟨⟨nonce, tail₁⟩, hnonce, h⟩ := Option.bind_eq_some_iff.mp h
        obtain ⟨⟨originUser, tail₂⟩, horigin, h⟩ := Option.bind_eq_some_iff.mp h
        obtain ⟨⟨entityId, tail₃⟩, hentity, h⟩ := Option.bind_eq_some_iff.mp h
        obtain ⟨⟨mask, tail₄⟩, hmask, h⟩ := Option.bind_eq_some_iff.mp h
        dsimp only at h
        split_ifs at h with hscope
        · cases h
        obtain ⟨⟨transform, rest⟩, htransform, h⟩ := Option.bind_eq_some_iff.mp h
        dsimp only at h
        split_ifs at h with hrest
        cases h
        rw [not_or, not_not] at hscope
        obtain ⟨hnonceBytes, hfits⟩ := takeNonce_eq_some hnonce
        obtain ⟨byte, hbyte, hsplit⟩ := Option.map_eq_some_iff.mp hmask
        cases hsplit
        obtain ⟨htransformMask, htransformBytes⟩ := takeTransform_eq_some htransform hscope.2
        have horiginBytes : tail₁ = putUuid originUser ++ tail₂ := takeUuid_eq_some horigin
        have hentityBytes : tail₂ = putUuid entityId ++ tail₃ := takeUuid_eq_some hentity
        have hmaskBytes : tail₃ = transform.mask :: tail₃.tail := by
          rw [htransformMask]
          exact (List.cons_head?_tail hbyte).symm
        refine ⟨?_, hfits, ?_⟩
        · dsimp only at htransformBytes
          rw [List.isEmpty_iff.mp hrest, List.append_nil] at htransformBytes
          rw [hpropose, hnonceBytes, horiginBytes, hentityBytes, hmaskBytes, htransformBytes]
          rfl
        · apply TokenTransform.isEmpty_of_mask
          rw [htransformMask]
          exact hscope.1
      · obtain ⟨⟨nonce, tail₁⟩, hnonce, h⟩ := Option.bind_eq_some_iff.mp h
        obtain ⟨⟨verdict, rest⟩, hverdict, h⟩ := Option.bind_eq_some_iff.mp h
        dsimp only at h
        split_ifs at h with hrest
        obtain ⟨answer, hanswer, rfl⟩ := Option.map_eq_some_iff.mp h
        obtain ⟨hnonceBytes, hfits⟩ := takeNonce_eq_some hnonce
        obtain ⟨byte, hbyte, hsplit⟩ := Option.map_eq_some_iff.mp hverdict
        cases hsplit
        have hanswerBytes : tail₁ = [answer.tag] := by
          rw [Verdict.tag_of_fromTag hanswer, ← List.isEmpty_iff.mp hrest]
          exact (List.cons_head?_tail hbyte).symm
        refine ⟨?_, hfits⟩
        rw [hadjudicate, hnonceBytes, hanswerBytes]
        rfl
      · obtain ⟨⟨nonce, rest⟩, hnonce, h⟩ := Option.bind_eq_some_iff.mp h
        dsimp only at h
        split_ifs at h with hrest
        cases h
        obtain ⟨hbytes, hfits⟩ := takeNonce_eq_some hnonce
        rw [hbytes, List.isEmpty_iff.mp hrest, List.append_nil, happly]
        exact ⟨rfl, hfits⟩

end AdjudicationMessage

end Peer

end ThunderForge
