import ThunderForge.Basic
import ThunderForge.Lib.Run
import ThunderForge.Transfer.Message

/-! One in-flight fetch of one fingerprint from one peer (`PeerDownload`). Between two honest peers it
yields the content at the closing frame, whatever noise the channel carries beside it; against any
traffic at all it ends once, and only ever hands over content that hashes to what was asked for. -/

namespace ThunderForge.Transfer

/-- The largest single item this client will accept from a peer when the plan carried no size. -/
def maxTransferBytes : Nat := 64 * 1024 * 1024

/-- How long a transfer may make no progress before the peer is abandoned. -/
def stallMs : Nat := 3000

/-- How long one transfer may take in total. -/
def deadlineMs : Nat := 20000

/-- Permission to ask a peer for exactly one fingerprint. -/
structure PeerRequest where
  worldId : Uuid
  fingerprint : Fingerprint
  /-- The server's byte count, or zero when the plan did not carry one. -/
  byteSize : UInt64

/-- The frame that asks for it. -/
def PeerRequest.frame (request : PeerRequest) : List UInt8 := PeerMessage.encode (.request request.fingerprint)

/-- Whether an offer of this size may be taken: the server's figure is the authority when it gave one. -/
def PeerRequest.acceptable (request : PeerRequest) (byteSize : UInt64) : Bool :=
  if request.byteSize > 0 then decide (byteSize = request.byteSize)
  else decide (byteSize.toNat ≤ maxTransferBytes)

/-- Why this transfer ended at the server instead. -/
inductive Fallback where
  | declined
  | verificationFailed
  | peerGone
  | stalled
  | sizeMismatch
  | protocol
  deriving DecidableEq

/-- What one call did to a transfer. -/
inductive DownloadStep where
  | continues
  | ignore
  | verified (bytes : List UInt8)
  | fallBack (reason : Fallback)
  deriving DecidableEq

inductive Phase where
  | requested
  | receiving
  | done
  deriving DecidableEq

/-- Received content did not match what was promised. -/
structure IntegrityError where
  expected : Fingerprint
  actual : Fingerprint

/-- One in-flight fetch of one fingerprint from one peer. -/
structure PeerDownload where
  request : PeerRequest
  phase : Phase
  offered : UInt64
  buffer : List UInt8
  nextSeq : UInt32
  startedMs : UInt64
  progressMs : UInt64

/-- One call on a transfer: a frame that arrived, the clock, or the channel closing. -/
inductive Call where
  | onFrame (frame : List UInt8) (now : UInt64)
  | tick (now : UInt64)
  | peerGone

section

variable (sha256 : List UInt8 → Fingerprint)

/-- The single sanctioned way to decide that bytes are what they claim to be. -/
def verify (bytes : List UInt8) (expected : Fingerprint) : Except IntegrityError Unit :=
  let actual := sha256 bytes
  if actual = expected then .ok () else .error { expected, actual }

end

namespace PeerDownload

/-- Begin, and produce the frame to send. -/
def begin (request : PeerRequest) (now : UInt64) : PeerDownload × List UInt8 :=
  ({ request, phase := .requested, offered := 0, buffer := [], nextSeq := 0, startedMs := now,
     progressMs := now },
    request.frame)

def finish (download : PeerDownload) (reason : Fallback) : PeerDownload × DownloadStep :=
  ({ download with phase := .done, buffer := [] }, .fallBack reason)

def onOffer (download : PeerDownload) (byteSize now : UInt64) : PeerDownload × DownloadStep :=
  if download.phase ≠ .requested then download.finish .protocol
  else if download.request.acceptable byteSize = false then download.finish .sizeMismatch
  else ({ download with offered := byteSize, phase := .receiving, progressMs := now }, .continues)

/-- The next sequence number wraps, as a release build has it. -/
def onChunk (download : PeerDownload) (seq : UInt32) (bytes : List UInt8) (now : UInt64) :
    PeerDownload × DownloadStep :=
  if download.phase ≠ .receiving then download.finish .protocol
  else if seq ≠ download.nextSeq ∨ bytes.length > chunkBytes then download.finish .protocol
  else if download.buffer.length + bytes.length > download.offered.toNat then download.finish .sizeMismatch
  else
    let taken := { download with
      buffer := download.buffer ++ bytes, nextSeq := download.nextSeq + 1, progressMs := now }
    if now.toNat - taken.startedMs.toNat > deadlineMs then taken.finish .stalled
    else (taken, .continues)

variable (sha256 : List UInt8 → Fingerprint)

def onDone (download : PeerDownload) : PeerDownload × DownloadStep :=
  if download.phase ≠ .receiving ∨ download.buffer.length ≠ download.offered.toNat then
    download.finish .sizeMismatch
  else
    let ended := { download with phase := .done, buffer := [] }
    match verify sha256 download.buffer download.request.fingerprint with
    | .ok () => (ended, .verified download.buffer)
    | .error _ => (ended, .fallBack .verificationFailed)

/-- Feed a decoded message. -/
def onMessage (download : PeerDownload) (message : PeerMessage) (now : UInt64) :
    PeerDownload × DownloadStep :=
  if message.fingerprint ≠ download.request.fingerprint ∨ download.phase = .done then (download, .ignore)
  else
    match message with
    | .decline _ _ => download.finish .declined
    | .offer _ byteSize => download.onOffer byteSize now
    | .chunk _ seq bytes => download.onChunk seq bytes now
    | .done _ => download.onDone sha256
    | .request _ => (download, .ignore)

/-- Feed a raw data-channel frame. -/
def onFrame (download : PeerDownload) (frame : List UInt8) (now : UInt64) : PeerDownload × DownloadStep :=
  match PeerMessage.decode frame with
  | some message => download.onMessage sha256 message now
  | none => (download, .ignore)

/-- Give the clock a chance to end a transfer nobody is advancing. -/
def tick (download : PeerDownload) (now : UInt64) : PeerDownload × DownloadStep :=
  if download.phase = .done then (download, .ignore)
  else if now.toNat - download.progressMs.toNat > stallMs ∨
      now.toNat - download.startedMs.toNat > deadlineMs then
    download.finish .stalled
  else (download, .continues)

/-- The channel closed. Whatever arrived is discarded. -/
def peerGone (download : PeerDownload) : PeerDownload × DownloadStep :=
  if download.phase = .done then (download, .ignore) else download.finish .peerGone

def call (download : PeerDownload) : Call → PeerDownload × DownloadStep
  | .onFrame frame now => download.onFrame sha256 frame now
  | .tick now => download.tick now
  | .peerGone => download.peerGone

end PeerDownload

end ThunderForge.Transfer
