import ThunderForge.Peer.AdjudicationMessage
import ThunderForge.Transfer.Message

/-! The two protocols that share a data channel. A frame is at most one of the two: what one side of either codec
writes is what the other reads, and no frame is accepted by both. -/

namespace ThunderForge.Peer

open Transfer

/-- A transfer frame begins with one of the tags 1 to 5. -/
theorem transfer_tag (message : PeerMessage) : message.tag.toNat ≤ 5 := by
  cases message with
  | request fingerprint => exact Nat.le_of_ble_eq_true rfl
  | offer fingerprint byteSize => exact Nat.le_of_ble_eq_true rfl
  | chunk fingerprint seq bytes => exact Nat.le_of_ble_eq_true rfl
  | done fingerprint => exact Nat.le_of_ble_eq_true rfl
  | decline fingerprint reason => exact Nat.le_of_ble_eq_true rfl

/-- An adjudication frame begins with one of the tags 6 to 9. -/
theorem adjudication_tag (message : AdjudicationMessage) : ∃ tag tail, message.encode = tag :: tail ∧
    6 ≤ tag.toNat := by
  cases message with
  | hello userId => exact ⟨tagHello, _, rfl, by decide⟩
  | propose nonce originUser entityId transform => exact ⟨tagPropose, _, rfl, by decide⟩
  | adjudicate nonce verdict => exact ⟨tagAdjudicate, _, rfl, by decide⟩
  | apply nonce => exact ⟨tagApply, _, rfl, by decide⟩

theorem encodings_differ (transfer : PeerMessage) (adjudication : AdjudicationMessage) :
    transfer.encode ≠ adjudication.encode := by
  intro h
  obtain ⟨tag, tail, hencode, hlow⟩ := adjudication_tag adjudication
  rw [hencode, PeerMessage.encode, List.cons_append] at h
  have htag : transfer.tag = tag := (List.cons.inj h).1
  have hhigh := transfer_tag transfer
  rw [htag] at hhigh
  omega

/-- Both codecs are exact, and no frame is read by both. -/
theorem codecs_exact_and_disjoint :
    (∀ message : PeerMessage, PeerMessage.decode message.encode = some message) ∧
      (∀ (frame : Frame) message, PeerMessage.decode frame = some message → message.encode = frame) ∧
      (∀ message : AdjudicationMessage, message.Sendable → AdjudicationMessage.decode message.encode = some message) ∧
      (∀ frame message, AdjudicationMessage.decode frame = some message → message.encode = frame) ∧
      ∀ frame : Frame, PeerMessage.decode frame = none ∨ AdjudicationMessage.decode frame = none := by
  refine ⟨PeerMessage.decode_encode, fun frame message h => PeerMessage.encode_decode h,
    fun message h => AdjudicationMessage.decode_encode h, fun frame message h =>
      (AdjudicationMessage.encode_decode h).1, fun frame => ?_⟩
  by_contra hboth
  rw [not_or] at hboth
  obtain ⟨transfer, htransfer⟩ := Option.ne_none_iff_exists'.mp hboth.1
  obtain ⟨adjudication, hadjudication⟩ := Option.ne_none_iff_exists'.mp hboth.2
  apply encodings_differ transfer adjudication
  calc
    transfer.encode = frame := PeerMessage.encode_decode htransfer
    _ = adjudication.encode := (AdjudicationMessage.encode_decode hadjudication).1.symm

/-- A proposal of a rotation, and a request. -/
theorem codecs_on_two_frames :
    let proposal := AdjudicationMessage.propose { seq := 7, origin := "s" } 1 2 { rotation := some 3 }
    let request := PeerMessage.request ⟨List.replicate 32 0, rfl⟩
    AdjudicationMessage.decode proposal.encode = some proposal ∧ request.encode = 1 :: List.replicate 32 0 ∧
      AdjudicationMessage.encode (.hello 0) = 6 :: List.replicate 16 0 :=
  ⟨codecs_exact_and_disjoint.2.2.1 _ ⟨by decide +kernel, rfl⟩, codecs_exact_and_disjoint.2.1 _ _ (by decide +kernel),
    codecs_exact_and_disjoint.2.2.2.1 _ _ (by decide +kernel)⟩

end ThunderForge.Peer
