import Warpfile.Foundation.Slice
import Warpfile.Protocol.PayloadV03

/-!
# The codecs are canonical

An encoder and its decoder are inverse to each other between the values that have an encoding
and the payloads that are accepted. The decoders are written down a second time with the slices,
the indices and the additions of the source, which panic out of bounds; none of them does.

No payload of a format with a length in it is a proper prefix of another one. The data of a
WFP/0.3 DATA frame have no length of their own: they are all that follows the offset.
-/

namespace Warpfile

variable {ε ε' α : Type}

/-- The encoder and the decoder are inverse to each other, and the decoder, as it is written,
stays within its payload. -/
structure Canonical (encode : α → Except ε Bytes) (decode : Bytes → Except ε' α)
    (decodeSliced : Bytes → Panicking ε' α) : Prop where
  decode_encode : ∀ value payload, encode value = .ok payload → decode payload = .ok value
  encode_decode : ∀ payload value, decode payload = .ok value → encode value = .ok payload
  decode_inj : ∀ payload payload' value, decode payload = .ok value →
    decode payload' = .ok value → payload = payload'
  in_bounds : ∀ payload, (decodeSliced payload).Matches (decode payload)

/-- Neither a truncated payload nor one with trailing bytes is accepted. -/
def Delimited (decode : Bytes → Except ε α) : Prop :=
  ∀ payload payload' value value', decode payload = .ok value → decode payload' = .ok value' →
    payload <+: payload' → payload = payload'

theorem Canonical.of_iff {encode : α → Except ε Bytes} {decode : Bytes → Except ε' α}
    {decodeSliced : Bytes → Panicking ε' α}
    (h : ∀ {payload value}, decode payload = .ok value ↔ encode value = .ok payload)
    (bounds : ∀ payload, (decodeSliced payload).Matches (decode payload)) :
    Canonical encode decode decodeSliced where
  decode_encode _ _ := h.mpr
  encode_decode _ _ := h.mp
  decode_inj _ _ _ h₁ h₂ := Except.ok.inj ((h.mp h₁).symm.trans (h.mp h₂))
  in_bounds := bounds

/-- A payload whose first `k` bytes tell its length. -/
theorem Delimited.of_length {decode : Bytes → Except ε α} (k : ℕ) (length : Bytes → ℕ)
    (h : ∀ payload value, decode payload = .ok value → k ≤ payload.length ∧
      payload.length = length (payload.take k)) : Delimited decode := by
  intro p q x y hp hq hpre
  obtain ⟨hk, hlp⟩ := h p x hp
  obtain ⟨-, hlq⟩ := h q y hq
  refine hpre.eq_of_length ?_
  obtain ⟨r, rfl⟩ := hpre
  rw [List.take_append_of_le_length hk] at hlq
  exact hlp.trans hlq.symm

/-! ### REJECT -/

namespace RejectCode

theorem toWire_lt (code : RejectCode) : code.toWire < 2 ^ 16 := by
  cases code <;> decide

theorem ofWire_eq_ok {value : ℕ} {code : RejectCode} : ofWire value = .ok code ↔ code.toWire = value := by
  constructor
  · intro h
    unfold ofWire at h
    split at h <;> simp_all [toWire] <;> subst h <;> rfl
  · rintro rfl
    cases code <;> rfl

end RejectCode

theorem decodeReject_eq_ok {payload : Bytes} {reject : FileReject} :
    decodeReject payload = .ok reject ↔ encodeReject reject = .ok payload := by
  simp only [decodeReject, encodeReject, bind_eq_ok, refuseIf_eq_ok, pure_eq_ok, mapError_eq_ok,
    RejectCode.ofWire_eq_ok]
  constructor
  · rintro ⟨-, h4, code, hcode, -, hlen, message, hmessage, rfl⟩
    simp only [not_lt, not_not] at h4 hlen
    have hmessage : fromUtf8 (payload.drop 4) = some message := by
      rcases h : fromUtf8 (payload.drop 4) with _ | s
      · simp [h] at hmessage
      · simpa [h] using hmessage
    have hutf := utf8_of_fromUtf8 hmessage
    have hc2 : (payload.take 2).length = 2 := by simp only [List.length_take]; omega
    have hl2 : ((payload.drop 2).take 2).length = 2 := by
      simp only [List.length_take, List.length_drop]
      omega
    have hcode' : toBE 2 code.toWire = payload.take 2 := by
      have := toBE_ofBE (payload.take 2)
      rwa [hc2, ← hcode] at this
    have hlt : ofBE ((payload.drop 2).take 2) < 2 ^ 16 := by
      simpa [hl2] using ofBE_lt ((payload.drop 2).take 2)
    have hmlen : (utf8 message).length = ofBE ((payload.drop 2).take 2) := by
      rw [hutf]
      simp only [List.length_drop]
      omega
    have hfield : toBE 2 (utf8 message).length = (payload.drop 2).take 2 := by
      rw [hmlen]
      have := toBE_ofBE ((payload.drop 2).take 2)
      rwa [hl2] at this
    refine ⟨(), by rw [hmlen]; omega, ?_⟩
    rw [hcode', hfield, hutf, show payload.drop 4 = (payload.drop 2).drop 2 by
      rw [List.drop_drop], List.append_assoc, List.take_append_drop, List.take_append_drop]
  · rintro ⟨-, hl, rfl⟩
    simp only [not_lt] at hl
    have hc : ofBE (toBE 2 reject.code.toWire) = reject.code.toWire :=
      ofBE_toBE_of_lt (by simpa using reject.code.toWire_lt)
    have hn : ofBE (toBE 2 (utf8 reject.message).length) = (utf8 reject.message).length :=
      ofBE_toBE_of_lt (by omega)
    set message := utf8 reject.message with hmessage
    have hdrop : (toBE 2 reject.code.toWire ++ toBE 2 message.length ++ message).drop 2 =
        toBE 2 message.length ++ message := by
      rw [List.append_assoc, List.drop_left' (length_toBE ..)]
    have hdrop4 : (toBE 2 reject.code.toWire ++ toBE 2 message.length ++ message).drop 4 =
        message := by
      rw [show (4 : ℕ) = 2 + 2 from rfl, ← List.drop_drop, hdrop, List.drop_left' (length_toBE ..)]
    rw [hdrop, hdrop4, List.append_assoc, List.take_left' (length_toBE ..), hc,
      List.take_left' (length_toBE ..), hn]
    refine ⟨(), by simp; omega, reject.code, rfl, (), by simp; omega, reject.message,
      by simp [hmessage], rfl⟩

/-! ### The decoders as they are written -/

section Sliced

open Panicking

def decodeOfferSliced (payload : Bytes) : Panicking OfferError FileOffer := do
  lift (refuseIf (payload.length < transferIdLength + 2 + 8) .invalidPayloadLength)
  let transferId ← slice payload 0 transferIdLength
  let filenameLength ← indices payload transferIdLength 2
  lift (refuseIf (ofBE filenameLength = 0) .filenameEmpty)
  let filenameStart := transferIdLength + 2
  let filenameEnd ← add filenameStart (ofBE filenameLength)
  let expectedLength ← add filenameEnd 8
  lift (refuseIf (payload.length ≠ expectedLength) .invalidPayloadLength)
  let filenameBytes ← slice payload filenameStart filenameEnd
  let filename ← lift ((fromUtf8 filenameBytes).elim (.error .invalidUtf8) .ok)
  let fileSize ← indices payload filenameEnd 8
  return {
    transferId := Block.ofBytes transferIdLength transferId
    filename, fileSize := ofWord fileSize }

def decodeOfferV03Sliced (payload : Bytes) : Panicking OfferV03Error FileOfferV03 := do
  lift (refuseIf (payload.length < transferIdLength + 2 + 16) .invalidPayloadLength)
  let transferId ← slice payload 0 transferIdLength
  let filenameLength ← indices payload transferIdLength 2
  lift (refuseIf (ofBE filenameLength = 0) .filenameEmpty)
  let filenameStart := transferIdLength + 2
  let filenameEnd ← add filenameStart (ofBE filenameLength)
  let expectedLength ← add filenameEnd 16
  lift (refuseIf (payload.length ≠ expectedLength) .invalidPayloadLength)
  let filenameBytes ← slice payload filenameStart filenameEnd
  let filename ← lift ((fromUtf8 filenameBytes).elim (.error .invalidUtf8) .ok)
  let chunkSizeStart ← add filenameEnd 8
  let fileSize ← slice payload filenameEnd chunkSizeStart
  let chunkSize ← slice payload chunkSizeStart payload.length
  lift (refuseIf (ofWord chunkSize = 0) .zeroChunkSize)
  return {
    transferId := Block.ofBytes transferIdLength transferId
    filename, fileSize := ofWord fileSize, chunkSize := ofWord chunkSize }

def decodeRejectSliced (payload : Bytes) : Panicking RejectError FileReject := do
  lift (refuseIf (payload.length < 4) .invalidPayloadLength)
  let rawCode ← indices payload 0 2
  let code ← lift ((RejectCode.ofWire (ofBE rawCode)).mapError .unknownCode)
  let messageLength ← indices payload 2 2
  let expectedLength ← add 4 (ofBE messageLength)
  lift (refuseIf (payload.length ≠ expectedLength) .invalidPayloadLength)
  let messageBytes ← slice payload 4 payload.length
  let message ← lift ((fromUtf8 messageBytes).elim (.error .invalidUtf8) .ok)
  return { code, message }

def decodeResumeSliced (payload : Bytes) : Panicking ResumeError ResumeRequest := do
  lift (refuseIf (payload.length ≠ resumePayloadLength)
    (.invalidPayloadLength payload.length))
  let offset ← indices payload 0 8
  let prefixHash ← slice payload 8 40
  return { offset := ofWord offset, prefixHash := Block.ofBytes blake3HashLength prefixHash }

def decodeResumeV03Sliced (payload : Bytes) : Panicking ResumeV03Error ResumeRequestV03 := do
  lift (refuseIf (payload.length ≠ v03ResumePayloadLength)
    (.invalidPayloadLength payload.length))
  return { chunkRecordCount := ofWord payload }

/-- The records of `n` arrays of forty bytes. -/
def decodeRecordsSliced : ℕ → Bytes → Panicking ChunkHashesError (List ChunkHashRecord)
  | 0, _ => pure []
  | n + 1, bytes => do
    let index ← slice bytes 0 8
    let hash ← slice bytes 8 chunkHashRecordLength
    let rest ← slice bytes chunkHashRecordLength bytes.length
    let records ← decodeRecordsSliced n rest
    return { chunkIndex := ofWord index, hash := Block.ofBytes blake3HashLength hash } :: records

def decodeChunkHashesSliced (payload : Bytes) : Panicking ChunkHashesError ChunkHashesBatch := do
  lift (refuseIf (payload.length < 4) .invalidPayloadLength)
  lift (refuseIf (payload.length > maxPayloadLength)
    (.payloadTooLarge payload.length))
  let count ← slice payload 0 4
  let recordCount := ofBE count
  let expectedLength := chunkHashRecordLength * recordCount + 4
  lift (refuseIf (expectedLength ≥ 2 ^ 64) .invalidPayloadLength)
  lift (refuseIf (payload.length ≠ expectedLength) .invalidPayloadLength)
  let recordBytes ← slice payload 4 payload.length
  let records ← decodeRecordsSliced recordCount recordBytes
  return { records }

def decodeChunkStartV03Sliced (payload : Bytes) : Panicking ChunkStartV03Error ChunkStartV03 := do
  lift (refuseIf (payload.length ≠ v03ChunkStartPayloadLength)
    (.invalidPayloadLength payload.length))
  let chunkIndex ← slice payload 0 8
  let expectedHash ← slice payload 8 payload.length
  return {
    chunkIndex := ofWord chunkIndex
    expectedHash := Block.ofBytes blake3HashLength expectedHash }

def decodeDataV03Sliced (payload : Bytes) : Panicking DataV03Error DataV03 := do
  lift (refuseIf (payload.length > maxDataPayloadLength)
    (.payloadTooLarge payload.length))
  lift (refuseIf (payload.length < v03DataOffsetLength) .invalidPayloadLength)
  lift (refuseIf (payload.length = v03DataOffsetLength) .emptyData)
  let absoluteOffset ← slice payload 0 v03DataOffsetLength
  let data ← slice payload v03DataOffsetLength payload.length
  return { absoluteOffset := ofWord absoluteOffset, data }

def decodeAnnouncementSliced (payload : Bytes) : Panicking DiscoveryError DeviceAnnouncement := do
  lift (refuseIf (payload.length < 4) .invalidPayloadLength)
  let nameLength ← indices payload 0 2
  lift (refuseIf (ofBE nameLength = 0) .deviceNameEmpty)
  let expectedLength ← add 2 (ofBE nameLength)
  let expectedLength ← add expectedLength 2
  lift (refuseIf (payload.length ≠ expectedLength) .invalidPayloadLength)
  let nameStart := 2
  let nameEnd ← add nameStart (ofBE nameLength)
  let nameBytes ← slice payload nameStart nameEnd
  let deviceName ← lift ((fromUtf8 nameBytes).elim (.error .invalidUtf8) .ok)
  let tcpPort ← indices payload nameEnd 2
  lift (refuseIf (UInt16.ofNat (ofBE tcpPort) = 0) .invalidTcpPort)
  return { deviceName, tcpPort := UInt16.ofNat (ofBE tcpPort) }

variable {payload : Bytes}

/-- A slice to the end. -/
private theorem take_sub_drop {a : ℕ} : (payload.drop a).take (payload.length - a) = payload.drop a :=
  List.take_of_length_le (by simp)

theorem decodeOfferSliced_matches : (decodeOfferSliced payload).Matches (decodeOffer payload) := by
  unfold decodeOfferSliced decodeOffer
  simp only [transferIdLength]
  refine (matches_lift _).bind fun _ h => ?_
  simp only [refuseIf_eq_ok, not_lt] at h
  refine matches_slice (by omega) (by omega) (matches_indices (by omega) ?_)
  refine (matches_lift _).bind fun _ _ => ?_
  have hlt := ofBE_lt ((payload.drop 16).take 2)
  have h2 : ((payload.drop 16).take 2).length = 2 := by
    simp only [List.length_take, List.length_drop]
    omega
  rw [h2] at hlt
  refine matches_add (by omega) (matches_add (by omega) ?_)
  refine (matches_lift _).bind fun _ hlen => ?_
  simp only [refuseIf_eq_ok, not_not] at hlen
  refine matches_slice (by omega) (by omega) ?_
  rw [Nat.add_sub_cancel_left]
  refine (matches_lift _).bind fun _ _ => matches_indices (by omega) ?_
  have hsize : (payload.drop (16 + 2 + ofBE ((payload.drop 16).take 2))).length ≤ 8 := by
    simp only [List.length_drop]
    omega
  rw [List.take_of_length_le hsize]
  exact matches_pure _

theorem decodeOfferV03Sliced_matches :
    (decodeOfferV03Sliced payload).Matches (decodeOfferV03 payload) := by
  unfold decodeOfferV03Sliced decodeOfferV03
  simp only [transferIdLength]
  refine (matches_lift _).bind fun _ h => ?_
  simp only [refuseIf_eq_ok, not_lt] at h
  refine matches_slice (by omega) (by omega) (matches_indices (by omega) ?_)
  refine (matches_lift _).bind fun _ _ => ?_
  have hlt := ofBE_lt ((payload.drop 16).take 2)
  have h2 : ((payload.drop 16).take 2).length = 2 := by
    simp only [List.length_take, List.length_drop]
    omega
  rw [h2] at hlt
  refine matches_add (by omega) (matches_add (by omega) ?_)
  refine (matches_lift _).bind fun _ hlen => ?_
  simp only [refuseIf_eq_ok, not_not] at hlen
  refine matches_slice (by omega) (by omega) ?_
  rw [Nat.add_sub_cancel_left]
  refine (matches_lift _).bind fun _ _ => matches_add (by omega) ?_
  refine matches_slice (by omega) (by omega) (matches_slice (by omega) le_rfl ?_)
  rw [Nat.add_sub_cancel_left, take_sub_drop]
  exact (matches_lift _).bind fun _ _ => matches_pure _

theorem decodeRejectSliced_matches : (decodeRejectSliced payload).Matches (decodeReject payload) := by
  unfold decodeRejectSliced decodeReject
  refine (matches_lift _).bind fun _ h => ?_
  simp only [refuseIf_eq_ok, not_lt] at h
  refine matches_indices (by omega) ((matches_lift _).bind fun _ _ => matches_indices (by omega) ?_)
  have hlt := ofBE_lt ((payload.drop 2).take 2)
  have h2 : ((payload.drop 2).take 2).length = 2 := by
    simp only [List.length_take, List.length_drop]
    omega
  rw [h2] at hlt
  refine matches_add (by omega) ((matches_lift _).bind fun _ _ => ?_)
  refine matches_slice (by omega) le_rfl ?_
  rw [take_sub_drop]
  exact (matches_lift _).bind fun _ _ => matches_pure _

theorem decodeResumeSliced_matches : (decodeResumeSliced payload).Matches (decodeResume payload) := by
  unfold decodeResumeSliced decodeResume
  refine (matches_lift _).bind fun _ h => ?_
  simp only [refuseIf_eq_ok, not_not, resumePayloadLength] at h
  refine matches_indices (by omega) (matches_slice (by omega) (by omega) ?_)
  have hhash : (payload.drop 8).length ≤ 40 - 8 := by
    simp only [List.length_drop]
    omega
  rw [List.take_of_length_le hhash]
  exact matches_pure _

theorem decodeResumeV03Sliced_matches :
    (decodeResumeV03Sliced payload).Matches (decodeResumeV03 payload) :=
  (matches_lift _).bind fun _ _ => matches_pure _

theorem decodeRecordsSliced_matches {n : ℕ} {bytes : Bytes}
    (h : bytes.length = chunkHashRecordLength * n) :
    (decodeRecordsSliced n bytes).Matches (.ok (decodeRecords n bytes)) := by
  simp only [chunkHashRecordLength] at h
  induction n generalizing bytes with
  | zero => exact matches_pure _
  | succ n ih =>
    have hrest : (bytes.drop 40).length = 40 * n := by simp only [List.length_drop]; omega
    have h40 : chunkHashRecordLength ≤ bytes.length := by simp only [chunkHashRecordLength]; omega
    refine matches_slice (by omega) (by omega) (matches_slice (by decide) h40
      (matches_slice h40 le_rfl ?_))
    rw [take_sub_drop]
    refine Matches.bind (g := fun records => .ok (_ :: records)) (ih hrest) fun _ h => ?_
    obtain rfl := Except.ok.inj h
    exact matches_pure _

theorem decodeChunkHashesSliced_matches :
    (decodeChunkHashesSliced payload).Matches (decodeChunkHashes payload) := by
  unfold decodeChunkHashesSliced decodeChunkHashes
  refine (matches_lift _).bind fun _ h => (matches_lift _).bind fun _ _ => ?_
  simp only [refuseIf_eq_ok, not_lt] at h
  refine matches_slice (by omega) (by omega) ?_
  refine (matches_lift _).bind fun _ _ => (matches_lift _).bind fun _ hlen => ?_
  simp only [refuseIf_eq_ok, not_not] at hlen
  refine matches_slice (by omega) le_rfl ?_
  rw [take_sub_drop]
  refine Matches.bind (g := fun records => .ok (ChunkHashesBatch.mk records))
    (decodeRecordsSliced_matches ?_) fun _ h => ?_
  · simp only [List.length_drop, List.drop_zero, Nat.sub_zero] at *
    omega
  · obtain rfl := Except.ok.inj h
    exact matches_pure _

theorem decodeChunkStartV03Sliced_matches :
    (decodeChunkStartV03Sliced payload).Matches (decodeChunkStartV03 payload) := by
  unfold decodeChunkStartV03Sliced decodeChunkStartV03
  refine (matches_lift _).bind fun _ h => ?_
  simp only [refuseIf_eq_ok, not_not, v03ChunkStartPayloadLength] at h
  refine matches_slice (by omega) (by omega) (matches_slice (by omega) le_rfl ?_)
  rw [take_sub_drop]
  exact matches_pure _

theorem decodeDataV03Sliced_matches :
    (decodeDataV03Sliced payload).Matches (decodeDataV03 payload) := by
  unfold decodeDataV03Sliced decodeDataV03
  refine (matches_lift _).bind fun _ _ => (matches_lift _).bind fun _ h => ?_
  simp only [refuseIf_eq_ok, not_lt] at h
  refine (matches_lift _).bind fun _ _ => ?_
  refine matches_slice (by omega) h (matches_slice h le_rfl ?_)
  rw [take_sub_drop]
  exact matches_pure _

theorem decodeAnnouncementSliced_matches :
    (decodeAnnouncementSliced payload).Matches (decodeAnnouncement payload) := by
  unfold decodeAnnouncementSliced decodeAnnouncement
  refine (matches_lift _).bind fun _ h => ?_
  simp only [refuseIf_eq_ok, not_lt] at h
  refine matches_indices (by omega) ((matches_lift _).bind fun _ _ => ?_)
  have hlt := ofBE_lt (payload.take 2)
  have h2 : (payload.take 2).length = 2 := by simp only [List.length_take]; omega
  rw [h2] at hlt
  simp only [List.drop_zero]
  refine matches_add (by omega) (matches_add (by omega) ?_)
  refine (matches_lift _).bind fun _ hlen => matches_add (by omega) ?_
  simp only [refuseIf_eq_ok, not_not] at hlen
  refine matches_slice (by omega) (by omega) ?_
  rw [Nat.add_sub_cancel_left]
  refine (matches_lift _).bind fun _ _ => matches_indices (by omega) ?_
  exact (matches_lift _).bind fun _ _ => matches_pure _

end Sliced

/-! ### Payloads that tell their length -/

theorem delimited_decodeOffer : Delimited decodeOffer := by
  refine .of_length 18 (fun field => 26 + ofBE (field.drop 16)) fun payload offer h => ?_
  simp only [decodeOffer, bind_eq_ok, refuseIf_eq_ok, pure_eq_ok] at h
  obtain ⟨-, hmin, -, -, -, hlen, -⟩ := h
  simp only [transferIdLength, not_lt, not_not] at hmin hlen
  exact ⟨by omega, by simp only [List.drop_take, Nat.reduceSub]; omega⟩

theorem delimited_decodeOfferV03 : Delimited decodeOfferV03 := by
  refine .of_length 18 (fun field => 34 + ofBE (field.drop 16)) fun payload offer h => ?_
  simp only [decodeOfferV03, bind_eq_ok, refuseIf_eq_ok, pure_eq_ok] at h
  obtain ⟨-, hmin, -, -, -, hlen, -⟩ := h
  simp only [transferIdLength, not_lt, not_not] at hmin hlen
  exact ⟨by omega, by simp only [List.drop_take, Nat.reduceSub]; omega⟩

theorem delimited_decodeReject : Delimited decodeReject := by
  refine .of_length 4 (fun field => 4 + ofBE (field.drop 2)) fun payload reject h => ?_
  simp only [decodeReject, bind_eq_ok, refuseIf_eq_ok, pure_eq_ok] at h
  obtain ⟨-, hmin, -, -, -, hlen, -⟩ := h
  simp only [not_lt, not_not] at hmin hlen
  exact ⟨by omega, by simp only [List.drop_take, Nat.reduceSub]; omega⟩

theorem delimited_decodeResume : Delimited decodeResume := by
  refine .of_length 0 (fun _ => resumePayloadLength) fun payload request h => ⟨Nat.zero_le _, ?_⟩
  rw [← decodeResume_eq_ok.mp h]
  exact length_encodeResume request

theorem delimited_decodeResumeV03 : Delimited decodeResumeV03 := by
  refine .of_length 0 (fun _ => v03ResumePayloadLength) fun payload request h =>
    ⟨Nat.zero_le _, ?_⟩
  rw [← decodeResumeV03_eq_ok.mp h]
  exact length_word _

theorem delimited_decodeChunkHashes : Delimited decodeChunkHashes := by
  refine .of_length 4 (fun field => chunkHashRecordLength * ofBE field + 4) fun payload batch h => ?_
  simp only [decodeChunkHashes, bind_eq_ok, refuseIf_eq_ok, pure_eq_ok] at h
  obtain ⟨-, hmin, -, -, -, -, -, hlen, -⟩ := h
  exact ⟨by omega, by simpa using hlen⟩

theorem delimited_decodeChunkStartV03 : Delimited decodeChunkStartV03 := by
  refine .of_length 0 (fun _ => v03ChunkStartPayloadLength) fun payload chunkStart h =>
    ⟨Nat.zero_le _, ?_⟩
  rw [← decodeChunkStartV03_eq_ok.mp h]
  exact length_encodeChunkStartV03 chunkStart

theorem delimited_decodeAnnouncement : Delimited decodeAnnouncement := by
  refine .of_length 2 (fun field => 2 + ofBE field + 2) fun payload announcement h => ?_
  simp only [decodeAnnouncement, bind_eq_ok, refuseIf_eq_ok, pure_eq_ok] at h
  obtain ⟨-, hmin, -, -, -, hlen, -⟩ := h
  exact ⟨by omega, by simpa using hlen⟩

/-- The data of a frame may be cut short: what is left is the payload of another frame. -/
theorem not_delimited_decodeDataV03 : ¬Delimited decodeDataV03 := fun h =>
  absurd (h (word 0 ++ [1]) (word 0 ++ [1, 2]) ⟨0, [1]⟩ ⟨0, [1, 2]⟩ (by decide) (by decide)
    (by decide)) (by decide)

/-- **Every codec is a bijection** between the values that have an encoding and the payloads that
are accepted, and its decoder stays within the payload. Of payloads that tell their length neither
a part nor an extension is accepted; a DATA payload is one with at least one byte and at most
`v03MaxDataBytes` bytes after its offset. -/
theorem codecs_canonical :
    (Canonical encodeOffer decodeOffer decodeOfferSliced ∧ Delimited decodeOffer) ∧
    (Canonical encodeOfferV03 decodeOfferV03 decodeOfferV03Sliced ∧ Delimited decodeOfferV03) ∧
    (Canonical encodeReject decodeReject decodeRejectSliced ∧ Delimited decodeReject) ∧
    (Canonical (fun request => (.ok (encodeResume request) : Except ResumeError Bytes)) decodeResume
      decodeResumeSliced ∧ Delimited decodeResume) ∧
    (Canonical (fun request => (.ok (encodeResumeV03 request) : Except ResumeV03Error Bytes))
      decodeResumeV03 decodeResumeV03Sliced ∧ Delimited decodeResumeV03) ∧
    (Canonical encodeChunkHashes decodeChunkHashes decodeChunkHashesSliced ∧
      Delimited decodeChunkHashes) ∧
    (Canonical (fun chunkStart =>
        (.ok (encodeChunkStartV03 chunkStart) : Except ChunkStartV03Error Bytes))
      decodeChunkStartV03 decodeChunkStartV03Sliced ∧ Delimited decodeChunkStartV03) ∧
    (Canonical encodeAnnouncement decodeAnnouncement decodeAnnouncementSliced ∧
      Delimited decodeAnnouncement) ∧
    Canonical encodeDataV03 decodeDataV03 decodeDataV03Sliced ∧
      ∀ payload, (∃ data, decodeDataV03 payload = .ok data) ↔
        v03DataOffsetLength < payload.length ∧ payload.length ≤ maxDataPayloadLength := by
  have ok {ε : Type} {p q : Bytes} : (.ok p : Except ε Bytes) = .ok q ↔ p = q := by
    simp
  refine ⟨⟨.of_iff decodeOffer_eq_ok fun _ => decodeOfferSliced_matches, delimited_decodeOffer⟩,
    ⟨.of_iff decodeOfferV03_eq_ok fun _ => decodeOfferV03Sliced_matches, delimited_decodeOfferV03⟩,
    ⟨.of_iff decodeReject_eq_ok fun _ => decodeRejectSliced_matches, delimited_decodeReject⟩,
    ⟨.of_iff (decodeResume_eq_ok.trans ok.symm) fun _ => decodeResumeSliced_matches,
      delimited_decodeResume⟩,
    ⟨.of_iff (decodeResumeV03_eq_ok.trans ok.symm) fun _ => decodeResumeV03Sliced_matches,
      delimited_decodeResumeV03⟩,
    ⟨.of_iff decodeChunkHashes_eq_ok fun _ => decodeChunkHashesSliced_matches,
      delimited_decodeChunkHashes⟩,
    ⟨.of_iff (decodeChunkStartV03_eq_ok.trans ok.symm) fun _ => decodeChunkStartV03Sliced_matches,
      delimited_decodeChunkStartV03⟩,
    ⟨.of_iff decodeAnnouncement_eq_ok fun _ => decodeAnnouncementSliced_matches,
      delimited_decodeAnnouncement⟩,
    .of_iff decodeDataV03_eq_ok fun _ => decodeDataV03Sliced_matches, fun payload => ?_⟩
  simp only [decodeDataV03, bind_eq_ok, refuseIf_eq_ok, pure_eq_ok]
  constructor
  · rintro ⟨data, -, hmax, -, hmin, -, hne, -⟩
    exact ⟨by omega, by omega⟩
  · rintro ⟨hmin, hmax⟩
    exact ⟨_, (), by omega, (), by omega, (), by omega, rfl⟩

end Warpfile
