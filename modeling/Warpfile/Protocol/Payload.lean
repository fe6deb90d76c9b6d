import Warpfile.Protocol.Frame

/-!
# The payloads of WFP/0.2

OFFER, REJECT and RESUME. For each of them the decoder accepts exactly what the encoder
produces.
-/

namespace Warpfile

abbrev transferIdLength : ℕ := 16
abbrev blake3HashLength : ℕ := 32

abbrev TransferId : Type := Block transferIdLength
abbrev Digest : Type := Block blake3HashLength

/-! ### OFFER -/

structure FileOffer where
  transferId : TransferId
  filename : String
  fileSize : UInt64
  deriving DecidableEq, Repr

inductive OfferError where
  | filenameEmpty
  | filenameTooLong (length : ℕ)
  | invalidUtf8
  | invalidPayloadLength
  deriving DecidableEq, Repr

/-- The length of a filename and its bytes. -/
def filenameField (filename : String) : Bytes :=
  toBE 2 (utf8 filename).length ++ utf8 filename

/-- The fields of an offer, one after the other. -/
def FileOffer.payload (offer : FileOffer) : Bytes :=
  offer.transferId.1 ++ filenameField offer.filename ++ word offer.fileSize

def encodeOffer (offer : FileOffer) : Except OfferError Bytes := do
  let filenameBytes := utf8 offer.filename
  refuseIf (filenameBytes = []) .filenameEmpty
  refuseIf (filenameBytes.length ≥ 2 ^ 16) (.filenameTooLong filenameBytes.length)
  return offer.payload

def decodeOffer (payload : Bytes) : Except OfferError FileOffer := do
  refuseIf (payload.length < transferIdLength + 2 + 8) .invalidPayloadLength
  let transferId := Block.ofBytes transferIdLength (payload.take transferIdLength)
  let filenameLength := ofBE ((payload.drop transferIdLength).take 2)
  refuseIf (filenameLength = 0) .filenameEmpty
  let filenameStart := transferIdLength + 2
  let filenameEnd := filenameStart + filenameLength
  refuseIf (payload.length ≠ filenameEnd + 8) .invalidPayloadLength
  let filename ← ((fromUtf8 ((payload.drop filenameStart).take filenameLength)).elim
    (.error .invalidUtf8) .ok)
  return { transferId, filename, fileSize := ofWord (payload.drop filenameEnd) }

/-- What a decoder reads back from the fields of an offer. -/
theorem offer_fields (id : TransferId) (name tail : Bytes) (hl : name.length < 2 ^ 16) :
    (id.1 ++ (toBE 2 name.length ++ name) ++ tail).take transferIdLength = id.1 ∧
    ofBE (((id.1 ++ (toBE 2 name.length ++ name) ++ tail).drop transferIdLength).take 2) =
      name.length ∧
    ((id.1 ++ (toBE 2 name.length ++ name) ++ tail).drop (transferIdLength + 2)).take name.length =
      name ∧
    (id.1 ++ (toBE 2 name.length ++ name) ++ tail).drop (transferIdLength + 2 + name.length) =
      tail := by
  have h16 : id.1.length = transferIdLength := id.2
  have hdrop : (id.1 ++ (toBE 2 name.length ++ name) ++ tail).drop transferIdLength =
      toBE 2 name.length ++ (name ++ tail) := by
    rw [List.append_assoc, List.drop_left' h16, List.append_assoc]
  have hdrop2 : (id.1 ++ (toBE 2 name.length ++ name) ++ tail).drop (transferIdLength + 2) =
      name ++ tail := by
    rw [← List.drop_drop, hdrop, List.drop_left' (length_toBE ..)]
  refine ⟨?_, ?_, ?_, ?_⟩
  · rw [List.append_assoc, List.take_left' h16]
  · rw [hdrop, List.take_left' (length_toBE ..), ofBE_toBE_of_lt (by simpa using hl)]
  · rw [hdrop2, List.take_left]
  · rw [← List.drop_drop, hdrop2, List.drop_left]

theorem decodeOffer_eq_ok {payload : Bytes} {offer : FileOffer} :
    decodeOffer payload = .ok offer ↔ encodeOffer offer = .ok payload := by
  simp only [decodeOffer, encodeOffer, bind_eq_ok, refuseIf_eq_ok, pure_eq_ok]
  constructor
  · rintro ⟨-, h26, -, h0, -, hlen, name, hname, rfl⟩
    simp only [not_lt, not_not] at h26 hlen
    set n := ofBE ((payload.drop transferIdLength).take 2) with hn
    have hname : fromUtf8 ((payload.drop (transferIdLength + 2)).take n) = some name := by
      rcases h : fromUtf8 ((payload.drop (transferIdLength + 2)).take n) with _ | s
      · simp [h] at hname
      · simpa [h] using hname
    have hutf := utf8_of_fromUtf8 hname
    have hnlen : (utf8 name).length = n := by
      rw [hutf]
      simp only [List.length_take, List.length_drop, transferIdLength] at *
      omega
    have h2 : ((payload.drop transferIdLength).take 2).length = 2 := by
      simp only [List.length_take, List.length_drop, transferIdLength] at *
      omega
    have hnlt : n < 2 ^ 16 := by simpa [h2] using ofBE_lt ((payload.drop transferIdLength).take 2)
    have hfield : toBE 2 n = (payload.drop transferIdLength).take 2 := by
      have := toBE_ofBE ((payload.drop transferIdLength).take 2)
      rwa [h2] at this
    have hlast : (payload.drop (transferIdLength + 2 + n)).length = 8 := by
      simp only [List.length_drop, transferIdLength] at *
      omega
    have hid : (payload.take transferIdLength).length = transferIdLength := by
      simp only [List.length_take, transferIdLength] at *
      omega
    refine ⟨(), fun h => h0 (by rw [← hnlen, h]; rfl), (), by rw [hnlen]; omega, ?_⟩
    rw [FileOffer.payload, filenameField, hnlen, hfield, hutf, word_ofWord hlast, Block.val_ofBytes hid,
      ← List.drop_drop, ← List.drop_drop, ← List.drop_drop, List.append_assoc, List.append_assoc,
      List.take_append_drop, List.take_append_drop, List.take_append_drop]
  · rintro ⟨-, h0, -, hl, rfl⟩
    obtain ⟨h₁, h₂, h₃, h₄⟩ := offer_fields offer.transferId (utf8 offer.filename)
      (word offer.fileSize) (by simpa using hl)
    rw [FileOffer.payload, filenameField, h₁, h₂, h₃, h₄]
    have hne : (utf8 offer.filename).length ≠ 0 := fun h => h0 (List.eq_nil_of_length_eq_zero h)
    have hid : offer.transferId.1.length = 16 := offer.transferId.2
    refine ⟨(), by simp [hid, transferIdLength]; omega, (), hne, (),
      by simp [hid, transferIdLength]; omega, offer.filename, by simp, ?_⟩
    simp

/-! ### REJECT -/

inductive RejectCode where
  | fileExists
  | unsafeFilename
  | cannotPrepareDestination
  deriving DecidableEq, Repr

namespace RejectCode

def toWire : RejectCode → ℕ
  | fileExists => 0x0001
  | unsafeFilename => 0x0002
  | cannotPrepareDestination => 0x0003

def ofWire (value : ℕ) : Except ℕ RejectCode :=
  match value with
  | 0x0001 => .ok fileExists
  | 0x0002 => .ok unsafeFilename
  | 0x0003 => .ok cannotPrepareDestination
  | _ => .error value

end RejectCode

structure FileReject where
  code : RejectCode
  message : String
  deriving DecidableEq, Repr

inductive RejectError where
  | messageTooLong (length : ℕ)
  | invalidPayloadLength
  | invalidUtf8
  | unknownCode (code : ℕ)
  deriving DecidableEq, Repr

def encodeReject (reject : FileReject) : Except RejectError Bytes := do
  let messageBytes := utf8 reject.message
  refuseIf (messageBytes.length > 2 ^ 16 - 1) (.messageTooLong messageBytes.length)
  return toBE 2 reject.code.toWire ++ toBE 2 messageBytes.length ++ messageBytes

def decodeReject (payload : Bytes) : Except RejectError FileReject := do
  refuseIf (payload.length < 4) .invalidPayloadLength
  let rawCode := ofBE (payload.take 2)
  let code ← (RejectCode.ofWire rawCode).mapError .unknownCode
  let messageLength := ofBE ((payload.drop 2).take 2)
  let expectedLength := 4 + messageLength
  refuseIf (payload.length ≠ expectedLength) .invalidPayloadLength
  let message ← (fromUtf8 (payload.drop 4)).elim (.error .invalidUtf8) .ok
  return { code, message }

/-! ### RESUME -/

abbrev resumePayloadLength : ℕ := 40

structure ResumeRequest where
  offset : UInt64
  prefixHash : Digest
  deriving DecidableEq, Repr

inductive ResumeError where
  | invalidPayloadLength (length : ℕ)
  deriving DecidableEq, Repr

def encodeResume (request : ResumeRequest) : Bytes := word request.offset ++ request.prefixHash.1

def decodeResume (payload : Bytes) : Except ResumeError ResumeRequest := do
  refuseIf (payload.length ≠ resumePayloadLength) (.invalidPayloadLength payload.length)
  return {
    offset := ofWord (payload.take 8)
    prefixHash := Block.ofBytes blake3HashLength (payload.drop 8) }

@[simp]
theorem length_encodeResume (request : ResumeRequest) :
    (encodeResume request).length = resumePayloadLength := by
  have h32 : request.prefixHash.1.length = 32 := request.prefixHash.2
  simp [encodeResume, h32, resumePayloadLength]

theorem decodeResume_eq_ok {payload : Bytes} {request : ResumeRequest} :
    decodeResume payload = .ok request ↔ encodeResume request = payload := by
  simp only [decodeResume, bind_eq_ok, refuseIf_eq_ok, pure_eq_ok, not_not]
  constructor
  · rintro ⟨-, hlen, rfl⟩
    have h8 : (payload.take 8).length = 8 := by simp [hlen, resumePayloadLength]
    have h32 : (payload.drop 8).length = blake3HashLength := by
      simp [hlen, resumePayloadLength, blake3HashLength]
    simp only [encodeResume]
    rw [word_ofWord h8, Block.val_ofBytes h32, List.take_append_drop]
  · rintro rfl
    refine ⟨(), length_encodeResume request, ?_⟩
    rw [encodeResume, List.take_left' (length_word _), List.drop_left' (length_word _)]
    simp

end Warpfile
