import Warpfile.Protocol.Payload

/-!
# The payloads of WFP/0.3 and of discovery

OFFER, RESUME, CHUNK_HASHES, CHUNK_START and DATA of WFP/0.3, and ANNOUNCE. As for WFP/0.2, a
decoder accepts exactly what the encoder produces.
-/

namespace Warpfile

abbrev v03ResumePayloadLength : ℕ := 8
abbrev chunkHashRecordLength : ℕ := 40
abbrev v03ChunkStartPayloadLength : ℕ := 40
abbrev v03DataOffsetLength : ℕ := 8
abbrev v03MaxDataBytes : ℕ := maxDataPayloadLength - v03DataOffsetLength

abbrev ChunkHash : Type := Digest

/-! ### OFFER -/

structure FileOfferV03 where
  transferId : TransferId
  filename : String
  fileSize : UInt64
  chunkSize : UInt64
  deriving DecidableEq, Repr

inductive OfferV03Error where
  | filenameEmpty
  | filenameTooLong (length : ℕ)
  | invalidUtf8
  | invalidPayloadLength
  | zeroChunkSize
  deriving DecidableEq, Repr

/-- The fields of an offer, one after the other. -/
def FileOfferV03.payload (offer : FileOfferV03) : Bytes :=
  offer.transferId.1 ++ filenameField offer.filename ++ word offer.fileSize ++ word offer.chunkSize

def encodeOfferV03 (offer : FileOfferV03) : Except OfferV03Error Bytes := do
  let filename := utf8 offer.filename
  refuseIf (filename = []) .filenameEmpty
  refuseIf (filename.length ≥ 2 ^ 16) (.filenameTooLong filename.length)
  refuseIf (offer.chunkSize = 0) .zeroChunkSize
  return offer.payload

def decodeOfferV03 (payload : Bytes) : Except OfferV03Error FileOfferV03 := do
  refuseIf (payload.length < transferIdLength + 2 + 16) .invalidPayloadLength
  let transferId := Block.ofBytes transferIdLength (payload.take transferIdLength)
  let filenameLength := ofBE ((payload.drop transferIdLength).take 2)
  refuseIf (filenameLength = 0) .filenameEmpty
  let filenameStart := transferIdLength + 2
  let filenameEnd := filenameStart + filenameLength
  refuseIf (payload.length ≠ filenameEnd + 16) .invalidPayloadLength
  let filename ← ((fromUtf8 ((payload.drop filenameStart).take filenameLength)).elim
    (.error .invalidUtf8) .ok)
  let chunkSizeStart := filenameEnd + 8
  let fileSize := ofWord ((payload.drop filenameEnd).take 8)
  let chunkSize := ofWord (payload.drop chunkSizeStart)
  refuseIf (chunkSize = 0) .zeroChunkSize
  return { transferId, filename, fileSize, chunkSize }

theorem decodeOfferV03_eq_ok {payload : Bytes} {offer : FileOfferV03} :
    decodeOfferV03 payload = .ok offer ↔ encodeOfferV03 offer = .ok payload := by
  simp only [decodeOfferV03, encodeOfferV03, bind_eq_ok, refuseIf_eq_ok, pure_eq_ok]
  constructor
  · rintro ⟨-, h34, -, h0, -, hlen, name, hname, -, hchunk, rfl⟩
    simp only [not_lt, not_not] at h34 hlen
    set n := ofBE ((payload.drop transferIdLength).take 2) with hn
    have hname : fromUtf8 ((payload.drop (transferIdLength + 2)).take n) = some name := by
      rcases h : fromUtf8 ((payload.drop (transferIdLength + 2)).take n) with _ | s
      · simp [h] at hname
      · simpa [h] using hname
    have hutf := utf8_of_fromUtf8 hname
    simp only [transferIdLength] at *
    have hnlen : (utf8 name).length = n := by
      rw [hutf]
      simp only [List.length_take, List.length_drop]
      omega
    have h2 : ((payload.drop 16).take 2).length = 2 := by
      simp only [List.length_take, List.length_drop]
      omega
    have hnlt : n < 2 ^ 16 := by simpa [h2] using ofBE_lt ((payload.drop 16).take 2)
    have hfield : toBE 2 n = (payload.drop 16).take 2 := by
      have := toBE_ofBE ((payload.drop 16).take 2)
      rwa [h2] at this
    have hsize : ((payload.drop (16 + 2 + n)).take 8).length = 8 := by
      simp only [List.length_take, List.length_drop]
      omega
    have hlast : (payload.drop (16 + 2 + n + 8)).length = 8 := by
      simp only [List.length_drop]
      omega
    have hid : (payload.take 16).length = 16 := by
      simp only [List.length_take]
      omega
    refine ⟨(), fun h => h0 (by rw [← hnlen, h]; rfl), (), by rw [hnlen]; omega, (), hchunk, ?_⟩
    rw [FileOfferV03.payload, filenameField, hnlen, hfield, hutf, word_ofWord hsize,
      word_ofWord hlast, Block.val_ofBytes hid]
    simp only [List.append_assoc, ← List.drop_drop, List.take_append_drop]
  · rintro ⟨-, h0, -, hl, -, hchunk, rfl⟩
    obtain ⟨h₁, h₂, h₃, h₄⟩ := offer_fields offer.transferId (utf8 offer.filename)
      (word offer.fileSize ++ word offer.chunkSize) (by simpa using hl)
    rw [FileOfferV03.payload, filenameField, List.append_assoc, h₁, h₂, h₃, ← List.drop_drop, h₄]
    have hne : (utf8 offer.filename).length ≠ 0 := fun h => h0 (List.eq_nil_of_length_eq_zero h)
    have hid : offer.transferId.1.length = 16 := offer.transferId.2
    rw [List.take_left' (length_word _), List.drop_left' (length_word _)]
    refine ⟨(), by simp [hid, transferIdLength]; omega, (), hne, (),
      by simp [hid, transferIdLength]; omega, offer.filename, by simp, (), by simpa using hchunk, ?_⟩
    simp

/-! ### RESUME -/

structure ResumeRequestV03 where
  chunkRecordCount : UInt64
  deriving DecidableEq, Repr

inductive ResumeV03Error where
  | invalidPayloadLength (length : ℕ)
  deriving DecidableEq, Repr

def encodeResumeV03 (request : ResumeRequestV03) : Bytes := word request.chunkRecordCount

def decodeResumeV03 (payload : Bytes) : Except ResumeV03Error ResumeRequestV03 := do
  refuseIf (payload.length ≠ v03ResumePayloadLength) (.invalidPayloadLength payload.length)
  return { chunkRecordCount := ofWord payload }

theorem decodeResumeV03_eq_ok {payload : Bytes} {request : ResumeRequestV03} :
    decodeResumeV03 payload = .ok request ↔ encodeResumeV03 request = payload := by
  simp only [decodeResumeV03, bind_eq_ok, refuseIf_eq_ok, pure_eq_ok, not_not]
  constructor
  · rintro ⟨-, hlen, rfl⟩
    exact word_ofWord hlen
  · rintro rfl
    exact ⟨(), length_word _, by simp [encodeResumeV03]⟩

/-! ### CHUNK_HASHES -/

structure ChunkHashRecord where
  chunkIndex : UInt64
  hash : ChunkHash
  deriving DecidableEq, Repr

structure ChunkHashesBatch where
  records : List ChunkHashRecord
  deriving DecidableEq, Repr

inductive ChunkHashesError where
  | recordCountTooLarge (count : ℕ)
  | payloadTooLarge (length : ℕ)
  | invalidPayloadLength
  deriving DecidableEq, Repr

def ChunkHashRecord.encoding (record : ChunkHashRecord) : Bytes :=
  word record.chunkIndex ++ record.hash.1

def encodeChunkHashes (batch : ChunkHashesBatch) : Except ChunkHashesError Bytes := do
  let recordCount := batch.records.length
  refuseIf (recordCount ≥ 2 ^ 32) (.recordCountTooLarge recordCount)
  let payloadLength := chunkHashRecordLength * recordCount + 4
  refuseIf (payloadLength ≥ 2 ^ 64) .invalidPayloadLength
  refuseIf (payloadLength > maxPayloadLength) (.payloadTooLarge payloadLength)
  return toBE 4 recordCount ++ batch.records.flatMap ChunkHashRecord.encoding

/-- The records that `n` times forty bytes stand for. -/
def decodeRecords : ℕ → Bytes → List ChunkHashRecord
  | 0, _ => []
  | n + 1, bytes =>
    { chunkIndex := ofWord (bytes.take 8)
      hash := Block.ofBytes blake3HashLength ((bytes.drop 8).take blake3HashLength) }
      :: decodeRecords n (bytes.drop chunkHashRecordLength)

def decodeChunkHashes (payload : Bytes) : Except ChunkHashesError ChunkHashesBatch := do
  refuseIf (payload.length < 4) .invalidPayloadLength
  refuseIf (payload.length > maxPayloadLength) (.payloadTooLarge payload.length)
  let recordCount := ofBE (payload.take 4)
  let expectedLength := chunkHashRecordLength * recordCount + 4
  refuseIf (expectedLength ≥ 2 ^ 64) .invalidPayloadLength
  refuseIf (payload.length ≠ expectedLength) .invalidPayloadLength
  return { records := decodeRecords recordCount (payload.drop 4) }

@[simp]
theorem ChunkHashRecord.length_encoding (record : ChunkHashRecord) :
    record.encoding.length = chunkHashRecordLength := by
  have : record.hash.1.length = 32 := record.hash.2
  simp [ChunkHashRecord.encoding, this, chunkHashRecordLength]

theorem length_records (records : List ChunkHashRecord) :
    (records.flatMap ChunkHashRecord.encoding).length = chunkHashRecordLength * records.length := by
  induction records with
  | nil => rfl
  | cons record records ih =>
    rw [List.flatMap_cons, List.length_append, ih, ChunkHashRecord.length_encoding,
      List.length_cons, Nat.mul_succ, Nat.add_comm]

theorem decodeRecords_encoding (records : List ChunkHashRecord) :
    decodeRecords records.length (records.flatMap ChunkHashRecord.encoding) = records := by
  induction records with
  | nil => rfl
  | cons record records ih =>
    have hh : record.hash.1.length = blake3HashLength := record.hash.2
    rw [List.length_cons, decodeRecords, List.flatMap_cons,
      List.drop_left' record.length_encoding, ih, ChunkHashRecord.encoding, List.append_assoc,
      List.take_left' (length_word _), List.drop_left' (length_word _), List.take_left' hh]
    simp

theorem length_decodeRecords (n : ℕ) (bytes : Bytes) : (decodeRecords n bytes).length = n := by
  induction n generalizing bytes with
  | zero => rfl
  | succ n ih => simp [decodeRecords, ih]

theorem encoding_decodeRecords {n : ℕ} {bytes : Bytes}
    (h : bytes.length = chunkHashRecordLength * n) :
    (decodeRecords n bytes).flatMap ChunkHashRecord.encoding = bytes := by
  simp only [chunkHashRecordLength] at h
  induction n generalizing bytes with
  | zero => exact (List.eq_nil_of_length_eq_zero h).symm
  | succ n ih =>
    have h8 : (bytes.take 8).length = 8 := by simp only [List.length_take]; omega
    have h32 : ((bytes.drop 8).take blake3HashLength).length = blake3HashLength := by
      simp only [List.length_take, List.length_drop, blake3HashLength]
      omega
    have hrec : word (ofWord (bytes.take 8)) ++ ((bytes.drop 8).take blake3HashLength) =
        bytes.take chunkHashRecordLength := by
      rw [word_ofWord h8, blake3HashLength, chunkHashRecordLength,
        show (40 : ℕ) = 8 + 32 from rfl, List.take_add]
    rw [decodeRecords, List.flatMap_cons,
      ih (by simp only [List.length_drop, chunkHashRecordLength]; omega),
      ChunkHashRecord.encoding, Block.val_ofBytes h32, hrec, List.take_append_drop]

theorem decodeChunkHashes_eq_ok {payload : Bytes} {batch : ChunkHashesBatch} :
    decodeChunkHashes payload = .ok batch ↔ encodeChunkHashes batch = .ok payload := by
  simp only [decodeChunkHashes, encodeChunkHashes, bind_eq_ok, refuseIf_eq_ok, pure_eq_ok]
  constructor
  · rintro ⟨-, h4, -, hmax, -, hexp, -, hlen, rfl⟩
    simp only [not_lt, not_le, not_not, ge_iff_le, gt_iff_lt] at h4 hmax hexp hlen
    have h4' : (payload.take 4).length = 4 := by simp only [List.length_take]; omega
    have hlt : ofBE (payload.take 4) < 2 ^ 32 := by simpa [h4'] using ofBE_lt (payload.take 4)
    have hcount : toBE 4 (ofBE (payload.take 4)) = payload.take 4 := by
      have := toBE_ofBE (payload.take 4)
      rwa [h4'] at this
    rw [length_decodeRecords, encoding_decodeRecords (by simp only [List.length_drop]; omega),
      hcount, List.take_append_drop]
    exact ⟨(), by omega, (), by omega, (), by omega, rfl⟩
  · rintro ⟨-, hcount, -, hexp, -, hmax, rfl⟩
    simp only [not_le, ge_iff_le, gt_iff_lt, not_lt] at hcount hexp hmax
    have hn : ofBE (toBE 4 batch.records.length) = batch.records.length :=
      ofBE_toBE_of_lt (by simpa using hcount)
    rw [List.take_left' (length_toBE ..), List.drop_left' (length_toBE ..), hn,
      decodeRecords_encoding, List.length_append, length_toBE, length_records]
    exact ⟨(), by omega, (), by omega, (), by omega, (), by omega, rfl⟩

/-! ### CHUNK_START -/

structure ChunkStartV03 where
  chunkIndex : UInt64
  expectedHash : ChunkHash
  deriving DecidableEq, Repr

inductive ChunkStartV03Error where
  | invalidPayloadLength (length : ℕ)
  deriving DecidableEq, Repr

def encodeChunkStartV03 (chunkStart : ChunkStartV03) : Bytes :=
  word chunkStart.chunkIndex ++ chunkStart.expectedHash.1

def decodeChunkStartV03 (payload : Bytes) : Except ChunkStartV03Error ChunkStartV03 := do
  refuseIf (payload.length ≠ v03ChunkStartPayloadLength) (.invalidPayloadLength payload.length)
  return {
    chunkIndex := ofWord (payload.take 8)
    expectedHash := Block.ofBytes blake3HashLength (payload.drop 8) }

@[simp]
theorem length_encodeChunkStartV03 (chunkStart : ChunkStartV03) :
    (encodeChunkStartV03 chunkStart).length = v03ChunkStartPayloadLength := by
  have h32 : chunkStart.expectedHash.1.length = 32 := chunkStart.expectedHash.2
  simp [encodeChunkStartV03, h32, v03ChunkStartPayloadLength]

theorem decodeChunkStartV03_eq_ok {payload : Bytes} {chunkStart : ChunkStartV03} :
    decodeChunkStartV03 payload = .ok chunkStart ↔ encodeChunkStartV03 chunkStart = payload := by
  simp only [decodeChunkStartV03, bind_eq_ok, refuseIf_eq_ok, pure_eq_ok, not_not]
  constructor
  · rintro ⟨-, hlen, rfl⟩
    have h8 : (payload.take 8).length = 8 := by simp [hlen, v03ChunkStartPayloadLength]
    have h32 : (payload.drop 8).length = blake3HashLength := by
      simp [hlen, v03ChunkStartPayloadLength, blake3HashLength]
    simp only [encodeChunkStartV03]
    rw [word_ofWord h8, Block.val_ofBytes h32, List.take_append_drop]
  · rintro rfl
    refine ⟨(), length_encodeChunkStartV03 chunkStart, ?_⟩
    rw [encodeChunkStartV03, List.take_left' (length_word _), List.drop_left' (length_word _)]
    simp

/-! ### DATA -/

structure DataV03 where
  absoluteOffset : UInt64
  data : Bytes
  deriving DecidableEq, Repr

inductive DataV03Error where
  | emptyData
  | invalidPayloadLength
  | payloadTooLarge (length : ℕ)
  deriving DecidableEq, Repr

def encodeDataV03 (data : DataV03) : Except DataV03Error Bytes := do
  refuseIf (data.data = []) .emptyData
  refuseIf (data.data.length > v03MaxDataBytes)
    (.payloadTooLarge (v03DataOffsetLength + data.data.length))
  return word data.absoluteOffset ++ data.data

def decodeDataV03 (payload : Bytes) : Except DataV03Error DataV03 := do
  refuseIf (payload.length > maxDataPayloadLength) (.payloadTooLarge payload.length)
  refuseIf (payload.length < v03DataOffsetLength) .invalidPayloadLength
  refuseIf (payload.length = v03DataOffsetLength) .emptyData
  return {
    absoluteOffset := ofWord (payload.take v03DataOffsetLength)
    data := payload.drop v03DataOffsetLength }

theorem decodeDataV03_eq_ok {payload : Bytes} {data : DataV03} :
    decodeDataV03 payload = .ok data ↔ encodeDataV03 data = .ok payload := by
  simp only [decodeDataV03, encodeDataV03, bind_eq_ok, refuseIf_eq_ok, pure_eq_ok, v03MaxDataBytes,
    v03DataOffsetLength, maxDataPayloadLength]
  constructor
  · rintro ⟨-, hmax, -, hmin, -, hne, rfl⟩
    have h8 : (payload.take 8).length = 8 := by simp only [List.length_take]; omega
    simp only
    rw [word_ofWord h8, List.take_append_drop]
    refine ⟨(), fun h => hne ?_, (), by simp only [List.length_drop]; omega, rfl⟩
    have := congrArg List.length h
    simp only [List.length_drop, List.length_nil] at this
    omega
  · rintro ⟨-, hne, -, hmax, rfl⟩
    have hpos := List.length_pos_iff.mpr hne
    rw [List.take_left' (length_word _), List.drop_left' (length_word _), List.length_append,
      length_word]
    exact ⟨(), by omega, (), by omega, (), by omega, by simp⟩

/-! ### ANNOUNCE -/

structure DeviceAnnouncement where
  deviceName : String
  tcpPort : UInt16
  deriving DecidableEq, Repr

inductive DiscoveryError where
  | deviceNameEmpty
  | deviceNameTooLong (length : ℕ)
  | invalidUtf8
  | invalidPayloadLength
  | invalidTcpPort
  deriving DecidableEq, Repr

def encodeAnnouncement (announcement : DeviceAnnouncement) : Except DiscoveryError Bytes := do
  let nameBytes := utf8 announcement.deviceName
  refuseIf (nameBytes = []) .deviceNameEmpty
  refuseIf (nameBytes.length > 2 ^ 16 - 1) (.deviceNameTooLong nameBytes.length)
  refuseIf (announcement.tcpPort = 0) .invalidTcpPort
  return toBE 2 nameBytes.length ++ nameBytes ++ toBE 2 announcement.tcpPort.toNat

def decodeAnnouncement (payload : Bytes) : Except DiscoveryError DeviceAnnouncement := do
  refuseIf (payload.length < 4) .invalidPayloadLength
  let nameLength := ofBE (payload.take 2)
  refuseIf (nameLength = 0) .deviceNameEmpty
  let expectedLength := 2 + nameLength + 2
  refuseIf (payload.length ≠ expectedLength) .invalidPayloadLength
  let nameStart := 2
  let nameEnd := nameStart + nameLength
  let deviceName ← ((fromUtf8 ((payload.drop nameStart).take nameLength)).elim
    (.error .invalidUtf8) .ok)
  let tcpPort := UInt16.ofNat (ofBE ((payload.drop nameEnd).take 2))
  refuseIf (tcpPort = 0) .invalidTcpPort
  return { deviceName, tcpPort }

theorem decodeAnnouncement_eq_ok {payload : Bytes} {announcement : DeviceAnnouncement} :
    decodeAnnouncement payload = .ok announcement ↔
      encodeAnnouncement announcement = .ok payload := by
  simp only [decodeAnnouncement, encodeAnnouncement, bind_eq_ok, refuseIf_eq_ok, pure_eq_ok]
  constructor
  · rintro ⟨-, h4, -, h0, -, hlen, name, hname, -, hport, rfl⟩
    simp only [not_lt, not_not] at h4 hlen
    set n := ofBE (payload.take 2) with hn
    have hname : fromUtf8 ((payload.drop 2).take n) = some name := by
      rcases h : fromUtf8 ((payload.drop 2).take n) with _ | s
      · simp [h] at hname
      · simpa [h] using hname
    have hutf := utf8_of_fromUtf8 hname
    have hnlen : (utf8 name).length = n := by
      rw [hutf]
      simp only [List.length_take, List.length_drop]
      omega
    have h2 : (payload.take 2).length = 2 := by simp only [List.length_take]; omega
    have hnlt : n < 2 ^ 16 := by simpa [h2] using ofBE_lt (payload.take 2)
    have hfield : toBE 2 n = payload.take 2 := by
      have := toBE_ofBE (payload.take 2)
      rwa [h2] at this
    have hlast : (payload.drop (2 + n)).length = 2 := by
      simp only [List.length_drop]
      omega
    have htake : (payload.drop (2 + n)).take 2 = payload.drop (2 + n) :=
      List.take_of_length_le hlast.le
    have hp : toBE 2 (UInt16.ofNat (ofBE ((payload.drop (2 + n)).take 2))).toNat =
        payload.drop (2 + n) := by
      have hlt := ofBE_lt (payload.drop (2 + n))
      have := toBE_ofBE (payload.drop (2 + n))
      rw [hlast] at hlt this
      rw [htake, UInt16.toNat_ofNat', Nat.mod_eq_of_lt (by simpa using hlt), this]
    refine ⟨(), fun h => h0 (by rw [← hnlen, h]; rfl), (), by rw [hnlen]; omega, (), hport, ?_⟩
    simp only
    rw [hp, hnlen, hfield, hutf, List.append_assoc, ← List.drop_drop, List.take_append_drop,
      List.take_append_drop]
  · rintro ⟨-, h0, -, hl, -, hport, rfl⟩
    set name := utf8 announcement.deviceName with hname
    have hne : name.length ≠ 0 := fun h => h0 (List.eq_nil_of_length_eq_zero h)
    have hn : ofBE (toBE 2 name.length) = name.length :=
      ofBE_toBE_of_lt (by simp only [not_lt] at hl; omega)
    have hp : ofBE (toBE 2 announcement.tcpPort.toNat) = announcement.tcpPort.toNat :=
      ofBE_toBE_of_lt (by simpa using announcement.tcpPort.toNat_lt)
    have hdrop : (toBE 2 name.length ++ name ++ toBE 2 announcement.tcpPort.toNat).drop 2 =
        name ++ toBE 2 announcement.tcpPort.toNat := by
      rw [List.append_assoc, List.drop_left' (length_toBE ..)]
    rw [← List.drop_drop, hdrop, List.append_assoc, List.take_left' (length_toBE ..), hn,
      List.take_left, List.drop_left, List.take_of_length_le (by simp), hp]
    refine ⟨(), by simp; omega, (), hne, (), by simp; omega, announcement.deviceName, by simp [hname], (),
      by simpa using hport, by simp⟩

end Warpfile
