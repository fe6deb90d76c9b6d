import Warpfile.Foundation.World

/-!
# Frames

A frame is a header of twelve bytes, with the length of the payload in it, and the payload.
`encodeFrame` and `decodeFrameForVersion` translate whole frames; `readFrameForVersion` reads
the header first and asks for the payload only once the header is valid.

The log of a session (`NetEvent`) holds every frame read and every frame the program tried to
write, in order, with the failures.
-/

namespace Warpfile

/-! ### Message types -/

inductive MessageType where
  | hello
  | helloAck
  | offer
  | accept
  | reject
  | resume
  | restart
  | chunkHashes
  | chunkStart
  | data
  | complete
  | verified
  | cancel
  | discover
  | announce
  | error
  deriving DecidableEq, Repr

abbrev wfpVersionV02 : UInt8 := 0x02
abbrev wfpVersionV03 : UInt8 := 0x03
abbrev wfpVersion : UInt8 := wfpVersionV02

namespace MessageType

/-- The byte of a message type on the wire. -/
def toWire : MessageType → UInt8
  | hello => 0x01
  | helloAck => 0x02
  | offer => 0x10
  | accept => 0x11
  | reject => 0x12
  | resume => 0x13
  | restart => 0x14
  | chunkHashes => 0x15
  | chunkStart => 0x16
  | data => 0x20
  | complete => 0x30
  | verified => 0x31
  | cancel => 0x40
  | discover => 0x50
  | announce => 0x51
  | error => 0xFF

def isAllowedInVersion (version : UInt8) (t : MessageType) : Bool :=
  if version = wfpVersionV02 then !(t = chunkHashes || t = chunkStart)
  else version = wfpVersionV03

def all : List MessageType :=
  [hello, helloAck, offer, accept, reject, resume, restart, chunkHashes, chunkStart, data,
    complete, verified, cancel, discover, announce, error]

/-- The message type of a byte: the table of `toWire`, read the other way. -/
def ofByte (value : UInt8) : Option MessageType := all.find? fun t => t.toWire == value

/-- The message type of a byte, or the byte itself when the version has none for it. -/
def fromWire (version value : UInt8) : Except UInt8 MessageType :=
  match ofByte value with
  | some t => if t.isAllowedInVersion version then .ok t else .error value
  | none => .error value

theorem ofByte_toWire (t : MessageType) : ofByte t.toWire = some t := by
  cases t <;> rfl

theorem toWire_of_ofByte {value : UInt8} {t : MessageType} (h : ofByte value = some t) :
    t.toWire = value := by
  simpa using List.find?_some h

theorem fromWire_eq_ok {version value : UInt8} {t : MessageType} :
    fromWire version value = .ok t ↔ t.toWire = value ∧ t.isAllowedInVersion version := by
  unfold fromWire
  constructor
  · intro h
    split at h
    · rename_i t' ht'
      split at h
      · obtain rfl : t' = t := by simpa using h
        exact ⟨toWire_of_ofByte ht', ‹_›⟩
      · simp at h
    · simp at h
  · rintro ⟨rfl, h⟩
    rw [ofByte_toWire]
    simp [h]

end MessageType

/-! ### Frames and their encoding -/

def wfpMagic : Bytes := [0x57, 0x46, 0x50, 0x00]

abbrev headerLength : ℕ := 12
abbrev maxPayloadLength : ℕ := 1024 * 1024
abbrev maxDataPayloadLength : ℕ := 64 * 1024

structure Frame where
  version : UInt8
  messageType : MessageType
  flags : UInt16
  payload : Bytes
  deriving DecidableEq, Repr

inductive FrameError where
  | unsupportedVersion (version : UInt8)
  | messageTypeNotAllowed (version : UInt8) (messageType : MessageType)
  deriving DecidableEq, Repr

inductive EncodeError where
  | invalidFrame (error : FrameError)
  | payloadTooLarge (size : ℕ)
  deriving DecidableEq, Repr

inductive DecodeError where
  | headerTooShort (size : ℕ)
  | invalidMagic (magic : Bytes)
  | unsupportedVersion (version : UInt8)
  | unknownMessageType (messageType : UInt8)
  | unsupportedFlags (flags : UInt16)
  | payloadTooLarge (size : ℕ)
  | dataPayloadTooLarge (size : ℕ)
  | incompleteFrame (expected actual : ℕ)
  | trailingBytes (expected actual : ℕ)
  deriving DecidableEq, Repr

inductive ProtocolIoError where
  | io (error : IoError)
  | decode (error : DecodeError)
  | encode (error : EncodeError)
  deriving DecidableEq, Repr

def isSupportedVersion (version : UInt8) : Bool :=
  version = wfpVersionV02 || version = wfpVersionV03

def validateVersionAndMessageType (version : UInt8) (messageType : MessageType) :
    Except FrameError Unit := do
  refuseIf (!isSupportedVersion version) (.unsupportedVersion version)
  refuseIf (!messageType.isAllowedInVersion version) (.messageTypeNotAllowed version messageType)

namespace Frame

def new (messageType : MessageType) (payload : Bytes) : Frame :=
  { version := wfpVersion, messageType, flags := 0, payload }

def newForVersion (version : UInt8) (messageType : MessageType) (payload : Bytes) :
    Except FrameError Frame := do
  validateVersionAndMessageType version messageType
  return { version, messageType, flags := 0, payload }

end Frame

structure FrameHeader where
  version : UInt8
  messageType : MessageType
  flags : UInt16
  payloadLength : ℕ
  deriving DecidableEq, Repr

/-- The twelve bytes of a header. -/
def FrameHeader.encoding (header : FrameHeader) : Bytes :=
  wfpMagic ++ [header.version, header.messageType.toWire] ++ toBE 2 header.flags.toNat
    ++ toBE 4 header.payloadLength

def Frame.header (frame : Frame) : FrameHeader :=
  ⟨frame.version, frame.messageType, frame.flags, frame.payload.length⟩

/-- The bytes of a frame: header and payload. -/
def Frame.encoding (frame : Frame) : Bytes := frame.header.encoding ++ frame.payload

/-- The bytes of frames sent one after the other. -/
def encodings (frames : List Frame) : Bytes := frames.flatMap Frame.encoding

def encodeFrame (frame : Frame) : Except EncodeError Bytes := do
  (validateVersionAndMessageType frame.version frame.messageType).mapError .invalidFrame
  let payloadLength := frame.payload.length
  refuseIf (frame.messageType = .data ∧ payloadLength > maxDataPayloadLength)
    (.payloadTooLarge payloadLength)
  refuseIf (payloadLength > maxPayloadLength) (.payloadTooLarge payloadLength)
  refuseIf (payloadLength ≥ 2 ^ 32) (.payloadTooLarge payloadLength)
  return frame.encoding

def validateFrameHeader (bytes : Bytes) (expectedVersion : UInt8) :
    Except DecodeError FrameHeader := do
  refuseIf (bytes.length < headerLength) (.headerTooShort bytes.length)
  refuseIf (!isSupportedVersion expectedVersion) (.unsupportedVersion expectedVersion)
  let magic := bytes.take 4
  refuseIf (magic ≠ wfpMagic) (.invalidMagic magic)
  let version := bytes.getD 4 0
  refuseIf (!isSupportedVersion version || version ≠ expectedVersion)
    (.unsupportedVersion version)
  let messageType ← (MessageType.fromWire version (bytes.getD 5 0)).mapError .unknownMessageType
  let flags := UInt16.ofNat (ofBE ((bytes.drop 6).take 2))
  refuseIf (flags ≠ 0) (.unsupportedFlags flags)
  let payloadLength := ofBE ((bytes.drop 8).take 4)
  refuseIf (payloadLength > maxPayloadLength) (.payloadTooLarge payloadLength)
  refuseIf (messageType = .data ∧ payloadLength > maxDataPayloadLength)
    (.dataPayloadTooLarge payloadLength)
  return { version, messageType, flags, payloadLength }

def decodeFrameForVersion (bytes : Bytes) (version : UInt8) : Except DecodeError Frame := do
  let header ← validateFrameHeader bytes version
  let expectedLength := headerLength + header.payloadLength
  refuseIf (bytes.length < expectedLength) (.incompleteFrame expectedLength bytes.length)
  refuseIf (bytes.length > expectedLength) (.trailingBytes expectedLength bytes.length)
  return {
    version := header.version
    messageType := header.messageType
    flags := header.flags
    payload := (bytes.drop headerLength).take header.payloadLength }

namespace Frame

/-- The frames that have an encoding. -/
structure Encodable (frame : Frame) : Prop where
  supported : isSupportedVersion frame.version
  allowed : frame.messageType.isAllowedInVersion frame.version
  data : frame.messageType = .data → frame.payload.length ≤ maxDataPayloadLength
  payload : frame.payload.length ≤ maxPayloadLength

end Frame

theorem encodeFrame_eq_ok {frame : Frame} {bs : Bytes} :
    encodeFrame frame = .ok bs ↔ frame.Encodable ∧ frame.encoding = bs := by
  have h : frame.payload.length ≤ maxPayloadLength → frame.payload.length < 2 ^ 32 := by
    intro h
    exact lt_of_le_of_lt h (by norm_num)
  simp only [encodeFrame, validateVersionAndMessageType, bind_eq_ok, mapError_eq_ok,
    refuseIf_eq_ok, pure_eq_ok]
  constructor
  · rintro ⟨-, ⟨-, hs, ha⟩, -, hd, -, hp, -, -, rfl⟩
    exact ⟨⟨by simpa using hs, by simpa using ha, by simpa using hd, by simpa using hp⟩, rfl⟩
  · rintro ⟨⟨hs, ha, hd, hp⟩, rfl⟩
    exact ⟨(), ⟨(), by simpa using hs, by simpa using ha⟩, (), by simpa using hd, (),
      by simpa using hp, (), by simpa using h hp, rfl⟩

/-- The headers a reader of `version` accepts. -/
structure FrameHeader.Acceptable (header : FrameHeader) (version : UInt8) : Prop where
  version_eq : header.version = version
  supported : isSupportedVersion version
  allowed : header.messageType.isAllowedInVersion version
  flags_eq : header.flags = 0
  payload : header.payloadLength ≤ maxPayloadLength
  data : header.messageType = .data → header.payloadLength ≤ maxDataPayloadLength

/-- A frame that a reader accepts has an encoding. -/
theorem FrameHeader.Acceptable.encodable {frame : Frame} {version : UInt8}
    (h : frame.header.Acceptable version) : frame.Encodable := by
  have hv : frame.version = version := h.version_eq
  exact ⟨by rw [hv]; exact h.supported, by rw [hv]; exact h.allowed, h.data, h.payload⟩

@[simp]
theorem FrameHeader.length_encoding (header : FrameHeader) :
    header.encoding.length = headerLength := by
  simp [FrameHeader.encoding, wfpMagic]

/-- Two bytes that read as zero are zero. -/
private theorem toBE_of_ofNat_eq_zero {bs : Bytes} (hl : bs.length = 2)
    (h : UInt16.ofNat (ofBE bs) = 0) : toBE 2 0 = bs := by
  have hlt := ofBE_lt bs
  rw [hl] at hlt
  have h0 : ofBE bs = 0 := by
    have := congrArg UInt16.toNat h
    rwa [UInt16.toNat_ofNat', Nat.mod_eq_of_lt (by simpa using hlt)] at this
  rw [← h0, ← hl, toBE_ofBE]

/-- The bytes of a header, field by field. -/
private theorem take_headerLength {bytes : Bytes} (h : 12 ≤ bytes.length) :
    bytes.take headerLength = bytes.take 4 ++ [bytes.getD 4 0, bytes.getD 5 0]
      ++ (bytes.drop 6).take 2 ++ (bytes.drop 8).take 4 := by
  have htypes : bytes.drop 4 = [bytes.getD 4 0, bytes.getD 5 0] ++ bytes.drop 6 := by
    rw [List.getD_eq_getElem _ _ (show 4 < bytes.length by omega),
      List.getD_eq_getElem _ _ (show 5 < bytes.length by omega),
      List.drop_eq_getElem_cons (show 4 < bytes.length by omega),
      List.drop_eq_getElem_cons (show 4 + 1 < bytes.length by omega)]
    rfl
  rw [show headerLength = 4 + (2 + (2 + 4)) from rfl, List.take_add, htypes, List.take_add,
    List.take_left' (by simp), List.drop_left' (by simp), List.take_add, List.drop_drop]
  simp only [List.append_assoc]

/-- **The header codec**: a header is accepted exactly when its bytes are the encoding of
acceptable fields. -/
theorem validateFrameHeader_eq_ok {bytes : Bytes} {version : UInt8} {header : FrameHeader} :
    validateFrameHeader bytes version = .ok header ↔
      header.Acceptable version ∧ bytes.take headerLength = header.encoding := by
  simp only [validateFrameHeader, bind_eq_ok, refuseIf_eq_ok, mapError_eq_ok, pure_eq_ok,
    MessageType.fromWire_eq_ok]
  constructor
  · rintro ⟨-, hlen, -, hs, -, hm, -, hv, t, ⟨ht, ha⟩, -, hf, -, hp, -, hd, rfl⟩
    simp only [not_not, Bool.or_eq_true, Bool.not_eq_true', decide_eq_true_eq, not_or,
      Bool.not_eq_false, not_lt, not_and, gt_iff_lt] at hlen hs hm hv hf hp hd
    refine ⟨⟨hv.2, hs, hv.2 ▸ ha, hf, hp, hd⟩, ?_⟩
    have hlen : 12 ≤ bytes.length := hlen
    have hb := take_headerLength hlen
    have h4 : toBE 4 (ofBE ((bytes.drop 8).take 4)) = (bytes.drop 8).take 4 := by
      have hl : ((bytes.drop 8).take 4).length = 4 := by simp; omega
      have := toBE_ofBE ((bytes.drop 8).take 4)
      rwa [hl] at this
    rw [hb, hm, FrameHeader.encoding, h4, hf, ht]
    congr 2
    exact (toBE_of_ofNat_eq_zero (by simp; omega) hf).symm
  · rintro ⟨⟨rfl, hs, ha, hf, hp, hd⟩, hb⟩
    obtain ⟨rest, rfl⟩ : ∃ rest, bytes = header.encoding ++ rest :=
      ⟨bytes.drop headerLength, by rw [← hb, List.take_append_drop]⟩
    -- the fields stand at fixed places of the encoding
    have hmagic : (header.encoding ++ rest).take 4 = wfpMagic := rfl
    have hversion : (header.encoding ++ rest).getD 4 0 = header.version := rfl
    have htype : (header.encoding ++ rest).getD 5 0 = header.messageType.toWire := rfl
    have hflags : ((header.encoding ++ rest).drop 6).take 2 = toBE 2 header.flags.toNat := rfl
    have hlength : ((header.encoding ++ rest).drop 8).take 4 = toBE 4 header.payloadLength := rfl
    have hf' : UInt16.ofNat (ofBE (toBE 2 header.flags.toNat)) = header.flags := by
      rw [ofBE_toBE_of_lt (by simpa using header.flags.toNat_lt), UInt16.ofNat_toNat]
    have hp' : ofBE (toBE 4 header.payloadLength) = header.payloadLength :=
      ofBE_toBE_of_lt (lt_of_le_of_lt hp (by norm_num))
    rw [hmagic, hversion, htype, hflags, hlength, hf', hp']
    refine ⟨(), by simp, (), by simpa using hs, (), by simp, (), by simpa using hs,
      header.messageType, ⟨rfl, ha⟩, (), by simpa using hf, (), by simpa using hp, (),
      by simpa using hd, rfl⟩

/-- **The frame codec**: the frames a reader accepts are those whose encoding it is given. -/
theorem decodeFrameForVersion_eq_ok {bytes : Bytes} {version : UInt8} {frame : Frame} :
    decodeFrameForVersion bytes version = .ok frame ↔
      frame.header.Acceptable version ∧ bytes = frame.encoding := by
  simp only [decodeFrameForVersion, bind_eq_ok, refuseIf_eq_ok, pure_eq_ok,
    validateFrameHeader_eq_ok]
  constructor
  · rintro ⟨header, ⟨ha, hb⟩, -, hlt, -, hgt, rfl⟩
    have hlen : bytes.length = headerLength + header.payloadLength := by omega
    have hpay : (bytes.drop headerLength).take header.payloadLength = bytes.drop headerLength :=
      List.take_of_length_le (by simp only [List.length_drop]; omega)
    have hheader : Frame.header ⟨header.version, header.messageType, header.flags,
        (bytes.drop headerLength).take header.payloadLength⟩ = header := by
      rw [hpay]
      simp [Frame.header, hlen]
    refine ⟨by rw [hheader]; exact ha, ?_⟩
    rw [Frame.encoding, hheader, ← hb]
    simp only [hpay, List.take_append_drop]
  · rintro ⟨ha, rfl⟩
    have hlen : frame.encoding.length = headerLength + frame.header.payloadLength := by
      simp [Frame.encoding, Frame.header]
    refine ⟨frame.header, ⟨ha, by simp [Frame.encoding]⟩, (), by simp [hlen], (), by simp [hlen], ?_⟩
    simp [Frame.encoding, Frame.header]

/-- A valid header and a payload of the length it tells are a frame. -/
theorem decodeFrame_append {bytes payload : Bytes} {version : UInt8} {header : FrameHeader}
    (hv : validateFrameHeader bytes version = .ok header) (hl : bytes.length = headerLength)
    (hp : payload.length = header.payloadLength) :
    ∃ frame, decodeFrameForVersion (bytes ++ payload) version = .ok frame ∧
      frame.header = header ∧ frame.header.Acceptable version ∧
      frame.encoding = bytes ++ payload := by
  obtain ⟨ha, hb⟩ := validateFrameHeader_eq_ok.mp hv
  rw [List.take_of_length_le hl.le] at hb
  set frame : Frame := ⟨header.version, header.messageType, header.flags, payload⟩
  have hheader : frame.header = header := by
    rw [Frame.header, hp]
  have henc : frame.encoding = bytes ++ payload := by rw [Frame.encoding, hheader, hb]
  rw [← hheader] at ha
  exact ⟨frame, decodeFrameForVersion_eq_ok.mpr ⟨ha, henc.symm⟩, hheader, ha, henc⟩

/-! ### Frames over a connection -/

/-- What the log of a session notes. -/
inductive NetEvent where
  | sent (frame : Frame)
  | sendFailed (frame : Frame) (error : ProtocolIoError)
  | received (frame : Frame)
  | receiveFailed (error : ProtocolIoError)
  deriving DecidableEq, Repr

abbrev Session (Γ : Setting) : Type := World Γ NetEvent

variable {Γ : Setting} {ε α : Type}

/-- Run `p` and note how it ended. -/
def logged (p : Prog (Session Γ) ε α) (ok : α → NetEvent) (err : ε → NetEvent) :
    Prog (Session Γ) ε α := do
  match ← p.attempt with
  | .ok a => World.note (ok a); return a
  | .error e => World.note (err e); throw e

def writeFrame (frame : Frame) : Prog (Session Γ) ProtocolIoError Unit :=
  logged (do
      let bytes ← .ofExcept ((encodeFrame frame).mapError .encode)
      (World.writeAll bytes).mapErr .io)
    (fun _ => .sent frame) (.sendFailed frame)

def readFrameForVersion (version : UInt8) : Prog (Session Γ) ProtocolIoError Frame :=
  logged (do
      let header ← (World.readExact headerLength).mapErr .io
      let frameHeader ← .ofExcept ((validateFrameHeader header version).mapError .decode)
      let payload ←
        if frameHeader.payloadLength > 0 then
          (World.readExact frameHeader.payloadLength).mapErr .io
        else pure []
      .ofExcept ((decodeFrameForVersion (header ++ payload) version).mapError .decode))
    .received .receiveFailed

def readFrame : Prog (Session Γ) ProtocolIoError Frame := readFrameForVersion wfpVersion

section

variable {w : Session Γ}

@[simp]
theorem ensures_logged {p : Prog (Session Γ) ε α} {ok : α → NetEvent} {err : ε → NetEvent}
    {Q : Outcome ε α → Session Γ → Prop} :
    (logged p ok err).Ensures w Q ↔ p.Ensures w (Prog.Post
      (fun a t => Q (.ok a) { t with log := t.log ++ [(ok a, t.fs)] })
      (fun e t => Q (.err e) { t with log := t.log ++ [(err e, t.fs)] }) (Q .halt)) := by
  simp [logged]

/-- The session after a frame was read. -/
def Session.afterReading (w : Session Γ) (frame : Frame) (rest : Bytes) : Session Γ :=
  { w with net := { w.net with input := rest }, log := w.log ++ [(.received frame, w.fs)] }

/-- The session after reading a frame failed. -/
def Session.afterReadError (w : Session Γ) (error : ProtocolIoError) (rest : Bytes) : Session Γ :=
  { w with net := { w.net with input := rest }, log := w.log ++ [(.receiveFailed error, w.fs)] }

/-- **The rule for reading a frame.** -/
theorem ensures_readFrame {version : UInt8} {Q : Outcome ProtocolIoError Frame → Session Γ → Prop}
    (ok : ∀ frame rest, frame.header.Acceptable version → w.net.input = frame.encoding ++ rest →
      Q (.ok frame) (w.afterReading frame rest))
    (io : ∀ k, w.net.closing = some k → Q (.err (.io (.os k))) (w.afterReadError (.io (.os k)) []))
    (decode : ∀ e rest, Q (.err (.decode e)) (w.afterReadError (.decode e) rest))
    (halt : w.net.closing = none → Q .halt { w with net := { w.net with input := [] } }) :
    (readFrameForVersion version).Ensures w Q := by
  rw [readFrameForVersion, ensures_logged]
  simp only [Prog.ensures_bind, Prog.ensures_mapErr]
  refine World.ensures_readExact (fun hlen => ?_) (fun _ => io) fun _ => halt
  simp only [Prog.post_ok, Prog.ensures_ofExcept]
  rcases hv : validateFrameHeader (w.net.input.take headerLength) version with e | header
  · exact decode e _
  simp only [Except.mapError]
  -- whatever is read as the payload has the length of the header
  have last (payload rest : Bytes) (hp : payload.length = header.payloadLength)
      (hin : w.net.input.drop headerLength = payload ++ rest) :
      (Prog.ofExcept ((decodeFrameForVersion (w.net.input.take headerLength ++ payload)
        version).mapError ProtocolIoError.decode) : Prog (Session Γ) _ _).Ensures
        { w with net := { w.net with input := rest } } (Prog.Post
          (fun a t => Q (.ok a) { t with log := t.log ++ [(.received a, t.fs)] })
          (fun e t => Q (.err e) { t with log := t.log ++ [(.receiveFailed e, t.fs)] })
          (Q .halt)) := by
    obtain ⟨frame, hdec, -, ha, henc⟩ := decodeFrame_append hv (by simp [hlen]) hp
    rw [hdec, Prog.ensures_ofExcept]
    refine ok frame rest ha ?_
    rw [henc, List.append_assoc, ← hin, List.take_append_drop]
  split
  · rw [Prog.ensures_bind, Prog.ensures_mapErr]
    refine World.ensures_readExact (fun hlen => ?_) (fun _ => io) fun _ => halt
    exact last _ _ (by simpa using hlen) (List.take_append_drop ..).symm
  · rename_i h0
    rw [Prog.ensures_bind, Prog.ensures_pure]
    exact last [] _ (by simp; omega) rfl

/-- The encodings of frames a reader accepts are a prefix code. -/
theorem encoding_append_inj {version : UInt8} {f g : Frame} {r r' : Bytes}
    (hf : f.header.Acceptable version) (hg : g.header.Acceptable version)
    (h : f.encoding ++ r = g.encoding ++ r') : f = g ∧ r = r' := by
  have valid {f : Frame} (hf : f.header.Acceptable version) (r : Bytes) :
      validateFrameHeader (f.encoding ++ r) version = .ok f.header :=
    validateFrameHeader_eq_ok.mpr ⟨hf, by simp [Frame.encoding]⟩
  have hheader : f.header = g.header := by
    have := valid hf r
    rw [h, valid hg r'] at this
    exact (Except.ok.inj this).symm
  have hlen : f.encoding.length = g.encoding.length := by
    have := congrArg FrameHeader.payloadLength hheader
    simpa [Frame.encoding, Frame.header] using this
  obtain ⟨he, hr⟩ := List.append_inj h hlen
  refine ⟨?_, hr⟩
  rw [Frame.encoding, Frame.encoding, hheader, List.append_cancel_left_eq] at he
  cases f
  cases g
  simp_all [Frame.header]

/-- A frame that stands in front of the input is read. -/
theorem readFrame_run {version : UInt8} {frame : Frame} {rest : Bytes}
    (ha : frame.header.Acceptable version) (hin : w.net.input = frame.encoding ++ rest) :
    readFrameForVersion version w = (.ok frame, w.afterReading frame rest) := by
  have hlen : headerLength ≤ w.net.input.length := by
    rw [hin, Frame.encoding]
    simp
  have hheader : w.net.input.take headerLength = frame.header.encoding := by
    rw [hin]
    simp [Frame.encoding]
  have hdrop : w.net.input.drop headerLength = frame.payload ++ rest := by
    rw [hin]
    simp [Frame.encoding]
  have hval : validateFrameHeader frame.header.encoding version = .ok frame.header :=
    validateFrameHeader_eq_ok.mpr ⟨ha, by rw [List.take_of_length_le (by simp)]⟩
  have hdec : decodeFrameForVersion (frame.header.encoding ++ frame.payload) version = .ok frame :=
    decodeFrameForVersion_eq_ok.mpr ⟨ha, rfl⟩
  have main : (readFrameForVersion version).Ensures w fun o t =>
      o = .ok frame ∧ t = w.afterReading frame rest := by
    rw [readFrameForVersion, ensures_logged]
    simp only [Prog.ensures_bind, Prog.ensures_mapErr]
    refine World.ensures_readExact (fun _ => ?_) (fun h => absurd h (by omega))
      fun h => absurd h (by omega)
    rw [hheader, hdrop]
    simp only [Prog.post_ok, hval, Except.mapError, Prog.ensures_ofExcept]
    by_cases h0 : frame.header.payloadLength > 0
    · rw [if_pos h0, Prog.ensures_bind, Prog.ensures_mapErr]
      have htake : (frame.payload ++ rest).take frame.header.payloadLength = frame.payload :=
        List.take_left ..
      have hdrop : (frame.payload ++ rest).drop frame.header.payloadLength = rest :=
        List.drop_left ..
      have hle : frame.header.payloadLength ≤ (frame.payload ++ rest).length := by
        simp [Frame.header]
      refine World.ensures_readExact (fun _ => ?_) (fun h => absurd h (not_lt.mpr hle))
        fun h => absurd h (not_lt.mpr hle)
      simp [Prog.ensures_ofExcept, htake, hdrop, hdec, Session.afterReading]
    · have hp : frame.payload = [] :=
        List.eq_nil_of_length_eq_zero (Nat.le_zero.mp (not_lt.mp h0))
      rw [if_neg h0, Prog.ensures_bind, Prog.ensures_pure]
      rw [hp, List.append_nil] at hdec
      simp [Prog.ensures_ofExcept, hdec, hp, Session.afterReading]
  exact main.run_eq

/-- The session after an attempt to write a frame. -/
def Session.afterWriting (w : Session Γ) (event : NetEvent) (written : Bytes)
    (room : Option (ℕ × ErrorKind)) : Session Γ :=
  { w with
    net := { w.net with output := w.net.output ++ written, room }
    log := w.log ++ [(event, w.fs)] }

/-- **The rule for writing a frame.** -/
theorem ensures_writeFrame {frame : Frame} {Q : Outcome ProtocolIoError Unit → Session Γ → Prop}
    (henc : frame.Encodable)
    (ok : ∀ room, (w.net.room = none → room = none) →
      Q (.ok ()) (w.afterWriting (.sent frame) frame.encoding room))
    (io : ∀ n k, w.net.room = some (n, k) → n < frame.encoding.length →
      Q (.err (.io (.os k))) (w.afterWriting (.sendFailed frame (.io (.os k)))
        (frame.encoding.take n) (some (0, k)))) :
    (writeFrame frame).Ensures w Q := by
  rw [writeFrame, ensures_logged]
  have he : encodeFrame frame = .ok frame.encoding := encodeFrame_eq_ok.mpr ⟨henc, rfl⟩
  simp only [he, Except.mapError, Prog.ensures_bind, Prog.ensures_mapErr, Prog.ensures_ofExcept,
    Prog.post_ok]
  refine World.ensures_writeAll (fun room hroom => ?_) fun n k hr hn => ?_
  · exact ok room hroom
  · exact io n k hr hn

/-- A frame that has no encoding is not written. -/
theorem ensures_writeFrame_of_not_encodable {frame : Frame}
    {Q : Outcome ProtocolIoError Unit → Session Γ → Prop} (henc : ¬frame.Encodable)
    (h : ∀ e, Q (.err (.encode e))
      { w with log := w.log ++ [(.sendFailed frame (.encode e), w.fs)] }) :
    (writeFrame frame).Ensures w Q := by
  rw [writeFrame, ensures_logged]
  rcases he : encodeFrame frame with e | bs
  · simp only [Except.mapError, Prog.ensures_bind, Prog.ensures_ofExcept]
    exact h e
  · exact absurd (encodeFrame_eq_ok.mp he).1 henc

end

end Warpfile
