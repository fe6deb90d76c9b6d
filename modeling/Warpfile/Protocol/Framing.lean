import Warpfile.Foundation.Source
import Warpfile.Protocol.Frame

/-!
# Framing is unambiguous

The reader of frames, on a connection that delivers its bytes in pieces: what it returns depends
only on the bytes, it agrees with the decoder of whole frames, and frames sent one after the other
are read back one after the other. The connection counts the bytes that are asked for.
-/

namespace Warpfile

open Prog

/-- The reading end of a connection. -/
structure Inbound where
  source : Source
  /-- how many bytes were asked for -/
  requested : ℕ

namespace Inbound

/-- The bytes to come. -/
abbrev bytes (s : Inbound) : Bytes := s.source.bytes

/-- A connection that delivers the pieces of a byte string. -/
def ofFragments (fragments : List { bs : Bytes // bs ≠ [] }) : Inbound := ⟨.ofFragments fragments, 0⟩

def readExact (n : ℕ) : Prog Inbound IoError Bytes := fun s =>
  let (o, source) := Source.readExact n s.source
  (o, ⟨source, s.requested + n⟩)

variable {s : Inbound} {version : UInt8}

theorem readExact_spec {n : ℕ} (h : s.source.Calm) : (readExact n).Ensures s (Post
    (fun bs s' => n ≤ s.bytes.length ∧ bs = s.bytes.take n ∧ s'.bytes = s.bytes.drop n ∧
      s'.source.Calm ∧ s'.requested = s.requested + n)
    (fun e s' => s.bytes.length < n ∧ e = .os .unexpectedEof ∧ s'.source = [] ∧
      s'.requested = s.requested + n)
    fun _ => False) := by
  have h := (Source.readExact_spec (n := n) h).apply
  refine ensures_of_eq (o := (Source.readExact n s.source).1)
    (t := ⟨(Source.readExact n s.source).2, s.requested + n⟩) rfl ?_
  rcases hr : Source.readExact n s.source with ⟨_ | _ | _, source⟩
  · rw [hr] at h
    obtain ⟨hn, hbs, hrest, hcalm⟩ := h
    exact ⟨hn, hbs, hrest, hcalm, rfl⟩
  · rw [hr] at h
    obtain ⟨hn, he, hrest⟩ := h
    exact ⟨hn, he, hrest, rfl⟩
  · rw [hr] at h
    exact h

end Inbound

/-- Read one frame, with `readExact` as the way to read. -/
def readFrameWith {σ : Type} (readExact : ℕ → Prog σ IoError Bytes) (version : UInt8) :
    Prog σ ProtocolIoError Frame := do
  let header ← (readExact headerLength).mapErr .io
  let frameHeader ← .ofExcept ((validateFrameHeader header version).mapError .decode)
  let payload ←
    if frameHeader.payloadLength > 0 then (readExact frameHeader.payloadLength).mapErr .io
    else pure []
  .ofExcept ((decodeFrameForVersion (header ++ payload) version).mapError .decode)

/-- The reader of the sessions is this reader, with notes. -/
theorem readFrameForVersion_eq {Γ : Setting} {version : UInt8} :
    (readFrameForVersion version : Prog (Session Γ) _ _) =
      logged (readFrameWith World.readExact version) .received .receiveFailed := rfl

namespace Inbound

/-- Read one frame. -/
def readFrame (version : UInt8) : Prog Inbound ProtocolIoError Frame :=
  readFrameWith readExact version

/-- Read `n` frames. -/
def readFrames (version : UInt8) : ℕ → Prog Inbound ProtocolIoError (List Frame)
  | 0 => pure []
  | n + 1 => do
    let frame ← readFrame version
    let frames ← readFrames version n
    return frame :: frames

variable {s : Inbound} {version : UInt8}

/-- What reading a frame returns, and what it leaves: a frame with its encoding gone, a decode
error with the header gone, or the end of the connection. -/
def Reads (version : UInt8) (s : Inbound) : Outcome ProtocolIoError Frame → Inbound → Prop := Post
  (fun frame s' => frame.header.Acceptable version ∧ s.bytes = frame.encoding ++ s'.bytes ∧
    s'.source.Calm ∧ s'.requested = s.requested + frame.encoding.length)
  (fun e s' =>
    (∃ d, e = .decode d ∧ headerLength ≤ s.bytes.length ∧
      validateFrameHeader (s.bytes.take headerLength) version = .error d ∧
      s'.bytes = s.bytes.drop headerLength ∧ s'.requested = s.requested + headerLength) ∨
    e = .io (.os .unexpectedEof) ∧ s'.bytes = [] ∧
      s'.requested ≤ s.requested + headerLength + maxPayloadLength ∧
      (s.bytes.length < headerLength ∨ ∃ header,
        validateFrameHeader (s.bytes.take headerLength) version = .ok header ∧
        s.bytes.length < headerLength + header.payloadLength))
  fun _ => False

/-- **The rule for reading a frame.** -/
theorem readFrame_spec (hcalm : s.source.Calm) : (readFrame version).Ensures s (Reads version s) := by
  refine Ensures.bind_mapErr (readExact_spec hcalm) ?_ (fun e s' h => ?_) fun _ h => h
  · rintro bs s₁ ⟨hlen, rfl, hb₁, hcalm₁, hr₁⟩
    rw [ensures_bind, ensures_ofExcept]
    rcases hv : validateFrameHeader (s.bytes.take headerLength) version with d | header
    · exact .inl ⟨d, rfl, hlen, hv, hb₁, hr₁⟩
    simp only [Except.mapError, post_ok]
    obtain ⟨hacc, -⟩ := validateFrameHeader_eq_ok.mp hv
    have hmax := hacc.payload
    -- whatever is read as the payload has the length of the header
    have last (payload : Bytes) (s₂ : Inbound) (hp : payload.length = header.payloadLength)
        (hin : s.bytes.drop headerLength = payload ++ s₂.bytes) (hcalm₂ : s₂.source.Calm)
        (hr₂ : s₂.requested = s.requested + headerLength + header.payloadLength) :
        (Prog.ofExcept ((decodeFrameForVersion (s.bytes.take headerLength ++ payload)
          version).mapError ProtocolIoError.decode) : Prog Inbound _ _).Ensures s₂
          (Reads version s) := by
      obtain ⟨frame, hdec, hheader, ha, henc⟩ := decodeFrame_append hv (by simp [hlen]) hp
      rw [hdec, ensures_ofExcept]
      refine ⟨ha, ?_, hcalm₂, ?_⟩
      · rw [henc, List.append_assoc, ← hin, List.take_append_drop]
      · rw [hr₂, Frame.encoding, List.length_append, FrameHeader.length_encoding,
          show frame.payload.length = header.payloadLength from
            congrArg FrameHeader.payloadLength hheader, Nat.add_assoc]
    by_cases h0 : header.payloadLength > 0
    · rw [if_pos h0]
      refine Ensures.bind_mapErr (readExact_spec hcalm₁) ?_ (fun e s₂ h => ?_) fun _ h => h
      · rintro payload s₂ ⟨hlen₂, rfl, hb₂, hcalm₂, hr₂⟩
        refine last _ s₂ (by simpa using hlen₂) ?_ hcalm₂ (by rw [hr₂, hr₁])
        rw [hb₂, hb₁, List.take_append_drop]
      · obtain ⟨hlen₂, rfl, hs₂, hr₂⟩ := h
        rw [hb₁, List.length_drop] at hlen₂
        refine .inr ⟨rfl, by rw [bytes, hs₂]; rfl, by omega, .inr ⟨header, hv, by omega⟩⟩
    · rw [if_neg h0, ensures_bind, ensures_pure]
      exact last [] s₁ (by simp; omega) (by rw [hb₁, List.nil_append]) hcalm₁ (by omega)
  · obtain ⟨hlen, rfl, hs', hr⟩ := h
    exact .inr ⟨rfl, by rw [bytes, hs']; rfl, by omega, .inl hlen⟩

/-- A frame that stands in front is read. -/
theorem readFrame_of_encoding {frame : Frame} {rest : Bytes} (hcalm : s.source.Calm)
    (ha : frame.header.Acceptable version) (hb : s.bytes = frame.encoding ++ rest) :
    (readFrame version).Ensures s fun o s' => o = .ok frame ∧ s'.bytes = rest ∧ s'.source.Calm := by
  have htake : s.bytes.take headerLength = frame.header.encoding := by
    rw [hb, Frame.encoding, List.append_assoc, List.take_left' (by simp)]
  have hval : validateFrameHeader (s.bytes.take headerLength) version = .ok frame.header :=
    validateFrameHeader_eq_ok.mpr ⟨ha, by rw [htake, List.take_of_length_le (by simp)]⟩
  have hlen : headerLength + frame.header.payloadLength ≤ s.bytes.length := by
    simp [hb, Frame.encoding, Frame.header]
  refine (readFrame_spec hcalm).mono fun o s' h => ?_
  cases o with
  | ok frame' =>
    obtain ⟨ha', hb', hcalm', -⟩ := h
    obtain ⟨rfl, rfl⟩ := encoding_append_inj ha' ha (hb'.symm.trans hb)
    exact ⟨rfl, rfl, hcalm'⟩
  | err e =>
    rcases h with ⟨d, -, -, hd, -⟩ | ⟨-, -, -, hl | ⟨header, hv, hl⟩⟩
    · simp [hval] at hd
    · omega
    · obtain rfl := Except.ok.inj (hval.symm.trans hv)
      omega
  | halt => exact h.elim

/-- Frames that stand one after the other are read one after the other. -/
theorem readFrames_of_encodings {frames : List Frame} {rest : Bytes} (hcalm : s.source.Calm)
    (ha : ∀ frame ∈ frames, frame.header.Acceptable version)
    (hb : s.bytes = encodings frames ++ rest) :
    (readFrames version frames.length).Ensures s fun o s' => o = .ok frames ∧ s'.bytes = rest := by
  induction frames generalizing s with
  | nil => exact ensures_pure.mpr ⟨rfl, hb⟩
  | cons frame frames ih =>
    have hb : s.bytes = frame.encoding ++ (encodings frames ++ rest) := by
      rw [hb, encodings, List.flatMap_cons, List.append_assoc]
      rfl
    rw [List.length_cons, readFrames]
    refine Ensures.bind (readFrame_of_encoding hcalm (ha frame (by simp)) hb) ?_ ?_ ?_
    · rintro _ s₁ ⟨h, hb₁, hcalm₁⟩
      obtain rfl := Outcome.ok.inj h
      refine Ensures.bind (ih hcalm₁ (fun f hf => ha f (by simp [hf])) hb₁) ?_ ?_ ?_
      · rintro _ s₂ ⟨h, hb₂⟩
        obtain rfl := Outcome.ok.inj h
        exact ensures_pure.mpr ⟨rfl, hb₂⟩
      · rintro e s₂ ⟨h, -⟩
        simp at h
      · rintro s₂ ⟨h, -⟩
        simp at h
    · rintro e s₁ ⟨h, -⟩
      simp at h
    · rintro s₁ ⟨h, -⟩
      simp at h

end Inbound

/-- A frame was built for `version`. -/
def Frame.BuiltFor (version : UInt8) (frame : Frame) : Prop :=
  ∃ t payload, frame = Frame.new t payload ∧ version = wfpVersion ∨
    Frame.newForVersion version t payload = .ok frame

theorem Frame.BuiltFor.acceptable {version : UInt8} {frame : Frame} {bs : Bytes}
    (h : frame.BuiltFor version) (he : encodeFrame frame = .ok bs) :
    frame.header.Acceptable version := by
  obtain ⟨⟨hs, ha, hd, hp⟩, -⟩ := encodeFrame_eq_ok.mp he
  have hv : frame.version = version ∧ frame.flags = 0 := by
    obtain ⟨t, payload, ⟨rfl, rfl⟩ | h⟩ := h
    · exact ⟨rfl, rfl⟩
    · simp only [Frame.newForVersion, bind_eq_ok, pure_eq_ok] at h
      obtain ⟨-, -, rfl⟩ := h
      exact ⟨rfl, rfl⟩
  exact ⟨hv.1, hv.1 ▸ hs, hv.1 ▸ ha, hv.2, hp, hd⟩

/-- The pieces that frames are encoded as. -/
private theorem flatten_encodeFrame {frames : List Frame} {pieces : List Bytes}
    (h : List.Forall₂ (fun frame bs => encodeFrame frame = .ok bs) frames pieces) :
    pieces.flatten = encodings frames ∧ ∀ frame ∈ frames, ∃ bs, encodeFrame frame = .ok bs := by
  induction h with
  | nil => simp [encodings]
  | @cons frame bs _ _ he _ ih =>
    refine ⟨?_, List.forall_mem_cons.mpr ⟨⟨bs, he⟩, ih.2⟩⟩
    rw [List.flatten_cons, ih.1, ← (encodeFrame_eq_ok.mp he).2]
    rfl

/-- **Framing is unambiguous**, however a connection divides its bytes. Frames that were built and
encoded one after the other are read back; and what one frame is read as is what the decoder of
whole frames says about the bytes. -/
theorem framing_unambiguous (version : UInt8) (fragments : List { bs : Bytes // bs ≠ [] }) :
    let s := Inbound.ofFragments fragments
    let o := (Inbound.readFrame version s).1
    let s' := (Inbound.readFrame version s).2
    (∀ (frames : List Frame) (pieces : List Bytes), (∀ frame ∈ frames, frame.BuiltFor version) →
      List.Forall₂ (fun frame bs => encodeFrame frame = .ok bs) frames pieces →
      s.bytes = pieces.flatten →
      (Inbound.readFrames version frames.length s).1 = .ok frames ∧
        (Inbound.readFrames version frames.length s).2.bytes = []) ∧
    (∀ frame k, k ≤ s.bytes.length →
      (o = .ok frame ∧ s'.bytes = s.bytes.drop k ↔
        decodeFrameForVersion (s.bytes.take k) version = .ok frame)) ∧
    (∀ frame, o = .ok frame → ∃ k ≤ s.bytes.length, s'.bytes = s.bytes.drop k ∧
      encodeFrame frame = .ok (s.bytes.take k)) ∧
    (∀ e, o = .err (.decode e) ∧ s'.bytes = s.bytes.drop headerLength ↔
      headerLength ≤ s.bytes.length ∧
        validateFrameHeader (s.bytes.take headerLength) version = .error e) ∧
    ((∃ frame, o = .ok frame) ∨
      (∃ e, o = .err (.decode e) ∧ s'.bytes = s.bytes.drop headerLength) ∨
      o = .err (.io (.os .unexpectedEof))) ∧
    s'.requested ≤ headerLength + maxPayloadLength := by
  intro s o s'
  have hcalm : s.source.Calm := Source.calm_ofFragments
  have hspec : Inbound.Reads version s o s' := (Inbound.readFrame_spec hcalm).apply
  have read {frame : Frame} {rest : Bytes} (ha : frame.header.Acceptable version)
      (hb : s.bytes = frame.encoding ++ rest) : o = .ok frame ∧ s'.bytes = rest := by
    have h := (Inbound.readFrame_of_encoding hcalm ha hb).apply
    exact ⟨h.1, h.2.1⟩
  have hok (frame : Frame) (h : o = .ok frame) : frame.header.Acceptable version ∧
      s.bytes = frame.encoding ++ s'.bytes ∧ s'.requested = frame.encoding.length := by
    rw [h] at hspec
    obtain ⟨ha, hb, -, hr⟩ := hspec
    exact ⟨ha, hb, by simpa [s, Inbound.ofFragments] using hr⟩
  have hvalid {frame : Frame} (h : o = .ok frame) :
      validateFrameHeader (s.bytes.take headerLength) version = .ok frame.header := by
    obtain ⟨ha, hb, -⟩ := hok frame h
    refine validateFrameHeader_eq_ok.mpr ⟨ha, ?_⟩
    rw [hb, Frame.encoding, List.append_assoc, List.take_left' (by simp),
      List.take_of_length_le (by simp)]
  refine ⟨fun frames pieces hbuilt henc hb => ?_,
    fun frame k hk => ⟨fun h => ?_, fun h => ?_⟩, fun frame h => ?_,
    fun e => ⟨fun h => ?_, fun h => ?_⟩, ?_, ?_⟩
  · obtain ⟨hpieces, hall⟩ := flatten_encodeFrame henc
    rw [hpieces, ← List.append_nil (encodings frames)] at hb
    refine (Inbound.readFrames_of_encodings hcalm (fun frame hf => ?_) hb).apply
    obtain ⟨bs, he⟩ := hall frame hf
    exact (hbuilt frame hf).acceptable he
  · obtain ⟨h, hrest⟩ := h
    obtain ⟨ha, hb, -⟩ := hok frame h
    have hlen := congrArg List.length hb
    have hlen' := congrArg List.length hrest
    rw [List.length_append] at hlen
    rw [List.length_drop] at hlen'
    obtain rfl : k = frame.encoding.length := by omega
    exact decodeFrameForVersion_eq_ok.mpr ⟨ha, by rw [hb, List.take_left]⟩
  · obtain ⟨ha, hb⟩ := decodeFrameForVersion_eq_ok.mp h
    exact read ha (by rw [← hb, List.take_append_drop])
  · obtain ⟨ha, hb, -⟩ := hok frame h
    refine ⟨frame.encoding.length, by rw [hb]; simp, ?_, encodeFrame_eq_ok.mpr ⟨ha.encodable, ?_⟩⟩
    · rw [hb, List.drop_left]
    · rw [hb, List.take_left]
  · rw [h.1] at hspec
    rcases hspec with ⟨d, hd, hlen, hv, -⟩ | ⟨hd, -⟩
    · obtain rfl : e = d := by simpa using hd
      exact ⟨hlen, hv⟩
    · simp at hd
  · obtain ⟨hlen, hv⟩ := h
    rcases ho : o with frame | e' | -
    · simp [hvalid ho] at hv
    · rw [ho] at hspec
      rcases hspec with ⟨d, rfl, -, hd, hb, -⟩ | ⟨-, -, -, hl | ⟨header, hh, -⟩⟩
      · obtain rfl : e = d := by simpa using hv.symm.trans hd
        exact ⟨rfl, hb⟩
      · omega
      · simp [hh] at hv
    · rw [ho] at hspec
      exact hspec.elim
  · rcases ho : o with frame | e | -
    · exact .inl ⟨frame, rfl⟩
    · rw [ho] at hspec
      rcases hspec with ⟨d, rfl, -, -, hb, -⟩ | ⟨rfl, -⟩
      · exact .inr (.inl ⟨d, rfl, hb⟩)
      · exact .inr (.inr rfl)
    · rw [ho] at hspec
      exact hspec.elim
  · have h0 : s.requested = 0 := rfl
    rcases ho : o with frame | e | -
    · obtain ⟨ha, -, hr⟩ := hok frame ho
      have hp : frame.payload.length ≤ maxPayloadLength := ha.payload
      rw [hr, Frame.encoding, List.length_append, FrameHeader.length_encoding]
      omega
    · rw [ho] at hspec
      rcases hspec with ⟨d, -, -, -, -, hr⟩ | ⟨-, -, hr, -⟩
      · omega
      · omega
    · rw [ho] at hspec
      exact hspec.elim

/-- HELLO, delivered in two pieces. -/
def helloFragments : List { bs : Bytes // bs ≠ [] } :=
  [⟨(Frame.new .hello [wfpVersion]).encoding.take 5, by decide⟩,
    ⟨(Frame.new .hello [wfpVersion]).encoding.drop 5, by decide⟩]

theorem framing_unambiguous_hello :
    (Inbound.readFrames wfpVersion 1 (.ofFragments helloFragments)).1 =
      .ok [Frame.new .hello [wfpVersion]] := by
  refine ((framing_unambiguous wfpVersion helloFragments).1 [Frame.new .hello [wfpVersion]]
    [(Frame.new .hello [wfpVersion]).encoding] ?_ ?_ (by decide)).1
  · intro frame hf
    obtain rfl := List.mem_singleton.mp hf
    exact ⟨.hello, [wfpVersion], .inl ⟨rfl, rfl⟩⟩
  · exact .cons (by decide) .nil

end Warpfile
