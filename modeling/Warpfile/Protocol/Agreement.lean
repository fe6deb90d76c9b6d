import Warpfile.Protocol.Framing

/-!
# What the encoder and the decoder accept

The two check the version, the message type and the lengths alike. The decoder also refuses
flags, which the encoder writes as they are; the constructors of frames set none.
-/

namespace Warpfile

namespace Frame

variable {frame : Frame} {version : UInt8}

/-- The encoder accepts the frame if and only if the decoder returns it for some bytes, and for
those that the encoder makes. -/
def Agrees (frame : Frame) : Prop :=
  ((∃ bytes, encodeFrame frame = .ok bytes) ↔
    ∃ bytes, decodeFrameForVersion bytes frame.version = .ok frame) ∧
  ∀ bytes, encodeFrame frame = .ok bytes → decodeFrameForVersion bytes frame.version = .ok frame

/-- The decoder asks for more than the encoder by the flags, and by nothing else. -/
theorem acceptable_header_iff :
    frame.header.Acceptable frame.version ↔ frame.Encodable ∧ frame.flags = 0 := by
  constructor
  · intro h
    exact ⟨h.encodable, h.flags_eq⟩
  · rintro ⟨h, hflags⟩
    exact ⟨rfl, h.supported, h.allowed, hflags, h.payload, h.data⟩

theorem exists_encodeFrame_iff : (∃ bytes, encodeFrame frame = .ok bytes) ↔ frame.Encodable := by
  constructor
  · rintro ⟨bytes, h⟩
    exact (encodeFrame_eq_ok.mp h).1
  · intro h
    exact ⟨frame.encoding, encodeFrame_eq_ok.mpr ⟨h, rfl⟩⟩

theorem exists_decodeFrame_iff :
    (∃ bytes, decodeFrameForVersion bytes frame.version = .ok frame) ↔
      frame.Encodable ∧ frame.flags = 0 := by
  rw [← acceptable_header_iff]
  constructor
  · rintro ⟨bytes, h⟩
    exact (decodeFrameForVersion_eq_ok.mp h).1
  · intro h
    exact ⟨frame.encoding, decodeFrameForVersion_eq_ok.mpr ⟨h, rfl⟩⟩

/-- **The encoder and the decoder agree** on the frames without flags, and on those that both
refuse. -/
theorem agrees_iff (frame : Frame) : frame.Agrees ↔ frame.flags = 0 ∨ ¬frame.Encodable := by
  rw [Agrees, exists_encodeFrame_iff, exists_decodeFrame_iff]
  constructor
  · rintro ⟨h, -⟩
    by_cases henc : frame.Encodable
    · exact .inl (h.mp henc).2
    · exact .inr henc
  · rintro (hflags | henc)
    · refine ⟨⟨fun h => ⟨h, hflags⟩, And.left⟩, fun bytes h => ?_⟩
      obtain ⟨henc, rfl⟩ := encodeFrame_eq_ok.mp h
      exact decodeFrameForVersion_eq_ok.mpr ⟨acceptable_header_iff.mpr ⟨henc, hflags⟩, rfl⟩
    · exact ⟨⟨fun h => absurd h henc, And.left⟩, fun bytes h => absurd (encodeFrame_eq_ok.mp h).1 henc⟩

/-- A HELLO with a flag. -/
theorem not_agrees_flagged :
    encodeFrame ⟨wfpVersion, .hello, 1, [wfpVersion]⟩ =
        .ok [0x57, 0x46, 0x50, 0x00, 0x02, 0x01, 0x00, 0x01, 0x00, 0x00, 0x00, 0x01, 0x02] ∧
      decodeFrameForVersion
        [0x57, 0x46, 0x50, 0x00, 0x02, 0x01, 0x00, 0x01, 0x00, 0x00, 0x00, 0x01, 0x02] wfpVersion =
          .error (.unsupportedFlags 1) ∧
      ¬(⟨wfpVersion, .hello, 1, [wfpVersion]⟩ : Frame).Agrees := by
  have henc : encodeFrame ⟨wfpVersion, .hello, 1, [wfpVersion]⟩ =
      .ok [0x57, 0x46, 0x50, 0x00, 0x02, 0x01, 0x00, 0x01, 0x00, 0x00, 0x00, 0x01, 0x02] := by decide
  have hdec : decodeFrameForVersion
      [0x57, 0x46, 0x50, 0x00, 0x02, 0x01, 0x00, 0x01, 0x00, 0x00, 0x00, 0x01, 0x02] wfpVersion =
        .error (.unsupportedFlags 1) := by decide
  refine ⟨henc, hdec, fun h => ?_⟩
  exact nomatch hdec.symm.trans (h.2 _ henc)

/-- The constructors set no flags, so what the program builds its peer accepts. -/
theorem BuiltFor.agrees (h : frame.BuiltFor version) : frame.Agrees := by
  refine (agrees_iff frame).mpr ?_
  by_cases henc : frame.Encodable
  · exact .inl (h.acceptable (encodeFrame_eq_ok.mpr ⟨henc, rfl⟩)).flags_eq
  · exact .inr henc

end Frame

end Warpfile
