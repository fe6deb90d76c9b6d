import Warpfile.Foundation.Exchange
import Warpfile.Protocol.Frame

/-!
# Frames in a script

Sending and receiving a frame, as steps of a script. A reader that has a part of a frame waits for
the rest of it.
-/

namespace Warpfile

open Prog

/-- The frame is sent. -/
def tells (frame : Frame) : Script := [.send frame.encoding]

/-- The frame is received. -/
def hears (frame : Frame) : Script := [.recv frame.encoding]

@[simp]
theorem sends_tells {frame : Frame} : (tells frame).sends = frame.encoding := by
  simp [tells, Act.sent]

@[simp]
theorem recvs_tells {frame : Frame} : (tells frame).recvs = [] := by simp [tells, Act.received]

@[simp]
theorem recvs_hears {frame : Frame} : (hears frame).recvs = frame.encoding := by
  simp [hears, Act.received]

@[simp]
theorem sends_hears {frame : Frame} : (hears frame).sends = [] := by simp [hears, Act.sent]

@[simp]
theorem dual_tells {frame : Frame} : (tells frame).dual = hears frame := rfl

@[simp]
theorem dual_hears {frame : Frame} : (hears frame).dual = tells frame := rfl

/-- The frames are sent, one after the other. -/
def tellsAll (frames : List Frame) : Script := frames.flatMap tells

/-- The frames are received, one after the other. -/
def hearsAll (frames : List Frame) : Script := frames.flatMap hears

@[simp]
theorem dual_tellsAll {frames : List Frame} : (tellsAll frames).dual = hearsAll frames := by
  simp [tellsAll, hearsAll]

@[simp]
theorem dual_hearsAll {frames : List Frame} : (hearsAll frames).dual = tellsAll frames := by
  simp [tellsAll, hearsAll]

@[simp]
theorem tellsAll_append {frames frames' : List Frame} :
    tellsAll (frames ++ frames') = tellsAll frames ++ tellsAll frames' := List.flatMap_append

@[simp]
theorem sends_tellsAll {frames : List Frame} :
    (tellsAll frames).sends = frames.flatMap Frame.encoding := by
  induction frames with
  | nil => rfl
  | cons frame frames ih =>
    rw [tellsAll, List.flatMap_cons, Script.sends_append, sends_tells, List.flatMap_cons, ← ih]
    rfl

@[simp]
theorem recvs_tellsAll {frames : List Frame} : (tellsAll frames).recvs = [] := by
  induction frames with
  | nil => rfl
  | cons frame frames ih =>
    rw [tellsAll, List.flatMap_cons, Script.recvs_append, recvs_tells, List.nil_append]
    exact ih

@[simp]
theorem sends_hearsAll {frames : List Frame} : (hearsAll frames).sends = [] := by
  rw [← dual_tellsAll, Script.sends_dual, recvs_tellsAll]

/-- A frame of WFP/0.2 that a reader accepts. -/
theorem acceptable_new {t : MessageType} {payload : Bytes} (ht : t.isAllowedInVersion wfpVersion)
    (hle : payload.length ≤ maxPayloadLength)
    (hdata : t = .data → payload.length ≤ maxDataPayloadLength) :
    (Frame.new t payload).header.Acceptable wfpVersion := ⟨rfl, rfl, ht, rfl, hle, hdata⟩

section

variable {Γ : Setting} {frame : Frame} {version : UInt8} {w : Session Γ} {d : Disk Γ}

/-- **A part of a frame is waited upon**, as long as the connection is open. -/
theorem readFrame_waits (ha : frame.header.Acceptable version)
    (hin : w.net.input <+: frame.encoding) (hne : w.net.input ≠ frame.encoding)
    (hclosing : w.net.closing = none) :
    (readFrameForVersion version).Ensures w (Post (fun _ _ => False) (fun _ _ => False)
      fun w' => w'.net.output = w.net.output) := by
  obtain ⟨missing, hmissing⟩ := hin
  have hpart : missing ≠ [] := fun h => hne (by rw [← hmissing, h, List.append_nil])
  have hlen : w.net.input.length < headerLength + frame.header.payloadLength := by
    have := congrArg List.length hmissing
    rw [Frame.encoding, List.length_append, List.length_append, FrameHeader.length_encoding] at this
    have hpos := List.length_pos_iff.mpr hpart
    rw [show frame.header.payloadLength = frame.payload.length from rfl]
    omega
  have closed {k : ErrorKind} (h : w.net.closing = some k) : False := by
    rw [hclosing] at h
    cases h
  rw [readFrameForVersion, ensures_logged]
  simp only [ensures_bind, ensures_mapErr]
  refine World.ensures_readExact (fun hle => ?_) (fun _ k h => (closed h).elim) fun _ _ => rfl
  -- the header is there, so it is the one of the frame
  have hheader : w.net.input.take headerLength = frame.header.encoding := by
    have := congrArg (List.take headerLength) hmissing
    rw [List.take_append_of_le_length hle] at this
    rw [this, Frame.encoding, List.take_left' (by simp)]
  have hval : validateFrameHeader frame.header.encoding version = .ok frame.header :=
    validateFrameHeader_eq_ok.mpr ⟨ha, by rw [List.take_of_length_le (by simp)]⟩
  rw [hheader]
  simp only [post_ok, hval, Except.mapError, ensures_ofExcept]
  rw [if_pos (show frame.header.payloadLength > 0 by omega), ensures_bind, ensures_mapErr]
  refine World.ensures_readExact (fun hle' => ?_) (fun _ k h => (closed h).elim) fun _ _ => rfl
  simp only [List.length_drop] at hle'
  omega

/-- Reading a frame. -/
theorem plays_readFrame (ha : frame.header.Acceptable version) :
    Plays (readFrameForVersion version : Prog (Session Γ) _ _) d (hears frame)
      fun f d' => f = frame ∧ d' = d := by
  intro w hd ho
  obtain ⟨disk, ⟨input, closing, output, room⟩, log⟩ := w
  obtain rfl : disk = d := hd
  obtain ⟨rfl, rfl⟩ : closing = none ∧ room = none := ho
  constructor
  · intro rest hrest
    rw [recvs_hears] at hrest
    refine ensures_of_eq (readFrame_run ha hrest) ⟨⟨rfl, rfl⟩, ?_⟩
    rw [sends_hears, List.append_nil]
    rfl
  · intro before part message after h
    obtain ⟨rfl, rfl⟩ : before = [] ∧ message = frame.encoding := by
      have heq := h.script_eq
      cases before with
      | nil => simpa [hears, eq_comm] using (List.cons.inj heq).1
      | cons act before => simp [hears] at heq
    have hpart : input = part := h.input_eq
    refine (readFrame_waits ha (hpart ▸ h.part_prefix) (hpart ▸ h.part_ne) rfl).mono
      fun o w' h' => ?_
    cases o with
    | ok => exact h'
    | err => exact h'
    | halt => exact Eq.trans h' (List.append_nil _).symm

/-- Writing a frame. -/
theorem plays_writeFrame (henc : frame.Encodable) :
    Plays (writeFrame frame : Prog (Session Γ) _ _) d (tells frame) fun _ d' => d' = d := by
  intro w hd ho
  obtain ⟨disk, ⟨input, closing, output, room⟩, log⟩ := w
  obtain rfl : disk = d := hd
  obtain ⟨rfl, rfl⟩ : closing = none ∧ room = none := ho
  constructor
  · intro rest hrest
    rw [recvs_tells, List.nil_append] at hrest
    obtain rfl : input = rest := hrest
    refine ensures_writeFrame henc (fun room hr => ⟨rfl, ?_⟩) fun n k h => ?_
    · rw [sends_tells, hr rfl]
      rfl
    · cases h
  · intro before part message after h
    have heq := h.script_eq
    cases before with
    | nil => simp [tells] at heq
    | cons act before => simp [tells] at heq

end

end Warpfile
