import Warpfile.Protocol.Frame

/-!
# What a session notes

`Noted` is one step of a session that only uses the connection; `Gained` collects the notes of
a run, and what the files were when VERIFIED was written. The rules for frames are stated again
in these terms, for results that do not depend on the bytes of the connection. A run `Reports`
success when it returns a value of some kind or attempts VERIFIED.
-/

namespace Warpfile

/-- The frame the program tried to write. -/
def NetEvent.attempted : NetEvent → Option Frame
  | .sent frame => some frame
  | .sendFailed frame _ => some frame
  | .received _ | .receiveFailed _ => none

/-- The program tried to write a frame of type `t`. -/
def NetEvent.Attempts (t : MessageType) (event : NetEvent) : Prop :=
  event.attempted.map Frame.messageType = some t

instance {t : MessageType} {event : NetEvent} : Decidable (event.Attempts t) :=
  inferInstanceAs (Decidable (_ = _))

theorem NetEvent.Attempts.unique {t t' : MessageType} {event : NetEvent} (h : event.Attempts t)
    (h' : event.Attempts t') : t = t' := Option.some.inj (h.symm.trans h')

section

variable {t : MessageType} {frame : Frame} {error : ProtocolIoError}

@[simp]
theorem attempts_sent : (NetEvent.sent frame).Attempts t ↔ frame.messageType = t := by
  simp [NetEvent.Attempts, NetEvent.attempted]

@[simp]
theorem attempts_sendFailed :
    (NetEvent.sendFailed frame error).Attempts t ↔ frame.messageType = t := by
  simp [NetEvent.Attempts, NetEvent.attempted]

@[simp]
theorem not_attempts_received : ¬(NetEvent.received frame).Attempts t := by
  simp [NetEvent.Attempts, NetEvent.attempted]

@[simp]
theorem not_attempts_receiveFailed : ¬(NetEvent.receiveFailed error).Attempts t := by
  simp [NetEvent.Attempts, NetEvent.attempted]

@[simp]
theorem Frame.messageType_new {payload : Bytes} : (Frame.new t payload).messageType = t := rfl

@[simp]
theorem Frame.payload_new {payload : Bytes} : (Frame.new t payload).payload = payload := rfl

end

/-- A frame that a reader of WFP/0.2 accepts is made of its type and its payload. -/
theorem FrameHeader.Acceptable.eq_new {frame : Frame} (h : frame.header.Acceptable wfpVersion) :
    frame = Frame.new frame.messageType frame.payload := by
  have hv : frame.version = wfpVersion := h.version_eq
  have hf : frame.flags = 0 := h.flags_eq
  cases frame
  simp_all [Frame.new]

/-- The payloads of the frames of type `t` that were read. -/
def payloads (t : MessageType) (es : List NetEvent) : List Bytes := es.filterMap fun
  | .received frame => if frame.messageType = t then some frame.payload else none
  | _ => none

section

variable {t : MessageType} {es es' : List NetEvent} {frame : Frame} {error : ProtocolIoError}

@[simp]
theorem payloads_nil : payloads t [] = [] := rfl

@[simp]
theorem payloads_append : payloads t (es ++ es') = payloads t es ++ payloads t es' :=
  List.filterMap_append

@[simp]
theorem payloads_received : payloads t (.received frame :: es) =
    if frame.messageType = t then frame.payload :: payloads t es else payloads t es := by
  unfold payloads
  rw [List.filterMap_cons]
  split_ifs with h <;> simp [h]

@[simp]
theorem payloads_sent : payloads t (.sent frame :: es) = payloads t es := by
  simp [payloads]

@[simp]
theorem payloads_sendFailed : payloads t (.sendFailed frame error :: es) = payloads t es := by
  simp [payloads]

@[simp]
theorem payloads_receiveFailed : payloads t (.receiveFailed error :: es) = payloads t es := by
  simp [payloads]

end

variable {Γ : Setting} {ε : Type} {w w₁ w₂ : Session Γ} {es es' : List NetEvent}

/-- The session noted `event`; the files did not change. -/
structure Noted (w : Session Γ) (event : NetEvent) (w' : Session Γ) : Prop where
  disk : w'.disk = w.disk
  log : w'.log = w.log ++ [(event, w.fs)]

theorem Noted.fs_eq {event : NetEvent} (h : Noted w event w₁) : w₁.fs = w.fs :=
  congrArg Disk.fs h.disk

/-- The session noted `es`, and VERIFIED only over the files as they are in the end. -/
def Gained (w : Session Γ) (es : List NetEvent) (w' : Session Γ) : Prop :=
  ∃ l, w'.log = w.log ++ l ∧ l.map Prod.fst = es ∧ ∀ e ∈ l, e.1.Attempts .verified → e.2 = w'.fs

/-- None of the notes is a VERIFIED. -/
def Unverified (es : List NetEvent) : Prop := ∀ event ∈ es, ¬event.Attempts .verified

theorem Unverified.append (h : Unverified es) (h' : Unverified es') : Unverified (es ++ es') := by
  simpa [Unverified, or_imp, forall_and] using ⟨h, h'⟩

/-- Only the other side spoke. -/
def Quiet (es : List NetEvent) : Prop := ∀ event ∈ es, event.attempted = none

theorem Quiet.unverified (h : Quiet es) : Unverified es := fun event he hv => by
  rw [NetEvent.Attempts, h event he] at hv
  simp at hv

theorem Quiet.concat {event : NetEvent} (h : Quiet es) (h' : event.attempted = none) :
    Quiet (es ++ [event]) := by
  intro e he
  rcases List.mem_append.mp he with he | he
  · exact h e he
  · rw [List.mem_singleton.mp he]
    exact h'

theorem Gained.of_log_eq (h : w₁.log = w.log) : Gained w [] w₁ := ⟨[], by simp [h], rfl, by simp⟩

theorem gained_nil : Gained w [] w₁ ↔ w₁.log = w.log :=
  ⟨fun ⟨l, hl, hnil, _⟩ => by simpa [List.map_eq_nil_iff.mp hnil] using hl, .of_log_eq⟩

theorem gained_congr (h : w₁.log = w.log) : Gained w₁ es w₂ ↔ Gained w es w₂ := by
  simp [Gained, h]

theorem Noted.gained {event : NetEvent} (h : Noted w event w₁) : Gained w [event] w₁ :=
  ⟨[(event, w.fs)], h.log, rfl, by simp [World.fs, h.disk]⟩

theorem Gained.trans (h : Gained w es w₁) (h' : Gained w₁ es' w₂) (hes : Unverified es) :
    Gained w (es ++ es') w₂ := by
  obtain ⟨l, hl, rfl, -⟩ := h
  obtain ⟨l', hl', rfl, hv⟩ := h'
  refine ⟨l ++ l', by rw [hl', hl, List.append_assoc], by simp, fun e he ha => ?_⟩
  refine (List.mem_append.mp he).elim (fun he => absurd ha ?_) fun he => hv e he ha
  exact hes _ (List.mem_map_of_mem he)

/-- What the files do after the last note does not matter to a session without VERIFIED. -/
theorem Gained.of_eq (h : Gained w es w₁) (hl : w₂.log = w₁.log) (hes : Unverified es) :
    Gained w es w₂ := by
  simpa using h.trans (Gained.of_log_eq hl) hes

/-! ### Rules -/

open Prog

theorem writeFrame_noted {frame : Frame} : (writeFrame frame).Ensures w (Post
    (fun _ w' => Noted w (.sent frame) w')
    (fun e w' => Noted w (.sendFailed frame e) w') fun _ => False) := by
  by_cases henc : frame.Encodable
  · exact ensures_writeFrame henc (fun _ _ => ⟨rfl, rfl⟩) fun _ _ _ _ => ⟨rfl, rfl⟩
  · exact ensures_writeFrame_of_not_encodable henc fun _ => ⟨rfl, rfl⟩

theorem readFrame_noted : readFrame.Ensures w (Post
    (fun frame w' => Noted w (.received frame) w' ∧
      frame = Frame.new frame.messageType frame.payload ∧
      w.net.input = frame.encoding ++ w'.net.input)
    (fun e w' => Noted w (.receiveFailed e) w')
    (fun w' => w'.disk = w.disk ∧ w'.log = w.log)) := by
  refine ensures_readFrame (fun frame rest ha hin => ?_) (fun _ _ => ⟨rfl, rfl⟩)
    (fun _ _ => ⟨rfl, rfl⟩) fun _ => ⟨rfl, rfl⟩
  exact ⟨⟨rfl, rfl⟩, ha.eq_new, hin⟩

/-- A frame is not empty. -/
theorem Frame.length_encoding_pos (frame : Frame) : 0 < frame.encoding.length := by
  simp only [Frame.encoding, List.length_append, FrameHeader.length_encoding, headerLength]
  omega

/-- Reading a frame of any version. -/
theorem readFrameForVersion_noted {version : UInt8} : (readFrameForVersion version).Ensures w (Post
    (fun frame w' => Noted w (.received frame) w' ∧ w'.net.input.length < w.net.input.length)
    (fun e w' => Noted w (.receiveFailed e) w')
    (fun w' => w'.disk = w.disk ∧ w'.log = w.log)) := by
  refine ensures_readFrame (fun frame rest _ hin => ⟨⟨rfl, rfl⟩, ?_⟩) (fun _ _ => ⟨rfl, rfl⟩)
    (fun _ _ => ⟨rfl, rfl⟩) fun _ => ⟨rfl, rfl⟩
  have hpos := frame.length_encoding_pos
  rw [hin, List.length_append]
  change rest.length < _
  omega

/-- Writing reads nothing. -/
theorem writeFrame_input {frame : Frame} :
    (writeFrame frame).Ensures w fun _ w' => w'.net.input = w.net.input := by
  by_cases henc : frame.Encodable
  · exact ensures_writeFrame henc (fun _ _ => rfl) fun _ _ _ _ => rfl
  · exact ensures_writeFrame_of_not_encodable henc fun _ => rfl

/-! ### Reporting success -/

/-- From `w` to `w₁` the session attempted no VERIFIED. -/
def Silent (w w₁ : Session Γ) : Prop := ∃ l, w₁.log = w.log ++ l ∧ Unverified (l.map Prod.fst)

theorem Silent.of_log_eq (h : w₁.log = w.log) : Silent w w₁ :=
  ⟨[], by rw [h, List.append_nil], by simp [Unverified]⟩

theorem Noted.silent {event : NetEvent} (h : Noted w event w₁) (hv : ¬event.Attempts .verified) :
    Silent w w₁ := ⟨[(event, w.fs)], h.log, by simpa [Unverified] using hv⟩

instance : Std.Refl (Silent : Session Γ → Session Γ → Prop) := ⟨fun _ => .of_log_eq rfl⟩

instance : IsTrans (Session Γ) Silent := ⟨fun _ _ _ ⟨l, hl, h⟩ ⟨l', hl', h'⟩ =>
  ⟨l ++ l', by rw [hl', hl, List.append_assoc], by simpa using h.append h'⟩⟩

/-- The run of `p` returns what `S` holds of, or attempts VERIFIED. -/
def Reports {ε α : Type} (p : Prog (Session Γ) ε α) (S : α → Prop) (w : Session Γ) : Prop :=
  (∃ a w₁, p.Returns w a w₁ ∧ S a) ∨ ¬Silent w (p w).2

section

variable {ε ε' α β : Type} {p : Prog (Session Γ) ε α} {S : α → Prop}

theorem Reports.of_pure {a : α} (h : Reports (pure a : Prog (Session Γ) ε α) S w) : S a := by
  rcases h with ⟨_, _, hr, hS⟩ | hv
  · exact (Prog.returns_pure.mp hr).1 ▸ hS
  · exact absurd (Std.Refl.refl w) hv

theorem not_reports_throw {e : ε} : ¬Reports (throw e : Prog (Session Γ) ε α) S w := by
  rintro (⟨_, _, hr, -⟩ | hv)
  · exact Prog.not_returns_throw hr
  · exact absurd (Std.Refl.refl w) hv

/-- A sequence whose first program attempts no VERIFIED reports by way of what that returns. -/
theorem Reports.of_bind {f : α → Prog (Session Γ) ε β} {S : β → Prop} (hp : p.Keeps Silent)
    (h : Reports (p >>= f) S w) : ∃ a w₁, p.Returns w a w₁ ∧ Reports (f a) S w₁ := by
  have hsilent := (hp w).apply
  rcases hrun : p w with ⟨_ | _ | _, w₁⟩ <;> rw [hrun] at hsilent
  · rename_i a
    have hbind : (p >>= f) w = f a w₁ := by
      change Prog.bind p f w = f a w₁
      rw [Prog.bind, hrun]
    refine ⟨a, w₁, hrun, ?_⟩
    unfold Reports Prog.Returns at h ⊢
    rw [hbind] at h
    exact h.imp_right fun hv hs => hv (IsTrans.trans _ _ _ hsilent hs)
  all_goals
    unfold Reports Prog.Returns at h
    have hbind : ((p >>= f) w).2 = w₁ ∧ ∀ b, ((p >>= f) w).1 ≠ .ok b := by
      change (Prog.bind p f w).2 = w₁ ∧ ∀ b, (Prog.bind p f w).1 ≠ .ok b
      rw [Prog.bind, hrun]
      exact ⟨rfl, fun _ => nofun⟩
    rcases h with ⟨b, w₂, hr, -⟩ | hv
    · exact absurd (congrArg Prod.fst hr) (hbind.2 b)
    · exact absurd hsilent (hbind.1 ▸ hv)

theorem keepsSilent_onDisk {p : Prog (Disk Γ) ε α} :
    (World.onDisk p : Prog (Session Γ) ε α).Keeps Silent := fun w => by
  rw [World.ensures_onDisk]
  exact Prog.Ensures.mono (Prog.ensures_of_eq (Q := fun _ _ => True) rfl trivial)
    fun _ _ _ => .of_log_eq rfl

theorem keepsSilent_writeFrame {frame : Frame} (h : frame.messageType ≠ .verified) :
    (writeFrame frame : Prog (Session Γ) _ _).Keeps Silent := fun w =>
  writeFrame_noted.mono fun o w₁ hw => by
    cases o with
    | ok => exact hw.silent (by simpa using h)
    | err => exact hw.silent (by simpa using h)
    | halt => exact hw.elim

end

/-! ### What was written -/

/-- The session wrote `frames`; nothing else changed but the log. -/
structure Wrote (w : Session Γ) (frames : List Frame) (w' : Session Γ) : Prop where
  disk : w'.disk = w.disk
  input : w'.net.input = w.net.input
  room : w.net.room = none → w'.net.room = none
  output : w'.net.output = w.net.output ++ encodings frames

/-- A write failed before all of `frames` were written. -/
structure Broke (w : Session Γ) (frames : List Frame) (w' : Session Γ) : Prop where
  disk : w'.disk = w.disk
  input : w'.net.input = w.net.input
  room : w.net.room ≠ none
  output : ∃ written rest, encodings frames = written ++ rest ∧ rest ≠ [] ∧
    w'.net.output = w.net.output ++ written

theorem encodings_append {frames frames' : List Frame} :
    encodings (frames ++ frames') = encodings frames ++ encodings frames' := List.flatMap_append

theorem Wrote.refl : Wrote w [] w := ⟨rfl, rfl, id, by simp [encodings]⟩

theorem Wrote.trans {frames frames' : List Frame} (h : Wrote w frames w₁)
    (h' : Wrote w₁ frames' w₂) : Wrote w (frames ++ frames') w₂ :=
  ⟨h'.disk.trans h.disk, h'.input.trans h.input, fun hr => h'.room (h.room hr), by
    rw [h'.output, h.output, encodings_append, List.append_assoc]⟩

theorem Wrote.broke {frames frames' : List Frame} (h : Wrote w frames w₁)
    (h' : Broke w₁ frames' w₂) : Broke w (frames ++ frames') w₂ := by
  obtain ⟨written, rest, heq, hne, hout⟩ := h'.output
  refine ⟨h'.disk.trans h.disk, h'.input.trans h.input, fun hr => h'.room (h.room hr),
    encodings frames ++ written, rest, ?_, hne, ?_⟩
  · rw [encodings_append, heq, List.append_assoc]
  · rw [hout, h.output, List.append_assoc]

theorem Broke.append {frames : List Frame} (h : Broke w frames w₁) (frames' : List Frame) :
    Broke w (frames ++ frames') w₁ := by
  obtain ⟨written, rest, heq, hne, hout⟩ := h.output
  refine ⟨h.disk, h.input, h.room, written, rest ++ encodings frames', ?_, ?_, hout⟩
  · rw [encodings_append, heq, List.append_assoc]
  · exact List.append_ne_nil_of_left_ne_nil hne _

/-- Writing a frame that has an encoding. -/
theorem writeFrame_wrote {frame : Frame} (h : frame.Encodable) : (writeFrame frame).Ensures w (Post
    (fun _ w' => Wrote w [frame] w')
    (fun e w' => (∃ kind, e = .io (.os kind)) ∧ Broke w [frame] w') fun _ => False) := by
  have henc : encodings [frame] = frame.encoding := List.append_nil _
  refine ensures_writeFrame h (fun room hr => ⟨rfl, rfl, hr, by rw [henc]; rfl⟩) fun n k hr hn => ?_
  refine ⟨⟨k, rfl⟩, rfl, rfl, by simp [hr], frame.encoding.take n, frame.encoding.drop n, ?_, ?_, rfl⟩
  · rw [henc, List.take_append_drop]
  · exact fun hd => absurd (List.drop_eq_nil_iff.mp hd) (not_le.mpr hn)

end Warpfile
