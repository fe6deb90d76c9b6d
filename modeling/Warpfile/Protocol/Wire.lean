import Warpfile.Protocol.Log

/-!
# What the two ends of a connection know of each other

The frames that a session has read are the beginning of what it received, and what it wrote is a
beginning of the frames it attempted to write, however the connection breaks. No frame is the
beginning of another one. So an end that received some of what the other end wrote has read the
first ones of the frames that the other end attempted.
-/

namespace Warpfile

open Prog

variable {Γ : Setting} {version : UInt8} {es es' : List NetEvent}

/-! ### The frames of a log -/

/-- The frames that were read. -/
def heardFrames (es : List NetEvent) : List Frame := es.filterMap fun
  | .received frame => some frame
  | _ => none

/-- The frames that were written, or begun. -/
def utteredFrames (es : List NetEvent) : List Frame := es.filterMap fun
  | .sent frame => some frame
  | .sendFailed frame (.io _) => some frame
  | _ => none

/-- Reading did not fail. -/
def Unbroken (es : List NetEvent) : Prop := ∀ e, .receiveFailed e ∉ es

@[simp]
theorem heardFrames_append : heardFrames (es ++ es') = heardFrames es ++ heardFrames es' :=
  List.filterMap_append

@[simp]
theorem utteredFrames_append : utteredFrames (es ++ es') = utteredFrames es ++ utteredFrames es' :=
  List.filterMap_append

theorem unbroken_append : Unbroken (es ++ es') ↔ Unbroken es ∧ Unbroken es' := by
  simp [Unbroken, not_or, forall_and]

theorem mem_heardFrames {frame : Frame} : frame ∈ heardFrames es ↔ .received frame ∈ es := by
  induction es with
  | nil => simp [heardFrames]
  | cons event es ih =>
    unfold heardFrames at ih ⊢
    cases event <;> simp [ih]

theorem exists_attempted_of_mem_utteredFrames {frame : Frame} (h : frame ∈ utteredFrames es) :
    ∃ event ∈ es, event.attempted = some frame := by
  obtain ⟨event, hmem, he⟩ := List.mem_filterMap.mp h
  refine ⟨event, hmem, ?_⟩
  cases event with
  | sent f => exact he
  | sendFailed f e =>
    cases e with
    | io => exact he
    | encode => simp at he
    | decode => simp at he
  | received => simp at he
  | receiveFailed => simp at he

/-- No frame is the beginning of another one, and none is empty. -/
theorem prefix_of_encodings_prefix {fs gs : List Frame}
    (hf : ∀ f ∈ fs, f.header.Acceptable version) (hg : ∀ g ∈ gs, g.header.Acceptable version)
    (h : encodings fs <+: encodings gs) : fs <+: gs := by
  induction fs generalizing gs with
  | nil => exact List.nil_prefix
  | cons f fs ih =>
    obtain ⟨rest, hrest⟩ := h
    cases gs with
    | nil =>
      have hpos := f.length_encoding_pos
      have hlen := congrArg List.length hrest
      simp only [encodings, List.flatMap_cons, List.flatMap_nil, List.length_append,
        List.length_nil] at hlen
      omega
    | cons g gs =>
      have heq : f.encoding ++ (encodings fs ++ rest) = g.encoding ++ encodings gs := by
        rw [← List.append_assoc]
        exact hrest
      obtain ⟨rfl, htail⟩ := encoding_append_inj (hf f (by simp)) (hg g (by simp)) heq
      exact List.cons_prefix_cons.mpr ⟨rfl, ih (fun f hf' => hf f (by simp [hf']))
        (fun g hg' => hg g (by simp [hg'])) ⟨rest, htail⟩⟩

/-! ### What was read -/

/-- The notes `es` are those of a session that read the frames at the beginning of `input`, and has
`rest` before it. -/
structure Hears (version : UInt8) (es : List NetEvent) (input rest : Bytes) : Prop where
  acceptable : ∀ frame ∈ heardFrames es, frame.header.Acceptable version
  le : encodings (heardFrames es) ++ rest <+: input

/-- From `w` to `w'` the session read frames from the connection, until reading failed. -/
def Listened (version : UInt8) (w w' : Session Γ) : Prop :=
  ∃ l, w'.log = w.log ++ l ∧
    (Unbroken (l.map Prod.fst) → Hears version (l.map Prod.fst) w.net.input w'.net.input)

/-- Nothing was read, or a part of a frame. -/
theorem Listened.of_log_eq {w w' : Session Γ} (hl : w'.log = w.log)
    (h : w'.net.input <+: w.net.input) : Listened version w w' :=
  ⟨[], by rw [hl, List.append_nil], fun _ => ⟨by simp [heardFrames], h⟩⟩

instance : Std.Refl (Listened version : Session Γ → Session Γ → Prop) :=
  ⟨fun _ => .of_log_eq rfl List.prefix_rfl⟩

instance : IsTrans (Session Γ) (Listened version) where
  trans := by
    intro w w₁ w₂ h h'
    obtain ⟨l, hl, h⟩ := h
    obtain ⟨l', hl', h'⟩ := h'
    refine ⟨l ++ l', by rw [hl', hl, List.append_assoc], fun hu => ?_⟩
    rw [List.map_append] at hu ⊢
    obtain ⟨hu, hu'⟩ := unbroken_append.mp hu
    have h := h hu
    have h' := h' hu'
    refine ⟨?_, ?_⟩
    · intro frame hf
      rw [heardFrames_append] at hf
      exact (List.mem_append.mp hf).elim (h.acceptable frame) (h'.acceptable frame)
    · rw [heardFrames_append, encodings_append, List.append_assoc]
      exact ((List.prefix_append_right_inj _).mpr h'.le).trans h.le

theorem listened_onDisk {ε α : Type} {p : Prog (Disk Γ) ε α} :
    (World.onDisk p : Prog (Session Γ) ε α).Keeps (Listened version) := fun w => by
  rw [World.ensures_onDisk]
  exact Prog.Ensures.mono (Prog.ensures_of_eq (Q := fun _ _ => True) rfl trivial)
    fun _ _ _ => .of_log_eq rfl List.prefix_rfl

theorem listened_writeFrame {frame : Frame} :
    (writeFrame frame : Prog (Session Γ) _ _).Keeps (Listened version) := fun w => by
  refine (writeFrame_noted.and writeFrame_input).mono fun o w' h => ?_
  have wrote {event : NetEvent} (hn : Noted w event w') (he : heardFrames [event] = []) :
      Listened version w w' := by
    refine ⟨[(event, w.fs)], hn.log, fun _ => ?_⟩
    simp only [List.map_cons, List.map_nil]
    refine ⟨by simp [he], ?_⟩
    rw [he, h.2]
    exact List.prefix_rfl
  cases o with
  | ok => exact wrote h.1 rfl
  | err => exact wrote h.1 rfl
  | halt => exact h.1.elim

theorem listened_readFrame :
    (readFrameForVersion version : Prog (Session Γ) _ _).Keeps (Listened version) := fun w => by
  refine ensures_readFrame (fun frame rest ha hin => ?_) (fun k _ => ?_) (fun e rest => ?_)
    fun _ => .of_log_eq rfl List.nil_prefix
  · refine ⟨[(.received frame, w.fs)], rfl, fun _ => ⟨?_, ?_⟩⟩
    · simpa [heardFrames] using ha
    · rw [hin]
      simp [heardFrames, encodings, Session.afterReading]
  · exact ⟨[_], rfl, fun hu => absurd (List.mem_singleton_self _) (hu _)⟩
  · exact ⟨[_], rfl, fun hu => absurd (List.mem_singleton_self _) (hu _)⟩

/-! ### What is still to be read -/

/-- What is left to be read is a beginning of frames of which `F` holds. -/
def Fed (version : UInt8) (F : Frame → Prop) (w : Session Γ) : Prop :=
  ∃ frames : List Frame, (∀ frame ∈ frames, frame.header.Acceptable version ∧ F frame) ∧
    w.net.input <+: encodings frames

section

variable {F : Frame → Prop} {w w' : Session Γ}

theorem Fed.congr (h : Fed version F w) (hin : w'.net.input = w.net.input) : Fed version F w' := by
  obtain ⟨frames, hframes, hle⟩ := h
  exact ⟨frames, hframes, hin ▸ hle⟩

/-- The next frame is one of them. -/
theorem Fed.readFrame (h : Fed version F w) :
    (readFrameForVersion version : Prog (Session Γ) _ _).Ensures w (Post
      (fun frame w' => F frame ∧ Fed version F w' ∧ w'.disk = w.disk)
      (fun _ w' => w'.disk = w.disk) fun w' => w'.disk = w.disk) := by
  refine ensures_readFrame (fun frame rest ha hin => ?_) (fun _ _ => rfl) (fun _ _ => rfl)
    fun _ => rfl
  obtain ⟨frames, hframes, hle⟩ := h
  rw [hin] at hle
  have hone : [frame] <+: frames := by
    refine prefix_of_encodings_prefix (by simpa using ha) (fun g hg => (hframes g hg).1) ?_
    rw [encodings, List.flatMap_singleton]
    exact (List.prefix_append _ _).trans hle
  obtain ⟨tail, rfl⟩ := hone
  refine ⟨(hframes frame (by simp)).2, ⟨tail, fun g hg => hframes g (by simp [hg]), ?_⟩, rfl⟩
  rw [encodings_append, encodings, List.flatMap_singleton] at hle
  exact (List.prefix_append_right_inj _).mp hle

/-- Writing leaves what is to be read, and the files. -/
theorem Fed.writeFrame {frame : Frame} (h : Fed version F w) :
    (writeFrame frame : Prog (Session Γ) _ _).Ensures w fun _ w' =>
      Fed version F w' ∧ w'.disk = w.disk := by
  by_cases henc : frame.Encodable
  · exact ensures_writeFrame henc (fun _ _ => ⟨h.congr rfl, rfl⟩) fun _ _ _ _ => ⟨h.congr rfl, rfl⟩
  · exact ensures_writeFrame_of_not_encodable henc fun _ => ⟨h.congr rfl, rfl⟩

end

/-! ### What was written -/

/-- There is no room to write. -/
def Exhausted (w : Session Γ) : Prop := ∃ k, w.net.room = some (0, k)

/-- From `w` to `w'` the session wrote `part` of the frames that are noted in `es`, all of them
unless no room was left. -/
structure Utters (version : UInt8) (F : Frame → Prop) (w : Session Γ) (es : List NetEvent)
    (part : Bytes) (w' : Session Γ) : Prop where
  output : w'.net.output = w.net.output ++ part
  le : part <+: encodings (utteredFrames es)
  all : part = encodings (utteredFrames es) ∨ Exhausted w'
  exhausted : Exhausted w → part = [] ∧ Exhausted w'
  frames : ∀ frame ∈ utteredFrames es, F frame ∧ frame.header.Acceptable version

/-- From `w` to `w'` the session attempted only frames of which `F` holds. -/
def Uttered (version : UInt8) (F : Frame → Prop) (w w' : Session Γ) : Prop :=
  ∃ l part, w'.log = w.log ++ l ∧ Utters version F w (l.map Prod.fst) part w'

section

variable {F : Frame → Prop} {w w' : Session Γ}

theorem Uttered.of_log_eq (hl : w'.log = w.log) (ho : w'.net.output = w.net.output)
    (hr : w'.net.room = w.net.room) : Uttered version F w w' := by
  refine ⟨[], [], by rw [hl, List.append_nil], by rw [ho, List.append_nil], List.nil_prefix,
    .inl rfl, fun h => ⟨rfl, ?_⟩, by simp [utteredFrames]⟩
  obtain ⟨k, hk⟩ := h
  exact ⟨k, hr.trans hk⟩

instance : Std.Refl (Uttered version F : Session Γ → Session Γ → Prop) :=
  ⟨fun _ => .of_log_eq rfl rfl rfl⟩

instance : IsTrans (Session Γ) (Uttered version F) where
  trans := by
    intro w w₁ w₂ h h'
    obtain ⟨l, part, hl, h⟩ := h
    obtain ⟨l', part', hl', h'⟩ := h'
    refine ⟨l ++ l', part ++ part', by rw [hl', hl, List.append_assoc], ?_⟩
    rw [List.map_append]
    -- where no room was left after the first part, nothing of the second was written
    have hparts : Exhausted w₁ ∧ part' = [] ∧ Exhausted w₂ ∨
        part = encodings (utteredFrames (l.map Prod.fst)) :=
      h.all.symm.imp_left fun hw => ⟨hw, h'.exhausted hw⟩
    refine ⟨?_, ?_, ?_, fun hw => ?_, fun frame hf => ?_⟩
    · rw [h'.output, h.output, List.append_assoc]
    · rw [utteredFrames_append, encodings_append]
      obtain ⟨-, rfl, -⟩ | hall := hparts
      · rw [List.append_nil]
        exact h.le.trans (List.prefix_append _ _)
      · rw [hall]
        exact (List.prefix_append_right_inj _).mpr h'.le
    · obtain ⟨-, -, hw₂⟩ | hall := hparts
      · exact .inr hw₂
      · refine h'.all.imp_left fun hall' => ?_
        rw [utteredFrames_append, encodings_append, hall, hall']
    · obtain ⟨rfl, hw₁⟩ := h.exhausted hw
      obtain ⟨rfl, hw₂⟩ := h'.exhausted hw₁
      exact ⟨rfl, hw₂⟩
    · rw [utteredFrames_append] at hf
      exact (List.mem_append.mp hf).elim (h.frames frame) (h'.frames frame)

theorem uttered_readFrame :
    (readFrameForVersion version : Prog (Session Γ) _ _).Keeps (Uttered version F) := fun w => by
  have read {event : NetEvent} {rest : Bytes} (he : utteredFrames [event] = []) :
      Uttered version F w
        { w with net := { w.net with input := rest }, log := w.log ++ [(event, w.fs)] } := by
    refine ⟨[(event, w.fs)], [], rfl, (List.append_nil _).symm, List.nil_prefix, .inl ?_,
      fun h => ⟨rfl, h⟩, ?_⟩
    · simp [he, encodings]
    · simp [he]
  exact ensures_readFrame (fun _ _ _ _ => read rfl) (fun _ _ => read rfl) (fun _ _ => read rfl)
    fun _ => .of_log_eq rfl rfl rfl

/-- Where no room is left, a write fails. -/
private theorem writeAll_exhausted {bs : Bytes} {k : ErrorKind} (hbs : bs ≠ [])
    (h : w.net.room = some (0, k)) :
    (World.writeAll bs : Prog (Session Γ) _ _).Ensures w fun o w' => o = .err (.os k) ∧ w' = w := by
  have hlen : ¬bs.length ≤ 0 := by
    have := List.length_pos_iff.mpr hbs
    omega
  refine ensures_of_eq (o := .err (.os k)) (t := w) ?_ ⟨rfl, rfl⟩
  obtain ⟨disk, ⟨input, closing, output, room⟩, log⟩ := w
  obtain rfl : room = some (0, k) := h
  simp [World.writeAll, hlen]

theorem uttered_writeFrame {frame : Frame} (hF : F frame)
    (ha : frame.Encodable → frame.header.Acceptable version) :
    (writeFrame frame : Prog (Session Γ) _ _).Keeps (Uttered version F) := fun w => by
  by_cases henc : frame.Encodable
  swap
  · refine ensures_writeFrame_of_not_encodable henc fun e => ?_
    refine ⟨[(.sendFailed frame (.encode e), w.fs)], [], rfl, (List.append_nil _).symm,
      List.nil_prefix, .inl rfl, fun h => ⟨rfl, h⟩, ?_⟩
    simp [utteredFrames]
  have hframes : ∀ f ∈ [frame], F f ∧ f.header.Acceptable version := by
    simpa using ⟨hF, ha henc⟩
  have hone : encodings [frame] = frame.encoding := List.append_nil _
  by_cases hx : Exhausted w
  · obtain ⟨k, hk⟩ := hx
    have hne : frame.encoding ≠ [] := List.length_pos_iff.mp frame.length_encoding_pos
    have he : encodeFrame frame = .ok frame.encoding := encodeFrame_eq_ok.mpr ⟨henc, rfl⟩
    rw [writeFrame, ensures_logged]
    simp only [he, Except.mapError, ensures_bind, ensures_mapErr, ensures_ofExcept, post_ok]
    refine (writeAll_exhausted hne hk).mono fun o w' h => ?_
    obtain ⟨rfl, rfl⟩ := h
    refine ⟨[(.sendFailed frame (.io (.os k)), w'.fs)], [], rfl, ?_⟩
    exact ⟨(List.append_nil _).symm, List.nil_prefix, .inr ⟨k, hk⟩, fun h => ⟨rfl, h⟩, hframes⟩
  · refine ensures_writeFrame henc (fun room _ => ?_) fun n k _ _ => ?_
    · refine ⟨[(.sent frame, w.fs)], frame.encoding, rfl, rfl, ?_, .inl hone.symm,
        fun h => absurd h hx, hframes⟩
      exact hone ▸ List.prefix_rfl
    · refine ⟨[(.sendFailed frame (.io (.os k)), w.fs)], frame.encoding.take n, rfl, rfl, ?_,
        .inr ⟨k, rfl⟩, fun h => absurd h hx, hframes⟩
      exact hone ▸ List.take_prefix _ _

end

end Warpfile
