import Warpfile.V02.Reconcile

/-!
# Preparing the partial file

A transfer is prepared fresh (ACCEPT), by resuming (RESUME, ACCEPT) or by starting over
(RESUME, RESTART, ACCEPT). In each case the receiver ends up with the inode of the partial
file, and its hasher has absorbed what the inode holds (`Ready`).
-/

namespace Warpfile.V02

open Prog

variable [Crates] {faults crashes : Bool}

/-! ### The stage of a session -/

/-- How far a session has come, as its notes tell. -/
inductive Stage where
  | opening
  | negotiating
  | preparing
  | receiving
  deriving DecidableEq, Repr

/-- An attempt to write RESUME opens the negotiation, and the answer ends it; data come after an
ACCEPT of either side. -/
def Stage.next : Stage → NetEvent → Stage
  | s, .sent frame =>
    if frame.messageType = .resume then negotiating
    else if frame.messageType = .accept then receiving
    else s
  | s, .sendFailed frame _ =>
    if frame.messageType = .resume then negotiating
    else if frame.messageType = .accept then preparing
    else s
  | negotiating, .received frame => if frame.messageType = .accept then receiving else preparing
  | s, _ => s

def stage (es : List NetEvent) : Stage := es.foldl Stage.next .opening

omit [Crates] in
/-- Refusing moves the session to no other stage. -/
theorem foldl_next_of_rejects {es : List NetEvent} (h : ∀ event ∈ es, event.Attempts .reject)
    (s : Stage) : es.foldl Stage.next s = s := by
  induction es generalizing s with
  | nil => rfl
  | cons event es ih =>
    rw [List.forall_mem_cons] at h
    rw [List.foldl_cons, ih h.2]
    clear ih
    cases event with
    | sent frame => simp [Stage.next, attempts_sent.mp h.1]
    | sendFailed frame e => simp [Stage.next, attempts_sendFailed.mp h.1]
    | received => exact absurd h.1 not_attempts_received
    | receiveFailed => exact absurd h.1 not_attempts_receiveFailed

omit [Crates] in
theorem unverified_of_rejects {es : List NetEvent} (h : ∀ event ∈ es, event.Attempts .reject) :
    Unverified es := by
  intro event he hv
  have := h event he
  rw [NetEvent.Attempts] at this hv
  rw [this] at hv
  simp at hv

/-! ### Outcomes -/

/-- The frame that offers to continue `bytes`. -/
def resumeFrame (bytes : Bytes) : Frame :=
  Frame.new .resume
    (encodeResume { offset := UInt64.ofNat bytes.length, prefixHash := blake3 bytes })

/-- The partial file is ready to take what comes after `bytes`. -/
structure Ready (path : Path) (offer : FileOffer) (prepared : PreparedTransfer) (bytes : Bytes)
    (fs : Fs) : Prop where
  name : fs.names path = some (.file prepared.output.ino)
  data : fs.data prepared.output.ino = bytes
  hasher : prepared.hasher = bytes
  bytesReceived : prepared.bytesReceived = bytes.length
  at_end : prepared.output.append = true ∨ prepared.output.pos = bytes.length
  described : fs.transferMetadata path = some (transferMetadataForOffer offer)

/-- A transfer starts in a new file. -/
structure Fresh (path : Path) (fs : Fs) (prepared : PreparedTransfer) (bytes : Bytes) (fs' : Fs) :
    Prop where
  empty : bytes = []
  ino : fs.next ≤ prepared.output.ino
  within : Fs.Within ∅ (scratch path) ∅ fs fs'
  tidy : ¬fs'.Untidy path
  separate : fs'.names (transferMetadataPath path) ≠ some (.file prepared.output.ino)

omit [Crates] in
/-- The scratch files may have been changed before. -/
theorem Fresh.of_within {path : Path} {fs₀ fs fs' : Fs} {prepared : PreparedTransfer} {bytes : Bytes}
    (h : Fresh path fs prepared bytes fs') (hw : Fs.Within ∅ (scratch path) ∅ fs₀ fs) :
    Fresh path fs₀ prepared bytes fs' :=
  ⟨h.empty, hw.next.trans h.ino, hw.trans h.within, h.tidy, h.separate⟩

/-- A transfer continues the partial file that was there. -/
structure Resumed (path : Path) (fs : Fs) (prepared : PreparedTransfer) (bytes : Bytes)
    (fs' : Fs) : Prop where
  name : fs.names path = some (.file prepared.output.ino)
  data : fs.data prepared.output.ino = bytes
  ne_nil : bytes ≠ []
  within : Fs.Within ∅ (metadataNames path) ∅ fs fs'
  untidy : fs'.Untidy path → fs.Untidy path

/-- The three ways of preparing a transfer, with the notes of the session. -/
inductive Prepared (path : Path) (offer : FileOffer) (fs : Fs) (prepared : PreparedTransfer)
    (fs' : Fs) : List NetEvent → Bytes → Prop
  | fresh {bytes : Bytes} : Ready path offer prepared bytes fs' →
      Fresh path fs prepared bytes fs' →
      Prepared path offer fs prepared fs' [.sent (Frame.new .accept [])] bytes
  | resumed {bytes : Bytes} : Ready path offer prepared bytes fs' →
      Resumed path fs prepared bytes fs' → bytes.length ≤ offer.fileSize.toNat →
      Prepared path offer fs prepared fs'
        [.sent (resumeFrame bytes), .received (Frame.new .accept [])] bytes
  | restarted {old bytes : Bytes} : Ready path offer prepared bytes fs' →
      Fresh path fs prepared bytes fs' →
      Prepared path offer fs prepared fs'
        [.sent (resumeFrame old), .received (Frame.new .restart []), .sent (Frame.new .accept [])]
        bytes

section Prepared

variable {path : Path} {offer : FileOffer} {fs fs' : Fs} {prepared : PreparedTransfer}
  {es : List NetEvent} {bytes : Bytes} (h : Prepared path offer fs prepared fs' es bytes)

include h

theorem Prepared.ready : Ready path offer prepared bytes fs' := by
  cases h <;> assumption

theorem Prepared.within : Fs.Within ∅ (scratch path) ∅ fs fs' := by
  cases h with
  | fresh _ h => exact h.within
  | resumed _ h => exact h.within.mono le_rfl (fun _ h => .inr h) fun _ h => .inl h
  | restarted _ h => exact h.within

theorem Prepared.untidy (hu : fs'.Untidy path) : fs.Untidy path := by
  cases h with
  | fresh _ h => exact absurd hu h.tidy
  | resumed _ h => exact h.untidy hu
  | restarted _ h => exact absurd hu h.tidy

/-- The data go to a new file, or to the partial file that was there. -/
theorem Prepared.ino : fs.names path = some (.file prepared.output.ino) ∨
    fs.next ≤ prepared.output.ino := by
  cases h with
  | fresh _ h => exact .inr h.ino
  | resumed _ h => exact .inl h.name
  | restarted _ h => exact .inr h.ino

theorem Prepared.unverified : Unverified es := by
  cases h <;> simp [Unverified, resumeFrame]

/-- Preparing a transfer reads answers only. -/
theorem Prepared.payloads_eq_nil {t : MessageType} (ha : t ≠ .accept) (hr : t ≠ .restart) :
    payloads t es = [] := by
  cases h <;> simp [ha.symm, hr.symm]

end Prepared

/-- How preparing a transfer fails: nothing was done; the connection was lost while RESUME was
negotiated; or what stood at the scratch names is gone. -/
inductive PrepareFailed (faults : Bool) (path : Path) (fs : Fs) (fs' : Fs) :
    ReceiverError → List NetEvent → Prop
  | refused {e : ReceiverError} {es : List NetEvent} : fs' = fs →
      (∀ event ∈ es, event.Attempts .reject) → PrepareFailed faults path fs fs' e es
  | negotiating {e : ProtocolIoError} {es : List NetEvent} {old : Bytes} : fs' = fs →
      shouldPreservePartial (.protocol e) → (es = [.sendFailed (resumeFrame old) e] ∨
        es = [.sent (resumeFrame old), .receiveFailed e]) →
      PrepareFailed faults path fs fs' (.protocol e) es
  | unready {e : ReceiverError} {es : List NetEvent} : Fs.Within ∅ (scratch path) ∅ fs fs' →
      (faults ∨ fs.Untidy path) → Unverified es →
      (shouldPreservePartial e → stage es = .opening ∨ stage es = .preparing) →
      PrepareFailed faults path fs fs' e es
  | discarded {e : ReceiverError} {es : List NetEvent} : Fs.Within ∅ (scratch path) ∅ fs fs' →
      (∀ p ∈ scratch path, fs'.names p = none) → Unverified es →
      (∀ event ∈ es, ¬event.Attempts .reject) →
      (∃ event ∈ es, event.Attempts .resume ∨ event.Attempts .accept) →
      (shouldPreservePartial e → stage es = .preparing) →
      PrepareFailed faults path fs fs' e es

theorem PrepareFailed.within {path : Path} {fs fs' : Fs} {e : ReceiverError}
    {es : List NetEvent} (h : PrepareFailed faults path fs fs' e es) :
    Fs.Within ∅ (scratch path) ∅ fs fs' := by
  cases h with
  | refused h => exact .of_eq h
  | negotiating h => exact .of_eq h
  | unready h => exact h
  | discarded h => exact h

theorem PrepareFailed.unverified {path : Path} {fs fs' : Fs} {e : ReceiverError}
    {es : List NetEvent} (h : PrepareFailed faults path fs fs' e es) : Unverified es := by
  cases h with
  | refused _ hes => exact unverified_of_rejects hes
  | negotiating _ _ hes => rcases hes with rfl | rfl <;> simp [Unverified, resumeFrame]
  | unready _ _ h => exact h
  | discarded _ _ h => exact h

/-! ### Specifications -/

section

variable {w : Session (.alone faults crashes)} {path : Path} {offer : FileOffer}

/-- The process was killed, or waits for ever. -/
def PrepareHalted (path : Path) (w w' : Session (.alone faults crashes)) : Prop :=
  Fs.Within ∅ (scratch path) ∅ w.fs w'.fs ∧ ∃ es, Gained w es w' ∧ Unverified es

omit [Crates] in
theorem discardAndThrow_spec {α : Type} {error : ReceiverError} (hp : path ≠ []) :
    (discardAndThrow path error : Receiver _ α).Ensures w (Post (fun _ _ => False)
      (fun e w' => e = error ∧ Fs.Within ∅ (scratch path) ∅ w.fs w'.fs ∧ w'.log = w.log ∧
        (faults ∨ w.fs.Irregular path ∨ w.fs.Untidy path ∨ ∀ p ∈ scratch path, w'.fs.names p = none))
      fun w' => Fs.Within ∅ (scratch path) ∅ w.fs w'.fs ∧ w'.log = w.log) := by
  refine Ensures.bind (tryDiscardPartialState_spec hp) (fun _ w' h => ?_) (fun _ _ h => h.elim)
    fun w' h => ⟨h.1, h.2.1⟩
  rw [ensures_throw]
  exact ⟨rfl, h⟩

omit [Crates] in
/-- The directory of the scratch files stays. -/
theorem isDir_within {fs fs' : Fs} (h : Fs.Within ∅ (scratch path) ∅ fs fs')
    (hdir : fs.isDir path.dropLast) : fs'.isDir path.dropLast := by
  by_cases h0 : path.dropLast = []
  · simp [h0, Fs.isDir]
  · refine h.isDir (fun hm => ?_) hdir
    have := congrArg List.length (dropLast_of_mem_scratch hm)
    have := List.length_pos_iff.mpr h0
    simp only [List.length_dropLast] at *
    omega

omit [Crates] in
theorem Within.scratch_of_metadataNames {fs fs' : Fs}
    (h : Fs.Within ∅ (metadataNames path) ∅ fs fs') : Fs.Within ∅ (scratch path) ∅ fs fs' :=
  h.mono le_rfl (fun _ h => .inr h) fun _ h => .inl h

theorem persistTransferMetadata_spec {metadata : TransferMetadata} (hp : path ≠ []) :
    (persistTransferMetadata path metadata).Ensures w (Post
      (fun _ w' => Fs.Within ∅ (metadataNames path) ∅ w.fs w'.fs ∧ ¬w'.fs.Untidy path ∧
        (metadata.filename ≠ "" → w'.fs.transferMetadata path = some metadata) ∧ w'.log = w.log)
      (fun _ w' => Fs.Within ∅ (scratch path) ∅ w.fs w'.fs ∧
        (faults ∨ w.fs.Untidy path ∨ ¬w.fs.isDir path.dropLast) ∧
        ∃ es, Gained w es w' ∧ ∀ event ∈ es, event.Attempts .reject)
      (PrepareHalted path w)) := by
  refine World.ensures_onDisk_attempt_bind writeTransferMetadata_spec
    (fun _ d h => ensures_pure.mpr ⟨h.1, h.2.1, h.2.2, rfl⟩) (fun e d h => ?_)
    fun d h => ⟨Within.scratch_of_metadataNames h.1, [], .of_log_eq rfl, by simp [Unverified]⟩
  obtain ⟨h, hc⟩ := h
  have h := Within.scratch_of_metadataNames h
  refine Ensures.bind (tryDiscardPartialState_spec hp) ?_ (fun _ _ h => h.elim) fun w' h' =>
    ⟨h.trans h'.1, [], .of_log_eq h'.2.1, by simp [Unverified]⟩
  rintro ⟨⟩ w₁ ⟨h₁, hlog, -⟩
  have refused {w' : Session (.alone faults crashes)} (hrej : Rejected w₁ w') :
      Fs.Within ∅ (scratch path) ∅ w.fs w'.fs ∧
        (faults ∨ w.fs.Untidy path ∨ ¬w.fs.isDir path.dropLast) ∧
        ∃ es, Gained w es w' ∧ ∀ event ∈ es, event.Attempts .reject := by
    obtain ⟨es, hg, hes⟩ := hrej.2
    exact ⟨by rw [hrej.fs_eq]; exact h.trans h₁, hc, es, (gained_congr hlog).mp hg, hes⟩
  exact Ensures.bind sendReject_spec (fun _ _ h => ensures_throw.mpr (refused h))
    (fun _ _ h => refused h) fun _ h => h.elim

omit [Crates] in
theorem sendAccept_spec (hp : path ≠ []) : (sendAccept path).Ensures w (Post
    (fun _ w' => Noted w (.sent (Frame.new .accept [])) w')
    (fun _ w' => Fs.Within ∅ (scratch path) ∅ w.fs w'.fs ∧
      (faults ∨ w.fs.Irregular path ∨ w.fs.Untidy path ∨ ∀ p ∈ scratch path, w'.fs.names p = none) ∧
      ∃ e, Gained w [.sendFailed (Frame.new .accept []) e] w')
    (PrepareHalted path w)) := by
  refine Ensures.bind_attempt send_noted (fun _ _ h => ensures_pure.mpr h) (fun e w₁ h => ?_)
    fun _ h => h.elim
  obtain ⟨e', -, h⟩ := h
  have hv : Unverified [.sendFailed (Frame.new .accept []) e'] := by simp [Unverified]
  refine (discardAndThrow_spec hp).mono fun o w' h' => ?_
  rw [h.fs_eq] at h'
  cases o with
  | ok => exact h'.elim
  | err => exact ⟨h'.2.1, h'.2.2.2, e', h.gained.of_eq h'.2.2.1 hv⟩
  | halt => exact ⟨h'.1, _, h.gained.of_eq h'.2 hv, hv⟩

theorem prepareFreshTransfer_spec (hp : path ≠ []) (hdir : w.fs.isDir path.dropLast)
    (hn : w.fs.names path = none) (hname : offer.filename ≠ "") :
    (prepareFreshTransfer path (transferMetadataForOffer offer)).Ensures w (Post
      (fun prepared w' => Ready path offer prepared [] w'.fs ∧ Fresh path w.fs prepared [] w'.fs ∧
        Gained w [.sent (Frame.new .accept [])] w')
      (fun _ w' => Fs.Within ∅ (scratch path) ∅ w.fs w'.fs ∧
        ((faults ∨ w.fs.Untidy path) ∧
            (∃ es, Gained w es w' ∧ ∀ event ∈ es, event.Attempts .reject) ∨
          (faults ∨ ∀ p ∈ scratch path, w'.fs.names p = none) ∧
            ∃ e, Gained w [.sendFailed (Frame.new .accept []) e] w'))
      (PrepareHalted path w)) := by
  have hpM : path ∉ metadataNames path := notMem_metadataNames hp
  -- an error that is answered by a REJECT
  have refused {w₁ w' : Session (.alone faults crashes)}
      (hrej : Rejected w₁ w') (hlog : w₁.log = w.log)
      (h : Fs.Within ∅ (scratch path) ∅ w.fs w₁.fs) (hc : faults ∨ w.fs.Untidy path) :
      Fs.Within ∅ (scratch path) ∅ w.fs w'.fs ∧ ((faults ∨ w.fs.Untidy path) ∧
            (∃ es, Gained w es w' ∧ ∀ event ∈ es, event.Attempts .reject) ∨
          (faults ∨ ∀ p ∈ scratch path, w'.fs.names p = none) ∧
            ∃ e, Gained w [.sendFailed (Frame.new .accept []) e] w') := by
    obtain ⟨es, hg, hes⟩ := hrej.2
    exact ⟨by rwa [hrej.fs_eq], .inl ⟨hc, es, (gained_congr hlog).mp hg, hes⟩⟩
  have halted {w' : Session (.alone faults crashes)} (h : Fs.Within ∅ (scratch path) ∅ w.fs w'.fs)
      (hlog : w'.log = w.log) : PrepareHalted path w w' :=
    ⟨h, [], .of_log_eq hlog, by simp [Unverified]⟩
  refine Ensures.bind (orReject_spec (onDisk_spec removeTransferMetadata_spec)) ?_
    (fun e w' h => ?_) fun w' h => ?_
  · rintro - w₁ ⟨d₁, ⟨h₁, hM, hMt⟩, rfl⟩
    have hn₁ : d₁.fs.names path = none := by
      rw [h₁.names_eq' hpM (Set.notMem_empty _)]
      exact hn
    have first := Within.scratch_of_metadataNames h₁
    have hdir₁ := isDir_within first hdir
    have created {fs' : Fs} (h : fs' = d₁.fs ∨ d₁.fs.names path = none ∧ d₁.fs.isDir path.dropLast ∧
        fs' = d₁.fs.create path) : Fs.Within ∅ (scratch path) ∅ w.fs fs' := by
      rcases h with h | ⟨-, -, h⟩ <;> rw [h]
      · exact first
      · exact first.trans (.create (.inl rfl))
    refine Ensures.bind (orReject_spec (onDisk_spec (Storage.createRegular_spec hp))) ?_
      (fun e w' h => ?_) fun w' h => ?_
    · rintro output w₂ ⟨d₂, ⟨-, -, h₂, rfl⟩, rfl⟩
      have second : Fs.Within ∅ (scratch path) ∅ w.fs d₂.fs := created (.inr ⟨hn₁, hdir₁, h₂⟩)
      have hdir₂ := isDir_within second hdir
      have hnames₂ : d₂.fs.names = Function.update d₁.fs.names path (some (.file d₁.fs.next)) := by
        rw [h₂, Fs.names_create hp hdir₁ hn₁]
      have hdata₂ : d₂.fs.data d₁.fs.next = [] ∧ d₁.fs.next < d₂.fs.next := by
        rw [h₂]
        simp
      have hM₂ : d₂.fs.names (transferMetadataPath path) = none := by
        rw [hnames₂, Function.update_of_ne fun h => hpM (.inr h.symm), hM]
      have hMt₂ : d₂.fs.names (transferMetadataTemporaryPath path) = none := by
        rw [hnames₂, Function.update_of_ne fun h => hpM (.inl h.symm), hMt]
      have htidy₂ : ¬d₂.fs.Untidy path := Fs.not_untidy hdir₂ hM₂ hMt₂
      refine Ensures.bind (persistTransferMetadata_spec hp) ?_ (fun e w' h => ?_)
        fun w' h => ⟨second.trans h.1, h.2⟩
      · rintro ⟨⟩ w₃ ⟨h₃, htidy₃, hdesc, hlog₃⟩
        have third := second.trans (Within.scratch_of_metadataNames h₃)
        have hname₃ : w₃.fs.names path = some (.file d₁.fs.next) := by
          rw [h₃.names_eq' hpM (Set.notMem_empty _)]
          exact hnames₂ ▸ Function.update_self ..
        have hdata₃ : w₃.fs.data d₁.fs.next = [] :=
          (h₃.data _ hdata₂.2 (Set.notMem_empty _)).trans hdata₂.1
        have hsep₃ : w₃.fs.names (transferMetadataPath path) ≠ some (.file d₁.fs.next) := fun h => by
          obtain ⟨q, hq, hn⟩ := h₃.inodes _ (.inr rfl) _ hdata₂.2 h
          rcases hq with rfl | rfl
          · cases hn.symm.trans hMt₂
          · cases hn.symm.trans hM₂
        refine Ensures.bind (sendAccept_spec hp) ?_ (fun e w' h => ?_) fun w' h => ?_
        · rintro ⟨⟩ w₄ h₄
          rw [ensures_pure, post_ok, h₄.fs_eq]
          refine ⟨⟨hname₃, hdata₃, rfl, rfl, .inr rfl, hdesc hname⟩,
            ⟨rfl, first.next, third, htidy₃, hsep₃⟩, ?_⟩
          exact (gained_congr hlog₃).mp h₄.gained
        · obtain ⟨h, hc, e', hg⟩ := h
          refine ⟨third.trans h, .inr ⟨hc.imp_right fun hc => ?_, e', (gained_congr hlog₃).mp hg⟩⟩
          exact (hc.resolve_left fun hi => hi.not_file hp hname₃).resolve_left htidy₃
        · obtain ⟨h, es, hg, hv⟩ := h
          exact ⟨third.trans h, es, (gained_congr hlog₃).mp hg, hv⟩
      · obtain ⟨h, hc, es, hg, hes⟩ := h
        refine ⟨second.trans h, .inl ⟨.inl (hc.resolve_right ?_), es, hg, hes⟩⟩
        exact fun h => h.elim htidy₂ fun h => h hdir₂
    · obtain ⟨e', w₂, ⟨e'', d₂, -, ⟨h₂, hcause⟩, rfl⟩, hrej⟩ := h
      exact refused hrej rfl (created h₂) (.inl (hcause.resolve_right fun h =>
        h.elim (fun h => h hn₁) fun h => h hdir₁))
    · obtain ⟨d₂, ⟨h₂, -⟩, rfl⟩ := h
      exact halted (created h₂) rfl
  · obtain ⟨e', w₁, ⟨e'', d₁, -, ⟨h₁, hcause⟩, rfl⟩, hrej⟩ := h
    exact refused hrej rfl (Within.scratch_of_metadataNames h₁) hcause
  · obtain ⟨d₁, ⟨h₁, -⟩, rfl⟩ := h
    exact halted (Within.scratch_of_metadataNames h₁) rfl

/-- What a failed answer to RESUME leaves: the REJECTs are due to faults or to what stood in the
way, and an error that keeps the partial file is one of a restarted transfer. -/
def AnswerFailed (path : Path) (response : Frame) (e : ReceiverError)
    (w w' : Session (.alone faults crashes)) : Prop :=
  Fs.Within ∅ (scratch path) ∅ w.fs w'.fs ∧ ∃ es, Gained w es w' ∧ Unverified es ∧
    ((faults ∨ w.fs.Untidy path) ∨
      (∀ p ∈ scratch path, w'.fs.names p = none) ∧ ∀ event ∈ es, ¬event.Attempts .reject) ∧
    (shouldPreservePartial e →
      response.messageType ≠ .accept ∧ es.foldl Stage.next .preparing = .preparing)

theorem answerResume_spec {output : File} {bytes : Bytes} {matched : Bool} {response : Frame}
    (hp : path ≠ []) (hname : w.fs.names path = some (.file output.ino))
    (hdata : w.fs.data output.ino = bytes) (hne : bytes ≠ []) (happ : output.append = true)
    (hfilename : offer.filename ≠ "")
    (hmatched : matched = true →
      w.fs.transferMetadata path = some (transferMetadataForOffer offer)) :
    (answerResume path output bytes bytes.length matched (transferMetadataForOffer offer)
      response).Ensures w (Post
        (fun prepared w' =>
          response.messageType = .accept ∧ response.payload = [] ∧
              Ready path offer prepared bytes w'.fs ∧ Resumed path w.fs prepared bytes w'.fs ∧
              Gained w [] w' ∨
            response.messageType = .restart ∧ response.payload = [] ∧
              Ready path offer prepared [] w'.fs ∧ Fresh path w.fs prepared [] w'.fs ∧
              Gained w [.sent (Frame.new .accept [])] w')
        (fun e w' => AnswerFailed path response e w w') (PrepareHalted path w)) := by
  have hdir : w.fs.isDir path.dropLast := Fs.isDir_dropLast (by simp [hname])
  have discard {α : Type} {error : ReceiverError} (h : shouldPreservePartial error = false) :
      (discardAndThrow path error : Receiver _ α).Ensures w (Post (fun _ _ => False)
        (fun e w' => AnswerFailed path response e w w') (PrepareHalted path w)) := by
    refine (discardAndThrow_spec hp).mono fun o w' h' => ?_
    cases o with
    | ok => exact h'
    | err e =>
      obtain ⟨rfl, hw, hlog, hc⟩ := h'
      refine ⟨hw, [], .of_log_eq hlog, by simp [Unverified], ?_, by simp [h]⟩
      rcases hc with hc | hc | hc | hc
      · exact .inl (.inl hc)
      · exact absurd hname (hc.not_file hp)
      · exact .inl (.inr hc)
      · exact .inr ⟨hc, by simp⟩
    | halt => exact ⟨h'.1, [], .of_log_eq h'.2, by simp [Unverified]⟩
  unfold answerResume
  split
  · rename_i ht
    by_cases hpay : response.payload = []
    · rw [if_neg (not_not.mpr hpay)]
      -- a fault while the description is being renewed keeps the partial file
      have failed {e : ReceiverError} {d : Disk (.alone faults crashes)}
          (h : Fs.Within ∅ (metadataNames path) ∅ w.fs d.fs) (hc : faults ∨ w.fs.Untidy path)
          (he : shouldPreservePartial e = false) :
          AnswerFailed path response e w { w with disk := d } :=
        ⟨Within.scratch_of_metadataNames h, [], .of_log_eq rfl, by simp [Unverified], .inl hc,
          by simp [he]⟩
      have halted {d : Disk (.alone faults crashes)}
          (h : Fs.Within ∅ (metadataNames path) ∅ w.fs d.fs) :
          PrepareHalted path w { w with disk := d } :=
        ⟨Within.scratch_of_metadataNames h, [], .of_log_eq rfl, by simp [Unverified]⟩
      have resumed {d : Disk (.alone faults crashes)}
          (h : Fs.Within ∅ (metadataNames path) ∅ w.fs d.fs)
          (hu : d.fs.Untidy path → w.fs.Untidy path)
          (hd : d.fs.transferMetadata path = some (transferMetadataForOffer offer)) :
          Ready path offer ⟨output, bytes.length, bytes⟩ bytes d.fs ∧
            Resumed path w.fs ⟨output, bytes.length, bytes⟩ bytes d.fs := by
        have hn : d.fs.names path = some (.file output.ino) :=
          (h.names_eq' (notMem_metadataNames hp) (Set.notMem_empty _)).trans hname
        have hb : d.fs.data output.ino = bytes :=
          (h.data _ (w.fs.allocated _ _ hname) (Set.notMem_empty _)).trans hdata
        exact ⟨⟨hn, hb, rfl, rfl, .inl happ, hd⟩, ⟨hname, hdata, hne, h, hu⟩⟩
      refine World.ensures_onDisk_bind File.metadata_spec ?_
        (fun _ d h => failed (by rw [h.1]) (.inl h.2) rfl) fun d h => halted (by rw [h.1])
      rintro m d₁ ⟨h₁, rfl⟩
      rw [if_neg (by simp [← hdata])]
      cases matched with
      | true =>
        simp only [Bool.not_true, Bool.false_eq_true, if_false, ensures_pure, post_ok]
        refine .inl ⟨ht, hpay, ?_⟩
        obtain ⟨hr, hr'⟩ := resumed (d := d₁) (by rw [h₁]) (by rw [h₁]; exact id)
          (by rw [h₁]; exact hmatched rfl)
        exact ⟨hr, hr', .of_log_eq rfl⟩
      | false =>
        refine World.ensures_onDisk_bind writeTransferMetadata_spec (fun _ d₂ h₂ => ?_)
          (fun e d₂ h₂ => ?_) fun d₂ h₂ => ?_
        · simp only [h₁] at h₂
          obtain ⟨hr, hr'⟩ := resumed h₂.1 (fun h => absurd h h₂.2.1) (h₂.2.2 hfilename)
          rw [ensures_pure]
          exact .inl ⟨ht, hpay, hr, hr', .of_log_eq rfl⟩
        · simp only [h₁] at h₂
          exact failed h₂.1 (h₂.2.imp_right fun h => h.resolve_right fun h => h hdir) rfl
        · simp only [h₁] at h₂
          exact halted h₂.1
    · rw [if_pos hpay]
      exact Ensures.bind (discard rfl) (fun _ _ h => h.elim) (fun _ _ h => h) fun _ h => h
  · rename_i ht
    by_cases hpay : response.payload = []
    · rw [if_neg (not_not.mpr hpay)]
      have hna : response.messageType ≠ .accept := by simp [ht]
      refine Ensures.bind (orReject_spec (discardOnDisk_spec hp)) ?_ (fun e w' h => ?_)
        fun w' h => ⟨h.2.1, [], .of_log_eq h.1, by simp [Unverified]⟩
      · rintro ⟨⟩ w₁ ⟨hlog, h₁, hnone⟩
        refine (prepareFreshTransfer_spec hp (isDir_within h₁ hdir) (hnone _ (.inl rfl))
          hfilename).mono fun o w' h => ?_
        have hdir₁ : w₁.fs.isDir path.dropLast := isDir_within h₁ hdir
        have htidy₁ : ¬w₁.fs.Untidy path :=
          Fs.not_untidy hdir₁ (hnone _ (.inr (.inr rfl))) (hnone _ (.inr (.inl rfl)))
        cases o with
        | ok prepared =>
          obtain ⟨hr, hf, hg⟩ := h
          refine .inr ⟨ht, hpay, hr, hf.of_within h₁, ?_⟩
          exact (gained_congr hlog).mp hg
        | err e =>
          obtain ⟨hw, ⟨hc, es, hg, hes⟩ | ⟨hc, e', hg⟩⟩ := h
          · exact ⟨h₁.trans hw, es, (gained_congr hlog).mp hg, unverified_of_rejects hes,
              .inl (.inl (hc.resolve_right htidy₁)), fun _ => ⟨hna, foldl_next_of_rejects hes _⟩⟩
          · exact ⟨h₁.trans hw, _, (gained_congr hlog).mp hg, by simp [Unverified],
              hc.imp .inl fun h => ⟨h, by simp⟩, fun _ => ⟨hna, by simp [Stage.next]⟩⟩
        | halt =>
          obtain ⟨hw, es, hg, hv⟩ := h
          exact ⟨h₁.trans hw, es, (gained_congr hlog).mp hg, hv⟩
      · obtain ⟨e', w₁, ⟨hlog, h₁, hc⟩, hrej⟩ := h
        obtain ⟨es, hg, hes⟩ := hrej.2
        refine ⟨by rwa [hrej.fs_eq], es, (gained_congr hlog).mp hg, unverified_of_rejects hes,
          .inl (hc.imp_right fun h => h.resolve_left fun hi => hi.not_file hp hname),
          fun _ => ⟨hna, foldl_next_of_rejects hes _⟩⟩
    · rw [if_pos hpay]
      exact Ensures.bind (discard rfl) (fun _ _ h => h.elim) (fun _ _ h => h) fun _ h => h
  · by_cases hpay : response.payload = []
    · rw [if_neg (not_not.mpr hpay)]
      refine (discard rfl).mono fun o w' h => ?_
      cases o <;> first | exact h.elim | exact h
    · rw [if_pos hpay]
      exact Ensures.bind (discard rfl) (fun _ _ h => h.elim) (fun _ _ h => h) fun _ h => h
  · refine (discard rfl).mono fun o w' h => ?_
    cases o <;> first | exact h.elim | exact h

omit [Crates] in
/-- What a session that ends in `error` leaves of the partial file. -/
theorem preserveOrDiscard_spec {α : Type} {error : ReceiverError} (hp : path ≠ []) :
    (preserveOrDiscard path error : Receiver _ α).Ensures w (Post (fun _ _ => False)
      (fun e w' => e = error ∧ w'.log = w.log ∧ (shouldPreservePartial error = true ∧ w'.fs = w.fs ∨
        shouldPreservePartial error = false ∧ Fs.Within ∅ (scratch path) ∅ w.fs w'.fs ∧
          (faults ∨ w.fs.Irregular path ∨ w.fs.Untidy path ∨
            ∀ p ∈ scratch path, w'.fs.names p = none)))
      fun w' => w'.log = w.log ∧ Fs.Within ∅ (scratch path) ∅ w.fs w'.fs) := by
  unfold preserveOrDiscard
  cases he : shouldPreservePartial error with
  | true =>
    simp only [Bool.not_true, Bool.false_eq_true, if_false]
    exact ensures_throw.mpr ⟨rfl, rfl, .inl ⟨trivial, rfl⟩⟩
  | false =>
    exact Ensures.bind (tryDiscardPartialState_spec hp)
      (fun _ w' h => ensures_throw.mpr ⟨rfl, h.2.1, .inr ⟨rfl, h.1, h.2.2⟩⟩) (fun _ _ h => h.elim)
      fun w' h => ⟨h.2.1, h.1⟩

/-- A failure of the RESUME exchange itself. -/
private theorem PrepareFailed.of_negotiation {old : Bytes} {e : ProtocolIoError}
    {es : List NetEvent} {fs' : Fs} {i : ℕ} (hp : path ≠ [])
    (hname : w.fs.names path = some (.file i))
    (hes : es = [.sendFailed (resumeFrame old) e] ∨
      es = [.sent (resumeFrame old), .receiveFailed e])
    (h : shouldPreservePartial (.protocol e) = true ∧ fs' = w.fs ∨
      shouldPreservePartial (.protocol e) = false ∧ Fs.Within ∅ (scratch path) ∅ w.fs fs' ∧
        (faults ∨ w.fs.Irregular path ∨ w.fs.Untidy path ∨ ∀ p ∈ scratch path, fs'.names p = none)) :
    PrepareFailed faults path w.fs fs' (.protocol e) es := by
  have hv : Unverified es := by
    rcases hes with rfl | rfl <;> simp [Unverified, resumeFrame]
  rcases h with ⟨he, hfs⟩ | ⟨he, hw, hc⟩
  · exact .negotiating hfs he hes
  · by_cases hnone : ∀ p ∈ scratch path, fs'.names p = none
    · refine .discarded hw hnone hv ?_ ?_ fun h => by simp [he] at h
      · rcases hes with rfl | rfl <;> simp [resumeFrame]
      · rcases hes with rfl | rfl <;> simp [resumeFrame]
    · refine .unready hw ?_ hv fun h => by simp [he] at h
      rcases hc with hc | hc | hc | hc
      · exact .inl hc
      · exact absurd hname (hc.not_file hp)
      · exact .inr hc
      · exact absurd hc hnone

/-- The outcomes of preparing a transfer. -/
def PreparePost (path : Path) (offer : FileOffer) (w : Session (.alone faults crashes)) :
    Outcome ReceiverError PreparedTransfer → Session (.alone faults crashes) → Prop :=
  Post (fun prepared w' => ∃ es c, Prepared path offer w.fs prepared w'.fs es c ∧ Gained w es w')
    (fun e w' => ∃ es, PrepareFailed faults path w.fs w'.fs e es ∧ Gained w es w')
    (PrepareHalted path w)

theorem negotiateResume_spec {output : File} {bytes : Bytes} {matched : Bool} (hp : path ≠ [])
    (hname : w.fs.names path = some (.file output.ino)) (hdata : w.fs.data output.ino = bytes)
    (hne : bytes ≠ []) (happ : output.append = true) (hlen : bytes.length ≤ offer.fileSize.toNat)
    (hfilename : offer.filename ≠ "")
    (hmatched : matched = true →
      w.fs.transferMetadata path = some (transferMetadataForOffer offer)) :
    (negotiateResume path output bytes bytes.length matched
      (transferMetadataForOffer offer)).Ensures w (PreparePost path offer w) := by
  have hv : Unverified [NetEvent.sent (resumeFrame bytes)] := by simp [Unverified, resumeFrame]
  -- the connection failed
  have failed {e : ProtocolIoError} {es : List NetEvent} {w₁ : Session (.alone faults crashes)}
      (hes : es = [.sendFailed (resumeFrame bytes) e] ∨
        es = [.sent (resumeFrame bytes), .receiveFailed e])
      (hfs : w₁.fs = w.fs) (hg : Gained w es w₁) :
      (preserveOrDiscard path (.protocol e) : Receiver _ PreparedTransfer).Ensures w₁
        (PreparePost path offer w) := by
    have hv : Unverified es := by
      rcases hes with rfl | rfl <;> simp [Unverified, resumeFrame]
    refine (preserveOrDiscard_spec hp).mono fun o w' h => ?_
    rw [hfs] at h
    cases o with
    | ok => exact h.elim
    | err =>
      obtain ⟨rfl, hlog, h⟩ := h
      exact ⟨es, .of_negotiation hp hname hes h, hg.of_eq hlog hv⟩
    | halt => exact ⟨h.2, es, hg.of_eq h.1 hv, hv⟩
  unfold negotiateResume
  refine Ensures.bind_attempt send_noted (fun _ w₁ h₁ => ?_) (fun e w₁ h₁ => ?_) fun _ h => h.elim
  · rw [show Frame.new .resume _ = resumeFrame bytes from rfl] at h₁
    refine Ensures.bind_attempt receive_noted (fun response w₂ h => ?_) (fun e w₂ h => ?_)
      fun w₂ h => ?_
    · obtain ⟨h₂, hresp, -⟩ := h
      have hfs : w₂.fs = w.fs := h₂.fs_eq.trans h₁.fs_eq
      have hg : Gained w [.sent (resumeFrame bytes), .received response] w₂ :=
        h₁.gained.trans h₂.gained hv
      have hv₂ : Unverified [.sent (resumeFrame bytes), .received response] := by
        simp [Unverified, resumeFrame]
      refine (answerResume_spec hp (by rwa [hfs]) (by rwa [hfs]) hne happ hfilename
        (by rwa [hfs])).mono fun o w' h => ?_
      cases o with
      | ok prepared =>
        rw [hresp] at hg hv₂
        rcases h with ⟨ht, hpay, hready, hres, hg'⟩ | ⟨ht, hpay, hready, hfresh, hg'⟩
        · rw [ht, hpay] at hg hv₂
          rw [hfs] at hres
          exact ⟨_, _, .resumed hready hres hlen, by simpa using hg.trans hg' hv₂⟩
        · rw [ht, hpay] at hg hv₂
          rw [hfs] at hfresh
          exact ⟨_, _, .restarted hready hfresh, by simpa using hg.trans hg' hv₂⟩
      | err e =>
        obtain ⟨hw, es, hg', hes, hc, hstage⟩ := h
        rw [hfs] at hw hc
        refine ⟨_, ?_, hg.trans hg' hv₂⟩
        have hstage' : shouldPreservePartial e = true →
            stage ([.sent (resumeFrame bytes), .received response] ++ es) = .preparing := by
          intro he
          obtain ⟨hna, hfold⟩ := hstage he
          rw [stage, List.foldl_append]
          simpa [Stage.next, resumeFrame, hna] using hfold
        rcases hc with hc | ⟨hnone, hrej⟩
        · exact .unready hw hc (hv₂.append hes) fun he => .inr (hstage' he)
        · refine .discarded hw hnone (hv₂.append hes) ?_ ?_ hstage'
          · simpa [resumeFrame] using hrej
          · exact ⟨_, List.mem_cons_self, .inl (by simp [resumeFrame])⟩
      | halt =>
        obtain ⟨hw, es, hg', hes⟩ := h
        exact ⟨by rwa [hfs] at hw, _, hg.trans hg' hv₂, hv₂.append hes⟩
    · obtain ⟨e', rfl, h₂⟩ := h
      exact failed (.inr rfl) (h₂.fs_eq.trans h₁.fs_eq) (h₁.gained.trans h₂.gained hv)
    · have hfs : w₂.fs = w.fs := (congrArg Disk.fs h.1).trans h₁.fs_eq
      exact ⟨by rw [hfs], _, h₁.gained.of_eq h.2 hv, hv⟩
  · obtain ⟨e', rfl, h₁⟩ := h₁
    exact failed (.inl rfl) h₁.fs_eq h₁.gained

/-- Preparing does not depend on what was only read before. -/
private theorem PreparePost.congr {w₁ w' : Session (.alone faults crashes)}
    {o : Outcome ReceiverError PreparedTransfer} (h : PreparePost path offer w₁ o w')
    (hfs : w₁.fs = w.fs) (hlog : w₁.log = w.log) : PreparePost path offer w o w' := by
  cases o <;> simpa only [PreparePost, post_ok, post_err, post_halt, PrepareHalted, hfs,
    gained_congr hlog] using h

/-- The process was killed while it read. -/
private theorem PreparePost.halted {w' : Session (.alone faults crashes)} (hfs : w'.fs = w.fs)
    (hlog : w'.log = w.log) : PreparePost path offer w .halt w' :=
  ⟨.of_eq hfs, [], .of_log_eq hlog, by simp [Unverified]⟩

/-- A refusal after nothing was done. -/
private theorem PreparePost.refused {e : ReceiverError} {w₁ w' : Session (.alone faults crashes)}
    (h : Rejected w₁ w') (hfs : w₁.fs = w.fs) (hlog : w₁.log = w.log) :
    PreparePost path offer w (.err e) w' := by
  obtain ⟨es, hg, hes⟩ := h.2
  exact ⟨es, .refused (h.fs_eq.trans hfs) hes, (gained_congr hlog).mp hg⟩

/-- Resuming a partial file, once it is known whether the stored description matches. -/
private theorem resumeOpened_spec {i : ℕ} {bytes : Bytes} {matched : Bool}
    {d : Disk (.alone faults crashes)} (hp : path ≠ [])
    (hname : w.fs.names path = some (.file i)) (hdata : w.fs.data i = bytes) (hne : bytes ≠ [])
    (hlen : bytes.length ≤ offer.fileSize.toNat) (hfilename : offer.filename ≠ "")
    (hd : d.fs = w.fs) (hmatched : matched = true →
      w.fs.transferMetadata path = some (transferMetadataForOffer offer)) :
    (do
      let output ← storage (Storage.openPromotable path true false true false)
      let (hasher, output) ← orReject "receiver could not verify the existing partial file"
        (storage (hashFileContents (output.seek 0) bytes.length))
      negotiateResume path output hasher bytes.length matched
        (transferMetadataForOffer offer)).Ensures { w with disk := d }
          (PreparePost path offer w) := by
  refine World.ensures_onDisk_bind (Storage.openRegular_spec hp) ?_ (fun _ d₁ h => ?_)
    fun d₁ h => .halted (h.1.trans hd) rfl
  · rintro output d₁ ⟨h₁, hn, -, happ⟩
    replace h₁ : d₁.fs = w.fs := h₁.trans hd
    have hino : output.ino = i := by
      have := hn.symm.trans ((congrFun (congrArg Fs.names hd) path).trans hname)
      simpa using this
    have hseek : (output.seek 0).pos = 0 := rfl
    refine Ensures.bind (orReject_spec (onDisk_spec (hashFileContents_spec hseek))) ?_
      (fun _ w' h => ?_) fun w' h => ?_
    · rintro ⟨hasher, output'⟩ w₂ ⟨d₂, ⟨h₂, hh, -, ho⟩, rfl⟩
      replace h₂ : d₂.fs = w.fs := h₂.trans h₁
      have hhasher : hasher = bytes := by
        have : hasher = d₁.fs.data output.ino := hh
        rw [this, h₁, hino]
        exact hdata
      simp only at ho
      subst ho hhasher
      refine (negotiateResume_spec hp ?_ ?_ hne ?_ hlen hfilename ?_).mono fun o w' h =>
        h.congr h₂ rfl
      · rw [World.fs, h₂]
        exact hino ▸ hname
      · rw [World.fs, h₂]
        exact hino ▸ hdata
      · exact happ
      · rw [World.fs, h₂]
        exact hmatched
    · obtain ⟨e', w₂, ⟨e'', d₂, -, ⟨h₂, -⟩, rfl⟩, hrej⟩ := h
      exact .refused hrej (h₂.trans h₁) rfl
    · obtain ⟨d₂, ⟨h₂, -⟩, rfl⟩ := h
      exact .halted (h₂.trans h₁) rfl
  · exact ⟨[], .refused (h.1.trans hd) (by simp), .of_log_eq rfl⟩

theorem resumeTransfer_spec {i : ℕ} {bytes : Bytes} (hp : path ≠ [])
    (hname : w.fs.names path = some (.file i)) (hdata : w.fs.data i = bytes) (hne : bytes ≠ [])
    (hlen : bytes.length ≤ offer.fileSize.toNat) (hfilename : offer.filename ≠ "") :
    (resumeTransfer path bytes.length (transferMetadataForOffer offer)).Ensures w
      (PreparePost path offer w) := by
  refine World.ensures_onDisk_attempt_bind readTransferMetadata_spec (fun m d h => ?_)
    (fun _ d h => ?_) fun d h => .halted h.1 rfl
  · refine resumeOpened_spec hp hname hdata hne hlen hfilename h.1 fun hm => ?_
    have : m = transferMetadataForOffer offer := by simpa [Except.toOption] using hm
    rw [← this]
    exact h.2
  · exact resumeOpened_spec hp hname hdata hne hlen hfilename h fun hm => by
      simp [Except.toOption] at hm

/-- Starting over with what `w₁` has left of the scratch files. -/
private theorem PreparePost.of_fresh {w₁ : Session (.alone faults crashes)} (hp : path ≠ [])
    (hfilename : offer.filename ≠ "") (h : Fs.Within ∅ (scratch path) ∅ w.fs w₁.fs)
    (hlog : w₁.log = w.log) (hdir : w₁.fs.isDir path.dropLast) (hn : w₁.fs.names path = none)
    (htidy : w₁.fs.Untidy path → w.fs.Untidy path) :
    (prepareFreshTransfer path (transferMetadataForOffer offer)).Ensures w₁
      (PreparePost path offer w) := by
  refine (prepareFreshTransfer_spec hp hdir hn hfilename).mono fun o w' h' => ?_
  cases o with
  | ok prepared =>
    obtain ⟨hr, hf, hg⟩ := h'
    exact ⟨_, _, .fresh hr (hf.of_within h), (gained_congr hlog).mp hg⟩
  | err e =>
    obtain ⟨hw, ⟨hc, es, hg, hes⟩ | ⟨hc, e', hg⟩⟩ := h'
    · exact ⟨es, .unready (h.trans hw) (hc.imp_right htidy) (unverified_of_rejects hes)
        fun _ => .inl (foldl_next_of_rejects hes _), (gained_congr hlog).mp hg⟩
    · refine ⟨_, ?_, (gained_congr hlog).mp hg⟩
      have hstage : stage [.sendFailed (Frame.new .accept []) e'] = .preparing := by
        simp [stage, Stage.next]
      rcases hc with hc | hc
      · exact .unready (h.trans hw) (.inl hc) (by simp [Unverified]) fun _ => .inr hstage
      · exact .discarded (h.trans hw) hc (by simp [Unverified]) (by simp) (by simp)
          fun _ => hstage
  | halt =>
    obtain ⟨hw, es, hg, hv⟩ := h'
    exact ⟨h.trans hw, es, (gained_congr hlog).mp hg, hv⟩

theorem prepareTransfer_spec (hp : path ≠ []) (hdir : w.fs.isDir path.dropLast)
    (hfilename : offer.filename ≠ "") :
    (prepareTransfer path offer).Ensures w (PreparePost path offer w) := by
  refine World.ensures_onDisk_bind (Storage.pathExists_spec hp) ?_
    (fun _ d h => ⟨[], .refused h.1 (by simp), .of_log_eq rfl⟩) fun d h => .halted h.1 rfl
  rintro b d₁ ⟨h₁, hb⟩
  cases b with
  | false =>
    have hn : w.fs.names path = none := by
      by_contra hn
      exact absurd (hb.mpr hn) (by simp)
    simp only [Bool.not_false, if_true]
    refine PreparePost.of_fresh hp hfilename ?_ rfl ?_ ?_ ?_
    · exact .of_eq h₁
    all_goals rw [World.fs, h₁]
    · exact hdir
    · exact hn
    · exact id
  | true =>
    simp only [Bool.not_true, Bool.false_eq_true, if_false]
    refine Ensures.bind (orReject_spec (onDisk_spec (Storage.metadata_spec hp))) ?_
      (fun _ w' h => ?_) fun w' h => ?_
    · rintro m w₂ ⟨d₂, ⟨h₂, i, hi, rfl⟩, rfl⟩
      replace h₂ : d₂.fs = w.fs := h₂.trans h₁
      simp only [h₁] at hi
      simp only [h₁, Bool.not_true, Bool.false_eq_true, if_false]
      by_cases hsize : (w.fs.data i).length = 0 ∨ (w.fs.data i).length > offer.fileSize.toNat
      · rw [if_pos (by simpa using hsize)]
        refine Ensures.bind (orReject_spec (discardOnDisk_spec hp)) ?_ (fun e w' h => ?_)
          fun w' h => ?_
        · rintro ⟨⟩ w₃ ⟨hlog, h₃, hnone⟩
          rw [World.fs, h₂] at h₃
          have hdir₃ := isDir_within h₃ hdir
          exact PreparePost.of_fresh hp hfilename h₃ hlog hdir₃ (hnone _ (.inl rfl)) fun h => absurd h
            (Fs.not_untidy hdir₃ (hnone _ (.inr (.inr rfl))) (hnone _ (.inr (.inl rfl))))
        · obtain ⟨e', w₃, ⟨hlog, h₃, hc⟩, hrej⟩ := h
          rw [World.fs, h₂] at h₃ hc
          obtain ⟨es, hg, hes⟩ := hrej.2
          refine ⟨es, .unready ?_ (hc.imp_right fun h => h.resolve_left fun hirr => ?_)
            (unverified_of_rejects hes) fun _ => .inl (foldl_next_of_rejects hes _),
            (gained_congr hlog).mp hg⟩
          · rwa [hrej.fs_eq]
          · exact hirr.not_file hp hi
        · obtain ⟨hlog, h₃, -⟩ := h
          rw [World.fs, h₂] at h₃
          exact ⟨h₃, [], .of_log_eq hlog, by simp [Unverified]⟩
      · rw [if_neg (by simpa using hsize)]
        push Not at hsize
        have hi₂ : d₂.fs.names path = some (.file i) := by rwa [h₂]
        refine (resumeTransfer_spec (w := { w with disk := d₂ }) hp hi₂ ?_ ?_ hsize.2
          hfilename).mono fun o w' h => h.congr h₂ rfl
        · rw [World.fs, h₂]
        · exact fun h => hsize.1 (by rw [h]; rfl)
    · obtain ⟨e', w₂, ⟨e'', d₂, -, ⟨h₂, -⟩, rfl⟩, hrej⟩ := h
      exact .refused hrej (h₂.trans h₁) rfl
    · obtain ⟨d₂, ⟨h₂, -⟩, rfl⟩ := h
      exact .halted (h₂.trans h₁) rfl

end

end Warpfile.V02
