import Warpfile.Protocol.Wire
import Warpfile.Storage.Regularity
import Warpfile.V02.Course
import Warpfile.V02.Ending

/-!
# What every part of a session keeps

A receiver is made of calls on the files that leave regular files regular, and of frames that are
read and written; a sender is made of frames, and of a file that it reads. A relation that holds
across each of these holds across the whole session (`Tracks.receiveConnection`,
`Voices.sendOnce`).
-/

namespace Warpfile.V02

open Prog

/-! ### The receiver -/

section

variable {faults crashes : Bool} {S : Set Path}
  {R : Session (.alone faults crashes) → Session (.alone faults crashes) → Prop}

/-- The relation holds across all that a receiver is made of. -/
structure Tracks (S : Set Path)
    (R : Session (.alone faults crashes) → Session (.alone faults crashes) → Prop) : Prop where
  refl : Std.Refl R
  trans : IsTrans (Session (.alone faults crashes)) R
  files : ∀ {ε α : Type} {p : Prog (Disk (.alone faults crashes)) ε α}, KeepsRegular S p →
    (World.onDisk p : Prog (Session (.alone faults crashes)) ε α).Keeps R
  read : (readFrame : Prog (Session (.alone faults crashes)) _ _).Keeps R
  write : ∀ frame, (writeFrame frame : Prog (Session (.alone faults crashes)) _ _).Keeps R

/-- The files that a receiver keeps to itself. -/
def internalFiles (dest : Path) : Set Path :=
  {p | p ≠ [] ∧ (p.dropLast = partialsDirectory dest ∨ p.dropLast = receiptsDirectory dest)}

theorem notMem_internalFiles {dest q : Path} (h : q ∈ directories dest) :
    q ∉ internalFiles dest := fun hq => notMem_directories hq.1 hq.2 h

theorem scratch_subset_internalFiles {dest : Path} {filename : String} :
    scratch (partialPath dest filename) ⊆ internalFiles dest := by
  intro p hp
  have hdrop := dropLast_of_mem_scratch hp
  rw [dropLast_partialPath] at hdrop
  refine ⟨?_, .inl hdrop⟩
  intro hp0
  simp [hp0, partialsDirectory, internalDirectory] at hdrop

theorem completionReceiptTemporaryPath_mem_internalFiles {dest : Path} {T : TransferId} :
    completionReceiptTemporaryPath dest T ∈ internalFiles dest :=
  ⟨appendSuffix_ne_nil, .inr dropLast_completionReceiptTemporaryPath⟩

variable [Crates] {dest path : Path} {offer : FileOffer} {metadata : TransferMetadata}

omit [Crates] in
theorem keepsRegular_discardPartialState : KeepsRegular S
    (discardPartialState path : Prog (Disk (.alone faults crashes)) ReceiverError Unit) :=
  keepsRegular_bind (Keeps.mapErr keepsRegular_removeIfExists _) fun _ =>
    Keeps.mapErr keepsRegular_removeTransferMetadata _

omit [Crates] in
theorem keepsRegular_hashFileContents {file : File} {expectedSize : ℕ} : KeepsRegular S
    (hashFileContents file expectedSize : Prog (Disk (.alone faults crashes)) _ _) :=
  keepsRegular_bind keepsRegular_foldReads fun _ => Keeps.check keepsRegular_pure

theorem keepsRegular_verifyCompletedFile {file : File} {receipt : CompletionReceipt} :
    KeepsRegular S (verifyCompletedFile file receipt : Prog (Disk (.alone faults crashes)) _ _) :=
  keepsRegular_bind keepsRegular_metadata fun _ => Keeps.check <| Keeps.check <|
    keepsRegular_bind keepsRegular_hashFileContents fun _ => Keeps.check keepsRegular_pure

namespace Tracks

variable (h : Tracks S R)

include h

omit [Crates] in
theorem storage {α : Type} {p : Prog (Disk (.alone faults crashes)) IoError α}
    (hp : KeepsRegular S p) : (storage p : Receiver _ α).Keeps R := h.files (Keeps.mapErr hp _)

omit [Crates] in
theorem send {messageType : MessageType} {payload : Bytes} :
    (send messageType payload : Receiver (.alone faults crashes) Unit).Keeps R :=
  (h.write _).mapErr _

omit [Crates] in
theorem sendReject {code : RejectCode} {message : String} :
    (sendReject code message : Receiver (.alone faults crashes) Unit).Keeps R := by
  have := h.refl
  have := h.trans
  exact (Keeps.ofExcept _).bind fun _ => h.send

omit [Crates] in
theorem rejected {α : Type} {code : RejectCode} {message : String} {error : ReceiverError} : (do
    V02.sendReject code message
    throw error : Receiver (.alone faults crashes) α).Keeps R := by
  have := h.refl
  have := h.trans
  exact h.sendReject.bind fun _ => Keeps.throw _

omit [Crates] in
/-- What is refused where `c` holds. -/
theorem rejectIf {α : Type} {c : Prop} [Decidable c] {code : RejectCode} {message : String}
    {error : ReceiverError} {k : PUnit → Receiver (.alone faults crashes) α}
    (hk : (k ⟨⟩).Keeps R) :
    (if c then do
      V02.sendReject code message
      let r ← throw error
      k r
    else k ⟨⟩).Keeps R := by
  have := h.refl
  have := h.trans
  split
  · refine h.sendReject.bind fun _ => ?_
    intro s
    rw [ensures_bind]
    exact ensures_throw.mpr (Std.Refl.refl s)
  · exact hk

omit [Crates] in
theorem orReject {α : Type} {message : String} {p : Receiver (.alone faults crashes) α}
    (hp : p.Keeps R) : (orReject message p).Keeps R := by
  have := h.refl
  have := h.trans
  refine hp.attempt.bind fun r => ?_
  cases r with
  | error e => exact h.rejected
  | ok a => exact Keeps.pure a

omit [Crates] in
theorem tryDiscardPartialState :
    (tryDiscardPartialState path : Receiver (.alone faults crashes) Unit).Keeps R := by
  have := h.refl
  have := h.trans
  exact (h.files (Keeps.attempt keepsRegular_discardPartialState)).bind fun _ => Keeps.pure _

omit [Crates] in
theorem discardAndThrow {α : Type} {error : ReceiverError} :
    (discardAndThrow path error : Receiver (.alone faults crashes) α).Keeps R := by
  have := h.refl
  have := h.trans
  exact h.tryDiscardPartialState.bind fun _ => Keeps.throw _

omit [Crates] in
theorem preserveOrDiscard {α : Type} {error : ReceiverError} :
    (preserveOrDiscard path error : Receiver (.alone faults crashes) α).Keeps R := by
  have := h.refl
  have := h.trans
  unfold V02.preserveOrDiscard
  exact Keeps.guard h.tryDiscardPartialState (Keeps.throw _)

/-! ### A transfer that was completed before -/

theorem settleByReceipt {destination : Path} {receipt : CompletionReceipt} (hp : path ∈ S) :
    (settleByReceipt destination path receipt : Receiver (.alone faults crashes) Unit).Keeps R := by
  have := h.refl
  have := h.trans
  refine (h.storage keepsRegular_pathExists).bind fun found => ?_
  split
  · refine (h.orReject (h.storage ?_)).bind fun _ => h.tryDiscardPartialState.bind fun _ => h.send
    exact keepsRegular_bind keepsRegular_openRegular fun _ => keepsRegular_verifyCompletedFile
  refine (h.storage keepsRegular_pathExists).bind fun found => ?_
  split
  · refine (h.orReject (h.storage ?_)).bind fun source =>
      (h.storage (keepsRegular_promoteRename hp)).bind fun _ =>
        (h.files (Keeps.attempt keepsRegular_removeTransferMetadata)).bind fun _ => h.send
    exact keepsRegular_bind keepsRegular_openRegular fun _ =>
      keepsRegular_bind keepsRegular_verifyCompletedFile fun _ => keepsRegular_pure
  · exact h.rejected

theorem reconcileCompletedTransfer {destination : Path} (hp : path ∈ S) :
    (reconcileCompletedTransfer dest destination path offer :
      Receiver (.alone faults crashes) Bool).Keeps R := by
  have := h.refl
  have := h.trans
  refine (h.storage keepsRegular_pathExists).bind fun found => ?_
  split
  · exact Keeps.pure _
  refine (h.orReject (h.files (Keeps.mapErr keepsRegular_readCompletionReceipt _))).bind
    fun receipt => h.rejectIf ((h.settleByReceipt hp).bind fun _ => Keeps.pure _)

/-! ### Preparing the partial file -/

theorem prepareFreshTransfer (hp : scratch path ⊆ S) :
    (prepareFreshTransfer path metadata : Receiver (.alone faults crashes) _).Keeps R := by
  have := h.refl
  have := h.trans
  have hpersist : (persistTransferMetadata path metadata :
      Receiver (.alone faults crashes) Unit).Keeps R := by
    refine (h.files (Keeps.attempt (keepsRegular_writeTransferMetadata
      (hp (.inr (.inl rfl)))))).bind fun r => ?_
    cases r with
    | error e => exact h.tryDiscardPartialState.bind fun _ => h.rejected
    | ok => exact Keeps.pure _
  have haccept : (sendAccept path : Receiver (.alone faults crashes) Unit).Keeps R := by
    refine h.send.attempt.bind fun r => ?_
    cases r with
    | error e => exact h.discardAndThrow
    | ok => exact Keeps.pure _
  refine (h.orReject (h.files (Keeps.mapErr keepsRegular_removeTransferMetadata _))).bind
    fun _ => ?_
  refine (h.orReject (h.storage keepsRegular_openRegular)).bind fun output => ?_
  exact hpersist.bind fun _ => haccept.bind fun _ => Keeps.pure _

theorem answerResume {output : File} {hasher : Hasher} {partialSize : ℕ}
    {storedMetadataMatches : Bool} {response : Frame} (hp : scratch path ⊆ S) :
    (answerResume path output hasher partialSize storedMetadataMatches metadata response :
      Receiver (.alone faults crashes) _).Keeps R := by
  have := h.refl
  have := h.trans
  unfold V02.answerResume
  split
  · refine Keeps.guard h.discardAndThrow ?_
    refine (h.storage keepsRegular_metadata).bind fun _ => ?_
    refine Keeps.guard h.discardAndThrow (Keeps.guard ?_ (Keeps.pure _))
    exact h.files (Keeps.mapErr (keepsRegular_writeTransferMetadata (hp (.inr (.inl rfl)))) _)
  · refine Keeps.guard h.discardAndThrow ?_
    exact (h.orReject (h.files keepsRegular_discardPartialState)).bind
      fun _ => h.prepareFreshTransfer hp
  · exact Keeps.guard h.discardAndThrow h.discardAndThrow
  · exact h.discardAndThrow

theorem resumeTransfer {partialSize : ℕ} (hp : scratch path ⊆ S) :
    (resumeTransfer path partialSize metadata : Receiver (.alone faults crashes) _).Keeps R := by
  have := h.refl
  have := h.trans
  refine (h.files (Keeps.attempt keepsRegular_readTransferMetadata)).bind fun _ => ?_
  refine (h.storage keepsRegular_openRegular).bind fun output => ?_
  refine (h.orReject (h.storage keepsRegular_hashFileContents)).bind fun r => ?_
  refine h.send.attempt.bind fun sent => ?_
  cases sent with
  | error e => exact h.preserveOrDiscard
  | ok =>
    refine (h.read.mapErr _).attempt.bind fun response => ?_
    cases response with
    | error e => exact h.preserveOrDiscard
    | ok frame => exact h.answerResume hp

theorem prepareTransfer (hp : scratch path ⊆ S) :
    (prepareTransfer path offer : Receiver (.alone faults crashes) _).Keeps R := by
  have := h.refl
  have := h.trans
  unfold V02.prepareTransfer
  refine (h.storage keepsRegular_pathExists).bind fun found => ?_
  split
  · exact h.prepareFreshTransfer hp
  refine (h.orReject (h.storage keepsRegular_metadataAt)).bind fun partialMetadata => ?_
  refine h.rejectIf ?_
  dsimp only
  split
  · exact (h.orReject (h.files keepsRegular_discardPartialState)).bind
      fun _ => h.prepareFreshTransfer hp
  · exact h.resumeTransfer hp

/-! ### Receiving -/

omit [Crates] in
theorem receiveDataFrame {expectedSize : ℕ} {progress : Progress} :
    (receiveDataFrame expectedSize progress : Receiver (.alone faults crashes) _).Keeps R := by
  have := h.refl
  have := h.trans
  refine (h.read.mapErr _).bind fun frame => ?_
  split
  · exact Keeps.check (Keeps.check ((h.storage keepsRegular_writeAll).bind fun _ => Keeps.pure _))
  · exact Keeps.check (Keeps.pure _)
  · exact Keeps.check (Keeps.throw _)
  · exact Keeps.throw _

theorem receiveFileData {file : File} {expectedSize initialBytesReceived : ℕ} {hasher : Hasher} :
    (receiveFileData file expectedSize initialBytesReceived hasher :
      Receiver (.alone faults crashes) _).Keeps R := by
  have := h.refl
  have := h.trans
  unfold V02.receiveFileData
  refine Keeps.check ?_
  refine (Keeps.loop (fun _ => h.receiveDataFrame) _).bind fun r => ?_
  exact (h.storage keepsRegular_fsync).bind fun _ => Keeps.check (Keeps.check (Keeps.pure _))

omit [Crates] in
theorem receiveOffer : (receiveOffer : Receiver (.alone faults crashes) FileOffer).Keeps R := by
  have := h.refl
  have := h.trans
  refine (h.read.mapErr _).bind fun hello => Keeps.check (Keeps.check ?_)
  refine h.send.bind fun _ => (h.read.mapErr _).bind fun frame => Keeps.check ?_
  exact (Keeps.ofExcept _).bind fun offer => h.rejectIf (Keeps.pure _)

/-- **A whole session**, where the relation covers the files that a receiver keeps to itself. -/
theorem receiveConnection (hS : S = internalFiles dest) :
    (receiveConnection dest : Receiver (.alone faults crashes) Unit).Keeps R := by
  have := h.refl
  have := h.trans
  have made {p : Path} (hp : Fs.chain p ⊆ directories dest) : KeepsRegular S
      (Storage.ensureDirectory p : Prog (Disk (.alone faults crashes)) _ _) := by
    refine keepsRegular_ensureDirectory fun q hq => ?_
    rw [hS]
    exact notMem_internalFiles (hp hq)
  have hdest : Fs.chain dest ⊆ directories dest := fun q hq =>
    .inl ⟨hq.1, hq.2.trans prefix_partialsDirectory⟩
  refine h.receiveOffer.bind fun offer => ?_
  have hscratch : scratch (partialPath dest offer.filename) ⊆ S := by
    rw [hS]
    exact scratch_subset_internalFiles
  have hpath : partialPath dest offer.filename ∈ S := hscratch (.inl rfl)
  refine (h.orReject (h.storage (made hdest))).bind fun _ => ?_
  refine (h.reconcileCompletedTransfer hpath).bind fun settled => ?_
  split
  · exact Keeps.pure _
  refine (h.storage keepsRegular_pathExists).bind fun found => h.rejectIf ?_
  refine (h.orReject (h.storage (made Set.subset_union_left))).bind fun _ => ?_
  refine (h.prepareTransfer hscratch).bind fun prepared =>
    h.receiveFileData.attempt.bind fun r => ?_
  cases r with
  | error e => exact h.preserveOrDiscard
  | ok completed =>
    refine (h.files (Keeps.mapErr (keepsRegular_writeReceipt ?_ ?_) _)).bind fun _ =>
      (h.storage (keepsRegular_promoteRename hpath)).bind fun _ =>
        (h.files (Keeps.attempt keepsRegular_removeTransferMetadata)).bind fun _ => h.send
    · intro q hq
      rw [hS]
      exact notMem_internalFiles (.inr hq)
    · rw [hS]
      exact completionReceiptTemporaryPath_mem_internalFiles

end Tracks

end

/-! ### The sender -/

section

variable {Γ : Setting} {R : Session Γ → Session Γ → Prop} {offer : FileOffer}

/-- A relation of sessions, whatever becomes of the file. -/
def OnStream (R : Session Γ → Session Γ → Prop) (s t : Session Γ × SourceFile) : Prop := R s.1 t.1

instance [Std.Refl R] : Std.Refl (OnStream R) := ⟨fun s => Std.Refl.refl s.1⟩

instance [IsTrans (Session Γ) R] : IsTrans (Session Γ × SourceFile) (OnStream R) :=
  ⟨fun s t u (h : R s.1 t.1) (h' : R t.1 u.1) => (IsTrans.trans s.1 t.1 u.1 h h' : R s.1 u.1)⟩

theorem keeps_onStream {ε α : Type} {p : Prog (Session Γ) ε α} (hp : p.Keeps R) :
    (onStream p).Keeps (OnStream R) := fun s => by
  rw [ensures_onStream]
  exact hp s.1

/-- The relation holds across all that a sender of the offer is made of. -/
structure Voices (offer : FileOffer) (R : Session Γ → Session Γ → Prop) : Prop where
  refl : Std.Refl R
  trans : IsTrans (Session Γ) R
  read : (readFrame : Prog (Session Γ) _ _).Keeps R
  write : ∀ t payload, (t = .offer → encodeOffer offer = .ok payload) →
    (writeFrame (Frame.new t payload) : Prog (Session Γ) _ _).Keeps R

namespace Voices

variable (h : Voices offer R)

include h

theorem onSource {α : Type} {p : Prog SourceFile IoError α} :
    (onSource p : Sender Γ α).Keeps (OnStream R) := fun s => by
  have := h.refl
  rw [V02.onSource, ensures_onFile]
  exact Prog.Ensures.mono (ensures_of_eq (Q := fun _ _ => True) rfl trivial)
    fun _ _ _ => Std.Refl.refl s.1

theorem sendFrame {t : MessageType} {payload : Bytes} (ht : t ≠ .offer) :
    (sendFrame (Frame.new t payload) : Sender Γ Unit).Keeps (OnStream R) :=
  keeps_onStream ((h.write t payload fun h => absurd h ht).mapErr _)

theorem receiveFrame : (receiveFrame : Sender Γ Frame).Keeps (OnStream R) :=
  keeps_onStream (h.read.mapErr _)

theorem rejected {α : Type} {what : String} {response : Frame} :
    (rejected what response : Sender Γ α).Keeps (OnStream R) := by
  have := h.refl
  have := h.trans
  exact (Keeps.ofExcept _).bind fun _ => Keeps.throw _

theorem hashPrefix {hasher : Hasher} {prefixLength : ℕ} :
    (hashPrefix hasher prefixLength : Sender Γ Hasher).Keeps (OnStream R) := by
  have := h.refl
  have := h.trans
  refine Keeps.loop (fun b => ?_) _
  obtain ⟨hasher, remaining⟩ := b
  dsimp only
  split
  · refine h.onSource.bind fun bytes => ?_
    split
    · exact Keeps.throw _
    · exact Keeps.pure _
  · exact Keeps.pure _

theorem requestRestart : (requestRestart : Sender Γ (ℕ × Hasher)).Keeps (OnStream R) := by
  have := h.refl
  have := h.trans
  refine (h.sendFrame (by simp)).bind fun _ => Keeps.bind ?_ fun _ => h.onSource.bind fun _ =>
    Keeps.pure _
  refine h.receiveFrame.bind fun response => ?_
  split
  · exact Keeps.ofExcept _
  · exact h.rejected
  · exact Keeps.throw _

theorem cancelTransfer {α : Type} {signalResult : Except IoError Unit} :
    (cancelTransfer signalResult : Sender Γ α).Keeps (OnStream R) := by
  have := h.refl
  have := h.trans
  refine (Keeps.ofExcept _).bind fun _ => Keeps.bind ?_ fun _ => Keeps.throw _
  exact keeps_onStream ((h.write .cancel [] (by simp)).mapErr _)

theorem sendDataFrame {progress : SendProgress} :
    (sendDataFrame progress : Sender Γ _).Keeps (OnStream R) := by
  have := h.refl
  have := h.trans
  refine h.onSource.bind fun signal => ?_
  cases signal with
  | some signalResult => exact h.cancelTransfer
  | none =>
    refine h.onSource.bind fun bytes => ?_
    split
    · exact Keeps.pure _
    · exact (h.sendFrame (by simp)).bind fun _ => Keeps.check (Keeps.check (Keeps.pure _))

theorem sendOffer :
    (sendOffer offer.filename offer.fileSize offer.transferId : Sender Γ Unit).Keeps
      (OnStream R) := by
  have := h.refl
  have := h.trans
  refine (h.sendFrame (by simp)).bind fun _ => h.receiveFrame.bind fun response =>
    Keeps.check (Keeps.check fun s => ?_)
  rw [ensures_bind, ensures_ofExcept]
  cases he : encodeOffer offer with
  | error e => exact Std.Refl.refl s.1
  | ok payload =>
    simp only [Except.mapError]
    exact keeps_onStream ((h.write .offer payload fun _ => he).mapErr _) s

variable [Crates]

theorem answerOffer {fileSize : UInt64} {response : Frame} :
    (answerOffer fileSize response : Sender Γ _).Keeps (OnStream R) := by
  have := h.refl
  have := h.trans
  unfold V02.answerOffer
  split
  · exact (Keeps.ofExcept _).bind fun _ => Keeps.pure _
  · exact h.rejected
  · refine (Keeps.ofExcept _).bind fun resume => ?_
    unfold Sender.negotiateResume
    split
    · exact h.requestRestart
    · refine h.hashPrefix.bind fun hasher => ?_
      split
      · exact (h.sendFrame (by simp)).bind fun _ => Keeps.pure _
      · exact h.requestRestart
  · exact Keeps.throw _

theorem sendFrom {fileSize : UInt64} {resumeOffset : ℕ} {hasher : Hasher} :
    (sendFrom fileSize resumeOffset hasher : Sender Γ Unit).Keeps (OnStream R) := by
  have := h.refl
  have := h.trans
  unfold V02.sendFrom
  refine Keeps.check ((Keeps.loop (fun _ => h.sendDataFrame) _).bind fun progress =>
    Keeps.check ?_)
  exact (h.sendFrame (by simp)).bind fun _ => h.receiveFrame.bind fun response =>
    Keeps.check (Keeps.ofExcept _)

/-- **A whole attempt.** -/
theorem sendOnce {connected : Except IoError Unit} :
    (sendOnce offer.filename offer.fileSize offer.transferId connected : Sender Γ Unit).Keeps
      (OnStream R) := by
  have := h.refl
  have := h.trans
  refine (Keeps.ofExcept _).bind fun _ => h.sendOffer.bind fun _ =>
    h.receiveFrame.bind fun response => ?_
  split
  · exact Keeps.ofExcept _
  · exact h.onSource.bind fun _ => h.answerOffer.bind fun r => h.sendFrom

end Voices

end

end Warpfile.V02
