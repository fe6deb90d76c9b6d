import Warpfile.Storage.Access
import Warpfile.V02.Receiver

/-!
# Which names a session of WFP/0.2 uses

After its offer a session uses the names of the offered filename and of the offered Transfer ID,
and the directories they stand in.
-/

namespace Warpfile

open Prog

variable {Γ : Setting} {U : Footprint Γ}

/-! ### Frames -/

theorem respects_logged {ε α : Type} {V : α → Prop} {p : Prog (Session Γ) ε α} {ok : α → NetEvent}
    {err : ε → NetEvent} (h : p.Respects U.Alike V) : (logged p ok err).Respects U.Alike V := by
  refine h.attempt.bind fun r hr => ?_
  rcases r with e | a
  · exact Footprint.note.bind fun _ _ => .throw
  · exact Footprint.note.bind fun _ _ => .pure (hr a rfl)

theorem respects_writeFrame {frame : Frame} : (writeFrame frame).Respects U.Alike Any :=
  respects_logged ((Respects.ofExcept fun _ _ => trivial).bind (V := Any) fun _ _ =>
    Footprint.writeAll.mapErr)

theorem respects_readFrameForVersion {version : UInt8} :
    (readFrameForVersion version).Respects U.Alike Any := by
  refine respects_logged (Footprint.readExact.mapErr.bind fun header _ =>
    (Respects.ofExcept fun _ _ => trivial).bind (V := Any) fun frameHeader _ => ?_)
  split
  · exact Footprint.readExact.mapErr.bind fun _ _ => .ofExcept fun _ _ => trivial
  · exact (Respects.pure trivial).bind (V := Any) fun _ _ => .ofExcept fun _ _ => trivial

/-- The names of a transfer, and the directories they stand in. -/
structure Footprint.Transfer (U : Footprint Γ) (dest : Path) (filename : String) (T : TransferId) :
    Prop where
  destination : ∀ q ∈ Fs.chain dest, U.path q
  partials : ∀ q ∈ Fs.chain (partialsDirectory dest), U.path q
  final : U.path (finalPath dest filename)
  partialPath : U.path (partialPath dest filename)
  description : U.Description (Warpfile.partialPath dest filename)
  snapshot : U.Snapshot (Warpfile.partialPath dest filename)
  receipt : U.Receipt dest T

namespace V02

variable {dest destination path : Path} {file : File} {receipt : CompletionReceipt}
  {offer : FileOffer} {metadata : TransferMetadata}

/-! ### Writing and discarding -/

theorem respects_storage {α : Type} {V : α → Prop} {p : Prog (Disk Γ) IoError α}
    (h : p.Respects U.rel V) : (storage p).Respects U.Alike V := Footprint.onDisk h.mapErr

theorem respects_send {messageType : MessageType} {payload : Bytes} :
    (send messageType payload : Receiver Γ Unit).Respects U.Alike Any := respects_writeFrame.mapErr

theorem respects_sendReject {code : RejectCode} {message : String} :
    (sendReject code message : Receiver Γ Unit).Respects U.Alike Any :=
  (Respects.ofExcept fun _ _ => trivial).bind (V := Any) fun _ _ => respects_send

theorem respects_rejected {α : Type} {V : α → Prop} {code : RejectCode} {message : String}
    {error : ReceiverError} : (do
      sendReject code message
      throw error : Receiver Γ α).Respects U.Alike V :=
  respects_sendReject.bind fun _ _ => .throw

/-- What is refused where `c` holds. -/
theorem respects_rejectIf {α : Type} {V : α → Prop} {c : Prop} [Decidable c] {code : RejectCode}
    {message : String} {error : ReceiverError} {k : PUnit → Receiver Γ α}
    (hk : (k ⟨⟩).Respects U.Alike V) :
    (if c then do
      sendReject code message
      let r ← throw error
      k r
    else k ⟨⟩).Respects U.Alike V := by
  split
  · exact respects_sendReject.bind fun _ _ => .throw_bind
  · exact hk

theorem respects_orReject {α : Type} {V : α → Prop} {message : String} {p : Receiver Γ α}
    (h : p.Respects U.Alike V) : (orReject message p).Respects U.Alike V := by
  refine h.attempt.bind fun r hr => ?_
  rcases r with e | a
  · exact respects_rejected
  · exact .pure (hr a rfl)

/-- The names of a partial file and its description. -/
structure Partial (U : Footprint Γ) (partialPath : Path) : Prop where
  path : U.path partialPath
  description : U.Description partialPath

theorem respects_discardPartialState (h : Partial U path) :
    (discardPartialState path).Respects U.rel Any :=
  (Storage.respects_removeIfExists h.path).mapErr.bind fun _ _ =>
    (respects_removeTransferMetadata h.description).mapErr

theorem respects_tryDiscardPartialState (h : Partial U path) :
    (tryDiscardPartialState path : Receiver Γ Unit).Respects U.Alike Any :=
  (Footprint.onDisk (respects_discardPartialState h).attempt).bind fun _ _ => .pure trivial

theorem respects_discardAndThrow {α : Type} {V : α → Prop} {error : ReceiverError}
    (h : Partial U path) :
    (discardAndThrow path error : Receiver Γ α).Respects U.Alike V :=
  (respects_tryDiscardPartialState h).bind fun _ _ => .throw

/-! ### Verifying files -/

theorem respects_hashFileContents {expectedSize : ℕ} (h : U.holds file) :
    (hashFileContents file expectedSize).Respects U.rel fun r => U.holds r.2 :=
  (File.respects_foldReads h).bind fun _ hr => .check (.pure hr)

section

variable [Crates]

theorem respects_verifyCompletedFile (h : U.holds file) :
    (verifyCompletedFile file receipt).Respects U.rel Any :=
  (File.respects_metadata h).bind fun _ _ => .check (.check
    ((respects_hashFileContents h).bind fun _ _ => .check (.pure trivial)))

/-! ### A transfer that was completed before -/

theorem respects_settleByReceipt (hd : U.path destination) (h : Partial U path) :
    (settleByReceipt destination path receipt : Receiver Γ Unit).Respects U.Alike Any := by
  have final : (settleFromFinal destination path receipt : Receiver Γ Unit).Respects U.Alike
      Any := by
    refine (respects_orReject (respects_storage (V := Any) ?_)).bind fun _ _ =>
      (respects_tryDiscardPartialState h).bind fun _ _ => respects_send
    exact (Storage.respects_openRegular hd).bind fun _ hfile => respects_verifyCompletedFile hfile
  have part : (settleFromPartial destination path receipt : Receiver Γ Unit).Respects U.Alike
      Any := by
    refine (respects_orReject (respects_storage (V := U.holds) ?_)).bind fun source _ =>
      (respects_storage (Storage.respects_promoteRename h.path hd)).bind fun _ _ =>
        (Footprint.onDisk (respects_removeTransferMetadata h.description).attempt).bind
          fun _ _ => respects_send
    exact (Storage.respects_openRegular h.path).bind fun _ hfile =>
      (respects_verifyCompletedFile hfile).bind fun _ _ => .pure hfile
  refine (respects_storage (Storage.respects_pathExists hd)).bind fun found _ => ?_
  split
  · exact final
  refine (respects_storage (Storage.respects_pathExists h.path)).bind fun found _ => ?_
  split
  · exact part
  · exact respects_rejected

theorem respects_reconcileCompletedTransfer (hd : U.path destination) (h : Partial U path)
    (hr : U.Receipt dest offer.transferId) :
    (reconcileCompletedTransfer dest destination path offer : Receiver Γ Bool).Respects
      U.Alike Any := by
  refine (respects_storage (Storage.respects_pathExists hr.path)).bind fun found _ => ?_
  split
  · exact .pure trivial
  refine Respects.bind (V := Any) (respects_orReject
    (Footprint.onDisk (respects_readCompletionReceipt hr).mapErr)) fun receipt _ => ?_
  exact respects_rejectIf ((respects_settleByReceipt hd h).bind fun _ _ => .pure trivial)

/-! ### Preparing the partial file -/

/-- The output of a prepared transfer may be held. -/
abbrev PreparedTransfer.Held (U : Footprint Γ) (prepared : PreparedTransfer) : Prop :=
  U.holds prepared.output

theorem respects_prepareFreshTransfer (h : Partial U path) :
    (prepareFreshTransfer path metadata : Receiver Γ _).Respects U.Alike
      (PreparedTransfer.Held U) := by
  have hpersist : (persistTransferMetadata path metadata : Receiver Γ Unit).Respects U.Alike
      Any := by
    refine (Footprint.onDisk (respects_writeTransferMetadata h.description).attempt).bind
      fun r _ => ?_
    rcases r with e | ⟨⟩
    · exact (respects_tryDiscardPartialState h).bind fun _ _ => respects_rejected
    · exact .pure trivial
  have haccept : (sendAccept path : Receiver Γ Unit).Respects U.Alike Any := by
    refine respects_send.attempt.bind fun r _ => ?_
    rcases r with e | ⟨⟩
    · exact respects_discardAndThrow h
    · exact .pure trivial
  refine Respects.bind (V := Any) (respects_orReject (Footprint.onDisk
    (respects_removeTransferMetadata h.description).mapErr)) fun _ _ => ?_
  refine Respects.bind (V := U.holds) (respects_orReject
    (respects_storage (Storage.respects_openRegular h.path))) fun output houtput => ?_
  exact hpersist.bind fun _ _ => haccept.bind fun _ _ => .pure houtput

theorem respects_answerResume {hasher : Hasher} {partialSize : ℕ} {storedMetadataMatches : Bool}
    {response : Frame} (h : Partial U path) (hfile : U.holds file) :
    (answerResume path file hasher partialSize storedMetadataMatches metadata response :
      Receiver Γ _).Respects U.Alike (PreparedTransfer.Held U) := by
  have discard {message : String} {kind : ErrorKind} :
      (discardAndThrow path (.new kind message) : Receiver Γ Unit).Respects U.Alike Any :=
    respects_discardAndThrow h
  unfold answerResume
  split
  · refine .guard (fun _ => discard) ?_
    refine (respects_storage (File.respects_metadata hfile)).bind fun _ _ => ?_
    refine .guard (fun _ => discard) ?_
    refine .guard (fun _ => ?_) (.pure hfile)
    exact Footprint.onDisk (respects_writeTransferMetadata h.description).mapErr
  · refine .guard (fun _ => discard) ?_
    refine Respects.bind (V := Any) (respects_orReject
      (Footprint.onDisk (respects_discardPartialState h))) fun _ _ => ?_
    exact respects_prepareFreshTransfer h
  · refine .guard (fun _ => discard) ?_
    exact respects_discardAndThrow h
  · exact respects_discardAndThrow h

omit [Crates] in
theorem respects_preserveOrDiscard {α : Type} {V : α → Prop} {error : ReceiverError}
    (h : Partial U path) :
    (preserveOrDiscard path error : Receiver Γ α).Respects U.Alike V :=
  .guard (fun _ => respects_tryDiscardPartialState h) .throw

theorem respects_resumeTransfer {partialSize : ℕ} (h : Partial U path) :
    (resumeTransfer path partialSize metadata : Receiver Γ _).Respects U.Alike
      (PreparedTransfer.Held U) := by
  refine (Footprint.onDisk (respects_readTransferMetadata h.description).attempt).bind
    fun _ _ => ?_
  refine (respects_storage (Storage.respects_openRegular h.path)).bind fun output houtput => ?_
  have hseek : U.holds (output.seek 0) := houtput
  refine Respects.bind (V := fun r : Hasher × File => U.holds r.2)
    (respects_orReject (respects_storage (respects_hashFileContents hseek))) fun r hr => ?_
  refine respects_send.attempt.bind fun sent _ => ?_
  rcases sent with e | ⟨⟩
  · exact respects_preserveOrDiscard h
  refine respects_readFrameForVersion.mapErr.attempt.bind fun response _ => ?_
  rcases response with e | frame
  · exact respects_preserveOrDiscard h
  · exact respects_answerResume h hr

theorem respects_prepareTransfer (h : Partial U path) :
    (prepareTransfer path offer : Receiver Γ _).Respects U.Alike (PreparedTransfer.Held U) := by
  unfold prepareTransfer
  refine (respects_storage (Storage.respects_pathExists h.path)).bind fun found _ => ?_
  split
  · exact respects_prepareFreshTransfer h
  refine Respects.bind (V := Any) (respects_orReject
    (respects_storage (Storage.respects_metadata h.path))) fun partialMetadata _ => ?_
  refine respects_rejectIf ?_
  dsimp only
  split
  · exact Respects.bind (V := Any) (respects_orReject
      (Footprint.onDisk (respects_discardPartialState h))) fun _ _ =>
        respects_prepareFreshTransfer h
  · exact respects_resumeTransfer h

/-! ### Receiving -/

omit [Crates] in
theorem respects_receiveDataFrame {expectedSize : ℕ} {progress : Progress}
    (h : U.holds progress.output) :
    (receiveDataFrame expectedSize progress : Receiver Γ _).Respects U.Alike
      (Sum.elim (fun progress => U.holds progress.output) fun r => U.holds r.1.output) := by
  refine respects_readFrameForVersion.mapErr.bind fun frame _ => ?_
  split
  · refine .check (.check ?_)
    exact (respects_storage (File.respects_writeAll h)).bind fun _ houtput => .pure houtput
  · exact .check (.pure h)
  · exact .check .throw
  · exact .throw

theorem respects_receiveFileData {expectedSize initialBytesReceived : ℕ} {hasher : Hasher}
    (h : U.holds file) :
    (receiveFileData file expectedSize initialBytesReceived hasher : Receiver Γ _).Respects U.Alike
      fun completed => U.holds completed.source := by
  refine .check ?_
  refine Respects.bind (V := fun r : Progress × Bytes => U.holds r.1.output)
    (Respects.loop (W := fun progress : Progress => U.holds progress.output) ?_ ?_ h)
    fun r hr => ?_
  · exact fun _ _ w w' hw => by rw [hw.net]
  · exact fun _ hprogress => respects_receiveDataFrame hprogress
  · refine (respects_storage File.respects_syncAll).bind fun _ _ => .check (.check ?_)
    exact .pure hr

/-! ### A session -/

/-- What is done with an offer stays within the names of its transfer. -/
theorem respects_receiveOffered (h : U.Transfer dest offer.filename offer.transferId) :
    (receiveOffered dest offer : Receiver Γ Unit).Respects U.Alike Any := by
  have hpartial : Partial U (partialPath dest offer.filename) := ⟨h.partialPath, h.description⟩
  refine Respects.bind (V := Any) (respects_orReject (respects_storage
    (Storage.respects_ensureDirectory h.destination))) fun _ _ => ?_
  refine (respects_reconcileCompletedTransfer h.final hpartial h.receipt).bind fun settled _ => ?_
  split
  · exact .pure trivial
  refine (respects_storage (Storage.respects_pathExists h.final)).bind fun found _ => ?_
  refine respects_rejectIf ?_
  refine Respects.bind (V := Any) (respects_orReject (respects_storage
    (Storage.respects_ensureDirectory h.partials))) fun _ _ => ?_
  refine (respects_prepareTransfer hpartial).bind fun prepared hprepared => ?_
  refine (respects_receiveFileData hprepared).attempt.bind fun r hr => ?_
  rcases r with e | completed
  · exact respects_preserveOrDiscard hpartial
  · refine (Footprint.onDisk (respects_writeCompletionReceipt h.receipt).mapErr).bind fun _ _ => ?_
    refine (respects_storage (Storage.respects_promoteRename h.partialPath h.final)).bind
      fun _ _ => ?_
    exact (Footprint.onDisk (respects_removeTransferMetadata h.description).attempt).bind
      fun _ _ => respects_send

omit [Crates] in
theorem respects_receiveOffer : (receiveOffer : Receiver Γ FileOffer).Respects U.Alike
    fun offer => isSafeFilename offer.filename := by
  unfold receiveOffer
  refine respects_readFrameForVersion.mapErr.bind fun hello _ => .check (.check ?_)
  refine respects_send.bind fun _ _ => respects_readFrameForVersion.mapErr.bind fun frame _ => ?_
  refine .check (Respects.bind (V := Any) (.ofExcept fun _ _ => trivial) fun offer _ => ?_)
  by_cases hsafe : isSafeFilename offer.filename = true
  · simp only [hsafe]
    exact .pure hsafe
  · simp only [hsafe]
    exact respects_sendReject.bind fun _ _ => .throw_bind

end

end V02

end Warpfile
