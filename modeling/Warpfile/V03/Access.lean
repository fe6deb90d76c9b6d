import Warpfile.V02.Access
import Warpfile.V03.Receiver

/-!
# Which names a session of WFP/0.3 uses

The destination directory is made before the offer is read. A session with an unsafe filename uses
nothing else; with a safe one it uses the names of the offered filename and Transfer ID.
-/

namespace Warpfile.V03

open Prog

variable {Γ : Setting} {U : Footprint Γ} {dest path destination : Path} {file : File}
  {T : TransferId}

/-! ### The receiver of the chunks -/

/-- The receiver is the same, and the disks do not differ for it. -/
def SameReceiver (U : Footprint Γ) (s s' : ChunkReceiverV03 × Disk Γ) : Prop :=
  s.1 = s'.1 ∧ U.rel s.2 s'.2

section

variable {ε α : Type} {V : α → Prop}

theorem respects_onFiles {p : Prog (Disk Γ) ε α} (h : p.Respects U.rel V) :
    (onFiles p).Respects (SameReceiver U) V := fun _ _ hs =>
  ⟨(h _ _ hs.2).1, ⟨hs.1, (h _ _ hs.2).2.1⟩, (h _ _ hs.2).2.2⟩

/-- What is changed is the receiver. -/
theorem respects_modify {f : ChunkReceiverV03 × Disk Γ → ChunkReceiverV03 × Disk Γ}
    (hf : ∀ receiver d d', (f (receiver, d)).1 = (f (receiver, d')).1)
    (hdisk : ∀ s, (f s).2 = s.2) :
    (modify f : Prog (ChunkReceiverV03 × Disk Γ) ε PUnit).Respects (SameReceiver U) Any := by
  rintro ⟨receiver, d⟩ ⟨receiver', d'⟩ ⟨rfl, hd⟩
  refine ⟨rfl, ⟨hf receiver d d', ?_⟩, fun _ _ => trivial⟩
  change U.rel (f (receiver, d)).2 (f (receiver, d')).2
  rw [hdisk, hdisk]
  exact hd

/-- What is read of the state is the receiver. -/
theorem respects_get {f : ChunkReceiverV03 × Disk Γ → Prog (ChunkReceiverV03 × Disk Γ) ε α}
    (hf : ∀ receiver d d', f (receiver, d) = f (receiver, d'))
    (h : ∀ receiver d, (f (receiver, d)).Respects (SameReceiver U) V) :
    (get >>= f).Respects (SameReceiver U) V := by
  refine .get ?_ fun s _ _ => h s.1 s.2
  rintro ⟨receiver, d⟩ ⟨receiver', d'⟩ ⟨rfl, -⟩
  exact hf _ _ _

theorem respects_onReceiver {receiver : ChunkReceiverV03}
    {p : Prog (ChunkReceiverV03 × Disk Γ) ε α} (h : p.Respects (SameReceiver U) Any) :
    (onReceiver receiver p).Respects U.Alike Any := by
  intro w w' hw
  obtain ⟨ho, hs, -⟩ := h (receiver, w.disk) (receiver, w'.disk) ⟨rfl, hw.disk⟩
  unfold onReceiver
  rcases hp : p (receiver, w.disk) with ⟨o, r, d⟩
  rcases hp' : p (receiver, w'.disk) with ⟨o', r', d'⟩
  rw [hp, hp'] at ho hs
  obtain rfl : o = o' := ho
  obtain rfl : r = r' := hs.1
  cases o <;> exact ⟨rfl, ⟨hs.2, hw.net, hw.log⟩, fun _ _ => trivial⟩

end

theorem respects_beginChunk {chunkStart : ChunkStartV03} :
    (ChunkReceiverV03.beginChunk chunkStart).Respects (SameReceiver U) Any :=
  respects_get (fun _ _ _ => rfl) fun _ _ => Respects.bind (V := Any) (.ofExcept fun _ _ => trivial) fun _ _ =>
    respects_modify (fun _ _ _ => rfl) fun _ => rfl

variable [Crates]

theorem respects_writeData {data : DataV03} (h : U.holds file) :
    (ChunkReceiverV03.writeData file data).Respects (SameReceiver U) Any := by
  refine respects_get (fun _ _ _ => rfl) fun receiver _ => ?_
  refine Respects.bind (V := Any) (.ofExcept fun _ _ => trivial) fun r _ => ?_
  have hseek : U.holds (file.seek data.absoluteOffset.toNat) := h
  refine (respects_onFiles (File.respects_writeAll hseek).mapErr).bind fun _ _ => ?_
  unfold ChunkReceiverV03.absorbData
  refine Respects.bind (respects_modify (fun _ _ _ => rfl) fun _ => rfl) fun _ _ => ?_
  split
  · exact .pure trivial
  · dsimp only
    split
    · exact .throw
    · exact Respects.bind (respects_modify (fun _ _ _ => rfl) fun _ => rfl) fun _ _ => .pure trivial

theorem respects_persistVerifiedChunk (h : U.Snapshot path) :
    (ChunkReceiverV03.persistVerifiedChunk file path).Respects (SameReceiver U) Any := by
  refine respects_get (fun _ _ _ => rfl) fun receiver _ => ?_
  refine Respects.bind (V := Any) (.ofExcept fun _ _ => trivial) fun verified _ => ?_
  refine Respects.bind (V := Any) (.ofExcept fun _ _ => trivial) fun candidate _ => ?_
  refine Respects.bind (V := Any) (respects_onFiles (Respects.mapErr U.fsync)) fun _ _ => ?_
  exact (respects_onFiles (respects_writeChunkState h).mapErr).bind fun _ _ =>
    respects_modify (fun _ _ _ => rfl) fun _ => rfl

theorem respects_writeAndPersist {data : DataV03} (hf : U.holds file) (h : U.Snapshot path) :
    (writeAndPersist file path data).Respects (SameReceiver U) Any := by
  refine (respects_writeData hf).bind fun verified _ => ?_
  cases verified with
  | some _ => exact respects_persistVerifiedChunk h
  | none => exact .pure trivial

/-! ### Preparing -/

/-- The partial file of a prepared session may be held. -/
structure PreparedReceiverV03.Held (U : Footprint Γ) (path : Path) (T : TransferId)
    (prepared : PreparedReceiverV03) : Prop where
  file : U.holds prepared.file
  partialPath : prepared.partialPath = path
  transferId : prepared.identity.transferId = T

omit [Crates] in
theorem respects_prepareV03PartialFile {fileSize : UInt64} (h : U.path path) :
    (prepareV03PartialFile path fileSize).Respects U.rel U.holds := by
  have opened : (openV03PartialFile path).Respects U.rel fun r => U.holds r.1 := by
    refine (Storage.respects_openRegular h).attempt.bind fun r hr => ?_
    rcases r with e | file
    · dsimp only
      split
      · exact (Storage.respects_openRegular h).bind fun _ hfile => .pure hfile
      · exact .throw
    · exact .pure (hr file rfl)
  refine opened.mapErr.bind fun r hr => ?_
  refine (File.respects_metadata hr).mapErr.bind fun metadata _ => ?_
  split
  · exact .throw
  split
  · exact (File.respects_setLen hr).mapErr.bind fun _ _ => .pure hr
  · exact .pure hr

theorem respects_prepareReceiverV03 {offer : FileOfferV03} (hp : U.path path)
    (h : U.Snapshot path) :
    (prepareReceiverV03 path offer).Respects U.rel
      (PreparedReceiverV03.Held U path offer.transferId) := by
  refine Respects.bind (V := Any) (.ofExcept fun _ _ => trivial) fun layout _ => ?_
  refine (respects_prepareChunkInventory hp h).mapErr.bind fun chunkState _ => ?_
  exact (respects_prepareV03PartialFile hp).mapErr.bind fun file hfile =>
    .pure ⟨hfile, rfl, rfl⟩

/-! ### Negotiating and receiving -/

omit [Crates] in
theorem respects_sendFrameV03 {ε : Type} {frameError : FrameError → ε}
    {protocolError : ProtocolIoError → ε} {messageType : MessageType} {payload : Bytes} :
    (sendFrameV03 frameError protocolError messageType payload : Prog (Session Γ) ε Unit).Respects
      U.Alike Any :=
  Respects.bind (V := Any) (.ofExcept fun _ _ => trivial) fun _ _ => respects_writeFrame.mapErr

omit [Crates] in
theorem respects_sendBatches {batches : List ChunkHashesBatch} :
    (sendBatches batches : Prog (Session Γ) _ Unit).Respects U.Alike Any := by
  induction batches with
  | nil => exact .pure trivial
  | cons batch batches ih =>
    exact Respects.bind (V := Any) (.ofExcept fun _ _ => trivial) fun _ _ =>
      respects_sendFrameV03.bind fun _ _ => ih

/-- The partial file of an accepted session may be held. -/
structure AcceptedReceiverV03.Held (U : Footprint Γ) (path : Path) (T : TransferId)
    (accepted : AcceptedReceiverV03) : Prop where
  file : U.holds accepted.file
  partialPath : accepted.partialPath = path
  transferId : accepted.identity.transferId = T

/-- A complete partial file may be held. -/
structure ReceivedCompleteV03.Held (U : Footprint Γ) (path : Path) (T : TransferId)
    (received : ReceivedCompleteV03) : Prop where
  file : U.holds received.file
  partialPath : received.partialPath = path
  transferId : received.identity.transferId = T

omit [Crates] in
theorem respects_negotiateInventory {prepared : PreparedReceiverV03}
    (h : prepared.Held U path T) : (negotiateInventory prepared).Respects U.Alike
      (AcceptedReceiverV03.Held U path T) := by
  refine respects_sendFrameV03.bind fun _ _ => respects_sendBatches.bind fun _ _ => ?_
  refine respects_readFrameForVersion.mapErr.bind fun response _ => ?_
  split
  · exact .throw
  split
  · exact .throw
  · exact .pure ⟨h.file, h.partialPath, h.transferId⟩

theorem respects_receiveTransferFrame {receiver : ChunkReceiverV03} (hf : U.holds file)
    (h : U.Snapshot path) :
    (receiveTransferFrame file path receiver).Respects U.Alike Any := by
  refine respects_readFrameForVersion.mapErr.bind fun frame _ => ?_
  split
  · refine Respects.bind (V := Any) (.ofExcept fun _ _ => trivial) fun chunkStart _ => ?_
    exact (respects_onReceiver respects_beginChunk).mapErr.bind fun _ _ => .pure trivial
  · refine Respects.bind (V := Any) (.ofExcept fun _ _ => trivial) fun data _ => ?_
    exact (respects_onReceiver (respects_writeAndPersist hf h)).mapErr.bind fun _ _ =>
      .pure trivial
  · exact Respects.bind (V := Any) (.ofExcept fun _ _ => trivial) fun _ _ => .pure trivial
  · exact .throw

theorem respects_receiveTransfer {accepted : AcceptedReceiverV03} (ha : accepted.Held U path T)
    (h : U.Snapshot path) : (receiveTransfer accepted).Respects U.Alike
      (ReceivedCompleteV03.Held U path T) := by
  refine Respects.bind (V := Any) (Respects.loop (W := Any) ?_ ?_ trivial) fun r _ => ?_
  · exact fun _ _ w w' hw => by rw [hw.net]
  · intro receiver _
    rw [ha.partialPath]
    refine (respects_receiveTransferFrame ha.file h).mono fun r _ => ?_
    rcases r with _ | _ <;> trivial
  · exact .pure ⟨ha.file, ha.partialPath, ha.transferId⟩

/-! ### Verifying and publishing -/

theorem respects_hashPhysicalFileV03 {expectedSize : ℕ} {expectedHash : Digest}
    (h : U.holds file) :
    (hashPhysicalFileV03 file expectedSize expectedHash).Respects U.rel Any := by
  refine (File.respects_foldReads h).mapErr.bind fun r _ => ?_
  rcases r with ⟨⟨hasher, bytesReadTotal⟩, file⟩
  dsimp only
  split
  · exact .throw
  split
  · exact .throw
  · exact .pure trivial

omit [Crates] in
theorem respects_promotePartialNoClobber {ε : Type} {destinationExists : Path → ε}
    {io : IoError → ε} (hp : U.path path) (hd : U.path destination) :
    (promotePartialNoClobber destinationExists io file path destination).Respects U.rel Any :=
  (Storage.respects_promoteLink hp hd).mapErr

theorem respects_complete {received : ReceivedCompleteV03} (hr : received.Held U path T)
    (hp : U.path path) (hd : U.path destination) (h : U.Snapshot path)
    (hreceipt : U.Receipt dest T) :
    (complete received destination (some dest)).Respects U.Alike Any := by
  have verify : (verifyCompleteFile received).Respects U.rel Any := by
    have hseek : U.holds (received.file.seek 0) := hr.file
    exact respects_hashPhysicalFileV03 hseek
  have final : (finalize received destination (some dest)).Respects U.rel Any := by
    refine Respects.bind (V := Any) (.ofExcept fun _ _ => trivial) fun _ _ => ?_
    refine verify.mapErr.bind fun _ _ => ?_
    rw [← hr.transferId] at hreceipt
    refine (respects_writeCompletionReceipt hreceipt).mapErr.bind fun _ _ => ?_
    rw [hr.partialPath]
    refine (respects_promotePartialNoClobber hp hd).bind fun _ _ => ?_
    exact (respects_removeChunkState h).attempt.bind fun _ _ => .pure trivial
  exact (Footprint.onDisk final.mapErr).bind fun _ _ => respects_sendFrameV03.bind fun _ _ =>
    .pure trivial

/-! ### Reconciling -/

omit [Crates] in
theorem respects_reconciling {α : Type} {V : α → Prop} {p : Prog (Disk Γ) IoError α}
    (h : p.Respects U.rel V) : (reconciling p).Respects U.Alike V := Footprint.onDisk h.mapErr

theorem respects_reconcileFromFinal {receipt : CompletionReceipt} (hd : U.path destination) :
    (reconcileFromFinal destination receipt).Respects U.Alike Any := by
  have verify : (verifyExistingFinalV03 destination receipt.fileSize.toNat
      receipt.blake3).Respects U.rel Any :=
    (Storage.respects_openRegular hd).mapErr.bind fun _ hfile => respects_hashPhysicalFileV03 hfile
  refine (Footprint.onDisk verify.attempt).bind fun r _ => ?_
  rcases r with e | ⟨⟩
  · exact .pure trivial
  · exact respects_sendFrameV03.bind fun _ _ => .pure trivial

theorem respects_reconcileFromPartial {receipt : CompletionReceipt} (hp : U.path path)
    (hd : U.path destination) (h : U.Snapshot path) :
    (reconcileFromPartial destination path receipt).Respects U.Alike Any := by
  have verify : (verifyPartialForPromotionV03 path receipt.fileSize.toNat
      receipt.blake3).Respects U.rel U.holds :=
    (Storage.respects_openRegular hp).mapErr.bind fun _ hfile =>
      (respects_hashPhysicalFileV03 hfile).bind fun _ _ => .pure hfile
  refine (Footprint.onDisk verify.attempt).bind fun r hr => ?_
  rcases r with e | source
  · exact .pure trivial
  · refine (Footprint.onDisk (respects_promotePartialNoClobber hp hd)).bind fun _ _ => ?_
    refine (Footprint.onDisk (respects_removeChunkState h).attempt).bind fun _ _ => ?_
    exact respects_sendFrameV03.bind fun _ _ => .pure trivial

/-- A session whose filename is not safe ends here, and one that goes on has a safe one. -/
theorem respects_reconcileCompletedTransferV03 {offer : FileOfferV03}
    (h : isSafeFilename offer.filename → U.Transfer dest offer.filename offer.transferId) :
    (reconcileCompletedTransferV03 dest offer).Respects U.Alike
      fun _ => isSafeFilename offer.filename := by
  by_cases hsafe : isSafeFilename offer.filename = true
  swap
  · refine Respects.bind (V := fun _ => False) (.ofExcept fun a ha => ?_) fun _ hf => hf.elim
    exact refuseIf_eq_ok.mp ha (by simpa using hsafe)
  have h := h hsafe
  refine Respects.bind (V := Any) (.ofExcept fun _ _ => trivial) fun _ _ => ?_
  refine Respects.mono (V := Any) ?_ fun _ _ => hsafe
  refine (respects_reconciling (Storage.respects_pathExists h.receipt.path)).bind fun found _ => ?_
  split
  swap
  · exact .pure trivial
  refine (Footprint.onDisk (respects_readCompletionReceipt h.receipt).mapErr).bind
    fun receipt _ => ?_
  refine Respects.bind (V := Any) (.ofExcept fun _ _ => trivial) fun _ _ => ?_
  refine (respects_reconciling (Storage.respects_pathExists h.final)).bind fun found _ => ?_
  split
  · exact respects_reconcileFromFinal h.final
  refine (respects_reconciling (Storage.respects_pathExists h.partialPath)).bind fun found _ => ?_
  split
  · exact respects_reconcileFromPartial h.partialPath h.final h.snapshot
  · exact .pure trivial

/-! ### A session -/

theorem respects_receiveOfferedV03 {offer : FileOfferV03}
    (h : isSafeFilename offer.filename → U.Transfer dest offer.filename offer.transferId) :
    (receiveOfferedV03 dest offer).Respects U.Alike Any := by
  refine (respects_reconcileCompletedTransferV03 h).mapErr.bind fun outcome hsafe => ?_
  have h := h hsafe
  rcases outcome with path | _
  · exact .pure trivial
  refine (Footprint.onDisk (Storage.respects_ensureDirectory h.partials).mapErr).bind
    fun _ _ => ?_
  refine (Footprint.onDisk (respects_prepareReceiverV03 h.partialPath h.snapshot).mapErr).bind
    fun prepared hprepared => ?_
  refine (respects_negotiateInventory hprepared).mapErr.bind fun accepted haccepted => ?_
  refine (respects_receiveTransfer haccepted h.snapshot).mapErr.bind fun received hreceived => ?_
  exact (respects_complete hreceived h.partialPath h.final h.snapshot h.receipt).mapErr.bind
    fun _ _ => .pure trivial

omit [Crates] in
theorem respects_receiveOfferV03 : (receiveOfferV03 : Prog (Session Γ) _ _).Respects U.Alike
    Any := by
  refine respects_readFrameForVersion.mapErr.bind fun hello _ => ?_
  refine Respects.bind (V := Any) (.ofExcept fun _ _ => trivial) fun _ _ => ?_
  refine Respects.bind (V := Any) (.ofExcept fun _ _ => trivial) fun _ _ => ?_
  refine respects_sendFrameV03.bind fun _ _ => ?_
  refine respects_readFrameForVersion.mapErr.bind fun offerFrame _ => ?_
  exact Respects.bind (V := Any) (.ofExcept fun _ _ => trivial) fun _ _ =>
    .ofExcept fun _ _ => trivial

end Warpfile.V03
