import Warpfile.Storage.Promotion
import Warpfile.V02.Transfer
import Warpfile.V03.Completion

/-!
# The published object is the one that was hashed

The operations that publish a file hash it, or write it, through a handle and publish it by name,
while other programs may do anything to the names. For each of them `PinnedPublication` follows a
run that reports success back to the moment of its validation: there the published name denotes
the inode of the handle. Only a receipt may also be there before, and is then read back.
-/

namespace Warpfile

open Prog

variable {Γ : Setting}

/-- The promotion returned, and what it found at `destination` in the end is the pinned file. -/
structure Promoted (promote : Prog (Disk Γ) IoError Unit) (pinned : File) (destination : Path)
    (d d' : Disk Γ) : Prop where
  returns : promote.Returns d () d'
  names : d'.fs.names destination = some (.file pinned.ino)

/-- The file behind the handle holds what the hasher absorbed, and other programs do not write to
it. -/
structure UpToDate (file : File) (hasher : Bytes) (d : Disk Γ) : Prop where
  rely : d.Rely (Fs.Spares file.ino)
  data : d.fs.data file.ino = hasher
  at_end : file.append = true ∨ file.pos = hasher.length

section

variable [Crates]

/-- The temporary file of a receipt is published, or a receipt is there that reads back equal. -/
def ReceiptPublished (source : File) (temporaryPath destinationDirectory : Path)
    (receipt : CompletionReceipt) (d d' : Disk Γ) : Prop :=
  let path := completionReceiptPath destinationDirectory receipt.transferId
  Promoted (Storage.promoteRenameNoReplace source temporaryPath path) source path d d' ∨
    ∃ error d₁, Storage.promoteRenameNoReplace source temporaryPath path d = (.err error, d₁) ∧
      error.kind = .alreadyExists ∧
      (readCompletionReceipt destinationDirectory receipt.transferId).Returns d₁ receipt d'

/-- A receipt is found that reads back equal, or it is written to a new file and published. -/
def ReceiptWritten (destinationDirectory : Path) (receipt : CompletionReceipt) (d d' : Disk Γ) :
    Prop :=
  let path := completionReceiptPath destinationDirectory receipt.transferId
  let temporaryPath := completionReceiptTemporaryPath destinationDirectory receipt.transferId
  ∃ d₁ d₂ found, (Storage.ensureDirectory path.dropLast).Returns d () d₁ ∧
    (Storage.pathExists path).Returns d₁ found d₂ ∧
    if found then
      (readCompletionReceipt destinationDirectory receipt.transferId).Returns d₂ receipt d'
    else
      ∃ source d₃, (Storage.writeTemporary temporaryPath (encodeCompletionReceipt receipt)).Returns
        d₂ source d₃ ∧ ReceiptPublished source temporaryPath destinationDirectory receipt d₃ d'

theorem ReceiptPublished.of_returns {source : File} {temporaryPath destinationDirectory : Path}
    {receipt : CompletionReceipt} {d d' : Disk Γ}
    (h : (publishCompletionReceipt source temporaryPath destinationDirectory receipt).Returns
      d () d') : ReceiptPublished source temporaryPath destinationDirectory receipt d d' := by
  obtain ⟨_ | _, d₁, hpromote, h⟩ := returns_bind.mp h
  · rename_i error
    dsimp only at h
    split at h
    · rename_i hkind
      obtain ⟨existing, d₂, hread, h⟩ := returns_bind.mp h
      split at h
      · rename_i heq
        obtain ⟨-, rfl⟩ := returns_pure.mp h
        exact .inr ⟨error, d₁, returns_attempt.mp hpromote, hkind, heq ▸ hread⟩
      · exact absurd h not_returns_throw
    · exact absurd h not_returns_throw
  · obtain ⟨-, rfl⟩ := returns_pure.mp h
    have hreturns := returns_attempt.mp hpromote
    exact .inl ⟨hreturns, Storage.names_of_promoteRenameNoReplace hreturns⟩

theorem ReceiptWritten.of_returns {destinationDirectory : Path} {receipt : CompletionReceipt}
    {d d' : Disk Γ} (h : (writeCompletionReceipt destinationDirectory receipt).Returns d () d') :
    ReceiptWritten destinationDirectory receipt d d' := by
  obtain ⟨⟨⟩, d₁, hdir, h⟩ := returns_bind.mp h
  obtain ⟨found, d₂, hfound, h⟩ := returns_bind.mp h
  refine ⟨d₁, d₂, found, returns_mapErr.mp hdir, returns_mapErr.mp hfound, ?_⟩
  split at h
  · rename_i hyes
    rw [if_pos hyes]
    obtain ⟨existing, d₃, hread, h⟩ := returns_bind.mp h
    split at h
    · rename_i heq
      obtain ⟨-, rfl⟩ := returns_pure.mp h
      exact heq ▸ hread
    · exact absurd h not_returns_throw
  · rename_i hno
    rw [if_neg hno]
    obtain ⟨source, d₃, hwrite, h⟩ := returns_bind.mp h
    exact ⟨source, d₃, returns_mapErr.mp hwrite, .of_returns h⟩

end

/-! ### Reconciling from a partial file -/

/-- The file at `partialDestination` is opened, verified through the handle, and published. -/
def PublishedFromPartial {ε : Type} (verify : File → Prog (Disk Γ) ε Unit)
    (promote : File → Path → Path → Prog (Disk Γ) IoError Unit)
    (destination partialDestination : Path) (d : Disk Γ) : Prop :=
  ∃ source d₁ d₂ d₃,
    (Storage.openPromotable partialDestination true false false false).Returns d source d₁ ∧
    (verify source).Returns d₁ () d₂ ∧
    Promoted (promote source partialDestination destination) source destination d₂ d₃

namespace V03

variable [Crates] {d d' : Disk Γ}

/-- The received file is verified through its handle, the receipt written where there is one, and
the file published. -/
def Finalized (received : ReceivedCompleteV03) (destinationPath : Path)
    (receiptDestination : Option Path) (d : Disk Γ) : Prop :=
  ∃ d₁ d₂ d₃, (verifyCompleteFile received).Returns d () d₁ ∧
    (match receiptDestination with
      | some destination => ReceiptWritten destination received.receipt d₁ d₂
      | none => d₂ = d₁) ∧
    Promoted (Storage.promoteLink received.file received.partialPath destinationPath)
      received.file destinationPath d₂ d₃

theorem Finalized.of_returns {received : ReceivedCompleteV03} {destinationPath path : Path}
    {receiptDestination : Option Path}
    (h : (finalize received destinationPath receiptDestination).Returns d path d') :
    Finalized received destinationPath receiptDestination d := by
  obtain ⟨⟨⟩, d₀, hpath, h⟩ := returns_bind.mp h
  obtain ⟨-, rfl⟩ := returns_ofExcept.mp hpath
  obtain ⟨⟨⟩, d₁, hverify, h⟩ := returns_bind.mp h
  have promoted {d₂ : Disk Γ} (h : (do
      promotePartialNoClobber ReceiverV03FinalizeError.destinationExists .io received.file
        received.partialPath destinationPath
      let _ ← (removeChunkState received.partialPath).attempt
      return destinationPath).Returns d₂ path d') : ∃ d₃, Promoted
        (Storage.promoteLink received.file received.partialPath destinationPath) received.file
        destinationPath d₂ d₃ := by
    obtain ⟨⟨⟩, d₃, hlink, -⟩ := returns_bind.mp h
    have hlink := returns_mapErr.mp hlink
    exact ⟨d₃, hlink, Storage.names_of_promoteLink hlink⟩
  refine ⟨d₁, ?_⟩
  cases receiptDestination with
  | none =>
    obtain ⟨d₃, h⟩ := promoted h
    exact ⟨d₁, d₃, returns_mapErr.mp hverify, rfl, h⟩
  | some destination =>
    obtain ⟨⟨⟩, d₂, hwrite, h⟩ := returns_bind.mp h
    obtain ⟨d₃, h⟩ := promoted h
    exact ⟨d₂, d₃, returns_mapErr.mp hverify, .of_returns (returns_mapErr.mp hwrite), h⟩

/-- VERIFIED is written after the file is published. -/
theorem Finalized.of_reports {received : ReceivedCompleteV03} {destinationPath : Path}
    {receiptDestination : Option Path} {w : Session Γ}
    (h : Reports (complete received destinationPath receiptDestination) (fun _ => True) w) :
    Finalized received destinationPath receiptDestination w.disk := by
  obtain ⟨path, w₁, hfinal, -⟩ := h.of_bind keepsSilent_onDisk
  obtain ⟨d, hd, -⟩ := World.returns_onDisk.mp hfinal
  exact .of_returns (returns_mapErr.mp hd)

theorem published_of_reconcileFromPartial {destination partialDestination : Path}
    {receipt : CompletionReceipt} {w : Session Γ}
    (h : Reports (reconcileFromPartial destination partialDestination receipt)
      (fun outcome => outcome ≠ .notReconciled) w) :
    PublishedFromPartial (fun source => hashPhysicalFileV03 source receipt.fileSize.toNat
      receipt.blake3) Storage.promoteLink destination partialDestination w.disk := by
  obtain ⟨r, w₁, hverify, h⟩ := h.of_bind keepsSilent_onDisk
  obtain ⟨d₁, hd, rfl⟩ := World.returns_onDisk.mp hverify
  have hd := returns_attempt.mp hd
  cases r with
  | error => exact absurd rfl h.of_pure
  | ok source =>
    obtain ⟨source', d₂, hopen, hd⟩ := returns_bind.mp hd
    obtain ⟨⟨⟩, d₃, hhash, hd⟩ := returns_bind.mp hd
    obtain ⟨rfl, rfl⟩ := returns_pure.mp hd
    obtain ⟨⟨⟩, w₂, hlink, -⟩ := h.of_bind keepsSilent_onDisk
    obtain ⟨d₄, hlink, -⟩ := World.returns_onDisk.mp hlink
    have hlink := returns_mapErr.mp hlink
    exact ⟨source', d₂, d₃, d₄, returns_mapErr.mp hopen, hhash, hlink,
      Storage.names_of_promoteLink hlink⟩

/-- What is hashed through a handle is the file behind it. -/
theorem verifies_of_hashPhysicalFileV03 {file : File} {size : ℕ} {hash : Digest}
    (hpos : file.pos = 0) (hd : d.Rely (Fs.Spares file.ino))
    (h : (hashPhysicalFileV03 file size hash).Returns d () d') :
    Verifies size hash (d'.fs.data file.ino) := by
  obtain ⟨⟨⟨hasher, total⟩, file'⟩, d₁, hfold, h⟩ := returns_bind.mp h
  obtain ⟨-, hdata, pieces, hpieces, hr⟩ :=
    File.of_returns_foldReads (by norm_num) hd (returns_mapErr.mp hfold)
  rw [hpos, List.drop_zero] at hpieces
  rw [File.foldl_hashing] at hr
  simp only [hpieces, List.nil_append, Nat.zero_add, Prod.mk.injEq] at hr
  obtain ⟨rfl, rfl⟩ := hr
  simp only at h
  split_ifs at h with hsize hhash
  · exact absurd h not_returns_throw
  · exact absurd h not_returns_throw
  · obtain ⟨-, rfl⟩ := returns_pure.mp h
    rw [hdata]
    exact ⟨not_not.mp hsize, not_not.mp hhash⟩

end V03

namespace V02

variable [Crates] {d d' : Disk Γ}

omit [Crates] in
theorem keepsSilent_sendReject {code : RejectCode} {message : String} :
    (sendReject code message : Receiver Γ Unit).Keeps Silent := by
  refine Keeps.bind (Keeps.ofExcept _) fun payload => Keeps.mapErr ?_ _
  exact keepsSilent_writeFrame (by simp)

omit [Crates] in
theorem keepsSilent_orReject {α : Type} {message : String} {p : Receiver Γ α}
    (hp : p.Keeps Silent) : (orReject message p).Keeps Silent := by
  refine Keeps.bind hp.attempt fun r => ?_
  rcases r with e | a
  · exact Keeps.bind keepsSilent_sendReject fun _ => Keeps.throw e
  · exact Keeps.pure a

omit [Crates] in
theorem returns_of_orReject {α : Type} {message : String} {p : Receiver Γ α} {a : α}
    {w w' : Session Γ} (h : (orReject message p).Returns w a w') : p.Returns w a w' := by
  obtain ⟨r, w₁, hp, h⟩ := returns_bind.mp h
  have hp := returns_attempt.mp hp
  rcases r with e | b
  · obtain ⟨_, _, -, h⟩ := returns_bind.mp h
    exact absurd h not_returns_throw
  · obtain ⟨rfl, rfl⟩ := returns_pure.mp h
    exact hp

omit [Crates] in
/-- A file operation of the session that returned. -/
theorem returns_of_storage {α : Type} {p : Prog (Disk Γ) IoError α} {a : α} {w w' : Session Γ}
    (h : (storage p).Returns w a w') : ∃ d, p.Returns w.disk a d ∧ w' = { w with disk := d } := by
  obtain ⟨d, hd, hw⟩ := World.returns_onDisk.mp h
  exact ⟨d, returns_mapErr.mp hd, hw⟩

theorem published_of_settleFromPartial {destination partialDestination : Path}
    {receipt : CompletionReceipt} {w : Session Γ}
    (h : Reports (settleFromPartial destination partialDestination receipt) (fun _ => True) w) :
    PublishedFromPartial (verifyCompletedFile · receipt) Storage.promoteRename destination
      partialDestination w.disk := by
  obtain ⟨source, w₁, hverify, h⟩ := h.of_bind (keepsSilent_orReject keepsSilent_onDisk)
  obtain ⟨d₁, hd, rfl⟩ := returns_of_storage (returns_of_orReject hverify)
  obtain ⟨source', d₂, hopen, hd⟩ := returns_bind.mp hd
  obtain ⟨⟨⟩, d₃, hhash, hd⟩ := returns_bind.mp hd
  obtain ⟨rfl, rfl⟩ := returns_pure.mp hd
  obtain ⟨⟨⟩, w₂, hrename, -⟩ := h.of_bind keepsSilent_onDisk
  obtain ⟨d₄, hrename, -⟩ := returns_of_storage hrename
  exact ⟨source', d₂, d₃, d₄, hopen, hhash, hrename, Storage.names_of_promoteRename hrename⟩

omit [Crates] in
theorem eq_of_hashFileContents {file : File} {size : ℕ} {r : Hasher × File} (hpos : file.pos = 0)
    (hd : d.Rely (Fs.Spares file.ino)) (h : (hashFileContents file size).Returns d r d') :
    (d'.fs.data file.ino).length = size ∧ r.1 = d'.fs.data file.ino := by
  obtain ⟨⟨⟨hasher, total⟩, file'⟩, d₁, hfold, h⟩ := returns_bind.mp h
  obtain ⟨-, hdata, pieces, hpieces, hr⟩ := File.of_returns_foldReads (by norm_num) hd hfold
  rw [hpos, List.drop_zero] at hpieces
  rw [File.foldl_hashing] at hr
  simp only [hpieces, List.nil_append, Nat.zero_add, Prod.mk.injEq] at hr
  obtain ⟨rfl, rfl⟩ := hr
  obtain ⟨hsize, h⟩ := returns_check.mp h
  obtain ⟨rfl, rfl⟩ := returns_pure.mp h
  rw [hdata]
  exact ⟨not_not.mp hsize, rfl⟩

/-- What is hashed through a handle is the file behind it. -/
theorem matches_of_verifyCompletedFile {file : File} {receipt : CompletionReceipt}
    (hpos : file.pos = 0) (hd : d.Rely (Fs.Spares file.ino))
    (h : (verifyCompletedFile file receipt).Returns d () d') :
    Matches receipt (d'.fs.data file.ino) := by
  obtain ⟨metadata, d₁, hstat, h⟩ := returns_bind.mp h
  have hd₁ : d₁.Rely (Fs.Spares file.ino) := (((File.respects_metadata
    (U := .relying Γ (Fs.Spares file.ino)) trivial).invariant hd).of_returns hstat).1
  obtain ⟨-, h⟩ := returns_check.mp h
  obtain ⟨-, h⟩ := returns_check.mp h
  obtain ⟨⟨hasher, file'⟩, d₂, hhash, h⟩ := returns_bind.mp h
  obtain ⟨hsize, rfl⟩ := eq_of_hashFileContents hpos hd₁ hhash
  simp only at h
  split_ifs at h with hne
  · exact absurd h not_returns_throw
  · obtain ⟨-, rfl⟩ := returns_pure.mp h
    exact ⟨hsize, not_not.mp hne⟩

/-- What is received goes into the file and the hasher. -/
structure Continues (progress progress' : Progress) (w w' : Session Γ) : Prop where
  ino : progress'.output.ino = progress.output.ino
  upToDate : UpToDate progress.output progress.hasher w.disk →
    UpToDate progress'.output progress'.hasher w'.disk

omit [Crates] in
theorem Continues.trans {progress₁ progress₂ progress₃ : Progress} {w₁ w₂ w₃ : Session Γ}
    (h : Continues progress₁ progress₂ w₁ w₂) (h' : Continues progress₂ progress₃ w₂ w₃) :
    Continues progress₁ progress₃ w₁ w₃ :=
  ⟨h'.ino.trans h.ino, fun hup => h'.upToDate (h.upToDate hup)⟩

omit [Crates] in
theorem continues_of_receiveDataFrame {size : ℕ} {progress : Progress}
    {r : Progress ⊕ Progress × Bytes} {w w' : Session Γ}
    (h : (receiveDataFrame size progress).Returns w r w') :
    w'.net.input.length < w.net.input.length ∧ Continues progress (r.elim id Prod.fst) w w' := by
  obtain ⟨frame, w₁, hread, h⟩ := returns_bind.mp h
  obtain ⟨hnoted, -, hinput⟩ := readFrame_noted.of_returns (returns_mapErr.mp hread)
  have hlt : w₁.net.input.length < w.net.input.length := by
    have := frame.length_encoding_pos
    rw [hinput, List.length_append]
    omega
  cases ht : frame.messageType with
  | data =>
    rw [ht] at h
    obtain ⟨-, h⟩ := returns_check.mp h
    obtain ⟨-, h⟩ := returns_check.mp h
    obtain ⟨output, w₂, hstorage, h⟩ := returns_bind.mp h
    obtain ⟨rfl, rfl⟩ := returns_pure.mp h
    obtain ⟨d, hwrite, rfl⟩ := returns_of_storage hstorage
    have houtput := File.eq_of_returns_writeAll hwrite
    refine ⟨hlt, by rw [houtput]; rfl, fun hup => ?_⟩
    rw [← hnoted.disk] at hup
    obtain ⟨hrely, hdata⟩ := File.of_returns_writeAll hup.rely
      (hup.at_end.imp_right fun hpos => by rw [hpos, hup.data]) hwrite
    subst houtput
    refine ⟨hrely, hdata.trans (by rw [hup.data]; rfl), hup.at_end.imp_right fun hpos => ?_⟩
    change progress.output.pos + _ = (progress.hasher ++ _).length
    rw [hpos, List.length_append]
  | complete =>
    rw [ht] at h
    obtain ⟨-, h⟩ := returns_check.mp h
    obtain ⟨rfl, rfl⟩ := returns_pure.mp h
    exact ⟨hlt, rfl, fun hup => hnoted.disk ▸ hup⟩
  | cancel =>
    rw [ht] at h
    obtain ⟨-, h⟩ := returns_check.mp h
    exact absurd h not_returns_throw
  | _ =>
    rw [ht] at h
    exact absurd h not_returns_throw

/-- The pinned file of a received transfer is the one it was received into, and the digest is that
of its bytes. -/
theorem source_of_receiveFileData {output : File} {size n : ℕ} {hasher : Hasher}
    {completed : CompletedTransfer} {w w' : Session Γ}
    (h : (receiveFileData output size n hasher).Returns w completed w') :
    completed.source.ino = output.ino ∧ (UpToDate output hasher w.disk →
      blake3 (w'.disk.fs.data output.ino) = completed.blake3) := by
  unfold receiveFileData at h
  obtain ⟨-, h⟩ := returns_check.mp h
  obtain ⟨⟨progress, senderHash⟩, w₁, hloop, h⟩ := returns_bind.mp h
  have hcontinues : Continues { output, bytesReceived := n, hasher } progress w w₁ := by
    refine Ensures.of_returns (Q := Post (fun r t => Continues _ r.1 w t) (fun _ _ => True)
      fun _ => True) (Ensures.loop (Continues _ · w) (fun progress t hI => ?_) ⟨rfl, id⟩) hloop
    refine (ensures_of_returns fun _ _ => continues_of_receiveDataFrame).mono fun o t' h => ?_
    rcases o with (progress' | r) | e | _
    · exact ⟨hI.trans h.2, h.1⟩
    · exact hI.trans h.2
    · exact trivial
    · exact trivial
  obtain ⟨⟨⟩, w₂, hstorage, h⟩ := returns_bind.mp h
  obtain ⟨-, h⟩ := returns_check.mp h
  obtain ⟨-, h⟩ := returns_check.mp h
  obtain ⟨rfl, rfl⟩ := returns_pure.mp h
  refine ⟨hcontinues.ino, fun hup => ?_⟩
  obtain ⟨d, hsync, rfl⟩ := returns_of_storage hstorage
  have hup := hcontinues.upToDate hup
  obtain ⟨fs, -, hturn, hc⟩ := hup.rely.of_returns_syscall hsync
  have hfs : d.fs = fs := (Prod.mk.inj (Except.ok.inj hc)).2.symm
  rw [← hcontinues.ino, hfs, hturn.acted.1, hup.data]

/-- The receipt is written, and then the received file published. -/
def Committed (destinationDirectory destination partialDestination : Path) (offer : FileOffer)
    (completed : CompletedTransfer) (d : Disk Γ) : Prop :=
  ∃ d₁ d₂, ReceiptWritten destinationDirectory (receiptForOffer offer completed.blake3) d d₁ ∧
    Promoted (Storage.promoteRename completed.source partialDestination destination)
      completed.source destination d₁ d₂

theorem Committed.of_reports {destinationDirectory destination partialDestination : Path}
    {offer : FileOffer} {completed : CompletedTransfer} {w : Session Γ}
    (h : Reports (commitTransfer destinationDirectory destination partialDestination offer
      completed) (fun _ => True) w) :
    Committed destinationDirectory destination partialDestination offer completed w.disk := by
  obtain ⟨⟨⟩, w₁, hwrite, h⟩ := h.of_bind keepsSilent_onDisk
  obtain ⟨d₁, hd, rfl⟩ := World.returns_onDisk.mp hwrite
  obtain ⟨⟨⟩, w₂, hrename, -⟩ := h.of_bind keepsSilent_onDisk
  obtain ⟨d₂, hrename, -⟩ := returns_of_storage hrename
  exact ⟨d₁, d₂, .of_returns (returns_mapErr.mp hd), hrename,
    Storage.names_of_promoteRename hrename⟩

end V02

/-! ### All operations that publish -/

variable [Crates]

/-- What is known of a run that reports success, whatever other programs do to the names. The
last fields say what the handle stands for: the bytes that were hashed, or written, through it. -/
structure PinnedPublication (Γ : Setting) : Prop where
  finalize : ∀ received destinationPath receiptDestination (d d' : Disk Γ) path,
    (V03.finalize received destinationPath receiptDestination).Returns d path d' →
      V03.Finalized received destinationPath receiptDestination d
  complete : ∀ received destinationPath receiptDestination (w : Session Γ),
    Reports (V03.complete received destinationPath receiptDestination) (fun _ => True) w →
      V03.Finalized received destinationPath receiptDestination w.disk
  reconcileFromPartial : ∀ destination partialDestination receipt (w : Session Γ),
    Reports (V03.reconcileFromPartial destination partialDestination receipt)
      (fun outcome => outcome ≠ .notReconciled) w →
      PublishedFromPartial (fun source => V03.hashPhysicalFileV03 source receipt.fileSize.toNat
        receipt.blake3) Storage.promoteLink destination partialDestination w.disk
  settleFromPartial : ∀ destination partialDestination receipt (w : Session Γ),
    Reports (V02.settleFromPartial destination partialDestination receipt) (fun _ => True) w →
      PublishedFromPartial (V02.verifyCompletedFile · receipt) Storage.promoteRename destination
        partialDestination w.disk
  commitTransfer : ∀ destinationDirectory destination partialDestination offer completed
      (w : Session Γ),
    Reports (V02.commitTransfer destinationDirectory destination partialDestination offer
      completed) (fun _ => True) w →
      V02.Committed destinationDirectory destination partialDestination offer completed w.disk
  writeCompletionReceipt : ∀ destinationDirectory receipt (d d' : Disk Γ),
    (writeCompletionReceipt destinationDirectory receipt).Returns d () d' →
      ReceiptWritten destinationDirectory receipt d d'
  publishCompletionReceipt : ∀ source temporaryPath destinationDirectory receipt (d d' : Disk Γ),
    (publishCompletionReceipt source temporaryPath destinationDirectory receipt).Returns d () d' →
      ReceiptPublished source temporaryPath destinationDirectory receipt d d'
  hashed : ∀ (file : File) size hash (d d' : Disk Γ), file.pos = 0 →
    d.Rely (Fs.Spares file.ino) → (V03.hashPhysicalFileV03 file size hash).Returns d () d' →
      V03.Verifies size hash (d'.fs.data file.ino)
  verified : ∀ (file : File) receipt (d d' : Disk Γ), file.pos = 0 →
    d.Rely (Fs.Spares file.ino) → (V02.verifyCompletedFile file receipt).Returns d () d' →
      V02.Matches receipt (d'.fs.data file.ino)
  received : ∀ output size n hasher completed (w w' : Session Γ),
    (V02.receiveFileData output size n hasher).Returns w completed w' →
      completed.source.ino = output.ino ∧ (UpToDate output hasher w.disk →
        blake3 (w'.disk.fs.data output.ino) = completed.blake3)
  written : ∀ path encoded source (d d' : Disk Γ), d.Rely (Fs.Spares source.ino) →
    (Storage.writeTemporary path encoded).Returns d source d' → d'.fs.data source.ino = encoded

end Warpfile
