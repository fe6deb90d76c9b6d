import Warpfile.Storage.Regularity
import Warpfile.V03.Delivery
import Warpfile.V03.Soundness

/-!
# Sessions of WFP/0.3 that are cut short

A session of a transfer may end anywhere: the connection is lost, the sender stops, the receiver is
killed. What the sender wrote is a beginning of frames about the offered file, so what is left is a
transfer that can be continued, or a file that is published under its receipt. Each step of the
receiver keeps that (`OngoingV03`), and so do any number of sessions.
-/

namespace Warpfile.V03

open Prog
open V02 (directories Made notMem_directories finalPath_notMem_directories)

/-! ### What the sender may have put on the connection -/

section

variable [Crates] {offer : FileOfferV03} {content : Bytes}

/-- The circumstances of an attempt to send the file: what becomes of the connection, and of
finding, opening and reading the file. -/
structure AttemptV03 (offer : FileOfferV03) (content : Bytes) where
  reserve : UInt64 → Bool
  path : SourcePath
  connected : Except IoError Unit
  chunkSize : NonZeroU64
  input : Bytes
  closing : Option ErrorKind
  room : Option (ℕ × ErrorKind)
  chunkSize_eq : chunkSize.1 = offer.chunkSize
  fileName : ∀ filename, path.fileName = some filename → filename = offer.filename
  fileSize : ∀ metadata, path.metadata = .ok metadata → metadata.len = offer.fileSize
  content : ∀ source, path.file = .ok source → source.bytes = content

/-- What the sender writes. -/
def AttemptV03.output (attempt : AttemptV03 offer content) : Bytes :=
  (sendSessionV03 attempt.reserve attempt.path attempt.connected offer.transferId attempt.chunkSize
    (.start (⟨.empty, []⟩ : Disk (.alone false false))
      ⟨attempt.input, attempt.closing, [], attempt.room⟩)).2.net.output

theorem voicesV03_uttered {Γ : Setting} : VoicesV03 (Truthful offer content)
    (Uttered wfpVersionV03 (Truthful offer content) : Session Γ → Session Γ → Prop) where
  refl := inferInstance
  trans := inferInstance
  read := uttered_readFrame
  write _ _ h := uttered_writeFrame h fun henc => ⟨rfl, henc.supported, henc.allowed, rfl,
    henc.payload, henc.data⟩

/-- What a sender writes is a beginning of frames about the file. -/
theorem AttemptV03.exists_frames (attempt : AttemptV03 offer content) : ∃ frames : List Frame,
    (∀ frame ∈ frames, frame.header.Acceptable wfpVersionV03 ∧ Truthful offer content frame) ∧
      attempt.output <+: encodings frames := by
  obtain ⟨start, hstart⟩ : ∃ start : Session (.alone false false), start = .start
    (⟨.empty, []⟩ : Disk (.alone false false))
      ⟨attempt.input, attempt.closing, [], attempt.room⟩ := ⟨_, rfl⟩
  have hoffer (metadata : SourceMetadata) (filename : String)
      (hm : attempt.path.metadata = .ok metadata) (hf : attempt.path.fileName = some filename) :
      offer = ⟨offer.transferId, filename, metadata.len, attempt.chunkSize.1⟩ := by
    rw [attempt.fileName filename hf, attempt.fileSize metadata hm, attempt.chunkSize_eq]
  have hkeeps : (sendSessionV03 attempt.reserve attempt.path attempt.connected offer.transferId
      attempt.chunkSize : Prog (Session (.alone false false)) _ Unit).Keeps
      (Uttered wfpVersionV03 (Truthful offer content)) :=
    voicesV03_uttered.sendSessionV03 hoffer attempt.content
  obtain ⟨l, part, -, hu⟩ := (hkeeps start).apply
  refine ⟨utteredFrames (l.map Prod.fst), fun frame hframe => (hu.frames frame hframe).symm, ?_⟩
  have hout := hu.output
  rw [hstart] at hout
  rw [AttemptV03.output, hout]
  exact hu.le

end

/-! ### What a transfer does to the files -/

section

variable {path : Path} {i : ℕ} {fs fs' : Fs} {file : File} {faults crashes : Bool}

/-- The calls of a transfer write to the partial file and replace its snapshot. -/
structure Reworked (path : Path) (i : ℕ) (fs fs' : Fs) : Prop where
  within : Fs.Within ∅ {chunkStateTemporaryPath path, chunkStatePath path} {i} fs fs'
  regular : Fs.StaysRegular {chunkStateTemporaryPath path, chunkStatePath path} fs fs'

instance : Std.Refl (Reworked path i) := ⟨fun fs => ⟨.refl fs, Std.Refl.refl fs⟩⟩

instance : IsTrans Fs (Reworked path i) :=
  ⟨fun _ _ _ h h' => ⟨h.within.trans h'.within, IsTrans.trans _ _ _ h.regular h'.regular⟩⟩

theorem reworked_setData {bs : Bytes} : Reworked path i fs (fs.setData i bs) :=
  ⟨.setData (.inl rfl), Fs.staysRegular_of_names rfl⟩

theorem keeps_writeAll {bs : Bytes} :
    (file.writeAll bs : Prog (Disk (.alone faults crashes)) _ _).Keeps
      (Disk.OnFs (Reworked path file.ino)) := by
  -- a call that writes to the partial file, whole or torn
  have written {call : ℕ → Fs.Call Unit} {torn : ℕ → Fs → Fs}
      (h : ∀ short fs, ∃ bs, call short fs = .ok ((), fs.setData file.ino bs))
      (ht : ∀ n fs, ∃ bs, torn n fs = fs.setData file.ino bs) :
      (syscall call torn : Prog (Disk (.alone faults crashes)) _ _).Keeps
        (Disk.OnFs (Reworked path file.ino)) := by
    refine Disk.keeps_syscall (fun short fs a fs' hc => ?_) fun n fs => ?_
    · obtain ⟨bs, hbs⟩ := h short fs
      rw [← (Prod.mk.inj (Except.ok.inj (hbs.symm.trans hc))).2]
      exact reworked_setData
    · obtain ⟨bs, hbs⟩ := ht n fs
      rw [hbs]
      exact reworked_setData
  unfold File.writeAll
  split
  · exact Keeps.pure _
  · dsimp only
    split
    · exact Keeps.bind (written (fun _ _ => ⟨_, rfl⟩) fun _ _ => ⟨_, rfl⟩) fun _ => Keeps.pure _
    · exact Keeps.bind (written (fun _ _ => ⟨_, rfl⟩) fun _ _ => ⟨_, rfl⟩) fun _ => Keeps.pure _

theorem keeps_writeChunkState [Crates] {state : ChunkState} :
    (writeChunkState path state : Prog (Disk (.alone faults crashes)) _ _).Keeps
      (Disk.OnFs (Reworked path i)) := by
  intro d
  rw [writeChunkState, ensures_mapErr]
  have hregular : KeepsRegular {chunkStateTemporaryPath path, chunkStatePath path}
      (Storage.replaceFile (chunkStatePath path) (chunkStateTemporaryPath path)
        (encodeChunkState state) : Prog (Disk (.alone faults crashes)) _ _) :=
    keepsRegular_replaceFile (.inl rfl)
  refine ((Storage.replaceFile_spec appendSuffix_ne_nil appendSuffix_ne_nil
    chunkStatePath_ne_temporary dropLast_chunkStateTemporaryPath.symm).and (hregular d)).mono
      fun o d' h => ?_
  have reworked (hw : Fs.Within ∅ {chunkStateTemporaryPath path, chunkStatePath path} ∅ d.fs
      d'.fs) : Reworked path i d.fs d'.fs := ⟨hw.mono le_rfl le_rfl fun _ hk => .inl hk.elim, h.2⟩
  cases o with
  | ok => exact reworked h.1.2.within
  | err => exact reworked h.1.1.1
  | halt => exact reworked h.1.1.1

/-! ### The receiver of the chunks -/

/-- The files are related, whatever becomes of the receiver. -/
def OnReceived (R : Fs → Fs → Prop) (s t : ChunkReceiverV03 × Disk (.alone faults crashes)) :
    Prop := R s.2.fs t.2.fs

instance {R : Fs → Fs → Prop} [Std.Refl R] : Std.Refl (OnReceived R :
    ChunkReceiverV03 × Disk (.alone faults crashes) → _ → Prop) := ⟨fun s => Std.Refl.refl s.2.fs⟩

instance {R : Fs → Fs → Prop} [IsTrans Fs R] :
    IsTrans (ChunkReceiverV03 × Disk (.alone faults crashes)) (OnReceived R) :=
  ⟨fun s _ _ h h' => IsTrans.trans s.2.fs _ _ h h'⟩

theorem keeps_onFiles {ε α : Type} {R : Fs → Fs → Prop}
    {p : Prog (Disk (.alone faults crashes)) ε α} (hp : p.Keeps (Disk.OnFs R)) :
    (onFiles p).Keeps (OnReceived R) := fun s => by
  rw [ensures_onFiles]
  exact hp s.2

/-- Where only the receiver changes. -/
theorem keeps_modify {ε : Type} {R : Fs → Fs → Prop} [Std.Refl R]
    {f : ChunkReceiverV03 × Disk (.alone faults crashes) →
      ChunkReceiverV03 × Disk (.alone faults crashes)} (hf : ∀ s, (f s).2 = s.2) :
    (modify f : Prog _ ε PUnit).Keeps (OnReceived R) := fun s => by
  rw [ensures_modify, OnReceived, hf]
  exact Std.Refl.refl s.2.fs

variable [Crates]

theorem keeps_writeData {data : DataV03} :
    (ChunkReceiverV03.writeData file data : ChunkReceiving (.alone faults crashes) _).Keeps
      (OnReceived (Reworked path file.ino)) := by
  intro s
  rw [ChunkReceiverV03.writeData, ensures_bind, ensures_get, post_ok]
  refine (Keeps.bind (Keeps.ofExcept _) fun r => Keeps.bind (keeps_onFiles (Keeps.mapErr
    keeps_writeAll _)) fun _ => ?_) s
  refine Keeps.bind (keeps_modify fun _ => rfl) fun _ => ?_
  split
  · exact Keeps.pure _
  dsimp only
  split
  · exact Keeps.throw _
  · exact Keeps.bind (keeps_modify fun _ => rfl) fun _ => Keeps.pure _

theorem keeps_persistVerifiedChunk :
    (ChunkReceiverV03.persistVerifiedChunk file path :
      ChunkReceiving (.alone faults crashes) _).Keeps (OnReceived (Reworked path i)) := by
  intro s
  rw [ChunkReceiverV03.persistVerifiedChunk, ensures_bind, ensures_get, post_ok]
  have hsync : (file.syncData : Prog (Disk (.alone faults crashes)) _ _).Keeps
      (Disk.OnFs (Reworked path i)) := by
    refine Disk.keeps_call fun fs a fs' h => ?_
    obtain rfl : fs = fs' := (Prod.mk.inj (Except.ok.inj h)).2
    exact Std.Refl.refl fs
  refine Keeps.bind (Keeps.ofExcept _) (fun _ => ?_) s
  refine Keeps.bind (Keeps.ofExcept _) fun _ => ?_
  refine Keeps.bind (keeps_onFiles (Keeps.mapErr hsync _)) fun _ => ?_
  exact Keeps.bind (keeps_onFiles (Keeps.mapErr keeps_writeChunkState _)) fun _ =>
    keeps_modify fun _ => rfl

/-- **A DATA frame** reworks the files, whatever becomes of it. -/
theorem keeps_writeAndPersist {data : DataV03} :
    (writeAndPersist file path data : ChunkReceiving (.alone faults crashes) _).Keeps
      (OnReceived (Reworked path file.ino)) := by
  refine Keeps.bind keeps_writeData fun verified => ?_
  cases verified with
  | some _ => exact keeps_persistVerifiedChunk
  | none => exact Keeps.pure _

end

/-! ### A transfer stays underway -/

section

variable [Crates] {dest : Path} {offer : FileOfferV03} {content : Bytes} {fs fs' : Fs} {i : ℕ}
  {K S : Set Path} {J : Set ℕ}

omit [Crates] in
theorem finalPath_notMem_inside (hS : ∀ p ∈ S, p.dropLast = partialsDirectory dest ∨
    p.dropLast = receiptsDirectory dest) : finalPath dest offer.filename ∉ S := by
  intro hmem
  obtain hd | hd := hS _ hmem
  · rw [dropLast_finalPath] at hd
    exact partialsDirectory_ne_self hd
  · rw [dropLast_finalPath] at hd
    exact receiptsDirectory_ne_self hd

/-- What is done in the directories for partial files and receipts leaves a transfer underway, if
its names and its receipt allow it. -/
theorem UnderwayV03.within (h : UnderwayV03 dest offer content fs) (hw : Fs.Within K S J fs fs')
    (hsafe : isSafeFilename offer.filename) (hK : K ⊆ directories dest) (hnil : [] ∉ S)
    (hS : ∀ p ∈ S, p.dropLast = partialsDirectory dest ∨ p.dropLast = receiptsDirectory dest)
    (hregular : fs'.Regular (workNamesV03 dest offer))
    (hreceipt : fs'.names (completionReceiptPath dest offer.transferId) = none ∨
      fs'.receipt dest offer.transferId = some (receiptV03 offer content) ∧
        fs'.inode (completionReceiptPath dest offer.transferId) ≠
          fs'.inode (partialPath dest offer.filename)) :
    UnderwayV03 dest offer content fs' := by
  have houtside (q : Path) (hq : q ∈ directories dest) : q ∉ S := by
    intro hmem
    have hne : q ≠ [] := fun he => hnil (he ▸ hmem)
    exact notMem_directories hne (hS q hmem) hq
  refine ⟨⟨?_, ?_, hregular⟩, hreceipt, ?_⟩
  · exact hw.creatable (fun q hq => houtside q (.inl hq)) h.receptive.partials
  · exact hw.creatable (fun q hq => houtside q (.inr hq)) h.receptive.receipts
  · rw [hw.names_eq' (finalPath_notMem_inside hS) fun hmem =>
      finalPath_notMem_directories hsafe (hK hmem)]
    exact h.final

/-- The names of the partial file and its snapshot. -/
def partialNames (path : Path) : Set Path :=
  {path, chunkStateTemporaryPath path, chunkStatePath path}

omit [Crates] in
theorem dropLast_of_mem_partialNames {p : Path}
    (hp : p ∈ partialNames (partialPath dest offer.filename)) :
    p.dropLast = partialsDirectory dest := by
  obtain rfl | hp := hp
  · exact dropLast_partialPath
  · rw [dropLast_of_mem_chunkStatePaths hp, dropLast_partialPath]

/-- Writing to the partial file and to its snapshot leaves a transfer underway. -/
theorem UnderwayV03.written (h : UnderwayV03 dest offer content fs)
    (hsafe : isSafeFilename offer.filename)
    (hw : Fs.Within ∅ (partialNames (partialPath dest offer.filename)) {i} fs fs')
    (hi : fs.names (partialPath dest offer.filename) = some (.file i) ∨ fs.next ≤ i)
    (hpart : fs'.names (partialPath dest offer.filename) = some (.file i))
    (hregular : fs'.Regular {chunkStateTemporaryPath (partialPath dest offer.filename),
      chunkStatePath (partialPath dest offer.filename)}) : UnderwayV03 dest offer content fs' := by
  have hR : (completionReceiptPath dest offer.transferId).dropLast = receiptsDirectory dest := by
    simp
  have houtside (p : Path) (hd : p.dropLast = receiptsDirectory dest) :
      fs'.names p = fs.names p := by
    refine hw.names_eq' (fun hmem => ?_) (Set.notMem_empty _)
    exact receiptsDirectory_ne_partialsDirectory (hd.symm.trans (dropLast_of_mem_partialNames hmem))
  refine h.within hw hsafe (Set.empty_subset _) ?_ (fun p hp => .inl
    (dropLast_of_mem_partialNames hp)) ?_ ?_
  · rintro (hnil | hnil | hnil)
    · exact partialPath_ne_nil hnil.symm
    · exact appendSuffix_ne_nil hnil.symm
    · exact appendSuffix_ne_nil hnil.symm
  · rintro p (rfl | rfl | hp)
    · rw [houtside _ (by simp)]
      exact h.receptive.regular _ (.inl rfl)
    · exact .inr ⟨i, hpart⟩
    · exact hregular p hp
  -- the receipt is not the partial file, so nothing is written to it
  obtain hnone | ⟨hr, hapart⟩ := h.receipt
  · exact .inl ((houtside _ hR).trans hnone)
  obtain ⟨j, hj⟩ := Fs.names_of_receipt hr
  have hne : j ≠ i := by
    rintro rfl
    obtain hn | hnew := hi
    · exact hapart (by rw [Fs.inode, Fs.inode, hj, hn])
    · exact absurd (fs.allocated _ _ hj) (not_lt.mpr hnew)
  refine .inr ⟨hw.receipt_eq hr (fun hmem => ?_) fun k hk hki => ?_, ?_⟩
  · exact receiptsDirectory_ne_partialsDirectory (hR.symm.trans (dropLast_of_mem_partialNames hmem))
  · obtain rfl : j = k := by simpa [hj] using hk
    exact hne hki
  · rw [Fs.inode_eq_some.mpr hpart, Fs.inode, houtside _ hR, ← Fs.inode, Fs.inode_eq_some.mpr hj]
    exact fun he => hne (Option.some.inj he)

theorem UnderwayV03.reworked (h : UnderwayV03 dest offer content fs)
    (hsafe : isSafeFilename offer.filename)
    (hpart : fs.names (partialPath dest offer.filename) = some (.file i))
    (hr : Reworked (partialPath dest offer.filename) i fs fs') :
    UnderwayV03 dest offer content fs' := by
  have hn : fs'.names (partialPath dest offer.filename) = some (.file i) :=
    (hr.within.names_eq' (notMem_chunkStatePaths partialPath_ne_nil) (Set.notMem_empty _)).trans
      hpart
  refine h.written hsafe (hr.within.mono le_rfl (Set.subset_insert _ _) fun _ hk => .inl hk)
    (.inl hpart) hn (hr.regular fun p hp => ?_)
  exact h.receptive.regular p (.inr (.inr hp))

theorem UnderwayV03.opened (h : UnderwayV03 dest offer content fs)
    (hsafe : isSafeFilename offer.filename)
    (ho : OpenedPartial fs (partialPath dest offer.filename) i fs') :
    UnderwayV03 dest offer content fs' := by
  have hw : Fs.Within ∅ {partialPath dest offer.filename} {i} fs fs' := ho.within
  refine h.written hsafe (hw.mono le_rfl (Set.singleton_subset_iff.mpr (.inl rfl))
    fun _ hk => .inl hk) (ho.ino.imp_right fun heq => heq.ge) (ho.names partialPath_ne_nil) ?_
  intro p hp
  rw [hw.names_eq' (fun he => ?_) (Set.notMem_empty _)]
  · exact h.receptive.regular p (.inr (.inr hp))
  · obtain rfl : p = partialPath dest offer.filename := he
    exact notMem_chunkStatePaths partialPath_ne_nil hp

/-- Writing the receipt of the file leaves a transfer underway. -/
theorem UnderwayV03.receipted (h : UnderwayV03 dest offer content fs)
    (hsafe : isSafeFilename offer.filename)
    (hstep : fs.ReceiptStep dest (receiptV03 offer content) fs')
    (hregular : Fs.StaysRegular {completionReceiptTemporaryPath dest offer.transferId} fs fs') :
    UnderwayV03 dest offer content fs' := by
  have hw := hstep.1
  have hreceipts (p : Path) (hp : p ∈ receiptNames dest offer.transferId) :
      p ≠ [] ∧ p.dropLast = receiptsDirectory dest := by
    obtain rfl | rfl := hp
    · exact ⟨appendSuffix_ne_nil, by simp⟩
    · exact ⟨completionReceiptPath_ne_nil, by simp⟩
  have hpartials (p : Path) (hp : p.dropLast = partialsDirectory dest) :
      fs'.names p = fs.names p := by
    refine hw.names_eq' (notMem_receiptNames ?_) (notMem_chain_of_dropLast hp)
    rw [hp]
    exact receiptsDirectory_ne_partialsDirectory.symm
  refine h.within hw hsafe (fun q hq => .inr hq) (fun hnil => (hreceipts _ hnil).1 rfl)
    (fun p hp => .inr (hreceipts p hp).2) ?_ ?_
  · have hreg : fs'.Regular {completionReceiptTemporaryPath dest offer.transferId} := by
      refine hregular fun p hp => h.receptive.regular p (.inl hp)
    rintro p (rfl | hp)
    · exact hreg _ rfl
    · rw [hpartials p (dropLast_of_mem_partialNames hp)]
      exact h.receptive.regular p (.inr hp)
  · obtain hkept | hpub := hstep.2
    · -- the receipt is as it was
      replace hkept : fs'.names (completionReceiptPath dest offer.transferId) =
        fs.names (completionReceiptPath dest offer.transferId) := hkept
      refine h.receipt.imp (fun hn => hkept.trans hn) fun hr => ⟨?_, ?_⟩
      · rw [Fs.receipt, hw.read_eq hkept]
        exact hr.1
      · rw [Fs.inode, Fs.inode, hkept, hpartials _ dropLast_partialPath]
        exact hr.2
    · refine .inr ⟨hpub.receipt_eq (ne_empty_of_isSafeFilename hsafe), ?_⟩
      obtain ⟨-, j, hj, hn, -⟩ := hpub
      intro he
      have hpart : fs.names (partialPath dest offer.filename) = some (.file j) := by
        rw [← hpartials _ dropLast_partialPath]
        exact Fs.inode_eq_some.mp (he.symm.trans (Fs.inode_eq_some.mpr hn))
      exact absurd (fs.allocated _ _ hpart) (not_lt.mpr hj)

end

/-! ### How far the sessions of an offer have come -/

section

variable [Crates] {dest : Path} {offer : FileOfferV03} {content : Bytes} {fs fs' : Fs}
  {receipt : CompletionReceipt}

/-- The transfer can be continued, or the file is published under its receipt. -/
inductive OngoingV03 (dest : Path) (offer : FileOfferV03) (content : Bytes) (fs : Fs) : Prop
  | underway (underway : UnderwayV03 dest offer content fs) : OngoingV03 dest offer content fs
  | certified (certified : Certified dest offer (receiptV03 offer content) fs) :
      OngoingV03 dest offer content fs

theorem Certified.made (h : Certified dest offer receipt fs) (hm : Made dest fs fs') :
    Certified dest offer receipt fs' := by
  obtain ⟨bytes, hread, hv⟩ := h.content
  obtain ⟨i, hi, -⟩ := Fs.read_eq_some.mp hread
  refine ⟨hm.receipt_eq h.receipt_eq (Set.notMem_empty _) fun j _ => Set.notMem_empty j, h.filename,
    h.fileSize, bytes, ?_, hv⟩
  rw [hm.read (Set.notMem_empty _) (by simp [hi]) fun j _ => Set.notMem_empty j]
  exact hread

theorem OngoingV03.made (h : OngoingV03 dest offer content fs)
    (hsafe : isSafeFilename offer.filename) (hm : Made dest fs fs') :
    OngoingV03 dest offer content fs' := by
  cases h with
  | underway h => exact .underway (h.made hsafe hm)
  | certified h => exact .certified (h.made hm)

/-- A partial file that is verified and linked, and its snapshot removed. -/
theorem Certified.cleaned (h : Certified dest offer receipt fs)
    (hw : Fs.Within ∅ {chunkStateTemporaryPath (partialPath dest offer.filename),
      chunkStatePath (partialPath dest offer.filename)} ∅ fs fs') :
    Certified dest offer receipt fs' :=
  h.within hw fun _ hp => (dropLast_of_mem_chunkStatePaths hp).trans dropLast_partialPath

end

/-! ### The steps of a session -/

section

variable [Crates] {dest : Path} {offer : FileOfferV03} {content : Bytes}
  {w : Session (.alone false true)}

/-- **Finalizing** publishes the file, or leaves the transfer underway. -/
theorem finalize_ongoing {received : ReceivedCompleteV03} {d : Disk (.alone false true)}
    (hpath : received.partialPath = partialPath dest offer.filename)
    (hsafe : isSafeFilename offer.filename)
    (hreceipt : received.receipt = receiptV03 offer content)
    (hfile : d.fs.names received.partialPath = some (.file received.file.ino))
    (h : UnderwayV03 dest offer content d.fs) :
    (finalize received (finalPath dest offer.filename) (some dest)).Ensures d fun _ d' =>
      OngoingV03 dest offer content d'.fs := by
  have hsize : received.receiver.chunkState.layout.fileSize = offer.fileSize :=
    congrArg CompletionReceipt.fileSize hreceipt
  have hdigest : received.senderFileHash = blake3 content :=
    congrArg CompletionReceipt.blake3 hreceipt
  rw [hpath] at hfile
  rw [finalize, hpath, validatePartialPath_partialPath (ne_empty_of_isSafeFilename hsafe),
    ensures_bind, ensures_ofExcept]
  simp only [post_ok]
  refine Ensures.bind_mapErr (hashPhysicalFileV03_spec rfl) ?_ (fun _ d₁ h₁ => ?_)
    fun d₁ h₁ => ?_
  rotate_left
  · rw [h₁.1]
    exact .underway h
  · rw [h₁.1]
    exact .underway h
  intro _ d₁ h₁
  obtain ⟨h₁, hverified⟩ := h₁
  replace hverified : Verifies offer.fileSize.toNat (blake3 content)
      (d₁.fs.data received.file.ino) := by
    rw [h₁, ← hsize, ← hdigest]
    exact hverified
  rw [← h₁] at h hfile
  -- the receipt is written, and the partial file is left alone
  have hregular : KeepsRegular {completionReceiptTemporaryPath dest offer.transferId}
      (writeCompletionReceipt dest (receiptV03 offer content) :
        Prog (Disk (.alone false true)) _ _) := by
    refine keepsRegular_writeReceipt (fun q hq hmem => ?_) rfl
    obtain rfl : q = completionReceiptTemporaryPath dest offer.transferId := hmem
    exact notMem_directories appendSuffix_ne_nil (.inr (by simp)) (.inr hq)
  have hwrite : (writeCompletionReceipt dest received.receipt).Ensures d₁ (Post
      (fun _ d₂ => UnderwayV03 dest offer content d₂.fs ∧
        d₂.fs.receipt dest offer.transferId = some (receiptV03 offer content) ∧
        d₂.fs.names (partialPath dest offer.filename) = some (.file received.file.ino) ∧
        d₂.fs.data received.file.ino = d₁.fs.data received.file.ino)
      (fun _ d₂ => UnderwayV03 dest offer content d₂.fs)
      fun d₂ => UnderwayV03 dest offer content d₂.fs) := by
    rw [hreceipt]
    refine (writeCompletionReceipt_spec.and (hregular d₁)).mono fun o d₂ h₂ => ?_
    obtain ⟨h₂, hr⟩ := h₂
    cases o with
    | err => exact h.receipted hsafe h₂.1 hr
    | halt => exact h.receipted hsafe h₂.1 hr
    | ok =>
      obtain ⟨hstep, hpub⟩ := h₂
      have hrecorded : d₂.fs.receipt dest (receiptV03 offer content).transferId =
          some (receiptV03 offer content) :=
        ReceiptStep.receipt_eq hstep (ne_empty_of_isSafeFilename hsafe) hpub
      refine ⟨h.receipted hsafe hstep hr, hrecorded, ?_, ?_⟩
      · refine (hstep.1.names_eq (notMem_receiptNames ?_) (by rw [hfile]; simp)).trans hfile
        rw [dropLast_partialPath]
        exact receiptsDirectory_ne_partialsDirectory.symm
      · exact hstep.1.data _ (d₁.fs.allocated _ _ hfile) (Set.notMem_empty _)
  refine Ensures.bind_mapErr hwrite ?_ (fun _ _ h₂ => .underway h₂) fun _ h₂ => .underway h₂
  intro _ d₂ h₂
  obtain ⟨hunderway, hrecorded, hpart, hdata⟩ := h₂
  rw [← hdata] at hverified
  have hcertified : Certified dest offer (receiptV03 offer content)
      (d₂.fs.setName (finalPath dest offer.filename) (.file received.file.ino)) :=
    .link hrecorded rfl rfl hpart hverified hunderway.final
  have hdir : d₂.fs.isDir (finalPath dest offer.filename).dropLast := by
    rw [dropLast_finalPath]
    exact isDir_of_names_partialPath (by rw [hpart]; simp)
  refine Ensures.bind (promotePartialNoClobber_spec partialPath_ne_nil finalPath_ne_nil hdir hpart)
    ?_ (fun _ d₃ h₃ => ?_) fun d₃ h₃ => ?_
  · intro _ d₃ h₃
    rw [← h₃.2] at hcertified
    rw [ensures_bind, ensures_attempt]
    refine removeChunkState_within.mono fun o d₄ hw => ?_
    cases o with
    | ok => exact ensures_pure.mpr (.certified (hcertified.cleaned hw))
    | err => exact ensures_pure.mpr (.certified (hcertified.cleaned hw))
    | halt => exact .certified (hcertified.cleaned hw)
  · obtain ⟨hn, -⟩ | ⟨-, hf, -⟩ := h₃
    · exact absurd hunderway.final hn
    · exact absurd hf Bool.false_ne_true
  · obtain ⟨-, heq | ⟨-, heq⟩⟩ := h₃
    · rw [heq]
      exact .underway hunderway
    · rw [heq]
      exact .certified hcertified

/-- A frame is written, and the files stay. -/
theorem sendFrameV03_ongoing {ε : Type} {frameError : FrameError → ε}
    {protocolError : ProtocolIoError → ε} {messageType : MessageType} {payload : Bytes}
    (h : OngoingV03 dest offer content w.fs) :
    (sendFrameV03 frameError protocolError messageType payload).Ensures w fun _ w' =>
      OngoingV03 dest offer content w'.fs := by
  refine sendFrameV03_noted.mono fun o w' h' => ?_
  obtain ⟨_, -, hn⟩ := h'
  rw [hn.fs_eq]
  exact h

theorem complete_ongoing {received : ReceivedCompleteV03}
    (hpath : received.partialPath = partialPath dest offer.filename)
    (hsafe : isSafeFilename offer.filename)
    (hreceipt : received.receipt = receiptV03 offer content)
    (hfile : w.fs.names received.partialPath = some (.file received.file.ino))
    (h : UnderwayV03 dest offer content w.fs) :
    (complete received (finalPath dest offer.filename) (some dest)).Ensures w fun _ w' =>
      OngoingV03 dest offer content w'.fs := by
  refine World.ensures_onDisk_bind (finalize_ongoing hpath hsafe hreceipt hfile h) ?_
    (fun _ d h => h) fun d h => h
  intro path d h
  refine Ensures.bind (sendFrameV03_ongoing (w := { w with disk := d }) h)
    (fun _ w' h => ensures_pure.mpr h) (fun _ _ h => h) fun _ h => h

/-! ### The chunks -/

/-- What is left to be read is about the file. -/
abbrev FedV03 (offer : FileOfferV03) (content : Bytes) (w : Session (.alone false true)) : Prop :=
  Fed wfpVersionV03 (Truthful offer content) w

/-- The partial file of a transfer is underway to be `content`. -/
structure ReceivingV03 (dest : Path) (offer : FileOfferV03) (content : Bytes) (layout : ChunkLayout)
    (file : File) (receiver : ChunkReceiverV03) (w : Session (.alone false true)) : Prop where
  holding : Holding file (partialPath dest offer.filename) layout receiver w.fs
  underway : UnderwayV03 dest offer content w.fs
  fed : FedV03 offer content w

omit [Crates] in
theorem keeps_beginChunk {path : Path} {i : ℕ} {chunkStart : ChunkStartV03} :
    (ChunkReceiverV03.beginChunk chunkStart : ChunkReceiving (.alone false true) _).Keeps
      (OnReceived (Reworked path i)) := by
  intro s
  rw [ChunkReceiverV03.beginChunk, ensures_bind, ensures_get, post_ok]
  refine Keeps.bind (Keeps.ofExcept _) (fun _ => ?_) s
  exact keeps_modify fun _ => rfl

/-- What a frame leaves, whatever it is and whatever becomes of it. -/
private theorem receiveTransferFrame_underway {layout : ChunkLayout} {file : File}
    {receiver : ChunkReceiverV03} (hsafe : isSafeFilename offer.filename)
    (h : ReceivingV03 dest offer content layout file receiver w) :
    (receiveTransferFrame file (partialPath dest offer.filename) receiver).Ensures w (Post
      (fun r w' => UnderwayV03 dest offer content w'.fs ∧ FedV03 offer content w' ∧
        Sum.elim (fun _ => True) (fun done => done.2 = blake3 content) r)
      (fun _ w' => UnderwayV03 dest offer content w'.fs)
      fun w' => UnderwayV03 dest offer content w'.fs) := by
  have hsame {w' : Session (.alone false true)} (hd : w'.disk = w.disk) :
      UnderwayV03 dest offer content w'.fs := by
    rw [show w'.fs = w.fs from congrArg Disk.fs hd]
    exact h.underway
  refine Ensures.bind_mapErr h.fed.readFrame ?_ (fun _ _ hd => hsame hd) fun _ hd => hsame hd
  intro frame w₁ h₁
  obtain ⟨hF, hfed, hd⟩ := h₁
  have hunderway := hsame hd
  have hopened : w₁.fs.names (partialPath dest offer.filename) = some (.file file.ino) := by
    rw [show w₁.fs = w.fs from congrArg Disk.fs hd]
    exact h.holding.consistent.opened
  -- a call on the receiver reworks the files of the transfer
  have next {p : ChunkReceiving (.alone false true) Unit}
      (hp : p.Keeps (OnReceived (Reworked (partialPath dest offer.filename) file.ino))) :
      ((onReceiver receiver p).mapErr .receiver >>= fun r =>
        (pure (.inl r.2) : Prog (Session _) ReceiverV03TransferError
          (ChunkReceiverV03 ⊕ ChunkReceiverV03 × ChunkHash))).Ensures w₁ (Post
        (fun r w' => UnderwayV03 dest offer content w'.fs ∧ FedV03 offer content w' ∧
          Sum.elim (fun _ => True) (fun done => done.2 = blake3 content) r)
        (fun _ w' => UnderwayV03 dest offer content w'.fs)
        fun w' => UnderwayV03 dest offer content w'.fs) := by
    rw [ensures_bind, ensures_mapErr, ensures_onReceiver]
    refine (hp (receiver, w₁.disk)).mono fun o t ht => ?_
    have hreworked : UnderwayV03 dest offer content t.2.fs := hunderway.reworked hsafe hopened ht
    cases o with
    | ok => exact ensures_pure.mpr ⟨hreworked, hfed.congr rfl, trivial⟩
    | err => exact hreworked
    | halt => exact hreworked
  split
  · rw [ensures_bind, ensures_ofExcept]
    cases (decodeChunkStartV03 frame.payload).mapError ReceiverV03TransferError.chunkStart with
    | error e => exact hunderway
    | ok chunkStart => exact next keeps_beginChunk
  · rw [ensures_bind, ensures_ofExcept]
    cases (decodeDataV03 frame.payload).mapError ReceiverV03TransferError.data with
    | error e => exact hunderway
    | ok data => exact next keeps_writeAndPersist
  · rename_i htype
    rw [ensures_bind, ensures_ofExcept]
    cases hc : checkComplete receiver frame.payload with
    | error e => exact hunderway
    | ok hash =>
      have hdigest : hash = blake3 content :=
        Subtype.ext ((checkComplete_payload hc).symm.trans (hF.complete htype))
      exact ensures_pure.mpr ⟨hunderway, hfed, hdigest⟩
  · exact ensures_throw.mpr hunderway

theorem receiveTransfer_ongoing {layout : ChunkLayout} {accepted : AcceptedReceiverV03}
    (hpath : accepted.partialPath = partialPath dest offer.filename)
    (hsafe : isSafeFilename offer.filename)
    (h : ReceivingV03 dest offer content layout accepted.file accepted.receiver w) :
    (receiveTransfer accepted).Ensures w (Post
      (fun received w' => received.file = accepted.file ∧
        received.partialPath = accepted.partialPath ∧ received.identity = accepted.identity ∧
        received.senderFileHash = blake3 content ∧
        ReceivingV03 dest offer content layout accepted.file received.receiver w')
      (fun _ w' => UnderwayV03 dest offer content w'.fs)
      fun w' => UnderwayV03 dest offer content w'.fs) := by
  refine Ensures.bind (R := Post (fun (done : ChunkReceiverV03 × ChunkHash) w' =>
      done.2 = blake3 content ∧ ReceivingV03 dest offer content layout accepted.file done.1 w')
      (fun _ w' => UnderwayV03 dest offer content w'.fs)
      fun w' => UnderwayV03 dest offer content w'.fs) ?_ ?_ (fun _ _ h => h) fun _ h => h
  · rw [hpath]
    refine Ensures.loop (fun receiver w' =>
      ReceivingV03 dest offer content layout accepted.file receiver w') (fun receiver w' hI => ?_) h
    refine ((receiveTransferFrame_spec hI.holding).and
      (receiveTransferFrame_underway hsafe hI)).mono fun o t ht => ?_
    obtain ⟨hspec, hunderway⟩ := ht
    cases o with
    | err => exact hunderway
    | halt => exact hunderway
    | ok r =>
      obtain ⟨hunderway, hfed, hdigest⟩ := hunderway
      cases r with
      | inl receiver' => exact ⟨⟨hspec.1, hunderway, hfed⟩, hspec.2⟩
      | inr done => exact ⟨hdigest, hspec.1, hunderway, hfed⟩
  · intro done w' h'
    exact ensures_pure.mpr ⟨rfl, rfl, rfl, h'.1, h'.2⟩

/-! ### The inventory -/

omit [Crates] in
theorem fed_sendFrameV03 {F : Frame → Prop} {ε : Type} {frameError : FrameError → ε}
    {protocolError : ProtocolIoError → ε} {messageType : MessageType} {payload : Bytes}
    (h : Fed wfpVersionV03 F w) :
    (sendFrameV03 frameError protocolError messageType payload).Ensures w fun _ w' =>
      Fed wfpVersionV03 F w' ∧ w'.disk = w.disk := by
  rw [sendFrameV03, ensures_bind, ensures_ofExcept]
  cases (Frame.newForVersion wfpVersionV03 messageType payload).mapError frameError with
  | error e => exact ⟨h, rfl⟩
  | ok frame =>
    simp only [post_ok, ensures_mapErr]
    refine h.writeFrame.mono fun o w' hw => ?_
    cases o with
    | ok => exact hw
    | err => exact hw
    | halt => exact hw

omit [Crates] in
theorem fed_sendBatches {F : Frame → Prop} {batches : List ChunkHashesBatch}
    (h : Fed wfpVersionV03 F w) : (sendBatches batches).Ensures w fun _ w' =>
      Fed wfpVersionV03 F w' ∧ w'.disk = w.disk := by
  induction batches generalizing w with
  | nil => exact ensures_pure.mpr ⟨h, rfl⟩
  | cons batch batches ih =>
    rw [sendBatches, ensures_bind, ensures_ofExcept]
    cases (encodeChunkHashes batch).mapError ReceiverV03NegotiationError.chunkHashes with
    | error e => exact ⟨h, rfl⟩
    | ok payload =>
      refine Ensures.bind (fed_sendFrameV03 h) (fun _ w₁ h₁ => ?_) (fun _ _ h => h) fun _ h => h
      exact (ih h₁.1).mono fun _ w₂ h₂ => ⟨h₂.1, h₂.2.trans h₁.2⟩

omit [Crates] in
theorem fed_negotiateInventory {F : Frame → Prop} {prepared : PreparedReceiverV03}
    (h : Fed wfpVersionV03 F w) : (negotiateInventory prepared).Ensures w (Post
      (fun accepted w' => accepted = ⟨prepared.partialPath, prepared.file, prepared.receiver,
        prepared.identity⟩ ∧ Fed wfpVersionV03 F w' ∧ w'.disk = w.disk)
      (fun _ w' => w'.disk = w.disk) fun w' => w'.disk = w.disk) := by
  refine Ensures.bind (fed_sendFrameV03 h) ?_ (fun _ _ h => h.2) fun _ h => h.2
  intro _ w₁ h₁
  refine Ensures.bind (fed_sendBatches h₁.1) ?_ (fun _ _ h₂ => h₂.2.trans h₁.2)
    fun _ h₂ => h₂.2.trans h₁.2
  intro _ w₂ h₂
  have hd : w₂.disk = w.disk := h₂.2.trans h₁.2
  refine Ensures.bind_mapErr h₂.1.readFrame ?_ (fun _ _ h₃ => h₃.trans hd) fun _ h₃ => h₃.trans hd
  intro response w₃ h₃
  obtain ⟨-, hfed, h₃⟩ := h₃
  split_ifs
  · exact ensures_throw.mpr (h₃.trans hd)
  · exact ensures_throw.mpr (h₃.trans hd)
  · exact ensures_pure.mpr ⟨rfl, hfed, h₃.trans hd⟩

/-! ### Reconciling -/

theorem OngoingV03.receipt {fs : Fs} (h : OngoingV03 dest offer content fs)
    (hn : fs.names (completionReceiptPath dest offer.transferId) ≠ none) :
    fs.receipt dest offer.transferId = some (receiptV03 offer content) := by
  cases h with
  | underway h => exact (h.receipt.resolve_left hn).1
  | certified h => exact h.receipt_eq

/-- What reconciling leaves: where it settles nothing, the transfer is underway. -/
def SettlingV03 (dest : Path) (offer : FileOfferV03) (content : Bytes) :
    Outcome ReceiverV03ReconcileError ReceiverV03ReconcileOutcome →
      Session (.alone false true) → Prop :=
  Post (fun outcome w' => OngoingV03 dest offer content w'.fs ∧ (outcome = .notReconciled →
      UnderwayV03 dest offer content w'.fs ∧ FedV03 offer content w'))
    (fun _ w' => OngoingV03 dest offer content w'.fs)
    fun w' => OngoingV03 dest offer content w'.fs

/-- VERIFIED is all that is left to do. -/
private theorem settling_verified {path : Path} (h : OngoingV03 dest offer content w.fs) :
    (do
      sendVerifiedV03
      return .reconciled path : Prog (Session _) ReceiverV03ReconcileError
        ReceiverV03ReconcileOutcome).Ensures w (SettlingV03 dest offer content) := by
  refine Ensures.bind (sendFrameV03_ongoing h) (fun _ _ h => ?_) (fun _ _ h => h) fun _ h => h
  exact ensures_pure.mpr ⟨h, by simp⟩

theorem reconcileFromFinal_ongoing (h : Certified dest offer (receiptV03 offer content) w.fs) :
    (reconcileFromFinal (finalPath dest offer.filename) (receiptV03 offer content)).Ensures w
      (SettlingV03 dest offer content) := by
  obtain ⟨bytes, hread, hv⟩ := id h.content
  obtain ⟨i, hi, rfl⟩ := Fs.read_eq_some.mp hread
  have hverify : (verifyExistingFinalV03 (finalPath dest offer.filename)
      (receiptV03 offer content).fileSize.toNat (receiptV03 offer content).blake3).Ensures w.disk
        (Post (fun _ d => d.fs = w.fs) (fun _ _ => False) fun d => d.fs = w.fs) := by
    refine Ensures.bind_mapErr (Storage.openRegular_spec finalPath_ne_nil) ?_ (fun e d₁ h₁ => ?_)
      fun _ h₁ => h₁.1
    · intro file d₁ h₁
      obtain ⟨h₁, hn, hpos, -⟩ := h₁
      obtain rfl : i = file.ino := by simpa [hi] using hn
      refine (hashPhysicalFileV03_spec hpos).mono fun o d₂ h₂ => ?_
      cases o with
      | ok => exact h₂.1.trans h₁
      | halt => exact h₂.1.trans h₁
      | err =>
        have hne := h₂.2.resolve_left Bool.false_ne_true
        rw [h₁] at hne
        exact hne hv
    · obtain hf | hirregular | hnone := h₁.2.2
      · exact Bool.false_ne_true hf
      · exact hirregular.not_file finalPath_ne_nil hi
      · cases (h₁.2.1 hnone).symm.trans hi
  have hsame {d : Disk (.alone false true)} (hd : d.fs = w.fs) :
      OngoingV03 dest offer content d.fs := by
    rw [hd]
    exact .certified h
  exact World.ensures_onDisk_attempt_bind hverify
    (fun _ d hd => settling_verified (w := { w with disk := d }) (hsame hd))
    (fun _ _ hd => hd.elim) fun d hd => hsame hd

theorem reconcileFromPartial_ongoing (h : UnderwayV03 dest offer content w.fs)
    (hfed : FedV03 offer content w)
    (hreceipt : w.fs.receipt dest offer.transferId = some (receiptV03 offer content)) :
    (reconcileFromPartial (finalPath dest offer.filename) (partialPath dest offer.filename)
      (receiptV03 offer content)).Ensures w (SettlingV03 dest offer content) := by
  have hsame {d : Disk (.alone false true)} (hd : d.fs = w.fs) :
      UnderwayV03 dest offer content d.fs := by
    rw [hd]
    exact h
  refine World.ensures_onDisk_attempt_bind (verifyPartialForPromotionV03_spec partialPath_ne_nil) ?_
    (fun _ d hd => ?_) fun d hd => ?_
  · intro source d₁ h₁
    obtain ⟨h₁, hpart, hv⟩ := h₁
    replace h₁ : d₁.fs = w.fs := h₁
    replace hpart : w.fs.names (partialPath dest offer.filename) = some (.file source.ino) := hpart
    replace hv : Verifies offer.fileSize.toNat (blake3 content) (w.fs.data source.ino) := hv
    rw [← h₁] at h hreceipt hpart hv
    have hcertified : Certified dest offer (receiptV03 offer content)
        (d₁.fs.setName (finalPath dest offer.filename) (.file source.ino)) :=
      .link hreceipt rfl rfl hpart hv h.final
    have hdir : d₁.fs.isDir (finalPath dest offer.filename).dropLast := by
      rw [dropLast_finalPath]
      exact isDir_of_names_partialPath (by rw [hpart]; simp)
    rw [ensures_bind, World.ensures_onDisk]
    refine (promotePartialNoClobber_spec partialPath_ne_nil finalPath_ne_nil hdir hpart).mono
      fun o d₂ h₂ => ?_
    cases o with
    | err =>
      obtain ⟨hn, -⟩ | ⟨-, hf, -⟩ := h₂
      · exact absurd h.final hn
      · exact absurd hf Bool.false_ne_true
    | halt =>
      obtain ⟨-, heq | ⟨-, heq⟩⟩ := h₂
      · rw [← heq] at h
        exact .underway h
      · rw [← heq] at hcertified
        exact .certified hcertified
    | ok =>
      rw [← h₂.2] at hcertified
      exact World.ensures_onDisk_attempt_bind removeChunkState_within
        (fun _ d₃ h₃ => settling_verified (w := { w with disk := d₃ })
          (.certified (hcertified.cleaned h₃)))
        (fun _ d₃ h₃ => settling_verified (w := { w with disk := d₃ })
          (.certified (hcertified.cleaned h₃)))
        fun d₃ h₃ => .certified (hcertified.cleaned h₃)
  · exact ensures_pure.mpr ⟨.underway (hsame hd.1), fun _ => ⟨hsame hd.1, hfed.congr rfl⟩⟩
  · exact .underway (hsame hd.1)

/-- **Reconciling** publishes what is verified, and never takes a published file for a transfer
that is underway. -/
theorem reconcileCompletedTransferV03_ongoing (hsafe : isSafeFilename offer.filename)
    (h : OngoingV03 dest offer content w.fs) (hfed : FedV03 offer content w) :
    (reconcileCompletedTransferV03 dest offer).Ensures w (SettlingV03 dest offer content) := by
  have hsame {d : Disk (.alone false true)} (hd : d.fs = w.fs) :
      OngoingV03 dest offer content d.fs := by
    rw [hd]
    exact h
  rw [reconcileCompletedTransferV03, ensures_bind, ensures_ofExcept]
  simp only [hsafe, Bool.not_true, refuseIf, Bool.false_eq_true, if_false, post_ok]
  refine World.ensures_onDisk_bind (Storage.pathExists_spec completionReceiptPath_ne_nil) ?_
    (fun _ _ h₁ => hsame h₁.1) fun _ h₁ => hsame h₁.1
  intro b d₁ h₁
  obtain ⟨h₁, hb⟩ := h₁
  replace h₁ : d₁.fs = w.fs := h₁
  by_cases hreceipt : w.fs.names (completionReceiptPath dest offer.transferId) = none
  · -- there is no receipt
    rw [if_neg fun ht => hb.mp ht hreceipt]
    refine ensures_pure.mpr ⟨hsame h₁, fun _ => ⟨?_, hfed.congr rfl⟩⟩
    cases h with
    | underway h =>
      rw [← h₁] at h
      exact h
    | certified h =>
      obtain ⟨i, hi⟩ := Fs.names_of_receipt h.receipt_eq
      cases hreceipt.symm.trans hi
  rw [if_pos (hb.mpr hreceipt)]
  have hrecorded := h.receipt hreceipt
  refine World.ensures_onDisk_bind readCompletionReceipt_spec ?_
    (fun _ _ h₂ => hsame (h₂.1.trans h₁)) fun _ h₂ => hsame (h₂.1.trans h₁)
  intro receipt d₂ h₂
  obtain ⟨h₂, hr⟩ := h₂
  replace h₂ : d₂.fs = w.fs := h₂.trans h₁
  replace hr : d₁.fs.receipt dest offer.transferId = some receipt := hr
  rw [h₁] at hr
  obtain rfl := Option.some.inj (hrecorded.symm.trans hr)
  rw [ensures_bind, ensures_ofExcept]
  simp only [receiptV03, ne_eq, not_true, or_self, if_false, post_ok]
  refine World.ensures_onDisk_bind (Storage.pathExists_spec finalPath_ne_nil) ?_
    (fun _ _ h₃ => hsame (h₃.1.trans h₂)) fun _ h₃ => hsame (h₃.1.trans h₂)
  intro b d₃ h₃
  obtain ⟨h₃, hb⟩ := h₃
  replace hb : b = true ↔ d₂.fs.names (finalPath dest offer.filename) ≠ none := hb
  replace h₃ : d₃.fs = w.fs := h₃.trans h₂
  rw [h₂] at hb
  cases h with
  | certified h =>
    obtain ⟨bytes, hread, -⟩ := id h.content
    obtain ⟨i, hi, -⟩ := Fs.read_eq_some.mp hread
    rw [if_pos (hb.mpr (by simp [hi]))]
    rw [← h₃] at h
    exact reconcileFromFinal_ongoing (w := { w with disk := d₃ }) h
  | underway h =>
    rw [if_neg fun ht => hb.mp ht h.final]
    refine World.ensures_onDisk_bind (Storage.pathExists_spec partialPath_ne_nil) ?_
      (fun _ _ h₄ => hsame (h₄.1.trans h₃)) fun _ h₄ => hsame (h₄.1.trans h₃)
    intro b d₄ h₄
    replace h₄ : d₄.fs = w.fs := h₄.1.trans h₃
    rw [← h₄] at h hrecorded
    split_ifs
    · exact reconcileFromPartial_ongoing (w := { w with disk := d₄ }) h (hfed.congr rfl) hrecorded
    · exact ensures_pure.mpr ⟨.underway h, fun _ => ⟨h, hfed.congr rfl⟩⟩

/-! ### A session -/

/-- A receiver that is prepared, and the files of a transfer that is underway. -/
theorem UnderwayV03.prepared {fs fs' : Fs} {prepared : PreparedReceiverV03} {faults : Bool}
    (h : UnderwayV03 dest offer content fs) (hsafe : isSafeFilename offer.filename)
    (hp : Prepared faults fs (partialPath dest offer.filename) offer prepared fs') :
    UnderwayV03 dest offer content fs' := by
  obtain ⟨fs₁, hopened, rfl⟩ := hp.resized
  exact (h.opened hsafe hopened).reworked hsafe (hopened.names partialPath_ne_nil) reworked_setData

theorem receiveOfferedV03_ongoing (hsafe : isSafeFilename offer.filename)
    (h : OngoingV03 dest offer content w.fs) (hfed : FedV03 offer content w) :
    (receiveOfferedV03 dest offer).Ensures w fun _ w' => OngoingV03 dest offer content w'.fs := by
  refine Ensures.bind_mapErr (reconcileCompletedTransferV03_ongoing hsafe h hfed) ?_
    (fun _ _ h => h) fun _ h => h
  intro outcome w₁ h₁
  cases outcome with
  | reconciled path => exact ensures_pure.mpr h₁.1
  | notReconciled =>
    obtain ⟨hunderway, hfed⟩ := h₁.2 rfl
    have hmade {d : Disk (.alone false true)}
        (hw : Fs.Within (Fs.chain (partialsDirectory dest)) ∅ ∅ w₁.fs d.fs) :
        UnderwayV03 dest offer content d.fs :=
      hunderway.made hsafe (hw.mono Set.subset_union_left le_rfl fun _ hk => .inl hk)
    refine World.ensures_onDisk_bind Storage.ensureDirectory_spec ?_
      (fun _ _ h₂ => .underway (hmade h₂.1)) fun _ h₂ => .underway (hmade h₂.1)
    intro _ d₂ h₂
    have hunderway := hmade h₂.1
    have hopened {d : Disk (.alone false true)} (hd : d.fs = d₂.fs ∨ ∃ i, OpenedPartial d₂.fs
        (partialPath dest offer.filename) i d.fs) : OngoingV03 dest offer content d.fs := by
      obtain heq | ⟨i, ho⟩ := hd
      · rw [heq]
        exact .underway hunderway
      · exact .underway (hunderway.opened hsafe ho)
    refine World.ensures_onDisk_bind (prepareReceiverV03_spec partialPath_ne_nil) ?_
      (fun _ _ h₃ => hopened h₃.1) fun _ h₃ => hopened h₃.1
    intro prepared d₃ hprepared
    replace hunderway : UnderwayV03 dest offer content d₃.fs := hunderway.prepared hsafe hprepared
    have hconsistent := Prepared.consistent partialPath_ne_nil hprepared
    have hsame {w' : Session (.alone false true)} (hd : w'.disk = d₃) :
        OngoingV03 dest offer content w'.fs := by
      rw [show w'.fs = d₃.fs from congrArg Disk.fs hd]
      exact .underway hunderway
    -- the inventory is announced, and the chunks are received
    have hfed₃ : FedV03 offer content { w₁ with disk := d₃ } := hfed.congr rfl
    refine Ensures.bind_mapErr (fed_negotiateInventory hfed₃) ?_ (fun _ _ hd => hsame hd)
      fun _ hd => hsame hd
    intro accepted w₄ h₄
    obtain ⟨rfl, hfed, hd⟩ := h₄
    have hreceiving : ReceivingV03 dest offer content prepared.receiver.chunkState.layout
        prepared.file prepared.receiver w₄ := by
      have hfs : w₄.fs = d₃.fs := congrArg Disk.fs hd
      exact ⟨⟨hfs ▸ hconsistent, rfl⟩, hfs ▸ hunderway, hfed⟩
    have htransfer : (receiveTransfer ⟨prepared.partialPath, prepared.file, prepared.receiver,
        prepared.identity⟩).Ensures w₄ _ :=
      receiveTransfer_ongoing hprepared.partialPath hsafe hreceiving
    refine Ensures.bind_mapErr htransfer ?_ (fun _ _ h₅ => .underway h₅) fun _ h₅ => .underway h₅
    intro received w₅ h₅
    obtain ⟨hfile, hpath, hidentity, hdigest, hreceived⟩ := h₅
    replace hpath : received.partialPath = partialPath dest offer.filename :=
      hpath.trans hprepared.partialPath
    have hreceipt : received.receipt = receiptV03 offer content := by
      rw [ReceivedCompleteV03.receipt, receiptV03, hidentity, hprepared.identity, hdigest,
        hreceived.holding.layout_eq, hprepared.fileSize]
    have hpart : w₅.fs.names received.partialPath = some (.file received.file.ino) := by
      rw [hpath, hfile]
      exact hreceived.holding.consistent.opened
    refine Ensures.bind_mapErr (complete_ongoing hpath hsafe hreceipt hpart hreceived.underway)
      (fun _ _ h₆ => ?_) (fun _ _ h₆ => h₆) fun _ h₆ => h₆
    exact ensures_pure.mpr h₆

/-- The offer that is read is the one that is made. -/
theorem fed_receiveOfferV03 (h : FedV03 offer content w) : receiveOfferV03.Ensures w (Post
    (fun o w' => o = offer ∧ FedV03 offer content w' ∧ w'.disk = w.disk)
    (fun _ w' => w'.disk = w.disk) fun w' => w'.disk = w.disk) := by
  refine Ensures.bind_mapErr h.readFrame ?_ (fun _ _ hd => hd) fun _ hd => hd
  intro hello w₁ h₁
  obtain ⟨-, hfed, hd₁⟩ := h₁
  rw [ensures_bind, ensures_ofExcept]
  cases refuseIf (hello.messageType ≠ .hello)
    (ReceiverV03SessionError.unexpectedMessageType hello.messageType) with
  | error e => exact hd₁
  | ok =>
    simp only [post_ok]
    rw [ensures_bind, ensures_ofExcept]
    cases refuseIf (hello.payload ≠ [wfpVersionV03])
      (ReceiverV03SessionError.invalidHelloPayload hello.payload.length) with
    | error e => exact hd₁
    | ok =>
      refine Ensures.bind (fed_sendFrameV03 hfed) ?_ (fun _ _ h₂ => h₂.2.trans hd₁)
        fun _ h₂ => h₂.2.trans hd₁
      intro _ w₂ h₂
      refine Ensures.bind_mapErr h₂.1.readFrame ?_
        (fun _ _ h₃ => h₃.trans (h₂.2.trans hd₁)) fun _ h₃ => h₃.trans (h₂.2.trans hd₁)
      intro offerFrame w₃ h₃
      obtain ⟨hF, hfed, hd₃⟩ := h₃
      replace hd₃ : w₃.disk = w.disk := hd₃.trans (h₂.2.trans hd₁)
      rw [ensures_bind, ensures_ofExcept]
      cases htype : refuseIf (offerFrame.messageType ≠ .offer)
        (ReceiverV03SessionError.unexpectedMessageType offerFrame.messageType) with
      | error e => exact hd₃
      | ok =>
        have htype : offerFrame.messageType = .offer := by simpa using refuseIf_eq_ok.mp htype
        have hdecode := decodeOfferV03_eq_ok.mpr (hF.offer htype)
        simp only [post_ok]
        rw [hdecode, ensures_ofExcept]
        exact ⟨rfl, hfed, hd₃⟩

/-- **A whole session.** -/
theorem receiveSessionV03_ongoing (hsafe : isSafeFilename offer.filename)
    (h : OngoingV03 dest offer content w.fs) (hfed : FedV03 offer content w) :
    (receiveSessionV03 dest).Ensures w fun _ w' => OngoingV03 dest offer content w'.fs := by
  have hmade {d : Disk (.alone false true)} (hw : Fs.Within (Fs.chain dest) ∅ ∅ w.fs d.fs) :
      OngoingV03 dest offer content d.fs :=
    h.made hsafe (hw.mono (fun q hq => .inl ⟨hq.1, hq.2.trans prefix_partialsDirectory⟩) le_rfl
      fun _ hk => .inl hk)
  refine World.ensures_onDisk_bind Storage.ensureDirectory_spec ?_ (fun _ _ h₁ => hmade h₁.1)
    fun _ h₁ => hmade h₁.1
  intro _ d₁ h₁
  have hongoing := hmade h₁.1
  have hsame {w' : Session (.alone false true)} (hd : w'.disk = d₁) :
      OngoingV03 dest offer content w'.fs := by
    rw [show w'.fs = d₁.fs from congrArg Disk.fs hd]
    exact hongoing
  have hfed₁ : FedV03 offer content { w with disk := d₁ } := hfed.congr rfl
  refine Ensures.bind (fed_receiveOfferV03 hfed₁) ?_ (fun _ _ hd => hsame hd) fun _ hd => hsame hd
  intro o w₂ h₂
  obtain ⟨rfl, hfed, hd⟩ := h₂
  exact receiveOfferedV03_ongoing hsafe (hsame hd) hfed

/-! ### From session to session -/

variable {fs fs' : Fs}

/-- A session of the offer with a sender of the file, of which anything may be lost: some beginning
of what the sender wrote arrives, and the receiver may be killed. -/
inductive LossySessionV03 (dest : Path) (offer : FileOfferV03) (content : Bytes) : Fs → Fs → Prop
  | intro (disk : Disk (.alone false true)) (net : Net) (attempt : AttemptV03 offer content)
      (received : net.input <+: attempt.output) :
      LossySessionV03 dest offer content disk.fs (receiveSessionV03 dest (.start disk net)).2.fs

/-- **One session.** Whatever becomes of it, the next one can start from what it leaves. -/
theorem OngoingV03.session (h : OngoingV03 dest offer content fs)
    (hsafe : isSafeFilename offer.filename) (hs : LossySessionV03 dest offer content fs fs') :
    OngoingV03 dest offer content fs' := by
  obtain ⟨disk, net, attempt, hreceived⟩ := hs
  obtain ⟨frames, hframes, hout⟩ := attempt.exists_frames
  have hfed : FedV03 offer content (.start disk net) := ⟨frames, hframes, hreceived.trans hout⟩
  have hspec : (receiveSessionV03 dest).Ensures (.start disk net) fun _ w' =>
      OngoingV03 dest offer content w'.fs := receiveSessionV03_ongoing hsafe h hfed
  exact hspec.apply

/-- **The rule for interrupted sessions.** -/
theorem OngoingV03.sessions (h : OngoingV03 dest offer content fs)
    (hsafe : isSafeFilename offer.filename)
    (hs : Relation.ReflTransGen (LossySessionV03 dest offer content) fs fs') :
    OngoingV03 dest offer content fs' := by
  induction hs with
  | refl => exact h
  | tail _ hs ih => exact ih.session hsafe hs

/-- What has the digests of the offered file, and of its chunks, is the offered file. -/
structure GenuineFilesV03 (dest : Path) (offer : FileOfferV03) (content : Bytes) (fs : Fs) :
    Prop where
  held : ∀ layout, ChunkLayout.new offer.fileSize offer.chunkSize = .ok layout →
    GenuineV03 content (partialPath dest offer.filename) layout fs
  final : ∀ bytes, fs.read (finalPath dest offer.filename) = some bytes →
    bytes.length = content.length → blake3 bytes = blake3 content → bytes = content

end

/-! ### A session that is cut short after the first chunk -/

/-- An attempt to send a file of two chunks to a receiver that has none of them. -/
def twoChunkAttempt : AttemptV03 twoChunkOffer [120, 121] where
  reserve _ := true
  path := twoChunkPath
  connected := .ok ()
  chunkSize := oneByte
  input := encodings [frameV03 .helloAck [wfpVersionV03], resumeFrame 0]
  closing := some .connectionReset
  room := none
  chunkSize_eq := rfl
  fileName _ h := (Option.some.inj h).symm
  fileSize _ h := by
    cases h
    rfl
  content _ h := by
    cases h
    rfl

/-- The first of the two chunks is all that arrives. -/
def firstChunk : Net :=
  .closed (encodings [frameV03 .hello [wfpVersionV03], frameV03 .offer twoChunkOffer.payload,
    acceptFrame, frameV03 .chunkStart (encodeChunkStartV03 ⟨0, digestOf [120]⟩),
    frameV03 .data (word 0 ++ [120])])

end Warpfile.V03
