import Warpfile.V02.Prepare

/-!
# Receiving the data and committing the transfer

Nothing is read back before the file is published. What stands for its contents is the running
hash, so the loop keeps an invariant (`Receiving`): the hasher has absorbed exactly the bytes of
the inode, and the counter is their number.
-/

namespace Warpfile.V02

open Prog

variable [Crates] {faults crashes : Bool}

/-! ### The notes of the data stage -/

/-- The frames of the payloads `ps` were read. -/
def dataEvents (ps : List Bytes) : List NetEvent := ps.map fun p => .received (Frame.new .data p)

omit [Crates] in
theorem quiet_dataEvents (ps : List Bytes) : Quiet (dataEvents ps) := by
  intro event he
  obtain ⟨p, -, rfl⟩ := List.mem_map.mp he
  rfl

omit [Crates] in
theorem payloads_dataEvents {t : MessageType} {ps : List Bytes} :
    payloads t (dataEvents ps) = if t = .data then ps else [] := by
  induction ps with
  | nil => simp [dataEvents]
  | cons p ps ih =>
    rw [dataEvents, List.map_cons, payloads_received, ← dataEvents, ih]
    split_ifs <;> simp_all

omit [Crates] in
theorem quiet_complete (ps : List Bytes) (hash : Bytes) :
    Quiet (dataEvents ps ++ [.received (Frame.new .complete hash)]) :=
  (quiet_dataEvents ps).concat rfl

/-! ### Receiving -/

section Receiving

variable {w : Session (.alone faults crashes)} {i size : ℕ} {bytes : Bytes}

/-- The loop invariant: the inode holds what it held at first and the payloads so far, and the
hasher and the counter agree with it. -/
structure Receiving (w : Session (.alone faults crashes)) (i size : ℕ) (bytes : Bytes)
    (ps : List Bytes) (progress : Progress) (t : Session (.alone faults crashes)) : Prop where
  fs : t.fs = w.fs.setData i (bytes ++ ps.flatten)
  ino : progress.output.ino = i
  hasher : progress.hasher = bytes ++ ps.flatten
  bytesReceived : progress.bytesReceived = (bytes ++ ps.flatten).length
  at_end : progress.output.append = true ∨ progress.output.pos = (bytes ++ ps.flatten).length
  le_size : (bytes ++ ps.flatten).length ≤ size

/-- How the data stage fails: the connection was lost and the inode holds what came; or the
file is not kept. -/
def TransferFailed (fs : Fs) (i size : ℕ) (bytes : Bytes) (e : ReceiverError)
    (es : List NetEvent) (fs' : Fs) : Prop :=
  (∃ ps e', e = .protocol e' ∧ es = dataEvents ps ++ [.receiveFailed e'] ∧
      fs' = fs.setData i (bytes ++ ps.flatten) ∧ (bytes ++ ps.flatten).length ≤ size) ∨
    shouldPreservePartial e = false ∧ ∃ bs, fs' = fs.setData i bs

omit [Crates] in
/-- A failed data stage has written to the one inode only. -/
theorem TransferFailed.setData {fs fs' : Fs} {e : ReceiverError} {es : List NetEvent}
    (h : TransferFailed fs i size bytes e es fs') : ∃ bs, fs' = fs.setData i bs := by
  rcases h with ⟨ps, -, -, -, h, -⟩ | ⟨-, h⟩
  · exact ⟨_, h⟩
  · exact h

/-- The process was killed, or waits for ever. -/
def TransferHalted (w : Session (.alone faults crashes)) (i : ℕ)
    (t : Session (.alone faults crashes)) : Prop :=
  ∃ es, Gained w es t ∧ Quiet es ∧ ∃ bs, t.fs = w.fs.setData i bs

omit [Crates] in
/-- The payload of a frame is written where the invariant says. -/
private theorem Receiving.setData_written {ps : List Bytes} {progress : Progress}
    {t : Session (.alone faults crashes)} (h : Receiving w i size bytes ps progress t) (bs : Bytes) :
    t.fs.setData progress.output.ino
        (progress.output.written (t.fs.data progress.output.ino) bs) =
      w.fs.setData i (bytes ++ (ps ++ [bs]).flatten) := by
  have hdata : t.fs.data i = bytes ++ ps.flatten := by
    rw [h.fs]
    simp
  rw [h.ino, hdata, File.written_at_end h.at_end, h.fs, Fs.setData_setData]
  simp

omit [Crates] in
/-- What ends the data stage by an error that is none of the connection. -/
private theorem TransferFailed.discarding {e : ReceiverError} {es : List NetEvent} {fs' : Fs}
    (he : shouldPreservePartial e = false) {bs : Bytes} (h : fs' = w.fs.setData i bs) :
    TransferFailed w.fs i size bytes e es fs' := .inr ⟨he, bs, h⟩

omit [Crates] in
/-- One frame of the data stage keeps the invariant. -/
theorem receiveDataFrame_spec {ps : List Bytes} {progress : Progress}
    {t : Session (.alone faults crashes)} (h : Receiving w i size bytes ps progress t)
    (hg : Gained w (dataEvents ps) t) :
    (receiveDataFrame size progress).Ensures t (Post
      (fun r t' => Sum.elim
        (fun progress' => (∃ p, Receiving w i size bytes (ps ++ [p]) progress' t' ∧
            Gained w (dataEvents (ps ++ [p])) t') ∧ t'.net.input.length < t.net.input.length)
        (fun r => Receiving w i size bytes ps r.1 t' ∧
          Gained w (dataEvents ps ++ [.received (Frame.new .complete r.2)]) t') r)
      (fun e t' => ∃ es, Gained w es t' ∧ Quiet es ∧ TransferFailed w.fs i size bytes e es t'.fs)
      (TransferHalted w i)) := by
  have hq := quiet_dataEvents ps
  refine Ensures.bind receive_noted (fun frame t₁ h₁ => ?_) (fun e t₁ h₁ => ?_) fun t₁ h₁ => ?_
  · obtain ⟨hn, hframe, hin⟩ := h₁
    have hlt : t₁.net.input.length < t.net.input.length := by
      have := frame.length_encoding_pos
      rw [hin, List.length_append]
      omega
    have hg₁ : Gained w (dataEvents ps ++ [.received frame]) t₁ := hg.trans hn.gained hq.unverified
    have hq₁ : Quiet (dataEvents ps ++ [.received frame]) := hq.concat rfl
    have hfs₁ : t₁.fs = w.fs.setData i (bytes ++ ps.flatten) := hn.fs_eq.trans h.fs
    -- an error that the receiver raises itself
    have refused {e : ReceiverError} (he : shouldPreservePartial e = false) :
        ∃ es, Gained w es t₁ ∧ Quiet es ∧ TransferFailed w.fs i size bytes e es t₁.fs :=
      ⟨_, hg₁, hq₁, .discarding he hfs₁⟩
    cases ht : frame.messageType with
    | data =>
      simp only
      split
      · rw [ensures_bind, ensures_throw]
        exact refused rfl
      split
      · rw [ensures_bind, ensures_throw]
        exact refused rfl
      rename_i hsize
      have hpos : progress.output.append = true ∨
          progress.output.pos ≤ (t₁.disk.fs.data progress.output.ino).length := by
        refine h.at_end.imp_right fun hpos => ?_
        rw [← World.fs, hfs₁, h.ino, hpos]
        simp
      have hwritten (bs : Bytes) : t₁.fs.setData progress.output.ino
          (progress.output.written (t₁.fs.data progress.output.ino) bs) =
            w.fs.setData i (bytes ++ (ps ++ [bs]).flatten) := by
        rw [hn.fs_eq]
        exact h.setData_written bs
      refine World.ensures_onDisk_bind (File.writeAll_spec hpos) ?_ (fun e d hd => ?_)
        fun d hd => ?_
      · rintro output d ⟨hd, rfl⟩
        rw [ensures_pure]
        have hsize : progress.bytesReceived + frame.payload.length ≤ size := not_lt.mp hsize
        have hlen : (bytes ++ (ps ++ [frame.payload]).flatten).length =
            progress.bytesReceived + frame.payload.length := by
          rw [h.bytesReceived]
          simp [Nat.add_assoc]
        refine ⟨⟨frame.payload, ⟨hd.trans (hwritten _), h.ino, ?_, ?_, ?_, ?_⟩, ?_⟩, hlt⟩
        · simp [h.hasher]
        · exact hlen.symm
        · refine h.at_end.imp_right fun hpos => ?_
          rw [hlen, h.bytesReceived]
          exact congrArg (· + frame.payload.length) hpos
        · rwa [hlen]
        · rw [hframe, ht] at hg₁
          have hg₂ : Gained w _ { t₁ with disk := d } := hg₁.of_eq rfl (hq.concat rfl).unverified
          simpa [dataEvents] using hg₂
      · obtain ⟨-, n, hd⟩ := hd
        exact ⟨_, hg₁.of_eq rfl hq₁.unverified, hq₁, .discarding rfl (hd.trans (hwritten _))⟩
      · obtain ⟨-, n, hd⟩ := hd
        exact ⟨_, hg₁.of_eq rfl hq₁.unverified, hq₁, _, hd.trans (hwritten _)⟩
    | complete =>
      simp only
      split
      · rw [ensures_bind, ensures_throw]
        exact refused rfl
      · rw [hframe, ht] at hg₁
        exact ensures_pure.mpr ⟨{ h with fs := hfs₁ }, hg₁⟩
    | cancel =>
      simp only
      split
      · rw [ensures_bind, ensures_throw]
        exact refused rfl
      · exact ensures_throw.mpr (refused rfl)
    | _ => exact ensures_throw.mpr (refused rfl)
  · obtain ⟨e', rfl, hn⟩ := h₁
    exact ⟨_, hg.trans hn.gained hq.unverified, hq.concat rfl,
      .inl ⟨ps, e', rfl, rfl, hn.fs_eq.trans h.fs, h.le_size⟩⟩
  · exact ⟨_, hg.of_eq h₁.2 hq.unverified, hq, _, (congrArg Disk.fs h₁.1).trans h.fs⟩

/-- The data stage as a whole: when it succeeds, the inode holds what was there and the payloads,
and their digest is the one that COMPLETE carries. -/
theorem receiveFileData_spec {output : File} (hino : output.ino = i) (hdata : w.fs.data i = bytes)
    (hpos : output.append = true ∨ output.pos = bytes.length) :
    (receiveFileData output size bytes.length bytes).Ensures w (Post
      (fun completed t => ∃ ps, t.fs = w.fs.setData i (bytes ++ ps.flatten) ∧
        (bytes ++ ps.flatten).length = size ∧ completed.blake3 = blake3 (bytes ++ ps.flatten) ∧
        completed.source.ino = i ∧ Gained w (dataEvents ps ++
          [.received (Frame.new .complete (blake3 (bytes ++ ps.flatten)).1)]) t)
      (fun e t => ∃ es, Gained w es t ∧ Quiet es ∧ TransferFailed w.fs i size bytes e es t.fs)
      (TransferHalted w i)) := by
  unfold receiveFileData
  split
  · rw [ensures_bind, ensures_throw]
    exact ⟨[], .of_log_eq rfl, by simp [Quiet], .discarding rfl Fs.setData_self.symm⟩
  rename_i hsize
  have start : Receiving w i size bytes [] { output, bytesReceived := bytes.length, hasher := bytes } w :=
    { fs := by simp [← hdata, Fs.setData_self]
      ino := hino
      hasher := by simp
      bytesReceived := by simp
      at_end := by simpa using hpos
      le_size := by simpa using not_lt.mp hsize }
  refine Ensures.bind (R := Post
      (fun r t => ∃ ps, Receiving w i size bytes ps r.1 t ∧
        Gained w (dataEvents ps ++ [.received (Frame.new .complete r.2)]) t)
      (fun e t => ∃ es, Gained w es t ∧ Quiet es ∧ TransferFailed w.fs i size bytes e es t.fs)
      (TransferHalted w i)) ?_ ?_ (fun _ _ h => h) fun _ h => h
  · refine Ensures.loop
      (fun progress t => ∃ ps, Receiving w i size bytes ps progress t ∧ Gained w (dataEvents ps) t)
      ?_ ⟨[], start, .of_log_eq rfl⟩
    rintro progress t ⟨ps, h, hg⟩
    refine (receiveDataFrame_spec h hg).mono fun o t' h' => ?_
    rcases o with (progress' | r) | e | _
    · obtain ⟨⟨p, h', hg'⟩, hlt⟩ := h'
      exact ⟨⟨_, h', hg'⟩, hlt⟩
    · exact ⟨ps, h'⟩
    · exact h'
    · exact h'
  · rintro ⟨progress, senderHash⟩ t ⟨ps, h, hg⟩
    have hq : Quiet (dataEvents ps ++ [.received (Frame.new .complete senderHash)]) :=
      (quiet_dataEvents ps).concat rfl
    have refused {e : ReceiverError} {d : Disk (.alone faults crashes)} (hd : d.fs = t.fs)
        (he : shouldPreservePartial e = false) : ∃ es, Gained w es { t with disk := d } ∧ Quiet es ∧
          TransferFailed w.fs i size bytes e es d.fs :=
      ⟨_, hg.of_eq rfl hq.unverified, hq, .discarding he (hd.trans h.fs)⟩
    refine World.ensures_onDisk_bind File.syncAll_spec ?_ (fun e d hd => refused hd.1 rfl)
      fun d hd => ⟨_, hg.of_eq rfl hq.unverified, hq, _, hd.1.trans h.fs⟩
    rintro ⟨⟩ d hd
    split
    · rw [ensures_bind, ensures_throw]
      exact refused hd rfl
    rename_i hlen
    simp only
    split
    · rw [ensures_bind, ensures_throw]
      exact refused hd rfl
    rename_i hdigest
    replace hdigest : senderHash = (blake3 progress.hasher).1 := not_not.mp hdigest
    rw [ensures_pure]
    refine ⟨ps, hd.trans h.fs, ?_, ?_, h.ino, ?_⟩
    · rw [← h.bytesReceived]
      exact not_not.mp hlen
    · exact congrArg blake3 h.hasher
    · rw [h.hasher] at hdigest
      rw [← hdigest]
      exact hg.of_eq rfl hq.unverified

end Receiving

/-! ### Committing -/

section Commit

variable {dest : Path} {offer : FileOffer} {digest : Digest} {i : ℕ}
  {w : Session (.alone faults crashes)}

/-- The receipt of a transfer of the offered file. -/
def receiptForOffer (offer : FileOffer) (digest : Digest) : CompletionReceipt where
  transferId := offer.transferId
  filename := offer.filename
  fileSize := offer.fileSize
  blake3 := digest

/-- What committing a transfer may have done at any moment: the file is where it was, or it is
published; and it is published only after its receipt. -/
structure Committing (dest : Path) (offer : FileOffer) (digest : Digest) (i : ℕ) (fs fs' : Fs) :
    Prop where
  within : Fs.Within (Fs.chain (receiptsDirectory dest)) (insert (finalPath dest offer.filename)
    (scratch (partialPath dest offer.filename) ∪ receiptNames dest offer.transferId)) ∅ fs fs'
  kept : fs.ReceiptKept dest (receiptForOffer offer digest) fs'
  place : fs'.names (finalPath dest offer.filename) = none ∧
      fs'.names (partialPath dest offer.filename) = some (.file i) ∨
    fs.ReceiptPublished dest (receiptForOffer offer digest) fs' ∧
      fs'.names (finalPath dest offer.filename) = some (.file i) ∧
      fs'.names (partialPath dest offer.filename) = none

/-- The outcomes of committing a transfer. -/
def CommitPost (dest : Path) (offer : FileOffer) (digest : Digest) (i : ℕ)
    (w : Session (.alone faults crashes)) :
    Outcome ReceiverError Unit → Session (.alone faults crashes) → Prop :=
  Post (fun _ w' => Committing dest offer digest i w.fs w'.fs ∧
      w'.fs.names (finalPath dest offer.filename) ≠ none ∧
      Gained w [.sent (Frame.new .verified [])] w')
    (fun _ w' => Committing dest offer digest i w.fs w'.fs ∧
      (w'.fs.names (finalPath dest offer.filename) ≠ none ∧
          (∃ e, Gained w [.sendFailed (Frame.new .verified []) e] w') ∨
        Gained w [] w' ∧ (faults ∨ ¬w.fs.Creatable (receiptsDirectory dest) ∨
          w.fs.Irregular (completionReceiptTemporaryPath dest offer.transferId))))
    fun w' => Committing dest offer digest i w.fs w'.fs ∧ Gained w [] w' ∧ crashes

theorem commitTransfer_spec {completed : CompletedTransfer} (hdigest : completed.blake3 = digest)
    (hino : completed.source.ino = i) (hsafe : offer.filename ≠ internalDirectoryName)
    (hR : w.fs.names (completionReceiptPath dest offer.transferId) = none)
    (hD : w.fs.names (finalPath dest offer.filename) = none)
    (hP : w.fs.names (partialPath dest offer.filename) = some (.file i)) :
    (commitTransfer dest (finalPath dest offer.filename) (partialPath dest offer.filename) offer
      completed).Ensures w (CommitPost dest offer digest i w) := by
  subst hdigest hino
  set D := finalPath dest offer.filename with hDdef
  set P := partialPath dest offer.filename with hPdef
  have hD0 : D ≠ [] := finalPath_ne_nil
  have hP0 : P ≠ [] := partialPath_ne_nil
  have hDS : D ∉ scratch P := finalPath_notMem_scratch
  have hDP : D ≠ P := fun h => hDS (.inl h)
  have hDR : D ∉ receiptNames dest offer.transferId := notMem_receiptNames (by simp [hDdef])
  have hPR : P ∉ receiptNames dest offer.transferId :=
    notMem_receiptNames (by simpa [hPdef] using receiptsDirectory_ne_partialsDirectory.symm)
  have hDK : D ∉ Fs.chain (receiptsDirectory dest) :=
    finalPath_notMem_chain_receiptsDirectory hsafe
  -- before the rename
  have before {fs : Fs} (h : w.fs.ReceiptStep dest (receiptForOffer offer completed.blake3) fs) :
      Committing dest offer completed.blake3 completed.source.ino w.fs fs ∧ fs.names D = none ∧
        fs.names P = some (.file completed.source.ino) := by
    have hD' : fs.names D = none := (h.1.names_eq' hDR hDK).trans hD
    have hP' := (h.1.names_eq hPR (by simp [hP])).trans hP
    exact ⟨⟨h.1.mono le_rfl (fun _ h => .inr (.inr h)) fun _ h => .inl h, h.2, .inl ⟨hD', hP'⟩⟩,
      hD', hP'⟩
  unfold commitTransfer
  refine World.ensures_onDisk_bind writeCompletionReceipt_spec ?_ (fun e d h => ?_)
    fun d h => ⟨(before h.1).1, .of_log_eq rfl, h.2⟩
  · rintro ⟨⟩ d₁ ⟨hstep, hpub⟩
    replace hpub : w.fs.ReceiptPublished dest (receiptForOffer offer completed.blake3) d₁.fs := by
      refine hpub.resolve_left fun h => ?_
      exact absurd ((Fs.receipt_eq_none hR).symm.trans h) (by simp)
    obtain ⟨hc, hD₁, hP₁⟩ := before hstep
    have hdir : d₁.fs.isDir D.dropLast := by
      rw [hDdef, dropLast_finalPath]
      have hne : d₁.fs.names (partialPath dest offer.filename) ≠ none := by simp [← hPdef, hP₁]
      exact isDir_of_names_partialPath hne
    have stayed {fs' : Fs} (h : fs' = d₁.fs) :
        Committing dest offer completed.blake3 completed.source.ino w.fs fs' := by rwa [h]
    -- after the rename
    have moved {fs₁ fs' : Fs} (h₁ : fs₁ = d₁.fs.move P D (.file completed.source.ino))
        (h : Fs.Within ∅ (metadataNames P) ∅ fs₁ fs') :
        Committing dest offer completed.blake3 completed.source.ino w.fs fs' ∧ fs'.names D ≠ none := by
      subst h₁
      have hnames := Fs.names_move hP₁ (by simp) hD0 hdir (by simp [hD₁])
      have hD' : fs'.names D = some (.file completed.source.ino) := by
        rw [h.names_eq' (fun h => hDS (.inr h)) (Set.notMem_empty _), hnames, Function.update_self]
      have hP' : fs'.names P = none := by
        rw [h.names_eq' (notMem_metadataNames hP0) (Set.notMem_empty _), hnames,
          Function.update_of_ne hDP.symm, Function.update_self]
      have hwithin : Fs.Within ∅ (insert D (scratch P)) ∅ d₁.fs fs' :=
        (Fs.Within.move hP₁ (.inr (.inl rfl)) (.inl rfl)).trans
          (h.mono le_rfl (fun _ h => .inr (.inr h)) fun _ h => .inl h)
      have hpub' := hpub.within hwithin completionReceiptPath_notMem
      refine ⟨⟨hc.within.trans (hwithin.mono (Set.empty_subset _) ?_ fun _ h => .inl h),
        .inr hpub', .inr ⟨hpub', hD', hP'⟩⟩, by simp [hD']⟩
      exact Set.insert_subset_insert Set.subset_union_left
    -- VERIFIED is the last thing the receiver writes
    have verified {w₁ : Session (.alone faults crashes)}
        (h : Committing dest offer completed.blake3 completed.source.ino w.fs w₁.fs ∧
          w₁.fs.names D ≠ none) (hlog : w₁.log = w.log) :
        sendVerified.Ensures w₁ (CommitPost dest offer completed.blake3 completed.source.ino w) := by
      refine send_noted.mono fun o w' h' => ?_
      cases o with
      | ok => exact ⟨by rw [h'.fs_eq]; exact h.1, by rw [h'.fs_eq]; exact h.2,
          (gained_congr hlog).mp h'.gained⟩
      | err =>
        obtain ⟨e, -, h'⟩ := h'
        exact ⟨by rw [h'.fs_eq]; exact h.1, .inl ⟨by rw [h'.fs_eq]; exact h.2, e,
          (gained_congr hlog).mp h'.gained⟩⟩
      | halt => exact h'.elim
    refine World.ensures_onDisk_bind (Storage.promoteRename_spec hP0 hD0 hdir hP₁ hD₁) ?_ ?_ ?_
    · rintro ⟨⟩ d₂ h₂
      refine World.ensures_onDisk_attempt_bind removeTransferMetadata_spec
        (fun _ d₃ h => verified (moved h₂ h.1) rfl) (fun _ d₃ h => verified (moved h₂ h.1) rfl)
        fun d₃ h => ⟨(moved h₂ h.1).1, .of_log_eq rfl, h.2⟩
    · rintro e d₂ ⟨h₂, hf, -⟩
      exact ⟨h₂.elim stayed fun h => (moved h (.refl _)).1, .inr ⟨.of_log_eq rfl, .inl hf⟩⟩
    · rintro d₂ ⟨h₂, hcr⟩
      exact ⟨h₂.elim stayed fun h => (moved h (.refl _)).1, .of_log_eq rfl, hcr⟩
  · refine ⟨(before h.1).1, .inr ⟨.of_log_eq rfl, h.2.imp_right fun h => ?_⟩⟩
    exact h.imp_right fun h => h.resolve_right fun h => h hR

end Commit

end Warpfile.V02
