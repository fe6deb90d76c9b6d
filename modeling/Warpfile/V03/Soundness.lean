import Warpfile.V03.Completion
import Warpfile.V03.Coverage
import Warpfile.V03.Preparation

/-!
# What VERIFIED means in WFP/0.3

When the receiver writes VERIFIED, the final file exists and has the offered size and the digest of
the stored receipt, and after a COMPLETE this is the digest that COMPLETE carried. It is so for every
peer, for every state of the files at the start, where calls fail and where the process is killed.

VERIFIED is written in three places: after the final file was checked against the receipt, after the
partial file was checked against it and linked, and after a transfer was finalized. In each of them
the bytes were hashed before, and from then on no inode that existed is written to.
-/

namespace Warpfile.V03

open Prog

section

variable [Crates] {faults crashes : Bool} {dest : Path} {offer : FileOfferV03}

/-! ### The files -/

/-- The offered file is published, and a receipt for it stored. -/
structure Certified (dest : Path) (offer : FileOfferV03) (receipt : CompletionReceipt) (fs : Fs) :
    Prop where
  receipt_eq : fs.receipt dest offer.transferId = some receipt
  filename : receipt.filename = offer.filename
  fileSize : receipt.fileSize = offer.fileSize
  content : ∃ bytes, fs.read (finalPath dest offer.filename) = some bytes ∧
    Verifies offer.fileSize.toNat receipt.blake3 bytes

/-- What VERIFIED promises of the files `fs`, in a session with the notes `es`. -/
def VerifiedOver (dest : Path) (es : List NetEvent) (fs : Fs) : Prop :=
  ∃ payload offer receipt, payloads .offer es = [payload] ∧ decodeOfferV03 payload = .ok offer ∧
    Certified dest offer receipt fs ∧ ∀ hash ∈ payloads .complete es, receipt.blake3.1 = hash

section

variable {d : Disk (.alone faults crashes)} {receipt : CompletionReceipt} {fs fs' : Fs}

omit [Crates] in
/-- Removing the snapshot touches its two names only. -/
theorem removeChunkState_within {path : Path} : (removeChunkState path).Ensures d fun _ d' =>
    Fs.Within ∅ {chunkStateTemporaryPath path, chunkStatePath path} ∅ d.fs d'.fs := by
  refine removeChunkState_spec.mono fun o d' h => ?_
  cases o with
  | ok => exact h.1
  | err => exact h.1
  | halt => exact h.1

/-- What is certified does not depend on the names in the directory of the partial files. -/
theorem Certified.within {S : Set Path} (h : Certified dest offer receipt fs)
    (hw : Fs.Within ∅ S ∅ fs fs') (hS : ∀ p ∈ S, p.dropLast = partialsDirectory dest) :
    Certified dest offer receipt fs' := by
  obtain ⟨bytes, hread, hv⟩ := h.content
  refine ⟨hw.receipt_eq h.receipt_eq (fun hp => ?_) fun i _ => Set.notMem_empty i, h.filename,
    h.fileSize, bytes, ?_, hv⟩
  · have := hS _ hp
    rw [dropLast_completionReceiptPath] at this
    exact receiptsDirectory_ne_partialsDirectory this
  · refine (hw.read (fun hp => ?_) (fun hn => ?_) fun i _ => Set.notMem_empty i).trans hread
    · have := hS _ hp
      rw [dropLast_finalPath] at this
      exact partialsDirectory_ne_self this
    · obtain ⟨i, hi, -⟩ := Fs.read_eq_some.mp hread
      cases hn.symm.trans hi

/-- A checked partial file that is linked to the final name is certified by its receipt. -/
theorem Certified.link {i : ℕ} (hreceipt : fs.receipt dest offer.transferId = some receipt)
    (hname : receipt.filename = offer.filename) (hsize : receipt.fileSize = offer.fileSize)
    (hpart : fs.names (partialPath dest offer.filename) = some (.file i))
    (hv : Verifies offer.fileSize.toNat receipt.blake3 (fs.data i))
    (hfinal : fs.names (finalPath dest offer.filename) = none) :
    Certified dest offer receipt (fs.setName (finalPath dest offer.filename) (.file i)) := by
  have hdir : fs.isDir dest := isDir_of_names_partialPath (by rw [hpart]; simp)
  have hbind : fs.MayBind (finalPath dest offer.filename) (.file i) := by
    refine ⟨finalPath_ne_nil, by rwa [dropLast_finalPath], by simp [hfinal], fun j hj => ?_⟩
    exact fs.allocated _ j (hj ▸ hpart)
  have hw : Fs.Within ∅ {finalPath dest offer.filename, partialPath dest offer.filename} ∅ fs
      (fs.setName (finalPath dest offer.filename) (.file i)) :=
    .setName (.inl rfl) fun j hj => ⟨partialPath dest offer.filename, .inr rfl, hj ▸ hpart⟩
  refine ⟨hw.receipt_eq hreceipt (fun hp => ?_) fun j _ => Set.notMem_empty j, hname, hsize,
    fs.data i, Fs.read_eq_some.mpr ⟨i, ?_, ?_⟩, hv⟩
  · rcases hp with he | he
    · have := congrArg List.dropLast he
      rw [dropLast_completionReceiptPath, dropLast_finalPath] at this
      exact receiptsDirectory_ne_self this.symm
    · have := congrArg List.dropLast he
      rw [dropLast_completionReceiptPath, dropLast_partialPath] at this
      exact receiptsDirectory_ne_partialsDirectory this
  · rw [Fs.names_setName hbind, Function.update_self]
  · rw [Fs.data_setName]

end

/-! ### Finalizing -/

/-- **Finalizing certifies the transfer**: where it succeeds the file is published under a receipt
that carries the digest of COMPLETE. -/
theorem finalize_certified {received : ReceivedCompleteV03} {d : Disk (.alone faults crashes)}
    (hpath : received.partialPath = partialPath dest offer.filename)
    (hsafe : isSafeFilename offer.filename)
    (hidentity : received.identity = ⟨offer.transferId, offer.filename⟩)
    (hsize : received.receiver.chunkState.layout.fileSize = offer.fileSize)
    (hfile : d.fs.names received.partialPath = some (.file received.file.ino)) :
    (finalize received (finalPath dest offer.filename) (some dest)).Ensures d (Post
      (fun _ d' => Certified dest offer received.receipt d'.fs) (fun _ _ => True) fun _ => True) := by
  have hne : offer.filename ≠ "" := ne_empty_of_isSafeFilename hsafe
  have hT : received.receipt.transferId = offer.transferId := congrArg TransferIdentity.transferId hidentity
  have hname : received.receipt.filename = offer.filename := congrArg TransferIdentity.filename hidentity
  rw [hpath] at hfile
  rw [finalize, hpath, validatePartialPath_partialPath hne, ensures_bind, ensures_ofExcept]
  simp only [post_ok]
  refine Ensures.bind_mapErr (hashPhysicalFileV03_spec rfl) ?_ (fun _ _ _ => trivial)
    fun _ _ => trivial
  rintro - d₁ ⟨h₁, hverified⟩
  rw [← h₁] at hfile
  replace hverified : Verifies offer.fileSize.toNat received.senderFileHash
      (d₁.fs.data received.file.ino) := by
    rw [h₁, ← hsize]
    exact hverified
  refine Ensures.bind_mapErr writeCompletionReceipt_spec ?_ (fun _ _ _ => trivial)
    fun _ _ => trivial
  rintro - d₂ ⟨hstep, hr⟩
  have hfilename : received.receipt.filename ≠ "" := by
    rw [hname]
    exact hne
  have hrecorded : d₂.fs.receipt dest received.receipt.transferId = some received.receipt :=
    ReceiptStep.receipt_eq hstep hfilename hr
  rw [hT] at hrecorded
  -- writing the receipt leaves the partial file alone
  have hpart : d₂.fs.names (partialPath dest offer.filename) = some (.file received.file.ino) := by
    refine (hstep.1.names_eq (notMem_receiptNames ?_) (by rw [hfile]; simp)).trans hfile
    rw [dropLast_partialPath]
    exact receiptsDirectory_ne_partialsDirectory.symm
  rw [← hstep.1.data _ (d₁.fs.allocated _ _ hfile) (Set.notMem_empty _)] at hverified
  have hdir : d₂.fs.isDir (finalPath dest offer.filename).dropLast := by
    rw [dropLast_finalPath]
    exact isDir_of_names_partialPath (by rw [hpart]; simp)
  refine Ensures.bind (promotePartialNoClobber_spec partialPath_ne_nil finalPath_ne_nil hdir hpart) ?_
    (fun _ _ _ => trivial) fun _ _ => trivial
  rintro - d₃ ⟨hfinal, h₃⟩
  have hcertified : Certified dest offer received.receipt d₃.fs := by
    rw [h₃]
    exact .link hrecorded hname hsize hpart hverified hfinal
  rw [ensures_bind, ensures_attempt]
  refine removeChunkState_within.mono fun o d₄ hw => ?_
  have hleft := hcertified.within hw fun p hp =>
    (dropLast_of_mem_chunkStatePaths hp).trans dropLast_partialPath
  cases o with
  | ok => exact ensures_pure.mpr hleft
  | err => exact ensures_pure.mpr hleft
  | halt => trivial

/-! ### What a session heard -/

/-- The session attempted no VERIFIED; what it read were `offers`, `completes` and other frames. -/
def Heard (w : Session (.alone faults crashes)) (offers completes : List Bytes)
    (w' : Session (.alone faults crashes)) : Prop :=
  ∃ es, Gained w es w' ∧ Unverified es ∧ payloads .offer es = offers ∧
    payloads .complete es = completes

/-- The session attempted VERIFIED, over certified files, and nothing else. -/
def Stamped (dest : Path) (offer : FileOfferV03) (receipt : CompletionReceipt)
    (w w' : Session (.alone faults crashes)) : Prop :=
  ∃ event, event.attempted ≠ none ∧ Gained w [event] w' ∧ Certified dest offer receipt w'.fs

section

variable {w w₁ w₂ : Session (.alone faults crashes)} {offers completes : List Bytes}
  {receipt : CompletionReceipt}

omit [Crates] in
theorem Heard.of_log_eq (h : w₁.log = w.log) : Heard w [] [] w₁ :=
  ⟨[], .of_log_eq h, by simp [Unverified], rfl, rfl⟩

omit [Crates] in
theorem Heard.trans {offers' completes' : List Bytes} (h : Heard w offers completes w₁)
    (h' : Heard w₁ offers' completes' w₂) :
    Heard w (offers ++ offers') (completes ++ completes') w₂ := by
  obtain ⟨es, hes, hv, rfl, rfl⟩ := h
  obtain ⟨es', hes', hv', rfl, rfl⟩ := h'
  exact ⟨es ++ es', hes.trans hes' hv, hv.append hv', by simp, by simp⟩

omit [Crates] in
theorem Heard.silent (h : Heard w offers completes w₁) : Silent w w₁ := by
  obtain ⟨es, ⟨l, hl, rfl, -⟩, hv, -, -⟩ := h
  exact ⟨l, hl, hv⟩

omit [Crates] in
theorem Heard.of_noted {event : NetEvent} (h : Noted w event w₁) (hv : ¬event.Attempts .verified) :
    Heard w (payloads .offer [event]) (payloads .complete [event]) w₁ :=
  ⟨[event], h.gained, by simpa [Unverified] using hv, rfl, rfl⟩

omit [Crates] in
theorem payloads_of_attempted {t : MessageType} {event : NetEvent} (h : event.attempted ≠ none) :
    payloads t [event] = [] := by
  cases event with
  | sent => simp
  | sendFailed => simp
  | received => exact absurd rfl h
  | receiveFailed => exact absurd rfl h

/-- A session that heard the offer and then stamped it. -/
theorem Stamped.verifiedOver {payload : Bytes} (hheard : Heard w [payload] completes w₁)
    (hoffer : decodeOfferV03 payload = .ok offer) (h : Stamped dest offer receipt w₁ w₂)
    (hcompletes : ∀ hash ∈ completes, receipt.blake3.1 = hash) :
    ∃ es, Gained w es w₂ ∧ VerifiedOver dest es w₂.fs := by
  obtain ⟨es, hes, hv, ho, rfl⟩ := hheard
  obtain ⟨event, he, hg, hc⟩ := h
  refine ⟨es ++ [event], hes.trans hg hv, payload, offer, receipt, ?_, hoffer, hc, ?_⟩
  · rw [payloads_append, ho, payloads_of_attempted he, List.append_nil]
  · rwa [payloads_append, payloads_of_attempted he, List.append_nil]

end

/-! ### The functions of a session -/

/-- The session ended before VERIFIED, or with it over certified files. -/
def Ended (dest : Path) (offer : FileOfferV03) (w w' : Session (.alone faults crashes)) : Prop :=
  Silent w w' ∨ ∃ receipt, Stamped dest offer receipt w w'

section

variable {w w₁ w₂ : Session (.alone faults crashes)} {receipt : CompletionReceipt}

theorem Stamped.after (h : Stamped dest offer receipt w₁ w₂) (hl : w₁.log = w.log) :
    Stamped dest offer receipt w w₂ := by
  obtain ⟨event, he, hg, hc⟩ := h
  exact ⟨event, he, (gained_congr hl).mp hg, hc⟩

theorem Ended.after (h : Ended dest offer w₁ w₂) (hl : w₁.log = w.log) :
    Ended dest offer w w₂ :=
  h.imp (fun h => IsTrans.trans _ _ _ (.of_log_eq hl) h) fun ⟨receipt, h⟩ => ⟨receipt, h.after hl⟩

omit [Crates] in
/-- Sending a frame notes it, whether or not it could be written. -/
theorem sendFrameV03_noted {ε : Type} {frameError : FrameError → ε}
    {protocolError : ProtocolIoError → ε} {messageType : MessageType} {payload : Bytes} :
    (sendFrameV03 frameError protocolError messageType payload).Ensures w fun _ w' =>
      ∃ event, event.attempted = some ⟨wfpVersionV03, messageType, 0, payload⟩ ∧
        Noted w event w' := by
  have hframe : Frame.newForVersion wfpVersionV03 messageType payload =
      .ok ⟨wfpVersionV03, messageType, 0, payload⟩ := rfl
  rw [sendFrameV03, hframe, ensures_bind, ensures_ofExcept]
  simp only [Except.mapError, post_ok, ensures_mapErr]
  refine writeFrame_noted.mono fun o w' h => ?_
  cases o with
  | ok => exact ⟨_, rfl, h⟩
  | err e => exact ⟨_, rfl, h⟩
  | halt => exact h.elim

omit [Crates] in
/-- A frame that is not a VERIFIED. -/
theorem sendFrameV03_heard {ε : Type} {frameError : FrameError → ε}
    {protocolError : ProtocolIoError → ε} {messageType : MessageType} {payload : Bytes}
    (hne : messageType ≠ .verified) :
    (sendFrameV03 frameError protocolError messageType payload).Ensures w fun _ w' =>
      Heard w [] [] w' ∧ w'.fs = w.fs := by
  refine sendFrameV03_noted.mono fun o w' h => ?_
  obtain ⟨event, he, h⟩ := h
  have hheard := Heard.of_noted h fun hv => hne ?_
  · rw [payloads_of_attempted (by simp [he]), payloads_of_attempted (by simp [he])] at hheard
    exact ⟨hheard, h.fs_eq⟩
  · rw [NetEvent.Attempts, he] at hv
    exact Option.some.inj hv

/-- VERIFIED is sent last. -/
theorem sendVerified_stamped {α ε : Type} {frameError : FrameError → ε}
    {protocolError : ProtocolIoError → ε} {a : α} (h : Certified dest offer receipt w.fs) :
    (do sendFrameV03 frameError protocolError .verified []; return a).Ensures w (Post
      (fun b w' => b = a ∧ Stamped dest offer receipt w w')
      (fun _ w' => Stamped dest offer receipt w w') fun w' => Stamped dest offer receipt w w') := by
  have hsent {w' : Session (.alone faults crashes)} (h' : ∃ event : NetEvent, event.attempted =
      some ⟨wfpVersionV03, .verified, 0, []⟩ ∧ Noted w event w') :
      Stamped dest offer receipt w w' := by
    obtain ⟨event, he, hn⟩ := h'
    exact ⟨event, by simp [he], hn.gained, hn.fs_eq ▸ h⟩
  refine Ensures.bind sendFrameV03_noted (fun _ w' h' => ?_) (fun _ w' h' => hsent h')
    fun w' h' => hsent h'
  exact ensures_pure.mpr ⟨rfl, hsent h'⟩

omit [Crates] in
theorem sendBatches_heard {batches : List ChunkHashesBatch} :
    (sendBatches batches).Ensures w fun _ w' => Heard w [] [] w' ∧ w'.fs = w.fs := by
  induction batches generalizing w with
  | nil => exact ensures_pure.mpr ⟨.of_log_eq rfl, rfl⟩
  | cons batch batches ih =>
    rw [sendBatches, ensures_bind, ensures_ofExcept]
    rcases (encodeChunkHashes batch).mapError _ with e | payload
    · exact ⟨.of_log_eq rfl, rfl⟩
    · refine Ensures.bind (sendFrameV03_heard (by simp)) (fun _ w₁ h₁ => ?_) (fun _ _ h => h)
        fun _ h => h
      refine ih.mono fun o w₂ h₂ => ?_
      exact ⟨h₁.1.trans h₂.1, h₂.2.trans h₁.2⟩

omit [Crates] in
/-- Negotiating only reads and writes frames, none of which is an OFFER, COMPLETE or VERIFIED. -/
theorem negotiateInventory_heard {prepared : PreparedReceiverV03} :
    (negotiateInventory prepared).Ensures w (Post
      (fun accepted w' => accepted = ⟨prepared.partialPath, prepared.file, prepared.receiver,
        prepared.identity⟩ ∧ w'.fs = w.fs ∧ Heard w [] [] w')
      (fun _ w' => Silent w w') fun w' => Silent w w') := by
  refine Ensures.bind (sendFrameV03_heard (by simp)) ?_ (fun _ _ h => h.1.silent)
    fun _ h => h.1.silent
  intro _ w₁ h₁
  refine Ensures.bind sendBatches_heard ?_ (fun _ w₂ h₂ => (h₁.1.trans h₂.1).silent)
    fun w₂ h₂ => (h₁.1.trans h₂.1).silent
  intro _ w₂ h₂
  have hheard : Heard w [] [] w₂ := h₁.1.trans h₂.1
  refine Ensures.bind_mapErr readFrameForVersion_noted ?_
    (fun _ w₃ h₃ => IsTrans.trans _ _ _ hheard.silent (h₃.silent (by simp)))
    fun w₃ h₃ => IsTrans.trans _ _ _ hheard.silent (.of_log_eq h₃.2)
  intro response w₃ h₃
  have hresponse := hheard.trans (.of_noted h₃.1 (by simp))
  split_ifs with htype hpayload
  · exact ensures_throw.mpr hresponse.silent
  · exact ensures_throw.mpr hresponse.silent
  · rw [ensures_pure]
    refine ⟨rfl, h₃.1.fs_eq.trans (h₂.2.trans h₁.2), ?_⟩
    simpa [not_not.mp htype] using hresponse

omit [Crates] in
theorem onReceiver_log {ε α : Type} {receiver : ChunkReceiverV03}
    {p : ChunkReceiving (.alone faults crashes) α} {g : ReceiverV03Error → ε} :
    ((onReceiver receiver p).mapErr g).Ensures w fun _ w' => w'.log = w.log := by
  rw [ensures_mapErr, ensures_onReceiver]
  have hany : p.Ensures (receiver, w.disk) fun _ _ => True := ensures_of_eq rfl trivial
  refine hany.mono fun o s _ => ?_
  cases o with
  | ok => rfl
  | err => rfl
  | halt => rfl

/-- A frame of the transfer is neither an OFFER nor, but for the last one, a COMPLETE. -/
theorem receiveTransferFrame_heard {file : File} {path : Path} {receiver : ChunkReceiverV03} :
    (receiveTransferFrame file path receiver).Ensures w (Post
      (fun r w' => Sum.elim (fun _ => Heard w [] [] w') (fun done => Heard w [] [done.2.1] w') r)
      (fun _ w' => Silent w w') fun w' => Silent w w') := by
  refine Ensures.bind_mapErr readFrameForVersion_noted ?_ (fun _ w₁ h => h.silent (by simp))
    fun w₁ h => .of_log_eq h.2
  intro frame w₁ h
  have hheard := Heard.of_noted h.1 (by simp)
  -- a call on the receiver notes nothing
  have next {p : ChunkReceiving (.alone faults crashes) Unit} (ht : frame.messageType = .chunkStart ∨
      frame.messageType = .data) :
      ((onReceiver receiver p).mapErr .receiver >>= fun r =>
        (pure (.inl r.2) : Prog (Session _) ReceiverV03TransferError
          (ChunkReceiverV03 ⊕ ChunkReceiverV03 × ChunkHash))).Ensures w₁ (Post
        (fun r w' => Sum.elim (fun _ => Heard w [] [] w') (fun done => Heard w [] [done.2.1] w') r)
        (fun _ w' => Silent w w') fun w' => Silent w w') := by
    have hnil : Heard w [] [] w₁ := by
      rcases ht with ht | ht <;> simpa [ht] using hheard
    refine Ensures.bind onReceiver_log (fun r w₂ h₂ => ?_) (fun _ w₂ h₂ => ?_) fun w₂ h₂ => ?_
    · exact ensures_pure.mpr (hnil.trans (.of_log_eq h₂))
    · exact (hnil.trans (.of_log_eq h₂)).silent
    · exact (hnil.trans (.of_log_eq h₂)).silent
  split
  · rw [ensures_bind, ensures_ofExcept]
    rcases (decodeChunkStartV03 frame.payload).mapError _ with e | chunkStart
    · exact hheard.silent
    · exact next (.inl ‹_›)
  · rw [ensures_bind, ensures_ofExcept]
    rcases (decodeDataV03 frame.payload).mapError _ with e | data
    · exact hheard.silent
    · exact next (.inr ‹_›)
  · rename_i htype
    rw [ensures_bind, ensures_ofExcept]
    rcases hc : checkComplete receiver frame.payload with e | hash
    · exact hheard.silent
    · have hpayload : frame.payload = hash.1 := checkComplete_payload hc
      refine ensures_pure.mpr ?_
      simpa [htype, hpayload] using hheard
  · exact ensures_throw.mpr hheard.silent

theorem receiveTransfer_heard {layout : ChunkLayout} {accepted : AcceptedReceiverV03}
    (h : Holding accepted.file accepted.partialPath layout accepted.receiver w.fs) :
    (receiveTransfer accepted).Ensures w (Post
      (fun received w' => received.file = accepted.file ∧
        received.partialPath = accepted.partialPath ∧ received.identity = accepted.identity ∧
        Holding accepted.file accepted.partialPath layout received.receiver w'.fs ∧
        Heard w [] [received.senderFileHash.1] w')
      (fun _ w' => Silent w w') fun w' => Silent w w') := by
  refine Ensures.bind (R := Post (fun (done : ChunkReceiverV03 × ChunkHash) w' =>
      Holding accepted.file accepted.partialPath layout done.1 w'.fs ∧ Heard w [] [done.2.1] w')
      (fun _ w' => Silent w w') fun w' => Silent w w') ?_ ?_ (fun _ _ h => h) fun _ h => h
  · refine Ensures.loop (fun receiver w' =>
      Holding accepted.file accepted.partialPath layout receiver w'.fs ∧ Heard w [] [] w')
      (fun receiver w' hI => ?_) ⟨h, .of_log_eq rfl⟩
    refine ((receiveTransferFrame_spec hI.1).and receiveTransferFrame_heard).mono fun o t ht => ?_
    obtain ⟨hspec, hnotes⟩ := ht
    rcases o with (receiver' | done) | e | _
    · exact ⟨⟨hspec.1, hI.2.trans hnotes⟩, hspec.2⟩
    · exact ⟨hspec.1, hI.2.trans hnotes⟩
    · exact IsTrans.trans _ _ _ hI.2.silent hnotes
    · exact IsTrans.trans _ _ _ hI.2.silent hnotes
  · rintro ⟨receiver, hash⟩ w' ⟨hhold, hheard⟩
    exact ensures_pure.mpr ⟨rfl, rfl, rfl, hhold, hheard⟩

theorem complete_ended {received : ReceivedCompleteV03}
    (hpath : received.partialPath = partialPath dest offer.filename)
    (hsafe : isSafeFilename offer.filename)
    (hidentity : received.identity = ⟨offer.transferId, offer.filename⟩)
    (hsize : received.receiver.chunkState.layout.fileSize = offer.fileSize)
    (hfile : w.fs.names received.partialPath = some (.file received.file.ino)) :
    (complete received (finalPath dest offer.filename) (some dest)).Ensures w fun _ w' =>
      Silent w w' ∨ Stamped dest offer received.receipt w w' := by
  refine World.ensures_onDisk_bind (finalize_certified hpath hsafe hidentity hsize hfile) ?_
    (fun _ d _ => .inl (.of_log_eq rfl)) fun d _ => .inl (.of_log_eq rfl)
  intro path d h
  have hcertified : Certified dest offer received.receipt d.fs := h
  refine (sendVerified_stamped (w := { w with disk := d }) hcertified).mono fun o w' hs => ?_
  cases o with
  | ok => exact .inr (hs.2.after rfl)
  | err => exact .inr (hs.after rfl)
  | halt => exact .inr (hs.after rfl)

/-- Reconciling ends in VERIFIED over certified files, or notes nothing where it settles nothing. -/
def Reconciling (dest : Path) (offer : FileOfferV03) (w : Session (.alone faults crashes)) :
    Outcome ReceiverV03ReconcileError ReceiverV03ReconcileOutcome →
      Session (.alone faults crashes) → Prop :=
  Post (fun outcome w' => Ended dest offer w w' ∧ (outcome = .notReconciled → w'.log = w.log))
    (fun _ w' => Ended dest offer w w') fun w' => Ended dest offer w w'

/-- Where only the files were used, nothing is settled yet. -/
private theorem ended_onDisk {d : Disk (.alone faults crashes)} :
    Ended dest offer w { w with disk := d } := .inl (.of_log_eq rfl)

/-- The final name was settled: VERIFIED is all that is left to do. -/
private theorem reconciling_stamped {path : Path} (w₁ : Session (.alone faults crashes))
    (h : Certified dest offer receipt w₁.fs) (hl : w₁.log = w.log) :
    (do
      sendVerifiedV03
      return .reconciled path : Prog (Session _) ReceiverV03ReconcileError
        ReceiverV03ReconcileOutcome).Ensures w₁ (Reconciling dest offer w) := by
  refine (sendVerified_stamped h).mono fun o w' hs => ?_
  cases o with
  | ok outcome =>
    obtain ⟨rfl, hs⟩ := hs
    exact ⟨.inr ⟨receipt, hs.after hl⟩, by simp⟩
  | err => exact .inr ⟨receipt, hs.after hl⟩
  | halt => exact .inr ⟨receipt, hs.after hl⟩

theorem reconcileFromFinal_reconciling
    (hreceipt : w.fs.receipt dest offer.transferId = some receipt)
    (hname : receipt.filename = offer.filename) (hsize : receipt.fileSize = offer.fileSize) :
    (reconcileFromFinal (finalPath dest offer.filename) receipt).Ensures w
      (Reconciling dest offer w) := by
  have hverify : (verifyExistingFinalV03 (finalPath dest offer.filename) receipt.fileSize.toNat
      receipt.blake3).Ensures w.disk (Post
        (fun _ d => d.fs = w.fs ∧ Certified dest offer receipt w.fs) (fun _ _ => True)
        fun _ => True) := by
    refine Ensures.bind_mapErr (Storage.openRegular_spec finalPath_ne_nil) ?_
      (fun _ _ _ => trivial) fun _ _ => trivial
    intro file d₁ h
    obtain ⟨h₁, hn, hpos, -⟩ := h
    refine (hashPhysicalFileV03_spec hpos).mono fun o d₂ h₂ => ?_
    cases o with
    | ok =>
      obtain ⟨h₂, hv⟩ := h₂
      rw [h₁, hsize] at hv
      exact ⟨h₂.trans h₁, hreceipt, hname, hsize, _, Fs.read_eq_some.mpr ⟨_, hn, rfl⟩, hv⟩
    | err => trivial
    | halt => trivial
  refine World.ensures_onDisk_attempt_bind hverify (fun _ d h => ?_) (fun _ d _ => ?_)
    fun d _ => ended_onDisk
  · obtain ⟨hd, hcertified⟩ := h
    exact reconciling_stamped { w with disk := d } (hd ▸ hcertified) rfl
  · exact ensures_pure.mpr ⟨ended_onDisk, fun _ => rfl⟩

theorem reconcileFromPartial_reconciling
    (hreceipt : w.fs.receipt dest offer.transferId = some receipt)
    (hname : receipt.filename = offer.filename) (hsize : receipt.fileSize = offer.fileSize) :
    (reconcileFromPartial (finalPath dest offer.filename) (partialPath dest offer.filename)
      receipt).Ensures w (Reconciling dest offer w) := by
  refine World.ensures_onDisk_attempt_bind
    (verifyPartialForPromotionV03_spec partialPath_ne_nil) ?_ (fun _ d _ => ?_)
    fun d _ => ended_onDisk
  swap
  · exact ensures_pure.mpr ⟨ended_onDisk, fun _ => rfl⟩
  intro source d₁ h
  obtain ⟨h₁, hpart, hv⟩ := h
  replace h₁ : d₁.fs = w.fs := h₁
  replace hpart : d₁.fs.names (partialPath dest offer.filename) = some (.file source.ino) :=
    h₁ ▸ hpart
  replace hv : Verifies offer.fileSize.toNat receipt.blake3 (d₁.fs.data source.ino) := by
    rw [h₁, ← hsize]
    exact hv
  have hdir : d₁.fs.isDir (finalPath dest offer.filename).dropLast := by
    rw [dropLast_finalPath]
    exact isDir_of_names_partialPath (by rw [hpart]; simp)
  rw [ensures_bind, World.ensures_onDisk]
  refine (promotePartialNoClobber_spec partialPath_ne_nil finalPath_ne_nil hdir hpart).mono
    fun o d₂ h => ?_
  cases o with
  | err => exact ended_onDisk
  | halt => exact ended_onDisk
  | ok =>
    obtain ⟨hfinal, h₂⟩ := h
    have hcertified : Certified dest offer receipt d₂.fs := by
      rw [h₂]
      exact .link (h₁ ▸ hreceipt) hname hsize hpart hv hfinal
    -- whether or not the snapshot is removed, the file is published
    have cleaned {d₃ : Disk (.alone faults crashes)} (h₃ : Fs.Within ∅
        {chunkStateTemporaryPath (partialPath dest offer.filename),
          chunkStatePath (partialPath dest offer.filename)} ∅ d₂.fs d₃.fs) :
        Certified dest offer receipt d₃.fs :=
      hcertified.within h₃ fun p hp => (dropLast_of_mem_chunkStatePaths hp).trans
        dropLast_partialPath
    exact World.ensures_onDisk_attempt_bind removeChunkState_within
      (fun _ d₃ h₃ => reconciling_stamped { w with disk := d₃ } (cleaned h₃) rfl)
      (fun _ d₃ h₃ => reconciling_stamped { w with disk := d₃ } (cleaned h₃) rfl)
      fun d₃ _ => ended_onDisk

theorem reconcileCompletedTransferV03_reconciling :
    (reconcileCompletedTransferV03 dest offer).Ensures w fun o w' => Reconciling dest offer w o w' ∧
      (o = .ok .notReconciled → isSafeFilename offer.filename) := by
  rw [reconcileCompletedTransferV03, ensures_bind, ensures_ofExcept]
  rcases hsafe : refuseIf (!isSafeFilename offer.filename) ReceiverV03ReconcileError.invalidFilename
    with e | _
  · exact ⟨.inl (.of_log_eq rfl), by simp⟩
  replace hsafe : isSafeFilename offer.filename := by simpa using refuseIf_eq_ok.mp hsafe
  refine Ensures.mono ?_ fun o w' h => ⟨h, fun _ => hsafe⟩
  have early {d : Disk (.alone faults crashes)} : Reconciling dest offer w (.ok .notReconciled)
      { w with disk := d } := ⟨ended_onDisk, fun _ => rfl⟩
  refine World.ensures_onDisk_bind (Storage.pathExists_spec completionReceiptPath_ne_nil) ?_
    (fun _ _ _ => ended_onDisk) fun _ _ => ended_onDisk
  intro b d₁ _
  by_cases hb : b = true
  swap
  · rw [if_neg hb]
    exact ensures_pure.mpr early
  rw [if_pos hb]
  refine World.ensures_onDisk_bind readCompletionReceipt_spec ?_
    (fun _ _ _ => ended_onDisk) fun _ _ => ended_onDisk
  intro receipt d₂ h
  obtain ⟨h₂, hr⟩ := h
  replace hr : d₂.fs.receipt dest offer.transferId = some receipt := h₂ ▸ hr
  rw [ensures_bind, ensures_ofExcept]
  rcases hsame : refuseIf (receipt.filename ≠ offer.filename ∨ receipt.fileSize ≠ offer.fileSize)
    ReceiverV03ReconcileError.conflictingReceipt with e | _
  · exact ended_onDisk
  obtain ⟨hname, hsize⟩ : receipt.filename = offer.filename ∧ receipt.fileSize = offer.fileSize := by
    simpa using refuseIf_eq_ok.mp hsame
  refine World.ensures_onDisk_bind (Storage.pathExists_spec finalPath_ne_nil) ?_
    (fun _ _ _ => ended_onDisk) fun _ _ => ended_onDisk
  intro b d₃ h₃
  replace hr : d₃.fs.receipt dest offer.transferId = some receipt := by
    rw [show d₃.fs = d₂.fs from h₃.1]
    exact hr
  split_ifs
  · exact reconcileFromFinal_reconciling (w := { w with disk := d₃ }) hr hname hsize
  refine World.ensures_onDisk_bind (Storage.pathExists_spec partialPath_ne_nil) ?_
    (fun _ _ _ => ended_onDisk) fun _ _ => ended_onDisk
  intro b d₄ h₄
  replace hr : d₄.fs.receipt dest offer.transferId = some receipt := by
    rw [show d₄.fs = d₃.fs from h₄.1]
    exact hr
  split_ifs
  · exact reconcileFromPartial_reconciling (w := { w with disk := d₄ }) hr hname hsize
  · exact ensures_pure.mpr early

/-- The session ended before VERIFIED, or with it over files that are certified by what was heard. -/
def Settled (dest : Path) (offer : FileOfferV03) (w w' : Session (.alone faults crashes)) : Prop :=
  Silent w w' ∨ ∃ completes receipt w₁, Heard w [] completes w₁ ∧
    Stamped dest offer receipt w₁ w' ∧ ∀ hash ∈ completes, receipt.blake3.1 = hash

theorem Ended.settled (h : Ended dest offer w w₁) : Settled dest offer w w₁ :=
  h.imp_right fun ⟨receipt, h⟩ => ⟨[], receipt, w, .of_log_eq rfl, h, by simp⟩

theorem receiveOfferedV03_settled :
    (receiveOfferedV03 dest offer).Ensures w fun _ w' => Settled dest offer w w' := by
  refine Ensures.bind_mapErr reconcileCompletedTransferV03_reconciling ?_
    (fun _ _ h => Ended.settled h.1) fun _ h => Ended.settled h.1
  intro outcome w₁ h
  obtain ⟨⟨hended, hlog⟩, hsafe⟩ := h
  cases outcome with
  | reconciled path => exact ensures_pure.mpr hended.settled
  | notReconciled =>
    replace hlog := hlog rfl
    replace hsafe := hsafe rfl
    have early {w' : Session (.alone faults crashes)} (h : Silent w₁ w') : Settled dest offer w w' :=
      .inl (IsTrans.trans _ _ _ (.of_log_eq hlog) h)
    have hany {p : Prog (Disk (.alone faults crashes)) IoError Unit} {d} :
        p.Ensures d fun _ _ => True := ensures_of_eq rfl trivial
    refine World.ensures_onDisk_bind hany ?_ (fun _ _ _ => early (.of_log_eq rfl))
      fun _ _ => early (.of_log_eq rfl)
    intro _ d₂ _
    refine World.ensures_onDisk_bind (prepareReceiverV03_spec partialPath_ne_nil) ?_
      (fun _ _ _ => early (.of_log_eq rfl)) fun _ _ => early (.of_log_eq rfl)
    intro prepared d₃ hprepared
    have hconsistent := Prepared.consistent partialPath_ne_nil hprepared
    refine Ensures.bind_mapErr negotiateInventory_heard ?_
      (fun _ _ h => early (IsTrans.trans _ _ _ (.of_log_eq rfl) h))
      fun _ h => early (IsTrans.trans _ _ _ (.of_log_eq rfl) h)
    intro accepted w₄ h₄
    obtain ⟨rfl, hfs, hheard⟩ := h₄
    replace hheard : Heard w₁ [] [] w₄ := (Heard.of_log_eq (w := w₁) rfl).trans hheard
    have hhold : Holding prepared.file prepared.partialPath prepared.receiver.chunkState.layout
        prepared.receiver w₄.fs := ⟨by rw [hfs, hprepared.partialPath]; exact hconsistent, rfl⟩
    refine Ensures.bind_mapErr (receiveTransfer_heard hhold) ?_
      (fun _ _ h => early (IsTrans.trans _ _ _ hheard.silent h))
      fun _ h => early (IsTrans.trans _ _ _ hheard.silent h)
    intro received w₅ h₅
    obtain ⟨hfile, hpath, hidentity, hheld, hcomplete⟩ := h₅
    have hall : Heard w [] [received.senderFileHash.1] w₅ :=
      (Heard.of_log_eq hlog).trans (hheard.trans hcomplete)
    have hspec : (complete received (finalPath dest offer.filename) (some dest)).Ensures w₅
        fun _ w' => Silent w₅ w' ∨ Stamped dest offer received.receipt w₅ w' := by
      refine complete_ended ?_ hsafe ?_ ?_ ?_
      · rw [hpath]
        exact hprepared.partialPath
      · rw [hidentity]
        exact hprepared.identity
      · rw [hheld.layout_eq]
        exact hprepared.fileSize
      · rw [hpath, hfile]
        exact hheld.consistent.opened
    have last {w' : Session (.alone faults crashes)} (h : Silent w₅ w' ∨
        Stamped dest offer received.receipt w₅ w') : Settled dest offer w w' := by
      rcases h with h | h
      · exact .inl (IsTrans.trans _ _ _ hall.silent h)
      · exact .inr ⟨_, _, w₅, hall, h, by simp [ReceivedCompleteV03.receipt]⟩
    refine Ensures.bind_mapErr hspec (fun _ w₆ h => ?_) (fun _ _ h => last h) fun _ h => last h
    exact ensures_pure.mpr (last h)

omit [Crates] in
theorem receiveOfferV03_heard : (receiveOfferV03 : Prog (Session (.alone faults crashes)) _ _).Ensures
    w (Post (fun offer w' => ∃ payload, decodeOfferV03 payload = .ok offer ∧
      Heard w [payload] [] w') (fun _ w' => Silent w w') fun w' => Silent w w') := by
  refine Ensures.bind_mapErr readFrameForVersion_noted ?_ (fun _ w₁ h => h.silent (by simp))
    fun w₁ h => .of_log_eq h.2
  intro hello w₁ h₁
  have hhello := Heard.of_noted h₁.1 (by simp)
  rw [ensures_bind, ensures_ofExcept]
  rcases htype : refuseIf (hello.messageType ≠ .hello)
    (ReceiverV03SessionError.unexpectedMessageType hello.messageType) with e | _
  · exact hhello.silent
  replace htype : hello.messageType = .hello := by simpa using refuseIf_eq_ok.mp htype
  replace hhello : Heard w [] [] w₁ := by simpa [htype] using hhello
  simp only [post_ok]
  rw [ensures_bind, ensures_ofExcept]
  rcases refuseIf (hello.payload ≠ [wfpVersionV03])
    (ReceiverV03SessionError.invalidHelloPayload hello.payload.length) with e | _
  · exact hhello.silent
  refine Ensures.bind (sendFrameV03_heard (by simp)) ?_
    (fun _ w₂ h₂ => (hhello.trans h₂.1).silent) fun w₂ h₂ => (hhello.trans h₂.1).silent
  intro _ w₂ h₂
  have hack : Heard w [] [] w₂ := hhello.trans h₂.1
  refine Ensures.bind_mapErr readFrameForVersion_noted ?_
    (fun _ w₃ h₃ => IsTrans.trans _ _ _ hack.silent (h₃.silent (by simp)))
    fun w₃ h₃ => IsTrans.trans _ _ _ hack.silent (.of_log_eq h₃.2)
  intro offerFrame w₃ h₃
  have hoffer := hack.trans (Heard.of_noted h₃.1 (by simp))
  rw [ensures_bind, ensures_ofExcept]
  rcases htype : refuseIf (offerFrame.messageType ≠ .offer)
    (ReceiverV03SessionError.unexpectedMessageType offerFrame.messageType) with e | _
  · exact hoffer.silent
  replace htype : offerFrame.messageType = .offer := by simpa using refuseIf_eq_ok.mp htype
  simp only [post_ok]
  rw [ensures_ofExcept]
  rcases hdecode : (decodeOfferV03 offerFrame.payload).mapError ReceiverV03SessionError.offer
    with e | offer
  · exact hoffer.silent
  · exact ⟨_, mapError_eq_ok.mp hdecode, by simpa [htype] using hoffer⟩

theorem receiveSessionV03_spec : (receiveSessionV03 dest).Ensures w fun _ w' => Silent w w' ∨
    ∃ es, Gained w es w' ∧ VerifiedOver dest es w'.fs := by
  have hany {p : Prog (Disk (.alone faults crashes)) IoError Unit} {d} :
      p.Ensures d fun _ _ => True := ensures_of_eq rfl trivial
  refine World.ensures_onDisk_bind hany ?_ (fun _ _ _ => .inl (.of_log_eq rfl))
    fun _ _ => .inl (.of_log_eq rfl)
  intro _ d₁ _
  have hstart : Heard w [] [] { w with disk := d₁ } := .of_log_eq rfl
  refine Ensures.bind receiveOfferV03_heard ?_
    (fun _ _ h => .inl (IsTrans.trans _ _ _ hstart.silent h))
    fun _ h => .inl (IsTrans.trans _ _ _ hstart.silent h)
  intro offer w₂ h
  obtain ⟨payload, hoffer, hheard⟩ := h
  replace hheard : Heard w [payload] [] w₂ := hstart.trans hheard
  refine receiveOfferedV03_settled.mono fun o w' h => ?_
  obtain h | ⟨completes, receipt, w₃, hcompletes, hstamped, hdigest⟩ := h
  · exact .inl (IsTrans.trans _ _ _ hheard.silent h)
  · exact .inr (hstamped.verifiedOver (hheard.trans hcompletes) hoffer hdigest)

end

end

/-- A peer that sends a file of one chunk. -/
def oneChunk : Net :=
  let frame (messageType : MessageType) (payload : Bytes) : Frame := ⟨wfpVersionV03, messageType, 0,
    payload⟩
  .closed (encodings [frame .hello [wfpVersionV03],
    frame .offer (FileOfferV03.payload ⟨Block.ofBytes 16 [1], "a", 2, 2⟩), frame .accept [],
    frame .chunkStart (encodeChunkStartV03 ⟨0, digestOf [7, 8]⟩),
    frame .data (word 0 ++ [7, 8]), frame .complete (digestOf [7, 8]).1])

/-- A disk without files, on which every call succeeds. -/
def noFiles : Disk (.alone false false) := ⟨.empty, []⟩

end Warpfile.V03
