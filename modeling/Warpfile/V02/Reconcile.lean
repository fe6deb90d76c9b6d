import Warpfile.V02.Receiver
import Warpfile.Protocol.Log

/-!
# Settling an offer by its receipt

The functions of the receiver are specified one by one, on a machine on which nobody else acts
on the files: what every outcome leaves on disk and in the log. A failure that neither a fault
nor the connection explains is explained by what stood on disk before. This module has the
rules for the pieces that all of them use, and reconciliation.
-/

namespace Warpfile.V02

open Prog

variable [Crates] {faults crashes : Bool}

/-! ### The files of a transfer -/

/-- The names of a partial file and of its description. -/
def scratch (path : Path) : Set Path := insert path (metadataNames path)

omit [Crates] in
theorem dropLast_of_mem_scratch {p path : Path} (h : p ∈ scratch path) :
    p.dropLast = path.dropLast := by
  rcases h with rfl | rfl | rfl <;> simp

omit [Crates] in
theorem notMem_scratch {p path : Path} (h : p.dropLast ≠ path.dropLast) : p ∉ scratch path :=
  fun hp => h (dropLast_of_mem_scratch hp)

/-- Bytes that a receipt is about. -/
structure Matches (receipt : CompletionReceipt) (bytes : Bytes) : Prop where
  size : bytes.length = receipt.fileSize.toNat
  digest : blake3 bytes = receipt.blake3

/-- A regular file at `p` holds what a receipt is about. -/
def Holds (fs : Fs) (p : Path) (receipt : CompletionReceipt) : Prop :=
  ∃ i, fs.names p = some (.file i) ∧ Matches receipt (fs.data i)

/-- What a file holds does not change while nothing is done to its name and its inode. -/
theorem Holds.within {fs fs' : Fs} {p : Path} {receipt : CompletionReceipt} {K S : Set Path}
    {J : Set ℕ} (h : Holds fs p receipt) (hw : Fs.Within K S J fs fs') (hS : p ∉ S)
    (hJ : ∀ i, fs.names p = some (.file i) → i ∉ J) : Holds fs' p receipt := by
  obtain ⟨i, hi, hm⟩ := h
  refine ⟨i, (hw.names_eq hS (by simp [hi])).trans hi, ?_⟩
  rwa [hw.data i (fs.allocated _ _ hi) (hJ i hi)]

omit [Crates] in
/-- A receipt is none of the other files of a transfer. -/
theorem completionReceiptPath_notMem {dest : Path} {T : TransferId} {filename : String} :
    completionReceiptPath dest T ∉
      insert (finalPath dest filename) (scratch (partialPath dest filename)) := by
  rintro (h | h)
  · have h := congrArg List.dropLast h
    rw [dropLast_completionReceiptPath, dropLast_finalPath] at h
    exact receiptsDirectory_ne_self h.symm
  · simpa using dropLast_of_mem_scratch h

section Disk

variable {d : Disk (.alone faults crashes)} {path : Path} {file : File}
  {receipt : CompletionReceipt}

omit [Crates] in
theorem discardPartialState_spec (hp : path ≠ []) : (discardPartialState path).Ensures d (Post
    (fun _ d' => Fs.Within ∅ (scratch path) ∅ d.fs d'.fs ∧ ∀ p ∈ scratch path, d'.fs.names p = none)
    (fun _ d' => Fs.Within ∅ (scratch path) ∅ d.fs d'.fs ∧
      (faults ∨ d.fs.Irregular path ∨ d.fs.Untidy path))
    (fun d' => Fs.Within ∅ (scratch path) ∅ d.fs d'.fs ∧ crashes)) := by
  have hsub : metadataNames path ⊆ scratch path := fun _ h => .inr h
  refine Ensures.bind_mapErr (Storage.removeIfExists_spec hp) ?_
    (fun _ d' h => ⟨by rw [h.1], h.2.imp_right .inl⟩) fun d' h => ⟨by rw [h.1], h.2⟩
  rintro - d₁ ⟨h₁, hn₁⟩
  have first {fs : Fs} (h : Fs.Within ∅ (metadataNames path) ∅ d₁.fs fs) :
      Fs.Within ∅ (scratch path) ∅ d.fs fs := by
    rw [h₁] at h
    exact (Fs.Within.unlink (.inl rfl)).trans (h.mono le_rfl hsub fun _ h => .inl h)
  rw [ensures_mapErr]
  refine removeTransferMetadata_spec.mono fun o d₂ h => ?_
  cases o with
  | ok =>
    obtain ⟨h, hM, hMt⟩ := h
    refine ⟨first h, ?_⟩
    rintro p (rfl | rfl | rfl)
    · rw [h.names_eq' (notMem_metadataNames hp) (Set.notMem_empty _), hn₁]
    · exact hMt
    · exact hM
  | err =>
    refine ⟨first h.1, h.2.imp_right fun h => .inr ?_⟩
    rw [h₁] at h
    exact h.imp Fs.irregular_unlink Fs.irregular_unlink
  | halt => exact ⟨first h.1, h.2⟩

omit [Crates] in
/-- The hasher absorbs the whole file. -/
theorem hashFileContents_spec {expectedSize : ℕ} (hpos : file.pos = 0) :
    (hashFileContents file expectedSize).Ensures d (Post
      (fun r d' => d'.fs = d.fs ∧ r.1 = d.fs.data file.ino ∧ r.1.length = expectedSize ∧
        r.2 = { file with pos := expectedSize })
      (fun _ d' => d'.fs = d.fs ∧ (faults ∨ (d.fs.data file.ino).length ≠ expectedSize))
      (fun d' => d'.fs = d.fs ∧ crashes)) := by
  refine Ensures.bind (File.foldReads_spec (by norm_num) _ _) ?_ (fun _ d' h => ⟨h.1, .inl h.2⟩)
    fun d' h => h
  rintro ⟨⟨hasher, bytesHashed⟩, file'⟩ d' ⟨h, pieces, hp, hr, hf⟩
  simp only [hpos, List.drop_zero] at hp
  rw [File.foldl_hashing] at hr
  simp only [hp, List.nil_append, Nat.zero_add, Prod.mk.injEq] at hr
  obtain ⟨rfl, rfl⟩ := hr
  simp only at hf
  by_cases hlen : (d.fs.data file.ino).length = expectedSize
  · simp [hlen, h, hf, hp, hpos]
  · simp [hlen, h]

theorem verifyCompletedFile_spec (hpos : file.pos = 0) :
    (verifyCompletedFile file receipt).Ensures d (Post
      (fun _ d' => d'.fs = d.fs ∧ Matches receipt (d.fs.data file.ino))
      (fun _ d' => d'.fs = d.fs ∧ (faults ∨ ¬Matches receipt (d.fs.data file.ino)))
      (fun d' => d'.fs = d.fs ∧ crashes)) := by
  refine Ensures.bind File.metadata_spec ?_ (fun _ d' h => ⟨h.1, .inl h.2⟩) fun d' h => h
  rintro m d₁ ⟨h₁, rfl⟩
  simp only [Bool.not_true, Bool.false_eq_true, if_false]
  split
  · rename_i hlen
    rw [ensures_bind, ensures_throw]
    exact ⟨h₁, .inr fun h => hlen h.size⟩
  · refine Ensures.bind (hashFileContents_spec hpos) ?_
      (fun _ d' h => ⟨h.1.trans h₁, h.2.imp_right fun h' hm => h' ?_⟩)
      fun d' h => ⟨h.1.trans h₁, h.2⟩
    · rintro ⟨hasher, file'⟩ d₂ ⟨h₂, hh, hl, -⟩
      simp only at hh hl
      rw [h₁] at hh
      simp only
      split
      · rename_i hne
        rw [ensures_throw]
        exact ⟨h₂.trans h₁, .inr fun h => hne (by rw [hh, h.digest])⟩
      · rename_i heq
        rw [ensures_pure]
        exact ⟨h₂.trans h₁, ⟨by rw [← hh, hl], by rw [← hh]; exact not_not.mp heq⟩⟩
    · rw [h₁, hm.size]

omit [Crates] in
/-- What cannot be opened is no regular file. -/
private theorem openRegular_failed {fs : Fs} {e : IoError} (hp : path ≠ [])
    (hn : e.kind = .notFound → fs.names path = none)
    (h : faults ∨ fs.Irregular path ∨ e.kind = .notFound) :
    faults ∨ ∀ i, fs.names path ≠ some (.file i) :=
  h.imp_right fun h => h.elim (fun h _ => h.not_file hp) fun h i => by simp [hn h]

theorem verifyExistingFinal_spec (hp : path ≠ []) :
    (verifyExistingFinal path receipt).Ensures d (Post
      (fun _ d' => d'.fs = d.fs ∧ Holds d.fs path receipt)
      (fun _ d' => d'.fs = d.fs ∧ (faults ∨ ¬Holds d.fs path receipt))
      (fun d' => d'.fs = d.fs ∧ crashes)) := by
  refine Ensures.bind (Storage.openRegular_spec hp) ?_ (fun e d' h => ⟨h.1, ?_⟩) fun d' h => h
  · rintro file d₁ ⟨h₁, hn, hpos, -⟩
    refine (verifyCompletedFile_spec hpos).mono fun o d₂ h => ?_
    rw [h₁] at h
    cases o with
    | ok => exact ⟨h.1, _, hn, h.2⟩
    | err =>
      refine ⟨h.1, h.2.imp_right fun h => ?_⟩
      rintro ⟨i, hi, hm⟩
      obtain rfl : file.ino = i := by simpa [hn] using hi
      exact h hm
    | halt => exact h
  · exact (openRegular_failed hp h.2.1 h.2.2).imp_right fun h => fun ⟨i, hi, _⟩ => h i hi

theorem verifyCompletedPartialForPromotion_spec (hp : path ≠ []) :
    (verifyCompletedPartialForPromotion path receipt).Ensures d (Post
      (fun source d' => d'.fs = d.fs ∧ d.fs.names path = some (.file source.ino) ∧
        Matches receipt (d.fs.data source.ino))
      (fun _ d' => d'.fs = d.fs ∧ (faults ∨ ¬Holds d.fs path receipt))
      (fun d' => d'.fs = d.fs ∧ crashes)) := by
  refine Ensures.bind (Storage.openRegular_spec hp) ?_ (fun e d' h => ⟨h.1, ?_⟩) fun d' h => h
  · rintro file d₁ ⟨h₁, hn, hpos, -⟩
    refine Ensures.bind (verifyCompletedFile_spec hpos) ?_ (fun _ d₂ h => ?_) fun d' h => ?_
    · rintro - d₂ ⟨h₂, hm⟩
      rw [h₁] at h₂ hm
      rw [ensures_pure]
      exact ⟨h₂, hn, hm⟩
    · rw [h₁] at h
      refine ⟨h.1, h.2.imp_right fun h => ?_⟩
      rintro ⟨i, hi, hm⟩
      obtain rfl : file.ino = i := by simpa [hn] using hi
      exact h hm
    · rw [h₁] at h
      exact h
  · exact (openRegular_failed hp h.2.1 h.2.2).imp_right fun h => fun ⟨i, hi, _⟩ => h i hi

end Disk

/-! ### Rules -/

section Rules

variable {Γ : Setting} {w : Session Γ} {α ε : Type}

/-- The session tried to send a REJECT, if anything. -/
def Rejected (w w' : Session Γ) : Prop :=
  w'.disk = w.disk ∧ ∃ es, Gained w es w' ∧ ∀ event ∈ es, event.Attempts .reject

omit [Crates] in
theorem Rejected.fs_eq {w' : Session Γ} (h : Rejected w w') : w'.fs = w.fs := congrArg Disk.fs h.1

omit [Crates] in
theorem send_noted {messageType : MessageType} {payload : Bytes} :
    (send messageType payload).Ensures w (Post
      (fun _ w' => Noted w (.sent (Frame.new messageType payload)) w')
      (fun e w' => ∃ e', e = .protocol e' ∧
        Noted w (.sendFailed (Frame.new messageType payload) e') w')
      fun _ => False) := by
  rw [send, ensures_mapErr]
  refine writeFrame_noted.mono fun o w' h => ?_
  cases o with
  | ok => exact h
  | err e => exact ⟨e, rfl, h⟩
  | halt => exact h

omit [Crates] in
theorem send_input {messageType : MessageType} {payload : Bytes} :
    (send messageType payload).Ensures w fun _ w' => w'.net.input = w.net.input := by
  rw [send, ensures_mapErr]
  refine writeFrame_input.mono fun o w' h => ?_
  cases o <;> exact h

omit [Crates] in
theorem receive_noted : (readFrame.mapErr ReceiverError.protocol).Ensures w (Post
    (fun frame w' => Noted w (.received frame) w' ∧
      frame = Frame.new frame.messageType frame.payload ∧
      w.net.input = frame.encoding ++ w'.net.input)
    (fun e w' => ∃ e', e = .protocol e' ∧ Noted w (.receiveFailed e') w')
    (fun w' => w'.disk = w.disk ∧ w'.log = w.log)) := by
  rw [ensures_mapErr]
  refine readFrame_noted.mono fun o w' h => ?_
  cases o with
  | ok => exact h
  | err e => exact ⟨e, rfl, h⟩
  | halt => exact h

omit [Crates] in
theorem sendReject_spec {code : RejectCode} {message : String} :
    (sendReject code message).Ensures w (Post (fun _ w' => Rejected w w')
      (fun _ w' => Rejected w w') fun _ => False) := by
  rw [sendReject, ensures_bind, ensures_ofExcept]
  split
  · rw [post_ok]
    refine send_noted.mono fun o w' h => ?_
    cases o with
    | ok => exact ⟨h.disk, _, h.gained, by simp⟩
    | err =>
      obtain ⟨e', -, h⟩ := h
      exact ⟨h.disk, _, h.gained, by simp⟩
    | halt => exact h
  · exact ⟨rfl, [], .of_log_eq rfl, by simp⟩

omit [Crates] in
theorem orReject_spec {message : String} {p : Receiver Γ α}
    {R : Outcome ReceiverError α → Session Γ → Prop} (hp : p.Ensures w R) :
    (orReject message p).Ensures w (Post (fun a t => R (.ok a) t)
      (fun _ t' => ∃ e t, R (.err e) t ∧ Rejected t t') fun t => R .halt t) := by
  refine Ensures.bind_attempt hp (fun a t h => ensures_pure.mpr h) (fun e t h => ?_) fun t h => h
  refine Ensures.bind sendReject_spec (fun _ t' h' => ?_) (fun _ t' h' => ⟨e, t, h, h'⟩)
    fun _ h => h.elim
  rw [ensures_throw]
  exact ⟨e, t, h, h'⟩

omit [Crates] in
theorem onDisk_spec {p : Prog (Disk Γ) ε α} {g : ε → ReceiverError}
    {R : Outcome ε α → Disk Γ → Prop} (hp : p.Ensures w.disk R) :
    (World.onDisk (p.mapErr g) : Receiver Γ α).Ensures w (Post
      (fun a t => ∃ d, R (.ok a) d ∧ t = { w with disk := d })
      (fun e' t => ∃ e d, e' = g e ∧ R (.err e) d ∧ t = { w with disk := d })
      fun t => ∃ d, R .halt d ∧ t = { w with disk := d }) :=
  World.ensures_onDisk_mapErr hp (fun _ d h => ⟨d, h, rfl⟩) (fun e d h => ⟨e, d, rfl, h, rfl⟩)
    fun d h => ⟨d, h, rfl⟩

omit [Crates] in
theorem discardOnDisk_spec {w : Session (.alone faults crashes)} {path : Path} (hp : path ≠ []) :
    (World.onDisk (discardPartialState path) : Receiver _ Unit).Ensures w (Post
      (fun _ w' => w'.log = w.log ∧ Fs.Within ∅ (scratch path) ∅ w.fs w'.fs ∧
        ∀ p ∈ scratch path, w'.fs.names p = none)
      (fun _ w' => w'.log = w.log ∧ Fs.Within ∅ (scratch path) ∅ w.fs w'.fs ∧
        (faults ∨ w.fs.Irregular path ∨ w.fs.Untidy path))
      (fun w' => w'.log = w.log ∧ Fs.Within ∅ (scratch path) ∅ w.fs w'.fs ∧ crashes)) := by
  rw [World.ensures_onDisk]
  refine (discardPartialState_spec hp).mono fun o d h => ?_
  cases o <;> exact ⟨rfl, h⟩

omit [Crates] in
theorem tryDiscardPartialState_spec {w : Session (.alone faults crashes)} {path : Path}
    (hp : path ≠ []) : (tryDiscardPartialState path).Ensures w (Post
      (fun _ w' => Fs.Within ∅ (scratch path) ∅ w.fs w'.fs ∧ w'.log = w.log ∧
        (faults ∨ w.fs.Irregular path ∨ w.fs.Untidy path ∨ ∀ p ∈ scratch path, w'.fs.names p = none))
      (fun _ _ => False)
      fun w' => Fs.Within ∅ (scratch path) ∅ w.fs w'.fs ∧ w'.log = w.log ∧ crashes) := by
  refine World.ensures_onDisk_attempt_bind (discardPartialState_spec hp) (fun _ d' h => ?_)
    (fun _ d' h => ?_) fun d' h => ⟨h.1, rfl, h.2⟩
  · rw [ensures_pure]
    exact ⟨h.1, rfl, .inr (.inr (.inr h.2))⟩
  · rw [ensures_pure]
    exact ⟨h.1, rfl, h.2.imp_right (Or.imp_right .inl)⟩

end Rules

/-! ### Reconciliation -/

section Reconcile

variable {dest : Path} {offer : FileOffer} {w : Session (.alone faults crashes)} {fs fs' : Fs}

/-- The receipt of the offered Transfer ID, when it is about the offered file. -/
def OfferReceipt (dest : Path) (offer : FileOffer) (fs : Fs) (receipt : CompletionReceipt) : Prop :=
  fs.receipt dest offer.transferId = some receipt ∧ receipt.filename = offer.filename ∧
    receipt.fileSize = offer.fileSize

/-- There is a receipt for the offer, and a file that it is about. -/
def Settleable (dest : Path) (offer : FileOffer) (fs : Fs) : Prop :=
  ∃ receipt, OfferReceipt dest offer fs receipt ∧
    (Holds fs (finalPath dest offer.filename) receipt ∨
      fs.names (finalPath dest offer.filename) = none ∧
        Holds fs (partialPath dest offer.filename) receipt)

/-- What settling an offer by its receipt may have done to the files at any moment. -/
def Settling (dest : Path) (offer : FileOffer) (fs fs' : Fs) : Prop :=
  ∃ receipt, OfferReceipt dest offer fs receipt ∧
    (Holds fs (finalPath dest offer.filename) receipt ∧
        Fs.Within ∅ (scratch (partialPath dest offer.filename)) ∅ fs fs' ∨
      fs.names (finalPath dest offer.filename) = none ∧
        ∃ i, fs.names (partialPath dest offer.filename) = some (.file i) ∧
          Matches receipt (fs.data i) ∧
          Fs.Within ∅ (insert (finalPath dest offer.filename)
            (scratch (partialPath dest offer.filename))) ∅ fs fs' ∧
          (fs'.names (finalPath dest offer.filename) = none ∧
              fs'.names (partialPath dest offer.filename) = some (.file i) ∨
            fs'.names (finalPath dest offer.filename) = some (.file i) ∧
              fs'.names (partialPath dest offer.filename) = none))

/-- Settling succeeded. -/
def Settled (dest : Path) (offer : FileOffer) (w w' : Session (.alone faults crashes)) : Prop :=
  Settling dest offer w.fs w'.fs ∧ w'.fs.names (finalPath dest offer.filename) ≠ none ∧
    Gained w [.sent (Frame.new .verified [])] w'

/-- Settling ended in an error: nothing was done, or a rename or the VERIFIED failed. -/
def SettleFailed (dest : Path) (offer : FileOffer) (w w' : Session (.alone faults crashes)) :
    Prop :=
  w'.fs = w.fs ∧ (faults ∨ ¬Settleable dest offer w.fs) ∧
      (∃ es, Gained w es w' ∧ ∀ event ∈ es, event.Attempts .reject) ∨
    Settling dest offer w.fs w'.fs ∧
      (w'.fs.names (finalPath dest offer.filename) ≠ none ∧
          (∃ e, Gained w [.sendFailed (Frame.new .verified []) e] w') ∨
        faults ∧ Gained w [] w')

/-- The process was killed. -/
def SettleHalted (dest : Path) (offer : FileOffer) (w w' : Session (.alone faults crashes)) :
    Prop :=
  crashes ∧ Gained w [] w' ∧ (w'.fs = w.fs ∨ Settling dest offer w.fs w'.fs)

/-- A refusal that changes nothing. -/
theorem SettleFailed.of_rejected {w₁ w' : Session (.alone faults crashes)}
    (hr : Rejected w₁ w') (hfs : w₁.fs = w.fs) (hlog : w₁.log = w.log)
    (h : faults ∨ ¬Settleable dest offer w.fs) : SettleFailed dest offer w w' := by
  obtain ⟨es, hg, hes⟩ := hr.2
  refine .inl ⟨hr.fs_eq.trans hfs, h, es, ?_, hes⟩
  exact (Gained.of_log_eq hlog).trans hg (by simp [Unverified])

omit [Crates] in
/-- The final file of an offer is none of its scratch files. -/
theorem finalPath_notMem_scratch :
    finalPath dest offer.filename ∉ scratch (partialPath dest offer.filename) :=
  notMem_scratch (by simp)

/-- VERIFIED is the last thing the receiver writes. -/
theorem sendVerified_settle {w₁ : Session (.alone faults crashes)}
    (h : Settling dest offer w.fs w₁.fs)
    (hn : w₁.fs.names (finalPath dest offer.filename) ≠ none) (hg : Gained w [] w₁) :
    sendVerified.Ensures w₁ (Post (fun _ w' => Settled dest offer w w')
      (fun _ w' => SettleFailed dest offer w w') (SettleHalted dest offer w)) := by
  have hv : Unverified [] := by simp [Unverified]
  refine send_noted.mono fun o w' h' => ?_
  cases o with
  | ok =>
    exact ⟨by rwa [h'.fs_eq], by rwa [h'.fs_eq], hg.trans h'.gained hv⟩
  | err =>
    obtain ⟨e, -, h'⟩ := h'
    exact .inr ⟨by rwa [h'.fs_eq], .inl ⟨by rwa [h'.fs_eq], e, hg.trans h'.gained hv⟩⟩
  | halt => exact h'.elim

theorem settleFromFinal_spec {receipt : CompletionReceipt}
    (hr : OfferReceipt dest offer w.fs receipt)
    (hn : w.fs.names (finalPath dest offer.filename) ≠ none) :
    (settleFromFinal (finalPath dest offer.filename) (partialPath dest offer.filename)
      receipt).Ensures w (Post (fun _ w' => Settled dest offer w w')
        (fun _ w' => SettleFailed dest offer w w') (SettleHalted dest offer w)) := by
  refine Ensures.bind (orReject_spec (onDisk_spec (verifyExistingFinal_spec finalPath_ne_nil)))
    ?_ ?_ ?_
  · rintro - w₁ ⟨d, ⟨h₁, hh⟩, rfl⟩
    have settling {fs' : Fs}
        (h : Fs.Within ∅ (scratch (partialPath dest offer.filename)) ∅ d.fs fs') :
        Settling dest offer w.fs fs' ∧ fs'.names (finalPath dest offer.filename) ≠ none := by
      rw [h₁] at h
      refine ⟨⟨receipt, hr, .inl ⟨hh, h⟩⟩, ?_⟩
      rwa [h.names_eq finalPath_notMem_scratch hn]
    refine Ensures.bind (tryDiscardPartialState_spec partialPath_ne_nil) ?_ (fun _ _ h => h.elim) ?_
    · rintro - w₂ ⟨h₂, hlog, -⟩
      exact sendVerified_settle (settling h₂).1 (settling h₂).2 (.of_log_eq hlog)
    · rintro w₂ ⟨h₂, hlog, hc⟩
      exact ⟨hc, .of_log_eq hlog, .inr (settling h₂).1⟩
  · rintro e w' ⟨e', w₁, ⟨e'', d, -, ⟨h₁, h⟩, rfl⟩, hrej⟩
    refine .of_rejected hrej h₁ rfl (h.imp_right fun h hs => ?_)
    obtain ⟨r, hr', hold | ⟨habs, -⟩⟩ := hs
    · obtain rfl := Option.some.inj (hr.1.symm.trans hr'.1)
      exact h hold
    · exact hn habs
  · rintro w' ⟨d, ⟨h₁, hc⟩, rfl⟩
    exact ⟨hc, .of_log_eq rfl, .inl h₁⟩

theorem settleFromPartial_spec {receipt : CompletionReceipt}
    (hr : OfferReceipt dest offer w.fs receipt)
    (hn : w.fs.names (finalPath dest offer.filename) = none) :
    (settleFromPartial (finalPath dest offer.filename) (partialPath dest offer.filename)
      receipt).Ensures w (Post (fun _ w' => Settled dest offer w w')
        (fun _ w' => SettleFailed dest offer w w') (SettleHalted dest offer w)) := by
  set D := finalPath dest offer.filename with hD
  set P := partialPath dest offer.filename with hP
  have hD0 : D ≠ [] := finalPath_ne_nil
  have hP0 : P ≠ [] := partialPath_ne_nil
  have hDS : D ∉ scratch P := finalPath_notMem_scratch
  have hDP : D ≠ P := fun h => hDS (.inl h)
  refine Ensures.bind (orReject_spec (onDisk_spec
    (verifyCompletedPartialForPromotion_spec hP0))) ?_ ?_ ?_
  · rintro source w₁ ⟨d, ⟨h₁, hsrc, hm⟩, rfl⟩
    have hdir : w.fs.isDir D.dropLast := by
      rw [hD, dropLast_finalPath]
      exact isDir_of_names_partialPath (show w.fs.names P ≠ none by rw [World.fs, hsrc]; simp)
    -- the files before and after the rename
    have kept {fs' : Fs} (h : fs' = w.fs) : Settling dest offer w.fs fs' := by
      rw [h]
      exact ⟨receipt, hr, .inr ⟨hn, _, hsrc, hm, .refl _, .inl ⟨hn, hsrc⟩⟩⟩
    have moved {fs₁ fs' : Fs} (h₁ : fs₁ = w.fs.move P D (.file source.ino))
        (h : Fs.Within ∅ (metadataNames P) ∅ fs₁ fs') :
        Settling dest offer w.fs fs' ∧ fs'.names D ≠ none := by
      subst h₁
      have hnames := Fs.names_move hsrc (by simp) hD0 hdir (by simp [hn])
      have hDn : fs'.names D = some (.file source.ino) := by
        rw [h.names_eq' (fun h => hDS (.inr h)) (Set.notMem_empty _), hnames, Function.update_self]
      have hPn : fs'.names P = none := by
        rw [h.names_eq' (notMem_metadataNames hP0) (Set.notMem_empty _), hnames,
          Function.update_of_ne hDP.symm, Function.update_self]
      refine ⟨⟨receipt, hr, .inr ⟨hn, _, hsrc, hm, ?_, .inr ⟨hDn, hPn⟩⟩⟩, by simp [hDn]⟩
      exact (Fs.Within.move hsrc (.inr (.inl rfl)) (.inl rfl)).trans
        (h.mono le_rfl (fun _ h => .inr (.inr h)) fun _ h => .inl h)
    refine World.ensures_onDisk_bind (Storage.promoteRename_spec hP0 hD0 (by rwa [h₁])
      (by rwa [h₁]) (by rwa [h₁])) ?_ ?_ ?_
    · rintro ⟨⟩ d₂ (h₂ : d₂.fs = _)
      rw [h₁] at h₂
      refine World.ensures_onDisk_attempt_bind removeTransferMetadata_spec (fun _ d₃ h => ?_)
        (fun _ d₃ h => ?_) fun d₃ h => ⟨h.2, .of_log_eq rfl, .inr (moved h₂ h.1).1⟩
      · exact sendVerified_settle (moved h₂ h.1).1 (moved h₂ h.1).2 (.of_log_eq rfl)
      · exact sendVerified_settle (moved h₂ h.1).1 (moved h₂ h.1).2 (.of_log_eq rfl)
    · rintro e d₂ ⟨h₂, hf, -⟩
      rw [h₁] at h₂
      exact .inr ⟨h₂.elim kept fun h => (moved h (.refl _)).1, .inr ⟨hf, .of_log_eq rfl⟩⟩
    · rintro d₂ ⟨h₂, hc⟩
      rw [h₁] at h₂
      exact ⟨hc, .of_log_eq rfl, h₂.imp_right fun h => (moved h (.refl _)).1⟩
  · rintro e w' ⟨e', w₁, ⟨e'', d, -, ⟨h₁, h⟩, rfl⟩, hrej⟩
    refine .of_rejected hrej h₁ rfl (h.imp_right fun h hs => ?_)
    obtain ⟨r, hr', ⟨i, hi, -⟩ | ⟨-, hold⟩⟩ := hs
    · rw [hn] at hi
      simp at hi
    · obtain rfl := Option.some.inj (hr.1.symm.trans hr'.1)
      exact h hold
  · rintro w' ⟨d, ⟨h₁, hc⟩, rfl⟩
    exact ⟨hc, .of_log_eq rfl, .inl h₁⟩

/-- Settling does not depend on what was only read before. -/
private theorem settle_congr {w₁ w' : Session (.alone faults crashes)} {o : Outcome ReceiverError Unit}
    (h : Post (fun _ w' => Settled dest offer w₁ w') (fun _ w' => SettleFailed dest offer w₁ w')
      (SettleHalted dest offer w₁) o w') (hfs : w₁.fs = w.fs) (hlog : w₁.log = w.log) :
    Post (fun _ w' => Settled dest offer w w') (fun _ w' => SettleFailed dest offer w w')
      (SettleHalted dest offer w) o w' := by
  cases o <;> simpa only [post_ok, post_err, post_halt, Settled, SettleFailed, SettleHalted, hfs,
    gained_congr hlog] using h

private theorem SettleHalted.of_fs_eq {w₁ : Session (.alone faults crashes)}
    (h : w₁.fs = w.fs) (hlog : w₁.log = w.log) (hc : crashes = true) :
    SettleHalted dest offer w w₁ := ⟨hc, .of_log_eq hlog, .inl h⟩

private theorem SettleFailed.of_fs_eq {w₁ : Session (.alone faults crashes)}
    (h : w₁.fs = w.fs) (hlog : w₁.log = w.log) (hns : faults ∨ ¬Settleable dest offer w.fs) :
    SettleFailed dest offer w w₁ := .inl ⟨h, hns, [], .of_log_eq hlog, by simp⟩

theorem settleByReceipt_spec {receipt : CompletionReceipt}
    (hr : OfferReceipt dest offer w.fs receipt) :
    (settleByReceipt (finalPath dest offer.filename) (partialPath dest offer.filename)
      receipt).Ensures w (Post (fun _ w' => Settled dest offer w w')
        (fun _ w' => SettleFailed dest offer w w') (SettleHalted dest offer w)) := by
  refine World.ensures_onDisk_bind (Storage.pathExists_spec finalPath_ne_nil) ?_
    (fun _ d h => .of_fs_eq h.1 rfl (h.2.imp_right fun hb => ?_)) fun d h =>
      SettleHalted.of_fs_eq h.1 rfl h.2
  swap
  · rintro ⟨r, -, ⟨i, hi, -⟩ | ⟨-, i, hi, -⟩⟩
    · have := hb.names_eq_none finalPath_ne_nil
      rw [this] at hi
      simp at hi
    · have hne : w.fs.names (partialPath dest offer.filename) ≠ none := by simp [hi]
      refine hb.not_isDir finalPath_ne_nil ?_
      rw [dropLast_finalPath]
      exact isDir_of_names_partialPath hne
  rintro b d₁ ⟨h₁, hb⟩
  have hr₁ : OfferReceipt dest offer d₁.fs receipt := by rwa [h₁]
  cases b with
  | true =>
    rw [if_pos rfl]
    refine (settleFromFinal_spec (w := { w with disk := d₁ }) hr₁ ?_).mono fun o w' h =>
      settle_congr h h₁ rfl
    rw [World.fs, h₁]
    exact hb.mp rfl
  | false =>
    have hn : w.fs.names (finalPath dest offer.filename) = none := by
      by_contra hn
      exact absurd (hb.mpr hn) (by simp)
    rw [if_neg (by simp)]
    -- nothing stands at the final name: all depends on the partial file
    have unsettleable (h : ∀ i, w.fs.names (partialPath dest offer.filename) ≠ some (.file i)) :
        ¬Settleable dest offer w.fs := by
      rintro ⟨r, -, ⟨i, hi, -⟩ | ⟨-, i, hi, -⟩⟩
      · simp [hn] at hi
      · exact h i hi
    refine World.ensures_onDisk_bind (Storage.pathExists_spec partialPath_ne_nil) ?_
      (fun _ d h => .of_fs_eq (h.1.trans h₁) rfl (h.2.imp_right fun hb => unsettleable fun i => ?_))
      fun d h => SettleHalted.of_fs_eq (h.1.trans h₁) rfl h.2
    swap
    · rw [World.fs, ← h₁, hb.names_eq_none partialPath_ne_nil]
      simp
    rintro b d₂ ⟨h₂, hb⟩
    have hr₂ : OfferReceipt dest offer d₂.fs receipt := by rwa [h₂]
    cases b with
    | true =>
      rw [if_pos rfl]
      refine (settleFromPartial_spec (w := { w with disk := d₂ }) hr₂ ?_).mono fun o w' h =>
        settle_congr h (h₂.trans h₁) rfl
      rwa [World.fs, h₂, h₁]
    | false =>
      have hpn : w.fs.names (partialPath dest offer.filename) = none := by
        by_contra hn
        rw [World.fs, ← h₁] at hn
        exact absurd (hb.mpr hn) (by simp)
      rw [if_neg (by simp)]
      have hns : faults ∨ ¬Settleable dest offer w.fs := .inr (unsettleable (by simp [hpn]))
      refine Ensures.bind sendReject_spec (fun _ _ h => ?_)
        (fun _ _ h => .of_rejected h (h₂.trans h₁) rfl hns) fun _ h => h.elim
      rw [ensures_throw]
      exact .of_rejected h (h₂.trans h₁) rfl hns

theorem reconcileCompletedTransfer_spec :
    (reconcileCompletedTransfer dest (finalPath dest offer.filename)
      (partialPath dest offer.filename) offer).Ensures w (Post
        (fun settled w' => if settled then Settled dest offer w w'
          else w'.fs = w.fs ∧ Gained w [] w' ∧
            w.fs.names (completionReceiptPath dest offer.transferId) = none)
        (fun _ w' => SettleFailed dest offer w w') (SettleHalted dest offer w)) := by
  have unsettleable {fs : Fs} (h : fs.receipt dest offer.transferId = none) :
      ¬Settleable dest offer fs := by
    rintro ⟨r, hr, -⟩
    simp [hr.1] at h
  refine World.ensures_onDisk_bind (Storage.pathExists_spec completionReceiptPath_ne_nil) ?_
    (fun _ d h => .of_fs_eq h.1 rfl (h.2.imp_right fun hb => unsettleable ?_))
    fun d h => SettleHalted.of_fs_eq h.1 rfl h.2
  swap
  · exact Fs.receipt_eq_none (hb.names_eq_none completionReceiptPath_ne_nil)
  rintro b d₁ ⟨h₁, hb⟩
  cases b with
  | false =>
    simp only [Bool.not_false, if_true, ensures_pure]
    refine ⟨h₁, .of_log_eq rfl, ?_⟩
    by_contra hn
    exact absurd (hb.mpr hn) (by simp)
  | true =>
    simp only [Bool.not_true, Bool.false_eq_true, if_false]
    refine Ensures.bind (orReject_spec (onDisk_spec readCompletionReceipt_spec)) ?_ ?_ ?_
    · rintro receipt w₂ ⟨d₂, ⟨h₂, hr⟩, rfl⟩
      replace h₂ : d₂.fs = w.fs := h₂.trans h₁
      by_cases hid : receipt.filename = offer.filename ∧ receipt.fileSize = offer.fileSize
      · rw [if_neg (by simp [hid])]
        have hor : OfferReceipt dest offer d₂.fs receipt := by
          rw [h₂, World.fs, ← h₁]
          exact ⟨hr, hid⟩
        refine Ensures.bind (settleByReceipt_spec (w := { w with disk := d₂ }) hor) ?_ ?_ ?_
        · exact fun _ w' h => ensures_pure.mpr (settle_congr (o := .ok ()) h h₂ rfl)
        · exact fun e w' h => settle_congr (o := .err e) h h₂ rfl
        · exact fun w' h => settle_congr (o := .halt) h h₂ rfl
      · have hns : faults ∨ ¬Settleable dest offer w.fs := by
          refine .inr ?_
          rintro ⟨r, ⟨hr', hid'⟩, -⟩
          rw [World.fs, ← h₁, hr] at hr'
          exact hid (Option.some.inj hr' ▸ hid')
        rw [if_pos (by simpa [imp_iff_not_or] using hid)]
        refine Ensures.bind sendReject_spec (fun _ _ h => ?_)
          (fun _ _ h => .of_rejected h h₂ rfl hns) fun _ h => h.elim
        rw [ensures_bind, ensures_throw]
        exact .of_rejected h h₂ rfl hns
    · rintro e w' ⟨e', w₂, ⟨e'', d₂, -, ⟨h₂, h⟩, rfl⟩, hrej⟩
      refine .of_rejected hrej (h₂.trans h₁) rfl (h.imp_right fun h => unsettleable ?_)
      rw [World.fs, ← h₁]
      exact h
    · rintro w' ⟨d, ⟨h₂, hc⟩, rfl⟩
      exact .of_fs_eq (h₂.trans h₁) rfl hc

end Reconcile

end Warpfile.V02
