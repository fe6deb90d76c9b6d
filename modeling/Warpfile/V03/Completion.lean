import Mathlib.Data.List.Infix
import Warpfile.Storage.ReceiptRuns
import Warpfile.V03.Inventory

/-!
# Completing a transfer

Between the COMPLETE of the sender and the VERIFIED of the receiver lie four steps that can fail:
the file is verified, its receipt published, the final name linked to it, and VERIFIED written.
`CompleteEnding` says what each of them leaves behind. Where something stands in the way of the
final name, the receipt is there already, and the next session settles the offer with it from the
partial file.
-/

namespace Warpfile

open Prog

/-! ### Files that stay -/

/-- What stands at `p` and below is as it was. -/
def Fs.Same (p : Path) (fs fs' : Fs) : Prop :=
  ∀ q, p <+: q → fs'.names q = fs.names q ∧ fs'.read q = fs.read q

/-- `fs'` is `fs` once what stands at `p` is removed. -/
structure Fs.Removed (p : Path) (fs fs' : Fs) : Prop where
  removed : fs'.names p = none
  names : ∀ q, ¬p <+: q → fs'.names q = fs.names q
  data : fs'.data = fs.data

section

variable {fs fs' fs'' : Fs} {p q : Path} {K S : Set Path}

theorem Fs.Within.same (h : Fs.Within K S ∅ fs fs') (hS : ∀ q, p <+: q → q ∉ S ∧ q ∉ K) :
    Fs.Same p fs fs' := by
  intro q hq
  have hn := h.names_eq' (hS q hq).1 (hS q hq).2
  exact ⟨hn, h.read_eq hn⟩

theorem Fs.Same.trans (h : Fs.Same p fs fs') (h' : Fs.Same p fs' fs'') : Fs.Same p fs fs'' :=
  fun q hq => ⟨(h' q hq).1.trans (h q hq).1, (h' q hq).2.trans (h q hq).2⟩

theorem Fs.Removed.read_eq (h : Fs.Removed p fs fs') (hq : ¬p <+: q) : fs'.read q = fs.read q := by
  unfold Fs.read Fs.inode
  rw [h.names q hq, h.data]

/-- A path that is no receipt, and not on the way to one. -/
theorem notMem_receiptNames_below {dest : Path} {T : TransferId}
    (hp : p.dropLast ≠ receiptsDirectory dest) (hK : p ∉ Fs.chain (receiptsDirectory dest))
    (hp0 : p ≠ []) (hq : p <+: q) :
    q ∉ receiptNames dest T ∧ q ∉ Fs.chain (receiptsDirectory dest) := by
  refine ⟨fun hR => hK ⟨hp0, ?_⟩, fun hc => hK ⟨hp0, hq.trans hc.2⟩⟩
  have hd : q.dropLast = receiptsDirectory dest := by rcases hR with rfl | rfl <;> simp
  have hq0 : q ≠ [] := by rcases hR with rfl | rfl <;> simp [completionReceiptTemporaryPath]
  rw [← List.dropLast_append_getLast hq0, List.prefix_concat_iff,
    List.dropLast_append_getLast hq0] at hq
  rcases hq with rfl | hq
  · exact absurd hd hp
  · rwa [hd] at hq

end

namespace V03

section

variable [Crates] {faults crashes : Bool}

/-- Bytes of the size and the digest that are expected. -/
structure Verifies (expectedSize : ℕ) (expectedHash : Digest) (bytes : Bytes) : Prop where
  size : bytes.length = expectedSize
  digest : blake3 bytes = expectedHash

section Disk

variable {d : Disk (.alone faults crashes)} {path : Path} {file : File} {size : ℕ} {hash : Digest}

/-- The hasher absorbs the whole file. -/
theorem hashPhysicalFileV03_spec (hpos : file.pos = 0) :
    (hashPhysicalFileV03 file size hash).Ensures d (Post
      (fun _ d' => d'.fs = d.fs ∧ Verifies size hash (d.fs.data file.ino))
      (fun _ d' => d'.fs = d.fs ∧ (faults ∨ ¬Verifies size hash (d.fs.data file.ino)))
      (fun d' => d'.fs = d.fs ∧ crashes)) := by
  refine Ensures.bind_mapErr (File.foldReads_spec (by norm_num) _ _) ?_
    (fun _ d' h => ⟨h.1, .inl h.2⟩) fun d' h => h
  rintro ⟨⟨hasher, bytesReadTotal⟩, file'⟩ d' ⟨h, pieces, hp, hr, -⟩
  simp only [hpos, List.drop_zero] at hp
  rw [File.foldl_hashing] at hr
  simp only [hp, List.nil_append, Nat.zero_add, Prod.mk.injEq] at hr
  obtain ⟨rfl, rfl⟩ := hr
  simp only
  split_ifs with hlen hdigest
  · rw [ensures_throw]
    exact ⟨h, .inr fun hv => hlen hv.size⟩
  · rw [ensures_throw]
    exact ⟨h, .inr fun hv => hdigest hv.digest⟩
  · rw [ensures_pure]
    exact ⟨h, ⟨not_not.mp hlen, not_not.mp hdigest⟩⟩

theorem verifyPartialForPromotionV03_spec (hp : path ≠ []) :
    (verifyPartialForPromotionV03 path size hash).Ensures d (Post
      (fun source d' => d'.fs = d.fs ∧ d.fs.names path = some (.file source.ino) ∧
        Verifies size hash (d.fs.data source.ino))
      (fun _ d' => d'.fs = d.fs ∧ (faults ∨ ∀ i, d.fs.names path = some (.file i) →
        ¬Verifies size hash (d.fs.data i)))
      (fun d' => d'.fs = d.fs ∧ crashes)) := by
  refine Ensures.bind_mapErr (Storage.openRegular_spec hp) ?_ (fun e d' h => ?_) fun d' h => h
  · rintro source d₁ ⟨h₁, hn, hpos, -⟩
    refine Ensures.bind (hashPhysicalFileV03_spec hpos) ?_ (fun _ d₂ h => ?_) fun d₂ h => ?_
    · rintro - d₂ ⟨h₂, hv⟩
      rw [h₁] at h₂ hv
      rw [ensures_pure]
      exact ⟨h₂, hn, hv⟩
    · rw [h₁] at h
      refine ⟨h.1, h.2.imp_right fun h i hi => ?_⟩
      obtain rfl : source.ino = i := by simpa [hn] using hi
      exact h
    · rw [h₁] at h
      exact h
  · refine ⟨h.1, h.2.2.imp_right fun h' i hi => ?_⟩
    rcases h' with h' | h'
    · exact absurd hi (h'.not_file hp)
    · simp [h.2.1 h'] at hi

omit [Crates] in
/-- A link is made where nothing stands, and nowhere else. -/
theorem promotePartialNoClobber_spec {ε : Type} {taken : Path → ε} {io : IoError → ε}
    {source : File} {p q : Path} (hp : p ≠ []) (hq : q ≠ []) (hdir : d.fs.isDir q.dropLast)
    (hn : d.fs.names p = some (.file source.ino)) :
    (promotePartialNoClobber taken io source p q).Ensures d (Post
      (fun _ d' => d.fs.names q = none ∧ d'.fs = d.fs.setName q (.file source.ino))
      (fun e d' => d.fs.names q ≠ none ∧ d'.fs = d.fs ∧ (e = taken q ∨ faults) ∨
        d.fs.names q = none ∧ faults ∧
          (d'.fs = d.fs ∨ d'.fs = d.fs.setName q (.file source.ino)))
      (fun d' => crashes ∧ (d'.fs = d.fs ∨
        d.fs.names q = none ∧ d'.fs = d.fs.setName q (.file source.ino)))) := by
  rw [promotePartialNoClobber, ensures_mapErr]
  by_cases hnq : d.fs.names q = none
  · refine (Storage.promoteLink_spec hp hq hdir hn hnq).mono fun o d' h => ?_
    cases o with
    | ok => exact ⟨hnq, h⟩
    | err e => exact .inr ⟨hnq, h.2.1, h.1⟩
    | halt => exact ⟨h.2, h.1.imp_right fun h => ⟨hnq, h⟩⟩
  · refine (Storage.promoteLink_taken hp hq hn hnq).mono fun o d' h => ?_
    cases o with
    | ok => exact h.elim
    | err e =>
      refine .inl ⟨hnq, h.1, ?_⟩
      split_ifs with he
      · exact .inl rfl
      · exact .inr (h.2 he)
    | halt => exact ⟨h.2, .inl h.1⟩

omit [Crates] in
theorem removeChunkState_spec : (removeChunkState path).Ensures d (Post
    (fun _ d' => Fs.Within ∅ {chunkStateTemporaryPath path, chunkStatePath path} ∅ d.fs d'.fs ∧
      d'.fs.names (chunkStatePath path) = none ∧ d'.fs.names (chunkStateTemporaryPath path) = none)
    (fun _ d' => Fs.Within ∅ {chunkStateTemporaryPath path, chunkStatePath path} ∅ d.fs d'.fs ∧
      (faults ∨ d.fs.Irregular (chunkStatePath path) ∨
        d.fs.Irregular (chunkStateTemporaryPath path)))
    (fun d' => Fs.Within ∅ {chunkStateTemporaryPath path, chunkStatePath path} ∅ d.fs d'.fs ∧
      crashes)) := by
  have hC0 : chunkStatePath path ≠ [] := appendSuffix_ne_nil
  have hCt0 : chunkStateTemporaryPath path ≠ [] := appendSuffix_ne_nil
  refine Ensures.bind_mapErr (Storage.removeIfExists_spec hC0) ?_
    (fun e d' h => ⟨.of_eq h.1, h.2.imp_right .inl⟩) fun d' h => ⟨.of_eq h.1, h.2⟩
  rintro - d₁ ⟨h₁, hn₁⟩
  have hw₁ : Fs.Within ∅ {chunkStateTemporaryPath path, chunkStatePath path} ∅ d.fs d₁.fs := by
    rw [h₁]
    exact .unlink (.inr rfl)
  rw [ensures_mapErr]
  refine (Storage.removeIfExists_spec hCt0).mono fun o d' h => ?_
  cases o with
  | ok =>
    obtain ⟨h, hn⟩ := h
    have hw : Fs.Within ∅ {chunkStateTemporaryPath path, chunkStatePath path} ∅ d₁.fs d'.fs := by
      rw [h]
      exact .unlink (.inl rfl)
    refine ⟨hw₁.trans hw, ?_, hn⟩
    rw [h, Fs.names_unlink_of_ne chunkStatePath_ne_temporary, hn₁]
  | err e =>
    refine ⟨by rw [h.1]; exact hw₁, h.2.imp_right fun hi => .inr ?_⟩
    rw [h₁] at hi
    exact Fs.irregular_unlink hi
  | halt => exact ⟨by rw [h.1]; exact hw₁, h.2⟩

end Disk

/-! ### The endings -/

/-- The receipt of a verified transfer. -/
def ReceivedCompleteV03.receipt (received : ReceivedCompleteV03) : CompletionReceipt where
  transferId := received.identity.transferId
  filename := received.identity.filename
  fileSize := received.receiver.chunkState.layout.fileSize
  blake3 := received.senderFileHash

/-- The partial file is what the sender sent. -/
def ReceivedCompleteV03.Verified (received : ReceivedCompleteV03) (fs : Fs) : Prop :=
  Verifies received.receiver.chunkState.layout.fileSize.toNat received.senderFileHash
    (fs.data received.file.ino)

/-- In the place of the receipt stands another one, or something that is none. -/
def ReceivedCompleteV03.Refused (received : ReceivedCompleteV03) (dest : Path) (fs : Fs) : Prop :=
  fs.names (completionReceiptPath dest received.identity.transferId) ≠ none ∧
    fs.receipt dest received.identity.transferId ≠ some received.receipt

/-- A transfer into `dest` that can be completed: nothing hinders the calls, apart from the
contents of the partial file, the receipt and what stands at the final name. -/
structure Completable (dest : Path) (received : ReceivedCompleteV03) (fs : Fs) : Prop where
  partialPath : received.partialPath = partialPath dest received.identity.filename
  file : fs.names received.partialPath = some (.file received.file.ino)
  filename : isSafeFilename received.identity.filename
  receipts : fs.Creatable (receiptsDirectory dest)
  temporary : fs.Regular {completionReceiptTemporaryPath dest received.identity.transferId}
  snapshot : fs.Regular
    {chunkStateTemporaryPath received.partialPath, chunkStatePath received.partialPath}

/-- The offer is settled by the receipt: it needs no more than the VERIFIED to be written. -/
def Settles (dest : Path) (offer : FileOfferV03) (fs : Fs) (bytes : Bytes) : Prop :=
  ∀ w : Session (.alone false false), w.fs = fs → (receiveOfferedV03 dest offer).Ensures w (Post
    (fun outcome w' => outcome = .reconciled (finalPath dest offer.filename) ∧
      w'.fs.read (finalPath dest offer.filename) = some bytes)
    (fun e w' => (∃ error, e = .reconcile (.protocol error)) ∧ w.net.room ≠ none ∧
      w'.fs.read (finalPath dest offer.filename) = some bytes)
    fun _ => False)

/-- **How `complete` ends.** Which ending it is depends on the bytes, the receipt and the final
name alone. -/
inductive CompleteEnding (dest : Path) (received : ReceivedCompleteV03)
    (w w' : Session (.alone false false)) : Outcome ReceiverV03CompleteError Path → Prop
  | unverified {error : ReceiverV03VerificationError} (content : ¬received.Verified w.fs)
      (files : w'.fs = w.fs) :
      CompleteEnding dest received w w' (.err (.finalize (.verification error)))
  | receiptRefused {error : CompletionReceiptError} (content : received.Verified w.fs)
      (receipt : received.Refused dest w.fs) (files : ∀ p, Fs.Same p w.fs w'.fs) :
      CompleteEnding dest received w w' (.err (.finalize (.receipt error)))
  | destinationExists (content : received.Verified w.fs) (receipt : ¬received.Refused dest w.fs)
      (final : w.fs.names (finalPath dest received.identity.filename) ≠ none)
      (files : ∀ p ∈ [finalPath dest received.identity.filename, received.partialPath,
        chunkStatePath received.partialPath], Fs.Same p w.fs w'.fs)
      (recorded : w'.fs.receipt dest received.identity.transferId = some received.receipt)
      (settled : ∀ (offer : FileOfferV03) (fs : Fs), offer.transferId = received.receipt.transferId →
        offer.filename = received.receipt.filename → offer.fileSize = received.receipt.fileSize →
        Fs.Removed (finalPath dest offer.filename) w'.fs fs →
        Settles dest offer fs (w.fs.data received.file.ino)) :
      CompleteEnding dest received w w'
        (.err (.finalize (.destinationExists (finalPath dest received.identity.filename))))
  | published {o : Outcome ReceiverV03CompleteError Path} (content : received.Verified w.fs)
      (receipt : ¬received.Refused dest w.fs)
      (final : w.fs.names (finalPath dest received.identity.filename) = none)
      (outcome : o = .ok (finalPath dest received.identity.filename) ∨
        (∃ error, o = .err (.protocol error)) ∧ w.net.room ≠ none)
      (recorded : w'.fs.receipt dest received.identity.transferId = some received.receipt)
      (read : w'.fs.read (finalPath dest received.identity.filename) =
        some (w.fs.data received.file.ino))
      (cleaned : w'.fs.names (chunkStatePath received.partialPath) = none ∧
        w'.fs.names (chunkStateTemporaryPath received.partialPath) = none) :
      CompleteEnding dest received w w' o

/-! ### Settling an offer from the partial file -/

section Settle

variable {dest : Path} {offer : FileOfferV03} {receipt : CompletionReceipt} {i : ℕ}
  {w : Session (.alone false false)}

omit [Crates] in
/-- VERIFIED is the last thing that is written. -/
private theorem sendVerified_return {α ε : Type} {frameError : FrameError → ε}
    {protocolError : ProtocolIoError → ε} {a : α} :
    (do sendFrameV03 frameError protocolError .verified []; return a).Ensures w (Post
      (fun b w' => b = a ∧ w'.disk = w.disk)
      (fun e w' => (∃ error, e = protocolError error) ∧ w.net.room ≠ none ∧ w'.disk = w.disk)
      fun _ => False) := by
  refine Ensures.bind (sendFrameV03_wrote (by simp) (by simp)) (fun _ w₁ h => ?_)
    (fun e w₁ h => ?_) fun w₁ h => h
  · rw [ensures_pure]
    exact ⟨rfl, h.disk⟩
  · obtain ⟨⟨kind, rfl⟩, h⟩ := h
    exact ⟨⟨_, rfl⟩, h.room, h.disk⟩

/-- What settling an offer ensures: the final file holds `bytes`, and if VERIFIED could not be
written that is the only thing missing. -/
private def Reconciled (w : Session (.alone false false)) (final : Path) (bytes : Bytes) :
    Outcome ReceiverV03ReconcileError ReceiverV03ReconcileOutcome →
      Session (.alone false false) → Prop :=
  Post (fun outcome w' => outcome = .reconciled final ∧ w'.fs.read final = some bytes)
    (fun e w' => (∃ error, e = .protocol error) ∧ w.net.room ≠ none ∧
      w'.fs.read final = some bytes)
    fun _ => False

/-- The final name is linked to the partial file. -/
private theorem reconcileFromPartial_spec
    (hfinal : w.fs.names (finalPath dest offer.filename) = none)
    (hpart : w.fs.names (partialPath dest offer.filename) = some (.file i))
    (hv : Verifies receipt.fileSize.toNat receipt.blake3 (w.fs.data i)) :
    (reconcileFromPartial (finalPath dest offer.filename) (partialPath dest offer.filename)
      receipt).Ensures w (Reconciled w (finalPath dest offer.filename) (w.fs.data i)) := by
  have hdest : w.fs.isDir (finalPath dest offer.filename).dropLast := by
    rw [dropLast_finalPath]
    exact isDir_of_names_partialPath (show w.fs.names (partialPath dest offer.filename) ≠ none by
      simp [hpart])
  rw [reconcileFromPartial]
  refine World.ensures_onDisk_attempt_bind
    (verifyPartialForPromotionV03_spec partialPath_ne_nil) ?_ (fun e d₁ h => ?_)
    fun d₁ h => nomatch h.2
  swap
  · exact absurd hv (h.2.resolve_left (by simp) i hpart)
  rintro source d₁ ⟨h₁, hn₁, -⟩
  have h₁ : d₁.fs = w.fs := h₁
  obtain rfl : source.ino = i := by
    have hn₁ : w.fs.names _ = _ := hn₁
    simpa [hpart] using hn₁.symm
  rw [← h₁] at hpart hfinal hdest
  dsimp only
  rw [ensures_bind, World.ensures_onDisk]
  refine (promotePartialNoClobber_spec partialPath_ne_nil finalPath_ne_nil hdest hpart).mono
    fun o d₂ h => ?_
  rcases o with _ | e | _
  · obtain ⟨-, h₂⟩ := h
    have hlinked : d₂.fs.read (finalPath dest offer.filename) = some (w.fs.data source.ino) := by
      have hbind : d₁.fs.MayBind (finalPath dest offer.filename) (.file source.ino) :=
        ⟨finalPath_ne_nil, hdest, by simp [hfinal],
          fun j hj => d₁.fs.allocated (partialPath dest offer.filename) j (hj ▸ hpart)⟩
      refine Fs.read_eq_some.mpr ⟨source.ino, ?_, ?_⟩
      · rw [h₂, Fs.names_setName hbind, Function.update_self]
      · rw [h₂, Fs.data_setName, h₁]
    -- whether or not the snapshot is removed, the final file is there
    have cleaned {d₃ : Disk (.alone false false)} (h₃ : Fs.Within ∅
        {chunkStateTemporaryPath (partialPath dest offer.filename),
          chunkStatePath (partialPath dest offer.filename)} ∅ d₂.fs d₃.fs) :
        (do
          sendVerifiedV03
          return .reconciled (finalPath dest offer.filename) :
            Prog (Session (.alone false false)) ReceiverV03ReconcileError
              ReceiverV03ReconcileOutcome).Ensures { w with disk := d₃ }
          (Reconciled w (finalPath dest offer.filename) (w.fs.data source.ino)) := by
      have hread : d₃.fs.read (finalPath dest offer.filename) = some (w.fs.data source.ino) := by
        refine (h₃.read (fun hmem => ?_) ?_ fun j _ => Set.notMem_empty j).trans hlinked
        · have := dropLast_of_mem_chunkStatePaths hmem
          simp at this
        · intro hn
          obtain ⟨j, hj, -⟩ := Fs.read_eq_some.mp hlinked
          exact nomatch hn.symm.trans hj
      refine sendVerified_return.mono fun o w' h => ?_
      cases o with
      | ok => exact ⟨h.1, by rw [World.fs, h.2]; exact hread⟩
      | err e => exact ⟨h.1, h.2.1, by rw [World.fs, h.2.2]; exact hread⟩
      | halt => exact h
    refine World.ensures_onDisk_attempt_bind removeChunkState_spec (fun _ d₃ h => cleaned h.1)
      (fun _ d₃ h => cleaned h.1) fun d₃ h => nomatch h.2
  · rcases h with ⟨hn, -⟩ | ⟨-, hf, -⟩
    · exact absurd hfinal hn
    · exact nomatch hf
  · exact nomatch h.1

/-- **An offer is settled from the partial file**: the receipt is about it, and no final file
stands in the way. -/
theorem settles_from_partial {fs : Fs} (hsafe : isSafeFilename offer.filename)
    (hreceipt : fs.receipt dest offer.transferId = some receipt)
    (hname : receipt.filename = offer.filename) (hsize : receipt.fileSize = offer.fileSize)
    (hfinal : fs.names (finalPath dest offer.filename) = none)
    (hpart : fs.names (partialPath dest offer.filename) = some (.file i))
    (hv : Verifies receipt.fileSize.toNat receipt.blake3 (fs.data i)) :
    Settles dest offer fs (fs.data i) := by
  rintro w rfl
  have hdir : w.fs.isDir dest := isDir_of_names_partialPath (by rw [hpart]; simp)
  obtain ⟨j, hj⟩ := Fs.names_of_receipt hreceipt
  have free {p : Path} (hp : p ≠ []) (hd : w.fs.isDir p.dropLast) : ¬w.fs.Blocked p :=
    fun hb => hb.not_isDir hp hd
  have hspec : (reconcileCompletedTransferV03 dest offer).Ensures w
      (Reconciled w (finalPath dest offer.filename) (w.fs.data i)) := by
    rw [reconcileCompletedTransferV03, ensures_bind, ensures_ofExcept]
    simp only [hsafe, Bool.not_true, refuseIf, Bool.false_eq_true, if_false, post_ok]
    refine World.ensures_onDisk_bind (Storage.pathExists_spec completionReceiptPath_ne_nil) ?_
      (fun e d₁ h => ?_) fun d₁ h => Bool.noConfusion h.2
    swap
    · exact absurd (h.2.resolve_left (by simp)) (free completionReceiptPath_ne_nil
        (Fs.isDir_dropLast (by rw [hj]; simp)))
    rintro b d₁ ⟨h₁, hb⟩
    rw [if_pos (hb.mpr (by rw [hj]; simp))]
    refine World.ensures_onDisk_bind readCompletionReceipt_spec ?_ (fun e d₂ h => ?_)
      fun d₂ h => Bool.noConfusion h.2
    swap
    · refine absurd (h.2.resolve_left (by simp)) ?_
      simp [h₁, hreceipt]
    rintro r d₂ ⟨h₂, hr⟩
    replace h₂ : d₂.fs = w.fs := h₂.trans h₁
    obtain rfl : receipt = r := by
      have hr : d₁.fs.receipt dest offer.transferId = some r := hr
      rw [h₁] at hr
      exact Option.some.inj (hreceipt.symm.trans hr)
    rw [ensures_bind, ensures_ofExcept]
    simp only [hname, hsize, ne_eq, not_true, or_self, if_false, post_ok]
    refine World.ensures_onDisk_bind (Storage.pathExists_spec finalPath_ne_nil) ?_
      (fun e d₃ h => ?_) fun d₃ h => Bool.noConfusion h.2
    swap
    · refine absurd (h.2.resolve_left (by simp)) ?_
      simp only [h₂]
      exact free finalPath_ne_nil (by rwa [dropLast_finalPath])
    rintro b d₃ ⟨h₃, hb⟩
    replace h₃ : d₃.fs = w.fs := h₃.trans h₂
    have hb : b = false := by simpa [h₂, hfinal] using hb
    rw [if_neg (by simp [hb])]
    refine World.ensures_onDisk_bind (Storage.pathExists_spec partialPath_ne_nil) ?_
      (fun e d₄ h => ?_) fun d₄ h => Bool.noConfusion h.2
    swap
    · refine absurd (h.2.resolve_left (by simp)) ?_
      simp only [h₃]
      exact free partialPath_ne_nil (Fs.isDir_dropLast (by rw [hpart]; simp))
    rintro b d₄ ⟨h₄, hb⟩
    replace h₄ : d₄.fs = w.fs := h₄.trans h₃
    rw [if_pos (hb.mpr (by simp [h₃, hpart]))]
    have h : (reconcileFromPartial (finalPath dest offer.filename) (partialPath dest offer.filename)
        receipt).Ensures { w with disk := d₄ } (Reconciled { w with disk := d₄ }
          (finalPath dest offer.filename) (d₄.fs.data i)) :=
      reconcileFromPartial_spec (by rw [World.fs, h₄, hfinal]) (by rw [World.fs, h₄, hpart])
        (by rwa [World.fs, h₄])
    rwa [h₄] at h
  rw [receiveOfferedV03]
  refine Ensures.bind_mapErr hspec ?_ (fun e w' h => ?_) fun w' h => h
  · rintro outcome w' ⟨rfl, hread⟩
    exact ensures_pure.mpr ⟨rfl, hread⟩
  · obtain ⟨⟨error, rfl⟩, h⟩ := h
    exact ⟨⟨error, rfl⟩, h⟩

end Settle

/-! ### Completing -/

section Complete

variable {dest : Path} {received : ReceivedCompleteV03} {d : Disk (.alone false false)}

omit [Crates] in
theorem validatePartialPath_partialPath {filename : String} (h : filename ≠ "") :
    validatePartialPath (partialPath dest filename) = .ok () := by
  have hends : (filename ++ ".part").endsWith ".part" = true := by
    rw [String.endsWith, String.Slice.endsWith_string_iff]
    exact ⟨filename.toList, by simp⟩
  have hne : (filename ++ ".part" == ".part") = false := by simp [h]
  rw [validatePartialPath, partialPath, List.getLast?_concat]
  simp [hends, hne]

/-- The receipt is written, or something else in its place refuses it. -/
private theorem writeCompletionReceipt_completable (h : Completable dest received d.fs) :
    (writeCompletionReceipt dest received.receipt).Ensures d (Post
      (fun _ d' => ¬received.Refused dest d.fs ∧
        Fs.Within (Fs.chain (receiptsDirectory dest))
          (receiptNames dest received.identity.transferId) ∅ d.fs d'.fs ∧
        d'.fs.receipt dest received.identity.transferId = some received.receipt)
      (fun _ d' => received.Refused dest d.fs ∧ ∀ p, Fs.Same p d.fs d'.fs)
      fun _ => False) := by
  have hname : received.receipt.filename ≠ "" := ne_empty_of_isSafeFilename h.filename
  by_cases hrefused : received.Refused dest d.fs
  · have hn : d.fs.names (completionReceiptPath dest received.receipt.transferId) ≠ none :=
      hrefused.1
    have hr : d.fs.receipt dest received.receipt.transferId ≠ some received.receipt := hrefused.2
    refine (writeCompletionReceipt_refused hn hr).mono fun o d' h' => ?_
    cases o with
    | ok => exact h'.elim
    | err e =>
      refine ⟨hrefused, fun p q _ => ?_⟩
      -- the directories on the way to the receipt were there already
      have hn : d'.fs.names q = d.fs.names q := by
        refine (h'.names q (Set.notMem_empty q)).resolve_right fun ⟨hq, hnone, _⟩ => ?_
        refine absurd hnone ?_
        rw [d.fs.rooted _ q hrefused.1 ?_ hq.1 ?_]
        · simp
        · rw [← @dropLast_completionReceiptPath _ received.identity.transferId] at hq
          exact hq.2.trans (List.dropLast_prefix _)
        · rintro rfl
          refine Fs.notMem_chain_dropLast completionReceiptPath_ne_nil (p := completionReceiptPath
            dest received.identity.transferId) ?_
          rwa [dropLast_completionReceiptPath]
      exact ⟨hn, h'.read_eq hn⟩
    | halt => exact nomatch h'.2
  · have hirregular : ¬d.fs.Irregular
        (completionReceiptTemporaryPath dest received.receipt.transferId) :=
      h.temporary.not_irregular rfl (h.receipts.not_blocked_temporary)
    have written {fs : Fs} (hstep : d.fs.ReceiptStep dest received.receipt fs)
        (hr : d.fs.receipt dest received.receipt.transferId = some received.receipt ∨
          d.fs.ReceiptPublished dest received.receipt fs) :
        ¬received.Refused dest d.fs ∧ Fs.Within (Fs.chain (receiptsDirectory dest))
            (receiptNames dest received.receipt.transferId) ∅ d.fs fs ∧
          fs.receipt dest received.receipt.transferId = some received.receipt :=
      ⟨hrefused, hstep.1, ReceiptStep.receipt_eq hstep hname hr⟩
    by_cases hn : d.fs.names (completionReceiptPath dest received.receipt.transferId) = none
    · refine writeCompletionReceipt_spec.mono fun o d' h' => ?_
      cases o with
      | ok => exact written h'.1 h'.2
      | err e => simpa [h.receipts, hirregular, hn] using h'.2
      | halt => exact nomatch h'.2
    · have hr : d.fs.receipt dest received.receipt.transferId = some received.receipt :=
        by_contra fun hr => hrefused ⟨hn, hr⟩
      refine (writeCompletionReceipt_spec.and (writeCompletionReceipt_of_receipt hr)).mono
        fun o d' h' => ?_
      cases o with
      | ok => exact written h'.1.1 h'.1.2
      | err e => simpa using h'.2
      | halt => exact nomatch h'.2

omit [Crates] in
/-- What stands in the directory of the partial files is on the way to no receipt. -/
theorem notMem_chain_of_dropLast {p : Path} (h : p.dropLast = partialsDirectory dest) :
    p ∉ Fs.chain (receiptsDirectory dest) := by
  rintro ⟨-, hp⟩
  have hle := hp.length_le
  have hlen := congrArg List.length h
  simp only [List.length_dropLast, partialsDirectory, receiptsDirectory, internalDirectory,
    List.length_append, List.length_singleton] at hle hlen
  omega

omit [Crates] in
/-- The partial files do not stand below a final file. -/
theorem not_finalPath_prefix_partialPath {filename filename' : String}
    (h : filename ≠ internalDirectoryName) :
    ¬finalPath dest filename <+: partialPath dest filename' := by
  rw [partialPath, List.prefix_concat_iff]
  rintro (he | hp)
  · have := congrArg List.dropLast he
    simp at this
  · exact finalPath_notMem_chain_partialsDirectory h ⟨finalPath_ne_nil, hp⟩

omit [Crates] in
/-- Writing a receipt touches none of the other files of a transfer. -/
private theorem same_of_within_receipts {fs : Fs} {T : TransferId}
    (h : Completable dest received d.fs)
    (hw : Fs.Within (Fs.chain (receiptsDirectory dest)) (receiptNames dest T) ∅ d.fs fs) :
    ∀ p ∈ [finalPath dest received.identity.filename, received.partialPath,
      chunkStatePath received.partialPath], Fs.Same p d.fs fs := by
  have same {p : Path} (hp : p ≠ []) (hd : p.dropLast ≠ receiptsDirectory dest)
      (hc : p ∉ Fs.chain (receiptsDirectory dest)) : Fs.Same p d.fs fs :=
    hw.same fun q hq => notMem_receiptNames_below hd hc hp hq
  have inPartials {p : Path} (hp : p ≠ []) (hd : p.dropLast = partialsDirectory dest) :
      Fs.Same p d.fs fs :=
    same hp (by rw [hd]; exact receiptsDirectory_ne_partialsDirectory.symm)
      (notMem_chain_of_dropLast hd)
  have hpart : received.partialPath.dropLast = partialsDirectory dest := by
    rw [h.partialPath, dropLast_partialPath]
  intro p hp
  simp only [List.mem_cons, List.not_mem_nil, or_false] at hp
  rcases hp with rfl | rfl | rfl
  · exact same finalPath_ne_nil (by simp)
      (finalPath_notMem_chain_receiptsDirectory (ne_internal_of_isSafeFilename h.filename))
  · exact inPartials (by rw [h.partialPath]; exact partialPath_ne_nil) hpart
  · exact inPartials appendSuffix_ne_nil (by rw [chunkStatePath, dropLast_appendSuffix, hpart])

/-- The final name is linked, and the snapshot can be removed. -/
private theorem removeChunkState_linked {d₂ d₃ : Disk (.alone false false)}
    (h : Completable dest received d.fs) (hw : Fs.Within (Fs.chain (receiptsDirectory dest))
      (receiptNames dest received.identity.transferId) ∅ d.fs d₂.fs)
    (hrecorded : d₂.fs.receipt dest received.identity.transferId = some received.receipt)
    (hfinal : d₂.fs.names (finalPath dest received.identity.filename) = none)
    (hpart : d₂.fs.names received.partialPath = some (.file received.file.ino))
    (h₃ : d₃.fs = d₂.fs.setName (finalPath dest received.identity.filename)
      (.file received.file.ino)) :
    (removeChunkState received.partialPath).Ensures d₃ (Post
      (fun _ d' => d'.fs.receipt dest received.identity.transferId = some received.receipt ∧
        d'.fs.read (finalPath dest received.identity.filename) =
          some (d.fs.data received.file.ino) ∧
        d'.fs.names (chunkStatePath received.partialPath) = none ∧
        d'.fs.names (chunkStateTemporaryPath received.partialPath) = none)
      (fun _ _ => False) fun _ => False) := by
  set D := finalPath dest received.identity.filename with hD
  have hparent : received.partialPath.dropLast = partialsDirectory dest := by
    rw [h.partialPath, dropLast_partialPath]
  have hdir : d₂.fs.isDir (partialsDirectory dest) := by
    rw [← hparent]
    exact Fs.isDir_dropLast (by rw [hpart]; simp)
  have hbind : d₂.fs.MayBind D (.file received.file.ino) := by
    refine ⟨finalPath_ne_nil, ?_, by simp [hfinal], fun j hj => d₂.fs.allocated _ j (hj ▸ hpart)⟩
    rw [hD, dropLast_finalPath]
    exact Fs.isDir_mono hdir prefix_partialsDirectory
  have hnames : d₃.fs.names = Function.update d₂.fs.names D (some (.file received.file.ino)) := by
    rw [h₃, Fs.names_setName hbind]
  have hw₃ : Fs.Within ∅ {D, received.partialPath} ∅ d₂.fs d₃.fs := by
    rw [h₃]
    refine .setName (.inl rfl) fun j hj => ⟨received.partialPath, .inr rfl, hj ▸ hpart⟩
  have hpart₃ : d₃.fs.names received.partialPath = some (.file received.file.ino) := by
    have hne : received.partialPath ≠ D := by
      intro he
      rw [he, hD, dropLast_finalPath] at hparent
      exact partialsDirectory_ne_self hparent
    rwa [hnames, Function.update_of_ne hne]
  -- the files of the snapshot are as they were
  have snapshot {p : Path} (hp : p ∈ ({chunkStateTemporaryPath received.partialPath,
      chunkStatePath received.partialPath} : Set Path)) : d₃.fs.names p = d.fs.names p := by
    have hp' := (dropLast_of_mem_chunkStatePaths hp).trans hparent
    have hpD : p ≠ D := by
      rintro rfl
      rw [hD, dropLast_finalPath] at hp'
      exact partialsDirectory_ne_self hp'
    rw [hnames, Function.update_of_ne hpD]
    refine hw.names_eq' (notMem_receiptNames ?_) (notMem_chain_of_dropLast hp')
    rw [hp']
    exact receiptsDirectory_ne_partialsDirectory.symm
  have hregular : d₃.fs.Regular {chunkStateTemporaryPath received.partialPath,
      chunkStatePath received.partialPath} := by
    intro p hp
    rw [snapshot hp]
    exact h.snapshot p hp
  have regular {p : Path} (hp0 : p ≠ []) (hp : p ∈ ({chunkStateTemporaryPath received.partialPath,
      chunkStatePath received.partialPath} : Set Path)) : ¬d₃.fs.Irregular p := by
    refine hregular.not_irregular hp fun hb => hb.not_isDir hp0 ?_
    rw [dropLast_of_mem_chunkStatePaths hp]
    exact Fs.isDir_dropLast (by rw [hpart₃]; simp)
  refine removeChunkState_spec.mono fun o d₄ h₄ => ?_
  cases o with
  | ok =>
    obtain ⟨hw₄, hgone⟩ := h₄
    have hpartials {p : Path} (hp : p.dropLast ≠ partialsDirectory dest) :
        p ∉ ({chunkStateTemporaryPath received.partialPath,
          chunkStatePath received.partialPath} : Set Path) :=
      fun hmem => hp ((dropLast_of_mem_chunkStatePaths hmem).trans hparent)
    refine ⟨?_, ?_, hgone⟩
    · refine hw₄.receipt_eq (hw₃.receipt_eq hrecorded ?_ fun j _ => Set.notMem_empty j) ?_
        fun j _ => Set.notMem_empty j
      · rintro (he | he)
        · have := congrArg List.dropLast he
          rw [dropLast_completionReceiptPath, hD, dropLast_finalPath] at this
          exact receiptsDirectory_ne_self this.symm
        · have := congrArg List.dropLast he
          rw [dropLast_completionReceiptPath, hparent] at this
          exact receiptsDirectory_ne_partialsDirectory this
      · refine hpartials ?_
        rw [dropLast_completionReceiptPath]
        exact receiptsDirectory_ne_partialsDirectory
    · have hlinked : d₃.fs.names D = some (.file received.file.ino) := by
        rw [hnames, Function.update_self]
      have hdata : d₃.fs.data received.file.ino = d.fs.data received.file.ino := by
        rw [h₃, Fs.data_setName]
        exact hw.data _ (d.fs.allocated _ _ h.file) (Set.notMem_empty _)
      rw [hw₄.read (hpartials ?_) (by rw [hlinked]; simp) fun j _ => Set.notMem_empty j]
      · exact Fs.read_eq_some.mpr ⟨_, hlinked, hdata⟩
      · rw [hD, dropLast_finalPath]
        exact partialsDirectory_ne_self
  | err e =>
    have hC := regular (p := chunkStatePath received.partialPath) appendSuffix_ne_nil (.inr rfl)
    have hCt := regular (p := chunkStateTemporaryPath received.partialPath) appendSuffix_ne_nil
      (.inl rfl)
    simpa [hC, hCt] using h₄.2
  | halt => exact nomatch h₄.2

/-- The steps up to VERIFIED. -/
theorem finalize_spec (h : Completable dest received d.fs) :
    (finalize received (finalPath dest received.identity.filename) (some dest)).Ensures d (Post
      (fun path d' => received.Verified d.fs ∧ ¬received.Refused dest d.fs ∧
        d.fs.names (finalPath dest received.identity.filename) = none ∧
        path = finalPath dest received.identity.filename ∧
        d'.fs.receipt dest received.identity.transferId = some received.receipt ∧
        d'.fs.read (finalPath dest received.identity.filename) =
          some (d.fs.data received.file.ino) ∧
        d'.fs.names (chunkStatePath received.partialPath) = none ∧
        d'.fs.names (chunkStateTemporaryPath received.partialPath) = none)
      (fun e d' => ¬received.Verified d.fs ∧ d'.fs = d.fs ∧ (∃ error, e = .verification error) ∨
        received.Verified d.fs ∧ received.Refused dest d.fs ∧ (∀ p, Fs.Same p d.fs d'.fs) ∧
          (∃ error, e = .receipt error) ∨
        received.Verified d.fs ∧ ¬received.Refused dest d.fs ∧
          d.fs.names (finalPath dest received.identity.filename) ≠ none ∧
          Fs.Within (Fs.chain (receiptsDirectory dest))
            (receiptNames dest received.identity.transferId) ∅ d.fs d'.fs ∧
          d'.fs.receipt dest received.identity.transferId = some received.receipt ∧
          e = .destinationExists (finalPath dest received.identity.filename))
      fun _ => False) := by
  have hp0 : received.partialPath ≠ [] := by
    rw [h.partialPath]
    exact partialPath_ne_nil
  rw [finalize, h.partialPath, validatePartialPath_partialPath
    (ne_empty_of_isSafeFilename h.filename), ← h.partialPath, ensures_bind, ensures_ofExcept]
  simp only [post_ok]
  refine Ensures.bind_mapErr (hashPhysicalFileV03_spec rfl) ?_ (fun e d₁ h' => ?_)
    fun d₁ h' => nomatch h'.2
  swap
  · exact .inl ⟨h'.2.resolve_left (by simp), h'.1, e, rfl⟩
  rintro - d₁ ⟨h₁, hverified⟩
  replace hverified : received.Verified d.fs := hverified
  refine Ensures.bind_mapErr (writeCompletionReceipt_completable (h₁ ▸ h)) ?_ (fun e d₂ h' => ?_)
    fun d₂ h' => h'
  swap
  · rw [h₁] at h'
    exact .inr (.inl ⟨hverified, h'.1, h'.2, e, rfl⟩)
  rintro - d₂ ⟨hrefused, hw, hrecorded⟩
  rw [h₁] at hrefused hw
  have hsame := same_of_within_receipts h hw
  have hfinal : d₂.fs.names (finalPath dest received.identity.filename) =
      d.fs.names (finalPath dest received.identity.filename) :=
    (hsame _ (by simp) _ (List.prefix_refl _)).1
  have hpart : d₂.fs.names received.partialPath = some (.file received.file.ino) :=
    (hsame received.partialPath (by simp) _ (List.prefix_refl _)).1.trans h.file
  have hdir : d₂.fs.isDir dest := by
    rw [h.partialPath] at hpart
    exact isDir_of_names_partialPath (by rw [hpart]; simp)
  refine Ensures.bind (promotePartialNoClobber_spec hp0 finalPath_ne_nil
    (by rwa [dropLast_finalPath]) hpart) ?_ (fun e d₃ h' => ?_) fun d₃ h' => nomatch h'.1
  swap
  · obtain ⟨hn, h₃, he⟩ := h'.resolve_right fun hf => nomatch hf.2.1
    rw [hfinal] at hn
    rw [← h₃] at hw hrecorded
    exact .inr (.inr ⟨hverified, hrefused, hn, hw, hrecorded, he.resolve_right (by simp)⟩)
  rintro - d₃ ⟨hn, h₃⟩
  refine Ensures.bind_attempt (removeChunkState_linked h hw hrecorded hn hpart h₃)
    (fun _ d₄ h₄ => ?_) (fun _ _ h₄ => h₄.elim) fun _ h₄ => h₄
  rw [ensures_pure]
  exact ⟨hverified, hrefused, hfinal.symm.trans hn, rfl, h₄⟩

/-- **`complete` leaves consistent state on every outcome**: whatever the partial file, the digest
of COMPLETE, the receipt and the final name are, it ends in one of the endings. -/
theorem complete_ending {w : Session (.alone false false)}
    (h : Completable dest received w.fs) :
    (complete received (finalPath dest received.identity.filename) (some dest)).Ensures w
      fun o w' => CompleteEnding dest received w w' o := by
  rw [complete]
  refine World.ensures_onDisk_bind (finalize_spec h) ?_ (fun e d₁ h' => ?_) fun d₁ h' => h'.elim
  · rintro path d₁ ⟨hverified, hrefused, hfinal, rfl, hrecorded, hread, hcleaned⟩
    refine sendVerified_return.mono fun o w' h' => ?_
    cases o with
    | ok =>
      obtain ⟨rfl, hdisk⟩ := h'
      have hfs : w'.fs = d₁.fs := congrArg Disk.fs hdisk
      exact .published hverified hrefused hfinal (.inl rfl) (by rwa [hfs]) (by rwa [hfs])
        (by rwa [hfs])
    | err e =>
      obtain ⟨⟨error, rfl⟩, hroom, hdisk⟩ := h'
      have hfs : w'.fs = d₁.fs := congrArg Disk.fs hdisk
      exact .published hverified hrefused hfinal (.inr ⟨⟨error, rfl⟩, hroom⟩) (by rwa [hfs])
        (by rwa [hfs]) (by rwa [hfs])
    | halt => exact h'.elim
  · rcases h' with ⟨hv, hfs, error, rfl⟩ | ⟨hv, hr, hfs, error, rfl⟩ |
      ⟨hv, hr, hfinal, hw, hrecorded, rfl⟩
    · exact .unverified hv hfs
    · exact .receiptRefused hv hr hfs
    · have hsame := same_of_within_receipts h hw
      refine .destinationExists hv hr hfinal hsame hrecorded ?_
      rintro offer fs hT hname hsize hremoved
      replace hname : offer.filename = received.identity.filename := hname
      replace hT : offer.transferId = received.identity.transferId := hT
      rw [hname] at hremoved
      have hpart : d₁.fs.names received.partialPath = some (.file received.file.ino) :=
        (hsame received.partialPath (by simp) _ (List.prefix_refl _)).1.trans h.file
      have hreceipt : fs.receipt dest offer.transferId = some received.receipt := by
        rw [hT, Fs.receipt, hremoved.read_eq fun hp => ?_]
        · exact hrecorded
        · exact (notMem_receiptNames_below (by simp) (finalPath_notMem_chain_receiptsDirectory
            (ne_internal_of_isSafeFilename h.filename)) finalPath_ne_nil hp).1 (.inr rfl)
      have hdata : fs.data received.file.ino = w.fs.data received.file.ino := by
        rw [hremoved.data]
        exact hw.data _ (w.fs.allocated _ _ h.file) (Set.notMem_empty _)
      rw [← hdata]
      refine settles_from_partial (hname ▸ h.filename) hreceipt hname.symm hsize.symm
        (hname ▸ hremoved.removed) ?_ ?_
      · rw [hname, ← h.partialPath, hremoved.names _ fun hp => ?_]
        · exact hpart
        · rw [h.partialPath] at hp
          exact not_finalPath_prefix_partialPath
            (ne_internal_of_isSafeFilename h.filename) hp
      · rw [hdata]
        exact hv

end Complete

end

/-- The partial file of "a" in the directory "d" holds three bytes. -/
def threeBytesReceived : Fs :=
  ((((Fs.empty.setName ["d"] .dir).setName (internalDirectory ["d"]) .dir).setName
    (partialsDirectory ["d"]) .dir).create (partialPath ["d"] "a")).setData 0 (utf8 "abc")

/-- It is received, and what COMPLETE said is true of it. -/
def threeBytesTransfer : ReceivedCompleteV03 where
  file := ⟨0, 3, false⟩
  partialPath := partialPath ["d"] "a"
  receiver := .new (.empty ⟨3, 2, by decide⟩)
  senderFileHash := digestOf (utf8 "abc")
  identity := ⟨Block.ofBytes 16 [], "a"⟩

open scoped SerdeJson in
/-- The file of three bytes is completed. -/
theorem complete_ending_threeBytes :
    (complete threeBytesTransfer (finalPath ["d"] "a") (some ["d"])).Ensures
      (.start ⟨threeBytesReceived, [.go 1]⟩ (.closed []) : Session (.alone false false))
      fun o w' => CompleteEnding ["d"] threeBytesTransfer
        (.start ⟨threeBytesReceived, [.go 1]⟩ (.closed [])) w' o := by
  have hcreatable : ∀ q ∈ (receiptsDirectory ["d"]).inits,
      threeBytesReceived.names q = none ∨ threeBytesReceived.names q = some .dir := by decide
  have hregular : ∀ p ∈ [completionReceiptTemporaryPath ["d"] (Block.ofBytes 16 []),
      chunkStateTemporaryPath (partialPath ["d"] "a"), chunkStatePath (partialPath ["d"] "a")],
      threeBytesReceived.names p = none := by decide
  refine complete_ending ⟨rfl, by decide, by decide, fun q hq => ?_, ?_, ?_⟩
  · exact hcreatable q (List.mem_inits q _ |>.mpr hq.2)
  · rintro p rfl
    exact .inl (hregular _ (.head _))
  · rintro p (rfl | rfl)
    · exact .inl (hregular _ (.tail _ (.head _)))
    · exact .inl (hregular _ (.tail _ (.tail _ (.head _))))

end V03

end Warpfile
