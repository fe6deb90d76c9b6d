import Warpfile.V03.ReceiverScript
import Warpfile.V03.Soundness

/-!
# An offered file is delivered

A sender and a receiver of WFP/0.3 at the two ends of a connection that stays open: in whatever
order and portions their bytes arrive, both return, the file is published with its receipt, and
the chunks that are sent are just those that the partial file does not have. An offer whose file
was received before is settled without any.
-/

namespace Warpfile.V03

open Prog Connected SourceScannerV03
open V02 (directories Made notMem_directories finalPath_notMem_directories)

/-! ### What a session finds -/

/-- The names a session of the offer writes to besides the receipt and the final file. -/
def workNamesV03 (dest : Path) (offer : FileOfferV03) : Set Path :=
  {completionReceiptTemporaryPath dest offer.transferId, partialPath dest offer.filename,
    chunkStateTemporaryPath (partialPath dest offer.filename),
    chunkStatePath (partialPath dest offer.filename)}

/-- Nothing stands in the way of a transfer of the offer. -/
structure ReceptiveV03 (dest : Path) (offer : FileOfferV03) (fs : Fs) : Prop where
  partials : fs.Creatable (partialsDirectory dest)
  receipts : fs.Creatable (receiptsDirectory dest)
  regular : fs.Regular (workNamesV03 dest offer)

section

variable {dest : Path} {offer : FileOfferV03} {fs fs' : Fs} {p : Path}

theorem ne_nil_of_mem_workNamesV03 (hp : p ∈ workNamesV03 dest offer) : p ≠ [] := by
  obtain rfl | rfl | rfl | rfl := hp
  · exact appendSuffix_ne_nil
  · exact partialPath_ne_nil
  · exact appendSuffix_ne_nil
  · exact appendSuffix_ne_nil

theorem dropLast_of_mem_workNamesV03 (hp : p ∈ workNamesV03 dest offer) :
    p.dropLast = partialsDirectory dest ∨ p.dropLast = receiptsDirectory dest := by
  obtain rfl | rfl | rfl | rfl := hp
  · exact .inr (by simp)
  · exact .inl dropLast_partialPath
  · exact .inl (by rw [dropLast_of_mem_chunkStatePaths (.inl rfl), dropLast_partialPath])
  · exact .inl (by rw [dropLast_of_mem_chunkStatePaths (.inr rfl), dropLast_partialPath])

theorem ReceptiveV03.creatable (h : ReceptiveV03 dest offer fs) : fs.Creatable dest :=
  fun q hq => h.partials q ⟨hq.1, hq.2.trans prefix_partialsDirectory⟩

theorem ReceptiveV03.not_irregular (h : ReceptiveV03 dest offer fs)
    (hp : p ∈ workNamesV03 dest offer) : ¬fs.Irregular p := by
  refine h.regular.not_irregular hp (Fs.Creatable.not_blocked ?_ (ne_nil_of_mem_workNamesV03 hp))
  obtain hd | hd := dropLast_of_mem_workNamesV03 hp
  · rw [hd]
    exact h.partials
  · rw [hd]
    exact h.receipts

end

section

variable [Crates] {dest : Path} {offer : FileOfferV03} {content : Bytes} {fs fs' : Fs}
  {d : Disk (.alone false false)} {layout : ChunkLayout}

/-- The receipt of the offered file. -/
def receiptV03 (offer : FileOfferV03) (content : Bytes) : CompletionReceipt where
  transferId := offer.transferId
  filename := offer.filename
  fileSize := offer.fileSize
  blake3 := blake3 content

/-- The file was delivered: it is published, with its receipt. -/
structure DeliveryV03 (dest : Path) (offer : FileOfferV03) (content : Bytes) (fs : Fs) : Prop where
  receipt : fs.receipt dest offer.transferId = some (receiptV03 offer content)
  final : fs.read (finalPath dest offer.filename) = some content

/-- A transfer that can be continued: the file is not published, and nothing is in its way. -/
structure UnderwayV03 (dest : Path) (offer : FileOfferV03) (content : Bytes) (fs : Fs) : Prop where
  receptive : ReceptiveV03 dest offer fs
  receipt : fs.names (completionReceiptPath dest offer.transferId) = none ∨
    fs.receipt dest offer.transferId = some (receiptV03 offer content) ∧
      fs.inode (completionReceiptPath dest offer.transferId) ≠
        fs.inode (partialPath dest offer.filename)
  final : fs.names (finalPath dest offer.filename) = none

omit [Crates] in
/-- Making directories changes nothing at the other names. -/
theorem names_made (hm : Made dest fs fs') {p : Path} (hp : p ≠ [])
    (h : p.dropLast = partialsDirectory dest ∨ p.dropLast = receiptsDirectory dest) :
    fs'.names p = fs.names p :=
  hm.names_eq' (Set.notMem_empty _) (notMem_directories hp h)

omit [Crates] in
theorem ReceptiveV03.made (h : ReceptiveV03 dest offer fs) (hm : Made dest fs fs') :
    ReceptiveV03 dest offer fs' := by
  refine ⟨hm.creatable (by simp) h.partials, hm.creatable (by simp) h.receipts, fun p hp => ?_⟩
  rw [names_made hm (ne_nil_of_mem_workNamesV03 hp) (dropLast_of_mem_workNamesV03 hp)]
  exact h.regular p hp

theorem UnderwayV03.made (h : UnderwayV03 dest offer content fs)
    (hsafe : isSafeFilename offer.filename) (hm : Made dest fs fs') :
    UnderwayV03 dest offer content fs' := by
  have hR := names_made hm completionReceiptPath_ne_nil (p := completionReceiptPath dest
    offer.transferId) (.inr (by simp))
  have hP := names_made hm partialPath_ne_nil (p := partialPath dest offer.filename)
    (.inl (by simp))
  refine ⟨h.receptive.made hm, h.receipt.imp (fun h => hR.trans h) fun h => ⟨?_, ?_⟩, ?_⟩
  · exact hm.receipt_eq h.1 (Set.notMem_empty _) fun i _ => Set.notMem_empty i
  · rw [Fs.inode, Fs.inode, hR, hP]
    exact h.2
  · rw [hm.names_eq' (Set.notMem_empty _) (finalPath_notMem_directories hsafe)]
    exact h.final

end

/-! ### The transfer -/

section

variable [Crates] {dest : Path} {offer : FileOfferV03} {content : Bytes} {fs fs' : Fs}
  {d : Disk (.alone false false)} {layout : ChunkLayout}

/-- The files once all chunks are there can be completed. -/
theorem UnderwayV03.completable {file : File} {receiver : ChunkReceiverV03}
    (h : UnderwayV03 dest offer content fs) (hsafe : isSafeFilename offer.filename)
    (hino : fs.names (partialPath dest offer.filename) = some (.file file.ino) ∨
      fs.next ≤ file.ino)
    (hw : Fs.Within ∅ {partialPath dest offer.filename,
      chunkStateTemporaryPath (partialPath dest offer.filename),
      chunkStatePath (partialPath dest offer.filename)} {file.ino} fs fs')
    (hopened : fs'.names (partialPath dest offer.filename) = some (.file file.ino))
    (hregular : fs'.Regular {chunkStateTemporaryPath (partialPath dest offer.filename),
      chunkStatePath (partialPath dest offer.filename)})
    (hsize : receiver.chunkState.layout.fileSize = offer.fileSize) :
    Completable dest ⟨file, partialPath dest offer.filename, receiver, blake3 content,
      ⟨offer.transferId, offer.filename⟩⟩ fs' ∧
    ¬ReceivedCompleteV03.Refused ⟨file, partialPath dest offer.filename, receiver, blake3 content,
      ⟨offer.transferId, offer.filename⟩⟩ dest fs' ∧
    fs'.names (finalPath dest offer.filename) = none := by
  -- what is not in the directory of the partial files is as it was
  have houtside (p : Path) (hp : p.dropLast ≠ partialsDirectory dest) :
      p ∉ ({partialPath dest offer.filename,
        chunkStateTemporaryPath (partialPath dest offer.filename),
        chunkStatePath (partialPath dest offer.filename)} : Set Path) := by
    rintro (rfl | hmem)
    · exact hp dropLast_partialPath
    · exact hp ((dropLast_of_mem_chunkStatePaths hmem).trans dropLast_partialPath)
  have hnames (p : Path) (hp : p.dropLast ≠ partialsDirectory dest) : fs'.names p = fs.names p :=
    hw.names_eq' (houtside p hp) (Set.notMem_empty _)
  have hreceiptNames (p : Path) (hp : p.dropLast = receiptsDirectory dest) :
      p.dropLast ≠ partialsDirectory dest := by
    rw [hp]
    exact receiptsDirectory_ne_partialsDirectory
  have hreceipts : fs'.Creatable (receiptsDirectory dest) := by
    intro q hq
    rw [hnames q fun hd => notMem_directories hq.1 (.inl hd) (.inr hq)]
    exact h.receptive.receipts q hq
  have hR : (completionReceiptPath dest offer.transferId).dropLast ≠ partialsDirectory dest :=
    hreceiptNames _ (by simp)
  refine ⟨⟨rfl, hopened, hsafe, hreceipts, ?_, hregular⟩, ?_, ?_⟩
  · intro p hp
    obtain rfl : p = completionReceiptTemporaryPath dest offer.transferId := hp
    rw [hnames _ (hreceiptNames _ (by simp))]
    exact h.receptive.regular _ (.inl rfl)
  · rintro ⟨hn, hne⟩
    replace hn : fs'.names (completionReceiptPath dest offer.transferId) ≠ none := hn
    rw [hnames _ hR] at hn
    obtain ⟨hr, hapart⟩ := h.receipt.resolve_left hn
    refine hne ?_
    have hreceipt : ReceivedCompleteV03.receipt ⟨file, partialPath dest offer.filename, receiver,
        blake3 content, ⟨offer.transferId, offer.filename⟩⟩ = receiptV03 offer content := by
      rw [ReceivedCompleteV03.receipt, receiptV03, hsize]
    rw [hreceipt]
    refine hw.receipt_eq hr (houtside _ hR) fun i hi heq => ?_
    obtain rfl : i = file.ino := heq
    obtain hpart | hnew := hino
    · exact hapart (by rw [Fs.inode, Fs.inode, hi, hpart])
    · exact absurd (fs.allocated _ _ hi) (not_lt.mpr hnew)
  · rw [hnames _ (by rw [dropLast_finalPath]; exact partialsDirectory_ne_self)]
    exact h.final

/-- What `complete` does with a file that is whole. -/
theorem plays_complete {received : ReceivedCompleteV03} (h : Completable dest received d.fs)
    (hverified : received.Verified d.fs) (hrefused : ¬received.Refused dest d.fs)
    (hfinal : d.fs.names (finalPath dest received.identity.filename) = none) :
    Plays (complete received (finalPath dest received.identity.filename) (some dest) :
      Prog (Session (.alone false false)) _ _) d (tells (frameV03 .verified []))
      fun path d' => path = finalPath dest received.identity.filename ∧
        d'.fs.receipt dest received.identity.transferId = some received.receipt ∧
        d'.fs.read (finalPath dest received.identity.filename) =
          some (d.fs.data received.file.ino) := by
  refine (plays_files ((finalize_spec h).succeeds (fun e t h' => ?_)
    fun t h' => h')).bind_silent fun path d₁ h₁ => ?_
  · obtain ⟨hn, -⟩ | ⟨-, hr, -⟩ | ⟨-, -, hn, -⟩ := h'
    · exact hn hverified
    · exact hrefused hr
    · exact hn hfinal
  obtain ⟨-, -, -, rfl, hreceipt, hread, -⟩ := h₁
  refine (plays_sendFrameV03 (acceptable_of_le (by simp) (by simp))).bind_pure fun _ d' hd => ?_
  subst hd
  exact plays_pure ⟨rfl, hreceipt, hread⟩

/-- **The script of a session from its inventory on.** -/
theorem plays_transferV03 {data : ℕ → List Frame} {frames : List Frame}
    (h : UnderwayV03 dest offer content d.fs) (hsafe : isSafeFilename offer.filename)
    (hlen : content.length = offer.fileSize.toNat)
    (hlayout : ChunkLayout.new offer.fileSize offer.chunkSize = .ok layout)
    (hdir : d.fs.isDir (partialsDirectory dest))
    (hgenuine : GenuineV03 content (partialPath dest offer.filename) layout d.fs)
    (hannounced : Inventory layout frames
      (chunkHashBatches (heldState d.fs (partialPath dest offer.filename) layout)))
    (hdata : ∀ i < layout.chunkCount.toNat,
      Needed (announcedBy (heldState d.fs (partialPath dest offer.filename) layout)) content i →
        Carries (i * layout.chunkSize.toNat) (chunkBytes layout content i) (data i)) :
    Plays (do
      let prepared ← World.onDisk ((prepareReceiverV03 (partialPath dest offer.filename)
        offer).mapErr .preparation)
      let accepted ← (negotiateInventory prepared).mapErr .negotiation
      let received ← (receiveTransfer accepted).mapErr .transfer
      let destination := finalPath dest offer.filename
      let path ← (complete received destination (some dest)).mapErr .complete
      return .completed path :
        Prog (Session (.alone false false)) ReceiverV03SessionError ReceiverV03SessionOutcome) d
      ((tellsAll frames ++ hears acceptFrame) ++ ((hearsAll (framesFrom (announcedBy (heldState d.fs
        (partialPath dest offer.filename) layout)) content data 0) ++
          hears (completeFrame (blake3 content))) ++ tells (frameV03 .verified [])))
      fun _ d' => DeliveryV03 dest offer content d'.fs := by
  set P := partialPath dest offer.filename with hP
  have hP0 : P ≠ [] := partialPath_ne_nil
  obtain ⟨hsize, hchunkSize⟩ := ChunkLayout.new_eq_ok.mp hlayout
  have hchunk : offer.chunkSize ≠ 0 := hchunkSize ▸ layout.chunkSize_ne_zero
  have hPdir : d.fs.isDir P.dropLast := by
    rw [hP, dropLast_partialPath]
    exact hdir
  -- the partial file is opened and gets its size
  have hprepare : (prepareReceiverV03 P offer).Ensures d _ := prepareReceiverV03_spec hP0
  refine (plays_files (hprepare.succeeds (fun e t h' => ?_) fun t h' => by simp at h')).bind_silent
    fun prepared d₁ h₁ => ?_
  · obtain hf | hc | hi | hi | hd := h'.2
    · cases hf
    · exact hchunk hc
    · exact h.receptive.not_irregular (.inr (.inl rfl)) hi
    · exact h.receptive.not_irregular (.inr (.inr (.inr rfl))) hi
    · exact hd hPdir
  have hsame : prepared.receiver.chunkState.layout = layout := Except.ok.inj
    ((ChunkLayout.new_eq_ok.mpr ⟨h₁.fileSize, h₁.chunkSize⟩).symm.trans hlayout)
  have hfound : prepared.receiver.chunkState = heldState d.fs P layout := h₁.heldState_eq hsame
  have hwithin₁ : Fs.Within ∅ {P, chunkStateTemporaryPath P, chunkStatePath P} {prepared.file.ino}
      d.fs d₁.fs := h₁.resized.within.mono le_rfl (Set.singleton_subset_iff.mpr (.inl rfl))
        fun _ h => .inl h
  have hregular₁ : d₁.fs.Regular {chunkStateTemporaryPath P, chunkStatePath P} := by
    intro p hp
    rw [h₁.resized.within.names_eq' (K := ∅) (fun hpP => ?_) (Set.notMem_empty _)]
    · exact h.receptive.regular p (.inr (.inr hp))
    · obtain rfl : p = P := hpP
      exact notMem_chunkStatePaths hP0 hp
  have hino : d.fs.names P = some (.file prepared.file.ino) ∨ d.fs.next ≤ prepared.file.ino := by
    obtain ⟨_, hopened, -⟩ := h₁.resized
    exact hopened.ino.imp_right fun heq => heq.ge
  have hbetween := h₁.betweenChunks hP0 (by rw [hfound]; exact hgenuine) hregular₁
  rw [hfound] at hbetween
  -- its records are announced, and the chunks it lacks are received
  have hprepared := h₁.eq_advertised
  rw [hfound] at hprepared
  obtain ⟨file, hfile⟩ : ∃ file, file = prepared.file := ⟨_, rfl⟩
  rw [← hfile] at hprepared hbetween hwithin₁ hino
  subst hprepared
  refine Plays.bind (plays_negotiateInventory hannounced).mapErr fun accepted d₂ h₂ => ?_
  obtain ⟨rfl, rfl⟩ := h₂
  refine Plays.bind (plays_receiveTransfer (hlen.trans (congrArg UInt64.toNat hsize.symm)) hdata
    hbetween).mapErr fun received d₃ h₃ => ?_
  obtain ⟨receiver, rfl, hassembled, hcontent⟩ := h₃
  have hwithin₃ : Fs.Within ∅ {P, chunkStateTemporaryPath P, chunkStatePath P} {file.ino} d.fs
      d₃.fs :=
    hwithin₁.trans (hassembled.within.mono le_rfl (Set.subset_insert _ _) fun _ h => .inl h)
  have hlayout₃ : receiver.chunkState.layout.fileSize = offer.fileSize := by
    rw [hassembled.layout_eq]
    exact hsize
  obtain ⟨hcompletable, hrefused, hfinal⟩ := h.completable hsafe hino hwithin₃
    hassembled.consistent.opened hassembled.regular hlayout₃
  refine (plays_complete hcompletable ?_ hrefused hfinal).mapErr.bind_pure fun path d₄ h₄ => ?_
  · exact ⟨by rw [hcontent, hlayout₃, hlen], by rw [hcontent]⟩
  · obtain ⟨rfl, hreceipt, hread⟩ := h₄
    refine plays_pure ⟨hreceipt.trans ?_, hread.trans (congrArg some hcontent)⟩
    rw [ReceivedCompleteV03.receipt, receiptV03, hlayout₃]

end

/-! ### The receipt -/

section

variable [Crates] {dest : Path} {offer : FileOfferV03} {content : Bytes} {fs fs' : Fs}
  {d : Disk (.alone false false)}

omit [Crates] in
/-- What is looked at stands where something can. -/
private theorem plays_pathExists {p : Path} (hp : p ≠ []) (hfree : ¬d.fs.Blocked p) :
    Plays (reconciling (Storage.pathExists p) : Prog (Session (.alone false false)) _ _) d []
      fun b d' => d'.fs = d.fs ∧ (b = true ↔ d.fs.names p ≠ none) :=
  plays_files ((Storage.pathExists_spec hp).succeeds
    (fun _ _ h => hfree (h.2.resolve_left (by simp))) fun _ h => by simp at h)

omit [Crates] in
/-- What stands in a directory that is there, or can be made, is not blocked. -/
theorem ReceptiveV03.not_blocked {filename : String} {T : TransferId}
    (h : ReceptiveV03 dest offer fs) :
    ¬fs.Blocked (completionReceiptPath dest T) ∧ ¬fs.Blocked (finalPath dest filename) ∧
      ¬fs.Blocked (partialPath dest filename) := by
  refine ⟨Fs.Creatable.not_blocked ?_ completionReceiptPath_ne_nil,
    Fs.Creatable.not_blocked ?_ finalPath_ne_nil, Fs.Creatable.not_blocked ?_ partialPath_ne_nil⟩
  · rw [dropLast_completionReceiptPath]
    exact h.receipts
  · rw [dropLast_finalPath]
    exact h.creatable
  · rw [dropLast_partialPath]
    exact h.partials

/-- **A transfer that is not complete is not settled**: no receipt is there, or the partial file is
not the file of the receipt. -/
theorem plays_reconcile_underway (h : UnderwayV03 dest offer content d.fs)
    (hsafe : isSafeFilename offer.filename)
    (hv : d.fs.receipt dest offer.transferId = some (receiptV03 offer content) → ∀ i,
      d.fs.names (partialPath dest offer.filename) = some (.file i) →
        ¬Verifies offer.fileSize.toNat (blake3 content) (d.fs.data i)) :
    Plays (reconcileCompletedTransferV03 dest offer : Prog (Session (.alone false false)) _ _) d []
      fun outcome d' => outcome = .notReconciled ∧ d'.fs = d.fs := by
  obtain ⟨hR, hD, hP⟩ := @ReceptiveV03.not_blocked dest offer d.fs offer.filename offer.transferId
    h.receptive
  refine (plays_refuseIf (by simp [hsafe])).bind_silent fun _ d' hd => ?_
  subst hd
  refine (plays_pathExists completionReceiptPath_ne_nil hR).bind_silent fun b d₁ h₁ => ?_
  obtain ⟨h₁, hb⟩ := h₁
  cases b with
  | false => exact plays_pure ⟨rfl, h₁⟩
  | true =>
    obtain ⟨hreceipt, -⟩ := h.receipt.resolve_left (hb.mp rfl)
    rw [if_pos rfl]
    refine (plays_files (readCompletionReceipt_spec.succeeds (fun e t h' => ?_)
      fun t h' => by simp at h')).bind_silent fun receipt d₂ h₂ => ?_
    · rw [h₁, hreceipt] at h'
      simp at h'
    obtain ⟨h₂, hr⟩ := h₂
    rw [h₁, hreceipt] at hr
    obtain rfl := Option.some.inj hr
    replace h₂ : d₂.fs = d'.fs := h₂.trans h₁
    refine (plays_refuseIf (by simp [receiptV03])).bind_silent fun _ d₃ hd => ?_
    subst hd
    rw [← h₂] at hD hP
    refine (plays_pathExists finalPath_ne_nil hD).bind_silent fun b d₄ h₄ => ?_
    obtain ⟨h₄, hb⟩ := h₄
    obtain rfl : b = false := Bool.eq_false_iff.mpr fun ht => hb.mp ht (by rw [h₂]; exact h.final)
    rw [if_neg (by simp)]
    rw [← h₄] at hP
    refine (plays_pathExists partialPath_ne_nil hP).bind_silent fun b d₅ h₅ => ?_
    obtain ⟨h₅, -⟩ := h₅
    have hfs : d₅.fs = d'.fs := h₅.trans (h₄.trans h₂)
    cases b with
    | false => exact plays_pure ⟨rfl, hfs⟩
    | true =>
      rw [if_pos rfl]
      refine (plays_attempt_files (Q := fun r d₆ => (∃ e, r = .error e) ∧ d₆.fs = d'.fs)
        ((verifyPartialForPromotionV03_spec partialPath_ne_nil).mono fun o d₆ h' => ?_)).bind_silent
        fun r d₆ h₆ => ?_
      · cases o with
        | ok source =>
          rw [hfs] at h'
          exact absurd h'.2.2 (hv hreceipt _ h'.2.1)
        | err e => exact ⟨⟨e, rfl⟩, h'.1.trans hfs⟩
        | halt => simp at h'
      · obtain ⟨⟨e, rfl⟩, h₆⟩ := h₆
        exact plays_pure ⟨rfl, h₆⟩

/-- The whole file was received under its receipt; it is published, or it still stands under its
partial name. -/
structure ConcludedV03 (dest : Path) (offer : FileOfferV03) (content : Bytes) (fs : Fs) : Prop where
  receipt : fs.receipt dest offer.transferId = some (receiptV03 offer content)
  place : fs.read (finalPath dest offer.filename) = some content ∨
    fs.names (finalPath dest offer.filename) = none ∧
      fs.read (partialPath dest offer.filename) = some content

/-- A delivered file does not depend on the names in the directory of the partial files. -/
theorem DeliveryV03.within {S : Set Path} (h : DeliveryV03 dest offer content fs)
    (hw : Fs.Within ∅ S ∅ fs fs') (hS : ∀ p ∈ S, p.dropLast = partialsDirectory dest) :
    DeliveryV03 dest offer content fs' := by
  refine ⟨hw.receipt_eq h.receipt (fun hp => ?_) fun i _ => Set.notMem_empty i, ?_⟩
  · have := hS _ hp
    rw [dropLast_completionReceiptPath] at this
    exact receiptsDirectory_ne_partialsDirectory this
  · refine (hw.read (fun hp => ?_) (fun hn => ?_) fun i _ => Set.notMem_empty i).trans h.final
    · have := hS _ hp
      rw [dropLast_finalPath] at this
      exact partialsDirectory_ne_self this
    · obtain ⟨i, hi, -⟩ := Fs.read_eq_some.mp h.final
      cases hn.symm.trans hi

/-- The partial file of a concluded transfer is linked to the final name. -/
theorem DeliveryV03.link {i : ℕ} (hlen : content.length = offer.fileSize.toNat)
    (hreceipt : fs.receipt dest offer.transferId = some (receiptV03 offer content))
    (hpart : fs.names (partialPath dest offer.filename) = some (.file i))
    (hdata : fs.data i = content) (hfinal : fs.names (finalPath dest offer.filename) = none) :
    DeliveryV03 dest offer content (fs.setName (finalPath dest offer.filename) (.file i)) := by
  have hcertified := Certified.link hreceipt rfl rfl hpart
    ⟨by rw [hdata, hlen], congrArg blake3 hdata⟩ hfinal
  have hdir : fs.isDir dest := isDir_of_names_partialPath (by rw [hpart]; simp)
  have hbind : fs.MayBind (finalPath dest offer.filename) (.file i) :=
    ⟨finalPath_ne_nil, by rwa [dropLast_finalPath], by simp [hfinal],
      fun j hj => fs.allocated _ j (hj ▸ hpart)⟩
  refine ⟨hcertified.receipt_eq, Fs.read_eq_some.mpr ⟨i, ?_, ?_⟩⟩
  · rw [Fs.names_setName hbind, Function.update_self]
  · rw [Fs.data_setName, hdata]

/-- VERIFIED is written over a delivered file. -/
private theorem plays_sendVerifiedV03 {path : Path} (h : DeliveryV03 dest offer content d.fs) :
    Plays (do
      sendVerifiedV03
      return .reconciled path : Prog (Session (.alone false false)) _ ReceiverV03ReconcileOutcome) d
      (tells (frameV03 .verified [])) fun outcome d' => outcome = .reconciled path ∧
        DeliveryV03 dest offer content d'.fs := by
  refine (plays_sendFrameV03 (acceptable_of_le (by simp) (by simp))).bind_pure fun _ d' hd => ?_
  subst hd
  exact plays_pure ⟨rfl, h⟩

/-- The final file is the one of the receipt. -/
theorem plays_reconcileFromFinal (h : DeliveryV03 dest offer content d.fs)
    (hlen : content.length = offer.fileSize.toNat) :
    Plays (reconcileFromFinal (finalPath dest offer.filename) (receiptV03 offer content) :
      Prog (Session (.alone false false)) _ _) d (tells (frameV03 .verified []))
      fun outcome d' => outcome = .reconciled (finalPath dest offer.filename) ∧
        DeliveryV03 dest offer content d'.fs := by
  obtain ⟨i, hi, hdata⟩ := Fs.read_eq_some.mp h.final
  have hverify : (verifyExistingFinalV03 (finalPath dest offer.filename) offer.fileSize.toNat
      (blake3 content)).Ensures d (Post (fun _ d' => d'.fs = d.fs) (fun _ _ => False)
        fun _ => False) := by
    refine Ensures.bind_mapErr (Storage.openRegular_spec finalPath_ne_nil) ?_ (fun e d' h' => ?_)
      fun d' h' => by simp at h'
    · intro file d₁ h'
      obtain ⟨h₁, hn, hpos, -⟩ := h'
      obtain rfl : file.ino = i := by
        rw [hi] at hn
        simpa using hn.symm
      refine (hashPhysicalFileV03_spec hpos).mono fun o d₂ h₂ => ?_
      rw [h₁] at h₂
      cases o with
      | ok => exact h₂.1
      | err => exact h₂.2.resolve_left (by simp) ⟨by rw [hdata, hlen], congrArg blake3 hdata⟩
      | halt => simp at h₂
    · obtain hf | hirregular | hk := h'.2.2
      · cases hf
      · exact hirregular.not_file finalPath_ne_nil hi
      · simp [h'.2.1 hk] at hi
  refine (plays_attempt_files (Q := fun r d' => r = .ok () ∧ d'.fs = d.fs)
    (hverify.mono fun o d' h' => ?_)).bind_silent fun r d' hr => ?_
  · cases o with
    | ok => exact ⟨rfl, h'⟩
    | err => exact h'.elim
    | halt => exact h'
  · obtain ⟨rfl, hfs⟩ := hr
    exact plays_sendVerifiedV03 (by rw [hfs]; exact h)

/-- The partial file is the one of the receipt, and is published. -/
theorem plays_reconcileFromPartial {i : ℕ} (hlen : content.length = offer.fileSize.toNat)
    (hreceipt : d.fs.receipt dest offer.transferId = some (receiptV03 offer content))
    (hpart : d.fs.names (partialPath dest offer.filename) = some (.file i))
    (hdata : d.fs.data i = content) (hfinal : d.fs.names (finalPath dest offer.filename) = none) :
    Plays (reconcileFromPartial (finalPath dest offer.filename)
      (partialPath dest offer.filename) (receiptV03 offer content) :
        Prog (Session (.alone false false)) _ _) d (tells (frameV03 .verified []))
      fun outcome d' => outcome = .reconciled (finalPath dest offer.filename) ∧
        DeliveryV03 dest offer content d'.fs := by
  refine (plays_attempt_files (Q := fun r d' => (∃ source, r = .ok source ∧ source.ino = i) ∧
    d'.fs = d.fs) ((verifyPartialForPromotionV03_spec partialPath_ne_nil).mono
      fun o d' h' => ?_)).bind_silent fun r d₁ hr => ?_
  · cases o with
    | ok source =>
      obtain ⟨h₁, hn, -⟩ := h'
      rw [hpart] at hn
      exact ⟨⟨source, rfl, by simpa using hn.symm⟩, h₁⟩
    | err =>
      refine absurd ?_ (h'.2.resolve_left (by simp) i hpart)
      exact ⟨by rw [hdata, hlen]; rfl, congrArg blake3 hdata⟩
    | halt => simp at h'
  obtain ⟨⟨source, rfl, rfl⟩, h₁⟩ := hr
  rw [← h₁] at hreceipt hpart hdata hfinal
  have hdir : d₁.fs.isDir (finalPath dest offer.filename).dropLast := by
    rw [dropLast_finalPath]
    exact isDir_of_names_partialPath (by rw [hpart]; simp)
  refine (plays_onDisk ((promotePartialNoClobber_spec partialPath_ne_nil finalPath_ne_nil hdir
    hpart).succeeds (fun e t h' => ?_) fun t h' => by simp at h')).bind_silent fun _ d₂ h₂ => ?_
  · obtain ⟨hn, -⟩ | ⟨-, hf, -⟩ := h'
    · exact hn hfinal
    · cases hf
  obtain ⟨-, h₂⟩ := h₂
  have hdelivery : DeliveryV03 dest offer content d₂.fs := by
    rw [h₂]
    exact .link hlen hreceipt hpart hdata hfinal
  -- whether or not the snapshot is removed, the file is published
  refine (plays_attempt_files (Q := fun _ d₃ => DeliveryV03 dest offer content d₃.fs)
    (removeChunkState_spec.mono fun o d₃ h' => ?_)).bind_silent fun _ d₃ h₃ =>
      plays_sendVerifiedV03 h₃
  have hleft {fs : Fs} (hw : Fs.Within ∅ {chunkStateTemporaryPath (partialPath dest offer.filename),
      chunkStatePath (partialPath dest offer.filename)} ∅ d₂.fs fs) :=
    hdelivery.within hw fun p hp => (dropLast_of_mem_chunkStatePaths hp).trans dropLast_partialPath
  cases o with
  | ok => exact hleft h'.1
  | err => exact hleft h'.1
  | halt => simp at h'

/-- **An offer that has a receipt is settled at once.** -/
theorem plays_reconcile_concluded (h : ConcludedV03 dest offer content d.fs)
    (hsafe : isSafeFilename offer.filename) (hlen : content.length = offer.fileSize.toNat)
    (hdir : d.fs.isDir dest) :
    Plays (reconcileCompletedTransferV03 dest offer : Prog (Session (.alone false false)) _ _) d
      (tells (frameV03 .verified [])) fun outcome d' =>
        outcome = .reconciled (finalPath dest offer.filename) ∧
          DeliveryV03 dest offer content d'.fs := by
  obtain ⟨i, hi⟩ := Fs.names_of_receipt h.receipt
  have hfree {fs : Fs} {p : Path} (hp : p ≠ []) (hd : fs.isDir p.dropLast) : ¬fs.Blocked p :=
    fun hb => hb.not_isDir hp hd
  refine (plays_refuseIf (by simp [hsafe])).bind_silent fun _ d' hd => ?_
  subst hd
  refine (plays_pathExists completionReceiptPath_ne_nil (hfree completionReceiptPath_ne_nil
    (Fs.isDir_dropLast (by rw [hi]; simp)))).bind_silent fun b d₁ h₁ => ?_
  obtain ⟨h₁, hb⟩ := h₁
  rw [if_pos (hb.mpr (by rw [hi]; simp))]
  refine (plays_files (readCompletionReceipt_spec.succeeds (fun e t h' => ?_)
    fun t h' => by simp at h')).bind_silent fun receipt d₂ h₂ => ?_
  · rw [h₁, h.receipt] at h'
    simp at h'
  obtain ⟨h₂, hr⟩ := h₂
  rw [h₁, h.receipt] at hr
  obtain rfl := Option.some.inj hr
  replace h₂ : d₂.fs = d'.fs := h₂.trans h₁
  refine (plays_refuseIf (by simp [receiptV03])).bind_silent fun _ d₃ hd => ?_
  subst hd
  rw [← h₂] at h hdir
  refine (plays_pathExists finalPath_ne_nil (hfree finalPath_ne_nil
    (by rwa [dropLast_finalPath]))).bind_silent fun b d₄ h₄ => ?_
  obtain ⟨h₄, hb⟩ := h₄
  rw [← h₄] at h
  obtain hfinal | ⟨hnone, hpart⟩ := h.place
  · obtain ⟨j, hj, -⟩ := Fs.read_eq_some.mp hfinal
    rw [if_pos (hb.mpr (by rw [← h₄, hj]; simp))]
    exact plays_reconcileFromFinal ⟨h.receipt, hfinal⟩ hlen
  · obtain ⟨j, hj, hdata⟩ := Fs.read_eq_some.mp hpart
    rw [if_neg fun ht => hb.mp ht (by rw [← h₄, hnone])]
    refine (plays_pathExists partialPath_ne_nil (hfree partialPath_ne_nil
      (Fs.isDir_dropLast (by rw [hj]; simp)))).bind_silent fun b d₅ h₅ => ?_
    obtain ⟨h₅, hb⟩ := h₅
    rw [if_pos (hb.mpr (by rw [hj]; simp))]
    rw [← h₅] at h hj hdata hnone
    exact plays_reconcileFromPartial hlen h.receipt hj hdata hnone

end

/-! ### A session -/

section

variable [Crates] {dest : Path} {offer : FileOfferV03} {content : Bytes} {fs fs' : Fs}
  {d : Disk (.alone false false)} {layout : ChunkLayout}

/-- What a session of the offer sends lacks the chunks that are held already. -/
noncomputable def inventoryV03 (dest : Path) (offer : FileOfferV03) (layout : ChunkLayout)
    (fs : Fs) : ReceiverInventoryV03 :=
  announcedBy (heldState fs (partialPath dest offer.filename) layout)

omit [Crates] in
/-- Making directories changes nothing about what is held. -/
theorem read_made (hm : Made dest fs fs') :
    fs'.read (partialPath dest offer.filename) = fs.read (partialPath dest offer.filename) ∧
      fs'.read (chunkStatePath (partialPath dest offer.filename)) =
        fs.read (chunkStatePath (partialPath dest offer.filename)) :=
  ⟨hm.read_eq (names_made hm partialPath_ne_nil (.inl dropLast_partialPath)),
    hm.read_eq (names_made hm appendSuffix_ne_nil (.inl
      (by rw [dropLast_of_mem_chunkStatePaths (.inr rfl), dropLast_partialPath])))⟩

/-- **The script of a session that receives the chunks that are missing.** -/
theorem plays_receiveSessionV03_transfer {data : ℕ → List Frame} {frames : List Frame}
    (hname : NameableV03 offer) (hsafe : isSafeFilename offer.filename)
    (h : UnderwayV03 dest offer content d.fs)
    (hnot : ¬ConcludedV03 dest offer content d.fs) (hlen : content.length = offer.fileSize.toNat)
    (hlayout : ChunkLayout.new offer.fileSize offer.chunkSize = .ok layout)
    (hgenuine : GenuineV03 content (partialPath dest offer.filename) layout d.fs)
    (hannounced : Inventory layout frames
      (chunkHashBatches (heldState d.fs (partialPath dest offer.filename) layout)))
    (hdata : ∀ i < layout.chunkCount.toNat, Needed (inventoryV03 dest offer layout d.fs) content i →
      Carries (i * layout.chunkSize.toNat) (chunkBytes layout content i) (data i)) :
    Plays (receiveSessionV03 dest : Prog (Session (.alone false false)) _ _) d
      ((greetingV03 offer).dual ++ ((tellsAll frames ++ hears acceptFrame) ++
        ((hearsAll (framesFrom (inventoryV03 dest offer layout d.fs) content data 0) ++
          hears (completeFrame (blake3 content))) ++ tells (frameV03 .verified []))))
      fun _ d' => DeliveryV03 dest offer content d'.fs := by
  refine (plays_files (Storage.ensureDirectory_spec.succeeds
    (fun e t h' => h'.2.elim (by simp) fun h' => h' h.receptive.creatable)
    fun t h' => by simp at h')).bind_silent fun _ d₁ h₁ => ?_
  have hmade₁ : Made dest d.fs d₁.fs := h₁.1.mono
    (fun q hq => .inl ⟨hq.1, hq.2.trans prefix_partialsDirectory⟩) le_rfl fun _ h => .inl h
  refine (plays_receiveOfferV03 hname).bind fun o d₂ h₂ => ?_
  obtain ⟨rfl, rfl⟩ := h₂
  have h₂ := h.made hsafe hmade₁
  -- the receipt, if there is one, is not of the partial file
  have hreconcile := plays_reconcile_underway h₂ hsafe fun hreceipt i hi hv => by
    have hn := (names_made hmade₁ (p := partialPath dest o.filename) partialPath_ne_nil
      (.inl (by simp))).symm.trans hi
    have hdata : d₂.fs.data i = d.fs.data i :=
      hmade₁.data i (d.fs.allocated _ _ hn) (Set.notMem_empty _)
    have hread : d.fs.read (partialPath dest o.filename) = some (d.fs.data i) :=
      Fs.read_eq_some.mpr ⟨i, hn, rfl⟩
    have hbytes : partialBytes d.fs (partialPath dest o.filename) = d.fs.data i := by
      rw [partialBytes, hread, Option.getD_some]
    rw [hdata] at hv
    have hwhole := hgenuine.whole (by rw [hbytes, hv.size, hlen]) (by rw [hbytes, hv.digest])
    refine hnot ⟨?_, .inr ⟨h.final, by rw [hread, ← hbytes, hwhole]⟩⟩
    obtain hnone | hr := h.receipt
    · have hnone₂ : d₂.fs.names (completionReceiptPath dest o.transferId) = none :=
        (names_made hmade₁ completionReceiptPath_ne_nil (.inr (by simp))).trans hnone
      rw [Fs.receipt_eq_none hnone₂] at hreceipt
      cases hreceipt
    · exact hr.1
  refine hreconcile.mapErr.bind_silent fun outcome d₃ h₃ => ?_
  obtain ⟨rfl, h₃⟩ := h₃
  rw [← h₃] at h₂ hmade₁
  refine (plays_files (Storage.ensureDirectory_spec.succeeds
    (fun e t h' => h'.2.elim (by simp) fun h' => h' h₂.receptive.partials)
    fun t h' => by simp at h')).bind_silent fun _ d₄ h₄ => ?_
  have hmade₄ : Made dest d.fs d₄.fs :=
    hmade₁.trans (h₄.1.mono Set.subset_union_left le_rfl fun _ h => .inl h)
  obtain ⟨hread, hsnapshot⟩ : d₄.fs.read (partialPath dest o.filename) =
      d.fs.read (partialPath dest o.filename) ∧
        d₄.fs.read (chunkStatePath (partialPath dest o.filename)) =
          d.fs.read (chunkStatePath (partialPath dest o.filename)) := read_made hmade₄
  have hheld : heldState d₄.fs (partialPath dest o.filename) layout =
      heldState d.fs (partialPath dest o.filename) layout := heldState_congr hread hsnapshot
  rw [← hheld] at hannounced
  rw [inventoryV03, ← hheld] at hdata ⊢
  exact plays_transferV03 (h.made hsafe hmade₄) hsafe hlen hlayout h₄.2 (hgenuine.congr hread)
    hannounced hdata

/-- **The script of a session that settles the offer.** -/
theorem plays_receiveSessionV03_settled (hname : NameableV03 offer)
    (hsafe : isSafeFilename offer.filename) (hlen : content.length = offer.fileSize.toNat)
    (hcreatable : d.fs.Creatable dest) (h : ConcludedV03 dest offer content d.fs) :
    Plays (receiveSessionV03 dest : Prog (Session (.alone false false)) _ _) d
      ((greetingV03 offer).dual ++ tells (frameV03 .verified []))
      fun _ d' => DeliveryV03 dest offer content d'.fs := by
  refine (plays_files (Storage.ensureDirectory_spec.succeeds
    (fun e t h' => h'.2.elim (by simp) fun h' => h' hcreatable)
    fun t h' => by simp at h')).bind_silent fun _ d₁ h₁ => ?_
  have hmade₁ : Made dest d.fs d₁.fs := h₁.1.mono
    (fun q hq => .inl ⟨hq.1, hq.2.trans prefix_partialsDirectory⟩) le_rfl fun _ h => .inl h
  refine (plays_receiveOfferV03 hname).bind fun o d₂ h₂ => ?_
  obtain ⟨rfl, rfl⟩ := h₂
  have hD : d₂.fs.names (finalPath dest o.filename) = d.fs.names (finalPath dest o.filename) :=
    hmade₁.names_eq' (Set.notMem_empty _) (finalPath_notMem_directories hsafe)
  have hconcluded : ConcludedV03 dest o content d₂.fs := by
    refine ⟨hmade₁.receipt_eq h.receipt (Set.notMem_empty _) fun i _ => Set.notMem_empty i, ?_⟩
    rw [hmade₁.read_eq hD, hD, (read_made hmade₁).1]
    exact h.place
  refine (plays_reconcile_concluded hconcluded hsafe hlen h₁.2).mapErr.bind_pure
    fun outcome d₃ h₃ => ?_
  obtain ⟨rfl, hdelivery⟩ := h₃
  exact plays_pure hdelivery

/-! ### Both ends -/

/-- How far earlier sessions of the offer have come: some chunks are held, or all of the file was
received. -/
inductive StandingV03 (dest : Path) (offer : FileOfferV03) (content : Bytes) (fs : Fs) : Prop
  | underway (underway : UnderwayV03 dest offer content fs)
      (genuine : ∀ layout, ChunkLayout.new offer.fileSize offer.chunkSize = .ok layout →
        GenuineV03 content (partialPath dest offer.filename) layout fs) :
      StandingV03 dest offer content fs
  | concluded (creatable : fs.Creatable dest) (concluded : ConcludedV03 dest offer content fs) :
      StandingV03 dest offer content fs

/-- The frames of a sender: where the file was received before, it is not sent; else the chunks are
sent that the receiver does not hold. -/
inductive SpeaksV03 (dest : Path) (offer : FileOfferV03) (content : Bytes) (fs : Fs) :
    List Frame → Prop
  | settled (concluded : ConcludedV03 dest offer content fs) : SpeaksV03 dest offer content fs
      [frameV03 .hello [wfpVersionV03], frameV03 .offer offer.payload]
  | transferred {layout : ChunkLayout} {frames : List Frame}
      (underway : ¬ConcludedV03 dest offer content fs)
      (layout_eq : ChunkLayout.new offer.fileSize offer.chunkSize = .ok layout)
      (emission : Emission (inventoryV03 dest offer layout fs) content layout.chunkCount.toNat
        frames) : SpeaksV03 dest offer content fs
      ([frameV03 .hello [wfpVersionV03], frameV03 .offer offer.payload] ++ (acceptFrame ::
        (frames ++ [completeFrame (blake3 content)])))

/-- A session when its connection was opened. -/
def sessionStart {Γ : Setting} (disk : Disk Γ) (received : Bytes) : Session Γ :=
  .start disk ⟨received, none, [], none⟩

omit [Crates] in
theorem starts_sessionStart {Γ : Setting} {disk : Disk Γ} : Starts (sessionStart disk) disk :=
  ⟨fun _ => rfl, fun _ => rfl⟩

omit [Crates] in
theorem sends_greetingV03 : (greetingV03 offer).sends =
    encodings [frameV03 .hello [wfpVersionV03], frameV03 .offer offer.payload] := by
  simp [greetingV03, encodings]

/-- An emission of all chunks, by the frames of each. -/
theorem Emission.exists_framesFrom {inventory : ReceiverInventoryV03} {frames : List Frame}
    (h : Emission inventory content inventory.layout.chunkCount.toNat frames) :
    ∃ data : ℕ → List Frame, (∀ i < inventory.layout.chunkCount.toNat, Needed inventory content i →
      Carries (i * inventory.layout.chunkSize.toNat) (chunkBytes inventory.layout content i)
        (data i)) ∧ frames = framesFrom inventory content data 0 := by
  obtain ⟨data, hdata, rfl⟩ := h
  refine ⟨data, hdata, ?_⟩
  rw [framesFrom, Nat.sub_zero, ← List.range_eq_range']
  rfl

end

/-! ### A file of two chunks -/

def twoChunkOffer : FileOfferV03 := ⟨Block.ofBytes 16 [1], "a", 2, 1⟩

def oneByte : NonZeroU64 := ⟨1, by decide⟩

/-- A source of two bytes. -/
def twoChunkPath : SourcePath where
  metadata := .ok ⟨true, 2⟩
  fileName := some "a"
  file := .ok (.ofFragments [⟨[120, 121], by decide⟩])

open scoped SerdeJson in
/-- Whether bytes are those of the file can be decided. -/
theorem genuineV03_twoChunk {layout : ChunkLayout} {fs : Fs}
    (hlayout : ChunkLayout.new 2 1 = .ok layout)
    (h : (fs.read (partialPath ["d"] "a")).getD [] ∈ [[], [120, 0]]) :
    GenuineV03 [120, 121] (partialPath ["d"] "a") layout fs := by
  obtain rfl : layout = ⟨2, 1, by decide⟩ := (Except.ok.inj hlayout).symm
  replace h : partialBytes fs (partialPath ["d"] "a") ∈ [[], [120, 0]] := h
  refine ⟨?_, ?_⟩
  · generalize partialBytes fs (partialPath ["d"] "a") = bytes at h ⊢
    have hlt : ∀ i < 2, ∀ bytes ∈ [[], [120, 0]],
        blake3 (chunkBytes ⟨2, 1, by decide⟩ bytes i) =
          blake3 (chunkBytes ⟨2, 1, by decide⟩ [120, 121] i) →
        chunkBytes ⟨2, 1, by decide⟩ bytes i = chunkBytes ⟨2, 1, by decide⟩ [120, 121] i := by
      decide
    exact fun i hi => hlt i hi bytes h
  · generalize partialBytes fs (partialPath ["d"] "a") = bytes at h ⊢
    have hwhole : ∀ bytes ∈ [[], [120, 0]], bytes.length = [120, 121].length →
        blake3 bytes = blake3 [120, 121] → bytes = [120, 121] := by
      decide
    exact hwhole bytes h

open scoped SerdeJson in
theorem underwayV03_empty : UnderwayV03 ["d"] twoChunkOffer [120, 121] .empty where
  receptive := ⟨fun _ _ => .inl rfl, fun _ _ => .inl rfl, fun _ _ => .inl rfl⟩
  receipt := .inl rfl
  final := rfl

end Warpfile.V03
