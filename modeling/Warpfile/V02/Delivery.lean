import Warpfile.V02.ReceiverScript

/-!
# An offered file is delivered

A sender and a receiver of WFP/0.2 at the two ends of a connection that stays open: in whatever
order and portions their bytes arrive, both return, the file is published with its receipt, and
the DATA frames carry just what the partial file does not have. An offer whose file was received
before is settled without any.
-/

namespace Warpfile.V02

open Prog Connected

section

variable [Crates] {d : Disk (.alone false false)} {path dest : Path} {offer : FileOffer}

/-! ### A session -/

/-- The names a session of the offer writes to besides the receipt and the final file. -/
def workNames (dest : Path) (offer : FileOffer) : Set Path :=
  insert (completionReceiptTemporaryPath dest offer.transferId)
    (scratch (partialPath dest offer.filename))

/-- Nothing stands in the way of a transfer of the offer. -/
structure Receptive (dest : Path) (offer : FileOffer) (fs : Fs) : Prop where
  partials : fs.Creatable (partialsDirectory dest)
  receipts : fs.Creatable (receiptsDirectory dest)
  regular : ∀ p ∈ workNames dest offer, fs.names p ≠ some .dir ∧ fs.names p ≠ some .symlink

omit [Crates] in
theorem Receptive.creatable {fs : Fs} (h : Receptive dest offer fs) : fs.Creatable dest :=
  fun q hq => h.partials q ⟨hq.1, hq.2.trans prefix_partialsDirectory⟩

omit [Crates] in
/-- Making directories leaves nothing in the way. -/
theorem Receptive.made {fs fs' : Fs} (h : Receptive dest offer fs) (hm : Made dest fs fs') :
    Receptive dest offer fs' ∧ ∀ p ∈ workNames dest offer, fs'.names p = fs.names p := by
  have hnames (p : Path) (hp : p ∈ workNames dest offer) : fs'.names p = fs.names p := by
    refine hm.names_eq' (Set.notMem_empty _) ?_
    obtain rfl | hp := hp
    · exact notMem_directories appendSuffix_ne_nil (.inr (by simp))
    · have hdrop := dropLast_of_mem_scratch hp
      rw [dropLast_partialPath] at hdrop
      refine notMem_directories ?_ (.inl hdrop)
      intro hp0
      simp [hp0, partialsDirectory, internalDirectory] at hdrop
  refine ⟨⟨hm.creatable (by simp) h.partials, hm.creatable (by simp) h.receipts, fun p hp => ?_⟩,
    hnames⟩
  rw [hnames p hp]
  exact h.regular p hp

omit [Crates] in
theorem Receptive.not_irregular {fs : Fs} (h : Receptive dest offer fs) {p : Path}
    (hp : p ∈ workNames dest offer) : ¬fs.Irregular p := by
  have hp0 : p ≠ [] := by
    obtain rfl | rfl | rfl | rfl := hp
    · exact appendSuffix_ne_nil
    · exact partialPath_ne_nil
    · exact appendSuffix_ne_nil
    · exact appendSuffix_ne_nil
  have hblocked : ¬fs.Blocked p := by
    refine Fs.Creatable.not_blocked ?_ hp0
    obtain rfl | hp := hp
    · rw [dropLast_completionReceiptTemporaryPath]
      exact h.receipts
    · rw [dropLast_of_mem_scratch hp, dropLast_partialPath]
      exact h.partials
  rintro (hb | hd | hs)
  · exact hblocked hb
  · exact (h.regular p hp).1 hd
  · exact (h.regular p hp).2 hs

omit [Crates] in
theorem Receptive.not_untidy {fs : Fs} (h : Receptive dest offer fs) :
    ¬fs.Untidy (partialPath dest offer.filename) := by
  rintro (hi | hi)
  · exact h.not_irregular (.inr (.inr (.inr rfl))) hi
  · exact h.not_irregular (.inr (.inr (.inl rfl))) hi

/-- The file was delivered: it is published, with its receipt. -/
structure Delivery (dest : Path) (offer : FileOffer) (content : Bytes) (fs : Fs) : Prop where
  receipt : fs.receipt dest offer.transferId = some (receiptForOffer offer (blake3 content))
  final : fs.read (finalPath dest offer.filename) = some content

variable {content : Bytes}

/-- A commit of the whole file delivers it. -/
theorem Committing.delivery {fs fs' : Fs} {i : ℕ}
    (h : Committing dest offer (blake3 content) i fs fs')
    (hname : offer.filename ≠ "") (hdata : fs.data i = content) (hi : i < fs.next)
    (hD : fs'.names (finalPath dest offer.filename) ≠ none) : Delivery dest offer content fs' := by
  obtain ⟨hn, -⟩ | ⟨hpub, hn, -⟩ := h.place
  · exact absurd hn hD
  · refine ⟨hpub.receipt_eq hname, Fs.read_eq_some.mpr ⟨i, hn, ?_⟩⟩
    rw [h.within.data i hi (Set.notMem_empty _), hdata]

/-- What is received once a transfer is prepared. -/
theorem plays_receiveAndCommit {prepared : PreparedTransfer} {fs : Fs} {es : List NetEvent}
    {bytes : Bytes} {ps : List Bytes} (hsafe : isSafeFilename offer.filename)
    (hsize : content.length = offer.fileSize.toNat) (hreceptive : Receptive dest offer fs)
    (hR : fs.names (completionReceiptPath dest offer.transferId) = none)
    (hD : fs.names (finalPath dest offer.filename) = none)
    (h : Prepared (partialPath dest offer.filename) offer fs prepared d.fs es bytes)
    (hcontent : bytes ++ ps.flatten = content) (hfits : ∀ p ∈ ps, p.length ≤ maxDataPayloadLength) :
    Plays (do
      match ← (receiveFileData prepared.output offer.fileSize.toNat prepared.bytesReceived
          prepared.hasher).attempt with
      | .ok completed =>
        commitTransfer dest (finalPath dest offer.filename) (partialPath dest offer.filename) offer
          completed
      | .error error =>
        preserveOrDiscard (partialPath dest offer.filename) error : Receiver _ Unit) d
      (transferring content ps).dual fun _ d' => Delivery dest offer content d'.fs := by
  have hready := h.ready
  have hwithin := h.within
  have hlt : content.length < 2 ^ 64 := hsize ▸ offer.fileSize.toNat_lt
  have hscript : (transferring content ps).dual =
      (ps.flatMap (fun p => hears (dataFrame p)) ++
        hears (Frame.new .complete (blake3 content).1)) ++ tells (Frame.new .verified []) := by
    simp [transferring]
  rw [hscript, hready.hasher, hready.bytesReceived, ← hsize]
  refine Plays.bind (R := fun r d' => ∃ completed : CompletedTransfer, r = .ok completed ∧
    completed.blake3 = blake3 content ∧ completed.source.ino = prepared.output.ino ∧
    d'.fs = d.fs.setData prepared.output.ino content) ?_ fun r d₁ hr => ?_
  · refine Plays.attempt ((plays_receiveFileData hlt hcontent hfits rfl hready.data
      hready.at_end).mono fun completed d' hd => ⟨completed, rfl, hd⟩)
  · obtain ⟨completed, rfl, hdigest, hino, hfs⟩ := hr
    -- nothing but the scratch files was written to
    have hnames (p : Path) (hp : p.dropLast ≠ partialsDirectory dest) :
        d₁.fs.names p = fs.names p := by
      rw [hfs, Fs.names_setData]
      exact hwithin.names_eq' (notMem_scratch (by simpa using hp)) (Set.notMem_empty _)
    have hsafe' := ne_internal_of_isSafeFilename hsafe
    have hreceipts : d₁.fs.Creatable (receiptsDirectory dest) := by
      intro q hq
      rw [hnames q fun hd => notMem_directories hq.1 (.inl hd) (.inr hq)]
      exact hreceptive.receipts q hq
    have hregular : ¬d₁.fs.Irregular (completionReceiptTemporaryPath dest offer.transferId) := by
      have hnone := hnames (completionReceiptTemporaryPath dest offer.transferId) (by simp)
      have hfree :=
        hreceptive.regular (completionReceiptTemporaryPath dest offer.transferId) (.inl rfl)
      rintro (hb | hd | hs)
      · refine Fs.Creatable.not_blocked (p := completionReceiptTemporaryPath dest offer.transferId)
          ?_ appendSuffix_ne_nil hb
        rwa [dropLast_completionReceiptTemporaryPath]
      · exact hfree.1 (hnone ▸ hd)
      · exact hfree.2 (hnone ▸ hs)
    have hP : d₁.fs.names (partialPath dest offer.filename) =
        some (.file completed.source.ino) := by
      rw [hfs, Fs.names_setData, hino]
      exact hready.name
    refine (plays_commitTransfer ((hnames _ (by simp)).trans hR) ((hnames _ (by simp)).trans hD) hP
      hreceipts hregular hsafe').mono fun _ d₂ h₂ => ?_
    rw [hdigest, hino] at h₂
    refine h₂.1.delivery ?_ (by rw [hfs]; simp) ?_ h₂.2
    · intro hempty
      rw [hempty] at hsafe
      revert hsafe
      decide
    · rw [hfs]
      exact d.fs.allocated _ _ hready.name

/-- What is kept of a partial file belongs to the offered file: no collision of digests makes
other bytes pass. -/
def Faithful (content : Bytes) (path : Path) (fs : Fs) : Prop :=
  resumable content path fs <+: content

/-- **The script of a session that transfers the file.** -/
theorem exists_plays_receiveConnection (h : Nameable offer) (hsafe : isSafeFilename offer.filename)
    (hsize : content.length = offer.fileSize.toNat) (hreceptive : Receptive dest offer d.fs)
    (hR : d.fs.names (completionReceiptPath dest offer.transferId) = none)
    (hD : d.fs.names (finalPath dest offer.filename) = none)
    (hfaithful : Faithful content (partialPath dest offer.filename) d.fs) :
    ∃ response settle, SettledAt content offer.fileSize response settle
        (resumable content (partialPath dest offer.filename) d.fs).length ∧
      ∀ ps, ps.flatten =
          content.drop (resumable content (partialPath dest offer.filename) d.fs).length →
        (∀ p ∈ ps, p.length ≤ maxDataPayloadLength) →
        Plays (receiveConnection dest) d ((greeting offer).dual ++ (tells response ++
          (Script.dual settle ++ (transferring content ps).dual)))
          fun _ d' => Delivery dest offer content d'.fs := by
  set P := partialPath dest offer.filename with hP
  have hP0 : P ≠ [] := partialPath_ne_nil
  have hfile : ∀ node, d.fs.names P = some node → ∃ i, node = .file i := by
    intro node hn
    have hfree := hreceptive.regular P (.inr (.inl rfl))
    cases node with
    | file i => exact ⟨i, rfl⟩
    | dir => exact absurd hn hfree.1
    | symlink => exact absurd hn hfree.2
  obtain ⟨response, settle, hs, hprepare⟩ := exists_plays_prepareTransfer hP0 hsize hfile
  refine ⟨response, settle, hs, fun ps hflat hfits => ?_⟩
  have hname : offer.filename ≠ "" := by
    intro hempty
    rw [hempty] at hsafe
    revert hsafe
    decide
  refine (plays_receiveOffer h hsafe).bind fun o d' ho => ?_
  obtain ⟨rfl, rfl⟩ := ho
  unfold receiveOffered
  refine (plays_orReject (plays_files (Storage.ensureDirectory_spec.succeeds
    (fun e t h => h.2.elim (by simp) fun h => h hreceptive.creatable)
    fun t h => by simp at h))).bind_silent fun _ d₁ h₁ => ?_
  have hmade₁ : Made dest d'.fs d₁.fs := h₁.1.mono
    (fun q hq => .inl ⟨hq.1, hq.2.trans prefix_partialsDirectory⟩) le_rfl fun _ h => .inl h
  obtain ⟨hreceptive₁, -⟩ := hreceptive.made hmade₁
  have hR₁ : d₁.fs.names (completionReceiptPath dest o.transferId) = none :=
    (hmade₁.names_eq' (Set.notMem_empty _) (notMem_directories completionReceiptPath_ne_nil
      (.inr (by simp)))).trans hR
  refine (plays_reconcile_none hR₁ hreceptive₁.receipts).bind_silent fun settled d₂ h₂ => ?_
  obtain ⟨rfl, h₂⟩ := h₂
  have hD₂ : d₂.fs.names (finalPath dest o.filename) = none := by
    rw [h₂, hmade₁.names_eq' (Set.notMem_empty _) (finalPath_notMem_directories hsafe)]
    exact hD
  rw [if_neg (by simp)]
  refine (plays_files ((Storage.pathExists_spec finalPath_ne_nil).succeeds (fun e t h => ?_)
    fun t h => by simp at h)).bind_silent fun exists? d₃ h₃ => ?_
  · refine (h.2.resolve_left (by simp)).not_isDir finalPath_ne_nil ?_
    rw [dropLast_finalPath, h₂]
    exact h₁.2
  obtain ⟨h₃, hb⟩ := h₃
  obtain rfl : exists? = false := Bool.eq_false_iff.mpr fun h => hb.mp h hD₂
  rw [if_neg (by simp)]
  replace h₃ : d₃.fs = d₁.fs := h₃.trans h₂
  refine (plays_orReject (plays_files (Storage.ensureDirectory_spec.succeeds
    (fun e t h => h.2.elim (by simp) fun h => h (by rw [h₃]; exact hreceptive₁.partials))
    fun t h => by simp at h))).bind_silent fun _ d₄ h₄ => ?_
  have hmade₄ : Made dest d'.fs d₄.fs := by
    have := h₄.1
    rw [h₃] at this
    exact hmade₁.trans (this.mono Set.subset_union_left le_rfl fun _ h => .inl h)
  obtain ⟨hreceptive₄, hnames₄⟩ := hreceptive.made hmade₄
  have hdir₄ : d₄.fs.isDir P.dropLast := by
    rw [hP, dropLast_partialPath]
    exact h₄.2
  -- the transfer is prepared, and received
  rw [← List.append_assoc (tells response)]
  have hdata₄ (i : ℕ) (hi : d'.fs.names P = some (.file i)) : d₄.fs.data i = d'.fs.data i :=
    hmade₄.data i (d'.fs.allocated _ _ hi) (Set.notMem_empty _)
  have hregular₄ : ¬d₄.fs.Irregular P := hreceptive₄.not_irregular (.inr (.inl rfl))
  refine Plays.bind ((hprepare d₄ (hnames₄ P (.inr (.inl rfl))) hdata₄ hdir₄ hregular₄
    hreceptive₄.not_untidy).and (R := fun prepared d₅ => ∃ es bytes,
      Prepared P o d₄.fs prepared d₅.fs es bytes) fun w hw => ?_) fun prepared d₅ h₅ => ?_
  · obtain rfl : w.disk = d₄ := hw
    refine (prepareTransfer_spec partialPath_ne_nil hdir₄ hname).mono fun o w' h => ?_
    cases o with
    | ok =>
      obtain ⟨es, bytes, hprepared, -⟩ := h
      exact ⟨es, bytes, hprepared⟩
    | err => trivial
    | halt => trivial
  · obtain ⟨hhasher, es, bytes, hprepared⟩ := h₅
    obtain rfl : bytes = resumable content P d'.fs := hprepared.ready.hasher.symm.trans hhasher
    refine plays_receiveAndCommit hsafe hsize hreceptive₄ ?_ ?_ hprepared ?_ hfits
    · rw [hmade₄.names_eq' (Set.notMem_empty _) (notMem_directories completionReceiptPath_ne_nil
        (.inr (by simp)))]
      exact hR
    · rw [hmade₄.names_eq' (Set.notMem_empty _) (finalPath_notMem_directories hsafe)]
      exact hD
    · rw [hflat]
      exact List.prefix_iff_eq_append.mp hfaithful

/-- The whole file was received under its receipt; it is published, or it still stands under its
partial name. -/
structure Concluded (dest : Path) (offer : FileOffer) (content : Bytes) (fs : Fs) : Prop where
  receipt : fs.receipt dest offer.transferId = some (receiptForOffer offer (blake3 content))
  place : fs.read (finalPath dest offer.filename) = some content ∨
    fs.names (finalPath dest offer.filename) = none ∧
      fs.read (partialPath dest offer.filename) = some content

theorem Concluded.settleable {fs : Fs} (h : Concluded dest offer content fs)
    (hsize : content.length = offer.fileSize.toNat) : Settleable dest offer fs := by
  have holds {p : Path} (hp : fs.read p = some content) :
      Holds fs p (receiptForOffer offer (blake3 content)) := by
    obtain ⟨i, hi, rfl⟩ := Fs.read_eq_some.mp hp
    exact ⟨i, hi, hsize, rfl⟩
  exact ⟨_, ⟨h.receipt, rfl, rfl⟩, h.place.imp holds fun h => ⟨h.1, holds h.2⟩⟩

/-- Settling an offer whose file was received delivers it. -/
theorem Settling.delivery {fs fs' : Fs} (h : Settling dest offer fs fs')
    (hc : Concluded dest offer content fs)
    (hD : fs'.names (finalPath dest offer.filename) ≠ none) : Delivery dest offer content fs' := by
  obtain ⟨receipt, -, ⟨⟨i, hi, -⟩, hw⟩ | ⟨hn, i, hi, -, hw, hplace⟩⟩ := h
  · have hread := hc.place.resolve_right fun h => by simp [h.1] at hi
    obtain ⟨j, hj, rfl⟩ := Fs.read_eq_some.mp hread
    refine ⟨hw.receipt_eq hc.receipt (fun h => completionReceiptPath_notMem (.inr h))
      fun k _ => Set.notMem_empty k, Fs.read_eq_some.mpr ⟨j, ?_, ?_⟩⟩
    · rw [hw.names_eq finalPath_notMem_scratch (by simp [hj])]
      exact hj
    · exact hw.data j (fs.allocated _ _ hj) (Set.notMem_empty _)
  · obtain ⟨-, hread⟩ := hc.place.resolve_left fun h => by
      rw [Fs.read_eq_none (by simp [hn])] at h
      simp at h
    obtain ⟨j, hj, rfl⟩ := Fs.read_eq_some.mp hread
    obtain rfl : i = j := by simpa [hi] using hj
    refine ⟨hw.receipt_eq hc.receipt completionReceiptPath_notMem fun k _ => Set.notMem_empty k,
      Fs.read_eq_some.mpr ⟨i, ?_, hw.data i (fs.allocated _ _ hj) (Set.notMem_empty _)⟩⟩
    obtain ⟨hn', -⟩ | ⟨hn', -⟩ := hplace
    · exact absurd hn' hD
    · exact hn'

theorem Concluded.made {fs fs' : Fs} (h : Concluded dest offer content fs)
    (hsafe : isSafeFilename offer.filename) (hm : Made dest fs fs') :
    Concluded dest offer content fs' := by
  have hD : fs'.names (finalPath dest offer.filename) = fs.names (finalPath dest offer.filename) :=
    hm.names_eq' (Set.notMem_empty _) (finalPath_notMem_directories hsafe)
  have hP : fs'.names (partialPath dest offer.filename) =
      fs.names (partialPath dest offer.filename) :=
    hm.names_eq' (Set.notMem_empty _) (notMem_directories partialPath_ne_nil (.inl (by simp)))
  refine ⟨hm.receipt_eq h.receipt (Set.notMem_empty _) fun i _ => Set.notMem_empty i, ?_⟩
  rw [hm.read_eq hD, hD, hm.read_eq hP]
  exact h.place

/-- **The script of a session that settles the offer.** -/
theorem plays_receiveConnection_settled (h : Nameable offer) (hsafe : isSafeFilename offer.filename)
    (hsize : content.length = offer.fileSize.toNat) (hcreatable : d.fs.Creatable dest)
    (hconcluded : Concluded dest offer content d.fs) :
    Plays (receiveConnection dest) d ((greeting offer).dual ++ tells (Frame.new .verified []))
      fun _ d' => Delivery dest offer content d'.fs := by
  refine (plays_receiveOffer h hsafe).bind fun o d' ho => ?_
  obtain ⟨rfl, rfl⟩ := ho
  unfold receiveOffered
  refine (plays_orReject (plays_files (Storage.ensureDirectory_spec.succeeds
    (fun e t h => h.2.elim (by simp) fun h => h hcreatable)
    fun t h => by simp at h))).bind_silent fun _ d₁ h₁ => ?_
  have hmade₁ : Made dest d'.fs d₁.fs := h₁.1.mono
    (fun q hq => .inl ⟨hq.1, hq.2.trans prefix_partialsDirectory⟩) le_rfl fun _ h => .inl h
  have hconcluded₁ := hconcluded.made hsafe hmade₁
  refine (plays_reconcileCompletedTransfer (hconcluded₁.settleable hsize)).bind_pure ?_
  intro settled d₂ h₂
  obtain ⟨rfl, hsettling, hD⟩ := h₂
  rw [if_pos rfl]
  exact plays_pure (hsettling.delivery hconcluded₁ hD)

/-! ### Both ends -/

/-- How far earlier sessions of the offer have come: they have kept a beginning of the file, or all
of it was received. -/
inductive Standing (dest : Path) (offer : FileOffer) (content : Bytes) (fs : Fs) : Prop
  | underway (receipt : fs.names (completionReceiptPath dest offer.transferId) = none)
      (final : fs.names (finalPath dest offer.filename) = none)
      (faithful : Faithful content (partialPath dest offer.filename) fs) :
      Standing dest offer content fs
  | concluded (concluded : Concluded dest offer content fs) : Standing dest offer content fs

/-- What the receiver does not have of the file. -/
def lacking (dest : Path) (offer : FileOffer) (content : Bytes) (fs : Fs) : Bytes :=
  if fs.names (completionReceiptPath dest offer.transferId) = none then
    content.drop (resumable content (partialPath dest offer.filename) fs).length
  else []

/-- The frames of a sender that sends `missing`. -/
inductive Speaks (offer : FileOffer) (content missing : Bytes) : List Frame → Prop
  | settled (none_missing : missing = []) :
      Speaks offer content missing
        [Frame.new .hello [wfpVersion], Frame.new .offer offer.payload]
  | transferred {answer : List Frame} {ps : List Bytes}
      (answer_mem : answer ∈ [[], [Frame.new .accept []], [Frame.new .restart []]])
      (flatten_eq : ps.flatten = missing)
      (fits : ∀ p ∈ ps, p ≠ [] ∧ p.length ≤ maxDataPayloadLength) :
      Speaks offer content missing
        ([Frame.new .hello [wfpVersion], Frame.new .offer offer.payload] ++ (answer ++
          (ps.map dataFrame ++ [Frame.new .complete (blake3 content).1])))

/-- A sender with its file, when the connection was opened. -/
def senderStart {Γ : Setting} (disk : Disk Γ) (file : SourceFile) (received : Bytes) :
    Session Γ × SourceFile := (.start disk ⟨received, none, [], none⟩, file)

/-- A receiver when the connection was opened. -/
def receiverStart {Γ : Setting} (disk : Disk Γ) (received : Bytes) : Session Γ :=
  .start disk ⟨received, none, [], none⟩

omit [Crates] in
theorem starts_sender {Γ : Setting} {disk : Disk Γ} {file : SourceFile} :
    Starts (senderStart disk file) (disk, file) := ⟨fun _ => rfl, fun _ => rfl⟩

omit [Crates] in
theorem sends_greeting : (greeting offer).sends =
    encodings [Frame.new .hello [wfpVersion], Frame.new .offer offer.payload] := by
  simp [greeting, encodings]

theorem sends_transferring {ps : List Bytes} : (transferring content ps).sends =
    encodings (ps.map dataFrame ++ [Frame.new .complete (blake3 content).1]) := by
  have hdata : Script.sends (ps.flatMap fun p => tells (dataFrame p)) =
      encodings (ps.map dataFrame) := by
    induction ps with
    | nil => rfl
    | cons p ps ih =>
      rw [List.flatMap_cons, Script.sends_append, ih, sends_tells]
      rfl
  simp [transferring, hdata, encodings]

/-- What the sender says to settle where the transfer starts. -/
theorem SettledAt.exists_sends {response : Frame} {settle : Script} {offset : ℕ}
    (h : SettledAt content offer.fileSize response settle offset) :
    ∃ answer ∈ [[], [Frame.new .accept []], [Frame.new .restart []]],
      settle.sends = encodings answer := by
  cases h with
  | accepted => exact ⟨[], by simp, rfl⟩
  | resumed => exact ⟨[Frame.new .accept []], by simp, by simp [encodings]⟩
  | restarted => exact ⟨[Frame.new .restart []], by simp, by simp [encodings]⟩

/-- **An offered file is delivered.** Whatever earlier sessions have left of the transfer, and in
whatever order and portions the bytes of the connection arrive, both ends return, the file is
published with its receipt, and what was sent is just what the receiver did not have. -/
theorem offered_file_delivered {Γ : Setting} (disk : Disk Γ) {file : SourceFile}
    (h : Nameable offer) (hsafe : isSafeFilename offer.filename)
    (havailable : Available content file) (hsize : content.length = offer.fileSize.toNat)
    (hreceptive : Receptive dest offer d.fs) (hstanding : Standing dest offer content d.fs) :
    Completes
      (written (sendOnce offer.filename offer.fileSize offer.transferId (.ok ()))
        (senderStart disk file))
      (written (receiveConnection dest) (receiverStart d)) fun x y =>
      (∃ frames, Speaks offer content (lacking dest offer content d.fs) frames ∧
        x = encodings frames) ∧
      (∃ s, (sendOnce offer.filename offer.fileSize offer.transferId (.ok ())).Returns
        (senderStart disk file y) () s) ∧
      ∃ w, (receiveConnection dest).Returns (receiverStart d x) () w ∧
        Delivery dest offer content w.fs := by
  cases hstanding with
  | underway hR hD hfaithful =>
    obtain ⟨response, settle, hs, hreceiver⟩ :=
      exists_plays_receiveConnection h hsafe hsize hreceptive hR hD hfaithful
    obtain ⟨ps, hflat, hfits, hsender⟩ := plays_sendOnce_transfer (d := disk) h havailable hsize
      hfaithful.length_le hs
    have hreceiver := hreceiver ps hflat fun p hp => (hfits p hp).2
    have hdual : (greeting offer).dual ++ (tells response ++ (Script.dual settle ++
        (transferring content ps).dual)) =
        Script.dual
          (greeting offer ++ (hears response ++ (settle ++ transferring content ps))) := by
      simp only [Script.dual_append, dual_hears]
    rw [hdual] at hreceiver
    refine completes_mono (completes_of_plays hsender hreceiver starts_sender plays_start) ?_
    rintro x y ⟨rfl, ⟨_, s, hsent, -⟩, _, w, hreceived, hdelivery⟩
    refine ⟨?_, ⟨s, hsent⟩, w, hreceived, hdelivery⟩
    obtain ⟨answer, hanswer, hsettle⟩ := hs.exists_sends
    refine ⟨_, .transferred hanswer ?_ hfits, ?_⟩
    · rw [lacking, if_pos hR, hflat]
    · simp only [Script.sends_append, sends_greeting, sends_hears, hsettle, sends_transferring,
        encodings_append, List.nil_append]
  | concluded hconcluded =>
    have hsender := plays_sendOnce_verified h (t := (disk, file))
    have hreceiver := plays_receiveConnection_settled h hsafe hsize hreceptive.creatable hconcluded
    rw [← dual_hears, ← Script.dual_append] at hreceiver
    refine completes_mono (completes_of_plays hsender hreceiver starts_sender plays_start) ?_
    rintro x y ⟨rfl, ⟨_, s, hsent, -⟩, _, w, hreceived, hdelivery⟩
    refine ⟨⟨_, .settled ?_, ?_⟩, ⟨s, hsent⟩, w, hreceived, hdelivery⟩
    · obtain ⟨i, hi⟩ := Fs.names_of_receipt hconcluded.receipt
      rw [lacking, if_neg (by simp [hi])]
    · simp [sends_greeting]

end

end Warpfile.V02
