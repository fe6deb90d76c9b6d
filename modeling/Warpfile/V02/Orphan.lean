import Warpfile.V02.Soundness

/-!
# Receipts and the files they are about

Between the receipt and the rename a completed file stands under its partial name, and the receipt
is about the partial file. That name belongs to every transfer of the filename. A session that
does not act on a partial file which a receipt is about keeps all receipts backed (`Accounted`), also
when it is cut off by a crash; a session of another Transfer ID does act on it, and its receipt is
orphaned.
-/

namespace Warpfile.V02

open Prog

section

variable [Crates] {faults crashes : Bool} {dest : Path} {offer : FileOffer} {fs fs₁ fs' : Fs}
  {o : Outcome ReceiverError Unit} {es : List NetEvent} {receipt : CompletionReceipt}

/-- A receipt is about the final file, or, where there is none, about the partial file. -/
def Backed (dest : Path) (fs : Fs) (receipt : CompletionReceipt) : Prop :=
  Holds fs (finalPath dest receipt.filename) receipt ∨
    fs.names (finalPath dest receipt.filename) = none ∧
      Holds fs (partialPath dest receipt.filename) receipt

/-- The file that a receipt is about is the inode `i`. -/
def Backs (dest : Path) (fs : Fs) (receipt : CompletionReceipt) (i : ℕ) : Prop :=
  fs.names (finalPath dest receipt.filename) = some (.file i) ∨
    fs.names (finalPath dest receipt.filename) = none ∧
      fs.names (partialPath dest receipt.filename) = some (.file i)

/-- Every receipt can be read, is in a file of its own, and is backed. -/
structure Accounted (dest : Path) (fs : Fs) : Prop where
  backed : ∀ T, fs.names (completionReceiptPath dest T) ≠ none → ∃ receipt,
    fs.receipt dest T = some receipt ∧ isSafeFilename receipt.filename ∧ Backed dest fs receipt
  own : ∀ T i p, fs.names (completionReceiptPath dest T) = some (.file i) →
    fs.names p = some (.file i) → p = completionReceiptPath dest T

/-- A session does not act on a partial file that a receipt is about: the offered Transfer ID has a
receipt, the final file exists, or the partial file is not what a receipt is about. -/
def Spared (dest : Path) (fs : Fs) (offer : FileOffer) : Prop :=
  fs.names (completionReceiptPath dest offer.transferId) ≠ none ∨
    fs.names (finalPath dest offer.filename) ≠ none ∨
    ∀ T receipt i, fs.receipt dest T = some receipt →
      fs.names (partialPath dest offer.filename) = some (.file i) → ¬Backs dest fs receipt i

/-! ### One receipt -/

section Frame

variable {K S : Set Path} {J : Set ℕ} {T : TransferId}

/-- A receipt stays backed while nothing is done to the names and inodes it depends on. -/
theorem Backed.within (h : Backed dest fs receipt) (hw : Fs.Within K S J fs fs')
    (hD : finalPath dest receipt.filename ∉ S) (hK : finalPath dest receipt.filename ∉ K)
    (hP : fs.names (finalPath dest receipt.filename) = none →
      partialPath dest receipt.filename ∉ S)
    (hJ : ∀ i, Backs dest fs receipt i → i ∉ J) : Backed dest fs' receipt := by
  rcases h with h | ⟨hn, h⟩
  · exact .inl (h.within hw hD fun i hi => hJ i (.inl hi))
  · exact .inr ⟨(hw.names_eq' hD hK).trans hn, h.within hw (hP hn) fun i hi => hJ i (.inr ⟨hn, hi⟩)⟩

omit [Crates] in
/-- A receipt keeps its file to itself. -/
theorem Accounted.own_within [Crates] (h : Accounted dest fs) (hw : Fs.Within K S J fs fs') {i : ℕ}
    {p : Path} (hS : completionReceiptPath dest T ∉ S) (hK : completionReceiptPath dest T ∉ K)
    (hT : fs'.names (completionReceiptPath dest T) = some (.file i))
    (hp : fs'.names p = some (.file i)) : p = completionReceiptPath dest T := by
  rw [hw.names_eq' hS hK] at hT
  obtain ⟨q, hq, hqp⟩ := hw.inode_of_names (fs.allocated _ _ hT) hp
  obtain rfl := h.own T i q hT hq
  exact (hqp.resolve_left hS).symm

omit [Crates] in
theorem completionReceiptPath_notMem_directories :
    completionReceiptPath dest T ∉ directories dest :=
  notMem_directories completionReceiptPath_ne_nil (.inr (by simp))

end Frame

/-! ### One session -/

section Step

variable {S : Set Path}

omit [Crates] in
/-- The partial file of one filename is no scratch file of another. -/
theorem partialPath_notMem_scratch {filename filename' : String} (h : filename ≠ filename') :
    partialPath dest filename ∉ scratch (partialPath dest filename') := by
  rintro (h' | h' | h')
  · exact h (partialPath_inj.mp h')
  · exact partialPath_ne_transferMetadataTemporaryPath h'
  · exact partialPath_ne_transferMetadataPath h'

omit [Crates] in
theorem finalPath_notMem_scratch' {filename filename' : String} :
    finalPath dest filename ∉ scratch (partialPath dest filename') := notMem_scratch (by simp)

/-- A session that has only made directories. -/
theorem Accounted.made (h : Accounted dest fs) (hw : Made dest fs fs') : Accounted dest fs' where
  backed T hT := by
    rw [hw.names_eq' (Set.notMem_empty _) completionReceiptPath_notMem_directories] at hT
    obtain ⟨receipt, hr, hsafe, hb⟩ := h.backed T hT
    refine ⟨receipt, hw.receipt_eq hr (Set.notMem_empty _) fun i _ => Set.notMem_empty i, hsafe, ?_⟩
    exact hb.within hw (Set.notMem_empty _) (finalPath_notMem_directories hsafe)
      (fun _ => Set.notMem_empty _) fun i _ => Set.notMem_empty i
  own T i p hT hp := h.own_within hw (Set.notMem_empty _)
    completionReceiptPath_notMem_directories hT hp

/-- Settling an offer leaves the receipts about other filenames alone, and moves the file that
those about the offered one are about. -/
theorem Accounted.settling (h : Accounted dest fs) (hs : Settling dest offer fs fs') :
    Accounted dest fs' := by
  obtain ⟨r, -, ⟨hD, hw⟩ | ⟨hD, i, hi, -, hw, hplace⟩⟩ := hs
  · have hR {T : TransferId} : completionReceiptPath dest T ∉
        scratch (partialPath dest offer.filename) := fun h => completionReceiptPath_notMem (.inr h)
    refine ⟨fun T hT => ?_, fun T j p hT hp => h.own_within hw hR (Set.notMem_empty _) hT hp⟩
    rw [hw.names_eq' hR (Set.notMem_empty _)] at hT
    obtain ⟨receipt, hr, hsafe, hb⟩ := h.backed T hT
    refine ⟨receipt, hw.receipt_eq hr hR fun i _ => Set.notMem_empty i, hsafe, ?_⟩
    refine hb.within hw finalPath_notMem_scratch' (Set.notMem_empty _) (fun hn => ?_)
      fun i _ => Set.notMem_empty i
    refine partialPath_notMem_scratch fun hf => ?_
    obtain ⟨j, hj, -⟩ := hD
    rw [← hf, hn] at hj
    simp at hj
  · refine ⟨fun T hT => ?_, fun T j p hT hp =>
      h.own_within hw completionReceiptPath_notMem (Set.notMem_empty _) hT hp⟩
    rw [hw.names_eq' completionReceiptPath_notMem (Set.notMem_empty _)] at hT
    obtain ⟨receipt, hr, hsafe, hb⟩ := h.backed T hT
    refine ⟨receipt, hw.receipt_eq hr completionReceiptPath_notMem fun i _ => Set.notMem_empty i,
      hsafe, ?_⟩
    by_cases hf : receipt.filename = offer.filename
    · -- the receipt is about the file that is moved
      obtain ⟨-, j, hj, hm⟩ := hb.resolve_left fun ⟨j, hj, _⟩ => by simp [hf, hD] at hj
      obtain rfl : i = j := by simpa [hf, hi] using hj
      have hm' : Matches receipt (fs'.data i) := by
        rwa [hw.data i (fs.allocated _ _ hi) (Set.notMem_empty _)]
      rw [Backed, hf]
      rcases hplace with ⟨hD', hP'⟩ | ⟨hD', -⟩
      · exact .inr ⟨hD', i, hP', hm'⟩
      · exact .inl ⟨i, hD', hm'⟩
    · have hS : finalPath dest receipt.filename ∉ insert (finalPath dest offer.filename)
          (scratch (partialPath dest offer.filename)) := by
        rintro (h | h)
        · exact hf (finalPath_inj.mp h)
        · exact finalPath_notMem_scratch' h
      refine hb.within hw hS (Set.notMem_empty _) (fun _ h => ?_) fun i _ => Set.notMem_empty i
      rcases h with h | h
      · have := congrArg List.dropLast h
        rw [dropLast_partialPath, dropLast_finalPath] at this
        exact partialsDirectory_ne_self this.symm
      · exact partialPath_notMem_scratch hf h

/-- No receipt is about the filename. -/
def Unreceipted (dest : Path) (fs : Fs) (filename : String) : Prop :=
  ∀ T receipt, fs.receipt dest T = some receipt → receipt.filename ≠ filename

/-- Where a partial file is no backing, and there is no final file, no receipt is about it. -/
theorem Accounted.unreceipted (h : Accounted dest fs) (hs : Spared dest fs offer)
    (hR : fs.names (completionReceiptPath dest offer.transferId) = none)
    (hD : fs.names (finalPath dest offer.filename) = none) :
    Unreceipted dest fs offer.filename ∧ ∀ T receipt i, fs.receipt dest T = some receipt →
      fs.names (partialPath dest offer.filename) = some (.file i) → ¬Backs dest fs receipt i := by
  have hs := (hs.resolve_left (not_not.mpr hR)).resolve_left (not_not.mpr hD)
  refine ⟨fun T receipt hr hf => ?_, hs⟩
  obtain ⟨i, hi⟩ := Fs.names_of_receipt hr
  obtain ⟨receipt', hr', -, hb⟩ := h.backed T (by simp [hi])
  obtain rfl : receipt = receipt' := Option.some.inj (hr.symm.trans hr')
  obtain ⟨hn, j, hj, -⟩ := hb.resolve_left fun ⟨j, hj, _⟩ => by simp [hf, hD] at hj
  rw [hf] at hj
  exact hs T receipt j hr hj (.inr ⟨hn, by rwa [hf]⟩)

/-- A transfer under way acts on its scratch files, and writes to the partial file. -/
theorem Accounted.underway {J : Set ℕ} (h : Accounted dest fs)
    (hu : Unreceipted dest fs offer.filename)
    (hJ : ∀ T receipt, fs.receipt dest T = some receipt → ∀ i ∈ J, ¬Backs dest fs receipt i)
    (hJ' : ∀ T, ∀ i ∈ J, fs.names (completionReceiptPath dest T) ≠ some (.file i))
    (hw : Fs.Within (directories dest) (scratch (partialPath dest offer.filename)) J fs fs') :
    Accounted dest fs' ∧ Unreceipted dest fs' offer.filename := by
  have hR {T : TransferId} : completionReceiptPath dest T ∉
      scratch (partialPath dest offer.filename) := fun h => completionReceiptPath_notMem (.inr h)
  have main {T : TransferId} (hT : fs'.names (completionReceiptPath dest T) ≠ none) :
      ∃ receipt, fs'.receipt dest T = some receipt ∧ isSafeFilename receipt.filename ∧
        receipt.filename ≠ offer.filename ∧ Backed dest fs' receipt := by
    rw [hw.names_eq' hR completionReceiptPath_notMem_directories] at hT
    obtain ⟨receipt, hr, hsafe, hb⟩ := h.backed T hT
    have hf := hu T receipt hr
    refine ⟨receipt, hw.receipt_eq hr hR fun i hi hiJ => hJ' T i hiJ hi, hsafe, hf, ?_⟩
    exact hb.within hw finalPath_notMem_scratch' (finalPath_notMem_directories hsafe)
      (fun _ => partialPath_notMem_scratch hf) fun i hi hiJ => hJ T receipt hr i hiJ hi
  refine ⟨⟨fun T hT => ?_, fun T i p hT hp =>
    h.own_within hw hR completionReceiptPath_notMem_directories hT hp⟩, fun T receipt hr => ?_⟩
  · obtain ⟨receipt, hr, hsafe, -, hb⟩ := main hT
    exact ⟨receipt, hr, hsafe, hb⟩
  · obtain ⟨i, hi⟩ := Fs.names_of_receipt hr
    obtain ⟨receipt', hr', -, hf, -⟩ := main (T := T) (by simp [hi])
    obtain rfl : receipt = receipt' := Option.some.inj (hr.symm.trans hr')
    exact hf

/-- Committing a transfer adds a receipt that is backed. -/
theorem Accounted.committing {b : Bytes} {i : ℕ} (h : Accounted dest fs)
    (hsafe : isSafeFilename offer.filename) (hu : Unreceipted dest fs offer.filename)
    (hR : fs.names (completionReceiptPath dest offer.transferId) = none) (hi : i < fs.next)
    (hdata : fs.data i = b) (hlen : b.length = offer.fileSize.toNat)
    (hc : Committing dest offer (blake3 b) i fs fs') : Accounted dest fs' := by
  set S : Set Path := insert (finalPath dest offer.filename)
    (scratch (partialPath dest offer.filename) ∪ receiptNames dest offer.transferId)
  have hw : Fs.Within (directories dest) S ∅ fs fs' :=
    hc.within.mono Set.subset_union_right le_rfl fun _ h => .inl h
  have hRT {T : TransferId} (hT : T ≠ offer.transferId) : completionReceiptPath dest T ∉ S := by
    rintro (h | h | h | h)
    · exact completionReceiptPath_notMem (.inl h)
    · exact completionReceiptPath_notMem (.inr h)
    · exact completionReceiptPath_ne_temporaryPath h
    · exact hT (completionReceiptPath_inj.mp h)
  have hnew (hT : fs'.names (completionReceiptPath dest offer.transferId) ≠ none) :
      fs.ReceiptPublished dest (receiptForOffer offer (blake3 b)) fs' := by
    refine hc.kept.resolve_left fun h => hT ?_
    rw [← hR]
    exact h
  refine ⟨fun T hT => ?_, fun T j p hT hp => ?_⟩
  · by_cases hTo : T = offer.transferId
    · subst hTo
      have hname : offer.filename ≠ "" := by
        rintro h
        rw [h] at hsafe
        revert hsafe
        decide
      refine ⟨_, (hnew hT).receipt_eq hname, hsafe, ?_⟩
      have hm : Matches (receiptForOffer offer (blake3 b)) (fs'.data i) := by
        rw [hw.data i hi (Set.notMem_empty _), hdata]
        exact ⟨hlen, rfl⟩
      rcases hc.place with ⟨hD, hP⟩ | ⟨-, hD, -⟩
      · exact .inr ⟨hD, i, hP, hm⟩
      · exact .inl ⟨i, hD, hm⟩
    · rw [hw.names_eq' (hRT hTo) completionReceiptPath_notMem_directories] at hT
      obtain ⟨receipt, hr, hsafe', hb⟩ := h.backed T hT
      have hf := hu T receipt hr
      have hD : finalPath dest receipt.filename ∉ S := by
        rintro (h | h | h)
        · exact hf (finalPath_inj.mp h)
        · exact finalPath_notMem_scratch' h
        · exact notMem_receiptNames (by simp) h
      have hP : partialPath dest receipt.filename ∉ S := by
        rintro (h | h | h)
        · have := congrArg List.dropLast h
          rw [dropLast_partialPath, dropLast_finalPath] at this
          exact partialsDirectory_ne_self this.symm
        · exact partialPath_notMem_scratch hf h
        · exact notMem_receiptNames (by simpa using receiptsDirectory_ne_partialsDirectory.symm) h
      exact ⟨receipt, hw.receipt_eq hr (hRT hTo) fun i _ => Set.notMem_empty i, hsafe',
        hb.within hw hD (finalPath_notMem_directories hsafe') (fun _ => hP)
          fun i _ => Set.notMem_empty i⟩
  · by_cases hTo : T = offer.transferId
    · subst hTo
      obtain ⟨-, k, -, hk, -, hown⟩ := hnew (by simp [hT])
      obtain rfl : k = j := by simpa using hk.symm.trans hT
      exact hown p hp
    · exact h.own_within hw (hRT hTo) completionReceiptPath_notMem_directories hT hp

/-- What a transfer under way has done up to the end of its data stage. -/
theorem Underway.within {prepared : PreparedTransfer} {bytes : Bytes}
    (h : Underway dest offer fs fs₁ prepared es bytes) {b : Bytes} :
    Fs.Within (directories dest) (scratch (partialPath dest offer.filename))
      {i | fs.names (partialPath dest offer.filename) = some (.file i)} fs
      (fs₁.setData prepared.output.ino b) := by
  obtain ⟨fs₀, hmade, hprep⟩ := h.prepared
  set J : Set ℕ := {i | fs.names (partialPath dest offer.filename) = some (.file i)}
  have hw : Fs.Within (directories dest) (scratch (partialPath dest offer.filename)) J fs fs₁ :=
    (hmade.mono le_rfl (Set.empty_subset _) (by simp)).trans
      (hprep.within.mono (Set.empty_subset _) le_rfl (by simp))
  refine hw.trans' (.setData (J := {prepared.output.ino}) (.inl rfl)) ?_
  rintro i rfl
  refine hprep.ino.imp (fun hi => ?_) fun hi => hmade.next.trans hi
  rwa [hmade.names_eq' (Set.notMem_empty _)
    (notMem_directories partialPath_ne_nil (.inl (by simp)))] at hi

/-- **One session.** A session that spares the partial files which receipts are about keeps all
receipts backed. -/
theorem Accounted.ending (h : Accounted dest fs) (hsafe : isSafeFilename offer.filename)
    (hs : Spared dest fs offer) (he : Ending faults crashes dest offer fs o es fs') :
    Accounted dest fs' := by
  set P := partialPath dest offer.filename
  set J : Set ℕ := {i | fs.names P = some (.file i)}
  -- what follows from sparing when there is neither receipt nor final file
  have spared {fs₁ : Fs} (hR : fs.names (completionReceiptPath dest offer.transferId) = none)
      (hD : fs.names (finalPath dest offer.filename) = none)
      (hw : Fs.Within (directories dest) (scratch P) J fs fs₁) :
      Accounted dest fs₁ ∧ Unreceipted dest fs₁ offer.filename := by
    obtain ⟨hu, hb⟩ := h.unreceipted hs hR hD
    refine h.underway hu (fun T receipt hr i hi => hb T receipt i hr hi) (fun T i hi hT => ?_) hw
    have := h.own T i P hT hi
    have hd := congrArg List.dropLast this
    simp only [P, dropLast_partialPath, dropLast_completionReceiptPath] at hd
    exact receiptsDirectory_ne_partialsDirectory hd.symm
  have widen {fs₀ fs₁ : Fs} (h : Fs.Within ∅ (scratch P) ∅ fs₀ fs₁) :
      Fs.Within (directories dest) (scratch P) J fs₀ fs₁ :=
    h.mono (Set.empty_subset _) le_rfl (by simp)
  have widen' {fs₀ : Fs} (h : Made dest fs fs₀) :
      Fs.Within (directories dest) (scratch P) J fs fs₀ :=
    h.mono le_rfl (Set.empty_subset _) (by simp)
  cases he with
  | refused hm => exact h.made hm
  | settled hm hset => exact (h.made hm).settling hset
  | settling hm hset => exact (h.made hm).settling hset
  | unprepared hR hD hm hf => exact (spared hR hD ((widen' hm).trans (widen hf.within))).1
  | failed hu _ hf hleft =>
    obtain ⟨bs, rfl⟩ := hf.setData
    exact (spared hu.receipt hu.final (hu.within.trans (widen hleft.within))).1
  | halted hR hD hm hw hdata hw' =>
    refine (spared hR hD (.trans ?_ (widen hw'))).1
    have hfs₁ := (widen' hm).trans (widen hw)
    rcases hdata with rfl | ⟨i, bs, hi, rfl⟩
    · exact hfs₁
    · refine hfs₁.trans' (.setData (J := {i}) (.inl rfl)) ?_
      rintro j rfl
      refine hi.imp (fun hi => ?_) fun hi => hm.next.trans hi
      rwa [hm.names_eq' (Set.notMem_empty _)
        (notMem_directories partialPath_ne_nil (.inl (by simp)))] at hi
  | @committing prepared _ ps es es' fs₁ _ bytes b hu hb hlen hc =>
    obtain ⟨hacc, hun⟩ := spared hu.receipt hu.final (hu.within (b := b))
    obtain ⟨fs₀, hmade, hprep⟩ := hu.prepared
    refine hacc.committing hsafe hun ?_ ?_ (by simp) hlen hc
    · rw [hu.within.names_eq' (fun h => completionReceiptPath_notMem (.inr h))
        completionReceiptPath_notMem_directories]
      exact hu.receipt
    · simpa using fs₁.allocated _ _ hprep.ready.name

end Step

/-! ### Runs -/

/-- What the peer offers, if anything, spares the partial files which receipts are about. -/
def Sparing (dest : Path) (fs : Fs) (input : Bytes) : Prop :=
  ∀ payload offer, offering payload <+: input → decodeOffer payload = .ok offer → Spared dest fs offer

/-- The session answered with VERIFIED. -/
def Answered (es : List NetEvent) : Prop :=
  (∃ event ∈ es, event.Attempts .verified) ∧ ∀ event ∈ es, ¬event.Attempts .reject

theorem Run.accounted (h : Run dest (Sparing dest) fs fs') (hfs : Accounted dest fs) :
    Accounted dest fs' := by
  refine Run.invariant (fun fs input o es fs' hI hC he => ?_) h hfs
  cases he with
  | unopened => exact hI
  | offered hin hd hsafe he => exact hI.ending hsafe (hC _ _ hin hd) he

omit [Crates] in
/-- An offer of a safe filename has one payload. -/
private theorem opening_inj {payload payload' : Bytes} {es : List NetEvent}
    (h : opening payload <+: opening payload' ++ es) : payload = payload' := by
  obtain ⟨l, hl⟩ := h
  simp only [opening, Frame.new, List.cons_append, List.nil_append, List.cons.injEq, true_and,
    NetEvent.received.injEq, Frame.mk.injEq] at hl
  exact hl.1

omit [Crates] in
/-- Where a receipt stands there are its directories. -/
theorem creatable_of_receipt {T : TransferId}
    (h : fs.names (completionReceiptPath dest T) ≠ none) : fs.Creatable dest := by
  refine fun q hq => .inr (fs.rooted _ q h ?_ hq.1 ?_)
  · refine hq.2.trans (.trans ?_ (List.dropLast_prefix _))
    rw [dropLast_completionReceiptPath]
    exact ⟨_, (List.append_assoc dest _ _).symm⟩
  · rintro rfl
    have := hq.2.length_le
    simp [completionReceiptPath, receiptsDirectory, internalDirectory] at this

/-- **A receipt that is backed settles its offer**, where no call fails. -/
theorem Accounted.answered {input payload : Bytes} {T : TransferId} (h : Accounted dest fs)
    (hr : fs.receipt dest T = some receipt) (hsafe : isSafeFilename receipt.filename)
    (hd : decodeOffer payload = .ok ⟨T, receipt.filename, receipt.fileSize⟩)
    (he : SessionEnding false false dest fs input o es fs') (hes : opening payload <+: es) :
    Answered es := by
  obtain ⟨j, hj⟩ := Fs.names_of_receipt hr
  have hR : fs.names (completionReceiptPath dest T) ≠ none := by simp [hj]
  cases he with
  | unopened _ hu => exact absurd hsafe (hu.offer payload _ hes hd)
  | @offered es _ payload' offer _ hd' _ he =>
    obtain rfl := opening_inj hes
    obtain rfl : ⟨T, receipt.filename, receipt.fileSize⟩ = offer := by simpa [hd] using hd'
    have hwrote (event : NetEvent) (hev : event ∈ opening payload) (t : MessageType)
        (ht : event.Attempts t) : t = .helloAck := by
      simp only [opening, List.mem_cons, List.not_mem_nil, or_false] at hev
      rcases hev with rfl | rfl | rfl
      · simp at ht
      · exact (attempts_sent.mp ht).symm
      · simp at ht
    cases he with
    | refused hm _ ho =>
      -- all is there that settling needs
      have hacc := h.made hm
      have hr' := hm.receipt_eq hr (Set.notMem_empty _) fun i _ => Set.notMem_empty i
      obtain ⟨i, hi⟩ := Fs.names_of_receipt hr'
      obtain ⟨receipt', hr'', -, hb⟩ := hacc.backed T (by simp [hi])
      obtain rfl : receipt = receipt' := Option.some.inj (hr'.symm.trans hr'')
      have hcreate := creatable_of_receipt hR
      rcases ho with hc | hf | hc | hns
      · simp at hc
      · simp at hf
      · exact absurd hcreate hc
      · exact absurd ⟨receipt, ⟨hr', rfl, rfl⟩, hb⟩ hns
    | settled _ _ _ hcl =>
      refine ⟨?_, fun event hev ht => ?_⟩
      · cases hcl <;> exact ⟨_, List.mem_append_right _ (List.mem_singleton_self _), by simp⟩
      · rcases List.mem_append.mp hev with hev | hev
        · simpa using hwrote event hev _ ht
        · cases hcl <;> simp [List.mem_singleton.mp hev] at ht
    | settling _ _ ho => rcases ho with hc | hc <;> simp at hc
    | unprepared hn => exact absurd hn hR
    | failed hu => exact absurd hu.receipt hR
    | halted hn => exact absurd hn hR
    | committing hu => exact absurd hu.receipt hR

/-- **Receipts are not orphaned.** After a run of sessions that act on no partial file which a
receipt is about, every receipt is about a file that is there, and the next offer under its
Transfer ID is answered with VERIFIED. -/
theorem receipts_backed_of_sparing {start : Fs}
    (hstart : ∀ T, start.names (completionReceiptPath dest T) = none)
    (h : Run dest (Sparing dest) start fs) :
    ∀ T, fs.names (completionReceiptPath dest T) ≠ none → ∃ receipt,
      fs.receipt dest T = some receipt ∧
      (Holds fs (finalPath dest receipt.filename) receipt ∨
        Holds fs (partialPath dest receipt.filename) receipt) ∧
      ∀ (disk : Disk (.alone false false)) (net : Net) (payload : Bytes), disk.fs = fs →
        decodeOffer payload = .ok ⟨T, receipt.filename, receipt.fileSize⟩ →
        opening payload <+: (receiveConnection dest (.start disk net)).2.log.map Prod.fst →
        Answered ((receiveConnection dest (.start disk net)).2.log.map Prod.fst) := by
  intro T hT
  have hacc : Accounted dest fs :=
    h.accounted ⟨fun T hT => absurd (hstart T) hT, fun T i p hi _ => by simp [hstart T] at hi⟩
  obtain ⟨receipt, hr, hsafe, hb⟩ := hacc.backed T hT
  refine ⟨receipt, hr, hb.imp_right And.right, fun disk net payload hfs hd hes => ?_⟩
  obtain ⟨es, hend, l, hl, rfl, -⟩ := (receiveConnection_spec (w := .start disk net)).apply
  rw [show (World.start disk net).log ++ l = l from List.nil_append l] at hl
  rw [hl] at hes ⊢
  subst hfs
  exact hacc.answered hr hsafe hd hend hes

end

/-- A disk without files, and a process that is killed in its call `n`. -/
def emptyDiskUntil (n : ℕ) : Disk (.alone true true) :=
  ⟨.empty, List.replicate n (.go 0) ++ [.crash rfl 0]⟩

/-- Another transfer of the filename, which is cut off after its first byte. -/
def otherFile : Net :=
  .closed (encodings [Frame.new .hello [wfpVersion],
    Frame.new .offer (FileOffer.payload ⟨Block.ofBytes 16 [2], "a", 1⟩), Frame.new .data [120]])

open scoped SerdeJson in
theorem receipts_backed_of_sparing_killed : ∃ receipt,
    (receiveConnection ["d"] (.start (emptyDiskUntil 42) emptyFile)).2.fs.receipt ["d"]
      (Block.ofBytes 16 [1]) = some receipt := by
  have hrun : Run ["d"] (Sparing ["d"]) .empty
      (receiveConnection ["d"] (.start (emptyDiskUntil 42) emptyFile)).2.fs := by
    refine .single (.intro (emptyDiskUntil 42) emptyFile fun payload offer _ _ => ?_)
    refine .inr (.inr fun T receipt i hr => ?_)
    rw [Fs.receipt_eq_none rfl] at hr
    simp at hr
  obtain ⟨receipt, hr, -⟩ := receipts_backed_of_sparing (fun _ => rfl) hrun (Block.ofBytes 16 [1])
    (by decide +kernel)
  exact ⟨receipt, hr⟩

open scoped SerdeJson in
/-- A transfer of another Transfer ID writes over the partial file that a receipt is about. -/
theorem receipt_orphaned : ¬∀ start fs : Fs,
    (∀ T, start.names (completionReceiptPath ["d"] T) = none) →
    Run ["d"] (fun _ _ => True) start fs →
    ∀ T, fs.names (completionReceiptPath ["d"] T) ≠ none → ∃ receipt,
      fs.receipt ["d"] T = some receipt ∧
      (Holds fs (finalPath ["d"] receipt.filename) receipt ∨
        Holds fs (partialPath ["d"] receipt.filename) receipt) := by
  intro h
  obtain ⟨fs₁, hfs₁⟩ :
      ∃ fs, fs = (receiveConnection ["d"] (.start (emptyDiskUntil 42) emptyFile)).2.fs := ⟨_, rfl⟩
  have hrun₁ : Run ["d"] (fun _ _ => True) .empty fs₁ := by
    rw [hfs₁]
    exact .single (.intro (emptyDiskUntil 42) emptyFile trivial)
  obtain ⟨fs₂, hfs₂⟩ : ∃ fs, fs = (receiveConnection ["d"]
      (.start (⟨fs₁, []⟩ : Disk (.alone true true)) otherFile)).2.fs := ⟨_, rfl⟩
  have hrun₂ : Run ["d"] (fun _ _ => True) fs₁ fs₂ := by
    rw [hfs₂]
    exact .single (.intro (⟨fs₁, []⟩ : Disk (.alone true true)) otherFile trivial)
  obtain ⟨receipt, hr, hh⟩ := h .empty fs₂ (fun _ => rfl) (hrun₁.trans hrun₂)
    (Block.ofBytes 16 [1]) (by rw [hfs₂, hfs₁]; decide +kernel)
  have hread : fs₂.read (completionReceiptPath ["d"] (Block.ofBytes 16 [1])) =
      some (encodeCompletionReceipt ⟨Block.ofBytes 16 [1], "a", 0, digestOf []⟩) := by
    rw [hfs₂, hfs₁]
    decide +kernel
  obtain rfl : (⟨Block.ofBytes 16 [1], "a", 0, digestOf []⟩ : CompletionReceipt) = receipt := by
    simpa [Fs.receipt, hread, decode_encodeCompletionReceipt, Except.toOption] using hr
  have hD : fs₂.names (finalPath ["d"] "a") = none := by
    rw [hfs₂, hfs₁]
    decide +kernel
  have hP : fs₂.read (partialPath ["d"] "a") = some [120] := by
    rw [hfs₂, hfs₁]
    decide +kernel
  rcases hh with ⟨i, hi, -⟩ | ⟨i, hi, hm⟩
  · simp [hD] at hi
  · obtain ⟨j, hj, hdata⟩ := Fs.read_eq_some.mp hP
    obtain rfl : i = j := by simpa using hi.symm.trans hj
    simpa [hdata] using hm.size

end Warpfile.V02
