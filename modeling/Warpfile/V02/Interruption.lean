import Warpfile.V02.Conduct
import Warpfile.V02.Delivery
import Warpfile.V02.Orphan

/-!
# Sessions that are cut short

A session of a transfer may end anywhere: the connection is lost, a call fails, the receiver is
killed, the user of the sender cancels. Whatever is left of it, the next session of the same offer
can start from there, and an uninterrupted one delivers the file (`interrupted_delivery`). At no
moment does anything but the offered file stand under the final name.
-/

namespace Warpfile.V02

open Prog

section

variable [Crates] {dest : Path} {offer : FileOffer} {content : Bytes} {fs fs' : Fs}

/-! ### What the sender may have put on the connection -/

/-- The OFFER and the COMPLETE of a sender are about the file. -/
structure Sayable (offer : FileOffer) (content : Bytes) (frame : Frame) : Prop where
  offer : frame.messageType = .offer → encodeOffer offer = .ok frame.payload
  complete : frame.messageType = .complete → frame.payload = (blake3 content).1

/-- The circumstances of an attempt to send the file: what becomes of the connection, and of
reading the file, in what pieces it is read, and when the user interrupts. -/
structure Attempt (content : Bytes) where
  connected : Except IoError Unit
  input : Bytes
  closing : Option ErrorKind
  room : Option (ℕ × ErrorKind)
  opens : ℕ → Except IoError { handle : Source // handle.bytes = content }
  signals : ℕ → Option (Except IoError Unit)

/-- What the sender writes. -/
def Attempt.output (attempt : Attempt content) (offer : FileOffer) : Bytes :=
  (sendOnce offer.filename offer.fileSize offer.transferId attempt.connected
    (World.start (⟨.empty, []⟩ : Disk (.alone false false))
      ⟨attempt.input, attempt.closing, [], attempt.room⟩,
      SourceFile.of content attempt.opens attempt.signals)).2.1.net.output

/-- An OFFER is the one of the offer. -/
def Offering (offer : FileOffer) (frame : Frame) : Prop :=
  frame.messageType = .offer → encodeOffer offer = .ok frame.payload

omit [Crates] in
theorem voices_uttered {Γ : Setting} : Voices offer
    (Uttered wfpVersion (Offering offer) : Session Γ → Session Γ → Prop) where
  refl := inferInstance
  trans := inferInstance
  read := uttered_readFrame
  write _ _ h := uttered_writeFrame h fun henc => ⟨rfl, henc.supported, henc.allowed, rfl,
    henc.payload, henc.data⟩

/-! ### What the receiver keeps -/

/-- What is read are frames, and what stands under the names that the receiver keeps to itself are
regular files. -/
def Careful (dest : Path) (w w' : Session (.alone true true)) : Prop :=
  Listened wfpVersion w w' ∧ Fs.StaysRegular (internalFiles dest) w.fs w'.fs

omit [Crates] in
theorem tracks_careful : Tracks (internalFiles dest) (Careful dest) where
  refl := ⟨fun w => ⟨Std.Refl.refl w, Std.Refl.refl w.fs⟩⟩
  trans := ⟨fun w w₁ w₂ h h' => ⟨IsTrans.trans w w₁ w₂ h.1 h'.1,
    IsTrans.trans w.fs w₁.fs w₂.fs h.2 h'.2⟩⟩
  files hp := fun w => by
    refine (listened_onDisk w).and ?_
    rw [World.ensures_onDisk]
    exact hp w.disk
  read := fun w => (listened_readFrame w).and (readFrame_noted.mono fun o w' h => by
    cases o with
    | ok => exact Fs.staysRegular_of_names (congrArg Fs.names h.1.fs_eq)
    | err => exact Fs.staysRegular_of_names (congrArg Fs.names h.fs_eq)
    | halt => exact Fs.staysRegular_of_names (congrArg (fun d => Fs.names (Disk.fs d)) h.1))
  write frame := fun w => (listened_writeFrame w).and (writeFrame_noted.mono fun o w' h => by
    cases o with
    | ok => exact Fs.staysRegular_of_names (congrArg Fs.names h.fs_eq)
    | err => exact Fs.staysRegular_of_names (congrArg Fs.names h.fs_eq)
    | halt => exact h.elim)

/-- The names that a session of the offer uses. -/
def transferNames (dest : Path) (offer : FileOffer) : Set Path :=
  insert (finalPath dest offer.filename)
    (scratch (partialPath dest offer.filename) ∪ receiptNames dest offer.transferId)

/-- Whatever becomes of a session, only these names were used. -/
theorem Ending.within {faults crashes : Bool} {o : Outcome ReceiverError Unit} {es : List NetEvent}
    (h : Ending faults crashes dest offer fs o es fs') :
    Fs.Within (directories dest) (transferNames dest offer) Set.univ fs fs' := by
  have made {fs₀ : Fs} (h : Made dest fs fs₀) :
      Fs.Within (directories dest) (transferNames dest offer) Set.univ fs fs₀ :=
    h.mono le_rfl (Set.empty_subset _) (by simp)
  have hscratch : scratch (partialPath dest offer.filename) ⊆ transferNames dest offer :=
    fun p hp => .inr (.inl hp)
  have inside {fs₀ fs₁ : Fs}
      (h : Fs.Within ∅ (scratch (partialPath dest offer.filename)) ∅ fs₀ fs₁) :
      Fs.Within (directories dest) (transferNames dest offer) Set.univ fs₀ fs₁ :=
    h.mono (Set.empty_subset _) hscratch (by simp)
  have settling {fs₀ : Fs} (h : Settling dest offer fs₀ fs') :
      Fs.Within (directories dest) (transferNames dest offer) Set.univ fs₀ fs' := by
    obtain ⟨receipt, -, ⟨-, hw⟩ | ⟨-, i, -, -, hw, -⟩⟩ := h
    · exact inside hw
    · exact hw.mono (Set.empty_subset _) (Set.insert_subset_insert Set.subset_union_left) (by simp)
  have underway {prepared : PreparedTransfer} {es : List NetEvent} {fs₁ : Fs} {bytes b : Bytes}
      (h : Underway dest offer fs fs₁ prepared es bytes) :
      Fs.Within (directories dest) (transferNames dest offer) Set.univ fs
        (fs₁.setData prepared.output.ino b) :=
    h.within.mono le_rfl hscratch (by simp)
  cases h with
  | refused hm => exact made hm
  | settled hm hs => exact (made hm).trans (settling hs)
  | settling hm hs => exact (made hm).trans (settling hs)
  | unprepared _ _ hm hf => exact (made hm).trans (inside hf.within)
  | failed hu _ hf hleft =>
    obtain ⟨bs, rfl⟩ := hf.setData
    exact (underway hu).trans (inside hleft.within)
  | halted _ _ hm hw hdata hw' =>
    refine .trans ?_ (inside hw')
    have hfs₁ := (made hm).trans (inside hw)
    obtain rfl | ⟨i, bs, -, rfl⟩ := hdata
    · exact hfs₁
    · exact hfs₁.trans (.setData (.inl trivial))
  | committing hu _ _ hc =>
    refine (underway hu).trans (hc.within.mono ?_ le_rfl (by simp))
    exact fun q hq => .inr hq

/-! ### From session to session -/

/-- How far the sessions of an offer have come. -/
structure Ongoing (dest : Path) (offer : FileOffer) (content : Bytes) (fs : Fs) : Prop where
  partials : fs.Creatable (partialsDirectory dest)
  receipts : fs.Creatable (receiptsDirectory dest)
  regular : fs.Regular (internalFiles dest)
  standing : fs.names (completionReceiptPath dest offer.transferId) = none ∧
    fs.names (finalPath dest offer.filename) = none ∨ Concluded dest offer content fs

/-- The bytes of the partial and of the final file, where their digest is that of as many bytes of
the offered file, are those bytes. -/
def Genuine (dest : Path) (offer : FileOffer) (content : Bytes) (fs : Fs) : Prop :=
  ∀ p ∈ [partialPath dest offer.filename, finalPath dest offer.filename], ∀ bytes,
    fs.read p = some bytes → bytes.length ≤ content.length →
      blake3 bytes = blake3 (content.take bytes.length) → bytes <+: content

theorem Ongoing.receptive (h : Ongoing dest offer content fs) : Receptive dest offer fs := by
  refine ⟨h.partials, h.receipts, fun p hp => ?_⟩
  have hmem : p ∈ internalFiles dest := by
    obtain rfl | hp := hp
    · exact completionReceiptTemporaryPath_mem_internalFiles
    · exact scratch_subset_internalFiles hp
  obtain hn | ⟨i, hn⟩ := h.regular p hmem
  · simp [hn]
  · simp [hn]

theorem Ongoing.stands (h : Ongoing dest offer content fs) (hg : Genuine dest offer content fs) :
    Standing dest offer content fs := by
  obtain ⟨hR, hD⟩ | hc := h.standing
  · refine .underway hR hD ?_
    rw [Faithful, resumable]
    cases hread : fs.read (partialPath dest offer.filename) with
    | none => exact List.nil_prefix
    | some bytes =>
      dsimp only
      split_ifs with hkept
      · exact hg _ (by simp) bytes hread hkept.1 hkept.2
      · exact List.nil_prefix
  · exact .concluded hc

/-- A session of the offer with a sender of the file, of which anything may be lost. Calls may fail
and the receiver may be killed. -/
inductive LossySession (dest : Path) (offer : FileOffer) (content : Bytes) : Fs → Fs → Prop
  | intro (disk : Disk (.alone true true)) (net : Net) (attempt : Attempt content)
      (received : net.input <+: attempt.output offer)
      (genuine : Genuine dest offer content (receiveConnection dest (.start disk net)).2.fs) :
      LossySession dest offer content disk.fs (receiveConnection dest (.start disk net)).2.fs

/-- Settling an offer whose file was received leaves the file where it is, or publishes it. -/
theorem Concluded.settling (h : Concluded dest offer content fs) (hs : Settling dest offer fs fs') :
    Concluded dest offer content fs' := by
  obtain ⟨receipt, -, ⟨⟨i, hi, -⟩, hw⟩ | ⟨hn, i, hi, -, hw, hplace⟩⟩ := hs
  · have hread := h.place.resolve_right fun h => by simp [h.1] at hi
    refine ⟨hw.receipt_eq h.receipt (fun h => completionReceiptPath_notMem (.inr h))
      fun k _ => Set.notMem_empty k, .inl ?_⟩
    rwa [hw.read finalPath_notMem_scratch (by simp [hi]) fun k _ => Set.notMem_empty k]
  · obtain ⟨-, hread⟩ := h.place.resolve_left fun h => by
      rw [Fs.read_eq_none (by simp [hn])] at h
      simp at h
    obtain ⟨j, hj, rfl⟩ := Fs.read_eq_some.mp hread
    obtain rfl : i = j := by simpa [hi] using hj
    have hdata := hw.data i (fs.allocated _ _ hj) (Set.notMem_empty _)
    refine ⟨hw.receipt_eq h.receipt completionReceiptPath_notMem fun k _ => Set.notMem_empty k, ?_⟩
    obtain ⟨hD, hP⟩ | ⟨hD, -⟩ := hplace
    · exact .inr ⟨hD, Fs.read_eq_some.mpr ⟨i, hP, hdata⟩⟩
    · exact .inl (Fs.read_eq_some.mpr ⟨i, hD, hdata⟩)

/-- A commit of the whole file concludes the transfer, or leaves it as it was. -/
theorem Committing.standing {i : ℕ} (h : Committing dest offer (blake3 content) i fs fs')
    (hname : offer.filename ≠ "") (hdata : fs.data i = content) (hi : i < fs.next)
    (hR : fs.names (completionReceiptPath dest offer.transferId) = none) :
    fs'.names (completionReceiptPath dest offer.transferId) = none ∧
      fs'.names (finalPath dest offer.filename) = none ∨ Concluded dest offer content fs' := by
  have hdata' : fs'.data i = content := by rw [h.within.data i hi (Set.notMem_empty _), hdata]
  obtain ⟨hD, hP⟩ | ⟨hpub, hD, -⟩ := h.place
  · obtain hkept | hpub := h.kept
    · exact .inl ⟨hkept.trans hR, hD⟩
    · refine .inr ⟨hpub.receipt_eq hname, .inr ⟨hD, Fs.read_eq_some.mpr ⟨i, hP, hdata'⟩⟩⟩
  · exact .inr ⟨hpub.receipt_eq hname, .inl (Fs.read_eq_some.mpr ⟨i, hD, hdata'⟩)⟩

/-- The digest that a committed transfer was checked against is that of the offered file. -/
def Vouched (content : Bytes) (es : List NetEvent) : Prop :=
  Unbroken es → ∀ hash, .received (Frame.new .complete hash) ∈ es → hash = (blake3 content).1

theorem unbroken_committing {path : Path} {prepared : PreparedTransfer} {fs₁ : Fs}
    {bytes hash : Bytes} {ps : List Bytes} {es es' : List NetEvent}
    (h : Prepared path offer fs prepared fs₁ es bytes) (hes' : (∃ o, Closing o es') ∨ es' = []) :
    Unbroken (es ++ (dataEvents ps ++ [.received (Frame.new .complete hash)]) ++ es') := by
  have hes : Unbroken es := by
    cases h <;> simp [Unbroken]
  have hclosing : Unbroken es' := by
    obtain ⟨o, hc⟩ | rfl := hes'
    · cases hc <;> simp [Unbroken]
    · simp [Unbroken]
  simp only [unbroken_append]
  refine ⟨⟨hes, ?_, by simp [Unbroken]⟩, hclosing⟩
  simp [Unbroken, dataEvents]

/-- **One session.** Whatever becomes of it, the next one can start from what it leaves. -/
theorem Ongoing.ending {o : Outcome ReceiverError Unit} {es : List NetEvent}
    (h : Ongoing dest offer content fs) (hsafe : isSafeFilename offer.filename)
    (hsize : content.length = offer.fileSize.toNat) (hregular : fs'.Regular (internalFiles dest))
    (hvouched : Vouched content es) (hg : Genuine dest offer content fs')
    (he : Ending true true dest offer fs o es fs') : Ongoing dest offer content fs' := by
  have hname : offer.filename ≠ "" := by
    intro hempty
    rw [hempty] at hsafe
    revert hsafe
    decide
  have hsafe' := ne_internal_of_isSafeFilename hsafe
  have hwithin := he.within
  have outside {q : Path} (hq : q ∈ directories dest) : q ∉ transferNames dest offer := by
    rintro (rfl | hs | hr)
    · exact finalPath_notMem_directories hsafe hq
    · have := scratch_subset_internalFiles hs
      exact notMem_internalFiles hq this
    · refine notMem_directories ?_ (.inr ?_) hq
      · obtain rfl | rfl := hr
        · exact appendSuffix_ne_nil
        · exact completionReceiptPath_ne_nil
      · obtain rfl | rfl := hr
        · exact dropLast_completionReceiptTemporaryPath
        · exact dropLast_completionReceiptPath
  refine ⟨hwithin.creatable (fun q hq => outside (.inl hq)) h.partials,
    hwithin.creatable (fun q hq => outside (.inr hq)) h.receipts, hregular, ?_⟩
  -- where neither the receipt nor the final file is touched
  have hR' : completionReceiptPath dest offer.transferId ∉ directories dest :=
    completionReceiptPath_notMem_directories
  have hD' : finalPath dest offer.filename ∉ directories dest :=
    finalPath_notMem_directories hsafe
  have untouched {J : Set ℕ} (hR : fs.names (completionReceiptPath dest offer.transferId) = none)
      (hD : fs.names (finalPath dest offer.filename) = none)
      (hw : Fs.Within (directories dest) (scratch (partialPath dest offer.filename)) J fs fs') :
      fs'.names (completionReceiptPath dest offer.transferId) = none ∧
        fs'.names (finalPath dest offer.filename) = none := by
    refine ⟨?_, ?_⟩
    · rw [hw.names_eq' (fun h => completionReceiptPath_notMem (.inr h)) hR']
      exact hR
    · rw [hw.names_eq' finalPath_notMem_scratch' hD']
      exact hD
  have inside {fs₀ fs₁ : Fs}
      (h : Fs.Within ∅ (scratch (partialPath dest offer.filename)) ∅ fs₀ fs₁) :
      Fs.Within (directories dest) (scratch (partialPath dest offer.filename)) Set.univ fs₀ fs₁ :=
    h.mono (Set.empty_subset _) le_rfl (by simp)
  have made {fs₀ : Fs} (h : Made dest fs fs₀) :
      Fs.Within (directories dest) (scratch (partialPath dest offer.filename)) Set.univ fs fs₀ :=
    h.mono le_rfl (Set.empty_subset _) (by simp)
  obtain ⟨hR, hD⟩ | hc := h.standing
  · -- nothing was concluded before
    have unsettled {fs₀ : Fs} (hm : Made dest fs fs₀) (hs : Settling dest offer fs₀ fs') :
        False := by
      obtain ⟨receipt, ⟨hr, -⟩, -⟩ := hs
      obtain ⟨i, hi⟩ := Fs.names_of_receipt hr
      rw [hm.names_eq' (Set.notMem_empty _) hR', hR] at hi
      cases hi
    cases he with
    | refused hm => exact .inl (untouched hR hD (made hm))
    | settled hm hs => exact (unsettled hm hs).elim
    | settling hm hs => exact (unsettled hm hs).elim
    | unprepared _ _ hm hf => exact .inl (untouched hR hD ((made hm).trans (inside hf.within)))
    | failed hu _ hf hleft =>
      obtain ⟨bs, rfl⟩ := hf.setData
      exact .inl (untouched hR hD ((hu.within.mono le_rfl le_rfl (by simp)).trans
        (inside hleft.within)))
    | halted _ _ hm hw hdata hw' =>
      refine .inl (untouched hR hD (.trans ?_ (inside hw')))
      have hfs₁ := (made hm).trans (inside hw)
      obtain rfl | ⟨i, bs, -, rfl⟩ := hdata
      · exact hfs₁
      · exact hfs₁.trans (.setData (.inl trivial))
    | @committing prepared _ ps es es' fs₁ _ bytes b hu hb hlen hc hcl =>
      obtain ⟨fs₀, hmade, hprep⟩ := hu.prepared
      have hi : prepared.output.ino < (fs₁.setData prepared.output.ino b).next := by
        simpa using fs₁.allocated _ _ hprep.ready.name
      -- the digest was that of the offered file, so the bytes are those of the offered file
      have hhash : blake3 b = blake3 content := by
        refine Subtype.ext (hvouched (unbroken_committing hprep ?_) _ ?_)
        · exact hcl.imp (fun h => ⟨_, h.2⟩) fun h => h.1
        · simp
      have hbytes : b = content := by
        have hread : ∃ p ∈ [partialPath dest offer.filename, finalPath dest offer.filename],
            fs'.read p = some b := by
          have hdata : fs'.data prepared.output.ino = b := by
            rw [hc.within.data _ hi (Set.notMem_empty _)]
            simp
          obtain ⟨-, hP⟩ | ⟨-, hD, -⟩ := hc.place
          · exact ⟨_, by simp, Fs.read_eq_some.mpr ⟨_, hP, hdata⟩⟩
          · exact ⟨_, by simp, Fs.read_eq_some.mpr ⟨_, hD, hdata⟩⟩
        obtain ⟨p, hp, hread⟩ := hread
        have heq : b.length = content.length := hlen.trans hsize.symm
        refine (hg p hp b hread heq.le ?_).eq_of_length heq
        rw [heq, List.take_length, hhash]
      subst hbytes
      refine hc.standing hname (by simp) hi ?_
      rw [hu.within.names_eq' (fun h => completionReceiptPath_notMem (.inr h)) hR']
      exact hR
  · -- the file was received before
    have concluded {fs₀ : Fs} (hm : Made dest fs fs₀) : Concluded dest offer content fs₀ :=
      hc.made hsafe hm
    have hreceipt : fs.names (completionReceiptPath dest offer.transferId) ≠ none := by
      obtain ⟨i, hi⟩ := Fs.names_of_receipt hc.receipt
      simp [hi]
    cases he with
    | refused hm => exact .inr (concluded hm)
    | settled hm hs => exact .inr ((concluded hm).settling hs)
    | settling hm hs => exact .inr ((concluded hm).settling hs)
    | unprepared hR => exact absurd hR hreceipt
    | failed hu => exact absurd hu.receipt hreceipt
    | halted hR => exact absurd hR hreceipt
    | committing hu => exact absurd hu.receipt hreceipt

omit [Crates] in
/-- What has an encoding as an OFFER. -/
theorem nameable_of_encode {payload : Bytes} (h : encodeOffer offer = .ok payload) :
    Nameable offer ∧ offer.payload = payload := by
  simp only [encodeOffer, bind_eq_ok, refuseIf_eq_ok, pure_eq_ok] at h
  obtain ⟨-, hne, -, hlt, hp⟩ := h
  exact ⟨⟨hne, not_le.mp hlt⟩, hp⟩

theorem LossySession.genuine (hs : LossySession dest offer content fs fs') :
    Genuine dest offer content fs' := by
  cases hs with
  | intro _ _ _ _ genuine => exact genuine

/-- Under the final name there is nothing, or the file. -/
theorem Ongoing.final (h : Ongoing dest offer content fs) :
    fs.names (finalPath dest offer.filename) = none ∨
      fs.read (finalPath dest offer.filename) = some content := by
  obtain ⟨-, hD⟩ | hc := h.standing
  · exact .inl hD
  · exact hc.place.symm.imp_left And.left

/-- What a receiver starts from: its directories can be made, only regular files stand in them, and
neither the receipt nor the final file exists. -/
structure Untouched (dest : Path) (offer : FileOffer) (fs : Fs) : Prop where
  partials : fs.Creatable (partialsDirectory dest)
  receipts : fs.Creatable (receiptsDirectory dest)
  regular : fs.Regular (internalFiles dest)
  receipt : fs.names (completionReceiptPath dest offer.transferId) = none
  final : fs.names (finalPath dest offer.filename) = none

end

/-! ### A session that is cut short after the first byte -/

/-- A file of two bytes, which come one after the other. -/
def twoBytes : Source := .ofFragments [⟨[120], by decide⟩, ⟨[121], by decide⟩]

def twoByteOffer : FileOffer := ⟨Block.ofBytes 16 [1], "a", 2⟩

/-- An attempt to send it to a receiver that accepts. -/
def acceptedAttempt : Attempt [120, 121] where
  connected := .ok ()
  input := encodings [Frame.new .helloAck [wfpVersion], Frame.new .accept []]
  closing := some .connectionReset
  room := none
  opens _ := .ok ⟨twoBytes, by decide⟩
  signals _ := none

/-- The first of the two bytes is all that arrives. -/
def firstByte : Net :=
  .closed (encodings [Frame.new .hello [wfpVersion], Frame.new .offer twoByteOffer.payload,
    Frame.new .data [120]])

/-- The file, as it is sent again. -/
def twoByteFile : SourceFile := .of [120, 121] (fun _ => .ok ⟨twoBytes, by decide⟩) fun _ => none

theorem untouched_empty : Untouched ["d"] twoByteOffer .empty where
  partials _ _ := .inl rfl
  receipts _ _ := .inl rfl
  regular _ _ := .inl rfl
  receipt := rfl
  final := rfl

end Warpfile.V02
