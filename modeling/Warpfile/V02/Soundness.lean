import Warpfile.Storage.SerdeJson
import Warpfile.V02.Ending

/-!
# What VERIFIED means

When the receiver writes VERIFIED, the final file exists and the stored receipt of the Transfer
ID is about its bytes, whatever the peer sends and whatever stood on disk before. The bytes are
those on disk, also where a part of them was there before the session.
-/

namespace Warpfile.V02

open Prog

section

variable [Crates] {faults crashes : Bool} {dest : Path} {fs fs' : Fs}
  {o : Outcome ReceiverError Unit} {es : List NetEvent}

/-- What VERIFIED promises of the files `fs`, in a session with the notes `es`. -/
def VerifiedOver (dest : Path) (es : List NetEvent) (fs : Fs) : Prop :=
  ∃ payload offer receipt bytes, payloads .offer es = [payload] ∧ decodeOffer payload = .ok offer ∧
    fs.receipt dest offer.transferId = some receipt ∧ receipt.filename = offer.filename ∧
    receipt.fileSize = offer.fileSize ∧ fs.read (finalPath dest offer.filename) = some bytes ∧
    bytes.length = offer.fileSize.toNat ∧ blake3 bytes = receipt.blake3 ∧
    ∀ hash ∈ payloads .complete es, receipt.blake3.1 = hash

/-- The offered file is published under its receipt. -/
def Published (dest : Path) (offer : FileOffer) (receipt : CompletionReceipt) (fs : Fs) : Prop :=
  OfferReceipt dest offer fs receipt ∧ Holds fs (finalPath dest offer.filename) receipt

theorem Settling.published {offer : FileOffer} (h : Settling dest offer fs fs')
    (hD : fs'.names (finalPath dest offer.filename) ≠ none) :
    ∃ receipt, Published dest offer receipt fs' := by
  obtain ⟨receipt, ⟨hr, hid⟩, ⟨hh, hw⟩ | ⟨-, i, hi, hm, hw, hplace⟩⟩ := h
  · have hR := hw.receipt_eq hr (fun h => completionReceiptPath_notMem (.inr h))
      fun i _ => Set.notMem_empty i
    exact ⟨receipt, ⟨hR, hid⟩, hh.within hw finalPath_notMem_scratch fun i _ => Set.notMem_empty i⟩
  · have hR := hw.receipt_eq hr completionReceiptPath_notMem fun i _ => Set.notMem_empty i
    refine ⟨receipt, ⟨hR, hid⟩, i, ?_, ?_⟩
    · rcases hplace with ⟨h, -⟩ | ⟨h, -⟩
      · exact absurd h hD
      · exact h
    · rwa [hw.data i (fs.allocated _ _ hi) (Set.notMem_empty _)]

theorem Committing.published {offer : FileOffer} {i : ℕ} {bytes : Bytes}
    (h : Committing dest offer (blake3 bytes) i fs fs') (hname : offer.filename ≠ "")
    (hdata : fs.data i = bytes) (hlen : bytes.length = offer.fileSize.toNat) (hi : i < fs.next)
    (hD : fs'.names (finalPath dest offer.filename) ≠ none) :
    Published dest offer (receiptForOffer offer (blake3 bytes)) fs' := by
  rcases h.place with ⟨hn, -⟩ | ⟨hpub, hn, -⟩
  · exact absurd hn hD
  · refine ⟨⟨hpub.receipt_eq hname, rfl, rfl⟩, i, hn, ?_, ?_⟩
    all_goals rw [h.within.data i hi (Set.notMem_empty _), hdata]
    · exact hlen
    · rfl

/-- VERIFIED is written last, over published files. -/
theorem Ending.published {offer : FileOffer} (hsafe : isSafeFilename offer.filename)
    (h : Ending faults crashes dest offer fs o es fs') (hv : ¬Unverified es) :
    payloads .offer es = [] ∧ ∃ receipt, Published dest offer receipt fs' ∧
      ∀ hash ∈ payloads .complete es, receipt.blake3.1 = hash := by
  have hname : offer.filename ≠ "" := by
    rintro h
    rw [h] at hsafe
    revert hsafe
    decide
  cases h with
  | refused _ hes => exact absurd (unverified_of_rejects hes) hv
  | settled _ h hD hc =>
    obtain ⟨receipt, hp⟩ := h.published hD
    cases hc <;> exact ⟨by simp, receipt, hp, by simp⟩
  | settling => exact absurd (by simp [Unverified]) hv
  | unprepared _ _ _ hf => exact absurd hf.unverified hv
  | failed hu hq =>
    obtain ⟨fs₀, -, hprep⟩ := hu.prepared
    exact absurd (hprep.unverified.append hq.unverified) hv
  | halted _ _ _ _ _ _ h => exact absurd h hv
  | @committing prepared _ ps es es' fs₁ _ bytes b hu hb hlen hc hcl =>
    obtain ⟨fs₀, -, hprep⟩ := hu.prepared
    have hq := quiet_complete ps (blake3 b).1
    rcases hcl with ⟨hD, hcl⟩ | ⟨rfl, -⟩
    · have hi := fs₁.allocated _ _ hprep.ready.name
      have hp := hc.published hname (by simp) hlen (by simpa using hi) hD
      have hnil {t : MessageType} : payloads t es' = [] := by cases hcl <;> simp
      refine ⟨?_, _, hp, ?_⟩
      · simp [hprep.payloads_eq_nil, hnil, payloads_dataEvents]
      · simp [hprep.payloads_eq_nil, hnil, payloads_dataEvents, receiptForOffer]
    · exact absurd (by simpa using hprep.unverified.append hq.unverified) hv

theorem SessionEnding.verifiedOver {input : Bytes}
    (h : SessionEnding faults crashes dest fs input o es fs')
    (hv : ¬Unverified es) : VerifiedOver dest es fs' := by
  cases h with
  | unopened _ hu =>
    refine absurd (fun event he hv => ?_) hv
    exact (hu.wrote event he _ hv).elim (by simp) (by simp)
  | @offered es _ payload offer _ hd hsafe hend =>
    have hv : ¬Unverified es := fun h => hv (unverified_opening.append h)
    obtain ⟨hoffer, receipt, ⟨⟨hr, hf, hs⟩, i, hi, hm⟩, hc⟩ := hend.published hsafe hv
    refine ⟨payload, offer, receipt, _, ?_, hd, hr, hf, hs, Fs.read_eq_some.mpr ⟨i, hi, rfl⟩,
      hm.size.trans (by rw [hs]), hm.digest, ?_⟩
    · simp [opening, hoffer]
    · simpa [opening] using hc

/-- **VERIFIED is sound.** Whenever the receiver writes VERIFIED, the final file has the offered
size and the digest of the stored receipt; after a COMPLETE, this is the digest it carried. -/
theorem receiveConnection_verified (disk : Disk (.alone faults crashes)) (net : Net) :
    ∀ entry ∈ (receiveConnection dest (.start disk net)).2.log, entry.1.Attempts .verified →
      VerifiedOver dest ((receiveConnection dest (.start disk net)).2.log.map Prod.fst) entry.2 := by
  intro entry he hv
  obtain ⟨es, hend, l, hl, hes, hsnap⟩ := (receiveConnection_spec (w := .start disk net)).apply
  rw [show (World.start disk net).log ++ l = l from List.nil_append l] at hl
  rw [hl] at he ⊢
  rw [hsnap entry he hv, hes]
  exact hend.verifiedOver fun h => h entry.1 (hes ▸ List.mem_map_of_mem he) hv

end

/-- A peer that sends an empty file. -/
def emptyFile : Net :=
  .closed (encodings [Frame.new .hello [wfpVersion],
    Frame.new .offer (FileOffer.payload ⟨Block.ofBytes 16 [1], "a", 0⟩),
    Frame.new .complete (digestOf []).1])

/-- A disk without files, on which all goes well. -/
def emptyDisk : Disk (.alone false false) := ⟨.empty, []⟩

open scoped SerdeJson in
theorem receiveConnection_verified_emptyFile :
    ∃ h : (receiveConnection ["d"] (.start emptyDisk emptyFile)).2.log ≠ [], VerifiedOver ["d"]
      ((receiveConnection ["d"] (.start emptyDisk emptyFile)).2.log.map Prod.fst)
      ((receiveConnection ["d"] (.start emptyDisk emptyFile)).2.log.getLast h).2 := by
  have hlog : (receiveConnection ["d"] (.start emptyDisk emptyFile)).2.log.length ≠ 0 := by
    decide +kernel
  have hne := List.length_pos_iff.mp (Nat.pos_of_ne_zero hlog)
  have hlast : ((receiveConnection ["d"] (.start emptyDisk emptyFile)).2.log.getLast hne).1.Attempts
      .verified := by decide +kernel +revert
  exact ⟨hne, receiveConnection_verified emptyDisk emptyFile _ (List.getLast_mem hne) hlast⟩

end Warpfile.V02
