import Warpfile.Storage.Crates
import Warpfile.Storage.Paths
import Warpfile.Storage.Storage

/-!
# Completion receipts

A receipt records that a transfer was received completely and verified: its filename, its size
and its BLAKE3 digest, under its Transfer ID. It is published once and never replaced.
-/

namespace Warpfile

variable [Crates] {Γ : Setting}

abbrev completionReceiptFormatVersion : UInt64 := 1

structure CompletionReceipt where
  transferId : TransferId
  filename : String
  fileSize : UInt64
  blake3 : Digest
  deriving DecidableEq, Repr

inductive CompletionReceiptError where
  | io (error : IoError)
  | document (error : DocumentError)
  | invalidTransferId
  | invalidBlake3
  | conflictingReceipt
  deriving DecidableEq, Repr

def CompletionReceipt.fields (receipt : CompletionReceipt) : List (String × Json) := [
  ("format_version", .u64 completionReceiptFormatVersion),
  ("transfer_id", .string (toHex receipt.transferId.1)),
  ("filename", .string receipt.filename),
  ("file_size", .u64 receipt.fileSize),
  ("blake3", .string (toHex receipt.blake3.1))]

def encodeCompletionReceipt (receipt : CompletionReceipt) : Bytes :=
  toVecPretty (Json.ofFields receipt.fields)

def decodeCompletionReceipt (bytes : Bytes) : Except CompletionReceiptError CompletionReceipt := do
  let entries ← (documentEntries completionReceiptFormatVersion bytes).mapError .document
  let transferIdText ←
    (getField entries "transfer_id" "transfer_id" Json.asStr).mapError .document
  let transferId ← (parseHex transferIdLength transferIdText).elim (.error .invalidTransferId) .ok
  let filename ← (getField entries "filename" "filename" Json.asStr).mapError .document
  refuseIf (filename = "") (.document (.invalidField "filename"))
  let fileSize ← (getField entries "file_size" "file_size" Json.asU64).mapError .document
  let blake3Text ← (getField entries "blake3" "blake3" Json.asStr).mapError .document
  let blake3 ← (parseHex blake3HashLength blake3Text).elim (.error .invalidBlake3) .ok
  return { transferId, filename, fileSize, blake3 }

def readCompletionReceipt (destinationDirectory : Path) (transferId : TransferId) :
    Prog (Disk Γ) CompletionReceiptError CompletionReceipt := do
  let bytes ← (Storage.read (completionReceiptPath destinationDirectory transferId)).mapErr .io
  let receipt ← .ofExcept (decodeCompletionReceipt bytes)
  if receipt.transferId ≠ transferId then throw .invalidTransferId
  return receipt

def publishCompletionReceipt (source : File) (temporaryPath destinationDirectory : Path)
    (receipt : CompletionReceipt) : Prog (Disk Γ) CompletionReceiptError Unit := do
  let receiptPath := completionReceiptPath destinationDirectory receipt.transferId
  match ← (Storage.promoteRenameNoReplace source temporaryPath receiptPath).attempt with
  | .ok () => return ()
  | .error error =>
    if error.kind = .alreadyExists then
      let existing ← readCompletionReceipt destinationDirectory receipt.transferId
      if existing = receipt then return () else throw .conflictingReceipt
    else throw (.io error)

def writeCompletionReceipt (destinationDirectory : Path) (receipt : CompletionReceipt) :
    Prog (Disk Γ) CompletionReceiptError Unit := do
  let receiptPath := completionReceiptPath destinationDirectory receipt.transferId
  (Storage.ensureDirectory receiptPath.dropLast).mapErr .io
  if ← (Storage.pathExists receiptPath).mapErr .io then
    let existing ← readCompletionReceipt destinationDirectory receipt.transferId
    if existing = receipt then return () else throw .conflictingReceipt
  else
    let temporaryPath := completionReceiptTemporaryPath destinationDirectory receipt.transferId
    let source ←
      (Storage.writeTemporary temporaryPath (encodeCompletionReceipt receipt)).mapErr .io
    publishCompletionReceipt source temporaryPath destinationDirectory receipt

/-! ### The encoding -/

theorem decode_encodeCompletionReceipt {receipt : CompletionReceipt} (h : receipt.filename ≠ "") :
    decodeCompletionReceipt (encodeCompletionReceipt receipt) = .ok receipt := by
  obtain ⟨entries, he, hl⟩ :=
    documentEntries_toVecPretty completionReceiptFormatVersion receipt.fields
      (by simp [CompletionReceipt.fields, Json.Canonical.u64, Json.Canonical.string])
      (by simp [CompletionReceipt.fields, Json.lookup_cons])
  rw [decodeCompletionReceipt, encodeCompletionReceipt, he]
  simp [getField, hl, CompletionReceipt.fields, Json.lookup_cons, Json.asStr, Json.asU64,
    parseHex_toHex, h]
  exact ⟨_, receipt.transferId.2, rfl, _, receipt.blake3.2, rfl, rfl⟩

/-! ### Specifications -/

/-- The receipt of a Transfer ID, as it is on disk. -/
def Fs.receipt (fs : Fs) (destinationDirectory : Path) (transferId : TransferId) :
    Option CompletionReceipt := do
  let bytes ← fs.read (completionReceiptPath destinationDirectory transferId)
  let receipt ← (decodeCompletionReceipt bytes).toOption
  if receipt.transferId = transferId then some receipt else none

/-- A receipt that can be read stands in a file. -/
theorem Fs.names_of_receipt {fs : Fs} {dest : Path} {T : TransferId} {receipt : CompletionReceipt}
    (h : fs.receipt dest T = some receipt) :
    ∃ i, fs.names (completionReceiptPath dest T) = some (.file i) := by
  by_contra hn
  simp only [Fs.receipt, Fs.read_eq_none (not_exists.mp hn)] at h
  simp at h

theorem Fs.receipt_eq_none {fs : Fs} {dest : Path} {T : TransferId}
    (h : fs.names (completionReceiptPath dest T) = none) : fs.receipt dest T = none := by
  by_contra hr
  obtain ⟨receipt, hr⟩ := Option.ne_none_iff_exists'.mp hr
  obtain ⟨i, hi⟩ := Fs.names_of_receipt hr
  simp [h] at hi

/-- A receipt stays while nothing is done to its name and its inode. -/
theorem Fs.Within.receipt_eq {fs fs' : Fs} {K S : Set Path} {J : Set ℕ} {dest : Path}
    {T : TransferId} {receipt : CompletionReceipt} (h : Fs.Within K S J fs fs')
    (hr : fs.receipt dest T = some receipt) (hS : completionReceiptPath dest T ∉ S)
    (hJ : ∀ i, fs.names (completionReceiptPath dest T) = some (.file i) → i ∉ J) :
    fs'.receipt dest T = some receipt := by
  obtain ⟨i, hi⟩ := Fs.names_of_receipt hr
  rwa [Fs.receipt, h.read hS (by simp [hi]) hJ]

open Prog

variable {faults crashes : Bool} {d : Disk (.alone faults crashes)} {dest : Path}
  {transferId : TransferId} {receipt : CompletionReceipt}

theorem readCompletionReceipt_spec : (readCompletionReceipt dest transferId).Ensures d (Post
    (fun r d' => d'.fs = d.fs ∧ d.fs.receipt dest transferId = some r)
    (fun _ d' => d'.fs = d.fs ∧ (faults ∨ d.fs.receipt dest transferId = none))
    (fun d' => d'.fs = d.fs ∧ crashes)) := by
  rw [readCompletionReceipt, ensures_bind, ensures_mapErr]
  refine (Storage.read_spec completionReceiptPath_ne_nil).mono fun o d' h => ?_
  cases o with
  | ok bs =>
    obtain ⟨h, hbs⟩ := h
    simp only [post_ok, ensures_bind, ensures_ofExcept]
    rcases hr : decodeCompletionReceipt bs with e | r
    · exact ⟨h, .inr (by simp [Fs.receipt, hbs, hr, Except.toOption])⟩
    · by_cases ht : r.transferId = transferId
      · simp [ht, h, Fs.receipt, hbs, hr, Except.toOption]
      · simp [ht, h, Fs.receipt, hbs, hr, Except.toOption]
  | err e =>
    refine ⟨h.1, h.2.imp_right fun h' => ?_⟩
    have : d.fs.read (completionReceiptPath dest transferId) = none :=
      h'.elim (·.read_eq_none completionReceiptPath_ne_nil) fun h' =>
        Fs.read_eq_none fun i => by simp [h'.1]
    simp [Fs.receipt, this]
  | halt => exact h

/-- A receipt stands where none stood, in a new file of no other name, and it is complete. -/
def Fs.ReceiptPublished (fs : Fs) (dest : Path) (receipt : CompletionReceipt) (fs' : Fs) : Prop :=
  fs.names (completionReceiptPath dest receipt.transferId) = none ∧
    ∃ i, fs.next ≤ i ∧
      fs'.names (completionReceiptPath dest receipt.transferId) = some (.file i) ∧
      fs'.data i = encodeCompletionReceipt receipt ∧
      ∀ p, fs'.names p = some (.file i) → p = completionReceiptPath dest receipt.transferId

/-- A published receipt is read back. -/
theorem Fs.ReceiptPublished.receipt_eq {fs fs' : Fs} (h : fs.ReceiptPublished dest receipt fs')
    (hname : receipt.filename ≠ "") : fs'.receipt dest receipt.transferId = some receipt := by
  obtain ⟨-, i, -, hn, hd, -⟩ := h
  have : fs'.read (completionReceiptPath dest receipt.transferId) =
      some (encodeCompletionReceipt receipt) := Fs.read_eq_some.mpr ⟨i, hn, hd⟩
  simp [Fs.receipt, this, decode_encodeCompletionReceipt hname, Except.toOption]

/-- A published receipt stays while nothing is done to its name. -/
theorem Fs.ReceiptPublished.within {fs fs₁ fs₂ : Fs} {K S : Set Path}
    (h : fs.ReceiptPublished dest receipt fs₁) (h' : Fs.Within K S ∅ fs₁ fs₂)
    (hS : completionReceiptPath dest receipt.transferId ∉ S) :
    fs.ReceiptPublished dest receipt fs₂ := by
  obtain ⟨hnew, i, hi, hn, hd, hown⟩ := h
  have hlt := fs₁.allocated _ _ hn
  refine ⟨hnew, i, hi, (h'.names_eq hS (by simp [hn])).trans hn,
    (h'.data i hlt (Set.notMem_empty _)).trans hd, fun p hp => ?_⟩
  obtain ⟨q, hq⟩ := h'.inode_of_names hlt hp
  obtain rfl := hown q hq.1
  rcases hq.2 with h | rfl
  · exact absurd h hS
  · rfl

/-- The receipt of a Transfer ID is as it was, or it was published just now. -/
def Fs.ReceiptKept (fs : Fs) (dest : Path) (receipt : CompletionReceipt) (fs' : Fs) : Prop :=
  fs'.names (completionReceiptPath dest receipt.transferId) =
      fs.names (completionReceiptPath dest receipt.transferId) ∨
    fs.ReceiptPublished dest receipt fs'

/-- The names that belong to the receipt of a Transfer ID. -/
def receiptNames (dest : Path) (transferId : TransferId) : Set Path :=
  {completionReceiptTemporaryPath dest transferId, completionReceiptPath dest transferId}

omit [Crates] in
/-- The names of a receipt are those of no file of a transfer. -/
theorem notMem_receiptNames {p : Path} {T : TransferId} (h : p.dropLast ≠ receiptsDirectory dest) :
    p ∉ receiptNames dest T := by
  rintro (rfl | rfl) <;> simp at h

/-- What a run of `writeCompletionReceipt` may change, however it ends. -/
def Fs.ReceiptStep (fs : Fs) (dest : Path) (receipt : CompletionReceipt) (fs' : Fs) : Prop :=
  Fs.Within (Fs.chain (receiptsDirectory dest)) (receiptNames dest receipt.transferId) ∅ fs fs' ∧
    fs.ReceiptKept dest receipt fs'

/-- The temporary file is put in place; nothing stands there. -/
private theorem publishCompletionReceipt_spec {source : File} {fs : Fs}
    (hdir : fs.isDir (receiptsDirectory dest))
    (hnew : fs.names (completionReceiptPath dest receipt.transferId) = none)
    (hino : source.ino = fs.next)
    (hwrote : Storage.Wrote fs (completionReceiptTemporaryPath dest receipt.transferId)
      (encodeCompletionReceipt receipt) d.fs) :
    (publishCompletionReceipt source (completionReceiptTemporaryPath dest receipt.transferId) dest
      receipt).Ensures d (Post
        (fun _ d' => fs.ReceiptStep dest receipt d'.fs ∧ fs.ReceiptPublished dest receipt d'.fs)
        (fun _ d' => fs.ReceiptStep dest receipt d'.fs ∧ faults)
        (fun d' => fs.ReceiptStep dest receipt d'.fs ∧ crashes)) := by
  set R := completionReceiptPath dest receipt.transferId with hR
  set Rt := completionReceiptTemporaryPath dest receipt.transferId with hRt
  have hR0 : R ≠ [] := completionReceiptPath_ne_nil
  have hRt0 : Rt ≠ [] := appendSuffix_ne_nil
  have hne : R ≠ Rt := completionReceiptPath_ne_temporary
  have hnR : d.fs.names R = none := by rw [hwrote.names, Function.update_of_ne hne, hnew]
  have hnRt : d.fs.names Rt = some (.file source.ino) := by rw [hwrote.names, hino]; simp
  have hdR : d.fs.isDir R.dropLast := by
    rw [dropLast_completionReceiptPath]
    refine hwrote.within.isDir (K := ∅) (J := ∅) (fun h => ?_) hdir
    exact Fs.notMem_chain_dropLast hRt0 ⟨hRt0, by
      rw [dropLast_completionReceiptTemporaryPath, Set.mem_singleton_iff.mp h]⟩
  have before : fs.ReceiptStep dest receipt d.fs :=
    ⟨hwrote.within.mono le_rfl (Set.singleton_subset_iff.mpr (.inl rfl)) fun _ h => .inl h,
      .inl (hnR.trans hnew.symm)⟩
  have moved {d' : Disk (.alone faults crashes)}
      (h : d'.fs = d.fs.move Rt R (.file source.ino)) :
      fs.ReceiptStep dest receipt d'.fs ∧ fs.ReceiptPublished dest receipt d'.fs := by
    have hpub : fs.ReceiptPublished dest receipt d'.fs := by
      have hnames := Fs.names_move hnRt (by simp) hR0 hdR (by simp [hnR])
      refine ⟨hnew, fs.next, le_rfl, ?_, ?_, fun p hp => ?_⟩
      · rw [h, hnames, Function.update_self, hino]
      · rw [h, Fs.data_move, hwrote.data, Function.update_self]
      · by_contra hpR
        rw [h, hnames, Function.update_of_ne hpR] at hp
        by_cases hpt : p = Rt
        · simp [hpt] at hp
        · rw [Function.update_of_ne hpt, hwrote.names, Function.update_of_ne hpt] at hp
          exact absurd (fs.allocated _ _ hp) (lt_irrefl _)
    refine ⟨⟨before.1.trans ?_, .inr hpub⟩, hpub⟩
    rw [h]
    exact .move hnRt (.inl rfl) (.inr rfl)
  rw [publishCompletionReceipt]
  refine Ensures.bind_attempt
    (Storage.promoteRenameNoReplace_spec hRt0 hR0 hdR hnRt hnR) ?_ ?_ ?_
  · intro _ d' h
    rw [ensures_pure]
    exact moved h
  · rintro e d' ⟨h, hf, hk⟩
    simp only [hk, if_false, ensures_throw]
    refine ⟨h.elim (fun h => ?_) fun h => (moved h).1, hf⟩
    rw [h]
    exact before
  · rintro d' ⟨h, hc⟩
    refine ⟨h.elim (fun h => ?_) fun h => (moved h).1, hc⟩
    rw [h]
    exact before

section

variable {fs fs₁ fs' : Fs} (h : Fs.Within (Fs.chain (receiptsDirectory dest)) ∅ ∅ fs fs₁)

include h

omit [Crates] in
/-- Making the receipts directory changes no receipt. -/
private theorem names_receipt (transferId : TransferId) :
    fs₁.names (completionReceiptPath dest transferId) =
      fs.names (completionReceiptPath dest transferId) :=
  h.names_eq' (Set.notMem_empty _) fun hc => Fs.notMem_chain_dropLast completionReceiptPath_ne_nil
    (by rwa [dropLast_completionReceiptPath])

private theorem Fs.ReceiptPublished.of_within (h' : fs₁.ReceiptPublished dest receipt fs') :
    fs.ReceiptPublished dest receipt fs' := by
  obtain ⟨hn, i, hi, h'⟩ := h'
  exact ⟨(names_receipt h _).symm.trans hn, i, h.next.trans hi, h'⟩

private theorem Fs.ReceiptStep.of_within (h' : fs₁.ReceiptStep dest receipt fs') :
    fs.ReceiptStep dest receipt fs' := by
  refine ⟨(h.mono le_rfl (Set.empty_subset _) fun _ h => .inl h).trans h'.1, ?_⟩
  refine h'.2.imp (fun h' => h'.trans (names_receipt h _)) fun h' => h'.of_within h

end

theorem writeCompletionReceipt_spec :
    (writeCompletionReceipt dest receipt).Ensures d (Post
      (fun _ d' => d.fs.ReceiptStep dest receipt d'.fs ∧
        (d.fs.receipt dest receipt.transferId = some receipt ∨
          d.fs.ReceiptPublished dest receipt d'.fs))
      (fun _ d' => d.fs.ReceiptStep dest receipt d'.fs ∧
        (faults ∨ ¬d.fs.Creatable (receiptsDirectory dest) ∨
          d.fs.Irregular (completionReceiptTemporaryPath dest receipt.transferId) ∨
          d.fs.names (completionReceiptPath dest receipt.transferId) ≠ none))
      (fun d' => d.fs.ReceiptStep dest receipt d'.fs ∧ crashes)) := by
  have hRt0 : completionReceiptTemporaryPath dest receipt.transferId ≠ [] := appendSuffix_ne_nil
  have dirs {fs : Fs} (h : Fs.Within (Fs.chain (receiptsDirectory dest)) ∅ ∅ d.fs fs) :
      d.fs.ReceiptStep dest receipt fs :=
    .of_within h ⟨.refl fs, .inl rfl⟩
  rw [writeCompletionReceipt, dropLast_completionReceiptPath]
  refine Ensures.bind_mapErr Storage.ensureDirectory_spec ?_
    (fun _ d' h => ⟨dirs h.1, h.2.imp_right .inl⟩) fun d' h => ⟨dirs h.1, h.2⟩
  rintro - d₁ ⟨h₁, hdir⟩
  refine Ensures.bind_mapErr (Storage.pathExists_spec completionReceiptPath_ne_nil) ?_
    (fun _ d' h => ⟨by rw [h.1]; exact dirs h₁, h.2.imp_right fun hb => ?_⟩)
    fun d' h => ⟨by rw [h.1]; exact dirs h₁, h.2⟩
  swap
  · -- the directory was made, so nothing stands in the way
    rw [Fs.Blocked, Fs.parent_eq_ok.mpr ⟨completionReceiptPath_ne_nil,
      by rwa [dropLast_completionReceiptPath]⟩] at hb
    simp at hb
  rintro b d₂ ⟨h₂, hb⟩
  rw [← h₂] at h₁ hdir hb
  cases b with
  | true =>
    have hex : d.fs.names (completionReceiptPath dest receipt.transferId) ≠ none := by
      rw [← names_receipt h₁]
      exact hb.mp rfl
    rw [if_pos rfl]
    refine Ensures.bind readCompletionReceipt_spec ?_
      (fun _ d' h => ⟨by rw [h.1]; exact dirs h₁, .inr (.inr (.inr hex))⟩)
      fun d' h => ⟨by rw [h.1]; exact dirs h₁, h.2⟩
    rintro r d₃ ⟨h₃, hr⟩
    split
    · rename_i heq
      subst heq
      rw [ensures_pure]
      refine ⟨by rw [h₃]; exact dirs h₁, .inl ?_⟩
      have hread : d₂.fs.read (completionReceiptPath dest r.transferId) =
          d.fs.read (completionReceiptPath dest r.transferId) :=
        h₁.read (Set.notMem_empty _) hex fun i _ => Set.notMem_empty i
      rwa [Fs.receipt, hread] at hr
    · rw [ensures_throw]
      exact ⟨by rw [h₃]; exact dirs h₁, .inr (.inr (.inr hex))⟩
  | false =>
    have hnone : d₂.fs.names (completionReceiptPath dest receipt.transferId) = none := by
      by_contra hn
      exact absurd (hb.mpr hn) (by simp)
    have early {fs : Fs} (h : Fs.Within ∅
        {completionReceiptTemporaryPath dest receipt.transferId} ∅ d₂.fs fs) :
        d.fs.ReceiptStep dest receipt fs :=
      .of_within h₁ ⟨h.mono (Set.empty_subset _) (Set.singleton_subset_iff.mpr (.inl rfl))
        fun _ h => .inl h, .inl (h.names_eq' completionReceiptPath_ne_temporary
          (Set.notMem_empty _))⟩
    rw [if_neg (by simp)]
    refine Ensures.bind_mapErr (Storage.writeTemporary_spec hRt0) ?_ (fun _ d' h => ?_)
      fun d' h => ⟨early h.1, h.2⟩
    · rintro source d₃ ⟨hino, -, hwrote⟩
      refine (publishCompletionReceipt_spec hdir hnone hino hwrote).mono fun o d' h => ?_
      cases o with
      | ok => exact ⟨h.1.of_within h₁, .inr (h.2.of_within h₁)⟩
      | err => exact ⟨h.1.of_within h₁, .inl h.2⟩
      | halt => exact ⟨h.1.of_within h₁, h.2⟩
    · refine ⟨early h.1, h.2.imp_right fun h' => .inr (.inl ?_)⟩
      rw [dropLast_completionReceiptTemporaryPath] at h'
      refine h₁.irregular hRt0 (Set.notMem_empty _) (fun hc => ?_)
        (by rwa [dropLast_completionReceiptTemporaryPath]) (h'.resolve_right fun hn => hn hdir)
      exact Fs.notMem_chain_dropLast hRt0 (by rwa [dropLast_completionReceiptTemporaryPath])

end Warpfile
