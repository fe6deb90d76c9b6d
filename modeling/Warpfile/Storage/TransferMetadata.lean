import Warpfile.Storage.Crates
import Warpfile.Storage.Paths
import Warpfile.Storage.Storage

/-!
# Transfer metadata

Next to the partial file of WFP/0.2 stands a description of the transfer it belongs to. It only
saves the receiver from adopting a partial file twice: without it, or with a torn one, the
prefix is proved again.
-/

namespace Warpfile

variable [Crates] {Γ : Setting}

abbrev transferMetadataFormatVersion : UInt64 := 1

inductive TransferState where
  | partialTransfer
  deriving DecidableEq, Repr

def TransferState.asStr : TransferState → String
  | partialTransfer => "partial"

structure TransferMetadata where
  transferId : TransferId
  filename : String
  fileSize : UInt64
  state : TransferState
  deriving DecidableEq, Repr

inductive TransferMetadataError where
  | io (error : IoError)
  | document (error : DocumentError)
  | unsupportedState (state : String)
  | invalidTransferId
  deriving DecidableEq, Repr

def TransferMetadata.fields (metadata : TransferMetadata) : List (String × Json) := [
  ("format_version", .u64 transferMetadataFormatVersion),
  ("transfer_id", .string (toHex metadata.transferId.1)),
  ("filename", .string metadata.filename),
  ("file_size", .u64 metadata.fileSize),
  ("state", .string metadata.state.asStr)]

def encodeTransferMetadata (metadata : TransferMetadata) : Bytes :=
  toVecPretty (Json.ofFields metadata.fields)

def decodeTransferMetadata (bytes : Bytes) : Except TransferMetadataError TransferMetadata := do
  let entries ← (documentEntries transferMetadataFormatVersion bytes).mapError .document
  let transferIdText ←
    (getField entries "transfer_id" "transfer_id" Json.asStr).mapError .document
  let transferId ← (parseHex transferIdLength transferIdText).elim (.error .invalidTransferId) .ok
  let filename ← (getField entries "filename" "filename" Json.asStr).mapError .document
  refuseIf (filename = "") (.document (.invalidField "filename"))
  let fileSize ← (getField entries "file_size" "file_size" Json.asU64).mapError .document
  let stateText ← (getField entries "state" "state" Json.asStr).mapError .document
  refuseIf (stateText ≠ "partial") (.unsupportedState stateText)
  return { transferId, filename, fileSize, state := .partialTransfer }

def writeTransferMetadata (partialPath : Path) (metadata : TransferMetadata) :
    Prog (Disk Γ) TransferMetadataError Unit :=
  (Storage.replaceFile (transferMetadataPath partialPath) (transferMetadataTemporaryPath partialPath)
    (encodeTransferMetadata metadata)).mapErr .io

def readTransferMetadata (partialPath : Path) :
    Prog (Disk Γ) TransferMetadataError TransferMetadata := do
  let bytes ← (Storage.read (transferMetadataPath partialPath)).mapErr .io
  .ofExcept (decodeTransferMetadata bytes)

def removeTransferMetadata (partialPath : Path) : Prog (Disk Γ) TransferMetadataError Unit := do
  (Storage.removeIfExists (transferMetadataPath partialPath)).mapErr .io
  (Storage.removeIfExists (transferMetadataTemporaryPath partialPath)).mapErr .io

theorem decode_encodeTransferMetadata {metadata : TransferMetadata} (h : metadata.filename ≠ "") :
    decodeTransferMetadata (encodeTransferMetadata metadata) = .ok metadata := by
  obtain ⟨entries, he, hl⟩ :=
    documentEntries_toVecPretty transferMetadataFormatVersion metadata.fields
      (by simp [TransferMetadata.fields, Json.Canonical.u64, Json.Canonical.string])
      (by simp [TransferMetadata.fields, Json.lookup_cons])
  rw [decodeTransferMetadata, encodeTransferMetadata, he]
  simp [getField, hl, TransferMetadata.fields, Json.lookup_cons, Json.asStr, Json.asU64,
    parseHex_toHex, h, TransferState.asStr]
  exact ⟨_, metadata.transferId.2, rfl, rfl⟩

/-! ### Specifications -/

/-- The description next to a partial file, as it is on disk. -/
def Fs.transferMetadata (fs : Fs) (partialPath : Path) : Option TransferMetadata := do
  let bytes ← fs.read (transferMetadataPath partialPath)
  (decodeTransferMetadata bytes).toOption

/-- The names of the description. -/
def metadataNames (partialPath : Path) : Set Path :=
  {transferMetadataTemporaryPath partialPath, transferMetadataPath partialPath}

/-- Something that is no regular file keeps the description from being written. -/
def Fs.Untidy (fs : Fs) (partialPath : Path) : Prop :=
  fs.Irregular (transferMetadataPath partialPath) ∨
    fs.Irregular (transferMetadataTemporaryPath partialPath)

omit [Crates] in
/-- In a directory, nothing keeps a description that is not there from being written. -/
theorem Fs.not_untidy {fs : Fs} {path : Path} (hd : fs.isDir path.dropLast)
    (hM : fs.names (transferMetadataPath path) = none)
    (hMt : fs.names (transferMetadataTemporaryPath path) = none) : ¬fs.Untidy path := by
  rw [Untidy, irregular_iff transferMetadataPath_ne_nil (by simpa using hd),
    irregular_iff transferMetadataTemporaryPath_ne_nil (by simpa using hd), hM, hMt]
  simp

omit [Crates] in
theorem notMem_metadataNames {path : Path} (h : path ≠ []) : path ∉ metadataNames path := by
  rintro (he | he)
  · rw [transferMetadataTemporaryPath, transferMetadataPath, appendSuffix_appendSuffix] at he
    exact appendSuffix_ne_self h (by decide) he.symm
  · exact appendSuffix_ne_self h (by decide) (Set.mem_singleton_iff.mp he).symm

open Prog

variable {faults crashes : Bool} {d : Disk (.alone faults crashes)} {path : Path}
  {metadata : TransferMetadata}

theorem readTransferMetadata_spec : (readTransferMetadata path).Ensures d (Post
    (fun m d' => d'.fs = d.fs ∧ d.fs.transferMetadata path = some m)
    (fun _ d' => d'.fs = d.fs) fun d' => d'.fs = d.fs ∧ crashes) := by
  refine Ensures.bind_mapErr (Storage.read_spec transferMetadataPath_ne_nil) ?_ (fun _ _ h => h.1)
    fun _ h => h
  rintro bs d' ⟨h, hbs⟩
  rw [ensures_ofExcept]
  split
  · rename_i m hm
    exact ⟨h, by simp [Fs.transferMetadata, hbs, hm, Except.toOption]⟩
  · exact h

omit [Crates] in
theorem removeTransferMetadata_spec : (removeTransferMetadata path).Ensures d (Post
    (fun _ d' => Fs.Within ∅ (metadataNames path) ∅ d.fs d'.fs ∧
      d'.fs.names (transferMetadataPath path) = none ∧
      d'.fs.names (transferMetadataTemporaryPath path) = none)
    (fun _ d' => Fs.Within ∅ (metadataNames path) ∅ d.fs d'.fs ∧ (faults ∨ d.fs.Untidy path))
    (fun d' => Fs.Within ∅ (metadataNames path) ∅ d.fs d'.fs ∧ crashes)) := by
  have first : Fs.Within ∅ (metadataNames path) ∅ d.fs (d.fs.unlink (transferMetadataPath path)) :=
    .unlink (.inr rfl)
  refine Ensures.bind_mapErr (Storage.removeIfExists_spec transferMetadataPath_ne_nil) ?_
    (fun _ d' h => ⟨by rw [h.1], h.2.imp_right .inl⟩) fun d' h => ⟨by rw [h.1], h.2⟩
  rintro - d₁ ⟨h₁, hn₁⟩
  rw [ensures_mapErr]
  refine (Storage.removeIfExists_spec transferMetadataTemporaryPath_ne_nil).mono fun o d₂ h => ?_
  rw [h₁] at h
  cases o with
  | ok =>
    refine ⟨?_, ?_, h.2⟩
    · rw [h.1]
      exact first.trans (.unlink (.inl rfl))
    · rw [h.1, Fs.names_unlink_of_ne transferMetadataPath_ne_temporary, ← h₁, hn₁]
  | err =>
    refine ⟨?_, h.2.imp_right fun h => .inr (Fs.irregular_unlink h)⟩
    rw [h.1]
    exact first
  | halt =>
    refine ⟨?_, h.2⟩
    rw [h.1]
    exact first

theorem writeTransferMetadata_spec : (writeTransferMetadata path metadata).Ensures d (Post
    (fun _ d' => Fs.Within ∅ (metadataNames path) ∅ d.fs d'.fs ∧ ¬d'.fs.Untidy path ∧
      (metadata.filename ≠ "" → d'.fs.transferMetadata path = some metadata))
    (fun _ d' => Fs.Within ∅ (metadataNames path) ∅ d.fs d'.fs ∧
      (faults ∨ d.fs.Untidy path ∨ ¬d.fs.isDir path.dropLast))
    (fun d' => Fs.Within ∅ (metadataNames path) ∅ d.fs d'.fs ∧ crashes)) := by
  rw [writeTransferMetadata, ensures_mapErr]
  refine (Storage.replaceFile_spec transferMetadataTemporaryPath_ne_nil transferMetadataPath_ne_nil
    transferMetadataPath_ne_temporary (by simp)).mono fun o d' h => ?_
  cases o with
  | ok =>
    obtain ⟨-, h⟩ := h
    have hM : d'.fs.names (transferMetadataPath path) = some (.file d.fs.next) := by
      rw [h.names, Function.update_self]
    have hMt : d'.fs.names (transferMetadataTemporaryPath path) = none := by
      rw [h.names, Function.update_of_ne transferMetadataPath_ne_temporary.symm,
        Function.update_self]
    refine ⟨h.within, ?_, fun hname => ?_⟩
    · rintro (hi | hi)
      · exact hi.not_file transferMetadataPath_ne_nil hM
      · have hd : d'.fs.isDir (transferMetadataPath path).dropLast :=
          Fs.isDir_dropLast (by simp [hM])
        rw [Fs.irregular_iff transferMetadataTemporaryPath_ne_nil (by simpa using hd), hMt] at hi
        simp at hi
    have : d'.fs.read (transferMetadataPath path) = some (encodeTransferMetadata metadata) :=
      Fs.read_eq_some.mpr ⟨d.fs.next, hM, by rw [h.data, Function.update_self]⟩
    simp [Fs.transferMetadata, this, decode_encodeTransferMetadata hname, Except.toOption]
  | err =>
    refine ⟨h.1.1, h.2.imp_right fun h => ?_⟩
    rw [dropLast_transferMetadataTemporaryPath] at h
    exact h.elim (fun h => .inl (Or.inr h)) (Or.imp_left Or.inl)
  | halt => exact ⟨h.1.1, h.2⟩

end Warpfile
