import Warpfile.Storage.ReceiptRuns
import Warpfile.Storage.TransferMetadata

/-!
# Where regular files stand

The remaining calls on the files, and the descriptions of transfers: where nothing but regular
files stood at the names in `S`, it is still so. A rename brings to its new name what stood at
the old one.
-/

namespace Warpfile

open Prog

variable {faults crashes : Bool} {S : Set Path} {p q : Path} {file : File}

/-! ### Files -/

theorem keepsRegular_metadata :
    KeepsRegular S (file.metadata : Prog (Disk (.alone faults crashes)) _ _) :=
  keepsRegular_bind keepsRegular_fstat fun _ => keepsRegular_pure

theorem keepsRegular_foldReads {β : Type} {len : ℕ} {f : β → Bytes → β} {b : β} :
    KeepsRegular S (file.foldReads len f b : Prog (Disk (.alone faults crashes)) _ _) := by
  refine Keeps.loop (fun s => ?_) _
  exact keepsRegular_bind (keepsRegular_bind keepsRegular_pread fun _ => keepsRegular_pure)
    fun _ => keepsRegular_pure

theorem keepsRegular_writeAll {bs : Bytes} :
    KeepsRegular S (file.writeAll bs : Prog (Disk (.alone faults crashes)) _ _) := by
  -- a call that writes to an inode, whole or torn
  have written {call : ℕ → Fs.Call Unit} {torn : ℕ → Fs → Fs}
      (h : ∀ short fs, ∃ bs, call short fs = .ok ((), fs.setData file.ino bs))
      (ht : ∀ n fs, ∃ bs, torn n fs = fs.setData file.ino bs) :
      KeepsRegular S (syscall call torn : Prog (Disk (.alone faults crashes)) _ _) := by
    refine keepsRegular_syscall (fun short fs a fs' hc => ?_) fun n fs => ?_
    · obtain ⟨bs, hbs⟩ := h short fs
      rw [← (Prod.mk.inj (Except.ok.inj (hbs.symm.trans hc))).2]
      rfl
    · obtain ⟨bs, hbs⟩ := ht n fs
      rw [hbs]
      rfl
  unfold File.writeAll
  split
  · exact keepsRegular_pure
  · dsimp only
    split
    · refine keepsRegular_bind ?_ fun _ => keepsRegular_pure
      exact written (fun _ _ => ⟨_, rfl⟩) fun _ _ => ⟨_, rfl⟩
    · refine keepsRegular_bind ?_ fun _ => keepsRegular_pure
      exact written (fun _ _ => ⟨_, rfl⟩) fun _ _ => ⟨_, rfl⟩

/-! ### Names -/

theorem keepsRegular_pathExists :
    KeepsRegular S (Storage.pathExists p : Prog (Disk (.alone faults crashes)) _ _) :=
  keepsRegular_orElseIfNotFound (keepsRegular_bind keepsRegular_entry fun _ => keepsRegular_pure)

theorem keepsRegular_metadataAt :
    KeepsRegular S (Storage.metadata p : Prog (Disk (.alone faults crashes)) _ _) :=
  keepsRegular_bind keepsRegular_openRegular fun _ => keepsRegular_metadata

theorem keepsRegular_removeIfExists :
    KeepsRegular S (Storage.removeIfExists p : Prog (Disk (.alone faults crashes)) _ _) :=
  keepsRegular_orElseIfNotFound keepsRegular_removeFile

theorem keepsRegular_promoteRename {source : File} (hp : p ∈ S) :
    KeepsRegular S (Storage.promoteRename source p q :
      Prog (Disk (.alone faults crashes)) _ _) := by
  refine keepsRegular_bind ?_ fun _ =>
    keepsRegular_bind (keepsRegular_bind keepsRegular_entry fun node => ?_) fun i => ?_
  · refine Disk.keeps_call fun fs a fs' h => ?_
    obtain ⟨-, -, -, -, n, hn, -, rfl⟩ := Fs.renameAt_eq_ok.mp h
    split_ifs
    · exact fun h => h
    · exact Fs.staysRegular_move hp hn
  · cases node with
    | file i => exact keepsRegular_pure
    | dir => exact keepsRegular_throw
    | symlink => exact keepsRegular_throw
  · split
    · exact keepsRegular_throw
    · exact keepsRegular_pure

/-- A file replaced by a new one is regular where it was. -/
theorem Storage.Replaced.staysRegular {fs fs' : Fs} {bs : Bytes}
    (h : Storage.Replaced fs q p bs fs') : fs.StaysRegular S fs' := by
  intro hr r hmem
  rw [h.names]
  by_cases hq : r = q
  · exact .inr ⟨_, by rw [hq, Function.update_self]⟩
  · rw [Function.update_of_ne hq]
    by_cases hp : r = p
    · exact .inl (by rw [hp, Function.update_self])
    · rw [Function.update_of_ne hp]
      exact hr r hmem

theorem keepsRegular_replaceFile {encoded : Bytes} (hp : p ∈ S) :
    KeepsRegular S (Storage.replaceFile q p encoded :
      Prog (Disk (.alone faults crashes)) _ _) :=
  keepsRegular_bind keepsRegular_writeTemporary fun _ =>
    keepsRegular_bind keepsRegular_removeIfExists fun _ => keepsRegular_promoteRename hp

/-! ### Descriptions -/

section

variable [Crates]

theorem keepsRegular_writeTransferMetadata {metadata : TransferMetadata}
    (hp : transferMetadataTemporaryPath p ∈ S) :
    KeepsRegular S (writeTransferMetadata p metadata :
      Prog (Disk (.alone faults crashes)) _ _) :=
  Keeps.mapErr (keepsRegular_replaceFile hp) _

theorem keepsRegular_readTransferMetadata :
    KeepsRegular S (readTransferMetadata p : Prog (Disk (.alone faults crashes)) _ _) :=
  keepsRegular_bind (Keeps.mapErr keepsRegular_read _) fun _ => Keeps.ofExcept _

omit [Crates] in
theorem keepsRegular_removeTransferMetadata :
    KeepsRegular S (removeTransferMetadata p : Prog (Disk (.alone faults crashes)) _ _) :=
  keepsRegular_bind (Keeps.mapErr keepsRegular_removeIfExists _) fun _ =>
    Keeps.mapErr keepsRegular_removeIfExists _

/-- Writing a receipt, where the names in `S` stand in the directories for partial files and
receipts. -/
theorem keepsRegular_writeReceipt {dest : Path} {receipt : CompletionReceipt}
    (hchain : ∀ q ∈ Fs.chain (receiptsDirectory dest), q ∉ S)
    (hp : completionReceiptTemporaryPath dest receipt.transferId ∈ S) :
    KeepsRegular S (writeCompletionReceipt dest receipt :
      Prog (Disk (.alone faults crashes)) _ _) := by
  have compared (c : CompletionReceipt) : KeepsRegular S
      (if c = receipt then pure () else throw .conflictingReceipt :
        Prog (Disk (.alone faults crashes)) CompletionReceiptError Unit) := by
    split
    · exact keepsRegular_pure
    · exact keepsRegular_throw
  unfold writeCompletionReceipt
  refine keepsRegular_bind (Keeps.mapErr ?_ _) fun _ =>
    keepsRegular_bind (Keeps.mapErr keepsRegular_pathExists _) fun exists? => ?_
  · rw [dropLast_completionReceiptPath]
    exact keepsRegular_ensureDirectory hchain
  · cases exists? with
    | true => exact keepsRegular_bind keepsRegular_readCompletionReceipt compared
    | false =>
      refine keepsRegular_bind (Keeps.mapErr keepsRegular_writeTemporary _) fun source => ?_
      refine keepsRegular_bind (Keeps.attempt (keepsRegular_promoteRenameNoReplace hp)) fun r => ?_
      cases r with
      | error e =>
        dsimp only
        split
        · exact keepsRegular_bind keepsRegular_readCompletionReceipt compared
        · exact keepsRegular_throw
      | ok => exact keepsRegular_pure

end

end Warpfile
