import Warpfile.Foundation.Footprint
import Warpfile.Storage.ChunkState
import Warpfile.Storage.CompletionReceipt
import Warpfile.Storage.TransferMetadata

/-!
# Which names the file operations use

Each operation uses only the names it is given and those it derives from them, and the inodes they
lead to: within every footprint that has these it respects the relation of the footprint.
-/

namespace Warpfile

open Prog

variable {Γ : Setting} {U : Footprint Γ} {path : Path} {file : File}

namespace Footprint

/-- The file may be held. -/
abbrev holds (U : Footprint Γ) (file : File) : Prop := U.ino file.ino

end Footprint

/-! ### Open files -/

namespace File

theorem respects_metadata (h : U.holds file) : file.metadata.Respects U.rel Any :=
  (U.fstat _ h).bind fun _ _ => .pure trivial

theorem respects_read {len : ℕ} (h : U.holds file) :
    (file.read len).Respects U.rel fun r => U.holds r.2 :=
  (U.pread _ _ _ h).bind fun _ _ => .pure h

theorem respects_foldReads {β : Type} {len : ℕ} {f : β → Bytes → β} {b : β} (h : U.holds file) :
    (file.foldReads len f b).Respects U.rel fun r => U.holds r.2 := by
  refine Respects.loop (W := fun s : β × File => U.holds s.2) (fun s hs d d' hd => ?_)
    (fun s hs => ?_) h
  · rw [File.remaining, File.remaining, U.limit_eq _ hs d d' hd]
  · refine (respects_read hs).bind fun r hr => .pure ?_
    split <;> exact hr

theorem respects_readToEnd (h : U.holds file) :
    file.readToEnd.Respects U.rel fun r => U.holds r.2 := respects_foldReads h

theorem respects_writeAll {bs : Bytes} (h : U.holds file) :
    (file.writeAll bs).Respects U.rel U.holds := by
  unfold File.writeAll
  split
  · exact .pure h
  · split
    · exact (U.append _ _ h).bind fun _ _ => .pure h
    · exact (U.pwrite _ _ _ h).bind fun _ _ => .pure h

theorem respects_setLen {len : ℕ} (h : U.holds file) : (file.setLen len).Respects U.rel Any :=
  U.ftruncate _ _ h

theorem respects_syncAll : file.syncAll.Respects U.rel Any := U.fsync

end File

/-! ### Names -/

namespace Storage

theorem respects_orElseIfNotFound {α : Type} {V : α → Prop} {p : Prog (Disk Γ) IoError α}
    {default : α} (h : p.Respects U.rel V) (hd : V default) :
    (orElseIfNotFound p default).Respects U.rel V := by
  refine h.attempt.bind fun r hr => ?_
  rcases r with e | a
  · dsimp only
    split
    · exact .pure hd
    · exact .throw
  · exact .pure (hr a rfl)

theorem respects_ensureDirectory (h : ∀ q ∈ Fs.chain path, U.path q) :
    (ensureDirectory path).Respects U.rel Any := by
  have main (cs base : Path) (h : ∀ q ∈ Fs.chain (base ++ cs), U.path q) :
      (ensureDirectoryFrom base cs).Respects U.rel Any := by
    induction cs generalizing base with
    | nil => exact .pure trivial
    | cons c cs ih =>
      have hc : U.path (base ++ [c]) := h _ ⟨by simp, ⟨cs, by simp⟩⟩
      have next : (do
          openDirectory (base ++ [c])
          ensureDirectoryFrom (base ++ [c]) cs : Prog (Disk Γ) IoError Unit).Respects U.rel Any :=
        (U.openDirectory _ hc).bind fun _ _ => ih (base ++ [c]) (by simpa using h)
      refine (U.mkdirAt _ hc).attempt.bind fun r _ => ?_
      rcases r with e | ⟨⟩
      · dsimp only
        split
        · exact next
        · exact Respects.throw.bind (V := Any) fun _ _ => next
      · exact next
  exact main path [] h

theorem respects_pathExists (h : U.path path) : (pathExists path).Respects U.rel Any :=
  respects_orElseIfNotFound ((U.entry _ h).bind fun _ _ => .pure trivial) trivial

/-- A file that was opened is looked at; anything else is refused. -/
private theorem respects_fstatOpened {append : Bool} (node : Node) :
    node.Holds U.ino → (match node with
      | .file ino => do
        let _ ← Disk.call (Fs.fstat ino)
        return { ino, pos := 0, append }
      | _ => throw notARegularFile : Prog (Disk Γ) IoError File).Respects U.rel U.holds := by
  intro h
  cases node with
  | file i => exact (U.fstat _ (h i rfl)).bind fun _ _ => .pure (h i rfl)
  | dir => exact .throw
  | symlink => exact .throw

theorem respects_openRegular {read write append createNew : Bool} (h : U.path path) :
    (openRegular path read write append createNew).Respects U.rel U.holds := by
  unfold openRegular
  cases createNew with
  | true =>
    refine Respects.bind (V := Node.Holds U.ino) ?_ respects_fstatOpened
    exact (U.createAt _ h).map fun i hi j hj => Node.file.inj hj ▸ hi
  | false => exact (U.openAt _ _ h).bind respects_fstatOpened

theorem respects_metadata (h : U.path path) : (metadata path).Respects U.rel Any :=
  (respects_openRegular h).bind fun _ hfile => File.respects_metadata hfile

theorem respects_read (h : U.path path) : (read path).Respects U.rel Any :=
  (respects_openRegular h).bind fun _ hfile =>
    (File.respects_readToEnd hfile).bind fun _ _ => .pure trivial

theorem respects_removeIfExists (h : U.path path) : (removeIfExists path).Respects U.rel Any := by
  refine respects_orElseIfNotFound ((U.parent _ h).bind fun _ _ => ?_) trivial
  refine (respects_metadata h).attempt.bind fun r _ => ?_
  rcases r with e | m
  · dsimp only
    split
    · exact .pure trivial
    · exact .throw
  · refine Respects.bind (V := Any) ?_ fun _ _ => U.unlinkAt _ h
    rw [rejectNonRegular]
    split
    · exact .pure trivial
    · exact .throw

theorem respects_validatePromotion (h : U.path path) :
    (validatePromotion file path).Respects U.rel Any := by
  refine Respects.bind (V := Any) ((U.entry _ h).bind fun node _ => ?_) fun ino _ => ?_
  · cases node with
    | file i => exact .pure trivial
    | dir => exact .throw
    | symlink => exact .throw
  · split
    · exact .throw
    · exact .pure trivial

variable {old new : Path}

theorem respects_promoteRename (ho : U.path old) (hn : U.path new) :
    (promoteRename file old new).Respects U.rel Any :=
  (U.renameAt _ _ ho hn).bind fun _ _ => respects_validatePromotion hn

theorem respects_promoteRenameNoReplace (ho : U.path old) (hn : U.path new) :
    (promoteRenameNoReplace file old new).Respects U.rel Any :=
  (U.renameNoReplaceAt _ _ ho hn).bind fun _ _ => respects_validatePromotion hn

theorem respects_promoteLink (ho : U.path old) (hn : U.path new) :
    (promoteLink file old new).Respects U.rel Any :=
  (U.linkAt _ _ ho hn).bind fun _ _ => respects_validatePromotion hn

theorem respects_writeTemporary {encoded : Bytes} (h : U.path path) :
    (writeTemporary path encoded).Respects U.rel U.holds :=
  (respects_removeIfExists h).bind fun _ _ => (respects_openRegular h).bind fun _ hfile =>
    (File.respects_writeAll hfile).bind fun _ hsource => File.respects_syncAll.bind fun _ _ =>
      .pure hsource

theorem respects_replaceFile {temporaryPath : Path} {encoded : Bytes} (h : U.path path)
    (ht : U.path temporaryPath) : (replaceFile path temporaryPath encoded).Respects U.rel Any :=
  (respects_writeTemporary ht).bind fun _ _ => (respects_removeIfExists h).bind fun _ _ =>
    respects_promoteRename ht h

end Storage

/-! ### The documents -/

section

variable [Crates]

/-- The names of the description of a partial file. -/
structure Footprint.Description (U : Footprint Γ) (partialPath : Path) : Prop where
  path : U.path (transferMetadataPath partialPath)
  temporary : U.path (transferMetadataTemporaryPath partialPath)

theorem respects_writeTransferMetadata {metadata : TransferMetadata} (h : U.Description path) :
    (writeTransferMetadata path metadata).Respects U.rel Any :=
  (Storage.respects_replaceFile h.path h.temporary).mapErr

theorem respects_readTransferMetadata (h : U.Description path) :
    (readTransferMetadata path).Respects U.rel Any :=
  (Storage.respects_read h.path).mapErr.bind fun _ _ => .ofExcept fun _ _ => trivial

omit [Crates] in
theorem respects_removeTransferMetadata (h : U.Description path) :
    (removeTransferMetadata path).Respects U.rel Any :=
  (Storage.respects_removeIfExists h.path).mapErr.bind fun _ _ =>
    (Storage.respects_removeIfExists h.temporary).mapErr

/-- The names of the receipt of a Transfer ID. -/
structure Footprint.Receipt (U : Footprint Γ) (dest : Path) (T : TransferId) : Prop where
  path : U.path (completionReceiptPath dest T)
  temporary : U.path (completionReceiptTemporaryPath dest T)
  directory : ∀ q ∈ Fs.chain (receiptsDirectory dest), U.path q

variable {dest : Path} {T : TransferId} {receipt : CompletionReceipt}

theorem respects_readCompletionReceipt (h : U.Receipt dest T) :
    (readCompletionReceipt dest T).Respects U.rel Any := by
  refine (Storage.respects_read h.path).mapErr.bind fun _ _ =>
    (Respects.ofExcept fun _ _ => trivial).bind (V := Any) fun _ _ => ?_
  split
  · exact .throw
  · exact .pure trivial

theorem respects_writeCompletionReceipt (h : U.Receipt dest receipt.transferId) :
    (writeCompletionReceipt dest receipt).Respects U.rel Any := by
  have settled (existing : CompletionReceipt) : (if existing = receipt then pure () else
      throw .conflictingReceipt : Prog (Disk Γ) CompletionReceiptError Unit).Respects U.rel Any := by
    split
    · exact .pure trivial
    · exact .throw
  refine (Storage.respects_ensureDirectory ?_).mapErr.bind fun _ _ =>
    (Storage.respects_pathExists h.path).mapErr.bind fun found _ => ?_
  · rw [dropLast_completionReceiptPath]
    exact h.directory
  split
  · exact (respects_readCompletionReceipt h).bind fun _ _ => settled _
  · refine (Storage.respects_writeTemporary h.temporary).mapErr.bind fun source _ => ?_
    refine (Storage.respects_promoteRenameNoReplace h.temporary h.path).attempt.bind fun r _ => ?_
    rcases r with e | ⟨⟩
    · dsimp only
      split
      · exact (respects_readCompletionReceipt h).bind fun _ _ => settled _
      · exact .throw
    · exact .pure trivial

/-- The names of the snapshot of a partial file. -/
structure Footprint.Snapshot (U : Footprint Γ) (partialPath : Path) : Prop where
  path : U.path (chunkStatePath partialPath)
  temporary : U.path (chunkStateTemporaryPath partialPath)

theorem respects_writeChunkState {state : ChunkState} (h : U.Snapshot path) :
    (writeChunkState path state).Respects U.rel Any :=
  (Storage.respects_replaceFile h.path h.temporary).mapErr

theorem respects_readChunkState (h : U.Snapshot path) :
    (readChunkState path).Respects U.rel Any :=
  (Storage.respects_read h.path).mapErr.bind fun _ _ => .ofExcept fun _ _ => trivial

omit [Crates] in
theorem respects_removeChunkState (h : U.Snapshot path) :
    (removeChunkState path).Respects U.rel Any :=
  (Storage.respects_removeIfExists h.path).mapErr.bind fun _ _ =>
    (Storage.respects_removeIfExists h.temporary).mapErr

omit [Crates] in
theorem respects_hashRange {length : ℕ} (h : U.holds file) :
    (hashRange file length).Respects U.rel Any := by
  refine Respects.loop (W := fun s : Hasher × ℕ × File => U.holds s.2.2)
    (fun _ _ _ _ _ => rfl) ?_ h
  rintro ⟨hasher, remaining, file⟩ hs
  dsimp only
  split
  · refine (File.respects_read hs).bind fun r hr => ?_
    split
    · exact .pure trivial
    · exact .pure hr
  · exact .pure trivial

theorem respects_revalidateChunks {layout : ChunkLayout} {chunks : List RecordedChunk}
    (h : U.holds file) : (revalidateChunks file layout chunks).Respects U.rel Any := by
  induction chunks with
  | nil => exact .pure trivial
  | cons chunk chunks ih =>
    unfold revalidateChunks
    rcases layout.range chunk.index with _ | range
    · exact ih
    · have hseek : U.holds (file.seek range.offset.toNat) := h
      refine (respects_hashRange hseek).bind fun r _ => ih.bind fun _ _ => ?_
      split <;> exact .pure trivial

theorem respects_prepareChunkInventory {layout : ChunkLayout} (hp : U.path path)
    (h : U.Snapshot path) : (prepareChunkInventory path layout).Respects U.rel Any := by
  have built (layout : ChunkLayout) (chunks : List RecordedChunk) :
      (.ofExcept (ChunkState.new layout chunks) :
        Prog (Disk Γ) ChunkStateError ChunkState).Respects U.rel Any := .ofExcept fun _ _ => trivial
  refine (respects_readChunkState h).attempt.bind fun r _ => ?_
  cases r with
  | error e =>
    cases e with
    | io e =>
      dsimp only
      split
      · exact built _ _
      · exact .throw
    | _ => exact built _ _
  | ok state =>
    dsimp only
    split
    · unfold revalidateChunkState
      split
      · exact built _ _
      · refine (Storage.respects_openRegular hp).attempt.bind fun r hr => ?_
        rcases r with e | file
        · dsimp only
          split
          · exact built _ _
          · exact .throw
        · exact (respects_revalidateChunks (hr file rfl)).mapErr.bind fun _ _ => built _ _
    · exact built _ _

end

end Warpfile
