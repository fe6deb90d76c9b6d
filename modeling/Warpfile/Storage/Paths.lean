import Warpfile.Foundation.Hex
import Warpfile.Foundation.FileSystem
import Warpfile.Protocol.Payload

/-!
# Where a transfer keeps its files

The final file of a transfer is a direct child of the destination directory. The partial file
and the files beside it stand in `.warpfile/partials`, under the filename with suffixes; the
receipt stands in `.warpfile/receipts`, under the Transfer ID. The paths of one transfer are
distinct, and those of transfers with other filenames or other Transfer IDs are others.
-/

namespace Warpfile

def internalDirectoryName : String := ".warpfile"

def internalDirectory (destinationDirectory : Path) : Path :=
  destinationDirectory ++ [internalDirectoryName]

def partialsDirectory (destinationDirectory : Path) : Path :=
  internalDirectory destinationDirectory ++ ["partials"]

def partialPath (destinationDirectory : Path) (filename : String) : Path :=
  partialsDirectory destinationDirectory ++ [filename ++ ".part"]

def finalPath (destinationDirectory : Path) (filename : String) : Path :=
  destinationDirectory ++ [filename]

/-- Append to the last component. -/
def appendSuffix (path : Path) (suffix : String) : Path :=
  path.dropLast ++ [path.getLastD "" ++ suffix]

def transferMetadataPath (partialPath : Path) : Path := appendSuffix partialPath ".warpmeta"

def transferMetadataTemporaryPath (partialPath : Path) : Path :=
  appendSuffix (transferMetadataPath partialPath) ".tmp"

def chunkStatePath (partialPath : Path) : Path := appendSuffix partialPath ".warpchunks"

def chunkStateTemporaryPath (partialPath : Path) : Path :=
  appendSuffix (chunkStatePath partialPath) ".tmp"

def receiptsDirectory (destinationDirectory : Path) : Path :=
  internalDirectory destinationDirectory ++ ["receipts"]

def completionReceiptPath (destinationDirectory : Path) (transferId : TransferId) : Path :=
  receiptsDirectory destinationDirectory ++ [toHex transferId.1 ++ "." ++ "json"]

def completionReceiptTemporaryPath (destinationDirectory : Path) (transferId : TransferId) : Path :=
  appendSuffix (completionReceiptPath destinationDirectory transferId) ".tmp"

/-! ### Safe filenames -/

/-- The name without a stream and without the dots and spaces at its end, in lower case, is the
name of the internal directory. -/
def conflictsWithInternalDirectory (filename : String) : Bool :=
  let base := filename.toList.takeWhile (· ≠ ':')
  let normalizedBase := base.rdropWhile fun c => c = ' ' || c = '.'
  normalizedBase.map Char.toLower = internalDirectoryName.toList

def isSafeFilename (filename : String) : Bool :=
  if filename = "" || filename.toList.contains '/' || filename.toList.contains '\\'
      || conflictsWithInternalDirectory filename then false
  else !(filename = "." || filename = "..")

theorem ne_empty_of_isSafeFilename {filename : String} (h : isSafeFilename filename) :
    filename ≠ "" := by
  rintro rfl
  simp [isSafeFilename] at h

theorem ne_internal_of_isSafeFilename {filename : String} (h : isSafeFilename filename) :
    filename ≠ internalDirectoryName := by
  rintro rfl
  revert h
  decide

@[simp]
theorem completionReceiptPath_ne_nil {dest : Path} {transferId : TransferId} :
    completionReceiptPath dest transferId ≠ [] := by
  simp [completionReceiptPath]

@[simp]
theorem dropLast_completionReceiptPath {dest : Path} {transferId : TransferId} :
    (completionReceiptPath dest transferId).dropLast = receiptsDirectory dest := by
  simp [completionReceiptPath]

/-! ### The directories -/

section

variable {dest : Path} {filename : String} {transferId : TransferId}

@[simp]
theorem finalPath_ne_nil : finalPath dest filename ≠ [] := by simp [finalPath]

@[simp]
theorem partialPath_ne_nil : partialPath dest filename ≠ [] := by simp [partialPath]

@[simp]
theorem dropLast_finalPath : (finalPath dest filename).dropLast = dest := by simp [finalPath]

@[simp]
theorem dropLast_partialPath : (partialPath dest filename).dropLast = partialsDirectory dest := by
  simp [partialPath]

theorem prefix_partialsDirectory : dest <+: partialsDirectory dest := by
  rw [partialsDirectory, internalDirectory, List.append_assoc]
  exact List.prefix_append _ _

/-- A partial file cannot exist without the destination directory. -/
theorem isDir_of_names_partialPath {fs : Fs} (h : fs.names (partialPath dest filename) ≠ none) :
    fs.isDir dest := by
  have := Fs.isDir_dropLast h
  rw [dropLast_partialPath] at this
  exact Fs.isDir_mono this prefix_partialsDirectory

@[simp]
theorem partialsDirectory_ne_self : dest ≠ partialsDirectory dest := by
  simp [partialsDirectory, internalDirectory]

@[simp]
theorem receiptsDirectory_ne_self : dest ≠ receiptsDirectory dest := by
  simp [receiptsDirectory, internalDirectory]

@[simp]
theorem receiptsDirectory_ne_partialsDirectory : receiptsDirectory dest ≠ partialsDirectory dest := by
  simp [receiptsDirectory, partialsDirectory]

end

section

variable {dest : Path} {filename : String}

private theorem notMem_chain_internal {name : String} (h : filename ≠ internalDirectoryName) :
    finalPath dest filename ∉ Fs.chain (internalDirectory dest ++ [name]) := by
  rintro ⟨-, hp⟩
  rw [finalPath, internalDirectory, List.append_assoc, List.prefix_append_right_inj,
    List.singleton_append, List.cons_prefix_cons] at hp
  exact h hp.1

/-- The final file is none of the receiver's own directories. -/
theorem finalPath_notMem_chain_receiptsDirectory (h : filename ≠ internalDirectoryName) :
    finalPath dest filename ∉ Fs.chain (receiptsDirectory dest) := notMem_chain_internal h

theorem finalPath_notMem_chain_partialsDirectory (h : filename ≠ internalDirectoryName) :
    finalPath dest filename ∉ Fs.chain (partialsDirectory dest) := notMem_chain_internal h

end

/-! ### The paths of one transfer are distinct -/

section

variable {path : Path} {s t : String}

@[simp]
theorem appendSuffix_concat (d : Path) (n s : String) : appendSuffix (d ++ [n]) s = d ++ [n ++ s] := by
  simp [appendSuffix]

@[simp]
theorem appendSuffix_ne_nil : appendSuffix path s ≠ [] := by simp [appendSuffix]

@[simp]
theorem dropLast_appendSuffix : (appendSuffix path s).dropLast = path.dropLast := by
  simp [appendSuffix]

theorem appendSuffix_appendSuffix : appendSuffix (appendSuffix path s) t = appendSuffix path (s ++ t) := by
  rw [appendSuffix, dropLast_appendSuffix, appendSuffix, appendSuffix, List.getLastD_concat,
    String.append_assoc]

theorem appendSuffix_empty (h : path ≠ []) : appendSuffix path "" = path := by
  rw [appendSuffix, String.append_empty]
  conv_rhs => rw [← List.dropLast_append_getLast h]
  rw [List.getLastD_eq_getLast?, List.getLast?_eq_some_getLast h, Option.getD_some]

@[simp]
theorem appendSuffix_inj : appendSuffix path s = appendSuffix path t ↔ s = t := by
  simp [appendSuffix]

theorem appendSuffix_ne_self (h : path ≠ []) (hs : s ≠ "") : appendSuffix path s ≠ path := by
  intro he
  rw [← appendSuffix_empty h, appendSuffix_appendSuffix, appendSuffix_inj, String.empty_append] at he
  exact hs he

@[simp]
theorem dropLast_completionReceiptTemporaryPath {dest : Path} {transferId : TransferId} :
    (completionReceiptTemporaryPath dest transferId).dropLast = receiptsDirectory dest := by
  simp [completionReceiptTemporaryPath]

theorem completionReceiptPath_ne_temporary {dest : Path} {transferId : TransferId} :
    completionReceiptPath dest transferId ≠ completionReceiptTemporaryPath dest transferId :=
  (appendSuffix_ne_self completionReceiptPath_ne_nil (by decide)).symm

@[simp]
theorem transferMetadataPath_ne_nil : transferMetadataPath path ≠ [] := appendSuffix_ne_nil

@[simp]
theorem transferMetadataTemporaryPath_ne_nil : transferMetadataTemporaryPath path ≠ [] :=
  appendSuffix_ne_nil

@[simp]
theorem dropLast_transferMetadataPath : (transferMetadataPath path).dropLast = path.dropLast :=
  dropLast_appendSuffix

@[simp]
theorem dropLast_transferMetadataTemporaryPath :
    (transferMetadataTemporaryPath path).dropLast = path.dropLast := by
  rw [transferMetadataTemporaryPath, dropLast_appendSuffix, dropLast_transferMetadataPath]

/-- Names that end in different characters are different. -/
theorem append_ne_append {a b s t : String} (hs : s.toList ≠ []) (ht : t.toList ≠ [])
    (h : s.toList.getLast? ≠ t.toList.getLast?) : a ++ s ≠ b ++ t := by
  intro he
  have he := congrArg (fun x => x.toList.getLast?) he
  simp only [String.toList_append, List.getLast?_append_of_ne_nil _ hs,
    List.getLast?_append_of_ne_nil _ ht] at he
  exact h he

theorem append_left_inj {a b s : String} : a ++ s = b ++ s ↔ a = b := by
  simp [← String.toList_inj]

theorem transferMetadataPath_ne_temporary :
    transferMetadataPath path ≠ transferMetadataTemporaryPath path :=
  (appendSuffix_ne_self transferMetadataPath_ne_nil (by decide)).symm

theorem chunkStatePath_ne_temporary : chunkStatePath path ≠ chunkStateTemporaryPath path :=
  (appendSuffix_ne_self appendSuffix_ne_nil (by decide)).symm

theorem dropLast_chunkStateTemporaryPath :
    (chunkStateTemporaryPath path).dropLast = (chunkStatePath path).dropLast :=
  dropLast_appendSuffix

theorem dropLast_of_mem_chunkStatePaths {p : Path}
    (h : p ∈ ({chunkStateTemporaryPath path, chunkStatePath path} : Set Path)) :
    p.dropLast = path.dropLast := by
  rcases h with rfl | rfl
  · rw [dropLast_chunkStateTemporaryPath, chunkStatePath, dropLast_appendSuffix]
  · exact dropLast_appendSuffix

/-- A partial file is not its own snapshot. -/
theorem notMem_chunkStatePaths (h : path ≠ []) :
    path ∉ ({chunkStateTemporaryPath path, chunkStatePath path} : Set Path) := by
  rintro (hp | hp)
  · rw [chunkStateTemporaryPath, chunkStatePath, appendSuffix_appendSuffix] at hp
    exact appendSuffix_ne_self h (by decide) hp.symm
  · exact appendSuffix_ne_self h (by decide) (Set.mem_singleton_iff.mp hp).symm

end

/-! ### The paths of different transfers -/

section

variable {dest : Path} {filename filename' : String} {T T' : TransferId}

@[simp]
theorem finalPath_inj : finalPath dest filename = finalPath dest filename' ↔ filename = filename' := by
  simp [finalPath]

@[simp]
theorem partialPath_inj :
    partialPath dest filename = partialPath dest filename' ↔ filename = filename' := by
  simp [partialPath]

@[simp]
theorem completionReceiptPath_inj :
    completionReceiptPath dest T = completionReceiptPath dest T' ↔ T = T' := by
  simp only [completionReceiptPath, List.append_cancel_left_eq, List.cons.injEq, and_true,
    append_left_inj]
  exact ⟨fun h => toHex_injective h, fun h => by rw [h]⟩

theorem completionReceiptPath_ne_temporaryPath :
    completionReceiptPath dest T ≠ completionReceiptTemporaryPath dest T' := by
  rw [completionReceiptTemporaryPath, completionReceiptPath, completionReceiptPath,
    appendSuffix_concat]
  intro h
  have h : toHex T.1 ++ "." ++ "json" = toHex T'.1 ++ "." ++ "json" ++ ".tmp" := by simpa using h
  exact append_ne_append (by decide) (by decide) (by decide) h

/-- A partial file is not the description of another one. -/
theorem partialPath_ne_transferMetadataPath :
    partialPath dest filename ≠ transferMetadataPath (partialPath dest filename') := by
  rw [transferMetadataPath, partialPath, partialPath, appendSuffix_concat]
  intro h
  have h : filename ++ ".part" = filename' ++ ".part" ++ ".warpmeta" := by simpa using h
  exact append_ne_append (by decide) (by decide) (by decide) h

theorem partialPath_ne_transferMetadataTemporaryPath :
    partialPath dest filename ≠ transferMetadataTemporaryPath (partialPath dest filename') := by
  rw [transferMetadataTemporaryPath, transferMetadataPath, partialPath, partialPath,
    appendSuffix_concat, appendSuffix_concat]
  intro h
  have h : filename ++ ".part" = filename' ++ ".part" ++ ".warpmeta" ++ ".tmp" := by simpa using h
  exact append_ne_append (by decide) (by decide) (by decide) h

end

end Warpfile
