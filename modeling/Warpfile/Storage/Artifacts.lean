import Warpfile.Foundation.Hidden
import Warpfile.Storage.Paths

/-!
# The names of different transfers do not meet

A transfer has six names, made of its filename, and its Transfer ID has two more. Names are made by
appending suffixes to what a peer chose; that two of them are never the same is read off from the
ends of the suffixes and the lengths of the paths.

`foreignPaths` are the names of all other filenames and all other Transfer IDs.
-/

namespace Warpfile

/-- What may stand between two slashes of a path. -/
structure IsComponent (name : String) : Prop where
  ne_empty : name ≠ ""
  ne_dot : name ≠ "."
  ne_dots : name ≠ ".."
  no_slash : '/' ∉ name.toList

theorem isComponent_of_isSafeFilename {filename : String} (h : isSafeFilename filename) :
    IsComponent filename := by
  unfold isSafeFilename at h
  split at h
  · exact absurd h (by decide)
  · rename_i hn
    simp only [Bool.or_eq_true, decide_eq_true_eq, not_or, List.contains_iff_mem] at hn
    simp only [Bool.not_eq_true', Bool.or_eq_false_iff, decide_eq_false_iff_not] at h
    exact ⟨hn.1.1.1, h.1, h.2, hn.1.1.2⟩

/-- The final file, the partial file, and the files beside it. -/
def transferPaths (dest : Path) (filename : String) : List Path :=
  let partialPath := partialPath dest filename
  [finalPath dest filename, partialPath, transferMetadataPath partialPath,
    transferMetadataTemporaryPath partialPath, chunkStatePath partialPath,
    chunkStateTemporaryPath partialPath]

/-- What is appended to a filename in the directory of the partial files. -/
def partialSuffixes : List String :=
  [".part", ".part.warpmeta", ".part.warpmeta.tmp", ".part.warpchunks", ".part.warpchunks.tmp"]

section

variable {dest p : Path} {filename filename' s s' : String} {T T' : TransferId}

theorem transferPaths_eq : transferPaths dest filename = finalPath dest filename ::
    partialSuffixes.map fun s => partialsDirectory dest ++ [filename ++ s] := by
  simp [transferPaths, partialSuffixes, partialPath, transferMetadataPath,
    transferMetadataTemporaryPath, chunkStatePath, chunkStateTemporaryPath, String.append_assoc]

/-- A filename and a suffix are told from each other by the end of the name. -/
theorem append_suffix_inj (hs : s ∈ partialSuffixes) (hs' : s' ∈ partialSuffixes)
    (h : filename ++ s = filename' ++ s') : filename = filename' ∧ s = s' := by
  have tmp {a b : String} (h : a ++ ".part.warpmeta.tmp" = b ++ ".part.warpchunks.tmp") : False := by
    have split (a s : String) : a ++ (s ++ ".tmp") = (a ++ s) ++ ".tmp" :=
      (String.append_assoc).symm
    have h : a ++ (".part.warpmeta" ++ ".tmp") = b ++ (".part.warpchunks" ++ ".tmp") := h
    rw [split, split, append_left_inj] at h
    exact append_ne_append (by decide) (by decide) (by decide) h
  simp only [partialSuffixes, List.mem_cons, List.not_mem_nil, or_false] at hs hs'
  rcases hs with rfl | rfl | rfl | rfl | rfl <;> rcases hs' with rfl | rfl | rfl | rfl | rfl
  all_goals first
    | exact ⟨append_left_inj.mp h, rfl⟩
    | exact absurd h (append_ne_append (by decide) (by decide) (by decide))
    | exact (tmp h).elim
    | exact (tmp h.symm).elim

theorem mem_transferPaths : p ∈ transferPaths dest filename ↔ p = finalPath dest filename ∨
    ∃ s ∈ partialSuffixes, p = partialsDirectory dest ++ [filename ++ s] := by
  simp only [transferPaths_eq, List.mem_cons, List.mem_map, eq_comm]

private theorem length_finalPath : (finalPath dest filename).length = dest.length + 1 := by
  simp [finalPath]

private theorem length_partials {name : String} :
    (partialsDirectory dest ++ [name]).length = dest.length + 3 := by
  simp [partialsDirectory, internalDirectory]

private theorem length_completionReceiptPath :
    (completionReceiptPath dest T).length = dest.length + 3 := by
  simp [completionReceiptPath, receiptsDirectory, internalDirectory]

private theorem completionReceiptTemporaryPath_eq : completionReceiptTemporaryPath dest T =
    receiptsDirectory dest ++ [toHex T.1 ++ "." ++ "json" ++ ".tmp"] := by
  rw [completionReceiptTemporaryPath, completionReceiptPath, appendSuffix_concat]

private theorem length_completionReceiptTemporaryPath :
    (completionReceiptTemporaryPath dest T).length = dest.length + 3 := by
  simp [completionReceiptTemporaryPath_eq, receiptsDirectory, internalDirectory]

private theorem partialSuffixes_nodup : partialSuffixes.Nodup := by decide

/-- The names of one filename are distinct. -/
theorem nodup_transferPaths : (transferPaths dest filename).Nodup := by
  rw [transferPaths_eq, List.nodup_cons]
  constructor
  · intro hmem
    obtain ⟨s, -, hs⟩ := List.mem_map.mp hmem
    have := congrArg List.length hs
    rw [length_partials, length_finalPath] at this
    omega
  · refine List.Nodup.map_on (fun s hs s' hs' h => ?_) partialSuffixes_nodup
    have h : filename ++ s = filename ++ s' := by simpa using h
    exact (append_suffix_inj hs hs' h).2

/-- **Different filenames have different names.** -/
theorem disjoint_transferPaths (h : filename ≠ filename') :
    List.Disjoint (transferPaths dest filename) (transferPaths dest filename') := by
  intro p hp hp'
  rw [mem_transferPaths] at hp hp'
  rcases hp with rfl | ⟨s, hs, rfl⟩ <;> rcases hp' with hp' | ⟨s', hs', hp'⟩
  · exact h (finalPath_inj.mp hp')
  · have := congrArg List.length hp'
    rw [length_partials, length_finalPath] at this
    omega
  · have := congrArg List.length hp'
    rw [length_partials, length_finalPath] at this
    omega
  · have hp' : filename ++ s = filename' ++ s' := by simpa using hp'
    exact h (append_suffix_inj hs hs' hp').1

theorem receipt_notMem_transferPaths : completionReceiptPath dest T ∉ transferPaths dest filename ∧
    completionReceiptTemporaryPath dest T ∉ transferPaths dest filename := by
  have notMem {p : Path} (hlength : p.length = dest.length + 3)
      (hdir : p.dropLast = receiptsDirectory dest) : p ∉ transferPaths dest filename := by
    rw [mem_transferPaths]
    rintro (rfl | ⟨s, -, rfl⟩)
    · rw [length_finalPath] at hlength
      omega
    · rw [List.dropLast_concat] at hdir
      exact receiptsDirectory_ne_partialsDirectory hdir.symm
  exact ⟨notMem length_completionReceiptPath dropLast_completionReceiptPath,
    notMem length_completionReceiptTemporaryPath dropLast_completionReceiptTemporaryPath⟩

/-! ### What a transfer must not meet -/

/-- The names of all other filenames and of all other Transfer IDs. -/
def foreignPaths (dest : Path) (filename : String) (T : TransferId) : Set Path :=
  {p | (∃ filename', isSafeFilename filename' ∧ filename' ≠ filename ∧
      p ∈ transferPaths dest filename') ∨
    ∃ T', T' ≠ T ∧ (p = completionReceiptPath dest T' ∨ p = completionReceiptTemporaryPath dest T')}

/-- Everything in a directory. -/
def insidePaths (dest : Path) : Set Path := {p | dest <+: p ∧ p ≠ dest}

theorem open_insidePaths (h : p <+: dest) : Fs.Open (insidePaths dest) p := fun _ hq hmem =>
  hmem.2 ((hq.trans h).eq_of_length_le hmem.1.length_le)

theorem foreignPaths_subset : foreignPaths dest filename T ⊆ insidePaths dest := by
  have inside {p : Path} (h : dest <+: p) (hlength : dest.length < p.length) :
      p ∈ insidePaths dest := ⟨h, fun he => by rw [he] at hlength; omega⟩
  rintro p (⟨filename', -, -, hp⟩ | ⟨T', -, rfl | rfl⟩)
  · rcases mem_transferPaths.mp hp with rfl | ⟨s, -, rfl⟩
    · exact inside (List.prefix_append _ _) (by rw [length_finalPath]; omega)
    · exact inside (prefix_partialsDirectory.trans (List.prefix_append _ _))
        (by rw [length_partials]; omega)
  · refine inside ?_ (by rw [length_completionReceiptPath]; omega)
    simp [completionReceiptPath, receiptsDirectory, internalDirectory]
  · refine inside ?_ (by rw [length_completionReceiptTemporaryPath]; omega)
    simp [completionReceiptTemporaryPath_eq, receiptsDirectory, internalDirectory]

/-- Two levels below the destination there is no foreign name, but for those of the final files. -/
private theorem open_directory {d : Path} (hlength : d.length = dest.length + 2)
    (hfinal : ∀ filename', isSafeFilename filename' → finalPath dest filename' ∉ Fs.chain d) :
    Fs.Open (foreignPaths dest filename T) d := by
  intro q hq hmem
  have hle := hq.length_le
  rw [hlength] at hle
  rcases hmem with ⟨filename', hsafe, -, hp⟩ | ⟨T', -, rfl | rfl⟩
  · rcases mem_transferPaths.mp hp with rfl | ⟨s, -, rfl⟩
    · exact hfinal filename' hsafe ⟨finalPath_ne_nil, hq⟩
    · rw [length_partials] at hle
      omega
  · rw [length_completionReceiptPath] at hle
    omega
  · rw [length_completionReceiptTemporaryPath] at hle
    omega

/-- The receiver's own directories are not foreign. -/
theorem open_partialsDirectory : Fs.Open (foreignPaths dest filename T) (partialsDirectory dest) :=
  open_directory (by simp [partialsDirectory, internalDirectory]) fun _ hsafe =>
    finalPath_notMem_chain_partialsDirectory (ne_internal_of_isSafeFilename hsafe)

theorem open_receiptsDirectory : Fs.Open (foreignPaths dest filename T) (receiptsDirectory dest) :=
  open_directory (by simp [receiptsDirectory, internalDirectory]) fun _ hsafe =>
    finalPath_notMem_chain_receiptsDirectory (ne_internal_of_isSafeFilename hsafe)

/-- A name in a directory on the way to which nothing is hidden. -/
theorem open_concat {F : Set Path} {d : Path} {name : String} (hp : d ++ [name] ∉ F)
    (h : Fs.Open F d) : Fs.Open F (d ++ [name]) := by
  intro q hq
  rcases List.prefix_concat_iff.mp hq with rfl | hq
  · exact hp
  · exact h q hq

theorem Fs.Open.of_prefix {F : Set Path} {d : Path} (h : Fs.Open F p) (hd : d <+: p) :
    Fs.Open F d := fun q hq => h q (hq.trans hd)

/-- A session may use its own names. -/
theorem open_of_mem_transferPaths (h : p ∈ transferPaths dest filename) :
    Fs.Open (foreignPaths dest filename T) p := by
  have hmem : p ∉ foreignPaths dest filename T := by
    rintro (⟨filename', -, hne, hp⟩ | ⟨T', -, rfl | rfl⟩)
    · exact disjoint_transferPaths hne hp h
    · exact receipt_notMem_transferPaths.1 h
    · exact receipt_notMem_transferPaths.2 h
  rcases mem_transferPaths.mp h with rfl | ⟨s, -, rfl⟩
  · exact open_concat hmem (open_partialsDirectory.of_prefix prefix_partialsDirectory)
  · exact open_concat hmem open_partialsDirectory

theorem open_completionReceiptPath :
    Fs.Open (foreignPaths dest filename T) (completionReceiptPath dest T) ∧
      Fs.Open (foreignPaths dest filename T) (completionReceiptTemporaryPath dest T) := by
  constructor
  · refine open_concat ?_ open_receiptsDirectory
    rintro (⟨filename', -, -, hp⟩ | ⟨T', hne, hp | hp⟩)
    · exact receipt_notMem_transferPaths.1 hp
    · exact hne (completionReceiptPath_inj.mp hp).symm
    · exact completionReceiptPath_ne_temporaryPath hp
  · rw [completionReceiptTemporaryPath_eq]
    refine open_concat ?_ open_receiptsDirectory
    rw [← completionReceiptTemporaryPath_eq]
    rintro (⟨filename', -, -, hp⟩ | ⟨T', hne, hp | hp⟩)
    · exact receipt_notMem_transferPaths.2 hp
    · exact completionReceiptPath_ne_temporaryPath hp.symm
    · rw [completionReceiptTemporaryPath_eq, completionReceiptTemporaryPath_eq] at hp
      have hp : toHex T.1 ++ "." ++ "json" ++ ".tmp" = toHex T'.1 ++ "." ++ "json" ++ ".tmp" := by
        simpa using hp
      exact hne (completionReceiptPath_inj.mp (congrArg (receiptsDirectory dest ++ [·])
        (append_left_inj.mp hp))).symm

end

end Warpfile
