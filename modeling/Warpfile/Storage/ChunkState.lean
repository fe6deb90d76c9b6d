import Mathlib.Data.Finset.Card
import Mathlib.Data.Finset.Range
import Warpfile.Storage.Chunk
import Warpfile.Storage.Crates
import Warpfile.Storage.Paths
import Warpfile.Storage.Storage

/-!
# The state of the chunks of a partial file

A `ChunkState` says of which chunks of a layout the bytes are known to be there, with their
digests: its records are in range and in the order of their indices. A snapshot of it stands next
to the partial file of WFP/0.3; before it is trusted, `revalidateChunkState` reads the chunks again.
-/

namespace Warpfile

variable {Γ : Setting}

abbrev chunkStateFormatVersion : UInt64 := 1
abbrev revalidationBufferSize : ℕ := 64 * 1024

structure RecordedChunk where
  index : UInt64
  hash : ChunkHash
  deriving DecidableEq, Repr

inductive ChunkStateError where
  | io (error : IoError)
  | document (error : DocumentError)
  | invalidChunkHash (index : UInt64)
  | chunkIndexOutOfRange (index : UInt64)
  | duplicateChunkIndex (index : UInt64)
  | unorderedChunkIndices (previous current : UInt64)
  deriving DecidableEq, Repr

/-- Records in order, each in range. -/
structure ValidChunks (layout : ChunkLayout) (chunks : List RecordedChunk) : Prop where
  increasing : chunks.Pairwise fun c c' => c.index.toNat < c'.index.toNat
  inRange : ∀ c ∈ chunks, c.index.toNat < layout.chunkCount.toNat

theorem validChunks_nil {layout : ChunkLayout} : ValidChunks layout [] := ⟨.nil, by simp⟩

theorem validChunks_cons {layout : ChunkLayout} {chunk : RecordedChunk}
    {chunks : List RecordedChunk} : ValidChunks layout (chunk :: chunks) ↔
      chunk.index.toNat < layout.chunkCount.toNat ∧
        (∀ c ∈ chunks, chunk.index.toNat < c.index.toNat) ∧ ValidChunks layout chunks := by
  constructor
  · rintro ⟨hinc, hrange⟩
    obtain ⟨h, hinc⟩ := List.pairwise_cons.mp hinc
    obtain ⟨h', hrange⟩ := List.forall_mem_cons.mp hrange
    exact ⟨h', h, hinc, hrange⟩
  · rintro ⟨h', h, hinc, hrange⟩
    exact ⟨List.pairwise_cons.mpr ⟨h, hinc⟩, List.forall_mem_cons.mpr ⟨h', hrange⟩⟩

section

variable {layout : ChunkLayout} {chunks : List RecordedChunk}

theorem ValidChunks.nodup (h : ValidChunks layout chunks) :
    (chunks.map fun c => c.index.toNat).Nodup := by
  rw [List.Nodup, List.pairwise_map]
  exact h.increasing.imp Nat.ne_of_lt

theorem ValidChunks.subset_range (h : ValidChunks layout chunks) :
    (chunks.map fun c => c.index.toNat).toFinset ⊆ Finset.range layout.chunkCount.toNat := by
  intro n hn
  obtain ⟨c, hc, rfl⟩ := List.mem_map.mp (List.mem_toFinset.mp hn)
  exact Finset.mem_range.mpr (h.inRange c hc)

theorem ValidChunks.card (h : ValidChunks layout chunks) :
    (chunks.map fun c => c.index.toNat).toFinset.card = chunks.length := by
  rw [List.toFinset_card_of_nodup h.nodup, List.length_map]

/-- There are no more records than chunks. -/
theorem ValidChunks.length_le (h : ValidChunks layout chunks) :
    chunks.length ≤ layout.chunkCount.toNat := by
  have hcard := Finset.card_le_card h.subset_range
  rwa [h.card, Finset.card_range] at hcard

/-- As many records as chunks are a record of each. -/
theorem ValidChunks.length_eq_iff (h : ValidChunks layout chunks) :
    chunks.length = layout.chunkCount.toNat ↔
      ∀ i < layout.chunkCount.toNat, ∃ c ∈ chunks, c.index.toNat = i := by
  constructor
  · intro hlen i hi
    have hall := Finset.eq_of_subset_of_card_le h.subset_range
      (by rw [Finset.card_range, h.card, hlen])
    have hmem : i ∈ (chunks.map fun c => c.index.toNat).toFinset := by
      rw [hall]
      exact Finset.mem_range.mpr hi
    exact List.mem_map.mp (List.mem_toFinset.mp hmem)
  · intro hall
    have hsub : Finset.range layout.chunkCount.toNat ⊆
        (chunks.map fun c => c.index.toNat).toFinset := by
      intro i hi
      exact List.mem_toFinset.mpr (List.mem_map.mpr (hall i (Finset.mem_range.mp hi)))
    have hcard := Finset.card_le_card hsub
    rw [h.card, Finset.card_range] at hcard
    exact le_antisymm h.length_le hcard

end

/-- The checks of the records after `previousIndex`. -/
def validateRecordedChunks (layout : ChunkLayout) :
    Option UInt64 → List RecordedChunk → Except ChunkStateError Unit
  | _, [] => .ok ()
  | previousIndex, chunk :: chunks => do
    refuseIf (layout.range chunk.index = none) (.chunkIndexOutOfRange chunk.index)
    if let some previous := previousIndex then
      refuseIf (chunk.index = previous) (.duplicateChunkIndex chunk.index)
      refuseIf (chunk.index < previous) (.unorderedChunkIndices previous chunk.index)
    validateRecordedChunks layout (some chunk.index) chunks

theorem validateRecordedChunks_eq_ok {layout : ChunkLayout} {previousIndex : Option UInt64}
    {chunks : List RecordedChunk} : validateRecordedChunks layout previousIndex chunks = .ok () ↔
      ValidChunks layout chunks ∧
        ∀ previous ∈ previousIndex, ∀ c ∈ chunks, previous.toNat < c.index.toNat := by
  induction chunks generalizing previousIndex with
  | nil => simp [validateRecordedChunks, validChunks_nil]
  | cons chunk chunks ih =>
    have hrange : layout.range chunk.index ≠ none ↔
        chunk.index.toNat < layout.chunkCount.toNat := by
      rw [ne_eq, ChunkLayout.range_eq_none, not_le, ← ChunkLayout.lt_chunkCount]
    have hprevious (previous : UInt64) : (chunk.index ≠ previous ∧ ¬chunk.index < previous) ↔
        previous.toNat < chunk.index.toNat := by
      rw [ne_eq, ← UInt64.toNat_inj, UInt64.lt_iff_toNat_lt]
      omega
    rw [validateRecordedChunks, validChunks_cons]
    cases previousIndex with
    | none =>
      simp only [bind_eq_ok, refuseIf_eq_ok, ih, Option.mem_def, Option.some.injEq, forall_eq']
      simp [← hrange, and_comm]
    | some previous =>
      simp only [bind_eq_ok, refuseIf_eq_ok, ih, Option.mem_def, Option.some.injEq, forall_eq',
        List.forall_mem_cons, ← hrange, ← hprevious]
      constructor
      · rintro ⟨-, h₁, -, h₂, -, h₃, h₄, h₅⟩
        refine ⟨⟨h₁, h₅, h₄⟩, ⟨h₂, h₃⟩, fun c hc => ?_⟩
        exact ((hprevious previous).mp ⟨h₂, h₃⟩).trans (h₅ c hc)
      · rintro ⟨⟨h₁, h₅, h₄⟩, ⟨h₂, h₃⟩, -⟩
        exact ⟨(), h₁, (), h₂, (), h₃, h₄, h₅⟩

/-- The chunks of a layout that are known to be there. -/
structure ChunkState where
  layout : ChunkLayout
  chunks : List RecordedChunk
  valid : ValidChunks layout chunks
  deriving DecidableEq

namespace ChunkState

def new (layout : ChunkLayout) (chunks : List RecordedChunk) : Except ChunkStateError ChunkState :=
  match h : validateRecordedChunks layout none chunks with
  | .ok () => .ok ⟨layout, chunks, (validateRecordedChunks_eq_ok.mp h).1⟩
  | .error e => .error e

/-- No chunk is known to be there. -/
def empty (layout : ChunkLayout) : ChunkState := ⟨layout, [], .nil, by simp⟩

theorem new_eq_ok {layout : ChunkLayout} {chunks : List RecordedChunk} {state : ChunkState} :
    new layout chunks = .ok state ↔ state.layout = layout ∧ state.chunks = chunks := by
  unfold new
  split
  · rw [Except.ok.injEq]
    constructor
    · rintro rfl
      exact ⟨rfl, rfl⟩
    · obtain ⟨l, c, v⟩ := state
      rintro ⟨rfl, rfl⟩
      rfl
  · rename_i e h
    refine ⟨fun h' => by simp at h', ?_⟩
    rintro ⟨rfl, rfl⟩
    have := (@validateRecordedChunks_eq_ok _ none _).mpr ⟨state.valid, by simp⟩
    exact nomatch h.symm.trans this

/-- What `binary_search_by_key` and the assignment or insertion after it do to records that are in
order. -/
def recordChunk (index : UInt64) (hash : ChunkHash) : List RecordedChunk → List RecordedChunk
  | [] => [{ index, hash }]
  | chunk :: chunks =>
    if chunk.index < index then chunk :: recordChunk index hash chunks
    else if chunk.index = index then { index, hash } :: chunks
    else { index, hash } :: chunk :: chunks

theorem mem_recordChunk {index : UInt64} {hash : ChunkHash} {chunks : List RecordedChunk}
    {layout : ChunkLayout} (h : ValidChunks layout chunks) {c : RecordedChunk} :
    c ∈ recordChunk index hash chunks ↔ c = ⟨index, hash⟩ ∨ c ∈ chunks ∧ c.index ≠ index := by
  induction chunks with
  | nil => simp [recordChunk]
  | cons chunk chunks ih =>
    obtain ⟨-, hfirst, hrest⟩ := validChunks_cons.mp h
    have after (hle : index.toNat ≤ chunk.index.toNat) (hc : c ∈ chunks) : c.index ≠ index := by
      rintro rfl
      have := hfirst c hc
      omega
    rw [recordChunk]
    split_ifs with hlt heq
    · have hne : chunk.index ≠ index := fun h => UInt64.lt_irrefl _ (h ▸ hlt)
      rw [List.mem_cons, ih hrest, List.mem_cons]
      constructor
      · rintro (rfl | h | ⟨h, h'⟩)
        · exact .inr ⟨.inl rfl, hne⟩
        · exact .inl h
        · exact .inr ⟨.inr h, h'⟩
      · rintro (h | ⟨rfl | h, h'⟩)
        · exact .inr (.inl h)
        · exact .inl rfl
        · exact .inr (.inr ⟨h, h'⟩)
    · rw [List.mem_cons, List.mem_cons]
      constructor
      · rintro (h | h)
        · exact .inl h
        · exact .inr ⟨.inr h, after (by rw [heq]) h⟩
      · rintro (h | ⟨rfl | h, h'⟩)
        · exact .inl h
        · exact absurd heq h'
        · exact .inr h
    · have hgt : index.toNat < chunk.index.toNat := by
        rw [UInt64.lt_iff_toNat_lt] at hlt
        rw [← UInt64.toNat_inj] at heq
        omega
      rw [List.mem_cons, List.mem_cons]
      constructor
      · rintro (h | rfl | h)
        · exact .inl h
        · exact .inr ⟨.inl rfl, heq⟩
        · exact .inr ⟨.inr h, after hgt.le h⟩
      · rintro (h | ⟨h, -⟩)
        · exact .inl h
        · exact .inr h

theorem valid_recordChunk {index : UInt64} {hash : ChunkHash} {chunks : List RecordedChunk}
    {layout : ChunkLayout} (h : ValidChunks layout chunks)
    (hlt : index.toNat < layout.chunkCount.toNat) :
    ValidChunks layout (recordChunk index hash chunks) := by
  induction chunks with
  | nil => exact validChunks_cons.mpr ⟨hlt, by simp, validChunks_nil⟩
  | cons chunk chunks ih =>
    obtain ⟨hrange, hfirst, hrest⟩ := validChunks_cons.mp h
    rw [recordChunk]
    split_ifs with hbefore heq
    · refine validChunks_cons.mpr ⟨hrange, fun c hc => ?_, ih hrest⟩
      rcases (mem_recordChunk hrest).mp hc with rfl | ⟨hc, -⟩
      · exact UInt64.lt_iff_toNat_lt.mp hbefore
      · exact hfirst c hc
    · exact validChunks_cons.mpr ⟨hlt, by rwa [← heq], hrest⟩
    · have hgt : index.toNat < chunk.index.toNat := by
        rw [UInt64.lt_iff_toNat_lt] at hbefore
        rw [← UInt64.toNat_inj] at heq
        omega
      refine validChunks_cons.mpr ⟨hlt, List.forall_mem_cons.mpr ⟨hgt, fun c hc => ?_⟩, h⟩
      exact hgt.trans (hfirst c hc)

def recordVerifiedChunk (state : ChunkState) (index : UInt64) (hash : ChunkHash) :
    Except ChunkStateError ChunkState :=
  if h : state.layout.range index = none then .error (.chunkIndexOutOfRange index)
  else .ok {
    layout := state.layout
    chunks := recordChunk index hash state.chunks
    valid := valid_recordChunk state.valid <| by
      rwa [ChunkLayout.range_eq_none, not_le, ← ChunkLayout.lt_chunkCount] at h }

theorem recordVerifiedChunk_eq_ok {state state' : ChunkState} {index : UInt64} {hash : ChunkHash}
    (h : state.recordVerifiedChunk index hash = .ok state') :
    state'.layout = state.layout ∧ state'.chunks = recordChunk index hash state.chunks := by
  unfold recordVerifiedChunk at h
  split_ifs at h
  obtain rfl := Except.ok.inj h
  exact ⟨rfl, rfl⟩

end ChunkState

/-! ### Snapshots -/

section

variable [Crates]

def RecordedChunk.json (chunk : RecordedChunk) : Json :=
  Json.ofFields [("index", .u64 chunk.index), ("blake3", .string (toHex chunk.hash.1))]

def ChunkState.fields (state : ChunkState) : List (String × Json) := [
  ("format_version", .u64 chunkStateFormatVersion),
  ("file_size", .u64 state.layout.fileSize),
  ("chunk_size", .u64 state.layout.chunkSize),
  ("chunks", .array (state.chunks.map RecordedChunk.json))]

def encodeChunkState (state : ChunkState) : Bytes := toVecPretty (Json.ofFields state.fields)

def decodeRecordedChunk (value : Json) : Except ChunkStateError RecordedChunk := do
  let entries ← value.asObject.elim (.error (.document (.invalidField "chunks"))) .ok
  let index ← (getField entries "index" "chunks[].index" Json.asU64).mapError .document
  let hashText ← (getField entries "blake3" "chunks[].blake3" Json.asStr).mapError .document
  let hash ← (parseHex blake3HashLength hashText).elim (.error (.invalidChunkHash index)) .ok
  return { index, hash }

def decodeChunkState (bytes : Bytes) : Except ChunkStateError ChunkState := do
  let entries ← (documentEntries chunkStateFormatVersion bytes).mapError .document
  let fileSize ← (getField entries "file_size" "file_size" Json.asU64).mapError .document
  let chunkSize ← (getField entries "chunk_size" "chunk_size" Json.asU64).mapError .document
  let layout ← (ChunkLayout.new fileSize chunkSize).mapError
    fun _ => .document (.invalidField "chunk_size")
  let chunkValues ← (getField entries "chunks" "chunks" Json.asArray).mapError .document
  let chunks ← chunkValues.mapM decodeRecordedChunk
  ChunkState.new layout chunks

def writeChunkState (partialPath : Path) (state : ChunkState) :
    Prog (Disk Γ) ChunkStateError Unit :=
  (Storage.replaceFile (chunkStatePath partialPath) (chunkStateTemporaryPath partialPath)
    (encodeChunkState state)).mapErr .io

def readChunkState (partialPath : Path) : Prog (Disk Γ) ChunkStateError ChunkState := do
  let bytes ← (Storage.read (chunkStatePath partialPath)).mapErr .io
  .ofExcept (decodeChunkState bytes)

def removeChunkState (partialPath : Path) : Prog (Disk Γ) ChunkStateError Unit := do
  (Storage.removeIfExists (chunkStatePath partialPath)).mapErr .io
  (Storage.removeIfExists (chunkStateTemporaryPath partialPath)).mapErr .io

/-! ### Revalidation -/

/-- Read the bytes of a range, as far as they are there, into a hasher. What is left to read comes
with it. -/
def hashRange (file : File) (length : ℕ) : Prog (Disk Γ) IoError (Hasher × ℕ) :=
  .loop (fun (s : Hasher × ℕ × File) _ => s.2.1) (fun (hasher, remaining, file) => do
    if remaining > 0 then
      let readLength := min remaining revalidationBufferSize
      let (bytes, file) ← file.read readLength
      if bytes = [] then return .inr (hasher, remaining)
      else return .inl (hasher ++ bytes, remaining - bytes.length, file)
    else return .inr (hasher, remaining)) ([], length, file)

/-- The records whose chunks are in the file. -/
def revalidateChunks (file : File) (layout : ChunkLayout) :
    List RecordedChunk → Prog (Disk Γ) IoError (List RecordedChunk)
  | [] => return []
  | recordedChunk :: chunks =>
    match layout.range recordedChunk.index with
    | none => revalidateChunks file layout chunks
    | some range => do
      let (hasher, remaining) ← hashRange (file.seek range.offset.toNat) range.length.toNat
      let verified ← revalidateChunks file layout chunks
      if remaining = 0 ∧ blake3 hasher = recordedChunk.hash then
        return recordedChunk :: verified
      else return verified

def revalidateChunkState (partialPath : Path) (state : ChunkState) :
    Prog (Disk Γ) ChunkStateError ChunkState := do
  if state.chunks = [] then .ofExcept (ChunkState.new state.layout [])
  else
    match ← (Storage.openRegular partialPath true false false false).attempt with
    | .ok file =>
      let verifiedChunks ← (revalidateChunks file state.layout state.chunks).mapErr .io
      .ofExcept (ChunkState.new state.layout verifiedChunks)
    | .error error =>
      if error.kind = .notFound then .ofExcept (ChunkState.new state.layout [])
      else throw (.io error)

def prepareChunkInventory (partialPath : Path) (offeredLayout : ChunkLayout) :
    Prog (Disk Γ) ChunkStateError ChunkState := do
  match ← (readChunkState partialPath).attempt with
  | .ok state =>
    if state.layout = offeredLayout then revalidateChunkState partialPath state
    else .ofExcept (ChunkState.new offeredLayout [])
  | .error (.io error) =>
    if error.kind = .notFound then .ofExcept (ChunkState.new offeredLayout [])
    else throw (.io error)
  | .error _ => .ofExcept (ChunkState.new offeredLayout [])

/-! ### Specifications -/

open Prog

variable {faults crashes : Bool} {d : Disk (.alone faults crashes)} {path : Path}

/-- The snapshot next to a partial file, as it is on disk. -/
def Fs.chunkState (fs : Fs) (partialPath : Path) : Option ChunkState := do
  let bytes ← fs.read (chunkStatePath partialPath)
  (decodeChunkState bytes).toOption

/-- The whole range lies in the bytes, and they hash to the record. -/
def RecordedChunk.TrueOf (layout : ChunkLayout) (bytes : Bytes) (chunk : RecordedChunk) : Prop :=
  ∃ range, layout.range chunk.index = some range ∧
    range.offset.toNat + range.length.toNat ≤ bytes.length ∧
    blake3 (range.slice bytes) = chunk.hash

omit [Crates] in
theorem hashRange_spec {file : File} {length : ℕ} : (hashRange file length).Ensures d (Post
    (fun r d' => d'.fs = d.fs ∧ r.1 = ((d.fs.data file.ino).drop file.pos).take length ∧
      r.2 = length - r.1.length)
    (fun _ d' => d'.fs = d.fs ∧ faults) fun d' => d'.fs = d.fs ∧ crashes) := by
  -- the hasher holds what was read, and the file stands after it
  refine Ensures.loop (fun s d' => d'.fs = d.fs ∧ ∃ n ≤ length,
      s.1 = ((d.fs.data file.ino).drop file.pos).take n ∧ s.1.length = n ∧
      s.2.1 = length - n ∧ s.2.2 = { file with pos := file.pos + n }) ?_
    ⟨rfl, 0, Nat.zero_le _, rfl, rfl, rfl, rfl⟩
  rintro ⟨hasher, remaining, file'⟩ d₁ ⟨h₁, n, hn, hhasher, hlen, hremaining, hfile⟩
  simp only at hhasher hlen hremaining hfile
  subst hfile
  dsimp only
  by_cases hmore : remaining > 0
  · rw [if_pos hmore]
    refine Ensures.bind File.read_spec ?_ (fun _ d' h => ⟨h.1.trans h₁, h.2⟩)
      fun d' h => ⟨h.1.trans h₁, h.2⟩
    rintro ⟨bytes, file'⟩ d₂ ⟨h₂, hpre, hle, hend, hfile'⟩
    simp only at hpre hle hend hfile'
    subst hfile'
    rw [h₁, ← List.drop_drop] at hpre hend
    dsimp only
    by_cases hbytes : bytes = []
    · have hdone := hend (by simp only [revalidationBufferSize]; omega) hbytes
      rw [if_pos hbytes, ensures_pure]
      refine ⟨h₂.trans h₁, ?_, by rw [hremaining, hlen]⟩
      have hn' := List.drop_eq_nil_iff.mp hdone
      rw [hhasher, List.take_of_length_le hn', List.take_of_length_le (hn'.trans hn)]
    · obtain ⟨rest, hrest⟩ := hpre
      have hpos := List.length_pos_iff.mpr hbytes
      rw [if_neg hbytes, ensures_pure]
      refine ⟨⟨h₂.trans h₁, n + bytes.length, by omega, ?_, ?_, ?_, ?_⟩, ?_⟩
      · rw [List.take_add, ← hhasher, ← hrest, List.take_left]
      · rw [List.length_append, hlen]
      · dsimp only
        omega
      · dsimp only
        rw [Nat.add_assoc]
      · dsimp only
        omega
  · rw [if_neg hmore, ensures_pure]
    obtain rfl : n = length := by omega
    exact ⟨h₁, hhasher, by rw [hlen]; omega⟩

/-- The range of a chunk is read as a whole exactly where it lies in the file. -/
private theorem trueOf_iff {layout : ChunkLayout} {bytes : Bytes} {chunk : RecordedChunk}
    {range : ChunkRange} (h : layout.range chunk.index = some range) :
    chunk.TrueOf layout bytes ↔ range.length.toNat - (range.slice bytes).length = 0 ∧
      blake3 (range.slice bytes) = chunk.hash := by
  obtain ⟨hlt, -, -, hlength⟩ := ChunkLayout.range_eq_some.mp h
  have hpos := layout.chunkSize_pos
  have hlen : range.length.toNat - (range.slice bytes).length = 0 ↔
      range.offset.toNat + range.length.toNat ≤ bytes.length := by
    rw [ChunkRange.slice, List.length_take, List.length_drop]
    omega
  simp [RecordedChunk.TrueOf, h, hlen]

open Classical in
/-- The records that are true of a file, in their order. -/
noncomputable def trueChunks (layout : ChunkLayout) (bytes : Bytes) (chunks : List RecordedChunk) :
    List RecordedChunk := chunks.filter fun c => c.TrueOf layout bytes

theorem trueChunks_sublist (layout : ChunkLayout) (bytes : Bytes) (chunks : List RecordedChunk) :
    (trueChunks layout bytes chunks).Sublist chunks := List.filter_sublist

theorem mem_trueChunks {layout : ChunkLayout} {bytes : Bytes} {chunks : List RecordedChunk}
    {c : RecordedChunk} :
    c ∈ trueChunks layout bytes chunks ↔ c ∈ chunks ∧ c.TrueOf layout bytes := by
  simp [trueChunks]

theorem revalidateChunks_spec {file : File} {layout : ChunkLayout} (chunks : List RecordedChunk) :
    (revalidateChunks file layout chunks).Ensures d (Post
      (fun verified d' => d'.fs = d.fs ∧
        verified = trueChunks layout (d.fs.data file.ino) chunks)
      (fun _ d' => d'.fs = d.fs ∧ faults) fun d' => d'.fs = d.fs ∧ crashes) := by
  induction chunks generalizing d with
  | nil => exact ensures_pure.mpr ⟨rfl, rfl⟩
  | cons chunk chunks ih =>
    rw [revalidateChunks]
    rcases hrange : layout.range chunk.index with _ | range
    · have hfalse : ¬chunk.TrueOf layout (d.fs.data file.ino) := by
        rintro ⟨range, h, -⟩
        exact nomatch hrange.symm.trans h
      refine ih.mono fun o d' h => ?_
      cases o with
      | ok verified => exact ⟨h.1, by rw [h.2]; simp [trueChunks, hfalse]⟩
      | err => exact h
      | halt => exact h
    · refine Ensures.bind hashRange_spec ?_ (fun _ _ h => h) fun _ h => h
      rintro ⟨hasher, remaining⟩ d₁ ⟨h₁, hhasher, hremaining⟩
      simp only at hhasher hremaining
      refine Ensures.bind ih ?_ (fun _ d' h => ⟨h.1.trans h₁, h.2⟩) fun d' h => ⟨h.1.trans h₁, h.2⟩
      rintro verified d₂ ⟨h₂, hverified⟩
      have hslice : hasher = range.slice (d.fs.data file.ino) := hhasher
      rw [h₁] at hverified
      rw [hremaining, hslice]
      split_ifs with htrue
      · rw [← trueOf_iff hrange] at htrue
        rw [ensures_pure]
        exact ⟨h₂.trans h₁, by rw [hverified]; simp [trueChunks, htrue]⟩
      · rw [← trueOf_iff hrange] at htrue
        rw [ensures_pure]
        exact ⟨h₂.trans h₁, by rw [hverified]; simp [trueChunks, htrue]⟩

/-- The chunks that are there, of a partial file that may be absent. -/
noncomputable def Fs.trueChunks (fs : Fs) (partialPath : Path) (state : ChunkState) :
    List RecordedChunk :=
  match fs.read partialPath with
  | some bytes => Warpfile.trueChunks state.layout bytes state.chunks
  | none => []

/-- What the receiver offers to keep: the chunks of a snapshot of the same layout that are there. -/
noncomputable def Fs.inventory (fs : Fs) (partialPath : Path) (layout : ChunkLayout) :
    List RecordedChunk :=
  match fs.chunkState partialPath with
  | some state => if state.layout = layout then fs.trueChunks partialPath state else []
  | none => []

omit [Crates] in
theorem ValidChunks.sublist {layout : ChunkLayout} {chunks chunks' : List RecordedChunk}
    (h : ValidChunks layout chunks) (hs : chunks'.Sublist chunks) : ValidChunks layout chunks' :=
  ⟨h.increasing.sublist hs, fun c hc => h.inRange c (hs.subset hc)⟩

omit [Crates] in
/-- Records in order make a state. -/
theorem ensures_new {layout : ChunkLayout} {chunks : List RecordedChunk}
    (h : ValidChunks layout chunks) {Q : Outcome ChunkStateError ChunkState → Disk Γ → Prop}
    {d : Disk Γ} : (Prog.ofExcept (ChunkState.new layout chunks)).Ensures d Q ↔
      Q (.ok ⟨layout, chunks, h⟩) d := by
  rw [ChunkState.new_eq_ok.mpr (show (⟨layout, chunks, h⟩ : ChunkState).layout = layout ∧ _ from
    ⟨rfl, rfl⟩)]
  exact ensures_ofExcept

theorem revalidateChunkState_spec (hp : path ≠ []) {state : ChunkState} :
    (revalidateChunkState path state).Ensures d (Post
      (fun s d' => d'.fs = d.fs ∧ s.layout = state.layout ∧ s.chunks = d.fs.trueChunks path state)
      (fun _ d' => d'.fs = d.fs ∧ (faults ∨ d.fs.Irregular path))
      fun d' => d'.fs = d.fs ∧ crashes) := by
  rw [revalidateChunkState]
  split_ifs with hempty
  · rw [ensures_new validChunks_nil]
    refine ⟨rfl, rfl, ?_⟩
    unfold Fs.trueChunks
    rw [hempty]
    split <;> rfl
  · refine Ensures.bind_attempt (Storage.openRegular_spec hp) ?_ ?_ fun d' h => h
    · rintro file d₁ ⟨h₁, hn, -, -⟩
      have hread : d.fs.read path = some (d.fs.data file.ino) := Fs.read_eq_some.mpr ⟨_, hn, rfl⟩
      refine Ensures.bind_mapErr (revalidateChunks_spec state.chunks) ?_
        (fun _ d' h => ⟨h.1.trans h₁, .inl h.2⟩) fun d' h => ⟨h.1.trans h₁, h.2⟩
      rintro verified d₂ ⟨h₂, rfl⟩
      rw [h₁, ensures_new (state.valid.sublist (trueChunks_sublist ..))]
      exact ⟨h₂.trans h₁, rfl, by rw [Fs.trueChunks, hread]⟩
    · rintro e d₁ ⟨h₁, hnone, herr⟩
      dsimp only
      split_ifs with hk
      · rw [ensures_new validChunks_nil]
        refine ⟨h₁, rfl, ?_⟩
        rw [Fs.trueChunks, Fs.read_eq_none fun i => by simp [hnone hk]]
      · rw [ensures_throw]
        exact ⟨h₁, herr.imp_right fun h => h.resolve_right hk⟩

omit [Crates] in
private theorem bind_ne_error {ε α β : Type} {x : Except ε α} {f : α → Except ε β} {e : ε}
    (hx : x ≠ .error e) (hf : ∀ a, f a ≠ .error e) : x >>= f ≠ .error e := by
  cases x with
  | error e' => exact fun h => hx (congrArg Except.error (Except.error.inj h))
  | ok a => exact hf a

omit [Crates] in
private theorem mapError_ne_error {ε ε' α : Type} {x : Except ε' α} {f : ε' → ε} {e : ε}
    (h : ∀ e', f e' ≠ e) : x.mapError f ≠ .error e := by
  cases x with
  | error e' => exact fun h' => h e' (Except.error.inj h')
  | ok a => exact fun h' => nomatch h'

omit [Crates] in
private theorem validateRecordedChunks_ne_io {layout : ChunkLayout} {previousIndex : Option UInt64}
    {chunks : List RecordedChunk} {error : IoError} :
    validateRecordedChunks layout previousIndex chunks ≠ .error (.io error) := by
  have refuse {c : Prop} [Decidable c] {e : ChunkStateError} (he : e ≠ .io error) :
      refuseIf c e ≠ .error (.io error) := by
    unfold refuseIf
    split_ifs
    · exact fun h => he (Except.error.inj h)
    · exact fun h => nomatch h
  induction chunks generalizing previousIndex with
  | nil => exact fun h => nomatch h
  | cons chunk chunks ih =>
    refine bind_ne_error (refuse fun h => nomatch h) fun _ => ?_
    cases previousIndex with
    | none => exact ih
    | some previous =>
      exact bind_ne_error (refuse fun h => nomatch h) fun _ =>
        bind_ne_error (refuse fun h => nomatch h) fun _ => ih

/-- A snapshot that cannot be decoded is no failure of a file operation. -/
theorem decodeChunkState_ne_io {bytes : Bytes} {error : IoError} :
    decodeChunkState bytes ≠ .error (.io error) := by
  have document {α : Type} {x : Except DocumentError α} :
      x.mapError ChunkStateError.document ≠ .error (.io error) :=
    mapError_ne_error fun e' h => nomatch h
  have elim {α : Type} {o : Option α} {e : ChunkStateError} (he : e ≠ .io error) :
      (o.elim (.error e) .ok : Except ChunkStateError α) ≠ .error (.io error) := by
    cases o with
    | none => exact fun h => he (Except.error.inj h)
    | some a => exact fun h => nomatch h
  have chunk (value : Json) : decodeRecordedChunk value ≠ .error (.io error) :=
    bind_ne_error (elim fun h => nomatch h) fun _ => bind_ne_error document fun _ =>
      bind_ne_error document fun _ => bind_ne_error (elim fun h => nomatch h) fun _ h => nomatch h
  have chunks (values : List Json) : values.mapM decodeRecordedChunk ≠ .error (.io error) := by
    induction values with
    | nil => exact fun h => nomatch h
    | cons value values ih =>
      rw [List.mapM_cons]
      exact bind_ne_error (chunk value) fun _ => bind_ne_error ih fun _ h => nomatch h
  refine bind_ne_error document fun _ => bind_ne_error document fun _ =>
    bind_ne_error document fun _ => bind_ne_error (mapError_ne_error fun _ h => nomatch h) fun _ =>
      bind_ne_error document fun _ => bind_ne_error (chunks _) fun cs => ?_
  unfold ChunkState.new
  split
  · exact fun h => nomatch h
  · rename_i e hv
    exact fun h => validateRecordedChunks_ne_io (hv.trans (congrArg _ (Except.error.inj h)))

theorem readChunkState_spec : (readChunkState path).Ensures d (Post
    (fun s d' => d'.fs = d.fs ∧ d.fs.chunkState path = some s)
    (fun e d' => d'.fs = d.fs ∧ (faults ∨ d.fs.Irregular (chunkStatePath path) ∨
      d.fs.chunkState path = none ∧ ∀ error, e = .io error → error.kind = .notFound))
    fun d' => d'.fs = d.fs ∧ crashes) := by
  refine Ensures.bind_mapErr (Storage.read_spec appendSuffix_ne_nil) ?_ (fun e d' h => ?_) fun _ h => h
  · rintro bytes d₁ ⟨h₁, hread⟩
    rw [ensures_ofExcept]
    rcases hdecode : decodeChunkState bytes with e | state
    · refine ⟨h₁, .inr (.inr ⟨?_, ?_⟩)⟩
      · simp [Fs.chunkState, hread, hdecode, Except.toOption]
      · rintro error rfl
        exact absurd hdecode decodeChunkState_ne_io
    · exact ⟨h₁, by simp [Fs.chunkState, hread, hdecode, Except.toOption]⟩
  · refine ⟨h.1, h.2.imp_right (Or.imp_right fun h => ⟨?_, ?_⟩)⟩
    · rw [Fs.chunkState, Fs.read_eq_none fun i => by simp [h.1]]
      rfl
    · rintro error herr
      obtain rfl : e = error := by simpa using herr
      exact h.2

theorem prepareChunkInventory_spec (hp : path ≠ []) {layout : ChunkLayout} :
    (prepareChunkInventory path layout).Ensures d (Post
      (fun s d' => d'.fs = d.fs ∧ s.layout = layout ∧
        (s.chunks = d.fs.inventory path layout ∨ faults ∧ s.chunks = []))
      (fun _ d' => d'.fs = d.fs ∧
        (faults ∨ d.fs.Irregular path ∨ d.fs.Irregular (chunkStatePath path)))
      fun d' => d'.fs = d.fs ∧ crashes) := by
  refine Ensures.bind_attempt readChunkState_spec ?_ ?_ fun d' h => h
  · rintro state d₁ ⟨h₁, hstate⟩
    dsimp only
    split_ifs with hlayout
    · rw [Fs.inventory, hstate, ← hlayout]
      simp only [if_true, ← h₁]
      refine (revalidateChunkState_spec hp).mono fun o d' h => ?_
      cases o with
      | ok s => exact ⟨h.1, h.2.1, .inl h.2.2⟩
      | err e => exact ⟨h.1, h.2.imp_right .inl⟩
      | halt => exact h
    · rw [ensures_new validChunks_nil]
      exact ⟨h₁, rfl, .inl (by rw [Fs.inventory, hstate]; simp [hlayout])⟩
  · rintro e d₁ ⟨h₁, herr⟩
    have absent (h : d.fs.chunkState path = none) : d.fs.inventory path layout = [] := by
      rw [Fs.inventory, h]
    have none_of_irregular (h : d.fs.Irregular (chunkStatePath path)) :
        d.fs.chunkState path = none := by
      rw [Fs.chunkState, h.read_eq_none appendSuffix_ne_nil]
      rfl
    have empty : (Prog.ofExcept (ChunkState.new layout [])).Ensures d₁ (Post
        (fun s d' => d'.fs = d.fs ∧ s.layout = layout ∧
          (s.chunks = d.fs.inventory path layout ∨ faults ∧ s.chunks = []))
        (fun _ d' => d'.fs = d.fs ∧
          (faults ∨ d.fs.Irregular path ∨ d.fs.Irregular (chunkStatePath path)))
        fun d' => d'.fs = d.fs ∧ crashes) := by
      rw [ensures_new validChunks_nil]
      refine ⟨h₁, rfl, ?_⟩
      rcases herr with h | h
      · exact .inr ⟨h, rfl⟩
      · exact .inl (absent (h.elim none_of_irregular And.left)).symm
    cases e with
    | io error =>
      dsimp only
      split_ifs with hk
      · exact empty
      · rw [ensures_throw]
        refine ⟨h₁, herr.imp_right fun h => .inr (h.resolve_right fun h => hk (h.2 error rfl))⟩
    | _ => exact empty

end

end Warpfile
