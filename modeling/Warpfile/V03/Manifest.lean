import Warpfile.Storage.Partition
import Warpfile.V03.Attestation

/-!
# The manifest of a file that arrives in pieces

`ChunkManifestBuilder` hashes the chunks of a file from slices of any lengths. What a builder holds
depends only on the bytes it accepted (`absorbed`): the hashes of the chunks that are complete, and
the rest, which is the beginning of the next one. A scanner reads the same bytes chunk by chunk and
computes the same hashes.

A subtraction that underflows, an addition that overflows and a failed `expect` end the program.
-/

namespace Warpfile

/-- A slice in memory, whose length is a word. -/
abbrev ByteSlice : Type := { bs : Bytes // bs.length < 2 ^ 64 }

structure ChunkManifest where
  layout : ChunkLayout
  hashes : List ChunkHash
  deriving DecidableEq

inductive ChunkManifestError where
  | incompleteData (expected actual : UInt64)
  | tooMuchData (expected attempted : UInt64)
  deriving DecidableEq, Repr

structure ChunkManifestBuilder where
  layout : ChunkLayout
  hashes : List ChunkHash
  currentHasher : Hasher
  currentChunkLength : UInt64
  bytesReceived : UInt64

namespace ChunkManifest

def chunkCount (manifest : ChunkManifest) : UInt64 := manifest.layout.chunkCount

def hash (manifest : ChunkManifest) (index : UInt64) : Option ChunkHash :=
  manifest.hashes[index.toNat]?

end ChunkManifest

namespace ChunkManifestBuilder

open Prog

/-- Panic where there is no value. -/
def expect {σ ε α : Type} (value : Option α) : Prog σ ε α := value.elim .stop pure

/-- `u64::try_from(n)` -/
def tryFrom (n : ℕ) : Option UInt64 := if n < 2 ^ 64 then some (.ofNat n) else none

def saturatingAdd (a b : UInt64) : UInt64 := (checkedAdd a b).getD (.ofNat (2 ^ 64 - 1))

def new (layout : ChunkLayout) : ChunkManifestBuilder where
  layout
  hashes := []
  currentHasher := []
  currentChunkLength := 0
  bytesReceived := 0

variable [Crates]

/-- The body of the loop: as much of the data as the current chunk lacks. -/
def absorb (data : Bytes) : Prog ChunkManifestBuilder ChunkManifestError (Bytes ⊕ Unit) := do
  if data = [] then return .inr ()
  else do
    let b ← get
    let chunkIndex ← expect (tryFrom b.hashes.length)
    let range ← expect (b.layout.range chunkIndex)
    let remainingInChunk ← expect (checkedSub range.length b.currentChunkLength)
    let take := min remainingInChunk.toNat data.length
    let takeU64 ← expect (tryFrom take)
    let currentHasher := b.currentHasher ++ data.take take
    let currentChunkLength ← expect (checkedAdd b.currentChunkLength takeU64)
    let bytesReceived ← expect (checkedAdd b.bytesReceived takeU64)
    if currentChunkLength = range.length then
      modify fun b => { b with
        hashes := b.hashes ++ [blake3 currentHasher]
        currentHasher := [], currentChunkLength := 0, bytesReceived }
    else
      modify fun b => { b with currentHasher, currentChunkLength, bytesReceived }
    return .inl (data.drop take)

def update (data : ByteSlice) : Prog ChunkManifestBuilder ChunkManifestError Unit := do
  let b ← get
  let inputLength ← expect (tryFrom data.1.length)
  let attempted := saturatingAdd b.bytesReceived inputLength
  let room ← expect (checkedSub b.layout.fileSize b.bytesReceived)
  if inputLength > room then
    throw (.tooMuchData b.layout.fileSize attempted)
  else
    .loop (fun data _ => data.length) absorb data.1

omit [Crates] in
def finish (b : ChunkManifestBuilder) : Except ChunkManifestError ChunkManifest :=
  if b.bytesReceived ≠ b.layout.fileSize then
    .error (.incompleteData b.layout.fileSize b.bytesReceived)
  else .ok { layout := b.layout, hashes := b.hashes }

/-- Updates in sequence: what each returned, and the builder after them. A panic ends them. -/
def updates : List ByteSlice → ChunkManifestBuilder →
    Option (List (Except ChunkManifestError Unit) × ChunkManifestBuilder)
  | [], b => some ([], b)
  | data :: slices, b =>
    match update data b with
    | (.ok (), b') => (updates slices b').map (Prod.map (.ok () :: ·) id)
    | (.err e, b') => (updates slices b').map (Prod.map (.error e :: ·) id)
    | (.halt, _) => none

/-! ### What a builder has absorbed -/

variable {layout : ChunkLayout} {bytes : Bytes}

/-- The hash of a chunk. -/
def chunkHash (layout : ChunkLayout) (bytes : Bytes) (index : ℕ) : ChunkHash :=
  blake3 ((bytes.drop (index * layout.chunkSize.toNat)).take layout.chunkSize.toNat)

omit [Crates] in
/-- The number of chunks that end within the first bytes. -/
def completeChunks (layout : ChunkLayout) (length : ℕ) : ℕ :=
  if length = layout.fileSize.toNat then layout.chunkCount.toNat
  else length / layout.chunkSize.toNat

/-- The builder that accepted these bytes, in slices of whatever lengths. -/
def absorbed (layout : ChunkLayout) (bytes : Bytes) : ChunkManifestBuilder :=
  let complete := completeChunks layout bytes.length
  let rest := bytes.drop (complete * layout.chunkSize.toNat)
  { layout
    hashes := (List.range complete).map (chunkHash layout bytes)
    currentHasher := rest
    currentChunkLength := .ofNat rest.length
    bytesReceived := .ofNat bytes.length }

theorem new_eq : new layout = absorbed layout [] := by
  have hcomplete : completeChunks layout 0 = 0 := by
    unfold completeChunks
    split
    case isTrue h =>
      by_contra hne
      have := ChunkLayout.lt_chunkCount.mp (Nat.pos_of_ne_zero hne)
      omega
    case isFalse => exact Nat.zero_div _
  simp [new, absorbed, hcomplete]

omit [Crates] in
/-- Before the end of the file a chunk is begun, the one that the next byte belongs to. -/
private theorem completeChunks_of_lt {length : ℕ} (h : length < layout.fileSize.toNat) :
    completeChunks layout length * layout.chunkSize.toNat ≤ length ∧
      length < (completeChunks layout length + 1) * layout.chunkSize.toNat := by
  rw [completeChunks, if_neg h.ne]
  have hdiv := Nat.div_add_mod' length layout.chunkSize.toNat
  have hmod := Nat.mod_lt length layout.chunkSize_pos
  rw [Nat.succ_mul]
  omega

omit [Crates] in
private theorem completeChunks_eq {length n : ℕ} (h : length < layout.fileSize.toNat)
    (hle : n * layout.chunkSize.toNat ≤ length)
    (hlt : length < (n + 1) * layout.chunkSize.toNat) : completeChunks layout length = n := by
  rw [completeChunks, if_neg h.ne]
  rw [Nat.succ_mul] at hlt
  exact (Nat.div_eq_iff layout.chunkSize_pos).mpr ⟨hle, by omega⟩

omit [Crates] in
/-- A chunk is complete where its last byte is. -/
private theorem completeChunks_succ {n length : ℕ} (hn : n < layout.chunkCount.toNat)
    (hlength : length = n * layout.chunkSize.toNat + min layout.chunkSize.toNat
      (layout.fileSize.toNat - n * layout.chunkSize.toNat)) :
    completeChunks layout length = n + 1 := by
  have hlt := ChunkLayout.lt_chunkCount.mp hn
  have hpos := layout.chunkSize_pos
  have hsucc : (n + 1) * layout.chunkSize.toNat =
      n * layout.chunkSize.toNat + layout.chunkSize.toNat := Nat.succ_mul ..
  by_cases hend : length = layout.fileSize.toNat
  · rw [completeChunks, if_pos hend]
    have hlast : ¬n + 1 < layout.chunkCount.toNat := fun h => by
      have := ChunkLayout.lt_chunkCount.mp h
      omega
    omega
  · refine completeChunks_eq (by omega) (by omega) ?_
    rw [Nat.succ_mul]
    omega

/-- The hash of a chunk does not depend on what comes after it. -/
private theorem chunkHash_append {taken : Bytes} {index : ℕ}
    (h : (index + 1) * layout.chunkSize.toNat ≤ bytes.length) :
    chunkHash layout (bytes ++ taken) index = chunkHash layout bytes index := by
  rw [Nat.succ_mul] at h
  rw [chunkHash, chunkHash, List.drop_append_of_le_length (by omega),
    List.take_append_of_le_length (by rw [List.length_drop]; omega)]

omit [Crates] in
/-- How long a part of the file is, as a word. -/
private theorem toNat_ofNat_of_le {n : ℕ} (h : n ≤ layout.fileSize.toNat) :
    (UInt64.ofNat n).toNat = n :=
  UInt64.toNat_ofNat_of_lt' (h.trans_lt layout.fileSize.toNat_lt)

/-- What is absorbed where a chunk ends. -/
private theorem absorbed_full {taken : Bytes} {n : ℕ} (hn : completeChunks layout bytes.length = n)
    (hlt : n < layout.chunkCount.toNat) (hle : n * layout.chunkSize.toNat ≤ bytes.length)
    (hfull : bytes.length + taken.length = n * layout.chunkSize.toNat +
      min layout.chunkSize.toNat (layout.fileSize.toNat - n * layout.chunkSize.toNat)) :
    { absorbed layout bytes with
      hashes := (absorbed layout bytes).hashes ++
        [blake3 (bytes.drop (n * layout.chunkSize.toNat) ++ taken)]
      currentHasher := [], currentChunkLength := 0
      bytesReceived := .ofNat (bytes.length + taken.length) } = absorbed layout (bytes ++ taken) := by
  have hsucc : (n + 1) * layout.chunkSize.toNat =
      n * layout.chunkSize.toNat + layout.chunkSize.toNat := Nat.succ_mul ..
  have hrest : (bytes ++ taken).drop ((n + 1) * layout.chunkSize.toNat) = [] :=
    List.drop_eq_nil_of_le (by rw [List.length_append]; omega)
  have hchunk : chunkHash layout (bytes ++ taken) n =
      blake3 (bytes.drop (n * layout.chunkSize.toNat) ++ taken) := by
    rw [chunkHash, List.drop_append_of_le_length hle, List.take_of_length_le]
    rw [List.length_append, List.length_drop]
    omega
  have hbefore : (List.range n).map (chunkHash layout (bytes ++ taken)) =
      (List.range n).map (chunkHash layout bytes) := by
    refine List.map_congr_left fun i hi => chunkHash_append ?_
    exact (Nat.mul_le_mul_right _ (Nat.succ_le_of_lt (List.mem_range.mp hi))).trans hle
  simp only [absorbed, List.length_append, completeChunks_succ hlt hfull, hn, hrest,
    List.range_succ, List.map_append, hbefore, List.map_cons, List.map_nil, hchunk,
    List.length_nil]
  rfl

/-- What is absorbed inside a chunk. -/
private theorem absorbed_partial {taken : Bytes} {n : ℕ}
    (hn : completeChunks layout bytes.length = n) (hle : n * layout.chunkSize.toNat ≤ bytes.length)
    (hpart : bytes.length + taken.length < n * layout.chunkSize.toNat +
      min layout.chunkSize.toNat (layout.fileSize.toNat - n * layout.chunkSize.toNat)) :
    { absorbed layout bytes with
      currentHasher := bytes.drop (n * layout.chunkSize.toNat) ++ taken
      currentChunkLength :=
        .ofNat ((bytes.drop (n * layout.chunkSize.toNat)).length + taken.length)
      bytesReceived := .ofNat (bytes.length + taken.length) } = absorbed layout (bytes ++ taken) := by
  have hcomplete : completeChunks layout (bytes.length + taken.length) = n :=
    completeChunks_eq (by omega) (by omega) (by rw [Nat.succ_mul]; omega)
  have hbefore : (List.range n).map (chunkHash layout (bytes ++ taken)) =
      (List.range n).map (chunkHash layout bytes) := by
    refine List.map_congr_left fun i hi => chunkHash_append ?_
    exact (Nat.mul_le_mul_right _ (Nat.succ_le_of_lt (List.mem_range.mp hi))).trans hle
  simp only [absorbed, List.length_append, hcomplete, hn, hbefore,
    List.drop_append_of_le_length hle]

omit [Crates] in
private theorem ensures_expect {σ ε α β : Type} {o : Option α} {a : α} {f : α → Prog σ ε β} {s : σ}
    {Q : Outcome ε β → σ → Prop} (ho : o = some a) (h : (f a).Ensures s Q) :
    (expect o >>= f).Ensures s Q := by
  subst ho
  exact ensures_bind.mpr (ensures_pure.mpr h)

omit [Crates] in
private theorem tryFrom_eq {n : ℕ} (h : n < 2 ^ 64) : tryFrom n = some (.ofNat n) := if_pos h

/-- **What one repetition takes**: some of the data, which is absorbed. -/
theorem absorb_spec {data : Bytes} (hfit : bytes.length + data.length ≤ layout.fileSize.toNat) :
    (absorb data).Ensures (absorbed layout bytes) (Post
      (fun r b => match r with
        | .inl rest => ∃ taken, taken ≠ [] ∧ data = taken ++ rest ∧
          b = absorbed layout (bytes ++ taken)
        | .inr () => data = [] ∧ b = absorbed layout bytes)
      (fun _ _ => False) fun _ => False) := by
  unfold absorb
  by_cases hdata : data = []
  · rw [if_pos hdata]
    exact ensures_pure.mpr ⟨hdata, rfl⟩
  have hpos := List.length_pos_iff.mpr hdata
  have hfile := layout.fileSize.toNat_lt
  obtain ⟨hle, hlt⟩ := @completeChunks_of_lt layout bytes.length (by omega)
  generalize hn : completeChunks layout bytes.length = n at hle hlt
  rw [Nat.succ_mul] at hlt
  have hcount : n < layout.chunkCount.toNat := ChunkLayout.lt_chunkCount.mpr (by omega)
  have hword : n < 2 ^ 64 := hcount.trans layout.chunkCount.toNat_lt
  have hindex : (UInt64.ofNat n).toNat = n := UInt64.toNat_ofNat_of_lt' hword
  obtain ⟨range, hrange⟩ := Option.isSome_iff_exists.mp (ChunkLayout.range_isSome.mpr
    (UInt64.lt_iff_toNat_lt.mpr (hindex.trans_lt hcount)))
  obtain ⟨-, -, -, hlength⟩ := ChunkLayout.range_eq_some.mp hrange
  rw [hindex] at hlength
  -- the hasher holds what there is of the chunk, and the chunk lacks something
  have hrest : (bytes.drop (n * layout.chunkSize.toNat)).length =
      bytes.length - n * layout.chunkSize.toNat := List.length_drop
  have hheld := @toNat_ofNat_of_le layout (bytes.drop (n * layout.chunkSize.toNat)).length
    (by omega)
  obtain ⟨remaining, hremaining⟩ : ∃ remaining, checkedSub range.length
      (.ofNat (bytes.drop (n * layout.chunkSize.toNat)).length) = some remaining :=
    ⟨_, if_pos (UInt64.le_iff_toNat_le.mpr (by omega))⟩
  have hlacks := checkedSub_eq_some.mp hremaining
  rw [hheld] at hlacks
  obtain ⟨take, htake⟩ : ∃ take, take = min remaining.toNat data.length := ⟨_, rfl⟩
  have htaken : (data.take take).length = take :=
    List.length_take_of_le (htake ▸ min_le_right _ _)
  have htakeWord := @toNat_ofNat_of_le layout take (by omega)
  have hchunk : checkedAdd (.ofNat (bytes.drop (n * layout.chunkSize.toNat)).length)
      (.ofNat take) =
        some (.ofNat ((bytes.drop (n * layout.chunkSize.toNat)).length + take)) := by
    rw [checkedAdd_eq_some, hheld, htakeWord, @toNat_ofNat_of_le layout _ (by omega)]
  have hbytes : checkedAdd (.ofNat bytes.length) (.ofNat take) =
      some (.ofNat (bytes.length + take)) := by
    rw [checkedAdd_eq_some, htakeWord, @toNat_ofNat_of_le layout _ (by omega),
      @toNat_ofNat_of_le layout _ (by omega)]
  rw [if_neg hdata, ensures_bind, ensures_get, post_ok]
  refine ensures_expect (a := .ofNat n) ?_ ?_
  · rw [← tryFrom_eq hword]
    simp [absorbed, hn]
  refine ensures_expect hrange ?_
  refine ensures_expect (a := remaining) (by simpa only [absorbed, hn] using hremaining) ?_
  have hhasher : (absorbed layout bytes).currentHasher = bytes.drop (n * layout.chunkSize.toNat) := by
    simp only [absorbed, hn]
  have hchunkLength : (absorbed layout bytes).currentChunkLength =
      .ofNat (bytes.drop (n * layout.chunkSize.toNat)).length := by
    simp only [absorbed, hn]
  have hreceived : (absorbed layout bytes).bytesReceived = .ofNat bytes.length := rfl
  simp only [← htake, hhasher, hchunkLength, hreceived]
  refine ensures_expect (tryFrom_eq (by omega)) ?_
  refine ensures_expect hchunk ?_
  refine ensures_expect hbytes ?_
  have hnonempty : data.take take ≠ [] := by
    rw [← List.length_pos_iff, htaken]
    omega
  by_cases hfull : UInt64.ofNat ((bytes.drop (n * layout.chunkSize.toNat)).length + take) =
      range.length
  · rw [if_pos hfull, ensures_bind, ensures_modify, post_ok, ensures_pure]
    rw [← UInt64.toNat_inj, @toNat_ofNat_of_le layout _ (by omega)] at hfull
    refine ⟨data.take take, hnonempty, (List.take_append_drop _ _).symm, ?_⟩
    rw [← absorbed_full hn hcount hle (by omega), htaken]
  · rw [if_neg hfull, ensures_bind, ensures_modify, post_ok, ensures_pure]
    rw [← UInt64.toNat_inj, @toNat_ofNat_of_le layout _ (by omega)] at hfull
    refine ⟨data.take take, hnonempty, (List.take_append_drop _ _).symm, ?_⟩
    rw [← absorbed_partial hn hle (by omega), htaken]

omit [Crates] in
/-- What an update returns. -/
def verdict (layout : ChunkLayout) (bytes : Bytes) (data : ByteSlice) :
    Except ChunkManifestError Unit :=
  refuseIf (layout.fileSize.toNat < bytes.length + data.1.length) (.tooMuchData layout.fileSize
    (saturatingAdd (.ofNat bytes.length) (.ofNat data.1.length)))

omit [Crates] in
/-- The bytes accepted after an update. -/
def accept (layout : ChunkLayout) (bytes : Bytes) (data : ByteSlice) : Bytes :=
  if layout.fileSize.toNat < bytes.length + data.1.length then bytes else bytes ++ data.1

/-- **What an update does**: data that fits is absorbed, and other data changes nothing. -/
theorem update_eq (hle : bytes.length ≤ layout.fileSize.toNat) (data : ByteSlice) :
    update data (absorbed layout bytes) =
      (match verdict layout bytes data with | .ok () => .ok () | .error e => .err e,
        absorbed layout (accept layout bytes data)) := by
  have hlength : (UInt64.ofNat data.1.length).toNat = data.1.length :=
    UInt64.toNat_ofNat_of_lt' data.2
  have hbytes := toNat_ofNat_of_le hle
  obtain ⟨room, hroom⟩ : ∃ room, checkedSub layout.fileSize (.ofNat bytes.length) = some room :=
    ⟨_, if_pos (UInt64.le_iff_toNat_le.mpr (by rwa [hbytes]))⟩
  have hroom' := checkedSub_eq_some.mp hroom
  rw [hbytes] at hroom'
  have hgt : UInt64.ofNat data.1.length > room ↔
      layout.fileSize.toNat < bytes.length + data.1.length := by
    rw [gt_iff_lt, UInt64.lt_iff_toNat_lt, hlength]
    omega
  refine Ensures.run_eq ?_
  rw [update, ensures_bind, ensures_get, post_ok]
  refine ensures_expect (tryFrom_eq data.2) ?_
  refine ensures_expect hroom ?_
  by_cases hfit : layout.fileSize.toNat < bytes.length + data.1.length
  · rw [if_pos (hgt.mpr hfit), verdict, refuseIf, if_pos hfit, accept, if_pos hfit, ensures_throw]
    exact ⟨rfl, rfl⟩
  · rw [if_neg (mt hgt.mp hfit), verdict, refuseIf, if_neg hfit, accept, if_neg hfit]
    -- what was taken and what is left are the data
    refine Ensures.loop (fun rest b => ∃ taken, data.1 = taken ++ rest ∧
      b = absorbed layout (bytes ++ taken)) ?_ ⟨[], rfl, by rw [List.append_nil]⟩
    rintro rest b ⟨taken, hdata, rfl⟩
    have hlen := congrArg List.length hdata
    rw [List.length_append] at hlen
    refine (absorb_spec (by rw [List.length_append]; omega)).mono fun o b ho => ?_
    rcases o with (rest' | u) | e | _
    · obtain ⟨taken', hne, rfl, rfl⟩ := ho
      refine ⟨⟨taken ++ taken', by rw [hdata, List.append_assoc], by rw [List.append_assoc]⟩, ?_⟩
      have := List.length_pos_iff.mpr hne
      rw [List.length_append]
      omega
    · obtain ⟨rfl, rfl⟩ := ho
      rw [List.append_nil] at hdata
      exact ⟨rfl, by rw [hdata]⟩
    · exact ho.elim
    · exact ho.elim

/-! ### Updates in sequence -/

omit [Crates] in
/-- The slices that were accepted, one after the other. -/
def accepted : List ByteSlice → List (Except ChunkManifestError Unit) → Bytes
  | data :: slices, .ok () :: returned => data.1 ++ accepted slices returned
  | _ :: slices, .error _ :: returned => accepted slices returned
  | _, _ => []

/-- A run of updates absorbs what it accepts. -/
theorem updates_absorbed (slices : List ByteSlice) (hle : bytes.length ≤ layout.fileSize.toNat) :
    ∃ returned, updates slices (absorbed layout bytes) =
        some (returned, absorbed layout (bytes ++ accepted slices returned)) ∧
      (bytes ++ accepted slices returned).length ≤ layout.fileSize.toNat := by
  induction slices generalizing bytes with
  | nil => exact ⟨[], by simp [updates, accepted], by simpa [accepted] using hle⟩
  | cons data slices ih =>
    have hupdate := update_eq hle data
    by_cases hfit : layout.fileSize.toNat < bytes.length + data.1.length
    · obtain ⟨e, hverdict⟩ : ∃ e, verdict layout bytes data = .error e := ⟨_, if_pos hfit⟩
      rw [hverdict, accept, if_pos hfit] at hupdate
      obtain ⟨returned, hrun, hle'⟩ := ih hle
      refine ⟨.error e :: returned, ?_, hle'⟩
      rw [updates, hupdate]
      simp only [hrun]
      rfl
    · rw [verdict, refuseIf, if_neg hfit, accept, if_neg hfit] at hupdate
      obtain ⟨returned, hrun, hle'⟩ := @ih (bytes ++ data.1)
        (by rw [List.length_append]; omega)
      rw [List.append_assoc] at hrun hle'
      refine ⟨.ok () :: returned, ?_, hle'⟩
      rw [updates, hupdate]
      simp only [hrun]
      rfl

omit [Crates] in
/-- A chunk of a file is what is left of it, up to the length of a chunk. -/
theorem slice_eq {index : UInt64} {range : ChunkRange}
    (hbytes : bytes.length = layout.fileSize.toNat) (h : layout.range index = some range) :
    range.slice bytes =
      (bytes.drop (index.toNat * layout.chunkSize.toNat)).take layout.chunkSize.toNat := by
  obtain ⟨-, -, hoffset, hlength⟩ := ChunkLayout.range_eq_some.mp h
  rw [ChunkRange.slice, hoffset, hlength, ← hbytes, ← List.length_drop, List.take_eq_take_iff]
  omega

end ChunkManifestBuilder

namespace V03.SourceScannerV03

open ChunkManifestBuilder

/-- The hashes of the chunks that a scan returns. -/
def scannedHashes (replies : List Reply) : List ChunkHash :=
  replies.filterMap fun
    | .chunk chunk => some chunk.hash
    | _ => none

/-- A scan of a calm source returns every chunk that is left. -/
theorem Clean.scannedHashes [Crates] {source : Source} {s : SourceScannerV03} {n : ℕ}
    (h : Clean source s) (hcalm : source.Calm)
    (hlength : source.bytes.length = s.layout.fileSize.toNat)
    (hn : s.nextChunkIndex.toNat + n = s.layout.chunkCount.toNat) :
    scannedHashes (replies (.replicate n (.nextChunk always)) s) =
      (List.range' s.nextChunkIndex.toNat n).map (chunkHash s.layout source.bytes) := by
  induction n generalizing s with
  | zero => rfl
  | succ n ih =>
    have hlt : s.nextChunkIndex.toNat < s.layout.chunkCount.toNat := by omega
    rcases always_cases h.aligned with ⟨chunk, s', hscan, hr⟩ | ⟨hend, -⟩ | ⟨e, s', hfail, herror, hr⟩
    · obtain ⟨hclean, range, hrange, -, -, hdata, hhash⟩ := h.scanned hscan
      have hlayout := hscan.layout_eq h.aligned
      have hindex := (ChunkLayout.range_eq_some.mp hscan.range).2.1
      rw [List.replicate_succ, hr, List.range'_succ, List.map_cons, ← hscan.next, ← hlayout,
        ← ih hclean (by rw [hlayout]; exact hlength) (by rw [hlayout, hscan.next]; omega), hlayout]
      have hchunk : chunk.hash = chunkHash s.layout source.bytes s.nextChunkIndex.toNat := by
        rw [hhash, hdata, slice_eq hlength hrange, ← hindex]
        rfl
      rw [← hchunk]
      rfl
    · rw [hend] at hlt
      exact absurd hlt (Nat.lt_irrefl _)
    · exfalso
      have hbytes := congrArg List.length h.took.bytes_eq
      rw [List.length_append, h.length] at hbytes
      cases hfail with
      | chunkAllocationFailed _ refused => exact Bool.noConfusion refused
      | io lost e rest eq =>
        have := h.took.calm hcalm
        rw [eq] at this
        obtain ⟨⟨_, hp⟩, -⟩ := Source.calm_cons.mp (Source.calm_append.mp this).2
        exact nomatch hp
      | sourceTooShort data actual took lt =>
        rw [took.bytes_eq, List.length_append, Source.bytes_nil, List.length_nil] at hbytes
        obtain ⟨hoffset, hwanted⟩ := wanted_of_lt hlt
        omega
      | sourceTooLong _ _ _ next_eq =>
        rw [next_eq] at hlt
        exact absurd hlt (Nat.lt_irrefl _)

end V03.SourceScannerV03

namespace ChunkManifestBuilder

open V03 SourceScannerV03

variable [Crates] {layout : ChunkLayout} {bytes : Bytes}

/-- What is known of a builder that accepted these bytes. -/
structure Streamed (layout : ChunkLayout) (bytes : Bytes) (b : ChunkManifestBuilder) : Prop where
  length_le : bytes.length ≤ layout.fileSize.toNat
  /-- However the bytes were divided, and whatever was refused in between. -/
  unique : ∀ slices returned b', updates slices (new layout) = some (returned, b') →
    accepted slices returned = bytes → b' = b
  refused : ∀ data : ByteSlice, layout.fileSize.toNat < bytes.length + data.1.length →
    update data b = (.err (.tooMuchData layout.fileSize
      (saturatingAdd (.ofNat bytes.length) (.ofNat data.1.length))), b)
  fits : ∀ data : ByteSlice, bytes.length + data.1.length ≤ layout.fileSize.toNat →
    (update data b).1 = .ok ()
  incomplete : bytes.length ≠ layout.fileSize.toNat →
    b.finish = .error (.incompleteData layout.fileSize (.ofNat bytes.length))
  complete : bytes.length = layout.fileSize.toNat → ∃ manifest, b.finish = .ok manifest ∧
    manifest.layout = layout ∧ manifest.hashes.length = manifest.chunkCount.toNat ∧
      (∀ index range, layout.range index = some range →
        manifest.hash index = some (blake3 (range.slice bytes))) ∧
      ∀ (source : Source) (inventory : ReceiverInventoryV03), inventory.layout = layout →
        source.Calm → source.bytes = bytes →
          (∀ calls chunk, .chunk chunk ∈ replies calls (SourceScannerV03.new source inventory) →
            manifest.hash chunk.index = some chunk.hash) ∧
          SourceScannerV03.scannedHashes (replies
            (.replicate layout.chunkCount.toNat (.nextChunk always))
            (SourceScannerV03.new source inventory)) = manifest.hashes

/-- **A manifest is that of the accepted bytes.** No sequence of updates panics, what the builder
holds in the end depends only on the bytes that were accepted, and the hashes are those of the
chunks, which a scanner computes too. -/
theorem updates_streamed (layout : ChunkLayout) (slices : List ByteSlice) :
    ∃ returned b, updates slices (new layout) = some (returned, b) ∧
      Streamed layout (accepted slices returned) b := by
  have run (slices : List ByteSlice) := @updates_absorbed _ layout [] slices (Nat.zero_le _)
  rw [← new_eq] at run
  obtain ⟨returned, hrun, hle⟩ := run slices
  rw [List.nil_append] at hrun hle
  refine ⟨returned, _, hrun, hle, ?_, ?_, ?_, ?_, ?_⟩
  · rintro slices' returned' b' hrun' hbytes
    obtain ⟨returned'', hrun'', -⟩ := run slices'
    rw [hrun', Option.some.injEq, Prod.mk.injEq, List.nil_append] at hrun''
    obtain ⟨rfl, rfl⟩ := hrun''
    rw [hbytes]
  · intro data hgt
    rw [update_eq hle, verdict, refuseIf, if_pos hgt, accept, if_pos hgt]
  · intro data hfit
    rw [update_eq hle, verdict, refuseIf, if_neg (not_lt.mpr hfit)]
  · intro hne
    rw [finish, if_pos]
    · rfl
    · rw [ne_eq, ← UInt64.toNat_inj]
      exact fun h => hne ((toNat_ofNat_of_le hle).symm.trans h)
  · intro heq
    have hcount : completeChunks layout (accepted slices returned).length =
        layout.chunkCount.toNat := if_pos heq
    have hhash {index : UInt64} {range : ChunkRange} (h : layout.range index = some range) :
        ((List.range layout.chunkCount.toNat).map
          (chunkHash layout (accepted slices returned)))[index.toNat]? =
            some (blake3 (range.slice (accepted slices returned))) := by
      have hlt := UInt64.lt_iff_toNat_lt.mp
        (ChunkLayout.range_isSome.mp (Option.isSome_iff_exists.mpr ⟨_, h⟩))
      rw [List.getElem?_map, List.getElem?_range hlt, Option.map_some, slice_eq heq h, chunkHash]
    refine ⟨⟨layout, (List.range layout.chunkCount.toNat).map
      (chunkHash layout (accepted slices returned))⟩, ?_, rfl, ?_, fun _ _ h => hhash h, ?_⟩
    · rw [finish, if_neg, absorbed, hcount]
      exact not_not.mpr (UInt64.toNat_inj.mp ((toNat_ofNat_of_le hle).trans heq))
    · rw [List.length_map, List.length_range]
      rfl
    · rintro source inventory rfl hcalm hbytes
      have hlength : source.bytes.length = inventory.layout.fileSize.toNat := by rwa [hbytes]
      have hclean : Clean source (SourceScannerV03.new source inventory) := clean_new
      refine ⟨fun calls chunk hchunk => ?_, ?_⟩
      · obtain ⟨range, hrange, -, -, hdata, hhash'⟩ :=
          (hclean.attested (.inl ⟨hcalm, hlength.le⟩)).faithful _ hchunk
        rw [ChunkManifest.hash, hhash hrange, hhash', hdata, hbytes]
      · refine (hclean.scannedHashes hcalm hlength (Nat.zero_add _)).trans ?_
        rw [hbytes, List.range_eq_range']
        rfl

end ChunkManifestBuilder

end Warpfile
