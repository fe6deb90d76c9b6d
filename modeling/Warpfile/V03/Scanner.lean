import Warpfile.Foundation.Source
import Warpfile.Storage.Chunk
import Warpfile.Storage.Crates

/-!
# The source scanner of WFP/0.3

`SourceScannerV03` reads a source chunk by chunk, hashes the chunks and the whole, and compares
each chunk with what the receiver has. The inventory of a receiver is in order and in range; with
the chunks the scanner moves a cursor over it.

A buffer for a chunk may be unavailable, so a call is made with the lengths that can be reserved.
A failed debug assertion ends the program.
-/

namespace Warpfile.V03

structure ReceiverInventoryV03 where
  layout : ChunkLayout
  records : List ChunkHashRecord
  increasing : records.Pairwise fun r r' => r.chunkIndex < r'.chunkIndex
  inRange : ∀ r ∈ records, r.chunkIndex < layout.chunkCount

inductive SourceChunkDispositionV03 where
  | reuse
  | transmit
  deriving DecidableEq, Repr

structure SourceChunkV03 where
  index : UInt64
  offset : UInt64
  hash : ChunkHash
  disposition : SourceChunkDispositionV03
  data : Bytes
  deriving DecidableEq, Repr

structure SourceScanSummaryV03 where
  fileHash : ChunkHash
  deriving DecidableEq, Repr

inductive SourceScanV03Error where
  | io (error : IoError)
  | chunkAllocationFailed (length : UInt64)
  | sourceTooShort (expected actual : UInt64)
  | sourceTooLong (expected : UInt64)
  | incompleteScan
  | unreconciledInventory (consumed total : ℕ)
  | invalidChunkGeometry (index : UInt64)
  | chunkIndexOverflow
  deriving DecidableEq, Repr

structure SourceScannerV03 where
  source : Source
  layout : ChunkLayout
  inventory : ReceiverInventoryV03
  inventoryCursor : ℕ
  nextChunkIndex : UInt64
  fullFileHasher : Hasher
  sourceLengthConfirmed : Bool

abbrev Scan (α : Type) : Type := Prog SourceScannerV03 SourceScanV03Error α

namespace SourceScannerV03

def new (source : Source) (inventory : ReceiverInventoryV03) : SourceScannerV03 where
  source
  layout := inventory.layout
  inventory
  inventoryCursor := 0
  nextChunkIndex := 0
  fullFileHasher := []
  sourceLengthConfirmed := false

/-- Read from the source. -/
def onSource {α : Type} (p : Prog Source IoError α) : Scan α := fun s =>
  match p s.source with
  | (.ok a, source) => (.ok a, { s with source })
  | (.err e, source) => (.err (.io e), { s with source })
  | (.halt, source) => (.halt, { s with source })

def confirmSourceEnd : Scan Unit := do
  let s ← get
  let byte ← onSource (Source.read 1)
  if byte ≠ [] then throw (.sourceTooLong s.layout.fileSize)

/-- The bytes of a chunk. -/
def readChunk (range : ChunkRange) : Scan Bytes := do
  let s ← get
  let data ← onSource (Source.fill range.length.toNat)
  if data.length < range.length.toNat then
    match checkedAdd range.offset (.ofNat data.length) with
    | some actual => throw (.sourceTooShort s.layout.fileSize actual)
    | none => throw .chunkIndexOverflow
  else return data

/-- Compare a chunk with the record under the cursor. -/
def reconcile (index : UInt64) (hash : ChunkHash) : Scan SourceChunkDispositionV03 := do
  let s ← get
  match s.inventory.records[s.inventoryCursor]? with
  | some record =>
    if record.chunkIndex = index then do
      modify fun s => { s with inventoryCursor := s.inventoryCursor + 1 }
      return if record.hash = hash then .reuse else .transmit
    else
      -- `debug_assert!(record.chunk_index > range.index)`
      if record.chunkIndex > index then return .transmit else .stop
  | none => return .transmit

/-- The chunk at `nextChunkIndex`. -/
def scanChunk [Crates] (reserve : UInt64 → Bool) : Scan SourceChunkV03 := do
  let s ← get
  let range ← .ofExcept ((s.layout.range s.nextChunkIndex).elim
    (.error (.invalidChunkGeometry s.nextChunkIndex)) .ok)
  .ofExcept (refuseIf (!reserve range.length) (.chunkAllocationFailed range.length))
  let data ← readChunk range
  modify fun s => { s with fullFileHasher := s.fullFileHasher ++ data }
  let hash := blake3 data
  let disposition ← reconcile range.index hash
  let next ← .ofExcept ((checkedAdd s.nextChunkIndex 1).elim (.error .chunkIndexOverflow) .ok)
  modify fun s => { s with nextChunkIndex := next }
  return { index := range.index, offset := range.offset, hash, disposition, data }

def nextChunk [Crates] (reserve : UInt64 → Bool) : Scan (Option SourceChunkV03) := do
  let s ← get
  if s.sourceLengthConfirmed then return none
  else if s.nextChunkIndex = s.layout.chunkCount then do
    confirmSourceEnd
    modify fun s => { s with sourceLengthConfirmed := true }
    return none
  else some <$> scanChunk reserve

def finish [Crates] (s : SourceScannerV03) : Except SourceScanV03Error SourceScanSummaryV03 := do
  refuseIf (!s.sourceLengthConfirmed) .incompleteScan
  refuseIf (s.inventoryCursor ≠ s.inventory.records.length)
    (.unreconciledInventory s.inventoryCursor s.inventory.records.length)
  return { fileHash := blake3 s.fullFileHasher }

/-! ### What a call does -/

open Prog

variable {s s' : SourceScannerV03} {reserve : UInt64 → Bool}

@[simp]
theorem ensures_onSource {α : Type} {p : Prog Source IoError α}
    {Q : Outcome SourceScanV03Error α → SourceScannerV03 → Prop} :
    (onSource p).Ensures s Q ↔ p.Ensures s.source (Post (fun a source => Q (.ok a) { s with source })
      (fun e source => Q (.err (.io e)) { s with source })
      fun source => Q .halt { s with source }) := by
  unfold Prog.Ensures onSource
  rcases p s.source with ⟨_ | _ | _, source⟩ <;> rfl

/-- A cursor over the records stands where a chunk is. -/
structure Placed (records : List ChunkHashRecord) (cursor : ℕ) (index : UInt64) : Prop where
  le : cursor ≤ records.length
  before : ∀ r ∈ records.take cursor, r.chunkIndex.toNat < index.toNat
  after : ∀ r ∈ records.drop cursor, index.toNat ≤ r.chunkIndex.toNat

/-- The scan is not over, and the cursor stands where the next chunk is. -/
structure Aligned (s : SourceScannerV03) : Prop where
  unconfirmed : s.sourceLengthConfirmed = false
  layout : s.layout = s.inventory.layout
  next_le : s.nextChunkIndex.toNat ≤ s.layout.chunkCount.toNat
  placed : Placed s.inventory.records s.inventoryCursor s.nextChunkIndex

theorem aligned_new {source : Source} {inventory : ReceiverInventoryV03} :
    (new source inventory).Aligned where
  unconfirmed := rfl
  layout := rfl
  next_le := Nat.zero_le _
  placed := ⟨Nat.zero_le _, by simp [new], fun _ _ => Nat.zero_le _⟩

/-- Whether a chunk must be sent. -/
def disposition (inventory : ReceiverInventoryV03) (index : UInt64) (hash : ChunkHash) :
    SourceChunkDispositionV03 :=
  if ⟨index, hash⟩ ∈ inventory.records then .reuse else .transmit

/-- A record that is not under the cursor has another index. -/
private theorem Placed.notMem {records : List ChunkHashRecord} {cursor : ℕ} {index : UInt64}
    (h : Placed records cursor index)
    (hdrop : ∀ r ∈ records.drop cursor, index.toNat < r.chunkIndex.toNat) (hash : ChunkHash) :
    ⟨index, hash⟩ ∉ records := by
  intro hmem
  rw [← List.take_append_drop cursor records] at hmem
  rcases List.mem_append.mp hmem with hm | hm
  · exact Nat.lt_irrefl _ (h.before _ hm)
  · exact Nat.lt_irrefl _ (hdrop _ hm)

/-- The record of a chunk is the one under the cursor. -/
theorem reconcile_spec {index : UInt64} {hash : ChunkHash} {next : UInt64}
    (h : Placed s.inventory.records s.inventoryCursor index) (hnext : next.toNat = index.toNat + 1) :
    (reconcile index hash).Ensures s (Post
      (fun d s' => d = disposition s.inventory index hash ∧
        ∃ cursor, s' = { s with inventoryCursor := cursor } ∧
          Placed s.inventory.records cursor next)
      (fun _ _ => False) fun _ => False) := by
  have hinc := s.inventory.increasing
  have passed : ∀ r ∈ s.inventory.records.take s.inventoryCursor,
      r.chunkIndex.toNat < next.toNat := fun r hr => by
    have := h.before r hr
    omega
  rw [reconcile, ensures_bind, ensures_get, post_ok]
  rcases hrec : s.inventory.records[s.inventoryCursor]? with _ | record
  · have hdrop : s.inventory.records.drop s.inventoryCursor = [] :=
      List.drop_eq_nil_iff.mpr (List.getElem?_eq_none_iff.mp hrec)
    simp only [ensures_pure]
    refine ⟨?_, s.inventoryCursor, rfl, h.le, passed, by simp [hdrop]⟩
    rw [disposition, if_neg (h.notMem (by simp [hdrop]) hash)]
  · obtain ⟨hlt, rfl⟩ := List.getElem?_eq_some_iff.mp hrec
    have hdrop : s.inventory.records.drop s.inventoryCursor =
        s.inventory.records[s.inventoryCursor] :: s.inventory.records.drop (s.inventoryCursor + 1) :=
      List.drop_eq_getElem_cons hlt
    have hrest : ∀ r ∈ s.inventory.records.drop (s.inventoryCursor + 1),
        s.inventory.records[s.inventoryCursor].chunkIndex.toNat < r.chunkIndex.toNat := by
      have := hinc.drop (i := s.inventoryCursor)
      rw [hdrop, List.pairwise_cons] at this
      exact fun r hr => UInt64.lt_iff_toNat_lt.mp (this.1 r hr)
    dsimp only
    by_cases heq : s.inventory.records[s.inventoryCursor].chunkIndex = index
    · rw [if_pos heq, ensures_bind, ensures_modify, post_ok, ensures_pure]
      rw [heq] at hrest
      refine ⟨?_, s.inventoryCursor + 1, rfl, hlt, fun r hr => ?_, fun r hr => ?_⟩
      · have hmem : (⟨index, hash⟩ : ChunkHashRecord) ∈ s.inventory.records ↔
            s.inventory.records[s.inventoryCursor].hash = hash := by
          constructor
          · intro hmem
            rw [← List.take_append_drop s.inventoryCursor s.inventory.records, hdrop] at hmem
            rcases List.mem_append.mp hmem with hm | hm
            · exact absurd (h.before _ hm) (Nat.lt_irrefl _)
            · rcases List.mem_cons.mp hm with hm | hm
              · exact (congrArg ChunkHashRecord.hash hm).symm
              · exact absurd (hrest _ hm) (Nat.lt_irrefl _)
          · rintro rfl
            rw [← heq]
            exact List.getElem_mem hlt
        rw [disposition]
        simp only [hmem]
      · rw [List.take_succ_eq_append_getElem hlt] at hr
        rcases List.mem_append.mp hr with hr | hr
        · exact passed r hr
        · rw [List.mem_singleton.mp hr, heq]
          omega
      · have := hrest r hr
        omega
    · have hgt : index.toNat < s.inventory.records[s.inventoryCursor].chunkIndex.toNat := by
        have hle := h.after _ (by rw [hdrop]; exact List.mem_cons_self)
        exact lt_of_le_of_ne hle fun h => heq (UInt64.toNat_inj.mp h.symm)
      have hall : ∀ r ∈ s.inventory.records.drop s.inventoryCursor,
          index.toNat < r.chunkIndex.toNat := by
        rw [hdrop]
        exact List.forall_mem_cons.mpr ⟨hgt, fun r hr => hgt.trans (hrest r hr)⟩
      rw [if_neg heq, if_pos (UInt64.lt_iff_toNat_lt.mpr hgt), ensures_pure]
      refine ⟨?_, s.inventoryCursor, rfl, h.le, passed, fun r hr => ?_⟩
      · rw [disposition, if_neg (h.notMem hall hash)]
      · have := hall r hr
        omega

/-- The bytes that the next call asks for. -/
def wanted (s : SourceScannerV03) : ℕ :=
  (s.layout.range s.nextChunkIndex).elim 1 fun range => range.length.toNat

/-- A call returned a chunk, the next one in order. -/
structure Scanned [Crates] (s : SourceScannerV03) (chunk : SourceChunkV03)
    (s' : SourceScannerV03) : Prop where
  range : s.layout.range s.nextChunkIndex = some ⟨chunk.index, chunk.offset, .ofNat chunk.data.length⟩
  length : (UInt64.ofNat chunk.data.length).toNat = chunk.data.length
  took : s.source.Took chunk.data s'.source
  hash : chunk.hash = blake3 chunk.data
  disposition : chunk.disposition = disposition s.inventory chunk.index chunk.hash
  hasher : s'.fullFileHasher = s.fullFileHasher ++ chunk.data
  inventory : s'.inventory = s.inventory
  next : s'.nextChunkIndex.toNat = s.nextChunkIndex.toNat + 1
  aligned : s'.Aligned

/-- How a call fails, and what of the source is gone then. -/
inductive Failed (reserve : UInt64 → Bool) (s : SourceScannerV03) :
    SourceScanV03Error → SourceScannerV03 → Prop
  | chunkAllocationFailed (length : UInt64) (refused : reserve length = false) :
      Failed reserve s (.chunkAllocationFailed length) s
  | io (lost : Source) (e : IoError) (rest : Source) (eq : s.source = lost ++ .error e :: rest)
      (calm : lost.Calm) (lt : lost.bytes.length < s.wanted) :
      Failed reserve s (.io e) { s with source := rest }
  | sourceTooShort (data : Bytes) (actual : UInt64) (took : s.source.Took data [])
      (lt : data.length < s.wanted)
      (next_lt : s.nextChunkIndex.toNat < s.layout.chunkCount.toNat) :
      Failed reserve s (.sourceTooShort s.layout.fileSize actual) { s with source := [] }
  | sourceTooLong (byte : UInt8) (source : Source) (took : s.source.Took [byte] source)
      (next_eq : s.nextChunkIndex = s.layout.chunkCount) :
      Failed reserve s (.sourceTooLong s.layout.fileSize) { s with source }

theorem readChunk_spec {range : ChunkRange} (h : s.layout.range s.nextChunkIndex = some range) :
    (readChunk range).Ensures s (Post
      (fun data s' => data.length = range.length.toNat ∧ s.source.Took data s'.source ∧
        s' = { s with source := s'.source })
      (fun e s' => s.Failed reserve e s') fun _ => False) := by
  have hwanted : s.wanted = range.length.toNat := by rw [wanted, h, Option.elim_some]
  obtain ⟨hlt, -, hoffset, hlength⟩ := ChunkLayout.range_eq_some.mp h
  rw [readChunk, ensures_bind, ensures_get, post_ok, ensures_bind, ensures_onSource]
  refine (Source.fill_spec range.length.toNat).mono fun o source hfill => ?_
  cases o with
  | ok data =>
    obtain ⟨htook, hle, heof⟩ := hfill
    simp only [post_ok]
    by_cases hshort : data.length < range.length.toNat
    · obtain rfl := heof hshort
      have hfile := s.layout.fileSize.toNat_lt
      have hdata : (UInt64.ofNat data.length).toNat = data.length :=
        UInt64.toNat_ofNat_of_lt' (by rw [UInt64.size]; omega)
      have hadd : checkedAdd range.offset (.ofNat data.length) =
          some (range.offset + .ofNat data.length) := if_pos (by rw [hdata]; omega)
      rw [if_pos hshort, hadd]
      exact ensures_throw.mpr (.sourceTooShort data _ htook (by rw [hwanted]; exact hshort)
        (ChunkLayout.lt_chunkCount.mpr hlt))
    · rw [if_neg hshort, ensures_pure]
      exact ⟨le_antisymm hle (not_lt.mp hshort), htook, rfl⟩
  | err e =>
    obtain ⟨lost, hcalm, hlost, heq⟩ := hfill
    exact .io lost e source heq hcalm (by rw [hwanted]; exact hlost)
  | halt => exact hfill

theorem confirmSourceEnd_spec (h : s.nextChunkIndex = s.layout.chunkCount) :
    confirmSourceEnd.Ensures s (Post (fun _ s' => s.source = [] ∧ s' = s)
      (fun e s' => s.Failed reserve e s') fun _ => False) := by
  have hwanted : s.wanted = 1 := by
    have : s.layout.range s.nextChunkIndex = none := by
      rw [ChunkLayout.range_eq_none, ← not_lt, ← ChunkLayout.lt_chunkCount, h]
      exact Nat.lt_irrefl _
    rw [wanted, this, Option.elim_none]
  rw [confirmSourceEnd, ensures_bind, ensures_get, post_ok, ensures_bind, ensures_onSource]
  refine Source.ensures_read (fun heof => ?_) (fun bs rest heq hle => ?_)
    (fun bs rest hdrop heq hlen => ?_) fun e rest heq => ?_
  · rw [post_ok, post_ok, if_neg (not_not.mpr rfl), ensures_pure]
    exact ⟨heof, by rw [← heof]⟩
  · obtain ⟨byte, hbyte⟩ : ∃ byte, bs.1 = [byte] :=
      List.length_eq_one_iff.mp (le_antisymm hle (List.length_pos_iff.mpr bs.2))
    rw [post_ok, post_ok, if_pos bs.2, ensures_throw]
    refine .sourceTooLong byte rest ⟨[.ok bs], [], rest, by simp [heq], rfl, ?_, Source.calm_nil, ?_⟩ h
    · exact Source.calm_cons.mpr ⟨⟨_, rfl⟩, Source.calm_nil⟩
    · simp [hbyte]
  · obtain ⟨byte, hbyte⟩ := List.length_eq_one_iff.mp hlen
    rw [post_ok, post_ok, if_pos (by rw [hbyte]; exact List.cons_ne_nil _ _), ensures_throw]
    refine .sourceTooLong byte _ ⟨[.ok bs], [.ok ⟨_, hdrop⟩], rest, by simp [heq], rfl, ?_, ?_, ?_⟩ h
    · exact Source.calm_cons.mpr ⟨⟨_, rfl⟩, Source.calm_nil⟩
    · exact Source.calm_cons.mpr ⟨⟨_, rfl⟩, Source.calm_nil⟩
    · simp only [Source.bytes_ok, Source.bytes_nil, List.append_nil, ← hbyte]
      exact (List.take_append_drop 1 bs.1).symm
  · exact .io [] e rest heq Source.calm_nil (by rw [hwanted]; exact Nat.one_pos)

theorem scanChunk_spec [Crates] (h : s.Aligned)
    (hlt : s.nextChunkIndex.toNat < s.layout.chunkCount.toNat) :
    (scanChunk reserve).Ensures s (Post (fun chunk s' => s.Scanned chunk s')
      (fun e s' => s.Failed reserve e s') fun _ => False) := by
  obtain ⟨range, hrange⟩ := Option.isSome_iff_exists.mp
    (ChunkLayout.range_isSome.mpr (UInt64.lt_iff_toNat_lt.mpr hlt))
  obtain ⟨-, hindex, -⟩ := ChunkLayout.range_eq_some.mp hrange
  have hcount := s.layout.chunkCount.toNat_lt
  have hnext : checkedAdd s.nextChunkIndex 1 = some (s.nextChunkIndex + 1) :=
    if_pos (show s.nextChunkIndex.toNat + 1 < 2 ^ 64 by omega)
  have hsucc := (checkedAdd_eq_some.mp hnext).symm
  rw [scanChunk, ensures_bind, ensures_get, post_ok, hrange]
  refine Ensures.bind (R := Post (fun r t => r = range ∧ t = s) (fun _ _ => False) fun _ => False)
    (ensures_ofExcept.mpr ⟨rfl, rfl⟩) ?_ (fun _ _ => False.elim) fun _ => False.elim
  rintro r t ⟨rfl, rfl⟩
  by_cases hreserve : reserve r.length = true
  swap
  · refine Ensures.bind (R := Post (fun _ _ => False)
      (fun e s' => e = .chunkAllocationFailed r.length ∧ s' = t) fun _ => False) ?_
      (fun _ _ => False.elim) ?_ fun _ => False.elim
    · rw [refuseIf, if_pos (by simpa using hreserve)]
      exact ensures_throw.mpr ⟨rfl, rfl⟩
    · rintro e s' ⟨rfl, rfl⟩
      exact .chunkAllocationFailed _ (by simpa using hreserve)
  rw [refuseIf, if_neg (by simpa using hreserve)]
  refine Ensures.bind (R := Post (fun _ s' => s' = t) (fun _ _ => False) fun _ => False)
    (ensures_pure.mpr rfl) ?_ (fun _ _ => False.elim) fun _ => False.elim
  rintro - s' rfl
  refine Ensures.bind (readChunk_spec hrange) ?_ (fun _ _ he => he) fun _ => False.elim
  rintro data s₁ ⟨hlen, htook, hs₁⟩
  have hofNat : UInt64.ofNat data.length = r.length := by rw [hlen, UInt64.ofNat_toNat]
  rw [ensures_bind, ensures_modify, post_ok]
  have hplaced : Placed s₁.inventory.records s₁.inventoryCursor r.index := by
    rw [hs₁, hindex]
    exact h.placed
  refine Ensures.bind (reconcile_spec (s := { s₁ with
    fullFileHasher := s₁.fullFileHasher ++ data }) hplaced (by rw [hindex]; exact hsucc)) ?_
    (fun _ _ => False.elim) fun _ => False.elim
  rintro d s₂ ⟨rfl, cursor, rfl, hplaced'⟩
  rw [hnext]
  refine Ensures.bind (R := Post (fun next s' => next = s'.nextChunkIndex + 1 ∧
      s' = { s₁ with fullFileHasher := s₁.fullFileHasher ++ data, inventoryCursor := cursor })
    (fun _ _ => False) fun _ => False) (ensures_pure.mpr ⟨by rw [hs₁], rfl⟩) ?_
    (fun _ _ => False.elim) fun _ => False.elim
  rintro next s₃ ⟨rfl, rfl⟩
  rw [ensures_bind, ensures_modify, post_ok, ensures_pure, hs₁]
  rw [hs₁] at hplaced'
  exact {
    range := by rw [hofNat]; exact hrange
    length := by rw [hofNat, hlen]
    took := htook
    hash := rfl
    disposition := rfl
    hasher := rfl
    inventory := rfl
    next := hsucc
    aligned := ⟨h.unconfirmed, h.layout, by rw [hsucc]; exact hlt, hplaced'⟩ }

/-- **What a call does.** A chunk is the next one in order; the end is confirmed where the source
is at its end after the last chunk; and no call ends in a failed assertion, an overflow or an
invalid geometry. -/
theorem nextChunk_spec [Crates] (h : s.Aligned) :
    (nextChunk reserve).Ensures s (Post
      (fun chunk? s' => match chunk? with
        | some chunk => s.Scanned chunk s'
        | none => s.nextChunkIndex = s.layout.chunkCount ∧ s.source = [] ∧
          s' = { s with sourceLengthConfirmed := true })
      (fun e s' => s.Failed reserve e s') fun _ => False) := by
  rw [nextChunk, ensures_bind, ensures_get, post_ok, if_neg (by simp [h.unconfirmed])]
  by_cases hend : s.nextChunkIndex = s.layout.chunkCount
  · rw [if_pos hend]
    refine Ensures.bind (confirmSourceEnd_spec hend) ?_ (fun _ _ he => he) fun _ => False.elim
    rintro - s' ⟨heof, rfl⟩
    rw [ensures_bind, ensures_modify, post_ok, ensures_pure]
    exact ⟨hend, heof, rfl⟩
  · rw [if_neg hend, ensures_map]
    refine (scanChunk_spec h ?_).mono fun o s' ho => ?_
    · exact lt_of_le_of_ne h.next_le fun heq => hend (UInt64.toNat_inj.mp heq)
    · cases o <;> exact ho

/-- After the end is confirmed there is nothing more to return. -/
theorem nextChunk_confirmed [Crates] (h : s.sourceLengthConfirmed = true) :
    (nextChunk reserve).Ensures s fun o s' => o = .ok none ∧ s' = s := by
  rw [nextChunk, ensures_bind, ensures_get, post_ok, if_pos h, ensures_pure]
  exact ⟨rfl, rfl⟩

/-- After the last chunk every record was compared with its chunk. -/
theorem Aligned.cursor_of_end (h : s.Aligned) (hend : s.nextChunkIndex = s.layout.chunkCount) :
    s.inventoryCursor = s.inventory.records.length := by
  refine le_antisymm h.placed.le (List.drop_eq_nil_iff.mp (List.eq_nil_iff_forall_not_mem.mpr ?_))
  intro r hr
  have hle := h.placed.after r hr
  have hlt := UInt64.lt_iff_toNat_lt.mp (s.inventory.inRange r (List.mem_of_mem_drop hr))
  rw [hend, h.layout] at hle
  omega

end SourceScannerV03

end Warpfile.V03
