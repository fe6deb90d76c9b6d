import Warpfile.Storage.ChunkState

/-!
# The chunks a receiver writes

`ChunkReceiverV03` takes the chunks of a partial file in any order of increasing indices: a chunk
is begun, its data are written where they belong, and once its hash is verified the record of it is
made durable. The three calls are programs over the receiver and the files; a call that fails leaves
both as it left them.

`Consistent` is what holds between calls, whatever they are: the records are true of the partial
file, but for the chunk that is being written. `ChunkRun` are the sequences of calls.
-/

namespace Warpfile

/-- `sync_data` of a file. -/
def File.syncData {Γ : Setting} (_file : File) : Prog (Disk Γ) IoError Unit := Disk.fsync

/-- The digest that is recorded of a chunk. -/
def ChunkState.hash (state : ChunkState) (index : UInt64) : Option ChunkHash :=
  (state.chunks.find? fun chunk => chunk.index = index).map RecordedChunk.hash

namespace V03

variable {Γ : Setting}

inductive ReceiverV03Error where
  | io (error : IoError)
  | partialNotRegularFile
  | chunkIndexOutOfRange (index : UInt64)
  | chunkAlreadyActive
  | chunkPendingPersistence (index : UInt64)
  | nonIncreasingChunkIndex (previous current : UInt64)
  | alreadyVerifiedChunk (index : UInt64)
  | noPendingVerifiedChunk
  | dataWithoutActiveChunk
  | unexpectedDataOffset (expected actual : UInt64)
  | dataLengthOverflow
  | dataRangeOverflow
  | dataExceedsFileSize (dataEnd fileSize : UInt64)
  | dataCrossesChunkBoundary (dataEnd chunkEnd : UInt64)
  | chunkHashMismatch (index : UInt64)
  | chunkState (error : ChunkStateError)
  deriving DecidableEq, Repr

structure VerifiedChunk where
  index : UInt64
  hash : ChunkHash
  deriving DecidableEq, Repr

structure IncomingChunk where
  range : ChunkRange
  expectedHash : ChunkHash
  nextOffset : UInt64
  hasher : Hasher
  deriving DecidableEq, Repr

structure ChunkReceiverV03 where
  chunkState : ChunkState
  lastChunkIndex : Option UInt64
  active : Option IncomingChunk
  pendingVerified : Option VerifiedChunk

/-- A receiver next to the files. -/
abbrev ChunkReceiving (Γ : Setting) (α : Type) : Type :=
  Prog (ChunkReceiverV03 × Disk Γ) ReceiverV03Error α

/-- A program on the files. -/
def onFiles {ε α : Type} (p : Prog (Disk Γ) ε α) : Prog (ChunkReceiverV03 × Disk Γ) ε α := fun s =>
  let (o, disk) := p s.2
  (o, s.1, disk)

namespace ChunkReceiverV03

def new (chunkState : ChunkState) : ChunkReceiverV03 where
  chunkState := chunkState
  lastChunkIndex := none
  active := none
  pendingVerified := none

/-- The checks of CHUNK_START. -/
def checkChunkStart (receiver : ChunkReceiverV03) (chunkStart : ChunkStartV03) :
    Except ReceiverV03Error ChunkRange := do
  if let some pending := receiver.pendingVerified then
    .error (.chunkPendingPersistence pending.index)
  refuseIf receiver.active.isSome .chunkAlreadyActive
  let range ← (receiver.chunkState.layout.range chunkStart.chunkIndex).elim
    (.error (.chunkIndexOutOfRange chunkStart.chunkIndex)) .ok
  if let some previous := receiver.lastChunkIndex then
    refuseIf (chunkStart.chunkIndex ≤ previous)
      (.nonIncreasingChunkIndex previous chunkStart.chunkIndex)
  refuseIf (receiver.chunkState.hash chunkStart.chunkIndex = some chunkStart.expectedHash)
    (.alreadyVerifiedChunk chunkStart.chunkIndex)
  return range

def beginChunk (chunkStart : ChunkStartV03) : ChunkReceiving Γ Unit := do
  let (receiver, _) ← get
  let range ← .ofExcept (checkChunkStart receiver chunkStart)
  modify fun s => ({ s.1 with
    lastChunkIndex := some chunkStart.chunkIndex
    active := some {
      range
      expectedHash := chunkStart.expectedHash
      nextOffset := range.offset
      hasher := [] } }, s.2)

/-- The checks of DATA: the active chunk, where the data end and where the chunk does. -/
def checkData (receiver : ChunkReceiverV03) (data : DataV03) :
    Except ReceiverV03Error (IncomingChunk × UInt64 × UInt64) := do
  let active ← receiver.active.elim (.error .dataWithoutActiveChunk) .ok
  refuseIf (data.absoluteOffset ≠ active.nextOffset)
    (.unexpectedDataOffset active.nextOffset data.absoluteOffset)
  refuseIf (data.data.length ≥ 2 ^ 64) .dataLengthOverflow
  let dataEnd ← (checkedAdd data.absoluteOffset (.ofNat data.data.length)).elim
    (.error .dataRangeOverflow) .ok
  let chunkEnd ← (checkedAdd active.range.offset active.range.length).elim
    (.error .dataRangeOverflow) .ok
  let fileSize := receiver.chunkState.layout.fileSize
  refuseIf (dataEnd > fileSize) (.dataExceedsFileSize dataEnd fileSize)
  refuseIf (dataEnd > chunkEnd) (.dataCrossesChunkBoundary dataEnd chunkEnd)
  return (active, dataEnd, chunkEnd)

def persistVerifiedChunk [Crates] (file : File) (partialPath : Path) : ChunkReceiving Γ Unit := do
  let (receiver, _) ← get
  let verified ← .ofExcept (receiver.pendingVerified.elim (.error .noPendingVerifiedChunk) .ok)
  let candidate ← .ofExcept
    ((receiver.chunkState.recordVerifiedChunk verified.index verified.hash).mapError .chunkState)
  onFiles (file.syncData.mapErr .io)
  onFiles ((writeChunkState partialPath candidate).mapErr .chunkState)
  modify fun s => ({ s.1 with chunkState := candidate, pendingVerified := none }, s.2)

variable [Crates]

/-- What is done once the data of DATA are in the file. -/
def absorbData (active : IncomingChunk) (chunkEnd : UInt64) :
    ChunkReceiving Γ (Option VerifiedChunk) := do
  modify fun s => ({ s.1 with active := some active }, s.2)
  if active.nextOffset ≠ chunkEnd then return none
  else
    let hash := blake3 active.hasher
    if hash ≠ active.expectedHash then throw (.chunkHashMismatch active.range.index)
    else
      let verified : VerifiedChunk := { index := active.range.index, hash }
      modify fun s => ({ s.1 with active := none, pendingVerified := some verified }, s.2)
      return some verified

def writeData (file : File) (data : DataV03) : ChunkReceiving Γ (Option VerifiedChunk) := do
  let (receiver, _) ← get
  let (active, dataEnd, chunkEnd) ← .ofExcept (checkData receiver data)
  let _ ← onFiles (((file.seek data.absoluteOffset.toNat).writeAll data.data).mapErr .io)
  absorbData { active with hasher := active.hasher ++ data.data, nextOffset := dataEnd } chunkEnd

end ChunkReceiverV03

end V03

/-! ### Overwriting a part of a file -/

/-- The bytes outside of `lo` and `hi` are the same, and as many. -/
structure Overwritten (lo hi : ℕ) (bytes bytes' : Bytes) : Prop where
  length : bytes'.length = bytes.length
  outside : ∀ k, k < lo ∨ hi ≤ k → bytes'[k]? = bytes[k]?

namespace Overwritten

variable {lo hi lo' hi' : ℕ} {bytes bytes' bytes'' : Bytes}

theorem refl (bytes : Bytes) : Overwritten lo hi bytes bytes := ⟨rfl, fun _ _ => rfl⟩

theorem mono (h : Overwritten lo hi bytes bytes') (hlo : lo' ≤ lo) (hhi : hi ≤ hi') :
    Overwritten lo' hi' bytes bytes' :=
  ⟨h.length, fun k hk => h.outside k (by omega)⟩

theorem splice {old bs : Bytes} {pos : ℕ} (h : pos + bs.length ≤ old.length) :
    Overwritten pos (pos + bs.length) old (Fs.splice old pos bs) := by
  have hlen : (old.take pos).length = pos := List.length_take_of_le (by omega)
  have heq : Fs.splice old pos bs = old.take pos ++ bs ++ old.drop (pos + bs.length) := by
    rw [Fs.splice, List.takeD_eq_take _ (by omega)]
  refine ⟨?_, fun k hk => ?_⟩
  · rw [heq]
    simp only [List.length_append, List.length_drop, hlen]
    omega
  · rw [heq]
    rcases hk with hk | hk
    · rw [List.append_assoc, List.getElem?_append_left (by omega), List.getElem?_take_of_lt hk]
    · rw [List.getElem?_append_right (by simp only [List.length_append, hlen]; omega),
        List.getElem?_drop, List.length_append, hlen]
      congr 1
      omega

/-- A part that does not meet what was overwritten. -/
theorem slice (h : Overwritten lo hi bytes bytes') {offset length : ℕ}
    (hd : offset + length ≤ lo ∨ hi ≤ offset) :
    (bytes'.drop offset).take length = (bytes.drop offset).take length := by
  refine List.ext_getElem? fun k => ?_
  by_cases hk : k < length
  · rw [List.getElem?_take_of_lt hk, List.getElem?_take_of_lt hk, List.getElem?_drop,
      List.getElem?_drop, h.outside _ (by omega)]
  · rw [List.getElem?_eq_none (by simp only [List.length_take]; omega),
      List.getElem?_eq_none (by simp only [List.length_take]; omega)]

end Overwritten

/-- What was written stands where it was written. -/
theorem slice_splice {old bs : Bytes} {pos : ℕ} (h : pos + bs.length ≤ old.length) :
    ((Fs.splice old pos bs).drop pos).take bs.length = bs := by
  have hlen : (old.take pos).length = pos := List.length_take_of_le (by omega)
  rw [Fs.splice, List.takeD_eq_take _ (by omega), List.append_assoc, List.drop_left' hlen,
    List.take_left]

namespace V03

open Prog

variable {faults crashes : Bool} {file : File} {path : Path}

/-! ### What holds between the calls -/

/-- The ranges of two chunks do not meet. -/
theorem range_disjoint {layout : ChunkLayout} {i j : UInt64} {r s : ChunkRange}
    (hr : layout.range i = some r) (hs : layout.range j = some s) (h : i ≠ j) :
    r.offset.toNat + r.length.toNat ≤ s.offset.toNat ∨
      s.offset.toNat + s.length.toNat ≤ r.offset.toNat := by
  obtain ⟨-, -, hro, hrl⟩ := ChunkLayout.range_eq_some.mp hr
  obtain ⟨-, -, hso, hsl⟩ := ChunkLayout.range_eq_some.mp hs
  have hne : i.toNat ≠ j.toNat := fun he => h (UInt64.toNat_inj.mp he)
  rcases Nat.lt_or_gt_of_ne hne with hlt | hlt
  · have := Nat.mul_le_mul_right layout.chunkSize.toNat hlt
    rw [Nat.succ_mul] at this
    omega
  · have := Nat.mul_le_mul_right layout.chunkSize.toNat hlt
    rw [Nat.succ_mul] at this
    omega

theorem range_le {layout : ChunkLayout} {i : UInt64} {r : ChunkRange}
    (h : layout.range i = some r) :
    r.offset.toNat + r.length.toNat ≤ layout.fileSize.toNat := by
  obtain ⟨hlt, -, ho, hl⟩ := ChunkLayout.range_eq_some.mp h
  omega

theorem range_index {layout : ChunkLayout} {i : UInt64} {r : ChunkRange}
    (h : layout.range i = some r) : r.index = i := (ChunkLayout.range_eq_some.mp h).2.1

section

variable [Crates]

/-- A chunk whose data are being written, from the beginning of its range on. -/
structure IncomingChunk.InFile (layout : ChunkLayout) (bytes : Bytes) (a : IncomingChunk) :
    Prop where
  range_eq : layout.range a.range.index = some a.range
  le : a.range.offset.toNat ≤ a.nextOffset.toNat
  le_end : a.nextOffset.toNat ≤ a.range.offset.toNat + a.range.length.toNat
  hasher_eq : a.hasher = (bytes.drop a.range.offset.toNat).take
    (a.nextOffset.toNat - a.range.offset.toNat)

/-- **What holds between the calls**: the partial file has its full length, every record is true of
it but for the chunk being written or waiting, and a chunk that waits has the bytes it was verified
with. -/
structure Consistent (file : File) (path : Path) (receiver : ChunkReceiverV03) (fs : Fs) :
    Prop where
  ne_nil : path ≠ []
  opened : fs.names path = some (.file file.ino)
  seeks : file.append = false
  length : (fs.data file.ino).length = receiver.chunkState.layout.fileSize.toNat
  recorded : ∀ c ∈ receiver.chunkState.chunks,
    (∀ a, receiver.active = some a → a.range.index ≠ c.index) →
    (∀ v, receiver.pendingVerified = some v → v.index ≠ c.index) →
    c.TrueOf receiver.chunkState.layout (fs.data file.ino)
  active : ∀ a, receiver.active = some a →
    a.InFile receiver.chunkState.layout (fs.data file.ino) ∧ receiver.pendingVerified = none
  pending : ∀ v, receiver.pendingVerified = some v →
    RecordedChunk.TrueOf receiver.chunkState.layout (fs.data file.ino) ⟨v.index, v.hash⟩

/-- The files after a call: nothing but the range of the chunk that was active is overwritten. -/
def Touches (file : File) (receiver : ChunkReceiverV03) (fs fs' : Fs) : Prop :=
  fs'.data file.ino = fs.data file.ino ∨ ∃ a, receiver.active = some a ∧
    Overwritten a.range.offset.toNat (a.range.offset.toNat + a.range.length.toNat)
      (fs.data file.ino) (fs'.data file.ino)

end

/-! ### The calls -/

inductive ChunkCall where
  | begin (chunkStart : ChunkStartV03)
  | write (data : DataV03)
  | persist
  deriving DecidableEq, Repr

section

variable [Crates] {s : ChunkReceiverV03 × Disk (.alone faults crashes)}

/-- A call, whatever it returns. -/
def ChunkCall.run (file : File) (path : Path) : ChunkCall → ChunkReceiving Γ Unit
  | .begin chunkStart => ChunkReceiverV03.beginChunk chunkStart
  | .write data => do let _ ← ChunkReceiverV03.writeData file data
  | .persist => ChunkReceiverV03.persistVerifiedChunk file path

/-- The chunk that a call begins. -/
def ChunkCall.begins : ChunkCall → Outcome ReceiverV03Error Unit → List UInt64
  | .begin chunkStart, .ok () => [chunkStart.chunkIndex]
  | _, _ => []

omit [Crates] in
theorem checkChunkStart_eq_ok {receiver : ChunkReceiverV03} {chunkStart : ChunkStartV03}
    {range : ChunkRange} (h : receiver.checkChunkStart chunkStart = .ok range) :
    receiver.pendingVerified = none ∧ receiver.active = none ∧
      receiver.chunkState.layout.range chunkStart.chunkIndex = some range := by
  unfold ChunkReceiverV03.checkChunkStart at h
  rcases hp : receiver.pendingVerified with _ | v
  · rcases hr : receiver.chunkState.layout.range chunkStart.chunkIndex with _ | r
    · simp [hp, hr] at h
    · rcases hl : receiver.lastChunkIndex with _ | previous
      · simp only [hp, hr, hl, bind_eq_ok, refuseIf_eq_ok, pure_eq_ok, Option.elim] at h
        simp_all
      · simp only [hp, hr, hl, bind_eq_ok, refuseIf_eq_ok, pure_eq_ok, Option.elim] at h
        simp_all
  · simp [hp] at h

omit [Crates] in
theorem checkData_eq_ok {receiver : ChunkReceiverV03} {data : DataV03} {a : IncomingChunk}
    {dataEnd chunkEnd : UInt64} (h : receiver.checkData data = .ok (a, dataEnd, chunkEnd)) :
    receiver.active = some a ∧ data.absoluteOffset = a.nextOffset ∧
      dataEnd.toNat = a.nextOffset.toNat + data.data.length ∧
      chunkEnd.toNat = a.range.offset.toNat + a.range.length.toNat ∧
      dataEnd.toNat ≤ chunkEnd.toNat := by
  unfold ChunkReceiverV03.checkData at h
  rcases ha : receiver.active with _ | active
  · simp [ha] at h
  · simp only [ha, bind_eq_ok, refuseIf_eq_ok, pure_eq_ok, Option.elim] at h
    obtain ⟨a', ha', -, hoff, -, hlen, e, he, c, hc, -, -, -, hle, heq⟩ := h
    obtain rfl : active = a' := by simpa using ha'
    obtain ⟨rfl, rfl, rfl⟩ : active = a ∧ e = dataEnd ∧ c = chunkEnd := by simpa using heq
    have he : checkedAdd data.absoluteOffset (.ofNat data.data.length) = some e := by
      rcases h : checkedAdd data.absoluteOffset (.ofNat data.data.length) with _ | e'
      · simp [h] at he
      · simpa [h] using he
    have hc : checkedAdd active.range.offset active.range.length = some c := by
      rcases h : checkedAdd active.range.offset active.range.length with _ | c'
      · simp [h] at hc
      · simpa [h] using hc
    have hoff : data.absoluteOffset = active.nextOffset := not_not.mp hoff
    rw [checkedAdd_eq_some, hoff, UInt64.toNat_ofNat_of_lt' (by rw [UInt64.size]; omega)] at he
    rw [checkedAdd_eq_some] at hc
    rw [gt_iff_lt, UInt64.not_lt, UInt64.le_iff_toNat_le] at hle
    exact ⟨rfl, hoff, he.symm, hc.symm, hle⟩

omit [Crates] in
theorem ensures_onFiles {ε α : Type} {p : Prog (Disk Γ) ε α} {s : ChunkReceiverV03 × Disk Γ}
    {Q : Outcome ε α → ChunkReceiverV03 × Disk Γ → Prop} :
    (onFiles p).Ensures s Q ↔ p.Ensures s.2 fun o d => Q o (s.1, d) := by
  unfold Prog.Ensures
  rfl

/-- What a call does to a consistent receiver and its files. -/
structure Kept (file : File) (path : Path) (begun : List UInt64) (s t : ChunkReceiverV03 × Fs) :
    Prop where
  consistent : Consistent file path t.1 t.2
  layout_eq : t.1.chunkState.layout = s.1.chunkState.layout
  active : ∀ a, t.1.active = some a → a.range.index ∈ begun ∨
    ∃ a', s.1.active = some a' ∧ a.range = a'.range
  touches : Touches file s.1 s.2 t.2

theorem Kept.refl {begun : List UInt64} {receiver : ChunkReceiverV03} {fs : Fs}
    (h : Consistent file path receiver fs) : Kept file path begun (receiver, fs) (receiver, fs) :=
  ⟨h, rfl, fun a ha => .inr ⟨a, ha, rfl⟩, .inl rfl⟩

theorem beginChunk_spec (h : Consistent file path s.1 s.2.fs) {chunkStart : ChunkStartV03} :
    (ChunkReceiverV03.beginChunk chunkStart).Ensures s (Post
      (fun _ t => Kept file path [chunkStart.chunkIndex] (s.1, s.2.fs) (t.1, t.2.fs))
      (fun _ t => Kept file path [] (s.1, s.2.fs) (t.1, t.2.fs)) fun _ => False) := by
  rw [ChunkReceiverV03.beginChunk, ensures_bind, ensures_get, post_ok, ensures_bind,
    ensures_ofExcept]
  rcases hcheck : s.1.checkChunkStart chunkStart with e | range
  · exact Kept.refl h
  · obtain ⟨hpending, hactive, hrange⟩ := checkChunkStart_eq_ok hcheck
    have hindex := range_index hrange
    simp only [post_ok, ensures_modify]
    refine ⟨⟨h.ne_nil, h.opened, h.seeks, h.length, ?_, ?_, h.pending⟩, rfl, ?_, .inl rfl⟩
    · intro c hc _ hv
      exact h.recorded c hc (by simp [hactive]) hv
    · rintro a ha
      obtain rfl := Option.some.inj ha
      exact ⟨⟨by rw [hindex]; exact hrange, le_rfl, Nat.le_add_right _ _, by simp⟩, hpending⟩
    · rintro a ha
      obtain rfl := Option.some.inj ha
      exact .inl (by simp [hindex])

/-- Overwriting a part of the active chunk, from where it stands. -/
theorem Consistent.overwritten {receiver : ChunkReceiverV03} {fs fs' : Fs} {a : IncomingChunk}
    {hi : ℕ} (h : Consistent file path receiver fs) (ha : receiver.active = some a)
    (hhi : hi ≤ a.range.offset.toNat + a.range.length.toNat) (hn : fs'.names = fs.names)
    (ho : Overwritten a.nextOffset.toNat hi (fs.data file.ino) (fs'.data file.ino)) :
    Consistent file path receiver fs' := by
  obtain ⟨hin, hpending⟩ := h.active a ha
  have hwhole := ho.mono hin.le hhi
  refine ⟨h.ne_nil, by rw [hn]; exact h.opened, h.seeks, ho.length.trans h.length, ?_, ?_, ?_⟩
  · intro c hc hca hcv
    obtain ⟨r, hr, hle, hhash⟩ := h.recorded c hc hca hcv
    refine ⟨r, hr, by rwa [ho.length], ?_⟩
    rw [ChunkRange.slice, hwhole.slice (range_disjoint hr hin.range_eq (hca a ha).symm)]
    exact hhash
  · rintro a' ha'
    obtain rfl := Option.some.inj (ha.symm.trans ha')
    refine ⟨⟨hin.range_eq, hin.le, hin.le_end, ?_⟩, hpending⟩
    rw [ho.slice (.inl (by have := hin.le; omega))]
    exact hin.hasher_eq
  · intro v hv
    cases hpending.symm.trans hv

/-- Absorbing data that stand in the file. -/
theorem absorbData_spec {a : IncomingChunk} {chunkEnd : UInt64}
    (h : Consistent file path { s.1 with active := some a } s.2.fs)
    (hend : chunkEnd.toNat = a.range.offset.toNat + a.range.length.toNat) :
    (ChunkReceiverV03.absorbData a chunkEnd).Ensures s fun _ t => t.2 = s.2 ∧
      Consistent file path t.1 s.2.fs ∧ t.1.chunkState.layout = s.1.chunkState.layout ∧
      ∀ a', t.1.active = some a' → a' = a := by
  obtain ⟨hin, hpending⟩ := h.active a rfl
  rw [ChunkReceiverV03.absorbData, ensures_bind, ensures_modify, post_ok]
  split_ifs with hmore
  · rw [ensures_pure]
    exact ⟨rfl, h, rfl, fun a' ha' => (Option.some.inj ha').symm⟩
  dsimp only
  split_ifs with hhash
  · rw [ensures_throw]
    exact ⟨rfl, h, rfl, fun a' ha' => (Option.some.inj ha').symm⟩
  rw [ensures_bind, ensures_modify, post_ok, ensures_pure]
  have hwhole : a.hasher = a.range.slice (s.2.fs.data file.ino) := by
    rw [hin.hasher_eq, ChunkRange.slice, not_not.mp hmore, hend, Nat.add_sub_cancel_left]
  refine ⟨rfl, ⟨h.ne_nil, h.opened, h.seeks, h.length, ?_, by simp, ?_⟩, rfl, by simp⟩
  · intro c hc _ hv
    refine h.recorded c hc ?_ fun v hv' => by cases hpending.symm.trans hv'
    rintro a' ha'
    obtain rfl := Option.some.inj ha'
    exact hv _ rfl
  · rintro v hv
    obtain rfl := Option.some.inj hv
    exact ⟨a.range, hin.range_eq, (range_le hin.range_eq).trans_eq h.length.symm, by rw [hwhole]⟩

theorem writeData_spec (h : Consistent file path s.1 s.2.fs) {data : DataV03} :
    (ChunkReceiverV03.writeData file data).Ensures s fun _ t =>
      Kept file path [] (s.1, s.2.fs) (t.1, t.2.fs) := by
  rw [ChunkReceiverV03.writeData, ensures_bind, ensures_get, post_ok, ensures_bind,
    ensures_ofExcept]
  rcases hcheck : s.1.checkData data with e | ⟨a, dataEnd, chunkEnd⟩
  · exact Kept.refl h
  obtain ⟨ha, hoff, hend, hchunk, hle⟩ := checkData_eq_ok hcheck
  obtain ⟨hin, hpending⟩ := h.active a ha
  have hfit := range_le hin.range_eq
  have hlen := h.length
  have hpos : (file.seek data.absoluteOffset.toNat).pos = a.nextOffset.toNat := by rw [hoff]; rfl
  -- what is written of the data stands within the range
  have part (bs : Bytes) (hbs : bs.length ≤ data.data.length) :
      Overwritten a.nextOffset.toNat (a.nextOffset.toNat + bs.length) (s.2.fs.data file.ino)
        ((file.seek data.absoluteOffset.toNat).written (s.2.fs.data file.ino) bs) := by
    rw [File.written, if_neg (by simpa [File.seek] using h.seeks), hpos]
    exact .splice (by omega)
  have kept (bs : Bytes) (hbs : bs.length ≤ data.data.length) (d : Disk (.alone faults crashes))
      (hd : d.fs = s.2.fs.setData file.ino
        ((file.seek data.absoluteOffset.toNat).written (s.2.fs.data file.ino) bs)) :
      Kept file path [] (s.1, s.2.fs) (s.1, d.fs) := by
    have ho : Overwritten a.nextOffset.toNat (a.nextOffset.toNat + bs.length)
        (s.2.fs.data file.ino) (d.fs.data file.ino) := by
      rw [hd, Fs.data_setData, Function.update_self]
      exact part bs hbs
    refine ⟨h.overwritten ha (by omega) (by rw [hd]; rfl) ho, rfl,
      fun a' ha' => .inr ⟨a', ha', rfl⟩, .inr ⟨a, ha, ho.mono hin.le (by omega)⟩⟩
  simp only [post_ok, ensures_bind, ensures_onFiles, ensures_mapErr]
  refine (File.writeAll_spec (.inr (by rw [hpos]; simp only [File.seek]; omega))).mono
    fun o d hd => ?_
  cases o with
  | err e =>
    obtain ⟨-, n, hd⟩ := hd
    exact kept _ (by simp) d hd
  | halt =>
    obtain ⟨-, n, hd⟩ := hd
    exact kept _ (by simp) d hd
  | ok file' =>
    obtain ⟨hd, -⟩ := hd
    have hkept := kept data.data le_rfl d hd
    have hdata : d.fs.data file.ino =
        Fs.splice (s.2.fs.data file.ino) a.nextOffset.toNat data.data := by
      rw [hd, Fs.data_setData]
      simp only [File.seek, Function.update_self, File.written, h.seeks, hoff]
      rfl
    have hin' : IncomingChunk.InFile s.1.chunkState.layout (d.fs.data file.ino)
        { a with hasher := a.hasher ++ data.data, nextOffset := dataEnd } := by
      have hbefore := (hkept.consistent.active a ha).1.hasher_eq
      have hge := hin.le
      refine ⟨hin.range_eq, by simp only; omega, by simp only; omega, ?_⟩
      simp only
      rw [show dataEnd.toNat - a.range.offset.toNat =
        (a.nextOffset.toNat - a.range.offset.toNat) + data.data.length by omega, List.take_add,
        ← hbefore, List.drop_drop, Nat.add_sub_cancel' hge, hdata, slice_splice (by omega)]
    have hc : Consistent file path { s.1 with active := some ({ a with
        hasher := a.hasher ++ data.data, nextOffset := dataEnd } : IncomingChunk) } d.fs := by
      refine ⟨h.ne_nil, hkept.consistent.opened, h.seeks, hkept.consistent.length, ?_, ?_,
        hkept.consistent.pending⟩
      · intro c hc hca hcv
        refine hkept.consistent.recorded c hc ?_ hcv
        rintro a' ha'
        obtain rfl := Option.some.inj (ha.symm.trans ha')
        have := hca _ rfl
        exact this
      · rintro a' ha'
        obtain rfl := Option.some.inj ha'
        exact ⟨hin', hpending⟩
    refine (absorbData_spec (s := (s.1, d)) hc hchunk).mono fun o t ht => ?_
    obtain ⟨ht, hct, hlayout, hactive⟩ := ht
    rw [ht]
    refine ⟨hct, hlayout, fun a' ha' => .inr ⟨a, ha, by rw [hactive a' ha']⟩, ?_⟩
    exact hkept.touches

/-- What the snapshot of a partial file is written to leaves the partial file alone. -/
theorem Consistent.within {receiver : ChunkReceiverV03} {fs fs' : Fs}
    (h : Consistent file path receiver fs)
    (hw : Fs.Within ∅ {chunkStateTemporaryPath path, chunkStatePath path} ∅ fs fs') :
    Consistent file path receiver fs' ∧ fs'.data file.ino = fs.data file.ino := by
  have hdata : fs'.data file.ino = fs.data file.ino :=
    hw.data _ (fs.allocated path _ h.opened) (Set.notMem_empty _)
  have hnames : fs'.names path = fs.names path :=
    hw.names_eq' (notMem_chunkStatePaths h.ne_nil) (Set.notMem_empty _)
  refine ⟨⟨h.ne_nil, hnames.trans h.opened, h.seeks, ?_, ?_, ?_, ?_⟩, hdata⟩ <;> rw [hdata]
  · exact h.length
  · exact h.recorded
  · exact h.active
  · exact h.pending

theorem persistVerifiedChunk_spec (h : Consistent file path s.1 s.2.fs) :
    (ChunkReceiverV03.persistVerifiedChunk file path).Ensures s fun _ t =>
      Kept file path [] (s.1, s.2.fs) (t.1, t.2.fs) := by
  rw [ChunkReceiverV03.persistVerifiedChunk, ensures_bind, ensures_get, post_ok, ensures_bind,
    ensures_ofExcept]
  rcases hv : s.1.pendingVerified with _ | v
  · exact Kept.refl h
  simp only [Option.elim, post_ok, ensures_bind, ensures_ofExcept]
  rcases hcandidate : s.1.chunkState.recordVerifiedChunk v.index v.hash with e | candidate
  · exact Kept.refl h
  obtain ⟨hlayout, hchunks⟩ := ChunkState.recordVerifiedChunk_eq_ok hcandidate
  have unmoved {fs : Fs} (hw : Fs.Within ∅ {chunkStateTemporaryPath path, chunkStatePath path} ∅
      s.2.fs fs) : Kept file path [] (s.1, s.2.fs) (s.1, fs) :=
    ⟨(h.within hw).1, rfl, fun a ha => .inr ⟨a, ha, rfl⟩, .inl (h.within hw).2⟩
  simp only [Except.mapError, post_ok, ensures_onFiles, ensures_mapErr]
  refine Disk.ensures_call (fun _ fs _ hfs => ?_) (fun k _ hk => ?_) (fun hf k _ => ?_) fun hc _ => ?_
  · obtain rfl : s.2.fs = fs := by simpa using hfs
    simp only [post_ok, writeChunkState, ensures_mapErr]
    refine (Storage.replaceFile_spec appendSuffix_ne_nil appendSuffix_ne_nil
      chunkStatePath_ne_temporary dropLast_chunkStateTemporaryPath.symm).mono fun o d hd => ?_
    cases o with
    | err e => exact unmoved hd.1.1
    | halt => exact unmoved hd.1.1
    | ok u =>
      obtain ⟨hc, hdata⟩ := h.within hd.2.within
      simp only [post_ok, ensures_modify]
      have hnone : s.1.active = none := by
        rcases ha : s.1.active with _ | a
        · rfl
        · cases hv.symm.trans (h.active a ha).2
      refine ⟨⟨h.ne_nil, hc.opened, h.seeks, ?_, ?_, ?_, by simp⟩, hlayout, ?_, .inl hdata⟩
      · rw [hc.length, hlayout]
      · intro c hcmem _ _
        simp only [hchunks] at hcmem
        rw [hlayout]
        rcases (ChunkState.mem_recordChunk s.1.chunkState.valid).mp hcmem with rfl | ⟨hmem, hne⟩
        · exact hc.pending v hv
        · refine hc.recorded c hmem (by simp [hnone]) ?_
          rintro v' hv'
          obtain rfl := Option.some.inj (hv.symm.trans hv')
          exact hne.symm
      · intro a ha
        cases hnone.symm.trans ha
      · intro a ha
        cases hnone.symm.trans ha
  · simp at hk
  · exact Kept.refl h
  · exact Kept.refl h

/-- **One call keeps the receiver consistent**, whatever it returns. -/
theorem ChunkCall.run_spec (h : Consistent file path s.1 s.2.fs) (call : ChunkCall) :
    (call.run file path).Ensures s fun o t =>
      Kept file path (call.begins o) (s.1, s.2.fs) (t.1, t.2.fs) := by
  cases call with
  | begin chunkStart =>
    refine (beginChunk_spec h).mono fun o t ht => ?_
    cases o with
    | ok => exact ht
    | err => exact ht
    | halt => exact ht.elim
  | write data =>
    exact Ensures.bind (writeData_spec h) (fun _ _ ht => ensures_pure.mpr ht) (fun _ _ ht => ht)
      fun _ ht => ht
  | persist =>
    exact (persistVerifiedChunk_spec h).mono fun o t ht => ht

/-- Calls one after the other, whatever each returns, and the chunks they begin. -/
inductive ChunkRun (file : File) (path : Path) (s : ChunkReceiverV03 × Disk Γ) :
    List UInt64 → ChunkReceiverV03 × Disk Γ → Prop
  | start : ChunkRun file path s [] s
  | call {begun : List UInt64} {t : ChunkReceiverV03 × Disk Γ} (h : ChunkRun file path s begun t)
      (call : ChunkCall) : ChunkRun file path s
        (begun ++ call.begins (call.run file path t).1) (call.run file path t).2

/-- Position `k` lies in the range of one of the chunks `begun`. -/
def InBegun (layout : ChunkLayout) (begun : List UInt64) (k : ℕ) : Prop :=
  ∃ i ∈ begun, ∃ r, layout.range i = some r ∧
    r.offset.toNat ≤ k ∧ k < r.offset.toNat + r.length.toNat

/-- What calls that begin the chunks `begun` leave of a partial file with the bytes `bytes`. -/
structure RunKept (file : File) (path : Path) (layout : ChunkLayout) (bytes : Bytes)
    (begun : List UInt64) (t : ChunkReceiverV03 × Fs) : Prop where
  consistent : Consistent file path t.1 t.2
  layout_eq : t.1.chunkState.layout = layout
  active : ∀ a, t.1.active = some a → a.range.index ∈ begun
  outside : ∀ k, ¬InBegun layout begun k → (t.2.data file.ino)[k]? = bytes[k]?

/-- **Any calls keep the receiver consistent**, and overwrite nothing but the chunks they begin. -/
theorem ChunkRun.kept {begun : List UInt64} {t : ChunkReceiverV03 × Disk (.alone faults crashes)}
    (hrun : ChunkRun file path s begun t) (h : Consistent file path s.1 s.2.fs)
    (hactive : s.1.active = none) :
    RunKept file path s.1.chunkState.layout (s.2.fs.data file.ino) begun (t.1, t.2.fs) := by
  induction hrun with
  | start => exact ⟨h, rfl, by simp [hactive], fun _ _ => rfl⟩
  | @call begun t hrun call ih =>
    have hstep := (ChunkCall.run_spec ih.consistent call).apply
    refine ⟨hstep.consistent, hstep.layout_eq.trans ih.layout_eq, fun a ha => ?_, fun k hk => ?_⟩
    · rcases hstep.active a ha with hbegun | ⟨a', ha', heq⟩
      · exact List.mem_append_right _ hbegun
      · exact List.mem_append_left _ (heq ▸ ih.active a' ha')
    · have hold := ih.outside k fun ⟨i, hi, hr⟩ => hk ⟨i, List.mem_append_left _ hi, hr⟩
      rcases hstep.touches with heq | ⟨a, ha, hover⟩
      · rw [← hold]
        exact congrArg (·[k]?) heq
      · rw [← hold]
        refine hover.outside k ?_
        by_contra hin
        refine hk ⟨a.range.index, List.mem_append_left _ (ih.active a ha), a.range, ?_, by omega,
          by omega⟩
        rw [← ih.layout_eq]
        exact (ih.consistent.active a ha).1.range_eq

end

end V03

end Warpfile
