import Warpfile.Storage.Regularity
import Warpfile.V03.ChunkReceiver
import Warpfile.V03.Inventory
import Warpfile.V03.Sender

/-!
# Assembling a file from the chunks of its emission

The receiver is given the chunks that its inventory lacks, in order and in any fragments, of the
file that it has the other chunks of. Then no call fails, and with the last of them the partial file
is the file. `BetweenChunks` and `WithinChunk` are the two kinds of places the receiver comes to.
-/

namespace Warpfile.V03

open Prog

/-! ### The chunks of a file -/

section

variable {layout : ChunkLayout} {bytes content : Bytes}

theorem chunkBytes_eq_slice {i : UInt64} {r : ChunkRange} (h : layout.range i = some r) :
    chunkBytes layout bytes i.toNat = r.slice bytes := by
  obtain ⟨-, -, hoffset, hlength⟩ := ChunkLayout.range_eq_some.mp h
  rw [chunkBytes, ChunkRange.slice, hoffset, hlength]

/-- A file is the sum of its chunks. -/
theorem eq_of_chunkBytes (hlen : bytes.length = layout.fileSize.toNat)
    (hlen' : content.length = layout.fileSize.toNat)
    (h : ∀ i < layout.chunkCount.toNat, chunkBytes layout bytes i = chunkBytes layout content i) :
    bytes = content := by
  refine List.ext_getElem? fun k => ?_
  by_cases hk : k < layout.fileSize.toNat
  · -- the chunk that the byte lies in
    have hpos := layout.chunkSize_pos
    have hdiv := Nat.div_add_mod k layout.chunkSize.toNat
    have hmod := Nat.mod_lt k hpos
    rw [Nat.mul_comm] at hdiv
    have hi : k / layout.chunkSize.toNat < layout.chunkCount.toNat :=
      ChunkLayout.lt_chunkCount.mpr (by omega)
    have hchunk (bs : Bytes) : bs[k]? =
        (chunkBytes layout bs (k / layout.chunkSize.toNat))[k % layout.chunkSize.toNat]? := by
      rw [chunkBytes, List.getElem?_take_of_lt (by omega), List.getElem?_drop, hdiv]
    rw [hchunk, hchunk, h _ hi]
  · rw [List.getElem?_eq_none (by omega), List.getElem?_eq_none (by omega)]

theorem length_chunkBytes {i : ℕ} (hlen : bytes.length = layout.fileSize.toNat) :
    (chunkBytes layout bytes i).length =
      min layout.chunkSize.toNat (layout.fileSize.toNat - i * layout.chunkSize.toNat) := by
  rw [chunkBytes, List.length_take, List.length_drop]
  omega

end

/-! ### Calls that succeed -/

section

variable [Crates] {file : File} {path : Path} {receiver : ChunkReceiverV03} {active : IncomingChunk}
  {data : DataV03} {d : Disk (.alone false false)}

/-- DATA that continue the active chunk, and do not exceed it. -/
structure Continuing (receiver : ChunkReceiverV03) (active : IncomingChunk) (data : DataV03) : Prop
    where
  active_eq : receiver.active = some active
  offset_eq : data.absoluteOffset = active.nextOffset
  le_end : active.nextOffset.toNat + data.data.length ≤
    active.range.offset.toNat + active.range.length.toNat
  end_le : active.range.offset.toNat + active.range.length.toNat ≤
    receiver.chunkState.layout.fileSize.toNat

omit [Crates] in
theorem Continuing.checkData (h : Continuing receiver active data) : ∃ dataEnd chunkEnd,
    receiver.checkData data = .ok (active, dataEnd, chunkEnd) ∧
      dataEnd.toNat = active.nextOffset.toNat + data.data.length ∧
      chunkEnd.toNat = active.range.offset.toNat + active.range.length.toNat := by
  have hfile := receiver.chunkState.layout.fileSize.toNat_lt
  have hle := h.le_end
  have hend := h.end_le
  have hlen : (UInt64.ofNat data.data.length).toNat = data.data.length :=
    UInt64.toNat_ofNat_of_lt' (by rw [UInt64.size]; omega)
  have hdata : checkedAdd data.absoluteOffset (.ofNat data.data.length) =
      some (data.absoluteOffset + .ofNat data.data.length) :=
    if_pos (by rw [hlen, h.offset_eq]; omega)
  have hchunk : checkedAdd active.range.offset active.range.length =
      some (active.range.offset + active.range.length) := if_pos (by omega)
  have hdata' := checkedAdd_eq_some.mp hdata
  have hchunk' := checkedAdd_eq_some.mp hchunk
  rw [hlen, h.offset_eq] at hdata'
  refine ⟨active.nextOffset + .ofNat data.data.length, active.range.offset + active.range.length,
    ?_, hdata'.symm, hchunk'.symm⟩
  rw [h.offset_eq] at hdata
  simp only [ChunkReceiverV03.checkData, h.active_eq, h.offset_eq, hdata, bind_eq_ok,
    refuseIf_eq_ok, pure_eq_ok, Option.elim, Except.ok.injEq]
  refine ⟨active, rfl, (), not_not.mpr rfl, (), by omega, _, rfl, _, by rw [hchunk], (), ?_, (), ?_,
    rfl⟩
  · rw [gt_iff_lt, UInt64.lt_iff_toNat_lt, ← hdata']
    omega
  · rw [gt_iff_lt, UInt64.lt_iff_toNat_lt, ← hdata', ← hchunk']
    omega

/-- The data are written where they belong; if they complete the chunk it is verified. -/
theorem Continuing.writeData_run (h : Continuing receiver active data)
    (hseeks : file.append = false)
    (hsize : (d.fs.data file.ino).length = receiver.chunkState.layout.fileSize.toNat)
    (hhash : active.nextOffset.toNat + data.data.length =
      active.range.offset.toNat + active.range.length.toNat →
        blake3 (active.hasher ++ data.data) = active.expectedHash) :
    (ChunkReceiverV03.writeData file data).Ensures (receiver, d) (Post
      (fun verified? t => t.2.fs = d.fs.setData file.ino
          (Fs.splice (d.fs.data file.ino) active.nextOffset.toNat data.data) ∧
        if active.nextOffset.toNat + data.data.length =
            active.range.offset.toNat + active.range.length.toNat then
          verified? = some ⟨active.range.index, active.expectedHash⟩ ∧
            t.1 = ⟨receiver.chunkState, receiver.lastChunkIndex, none,
              some ⟨active.range.index, active.expectedHash⟩⟩
        else verified? = none ∧ t.1 = ⟨receiver.chunkState, receiver.lastChunkIndex,
          some ⟨active.range, active.expectedHash, .ofNat (active.nextOffset.toNat +
            data.data.length), active.hasher ++ data.data⟩, receiver.pendingVerified⟩)
      (fun _ _ => False) fun _ => False) := by
  obtain ⟨dataEnd, chunkEnd, hcheck, hdata, hchunk⟩ := h.checkData
  have hpos : (file.seek data.absoluteOffset.toNat).pos = active.nextOffset.toNat := by
    rw [h.offset_eq]
    rfl
  have hend := h.end_le
  have hle := h.le_end
  have hfits : (file.seek data.absoluteOffset.toNat).pos ≤
      (d.fs.data (file.seek data.absoluteOffset.toNat).ino).length := by
    rw [hpos, show (file.seek data.absoluteOffset.toNat).ino = file.ino from rfl, hsize]
    omega
  rw [ChunkReceiverV03.writeData, ensures_bind, ensures_get, post_ok, ensures_bind,
    ensures_ofExcept, hcheck]
  simp only [post_ok, ensures_bind, ensures_onFiles, ensures_mapErr]
  refine (File.writeAll_spec (.inr hfits)).mono fun o d' hd => ?_
  cases o with
  | err => exact absurd hd.1 (by simp)
  | halt => exact absurd hd.1 (by simp)
  | ok file' =>
    obtain ⟨hd, -⟩ := hd
    have hfs : d'.fs = d.fs.setData file.ino
        (Fs.splice (d.fs.data file.ino) active.nextOffset.toNat data.data) := by
      rw [hd]
      simp only [File.seek, File.written, hseeks, h.offset_eq]
      rfl
    have hword : dataEnd = .ofNat (active.nextOffset.toNat + data.data.length) := by
      rw [← hdata, UInt64.ofNat_toNat]
    show (ChunkReceiverV03.absorbData _ _).Ensures _ _
    rw [ChunkReceiverV03.absorbData, ensures_bind, ensures_modify, post_ok]
    by_cases hwhole : active.nextOffset.toNat + data.data.length =
        active.range.offset.toNat + active.range.length.toNat
    · have heq : dataEnd = chunkEnd := UInt64.toNat_inj.mp (by rw [hdata, hchunk, hwhole])
      rw [if_neg (not_not.mpr heq)]
      dsimp only
      rw [if_neg (not_not.mpr (hhash hwhole)), ensures_bind, ensures_modify, post_ok, ensures_pure]
      refine ⟨hfs, ?_⟩
      rw [if_pos hwhole, hhash hwhole]
      exact ⟨rfl, rfl⟩
    · have hne : dataEnd ≠ chunkEnd := fun heq => hwhole (by rw [← hdata, ← hchunk, heq])
      rw [if_pos hne, ensures_pure]
      refine ⟨hfs, ?_⟩
      rw [if_neg hwhole, hword]
      exact ⟨rfl, rfl⟩

/-- The chunk that waits is recorded, and the snapshot replaced. -/
theorem persistVerifiedChunk_run {verified : VerifiedChunk}
    (hpending : receiver.pendingVerified = some verified)
    (hrange : receiver.chunkState.layout.range verified.index ≠ none)
    (hdir : d.fs.isDir path.dropLast)
    (hregular : d.fs.Regular {chunkStateTemporaryPath path, chunkStatePath path}) :
    (ChunkReceiverV03.persistVerifiedChunk file path).Ensures (receiver, d) (Post
      (fun _ t => ∃ candidate, t.1 = ⟨candidate, receiver.lastChunkIndex, receiver.active, none⟩ ∧
        receiver.chunkState.recordVerifiedChunk verified.index verified.hash = .ok candidate ∧
        Storage.Replaced d.fs (chunkStatePath path) (chunkStateTemporaryPath path)
          (encodeChunkState candidate) t.2.fs) (fun _ _ => False) fun _ => False) := by
  obtain ⟨candidate, hcandidate⟩ : ∃ candidate,
      receiver.chunkState.recordVerifiedChunk verified.index verified.hash = .ok candidate :=
    ⟨_, dif_neg hrange⟩
  have hparent : ∀ p ∈ ({chunkStateTemporaryPath path, chunkStatePath path} : Set Path),
      ¬d.fs.Irregular p := by
    intro p hmem
    refine hregular.not_irregular hmem fun hb => hb.not_isDir ?_ ?_
    · obtain rfl | rfl := hmem
      · exact appendSuffix_ne_nil
      · exact appendSuffix_ne_nil
    · rwa [dropLast_of_mem_chunkStatePaths hmem]
  rw [ChunkReceiverV03.persistVerifiedChunk, ensures_bind, ensures_get, post_ok, ensures_bind,
    ensures_ofExcept, hpending]
  simp only [Option.elim, post_ok, ensures_bind, ensures_ofExcept, hcandidate, Except.mapError,
    ensures_onFiles, ensures_mapErr]
  refine Disk.ensures_call (fun _ fs sched hfs => ?_) (fun k _ hk => ?_) (by simp) (by simp)
  swap
  · simp at hk
  obtain rfl : d.fs = fs := by simpa using hfs
  simp only [post_ok, writeChunkState, ensures_mapErr]
  refine (Storage.replaceFile_spec appendSuffix_ne_nil appendSuffix_ne_nil
    chunkStatePath_ne_temporary dropLast_chunkStateTemporaryPath.symm).mono fun o d' hd => ?_
  cases o with
  | ok =>
    exact ensures_modify.mpr ⟨candidate, rfl, rfl, hd.2⟩
  | err =>
    obtain hf | hi | hi | hi := hd.2
    · cases hf
    · exact hparent _ (.inl rfl) hi
    · exact hparent _ (.inr rfl) hi
    · refine hi ?_
      show d.fs.isDir (chunkStateTemporaryPath path).dropLast
      rwa [dropLast_chunkStateTemporaryPath, chunkStatePath, dropLast_appendSuffix]
  | halt => exact absurd hd.2 (by simp)

end

/-! ### Where the receiver is -/

section

variable [Crates]

/-- The chunks `done` are in the partial file, as are those that need not be sent. Since `fs₀`
nothing but the partial file and its snapshot was written to. -/
structure Assembled (file : File) (path : Path) (content : Bytes) (inventory : ReceiverInventoryV03)
    (fs₀ : Fs) (done : ℕ → Prop) (receiver : ChunkReceiverV03) (fs : Fs) : Prop where
  consistent : Consistent file path receiver fs
  layout_eq : receiver.chunkState.layout = inventory.layout
  held : ∀ i < inventory.layout.chunkCount.toNat, done i ∨ ¬Needed inventory content i →
    chunkBytes inventory.layout (fs.data file.ino) i = chunkBytes inventory.layout content i ∧
      ∃ c ∈ receiver.chunkState.chunks, c.index.toNat = i
  ahead : ∀ c ∈ receiver.chunkState.chunks, ¬done c.index.toNat →
    chunkHashRecord c ∈ inventory.records
  within : Fs.Within ∅ {chunkStateTemporaryPath path, chunkStatePath path} {file.ino} fs₀ fs
  regular : fs.Regular {chunkStateTemporaryPath path, chunkStatePath path}

/-- The chunks before `n` are done, and none is active. -/
structure BetweenChunks (file : File) (path : Path) (content : Bytes)
    (inventory : ReceiverInventoryV03) (fs₀ : Fs) (n : ℕ) (receiver : ChunkReceiverV03) (fs : Fs) :
    Prop where
  assembled : Assembled file path content inventory fs₀ (· < n) receiver fs
  active : receiver.active = none
  pending : receiver.pendingVerified = none
  last : ∀ previous, receiver.lastChunkIndex = some previous → previous.toNat < n
  le : n ≤ inventory.layout.chunkCount.toNat

/-- Chunk `m` is active, and its bytes before `pos` are written. -/
structure WithinChunk (file : File) (path : Path) (content : Bytes)
    (inventory : ReceiverInventoryV03) (fs₀ : Fs) (m pos : ℕ) (active : IncomingChunk)
    (receiver : ChunkReceiverV03) (fs : Fs) : Prop where
  assembled : Assembled file path content inventory fs₀ (· < m) receiver fs
  active_eq : receiver.active = some active
  needed : Needed inventory content m
  lt : m < inventory.layout.chunkCount.toNat
  last : ∃ index, receiver.lastChunkIndex = some index ∧ index.toNat = m
  index : active.range.index.toNat = m
  nextOffset : active.nextOffset.toNat = pos
  expectedHash : active.expectedHash = blake3 (chunkBytes inventory.layout content m)
  hasher : active.hasher = (chunkBytes inventory.layout content m).take
    (pos - m * inventory.layout.chunkSize.toNat)
  pos_lt : pos < m * inventory.layout.chunkSize.toNat +
    (chunkBytes inventory.layout content m).length

variable {file : File} {path : Path} {content : Bytes} {inventory : ReceiverInventoryV03}
  {fs₀ : Fs} {n m pos : ℕ} {receiver : ChunkReceiverV03} {d : Disk (.alone false false)}

/-- **A chunk is begun** that is needed, the next one that is. -/
theorem BetweenChunks.begin (h : BetweenChunks file path content inventory fs₀ n receiver d.fs)
    (hlen : content.length = inventory.layout.fileSize.toNat)
    (hnm : n ≤ m) (hm : m < inventory.layout.chunkCount.toNat)
    (hneeded : Needed inventory content m)
    (hskip : ∀ i, n ≤ i → i < m → ¬Needed inventory content i) :
    (ChunkReceiverV03.beginChunk ⟨.ofNat m, blake3 (chunkBytes inventory.layout content m)⟩).Ensures
      (receiver, d) (Post
        (fun _ t => ∃ active, WithinChunk file path content inventory fs₀ m
          (m * inventory.layout.chunkSize.toNat) active t.1 t.2.fs)
        (fun _ _ => False) fun _ => False) := by
  have hcount := inventory.layout.chunkCount.toNat_lt
  have hindex : (UInt64.ofNat m).toNat = m := UInt64.toNat_ofNat_of_lt' (by rw [UInt64.size]; omega)
  obtain ⟨range, hrange⟩ := Option.isSome_iff_exists.mp (ChunkLayout.range_isSome.mpr
    (show UInt64.ofNat m < inventory.layout.chunkCount by
      rw [UInt64.lt_iff_toNat_lt, hindex]
      exact hm))
  obtain ⟨hlt, hri, hroffset, hrlength⟩ := ChunkLayout.range_eq_some.mp hrange
  rw [hindex] at hlt hroffset hrlength
  -- the record of the chunk, if there is one, has another hash
  have hunverified : receiver.chunkState.hash (.ofNat m) ≠
      some (blake3 (chunkBytes inventory.layout content m)) := by
    intro hsome
    obtain ⟨c, hfind, hhash⟩ := Option.map_eq_some_iff.mp hsome
    have hmem := List.mem_of_find?_eq_some hfind
    have hci : c.index = .ofNat m := by simpa using List.find?_some hfind
    have hrecord := h.assembled.ahead c hmem (by rw [hci, hindex]; omega)
    exact hneeded _ hrecord (by rw [chunkHashRecord, hci, hindex]) hhash
  have hcheck : receiver.checkChunkStart
      ⟨.ofNat m, blake3 (chunkBytes inventory.layout content m)⟩ = .ok range := by
    have hprevious (previous : UInt64) (hp : receiver.lastChunkIndex = some previous) :
        ¬UInt64.ofNat m ≤ previous := by
      have := h.last previous hp
      rw [UInt64.le_iff_toNat_le, hindex]
      omega
    unfold ChunkReceiverV03.checkChunkStart
    rw [h.assembled.layout_eq]
    cases hlast : receiver.lastChunkIndex with
    | none => simp [h.pending, h.active, hrange, hunverified, refuseIf, Bind.bind, Except.bind]
    | some previous =>
      simp [h.pending, h.active, hrange, hunverified, hprevious previous hlast, refuseIf, Bind.bind,
        Except.bind]
  have hpos : 0 < (chunkBytes inventory.layout content m).length := by
    have := inventory.layout.chunkSize_pos
    rw [length_chunkBytes hlen]
    omega
  have hskipped : ∀ i < m, ¬i < n → ¬Needed inventory content i := fun i hi hin =>
    hskip i (not_lt.mp hin) hi
  set active : IncomingChunk :=
    ⟨range, blake3 (chunkBytes inventory.layout content m), range.offset, []⟩ with hactive
  have hrun : (ChunkReceiverV03.beginChunk
      ⟨.ofNat m, blake3 (chunkBytes inventory.layout content m)⟩).Ensures (receiver, d) (Post
        (fun _ t => t.2 = d ∧ t.1 = ⟨receiver.chunkState, some (.ofNat m), some active,
          receiver.pendingVerified⟩) (fun _ _ => False) fun _ => False) := by
    rw [ChunkReceiverV03.beginChunk, ensures_bind, ensures_get, post_ok, ensures_bind,
      ensures_ofExcept, hcheck]
    exact ensures_modify.mpr ⟨rfl, rfl⟩
  have hkept : (ChunkReceiverV03.beginChunk
      ⟨.ofNat m, blake3 (chunkBytes inventory.layout content m)⟩).Ensures (receiver, d) _ :=
    beginChunk_spec h.assembled.consistent
  refine (hkept.and hrun).mono fun o t ht => ?_
  obtain ⟨hkept, ht⟩ := ht
  cases o with
  | err => exact ht
  | halt => exact ht
  | ok =>
    obtain ⟨receiver', d'⟩ := t
    obtain ⟨hd, hr⟩ := ht
    dsimp only at hd hr hkept ⊢
    subst hd hr
    refine ⟨active, ⟨hkept.consistent, h.assembled.layout_eq, fun i hi hdone => ?_,
      fun c hc hdone => h.assembled.ahead c hc (by omega), h.assembled.within,
      h.assembled.regular⟩, rfl, hneeded, hm, ⟨_, rfl, hindex⟩, ?_, hroffset, rfl, ?_, ?_⟩
    · refine h.assembled.held i hi ?_
      by_cases hin : i < n
      · exact .inl hin
      · exact .inr (hdone.elim (fun him => hskipped i him hin) id)
    · simp only [hactive, hri, hindex]
    · simp [hactive]
    · omega

/-- The range of the active chunk. -/
theorem WithinChunk.range {active : IncomingChunk}
    (h : WithinChunk file path content inventory fs₀ m pos active receiver d.fs)
    (hlen : content.length = inventory.layout.fileSize.toNat) :
    active.InFile inventory.layout (d.fs.data file.ino) ∧
      active.range.offset.toNat = m * inventory.layout.chunkSize.toNat ∧
      active.range.length.toNat = (chunkBytes inventory.layout content m).length := by
  obtain ⟨hin, -⟩ := h.assembled.consistent.active active h.active_eq
  rw [h.assembled.layout_eq] at hin
  obtain ⟨-, -, hoffset, hlength⟩ := ChunkLayout.range_eq_some.mp hin.range_eq
  rw [h.index] at hoffset hlength
  exact ⟨hin, hoffset, hlength.trans (length_chunkBytes hlen).symm⟩

theorem WithinChunk.le {active : IncomingChunk}
    (h : WithinChunk file path content inventory fs₀ m pos active receiver d.fs)
    (hlen : content.length = inventory.layout.fileSize.toNat) :
    m * inventory.layout.chunkSize.toNat ≤ pos := by
  obtain ⟨hin, hro, -⟩ := h.range hlen
  rw [← hro, ← h.nextOffset]
  exact hin.le

/-- Data that the chunk goes on with continue it. -/
theorem WithinChunk.continuing {active : IncomingChunk} {data : DataV03} {rest : Bytes}
    (h : WithinChunk file path content inventory fs₀ m pos active receiver d.fs)
    (hlen : content.length = inventory.layout.fileSize.toNat)
    (hoffset : data.absoluteOffset.toNat = pos)
    (hbytes : (chunkBytes inventory.layout content m).drop
      (pos - m * inventory.layout.chunkSize.toNat) = data.data ++ rest) :
    Continuing receiver active data ∧ m * inventory.layout.chunkSize.toNat ≤ pos ∧
      pos + data.data.length + rest.length = m * inventory.layout.chunkSize.toNat +
        (chunkBytes inventory.layout content m).length := by
  obtain ⟨hin, hro, hrl⟩ := h.range hlen
  have hle := hin.le
  have hlt := h.pos_lt
  have hnext := h.nextOffset
  have hlength := congrArg List.length hbytes
  rw [List.length_drop, List.length_append] at hlength
  refine ⟨⟨h.active_eq, UInt64.toNat_inj.mp (hoffset.trans hnext.symm), by omega, ?_⟩, by omega,
    by omega⟩
  rw [h.assembled.layout_eq]
  exact range_le hin.range_eq

/-- The bytes of a chunk, once data are written to it. -/
theorem WithinChunk.slice {active : IncomingChunk} {data : Bytes}
    (h : WithinChunk file path content inventory fs₀ m pos active receiver d.fs)
    (hlen : content.length = inventory.layout.fileSize.toNat)
    (hfits : pos + data.length ≤ (d.fs.data file.ino).length) :
    ((Fs.splice (d.fs.data file.ino) pos data).drop (m * inventory.layout.chunkSize.toNat)).take
        (pos + data.length - m * inventory.layout.chunkSize.toNat) =
      (chunkBytes inventory.layout content m).take (pos - m * inventory.layout.chunkSize.toNat) ++
        data := by
  obtain ⟨hin, hro, hrl⟩ := h.range hlen
  have hle := hin.le
  have hnext := h.nextOffset
  -- the part before the data is what was written before
  rw [show pos + data.length - m * inventory.layout.chunkSize.toNat =
    (pos - m * inventory.layout.chunkSize.toNat) + data.length by omega, List.take_add,
    (Overwritten.splice hfits).slice (.inl (by omega)), List.drop_drop,
    show m * inventory.layout.chunkSize.toNat + (pos - m * inventory.layout.chunkSize.toNat) = pos
      by omega, slice_splice hfits, ← h.hasher, hin.hasher_eq, hro, hnext]

/-- A chunk other than the one being written stays as it is. -/
theorem WithinChunk.others {active : IncomingChunk} {data : Bytes}
    (h : WithinChunk file path content inventory fs₀ m pos active receiver d.fs)
    (hlen : content.length = inventory.layout.fileSize.toNat)
    (hend : pos + data.length ≤ m * inventory.layout.chunkSize.toNat +
      (chunkBytes inventory.layout content m).length) {i : ℕ} (hi : i ≠ m) :
    chunkBytes inventory.layout (Fs.splice (d.fs.data file.ino) pos data) i =
      chunkBytes inventory.layout (d.fs.data file.ino) i := by
  obtain ⟨hin, hro, hrl⟩ := h.range hlen
  have hle := hin.le
  have hnext := h.nextOffset
  have hsize := h.assembled.consistent.length
  have hfile := range_le hin.range_eq
  rw [h.assembled.layout_eq] at hsize
  rw [length_chunkBytes hlen] at hend hrl
  refine (Overwritten.splice (by omega)).slice ?_
  rcases Nat.lt_or_gt_of_ne hi with hlt | hlt
  · have := Nat.mul_le_mul_right inventory.layout.chunkSize.toNat hlt
    rw [Nat.succ_mul] at this
    exact .inl (by omega)
  · have := Nat.mul_le_mul_right inventory.layout.chunkSize.toNat hlt
    rw [Nat.succ_mul] at this
    exact .inr (by omega)

/-- Data that do not complete the chunk bring it further. -/
theorem WithinChunk.advance {active : IncomingChunk} {data : DataV03} {rest : Bytes} {fs : Fs}
    {nextOffset : UInt64}
    (h : WithinChunk file path content inventory fs₀ m pos active receiver d.fs)
    (hlen : content.length = inventory.layout.fileSize.toNat)
    (hoffset : data.absoluteOffset.toNat = pos)
    (hbytes : (chunkBytes inventory.layout content m).drop
      (pos - m * inventory.layout.chunkSize.toNat) = data.data ++ rest) (hrest : rest ≠ [])
    (hnext : nextOffset.toNat = pos + data.data.length)
    (hfs : fs = d.fs.setData file.ino (Fs.splice (d.fs.data file.ino) pos data.data))
    (hc : Consistent file path ⟨receiver.chunkState, receiver.lastChunkIndex,
      some ⟨active.range, active.expectedHash, nextOffset, active.hasher ++ data.data⟩,
      receiver.pendingVerified⟩ fs) :
    WithinChunk file path content inventory fs₀ m (pos + data.data.length)
      ⟨active.range, active.expectedHash, nextOffset, active.hasher ++ data.data⟩
      ⟨receiver.chunkState, receiver.lastChunkIndex,
        some ⟨active.range, active.expectedHash, nextOffset, active.hasher ++ data.data⟩,
        receiver.pendingVerified⟩ fs := by
  obtain ⟨-, hle, hend⟩ := h.continuing hlen hoffset hbytes
  have hpos := List.length_pos_iff.mpr hrest
  refine ⟨⟨hc, h.assembled.layout_eq, fun i hi hdone => ?_, h.assembled.ahead,
    ?_, ?_⟩, rfl, h.needed, h.lt, h.last, h.index, hnext, h.expectedHash, ?_, by omega⟩
  · obtain ⟨hsame, hrecord⟩ := h.assembled.held i hi hdone
    have hne : i ≠ m := fun heq => hdone.elim (by omega) (fun hn => hn (heq ▸ h.needed))
    refine ⟨?_, hrecord⟩
    rw [hfs, Fs.data_setData, Function.update_self, h.others hlen (by omega) hne, hsame]
  · rw [hfs]
    exact h.assembled.within.trans (.setData (.inl rfl))
  · rw [hfs]
    exact h.assembled.regular
  · rw [h.hasher, show pos + data.data.length - m * inventory.layout.chunkSize.toNat =
      (pos - m * inventory.layout.chunkSize.toNat) + data.data.length by omega, List.take_add,
      hbytes, List.take_left]

/-- The data that complete the chunk, once its record is in the snapshot. -/
theorem WithinChunk.finish {active : IncomingChunk} {data : DataV03} {fs fs' : Fs}
    {candidate : ChunkState}
    (h : WithinChunk file path content inventory fs₀ m pos active receiver d.fs)
    (hlen : content.length = inventory.layout.fileSize.toNat)
    (hoffset : data.absoluteOffset.toNat = pos)
    (hbytes : (chunkBytes inventory.layout content m).drop
      (pos - m * inventory.layout.chunkSize.toNat) = data.data)
    (hfs : fs = d.fs.setData file.ino (Fs.splice (d.fs.data file.ino) pos data.data))
    (hcandidate : receiver.chunkState.recordVerifiedChunk active.range.index active.expectedHash =
      .ok candidate)
    (hreplaced : Storage.Replaced fs (chunkStatePath path) (chunkStateTemporaryPath path)
      (encodeChunkState candidate) fs')
    (hc : Consistent file path ⟨candidate, receiver.lastChunkIndex, none, none⟩ fs') :
    BetweenChunks file path content inventory fs₀ (m + 1)
      ⟨candidate, receiver.lastChunkIndex, none, none⟩ fs' := by
  obtain ⟨-, hle, hend⟩ := h.continuing hlen hoffset (hbytes.trans (List.append_nil _).symm)
  obtain ⟨hlayout, hchunks⟩ := ChunkState.recordVerifiedChunk_eq_ok hcandidate
  have hopened := h.assembled.consistent
  have hmem {c : RecordedChunk} : c ∈ candidate.chunks ↔
      c = ⟨active.range.index, active.expectedHash⟩ ∨
        c ∈ receiver.chunkState.chunks ∧ c.index ≠ active.range.index := by
    rw [hchunks]
    exact ChunkState.mem_recordChunk receiver.chunkState.valid
  have hwithin : Fs.Within ∅ {chunkStateTemporaryPath path, chunkStatePath path} {file.ino} d.fs
      fs' := (hfs ▸ .setData (.inl rfl) : Fs.Within _ _ _ d.fs fs).trans hreplaced.within
  have hdata : fs'.data file.ino = Fs.splice (d.fs.data file.ino) pos data.data := by
    have hlt : file.ino < fs.next := by
      rw [hfs]
      exact d.fs.allocated path _ hopened.opened
    rw [hreplaced.data, Function.update_of_ne (Nat.ne_of_lt hlt), hfs, Fs.data_setData,
      Function.update_self]
  have hwhole : chunkBytes inventory.layout (Fs.splice (d.fs.data file.ino) pos data.data) m =
      chunkBytes inventory.layout content m := by
    obtain ⟨hin, hro, hrl⟩ := h.range hlen
    have hfile := range_le hin.range_eq
    have hsize := hopened.length
    rw [h.assembled.layout_eq] at hsize
    rw [List.length_nil, Nat.add_zero] at hend
    rw [chunkBytes, ← length_chunkBytes hlen, show (chunkBytes inventory.layout content m).length =
      pos + data.data.length - m * inventory.layout.chunkSize.toNat by omega,
      h.slice hlen (by omega), ← hbytes, List.take_append_drop]
  refine ⟨⟨hc, hlayout.trans h.assembled.layout_eq, fun i hi hdone => ?_, fun c hmem' hdone => ?_,
    h.assembled.within.trans hwithin, ?_⟩, rfl, rfl, fun previous hprevious => ?_, h.lt⟩
  · rw [hdata]
    by_cases heq : i = m
    · subst heq
      exact ⟨hwhole, _, hmem.mpr (.inl rfl), h.index⟩
    · obtain ⟨hsame, c, hc, hci⟩ := h.assembled.held i hi (hdone.imp_left (by omega))
      have hne : c.index ≠ active.range.index := fun he => heq (by rw [← hci, he, h.index])
      rw [h.others hlen (by rw [List.length_nil] at hend; omega) heq]
      exact ⟨hsame, c, hmem.mpr (.inr ⟨hc, hne⟩), hci⟩
  · obtain rfl | ⟨hc, -⟩ := hmem.mp hmem'
    · exact absurd (by rw [h.index]; omega) hdone
    · exact h.assembled.ahead c hc (by omega)
  · refine hreplaced.staysRegular ?_
    rw [hfs]
    exact h.assembled.regular
  · obtain ⟨index, hlast, hindex⟩ := h.last
    obtain rfl := Option.some.inj (hlast.symm.trans hprevious)
    omega

/-- **A fragment of the active chunk** is written, and the last one brings the chunk to its end. -/
theorem WithinChunk.write {active : IncomingChunk} {data : DataV03} {rest : Bytes}
    (h : WithinChunk file path content inventory fs₀ m pos active receiver d.fs)
    (hlen : content.length = inventory.layout.fileSize.toNat)
    (hoffset : data.absoluteOffset.toNat = pos)
    (hbytes : (chunkBytes inventory.layout content m).drop
      (pos - m * inventory.layout.chunkSize.toNat) = data.data ++ rest) :
    (writeAndPersist file path data).Ensures (receiver, d) (Post
      (fun _ t => (rest = [] → BetweenChunks file path content inventory fs₀ (m + 1) t.1 t.2.fs) ∧
        (rest ≠ [] → ∃ active, WithinChunk file path content inventory fs₀ m
          (pos + data.data.length) active t.1 t.2.fs))
      (fun _ _ => False) fun _ => False) := by
  obtain ⟨hcontinuing, hle, hend⟩ := h.continuing hlen hoffset hbytes
  obtain ⟨hin, hro, hrl⟩ := h.range hlen
  have hc := h.assembled.consistent
  have hsize := hc.length
  have hnext := h.nextOffset
  have hrest : active.nextOffset.toNat + data.data.length =
      active.range.offset.toNat + active.range.length.toNat ↔ rest = [] := by
    rw [← List.length_eq_zero_iff]
    omega
  have hrun := hcontinuing.writeData_run hc.seeks hsize fun hwhole => by
    have heq := hrest.mp hwhole
    subst heq
    rw [List.append_nil] at hbytes
    rw [h.hasher, ← hbytes, List.take_append_drop, h.expectedHash]
  have hkept : (ChunkReceiverV03.writeData file data).Ensures (receiver, d) _ :=
    writeData_spec hc
  rw [writeAndPersist, ensures_bind]
  refine (hkept.and hrun).mono fun o t ht => ?_
  obtain ⟨hkept, ht⟩ := ht
  cases o with
  | err => exact ht
  | halt => exact ht
  | ok verified? =>
    obtain ⟨receiver₁, d₁⟩ := t
    obtain ⟨hfs, ht⟩ := ht
    rw [hnext] at hfs
    dsimp only at hfs ht hkept
    by_cases hlast : rest = []
    · rw [if_pos (hrest.mpr hlast)] at ht
      obtain ⟨hv, hr⟩ := ht
      subst hv hr hlast
      rw [List.append_nil] at hbytes
      have hregular : d₁.fs.Regular {chunkStateTemporaryPath path, chunkStatePath path} := by
        rw [hfs]
        exact h.assembled.regular
      have hdir : d₁.fs.isDir path.dropLast :=
        Fs.isDir_dropLast (by rw [hkept.consistent.opened]; simp)
      have hrange : receiver.chunkState.layout.range active.range.index ≠ none := by
        rw [h.assembled.layout_eq, hin.range_eq]
        simp
      have hpersist : (ChunkReceiverV03.persistVerifiedChunk file path).Ensures
          ((⟨receiver.chunkState, receiver.lastChunkIndex, none,
            some ⟨active.range.index, active.expectedHash⟩⟩ : ChunkReceiverV03), d₁) _ :=
        persistVerifiedChunk_spec hkept.consistent
      have hdone : (ChunkReceiverV03.persistVerifiedChunk file path).Ensures
          ((⟨receiver.chunkState, receiver.lastChunkIndex, none,
            some ⟨active.range.index, active.expectedHash⟩⟩ : ChunkReceiverV03), d₁) _ :=
        persistVerifiedChunk_run rfl hrange hdir hregular
      show (ChunkReceiverV03.persistVerifiedChunk file path).Ensures _ _
      refine (hpersist.and hdone).mono fun o t ht => ?_
      obtain ⟨hkept₂, ht⟩ := ht
      cases o with
      | err => exact ht
      | halt => exact ht
      | ok =>
        obtain ⟨receiver₂, d₂⟩ := t
        obtain ⟨candidate, hr, hcandidate, hreplaced⟩ := ht
        dsimp only at hr hreplaced
        subst hr
        exact ⟨fun _ => h.finish hlen hoffset hbytes hfs hcandidate hreplaced hkept₂.consistent,
          fun hne => absurd rfl hne⟩
    · rw [if_neg fun hwhole => hlast (hrest.mp hwhole)] at ht
      obtain ⟨hv, hr⟩ := ht
      subst hv hr
      refine ensures_pure.mpr ⟨fun heq => absurd heq hlast, fun _ => ⟨_, h.advance hlen hoffset
        hbytes hlast ?_ hfs hkept.consistent⟩⟩
      have hfile := range_le hin.range_eq
      have hword := inventory.layout.fileSize.toNat_lt
      rw [hnext]
      exact UInt64.toNat_ofNat_of_lt' (by rw [UInt64.size]; omega)

/-- Where no chunk is missing the partial file is the file. -/
theorem BetweenChunks.data_eq (h : BetweenChunks file path content inventory fs₀ n receiver d.fs)
    (hlen : content.length = inventory.layout.fileSize.toNat)
    (hnone : ∀ i, n ≤ i → i < inventory.layout.chunkCount.toNat → ¬Needed inventory content i) :
    d.fs.data file.ino = content := by
  have hsize := h.assembled.consistent.length
  rw [h.assembled.layout_eq] at hsize
  refine eq_of_chunkBytes hsize hlen fun i hi => ?_
  by_cases hin : i < n
  · exact (h.assembled.held i hi (.inl hin)).1
  · exact (h.assembled.held i hi (.inr (hnone i (not_lt.mp hin) hi))).1

theorem BetweenChunks.whole (h : BetweenChunks file path content inventory fs₀ n receiver d.fs)
    (hnone : ∀ i, n ≤ i → i < inventory.layout.chunkCount.toNat → ¬Needed inventory content i) :
    Assembled file path content inventory fs₀ (fun _ => True) receiver d.fs := by
  refine ⟨h.assembled.consistent, h.assembled.layout_eq, fun i hi _ => h.assembled.held i hi ?_,
    fun _ _ hn => absurd trivial hn, h.assembled.within, h.assembled.regular⟩
  by_cases hin : i < n
  · exact .inl hin
  · exact .inr (hnone i (not_lt.mp hin) hi)

/-- Where no chunk is missing COMPLETE is accepted. -/
theorem BetweenChunks.checkComplete
    (h : BetweenChunks file path content inventory fs₀ n receiver d.fs)
    (hnone : ∀ i, n ≤ i → i < inventory.layout.chunkCount.toNat → ¬Needed inventory content i)
    (hash : ChunkHash) : checkComplete receiver hash.1 = .ok hash := by
  have hcount : receiver.chunkState.chunks.length =
      receiver.chunkState.layout.chunkCount.toNat := by
    rw [receiver.chunkState.valid.length_eq_iff, h.assembled.layout_eq]
    intro i hi
    by_cases hin : i < n
    · exact (h.assembled.held i hi (.inl hin)).2
    · exact (h.assembled.held i hi (.inr (hnone i (not_lt.mp hin) hi))).2
  have hword : UInt64.ofNat receiver.chunkState.chunks.length =
      receiver.chunkState.layout.chunkCount := by rw [hcount, UInt64.ofNat_toNat]
  have hlt := receiver.chunkState.layout.chunkCount.toNat_lt
  have hhash : hash.1.length = blake3HashLength := hash.2
  unfold V03.checkComplete
  rw [h.active, h.pending]
  simp only [bind_eq_ok, refuseIf_eq_ok, pure_eq_ok]
  exact ⟨(), not_not.mpr hhash, (), by omega, (), not_not.mpr hword, Block.ofBytes_val _⟩

end

end Warpfile.V03
