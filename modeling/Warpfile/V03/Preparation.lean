import Warpfile.Storage.ReceiptRuns
import Warpfile.Storage.SerdeJson
import Warpfile.V03.Receiver

/-!
# Preparing a partial file

The chunks of a snapshot are read again before the partial file is given the size of the offer, so
what is offered to the sender was in the file before a byte of it was added.
-/

namespace Warpfile

open Prog

variable {faults crashes : Bool} {d : Disk (.alone faults crashes)} {path : Path} {size : ℕ}

theorem File.setLen_spec {file : File} : (file.setLen size).Ensures d (Post
    (fun _ d' => d'.fs = d.fs.ftruncate file.ino size) (fun _ d' => d'.fs = d.fs ∧ faults)
    fun d' => d'.fs = d.fs ∧ crashes) := by
  refine Disk.ensures_call (fun _ fs _ h => ?_) (fun k _ h => ?_) (fun hf k _ => ?_) fun hc _ => ?_
  · simp only [Except.ok.injEq, Prod.mk.injEq] at h
    exact h.2.symm
  · simp at h
  · exact ⟨rfl, hf⟩
  · exact ⟨rfl, hc⟩

namespace V03

/-- The files once the partial file is open: it was there, or it is new. -/
inductive OpenedPartial (fs : Fs) (path : Path) : ℕ → Fs → Prop
  | existed {i : ℕ} (names : fs.names path = some (.file i)) : OpenedPartial fs path i fs
  | created (names : fs.names path = none) (dir : fs.isDir path.dropLast) :
      OpenedPartial fs path fs.next (fs.create path)

/-- The bytes of a partial file that may be absent. -/
def partialBytes (fs : Fs) (path : Path) : Bytes := (fs.read path).getD []

theorem OpenedPartial.data {fs fs' : Fs} {i : ℕ} (h : OpenedPartial fs path i fs') :
    fs'.data i = partialBytes fs path := by
  cases h with
  | existed hn => rw [partialBytes, Fs.read_eq_some.mpr ⟨i, hn, rfl⟩, Option.getD_some]
  | created hn _ =>
    rw [partialBytes, Fs.read_eq_none fun i => by simp [hn], Option.getD_none, Fs.data_create,
      Function.update_self]

theorem OpenedPartial.names {fs fs' : Fs} {i : ℕ} (hp : path ≠ []) (h : OpenedPartial fs path i fs') :
    fs'.names path = some (.file i) := by
  cases h with
  | existed hn => exact hn
  | created hn hd => rw [Fs.names_create hp hd hn, Function.update_self]

/-- The open file is the partial file that was there, or a new one. -/
theorem OpenedPartial.ino {fs fs' : Fs} {i : ℕ} (h : OpenedPartial fs path i fs') :
    fs.names path = some (.file i) ∨ i = fs.next := by
  cases h with
  | existed hn => exact .inl hn
  | created => exact .inr rfl

/-- Only the partial file itself is made or changed. -/
theorem OpenedPartial.within {fs fs' : Fs} {i : ℕ} {K : Set Path}
    (h : OpenedPartial fs path i fs') : Fs.Within K {path} {i} fs fs' := by
  cases h with
  | existed => exact .refl fs
  | created => exact .create rfl

theorem openV03PartialFile_spec (hp : path ≠ []) : (openV03PartialFile path).Ensures d (Post
    (fun r d' => OpenedPartial d.fs path r.1.ino d'.fs ∧ r.1.append = false)
    (fun _ d' => (d'.fs = d.fs ∨ ∃ i, OpenedPartial d.fs path i d'.fs) ∧
      (faults ∨ d.fs.Irregular path ∨ ¬d.fs.isDir path.dropLast))
    fun d' => (d'.fs = d.fs ∨ ∃ i, OpenedPartial d.fs path i d'.fs) ∧ crashes) := by
  refine Ensures.bind_attempt (Storage.openRegular_spec hp) ?_ ?_ fun d' h => ⟨.inl h.1, h.2⟩
  · rintro file d₁ ⟨h₁, hn, -, happ⟩
    rw [ensures_pure]
    exact ⟨by rw [h₁]; exact .existed hn, happ⟩
  · rintro e d₁ ⟨h₁, hnone, herr⟩
    dsimp only
    split_ifs with hk
    · refine Ensures.bind (Storage.createRegular_spec hp) ?_ (fun _ d' h => ?_) fun d' h => ?_
      · rintro file d₂ ⟨hn, hd, h₂, rfl⟩
        rw [h₁] at hn hd h₂
        rw [ensures_pure]
        exact ⟨by rw [h₂, h₁]; exact .created hn hd, rfl⟩
      · rw [h₁] at h
        refine ⟨h.1.imp_right fun h => ⟨_, by rw [h.2.2]; exact .created h.1 h.2.1⟩, ?_⟩
        exact h.2.imp_right fun h => .inr (h.resolve_left fun h => h (hnone hk))
      · rw [h₁] at h
        exact ⟨h.1.imp_right fun h => ⟨_, by rw [h.2.2]; exact .created h.1 h.2.1⟩, h.2⟩
    · rw [ensures_throw]
      exact ⟨.inl h₁, herr.imp_right fun h => .inl (h.resolve_right hk)⟩

/-- The files once the partial file is open and has `size` bytes. -/
def ResizedPartial (fs : Fs) (path : Path) (size i : ℕ) (fs' : Fs) : Prop :=
  ∃ fs₁, OpenedPartial fs path i fs₁ ∧ fs' = fs₁.ftruncate i size

theorem ResizedPartial.data {fs fs' : Fs} {i : ℕ} (h : ResizedPartial fs path size i fs') :
    fs'.data i = (partialBytes fs path).takeD size 0 := by
  obtain ⟨fs₁, h, rfl⟩ := h
  rw [Fs.ftruncate, Fs.data_setData, Function.update_self, h.data]

theorem ResizedPartial.names {fs fs' : Fs} {i : ℕ} (hp : path ≠ [])
    (h : ResizedPartial fs path size i fs') : fs'.names path = some (.file i) := by
  obtain ⟨fs₁, h, rfl⟩ := h
  rw [Fs.ftruncate, Fs.names_setData]
  exact h.names hp

theorem ResizedPartial.within {fs fs' : Fs} {i : ℕ} {K : Set Path}
    (h : ResizedPartial fs path size i fs') : Fs.Within K {path} {i} fs fs' := by
  obtain ⟨fs₁, h, rfl⟩ := h
  exact h.within.trans (.setData (.inl rfl))

theorem prepareV03PartialFile_spec (hp : path ≠ []) {fileSize : UInt64} :
    (prepareV03PartialFile path fileSize).Ensures d (Post
      (fun file d' => ResizedPartial d.fs path fileSize.toNat file.ino d'.fs ∧ file.append = false)
      (fun _ d' => (d'.fs = d.fs ∨ ∃ i, OpenedPartial d.fs path i d'.fs) ∧
        (faults ∨ d.fs.Irregular path ∨ ¬d.fs.isDir path.dropLast))
      fun d' => (d'.fs = d.fs ∨ ∃ i, OpenedPartial d.fs path i d'.fs) ∧ crashes) := by
  refine Ensures.bind_mapErr (openV03PartialFile_spec hp) ?_ (fun _ _ h => h) fun _ h => h
  rintro ⟨file, existed⟩ d₁ ⟨hopen, happ⟩
  simp only at hopen happ
  refine Ensures.bind_mapErr File.metadata_spec ?_ (fun e d₂ h => ?_) fun d₂ h => ?_
  · rintro metadata d₂ ⟨h₂, rfl⟩
    rw [if_neg (by simp)]
    split_ifs with hresize
    · refine Ensures.bind_mapErr File.setLen_spec ?_ (fun e d₃ h => ?_) fun d₃ h => ?_
      · intro _ d₃ h₃
        rw [ensures_pure]
        exact ⟨⟨d₁.fs, hopen, by rw [show d₃.fs = _ from h₃, h₂]⟩, happ⟩
      · exact ⟨.inr ⟨_, by rw [h.1, h₂]; exact hopen⟩, .inl h.2⟩
      · exact ⟨.inr ⟨_, by rw [h.1, h₂]; exact hopen⟩, h.2⟩
    · rw [ensures_pure]
      obtain ⟨-, hlen⟩ : existed = true ∧ (d₁.fs.data file.ino).length = fileSize.toNat := by
        simpa using hresize
      refine ⟨⟨d₁.fs, hopen, ?_⟩, happ⟩
      rw [h₂, Fs.ftruncate, List.takeD_eq_take _ hlen.ge, List.take_of_length_le hlen.le,
        Fs.setData_self]
  · exact ⟨.inr ⟨_, by rw [h.1]; exact hopen⟩, .inl h.2⟩
  · exact ⟨.inr ⟨_, by rw [h.1]; exact hopen⟩, h.2⟩

/-! ### What is advertised -/

theorem take_takeD {α : Type} {a : α} {xs : List α} {m n : ℕ} (hn : m ≤ n) (hm : m ≤ xs.length) :
    (xs.takeD n a).take m = xs.take m := by
  induction m generalizing n xs with
  | zero => rw [List.take_zero, List.take_zero]
  | succ m ih =>
    obtain ⟨n, rfl⟩ : ∃ n', n = n' + 1 := ⟨n - 1, by omega⟩
    cases xs with
    | nil => simp at hm
    | cons x xs =>
      rw [List.takeD_succ, List.take_succ_cons, List.take_succ_cons, List.tail_cons,
        ih (by omega) (by simpa using hm)]
      rfl

theorem slice_takeD {bytes : Bytes} {offset length : ℕ} (h : offset + length ≤ size)
    (h' : offset + length ≤ bytes.length) :
    ((bytes.takeD size 0).drop offset).take length = (bytes.drop offset).take length := by
  have hsub : length = offset + length - offset := by omega
  rw [hsub, ← List.drop_take, take_takeD h h', List.drop_take]

section

variable [Crates] {layout : ChunkLayout} {chunk : RecordedChunk} {bytes : Bytes}

/-- A chunk that is in a file is in it when the file gets the size of the layout. -/
theorem trueOf_takeD (h : chunk.TrueOf layout bytes) :
    chunk.TrueOf layout (bytes.takeD layout.fileSize.toNat 0) := by
  obtain ⟨range, hrange, hle, hhash⟩ := h
  have hfit := range_le hrange
  refine ⟨range, hrange, by rwa [List.takeD_length], ?_⟩
  rw [ChunkRange.slice, slice_takeD hfit hle]
  exact hhash

theorem mem_inventory {fs : Fs} (h : chunk ∈ fs.inventory path layout) :
    chunk.TrueOf layout (partialBytes fs path) := by
  unfold Fs.inventory at h
  rcases hs : fs.chunkState path with _ | state
  · simp [hs] at h
  simp only [hs] at h
  split_ifs at h with hl
  · unfold Fs.trueChunks at h
    rcases hr : fs.read path with _ | bytes
    · simp [hr] at h
    · simp only [hr] at h
      rw [partialBytes, hr, ← hl]
      exact (mem_trueChunks.mp h).2
  · simp at h

/-- **A prepared receiver**: it offers the chunks of the snapshot that are in the partial file, and
the partial file has the size of the offer. -/
structure Prepared (faults : Bool) (fs : Fs) (path : Path) (offer : FileOfferV03)
    (prepared : PreparedReceiverV03) (fs' : Fs) : Prop where
  partialPath : prepared.partialPath = path
  identity : prepared.identity = ⟨offer.transferId, offer.filename⟩
  fileSize : prepared.receiver.chunkState.layout.fileSize = offer.fileSize
  chunkSize : prepared.receiver.chunkState.layout.chunkSize = offer.chunkSize
  fresh : prepared.receiver = .new prepared.receiver.chunkState
  inventory : prepared.receiver.chunkState.chunks =
    fs.inventory path prepared.receiver.chunkState.layout ∨
      faults ∧ prepared.receiver.chunkState.chunks = []
  resume : prepared.resume = ⟨.ofNat prepared.receiver.chunkState.chunks.length⟩
  batches : prepared.chunkHashBatches = chunkHashBatches prepared.receiver.chunkState
  resized : ResizedPartial fs path offer.fileSize.toNat prepared.file.ino fs'
  seeks : prepared.file.append = false

theorem Prepared.consistent {fs fs' : Fs} {offer : FileOfferV03} {prepared : PreparedReceiverV03}
    (hp : path ≠ []) (h : Prepared faults fs path offer prepared fs') :
    Consistent prepared.file path prepared.receiver fs' := by
  have hdata : fs'.data prepared.file.ino = (partialBytes fs path).takeD
      prepared.receiver.chunkState.layout.fileSize.toNat 0 := by
    rw [h.resized.data, h.fileSize]
  refine ⟨hp, h.resized.names hp, h.seeks, by rw [hdata, List.takeD_length], ?_, ?_, ?_⟩
  · intro c hc _ _
    rw [hdata]
    rcases h.inventory with hinv | ⟨-, hnil⟩
    · exact trueOf_takeD (mem_inventory (hinv ▸ hc))
    · simp [hnil] at hc
  · rw [h.fresh]
    simp [ChunkReceiverV03.new]
  · rw [h.fresh]
    simp [ChunkReceiverV03.new]

theorem prepareReceiverV03_spec (hp : path ≠ []) {offer : FileOfferV03} :
    (prepareReceiverV03 path offer).Ensures d (Post
      (fun prepared d' => Prepared faults d.fs path offer prepared d'.fs)
      (fun _ d' => (d'.fs = d.fs ∨ ∃ i, OpenedPartial d.fs path i d'.fs) ∧
        (faults ∨ offer.chunkSize = 0 ∨ d.fs.Irregular path ∨
          d.fs.Irregular (chunkStatePath path) ∨ ¬d.fs.isDir path.dropLast))
      fun d' => (d'.fs = d.fs ∨ ∃ i, OpenedPartial d.fs path i d'.fs) ∧ crashes) := by
  rw [prepareReceiverV03, ensures_bind, ensures_ofExcept]
  unfold ChunkLayout.new
  by_cases hchunk : offer.chunkSize ≠ 0
  swap
  · rw [dif_neg hchunk]
    exact ⟨.inl rfl, .inr (.inl (not_not.mp hchunk))⟩
  rw [dif_pos hchunk]
  simp only [Except.mapError, post_ok]
  refine Ensures.bind_mapErr (prepareChunkInventory_spec hp) ?_ (fun e d₁ h => ?_)
    fun d₁ h => ⟨.inl h.1, h.2⟩
  · rintro state d₁ ⟨h₁, hlayout, hchunks⟩
    refine Ensures.bind_mapErr (prepareV03PartialFile_spec hp) ?_ (fun e d₂ h => ?_) fun d₂ h => ?_
    · rintro file d₂ ⟨hresized, hseeks⟩
      rw [h₁] at hresized
      rw [ensures_pure]
      refine ⟨rfl, rfl, ?_, ?_, rfl, ?_, rfl, rfl, hresized, hseeks⟩
      · exact congrArg ChunkLayout.fileSize hlayout
      · exact congrArg ChunkLayout.chunkSize hlayout
      · simp only [ChunkReceiverV03.new]
        rw [hlayout]
        exact hchunks
    · rw [h₁] at h
      refine ⟨h.1, h.2.imp_right fun h => .inr ?_⟩
      exact h.imp_right .inr
    · rw [h₁] at h
      exact h
  · refine ⟨.inl h.1, h.2.imp_right fun h => .inr ?_⟩
    exact h.imp_right .inl

end

end V03

end Warpfile
