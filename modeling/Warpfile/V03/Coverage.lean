import Warpfile.V03.Receiver
import Warpfile.Storage.SerdeJson

/-!
# A transfer that ends is complete

Whatever the peer sends, the receiver stays consistent with its partial file over any calls
(`ChunkRun.kept`), and `receiveTransfer` returns only where every chunk of the layout is recorded:
the records are increasing and in range, so there are as many as chunks only when there is one for
each.
-/

namespace Warpfile.V03

open Prog

variable {faults crashes : Bool} {file : File} {path : Path}

/-! ### Arithmetic -/

/-- No sum or product of 64-bit words leaves their range: the number of chunks, the ranges and the
end of the active chunk are what they are in natural numbers, and data are refused as too long only
where their end is no such word. -/
structure NoOverflow (receiver : ChunkReceiverV03) : Prop where
  chunkCount : receiver.chunkState.layout.chunkCount.toNat =
    (receiver.chunkState.layout.fileSize.toNat + (receiver.chunkState.layout.chunkSize.toNat - 1)) /
      receiver.chunkState.layout.chunkSize.toNat
  range : ∀ index, index < receiver.chunkState.layout.chunkCount →
    ∃ r, receiver.chunkState.layout.range index = some r
  chunkEnd : ∀ a, receiver.active = some a →
    ∃ e, checkedAdd a.range.offset a.range.length = some e ∧
      e.toNat = a.range.offset.toNat + a.range.length.toNat
  dataEnd : ∀ data, receiver.checkData data = .error .dataRangeOverflow →
    2 ^ 64 ≤ data.absoluteOffset.toNat + data.data.length

theorem chunkCount_eq (layout : ChunkLayout) : layout.chunkCount.toNat =
    (layout.fileSize.toNat + (layout.chunkSize.toNat - 1)) / layout.chunkSize.toNat := by
  have hpos := layout.chunkSize_pos
  refine eq_of_forall_lt_iff fun n => ?_
  rw [ChunkLayout.lt_chunkCount, ← Nat.succ_le_iff, ← Nat.succ_le_iff,
    Nat.le_div_iff_mul_le hpos, Nat.succ_mul]
  omega

section

variable [Crates]

theorem Consistent.noOverflow {receiver : ChunkReceiverV03} {fs : Fs}
    (h : Consistent file path receiver fs) : NoOverflow receiver := by
  have hend {a : IncomingChunk} (ha : receiver.active = some a) :
      ∃ e, checkedAdd a.range.offset a.range.length = some e ∧
        e.toNat = a.range.offset.toNat + a.range.length.toNat := by
    have hle := range_le (h.active a ha).1.range_eq
    have hlt := receiver.chunkState.layout.fileSize.toNat_lt
    have hadd : checkedAdd a.range.offset a.range.length =
      some (a.range.offset + a.range.length) := if_pos (by omega)
    exact ⟨_, hadd, (checkedAdd_eq_some.mp hadd).symm⟩
  refine ⟨chunkCount_eq _, fun index hi => Option.isSome_iff_exists.mp
    (ChunkLayout.range_isSome.mpr hi), fun a => hend, fun data hdata => ?_⟩
  by_contra hlt
  have hadd : checkedAdd data.absoluteOffset (.ofNat data.data.length) =
      some (data.absoluteOffset + .ofNat data.data.length) :=
    if_pos (by rw [UInt64.toNat_ofNat_of_lt' (by rw [UInt64.size]; omega)]; omega)
  rcases ha : receiver.active with _ | a
  · simp [ChunkReceiverV03.checkData, ha, Bind.bind, Except.bind] at hdata
  · obtain ⟨e, he, -⟩ := hend ha
    simp only [ChunkReceiverV03.checkData, ha, hadd, he, refuseIf, Option.elim, Bind.bind,
      Except.bind] at hdata
    split_ifs at hdata <;> simp [Pure.pure, Except.pure] at hdata

/-! ### The transfer -/

variable {w : Session (.alone faults crashes)}

omit [Crates] in
theorem ensures_onReceiver {ε α : Type} {Γ : Setting} {w : Session Γ} {receiver : ChunkReceiverV03}
    {p : Prog (ChunkReceiverV03 × Disk Γ) ε α}
    {Q : Outcome ε (α × ChunkReceiverV03) → Session Γ → Prop} :
    (onReceiver receiver p).Ensures w Q ↔ p.Ensures (receiver, w.disk) (Post
      (fun a s => Q (.ok (a, s.1)) { w with disk := s.2 })
      (fun e s => Q (.err e) { w with disk := s.2 }) fun s => Q .halt { w with disk := s.2 }) := by
  unfold Prog.Ensures onReceiver
  rcases p (receiver, w.disk) with ⟨_ | _ | _, s⟩ <;> rfl

/-- What a frame of a transfer keeps. -/
structure Holding (file : File) (path : Path) (layout : ChunkLayout) (receiver : ChunkReceiverV03)
    (fs : Fs) : Prop where
  consistent : Consistent file path receiver fs
  layout_eq : receiver.chunkState.layout = layout

theorem Kept.holding {begun : List UInt64} {layout : ChunkLayout} {s t : ChunkReceiverV03 × Fs}
    (h : Holding file path layout s.1 s.2) (hk : Kept file path begun s t) :
    Holding file path layout t.1 t.2 := ⟨hk.consistent, hk.layout_eq.trans h.layout_eq⟩

theorem writeAndPersist_spec {layout : ChunkLayout} {s : ChunkReceiverV03 × Disk (.alone faults crashes)}
    {data : DataV03} (h : Holding file path layout s.1 s.2.fs) :
    (writeAndPersist file path data).Ensures s fun _ t => Holding file path layout t.1 t.2.fs := by
  refine Ensures.bind (writeData_spec h.consistent) (fun verified t ht => ?_)
    (fun _ t ht => ht.holding h) fun t ht => ht.holding h
  have hold : Holding file path layout t.1 t.2.fs := ht.holding h
  cases verified with
  | none => exact ensures_pure.mpr hold
  | some verified =>
    exact (persistVerifiedChunk_spec hold.consistent).mono fun _ t' ht' => ht'.holding hold

omit [Crates] in
theorem checkComplete_eq_ok {receiver : ChunkReceiverV03} {payload : Bytes} {hash : ChunkHash}
    (h : checkComplete receiver payload = .ok hash) : receiver.active = none ∧
      receiver.pendingVerified = none ∧
      receiver.chunkState.chunks.length = receiver.chunkState.layout.chunkCount.toNat := by
  unfold checkComplete at h
  rcases ha : receiver.active with _ | a
  · rcases hp : receiver.pendingVerified with _ | v
    · simp only [ha, hp, bind_eq_ok, refuseIf_eq_ok, pure_eq_ok] at h
      obtain ⟨-, -, -, hlt, -, hcount, -⟩ := h
      refine ⟨rfl, rfl, ?_⟩
      rw [← not_not.mp hcount, UInt64.toNat_ofNat_of_lt' (by rw [UInt64.size]; omega)]
    · simp [ha, hp] at h
  · simp [ha] at h

omit [Crates] in
theorem checkComplete_payload {receiver : ChunkReceiverV03} {payload : Bytes} {hash : ChunkHash}
    (h : checkComplete receiver payload = .ok hash) : payload = hash.1 := by
  unfold checkComplete at h
  rcases ha : receiver.active with _ | a
  · rcases hp : receiver.pendingVerified with _ | v
    · simp only [ha, hp, bind_eq_ok, refuseIf_eq_ok, pure_eq_ok] at h
      obtain ⟨-, hlen, -, -, -, -, rfl⟩ := h
      exact (Block.val_ofBytes (not_not.mp hlen)).symm
    · simp [ha, hp] at h
  · simp [ha] at h

/-- The receiver once COMPLETE is accepted: every chunk is recorded and true of the file. -/
def Covers (file : File) (receiver : ChunkReceiverV03) (fs : Fs) : Prop :=
  ∀ i < receiver.chunkState.layout.chunkCount.toNat, ∃ c ∈ receiver.chunkState.chunks,
    c.index.toNat = i ∧ c.TrueOf receiver.chunkState.layout (fs.data file.ino)

theorem Consistent.covers {receiver : ChunkReceiverV03} {payload : Bytes} {hash : ChunkHash} {fs : Fs}
    (h : Consistent file path receiver fs) (hc : checkComplete receiver payload = .ok hash) :
    Covers file receiver fs := by
  obtain ⟨hactive, hpending, hcount⟩ := checkComplete_eq_ok hc
  intro i hi
  obtain ⟨c, hmem, hindex⟩ := receiver.chunkState.valid.length_eq_iff.mp hcount i hi
  exact ⟨c, hmem, hindex, h.recorded c hmem (by simp [hactive]) (by simp [hpending])⟩

/-- A call on the receiver, and on to the next frame. -/
private theorem onReceiver_next {layout : ChunkLayout} {receiver : ChunkReceiverV03} {rest : Bytes}
    {p : ChunkReceiving (.alone faults crashes) Unit} (w' : Session (.alone faults crashes))
    (hless : rest.length < w.net.input.length) (hdisk : w'.disk = w.disk)
    (hrest : w'.net.input = rest)
    (hp : p.Ensures (receiver, w.disk) fun _ t => Holding file path layout t.1 t.2.fs) :
    (do
      let ((), receiver) ← (onReceiver receiver p).mapErr .receiver
      return .inl receiver : Prog (Session _) ReceiverV03TransferError
        (ChunkReceiverV03 ⊕ ChunkReceiverV03 × ChunkHash)).Ensures w' (Post
      (fun r w' => Sum.elim
        (fun receiver' => Holding file path layout receiver' w'.fs ∧
          w'.net.input.length < w.net.input.length)
        (fun done => Holding file path layout done.1 w'.fs ∧ Covers file done.1 w'.fs) r)
      (fun _ _ => True) fun _ => True) := by
  rw [ensures_bind, ensures_mapErr, ensures_onReceiver, hdisk]
  refine hp.mono fun o t ht => ?_
  cases o with
  | ok => exact ensures_pure.mpr ⟨ht, by rw [hrest]; exact hless⟩
  | err => trivial
  | halt => trivial

theorem receiveTransferFrame_spec {layout : ChunkLayout} {receiver : ChunkReceiverV03}
    (h : Holding file path layout receiver w.fs) :
    (receiveTransferFrame file path receiver).Ensures w (Post
      (fun r w' => Sum.elim
        (fun receiver' => Holding file path layout receiver' w'.fs ∧
          w'.net.input.length < w.net.input.length)
        (fun done => Holding file path layout done.1 w'.fs ∧ Covers file done.1 w'.fs) r)
      (fun _ _ => True) fun _ => True) := by
  rw [receiveTransferFrame, ensures_bind, ensures_mapErr]
  refine ensures_readFrame (fun frame rest _ hin => ?_) (fun _ _ => trivial) (fun _ _ => trivial)
    fun _ => trivial
  have hless : rest.length < w.net.input.length := by
    have := frame.length_encoding_pos
    rw [hin, List.length_append]
    omega
  simp only [post_ok]
  split
  · rw [ensures_bind, ensures_ofExcept]
    rcases (decodeChunkStartV03 frame.payload).mapError _ with e | chunkStart
    · trivial
    · refine onReceiver_next _ hless rfl rfl ((beginChunk_spec h.consistent).mono fun o t ht => ?_)
      cases o with
      | ok => exact Kept.holding h ht
      | err => exact Kept.holding h ht
      | halt => exact ht.elim
  · rw [ensures_bind, ensures_ofExcept]
    rcases (decodeDataV03 frame.payload).mapError _ with e | data
    · trivial
    · exact onReceiver_next _ hless rfl rfl (writeAndPersist_spec h)
  · rw [ensures_bind, ensures_ofExcept]
    rcases hc : checkComplete receiver frame.payload with e | hash
    · trivial
    · exact ensures_pure.mpr ⟨h, h.consistent.covers hc⟩
  · exact ensures_throw.mpr trivial

theorem receiveTransfer_spec {layout : ChunkLayout} {accepted : AcceptedReceiverV03}
    (h : Holding accepted.file accepted.partialPath layout accepted.receiver w.fs) :
    (receiveTransfer accepted).Ensures w (Post
      (fun received w' => received.file = accepted.file ∧
        received.partialPath = accepted.partialPath ∧ received.identity = accepted.identity ∧
        Holding accepted.file accepted.partialPath layout received.receiver w'.fs ∧
        Covers accepted.file received.receiver w'.fs)
      (fun _ _ => True) fun _ => True) := by
  refine Ensures.bind (R := Post (fun (done : ChunkReceiverV03 × ChunkHash) w' =>
      Holding accepted.file accepted.partialPath layout done.1 w'.fs ∧
        Covers accepted.file done.1 w'.fs) (fun _ _ => True) fun _ => True) ?_ ?_
    (fun _ _ _ => trivial) fun _ _ => trivial
  · refine Ensures.loop
      (fun receiver w' => Holding accepted.file accepted.partialPath layout receiver w'.fs)
      (fun receiver w' hI => ?_) h
    exact (receiveTransferFrame_spec hI).mono fun o t ht => ht
  · rintro ⟨receiver, hash⟩ w' ⟨hhold, hcovers⟩
    exact ensures_pure.mpr ⟨rfl, rfl, rfl, hhold, hcovers⟩

/-! ### Physical consistency -/

end

/-- The partial file of an offer of three bytes, before any of them came. -/
def threeZeros : Fs := (Fs.empty.create ["a.part"]).setData 0 [0, 0, 0]

end Warpfile.V03
