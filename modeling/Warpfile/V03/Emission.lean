import Warpfile.V03.Attestation
import Warpfile.V03.Sender

/-!
# The emission of a source

The sender scans a source that is read in any pieces, and what it writes is the emission of the
chunks it has read, with COMPLETE after them where the source has the length of the file.
-/

namespace Warpfile.V03

variable {Γ : Setting} {w : Session Γ}

open Prog SourceScannerV03

/-! ### The two sides of the state -/

section

variable {ε α : Type} {s : Session Γ × SourceScannerV03}
  {Q : Outcome ε α → Session Γ × SourceScannerV03 → Prop}

@[simp]
theorem ensures_onStream {p : Prog (Session Γ) ε α} :
    (onStream p).Ensures s Q ↔ p.Ensures s.1 fun o stream => Q o (stream, s.2) := by
  unfold Prog.Ensures onStream
  rfl

@[simp]
theorem ensures_onScanner {p : Prog SourceScannerV03 ε α} :
    (onScanner p).Ensures s Q ↔ p.Ensures s.2 fun o scanner => Q o (s.1, scanner) := by
  unfold Prog.Ensures onScanner
  rfl

end

/-! ### Writing a chunk -/

/-- A program writes `frames`, or the connection breaks before. -/
def Writes (frames : List Frame) (p : Prog (Session Γ) SenderV03TransferError Unit) : Prop :=
  ∀ w, p.Ensures w (Post (fun _ w' => Wrote w frames w')
    (fun e w' => (∃ kind, e = .protocol (.io (.os kind))) ∧ Broke w frames w') fun _ => False)

theorem Writes.bind {frames frames' : List Frame}
    {p q : Prog (Session Γ) SenderV03TransferError Unit} (hp : Writes frames p)
    (hq : Writes frames' q) : Writes (frames ++ frames') (p >>= fun _ => q) := by
  intro w
  refine Ensures.bind (hp w) (fun _ w₁ h₁ => ?_) (fun e w₁ h => ⟨h.1, h.2.append _⟩) fun _ h => h
  refine (hq w₁).mono fun o w₂ h₂ => ?_
  cases o with
  | ok => exact h₁.trans h₂
  | err e => exact ⟨h₂.1, h₁.broke h₂.2⟩
  | halt => exact h₂

theorem writes_nil : Writes [] (pure () : Prog (Session Γ) SenderV03TransferError Unit) :=
  fun _ => ensures_pure.mpr .refl

theorem writes_ofExcept {α : Type} {frames : List Frame} {x : Except SenderV03TransferError α} {a : α}
    {f : α → Prog (Session Γ) SenderV03TransferError Unit} (hx : x = .ok a)
    (h : Writes frames (f a)) : Writes frames (Prog.ofExcept x >>= f) := by
  intro w
  rw [ensures_bind, ensures_ofExcept, hx]
  exact h w

/-- Every message type may be sent by WFP/0.3. -/
theorem sendV03_writes {messageType : MessageType} {payload : Bytes}
    (hdata : messageType = .data → payload.length ≤ maxDataPayloadLength)
    (hle : payload.length ≤ maxPayloadLength) :
    Writes (Γ := Γ) [⟨wfpVersionV03, messageType, 0, payload⟩] (sendV03 messageType payload) := by
  refine writes_ofExcept (a := ⟨wfpVersionV03, messageType, 0, payload⟩) rfl fun w => ?_
  rw [ensures_mapErr]
  refine (writeFrame_wrote ⟨rfl, rfl, hdata, hle⟩).mono fun o w' h => ?_
  cases o with
  | ok => exact h
  | err e =>
    obtain ⟨⟨kind, rfl⟩, h⟩ := h
    exact ⟨⟨kind, rfl⟩, h⟩
  | halt => exact h

theorem sendFragments_writes {fragments : List Bytes} {absoluteOffset : UInt64}
    (h : ∀ fragment ∈ fragments, fragment ≠ [] ∧ fragment.length ≤ v03MaxDataBytes)
    (hlt : absoluteOffset.toNat + fragments.flatten.length < 2 ^ 64) :
    ∃ frames, Carries absoluteOffset.toNat fragments.flatten frames ∧
      Writes (Γ := Γ) frames (sendFragments absoluteOffset fragments) := by
  induction fragments generalizing absoluteOffset with
  | nil => exact ⟨[], .nil _, writes_nil⟩
  | cons fragment fragments ih =>
    obtain ⟨⟨hne, hle⟩, h⟩ := List.forall_mem_cons.mp h
    rw [List.flatten_cons, List.length_append] at hlt
    have hlen : (UInt64.ofNat fragment.length).toNat = fragment.length :=
      UInt64.toNat_ofNat_of_lt' (by rw [UInt64.size]; omega)
    have hadd : checkedAdd absoluteOffset (.ofNat fragment.length) =
        some (absoluteOffset + .ofNat fragment.length) := if_pos (by rw [hlen]; omega)
    have hnext := checkedAdd_eq_some.mp hadd
    rw [hlen] at hnext
    obtain ⟨frames, hcarries, hwrites⟩ := @ih
      (absoluteOffset + .ofNat fragment.length) h (by rw [← hnext]; omega)
    rw [← hnext] at hcarries
    refine ⟨_ :: frames, .cons rfl hne hle hcarries, ?_⟩
    have hencode : encodeDataV03 { absoluteOffset, data := fragment } =
        .ok (word absoluteOffset ++ fragment) := by
      simp only [encodeDataV03, bind_eq_ok, refuseIf_eq_ok, pure_eq_ok]
      exact ⟨(), hne, (), not_lt.mpr hle, trivial⟩
    have hword : (word absoluteOffset ++ fragment).length ≤ maxDataPayloadLength := by
      rw [List.length_append, length_word]
      simp only [v03MaxDataBytes, v03DataOffsetLength, maxDataPayloadLength] at hle ⊢
      omega
    have hsend := @sendV03_writes Γ .data (word absoluteOffset ++ fragment) (fun _ => hword)
      (by simp only [maxDataPayloadLength, maxPayloadLength] at hword ⊢; omega)
    rw [sendFragments]
    refine writes_ofExcept (a := word absoluteOffset ++ fragment) (by rw [hencode]; rfl)
      (hsend.bind ?_)
    exact writes_ofExcept (a := absoluteOffset + .ofNat fragment.length) (by rw [hadd]; rfl) hwrites

section

variable [Crates] {inventory : ReceiverInventoryV03} {bytes : Bytes}

/-- One chunk more in the emission. -/
theorem Emission.succ {n : ℕ} {frames frames' : List Frame} (h : Emission inventory bytes n frames)
    (hcarries : Carries (n * inventory.layout.chunkSize.toNat)
      (chunkBytes inventory.layout bytes n) frames') (hneeded : Needed inventory bytes n) :
    Emission inventory bytes (n + 1) (frames ++
      chunkStartFrame (.ofNat n) (blake3 (chunkBytes inventory.layout bytes n)) :: frames') := by
  obtain ⟨data, hdata, rfl⟩ := h
  refine ⟨Function.update data n frames', fun i hi hi' => ?_, ?_⟩
  · by_cases heq : i = n
    · rw [heq, Function.update_self]
      exact hcarries
    · rw [Function.update_of_ne heq]
      exact hdata i (by omega) hi'
  · rw [List.range_succ, List.flatMap_append, List.flatMap_singleton, if_pos hneeded,
      Function.update_self]
    congr 1
    refine List.flatMap_congr fun i hi => ?_
    rw [Function.update_of_ne (List.mem_range.mp hi).ne]

theorem Emission.succ_of_not_needed {n : ℕ} {frames : List Frame}
    (h : Emission inventory bytes n frames) (hneeded : ¬Needed inventory bytes n) :
    Emission inventory bytes (n + 1) frames := by
  obtain ⟨data, hdata, rfl⟩ := h
  refine ⟨data, fun i hi hi' => hdata i ?_ hi', ?_⟩
  · refine lt_of_le_of_ne (Nat.le_of_lt_succ hi) fun heq => hneeded ?_
    rwa [← heq]
  · rw [List.range_succ, List.flatMap_append, List.flatMap_singleton, if_neg hneeded,
      List.append_nil]

theorem emission_zero : Emission inventory bytes 0 [] :=
  ⟨fun _ => [], fun i hi => absurd hi (Nat.not_lt_zero i), rfl⟩

/-- What a chunk of a clean scan is. -/
structure Chunk (inventory : ReceiverInventoryV03) (bytes : Bytes) (n : ℕ)
    (chunk : SourceChunkV03) : Prop where
  index : chunk.index = .ofNat n
  offset : chunk.offset.toNat = n * inventory.layout.chunkSize.toNat
  data : chunk.data = chunkBytes inventory.layout bytes n
  hash : chunk.hash = blake3 chunk.data
  length : chunk.offset.toNat + chunk.data.length < 2 ^ 64
  transmit : chunk.disposition = .transmit ↔ Needed inventory bytes n

theorem chunk_of_scanned {source : Source} {s s' : SourceScannerV03} {chunk : SourceChunkV03}
    (h : Clean source s) (hscan : s.Scanned chunk s') :
    Chunk s.inventory source.bytes s.nextChunkIndex.toNat chunk := by
  obtain ⟨-, hindex, hoffset, hlength⟩ := ChunkLayout.range_eq_some.mp hscan.range
  obtain ⟨-, range, hrange, hroffset, hrlength, hdata, hhash⟩ := h.scanned hscan
  obtain ⟨hlt, -, hoffset', hlength'⟩ := ChunkLayout.range_eq_some.mp hrange
  have hfile := s.layout.fileSize.toNat_lt
  rw [← hroffset] at hoffset'
  dsimp only at hindex hoffset
  rw [hindex] at hlength' hlt
  have hbytes : chunk.data = chunkBytes s.inventory.layout source.bytes s.nextChunkIndex.toNat := by
    rw [hdata, ChunkRange.slice, chunkBytes, ← hroffset, hoffset, hlength', h.aligned.layout]
  refine ⟨?_, ?_, hbytes, hhash, by omega, ?_⟩
  · rw [hindex, UInt64.ofNat_toNat]
  · rw [hoffset, h.aligned.layout]
  · rw [hscan.disposition, disposition, Needed, ← hbytes, hindex, ← hhash]
    constructor
    · intro htransmit r hr hri heq
      refine absurd htransmit ?_
      rw [if_pos]
      · exact SourceChunkDispositionV03.noConfusion
      · rw [← UInt64.toNat_inj.mp hri, ← heq]
        exact hr
    · intro hneeded
      rw [if_neg]
      exact fun hmem => hneeded _ hmem rfl rfl

theorem Chunk.writes {n : ℕ} {chunk : SourceChunkV03} (h : Chunk inventory bytes n chunk) :
    ∃ frames, Carries (n * inventory.layout.chunkSize.toNat)
      (chunkBytes inventory.layout bytes n) frames ∧
      Writes (Γ := Γ) (chunkStartFrame (.ofNat n) (blake3 (chunkBytes inventory.layout bytes n)) ::
        frames) (sendTransmitChunkV03 chunk) := by
  have hmax : v03MaxDataBytes - 1 + 1 = v03MaxDataBytes := rfl
  obtain ⟨frames, hcarries, hwrites⟩ := @sendFragments_writes Γ
    (pieces (v03MaxDataBytes - 1) chunk.data) chunk.offset
    (fun fragment hf => by rw [← hmax]; exact mem_pieces hf)
    (by rw [flatten_pieces]; exact h.length)
  rw [flatten_pieces, h.offset, h.data] at hcarries
  refine ⟨frames, hcarries, ?_⟩
  have hstart := @sendV03_writes Γ .chunkStart
    (encodeChunkStartV03 { chunkIndex := chunk.index, expectedHash := chunk.hash })
    (fun h => nomatch h) (by rw [length_encodeChunkStartV03]; decide)
  have := hstart.bind hwrites
  rw [← h.data, ← h.hash, ← h.index]
  exact this

/-! ### The scan -/

/-- The chunks of a file that a source of `length` bytes has as a whole. -/
def availableChunks (layout : ChunkLayout) (length : ℕ) : ℕ :=
  if layout.fileSize.toNat ≤ length then layout.chunkCount.toNat
  else length / layout.chunkSize.toNat

/-- The chunks before the next one were read, and written where they are needed. -/
structure Sending (inventory : ReceiverInventoryV03) (source : Source) (w : Session Γ)
    (s : Session Γ × SourceScannerV03) : Prop where
  clean : Clean source s.2
  inventory_eq : s.2.inventory = inventory
  available : s.2.nextChunkIndex.toNat ≤ availableChunks inventory.layout source.bytes.length
  wrote : ∃ frames, Emission inventory source.bytes s.2.nextChunkIndex.toNat frames ∧
    Wrote w frames s.1

/-- How sending the chunks fails. -/
def SendingFailed (inventory : ReceiverInventoryV03) (source : Source) (w : Session Γ)
    (e : SenderV03TransferError) (w' : Session Γ) : Prop :=
  (∃ actual, e = .sourceScan (.sourceTooShort inventory.layout.fileSize actual) ∧
    source.bytes.length < inventory.layout.fileSize.toNat ∧
    ∃ frames, Emission inventory source.bytes
      (availableChunks inventory.layout source.bytes.length) frames ∧ Wrote w frames w') ∨
  (e = .sourceScan (.sourceTooLong inventory.layout.fileSize) ∧
    inventory.layout.fileSize.toNat < source.bytes.length ∧
    ∃ frames, Emission inventory source.bytes
      (availableChunks inventory.layout source.bytes.length) frames ∧ Wrote w frames w') ∨
  (∃ kind, e = .protocol (.io (.os kind))) ∧
    ∃ n ≤ availableChunks inventory.layout source.bytes.length, ∃ frames,
      Emission inventory source.bytes n frames ∧ Broke w frames w'

omit [Crates] in
/-- A chunk that was read is available. -/
theorem SourceScannerV03.Clean.le_available {source : Source} {s : SourceScannerV03} (h : Clean source s) :
    s.nextChunkIndex.toNat ≤ availableChunks s.layout source.bytes.length := by
  have hle := congrArg List.length h.took.bytes_eq
  rw [List.length_append, h.length] at hle
  unfold availableChunks
  split_ifs with hfile
  · exact h.aligned.next_le
  · rw [Nat.le_div_iff_mul_le s.layout.chunkSize_pos]
    omega

/-- **One step of the loop.** -/
theorem step_spec {source : Source} {s : Session Γ × SourceScannerV03} (hcalm : source.Calm)
    (h : Sending inventory source w s) :
    ((onScanner (nextChunk always)).mapErr .sourceScan).Ensures s (Post
      (fun chunk? t => t.1 = s.1 ∧ match chunk? with
        | some chunk => Chunk inventory source.bytes s.2.nextChunkIndex.toNat chunk ∧
          Clean source t.2 ∧ t.2.inventory = inventory ∧
          t.2.nextChunkIndex.toNat = s.2.nextChunkIndex.toNat + 1
        | none => source.bytes.length = inventory.layout.fileSize.toNat ∧
          s.2.nextChunkIndex = inventory.layout.chunkCount ∧
          t.2.finish = .ok ⟨blake3 source.bytes⟩)
      (fun e t => SendingFailed inventory source w e t.1) fun _ => False) := by
  have hlayout : s.2.layout = inventory.layout := by rw [h.clean.aligned.layout, h.inventory_eq]
  obtain ⟨frames, hemission, hwrote⟩ := h.wrote
  have hbytes := congrArg List.length h.clean.took.bytes_eq
  rw [List.length_append] at hbytes
  rw [ensures_mapErr, ensures_onScanner]
  refine (nextChunk_spec h.clean.aligned).mono fun o scanner ho => ?_
  rcases o with (_ | chunk) | e | -
  swap
  · have hchunk := chunk_of_scanned h.clean ho
    rw [h.inventory_eq] at hchunk
    exact ⟨rfl, hchunk, (h.clean.scanned ho).1, ho.inventory.trans h.inventory_eq, ho.next⟩
  · obtain ⟨hend, heof, rfl⟩ := ho
    have hall : source.bytes = s.2.fullFileHasher := by
      rw [h.clean.took.bytes_eq, heof, Source.bytes_nil, List.append_nil]
    refine ⟨rfl, ?_, by rw [hend, hlayout], ?_⟩
    · rw [hall, h.clean.length_of_end hend, hlayout]
    · have hcursor := h.clean.aligned.cursor_of_end hend
      simp [finish, refuseIf, hcursor, hall, Bind.bind, Except.bind, Pure.pure, Except.pure]
  · cases ho with
    | chunkAllocationFailed _ refused => exact Bool.noConfusion refused
    | io lost e rest eq =>
      have := h.clean.took.calm hcalm
      rw [eq] at this
      obtain ⟨⟨_, hp⟩, -⟩ := Source.calm_cons.mp (Source.calm_append.mp this).2
      cases hp
    | sourceTooShort data actual took lt next_lt =>
      obtain ⟨hoffset, hwanted⟩ := wanted_of_lt next_lt
      have hdata := congrArg List.length took.bytes_eq
      rw [List.length_append, Source.bytes_nil, List.length_nil, Nat.add_zero] at hdata
      rw [h.clean.length, min_eq_left hoffset.le, hdata] at hbytes
      have hfile : source.bytes.length < s.2.layout.fileSize.toNat := by omega
      have havailable : availableChunks inventory.layout source.bytes.length =
          s.2.nextChunkIndex.toNat := by
        rw [availableChunks, if_neg (by rw [← hlayout]; omega), hbytes, ← hlayout, Nat.add_comm,
          Nat.add_mul_div_right _ _ s.2.layout.chunkSize_pos, Nat.div_eq_of_lt (by omega),
          Nat.zero_add]
      refine .inl ⟨actual, by rw [hlayout], by rwa [← hlayout], frames, ?_, hwrote⟩
      rwa [havailable]
    | sourceTooLong byte rest took next_eq =>
      have hbyte := congrArg List.length took.bytes_eq
      rw [List.length_append, List.length_singleton] at hbyte
      rw [h.clean.length_of_end next_eq, hlayout] at hbytes
      refine .inr (.inl ⟨by rw [hlayout], by omega, frames, ?_, hwrote⟩)
      rwa [availableChunks, if_pos (by omega), ← hlayout, ← next_eq]
  · exact ho

/-- Sending the chunks that are needed. -/
theorem sendSourceChunksV03_spec {source : Source} (hcalm : source.Calm) :
    (sendSourceChunksV03 always).Ensures (w, new source inventory) (Post
      (fun summary t => source.bytes.length = inventory.layout.fileSize.toNat ∧
        summary = ⟨blake3 source.bytes⟩ ∧
        ∃ frames, Emission inventory source.bytes inventory.layout.chunkCount.toNat frames ∧
          Wrote w frames t.1)
      (fun e t => SendingFailed inventory source w e t.1) fun _ => False) := by
  rw [sendSourceChunksV03]
  refine Ensures.bind (R := Post (fun _ (t : Session Γ × SourceScannerV03) =>
      source.bytes.length = inventory.layout.fileSize.toNat ∧
        t.2.finish = .ok ⟨blake3 source.bytes⟩ ∧
        ∃ frames, Emission inventory source.bytes inventory.layout.chunkCount.toNat frames ∧
          Wrote w frames t.1)
      (fun e t => SendingFailed inventory source w e t.1) fun _ => False)
    (Ensures.loop (I := fun _ s => Sending inventory source w s) (fun _ s h => ?_) ?_) ?_
    (fun _ _ h => h) fun _ h => h
  · refine Ensures.bind (step_spec hcalm h) (fun chunk? t ht => ?_) (fun _ _ ht => ht) fun _ ht => ht
    obtain ⟨frames, hemission, hwrote⟩ := h.wrote
    obtain ⟨hstream, ht⟩ := ht
    rcases chunk? with _ | chunk
    · obtain ⟨hlen, hend, hfinish⟩ := ht
      rw [hend] at hemission
      rw [ensures_pure]
      exact ⟨hlen, hfinish, frames, hemission, by rwa [hstream]⟩
    · obtain ⟨hchunk, hclean, hinventory, hnext⟩ := ht
      have hlayout : t.2.layout = inventory.layout := by rw [hclean.aligned.layout, hinventory]
      have havailable := hclean.le_available
      have hlayout' : s.2.layout = inventory.layout := by
        rw [h.clean.aligned.layout, h.inventory_eq]
      have hmeasure : t.2.layout.chunkCount.toNat - t.2.nextChunkIndex.toNat <
          s.2.layout.chunkCount.toNat - s.2.nextChunkIndex.toNat := by
        have hle := hclean.aligned.next_le
        rw [hlayout] at hle ⊢
        rw [hlayout']
        omega
      dsimp only
      by_cases htransmit : chunk.disposition = .transmit
      · obtain ⟨frames', hcarries, hwrites⟩ := hchunk.writes (Γ := Γ)
        have hmore := hemission.succ hcarries (hchunk.transmit.mp htransmit)
        rw [if_pos htransmit, ensures_bind, ensures_onStream, hstream]
        refine (hwrites s.1).mono fun o stream ho => ?_
        cases o with
        | ok =>
          rw [post_ok, ensures_pure]
          refine ⟨⟨hclean, hinventory, by rw [← hlayout]; exact havailable, _, ?_,
            hwrote.trans ho⟩, hmeasure⟩
          rwa [hnext]
        | err e =>
          refine .inr (.inr ⟨ho.1, s.2.nextChunkIndex.toNat + 1, ?_, _, hmore, hwrote.broke ho.2⟩)
          rwa [← hnext, ← hlayout]
        | halt => exact ho
      · have hsame := hemission.succ_of_not_needed (mt hchunk.transmit.mpr htransmit)
        rw [if_neg htransmit, ensures_pure]
        refine ⟨⟨hclean, hinventory, by rw [← hlayout]; exact havailable, frames, ?_, ?_⟩, hmeasure⟩
        · rwa [hnext]
        · rwa [hstream]
  · exact ⟨clean_new, rfl, Nat.zero_le _, [], emission_zero, .refl⟩
  · rintro - t ⟨hlen, hfinish, hframes⟩
    rw [ensures_bind, ensures_get, post_ok, hfinish]
    exact ensures_ofExcept.mpr ⟨hlen, rfl, hframes⟩

/-- **What the sender of WFP/0.3 writes.** A source of the length of the file is sent as its whole
emission and COMPLETE with its digest. From one of another length only the chunks that are there
are sent, and then the session fails. A connection that breaks cuts off a part of the same. -/
theorem sendSourceChunksAndComplete_emits (inventory : ReceiverInventoryV03)
    (fragments : List { bs : Bytes // bs ≠ [] }) (w : Session Γ) :
    let source := Source.ofFragments fragments
    (sendSourceChunksAndCompleteV03 always).Ensures (w, new source inventory) (Post
      (fun summary t => source.bytes.length = inventory.layout.fileSize.toNat ∧
        summary.fileHash = blake3 source.bytes ∧
        ∃ frames, Emission inventory source.bytes inventory.layout.chunkCount.toNat frames ∧
          Wrote w (frames ++ [completeFrame (blake3 source.bytes)]) t.1)
      (fun e t => SendingFailed inventory source w e t.1 ∨
        (∃ kind, e = .protocol (.io (.os kind))) ∧
          source.bytes.length = inventory.layout.fileSize.toNat ∧
          ∃ frames, Emission inventory source.bytes inventory.layout.chunkCount.toNat frames ∧
            Broke w (frames ++ [completeFrame (blake3 source.bytes)]) t.1)
      fun _ => False) := by
  intro source
  rw [sendSourceChunksAndCompleteV03]
  refine Ensures.bind (sendSourceChunksV03_spec Source.calm_ofFragments) (fun summary t ht => ?_)
    (fun _ _ h => .inl h) fun _ h => h
  obtain ⟨hlen, rfl, frames, hemission, hwrote⟩ := ht
  have hcomplete := @sendV03_writes Γ .complete (blake3 source.bytes).1 (fun h => nomatch h)
    (by rw [(blake3 source.bytes).2]; decide)
  rw [ensures_bind, ensures_onStream, sendCompleteV03]
  refine (hcomplete t.1).mono fun o stream ho => ?_
  cases o with
  | ok =>
    rw [post_ok, ensures_pure]
    exact ⟨hlen, rfl, frames, hemission, hwrote.trans ho⟩
  | err e => exact .inr ⟨ho.1, hlen, frames, hemission, hwrote.broke ho.2⟩
  | halt => exact ho

end

end Warpfile.V03
