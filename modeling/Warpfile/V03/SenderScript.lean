import Warpfile.Protocol.Conversation
import Warpfile.V03.Conduct

/-!
# The script of a sender of WFP/0.3

On an open connection, with a source that can be read, a session follows a script that depends on
the answer of the receiver: it is over at once after VERIFIED, and else the sender takes the
inventory that is announced, and what it writes is the emission of the chunks that are not in it.
-/

namespace Warpfile.V03

open Prog Connected SourceScannerV03

variable {Γ : Setting} {d : Disk Γ}

/-! ### Frames -/

/-- A frame of WFP/0.3. -/
abbrev frameV03 (messageType : MessageType) (payload : Bytes) : Frame :=
  ⟨wfpVersionV03, messageType, 0, payload⟩

theorem plays_sendFrameV03 {ε : Type} {frameError : FrameError → ε}
    {protocolError : ProtocolIoError → ε} {messageType : MessageType} {payload : Bytes}
    (h : (frameV03 messageType payload).header.Acceptable wfpVersionV03) :
    Plays (sendFrameV03 frameError protocolError messageType payload : Prog (Session Γ) ε Unit) d
      (tells (frameV03 messageType payload)) fun _ d' => d' = d := by
  refine (plays_ofExcept (a := frameV03 messageType payload)
    (Q := fun frame d' => frame = frameV03 messageType payload ∧ d' = d) rfl
    ⟨rfl, rfl⟩).bind_silent fun frame d' hd => ?_
  obtain ⟨rfl, rfl⟩ := hd
  exact (plays_writeFrame h.encodable).mapErr

theorem plays_receiveFrameV03 {ε : Type} {protocolError : ProtocolIoError → ε} {frame : Frame}
    (h : frame.header.Acceptable wfpVersionV03) :
    Plays ((readFrameForVersion wfpVersionV03).mapErr protocolError : Prog (Session Γ) ε Frame) d
      (hears frame) fun f d' => f = frame ∧ d' = d := (plays_readFrame h).mapErr

/-- A check that is passed. -/
theorem plays_refuseIf {ε τ σ : Type} [Connected σ τ] {t : τ} {c : Prop} [Decidable c] {e : ε}
    (hc : ¬c) : Plays (Prog.ofExcept (refuseIf c e) : Prog σ ε Unit) t [] fun _ t' => t' = t :=
  plays_ofExcept (a := ()) (refuseIf_eq_ok.mpr hc) rfl

/-! ### The inventory -/

section

variable {layout : ChunkLayout} {declared : UInt64}

theorem plays_receiveBatches {s : ReceivedRecords} {hashes : List Frame}
    {batches : List ChunkHashesBatch}
    (h : Continues declared s (encodings hashes) batches [])
    (hacceptable : ∀ frame ∈ hashes, frame.header.Acceptable wfpVersionV03) :
    Plays (receiveBatches declared s : Prog (Session Γ) _ _) d (hearsAll hashes)
      fun inventory d' => d' = d ∧ inventory.layout = s.inventory.layout ∧
        inventory.records = s.inventory.records ++ concatenation batches := by
  rw [← List.append_nil (hearsAll hashes)]
  refine plays_loop_input (I := fun frames s' d' => d' = d ∧
    (∀ frame ∈ frames, frame.header.Acceptable wfpVersionV03) ∧
    s'.inventory.layout = s.inventory.layout ∧ ∃ batches', Continues declared s' (encodings frames)
      batches' [] ∧ s'.inventory.records ++ concatenation batches' =
        s.inventory.records ++ concatenation batches) (fun _ _ => rfl) (fun frame => ?_)
    (fun frame frames s' d' hI => ?_) (fun s' d' hI => ?_)
    ⟨rfl, hacceptable, rfl, batches, h, rfl⟩
  · rw [recvs_hears]
    exact List.length_pos_iff.mp frame.length_encoding_pos
  · obtain ⟨rfl, hacc, hlayout, batches', hc, hrecords⟩ := hI
    obtain ⟨ha, hrest⟩ := List.forall_mem_cons.mp hacc
    have hlt : s'.received < declared := by
      generalize hin : encodings (frame :: frames) = bytes at hc
      cases hc with
      | batch hlt => exact hlt
      | done =>
        have hpos := frame.length_encoding_pos
        have := congrArg List.length hin
        simp only [encodings, List.flatMap_cons, List.length_append, List.length_nil] at this
        omega
    rw [encodings, List.flatMap_cons] at hc
    obtain ⟨s'', batch, batches'', rfl, htake, hbatch, hc⟩ := (continues_frame hlt ha).mp hc
    obtain ⟨-, -, hlayout', batch', hbatch', -, -, hrecords'⟩ := takeBatch_eq_ok.mp htake
    obtain rfl : batch' = batch := Except.ok.inj <|
      (decodeChunkHashes_eq_ok.mpr hbatch').symm.trans (decodeChunkHashes_eq_ok.mpr hbatch)
    rw [if_pos hlt]
    refine (plays_receiveFrameV03 ha).bind_pure fun f t ht => ?_
    obtain ⟨rfl, rfl⟩ := ht
    refine (plays_ofExcept (Q := fun a t' => a = s'' ∧ t' = t) htake ⟨rfl, rfl⟩).bind_silent
      fun a t' ht => ?_
    obtain ⟨rfl, rfl⟩ := ht
    refine plays_pure ⟨a, rfl, rfl, hrest, hlayout'.trans hlayout, batches'', hc, ?_⟩
    rw [← hrecords, hrecords', concatenation, concatenation, List.flatMap_cons, List.append_assoc]
  · obtain ⟨rfl, -, hlayout, batches', hc, hrecords⟩ := hI
    generalize hin : encodings [] = bytes at hc
    cases hc with
    | done heq =>
      rw [if_neg (by rw [heq]; exact UInt64.lt_irrefl _)]
      refine plays_pure ⟨s'.inventory, rfl, rfl, hlayout, ?_⟩
      simpa [concatenation] using hrecords
    | @batch _ _ frame =>
      have hpos := frame.length_encoding_pos
      have := congrArg List.length hin
      simp only [encodings, List.flatMap_nil, List.length_append, List.length_nil] at this
      omega

/-- **The inventory is accepted.** -/
theorem plays_receiveInventoryAndAcceptAfterResume {frames : List Frame}
    {batches : List ChunkHashesBatch} (h : Inventory layout frames batches) :
    ∃ n hashes, frames = resumeFrame n :: hashes ∧
      Plays (receiveInventoryAndAcceptAfterResume layout (resumeFrame n) : Prog (Session Γ) _ _) d
        (hearsAll hashes ++ tells acceptFrame) fun inventory d' => d' = d ∧
          inventory.layout = layout ∧ inventory.records = concatenation batches := by
  obtain ⟨⟨n, hashes, rfl, hhashes, hle, hlen⟩, hvalid⟩ := id h
  refine ⟨n, hashes, rfl, ?_⟩
  have hc : Continues n { inventory := .empty layout, received := 0 } (encodings hashes) batches
      [] := continues_iff.mpr ⟨hashes, hhashes, (List.append_nil _).symm, by simpa using hlen, hvalid⟩
  refine (plays_ofExcept (a := n) (Q := fun a d' => a = n ∧ d' = d)
    (declaredRecords_eq_ok.mpr ⟨rfl, rfl, hle⟩) ⟨rfl, rfl⟩).bind_silent fun a d' hd => ?_
  obtain ⟨rfl, rfl⟩ := hd
  refine (plays_receiveBatches hc fun frame hf => h.acceptable (by simp [hf])).bind
    fun inventory d' hd => ?_
  obtain ⟨rfl, hlayout, hrecords⟩ := hd
  refine (plays_sendFrameV03 (acceptable_of_le (by simp) (by simp))).bind_pure fun _ d' hd => ?_
  subst hd
  exact plays_pure ⟨rfl, hlayout, by simpa [ReceiverInventoryV03.empty] using hrecords⟩

end

/-! ### The chunks -/

/-- The connection is to end as before. -/
def SameClosing (w w' : Session Γ) : Prop := w'.net.closing = w.net.closing

instance : Std.Refl (SameClosing : Session Γ → Session Γ → Prop) := ⟨fun _ => rfl⟩

instance : IsTrans (Session Γ) SameClosing := ⟨fun _ _ _ h h' => Eq.trans h' h⟩

theorem voicesV03_sameClosing :
    VoicesV03 (fun _ => True) (SameClosing : Session Γ → Session Γ → Prop) where
  refl := inferInstance
  trans := inferInstance
  read := fun _ => ensures_readFrame (fun _ _ _ _ => rfl) (fun _ _ => rfl) (fun _ _ => rfl)
    fun _ => rfl
  write := fun messageType payload _ w => by
    by_cases henc : (frameV03 messageType payload).Encodable
    · exact ensures_writeFrame henc (fun _ _ => rfl) fun _ _ _ _ => rfl
    · exact ensures_writeFrame_of_not_encodable henc fun _ => rfl

/-- What is written on an open connection. -/
theorem Writes.plays {frames : List Frame} {p : Prog (Session Γ) SenderV03TransferError Unit}
    (h : Writes frames p) (hclosing : p.Keeps SameClosing) :
    Plays p d (tellsAll frames) fun _ d' => d' = d := by
  intro w hd ho
  obtain ⟨hclosed, hroom⟩ := ho
  constructor
  · intro rest hrest
    refine ((h w).and (hclosing w)).mono fun o w' hw => ?_
    obtain ⟨hw, hsame⟩ := hw
    cases o with
    | ok =>
      rw [recvs_tellsAll, List.nil_append] at hrest
      have hnet : w'.net = ⟨w'.net.input, w'.net.closing, w'.net.output, w'.net.room⟩ := rfl
      refine ⟨(hw.disk.trans hd : w'.disk = d), (hnet : net w' = _).trans ?_⟩
      rw [hw.input, hw.output, hw.room hroom, show w'.net.closing = none from hsame.trans hclosed,
        sends_tellsAll, show w.net.input = rest from hrest]
      rfl
    | err => exact hw.2.room hroom
    | halt => exact hw
  · intro before part message after hpending
    refine absurd hpending.script_eq fun heq => ?_
    have hmem : Act.recv message ∈ tellsAll frames := by
      rw [heq]
      simp
    obtain ⟨frame, -, hframe⟩ := List.mem_flatMap.mp hmem
    simp [tells] at hframe

/-- A call on the scanner that is known to succeed. -/
theorem plays_onScanner {ε α : Type} {s : SourceScannerV03} {p : Prog SourceScannerV03 ε α}
    {Q : α → SourceScannerV03 → Prop} (h : p.Ensures s (Post Q (fun _ _ => False) fun _ => False)) :
    Plays (onScanner p : Prog (Session Γ × SourceScannerV03) ε α) (d, s) [] fun a t =>
      t.1 = d ∧ Q a t.2 := by
  refine plays_silent fun t ht => ?_
  obtain ⟨w, scanner⟩ := t
  obtain ⟨rfl, rfl⟩ : w.disk = d ∧ scanner = s := Prod.mk.inj ht
  rw [ensures_onScanner]
  refine h.mono fun o t' h' => ?_
  cases o with
  | ok => exact ⟨⟨rfl, h'⟩, rfl⟩
  | err => exact h'
  | halt => exact h'

theorem plays_onStreamV03 {ε α : Type} {s : SourceScannerV03} {p : Prog (Session Γ) ε α}
    {script : Script}
    {Q : α → Disk Γ → Prop} (h : Plays p d script Q) :
    Plays (onStream p) (d, s) script fun a t => Q a t.1 ∧ t.2 = s := by
  intro t ht ho
  obtain ⟨w, scanner⟩ := t
  obtain ⟨rfl, rfl⟩ : w.disk = d ∧ scanner = s := Prod.mk.inj ht
  obtain ⟨hreturns, hwaits⟩ := h w rfl ho
  constructor
  · intro rest hrest
    rw [ensures_onStream]
    refine (hreturns rest hrest).mono fun o w' h' => ?_
    cases o with
    | ok => exact ⟨⟨h'.1, rfl⟩, h'.2⟩
    | err => exact h'
    | halt => exact h'
  · intro before part message after hpending
    rw [ensures_onStream]
    exact (hwaits before part message after hpending).mono fun o w' h' => by cases o <;> exact h'

section

variable [Crates] {inventory : ReceiverInventoryV03} {source : Source} {s : SourceScannerV03}

/-- A chunk of a source of the right length. -/
theorem exists_chunk {content : Bytes} {i : ℕ} (hi : i < inventory.layout.chunkCount.toNat)
    (hlen : content.length = inventory.layout.fileSize.toNat) :
    ∃ chunk, Chunk inventory content i chunk := by
  classical
  have hfile := inventory.layout.fileSize.toNat_lt
  have hlt : i * inventory.layout.chunkSize.toNat < inventory.layout.fileSize.toNat :=
    ChunkLayout.lt_chunkCount.mp hi
  have hoffset : (UInt64.ofNat (i * inventory.layout.chunkSize.toNat)).toNat =
      i * inventory.layout.chunkSize.toNat :=
    UInt64.toNat_ofNat_of_lt' (by rw [UInt64.size]; omega)
  refine ⟨⟨.ofNat i, .ofNat (i * inventory.layout.chunkSize.toNat),
    blake3 (chunkBytes inventory.layout content i),
    if Needed inventory content i then .transmit else .reuse,
    chunkBytes inventory.layout content i⟩, rfl, hoffset, rfl, rfl, ?_, ?_⟩
  · simp only [hoffset, chunkBytes, List.length_take, List.length_drop]
    omega
  · by_cases hn : Needed inventory content i <;> simp [hn]

/-- A chunk that is needed is written in the same frames whenever it is. -/
theorem exists_chunk_frames {content : Bytes} {i : ℕ}
    (hi : i < inventory.layout.chunkCount.toNat)
    (hlen : content.length = inventory.layout.fileSize.toNat) :
    ∃ data, Carries (i * inventory.layout.chunkSize.toNat)
        (chunkBytes inventory.layout content i) data ∧
      ∀ chunk, Chunk inventory content i chunk → Writes (Γ := Γ)
        (chunkStartFrame (.ofNat i) (blake3 (chunkBytes inventory.layout content i)) :: data)
        (sendTransmitChunkV03 chunk) := by
  obtain ⟨chunk, hchunk⟩ := exists_chunk hi hlen
  obtain ⟨data, hcarries, hwrites⟩ := hchunk.writes (Γ := Γ)
  refine ⟨data, hcarries, fun chunk' hchunk' => ?_⟩
  have hoffset : chunk'.offset = chunk.offset :=
    UInt64.toNat_inj.mp (hchunk'.offset.trans hchunk.offset.symm)
  have hsame : (sendTransmitChunkV03 chunk' : Prog (Session Γ) _ Unit) =
      sendTransmitChunkV03 chunk := by
    rw [sendTransmitChunkV03, sendTransmitChunkV03, hchunk'.index, hchunk'.hash, hchunk'.data,
      hoffset, hchunk.index, hchunk.hash, hchunk.data]
  rw [hsame]
  exact hwrites

/-- A scan of a source of the right length does not fail. -/
theorem SourceScannerV03.Clean.nextChunk_run (h : Clean source s) (hcalm : source.Calm)
    (hlen : source.bytes.length = s.layout.fileSize.toNat) :
    (nextChunk always).Ensures s (Post
      (fun chunk? s' => match chunk? with
        | some chunk => s.Scanned chunk s'
        | none => s.nextChunkIndex = s.layout.chunkCount ∧
          s'.finish = .ok ⟨blake3 source.bytes⟩)
      (fun _ _ => False) fun _ => False) := by
  have hbytes := congrArg List.length h.took.bytes_eq
  rw [List.length_append] at hbytes
  refine (nextChunk_spec h.aligned).mono fun o s' ho => ?_
  cases o with
  | halt => exact ho
  | ok chunk? =>
    cases chunk? with
    | some chunk => exact ho
    | none =>
      obtain ⟨hend, heof, rfl⟩ := ho
      have hcursor := h.aligned.cursor_of_end hend
      have hall : source.bytes = s.fullFileHasher := by
        rw [h.took.bytes_eq, heof, Source.bytes_nil, List.append_nil]
      refine ⟨hend, ?_⟩
      simp [finish, refuseIf, hcursor, hall, Bind.bind, Except.bind, Pure.pure, Except.pure]
  | err e =>
    cases ho with
    | chunkAllocationFailed _ refused => exact Bool.noConfusion refused
    | io lost e rest eq =>
      have hleft := h.took.calm hcalm
      rw [eq] at hleft
      obtain ⟨⟨_, hp⟩, -⟩ := Source.calm_cons.mp (Source.calm_append.mp hleft).2
      cases hp
    | sourceTooShort data actual took lt next_lt =>
      obtain ⟨hoffset, hwanted⟩ := wanted_of_lt next_lt
      have hdata := congrArg List.length took.bytes_eq
      rw [List.length_append, Source.bytes_nil, List.length_nil] at hdata
      rw [h.length, min_eq_left hoffset.le, hdata] at hbytes
      omega
    | sourceTooLong byte rest took next_eq =>
      have hbyte := congrArg List.length took.bytes_eq
      rw [List.length_append, List.length_singleton] at hbyte
      rw [h.length_of_end next_eq] at hbytes
      omega

open Classical in
/-- What is written for a chunk. -/
noncomputable def framesOf (inventory : ReceiverInventoryV03) (content : Bytes)
    (data : ℕ → List Frame) (i : ℕ) : List Frame :=
  if Needed inventory content i then
    chunkStartFrame (.ofNat i) (blake3 (chunkBytes inventory.layout content i)) :: data i
  else []

/-- The frames that are left to write when the scan is at chunk `n`. -/
private structure Unwritten (inventory : ReceiverInventoryV03) (source : Source)
    (data : ℕ → List Frame) (d : Disk Γ) (left : List (List Frame))
    (t : Disk Γ × SourceScannerV03) : Prop where
  disk : t.1 = d
  clean : Clean source t.2
  inventory_eq : t.2.inventory = inventory
  left_eq : left = (List.range' t.2.nextChunkIndex.toNat
    (inventory.layout.chunkCount.toNat - t.2.nextChunkIndex.toNat)).map
      (framesOf inventory source.bytes data)

/-- **The source is sent**: what is written is the emission of its chunks. -/
theorem exists_plays_sendSourceChunks (hcalm : source.Calm)
    (hlen : source.bytes.length = inventory.layout.fileSize.toNat) :
    ∃ frames, Emission inventory source.bytes inventory.layout.chunkCount.toNat frames ∧
      Plays (sendSourceChunksV03 always : SenderV03 Γ SourceScanSummaryV03)
        (d, .new source inventory) (tellsAll frames) fun summary t =>
          t.1 = d ∧ summary = ⟨blake3 source.bytes⟩ := by
  have hframes (i : ℕ) : ∃ data, i < inventory.layout.chunkCount.toNat →
      Carries (i * inventory.layout.chunkSize.toNat)
        (chunkBytes inventory.layout source.bytes i) data ∧
      ∀ chunk, Chunk inventory source.bytes i chunk → Writes (Γ := Γ)
        (chunkStartFrame (.ofNat i) (blake3 (chunkBytes inventory.layout source.bytes i)) :: data)
        (sendTransmitChunkV03 chunk) := by
    by_cases hi : i < inventory.layout.chunkCount.toNat
    · obtain ⟨data, h⟩ := exists_chunk_frames (Γ := Γ) hi hlen
      exact ⟨data, fun _ => h⟩
    · exact ⟨[], fun h => absurd h hi⟩
  choose data hdata using hframes
  refine ⟨(List.range inventory.layout.chunkCount.toNat).flatMap
    (framesOf inventory source.bytes data), ⟨data, fun i hi _ => (hdata i hi).1, rfl⟩, ?_⟩
  set left := (List.range' 0 inventory.layout.chunkCount.toNat).map
    (framesOf inventory source.bytes data) with hleft
  have hscript : tellsAll ((List.range inventory.layout.chunkCount.toNat).flatMap
      (framesOf inventory source.bytes data)) = left.flatMap tellsAll ++ [] := by
    rw [hleft, List.range_eq_range', tellsAll, List.flatMap_assoc, List.flatMap_map,
      List.append_nil]
    rfl
  rw [hscript]
  have hloop : Plays (Prog.loop (fun _ s => s.2.layout.chunkCount.toNat - s.2.nextChunkIndex.toNat)
      (fun () => do
        match ← (onScanner (nextChunk always)).mapErr .sourceScan with
        | some chunk =>
          if chunk.disposition = .transmit then onStream (sendTransmitChunkV03 chunk)
          return .inl ()
        | none => return .inr ()) () : SenderV03 Γ Unit) (d, .new source inventory)
      (left.flatMap tellsAll ++ [])
      fun _ t => t.1 = d ∧ t.2.finish = .ok ⟨blake3 source.bytes⟩ := by
    refine plays_loop_store (m := fun _ t => t.2.layout.chunkCount.toNat - t.2.nextChunkIndex.toNat)
      (I := fun left _ t => Unwritten inventory source data d left t) ?_
      (fun frames left _ t hI => ?_) (fun _ t hI => ?_) ⟨rfl, clean_new, rfl, rfl⟩
    · simp [hleft, SourceScannerV03.new]
    · obtain ⟨d', scanner⟩ := t
      obtain ⟨rfl, hclean, hinventory, hleft⟩ := hI
      dsimp only at hclean hinventory hleft
      have hlayout : scanner.layout = inventory.layout := by rw [hclean.aligned.layout, hinventory]
      -- there is a chunk to write
      obtain ⟨n, hn⟩ : ∃ n, inventory.layout.chunkCount.toNat - scanner.nextChunkIndex.toNat =
          n + 1 := by
        refine ⟨_, (Nat.succ_pred_eq_of_pos (Nat.pos_of_ne_zero fun h => ?_)).symm⟩
        rw [h] at hleft
        simp at hleft
      rw [hn, List.range'_succ, List.map_cons] at hleft
      obtain ⟨rfl, rfl⟩ := List.cons.inj hleft
      have hrun := hclean.nextChunk_run hcalm (by rw [hlen, hlayout])
      refine ((plays_onScanner hrun).mapErr).bind_silent fun chunk? t ht => ?_
      obtain ⟨d', scanner'⟩ := t
      obtain ⟨rfl, ht⟩ := ht
      cases chunk? with
      | none =>
        rw [← hlayout, ht.1] at hn
        omega
      | some chunk =>
        have hscan : scanner.Scanned chunk scanner' := ht
        have hchunk := chunk_of_scanned hclean hscan
        rw [hinventory] at hchunk
        have hI' : Unwritten inventory source data d'
            ((List.range' (scanner.nextChunkIndex.toNat + 1) n).map
              (framesOf inventory source.bytes data)) (d', scanner') := by
          refine ⟨rfl, (hclean.scanned hscan).1, hscan.inventory.trans hinventory, ?_⟩
          rw [hscan.next, show inventory.layout.chunkCount.toNat -
            (scanner.nextChunkIndex.toNat + 1) = n by omega]
        by_cases hneeded : Needed inventory source.bytes scanner.nextChunkIndex.toNat
        · have hwrites := (hdata scanner.nextChunkIndex.toNat (by omega)).2 chunk hchunk
          have hkeeps : (sendTransmitChunkV03 chunk : Prog (Session Γ) _ Unit).Keeps SameClosing :=
            voicesV03_sameClosing.sendTransmitChunkV03 (fun _ => trivial) fun _ => trivial
          rw [framesOf, if_pos hneeded]
          dsimp only
          rw [if_pos (hchunk.transmit.mpr hneeded)]
          refine (plays_onStreamV03 (hwrites.plays hkeeps)).bind_pure fun _ t ht => ?_
          obtain ⟨t, scanner''⟩ := t
          obtain ⟨rfl, rfl⟩ := ht
          exact plays_pure ⟨(), rfl, hI'⟩
        · rw [framesOf, if_neg hneeded]
          dsimp only
          rw [if_neg (mt hchunk.transmit.mp hneeded)]
          exact plays_pure ⟨(), rfl, hI'⟩
    · obtain ⟨d', scanner⟩ := t
      obtain ⟨rfl, hclean, hinventory, hleft⟩ := hI
      dsimp only at hclean hinventory hleft
      have hlayout : scanner.layout = inventory.layout := by rw [hclean.aligned.layout, hinventory]
      have hrun := hclean.nextChunk_run hcalm (by rw [hlen, hlayout])
      refine ((plays_onScanner hrun).mapErr).bind_silent fun chunk? t ht => ?_
      obtain ⟨d', scanner'⟩ := t
      obtain ⟨rfl, ht⟩ := ht
      cases chunk? with
      | none => exact plays_pure ⟨(), rfl, rfl, ht.2⟩
      | some chunk =>
        have hscan : scanner.Scanned chunk scanner' := ht
        have hlt := hscan.length_data.1
        rw [hlayout] at hlt
        have := congrArg List.length hleft
        simp at this
        omega
  refine hloop.bind_pure fun _ t ht => ?_
  obtain ⟨hd, hfinish⟩ := ht
  refine plays_silent fun u hu => ?_
  obtain ⟨w, scanner⟩ := u
  obtain rfl : (w.disk, scanner) = t := hu
  rw [ensures_bind, ensures_get, post_ok, ensures_ofExcept, hfinish]
  exact ⟨⟨hd, rfl⟩, rfl⟩

theorem exists_plays_sendSourceChunksCompleteAndVerify (hcalm : source.Calm)
    (hlen : source.bytes.length = inventory.layout.fileSize.toNat) :
    ∃ frames, Emission inventory source.bytes inventory.layout.chunkCount.toNat frames ∧
      Plays (sendSourceChunksCompleteAndVerifyV03 always : SenderV03 Γ SourceScanSummaryV03)
        (d, .new source inventory) (tellsAll frames ++
          (tells (completeFrame (blake3 source.bytes)) ++ hears (frameV03 .verified [])))
        fun _ t => t.1 = d := by
  obtain ⟨frames, hemission, hplays⟩ := exists_plays_sendSourceChunks (d := d) hcalm hlen
  refine ⟨frames, hemission, ?_⟩
  have hcomplete : (completeFrame (blake3 source.bytes)).header.Acceptable wfpVersionV03 :=
    acceptable_of_le (by rw [(blake3 source.bytes).2]; decide) (by simp)
  have hverified : (frameV03 .verified []).header.Acceptable wfpVersionV03 :=
    acceptable_of_le (by simp) (by simp)
  rw [← List.append_assoc]
  refine Plays.bind (R := fun _ t => t.1 = d) (hplays.bind fun summary t ht => ?_) fun _ t ht => ?_
  · obtain ⟨t, scanner⟩ := t
    obtain ⟨rfl, rfl⟩ := ht
    have hsend : Plays (sendCompleteV03 ⟨blake3 source.bytes⟩ : Prog (Session Γ) _ Unit) t
        (tells (completeFrame (blake3 source.bytes))) fun _ d' => d' = t := by
      refine (plays_ofExcept (a := completeFrame (blake3 source.bytes))
        (Q := fun a d' => a = completeFrame (blake3 source.bytes) ∧ d' = t) rfl
        ⟨rfl, rfl⟩).bind_silent fun a d' hd => ?_
      obtain ⟨rfl, rfl⟩ := hd
      exact (plays_writeFrame hcomplete.encodable).mapErr
    refine (plays_onStreamV03 hsend).bind_pure fun _ t' ht' => ?_
    exact plays_pure ht'.1
  · obtain ⟨t, scanner⟩ := t
    obtain rfl : t = d := ht
    refine (plays_onStreamV03 (plays_receiveFrameV03 hverified)).bind_pure fun verified t' ht' => ?_
    obtain ⟨t', scanner'⟩ := t'
    obtain ⟨⟨rfl, rfl⟩, rfl⟩ := ht'
    refine (plays_refuseIf (by simp)).bind_silent fun _ t' ht' => ?_
    subst ht'
    refine (plays_refuseIf (by simp)).bind_silent fun _ t' ht' => ?_
    subst ht'
    exact plays_pure rfl

end

/-! ### A whole session -/

/-- The beginning of a session: both sides greet, and the file is offered. -/
def greetingV03 (offer : FileOfferV03) : Script :=
  tells (frameV03 .hello [wfpVersionV03]) ++ (hears (frameV03 .helloAck [wfpVersionV03]) ++
    tells (frameV03 .offer offer.payload))

/-- The offer has an encoding. -/
structure NameableV03 (offer : FileOfferV03) : Prop where
  ne_nil : utf8 offer.filename ≠ []
  length_lt : (utf8 offer.filename).length < 2 ^ 16
  chunkSize_ne_zero : offer.chunkSize ≠ 0

section

variable {offer : FileOfferV03}

theorem NameableV03.encode (h : NameableV03 offer) : encodeOfferV03 offer = .ok offer.payload := by
  simp only [encodeOfferV03, bind_eq_ok, refuseIf_eq_ok, pure_eq_ok]
  exact ⟨(), h.ne_nil, (), not_le.mpr h.length_lt, (), h.chunkSize_ne_zero, trivial⟩

theorem NameableV03.acceptable (h : NameableV03 offer) :
    (frameV03 .offer offer.payload).header.Acceptable wfpVersionV03 := by
  have hid : offer.transferId.1.length = transferIdLength := offer.transferId.2
  have hlt := h.length_lt
  refine acceptable_of_le ?_ (by simp)
  rw [FileOfferV03.payload, filenameField]
  simp only [List.length_append, length_toBE, length_word, hid]
  norm_num [transferIdLength, maxPayloadLength] at hlt ⊢
  omega

theorem plays_sendOfferV03 (h : NameableV03 offer) :
    Plays (sendOfferV03 offer : Prog (Session Γ) _ Unit) d (greetingV03 offer)
      fun _ d' => d' = d := by
  have hversion (messageType : MessageType) (ht : messageType ≠ .data) :
      (frameV03 messageType [wfpVersionV03]).header.Acceptable wfpVersionV03 :=
    acceptable_of_le (by simp) ht
  refine (plays_sendFrameV03 (hversion .hello (by simp))).bind fun _ d' hd => ?_
  subst hd
  refine (plays_receiveFrameV03 (hversion .helloAck (by simp))).bind fun helloAck d hd => ?_
  obtain ⟨rfl, rfl⟩ := hd
  refine (plays_refuseIf (by simp)).bind_silent fun _ d' hd => ?_
  subst hd
  refine (plays_refuseIf (by simp)).bind_silent fun _ d hd => ?_
  subst hd
  refine (plays_ofExcept (a := offer.payload) (Q := fun a d' => a = offer.payload ∧ d' = d)
    (mapError_eq_ok.mpr h.encode) ⟨rfl, rfl⟩).bind_silent fun payload d' hd => ?_
  obtain ⟨rfl, rfl⟩ := hd
  exact plays_sendFrameV03 h.acceptable

/-- A program next to a scanner, as a part of a session. -/
theorem plays_withScanner {ε α : Type} {scanner : SourceScannerV03} {script : Script}
    {p : Prog (Session Γ × SourceScannerV03) ε α}
    (h : Plays p (d, scanner) script fun _ t => t.1 = d) :
    Plays (withScanner scanner p) d script fun _ d' => d' = d := by
  intro w hw ho
  obtain ⟨hreturns, hwaits⟩ := h (w, scanner) (by rw [← (hw : w.disk = d)]; rfl) ho
  constructor
  · intro rest hrest
    rw [ensures_withScanner]
    refine (hreturns rest hrest).mono fun o t h' => ?_
    cases o with
    | ok => exact h'
    | err => exact h'
    | halt => exact h'
  · intro before part message after hpending
    rw [ensures_withScanner]
    exact (hwaits before part message after hpending).mono fun o t h' => by cases o <;> exact h'

variable [Crates] {path : SourcePath} {content : Bytes}

/-- What a session finds: the file of the offer, which can be read. -/
structure Readable (path : SourcePath) (offer : FileOfferV03) (content : Bytes) : Prop where
  metadata : path.metadata = .ok ⟨true, offer.fileSize⟩
  fileName : path.fileName = some offer.filename
  file : ∃ source, path.file = .ok source ∧ source.Calm ∧ source.bytes = content

/-- A session of the offer, up to the answer. -/
private theorem plays_offered {script : Script} {frame : Frame} {layout : ChunkLayout}
    {chunkSize : NonZeroU64} (h : NameableV03 offer) (hreadable : Readable path offer content)
    (hchunk : offer.chunkSize = chunkSize.1)
    (hlayout : ChunkLayout.new offer.fileSize offer.chunkSize = .ok layout)
    (hframe : frame.header.Acceptable wfpVersionV03)
    (hanswer : Plays (answerOfferV03 always path.file layout frame : Prog (Session Γ) _ Unit) d
      script fun _ d' => d' = d) :
    Plays (sendSessionV03 always path (.ok ()) offer.transferId chunkSize :
      Prog (Session Γ) _ Unit) d (greetingV03 offer ++ (hears frame ++ script))
      fun _ d' => d' = d := by
  obtain ⟨transferId, filename, fileSize, chunkSize'⟩ := offer
  obtain rfl : chunkSize' = chunkSize.1 := hchunk
  refine (plays_ofExcept (a := ()) (Q := fun _ d' => d' = d) rfl rfl).bind_silent fun _ d' hd => ?_
  subst hd
  refine (plays_ofExcept (a := ⟨true, fileSize⟩) (Q := fun a d => a = ⟨true, fileSize⟩ ∧ d = d')
    (mapError_eq_ok.mpr hreadable.metadata) ⟨rfl, rfl⟩).bind_silent fun metadata d hd => ?_
  obtain ⟨rfl, rfl⟩ := hd
  refine (plays_refuseIf (by simp)).bind_silent fun _ d' hd => ?_
  subst hd
  refine (plays_ofExcept (a := filename) (Q := fun a d => a = filename ∧ d = d')
    (by rw [hreadable.fileName]; rfl) ⟨rfl, rfl⟩).bind_silent fun name d hd => ?_
  obtain ⟨rfl, rfl⟩ := hd
  refine (plays_sendOfferV03 h).bind fun _ d' hd => ?_
  subst hd
  dsimp only at hlayout ⊢
  rw [hlayout]
  refine (plays_receiveFrameV03 hframe).bind fun f d hd => ?_
  obtain ⟨rfl, rfl⟩ := hd
  exact hanswer

/-- **The script of a session whose offer is settled already.** -/
theorem plays_sendSessionV03_verified {layout : ChunkLayout} {chunkSize : NonZeroU64}
    (h : NameableV03 offer) (hreadable : Readable path offer content)
    (hchunk : offer.chunkSize = chunkSize.1)
    (hlayout : ChunkLayout.new offer.fileSize offer.chunkSize = .ok layout) :
    Plays (sendSessionV03 always path (.ok ()) offer.transferId chunkSize :
      Prog (Session Γ) _ Unit) d (greetingV03 offer ++ hears (frameV03 .verified []))
      fun _ d' => d' = d := by
  rw [← List.append_nil (hears (frameV03 .verified []))]
  refine plays_offered h hreadable hchunk hlayout (acceptable_of_le (by simp) (by simp)) ?_
  rw [answerOfferV03, if_pos rfl]
  exact plays_refuseIf (by simp)

/-- The chunks that are not in the inventory are sent in these frames, and confirmed. -/
def transferringV03 (content : Bytes) (frames : List Frame) : Script :=
  tellsAll frames ++ (tells (completeFrame (blake3 content)) ++ hears (frameV03 .verified []))

/-- **The script of a session that sends chunks**: those that the announced inventory lacks. -/
theorem exists_plays_sendSessionV03_transfer {inventory : ReceiverInventoryV03}
    {chunkSize : NonZeroU64} {announced : List Frame} {batches : List ChunkHashesBatch}
    (h : NameableV03 offer) (hreadable : Readable path offer content)
    (hchunk : offer.chunkSize = chunkSize.1) (hlen : content.length = offer.fileSize.toNat)
    (hlayout : ChunkLayout.new offer.fileSize offer.chunkSize = .ok inventory.layout)
    (hannounced : Inventory inventory.layout announced batches)
    (hrecords : inventory.records = concatenation batches) :
    ∃ frames, Emission inventory content inventory.layout.chunkCount.toNat frames ∧
      Plays (sendSessionV03 always path (.ok ()) offer.transferId chunkSize :
        Prog (Session Γ) _ Unit) d (greetingV03 offer ++ (hearsAll announced ++
          (tells acceptFrame ++ transferringV03 content frames))) fun _ d' => d' = d := by
  obtain ⟨source, hfile, hcalm, rfl⟩ := hreadable.file
  have hsize := (ChunkLayout.new_eq_ok.mp hlayout).1
  obtain ⟨frames, hemission, hsend⟩ := exists_plays_sendSourceChunksCompleteAndVerify
    (d := d) hcalm (hlen.trans (by rw [hsize]))
  refine ⟨frames, hemission, ?_⟩
  obtain ⟨n, hashes, rfl, haccept⟩ := plays_receiveInventoryAndAcceptAfterResume (d := d) hannounced
  have hscript : hearsAll (resumeFrame n :: hashes) ++ (tells acceptFrame ++
      transferringV03 source.bytes frames) = hears (resumeFrame n) ++
        ((hearsAll hashes ++ tells acceptFrame) ++ transferringV03 source.bytes frames) := by
    simp [hearsAll]
  rw [hscript]
  refine plays_offered h hreadable hchunk hlayout (acceptable_resumeFrame n) ?_
  rw [answerOfferV03, if_neg (by simp [resumeFrame])]
  refine (haccept.mapErr).bind fun inventory' d' hd => ?_
  obtain ⟨rfl, hlayout', hrecords'⟩ := hd
  obtain rfl : inventory' = inventory := by
    obtain ⟨layout', records', _, _⟩ := inventory'
    obtain ⟨layout, records, _, _⟩ := inventory
    obtain rfl : layout' = layout := hlayout'
    obtain rfl : records' = records := hrecords'.trans hrecords.symm
    rfl
  have hcount : inventory'.records.length < 2 ^ 64 := by
    obtain ⟨m, -, -, -, -, hcount⟩ := hannounced.frames_eq
    rw [hrecords, hcount]
    exact m.toNat_lt
  refine (plays_refuseIf (not_le.mpr hcount)).bind_silent fun _ d hd => ?_
  subst hd
  refine (plays_ofExcept (a := source) (Q := fun a t => a = source ∧ t = d)
    (mapError_eq_ok.mpr hfile) ⟨rfl, rfl⟩).bind_silent fun a d' hd => ?_
  obtain ⟨rfl, rfl⟩ := hd
  refine (plays_withScanner hsend.mapErr).bind_pure fun _ d hd => ?_
  exact plays_pure hd

end

end Warpfile.V03
