import Warpfile.V03.Preparation
import Warpfile.V03.Scanner

/-!
# Negotiating the inventory

The receiver announces how many records it has and sends them in batches; the sender reads batches
until it has as many and accepts. `Inventory` is what the sender takes for one: batches, none of
them empty, of records in range and in the order of their indices over all batches, as many as were
announced. The sender accepts exactly these (`receiveInventoryAndAccept_exact`), and what the
receiver sends is one.
-/

namespace Warpfile.V03

variable {Γ : Setting}

/-! ### The sender -/

inductive SenderV03NegotiationError where
  | frame (error : FrameError)
  | protocol (error : ProtocolIoError)
  | resume (error : ResumeV03Error)
  | chunkHashes (error : ChunkHashesError)
  | unexpectedMessageType (messageType : MessageType)
  | recordCountExceedsLayout (declared chunkCount : UInt64)
  | emptyChunkHashes
  | recordCountOverflow
  | recordCountOverrun (declared attempted : UInt64)
  | chunkIndexOutOfRange (index : UInt64)
  | nonIncreasingChunkIndex (previous current : UInt64)
  deriving DecidableEq, Repr

/-- The records are in range and in the order of their indices. -/
structure ValidRecords (layout : ChunkLayout) (records : List ChunkHashRecord) : Prop where
  increasing : records.Pairwise fun r r' => r.chunkIndex < r'.chunkIndex
  inRange : ∀ r ∈ records, r.chunkIndex < layout.chunkCount

/-- The checks of the records after `previousIndex`. -/
def checkRecords (layout : ChunkLayout) :
    Option UInt64 → List ChunkHashRecord → Except SenderV03NegotiationError Unit
  | _, [] => .ok ()
  | previousIndex, record :: records => do
    refuseIf (layout.range record.chunkIndex = none) (.chunkIndexOutOfRange record.chunkIndex)
    if let some previous := previousIndex then
      refuseIf (record.chunkIndex ≤ previous)
        (.nonIncreasingChunkIndex previous record.chunkIndex)
    checkRecords layout (some record.chunkIndex) records

theorem validRecords_cons {layout : ChunkLayout} {record : ChunkHashRecord}
    {records : List ChunkHashRecord} : ValidRecords layout (record :: records) ↔
      record.chunkIndex < layout.chunkCount ∧
        (∀ r ∈ records, record.chunkIndex < r.chunkIndex) ∧ ValidRecords layout records := by
  constructor
  · rintro ⟨hinc, hrange⟩
    obtain ⟨h, hinc⟩ := List.pairwise_cons.mp hinc
    obtain ⟨h', hrange⟩ := List.forall_mem_cons.mp hrange
    exact ⟨h', h, hinc, hrange⟩
  · rintro ⟨h', h, hinc, hrange⟩
    exact ⟨List.pairwise_cons.mpr ⟨h, hinc⟩, List.forall_mem_cons.mpr ⟨h', hrange⟩⟩

theorem checkRecords_eq_ok {layout : ChunkLayout} {previousIndex : Option UInt64}
    {records : List ChunkHashRecord} : checkRecords layout previousIndex records = .ok () ↔
      ValidRecords layout records ∧
        ∀ previous ∈ previousIndex, ∀ r ∈ records, previous < r.chunkIndex := by
  induction records generalizing previousIndex with
  | nil => simp [checkRecords, show ValidRecords layout [] from ⟨.nil, by simp⟩]
  | cons record records ih =>
    have hrange : layout.range record.chunkIndex ≠ none ↔ record.chunkIndex < layout.chunkCount := by
      rw [← ChunkLayout.range_isSome, Option.isSome_iff_ne_none]
    rw [checkRecords, validRecords_cons]
    cases previousIndex with
    | none =>
      simp only [bind_eq_ok, refuseIf_eq_ok, ih, Option.mem_def, Option.some.injEq, forall_eq']
      simp [← hrange, and_comm]
    | some previous =>
      simp only [bind_eq_ok, refuseIf_eq_ok, ih, Option.mem_def, Option.some.injEq, forall_eq',
        List.forall_mem_cons, ← hrange, UInt64.not_le]
      constructor
      · rintro ⟨-, h₁, -, h₂, h₃, h₄⟩
        exact ⟨⟨h₁, h₄, h₃⟩, h₂, fun r hr => UInt64.lt_trans h₂ (h₄ r hr)⟩
      · rintro ⟨⟨h₁, h₄, h₃⟩, h₂, -⟩
        exact ⟨(), h₁, (), h₂, h₃, h₄⟩

namespace ReceiverInventoryV03

theorem valid (inventory : ReceiverInventoryV03) :
    ValidRecords inventory.layout inventory.records := ⟨inventory.increasing, inventory.inRange⟩

/-- The index of the last record. -/
def previousIndex (inventory : ReceiverInventoryV03) : Option UInt64 :=
  inventory.records.getLast?.map ChunkHashRecord.chunkIndex

/-- Records that come after all others extend a valid list. -/
theorem validRecords_append {layout : ChunkLayout} {records records' : List ChunkHashRecord}
    (h : ValidRecords layout records) : ValidRecords layout (records ++ records') ↔
      ValidRecords layout records' ∧
        ∀ previous ∈ records.getLast?.map ChunkHashRecord.chunkIndex,
          ∀ r ∈ records', previous < r.chunkIndex := by
  constructor
  · rintro ⟨hinc, hrange⟩
    obtain ⟨-, hinc', hcross⟩ := List.pairwise_append.mp hinc
    refine ⟨⟨hinc', fun r hr => hrange r (List.mem_append_right _ hr)⟩, ?_⟩
    intro previous hp r hr
    obtain ⟨last, hlast, rfl⟩ := Option.map_eq_some_iff.mp hp
    exact hcross last (List.mem_of_getLast? hlast) r hr
  · rintro ⟨⟨hinc', hrange'⟩, hlast⟩
    refine ⟨List.pairwise_append.mpr ⟨h.increasing, hinc', fun r hr r' hr' => ?_⟩, ?_⟩
    · rcases List.eq_nil_or_concat records with rfl | ⟨front, last, rfl⟩
      · exact absurd hr List.not_mem_nil
      · have hlt := hlast last.chunkIndex (by simp) r' hr'
        rw [List.concat_eq_append] at hr h
        rcases List.mem_append.mp hr with hr | hr
        · have hinc := (List.pairwise_append.mp h.increasing).2.2 r hr last (by simp)
          exact UInt64.lt_trans hinc hlt
        · obtain rfl := List.mem_singleton.mp hr
          exact hlt
    · intro r hr
      rcases List.mem_append.mp hr with hr | hr
      · exact h.inRange r hr
      · exact hrange' r hr

/-- Push the records of a batch, each after the one before it. -/
def extend (inventory : ReceiverInventoryV03) (records : List ChunkHashRecord) :
    Except SenderV03NegotiationError ReceiverInventoryV03 :=
  match h : checkRecords inventory.layout inventory.previousIndex records with
  | .ok () =>
    have hvalid := (validRecords_append inventory.valid).mpr (checkRecords_eq_ok.mp h)
    .ok ⟨inventory.layout, inventory.records ++ records, hvalid.increasing, hvalid.inRange⟩
  | .error e => .error e

theorem extend_eq_ok {inventory inventory' : ReceiverInventoryV03} {records : List ChunkHashRecord} :
    inventory.extend records = .ok inventory' ↔ inventory'.layout = inventory.layout ∧
      inventory'.records = inventory.records ++ records := by
  unfold extend
  split
  · rw [Except.ok.injEq]
    constructor
    · rintro rfl
      exact ⟨rfl, rfl⟩
    · obtain ⟨l, r, i, v⟩ := inventory'
      rintro ⟨rfl, rfl⟩
      rfl
  · rename_i e h
    refine ⟨fun h' => by simp at h', ?_⟩
    rintro ⟨hl, hr⟩
    have hvalid := inventory'.valid
    rw [hl, hr, validRecords_append inventory.valid] at hvalid
    exact nomatch h.symm.trans (checkRecords_eq_ok.mpr hvalid)

/-- Nothing is known of the receiver. -/
def empty (layout : ChunkLayout) : ReceiverInventoryV03 := ⟨layout, [], .nil, by simp⟩

end ReceiverInventoryV03

/-- What is known of an inventory while its batches come. -/
structure ReceivedRecords where
  inventory : ReceiverInventoryV03
  received : UInt64

/-- Take the records of one more frame. -/
def takeBatch (declared : UInt64) (s : ReceivedRecords) (frame : Frame) :
    Except SenderV03NegotiationError ReceivedRecords := do
  refuseIf (frame.messageType ≠ .chunkHashes) (.unexpectedMessageType frame.messageType)
  let batch ← (decodeChunkHashes frame.payload).mapError .chunkHashes
  refuseIf (batch.records = []) .emptyChunkHashes
  refuseIf (batch.records.length ≥ 2 ^ 64) .recordCountOverflow
  let total ← (checkedAdd s.received (.ofNat batch.records.length)).elim
    (.error .recordCountOverflow) .ok
  refuseIf (total > declared) (.recordCountOverrun declared total)
  let inventory ← s.inventory.extend batch.records
  return { inventory, received := total }

/-- The number of records that RESUME announces. -/
def declaredRecords (layout : ChunkLayout) (resumeFrame : Frame) :
    Except SenderV03NegotiationError UInt64 := do
  refuseIf (resumeFrame.messageType ≠ .resume) (.unexpectedMessageType resumeFrame.messageType)
  let resume ← (decodeResumeV03 resumeFrame.payload).mapError .resume
  refuseIf (resume.chunkRecordCount > layout.chunkCount)
    (.recordCountExceedsLayout resume.chunkRecordCount layout.chunkCount)
  return resume.chunkRecordCount

def receiveBatches (declared : UInt64) (s : ReceivedRecords) :
    Prog (Session Γ) SenderV03NegotiationError ReceiverInventoryV03 :=
  .loop (fun _ w => w.net.input.length) (fun s => do
    if s.received < declared then
      let frame ← (readFrameForVersion wfpVersionV03).mapErr .protocol
      let s ← .ofExcept (takeBatch declared s frame)
      return .inl s
    else return .inr s.inventory) s

def receiveInventoryAndAcceptAfterResume (layout : ChunkLayout) (resumeFrame : Frame) :
    Prog (Session Γ) SenderV03NegotiationError ReceiverInventoryV03 := do
  let declared ← .ofExcept (declaredRecords layout resumeFrame)
  let inventory ← receiveBatches declared { inventory := .empty layout, received := 0 }
  sendFrameV03 .frame .protocol .accept []
  return inventory

def receiveInventoryAndAccept (layout : ChunkLayout) :
    Prog (Session Γ) SenderV03NegotiationError ReceiverInventoryV03 := do
  let resumeFrame ← (readFrameForVersion wfpVersionV03).mapErr .protocol
  receiveInventoryAndAcceptAfterResume layout resumeFrame

/-! ### What the sender accepts -/

open Prog

/-- The frames of batches, none of which is empty. -/
def Batched (frames : List Frame) (batches : List ChunkHashesBatch) : Prop :=
  List.Forall₂ (fun frame batch => frame = ⟨wfpVersionV03, .chunkHashes, 0, frame.payload⟩ ∧
    encodeChunkHashes batch = .ok frame.payload ∧ batch.records ≠ []) frames batches

/-- The records of batches, one after the other. -/
def concatenation (batches : List ChunkHashesBatch) : List ChunkHashRecord :=
  batches.flatMap ChunkHashesBatch.records

/-- What the sender takes for the rest of an inventory, frame by frame. -/
inductive Continues (declared : UInt64) :
    ReceivedRecords → Bytes → List ChunkHashesBatch → Bytes → Prop
  | done {s : ReceivedRecords} {rest : Bytes} (h : s.received = declared) :
      Continues declared s rest [] rest
  | batch {s s' : ReceivedRecords} {frame : Frame} {batch : ChunkHashesBatch} {input rest : Bytes}
      {batches : List ChunkHashesBatch} (hlt : s.received < declared)
      (ha : frame.header.Acceptable wfpVersionV03) (htake : takeBatch declared s frame = .ok s')
      (hbatch : encodeChunkHashes batch = .ok frame.payload)
      (h : Continues declared s' input batches rest) :
      Continues declared s (frame.encoding ++ input) (batch :: batches) rest

theorem acceptable_eq {frame : Frame} (h : frame.header.Acceptable wfpVersionV03) :
    frame = ⟨wfpVersionV03, frame.messageType, 0, frame.payload⟩ := by
  have hv : frame.version = wfpVersionV03 := h.version_eq
  have hf : frame.flags = 0 := h.flags_eq
  cases frame
  simp_all

theorem acceptable_of_le {messageType : MessageType} {payload : Bytes}
    (hle : payload.length ≤ maxPayloadLength) (hdata : messageType ≠ .data) :
    (⟨wfpVersionV03, messageType, 0, payload⟩ : Frame).header.Acceptable wfpVersionV03 :=
  ⟨rfl, rfl, rfl, rfl, hle, fun h => absurd h hdata⟩

/-- A batch that has an encoding fits a frame. -/
theorem length_of_encodeChunkHashes {batch : ChunkHashesBatch} {payload : Bytes}
    (h : encodeChunkHashes batch = .ok payload) : payload.length ≤ maxPayloadLength := by
  simp only [encodeChunkHashes, bind_eq_ok, refuseIf_eq_ok, pure_eq_ok] at h
  obtain ⟨-, -, -, -, -, hle, rfl⟩ := h
  rw [List.length_append, length_toBE, length_records]
  omega

theorem takeBatch_eq_ok {declared : UInt64} {s s' : ReceivedRecords} {frame : Frame} :
    takeBatch declared s frame = .ok s' ↔ frame.messageType = .chunkHashes ∧
      s'.received ≤ declared ∧ s'.inventory.layout = s.inventory.layout ∧
      ∃ batch, encodeChunkHashes batch = .ok frame.payload ∧ batch.records ≠ [] ∧
        s'.received.toNat = s.received.toNat + batch.records.length ∧
        s'.inventory.records = s.inventory.records ++ batch.records := by
  obtain ⟨inventory', received'⟩ := s'
  simp only [takeBatch, bind_eq_ok, refuseIf_eq_ok, pure_eq_ok, mapError_eq_ok,
    decodeChunkHashes_eq_ok, ReceiverInventoryV03.extend_eq_ok, ReceivedRecords.mk.injEq]
  constructor
  · rintro ⟨-, htype, batch, hbatch, -, hne, -, hlen, total, htotal, -, hle, inventory, ⟨hl, hr⟩,
      rfl, rfl⟩
    have hadd : checkedAdd s.received (.ofNat batch.records.length) = some total := by
      rcases h : checkedAdd s.received (.ofNat batch.records.length) with _ | t
      · simp [h] at htotal
      · simpa [h] using htotal
    rw [checkedAdd_eq_some, UInt64.toNat_ofNat_of_lt' (by rw [UInt64.size]; omega)] at hadd
    exact ⟨not_not.mp htype, UInt64.not_lt.mp hle, hl, batch, hbatch, hne, hadd.symm, hr⟩
  · rintro ⟨htype, hle, hl, batch, hbatch, hne, hsum, hr⟩
    have hlt := received'.toNat_lt
    have hadd : checkedAdd s.received (.ofNat batch.records.length) = some received' := by
      rw [checkedAdd_eq_some, UInt64.toNat_ofNat_of_lt' (by rw [UInt64.size]; omega), hsum]
    exact ⟨(), not_not.mpr htype, batch, hbatch, (), hne, (), by omega, received', by rw [hadd]; rfl,
      (), UInt64.not_lt.mpr hle, inventory', ⟨hl, hr⟩, rfl, rfl⟩

theorem ValidRecords.prefix {layout : ChunkLayout} {records records' : List ChunkHashRecord}
    (h : ValidRecords layout (records ++ records')) : ValidRecords layout records :=
  ⟨(List.pairwise_append.mp h.increasing).1, fun r hr => h.inRange r (List.mem_append_left _ hr)⟩

/-- **The rest of an inventory**, by its batches as a whole. -/
theorem continues_iff {declared : UInt64} {s : ReceivedRecords} {input rest : Bytes}
    {batches : List ChunkHashesBatch} : Continues declared s input batches rest ↔
      ∃ frames, Batched frames batches ∧ input = encodings frames ++ rest ∧
        s.received.toNat + (concatenation batches).length = declared.toNat ∧
        ValidRecords s.inventory.layout (s.inventory.records ++ concatenation batches) := by
  constructor
  · intro h
    induction h with
    | done h =>
      exact ⟨[], .nil, rfl, by simp [concatenation, h], by
        simpa [concatenation] using ReceiverInventoryV03.valid _⟩
    | @batch s s' frame batch input rest batches hlt ha htake hbatch _ ih =>
      obtain ⟨frames, hframes, hin, hsum, hvalid⟩ := ih
      obtain ⟨htype, hle, hl, batch', hbatch', hne, hcount, hrecords⟩ := takeBatch_eq_ok.mp htake
      obtain rfl : batch' = batch := Except.ok.inj <|
        (decodeChunkHashes_eq_ok.mpr hbatch').symm.trans (decodeChunkHashes_eq_ok.mpr hbatch)
      refine ⟨frame :: frames, .cons ⟨?_, hbatch, hne⟩ hframes, ?_, ?_, ?_⟩
      · rw [← htype]
        exact acceptable_eq ha
      · rw [hin, encodings, encodings, List.flatMap_cons, List.append_assoc]
      · rw [concatenation, List.flatMap_cons, List.length_append, ← hsum, hcount, concatenation,
          Nat.add_assoc]
      · rw [hl, hrecords, List.append_assoc] at hvalid
        exact hvalid
  · rintro ⟨frames, hframes, rfl, hsum, hvalid⟩
    induction hframes generalizing s with
    | nil =>
      exact .done (UInt64.toNat_inj.mp (by simpa [concatenation] using hsum))
    | @cons frame batch frames batches hframe _ ih =>
      obtain ⟨hframe, hbatch, hne⟩ := hframe
      have hpos := List.length_pos_iff.mpr hne
      have hlt := declared.toNat_lt
      rw [concatenation, List.flatMap_cons, ← concatenation] at hsum hvalid
      rw [List.length_append] at hsum
      rw [← List.append_assoc] at hvalid
      have hval := hvalid.prefix
      have hnew : (UInt64.ofNat (s.received.toNat + batch.records.length)).toNat =
          s.received.toNat + batch.records.length :=
        UInt64.toNat_ofNat_of_lt' (by rw [UInt64.size]; omega)
      have htake : takeBatch declared s frame = .ok
          ⟨⟨s.inventory.layout, _, hval.increasing, hval.inRange⟩,
            .ofNat (s.received.toNat + batch.records.length)⟩ := by
        refine takeBatch_eq_ok.mpr ⟨by rw [hframe], ?_, rfl, batch, hbatch, hne, hnew, rfl⟩
        rw [UInt64.le_iff_toNat_le, hnew]
        omega
      have ha : frame.header.Acceptable wfpVersionV03 := by
        rw [hframe]
        exact acceptable_of_le (length_of_encodeChunkHashes hbatch) (by simp)
      rw [encodings, List.flatMap_cons, List.append_assoc]
      refine .batch (UInt64.lt_iff_toNat_lt.mpr (by omega)) ha htake hbatch (ih ?_ hvalid)
      rw [hnew, ← hsum, Nat.add_assoc]

/-- Reading a frame, by whether one that is accepted comes next. -/
theorem ensures_readFrame_next {version : UInt8} {w : Session Γ}
    {Q : Outcome ProtocolIoError Frame → Session Γ → Prop}
    (ok : ∀ (frame : Frame) (rest : Bytes), frame.header.Acceptable version →
      w.net.input = frame.encoding ++ rest → Q (.ok frame) (w.afterReading frame rest))
    (none : (∀ (frame : Frame) (rest : Bytes), frame.header.Acceptable version →
      w.net.input ≠ frame.encoding ++ rest) → ∀ o w', (∀ frame, o ≠ .ok frame) →
        w'.net.output = w.net.output → Q o w') :
    (readFrameForVersion version).Ensures w Q := by
  by_cases h : ∃ (frame : Frame) (rest : Bytes), frame.header.Acceptable version ∧
      w.net.input = frame.encoding ++ rest
  · obtain ⟨frame, rest, ha, hin⟩ := h
    exact ensures_of_eq (readFrame_run ha hin) (ok frame rest ha hin)
  · have hnone : ∀ (frame : Frame) (rest : Bytes), frame.header.Acceptable version →
        w.net.input ≠ frame.encoding ++ rest := fun frame rest ha hin => h ⟨frame, rest, ha, hin⟩
    exact ensures_readFrame (fun frame rest ha hin => absurd hin (hnone frame rest ha))
      (fun _ _ => none hnone _ _ (by simp) rfl) (fun _ _ => none hnone _ _ (by simp) rfl)
      fun _ => none hnone _ _ (by simp) rfl

/-- The sender has read an inventory, or there is none in the input. -/
def BatchesRead (declared : UInt64) (s : ReceivedRecords) (w : Session Γ) :
    Outcome SenderV03NegotiationError ReceiverInventoryV03 → Session Γ → Prop :=
  Post
    (fun inventory w' => (∃ batches rest, Continues declared s w.net.input batches rest ∧
      inventory.layout = s.inventory.layout ∧
      inventory.records = s.inventory.records ++ concatenation batches ∧ w'.net.input = rest) ∧
      w'.net.output = w.net.output ∧ w'.net.room = w.net.room)
    (fun _ w' => (¬∃ batches rest, Continues declared s w.net.input batches rest) ∧
      w'.net.output = w.net.output)
    fun w' => (¬∃ batches rest, Continues declared s w.net.input batches rest) ∧
      w'.net.output = w.net.output

/-- While records are missing, the next frame decides. -/
theorem continues_frame {declared : UInt64} {s : ReceivedRecords} {frame : Frame}
    {batches : List ChunkHashesBatch} {input rest : Bytes} (hlt : s.received < declared)
    (ha : frame.header.Acceptable wfpVersionV03) :
    Continues declared s (frame.encoding ++ input) batches rest ↔ ∃ s' batch batches',
      batches = batch :: batches' ∧ takeBatch declared s frame = .ok s' ∧
        encodeChunkHashes batch = .ok frame.payload ∧ Continues declared s' input batches' rest := by
  constructor
  · intro h
    generalize hin : frame.encoding ++ input = bytes at h
    cases h with
    | done h => exact absurd (h ▸ hlt) (UInt64.lt_irrefl _)
    | @batch _ s' frame' batch input' _ batches' _ ha' htake hbatch h =>
      obtain ⟨rfl, rfl⟩ := encoding_append_inj ha ha' hin
      exact ⟨s', batch, batches', rfl, htake, hbatch, h⟩
  · rintro ⟨s', batch, batches', rfl, htake, hbatch, h⟩
    exact .batch hlt ha htake hbatch h

theorem receiveBatches_spec {declared : UInt64} {s : ReceivedRecords} {w : Session Γ}
    (hle : s.received ≤ declared) :
    (receiveBatches declared s).Ensures w (BatchesRead declared s w) := by
  refine Ensures.loop (fun s' w' => s'.received ≤ declared ∧
      ∀ o u, BatchesRead declared s' w' o u → BatchesRead declared s w o u) ?_ ⟨hle, fun _ _ h => h⟩
  rintro s₁ w₁ ⟨hle₁, hfrom⟩
  split_ifs with hlt
  · rw [ensures_bind, ensures_mapErr]
    refine ensures_readFrame_next (fun frame rest ha hin => ?_) fun hnone o w₂ ho hout => ?_
    · rw [post_ok, post_ok, ensures_bind, ensures_ofExcept]
      rcases htake : takeBatch declared s₁ frame with e | s₂
      · refine hfrom (.err e) _ ⟨?_, rfl⟩
        rintro ⟨batches, rest', h⟩
        rw [hin, continues_frame hlt ha] at h
        obtain ⟨s', -, -, -, h, -⟩ := h
        exact nomatch htake.symm.trans h
      · obtain ⟨-, hle₂, hlayout, batch, hbatch, -, -, hrecords⟩ := takeBatch_eq_ok.mp htake
        refine ensures_pure.mpr ⟨⟨hle₂, fun o u h => hfrom o u ?_⟩, ?_⟩
        · -- what follows the batch continues the inventory before it
          have back : (∃ batches rest', Continues declared s₁ w₁.net.input batches rest') →
              ∃ batches rest', Continues declared s₂ rest batches rest' := by
            rintro ⟨batches, rest', h⟩
            rw [hin, continues_frame hlt ha] at h
            obtain ⟨s', -, batches', -, h, -, hc⟩ := h
            obtain rfl := Except.ok.inj (htake.symm.trans h)
            exact ⟨batches', rest', hc⟩
          cases o with
          | ok inventory =>
            obtain ⟨⟨batches, rest', hc, hl, hr, hrest⟩, hout, hroom⟩ := h
            refine ⟨⟨batch :: batches, rest', ?_, hl.trans hlayout, ?_, hrest⟩, hout, hroom⟩
            · rw [hin]
              exact .batch hlt ha htake hbatch hc
            · rw [hr, hrecords, List.append_assoc]
              rfl
          | err e => exact ⟨fun hc => h.1 (back hc), h.2⟩
          | halt => exact ⟨fun hc => h.1 (back hc), h.2⟩
        · have := frame.length_encoding_pos
          rw [hin, List.length_append]
          change rest.length < _
          omega
    · have hno : ¬∃ batches rest, Continues declared s₁ w₁.net.input batches rest := by
        rintro ⟨batches, rest, h⟩
        generalize hin : w₁.net.input = bytes at h
        cases h with
        | done h => exact absurd (h ▸ hlt) (UInt64.lt_irrefl _)
        | batch _ ha => exact hnone _ _ ha hin
      cases o with
      | ok frame => exact absurd rfl (ho frame)
      | err e => exact hfrom (.err (.protocol e)) _ ⟨hno, hout⟩
      | halt => exact hfrom .halt _ ⟨hno, hout⟩
  · have heq : s₁.received = declared := UInt64.le_antisymm hle₁ (UInt64.not_lt.mp hlt)
    rw [ensures_pure]
    exact hfrom (.ok _) _
      ⟨⟨[], w₁.net.input, .done heq, rfl, (List.append_nil _).symm, rfl⟩, rfl, rfl⟩

/-! ### The frames of an inventory -/

def resumeFrame (n : UInt64) : Frame :=
  ⟨wfpVersionV03, .resume, 0, encodeResumeV03 { chunkRecordCount := n }⟩

def acceptFrame : Frame := ⟨wfpVersionV03, .accept, 0, []⟩

theorem acceptable_resumeFrame (n : UInt64) :
    (resumeFrame n).header.Acceptable wfpVersionV03 :=
  acceptable_of_le (by rw [encodeResumeV03, length_word]; decide) (by simp)

theorem resumeFrame_inj {n m : UInt64} (h : resumeFrame n = resumeFrame m) : n = m := by
  have := congrArg (fun frame => ofWord frame.payload) h
  simpa [resumeFrame, encodeResumeV03] using this

/-- **An inventory on the wire**: RESUME with a number of records that the layout has room for, and
batches of as many records, none of them empty, in range and in the order of their indices. -/
structure Inventory (layout : ChunkLayout) (frames : List Frame) (batches : List ChunkHashesBatch) :
    Prop where
  frames_eq : ∃ n hashes, frames = resumeFrame n :: hashes ∧ Batched hashes batches ∧
    n ≤ layout.chunkCount ∧ (concatenation batches).length = n.toNat
  valid : ValidRecords layout (concatenation batches)

theorem declaredRecords_eq_ok {layout : ChunkLayout} {frame : Frame} {n : UInt64} :
    declaredRecords layout frame = .ok n ↔ frame.messageType = .resume ∧
      frame.payload = encodeResumeV03 { chunkRecordCount := n } ∧ n ≤ layout.chunkCount := by
  simp only [declaredRecords, bind_eq_ok, refuseIf_eq_ok, pure_eq_ok, mapError_eq_ok,
    decodeResumeV03_eq_ok]
  constructor
  · rintro ⟨-, htype, ⟨m⟩, hpayload, -, hle, rfl⟩
    exact ⟨not_not.mp htype, hpayload.symm, UInt64.not_lt.mp hle⟩
  · rintro ⟨htype, hpayload, hle⟩
    exact ⟨(), not_not.mpr htype, ⟨n⟩, hpayload.symm, (), UInt64.not_lt.mpr hle, rfl⟩

/-- Building a frame and writing it. -/
theorem sendFrameV03_wrote {ε : Type} {frameError : FrameError → ε}
    {protocolError : ProtocolIoError → ε} {messageType : MessageType} {payload : Bytes}
    {w : Session Γ} (hle : payload.length ≤ maxPayloadLength) (hdata : messageType ≠ .data) :
    (sendFrameV03 frameError protocolError messageType payload).Ensures w (Post
      (fun _ w' => Wrote w [⟨wfpVersionV03, messageType, 0, payload⟩] w')
      (fun e w' => (∃ kind, e = protocolError (.io (.os kind))) ∧
        Broke w [⟨wfpVersionV03, messageType, 0, payload⟩] w') fun _ => False) := by
  have hframe : Frame.newForVersion wfpVersionV03 messageType payload =
      .ok ⟨wfpVersionV03, messageType, 0, payload⟩ := rfl
  rw [sendFrameV03, hframe, ensures_bind, ensures_ofExcept]
  simp only [Except.mapError, post_ok, ensures_mapErr]
  refine (writeFrame_wrote ⟨rfl, rfl, fun h => absurd h hdata, hle⟩).mono fun o w' h => ?_
  cases o with
  | ok => exact h
  | err e =>
    obtain ⟨⟨kind, rfl⟩, h⟩ := h
    exact ⟨⟨kind, rfl⟩, h⟩
  | halt => exact h

/-- What the sender reads and writes: it accepts an inventory, and nothing else. -/
def Negotiated (layout : ChunkLayout) (w : Session Γ) :
    Outcome SenderV03NegotiationError ReceiverInventoryV03 → Session Γ → Prop :=
  Post
    (fun inventory w' => ∃ frames batches rest, Inventory layout frames batches ∧
      w.net.input = encodings frames ++ rest ∧ inventory.layout = layout ∧
      inventory.records = concatenation batches ∧ w'.net.input = rest ∧
      w'.net.output = w.net.output ++ acceptFrame.encoding)
    (fun _ w' => (¬∃ frames batches rest, Inventory layout frames batches ∧
      w.net.input = encodings frames ++ rest) ∧ w'.net.output = w.net.output)
    fun w' => (¬∃ frames batches rest, Inventory layout frames batches ∧
      w.net.input = encodings frames ++ rest) ∧ w'.net.output = w.net.output

/-- An inventory begins with its RESUME, and the batches come after it. -/
theorem Inventory.continues {layout : ChunkLayout} {frames : List Frame}
    {batches : List ChunkHashesBatch} (h : Inventory layout frames batches) (rest : Bytes) :
    ∃ n input, n ≤ layout.chunkCount ∧
      encodings frames ++ rest = (resumeFrame n).encoding ++ input ∧
      Continues n { inventory := .empty layout, received := 0 } input batches rest := by
  obtain ⟨⟨n, hashes, rfl, hhashes, hle, hlen⟩, hvalid⟩ := h
  refine ⟨n, encodings hashes ++ rest, hle, ?_, continues_iff.mpr
    ⟨hashes, hhashes, rfl, by simpa using hlen, hvalid⟩⟩
  rw [encodings, encodings, List.flatMap_cons, List.append_assoc]

theorem inventory_iff {layout : ChunkLayout} {n : UInt64} {rest : Bytes}
    (hle : n ≤ layout.chunkCount) :
    (∃ frames batches rest', Inventory layout frames batches ∧
      (resumeFrame n).encoding ++ rest = encodings frames ++ rest') ↔
    ∃ batches rest', Continues n { inventory := .empty layout, received := 0 } rest batches rest' := by
  constructor
  · rintro ⟨frames, batches, rest', hinv, hin⟩
    obtain ⟨m, input, -, heq, hc⟩ := hinv.continues rest'
    obtain ⟨hframe, rfl⟩ := encoding_append_inj (acceptable_resumeFrame n)
      (acceptable_resumeFrame m) (hin.trans heq)
    obtain rfl := resumeFrame_inj hframe
    exact ⟨batches, rest', hc⟩
  · rintro ⟨batches, rest', h⟩
    obtain ⟨hashes, hhashes, rfl, hlen, hvalid⟩ := continues_iff.mp h
    refine ⟨resumeFrame n :: hashes, batches, rest', ⟨⟨n, hashes, rfl, hhashes, hle,
      by simpa using hlen⟩, hvalid⟩, ?_⟩
    rw [encodings, encodings, List.flatMap_cons, List.append_assoc]

/-- The input tells where the batches are, and what they are. -/
theorem Continues.unique {declared : UInt64} {s : ReceivedRecords} {input rest rest' : Bytes}
    {batches batches' : List ChunkHashesBatch} (h : Continues declared s input batches rest)
    (h' : Continues declared s input batches' rest') : batches = batches' ∧ rest = rest' := by
  induction h generalizing batches' with
  | done heq =>
    cases h' with
    | done => exact ⟨rfl, rfl⟩
    | batch hlt => exact absurd (heq ▸ hlt) (UInt64.lt_irrefl _)
  | batch hlt ha htake hbatch _ ih =>
    obtain ⟨s₂, batch₂, batches₂, rfl, htake₂, hbatch₂, hc⟩ := (continues_frame hlt ha).mp h'
    obtain rfl := Except.ok.inj (htake.symm.trans htake₂)
    obtain rfl := Except.ok.inj <| (decodeChunkHashes_eq_ok.mpr hbatch).symm.trans
      (decodeChunkHashes_eq_ok.mpr hbatch₂)
    obtain ⟨rfl, rfl⟩ := ih hc
    exact ⟨rfl, rfl⟩

theorem Inventory.unique {layout : ChunkLayout} {frames frames' : List Frame}
    {batches batches' : List ChunkHashesBatch} {rest rest' : Bytes}
    (h : Inventory layout frames batches) (h' : Inventory layout frames' batches')
    (heq : encodings frames ++ rest = encodings frames' ++ rest') :
    batches = batches' ∧ rest = rest' := by
  obtain ⟨n, input, -, hin, hc⟩ := h.continues rest
  obtain ⟨n', input', -, hin', hc'⟩ := h'.continues rest'
  obtain ⟨hframe, rfl⟩ := encoding_append_inj (acceptable_resumeFrame n)
    (acceptable_resumeFrame n') (hin.symm.trans (heq.trans hin'))
  obtain rfl := resumeFrame_inj hframe
  exact hc.unique hc'

/-- Every frame of an inventory has an encoding. -/
theorem Inventory.acceptable {layout : ChunkLayout} {frames : List Frame}
    {batches : List ChunkHashesBatch} (h : Inventory layout frames batches) {frame : Frame}
    (hframe : frame ∈ frames) : frame.header.Acceptable wfpVersionV03 := by
  obtain ⟨n, hashes, rfl, hhashes, -, -⟩ := h.frames_eq
  rcases List.mem_cons.mp hframe with rfl | hframe
  · exact acceptable_resumeFrame n
  · clear h
    induction hhashes with
    | nil => exact absurd hframe List.not_mem_nil
    | cons hhead _ ih =>
      rcases List.mem_cons.mp hframe with rfl | hframe
      · rw [hhead.1]
        exact acceptable_of_le (length_of_encodeChunkHashes hhead.2.1) (by simp)
      · exact ih (List.mem_cons_of_mem _ hframe) hframe

theorem receiveInventoryAndAccept_exact {layout : ChunkLayout} {w : Session Γ}
    (hroom : w.net.room = none) :
    (receiveInventoryAndAccept layout).Ensures w (Negotiated layout w) := by
  have hstarts {frames : List Frame} {batches : List ChunkHashesBatch}
      (h : Inventory layout frames batches) : ∃ n hashes, n ≤ layout.chunkCount ∧
        frames = resumeFrame n :: hashes := by
    obtain ⟨n, hashes, hf, -, hle, -⟩ := h.frames_eq
    exact ⟨n, hashes, hle, hf⟩
  rw [receiveInventoryAndAccept, ensures_bind, ensures_mapErr]
  refine ensures_readFrame_next (fun frame rest ha hin => ?_) fun hnone o w₁ ho hout => ?_
  swap
  · have hno : ¬∃ frames batches rest, Inventory layout frames batches ∧
        w.net.input = encodings frames ++ rest := by
      rintro ⟨frames, batches, rest, hinv, hin⟩
      obtain ⟨n, hashes, -, rfl⟩ := hstarts hinv
      rw [encodings, List.flatMap_cons, List.append_assoc] at hin
      exact hnone _ _ (acceptable_resumeFrame n) hin
    cases o with
    | ok frame => exact absurd rfl (ho frame)
    | err e => exact ⟨hno, hout⟩
    | halt => exact ⟨hno, hout⟩
  rw [post_ok, post_ok, receiveInventoryAndAcceptAfterResume, ensures_bind, ensures_ofExcept]
  rcases hdeclared : declaredRecords layout frame with e | n
  · refine ⟨?_, rfl⟩
    rintro ⟨frames, batches, rest', hinv, hin'⟩
    obtain ⟨n, hashes, hle, rfl⟩ := hstarts hinv
    rw [hin, encodings, List.flatMap_cons, List.append_assoc] at hin'
    obtain ⟨rfl, -⟩ := encoding_append_inj ha (acceptable_resumeFrame n) hin'
    cases hdeclared.symm.trans (declaredRecords_eq_ok.mpr ⟨rfl, rfl, hle⟩)
  obtain ⟨htype, hpayload, hle⟩ := declaredRecords_eq_ok.mp hdeclared
  obtain rfl : frame = resumeFrame n := by
    rw [acceptable_eq ha, htype, hpayload]
    rfl
  have hno (h : ¬∃ batches rest', Continues n { inventory := .empty layout, received := 0 } rest
      batches rest') : ¬∃ frames batches rest, Inventory layout frames batches ∧
        w.net.input = encodings frames ++ rest := by
    rw [hin, inventory_iff hle]
    exact h
  refine Ensures.bind (receiveBatches_spec (UInt64.le_iff_toNat_le.mpr (by simp)))
    (fun inventory w₂ h => ?_) (fun e w₂ h => ⟨hno h.1, h.2⟩) fun w₂ h => ⟨hno h.1, h.2⟩
  obtain ⟨⟨batches, rest', hc, hlayout, hrecords, hrest⟩, hout, hroom₂⟩ := h
  have hroom₂ : w₂.net.room = none := hroom₂.trans hroom
  refine Ensures.bind (sendFrameV03_wrote (by simp) (by simp)) (fun _ w₃ h => ?_)
    (fun e w₃ h => absurd hroom₂ h.2.room) fun w₃ h => h.elim
  obtain ⟨hashes, hhashes, hrest', hlen, hvalid⟩ := continues_iff.mp hc
  rw [ensures_pure]
  refine ⟨resumeFrame n :: hashes, batches, rest', ⟨⟨n, hashes, rfl, hhashes, hle,
    by simpa using hlen⟩, hvalid⟩, ?_, hlayout, hrecords, h.input.trans hrest, ?_⟩
  · have hrest' : rest = encodings hashes ++ rest' := hrest'
    rw [hin, hrest', encodings, encodings, List.flatMap_cons, List.append_assoc]
  · rw [h.output, hout, encodings, List.flatMap_cons, List.flatMap_nil, List.append_nil]
    rfl

/-! ### What the receiver sends -/

/-- What `prepareReceiverV03` makes of a state. -/
def advertised (path : Path) (file : File) (state : ChunkState) (identity : TransferIdentity) :
    PreparedReceiverV03 where
  partialPath := path
  file := file
  receiver := .new state
  resume := { chunkRecordCount := .ofNat state.chunks.length }
  chunkHashBatches := chunkHashBatches state
  identity := identity

theorem concatenation_chunkHashBatches (state : ChunkState) :
    concatenation (chunkHashBatches state) = state.chunks.map chunkHashRecord := by
  rw [concatenation, chunkHashBatches, List.flatMap_map]
  conv_rhs => rw [← flatten_pieces (maximumChunkHashRecordsPerBatch - 1) state.chunks,
    List.map_flatten]
  rfl

theorem validRecords_chunks (state : ChunkState) :
    ValidRecords state.layout (state.chunks.map chunkHashRecord) where
  increasing := by
    rw [List.pairwise_map]
    exact state.valid.increasing.imp fun h => UInt64.lt_iff_toNat_lt.mpr h
  inRange r hr := by
    obtain ⟨c, hc, rfl⟩ := List.mem_map.mp hr
    exact UInt64.lt_iff_toNat_lt.mpr (state.valid.inRange c hc)

/-- A batch of at most the maximal number of records has an encoding. -/
theorem encodeChunkHashes_of_le {records : List ChunkHashRecord}
    (h : records.length ≤ maximumChunkHashRecordsPerBatch) :
    ∃ payload, encodeChunkHashes { records } = .ok payload := by
  refine ⟨toBE 4 records.length ++ records.flatMap ChunkHashRecord.encoding, ?_⟩
  have hmax : maximumChunkHashRecordsPerBatch = 26214 := by decide
  simp only [encodeChunkHashes, bind_eq_ok, refuseIf_eq_ok, pure_eq_ok, chunkHashRecordLength,
    maxPayloadLength]
  exact ⟨(), by omega, (), by omega, (), by omega, trivial⟩

theorem batched_chunkHashBatches (state : ChunkState) :
    ∃ frames, Batched frames (chunkHashBatches state) := by
  have main (batches : List (List RecordedChunk)) (h : ∀ records ∈ batches, records ≠ [] ∧
      records.length ≤ maximumChunkHashRecordsPerBatch) :
      ∃ frames, Batched frames (batches.map fun records =>
        { records := records.map chunkHashRecord }) := by
    induction batches with
    | nil => exact ⟨[], .nil⟩
    | cons records batches ih =>
      obtain ⟨⟨hne, hle⟩, hrest⟩ := List.forall_mem_cons.mp h
      obtain ⟨frames, hframes⟩ := ih hrest
      obtain ⟨payload, hpayload⟩ := encodeChunkHashes_of_le
        (show (records.map chunkHashRecord).length ≤ _ by rwa [List.length_map])
      exact ⟨⟨wfpVersionV03, .chunkHashes, 0, payload⟩ :: frames,
        .cons ⟨rfl, hpayload, by simpa using hne⟩ hframes⟩
  refine main _ fun records hr => ?_
  obtain ⟨hne, hle⟩ := mem_pieces hr
  exact ⟨hne, hle.trans (by decide)⟩

theorem sendBatches_wrote {frames : List Frame} {batches : List ChunkHashesBatch}
    (h : Batched frames batches) {w : Session Γ} : (sendBatches batches).Ensures w (Post
      (fun _ w' => Wrote w frames w') (fun _ w' => Broke w frames w') fun _ => False) := by
  induction h generalizing w with
  | nil => exact ensures_pure.mpr .refl
  | @cons frame batch frames batches hframe _ ih =>
    obtain ⟨hframe, hbatch, -⟩ := hframe
    obtain ⟨version, messageType, flags, payload⟩ := frame
    simp only [Frame.mk.injEq] at hframe
    obtain ⟨rfl, rfl, rfl, -⟩ := hframe
    rw [sendBatches, ensures_bind, ensures_ofExcept, hbatch]
    simp only [Except.mapError, post_ok]
    refine Ensures.bind (sendFrameV03_wrote (length_of_encodeChunkHashes hbatch) (by simp))
      (fun _ w₁ h₁ => ?_) (fun e w₁ h₁ => h₁.2.append frames) fun _ h₁ => h₁
    refine ih.mono fun o w₂ h₂ => ?_
    cases o with
    | ok => exact h₁.trans h₂
    | err e => exact h₁.broke h₂
    | halt => exact h₂

/-- The frames that the receiver sends are an inventory of its records. -/
theorem inventory_advertised (state : ChunkState) :
    ∃ frames, Inventory state.layout frames (chunkHashBatches state) := by
  obtain ⟨hashes, hhashes⟩ := batched_chunkHashBatches state
  have hle := state.valid.length_le
  have hlt := state.layout.chunkCount.toNat_lt
  have hcount : (UInt64.ofNat state.chunks.length).toNat = state.chunks.length :=
    UInt64.toNat_ofNat_of_lt' (by rw [UInt64.size]; omega)
  refine ⟨resumeFrame (.ofNat state.chunks.length) :: hashes, ⟨_, hashes, rfl, hhashes, ?_, ?_⟩, ?_⟩
  · rwa [UInt64.le_iff_toNat_le, hcount]
  · rw [concatenation_chunkHashBatches, List.length_map, hcount]
  · rw [concatenation_chunkHashBatches]
    exact validRecords_chunks state

theorem negotiateInventory_spec {state : ChunkState} {path : Path} {file : File}
    {identity : TransferIdentity} {frames : List Frame} {disk : Disk Γ}
    {closing : Option ErrorKind} {output rest : Bytes} {log : List (NetEvent × Fs)}
    (h : Inventory state.layout frames (chunkHashBatches state)) :
    (negotiateInventory (advertised path file state identity)).Ensures
      ⟨disk, ⟨acceptFrame.encoding ++ rest, closing, output, none⟩, log⟩ (Post
        (fun accepted w' => accepted = ⟨path, file, .new state, identity⟩ ∧
          w'.disk = disk ∧ w'.net.input = rest ∧ w'.net.output = output ++ encodings frames)
        (fun _ _ => False) fun _ => False) := by
  obtain ⟨n, hashes, rfl, hhashes, -, hlen⟩ := h.frames_eq
  obtain rfl : UInt64.ofNat state.chunks.length = n := by
    rw [concatenation_chunkHashBatches, List.length_map] at hlen
    rw [hlen, UInt64.ofNat_toNat]
  refine Ensures.bind (sendFrameV03_wrote (acceptable_resumeFrame _).payload (by simp))
    (fun _ w₁ h₁ => ?_) (fun e w₁ h₁ => absurd rfl h₁.2.room) fun _ h₁ => h₁
  refine Ensures.bind (sendBatches_wrote hhashes) (fun _ w₂ h₂ => ?_)
    (fun e w₂ h₂ => absurd (h₁.room rfl) h₂.room) fun _ h₂ => h₂
  have hwrote := h₁.trans h₂
  have haccept : acceptFrame.header.Acceptable wfpVersionV03 :=
    acceptable_of_le (by simp) (by simp)
  rw [ensures_bind, ensures_mapErr]
  refine ensures_of_eq (readFrame_run haccept hwrote.input) ?_
  simp only [post_ok]
  rw [if_neg (by simp [acceptFrame]), if_neg (by simp [acceptFrame]), ensures_pure]
  exact ⟨rfl, hwrote.disk, rfl, hwrote.output⟩

/-! ### Agreement -/

/-- **The two sides agree on the inventory.** What a receiver prepares are the records of its
state. For every state, its RESUME and batches have encodings; the receiver writes them, and is
content with ACCEPT; the sender takes them for exactly the records of the state, in order, and
writes ACCEPT. And whatever bytes a sender reads, it accepts exactly the inventories among them:
what it takes depends on the records alone and not on the batches, and it reads nothing after
them. -/
theorem inventory_agreement [Crates] {faults crashes : Bool} :
    (∀ (d : Disk (.alone faults crashes)) (dest : Path) (offer : FileOfferV03),
      (prepareReceiverV03 (partialPath dest offer.filename) offer).Ensures d (Post
        (fun prepared _ => prepared = advertised (partialPath dest offer.filename) prepared.file
          prepared.receiver.chunkState ⟨offer.transferId, offer.filename⟩)
        (fun _ _ => True) fun _ => True)) ∧
    (∀ (state : ChunkState) (path : Path) (file : File) (identity : TransferIdentity),
      ∃ frames, Inventory state.layout frames (chunkHashBatches state) ∧
        frames.Forall (fun frame => frame.Encodable ∧ frame.payload.length ≤ maxPayloadLength) ∧
        ∀ (disk : Disk Γ) closing output rest log,
          (negotiateInventory (advertised path file state identity)).Ensures
            ⟨disk, ⟨acceptFrame.encoding ++ rest, closing, output, none⟩, log⟩ (Post
              (fun accepted w' => accepted = ⟨path, file, .new state, identity⟩ ∧
                w'.disk = disk ∧ w'.net.input = rest ∧
                w'.net.output = output ++ encodings frames) (fun _ _ => False) fun _ => False) ∧
          (receiveInventoryAndAccept state.layout).Ensures
            (⟨disk, ⟨encodings frames ++ rest, closing, output, none⟩, log⟩ : Session Γ) (Post
              (fun inventory w' => inventory.layout = state.layout ∧
                inventory.records = state.chunks.map chunkHashRecord ∧ w'.net.input = rest ∧
                w'.net.output = output ++ acceptFrame.encoding)
              (fun _ _ => False) fun _ => False)) ∧
    ∀ (layout : ChunkLayout) (disk : Disk Γ) input closing output log,
      (receiveInventoryAndAccept layout).Ensures
        (⟨disk, ⟨input, closing, output, none⟩, log⟩ : Session Γ)
        (Negotiated layout ⟨disk, ⟨input, closing, output, none⟩, log⟩) := by
  refine ⟨fun d dest offer => ?_, fun state path file identity => ?_,
    fun layout disk input closing output log => receiveInventoryAndAccept_exact rfl⟩
  · refine (prepareReceiverV03_spec partialPath_ne_nil).mono fun o d' h => ?_
    cases o with
    | ok prepared =>
      obtain ⟨path, file, receiver, resume, batches, identity⟩ := prepared
      obtain ⟨hpath, hidentity, -, -, hfresh, -, hresume, hbatches, -, -⟩ := h
      simp only at hpath hidentity hfresh hresume hbatches
      subst hpath hidentity hresume hbatches
      exact congrArg (PreparedReceiverV03.mk _ _ · _ _ _) hfresh
    | err => trivial
    | halt => trivial
  · obtain ⟨frames, hinv⟩ := inventory_advertised state
    refine ⟨frames, hinv, List.forall_iff_forall_mem.mpr fun frame hframe => ?_,
      fun disk closing output rest log => ⟨?_, ?_⟩⟩
    · have ha := hinv.acceptable hframe
      exact ⟨ha.encodable, ha.payload⟩
    · exact negotiateInventory_spec hinv
    · refine (receiveInventoryAndAccept_exact rfl).mono fun o w' h => ?_
      cases o with
      | ok inventory =>
        obtain ⟨frames', batches, rest', hinv', hin, hlayout, hrecords, hrest, hout⟩ := h
        obtain ⟨rfl, rfl⟩ := hinv.unique hinv' hin
        exact ⟨hlayout, hrecords.trans (concatenation_chunkHashBatches state), hrest, hout⟩
      | err e => exact h.1 ⟨frames, _, rest, hinv, rfl⟩
      | halt => exact h.1 ⟨frames, _, rest, hinv, rfl⟩

end Warpfile.V03
