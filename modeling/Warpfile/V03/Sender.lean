import Warpfile.Protocol.Log
import Warpfile.V03.Scanner

/-!
# Sending the chunks of a source

`sendSourceChunksAndCompleteV03` scans the source and writes the chunks that the receiver needs,
then COMPLETE. Its state is a session next to a scanner.

`Emission` says what it may write, whatever the pieces are in which a source is read: for each
chunk that is needed, in order, a CHUNK_START and DATA frames that cover its range.
-/

namespace Warpfile.V03

variable {Γ : Setting}

inductive SenderV03TransferError where
  | sourceScan (error : SourceScanV03Error)
  | frame (error : FrameError)
  | protocol (error : ProtocolIoError)
  | data (error : DataV03Error)
  | dataOffsetOverflow
  | unexpectedMessageType (messageType : MessageType)
  | invalidVerifiedPayload (length : ℕ)
  deriving DecidableEq, Repr

abbrev SenderV03 (Γ : Setting) (α : Type) : Type :=
  Prog (Session Γ × SourceScannerV03) SenderV03TransferError α

/-- A program of the connection. -/
def onStream {ε α : Type} (p : Prog (Session Γ) ε α) : Prog (Session Γ × SourceScannerV03) ε α :=
  fun s =>
    let (o, stream) := p s.1
    (o, stream, s.2)

/-- A call on the scanner. -/
def onScanner {ε α : Type} (p : Prog SourceScannerV03 ε α) :
    Prog (Session Γ × SourceScannerV03) ε α := fun s =>
  let (o, scanner) := p s.2
  (o, s.1, scanner)

/-- Build a frame and write it. -/
def sendV03 (messageType : MessageType) (payload : Bytes) :
    Prog (Session Γ) SenderV03TransferError Unit := do
  let frame ← .ofExcept
    ((Frame.newForVersion wfpVersionV03 messageType payload).mapError .frame)
  (writeFrame frame).mapErr .protocol

def sendFragments : UInt64 → List Bytes → Prog (Session Γ) SenderV03TransferError Unit
  | _, [] => pure ()
  | absoluteOffset, fragment :: fragments => do
    let payload ← .ofExcept ((encodeDataV03 { absoluteOffset, data := fragment }).mapError .data)
    sendV03 .data payload
    let absoluteOffset ← .ofExcept ((checkedAdd absoluteOffset (.ofNat fragment.length)).elim
      (.error .dataOffsetOverflow) .ok)
    sendFragments absoluteOffset fragments

def sendTransmitChunkV03 (chunk : SourceChunkV03) :
    Prog (Session Γ) SenderV03TransferError Unit := do
  sendV03 .chunkStart
    (encodeChunkStartV03 { chunkIndex := chunk.index, expectedHash := chunk.hash })
  sendFragments chunk.offset (pieces (v03MaxDataBytes - 1) chunk.data)

section

variable [Crates]

def sendSourceChunksV03 (reserve : UInt64 → Bool) : SenderV03 Γ SourceScanSummaryV03 := do
  .loop (fun _ s => s.2.layout.chunkCount.toNat - s.2.nextChunkIndex.toNat) (fun () => do
    match ← (onScanner (SourceScannerV03.nextChunk reserve)).mapErr .sourceScan with
    | some chunk =>
      if chunk.disposition = .transmit then onStream (sendTransmitChunkV03 chunk)
      return .inl ()
    | none => return .inr ()) ()
  let s ← get
  .ofExcept (s.2.finish.mapError .sourceScan)

def sendCompleteV03 (summary : SourceScanSummaryV03) :
    Prog (Session Γ) SenderV03TransferError Unit := sendV03 .complete summary.fileHash.1

def sendSourceChunksAndCompleteV03 (reserve : UInt64 → Bool) :
    SenderV03 Γ SourceScanSummaryV03 := do
  let summary ← sendSourceChunksV03 reserve
  onStream (sendCompleteV03 summary)
  return summary

end

/-! ### What may be written -/

def chunkStartFrame (index : UInt64) (hash : ChunkHash) : Frame :=
  ⟨wfpVersionV03, .chunkStart, 0, encodeChunkStartV03 { chunkIndex := index, expectedHash := hash }⟩

def completeFrame (hash : ChunkHash) : Frame := ⟨wfpVersionV03, .complete, 0, hash.1⟩

/-- DATA frames that carry `bytes` from an offset on: none is empty or longer than a frame can
be, and each continues where the one before ends. -/
inductive Carries : ℕ → Bytes → List Frame → Prop
  | nil (offset : ℕ) : Carries offset [] []
  | cons {offset : ℕ} {absoluteOffset : UInt64} {data bytes : Bytes} {frames : List Frame}
      (offset_eq : absoluteOffset.toNat = offset) (ne_nil : data ≠ [])
      (le : data.length ≤ v03MaxDataBytes) (rest : Carries (offset + data.length) bytes frames) :
      Carries offset (data ++ bytes)
        (⟨wfpVersionV03, .data, 0, word absoluteOffset ++ data⟩ :: frames)

section

variable [Crates] (inventory : ReceiverInventoryV03) (bytes : Bytes)

/-- The bytes of a chunk of a source. -/
def chunkBytes (layout : ChunkLayout) (bytes : Bytes) (i : ℕ) : Bytes :=
  (bytes.drop (i * layout.chunkSize.toNat)).take
    (min layout.chunkSize.toNat (layout.fileSize.toNat - i * layout.chunkSize.toNat))

/-- The receiver does not have a chunk: its index is absent from the inventory, or recorded with
another hash. -/
def Needed (i : ℕ) : Prop := ∀ r ∈ inventory.records, r.chunkIndex.toNat = i →
  r.hash ≠ blake3 (chunkBytes inventory.layout bytes i)

open Classical in
/-- **The emission of the first `n` chunks**: those that are needed, in order, each announced by
its index and hash and covered by DATA frames. -/
def Emission (n : ℕ) (frames : List Frame) : Prop :=
  ∃ data : ℕ → List Frame,
    (∀ i < n, Needed inventory bytes i → Carries (i * inventory.layout.chunkSize.toNat)
      (chunkBytes inventory.layout bytes i) (data i)) ∧
    frames = (List.range n).flatMap fun i =>
      if Needed inventory bytes i then
        chunkStartFrame (.ofNat i) (blake3 (chunkBytes inventory.layout bytes i)) :: data i
      else []

end

end Warpfile.V03
