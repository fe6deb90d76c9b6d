import Warpfile.V03.Emission
import Warpfile.V03.Inventory

/-!
# A session of the sender of WFP/0.3

`sendSessionV03WithStream` offers a file over one connection. An offer that was settled before is
answered with VERIFIED; else the receiver announces its inventory, and the sender opens the file,
sends the chunks that the inventory lacks and COMPLETE, and waits for VERIFIED.
-/

namespace Warpfile.V03

variable {Γ : Setting}

/-! ### Errors -/

def v03IsRetryableNetworkKind : ErrorKind → Bool
  | .connectionRefused | .connectionReset | .connectionAborted | .notConnected | .brokenPipe
  | .timedOut | .unexpectedEof | .interrupted | .writeZero => true
  | _ => false

def v03IsRetryableProtocol : ProtocolIoError → Bool
  | .io error => v03IsRetryableNetworkKind error.kind
  | .decode _ | .encode _ => false

def SenderV03NegotiationError.isRetryable : SenderV03NegotiationError → Bool
  | .protocol error => v03IsRetryableProtocol error
  | _ => false

def SenderV03TransferError.isRetryable : SenderV03TransferError → Bool
  | .protocol error => v03IsRetryableProtocol error
  | _ => false

inductive SenderV03SessionError where
  | connect (error : IoError)
  | source (error : IoError)
  | notARegularFile
  | invalidFilename
  | frame (error : FrameError)
  | protocol (error : ProtocolIoError)
  | offer (error : OfferV03Error)
  | negotiation (error : SenderV03NegotiationError)
  | transfer (error : SenderV03TransferError)
  | unexpectedMessageType (messageType : MessageType)
  | invalidHelloAckPayload (length : ℕ)
  | verifiedChunkCountOverflow (count : ℕ)
  deriving DecidableEq, Repr

def SenderV03SessionError.isRetryable : SenderV03SessionError → Bool
  | .connect error => v03IsRetryableNetworkKind error.kind
  | .protocol error => v03IsRetryableProtocol error
  | .negotiation error => error.isRetryable
  | .transfer error => error.isRetryable
  | _ => false

/-! ### The source -/

/-- What the file system tells of the source. -/
structure SourceMetadata where
  isFile : Bool
  len : UInt64

/-- What a session finds at the path of the source. -/
structure SourcePath where
  metadata : Except IoError SourceMetadata
  /-- the last part of the path, where it is valid UTF-8 -/
  fileName : Option String
  /-- what opening the file gives -/
  file : Except IoError Source

abbrev NonZeroU64 : Type := { n : UInt64 // n ≠ 0 }

/-- A program next to a scanner, which is dropped afterwards. -/
def withScanner {ε α : Type} (scanner : SourceScannerV03)
    (p : Prog (Session Γ × SourceScannerV03) ε α) : Prog (Session Γ) ε α := fun w =>
  let (o, w', _) := p (w, scanner)
  (o, w')

/-! ### A session -/

section

variable [Crates]

def sendSourceChunksCompleteAndVerifyV03 (reserve : UInt64 → Bool) :
    SenderV03 Γ SourceScanSummaryV03 := do
  let summary ← sendSourceChunksAndCompleteV03 reserve
  let verified ← onStream ((readFrameForVersion wfpVersionV03).mapErr .protocol)
  .ofExcept (refuseIf (verified.messageType ≠ .verified)
    (.unexpectedMessageType verified.messageType))
  .ofExcept (refuseIf (verified.payload ≠ []) (.invalidVerifiedPayload verified.payload.length))
  return summary

/-- Greet the receiver and offer it the file. -/
def sendOfferV03 (offer : FileOfferV03) : Prog (Session Γ) SenderV03SessionError Unit := do
  sendFrameV03 .frame .protocol .hello [wfpVersionV03]
  let helloAck ← (readFrameForVersion wfpVersionV03).mapErr .protocol
  .ofExcept (refuseIf (helloAck.messageType ≠ .helloAck)
    (.unexpectedMessageType helloAck.messageType))
  .ofExcept (refuseIf (helloAck.payload ≠ [wfpVersionV03])
    (.invalidHelloAckPayload helloAck.payload.length))
  let offerPayload ← .ofExcept ((encodeOfferV03 offer).mapError .offer)
  sendFrameV03 .frame .protocol .offer offerPayload

/-- What the answer to the offer asks for. -/
def answerOfferV03 (reserve : UInt64 → Bool) (file : Except IoError Source) (layout : ChunkLayout)
    (offerResponse : Frame) : Prog (Session Γ) SenderV03SessionError Unit := do
  if offerResponse.messageType = .verified then
    .ofExcept (refuseIf (offerResponse.payload ≠ [])
      (.transfer (.invalidVerifiedPayload offerResponse.payload.length)))
  else
    let inventory ← (receiveInventoryAndAcceptAfterResume layout offerResponse).mapErr .negotiation
    .ofExcept (refuseIf (inventory.records.length ≥ 2 ^ 64)
      (.verifiedChunkCountOverflow inventory.records.length))
    let file ← .ofExcept (file.mapError .source)
    let _ ← withScanner (.new file inventory)
      ((sendSourceChunksCompleteAndVerifyV03 reserve).mapErr .transfer)

def sendSessionV03WithStream (reserve : UInt64 → Bool) (path : SourcePath) (transferId : TransferId)
    (chunkSize : NonZeroU64) : Prog (Session Γ) SenderV03SessionError Unit := do
  let metadata ← .ofExcept (path.metadata.mapError .source)
  .ofExcept (refuseIf (!metadata.isFile) .notARegularFile)
  let filename ← .ofExcept (path.fileName.elim (.error .invalidFilename) .ok)
  let fileSize := metadata.len
  sendOfferV03 { transferId, filename, fileSize, chunkSize := chunkSize.1 }
  match ChunkLayout.new fileSize chunkSize.1 with
  -- `expect("chunk size is non-zero")`
  | .error _ => .stop
  | .ok layout =>
    let offerResponse ← (readFrameForVersion wfpVersionV03).mapErr .protocol
    answerOfferV03 reserve path.file layout offerResponse

/-- `connected` is how connecting to the receiver went. -/
def sendSessionV03 (reserve : UInt64 → Bool) (path : SourcePath) (connected : Except IoError Unit)
    (transferId : TransferId) (chunkSize : NonZeroU64) :
    Prog (Session Γ) SenderV03SessionError Unit := do
  .ofExcept (connected.mapError .connect)
  sendSessionV03WithStream reserve path transferId chunkSize

end

/-! ### Lifting -/

theorem ensures_withScanner {ε α : Type} {scanner : SourceScannerV03} {w : Session Γ}
    {p : Prog (Session Γ × SourceScannerV03) ε α} {Q : Outcome ε α → Session Γ → Prop} :
    (withScanner scanner p).Ensures w Q ↔ p.Ensures (w, scanner) fun o s => Q o s.1 := by
  unfold Prog.Ensures
  rfl

end Warpfile.V03
