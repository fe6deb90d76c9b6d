import Warpfile.Protocol.Log
import Warpfile.Storage.CompletionReceipt
import Warpfile.V03.ChunkReceiver

/-!
# The receiver of WFP/0.3

`receiveSessionV03` serves one session: an offer is settled by its receipt, or the partial file is
prepared, the inventory negotiated, the chunks received, and the whole file verified and published.
-/

namespace Warpfile.V03

variable {Γ : Setting}

/-! ### Errors -/

inductive ReceiverV03PreparationError where
  | chunkLayout (error : ChunkLayoutError)
  | chunkState (error : ChunkStateError)
  | receiver (error : ReceiverV03Error)
  deriving DecidableEq, Repr

inductive ReceiverV03VerificationError where
  | io (error : IoError)
  | fileSizeMismatch (expected actual : ℕ)
  | fileHashMismatch
  deriving DecidableEq, Repr

inductive ReceiverV03FinalizeError where
  | verification (error : ReceiverV03VerificationError)
  | invalidPartialPath (path : Path)
  | receipt (error : CompletionReceiptError)
  | destinationExists (path : Path)
  | io (error : IoError)
  deriving DecidableEq, Repr

inductive ReceiverV03CompleteError where
  | finalize (error : ReceiverV03FinalizeError)
  | frame (error : FrameError)
  | protocol (error : ProtocolIoError)
  deriving DecidableEq, Repr

inductive ReceiverV03ReconcileError where
  | io (error : IoError)
  | protocol (error : ProtocolIoError)
  | frame (error : FrameError)
  | receipt (error : CompletionReceiptError)
  | invalidFilename
  | conflictingReceipt
  | destinationExists (path : Path)
  deriving DecidableEq, Repr

inductive ReceiverV03TransferError where
  | protocol (error : ProtocolIoError)
  | chunkStart (error : ChunkStartV03Error)
  | data (error : DataV03Error)
  | receiver (error : ReceiverV03Error)
  | unexpectedMessageType (messageType : MessageType)
  | invalidCompletePayload (length : ℕ)
  | completeWhileChunkActive (index : UInt64)
  | completeWhileChunkPendingPersistence (index : UInt64)
  | verifiedChunkCountOverflow (count : ℕ)
  | incompleteVerifiedCoverage (expected actual : UInt64)
  deriving DecidableEq, Repr

inductive ReceiverV03NegotiationError where
  | frame (error : FrameError)
  | chunkHashes (error : ChunkHashesError)
  | protocol (error : ProtocolIoError)
  | invalidAcceptPayload (length : ℕ)
  | unexpectedMessageType (messageType : MessageType)
  deriving DecidableEq, Repr

inductive ReceiverV03SessionError where
  | io (error : IoError)
  | frame (error : FrameError)
  | protocol (error : ProtocolIoError)
  | offer (error : OfferV03Error)
  | unexpectedMessageType (messageType : MessageType)
  | invalidHelloPayload (length : ℕ)
  | reconcile (error : ReceiverV03ReconcileError)
  | preparation (error : ReceiverV03PreparationError)
  | negotiation (error : ReceiverV03NegotiationError)
  | transfer (error : ReceiverV03TransferError)
  | complete (error : ReceiverV03CompleteError)
  deriving DecidableEq, Repr

inductive ReceiverV03ReconcileOutcome where
  | reconciled (path : Path)
  | notReconciled
  deriving DecidableEq, Repr

inductive ReceiverV03SessionOutcome where
  | reconciled (path : Path)
  | completed (path : Path)
  deriving DecidableEq, Repr

/-! ### Preparing -/

/-- Open the partial file, and say whether it existed. -/
def openV03PartialFile (partialPath : Path) : Prog (Disk Γ) IoError (File × Bool) := do
  match ← (Storage.openPromotable partialPath true true false false).attempt with
  | .ok file => return (file, true)
  | .error error =>
    if error.kind = .notFound then
      let file ← Storage.openPromotable partialPath true true false true
      return (file, false)
    else throw error

def prepareV03PartialFile (partialPath : Path) (fileSize : UInt64) :
    Prog (Disk Γ) ReceiverV03Error File := do
  let (file, existed) ← (openV03PartialFile partialPath).mapErr .io
  let metadata ← file.metadata.mapErr .io
  if !metadata.isFile then throw .partialNotRegularFile
  else if !existed || metadata.len ≠ fileSize.toNat then
    (file.setLen fileSize.toNat).mapErr .io
    return file
  else return file

structure TransferIdentity where
  transferId : TransferId
  filename : String
  deriving DecidableEq, Repr

structure PreparedReceiverV03 where
  partialPath : Path
  file : File
  receiver : ChunkReceiverV03
  resume : ResumeRequestV03
  chunkHashBatches : List ChunkHashesBatch
  identity : TransferIdentity

structure AcceptedReceiverV03 where
  partialPath : Path
  file : File
  receiver : ChunkReceiverV03
  identity : TransferIdentity

structure ReceivedCompleteV03 where
  file : File
  partialPath : Path
  receiver : ChunkReceiverV03
  senderFileHash : ChunkHash
  identity : TransferIdentity

abbrev maximumChunkHashRecordsPerBatch : ℕ := (maxPayloadLength - 4) / chunkHashRecordLength

def chunkHashRecord (record : RecordedChunk) : ChunkHashRecord where
  chunkIndex := record.index
  hash := record.hash

def chunkHashBatches (chunkState : ChunkState) : List ChunkHashesBatch :=
  (pieces (maximumChunkHashRecordsPerBatch - 1) chunkState.chunks).map fun records =>
    { records := records.map chunkHashRecord }

def prepareReceiverV03 [Crates] (partialPath : Path) (offer : FileOfferV03) :
    Prog (Disk Γ) ReceiverV03PreparationError PreparedReceiverV03 := do
  let layout ← .ofExcept ((ChunkLayout.new offer.fileSize offer.chunkSize).mapError .chunkLayout)
  let chunkState ← (prepareChunkInventory partialPath layout).mapErr .chunkState
  let file ← (prepareV03PartialFile partialPath offer.fileSize).mapErr .receiver
  let receiver := ChunkReceiverV03.new chunkState
  let chunkRecordCount := UInt64.ofNat receiver.chunkState.chunks.length
  return {
    partialPath
    file
    receiver
    resume := { chunkRecordCount }
    chunkHashBatches := chunkHashBatches receiver.chunkState
    identity := { transferId := offer.transferId, filename := offer.filename } }

/-! ### Negotiating -/

/-- Build a frame and write it. -/
def sendFrameV03 {ε : Type} (frameError : FrameError → ε) (protocolError : ProtocolIoError → ε)
    (messageType : MessageType) (payload : Bytes) : Prog (Session Γ) ε Unit := do
  let frame ← .ofExcept
    ((Frame.newForVersion wfpVersionV03 messageType payload).mapError frameError)
  (writeFrame frame).mapErr protocolError

def sendBatches :
    List ChunkHashesBatch → Prog (Session Γ) ReceiverV03NegotiationError Unit
  | [] => pure ()
  | batch :: batches => do
    let payload ← .ofExcept ((encodeChunkHashes batch).mapError .chunkHashes)
    sendFrameV03 .frame .protocol .chunkHashes payload
    sendBatches batches

def negotiateInventory (prepared : PreparedReceiverV03) :
    Prog (Session Γ) ReceiverV03NegotiationError AcceptedReceiverV03 := do
  sendFrameV03 .frame .protocol .resume (encodeResumeV03 prepared.resume)
  sendBatches prepared.chunkHashBatches
  let response ← (readFrameForVersion wfpVersionV03).mapErr .protocol
  if response.messageType ≠ .accept then throw (.unexpectedMessageType response.messageType)
  else if response.payload ≠ [] then throw (.invalidAcceptPayload response.payload.length)
  else return {
    partialPath := prepared.partialPath
    file := prepared.file
    receiver := prepared.receiver
    identity := prepared.identity }

/-! ### Receiving -/

/-- A call on a receiver that is dropped when the call fails. -/
def onReceiver {ε α : Type} (receiver : ChunkReceiverV03)
    (p : Prog (ChunkReceiverV03 × Disk Γ) ε α) : Prog (Session Γ) ε (α × ChunkReceiverV03) :=
  fun w =>
    match p (receiver, w.disk) with
    | (.ok a, receiver, disk) => (.ok (a, receiver), { w with disk })
    | (.err e, _, disk) => (.err e, { w with disk })
    | (.halt, _, disk) => (.halt, { w with disk })

/-- The checks of COMPLETE. -/
def checkComplete (receiver : ChunkReceiverV03) (payload : Bytes) :
    Except ReceiverV03TransferError ChunkHash := do
  if let some active := receiver.active then
    .error (.completeWhileChunkActive active.range.index)
  if let some pending := receiver.pendingVerified then
    .error (.completeWhileChunkPendingPersistence pending.index)
  refuseIf (payload.length ≠ blake3HashLength) (.invalidCompletePayload payload.length)
  let expected := receiver.chunkState.layout.chunkCount
  let actual := receiver.chunkState.chunks.length
  refuseIf (actual ≥ 2 ^ 64) (.verifiedChunkCountOverflow actual)
  refuseIf (UInt64.ofNat actual ≠ expected) (.incompleteVerifiedCoverage expected (.ofNat actual))
  return Block.ofBytes blake3HashLength payload

section

variable [Crates]

/-- Write the data, and persist the chunk that they complete. -/
def writeAndPersist (file : File) (partialPath : Path) (data : DataV03) :
    ChunkReceiving Γ Unit := do
  match ← ChunkReceiverV03.writeData file data with
  | some _ => ChunkReceiverV03.persistVerifiedChunk file partialPath
  | none => return ()

/-- Take one frame of the transfer; a COMPLETE ends it. -/
def receiveTransferFrame (file : File) (partialPath : Path) (receiver : ChunkReceiverV03) :
    Prog (Session Γ) ReceiverV03TransferError (ChunkReceiverV03 ⊕ ChunkReceiverV03 × ChunkHash) := do
  let frame ← (readFrameForVersion wfpVersionV03).mapErr .protocol
  match frame.messageType with
  | .chunkStart =>
    let chunkStart ← .ofExcept ((decodeChunkStartV03 frame.payload).mapError .chunkStart)
    let ((), receiver) ←
      (onReceiver receiver (ChunkReceiverV03.beginChunk chunkStart)).mapErr .receiver
    return .inl receiver
  | .data =>
    let data ← .ofExcept ((decodeDataV03 frame.payload).mapError .data)
    let ((), receiver) ← (onReceiver receiver (writeAndPersist file partialPath data)).mapErr .receiver
    return .inl receiver
  | .complete =>
    let hash ← .ofExcept (checkComplete receiver frame.payload)
    return .inr (receiver, hash)
  | messageType => throw (.unexpectedMessageType messageType)

def receiveTransfer (accepted : AcceptedReceiverV03) :
    Prog (Session Γ) ReceiverV03TransferError ReceivedCompleteV03 := do
  let (receiver, senderFileHash) ← .loop (fun _ w => w.net.input.length)
    (receiveTransferFrame accepted.file accepted.partialPath) accepted.receiver
  return {
    file := accepted.file
    partialPath := accepted.partialPath
    receiver
    senderFileHash
    identity := accepted.identity }

/-! ### Verifying and publishing -/

abbrev finalVerificationBufferSize : ℕ := 64 * 1024

/-- Read a file to its end: its size must be as expected, and its hash. -/
def hashPhysicalFileV03 (file : File) (expectedSize : ℕ) (expectedHash : Digest) :
    Prog (Disk Γ) ReceiverV03VerificationError Unit := do
  let ((hasher, bytesReadTotal), _) ← (file.foldReads finalVerificationBufferSize
    (fun (hasher, bytesReadTotal) bytes => (hasher ++ bytes, bytesReadTotal + bytes.length))
    ([], 0)).mapErr .io
  if bytesReadTotal ≠ expectedSize then throw (.fileSizeMismatch expectedSize bytesReadTotal)
  else if blake3 hasher ≠ expectedHash then throw .fileHashMismatch
  else return ()

def verifyCompleteFile (received : ReceivedCompleteV03) :
    Prog (Disk Γ) ReceiverV03VerificationError Unit :=
  hashPhysicalFileV03 (received.file.seek 0) received.receiver.chunkState.layout.fileSize.toNat
    received.senderFileHash

/-- The name of a partial file ends in ".part", and not only consists of it. -/
def validatePartialPath (partialPath : Path) : Except ReceiverV03FinalizeError Unit :=
  match partialPath.getLast? with
  | none => .error (.invalidPartialPath partialPath)
  | some name =>
    refuseIf (!(name.endsWith ".part") || name == ".part") (.invalidPartialPath partialPath)

/-- What stands at the destination is never replaced. -/
def promotePartialNoClobber {ε : Type} (destinationExists : Path → ε) (io : IoError → ε)
    (source : File) (partialPath destination : Path) : Prog (Disk Γ) ε Unit :=
  (Storage.promoteLink source partialPath destination).mapErr fun error =>
    if error.kind = .alreadyExists then destinationExists destination else io error

def finalize (received : ReceivedCompleteV03) (destinationPath : Path)
    (receiptDestination : Option Path) : Prog (Disk Γ) ReceiverV03FinalizeError Path := do
  .ofExcept (validatePartialPath received.partialPath)
  (verifyCompleteFile received).mapErr .verification
  if let some destination := receiptDestination then
    let receipt : CompletionReceipt := {
      transferId := received.identity.transferId
      filename := received.identity.filename
      fileSize := received.receiver.chunkState.layout.fileSize
      blake3 := received.senderFileHash }
    (writeCompletionReceipt destination receipt).mapErr .receipt
  promotePartialNoClobber .destinationExists .io received.file received.partialPath destinationPath
  -- a failure to clean up does not invalidate what was published
  let _ ← (removeChunkState received.partialPath).attempt
  return destinationPath

def complete (received : ReceivedCompleteV03) (destinationPath : Path)
    (receiptDestination : Option Path) : Prog (Session Γ) ReceiverV03CompleteError Path := do
  let finalPath ← World.onDisk ((finalize received destinationPath receiptDestination).mapErr
    .finalize)
  sendFrameV03 .frame .protocol .verified []
  return finalPath

/-! ### Reconciling -/

def sendVerifiedV03 : Prog (Session Γ) ReceiverV03ReconcileError Unit :=
  sendFrameV03 .frame .protocol .verified []

def verifyExistingFinalV03 (path : Path) (expectedSize : ℕ) (expectedHash : Digest) :
    Prog (Disk Γ) ReceiverV03VerificationError Unit := do
  let file ← (Storage.openRegular path true false false false).mapErr .io
  hashPhysicalFileV03 file expectedSize expectedHash

/-- The verified file is held open until it is promoted. -/
def verifyPartialForPromotionV03 (path : Path) (expectedSize : ℕ) (expectedHash : Digest) :
    Prog (Disk Γ) ReceiverV03VerificationError File := do
  let source ← (Storage.openPromotable path true false false false).mapErr .io
  hashPhysicalFileV03 source expectedSize expectedHash
  return source

/-- A file operation of the reconciliation. -/
abbrev reconciling {α : Type} (p : Prog (Disk Γ) IoError α) :
    Prog (Session Γ) ReceiverV03ReconcileError α := World.onDisk (p.mapErr .io)

/-- The final file exists. -/
def reconcileFromFinal (destination : Path) (receipt : CompletionReceipt) :
    Prog (Session Γ) ReceiverV03ReconcileError ReceiverV03ReconcileOutcome := do
  match ← World.onDisk (verifyExistingFinalV03 destination receipt.fileSize.toNat
      receipt.blake3).attempt with
  | .error _ => return .notReconciled
  | .ok () =>
    sendVerifiedV03
    return .reconciled destination

/-- The final file does not exist, the partial file does. -/
def reconcileFromPartial (destination partialDestination : Path) (receipt : CompletionReceipt) :
    Prog (Session Γ) ReceiverV03ReconcileError ReceiverV03ReconcileOutcome := do
  match ← World.onDisk (verifyPartialForPromotionV03 partialDestination receipt.fileSize.toNat
      receipt.blake3).attempt with
  | .error _ => return .notReconciled
  | .ok source =>
    World.onDisk (promotePartialNoClobber .destinationExists .io source partialDestination
      destination)
    let _ ← World.onDisk (removeChunkState partialDestination).attempt
    sendVerifiedV03
    return .reconciled destination

def reconcileCompletedTransferV03 (destinationDirectory : Path) (offer : FileOfferV03) :
    Prog (Session Γ) ReceiverV03ReconcileError ReceiverV03ReconcileOutcome := do
  .ofExcept (refuseIf (!isSafeFilename offer.filename) .invalidFilename)
  if ← reconciling (Storage.pathExists
      (completionReceiptPath destinationDirectory offer.transferId)) then
    let receipt ← World.onDisk
      ((readCompletionReceipt destinationDirectory offer.transferId).mapErr .receipt)
    .ofExcept (refuseIf (receipt.filename ≠ offer.filename ∨ receipt.fileSize ≠ offer.fileSize)
      .conflictingReceipt)
    let destination := finalPath destinationDirectory offer.filename
    let partialDestination := partialPath destinationDirectory offer.filename
    if ← reconciling (Storage.pathExists destination) then
      reconcileFromFinal destination receipt
    else if ← reconciling (Storage.pathExists partialDestination) then
      reconcileFromPartial destination partialDestination receipt
    else return .notReconciled
  else return .notReconciled

/-! ### A session -/

/-- What a session does with its offer. -/
def receiveOfferedV03 (destinationDirectory : Path) (offer : FileOfferV03) :
    Prog (Session Γ) ReceiverV03SessionError ReceiverV03SessionOutcome := do
  match ← (reconcileCompletedTransferV03 destinationDirectory offer).mapErr .reconcile with
  | .reconciled path => return .reconciled path
  | .notReconciled =>
    World.onDisk ((Storage.ensureDirectory (partialsDirectory destinationDirectory)).mapErr .io)
    let partialDestination := partialPath destinationDirectory offer.filename
    let prepared ← World.onDisk ((prepareReceiverV03 partialDestination offer).mapErr .preparation)
    let accepted ← (negotiateInventory prepared).mapErr .negotiation
    let received ← (receiveTransfer accepted).mapErr .transfer
    let destination := finalPath destinationDirectory offer.filename
    let path ← (complete received destination (some destinationDirectory)).mapErr .complete
    return .completed path

/-- The beginning of a session, up to its offer. -/
def receiveOfferV03 : Prog (Session Γ) ReceiverV03SessionError FileOfferV03 := do
  let hello ← (readFrameForVersion wfpVersionV03).mapErr .protocol
  .ofExcept (refuseIf (hello.messageType ≠ .hello) (.unexpectedMessageType hello.messageType))
  .ofExcept (refuseIf (hello.payload ≠ [wfpVersionV03]) (.invalidHelloPayload hello.payload.length))
  sendFrameV03 .frame .protocol .helloAck [wfpVersionV03]
  let offerFrame ← (readFrameForVersion wfpVersionV03).mapErr .protocol
  .ofExcept (refuseIf (offerFrame.messageType ≠ .offer)
    (.unexpectedMessageType offerFrame.messageType))
  .ofExcept ((decodeOfferV03 offerFrame.payload).mapError .offer)

def receiveSessionV03 (destinationDirectory : Path) :
    Prog (Session Γ) ReceiverV03SessionError ReceiverV03SessionOutcome := do
  World.onDisk ((Storage.ensureDirectory destinationDirectory).mapErr .io)
  let offer ← receiveOfferV03
  receiveOfferedV03 destinationDirectory offer

end

end Warpfile.V03
