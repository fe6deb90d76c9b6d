import Warpfile.Storage.CompletionReceipt
import Warpfile.Storage.TransferMetadata

/-!
# The receiver of WFP/0.2

`receiveConnection` serves one connection. `receiveOffer` is its beginning up to a decoded offer
of a safe filename, `receiveOffered` what it does with the offer, and `commitTransfer` what
follows once all data are there. A file that is flushed is not told apart from one that is not.
-/

namespace Warpfile.V02

variable [Crates] {Γ : Setting}

/-- The errors a session ends in. -/
inductive ReceiverError where
  | io (error : IoError)
  | protocol (error : ProtocolIoError)
  | offer (error : OfferError)
  | reject (error : RejectError)
  | receipt (error : CompletionReceiptError)
  | metadata (error : TransferMetadataError)
  deriving DecidableEq, Repr

def ReceiverError.new (kind : ErrorKind) (message : String) : ReceiverError := .io ⟨kind, message⟩

abbrev Receiver (Γ : Setting) (α : Type) : Type := Prog (Session Γ) ReceiverError α

structure PreparedTransfer where
  output : File
  bytesReceived : ℕ
  hasher : Hasher

structure CompletedTransfer where
  bytesReceived : ℕ
  blake3 : Digest
  source : File

/-! ### Writing and discarding -/

/-- A file operation of the session. -/
abbrev storage {α : Type} (p : Prog (Disk Γ) IoError α) : Receiver Γ α :=
  World.onDisk (p.mapErr .io)

def send (messageType : MessageType) (payload : Bytes) : Receiver Γ Unit :=
  (writeFrame (Frame.new messageType payload)).mapErr .protocol

def sendVerified : Receiver Γ Unit := send .verified []

def sendReject (code : RejectCode) (message : String) : Receiver Γ Unit := do
  let payload ← .ofExcept ((encodeReject { code, message }).mapError .reject)
  send .reject payload

/-- Where `p` fails, tell the sender that the destination cannot be prepared. -/
def orReject {α : Type} (message : String) (p : Receiver Γ α) : Receiver Γ α := do
  match ← p.attempt with
  | .ok a => return a
  | .error error =>
    sendReject .cannotPrepareDestination message
    throw error

def shouldPreserveKind : ErrorKind → Bool
  | .unexpectedEof | .connectionReset | .connectionAborted | .brokenPipe | .notConnected => true
  | _ => false

def shouldPreservePartial : ReceiverError → Bool
  | .protocol (.io error) => shouldPreserveKind error.kind
  | _ => false

def discardPartialState (partialDestination : Path) : Prog (Disk Γ) ReceiverError Unit := do
  (Storage.removeIfExists partialDestination).mapErr .io
  (removeTransferMetadata partialDestination).mapErr .metadata

/-- `let _ = discard_partial_state(..)` of the source. -/
def tryDiscardPartialState (partialDestination : Path) : Receiver Γ Unit := do
  let _ ← World.onDisk (discardPartialState partialDestination).attempt
  return ()

/-- Fail for good: what was received is not kept. -/
def discardAndThrow {α : Type} (partialDestination : Path) (error : ReceiverError) :
    Receiver Γ α := do
  tryDiscardPartialState partialDestination
  throw error

def transferMetadataForOffer (offer : FileOffer) : TransferMetadata where
  transferId := offer.transferId
  filename := offer.filename
  fileSize := offer.fileSize
  state := .partialTransfer

/-! ### Verifying files -/

/-- Read a file to its end, into a hasher and a byte counter. -/
def hashFileContents (file : File) (expectedSize : ℕ) :
    Prog (Disk Γ) IoError (Hasher × File) := do
  let ((hasher, bytesHashed), file) ← file.foldReads maxDataPayloadLength
    (fun (hasher, bytesHashed) bytes => (hasher ++ bytes, bytesHashed + bytes.length)) ([], 0)
  if bytesHashed ≠ expectedSize then
    throw ⟨.invalidData, "file changed while it was being hashed"⟩
  return (hasher, file)

def verifyCompletedFile (file : File) (receipt : CompletionReceipt) :
    Prog (Disk Γ) IoError Unit := do
  let metadata ← file.metadata
  if !metadata.isFile then
    throw ⟨.invalidData, "completed transfer data is not a regular file"⟩
  if metadata.len ≠ receipt.fileSize.toNat then
    throw ⟨.invalidData, "completed transfer size does not match the completion receipt"⟩
  let (hasher, _) ← hashFileContents file receipt.fileSize.toNat
  if blake3 hasher ≠ receipt.blake3 then
    throw ⟨.invalidData, "completed transfer hash does not match the completion receipt"⟩

def verifyExistingFinal (path : Path) (receipt : CompletionReceipt) :
    Prog (Disk Γ) IoError Unit := do
  let file ← Storage.openRegular path true false false false
  verifyCompletedFile file receipt

/-- The verified file is held open until it is promoted. -/
def verifyCompletedPartialForPromotion (path : Path) (receipt : CompletionReceipt) :
    Prog (Disk Γ) IoError File := do
  let source ← Storage.openPromotable path true false false false
  verifyCompletedFile source receipt
  return source

/-! ### A transfer that was completed before -/

/-- The final file exists. -/
def settleFromFinal (destination partialDestination : Path) (receipt : CompletionReceipt) :
    Receiver Γ Unit := do
  orReject "completed destination does not match the completion receipt"
    (storage (verifyExistingFinal destination receipt))
  tryDiscardPartialState partialDestination
  sendVerified

/-- The final file does not exist, the partial file does. -/
def settleFromPartial (destination partialDestination : Path) (receipt : CompletionReceipt) :
    Receiver Γ Unit := do
  let source ← orReject "completed partial file does not match the completion receipt"
    (storage (verifyCompletedPartialForPromotion partialDestination receipt))
  storage (Storage.promoteRename source partialDestination destination)
  let _ ← World.onDisk (removeTransferMetadata partialDestination).attempt
  sendVerified

/-- The receipt is about the offered file. -/
def settleByReceipt (destination partialDestination : Path) (receipt : CompletionReceipt) :
    Receiver Γ Unit := do
  if ← storage (Storage.pathExists destination) then
    settleFromFinal destination partialDestination receipt
  else if ← storage (Storage.pathExists partialDestination) then
    settleFromPartial destination partialDestination receipt
  else
    sendReject .cannotPrepareDestination
      "completion receipt exists but completed transfer data is missing"
    throw (.new .notFound "completion receipt exists but completed transfer data is missing")

/-- Whether the transfer is settled by its receipt. -/
def reconcileCompletedTransfer (destinationDirectory destination partialDestination : Path)
    (offer : FileOffer) : Receiver Γ Bool := do
  if !(← storage (Storage.pathExists
      (completionReceiptPath destinationDirectory offer.transferId))) then
    return false
  let receipt ← orReject "receiver could not read the completion receipt"
    (World.onDisk ((readCompletionReceipt destinationDirectory offer.transferId).mapErr .receipt))
  if receipt.filename ≠ offer.filename || receipt.fileSize ≠ offer.fileSize then
    sendReject .cannotPrepareDestination "transfer identity conflicts with the completion receipt"
    throw (.new .invalidData "transfer identity conflicts with the completion receipt")
  settleByReceipt destination partialDestination receipt
  return true

/-! ### Preparing the partial file -/

def persistTransferMetadata (partialDestination : Path) (metadata : TransferMetadata) :
    Receiver Γ Unit := do
  match ← World.onDisk (writeTransferMetadata partialDestination metadata).attempt with
  | .ok () => return ()
  | .error error =>
    tryDiscardPartialState partialDestination
    sendReject .cannotPrepareDestination "receiver could not persist transfer metadata"
    throw (.metadata error)

def sendAccept (partialDestination : Path) : Receiver Γ Unit := do
  match ← (send .accept []).attempt with
  | .ok () => return ()
  | .error error => discardAndThrow partialDestination error

def prepareFreshTransfer (partialDestination : Path) (metadata : TransferMetadata) :
    Receiver Γ PreparedTransfer := do
  orReject "receiver could not clear stale transfer metadata"
    (World.onDisk ((removeTransferMetadata partialDestination).mapErr .metadata))
  let output ← orReject "receiver could not create the destination file"
    (storage (Storage.openPromotable partialDestination false true false true))
  persistTransferMetadata partialDestination metadata
  sendAccept partialDestination
  return { output, bytesReceived := 0, hasher := [] }

/-- The answer to RESUME. -/
def answerResume (partialDestination : Path) (output : File) (hasher : Hasher) (partialSize : ℕ)
    (storedMetadataMatches : Bool) (expectedMetadata : TransferMetadata) (response : Frame) :
    Receiver Γ PreparedTransfer := do
  match response.messageType with
  | .accept =>
    if response.payload ≠ [] then
      discardAndThrow partialDestination (.new .invalidData "ACCEPT payload must be empty")
    let currentSize := (← storage output.metadata).len
    if currentSize ≠ partialSize then
      discardAndThrow partialDestination
        (.new .invalidData "partial file changed while resume was being negotiated")
    if !storedMetadataMatches then
      World.onDisk ((writeTransferMetadata partialDestination expectedMetadata).mapErr .metadata)
    return { output, bytesReceived := partialSize, hasher }
  | .restart =>
    if response.payload ≠ [] then
      discardAndThrow partialDestination (.new .invalidData "RESTART payload must be empty")
    orReject "receiver could not discard the rejected partial file"
      (World.onDisk (discardPartialState partialDestination))
    prepareFreshTransfer partialDestination expectedMetadata
  | .cancel =>
    if response.payload ≠ [] then
      discardAndThrow partialDestination (.new .invalidData "CANCEL payload must be empty")
    discardAndThrow partialDestination (.new .interrupted "transfer cancelled by sender")
  | _ =>
    discardAndThrow partialDestination
      (.new .invalidData "expected ACCEPT, RESTART, or CANCEL after RESUME")

/-- Keep the partial file or not, as the error has it, and end the session. -/
def preserveOrDiscard {α : Type} (partialDestination : Path) (error : ReceiverError) :
    Receiver Γ α := do
  if !shouldPreservePartial error then tryDiscardPartialState partialDestination
  throw error

/-- Offer to continue what the hasher has absorbed. -/
def negotiateResume (partialDestination : Path) (output : File) (hasher : Hasher)
    (partialSize : ℕ) (storedMetadataMatches : Bool) (expectedMetadata : TransferMetadata) :
    Receiver Γ PreparedTransfer := do
  let resumeRequest : ResumeRequest :=
    { offset := UInt64.ofNat partialSize, prefixHash := blake3 hasher }
  match ← (send .resume (encodeResume resumeRequest)).attempt with
  | .ok () =>
    match ← (readFrame.mapErr ReceiverError.protocol).attempt with
    | .ok response =>
      answerResume partialDestination output hasher partialSize storedMetadataMatches
        expectedMetadata response
    | .error error => preserveOrDiscard partialDestination error
  | .error error => preserveOrDiscard partialDestination error

/-- Continue a partial file of `partialSize` bytes. -/
def resumeTransfer (partialDestination : Path) (partialSize : ℕ)
    (expectedMetadata : TransferMetadata) : Receiver Γ PreparedTransfer := do
  let storedMetadata ← World.onDisk (readTransferMetadata partialDestination).attempt
  let storedMetadataMatches := storedMetadata.toOption == some expectedMetadata
  let output ← storage (Storage.openPromotable partialDestination true false true false)
  let (hasher, output) ← orReject "receiver could not verify the existing partial file"
    (storage (hashFileContents (output.seek 0) partialSize))
  negotiateResume partialDestination output hasher partialSize storedMetadataMatches
    expectedMetadata

def prepareTransfer (partialDestination : Path) (offer : FileOffer) :
    Receiver Γ PreparedTransfer := do
  let expectedMetadata := transferMetadataForOffer offer
  if !(← storage (Storage.pathExists partialDestination)) then
    return ← prepareFreshTransfer partialDestination expectedMetadata
  let partialMetadata ← orReject "receiver could not inspect the partial file"
    (storage (Storage.metadata partialDestination))
  if !partialMetadata.isFile then
    sendReject .cannotPrepareDestination "partial destination is not a regular file"
    throw (.new .invalidData "partial destination is not a regular file")
  let partialSize := partialMetadata.len
  if partialSize = 0 || partialSize > offer.fileSize.toNat then
    orReject "receiver could not replace an unusable partial file"
      (World.onDisk (discardPartialState partialDestination))
    return ← prepareFreshTransfer partialDestination expectedMetadata
  resumeTransfer partialDestination partialSize expectedMetadata

/-! ### Receiving -/

/-- What the receiver knows about the data it has. -/
structure Progress where
  output : File
  bytesReceived : ℕ
  hasher : Hasher

/-- Take one frame of the transfer; a COMPLETE ends it. -/
def receiveDataFrame (expectedSize : ℕ) (progress : Progress) :
    Receiver Γ (Progress ⊕ Progress × Bytes) := do
  let frame ← readFrame.mapErr .protocol
  match frame.messageType with
  | .data =>
    let nextTotal := progress.bytesReceived + frame.payload.length
    if nextTotal ≥ 2 ^ 64 then throw (.new .invalidData "received byte count overflow")
    if nextTotal > expectedSize then
      throw (.new .invalidData "received more bytes than announced")
    let output ← storage (progress.output.writeAll frame.payload)
    return .inl
      { output, bytesReceived := nextTotal, hasher := progress.hasher ++ frame.payload }
  | .complete =>
    if frame.payload.length ≠ 32 then
      throw (.new .invalidData "COMPLETE must contain a 32-byte BLAKE3 hash")
    return .inr (progress, frame.payload)
  | .cancel =>
    if frame.payload ≠ [] then throw (.new .invalidData "CANCEL payload must be empty")
    throw (.new .interrupted "transfer cancelled by sender")
  | _ => throw (.new .invalidData "expected DATA, COMPLETE, or CANCEL")

def receiveFileData (output : File) (expectedSize initialBytesReceived : ℕ) (hasher : Hasher) :
    Receiver Γ CompletedTransfer := do
  if initialBytesReceived > expectedSize then
    throw (.new .invalidData "resume offset exceeds the announced file size")
  let (progress, senderHash) ← Prog.loop (fun _ w => w.net.input.length)
    (receiveDataFrame expectedSize) { output, bytesReceived := initialBytesReceived, hasher }
  storage progress.output.syncAll
  if progress.bytesReceived ≠ expectedSize then
    throw (.new .invalidData s!"expected {expectedSize} bytes, received {progress.bytesReceived}")
  let receiverHash := blake3 progress.hasher
  if senderHash ≠ receiverHash.1 then
    throw (.new .invalidData "file integrity verification failed")
  return { bytesReceived := progress.bytesReceived, blake3 := receiverHash, source := progress.output }

/-! ### A connection -/

/-- Publish the receipt, then the file. A complete partial file is not discarded once its receipt
may exist. -/
def commitTransfer (destinationDirectory destination partialDestination : Path)
    (offer : FileOffer) (completed : CompletedTransfer) : Receiver Γ Unit := do
  let completionReceipt : CompletionReceipt :=
    { transferId := offer.transferId, filename := offer.filename, fileSize := offer.fileSize,
      blake3 := completed.blake3 }
  World.onDisk ((writeCompletionReceipt destinationDirectory completionReceipt).mapErr .receipt)
  storage (Storage.promoteRename completed.source partialDestination destination)
  let _ ← World.onDisk (removeTransferMetadata partialDestination).attempt
  sendVerified

def receiveOffered (destinationDirectory : Path) (offer : FileOffer) : Receiver Γ Unit := do
  orReject "receiver could not prepare the destination"
    (storage (Storage.ensureDirectory destinationDirectory))
  let destination := finalPath destinationDirectory offer.filename
  let partialDestination := partialPath destinationDirectory offer.filename
  if ← reconcileCompletedTransfer destinationDirectory destination partialDestination offer then
    return
  if ← storage (Storage.pathExists destination) then
    sendReject .fileExists "destination file already exists"
    throw (.new .alreadyExists "destination file already exists")
  orReject "receiver could not prepare the partial directory"
    (storage (Storage.ensureDirectory (partialsDirectory destinationDirectory)))
  let prepared ← prepareTransfer partialDestination offer
  match ← (receiveFileData prepared.output offer.fileSize.toNat prepared.bytesReceived
      prepared.hasher).attempt with
  | .ok completed =>
    commitTransfer destinationDirectory destination partialDestination offer completed
  | .error error => preserveOrDiscard partialDestination error

def receiveOffer : Receiver Γ FileOffer := do
  let hello ← readFrame.mapErr .protocol
  if hello.messageType ≠ .hello then throw (.new .invalidData "expected HELLO")
  if hello.payload ≠ [wfpVersion] then throw (.new .invalidData "invalid HELLO version")
  send .helloAck [wfpVersion]
  let offerFrame ← readFrame.mapErr .protocol
  if offerFrame.messageType ≠ .offer then throw (.new .invalidData "expected OFFER")
  let offer ← .ofExcept ((decodeOffer offerFrame.payload).mapError .offer)
  if !isSafeFilename offer.filename then
    sendReject .unsafeFilename "receiver rejected an unsafe filename"
    throw (.new .invalidData "unsafe filename")
  return offer

def receiveConnection (destinationDirectory : Path) : Receiver Γ Unit := do
  let offer ← receiveOffer
  receiveOffered destinationDirectory offer

end Warpfile.V02
