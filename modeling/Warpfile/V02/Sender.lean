import Warpfile.Foundation.Source
import Warpfile.Protocol.Log
import Warpfile.Protocol.Payload
import Warpfile.Storage.Crates

/-!
# The sender of WFP/0.2

`sendOnce` offers a file over one connection and sends what the receiver does not have. Its state
is a session next to the file: what is left to read through the open handle, what the file gives
each time it is opened, and which of the reads the user interrupts.

A receiver that has a part of the file answers the offer with RESUME. The sender hashes its own
bytes up to the offset (`hashPrefix`) and accepts, or it asks for a restart, opens the file anew
and begins with a new hasher.
-/

namespace Warpfile.V02

variable {Γ : Setting}

/-! ### Errors -/

/-- The errors an attempt ends in for good. -/
inductive SendError where
  | io (error : IoError)
  | protocol (error : ProtocolIoError)
  | offer (error : OfferError)
  | reject (error : RejectError)
  | resume (error : ResumeError)
  deriving DecidableEq, Repr

inductive SendAttemptError where
  | retryableConnect (error : IoError)
  | retryableProtocol (error : ProtocolIoError)
  | permanent (error : SendError)
  deriving DecidableEq, Repr

def SendAttemptError.new (kind : ErrorKind) (message : String) : SendAttemptError :=
  .permanent (.io ⟨kind, message⟩)

def SendAttemptError.isRetryable : SendAttemptError → Bool
  | .retryableConnect _ | .retryableProtocol _ => true
  | .permanent _ => false

def isRetryableNetworkKind : ErrorKind → Bool
  | .connectionRefused | .connectionReset | .connectionAborted | .notConnected | .brokenPipe
  | .timedOut | .unexpectedEof | .interrupted | .writeZero => true
  | _ => false

def classifyConnectError (error : IoError) : SendAttemptError :=
  if isRetryableNetworkKind error.kind then .retryableConnect error else .permanent (.io error)

def classifyProtocolError (error : ProtocolIoError) : SendAttemptError :=
  let retryable :=
    match error with
    | .io ioError => isRetryableNetworkKind ioError.kind
    | .decode _ | .encode _ => false
  if retryable then .retryableProtocol error else .permanent (.protocol error)

/-! ### The file -/

/-- The file that is sent. -/
structure SourceFile where
  /-- what is left to read through the handle -/
  handle : Source
  /-- what the file gives when it is opened, the next time first -/
  opens : ℕ → Except IoError Source
  /-- whether the user interrupts a read, the next one first -/
  signals : ℕ → Option (Except IoError Unit)

abbrev Sender (Γ : Setting) (α : Type) : Type := Prog (Session Γ × SourceFile) SendAttemptError α

/-- A program of the connection. -/
def onStream {ε α : Type} (p : Prog (Session Γ) ε α) : Prog (Session Γ × SourceFile) ε α := fun s =>
  let (o, stream) := p s.1
  (o, stream, s.2)

/-- A program of the file. -/
def onFile {ε α : Type} (p : Prog SourceFile ε α) : Prog (Session Γ × SourceFile) ε α := fun s =>
  let (o, file) := p s.2
  (o, s.1, file)

/-- Open the file at its beginning. -/
def SourceFile.open : Prog SourceFile IoError Unit := fun s =>
  let opens n := s.opens (n + 1)
  match s.opens 0 with
  | .ok handle => (.ok (), { s with handle, opens })
  | .error e => (.err e, { s with opens })

/-- One read into a buffer of `n` bytes. -/
def SourceFile.read (n : ℕ) : Prog SourceFile IoError Bytes := fun s =>
  let (o, handle) := Source.read n s.handle
  (o, { s with handle })

/-- Wait for the next read, unless the user interrupts it. -/
def SourceFile.signal : Prog SourceFile IoError (Option (Except IoError Unit)) := fun s =>
  (.ok (s.signals 0), { s with signals := fun n => s.signals (n + 1) })

/-- A call on the file. -/
abbrev onSource {α : Type} (p : Prog SourceFile IoError α) : Sender Γ α :=
  onFile (p.mapErr fun error => .permanent (.io error))

/-! ### Frames -/

def sendFrame (frame : Frame) : Sender Γ Unit :=
  onStream ((writeFrame frame).mapErr classifyProtocolError)

def receiveFrame : Sender Γ Frame := onStream (readFrame.mapErr classifyProtocolError)

def validateEmptyPayload (frame : Frame) (messageName : String) : Except SendAttemptError Unit :=
  refuseIf (frame.payload ≠ []) (.new .invalidData s!"{messageName} payload must be empty")

/-- How a code is shown. -/
def rejectCodeName : RejectCode → String
  | .fileExists => "FILE_EXISTS"
  | .unsafeFilename => "UNSAFE_FILENAME"
  | .cannotPrepareDestination => "CANNOT_PREPARE_DESTINATION"

/-- The receiver refused what it was asked. -/
def rejected {α : Type} (what : String) (response : Frame) : Sender Γ α := do
  let reject ← .ofExcept
    ((decodeReject response.payload).mapError fun e => SendAttemptError.permanent (.reject e))
  throw (.new .permissionDenied
    s!"receiver rejected {what} [{rejectCodeName reject.code}]: {reject.message}")

/-! ### Resuming -/

/-- Hash the next `prefixLength` bytes of the file. -/
def hashPrefix (hasher : Hasher) (prefixLength : ℕ) : Sender Γ Hasher :=
  .loop (fun (s : Hasher × ℕ) _ => s.2) (fun (hasher, remaining) => do
    if remaining > 0 then
      let bytes ← onSource (SourceFile.read (min remaining maxDataPayloadLength))
      if bytes = [] then
        throw (.new .unexpectedEof "source file ended before the requested resume offset")
      else return .inl (hasher ++ bytes, remaining - bytes.length)
    else return .inr hasher) (hasher, prefixLength)

def waitForRestartAccept : Sender Γ Unit := do
  let response ← receiveFrame
  match response.messageType with
  | .accept => .ofExcept (validateEmptyPayload response "ACCEPT")
  | .reject => rejected "restart" response
  | _ => throw (.new .invalidData "expected ACCEPT or REJECT after RESTART")

/-- Ask the receiver to discard what it has; the file is read from its beginning again. -/
def requestRestart : Sender Γ (ℕ × Hasher) := do
  sendFrame (Frame.new .restart [])
  waitForRestartAccept
  onSource SourceFile.open
  return (0, [])

/-- The offset to continue from, and a hasher that has absorbed what comes before. -/
def Sender.negotiateResume [Crates] (fileSize : UInt64) (hasher : Hasher)
    (resume : ResumeRequest) : Sender Γ (ℕ × Hasher) := do
  if resume.offset > fileSize then requestRestart
  else
    let hasher ← hashPrefix hasher resume.offset.toNat
    if blake3 hasher = resume.prefixHash then
      sendFrame (Frame.new .accept [])
      return (resume.offset.toNat, hasher)
    else requestRestart

/-! ### Sending -/

/-- What the sender knows about the data it has sent. -/
structure SendProgress where
  bytesProcessed : ℕ
  networkBytesSent : ℕ
  hasher : Hasher

/-- The user interrupted a read. -/
def cancelTransfer {α : Type} (signalResult : Except IoError Unit) : Sender Γ α := do
  .ofExcept (signalResult.mapError fun e => SendAttemptError.permanent (.io e))
  onStream ((writeFrame (Frame.new .cancel [])).mapErr fun e => .permanent (.protocol e))
  throw (.new .interrupted "transfer cancelled by user")

/-- Send the next piece of the file; the end of the file ends the loop. -/
def sendDataFrame (progress : SendProgress) : Sender Γ (SendProgress ⊕ SendProgress) := do
  match ← onSource SourceFile.signal with
  | some signalResult => cancelTransfer signalResult
  | none =>
    let bytes ← onSource (SourceFile.read maxDataPayloadLength)
    if bytes = [] then return .inr progress
    else
      let hasher := progress.hasher ++ bytes
      sendFrame (Frame.new .data bytes)
      let bytesProcessed := progress.bytesProcessed + bytes.length
      if bytesProcessed ≥ 2 ^ 64 then throw (.new .invalidData "sent byte count overflow")
      let networkBytesSent := progress.networkBytesSent + bytes.length
      if networkBytesSent ≥ 2 ^ 64 then throw (.new .invalidData "network byte count overflow")
      return .inl { bytesProcessed, networkBytesSent, hasher }

section

variable [Crates]

/-- Send what the receiver does not have, and wait for its verdict. -/
def sendFrom (fileSize : UInt64) (resumeOffset : ℕ) (hasher : Hasher) : Sender Γ Unit := do
  if resumeOffset > fileSize.toNat then
    throw (.new .invalidData "resume offset exceeds file size")
  let progress ← .loop (fun _ s => s.2.handle.bytes.length) sendDataFrame
    { bytesProcessed := resumeOffset, networkBytesSent := 0, hasher }
  if progress.bytesProcessed ≠ fileSize.toNat then
    throw (.new .unexpectedEof
      s!"expected to process {fileSize} bytes, processed {progress.bytesProcessed}")
  sendFrame (Frame.new .complete (blake3 progress.hasher).1)
  let response ← receiveFrame
  if response.messageType ≠ .verified then throw (.new .invalidData "expected VERIFIED")
  .ofExcept (validateEmptyPayload response "VERIFIED")

/-- What the answer to the offer asks for. -/
def answerOffer (fileSize : UInt64) (response : Frame) : Sender Γ (ℕ × Hasher) := do
  match response.messageType with
  | .accept =>
    .ofExcept (validateEmptyPayload response "ACCEPT")
    return (0, [])
  | .reject => rejected "the file" response
  | .resume =>
    let resume ← .ofExcept
      ((decodeResume response.payload).mapError fun e => SendAttemptError.permanent (.resume e))
    Sender.negotiateResume fileSize [] resume
  | _ => throw (.new .invalidData "expected ACCEPT, REJECT, RESUME, or VERIFIED")

end

/-- Greet the receiver and offer it the file. -/
def sendOffer (filename : String) (fileSize : UInt64) (transferId : TransferId) :
    Sender Γ Unit := do
  sendFrame (Frame.new .hello [wfpVersion])
  let response ← receiveFrame
  if response.messageType ≠ .helloAck then throw (.new .invalidData "expected HELLO_ACK")
  if response.payload ≠ [wfpVersion] then throw (.new .invalidData "invalid HELLO_ACK version")
  let offer : FileOffer := { transferId, filename, fileSize }
  let offerPayload ← .ofExcept
    ((encodeOffer offer).mapError fun e => SendAttemptError.permanent (.offer e))
  sendFrame (Frame.new .offer offerPayload)

/-- One attempt. `connected` is how connecting to the receiver went. -/
def sendOnce [Crates] (filename : String) (fileSize : UInt64) (transferId : TransferId)
    (connected : Except IoError Unit) : Sender Γ Unit := do
  .ofExcept (connected.mapError classifyConnectError)
  sendOffer filename fileSize transferId
  let response ← receiveFrame
  if response.messageType = .verified then
    .ofExcept (validateEmptyPayload response "VERIFIED")
  else
    onSource SourceFile.open
    let (resumeOffset, hasher) ← answerOffer fileSize response
    sendFrom fileSize resumeOffset hasher

end Warpfile.V02
