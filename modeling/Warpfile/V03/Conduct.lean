import Warpfile.Protocol.Wire
import Warpfile.V03.SenderSession

/-!
# What every part of a session of WFP/0.3 keeps

A sender is made of frames that it reads and writes, and of a source that it scans. A relation that
holds across each of these holds across the whole session (`VoicesV03.sendSessionV03`). Of the
frames it is known that an OFFER is the one of the session, and that a COMPLETE carries the digest
of the source: it is written only after the scan has come to the end of the source.
-/

namespace Warpfile.V03

open Prog SourceScannerV03

variable {Γ : Setting} {R : Session Γ → Session Γ → Prop} {F : Frame → Prop}

/-- The relation holds across all that a session is made of that writes frames of which `F`
holds. -/
structure VoicesV03 (F : Frame → Prop) (R : Session Γ → Session Γ → Prop) : Prop where
  refl : Std.Refl R
  trans : IsTrans (Session Γ) R
  read : (readFrameForVersion wfpVersionV03 : Prog (Session Γ) _ _).Keeps R
  write : ∀ messageType payload, F ⟨wfpVersionV03, messageType, 0, payload⟩ →
    (writeFrame ⟨wfpVersionV03, messageType, 0, payload⟩ : Prog (Session Γ) _ _).Keeps R

/-- What a sender says: the OFFER is `offer`, and the COMPLETE carries the digest of `content`. -/
structure Truthful [Crates] (offer : FileOfferV03) (content : Bytes) (frame : Frame) : Prop where
  offer : frame.messageType = .offer → encodeOfferV03 offer = .ok frame.payload
  complete : frame.messageType = .complete → frame.payload = (blake3 content).1

/-- A frame that is neither an OFFER nor a COMPLETE. -/
theorem truthful_of_ne [Crates] {offer : FileOfferV03} {content payload : Bytes}
    {messageType : MessageType} (ho : messageType ≠ .offer) (hc : messageType ≠ .complete) :
    Truthful offer content ⟨wfpVersionV03, messageType, 0, payload⟩ :=
  ⟨fun h => absurd h ho, fun h => absurd h hc⟩

/-- A relation of sessions, whatever becomes of the scanner. -/
def OnStream (R : Session Γ → Session Γ → Prop) (s t : Session Γ × SourceScannerV03) : Prop :=
  R s.1 t.1

instance [Std.Refl R] : Std.Refl (OnStream R) := ⟨fun s => Std.Refl.refl s.1⟩

instance [IsTrans (Session Γ) R] : IsTrans (Session Γ × SourceScannerV03) (OnStream R) :=
  ⟨fun s t u (h : R s.1 t.1) (h' : R t.1 u.1) => (IsTrans.trans s.1 t.1 u.1 h h' : R s.1 u.1)⟩

theorem keeps_onStream {ε α : Type} {p : Prog (Session Γ) ε α} (hp : p.Keeps R) :
    (onStream p).Keeps (OnStream R) := fun s => by
  rw [ensures_onStream]
  exact hp s.1

namespace VoicesV03

section

variable (h : VoicesV03 F R)

include h

theorem sendV03 {messageType : MessageType} {payload : Bytes}
    (hF : F ⟨wfpVersionV03, messageType, 0, payload⟩) :
    (sendV03 messageType payload : Prog (Session Γ) _ Unit).Keeps R := by
  have := h.refl
  have := h.trans
  intro w
  rw [V03.sendV03, ensures_bind, ensures_ofExcept]
  exact (h.write messageType payload hF).mapErr _ w

theorem sendFrameV03 {ε : Type} {frameError : FrameError → ε} {protocolError : ProtocolIoError → ε}
    {messageType : MessageType} {payload : Bytes}
    (hF : F ⟨wfpVersionV03, messageType, 0, payload⟩) :
    (sendFrameV03 frameError protocolError messageType payload : Prog (Session Γ) ε Unit).Keeps
      R := by
  have := h.refl
  have := h.trans
  intro w
  rw [V03.sendFrameV03, ensures_bind, ensures_ofExcept]
  exact (h.write messageType payload hF).mapErr _ w

theorem sendFragments {absoluteOffset : UInt64} {fragments : List Bytes}
    (hF : ∀ payload, F ⟨wfpVersionV03, .data, 0, payload⟩) :
    (sendFragments absoluteOffset fragments : Prog (Session Γ) _ Unit).Keeps R := by
  have := h.refl
  have := h.trans
  induction fragments generalizing absoluteOffset with
  | nil => exact Keeps.pure ()
  | cons fragment fragments ih =>
    exact (Keeps.ofExcept _).bind fun payload => (h.sendV03 (hF payload)).bind fun _ =>
      (Keeps.ofExcept _).bind fun _ => ih

theorem sendTransmitChunkV03 {chunk : SourceChunkV03}
    (hstart : ∀ payload, F ⟨wfpVersionV03, .chunkStart, 0, payload⟩)
    (hdata : ∀ payload, F ⟨wfpVersionV03, .data, 0, payload⟩) :
    (sendTransmitChunkV03 chunk : Prog (Session Γ) _ Unit).Keeps R := by
  have := h.trans
  exact (h.sendV03 (hstart _)).bind fun _ => h.sendFragments hdata

theorem receiveInventoryAndAcceptAfterResume {layout : ChunkLayout} {resumeFrame : Frame}
    (haccept : F ⟨wfpVersionV03, .accept, 0, []⟩) :
    (receiveInventoryAndAcceptAfterResume layout resumeFrame : Prog (Session Γ) _ _).Keeps R := by
  have := h.refl
  have := h.trans
  refine (Keeps.ofExcept _).bind fun declared => Keeps.bind (Keeps.loop (fun s => ?_) _)
    fun inventory => (h.sendFrameV03 haccept).bind fun _ => Keeps.pure _
  split
  · exact (h.read.mapErr _).bind fun _ => (Keeps.ofExcept _).bind fun _ => Keeps.pure _
  · exact Keeps.pure _

end

section

variable [Crates] {offer : FileOfferV03} {content : Bytes}
  (h : VoicesV03 (Truthful offer content) R)

include h

/-- The scan comes to its end only where the whole source was hashed. -/
theorem sendSourceChunksV03 {reserve : UInt64 → Bool} {source : Source}
    {inventory : ReceiverInventoryV03} {w : Session Γ} :
    (sendSourceChunksV03 reserve).Ensures (w, .new source inventory) (Post
      (fun summary t => R w t.1 ∧ summary.fileHash = blake3 source.bytes)
      (fun _ t => R w t.1) fun t => R w t.1) := by
  have := h.refl
  have := h.trans
  have hchunk {chunk : SourceChunkV03} :
      (V03.sendTransmitChunkV03 chunk : Prog (Session Γ) _ _).Keeps R :=
    h.sendTransmitChunkV03 (fun _ => truthful_of_ne (by simp) (by simp))
      fun _ => truthful_of_ne (by simp) (by simp)
  rw [V03.sendSourceChunksV03]
  refine Ensures.bind (R := Post (fun _ (t : Session Γ × SourceScannerV03) =>
      R w t.1 ∧ t.2.fullFileHasher = source.bytes) (fun _ t => R w t.1) fun t => R w t.1)
    (Ensures.loop (I := fun _ s => R w s.1 ∧ Clean source s.2) (fun _ s hs => ?_)
      ⟨Std.Refl.refl w, clean_new⟩) ?_ (fun _ _ h => h) fun _ h => h
  · obtain ⟨hR, hclean⟩ := hs
    rw [ensures_bind, ensures_mapErr, ensures_onScanner]
    refine (nextChunk_spec hclean.aligned).mono fun o scanner ho => ?_
    cases o with
    | err => exact hR
    | halt => exact ho.elim
    | ok chunk? =>
      cases chunk? with
      | none =>
        obtain ⟨-, heof, rfl⟩ := ho
        refine ensures_pure.mpr ⟨hR, ?_⟩
        rw [hclean.took.bytes_eq, heof, Source.bytes_nil, List.append_nil]
      | some chunk =>
        have hless : scanner.layout.chunkCount.toNat - scanner.nextChunkIndex.toNat <
            s.2.layout.chunkCount.toNat - s.2.nextChunkIndex.toNat := by
          have hlt := ho.length_data.1
          rw [ho.layout_eq hclean.aligned, ho.next]
          omega
        have hclean' := (hclean.scanned ho).1
        by_cases htransmit : chunk.disposition = .transmit
        · simp only [post_ok, if_pos htransmit]
          rw [ensures_bind, ensures_onStream]
          refine (hchunk s.1).mono fun o' w' hw' => ?_
          have hall := IsTrans.trans _ _ _ hR hw'
          cases o' with
          | ok => exact ensures_pure.mpr ⟨⟨hall, hclean'⟩, hless⟩
          | err => exact hall
          | halt => exact hall
        · simp only [post_ok, if_neg htransmit]
          exact ensures_pure.mpr ⟨⟨hR, hclean'⟩, hless⟩
  · intro _ t ht
    obtain ⟨hR, hall⟩ := ht
    rw [ensures_bind, ensures_get, post_ok, ensures_ofExcept]
    cases hfinish : t.2.finish with
    | error => exact hR
    | ok summary =>
      simp only [finish, bind_eq_ok, refuseIf_eq_ok, pure_eq_ok] at hfinish
      obtain ⟨-, -, -, -, rfl⟩ := hfinish
      exact ⟨hR, congrArg blake3 hall⟩

theorem sendSourceChunksCompleteAndVerifyV03 {reserve : UInt64 → Bool} {source : Source}
    {inventory : ReceiverInventoryV03} (hsource : source.bytes = content) (w : Session Γ) :
    (sendSourceChunksCompleteAndVerifyV03 reserve).Ensures (w, .new source inventory)
      fun _ t => R w t.1 := by
  have := h.refl
  have := h.trans
  refine Ensures.bind (R := Post (fun _ (t : Session Γ × SourceScannerV03) => R w t.1)
    (fun _ t => R w t.1) fun t => R w t.1) (Ensures.bind h.sendSourceChunksV03 ?_ (fun _ _ h => h)
      fun _ h => h) ?_ (fun _ _ h => h) fun _ h => h
  · intro summary t ht
    obtain ⟨hR, hdigest⟩ := ht
    have hcomplete : Truthful offer content
        ⟨wfpVersionV03, .complete, 0, summary.fileHash.1⟩ := by
      refine ⟨fun ho => MessageType.noConfusion ho, fun _ => ?_⟩
      rw [hdigest, hsource]
    rw [ensures_bind, ensures_onStream]
    refine (h.sendV03 hcomplete t.1).mono fun o w' hw' => ?_
    have hall := IsTrans.trans _ _ _ hR hw'
    cases o with
    | ok => exact ensures_pure.mpr hall
    | err => exact hall
    | halt => exact hall
  · intro summary t hR
    have hrest : (do
        let verified ← onStream ((readFrameForVersion wfpVersionV03).mapErr .protocol)
        .ofExcept (refuseIf (verified.messageType ≠ .verified)
          (.unexpectedMessageType verified.messageType))
        .ofExcept (refuseIf (verified.payload ≠ [])
          (.invalidVerifiedPayload verified.payload.length))
        return summary : SenderV03 Γ SourceScanSummaryV03).Keeps (OnStream R) :=
      (keeps_onStream (h.read.mapErr _)).bind fun _ => (Keeps.ofExcept _).bind fun _ =>
        (Keeps.ofExcept _).bind fun _ => Keeps.pure _
    refine (hrest t).mono fun o t' ht' => ?_
    have hR' : R w t'.1 := IsTrans.trans w t.1 t'.1 hR ht'
    cases o with
    | ok => exact hR'
    | err => exact hR'
    | halt => exact hR'

theorem sendOfferV03 : (sendOfferV03 offer : Prog (Session Γ) _ Unit).Keeps R := by
  have := h.refl
  have := h.trans
  refine (h.sendFrameV03 (truthful_of_ne (by simp) (by simp))).bind fun _ =>
    (h.read.mapErr _).bind fun helloAck => (Keeps.ofExcept _).bind fun _ =>
      (Keeps.ofExcept _).bind fun _ w => ?_
  rw [ensures_bind, ensures_ofExcept]
  cases hencode : encodeOfferV03 offer with
  | error e => exact Std.Refl.refl w
  | ok payload =>
    exact h.sendFrameV03 ⟨fun _ => hencode, fun hc => MessageType.noConfusion hc⟩ w

theorem answerOfferV03 {reserve : UInt64 → Bool} {file : Except IoError Source}
    {layout : ChunkLayout} {offerResponse : Frame}
    (hfile : ∀ source, file = .ok source → source.bytes = content) :
    (answerOfferV03 reserve file layout offerResponse : Prog (Session Γ) _ Unit).Keeps R := by
  have := h.refl
  have := h.trans
  unfold V03.answerOfferV03
  split
  · exact Keeps.ofExcept _
  refine ((h.receiveInventoryAndAcceptAfterResume (truthful_of_ne (by simp)
    (by simp))).mapErr _).bind fun inventory => (Keeps.ofExcept _).bind fun _ w => ?_
  rw [ensures_bind, ensures_ofExcept]
  cases hsource : file with
  | error e => exact Std.Refl.refl w
  | ok source =>
    simp only [Except.mapError, post_ok]
    rw [ensures_bind, ensures_withScanner, ensures_mapErr]
    refine (h.sendSourceChunksCompleteAndVerifyV03 (hfile source hsource) w).mono fun o t ht => ?_
    cases o with
    | ok => exact ensures_pure.mpr ht
    | err => exact ht
    | halt => exact ht

/-- **A whole session.** -/
theorem sendSessionV03 {reserve : UInt64 → Bool} {path : SourcePath}
    {connected : Except IoError Unit} {transferId : TransferId} {chunkSize : NonZeroU64}
    (hoffer : ∀ metadata filename, path.metadata = .ok metadata → path.fileName = some filename →
      offer = { transferId, filename, fileSize := metadata.len, chunkSize := chunkSize.1 })
    (hfile : ∀ source, path.file = .ok source → source.bytes = content) :
    (sendSessionV03 reserve path connected transferId chunkSize :
      Prog (Session Γ) _ Unit).Keeps R := by
  have := h.refl
  have := h.trans
  refine (Keeps.ofExcept _).bind fun _ w => ?_
  rw [sendSessionV03WithStream, ensures_bind, ensures_ofExcept]
  cases hmetadata : path.metadata with
  | error e => exact Std.Refl.refl w
  | ok metadata =>
    simp only [Except.mapError, post_ok]
    refine Keeps.bind (Keeps.ofExcept _) (fun _ w => ?_) w
    rw [ensures_bind, ensures_ofExcept]
    cases hname : path.fileName with
    | none => exact Std.Refl.refl w
    | some filename =>
      simp only [Option.elim, post_ok]
      obtain rfl := hoffer metadata filename hmetadata hname
      refine Keeps.bind h.sendOfferV03 (fun _ => ?_) w
      split
      · exact Keeps.stop
      · exact (h.read.mapErr _).bind fun _ => h.answerOfferV03 hfile

end

end VoicesV03

end Warpfile.V03
