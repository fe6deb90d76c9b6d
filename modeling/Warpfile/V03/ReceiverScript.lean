import Warpfile.V02.Ending
import Warpfile.V03.Assembly
import Warpfile.V03.Completion
import Warpfile.V03.Coverage
import Warpfile.V03.Preparation
import Warpfile.V03.SenderScript

/-!
# The script of a receiver of WFP/0.3

On an open connection, with a disk on which calls succeed and that nobody else uses, the receiver
of an offer follows the script of its sender from the other side. It announces the chunks that the
partial file has, and is sent the others. An offer whose file was received before is settled at
once, be the file published or still under its partial name.
-/

namespace Warpfile.V03

open Prog Connected

section

variable {d : Disk (.alone false false)} {offer : FileOfferV03}

/-! ### The offer -/

theorem plays_receiveOfferV03 (h : NameableV03 offer) :
    Plays (receiveOfferV03 : Prog (Session (.alone false false)) _ _) d (greetingV03 offer).dual
      fun o d' => o = offer ∧ d' = d := by
  have hversion (messageType : MessageType) (ht : messageType ≠ .data) :
      (frameV03 messageType [wfpVersionV03]).header.Acceptable wfpVersionV03 :=
    acceptable_of_le (by simp) ht
  refine (plays_receiveFrameV03 (hversion .hello (by simp))).bind fun hello d' hd => ?_
  obtain ⟨rfl, rfl⟩ := hd
  refine (plays_refuseIf (by simp)).bind_silent fun _ d hd => ?_
  subst hd
  refine (plays_refuseIf (by simp)).bind_silent fun _ d' hd => ?_
  subst hd
  refine (plays_sendFrameV03 (hversion .helloAck (by simp))).bind fun _ d hd => ?_
  subst hd
  refine (plays_receiveFrameV03 h.acceptable).bind_pure fun frame d' hd => ?_
  obtain ⟨rfl, rfl⟩ := hd
  refine (plays_refuseIf (by simp)).bind_silent fun _ d hd => ?_
  subst hd
  exact plays_ofExcept (mapError_eq_ok.mpr (decodeOfferV03_eq_ok.mpr h.encode)) ⟨rfl, rfl⟩

/-! ### The inventory -/

theorem plays_sendBatches {frames : List Frame} {batches : List ChunkHashesBatch}
    (h : Batched frames batches) :
    Plays (sendBatches batches : Prog (Session (.alone false false)) _ Unit) d (tellsAll frames)
      fun _ d' => d' = d := by
  induction h generalizing d with
  | nil => exact plays_pure rfl
  | @cons frame batch frames batches hframe _ ih =>
    obtain ⟨hframe, hbatch, -⟩ := hframe
    obtain ⟨version, messageType, flags, payload⟩ := frame
    simp only [Frame.mk.injEq] at hframe
    obtain ⟨rfl, rfl, rfl, -⟩ := hframe
    have hacceptable : (frameV03 .chunkHashes payload).header.Acceptable wfpVersionV03 :=
      acceptable_of_le (length_of_encodeChunkHashes hbatch) (by simp)
    refine (plays_ofExcept (a := payload) (Q := fun a d' => a = payload ∧ d' = d)
      (mapError_eq_ok.mpr hbatch) ⟨rfl, rfl⟩).bind_silent fun a d' hd => ?_
    obtain ⟨rfl, rfl⟩ := hd
    refine (plays_sendFrameV03 hacceptable).bind fun _ d hd => ?_
    subst hd
    exact ih

/-- **The inventory is announced**, and the sender accepts it. -/
theorem plays_negotiateInventory {state : ChunkState} {path : Path} {file : File}
    {identity : TransferIdentity} {frames : List Frame}
    (h : Inventory state.layout frames (chunkHashBatches state)) :
    Plays (negotiateInventory (advertised path file state identity) :
      Prog (Session (.alone false false)) _ _) d (tellsAll frames ++ hears acceptFrame)
      fun accepted d' => accepted = ⟨path, file, .new state, identity⟩ ∧ d' = d := by
  obtain ⟨n, hashes, rfl, hhashes, -, hlen⟩ := h.frames_eq
  obtain rfl : UInt64.ofNat state.chunks.length = n := by
    rw [concatenation_chunkHashBatches, List.length_map] at hlen
    rw [hlen, UInt64.ofNat_toNat]
  rw [show tellsAll (resumeFrame (.ofNat state.chunks.length) :: hashes) ++ hears acceptFrame =
    tells (resumeFrame (.ofNat state.chunks.length)) ++ (tellsAll hashes ++ hears acceptFrame) by
      simp [tellsAll]]
  refine (plays_sendFrameV03 (acceptable_resumeFrame _)).bind fun _ d' hd => ?_
  subst hd
  refine (plays_sendBatches hhashes).bind fun _ d hd => ?_
  subst hd
  have haccept : acceptFrame.header.Acceptable wfpVersionV03 :=
    acceptable_of_le (by simp) (by simp)
  refine (plays_receiveFrameV03 haccept).bind_pure fun frame d' hd => ?_
  obtain ⟨rfl, rfl⟩ := hd
  rw [if_neg (by simp [acceptFrame]), if_neg (by simp [acceptFrame])]
  exact plays_pure ⟨rfl, rfl⟩

/-! ### The chunks -/

section

variable [Crates] {file : File} {path : Path} {content : Bytes} {inventory : ReceiverInventoryV03}
  {fs₀ : Fs} {data : ℕ → List Frame} {receiver : ChunkReceiverV03}

omit [Crates] in
/-- A call on the receiver that does not fail. -/
theorem plays_onReceiver {ε ε' α : Type}
    {p : Prog (ChunkReceiverV03 × Disk (.alone false false)) ε α}
    {g : ε → ε'} {Q : α → ChunkReceiverV03 × Disk (.alone false false) → Prop}
    (h : p.Ensures (receiver, d) (Post Q (fun _ _ => False) fun _ => False)) :
    Plays ((onReceiver receiver p).mapErr g : Prog (Session (.alone false false)) ε' _) d []
      fun r d' => Q r.1 (r.2, d') := by
  refine Plays.mapErr (plays_silent fun w hw => ?_)
  obtain rfl : w.disk = d := hw
  rw [ensures_onReceiver]
  refine h.mono fun o t h' => ?_
  cases o with
  | ok => exact ⟨h', rfl⟩
  | err => exact h'
  | halt => exact h'

omit [Crates] in
theorem Carries.eq_nil {offset : ℕ} {bytes : Bytes} {frames : List Frame}
    (h : Carries offset bytes frames) (hb : bytes = []) : frames = [] := by
  cases h with
  | nil => rfl
  | cons _ hne => exact absurd (List.append_eq_nil_iff.mp hb).1 hne

/-- The frames for the chunks from `n` on. -/
noncomputable def framesFrom (inventory : ReceiverInventoryV03) (content : Bytes)
    (data : ℕ → List Frame) (n : ℕ) : List Frame :=
  (List.range' n (inventory.layout.chunkCount.toNat - n)).flatMap
    (framesOf inventory content data)

theorem framesFrom_of_lt {n : ℕ} (h : n < inventory.layout.chunkCount.toNat) :
    framesFrom inventory content data n =
      framesOf inventory content data n ++ framesFrom inventory content data (n + 1) := by
  obtain ⟨k, hk⟩ : ∃ k, inventory.layout.chunkCount.toNat - n = k + 1 :=
    ⟨inventory.layout.chunkCount.toNat - n - 1, by omega⟩
  rw [framesFrom, hk, List.range'_succ, List.flatMap_cons, framesFrom,
    show inventory.layout.chunkCount.toNat - (n + 1) = k by omega]

/-- No frames are left exactly when no chunk that is needed is. -/
theorem framesFrom_eq_nil {n : ℕ} : framesFrom inventory content data n = [] ↔
    ∀ i, n ≤ i → i < inventory.layout.chunkCount.toNat → ¬Needed inventory content i := by
  rw [framesFrom, List.flatMap_eq_nil_iff]
  constructor
  · intro h i hn hi hneeded
    have := h i (List.mem_range'_1.mpr (by omega))
    rw [framesOf, if_pos hneeded] at this
    cases this
  · intro h i hi
    rw [List.mem_range'_1] at hi
    rw [framesOf, if_neg (h i hi.1 (by omega))]

/-- The first frame that is left begins the next chunk that is needed. -/
theorem framesFrom_eq_cons {n : ℕ} {frame : Frame} {frames : List Frame}
    (h : framesFrom inventory content data n = frame :: frames) :
    ∃ m, n ≤ m ∧ m < inventory.layout.chunkCount.toNat ∧ Needed inventory content m ∧
      (∀ i, n ≤ i → i < m → ¬Needed inventory content i) ∧
      frame = chunkStartFrame (.ofNat m) (blake3 (chunkBytes inventory.layout content m)) ∧
      frames = data m ++ framesFrom inventory content data (m + 1) := by
  induction hk : inventory.layout.chunkCount.toNat - n generalizing n with
  | zero =>
    rw [framesFrom, hk] at h
    cases h
  | succ k ih =>
    rw [framesFrom_of_lt (by omega)] at h
    by_cases hneeded : Needed inventory content n
    · rw [framesOf, if_pos hneeded, List.cons_append] at h
      obtain ⟨rfl, rfl⟩ := List.cons.inj h
      exact ⟨n, le_rfl, by omega, hneeded, fun i hi hi' => absurd hi (by omega), rfl, rfl⟩
    · rw [framesOf, if_neg hneeded, List.nil_append] at h
      obtain ⟨m, hnm, hm, hneeded', hskip, heq⟩ := ih h (by omega)
      refine ⟨m, by omega, hm, hneeded', fun i hi hi' => ?_, heq⟩
      obtain rfl | hlt := Nat.eq_or_lt_of_le hi
      · exact hneeded
      · exact hskip i hlt hi'

/-- What holds while `frames` are still to come. -/
def Awaiting (file : File) (path : Path) (content : Bytes) (inventory : ReceiverInventoryV03)
    (fs₀ : Fs) (data : ℕ → List Frame) (frames : List Frame) (receiver : ChunkReceiverV03)
    (d : Disk (.alone false false)) : Prop :=
  (∃ n, BetweenChunks file path content inventory fs₀ n receiver d.fs ∧
      frames = framesFrom inventory content data n) ∨
    ∃ m pos active fragments,
      WithinChunk file path content inventory fs₀ m pos active receiver d.fs ∧
        Carries pos ((chunkBytes inventory.layout content m).drop
          (pos - m * inventory.layout.chunkSize.toNat)) fragments ∧
        frames = fragments ++ framesFrom inventory content data (m + 1)

/-- One frame of the transfer is taken. -/
theorem plays_receiveTransferFrame {frame : Frame} {frames : List Frame}
    (hlen : content.length = inventory.layout.fileSize.toNat)
    (hdata : ∀ i < inventory.layout.chunkCount.toNat, Needed inventory content i →
      Carries (i * inventory.layout.chunkSize.toNat) (chunkBytes inventory.layout content i)
        (data i))
    (h : Awaiting file path content inventory fs₀ data (frame :: frames) receiver d) :
    Plays (receiveTransferFrame file path receiver : Prog (Session (.alone false false)) _ _) d
      (hears frame) fun r d' => ∃ receiver', r = .inl receiver' ∧
        Awaiting file path content inventory fs₀ data frames receiver' d' := by
  obtain ⟨n, hbetween, hframes⟩ | ⟨m, pos, active, fragments, hwithin, hcarries, hframes⟩ := h
  · obtain ⟨m, hnm, hm, hneeded, hskip, rfl, rfl⟩ := framesFrom_eq_cons hframes.symm
    have hacceptable : (chunkStartFrame (.ofNat m)
        (blake3 (chunkBytes inventory.layout content m))).header.Acceptable wfpVersionV03 := by
      refine acceptable_of_le ?_ (by simp)
      rw [encodeChunkStartV03, List.length_append, length_word,
        (blake3 (chunkBytes inventory.layout content m)).2]
      decide
    obtain ⟨chunkStart, hchunkStart⟩ : ∃ chunkStart : ChunkStartV03, chunkStart =
        ⟨.ofNat m, blake3 (chunkBytes inventory.layout content m)⟩ := ⟨_, rfl⟩
    have hdecode : decodeChunkStartV03 (chunkStartFrame (.ofNat m)
        (blake3 (chunkBytes inventory.layout content m))).payload = .ok chunkStart :=
      decodeChunkStartV03_eq_ok.mpr (by rw [hchunkStart]; rfl)
    refine (plays_receiveFrameV03 hacceptable).bind_pure fun f d' hd => ?_
    obtain ⟨rfl, rfl⟩ := hd
    refine (plays_ofExcept (a := chunkStart) (Q := fun a d => a = chunkStart ∧ d = d')
      (mapError_eq_ok.mpr hdecode) ⟨rfl, rfl⟩).bind_silent ?_
    intro a d hd
    obtain ⟨rfl, rfl⟩ := hd
    rw [hchunkStart]
    refine (plays_onReceiver (hbetween.begin hlen hnm hm hneeded hskip)).bind_silent
      fun r d' hr => ?_
    obtain ⟨⟨⟩, receiver'⟩ := r
    obtain ⟨active, hwithin⟩ := hr
    exact plays_pure ⟨receiver', rfl, .inr ⟨m, _, active, data m, hwithin, by
      rw [Nat.sub_self, List.drop_zero]; exact hdata m hm hneeded, rfl⟩⟩
  · have hne : (chunkBytes inventory.layout content m).drop
        (pos - m * inventory.layout.chunkSize.toNat) ≠ [] := by
      have := hwithin.pos_lt
      have := hwithin.le hlen
      rw [Ne, List.drop_eq_nil_iff]
      omega
    obtain ⟨bytes, hbytes⟩ : ∃ bytes, bytes = (chunkBytes inventory.layout content m).drop
        (pos - m * inventory.layout.chunkSize.toNat) := ⟨_, rfl⟩
    rw [← hbytes] at hne hcarries
    cases hcarries with
    | nil => exact absurd rfl hne
    | @cons _ absoluteOffset fragment rest fragments hoffset hnil hle hrest =>
      obtain ⟨rfl, rfl⟩ := List.cons.inj hframes
      obtain ⟨message, hmessage⟩ : ∃ message : DataV03, message = ⟨absoluteOffset, fragment⟩ :=
        ⟨_, rfl⟩
      have hdecode : decodeDataV03 (word absoluteOffset ++ fragment) = .ok message := by
        rw [hmessage, decodeDataV03_eq_ok]
        simp only [encodeDataV03, bind_eq_ok, refuseIf_eq_ok, pure_eq_ok]
        exact ⟨(), hnil, (), not_lt.mpr hle, trivial⟩
      have hfits : (word absoluteOffset ++ fragment).length ≤ maxDataPayloadLength := by
        rw [List.length_append, length_word]
        simp only [v03MaxDataBytes, v03DataOffsetLength, maxDataPayloadLength] at hle ⊢
        omega
      have hacceptable : (frameV03 .data (word absoluteOffset ++ fragment)).header.Acceptable
          wfpVersionV03 :=
        ⟨rfl, rfl, rfl, rfl, hfits.trans (by decide), fun _ => hfits⟩
      refine (plays_receiveFrameV03 hacceptable).bind_pure fun f d' hd => ?_
      obtain ⟨rfl, rfl⟩ := hd
      refine (plays_ofExcept (a := message) (Q := fun a d => a = message ∧ d = d')
        (mapError_eq_ok.mpr hdecode) ⟨rfl, rfl⟩).bind_silent ?_
      intro a d hd
      obtain ⟨rfl, rfl⟩ := hd
      have hoffset' : a.absoluteOffset.toNat = pos := by
        rw [hmessage]
        exact hoffset
      have hbytes' : (chunkBytes inventory.layout content m).drop
          (pos - m * inventory.layout.chunkSize.toNat) = a.data ++ rest := by
        rw [hmessage]
        exact hbytes.symm
      have hwrite := hwithin.write hlen hoffset' hbytes'
      refine (plays_onReceiver hwrite).bind_silent fun r d' hr => ?_
      obtain ⟨⟨⟩, receiver'⟩ := r
      obtain ⟨hfinished, hadvanced⟩ := hr
      refine plays_pure ⟨receiver', rfl, ?_⟩
      by_cases hlast : rest = []
      · -- the chunk is complete, and no fragment of it is left
        rw [hrest.eq_nil hlast]
        exact .inl ⟨m + 1, hfinished hlast, rfl⟩
      · obtain ⟨active', hwithin'⟩ := hadvanced hlast
        rw [hmessage] at hwithin'
        refine .inr ⟨m, _, active', fragments, hwithin', ?_, rfl⟩
        rw [show pos + fragment.length - m * inventory.layout.chunkSize.toNat =
          (pos - m * inventory.layout.chunkSize.toNat) + fragment.length by
            have := hwithin.le hlen
            omega, ← List.drop_drop, ← hbytes, List.drop_left]
        exact hrest

/-- **The chunks that are missing are received**: with COMPLETE the partial file is the file. -/
theorem plays_receiveTransfer {identity : TransferIdentity}
    (hlen : content.length = inventory.layout.fileSize.toNat)
    (hdata : ∀ i < inventory.layout.chunkCount.toNat, Needed inventory content i →
      Carries (i * inventory.layout.chunkSize.toNat) (chunkBytes inventory.layout content i)
        (data i))
    (h : BetweenChunks file path content inventory fs₀ 0 receiver d.fs) :
    Plays (receiveTransfer ⟨path, file, receiver, identity⟩ :
      Prog (Session (.alone false false)) _ _) d
      (hearsAll (framesFrom inventory content data 0) ++ hears (completeFrame (blake3 content)))
      fun received d' => ∃ receiver', received =
          ⟨file, path, receiver', blake3 content, identity⟩ ∧
        Assembled file path content inventory fs₀ (fun _ => True) receiver' d'.fs ∧
        d'.fs.data file.ino = content := by
  have hcomplete : (completeFrame (blake3 content)).header.Acceptable wfpVersionV03 :=
    acceptable_of_le (by rw [(blake3 content).2]; decide) (by simp)
  refine Plays.bind_pure (R := fun r d' => r.2 = blake3 content ∧
    Assembled file path content inventory fs₀ (fun _ => True) r.1 d'.fs ∧
    d'.fs.data file.ino = content) ?_ fun r d' hr => ?_
  · refine plays_loop_input (I := Awaiting file path content inventory fs₀ data) (fun _ _ => rfl)
      (fun frame => ?_) (fun frame frames receiver t h => plays_receiveTransferFrame hlen hdata h)
      (fun receiver t h => ?_) (.inl ⟨0, h, rfl⟩)
    · rw [recvs_hears]
      exact List.length_pos_iff.mp (Frame.length_encoding_pos _)
    · obtain ⟨n, hbetween, hframes⟩ | ⟨m, pos, active, fragments, hwithin, hcarries, hframes⟩ := h
      · have hnone := framesFrom_eq_nil.mp hframes.symm
        refine (plays_receiveFrameV03 hcomplete).bind_pure fun f t' ht => ?_
        obtain ⟨rfl, rfl⟩ := ht
        refine (plays_ofExcept (a := blake3 content) (Q := fun a t => a = blake3 content ∧ t = t')
          (hbetween.checkComplete hnone _) ⟨rfl, rfl⟩).bind_silent fun a t ht => ?_
        obtain ⟨rfl, rfl⟩ := ht
        exact plays_pure ⟨_, rfl, rfl, hbetween.whole hnone, hbetween.data_eq hlen hnone⟩
      · -- an active chunk has bytes to come
        obtain rfl := (List.append_eq_nil_iff.mp hframes.symm).1
        have hpos := hwithin.pos_lt
        have hle := hwithin.le hlen
        generalize hbytes : (chunkBytes inventory.layout content m).drop
          (pos - m * inventory.layout.chunkSize.toNat) = bytes at hcarries
        cases hcarries
        rw [List.drop_eq_nil_iff] at hbytes
        omega
  · obtain ⟨receiver', hash⟩ := r
    obtain ⟨rfl, hassembled, hcontent⟩ := hr
    exact plays_pure ⟨receiver', rfl, hassembled, hcontent⟩

end

end

/-! ### What is held already -/

section

variable [Crates] {path : Path} {fs fs' : Fs} {layout : ChunkLayout} {content : Bytes}

theorem valid_inventory : ValidChunks layout (fs.inventory path layout) := by
  unfold Fs.inventory
  cases hs : fs.chunkState path with
  | none => exact validChunks_nil
  | some state =>
    dsimp only
    split_ifs with hl
    · rw [← hl]
      unfold Fs.trueChunks
      cases fs.read path with
      | none => exact validChunks_nil
      | some bytes => exact state.valid.sublist (trueChunks_sublist ..)
    · exact validChunks_nil

/-- The state that the receiver finds: the records of the snapshot that are true. -/
noncomputable def heldState (fs : Fs) (path : Path) (layout : ChunkLayout) : ChunkState :=
  ⟨layout, fs.inventory path layout, valid_inventory⟩

omit [Crates] in
/-- The inventory that a state announces. -/
def announcedBy (state : ChunkState) : ReceiverInventoryV03 where
  layout := state.layout
  records := state.chunks.map chunkHashRecord
  increasing := (validRecords_chunks state).increasing
  inRange := (validRecords_chunks state).inRange

/-- What is held depends on the partial file and its snapshot alone. -/
theorem heldState_congr (hpart : fs'.read path = fs.read path)
    (hsnapshot : fs'.read (chunkStatePath path) = fs.read (chunkStatePath path)) :
    heldState fs' path layout = heldState fs path layout := by
  have hstate : fs'.chunkState path = fs.chunkState path := by
    rw [Fs.chunkState, Fs.chunkState, hsnapshot]
  have hinventory : fs'.inventory path layout = fs.inventory path layout := by
    unfold Fs.inventory Fs.trueChunks
    rw [hstate, hpart]
  simp only [heldState, hinventory]

/-- The bytes of the partial file are not mistaken for the file's: a chunk with the digest of the
file's chunk is it, and so is the whole. -/
structure GenuineV03 (content : Bytes) (path : Path) (layout : ChunkLayout) (fs : Fs) : Prop where
  chunk : ∀ i < layout.chunkCount.toNat,
    blake3 (chunkBytes layout (partialBytes fs path) i) = blake3 (chunkBytes layout content i) →
      chunkBytes layout (partialBytes fs path) i = chunkBytes layout content i
  whole : (partialBytes fs path).length = content.length →
    blake3 (partialBytes fs path) = blake3 content → partialBytes fs path = content

theorem GenuineV03.congr (h : GenuineV03 content path layout fs)
    (hpart : fs'.read path = fs.read path) : GenuineV03 content path layout fs' := by
  have hbytes : partialBytes fs' path = partialBytes fs path := by
    rw [partialBytes, partialBytes, hpart]
  refine ⟨?_, ?_⟩
  · rw [hbytes]
    exact h.chunk
  · rw [hbytes]
    exact h.whole

/-- **A prepared receiver stands before the first chunk.** -/
theorem Prepared.betweenChunks {offer : FileOfferV03} {prepared : PreparedReceiverV03}
    (hp : path ≠ []) (h : Prepared false fs path offer prepared fs')
    (hgenuine : GenuineV03 content path prepared.receiver.chunkState.layout fs)
    (hregular : fs'.Regular {chunkStateTemporaryPath path, chunkStatePath path}) :
    BetweenChunks prepared.file path content (announcedBy prepared.receiver.chunkState) fs' 0
      (.new prepared.receiver.chunkState) fs' := by
  have hconsistent := h.consistent hp
  rw [h.fresh] at hconsistent
  have hchunks := h.inventory.resolve_right (by simp)
  refine ⟨⟨hconsistent, rfl, fun i hi hdone => ?_, fun c hc _ => List.mem_map_of_mem hc, .refl _,
    hregular⟩, rfl, rfl, fun _ hprevious => by simp [ChunkReceiverV03.new] at hprevious,
    Nat.zero_le _⟩
  -- the chunk is recorded with the hash of the file's chunk
  have hneeded := hdone.resolve_left (Nat.not_lt_zero i)
  rw [Needed] at hneeded
  push Not at hneeded
  obtain ⟨r, hr, hri, hhash⟩ := hneeded
  obtain ⟨c, hc, rfl⟩ := List.mem_map.mp hr
  replace hri : c.index.toNat = i := hri
  refine ⟨?_, c, hc, hri⟩
  rw [hchunks] at hc
  obtain ⟨range, hrange, hle, htrue⟩ := mem_inventory hc
  have hfit := range_le hrange
  have hslice (bytes : Bytes) :
      chunkBytes prepared.receiver.chunkState.layout bytes i = range.slice bytes := by
    rw [← hri]
    exact chunkBytes_eq_slice hrange
  have hsame : chunkBytes prepared.receiver.chunkState.layout (fs'.data prepared.file.ino) i =
      chunkBytes prepared.receiver.chunkState.layout (partialBytes fs path) i := by
    rw [hslice, hslice, h.resized.data, ChunkRange.slice, ChunkRange.slice,
      slice_takeD (by rw [← h.fileSize]; exact hfit) hle]
  refine hsame.trans (hgenuine.chunk i hi ?_)
  rw [hslice]
  exact htrue.trans hhash

theorem Prepared.eq_advertised {offer : FileOfferV03} {prepared : PreparedReceiverV03}
    (h : Prepared false fs path offer prepared fs') :
    prepared = advertised path prepared.file prepared.receiver.chunkState
      ⟨offer.transferId, offer.filename⟩ := by
  obtain ⟨path', file, receiver, resume, batches, identity⟩ := prepared
  obtain rfl : path' = path := h.partialPath
  obtain rfl : identity = ⟨offer.transferId, offer.filename⟩ := h.identity
  have hresume : resume = ⟨.ofNat receiver.chunkState.chunks.length⟩ := h.resume
  have hbatches : batches = chunkHashBatches receiver.chunkState := h.batches
  have hfresh : receiver = .new receiver.chunkState := h.fresh
  rw [advertised, hresume, hbatches, ← hfresh]

/-- The state of a prepared receiver is the one it found. -/
theorem Prepared.heldState_eq {offer : FileOfferV03} {prepared : PreparedReceiverV03}
    (h : Prepared false fs path offer prepared fs')
    (hlayout : prepared.receiver.chunkState.layout = layout) :
    prepared.receiver.chunkState = heldState fs path layout := by
  have hchunks := h.inventory.resolve_right (by simp)
  rcases hs : prepared.receiver.chunkState with ⟨layout', chunks, valid⟩
  rw [hs] at hchunks hlayout
  subst hlayout
  simp only at hchunks
  subst hchunks
  rfl

end

end Warpfile.V03
