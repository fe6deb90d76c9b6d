import Warpfile.V02.SenderScript
import Warpfile.V02.Soundness

/-!
# The script of a receiver of WFP/0.2

On an open connection, with a disk on which calls succeed and that nobody else uses, the receiver
of an offer follows the script of its sender from the other side. What it answers depends on what
a partial file holds (`resumeOffset`); an offer that has a receipt is settled at once.
-/

namespace Warpfile.V02

open Prog Connected

section

variable {Γ : Setting} {ε α : Type} {d : Disk Γ} {script : Script} {Q : α → Disk Γ → Prop}

/-! ### Steps -/

theorem plays_orReject {message : String} {p : Receiver Γ α} (h : Plays p d script Q) :
    Plays (orReject message p) d script Q := by
  refine Plays.bind_pure (R := fun r d' => ∃ a, r = .ok a ∧ Q a d') ?_ fun r d' hr => ?_
  · exact Plays.attempt (h.mono fun a d' ha => ⟨a, rfl, ha⟩)
  · obtain ⟨a, rfl, ha⟩ := hr
    exact plays_pure ha

theorem plays_send {t : MessageType} {payload : Bytes}
    (h : (Frame.new t payload).header.Acceptable wfpVersion) :
    Plays (send t payload : Receiver Γ Unit) d (tells (Frame.new t payload)) fun _ d' => d' = d :=
  (plays_writeFrame h.encodable).mapErr

theorem plays_receive {frame : Frame} (h : frame.header.Acceptable wfpVersion) :
    Plays (readFrame.mapErr ReceiverError.protocol : Receiver Γ Frame) d (hears frame)
      fun f d' => f = frame ∧ d' = d :=
  (plays_readFrame h).mapErr

end

section

variable [Crates] {d : Disk (.alone false false)} {path dest : Path} {offer : FileOffer}

/-! ### The offer -/

omit [Crates] in
theorem plays_receiveOffer (h : Nameable offer) (hsafe : isSafeFilename offer.filename) :
    Plays (receiveOffer : Receiver (.alone false false) _) d (greeting offer).dual
      fun o d' => o = offer ∧ d' = d := by
  refine (plays_receive (acceptable_version rfl)).bind fun hello d' hd => ?_
  obtain ⟨rfl, rfl⟩ := hd
  refine plays_check (by simp) (plays_check (by simp) ?_)
  refine (plays_send (acceptable_version rfl)).bind fun _ d hd => ?_
  subst hd
  refine (plays_receive h.acceptable).bind_pure fun frame d hd => ?_
  obtain ⟨rfl, rfl⟩ := hd
  refine plays_check (by simp) ?_
  refine (plays_ofExcept (a := offer) (Q := fun o d' => o = offer ∧ d' = d)
    (mapError_eq_ok.mpr (decodeOffer_eq_ok.mpr h.encode)) ⟨rfl, rfl⟩).bind_silent fun o d' hd => ?_
  obtain ⟨rfl, rfl⟩ := hd
  simp only [hsafe, Bool.not_true, Bool.false_eq_true, if_false]
  exact plays_pure ⟨rfl, rfl⟩

/-! ### Preparing -/

theorem plays_prepareFreshTransfer (hp : path ≠ []) (hdir : d.fs.isDir path.dropLast)
    (hn : d.fs.names path = none) (htidy : ¬d.fs.Untidy path) :
    Plays (prepareFreshTransfer path (transferMetadataForOffer offer)) d
      (tells (Frame.new .accept [])) fun prepared _ => prepared.hasher = [] := by
  have hpM : path ∉ metadataNames path := notMem_metadataNames hp
  refine (plays_orReject (plays_files (removeTransferMetadata_spec.succeeds
    (fun e t h => htidy (h.2.resolve_left (by simp))) fun t h => by simp at h))).bind_silent ?_
  intro _ d₁ h₁
  obtain ⟨h₁, hM, hMt⟩ := h₁
  have hn₁ : d₁.fs.names path = none := (h₁.names_eq' hpM (Set.notMem_empty _)).trans hn
  have hdir₁ := isDir_within (Within.scratch_of_metadataNames h₁) hdir
  refine (plays_orReject (plays_files ((Storage.createRegular_spec hp).succeeds
    (fun e t h => ?_) fun t h => by simp at h))).bind_silent fun output d₂ h₂ => ?_
  · exact h.2.elim (by simp) fun h => h.elim (fun h => h hn₁) fun h => h hdir₁
  obtain ⟨-, -, h₂, rfl⟩ := h₂
  -- the new file stands in the way of nothing
  have hnames₂ : d₂.fs.names = Function.update d₁.fs.names path (some (.file d₁.fs.next)) := by
    rw [h₂, Fs.names_create hp hdir₁ hn₁]
  have hdir₂ : d₂.fs.isDir path.dropLast := by
    rw [h₂]
    exact isDir_within (Fs.Within.create (.inl rfl)) hdir₁
  have htidy₂ : ¬d₂.fs.Untidy path := by
    refine Fs.not_untidy hdir₂ ?_ ?_
    · rw [hnames₂, Function.update_of_ne fun h => hpM (.inr h.symm), hM]
    · rw [hnames₂, Function.update_of_ne fun h => hpM (.inl h.symm), hMt]
  refine Plays.bind_silent (R := fun _ _ => True) ?_ fun _ d₃ _ => ?_
  · refine (plays_attempt_files (Q := fun r _ => r = .ok ()) ?_).bind_silent fun r d₃ hr => ?_
    · refine writeTransferMetadata_spec.mono fun o d' h => ?_
      cases o with
      | ok => rfl
      | err => exact ((h.2.resolve_left (by simp)).elim htidy₂ fun h => h hdir₂).elim
      | halt => simp at h
    · subst hr
      exact plays_pure trivial
  · refine Plays.bind_pure (R := fun _ _ => True) ?_ fun _ d₄ _ => plays_pure rfl
    refine Plays.bind_pure (R := fun r _ => r = .ok ()) ?_ fun r d₄ hr => ?_
    · exact Plays.attempt ((plays_send (acceptable_empty rfl)).mono fun _ _ _ => rfl)
    · subst hr
      exact plays_pure trivial

/-- Discarding a partial file, and starting over. -/
theorem plays_discardPartialState {message : String} {i : ℕ} (hp : path ≠ [])
    (hname : d.fs.names path = some (.file i)) (htidy : ¬d.fs.Untidy path) :
    Plays (do
      orReject message (World.onDisk (discardPartialState path))
      prepareFreshTransfer path (transferMetadataForOffer offer)) d
      (tells (Frame.new .accept [])) fun prepared _ => prepared.hasher = [] := by
  have hdir : d.fs.isDir path.dropLast := Fs.isDir_dropLast (by simp [hname])
  refine (plays_orReject (plays_onDisk ((discardPartialState_spec hp).succeeds
    (fun e t h => ?_) fun t h => by simp at h))).bind_silent fun _ d₁ h₁ => ?_
  · exact (h.2.resolve_left (by simp)).elim (fun h => h.not_file hp hname) htidy
  · obtain ⟨h₁, hnone⟩ := h₁
    have hdir₁ := isDir_within h₁ hdir
    exact plays_prepareFreshTransfer hp hdir₁ (hnone _ (.inl rfl))
      (Fs.not_untidy hdir₁ (hnone _ (.inr (.inr rfl))) (hnone _ (.inr (.inl rfl))))

/-- How RESUME is answered, and what is kept: after ACCEPT everything, and nothing after RESTART,
which the receiver accepts. -/
inductive Responded (bytes : Bytes) : Frame → Script → Bytes → Prop
  | accepted : Responded bytes (Frame.new .accept []) [] bytes
  | restarted : Responded bytes (Frame.new .restart []) (tells (Frame.new .accept [])) []

theorem plays_answerResume {output : File} {bytes kept : Bytes} {matched : Bool} {response : Frame}
    {script : Script} (hp : path ≠ []) (hname : d.fs.names path = some (.file output.ino))
    (hdata : d.fs.data output.ino = bytes) (htidy : ¬d.fs.Untidy path)
    (hr : Responded bytes response script kept) :
    Plays (answerResume path output bytes bytes.length matched (transferMetadataForOffer offer)
      response) d script fun prepared _ => prepared.hasher = kept := by
  unfold answerResume
  cases hr with
  | accepted =>
    dsimp only
    rw [if_neg (by simp)]
    refine (plays_files (File.metadata_spec.succeeds (fun e t h => by simp at h)
      fun t h => by simp at h)).bind_silent fun m d₁ h₁ => ?_
    obtain ⟨h₁, rfl⟩ := h₁
    rw [if_neg (by simp [hdata])]
    cases matched with
    | true => exact plays_pure rfl
    | false =>
      refine (plays_files (writeTransferMetadata_spec.succeeds (fun e t h => ?_)
        fun t h => by simp at h)).bind_silent fun _ d₂ h₂ => plays_pure rfl
      rw [h₁] at h
      exact (h.2.resolve_left (by simp)).elim htidy fun h => h (Fs.isDir_dropLast (by simp [hname]))
  | restarted =>
    dsimp only
    rw [if_neg (by simp)]
    exact plays_discardPartialState hp hname htidy

/-- **A partial file is continued**, or the sender has it discarded. -/
theorem plays_resumeTransfer {i : ℕ} {bytes kept : Bytes} {response : Frame} {script : Script}
    (hp : path ≠ []) (hname : d.fs.names path = some (.file i)) (hdata : d.fs.data i = bytes)
    (htidy : ¬d.fs.Untidy path) (hr : Responded bytes response script kept) :
    Plays (resumeTransfer path bytes.length (transferMetadataForOffer offer)) d
      (tells (resumeFrame bytes) ++ (hears response ++ script))
      fun prepared _ => prepared.hasher = kept := by
  refine (plays_attempt_files (Q := fun _ d' => d'.fs = d.fs) ?_).bind_silent fun stored d₁ h₁ => ?_
  · refine readTransferMetadata_spec.mono fun o d' h => ?_
    cases o with
    | ok => exact h.1
    | err => exact h
    | halt => simp at h
  refine (plays_files ((Storage.openRegular_spec hp).succeeds (fun e t h => ?_)
    fun t h => by simp at h)).bind_silent fun output d₂ h₂ => ?_
  · rw [h₁] at h
    refine (h.2.2.resolve_left (by simp)).elim (fun h => h.not_file hp hname) fun hk => ?_
    exact absurd (h.2.1 hk) (by simp [hname])
  obtain ⟨h₂, hn, -, -⟩ := h₂
  replace h₂ : d₂.fs = d.fs := h₂.trans h₁
  have hino : output.ino = i := by
    rw [h₁, hname] at hn
    simpa using hn.symm
  have hlen : (d₂.fs.data output.ino).length = bytes.length := by rw [h₂, hino, hdata]
  have hspec : (hashFileContents (output.seek 0) bytes.length).Ensures d₂ _ :=
    hashFileContents_spec rfl
  refine (plays_orReject (plays_files (hspec.succeeds
    (fun e t h => h.2.elim (by simp) fun h => h hlen) fun t h => by simp at h))).bind_silent ?_
  intro r d₃ h₃
  obtain ⟨hasher, output'⟩ := r
  obtain ⟨h₃, hh, -, ho⟩ := h₃
  dsimp only at hh ho
  replace h₃ : d₃.fs = d.fs := h₃.trans h₂
  obtain rfl : hasher = bytes := by
    rw [hh, h₂, show (output.seek 0).ino = i from hino, hdata]
  subst ho
  have hresume : (resumeFrame hasher).header.Acceptable wfpVersion := acceptable_resume
  have hacc : response.header.Acceptable wfpVersion := by
    cases hr with
    | accepted => exact acceptable_empty rfl
    | restarted => exact acceptable_empty rfl
  refine Plays.bind (R := fun r d' => r = .ok () ∧ d' = d₃) ?_ fun r d' hd => ?_
  · exact Plays.attempt ((plays_send hresume).mono fun _ _ h => ⟨rfl, h⟩)
  obtain ⟨rfl, rfl⟩ := hd
  refine Plays.bind (R := fun r d'' => r = .ok response ∧ d'' = d') ?_ fun r d'' hd => ?_
  · exact Plays.attempt ((plays_receive hacc).mono fun _ _ h => ⟨by rw [h.1], h.2⟩)
  obtain ⟨rfl, rfl⟩ := hd
  refine plays_answerResume hp ?_ ?_ ?_ hr
  · rw [h₃, hname]
    exact congrArg (some ∘ Node.file) hino.symm
  · rw [h₃, ← hdata]
    exact congrArg d.fs.data hino
  · rwa [h₃]

/-- The bytes of a partial file that are kept: all of them, where they have the digest of as many
bytes of the offered file. -/
def resumable (content : Bytes) (path : Path) (fs : Fs) : Bytes :=
  match fs.read path with
  | some bytes =>
    if bytes.length ≤ content.length ∧ blake3 bytes = blake3 (content.take bytes.length) then bytes
    else []
  | none => []

/-- What is done with a partial file: it is discarded where nothing can be continued, else the
sender decides. -/
theorem exists_plays_kept {content : Bytes} {fs : Fs} {i : ℕ} {message : String} (hp : path ≠ [])
    (hsize : content.length = offer.fileSize.toNat) (hname : fs.names path = some (.file i)) :
    ∃ response settle, SettledAt content offer.fileSize response settle
        (resumable content path fs).length ∧ ∀ d : Disk (.alone false false),
      d.fs.names path = some (.file i) → d.fs.data i = fs.data i → ¬d.fs.Untidy path →
      ((fs.data i).length = 0 ∨ (fs.data i).length > offer.fileSize.toNat →
        Plays (do
          orReject message (World.onDisk (discardPartialState path))
          prepareFreshTransfer path (transferMetadataForOffer offer)) d
          (tells response ++ Script.dual settle)
          fun prepared _ => prepared.hasher = resumable content path fs) ∧
      (¬((fs.data i).length = 0 ∨ (fs.data i).length > offer.fileSize.toNat) →
        Plays (resumeTransfer path (fs.data i).length (transferMetadataForOffer offer)) d
          (tells response ++ Script.dual settle)
          fun prepared _ => prepared.hasher = resumable content path fs) := by
  set bytes := fs.data i with hbytes
  have hkept : resumable content path fs = if bytes.length ≤ content.length ∧
      blake3 bytes = blake3 (content.take bytes.length) then bytes else [] := by
    rw [resumable, Fs.read_eq_some.mpr ⟨i, hname, rfl⟩]
  by_cases hc : bytes.length = 0 ∨ bytes.length > offer.fileSize.toNat
  · have hnil : resumable content path fs = [] := by
      rw [hkept]
      split_ifs with h
      · exact List.eq_nil_of_length_eq_zero (by omega)
      · rfl
    rw [hnil]
    refine ⟨_, _, .accepted, fun d hn _ htidy => ⟨fun _ => ?_, fun h => absurd hc h⟩⟩
    exact plays_discardPartialState hp hn htidy
  · push Not at hc
    -- the RESUME of the receiver
    have hoffset : (UInt64.ofNat bytes.length).toNat = bytes.length :=
      UInt64.toNat_ofNat_of_lt' (lt_of_le_of_lt hc.2 offer.fileSize.toNat_lt)
    by_cases hfit : blake3 bytes = blake3 (content.take bytes.length)
    · rw [hkept, if_pos ⟨by omega, hfit⟩]
      refine ⟨resumeFrame bytes, tells (Frame.new .accept []), ?_, fun d hn hdata htidy =>
        ⟨fun h => absurd h (by omega), fun _ => ?_⟩⟩
      · have hfits : Fits content offer.fileSize ⟨UInt64.ofNat bytes.length, blake3 bytes⟩ :=
          ⟨UInt64.le_iff_toNat_le.mpr (by rw [hoffset]; exact hc.2), by rw [hoffset]; omega,
            by rw [hoffset]; exact hfit.symm⟩
        have := SettledAt.resumed hfits
        rwa [hoffset] at this
      · have := @plays_resumeTransfer _ d path offer _ _ _ _ _ hp hn hdata htidy .accepted
        rwa [List.append_nil] at this
    · rw [hkept, if_neg fun h => hfit h.2]
      refine ⟨resumeFrame bytes, tells (Frame.new .restart []) ++ hears (Frame.new .accept []),
        .restarted fun h => hfit ?_, fun d hn hdata htidy =>
          ⟨fun h => absurd h (by omega), fun _ => ?_⟩⟩
      · have := h.prefixHash
        rw [hoffset] at this
        exact this.symm
      · exact plays_resumeTransfer hp hn hdata htidy .restarted

/-- **A transfer is prepared**: what the receiver answers, and how it is settled. -/
theorem exists_plays_prepareTransfer {content : Bytes} {fs : Fs} (hp : path ≠ [])
    (hsize : content.length = offer.fileSize.toNat)
    (hfile : ∀ node, fs.names path = some node → ∃ i, node = .file i) :
    ∃ response settle, SettledAt content offer.fileSize response settle
        (resumable content path fs).length ∧ ∀ d : Disk (.alone false false),
      d.fs.names path = fs.names path →
      (∀ i, fs.names path = some (.file i) → d.fs.data i = fs.data i) →
      d.fs.isDir path.dropLast → ¬d.fs.Irregular path → ¬d.fs.Untidy path →
        Plays (prepareTransfer path offer) d (tells response ++ Script.dual settle)
          fun prepared _ => prepared.hasher = resumable content path fs := by
  cases hn : fs.names path with
  | none =>
    have hnil : resumable content path fs = [] := by
      rw [resumable, Fs.read_eq_none (by simp [hn])]
    rw [hnil]
    refine ⟨_, _, .accepted, fun d hn _ hdir hregular htidy => ?_⟩
    refine (plays_files ((Storage.pathExists_spec hp).succeeds (fun e t h => ?_)
      fun t h => by simp at h)).bind_silent fun exists? d₁ h₁ => ?_
    · exact hregular (.inl (h.2.resolve_left (by simp)))
    obtain ⟨h₁, hb⟩ := h₁
    obtain rfl : exists? = false := Bool.eq_false_iff.mpr fun h => hb.mp h hn
    rw [← h₁] at hdir hn htidy
    exact plays_prepareFreshTransfer hp hdir hn htidy
  | some node =>
    obtain ⟨i, rfl⟩ := hfile node hn
    -- what is done with the partial file
    obtain ⟨response, settle, hs, hk⟩ := @exists_plays_kept _ _ _ content _ _ _ hp hsize hn
    refine ⟨response, settle, hs, fun d hn hdata hdir hregular htidy => ?_⟩
    replace hdata := hdata i rfl
    refine (plays_files ((Storage.pathExists_spec hp).succeeds (fun e t h => ?_)
      fun t h => by simp at h)).bind_silent fun exists? d₁ h₁ => ?_
    · exact hregular (.inl (h.2.resolve_left (by simp)))
    obtain ⟨h₁, hb⟩ := h₁
    obtain rfl : exists? = true := hb.mpr (by simp [hn])
    refine (plays_orReject (plays_files ((Storage.metadata_spec hp).succeeds (fun e t h => ?_)
      fun t h => by simp at h))).bind_silent fun m d₂ h₂ => ?_
    · rw [h₁] at h
      refine (h.2.2.resolve_left (by simp)).elim hregular fun hk => ?_
      exact absurd (h.2.1 hk) (by simp [hn])
    obtain ⟨h₂, j, hj, rfl⟩ := h₂
    obtain rfl : j = i := by
      rw [h₁, hn] at hj
      simpa using hj.symm
    replace h₂ : d₂.fs = d.fs := h₂.trans h₁
    obtain ⟨hdiscard, hresume⟩ := hk d₂ (by rwa [h₂]) (by rwa [h₂]) (by rwa [h₂])
    rw [h₁, hdata]
    by_cases hc : (fs.data j).length = 0 ∨ (fs.data j).length > offer.fileSize.toNat
    · rw [if_neg (by simp), if_pos (by simpa using hc)]
      exact hdiscard hc
    · rw [if_neg (by simp), if_neg (by simpa using hc)]
      exact hresume hc

/-! ### Receiving -/

/-- What holds while the pieces `ps` are still to come: they complete what the inode holds. -/
structure Incoming (content : Bytes) (fs : Fs) (i : ℕ) (ps : List Bytes) (progress : Progress)
    (d : Disk (.alone false false)) : Prop where
  content_eq : progress.hasher ++ ps.flatten = content
  fits : ∀ p ∈ ps, p.length ≤ maxDataPayloadLength
  fs_eq : d.fs = fs.setData i progress.hasher
  ino : progress.output.ino = i
  bytesReceived : progress.bytesReceived = progress.hasher.length
  at_end : progress.output.append = true ∨ progress.output.pos = progress.hasher.length

omit [Crates] in
theorem plays_receiveDataFrame {content : Bytes} {fs : Fs} {i : ℕ} {p : Bytes} {ps : List Bytes}
    {progress : Progress} (hlt : content.length < 2 ^ 64)
    (h : Incoming content fs i (p :: ps) progress d) :
    Plays (receiveDataFrame content.length progress : Receiver (.alone false false) _) d
      (hears (dataFrame p)) fun r d' => ∃ progress', r = .inl progress' ∧
        Incoming content fs i ps progress' d' := by
  obtain ⟨hcontent, hfits, hfs, hino, hreceived, hend⟩ := h
  obtain ⟨hp, hfits⟩ := List.forall_mem_cons.mp hfits
  rw [List.flatten_cons, ← List.append_assoc] at hcontent
  have hacc : (dataFrame p).header.Acceptable wfpVersion :=
    acceptable_new rfl (le_trans hp (by norm_num)) fun _ => hp
  have hle : progress.bytesReceived + p.length ≤ content.length := by
    have := congrArg List.length hcontent
    rw [List.length_append, List.length_append] at this
    omega
  have hdata : d.fs.data i = progress.hasher := by
    rw [hfs]
    simp
  refine (plays_receive hacc).bind_pure fun frame d' hd => ?_
  obtain ⟨rfl, rfl⟩ := hd
  refine plays_check (by simp [dataFrame]; omega) (plays_check (by simp [dataFrame]; omega) ?_)
  have hpos : progress.output.append = true ∨
      progress.output.pos ≤ (d'.fs.data progress.output.ino).length :=
    hend.imp_right fun h => by rw [hino, hdata, h]
  refine (plays_files ((File.writeAll_spec hpos).succeeds (fun e t h => by simp at h)
    fun t h => by simp at h)).bind_silent fun output d₁ h₁ => ?_
  obtain ⟨h₁, rfl⟩ := h₁
  have hsum : (progress.hasher ++ p).length = progress.bytesReceived + p.length := by
    rw [List.length_append, hreceived]
  refine plays_pure ⟨_, rfl, hcontent, hfits, ?_, hino, hsum.symm, ?_⟩
  · rw [hino, hdata, File.written_at_end hend, hfs, Fs.setData_setData] at h₁
    exact h₁
  · refine hend.imp_right fun h => ?_
    change progress.output.pos + p.length = (progress.hasher ++ p).length
    rw [h, List.length_append]

/-- The data stage, and the digest at its end. -/
theorem plays_receiveFileData {content bytes : Bytes} {i : ℕ} {output : File} {ps : List Bytes}
    (hlt : content.length < 2 ^ 64) (hcontent : bytes ++ ps.flatten = content)
    (hfits : ∀ p ∈ ps, p.length ≤ maxDataPayloadLength) (hino : output.ino = i)
    (hdata : d.fs.data i = bytes) (hend : output.append = true ∨ output.pos = bytes.length) :
    Plays (receiveFileData output content.length bytes.length bytes) d
      (ps.flatMap (fun p => hears (dataFrame p)) ++ hears (Frame.new .complete (blake3 content).1))
      fun completed d' => completed.blake3 = blake3 content ∧ completed.source.ino = i ∧
        d'.fs = d.fs.setData i content := by
  have hacc : (Frame.new .complete (blake3 content).1).header.Acceptable wfpVersion :=
    acceptable_new rfl (by rw [(blake3 content).2]; norm_num) (by simp)
  have hle : bytes.length ≤ content.length := by
    rw [← hcontent, List.length_append]
    omega
  unfold receiveFileData
  refine plays_check (by omega) ?_
  refine Plays.bind_pure (R := fun r d' => Incoming content d.fs i [] r.1 d' ∧
    r.2 = (blake3 content).1) ?_ fun r d' hr => ?_
  · refine plays_loop_input (I := Incoming content d.fs i) (fun _ _ => rfl) (fun p => ?_)
      (fun p ps progress t h => plays_receiveDataFrame hlt h) (fun progress t h => ?_) ?_
    · rw [recvs_hears]
      exact List.length_pos_iff.mp (Frame.length_encoding_pos _)
    · refine (plays_receive hacc).bind_pure fun frame t' ht => ?_
      obtain ⟨rfl, rfl⟩ := ht
      exact plays_check (by simp [(blake3 content).2]) (plays_pure ⟨_, rfl, h, rfl⟩)
    · exact ⟨hcontent, hfits, by rw [← hdata, Fs.setData_self], hino, rfl, hend⟩
  · obtain ⟨progress, senderHash⟩ := r
    obtain ⟨⟨hhasher, -, hfs, hino', hreceived, -⟩, rfl⟩ := hr
    rw [List.flatten_nil, List.append_nil] at hhasher
    rw [hhasher] at hfs hreceived
    refine (plays_files (File.syncAll_spec.succeeds (fun e t h => by simp at h)
      fun t h => by simp at h)).bind_silent fun _ d₁ h₁ => ?_
    have hdigest : blake3 progress.hasher = blake3 content := congrArg blake3 hhasher
    refine plays_check (not_not.mpr hreceived) (plays_check ?_ (plays_pure ?_))
    · exact not_not.mpr (congrArg Subtype.val hdigest.symm)
    · exact ⟨hdigest, hino', h₁.trans hfs⟩

/-! ### Committing -/

theorem plays_commitTransfer {completed : CompletedTransfer}
    (hR : d.fs.names (completionReceiptPath dest offer.transferId) = none)
    (hD : d.fs.names (finalPath dest offer.filename) = none)
    (hP : d.fs.names (partialPath dest offer.filename) = some (.file completed.source.ino))
    (hreceipts : d.fs.Creatable (receiptsDirectory dest))
    (hregular : ¬d.fs.Irregular (completionReceiptTemporaryPath dest offer.transferId))
    (hsafe : offer.filename ≠ internalDirectoryName) :
    Plays (commitTransfer dest (finalPath dest offer.filename) (partialPath dest offer.filename)
      offer completed) d (tells (Frame.new .verified [])) fun _ d' =>
        Committing dest offer completed.blake3 completed.source.ino d.fs d'.fs ∧
          d'.fs.names (finalPath dest offer.filename) ≠ none := by
  have hplays : Plays (commitTransfer dest (finalPath dest offer.filename)
      (partialPath dest offer.filename) offer completed) d (tells (Frame.new .verified []))
      fun _ _ => True := by
    unfold commitTransfer
    refine (plays_files (writeCompletionReceipt_spec.succeeds (fun e t h => ?_)
      fun t h => by simp at h)).bind_silent fun _ d₁ h₁ => ?_
    · exact (h.2.resolve_left (by simp)).elim (fun h => h hreceipts) fun h =>
        h.elim hregular fun h => h hR
    have hP₁ : d₁.fs.names (partialPath dest offer.filename) = some (.file completed.source.ino) :=
      (h₁.1.1.names_eq (notMem_receiptNames
        (by simpa using receiptsDirectory_ne_partialsDirectory.symm)) (by simp [hP])).trans hP
    have hD₁ : d₁.fs.names (finalPath dest offer.filename) = none :=
      (h₁.1.1.names_eq' (notMem_receiptNames (by simp))
        (finalPath_notMem_chain_receiptsDirectory hsafe)).trans hD
    have hdir : d₁.fs.isDir (finalPath dest offer.filename).dropLast := by
      have hne : d₁.fs.names (partialPath dest offer.filename) ≠ none := by simp [hP₁]
      rw [dropLast_finalPath]
      exact isDir_of_names_partialPath hne
    refine (plays_files ((Storage.promoteRename_spec partialPath_ne_nil finalPath_ne_nil hdir hP₁
      hD₁).succeeds (fun e t h => by simp at h) fun t h => by simp at h)).bind_silent ?_
    intro _ d₂ _
    refine (plays_attempt_files (Q := fun _ _ => True) ?_).bind_silent fun r d₃ _ => ?_
    · refine removeTransferMetadata_spec.mono fun o d' h => ?_
      cases o with
      | ok => trivial
      | err => trivial
      | halt => simp at h
    · exact (plays_send (acceptable_empty rfl)).mono fun _ _ _ => trivial
  refine (hplays.and (R := fun _ d' => Committing dest offer completed.blake3 completed.source.ino
    d.fs d'.fs ∧ d'.fs.names (finalPath dest offer.filename) ≠ none) fun w hw => ?_).mono
      fun _ _ h => h.2
  obtain rfl : w.disk = d := hw
  refine (commitTransfer_spec rfl rfl hsafe hR hD hP).mono fun o w' h => ?_
  cases o with
  | ok => exact ⟨h.1, h.2.1⟩
  | err => trivial
  | halt => trivial

/-! ### Settling -/

omit [Crates] in
theorem plays_tryDiscardPartialState (hp : path ≠ []) :
    Plays (tryDiscardPartialState path) d [] fun _ d' =>
      Fs.Within ∅ (scratch path) ∅ d.fs d'.fs := by
  refine (plays_attempt_files (Q := fun _ d' => Fs.Within ∅ (scratch path) ∅ d.fs d'.fs)
    ?_).bind_silent fun _ d' h => plays_pure h
  refine (discardPartialState_spec hp).mono fun o d' h => ?_
  cases o with
  | ok => exact h.1
  | err => exact h.1
  | halt => simp at h

theorem plays_settleFromFinal {receipt : CompletionReceipt}
    (h : Holds d.fs (finalPath dest offer.filename) receipt) :
    Plays
      (settleFromFinal (finalPath dest offer.filename) (partialPath dest offer.filename) receipt)
      d (tells (Frame.new .verified [])) fun _ _ => True := by
  refine (plays_orReject (plays_files ((verifyExistingFinal_spec finalPath_ne_nil).succeeds
    (fun e t h' => h'.2.elim (by simp) fun h' => h' h) fun t h => by simp at h))).bind_silent ?_
  intro _ d₁ _
  refine (plays_tryDiscardPartialState partialPath_ne_nil).bind_silent fun _ d₂ _ => ?_
  exact (plays_send (acceptable_empty rfl)).mono fun _ _ _ => trivial

theorem plays_settleFromPartial {receipt : CompletionReceipt}
    (hn : d.fs.names (finalPath dest offer.filename) = none)
    (h : Holds d.fs (partialPath dest offer.filename) receipt) :
    Plays (settleFromPartial (finalPath dest offer.filename) (partialPath dest offer.filename)
      receipt) d (tells (Frame.new .verified [])) fun _ _ => True := by
  refine (plays_orReject (plays_files ((verifyCompletedPartialForPromotion_spec
    partialPath_ne_nil).succeeds (fun e t h' => h'.2.elim (by simp) fun h' => h' h)
      fun t h => by simp at h))).bind_silent fun source d₁ h₁ => ?_
  obtain ⟨h₁, hsrc, -⟩ := h₁
  rw [← h₁] at hsrc hn
  have hdir : d₁.fs.isDir (finalPath dest offer.filename).dropLast := by
    have hne : d₁.fs.names (partialPath dest offer.filename) ≠ none := by simp [hsrc]
    rw [dropLast_finalPath]
    exact isDir_of_names_partialPath hne
  refine (plays_files ((Storage.promoteRename_spec partialPath_ne_nil finalPath_ne_nil hdir hsrc
    hn).succeeds (fun e t h => by simp at h) fun t h => by simp at h)).bind_silent ?_
  intro _ d₂ _
  refine (plays_attempt_files (Q := fun _ _ => True) ?_).bind_silent fun r d₃ _ => ?_
  · refine removeTransferMetadata_spec.mono fun o d' h => ?_
    cases o with
    | ok => trivial
    | err => trivial
    | halt => simp at h
  · exact (plays_send (acceptable_empty rfl)).mono fun _ _ _ => trivial

/-- **An offer that has a receipt is settled at once.** -/
theorem plays_reconcileCompletedTransfer (h : Settleable dest offer d.fs) :
    Plays (reconcileCompletedTransfer dest (finalPath dest offer.filename)
      (partialPath dest offer.filename) offer) d (tells (Frame.new .verified []))
      fun settled d' => settled = true ∧ Settling dest offer d.fs d'.fs ∧
        d'.fs.names (finalPath dest offer.filename) ≠ none := by
  have hplays : Plays (reconcileCompletedTransfer dest (finalPath dest offer.filename)
      (partialPath dest offer.filename) offer) d (tells (Frame.new .verified []))
      fun settled _ => settled = true := by
    obtain ⟨receipt, ⟨hr, hfilename, hfileSize⟩, hplace⟩ := h
    obtain ⟨i, hi⟩ := Fs.names_of_receipt hr
    unfold reconcileCompletedTransfer
    refine (plays_files ((Storage.pathExists_spec completionReceiptPath_ne_nil).succeeds
      (fun e t h => ?_) fun t h => by simp at h)).bind_silent fun exists? d₁ h₁ => ?_
    · have := (h.2.resolve_left (by simp)).names_eq_none completionReceiptPath_ne_nil
      simp [this] at hi
    obtain ⟨h₁, hb⟩ := h₁
    obtain rfl : exists? = true := hb.mpr (by simp [hi])
    rw [if_neg (by simp)]
    refine (plays_orReject (plays_files (readCompletionReceipt_spec.succeeds (fun e t h => ?_)
      fun t h => by simp at h))).bind_silent fun receipt' d₂ h₂ => ?_
    · rw [h₁, hr] at h
      simp at h
    obtain ⟨h₂, hr₂⟩ := h₂
    obtain rfl : receipt = receipt' := by
      rw [h₁, hr] at hr₂
      exact Option.some.inj hr₂
    replace h₂ : d₂.fs = d.fs := h₂.trans h₁
    rw [if_neg (by simp [hfilename, hfileSize])]
    refine Plays.bind_pure (R := fun _ _ => True) ?_ fun _ _ _ => plays_pure rfl
    rw [← h₂] at hplace
    unfold settleByReceipt
    obtain hold | ⟨hn, hold⟩ := hplace
    · obtain ⟨j, hj, hm⟩ := hold
      refine (plays_files ((Storage.pathExists_spec finalPath_ne_nil).succeeds (fun e t h => ?_)
        fun t h => by simp at h)).bind_silent fun exists? d₃ h₃ => ?_
      · have := (h.2.resolve_left (by simp)).names_eq_none finalPath_ne_nil
        simp [this] at hj
      obtain ⟨h₃, hb₃⟩ := h₃
      obtain rfl : exists? = true := hb₃.mpr (by simp [hj])
      rw [if_pos rfl]
      exact plays_settleFromFinal ⟨j, by rwa [h₃], by rwa [h₃]⟩
    · obtain ⟨j, hj, hm⟩ := hold
      have hne : d₂.fs.names (partialPath dest offer.filename) ≠ none := by simp [hj]
      refine (plays_files ((Storage.pathExists_spec finalPath_ne_nil).succeeds (fun e t h => ?_)
        fun t h => by simp at h)).bind_silent fun exists? d₃ h₃ => ?_
      · refine (h.2.resolve_left (by simp)).not_isDir finalPath_ne_nil ?_
        rw [dropLast_finalPath]
        exact isDir_of_names_partialPath hne
      obtain ⟨h₃, hb₃⟩ := h₃
      obtain rfl : exists? = false := Bool.eq_false_iff.mpr fun h => hb₃.mp h hn
      rw [if_neg (by simp)]
      refine (plays_files ((Storage.pathExists_spec partialPath_ne_nil).succeeds (fun e t h => ?_)
        fun t h => by simp at h)).bind_silent fun exists? d₄ h₄ => ?_
      · rw [h₃] at h
        exact hne ((h.2.resolve_left (by simp)).names_eq_none partialPath_ne_nil)
      obtain ⟨h₄, hb₄⟩ := h₄
      rw [h₃] at h₄ hb₄
      obtain rfl : exists? = true := hb₄.mpr hne
      rw [if_pos rfl]
      exact plays_settleFromPartial (by rwa [h₄]) ⟨j, by rwa [h₄], by rwa [h₄]⟩
  refine (hplays.and (R := fun settled d' => settled = true → Settling dest offer d.fs d'.fs ∧
    d'.fs.names (finalPath dest offer.filename) ≠ none) fun w hw => ?_).mono
      fun _ _ h => ⟨h.1, h.2 h.1⟩
  obtain rfl : w.disk = d := hw
  refine reconcileCompletedTransfer_spec.mono fun o w' h => ?_
  cases o with
  | ok settled =>
    intro hs
    subst hs
    exact ⟨h.1, h.2.1⟩
  | err => trivial
  | halt => trivial

/-- Without a receipt there is nothing to settle. -/
theorem plays_reconcile_none (hR : d.fs.names (completionReceiptPath dest offer.transferId) = none)
    (hc : d.fs.Creatable (receiptsDirectory dest)) :
    Plays (reconcileCompletedTransfer dest (finalPath dest offer.filename)
      (partialPath dest offer.filename) offer) d [] fun settled d' =>
        settled = false ∧ d'.fs = d.fs := by
  unfold reconcileCompletedTransfer
  refine (plays_files ((Storage.pathExists_spec completionReceiptPath_ne_nil).succeeds
    (fun e t h => ?_) fun t h => by simp at h)).bind_silent fun exists? d₁ h₁ => ?_
  · refine Fs.Creatable.not_blocked ?_ completionReceiptPath_ne_nil (h.2.resolve_left (by simp))
    rwa [dropLast_completionReceiptPath]
  obtain ⟨h₁, hb⟩ := h₁
  obtain rfl : exists? = false := Bool.eq_false_iff.mpr fun h => hb.mp h hR
  rw [if_pos (by simp)]
  exact plays_pure ⟨rfl, h₁⟩

end

end Warpfile.V02
