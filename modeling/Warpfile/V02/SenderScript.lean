import Warpfile.Protocol.Conversation
import Warpfile.V02.Course

/-!
# The script of a sender of WFP/0.2

On an open connection, with a file that can be read and nobody who interrupts, an attempt follows
a script that depends on the first answer of the receiver: it is over at once after VERIFIED, and
else what is missing is sent, in the pieces in which the file is read.
-/

namespace Warpfile.V02

open Prog Connected

variable {Γ : Setting} {content : Bytes} {fileSize : UInt64}

/-! ### The file -/

/-- The file can be opened and read at any time, it holds `content`, and the user does not
interrupt. -/
structure Available (content : Bytes) (file : SourceFile) : Prop where
  opens : ∀ n, ∃ handle, file.opens n = .ok handle ∧ handle.bytes = content ∧ handle.Calm
  signals : ∀ n, file.signals n = none

/-- The file is open at an offset. -/
structure Reading (content : Bytes) (offset : ℕ) (file : SourceFile) : Prop where
  available : Available content file
  left : file.handle.bytes = content.drop offset
  calm : file.handle.Calm

section

variable {file : SourceFile} {offset : ℕ}

theorem Available.open_run (h : Available content file) :
    ∃ file', SourceFile.open file = (.ok (), file') ∧ Reading content 0 file' := by
  obtain ⟨handle, hopen, hbytes, hcalm⟩ := h.opens 0
  exact ⟨{ file with handle, opens := fun n => file.opens (n + 1) }, by rw [SourceFile.open, hopen],
    ⟨fun n => h.opens (n + 1), h.signals⟩, hbytes, hcalm⟩

theorem Reading.read_run {n : ℕ} (h : Reading content offset file) (hn : 0 < n) :
    ∃ bs file', SourceFile.read n file = (.ok bs, file') ∧ bs.length ≤ n ∧
      bs <+: content.drop offset ∧ (bs = [] → content.drop offset = []) ∧
      Reading content (offset + bs.length) file' := by
  have took (bs : Bytes) {rest : Bytes} {handle : Source} (hb : file.handle.bytes = bs ++ rest)
      (hrest : handle.bytes = rest) (hcalm : handle.Calm) : bs <+: content.drop offset ∧
        Reading content (offset + bs.length) { file with handle } := by
    have hdrop : content.drop offset = bs ++ rest := h.left.symm.trans hb
    refine ⟨⟨rest, hdrop.symm⟩, ⟨h.available.opens, h.available.signals⟩, ?_, hcalm⟩
    rw [hrest, ← List.drop_drop, hdrop, List.drop_left]
  cases hs : file.handle with
  | nil =>
    have hnil : content.drop offset = [] := by rw [← h.left, hs, Source.bytes_nil]
    obtain ⟨hpre, hreading⟩ := took [] (by rw [hs]; rfl) rfl Source.calm_nil
    exact ⟨[], _, by rw [SourceFile.read, hs]; rfl, Nat.zero_le _, hpre, fun _ => hnil, hreading⟩
  | cons piece rest =>
    obtain ⟨⟨bs, rfl⟩, hrest⟩ := Source.calm_cons.mp (hs ▸ h.calm)
    have hlen : (bs.1.take n).length ≤ n := by rw [List.length_take]; exact Nat.min_le_left _ _
    have hne (hnil : bs.1.take n = []) : content.drop offset = [] := by
      have := congrArg List.length hnil
      rw [List.length_take, List.length_nil] at this
      have hpos := List.length_pos_iff.mpr bs.2
      omega
    by_cases hcut : bs.1.drop n = []
    · obtain ⟨hpre, hreading⟩ := took (bs.1.take n) (by
        rw [hs, Source.bytes_ok, List.take_of_length_le (List.drop_eq_nil_iff.mp hcut)]) rfl hrest
      refine ⟨_, _, ?_, hlen, hpre, hne, hreading⟩
      rw [SourceFile.read, hs, Source.read, dif_pos hcut]
    · have hcalm : Source.Calm (.ok ⟨bs.1.drop n, hcut⟩ :: rest) :=
        Source.calm_cons.mpr ⟨⟨_, rfl⟩, hrest⟩
      obtain ⟨hpre, hreading⟩ := took (bs.1.take n) (by
        rw [hs, Source.bytes_ok, Source.bytes_ok, ← List.append_assoc, List.take_append_drop]) rfl
        hcalm
      refine ⟨_, _, ?_, hlen, hpre, hne, hreading⟩
      rw [SourceFile.read, hs, Source.read, dif_neg hcut]

end

/-! ### Steps -/

section

variable {α : Type} {d : Disk Γ} {file file' : SourceFile} {t : Disk Γ × SourceFile}

/-- A call on the file that is known to succeed. -/
theorem plays_onSource {p : Prog SourceFile IoError α} {a : α} (h : p file = (.ok a, file')) :
    Plays (onSource p : Sender Γ α) (d, file) [] fun b t => b = a ∧ t = (d, file') := by
  refine plays_silent fun s hs => ?_
  obtain ⟨w, f⟩ := s
  obtain ⟨rfl, rfl⟩ : w.disk = d ∧ f = file := Prod.mk.inj hs
  rw [onSource, ensures_onFile, ensures_mapErr]
  exact ensures_of_eq h ⟨⟨rfl, rfl⟩, rfl⟩

theorem plays_onStream {p : Prog (Session Γ) SendAttemptError α} {script : Script}
    {Q : α → Disk Γ → Prop} (h : Plays p d script Q) :
    Plays (onStream p) (d, file) script fun a t => Q a t.1 ∧ t.2 = file := by
  intro s hs ho
  obtain ⟨w, f⟩ := s
  obtain ⟨rfl, rfl⟩ : w.disk = d ∧ f = file := Prod.mk.inj hs
  obtain ⟨hreturns, hwaits⟩ := h w rfl ho
  constructor
  · intro rest hrest
    rw [ensures_onStream]
    refine (hreturns rest hrest).mono fun o s' h' => ?_
    cases o with
    | ok => exact ⟨⟨h'.1, rfl⟩, h'.2⟩
    | err => exact h'
    | halt => exact h'
  · intro before part message after h'
    rw [ensures_onStream]
    refine (hwaits _ _ _ _ h').mono fun o s' h' => ?_
    cases o with
    | ok => exact h'
    | err => exact h'
    | halt => exact h'

theorem plays_sendFrame {frame : Frame} (h : frame.Encodable) :
    Plays (sendFrame frame : Sender Γ Unit) t (tells frame) fun _ t' => t' = t := by
  refine (plays_onStream (plays_writeFrame h).mapErr).mono fun _ t' h' => ?_
  exact Prod.ext h'.1 h'.2

theorem plays_receiveFrame {frame : Frame} (h : frame.header.Acceptable wfpVersion) :
    Plays (receiveFrame : Sender Γ Frame) t (hears frame) fun f t' => f = frame ∧ t' = t := by
  refine (plays_onStream (plays_readFrame h).mapErr).mono fun f t' h' => ?_
  exact ⟨h'.1.1, Prod.ext h'.1.2 h'.2⟩

end

/-! ### Answering -/

section

variable {d : Disk Γ} {file : SourceFile}

/-- An empty frame of WFP/0.2. -/
theorem acceptable_empty {t : MessageType} (ht : t.isAllowedInVersion wfpVersion) :
    (Frame.new t []).header.Acceptable wfpVersion :=
  acceptable_new ht (Nat.zero_le _) fun _ => Nat.zero_le _

/-- Hashing the next `n` bytes of the file leaves it so. -/
inductive Skips : ℕ → SourceFile → SourceFile → Prop
  | done {file : SourceFile} : Skips 0 file file
  | more {n : ℕ} {p : Bytes} {file file₁ file' : SourceFile}
      (run : SourceFile.read (min n maxDataPayloadLength) file = (.ok p, file₁)) (ne_nil : p ≠ [])
      (le : p.length ≤ n) (rest : Skips (n - p.length) file₁ file') : Skips n file file'

theorem Reading.exists_skips {offset n : ℕ} (h : Reading content offset file)
    (hle : offset + n ≤ content.length) :
    ∃ file', Skips n file file' ∧ Reading content (offset + n) file' := by
  induction n using Nat.strong_induction_on generalizing offset file with
  | h n ih =>
    by_cases hn : n = 0
    · subst hn
      exact ⟨file, .done, h⟩
    obtain ⟨p, file₁, hrun, hlen, -, hend, hreading⟩ := h.read_run
      (n := min n maxDataPayloadLength) (by simp [maxDataPayloadLength]; omega)
    have hne : p ≠ [] := fun hnil => by
      have := congrArg List.length (hend hnil)
      rw [List.length_drop, List.length_nil] at this
      omega
    have hpos := List.length_pos_iff.mpr hne
    have hpn : p.length ≤ n := hlen.trans (Nat.min_le_left _ _)
    obtain ⟨file', hskips, hreading'⟩ := ih (n - p.length) (by omega) hreading (by omega)
    refine ⟨file', .more hrun hne hpn hskips, ?_⟩
    rwa [show offset + p.length + (n - p.length) = offset + n by omega] at hreading'

/-- A prefix of the file is hashed. -/
theorem plays_hashPrefix {n : ℕ} (h : Reading content 0 file) (hle : n ≤ content.length) :
    ∃ file', Reading content n file' ∧ Plays (hashPrefix [] n : Sender Γ Hasher) (d, file) []
      fun hasher t => hasher = content.take n ∧ t = (d, file') := by
  obtain ⟨file', hskips, hread'⟩ := h.exists_skips (n := n) (by omega)
  rw [Nat.zero_add] at hread'
  refine ⟨file', hread', plays_silent fun s hs => ?_⟩
  obtain ⟨w, f⟩ := s
  obtain ⟨rfl, rfl⟩ : w.disk = d ∧ f = file := Prod.mk.inj hs
  refine Ensures.loop (fun b s => s.1 = w ∧ ∃ k, k + b.2 = n ∧ b.1 = content.take k ∧
    Reading content k s.2 ∧ Skips b.2 s.2 file') ?_ ⟨rfl, 0, Nat.zero_add _, rfl, h, hskips⟩
  intro b s hI
  obtain ⟨hasher, remaining⟩ := b
  obtain ⟨w', f'⟩ := s
  obtain ⟨rfl, k, hsum, rfl, hread, hskips⟩ := hI
  dsimp only at hsum hread hskips ⊢
  cases hskips with
  | done =>
    rw [if_neg (lt_irrefl 0)]
    obtain rfl : k = n := hsum
    exact ensures_pure.mpr ⟨⟨rfl, rfl⟩, rfl⟩
  | @more _ p _ f₁ _ hrun hne hlen hskips =>
    have hpos := List.length_pos_iff.mpr hne
    obtain ⟨p', f₂, hrun', -, hpre, -, hread₁⟩ := hread.read_run
      (n := min remaining maxDataPayloadLength) (by simp [maxDataPayloadLength]; omega)
    rw [hrun, Prod.mk.injEq, Outcome.ok.injEq] at hrun'
    obtain ⟨rfl, rfl⟩ := hrun'
    rw [if_pos (by omega), ensures_bind, onSource, ensures_onFile, ensures_mapErr]
    refine ensures_of_eq hrun ?_
    simp only [post_ok]
    rw [if_neg hne, ensures_pure]
    refine ⟨⟨rfl, k + p.length, ?_, ?_, hread₁, hskips⟩, ?_⟩
    · simp only
      omega
    · rw [List.take_add, List.prefix_iff_eq_take.mp hpre]
      simp
    · simp only
      omega

theorem plays_requestRestart (h : Available content file) :
    ∃ file', Reading content 0 file' ∧ Plays (requestRestart : Sender Γ (ℕ × Hasher)) (d, file)
      (tells (Frame.new .restart []) ++ hears (Frame.new .accept [])) fun r t =>
        r = (0, []) ∧ t = (d, file') := by
  obtain ⟨file', hrun, hreading⟩ := h.open_run
  refine ⟨file', hreading, ?_⟩
  refine (plays_sendFrame (acceptable_empty rfl).encodable).bind fun _ t ht => ?_
  subst ht
  refine Plays.bind_pure (R := fun _ t => t = (d, file)) ?_ fun _ t ht => ?_
  · refine (plays_receiveFrame (acceptable_empty rfl)).bind_pure fun response t ht => ?_
    obtain ⟨rfl, rfl⟩ := ht
    exact plays_ofExcept (a := ()) rfl rfl
  · subst ht
    refine (plays_onSource hrun).bind_silent fun _ t ht => ?_
    obtain ⟨-, rfl⟩ := ht
    exact plays_pure ⟨rfl, rfl⟩

variable [Crates]

/-- How the answer to an offer is settled: what the sender tells and hears, and the offset it
continues from. -/
inductive SettledAt (content : Bytes) (fileSize : UInt64) : Frame → Script → ℕ → Prop
  | accepted : SettledAt content fileSize (Frame.new .accept []) [] 0
  | resumed {resume : ResumeRequest} (fits : Fits content fileSize resume) :
      SettledAt content fileSize (resumeRequestFrame resume) (tells (Frame.new .accept []))
        resume.offset.toNat
  | restarted {resume : ResumeRequest} (unfit : ¬Fits content fileSize resume) :
      SettledAt content fileSize (resumeRequestFrame resume)
        (tells (Frame.new .restart []) ++ hears (Frame.new .accept [])) 0

theorem plays_answerOffer {response : Frame} {settle : Script} {offset : ℕ}
    (hsize : content.length = fileSize.toNat) (h : Reading content 0 file)
    (hs : SettledAt content fileSize response settle offset) :
    ∃ file', Reading content offset file' ∧ Plays (answerOffer fileSize response) (d, file) settle
      fun r t => r = (offset, content.take offset) ∧ t = (d, file') := by
  -- the payload of a RESUME is decoded
  have decoded {resume : ResumeRequest} {script : Script}
      {Q : ℕ × Hasher → Disk Γ × SourceFile → Prop}
      (hp : Plays (Sender.negotiateResume fileSize [] resume : Sender Γ _) (d, file) script Q) :
      Plays (answerOffer fileSize (resumeRequestFrame resume)) (d, file) script Q := by
    refine (plays_ofExcept (a := resume) (Q := fun a t => a = resume ∧ t = (d, file))
      (mapError_eq_ok.mpr (decodeResume_eq_ok.mpr rfl)) ⟨rfl, rfl⟩).bind_silent fun a t ht => ?_
    obtain ⟨rfl, rfl⟩ := ht
    exact hp
  cases hs with
  | accepted =>
    refine ⟨file, h, ?_⟩
    refine (plays_ofExcept (a := ()) (Q := fun _ t => t = (d, file)) rfl rfl).bind_silent ?_
    intro _ t ht
    subst ht
    exact plays_pure ⟨rfl, rfl⟩
  | @resumed resume hfits =>
    obtain ⟨file', hreading, hhash⟩ := plays_hashPrefix (d := d) h hfits.inside
    refine ⟨file', hreading, decoded ?_⟩
    rw [Sender.negotiateResume, if_neg (UInt64.not_lt.mpr hfits.offset_le)]
    refine hhash.bind_silent fun hasher t ht => ?_
    obtain ⟨rfl, rfl⟩ := ht
    rw [if_pos hfits.prefixHash]
    refine (plays_sendFrame (acceptable_empty rfl).encodable).bind_pure fun _ t ht => ?_
    subst ht
    exact plays_pure ⟨rfl, rfl⟩
  | @restarted resume hunfit =>
    by_cases hle : resume.offset > fileSize
    · obtain ⟨file', hreading, hrestart⟩ := plays_requestRestart (d := d) h.available
      refine ⟨file', hreading, decoded ?_⟩
      rw [Sender.negotiateResume, if_pos hle]
      exact hrestart
    · have hinside : resume.offset.toNat ≤ content.length := by
        rw [hsize]
        exact UInt64.le_iff_toNat_le.mp (UInt64.not_lt.mp hle)
      obtain ⟨file₁, hreading₁, hhash⟩ := plays_hashPrefix (d := d) h hinside
      obtain ⟨file', hreading, hrestart⟩ := plays_requestRestart (d := d) hreading₁.available
      refine ⟨file', hreading, decoded ?_⟩
      rw [Sender.negotiateResume, if_neg hle]
      refine hhash.bind_silent fun hasher t ht => ?_
      obtain ⟨rfl, rfl⟩ := ht
      rw [if_neg fun hhash => hunfit ⟨UInt64.not_lt.mp hle, hinside, hhash⟩]
      exact hrestart

end

/-! ### Sending -/

/-- The file after the user was waited for. -/
def SourceFile.awaited (file : SourceFile) : SourceFile :=
  { file with signals := fun n => file.signals (n + 1) }

/-- Reading the file gives these pieces one after the other, and then its end. -/
inductive Pieces : SourceFile → List Bytes → Prop
  | done {file file' : SourceFile}
      (run : SourceFile.read maxDataPayloadLength file.awaited = (.ok [], file')) : Pieces file []
  | more {file file' : SourceFile} {p : Bytes} {ps : List Bytes}
      (run : SourceFile.read maxDataPayloadLength file.awaited = (.ok p, file')) (ne_nil : p ≠ [])
      (rest : Pieces file' ps) : Pieces file (p :: ps)

theorem Reading.awaited {file : SourceFile} {offset : ℕ} (h : Reading content offset file) :
    Reading content offset file.awaited :=
  ⟨⟨h.available.opens, fun n => h.available.signals (n + 1)⟩, h.left, h.calm⟩

/-- What is left of a file is read in pieces that fit into frames. -/
theorem Reading.exists_pieces {file : SourceFile} {offset : ℕ} (h : Reading content offset file) :
    ∃ ps, Pieces file ps ∧ ps.flatten = content.drop offset ∧
      ∀ p ∈ ps, p ≠ [] ∧ p.length ≤ maxDataPayloadLength := by
  induction hn : content.length - offset using Nat.strong_induction_on generalizing offset file with
  | h n ih =>
    obtain ⟨p, file', hrun, hlen, hpre, hend, hreading⟩ := h.awaited.read_run
      (n := maxDataPayloadLength) (by norm_num)
    by_cases hne : p = []
    · subst hne
      exact ⟨[], .done hrun, (hend rfl).symm, by simp⟩
    · have hpos := List.length_pos_iff.mpr hne
      have hle := hpre.length_le
      rw [List.length_drop] at hle
      obtain ⟨ps, hps, hflat, hall⟩ := ih _ (by omega) hreading rfl
      refine ⟨p :: ps, .more hrun hne hps, ?_, List.forall_mem_cons.mpr ⟨⟨hne, hlen⟩, hall⟩⟩
      obtain ⟨rest, hrest⟩ := hpre
      rw [List.flatten_cons, hflat, ← List.drop_drop, ← hrest, List.drop_left]

/-- A piece of the file in a DATA frame. -/
def dataFrame (p : Bytes) : Frame := Frame.new .data p

section

variable {d : Disk Γ} {file : SourceFile} {offset : ℕ} {ps : List Bytes}

/-- What holds while `ps` is left to send. -/
structure Unsent (content : Bytes) (d : Disk Γ) (ps : List Bytes) (progress : SendProgress)
    (t : Disk Γ × SourceFile) : Prop where
  disk : t.1 = d
  reading : Reading content progress.bytesProcessed t.2
  pieces : Pieces t.2 ps
  fits : ∀ p ∈ ps, p.length ≤ maxDataPayloadLength
  hasher : progress.hasher = content.take progress.bytesProcessed
  le_length : progress.bytesProcessed ≤ content.length
  sent_le : progress.networkBytesSent ≤ progress.bytesProcessed

theorem plays_sendDataFrame {p : Bytes} {progress : SendProgress} {t : Disk Γ × SourceFile}
    (hsize : content.length < 2 ^ 64) (h : Unsent content d (p :: ps) progress t) :
    Plays (sendDataFrame progress : Sender Γ _) t (tells (dataFrame p)) fun r t' =>
      ∃ progress', r = .inl progress' ∧ Unsent content d ps progress' t' := by
  obtain ⟨d', file⟩ := t
  obtain ⟨rfl, hreading, hpieces, hfits, hhasher, hle, hsent⟩ := h
  dsimp only at hreading hpieces
  have hsignal : SourceFile.signal file = (.ok none, file.awaited) := by
    rw [SourceFile.signal, hreading.available.signals 0]
    rfl
  refine (plays_onSource hsignal).bind_silent fun signal t ht => ?_
  obtain ⟨rfl, rfl⟩ := ht
  cases hpieces with
  | @more _ file' _ _ hrun hne hrest =>
    obtain ⟨q, file'', hrun', -, hpre, -, hreading'⟩ := hreading.awaited.read_run
      (n := maxDataPayloadLength) (by norm_num)
    rw [hrun, Prod.mk.injEq, Outcome.ok.injEq] at hrun'
    obtain ⟨rfl, rfl⟩ := hrun'
    refine (plays_onSource hrun).bind_silent fun bs t ht => ?_
    obtain ⟨rfl, rfl⟩ := ht
    rw [if_neg hne]
    obtain ⟨hplen, hfits⟩ := List.forall_mem_cons.mp hfits
    have hacc : (dataFrame bs).header.Acceptable wfpVersion := acceptable_new rfl
      (le_trans hplen (by norm_num)) fun _ => hplen
    refine (plays_sendFrame hacc.encodable).bind_pure fun _ t ht => ?_
    subst ht
    have hlen := hpre.length_le
    rw [List.length_drop] at hlen
    refine plays_check (by omega) (plays_check (by omega)
      (plays_pure ⟨_, rfl, rfl, hreading', hrest, hfits, ?_, ?_, ?_⟩))
    · simp only
      rw [hhasher, List.take_add, List.prefix_iff_eq_take.mp hpre]
      simp
    · simp only
      omega
    · simp only
      omega

theorem plays_sendDataFrame_end {progress : SendProgress} {t : Disk Γ × SourceFile}
    (h : Unsent content d [] progress t) :
    Plays (sendDataFrame progress : Sender Γ _) t [] fun r t' =>
      ∃ progress', r = .inr progress' ∧ progress'.bytesProcessed = content.length ∧
        progress'.hasher = content ∧ t'.1 = d := by
  obtain ⟨d', file⟩ := t
  obtain ⟨rfl, hreading, hpieces, -, hhasher, hle, -⟩ := h
  dsimp only at hreading hpieces
  have hsignal : SourceFile.signal file = (.ok none, file.awaited) := by
    rw [SourceFile.signal, hreading.available.signals 0]
    rfl
  refine (plays_onSource hsignal).bind_silent fun signal t ht => ?_
  obtain ⟨rfl, rfl⟩ := ht
  cases hpieces with
  | @done _ file' hrun =>
    obtain ⟨bs, file'', hrun', -, -, hend, -⟩ := hreading.awaited.read_run
      (n := maxDataPayloadLength) (by norm_num)
    rw [hrun, Prod.mk.injEq, Outcome.ok.injEq] at hrun'
    obtain ⟨rfl, rfl⟩ := hrun'
    refine (plays_onSource hrun).bind_silent fun bs t ht => ?_
    obtain ⟨rfl, rfl⟩ := ht
    have hdone := List.drop_eq_nil_iff.mp (hend rfl)
    have heq : progress.bytesProcessed = content.length := by omega
    rw [if_pos rfl]
    exact plays_pure ⟨progress, rfl, heq, by rw [hhasher, heq, List.take_length], rfl⟩

variable [Crates]

/-- **The file is sent** from an offset on, in the pieces it is read in. -/
theorem plays_sendFrom (hsize : content.length = fileSize.toNat) (h : Reading content offset file)
    (hoffset : offset ≤ content.length) (hpieces : Pieces file ps)
    (hflat : ps.flatten = content.drop offset)
    (hfits : ∀ p ∈ ps, p ≠ [] ∧ p.length ≤ maxDataPayloadLength) :
    Plays (sendFrom fileSize offset (content.take offset) : Sender Γ Unit) (d, file)
      (ps.flatMap (fun p => tells (dataFrame p)) ++
        (tells (Frame.new .complete (blake3 content).1) ++ hears (Frame.new .verified [])))
      fun _ t => t.1 = d := by
  have hlt : content.length < 2 ^ 64 := hsize ▸ fileSize.toNat_lt
  have hcount : ps.length ≤ file.handle.bytes.length := by
    rw [h.left, ← hflat, List.length_flatten, ← List.length_map List.length]
    refine List.length_le_sum_of_one_le _ fun n hn => ?_
    obtain ⟨p, hp, rfl⟩ := List.mem_map.mp hn
    exact List.length_pos_iff.mpr (hfits p hp).1
  have hloop : Plays (Prog.loop (fun _ s => s.2.handle.bytes.length) sendDataFrame
      { bytesProcessed := offset, networkBytesSent := 0, hasher := content.take offset } :
        Sender Γ SendProgress) (d, file)
        (ps.flatMap (fun p => tells (dataFrame p)) ++ []) fun progress t =>
        progress.bytesProcessed = content.length ∧ progress.hasher = content ∧ t.1 = d :=
    plays_loop_store (m := fun _ t => t.2.handle.bytes.length) (I := Unsent content d) hcount
      (fun p ps progress t hI => plays_sendDataFrame hlt hI)
      (fun progress t hI => plays_sendDataFrame_end hI)
      ⟨rfl, h, hpieces, fun p hp => (hfits p hp).2, rfl, hoffset, Nat.zero_le _⟩
  rw [List.append_nil] at hloop
  unfold sendFrom
  refine plays_check (hsize ▸ not_lt.mpr hoffset) (hloop.bind fun progress t ht => ?_)
  obtain ⟨hprocessed, hhasher, rfl⟩ := ht
  refine plays_check (by simp [hprocessed, hsize]) ?_
  have hacc : (Frame.new .complete (blake3 content).1).header.Acceptable wfpVersion :=
    acceptable_new rfl (by rw [(blake3 content).2]; norm_num) (by simp)
  rw [hhasher]
  refine (plays_sendFrame hacc.encodable).bind fun _ t' ht' => ?_
  subst ht'
  refine (plays_receiveFrame (acceptable_empty rfl)).bind_pure fun response t' ht' => ?_
  obtain ⟨rfl, rfl⟩ := ht'
  exact plays_check (by simp) (plays_ofExcept (a := ()) rfl rfl)

end

/-! ### A whole attempt -/

/-- A RESUME of WFP/0.2. -/
theorem acceptable_resume {resume : ResumeRequest} :
    (resumeRequestFrame resume).header.Acceptable wfpVersion :=
  acceptable_new rfl (by rw [length_encodeResume]; norm_num) fun hd => by cases hd

/-- The beginning of a session: both sides greet, and the file is offered. -/
def greeting (offer : FileOffer) : Script :=
  tells (Frame.new .hello [wfpVersion]) ++ (hears (Frame.new .helloAck [wfpVersion]) ++
    tells (Frame.new .offer offer.payload))

/-- The file of an offer is sent in the pieces `ps`, and confirmed. -/
def transferring [Crates] (content : Bytes) (ps : List Bytes) : Script :=
  ps.flatMap (fun p => tells (dataFrame p)) ++
    (tells (Frame.new .complete (blake3 content).1) ++ hears (Frame.new .verified []))

section

variable {d : Disk Γ} {file : SourceFile} {offer : FileOffer} {t : Disk Γ × SourceFile}

/-- The filename fits into an OFFER. -/
structure Nameable (offer : FileOffer) : Prop where
  ne_nil : utf8 offer.filename ≠ []
  length_lt : (utf8 offer.filename).length < 2 ^ 16

theorem Nameable.encode (h : Nameable offer) : encodeOffer offer = .ok offer.payload := by
  simp only [encodeOffer, bind_eq_ok, refuseIf_eq_ok, pure_eq_ok]
  exact ⟨(), h.ne_nil, (), not_le.mpr h.length_lt, trivial⟩

theorem Nameable.acceptable (h : Nameable offer) :
    (Frame.new .offer offer.payload).header.Acceptable wfpVersion := by
  have hid : offer.transferId.1.length = transferIdLength := offer.transferId.2
  have hlt := h.length_lt
  refine acceptable_new rfl ?_ fun hd => by cases hd
  rw [FileOffer.payload, filenameField]
  simp only [List.length_append, length_toBE, length_word, hid]
  norm_num [transferIdLength, maxPayloadLength] at hlt ⊢
  omega

theorem acceptable_version {t : MessageType} (ht : t.isAllowedInVersion wfpVersion) :
    (Frame.new t [wfpVersion]).header.Acceptable wfpVersion :=
  acceptable_new ht (by norm_num) fun _ => by norm_num

theorem plays_sendOffer (h : Nameable offer) :
    Plays (sendOffer offer.filename offer.fileSize offer.transferId : Sender Γ Unit) t
      (greeting offer) fun _ t' => t' = t := by
  refine (plays_sendFrame (acceptable_version rfl).encodable).bind fun _ t' ht => ?_
  subst ht
  refine (plays_receiveFrame (acceptable_version rfl)).bind fun response t' ht => ?_
  obtain ⟨rfl, rfl⟩ := ht
  refine plays_check (by simp) (plays_check (by simp) ?_)
  refine (plays_ofExcept (a := offer.payload) (Q := fun a t => a = offer.payload ∧ t = t')
    (mapError_eq_ok.mpr h.encode) ⟨rfl, rfl⟩).bind_silent fun payload t ht => ?_
  obtain ⟨rfl, rfl⟩ := ht
  exact plays_sendFrame h.acceptable.encodable

variable [Crates]

/-- **The script of an attempt whose offer is settled already.** -/
theorem plays_sendOnce_verified (h : Nameable offer) :
    Plays (sendOnce offer.filename offer.fileSize offer.transferId (.ok ()) : Sender Γ Unit) t
      (greeting offer ++ hears (Frame.new .verified [])) fun _ t' => t' = t := by
  refine (plays_ofExcept (a := ()) (Q := fun _ t' => t' = t) rfl rfl).bind_silent fun _ t' ht => ?_
  subst ht
  refine (plays_sendOffer h).bind fun _ t ht => ?_
  subst ht
  refine (plays_receiveFrame (acceptable_empty rfl)).bind_pure fun response t' ht => ?_
  obtain ⟨rfl, rfl⟩ := ht
  rw [if_pos (show (Frame.new .verified []).messageType = .verified from rfl)]
  exact plays_ofExcept (a := ()) rfl rfl

/-- **The script of an attempt that sends data**, in the pieces in which the file is read. -/
theorem plays_sendOnce_transfer {response : Frame} {settle : Script} {offset : ℕ}
    (h : Nameable offer) (havailable : Available content file)
    (hsize : content.length = offer.fileSize.toNat) (hoffset : offset ≤ content.length)
    (hs : SettledAt content offer.fileSize response settle offset) :
    ∃ ps, ps.flatten = content.drop offset ∧ (∀ p ∈ ps, p ≠ [] ∧ p.length ≤ maxDataPayloadLength) ∧
      Plays (sendOnce offer.filename offer.fileSize offer.transferId (.ok ()) : Sender Γ Unit)
        (d, file) (greeting offer ++ (hears response ++ (settle ++ transferring content ps)))
        fun _ t => t.1 = d := by
  obtain ⟨file₁, hopen, hreading₁⟩ := havailable.open_run
  obtain ⟨file₂, hreading₂, hanswer⟩ := plays_answerOffer (d := d) hsize hreading₁ hs
  obtain ⟨ps, hpieces, hflat, hfits⟩ := hreading₂.exists_pieces
  refine ⟨ps, hflat, hfits, ?_⟩
  have hresponse : response.messageType ≠ .verified ∧ response.header.Acceptable wfpVersion := by
    cases hs with
    | accepted => exact ⟨by simp, acceptable_empty rfl⟩
    | resumed => exact ⟨by simp [resumeRequestFrame], acceptable_resume⟩
    | restarted => exact ⟨by simp [resumeRequestFrame], acceptable_resume⟩
  refine (plays_ofExcept (a := ()) (Q := fun _ t' => t' = (d, file)) rfl rfl).bind_silent ?_
  intro _ t ht
  subst ht
  refine (plays_sendOffer h).bind fun _ t ht => ?_
  subst ht
  refine (plays_receiveFrame hresponse.2).bind fun response' t ht => ?_
  obtain ⟨rfl, rfl⟩ := ht
  rw [if_neg hresponse.1]
  refine (plays_onSource hopen).bind_silent fun _ t ht => ?_
  obtain ⟨-, rfl⟩ := ht
  refine hanswer.bind fun r t ht => ?_
  obtain ⟨rfl, rfl⟩ := ht
  exact plays_sendFrom hsize hreading₂ hoffset hpieces hflat hfits

end

end Warpfile.V02
