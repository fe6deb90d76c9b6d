import Warpfile.V02.Sender

/-!
# What the sender of WFP/0.2 may say

A run of `sendOnce` notes a course: it greets and offers, and what it says from the receiver's
answer on depends on the bytes of the file. `Negotiated` settles the offset to continue from,
DATA frames follow that carry the file from there, and COMPLETE comes after the last of them.
However the file is read in pieces, and wherever the run breaks off, nothing else is noted.
-/

namespace Warpfile.V02

open Prog

variable {Γ : Setting}

/-! ### The two sides of the state -/

section

variable {ε α : Type} {s : Session Γ × SourceFile}
  {Q : Outcome ε α → Session Γ × SourceFile → Prop}

@[simp]
theorem ensures_onStream {p : Prog (Session Γ) ε α} :
    (onStream p).Ensures s Q ↔ p.Ensures s.1 fun o stream => Q o (stream, s.2) := by
  unfold Prog.Ensures onStream
  rfl

@[simp]
theorem ensures_onFile {p : Prog SourceFile ε α} :
    (onFile p).Ensures s Q ↔ p.Ensures s.2 fun o file => Q o (s.1, file) := by
  unfold Prog.Ensures onFile
  rfl

end

/-- From `w` to `w'` the session noted `es`. -/
def Logged (w : Session Γ) (es : List NetEvent) (w' : Session Γ) : Prop :=
  w'.log.map Prod.fst = w.log.map Prod.fst ++ es

section

variable {w w₁ w₂ : Session Γ} {es es' : List NetEvent} {event : NetEvent}

theorem Logged.refl : Logged w [] w := (List.append_nil _).symm

theorem Logged.trans (h : Logged w es w₁) (h' : Logged w₁ es' w₂) : Logged w (es ++ es') w₂ := by
  rw [Logged, h', h, List.append_assoc]

theorem logged_of_noted (h : Noted w event w₁) : Logged w [event] w₁ := by
  rw [Logged, h.log, List.map_append]
  rfl

theorem Logged.of_log_eq (h : w₁.log = w.log) : Logged w [] w₁ := by
  rw [Logged, h, List.append_nil]

end

/-- The postcondition of a part of a course: `S` holds of what it returns, of what it noted and
of the file; where it breaks off, `E` holds of what it noted. -/
def Course {α : Type} (s : Session Γ × SourceFile) (S : α → List NetEvent → SourceFile → Prop)
    (E : List NetEvent → Prop) : Outcome SendAttemptError α → Session Γ × SourceFile → Prop :=
  Post (fun a t => ∃ es, Logged s.1 es t.1 ∧ S a es t.2) (fun _ t => ∃ es, Logged s.1 es t.1 ∧ E es)
    fun t => ∃ es, Logged s.1 es t.1 ∧ E es

section

variable {α β : Type} {s : Session Γ × SourceFile} {S : α → List NetEvent → SourceFile → Prop}
  {E : List NetEvent → Prop} {p : Sender Γ α}

theorem course_pure {a : α} (h : S a [] s.2) : (pure a : Sender Γ α).Ensures s (Course s S E) :=
  ensures_pure.mpr ⟨[], .refl, h⟩

theorem course_throw {e : SendAttemptError} (h : E []) :
    (throw e : Sender Γ α).Ensures s (Course s S E) := ensures_throw.mpr ⟨[], .refl, h⟩

theorem course_ofExcept {r : Except SendAttemptError α} (ok : ∀ a, r = .ok a → S a [] s.2)
    (h : E []) : (Prog.ofExcept r : Sender Γ α).Ensures s (Course s S E) := by
  cases r with
  | ok a => exact course_pure (ok a rfl)
  | error e => exact course_throw h

theorem Course.mono {S' : α → List NetEvent → SourceFile → Prop} {E' : List NetEvent → Prop}
    (h : p.Ensures s (Course s S E)) (hS : ∀ a es file, S a es file → S' a es file)
    (hE : ∀ es, E es → E' es) : p.Ensures s (Course s S' E') :=
  Ensures.mono h fun o t h => by
    cases o with
    | ok a => exact h.imp fun es h => ⟨h.1, hS a es _ h.2⟩
    | err e => exact h.imp fun es h => ⟨h.1, hE es h.2⟩
    | halt => exact h.imp fun es h => ⟨h.1, hE es h.2⟩

/-- **The rule for a course**: what its second part notes comes after what its first part noted. -/
theorem Course.bind {f : α → Sender Γ β} {S' : β → List NetEvent → SourceFile → Prop}
    {E' : List NetEvent → Prop} (hp : p.Ensures s (Course s S E))
    (hf : ∀ a es t, S a es t.2 → (f a).Ensures t
      (Course t (fun b es' file => S' b (es ++ es') file) fun es' => E' (es ++ es')))
    (hE : ∀ es, E es → E' es) : (p >>= f).Ensures s (Course s S' E') := by
  have broken {t : Session Γ × SourceFile} :
      (∃ es, Logged s.1 es t.1 ∧ E es) → ∃ es, Logged s.1 es t.1 ∧ E' es :=
    fun ⟨es, hes, h⟩ => ⟨es, hes, hE es h⟩
  refine Ensures.bind hp (fun a t ⟨es, hes, ha⟩ => ?_) (fun _ _ => broken) fun _ => broken
  refine (hf a es t ha).mono fun o u hu => ?_
  cases o with
  | ok b =>
    obtain ⟨es', hes', hb⟩ := hu
    exact ⟨es ++ es', hes.trans hes', hb⟩
  | err e =>
    obtain ⟨es', hes', hb⟩ := hu
    exact ⟨es ++ es', hes.trans hes', hb⟩
  | halt =>
    obtain ⟨es', hes', hb⟩ := hu
    exact ⟨es ++ es', hes.trans hes', hb⟩

theorem Course.check {c : Prop} [Decidable c] {e : SendAttemptError} {k : PUnit → Sender Γ α}
    (hk : ¬c → (k ⟨⟩).Ensures s (Course s S E)) (h : E []) :
    (if c then throw e >>= k else k ⟨⟩).Ensures s (Course s S E) := by
  split
  · exact Course.bind (S := fun _ _ _ => False) (course_throw h) (fun _ _ _ h => h.elim)
      fun _ h => h
  · exact hk ‹_›

/-- The loop rule. -/
theorem Course.loop {m : β → SourceFile → ℕ} {body : β → Sender Γ (β ⊕ α)}
    (I : β → List NetEvent → SourceFile → Prop)
    (hbody : ∀ b es t, I b es t.2 → (body b).Ensures t (Course t
      (fun r es' file => r.elim
        (fun b' => I b' (es ++ es') file ∧ m b' file < m b t.2)
        fun a => S a (es ++ es') file) fun es' => E (es ++ es')))
    {b : β} (h : I b [] s.2) :
    (Prog.loop (fun b t => m b t.2) body b).Ensures s (Course s S E) := by
  refine Ensures.loop (fun b t => ∃ es, Logged s.1 es t.1 ∧ I b es t.2) ?_ ⟨[], .refl, h⟩
  rintro b t ⟨es, hes, hI⟩
  refine (hbody b es t hI).mono fun o u hu => ?_
  rcases o with (b' | a) | e | _
  · obtain ⟨es', hes', hI', hlt⟩ := hu
    exact ⟨⟨es ++ es', hes.trans hes', hI'⟩, hlt⟩
  · obtain ⟨es', hes', ha⟩ := hu
    exact ⟨es ++ es', hes.trans hes', ha⟩
  · obtain ⟨es', hes', he⟩ := hu
    exact ⟨es ++ es', hes.trans hes', he⟩
  · obtain ⟨es', hes', he⟩ := hu
    exact ⟨es ++ es', hes.trans hes', he⟩

theorem course_sendFrame {frame : Frame} : (sendFrame frame).Ensures s (Course s
    (fun _ es file => es = [.sent frame] ∧ file = s.2)
    fun es => ∃ event, es = [event] ∧ event.attempted = some frame) := by
  rw [sendFrame, ensures_onStream, ensures_mapErr]
  refine writeFrame_noted.mono fun o w h => ?_
  cases o with
  | ok => exact ⟨_, logged_of_noted h, rfl, rfl⟩
  | err => exact ⟨_, logged_of_noted h, _, rfl, rfl⟩
  | halt => exact h.elim

theorem course_receiveFrame : (receiveFrame : Sender Γ Frame).Ensures s (Course s
    (fun frame es file => es = [.received frame] ∧ file = s.2 ∧
      frame = Frame.new frame.messageType frame.payload) Quiet) := by
  rw [receiveFrame, ensures_onStream, ensures_mapErr]
  refine readFrame_noted.mono fun o w h => ?_
  cases o with
  | ok => exact ⟨_, logged_of_noted h.1, rfl, rfl, h.2.1⟩
  | err => exact ⟨_, logged_of_noted h, by simp [Quiet, NetEvent.attempted]⟩
  | halt => exact ⟨_, .of_log_eq h.2, by simp [Quiet]⟩

end

/-! ### The course after the offer -/

/-- The sender is asked to continue from an offset. -/
def resumeRequestFrame (resume : ResumeRequest) : Frame := Frame.new .resume (encodeResume resume)

/-- The frames of the payloads `ps` were written. -/
def sentData (ps : List Bytes) : List NetEvent := ps.map fun p => .sent (Frame.new .data p)

section

variable [Crates] (bytes : Bytes) (fileSize : UInt64)

/-- The receiver has the beginning of the file, up to the offset. -/
structure Fits (resume : ResumeRequest) : Prop where
  offset_le : resume.offset ≤ fileSize
  inside : resume.offset.toNat ≤ bytes.length
  prefixHash : blake3 (bytes.take resume.offset.toNat) = resume.prefixHash

/-- The answer to the offer is settled: the sender continues from the offset `r`. -/
inductive Negotiated : ℕ → List NetEvent → Prop
  | accepted : Negotiated 0 [.received (Frame.new .accept [])]
  | resumed {resume : ResumeRequest} (fits : Fits bytes fileSize resume) :
      Negotiated resume.offset.toNat
        [.received (resumeRequestFrame resume), .sent (Frame.new .accept [])]
  | restarted {resume : ResumeRequest} (unfit : ¬Fits bytes fileSize resume) :
      Negotiated 0 [.received (resumeRequestFrame resume), .sent (Frame.new .restart []),
        .received (Frame.new .accept [])]

/-- The run breaks off before the answer to the offer is settled. -/
inductive Unsettled : List NetEvent → Prop
  | quiet {es : List NetEvent} (quiet : Quiet es) : Unsettled es
  | accepting {resume : ResumeRequest} {event : NetEvent} (fits : Fits bytes fileSize resume)
      (event_eq : event.attempted = some (Frame.new .accept [])) :
      Unsettled [.received (resumeRequestFrame resume), event]
  | restarting {resume : ResumeRequest} {event : NetEvent} {es : List NetEvent}
      (unfit : ¬Fits bytes fileSize resume)
      (event_eq : event.attempted = some (Frame.new .restart [])) (quiet : Quiet es) :
      Unsettled (.received (resumeRequestFrame resume) :: event :: es)

/-- The run breaks off while the file is sent from the offset `r` on. -/
inductive Interrupted (r : ℕ) : List NetEvent → Prop
  | pausing {ps : List Bytes} (le : ps.flatten <+: bytes.drop r) : Interrupted r (sentData ps)
  | breaking {ps : List Bytes} {p : Bytes} {event : NetEvent}
      (le : ps.flatten ++ p <+: bytes.drop r)
      (event_eq : event.attempted = some (Frame.new .data p)) :
      Interrupted r (sentData ps ++ [event])
  | cancelling {ps : List Bytes} {event : NetEvent} (le : ps.flatten <+: bytes.drop r)
      (event_eq : event.attempted = some (Frame.new .cancel [])) :
      Interrupted r (sentData ps ++ [event])

/-- All of the file from the offset `r` on is sent, and it has the size that was offered. -/
structure Sent (r : ℕ) (ps : List Bytes) : Prop where
  data : ps.flatten = bytes.drop r
  size : bytes.length = fileSize.toNat

end

/-! ### Reading the file -/

/-- The file gives the same bytes whenever it is opened. -/
def Unchanged (bytes : Bytes) (file : SourceFile) : Prop :=
  ∀ n handle, file.opens n = .ok handle → handle.bytes = bytes

/-- The file is open; what comes from offset `n` on is left to read. -/
structure OpenAt (bytes : Bytes) (n : ℕ) (file : SourceFile) : Prop where
  unchanged : Unchanged bytes file
  left : file.handle.bytes = bytes.drop n

section

variable {s : Session Γ × SourceFile} {bytes : Bytes} {n : ℕ}

theorem course_open (h : Unchanged bytes s.2) : (onSource SourceFile.open).Ensures s
    (Course s (fun _ es file => es = [] ∧ OpenAt bytes 0 file) (· = [])) := by
  rw [onSource, ensures_onFile, ensures_mapErr]
  rcases hopen : s.2.opens 0 with e | handle
  · refine ensures_of_eq (o := .err e) (by rw [SourceFile.open, hopen]) ?_
    exact ⟨[], .refl, rfl⟩
  · refine ensures_of_eq (o := .ok ()) (by rw [SourceFile.open, hopen]) ?_
    exact ⟨[], .refl, rfl, fun n handle hn => h (n + 1) handle hn, h 0 handle hopen⟩

theorem course_read {len : ℕ} (hlen : 0 < len) (h : OpenAt bytes n s.2) :
    (onSource (SourceFile.read len)).Ensures s (Course s
      (fun bs es file => es = [] ∧ bs <+: bytes.drop n ∧ bs.length ≤ len ∧
        (bs = [] → bytes.drop n = []) ∧ OpenAt bytes (n + bs.length) file ∧
        (bs ≠ [] → file.handle.bytes.length < s.2.handle.bytes.length)) (· = [])) := by
  have took {bs rest : Bytes} {file : SourceFile} (hb : s.2.handle.bytes = bs ++ rest)
      (hfile : file.handle.bytes = rest) (hopens : file.opens = s.2.opens)
      (hle : bs.length ≤ len) (hend : bs = [] → bytes.drop n = []) :
      bs <+: bytes.drop n ∧ bs.length ≤ len ∧ (bs = [] → bytes.drop n = []) ∧
        OpenAt bytes (n + bs.length) file ∧
        (bs ≠ [] → file.handle.bytes.length < s.2.handle.bytes.length) := by
    have hdrop : bytes.drop n = bs ++ rest := h.left.symm.trans hb
    refine ⟨⟨rest, hdrop.symm⟩, hle, hend, ⟨?_, ?_⟩, fun hne => ?_⟩
    · rw [Unchanged, hopens]
      exact h.unchanged
    · rw [hfile, ← List.drop_drop, hdrop, List.drop_left]
    · rw [hfile, hb, List.length_append]
      have := List.length_pos_iff.mpr hne
      omega
  have read {Q : Outcome IoError Bytes → SourceFile → Prop}
      (h : (Source.read len).Ensures s.2.handle fun o handle => Q o { s.2 with handle }) :
      (SourceFile.read len).Ensures s.2 Q := by
    unfold Prog.Ensures at h ⊢
    exact h
  rw [onSource, ensures_onFile, ensures_mapErr]
  refine read (Source.ensures_read (fun hnil => ?_) (fun bs rest hs hle => ?_)
    (fun bs rest hne hs hlen' => ?_) fun e rest hs => ⟨[], .refl, rfl⟩)
  · have hleft : bytes.drop n = [] := by rw [← h.left, hnil, Source.bytes_nil]
    exact ⟨[], .refl, rfl, took (show _ = [] ++ [] by rw [hnil]; rfl) rfl rfl (Nat.zero_le _)
      fun _ => hleft⟩
  · refine ⟨[], .refl, rfl, took (by rw [hs, Source.bytes_ok]) rfl rfl hle fun hnil => ?_⟩
    exact absurd hnil bs.2
  · have hsplit : s.2.handle.bytes = bs.1.take len ++ (bs.1.drop len ++ Source.bytes rest) := by
      rw [hs, Source.bytes_ok, ← List.append_assoc, List.take_append_drop]
    refine ⟨[], .refl, rfl, took hsplit rfl rfl hlen'.le ?_⟩
    · intro hnil
      rw [hnil] at hlen'
      exact absurd hlen' (by simpa using hlen.ne)

end

/-! ### Resuming -/

section

variable {s : Session Γ × SourceFile} {bytes : Bytes} {fileSize : UInt64}

theorem course_rejected {α : Type} {what : String} {response : Frame}
    {S : α → List NetEvent → SourceFile → Prop} {E : List NetEvent → Prop} (h : E []) :
    (rejected what response : Sender Γ α).Ensures s (Course s S E) :=
  Course.bind (S := fun _ es _ => es = []) (course_ofExcept (fun _ _ => rfl) h)
    (fun _ _ _ hes => course_throw (by simpa [hes] using h)) fun _ h => h

theorem course_waitForRestartAccept : (waitForRestartAccept : Sender Γ Unit).Ensures s (Course s
    (fun _ es file => es = [.received (Frame.new .accept [])] ∧ file = s.2) Quiet) := by
  refine Course.bind course_receiveFrame ?_ fun _ h => h
  rintro frame _ ⟨w, file⟩ ⟨rfl, rfl, hframe⟩
  have quiet : Quiet [.received frame] := by simp [Quiet, NetEvent.attempted]
  cases ht : frame.messageType with
  | accept =>
    refine course_ofExcept (fun _ hempty => ?_) quiet
    have hempty := not_not.mp (refuseIf_eq_ok.mp hempty)
    rw [hframe, ht, hempty]
    exact ⟨rfl, rfl⟩
  | reject => exact course_rejected quiet
  | _ => exact course_throw quiet

/-- A hashed prefix is the beginning of the file. -/
theorem course_hashPrefix {prefixLength : ℕ} (h : OpenAt bytes 0 s.2) :
    (hashPrefix [] prefixLength).Ensures s (Course s
      (fun hasher es file => es = [] ∧ prefixLength ≤ bytes.length ∧
        hasher = bytes.take prefixLength ∧ OpenAt bytes prefixLength file) (· = [])) := by
  refine Course.loop (m := fun b _ => b.2) (b := ([], prefixLength))
    (fun b es file => es = [] ∧ ∃ n ≤ bytes.length,
      n + b.2 = prefixLength ∧ b.1 = bytes.take n ∧ OpenAt bytes n file) ?_
    ⟨rfl, 0, Nat.zero_le _, Nat.zero_add _, rfl, h⟩
  rintro ⟨hasher, remaining⟩ es t ⟨rfl, n, hn, rfl, rfl, ht⟩
  dsimp only
  split
  · rename_i hmore
    refine Course.bind (course_read (by simp [maxDataPayloadLength]; omega) ht) ?_ fun _ h => h
    rintro piece _ u ⟨rfl, hpre, hle, -, hu, -⟩
    split
    · exact course_throw rfl
    · rename_i hne
      have hpos := List.length_pos_iff.mpr hne
      have hlen := hpre.length_le
      rw [List.length_drop] at hlen
      refine course_pure ⟨⟨rfl, n + piece.length, by omega, by omega, ?_, hu⟩, by omega⟩
      rw [List.take_add, List.prefix_iff_eq_take.mp hpre]
      simp
  · rename_i hdone
    obtain rfl : remaining = 0 := by omega
    exact course_pure ⟨rfl, hn, rfl, ht⟩

theorem course_requestRestart (h : Unchanged bytes s.2) :
    (requestRestart : Sender Γ (ℕ × Hasher)).Ensures s (Course s
      (fun r es file => r = (0, []) ∧
        es = [.sent (Frame.new .restart []), .received (Frame.new .accept [])] ∧
        OpenAt bytes 0 file)
      fun es => ∃ event es', es = event :: es' ∧
        event.attempted = some (Frame.new .restart []) ∧ Quiet es') := by
  refine Course.bind course_sendFrame ?_ ?_
  · rintro _ _ ⟨w, file⟩ ⟨rfl, rfl⟩
    refine Course.bind course_waitForRestartAccept ?_ fun es hq => ⟨_, es, rfl, rfl, hq⟩
    rintro _ _ ⟨w', file⟩ ⟨rfl, rfl⟩
    refine Course.bind (course_open h) ?_ ?_
    · rintro _ _ t ⟨rfl, ht⟩
      exact course_pure ⟨rfl, rfl, ht⟩
    · rintro _ rfl
      exact ⟨_, _, rfl, rfl, by simp [Quiet, NetEvent.attempted]⟩
  · rintro _ ⟨event, rfl, he⟩
    exact ⟨event, [], rfl, he, by simp [Quiet]⟩

variable [Crates]

/-- RESUME is answered. -/
theorem course_negotiateResume {resume : ResumeRequest} (h : OpenAt bytes 0 s.2) :
    (Sender.negotiateResume fileSize [] resume).Ensures s (Course s
      (fun r es file => Negotiated bytes fileSize r.1 (.received (resumeRequestFrame resume) :: es) ∧
        r.1 ≤ bytes.length ∧ r.2 = bytes.take r.1 ∧ OpenAt bytes r.1 file)
      fun es => Unsettled bytes fileSize (.received (resumeRequestFrame resume) :: es)) := by
  have restart {t : Session Γ × SourceFile} (ht : Unchanged bytes t.2)
      (hunfit : ¬Fits bytes fileSize resume) :
      (requestRestart : Sender Γ (ℕ × Hasher)).Ensures t (Course t
        (fun r es file => Negotiated bytes fileSize r.1 (.received (resumeRequestFrame resume) :: es) ∧
          r.1 ≤ bytes.length ∧ r.2 = bytes.take r.1 ∧ OpenAt bytes r.1 file)
        fun es => Unsettled bytes fileSize (.received (resumeRequestFrame resume) :: es)) := by
    refine Course.mono (course_requestRestart ht) ?_ ?_
    · rintro _ _ file ⟨rfl, rfl, hfile⟩
      exact ⟨.restarted hunfit, Nat.zero_le _, rfl, hfile⟩
    · rintro _ ⟨event, es', rfl, hevent, hq⟩
      exact .restarting hunfit hevent hq
  have quiet : Quiet [.received (resumeRequestFrame resume)] := by simp [Quiet, NetEvent.attempted]
  unfold Sender.negotiateResume
  split
  · rename_i hgt
    exact restart h.unchanged fun hfits => UInt64.not_le.mpr hgt hfits.offset_le
  · rename_i hle
    refine Course.bind (course_hashPrefix h) ?_ fun es hes => .quiet (by rw [hes]; exact quiet)
    rintro _ _ t ⟨rfl, hinside, rfl, ht⟩
    split
    · rename_i hhash
      have hfits : Fits bytes fileSize resume := ⟨UInt64.not_lt.mp hle, hinside, hhash⟩
      refine Course.bind course_sendFrame ?_ ?_
      · rintro _ _ ⟨w, file⟩ ⟨rfl, rfl⟩
        exact course_pure ⟨.resumed hfits, hinside, rfl, ht⟩
      · rintro _ ⟨event, rfl, hevent⟩
        exact .accepting hfits hevent
    · rename_i hhash
      exact restart ht.unchanged fun hfits => hhash hfits.prefixHash

/-- The offer is answered. -/
theorem course_answerOffer {response : Frame} (h : OpenAt bytes 0 s.2)
    (hresponse : response = Frame.new response.messageType response.payload) :
    (answerOffer fileSize response).Ensures s (Course s
      (fun r es file => Negotiated bytes fileSize r.1 (.received response :: es) ∧
        r.1 ≤ bytes.length ∧ r.2 = bytes.take r.1 ∧ OpenAt bytes r.1 file)
      fun es => Unsettled bytes fileSize (.received response :: es)) := by
  have quiet : Unsettled bytes fileSize [.received response] :=
    .quiet (by simp [Quiet, NetEvent.attempted])
  unfold answerOffer
  cases ht : response.messageType with
  | accept =>
    refine Course.bind (S := fun _ es file => es = [] ∧ file = s.2 ∧ response.payload = [])
      (course_ofExcept (fun _ hempty => ⟨rfl, rfl, not_not.mp (refuseIf_eq_ok.mp hempty)⟩) quiet)
      ?_ fun _ h => h
    rintro _ _ ⟨w, file⟩ ⟨rfl, rfl, hempty⟩
    rw [hresponse, ht, hempty]
    exact course_pure ⟨.accepted, Nat.zero_le _, rfl, h⟩
  | reject => exact course_rejected quiet
  | resume =>
    refine Course.bind (S := fun resume es file => es = [] ∧ file = s.2 ∧
      response = resumeRequestFrame resume) (course_ofExcept (fun resume hresume => ⟨rfl, rfl, ?_⟩) quiet)
      ?_ fun _ h => h
    · rw [hresponse, ht, resumeRequestFrame, decodeResume_eq_ok.mp (mapError_eq_ok.mp hresume)]
    · rintro resume _ ⟨w, file⟩ ⟨rfl, rfl, hframe⟩
      rw [hframe]
      exact course_negotiateResume h
  | _ => exact course_throw quiet

end

/-! ### Sending -/

section

variable {s : Session Γ × SourceFile} {bytes : Bytes} {fileSize : UInt64} {r : ℕ}

theorem sentData_append (ps ps' : List Bytes) : sentData (ps ++ ps') = sentData ps ++ sentData ps' :=
  List.map_append

/-- The payloads `ps` were sent from the offset `r` on, and no more were read. -/
structure Sending (bytes : Bytes) (r : ℕ) (ps : List Bytes) (progress : SendProgress)
    (file : SourceFile) : Prop where
  openAt : OpenAt bytes (r + ps.flatten.length) file
  le : ps.flatten <+: bytes.drop r
  hasher : progress.hasher = bytes.take r ++ ps.flatten
  bytesProcessed : progress.bytesProcessed = r + ps.flatten.length

theorem Sending.file_eq {ps : List Bytes} {progress : SendProgress} {file file' : SourceFile}
    (h : Sending bytes r ps progress file) (hh : file'.handle = file.handle)
    (ho : file'.opens = file.opens) : Sending bytes r ps progress file' :=
  { h with openAt := ⟨fun n handle hn => h.openAt.unchanged n handle (ho ▸ hn), by
      rw [hh, h.openAt.left]⟩ }

theorem course_signal : (onSource SourceFile.signal : Sender Γ _).Ensures s (Course s
    (fun _ es file => es = [] ∧ file.handle = s.2.handle ∧ file.opens = s.2.opens) (· = [])) := by
  rw [onSource, ensures_onFile, ensures_mapErr]
  exact ensures_of_eq rfl ⟨[], .refl, rfl, rfl, rfl⟩

theorem course_cancelTransfer {α : Type} {signalResult : Except IoError Unit}
    {S : α → List NetEvent → SourceFile → Prop} :
    (cancelTransfer signalResult : Sender Γ α).Ensures s (Course s S fun es => es = [] ∨
      ∃ event, es = [event] ∧ event.attempted = some (Frame.new .cancel [])) := by
  refine Course.bind (S := fun _ es _ => es = []) (course_ofExcept (fun _ _ => rfl) (.inl rfl)) ?_
    fun _ h => h
  rintro _ _ t rfl
  have cancelled : (onStream ((writeFrame (Frame.new .cancel [])).mapErr fun e =>
      SendAttemptError.permanent (.protocol e)) : Sender Γ Unit).Ensures t (Course t
        (fun _ es _ => es = [.sent (Frame.new .cancel [])]) fun es =>
          ∃ event, es = [event] ∧ event.attempted = some (Frame.new .cancel [])) := by
    rw [ensures_onStream, ensures_mapErr]
    refine writeFrame_noted.mono fun o w h => ?_
    cases o with
    | ok => exact ⟨_, logged_of_noted h, rfl⟩
    | err => exact ⟨_, logged_of_noted h, _, rfl, rfl⟩
    | halt => exact h.elim
  refine Course.bind cancelled ?_ fun es h => .inr h
  rintro _ _ u rfl
  exact course_throw (.inr ⟨_, rfl, rfl⟩)

/-- One piece more is sent, or the file is at its end. -/
theorem course_sendDataFrame {ps : List Bytes} {progress : SendProgress}
    (h : Sending bytes r ps progress s.2) : (sendDataFrame progress).Ensures s (Course s
      (fun next es file => next.elim
        (fun progress' => ∃ p, es = sentData [p] ∧ Sending bytes r (ps ++ [p]) progress' file ∧
          file.handle.bytes.length < s.2.handle.bytes.length)
        fun progress' => es = [] ∧ Sending bytes r ps progress' file ∧
          ps.flatten = bytes.drop r)
      fun es => Interrupted bytes r (sentData ps ++ es)) := by
  have pausing : Interrupted bytes r (sentData ps ++ []) := by
    rw [List.append_nil]
    exact .pausing h.le
  refine Course.bind course_signal ?_ fun es hes => by rw [hes]; exact pausing
  rintro signal _ t ⟨rfl, hhandle, hopens⟩
  have ht := h.file_eq hhandle hopens
  cases signal with
  | some signalResult =>
    refine Course.mono course_cancelTransfer (fun _ _ _ h => h) ?_
    rintro _ (rfl | ⟨event, rfl, hevent⟩)
    · exact pausing
    · exact .cancelling h.le hevent
  | none =>
    refine Course.bind (course_read (by norm_num) ht.openAt) ?_ fun es hes => by
      rw [hes]
      exact pausing
    rintro piece _ u ⟨rfl, hpre, -, hend, hu, hlt⟩
    rw [hhandle] at hlt
    dsimp only
    split
    · rename_i hnil
      subst hnil
      refine course_pure ⟨rfl, { ht with openAt := by simpa using hu }, ?_⟩
      obtain ⟨rest, hrest⟩ := h.le
      have hdone := hend rfl
      rw [← List.drop_drop, ← hrest, List.drop_left] at hdone
      rw [← hrest, hdone, List.append_nil]
    · rename_i hne
      have hle : ps.flatten ++ piece <+: bytes.drop r := by
        obtain ⟨rest, hrest⟩ := h.le
        rw [← List.drop_drop, ← hrest, List.drop_left] at hpre
        rw [← hrest]
        exact (List.prefix_append_right_inj _).mpr hpre
      have hflat : (ps ++ [piece]).flatten = ps.flatten ++ piece := by simp
      have more : Interrupted bytes r (sentData ps ++ [.sent (Frame.new .data piece)]) :=
        .breaking hle rfl
      refine Course.bind course_sendFrame ?_ ?_
      · rintro _ _ ⟨w, file⟩ ⟨rfl, rfl⟩
        refine Course.check (fun _ => Course.check (fun _ => ?_) more) more
        refine course_pure ⟨piece, rfl, ?_, hlt hne⟩
        refine ⟨?_, by rwa [hflat], ?_, ?_⟩
        · rw [hflat, List.length_append, ← Nat.add_assoc]
          exact hu
        · rw [hflat, ← List.append_assoc, ← h.hasher]
        · rw [hflat, List.length_append, ← Nat.add_assoc, ← h.bytesProcessed]
      · rintro _ ⟨event, rfl, hevent⟩
        exact .breaking hle hevent

variable [Crates]

/-- The run breaks off once all of the file is sent. -/
inductive Unconfirmed (bytes : Bytes) (fileSize : UInt64) (r : ℕ) : List NetEvent → Prop
  | completing {ps : List Bytes} {event : NetEvent} {es : List NetEvent}
      (sent : Sent bytes fileSize r ps)
      (event_eq : event.attempted = some (Frame.new .complete (blake3 bytes).1))
      (quiet : Quiet es) : Unconfirmed bytes fileSize r (sentData ps ++ event :: es)

/-- COMPLETE was sent and confirmed. -/
inductive Confirmed (bytes : Bytes) (fileSize : UInt64) (r : ℕ) : List NetEvent → Prop
  | verified {ps : List Bytes} (sent : Sent bytes fileSize r ps) :
      Confirmed bytes fileSize r (sentData ps ++ [.sent (Frame.new .complete (blake3 bytes).1),
        .received (Frame.new .verified [])])

/-- The file is sent from the offset `r` on. -/
theorem course_sendFrom (h : OpenAt bytes r s.2) (hr : r ≤ bytes.length) :
    (sendFrom fileSize r (bytes.take r)).Ensures s (Course s
      (fun _ es _ => Confirmed bytes fileSize r es)
      fun es => Interrupted bytes r es ∨ Unconfirmed bytes fileSize r es) := by
  have start : Interrupted bytes r (sentData []) := .pausing List.nil_prefix
  unfold sendFrom
  refine Course.check (fun _ => ?_) (.inl start)
  refine Course.bind (S := fun progress es file => ∃ ps, es = sentData ps ∧
    Sending bytes r ps progress file ∧ ps.flatten = bytes.drop r) ?_ ?_ fun _ h => .inl h
  · refine Course.loop (m := fun _ file => file.handle.bytes.length)
      (fun progress es file => ∃ ps, es = sentData ps ∧ Sending bytes r ps progress file) ?_
      ⟨[], rfl, h, List.nil_prefix, (List.append_nil _).symm, rfl⟩
    rintro progress _ t ⟨ps, rfl, ht⟩
    refine Course.mono (course_sendDataFrame ht) ?_ fun _ h => h
    rintro (progress' | progress') es file hnext
    · obtain ⟨p, rfl, hfile, hlt⟩ := hnext
      exact ⟨⟨ps ++ [p], (sentData_append ps [p]).symm, hfile⟩, hlt⟩
    · obtain ⟨rfl, hfile, hdone⟩ := hnext
      exact ⟨ps, List.append_nil _, hfile, hdone⟩
  · rintro progress _ t ⟨ps, rfl, ht, hdone⟩
    have pausing : Interrupted bytes r (sentData ps ++ []) := by
      rw [List.append_nil]
      exact .pausing (by rw [hdone])
    refine Course.check (fun hsize => ?_) (.inl pausing)
    have hsent : Sent bytes fileSize r ps := by
      refine ⟨hdone, ?_⟩
      have hsize := not_not.mp hsize
      rw [ht.bytesProcessed, hdone, List.length_drop] at hsize
      omega
    have hhasher : progress.hasher = bytes := by
      rw [ht.hasher, hdone, List.take_append_drop]
    refine Course.bind course_sendFrame ?_ ?_
    · rintro _ _ u ⟨rfl, -⟩
      refine Course.bind course_receiveFrame ?_ fun es hq => .inr ?_
      · rintro response _ v ⟨rfl, -, hresponse⟩
        have quiet : Unconfirmed bytes fileSize r (sentData ps ++ ([.sent (Frame.new .complete
            (blake3 progress.hasher).1)] ++ ([.received response] ++ []))) :=
          .completing hsent (by rw [hhasher]; rfl) (by simp [Quiet, NetEvent.attempted])
        refine Course.check (fun htype => course_ofExcept (fun _ hempty => ?_) (.inr quiet))
          (.inr quiet)
        have hempty := not_not.mp (refuseIf_eq_ok.mp hempty)
        rw [hresponse, not_not.mp htype, hempty, hhasher]
        exact .verified hsent
      · exact .completing hsent (by rw [hhasher]; rfl) hq
    · rintro _ ⟨event, rfl, hevent⟩
      exact .inr (.completing hsent (by rwa [hhasher] at hevent) (by simp [Quiet]))

end

/-! ### A whole attempt -/

section

variable {s : Session Γ × SourceFile} {bytes : Bytes} {fileSize : UInt64} {r : ℕ}
  {es ns : List NetEvent}

/-- The sender only greets and offers. -/
def Greeting (es : List NetEvent) : Prop := ∀ event ∈ es, ∀ frame, event.attempted = some frame →
  frame.messageType = .hello ∨ frame.messageType = .offer

/-- The offer was sent. -/
def Offered (es : List NetEvent) : Prop :=
  Greeting es ∧ ∃ before payload, es = before ++ [.sent (Frame.new .offer payload)]

theorem Greeting.append {es' : List NetEvent} (h : Greeting es) (h' : Greeting es') :
    Greeting (es ++ es') := fun event he => (List.mem_append.mp he).elim (h event) (h' event)

theorem Greeting.of_quiet (h : Quiet es) : Greeting es := fun event he _ hf =>
  nomatch (h event he).symm.trans hf

theorem Greeting.of_attempted {event : NetEvent} {frame : Frame}
    (h : event.attempted = some frame)
    (hf : frame.messageType = .hello ∨ frame.messageType = .offer) : Greeting [event] := by
  intro event' he frame' hframe
  rw [List.mem_singleton.mp he, h] at hframe
  exact Option.some.inj hframe ▸ hf

theorem course_sendOffer {filename : String} {transferId : TransferId} :
    (sendOffer filename fileSize transferId).Ensures s (Course s
      (fun _ es file => Offered es ∧ file = s.2) Greeting) := by
  have hello {event : NetEvent} (h : event.attempted = some (Frame.new .hello [wfpVersion])) :
      Greeting [event] := .of_attempted h (.inl rfl)
  refine Course.bind course_sendFrame ?_ ?_
  · rintro _ _ ⟨w, file⟩ ⟨rfl, rfl⟩
    refine Course.bind course_receiveFrame ?_ fun es h => (hello rfl).append (.of_quiet h)
    rintro response _ ⟨w', file⟩ ⟨rfl, rfl, -⟩
    have greeted :
        Greeting ([.sent (Frame.new .hello [wfpVersion])] ++ ([.received response] ++ [])) :=
      (hello rfl).append (.of_quiet (by simp [Quiet, NetEvent.attempted]))
    refine Course.check (fun _ => Course.check (fun _ => ?_) greeted) greeted
    refine Course.bind (S := fun _ es file => es = [] ∧ file = s.2) (E := (· = []))
      (course_ofExcept (fun _ _ => ⟨rfl, rfl⟩) rfl) ?_ fun es hes => by rw [hes]; exact greeted
    rintro payload _ ⟨w'', file⟩ ⟨rfl, rfl⟩
    have offered {event : NetEvent} (h : event.attempted = some (Frame.new .offer payload)) :
        Greeting ([.sent (Frame.new .hello [wfpVersion])] ++
          ([.received response] ++ ([] ++ [event]))) :=
      (hello rfl).append (.append (.of_quiet (by simp [Quiet, NetEvent.attempted]))
        (.of_attempted h (.inr rfl)))
    refine Course.mono course_sendFrame ?_ ?_
    · rintro _ _ file ⟨rfl, rfl⟩
      exact ⟨⟨offered rfl, [.sent (Frame.new .hello [wfpVersion]), .received response], payload,
        rfl⟩, rfl⟩
    · rintro _ ⟨event, rfl, hevent⟩
      exact offered hevent
  · rintro _ ⟨event, rfl, hevent⟩
    exact hello hevent

variable [Crates]

/-- What is noted after the offer by an attempt that succeeds. -/
def Succeeded (bytes : Bytes) (fileSize : UInt64) (rest : List NetEvent) : Prop :=
  rest = [.received (Frame.new .verified [])] ∨
    ∃ r ns es, rest = ns ++ es ∧ Negotiated bytes fileSize r ns ∧ Confirmed bytes fileSize r es

/-- What is noted after the offer by an attempt that does not. -/
def CutShort (bytes : Bytes) (fileSize : UInt64) (rest : List NetEvent) : Prop :=
  Unsettled bytes fileSize rest ∨
    ∃ r ns es, rest = ns ++ es ∧ Negotiated bytes fileSize r ns ∧
      (Interrupted bytes r es ∨ Unconfirmed bytes fileSize r es)

theorem course_sendOnce {filename : String} {transferId : TransferId}
    {connected : Except IoError Unit} (h : Unchanged bytes s.2) :
    (sendOnce filename fileSize transferId connected).Ensures s (Course s
      (fun _ es _ => ∃ opening rest, es = opening ++ rest ∧ Offered opening ∧
        Succeeded bytes fileSize rest)
      fun es => Greeting es ∨ ∃ opening rest, es = opening ++ rest ∧ Offered opening ∧
        CutShort bytes fileSize rest) := by
  have silent : Greeting [] := by simp [Greeting]
  refine Course.bind (S := fun _ es file => es = [] ∧ file = s.2) (E := (· = []))
    (course_ofExcept (fun _ _ => ⟨rfl, rfl⟩) rfl) ?_ fun es hes => .inl (by rw [hes]; exact silent)
  rintro _ _ ⟨w, file⟩ ⟨rfl, rfl⟩
  refine Course.bind course_sendOffer ?_ fun es hes => .inl hes
  rintro _ opening ⟨w', file⟩ ⟨hopening, rfl⟩
  refine Course.bind course_receiveFrame ?_ fun es hq =>
    .inr ⟨opening, es, rfl, hopening, .inl (.quiet hq)⟩
  rintro response _ ⟨w'', file⟩ ⟨rfl, rfl, hresponse⟩
  have quiet : CutShort bytes fileSize ([.received response] ++ []) :=
    .inl (.quiet (by simp [Quiet, NetEvent.attempted]))
  split
  · rename_i htype
    refine course_ofExcept (fun _ hempty => ?_) (.inr ⟨opening, _, rfl, hopening, quiet⟩)
    refine ⟨opening, _, rfl, hopening, .inl ?_⟩
    rw [hresponse, htype, not_not.mp (refuseIf_eq_ok.mp hempty)]
    rfl
  · refine Course.bind (course_open h) ?_ fun es hes => by
      rw [hes]
      exact .inr ⟨opening, _, rfl, hopening, quiet⟩
    rintro _ _ t ⟨rfl, ht⟩
    refine Course.bind (course_answerOffer ht hresponse) ?_ fun es hes =>
      .inr ⟨opening, _, rfl, hopening, .inl hes⟩
    rintro ⟨r, hasher⟩ ns u ⟨hns, hr, hhasher, hu⟩
    simp only at hns hr hhasher hu
    subst hhasher
    refine Course.mono (course_sendFrom hu hr) (fun _ es _ hes => ?_) fun es hes => .inr ?_
    · exact ⟨opening, .received response :: ns ++ es, by simp, hopening,
        .inr ⟨r, _, es, rfl, hns, hes⟩⟩
    · exact ⟨opening, .received response :: ns ++ es, by simp, hopening,
        .inr ⟨r, _, es, rfl, hns, hes⟩⟩

/-- The payloads of the DATA frames that were sent, or begun. -/
def sentPayloads (es : List NetEvent) : List Bytes := es.filterMap fun event =>
  event.attempted.bind fun frame => if frame.messageType = .data then some frame.payload else none

/-- What an attempt on a file of the bytes `bytes` says after its offer: `o` is how it ends, and
`r` the offset it continues from. -/
structure SoundCourse (bytes : Bytes) (fileSize : UInt64) (r : ℕ)
    (o : Outcome SendAttemptError Unit) (rest : List NetEvent) : Prop where
  /-- ACCEPT answers a RESUME that fits. -/
  accept : ∀ event ∈ rest, event.Attempts .accept → ∃ resume,
    [.received (resumeRequestFrame resume), event] <+: rest ∧ Fits bytes fileSize resume ∧
      r = resume.offset.toNat
  /-- After a RESUME that does not, what the sender says begins with RESTART. -/
  restart : ∀ resume rest', rest = .received (resumeRequestFrame resume) :: rest' →
    ¬Fits bytes fileSize resume → ¬Quiet rest' →
      ∃ event es, rest' = event :: es ∧ event.attempted = some (Frame.new .restart [])
  offset : (∀ event ∈ rest, ¬event.Attempts .accept) → r = 0
  data : (sentPayloads rest).flatten <+: bytes.drop r
  /-- COMPLETE follows all of the data, and carries the digest of the whole file. -/
  complete : ∀ event ∈ rest, event.Attempts .complete →
    event.attempted = some (Frame.new .complete (blake3 bytes).1) ∧
      bytes.length = fileSize.toNat ∧ ∃ before ps after,
        rest = before ++ sentData ps ++ event :: after ∧ ps.flatten = bytes.drop r
  /-- Success is an empty VERIFIED, after the offer or after COMPLETE. -/
  ok : o = .ok () → rest = [.received (Frame.new .verified [])] ∨
    ∃ before, rest = before ++ [.sent (Frame.new .complete (blake3 bytes).1),
      .received (Frame.new .verified [])]

omit [Crates] in
@[simp]
theorem sentPayloads_append (es es' : List NetEvent) :
    sentPayloads (es ++ es') = sentPayloads es ++ sentPayloads es' := List.filterMap_append

omit [Crates] in
@[simp]
theorem sentPayloads_sentData (ps : List Bytes) : sentPayloads (sentData ps) = ps := by
  induction ps with
  | nil => rfl
  | cons p ps ih =>
    change p :: sentPayloads (sentData ps) = p :: ps
    rw [ih]

omit [Crates] in
theorem sentPayloads_event {event : NetEvent} {frame : Frame} (h : event.attempted = some frame) :
    sentPayloads [event] = if frame.messageType = .data then [frame.payload] else [] := by
  rw [sentPayloads, List.filterMap_cons, h, Option.bind_some, List.filterMap_nil]
  split_ifs <;> rfl

omit [Crates] in
theorem sentPayloads_quiet (h : Quiet es) : sentPayloads es = [] := by
  rw [sentPayloads, List.filterMap_eq_nil_iff]
  intro event he
  rw [h event he, Option.bind_none]

omit [Crates] in
theorem resumeRequestFrame_inj {resume resume' : ResumeRequest}
    (h : resumeRequestFrame resume = resumeRequestFrame resume') : resume = resume' := by
  have hpayload : encodeResume resume = encodeResume resume' := congrArg Frame.payload h
  have hdecode := decodeResume_eq_ok.mpr hpayload
  rw [decodeResume_eq_ok.mpr rfl] at hdecode
  exact (Except.ok.inj hdecode).symm

omit [Crates] in
theorem attempts_of_attempted {event : NetEvent} {frame : Frame} {t : MessageType}
    (h : event.attempted = some frame) : event.Attempts t ↔ frame.messageType = t := by
  rw [NetEvent.Attempts, h, Option.map_some, Option.some.injEq]

/-- What is said once the offset is settled. -/
structure Continuation (bytes : Bytes) (fileSize : UInt64) (r : ℕ)
    (o : Outcome SendAttemptError Unit) (es : List NetEvent) : Prop where
  accept : ∀ event ∈ es, ¬event.Attempts .accept
  data : (sentPayloads es).flatten <+: bytes.drop r
  complete : ∀ event ∈ es, event.Attempts .complete →
    event.attempted = some (Frame.new .complete (blake3 bytes).1) ∧
      bytes.length = fileSize.toNat ∧ ∃ before ps after,
        es = before ++ sentData ps ++ event :: after ∧ ps.flatten = bytes.drop r
  ok : o = .ok () → ∃ before, es = before ++ [.sent (Frame.new .complete (blake3 bytes).1),
    .received (Frame.new .verified [])]

theorem Negotiated.sentPayloads_eq (h : Negotiated bytes fileSize r ns) : sentPayloads ns = [] := by
  cases h <;> rfl

/-- Settling the offset, the sender only says RESTART, or ACCEPT to a RESUME that fits. -/
theorem Negotiated.of_attempts {event : NetEvent} {t : MessageType}
    (hn : Negotiated bytes fileSize r ns) (he : event ∈ ns) (h : event.Attempts t) :
    t = .restart ∨ t = .accept ∧ ∃ resume, ns = [.received (resumeRequestFrame resume), event] ∧
      Fits bytes fileSize resume ∧ r = resume.offset.toNat := by
  cases hn with
  | accepted =>
    rw [List.mem_singleton.mp he] at h
    exact absurd h not_attempts_received
  | @resumed resume fits =>
    rcases List.mem_pair.mp he with rfl | rfl
    · exact absurd h not_attempts_received
    · exact .inr ⟨(attempts_sent.mp h).symm, resume, rfl, fits, rfl⟩
  | restarted =>
    simp only [List.mem_cons, List.not_mem_nil, or_false] at he
    rcases he with rfl | rfl | rfl
    · exact absurd h not_attempts_received
    · exact .inl (attempts_sent.mp h).symm
    · exact absurd h not_attempts_received

theorem Negotiated.sound {o : Outcome SendAttemptError Unit} (hn : Negotiated bytes fileSize r ns)
    (h : Continuation bytes fileSize r o es) : SoundCourse bytes fileSize r o (ns ++ es) where
  accept event he hattempts := by
    have he : event ∈ ns := (List.mem_append.mp he).resolve_right fun he =>
      h.accept event he hattempts
    obtain ht | ⟨-, resume, rfl, hfits, hr⟩ := hn.of_attempts he hattempts
    · exact nomatch ht
    · exact ⟨resume, List.prefix_append _ _, hfits, hr⟩
  restart resume rest' hrest hunfit _ := by
    cases hn with
    | accepted =>
      have := congrArg Frame.messageType (NetEvent.received.inj (List.cons.inj hrest).1)
      exact nomatch this
    | resumed fits =>
      obtain rfl := resumeRequestFrame_inj (NetEvent.received.inj (List.cons.inj hrest).1)
      exact absurd fits hunfit
    | restarted => exact ⟨_, _, (List.cons.inj hrest).2.symm, rfl⟩
  offset haccept := by
    cases hn with
    | accepted => rfl
    | restarted => rfl
    | resumed => exact absurd rfl (haccept (.sent (Frame.new .accept [])) (by simp))
  data := by
    rw [sentPayloads_append, hn.sentPayloads_eq]
    exact h.data
  complete event he hattempts := by
    have he : event ∈ es := (List.mem_append.mp he).resolve_left fun he => by
      obtain ht | ⟨ht, -⟩ := hn.of_attempts he hattempts
      · exact nomatch ht
      · exact nomatch ht
    obtain ⟨heq, hsize, before, ps, after, rfl, hdata⟩ := h.complete event he hattempts
    exact ⟨heq, hsize, ns ++ before, ps, after, by simp, hdata⟩
  ok ho := by
    obtain ⟨before, rfl⟩ := h.ok ho
    exact .inr ⟨ns ++ before, by simp⟩

omit [Crates] in
/-- The DATA frames attempt nothing else. -/
theorem not_attempts_sentData {ps : List Bytes} {t : MessageType} (ht : t ≠ .data) :
    ∀ event ∈ sentData ps, ¬event.Attempts t := by
  intro event he
  obtain ⟨p, -, rfl⟩ := List.mem_map.mp he
  exact fun h => ht (attempts_sent.mp h).symm

theorem Interrupted.continuation {o : Outcome SendAttemptError Unit} (ho : o ≠ .ok ())
    (h : Interrupted bytes r es) : Continuation bytes fileSize r o es := by
  -- the frame that is not DATA does not count
  have ends {ps : List Bytes} {tail : List NetEvent}
      (hdata : (sentPayloads (sentData ps ++ tail)).flatten <+: bytes.drop r)
      (htail : ∀ event ∈ tail, ¬event.Attempts .accept ∧ ¬event.Attempts .complete) :
      Continuation bytes fileSize r o (sentData ps ++ tail) := by
    refine ⟨fun event he => ?_, hdata, fun event he hc => ?_, fun hok => absurd hok ho⟩
    · exact (List.mem_append.mp he).elim (not_attempts_sentData (by decide) event)
        fun he => (htail event he).1
    · refine absurd hc ((List.mem_append.mp he).elim (not_attempts_sentData (by decide) event)
        fun he => (htail event he).2)
  cases h with
  | @pausing ps le =>
    rw [← List.append_nil (sentData ps)]
    exact ends (by simpa using le) (by simp)
  | @breaking ps p event le event_eq =>
    refine ends ?_ ?_
    · rw [sentPayloads_append, sentPayloads_sentData, sentPayloads_event event_eq]
      simpa using le
    · simp [attempts_of_attempted event_eq]
  | @cancelling ps event le event_eq =>
    refine ends ?_ ?_
    · rw [sentPayloads_append, sentPayloads_sentData, sentPayloads_event event_eq]
      simpa using le
    · simp [attempts_of_attempted event_eq]

/-- COMPLETE, and what is heard after it. -/
theorem Sent.continuation {o : Outcome SendAttemptError Unit} {ps : List Bytes} {event : NetEvent}
    (h : Sent bytes fileSize r ps)
    (hevent : event.attempted = some (Frame.new .complete (blake3 bytes).1)) (hq : Quiet es)
    (ho : o = .ok () → event = .sent (Frame.new .complete (blake3 bytes).1) ∧
      es = [.received (Frame.new .verified [])]) :
    Continuation bytes fileSize r o (sentData ps ++ event :: es) := by
  have hheard (event' : NetEvent) (t : MessageType) (he : event' ∈ es) : ¬event'.Attempts t :=
    fun ha => by
      rw [NetEvent.Attempts, hq event' he] at ha
      cases ha
  refine ⟨fun event' he ha => ?_, ?_, fun event' he ha => ?_, fun hok => ?_⟩
  · rcases List.mem_append.mp he with he | he
    · exact not_attempts_sentData (by decide) event' he ha
    · rcases List.mem_cons.mp he with rfl | he
      · cases (attempts_of_attempted hevent).mp ha
      · exact hheard event' _ he ha
  · rw [sentPayloads_append, sentPayloads_sentData, ← List.singleton_append, sentPayloads_append,
      sentPayloads_event hevent, sentPayloads_quiet hq]
    simp [h.data]
  · rcases List.mem_append.mp he with he | he
    · exact absurd ha (not_attempts_sentData (by decide) event' he)
    · rcases List.mem_cons.mp he with rfl | he
      · exact ⟨hevent, h.size, [], ps, es, rfl, h.data⟩
      · exact absurd ha (hheard event' _ he)
  · obtain ⟨rfl, rfl⟩ := ho hok
    exact ⟨sentData ps, rfl⟩

theorem Unsettled.sound {o : Outcome SendAttemptError Unit} (ho : o ≠ .ok ())
    (h : Unsettled bytes fileSize es) : ∃ r, SoundCourse bytes fileSize r o es := by
  have silent {es : List NetEvent} {event : NetEvent} {t : MessageType} (h : Quiet es)
      (he : event ∈ es) : ¬event.Attempts t := fun ha => by
    rw [NetEvent.Attempts, h event he] at ha
    cases ha
  cases h with
  | quiet hq =>
    refine ⟨0, fun event he ha => absurd ha (silent hq he), ?_, fun _ => rfl, ?_,
      fun event he ha => absurd ha (silent hq he), fun hok => absurd hok ho⟩
    · rintro resume rest' rfl - hrest
      exact absurd (fun event he => hq event (List.mem_cons_of_mem _ he)) hrest
    · rw [sentPayloads_quiet hq]
      exact List.nil_prefix
  | @accepting resume event fits event_eq =>
    have hmem {event' : NetEvent} {t : MessageType}
        (he : event' ∈ [.received (resumeRequestFrame resume), event]) (ha : event'.Attempts t) :
        event' = event ∧ t = .accept := by
      rcases List.mem_pair.mp he with rfl | rfl
      · exact absurd ha not_attempts_received
      · exact ⟨rfl, ((attempts_of_attempted event_eq).mp ha).symm⟩
    refine ⟨resume.offset.toNat, fun event' he ha => ?_, ?_, fun haccept => ?_, ?_,
      fun event' he ha => MessageType.noConfusion (hmem he ha).2, fun hok => absurd hok ho⟩
    · rw [(hmem he ha).1]
      exact ⟨resume, List.prefix_rfl, fits, rfl⟩
    · intro resume' rest' hrest hunfit
      obtain rfl := resumeRequestFrame_inj (NetEvent.received.inj (List.cons.inj hrest).1)
      exact absurd fits hunfit
    · exact absurd ((attempts_of_attempted event_eq).mpr rfl) (haccept event (by simp))
    · rw [← List.singleton_append, sentPayloads_append, sentPayloads_event event_eq]
      exact List.nil_prefix
  | @restarting resume event es unfit event_eq hq =>
    have hmem {event' : NetEvent} {t : MessageType}
        (he : event' ∈ .received (resumeRequestFrame resume) :: event :: es) (ha : event'.Attempts t) :
        t = .restart := by
      simp only [List.mem_cons] at he
      rcases he with rfl | rfl | he
      · exact absurd ha not_attempts_received
      · exact ((attempts_of_attempted event_eq).mp ha).symm
      · exact absurd ha (silent hq he)
    refine ⟨0, fun event' he ha => MessageType.noConfusion (hmem he ha), ?_, fun _ => rfl, ?_,
      fun event' he ha => MessageType.noConfusion (hmem he ha), fun hok => absurd hok ho⟩
    · rintro resume' rest' hrest - -
      exact ⟨event, es, (List.cons.inj hrest).2.symm, event_eq⟩
    · have hsplit : (.received (resumeRequestFrame resume) :: event :: es : List NetEvent) =
          [.received (resumeRequestFrame resume)] ++ [event] ++ es := rfl
      rw [hsplit, sentPayloads_append, sentPayloads_append, sentPayloads_event event_eq,
        sentPayloads_quiet hq]
      exact List.nil_prefix

theorem CutShort.sound {o : Outcome SendAttemptError Unit} (ho : o ≠ .ok ())
    (h : CutShort bytes fileSize es) : ∃ r, SoundCourse bytes fileSize r o es := by
  rcases h with h | ⟨r, ns, es, rfl, hn, h | h⟩
  · exact h.sound ho
  · exact ⟨r, hn.sound (h.continuation ho)⟩
  · cases h with
    | completing sent event_eq quiet =>
      exact ⟨r, hn.sound (sent.continuation event_eq quiet fun hok => absurd hok ho)⟩

theorem Succeeded.sound (h : Succeeded bytes fileSize es) :
    ∃ r, SoundCourse bytes fileSize r (.ok ()) es := by
  rcases h with rfl | ⟨r, ns, es, rfl, hn, h⟩
  · have hsettled : Unsettled bytes fileSize [.received (Frame.new .verified [])] :=
      .quiet (by simp [Quiet, NetEvent.attempted])
    obtain ⟨r, h⟩ := hsettled.sound (o := .halt) (by simp)
    exact ⟨r, { h with ok := fun _ => .inl rfl }⟩
  · cases h with
    | verified sent =>
      refine ⟨r, hn.sound (sent.continuation rfl ?_ fun _ => ⟨rfl, rfl⟩)⟩
      simp [Quiet, NetEvent.attempted]

end

/-- A file of the bytes `bytes`, whatever reads its handle fails, and however it is read in
pieces. -/
def SourceFile.of (bytes : Bytes)
    (opens : ℕ → Except IoError { handle : Source // handle.bytes = bytes })
    (signals : ℕ → Option (Except IoError Unit)) : SourceFile where
  handle := []
  opens n := (opens n).map Subtype.val
  signals := signals

/-- What is noted by an attempt that ends as `o`. -/
structure SoundAttempt [Crates] (bytes : Bytes) (fileSize : UInt64)
    (o : Outcome SendAttemptError Unit) (es : List NetEvent) : Prop where
  course : ∃ opening rest r, es = opening ++ rest ∧ Greeting opening ∧
    (Offered opening ∨ rest = []) ∧ SoundCourse bytes fileSize r o rest

end Warpfile.V02
