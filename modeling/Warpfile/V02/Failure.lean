import Warpfile.V02.Soundness

/-!
# What a failed session leaves

A session that ends in an error before VERIFIED leaves one of three states, and the error and the
notes of the session say which. Before RESUME or ACCEPT nothing was done to the files. A connection
that is lost while RESUME is negotiated leaves them alone, too; one that is lost while data arrive
leaves a partial file with the retained prefix and the payloads that came, and a description of the
offer next to it. Every other failure removes the partial file and its description.

The file operations succeed: nothing faults, and what stands at the names of a description or of a
temporary receipt is a regular file.
-/

namespace Warpfile.V02

open Prog

section

variable [Crates] {dest : Path} {fs fs' : Fs} {e : ReceiverError} {es : List NetEvent}

/-! ### The initial state -/

/-- The names the receiver writes to besides the partial and the final files. -/
def auxiliaryNames (dest : Path) : Set Path :=
  {p | (∃ filename, p ∈ metadataNames (partialPath dest filename)) ∨
    ∃ T, p = completionReceiptTemporaryPath dest T}

/-- Nothing stands in the way of the directories, descriptions and temporary receipts, and a
partial file has its inode to itself. -/
structure Workable (dest : Path) (fs : Fs) : Prop where
  partials : fs.Creatable (partialsDirectory dest)
  receipts : fs.Creatable (receiptsDirectory dest)
  regular : ∀ p ∈ auxiliaryNames dest, fs.names p ≠ some .dir ∧ fs.names p ≠ some .symlink
  separate : ∀ filename i, fs.names (partialPath dest filename) = some (.file i) →
    ∀ p ∈ metadataNames (partialPath dest filename), fs.names p ≠ some (.file i)

omit [Crates] in
theorem Workable.irregular (h : Workable dest fs) {T : TransferId} :
    ¬fs.Irregular (completionReceiptTemporaryPath dest T) := by
  rintro (hb | hd | hs)
  · refine (Fs.Creatable.not_blocked (p := completionReceiptTemporaryPath dest T) ?_ ?_) hb
    · rw [dropLast_completionReceiptTemporaryPath]
      exact h.receipts
    · exact appendSuffix_ne_nil
  · exact (h.regular _ (.inr ⟨T, rfl⟩)).1 hd
  · exact (h.regular _ (.inr ⟨T, rfl⟩)).2 hs

omit [Crates] in
/-- Making directories leaves nothing in the way of a description. -/
theorem Workable.tidy (h : Workable dest fs) (hm : Made dest fs fs') {filename : String} :
    ¬fs'.Untidy (partialPath dest filename) := by
  have hregular (p : Path) (hp : p ∈ metadataNames (partialPath dest filename)) :
      ¬fs'.Irregular p := by
    have hdrop : p.dropLast = partialsDirectory dest := by
      rcases hp with rfl | rfl <;> simp
    have hp0 : p ≠ [] := by
      rcases hp with rfl | rfl <;> exact appendSuffix_ne_nil
    have hnames : fs'.names p = fs.names p := hm.names_eq' (Set.notMem_empty _)
      (notMem_directories hp0 (.inl hdrop))
    rintro (hb | hd | hs)
    · refine (Fs.Creatable.not_blocked (p := p) ?_ hp0) hb
      rw [hdrop]
      exact hm.creatable (fun _ _ => Set.notMem_empty _) h.partials
    · exact (h.regular p (.inl ⟨filename, hp⟩)).1 (hnames ▸ hd)
    · exact (h.regular p (.inl ⟨filename, hp⟩)).2 (hnames ▸ hs)
  rintro (h | h)
  · exact hregular _ (.inr rfl) h
  · exact hregular _ (.inl rfl) h

/-! ### What is left -/

/-- Preparation began: the receiver tried to write RESUME or ACCEPT, and no REJECT. -/
def Begun (es : List NetEvent) : Prop :=
  (∃ event ∈ es, event.Attempts .resume ∨ event.Attempts .accept) ∧
    ∀ event ∈ es, ¬event.Attempts .reject

/-- The prefix that is retained when the sender accepts to resume; a transfer that the receiver
accepts starts over. -/
def retained (path : Path) (fs : Fs) (es : List NetEvent) : Bytes :=
  if payloads .accept es = [] then [] else (fs.read path).getD []

/-- The partial file holds the retained prefix and what came, and its description is about the
offer. -/
structure Retained (path : Path) (offer : FileOffer) (fs : Fs) (es : List NetEvent) (fs' : Fs) :
    Prop where
  data : fs'.read path = some (retained path fs es ++ (payloads .data es).flatten)
  le_size : (retained path fs es ++ (payloads .data es).flatten).length ≤ offer.fileSize.toNat
  described : fs'.transferMetadata path = some (transferMetadataForOffer offer)

/-- Neither the partial file nor its description is left. -/
def Discarded (path : Path) (fs' : Fs) : Prop := ∀ p ∈ scratch path, fs'.names p = none

/-- What a session leaves that failed after preparation had begun. -/
def Broken (path : Path) (dest : Path) (offer : FileOffer) (fs : Fs) (e : ReceiverError)
    (es : List NetEvent) (fs' : Fs) : Prop :=
  if shouldPreservePartial e then
    match stage es with
    | .negotiating => Made dest fs fs'
    | .receiving => Retained path offer fs es fs'
    | .opening | .preparing => Discarded path fs'
  else Discarded path fs'

/-- **What a failed session leaves.** -/
def Aftermath (dest : Path) (fs : Fs) (e : ReceiverError) (es : List NetEvent) (fs' : Fs) : Prop :=
  (¬Begun es → Made dest fs fs') ∧
    (Begun es → ∃ payload offer, opening payload <+: es ∧ decodeOffer payload = .ok offer ∧
      Broken (partialPath dest offer.filename) dest offer fs e es fs')

/-! ### The stages of a session -/

omit [Crates] in
/-- The offer is made before preparation begins. -/
theorem stage_opening {payload : Bytes} : stage (opening payload ++ es) = stage es := by
  simp [stage, opening, Stage.next]

omit [Crates] in
/-- While data arrive nothing but the end of the session ends the stage. -/
theorem stage_quiet {es' : List NetEvent} (h : stage es = .receiving) (hq : Quiet es') :
    stage (es ++ es') = .receiving := by
  rw [stage, List.foldl_append, ← stage, h]
  clear h
  induction es' with
  | nil => rfl
  | cons event es' ih =>
    obtain ⟨he, hq'⟩ := List.forall_mem_cons.mp hq
    rw [List.foldl_cons]
    cases event with
    | received => exact ih hq'
    | receiveFailed => exact ih hq'
    | sent => cases he
    | sendFailed => cases he

section

variable {path : Path} {offer : FileOffer} {prepared : PreparedTransfer} {bytes : Bytes}

theorem Prepared.stage_eq (h : Prepared path offer fs prepared fs' es bytes) :
    stage es = .receiving := by
  cases h <;> simp [stage, Stage.next, resumeFrame]

theorem Prepared.begun (h : Prepared path offer fs prepared fs' es bytes) : Begun es := by
  cases h <;> simp [Begun, resumeFrame]

/-- A prepared transfer has a partial file that is not the description. -/
theorem Prepared.separate (h : Prepared path offer fs prepared fs' es bytes)
    (hs : ∀ i, fs.names path = some (.file i) → ∀ p ∈ metadataNames path,
      fs.names p ≠ some (.file i)) :
    fs'.names (transferMetadataPath path) ≠ some (.file prepared.output.ino) := by
  cases h with
  | fresh _ h => exact h.separate
  | resumed _ h =>
    intro hM
    obtain ⟨q, hq, hn⟩ := h.within.inodes _ (.inr rfl) _ (fs.allocated _ _ h.name) hM
    exact hs _ h.name q hq hn
  | restarted _ h => exact h.separate

/-- What is retained is what the transfer starts from. -/
theorem Prepared.retained_eq (h : Prepared path offer fs prepared fs' es bytes) :
    retained path fs es = bytes := by
  cases h with
  | fresh _ h => simp [retained, h.empty]
  | resumed _ h =>
    have hread : fs.read path = some bytes := Fs.read_eq_some.mpr ⟨_, h.name, h.data⟩
    simp [retained, hread]
  | restarted _ h => simp [retained, h.empty]

end

omit [Crates] in
theorem Begun.append {es' : List NetEvent} (h : Begun es) (hq : Quiet es') : Begun (es ++ es') := by
  obtain ⟨⟨event, he, ha⟩, hr⟩ := h
  refine ⟨⟨event, List.mem_append_left _ he, ha⟩, fun event he ha => ?_⟩
  rcases List.mem_append.mp he with he | he
  · exact hr event he ha
  · rw [NetEvent.Attempts, hq event he] at ha
    cases ha

omit [Crates] in
theorem begun_opening {payload : Bytes} : Begun (opening payload ++ es) ↔ Begun es := by
  simp [Begun, opening]

omit [Crates] in
theorem retained_opening {path : Path} {payload : Bytes} :
    retained path fs (opening payload ++ es) = retained path fs es := by
  simp [retained, opening]

/-! ### The ways in which a session fails -/

section

variable {offer : FileOffer}

/-- A connection that is lost while data arrive leaves what came. -/
theorem Underway.retained {prepared : PreparedTransfer} {bytes : Bytes} {ps : List Bytes}
    {fs₁ : Fs} {error : ProtocolIoError} (hw : Workable dest fs)
    (h : Underway dest offer fs fs₁ prepared es bytes)
    (hle : (bytes ++ ps.flatten).length ≤ offer.fileSize.toNat) :
    Retained (partialPath dest offer.filename) offer fs
      (es ++ (dataEvents ps ++ [.receiveFailed error]))
      (fs₁.setData prepared.output.ino (bytes ++ ps.flatten)) := by
  obtain ⟨fs₀, hm, hprep⟩ := h.prepared
  set P := partialPath dest offer.filename with hP
  have hnames (p : Path) (hp : p ∈ scratch P) : fs₀.names p = fs.names p := by
    refine hm.names_eq' (Set.notMem_empty _) (notMem_directories ?_ (.inl ?_))
    · rcases hp with rfl | rfl | rfl
      · exact partialPath_ne_nil
      · exact appendSuffix_ne_nil
      · exact appendSuffix_ne_nil
    · rw [dropLast_of_mem_scratch hp, hP, dropLast_partialPath]
  have hread : fs₀.read P = fs.read P := hm.read_eq (hnames _ (.inl rfl))
  have hretained : V02.retained P fs (es ++ (dataEvents ps ++ [.receiveFailed error])) = bytes := by
    rw [← hprep.retained_eq, V02.retained, V02.retained, hread]
    simp [payloads_dataEvents]
  have hdata : payloads .data (es ++ (dataEvents ps ++ [.receiveFailed error])) = ps := by
    simp [hprep.payloads_eq_nil, payloads_dataEvents]
  have hsep := hprep.separate fun i hi p hp hn => by
    rw [hnames _ (.inl rfl)] at hi
    rw [hnames p (.inr hp)] at hn
    exact hw.separate _ i hi p hp hn
  refine ⟨?_, ?_, ?_⟩
  · rw [hretained, hdata]
    exact Fs.read_eq_some.mpr ⟨_, by simpa using hprep.ready.name, by simp⟩
  · rwa [hretained, hdata]
  · have hd := hprep.ready.described
    rw [Fs.transferMetadata, Option.bind_eq_bind, Option.bind_eq_some_iff] at hd
    obtain ⟨text, htext, hd⟩ := hd
    obtain ⟨j, hj, htext⟩ := Fs.read_eq_some.mp htext
    have hji : j ≠ prepared.output.ino := fun h => hsep (h ▸ hj)
    rw [Fs.transferMetadata, Fs.read_eq_some.mpr ⟨j, by simpa using hj, by simpa [hji] using htext⟩]
    exact hd

omit [Crates] in
/-- The opening of the session does not matter to what is left. -/
theorem broken_opening [Crates] {path : Path} {payload : Bytes} :
    Broken path dest offer fs e (opening payload ++ es) fs' ↔ Broken path dest offer fs e es fs' := by
  have h : Retained path offer fs (opening payload ++ es) fs' ↔ Retained path offer fs es fs' := by
    have hdata : payloads .data (opening payload ++ es) = payloads .data es := by simp [opening]
    refine ⟨fun h => ⟨?_, ?_, h.described⟩, fun h => ⟨?_, ?_, h.described⟩⟩
    · simpa only [retained_opening, hdata] using h.data
    · simpa only [retained_opening, hdata] using h.le_size
    · simpa only [retained_opening, hdata] using h.data
    · simpa only [retained_opening, hdata] using h.le_size
  rw [Broken, Broken, stage_opening]
  simp only [h]

/-- What is left of a transfer that was not prepared. -/
theorem PrepareFailed.aftermath {fs₀ : Fs} (hw : Workable dest fs) (hm : Made dest fs fs₀)
    (h : PrepareFailed false (partialPath dest offer.filename) fs₀ fs' e es) :
    (¬Begun es → Made dest fs fs') ∧
      (Begun es → Broken (partialPath dest offer.filename) dest offer fs e es fs') := by
  cases h with
  | refused h hes =>
    subst h
    refine ⟨fun _ => hm, fun hb => ?_⟩
    obtain ⟨⟨event, he, -⟩, hr⟩ := hb
    exact absurd (hes event he) (hr event he)
  | negotiating h hpres hes =>
    subst h
    have hstage : stage es = .negotiating := by
      rcases hes with rfl | rfl <;> simp [stage, Stage.next, resumeFrame]
    refine ⟨fun _ => hm, fun _ => ?_⟩
    rw [Broken, if_pos hpres, hstage]
    exact hm
  | unready _ hc => exact absurd (hc.resolve_left (by simp)) (hw.tidy hm)
  | discarded _ hnone _ hr hb hstage =>
    refine ⟨fun hn => absurd ⟨hb, hr⟩ hn, fun _ => ?_⟩
    rw [Broken]
    split_ifs with hpres
    · rw [hstage hpres]
      exact hnone
    · exact hnone

/-- What is left of a transfer that was under way. -/
theorem Underway.aftermath {prepared : PreparedTransfer} {bytes : Bytes} {es' : List NetEvent}
    {fs₁ fs₂ : Fs} (hw : Workable dest fs) (h : Underway dest offer fs fs₁ prepared es bytes)
    (hq : Quiet es')
    (hf : TransferFailed fs₁ prepared.output.ino offer.fileSize.toNat bytes e es' fs₂)
    (hleft : Left false (partialPath dest offer.filename) e fs₂ fs') :
    Begun (es ++ es') ∧ Broken (partialPath dest offer.filename) dest offer fs e (es ++ es') fs' := by
  obtain ⟨fs₀, hm, hprep⟩ := h.prepared
  refine ⟨hprep.begun.append hq, ?_⟩
  rw [Broken, stage_quiet hprep.stage_eq hq]
  obtain ⟨bs, hbs⟩ := hf.setData
  split_ifs with hpres
  · rcases hf with ⟨ps, error, rfl, rfl, rfl, hle⟩ | ⟨hno, -⟩
    · rcases hleft with ⟨-, rfl⟩ | ⟨hno, -⟩
      · exact h.retained hw hle
      · cases hpres.symm.trans hno
    · cases hpres.symm.trans hno
  · rcases hleft with ⟨hyes, -⟩ | ⟨-, -, hc⟩
    · exact absurd hyes hpres
    · subst hbs
      have hregular : ¬(fs₁.setData prepared.output.ino bs).Irregular
          (partialPath dest offer.filename) := fun hi =>
        hi.not_file partialPath_ne_nil (by simpa using hprep.ready.name)
      refine ((hc.resolve_left (by simp)).resolve_left hregular).resolve_left fun hu => ?_
      refine hw.tidy hm (hprep.untidy (hu.imp ?_ ?_))
      · exact (Fs.irregular_of_names Fs.names_setData).mp
      · exact (Fs.irregular_of_names Fs.names_setData).mp

/-- What is left when an offer was served in vain. -/
theorem Ending.aftermath (hw : Workable dest fs)
    (h : Ending false false dest offer fs (.err e) es fs') (hv : Unverified es) :
    (¬Begun es → Made dest fs fs') ∧
      (Begun es → Broken (partialPath dest offer.filename) dest offer fs e es fs') := by
  cases h with
  | refused hm hes =>
    refine ⟨fun _ => hm, fun hb => ?_⟩
    obtain ⟨⟨event, he, -⟩, hr⟩ := hb
    exact absurd (hes event he) (hr event he)
  | settled _ _ _ hc =>
    cases hc with
    | failed => simp [Unverified] at hv
  | settling _ _ hc =>
    cases hc with
    | err hc => cases hc
  | unprepared _ _ hm hf => exact hf.aftermath hw hm
  | failed hu hq hf hleft =>
    obtain ⟨hb, h⟩ := hu.aftermath hw hq hf hleft
    exact ⟨fun hn => absurd hb hn, fun _ => h⟩
  | committing _ _ _ _ hcl =>
    rcases hcl with ⟨-, hc⟩ | ⟨-, hc⟩
    · cases hc with
      | @failed _ error =>
        exact absurd (by simp) (hv (.sendFailed (Frame.new .verified []) error) (by simp))
    · cases hc with
      | err hc =>
        rcases hc with hc | hc | hc
        · cases hc
        · exact absurd hw.receipts hc
        · exact absurd hc hw.irregular

theorem SessionEnding.aftermath {input : Bytes} (hw : Workable dest fs)
    (h : SessionEnding false false dest fs input (.err e) es fs') (hv : Unverified es) :
    Aftermath dest fs e es fs' := by
  cases h with
  | unopened _ hu =>
    refine ⟨fun _ => .refl _, fun hb => ?_⟩
    obtain ⟨⟨event, he, ha⟩, -⟩ := hb
    rcases ha with ha | ha
    · rcases hu.wrote event he _ ha with h | h <;> cases h
    · rcases hu.wrote event he _ ha with h | h <;> cases h
  | @offered es _ payload offer _ hd hsafe hend =>
    have hv' : Unverified es := fun event he => hv event (List.mem_append_right _ he)
    obtain ⟨hno, hyes⟩ := hend.aftermath hw hv'
    refine ⟨fun hn => hno fun hb => hn (begun_opening.mpr hb), fun hb => ?_⟩
    exact ⟨payload, offer, List.prefix_append .., hd,
      broken_opening.mpr (hyes (begun_opening.mp hb))⟩

end

/-- **Failed sessions.** A session that fails before VERIFIED, on files whose operations succeed,
leaves the files as they were, or the partial file with what came, or no partial file. -/
theorem failed_session_aftermath {disk : Disk (.alone false false)} {net : Net}
    {w' : Session (.alone false false)} (hw : Workable dest disk.fs)
    (h : receiveConnection dest (.start disk net) = (.err e, w'))
    (hv : Unverified (w'.log.map Prod.fst)) :
    Aftermath dest disk.fs e (w'.log.map Prod.fst) w'.fs := by
  obtain ⟨es, hend, l, hl, rfl, -⟩ := (receiveConnection_spec (w := .start disk net)).of_eq h
  rw [show (World.start disk net).log ++ l = l from List.nil_append l] at hl
  rw [hl] at hv ⊢
  exact hend.aftermath hw hv

end

/-- A peer that offers two bytes, sends one and goes away. -/
def cutShort : Net :=
  .closed (encodings [Frame.new .hello [wfpVersion],
    Frame.new .offer (FileOffer.payload ⟨Block.ofBytes 16 [1], "a", 2⟩), Frame.new .data [120]])

theorem workable_empty {dest : Path} : Workable dest .empty where
  partials _ _ := .inl rfl
  receipts _ _ := .inl rfl
  regular _ _ := by simp [Fs.empty]
  separate _ _ h := by simp [Fs.empty] at h

open scoped SerdeJson in
theorem failed_session_aftermath_cutShort :
    Aftermath ["d"] emptyDisk.fs (.protocol (.io (.os .unexpectedEof)))
      ((receiveConnection ["d"] (.start emptyDisk cutShort)).2.log.map Prod.fst)
      (receiveConnection ["d"] (.start emptyDisk cutShort)).2.fs := by
  have hlost : (receiveConnection ["d"] (.start emptyDisk cutShort)).1 =
      .err (.protocol (.io (.os .unexpectedEof))) := by decide +kernel
  have hrun : receiveConnection ["d"] (.start emptyDisk cutShort) =
      (.err (.protocol (.io (.os .unexpectedEof))),
        (receiveConnection ["d"] (.start emptyDisk cutShort)).2) := by
    rw [← hlost]
  have hv : Unverified ((receiveConnection ["d"] (.start emptyDisk cutShort)).2.log.map Prod.fst) := by
    unfold Unverified
    decide +kernel
  exact failed_session_aftermath workable_empty hrun hv

end Warpfile.V02
