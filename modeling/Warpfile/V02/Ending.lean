import Mathlib.Logic.Relation
import Warpfile.V02.Transfer

/-!
# How a session ends

`Ending` lists the ways in which serving an offer can end, with the notes of the session and the
files it leaves. Every result about a session or a run of sessions is read off this list.
-/

namespace Warpfile.V02

open Prog

variable [Crates] {faults crashes : Bool}

/-- The directories a receiver makes. -/
def directories (dest : Path) : Set Path :=
  Fs.chain (partialsDirectory dest) ∪ Fs.chain (receiptsDirectory dest)

/-- Nothing was done to the files but to make directories. -/
abbrev Made (dest : Path) : Fs → Fs → Prop := Fs.Within (directories dest) ∅ ∅

/-- A transfer was prepared: no receipt for it and no final file exist. -/
structure Underway (dest : Path) (offer : FileOffer) (fs fs₁ : Fs) (prepared : PreparedTransfer)
    (es : List NetEvent) (bytes : Bytes) : Prop where
  receipt : fs.names (completionReceiptPath dest offer.transferId) = none
  final : fs.names (finalPath dest offer.filename) = none
  prepared : ∃ fs₀, Made dest fs fs₀ ∧
    Prepared (partialPath dest offer.filename) offer fs₀ prepared fs₁ es bytes

/-- What is left of the files of a transfer that failed while it received data. -/
def Left (faults : Bool) (path : Path) (e : ReceiverError) (fs fs' : Fs) : Prop :=
  shouldPreservePartial e = true ∧ fs' = fs ∨
    shouldPreservePartial e = false ∧ Fs.Within ∅ (scratch path) ∅ fs fs' ∧
      (faults ∨ fs.Irregular path ∨ fs.Untidy path ∨ ∀ p ∈ scratch path, fs'.names p = none)

omit [Crates] in
theorem Left.within {path : Path} {e : ReceiverError} {fs fs' : Fs} (h : Left faults path e fs fs') :
    Fs.Within ∅ (scratch path) ∅ fs fs' := by
  rcases h with ⟨-, h⟩ | ⟨-, h, -⟩
  · exact .of_eq h
  · exact h

/-- The last note of a session that has published a file. -/
inductive Closing : Outcome ReceiverError Unit → List NetEvent → Prop
  | verified : Closing (.ok ()) [.sent (Frame.new .verified [])]
  | failed {error : ReceiverError} {e : ProtocolIoError} :
      Closing (.err error) [.sendFailed (Frame.new .verified []) e]

/-- The process was killed, or an error has the reason `c`. -/
inductive BrokenOff (crashes : Bool) (c : Prop) : Outcome ReceiverError Unit → Prop
  | halt : crashes → BrokenOff crashes c .halt
  | err {e : ReceiverError} : c → BrokenOff crashes c (.err e)

/-- **The ways in which serving an offer ends.** -/
inductive Ending (faults crashes : Bool) (dest : Path) (offer : FileOffer) (fs : Fs) :
    Outcome ReceiverError Unit → List NetEvent → Fs → Prop
  /-- nothing was done -/
  | refused {o : Outcome ReceiverError Unit} {es : List NetEvent} {fs' : Fs} :
      Made dest fs fs' → (∀ event ∈ es, event.Attempts .reject) →
      BrokenOff crashes (faults ∨ ¬fs.Creatable dest ∨ ¬Settleable dest offer fs') o →
      Ending faults crashes dest offer fs o es fs'
  /-- the offer was settled by a receipt and VERIFIED was written -/
  | settled {o : Outcome ReceiverError Unit} {es : List NetEvent} {fs₀ fs' : Fs} :
      Made dest fs fs₀ → Settling dest offer fs₀ fs' →
      fs'.names (finalPath dest offer.filename) ≠ none → Closing o es →
      Ending faults crashes dest offer fs o es fs'
  /-- settling the offer by a receipt broke off -/
  | settling {o : Outcome ReceiverError Unit} {fs₀ fs' : Fs} :
      Made dest fs fs₀ → Settling dest offer fs₀ fs' → BrokenOff crashes faults o →
      Ending faults crashes dest offer fs o [] fs'
  /-- the transfer was not prepared -/
  | unprepared {e : ReceiverError} {es : List NetEvent} {fs₀ fs' : Fs} :
      fs.names (completionReceiptPath dest offer.transferId) = none →
      fs.names (finalPath dest offer.filename) = none → Made dest fs fs₀ →
      PrepareFailed faults (partialPath dest offer.filename) fs₀ fs' e es →
      Ending faults crashes dest offer fs (.err e) es fs'
  /-- the transfer failed while data were received -/
  | failed {prepared : PreparedTransfer} {e : ReceiverError} {es es' : List NetEvent}
      {fs₁ fs₂ fs' : Fs} {bytes : Bytes} : Underway dest offer fs fs₁ prepared es bytes →
      Quiet es' → TransferFailed fs₁ prepared.output.ino offer.fileSize.toNat bytes e es' fs₂ →
      Left faults (partialPath dest offer.filename) e fs₂ fs' →
      Ending faults crashes dest offer fs (.err e) (es ++ es') fs'
  /-- the process was killed, or waits for ever, while a transfer was under way -/
  | halted {es : List NetEvent} {fs₀ fs₁ fs₂ fs' : Fs} :
      fs.names (completionReceiptPath dest offer.transferId) = none →
      fs.names (finalPath dest offer.filename) = none → Made dest fs fs₀ →
      Fs.Within ∅ (scratch (partialPath dest offer.filename)) ∅ fs₀ fs₁ →
      (fs₂ = fs₁ ∨ ∃ i bs, (fs₀.names (partialPath dest offer.filename) = some (.file i) ∨
        fs₀.next ≤ i) ∧ fs₂ = fs₁.setData i bs) →
      Fs.Within ∅ (scratch (partialPath dest offer.filename)) ∅ fs₂ fs' → Unverified es →
      Ending faults crashes dest offer fs .halt es fs'
  /-- all data were received, and the receipt was or was not published -/
  | committing {prepared : PreparedTransfer} {o : Outcome ReceiverError Unit} {ps : List Bytes}
      {es es' : List NetEvent} {fs₁ fs' : Fs} {bytes b : Bytes} :
      Underway dest offer fs fs₁ prepared es bytes → b = bytes ++ ps.flatten →
      b.length = offer.fileSize.toNat →
      Committing dest offer (blake3 b) prepared.output.ino (fs₁.setData prepared.output.ino b) fs' →
      (fs'.names (finalPath dest offer.filename) ≠ none ∧ Closing o es' ∨
        es' = [] ∧ BrokenOff crashes (faults ∨ ¬fs.Creatable (receiptsDirectory dest) ∨
          fs.Irregular (completionReceiptTemporaryPath dest offer.transferId)) o) →
      Ending faults crashes dest offer fs o
        (es ++ (dataEvents ps ++ [.received (Frame.new .complete (blake3 b).1)]) ++ es') fs'

section

variable {dest : Path} {offer : FileOffer} {fs fs' : Fs} {p : Path}

omit [Crates] in
/-- What stands in a directory of the receiver is none of these directories. -/
theorem notMem_directories (hp : p ≠ [])
    (h : p.dropLast = partialsDirectory dest ∨ p.dropLast = receiptsDirectory dest) :
    p ∉ directories dest := by
  have hlen : p.length = dest.length + 3 := by
    have := List.length_pos_iff.mpr hp
    rcases h with h | h <;>
      (have h := congrArg List.length h
       simp [partialsDirectory, receiptsDirectory, internalDirectory] at h
       omega)
  rintro (h | h) <;>
    (have h := h.2.length_le
     simp [partialsDirectory, receiptsDirectory, internalDirectory] at h
     omega)

omit [Crates] in
theorem finalPath_notMem_directories {filename : String} (h : isSafeFilename filename) :
    finalPath dest filename ∉ directories dest := by
  have h := ne_internal_of_isSafeFilename h
  exact fun hd => hd.elim (finalPath_notMem_chain_partialsDirectory h)
    (finalPath_notMem_chain_receiptsDirectory h)

/-- Without a receipt an offer is not settled. -/
theorem not_settleable (h : fs.names (completionReceiptPath dest offer.transferId) = none) :
    ¬Settleable dest offer fs := by
  rintro ⟨r, ⟨hr, -⟩, -⟩
  exact absurd ((Fs.receipt_eq_none h).symm.trans hr) (by simp)

end

section

variable {dest : Path} {offer : FileOffer} {w : Session (.alone faults crashes)}

/-- The outcomes of serving an offer. -/
def EndingPost (dest : Path) (offer : FileOffer) (w : Session (.alone faults crashes))
    (o : Outcome ReceiverError Unit) (w' : Session (.alone faults crashes)) : Prop :=
  ∃ es, Ending faults crashes dest offer w.fs o es w'.fs ∧ Gained w es w'

/-- A refusal, after directories were made. -/
private theorem EndingPost.of_rejected {w₁ w' : Session (.alone faults crashes)} {e : ReceiverError}
    (hr : Rejected w₁ w') (hm : Made dest w.fs w₁.fs) (hlog : w₁.log = w.log)
    (hc : faults ∨ ¬w.fs.Creatable dest ∨ ¬Settleable dest offer w₁.fs) :
    EndingPost dest offer w (.err e) w' := by
  obtain ⟨es, hg, hes⟩ := hr.2
  refine ⟨es, .refused ?_ hes (.err ?_), (gained_congr hlog).mp hg⟩
  · rwa [hr.fs_eq]
  · rwa [hr.fs_eq]

/-- An error of a call, after directories were made. -/
private theorem EndingPost.of_err {w' : Session (.alone faults crashes)} {e : ReceiverError}
    (hm : Made dest w.fs w'.fs) (hlog : w'.log = w.log)
    (hc : faults ∨ ¬w.fs.Creatable dest ∨ ¬Settleable dest offer w'.fs) :
    EndingPost dest offer w (.err e) w' :=
  ⟨[], .refused hm (by simp) (.err hc), .of_log_eq hlog⟩

private theorem EndingPost.of_halt {w' : Session (.alone faults crashes)}
    (hm : Made dest w.fs w'.fs) (hlog : w'.log = w.log) (hc : crashes) :
    EndingPost dest offer w .halt w' :=
  ⟨[], .refused hm (by simp) (.halt hc), .of_log_eq hlog⟩

/-- The data stage and what follows it. -/
private theorem receiveAndCommit_spec {prepared : PreparedTransfer} {es : List NetEvent}
    {bytes : Bytes} {w₁ : Session (.alone faults crashes)} (hsafe : isSafeFilename offer.filename)
    (hu : Underway dest offer w.fs w₁.fs prepared es bytes) (hg : Gained w es w₁) :
    (do
      match ← (receiveFileData prepared.output offer.fileSize.toNat prepared.bytesReceived
          prepared.hasher).attempt with
      | .ok completed =>
        commitTransfer dest (finalPath dest offer.filename) (partialPath dest offer.filename) offer
          completed
      | .error error =>
        preserveOrDiscard (partialPath dest offer.filename) error : Receiver _ Unit).Ensures w₁
      (EndingPost dest offer w) := by
  obtain ⟨fs₀, hmade, hprep⟩ := hu.prepared
  have hP0 : partialPath dest offer.filename ≠ [] := partialPath_ne_nil
  have hready := hprep.ready
  have hwithin := hprep.within
  have hv := hprep.unverified
  -- outside the scratch files nothing was done
  have names {p : Path} (hp : p ∉ directories dest)
      (h : p.dropLast ≠ partialsDirectory dest) : w₁.fs.names p = w.fs.names p := by
    have hps : p ∉ scratch (partialPath dest offer.filename) := notMem_scratch (by simpa using h)
    rw [hwithin.names_eq' hps (Set.notMem_empty _), hmade.names_eq' (Set.notMem_empty _) hp]
  rw [hready.hasher, hready.bytesReceived]
  refine Ensures.bind_attempt (receiveFileData_spec rfl hready.data hready.at_end)
    (fun completed w₂ h => ?_) (fun e w₂ h => ?_) fun w' h => ?_
  · obtain ⟨ps, hfs, hlen, hdigest, hino, hg₂⟩ := h
    have hg' := hg.trans hg₂ hv
    have hv' := hv.append (quiet_complete ps (blake3 (bytes ++ ps.flatten)).1).unverified
    have hR : w₂.fs.names (completionReceiptPath dest offer.transferId) = none := by
      rw [hfs, Fs.names_setData, names (notMem_directories completionReceiptPath_ne_nil
        (.inr (by simp))) (by simp)]
      exact hu.receipt
    have hD : w₂.fs.names (finalPath dest offer.filename) = none := by
      rw [hfs, Fs.names_setData, names (finalPath_notMem_directories hsafe) (by simp)]
      exact hu.final
    have hP : w₂.fs.names (partialPath dest offer.filename) = some (.file prepared.output.ino) := by
      rw [hfs]
      exact hready.name
    refine (commitTransfer_spec hdigest hino (ne_internal_of_isSafeFilename hsafe) hR hD hP).mono
      fun o w' h => ?_
    cases o with
    | ok =>
      obtain ⟨hc, hn, hg₃⟩ := h
      rw [hfs] at hc
      exact ⟨_, .committing hu rfl hlen hc (.inl ⟨hn, .verified⟩), hg'.trans hg₃ hv'⟩
    | err e =>
      obtain ⟨hc, ⟨hn, e', hg₃⟩ | ⟨hg₃, hcause⟩⟩ := h
      · rw [hfs] at hc
        exact ⟨_, .committing hu rfl hlen hc (.inl ⟨hn, .failed⟩), hg'.trans hg₃ hv'⟩
      · rw [hfs] at hc
        refine ⟨_, .committing hu rfl hlen hc (.inr ⟨rfl, .err ?_⟩), hg'.trans hg₃ hv'⟩
        by_cases hcr : w.fs.Creatable (receiptsDirectory dest)
        swap
        · exact .inr (.inl hcr)
        have hcr₁ : w₁.fs.Creatable (receiptsDirectory dest) := by
          refine hwithin.creatable (fun q hq h => ?_) (hmade.creatable (by simp) hcr)
          have hd := dropLast_of_mem_scratch h
          rw [dropLast_partialPath] at hd
          exact notMem_directories hq.1 (.inl hd) (.inr hq)
        have hcr₂ : w₂.fs.Creatable (receiptsDirectory dest) := by rwa [hfs]
        refine hcause.imp_right fun h => .inr ?_
        rw [hfs] at h hcr₂
        replace h := h.resolve_left (not_not.mpr hcr₂)
        have hRt0 : completionReceiptTemporaryPath dest offer.transferId ≠ [] := appendSuffix_ne_nil
        replace h := h.resolve_left (Fs.Creatable.not_blocked
          (by rwa [dropLast_completionReceiptTemporaryPath]) hRt0)
        rw [Fs.names_setData, names (notMem_directories hRt0 (.inr (by simp))) (by simp)] at h
        exact .inr h
    | halt =>
      obtain ⟨hc, hg₃, hcr⟩ := h
      rw [hfs] at hc
      exact ⟨_, .committing hu rfl hlen hc (.inr ⟨rfl, .halt hcr⟩), hg'.trans hg₃ hv'⟩
  · obtain ⟨es', hg₂, hq, hfail⟩ := h
    refine (preserveOrDiscard_spec hP0).mono fun o w' h => ?_
    have hv' : Unverified (es ++ es') := hv.append hq.unverified
    cases o with
    | ok => exact h.elim
    | err =>
      obtain ⟨rfl, hlog, hleft⟩ := h
      exact ⟨_, .failed hu hq hfail hleft, (hg.trans hg₂ hv).of_eq hlog hv'⟩
    | halt =>
      obtain ⟨bs, hfs⟩ := hfail.setData
      exact ⟨_, .halted hu.receipt hu.final hmade hwithin (.inr ⟨_, bs, hprep.ino, hfs⟩) h.2 hv',
        (hg.trans hg₂ hv).of_eq h.1 hv'⟩
  · obtain ⟨es', hg₂, hq, bs, hfs⟩ := h
    refine ⟨_, .halted hu.receipt hu.final hmade hwithin (.inr ⟨_, bs, hprep.ino, hfs⟩) (.refl _)
      (hv.append hq.unverified), hg.trans hg₂ hv⟩

theorem receiveOffered_spec (hsafe : isSafeFilename offer.filename) :
    (receiveOffered dest offer).Ensures w (EndingPost dest offer w) := by
  have dest_subset : Fs.chain dest ⊆ directories dest := fun q hq =>
    .inl ⟨hq.1, hq.2.trans prefix_partialsDirectory⟩
  unfold receiveOffered
  refine Ensures.bind (orReject_spec (onDisk_spec Storage.ensureDirectory_spec)) ?_
    (fun e w' h => ?_) fun w' h => ?_
  · rintro ⟨⟩ w₁ ⟨d₁, ⟨h₁, hdest⟩, rfl⟩
    have made₁ : Made dest w.fs d₁.fs := h₁.mono dest_subset le_rfl fun _ h => .inl h
    refine Ensures.bind reconcileCompletedTransfer_spec ?_ (fun e w' h => ?_) fun w' h => ?_
    · rintro settled w₂ h₂
      cases settled with
      | true =>
        obtain ⟨hs, hD, hg⟩ : Settled dest offer _ w₂ := h₂
        rw [if_pos rfl, ensures_pure]
        exact ⟨_, .settled made₁ hs hD .verified, (gained_congr rfl).mp hg⟩
      | false =>
        obtain ⟨h₂, hg₂, hR⟩ : w₂.fs = d₁.fs ∧ Gained _ [] w₂ ∧ d₁.fs.names _ = none := h₂
        replace hg₂ : w₂.log = w.log := gained_nil.mp hg₂
        have stay {fs' : Fs} (h : fs' = w₂.fs) :
            Made dest w.fs fs' ∧ fs'.names (completionReceiptPath dest offer.transferId) = none ∧
              ¬Settleable dest offer fs' := by
          rw [h, h₂]
          exact ⟨made₁, hR, not_settleable hR⟩
        rw [if_neg (by simp)]
        refine World.ensures_onDisk_bind (Storage.pathExists_spec finalPath_ne_nil) ?_
          (fun e d h => .of_err (stay h.1).1 hg₂ (.inr (.inr (stay h.1).2.2)))
          fun d h => .of_halt (stay h.1).1 hg₂ h.2
        rintro exists? d₃ ⟨h₃, hD⟩
        obtain ⟨made₃, hR₃, hns₃⟩ := stay h₃
        cases exists? with
        | true =>
          rw [if_pos rfl]
          refine Ensures.bind sendReject_spec (fun _ w' h => ?_)
            (fun _ w' h => .of_rejected h made₃ hg₂ (.inr (.inr hns₃))) fun _ h => h.elim
          rw [ensures_bind, ensures_throw]
          exact .of_rejected h made₃ hg₂ (.inr (.inr hns₃))
        | false =>
          have hDnone : d₃.fs.names (finalPath dest offer.filename) = none := by
            by_contra hn
            rw [h₃] at hn
            exact absurd (hD.mpr hn) (by simp)
          rw [if_neg (by simp)]
          -- once the directories are made
          have made {fs' : Fs}
              (h : Fs.Within (Fs.chain (partialsDirectory dest)) ∅ ∅ d₃.fs fs') :
              Made dest w.fs fs' ∧ ¬Settleable dest offer fs' := by
            have h : Made dest d₃.fs fs' := h.mono Set.subset_union_left le_rfl fun _ h => .inl h
            refine ⟨made₃.trans h, not_settleable ?_⟩
            rwa [h.names_eq' (Set.notMem_empty _)
              (notMem_directories completionReceiptPath_ne_nil (.inr (by simp)))]
          refine Ensures.bind (orReject_spec (onDisk_spec Storage.ensureDirectory_spec)) ?_
            (fun e w' h => ?_) fun w' h => ?_
          · rintro ⟨⟩ w₄ ⟨d₄, ⟨h₄, hdir⟩, rfl⟩
            obtain ⟨made₄, -⟩ := made h₄
            have hR : w.fs.names (completionReceiptPath dest offer.transferId) = none := by
              rw [← made₃.names_eq' (Set.notMem_empty _)
                (notMem_directories completionReceiptPath_ne_nil (.inr (by simp)))]
              exact hR₃
            have hD : w.fs.names (finalPath dest offer.filename) = none := by
              rw [← made₃.names_eq' (Set.notMem_empty _) (finalPath_notMem_directories hsafe)]
              exact hDnone
            refine Ensures.bind (prepareTransfer_spec partialPath_ne_nil
              (by rwa [dropLast_partialPath]) ?_) ?_ (fun e w' h => ?_) fun w' h => ?_
            · rintro h
              rw [h] at hsafe
              revert hsafe
              decide
            · rintro prepared w₅ ⟨es, bytes, hprep, hg⟩
              exact receiveAndCommit_spec hsafe ⟨hR, hD, _, made₄, hprep⟩ ((gained_congr hg₂).mp hg)
            · obtain ⟨es, hf, hg⟩ := h
              exact ⟨es, .unprepared hR hD made₄ hf, (gained_congr hg₂).mp hg⟩
            · obtain ⟨hw, es, hg, hv⟩ := h
              exact ⟨es, .halted hR hD made₄ hw (.inl rfl) (.refl _) hv, (gained_congr hg₂).mp hg⟩
          · obtain ⟨e', w₁, ⟨e'', d₁, -, ⟨h₁, hc⟩, rfl⟩, hrej⟩ := h
            exact .of_rejected hrej (made h₁).1 hg₂ (.inr (.inr (made h₁).2))
          · obtain ⟨d₁, ⟨h₁, hc⟩, rfl⟩ := h
            exact .of_halt (made h₁).1 hg₂ hc
    · rcases h with ⟨hfs, hc, es, hg, hes⟩ | ⟨hs, ⟨hD, e', hg⟩ | ⟨hf, hg⟩⟩
      · replace hfs : w'.fs = d₁.fs := hfs
        refine ⟨es, .refused (by rwa [hfs]) hes (.err ?_), (gained_congr rfl).mp hg⟩
        rw [hfs]
        exact hc.imp_right .inr
      · exact ⟨_, .settled made₁ hs hD .failed, (gained_congr rfl).mp hg⟩
      · exact ⟨_, .settling made₁ hs (.err hf), (gained_congr rfl).mp hg⟩
    · obtain ⟨hc, hg, hfs | hs⟩ := h
      · exact .of_halt (by rw [hfs]; exact made₁) (gained_nil.mp hg) hc
      · exact ⟨_, .settling made₁ hs (.halt hc), (gained_congr rfl).mp hg⟩
  · obtain ⟨e', w₁, ⟨e'', d₁, -, ⟨h₁, hc⟩, rfl⟩, hrej⟩ := h
    exact .of_rejected hrej (h₁.mono dest_subset le_rfl fun _ h => .inl h) rfl
      (hc.imp_right .inl)
  · obtain ⟨d₁, ⟨h₁, hc⟩, rfl⟩ := h
    exact .of_halt (h₁.mono dest_subset le_rfl fun _ h => .inl h) rfl hc

end

/-! ### The whole session -/

/-- The notes of a session up to its offer. -/
def opening (payload : Bytes) : List NetEvent :=
  [.received (Frame.new .hello [wfpVersion]), .sent (Frame.new .helloAck [wfpVersion]),
    .received (Frame.new .offer payload)]

/-- There was no offer of a safe filename; all that was written are a HELLO_ACK and a REJECT. -/
structure Unopened (es : List NetEvent) : Prop where
  wrote : ∀ event ∈ es, ∀ t, event.Attempts t → t = .helloAck ∨ t = .reject
  offer : ∀ payload offer, opening payload <+: es → decodeOffer payload = .ok offer →
    ¬isSafeFilename offer.filename

/-- The frames of a peer that makes an offer. -/
def offering (payload : Bytes) : Bytes :=
  encodings [Frame.new .hello [wfpVersion], Frame.new .offer payload]

/-- **The ways in which a session ends.** -/
inductive SessionEnding (faults crashes : Bool) (dest : Path) (fs : Fs) (input : Bytes) :
    Outcome ReceiverError Unit → List NetEvent → Fs → Prop
  /-- there was no offer of a safe filename -/
  | unopened {o : Outcome ReceiverError Unit} {es : List NetEvent} : o ≠ .ok () → Unopened es →
      SessionEnding faults crashes dest fs input o es fs
  | offered {o : Outcome ReceiverError Unit} {es : List NetEvent} {fs' : Fs} {payload : Bytes}
      {offer : FileOffer} : offering payload <+: input → decodeOffer payload = .ok offer →
      isSafeFilename offer.filename → Ending faults crashes dest offer fs o es fs' →
      SessionEnding faults crashes dest fs input o (opening payload ++ es) fs'

omit [Crates] in
/-- A session that ended before its third note. -/
private theorem Unopened.of_length {es : List NetEvent} (hlen : es.length < 3)
    (h : ∀ event ∈ es, ∀ t, event.Attempts t → t = .helloAck ∨ t = .reject) : Unopened es :=
  ⟨h, fun payload _ hp _ => by
    have := hp.length_le
    simp only [opening, List.length_cons, List.length_nil] at this
    omega⟩

omit [Crates] in
/-- A session whose third note is a frame that is no offer of a safe filename. -/
private theorem Unopened.of_frame {frame : Frame} {es : List NetEvent}
    (hes : ∀ event ∈ es, event.Attempts .reject)
    (h : frame.messageType = .offer → ∀ offer, decodeOffer frame.payload = .ok offer →
      ¬isSafeFilename offer.filename) :
    Unopened ([.received (Frame.new .hello [wfpVersion]),
      .sent (Frame.new .helloAck [wfpVersion])] ++ [.received frame] ++ es) where
  wrote event he t ht := by
    rcases List.mem_append.mp he with he | he
    · refine .inl ?_
      rcases he with _ | ⟨_, _ | ⟨_, _ | ⟨_, he⟩⟩⟩
      · simp at ht
      · exact (attempts_sent.mp ht).symm
      · simp at ht
      · exact absurd he List.not_mem_nil
    · exact .inr (ht.unique (hes event he))
  offer payload offer hp hd := by
    obtain ⟨l, hl⟩ := hp
    simp only [opening, List.cons_append, List.nil_append, List.cons.injEq, true_and] at hl
    obtain rfl : Frame.new .offer payload = frame := by simpa using hl.1
    exact h rfl offer hd

section

variable {dest : Path} {w : Session (.alone faults crashes)}

omit [Crates] in
theorem unverified_opening {payload : Bytes} : Unverified (opening payload) := by
  simp [Unverified, opening]

omit [Crates] in
theorem receiveOffer_spec : (receiveOffer : Receiver (.alone faults crashes) _).Ensures w (Post
    (fun offer w' => ∃ payload, offering payload <+: w.net.input ∧
      decodeOffer payload = .ok offer ∧ isSafeFilename offer.filename ∧
      w'.fs = w.fs ∧ Gained w (opening payload) w')
    (fun _ w' => w'.fs = w.fs ∧ ∃ es, Gained w es w' ∧ Unopened es)
    fun w' => w'.fs = w.fs ∧ ∃ es, Gained w es w' ∧ Unopened es) := by
  unfold receiveOffer
  refine Ensures.bind receive_noted (fun hello w₁ h₁ => ?_) (fun e w₁ h₁ => ?_) fun w₁ h₁ => ?_
  · obtain ⟨h₁, hf₁, hin₁⟩ := h₁
    have hg₁ := h₁.gained
    have wrong₁ : w₁.fs = w.fs ∧ ∃ es, Gained w es w₁ ∧ Unopened es :=
      ⟨h₁.fs_eq, _, hg₁, .of_length (by simp) (by simp)⟩
    by_cases ht : hello.messageType = .hello
    swap
    · rw [if_pos ht, ensures_bind, ensures_throw]
      exact wrong₁
    by_cases hpay : hello.payload = [wfpVersion]
    swap
    · rw [if_neg (not_not.mpr ht), if_pos hpay, ensures_bind, ensures_throw]
      exact wrong₁
    rw [if_neg (not_not.mpr ht), if_neg (not_not.mpr hpay)]
    rw [ht, hpay] at hf₁
    subst hf₁
    have hv₁ : Unverified [.received (Frame.new .hello [wfpVersion])] := by simp [Unverified]
    refine Ensures.bind (send_noted.and send_input) (fun _ w₂ h₂ => ?_) (fun e w₂ h₂ => ?_)
      fun _ h => h.1.elim
    · obtain ⟨h₂, hin₂⟩ := h₂
      have hg₂ := hg₁.trans h₂.gained hv₁
      have hfs₂ := h₂.fs_eq.trans h₁.fs_eq
      have hv₂ : Unverified ([.received (Frame.new .hello [wfpVersion])] ++
          [.sent (Frame.new .helloAck [wfpVersion])]) := by simp [Unverified]
      refine Ensures.bind receive_noted (fun frame w₃ h₃ => ?_) (fun e w₃ h₃ => ?_) fun w₃ h₃ => ?_
      · obtain ⟨h₃, hf₃, hin₃⟩ := h₃
        have hg₃ := hg₂.trans h₃.gained hv₂
        have hfs₃ := h₃.fs_eq.trans hfs₂
        -- an error after the third frame
        have refused {es : List NetEvent} {w' : Session (.alone faults crashes)}
            (hg : Gained w₃ es w') (hes : ∀ event ∈ es, event.Attempts .reject)
            (hfs : w'.fs = w₃.fs) (h : frame.messageType = .offer → ∀ offer,
              decodeOffer frame.payload = .ok offer → ¬isSafeFilename offer.filename) :
            w'.fs = w.fs ∧ ∃ es, Gained w es w' ∧ Unopened es :=
          ⟨hfs.trans hfs₃, _, hg₃.trans hg (by simp [Unverified]), .of_frame hes h⟩
        by_cases ht : frame.messageType = .offer
        swap
        · rw [if_pos ht, ensures_bind, ensures_throw]
          exact refused (.of_log_eq rfl) (by simp) rfl fun h => absurd h ht
        rw [if_neg (not_not.mpr ht), ensures_bind, ensures_ofExcept]
        rcases hd : decodeOffer frame.payload with e | offer
        · exact refused (.of_log_eq rfl) (by simp) rfl fun _ offer h => by simp [hd] at h
        · simp only [Except.mapError, post_ok]
          by_cases hsafe : isSafeFilename offer.filename
          · rw [if_neg (by simp [hsafe]), ensures_pure]
            rw [hf₃, ht] at hg₃
            refine ⟨_, ⟨w₃.net.input, ?_⟩, hd, hsafe, hfs₃, hg₃⟩
            rw [hin₁, ← hin₂, hin₃, hf₃, ht]
            simp [offering, encodings]
          · have rejected {w' : Session (.alone faults crashes)} (hr : Rejected w₃ w') :
                w'.fs = w.fs ∧ ∃ es, Gained w es w' ∧ Unopened es := by
              obtain ⟨es, hg₄, hes⟩ := hr.2
              refine refused hg₄ hes hr.fs_eq fun _ offer' h => ?_
              obtain rfl : offer = offer' := by simpa [hd] using h
              exact hsafe
            rw [if_pos (by simpa using hsafe)]
            refine Ensures.bind sendReject_spec (fun _ _ h => ?_) (fun _ _ h => rejected h)
              fun _ h => h.elim
            rw [ensures_bind, ensures_throw]
            exact rejected h
      · obtain ⟨e', -, h₃⟩ := h₃
        exact ⟨h₃.fs_eq.trans hfs₂, _, hg₂.trans h₃.gained hv₂, by simp, fun _ _ hp _ =>
          absurd hp (by simp [opening])⟩
      · exact ⟨(congrArg Disk.fs h₃.1).trans hfs₂, _, hg₂.of_eq h₃.2 hv₂,
          .of_length (by simp) (by simp)⟩
    · obtain ⟨⟨e', -, h₂⟩, -⟩ := h₂
      exact ⟨h₂.fs_eq.trans h₁.fs_eq, _, hg₁.trans h₂.gained hv₁, .of_length (by simp) (by simp)⟩
  · obtain ⟨e', -, h₁⟩ := h₁
    exact ⟨h₁.fs_eq, _, h₁.gained, .of_length (by simp) (by simp)⟩
  · exact ⟨congrArg Disk.fs h₁.1, [], .of_log_eq h₁.2, .of_length (by simp) (by simp)⟩

theorem receiveConnection_spec : (receiveConnection dest).Ensures w fun o w' =>
    ∃ es, SessionEnding faults crashes dest w.fs w.net.input o es w'.fs ∧ Gained w es w' := by
  refine Ensures.bind receiveOffer_spec ?_ (fun e w' h => ?_) fun w' h => ?_
  · rintro offer w₁ ⟨payload, hin, hd, hsafe, hfs, hg⟩
    refine (receiveOffered_spec hsafe).mono fun o w' ⟨es, h, hg'⟩ => ?_
    rw [hfs] at h
    exact ⟨_, .offered hin hd hsafe h, hg.trans hg' unverified_opening⟩
  · obtain ⟨hfs, es, hg, hu⟩ := h
    exact ⟨es, hfs ▸ .unopened (by simp) hu, hg⟩
  · obtain ⟨hfs, es, hg, hu⟩ := h
    exact ⟨es, hfs ▸ .unopened (by simp) hu, hg⟩

end

/-! ### Runs of sessions -/

/-- One session with any peer, on files and input that `C` allows. Calls may fail and the process
may be killed. -/
inductive OneSession (dest : Path) (C : Fs → Bytes → Prop) : Fs → Fs → Prop
  | intro (disk : Disk (.alone true true)) (net : Net) : C disk.fs net.input →
      OneSession dest C disk.fs (receiveConnection dest (.start disk net)).2.fs

/-- Any number of sessions, one after the other. -/
abbrev Run (dest : Path) (C : Fs → Bytes → Prop) : Fs → Fs → Prop :=
  Relation.ReflTransGen (OneSession dest C)

/-- **The rule for runs.** -/
theorem Run.invariant {dest : Path} {C : Fs → Bytes → Prop} {I : Fs → Prop} {fs fs' : Fs}
    (step : ∀ fs input o es fs', I fs → C fs input →
      SessionEnding true true dest fs input o es fs' → I fs')
    (h : Run dest C fs fs') (start : I fs) : I fs' := by
  induction h with
  | refl => exact start
  | tail _ h ih =>
    obtain ⟨disk, net, hC⟩ := h
    obtain ⟨es, hend, -⟩ := (receiveConnection_spec (w := .start disk net)).apply
    exact step _ _ _ _ _ ih hC hend

end Warpfile.V02
