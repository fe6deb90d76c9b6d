import Warpfile.Storage.SerdeJson
import Warpfile.V03.Scanner

/-!
# What a scan attests

A scanner is called in any order, also after a call that failed. A scan of a source attests to it
(`Attested`) where a digest is returned only for a source of exactly the file size, a chunk carries
the bytes of its range, and no call succeeds once the source was found to fail or to have another
size.

`next_chunk` keeps no note of an error. A source that is too long is read on, a byte a call, until
its end passes for the end of the file; and after a read that failed the same chunk is filled from
what follows. `FailsForGood` says which sources leave no room for either.
-/

namespace Warpfile.V03.SourceScannerV03

/-! ### Calls -/

/-- A call on a scanner. A buffer for a chunk is available for the lengths in `reserve`. -/
inductive Call where
  | nextChunk (reserve : UInt64 → Bool)
  | finish

/-- What a call returns. -/
inductive Reply where
  | chunk (chunk : SourceChunkV03)
  | noChunk
  | summary (summary : SourceScanSummaryV03)
  | error (error : SourceScanV03Error)
  deriving DecidableEq

/-- The replies to calls in sequence. A panic ends them. -/
def replies [Crates] : List Call → SourceScannerV03 → List Reply
  | [], _ => []
  | .nextChunk reserve :: calls, s =>
    match nextChunk reserve s with
    | (.ok (some chunk), s') => .chunk chunk :: replies calls s'
    | (.ok none, s') => .noChunk :: replies calls s'
    | (.err e, s') => .error e :: replies calls s'
    | (.halt, _) => []
  | .finish :: calls, s =>
    match s.finish with
    | .ok summary => .summary summary :: replies calls s
    | .error e => .error e :: replies calls s

/-- The call failed. -/
def Reply.IsError : Reply → Prop
  | .error _ => True
  | _ => False

/-- The call found a read that fails, or another length. -/
def Reply.IsSourceError : Reply → Prop
  | .error (.io _) | .error (.sourceTooShort ..) | .error (.sourceTooLong _) => True
  | _ => False

/-- A digest is that of a source of the right length, and a chunk has the bytes of its range. -/
def Reply.Faithful [Crates] (layout : ChunkLayout) (source : Source) : Reply → Prop
  | .summary s =>
    source.bytes.length = layout.fileSize.toNat ∧ s.fileHash = blake3 source.bytes
  | .chunk c => ∃ range, layout.range c.index = some range ∧ c.offset = range.offset ∧
    c.data.length = range.length.toNat ∧ c.data = range.slice source.bytes ∧
    c.hash = blake3 c.data
  | _ => True

/-- What is returned attests to the source. -/
structure Attested [Crates] (layout : ChunkLayout) (source : Source) (replies : List Reply) : Prop where
  faithful : ∀ reply ∈ replies, reply.Faithful layout source
  remembered : replies.Pairwise fun r r' => r.IsSourceError → r'.IsError

/-- The length of the chunk that holds a byte. -/
def chunkLengthAt (layout : ChunkLayout) (n : ℕ) : ℕ :=
  min layout.chunkSize.toNat
    (layout.fileSize.toNat - n / layout.chunkSize.toNat * layout.chunkSize.toNat)

/-- No read fails and the source is not too long; or a read fails inside a chunk, and no sequence
of reads that succeed after it is long enough for this chunk. -/
def FailsForGood (layout : ChunkLayout) (source : Source) : Prop :=
  source.Calm ∧ source.bytes.length ≤ layout.fileSize.toNat ∨
    ∃ (before : Source) (e : IoError) (after : Source), source = before ++ .error e :: after ∧
      before.Calm ∧ before.bytes.length < layout.fileSize.toNat ∧
      ∀ stretch : Source, stretch <:+: after → stretch.Calm →
        stretch.bytes.length < chunkLengthAt layout before.bytes.length

/-! ### A source that fails for good -/

open Prog

variable {source : Source} {s s' : SourceScannerV03}

/-- The bytes up to a chunk have been hashed, and no call failed. -/
structure Clean (source : Source) (s : SourceScannerV03) : Prop where
  aligned : s.Aligned
  took : source.Took s.fullFileHasher s.source
  length : s.fullFileHasher.length =
    min (s.nextChunkIndex.toNat * s.layout.chunkSize.toNat) s.layout.fileSize.toNat

/-- No further chunk can be filled. -/
structure Stuck (s : SourceScannerV03) : Prop where
  aligned : s.Aligned
  next_lt : s.nextChunkIndex.toNat < s.layout.chunkCount.toNat
  short : ∀ stretch : Source, stretch <:+: s.source → stretch.Calm →
    stretch.bytes.length < s.wanted

theorem clean_new {inventory : ReceiverInventoryV03} : Clean source (new source inventory) where
  aligned := aligned_new
  took := ⟨[], [], source, rfl, rfl, Source.calm_nil, Source.calm_nil, rfl⟩
  length := by simp [new]

/-- The length of the next chunk, and where the chunks before it end. -/
theorem wanted_of_lt (h : s.nextChunkIndex.toNat < s.layout.chunkCount.toNat) :
    s.nextChunkIndex.toNat * s.layout.chunkSize.toNat < s.layout.fileSize.toNat ∧
      s.wanted = min s.layout.chunkSize.toNat
        (s.layout.fileSize.toNat - s.nextChunkIndex.toNat * s.layout.chunkSize.toNat) := by
  obtain ⟨range, hrange⟩ := Option.isSome_iff_exists.mp
    (ChunkLayout.range_isSome.mpr (UInt64.lt_iff_toNat_lt.mpr h))
  obtain ⟨hlt, -, -, hlength⟩ := ChunkLayout.range_eq_some.mp hrange
  exact ⟨hlt, by rw [wanted, hrange, Option.elim_some, hlength]⟩

theorem wanted_of_eq (h : s.nextChunkIndex = s.layout.chunkCount) :
    s.layout.fileSize.toNat ≤ s.nextChunkIndex.toNat * s.layout.chunkSize.toNat ∧
      s.wanted = 1 := by
  have hge : s.layout.fileSize.toNat ≤ s.nextChunkIndex.toNat * s.layout.chunkSize.toNat := by
    rw [← not_lt, ← ChunkLayout.lt_chunkCount, h]
    exact Nat.lt_irrefl _
  exact ⟨hge, by rw [wanted, ChunkLayout.range_eq_none.mpr hge, Option.elim_none]⟩

section

variable [Crates]

/-- The replies after a call of `next_chunk`. -/
theorem replies_nextChunk (reserve : UInt64 → Bool) (calls : List Call) (h : s.Aligned) :
    (∃ chunk s', s.Scanned chunk s' ∧
      replies (.nextChunk reserve :: calls) s = .chunk chunk :: replies calls s') ∨
    (s.nextChunkIndex = s.layout.chunkCount ∧ s.source = [] ∧
      replies (.nextChunk reserve :: calls) s =
        .noChunk :: replies calls { s with sourceLengthConfirmed := true }) ∨
    ∃ e s', s.Failed reserve e s' ∧
      replies (.nextChunk reserve :: calls) s = .error e :: replies calls s' := by
  have hspec : (nextChunk reserve).Ensures s _ := nextChunk_spec h
  rcases hrun : nextChunk reserve s with ⟨(_ | chunk) | e | _, s'⟩
  · obtain ⟨hend, heof, rfl⟩ := hspec.of_eq hrun
    exact .inr (.inl ⟨hend, heof, by rw [replies, hrun]⟩)
  · exact .inl ⟨chunk, s', hspec.of_eq hrun, by rw [replies, hrun]⟩
  · exact .inr (.inr ⟨e, s', hspec.of_eq hrun, by rw [replies, hrun]⟩)
  · exact (hspec.of_eq hrun).elim

theorem finish_unconfirmed (h : s.sourceLengthConfirmed = false) :
    s.finish = .error .incompleteScan := by
  rw [finish, refuseIf, if_pos (by simp [h])]
  rfl

theorem replies_finish_unconfirmed {calls : List Call} (h : s.sourceLengthConfirmed = false) :
    replies (.finish :: calls) s = .error .incompleteScan :: replies calls s := by
  rw [replies, finish_unconfirmed h]

theorem Scanned.layout_eq {chunk : SourceChunkV03} (h : s.Scanned chunk s') (hs : s.Aligned) :
    s'.layout = s.layout := by
  rw [h.aligned.layout, h.inventory, hs.layout]

/-- A chunk has the wanted length, and there was one. -/
theorem Scanned.length_data {chunk : SourceChunkV03} (h : s.Scanned chunk s') :
    s.nextChunkIndex.toNat < s.layout.chunkCount.toNat ∧ chunk.data.length = s.wanted := by
  have hlt := ChunkLayout.range_isSome.mp (Option.isSome_iff_exists.mpr ⟨_, h.range⟩)
  refine ⟨UInt64.lt_iff_toNat_lt.mp hlt, ?_⟩
  rw [wanted, h.range, Option.elim_some, h.length]

omit [Crates] in
/-- A call that fails changes nothing but the source. -/
theorem Failed.aligned {reserve : UInt64 → Bool} {e : SourceScanV03Error}
    (h : s.Failed reserve e s') (hs : s.Aligned) :
    s'.Aligned ∧ s'.nextChunkIndex = s.nextChunkIndex ∧ s'.layout = s.layout := by
  cases h <;> exact ⟨⟨hs.unconfirmed, hs.layout, hs.next_le, hs.placed⟩, rfl, rfl⟩

/-- No call succeeds once no further chunk can be filled. -/
theorem Stuck.isError (h : s.Stuck) (calls : List Call) : ∀ r ∈ replies calls s, r.IsError := by
  induction calls generalizing s with
  | nil => intro r hr; exact absurd hr List.not_mem_nil
  | cons call calls ih =>
    have hlt := h.next_lt
    cases call with
    | finish =>
      rw [replies_finish_unconfirmed h.aligned.unconfirmed]
      exact List.forall_mem_cons.mpr ⟨trivial, ih h⟩
    | nextChunk reserve =>
      rcases replies_nextChunk reserve calls h.aligned with
        ⟨chunk, s', hscan, -⟩ | ⟨hend, -⟩ | ⟨e, s', hfail, hr⟩
      · -- what would fill the chunk is a stretch of reads that succeed
        obtain ⟨taken, left, rest, hs, -, htaken, -, hb⟩ := hscan.took
        have hshort := h.short taken ⟨[], rest, by rw [hs, List.nil_append]⟩ htaken
        rw [hb, List.length_append, hscan.length_data.2] at hshort
        omega
      · rw [hend] at hlt
        exact absurd hlt (Nat.lt_irrefl _)
      · rw [hr]
        refine List.forall_mem_cons.mpr ⟨trivial, ih ?_⟩
        obtain ⟨haligned, -⟩ := hfail.aligned h.aligned
        refine ⟨haligned, ?_, ?_⟩
        · cases hfail <;> exact hlt
        · cases hfail with
          | chunkAllocationFailed => exact h.short
          | io lost e rest eq =>
            refine fun stretch hstretch => h.short stretch (hstretch.trans ?_)
            exact ⟨lost ++ [.error e], [], by rw [eq]; simp⟩
          | sourceTooShort =>
            intro stretch hstretch _
            rw [List.eq_nil_of_infix_nil hstretch]
            exact Nat.zero_lt_of_lt (h.short [] List.nil_infix Source.calm_nil)
          | sourceTooLong _ _ _ next_eq =>
            rw [next_eq] at hlt
            exact absurd hlt (Nat.lt_irrefl _)

/-- After the end is confirmed only the digest is left to return. -/
theorem replies_confirmed (calls : List Call) (h : s.sourceLengthConfirmed = true) :
    ∀ r ∈ replies calls s, r = .noChunk ∨ r = .summary ⟨blake3 s.fullFileHasher⟩ ∨
      ∃ consumed total, r = .error (.unreconciledInventory consumed total) := by
  induction calls with
  | nil => intro r hr; exact absurd hr List.not_mem_nil
  | cons call calls ih =>
    cases call with
    | nextChunk reserve =>
      have hrun : nextChunk reserve s = _ := (nextChunk_confirmed h).run_eq
      rw [replies, hrun]
      exact List.forall_mem_cons.mpr ⟨.inl rfl, ih⟩
    | finish =>
      by_cases hcursor : s.inventoryCursor = s.inventory.records.length
      · have hfinish : s.finish = .ok ⟨blake3 s.fullFileHasher⟩ := by
          simp [finish, refuseIf, h, hcursor, Bind.bind, Except.bind, Pure.pure, Except.pure]
        rw [replies, hfinish]
        exact List.forall_mem_cons.mpr ⟨.inr (.inl rfl), ih⟩
      · have hfinish : s.finish = .error (.unreconciledInventory s.inventoryCursor
            s.inventory.records.length) := by
          simp [finish, refuseIf, h, hcursor, Bind.bind, Except.bind]
        rw [replies, hfinish]
        exact List.forall_mem_cons.mpr ⟨.inr (.inr ⟨_, _, rfl⟩), ih⟩

omit [Crates] in
/-- The bytes hashed before a chunk and the chunk are the bytes up to the next chunk. -/
private theorem min_add_wanted (h : s.nextChunkIndex.toNat < s.layout.chunkCount.toNat) :
    min (s.nextChunkIndex.toNat * s.layout.chunkSize.toNat) s.layout.fileSize.toNat + s.wanted =
      min ((s.nextChunkIndex.toNat + 1) * s.layout.chunkSize.toNat) s.layout.fileSize.toNat := by
  obtain ⟨hlt, hwanted⟩ := wanted_of_lt h
  rw [hwanted, Nat.succ_mul]
  omega

/-- A chunk of a clean scan has the bytes of its range, and the scan stays clean. -/
theorem Clean.scanned {chunk : SourceChunkV03} (h : Clean source s) (hscan : s.Scanned chunk s') :
    Clean source s' ∧ (Reply.chunk chunk).Faithful s.layout source := by
  obtain ⟨hlt, hlen⟩ := hscan.length_data
  obtain ⟨hoffset, -⟩ := wanted_of_lt hlt
  have htook : source.Took s'.fullFileHasher s'.source := by
    rw [hscan.hasher]
    exact h.took.trans hscan.took
  obtain ⟨-, hindex, hrange, -⟩ := ChunkLayout.range_eq_some.mp hscan.range
  refine ⟨⟨hscan.aligned, htook, ?_⟩, _, (congrArg _ hindex).trans hscan.range, rfl,
    hscan.length.symm, ?_, hscan.hash⟩
  · rw [hscan.hasher, List.length_append, h.length, hlen, hscan.next, hscan.layout_eq h.aligned]
    exact min_add_wanted hlt
  · have hhashed : s.fullFileHasher.length = chunk.offset.toNat := by
      rw [h.length, hrange]
      exact min_eq_left hoffset.le
    rw [ChunkRange.slice, hscan.length, htook.bytes_eq, hscan.hasher, List.append_assoc, ← hhashed,
      List.drop_left, List.take_left]

omit [Crates] in
/-- Where a read fails in a clean scan, and what the chunk wants there. -/
theorem Clean.io {lost rest : Source} {e : IoError} (h : Clean source s)
    (eq : s.source = lost ++ .error e :: rest) (calm : lost.Calm) :
    ∃ before : Source, source = before ++ .error e :: rest ∧ before.Calm ∧
      before.bytes.length = s.fullFileHasher.length + lost.bytes.length := by
  obtain ⟨taken, left, tail, hsource, hs, htaken, hleft, hb⟩ := h.took
  rw [hs] at eq
  rcases List.append_eq_append_iff.mp eq with ⟨x, rfl, rfl⟩ | ⟨x, rfl, hx⟩
  · refine ⟨taken ++ x, by rw [hsource]; simp, ?_, ?_⟩
    · exact Source.calm_append.mpr ⟨htaken, (Source.calm_append.mp calm).2⟩
    · simp [hb]
  · rcases x with _ | ⟨piece, x⟩
    · rw [List.nil_append] at hx
      refine ⟨taken, by rw [hsource, hx], htaken, ?_⟩
      rw [hb, List.length_append, List.append_nil]
    · rw [List.cons_append, List.cons.injEq] at hx
      obtain ⟨⟨_, hp⟩, -⟩ := Source.calm_cons.mp (Source.calm_append.mp hleft).2
      exact nomatch hx.1.trans hp

omit [Crates] in
/-- At the end of a clean scan all bytes of the file are hashed. -/
theorem Clean.length_of_end (h : Clean source s) (hend : s.nextChunkIndex = s.layout.chunkCount) :
    s.fullFileHasher.length = s.layout.fileSize.toNat := by
  rw [h.length]
  exact min_eq_right (wanted_of_eq hend).1

omit [Crates] in
/-- Where a source fails for good, a call that fails leaves the scan clean or stuck. -/
theorem Clean.failed {reserve : UInt64 → Bool} {e : SourceScanV03Error} (h : Clean source s)
    (hs : FailsForGood s.layout source) (hfail : s.Failed reserve e s') :
    s' = s ∧ ¬(Reply.error e).IsSourceError ∨ s'.Stuck := by
  obtain ⟨haligned, -⟩ := hfail.aligned h.aligned
  have hb := congrArg List.length h.took.bytes_eq
  rw [List.length_append] at hb
  cases hfail with
  | chunkAllocationFailed => exact .inl ⟨rfl, id⟩
  | io lost e rest eq calm lt =>
    obtain ⟨before, hsource, hbefore, hlen⟩ := h.io eq calm
    obtain ⟨before', e', after, hsource', hbefore', hinside, hshort⟩ := hs.resolve_left fun hcalm => by
      have := hcalm.1
      rw [hsource] at this
      obtain ⟨⟨_, hp⟩, -⟩ := Source.calm_cons.mp (Source.calm_append.mp this).2
      exact nomatch hp
    obtain ⟨rfl, rfl⟩ := hbefore.error_inj hbefore' (hsource.symm.trans hsource')
    have hlt : s.nextChunkIndex.toNat < s.layout.chunkCount.toNat := by
      refine lt_of_le_of_ne h.aligned.next_le fun heq => ?_
      have := h.length_of_end (UInt64.toNat_inj.mp heq)
      omega
    obtain ⟨hoffset, hwanted⟩ := wanted_of_lt hlt
    refine .inr ⟨haligned, hlt, ?_⟩
    -- the read failed inside the chunk that is wanted
    have hchunk : chunkLengthAt s.layout before.bytes.length = s.wanted := by
      have hdiv : before.bytes.length / s.layout.chunkSize.toNat = s.nextChunkIndex.toNat := by
        rw [h.length, min_eq_left hoffset.le] at hlen
        rw [hlen, Nat.add_comm, Nat.add_mul_div_right _ _ s.layout.chunkSize_pos,
          Nat.div_eq_of_lt (by omega), Nat.zero_add]
      rw [chunkLengthAt, hdiv, hwanted]
    rw [hchunk] at hshort
    exact hshort
  | sourceTooShort data actual took lt next_lt =>
    refine .inr ⟨haligned, next_lt, fun stretch hstretch _ => ?_⟩
    rw [List.eq_nil_of_infix_nil hstretch]
    exact Nat.zero_lt_of_lt lt
  | sourceTooLong byte rest took next_eq =>
    -- the whole file and one more byte were read without a failure
    have hall := h.took.trans took
    have hlen := h.length_of_end next_eq
    have hb := congrArg List.length hall.bytes_eq
    rcases hs with ⟨-, hle⟩ | ⟨before, e, after, hsource, hcalm, hinside, -⟩
    · simp only [List.length_append, List.length_singleton] at hb
      omega
    · obtain ⟨left, -, -, hbefore⟩ := hall.of_error hsource hcalm
      have := congrArg List.length hbefore
      simp only [List.length_append, List.length_singleton] at this
      omega

/-- A scan of a source that fails for good attests to it. -/
theorem Clean.attested {calls : List Call} (h : Clean source s) (hs : FailsForGood s.layout source) :
    Attested s.layout source (replies calls s) := by
  induction calls generalizing s with
  | nil => exact ⟨fun r hr => absurd hr List.not_mem_nil, List.Pairwise.nil⟩
  | cons call calls ih =>
    -- a reply that is no error of the source leaves the rest to what follows
    have cons {r : Reply} {rs : List Reply} (hr : r.Faithful s.layout source)
        (hn : ¬r.IsSourceError) (hrs : Attested s.layout source rs) :
        Attested s.layout source (r :: rs) :=
      ⟨List.forall_mem_cons.mpr ⟨hr, hrs.faithful⟩,
        List.pairwise_cons.mpr ⟨fun _ _ hr' => absurd hr' hn, hrs.remembered⟩⟩
    cases call with
    | finish =>
      rw [replies_finish_unconfirmed h.aligned.unconfirmed]
      exact cons trivial id (ih h hs)
    | nextChunk reserve =>
      rcases replies_nextChunk reserve calls h.aligned with
        ⟨chunk, s', hscan, hr⟩ | ⟨hend, heof, hr⟩ | ⟨e, s', hfail, hr⟩
      · rw [hr]
        obtain ⟨hclean, hfaithful⟩ := h.scanned hscan
        have hlayout := hscan.layout_eq h.aligned
        refine cons hfaithful id ?_
        rw [← hlayout] at hs ⊢
        exact ih hclean hs
      · rw [hr]
        have hbytes : source.bytes = s.fullFileHasher := by
          rw [h.took.bytes_eq, heof, Source.bytes_nil, List.append_nil]
        have hconfirmed := replies_confirmed calls
          (s := { s with sourceLengthConfirmed := true }) rfl
        refine cons trivial id ⟨fun r hr => ?_, List.Pairwise.imp_of_mem (R := fun _ _ => True)
          (fun hr _ _ => ?_) (List.pairwise_of_forall fun _ _ => trivial)⟩
        · rcases hconfirmed r hr with rfl | rfl | ⟨_, _, rfl⟩
          · trivial
          · exact ⟨by rw [hbytes, h.length_of_end hend], by rw [hbytes]⟩
          · trivial
        · rcases hconfirmed _ hr with rfl | rfl | ⟨_, _, rfl⟩ <;> exact fun h => h.elim
      · rw [hr]
        rcases h.failed hs hfail with ⟨rfl, hn⟩ | hstuck
        · exact cons trivial hn (ih h hs)
        · have herror := hstuck.isError calls
          refine ⟨List.forall_mem_cons.mpr ⟨trivial, fun r hr => ?_⟩,
            List.pairwise_cons.mpr ⟨fun r hr _ => herror r hr, ?_⟩⟩
          · have := herror r hr
            cases r <;> trivial
          · exact List.Pairwise.imp_of_mem (R := fun _ _ => True) (fun _ hr _ _ => herror _ hr)
              (List.pairwise_of_forall fun _ _ => trivial)

/-! ### A source that does not fail for good -/

/-- Some calls end in a success after an error of the source. -/
def Forgetful (s : SourceScannerV03) : Prop :=
  ∃ calls, ¬(replies calls s).Pairwise fun r r' => r.IsSourceError → r'.IsError

/-- Some calls end in a success. -/
def Recovers (s : SourceScannerV03) : Prop := ∃ calls, ∃ r ∈ replies calls s, ¬r.IsError

/-- A buffer is available for every chunk. -/
def always (_ : UInt64) : Bool := true

theorem Recovers.of_next {r : Reply}
    (hr : ∀ calls, replies (.nextChunk always :: calls) s = r :: replies calls s')
    (h : s'.Recovers) : s.Recovers := by
  obtain ⟨calls, r', hr', hok⟩ := h
  exact ⟨.nextChunk always :: calls, r', by rw [hr]; exact List.mem_cons_of_mem _ hr', hok⟩

theorem Forgetful.of_next {r : Reply}
    (hr : ∀ calls, replies (.nextChunk always :: calls) s = r :: replies calls s')
    (h : s'.Forgetful) : s.Forgetful := by
  obtain ⟨calls, hcalls⟩ := h
  refine ⟨.nextChunk always :: calls, fun hp => hcalls ?_⟩
  rw [hr] at hp
  exact hp.of_cons

/-- A success after an error of the source. -/
theorem Recovers.forgetful {r : Reply}
    (hr : ∀ calls, replies (.nextChunk always :: calls) s = r :: replies calls s')
    (hsource : r.IsSourceError) (h : s'.Recovers) : s.Forgetful := by
  obtain ⟨calls, r', hr', hok⟩ := h
  refine ⟨.nextChunk always :: calls, fun hp => hok ?_⟩
  rw [hr] at hp
  exact (List.pairwise_cons.mp hp).1 r' hr' hsource

/-- A call, with a buffer for every chunk, and the replies after it. -/
theorem always_cases (h : s.Aligned) :
    (∃ chunk s', s.Scanned chunk s' ∧
      ∀ calls, replies (.nextChunk always :: calls) s = .chunk chunk :: replies calls s') ∨
    (s.nextChunkIndex = s.layout.chunkCount ∧ s.source = [] ∧
      ∀ calls, replies (.nextChunk always :: calls) s =
        .noChunk :: replies calls { s with sourceLengthConfirmed := true }) ∨
    ∃ e s', s.Failed always e s' ∧ (Reply.error e).IsSourceError ∧
      ∀ calls, replies (.nextChunk always :: calls) s = .error e :: replies calls s' := by
  have hspec : (nextChunk always).Ensures s _ := nextChunk_spec h
  rcases hrun : nextChunk always s with ⟨(_ | chunk) | e | _, s'⟩
  · obtain ⟨hend, heof, rfl⟩ := hspec.of_eq hrun
    exact .inr (.inl ⟨hend, heof, fun calls => by rw [replies, hrun]⟩)
  · exact .inl ⟨chunk, s', hspec.of_eq hrun, fun calls => by rw [replies, hrun]⟩
  · have hfail := hspec.of_eq hrun
    refine .inr (.inr ⟨e, s', hfail, ?_, fun calls => by rw [replies, hrun]⟩)
    cases hfail with
    | chunkAllocationFailed _ refused => exact Bool.noConfusion refused
    | io => trivial
    | sourceTooShort => trivial
    | sourceTooLong => trivial
  · exact (hspec.of_eq hrun).elim

/-- The end of the source is found at last, however much follows the file. -/
theorem recovers_of_end (h : s.Aligned) (hend : s.nextChunkIndex = s.layout.chunkCount) :
    s.Recovers := by
  -- a call that fails takes a byte, or a read that fails
  induction hn : s.source.bytes.length + s.source.failures using Nat.strong_induction_on
    generalizing s with
  | _ n ih =>
    subst hn
    rcases always_cases h with ⟨chunk, s', hscan, -⟩ | ⟨-, -, hr⟩ | ⟨e, s', hfail, -, hr⟩
    · have := hscan.length_data.1
      rw [hend] at this
      exact absurd this (Nat.lt_irrefl _)
    · exact ⟨[.nextChunk always], .noChunk, by rw [hr]; exact List.mem_cons_self, id⟩
    · obtain ⟨haligned, hnext, hlayout⟩ := hfail.aligned h
      refine .of_next hr (ih _ ?_ haligned (by rw [hnext, hlayout, hend]) rfl)
      cases hfail with
      | chunkAllocationFailed _ refused => exact Bool.noConfusion refused
      | io lost e rest eq =>
        rw [eq, Source.bytes_append, Source.bytes_error, Source.failures_append,
          Source.failures_error, List.length_append]
        dsimp only
        omega
      | sourceTooShort _ _ _ _ next_lt =>
        rw [hend] at next_lt
        exact absurd next_lt (Nat.lt_irrefl _)
      | sourceTooLong byte rest took =>
        rw [took.bytes_eq, took.failures_eq, List.length_append, List.length_singleton]
        dsimp only
        omega

/-- A chunk is filled at last, where a stretch is long enough for it. -/
theorem recovers_of_stretch (h : s.Aligned)
    (hlt : s.nextChunkIndex.toNat < s.layout.chunkCount.toNat) {stretch : Source}
    (hstretch : stretch <:+: s.source) (hcalm : stretch.Calm)
    (hlen : s.wanted ≤ stretch.bytes.length) : s.Recovers := by
  induction hn : s.source.failures using Nat.strong_induction_on generalizing s with
  | _ n ih =>
    subst hn
    rcases always_cases h with ⟨chunk, s', -, hr⟩ | ⟨hend, -⟩ | ⟨e, s', hfail, -, hr⟩
    · exact ⟨[.nextChunk always], .chunk chunk, by rw [hr]; exact List.mem_cons_self, id⟩
    · rw [hend] at hlt
      exact absurd hlt (Nat.lt_irrefl _)
    · obtain ⟨haligned, -⟩ := hfail.aligned h
      cases hfail with
      | chunkAllocationFailed _ refused => exact Bool.noConfusion refused
      | io lost e rest eq calm lt =>
        rw [eq] at hstretch
        rcases hcalm.infix_error hstretch with hlost | hrest
        · have := Source.length_bytes_le hlost
          omega
        · refine .of_next hr (ih _ ?_ haligned hlt hrest hlen rfl)
          rw [eq, Source.failures_append, Source.failures_error]
          dsimp only
          omega
      | sourceTooShort data actual took lt next_lt =>
        have := Source.length_bytes_le hstretch
        rw [took.bytes_eq, List.length_append, Source.bytes_nil] at this
        simp only [List.length_nil] at this
        omega
      | sourceTooLong _ _ _ next_eq =>
        rw [next_eq] at hlt
        exact absurd hlt (Nat.lt_irrefl _)

omit [Crates] in
/-- The bytes of the file that are not read yet. -/
def remaining (s : SourceScannerV03) : ℕ :=
  s.layout.fileSize.toNat - s.nextChunkIndex.toNat * s.layout.chunkSize.toNat

theorem Scanned.remaining {chunk : SourceChunkV03} (h : s.Scanned chunk s') (hs : s.Aligned) :
    s.remaining = chunk.data.length + s'.remaining := by
  obtain ⟨hlt, hlen⟩ := h.length_data
  obtain ⟨hoffset, hwanted⟩ := wanted_of_lt hlt
  unfold SourceScannerV03.remaining
  rw [hlen, hwanted, h.layout_eq hs, h.next, Nat.succ_mul]
  omega

/-- The file is followed by a byte, or by a read that fails. -/
def Overrun (s : SourceScannerV03) : Prop :=
  s.source.Calm ∧ s.remaining < s.source.bytes.length ∨
    ∃ (before : Source) (e : IoError) (after : Source), s.source = before ++ .error e :: after ∧
      before.Calm ∧ s.remaining ≤ before.bytes.length

omit [Crates] in
theorem Overrun.length_le (h : s.Overrun) : s.remaining ≤ s.source.bytes.length := by
  rcases h with ⟨-, h⟩ | ⟨before, e, after, hs, -, h⟩
  · exact h.le
  · rw [hs, Source.bytes_append, List.length_append]
    omega

theorem Overrun.forgetful (h : s.Overrun) (hs : s.Aligned) : s.Forgetful := by
  -- the chunks that are left are read, then the end is not found
  induction hn : s.layout.chunkCount.toNat - s.nextChunkIndex.toNat generalizing s with
  | zero =>
    have hend : s.nextChunkIndex = s.layout.chunkCount :=
      UInt64.toNat_inj.mp (le_antisymm hs.next_le (Nat.le_of_sub_eq_zero hn))
    rcases always_cases hs with ⟨chunk, s', hscan, -⟩ | ⟨-, heof, -⟩ | ⟨e, s', hfail, herr, hr⟩
    · have := hscan.length_data.1
      rw [hend] at this
      exact absurd this (Nat.lt_irrefl _)
    · rcases h with ⟨-, h⟩ | ⟨before, e, after, heq, -⟩
      · rw [heof] at h
        exact absurd h (Nat.not_lt_zero _)
      · rw [heof] at heq
        exact absurd heq.symm (by simp)
    · obtain ⟨haligned, hnext, hlayout⟩ := hfail.aligned hs
      exact Recovers.forgetful hr herr (recovers_of_end haligned (by rw [hnext, hlayout, hend]))
  | succ n ih =>
    have hlt : s.nextChunkIndex.toNat < s.layout.chunkCount.toNat := by omega
    obtain ⟨hoffset, hwanted⟩ := wanted_of_lt hlt
    have hle : s.wanted ≤ s.remaining := by
      rw [hwanted]
      exact min_le_right _ _
    rcases always_cases hs with ⟨chunk, s', hscan, hr⟩ | ⟨hend, -⟩ | ⟨e, s', hfail, -⟩
    · have hremaining := hscan.remaining hs
      have hlayout := hscan.layout_eq hs
      refine .of_next hr (ih ?_ hscan.aligned (by rw [hlayout, hscan.next]; omega))
      rcases h with ⟨hcalm, h⟩ | ⟨before, e, after, heq, hcalm, h⟩
      · rw [hscan.took.bytes_eq, List.length_append] at h
        exact .inl ⟨hscan.took.calm hcalm, by omega⟩
      · obtain ⟨left, hleft, hcalm', hbytes⟩ := hscan.took.of_error heq hcalm
        rw [hbytes, List.length_append] at h
        exact .inr ⟨left, e, after, hleft, hcalm', by omega⟩
    · rw [hend] at hlt
      exact absurd hlt (Nat.lt_irrefl _)
    · exfalso
      cases hfail with
      | chunkAllocationFailed _ refused => exact Bool.noConfusion refused
      | io lost e rest eq calm lt =>
        rcases h with ⟨hcalm, -⟩ | ⟨before, e', after, heq, hcalm, h⟩
        · rw [eq] at hcalm
          obtain ⟨⟨_, hp⟩, -⟩ := Source.calm_cons.mp (Source.calm_append.mp hcalm).2
          exact nomatch hp
        · obtain ⟨rfl, -⟩ := calm.error_inj hcalm (eq.symm.trans heq)
          omega
      | sourceTooShort data actual took lt =>
        have := h.length_le
        rw [took.bytes_eq, List.length_append, Source.bytes_nil] at this
        simp only [List.length_nil] at this
        omega
      | sourceTooLong _ _ _ next_eq =>
        rw [next_eq] at hlt
        exact absurd hlt (Nat.lt_irrefl _)

/-- A read fails inside the file, and what follows fills the chunk. -/
theorem forgetful_of_stretch (hs : s.Aligned) {before after stretch : Source} {e : IoError}
    (heq : s.source = before ++ .error e :: after) (hcalm : before.Calm)
    (hinside : before.bytes.length < s.remaining) (hstretch : stretch <:+: after)
    (hcalm' : stretch.Calm)
    (hlen : chunkLengthAt s.layout (s.nextChunkIndex.toNat * s.layout.chunkSize.toNat +
      before.bytes.length) ≤ stretch.bytes.length) : s.Forgetful := by
  -- the chunks before the failure are read
  induction hn : before.bytes.length using Nat.strong_induction_on generalizing s before with
  | _ n ih =>
    subst hn
    have hlt : s.nextChunkIndex.toNat < s.layout.chunkCount.toNat := by
      rw [ChunkLayout.lt_chunkCount]
      unfold remaining at hinside
      omega
    obtain ⟨hoffset, hwanted⟩ := wanted_of_lt hlt
    have hpos := s.layout.chunkSize_pos
    rcases always_cases hs with ⟨chunk, s', hscan, hr⟩ | ⟨hend, -⟩ | ⟨e', s', hfail, herr, hr⟩
    · have hremaining := hscan.remaining hs
      have hlayout := hscan.layout_eq hs
      obtain ⟨left, hleft, hcalm'', hbytes⟩ := hscan.took.of_error heq hcalm
      have hb := congrArg List.length hbytes
      rw [List.length_append] at hb
      have hdata := hscan.length_data.2
      -- this chunk is not the last one, for the failure is inside the file
      have hfull : chunk.data.length = s.layout.chunkSize.toNat := by
        unfold remaining at hinside
        omega
      refine .of_next hr (ih left.bytes.length (by omega) hscan.aligned hleft hcalm'' (by omega) ?_
        rfl)
      have hpos' : s'.nextChunkIndex.toNat * s'.layout.chunkSize.toNat + left.bytes.length =
          s.nextChunkIndex.toNat * s.layout.chunkSize.toNat + before.bytes.length := by
        rw [hlayout, hscan.next, Nat.succ_mul]
        omega
      rwa [hpos', hlayout]
    · rw [hend] at hlt
      exact absurd hlt (Nat.lt_irrefl _)
    · obtain ⟨haligned, -⟩ := hfail.aligned hs
      refine Recovers.forgetful hr herr ?_
      cases hfail with
      | chunkAllocationFailed _ refused => exact Bool.noConfusion refused
      | io lost e' rest eq calm lt =>
        obtain ⟨rfl, rfl⟩ := calm.error_inj hcalm (eq.symm.trans heq)
        refine recovers_of_stretch haligned hlt hstretch hcalm' ?_
        have hdiv : (s.nextChunkIndex.toNat * s.layout.chunkSize.toNat + lost.bytes.length) /
            s.layout.chunkSize.toNat = s.nextChunkIndex.toNat := by
          rw [Nat.add_comm, Nat.add_mul_div_right _ _ hpos, Nat.div_eq_of_lt (by omega),
            Nat.zero_add]
        rw [chunkLengthAt, hdiv, ← hwanted] at hlen
        exact hlen
      | sourceTooShort data actual took =>
        obtain ⟨left, hleft, -⟩ := took.of_error heq hcalm
        exact absurd hleft (by simp)
      | sourceTooLong _ _ _ next_eq =>
        rw [next_eq] at hlt
        exact absurd hlt (Nat.lt_irrefl _)

end

end Warpfile.V03.SourceScannerV03
