import Warpfile.Foundation.BinarySearch
import Warpfile.V03.ChunkReceiver

/-!
# A chunk state is a finite map

The records of a `ChunkState` are in the order of their indices, so two states of one layout that
record the same digests are equal (`ChunkState.ext_hash`). From this the laws of recording follow:
the last record of an index counts, other indices are left alone, and the order in which distinct
indices are recorded does not matter.
-/

namespace Warpfile

namespace ChunkState

variable {state state' : ChunkState} {index i : UInt64} {hash : ChunkHash}

/-! ### The records as a map -/

/-- The digest of an index is that of the record that is there. -/
theorem hash_eq_some : state.hash i = some hash ↔ ⟨i, hash⟩ ∈ state.chunks := by
  unfold ChunkState.hash
  rw [Option.map_eq_some_iff]
  constructor
  · rintro ⟨c, hc, rfl⟩
    obtain rfl : c.index = i := by simpa using List.find?_some hc
    exact List.mem_of_find?_eq_some hc
  · intro h
    obtain ⟨c, hc⟩ : ∃ c, (state.chunks.find? fun chunk => chunk.index = i) = some c := by
      rw [← Option.isSome_iff_exists, List.find?_isSome]
      exact ⟨_, h, by simp⟩
    obtain hi : c.index = i := by simpa using List.find?_some hc
    have hinj := List.inj_on_of_nodup_map state.valid.nodup (List.mem_of_find?_eq_some hc) h
      (by rw [hi])
    exact ⟨c, hc, by rw [hinj]⟩

theorem hash_eq_none : state.hash i = none ↔ ∀ c ∈ state.chunks, c.index ≠ i := by
  unfold ChunkState.hash
  simp

/-- **The digests determine the state.** -/
theorem ext_hash (hl : state.layout = state'.layout) (h : ∀ i, state.hash i = state'.hash i) :
    state = state' := by
  have hmem (c : RecordedChunk) : c ∈ state.chunks ↔ c ∈ state'.chunks := by
    rw [show c = ⟨c.index, c.hash⟩ from rfl, ← hash_eq_some, ← hash_eq_some, h]
  have hnodup (s : ChunkState) : s.chunks.Nodup := List.Nodup.of_map _ s.valid.nodup
  have hperm := (List.perm_ext_iff_of_nodup (hnodup state) (hnodup state')).mpr hmem
  have heq : state.chunks = state'.chunks :=
    hperm.eq_of_pairwise (fun a b _ _ hab hba => absurd hab (by omega)) state.valid.increasing
      state'.valid.increasing
  cases state
  cases state'
  simp_all

/-- A state has as many records as chunks when each chunk has one. -/
theorem length_eq_chunkCount_iff : state.chunks.length = state.layout.chunkCount.toNat ↔
    ∀ i < state.layout.chunkCount, state.hash i ≠ none := by
  rw [state.valid.length_eq_iff]
  constructor
  · intro h i hi
    obtain ⟨c, hc, hci⟩ := h i.toNat (UInt64.lt_iff_toNat_lt.mp hi)
    rw [ne_eq, hash_eq_none, not_forall]
    exact ⟨c, by simpa using ⟨hc, UInt64.toNat_inj.mp hci⟩⟩
  · intro h i hi
    have hlt := state.layout.chunkCount.toNat_lt
    have hi' : (UInt64.ofNat i).toNat = i := UInt64.toNat_ofNat_of_lt' (by rw [UInt64.size]; omega)
    obtain ⟨hash, hhash⟩ := Option.ne_none_iff_exists'.mp
      (h (.ofNat i) (by rwa [UInt64.lt_iff_toNat_lt, hi']))
    exact ⟨_, hash_eq_some.mp hhash, hi'⟩

/-! ### The search -/

/-- How the key of a record compares with an index. -/
def compareIndex (index : UInt64) (chunk : RecordedChunk) : Ordering :=
  if chunk.index < index then .lt else if chunk.index = index then .eq else .gt

theorem compareIndex_eq_lt {c : RecordedChunk} : compareIndex index c = .lt ↔ c.index < index := by
  unfold compareIndex
  split_ifs <;> simp_all

theorem compareIndex_eq_eq {c : RecordedChunk} : compareIndex index c = .eq ↔ c.index = index := by
  unfold compareIndex
  split_ifs with h₁ h₂
  · simpa using fun he : c.index = index => UInt64.lt_irrefl _ (he ▸ h₁)
  · simpa using h₂
  · simpa using h₂

theorem searchable {layout : ChunkLayout} {chunks : List RecordedChunk}
    (h : ValidChunks layout chunks) (index : UInt64) : Searchable (compareIndex index) chunks := by
  refine h.increasing.imp fun {c c'} hlt => ?_
  rcases Nat.lt_or_ge c.index.toNat index.toNat with hc | hc
  · exact .inl (compareIndex_eq_lt.mpr (UInt64.lt_iff_toNat_lt.mpr hc))
  · refine .inr ?_
    have h₁ : ¬c'.index < index := by
      rw [UInt64.lt_iff_toNat_lt]
      omega
    have h₂ : c'.index ≠ index := by
      rw [ne_eq, ← UInt64.toNat_inj]
      omega
    rw [compareIndex, if_neg h₁, if_neg h₂]

/-- The records before the place of an index are passed over. -/
private theorem recordChunk_append {l r : List RecordedChunk}
    (h : ∀ c ∈ l, compareIndex index c = .lt) :
    recordChunk index hash (l ++ r) = l ++ recordChunk index hash r := by
  induction l with
  | nil => rfl
  | cons c l ih =>
    obtain ⟨hc, hl⟩ := List.forall_mem_cons.mp h
    rw [List.cons_append, recordChunk, if_pos (compareIndex_eq_lt.mp hc), ih hl, List.cons_append]

/-- **Recording is by binary search**: where the index is found its digest is replaced, otherwise a
record is inserted. -/
theorem recordChunk_eq_search {layout : ChunkLayout} {chunks : List RecordedChunk}
    (h : ValidChunks layout chunks) : recordChunk index hash chunks =
      match binarySearchBy (compareIndex index) chunks with
      | .ok position => chunks.modify position fun chunk => { chunk with hash }
      | .error position => chunks.insertIdx position { index, hash } := by
  have hspec := binarySearchBy_spec (searchable h index)
  rcases hpos : binarySearchBy (compareIndex index) chunks with position | position
  · rw [hpos] at hspec
    obtain ⟨l, r, rfl, rfl, hl, hr⟩ := hspec
    have hinsert (x : RecordedChunk) : (l ++ r).insertIdx l.length x = l ++ x :: r := by
      clear hpos hl h
      induction l with
      | nil => rfl
      | cons c l ih => rw [List.cons_append, List.length_cons, List.insertIdx_succ_cons, ih,
          List.cons_append]
    rw [recordChunk_append hl]
    simp only [hinsert]
    cases r with
    | nil => rfl
    | cons c r =>
      have hc := hr c List.mem_cons_self
      have hlt : ¬c.index < index := fun hlt => by
        rw [compareIndex_eq_lt.mpr hlt] at hc
        exact nomatch hc
      have hne : c.index ≠ index := fun he => by
        rw [compareIndex_eq_eq.mpr he] at hc
        exact nomatch hc
      rw [recordChunk, if_neg hlt, if_neg hne]
  · rw [hpos] at hspec
    obtain ⟨l, c, r, rfl, rfl, hc, hl, -⟩ := hspec
    have hci := compareIndex_eq_eq.mp hc
    have hlt : ¬c.index < index := fun hlt => UInt64.lt_irrefl _ (hci ▸ hlt)
    rw [recordChunk_append hl, recordChunk, if_neg hlt, if_pos hci]
    have hmodify : (l ++ c :: r).modify l.length (fun chunk => { chunk with hash }) =
        l ++ { c with hash } :: r := by
      rw [List.modify_eq_take_cons_drop (by simp)]
      simp
    simp only [hmodify, hci]

theorem hash_eq_search : state.hash i =
    match binarySearchBy (compareIndex i) state.chunks with
    | .ok position => state.chunks[position]?.map RecordedChunk.hash
    | .error _ => none := by
  have hspec := binarySearchBy_spec (searchable state.valid i)
  rcases hpos : binarySearchBy (compareIndex i) state.chunks with position | position
  · rw [hpos] at hspec
    obtain ⟨l, r, hsplit, -, hl, hr⟩ := hspec
    rw [hash_eq_none]
    intro c hc
    rw [hsplit, List.mem_append] at hc
    rw [ne_eq, ← compareIndex_eq_eq]
    rcases hc with hc | hc
    · simp [hl c hc]
    · simp [hr c hc]
  · rw [hpos] at hspec
    obtain ⟨l, c, r, hsplit, rfl, hc, -, -⟩ := hspec
    have hmem : ⟨i, c.hash⟩ ∈ state.chunks := by
      rw [hsplit, ← compareIndex_eq_eq.mp hc]
      simp
    rw [hash_eq_some.mpr hmem]
    simp [hsplit]

/-! ### Recording -/

/-- Recording sets one digest and leaves the others. -/
theorem hash_recordVerifiedChunk (h : state.recordVerifiedChunk index hash = .ok state') :
    state'.hash i = if i = index then some hash else state.hash i := by
  obtain ⟨-, hchunks⟩ := recordVerifiedChunk_eq_ok h
  refine Option.ext fun x => ?_
  rw [hash_eq_some, hchunks, mem_recordChunk state.valid]
  split_ifs with hi
  · simp [hi, eq_comm]
  · simp [hi, hash_eq_some]

theorem recordVerifiedChunk_eq_error : (∃ e, state.recordVerifiedChunk index hash = .error e) ↔
    state.layout.range index = none := by
  unfold recordVerifiedChunk
  split_ifs with h <;> simp [h]

/-- Calls one after the other; one that fails leaves the state as it is. -/
def recordAll (state : ChunkState) : List (UInt64 × ChunkHash) → ChunkState
  | [] => state
  | (index, hash) :: calls =>
    match state.recordVerifiedChunk index hash with
    | .ok state => recordAll state calls
    | .error _ => recordAll state calls

/-- The last call for an index. -/
def lastCall (calls : List (UInt64 × ChunkHash)) (i : UInt64) : Option ChunkHash :=
  (calls.reverse.find? fun call => call.1 = i).map Prod.snd

theorem layout_recordAll {calls : List (UInt64 × ChunkHash)} :
    (recordAll state calls).layout = state.layout := by
  induction calls generalizing state with
  | nil => rfl
  | cons call calls ih =>
    rw [recordAll]
    split
    · rename_i state' h
      rw [ih, (recordVerifiedChunk_eq_ok h).1]
    · exact ih

theorem hash_eq_none_of_range (h : state.layout.range i = none) : state.hash i = none := by
  rw [hash_eq_none]
  rintro c hc rfl
  rw [ChunkLayout.range_eq_none, ← not_lt, ← ChunkLayout.lt_chunkCount] at h
  exact h (state.valid.inRange c hc)

/-- **The digests after any calls** are those of the last call for each index in range. -/
theorem hash_recordAll {calls : List (UInt64 × ChunkHash)} : (recordAll state calls).hash i =
    if state.layout.range i = none then none else (lastCall calls i).or (state.hash i) := by
  induction calls generalizing state with
  | nil =>
    split_ifs with h
    · exact hash_eq_none_of_range h
    · rfl
  | cons call calls ih =>
    obtain ⟨index, hash⟩ := call
    have hlast : lastCall ((index, hash) :: calls) i =
        (lastCall calls i).or (if index = i then some hash else none) := by
      rw [lastCall, List.reverse_cons, List.find?_append, Option.map_or, lastCall]
      congr 1
      by_cases h : index = i <;> simp [h]
    rw [recordAll, hlast]
    split
    · rename_i state' h
      rw [ih, (recordVerifiedChunk_eq_ok h).1, hash_recordVerifiedChunk h, Option.or_assoc]
      congr 2
      by_cases hi : i = index
      · simp [hi]
      · simp [hi, Ne.symm hi]
    · rename_i e h
      have hrange := recordVerifiedChunk_eq_error.mp ⟨e, h⟩
      rw [ih]
      split_ifs with h₁ h₂
      · rfl
      · exact absurd (h₂ ▸ hrange) h₁
      · rw [Option.or_none]

/-- What distinct calls record does not depend on their order. -/
theorem recordAll_perm {calls calls' : List (UInt64 × ChunkHash)} (h : calls'.Perm calls)
    (hnodup : (calls.map Prod.fst).Nodup) : recordAll state calls' = recordAll state calls := by
  have lastCall_eq_some {calls : List (UInt64 × ChunkHash)} (hnodup : (calls.map Prod.fst).Nodup)
      (i : UInt64) (x : ChunkHash) : lastCall calls i = some x ↔ (i, x) ∈ calls := by
    rw [lastCall, Option.map_eq_some_iff]
    constructor
    · rintro ⟨call, hc, rfl⟩
      obtain rfl : call.1 = i := by simpa using List.find?_some hc
      exact List.mem_reverse.mp (List.mem_of_find?_eq_some hc)
    · intro hmem
      obtain ⟨call, hc⟩ : ∃ call, (calls.reverse.find? fun call => call.1 = i) = some call := by
        rw [← Option.isSome_iff_exists, List.find?_isSome]
        exact ⟨_, List.mem_reverse.mpr hmem, by simp⟩
      have hi : call.1 = i := by simpa using List.find?_some hc
      have := List.inj_on_of_nodup_map hnodup
        (List.mem_reverse.mp (List.mem_of_find?_eq_some hc)) hmem hi
      exact ⟨call, hc, by rw [this]⟩
  refine ext_hash (layout_recordAll.trans layout_recordAll.symm) fun i => ?_
  have hlast : lastCall calls' i = lastCall calls i := by
    refine Option.ext fun x => ?_
    rw [lastCall_eq_some hnodup, lastCall_eq_some ((h.map Prod.fst).nodup_iff.mpr hnodup),
      h.mem_iff]
  rw [hash_recordAll, hash_recordAll, hlast]

/-- What holds of a state after any calls. -/
structure SortedMap (state : ChunkState) (calls : List (UInt64 × ChunkHash)) : Prop where
  layout : (recordAll state calls).layout = state.layout
  increasing : (recordAll state calls).chunks.Pairwise fun c c' => c.index.toNat < c'.index.toNat
  inRange : ∀ c ∈ (recordAll state calls).chunks, c.index < state.layout.chunkCount
  /-- The search finds what a scan finds. -/
  search : ∀ i, (recordAll state calls).hash i =
    match binarySearchBy (compareIndex i) (recordAll state calls).chunks with
    | .ok position => (recordAll state calls).chunks[position]?.map RecordedChunk.hash
    | .error _ => none
  /-- It finds the place of a record, too. -/
  insert : ∀ index hash, recordChunk index hash (recordAll state calls).chunks =
    match binarySearchBy (compareIndex index) (recordAll state calls).chunks with
    | .ok position => (recordAll state calls).chunks.modify position fun chunk => { chunk with hash }
    | .error position => (recordAll state calls).chunks.insertIdx position { index, hash }
  /-- The last successful call for an index counts, or else the record it had. -/
  hash : ∀ i, (recordAll state calls).hash i =
    if state.layout.range i = none then none else (lastCall calls i).or (state.hash i)
  refused : ∀ index hash, (∃ e, (recordAll state calls).recordVerifiedChunk index hash = .error e) ↔
    state.layout.range index = none
  other : ∀ index hash i, i ≠ index →
    (recordAll (recordAll state calls) [(index, hash)]).hash i = (recordAll state calls).hash i
  order : ∀ calls', calls'.Perm calls → (calls.map Prod.fst).Nodup →
    recordAll state calls' = recordAll state calls
  count : (recordAll state calls).chunks.length = state.layout.chunkCount.toNat ↔
    ∀ i < state.layout.chunkCount, (recordAll state calls).hash i ≠ none

/-- **A chunk state is a finite map**, sorted by the indices, after any calls. -/
theorem sortedMap (state : ChunkState) (calls : List (UInt64 × ChunkHash)) :
    state.SortedMap calls where
  layout := layout_recordAll
  increasing := (recordAll state calls).valid.increasing
  inRange c hc := by
    rw [UInt64.lt_iff_toNat_lt, ← @layout_recordAll state calls]
    exact (recordAll state calls).valid.inRange c hc
  search _ := hash_eq_search
  insert _ _ := recordChunk_eq_search (recordAll state calls).valid
  hash _ := hash_recordAll
  refused index hash := by
    rw [recordVerifiedChunk_eq_error, layout_recordAll]
  other index hash i hi := by
    rw [hash_recordAll]
    split_ifs with h
    · exact (hash_eq_none_of_range h).symm
    · simp [lastCall, Ne.symm hi]
  order _ := recordAll_perm
  count := by
    have h := @length_eq_chunkCount_iff (recordAll state calls)
    rwa [layout_recordAll] at h

end ChunkState

end Warpfile
