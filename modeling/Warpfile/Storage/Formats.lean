import Warpfile.Storage.ChunkState
import Warpfile.Storage.CompletionReceipt
import Warpfile.Storage.TransferMetadata

/-!
# The persisted formats

Snapshots, receipts and transfer metadata are JSON documents with hexadecimal hashes and
identifiers. What was written is read back; and what is read, whatever stands in the file, is a
well-formed value: the records of a snapshot are in order and in range, and a receipt carries the
Transfer ID that was asked for.
-/

namespace Warpfile

/-! ### Hexadecimal texts -/

/-- The digits of either case. -/
def IsHexDigit (c : Char) : Prop :=
  '0' ≤ c ∧ c ≤ '9' ∨ 'a' ≤ c ∧ c ≤ 'f' ∨ 'A' ≤ c ∧ c ≤ 'F'

theorem isHexDigit_iff {c : Char} : IsHexDigit c ↔ 0x30 ≤ c.toNat ∧ c.toNat ≤ 0x39 ∨
    0x61 ≤ c.toNat ∧ c.toNat ≤ 0x66 ∨ 0x41 ≤ c.toNat ∧ c.toNat ≤ 0x46 := Iff.rfl

theorem decodeHexDigit_isSome {b : UInt8} : (decodeHexDigit b).isSome ↔
    0x30 ≤ b.toNat ∧ b.toNat ≤ 0x39 ∨ 0x61 ≤ b.toNat ∧ b.toNat ≤ 0x66 ∨
      0x41 ≤ b.toNat ∧ b.toNat ≤ 0x46 := by
  unfold decodeHexDigit
  simp only [UInt8.le_iff_toNat_le]
  split_ifs with h₁ h₂ h₃
  · simpa using .inl h₁
  · simpa using .inr (.inl h₂)
  · simpa using .inr (.inr h₃)
  · refine iff_of_false (by simp) ?_
    rintro (h | h | h)
    · exact h₁ h
    · exact h₂ h
    · exact h₃ h

private theorem utf8EncodeChar_ascii {c : Char} (h : c.toNat ≤ 0x7f) :
    String.utf8EncodeChar c = [UInt8.ofNat c.toNat] := if_pos h

/-- Beyond ASCII the first byte is no digit. -/
private theorem utf8EncodeChar_high {c : Char} (h : 0x7f < c.toNat) :
    ∃ b rest, String.utf8EncodeChar c = b :: rest ∧ 0x7f < b.toNat := by
  have h : 0x7f < c.val.toNat := h
  unfold String.utf8EncodeChar
  simp only
  split_ifs with h₁ h₂ h₃
  · omega
  · refine ⟨_, _, rfl, ?_⟩
    rw [UInt8.toNat_ofNat']
    omega
  · refine ⟨_, _, rfl, ?_⟩
    rw [UInt8.toNat_ofNat']
    omega
  · refine ⟨_, _, rfl, ?_⟩
    rw [UInt8.toNat_ofNat']
    omega

/-- A digit is one byte, and no other character is made of such bytes. -/
theorem utf8EncodeChar_isHexDigit {c : Char} :
    (∀ b ∈ String.utf8EncodeChar c, (decodeHexDigit b).isSome) ↔ IsHexDigit c := by
  rw [isHexDigit_iff]
  rcases Nat.lt_or_ge 0x7f c.toNat with h | h
  · obtain ⟨b, rest, hb, hlt⟩ := utf8EncodeChar_high h
    rw [hb]
    refine iff_of_false (fun hall => ?_) (by omega)
    have := decodeHexDigit_isSome.mp (hall b List.mem_cons_self)
    omega
  · have hc : (UInt8.ofNat c.toNat).toNat = c.toNat := by
      rw [UInt8.toNat_ofNat']
      omega
    rw [utf8EncodeChar_ascii h, List.forall_mem_singleton, decodeHexDigit_isSome, hc]

theorem length_utf8EncodeChar_of_isHexDigit {c : Char} (h : IsHexDigit c) :
    (String.utf8EncodeChar c).length = 1 := by
  rw [isHexDigit_iff] at h
  rw [utf8EncodeChar_ascii (by omega), List.length_singleton]

/-- Pairs of digits can be read, and nothing else. -/
theorem decodeHexPairs_isSome {bs : Bytes} : (decodeHexPairs bs).isSome ↔
    2 ∣ bs.length ∧ ∀ b ∈ bs, (decodeHexDigit b).isSome := by
  induction bs using decodeHexPairs.induct with
  | case1 high low rest ih =>
    rw [decodeHexPairs, List.length_cons, List.length_cons, List.forall_mem_cons,
      List.forall_mem_cons, show 2 ∣ rest.length + 1 + 1 ↔ 2 ∣ rest.length by omega]
    rcases decodeHexDigit high with _ | high
    · simp
    rcases decodeHexDigit low with _ | low
    · simp
    rcases hrest : decodeHexPairs rest with _ | rest'
    · simpa [hrest] using ih
    · simpa [hrest] using ih
  | case2 => simp [decodeHexPairs]
  | case3 b => simp [decodeHexPairs]

/-- **The texts that are read** are those of the right length in the digits of either case. -/
theorem parseHex_isSome {n : ℕ} {text : String} : (parseHex n text).isSome ↔
    text.toList.length = 2 * n ∧ ∀ c ∈ text.toList, IsHexDigit c := by
  have hbytes : utf8 text = text.toList.flatMap String.utf8EncodeChar := by
    rw [← utf8_ofList, String.ofList_toList]
  have hdigits : (∀ b ∈ utf8 text, (decodeHexDigit b).isSome) ↔
      ∀ c ∈ text.toList, IsHexDigit c := by
    simp only [hbytes, List.mem_flatMap, forall_exists_index, and_imp]
    constructor
    · exact fun h c hc => utf8EncodeChar_isHexDigit.mp fun b hb => h b c hc hb
    · exact fun h b c hc hb => utf8EncodeChar_isHexDigit.mpr (h c hc) b hb
  have hlength (h : ∀ c ∈ text.toList, IsHexDigit c) :
      (utf8 text).length = text.toList.length := by
    have hone : text.toList.map (fun c => (String.utf8EncodeChar c).length) =
        text.toList.map fun _ => 1 :=
      List.map_congr_left fun c hc => length_utf8EncodeChar_of_isHexDigit (h c hc)
    rw [hbytes, List.length_flatMap, hone]
    simp
  unfold parseHex
  split_ifs with hlen
  · refine iff_of_false (by simp) fun ⟨hl, h⟩ => hlen ?_
    rw [hlength h, hl]
  · rw [Option.isSome_map, decodeHexPairs_isSome, hdigits]
    rw [not_not] at hlen
    constructor
    · rintro ⟨-, h⟩
      exact ⟨(hlength h).symm.trans hlen, h⟩
    · rintro ⟨-, h⟩
      exact ⟨⟨n, hlen⟩, h⟩

/-! ### Snapshots -/

section

variable [Crates]

omit [Crates] in
theorem canonical_json_recordedChunk (chunk : RecordedChunk) : chunk.json.Canonical :=
  Json.canonical_ofFields (by simp [Json.Canonical.u64, Json.Canonical.string])

omit [Crates] in
theorem decodeRecordedChunk_json (chunk : RecordedChunk) :
    decodeRecordedChunk chunk.json = .ok chunk := by
  have hl (key : String) : chunk.json.asObject.map (List.lookup key) = _ := Json.lookup_ofFields
  rcases he : chunk.json.asObject with _ | entries
  · have := hl ""
    simp [he] at this
  · simp only [he, Option.map_some, Option.some.injEq] at hl
    rw [decodeRecordedChunk, he]
    simp [getField, hl, Json.lookup_cons, Json.asStr, Json.asU64, parseHex_toHex]
    exact ⟨_, chunk.hash.2, rfl, rfl⟩

omit [Crates] in
theorem mapM_decodeRecordedChunk (chunks : List RecordedChunk) :
    (chunks.map RecordedChunk.json).mapM decodeRecordedChunk = .ok chunks := by
  induction chunks with
  | nil => rfl
  | cons chunk chunks ih =>
    rw [List.map_cons, List.mapM_cons, decodeRecordedChunk_json, ih]
    rfl

/-- A snapshot is read back. -/
theorem decode_encodeChunkState (state : ChunkState) :
    decodeChunkState (encodeChunkState state) = .ok state := by
  have hchunks : (Json.array (state.chunks.map RecordedChunk.json)).Canonical := by
    refine .array fun v hv => ?_
    obtain ⟨chunk, -, rfl⟩ := List.mem_map.mp hv
    exact canonical_json_recordedChunk chunk
  obtain ⟨entries, he, hl⟩ :=
    documentEntries_toVecPretty chunkStateFormatVersion state.fields
      (by simp [ChunkState.fields, Json.Canonical.u64, hchunks])
      (by simp [ChunkState.fields, Json.lookup_cons])
  have hlayout : ChunkLayout.new state.layout.fileSize state.layout.chunkSize = .ok state.layout :=
    dif_pos state.layout.chunkSize_ne_zero
  have hnew : ChunkState.new state.layout state.chunks = .ok state :=
    ChunkState.new_eq_ok.mpr ⟨rfl, rfl⟩
  rw [decodeChunkState, encodeChunkState, he]
  simp [getField, hl, ChunkState.fields, Json.lookup_cons, Json.asU64, Json.asArray, hlayout,
    mapM_decodeRecordedChunk, hnew, -List.mapM_map]

/-- A receipt that is read carries the Transfer ID it was read for, whatever else happens to the
files meanwhile. -/
theorem readCompletionReceipt_transferId {Γ : Setting} {dest : Path} {T : TransferId}
    {d : Disk Γ} : (readCompletionReceipt dest T).Ensures d
      (Prog.Post (fun receipt _ => receipt.transferId = T) (fun _ _ => True) fun _ => True) := by
  have any {σ ε α : Type} {p : Prog σ ε α} {s : σ} : p.Ensures s fun _ _ => True :=
    Prog.ensures_of_eq rfl trivial
  refine Prog.Ensures.bind_mapErr any (fun bytes d₁ _ => ?_) (fun _ _ _ => trivial) fun _ _ => trivial
  rw [Prog.ensures_bind, Prog.ensures_ofExcept]
  rcases decodeCompletionReceipt bytes with e | receipt
  · trivial
  · simp only [Prog.post_ok]
    by_cases h : receipt.transferId = T
    · simp [h]
    · simp [h]

/-- What is true of the three formats. -/
structure PersistedFormats : Prop where
  chunkState : ∀ state, decodeChunkState (encodeChunkState state) = .ok state
  completionReceipt : ∀ receipt, receipt.filename ≠ "" →
    decodeCompletionReceipt (encodeCompletionReceipt receipt) = .ok receipt
  transferMetadata : ∀ metadata, metadata.filename ≠ "" →
    decodeTransferMetadata (encodeTransferMetadata metadata) = .ok metadata
  /-- whatever the bytes are -/
  decodedChunkState : ∀ bytes state, decodeChunkState bytes = .ok state →
    1 ≤ state.layout.chunkSize.toNat ∧
      (state.chunks.Pairwise fun c c' => c.index.toNat < c'.index.toNat) ∧
      ∀ c ∈ state.chunks, c.index < state.layout.chunkCount
  /-- whatever stands at the path, and whatever happens to it -/
  readReceipt : ∀ (Γ : Setting) (dest : Path) (T : TransferId) (d : Disk Γ),
    (readCompletionReceipt dest T).Ensures d
      (Prog.Post (fun receipt _ => receipt.transferId = T) (fun _ _ => True) fun _ => True)
  hexAccepted : ∀ n text, (parseHex n text).isSome ↔
    text.toList.length = 2 * n ∧ ∀ c ∈ text.toList, IsHexDigit c
  hexRoundTrip : ∀ n (block : Block n), parseHex n (toHex block.1) = some block

/-- **The persisted formats** round-trip, and admit no ill-formed value. -/
theorem persistedFormats : PersistedFormats where
  chunkState := decode_encodeChunkState
  completionReceipt _ := decode_encodeCompletionReceipt
  transferMetadata _ := decode_encodeTransferMetadata
  decodedChunkState _ state _ := ⟨state.layout.chunkSize_pos, state.valid.increasing,
    fun c hc => UInt64.lt_iff_toNat_lt.mpr (state.valid.inRange c hc)⟩
  readReceipt _ _ _ _ := readCompletionReceipt_transferId
  hexAccepted _ _ := parseHex_isSome
  hexRoundTrip _ := parseHex_toHex

end

end Warpfile
