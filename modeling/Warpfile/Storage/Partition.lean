import Warpfile.Storage.Chunk

/-!
# The chunks partition the file

A byte at `position` belongs to the chunk `position / chunkSize` and to no other
(`mem_positions`). That the ranges are contiguous and disjoint and cover the file follows, and
none of the 64-bit operations on the way overflows, whatever the two sizes are.
-/

namespace Warpfile

/-- The position lies in the range. -/
def ChunkRange.Contains (r : ChunkRange) (position : ℕ) : Prop :=
  r.offset.toNat ≤ position ∧ position < r.offset.toNat + r.length.toNat

namespace ChunkLayout

variable {layout : ChunkLayout} {index : UInt64} {r r' : ChunkRange}

/-- The bytes of a chunk; none, where there is no such chunk. -/
def positions (layout : ChunkLayout) (index : UInt64) : Set ℕ :=
  {position | ∃ r, layout.range index = some r ∧ r.Contains position}

theorem range_length_pos (h : layout.range index = some r) : 0 < r.length.toNat := by
  obtain ⟨hlt, -, -, hlength⟩ := range_eq_some.mp h
  have := layout.chunkSize_pos
  omega

/-- **A byte belongs to one chunk**, which division by the chunk size finds. -/
theorem mem_positions {position : ℕ} : position ∈ layout.positions index ↔
    position < layout.fileSize.toNat ∧ position / layout.chunkSize.toNat = index.toNat := by
  have hpos := layout.chunkSize_pos
  rw [Nat.div_eq_iff hpos]
  constructor
  · rintro ⟨r, hr, hle, hlt⟩
    obtain ⟨-, -, hoffset, hlength⟩ := range_eq_some.mp hr
    rw [hoffset] at hle hlt
    omega
  · rintro ⟨hlt, hle, hle'⟩
    have hsome : (layout.range index).isSome := by
      rw [Option.isSome_iff_ne_none, ne_eq, range_eq_none]
      omega
    obtain ⟨r, hr⟩ := Option.isSome_iff_exists.mp hsome
    obtain ⟨-, -, hoffset, hlength⟩ := range_eq_some.mp hr
    refine ⟨r, hr, ?_, ?_⟩ <;> omega

/-- Counting the chunks is rounding the quotient up. -/
theorem chunkCount_eq (layout : ChunkLayout) : layout.chunkCount.toNat =
    (layout.fileSize.toNat + layout.chunkSize.toNat - 1) / layout.chunkSize.toNat := by
  have hpos := layout.chunkSize_pos
  refine le_antisymm ?_ ?_
  · rw [Nat.le_div_iff_mul_le hpos]
    rcases Nat.eq_zero_or_pos layout.chunkCount.toNat with h | h
    · rw [h, Nat.zero_mul]
      exact Nat.zero_le _
    · have := lt_chunkCount.mp (Nat.sub_lt h Nat.one_pos)
      rw [Nat.sub_mul] at this
      omega
  · rw [Nat.div_le_iff_le_mul hpos]
    have := mt lt_chunkCount.mpr (lt_irrefl layout.chunkCount.toNat)
    omega

/-- The index of the chunk of a byte is a 64-bit word. -/
private theorem toNat_ofNat_div {position : ℕ} (h : position < layout.fileSize.toNat) :
    (UInt64.ofNat (position / layout.chunkSize.toNat)).toNat =
      position / layout.chunkSize.toNat := by
  have := layout.fileSize.toNat_lt
  have := Nat.div_le_self position layout.chunkSize.toNat
  exact UInt64.toNat_ofNat_of_lt' (by rw [UInt64.size]; omega)

/-- What it means that the chunks are a partition of the file, and that computing them overflows
nowhere. -/
structure Partition (layout : ChunkLayout) : Prop where
  count : layout.chunkCount.toNat =
    (layout.fileSize.toNat + layout.chunkSize.toNat - 1) / layout.chunkSize.toNat
  /-- where the quotient is rounded up -/
  count_checked : layout.fileSize % layout.chunkSize ≠ 0 →
    checkedAdd (layout.fileSize / layout.chunkSize) 1 = some layout.chunkCount
  range_checked : ∀ index < layout.chunkCount, ∃ offset remaining,
    checkedMul index layout.chunkSize = some offset ∧
      checkedSub layout.fileSize offset = some remaining
  range_eq_none : ∀ index, layout.range index = none ↔ layout.chunkCount ≤ index
  nonempty : ∀ index r, layout.range index = some r → 0 < r.length.toNat
  full : ∀ index r, layout.range index = some r →
    index.toNat + 1 < layout.chunkCount.toNat → r.length = layout.chunkSize
  first : ∀ r, layout.range 0 = some r → r.offset = 0
  contiguous : ∀ index r r', layout.range index = some r → layout.range (index + 1) = some r' →
    r.offset.toNat + r.length.toNat = r'.offset.toNat
  last : ∀ index r, layout.range index = some r →
    index.toNat + 1 = layout.chunkCount.toNat →
      r.offset.toNat + r.length.toNat = layout.fileSize.toNat
  inside : ∀ index r, layout.range index = some r →
    r.offset.toNat + r.length.toNat ≤ layout.fileSize.toNat
  disjoint : Pairwise fun index index' => Disjoint (layout.positions index) (layout.positions index')
  cover : ⋃ index, layout.positions index = Set.Iio layout.fileSize.toNat
  unique : ∀ position < layout.fileSize.toNat, ∃! index, position ∈ layout.positions index

/-- The chunks of every layout are a partition. -/
theorem partition (layout : ChunkLayout) : layout.Partition where
  count := chunkCount_eq layout
  count_checked h := by
    have hf := layout.fileSize.toNat_lt
    have hc : 2 ≤ layout.chunkSize.toNat := by
      by_contra hc
      have hone : layout.chunkSize.toNat = 1 := by
        have := layout.chunkSize_pos
        omega
      refine h (UInt64.toNat_inj.mp ?_)
      rw [UInt64.toNat_mod, hone, Nat.mod_one]
      rfl
    have hquot := Nat.div_le_div_left (a := layout.fileSize.toNat) hc Nat.two_pos
    have hone : (1 : UInt64).toNat = 1 := rfl
    rw [checkedAdd_eq_some, chunkCount, if_neg h, UInt64.toNat_add, Nat.mod_eq_of_lt]
    rw [UInt64.toNat_div]
    omega
  range_checked index h := by
    have hlt := lt_chunkCount.mp (UInt64.lt_iff_toNat_lt.mp h)
    have hf := layout.fileSize.toNat_lt
    have hmul : checkedMul index layout.chunkSize = some (index * layout.chunkSize) :=
      if_pos (by omega)
    refine ⟨_, layout.fileSize - index * layout.chunkSize, hmul, if_pos ?_⟩
    rw [UInt64.le_iff_toNat_le, ← checkedMul_eq_some.mp hmul]
    exact hlt.le
  range_eq_none index := by
    rw [range_eq_none, UInt64.le_iff_toNat_le, ← not_lt, ← not_lt, lt_chunkCount]
  nonempty index r h := range_length_pos h
  full index r h hnext := by
    obtain ⟨-, -, -, hlength⟩ := range_eq_some.mp h
    have := lt_chunkCount.mp hnext
    rw [Nat.succ_mul] at this
    exact UInt64.toNat_inj.mp (by omega)
  first r h := by
    obtain ⟨-, -, hoffset, -⟩ := range_eq_some.mp h
    exact UInt64.toNat_inj.mp (by simpa using hoffset)
  contiguous index r r' h h' := by
    obtain ⟨hlt, -, hoffset, hlength⟩ := range_eq_some.mp h
    obtain ⟨hlt', -, hoffset', -⟩ := range_eq_some.mp h'
    have hcount := layout.chunkCount.toNat_lt
    have hindex := lt_chunkCount.mpr hlt
    have hone : (1 : UInt64).toNat = 1 := rfl
    have hsucc : (index + 1).toNat = index.toNat + 1 := by
      rw [UInt64.toNat_add, hone, Nat.mod_eq_of_lt (by omega)]
    rw [hsucc, Nat.succ_mul] at hlt' hoffset'
    omega
  last index r h hlast := by
    obtain ⟨hlt, -, hoffset, hlength⟩ := range_eq_some.mp h
    have := mt lt_chunkCount.mpr (lt_irrefl layout.chunkCount.toNat)
    rw [← hlast, Nat.succ_mul] at this
    omega
  inside index r h := by
    obtain ⟨hlt, -, hoffset, hlength⟩ := range_eq_some.mp h
    omega
  disjoint index index' hne := by
    refine Set.disjoint_left.mpr fun position h h' => ?_
    have := (mem_positions.mp h).2.symm.trans (mem_positions.mp h').2
    exact hne (UInt64.toNat_inj.mp this)
  cover := by
    ext position
    rw [Set.mem_iUnion, Set.mem_Iio]
    constructor
    · rintro ⟨index, h⟩
      exact (mem_positions.mp h).1
    · intro h
      exact ⟨_, mem_positions.mpr ⟨h, (toNat_ofNat_div h).symm⟩⟩
  unique position h := by
    refine ⟨_, mem_positions.mpr ⟨h, (toNat_ofNat_div h).symm⟩, fun index h' => ?_⟩
    rw [← UInt64.toNat_inj, toNat_ofNat_div h, (mem_positions.mp h').2]

/-- **Every pair of sizes gives a partition**, unless the chunks would be empty. -/
theorem new_partition (fileSize chunkSize : UInt64) :
    match new fileSize chunkSize with
    | .ok layout => layout.fileSize = fileSize ∧ layout.chunkSize = chunkSize ∧ layout.Partition
    | .error e => e = .zeroChunkSize ∧ chunkSize = 0 := by
  unfold new
  by_cases h : chunkSize ≠ 0
  · rw [dif_pos h]
    exact ⟨rfl, rfl, partition _⟩
  · rw [dif_neg h]
    exact ⟨rfl, not_not.mp h⟩

/-- Near the end of the 64-bit words. -/
example : (ChunkLayout.mk (.ofNat (2 ^ 64 - 1)) 2 (by decide)).chunkCount = .ofNat (2 ^ 63) := by
  decide

end ChunkLayout

end Warpfile
