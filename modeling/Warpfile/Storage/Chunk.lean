import Warpfile.Protocol.PayloadV03

/-!
# How a file is divided into chunks

A layout divides a file of `fileSize` bytes into chunks of `chunkSize` bytes, of which the last may
be shorter. The arithmetic is that of 64-bit words; the lemmas say what it computes in natural
numbers, where nothing overflows.
-/

namespace Warpfile

/-! ### Checked arithmetic -/

def checkedAdd (a b : UInt64) : Option UInt64 :=
  if a.toNat + b.toNat < 2 ^ 64 then some (a + b) else none

def checkedSub (a b : UInt64) : Option UInt64 := if b ≤ a then some (a - b) else none

def checkedMul (a b : UInt64) : Option UInt64 :=
  if a.toNat * b.toNat < 2 ^ 64 then some (a * b) else none

section

variable {a b c : UInt64}

theorem checkedAdd_eq_some : checkedAdd a b = some c ↔ a.toNat + b.toNat = c.toNat := by
  unfold checkedAdd
  split_ifs with h
  · rw [Option.some.injEq, ← UInt64.toNat_inj, UInt64.toNat_add, Nat.mod_eq_of_lt h]
  · have := c.toNat_lt
    simp only [false_iff]
    omega

theorem checkedSub_eq_some : checkedSub a b = some c ↔ a.toNat = b.toNat + c.toNat := by
  unfold checkedSub
  have ha := a.toNat_lt
  have hc := c.toNat_lt
  split_ifs with h
  · have h' := UInt64.le_iff_toNat_le.mp h
    rw [Option.some.injEq, ← UInt64.toNat_inj, UInt64.toNat_sub_of_le _ _ h]
    omega
  · have h' := mt UInt64.le_iff_toNat_le.mpr h
    simp only [false_iff]
    omega

theorem checkedMul_eq_some : checkedMul a b = some c ↔ a.toNat * b.toNat = c.toNat := by
  unfold checkedMul
  split_ifs with h
  · rw [Option.some.injEq, ← UInt64.toNat_inj, UInt64.toNat_mul, Nat.mod_eq_of_lt h]
  · have := c.toNat_lt
    simp only [false_iff]
    omega

end

/-! ### Layouts -/

structure ChunkLayout where
  fileSize : UInt64
  chunkSize : UInt64
  chunkSize_ne_zero : chunkSize ≠ 0
  deriving DecidableEq

structure ChunkRange where
  index : UInt64
  offset : UInt64
  length : UInt64
  deriving DecidableEq, Repr

inductive ChunkLayoutError where
  | zeroChunkSize
  deriving DecidableEq, Repr

namespace ChunkLayout

def new (fileSize chunkSize : UInt64) : Except ChunkLayoutError ChunkLayout :=
  if h : chunkSize ≠ 0 then .ok ⟨fileSize, chunkSize, h⟩ else .error .zeroChunkSize

theorem new_eq_ok {fileSize chunkSize : UInt64} {layout : ChunkLayout} :
    new fileSize chunkSize = .ok layout ↔
      layout.fileSize = fileSize ∧ layout.chunkSize = chunkSize := by
  unfold new
  constructor
  · intro h
    split_ifs at h
    obtain rfl := Except.ok.inj h
    exact ⟨rfl, rfl⟩
  · rintro ⟨rfl, rfl⟩
    exact dif_pos layout.chunkSize_ne_zero

def chunkCount (layout : ChunkLayout) : UInt64 :=
  let quotient := layout.fileSize / layout.chunkSize
  let remainder := layout.fileSize % layout.chunkSize
  if remainder = 0 then quotient else quotient + 1

def range (layout : ChunkLayout) (index : UInt64) : Option ChunkRange := do
  if index ≥ layout.chunkCount then none
  let offset ← checkedMul index layout.chunkSize
  let remaining ← checkedSub layout.fileSize offset
  return { index, offset, length := min layout.chunkSize remaining }

variable {layout : ChunkLayout} {index : UInt64} {r : ChunkRange}

theorem chunkSize_pos (layout : ChunkLayout) : 0 < layout.chunkSize.toNat :=
  Nat.pos_of_ne_zero fun h => layout.chunkSize_ne_zero (UInt64.toNat_inj.mp h)

/-- The number of chunks is that of the multiples of the chunk size below the file size. -/
theorem lt_chunkCount {n : ℕ} :
    n < layout.chunkCount.toNat ↔ n * layout.chunkSize.toNat < layout.fileSize.toNat := by
  have hpos := layout.chunkSize_pos
  have hlt := layout.fileSize.toNat_lt
  have hrem : layout.fileSize % layout.chunkSize = 0 ↔
      layout.fileSize.toNat % layout.chunkSize.toNat = 0 := by
    rw [← UInt64.toNat_inj, UInt64.toNat_mod]
    rfl
  have hquot : (layout.fileSize / layout.chunkSize).toNat =
      layout.fileSize.toNat / layout.chunkSize.toNat := UInt64.toNat_div ..
  unfold chunkCount
  generalize layout.fileSize.toNat = f at *
  generalize layout.chunkSize.toNat = c at *
  have hdiv : f = f / c * c + f % c := by rw [Nat.mul_comm]; exact (Nat.div_add_mod f c).symm
  have hmod : f % c < c := Nat.mod_lt f hpos
  by_cases h0 : f % c = 0
  · rw [if_pos (hrem.mpr h0), hquot]
    rw [h0, Nat.add_zero] at hdiv
    conv_rhs => rw [hdiv]
    exact (Nat.mul_lt_mul_right hpos).symm
  · have hc : 2 ≤ c := by omega
    have hq : f / c * 2 ≤ f / c * c := Nat.mul_le_mul_left _ hc
    rw [if_neg (mt hrem.mp h0), UInt64.toNat_add, hquot]
    rw [show (1 : UInt64).toNat = 1 from rfl, Nat.mod_eq_of_lt (by omega), Nat.lt_succ_iff]
    constructor
    · intro h
      have := Nat.mul_le_mul_right c h
      omega
    · intro h
      refine Nat.lt_succ_iff.mp (lt_of_mul_lt_mul_right (a := c) ?_ hpos.le)
      rw [Nat.succ_mul]
      omega

/-- **The range of a chunk**, in natural numbers. -/
theorem range_eq_some : layout.range index = some r ↔
    index.toNat * layout.chunkSize.toNat < layout.fileSize.toNat ∧ r.index = index ∧
      r.offset.toNat = index.toNat * layout.chunkSize.toNat ∧
      r.length.toNat = min layout.chunkSize.toNat
        (layout.fileSize.toNat - index.toNat * layout.chunkSize.toNat) := by
  have hmin (a b : UInt64) : (min a b).toNat = min a.toNat b.toNat := by
    change (if a ≤ b then a else b).toNat = _
    rw [min_def, apply_ite UInt64.toNat]
    simp only [UInt64.le_iff_toNat_le]
  have hge : index ≥ layout.chunkCount ↔
      ¬index.toNat * layout.chunkSize.toNat < layout.fileSize.toNat := by
    rw [← lt_chunkCount, not_lt, ge_iff_le, UInt64.le_iff_toNat_le]
  have hlt := layout.fileSize.toNat_lt
  by_cases h : index.toNat * layout.chunkSize.toNat < layout.fileSize.toNat
  swap
  · simp [range, hge.mpr h, h]
  have hmul : checkedMul index layout.chunkSize = some (index * layout.chunkSize) := if_pos (by omega)
  have hoff := checkedMul_eq_some.mp hmul
  have hsub : checkedSub layout.fileSize (index * layout.chunkSize) =
      some (layout.fileSize - index * layout.chunkSize) :=
    if_pos (UInt64.le_iff_toNat_le.mpr (by omega))
  have hlen := checkedSub_eq_some.mp hsub
  have hrange : layout.range index = some ⟨index, index * layout.chunkSize,
      min layout.chunkSize (layout.fileSize - index * layout.chunkSize)⟩ := by
    rw [range, if_neg (mt hge.mp (not_not.mpr h))]
    simp [hmul, hsub]
  rw [hrange, Option.some.injEq]
  constructor
  · rintro rfl
    refine ⟨h, rfl, hoff.symm, ?_⟩
    rw [hmin]
    congr 1
    omega
  · rintro ⟨-, hi, ho, hl⟩
    obtain ⟨i, o, l⟩ := r
    simp only [ChunkRange.mk.injEq]
    refine ⟨hi.symm, UInt64.toNat_inj.mp (hoff.symm.trans ho.symm), UInt64.toNat_inj.mp ?_⟩
    rw [hmin]
    simp only at hl
    rw [hl]
    congr 1
    omega

theorem range_eq_none : layout.range index = none ↔
    layout.fileSize.toNat ≤ index.toNat * layout.chunkSize.toNat := by
  rw [← not_lt, ← not_iff_not, not_not, ← ne_eq, Option.ne_none_iff_exists']
  constructor
  · rintro ⟨r, h⟩
    exact (range_eq_some.mp h).1
  · intro h
    by_contra hn
    rw [not_exists] at hn
    have hpos := layout.chunkSize_pos
    have hc := layout.chunkSize.toNat_lt
    have hf := layout.fileSize.toNat_lt
    refine hn ⟨index, .ofNat (index.toNat * layout.chunkSize.toNat),
      .ofNat (min layout.chunkSize.toNat
        (layout.fileSize.toNat - index.toNat * layout.chunkSize.toNat))⟩
      (range_eq_some.mpr ⟨h, rfl, ?_, ?_⟩)
    · exact UInt64.toNat_ofNat_of_lt' (by rw [UInt64.size]; omega)
    · exact UInt64.toNat_ofNat_of_lt' (by rw [UInt64.size]; omega)

theorem range_isSome : (layout.range index).isSome ↔ index < layout.chunkCount := by
  rw [Option.isSome_iff_ne_none, ne_eq, range_eq_none, not_le, ← lt_chunkCount,
    UInt64.lt_iff_toNat_lt]

end ChunkLayout

/-- The bytes of a range. -/
def ChunkRange.slice (r : ChunkRange) (bytes : Bytes) : Bytes :=
  (bytes.drop r.offset.toNat).take r.length.toNat

end Warpfile
