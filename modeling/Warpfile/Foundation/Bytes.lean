import Mathlib

/-!
# Byte strings: big-endian numbers, UTF-8, fixed lengths, pieces

`toBE w n` is the big-endian form of `n` on `w` bytes and `ofBE` reads it back: they are
inverse to each other between the numbers below `256 ^ w` and the strings of `w` bytes.
`utf8` and `fromUtf8` are the standard encoding of a string and its partial inverse. `Block n`
is the type of the strings of `n` bytes, and `pieces` cuts a list into parts of at most one length.
-/

namespace Warpfile

abbrev Bytes := List UInt8

/-! ### Big-endian numbers -/

/-- The last `w` bytes of `n`, the most significant first. -/
def toBE : ℕ → ℕ → Bytes
  | 0, _ => []
  | w + 1, n => toBE w (n / 256) ++ [UInt8.ofNat (n % 256)]

/-- The number that a string of bytes stands for, the most significant byte first. -/
def ofBE (bs : Bytes) : ℕ := bs.foldl (fun n b => 256 * n + b.toNat) 0

@[simp]
theorem length_toBE (w n : ℕ) : (toBE w n).length = w := by
  induction w generalizing n with
  | zero => rfl
  | succ w ih => simp [toBE, ih]

theorem ofBE_append_singleton (bs : Bytes) (b : UInt8) :
    ofBE (bs ++ [b]) = 256 * ofBE bs + b.toNat := by
  simp [ofBE]

theorem ofBE_toBE (w n : ℕ) : ofBE (toBE w n) = n % 256 ^ w := by
  induction w generalizing n with
  | zero => simp [toBE, ofBE, Nat.mod_one]
  | succ w ih =>
    have hb : (UInt8.ofNat (n % 256)).toNat = n % 256 := by
      rw [UInt8.toNat_ofNat']
      omega
    rw [toBE, ofBE_append_singleton, ih, hb, pow_succ', Nat.mod_mul]
    omega

theorem ofBE_toBE_of_lt {w n : ℕ} (h : n < 256 ^ w) : ofBE (toBE w n) = n := by
  rw [ofBE_toBE, Nat.mod_eq_of_lt h]

theorem ofBE_lt (bs : Bytes) : ofBE bs < 256 ^ bs.length := by
  induction bs using List.reverseRecOn with
  | nil => simp [ofBE]
  | append_singleton bs b ih =>
    rw [ofBE_append_singleton, List.length_append, List.length_singleton, pow_succ]
    have := b.toNat_lt
    omega

theorem toBE_ofBE (bs : Bytes) : toBE bs.length (ofBE bs) = bs := by
  induction bs using List.reverseRecOn with
  | nil => rfl
  | append_singleton bs b ih =>
    have hb := b.toNat_lt
    rw [List.length_append, List.length_singleton, toBE, ofBE_append_singleton]
    congr 1
    · rw [Nat.mul_add_div (by norm_num), Nat.div_eq_of_lt hb, Nat.add_zero, ih]
    · rw [Nat.mul_add_mod, Nat.mod_eq_of_lt hb, UInt8.ofNat_toNat]

/-- The eight bytes of a 64-bit word. -/
def word (x : UInt64) : Bytes := toBE 8 x.toNat

/-- The 64-bit word that eight bytes stand for. -/
def ofWord (bs : Bytes) : UInt64 := UInt64.ofNat (ofBE bs)

@[simp]
theorem length_word (x : UInt64) : (word x).length = 8 := length_toBE ..

@[simp]
theorem ofWord_word (x : UInt64) : ofWord (word x) = x := by
  rw [ofWord, word, ofBE_toBE_of_lt (by simpa using x.toNat_lt), UInt64.ofNat_toNat]

theorem word_ofWord {bs : Bytes} (h : bs.length = 8) : word (ofWord bs) = bs := by
  have hlt := ofBE_lt bs
  rw [h] at hlt
  rw [word, ofWord, UInt64.toNat_ofNat', Nat.mod_eq_of_lt (by simpa using hlt), ← h, toBE_ofBE]

/-! ### Strings -/

def utf8 (s : String) : Bytes := s.toByteArray.data.toList

def fromUtf8 (bs : Bytes) : Option String := String.fromUTF8? ⟨bs.toArray⟩

@[simp]
theorem fromUtf8_utf8 (s : String) : fromUtf8 (utf8 s) = some s := by
  have h : (⟨(utf8 s).toArray⟩ : ByteArray) = s.toByteArray := by simp [utf8]
  rw [fromUtf8, h, String.fromUTF8?, dif_pos s.isValidUTF8]
  rfl

theorem utf8_of_fromUtf8 {bs : Bytes} {s : String} (h : fromUtf8 bs = some s) : utf8 s = bs := by
  unfold fromUtf8 String.fromUTF8? at h
  split at h
  · obtain rfl := Option.some.inj h
    simp [utf8, String.fromUTF8]
  · simp at h

theorem utf8_eq_nil {s : String} : utf8 s = [] ↔ s = "" := by
  refine ⟨fun h => ?_, fun h => by subst h; rfl⟩
  have hs := fromUtf8_utf8 s
  rw [h, show ([] : Bytes) = utf8 "" from rfl, fromUtf8_utf8] at hs
  exact (Option.some.inj hs).symm

/-! ### Fixed lengths -/

/-- The strings of `n` bytes. -/
abbrev Block (n : ℕ) : Type := { bs : Bytes // bs.length = n }

namespace Block

variable {n : ℕ}

/-- Copy a string of bytes into an array of `n` zeros. -/
def ofBytes (n : ℕ) (bs : Bytes) : Block n := ⟨bs.takeD n 0, List.takeD_length ..⟩

@[simp]
theorem ofBytes_val (b : Block n) : ofBytes n b.1 = b :=
  Subtype.ext (List.takeD_eq_take _ b.2.ge |>.trans (List.take_of_length_le b.2.le))

theorem val_ofBytes {bs : Bytes} (h : bs.length = n) : (ofBytes n bs).1 = bs :=
  congrArg Subtype.val (ofBytes_val ⟨bs, h⟩)

end Block

/-! ### Pieces of a list -/

section

variable {α : Type} {n : ℕ} {piece : List α}

/-- `xs.chunks(n + 1)` -/
def pieces (n : ℕ) (xs : List α) : List (List α) :=
  if xs = [] then [] else xs.take (n + 1) :: pieces n (xs.drop (n + 1))
termination_by xs.length
decreasing_by
  have := List.length_pos_iff.mpr ‹xs ≠ []›
  simp only [List.length_drop]
  omega

theorem flatten_pieces (n : ℕ) (xs : List α) : (pieces n xs).flatten = xs := by
  induction xs using pieces.induct n with
  | case1 => rw [pieces, if_pos rfl, List.flatten_nil]
  | case2 xs h ih => rw [pieces, if_neg h, List.flatten_cons, ih, List.take_append_drop]

theorem mem_pieces {xs : List α} (h : piece ∈ pieces n xs) :
    piece ≠ [] ∧ piece.length ≤ n + 1 := by
  induction xs using pieces.induct n with
  | case1 =>
    rw [pieces, if_pos rfl] at h
    exact absurd h List.not_mem_nil
  | case2 xs hne ih =>
    rw [pieces, if_neg hne] at h
    rcases List.mem_cons.mp h with rfl | h
    · refine ⟨fun h => ?_, by simp⟩
      rcases List.take_eq_nil_iff.mp h with h | h
      · exact absurd h (Nat.succ_ne_zero n)
      · exact hne h
    · exact ih h

end

end Warpfile
