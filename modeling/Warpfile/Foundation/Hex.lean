import Warpfile.Foundation.Bytes

/-!
# Hexadecimal text

`toHex` writes each byte as two lowercase digits; `parseHex n` reads `n` bytes back from a text
of exactly `2 * n` digits of either case.
-/

namespace Warpfile

/-- The digit of a number below sixteen. -/
def hexDigit (n : ℕ) : Char := "0123456789abcdef".toList.getD n '0'

def toHex (bs : Bytes) : String :=
  String.ofList (bs.flatMap fun b => [hexDigit (b.toNat / 16), hexDigit (b.toNat % 16)])

def decodeHexDigit (byte : UInt8) : Option UInt8 :=
  if 0x30 ≤ byte ∧ byte ≤ 0x39 then some (byte - 0x30)
  else if 0x61 ≤ byte ∧ byte ≤ 0x66 then some (byte - 0x61 + 10)
  else if 0x41 ≤ byte ∧ byte ≤ 0x46 then some (byte - 0x41 + 10)
  else none

/-- The bytes that pairs of digits stand for. -/
def decodeHexPairs : Bytes → Option Bytes
  | high :: low :: rest => do
    let high ← decodeHexDigit high
    let low ← decodeHexDigit low
    let rest ← decodeHexPairs rest
    return (high <<< 4 ||| low) :: rest
  | [] => some []
  | [_] => none

def parseHex (n : ℕ) (text : String) : Option (Block n) :=
  if (utf8 text).length ≠ 2 * n then none
  else (decodeHexPairs (utf8 text)).map (Block.ofBytes n)

theorem utf8_ofList (cs : List Char) : utf8 (String.ofList cs) = cs.flatMap String.utf8EncodeChar := by
  rw [utf8, String.toByteArray_ofList, List.utf8Encode]
  simp

/-- One byte, written and read back. -/
private theorem decode_digits (n : ℕ) (h : n < 256) :
    ∃ high low, String.utf8EncodeChar (hexDigit (n / 16)) = [high] ∧
      String.utf8EncodeChar (hexDigit (n % 16)) = [low] ∧
      (do let high ← decodeHexDigit high
          let low ← decodeHexDigit low
          some (high <<< 4 ||| low)) = some (UInt8.ofNat n) := by
  have all : ∀ n : Fin 256,
      (String.utf8EncodeChar (hexDigit (n.1 / 16))).length = 1 ∧
      (String.utf8EncodeChar (hexDigit (n.1 % 16))).length = 1 ∧
      (do let high ← decodeHexDigit ((String.utf8EncodeChar (hexDigit (n.1 / 16))).getD 0 0)
          let low ← decodeHexDigit ((String.utf8EncodeChar (hexDigit (n.1 % 16))).getD 0 0)
          some (high <<< 4 ||| low)) = some (UInt8.ofNat n) := by
    decide +kernel
  obtain ⟨h₁, h₂, h₃⟩ := all ⟨n, h⟩
  obtain ⟨high, hh⟩ := List.length_eq_one_iff.mp h₁
  obtain ⟨low, hl⟩ := List.length_eq_one_iff.mp h₂
  exact ⟨high, low, hh, hl, by simpa [hh, hl] using h₃⟩

/-- What is written is read back. -/
private theorem decodeHexPairs_toHex (bs : Bytes) :
    (utf8 (toHex bs)).length = 2 * bs.length ∧ decodeHexPairs (utf8 (toHex bs)) = some bs := by
  unfold toHex
  rw [utf8_ofList]
  induction bs with
  | nil => simp [decodeHexPairs]
  | cons b bs ih =>
    obtain ⟨high, low, hh, hl, hd⟩ := decode_digits b.toNat b.toNat_lt
    simp only [List.flatMap_cons, hh, hl, List.cons_append, List.nil_append, List.length_cons,
      decodeHexPairs]
    refine ⟨by omega, ?_⟩
    rcases h₁ : decodeHexDigit high with _ | x
    · simp [h₁] at hd
    rcases h₂ : decodeHexDigit low with _ | y
    · simp [h₁, h₂] at hd
    simp only [h₁, h₂, Option.bind_eq_bind, Option.bind_some, Option.some.injEq] at hd
    simp [ih.2, hd]

theorem parseHex_toHex {n : ℕ} (b : Block n) : parseHex n (toHex b.1) = some b := by
  obtain ⟨hl, hd⟩ := decodeHexPairs_toHex b.1
  rw [parseHex, hl, if_neg (by rw [b.2]; simp), hd]
  simp

theorem toHex_injective {n : ℕ} : Function.Injective fun b : Block n => toHex b.1 := fun b c h => by
  have := parseHex_toHex b
  rw [show toHex b.1 = toHex c.1 from h, parseHex_toHex] at this
  exact (Option.some.inj this).symm

end Warpfile
