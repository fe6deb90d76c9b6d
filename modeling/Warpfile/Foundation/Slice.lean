import Warpfile.Foundation.Program
import Warpfile.Foundation.Bytes

/-!
# Slices of byte strings that may panic

An index or a range outside a slice, and an addition that overflows, end the program in a panic.
`Panicking ε α` is a computation with errors in `ε` that may panic; `Matches x y` says that `x`
does not, and ends like `y`. With the rules below a decoder written with partial slices is
compared, step by step, with one written with total ones.
-/

namespace Warpfile

/-- A computation that may fail with an error, and may panic. -/
abbrev Panicking (ε α : Type) : Type := ExceptT ε Option α

namespace Panicking

variable {ε α β : Type}

/-- A result that is already there. -/
def lift (y : Except ε α) : Panicking ε α := ExceptT.mk (some y)

/-- A panic where there is no value. -/
def expect (o : Option α) : Panicking ε α := ExceptT.lift o

/-- `bytes[i]` -/
def index (bytes : Bytes) (i : ℕ) : Panicking ε UInt8 := expect bytes[i]?

/-- `[bytes[i], .., bytes[i + n - 1]]` -/
def indices (bytes : Bytes) (i : ℕ) : ℕ → Panicking ε Bytes
  | 0 => pure []
  | n + 1 => do
    let byte ← index bytes i
    let rest ← indices bytes (i + 1) n
    return byte :: rest

/-- `bytes[a..b]` -/
def slice (bytes : Bytes) (a b : ℕ) : Panicking ε Bytes :=
  expect (if a ≤ b ∧ b ≤ bytes.length then some ((bytes.drop a).take (b - a)) else none)

/-- `a + b` on 64 bits -/
def add (a b : ℕ) : Panicking ε ℕ := expect (if a + b < 2 ^ 64 then some (a + b) else none)

/-- The computation does not panic, and ends like `y`. -/
def Matches (x : Panicking ε α) (y : Except ε α) : Prop := x.run = some y

variable {x : Panicking ε α} {y : Except ε α} {bytes : Bytes}

theorem matches_pure (a : α) : Matches (pure a : Panicking ε α) (pure a) := rfl

theorem matches_lift (y : Except ε α) : Matches (lift y) y := rfl

theorem Matches.bind {f : α → Panicking ε β} {g : α → Except ε β} (h : Matches x y)
    (hf : ∀ a, y = .ok a → Matches (f a) (g a)) : Matches (x >>= f) (y >>= g) := by
  obtain rfl : x = (some y : Option (Except ε α)) := h
  cases y with
  | error e => rfl
  | ok a => exact hf a rfl

/-- A value that is there. -/
theorem matches_expect {a : α} {o : Option α} {f : α → Panicking ε β} {z : Except ε β}
    (ho : o = some a) (h : Matches (f a) z) : Matches (expect o >>= f) z := by
  subst ho
  exact h

theorem matches_slice {f : Bytes → Panicking ε β} {z : Except ε β} {a b : ℕ} (hab : a ≤ b)
    (hb : b ≤ bytes.length) (h : Matches (f ((bytes.drop a).take (b - a))) z) :
    Matches (slice bytes a b >>= f) z := matches_expect (if_pos ⟨hab, hb⟩) h

theorem matches_add {f : ℕ → Panicking ε β} {z : Except ε β} {a b : ℕ} (hab : a + b < 2 ^ 64)
    (h : Matches (f (a + b)) z) : Matches (add a b >>= f) z := matches_expect (if_pos hab) h

private theorem indices_eq {n : ℕ} : ∀ {i : ℕ}, i + n ≤ bytes.length →
    (indices bytes i n : Panicking ε Bytes) = pure ((bytes.drop i).take n) := by
  induction n with
  | zero => intro i _; simp [indices]
  | succ n ih =>
    intro i h
    have hi : i < bytes.length := by omega
    rw [indices, index, expect, List.getElem?_eq_getElem hi, ih (by omega),
      List.drop_eq_getElem_cons hi, List.take_succ_cons]
    rfl

theorem matches_indices {f : Bytes → Panicking ε β} {z : Except ε β} {i n : ℕ}
    (hi : i + n ≤ bytes.length) (h : Matches (f ((bytes.drop i).take n)) z) :
    Matches (indices bytes i n >>= f) z := by
  rw [indices_eq hi]
  exact h

end Panicking

end Warpfile
