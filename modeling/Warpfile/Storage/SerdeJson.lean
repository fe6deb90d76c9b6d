import Warpfile.Storage.Crates
import Warpfile.Foundation.Hex

/-!
# An instance of the libraries

`Json.render` prints a value as `serde_json` does, on several lines and indented by two spaces.
No two values the program prints look alike, also where more text follows (`render_inj`), so
what was printed can be parsed back. `SerdeJson.crates` is the instance with this printer; its `blake3`
is that of BLAKE3 on the byte strings that the concrete runs of this development hash.
-/

namespace Warpfile

namespace Json

/-! ### Printing -/

def indent (d : ℕ) : List Char := List.replicate (2 * d) ' '

def escape (c : Char) : List Char :=
  if c = '"' then ['\\', '"']
  else if c = '\\' then ['\\', '\\']
  else if c.toNat = 8 then ['\\', 'b']
  else if c.toNat = 12 then ['\\', 'f']
  else if c.toNat = 10 then ['\\', 'n']
  else if c.toNat = 13 then ['\\', 'r']
  else if c.toNat = 9 then ['\\', 't']
  else if c.toNat < 32 then
    ['\\', 'u', '0', '0', Nat.digitChar (c.toNat / 16), Nat.digitChar (c.toNat % 16)]
  else [c]

def renderString (s : String) : List Char := '"' :: s.toList.flatMap escape ++ ['"']

/-- The members of a block after the first, and its end. -/
def renderRest (close : Char) (d : ℕ) : List (List Char) → List Char
  | [] => '\n' :: indent d ++ [close]
  | t :: ts => ',' :: '\n' :: indent (d + 1) ++ t ++ renderRest close d ts

def renderBlock (start close : Char) (d : ℕ) : List (List Char) → List Char
  | [] => [start, close]
  | t :: ts => start :: '\n' :: indent (d + 1) ++ t ++ renderRest close d ts

mutual

def render (d : ℕ) : Json → List Char
  | null => "null".toList
  | bool b => (if b then "true" else "false").toList
  | u64 n => Nat.toDigits 10 n.toNat
  | number text => text.toList
  | string s => renderString s
  | array items => renderBlock '[' ']' d (renderItems (d + 1) items)
  | object entries => renderBlock '\x7b' '\x7d' d (renderEntries (d + 1) entries)

def renderItems (d : ℕ) : List Json → List (List Char)
  | [] => []
  | v :: vs => render d v :: renderItems d vs

def renderEntries (d : ℕ) : List (String × Json) → List (List Char)
  | [] => []
  | e :: es => renderEntry d e :: renderEntries d es

def renderEntry (d : ℕ) : String × Json → List Char
  | (key, v) => renderString key ++ ':' :: ' ' :: render d v

end

theorem renderItems_eq {d : ℕ} {items : List Json} : renderItems d items = items.map (render d) := by
  induction items with
  | nil => rfl
  | cons v vs ih => rw [renderItems, ih, List.map_cons]

theorem renderEntries_eq {d : ℕ} {entries : List (String × Json)} :
    renderEntries d entries = entries.map (renderEntry d) := by
  induction entries with
  | nil => rfl
  | cons e es ih => rw [renderEntries, ih, List.map_cons]

/-! ### No two values look alike -/

/-- The text `r` does not continue a number. -/
def Stops (r : List Char) : Prop := ∀ c ∈ r.head?, c.isDigit = false

private theorem takeWhile_digits {n : ℕ} {r : List Char} (hr : Stops r) :
    (Nat.toDigits 10 n ++ r).takeWhile Char.isDigit = Nat.toDigits 10 n := by
  rw [List.takeWhile_append_of_pos fun c hc =>
    Nat.isDigit_of_mem_toDigits (by norm_num) le_rfl hc]
  cases r with
  | nil => simp
  | cons c r => simp [hr c (by simp)]

private theorem digits_inj {n n' : ℕ} {r r' : List Char} (hr : Stops r) (hr' : Stops r')
    (h : Nat.toDigits 10 n ++ r = Nat.toDigits 10 n' ++ r') : n = n' ∧ r = r' := by
  have hd : Nat.toDigits 10 n = Nat.toDigits 10 n' := by
    rw [← takeWhile_digits hr, h, takeWhile_digits hr']
  refine ⟨?_, List.append_cancel_left (hd ▸ h)⟩
  rw [← Nat.ofDigitChars_ten_toDigits (n := n), hd, Nat.ofDigitChars_ten_toDigits]

/-- The value of a hexadecimal digit. -/
private def hexValue (c : Char) : ℕ := if c.isDigit then c.toNat - 48 else c.toNat - 87

/-- Read a character of a string back. -/
private def unescape : List Char → Option (Char × List Char)
  | '\\' :: 'u' :: _ :: _ :: high :: low :: r =>
    some (Char.ofNat (16 * hexValue high + hexValue low), r)
  | '\\' :: 'b' :: r => some (Char.ofNat 8, r)
  | '\\' :: 'f' :: r => some (Char.ofNat 12, r)
  | '\\' :: 'n' :: r => some (Char.ofNat 10, r)
  | '\\' :: 'r' :: r => some (Char.ofNat 13, r)
  | '\\' :: 't' :: r => some (Char.ofNat 9, r)
  | '\\' :: c :: r => some (c, r)
  | c :: r => some (c, r)
  | [] => none

private theorem unescape_escape (c : Char) (r : List Char) :
    unescape (escape c ++ r) = some (c, r) := by
  have code {n : ℕ} (h : c.toNat = n) : Char.ofNat n = c := by rw [← h, Char.ofNat_toNat]
  unfold escape
  split_ifs with h₁ h₂ h₃ h₄ h₅ h₆ h₇ h₈
  · rw [h₁]; rfl
  · rw [h₂]; rfl
  · exact congrArg (fun c => some (c, r)) (code h₃)
  · exact congrArg (fun c => some (c, r)) (code h₄)
  · exact congrArg (fun c => some (c, r)) (code h₅)
  · exact congrArg (fun c => some (c, r)) (code h₆)
  · exact congrArg (fun c => some (c, r)) (code h₇)
  · have hex : ∀ n < 32, 16 * hexValue (Nat.digitChar (n / 16)) + hexValue (Nat.digitChar (n % 16)) = n := by
      decide
    exact congrArg (fun c => some (c, r)) (code (hex _ h₈).symm)
  · rw [List.singleton_append, unescape]
    all_goals simp [h₂]

private theorem escape_eq_cons (c : Char) : ∃ c₀ t, escape c = c₀ :: t ∧ c₀ ≠ '"' := by
  unfold escape
  split_ifs with h <;> first | exact ⟨_, _, rfl, by decide⟩ | exact ⟨_, _, rfl, h⟩

private theorem renderString_inj {s s' : String} {r r' : List Char}
    (h : renderString s ++ r = renderString s' ++ r') : s = s' ∧ r = r' := by
  have main : ∀ cs cs' : List Char,
      cs.flatMap escape ++ '"' :: r = cs'.flatMap escape ++ '"' :: r' → cs = cs' ∧ r = r' := by
    intro cs
    induction cs with
    | nil =>
      rintro (_ | ⟨c', cs'⟩) h
      · simpa using h
      · obtain ⟨c₀, t, he, hne⟩ := escape_eq_cons c'
        simp [he, hne.symm] at h
    | cons c cs ih =>
      rintro (_ | ⟨c', cs'⟩) h
      · obtain ⟨c₀, t, he, hne⟩ := escape_eq_cons c
        simp [he, hne] at h
      · rw [List.flatMap_cons, List.flatMap_cons, List.append_assoc, List.append_assoc] at h
        have h' := congrArg unescape h
        rw [unescape_escape, unescape_escape, Option.some.injEq, Prod.mk.injEq] at h'
        obtain ⟨rfl, h'⟩ := h'
        exact (ih cs' h').imp_left (congrArg _)
  have h : s.toList.flatMap escape ++ '"' :: r = s'.toList.flatMap escape ++ '"' :: r' := by
    simpa [renderString] using h
  exact (main _ _ h).imp_left fun h => String.toList_inj.mp h

/-- Texts of which none is the beginning of another, before what does not continue a number. -/
def Distinct {α : Type} (f : α → List Char) (a : α) (P : α → Prop) : Prop :=
  ∀ a', P a' → ∀ r r', Stops r → Stops r' → f a ++ r = f a' ++ r' → a = a' ∧ r = r'

section Block

variable {α : Type} {f : α → List Char} {P : α → Prop} {start close : Char} {d : ℕ}
  {r r' : List Char}

private theorem stops_renderRest {ts : List (List Char)} : Stops (renderRest close d ts ++ r) := by
  cases ts <;> simp [renderRest, Stops, Char.isDigit]

private theorem renderRest_inj {xs xs' : List α} (hf : ∀ x ∈ xs, Distinct f x P)
    (hP : ∀ x ∈ xs', P x)
    (h : renderRest close d (xs.map f) ++ r = renderRest close d (xs'.map f) ++ r') :
    xs = xs' ∧ r = r' := by
  induction xs generalizing xs' with
  | nil =>
    cases xs' with
    | nil => simpa [renderRest] using h
    | cons => simp [renderRest] at h
  | cons x xs ih =>
    cases xs' with
    | nil => simp [renderRest] at h
    | cons x' xs' =>
      rw [List.forall_mem_cons] at hf hP
      simp only [List.map_cons, renderRest, List.cons_append, List.append_assoc, List.cons.injEq,
        true_and] at h
      obtain ⟨rfl, h'⟩ := hf.1 x' hP.1 _ _ stops_renderRest stops_renderRest
        (List.append_cancel_left h)
      exact (ih hf.2 hP.2 h').imp_left (congrArg _)

private theorem renderBlock_inj {xs xs' : List α} (hclose : close ≠ '\n')
    (hf : ∀ x ∈ xs, Distinct f x P) (hP : ∀ x ∈ xs', P x)
    (h : renderBlock start close d (xs.map f) ++ r = renderBlock start close d (xs'.map f) ++ r') :
    xs = xs' ∧ r = r' := by
  cases xs with
  | nil =>
    cases xs' with
    | nil => simpa [renderBlock] using h
    | cons => simp [renderBlock, hclose] at h
  | cons x xs =>
    cases xs' with
    | nil => simp [renderBlock, hclose.symm] at h
    | cons x' xs' =>
      rw [List.forall_mem_cons] at hf hP
      simp only [List.map_cons, renderBlock, List.cons_append, List.append_assoc, List.cons.injEq,
        true_and] at h
      obtain ⟨rfl, h'⟩ := hf.1 x' hP.1 _ _ stops_renderRest stops_renderRest
        (List.append_cancel_left h)
      exact (renderRest_inj hf.2 hP.2 h').imp_left (congrArg _)

end Block

/-- What the printed text of a value may begin with. -/
private def Leads : Json → Char → Prop
  | u64 _, c => c.isDigit
  | string _, c => c = '"'
  | array _, c => c = '['
  | object _, c => c = '\x7b'
  | _, _ => True

private theorem leads_render {v : Json} (hv : Canonical v) {d : ℕ} :
    ∃ c t, render d v = c :: t ∧ Leads v c := by
  have block {start close : Char} {ts : List (List Char)} :
      ∃ t, renderBlock start close d ts = start :: t := by cases ts <;> exact ⟨_, rfl⟩
  cases hv with
  | u64 n =>
    rcases h : Nat.toDigits 10 n.toNat with _ | ⟨c, t⟩
    · exact absurd h Nat.toDigits_ne_nil
    · exact ⟨c, t, h, Nat.isDigit_of_mem_toDigits (b := 10) (n := n.toNat) (by norm_num) le_rfl
        (by simp [h])⟩
  | string s => exact ⟨_, _, rfl, rfl⟩
  | array => exact ⟨_, _, block.choose_spec, rfl⟩
  | object => exact ⟨_, _, block.choose_spec, rfl⟩

private theorem leads_of_eq {v v' : Json} (hv : Canonical v) (hv' : Canonical v') {d : ℕ}
    {r r' : List Char} (h : render d v ++ r = render d v' ++ r') : ∃ c, Leads v c ∧ Leads v' c := by
  obtain ⟨c, t, hc, hl⟩ := leads_render hv (d := d)
  obtain ⟨c', t', hc', hl'⟩ := leads_render hv' (d := d)
  rw [hc, hc'] at h
  exact ⟨c, hl, (List.cons.inj h).1 ▸ hl'⟩

private theorem renderEntry_inj {e : String × Json} {d : ℕ}
    (h : Distinct (render d) e.2 Canonical) :
    Distinct (renderEntry d) e fun e' => Canonical e'.2 := by
  intro e' he' r r' hr hr' heq
  obtain ⟨key, v⟩ := e
  obtain ⟨key', v'⟩ := e'
  simp only [renderEntry, List.append_assoc] at heq
  obtain ⟨rfl, htail⟩ := renderString_inj heq
  simp only [List.cons_append, List.cons.injEq, true_and] at htail
  exact (h v' he' r r' hr hr' htail).imp_left fun h => by rw [← h]

/-- **No two values look alike.** -/
theorem render_inj {v : Json} (hv : Canonical v) (d : ℕ) : Distinct (render d) v Canonical := by
  induction hv generalizing d with
  | u64 n =>
    intro v' hv' r r' hr hr' h
    have hl := leads_of_eq (.u64 n) hv' h
    cases hv' with
    | u64 n' => exact (digits_inj hr hr' h).imp_left fun h => by rw [UInt64.toNat_inj.mp h]
    | _ => simp [Leads, Char.isDigit] at hl
  | string s =>
    intro v' hv' r r' hr hr' h
    have hl := leads_of_eq (.string s) hv' h
    cases hv' with
    | string s' => exact (renderString_inj h).imp_left (congrArg _)
    | _ => simp [Leads, Char.isDigit] at hl
  | @array items hc ih =>
    intro v' hv' r r' hr hr' h
    have hl := leads_of_eq (.array hc) hv' h
    cases hv' with
    | array hc' =>
      simp only [render, renderItems_eq] at h
      exact (renderBlock_inj (by decide) (fun v hv => ih v hv (d + 1)) hc' h).imp_left (congrArg _)
    | _ => simp [Leads, Char.isDigit] at hl
  | @object entries hs hc ih =>
    intro v' hv' r r' hr hr' h
    have hl := leads_of_eq (.object hs hc) hv' h
    cases hv' with
    | object hs' hc' =>
      simp only [render, renderEntries_eq] at h
      exact (renderBlock_inj (by decide) (fun e he => renderEntry_inj (ih e he (d + 1))) hc'
        h).imp_left (congrArg _)
    | _ => simp [Leads, Char.isDigit] at hl

end Json

/-! ### The instance -/

/-- A JSON document. -/
def Json.toBytes (v : Json) : Bytes := utf8 (String.ofList (v.render 0))

theorem Json.toBytes_inj {v v' : Json} (hv : v.Canonical) (hv' : v'.Canonical)
    (h : v.toBytes = v'.toBytes) : v = v' := by
  have h := congrArg fromUtf8 h
  rw [toBytes, toBytes, fromUtf8_utf8, fromUtf8_utf8, Option.some.injEq, String.ofList_inj] at h
  have stops : Stops [] := by simp [Stops]
  exact (render_inj hv 0 v' hv' [] [] stops stops (by simpa using h)).1

/-- BLAKE3 of the byte strings that are hashed in the concrete runs. -/
def digestOf (bytes : Bytes) : Block 32 :=
  let hex : String :=
    if bytes = [] then "af1349b9f5f9a1a6a0404dea36dcc9499bcb25c9adc112b7cc9a93cae41f3262"
    else if bytes = utf8 "abc" then
      "6437b3ac38465133ffb63b75273a8db548c558465d79db03fd359c6cd5bd9d85"
    else ""
  (parseHex 32 hex).getD (Block.ofBytes 32 bytes)

namespace SerdeJson

open Classical in
/-- The libraries, as far as the concrete runs use them. -/
noncomputable scoped instance crates : Crates where
  blake3 := digestOf
  toVecPretty := Json.toBytes
  fromSlice bytes :=
    if h : ∃ v : Json, v.Canonical ∧ v.toBytes = bytes then some h.choose else none
  fromSlice_toVecPretty v hv := by
    have h : ∃ v' : Json, v'.Canonical ∧ v'.toBytes = v.toBytes := ⟨v, hv, rfl⟩
    rw [dif_pos h, Json.toBytes_inj h.choose_spec.1 hv h.choose_spec.2]

end SerdeJson

end Warpfile
