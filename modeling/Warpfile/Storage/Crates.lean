import Warpfile.Foundation.Program
import Warpfile.Foundation.Bytes

/-!
# What the program takes from its libraries

BLAKE3 is a function from byte strings to digests, whatever pieces a string is hashed in.
`serde_json` prints values and parses them back; its maps are ordered by key and hold each key
once (`Json.Canonical`).
-/

namespace Warpfile

inductive Json where
  | null
  | bool (b : Bool)
  | u64 (n : UInt64)
  /-- a number that is not an unsigned 64-bit one -/
  | number (text : String)
  | string (s : String)
  | array (items : List Json)
  | object (entries : List (String × Json))

namespace Json

def asObject : Json → Option (List (String × Json))
  | object entries => some entries
  | _ => none

def asU64 : Json → Option UInt64
  | u64 n => some n
  | _ => none

def asStr : Json → Option String
  | string s => some s
  | _ => none

def asArray : Json → Option (List Json)
  | array items => some items
  | _ => none

/-- Insert in the order of the keys. -/
def insert (entry : String × Json) : List (String × Json) → List (String × Json)
  | [] => [entry]
  | e :: es =>
    if entry.1 < e.1 then entry :: e :: es
    else if entry.1 = e.1 then entry :: es
    else e :: insert entry es

/-- The object with the given entries. -/
def ofFields (fields : List (String × Json)) : Json :=
  object (fields.foldl (fun es e => insert e es) [])

theorem lookup_cons {key : String} {entry : String × Json} {entries : List (String × Json)} :
    (entry :: entries).lookup key = if key = entry.1 then some entry.2 else entries.lookup key := by
  by_cases h : key = entry.1
  · simp [List.lookup, h]
  · have : (key == entry.1) = false := by simpa using h
    simp [List.lookup, h, this]

private theorem lookup_insert {key : String} {entry : String × Json}
    {entries : List (String × Json)} :
    (insert entry entries).lookup key =
      if key = entry.1 then some entry.2 else entries.lookup key := by
  induction entries with
  | nil => exact lookup_cons
  | cons e es ih =>
    unfold insert
    split_ifs with h₁ h₂ h₃ h₄ h₅
    · simp [lookup_cons, h₂]
    · simp [lookup_cons, h₂]
    · simp [lookup_cons, h₄]
    · simp [lookup_cons, h₄, ← h₃]
    · rw [lookup_cons, ih, h₅, if_neg h₃, if_pos rfl]
    · rw [lookup_cons, lookup_cons, ih, if_neg h₅]

private theorem mem_insert {e entry : String × Json} {entries : List (String × Json)}
    (h : e ∈ insert entry entries) : e = entry ∨ e ∈ entries := by
  induction entries with
  | nil => simpa [insert] using h
  | cons e' es ih =>
    unfold insert at h
    split_ifs at h with h₁ h₂
    · simpa using h
    · simp only [List.mem_cons] at h ⊢
      tauto
    · simp only [List.mem_cons] at h ⊢
      rcases h with rfl | h
      · exact .inr (.inl rfl)
      · exact (ih h).imp_right .inr

/-- The keys stay in order. -/
private theorem sorted_insert {entry : String × Json} {entries : List (String × Json)}
    (h : (entries.map Prod.fst).Pairwise (· < ·)) :
    ((insert entry entries).map Prod.fst).Pairwise (· < ·) := by
  induction entries with
  | nil => simp [insert]
  | cons e es ih =>
    rw [List.map_cons, List.pairwise_cons] at h
    unfold insert
    split_ifs with h₁ h₂
    · rw [List.map_cons, List.pairwise_cons, List.map_cons, List.pairwise_cons]
      refine ⟨fun k hk => ?_, h⟩
      rcases List.mem_cons.mp hk with rfl | hk
      · exact h₁
      · exact lt_trans h₁ (h.1 k hk)
    · rw [List.map_cons, List.pairwise_cons, h₂]
      exact h
    · rw [List.map_cons, List.pairwise_cons]
      refine ⟨fun k hk => ?_, ih h.2⟩
      obtain ⟨e', he', rfl⟩ := List.mem_map.mp hk
      rcases mem_insert he' with rfl | he'
      · exact lt_of_le_of_ne (not_lt.mp h₁) (Ne.symm h₂)
      · exact h.1 _ (List.mem_map_of_mem he')

/-- The value of a field is that of the last entry of its name. -/
theorem lookup_ofFields {key : String} {fields : List (String × Json)} :
    ((ofFields fields).asObject.map (List.lookup key)) = some (fields.reverse.lookup key) := by
  simp only [ofFields, asObject, Option.map_some, Option.some.injEq]
  induction fields using List.reverseRecOn with
  | nil => rfl
  | append_singleton fields e ih =>
    rw [List.foldl_concat, lookup_insert, ih, List.reverse_concat]
    exact lookup_cons.symm

/-- The values the program prints. -/
inductive Canonical : Json → Prop
  | u64 (n : UInt64) : Canonical (u64 n)
  | string (s : String) : Canonical (string s)
  | array {items : List Json} : (∀ v ∈ items, Canonical v) → Canonical (array items)
  | object {entries : List (String × Json)} : (entries.map Prod.fst).Pairwise (· < ·) →
      (∀ e ∈ entries, Canonical e.2) → Canonical (object entries)

theorem canonical_ofFields {fields : List (String × Json)} (h : ∀ e ∈ fields, Canonical e.2) :
    Canonical (ofFields fields) := by
  have main : ∀ (fields es : List (String × Json)), (∀ e ∈ fields, Canonical e.2) →
      (es.map Prod.fst).Pairwise (· < ·) → (∀ e ∈ es, Canonical e.2) →
      Canonical (object (fields.foldl (fun es e => insert e es) es)) := by
    intro fields
    induction fields with
    | nil => exact fun es _ hs hes => .object hs hes
    | cons f fields ih =>
      intro es hf hs hes
      refine ih _ (fun e he => hf e (List.mem_cons_of_mem _ he)) (sorted_insert hs) fun e he => ?_
      rcases mem_insert he with rfl | he
      · exact hf _ List.mem_cons_self
      · exact hes e he
  exact main fields [] h List.Pairwise.nil (by simp)

end Json

/-- The libraries. -/
class Crates where
  blake3 : Bytes → Block 32
  toVecPretty : Json → Bytes
  fromSlice : Bytes → Option Json
  fromSlice_toVecPretty : ∀ v, v.Canonical → fromSlice (toVecPretty v) = some v

export Crates (blake3 toVecPretty fromSlice fromSlice_toVecPretty)

/-- A BLAKE3 hasher holds what it has absorbed. -/
abbrev Hasher : Type := Bytes

/-! ### Reading fields -/

/-- What every JSON document of the program is checked for. -/
inductive DocumentError where
  | json
  | rootNotObject
  | missingField (field : String)
  | invalidField (field : String)
  | unsupportedFormatVersion (version : UInt64)
  deriving DecidableEq, Repr

/-- A member of an object, under the name the errors give to it. -/
def getField {α : Type} (entries : List (String × Json)) (key field : String)
    (as : Json → Option α) : Except DocumentError α := do
  let value ← (entries.lookup key).elim (.error (.missingField field)) .ok
  (as value).elim (.error (.invalidField field)) .ok

/-- The entries of a document of the format version `version`. -/
def documentEntries [Crates] (version : UInt64) (bytes : Bytes) :
    Except DocumentError (List (String × Json)) := do
  let value ← (fromSlice bytes).elim (.error .json) .ok
  let entries ← value.asObject.elim (.error .rootNotObject) .ok
  let formatVersion ← getField entries "format_version" "format_version" Json.asU64
  refuseIf (formatVersion ≠ version) (.unsupportedFormatVersion formatVersion)
  return entries

/-- A printed document is read back with its fields. -/
theorem documentEntries_toVecPretty [Crates] (version : UInt64) (fields : List (String × Json))
    (hc : ∀ e ∈ fields, e.2.Canonical)
    (hv : fields.reverse.lookup "format_version" = some (.u64 version)) :
    ∃ entries, documentEntries version (toVecPretty (Json.ofFields fields)) = .ok entries ∧
      ∀ key, entries.lookup key = fields.reverse.lookup key := by
  have hl (key : String) : (Json.ofFields fields).asObject.map (List.lookup key) =
      some (fields.reverse.lookup key) := Json.lookup_ofFields
  rw [documentEntries, fromSlice_toVecPretty _ (Json.canonical_ofFields hc)]
  rcases he : (Json.ofFields fields).asObject with _ | entries
  · simp [he] at hl
  · simp only [he, Option.map_some, Option.some.injEq] at hl
    refine ⟨entries, ?_, hl⟩
    simp [he, getField, hl, hv, Json.asU64]

end Warpfile
