import Mathlib.Data.List.Basic

/-!
# Binary search

`binarySearchBy f xs` searches for an element that `f` compares as equal, in a list whose elements
before it compare as less and those after it as greater. It returns the position of the element, or
the position where it would have to be inserted. The search halves the part of the list it looks
at, as that of the standard library of Rust does.
-/

namespace Warpfile

variable {α : Type} {f : α → Ordering} {xs : List α}

/-- Halve `size` elements from `base` on until one is left. -/
def searchBase (f : α → Ordering) (xs : List α) (size base : ℕ) : ℕ :=
  if size > 1 then
    let half := size / 2
    let mid := base + half
    searchBase f xs (size - half) (if xs[mid]?.map f = some .gt then base else mid)
  else base
termination_by size

def binarySearchBy (f : α → Ordering) (xs : List α) : Except ℕ ℕ :=
  if xs = [] then .error 0
  else
    let base := searchBase f xs xs.length 0
    match xs[base]?.map f with
    | some .eq => .ok base
    | some .lt => .error (base + 1)
    | _ => .error base

/-- At most one element compares as equal, those before it as less, those after it as greater. -/
def Searchable (f : α → Ordering) (xs : List α) : Prop :=
  xs.Pairwise fun x y => f x = .lt ∨ f y = .gt

/-- The last element that is not greater, if any is not, else the first. -/
structure IsBase (f : α → Ordering) (xs : List α) (size base : ℕ) : Prop where
  le : base + size ≤ xs.length
  pos : 0 < size
  after : ∀ i x, xs[i]? = some x → base + size ≤ i → f x = .gt
  here : base = 0 ∨ ∀ x, xs[base]? = some x → f x ≠ .gt

/-- What stands after a greater element is greater. -/
theorem Searchable.gt_of_lt (hs : Searchable f xs) {i j : ℕ} {x y : α} (hi : xs[i]? = some x)
    (hj : xs[j]? = some y) (hij : i < j) : f x = .lt ∨ f y = .gt := by
  obtain ⟨hi', rfl⟩ := List.getElem?_eq_some_iff.mp hi
  obtain ⟨hj', rfl⟩ := List.getElem?_eq_some_iff.mp hj
  exact List.pairwise_iff_getElem.mp hs i j hi' hj' hij

theorem searchBase_spec (hs : Searchable f xs) {size base : ℕ} (h : IsBase f xs size base) :
    IsBase f xs 1 (searchBase f xs size base) := by
  induction size, base using searchBase.induct f xs with
  | case1 size base hsize half mid ih =>
    rw [searchBase, if_pos hsize]
    refine ih ?_
    have hle := h.le
    obtain ⟨x, hx⟩ : ∃ x, xs[mid]? = some x := ⟨_, List.getElem?_eq_getElem (by omega)⟩
    by_cases hgt : f x = .gt
    · rw [dif_pos (by rw [hx, Option.map_some, hgt])]
      refine ⟨by omega, by omega, fun i y hy hi => ?_, h.here⟩
      rcases Nat.eq_or_lt_of_le (show mid ≤ i by omega) with rfl | hlt
      · rw [← Option.some.inj (hx.symm.trans hy), hgt]
      · exact (hs.gt_of_lt hx hy hlt).resolve_left (by simp [hgt])
    · rw [dif_neg (by simpa [hx] using hgt)]
      refine ⟨by omega, by omega, fun i y hy hi => h.after i y hy (by omega), .inr fun y hy => ?_⟩
      rwa [← Option.some.inj (hx.symm.trans hy)]
  | case2 size base hsize =>
    rw [searchBase, if_neg hsize]
    have := h.pos
    obtain rfl : size = 1 := by omega
    exact h

/-- **Binary search** finds the element, or the place for it. -/
theorem binarySearchBy_spec (hs : Searchable f xs) :
    match binarySearchBy f xs with
    | .ok i => ∃ l x r, xs = l ++ x :: r ∧ l.length = i ∧ f x = .eq ∧ (∀ y ∈ l, f y = .lt) ∧
        ∀ y ∈ r, f y = .gt
    | .error i => ∃ l r, xs = l ++ r ∧ l.length = i ∧ (∀ y ∈ l, f y = .lt) ∧
        ∀ y ∈ r, f y = .gt := by
  unfold binarySearchBy
  by_cases hnil : xs = []
  · rw [if_pos hnil]
    exact ⟨[], [], by simp [hnil], rfl, by simp, by simp⟩
  rw [if_neg hnil]
  have hlen := List.length_pos_iff.mpr hnil
  have hstart : IsBase f xs xs.length 0 := by
    refine ⟨by omega, hlen, fun i x hx hi => ?_, .inl rfl⟩
    obtain ⟨hlt, -⟩ := List.getElem?_eq_some_iff.mp hx
    omega
  have hbase := searchBase_spec hs hstart
  generalize searchBase f xs xs.length 0 = base at hbase ⊢
  have hlt : base < xs.length := hbase.le
  have hx : xs[base]? = some xs[base] := List.getElem?_eq_getElem hlt
  have hsplit : xs = xs.take base ++ xs[base] :: xs.drop (base + 1) := by
    rw [← List.drop_eq_getElem_cons hlt, List.take_append_drop]
  have hafter : ∀ y ∈ xs.drop (base + 1), f y = .gt := by
    intro y hy
    obtain ⟨j, hj, rfl⟩ := List.mem_iff_getElem.mp hy
    rw [List.getElem_drop]
    exact hbase.after _ _ (List.getElem?_eq_getElem _) (by omega)
  have hbefore (h : f xs[base] ≠ .gt) : ∀ y ∈ xs.take base, f y = .lt := by
    intro y hy
    obtain ⟨j, hj, rfl⟩ := List.mem_iff_getElem.mp hy
    rw [List.length_take] at hj
    rw [List.getElem_take]
    exact (hs.gt_of_lt (List.getElem?_eq_getElem _) hx (by omega)).resolve_right h
  have hlength : (xs.take base).length = base := by
    rw [List.length_take, Nat.min_eq_left (Nat.le_of_lt hlt)]
  simp only [hx, Option.map_some]
  rcases hcmp : f xs[base] with _ | _ | _
  · refine ⟨xs.take (base + 1), xs.drop (base + 1), (List.take_append_drop ..).symm, ?_, ?_, hafter⟩
    · rw [List.length_take, Nat.min_eq_left hlt]
    · intro y hy
      rw [List.take_add_one, hx, Option.toList_some, List.mem_append, List.mem_singleton] at hy
      rcases hy with hy | rfl
      · exact hbefore (by simp [hcmp]) y hy
      · exact hcmp
  · exact ⟨_, _, _, hsplit, hlength, hcmp, hbefore (by simp [hcmp]), hafter⟩
  · -- only the first element can be greater
    obtain rfl : base = 0 := hbase.here.resolve_right fun h => h _ hx hcmp
    refine ⟨[], xs, rfl, rfl, by simp, ?_⟩
    rw [hsplit]
    simpa [hcmp] using hafter

end Warpfile
