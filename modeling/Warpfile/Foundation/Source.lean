import Warpfile.Foundation.World

/-!
# Reading from a stream, piece by piece

A stream gives what the other end has sent, in pieces: one read returns no more than one piece,
and no more than the buffer holds. `Source` lists the pieces to come; a read may also fail, and at
the end of the list it returns no bytes, as often as it is repeated.

`fill n` reads until a buffer of `n` bytes is full or the end is reached. How the bytes are
divided into pieces does not show in its result, unless a read fails.
-/

namespace Warpfile

/-- What is to come on a stream: pieces, and reads that fail. -/
abbrev Source : Type := List (Except IoError { bs : Bytes // bs ≠ [] })

namespace Source

/-- The bytes to come. -/
def bytes (s : Source) : Bytes := s.flatMap fun
  | .ok bs => bs.1
  | .error _ => []

/-- No read fails. -/
def Calm (s : Source) : Prop := ∀ piece ∈ s, ∃ bs, piece = .ok bs

/-- One read into a buffer of `n` bytes. -/
def read (n : ℕ) : Prog Source IoError Bytes := fun s =>
  match s with
  | [] => (.ok [], [])
  | .error e :: rest => (.err e, rest)
  | .ok bs :: rest =>
    (.ok (bs.1.take n), if h : bs.1.drop n = [] then rest else .ok ⟨bs.1.drop n, h⟩ :: rest)

/-- Read until a buffer of `n` bytes is full, or to the end. -/
def fill (n : ℕ) : Prog Source IoError Bytes :=
  .loop (fun buffer _ => n - buffer.length) (fun buffer =>
    if buffer.length < n then do
      let bs ← read (n - buffer.length)
      if bs = [] then return .inr buffer else return .inl (buffer ++ bs)
    else return .inr buffer) []

/-- Read exactly `n` bytes. -/
def readExact (n : ℕ) : Prog Source IoError Bytes := do
  let bs ← fill n
  if bs.length < n then throw (.os .unexpectedEof) else return bs

/-! ### What a read returns -/

variable {s s' : Source} {bs : { bs : Bytes // bs ≠ [] }} {e : IoError}

@[simp]
theorem bytes_nil : bytes [] = [] := rfl

@[simp]
theorem bytes_ok : bytes (.ok bs :: s) = bs.1 ++ s.bytes := rfl

@[simp]
theorem bytes_error : bytes (.error e :: s) = s.bytes := rfl

@[simp]
theorem bytes_append : bytes (s ++ s') = s.bytes ++ s'.bytes := List.flatMap_append

theorem calm_nil : Calm [] := by simp [Calm]

@[simp]
theorem calm_cons {piece : Except IoError { bs : Bytes // bs ≠ [] }} :
    Calm (piece :: s) ↔ (∃ bs, piece = .ok bs) ∧ s.Calm := by simp [Calm]

@[simp]
theorem calm_append : Calm (s ++ s') ↔ s.Calm ∧ s'.Calm := by
  simp only [Calm, List.mem_append, or_imp, forall_and]

/-- A source without bytes on which no read fails is at its end. -/
theorem Calm.eq_nil (h : s.Calm) (hb : s.bytes = []) : s = [] := by
  cases s with
  | nil => rfl
  | cons piece rest =>
    obtain ⟨⟨bs, rfl⟩, -⟩ := calm_cons.mp h
    exact absurd (List.append_eq_nil_iff.mp hb).1 bs.2

/-- The pieces of a byte string. -/
def ofFragments (fragments : List { bs : Bytes // bs ≠ [] }) : Source := fragments.map .ok

theorem calm_ofFragments {fragments : List { bs : Bytes // bs ≠ [] }} :
    (ofFragments fragments).Calm := by
  intro piece hp
  obtain ⟨bs, -, rfl⟩ := List.mem_map.mp hp
  exact ⟨bs, rfl⟩

open Prog

/-- **The rule for a read.** -/
theorem ensures_read {n : ℕ} {Q : Outcome IoError Bytes → Source → Prop}
    (eof : s = [] → Q (.ok []) [])
    (piece : ∀ bs rest, s = .ok bs :: rest → bs.1.length ≤ n → Q (.ok bs.1) rest)
    (cut : ∀ bs rest (h : bs.1.drop n ≠ []), s = .ok bs :: rest → (bs.1.take n).length = n →
      Q (.ok (bs.1.take n)) (.ok ⟨bs.1.drop n, h⟩ :: rest))
    (error : ∀ e rest, s = .error e :: rest → Q (.err e) rest) : (read n).Ensures s Q := by
  rcases s with _ | ⟨e | bs, rest⟩
  · exact ensures_of_eq rfl (eof rfl)
  · exact ensures_of_eq rfl (error e rest rfl)
  · by_cases h : bs.1.drop n = []
    · have hle : bs.1.length ≤ n := List.drop_eq_nil_iff.mp h
      refine ensures_of_eq (o := .ok bs.1) (t := rest) ?_ (piece bs rest rfl hle)
      simp [read, h, List.take_of_length_le hle]
    · have hle : n ≤ bs.1.length := le_of_not_ge fun hle => h (List.drop_eq_nil_iff.mpr hle)
      exact ensures_of_eq (by simp [read, h]) (cut bs rest h rfl (by simp [hle]))

/-- Reading took the bytes `bs`: whole pieces, and of the last one maybe only a part. -/
def Took (s : Source) (bs : Bytes) (s' : Source) : Prop :=
  ∃ taken left rest : Source, s = taken ++ rest ∧ s' = left ++ rest ∧ taken.Calm ∧ left.Calm ∧
    taken.bytes = bs ++ left.bytes

variable {buffer : Bytes}

theorem Took.bytes_eq (h : s.Took buffer s') : s.bytes = buffer ++ s'.bytes := by
  obtain ⟨taken, left, rest, rfl, rfl, -, -, hb⟩ := h
  simp [hb]

theorem Took.calm (h : s.Took buffer s') (hs : s.Calm) : s'.Calm := by
  obtain ⟨taken, left, rest, rfl, rfl, -, hl, -⟩ := h
  exact calm_append.mpr ⟨hl, (calm_append.mp hs).2⟩

/-- Nothing is taken across a read that fails. -/
theorem Took.of_error {before after : Source} {e : IoError} (h : s.Took buffer s')
    (hs : s = before ++ .error e :: after) (hcalm : before.Calm) :
    ∃ left : Source, s' = left ++ .error e :: after ∧ left.Calm ∧
      before.bytes = buffer ++ left.bytes := by
  obtain ⟨taken, left, rest, rfl, rfl, htaken, hleft, hb⟩ := h
  rcases List.append_eq_append_iff.mp hs with ⟨x, rfl, rfl⟩ | ⟨x, rfl, hx⟩
  · exact ⟨left ++ x, by simp, calm_append.mpr ⟨hleft, (calm_append.mp hcalm).2⟩, by simp [hb]⟩
  · rcases x with _ | ⟨piece, x⟩
    · rw [List.nil_append] at hx
      exact ⟨left, by rw [hx], hleft, by simpa using hb⟩
    · rw [List.cons_append, List.cons.injEq] at hx
      obtain ⟨⟨_, hp⟩, -⟩ := calm_cons.mp (calm_append.mp htaken).2
      exact nomatch hx.1.trans hp

theorem Took.trans {s'' : Source} {bs : Bytes} (h : s.Took buffer s') (h' : s'.Took bs s'') :
    s.Took (buffer ++ bs) s'' := by
  obtain ⟨taken, left, rest, rfl, rfl, htaken, hleft, hb⟩ := h
  obtain ⟨taken', left', rest', heq, rfl, htaken', hleft', hb'⟩ := h'
  rcases List.append_eq_append_iff.mp heq with ⟨x, rfl, rfl⟩ | ⟨x, rfl, rfl⟩
  · refine ⟨taken ++ x, left', rest', by simp, rfl, ?_, hleft', ?_⟩
    · exact calm_append.mpr ⟨htaken, (calm_append.mp htaken').2⟩
    · rw [bytes_append, hb, List.append_assoc, ← bytes_append, hb', List.append_assoc]
  · refine ⟨taken, left' ++ x, rest, rfl, by simp, htaken, ?_, by simp [hb, hb']⟩
    exact calm_append.mpr ⟨hleft', (calm_append.mp hleft).2⟩

/-- A source is calm, or it has a first read that fails. -/
theorem calm_or_error (s : Source) :
    s.Calm ∨ ∃ (before : Source) (e : IoError) (after : Source),
      s = before ++ .error e :: after ∧ before.Calm := by
  induction s with
  | nil => exact .inl calm_nil
  | cons piece rest ih =>
    cases piece with
    | error e => exact .inr ⟨[], e, rest, rfl, calm_nil⟩
    | ok bs =>
      rcases ih with h | ⟨before, e, after, rfl, h⟩
      · exact .inl (calm_cons.mpr ⟨⟨bs, rfl⟩, h⟩)
      · exact .inr ⟨.ok bs :: before, e, after, rfl, calm_cons.mpr ⟨⟨bs, rfl⟩, h⟩⟩

/-- The first read that fails is determined. -/
theorem Calm.error_inj {before before' after after' : Source} {e e' : IoError}
    (h : before.Calm) (h' : before'.Calm)
    (heq : before ++ .error e :: after = before' ++ .error e' :: after') :
    before = before' ∧ after = after' := by
  have one {a b c d : Source} {e e' : IoError} (ha : (a ++ b).Calm)
      (hx : .error e :: c = b ++ .error e' :: d) : b = [] ∧ c = d := by
    rcases b with _ | ⟨piece, b⟩
    · rw [List.nil_append, List.cons.injEq] at hx
      exact ⟨rfl, hx.2⟩
    · rw [List.cons_append, List.cons.injEq] at hx
      obtain ⟨⟨_, hp⟩, -⟩ := calm_cons.mp (calm_append.mp ha).2
      exact nomatch hx.1.trans hp
  rcases List.append_eq_append_iff.mp heq with ⟨x, rfl, hx⟩ | ⟨x, rfl, hx⟩
  · obtain ⟨rfl, rfl⟩ := one h' hx
    exact ⟨(List.append_nil _).symm, rfl⟩
  · obtain ⟨rfl, rfl⟩ := one h hx
    exact ⟨List.append_nil _, rfl⟩

/-- A stretch of reads that succeed lies before a read that fails, or after it. -/
theorem Calm.infix_error {stretch before after : Source} {e : IoError} (h : stretch.Calm)
    (hs : stretch <:+: before ++ .error e :: after) : stretch <:+: before ∨ stretch <:+: after := by
  obtain ⟨x, y, hxy⟩ := hs
  rw [List.append_assoc] at hxy
  rcases List.append_eq_append_iff.mp hxy with ⟨z, rfl, hz⟩ | ⟨z, rfl, hz⟩
  · rcases List.append_eq_append_iff.mp hz with ⟨w, rfl, -⟩ | ⟨w, rfl, hw⟩
    · exact .inl ⟨x, w, by simp⟩
    · rcases w with _ | ⟨piece, w⟩
      · exact .inl ⟨x, [], by simp⟩
      · rw [List.cons_append, List.cons.injEq] at hw
        obtain ⟨⟨_, hp⟩, -⟩ := calm_cons.mp (calm_append.mp h).2
        exact nomatch hw.1.trans hp
  · rcases z with _ | ⟨piece, z⟩
    · rcases stretch with _ | ⟨piece, stretch⟩
      · exact .inl List.nil_infix
      · rw [List.nil_append, List.cons_append, List.cons.injEq] at hz
        obtain ⟨⟨_, hp⟩, -⟩ := calm_cons.mp h
        exact nomatch hz.1.trans hp
    · rw [List.cons_append, List.cons.injEq] at hz
      exact .inr ⟨z, y, by rw [hz.2]; simp⟩

theorem length_bytes_le {stretch : Source} (h : stretch <:+: s) :
    stretch.bytes.length ≤ s.bytes.length := by
  obtain ⟨x, y, rfl⟩ := h
  simp only [bytes_append, List.length_append]
  omega

/-- How many reads fail. -/
def failures (s : Source) : ℕ := s.countP fun
  | .ok _ => false
  | .error _ => true

theorem Calm.failures_eq (h : s.Calm) : s.failures = 0 := by
  rw [failures, List.countP_eq_zero]
  intro piece hp
  obtain ⟨bs, rfl⟩ := h piece hp
  exact Bool.false_ne_true

@[simp]
theorem failures_append : failures (s ++ s') = s.failures + s'.failures := List.countP_append

@[simp]
theorem failures_error : failures (.error e :: s) = s.failures + 1 := by
  simp [failures]

theorem Took.failures_eq (h : s.Took buffer s') : s'.failures = s.failures := by
  obtain ⟨taken, left, rest, rfl, rfl, htaken, hleft, -⟩ := h
  rw [failures_append, failures_append, htaken.failures_eq, hleft.failures_eq]

/-- **The rule for filling a buffer.** What was read before an error is gone. -/
theorem fill_spec (n : ℕ) : (fill n).Ensures s (Post
    (fun bs s' => s.Took bs s' ∧ bs.length ≤ n ∧ (bs.length < n → s' = []))
    (fun e s' => ∃ lost : Source, lost.Calm ∧ lost.bytes.length < n ∧ s = lost ++ .error e :: s')
    fun _ => False) := by
  refine Ensures.loop (I := fun buffer t => buffer.length ≤ n ∧
      ((∃ taken : Source, s = taken ++ t ∧ taken.Calm ∧ taken.bytes = buffer) ∨
        buffer.length = n ∧ s.Took buffer t))
    (fun buffer t hI => ?_) ⟨Nat.zero_le n, .inl ⟨[], rfl, calm_nil, rfl⟩⟩
  obtain ⟨hle, hI⟩ := hI
  by_cases hlt : buffer.length < n
  · obtain ⟨taken, rfl, hcalm, rfl⟩ := hI.resolve_right fun h => absurd h.1 hlt.ne
    rw [if_pos hlt]
    have more (bs : { bs : Bytes // bs ≠ [] }) : (taken ++ [.ok bs] : Source).Calm :=
      calm_append.mpr ⟨hcalm, calm_cons.mpr ⟨⟨_, rfl⟩, calm_nil⟩⟩
    rw [ensures_bind]
    refine ensures_read ?_ ?_ ?_ ?_
    · rintro rfl
      rw [post_ok, if_pos rfl, ensures_pure]
      exact ⟨⟨taken, [], [], rfl, rfl, hcalm, calm_nil, by simp⟩, hle, fun _ => rfl⟩
    · rintro bs rest rfl hbs
      have hpos := List.length_pos_iff.mpr bs.2
      rw [post_ok, if_neg bs.2, ensures_pure]
      refine ⟨⟨?_, .inl ⟨taken ++ [.ok bs], by simp, more bs, by simp⟩⟩, ?_⟩
      all_goals rw [List.length_append]; omega
    · rintro bs rest h rfl hbs
      have hlen : (taken.bytes ++ bs.1.take (n - taken.bytes.length)).length = n := by
        rw [List.length_append, hbs]
        omega
      have hne : bs.1.take (n - taken.bytes.length) ≠ [] := fun h0 => by
        rw [h0, List.append_nil] at hlen
        omega
      rw [post_ok, if_neg hne, ensures_pure]
      refine ⟨⟨hlen.le, .inr ⟨hlen, taken ++ [.ok bs], [.ok ⟨_, h⟩], rest, by simp, rfl, more bs,
        calm_cons.mpr ⟨⟨_, rfl⟩, calm_nil⟩, ?_⟩⟩, by omega⟩
      simp
    · rintro e rest rfl
      exact ⟨taken, hcalm, hlt, rfl⟩
  · rw [if_neg hlt, ensures_pure]
    rcases hI with ⟨taken, rfl, hcalm, rfl⟩ | ⟨hn, htook⟩
    · exact ⟨⟨taken, [], t, rfl, rfl, hcalm, calm_nil, by simp⟩, hle, fun h => absurd h hlt⟩
    · exact ⟨htook, hle, fun h => absurd h hlt⟩

/-- Reading exactly `n` bytes where no read fails. -/
theorem readExact_spec {n : ℕ} (h : s.Calm) : (readExact n).Ensures s (Post
    (fun bs s' => n ≤ s.bytes.length ∧ bs = s.bytes.take n ∧ s'.bytes = s.bytes.drop n ∧ s'.Calm)
    (fun e s' => s.bytes.length < n ∧ e = .os .unexpectedEof ∧ s' = [])
    fun _ => False) := by
  refine Ensures.bind (fill_spec n) (fun bs s' hbs => ?_) (fun e s' he => ?_) fun _ h => h
  · obtain ⟨htook, hle, heof⟩ := hbs
    have hb := htook.bytes_eq
    by_cases hlt : bs.length < n
    · obtain rfl := heof hlt
      rw [if_pos hlt, ensures_throw]
      rw [bytes_nil, List.append_nil] at hb
      exact ⟨by rwa [hb], rfl, rfl⟩
    · obtain rfl : bs.length = n := le_antisymm hle (not_lt.mp hlt)
      rw [if_neg hlt, ensures_pure]
      exact ⟨by simp [hb], by simp [hb], by simp [hb], htook.calm h⟩
  · obtain ⟨lost, -, -, rfl⟩ := he
    simp at h

end Source

end Warpfile
