import Mathlib

/-!
# Sequential programs that may fail, crash or wait

`Prog σ ε α` is a sequential program over a state `σ`: it ends with a value, with an error,
or it does not come to an end (`Outcome.halt`: the process was killed, or it waits for a
message that never arrives). No handler sees a `halt`, so the state next to it is the state
a crash leaves behind.

`Prog.Ensures p s Q` says that `p`, run from `s`, ends in an outcome and a state related by
`Q`. Because a postcondition speaks of all three outcomes, one judgment serves for the value
of a run, for what an error leaves behind and for what a crash leaves behind. The rules below
compute it through sequencing, error handling and loops; `Prog.loop` is the one loop of the
library, and its rule (`Ensures.loop`) asks for an invariant and a measure that decreases.

`Prog.Keeps R p` says that every run of `p` relates its first state to its last by `R`,
whatever its outcome. For a reflexive and transitive `R` it is closed under everything a
program is built from.
-/

namespace Warpfile

/-! ### Results -/

section Results

variable {ε ε' α β : Type}

/-- Refuse with `e` where `c` holds. -/
def refuseIf (c : Prop) [Decidable c] (e : ε) : Except ε Unit := if c then .error e else .ok ()

@[simp]
theorem refuseIf_eq_ok {c : Prop} [Decidable c] {e : ε} {u : Unit} :
    refuseIf c e = .ok u ↔ ¬c := by
  unfold refuseIf
  split <;> simp_all

@[simp]
theorem bind_eq_ok {x : Except ε α} {f : α → Except ε β} {b : β} :
    x >>= f = .ok b ↔ ∃ a, x = .ok a ∧ f a = .ok b := by
  cases x <;> simp [Bind.bind, Except.bind]

@[simp]
theorem map_eq_ok {x : Except ε α} {f : α → β} {b : β} :
    f <$> x = .ok b ↔ ∃ a, x = .ok a ∧ f a = b := by
  cases x <;> simp [Functor.map, Except.map]

@[simp]
theorem pure_eq_ok {a b : α} : (pure a : Except ε α) = .ok b ↔ a = b := by
  simp [Pure.pure, Except.pure]

@[simp]
theorem mapError_eq_ok {x : Except ε α} {f : ε → ε'} {a : α} :
    x.mapError f = .ok a ↔ x = .ok a := by
  cases x <;> simp [Except.mapError]

end Results

/-! ### Programs -/

/-- How a run ends: with a value, with an error, or not at all. -/
inductive Outcome (ε α : Type) where
  | ok (value : α)
  | err (error : ε)
  | halt
  deriving DecidableEq, Repr

/-- A sequential program over the state `σ` with errors in `ε` and values in `α`. -/
def Prog (σ ε α : Type) : Type := σ → Outcome ε α × σ

namespace Prog

variable {σ ε ε' α β : Type}

/-- Run `p` and continue with its value; an error or a halt ends the run. -/
protected def bind (p : Prog σ ε α) (f : α → Prog σ ε β) : Prog σ ε β := fun s =>
  match p s with
  | (.ok a, s') => f a s'
  | (.err e, s') => (.err e, s')
  | (.halt, s') => (.halt, s')

instance : Monad (Prog σ ε) where
  pure a := fun s => (.ok a, s)
  bind := Prog.bind

instance : MonadExcept ε (Prog σ ε) where
  throw e := fun s => (.err e, s)
  tryCatch p h := fun s =>
    match p s with
    | (.ok a, s') => (.ok a, s')
    | (.err e, s') => h e s'
    | (.halt, s') => (.halt, s')

instance : MonadStateOf σ (Prog σ ε) where
  get := fun s => (.ok s, s)
  set s := fun _ => (.ok (), s)
  modifyGet f := fun s => (.ok (f s).1, (f s).2)

/-- Hand the error of `p` to the program that runs it. -/
def attempt (p : Prog σ ε α) : Prog σ ε' (Except ε α) := fun s =>
  match p s with
  | (.ok a, s') => (.ok (.ok a), s')
  | (.err e, s') => (.ok (.error e), s')
  | (.halt, s') => (.halt, s')

/-- Translate the error of `p`. -/
def mapErr (p : Prog σ ε α) (f : ε → ε') : Prog σ ε' α := fun s =>
  match p s with
  | (.ok a, s') => (.ok a, s')
  | (.err e, s') => (.err (f e), s')
  | (.halt, s') => (.halt, s')

/-- A run that never ends. -/
def stop : Prog σ ε α := fun s => (.halt, s)

/-- A result that is already there. -/
def ofExcept : Except ε α → Prog σ ε α
  | .ok a => pure a
  | .error e => throw e

/-- Repeat `body` at most `n` times, until it returns a `Sum.inr`. -/
def iterate (body : β → Prog σ ε (β ⊕ α)) : ℕ → β → Prog σ ε α
  | 0, _ => stop
  | n + 1, b => body b >>= Sum.elim (iterate body n) pure

/-- Repeat `body` until it returns a `Sum.inr`. Every repetition lowers `measure`
(`Ensures.loop` asks for it), so its value at the start bounds their number. -/
def loop (measure : β → σ → ℕ) (body : β → Prog σ ε (β ⊕ α)) (b : β) : Prog σ ε α := fun s =>
  iterate body (measure b s + 1) b s

/-! ### Postconditions -/

/-- `p`, run from `s`, ends in an outcome and a state related by `Q`. -/
def Ensures (p : Prog σ ε α) (s : σ) (Q : Outcome ε α → σ → Prop) : Prop := Q (p s).1 (p s).2

/-- The postcondition with one part for each outcome. -/
def Post (ok : α → σ → Prop) (err : ε → σ → Prop) (halt : σ → Prop) : Outcome ε α → σ → Prop
  | .ok a, s => ok a s
  | .err e, s => err e s
  | .halt, s => halt s

section

variable {p : Prog σ ε α} {s : σ} {Q R : Outcome ε α → σ → Prop}

@[simp]
theorem post_ok {ok : α → σ → Prop} {err : ε → σ → Prop} {halt : σ → Prop} {a : α} :
    Post ok err halt (.ok a) s = ok a s := rfl

@[simp]
theorem post_err {ok : α → σ → Prop} {err : ε → σ → Prop} {halt : σ → Prop} {e : ε} :
    Post ok err halt (.err e) s = err e s := rfl

@[simp]
theorem post_halt {ok : α → σ → Prop} {err : ε → σ → Prop} {halt : σ → Prop} :
    Post ok err halt (.halt : Outcome ε α) s = halt s := rfl

theorem Ensures.mono (h : p.Ensures s R) (hRQ : ∀ o t, R o t → Q o t) : p.Ensures s Q :=
  hRQ _ _ h

/-- Where the run can neither fail nor halt, it succeeds. -/
theorem Ensures.succeeds {S : α → σ → Prop} {E : ε → σ → Prop} {H : σ → Prop}
    (h : p.Ensures s (Post S E H)) (hE : ∀ e t, ¬E e t) (hH : ∀ t, ¬H t) :
    p.Ensures s (Post S (fun _ _ => False) fun _ => False) := h.mono fun o t h => by
  cases o with
  | ok => exact h
  | err => exact hE _ _ h
  | halt => exact hH _ h

theorem ensures_congr (h : ∀ o t, Q o t ↔ R o t) : p.Ensures s Q ↔ p.Ensures s R := h _ _

theorem Ensures.and (h : p.Ensures s Q) (h' : p.Ensures s R) :
    p.Ensures s fun o t => Q o t ∧ R o t := ⟨h, h'⟩

/-- A run whose result is known ensures what holds of that result. -/
theorem ensures_of_eq {o : Outcome ε α} {t : σ} (h : p s = (o, t)) (hQ : Q o t) :
    p.Ensures s Q := by
  rw [Ensures, h]
  exact hQ

/-- What every postcondition of a program tells is told by its run. -/
theorem Ensures.run_eq {o : Outcome ε α} {t : σ} (h : p.Ensures s fun o' t' => o' = o ∧ t' = t) :
    p s = (o, t) := Prod.ext h.1 h.2

theorem Ensures.apply (h : p.Ensures s Q) : Q (p s).1 (p s).2 := h

/-- What a program ensures holds of the result of its run. -/
theorem Ensures.of_eq {o : Outcome ε α} {t : σ} (h : p.Ensures s Q) (hp : p s = (o, t)) :
    Q o t := by
  rw [Ensures, hp] at h
  exact h

end

section Rules

variable {s : σ}

@[simp]
theorem ensures_pure {a : α} {Q : Outcome ε α → σ → Prop} :
    (pure a : Prog σ ε α).Ensures s Q ↔ Q (.ok a) s := Iff.rfl

@[simp]
theorem ensures_throw {e : ε} {Q : Outcome ε α → σ → Prop} :
    (throw e : Prog σ ε α).Ensures s Q ↔ Q (.err e) s := Iff.rfl

@[simp]
theorem ensures_stop {Q : Outcome ε α → σ → Prop} :
    (stop : Prog σ ε α).Ensures s Q ↔ Q .halt s := Iff.rfl

@[simp]
theorem ensures_get {Q : Outcome ε σ → σ → Prop} :
    (get : Prog σ ε σ).Ensures s Q ↔ Q (.ok s) s := Iff.rfl

@[simp]
theorem ensures_modify {f : σ → σ} {Q : Outcome ε PUnit → σ → Prop} :
    (modify f : Prog σ ε PUnit).Ensures s Q ↔ Q (.ok ()) (f s) := Iff.rfl

@[simp]
theorem ensures_bind {p : Prog σ ε α} {f : α → Prog σ ε β} {Q : Outcome ε β → σ → Prop} :
    (p >>= f).Ensures s Q ↔ p.Ensures s
      (Post (fun a t => (f a).Ensures t Q) (fun e t => Q (.err e) t) (fun t => Q .halt t)) := by
  change Q (Prog.bind p f s).1 (Prog.bind p f s).2 ↔ Post _ _ _ (p s).1 (p s).2
  unfold Prog.bind
  rcases p s with ⟨_ | _ | _, t⟩ <;> rfl

@[simp]
theorem ensures_map {p : Prog σ ε α} {f : α → β} {Q : Outcome ε β → σ → Prop} :
    (f <$> p).Ensures s Q ↔ p.Ensures s
      (Post (fun a t => Q (.ok (f a)) t) (fun e t => Q (.err e) t) (fun t => Q .halt t)) :=
  ensures_bind

@[simp]
theorem ensures_attempt {p : Prog σ ε α} {Q : Outcome ε' (Except ε α) → σ → Prop} :
    (p.attempt : Prog σ ε' _).Ensures s Q ↔ p.Ensures s
      (Post (fun a t => Q (.ok (.ok a)) t) (fun e t => Q (.ok (.error e)) t)
        (fun t => Q .halt t)) := by
  unfold Ensures attempt
  rcases p s with ⟨_ | _ | _, t⟩ <;> rfl

@[simp]
theorem ensures_mapErr {p : Prog σ ε α} {f : ε → ε'} {Q : Outcome ε' α → σ → Prop} :
    (p.mapErr f).Ensures s Q ↔ p.Ensures s
      (Post (fun a t => Q (.ok a) t) (fun e t => Q (.err (f e)) t) (fun t => Q .halt t)) := by
  unfold Ensures mapErr
  rcases p s with ⟨_ | _ | _, t⟩ <;> rfl

theorem ensures_ofExcept {r : Except ε α} {Q : Outcome ε α → σ → Prop} :
    (ofExcept r : Prog σ ε α).Ensures s Q ↔
      match r with | .ok a => Q (.ok a) s | .error e => Q (.err e) s := by
  cases r <;> rfl

/-- Sequencing through a postcondition `R` of the first program. -/
theorem Ensures.bind {p : Prog σ ε α} {f : α → Prog σ ε β} {R : Outcome ε α → σ → Prop}
    {Q : Outcome ε β → σ → Prop} (hp : p.Ensures s R)
    (ok : ∀ a t, R (.ok a) t → (f a).Ensures t Q) (err : ∀ e t, R (.err e) t → Q (.err e) t)
    (halt : ∀ t, R .halt t → Q .halt t) : (p >>= f).Ensures s Q := by
  rw [ensures_bind]
  refine hp.mono fun o t h => ?_
  cases o with
  | ok a => exact ok a t h
  | err e => exact err e t h
  | halt => exact halt t h

/-- Sequencing after a program whose error is translated. -/
theorem Ensures.bind_mapErr {p : Prog σ ε α} {g : ε → ε'} {f : α → Prog σ ε' β}
    {R : Outcome ε α → σ → Prop} {Q : Outcome ε' β → σ → Prop} (hp : p.Ensures s R)
    (ok : ∀ a t, R (.ok a) t → (f a).Ensures t Q) (err : ∀ e t, R (.err e) t → Q (.err (g e)) t)
    (halt : ∀ t, R .halt t → Q .halt t) : (p.mapErr g >>= f).Ensures s Q := by
  rw [ensures_bind, ensures_mapErr]
  refine hp.mono fun o t h => ?_
  cases o with
  | ok a => exact ok a t h
  | err e => exact err e t h
  | halt => exact halt t h

/-- Sequencing after an attempt: the continuation sees the value or the error. -/
theorem Ensures.bind_attempt {p : Prog σ ε α} {f : Except ε α → Prog σ ε' β}
    {R : Outcome ε α → σ → Prop} {Q : Outcome ε' β → σ → Prop} (hp : p.Ensures s R)
    (ok : ∀ a t, R (.ok a) t → (f (.ok a)).Ensures t Q)
    (err : ∀ e t, R (.err e) t → (f (.error e)).Ensures t Q)
    (halt : ∀ t, R .halt t → Q .halt t) : (p.attempt >>= f).Ensures s Q := by
  rw [ensures_bind, ensures_attempt]
  refine hp.mono fun o t h => ?_
  cases o with
  | ok a => exact ok a t h
  | err e => exact err e t h
  | halt => exact halt t h

/-- **The loop rule.** `I` holds at the start of every repetition, a repetition that asks for
another one lowers `measure`, and a repetition that ends the loop, by a value, an error or a
halt, ensures `Q`. -/
theorem Ensures.loop {measure : β → σ → ℕ} {body : β → Prog σ ε (β ⊕ α)}
    {Q : Outcome ε α → σ → Prop} (I : β → σ → Prop)
    (hbody : ∀ b t, I b t → (body b).Ensures t
      (Post (fun r t' => Sum.elim (fun b' => I b' t' ∧ measure b' t' < measure b t)
        (fun a => Q (.ok a) t') r) (fun e t' => Q (.err e) t') (fun t' => Q .halt t')))
    {b : β} (h : I b s) : (Prog.loop measure body b).Ensures s Q := by
  have main : ∀ n b t, I b t → measure b t < n → (iterate body n b).Ensures t Q := by
    intro n
    induction n with
    | zero => intro b t _ hn; exact absurd hn (Nat.not_lt_zero _)
    | succ n ih =>
      intro b t hI hn
      refine Ensures.bind (hbody b t hI) (fun r t' hr => ?_) (fun e t' he => he)
        (fun t' ht => ht)
      cases r with
      | inl b' => exact ih b' t' hr.1 (Nat.lt_of_lt_of_le hr.2 (Nat.le_of_lt_succ hn))
      | inr a => exact hr
  exact main _ b s h (Nat.lt_succ_self _)

end Rules

/-! ### Runs that return a value -/

/-- The run of `p` from `s` returns `a`, in the state `t`. -/
def Returns (p : Prog σ ε α) (s : σ) (a : α) (t : σ) : Prop := p s = (.ok a, t)

section Returns

variable {p : Prog σ ε α} {s t : σ} {a b : α}

/-- What a program ensures holds of what it returns. -/
theorem Ensures.of_returns {Q : Outcome ε α → σ → Prop} (h : p.Ensures s Q)
    (hp : p.Returns s a t) : Q (.ok a) t := h.of_eq hp

/-- What every returned value is known to satisfy, as a postcondition. -/
theorem ensures_of_returns {S : α → σ → Prop} (h : ∀ a t, p.Returns s a t → S a t) :
    p.Ensures s (Post S (fun _ _ => True) fun _ => True) := by
  rcases hrun : p s with ⟨_ | _ | _, t⟩
  · exact ensures_of_eq hrun (h _ t hrun)
  · exact ensures_of_eq hrun trivial
  · exact ensures_of_eq hrun trivial

@[simp]
theorem returns_pure : (pure a : Prog σ ε α).Returns s b t ↔ a = b ∧ s = t := by
  change ((Outcome.ok a : Outcome ε α), s) = (.ok b, t) ↔ a = b ∧ s = t
  simp

@[simp]
theorem not_returns_throw {e : ε} : ¬(throw e : Prog σ ε α).Returns s a t := fun h =>
  nomatch (Prod.mk.inj (show ((Outcome.err e : Outcome ε α), s) = (.ok a, t) from h)).1

/-- A sequence returns by way of what its first program returns. -/
theorem returns_bind {f : α → Prog σ ε β} {c : β} :
    (p >>= f).Returns s c t ↔ ∃ a s', p.Returns s a s' ∧ (f a).Returns s' c t := by
  change Prog.bind p f s = (.ok c, t) ↔ ∃ a s', p s = (.ok a, s') ∧ f a s' = (.ok c, t)
  unfold Prog.bind
  rcases p s with ⟨_ | _ | _, s'⟩ <;> simp

/-- A check that the run has passed. -/
theorem returns_check {c : Prop} [Decidable c] {e : ε} {k : PUnit → Prog σ ε α} :
    (if c then throw e >>= k else k ⟨⟩).Returns s a t ↔ ¬c ∧ (k ⟨⟩).Returns s a t := by
  split
  · rename_i hc
    refine iff_of_false (fun h => ?_) fun h => h.1 hc
    obtain ⟨_, _, h, -⟩ := returns_bind.mp h
    exact not_returns_throw h
  · rename_i hc
    exact ⟨fun h => ⟨hc, h⟩, fun h => h.2⟩

@[simp]
theorem returns_mapErr {g : ε → ε'} : (p.mapErr g).Returns s a t ↔ p.Returns s a t := by
  unfold Returns mapErr
  rcases p s with ⟨_ | _ | _, s'⟩ <;> simp

theorem returns_attempt {r : Except ε α} :
    (p.attempt : Prog σ ε' _).Returns s r t ↔
      match r with | .ok a => p.Returns s a t | .error e => p s = (.err e, t) := by
  unfold Returns attempt
  rcases p s with ⟨_ | _ | _, s'⟩ <;> rcases r with _ | _ <;> simp

@[simp]
theorem returns_ofExcept {r : Except ε α} :
    (ofExcept r : Prog σ ε α).Returns s a t ↔ r = .ok a ∧ s = t := by
  cases r with
  | error e => simp [ofExcept]
  | ok b => simp [ofExcept]

end Returns

/-! ### What every run keeps -/

/-- Every run of `p` relates its first state to its last by `R`. -/
def Keeps (R : σ → σ → Prop) (p : Prog σ ε α) : Prop := ∀ s, p.Ensures s fun _ t => R s t

section Keeps

variable {R : σ → σ → Prop} {p : Prog σ ε α}

theorem Keeps.pure [Std.Refl R] (a : α) : (pure a : Prog σ ε α).Keeps R :=
  fun s => Std.Refl.refl s

theorem Keeps.throw [Std.Refl R] (e : ε) : (throw e : Prog σ ε α).Keeps R :=
  fun s => Std.Refl.refl s

theorem Keeps.stop [Std.Refl R] : (stop : Prog σ ε α).Keeps R := fun s => Std.Refl.refl s

theorem Keeps.bind [IsTrans σ R] {f : α → Prog σ ε β} (hp : p.Keeps R)
    (hf : ∀ a, (f a).Keeps R) : (p >>= f).Keeps R := fun s =>
  Ensures.bind (hp s) (fun a t h => (hf a t).mono fun _ _ h' => IsTrans.trans _ _ _ h h')
    (fun _ _ h => h) fun _ h => h

theorem Keeps.attempt (hp : p.Keeps R) : (p.attempt : Prog σ ε' _).Keeps R := fun s => by
  rw [ensures_attempt]
  refine (hp s).mono fun o t h => ?_
  cases o <;> exact h

theorem Keeps.mapErr (hp : p.Keeps R) (f : ε → ε') : (p.mapErr f).Keeps R := fun s => by
  rw [ensures_mapErr]
  refine (hp s).mono fun o t h => ?_
  cases o <;> exact h

theorem Keeps.ofExcept [Std.Refl R] (r : Except ε α) :
    (ofExcept r : Prog σ ε α).Keeps R := by
  cases r with
  | ok a => exact Keeps.pure a
  | error e => exact Keeps.throw e

/-- Something that is done only where `c` holds. -/
theorem Keeps.guard [IsTrans σ R] {c : Prop} [Decidable c] {p : Prog σ ε PUnit}
    {k : PUnit → Prog σ ε α} (hp : p.Keeps R) (hk : (k ⟨⟩).Keeps R) :
    (if c then p >>= k else k ⟨⟩).Keeps R := by
  split
  · exact hp.bind fun _ => hk
  · exact hk

/-- A check. -/
theorem Keeps.check [Std.Refl R] [IsTrans σ R] {c : Prop} [Decidable c] {e : ε}
    {k : PUnit → Prog σ ε α} (hk : (k ⟨⟩).Keeps R) :
    (if c then MonadExcept.throw e >>= k else k ⟨⟩).Keeps R := Keeps.guard (Keeps.throw e) hk

theorem Keeps.loop [Std.Refl R] [IsTrans σ R] {measure : β → σ → ℕ}
    {body : β → Prog σ ε (β ⊕ α)} (hbody : ∀ b, (body b).Keeps R) (b : β) :
    (Prog.loop measure body b).Keeps R := by
  have main : ∀ n b, (iterate body n b).Keeps R := by
    intro n
    induction n with
    | zero => exact fun _ => Keeps.stop
    | succ n ih =>
      refine fun b => Keeps.bind (hbody b) fun r => ?_
      cases r with
      | inl b' => exact ih b'
      | inr a => exact Keeps.pure a
  exact fun s => main _ b s

end Keeps

-- from here on, a goal `p.Ensures s Q` is not to be computed by running `p`
attribute [irreducible] Ensures

end Prog

end Warpfile
