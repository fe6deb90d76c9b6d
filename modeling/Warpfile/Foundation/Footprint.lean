import Warpfile.Foundation.World

/-!
# What a program can see and touch

`Prog.Respects R V p` compares two runs of one program: from states related by `R` both return the
same, a value of which `V` holds, and end in states related by `R`. It is closed under everything a
program is built from.

A `Footprint` gives some names and some inodes to a program, and relates the disks that do not
differ for it: every system call at these names and inodes respects the relation. A program that
makes no other calls respects it too, whatever the relation is.
-/

namespace Warpfile

namespace Prog

variable {σ τ ε ε' α β : Type} {R : σ → σ → Prop} {V : α → Prop} {W : β → Prop}

/-- Two runs from related states return the same, and end in related states. -/
def Respects (R : σ → σ → Prop) (V : α → Prop) (p : Prog σ ε α) : Prop :=
  ∀ s t, R s t → (p s).1 = (p t).1 ∧ R (p s).2 (p t).2 ∧ ∀ a, (p s).1 = .ok a → V a

/-- Nothing is asked of the value. -/
abbrev Any (_ : α) : Prop := True

namespace Respects

theorem pure {a : α} (h : V a) : (pure a : Prog σ ε α).Respects R V := fun _ _ hR =>
  ⟨rfl, hR, fun _ he => Outcome.ok.inj he ▸ h⟩

theorem throw {e : ε} : (throw e : Prog σ ε α).Respects R V := fun _ _ hR =>
  ⟨rfl, hR, fun _ he => nomatch he⟩

theorem stop : (stop : Prog σ ε α).Respects R V := fun _ _ hR => ⟨rfl, hR, fun _ he => nomatch he⟩

theorem ofExcept {r : Except ε α} (h : ∀ a, r = .ok a → V a) :
    (Prog.ofExcept r).Respects R V := by
  cases r with
  | ok a => exact pure (h a rfl)
  | error e => exact throw

theorem mono {V' : α → Prop} {p : Prog σ ε α} (h : p.Respects R V) (hV : ∀ a, V a → V' a) :
    p.Respects R V' := fun s t hR =>
  ⟨(h s t hR).1, (h s t hR).2.1, fun a ha => hV a ((h s t hR).2.2 a ha)⟩

theorem any {p : Prog σ ε α} (h : p.Respects R V) : p.Respects R Any := h.mono fun _ _ => trivial

theorem bind {p : Prog σ ε α} {f : α → Prog σ ε β} (hp : p.Respects R V)
    (hf : ∀ a, V a → (f a).Respects R W) : (p >>= f).Respects R W := by
  intro s t hR
  obtain ⟨ho, hR', hV⟩ := hp s t hR
  change (Prog.bind p f s).1 = (Prog.bind p f t).1 ∧ R (Prog.bind p f s).2 (Prog.bind p f t).2 ∧
    ∀ b, (Prog.bind p f s).1 = .ok b → W b
  unfold Prog.bind
  rcases hs : p s with ⟨o, s'⟩
  rcases ht : p t with ⟨o', t'⟩
  rw [hs, ht] at ho hR'
  rw [hs] at hV
  obtain rfl : o = o' := ho
  cases o with
  | ok a => exact hf a (hV a rfl) s' t' hR'
  | err e => exact ⟨rfl, hR', fun _ he => nomatch he⟩
  | halt => exact ⟨rfl, hR', fun _ he => nomatch he⟩

/-- Something that is done only where `c` holds. -/
theorem guard {c : Prop} [Decidable c] {p : Prog σ ε PUnit} {k : PUnit → Prog σ ε β}
    (hp : c → p.Respects R Any) (hk : (k ⟨⟩).Respects R W) :
    (if c then p >>= k else k ⟨⟩).Respects R W := by
  split
  · exact (hp ‹_›).bind fun _ _ => hk
  · exact hk

theorem throw_bind {e : ε} {k : α → Prog σ ε β} : (MonadExcept.throw e >>= k).Respects R W :=
  throw.bind (V := fun _ => False) fun _ h => h.elim

/-- A check. -/
theorem check {c : Prop} [Decidable c] {e : ε} {k : PUnit → Prog σ ε β}
    (hk : (k ⟨⟩).Respects R W) :
    (if c then MonadExcept.throw e >>= k else k ⟨⟩).Respects R W :=
  guard (fun _ => throw) hk

theorem map {p : Prog σ ε α} {f : α → β} (hp : p.Respects R V) (hf : ∀ a, V a → W (f a)) :
    (f <$> p).Respects R W := hp.bind fun a ha => pure (hf a ha)

theorem attempt {p : Prog σ ε α} (hp : p.Respects R V) :
    (p.attempt : Prog σ ε' _).Respects R fun r => ∀ a, r = .ok a → V a := by
  intro s t hR
  obtain ⟨ho, hR', hV⟩ := hp s t hR
  unfold Prog.attempt
  rcases hs : p s with ⟨o, s'⟩
  rcases ht : p t with ⟨o', t'⟩
  rw [hs, ht] at ho hR'
  rw [hs] at hV
  obtain rfl : o = o' := ho
  cases o with
  | ok a => exact ⟨rfl, hR', fun r hr b hb => by
      obtain rfl := Outcome.ok.inj hr
      exact Except.ok.inj hb ▸ hV a rfl⟩
  | err e => exact ⟨rfl, hR', fun r hr b hb => by
      obtain rfl := Outcome.ok.inj hr
      exact nomatch hb⟩
  | halt => exact ⟨rfl, hR', fun _ he => nomatch he⟩

theorem mapErr {p : Prog σ ε α} {f : ε → ε'} (hp : p.Respects R V) : (p.mapErr f).Respects R V := by
  intro s t hR
  obtain ⟨ho, hR', hV⟩ := hp s t hR
  unfold Prog.mapErr
  rcases hs : p s with ⟨o, s'⟩
  rcases ht : p t with ⟨o', t'⟩
  rw [hs, ht] at ho hR'
  rw [hs] at hV
  obtain rfl : o = o' := ho
  cases o with
  | ok a => exact ⟨rfl, hR', fun _ he => Outcome.ok.inj he ▸ hV a rfl⟩
  | err e => exact ⟨rfl, hR', fun _ he => nomatch he⟩
  | halt => exact ⟨rfl, hR', fun _ he => nomatch he⟩

theorem get {f : σ → Prog σ ε β} (hf : ∀ s t, R s t → f s = f t)
    (h : ∀ s t, R s t → (f s).Respects R W) : (get >>= f).Respects R W := by
  intro s t hR
  change (f s s).1 = (f t t).1 ∧ R (f s s).2 (f t t).2 ∧ ∀ b, (f s s).1 = .ok b → W b
  rw [← hf s t hR]
  exact h s t hR s t hR

/-- A loop whose measure does not tell related states apart. -/
theorem loop {measure : β → σ → ℕ} {body : β → Prog σ ε (β ⊕ α)}
    (hmeasure : ∀ b, W b → ∀ s t, R s t → measure b s = measure b t)
    (hbody : ∀ b, W b → (body b).Respects R (Sum.elim W V)) {b : β} (hb : W b) :
    (Prog.loop measure body b).Respects R V := by
  have main : ∀ n b, W b → (iterate body n b).Respects R V := by
    intro n
    induction n with
    | zero => exact fun _ _ => stop
    | succ n ih =>
      intro b hb
      refine (hbody b hb).bind fun r hr => ?_
      cases r with
      | inl b' => exact ih b' hr
      | inr a => exact pure hr
  intro s t hR
  have h := main (measure b s + 1) b hb s t hR
  unfold Prog.loop
  rw [← hmeasure b hb s t hR]
  exact h

/-- One run that keeps an invariant, as a run that is like itself. -/
theorem of_invariant {I : σ → Prop} {p : Prog σ ε α}
    (h : ∀ s, I s → p.Ensures s fun o t => I t ∧ ∀ a, o = .ok a → V a) :
    p.Respects (fun s t => s = t ∧ I s) V := by
  rintro s t ⟨rfl, hI⟩
  exact ⟨rfl, ⟨rfl, (h s hI).apply.1⟩, (h s hI).apply.2⟩

theorem invariant {I : σ → Prop} {p : Prog σ ε α} {s : σ}
    (h : p.Respects (fun s t => s = t ∧ I s) V) (hI : I s) :
    p.Ensures s fun o t => I t ∧ ∀ a, o = .ok a → V a :=
  ensures_of_eq rfl ⟨(h s s ⟨rfl, hI⟩).2.1.2, (h s s ⟨rfl, hI⟩).2.2⟩

end Respects

end Prog

open Prog

/-! ### The calls -/

/-- An inode a program may hold, where a name leads to one. -/
def Node.Holds (ino : ℕ → Prop) (n : Node) : Prop := ∀ i, n = .file i → ino i

/-- Names and inodes that are given to a program, and a relation of disks that every call at them
respects. -/
structure Footprint (Γ : Setting) where
  rel : Disk Γ → Disk Γ → Prop
  path : Path → Prop
  ino : ℕ → Prop
  limit_eq : ∀ i, ino i → ∀ d d', rel d d' → d.limit i = d'.limit i
  parent : ∀ p, path p → (Disk.call fun fs => do
    fs.parent p
    return ((), fs)).Respects rel Any
  openDirectory : ∀ p, path p → (Disk.call fun fs => do
    match fs.names p with
    | none => .error .notFound
    | some .dir => .ok ((), fs)
    | some _ => .error .notADirectory).Respects rel (fun _ : Unit => True)
  entry : ∀ p, path p → (Disk.call (Fs.entry p)).Respects rel (Node.Holds ino)
  openAt : ∀ p write, path p → (Disk.call (Fs.openAt p write)).Respects rel (Node.Holds ino)
  createAt : ∀ p, path p → (Disk.call (Fs.createAt p)).Respects rel ino
  mkdirAt : ∀ p, path p → (Disk.call (Fs.mkdirAt p)).Respects rel Any
  unlinkAt : ∀ p, path p → (Disk.call (Fs.unlinkAt p)).Respects rel Any
  renameAt : ∀ p q, path p → path q → (Disk.call (Fs.renameAt p q)).Respects rel Any
  renameNoReplaceAt : ∀ p q, path p → path q →
    (Disk.call (Fs.renameNoReplaceAt p q)).Respects rel Any
  linkAt : ∀ p q, path p → path q → (Disk.call (Fs.linkAt p q)).Respects rel Any
  fstat : ∀ i, ino i → (Disk.call (Fs.fstat i)).Respects rel Any
  pread : ∀ i pos len, ino i → (Disk.pread i pos len).Respects rel Any
  pwrite : ∀ i pos bs, ino i → (Disk.pwrite i pos bs).Respects rel Any
  append : ∀ i bs, ino i → (Disk.append i bs).Respects rel Any
  ftruncate : ∀ i len, ino i → (Disk.ftruncate i len).Respects rel Any
  fsync : Disk.fsync.Respects rel Any

namespace Footprint

variable {Γ : Setting} {ν ε α : Type}

/-- Two worlds that do not differ for the program: the connection is the same, and so are the
notes. -/
structure Alike (U : Footprint Γ) (w w' : World Γ ν) : Prop where
  disk : U.rel w.disk w'.disk
  net : w.net = w'.net
  log : w.log.map Prod.fst = w'.log.map Prod.fst

variable {U : Footprint Γ} {V : α → Prop}

theorem onDisk {p : Prog (Disk Γ) ε α} (h : p.Respects U.rel V) :
    (World.onDisk p : Prog (World Γ ν) ε α).Respects U.Alike V := by
  intro w w' hw
  obtain ⟨ho, hd, hV⟩ := h _ _ hw.disk
  exact ⟨ho, ⟨hd, hw.net, hw.log⟩, hV⟩

theorem note {entry : ν} : (World.note entry : Prog (World Γ ν) ε Unit).Respects U.Alike
    Any := fun w w' hw =>
  ⟨rfl, ⟨hw.disk, hw.net, by simp [World.note, hw.log]⟩, fun _ _ => trivial⟩

theorem readExact {n : ℕ} : (World.readExact n : Prog (World Γ ν) _ _).Respects U.Alike
    Any := by
  intro w w' hw
  unfold World.readExact
  rw [← hw.net]
  refine ⟨?_, ?_, fun _ _ => trivial⟩
  · split
    · rfl
    · split <;> rfl
  · split
    · exact ⟨hw.disk, rfl, hw.log⟩
    · split <;> exact ⟨hw.disk, rfl, hw.log⟩

theorem writeAll {bs : Bytes} : (World.writeAll bs : Prog (World Γ ν) _ _).Respects U.Alike
    Any := by
  intro w w' hw
  unfold World.writeAll
  rw [← hw.net]
  refine ⟨?_, ?_, fun _ _ => trivial⟩
  · split <;> rfl
  · split <;> exact ⟨hw.disk, rfl, hw.log⟩

end Footprint

end Warpfile
