import Warpfile.Foundation.Footprint

/-!
# Calls among those of other programs

`Disk.Rely E d` bounds what the other programs still do to the files of `d`: every act of theirs
is a step of `E`. Before a call gets its turn, the files then change by steps of `E`; this is all
that `Rely.ensures_syscall`, the rule for a call on a shared disk, assumes about them. With
`Anything` in the place of `E` the rule says what a call ensures whatever the others do.

A loop that reads up to the end of a file needs a measure that falls although the file may grow:
the bound `Disk.limit` counts what the others will add, and no turn raises it.
-/

namespace Warpfile

namespace Disk

variable {Γ : Setting} {α : Type} {E : Fs → Fs → Prop} {d : Disk Γ}

/-- Every act of another program that the schedule holds is a step of `E`. -/
def Rely (E : Fs → Fs → Prop) (d : Disk Γ) : Prop :=
  ∀ h act, Event.env h act ∈ d.sched → ∀ fs, E fs (act fs)

/-- Nothing is assumed about the other programs. -/
def Anything (_ _ : Fs) : Prop := True

instance : Std.Refl Anything := ⟨fun _ => trivial⟩

instance : IsTrans Fs Anything := ⟨fun _ _ _ _ _ => trivial⟩

theorem rely_anything : d.Rely Anything := fun _ _ _ _ => trivial

/-- A call has its turn on the files `fs`; `sched` is what the schedule holds after it. -/
structure Turn (E : Fs → Fs → Prop) (d : Disk Γ) (fs : Fs) (sched : List (Event Γ)) : Prop where
  acted : E d.fs fs
  rely : ∀ fs', Rely E ⟨fs', sched⟩
  limit_le : ∀ i, limit i ⟨fs, sched⟩ ≤ d.limit i

theorem length_le_limit {i : ℕ} : (d.fs.data i).length ≤ d.limit i := by
  obtain ⟨fs, sched⟩ := d
  unfold limit
  induction sched with
  | nil => exact le_refl _
  | cons event sched ih =>
    cases event with
    | env => exact le_max_left _ _
    | _ => exact ih

/-- The file as a call finds it is not longer than its limit. -/
theorem Turn.length_le {fs : Fs} {sched : List (Event Γ)} (h : Turn E d fs sched) (i : ℕ) :
    (fs.data i).length ≤ d.limit i := (length_le_limit (d := ⟨fs, sched⟩)).trans (h.limit_le i)

/-- **The rule for a system call on a shared disk.** -/
theorem Rely.ensures_syscall [Std.Refl E] [IsTrans Fs E] {call : ℕ → Fs.Call α}
    {torn : ℕ → Fs → Fs} {Q : Outcome IoError α → Disk Γ → Prop} (hd : d.Rely E)
    (ok : ∀ fs short a fs' sched, Turn E d fs sched → call short fs = .ok (a, fs') →
      Q (.ok a) ⟨fs', sched⟩)
    (error : ∀ fs short k sched, Turn E d fs sched → call short fs = .error k →
      Q (.err (.os k)) ⟨fs, sched⟩)
    (fault : ∀ fs (k : Fault) n sched, Turn E d fs sched → Q (.err (.os k.1)) ⟨torn n fs, sched⟩)
    (crash : ∀ fs n sched, Turn E d fs sched → Q .halt ⟨torn n fs, sched⟩) :
    (syscall call torn).Ensures d Q := by
  have run (fs : Fs) (short : ℕ) (sched : List (Event Γ)) (h : Turn E d fs sched) :
      Q (syscall.run call fs short sched).1 (syscall.run call fs short sched).2 := by
    unfold syscall.run
    rcases hc : call short fs with k | ⟨a, fs'⟩
    · exact error fs short k sched h hc
    · exact ok fs short a fs' sched h hc
  -- along the schedule, up to the turn of the call
  have settle (sched : List (Event Γ)) (fs : Fs) (h : Turn E d fs sched) :
      Q (syscall.settle call torn fs sched).1 (syscall.settle call torn fs sched).2 := by
    induction sched generalizing fs with
    | nil => exact run fs 0 [] h
    | cons event sched ih =>
      have hrely (fs' : Fs) : Rely E ⟨fs', sched⟩ := fun hs act hact => h.rely fs' hs act
        (List.mem_cons_of_mem _ hact)
      cases event with
      | go short => exact run fs short sched ⟨h.acted, hrely, h.limit_le⟩
      | env hs act =>
        refine ih (act fs) ⟨?_, hrely, fun i => (le_max_right _ _).trans (h.limit_le i)⟩
        exact IsTrans.trans _ _ _ h.acted (h.rely fs hs act List.mem_cons_self fs)
      | fault hf k n => exact fault fs k n sched ⟨h.acted, hrely, h.limit_le⟩
      | crash hc n => exact crash fs n sched ⟨h.acted, hrely, h.limit_le⟩
  unfold Prog.Ensures syscall
  exact settle d.sched d.fs ⟨Std.Refl.refl _, fun _ => hd, fun _ => le_refl _⟩

theorem Rely.ensures_call [Std.Refl E] [IsTrans Fs E] {c : Fs.Call α}
    {Q : Outcome IoError α → Disk Γ → Prop} (hd : d.Rely E)
    (ok : ∀ fs a fs' sched, Turn E d fs sched → c fs = .ok (a, fs') → Q (.ok a) ⟨fs', sched⟩)
    (error : ∀ fs k sched, Turn E d fs sched → c fs = .error k → Q (.err (.os k)) ⟨fs, sched⟩)
    (fault : ∀ fs (k : Fault) sched, Turn E d fs sched → Q (.err (.os k.1)) ⟨fs, sched⟩)
    (crash : ∀ fs sched, Turn E d fs sched → Q .halt ⟨fs, sched⟩) : (call c).Ensures d Q :=
  hd.ensures_syscall (fun fs _ a fs' l h hc => ok fs a fs' l h hc)
    (fun fs _ k l h hc => error fs k l h hc) (fun fs k _ l h => fault fs k l h)
    fun fs _ l h => crash fs l h

/-- What is known of a call that returned. -/
theorem Rely.of_returns_syscall [Std.Refl E] [IsTrans Fs E] {call : ℕ → Fs.Call α}
    {torn : ℕ → Fs → Fs} {a : α} {d' : Disk Γ} (hd : d.Rely E)
    (h : (syscall call torn).Returns d a d') :
    ∃ fs short, Turn E d fs d'.sched ∧ call short fs = .ok (a, d'.fs) := by
  refine Prog.Ensures.of_returns (Q := Prog.Post
    (fun a d' => ∃ fs short, Turn E d fs d'.sched ∧ call short fs = .ok (a, d'.fs))
    (fun _ _ => True) fun _ => True) (hd.ensures_syscall ?_ ?_ ?_ ?_) h
  · intro fs short a fs' sched hturn hc
    exact ⟨fs, short, hturn, hc⟩
  · exact fun _ _ _ _ _ _ => trivial
  · exact fun _ _ _ _ _ => trivial
  · exact fun _ _ _ _ => trivial

end Disk

/-- A call leaves what is assumed about the other programs true. -/
theorem Prog.Respects.relying {Γ : Setting} {α : Type} {E : Fs → Fs → Prop} [Std.Refl E]
    [IsTrans Fs E] {call : ℕ → Fs.Call α} {torn : ℕ → Fs → Fs} {V : α → Prop} (hV : ∀ a, V a) :
    (syscall call torn).Respects (fun d d' : Disk Γ => d = d' ∧ d.Rely E) V := by
  refine .of_invariant fun d hd => hd.ensures_syscall ?_ ?_ ?_ ?_
  · exact fun _ _ _ _ _ hturn _ => ⟨hturn.rely _, fun a _ => hV a⟩
  · exact fun _ _ _ _ hturn _ => ⟨hturn.rely _, fun _ h => nomatch h⟩
  · exact fun _ _ _ _ hturn => ⟨hturn.rely _, fun _ h => nomatch h⟩
  · exact fun _ _ _ hturn => ⟨hturn.rely _, fun _ h => nomatch h⟩

open Prog in
/-- All names and inodes, with what is assumed about the other programs. -/
def Footprint.relying (Γ : Setting) (E : Fs → Fs → Prop) [Std.Refl E] [IsTrans Fs E] :
    Footprint Γ where
  rel d d' := d = d' ∧ d.Rely E
  path _ := True
  ino _ := True
  limit_eq _ _ _ _ h := by rw [h.1]
  parent _ _ := .relying fun _ => trivial
  openDirectory _ _ := .relying fun _ => trivial
  entry _ _ := .relying fun _ _ _ => trivial
  openAt _ _ _ := .relying fun _ _ _ => trivial
  createAt _ _ := .relying fun _ => trivial
  mkdirAt _ _ := .relying fun _ => trivial
  unlinkAt _ _ := .relying fun _ => trivial
  renameAt _ _ _ _ := .relying fun _ => trivial
  renameNoReplaceAt _ _ _ _ := .relying fun _ => trivial
  linkAt _ _ _ _ := .relying fun _ => trivial
  fstat _ _ := .relying fun _ => trivial
  pread _ _ _ _ := .relying fun _ => trivial
  pwrite _ _ _ _ := .relying fun _ => trivial
  append _ _ _ := .relying fun _ => trivial
  ftruncate _ _ _ := .relying fun _ => trivial
  fsync := .relying fun _ => trivial

end Warpfile
