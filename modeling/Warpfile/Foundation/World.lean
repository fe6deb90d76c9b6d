import Warpfile.Foundation.Program
import Warpfile.Foundation.FileSystem

/-!
# The machine a program runs on: a disk, a connection and a log

Every system call takes one turn of a *schedule*. A turn lets the call run, makes it fail with
an error that the files do not explain, or kills the process; what a killed or failed write
had already written stays. Between two turns another program may act on the files. Which of
these a schedule may contain is fixed by its type (`Setting`), so a result about a machine
without faults is about `Disk` at a setting without faults and needs no hypothesis.

A schedule that has run out lets every further call run: no result depends on its length.

The other end of the connection is a string of bytes to come and the way the connection ends
(`Net.closing`); a peer that neither sends nor closes leaves the reader waiting for ever. The
log holds what the program noted, each entry next to the files as they were at that moment.
-/

namespace Warpfile

structure IoError where
  kind : ErrorKind
  message : String
  deriving DecidableEq, Repr

/-- An error as the operating system reports it. -/
def IoError.os (kind : ErrorKind) : IoError := ⟨kind, ""⟩

/-- What a schedule may contain. -/
structure Setting where
  /-- another program acts on the files -/
  shared : Bool
  /-- calls fail -/
  faults : Bool
  /-- the process is killed -/
  crashes : Bool

/-- Nobody else acts on the files. -/
abbrev Setting.alone (faults crashes : Bool) : Setting := ⟨false, faults, crashes⟩

/-- An error that does not come from the state of the files: a full disk, a failing device, a
missing permission. -/
abbrev Fault : Type := { k : ErrorKind // k ≠ .notFound ∧ k ≠ .alreadyExists }

inductive Event (Γ : Setting) where
  /-- the call runs; a read returns `short` bytes fewer than it could -/
  | go (short : ℕ)
  /-- another program acts, before the turn is taken -/
  | env (h : Γ.shared = true) (act : Fs → Fs)
  /-- the call fails; a write has written `torn` bytes -/
  | fault (h : Γ.faults = true) (kind : Fault) (torn : ℕ)
  /-- the process is killed in the call; a write has written `torn` bytes -/
  | crash (h : Γ.crashes = true) (torn : ℕ)

structure Disk (Γ : Setting) where
  fs : Fs
  sched : List (Event Γ)

variable {Γ : Setting} {ε α : Type}

/-- Make a call: `call short` when it runs, `torn n` what a write of `n` bytes leaves behind. -/
def syscall (call : ℕ → Fs.Call α) (torn : ℕ → Fs → Fs) : Prog (Disk Γ) IoError α := fun d =>
  let rec settle (fs : Fs) : List (Event Γ) → Outcome IoError α × Disk Γ
    | [] => run fs 0 []
    | .go short :: sched => run fs short sched
    | .env _ act :: sched => settle (act fs) sched
    | .fault _ kind n :: sched => (.err (.os kind.1), ⟨torn n fs, sched⟩)
    | .crash _ n :: sched => (.halt, ⟨torn n fs, sched⟩)
  settle d.fs d.sched
where
  run (fs : Fs) (short : ℕ) (sched : List (Event Γ)) : Outcome IoError α × Disk Γ :=
    match call short fs with
    | .ok (a, fs') => (.ok a, ⟨fs', sched⟩)
    | .error k => (.err (.os k), ⟨fs, sched⟩)

namespace Disk

/-- A call that writes no bytes. -/
def call (c : Fs.Call α) : Prog (Disk Γ) IoError α := syscall (fun _ => c) fun _ fs => fs

/-- A read from an open file. -/
def pread (i pos len : ℕ) : Prog (Disk Γ) IoError Bytes :=
  syscall (Fs.pread i pos len) fun _ fs => fs

def pwrite (i pos : ℕ) (bs : Bytes) : Prog (Disk Γ) IoError Unit :=
  syscall (fun _ fs => .ok ((), fs.pwrite i pos bs)) fun n fs => fs.pwrite i pos (bs.take n)

def append (i : ℕ) (bs : Bytes) : Prog (Disk Γ) IoError Unit :=
  syscall (fun _ fs => .ok ((), fs.append i bs)) fun n fs => fs.append i (bs.take n)

def ftruncate (i len : ℕ) : Prog (Disk Γ) IoError Unit :=
  call fun fs => .ok ((), fs.ftruncate i len)

/-- A call that only can fail: `fsync`. -/
def fsync : Prog (Disk Γ) IoError Unit := call fun fs => .ok ((), fs)

/-- At most how long the file of inode `i` gets by what other programs do. -/
def limit (i : ℕ) (d : Disk Γ) : ℕ :=
  let rec ahead (fs : Fs) : List (Event Γ) → ℕ
    | [] => (fs.data i).length
    | .env _ act :: sched => max (fs.data i).length (ahead (act fs) sched)
    | _ :: sched => ahead fs sched
  ahead d.fs d.sched

/-! ### What a call ensures when nobody else acts on the files -/

variable {faults crashes : Bool} {d : Disk (.alone faults crashes)}

/-- Nobody else makes a file longer. -/
@[simp]
theorem limit_eq {i : ℕ} : d.limit i = (d.fs.data i).length := by
  obtain ⟨fs, sched⟩ := d
  unfold limit
  induction sched with
  | nil => rfl
  | cons event sched ih =>
    rcases event with _ | ⟨⟨⟩⟩ | _ | _
    all_goals exact ih

/-- **The rule for a system call.** -/
theorem ensures_syscall {call : ℕ → Fs.Call α} {torn : ℕ → Fs → Fs}
    {Q : Outcome IoError α → Disk (.alone faults crashes) → Prop}
    (ok : ∀ short a fs sched, call short d.fs = .ok (a, fs) → Q (.ok a) ⟨fs, sched⟩)
    (error : ∀ short k sched, call short d.fs = .error k → Q (.err (.os k)) ⟨d.fs, sched⟩)
    (fault : faults → ∀ (k : Fault) n sched, Q (.err (.os k.1)) ⟨torn n d.fs, sched⟩)
    (crash : crashes → ∀ n sched, Q .halt ⟨torn n d.fs, sched⟩) :
    (syscall call torn).Ensures d Q := by
  have run (short : ℕ) (sched : List (Event (.alone faults crashes))) :
      Q (syscall.run call d.fs short sched).1 (syscall.run call d.fs short sched).2 := by
    unfold syscall.run
    rcases h : call short d.fs with k | ⟨a, fs⟩
    · exact error short k sched h
    · exact ok short a fs sched h
  unfold Prog.Ensures syscall
  rcases d.sched with _ | ⟨_ | ⟨⟨⟩⟩ | ⟨hf, k, n⟩ | ⟨hc, n⟩, sched⟩
  · exact run 0 []
  · exact run _ sched
  · exact fault hf k n sched
  · exact crash hc n sched

theorem ensures_call {c : Fs.Call α} {Q : Outcome IoError α → Disk (.alone faults crashes) → Prop}
    (ok : ∀ a fs sched, c d.fs = .ok (a, fs) → Q (.ok a) ⟨fs, sched⟩)
    (error : ∀ k sched, c d.fs = .error k → Q (.err (.os k)) ⟨d.fs, sched⟩)
    (fault : faults → ∀ (k : Fault) sched, Q (.err (.os k.1)) ⟨d.fs, sched⟩)
    (crash : crashes → ∀ sched, Q .halt ⟨d.fs, sched⟩) : (call c).Ensures d Q :=
  ensures_syscall (fun _ a fs l h => ok a fs l h) (fun _ k l h => error k l h)
    (fun hf k _ l => fault hf k l) fun hc _ l => crash hc l

/-- The files before and after a run are related by `R`. -/
def OnFs (R : Fs → Fs → Prop) (d d' : Disk Γ) : Prop := R d.fs d'.fs

instance {R : Fs → Fs → Prop} [Std.Refl R] : Std.Refl (OnFs R : Disk Γ → Disk Γ → Prop) :=
  ⟨fun d => Std.Refl.refl d.fs⟩

instance {R : Fs → Fs → Prop} [IsTrans Fs R] : IsTrans (Disk Γ) (OnFs R) :=
  ⟨fun d _ _ h h' => IsTrans.trans d.fs _ _ h h'⟩

theorem keeps_syscall {R : Fs → Fs → Prop} [Std.Refl R] {call : ℕ → Fs.Call α}
    {torn : ℕ → Fs → Fs} (run : ∀ short fs a fs', call short fs = .ok (a, fs') → R fs fs')
    (torn_keeps : ∀ n fs, R fs (torn n fs)) :
    (syscall call torn : Prog (Disk (.alone faults crashes)) _ _).Keeps (OnFs R) := fun d =>
  ensures_syscall (fun short a fs _ h => run short d.fs a fs h) (fun _ _ _ _ => Std.Refl.refl d.fs)
    (fun _ _ n _ => torn_keeps n d.fs) fun _ n _ => torn_keeps n d.fs

theorem keeps_call {R : Fs → Fs → Prop} [Std.Refl R] {c : Fs.Call α}
    (run : ∀ fs a fs', c fs = .ok (a, fs') → R fs fs') :
    (call c : Prog (Disk (.alone faults crashes)) _ _).Keeps (OnFs R) :=
  keeps_syscall (fun _ => run) fun _ fs => Std.Refl.refl fs

end Disk

/-! ### The connection -/

/-- The end of the connection this program holds. -/
structure Net where
  /-- bytes to come -/
  input : Bytes
  /-- the error after the last of them; a silent peer gives none -/
  closing : Option ErrorKind
  /-- bytes written -/
  output : Bytes
  /-- how many more bytes can be written, and the error of the write that exceeds it -/
  room : Option (ℕ × ErrorKind)

/-- A peer that sends `input` and closes the connection. -/
def Net.closed (input : Bytes) : Net := ⟨input, some .unexpectedEof, [], none⟩

structure World (Γ : Setting) (ν : Type) where
  disk : Disk Γ
  net : Net
  log : List (ν × Fs)

/-- The world a program starts in, with an empty log. -/
def World.start {ν : Type} (disk : Disk Γ) (net : Net) : World Γ ν := ⟨disk, net, []⟩

namespace World

variable {ν : Type}

abbrev fs (w : World Γ ν) : Fs := w.disk.fs

/-- Run a program that only acts on the files. -/
def onDisk (p : Prog (Disk Γ) ε α) : Prog (World Γ ν) ε α := fun w =>
  let (o, disk) := p w.disk
  (o, { w with disk })

/-- Append a note to the log. -/
def note (entry : ν) : Prog (World Γ ν) ε Unit := fun w =>
  (.ok (), { w with log := w.log ++ [(entry, w.disk.fs)] })

/-- Wait for exactly `n` bytes. Where the connection ends before, what came is gone. -/
def readExact (n : ℕ) : Prog (World Γ ν) IoError Bytes := fun w =>
  if n ≤ w.net.input.length then
    (.ok (w.net.input.take n), { w with net := { w.net with input := w.net.input.drop n } })
  else
    let w' := { w with net := { w.net with input := [] } }
    match w.net.closing with
    | some kind => (.err (.os kind), w')
    | none => (.halt, w')

/-- Write all of `bs`. A write that fails has written what there was room for. -/
def writeAll (bs : Bytes) : Prog (World Γ ν) IoError Unit := fun w =>
  match w.net.room with
  | none => (.ok (), { w with net := { w.net with output := w.net.output ++ bs } })
  | some (n, kind) =>
    let net := { w.net with
      output := w.net.output ++ bs.take n
      room := some (n - bs.length, kind) }
    (if bs.length ≤ n then .ok () else .err (.os kind), { w with net })

@[simp]
theorem ensures_onDisk {p : Prog (Disk Γ) ε α} {w : World Γ ν}
    {Q : Outcome ε α → World Γ ν → Prop} :
    (onDisk p).Ensures w Q ↔ p.Ensures w.disk fun o d => Q o { w with disk := d } := by
  unfold Prog.Ensures
  rfl

theorem returns_onDisk {p : Prog (Disk Γ) ε α} {a : α} {w w' : World Γ ν} :
    (onDisk p).Returns w a w' ↔ ∃ d, p.Returns w.disk a d ∧ w' = { w with disk := d } := by
  unfold onDisk Prog.Returns
  rcases h : p w.disk with ⟨o, d⟩
  simp [h, eq_comm]

/-- A program on the files, its error translated. -/
theorem ensures_onDisk_mapErr {ε' : Type} {p : Prog (Disk Γ) ε α} {g : ε → ε'} {w : World Γ ν}
    {R : Outcome ε α → Disk Γ → Prop} {Q : Outcome ε' α → World Γ ν → Prop}
    (hp : p.Ensures w.disk R) (ok : ∀ a d, R (.ok a) d → Q (.ok a) { w with disk := d })
    (err : ∀ e d, R (.err e) d → Q (.err (g e)) { w with disk := d })
    (halt : ∀ d, R .halt d → Q .halt { w with disk := d }) :
    (onDisk (p.mapErr g)).Ensures w Q := by
  rw [ensures_onDisk, Prog.ensures_mapErr]
  refine hp.mono fun o d h => ?_
  cases o with
  | ok a => exact ok a d h
  | err e => exact err e d h
  | halt => exact halt d h

/-- Sequencing after a program on the files. -/
theorem ensures_onDisk_bind {ε' β : Type} {p : Prog (Disk Γ) ε α} {g : ε → ε'}
    {f : α → Prog (World Γ ν) ε' β} {w : World Γ ν} {R : Outcome ε α → Disk Γ → Prop}
    {Q : Outcome ε' β → World Γ ν → Prop} (hp : p.Ensures w.disk R)
    (ok : ∀ a d, R (.ok a) d → (f a).Ensures { w with disk := d } Q)
    (err : ∀ e d, R (.err e) d → Q (.err (g e)) { w with disk := d })
    (halt : ∀ d, R .halt d → Q .halt { w with disk := d }) :
    (onDisk (p.mapErr g) >>= f).Ensures w Q := by
  rw [Prog.ensures_bind]
  exact ensures_onDisk_mapErr hp ok err halt

/-- Sequencing after an attempt on the files. -/
theorem ensures_onDisk_attempt_bind {ε' β : Type} {p : Prog (Disk Γ) ε α}
    {f : Except ε α → Prog (World Γ ν) ε' β} {w : World Γ ν} {R : Outcome ε α → Disk Γ → Prop}
    {Q : Outcome ε' β → World Γ ν → Prop} (hp : p.Ensures w.disk R)
    (ok : ∀ a d, R (.ok a) d → (f (.ok a)).Ensures { w with disk := d } Q)
    (err : ∀ e d, R (.err e) d → (f (.error e)).Ensures { w with disk := d } Q)
    (halt : ∀ d, R .halt d → Q .halt { w with disk := d }) :
    (onDisk p.attempt >>= f).Ensures w Q := by
  rw [Prog.ensures_bind, ensures_onDisk, Prog.ensures_attempt]
  refine hp.mono fun o d h => ?_
  cases o with
  | ok a => exact ok a d h
  | err e => exact err e d h
  | halt => exact halt d h

@[simp]
theorem ensures_note {entry : ν} {w : World Γ ν} {Q : Outcome ε Unit → World Γ ν → Prop} :
    (note entry).Ensures w Q ↔ Q (.ok ()) { w with log := w.log ++ [(entry, w.disk.fs)] } := by
  unfold Prog.Ensures
  rfl

theorem ensures_readExact {n : ℕ} {w : World Γ ν} {Q : Outcome IoError Bytes → World Γ ν → Prop}
    (ok : n ≤ w.net.input.length → Q (.ok (w.net.input.take n))
      { w with net := { w.net with input := w.net.input.drop n } })
    (err : w.net.input.length < n → ∀ k, w.net.closing = some k → Q (.err (.os k))
      { w with net := { w.net with input := [] } })
    (halt : w.net.input.length < n → w.net.closing = none → Q .halt
      { w with net := { w.net with input := [] } }) : (readExact n).Ensures w Q := by
  unfold Prog.Ensures readExact
  split
  · exact ok ‹_›
  · rename_i h
    rcases hc : w.net.closing with _ | k
    · exact halt (not_le.mp h) hc
    · exact err (not_le.mp h) k hc

theorem ensures_writeAll {bs : Bytes} {w : World Γ ν} {Q : Outcome IoError Unit → World Γ ν → Prop}
    (ok : ∀ room, (w.net.room = none → room = none) → Q (.ok ()) { w with net := { w.net with
      output := w.net.output ++ bs, room } })
    (err : ∀ n k, w.net.room = some (n, k) → n < bs.length → Q (.err (.os k)) { w with net :=
      { w.net with output := w.net.output ++ bs.take n, room := some (0, k) } }) :
    (writeAll bs).Ensures w Q := by
  unfold Prog.Ensures writeAll
  split
  · exact ok w.net.room id
  · rename_i n k hr
    by_cases hn : bs.length ≤ n
    · simpa [hn, List.take_of_length_le hn] using ok (some (n - bs.length, k)) fun h => nomatch hr.symm.trans h
    · simpa [hn, Nat.sub_eq_zero_of_le (Nat.le_of_not_le hn)] using
        err n k hr (Nat.lt_of_not_le hn)

end World

end Warpfile
