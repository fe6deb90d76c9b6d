import Warpfile.Foundation.Footprint

/-!
# Files that a program does not know of

`Fs.Beside F J a b fs fs'` says that two file systems differ only in hidden files: in what stands
at the names `F`, and in the bytes of the inodes `J`; and that the hidden files of `fs` are those
of `a`, and the ones of `fs'` those of `b`. The calls at other names and other inodes can neither
tell the two apart nor change a hidden file (`Footprint.hiding`).
-/

namespace Warpfile

namespace Fs

variable {F : Set Path} {J : Set ℕ} {a b fs fs' : Fs} {p q : Path} {n : Node} {i : ℕ}

/-- The two differ only in their hidden files, which are those of `a` and of `b`. -/
structure Beside (F : Set Path) (J : Set ℕ) (a b fs fs' : Fs) : Prop where
  names : ∀ p ∉ F, fs.names p = fs'.names p
  data : ∀ i ∉ J, fs.data i = fs'.data i
  next : fs.next = fs'.next
  lt_next : ∀ i ∈ J, i < fs.next
  apart : ∀ p ∉ F, ∀ i ∈ J, fs.names p ≠ some (.file i)
  left : ∀ p ∈ F, fs.names p = a.names p
  left_data : ∀ i ∈ J, fs.data i = a.data i
  right : ∀ p ∈ F, fs'.names p = b.names p
  right_data : ∀ i ∈ J, fs'.data i = b.data i

/-- No hidden name is on the way to `p`, nor is `p` one. -/
def Open (F : Set Path) (p : Path) : Prop := ∀ q, q <+: p → q ∉ F

theorem Open.dropLast (h : Open F p) : Open F p.dropLast := fun q hq =>
  h q (hq.trans (List.dropLast_prefix p))

theorem Open.notMem (h : Open F p) : p ∉ F := h p (List.prefix_refl p)

namespace Beside

theorem isDir (h : Beside F J a b fs fs') (hp : Open F p) : fs.isDir p = fs'.isDir p := by
  rw [Fs.isDir, Fs.isDir, h.names p hp.notMem]

theorem parent (h : Beside F J a b fs fs') (hp : Open F p) : fs.parent p = fs'.parent p := by
  have resolve (cs base : Path) (ho : Open F (base ++ cs)) :
      fs.resolve base cs = fs'.resolve base cs := by
    induction cs generalizing base with
    | nil => rfl
    | cons c cs ih =>
      have hc : base ++ [c] ∉ F := ho _ (by simp)
      rw [Fs.resolve, Fs.resolve, h.names _ hc, ih _ (by simpa using ho)]
  rw [Fs.parent, Fs.parent, resolve _ _ (by simpa using hp.dropLast)]

/-- A name that is not hidden is given to a file that is not hidden, or to another node. -/
theorem setName (h : Beside F J a b fs fs') (hp : Open F p) (hn : ∀ i, n = .file i → i ∉ J) :
    Beside F J a b (fs.setName p n) (fs'.setName p n) := by
  have hpF := hp.notMem
  have hiff : fs.MayBind p n ↔ fs'.MayBind p n := by
    constructor
    · exact fun hb => ⟨hb.ne_root, h.isDir hp.dropLast ▸ hb.parent, h.names p hpF ▸ hb.not_dir,
        h.next ▸ hb.inode_lt⟩
    · exact fun hb => ⟨hb.ne_root, h.isDir hp.dropLast ▸ hb.parent, h.names p hpF ▸ hb.not_dir,
        h.next ▸ hb.inode_lt⟩
  by_cases hb : fs.MayBind p n
  swap
  · rwa [Fs.setName, Fs.setName, dif_neg hb, dif_neg (mt hiff.mpr hb)]
  have hne {q : Path} (hq : q ∈ F) : q ≠ p := fun he => hpF (he ▸ hq)
  refine ⟨fun q hq => ?_, ?_, ?_, ?_, fun q hq i hi => ?_, fun q hq => ?_, ?_, fun q hq => ?_, ?_⟩
  · rw [names_setName hb, names_setName (hiff.mp hb)]
    by_cases hqp : q = p
    · rw [hqp, Function.update_self, Function.update_self]
    · rw [Function.update_of_ne hqp, Function.update_of_ne hqp, h.names q hq]
  · simpa using h.data
  · simpa using h.next
  · simpa using h.lt_next
  · rw [names_setName hb]
    by_cases hqp : q = p
    · rw [hqp, Function.update_self]
      exact fun he => hn i (Option.some.inj he) hi
    · rw [Function.update_of_ne hqp]
      exact h.apart q hq i hi
  · rw [names_setName_of_ne (hne hq), h.left q hq]
  · simpa using h.left_data
  · rw [names_setName_of_ne (hne hq), h.right q hq]
  · simpa using h.right_data

theorem unlink (h : Beside F J a b fs fs') (hp : Open F p) :
    Beside F J a b (fs.unlink p) (fs'.unlink p) := by
  have hpF := hp.notMem
  by_cases hd : fs.names p = some .dir
  · rwa [Fs.unlink, Fs.unlink, dif_pos hd, dif_pos (h.names p hpF ▸ hd)]
  have hd' : fs'.names p ≠ some .dir := h.names p hpF ▸ hd
  have hne {q : Path} (hq : q ∈ F) : q ≠ p := fun he => hpF (he ▸ hq)
  refine ⟨fun q hq => ?_, ?_, ?_, ?_, fun q hq i hi => ?_, fun q hq => ?_, ?_, fun q hq => ?_, ?_⟩
  · rw [names_unlink hd, names_unlink hd']
    by_cases hqp : q = p
    · rw [hqp, Function.update_self, Function.update_self]
    · rw [Function.update_of_ne hqp, Function.update_of_ne hqp, h.names q hq]
  · simpa using h.data
  · simpa using h.next
  · simpa using h.lt_next
  · rw [names_unlink hd]
    by_cases hqp : q = p
    · rw [hqp, Function.update_self]
      intro he
      cases he
    · rw [Function.update_of_ne hqp]
      exact h.apart q hq i hi
  · rw [names_unlink_of_ne (hne hq), h.left q hq]
  · simpa using h.left_data
  · rw [names_unlink_of_ne (hne hq), h.right q hq]
  · simpa using h.right_data

theorem alloc (h : Beside F J a b fs fs') : Beside F J a b fs.alloc fs'.alloc where
  names := h.names
  data i hi := by
    simp only [Fs.alloc, Function.update_apply, h.next, h.data i hi]
  next := congrArg (· + 1) h.next
  lt_next i hi := Nat.lt_succ_of_lt (h.lt_next i hi)
  apart := h.apart
  left := h.left
  left_data i hi := (Function.update_of_ne (h.lt_next i hi).ne _ _).trans (h.left_data i hi)
  right := h.right
  right_data i hi :=
    (Function.update_of_ne (h.next ▸ h.lt_next i hi).ne _ _).trans (h.right_data i hi)

theorem create (h : Beside F J a b fs fs') (hp : Open F p) :
    Beside F J a b (fs.create p) (fs'.create p) := by
  rw [Fs.create, Fs.create, ← h.next]
  exact h.alloc.setName hp fun i hi hJ => (h.lt_next i hJ).ne (Node.file.inj hi).symm

theorem move (h : Beside F J a b fs fs') (hp : Open F p) (hq : Open F q)
    (hn : ∀ i, n = .file i → i ∉ J) : Beside F J a b (fs.move p q n) (fs'.move p q n) :=
  (h.unlink hp).setName hq hn

theorem setData {bs : Bytes} (h : Beside F J a b fs fs') (hi : i ∉ J) :
    Beside F J a b (fs.setData i bs) (fs'.setData i bs) where
  names := h.names
  data j hj := by
    simp only [data_setData, Function.update_apply, h.data j hj]
  next := h.next
  lt_next := h.lt_next
  apart := h.apart
  left := h.left
  left_data j hj := by
    have hne : j ≠ i := fun he => hi (he ▸ hj)
    rw [data_setData, Function.update_of_ne hne, h.left_data j hj]
  right := h.right
  right_data j hj := by
    have hne : j ≠ i := fun he => hi (he ▸ hj)
    rw [data_setData, Function.update_of_ne hne, h.right_data j hj]

/-- A name that is not hidden leads to no hidden inode. -/
theorem holds (h : Beside F J a b fs fs') (hp : p ∉ F) (hn : fs.names p = some n) :
    n.Holds (· ∉ J) := by
  rintro i rfl hi
  exact h.apart p hp i hi hn

end Beside

/-! ### Calls -/

variable {α : Type} {V : α → Prop}

/-- A call that ends in the same way beside other hidden files. -/
def Unaware (F : Set Path) (J : Set ℕ) (a b : Fs) (V : α → Prop) (c : Call α) : Prop :=
  ∀ fs fs', Beside F J a b fs fs' →
    (∃ k, c fs = .error k ∧ c fs' = .error k) ∨
      ∃ x t t', c fs = .ok (x, t) ∧ c fs' = .ok (x, t') ∧ V x ∧ Beside F J a b t t'

theorem Unaware.parent {c : Call α} (hp : Open F p) (h : Unaware F J a b V c) :
    Unaware F J a b V (fun fs => (do fs.parent p; c fs)) := by
  intro fs fs' hB
  dsimp only
  rw [← hB.parent hp]
  rcases fs.parent p with k | ⟨⟩
  · exact .inl ⟨k, rfl, rfl⟩
  · exact h fs fs' hB

/-! Each call looks at what stands at its names, which is the same in both. -/

theorem unaware_entry (hp : Open F p) : Unaware F J a b (Node.Holds (· ∉ J)) (entry p) := by
  refine .parent hp fun fs fs' hB => ?_
  rw [← hB.names p hp.notMem]
  rcases hn : fs.names p with _ | n
  · exact .inl ⟨_, rfl, rfl⟩
  · exact .inr ⟨n, fs, fs', rfl, rfl, hB.holds hp.notMem hn, hB⟩

theorem unaware_openAt {write : Bool} (hp : Open F p) :
    Unaware F J a b (Node.Holds (· ∉ J)) (openAt p write) := by
  refine .parent hp fun fs fs' hB => ?_
  rw [← hB.names p hp.notMem]
  rcases hn : fs.names p with _ | _ | _ | _
  · exact .inl ⟨_, rfl, rfl⟩
  · exact .inr ⟨_, fs, fs', rfl, rfl, hB.holds hp.notMem hn, hB⟩
  · cases write with
    | true => exact .inl ⟨_, rfl, rfl⟩
    | false => exact .inr ⟨_, fs, fs', rfl, rfl, hB.holds hp.notMem hn, hB⟩
  · exact .inl ⟨_, rfl, rfl⟩

theorem unaware_openDirectory (hp : p ∉ F) : Unaware F J a b (fun _ => True) (fun fs => do
    match fs.names p with
    | none => .error .notFound
    | some .dir => .ok ((), fs)
    | some _ => .error .notADirectory) := by
  intro fs fs' hB
  dsimp only
  rw [← hB.names p hp]
  rcases fs.names p with _ | _ | _ | _
  · exact .inl ⟨_, rfl, rfl⟩
  · exact .inl ⟨_, rfl, rfl⟩
  · exact .inr ⟨(), fs, fs', rfl, rfl, trivial, hB⟩
  · exact .inl ⟨_, rfl, rfl⟩

theorem unaware_createAt (hp : Open F p) : Unaware F J a b (· ∉ J) (createAt p) := by
  refine .parent hp fun fs fs' hB => ?_
  rw [← hB.names p hp.notMem]
  rcases fs.names p with _ | n
  · refine .inr ⟨fs.next, fs.create p, fs'.create p, rfl, by rw [hB.next], ?_, hB.create hp⟩
    exact fun hi => Nat.lt_irrefl _ (hB.lt_next _ hi)
  · exact .inl ⟨_, rfl, rfl⟩

theorem unaware_mkdirAt (hp : Open F p) : Unaware F J a b (fun _ => True) (mkdirAt p) := by
  refine .parent hp fun fs fs' hB => ?_
  rw [← hB.names p hp.notMem]
  rcases fs.names p with _ | n
  · exact .inr ⟨(), _, _, rfl, rfl, trivial, hB.setName hp fun i hi => Node.noConfusion hi⟩
  · exact .inl ⟨_, rfl, rfl⟩

theorem unaware_unlinkAt (hp : Open F p) : Unaware F J a b (fun _ => True) (unlinkAt p) := by
  refine .parent hp fun fs fs' hB => ?_
  rw [← hB.names p hp.notMem]
  rcases fs.names p with _ | _ | _ | _
  · exact .inl ⟨_, rfl, rfl⟩
  · exact .inr ⟨(), _, _, rfl, rfl, trivial, hB.unlink hp⟩
  · exact .inl ⟨_, rfl, rfl⟩
  · exact .inr ⟨(), _, _, rfl, rfl, trivial, hB.unlink hp⟩

theorem unaware_renameAt (hp : Open F p) (hq : Open F q) :
    Unaware F J a b (fun _ => True) (renameAt p q) := by
  refine .parent hp (.parent hq fun fs fs' hB => ?_)
  rw [← hB.names p hp.notMem, ← hB.names q hq.notMem]
  have moved {n : Node} (hn : fs.names p = some n) :
      Beside F J a b (fs.move p q n) (fs'.move p q n) := hB.move hp hq (hB.holds hp.notMem hn)
  rcases hn : fs.names p with _ | _ | _ | _
  · exact .inl ⟨_, rfl, rfl⟩
  · dsimp only
    split_ifs
    · exact .inl ⟨_, rfl, rfl⟩
    · exact .inr ⟨(), _, _, rfl, rfl, trivial, hB⟩
    · exact .inr ⟨(), _, _, rfl, rfl, trivial, moved hn⟩
  · exact .inl ⟨_, rfl, rfl⟩
  · dsimp only
    split_ifs
    · exact .inl ⟨_, rfl, rfl⟩
    · exact .inr ⟨(), _, _, rfl, rfl, trivial, hB⟩
    · exact .inr ⟨(), _, _, rfl, rfl, trivial, moved hn⟩

theorem unaware_renameNoReplaceAt (hp : Open F p) (hq : Open F q) :
    Unaware F J a b (fun _ => True) (renameNoReplaceAt p q) := by
  refine .parent hp (.parent hq fun fs fs' hB => ?_)
  rw [← hB.names p hp.notMem, ← hB.names q hq.notMem]
  have moved {n : Node} (hn : fs.names p = some n) :
      Beside F J a b (fs.move p q n) (fs'.move p q n) := hB.move hp hq (hB.holds hp.notMem hn)
  rcases hn : fs.names p with _ | _ | _ | _
  · exact .inl ⟨_, rfl, rfl⟩
  all_goals rcases fs.names q with _ | _
  · exact .inr ⟨(), _, _, rfl, rfl, trivial, moved hn⟩
  · exact .inl ⟨_, rfl, rfl⟩
  · exact .inl ⟨_, rfl, rfl⟩
  · exact .inl ⟨_, rfl, rfl⟩
  · exact .inr ⟨(), _, _, rfl, rfl, trivial, moved hn⟩
  · exact .inl ⟨_, rfl, rfl⟩

theorem unaware_linkAt (hp : Open F p) (hq : Open F q) :
    Unaware F J a b (fun _ => True) (linkAt p q) := by
  refine .parent hp (.parent hq fun fs fs' hB => ?_)
  rw [← hB.names p hp.notMem, ← hB.names q hq.notMem]
  have linked {n : Node} (hn : fs.names p = some n) :
      Beside F J a b (fs.setName q n) (fs'.setName q n) := hB.setName hq (hB.holds hp.notMem hn)
  rcases hn : fs.names p with _ | _ | _ | _
  · exact .inl ⟨_, rfl, rfl⟩
  all_goals rcases fs.names q with _ | _
  · exact .inr ⟨(), _, _, rfl, rfl, trivial, linked hn⟩
  · exact .inl ⟨_, rfl, rfl⟩
  · exact .inl ⟨_, rfl, rfl⟩
  · exact .inl ⟨_, rfl, rfl⟩
  · exact .inr ⟨(), _, _, rfl, rfl, trivial, linked hn⟩
  · exact .inl ⟨_, rfl, rfl⟩

end Fs

/-! ### The footprint -/

open Prog

variable {F : Set Path} {J : Set ℕ} {a b : Fs} {faults crashes : Bool} {α : Type} {V : α → Prop}

/-- The disks differ only in their hidden files. -/
def Disk.Beside (F : Set Path) (J : Set ℕ) (a b : Fs) (d d' : Disk (.alone faults crashes)) : Prop :=
  Fs.Beside F J a b d.fs d'.fs ∧ d.sched = d'.sched

theorem respects_syscall {call : ℕ → Fs.Call α} {torn : ℕ → Fs → Fs}
    (hcall : ∀ short, Fs.Unaware F J a b V (call short))
    (htorn : ∀ n fs fs', Fs.Beside F J a b fs fs' → Fs.Beside F J a b (torn n fs) (torn n fs')) :
    (syscall call torn : Prog (Disk (.alone faults crashes)) _ _).Respects (Disk.Beside F J a b)
      V := by
  rintro ⟨fs, sched⟩ ⟨fs', sched'⟩ ⟨hB, hsched⟩
  obtain rfl : sched = sched' := hsched
  have run (short : ℕ) (sched : List (Event (.alone faults crashes))) :
      (syscall.run call fs short sched).1 = (syscall.run call fs' short sched).1 ∧
        Disk.Beside F J a b (syscall.run call fs short sched).2
          (syscall.run call fs' short sched).2 ∧
        ∀ x, (syscall.run call fs short sched).1 = .ok x → V x := by
    unfold syscall.run
    rcases hcall short fs fs' hB with ⟨k, h, h'⟩ | ⟨x, t, t', h, h', hV, ht⟩
    · rw [h, h']
      exact ⟨rfl, ⟨hB, rfl⟩, fun _ he => nomatch he⟩
    · rw [h, h']
      exact ⟨rfl, ⟨ht, rfl⟩, fun _ he => Outcome.ok.inj he ▸ hV⟩
  unfold syscall
  rcases sched with _ | ⟨_ | ⟨⟨⟩⟩ | ⟨_, k, n⟩ | ⟨_, n⟩, sched⟩
  · exact run 0 []
  · exact run _ sched
  · exact ⟨rfl, ⟨htorn n fs fs' hB, rfl⟩, fun _ he => nomatch he⟩
  · exact ⟨rfl, ⟨htorn n fs fs' hB, rfl⟩, fun _ he => nomatch he⟩

theorem respects_call {c : Fs.Call α} (hc : Fs.Unaware F J a b V c) :
    (Disk.call c : Prog (Disk (.alone faults crashes)) _ _).Respects (Disk.Beside F J a b) V :=
  respects_syscall (fun _ => hc) fun _ _ _ h => h

/-- A write to an inode that is not hidden. -/
theorem respects_write {i : ℕ} {f : Bytes → Bytes → Bytes} {bs : Bytes} (hi : i ∉ J) :
    (syscall (fun _ fs => .ok ((), fs.setData i (f (fs.data i) bs)))
      (fun n fs => fs.setData i (f (fs.data i) (bs.take n))) :
        Prog (Disk (.alone faults crashes)) _ Unit).Respects (Disk.Beside F J a b) Any := by
  have written (bs : Bytes) (fs fs' : Fs) (hB : Fs.Beside F J a b fs fs') :
      Fs.Beside F J a b (fs.setData i (f (fs.data i) bs)) (fs'.setData i (f (fs'.data i) bs)) := by
    rw [← hB.data i hi]
    exact hB.setData hi
  refine respects_syscall (fun _ fs fs' hB => ?_) fun n => written _
  exact .inr ⟨(), _, _, rfl, rfl, trivial, written bs fs fs' hB⟩

/-- The names that are not hidden, and the inodes. -/
def Footprint.hiding (F : Set Path) (J : Set ℕ) (a b : Fs) (faults crashes : Bool) :
    Footprint (.alone faults crashes) where
  rel := Disk.Beside F J a b
  path := Fs.Open F
  ino := (· ∉ J)
  limit_eq i hi d d' h := by rw [Disk.limit_eq, Disk.limit_eq, h.1.data i hi]
  parent p hp := respects_call (.parent hp fun fs fs' hB => .inr ⟨(), fs, fs', rfl, rfl, trivial, hB⟩)
  openDirectory p hp := respects_call (Fs.unaware_openDirectory hp.notMem)
  entry p hp := respects_call (Fs.unaware_entry hp)
  openAt p write hp := respects_call (Fs.unaware_openAt hp)
  createAt p hp := respects_call (Fs.unaware_createAt hp)
  mkdirAt p hp := respects_call (Fs.unaware_mkdirAt hp)
  unlinkAt p hp := respects_call (Fs.unaware_unlinkAt hp)
  renameAt p q hp hq := respects_call (Fs.unaware_renameAt hp hq)
  renameNoReplaceAt p q hp hq := respects_call (Fs.unaware_renameNoReplaceAt hp hq)
  linkAt p q hp hq := respects_call (Fs.unaware_linkAt hp hq)
  fstat i hi := respects_call fun fs fs' hB =>
    .inr ⟨_, fs, fs', rfl, by rw [Fs.fstat, hB.data i hi], trivial, hB⟩
  pread i pos len hi := respects_syscall (fun short fs fs' hB =>
    .inr ⟨_, fs, fs', rfl, by rw [Fs.pread, hB.data i hi], trivial, hB⟩) fun _ _ _ h => h
  pwrite i pos bs hi := respects_write (f := fun old bs => Fs.splice old pos bs) hi
  append i bs hi := respects_write (f := (· ++ ·)) hi
  ftruncate i len hi := respects_call fun fs fs' hB =>
    .inr ⟨(), _, _, rfl, rfl, trivial, by
      rw [Fs.ftruncate, Fs.ftruncate, hB.data i hi]
      exact hB.setData hi⟩
  fsync := respects_call fun fs fs' hB => .inr ⟨(), fs, fs', rfl, rfl, trivial, hB⟩

end Warpfile
