import Warpfile.Foundation.Bytes

/-!
# A hierarchical file system with inodes

Names map to nodes; a regular file is a node that carries the number of an inode, and the
inode carries the bytes. Two names of one inode are hard links of each other, and a handle
keeps an inode reachable after its last name is gone.

Two facts hold of every value of `Fs` because its fields say so: no name leads to an inode
that was never allocated (`allocated`), and everything that exists stands in a directory
(`rooted`). A system call is a function `Call α`; next to each stands when it succeeds and
what it does to the names and to the bytes. `Fs.Within` collects what a run leaves alone.
-/

namespace Warpfile

/-- A path: its components, the outermost first. -/
abbrev Path := List String

/-- The kinds of error an operating system reports. -/
inductive ErrorKind where
  | notFound
  | permissionDenied
  | connectionRefused
  | connectionReset
  | connectionAborted
  | notConnected
  | brokenPipe
  | alreadyExists
  | notADirectory
  | isADirectory
  | invalidInput
  | invalidData
  | timedOut
  | writeZero
  | interrupted
  | unsupported
  | unexpectedEof
  | other
  deriving DecidableEq, Repr

/-- What a name stands for. No call follows a symbolic link, so its target does not matter. -/
inductive Node where
  | file (ino : ℕ)
  | dir
  | symlink
  deriving DecidableEq, Repr

structure Fs where
  names : Path → Option Node
  data : ℕ → Bytes
  /-- No inode from here on was ever allocated. -/
  next : ℕ
  allocated : ∀ p i, names p = some (.file i) → i < next
  rooted : ∀ p q, names p ≠ none → q <+: p → q ≠ [] → q ≠ p → names q = some .dir

namespace Fs

/-- Only the root exists. -/
def empty : Fs where
  names _ := none
  data _ := []
  next := 0
  allocated := by simp
  rooted := by simp

variable {fs fs' : Fs} {p q d : Path} {i j : ℕ} {n : Node}

/-- The root is a directory that has no name of its own. -/
def isDir (fs : Fs) (d : Path) : Bool := d == [] || fs.names d == some .dir

/-- The inode a name stands for, when it is a regular file. -/
def inode (fs : Fs) (p : Path) : Option ℕ :=
  match fs.names p with
  | some (.file i) => some i
  | _ => none

/-- The bytes of the regular file a name stands for. -/
def read (fs : Fs) (p : Path) : Option Bytes := (fs.inode p).map fs.data

theorem inode_eq_some : fs.inode p = some i ↔ fs.names p = some (.file i) := by
  unfold inode
  split <;> simp_all

theorem read_eq_some {bs : Bytes} :
    fs.read p = some bs ↔ ∃ i, fs.names p = some (.file i) ∧ fs.data i = bs := by
  simp [read, inode_eq_some]

/-! ### Changing a name -/

/-- `p` may be given to a regular file, or to a new directory. -/
structure MayBind (fs : Fs) (p : Path) (n : Node) : Prop where
  ne_root : p ≠ []
  parent : fs.isDir p.dropLast
  not_dir : fs.names p ≠ some .dir
  inode_lt : ∀ i, n = .file i → i < fs.next

theorem isDir_iff : fs.isDir d ↔ d = [] ∨ fs.names d = some .dir := by
  simp [isDir]

/-- Everything below an existing name is reached through directories only. -/
theorem isDir_dropLast (h : fs.names p ≠ none) : fs.isDir p.dropLast := by
  rw [isDir_iff]
  by_cases hd : p.dropLast = []
  · exact .inl hd
  · refine .inr (fs.rooted p _ h (List.dropLast_prefix p) hd fun he => ?_)
    have hne : p ≠ [] := by
      rintro rfl
      exact hd rfl
    have := congrArg List.length he
    simp only [List.length_dropLast] at this
    have := List.length_pos_iff.mpr hne
    omega

private theorem prefix_dropLast (hq : q <+: p) (hne : q ≠ p) : q <+: p.dropLast := by
  obtain ⟨t, rfl⟩ := hq
  have ht : t ≠ [] := by
    rintro rfl
    exact hne (by simp)
  rw [List.dropLast_append_of_ne_nil ht]
  exact List.prefix_append _ _

/-- Bind `p` to `n`, when a name may be bound there. -/
def bindName (fs : Fs) (p : Path) (n : Node) (h : fs.MayBind p n) : Fs where
  names := Function.update fs.names p (some n)
  data := fs.data
  next := fs.next
  allocated := by
    intro r i hr
    by_cases hrp : r = p
    · subst hrp
      simp only [Function.update_self, Option.some.injEq] at hr
      exact h.inode_lt i hr
    · rw [Function.update_of_ne hrp] at hr
      exact fs.allocated r i hr
  rooted := by
    intro r q hr hq hq0 hqr
    have hqp : q ≠ p ∨ fs.names p = some .dir := by
      by_cases he : q = p
      · subst he
        have hr' : fs.names r ≠ none := by rwa [Function.update_of_ne (Ne.symm hqr)] at hr
        exact .inr (fs.rooted r q hr' hq hq0 hqr)
      · exact .inl he
    have hqp : q ≠ p := hqp.resolve_right h.not_dir
    rw [Function.update_of_ne hqp]
    by_cases hrp : r = p
    · subst hrp
      have hpre := prefix_dropLast hq hqr
      rcases isDir_iff.mp h.parent with h0 | hd
      · rw [h0] at hpre
        exact absurd (List.prefix_nil.mp hpre) hq0
      · by_cases he : q = r.dropLast
        · rw [he]; exact hd
        · exact fs.rooted _ q (by rw [hd]; simp) hpre hq0 he
    · rw [Function.update_of_ne hrp] at hr
      exact fs.rooted r q hr hq hq0 hqr

/-- Unbind `p`, unless it is a directory. -/
def unbindName (fs : Fs) (p : Path) (h : fs.names p ≠ some .dir) : Fs where
  names := Function.update fs.names p none
  data := fs.data
  next := fs.next
  allocated := by
    intro r i hr
    by_cases hrp : r = p
    · subst hrp; simp at hr
    · rw [Function.update_of_ne hrp] at hr
      exact fs.allocated r i hr
  rooted := by
    intro r q hr hq hq0 hqr
    have hrp : r ≠ p := by
      rintro rfl
      simp at hr
    rw [Function.update_of_ne hrp] at hr
    have hd := fs.rooted r q hr hq hq0 hqr
    have hqp : q ≠ p := by
      rintro rfl
      exact h hd
    rw [Function.update_of_ne hqp, hd]

/-- Replace the bytes of an inode. -/
def setData (fs : Fs) (i : ℕ) (bs : Bytes) : Fs :=
  { fs with data := Function.update fs.data i bs }

@[simp]
theorem names_setData {bs : Bytes} : (fs.setData i bs).names = fs.names := rfl

@[simp]
theorem data_setData {bs : Bytes} :
    (fs.setData i bs).data = Function.update fs.data i bs := rfl

@[simp]
theorem next_setData {bs : Bytes} : (fs.setData i bs).next = fs.next := rfl

theorem setData_self : fs.setData i (fs.data i) = fs := by
  simp [setData]

theorem setData_setData {bs bs' : Bytes} : (fs.setData i bs).setData i bs' = fs.setData i bs' := by
  simp [setData]

/-- Allocate a new, empty inode. -/
def alloc (fs : Fs) : Fs :=
  { fs with
    data := Function.update fs.data fs.next []
    next := fs.next + 1
    allocated := fun p i h => Nat.lt_succ_of_lt (fs.allocated p i h) }

instance decidableForallFile (m : ℕ) : ∀ n : Node, Decidable (∀ i, n = .file i → i < m)
  | .file i => decidable_of_iff (i < m) ⟨fun h _ hj => Node.file.inj hj ▸ h, fun h => h i rfl⟩
  | .dir => isTrue fun _ h => nomatch h
  | .symlink => isTrue fun _ h => nomatch h

instance : Decidable (fs.MayBind p n) :=
  decidable_of_iff
    (p ≠ [] ∧ fs.isDir p.dropLast ∧ fs.names p ≠ some .dir ∧ ∀ i, n = .file i → i < fs.next)
    ⟨fun h => ⟨h.1, h.2.1, h.2.2.1, h.2.2.2⟩,
      fun h => ⟨h.ne_root, h.parent, h.not_dir, h.inode_lt⟩⟩

/-- Give the name `p` to `n`; nothing happens where that is not possible. -/
def setName (fs : Fs) (p : Path) (n : Node) : Fs :=
  if h : fs.MayBind p n then fs.bindName p n h else fs

/-- Take the name `p` away; a directory keeps its name. -/
def unlink (fs : Fs) (p : Path) : Fs :=
  if h : fs.names p = some .dir then fs else fs.unbindName p h

theorem names_setName (h : fs.MayBind p n) :
    (fs.setName p n).names = Function.update fs.names p (some n) := by
  rw [setName, dif_pos h, bindName]

theorem names_setName_of_ne (h : q ≠ p) : (fs.setName p n).names q = fs.names q := by
  unfold setName
  split
  · exact Function.update_of_ne h _ _
  · rfl

@[simp]
theorem data_setName : (fs.setName p n).data = fs.data := by
  unfold setName
  split <;> rfl

@[simp]
theorem next_setName : (fs.setName p n).next = fs.next := by
  unfold setName
  split <;> rfl

theorem names_unlink (h : fs.names p ≠ some .dir) :
    (fs.unlink p).names = Function.update fs.names p none := by
  rw [unlink, dif_neg h, unbindName]

theorem names_unlink_of_ne (h : q ≠ p) : (fs.unlink p).names q = fs.names q := by
  unfold unlink
  split
  · rfl
  · exact Function.update_of_ne h _ _

/-- Only directories survive an `unlink`. -/
theorem names_unlink_self : (fs.unlink p).names p = none ∨ (fs.unlink p).names p = some .dir := by
  unfold unlink
  split
  · exact .inr ‹_›
  · exact .inl (Function.update_self ..)

@[simp]
theorem data_unlink : (fs.unlink p).data = fs.data := by
  unfold unlink
  split <;> rfl

@[simp]
theorem next_unlink : (fs.unlink p).next = fs.next := by
  unfold unlink
  split <;> rfl

/-- Unlinking nothing changes nothing. -/
theorem unlink_eq_self (h : fs.names p = none) : fs.unlink p = fs := by
  have hd : fs.names p ≠ some .dir := by simp [h]
  rw [unlink, dif_neg hd, unbindName]
  cases fs
  simp_all [Function.update_eq_self_iff]

theorem isDir_unlink : (fs.unlink p).isDir d = fs.isDir d := by
  unfold unlink
  split
  · rfl
  · rename_i h
    by_cases hd : d = p
    · subst hd
      have : fs.names d ≠ some .dir := h
      simp [isDir, unbindName, this]
    · simp [isDir, unbindName, Function.update_of_ne hd]

/-! ### Resolving a path -/

/-- Walk from the directory `base` through the components of a path. -/
def resolve (fs : Fs) (base : Path) : Path → Except ErrorKind Unit
  | [] => .ok ()
  | c :: cs =>
    match fs.names (base ++ [c]) with
    | some .dir => fs.resolve (base ++ [c]) cs
    | none => .error .notFound
    | some _ => .error .notADirectory

/-- Open the directory that holds `p`. -/
def parent (fs : Fs) (p : Path) : Except ErrorKind Unit :=
  if p = [] then .error .invalidInput else fs.resolve [] p.dropLast

theorem isDir_mono (h : fs.isDir p) (hq : q <+: p) : fs.isDir q := by
  rw [isDir_iff] at h ⊢
  by_cases hq0 : q = []
  · exact .inl hq0
  by_cases hqp : q = p
  · subst hqp
    exact h
  rcases h with rfl | h
  · exact absurd (List.prefix_nil.mp hq) hq0
  · exact .inr (fs.rooted p q (by rw [h]; simp) hq hq0 hqp)

theorem resolve_eq_ok {cs : Path} (hd : fs.isDir d) :
    fs.resolve d cs = .ok () ↔ fs.isDir (d ++ cs) := by
  induction cs generalizing d with
  | nil => simp [resolve, hd]
  | cons c cs ih =>
    unfold resolve
    have hc : d ++ c :: cs = (d ++ [c]) ++ cs := by simp
    split
    · rename_i h
      rw [ih (isDir_iff.mpr (.inr h)), hc]
    all_goals
      rename_i h
      refine ⟨fun h' => by simp at h', fun h' => ?_⟩
      rw [hc] at h'
      have := isDir_iff.mp (isDir_mono h' (List.prefix_append (d ++ [c]) cs))
      simp_all

theorem resolve_error {cs : Path} {k : ErrorKind} (h : fs.resolve d cs = .error k) :
    k = .notFound ∨ k = .notADirectory := by
  induction cs generalizing d with
  | nil => simp [resolve] at h
  | cons c cs ih =>
    unfold resolve at h
    split at h
    · exact ih h
    · exact .inl (by simpa using h.symm)
    · exact .inr (by simpa using h.symm)

theorem parent_eq_ok : fs.parent p = .ok () ↔ p ≠ [] ∧ fs.isDir p.dropLast := by
  unfold parent
  split
  · simp_all
  · rw [resolve_eq_ok (by simp [isDir]), List.nil_append]
    simp_all

/-- Whatever exists is reached. -/
theorem parent_of_names (hp : p ≠ []) (h : fs.names p ≠ none) : fs.parent p = .ok () :=
  parent_eq_ok.mpr ⟨hp, isDir_dropLast h⟩

/-- Something that is not a directory stands on the way to `p`. -/
def Blocked (fs : Fs) (p : Path) : Prop := fs.parent p = .error .notADirectory

theorem Blocked.not_isDir (h : fs.Blocked p) (hp : p ≠ []) : ¬fs.isDir p.dropLast := fun hd => by
  rw [Blocked, parent_eq_ok.mpr ⟨hp, hd⟩] at h
  simp at h

theorem Blocked.names_eq_none (h : fs.Blocked p) (hp : p ≠ []) : fs.names p = none := by
  by_contra hn
  exact h.not_isDir hp (isDir_dropLast hn)

/-- `p` cannot be a regular file. -/
def Irregular (fs : Fs) (p : Path) : Prop :=
  fs.Blocked p ∨ fs.names p = some .dir ∨ fs.names p = some .symlink

theorem Irregular.not_file (h : fs.Irregular p) (hp : p ≠ []) : fs.names p ≠ some (.file i) := by
  rintro hn
  rcases h with h | h | h
  · simp [h.names_eq_none hp] at hn
  · simp [hn] at h
  · simp [hn] at h

theorem read_eq_none (h : ∀ i, fs.names p ≠ some (.file i)) : fs.read p = none := by
  rcases hr : fs.read p with _ | bs
  · rfl
  · obtain ⟨i, hi, -⟩ := read_eq_some.mp hr
    exact absurd hi (h i)

theorem Irregular.read_eq_none (h : fs.Irregular p) (hp : p ≠ []) : fs.read p = none :=
  Fs.read_eq_none fun _ => h.not_file hp

/-- In a directory only what stands at the name itself matters. -/
theorem irregular_iff (hp : p ≠ []) (hd : fs.isDir p.dropLast) :
    fs.Irregular p ↔ fs.names p = some .dir ∨ fs.names p = some .symlink := by
  have : ¬fs.Blocked p := by simp [Blocked, parent_eq_ok.mpr ⟨hp, hd⟩]
  simp [Irregular, this]

theorem parent_error {k : ErrorKind} (hp : p ≠ []) (h : fs.parent p = .error k) :
    fs.names p = none ∧ (k = .notFound ∨ k = .notADirectory ∧ fs.Blocked p) := by
  refine ⟨by_contra fun hn => ?_, ?_⟩
  · rw [parent_of_names hp hn] at h
    simp at h
  · have h' := h
    rw [parent, if_neg hp] at h'
    exact (resolve_error h').imp_right fun hk => ⟨hk, by rw [Blocked, h, hk]⟩

/-- Walking looks at names only. -/
private theorem resolve_of_names {fs' : Fs} (h : fs'.names = fs.names) {cs : Path} :
    fs'.resolve d cs = fs.resolve d cs := by
  induction cs generalizing d with
  | nil => rfl
  | cons c cs ih =>
    unfold resolve
    rw [h]
    simp only [ih]

/-- What can be a regular file is a matter of names. -/
theorem irregular_of_names {fs' : Fs} (h : fs'.names = fs.names) :
    fs'.Irregular p ↔ fs.Irregular p := by
  unfold Irregular Blocked parent
  rw [resolve_of_names h, h]

private theorem resolve_unlink {cs : Path} (h : (fs.unlink p).resolve d cs = .error .notADirectory) :
    fs.resolve d cs = .error .notADirectory := by
  induction cs generalizing d with
  | nil => simp [resolve] at h
  | cons c cs ih =>
    have hn : (fs.unlink p).names (d ++ [c]) = fs.names (d ++ [c]) ∨
        (fs.unlink p).names (d ++ [c]) = none := by
      by_cases hp : d ++ [c] = p
      · subst hp
        refine names_unlink_self.symm.imp_left fun h' => h'.trans ?_
        by_contra hne
        rw [names_unlink (Ne.symm hne)] at h'
        simp at h'
      · exact .inl (names_unlink_of_ne hp)
    unfold resolve at h ⊢
    rcases hn with hn | hn <;> rw [hn] at h
    · rcases hc : fs.names (d ++ [c]) with _ | _ | _ | _ <;> simp only [hc] at h ⊢
      · simp at h
      · exact ih h
    · simp at h

/-- What stands in the way after an `unlink` stood there before. -/
theorem irregular_unlink (h : (fs.unlink p).Irregular q) : fs.Irregular q := by
  have hn : (fs.unlink p).names q ≠ none → (fs.unlink p).names q = fs.names q := by
    intro hne
    by_cases hp : q = p
    · subst hp
      have hself : (fs.unlink q).names q = none ∨ _ := names_unlink_self
      rcases hself with h' | h'
      · exact absurd h' hne
      · by_contra hne
        rw [h'] at hne
        rw [names_unlink (Ne.symm hne)] at h'
        simp at h'
    · exact names_unlink_of_ne hp
  rcases h with h | h | h
  · unfold Blocked parent at h
    split at h
    · simp at h
    · rename_i hq
      refine .inl ?_
      rw [Blocked, parent, if_neg hq]
      exact resolve_unlink h
  · exact .inr (.inl ((hn (by simp [h])).symm.trans h))
  · exact .inr (.inr ((hn (by simp [h])).symm.trans h))

/-! ### What the calls do to names and bytes -/

/-- A new, empty regular file at `p`. -/
def create (fs : Fs) (p : Path) : Fs := fs.alloc.setName p (.file fs.next)

/-- Take the node `n` from `p` to `q`, over whatever stood there. -/
def move (fs : Fs) (p q : Path) (n : Node) : Fs := (fs.unlink p).setName q n

/-- Overwrite from `pos` on; a gap before `pos` is filled with zeros. -/
def splice (old : Bytes) (pos : ℕ) (bs : Bytes) : Bytes :=
  old.takeD pos 0 ++ bs ++ old.drop (pos + bs.length)

@[simp]
theorem splice_length (old bs : Bytes) : splice old old.length bs = old ++ bs := by
  simp [splice, List.takeD_eq_take]

theorem splice_nil {old : Bytes} {pos : ℕ} (h : pos ≤ old.length) : splice old pos [] = old := by
  simp [splice, List.takeD_eq_take _ h]

theorem mayBind_create (hp : p ≠ []) (hd : fs.isDir p.dropLast) (h : fs.names p = none) :
    fs.alloc.MayBind p (.file fs.next) where
  ne_root := hp
  parent := hd
  not_dir := by simp [alloc, h]
  inode_lt := by simp [alloc]

theorem names_create (hp : p ≠ []) (hd : fs.isDir p.dropLast) (h : fs.names p = none) :
    (fs.create p).names = Function.update fs.names p (some (.file fs.next)) := by
  rw [create, names_setName (mayBind_create hp hd h)]
  rfl

theorem names_create_of_ne (h : q ≠ p) : (fs.create p).names q = fs.names q := by
  rw [create, names_setName_of_ne h]
  rfl

@[simp]
theorem data_create : (fs.create p).data = Function.update fs.data fs.next [] := by
  rw [create, data_setName]
  rfl

@[simp]
theorem next_create : (fs.create p).next = fs.next + 1 := by
  rw [create, next_setName]
  rfl

theorem names_move (hn : fs.names p = some n) (hnd : n ≠ .dir) (hq : q ≠ [])
    (hd : fs.isDir q.dropLast) (hqd : fs.names q ≠ some .dir) :
    (fs.move p q n).names = Function.update (Function.update fs.names p none) q (some n) := by
  have hpd : fs.names p ≠ some .dir := by simp [hn, hnd]
  have h : (fs.unlink p).MayBind q n := by
    refine ⟨hq, by rwa [isDir_unlink], fun h => ?_, fun i hi => ?_⟩
    · by_cases hqp : q = p
      · subst hqp
        simp [names_unlink hpd] at h
      · exact hqd (by rwa [names_unlink_of_ne hqp] at h)
    · rw [next_unlink]
      exact fs.allocated p i (by rw [hn, hi])
  rw [move, names_setName h, names_unlink hpd]

theorem names_move_of_ne {r : Path} (hp : r ≠ p) (hq : r ≠ q) :
    (fs.move p q n).names r = fs.names r := by
  rw [move, names_setName_of_ne hq, names_unlink_of_ne hp]

@[simp]
theorem data_move : (fs.move p q n).data = fs.data := by rw [move, data_setName, data_unlink]

@[simp]
theorem next_move : (fs.move p q n).next = fs.next := by rw [move, next_setName, next_unlink]

/-! ### System calls -/

/-- A system call fails with a kind of error and changes nothing, or it succeeds. -/
abbrev Call (α : Type) : Type := Fs → Except ErrorKind (α × Fs)

/-- What `p` stands for. -/
def entry (p : Path) : Call Node := fun fs => do
  fs.parent p
  match fs.names p with
  | none => .error .notFound
  | some n => .ok (n, fs)

/-- Open what stands at `p`: a directory for reading only, a symbolic link not at all. -/
def openAt (p : Path) (write : Bool) : Call Node := fun fs => do
  fs.parent p
  match fs.names p with
  | none => .error .notFound
  | some (.file i) => .ok (.file i, fs)
  | some .dir => if write then .error .isADirectory else .ok (.dir, fs)
  | some .symlink => .error .other

/-- Create a regular file at `p`, where nothing stands, and return its inode. -/
def createAt (p : Path) : Call ℕ := fun fs => do
  fs.parent p
  match fs.names p with
  | none => .ok (fs.next, fs.create p)
  | some _ => .error .alreadyExists

def mkdirAt (p : Path) : Call Unit := fun fs => do
  fs.parent p
  match fs.names p with
  | none => .ok ((), fs.setName p .dir)
  | some _ => .error .alreadyExists

def unlinkAt (p : Path) : Call Unit := fun fs => do
  fs.parent p
  match fs.names p with
  | none => .error .notFound
  | some .dir => .error .isADirectory
  | some _ => .ok ((), fs.unlink p)

/-- Rename `p` to `q`, replacing what stands at `q`. Where both are names of one inode nothing
happens. The receiver renames no directory, and the model refuses to. -/
def renameAt (p q : Path) : Call Unit := fun fs => do
  fs.parent p
  fs.parent q
  match fs.names p with
  | none => .error .notFound
  | some .dir => .error .other
  | some n =>
    if fs.names q = some .dir then .error .isADirectory
    else if fs.names q = some n then .ok ((), fs)
    else .ok ((), fs.move p q n)

/-- Rename `p` to `q`, where nothing stands at `q`. -/
def renameNoReplaceAt (p q : Path) : Call Unit := fun fs => do
  fs.parent p
  fs.parent q
  match fs.names p, fs.names q with
  | none, _ => .error .notFound
  | some _, some _ => .error .alreadyExists
  | some .dir, none => .error .other
  | some n, none => .ok ((), fs.move p q n)

/-- Give the inode at `p` the second name `q`, where nothing stands at `q`. -/
def linkAt (p q : Path) : Call Unit := fun fs => do
  fs.parent p
  fs.parent q
  match fs.names p, fs.names q with
  | none, _ => .error .notFound
  | some _, some _ => .error .alreadyExists
  | some .dir, none => .error .permissionDenied
  | some n, none => .ok ((), fs.setName q n)

/-- The length of an open file. -/
def fstat (i : ℕ) : Call ℕ := fun fs => .ok ((fs.data i).length, fs)

/-- Read at most `len` bytes from `pos` on, `short` bytes fewer than there are, but at least
one before the end of the file. -/
def pread (i pos len short : ℕ) : Call Bytes := fun fs =>
  let available := ((fs.data i).drop pos).take len
  .ok (available.take (max 1 (available.length - short)), fs)

/-- Write `bs` at the offset `pos`. -/
def pwrite (fs : Fs) (i pos : ℕ) (bs : Bytes) : Fs := fs.setData i (splice (fs.data i) pos bs)

/-- Write `bs` at the end. -/
def append (fs : Fs) (i : ℕ) (bs : Bytes) : Fs := fs.setData i (fs.data i ++ bs)

/-- Cut the file, or extend it by zeros, to `len` bytes. -/
def ftruncate (fs : Fs) (i len : ℕ) : Fs := fs.setData i ((fs.data i).takeD len 0)

section

variable {k : ErrorKind} {write : Bool}

/-- A call that opens the directory of `p` first. -/
private theorem parent_bind_eq_ok {α : Type} {c : Except ErrorKind α} {a : α} :
    (do fs.parent p; c) = .ok a ↔ (p ≠ [] ∧ fs.isDir p.dropLast) ∧ c = .ok a := by
  rw [← parent_eq_ok]
  rcases fs.parent p with k | ⟨⟩ <;> simp [Bind.bind, Except.bind]

private theorem parent_bind_eq_error {α : Type} {c : Except ErrorKind α} (hp : p ≠ [])
    (h : (do fs.parent p; c) = .error k) :
    (fs.names p = none ∧ (k = .notFound ∨ k = .notADirectory ∧ fs.Blocked p)) ∨ c = .error k := by
  rcases hpar : fs.parent p with k' | ⟨⟩ <;> rw [hpar] at h
  · obtain rfl : k' = k := by simpa [Bind.bind, Except.bind] using h
    exact .inl (parent_error hp hpar)
  · exact .inr h

theorem entry_eq_ok : entry p fs = .ok (n, fs') ↔ p ≠ [] ∧ fs.names p = some n ∧ fs' = fs := by
  rw [entry, parent_bind_eq_ok]
  rcases hn : fs.names p with _ | m
  · simp
  · have : fs.isDir p.dropLast := isDir_dropLast (by simp [hn])
    simp [this, eq_comm]

theorem entry_eq_error (hp : p ≠ []) (h : entry p fs = .error k) :
    fs.names p = none ∧ (k = .notFound ∨ k = .notADirectory ∧ fs.Blocked p) := by
  refine (parent_bind_eq_error hp h).elim id fun h => ?_
  rcases hn : fs.names p with _ | m <;> rw [hn] at h
  · exact ⟨rfl, .inl (by simpa using h.symm)⟩
  · simp at h

theorem openAt_eq_ok : openAt p write fs = .ok (n, fs') ↔
    p ≠ [] ∧ fs.names p = some n ∧ n ≠ .symlink ∧ (n = .dir → write = false) ∧ fs' = fs := by
  rw [openAt, parent_bind_eq_ok]
  rcases hn : fs.names p with _ | m
  · simp
  · have : fs.isDir p.dropLast := isDir_dropLast (by simp [hn])
    cases m with
    | file i => cases n <;> simp [this, eq_comm]
    | dir => cases n <;> cases write <;> simp [this, eq_comm]
    | symlink => cases n <;> simp

theorem openAt_eq_error (hp : p ≠ []) (h : openAt p write fs = .error k) :
    (fs.names p = none ∧ k = .notFound) ∨ (fs.Irregular p ∧ k ≠ .notFound) := by
  refine (parent_bind_eq_error hp h).elim ?_ fun h => ?_
  · rintro ⟨hn, rfl | ⟨rfl, hb⟩⟩
    · exact .inl ⟨hn, rfl⟩
    · exact .inr ⟨.inl hb, by simp⟩
  rcases hn : fs.names p with _ | _ | _ | _ <;> rw [hn] at h
  · exact .inl ⟨rfl, by simpa using h.symm⟩
  · simp at h
  · refine .inr ⟨.inr (.inl hn), ?_⟩
    rintro rfl
    cases write <;> simp at h
  · refine .inr ⟨.inr (.inr hn), ?_⟩
    rintro rfl
    simp at h

theorem createAt_eq_ok : createAt p fs = .ok (i, fs') ↔
    p ≠ [] ∧ fs.isDir p.dropLast ∧ fs.names p = none ∧ i = fs.next ∧ fs' = fs.create p := by
  rw [createAt, parent_bind_eq_ok]
  rcases hn : fs.names p with _ | m <;> simp [and_assoc, @eq_comm _ i, @eq_comm _ fs']

theorem createAt_eq_error (hp : p ≠ []) (h : createAt p fs = .error k) :
    (k = .notFound ∨ k = .notADirectory ∧ fs.Blocked p) ∨ fs.names p ≠ none := by
  refine (parent_bind_eq_error hp h).elim (fun h => .inl h.2) fun h => ?_
  rcases hn : fs.names p with _ | m <;> rw [hn] at h <;> simp at h ⊢

theorem mkdirAt_eq_ok : mkdirAt p fs = .ok ((), fs') ↔
    p ≠ [] ∧ fs.isDir p.dropLast ∧ fs.names p = none ∧ fs' = fs.setName p .dir := by
  rw [mkdirAt, parent_bind_eq_ok]
  rcases hn : fs.names p with _ | m <;> simp [and_assoc, @eq_comm _ fs']

theorem mkdirAt_eq_error (hp : p ≠ []) (h : mkdirAt p fs = .error k) :
    (fs.names p = none ∧ (k = .notFound ∨ k = .notADirectory ∧ fs.Blocked p)) ∨
      (fs.names p ≠ none ∧ k = .alreadyExists) := by
  refine (parent_bind_eq_error hp h).imp_right fun h => ?_
  rcases hn : fs.names p with _ | m <;> rw [hn] at h
  · simp at h
  · exact ⟨by simp, by simpa using h.symm⟩

theorem unlinkAt_eq_ok : unlinkAt p fs = .ok ((), fs') ↔
    p ≠ [] ∧ (∃ n, fs.names p = some n ∧ n ≠ .dir) ∧ fs' = fs.unlink p := by
  rw [unlinkAt, parent_bind_eq_ok]
  rcases hn : fs.names p with _ | m
  · simp
  · have : fs.isDir p.dropLast := isDir_dropLast (by simp [hn])
    cases m <;> simp [this, eq_comm]

theorem unlinkAt_eq_error (hp : p ≠ []) (h : unlinkAt p fs = .error k) :
    (fs.names p = none ∧ k = .notFound) ∨ (fs.Irregular p ∧ k ≠ .notFound) := by
  refine (parent_bind_eq_error hp h).elim ?_ fun h => ?_
  · rintro ⟨hn, rfl | ⟨rfl, hb⟩⟩
    · exact .inl ⟨hn, rfl⟩
    · exact .inr ⟨.inl hb, by simp⟩
  rcases hn : fs.names p with _ | _ | _ | _ <;> rw [hn] at h
  · exact .inl ⟨rfl, by simpa using h.symm⟩
  · simp at h
  · refine .inr ⟨.inr (.inl hn), ?_⟩
    rintro rfl
    simp at h
  · simp at h

theorem renameAt_eq_ok : renameAt p q fs = .ok ((), fs') ↔
    p ≠ [] ∧ q ≠ [] ∧ fs.isDir q.dropLast ∧ fs.names q ≠ some .dir ∧
      ∃ n, fs.names p = some n ∧ n ≠ .dir ∧
        fs' = if fs.names q = some n then fs else fs.move p q n := by
  rw [renameAt, parent_bind_eq_ok, parent_bind_eq_ok]
  rcases hn : fs.names p with _ | m
  · simp
  · have : fs.isDir p.dropLast := isDir_dropLast (by simp [hn])
    have (m : Node) (_ : m ≠ .dir) : (if fs.names q = some .dir then Except.error .isADirectory
        else if fs.names q = some m then .ok ((), fs) else .ok ((), fs.move p q m)) =
          (.ok ((), fs') : Except ErrorKind (Unit × Fs)) ↔ fs.names q ≠ some .dir ∧
            fs' = if fs.names q = some m then fs else fs.move p q m := by
      by_cases hq : fs.names q = some .dir
      · simp [hq]
      · rw [if_neg hq]
        by_cases hm : fs.names q = some m
        · simp only [if_pos hm, hq, not_false_eq_true, ne_eq, true_and]
          simp [eq_comm]
        · simp only [if_neg hm, hq, not_false_eq_true, ne_eq, true_and]
          simp [eq_comm]
    cases m <;> simp_all [and_assoc]

theorem renameNoReplaceAt_eq_ok : renameNoReplaceAt p q fs = .ok ((), fs') ↔
    p ≠ [] ∧ q ≠ [] ∧ fs.isDir q.dropLast ∧ fs.names q = none ∧
      ∃ n, fs.names p = some n ∧ n ≠ .dir ∧ fs' = fs.move p q n := by
  rw [renameNoReplaceAt, parent_bind_eq_ok, parent_bind_eq_ok]
  rcases hn : fs.names p with _ | m
  · simp
  · have : fs.isDir p.dropLast := isDir_dropLast (by simp [hn])
    rcases hq : fs.names q with _ | _
    · cases m <;> simp [this, and_assoc, @eq_comm _ fs']
    · simp

theorem linkAt_eq_ok : linkAt p q fs = .ok ((), fs') ↔
    p ≠ [] ∧ q ≠ [] ∧ fs.isDir q.dropLast ∧ fs.names q = none ∧
      ∃ n, fs.names p = some n ∧ n ≠ .dir ∧ fs' = fs.setName q n := by
  rw [linkAt, parent_bind_eq_ok, parent_bind_eq_ok]
  rcases hn : fs.names p with _ | m
  · simp
  · have : fs.isDir p.dropLast := isDir_dropLast (by simp [hn])
    rcases hq : fs.names q with _ | _
    · cases m <;> simp [this, and_assoc, @eq_comm _ fs']
    · simp

end

/-! ### What a run leaves alone -/

/-- `fs'` comes from `fs` by giving and taking names in `S`, making new directories in `K`, and
writing to inodes in `J` or to inodes that `fs` had not allocated. A name in `S` is given to a new
file, or to one that had a name in `S`. -/
structure Within (K S : Set Path) (J : Set ℕ) (fs fs' : Fs) : Prop where
  names : ∀ p ∉ S, fs'.names p = fs.names p ∨ p ∈ K ∧ fs.names p = none ∧ fs'.names p = some .dir
  inodes : ∀ p ∈ S, ∀ i < fs.next, fs'.names p = some (.file i) →
    ∃ q ∈ S, fs.names q = some (.file i)
  data : ∀ i < fs.next, i ∉ J → fs'.data i = fs.data i
  next : fs.next ≤ fs'.next

/-- The names a path is made of, from the outermost directory on. -/
def chain (p : Path) : Set Path := {q | q ≠ [] ∧ q <+: p}

/-- What stands in a directory is not on the way to it. -/
theorem notMem_chain_dropLast (hp : p ≠ []) : p ∉ chain p.dropLast := fun h => by
  have := h.2.length_le
  have := List.length_pos_iff.mpr hp
  simp only [List.length_dropLast] at *
  omega

/-- `p` is a directory, or can be made one. -/
def Creatable (fs : Fs) (p : Path) : Prop :=
  ∀ q ∈ chain p, fs.names q = none ∨ fs.names q = some .dir

private theorem resolve_eq_notADirectory {cs : Path}
    (h : fs.resolve d cs = .error .notADirectory) :
    ∃ q, q ≠ [] ∧ q <+: d ++ cs ∧ fs.names q ≠ none ∧ fs.names q ≠ some .dir := by
  induction cs generalizing d with
  | nil => simp [resolve] at h
  | cons c cs ih =>
    unfold resolve at h
    split at h
    · simpa using ih h
    · simp at h
    · rename_i n hdir hn
      exact ⟨d ++ [c], by simp, by simp, by simp [hn], fun h => hdir (Option.some.inj (hn.symm.trans h))⟩

/-- Nothing stands in the way of a directory that can be made. -/
theorem Creatable.not_blocked (h : fs.Creatable p.dropLast) (hp : p ≠ []) : ¬fs.Blocked p := by
  intro hb
  rw [Blocked, parent, if_neg hp] at hb
  obtain ⟨q, hq0, hq, hn, hd⟩ := resolve_eq_notADirectory hb
  exact (h q ⟨hq0, by simpa using hq⟩).elim hn hd

namespace Within

variable {K K' S S' : Set Path} {J J' : Set ℕ} {fs₁ fs₂ fs₃ : Fs}

@[refl]
theorem refl (fs : Fs) : Within K S J fs fs where
  names _ _ := .inl rfl
  inodes p hp _ _ h := ⟨p, hp, h⟩
  data _ _ _ := rfl
  next := le_rfl

theorem of_eq (h : fs' = fs) : Within K S J fs fs' := h ▸ refl fs'

theorem mono (h : Within K S J fs fs') (hK : K ⊆ K') (hS : S ⊆ S')
    (hJ : ∀ i ∈ J, i ∈ J' ∨ fs.next ≤ i) : Within K' S' J' fs fs' where
  names p hp := (h.names p fun h' => hp (hS h')).imp_right fun h' => ⟨hK h'.1, h'.2⟩
  inodes p hp i hi hn := by
    by_cases hpS : p ∈ S
    · obtain ⟨q, hq, hn⟩ := h.inodes p hpS i hi hn
      exact ⟨q, hS hq, hn⟩
    · rcases h.names p hpS with h' | ⟨-, -, h'⟩
      · exact ⟨p, hp, h'.symm.trans hn⟩
      · simp [h'] at hn
  data i hi hiJ := h.data i hi fun h' => (hJ i h').elim hiJ fun h'' => by omega
  next := h.next

/-- What the first part created, the second may write to. -/
theorem trans' (h₁ : Within K S J fs₁ fs₂) (h₂ : Within K S J' fs₂ fs₃)
    (hJ : ∀ i ∈ J', i ∈ J ∨ fs₁.next ≤ i) : Within K S J fs₁ fs₃ where
  names p hp := by
    rcases h₁.names p hp, h₂.names p hp with ⟨e₁ | e₁, e₂ | e₂⟩
    · exact .inl (e₂.trans e₁)
    · exact .inr ⟨e₂.1, e₁ ▸ e₂.2.1, e₂.2.2⟩
    · exact .inr ⟨e₁.1, e₁.2.1, e₂.trans e₁.2.2⟩
    · rw [e₁.2.2] at e₂
      exact absurd e₂.2.1 (by simp)
  inodes p hp i hi hn := by
    obtain ⟨q, hq, hn⟩ := h₂.inodes p hp i (lt_of_lt_of_le hi h₁.next) hn
    exact h₁.inodes q hq i hi hn
  data i hi hiJ := by
    have hiJ' : i ∉ J' := fun h => (hJ i h).elim hiJ (by omega)
    exact (h₂.data i (lt_of_lt_of_le hi h₁.next) hiJ').trans (h₁.data i hi hiJ)
  next := h₁.next.trans h₂.next

theorem trans (h₁ : Within K S J fs₁ fs₂) (h₂ : Within K S J fs₂ fs₃) :
    Within K S J fs₁ fs₃ := h₁.trans' h₂ fun _ h => .inl h

instance : Std.Refl (Within K S J) := ⟨refl⟩

instance : IsTrans Fs (Within K S J) := ⟨fun _ _ _ => trans⟩

/-- A file that was there has one of its names still, or a name in `S` where it had one. -/
theorem inode_of_names (h : Within K S J fs fs') (hi : i < fs.next)
    (hp : fs'.names p = some (.file i)) : ∃ q, fs.names q = some (.file i) ∧ (q ∈ S ∨ q = p) := by
  by_cases hS : p ∈ S
  · obtain ⟨q, hq, hn⟩ := h.inodes p hS i hi hp
    exact ⟨q, hn, .inl hq⟩
  · rcases h.names p hS with h | ⟨-, -, h⟩
    · exact ⟨p, h.symm.trans hp, .inr rfl⟩
    · simp [h] at hp

/-- A name outside `S` that is taken stays as it is. -/
theorem names_eq (h : Within K S J fs fs') (hp : p ∉ S) (hn : fs.names p ≠ none) :
    fs'.names p = fs.names p :=
  (h.names p hp).resolve_right fun h' => hn h'.2.1

/-- A name outside `S` and `K` stays as it is. -/
theorem names_eq' (h : Within K S J fs fs') (hp : p ∉ S) (hK : p ∉ K) :
    fs'.names p = fs.names p :=
  (h.names p hp).resolve_right fun h' => hK h'.1

/-- Directories outside `S` stay. -/
theorem isDir (h : Within K S J fs fs') (hp : d ∉ S) (hd : fs.isDir d) : fs'.isDir d := by
  rw [isDir_iff] at hd ⊢
  exact hd.imp_right fun hd => (h.names_eq hp (by rw [hd]; simp)).trans hd

/-- The bytes at a name outside `S` stay, unless its inode is one of those written to. -/
theorem read (h : Within K S J fs fs') (hp : p ∉ S) (hn : fs.names p ≠ none)
    (hJ : ∀ i, fs.names p = some (.file i) → i ∉ J) : fs'.read p = fs.read p := by
  unfold Fs.read inode
  rw [h.names_eq hp hn]
  split
  · rename_i i hi
    simp only [Option.map_some]
    rw [h.data i (fs.allocated p i hi) (hJ i hi)]
  · rfl

/-- Where no inode is written to, the bytes at a name stay with what stands there. -/
theorem read_eq (h : Within K S ∅ fs fs') (hn : fs'.names p = fs.names p) :
    fs'.read p = fs.read p := by
  unfold Fs.read inode
  rw [hn]
  split
  · rename_i i hi
    rw [Option.map_some, Option.map_some, h.data i (fs.allocated _ i hi) (Set.notMem_empty i)]
  · rfl

/-- What stands in the way of a name outside `S` and `K` stood there before. -/
theorem irregular (h : Within K S J fs fs') (hp : p ≠ []) (hS : p ∉ S) (hK : p ∉ K)
    (hd : fs'.isDir p.dropLast) (hi : fs'.Irregular p) : fs.Irregular p := by
  rw [irregular_iff hp hd, h.names_eq' hS hK] at hi
  exact .inr hi

/-- A directory that can be made still can. -/
theorem creatable (h : Within K S J fs fs') (hS : ∀ q ∈ chain p, q ∉ S) (hc : fs.Creatable p) :
    fs'.Creatable p := by
  intro q hq
  rcases h.names q (hS q hq) with h | ⟨-, -, h⟩
  · rw [h]
    exact hc q hq
  · exact .inr h

theorem unlink (hp : p ∈ S) : Within K S J fs (fs.unlink p) where
  names q hq := .inl (names_unlink_of_ne fun h => hq (h ▸ hp))
  inodes q hq i _ hn := by
    refine ⟨q, hq, ?_⟩
    by_cases h : q = p
    · subst h
      have hself : (fs.unlink q).names q = none ∨ _ := names_unlink_self
      rcases hself with h | h <;> simp [h] at hn
    · rwa [names_unlink_of_ne h] at hn
  data := by simp
  next := by simp

/-- The inode a name may be given to. -/
private theorem inodes_setName {q : Path} (h : (fs.setName p n).names q = some (.file i)) :
    fs.names q = some (.file i) ∨ q = p ∧ n = .file i := by
  by_cases hb : fs.MayBind p n
  · rw [names_setName hb] at h
    by_cases hq : q = p
    · subst hq
      rw [Function.update_self] at h
      exact .inr ⟨rfl, Option.some.inj h⟩
    · rw [Function.update_of_ne hq] at h
      exact .inl h
  · rw [Fs.setName, dif_neg hb] at h
    exact .inl h

theorem create (hp : p ∈ S) : Within K S J fs (fs.create p) where
  names q hq := .inl (names_create_of_ne fun h => hq (h ▸ hp))
  inodes q hq i hi hn := by
    rcases inodes_setName hn with h | ⟨-, h⟩
    · exact ⟨q, hq, h⟩
    · obtain rfl : fs.next = i := by simpa using h
      omega
  data i hi _ := by simp [Function.update_of_ne (Nat.ne_of_lt hi)]
  next := by simp

/-- A name that is given to the file of another name in `S`, or to what is no file. -/
theorem setName (hp : p ∈ S) (hn : ∀ i, n = .file i → ∃ q ∈ S, fs.names q = some (.file i)) :
    Within K S J fs (fs.setName p n) where
  names q hq := .inl (names_setName_of_ne fun h => hq (h ▸ hp))
  inodes q hq i _ h := by
    rcases inodes_setName h with h | ⟨-, h⟩
    · exact ⟨q, hq, h⟩
    · exact hn i h
  data := by simp
  next := by simp

theorem move (hn : fs.names p = some n) (hp : p ∈ S) (hq : q ∈ S) :
    Within K S J fs (fs.move p q n) where
  names r hr := .inl (names_move_of_ne (fun h => hr (h ▸ hp)) fun h => hr (h ▸ hq))
  inodes r hr i hi h := by
    rcases inodes_setName h with h | ⟨-, rfl⟩
    · exact (unlink (K := ∅) (J := ∅) hp).inodes r hr i hi h
    · exact ⟨p, hp, hn⟩
  data := by simp
  next := by simp

theorem mkdir (hp : p ∈ K) (hd : fs.isDir p.dropLast) (hp0 : p ≠ []) (hn : fs.names p = none) :
    Within K S J fs (fs.setName p .dir) where
  names q _ := by
    have hb : fs.MayBind p .dir := ⟨hp0, hd, by simp [hn], by simp⟩
    rw [names_setName hb]
    by_cases h : q = p
    · subst h
      exact .inr ⟨hp, hn, by simp⟩
    · exact .inl (Function.update_of_ne h _ _)
  inodes q hq i _ h := by
    rcases inodes_setName h with h | ⟨-, h⟩
    · exact ⟨q, hq, h⟩
    · simp at h
  data := by simp
  next := by simp

theorem setData {bs : Bytes} (hi : i ∈ J ∨ fs.next ≤ i) : Within K S J fs (fs.setData i bs) where
  names _ _ := .inl rfl
  inodes p hp _ _ h := ⟨p, hp, h⟩
  data j hj hJ := Function.update_of_ne (by rintro rfl; exact hi.elim hJ (by omega)) _ _
  next := le_rfl

end Within

end Fs

end Warpfile
