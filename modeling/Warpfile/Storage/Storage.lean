import Warpfile.Foundation.World

/-!
# The receiver's file operations

The operations of `receiver_storage` (as they are on Linux) over the system calls. A file is
opened without following links, and whatever is not a regular file is refused. `promoteRename`,
`promoteRenameNoReplace` and `promoteLink` publish a file that is held open (a *pinned* one)
under a new name and then compare the identity of what stands at that name with the pinned
file; after `promoteLink` the old name stays.

The specifications are about a machine on which nobody else acts on the files. Each says what
a run returns and does in every outcome; an error is explained by a fault or by what stands at
the names involved.
-/

namespace Warpfile

/-- An open file: an inode and the offset of the next read or write. -/
structure File where
  ino : ℕ
  pos : ℕ
  append : Bool
  deriving DecidableEq, Repr

structure Metadata where
  isFile : Bool
  len : ℕ
  deriving DecidableEq, Repr

namespace Storage

variable {Γ : Setting}

def notARegularFile : IoError := ⟨.invalidData, "not a regular file"⟩

/-- A missing file is no error here. -/
def orElseIfNotFound {α : Type} (p : Prog (Disk Γ) IoError α) (default : α) :
    Prog (Disk Γ) IoError α := do
  match ← p.attempt with
  | .ok a => return a
  | .error e => if e.kind = .notFound then return default else throw e

/-- Open `path` as a directory. -/
def openDirectory (path : Path) : Prog (Disk Γ) IoError Unit := Disk.call fun fs => do
  match fs.names path with
  | none => .error .notFound
  | some .dir => .ok ((), fs)
  | some _ => .error .notADirectory

/-- Make and open the directories on the way from `base` through the components `cs`. -/
def ensureDirectoryFrom (base : Path) : Path → Prog (Disk Γ) IoError Unit
  | [] => pure ()
  | c :: cs => do
    match ← (Disk.call (Fs.mkdirAt (base ++ [c]))).attempt with
    | .ok () => pure ()
    | .error e => if e.kind = .alreadyExists then pure () else throw e
    openDirectory (base ++ [c])
    ensureDirectoryFrom (base ++ [c]) cs

def ensureDirectory (path : Path) : Prog (Disk Γ) IoError Unit := ensureDirectoryFrom [] path

/-- `exists` of the source. -/
def pathExists (path : Path) : Prog (Disk Γ) IoError Bool :=
  orElseIfNotFound (do let _ ← Disk.call (Fs.entry path); return true) false

def rejectNonRegular (metadata : Metadata) : Prog (Disk Γ) IoError Unit :=
  if metadata.isFile then pure () else throw notARegularFile

def openRegular (path : Path) (_read write append createNew : Bool) :
    Prog (Disk Γ) IoError File := do
  let node ←
    if createNew then Node.file <$> Disk.call (Fs.createAt path)
    else Disk.call (Fs.openAt path (write || append))
  match node with
  | .file ino =>
    let _ ← Disk.call (Fs.fstat ino)
    return { ino, pos := 0, append }
  | _ => throw notARegularFile

/-- On Linux an ordinary open file can be promoted. -/
abbrev openPromotable (path : Path) (read write append createNew : Bool) :
    Prog (Disk Γ) IoError File :=
  openRegular path read write append createNew

end Storage

namespace File

variable {Γ : Setting}

def metadata (file : File) : Prog (Disk Γ) IoError Metadata := do
  let len ← Disk.call (Fs.fstat file.ino)
  return { isFile := true, len }

/-- Read at most `len` bytes. -/
def read (file : File) (len : ℕ) : Prog (Disk Γ) IoError (Bytes × File) := do
  let bytes ← Disk.pread file.ino file.pos len
  return (bytes, { file with pos := file.pos + bytes.length })

/-- At most how many bytes are left to read. -/
def remaining (file : File) (d : Disk Γ) : ℕ := d.limit file.ino - file.pos

/-- Read up to the end of the file, in pieces of at most `len` bytes, folding `f` over them. -/
def foldReads {β : Type} (len : ℕ) (f : β → Bytes → β) (file : File) (b : β) :
    Prog (Disk Γ) IoError (β × File) :=
  Prog.loop (fun s : β × File => s.2.remaining)
    (fun s => do
      let (bytes, file) ← s.2.read len
      return if bytes = [] then .inr (s.1, file) else .inl (f s.1 bytes, file))
    (b, file)

def readToEnd (file : File) : Prog (Disk Γ) IoError (Bytes × File) :=
  file.foldReads (64 * 1024) (· ++ ·) []

/-- Write all of `bs`; nothing is written for the empty string. -/
def writeAll (file : File) (bs : Bytes) : Prog (Disk Γ) IoError File := do
  if bs = [] then return file
  if file.append then Disk.append file.ino bs
  else Disk.pwrite file.ino file.pos bs
  return { file with pos := file.pos + bs.length }

def setLen (file : File) (len : ℕ) : Prog (Disk Γ) IoError Unit := Disk.ftruncate file.ino len

def seek (file : File) (pos : ℕ) : File := { file with pos }

def syncAll (_file : File) : Prog (Disk Γ) IoError Unit := Disk.fsync

end File

namespace Storage

variable {Γ : Setting}

def metadata (path : Path) : Prog (Disk Γ) IoError Metadata := do
  let file ← openRegular path true false false false
  file.metadata

def read (path : Path) : Prog (Disk Γ) IoError Bytes := do
  let file ← openRegular path true false false false
  let (bytes, _) ← file.readToEnd
  return bytes

def removeFile (path : Path) : Prog (Disk Γ) IoError Unit := do
  Disk.call fun fs => do
    fs.parent path
    return ((), fs)
  match ← (metadata path).attempt with
  | .ok metadata =>
    rejectNonRegular metadata
    Disk.call (Fs.unlinkAt path)
  | .error e => if e.kind = .notFound then return () else throw e

def removeIfExists (path : Path) : Prog (Disk Γ) IoError Unit :=
  orElseIfNotFound (removeFile path) ()

/-- The inode of the regular file at `destination`. -/
def promotedIdentity (destination : Path) : Prog (Disk Γ) IoError ℕ := do
  match ← Disk.call (Fs.entry destination) with
  | .file ino => return ino
  | _ => throw notARegularFile

def validatePromotion (source : File) (destination : Path) : Prog (Disk Γ) IoError Unit := do
  let ino ← promotedIdentity destination
  if ino ≠ source.ino then
    throw ⟨.invalidData, "published object differs from pinned source"⟩

def promoteRename (source : File) (old new : Path) : Prog (Disk Γ) IoError Unit := do
  Disk.call (Fs.renameAt old new)
  validatePromotion source new

def promoteRenameNoReplace (source : File) (old new : Path) : Prog (Disk Γ) IoError Unit := do
  Disk.call (Fs.renameNoReplaceAt old new)
  validatePromotion source new

/-- On Linux the name `old` stays: what stands there may not be the source any more. -/
def promoteLink (source : File) (old new : Path) : Prog (Disk Γ) IoError Unit := do
  Disk.call (Fs.linkAt old new)
  validatePromotion source new

/-- Write `encoded` to the new file `temporaryPath`, whatever regular file a crash left there. -/
def writeTemporary (temporaryPath : Path) (encoded : Bytes) : Prog (Disk Γ) IoError File := do
  removeIfExists temporaryPath
  let file ← openPromotable temporaryPath false true false true
  let source ← file.writeAll encoded
  source.syncAll
  return source

/-- Publish `encoded` at `path`, in the place of whatever regular file stood there, by way of
`temporaryPath`. Snapshots and metadata are written so. -/
def replaceFile (path temporaryPath : Path) (encoded : Bytes) : Prog (Disk Γ) IoError Unit := do
  let source ← writeTemporary temporaryPath encoded
  removeIfExists path
  promoteRename source temporaryPath path

/-! ### Specifications -/

variable {faults crashes : Bool} {d : Disk (.alone faults crashes)} {p q : Path}

open Prog

theorem ensures_orElseIfNotFound {α : Type} {c : Prog (Disk Γ) IoError α} {default : α}
    {d : Disk Γ} {Q : Outcome IoError α → Disk Γ → Prop} :
    (orElseIfNotFound c default).Ensures d Q ↔ c.Ensures d (Post (fun a d' => Q (.ok a) d')
      (fun e d' => if e.kind = .notFound then Q (.ok default) d' else Q (.err e) d')
      (Q .halt)) := by
  unfold orElseIfNotFound
  rw [ensures_bind, ensures_attempt]
  refine ensures_congr fun o t => ?_
  rcases o with a | e | _
  · simp
  · simp only [post_ok, post_err]
    split <;> simp
  · rfl

theorem pathExists_spec (hp : p ≠ []) : (pathExists p).Ensures d (Post
    (fun b d' => d'.fs = d.fs ∧ (b = true ↔ d.fs.names p ≠ none))
    (fun _ d' => d'.fs = d.fs ∧ (faults ∨ d.fs.Blocked p))
    (fun d' => d'.fs = d.fs ∧ crashes)) := by
  rw [pathExists, ensures_orElseIfNotFound, ensures_bind]
  refine Disk.ensures_call (fun n fs _ h => ?_) (fun k _ h => ?_) (fun hf k _ => ?_) fun hc _ => ?_
  · obtain ⟨-, hn, rfl⟩ := Fs.entry_eq_ok.mp h
    simp [hn]
  · obtain ⟨hn, rfl | ⟨rfl, hb⟩⟩ := Fs.entry_eq_error hp h
    · simp [hn, IoError.os]
    · simp [IoError.os, hb]
  · have := k.2.1
    simp [IoError.os, this, hf]
  · simp [hc]

theorem openRegular_spec {read write append : Bool} (hp : p ≠ []) :
    (openRegular p read write append false).Ensures d (Post
      (fun file d' => d'.fs = d.fs ∧ d.fs.names p = some (.file file.ino) ∧ file.pos = 0 ∧
        file.append = append)
      (fun e d' => d'.fs = d.fs ∧ (e.kind = .notFound → d.fs.names p = none) ∧
        (faults ∨ d.fs.Irregular p ∨ e.kind = .notFound))
      (fun d' => d'.fs = d.fs ∧ crashes)) := by
  rw [openRegular, if_neg (by simp), ensures_bind]
  refine Disk.ensures_call (fun n fs _ h => ?_) (fun k _ h => ?_) (fun hf k _ => ?_) fun hc _ => ?_
  · obtain ⟨-, hn, hs, -, rfl⟩ := Fs.openAt_eq_ok.mp h
    cases n with
    | file i =>
      simp only [post_ok, ensures_bind]
      refine Disk.ensures_call (fun n fs _ h => ?_) (fun k _ h => ?_) (fun hf k _ => ?_)
        fun hc _ => ?_
      · simp only [Fs.fstat, Except.ok.injEq, Prod.mk.injEq] at h
        simp [hn, h.2.symm]
      · simp [Fs.fstat] at h
      · simp [IoError.os, k.2.1, hf]
      · simp [hc]
    | dir => simp [hn, notARegularFile, Fs.Irregular]
    | symlink => exact absurd rfl hs
  · obtain ⟨hn, rfl⟩ | ⟨hn, hk⟩ := Fs.openAt_eq_error hp h
    · simp [hn, IoError.os]
    · simp [hn, IoError.os, hk]
  · simp [IoError.os, k.2.1, hf]
  · simp [hc]

theorem metadata_spec (hp : p ≠ []) : (metadata p).Ensures d (Post
    (fun m d' => d'.fs = d.fs ∧
      ∃ i, d.fs.names p = some (.file i) ∧ m = ⟨true, (d.fs.data i).length⟩)
    (fun e d' => d'.fs = d.fs ∧ (e.kind = .notFound → d.fs.names p = none) ∧
      (faults ∨ d.fs.Irregular p ∨ e.kind = .notFound))
    (fun d' => d'.fs = d.fs ∧ crashes)) := by
  refine Ensures.bind (openRegular_spec hp) ?_ (fun _ _ h => h) fun _ h => h
  rintro file d' ⟨hd, hn, -, -⟩
  rw [File.metadata, ensures_bind]
  refine Disk.ensures_call (fun n fs _ h => ?_) (fun k _ h => ?_) (fun hf k _ => ?_) fun hc _ => ?_
  · simp only [Fs.fstat, Except.ok.injEq, Prod.mk.injEq] at h
    obtain ⟨rfl, rfl⟩ := h
    simp [hd, hn]
  · simp [Fs.fstat] at h
  · simp [IoError.os, k.2.1, hf, hd]
  · simp [hc, hd]

/-- What was there is gone; a name that had nothing is left alone. -/
theorem removeIfExists_spec (hp : p ≠ []) : (removeIfExists p).Ensures d (Post
    (fun _ d' => d'.fs = d.fs.unlink p ∧ d'.fs.names p = none)
    (fun _ d' => d'.fs = d.fs ∧ (faults ∨ d.fs.Irregular p))
    (fun d' => d'.fs = d.fs ∧ crashes)) := by
  rw [removeIfExists, ensures_orElseIfNotFound, removeFile, ensures_bind]
  refine Disk.ensures_call (fun _ fs _ h => ?_) (fun k _ h => ?_) (fun hf k _ => ?_) fun hc _ => ?_
  · obtain rfl : fs = d.fs := by
      rcases hpar : d.fs.parent p with k | ⟨⟩ <;> rw [hpar] at h
      · simp [Bind.bind, Except.bind] at h
      · simpa [Bind.bind, Except.bind, Pure.pure, Except.pure] using h.symm
    rw [post_ok]
    refine Ensures.bind_attempt (metadata_spec hp) ?_ ?_ ?_
    · rintro m d' ⟨hd, i, hn, rfl⟩
      simp only at hd hn
      simp only [rejectNonRegular, if_true, ensures_bind, ensures_pure, post_ok]
      refine Disk.ensures_call (fun _ fs _ h => ?_) (fun k _ h => ?_) (fun hf k _ => ?_)
        fun hc _ => ?_
      · obtain ⟨-, -, rfl⟩ := Fs.unlinkAt_eq_ok.mp h
        rw [hd]
        simp [Fs.names_unlink (show d.fs.names p ≠ some .dir by simp [hn])]
      · rw [hd] at h
        have := Fs.unlinkAt_eq_ok.mpr ⟨hp, ⟨_, hn, by simp⟩, rfl⟩
        rw [h] at this
        simp at this
      · simp [IoError.os, k.2.1, hf, hd]
      · simp [hc, hd]
    · rintro e d' ⟨hd, hn, he⟩
      simp only at hd hn he
      by_cases hk : e.kind = .notFound
      · simp [hk, hd, Fs.unlink_eq_self (hn hk), hn hk]
      · simpa [hk, hd] using he
    · rintro d' h
      exact h
  · have hpar : d.fs.parent p = .error k := by
      rcases hpar : d.fs.parent p with k' | ⟨⟩ <;> rw [hpar] at h
      · simpa [Bind.bind, Except.bind] using h
      · simp [Bind.bind, Except.bind, Pure.pure, Except.pure] at h
    obtain ⟨hn, rfl | ⟨rfl, hb⟩⟩ := Fs.parent_error hp hpar
    · simp [IoError.os, Fs.unlink_eq_self hn, hn]
    · simp [IoError.os, Fs.Irregular, hb]
  · simp [IoError.os, k.2.1, hf]
  · simp [hc]

theorem createRegular_spec {read write append : Bool} (hp : p ≠ []) :
    (openRegular p read write append true).Ensures d (Post
      (fun file d' => d.fs.names p = none ∧ d.fs.isDir p.dropLast ∧ d'.fs = d.fs.create p ∧
        file = ⟨d.fs.next, 0, append⟩)
      (fun _ d' => (d'.fs = d.fs ∨
          d.fs.names p = none ∧ d.fs.isDir p.dropLast ∧ d'.fs = d.fs.create p) ∧
        (faults ∨ d.fs.names p ≠ none ∨ ¬d.fs.isDir p.dropLast))
      (fun d' => (d'.fs = d.fs ∨
          d.fs.names p = none ∧ d.fs.isDir p.dropLast ∧ d'.fs = d.fs.create p) ∧ crashes)) := by
  rw [openRegular, if_pos rfl, ensures_bind, ensures_map]
  refine Disk.ensures_call (fun i fs _ h => ?_) (fun k _ h => ?_) (fun hf k _ => ?_) fun hc _ => ?_
  · obtain ⟨-, hd, hn, rfl, rfl⟩ := Fs.createAt_eq_ok.mp h
    simp only [post_ok, ensures_bind]
    refine Disk.ensures_call (fun n fs _ h => ?_) (fun k _ h => ?_) (fun hf k _ => ?_)
      fun hc _ => ?_
    · simp only [Fs.fstat, Except.ok.injEq, Prod.mk.injEq] at h
      simp [hn, hd, h.2.symm]
    · simp [Fs.fstat] at h
    · simp [hf, hn, hd]
    · simp [hc, hn, hd]
  · have : d.fs.names p ≠ none ∨ ¬d.fs.isDir p.dropLast := by
      by_contra hcon
      push Not at hcon
      rw [Fs.createAt_eq_ok.mpr ⟨hp, hcon.2, hcon.1, rfl, rfl⟩] at h
      simp at h
    exact ⟨.inl rfl, .inr this⟩
  · simp [hf]
  · simp [hc]

end Storage

namespace File

variable {faults crashes : Bool} {d : Disk (.alone faults crashes)} {file : File}

open Prog

/-- What a file holds after a write. -/
def written (file : File) (old bs : Bytes) : Bytes :=
  if file.append then old ++ bs else Fs.splice old file.pos bs

/-- At its end, a file is written to by appending. -/
theorem written_at_end {old bs : Bytes} (h : file.append = true ∨ file.pos = old.length) :
    file.written old bs = old ++ bs := by
  unfold written
  split
  · rfl
  · rw [h.resolve_left ‹_›, Fs.splice_length]

theorem writeAll_spec {bs : Bytes}
    (h : file.append = true ∨ file.pos ≤ (d.fs.data file.ino).length) :
    (file.writeAll bs).Ensures d (Post
      (fun file' d' => d'.fs = d.fs.setData file.ino (file.written (d.fs.data file.ino) bs) ∧
        file' = { file with pos := file.pos + bs.length })
      (fun _ d' => faults ∧ ∃ n, d'.fs =
        d.fs.setData file.ino (file.written (d.fs.data file.ino) (bs.take n)))
      (fun d' => crashes ∧ ∃ n, d'.fs =
        d.fs.setData file.ino (file.written (d.fs.data file.ino) (bs.take n)))) := by
  unfold writeAll
  split
  · rename_i hbs
    subst hbs
    have : file.written (d.fs.data file.ino) [] = d.fs.data file.ino := by
      unfold written
      split
      · exact List.append_nil _
      · exact Fs.splice_nil (h.resolve_left ‹_›)
    simp [this, Fs.setData_self]
  · split
    · rename_i ha
      rw [ensures_bind]
      refine Disk.ensures_syscall (fun _ _ fs _ h => ?_) (fun _ k _ h => ?_) (fun hf k n _ => ?_)
        fun hc n _ => ?_
      · simp only [Except.ok.injEq, Prod.mk.injEq] at h
        simp [written, ha, ← h.2, Fs.append]
      · simp at h
      · exact ⟨hf, n, by simp [written, ha, Fs.append]⟩
      · exact ⟨hc, n, by simp [written, ha, Fs.append]⟩
    · rename_i ha
      rw [ensures_bind]
      refine Disk.ensures_syscall (fun _ _ fs _ h => ?_) (fun _ k _ h => ?_) (fun hf k n _ => ?_)
        fun hc n _ => ?_
      · simp only [Except.ok.injEq, Prod.mk.injEq] at h
        simp [written, ha, ← h.2, Fs.pwrite]
      · simp at h
      · exact ⟨hf, n, by simp [written, ha, Fs.pwrite]⟩
      · exact ⟨hc, n, by simp [written, ha, Fs.pwrite]⟩

theorem read_spec {len : ℕ} : (file.read len).Ensures d (Post
    (fun r d' => d'.fs = d.fs ∧ r.1 <+: (d.fs.data file.ino).drop file.pos ∧ r.1.length ≤ len ∧
      (0 < len → r.1 = [] → (d.fs.data file.ino).drop file.pos = []) ∧
      r.2 = { file with pos := file.pos + r.1.length })
    (fun _ d' => d'.fs = d.fs ∧ faults) fun d' => d'.fs = d.fs ∧ crashes) := by
  rw [read, ensures_bind]
  refine Disk.ensures_syscall (fun short bs fs _ h => ?_) (fun _ k _ h => ?_) (fun hf k _ _ => ?_)
    fun hc _ _ => ?_
  · simp only [Fs.pread, Except.ok.injEq, Prod.mk.injEq] at h
    obtain ⟨rfl, rfl⟩ := h
    rw [post_ok, ensures_pure]
    refine ⟨rfl, (List.take_prefix ..).trans (List.take_prefix ..), ?_, fun hlen h => ?_, rfl⟩
    · simp only [List.length_take]
      omega
    · have := congrArg List.length h
      simp only [List.length_take, List.length_nil] at this
      exact List.eq_nil_of_length_eq_zero (by omega)
  · simp [Fs.pread] at h
  · exact ⟨rfl, hf⟩
  · exact ⟨rfl, hc⟩

/-- The pieces read make up what was left of the file. -/
theorem foldReads_spec {β : Type} {len : ℕ} (hlen : 0 < len) (f : β → Bytes → β) (b : β) :
    (file.foldReads len f b).Ensures d (Post
      (fun r d' => d'.fs = d.fs ∧ ∃ pieces : List Bytes,
        pieces.flatten = (d.fs.data file.ino).drop file.pos ∧ r.1 = pieces.foldl f b ∧
        r.2 = { file with pos := file.pos + pieces.flatten.length })
      (fun _ d' => d'.fs = d.fs ∧ faults) fun d' => d'.fs = d.fs ∧ crashes) := by
  refine Ensures.loop (fun s d' => d'.fs = d.fs ∧ ∃ pieces : List Bytes,
      pieces.flatten <+: (d.fs.data file.ino).drop file.pos ∧ s.1 = pieces.foldl f b ∧
      s.2 = { file with pos := file.pos + pieces.flatten.length }) ?_
    ⟨rfl, [], by simp, rfl, by simp⟩
  rintro ⟨b', file'⟩ d₁ ⟨h₁, pieces, ⟨rest, hrest⟩, rfl, rfl⟩
  have hleft : (d₁.fs.data file.ino).drop (file.pos + pieces.flatten.length) = rest := by
    rw [h₁, ← List.drop_drop, ← hrest, List.drop_left]
  refine Ensures.bind read_spec ?_ (fun _ d' h => ⟨h.1.trans h₁, h.2⟩)
    fun d' h => ⟨h.1.trans h₁, h.2⟩
  rintro ⟨bs, file'⟩ d₂ ⟨h₂, hpre, -, hend, hfile'⟩
  simp only at hpre hend hfile'
  subst hfile'
  rw [hleft] at hpre hend
  rw [ensures_pure]
  by_cases hbs : bs = []
  · subst hbs
    have hdone := hend hlen rfl
    subst hdone
    simp only [if_true, post_ok, Sum.elim_inr]
    exact ⟨h₂.trans h₁, pieces, by simpa using hrest, rfl, by simp⟩
  · obtain ⟨rest', rfl⟩ := hpre
    simp only [if_neg hbs, post_ok, Sum.elim_inl]
    refine ⟨⟨h₂.trans h₁, pieces ++ [bs], ⟨rest', by simpa using hrest⟩, by simp, ?_⟩, ?_⟩
    · simp [Nat.add_assoc]
    · have hlen' := congrArg List.length hrest
      have hpos := List.length_pos_iff.mpr hbs
      simp only [remaining, Disk.limit_eq, h₂, h₁, List.length_append, List.length_drop] at *
      omega

theorem foldl_append (b : Bytes) (pieces : List Bytes) :
    pieces.foldl (· ++ ·) b = b ++ pieces.flatten := by
  induction pieces generalizing b with
  | nil => simp
  | cons bs pieces ih => simp [ih]

/-- A hasher that absorbs the pieces, next to a count of their bytes. -/
theorem foldl_hashing (h : Bytes) (n : ℕ) (pieces : List Bytes) :
    pieces.foldl (fun (s : Bytes × ℕ) bs => (s.1 ++ bs, s.2 + bs.length)) (h, n) =
      (h ++ pieces.flatten, n + pieces.flatten.length) := by
  induction pieces generalizing h n with
  | nil => simp
  | cons bs pieces ih => simp [ih, Nat.add_assoc]

theorem readToEnd_spec : file.readToEnd.Ensures d (Post
    (fun r d' => d'.fs = d.fs ∧ r.1 = (d.fs.data file.ino).drop file.pos)
    (fun _ d' => d'.fs = d.fs ∧ faults) fun d' => d'.fs = d.fs ∧ crashes) := by
  refine (foldReads_spec (by norm_num) (· ++ ·) []).mono fun o d' h => ?_
  cases o with
  | ok r =>
    obtain ⟨h, pieces, hp, hr, -⟩ := h
    refine ⟨h, ?_⟩
    rw [hr, ← hp, foldl_append, List.nil_append]
  | err => exact h
  | halt => exact h

theorem metadata_spec : file.metadata.Ensures d (Post
    (fun m d' => d'.fs = d.fs ∧ m = ⟨true, (d.fs.data file.ino).length⟩)
    (fun _ d' => d'.fs = d.fs ∧ faults) fun d' => d'.fs = d.fs ∧ crashes) := by
  rw [metadata, ensures_bind]
  refine Disk.ensures_call (fun n fs _ h => ?_) (fun k _ h => ?_) (fun hf k _ => ?_) fun hc _ => ?_
  · simp only [Fs.fstat, Except.ok.injEq, Prod.mk.injEq] at h
    obtain ⟨rfl, rfl⟩ := h
    simp
  · simp [Fs.fstat] at h
  · exact ⟨rfl, hf⟩
  · exact ⟨rfl, hc⟩

theorem syncAll_spec : file.syncAll.Ensures d (Post (fun _ d' => d'.fs = d.fs)
    (fun _ d' => d'.fs = d.fs ∧ faults) fun d' => d'.fs = d.fs ∧ crashes) := by
  refine Disk.ensures_call (fun _ fs _ h => ?_) (fun k _ h => ?_) (fun hf k _ => ?_) fun hc _ => ?_
  · simp only [Except.ok.injEq, Prod.mk.injEq] at h
    exact h.2.symm
  · simp at h
  · exact ⟨rfl, hf⟩
  · exact ⟨rfl, hc⟩

end File

namespace Storage

variable {faults crashes : Bool} {d : Disk (.alone faults crashes)} {p q : Path} {source : File}

open Prog

theorem validatePromotion_spec (h : d.fs.names q = some (.file source.ino)) (hq : q ≠ []) :
    (validatePromotion source q).Ensures d (Post (fun _ d' => d'.fs = d.fs)
      (fun e d' => d'.fs = d.fs ∧ faults ∧ e.kind ≠ .alreadyExists)
      fun d' => d'.fs = d.fs ∧ crashes) := by
  rw [validatePromotion, promotedIdentity, ensures_bind, ensures_bind]
  refine Disk.ensures_call (fun _ fs _ h' => ?_) (fun k _ h' => ?_) (fun hf k _ => ?_)
    fun hc _ => ?_
  · obtain ⟨-, hn, rfl⟩ := Fs.entry_eq_ok.mp h'
    obtain rfl := Option.some.inj (h.symm.trans hn)
    simp
  · rw [Fs.entry_eq_ok.mpr ⟨hq, h, rfl⟩] at h'
    simp at h'
  · simp [hf, IoError.os, k.2.2]
  · simp [hc]

theorem read_spec (hp : p ≠ []) : (read p).Ensures d (Post
    (fun bs d' => d'.fs = d.fs ∧ d.fs.read p = some bs)
    (fun e d' => d'.fs = d.fs ∧
      (faults ∨ d.fs.Irregular p ∨ d.fs.names p = none ∧ e.kind = .notFound))
    (fun d' => d'.fs = d.fs ∧ crashes)) := by
  refine Ensures.bind (openRegular_spec hp) ?_ (fun e d' h => ?_) fun _ h => h
  · rintro file d₁ ⟨h₁, hn, hpos, -⟩
    refine Ensures.bind File.readToEnd_spec ?_ (fun e d' h => ⟨h.1.trans h₁, .inl h.2⟩)
      fun d' h => ⟨h.1.trans h₁, h.2⟩
    rintro ⟨bs, file'⟩ d₂ ⟨h₂, hbs⟩
    simp only [hpos, List.drop_zero] at hbs
    rw [ensures_pure]
    exact ⟨h₂.trans h₁, Fs.read_eq_some.mpr ⟨_, hn, by rw [hbs, h₁]⟩⟩
  · exact ⟨h.1, h.2.2.imp_right fun h' => h'.imp_right fun hk => ⟨h.2.1 hk, hk⟩⟩

/-- What publishing the pinned file at `q` by the call `c` does. A fault or a crash leaves the
files as they were, or strikes when `c` is done. -/
private theorem promote_spec {c : Fs.Call Unit} {fs : Fs} (hc : c d.fs = .ok ((), fs))
    (hq : q ≠ []) (h : fs.names q = some (.file source.ino)) :
    (do Disk.call c; validatePromotion source q).Ensures d (Post (fun _ d' => d'.fs = fs)
      (fun e d' => (d'.fs = d.fs ∨ d'.fs = fs) ∧ faults ∧ e.kind ≠ ErrorKind.alreadyExists)
      (fun d' => (d'.fs = d.fs ∨ d'.fs = fs) ∧ crashes)) := by
  rw [ensures_bind]
  refine Disk.ensures_call (fun _ fs' _ h' => ?_) (fun k _ h' => ?_) (fun hf k _ => ?_)
    fun hc _ => ?_
  · obtain rfl : fs = fs' := by
      rw [hc] at h'
      simpa using h'
    rw [post_ok]
    refine (validatePromotion_spec h hq).mono fun o d' h => ?_
    cases o with
    | ok => exact h
    | err => exact ⟨.inr h.1, h.2⟩
    | halt => exact ⟨.inr h.1, h.2⟩
  · rw [hc] at h'
    simp at h'
  · exact ⟨.inl rfl, hf, k.2.2⟩
  · exact ⟨.inl rfl, hc⟩

section Promote

variable (hp : p ≠ []) (hq : q ≠ []) (hd : d.fs.isDir q.dropLast)
  (hnp : d.fs.names p = some (.file source.ino)) (hnq : d.fs.names q = none)

include hp hq hd hnp hnq

theorem promoteRename_spec : (promoteRename source p q).Ensures d (Post
    (fun _ d' => d'.fs = d.fs.move p q (.file source.ino))
    (fun e d' => (d'.fs = d.fs ∨ d'.fs = d.fs.move p q (.file source.ino)) ∧ faults ∧
      e.kind ≠ .alreadyExists)
    (fun d' => (d'.fs = d.fs ∨ d'.fs = d.fs.move p q (.file source.ino)) ∧ crashes)) := by
  refine promote_spec (Fs.renameAt_eq_ok.mpr
    ⟨hp, hq, hd, by simp [hnq], .file source.ino, hnp, by simp, by simp [hnq]⟩) hq ?_
  rw [Fs.names_move hnp (by simp) hq hd (by simp [hnq]), Function.update_self]

theorem promoteRenameNoReplace_spec : (promoteRenameNoReplace source p q).Ensures d (Post
    (fun _ d' => d'.fs = d.fs.move p q (.file source.ino))
    (fun e d' => (d'.fs = d.fs ∨ d'.fs = d.fs.move p q (.file source.ino)) ∧ faults ∧
      e.kind ≠ .alreadyExists)
    (fun d' => (d'.fs = d.fs ∨ d'.fs = d.fs.move p q (.file source.ino)) ∧ crashes)) := by
  refine promote_spec (Fs.renameNoReplaceAt_eq_ok.mpr
    ⟨hp, hq, hd, hnq, .file source.ino, hnp, by simp, rfl⟩) hq ?_
  rw [Fs.names_move hnp (by simp) hq hd (by simp [hnq]), Function.update_self]

theorem promoteLink_spec : (promoteLink source p q).Ensures d (Post
    (fun _ d' => d'.fs = d.fs.setName q (.file source.ino))
    (fun e d' => (d'.fs = d.fs ∨ d'.fs = d.fs.setName q (.file source.ino)) ∧ faults ∧
      e.kind ≠ .alreadyExists)
    (fun d' => (d'.fs = d.fs ∨ d'.fs = d.fs.setName q (.file source.ino)) ∧ crashes)) := by
  refine promote_spec (Fs.linkAt_eq_ok.mpr
    ⟨hp, hq, hd, hnq, .file source.ino, hnp, by simp, rfl⟩) hq ?_
  have : d.fs.MayBind q (.file source.ino) :=
    ⟨hq, hd, by simp [hnq], fun i hi => d.fs.allocated p i (by rw [hnp, hi])⟩
  rw [Fs.names_setName this, Function.update_self]

end Promote

/-- No link is made where something stands already. -/
theorem promoteLink_taken (hp : p ≠ []) (hq : q ≠ []) (hnp : d.fs.names p = some (.file source.ino))
    (hnq : d.fs.names q ≠ none) : (promoteLink source p q).Ensures d (Post (fun _ _ => False)
      (fun e d' => d'.fs = d.fs ∧ (e.kind ≠ .alreadyExists → faults))
      (fun d' => d'.fs = d.fs ∧ crashes)) := by
  have hlink : Fs.linkAt p q d.fs = .error .alreadyExists := by
    obtain ⟨n, hn⟩ := Option.ne_none_iff_exists'.mp hnq
    rw [Fs.linkAt, Fs.parent_of_names hp (by simp [hnp]), Fs.parent_of_names hq hnq, hnp, hn]
    rfl
  rw [promoteLink, ensures_bind]
  refine Disk.ensures_call (fun _ fs _ h => ?_) (fun k _ h => ?_) (fun hf k _ => ?_) fun hc _ => ?_
  · rw [hlink] at h
    simp at h
  · obtain rfl : ErrorKind.alreadyExists = k := by
      rw [hlink] at h
      simpa using h
    exact ⟨rfl, fun h => absurd rfl h⟩
  · exact ⟨rfl, fun _ => hf⟩
  · exact ⟨rfl, hc⟩

/-- The files once the new file `p` is written. -/
structure Wrote (fs : Fs) (p : Path) (bs : Bytes) (fs' : Fs) : Prop where
  names : fs'.names = Function.update fs.names p (some (.file fs.next))
  data : fs'.data = Function.update fs.data fs.next bs
  next : fs'.next = fs.next + 1

/-- A file just created holds what is written to it. -/
private theorem wrote_create {fs : Fs} {bs : Bytes} (hp : p ≠ []) (hd : fs.isDir p.dropLast)
    (hn : (fs.unlink p).names p = none) :
    Wrote fs p bs (((fs.unlink p).create p).setData fs.next bs) where
  names := by
    have hnd : fs.names p ≠ some .dir := by
      intro h
      rw [Fs.unlink, dif_pos h, h] at hn
      simp at hn
    rw [Fs.names_setData, Fs.names_create hp (by rwa [Fs.isDir_unlink]) hn, Fs.names_unlink hnd,
      Fs.next_unlink, Function.update_idem]
  data := by simp
  next := by simp

theorem Wrote.within {fs fs' : Fs} {bs : Bytes} {K : Set Path} {J : Set ℕ} (h : Wrote fs p bs fs') :
    Fs.Within K {p} J fs fs' where
  names q hq := .inl (by rw [h.names, Function.update_of_ne hq])
  inodes q hq i hi hn := by
    rw [h.names, Set.mem_singleton_iff.mp hq, Function.update_self] at hn
    obtain rfl : fs.next = i := by simpa using hn
    omega
  data i hi _ := by rw [h.data, Function.update_of_ne (Nat.ne_of_lt hi)]
  next := by rw [h.next]; omega

theorem writeTemporary_spec {bs : Bytes} (hp : p ≠ []) :
    (writeTemporary p bs).Ensures d (Post
      (fun source d' => source.ino = d.fs.next ∧ d.fs.isDir p.dropLast ∧ Wrote d.fs p bs d'.fs)
      (fun _ d' => Fs.Within ∅ {p} ∅ d.fs d'.fs ∧
        (faults ∨ d.fs.Irregular p ∨ ¬d.fs.isDir p.dropLast))
      (fun d' => Fs.Within ∅ {p} ∅ d.fs d'.fs ∧ crashes)) := by
  have hunlink : Fs.Within ∅ {p} ∅ d.fs (d.fs.unlink p) := .unlink rfl
  refine Ensures.bind (removeIfExists_spec hp) ?_ (fun _ d' h => ?_) fun d' h => ?_
  · rintro - d₁ ⟨h₁, hn₁⟩
    rw [h₁] at hn₁
    refine Ensures.bind (createRegular_spec hp) ?_ (fun _ d' h => ?_) fun d' h => ?_
    · rintro file d₂ ⟨-, hd, h₂, rfl⟩
      rw [h₁, Fs.isDir_unlink] at hd
      have hfile : d₁.fs.next = d.fs.next := by rw [h₁]; simp
      have hwrote (bs : Bytes) : Wrote d.fs p bs (d₂.fs.setData d₁.fs.next bs) := by
        rw [h₂, hfile, h₁]
        exact wrote_create hp hd hn₁
      refine Ensures.bind (File.writeAll_spec (.inr (Nat.zero_le _))) ?_ (fun _ d' h => ?_)
        fun d' h => ?_
      · rintro source d₃ ⟨h₃, rfl⟩
        have hempty : d₂.fs.data d₁.fs.next = [] := by rw [h₂]; simp
        have h₃ : Wrote d.fs p bs d₃.fs := by
          rw [h₃]
          convert hwrote bs
          simp [File.written, hempty, Fs.splice]
        refine Ensures.bind File.syncAll_spec (fun _ d' h => ?_) (fun _ d' h => ?_) fun d' h => ?_
        · rw [ensures_pure]
          exact ⟨hfile, hd, by rwa [h]⟩
        · exact ⟨by rw [h.1]; exact h₃.within, .inl h.2⟩
        · exact ⟨by rw [h.1]; exact h₃.within, h.2⟩
      · obtain ⟨hf, n, h⟩ := h
        exact ⟨by rw [h]; exact (hwrote _).within, .inl hf⟩
      · obtain ⟨hc, n, h⟩ := h
        exact ⟨by rw [h]; exact (hwrote _).within, hc⟩
    · rw [h₁] at h
      refine ⟨?_, h.2.imp_right fun h' => ?_⟩
      · obtain h | ⟨-, -, h⟩ := h.1 <;> rw [h]
        · exact hunlink
        · exact hunlink.trans (.create rfl)
      · rw [Fs.isDir_unlink] at h'
        exact .inr (h'.resolve_left (not_not.mpr hn₁))
    · rw [h₁] at h
      obtain ⟨h | ⟨-, -, h⟩, hc⟩ := h <;> rw [Post, h]
      · exact ⟨hunlink, hc⟩
      · exact ⟨hunlink.trans (.create rfl), hc⟩
  · exact ⟨by rw [h.1], h.2.imp_right .inl⟩
  · exact ⟨by rw [h.1], h.2⟩

/-- The files once `p` was written and moved to `q`. -/
structure Replaced (fs : Fs) (q p : Path) (bs : Bytes) (fs' : Fs) : Prop where
  names : fs'.names = Function.update (Function.update fs.names p none) q (some (.file fs.next))
  data : fs'.data = Function.update fs.data fs.next bs
  next : fs'.next = fs.next + 1

/-- Whatever happens while `bs` is being published at `q`, there stands what stood there, or
nothing, or a new file that holds all of `bs`. -/
def NeverTorn (fs : Fs) (q : Path) (bs : Bytes) (fs' : Fs) : Prop :=
  fs'.names q = fs.names q ∨ fs'.names q = none ∨
    ∃ i, fs.next ≤ i ∧ fs'.names q = some (.file i) ∧ fs'.data i = bs

theorem Replaced.neverTorn {fs fs' : Fs} {bs : Bytes} (h : Replaced fs q p bs fs') :
    NeverTorn fs q bs fs' :=
  .inr (.inr ⟨fs.next, le_rfl, by rw [h.names]; simp, by rw [h.data]; simp⟩)

theorem Replaced.within {fs fs' : Fs} {bs : Bytes} {K : Set Path} {J : Set ℕ}
    (h : Replaced fs q p bs fs') : Fs.Within K {p, q} J fs fs' where
  names r hr := by
    simp only [Set.mem_insert_iff, Set.mem_singleton_iff, not_or] at hr
    exact .inl (by rw [h.names, Function.update_of_ne hr.2, Function.update_of_ne hr.1])
  inodes r hr i hi hn := by
    rw [h.names] at hn
    by_cases hrq : r = q
    · rw [hrq, Function.update_self] at hn
      obtain rfl : fs.next = i := by simpa using hn
      omega
    · rw [Function.update_of_ne hrq, hr.resolve_right hrq, Function.update_self] at hn
      simp at hn
  data i hi _ := by rw [h.data, Function.update_of_ne (Nat.ne_of_lt hi)]
  next := by rw [h.next]; omega

theorem replaceFile_spec {bs : Bytes} (hp : p ≠ []) (hq : q ≠ []) (hpq : q ≠ p)
    (hdir : q.dropLast = p.dropLast) :
    (replaceFile q p bs).Ensures d (Post
      (fun _ d' => d.fs.isDir p.dropLast ∧ Replaced d.fs q p bs d'.fs)
      (fun _ d' => (Fs.Within ∅ {p, q} ∅ d.fs d'.fs ∧ NeverTorn d.fs q bs d'.fs) ∧
        (faults ∨ d.fs.Irregular p ∨ d.fs.Irregular q ∨ ¬d.fs.isDir p.dropLast))
      (fun d' => (Fs.Within ∅ {p, q} ∅ d.fs d'.fs ∧ NeverTorn d.fs q bs d'.fs) ∧ crashes)) := by
  have hS : ({p} : Set Path) ⊆ {p, q} := Set.singleton_subset_iff.mpr (.inl rfl)
  have hqp : q ∉ ({p} : Set Path) := hpq
  -- up to the removal of the old file, `q` is as it was
  have early {fs' : Fs} (h : Fs.Within ∅ {p} ∅ d.fs fs') :
      Fs.Within ∅ {p, q} ∅ d.fs fs' ∧ NeverTorn d.fs q bs fs' :=
    ⟨h.mono le_rfl hS fun _ h => .inl h, .inl (h.names_eq' hqp (Set.notMem_empty q))⟩
  refine Ensures.bind (writeTemporary_spec hp) ?_ (fun _ d' h => ?_) fun d' h => ?_
  · rintro source d₁ ⟨hino, hd, h₁⟩
    have hd₁ : d₁.fs.isDir q.dropLast := by
      rw [hdir]
      refine h₁.within.isDir (fun h => ?_) hd (K := ∅) (J := ∅)
      have := congrArg List.length (Set.mem_singleton_iff.mp h)
      have := List.length_pos_iff.mpr hp
      simp only [List.length_dropLast] at *
      omega
    refine Ensures.bind (removeIfExists_spec hq) ?_ (fun _ d' h => ?_) fun d' h => ?_
    · rintro - d₂ ⟨h₂, hn₂⟩
      have hnd : d₁.fs.names q ≠ some .dir := by
        intro h
        rw [h₂, Fs.unlink, dif_pos h, h] at hn₂
        simp at hn₂
      have hnames : d₂.fs.names = Function.update d₁.fs.names q none := by
        rw [h₂, Fs.names_unlink hnd]
      have hp₂ : d₂.fs.names p = some (.file source.ino) := by
        rw [hnames, Function.update_of_ne hpq.symm, h₁.names, hino]
        simp
      have hd₂ : d₂.fs.isDir q.dropLast := by rwa [h₂, Fs.isDir_unlink]
      have removed : Fs.Within ∅ {p, q} ∅ d.fs d₂.fs := by
        rw [h₂]
        exact (h₁.within.mono le_rfl hS fun _ h => .inl h).trans (.unlink (.inr rfl))
      have hmove : Replaced d.fs q p bs (d₂.fs.move p q (.file source.ino)) :=
        { names := by
            rw [Fs.names_move hp₂ (by simp) hq hd₂ (by simp [hn₂]), hnames, h₁.names, hino]
            funext r
            by_cases hr : r = q
            · simp [hr]
            · by_cases hr' : r = p <;> simp [Function.update, hr, hr']
          data := by rw [Fs.data_move, h₂, Fs.data_unlink, h₁.data]
          next := by rw [Fs.next_move, h₂, Fs.next_unlink, h₁.next] }
      refine (promoteRename_spec hp hq hd₂ hp₂ hn₂).mono fun o d' h => ?_
      have late (h : d'.fs = d₂.fs ∨ d'.fs = d₂.fs.move p q (.file source.ino)) :
          Fs.Within ∅ {p, q} ∅ d.fs d'.fs ∧ NeverTorn d.fs q bs d'.fs := by
        obtain h | h := h <;> rw [h]
        · exact ⟨removed, .inr (.inl hn₂)⟩
        · exact ⟨hmove.within, hmove.neverTorn⟩
      cases o with
      | ok => exact ⟨hd, by rw [show d'.fs = _ from h]; exact hmove⟩
      | err => exact ⟨late h.1, .inl h.2.1⟩
      | halt => exact ⟨late h.1, h.2⟩
    · refine ⟨by rw [h.1]; exact early h₁.within, h.2.imp_right fun h' => .inr (.inl ?_)⟩
      rw [Fs.irregular_iff hq hd₁, h₁.names, Function.update_of_ne hpq] at h'
      exact .inr h'
    · exact ⟨by rw [h.1]; exact early h₁.within, h.2⟩
  · exact ⟨early h.1, h.2.imp_right fun h' => h'.imp_right .inr⟩
  · exact ⟨early h.1, h.2⟩

theorem openDirectory_spec : (openDirectory p).Ensures d (Post
    (fun _ d' => d'.fs = d.fs ∧ d.fs.names p = some .dir)
    (fun _ d' => d'.fs = d.fs ∧ (faults ∨ d.fs.names p ≠ some .dir))
    (fun d' => d'.fs = d.fs ∧ crashes)) := by
  refine Disk.ensures_call (fun _ fs _ h => ?_) (fun k _ h => ?_) (fun hf k _ => ?_) fun hc _ => ?_
  · rcases hn : d.fs.names p with _ | _ | _ | _ <;> simp [hn] at h ⊢
    exact h.symm
  · refine ⟨rfl, .inr fun hn => ?_⟩
    simp [hn] at h
  · exact ⟨rfl, .inl hf⟩
  · exact ⟨rfl, hc⟩

theorem ensureDirectoryFrom_spec (hd : d.fs.isDir p) (cs : Path) :
    (ensureDirectoryFrom p cs).Ensures d (Post
      (fun _ d' => Fs.Within (Fs.chain (p ++ cs)) ∅ ∅ d.fs d'.fs ∧ d'.fs.isDir (p ++ cs))
      (fun _ d' => Fs.Within (Fs.chain (p ++ cs)) ∅ ∅ d.fs d'.fs ∧
        (faults ∨ ¬d.fs.Creatable (p ++ cs)))
      (fun d' => Fs.Within (Fs.chain (p ++ cs)) ∅ ∅ d.fs d'.fs ∧ crashes)) := by
  induction cs generalizing p d with
  | nil => simpa [ensureDirectoryFrom, Fs.Within.refl] using hd
  | cons c cs ih =>
    have hc0 : p ++ [c] ≠ [] := by simp
    have hassoc : p ++ c :: cs = (p ++ [c]) ++ cs := by simp
    have hmem : p ++ [c] ∈ Fs.chain (p ++ c :: cs) :=
      ⟨hc0, by rw [hassoc]; exact List.prefix_append _ _⟩
    -- the rest of the way, once `p ++ [c]` was made or found
    have rest {d₁ : Disk (.alone faults crashes)}
        (h₁ : Fs.Within (Fs.chain (p ++ c :: cs)) ∅ ∅ d.fs d₁.fs)
        (hno : d₁.fs.names (p ++ [c]) ≠ some .dir → faults ∨ ¬d.fs.Creatable (p ++ c :: cs)) :
        (openDirectory (p ++ [c]) >>= fun _ => ensureDirectoryFrom (p ++ [c]) cs).Ensures d₁ (Post
          (fun _ d' => Fs.Within (Fs.chain (p ++ c :: cs)) ∅ ∅ d.fs d'.fs ∧
            d'.fs.isDir (p ++ c :: cs))
          (fun _ d' => Fs.Within (Fs.chain (p ++ c :: cs)) ∅ ∅ d.fs d'.fs ∧
            (faults ∨ ¬d.fs.Creatable (p ++ c :: cs)))
          (fun d' => Fs.Within (Fs.chain (p ++ c :: cs)) ∅ ∅ d.fs d'.fs ∧ crashes)) := by
      refine Ensures.bind openDirectory_spec ?_ (fun _ d' h => ?_) fun d' h => ?_
      · rintro - d₂ ⟨h₂, hdir⟩
        rw [← h₂] at h₁ hdir
        rw [hassoc] at h₁ ⊢
        refine (ih (Fs.isDir_iff.mpr (.inr hdir))).mono fun o d' h => ?_
        cases o with
        | ok => exact ⟨h₁.trans h.1, h.2⟩
        | err =>
          refine ⟨h₁.trans h.1, h.2.imp_right fun hn hcre => hn fun q hq => ?_⟩
          rcases h₁.names q (Set.notMem_empty q) with he | he
          · exact he ▸ hcre q hq
          · exact .inr he.2.2
        | halt => exact ⟨h₁.trans h.1, h.2⟩
      · exact ⟨by rw [h.1]; exact h₁, h.2.elim .inl hno⟩
      · exact ⟨by rw [h.1]; exact h₁, h.2⟩
    rw [ensureDirectoryFrom, ensures_bind, ensures_attempt]
    refine Disk.ensures_call (fun _ fs _ h => ?_) (fun k _ h => ?_) (fun hf k _ => ?_)
      fun hc _ => ?_
    · obtain ⟨-, -, hn, rfl⟩ := Fs.mkdirAt_eq_ok.mp h
      have hb : d.fs.MayBind (p ++ [c]) .dir := ⟨hc0, by simpa using hd, by simp [hn], by simp⟩
      simp only [post_ok]
      refine rest ?_ fun hne => absurd ?_ hne
      · exact .mkdir hmem (by simpa using hd) hc0 hn
      · rw [Fs.names_setName hb, Function.update_self]
    · obtain ⟨hn, hk⟩ | ⟨hn, rfl⟩ := Fs.mkdirAt_eq_error hc0 h
      · have := Fs.mkdirAt_eq_ok.mpr ⟨hc0, by simpa using hd, hn, rfl⟩
        rw [h] at this
        simp at this
      · simp only [post_err, post_ok, IoError.os, if_true]
        refine rest (.refl _) fun hne => .inr fun hcre => ?_
        exact (hcre _ hmem).elim hn hne
    · simp only [post_err, post_ok, IoError.os, k.2.2, if_false, ensures_bind, ensures_throw]
      exact ⟨.refl _, .inl hf⟩
    · exact ⟨.refl _, hc⟩

theorem ensureDirectory_spec : (ensureDirectory p).Ensures d (Post
    (fun _ d' => Fs.Within (Fs.chain p) ∅ ∅ d.fs d'.fs ∧ d'.fs.isDir p)
    (fun _ d' => Fs.Within (Fs.chain p) ∅ ∅ d.fs d'.fs ∧ (faults ∨ ¬d.fs.Creatable p))
    (fun d' => Fs.Within (Fs.chain p) ∅ ∅ d.fs d'.fs ∧ crashes)) :=
  ensureDirectoryFrom_spec (by simp [Fs.isDir]) p

end Storage

end Warpfile
