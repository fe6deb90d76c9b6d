import Warpfile.Storage.CompletionReceipt
import Warpfile.Storage.SerdeJson

/-!
# Receipts over many calls

Receipts are written by one process at a time, and the process may be killed at any step of a
call; what it leaves is the state in which the next one starts (`ReceiptRun`). Since a kill may
come at every step, what holds after every run holds at every moment.

The first receipt of a Transfer ID that is published stays, complete, for ever.
-/

namespace Warpfile

variable {Γ : Setting} {dest : Path}

open Prog

/-! ### What stands at a name stays a regular file -/

/-- What stands at the names in `S` is a regular file. -/
def Fs.Regular (S : Set Path) (fs : Fs) : Prop :=
  ∀ p ∈ S, fs.names p = none ∨ ∃ i, fs.names p = some (.file i)

/-- Where nothing but regular files stood at the names in `S`, it is still so. -/
def Fs.StaysRegular (S : Set Path) (fs fs' : Fs) : Prop := fs.Regular S → fs'.Regular S

instance {S : Set Path} : Std.Refl (Fs.StaysRegular S) := ⟨fun _ h => h⟩

instance {S : Set Path} : IsTrans Fs (Fs.StaysRegular S) := ⟨fun _ _ _ h h' hr => h' (h hr)⟩

section

variable {S : Set Path} {fs fs' : Fs} {p q : Path} {faults crashes : Bool}

/-- Where something stands there are its directories. -/
theorem Fs.creatable_of_names (h : fs.names p ≠ none) : fs.Creatable p.dropLast := by
  refine fun q hq => .inr (fs.rooted _ q h (hq.2.trans (List.dropLast_prefix p)) hq.1 ?_)
  rintro rfl
  have := hq.2.length_le
  have := List.length_pos_iff.mpr hq.1
  simp only [List.length_dropLast] at *
  omega

/-- A regular file can stand where one stands, or nothing. -/
theorem Fs.Regular.not_irregular (h : fs.Regular S) (hp : p ∈ S) (hb : ¬fs.Blocked p) :
    ¬fs.Irregular p := by
  rintro (hi | hi | hi)
  · exact hb hi
  · rcases h p hp with hn | ⟨i, hn⟩ <;> exact nomatch hi.symm.trans hn
  · rcases h p hp with hn | ⟨i, hn⟩ <;> exact nomatch hi.symm.trans hn

theorem Fs.staysRegular_of_names (h : fs'.names = fs.names) : fs.StaysRegular S fs' := by
  intro hr p hp
  rw [h]
  exact hr p hp

theorem Fs.staysRegular_unlink : fs.StaysRegular S (fs.unlink p) := by
  intro hr q hq
  by_cases h : q = p
  · subst h
    rcases (Fs.names_unlink_self : (fs.unlink q).names q = none ∨ _) with h | h
    · exact .inl h
    · rcases hr q hq with h' | ⟨i, h'⟩
      · rw [Fs.unlink_eq_self h']
        exact .inl h'
      · rw [Fs.names_unlink (by simp [h']), Function.update_self]
        exact .inl rfl
  · rw [Fs.names_unlink_of_ne h]
    exact hr q hq

theorem Fs.staysRegular_setName {n : Node} (h : p ∈ S → ∃ i, n = .file i) :
    fs.StaysRegular S (fs.setName p n) := by
  intro hr q hq
  by_cases hqp : q = p
  · subst hqp
    obtain ⟨i, rfl⟩ := h hq
    by_cases hb : fs.MayBind q (.file i)
    · rw [Fs.names_setName hb, Function.update_self]
      exact .inr ⟨i, rfl⟩
    · rw [Fs.setName, dif_neg hb]
      exact hr q hq
  · rw [Fs.names_setName_of_ne hqp]
    exact hr q hq

theorem Fs.staysRegular_move {n : Node} (hp : p ∈ S) (hn : fs.names p = some n) :
    fs.StaysRegular S (fs.move p q n) := by
  intro hr
  rcases hr p hp with h | ⟨i, h⟩
  · exact absurd (h.symm.trans hn) (by simp)
  · obtain rfl : n = .file i := Option.some.inj (hn.symm.trans h)
    exact Fs.staysRegular_setName (fun _ => ⟨i, rfl⟩) (Fs.staysRegular_unlink hr)

/-- The program leaves regular files at the names in `S`. -/
abbrev KeepsRegular {ε α : Type} (S : Set Path)
    (c : Prog (Disk (.alone faults crashes)) ε α) : Prop := c.Keeps (Disk.OnFs (Fs.StaysRegular S))

theorem keepsRegular_bind {ε α β : Type} {c : Prog (Disk (.alone faults crashes)) ε α}
    {f : α → Prog (Disk (.alone faults crashes)) ε β} (hc : KeepsRegular S c)
    (hf : ∀ a, KeepsRegular S (f a)) : KeepsRegular S (c >>= f) := Keeps.bind hc hf

theorem keepsRegular_pure {ε α : Type} {a : α} :
    KeepsRegular S (pure a : Prog (Disk (.alone faults crashes)) ε α) := Keeps.pure a

theorem keepsRegular_throw {ε α : Type} {e : ε} :
    KeepsRegular S (throw e : Prog (Disk (.alone faults crashes)) ε α) := Keeps.throw e

/-- A call that changes no name. -/
theorem keepsRegular_syscall {α : Type} {call : ℕ → Fs.Call α} {torn : ℕ → Fs → Fs}
    (run : ∀ short fs a fs', call short fs = .ok (a, fs') → fs'.names = fs.names)
    (htorn : ∀ n fs, (torn n fs).names = fs.names) :
    KeepsRegular S (syscall call torn : Prog (Disk (.alone faults crashes)) _ _) :=
  Disk.keeps_syscall (fun short fs a fs' h => Fs.staysRegular_of_names (run short fs a fs' h))
    fun n fs => Fs.staysRegular_of_names (htorn n fs)

theorem keepsRegular_entry :
    KeepsRegular S (Disk.call (Fs.entry p) : Prog (Disk (.alone faults crashes)) _ _) :=
  keepsRegular_syscall (fun _ fs a fs' h => by rw [(Fs.entry_eq_ok.mp h).2.2]) fun _ _ => rfl

theorem keepsRegular_fstat {i : ℕ} :
    KeepsRegular S (Disk.call (Fs.fstat i) : Prog (Disk (.alone faults crashes)) _ _) := by
  refine keepsRegular_syscall (fun _ fs a fs' h => ?_) fun _ _ => rfl
  simp only [Fs.fstat, Except.ok.injEq, Prod.mk.injEq] at h
  rw [h.2]

theorem keepsRegular_fsync :
    KeepsRegular S (Disk.fsync : Prog (Disk (.alone faults crashes)) _ _) := by
  refine keepsRegular_syscall (fun _ fs a fs' h => ?_) fun _ _ => rfl
  simp only [Except.ok.injEq, Prod.mk.injEq] at h
  rw [h.2]

theorem keepsRegular_pread {i pos len : ℕ} :
    KeepsRegular S (Disk.pread i pos len : Prog (Disk (.alone faults crashes)) _ _) := by
  refine keepsRegular_syscall (fun short fs a fs' h => ?_) fun _ _ => rfl
  simp only [Fs.pread, Except.ok.injEq, Prod.mk.injEq] at h
  rw [h.2]

/-- What was opened is looked at, and nothing changes. -/
private theorem keepsRegular_fstatOpened {append : Bool} (node : Node) :
    KeepsRegular S (match node with
      | .file ino => do
        let _ ← Disk.call (Fs.fstat ino)
        return ⟨ino, 0, append⟩
      | _ => throw Storage.notARegularFile : Prog (Disk (.alone faults crashes)) IoError File) := by
  cases node with
  | file i => exact keepsRegular_bind keepsRegular_fstat fun _ => keepsRegular_pure
  | dir => exact keepsRegular_throw
  | symlink => exact keepsRegular_throw

theorem keepsRegular_openRegular {read write append createNew : Bool} :
    KeepsRegular S (Storage.openRegular p read write append createNew :
      Prog (Disk (.alone faults crashes)) _ _) := by
  unfold Storage.openRegular
  cases createNew with
  | true =>
    refine keepsRegular_bind (keepsRegular_bind ?_ fun i => keepsRegular_pure)
      keepsRegular_fstatOpened
    refine Disk.keeps_call fun fs a fs' h => ?_
    obtain ⟨-, -, -, -, rfl⟩ := Fs.createAt_eq_ok.mp h
    refine IsTrans.trans _ _ _ (Fs.staysRegular_of_names (show fs.alloc.names = fs.names from rfl)) ?_
    exact Fs.staysRegular_setName fun _ => ⟨_, rfl⟩
  | false =>
    refine keepsRegular_bind ?_ keepsRegular_fstatOpened
    refine keepsRegular_syscall (fun _ fs a fs' h => ?_) fun _ _ => rfl
    rw [(Fs.openAt_eq_ok.mp h).2.2.2.2]

theorem keepsRegular_removeFile :
    KeepsRegular S (Storage.removeFile p : Prog (Disk (.alone faults crashes)) _ _) := by
  refine keepsRegular_bind ?_ fun _ => keepsRegular_bind (Keeps.attempt ?_) fun r => ?_
  · refine keepsRegular_syscall (fun _ fs a fs' h => ?_) fun _ _ => rfl
    rcases hpar : fs.parent p with k | ⟨⟩ <;> rw [hpar] at h
    · exact nomatch h
    · exact congrArg Fs.names (Prod.mk.inj (Except.ok.inj h)).2.symm
  · exact keepsRegular_bind keepsRegular_openRegular fun file =>
      keepsRegular_bind keepsRegular_fstat fun _ => keepsRegular_pure
  · rcases r with e | metadata
    · dsimp only
      split
      · exact keepsRegular_pure
      · exact keepsRegular_throw
    · refine keepsRegular_bind ?_ fun _ => ?_
      · unfold Storage.rejectNonRegular
        split
        · exact keepsRegular_pure
        · exact keepsRegular_throw
      · refine Disk.keeps_call fun fs a fs' h => ?_
        rw [(Fs.unlinkAt_eq_ok.mp h).2.2]
        exact Fs.staysRegular_unlink

theorem keepsRegular_orElseIfNotFound {α : Type}
    {c : Prog (Disk (.alone faults crashes)) IoError α} {default : α} (h : KeepsRegular S c) :
    KeepsRegular S (Storage.orElseIfNotFound c default) := by
  refine keepsRegular_bind h.attempt fun r => ?_
  rcases r with e | a
  · dsimp only
    split
    · exact keepsRegular_pure
    · exact keepsRegular_throw
  · exact keepsRegular_pure

theorem keepsRegular_read :
    KeepsRegular S (Storage.read p : Prog (Disk (.alone faults crashes)) _ _) := by
  unfold Storage.read File.readToEnd File.foldReads
  refine keepsRegular_bind keepsRegular_openRegular fun file => keepsRegular_bind ?_ fun _ => keepsRegular_pure
  refine Keeps.loop (fun b => ?_) _
  exact keepsRegular_bind (keepsRegular_bind keepsRegular_pread fun _ => keepsRegular_pure) fun _ => keepsRegular_pure

theorem keepsRegular_writeTemporary {encoded : Bytes} :
    KeepsRegular S (Storage.writeTemporary p encoded : Prog (Disk (.alone faults crashes)) _ _) := by
  refine keepsRegular_bind (keepsRegular_orElseIfNotFound keepsRegular_removeFile) fun _ =>
    keepsRegular_bind keepsRegular_openRegular fun file => keepsRegular_bind ?_ fun source =>
      keepsRegular_bind keepsRegular_fsync fun _ => keepsRegular_pure
  have written {call : ℕ → Fs.Call Unit} {torn : ℕ → Fs → Fs}
      (h : ∀ short fs, ∃ bs, call short fs = .ok ((), fs.setData file.ino bs))
      (ht : ∀ n fs, ∃ bs, torn n fs = fs.setData file.ino bs) :
      KeepsRegular S (syscall call torn : Prog (Disk (.alone faults crashes)) _ _) := by
    refine keepsRegular_syscall (fun short fs a fs' hc => ?_) fun n fs => ?_
    · obtain ⟨bs, hbs⟩ := h short fs
      rw [← (Prod.mk.inj (Except.ok.inj (hbs.symm.trans hc))).2]
      rfl
    · obtain ⟨bs, hbs⟩ := ht n fs
      rw [hbs]
      rfl
  unfold File.writeAll
  split
  · exact keepsRegular_pure
  · dsimp only
    split
    · refine keepsRegular_bind ?_ fun _ => keepsRegular_pure
      exact written (fun _ _ => ⟨_, rfl⟩) fun _ _ => ⟨_, rfl⟩
    · refine keepsRegular_bind ?_ fun _ => keepsRegular_pure
      exact written (fun _ _ => ⟨_, rfl⟩) fun _ _ => ⟨_, rfl⟩

theorem keepsRegular_promoteRenameNoReplace {source : File} (hp : p ∈ S) :
    KeepsRegular S (Storage.promoteRenameNoReplace source p q :
      Prog (Disk (.alone faults crashes)) _ _) := by
  refine keepsRegular_bind ?_ fun _ => keepsRegular_bind (keepsRegular_bind keepsRegular_entry fun node => ?_) fun i => ?_
  · refine Disk.keeps_call fun fs a fs' h => ?_
    obtain ⟨-, -, -, -, n, hn, -, rfl⟩ := Fs.renameNoReplaceAt_eq_ok.mp h
    exact Fs.staysRegular_move hp hn
  · cases node with
    | file i => exact keepsRegular_pure
    | dir => exact keepsRegular_throw
    | symlink => exact keepsRegular_throw
  · split
    · exact keepsRegular_throw
    · exact keepsRegular_pure

theorem keepsRegular_ensureDirectory (h : ∀ q ∈ Fs.chain p, q ∉ S) :
    KeepsRegular S (Storage.ensureDirectory p : Prog (Disk (.alone faults crashes)) _ _) := by
  have main (cs base : Path) (h : ∀ q ∈ Fs.chain (base ++ cs), q ∉ S) : KeepsRegular S
      (Storage.ensureDirectoryFrom base cs : Prog (Disk (.alone faults crashes)) _ _) := by
    induction cs generalizing base with
    | nil => exact keepsRegular_pure
    | cons c cs ih =>
      have next : KeepsRegular S (do
          Storage.openDirectory (base ++ [c])
          Storage.ensureDirectoryFrom (base ++ [c]) cs :
            Prog (Disk (.alone faults crashes)) _ _) := by
        refine keepsRegular_bind ?_ fun _ => ih (base ++ [c]) (by simpa using h)
        refine keepsRegular_syscall (fun _ fs a fs' hc => ?_) fun _ _ => rfl
        split at hc
        · exact nomatch hc
        · rw [(Prod.mk.inj (Except.ok.inj hc)).2]
        · exact nomatch hc
      unfold Storage.ensureDirectoryFrom
      refine keepsRegular_bind (Keeps.attempt ?_) fun r => ?_
      · refine Disk.keeps_call fun fs a fs' hc => ?_
        obtain ⟨-, -, -, rfl⟩ := Fs.mkdirAt_eq_ok.mp hc
        refine Fs.staysRegular_setName fun hS => absurd hS (h _ ⟨by simp, ?_⟩)
        exact ⟨cs, by simp⟩
      · rcases r with e | _
        · dsimp only
          split
          · exact next
          · exact keepsRegular_bind keepsRegular_throw fun _ => next
        · exact next
  exact main p [] h

end

/-! ### One call -/

section

variable [Crates] {fs fs' : Fs} {receipt : CompletionReceipt} {faults crashes : Bool}
  {d : Disk (.alone faults crashes)} {T : TransferId}

/-- The names of all receipts, and of the temporary files they are written to. -/
def allReceiptNames (dest : Path) : Set Path := {p | ∃ T, p ∈ receiptNames dest T}

omit [Crates] in
theorem dropLast_of_mem_allReceiptNames {p : Path} (h : p ∈ allReceiptNames dest) :
    p ≠ [] ∧ p.dropLast = receiptsDirectory dest := by
  obtain ⟨T, rfl | hp⟩ := h
  · exact ⟨appendSuffix_ne_nil, dropLast_completionReceiptTemporaryPath⟩
  · rw [Set.mem_singleton_iff.mp hp]
    exact ⟨completionReceiptPath_ne_nil, dropLast_completionReceiptPath⟩

omit [Crates] in
/-- Where the directory of the receipts can be made, a temporary file can. -/
theorem Fs.Creatable.not_blocked_temporary {fs : Fs} (h : fs.Creatable (receiptsDirectory dest)) :
    ¬fs.Blocked (completionReceiptTemporaryPath dest T) :=
  Fs.Creatable.not_blocked (by rwa [dropLast_completionReceiptTemporaryPath]) appendSuffix_ne_nil

omit [Crates] in
theorem notMem_allReceiptNames {p : Path} (h : p ∈ Fs.chain (receiptsDirectory dest)) :
    p ∉ allReceiptNames dest := fun hp => by
  obtain ⟨hp0, hd⟩ := dropLast_of_mem_allReceiptNames hp
  rw [← hd] at h
  exact Fs.notMem_chain_dropLast hp0 h

theorem keepsRegular_readCompletionReceipt {S : Set Path} :
    KeepsRegular S (readCompletionReceipt dest T : Prog (Disk (.alone faults crashes)) _ _) := by
  refine keepsRegular_bind (keepsRegular_read.mapErr _) fun bytes => ?_
  refine keepsRegular_bind (Keeps.ofExcept _) fun receipt => ?_
  split
  · exact keepsRegular_bind keepsRegular_throw fun _ => keepsRegular_pure
  · exact keepsRegular_pure

/-- A call leaves regular files where there were any. -/
theorem keepsRegular_writeCompletionReceipt : KeepsRegular (allReceiptNames dest)
    (writeCompletionReceipt dest receipt : Prog (Disk (.alone faults crashes)) _ _) := by
  have compared (c : CompletionReceipt) : KeepsRegular (allReceiptNames dest)
      (if c = receipt then pure () else throw .conflictingReceipt :
        Prog (Disk (.alone faults crashes)) CompletionReceiptError Unit) := by
    split
    · exact keepsRegular_pure
    · exact keepsRegular_throw
  unfold writeCompletionReceipt
  refine keepsRegular_bind (Keeps.mapErr ?_ _) fun _ =>
    keepsRegular_bind (Keeps.mapErr ?_ _) fun exists? => ?_
  · rw [dropLast_completionReceiptPath]
    exact keepsRegular_ensureDirectory fun q hq => notMem_allReceiptNames hq
  · exact keepsRegular_orElseIfNotFound (keepsRegular_bind keepsRegular_entry fun _ =>
      keepsRegular_pure)
  · cases exists? with
    | true => exact keepsRegular_bind keepsRegular_readCompletionReceipt compared
    | false =>
      refine keepsRegular_bind (keepsRegular_writeTemporary.mapErr _) fun source => ?_
      refine keepsRegular_bind (Keeps.attempt (keepsRegular_promoteRenameNoReplace
        ⟨_, .inl rfl⟩)) fun r => ?_
      rcases r with e | _
      · dsimp only
        split
        · exact keepsRegular_bind keepsRegular_readCompletionReceipt compared
        · exact keepsRegular_throw
      · exact keepsRegular_pure

/-- Where a receipt is published, a call only compares with it. -/
theorem writeCompletionReceipt_of_receipt {published : CompletionReceipt}
    (h : d.fs.receipt dest receipt.transferId = some published) :
    (writeCompletionReceipt dest receipt).Ensures d (Post (fun _ _ => published = receipt)
      (fun e _ => e = .conflictingReceipt ∧ published ≠ receipt ∨ faults) fun _ => crashes) := by
  obtain ⟨i, hi⟩ := Fs.names_of_receipt h
  have hn : d.fs.names (completionReceiptPath dest receipt.transferId) ≠ none := by simp [hi]
  rw [writeCompletionReceipt, dropLast_completionReceiptPath]
  refine Ensures.bind_mapErr Storage.ensureDirectory_spec ?_ (fun e d' h' => ?_) fun d' h' => h'.2
  · rintro - d₁ ⟨h₁, hdir⟩
    have hnames : d₁.fs.names (completionReceiptPath dest receipt.transferId) = some (.file i) :=
      (h₁.names_eq (Set.notMem_empty _) hn).trans hi
    refine Ensures.bind_mapErr (Storage.pathExists_spec completionReceiptPath_ne_nil) ?_
      (fun e d' h' => .inr (h'.2.resolve_right fun hb => ?_)) fun d' h' => h'.2
    · rintro b d₂ ⟨h₂, hb⟩
      rw [if_pos (hb.mpr (by simp [hnames]))]
      refine Ensures.bind readCompletionReceipt_spec ?_ (fun e d' h' => ?_) fun d' h' => h'.2
      · rintro r d₃ ⟨-, hr⟩
        rw [h₂, h₁.receipt_eq h (Set.notMem_empty _) fun j _ => Set.notMem_empty j] at hr
        obtain rfl : published = r := Option.some.inj hr
        split_ifs with heq
        · exact ensures_pure.mpr heq
        · exact ensures_throw.mpr (.inl ⟨rfl, heq⟩)
      · refine .inr (h'.2.resolve_right fun hnone => ?_)
        rw [h₂, h₁.receipt_eq h (Set.notMem_empty _) fun j _ => Set.notMem_empty j] at hnone
        cases hnone
    · exact absurd (hb.names_eq_none completionReceiptPath_ne_nil) (by simp [hnames])
  · refine .inr (h'.2.resolve_right fun hc => hc ?_)
    rw [← @dropLast_completionReceiptPath dest receipt.transferId]
    exact Fs.creatable_of_names hn

/-- Where something else stands in the place of a receipt, a call fails, and leaves it. -/
theorem writeCompletionReceipt_refused
    (hn : d.fs.names (completionReceiptPath dest receipt.transferId) ≠ none)
    (hr : d.fs.receipt dest receipt.transferId ≠ some receipt) :
    (writeCompletionReceipt dest receipt).Ensures d (Post (fun _ _ => False)
      (fun _ d' => Fs.Within (Fs.chain (receiptsDirectory dest)) ∅ ∅ d.fs d'.fs)
      (fun d' => Fs.Within (Fs.chain (receiptsDirectory dest)) ∅ ∅ d.fs d'.fs ∧ crashes)) := by
  rw [writeCompletionReceipt, dropLast_completionReceiptPath]
  refine Ensures.bind_mapErr Storage.ensureDirectory_spec ?_ (fun e d' h => h.1) fun d' h => h
  rintro - d₁ ⟨h₁, -⟩
  have still {fs : Fs} (h : fs = d₁.fs) :
      Fs.Within (Fs.chain (receiptsDirectory dest)) ∅ ∅ d.fs fs := h ▸ h₁
  have hn₁ := h₁.names_eq (Set.notMem_empty _) hn
  refine Ensures.bind_mapErr (Storage.pathExists_spec completionReceiptPath_ne_nil) ?_
    (fun e d' h => still h.1) fun d' h => ⟨still h.1, h.2⟩
  rintro b d₂ ⟨h₂, hb⟩
  rw [if_pos (hb.mpr (by rwa [hn₁]))]
  refine Ensures.bind readCompletionReceipt_spec ?_ (fun e d' h => still (h.1.trans h₂))
    fun d' h => ⟨still (h.1.trans h₂), h.2⟩
  rintro r d₃ ⟨h₃, hread⟩
  have hne : r ≠ receipt := by
    rintro rfl
    have hsame := h₁.read (Set.notMem_empty _) hn fun i _ => Set.notMem_empty i
    rw [h₂, Fs.receipt, hsame] at hread
    exact hr hread
  rw [if_neg hne, ensures_throw]
  exact still (h₃.trans h₂)

end

/-! ### Many calls -/

section

variable [Crates] {fs₀ fs fs' fs'' : Fs} {receipt : CompletionReceipt} {T : TransferId}
  {rs rs' : List CompletionReceipt} {o : Outcome CompletionReceiptError Unit}

/-- A call of a process that may be killed. -/
def ReceiptCall (dest : Path) (fs : Fs) (receipt : CompletionReceipt)
    (o : Outcome CompletionReceiptError Unit) (fs' : Fs) : Prop :=
  ∃ d d' : Disk (.alone false true), d.fs = fs ∧ d'.fs = fs' ∧
    writeCompletionReceipt dest receipt d = (o, d')

/-- Calls one after the other, each after the one before returned or was killed. -/
inductive ReceiptRun (dest : Path) (fs₀ : Fs) : List CompletionReceipt → Fs → Prop
  | nil : ReceiptRun dest fs₀ [] fs₀
  | snoc {rs : List CompletionReceipt} {fs fs' : Fs} {receipt : CompletionReceipt}
      {o : Outcome CompletionReceiptError Unit} (run : ReceiptRun dest fs₀ rs fs)
      (filename : receipt.filename ≠ "") (call : ReceiptCall dest fs receipt o fs') :
      ReceiptRun dest fs₀ (rs ++ [receipt]) fs'

/-- No receipt is published, and a call can publish one. Temporary files may be there, with
whatever contents. -/
structure NoReceipts (dest : Path) (fs : Fs) : Prop where
  creatable : fs.Creatable (receiptsDirectory dest)
  temporary : ∀ T, fs.names (completionReceiptTemporaryPath dest T) = none ∨
    ∃ i, fs.names (completionReceiptTemporaryPath dest T) = some (.file i)
  receipt : ∀ T, fs.names (completionReceiptPath dest T) = none

/-- Every receipt that is there is complete, and was the argument of a call. -/
structure Receipts (dest : Path) (rs : List CompletionReceipt) (fs : Fs) : Prop where
  creatable : fs.Creatable (receiptsDirectory dest)
  regular : fs.Regular (allReceiptNames dest)
  published : ∀ T, fs.names (completionReceiptPath dest T) = none ∨ ∃ r ∈ rs, r.transferId = T ∧
    fs.read (completionReceiptPath dest T) = some (encodeCompletionReceipt r)
  filename : ∀ r ∈ rs, r.filename ≠ ""

theorem NoReceipts.receipts (h : NoReceipts dest fs) : Receipts dest [] fs where
  creatable := h.creatable
  regular := by
    rintro p ⟨T, rfl | hp⟩
    · exact h.temporary T
    · rw [Set.mem_singleton_iff.mp hp]
      exact .inl (h.receipt T)
  published T := .inl (h.receipt T)
  filename := by simp

/-- What a call does to the receipt of any Transfer ID. -/
theorem ReceiptStep.read (h : fs.ReceiptStep dest receipt fs') (T : TransferId) :
    (fs'.names (completionReceiptPath dest T) = fs.names (completionReceiptPath dest T) ∧
      fs'.read (completionReceiptPath dest T) = fs.read (completionReceiptPath dest T)) ∨
    T = receipt.transferId ∧ fs.names (completionReceiptPath dest T) = none ∧
      fs'.read (completionReceiptPath dest T) = some (encodeCompletionReceipt receipt) := by
  obtain ⟨hw, hkept⟩ := h
  have same (hn : fs'.names (completionReceiptPath dest T) =
      fs.names (completionReceiptPath dest T)) :
      fs'.read (completionReceiptPath dest T) = fs.read (completionReceiptPath dest T) := by
    unfold Fs.read Fs.inode
    rw [hn]
    split
    · rename_i i hi
      rw [Option.map_some, Option.map_some, hw.data i (fs.allocated _ i hi) (Set.notMem_empty i)]
    · rfl
  by_cases hT : T = receipt.transferId
  · subst hT
    rcases hkept with hn | ⟨hnone, i, -, hi, hdata, -⟩
    · exact .inl ⟨hn, same hn⟩
    · exact .inr ⟨rfl, hnone, Fs.read_eq_some.mpr ⟨i, hi, hdata⟩⟩
  · have hn := hw.names_eq' (p := completionReceiptPath dest T) (fun hp => ?_) fun hc => ?_
    · exact .inl ⟨hn, same hn⟩
    · rcases hp with hp | hp
      · exact completionReceiptPath_ne_temporaryPath hp
      · exact hT (completionReceiptPath_inj.mp (Set.mem_singleton_iff.mp hp))
    · exact notMem_allReceiptNames hc ⟨T, .inr rfl⟩

/-- Where a call found its receipt or published it, the receipt can be read. -/
theorem ReceiptStep.receipt_eq (h : fs.ReceiptStep dest receipt fs') (hname : receipt.filename ≠ "")
    (hr : fs.receipt dest receipt.transferId = some receipt ∨ fs.ReceiptPublished dest receipt fs') :
    fs'.receipt dest receipt.transferId = some receipt := by
  rcases hr with hr | hpub
  · rcases ReceiptStep.read h receipt.transferId with ⟨-, hread⟩ | ⟨-, hnone, -⟩
    · rwa [Fs.receipt, hread]
    · exact absurd (Fs.receipt_eq_none hnone) (by simp [hr])
  · exact hpub.receipt_eq hname

/-- **One call** keeps what is published, and adds at most its argument. -/
theorem Receipts.call (h : Receipts dest rs fs) (hname : receipt.filename ≠ "")
    (hcall : ReceiptCall dest fs receipt o fs') : Receipts dest (rs ++ [receipt]) fs' ∧
      ∀ T bs, fs.read (completionReceiptPath dest T) = some bs →
        fs'.read (completionReceiptPath dest T) = some bs := by
  obtain ⟨d, d', rfl, rfl, hrun⟩ := hcall
  have hstep : d.fs.ReceiptStep dest receipt d'.fs := by
    have hspec := (writeCompletionReceipt_spec (d := d)).of_eq hrun
    cases o <;> exact hspec.1
  refine ⟨⟨?_, ?_, fun T => ?_, ?_⟩, fun T bs hbs => ?_⟩
  · exact hstep.1.creatable (fun q hq hS => notMem_allReceiptNames hq ⟨_, hS⟩) h.creatable
  · exact (keepsRegular_writeCompletionReceipt d).of_eq hrun h.regular
  · rcases ReceiptStep.read hstep T with ⟨hn, hread⟩ | ⟨rfl, -, hread⟩
    · rcases h.published T with hnone | ⟨r, hr, hrT, hbs⟩
      · exact .inl (hn.trans hnone)
      · exact .inr ⟨r, List.mem_append_left _ hr, hrT, hread.trans hbs⟩
    · exact .inr ⟨receipt, by simp, rfl, hread⟩
  · simp only [List.mem_append, List.mem_singleton, or_imp, forall_and, forall_eq]
    exact ⟨h.filename, hname⟩
  · rcases ReceiptStep.read hstep T with ⟨-, hread⟩ | ⟨rfl, hnone, -⟩
    · rw [hread, hbs]
    · obtain ⟨i, hi, -⟩ := Fs.read_eq_some.mp hbs
      rw [hnone] at hi
      exact nomatch hi

/-- **The runs.** -/
theorem ReceiptRun.receipts (hrun : ReceiptRun dest fs₀ rs fs) {rs₀ : List CompletionReceipt}
    (h : Receipts dest rs₀ fs₀) : Receipts dest (rs₀ ++ rs) fs ∧
      ∀ T bs, fs₀.read (completionReceiptPath dest T) = some bs →
        fs.read (completionReceiptPath dest T) = some bs := by
  induction hrun with
  | nil => exact ⟨by rwa [List.append_nil], fun _ _ h => h⟩
  | snoc run filename call ih =>
    obtain ⟨h₁, hkept₁⟩ := ih
    obtain ⟨h₂, hkept₂⟩ := h₁.call filename call
    exact ⟨by rwa [← List.append_assoc], fun T bs hbs => hkept₂ T bs (hkept₁ T bs hbs)⟩

/-- A receipt that is there can be read. -/
theorem Receipts.receipt_eq (h : Receipts dest rs fs)
    (hn : fs.names (completionReceiptPath dest T) ≠ none) :
    ∃ r ∈ rs, fs.receipt dest T = some r := by
  obtain ⟨r, hr, rfl, hread⟩ := (h.published T).resolve_left hn
  exact ⟨r, hr, by
    simp [Fs.receipt, hread, decode_encodeCompletionReceipt (h.filename r hr), Except.toOption]⟩

/-- How a call ends: it succeeds where no other receipt is published, and then its own can be read;
otherwise it reports a conflict. -/
def CallEnds (dest : Path) (receipt : CompletionReceipt) (fs fs' : Fs) :
    Outcome CompletionReceiptError Unit → Prop
  | .ok () => fs'.receipt dest receipt.transferId = some receipt ∧
    ∀ r, fs.receipt dest receipt.transferId = some r → r = receipt
  | .err e => e = .conflictingReceipt ∧
    ∃ r, fs.receipt dest receipt.transferId = some r ∧ r ≠ receipt
  | .halt => True

end

/-- The call that a disk gives rise to. -/
theorem receiptCall_run {receipt : CompletionReceipt} [Crates] (d : Disk (.alone false true)) :
    ReceiptCall dest d.fs receipt (writeCompletionReceipt dest receipt d).1
      (writeCompletionReceipt dest receipt d).2.fs := ⟨d, _, rfl, rfl, rfl⟩

/-- A process that is killed in its call `n`, after it wrote `torn` bytes in it. -/
def killedAt (n torn : ℕ) (fs : Fs) : Disk (.alone false true) :=
  ⟨fs, List.replicate n (.go 0) ++ [.crash rfl torn]⟩

/-- The receipt of an empty file. -/
def emptyReceipt : CompletionReceipt := ⟨Block.ofBytes 16 [1], "a", 0, digestOf []⟩

end Warpfile
