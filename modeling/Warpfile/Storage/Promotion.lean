import Warpfile.Foundation.Interference
import Warpfile.Storage.Access

/-!
# Publishing a pinned file while other programs act on the names

A file is hashed through the handle that is held open and published by its name, which may stand
for something else by then. `validatePromotion` compares what stands at the published name with
the pinned inode: whatever the other programs do, a promotion that returns has left the pinned
file there. The files after a promotion are those its validation saw, for the validation is the
last call and changes nothing.
-/

namespace Warpfile

open Prog

variable {Γ : Setting} {d d' : Disk Γ}

/-- Other programs do not write to the inode `i`, and it is not given to another file. -/
def Fs.Spares (i : ℕ) (fs fs' : Fs) : Prop := fs'.data i = fs.data i ∧ (i < fs.next → i < fs'.next)

instance {i : ℕ} : Std.Refl (Fs.Spares i) := ⟨fun _ => ⟨rfl, id⟩⟩

instance {i : ℕ} : IsTrans Fs (Fs.Spares i) :=
  ⟨fun _ _ _ h h' => ⟨h'.1.trans h.1, fun hi => h'.2 (h.2 hi)⟩⟩

/-! ### Promoting -/

namespace Storage

variable {source : File} {old new path : Path}

/-- What is validated is a regular file, and the pinned one. -/
theorem names_of_validatePromotion (h : (validatePromotion source path).Returns d () d') :
    d'.fs.names path = some (.file source.ino) := by
  obtain ⟨ino, d₁, h, hsame⟩ := returns_bind.mp h
  obtain ⟨node, d₂, hentry, h⟩ := returns_bind.mp h
  have hnames : d₂.fs.names path = some node := by
    obtain ⟨fs, -, -, hc⟩ := Disk.rely_anything.of_returns_syscall hentry
    obtain ⟨-, hn, hfs⟩ := Fs.entry_eq_ok.mp hc
    rw [hfs, hn]
  cases node with
  | file i =>
    obtain ⟨rfl, rfl⟩ := returns_pure.mp h
    split at hsame
    · exact absurd hsame not_returns_throw
    · rename_i hi
      obtain ⟨-, rfl⟩ := returns_pure.mp hsame
      rw [hnames, not_not.mp hi]
  | dir => exact absurd h not_returns_throw
  | symlink => exact absurd h not_returns_throw

theorem names_of_promoteRename (h : (promoteRename source old new).Returns d () d') :
    d'.fs.names new = some (.file source.ino) := by
  obtain ⟨_, _, -, h⟩ := returns_bind.mp h
  exact names_of_validatePromotion h

theorem names_of_promoteRenameNoReplace
    (h : (promoteRenameNoReplace source old new).Returns d () d') :
    d'.fs.names new = some (.file source.ino) := by
  obtain ⟨_, _, -, h⟩ := returns_bind.mp h
  exact names_of_validatePromotion h

theorem names_of_promoteLink (h : (promoteLink source old new).Returns d () d') :
    d'.fs.names new = some (.file source.ino) := by
  obtain ⟨_, _, -, h⟩ := returns_bind.mp h
  exact names_of_validatePromotion h

end Storage

/-! ### Reading a pinned file -/

namespace File

variable {file : File}

theorem of_returns_read {len : ℕ} {r : Bytes × File} (hd : d.Rely (Fs.Spares file.ino))
    (h : (file.read len).Returns d r d') :
    d'.Rely (Fs.Spares file.ino) ∧ d'.fs.data file.ino = d.fs.data file.ino ∧
      r.1 <+: (d.fs.data file.ino).drop file.pos ∧
      (0 < len → r.1 = [] → (d.fs.data file.ino).drop file.pos = []) ∧
      r.2 = { file with pos := file.pos + r.1.length } ∧ d'.limit file.ino ≤ d.limit file.ino := by
  obtain ⟨bytes, d₁, hread, h⟩ := returns_bind.mp h
  obtain ⟨rfl, rfl⟩ := returns_pure.mp h
  obtain ⟨fs, short, hturn, hc⟩ := hd.of_returns_syscall hread
  simp only [Fs.pread, Except.ok.injEq, Prod.mk.injEq] at hc
  obtain ⟨rfl, hfs⟩ := hc
  have hdata : fs.data file.ino = d.fs.data file.ino := hturn.acted.1
  refine ⟨hturn.rely _, by rw [← hfs, hdata], ?_, fun hlen h => ?_, rfl, ?_⟩
  · rw [hdata]
    exact (List.take_prefix ..).trans (List.take_prefix ..)
  · have := congrArg List.length h
    rw [hdata] at this
    simp only [List.length_take, List.length_nil] at this
    exact List.eq_nil_of_length_eq_zero (by omega)
  · have := hturn.limit_le file.ino
    rwa [hfs] at this

/-- The pieces that are read to the end of a pinned file make up its bytes. -/
theorem of_returns_foldReads {β : Type} {len : ℕ} {f : β → Bytes → β} {b : β} {r : β × File}
    (hlen : 0 < len) (hd : d.Rely (Fs.Spares file.ino))
    (h : (file.foldReads len f b).Returns d r d') :
    d'.Rely (Fs.Spares file.ino) ∧ d'.fs.data file.ino = d.fs.data file.ino ∧
      ∃ pieces : List Bytes, pieces.flatten = (d.fs.data file.ino).drop file.pos ∧
        r.1 = pieces.foldl f b := by
  have main : (file.foldReads len f b).Ensures d (Post (fun r d' =>
      d'.Rely (Fs.Spares file.ino) ∧ d'.fs.data file.ino = d.fs.data file.ino ∧
        ∃ pieces : List Bytes, pieces.flatten = (d.fs.data file.ino).drop file.pos ∧
          r.1 = pieces.foldl f b) (fun _ _ => True) fun _ => True) := by
    refine Ensures.loop (fun s d₁ => d₁.Rely (Fs.Spares file.ino) ∧
      d₁.fs.data file.ino = d.fs.data file.ino ∧ ∃ pieces : List Bytes,
        pieces.flatten <+: (d.fs.data file.ino).drop file.pos ∧ s.1 = pieces.foldl f b ∧
        s.2 = { file with pos := file.pos + pieces.flatten.length }) ?_
      ⟨hd, rfl, [], by simp, rfl, by simp⟩
    rintro ⟨b', file'⟩ d₁ ⟨hrely, hdata, pieces, ⟨rest, hrest⟩, rfl, rfl⟩
    have hleft : (d₁.fs.data file.ino).drop (file.pos + pieces.flatten.length) = rest := by
      rw [hdata, ← List.drop_drop, ← hrest, List.drop_left]
    refine Ensures.bind (ensures_of_returns fun _ _ => of_returns_read hrely) ?_
      (fun _ _ _ => trivial) fun _ _ => trivial
    rintro ⟨bytes, file'⟩ d₂ ⟨hrely', hdata', hpre, hend, hfile', hlimit⟩
    simp only at hpre hend hfile' hdata' hlimit
    subst hfile'
    rw [hleft] at hpre hend
    rw [ensures_pure]
    by_cases hbytes : bytes = []
    · subst hbytes
      have hdone := hend hlen rfl
      subst hdone
      simp only [if_true, post_ok, Sum.elim_inr]
      exact ⟨hrely', hdata'.trans hdata, pieces, by simpa using hrest, rfl⟩
    · obtain ⟨rest', rfl⟩ := hpre
      simp only [if_neg hbytes, post_ok, Sum.elim_inl]
      refine ⟨⟨hrely', hdata'.trans hdata, pieces ++ [bytes], ⟨rest', by simpa using hrest⟩,
        by simp, ?_⟩, ?_⟩
      · simp [Nat.add_assoc]
      · have hlen' := congrArg List.length hleft
        have hpos := List.length_pos_iff.mpr hbytes
        have hle := Disk.length_le_limit (d := d₁) (i := file.ino)
        simp only [remaining, List.length_append, List.length_drop] at *
        omega
  exact main.of_returns h

/-- A write keeps the handle on its file. -/
theorem eq_of_returns_writeAll {bytes : Bytes} {file' : File}
    (h : (file.writeAll bytes).Returns d file' d') :
    file' = { file with pos := file.pos + bytes.length } := by
  unfold File.writeAll at h
  split at h
  · rename_i hnil
    obtain ⟨rfl, -⟩ := returns_pure.mp h
    simp [hnil]
  · dsimp only at h
    split at h
    all_goals
      obtain ⟨_, _, -, h⟩ := returns_bind.mp h
      exact (returns_pure.mp h).1.symm

/-- What is written to a pinned file is there. -/
theorem of_returns_writeAll {bytes : Bytes} {file' : File} (hd : d.Rely (Fs.Spares file.ino))
    (hpos : file.append = true ∨ file.pos = (d.fs.data file.ino).length)
    (h : (file.writeAll bytes).Returns d file' d') :
    d'.Rely (Fs.Spares file.ino) ∧ d'.fs.data file.ino = d.fs.data file.ino ++ bytes := by
  unfold File.writeAll at h
  split at h
  · rename_i hnil
    obtain ⟨-, rfl⟩ := returns_pure.mp h
    exact ⟨hd, by simp [hnil]⟩
  · dsimp only at h
    split at h
    all_goals
      rename_i happend
      obtain ⟨⟨⟩, t, hrun, h⟩ := returns_bind.mp h
      obtain ⟨-, rfl⟩ := returns_pure.mp h
      obtain ⟨fs, -, hturn, hc⟩ := hd.of_returns_syscall hrun
      have hdata : fs.data file.ino = d.fs.data file.ino := hturn.acted.1
      refine ⟨hturn.rely _, ?_⟩
    · have hfs : t.fs = fs.append file.ino bytes := by simpa using (Except.ok.inj hc).symm
      rw [hfs, Fs.append, Fs.data_setData, Function.update_self, hdata]
    · have hfs : t.fs = fs.pwrite file.ino file.pos bytes := by
        simpa using (Except.ok.inj hc).symm
      rw [hfs, Fs.pwrite, Fs.data_setData, Function.update_self, hdata,
        hpos.resolve_left happend, Fs.splice_length]

end File

/-! ### The receipt -/

section

variable {source : File} {path : Path} {encoded : Bytes}

/-- The new file is empty. -/
theorem Storage.of_returns_createNew {read write append : Bool}
    (hd : d.Rely (Fs.Spares source.ino))
    (h : (openRegular path read write append true).Returns d source d') :
    d'.Rely (Fs.Spares source.ino) ∧ d'.fs.data source.ino = [] ∧ source.pos = 0 := by
  obtain ⟨node, d₁, hcreate, h⟩ := returns_bind.mp h
  obtain ⟨i, d₂, hi, hnode⟩ := returns_bind.mp hcreate
  obtain ⟨rfl, rfl⟩ := returns_pure.mp hnode
  obtain ⟨len, d₃, hstat, h⟩ := returns_bind.mp h
  obtain ⟨rfl, rfl⟩ := returns_pure.mp h
  obtain ⟨fs, -, hturn, hc⟩ := hd.of_returns_syscall hi
  obtain ⟨-, -, -, rfl, hfs⟩ := Fs.createAt_eq_ok.mp hc
  obtain ⟨fs₂, -, hturn₂, hc₂⟩ :=
    Disk.Rely.of_returns_syscall (d := d₂) (E := Fs.Spares fs.next) (hturn.rely _) hstat
  have hstat : d₃.fs = fs₂ := (Prod.mk.inj (Except.ok.inj hc₂)).2.symm
  refine ⟨hturn₂.rely _, ?_, rfl⟩
  rw [hstat, hturn₂.acted.1, hfs, Fs.data_create, Function.update_self]

/-- The new file holds what was written to it. -/
theorem Storage.of_returns_writeTemporary (hd : d.Rely (Fs.Spares source.ino))
    (h : (writeTemporary path encoded).Returns d source d') :
    d'.fs.data source.ino = encoded := by
  obtain ⟨⟨⟩, d₁, hremove, h⟩ := returns_bind.mp h
  obtain ⟨file, d₂, hopen, h⟩ := returns_bind.mp h
  obtain ⟨source', d₃, hwrite, h⟩ := returns_bind.mp h
  obtain ⟨⟨⟩, d₄, hsync, h⟩ := returns_bind.mp h
  obtain ⟨rfl, rfl⟩ := returns_pure.mp h
  have hsource := File.eq_of_returns_writeAll hwrite
  have hino : file.ino = source'.ino := by rw [hsource]
  rw [← hino] at hd ⊢
  have hd₁ : d₁.Rely (Fs.Spares file.ino) := (((respects_removeIfExists
    (U := .relying Γ (Fs.Spares file.ino)) trivial).invariant hd).of_returns hremove).1
  obtain ⟨hd₂, hempty, hpos⟩ := of_returns_createNew hd₁ hopen
  obtain ⟨hd₃, hwritten⟩ := File.of_returns_writeAll hd₂ (.inr (by simp [hempty, hpos])) hwrite
  obtain ⟨fs, -, hturn, hc⟩ := hd₃.of_returns_syscall hsync
  have hfs : d₄.fs = fs := (Prod.mk.inj (Except.ok.inj hc)).2.symm
  rw [hfs, hturn.acted.1, hwritten, hempty, List.nil_append]

end

end Warpfile
