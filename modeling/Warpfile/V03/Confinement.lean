import Warpfile.Storage.Artifacts
import Warpfile.V02.Access
import Warpfile.V03.Access

/-!
# A session keeps to its own files

What a session does cannot be influenced by the files of other transfers, and does not change them:
run beside other contents of these files it returns the same, sends the same and leaves the same
(`Confined.blind`), and the files themselves stay as they are (`Confined.frame`). The names of other
transfers are those of all other filenames and Transfer IDs; to a session that has no safe filename
everything in the destination directory is foreign.
-/

namespace Warpfile

open Prog

/-! ### Hidden files -/

namespace Fs

variable {F : Set Path} {fs fs' : Fs}

/-- Distinct names denote distinct inodes. -/
def Distinct (fs : Fs) : Prop :=
  ∀ p q i, fs.names p = some (.file i) → fs.names q = some (.file i) → p = q

/-- The inodes behind some names. -/
def behind (fs : Fs) (F : Set Path) : Set ℕ := {i | ∃ p ∈ F, fs.names p = some (.file i)}

/-- The two differ only in what stands at the names `F`. -/
structure EqOutside (F : Set Path) (fs fs' : Fs) : Prop where
  names : ∀ p ∉ F, fs.names p = fs'.names p
  data : ∀ i, i ∉ fs.behind F → i ∉ fs'.behind F → fs.data i = fs'.data i
  next : fs.next = fs'.next

theorem EqOutside.refl (fs : Fs) : EqOutside F fs fs := ⟨fun _ _ => rfl, fun _ _ _ => rfl, rfl⟩

/-- The hidden files are those that stand at the names. -/
theorem EqOutside.beside (h : EqOutside F fs fs') (hd : fs.Distinct) (hd' : fs'.Distinct) :
    Beside F (fs.behind F ∪ fs'.behind F) fs fs' fs fs' where
  names := h.names
  data i hi := h.data i (fun h' => hi (.inl h')) fun h' => hi (.inr h')
  next := h.next
  lt_next i hi := by
    rcases hi with ⟨p, -, hp⟩ | ⟨p, -, hp⟩
    · exact fs.allocated p i hp
    · rw [h.next]
      exact fs'.allocated p i hp
  apart p hp i hi hn := by
    rcases hi with ⟨q, hq, hq'⟩ | ⟨q, hq, hq'⟩
    · exact hp (hd p q i hn hq' ▸ hq)
    · exact hp (hd' p q i ((h.names p hp).symm.trans hn) hq' ▸ hq)
  left _ _ := rfl
  left_data _ _ := rfl
  right _ _ := rfl
  right_data _ _ := rfl

variable {J : Set ℕ} {a b : Fs} {p : Path}

/-- What is hidden stays as it was. -/
theorem Beside.read (h : Beside F J a b fs fs') (hp : p ∈ F) (hJ : a.behind F ⊆ J) :
    fs.names p = a.names p ∧ fs.read p = a.read p := by
  refine ⟨h.left p hp, ?_⟩
  have hinode : fs.inode p = a.inode p := by rw [Fs.inode, Fs.inode, h.left p hp]
  rw [Fs.read, Fs.read, hinode]
  rcases hi : a.inode p with _ | i
  · rfl
  · exact congrArg some (h.left_data i (hJ ⟨p, hp, inode_eq_some.mp hi⟩))

theorem Beside.eqOutside (h : Beside F (a.behind F ∪ b.behind F) a b fs fs') :
    EqOutside F fs fs' where
  names := h.names
  data i hi hi' := by
    refine h.data i ?_
    rintro (⟨p, hp, hn⟩ | ⟨p, hp, hn⟩)
    · exact hi ⟨p, hp, (h.left p hp).trans hn⟩
    · exact hi' ⟨p, hp, (h.right p hp).trans hn⟩
  next := h.next

end Fs

/-! ### Sessions -/

variable {faults crashes : Bool} {ε α : Type}

/-- Run from `w`, the program neither learns nor changes anything of the names `F`. -/
structure Confined (F : Set Path) (p : Prog (Session (.alone faults crashes)) ε α)
    (w : Session (.alone faults crashes)) : Prop where
  frame : w.fs.Distinct → ∀ q ∈ F,
    (p w).2.fs.names q = w.fs.names q ∧ (p w).2.fs.read q = w.fs.read q
  blind : ∀ w' : Session (.alone faults crashes), w.fs.Distinct → w'.fs.Distinct →
    Fs.EqOutside F w.fs w'.fs → w.disk.sched = w'.disk.sched → w.net = w'.net →
    w.log.map Prod.fst = w'.log.map Prod.fst →
      (p w).1 = (p w').1 ∧ (p w).2.net = (p w').2.net ∧
        (p w).2.log.map Prod.fst = (p w').2.log.map Prod.fst ∧
        Fs.EqOutside F (p w).2.fs (p w').2.fs

variable {F : Set Path} {w : Session (.alone faults crashes)}

/-- A program that keeps to the names that are not hidden, whatever is hidden. -/
theorem Confined.of_respects {p : Prog (Session (.alone faults crashes)) ε α}
    (h : ∀ J a b, ∀ w', (Footprint.hiding F J a b faults crashes).Alike w w' →
      (p w).1 = (p w').1 ∧ (Footprint.hiding F J a b faults crashes).Alike (p w).2 (p w').2) :
    Confined F p w where
  frame hd q hq := by
    have hB := (Fs.EqOutside.refl w.fs).beside (F := F) hd hd
    obtain ⟨-, h'⟩ := h _ _ _ w ⟨⟨hB, rfl⟩, rfl, rfl⟩
    exact h'.disk.1.read hq Set.subset_union_left
  blind w' hd hd' he hsched hnet hlog := by
    obtain ⟨ho, h'⟩ := h _ _ _ w' ⟨⟨he.beside hd hd', hsched⟩, hnet, hlog⟩
    exact ⟨ho, h'.net, h'.log, h'.disk.1.eqOutside⟩

/-- The names that a session keeps off, by the filename and the Transfer ID it was offered. -/
def hiddenPaths (dest : Path) : Option (String × TransferId) → Set Path
  | some (filename, T) =>
    if isSafeFilename filename then foreignPaths dest filename T else insidePaths dest
  | none => insidePaths dest

theorem open_hiddenPaths {dest q : Path} {offered : Option (String × TransferId)}
    (h : q ∈ Fs.chain dest) : Fs.Open (hiddenPaths dest offered) q := by
  have inside : hiddenPaths dest offered ⊆ insidePaths dest := by
    rcases offered with _ | ⟨filename, T⟩
    · exact subset_rfl
    · unfold hiddenPaths
      dsimp only
      split
      · exact foreignPaths_subset
      · exact subset_rfl
  exact fun r hr hmem => open_insidePaths h.2 r hr (inside hmem)

/-- A session may use the names of its own transfer. -/
theorem transfer_hiding {dest : Path} {filename : String} {T : TransferId} {J : Set ℕ} {a b : Fs}
    (hsafe : isSafeFilename filename) :
    (Footprint.hiding (hiddenPaths dest (some (filename, T))) J a b faults crashes).Transfer dest
      filename T := by
  have own {q : Path} (hq : q ∈ transferPaths dest filename) :
      Fs.Open (hiddenPaths dest (some (filename, T))) q := by
    rw [hiddenPaths, if_pos hsafe]
    exact open_of_mem_transferPaths hq
  have chain {d q : Path} (hd : Fs.Open (foreignPaths dest filename T) d) (hq : q ∈ Fs.chain d) :
      Fs.Open (hiddenPaths dest (some (filename, T))) q := by
    rw [hiddenPaths, if_pos hsafe]
    exact hd.of_prefix hq.2
  refine ⟨fun q hq => open_hiddenPaths hq, fun q hq => chain open_partialsDirectory hq,
    own ?_, own ?_, ⟨own ?_, own ?_⟩, ⟨own ?_, own ?_⟩, ?_, ?_, fun q hq => chain open_receiptsDirectory hq⟩
  iterate 6 simp [transferPaths]
  · change Fs.Open (hiddenPaths dest (some (filename, T))) _
    rw [hiddenPaths, if_pos hsafe]
    exact open_completionReceiptPath.1
  · change Fs.Open (hiddenPaths dest (some (filename, T))) _
    rw [hiddenPaths, if_pos hsafe]
    exact open_completionReceiptPath.2

/-- What is served after an offer keeps to the names of the offer. -/
theorem Confined.bind {β : Type} {V : β → Prop} {p : Prog (Session (.alone faults crashes)) ε β}
    {f : β → Prog (Session (.alone faults crashes)) ε α}
    (hp : ∀ J a b, p.Respects (Footprint.hiding F J a b faults crashes).Alike V)
    (hf : ∀ x, (p w).1 = .ok x → V x → ∀ J a b,
      (f x).Respects (Footprint.hiding F J a b faults crashes).Alike Any) :
    Confined F (p >>= f) w := by
  refine .of_respects fun J a b w' hw => ?_
  obtain ⟨ho, hR, hV⟩ := hp J a b w w' hw
  change (Prog.bind p f w).1 = (Prog.bind p f w').1 ∧
    (Footprint.hiding F J a b faults crashes).Alike (Prog.bind p f w).2 (Prog.bind p f w').2
  have hf := hf
  unfold Prog.bind
  rcases hs : p w with ⟨o, s⟩
  rcases ht : p w' with ⟨o', t⟩
  rw [hs, ht] at ho hR
  rw [hs] at hV hf
  obtain rfl : o = o' := ho
  cases o with
  | ok x =>
    obtain ⟨ho, hR, -⟩ := hf x rfl (hV x rfl) J a b s t hR
    exact ⟨ho, hR⟩
  | err e => exact ⟨rfl, hR⟩
  | halt => exact ⟨rfl, hR⟩

section

variable [Crates]

/-- The filename and the Transfer ID of the offer of a session, where one is accepted. -/
def V02.offered (w : Session (.alone faults crashes)) : Option (String × TransferId) :=
  match (V02.receiveOffer w).1 with
  | .ok offer => some (offer.filename, offer.transferId)
  | _ => none

theorem V02.confined_receiveConnection (dest : Path) (w : Session (.alone faults crashes)) :
    Confined (hiddenPaths dest (V02.offered w)) (V02.receiveConnection dest) w := by
  refine .bind (fun _ _ _ => V02.respects_receiveOffer) fun offer hoffer hsafe J a b => ?_
  have hoffered : V02.offered w = some (offer.filename, offer.transferId) := by
    rw [V02.offered, hoffer]
  rw [hoffered]
  exact V02.respects_receiveOffered (transfer_hiding hsafe)

/-- The beginning of a session of WFP/0.3, up to its offer. -/
def V03.beginning (dest : Path) :
    Prog (Session (.alone faults crashes)) V03.ReceiverV03SessionError FileOfferV03 := do
  World.onDisk ((Storage.ensureDirectory dest).mapErr .io)
  V03.receiveOfferV03

def V03.offered (dest : Path) (w : Session (.alone faults crashes)) :
    Option (String × TransferId) :=
  match (V03.beginning dest w).1 with
  | .ok offer => some (offer.filename, offer.transferId)
  | _ => none

private theorem receiveSessionV03_eq (dest : Path) :
    (V03.receiveSessionV03 dest : Prog (Session (.alone faults crashes)) _ _) =
      V03.beginning dest >>= V03.receiveOfferedV03 dest := by
  funext w
  change Prog.bind _ _ w = Prog.bind (Prog.bind _ _) _ w
  unfold Prog.bind
  rcases World.onDisk ((Storage.ensureDirectory dest).mapErr V03.ReceiverV03SessionError.io) w with
    ⟨_ | _ | _, s⟩ <;> rfl

theorem V03.confined_receiveSessionV03 (dest : Path) (w : Session (.alone faults crashes)) :
    Confined (hiddenPaths dest (V03.offered dest w)) (V03.receiveSessionV03 dest) w := by
  rw [receiveSessionV03_eq]
  refine .bind (V := Any) (fun J a b => ?_) fun offer hoffer _ J a b => ?_
  · exact (Footprint.onDisk (Storage.respects_ensureDirectory
      fun q hq => open_hiddenPaths hq).mapErr).bind fun _ _ => V03.respects_receiveOfferV03
  · have hoffered : V03.offered dest w = some (offer.filename, offer.transferId) := by
      rw [V03.offered, hoffer]
    rw [hoffered]
    exact V03.respects_receiveOfferedV03 fun hsafe => transfer_hiding hsafe

/-- **Path confinement.** The names of transfers do not meet, and a session keeps to its own. -/
structure Confinement (dest : Path) : Prop where
  child : ∀ filename, isSafeFilename filename → ∃ name, IsComponent name ∧
    name ≠ internalDirectoryName ∧ finalPath dest filename = dest ++ [name]
  distinct : ∀ filename, (transferPaths dest filename).Nodup
  disjoint : ∀ filename filename', filename ≠ filename' →
    (transferPaths dest filename).Disjoint (transferPaths dest filename')
  receipts : ∀ filename T, completionReceiptPath dest T ∉ transferPaths dest filename ∧
    completionReceiptTemporaryPath dest T ∉ transferPaths dest filename
  injective : Function.Injective (completionReceiptPath dest)
  session : ∀ (faults crashes : Bool) (w : Session (.alone faults crashes)),
    Confined (hiddenPaths dest (V02.offered w)) (V02.receiveConnection dest) w
  sessionV03 : ∀ (faults crashes : Bool) (w : Session (.alone faults crashes)),
    Confined (hiddenPaths dest (V03.offered dest w)) (V03.receiveSessionV03 dest) w

/-- Every destination directory confines its sessions. -/
theorem confinement (dest : Path) : Confinement dest where
  child filename h := ⟨filename, isComponent_of_isSafeFilename h, ne_internal_of_isSafeFilename h, rfl⟩
  distinct _ := nodup_transferPaths
  disjoint _ _ := disjoint_transferPaths
  receipts _ _ := receipt_notMem_transferPaths
  injective _ _ := completionReceiptPath_inj.mp
  session _ _ := V02.confined_receiveConnection dest
  sessionV03 _ _ := V03.confined_receiveSessionV03 dest

end

end Warpfile
