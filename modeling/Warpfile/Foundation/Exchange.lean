import Warpfile.Foundation.World

/-!
# Two programs at the two ends of a connection

A program that runs on an open connection is a function of the bytes it has received: it has
written some bytes, and it has returned or it waits for more. `Delivered` says which bytes can have
reached either side: any part of what the other side has written, in any portions. Nothing is left
to deliver in a `Quiescent` state.

A *script* is the order in which a program sends and receives messages. Where both programs follow
a script, one the dual of the other, every order of deliveries ends with both of them having
returned, and neither ever waits for the other in vain (`completes_of_dual`).
-/

namespace Warpfile

/-! ### Scripts -/

/-- What a program does next on its connection. -/
inductive Act where
  | send (message : Bytes)
  | recv (message : Bytes)
  deriving DecidableEq, Repr

/-- The messages a program sends and receives, in their order. -/
abbrev Script : Type := List Act

namespace Act

def sent : Act → Bytes
  | send message => message
  | recv _ => []

def received : Act → Bytes
  | send _ => []
  | recv message => message

/-- What the other side does meanwhile. -/
def dual : Act → Act
  | send message => recv message
  | recv message => send message

@[simp]
theorem sent_dual (act : Act) : act.dual.sent = act.received := by cases act <;> rfl

@[simp]
theorem received_dual (act : Act) : act.dual.received = act.sent := by cases act <;> rfl

end Act

namespace Script

/-- The bytes that are sent. -/
def sends (script : Script) : Bytes := script.flatMap Act.sent

/-- The bytes that are received. -/
def recvs (script : Script) : Bytes := script.flatMap Act.received

/-- The script of the other side. -/
def dual (script : Script) : Script := script.map Act.dual

variable {script script' : Script} {act : Act} {m : Bytes}

@[simp]
theorem sends_nil : sends [] = [] := rfl

@[simp]
theorem recvs_nil : recvs [] = [] := rfl

@[simp]
theorem sends_cons : sends (act :: script) = act.sent ++ sends script := rfl

@[simp]
theorem recvs_cons : recvs (act :: script) = act.received ++ recvs script := rfl

@[simp]
theorem sends_append : sends (script ++ script') = sends script ++ sends script' :=
  List.flatMap_append

@[simp]
theorem recvs_append : recvs (script ++ script') = recvs script ++ recvs script' :=
  List.flatMap_append

@[simp]
theorem sends_dual : sends (dual script) = recvs script := by
  simp [sends, recvs, dual, List.flatMap_map]

@[simp]
theorem recvs_dual : recvs (dual script) = sends script := by
  simp [sends, recvs, dual, List.flatMap_map]

@[simp]
theorem dual_append : dual (script ++ script') = dual script ++ dual script' := List.map_append

@[simp]
theorem dual_flatMap {ι : Type} {f : ι → Script} {xs : List ι} :
    dual (xs.flatMap f) = xs.flatMap fun x => dual (f x) := List.map_flatMap

/-- The place a script has come to once `input` was received: before a message of which only a part
is there. -/
structure Pending (script : Script) (input : Bytes) (before : Script) (part message : Bytes)
    (after : Script) : Prop where
  script_eq : script = before ++ .recv message :: after
  input_eq : input = recvs before ++ part
  part_prefix : part <+: message
  part_ne : part ≠ message

/-- All that a script receives is there, or it waits in a place. -/
theorem exists_pending {input : Bytes} (h : input <+: recvs script) :
    input = recvs script ∨ ∃ before part message after,
      Pending script input before part message after := by
  induction script generalizing input with
  | nil => exact .inl (List.prefix_nil.mp h)
  | cons act script ih =>
    cases act with
    | send m =>
      have h : input <+: recvs script := h
      obtain heq | ⟨before, part, message, after, hp⟩ := ih h
      · exact .inl heq
      · refine .inr ⟨.send m :: before, part, message, after, ?_, hp.input_eq, hp.part_prefix,
          hp.part_ne⟩
        rw [hp.script_eq, List.cons_append]
    | recv m =>
      have h : input <+: m ++ recvs script := h
      by_cases hm : m <+: input
      · obtain ⟨rest, rfl⟩ := hm
        obtain heq | ⟨before, part, message, after, hp⟩ :=
          ih ((List.prefix_append_right_inj m).mp h)
        · exact .inl (by rw [heq]; rfl)
        · refine .inr ⟨.recv m :: before, part, message, after, ?_, ?_, hp.part_prefix, hp.part_ne⟩
          · rw [hp.script_eq, List.cons_append]
          · rw [hp.input_eq, recvs_cons, List.append_assoc]
            rfl
      · have hle : input <+: m :=
          (List.prefix_or_prefix_of_prefix h (List.prefix_append m _)).resolve_right hm
        exact .inr ⟨[], input, m, script, rfl, rfl, hle, fun he => hm (he ▸ List.prefix_rfl)⟩

/-- Where all that a part of the script receives is there, the place comes after that part. -/
theorem Pending.prefix_before {input : Bytes} {before after first second : Script}
    {part message : Bytes} (h : Pending script input before part message after)
    (hs : script = first ++ second) (hi : recvs first <+: input) : first <+: before := by
  have hb : before ++ .recv message :: after = first ++ second := h.script_eq.symm.trans hs
  obtain ⟨l, rfl⟩ | hle : before <+: first ∨ first <+: before :=
    List.prefix_or_prefix_of_prefix ⟨_, rfl⟩ ⟨_, hb.symm⟩
  swap
  · exact hle
  rw [List.append_assoc, List.append_cancel_left_eq] at hb
  cases l with
  | nil => rw [List.append_nil]
  | cons act l =>
    -- the message of the place would be there
    rw [List.cons_append, List.cons.injEq] at hb
    rw [h.input_eq, recvs_append, ← hb.1, recvs_cons, List.prefix_append_right_inj] at hi
    have hm : message <+: part := (List.prefix_append message _).trans hi
    exact absurd (h.part_prefix.eq_of_length_le hm.length_le) h.part_ne

theorem not_pending_nil {input part message : Bytes} {before after : Script} :
    ¬Pending [] input before part message after := fun h => by
  have := h.script_eq
  simp at this

/-- A place in two scripts that follow each other. -/
theorem Pending.cases_append {input : Bytes} {before after : Script} {part message : Bytes}
    (h : Pending (script ++ script') input before part message after) :
    (∃ after', Pending script input before part message after') ∨
      ∃ rest before', input = recvs script ++ rest ∧ before = script ++ before' ∧
        Pending script' rest before' part message after := by
  by_cases hs : recvs script <+: input
  · obtain ⟨before', rfl⟩ := h.prefix_before rfl hs
    have hi := h.input_eq
    rw [recvs_append, List.append_assoc] at hi
    refine .inr ⟨recvs before' ++ part, before', hi, rfl, ?_, rfl, h.part_prefix, h.part_ne⟩
    have := h.script_eq
    rwa [List.append_assoc, List.append_cancel_left_eq] at this
  · obtain ⟨l, rfl⟩ | hle : before <+: script ∨ script <+: before :=
      List.prefix_or_prefix_of_prefix ⟨_, h.script_eq.symm⟩ ⟨_, rfl⟩
    · have heq := h.script_eq
      rw [List.append_assoc, List.append_cancel_left_eq] at heq
      cases l with
      | nil =>
        refine absurd ?_ hs
        rw [List.append_nil, h.input_eq]
        exact ⟨_, rfl⟩
      | cons act l =>
        rw [List.cons_append, List.cons.injEq] at heq
        exact .inl ⟨l, by rw [heq.1], h.input_eq, h.part_prefix, h.part_ne⟩
    · obtain ⟨l, rfl⟩ := hle
      refine absurd ?_ hs
      rw [h.input_eq, recvs_append, List.append_assoc]
      exact ⟨_, rfl⟩

end Script

/-! ### Deliveries -/

/-- The bytes that can have reached the two sides, `x` from the first program and `y` from the
second, where each writes what it does on what it has received. -/
inductive Delivered (a b : Bytes → Bytes) : Bytes → Bytes → Prop
  | start : Delivered a b [] []
  | first {x x' y : Bytes} (before : Delivered a b x y) (more : x <+: x') (le : x' <+: a y) :
      Delivered a b x' y
  | second {x y y' : Bytes} (before : Delivered a b x y) (more : y <+: y') (le : y' <+: b x) :
      Delivered a b x y'

/-- Nothing is left to deliver. -/
def Quiescent (a b : Bytes → Bytes) (x y : Bytes) : Prop := a y = x ∧ b x = y

/-- Every order of deliveries can be continued until nothing is left to deliver, and then `P` holds
of what was delivered. -/
structure Completes (a b : Bytes → Bytes) (P : Bytes → Bytes → Prop) : Prop where
  reaches : ∀ x y, Delivered a b x y → ∃ x' y', x <+: x' ∧ y <+: y' ∧ Delivered a b x' y' ∧
    Quiescent a b x' y'
  ends : ∀ x y, Delivered a b x y → Quiescent a b x y → P x y

theorem completes_mono {a b : Bytes → Bytes} {P Q : Bytes → Bytes → Prop} (h : Completes a b P)
    (hPQ : ∀ x y, P x y → Q x y) : Completes a b Q :=
  ⟨h.reaches, fun x y hd hq => hPQ x y (h.ends x y hd hq)⟩

/-- A program follows a script: what it has written is what comes before the message it waits
for, and it has sent everything once it has received everything. -/
structure Follows (a : Bytes → Bytes) (script : Script) : Prop where
  all : a (script.recvs) = script.sends
  pending : ∀ input before part message after,
    script.Pending input before part message after → a input = before.sends

section

variable {a b : Bytes → Bytes} {script : Script} {x y : Bytes}

/-- What comes before a place was sent, once all that comes before it was received. -/
theorem Follows.reaches {first second : Script} (h : Follows a script)
    (hs : script = first ++ second) (hy : y <+: script.recvs) (hi : first.recvs <+: y) :
    first.sends <+: a y := by
  obtain rfl | ⟨before, part, message, after, hp⟩ := Script.exists_pending hy
  · rw [h.all, hs, Script.sends_append]
    exact List.prefix_append _ _
  · obtain ⟨l, hl⟩ := hp.prefix_before hs hi
    rw [h.pending _ _ _ _ _ hp, ← hl, Script.sends_append]
    exact List.prefix_append _ _

/-- No more is sent than the script has. -/
theorem Follows.le (h : Follows a script) (hy : y <+: script.recvs) : a y <+: script.sends := by
  obtain rfl | ⟨before, part, message, after, hp⟩ := Script.exists_pending hy
  · rw [h.all]
  · rw [h.pending _ _ _ _ _ hp, hp.script_eq, Script.sends_append]
    exact List.prefix_append _ _

/-- What was sent stays sent. -/
theorem Follows.mono {y' : Bytes} (h : Follows a script) (hy : y <+: y')
    (hy' : y' <+: script.recvs) : a y <+: a y' := by
  obtain rfl | ⟨before, part, message, after, hp⟩ := Script.exists_pending (hy.trans hy')
  · rw [hy.eq_of_length_le hy'.length_le]
  · rw [h.pending _ _ _ _ _ hp]
    refine h.reaches hp.script_eq hy' (List.IsPrefix.trans ?_ hy)
    rw [hp.input_eq]
    exact List.prefix_append _ _

/-- What is delivered was written before, and no more is written than the scripts have. -/
theorem Delivered.le (ha : Follows a script) (hb : Follows b script.dual) (h : Delivered a b x y) :
    x <+: a y ∧ y <+: b x ∧ x <+: script.sends ∧ y <+: script.recvs := by
  have sends {y : Bytes} (hy : y <+: script.recvs) : a y <+: script.sends := ha.le hy
  have recvs {x : Bytes} (hx : x <+: script.sends) : b x <+: script.recvs := by
    rw [← Script.sends_dual]
    exact hb.le (by rwa [Script.recvs_dual])
  induction h with
  | start => exact ⟨List.nil_prefix, List.nil_prefix, List.nil_prefix, List.nil_prefix⟩
  | first _ hmore hle ih =>
    obtain ⟨-, hy, -, hyr⟩ := ih
    have hx := hle.trans (sends hyr)
    exact ⟨hle, hy.trans (hb.mono hmore (by rwa [Script.recvs_dual])), hx, hyr⟩
  | second _ hmore hle ih =>
    obtain ⟨hx, -, hxs, -⟩ := ih
    have hy := hle.trans (recvs hxs)
    exact ⟨hx.trans (ha.mono hmore hy), hle, hxs, hy⟩

/-- **There is no deadlock**: where nothing is left to deliver, everything was delivered. -/
theorem Quiescent.eq_of_dual (ha : Follows a script) (hb : Follows b script.dual)
    (hx : x <+: script.sends) (hy : y <+: script.recvs) (h : Quiescent a b x y) :
    x = script.sends ∧ y = script.recvs := by
  obtain ⟨hax, hby⟩ := h
  obtain rfl | ⟨before, part, message, after, hp⟩ := Script.exists_pending hy
  · exact ⟨hax.symm.trans ha.all, rfl⟩
  · -- the message that the first program waits for was sent by the second
    have hbefore : x = before.sends := hax.symm.trans (ha.pending _ _ _ _ _ hp)
    have hs : script.dual = Script.dual (before ++ [Act.recv message]) ++ after.dual := by
      rw [hp.script_eq, ← Script.dual_append, List.append_assoc]
      rfl
    have hsent := hb.reaches hs (y := x) (by rwa [Script.recvs_dual])
      (by rw [Script.recvs_dual, Script.sends_append, hbefore]; simp [Act.sent])
    rw [hby, Script.sends_dual, hp.input_eq, Script.recvs_append,
      List.prefix_append_right_inj] at hsent
    have hle : message <+: part := by simpa [Act.received] using hsent
    exact absurd (hp.part_prefix.eq_of_length_le hle.length_le) hp.part_ne

/-- **Programs that follow dual scripts complete**, in whatever order and portions their messages
are delivered. -/
theorem completes_of_dual {P : Bytes → Bytes → Prop} (ha : Follows a script)
    (hb : Follows b script.dual) (hP : P script.sends script.recvs) : Completes a b P := by
  refine ⟨fun x y h => ?_, fun x y h hq => ?_⟩
  · -- deliver everything that is written, until nothing new is written
    induction hn : script.sends.length - x.length + (script.recvs.length - y.length)
      using Nat.strong_induction_on generalizing x y with
    | h n ih =>
      obtain ⟨hax, hby, -, hy⟩ := h.le ha hb
      have h₁ : Delivered a b (a y) y := h.first hax List.prefix_rfl
      have h₂ : Delivered a b (a y) (b (a y)) := h₁.second (h₁.le ha hb).2.1 List.prefix_rfl
      obtain ⟨hx₁, hy₁, hxs, -⟩ := h₁.le ha hb
      obtain ⟨hx₂, -, -, hys⟩ := h₂.le ha hb
      by_cases hq : Quiescent a b x y
      · exact ⟨x, y, List.prefix_rfl, List.prefix_rfl, h, hq⟩
      · have hless : script.sends.length - (a y).length +
            (script.recvs.length - (b (a y)).length) < n := by
          have hl₁ := hax.length_le
          have hl₂ := hy₁.length_le
          have hl₃ := hxs.length_le
          have hl₄ := hys.length_le
          by_contra hge
          have hx : x = a y := hax.eq_of_length_le (by omega)
          refine hq ⟨hx.symm, ?_⟩
          rw [hx]
          exact (hy₁.eq_of_length_le (by omega)).symm
        obtain ⟨x', y', hx', hy', h', hq'⟩ := ih _ hless _ _ h₂ rfl
        exact ⟨x', y', hax.trans hx', hy₁.trans hy', h', hq'⟩
  · obtain ⟨-, -, hx, hy⟩ := h.le ha hb
    obtain ⟨rfl, rfl⟩ := hq.eq_of_dual ha hb hx hy
    exact hP

end

/-! ### Programs that follow a script -/

/-- A state with a connection, and a part that the connection has no say in. -/
class Connected (σ : Type) (τ : outParam Type) where
  net : σ → Net
  store : σ → τ

open Prog Connected

section

variable {σ τ ε ε' α β : Type} [Connected σ τ] {p : Prog σ ε α} {s : σ} {t : τ}
  {script script' : Script} {Q R : α → τ → Prop}

/-- The run of `p` from `s` follows the script: it returns what `Q` holds of where all the messages
it receives are there, and else waits for the first that is not. -/
structure PlaysAt (p : Prog σ ε α) (s : σ) (script : Script) (Q : α → τ → Prop) : Prop where
  returns : ∀ rest, (net s).input = script.recvs ++ rest → p.Ensures s (Post
    (fun a s' => Q a (store s') ∧ net s' = ⟨rest, none, (net s).output ++ script.sends, none⟩)
    (fun _ _ => False) fun _ => False)
  waits : ∀ before part message after, script.Pending (net s).input before part message after →
    p.Ensures s (Post (fun _ _ => False) (fun _ _ => False)
      fun s' => (net s').output = (net s).output ++ before.sends)

/-- The connection is open, and takes what is written. -/
def Open (s : σ) : Prop := (net s).closing = none ∧ (net s).room = none

/-- On an open connection `p` follows the script from a store `t`. -/
def Plays (p : Prog σ ε α) (t : τ) (script : Script) (Q : α → τ → Prop) : Prop :=
  ∀ s, store s = t → Open s → PlaysAt p s script Q

theorem PlaysAt.mono (h : PlaysAt p s script R) (hRQ : ∀ a t, R a t → Q a t) :
    PlaysAt p s script Q := by
  refine ⟨fun rest hrest => (h.returns rest hrest).mono fun o s' h' => ?_, h.waits⟩
  cases o with
  | ok a => exact ⟨hRQ a _ h'.1, h'.2⟩
  | err e => exact h'
  | halt => exact h'

/-- **The rule for sequencing.** -/
theorem PlaysAt.bind {f : α → Prog σ ε β} {Q : β → τ → Prop} (hp : PlaysAt p s script R)
    (hf : ∀ a s', R a (store s') → Open s' → (net s).input = script.recvs ++ (net s').input →
      PlaysAt (f a) s' script' Q) : PlaysAt (p >>= f) s (script ++ script') Q := by
  constructor
  · intro rest hrest
    rw [Script.recvs_append, List.append_assoc] at hrest
    refine Ensures.bind (hp.returns _ hrest) ?_ (fun _ _ h => h) fun _ h => h
    intro a s₁ h
    obtain ⟨hR, hnet⟩ := h
    have hs₁ := hf a s₁ hR (by rw [Open, hnet]; exact ⟨rfl, rfl⟩) (by rw [hrest, hnet])
    refine (hs₁.returns rest (by rw [hnet])).mono fun o s₂ h₂ => ?_
    cases o with
    | ok b =>
      refine ⟨h₂.1, h₂.2.trans ?_⟩
      rw [hnet, Script.sends_append, List.append_assoc]
    | err e => exact h₂
    | halt => exact h₂
  · intro before part message after h
    obtain ⟨after', h'⟩ | ⟨rest, before', hrest, rfl, h'⟩ := h.cases_append
    · exact Ensures.bind (hp.waits _ _ _ _ h') (fun _ _ h => h.elim) (fun _ _ h => h) fun _ h => h
    · refine Ensures.bind (hp.returns rest hrest) ?_ (fun _ _ h => h.elim) fun _ h => h.elim
      intro a s₁ h₁
      obtain ⟨hR, hnet⟩ := h₁
      have hs₁ := hf a s₁ hR (by rw [Open, hnet]; exact ⟨rfl, rfl⟩) (by rw [hrest, hnet])
      refine (hs₁.waits before' part message after (by rw [hnet]; exact h')).mono fun o s₂ h₂ => ?_
      cases o with
      | ok => exact h₂
      | err => exact h₂
      | halt =>
        refine Eq.trans h₂ ?_
        rw [hnet, Script.sends_append, List.append_assoc]

theorem Plays.mono (h : Plays p t script R) (hRQ : ∀ a t, R a t → Q a t) : Plays p t script Q :=
  fun s hs ho => (h s hs ho).mono hRQ

/-- What is known of all values that the program returns. -/
theorem Plays.and (h : Plays p t script Q) (hR : ∀ s, store s = t → p.Ensures s
    (Post (fun a s' => R a (store s')) (fun _ _ => True) fun _ => True)) :
    Plays p t script fun a t' => Q a t' ∧ R a t' := by
  intro s hs ho
  obtain ⟨hreturns, hwaits⟩ := h s hs ho
  refine ⟨fun rest hrest => ((hreturns rest hrest).and (hR s hs)).mono fun o s' h' => ?_, hwaits⟩
  cases o with
  | ok => exact ⟨⟨h'.1.1, h'.2⟩, h'.1.2⟩
  | err => exact h'.1
  | halt => exact h'.1

theorem Plays.bind {f : α → Prog σ ε β} {Q : β → τ → Prop} (hp : Plays p t script R)
    (hf : ∀ a t', R a t' → Plays (f a) t' script' Q) : Plays (p >>= f) t (script ++ script') Q :=
  fun s hs ho => (hp s hs ho).bind fun a s' hR ho' _ => hf a _ hR s' rfl ho'

/-- A part of a program that does not use the connection. -/
theorem plays_silent (h : ∀ s, store s = t → p.Ensures s (Post
    (fun a s' => Q a (store s') ∧ net s' = net s) (fun _ _ => False) fun _ => False)) :
    Plays p t [] Q := by
  intro s hs ho
  constructor
  · intro rest hrest
    refine (h s hs).mono fun o s' h' => ?_
    cases o with
    | ok a =>
      refine ⟨h'.1, h'.2.trans ?_⟩
      obtain ⟨hclosing, hroom⟩ := ho
      rw [Script.sends_nil, List.append_nil]
      cases hnet : net s with
      | mk input closing output room =>
        rw [hnet] at hrest hclosing hroom
        simp only at hrest hclosing hroom
        rw [hrest, hclosing, hroom]
        rfl
    | err e => exact h'
    | halt => exact h'
  · intro before part message after h'
    exact absurd h' Script.not_pending_nil

theorem plays_pure {a : α} (h : Q a t) : Plays (pure a : Prog σ ε α) t [] Q :=
  plays_silent fun _ hs => ensures_pure.mpr ⟨hs ▸ h, rfl⟩

/-- Sequencing after a part that does not use the connection. -/
theorem Plays.bind_silent {f : α → Prog σ ε β} {Q : β → τ → Prop} (hp : Plays p t [] R)
    (hf : ∀ a t', R a t' → Plays (f a) t' script Q) : Plays (p >>= f) t script Q := hp.bind hf

/-- The last part of a program. -/
theorem Plays.bind_pure {f : α → Prog σ ε β} {Q : β → τ → Prop} (hp : Plays p t script R)
    (hf : ∀ a t', R a t' → Plays (f a) t' [] Q) : Plays (p >>= f) t script Q := by
  rw [← List.append_nil script]
  exact hp.bind hf

/-- A check that is passed. -/
theorem plays_check {c : Prop} [Decidable c] {e : ε} {k : PUnit → Prog σ ε α} (hc : ¬c)
    (h : Plays (k ⟨⟩) t script Q) : Plays (if c then throw e >>= k else k ⟨⟩) t script Q := by
  rwa [if_neg hc]

theorem plays_ofExcept {x : Except ε α} {a : α} (hx : x = .ok a) (h : Q a t) :
    Plays (Prog.ofExcept x : Prog σ ε α) t [] Q := by
  rw [hx]
  exact plays_pure h

theorem Plays.mapErr {g : ε → ε'} (h : Plays p t script Q) : Plays (p.mapErr g) t script Q := by
  intro s hs ho
  obtain ⟨hreturns, hwaits⟩ := h s hs ho
  constructor
  · intro rest hrest
    rw [ensures_mapErr]
    refine (hreturns rest hrest).mono fun o s' h' => ?_
    cases o with
    | ok => exact h'
    | err => exact h'
    | halt => exact h'
  · intro before part message after h'
    rw [ensures_mapErr]
    refine (hwaits _ _ _ _ h').mono fun o s' h' => ?_
    cases o with
    | ok => exact h'
    | err => exact h'
    | halt => exact h'

theorem Plays.attempt {Q : Except ε α → τ → Prop} (h : Plays p t script fun a t => Q (.ok a) t) :
    Plays (p.attempt : Prog σ ε' _) t script Q := by
  intro s hs ho
  obtain ⟨hreturns, hwaits⟩ := h s hs ho
  constructor
  · intro rest hrest
    rw [ensures_attempt]
    refine (hreturns rest hrest).mono fun o s' h' => ?_
    cases o with
    | ok => exact h'
    | err => exact h'.elim
    | halt => exact h'
  · intro before part message after h'
    rw [ensures_attempt]
    refine (hwaits _ _ _ _ h').mono fun o s' h' => ?_
    cases o with
    | ok => exact h'
    | err => exact h'.elim
    | halt => exact h'

/-! ### Loops -/

section

variable {ι : Type} {I : List ι → β → τ → Prop} {turn : ι → Script} {last : Script}
  {body : β → Prog σ ε (β ⊕ α)}

/-- One repetition for each of the items that are left, and one more that ends the loop. The fuel
lasts where it exceeds their number, or the length of the input if each of them receives
something. -/
private theorem playsAt_iterate
    (hturn : ∀ x xs b t, I (x :: xs) b t → Plays (body b) t (turn x) fun r t' =>
      ∃ b', r = .inl b' ∧ I xs b' t')
    (hlast : ∀ b t, I [] b t → Plays (body b) t last fun r t' => ∃ a, r = .inr a ∧ Q a t')
    (n : ℕ) (xs : List ι) (b : β) (s : σ) (hI : I xs b (store s)) (ho : Open s)
    (hn : xs.length < n ∨ (net s).input.length < n ∧ ∀ x, (turn x).recvs ≠ []) :
    PlaysAt (iterate body n b) s (xs.flatMap turn ++ last) Q := by
  induction n generalizing xs b s with
  | zero => exact absurd hn (by simp)
  | succ n ih =>
    cases xs with
    | nil =>
      rw [List.flatMap_nil, List.nil_append, ← List.append_nil last]
      refine (hlast b _ hI s rfl ho).bind fun r s' hr ho' _ => ?_
      obtain ⟨a, rfl, ha⟩ := hr
      exact plays_pure ha s' rfl ho'
    | cons x xs =>
      rw [List.flatMap_cons, List.append_assoc]
      refine (hturn x xs b _ hI s rfl ho).bind fun r s' hr ho' hinput => ?_
      obtain ⟨b', rfl, hI'⟩ := hr
      refine ih xs b' s' hI' ho' (hn.imp (fun h => ?_) fun h => ⟨?_, h.2⟩)
      · exact Nat.lt_of_succ_lt_succ h
      · have hpos := List.length_pos_iff.mpr (h.2 x)
        have hlen := congrArg List.length hinput
        rw [List.length_append] at hlen
        omega

omit [Connected σ τ] in
private theorem ensures_loop {m : β → σ → ℕ} {b : β} {Q : Outcome ε α → σ → Prop} :
    (Prog.loop m body b).Ensures s Q ↔ (iterate body (m b s + 1) b).Ensures s Q := by
  unfold Ensures
  rfl

/-- **The rule for a loop** that takes one message after the other. -/
theorem plays_loop_input {xs : List ι} {b : β} {m : β → σ → ℕ}
    (hm : ∀ b s, m b s = (net s).input.length) (hne : ∀ x, (turn x).recvs ≠ [])
    (hturn : ∀ x xs b t, I (x :: xs) b t → Plays (body b) t (turn x) fun r t' =>
      ∃ b', r = .inl b' ∧ I xs b' t')
    (hlast : ∀ b t, I [] b t → Plays (body b) t last fun r t' => ∃ a, r = .inr a ∧ Q a t')
    (h : I xs b t) : Plays (Prog.loop m body b) t (xs.flatMap turn ++ last) Q := by
  intro s hs ho
  have := playsAt_iterate hturn hlast (m b s + 1) xs b s (hs ▸ h) ho
    (.inr ⟨by rw [hm]; omega, hne⟩)
  exact ⟨fun rest hrest => ensures_loop.mpr (this.returns rest hrest),
    fun before part message after hp => ensures_loop.mpr (this.waits before part message after hp)⟩

/-- The rule for a loop whose measure depends on the store. -/
theorem plays_loop_store {xs : List ι} {b : β} {m : β → τ → ℕ} (hm : xs.length ≤ m b t)
    (hturn : ∀ x xs b t, I (x :: xs) b t → Plays (body b) t (turn x) fun r t' =>
      ∃ b', r = .inl b' ∧ I xs b' t')
    (hlast : ∀ b t, I [] b t → Plays (body b) t last fun r t' => ∃ a, r = .inr a ∧ Q a t')
    (h : I xs b t) :
    Plays (Prog.loop (fun b s => m b (store s)) body b) t (xs.flatMap turn ++ last) Q := by
  intro s hs ho
  have := playsAt_iterate hturn hlast (m b (store s) + 1) xs b s (hs ▸ h) ho
    (.inl (by rw [hs]; omega))
  exact ⟨fun rest hrest => ensures_loop.mpr (this.returns rest hrest),
    fun before part message after hp => ensures_loop.mpr (this.waits before part message after hp)⟩

end

/-! ### Two programs -/

/-- What a program has written once it has received some bytes, where it starts in `start`. -/
def written (p : Prog σ ε α) (start : Bytes → σ) (received : Bytes) : Bytes :=
  (net (p (start received)).2).output

/-- A start state for what is received: nothing was written yet, and the connection stays open. -/
structure Starts (start : Bytes → σ) (t : τ) : Prop where
  net : ∀ received, Connected.net (start received) = ⟨received, none, [], none⟩
  store : ∀ received, Connected.store (start received) = t

theorem Plays.follows {start : Bytes → σ} (h : Plays p t script Q) (hstart : Starts start t) :
    Follows (written p start) script := by
  have hopen (received : Bytes) : PlaysAt p (start received) script Q :=
    h _ (hstart.store received) (by rw [Open, hstart.net]; exact ⟨rfl, rfl⟩)
  constructor
  · have := ((hopen script.recvs).returns [] (by rw [hstart.net, List.append_nil])).apply
    rw [written]
    rcases hrun : p (start script.recvs) with ⟨_ | _ | _, s'⟩ <;> rw [hrun] at this
    · rw [this.2, hstart.net]
      rfl
    · exact this.elim
    · exact this.elim
  · intro input before part message after hpending
    have := ((hopen input).waits before part message after
      (by rw [hstart.net]; exact hpending)).apply
    rw [written]
    rcases hrun : p (start input) with ⟨_ | _ | _, s'⟩ <;> rw [hrun] at this
    · exact this.elim
    · exact this.elim
    · exact this.trans (by rw [hstart.net]; rfl)

/-- Once everything is there, the program returns. -/
theorem Plays.returns {start : Bytes → σ} (h : Plays p t script Q) (hstart : Starts start t) :
    ∃ a s', p.Returns (start script.recvs) a s' ∧ Q a (store s') := by
  have := ((h _ (hstart.store script.recvs) (by rw [Open, hstart.net]; exact ⟨rfl, rfl⟩)).returns []
    (by rw [hstart.net, List.append_nil])).apply
  rcases hrun : p (start script.recvs) with ⟨_ | _ | _, s'⟩ <;> rw [hrun] at this
  · exact ⟨_, s', hrun, this.1⟩
  · exact this.elim
  · exact this.elim

/-- **Two programs that play dual scripts complete**: in whatever order and portions the bytes they
write are delivered, both return. -/
theorem completes_of_plays {σ' τ' ε' α' : Type} [Connected σ' τ'] {p' : Prog σ' ε' α'} {t' : τ'}
    {Q' : α' → τ' → Prop} {start : Bytes → σ} {start' : Bytes → σ'} (h : Plays p t script Q)
    (h' : Plays p' t' script.dual Q') (hstart : Starts start t) (hstart' : Starts start' t') :
    Completes (written p start) (written p' start') fun x y =>
      x = script.sends ∧ (∃ a s, p.Returns (start y) a s ∧ Q a (store s)) ∧
        ∃ a s, p'.Returns (start' x) a s ∧ Q' a (store s) := by
  refine completes_of_dual (h.follows hstart) (h'.follows hstart') ⟨rfl, h.returns hstart, ?_⟩
  have := h'.returns hstart'
  rwa [Script.recvs_dual] at this

end

/-! ### A world -/

instance {Γ : Setting} {ν : Type} : Connected (World Γ ν) (Disk Γ) := ⟨World.net, World.disk⟩

section

variable {Γ : Setting} {ν ε α : Type} {d : Disk Γ} {Q : α → Disk Γ → Prop}

/-- A program on the files. -/
theorem plays_onDisk {p : Prog (Disk Γ) ε α}
    (h : p.Ensures d (Post Q (fun _ _ => False) fun _ => False)) :
    Plays (World.onDisk p : Prog (World Γ ν) ε α) d [] Q := by
  refine plays_silent fun s hs => ?_
  have hs : s.disk = d := hs
  rw [World.ensures_onDisk, hs]
  refine h.mono fun o d' h' => ?_
  cases o with
  | ok => exact ⟨h', rfl⟩
  | err => exact h'
  | halt => exact h'

theorem plays_files {ε' : Type} {p : Prog (Disk Γ) ε α} {g : ε → ε'}
    (h : p.Ensures d (Post Q (fun _ _ => False) fun _ => False)) :
    Plays (World.onDisk (p.mapErr g) : Prog (World Γ ν) ε' α) d [] Q := by
  refine plays_onDisk ?_
  rw [ensures_mapErr]
  refine h.mono fun o d' h' => ?_
  cases o with
  | ok => exact h'
  | err => exact h'
  | halt => exact h'

/-- A call that may fail. -/
theorem plays_attempt_files {ε' : Type} {p : Prog (Disk Γ) ε α} {Q : Except ε α → Disk Γ → Prop}
    (h : p.Ensures d (Post (fun a d' => Q (.ok a) d') (fun e d' => Q (.error e) d')
      fun _ => False)) :
    Plays (World.onDisk p.attempt : Prog (World Γ ν) ε' (Except ε α)) d [] Q := by
  refine plays_onDisk ?_
  rw [ensures_attempt]
  refine h.mono fun o d' h' => ?_
  cases o with
  | ok => exact h'
  | err => exact h'
  | halt => exact h'

/-- A world next to something else. -/
instance {φ : Type} : Connected (World Γ ν × φ) (Disk Γ × φ) :=
  ⟨fun s => s.1.net, fun s => (s.1.disk, s.2)⟩

theorem plays_start {t : Disk Γ} :
    Starts (fun received => (World.start t ⟨received, none, [], none⟩ : World Γ ν)) t :=
  ⟨fun _ => rfl, fun _ => rfl⟩

end

end Warpfile
