/-
# `CppWorkspace.AceProactorClient` — the life of the client's `Service_Handler`

After the connect, `open` starts two chains on one handler: each write that has
completed posts the next write, each read the next read.  Threads of the proactor run
`open` and the callbacks, at the same time if the completions come so.

    open                  after the connect, once
    handle_write_stream   a write has completed; its result is not looked at
    handle_read_stream    a read has completed; `success` says that it brought bytes

The functions are programs over the commands of `Cmd`; one command is atomic.  A write or
read that is accepted gives exactly one callback.  A member that is used after `delete
this` sets `used`, a `delete this` with an accepted operation outstanding sets `early`,
and `failed` records that a call was refused or a read came to nothing.

Each failure says `delete this` on its own, and the other chain goes on: only a failure
of `writer_.open`, before there are chains, is handled right.  While nothing else fails
the handler is safe; and when a connection has come to rest, it was safe if and only if
nothing else has failed (`handler_deleted_once`).

The invariant counts TOKENS, one for each chain: it is an operation outstanding, or in
the hands of a thread.  A thread owns `(a, b)`: it holds `a` tokens, and `b` tokens with
which it is going to `delete this`.

Left out: the message blocks, and what they contain.
-/
import Mathlib.Algebra.Group.Prod
import Mathlib.Algebra.Group.Nat.Defs
import Mathlib.Algebra.GroupWithZero.Nat
import CppWorkspace.Lib.Programs

namespace CppWorkspace.AceProactorClient

open Programs Runs

/-- The steps of a handler. -/
inductive Cmd where
  /-- `this->handle(h)`. -/
  | setHandle
  | writerOpen
  /-- `this->handle()`, in `post_send`. -/
  | handle
  | write
  | readerOpen
  | read
  /-- `delete this`. -/
  | delete
deriving DecidableEq, Repr

/-- What a command replies: `true` stands for success. -/
abbrev Cmd.Reply : Cmd → Type
  | .writerOpen => Bool
  | .write => Bool
  | .readerOpen => Bool
  | .read => Bool
  | _ => Unit

abbrev Program (α : Type) := Prog Cmd Cmd.Reply α

abbrev perform (c : Cmd) : Program c.Reply := Prog.perform c

/-! ## `Service_Handler` -/

def post_send : Program Unit := do
  perform .handle
  if ← perform .write then return else perform .delete

def post_recv : Program Unit := do
  if ← perform .read then return else perform .delete

def openHandler : Program Unit := do
  perform .setHandle
  if ← perform .writerOpen then
    post_send
    if ← perform .readerOpen then post_recv else perform .delete
  else
    perform .delete

def handle_write_stream : Program Unit := post_send

def handle_read_stream (success : Bool) : Program Unit :=
  if success then post_recv else perform .delete

/-- The callbacks of the proactor; `success` is that of the result. -/
inductive Event where
  | opens
  | write
  | read (success : Bool)
deriving DecidableEq, Repr

/-- A handler, and the operations that have still to call back. -/
structure Handler where
  opened : Bool
  writes : Nat
  reads : Nat
  deleted : Nat
  used : Bool
  early : Bool
  failed : Bool
deriving DecidableEq, Repr

def start : Handler := ⟨false, 0, 0, 0, false, false, false⟩

namespace Handler

/-- A member is used. -/
def use (σ : Handler) : Handler := { σ with used := σ.used || decide (0 < σ.deleted) }

/-- A call has failed. -/
def fail (σ : Handler) : Handler := { σ with failed := true }

end Handler

/-- What a command does; `ok` is chosen for those that may fail. -/
def exec (_ : Nat) (_ : Event) : (cmd : Cmd) → Handler → Bool → Option (Handler × cmd.Reply)
  | .setHandle, σ, _ => some (σ.use, ())
  | .writerOpen, σ, ok => some (σ.use, ok)
  | .handle, σ, _ => some (σ.use, ())
  | .write, σ, ok => some (if ok then { σ.use with writes := σ.writes + 1 } else σ.use.fail, ok)
  | .readerOpen, σ, ok => some (if ok then σ.use else σ.use.fail, ok)
  | .read, σ, ok => some (if ok then { σ.use with reads := σ.reads + 1 } else σ.use.fail, ok)
  | .delete, σ, _ =>
      some ({ σ with
        deleted := σ.deleted + 1
        early := σ.early || decide (0 < σ.writes + σ.reads) }, ())

def spawn (_ : Nat) (e : Event) (σ : Handler) : Option (Handler × Program Unit) :=
  match e with
  | .opens => if σ.opened then none else some ({ σ with opened := true }, openHandler)
  | .write =>
      if 0 < σ.writes then some ({ σ.use with writes := σ.writes - 1 }, handle_write_stream)
      else none
  | .read success =>
      if 0 < σ.reads then
        some ({ σ.use with reads := σ.reads - 1, failed := σ.failed || !success },
          handle_read_stream success)
      else none

def system : System Handler Cmd Cmd.Reply Bool Event Unit where
  exec := exec
  spawn := spawn

abbrev Machine := Programs.Machine Handler Cmd Cmd.Reply Event Unit

/-- All threads idle. -/
def idle (threads : Nat) : Machine := ⟨start, List.replicate threads none⟩

/-- No callback is running, and none is to come. -/
def AtRest (m : Machine) : Prop := m.Quiescent ∧ m.shared.writes = 0 ∧ m.shared.reads = 0

/-- The handler is not deleted too early or twice, nor used afterwards; at rest it is gone. -/
structure Safe (m : Machine) : Prop where
  once : m.shared.deleted ≤ 1
  used : m.shared.used = false
  early : m.shared.early = false
  gone : AtRest m → m.shared.opened = true → m.shared.deleted = 1

/-! ## Tokens -/

/-- The handler was used when it was gone, deleted too early or twice. -/
def Handler.Misused (σ : Handler) : Prop := σ.used = true ∨ σ.early = true ∨ 2 ≤ σ.deleted

/-- It was not, so far. -/
def Handler.Right (σ : Handler) : Prop := σ.used = false ∧ σ.early = false

/-- The state of the handler, with `a` tokens in hands, and `b` in hands that are going to
delete it. -/
inductive Handler.Stage (σ : Handler) (a b : Nat) : Prop
  | misused (h : σ.Misused) (hf : σ.failed = true)
  | closed (hr : σ.Right) (ho : σ.opened = false) (hd : σ.deleted = 0)
      (hn : σ.writes + σ.reads + (a + b) = 0) (hf : σ.failed = false)
  | alive (hr : σ.Right) (ho : σ.opened = true) (hd : σ.deleted = 0)
      (hn : σ.writes + σ.reads + (a + b) = 2) (hf : σ.failed = true ↔ 0 < b)
  /-- It is deleted, and a thread still uses it. -/
  | doomed (ho : σ.opened = true) (hd : σ.deleted = 1) (hn : σ.writes + σ.reads = 0)
      (hh : a + b = 1) (hf : σ.failed = true)
  | refused (hr : σ.Right) (ho : σ.opened = true) (hd : σ.deleted = 1)
      (hn : σ.writes + σ.reads + (a + b) = 0) (hf : σ.failed = false)

/-- The tokens of all threads together. -/
structure Handler.Counted (σ : Handler) (R : Nat × Nat) : Prop where
  stage : σ.Stage R.1 R.2
  failed : 0 < R.2 → σ.failed = true

def tokens : Logic Handler Cmd Cmd.Reply Bool Event Unit (Nat × Nat) where
  toSystem := system
  Inv := Handler.Counted
  Pre _ _ _ _ _ := True
  ok _ _ _ _ _ _ := True

section
variable {σ τ : Handler} {R : Nat × Nat} {a b : Nat} {t : Nat} {e : Event}

theorem Handler.Misused.mono (h : σ.Misused) (hu : σ.used = true → τ.used = true)
    (he : σ.early = true → τ.early = true) (hd : σ.deleted ≤ τ.deleted) : τ.Misused := by
  rcases h with h | h | h
  · exact .inl (hu h)
  · exact .inr (.inl (he h))
  · exact .inr (.inr (Nat.le_trans h hd))

/-- A member is used by a thread with a token: the handler is there, or now misused. -/
theorem Handler.Counted.use (h : σ.Counted R) (hpos : 0 < R.1) :
    σ.use.Misused ∧ σ.failed = true
      ∨ σ.use = σ ∧ σ.Right ∧ σ.opened = true ∧ σ.deleted = 0
        ∧ σ.writes + σ.reads + (R.1 + R.2) = 2 ∧ (σ.failed = true ↔ 0 < R.2) := by
  cases h.stage with
  | misused hm hf =>
      have hused : σ.used = true → σ.use.used = true := fun h => by simp [Handler.use, h]
      exact .inl ⟨hm.mono hused id (Nat.le_refl _), hf⟩
  | closed _ _ _ hn => omega
  | alive hr ho hd hn hf =>
      refine .inr ⟨?_, hr, ho, hd, hn, hf⟩
      cases σ
      obtain rfl := hd
      simp [Handler.use]
  | doomed _ hd _ _ hf => exact .inl ⟨.inl (by simp [Handler.use, hd]), hf⟩
  | refused _ _ _ hn => omega

theorem does_use {cmd : Cmd} {v : Bool → cmd.Reply} (ha : 0 < a)
    (hexec : ∀ σ ok, exec t e cmd σ ok = some (σ.use, v ok)) :
    Does tokens t e cmd (a, b) fun w r => ∃ ok, w = v ok ∧ r = (a, b) := by
  intro σ F hinv
  refine ⟨trivial, fun ok σ' w _ hrun => ?_⟩
  cases (hexec σ ok).symm.trans hrun
  refine ⟨(a, b), ?_, ok, rfl, rfl⟩
  have hpos : 0 < ((a, b) + F).1 := Nat.add_pos_left ha _
  rcases Handler.Counted.use hinv hpos with ⟨hm, hf⟩ | ⟨hsame, -⟩
  · exact ⟨.misused hm hf, fun _ => hf⟩
  · rw [hsame]
    exact hinv

/-- A call that may fail: with success the token goes on with the call, or stays in hand;
else the thread is going to delete the handler. -/
theorem does_try {cmd : Cmd} {v : Bool → cmd.Reply} {f : Handler → Handler} {k : Nat}
    (hexec : ∀ σ ok, exec t e cmd σ ok = some (if ok then f σ.use else σ.use.fail, v ok))
    (hf : ∀ σ, (f σ).opened = σ.opened ∧ (f σ).deleted = σ.deleted ∧ (f σ).used = σ.used
      ∧ (f σ).early = σ.early ∧ (f σ).failed = σ.failed
      ∧ (f σ).writes + (f σ).reads + k = σ.writes + σ.reads + 1) :
    Does tokens t e cmd (a + 1, b) fun w r =>
      ∃ ok, w = v ok ∧ r = if ok then (a + k, b) else (a, b + 1) := by
  intro σ F hinv
  refine ⟨trivial, fun ok σ' w _ hrun => ?_⟩
  cases (hexec σ ok).symm.trans hrun
  refine ⟨if ok then (a + k, b) else (a, b + 1), ?_, ok, rfl, rfl⟩
  have hpos : 0 < ((a + 1, b) + F).1 := Nat.add_pos_left (Nat.succ_pos a) _
  obtain ⟨ho, hd, hu, he, hfail, hn⟩ := hf σ.use
  rcases Handler.Counted.use hinv hpos with ⟨hm, hfailed⟩ | ⟨hsame, hr, hopen, hdel, hcount, hiff⟩
  · cases ok with
    | true =>
        have hm' : (f σ.use).Misused := by
          simpa only [Handler.Misused, hu, he, hd] using hm
        exact ⟨.misused hm' (hfail.trans hfailed), fun _ => hfail.trans hfailed⟩
    | false => exact ⟨.misused hm rfl, fun _ => rfl⟩
  · simp only [Prod.fst_add, Prod.snd_add] at hcount hiff
    rw [hsame] at ho hd hu he hn hfail
    cases ok with
    | true =>
        simp only [if_true, hsame]
        refine ⟨.alive ⟨hu.trans hr.1, he.trans hr.2⟩ (ho.trans hopen) (hd.trans hdel) ?_ ?_, ?_⟩
        · simp only [Prod.fst_add, Prod.snd_add]
          omega
        · rw [hfail]
          exact hiff
        · intro hb
          exact hfail.trans (hiff.mpr hb)
    | false =>
        simp only [if_neg Bool.false_ne_true, hsame]
        refine ⟨.alive hr hopen hdel ?_ (iff_of_true rfl ?_), fun _ => rfl⟩
        · simp only [Prod.fst_add, Prod.snd_add]
          show σ.writes + σ.reads + _ = 2
          omega
        · simp only [Prod.snd_add]
          omega

theorem does_delete : Does tokens t e .delete (a, b + 1) fun _ r => r = (a, b) := by
  intro σ F hinv
  refine ⟨trivial, fun ok σ' w _ hrun => ?_⟩
  cases hrun
  refine ⟨(a, b), ?_, rfl⟩
  have hpos : 0 < ((a, b + 1) + F).2 := Nat.add_pos_left (Nat.succ_pos b) _
  have hfailed : σ.failed = true := hinv.failed hpos
  refine ⟨?_, fun _ => hfailed⟩
  have hstage := hinv.stage
  simp only [Prod.fst_add, Prod.snd_add] at hstage ⊢
  cases hstage with
  | misused hm _ =>
      exact .misused (hm.mono id (fun h => by simp [h]) (Nat.le_succ _)) hfailed
  | closed _ _ _ hn => omega
  | alive hr ho hd hn _ =>
      by_cases hout : 0 < σ.writes + σ.reads
      · exact .misused (.inr (.inl (by simp [hout]))) hfailed
      · exact .doomed ho (congrArg Nat.succ hd) (Nat.eq_zero_of_not_pos hout) (by omega) hfailed
  | doomed _ hd _ _ _ => exact .misused (.inr (.inr (by simp [hd]))) hfailed
  | refused _ _ _ hn => omega

theorem does_refuse : Does tokens t e .delete (2, 0) fun _ r => r = 0 := by
  intro σ F hinv
  refine ⟨trivial, fun ok σ' w _ hrun => ?_⟩
  cases hrun
  refine ⟨0, ?_, rfl⟩
  have hstage := hinv.stage
  have hfailed := hinv.failed
  simp only [Prod.fst_add, Prod.snd_add, Nat.zero_add] at hstage hfailed
  rw [zero_add]
  refine ⟨?_, hfailed⟩
  cases hstage with
  | misused hm hf => exact .misused (hm.mono id (fun h => by simp [h]) (Nat.le_succ _)) hf
  | closed _ _ _ hn => omega
  | alive hr ho hd hn hf =>
      have hout : σ.writes + σ.reads = 0 := by omega
      refine .refused ⟨hr.1, by simp [hr.2, hout]⟩ ho (congrArg Nat.succ hd)
        (show σ.writes + σ.reads + _ = 0 by omega) ?_
      refine Bool.eq_false_iff.mpr fun hf' => ?_
      have hb := hf.mp hf'
      omega
  | doomed _ _ _ hh => omega
  | refused _ _ hn => omega

/-! ## The programs -/

theorem does_write : Does tokens t e .write (a + 1, b) fun w r =>
    ∃ ok, w = ok ∧ r = if ok then (a, b) else (a, b + 1) :=
  does_try (f := fun σ => { σ with writes := σ.writes + 1 }) (k := 0) (fun _ _ => rfl)
    fun _ => ⟨rfl, rfl, rfl, rfl, rfl, by simp only; omega⟩

theorem does_read : Does tokens t e .read (a + 1, b) fun w r =>
    ∃ ok, w = ok ∧ r = if ok then (a, b) else (a, b + 1) :=
  does_try (f := fun σ => { σ with reads := σ.reads + 1 }) (k := 0) (fun _ _ => rfl)
    fun _ => ⟨rfl, rfl, rfl, rfl, rfl, by simp only; omega⟩

theorem does_readerOpen : Does tokens t e .readerOpen (a + 1, b) fun w r =>
    ∃ ok, w = ok ∧ r = if ok then (a + 1, b) else (a, b + 1) :=
  does_try (f := id) (k := 1) (fun _ _ => rfl) fun _ => ⟨rfl, rfl, rfl, rfl, rfl, rfl⟩

theorem wp_delete : wp tokens t e (perform .delete) (fun _ r => r = (a, b)) (a, b + 1) :=
  wp_perform does_delete

theorem wp_post_send : wp tokens t e post_send (fun _ r => r = (a, b)) (a + 1, b) := by
  refine wp_call (does_use (Nat.succ_pos a) fun _ _ => rfl) ?_
  rintro _ _ ⟨-, -, rfl⟩
  refine wp_call does_write ?_
  rintro (ok : Bool) _ ⟨_, rfl, rfl⟩
  cases ok with
  | true => exact wp_ret rfl
  | false => exact wp_delete

theorem wp_post_recv : wp tokens t e post_recv (fun _ r => r = (a, b)) (a + 1, b) := by
  refine wp_call does_read ?_
  rintro (ok : Bool) _ ⟨_, rfl, rfl⟩
  cases ok with
  | true => exact wp_ret rfl
  | false => exact wp_delete

theorem wp_openHandler : wp tokens t e openHandler (fun _ r => r = 0) (2, 0) := by
  refine wp_call (does_use (Nat.succ_pos 1) fun _ _ => rfl) ?_
  rintro _ _ ⟨-, -, rfl⟩
  refine wp_call (does_use (v := fun ok => ok) (Nat.succ_pos 1) fun _ _ => rfl) ?_
  rintro (ok : Bool) _ ⟨_, rfl, rfl⟩
  cases ok with
  | false => exact wp_perform does_refuse
  | true =>
      refine wp_after (wp_post_send (a := 1) (b := 0)) ?_
      rintro _ _ rfl
      refine wp_call does_readerOpen ?_
      rintro (ok : Bool) _ ⟨_, rfl, rfl⟩
      cases ok with
      | true => exact wp_post_recv
      | false => exact wp_delete

end

/-! ## Runs -/

theorem start_counted : start.Counted 0 :=
  ⟨.closed ⟨rfl, rfl⟩ rfl rfl rfl rfl, fun h => absurd h (Nat.lt_irrefl 0)⟩

theorem Handler.Counted.callback {σ τ : Handler} {F : Nat × Nat} (h : σ.Counted F) (fails : Bool)
    (hpos : 0 < σ.writes + σ.reads) (ho : τ.opened = σ.opened) (hd : τ.deleted = σ.deleted)
    (hu : τ.used = σ.use.used) (he : τ.early = σ.early)
    (hf : τ.failed = (σ.failed || fails))
    (hn : τ.writes + τ.reads + 1 = σ.writes + σ.reads) :
    τ.Counted ((if fails then (0, 1) else (1, 0)) + F) := by
  have hfailed : σ.failed = true → τ.failed = true := fun h => by rw [hf, h, Bool.true_or]
  refine ⟨?_, fun hb => ?_⟩
  · cases h.stage with
    | misused hm hfail =>
        have hused : σ.used = true → τ.used = true := fun h => hu.trans (by simp [Handler.use, h])
        exact .misused (hm.mono hused he.trans (Nat.le_of_eq hd.symm)) (hfailed hfail)
    | closed _ _ _ hn' => omega
    | alive hr ho' hd' hn' hf' =>
        refine .alive ⟨hu.trans ?_, he.trans hr.2⟩ (ho.trans ho') (hd.trans hd') ?_ ?_
        · simp [Handler.use, hd', hr.1]
        · cases fails
          · show τ.writes + τ.reads + (1 + F.1 + (0 + F.2)) = 2
            omega
          · show τ.writes + τ.reads + (0 + F.1 + (1 + F.2)) = 2
            omega
        · cases fails
          · rw [hf, Bool.or_false]
            show _ ↔ 0 < 0 + F.2
            rw [Nat.zero_add]
            exact hf'
          · exact iff_of_true (by rw [hf, Bool.or_true]) (Nat.add_pos_left Nat.one_pos _)
    | doomed _ _ hn' => omega
    | refused _ _ _ hn' => omega
  · cases fails
    · refine hfailed (h.failed ?_)
      exact Nat.zero_add F.2 ▸ hb
    · rw [hf, Bool.or_true]

theorem Handler.Counted.opens {σ : Handler} {F : Nat × Nat} (h : σ.Counted F)
    (ho : σ.opened = false) : Handler.Counted { σ with opened := true } ((2, 0) + F) := by
  have hsnd : ((2, 0) + F).2 = F.2 := Nat.zero_add F.2
  refine ⟨?_, fun hb => h.failed (hsnd ▸ hb)⟩
  cases h.stage with
  | misused hm hf => exact .misused hm hf
  | closed hr _ hd hn hf =>
      refine .alive hr rfl hd ?_ ?_
      · show σ.writes + σ.reads + (2 + F.1 + (0 + F.2)) = 2
        omega
      · refine iff_of_false (fun h => ?_) ?_
        · exact Bool.false_ne_true (hf.symm.trans h)
        · show ¬ 0 < 0 + F.2
          omega
  | alive _ ho' | doomed ho' | refused _ ho' =>
      exact absurd (ho.symm.trans ho') Bool.false_ne_true

theorem spawn_counted {t : Nat} {e : Event} {σ τ : Handler} {p : Program Unit} {F : Nat × Nat}
    (h : σ.Counted F) (hspawn : spawn t e σ = some (τ, p)) :
    ∃ r, τ.Counted (r + F) ∧ wp tokens t e p (fun _ r' => r' = 0) r := by
  cases e with
  | opens =>
      obtain ⟨ho, hspawn⟩ := Option.ite_none_left_eq_some.mp hspawn
      cases hspawn
      exact ⟨(2, 0), h.opens (Bool.eq_false_iff.mpr ho), wp_openHandler⟩
  | write =>
      obtain ⟨hpos, hspawn⟩ := Option.ite_none_right_eq_some.mp hspawn
      cases hspawn
      refine ⟨(1, 0), h.callback false (by omega) rfl rfl rfl rfl ?_ ?_, wp_post_send⟩
      · exact (Bool.or_false _).symm
      · show σ.writes - 1 + σ.reads + 1 = _
        omega
  | read success =>
      obtain ⟨hpos, hspawn⟩ := Option.ite_none_right_eq_some.mp hspawn
      cases hspawn
      have hcounted := h.callback (τ := { σ.use with
        reads := σ.reads - 1
        failed := σ.failed || !success }) (!success) (by omega) rfl rfl rfl rfl rfl
        (by show σ.writes + (σ.reads - 1) + 1 = _; omega)
      refine ⟨_, hcounted, ?_⟩
      cases success with
      | true => exact wp_post_recv
      | false => exact wp_delete

theorem counted {threads : Nat} {m : Machine}
    (h : Via system.step (fun _ _ => True) (idle threads) m) : ∃ rs, tokens.Good m rs :=
  Logic.run (L := tokens) (fun _ _ _ _ _ _ _ _ _ _ => trivial)
    (fun _ _ _ _ _ _ _ hinv hspawn => spawn_counted hinv hspawn)
    ⟨_, tokens.good_start start_counted⟩ h

/-- **Lifetime.**  Whatever fails and in whatever order the completions come: as long as no
call but `writer_.open` has failed, and no read, the handler is safe; and at rest it is safe
if and only if that is so. -/
theorem handler_deleted_once (threads : Nat) (m : Machine)
    (h : Via system.step (fun _ _ => True) (idle threads) m) :
    (m.shared.failed = false → Safe m)
      ∧ (AtRest m → (Safe m ↔ m.shared.failed = false)) := by
  obtain ⟨rs, hgood⟩ := counted h
  -- at rest all tokens are gone
  have hrest : AtRest m → m.shared.Stage 0 0 := fun hrest => (hgood.quiescent hrest.1).stage
  have hsafe : m.shared.failed = false → Safe m := by
    intro hf
    have hright : m.shared.Right ∧ m.shared.deleted ≤ 1 := by
      cases hgood.inv.stage with
      | misused _ hf' => exact absurd (hf.symm.trans hf') Bool.false_ne_true
      | closed hr _ hd => exact ⟨hr, by omega⟩
      | alive hr _ hd => exact ⟨hr, by omega⟩
      | doomed _ _ _ _ hf' => exact absurd (hf.symm.trans hf') Bool.false_ne_true
      | refused hr _ hd => exact ⟨hr, by omega⟩
    refine ⟨hright.2, hright.1.1, hright.1.2, fun hat ho => ?_⟩
    have hw := hat.2.1
    have hr := hat.2.2
    cases hrest hat with
    | misused _ hf' => exact absurd (hf.symm.trans hf') Bool.false_ne_true
    | closed _ ho' => exact absurd (ho'.symm.trans ho) Bool.false_ne_true
    | alive _ _ _ hn => omega
    | doomed _ _ _ hh => omega
    | refused _ _ hd => exact hd
  refine ⟨hsafe, fun hat => ⟨fun hs => ?_, hsafe⟩⟩
  have hw := hat.2.1
  have hr := hat.2.2
  cases hrest hat with
  | misused hm _ =>
      rcases hm with hm | hm | hm
      · exact absurd (hs.used.symm.trans hm) Bool.false_ne_true
      · exact absurd (hs.early.symm.trans hm) Bool.false_ne_true
      · have honce := hs.once
        omega
  | closed _ _ _ _ hf => exact hf
  | alive _ _ _ hn => omega
  | doomed _ _ _ hh => omega
  | refused _ _ _ _ hf => exact hf

/-- `writer_.open` is refused. -/
theorem handler_deleted_once_refused :
    ∃ m, (Via system.step (fun _ _ => True) (idle 1) m ∧ AtRest m ∧ m.shared.deleted = 1)
      ∧ (m.shared.failed = false → Safe m) ∧ (AtRest m → (Safe m ↔ m.shared.failed = false)) := by
  have hrun : ∃ m, Via system.step (fun _ _ => True) (idle 1) m
      ∧ (m.Quiescent ∧ m.shared.writes = 0 ∧ m.shared.reads = 0) ∧ m.shared.deleted = 1 :=
    exists_via_of_execIf [.begin 0 .opens, .run 0 true, .run 0 false, .run 0 true, .finish 0]
      (by decide +kernel)
  obtain ⟨m, hvia, hat, hone⟩ := hrun
  exact ⟨m, ⟨hvia, hat, hone⟩, handler_deleted_once 1 m hvia⟩

/-- The first read comes to nothing, with a write outstanding. -/
theorem not_handler_deleted_once :
    ∃ m, Via system.step (fun _ _ => True) (idle 1) m ∧ m.shared.early = true ∧ ¬ Safe m := by
  have hrun : ∃ m, Via system.step (fun _ _ => True) (idle 1) m ∧ m.shared.early = true :=
    exists_via_of_execIf [.begin 0 .opens, .run 0 true, .run 0 true, .run 0 true, .run 0 true,
      .run 0 true, .run 0 true, .finish 0, .begin 0 (.read false), .run 0 true]
      (by decide +kernel)
  obtain ⟨m, hvia, hearly⟩ := hrun
  exact ⟨m, hvia, hearly, fun hs => Bool.false_ne_true (hs.early.symm.trans hearly)⟩

end CppWorkspace.AceProactorClient
