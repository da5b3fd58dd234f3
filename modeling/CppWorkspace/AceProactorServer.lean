/-
# `CppWorkspace.AceProactorServer` — the life of the server's `Service_Handler`

`open` begins the chain of reads of a connection.  Each read that has brought bytes
starts a write of a duplicate of its block, and the next read; any number of writes may
be outstanding.  The read that brings nothing ends the chain and says `delete this`.

    open                  after the accept, once
    handle_read_stream    a read has completed; `success` says that it brought bytes
    handle_write_stream   a write has completed

The functions are programs over the commands of `Cmd`, run by the threads of the
proactor; one command is atomic.  A read or write that is accepted gives exactly one
callback.  `taken` and `released` count, for each block, its creation and duplications
and its releases.  `early` records a `delete this` with a read or write outstanding.

A call that is refused leaves a handler that nobody deletes, or a block that nobody
releases; and the end of the chain does not wait for the writes.  At rest the connection
was handled right if and only if no call was refused and no write was outstanding when
the handler was deleted (`handler_and_blocks_released`).

A thread owns `(n, H)`: `n` is `1` if it carries on the chain of reads, and `H` are the
blocks that it has to release or to hand on.

Left out: what the blocks contain, and what `open` does with the addresses.
-/
import Mathlib.Algebra.Group.Prod
import Mathlib.Algebra.Order.Group.Multiset
import Mathlib.Algebra.GroupWithZero.Nat
import CppWorkspace.Lib.Programs

namespace CppWorkspace.AceProactorServer

open Programs Runs

/-- The steps of a handler. -/
inductive Cmd where
  | readOpen
  | writeOpen
  /-- `new ACE_Message_Block(512)`. -/
  | newBlock
  | read (mb : Nat)
  | duplicate (mb : Nat)
  | write (mb : Nat)
  | release (mb : Nat)
  | addresses
  /-- `delete this`. -/
  | delete
deriving DecidableEq, Repr

/-- What a command replies: `true` stands for success, a new block for its number. -/
abbrev Cmd.Reply : Cmd → Type
  | .readOpen => Bool
  | .writeOpen => Bool
  | .newBlock => Option Nat
  | .read _ => Bool
  | .write _ => Bool
  | _ => Unit

abbrev Program (α : Type) := Prog Cmd Cmd.Reply α

abbrev perform (c : Cmd) : Program c.Reply := Prog.perform c

/-! ## `Service_Handler` -/

/-- `false` is `-1`. -/
def post_recv : Program Bool := do
  match ← perform .newBlock with
  | none => return false
  | some mb => perform (.read mb)

def openHandler : Program Unit := do
  if ← perform .readOpen then
    if ← perform .writeOpen then
      if ← post_recv then perform .addresses

def handle_read_stream (mb : Nat) (success : Bool) : Program Unit := do
  if success then
    perform (.duplicate mb)
    let _ ← perform (.write mb)
    perform (.release mb)
    let _ ← post_recv
  else
    perform (.release mb)
    perform .delete

def handle_write_stream (mb : Nat) : Program Unit := perform (.release mb)

/-- The callbacks of the proactor, with the block of the result. -/
inductive Event where
  | opens
  | read (mb : Nat) (success : Bool)
  | write (mb : Nat)
deriving DecidableEq, Repr

/-- A handler, the blocks of the operations that have still to call back, and the blocks. -/
structure Handler where
  opened : Bool
  reads : Multiset Nat
  writes : Multiset Nat
  deleted : Nat
  early : Bool
  next : Nat
  taken : Nat → Nat
  released : Nat → Nat
  failed : Bool
  /-- `delete this` has met an outstanding write. -/
  overtaken : Bool

def start : Handler := ⟨false, 0, 0, 0, false, 0, fun _ => 0, fun _ => 0, false, false⟩

/-- A call has failed. -/
def Handler.fail (σ : Handler) : Handler := { σ with failed := true }

/-- What a command does; `ok` is chosen for those that may fail. -/
def exec (_ : Nat) (_ : Event) : (cmd : Cmd) → Handler → Bool → Option (Handler × cmd.Reply)
  | .readOpen, σ, ok => some (if ok then σ else σ.fail, ok)
  | .writeOpen, σ, ok => some (if ok then σ else σ.fail, ok)
  | .newBlock, σ, ok =>
      some (if ok then
          ({ σ with next := σ.next + 1, taken := Function.update σ.taken σ.next 1 },
            some σ.next)
        else (σ.fail, none))
  | .read mb, σ, ok => some (if ok then { σ with reads := mb ::ₘ σ.reads } else σ.fail, ok)
  | .duplicate mb, σ, _ =>
      some ({ σ with taken := Function.update σ.taken mb (σ.taken mb + 1) }, ())
  | .write mb, σ, ok => some (if ok then { σ with writes := mb ::ₘ σ.writes } else σ.fail, ok)
  | .release mb, σ, _ =>
      some ({ σ with released := Function.update σ.released mb (σ.released mb + 1) }, ())
  | .addresses, σ, _ => some (σ, ())
  | .delete, σ, _ =>
      some ({ σ with
        deleted := σ.deleted + 1
        early := σ.early || decide (σ.reads ≠ 0 ∨ σ.writes ≠ 0)
        overtaken := σ.overtaken || decide (σ.writes ≠ 0) }, ())

def spawn (_ : Nat) (e : Event) (σ : Handler) : Option (Handler × Program Unit) :=
  match e with
  | .opens => if σ.opened then none else some ({ σ with opened := true }, openHandler)
  | .read mb success =>
      if mb ∈ σ.reads then
        some ({ σ with reads := σ.reads.erase mb }, handle_read_stream mb success)
      else none
  | .write mb =>
      if mb ∈ σ.writes then
        some ({ σ with writes := σ.writes.erase mb }, handle_write_stream mb)
      else none

def system : System Handler Cmd Cmd.Reply Bool Event Unit where
  exec := exec
  spawn := spawn

abbrev Machine := Programs.Machine Handler Cmd Cmd.Reply Event Unit

/-- All threads idle. -/
def idle (threads : Nat) : Machine := ⟨start, List.replicate threads none⟩

/-- No callback is running, and none is to come. -/
def AtRest (m : Machine) : Prop := m.Quiescent ∧ m.shared.reads = 0 ∧ m.shared.writes = 0

/-- No handler is deleted twice, too early, or used afterwards. -/
structure Safe (m : Machine) : Prop where
  once : m.shared.deleted ≤ 1
  early : m.shared.early = false
  gone : AtRest m → m.shared.opened = true → m.shared.deleted = 1
  blocks : AtRest m → ∀ mb, m.shared.taken mb = m.shared.released mb

/-! ## The chain of reads, and the blocks -/

/-- Where the chain of reads is, with `n` threads that carry it on. -/
inductive Handler.Stage (σ : Handler) (n : Nat) : Prop
  | closed (ho : σ.opened = false) (hd : σ.deleted = 0) (hr : σ.reads.card + n = 0)
      (hf : σ.failed = false)
  | alive (ho : σ.opened = true) (hd : σ.deleted = 0) (hr : σ.reads.card + n = 1)
  /-- It ended with a refused call. -/
  | dead (ho : σ.opened = true) (hd : σ.deleted = 0) (hr : σ.reads.card + n = 0)
      (hf : σ.failed = true)
  | gone (ho : σ.opened = true) (hd : σ.deleted = 1) (hr : σ.reads.card + n = 0)

/-- Each reference to a block is with an operation, with a thread, or lost. -/
structure Handler.Held (σ : Handler) (R : Nat × Multiset Nat) (lost : Multiset Nat) : Prop where
  stage : σ.Stage R.1
  refs : ∀ mb, σ.taken mb = σ.released mb + (σ.reads + σ.writes + R.2 + lost).count mb
  fresh : ∀ mb, σ.next ≤ mb → σ.taken mb = 0
  loss : lost ≠ 0 → σ.failed = true
  cause : σ.failed = true → lost ≠ 0 ∨ σ.deleted = 0 ∧ σ.reads.card + R.1 = 0
  overtaken : σ.early = σ.overtaken

def blocks : Logic Handler Cmd Cmd.Reply Bool Event Unit (Nat × Multiset Nat) where
  toSystem := system
  Inv σ R := ∃ lost, σ.Held R lost
  Pre _ _ _ _ _ := True
  ok _ _ _ _ _ _ := True

section
variable {σ : Handler} {R : Nat × Multiset Nat} {lost H : Multiset Nat} {n mb t : Nat} {e : Event}

/-- Who carries on the chain, finds the handler there, and nobody else does. -/
theorem Handler.Held.carried (h : σ.Held R lost) (hpos : 0 < R.1) :
    σ.opened = true ∧ σ.deleted = 0 ∧ σ.reads = 0 ∧ R.1 = 1 := by
  cases h.stage with
  | closed _ _ hr => omega
  | alive ho hd hr =>
      exact ⟨ho, hd, Multiset.card_eq_zero.mp (by omega), by omega⟩
  | dead _ _ hr => omega
  | gone _ _ hr => omega

/-- A call of the one who carries on the chain is refused; what he drops of his blocks is
lost. -/
theorem Handler.Held.refused {F : Nat × Multiset Nat} (M : Multiset Nat)
    (h : σ.Held ((1, M + H) + F) lost) : σ.fail.Held ((0, H) + F) (M + lost) := by
  obtain ⟨ho, hd, hr, hone⟩ := h.carried (Nat.add_pos_left Nat.one_pos _)
  have hF : F.1 = 0 := by
    have hsum : 1 + F.1 = 1 := hone
    omega
  have hzero : σ.reads.card + ((0, H) + F).1 = 0 := by
    show σ.reads.card + (0 + F.1) = 0
    rw [hr, hF]
    rfl
  refine ⟨.dead ho hd hzero rfl, fun mb => ?_, h.fresh, fun _ => rfl, fun _ => .inr ⟨hd, hzero⟩,
    h.overtaken⟩
  have hrefs := h.refs mb
  show σ.taken mb = σ.released mb + (σ.reads + σ.writes + (H + F.2) + (M + lost)).count mb
  simp only [Prod.snd_add, Multiset.count_add] at hrefs ⊢
  omega

theorem Handler.Held.move {σ τ : Handler} {R R' : Nat × Multiset Nat} {lost : Multiset Nat}
    (h : σ.Held R lost) (ho : τ.opened = σ.opened) (hd : τ.deleted = σ.deleted)
    (he : τ.early = σ.early) (hn : τ.next = σ.next) (hv : τ.overtaken = σ.overtaken)
    (hf : τ.failed = σ.failed) (hchain : τ.reads.card + R'.1 = σ.reads.card + R.1)
    (hrefs : ∀ mb, τ.taken mb + σ.released mb + (σ.reads + σ.writes + R.2).count mb
      = σ.taken mb + τ.released mb + (τ.reads + τ.writes + R'.2).count mb)
    (hfresh : ∀ mb, σ.taken mb = 0 → τ.taken mb = 0) : τ.Held R' lost := by
  refine ⟨?_, fun mb => ?_, fun mb hmb => hfresh mb (h.fresh mb (hn ▸ hmb)),
    fun hl => hf.trans (h.loss hl), fun hfail => ?_, he.trans (h.overtaken.trans hv.symm)⟩
  · cases h.stage with
    | closed ho' hd' hr hf' =>
        exact .closed (ho.trans ho') (hd.trans hd') (hchain.trans hr) (hf.trans hf')
    | alive ho' hd' hr => exact .alive (ho.trans ho') (hd.trans hd') (hchain.trans hr)
    | dead ho' hd' hr hf' =>
        exact .dead (ho.trans ho') (hd.trans hd') (hchain.trans hr) (hf.trans hf')
    | gone ho' hd' hr => exact .gone (ho.trans ho') (hd.trans hd') (hchain.trans hr)
  · have hold := h.refs mb
    have hnew := hrefs mb
    simp only [Multiset.count_add] at hold hnew ⊢
    omega
  · rw [hd, hchain]
    exact h.cause (hf.symm.trans hfail)

/-! ## Commands -/

theorem does_open {cmd : Cmd} {v : Bool → cmd.Reply}
    (hexec : ∀ σ ok, exec t e cmd σ ok = some (if ok then σ else σ.fail, v ok)) :
    Does blocks t e cmd (1, H) fun w r => ∃ ok, w = v ok ∧ r = if ok then (1, H) else (0, H) := by
  rintro σ F ⟨lost, hinv⟩
  refine ⟨trivial, fun ok σ' w _ hrun => ?_⟩
  cases (hexec σ ok).symm.trans hrun
  refine ⟨if ok then (1, H) else (0, H), ?_, ok, rfl, rfl⟩
  cases ok with
  | true => exact ⟨lost, hinv⟩
  | false => exact ⟨0 + lost, Handler.Held.refused 0 (by rwa [zero_add])⟩

theorem does_newBlock : Does blocks t e .newBlock (1, H) fun w r =>
    w = none ∧ r = (0, H) ∨ ∃ mb, w = some mb ∧ r = (1, mb ::ₘ H) := by
  rintro σ F ⟨lost, hinv⟩
  refine ⟨trivial, fun ok σ' w _ hrun => ?_⟩
  cases ok with
  | false =>
      cases hrun
      exact ⟨(0, H), ⟨0 + lost, Handler.Held.refused 0 (by rwa [zero_add])⟩, .inl ⟨rfl, rfl⟩⟩
  | true =>
      cases hrun
      refine ⟨(1, σ.next ::ₘ H), ⟨lost, ?_⟩, .inr ⟨_, rfl, rfl⟩⟩
      have hnone := hinv.fresh σ.next (Nat.le_refl _)
      have hrefs := hinv.refs
      refine ⟨?_, fun mb => ?_, fun mb hmb => ?_, hinv.loss, hinv.cause, hinv.overtaken⟩
      · cases hinv.stage with
        | closed ho hd hr hf => exact .closed ho hd hr hf
        | alive ho hd hr => exact .alive ho hd hr
        | dead ho hd hr hf => exact .dead ho hd hr hf
        | gone ho hd hr => exact .gone ho hd hr
      · have hmb := hrefs mb
        simp only [Prod.snd_add, Multiset.count_add, Multiset.cons_add,
          Multiset.count_cons] at hmb ⊢
        by_cases hnew : mb = σ.next
        · rw [hnew] at hmb ⊢
          rw [Function.update_self, if_pos rfl]
          omega
        · rw [Function.update_of_ne hnew, if_neg hnew]
          omega
      · have hne : mb ≠ σ.next := fun he => by
          rw [he] at hmb
          exact absurd hmb (Nat.not_succ_le_self _)
        exact (Function.update_of_ne hne _ _).trans (hinv.fresh mb (Nat.le_of_succ_le hmb))

theorem does_read : Does blocks t e (.read mb) (1, mb ::ₘ H) fun _ r => r = (0, H) := by
  rintro σ F ⟨lost, hinv⟩
  refine ⟨trivial, fun ok σ' w _ hrun => ⟨(0, H), ?_, rfl⟩⟩
  cases ok with
  | true =>
      cases hrun
      have hread : Handler.Held { σ with reads := mb ::ₘ σ.reads } ((0, H) + F) lost := by
        refine hinv.move rfl rfl rfl rfl rfl rfl ?_ (fun b => ?_) fun _ h => h
        · show (mb ::ₘ σ.reads).card + (0 + F.1) = σ.reads.card + (1 + F.1)
          rw [Multiset.card_cons]
          omega
        · simp only [Prod.snd_add, Multiset.count_add, Multiset.count_cons]
          omega
      exact ⟨lost, hread⟩
  | false =>
      cases hrun
      have hlost : σ.fail.Held ((0, H) + F) ({mb} + lost) :=
        Handler.Held.refused {mb} (by rwa [Multiset.singleton_add])
      exact ⟨_, hlost⟩

theorem does_duplicate : Does blocks t e (.duplicate mb) (n, mb ::ₘ H) fun _ r =>
    r = (n, mb ::ₘ mb ::ₘ H) := by
  rintro σ F ⟨lost, hinv⟩
  refine ⟨trivial, fun ok σ' w _ hrun => ⟨(n, mb ::ₘ mb ::ₘ H), ?_, rfl⟩⟩
  cases hrun
  refine ⟨lost, hinv.move rfl rfl rfl rfl rfl rfl rfl (fun b => ?_) fun b hb => ?_⟩
  · simp only [Prod.snd_add, Multiset.count_add, Multiset.count_cons]
    by_cases hmb : b = mb
    · subst hmb
      rw [Function.update_self, if_pos rfl]
      omega
    · rw [Function.update_of_ne hmb, if_neg hmb]
  · -- the block is held, so that it was taken
    have hne : b ≠ mb := by
      rintro rfl
      have hrefs := hinv.refs b
      simp only [Prod.snd_add, Multiset.count_add, Multiset.count_cons_self] at hrefs
      omega
    exact (Function.update_of_ne hne _ _).trans hb

/-- The duplicate goes with the write, or is lost; the chain is not concerned. -/
theorem does_write : Does blocks t e (.write mb) (1, mb ::ₘ H) fun _ r => r = (1, H) := by
  rintro σ F ⟨lost, hinv⟩
  refine ⟨trivial, fun ok σ' w _ hrun => ⟨(1, H), ?_, rfl⟩⟩
  cases ok with
  | true =>
      cases hrun
      have hwrite : Handler.Held { σ with writes := mb ::ₘ σ.writes } ((1, H) + F) lost := by
        refine hinv.move rfl rfl rfl rfl rfl rfl rfl (fun b => ?_) fun _ h => h
        simp only [Prod.snd_add, Multiset.count_add, Multiset.count_cons]
        omega
      exact ⟨lost, hwrite⟩
  | false =>
      cases hrun
      obtain ⟨ho, hd, hr, hone⟩ := hinv.carried (Nat.add_pos_left Nat.one_pos _)
      refine ⟨mb ::ₘ lost, .alive ho hd ?_, fun b => ?_, hinv.fresh, fun _ => rfl,
        fun _ => .inl Multiset.cons_ne_zero, hinv.overtaken⟩
      · show σ.reads.card + (1 + F.1) = 1
        rw [hr]
        exact (Nat.zero_add _).trans hone
      · have hrefs := hinv.refs b
        show σ.taken b = σ.released b + (σ.reads + σ.writes + (H + F.2) + mb ::ₘ lost).count b
        simp only [Prod.snd_add, Multiset.count_add, Multiset.count_cons] at hrefs ⊢
        omega

theorem does_release : Does blocks t e (.release mb) (n, mb ::ₘ H) fun _ r => r = (n, H) := by
  rintro σ F ⟨lost, hinv⟩
  refine ⟨trivial, fun ok σ' w _ hrun => ⟨(n, H), ?_, rfl⟩⟩
  cases hrun
  refine ⟨lost, hinv.move rfl rfl rfl rfl rfl rfl rfl (fun b => ?_) fun _ h => h⟩
  simp only [Prod.snd_add, Multiset.count_add, Multiset.count_cons]
  by_cases hmb : b = mb
  · subst hmb
    rw [Function.update_self, if_pos rfl]
    omega
  · rw [Function.update_of_ne hmb, if_neg hmb]
    omega

theorem does_addresses : Does blocks t e .addresses (n, H) fun _ r => r = (n, H) := by
  rintro σ F hinv
  refine ⟨trivial, fun ok σ' w _ hrun => ⟨(n, H), ?_, rfl⟩⟩
  cases hrun
  exact hinv

/-- The end of the chain: no read is outstanding, but writes may be. -/
theorem does_delete : Does blocks t e .delete (1, H) fun _ r => r = (0, H) := by
  rintro σ F ⟨lost, hinv⟩
  refine ⟨trivial, fun ok σ' w _ hrun => ⟨(0, H), ?_, rfl⟩⟩
  cases hrun
  obtain ⟨ho, hd, hr, hone⟩ := hinv.carried (Nat.add_pos_left Nat.one_pos _)
  have hF : F.1 = 0 := by
    have hsum : 1 + F.1 = 1 := hone
    omega
  refine ⟨lost, .gone ho (congrArg Nat.succ hd) ?_, hinv.refs, hinv.fresh, hinv.loss,
    fun hf => ?_, ?_⟩
  · show σ.reads.card + (0 + F.1) = 0
    rw [hr, hF]
    rfl
  · -- the chain has got so far: what was refused is a write
    refine (hinv.cause hf).imp_right fun hdead => ?_
    have hzero : σ.reads.card + (1 + F.1) = 0 := hdead.2
    omega
  · show (σ.early || decide (σ.reads ≠ 0 ∨ σ.writes ≠ 0))
      = (σ.overtaken || decide (σ.writes ≠ 0))
    rw [hinv.overtaken]
    simp only [hr, ne_eq, not_true_eq_false, false_or]

/-! ## The programs -/

theorem wp_post_recv : wp blocks t e post_recv (fun _ r => r = (0, H)) (1, H) := by
  refine wp_call does_newBlock ?_
  rintro _ _ (⟨rfl, rfl⟩ | ⟨mb, rfl, rfl⟩)
  · exact wp_ret rfl
  · exact wp_perform does_read

theorem wp_openHandler : wp blocks t e openHandler (fun _ r => r = 0) (1, 0) := by
  refine wp_call (does_open (v := fun ok => ok) fun _ _ => rfl) ?_
  rintro (ok : Bool) _ ⟨_, rfl, rfl⟩
  cases ok with
  | false => exact wp_ret rfl
  | true =>
      refine wp_call (does_open (v := fun ok => ok) fun _ _ => rfl) ?_
      rintro (ok : Bool) _ ⟨_, rfl, rfl⟩
      cases ok with
      | false => exact wp_ret rfl
      | true =>
          refine wp_after wp_post_recv ?_
          rintro (ok : Bool) _ rfl
          cases ok with
          | false => exact wp_ret rfl
          | true => exact wp_perform does_addresses

theorem wp_handle_read_stream {success : Bool} :
    wp blocks t e (handle_read_stream mb success) (fun _ r => r = 0) (1, {mb}) := by
  cases success with
  | true =>
      refine wp_call does_duplicate ?_
      rintro _ _ rfl
      refine wp_call does_write ?_
      rintro _ _ rfl
      refine wp_call does_release ?_
      rintro _ _ rfl
      refine wp_after wp_post_recv ?_
      rintro _ _ rfl
      exact wp_ret rfl
  | false =>
      refine wp_call does_release ?_
      rintro _ _ rfl
      exact wp_perform does_delete

theorem wp_handle_write_stream :
    wp blocks t e (handle_write_stream mb) (fun _ r => r = 0) (0, {mb}) :=
  wp_perform does_release

end

/-! ## Runs -/

theorem start_held : start.Held 0 0 :=
  ⟨.closed rfl rfl rfl rfl, fun _ => rfl, fun _ _ => rfl, fun h => absurd rfl h, nofun, rfl⟩

/-- The blocks of the operations, before one of them calls back. -/
theorem count_callback {blocks : Multiset Nat} {mb : Nat} (h : mb ∈ blocks) (b : Nat) :
    blocks.count b = (blocks.erase mb).count b + if b = mb then 1 else 0 := by
  conv_lhs => rw [← Multiset.cons_erase h]
  exact Multiset.count_cons b mb _

/-- A callback takes its operation's block, and a read's the chain too. -/
theorem spawn_held {t : Nat} {e : Event} {σ τ : Handler} {p : Program Unit}
    {F : Nat × Multiset Nat} {lost : Multiset Nat} (h : σ.Held F lost)
    (hspawn : spawn t e σ = some (τ, p)) :
    ∃ r, τ.Held (r + F) lost ∧ wp blocks t e p (fun _ r' => r' = 0) r := by
  cases e with
  | opens =>
      obtain ⟨hopen, hspawn⟩ := Option.ite_none_left_eq_some.mp hspawn
      cases hspawn
      refine ⟨(1, 0), ⟨?_, ?_, h.fresh, h.loss, ?_, h.overtaken⟩, wp_openHandler⟩
      · cases h.stage with
        | closed _ hd hr =>
            refine .alive rfl hd ?_
            show σ.reads.card + (1 + F.1) = 1
            omega
        | alive ho | dead ho | gone ho => exact absurd ho hopen
      · intro mb
        have hrefs := h.refs mb
        rw [Prod.snd_add, zero_add]
        exact hrefs
      · intro hf
        cases h.stage with
        | closed _ _ _ hf' => exact absurd (hf'.symm.trans hf) Bool.false_ne_true
        | alive ho | dead ho | gone ho => exact absurd ho hopen
  | read mb success =>
      obtain ⟨hmem, hspawn⟩ := Option.ite_none_right_eq_some.mp hspawn
      cases hspawn
      refine ⟨(1, {mb}), h.move rfl rfl rfl rfl rfl rfl ?_ (fun b => ?_) fun _ h => h,
        wp_handle_read_stream⟩
      · have hcard := Multiset.card_erase_add_one hmem
        show (σ.reads.erase mb).card + (1 + F.1) = σ.reads.card + F.1
        omega
      · have hb := count_callback hmem b
        simp only [Prod.snd_add, Multiset.count_add, Multiset.count_singleton]
        omega
  | write mb =>
      obtain ⟨hmem, hspawn⟩ := Option.ite_none_right_eq_some.mp hspawn
      cases hspawn
      refine ⟨(0, {mb}), h.move rfl rfl rfl rfl rfl rfl ?_ (fun b => ?_) fun _ h => h,
        wp_handle_write_stream⟩
      · show σ.reads.card + (0 + F.1) = σ.reads.card + F.1
        rw [Nat.zero_add]
      · have hb := count_callback hmem b
        simp only [Prod.snd_add, Multiset.count_add, Multiset.count_singleton]
        omega

theorem held {threads : Nat} {m : Machine}
    (h : Via system.step (fun _ _ => True) (idle threads) m) : ∃ rs, blocks.Good m rs := by
  refine Logic.run (L := blocks) (fun _ _ _ _ _ _ _ _ _ _ => trivial) ?_
    ⟨_, blocks.good_start ⟨0, start_held⟩⟩ h
  rintro m t e σ p F - ⟨lost, hheld⟩ hspawn
  obtain ⟨r, hr, hwp⟩ := spawn_held hheld hspawn
  exact ⟨r, ⟨lost, hr⟩, hwp⟩

/-- **Lifetime.**  Whatever is refused and in whatever order the completions come: as long
as no call was refused and no write was outstanding at the `delete this`, the handler and
its blocks are safe; and at rest they are safe if and only if that is so. -/
theorem handler_and_blocks_released (threads : Nat) (m : Machine)
    (h : Via system.step (fun _ _ => True) (idle threads) m) :
    (m.shared.failed = false ∧ m.shared.overtaken = false → Safe m)
      ∧ (AtRest m → (Safe m ↔ m.shared.failed = false ∧ m.shared.overtaken = false)) := by
  obtain ⟨rs, hgood⟩ := held h
  -- at rest nobody owns anything
  have hrest : AtRest m → ∃ lost, m.shared.Held 0 lost := fun hat => hgood.quiescent hat.1
  have hsafe : m.shared.failed = false ∧ m.shared.overtaken = false → Safe m := by
    rintro ⟨hf, hover⟩
    obtain ⟨lost, hinv⟩ := hgood.inv
    refine ⟨?_, hinv.overtaken.trans hover, fun hat ho => ?_, fun hat mb => ?_⟩
    · cases hinv.stage with
      | closed _ hd | alive _ hd | dead _ hd => omega
      | gone _ hd => omega
    · obtain ⟨lost, hinv⟩ := hrest hat
      have hr := congrArg Multiset.card hat.2.1
      cases hinv.stage with
      | closed ho' => exact absurd (ho'.symm.trans ho) Bool.false_ne_true
      | alive _ _ hn => exact absurd (hr.symm.trans hn) Nat.zero_ne_one
      | dead _ _ _ hf' => exact absurd (hf.symm.trans hf') Bool.false_ne_true
      | gone _ hd => exact hd
    · obtain ⟨lost, hinv⟩ := hrest hat
      have hlost : lost = 0 := by
        by_contra hne
        exact Bool.false_ne_true (hf.symm.trans (hinv.loss hne))
      have hrefs := hinv.refs mb
      rw [hat.2.1, hat.2.2, hlost] at hrefs
      exact hrefs
  refine ⟨hsafe, fun hat => ⟨fun hs => ⟨?_, ?_⟩, hsafe⟩⟩
  · obtain ⟨lost, hinv⟩ := hrest hat
    refine Bool.eq_false_iff.mpr fun hf => ?_
    rcases hinv.cause hf with hlost | ⟨hd, hchain⟩
    · -- a block that was lost is not balanced
      obtain ⟨mb, hmb⟩ := Multiset.exists_mem_of_ne_zero hlost
      have hpos := Multiset.count_pos.mpr hmb
      have hrefs := hinv.refs mb
      have hbal := hs.blocks hat mb
      simp only [Multiset.count_add] at hrefs
      omega
    · cases hinv.stage with
      | closed _ _ _ hf' => exact Bool.false_ne_true (hf'.symm.trans hf)
      | alive ho | dead ho =>
          have hone := hs.gone hat ho
          omega
      | gone _ hone => omega
  · obtain ⟨lost, hinv⟩ := hrest hat
    exact hinv.overtaken.symm.trans hs.early

/-- One chunk is echoed; the write has completed before the client closes. -/
theorem handler_and_blocks_released_echo :
    ∃ m, (Via system.step (fun _ _ => True) (idle 1) m ∧ AtRest m ∧ m.shared.deleted = 1)
      ∧ (m.shared.failed = false ∧ m.shared.overtaken = false → Safe m)
      ∧ (AtRest m → (Safe m ↔ m.shared.failed = false ∧ m.shared.overtaken = false)) := by
  have hrun : ∃ m, Via system.step (fun _ _ => True) (idle 1) m
      ∧ (m.Quiescent ∧ m.shared.reads = 0 ∧ m.shared.writes = 0) ∧ m.shared.deleted = 1 :=
    exists_via_of_execIf [.begin 0 .opens, .run 0 true, .run 0 true, .run 0 true, .run 0 true,
      .run 0 true, .finish 0, .begin 0 (.read 0 true), .run 0 true, .run 0 true, .run 0 true,
      .run 0 true, .run 0 true, .finish 0, .begin 0 (.write 0), .run 0 true, .finish 0,
      .begin 0 (.read 1 false), .run 0 true, .run 0 true, .finish 0]
      (by decide +kernel)
  obtain ⟨m, hvia, hat, hone⟩ := hrun
  exact ⟨m, ⟨hvia, hat, hone⟩, handler_and_blocks_released 1 m hvia⟩

/-- The client closes while the echo of its chunk is still being written. -/
theorem not_handler_and_blocks_released :
    ∃ m, Via system.step (fun _ _ => True) (idle 1) m ∧ m.shared.early = true ∧ ¬ Safe m := by
  have hrun : ∃ m, Via system.step (fun _ _ => True) (idle 1) m ∧ m.shared.early = true :=
    exists_via_of_execIf [.begin 0 .opens, .run 0 true, .run 0 true, .run 0 true, .run 0 true,
      .run 0 true, .finish 0, .begin 0 (.read 0 true), .run 0 true, .run 0 true, .run 0 true,
      .run 0 true, .run 0 true, .finish 0, .begin 0 (.read 1 false), .run 0 true, .run 0 true]
      (by decide +kernel)
  obtain ⟨m, hvia, hearly⟩ := hrun
  exact ⟨m, hvia, hearly, fun hs => Bool.false_ne_true (hs.early.symm.trans hearly)⟩

end CppWorkspace.AceProactorServer
