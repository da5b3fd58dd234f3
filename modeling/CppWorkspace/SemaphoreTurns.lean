/-
# `CppWorkspace.SemaphoreTurns` — two threads that pass a turn by two semaphores

`pthread_func_2` waits for `s1` and posts `s2`, `pthread_func_1` waits for `s2` and posts
`s1`; each looks at the clock before it waits, and returns when `end_time` has passed.  The
turn is never lost: it is in one of the semaphores, or with the thread between its wait and
its post (`Inv.conserved`), so the two take turns in every run.

But the thread that sees that the time has passed does not hand on its turn.  If the other
one has looked at the clock before, and waits already, it waits for ever.  A round begins
with a look at the clock that sees time left.  When `end_time` passes, `pthread_func_2` must
have begun as many rounds as `pthread_func_1`, or one more: then both return
(`orderly_of_inTurn`), and otherwise they never do (`joins_iff`).

A look at the clock, a wait, a post is one step of its thread; a wait is possible while the
semaphore is positive.  Time passes at any moment, and does not go back.
-/
import Mathlib.Data.List.Basic
import CppWorkspace.Lib.Runs

namespace CppWorkspace.SemaphoreTurns

open Runs

/-! ## The threads -/

/-- Where a thread is: before it looks at the clock, before `sem_wait`, between `sem_wait` and
`sem_post`, or at its end. -/
inductive Pc where
  | test
  | wait
  | critical
  | returned
deriving DecidableEq, Repr

/-- The two threads. -/
inductive Thread where
  | one
  | two
deriving DecidableEq, Repr

/-- The two semaphores and the end time. -/
structure PrivInfo where
  s1 : Nat
  s2 : Nat
  end_time : Nat
deriving DecidableEq, Repr

/-- `rounds1` and `rounds2` count the looks at the clock that saw time left, `turns` are the
threads that came between their wait and their post, the last one first. -/
structure State where
  time : Nat
  info : PrivInfo
  pt_1 : Pc
  pt_2 : Pc
  rounds1 : Nat
  rounds2 : Nat
  turns : List Thread
deriving DecidableEq, Repr

/-- `info_init` -/
def info_init (time : Nat) : PrivInfo where
  s1 := 1
  s2 := 0
  end_time := time + 10

def start (time : Nat) : State where
  time := time
  info := info_init time
  pt_1 := .test
  pt_2 := .test
  rounds1 := 0
  rounds2 := 0
  turns := []

namespace State

/-- `time(NULL) < thiz->end_time` -/
def before (σ : State) : Bool := decide (σ.time < σ.info.end_time)

def pthread_func_1 (σ : State) : Option State :=
  match σ.pt_1 with
  | .test =>
      if σ.before then some { σ with pt_1 := .wait, rounds1 := σ.rounds1 + 1 }
      else some { σ with pt_1 := .returned }
  | .wait =>
      if 0 < σ.info.s2 then
        some { σ with
          info := { σ.info with s2 := σ.info.s2 - 1 }, pt_1 := .critical
          turns := .one :: σ.turns }
      else none
  | .critical => some { σ with info := { σ.info with s1 := σ.info.s1 + 1 }, pt_1 := .test }
  | .returned => none

def pthread_func_2 (σ : State) : Option State :=
  match σ.pt_2 with
  | .test =>
      if σ.before then some { σ with pt_2 := .wait, rounds2 := σ.rounds2 + 1 }
      else some { σ with pt_2 := .returned }
  | .wait =>
      if 0 < σ.info.s1 then
        some { σ with
          info := { σ.info with s1 := σ.info.s1 - 1 }, pt_2 := .critical
          turns := .two :: σ.turns }
      else none
  | .critical => some { σ with info := { σ.info with s2 := σ.info.s2 + 1 }, pt_2 := .test }
  | .returned => none

end State

/-- A second passes, or a thread takes a step. -/
inductive Action where
  | tick
  | one
  | two
deriving DecidableEq, Repr

def step (σ : State) : Action → Option State
  | .tick => some { σ with time := σ.time + 1 }
  | .one => σ.pthread_func_1
  | .two => σ.pthread_func_2

/-! ## What is asked for -/

/-- The threads take turns, and `pthread_func_2` is the first. -/
def Alternates : List Thread → Prop
  | [] => True
  | t :: ts => t ≠ ts.headD .one ∧ Alternates ts

/-- One while the thread is between its wait and its post. -/
def Pc.holding : Pc → Nat
  | .critical => 1
  | _ => 0

/-- A thread waits, and the other one, who would post, has returned. -/
def Stuck (σ : State) : Prop :=
  (σ.pt_1 = .returned ∧ σ.pt_2 = .wait ∧ σ.info.s1 = 0) ∨
    (σ.pt_2 = .returned ∧ σ.pt_1 = .wait ∧ σ.info.s2 = 0)

/-- Both `pthread_join` calls of `main` return. -/
def Joined (σ : State) : Prop := σ.pt_1 = .returned ∧ σ.pt_2 = .returned

instance (σ : State) : Decidable (Joined σ) := inferInstanceAs (Decidable (_ ∧ _))

/-- `pthread_func_2`, which is the first, has begun as many rounds as `pthread_func_1`, or one
more. -/
def Balanced (σ : State) : Prop := σ.rounds1 ≤ σ.rounds2 ∧ σ.rounds2 ≤ σ.rounds1 + 1

instance (σ : State) : Decidable (Balanced σ) := inferInstanceAs (Decidable (_ ∧ _))

/-- `end_time` does not pass while one thread is ahead of the other one. -/
def InTurn (σ : State) : Action → Prop
  | .tick => σ.before = true → σ.info.end_time ≤ σ.time + 1 → Balanced σ
  | .one => True
  | .two => True

instance (σ : State) : (a : Action) → Decidable (InTurn σ a)
  | .tick => inferInstanceAs (Decidable (_ → _ → _))
  | .one => inferInstanceAs (Decidable True)
  | .two => inferInstanceAs (Decidable True)

/-- The threads alternate, one has the turn, and both can still return. -/
structure Orderly (σ : State) : Prop where
  alternates : Alternates σ.turns
  conserved : σ.info.s1 + σ.info.s2 + σ.pt_1.holding + σ.pt_2.holding = 1
  notStuck : ¬ Stuck σ
  /-- The run can go on until both threads have returned. -/
  joins : ∃ σ', Via step InTurn σ σ' ∧ Joined σ'

/-! ## The turn -/

/-- One while the thread waits. -/
def Pc.waiting : Pc → Nat
  | .wait => 1
  | _ => 0

theorem holding_test : Pc.test.holding = 0 := rfl
theorem holding_wait : Pc.wait.holding = 0 := rfl
theorem holding_critical : Pc.critical.holding = 1 := rfl
theorem holding_returned : Pc.returned.holding = 0 := rfl
theorem waiting_wait : Pc.wait.waiting = 1 := rfl
theorem waiting_critical : Pc.critical.waiting = 0 := rfl
theorem waiting_returned : Pc.returned.waiting = 0 := rfl

theorem waiting_pos {p : Pc} (h : 0 < p.waiting) : p = .wait := by
  cases p with
  | wait => rfl
  | test => exact absurd h (Nat.lt_irrefl 0)
  | critical => exact absurd h (Nat.lt_irrefl 0)
  | returned => exact absurd h (Nat.lt_irrefl 0)

/-- Where the turn is, and how many there were; this holds in every run. -/
structure Inv (σ : State) : Prop where
  alternates : Alternates σ.turns
  conserved : σ.info.s1 + σ.info.s2 + σ.pt_1.holding + σ.pt_2.holding = 1
  toTwo : σ.info.s1 + σ.pt_1.holding = 1 → σ.turns.headD .one = .one
  toOne : σ.info.s2 + σ.pt_2.holding = 1 → σ.turns.headD .one = .two
  count : σ.turns.count .two = σ.turns.count .one + (σ.info.s2 + σ.pt_2.holding)
  rounds1 : σ.rounds1 = σ.turns.count .one + σ.pt_1.waiting
  rounds2 : σ.rounds2 = σ.turns.count .two + σ.pt_2.waiting

/-- A thread returns after `end_time` only, and by then neither is ahead. -/
structure Timely (σ : State) : Prop where
  balanced : σ.before = false → Balanced σ
  one : σ.pt_1 = .returned → σ.before = false
  two : σ.pt_2 = .returned → σ.before = false

/-- How many steps a thread still takes once the time has passed. -/
def Pc.left : Pc → Nat
  | .test => 1
  | .critical => 2
  | .wait => 3
  | .returned => 0

/-- What a step of a thread does to the clock, to the rounds and to the way that is left. -/
structure Goes (σ σ' : State) : Prop where
  before : σ'.before = σ.before
  rounds : σ.before = false → σ'.rounds1 = σ.rounds1 ∧ σ'.rounds2 = σ.rounds2
  left : σ.before = false → σ'.pt_1.left + σ'.pt_2.left < σ.pt_1.left + σ.pt_2.left
  one : σ.before = true → σ'.pt_1 = .returned → σ.pt_1 = .returned
  two : σ.before = true → σ'.pt_2 = .returned → σ.pt_2 = .returned

theorem inv_start (time : Nat) : Inv (start time) where
  alternates := trivial
  conserved := rfl
  toTwo _ := rfl
  toOne h := by cases h
  count := rfl
  rounds1 := rfl
  rounds2 := rfl

theorem timely_start (time : Nat) : Timely (start time) where
  balanced _ := ⟨Nat.zero_le 0, Nat.zero_le 1⟩
  one h := by cases h
  two h := by cases h

section
variable {σ σ' : State}

namespace Inv

theorem pthread_func_1 (h : Inv σ) (hs : σ.pthread_func_1 = some σ') : Inv σ' := by
  obtain ⟨halt, hcons, htoTwo, htoOne, hcount, hr1, hr2⟩ := h
  unfold State.pthread_func_1 at hs
  cases hpc : σ.pt_1 with
  | test =>
      simp only [hpc] at hs hcons htoTwo hr1
      split at hs
      · cases hs
        exact ⟨halt, hcons, htoTwo, htoOne, hcount, congrArg (· + 1) hr1, hr2⟩
      · cases hs
        exact ⟨halt, hcons, htoTwo, htoOne, hcount, hr1, hr2⟩
  | wait =>
      simp only [hpc] at hs hcons hr1
      obtain ⟨hpos, hs⟩ := Option.ite_none_right_eq_some.mp hs
      cases hs
      simp only [holding_wait, waiting_wait] at hcons hr1
      have hone : σ.info.s2 + σ.pt_2.holding = 1 := by omega
      refine ⟨⟨?_, halt⟩, ?_, fun _ => rfl, fun h => ?_, ?_, ?_, ?_⟩
      · rw [htoOne hone]
        decide
      · simp only [holding_critical]
        omega
      · simp only at h
        omega
      · simp only [List.count_cons_self, List.count_cons_of_ne (by decide : Thread.one ≠ .two)]
        omega
      · simp only [List.count_cons_self, waiting_critical]
        omega
      · rw [List.count_cons_of_ne (by decide)]
        exact hr2
  | critical =>
      simp only [hpc] at hs hcons htoTwo hr1
      cases hs
      simp only [holding_critical] at hcons htoTwo
      refine ⟨halt, ?_, fun _ => htoTwo (by omega), htoOne, hcount, hr1, hr2⟩
      simp only [holding_test]
      omega
  | returned =>
      simp only [hpc] at hs
      cases hs

theorem pthread_func_2 (h : Inv σ) (hs : σ.pthread_func_2 = some σ') : Inv σ' := by
  obtain ⟨halt, hcons, htoTwo, htoOne, hcount, hr1, hr2⟩ := h
  unfold State.pthread_func_2 at hs
  cases hpc : σ.pt_2 with
  | test =>
      simp only [hpc] at hs hcons htoOne hcount hr2
      split at hs
      · cases hs
        exact ⟨halt, hcons, htoTwo, htoOne, hcount, hr1, congrArg (· + 1) hr2⟩
      · cases hs
        exact ⟨halt, hcons, htoTwo, htoOne, hcount, hr1, hr2⟩
  | wait =>
      simp only [hpc] at hs hcons hcount hr2
      obtain ⟨hpos, hs⟩ := Option.ite_none_right_eq_some.mp hs
      cases hs
      simp only [holding_wait, waiting_wait] at hcons hcount hr2
      have htwo : σ.info.s1 + σ.pt_1.holding = 1 := by omega
      refine ⟨⟨?_, halt⟩, ?_, fun h => ?_, fun _ => rfl, ?_, ?_, ?_⟩
      · rw [htoTwo htwo]
        decide
      · simp only [holding_critical]
        omega
      · simp only at h
        omega
      · simp only [List.count_cons_self, List.count_cons_of_ne (by decide : Thread.two ≠ .one),
          holding_critical]
        omega
      · rw [List.count_cons_of_ne (by decide)]
        exact hr1
      · simp only [List.count_cons_self, waiting_critical]
        omega
  | critical =>
      simp only [hpc] at hs hcons htoOne hcount hr2
      cases hs
      simp only [holding_critical] at hcons htoOne hcount
      refine ⟨halt, ?_, htoTwo, fun _ => htoOne (by omega), ?_, hr1, hr2⟩
      · simp only [holding_test]
        omega
      · simp only [holding_test]
        omega
  | returned =>
      simp only [hpc] at hs
      cases hs

theorem step {a : Action} (h : Inv σ) (hs : SemaphoreTurns.step σ a = some σ') : Inv σ' := by
  cases a with
  | tick =>
      cases hs
      exact ⟨h.alternates, h.conserved, h.toTwo, h.toOne, h.count, h.rounds1, h.rounds2⟩
  | one => exact h.pthread_func_1 hs
  | two => exact h.pthread_func_2 hs

end Inv

theorem goes_one (hs : σ.pthread_func_1 = some σ') : Goes σ σ' := by
  unfold State.pthread_func_1 at hs
  cases hpc : σ.pt_1 with
  | test =>
      simp only [hpc] at hs
      split at hs
      · rename_i hbefore
        cases hs
        exact ⟨rfl, fun h => absurd (h.symm.trans hbefore) Bool.false_ne_true,
          fun h => absurd (h.symm.trans hbefore) Bool.false_ne_true, fun _ h => (by cases h),
          fun _ h => h⟩
      · rename_i hbefore
        cases hs
        refine ⟨rfl, fun _ => ⟨rfl, rfl⟩, fun _ => ?_, fun h => absurd h hbefore, fun _ h => h⟩
        rw [hpc]
        exact Nat.add_lt_add_right (by decide : Pc.returned.left < Pc.test.left) _
  | wait =>
      simp only [hpc] at hs
      obtain ⟨-, hs⟩ := Option.ite_none_right_eq_some.mp hs
      cases hs
      refine ⟨rfl, fun _ => ⟨rfl, rfl⟩, fun _ => ?_, fun _ h => (by cases h), fun _ h => h⟩
      rw [hpc]
      exact Nat.add_lt_add_right (by decide : Pc.critical.left < Pc.wait.left) _
  | critical =>
      simp only [hpc] at hs
      cases hs
      refine ⟨rfl, fun _ => ⟨rfl, rfl⟩, fun _ => ?_, fun _ h => (by cases h), fun _ h => h⟩
      rw [hpc]
      exact Nat.add_lt_add_right (by decide : Pc.test.left < Pc.critical.left) _
  | returned =>
      simp only [hpc] at hs
      cases hs

theorem goes_two (hs : σ.pthread_func_2 = some σ') : Goes σ σ' := by
  unfold State.pthread_func_2 at hs
  cases hpc : σ.pt_2 with
  | test =>
      simp only [hpc] at hs
      split at hs
      · rename_i hbefore
        cases hs
        exact ⟨rfl, fun h => absurd (h.symm.trans hbefore) Bool.false_ne_true,
          fun h => absurd (h.symm.trans hbefore) Bool.false_ne_true, fun _ h => h,
          fun _ h => (by cases h)⟩
      · rename_i hbefore
        cases hs
        refine ⟨rfl, fun _ => ⟨rfl, rfl⟩, fun _ => ?_, fun _ h => h, fun h => absurd h hbefore⟩
        rw [hpc]
        exact Nat.add_lt_add_left (by decide : Pc.returned.left < Pc.test.left) _
  | wait =>
      simp only [hpc] at hs
      obtain ⟨-, hs⟩ := Option.ite_none_right_eq_some.mp hs
      cases hs
      refine ⟨rfl, fun _ => ⟨rfl, rfl⟩, fun _ => ?_, fun _ h => h, fun _ h => (by cases h)⟩
      rw [hpc]
      exact Nat.add_lt_add_left (by decide : Pc.critical.left < Pc.wait.left) _
  | critical =>
      simp only [hpc] at hs
      cases hs
      refine ⟨rfl, fun _ => ⟨rfl, rfl⟩, fun _ => ?_, fun _ h => h, fun _ h => (by cases h)⟩
      rw [hpc]
      exact Nat.add_lt_add_left (by decide : Pc.test.left < Pc.critical.left) _
  | returned =>
      simp only [hpc] at hs
      cases hs

theorem late_tick (hb : σ.before = false) :
    ({ σ with time := σ.time + 1 } : State).before = false := by
  have hle : ¬ σ.time < σ.info.end_time := of_decide_eq_false hb
  exact decide_eq_false fun hlt : σ.time + 1 < σ.info.end_time => hle (by omega)

namespace Timely

theorem goes (h : Timely σ) (hg : Goes σ σ') : Timely σ' where
  balanced hb := by
    have hlate : σ.before = false := hg.before ▸ hb
    rw [Balanced, (hg.rounds hlate).1, (hg.rounds hlate).2]
    exact h.balanced hlate
  one hpc := by
    rw [hg.before]
    cases hb : σ.before with
    | true => exact hb ▸ h.one (hg.one hb hpc)
    | false => rfl
  two hpc := by
    rw [hg.before]
    cases hb : σ.before with
    | true => exact hb ▸ h.two (hg.two hb hpc)
    | false => rfl

theorem tick (h : Timely σ) (ha : InTurn σ .tick) : Timely { σ with time := σ.time + 1 } := by
  refine ⟨fun hb => ?_, fun hpc => late_tick (h.one hpc), fun hpc => late_tick (h.two hpc)⟩
  cases hbefore : σ.before with
  | true => exact ha hbefore (Nat.not_lt.mp (of_decide_eq_false hb))
  | false => exact h.balanced hbefore

theorem step {a : Action} (h : Timely σ) (ha : InTurn σ a)
    (hs : SemaphoreTurns.step σ a = some σ') : Timely σ' := by
  cases a with
  | tick =>
      cases hs
      exact h.tick ha
  | one => exact h.goes (goes_one hs)
  | two => exact h.goes (goes_two hs)

end Timely

/-- Whoever is stuck has begun one round more than the other one could still serve. -/
theorem Inv.stuck_iff (h : Inv σ) : Stuck σ ↔
    (σ.pt_1 = .returned ∧ σ.rounds1 + 1 < σ.rounds2) ∨
      (σ.pt_2 = .returned ∧ σ.rounds2 < σ.rounds1) := by
  have hcons := h.conserved
  have hcount := h.count
  have hr1 := h.rounds1
  have hr2 := h.rounds2
  constructor
  · rintro (⟨h₁, h₂, hs⟩ | ⟨h₂, h₁, hs⟩)
    · left
      rw [h₁, h₂, hs, holding_returned, holding_wait] at hcons
      rw [h₂, holding_wait] at hcount
      rw [h₁, waiting_returned] at hr1
      rw [h₂, waiting_wait] at hr2
      exact ⟨h₁, by omega⟩
    · right
      rw [h₁, h₂, hs, holding_returned, holding_wait] at hcons
      rw [h₂, hs, holding_returned] at hcount
      rw [h₁, waiting_wait] at hr1
      rw [h₂, waiting_returned] at hr2
      exact ⟨h₂, by omega⟩
  · rintro (⟨h₁, hlt⟩ | ⟨h₂, hlt⟩)
    · left
      rw [h₁, waiting_returned] at hr1
      rw [h₁, holding_returned] at hcons
      have h₂ : σ.pt_2 = .wait := waiting_pos (by omega)
      rw [h₂, holding_wait] at hcons hcount
      rw [h₂, waiting_wait] at hr2
      exact ⟨h₁, h₂, by omega⟩
    · right
      rw [h₂, waiting_returned] at hr2
      rw [h₂, holding_returned] at hcons hcount
      have h₁ : σ.pt_1 = .wait := waiting_pos (by omega)
      rw [h₁, holding_wait] at hcons
      rw [h₁, waiting_wait] at hr1
      exact ⟨h₂, h₁, by omega⟩

/-- Nobody waits for a turn that the other one has kept, so one of the two can go on. -/
theorem Inv.progress (h : Inv σ) (hstuck : ¬ Stuck σ) :
    Joined σ ∨ (∃ σ', σ.pthread_func_1 = some σ') ∨ ∃ σ', σ.pthread_func_2 = some σ' := by
  have hcons := h.conserved
  have hone : σ.pt_1 ≠ .returned → (σ.pt_1 = .wait → 0 < σ.info.s2) →
      ∃ σ', σ.pthread_func_1 = some σ' := by
    intro hne hwait
    unfold State.pthread_func_1
    cases hpc : σ.pt_1 with
    | test => dsimp only; split <;> exact ⟨_, rfl⟩
    | wait => dsimp only; rw [if_pos (hwait hpc)]; exact ⟨_, rfl⟩
    | critical => exact ⟨_, rfl⟩
    | returned => exact absurd hpc hne
  have htwo : σ.pt_2 ≠ .returned → (σ.pt_2 = .wait → 0 < σ.info.s1) →
      ∃ σ', σ.pthread_func_2 = some σ' := by
    intro hne hwait
    unfold State.pthread_func_2
    cases hpc : σ.pt_2 with
    | test => dsimp only; split <;> exact ⟨_, rfl⟩
    | wait => dsimp only; rw [if_pos (hwait hpc)]; exact ⟨_, rfl⟩
    | critical => exact ⟨_, rfl⟩
    | returned => exact absurd hpc hne
  by_cases h₁ : σ.pt_1 = .returned
  · by_cases h₂ : σ.pt_2 = .returned
    · exact .inl ⟨h₁, h₂⟩
    · refine .inr (.inr (htwo h₂ fun hwait => Nat.pos_of_ne_zero fun hs => ?_))
      exact hstuck (.inl ⟨h₁, hwait, hs⟩)
  · by_cases hs : σ.info.s2 = 0
    · by_cases hwait₁ : σ.pt_1 = .wait
      · have h₂ : σ.pt_2 ≠ .returned := fun h₂ => hstuck (.inr ⟨h₂, hwait₁, hs⟩)
        refine .inr (.inr (htwo h₂ fun hwait₂ => ?_))
        rw [hwait₁, hwait₂, hs, holding_wait] at hcons
        omega
      · exact .inr (.inl (hone h₁ fun hwait => absurd hwait hwait₁))
    · exact .inr (.inl (hone h₁ fun _ => Nat.pos_of_ne_zero hs))

/-! ## Both threads return -/

theorem not_stuck (h : Inv σ) (ht : Timely σ) : ¬ Stuck σ := by
  rw [h.stuck_iff]
  rintro (⟨h₁, hlt⟩ | ⟨h₂, hlt⟩)
  · exact Nat.not_lt.mpr (ht.balanced (ht.one h₁)).2 hlt
  · exact Nat.not_lt.mpr (ht.balanced (ht.two h₂)).1 hlt

/-- The time has passed: every step of a thread brings it nearer to its end, and one of the
two can take a step. -/
theorem joins_late {n : Nat} : ∀ {σ : State}, σ.pt_1.left + σ.pt_2.left ≤ n → Inv σ →
    Timely σ → σ.before = false → ∃ σ', Via step InTurn σ σ' ∧ Joined σ' := by
  induction n with
  | zero =>
      intro σ hn hinv ht hb
      rcases hinv.progress (not_stuck hinv ht) with hjoined | ⟨τ, hs⟩ | ⟨τ, hs⟩
      · exact ⟨σ, .refl, hjoined⟩
      · exact absurd ((goes_one hs).left hb) (by omega)
      · exact absurd ((goes_two hs).left hb) (by omega)
  | succ n ih =>
      intro σ hn hinv ht hb
      rcases hinv.progress (not_stuck hinv ht) with hjoined | ⟨τ, hs⟩ | ⟨τ, hs⟩
      · exact ⟨σ, .refl, hjoined⟩
      · have hg := goes_one hs
        have hlt := hg.left hb
        obtain ⟨σ', hσ', hjoined⟩ := ih (by omega) (hinv.pthread_func_1 hs) (ht.goes hg)
          (hg.before.trans hb)
        have hτ : Via step InTurn σ τ := .tail .one .refl trivial hs
        exact ⟨σ', hτ.trans hσ', hjoined⟩
      · have hg := goes_two hs
        have hlt := hg.left hb
        obtain ⟨σ', hσ', hjoined⟩ := ih (by omega) (hinv.pthread_func_2 hs) (ht.goes hg)
          (hg.before.trans hb)
        have hτ : Via step InTurn σ τ := .tail .two .refl trivial hs
        exact ⟨σ', hτ.trans hσ', hjoined⟩

/-- While there is time, `pthread_func_1` comes to its next wait. -/
theorem waits_one (hb : σ.before = true) (hpc : σ.pt_1 ≠ .returned) :
    ∃ σ', Via step InTurn σ σ' ∧ σ'.pt_1 = .wait ∧ σ'.pt_2 = σ.pt_2 ∧ σ'.before = true := by
  have htest : ∀ {τ : State}, τ.before = true → τ.pt_1 = .test →
      Via step InTurn τ { τ with pt_1 := .wait, rounds1 := τ.rounds1 + 1 } := by
    intro τ hb hpc
    refine .tail .one .refl trivial ?_
    simp only [SemaphoreTurns.step, State.pthread_func_1, hpc, hb, if_true]
  cases hpc' : σ.pt_1 with
  | test => exact ⟨_, htest hb hpc', rfl, rfl, hb⟩
  | wait => exact ⟨σ, .refl, hpc', rfl, hb⟩
  | critical =>
      have hpost : Via step InTurn σ
          { σ with info := { σ.info with s1 := σ.info.s1 + 1 }, pt_1 := .test } := by
        refine .tail .one .refl trivial ?_
        simp only [SemaphoreTurns.step, State.pthread_func_1, hpc']
      exact ⟨_, hpost.trans (htest hb rfl), rfl, rfl, hb⟩
  | returned => exact absurd hpc' hpc

theorem waits_two (hb : σ.before = true) (hpc : σ.pt_2 ≠ .returned) :
    ∃ σ', Via step InTurn σ σ' ∧ σ'.pt_2 = .wait ∧ σ'.pt_1 = σ.pt_1 ∧ σ'.before = true := by
  have htest : ∀ {τ : State}, τ.before = true → τ.pt_2 = .test →
      Via step InTurn τ { τ with pt_2 := .wait, rounds2 := τ.rounds2 + 1 } := by
    intro τ hb hpc
    refine .tail .two .refl trivial ?_
    simp only [SemaphoreTurns.step, State.pthread_func_2, hpc, hb, if_true]
  cases hpc' : σ.pt_2 with
  | test => exact ⟨_, htest hb hpc', rfl, rfl, hb⟩
  | wait => exact ⟨σ, .refl, hpc', rfl, hb⟩
  | critical =>
      have hpost : Via step InTurn σ
          { σ with info := { σ.info with s2 := σ.info.s2 + 1 }, pt_2 := .test } := by
        refine .tail .two .refl trivial ?_
        simp only [SemaphoreTurns.step, State.pthread_func_2, hpc']
      exact ⟨_, hpost.trans (htest hb rfl), rfl, rfl, hb⟩
  | returned => exact absurd hpc' hpc

/-- Two threads that both wait have begun as many rounds, up to the turn of
`pthread_func_1`. -/
theorem Inv.balanced_of_wait (h : Inv σ) (h₁ : σ.pt_1 = .wait) (h₂ : σ.pt_2 = .wait) :
    Balanced σ := by
  have hcons := h.conserved
  have hcount := h.count
  have hr1 := h.rounds1
  have hr2 := h.rounds2
  rw [h₁, h₂, holding_wait] at hcons
  rw [h₂, holding_wait] at hcount
  rw [h₁, waiting_wait] at hr1
  rw [h₂, waiting_wait] at hr2
  exact ⟨by omega, by omega⟩

theorem Inv.balanced_of_joined (h : Inv σ) (hjoined : Joined σ) : Balanced σ := by
  have hcons := h.conserved
  have hcount := h.count
  have hr1 := h.rounds1
  have hr2 := h.rounds2
  rw [hjoined.1, hjoined.2, holding_returned] at hcons
  rw [hjoined.2, holding_returned] at hcount
  rw [hjoined.1, waiting_returned] at hr1
  rw [hjoined.2, waiting_returned] at hr2
  exact ⟨by omega, by omega⟩

theorem runs_out {n : Nat} : ∀ {σ : State}, σ.info.end_time - σ.time ≤ n → Balanced σ →
    ∃ σ', Via step InTurn σ σ' ∧ σ'.before = false := by
  induction n with
  | zero =>
      intro σ hn _
      exact ⟨σ, .refl, decide_eq_false (by omega)⟩
  | succ n ih =>
      intro σ hn hbalanced
      obtain ⟨σ', hσ', hb⟩ := ih (σ := { σ with time := σ.time + 1 })
        (by change σ.info.end_time - (σ.time + 1) ≤ n; omega) hbalanced
      have htick : Via step InTurn σ { σ with time := σ.time + 1 } :=
        .tail .tick .refl (fun _ _ => hbalanced) rfl
      exact ⟨σ', htick.trans hσ', hb⟩

theorem Via.kept (h : Via step InTurn σ σ') (hσ : Inv σ ∧ Timely σ) : Inv σ' ∧ Timely σ' :=
  h.invariant (P := fun σ => Inv σ ∧ Timely σ) hσ
    fun _ _ _ hτ ha hs => ⟨hτ.1.step hs, hτ.2.step ha hs⟩

theorem joins (h : Inv σ ∧ Timely σ) : ∃ σ', Via step InTurn σ σ' ∧ Joined σ' := by
  cases hb : σ.before with
  | false => exact joins_late (Nat.le_refl _) h.1 h.2 hb
  | true =>
      -- both go to their next wait, and stay there until the time has passed
      have hne₁ : σ.pt_1 ≠ .returned := fun hpc => by rw [h.2.one hpc] at hb; cases hb
      have hne₂ : σ.pt_2 ≠ .returned := fun hpc => by rw [h.2.two hpc] at hb; cases hb
      obtain ⟨σ₁, hσ₁, hpc₁, heq₁, hb₁⟩ := waits_one hb hne₁
      obtain ⟨σ₂, hσ₂, hpc₂, heq₂, -⟩ := waits_two hb₁ (heq₁ ▸ hne₂)
      have hinv₂ := Via.kept (hσ₁.trans hσ₂) h
      obtain ⟨σ₃, hσ₃, hb₃⟩ := runs_out (Nat.le_refl _)
        (hinv₂.1.balanced_of_wait (heq₂.trans hpc₁) hpc₂)
      have hinv₃ := Via.kept hσ₃ hinv₂
      obtain ⟨σ', hσ', hjoined⟩ := joins_late (Nat.le_refl _) hinv₃.1 hinv₃.2 hb₃
      exact ⟨σ', ((hσ₁.trans hσ₂).trans hσ₃).trans hσ', hjoined⟩

end

/-- Once the time has passed no round begins any more, so it is decided whether both threads
can return. -/
theorem joins_iff {time : Nat} {σ : State} (h : Via step (fun _ _ => True) (start time) σ)
    (hb : σ.before = false) :
    (∃ σ', Via step (fun _ _ => True) σ σ' ∧ Joined σ') ↔ Balanced σ := by
  have hkept : ∀ {σ σ' : State}, Via step (fun _ _ => True) σ σ' → Inv σ → Inv σ' :=
    fun hσ' hσ => hσ'.invariant hσ fun _ _ _ hτ _ hs => hτ.step hs
  have hinv := hkept h (inv_start time)
  constructor
  · rintro ⟨σ', hσ', hjoined⟩
    have hfrozen : σ'.before = false ∧ σ'.rounds1 = σ.rounds1 ∧ σ'.rounds2 = σ.rounds2 := by
      refine hσ'.invariant (P := fun τ => τ.before = false ∧ τ.rounds1 = σ.rounds1 ∧
        τ.rounds2 = σ.rounds2) ⟨hb, rfl, rfl⟩ ?_
      rintro τ a τ' ⟨hτ, h₁, h₂⟩ - hs
      have hgoes : Goes τ τ' → τ'.before = false ∧ τ'.rounds1 = σ.rounds1 ∧
          τ'.rounds2 = σ.rounds2 := fun hg =>
        ⟨hg.before.trans hτ, (hg.rounds hτ).1.trans h₁, (hg.rounds hτ).2.trans h₂⟩
      cases a with
      | tick =>
          cases hs
          exact ⟨late_tick hτ, h₁, h₂⟩
      | one => exact hgoes (goes_one hs)
      | two => exact hgoes (goes_two hs)
    have hbalanced := (hkept hσ' hinv).balanced_of_joined hjoined
    rw [Balanced, hfrozen.2.1, hfrozen.2.2] at hbalanced
    exact hbalanced
  · intro hbalanced
    obtain ⟨σ', hσ', hjoined⟩ := joins_late (Nat.le_refl _) hinv
      ⟨fun _ => hbalanced, fun _ => hb, fun _ => hb⟩ hb
    exact ⟨σ', hσ'.mono fun _ _ _ => trivial, hjoined⟩

/-- In a run in which `end_time` passes while neither thread is ahead, the threads take turns,
nobody is stuck, and both can return. -/
theorem orderly_of_inTurn {time : Nat} {σ : State} (h : Via step InTurn (start time) σ) :
    Orderly σ := by
  have hσ := Via.kept h ⟨inv_start time, timely_start time⟩
  exact ⟨hσ.1.alternates, hσ.1.conserved, not_stuck hσ.1 hσ.2, joins hσ⟩

/-- Two rounds each, and then both see that the time has passed. -/
theorem orderly_two : ∃ σ, Via step InTurn (start 0) σ ∧
    σ.turns = [.one, .two, .one, .two] ∧ σ.pt_1 = .returned ∧ σ.pt_2 = .returned ∧
    Orderly σ := by
  have hrun : ∃ σ, Via step InTurn (start 0) σ ∧ σ.turns = [.one, .two, .one, .two] ∧
      σ.pt_1 = .returned ∧ σ.pt_2 = .returned :=
    exists_via_of_execIf (List.flatten [
      List.replicate 3 .two, List.replicate 3 .one, List.replicate 3 .two, List.replicate 3 .one,
      List.replicate 10 .tick, [.two, .one]]) (by decide +kernel)
  obtain ⟨σ, hσ, hturns, h₁, h₂⟩ := hrun
  exact ⟨σ, hσ, hturns, h₁, h₂, orderly_of_inTurn hσ⟩

/-- `pthread_func_1` looks at the clock in time, and `pthread_func_2` is not scheduled before
the time has passed. -/
theorem not_orderly : ¬ ∀ time σ, Via step (fun _ _ => True) (start time) σ → Orderly σ := by
  intro h
  have hrun : ∃ σ, Via step (fun _ _ => True) (start 0) σ ∧ σ.pt_2 = .returned ∧
      σ.pt_1 = .wait ∧ σ.info.s2 = 0 :=
    exists_via_of_execIf (List.flatten [[.one], List.replicate 10 .tick, [.two]])
      (by decide +kernel)
  obtain ⟨σ, hσ, hstuck⟩ := hrun
  exact (h 0 σ hσ).notStuck (.inr hstuck)

end CppWorkspace.SemaphoreTurns
