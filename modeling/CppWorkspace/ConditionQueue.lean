/-
# `CppWorkspace.ConditionQueue` — a list of nodes behind a condition variable

The producer puts nodes at the front of a list and signals; consumers run

    pthread_mutex_lock
    while (head == NULL) { pthread_cond_wait; take the first node }
    pthread_mutex_unlock

The node is taken inside the loop, after the wait and before the next test.  So a consumer
that finds a node when it locks the mutex leaves it where it is, and one that is woken
without a node, or after another one has taken it, reads through a NULL head.

All depends on who comes to the mutex when.  If every signal finds a consumer that waits, no
consumer is woken without a signal, and none comes to the mutex while another one has been
woken and has not got it yet, then there are as many nodes in the list as consumers that have
been woken, and every node is taken out once (`sound_of_calm`).

Conventions: from locking the mutex to the next wait or to unlocking it is one step of a
consumer, and so is the producer's part; a signal wakes a consumer that waits, if there is
one, and a consumer may be woken at any time; a node is the number under which it was
produced; the cancellation at the end of `main` is left out.
-/
import CppWorkspace.Lib.Runs
import CppWorkspace.Lib.Weights

namespace CppWorkspace.ConditionQueue

open Runs Weights

/-! ## The threads -/

/-- Where a consumer is: before `pthread_mutex_lock`, in `pthread_cond_wait`, and woken, but
not yet again the owner of the mutex. -/
inductive Pc where
  | lock
  | waiting
  | woken
deriving DecidableEq, Repr

/-- `freed`, `crashed` and `passed` are not in the source: the nodes that were freed, whether
the NULL head was read through, and whether a consumer has locked the mutex with a node in
the list and unlocked it without taking one. -/
structure State where
  head : List Nat
  consumers : List Pc
  produced : Nat
  freed : List Nat
  crashed : Bool
  passed : Bool
deriving DecidableEq, Repr

def start (n : Nat) : State where
  head := []
  consumers := List.replicate n .lock
  produced := 0
  freed := []
  crashed := false
  passed := false

namespace State

def move (σ : State) (k : Nat) (p : Pc) : State :=
  { σ with consumers := σ.consumers.set k p }

/-- The producer's mutex section; `signal` is the consumer that is woken. -/
def main (σ : State) (signal : Option Nat) : Option State :=
  let σ' : State := { σ with head := σ.produced :: σ.head, produced := σ.produced + 1 }
  match signal with
  | some k => if σ.consumers[k]? = some .waiting then some (σ'.move k .woken) else none
  | none => if .waiting ∈ σ.consumers then none else some σ'

/-- The test of the inner loop, which the consumer leaves with a node in the list. -/
def test (σ : State) (k : Nat) : State :=
  if σ.head = [] then σ.move k .waiting else σ.move k .lock

/-- A mutex section of consumer `k`. -/
def thread_func (σ : State) (k : Nat) : Option State :=
  match σ.consumers[k]? with
  | some .lock => some (if σ.head = [] then σ.test k else { σ.test k with passed := true })
  | some .woken =>
      match σ.head with
      | [] => some { σ with crashed := true }
      | p :: n_next => some ({ σ with head := n_next, freed := p :: σ.freed }.test k)
  | _ => none

/-- `pthread_cond_wait` of consumer `k` returns without a signal. -/
def wake (σ : State) (k : Nat) : Option State :=
  if σ.consumers[k]? = some .waiting then some (σ.move k .woken) else none

end State

/-- A step of the producer or of a consumer, or a consumer that is woken without a signal. -/
inductive Action where
  | produce (signal : Option Nat)
  | consume (k : Nat)
  | wake (k : Nat)
deriving DecidableEq, Repr

/-- A read through NULL is the end. -/
def step (σ : State) (a : Action) : Option State :=
  if σ.crashed then none
  else
    match a with
    | .produce signal => σ.main signal
    | .consume k => σ.thread_func k
    | .wake k => σ.wake k

/-! ## What is asked for -/

/-- Every signal finds a consumer that waits, nobody is woken without one, and who comes to the
mutex lets those go first that have been woken. -/
def Calm (σ : State) : Action → Prop
  | .produce signal => signal ≠ none
  | .consume k => σ.consumers[k]? = some .lock → .woken ∉ σ.consumers
  | .wake _ => False

instance (σ : State) : (a : Action) → Decidable (Calm σ a)
  | .produce _ => inferInstanceAs (Decidable (_ ≠ _))
  | .consume _ => inferInstanceAs (Decidable (_ → _))
  | .wake _ => inferInstanceAs (Decidable False)

/-- Each node is taken once, and no consumer takes from an empty list or passes a node by. -/
structure Sound (σ : State) : Prop where
  noNull : σ.crashed = false
  takes : σ.passed = false
  /-- A node that was produced is in the list, or was taken out and freed, and only once. -/
  once : (σ.head ++ σ.freed).Perm (List.range σ.produced)
  /-- When all consumers wait, all nodes are freed. -/
  all : (∀ p ∈ σ.consumers, p = .waiting) → σ.head = []
  /-- The run can go on until all nodes are freed. -/
  drains : ∃ σ', Via step Calm σ σ' ∧ σ'.head = [] ∧ σ'.produced = σ.produced

/-! ## The invariant -/

/-- How many consumers are at `p`. -/
def State.at_ (σ : State) (p : Pc) : Nat := weight (fun q => if q = p then 1 else 0) σ.consumers

/-- Every node has a consumer that was woken for it. -/
structure Inv (σ : State) : Prop where
  noNull : σ.crashed = false
  takes : σ.passed = false
  once : (σ.head ++ σ.freed).Perm (List.range σ.produced)
  served : σ.head.length = σ.at_ .woken

section
variable {σ σ' : State} {k : Nat} {p q : Pc}

theorem at_move (h : σ.consumers[k]? = some p) (q r : Pc) :
    (σ.move k q).at_ r + (if p = r then 1 else 0) = σ.at_ r + (if q = r then 1 else 0) :=
  weight_set _ q h

theorem at_pos (h : σ.consumers[k]? = some p) : 0 < σ.at_ p := by
  have hle := weight_pos (f := fun q => if q = p then 1 else 0) (List.mem_of_getElem? h)
  rw [if_pos rfl] at hle
  exact hle

theorem Inv.head_eq_nil (h : Inv σ) (hwoken : .woken ∉ σ.consumers) : σ.head = [] := by
  have hzero : σ.at_ .woken = 0 := weight_eq_zero.mpr fun p hp =>
    if_neg fun heq : p = .woken => hwoken (heq ▸ hp)
  exact List.length_eq_zero_iff.mp (h.served.trans hzero)

namespace Inv

theorem main {k : Nat} (h : Inv σ) (hs : σ.main (some k) = some σ') : Inv σ' := by
  obtain ⟨hk, hs⟩ := Option.ite_none_right_eq_some.mp hs
  cases hs
  refine ⟨h.noNull, h.takes, ?_, ?_⟩
  · change (σ.produced :: σ.head ++ σ.freed).Perm (List.range (σ.produced + 1))
    rw [List.range_succ]
    exact (h.once.cons σ.produced).trans (List.perm_append_singleton ..).symm
  · have hmove := at_move hk .woken .woken
    rw [if_neg (by decide), if_pos rfl] at hmove
    exact (congrArg (· + 1) h.served).trans hmove.symm

theorem thread_func (h : Inv σ) (ha : Calm σ (.consume k)) (hs : σ.thread_func k = some σ') :
    Inv σ' := by
  unfold State.thread_func at hs
  split at hs
  · -- the consumer finds no node, and waits
    rename_i hk
    have hnil := h.head_eq_nil (ha hk)
    rw [if_pos hnil] at hs
    cases hs
    rw [State.test, if_pos hnil]
    refine ⟨h.noNull, h.takes, h.once, ?_⟩
    have hmove := at_move hk .waiting .woken
    rw [if_neg (by decide), if_neg (by decide)] at hmove
    exact h.served.trans hmove.symm
  · -- the consumer takes the first node, and there is one
    rename_i hk
    have hpos := at_pos hk
    have hserved := h.served
    split at hs
    · rename_i hnil
      rw [hnil, List.length_nil] at hserved
      omega
    · rename_i p rest hhead
      cases hs
      rw [hhead, List.length_cons] at hserved
      have honce : (rest ++ p :: σ.freed).Perm (List.range σ.produced) := by
        have honce := h.once
        rw [hhead] at honce
        exact List.perm_middle.trans honce
      have hmove : ∀ q, q ≠ .woken →
          ({ σ with head := rest, freed := p :: σ.freed }.move k q).at_ .woken = rest.length := by
        intro q hq
        have hmove := at_move (σ := { σ with head := rest, freed := p :: σ.freed }) hk q .woken
        rw [if_pos rfl, if_neg hq] at hmove
        change _ = σ.at_ .woken + 0 at hmove
        omega
      unfold State.test
      split
      · exact ⟨h.noNull, h.takes, honce, (hmove .waiting (by decide)).symm⟩
      · exact ⟨h.noNull, h.takes, honce, (hmove .lock (by decide)).symm⟩
  · cases hs

theorem step {a : Action} (h : Inv σ) (ha : Calm σ a)
    (hs : ConditionQueue.step σ a = some σ') : Inv σ' := by
  obtain ⟨-, hs⟩ := Option.ite_none_left_eq_some.mp hs
  cases a with
  | produce signal =>
      cases signal with
      | none => exact absurd rfl ha
      | some k => exact h.main hs
  | consume k => exact h.thread_func ha hs
  | wake k => exact ha.elim

/-- A node in the list has a consumer that was woken for it and can take it. -/
theorem take (h : Inv σ) {p : Nat} {n_next : List Nat} (hhead : σ.head = p :: n_next) :
    ∃ k σ', Calm σ (.consume k) ∧ ConditionQueue.step σ (.consume k) = some σ' ∧
      σ'.head = n_next ∧ σ'.produced = σ.produced := by
  have hserved := h.served
  rw [hhead, List.length_cons] at hserved
  obtain ⟨q, hq, hpos⟩ := exists_of_weight_pos (hserved ▸ Nat.succ_pos _ : 0 < σ.at_ .woken)
  obtain ⟨k, hk⟩ := List.mem_iff_getElem?.mp hq
  have hwoken : q = .woken := by
    by_contra hne
    rw [if_neg hne] at hpos
    exact Nat.lt_irrefl 0 hpos
  rw [hwoken] at hk
  refine ⟨k, ({ σ with head := n_next, freed := p :: σ.freed } : State).test k, fun hlock => ?_,
    ?_, ?_, ?_⟩
  · rw [hk] at hlock
    cases hlock
  · simp only [ConditionQueue.step, h.noNull, State.thread_func, hk, hhead, Bool.false_eq_true,
      if_false]
  · rw [State.test]
    split <;> rfl
  · rw [State.test]
    split <;> rfl

theorem drains {l : List Nat} (h : Inv σ) (hl : σ.head = l) :
    ∃ σ', Via ConditionQueue.step Calm σ σ' ∧ σ'.head = [] ∧ σ'.produced = σ.produced := by
  induction l generalizing σ with
  | nil => exact ⟨σ, .refl, hl, rfl⟩
  | cons p n_next ih =>
      obtain ⟨k, τ, ha, hs, hhead, hproduced⟩ := h.take hl
      obtain ⟨σ', hrun, hnil, hsame⟩ := ih (h.step ha hs) hhead
      have hτ : Via ConditionQueue.step Calm σ τ := .tail _ .refl ha hs
      exact ⟨σ', hτ.trans hrun, hnil, hsame.trans hproduced⟩

theorem sound (h : Inv σ) : Sound σ where
  noNull := h.noNull
  takes := h.takes
  once := h.once
  all hall := h.head_eq_nil fun hwoken => by cases hall _ hwoken
  drains := h.drains rfl

end Inv

end

theorem inv_start (n : Nat) : Inv (start n) where
  noNull := rfl
  takes := rfl
  once := .refl []
  served := by
    refine (weight_eq_zero.mpr fun p hp => ?_).symm
    rw [List.eq_of_mem_replicate hp]
    rfl

/-- In a run in which every wake-up is for a node, and those that are woken come first, no
NULL is read through, and every node is taken out once. -/
theorem sound_of_calm {n : Nat} {σ : State} (h : Via step Calm (start n) σ) : Sound σ :=
  (h.invariant (inv_start n) fun _ _ _ hσ ha hs => hσ.step ha hs).sound

/-- Two consumers and three nodes. -/
theorem sound_three : ∃ σ, Via step Calm (start 2) σ ∧ σ.produced = 3 ∧ σ.freed = [2, 0, 1] ∧
    Sound σ := by
  have hrun : ∃ σ, Via step Calm (start 2) σ ∧ σ.produced = 3 ∧ σ.freed = [2, 0, 1] :=
    exists_via_of_execIf [.consume 0, .consume 1, .produce (some 0), .produce (some 1),
      .consume 0, .consume 1, .consume 0, .produce (some 1), .consume 1] (by decide +kernel)
  obtain ⟨σ, hσ, hproduced, hfreed⟩ := hrun
  exact ⟨σ, hσ, hproduced, hfreed, sound_of_calm hσ⟩

/-- A spurious wake-up while the list is empty. -/
theorem not_sound : ¬ ∀ n σ, 0 < n → Via step (fun _ _ => True) (start n) σ → Sound σ := by
  intro h
  have hrun : ∃ σ, Via step (fun _ _ => True) (start 1) σ ∧ σ.crashed = true :=
    exists_via_of_execIf [.consume 0, .wake 0, .consume 0] (by decide +kernel)
  obtain ⟨σ, hσ, hcrashed⟩ := hrun
  rw [(h 1 σ (by decide) hσ).noNull] at hcrashed
  cases hcrashed

end CppWorkspace.ConditionQueue
