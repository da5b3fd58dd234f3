/-
# `CppWorkspace.TcpServer.PoolDestroy` — which contexts `DestroyContextPool` deletes

The loop of `DestroyContextPool` takes its count from the stack of the idle
contexts and its elements from the stack of all contexts:

    int size = m_pTcpReceiveContextStack->Size();
    for (i = 0; i < size; i++)  delete m_pTcpReceiveContextManageStack->Pop();

With `k` idle contexts it deletes the `k` that were created last.  If no context
is handed out, these are all of them.  Else the idle ones have to be the ones that
were created last (`destroy_exact_iff`); but `GetContext` hands those out first, so
one context out of two is enough to go wrong.

A history may give a context back more often than it was handed out: it then
stands in the stack twice.
-/
import Mathlib.Algebra.Order.Group.Nat
import CppWorkspace.TcpServer.PoolLife

namespace CppWorkspace.TcpServer.PoolDestroy

open Runs

/-! ## Histories -/

/-- The pool of one class, and the contexts that are handed out, each as often as
it was handed out and not given back. -/
structure History where
  pool : Statics
  out : List Nat

/-- The calls on a pool. -/
inductive Use
  | GetContext
  | ReleaseContext (c : Nat)
deriving DecidableEq

namespace History

/-- After `InitContextPool(poolSize)`. -/
def start (poolSize : Nat) : History := ⟨Statics.zero.InitContextPool poolSize, []⟩

def step (C : ContextClass) (σ : History) : Use → Option History
  | .GetContext => σ.pool.GetContext.map fun r => ⟨r.2, r.1.toList ++ σ.out⟩
  | .ReleaseContext c =>
      if c < σ.pool.created then
        (σ.pool.ReleaseContext C c).map fun p => ⟨p, σ.out.erase c⟩
      else none

def idle (σ : History) : List Nat := σ.pool.contextStack.getD []

def all (σ : History) : List Nat := σ.pool.manageStack.getD []

/-- No stack is full when something is pushed. -/
def Fits (σ : History) : Use → Prop
  | .GetContext => σ.idle = [] → σ.all.length < MAX_STACK_CAPACITY
  | .ReleaseContext _ => σ.idle.length < MAX_STACK_CAPACITY

instance (σ : History) : ∀ u, Decidable (σ.Fits u)
  | .GetContext => inferInstanceAs (Decidable (_ → _))
  | .ReleaseContext _ => inferInstanceAs (Decidable (_ < _))

/-- `DestroyContextPool` deletes every context once if none is handed out, and none
that is handed out. -/
def DestroysExactly (C : ContextClass) (σ : History) : Prop :=
  ∃ q, σ.pool.DestroyContextPool C = some q
    ∧ (σ.out = [] → ∀ c < σ.pool.created, q.deleted.count c = 1)
    ∧ ∀ c ∈ q.deleted, c ∉ σ.out

/-- No context is handed out; or none stands in the stack twice, and the ones that are
handed out were created before the idle ones. -/
def OldestOut (σ : History) : Prop :=
  σ.out = [] ∨ σ.idle.Nodup ∧ ∀ c ∈ σ.out, ∀ d ∈ σ.idle, c < d

/-! ## The two stacks -/

/-- All contexts are in the one stack, in the order of their creation, and each is
in the other or handed out. -/
structure Inv (σ : History) (idle : List Nat) : Prop where
  initialized : σ.pool.m_bInitialized = true
  criSec : σ.pool.m_struCriSec = true
  contextStack : σ.pool.contextStack = some idle
  manageStack : σ.pool.manageStack = some (List.range σ.pool.created).reverse
  deleted : σ.pool.deleted = []
  idle_lt : ∀ c ∈ idle, c < σ.pool.created
  out_lt : ∀ c ∈ σ.out, c < σ.pool.created
  somewhere : ∀ c < σ.pool.created, c ∈ idle ∨ c ∈ σ.out

theorem foldl_push {l stack : List Nat} (h : stack.length + l.length ≤ MAX_STACK_CAPACITY) :
    l.foldl Statics.push stack = l.reverse ++ stack := by
  induction l generalizing stack with
  | nil => rfl
  | cons c l ih =>
      simp only [List.length_cons] at h
      rw [List.foldl_cons, Statics.push, if_pos (by omega),
        ih (by simp only [List.length_cons]; omega)]
      simp

theorem start_inv {poolSize : Nat} (h : poolSize ≤ MAX_STACK_CAPACITY) :
    (start poolSize).Inv (List.range poolSize).reverse := by
  have hstack : (List.range' 0 poolSize).foldl Statics.push [] = (List.range poolSize).reverse := by
    rw [foldl_push (by simpa using h), List.append_nil, List.range_eq_range']
  have hpool : Statics.zero.InitContextPool poolSize
      = { Statics.zero with
          m_bInitialized := true
          contextStack := some (List.range poolSize).reverse
          manageStack := some (List.range poolSize).reverse
          m_struCriSec := true
          created := 0 + poolSize } := by
    rw [← hstack]
    rfl
  unfold start
  rw [hpool, Nat.zero_add]
  refine ⟨rfl, rfl, rfl, rfl, rfl, ?_, ?_, ?_⟩
  · intro c hc
    simpa using hc
  · intro c hc
    cases hc
  · intro c hc
    exact .inl (by simpa using hc)

section
variable {C : ContextClass} {σ τ : History} {idle : List Nat} {c : Nat}

theorem Inv.idle_eq (h : σ.Inv idle) : σ.idle = idle := by
  rw [History.idle, h.contextStack]
  rfl

theorem Inv.all_eq (h : σ.Inv idle) : σ.all = (List.range σ.pool.created).reverse := by
  rw [all, h.manageStack]
  rfl

theorem Inv.getContext (h : σ.Inv idle) (hfits : σ.Fits .GetContext)
    (hstep : σ.step C .GetContext = some τ) : ∃ idle', τ.Inv idle' := by
  simp only [step, Statics.GetContext, h.initialized, h.criSec, h.contextStack, if_true] at hstep
  cases idle with
  | cons d idle =>
      cases hstep
      refine ⟨idle, rfl, rfl, rfl, h.manageStack, h.deleted, ?_, ?_, ?_⟩
      · intro c hc
        exact h.idle_lt c (List.mem_cons_of_mem d hc)
      · intro c hc
        rcases List.mem_cons.mp hc with rfl | hc
        · exact h.idle_lt c List.mem_cons_self
        · exact h.out_lt c hc
      · intro c hc
        rcases h.somewhere c hc with hin | hin
        · rcases List.mem_cons.mp hin with rfl | hin
          · exact .inr List.mem_cons_self
          · exact .inl hin
        · exact .inr (List.mem_cons_of_mem d hin)
  | nil =>
      have hroom : σ.pool.created < MAX_STACK_CAPACITY := by
        have hlen := hfits h.idle_eq
        rwa [h.all_eq, List.length_reverse, List.length_range] at hlen
      simp only [h.manageStack, Option.map_some] at hstep
      cases hstep
      refine ⟨[], rfl, rfl, rfl, ?_, h.deleted, ?_, ?_, ?_⟩
      · show some (Statics.push _ σ.pool.created) = some (List.range (σ.pool.created + 1)).reverse
        rw [Statics.push, if_pos (by simpa using hroom), List.range_succ]
        simp
      · intro c hc
        cases hc
      · intro c hc
        show c < σ.pool.created + 1
        rcases List.mem_cons.mp hc with rfl | hc
        · exact Nat.lt_succ_self _
        · exact Nat.lt_succ_of_lt (h.out_lt c hc)
      · intro c hc
        rcases Nat.lt_succ_iff_lt_or_eq.mp hc with hlt | rfl
        · rcases h.somewhere c hlt with hin | hin
          · cases hin
          · exact .inr (List.mem_cons_of_mem _ hin)
        · exact .inr List.mem_cons_self

theorem Inv.releaseContext (h : σ.Inv idle) (hfits : σ.Fits (.ReleaseContext c))
    (hstep : σ.step C (.ReleaseContext c) = some τ) : ∃ idle', τ.Inv idle' := by
  obtain ⟨hlt, he⟩ := Option.ite_none_right_eq_some.mp hstep
  have hroom : idle.length < MAX_STACK_CAPACITY := h.idle_eq ▸ hfits
  have hrel : σ.pool.ReleaseContext C c
      = some { σ.pool with contextStack := some (c :: idle) } := by
    rw [Statics.ReleaseContext, if_neg (by simp [h.initialized]), if_pos h.criSec,
      h.contextStack, Option.map_some, Statics.push, if_pos hroom]
  rw [hrel] at he
  cases he
  refine ⟨c :: idle, h.initialized, h.criSec, rfl, h.manageStack, h.deleted, ?_, ?_, ?_⟩
  · intro d hd
    rcases List.mem_cons.mp hd with rfl | hd
    · exact hlt
    · exact h.idle_lt d hd
  · intro d hd
    exact h.out_lt d (List.mem_of_mem_erase hd)
  · intro d hd
    by_cases hdc : d = c
    · exact .inl (hdc ▸ List.mem_cons_self)
    · rcases h.somewhere d hd with hin | hin
      · exact .inl (List.mem_cons_of_mem c hin)
      · exact .inr ((List.mem_erase_of_ne hdc).mpr hin)

theorem Inv.run {poolSize : Nat} (hsize : poolSize ≤ MAX_STACK_CAPACITY)
    (h : Via (step C) Fits (start poolSize) σ) : ∃ idle, σ.Inv idle := by
  refine h.invariant (P := fun σ => ∃ idle, σ.Inv idle) ⟨_, start_inv hsize⟩ ?_
  rintro σ u τ ⟨idle, hinv⟩ hfits hstep
  cases u with
  | GetContext => exact hinv.getContext hfits hstep
  | ReleaseContext c => exact hinv.releaseContext hfits hstep

/-! ## What is deleted -/

/-- `DestroyContextPool` deletes the `k` contexts that were created last, where `k` is the
number of the idle ones. -/
theorem Inv.destroy (h : σ.Inv idle) (C : ContextClass) : ∃ q,
    σ.pool.DestroyContextPool C = some q ∧ q.deleted.Nodup
      ∧ ∀ c, c ∈ q.deleted ↔ c < σ.pool.created ∧ σ.pool.created ≤ c + idle.length := by
  have hpopped : Statics.popped idle.length σ.pool.manageStack
      = some ((List.range σ.pool.created).reverse.take idle.length) := by
    unfold Statics.popped
    split
    · rename_i hzero
      rw [hzero, List.take_zero]
    · rw [h.manageStack, Option.map_some]
  refine ⟨{ σ.pool with
      contextStack := none, manageStack := none, m_struCriSec := false
      deleted := (List.range σ.pool.created).reverse.take idle.length ++ σ.pool.deleted },
    ?_, ?_, ?_⟩
  · rw [Statics.DestroyContextPool, if_neg (by simp [h.initialized]), h.contextStack,
      Option.bind_some, hpopped, Option.bind_some, if_pos h.criSec]
  · show ((List.range σ.pool.created).reverse.take idle.length ++ σ.pool.deleted).Nodup
    rw [h.deleted, List.append_nil]
    exact (List.nodup_reverse.mpr List.nodup_range).sublist (List.take_sublist _ _)
  · intro c
    show c ∈ (List.range σ.pool.created).reverse.take idle.length ++ σ.pool.deleted ↔ _
    rw [h.deleted, List.append_nil, List.take_reverse, List.mem_reverse, List.length_range,
      List.range_eq_range', List.drop_range', List.mem_range'_1]
    omega

theorem Inv.created_le (h : σ.Inv idle) (hout : σ.out = []) : σ.pool.created ≤ idle.length := by
  have hsub : (List.range σ.pool.created).Subperm idle := by
    refine List.nodup_range.subperm ?_
    intro c hc
    rcases h.somewhere c (List.mem_range.mp hc) with hin | hin
    · exact hin
    · rw [hout] at hin
      cases hin
  simpa using hsub.length_le

theorem Inv.destroysExactly (h : σ.Inv idle) (hok : σ.OldestOut) : σ.DestroysExactly C := by
  obtain ⟨q, hq, hnodup, hmem⟩ := h.destroy C
  refine ⟨q, hq, ?_, ?_⟩
  · intro hout c hc
    have hle := h.created_le hout
    exact List.count_eq_one_of_mem hnodup ((hmem c).mpr ⟨hc, by omega⟩)
  · intro c hc hin
    obtain ⟨hlt, hlast⟩ := (hmem c).mp hc
    rcases hok with hout | ⟨honce, hold⟩
    · rw [hout] at hin
      cases hin
    · rw [h.idle_eq] at honce hold
      -- the idle ones lie between `c` and the last one: there are too few of them
      have hsub : idle.Subperm (List.range' (c + 1) (σ.pool.created - (c + 1))) := by
        refine honce.subperm ?_
        intro d hd
        have hcd := hold c hin d hd
        have hlt := h.idle_lt d hd
        rw [List.mem_range'_1]
        omega
      have hlen := hsub.length_le
      rw [List.length_range'] at hlen
      omega

theorem Inv.oldestOut (h : σ.Inv idle) (hexact : σ.DestroysExactly C) : σ.OldestOut := by
  obtain ⟨q, hq, -, hkept⟩ := hexact
  obtain ⟨q', hq', -, hmem⟩ := h.destroy C
  rw [hq] at hq'
  cases hq'
  by_cases hout : σ.out = []
  · exact .inl hout
  · right
    rw [h.idle_eq]
    -- none of the last ones is handed out, so all of them are idle
    have hlow : ∀ c ∈ σ.out, c + idle.length < σ.pool.created := by
      intro c hc
      by_contra hge
      exact hkept c ((hmem c).mpr ⟨h.out_lt c hc, by omega⟩) hc
    obtain ⟨c₀, hc₀⟩ := List.exists_mem_of_ne_nil _ hout
    have hroom := hlow c₀ hc₀
    have hnodup : (List.range' (σ.pool.created - idle.length) idle.length).Nodup :=
      List.nodup_range'
    have hsub : (List.range' (σ.pool.created - idle.length) idle.length).Subperm idle := by
      refine hnodup.subperm ?_
      intro d hd
      rw [List.mem_range'_1] at hd
      rcases h.somewhere d (by omega) with hin | hin
      · exact hin
      · have hlt := hlow d hin
        omega
    have hperm := hsub.perm_of_length_le (by rw [List.length_range'])
    refine ⟨hperm.nodup_iff.mp hnodup, ?_⟩
    intro c hc d hd
    have hd' := hperm.mem_iff.mpr hd
    rw [List.mem_range'_1] at hd'
    have hlt := hlow c hc
    omega

end

end History

/-- **`DestroyContextPool`.**  After every history within the capacity of the stacks, it
deletes what it should exactly if no context is handed out, or the idle ones are
once in their stack and were created after those that are handed out. -/
theorem destroy_exact_iff (C : ContextClass) (poolSize : Nat)
    (hsize : poolSize ≤ MAX_STACK_CAPACITY) (σ : History)
    (h : Via (History.step C) History.Fits (History.start poolSize) σ) :
    σ.DestroysExactly C ↔ σ.OldestOut := by
  obtain ⟨idle, hinv⟩ := History.Inv.run hsize h
  exact ⟨hinv.oldestOut, hinv.destroysExactly⟩

/-- The second of two contexts is idle, and the first one is not. -/
theorem destroy_exact_iff_secondIdle :
    ∃ σ, Via (History.step .CTcpSendContext) History.Fits (History.start 1) σ
      ∧ (σ.out = [0] ∧ σ.idle = [1]) ∧ σ.DestroysExactly .CTcpSendContext := by
  obtain ⟨σ, hσ, hend⟩ : ∃ σ, Via (History.step .CTcpSendContext) History.Fits (History.start 1) σ
      ∧ σ.out = [0] ∧ σ.idle = [1] :=
    exists_via_of_execIf [.GetContext, .GetContext, .ReleaseContext 1] (by decide +kernel)
  refine ⟨σ, hσ, hend, (destroy_exact_iff .CTcpSendContext 1 (by decide) σ hσ).mpr (.inr ?_)⟩
  rw [hend.1, hend.2]
  decide

/-- One of two contexts is handed out: it is deleted, and the idle one is not. -/
theorem not_destroy_exact :
    ¬ ∀ (C : ContextClass) (poolSize : Nat) (σ : History), poolSize ≤ MAX_STACK_CAPACITY →
      Via (History.step C) History.Fits (History.start poolSize) σ → σ.DestroysExactly C := by
  intro hall
  obtain ⟨σ, hσ, hout, hidle⟩ : ∃ σ,
      Via (History.step .CTcpReceiveContext) History.Fits (History.start 2) σ
        ∧ σ.out = [1] ∧ σ.idle = [0] :=
    exists_via_of_execIf [.GetContext] (by decide +kernel)
  obtain ⟨idle, hinv⟩ := History.Inv.run (by decide) hσ
  rcases hinv.oldestOut (hall .CTcpReceiveContext 2 σ (by decide) hσ) with hnone | ⟨-, hold⟩
  · rw [hout] at hnone
    cases hnone
  · rw [hout, hidle] at hold
    exact absurd (hold 1 List.mem_cons_self 0 List.mem_cons_self) (by decide)

end CppWorkspace.TcpServer.PoolDestroy
