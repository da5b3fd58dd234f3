/-
# `CppWorkspace.TcpServer.PoolLife` — the context pools over the life of a server

The pools of `CAcceptContext`, `CTcpReceiveContext`, `CTcpSendContext` and `CUdpContext` are
static: two stacks and a critical section, made by `InitContextPool` and destroyed by
`DestroyContextPool`.  The four classes are copies of one text and differ in one thing: only
`CTcpReceiveContext` looks at `m_bInitialized` before it gives a context back or destroys the
pool.

    InitServer        every `throw` comes before the pools are made
                      on success  InitContextPool,  on failure  ReleaseResource
    StopServer        waits for the threads, then  ReleaseResource
    ReleaseResource   DestroyContextPool

The threads that `InitServer` creates call `GetContext` and `ReleaseContext`, as `InitServer`
itself does once the pool is there.  `StopServer` waits for the threads of the last
`InitServer` only, since their handles have taken the place of the others.

An operation is `none` if it uses a stack or a critical section that does not exist.
`DestroyContextPool` leaves `m_bInitialized` as it is, so a second `InitContextPool` makes
nothing (`pool_life`).
-/
import CppWorkspace.Lib.Runs
import CppWorkspace.TcpServer.Contexts

namespace CppWorkspace.TcpServer

open Runs

/-- The four classes that have a pool. -/
inductive ContextClass where
  | CAcceptContext
  | CTcpReceiveContext
  | CTcpSendContext
  | CUdpContext
deriving DecidableEq, Repr

namespace ContextClass

/-- Whether `ReleaseContext` and `DestroyContextPool` begin with a test of `m_bInitialized`. -/
def testsInitialized : ContextClass → Bool
  | CTcpReceiveContext => true
  | CAcceptContext | CTcpSendContext | CUdpContext => false

/-- What `InitServer` asks for. -/
def poolSize : ContextClass → Nat
  | CAcceptContext | CTcpReceiveContext => 64
  | CTcpSendContext => 640
  | CUdpContext => 128

end ContextClass

/-- The static members of one class.  A stack is `none` for `NULL`; contexts are numbered in the
order in which they are made. -/
structure Statics where
  m_bInitialized : Bool
  /-- the idle contexts, the top first -/
  contextStack : Option (List Nat)
  /-- all contexts -/
  manageStack : Option (List Nat)
  /-- `m_struCriSec` is initialized -/
  m_struCriSec : Bool
  created : Nat
  deleted : List Nat
deriving DecidableEq

namespace Statics

def zero : Statics := ⟨false, none, none, false, 0, []⟩

/-- `CContextStack::Push`; a full stack drops the context. -/
def push (stack : List Nat) (c : Nat) : List Nat :=
  if stack.length < MAX_STACK_CAPACITY then c :: stack else stack

def InitContextPool (poolSize : Nat) (p : Statics) : Statics :=
  if p.m_bInitialized then p
  else
    let stack := (List.range' p.created poolSize).foldl push []
    { p with
      m_bInitialized := true
      contextStack := some stack
      manageStack := some stack
      m_struCriSec := true
      created := p.created + poolSize }

def GetContext (p : Statics) : Option (Option Nat × Statics) :=
  if p.m_bInitialized then
    if p.m_struCriSec then
      match p.contextStack with
      | some (c :: stack) => some (some c, { p with contextStack := some stack })
      | some [] => p.manageStack.map fun stack =>
          (some p.created,
            { p with manageStack := some (push stack p.created), created := p.created + 1 })
      | none => none
    else none
  else some (none, p)

def ReleaseContext (C : ContextClass) (c : Nat) (p : Statics) : Option Statics :=
  if C.testsInitialized ∧ p.m_bInitialized = false then some p
  else if p.m_struCriSec then
    p.contextStack.map fun stack => { p with contextStack := some (push stack c) }
  else none

/-- `Pop`, so many times. -/
def popped (size : Nat) (manageStack : Option (List Nat)) : Option (List Nat) :=
  if size = 0 then some [] else manageStack.map (List.take size)

/-- As many contexts are deleted as are idle. -/
def DestroyContextPool (C : ContextClass) (p : Statics) : Option Statics :=
  if C.testsInitialized ∧ p.m_bInitialized = false then some p
  else
    p.contextStack.bind fun stack => (popped stack.length p.manageStack).bind fun contexts =>
      if p.m_struCriSec then
        some { p with
          contextStack := none
          manageStack := none
          m_struCriSec := false
          deleted := contexts ++ p.deleted }
      else none

/-- The pool can be used. -/
def usable (p : Statics) : Bool :=
  p.m_bInitialized && p.m_struCriSec && p.contextStack.isSome && p.manageStack.isSome

end Statics

/-- The pool of one class while servers come and go.  `threads` counts the calls of `InitServer`
whose threads nobody has waited for, and `sound` says that no operation has used what did not
exist, and that the pool was usable after every `InitContextPool`. -/
structure PoolLife where
  pool : Statics
  m_bServerRunning : Bool
  /-- the handles of the threads are not `NULL` -/
  handles : Bool
  threads : Nat
  /-- an `InitServer` has come as far as the pools -/
  made : Bool
  /-- after that there was a `ReleaseResource` -/
  ended : Bool
  sound : Bool
deriving DecidableEq

/-- What is done to the server, and what uses the pool. -/
inductive LifeAction where
  /-- `ok` if it comes as far as the pools -/
  | InitServer (ok : Bool)
  | StartServer
  | StopServer
  | GetContext
  | ReleaseContext (c : Nat)
deriving DecidableEq, Repr

namespace PoolLife

def start : PoolLife := ⟨.zero, false, false, 0, false, false, true⟩

/-- An operation on the pool.  What comes of a use of something that does not exist is not
described. -/
def perform (σ : PoolLife) : Option Statics → PoolLife
  | some p => { σ with pool := p }
  | none => { σ with sound := false }

def ReleaseResource (C : ContextClass) (σ : PoolLife) : PoolLife :=
  { σ.perform (σ.pool.DestroyContextPool C) with handles := false, ended := σ.ended || σ.made }

def step (C : ContextClass) (σ : PoolLife) : LifeAction → Option PoolLife
  | .InitServer true => some { σ with
      pool := σ.pool.InitContextPool C.poolSize
      handles := true
      threads := σ.threads + 1
      made := true
      sound := σ.sound && (σ.pool.InitContextPool C.poolSize).usable }
  | .InitServer false => some (σ.ReleaseResource C)
  | .StartServer => some { σ with m_bServerRunning := true }
  | .StopServer => some { σ.ReleaseResource C with
      m_bServerRunning := false
      threads := if σ.handles then σ.threads - 1 else σ.threads }
  | .GetContext =>
      if 0 < σ.threads then some (σ.perform (σ.pool.GetContext.map Prod.snd)) else none
  | .ReleaseContext c =>
      if 0 < σ.threads then some (σ.perform (σ.pool.ReleaseContext C c)) else none

/-- The pool is made once, and `ReleaseResource` is called once, after that.
`CTcpReceiveContext` allows it before that as well. -/
def Orderly (C : ContextClass) (σ : PoolLife) : LifeAction → Prop
  | .InitServer true => σ.ended = false
  | .InitServer false | .StopServer => σ.ended = false ∧ (σ.made ∨ C.testsInitialized)
  | .StartServer => True
  | .GetContext | .ReleaseContext _ => σ.ended = false

instance (C : ContextClass) (σ : PoolLife) : ∀ act, Decidable (σ.Orderly C act)
  | .InitServer true => inferInstanceAs (Decidable (σ.ended = false))
  | .InitServer false | .StopServer =>
      inferInstanceAs (Decidable (σ.ended = false ∧ (σ.made = true ∨ C.testsInitialized = true)))
  | .StartServer => isTrue trivial
  | .GetContext | .ReleaseContext _ => inferInstanceAs (Decidable (σ.ended = false))

end PoolLife

/-! ## The pool, while it is there and after it -/

namespace Statics

/-- What `DestroyContextPool` leaves. -/
structure Gone (p : Statics) : Prop where
  initialized : p.m_bInitialized = true
  criSec : p.m_struCriSec = false
  stack : p.contextStack = none

section
variable {p q : Statics} {C : ContextClass} {c : Nat}

theorem usable_iff : p.usable = true ↔ p.m_bInitialized = true ∧ p.m_struCriSec = true ∧
    (∃ stack, p.contextStack = some stack) ∧ ∃ stack, p.manageStack = some stack := by
  simp only [usable, Bool.and_eq_true, Option.isSome_iff_exists, and_assoc]

theorem initContextPool_of_initialized (h : p.m_bInitialized = true) (n : Nat) :
    p.InitContextPool n = p := if_pos h

theorem usable_initContextPool (h : p.m_bInitialized = false) (n : Nat) :
    (p.InitContextPool n).usable = true := by
  rw [InitContextPool, if_neg (by rw [h]; exact Bool.false_ne_true)]
  rfl

theorem usable_getContext (h : p.usable = true) :
    ∃ q, p.GetContext.map Prod.snd = some q ∧ q.usable = true := by
  obtain ⟨hinit, hcri, ⟨stack, hstack⟩, all, hall⟩ := usable_iff.mp h
  unfold GetContext
  rw [if_pos hinit, if_pos hcri, hstack]
  cases stack with
  | cons c stack =>
      refine ⟨_, rfl, usable_iff.mpr ⟨hinit, hcri, ⟨stack, rfl⟩, all, hall⟩⟩
  | nil =>
      rw [hall]
      exact ⟨_, rfl, usable_iff.mpr ⟨hinit, hcri, ⟨[], rfl⟩, _, rfl⟩⟩

theorem not_tested (h : p.m_bInitialized = true) :
    ¬ (C.testsInitialized = true ∧ p.m_bInitialized = false) := by
  rintro ⟨-, hfalse⟩
  rw [h] at hfalse
  cases hfalse

theorem usable_releaseContext (h : p.usable = true) :
    ∃ q, p.ReleaseContext C c = some q ∧ q.usable = true := by
  obtain ⟨hinit, hcri, ⟨stack, hstack⟩, hall⟩ := usable_iff.mp h
  unfold ReleaseContext
  rw [if_neg (not_tested hinit), if_pos hcri, hstack]
  exact ⟨_, rfl, usable_iff.mpr ⟨hinit, hcri, ⟨_, rfl⟩, hall⟩⟩

theorem gone_destroyContextPool (h : p.usable = true) :
    ∃ q, p.DestroyContextPool C = some q ∧ q.Gone := by
  obtain ⟨hinit, hcri, ⟨stack, hstack⟩, all, hall⟩ := usable_iff.mp h
  have hpopped : ∃ contexts, popped stack.length (some all) = some contexts := by
    unfold popped
    split
    next => exact ⟨[], rfl⟩
    next => exact ⟨_, rfl⟩
  obtain ⟨contexts, hcontexts⟩ := hpopped
  refine ⟨{ p with contextStack := none, manageStack := none, m_struCriSec := false, deleted :=
    contexts ++ p.deleted }, ?_, hinit, rfl, rfl⟩
  rw [DestroyContextPool, if_neg (not_tested hinit), hstack, hall, Option.bind_some, hcontexts,
    Option.bind_some, if_pos hcri]

namespace Gone

theorem getContext (h : p.Gone) : p.GetContext = none := by
  rw [GetContext, if_pos h.initialized, h.criSec]
  rfl

theorem releaseContext (h : p.Gone) : p.ReleaseContext C c = none := by
  rw [ReleaseContext, if_neg (not_tested h.initialized), h.criSec]
  rfl

theorem destroyContextPool (h : p.Gone) : p.DestroyContextPool C = none := by
  rw [DestroyContextPool, if_neg (not_tested h.initialized), h.stack]
  rfl

theorem not_usable (h : p.Gone) : p.usable = false := by
  rw [usable, h.criSec, Bool.and_false]
  rfl

end Gone

end

end Statics

/-! ## The stages of a pool -/

/-- The stages through which a pool goes as long as all is well. -/
inductive PoolLife.Staged (σ : PoolLife) : Prop
  | fresh (made : σ.made = false) (ended : σ.ended = false) (pool : σ.pool = .zero)
      (threads : σ.threads = 0)
  | live (made : σ.made = true) (ended : σ.ended = false) (pool : σ.pool.usable = true)
  | gone (made : σ.made = true) (ended : σ.ended = true) (pool : σ.pool.Gone)

namespace PoolLife

section
variable {C : ContextClass} {σ τ : PoolLife} {act : LifeAction}

theorem perform_sound {r : Option Statics} (h : (σ.perform r).sound = true) : σ.sound = true := by
  cases r with
  | some p => exact h
  | none => cases h

theorem step_sound (hs : σ.step C act = some τ) (h : τ.sound = true) : σ.sound = true := by
  cases act with
  | InitServer ok =>
      cases ok with
      | true =>
          cases hs
          exact (Bool.and_eq_true_iff.mp h).1
      | false =>
          cases hs
          exact perform_sound (r := σ.pool.DestroyContextPool C) h
  | StartServer =>
      cases hs
      exact h
  | StopServer =>
      cases hs
      exact perform_sound (r := σ.pool.DestroyContextPool C) h
  | GetContext | ReleaseContext c =>
      obtain ⟨-, hs⟩ := Option.ite_none_right_eq_some.mp hs
      cases hs
      exact perform_sound h

theorem Staged.same (h : σ.Staged) (hmade : τ.made = σ.made) (hended : τ.ended = σ.ended)
    (hpool : τ.pool = σ.pool) (hthreads : τ.threads ≤ σ.threads) : τ.Staged := by
  cases h with
  | fresh made ended pool threads =>
      exact .fresh (hmade.trans made) (hended.trans ended) (hpool.trans pool)
        (Nat.le_zero.mp (threads ▸ hthreads))
  | live made ended pool => exact .live (hmade.trans made) (hended.trans ended) (hpool ▸ pool)
  | gone made ended pool => exact .gone (hmade.trans made) (hended.trans ended) (hpool ▸ pool)

theorem Staged.releaseResource (h : σ.Staged) (hended : σ.ended = false)
    (hmade : σ.made ∨ C.testsInitialized) :
    (σ.ReleaseResource C).Staged ∧ (σ.ReleaseResource C).sound = σ.sound ∧
      (σ.ReleaseResource C).threads = σ.threads := by
  cases h with
  | fresh made ended pool threads =>
      have htests : C.testsInitialized = true := by
        refine hmade.resolve_left ?_
        rw [made]
        exact Bool.false_ne_true
      have hdestroy : σ.pool.DestroyContextPool C = some σ.pool := by
        rw [Statics.DestroyContextPool, if_pos ⟨htests, by rw [pool]; rfl⟩]
      unfold ReleaseResource
      rw [hdestroy]
      refine ⟨.fresh made ?_ pool threads, rfl, rfl⟩
      change (σ.ended || σ.made) = false
      rw [ended, made]
      rfl
  | live made ended pool =>
      obtain ⟨q, hdestroy, hgone⟩ := Statics.gone_destroyContextPool (C := C) pool
      unfold ReleaseResource
      rw [hdestroy]
      refine ⟨.gone made ?_ hgone, rfl, rfl⟩
      change (σ.ended || σ.made) = true
      rw [made, Bool.or_true]
  | gone made ended pool =>
      rw [ended] at hended
      cases hended

theorem Staged.releaseResource_unsound (h : σ.Staged)
    (hnot : ¬ (σ.ended = false ∧ (σ.made ∨ C.testsInitialized))) :
    (σ.ReleaseResource C).sound = false := by
  have hnone : σ.pool.DestroyContextPool C = none := by
    cases h with
    | fresh made ended pool threads =>
        have htests : ¬ (C.testsInitialized = true ∧ σ.pool.m_bInitialized = false) :=
          fun htests => hnot ⟨ended, .inr htests.1⟩
        rw [Statics.DestroyContextPool, if_neg htests, pool]
        rfl
    | live made ended pool => exact absurd ⟨ended, .inl made⟩ hnot
    | gone made ended pool => exact pool.destroyContextPool
  unfold ReleaseResource
  rw [hnone]
  rfl

theorem Staged.usable (h : σ.Staged) (hthreads : 0 < σ.threads) (hended : σ.ended = false) :
    σ.made = true ∧ σ.pool.usable = true := by
  cases h with
  | fresh made ended pool threads =>
      rw [threads] at hthreads
      cases hthreads
  | live made ended pool => exact ⟨made, pool⟩
  | gone made ended pool =>
      rw [ended] at hended
      cases hended

theorem Staged.poolGone (h : σ.Staged) (hended : σ.ended ≠ false) : σ.pool.Gone := by
  cases h with
  | fresh made ended pool threads => exact absurd ended hended
  | live made ended pool => exact absurd ended hended
  | gone made ended pool => exact pool

theorem Staged.step_of_orderly (h : σ.Staged) (hok : σ.Orderly C act)
    (hs : σ.step C act = some τ) : τ.Staged ∧ τ.sound = σ.sound := by
  cases act with
  | InitServer ok =>
      cases ok with
      | true =>
          cases hs
          have husable : (σ.pool.InitContextPool C.poolSize).usable = true := by
            cases h with
            | fresh made ended pool threads =>
                exact Statics.usable_initContextPool (by rw [pool]; rfl) _
            | live made ended pool =>
                rw [Statics.initContextPool_of_initialized (Statics.usable_iff.mp pool).1]
                exact pool
            | gone made ended pool =>
                have hended : σ.ended = false := hok
                rw [ended] at hended
                cases hended
          refine ⟨.live rfl hok husable, ?_⟩
          change (σ.sound && _) = σ.sound
          rw [husable, Bool.and_true]
      | false =>
          cases hs
          obtain ⟨hstaged, hsound, -⟩ := h.releaseResource hok.1 hok.2
          exact ⟨hstaged, hsound⟩
  | StartServer =>
      cases hs
      exact ⟨h.same rfl rfl rfl (Nat.le_refl _), rfl⟩
  | StopServer =>
      cases hs
      obtain ⟨hstaged, hsound, hthreads⟩ := h.releaseResource hok.1 hok.2
      refine ⟨hstaged.same rfl rfl rfl ?_, hsound⟩
      rw [hthreads]
      change (if σ.handles = true then σ.threads - 1 else σ.threads) ≤ σ.threads
      split
      next => exact Nat.sub_le ..
      next => exact Nat.le_refl _
  | GetContext =>
      obtain ⟨hthreads, hs⟩ := Option.ite_none_right_eq_some.mp hs
      cases hs
      obtain ⟨hmade, husable⟩ := h.usable hthreads hok
      obtain ⟨q, hq, husable'⟩ := Statics.usable_getContext husable
      rw [hq]
      exact ⟨.live hmade hok husable', rfl⟩
  | ReleaseContext c =>
      obtain ⟨hthreads, hs⟩ := Option.ite_none_right_eq_some.mp hs
      cases hs
      obtain ⟨hmade, husable⟩ := h.usable hthreads hok
      obtain ⟨q, hq, husable'⟩ := Statics.usable_releaseContext (C := C) (c := c) husable
      rw [hq]
      exact ⟨.live hmade hok husable', rfl⟩

theorem Staged.step_of_not_orderly (h : σ.Staged) (hnot : ¬ σ.Orderly C act)
    (hs : σ.step C act = some τ) : τ.sound = false := by
  cases act with
  | InitServer ok =>
      cases ok with
      | true =>
          cases hs
          have hgone := h.poolGone hnot
          change (σ.sound && (σ.pool.InitContextPool C.poolSize).usable) = false
          rw [Statics.initContextPool_of_initialized hgone.initialized, hgone.not_usable,
            Bool.and_false]
      | false =>
          cases hs
          exact h.releaseResource_unsound hnot
  | StartServer => exact absurd trivial hnot
  | StopServer =>
      cases hs
      exact h.releaseResource_unsound hnot
  | GetContext =>
      obtain ⟨-, hs⟩ := Option.ite_none_right_eq_some.mp hs
      cases hs
      rw [(h.poolGone hnot).getContext]
      rfl
  | ReleaseContext c =>
      obtain ⟨-, hs⟩ := Option.ite_none_right_eq_some.mp hs
      cases hs
      rw [(h.poolGone hnot).releaseContext]
      rfl

theorem staged_start : start.Staged := .fresh rfl rfl rfl rfl

theorem staged_of_orderly (h : Via (step C) (Orderly C) start σ) :
    σ.Staged ∧ σ.sound = true := by
  induction h with
  | refl => exact ⟨staged_start, rfl⟩
  | tail act _ hok hs ih =>
      obtain ⟨hstaged, hsound⟩ := ih.1.step_of_orderly hok hs
      exact ⟨hstaged, hsound.trans ih.2⟩

end

end PoolLife

/-- In any run of servers one after the other, and for each of the classes, no operation has used
what does not exist and every `InitContextPool` has left a usable pool, if and only if the run was
orderly. -/
theorem pool_life (C : ContextClass) (σ : PoolLife)
    (h : Via (PoolLife.step C) (fun _ _ => True) .start σ) :
    σ.sound = true ↔ Via (PoolLife.step C) (PoolLife.Orderly C) .start σ := by
  refine ⟨fun hsound => ?_, fun horderly => (PoolLife.staged_of_orderly horderly).2⟩
  induction h with
  | refl => exact .refl
  | tail act _ _ hs ih =>
      have hrun := ih (PoolLife.step_sound hs hsound)
      refine hrun.tail act ?_ hs
      by_contra hnot
      have hunsound := (PoolLife.staged_of_orderly hrun).1.step_of_not_orderly hnot hs
      rw [hsound] at hunsound
      cases hunsound

/-- A server that is started and stopped once, after a first attempt that failed. -/
theorem pool_life_once : ∃ σ, Via (PoolLife.step .CTcpReceiveContext)
    (PoolLife.Orderly .CTcpReceiveContext) .start σ ∧ σ.ended = true ∧ σ.sound = true := by
  have hexec : ∃ σ, Via (PoolLife.step .CTcpReceiveContext)
      (PoolLife.Orderly .CTcpReceiveContext) .start σ ∧ σ.ended = true :=
    exists_via_of_execIf [.InitServer false, .InitServer true, .StartServer, .GetContext,
      .ReleaseContext 63, .StopServer] (by decide +kernel)
  obtain ⟨σ, hrun, hended⟩ := hexec
  exact ⟨σ, hrun, hended,
    (pool_life .CTcpReceiveContext σ (hrun.mono fun _ _ _ => trivial)).mpr hrun⟩

/-- A server that is started again after a stop has no pool of accept contexts. -/
theorem not_pool_life : ¬ ∀ (C : ContextClass) (σ : PoolLife),
    Via (PoolLife.step C) (fun _ _ => True) .start σ → σ.sound = true := by
  have hexec : ∃ σ, Via (PoolLife.step .CAcceptContext) (fun _ _ => True) .start σ ∧
      σ.sound = false :=
    exists_via_of_execIf [.InitServer true, .StartServer, .StopServer, .InitServer true]
      (by decide +kernel)
  obtain ⟨σ, hrun, hunsound⟩ := hexec
  intro h
  rw [h .CAcceptContext σ hrun] at hunsound
  cases hunsound

end CppWorkspace.TcpServer
