/-
# `CppWorkspace.CIOCPServer.FreePools` — the free buffers and the free contexts

`AllocateBuffer`, `ReleaseBuffer`, `AllocateContext` and `ReleaseContext` on whole records, so
that it shows what an object looks like that is used again.

    buffers.head, buffers.count      `m_pFreeBufferList`, `m_nFreeBufferCount`
    contexts.head, contexts.count    `m_pFreeContextList`, `m_nFreeContextCount`

Conventions: an object is its address, and the bytes behind a buffer belong to its record;
`buff` is the buffer behind which it points; `BOOL` is `Bool`.  The rest of the program may
write anything to an object that it was handed out.  A function releases an object only if it
is handed out, so `none` is a release that is not allowed; also a `HeapAlloc` that returns an
object of the heap, and a context that is initialized through `NULL`.
-/
import CppWorkspace.CIOCPServer.Data
import CppWorkspace.Lib.FreeLists
import CppWorkspace.Lib.Refinement

namespace CppWorkspace.CIOCPServer.FreePools

open FreeLists LinkedList Refinement

/-! ## Records -/

/-- The overlapped record at the start of a buffer. -/
structure WSAOVERLAPPED where
  Internal : Nat
  InternalHigh : Nat
  Offset : UInt32
  OffsetHigh : UInt32
  hEvent : Nat

/-- An address. -/
structure SOCKADDR_IN where
  sin_family : UInt16
  sin_port : UInt16
  sin_addr : UInt32
  sin_zero : List UInt8

/-- A critical section, and the thread inside it. -/
inductive CRITICAL_SECTION where
  | zero
  | initialized (owner : Option Nat)
deriving DecidableEq, Repr

/-- A buffer with all its fields, which `ZeroMemory` clears. -/
structure CIOCPBuffer where
  ol : WSAOVERLAPPED
  sClient : SOCKET
  buff : Option Nat
  nLen : Int
  nSequenceNumber : ULONG
  nOperation : Int
  pNext : Option Nat
  /-- The `BUFFER_SIZE` bytes behind it. -/
  contents : List UInt8

/-- A context with all its fields, which `ZeroMemory` clears. -/
structure CIOCPContext where
  s : SOCKET
  addrLocal : SOCKADDR_IN
  addrRemote : SOCKADDR_IN
  bClosing : Bool
  nOutstandingRecv : Int
  nOutstandingSend : Int
  nReadSequence : ULONG
  nCurrentReadSequence : ULONG
  pOutOfOrderReads : Option Nat
  Lock : CRITICAL_SECTION
  bNotifyCloseOrError : Bool
  pNext : Option Nat

def CIOCPBuffer.zero : CIOCPBuffer where
  ol := ⟨0, 0, 0, 0, 0⟩
  sClient := 0
  buff := none
  nLen := 0
  nSequenceNumber := 0
  nOperation := 0
  pNext := none
  contents := List.replicate bufferSize 0

def SOCKADDR_IN.zero : SOCKADDR_IN := ⟨0, 0, 0, List.replicate 8 0⟩

/-- All zero but `Lock`. -/
def CIOCPContext.zero (Lock : CRITICAL_SECTION) : CIOCPContext where
  s := 0
  addrLocal := .zero
  addrRemote := .zero
  bClosing := false
  nOutstandingRecv := 0
  nOutstandingSend := 0
  nReadSequence := 0
  nCurrentReadSequence := 0
  pOutOfOrderReads := none
  Lock := Lock
  bNotifyCloseOrError := false
  pNext := none

def bufferLink : Link CIOCPBuffer where
  get := CIOCPBuffer.pNext
  set r v := { r with pNext := v }
  get_set _ _ := rfl
  set_set _ _ _ := rfl

def contextLink : Link CIOCPContext where
  get := CIOCPContext.pNext
  set r v := { r with pNext := v }
  get_set _ _ := rfl
  set_set _ _ _ := rfl

/-! ## The functions -/

/-- The sizes of the pools. -/
structure Limits where
  m_nMaxFreeBuffers : Int
  m_nMaxFreeContexts : Int

/-- The two pools. -/
structure Pools where
  buffers : FreeLists.Pool CIOCPBuffer
  contexts : FreeLists.Pool CIOCPContext
  /-- The calls of `closesocket` and of `ReleaseBuffer`. -/
  closed : List SOCKET
  released : List Nat

namespace Pools

def start (buffers : Nat → CIOCPBuffer) (contexts : Nat → CIOCPContext) : Pools where
  buffers := .empty buffers
  contexts := .empty contexts
  closed := []
  released := []

/-- `a` is what `HeapAlloc` returns, if it is called. -/
def AllocateBuffer (σ : Pools) (nLen : Int) (a : Option Nat) : Option (Pools × Option Nat) :=
  if bufferSize < nLen then some (σ, none)
  else (σ.buffers.take bufferLink .zero a).map fun x =>
    match x.2 with
    | some b =>
        ({ σ with buffers := x.1.write b { x.1.memory b with buff := some b, nLen := nLen } },
          some b)
    | none => ({ σ with buffers := x.1 }, none)

def ReleaseBuffer (cfg : Limits) (σ : Pools) (b : Nat) : Option Pools :=
  (σ.buffers.give bufferLink (fun _ => .zero) cfg.m_nMaxFreeBuffers b).map fun pool =>
    { σ with buffers := pool, released := σ.released ++ [b] }

def AllocateContext (σ : Pools) (s : SOCKET) (a : Option Nat) : Option (Pools × Nat) :=
  (σ.contexts.take contextLink (.zero (.initialized none)) a).bind fun x =>
    match x.2 with
    | some c => some
        ({ σ with
          contexts := x.1.write c { x.1.memory c with s := s, bNotifyCloseOrError := false } }, c)
    | none => none

/-- `pContext->pOutOfOrderReads = pNext` -/
def setReads (σ : Pools) (c : Nat) (pNext : Option Nat) : Pools :=
  { σ with
    contexts := σ.contexts.write c { σ.contexts.memory c with pOutOfOrderReads := pNext } }

/-- The `while` loop of `ReleaseContext`. -/
def releaseReads (cfg : Limits) (c : Nat) : Nat → Pools → Option Pools
  | 0, σ => if (σ.contexts.memory c).pOutOfOrderReads = none then some σ else none
  | fuel + 1, σ =>
      match (σ.contexts.memory c).pOutOfOrderReads with
      | some b => (ReleaseBuffer cfg σ b).bind fun σ' =>
          releaseReads cfg c fuel (σ'.setReads c (σ.buffers.memory b).pNext)
      | none => some σ

/-- `if(pContext->s != INVALID_SOCKET) closesocket(pContext->s)` -/
def closesocket (σ : Pools) (c : Nat) : Pools :=
  if (σ.contexts.memory c).s ≠ invalidSocket then
    { σ with closed := σ.closed ++ [(σ.contexts.memory c).s] }
  else σ

/-- Each round of the loop releases a buffer that is handed out: there are no more rounds than
such buffers (`ReleaseContext_returns`). -/
def ReleaseContext (cfg : Limits) (σ : Pools) (c : Nat) : Option Pools :=
  (releaseReads cfg c σ.buffers.inUse.length (σ.closesocket c)).bind fun σ' =>
    (σ'.contexts.give contextLink (fun r => .zero r.Lock) cfg.m_nMaxFreeContexts c).map fun pool =>
      { σ' with contexts := pool }

end Pools

/-- The functions on the two pools; `a` is what `HeapAlloc` returns. -/
inductive Call where
  | AllocateBuffer (nLen : Int) (a : Option Nat)
  | ReleaseBuffer (pBuffer : Nat)
  | AllocateContext (s : SOCKET) (a : Option Nat)
  | ReleaseContext (pContext : Nat)
  /-- The rest of the program writes to an object that was handed out. -/
  | writeBuffer (pBuffer : Nat) (x : CIOCPBuffer)
  | writeContext (pContext : Nat) (x : CIOCPContext)

/-- What they return. -/
inductive Result where
  | void
  | pointer (p : Option Nat)
deriving DecidableEq, Repr

def call (cfg : Limits) (σ : Pools) : Call → Option (Pools × Result)
  | .AllocateBuffer nLen a => (σ.AllocateBuffer nLen a).map fun x => (x.1, .pointer x.2)
  | .ReleaseBuffer b => (σ.ReleaseBuffer cfg b).map fun σ' => (σ', .void)
  | .AllocateContext s a => (σ.AllocateContext s a).map fun x => (x.1, .pointer (some x.2))
  | .ReleaseContext c => (σ.ReleaseContext cfg c).map fun σ' => (σ', .void)
  | .writeBuffer b x =>
      if b ∈ σ.buffers.inUse then some ({ σ with buffers := σ.buffers.write b x }, .void) else none
  | .writeContext c x =>
      if c ∈ σ.contexts.inUse then some ({ σ with contexts := σ.contexts.write c x }, .void)
      else none

/-! ## The pools -/

/-- What the two free lists are. -/
structure Wf (cfg : Limits) (σ : Pools) (freeBuffers freeContexts : List Nat) : Prop where
  buffers : Holds bufferLink (· = .zero) cfg.m_nMaxFreeBuffers σ.buffers freeBuffers
  contexts : Holds contextLink (fun r => ∃ k, r = .zero k) cfg.m_nMaxFreeContexts σ.contexts
    freeContexts

/-- What a call does, and what it returns. -/
def Effect (σ : Pools) (c : Call) (σ' : Pools) (r : Result) : Prop :=
  match c with
  | .AllocateBuffer nLen _ =>
      (bufferSize < nLen → σ' = σ ∧ r = .pointer none) ∧
      ∀ b, r = .pointer (some b) →
        b ∉ σ.buffers.inUse ∧ σ'.buffers.inUse = b :: σ.buffers.inUse ∧
        σ'.buffers.memory b = { CIOCPBuffer.zero with buff := some b, nLen := nLen }
  | .ReleaseBuffer b => b ∈ σ.buffers.inUse ∧ σ'.buffers.inUse = σ.buffers.inUse.erase b
  | .AllocateContext s _ =>
      ∃ c k, r = .pointer (some c) ∧
        c ∉ σ.contexts.inUse ∧ σ'.contexts.inUse = c :: σ.contexts.inUse ∧
        σ'.contexts.memory c = { CIOCPContext.zero k with s := s }
  | .ReleaseContext c =>
      c ∈ σ.contexts.inUse ∧ σ'.contexts.inUse = σ.contexts.inUse.erase c ∧
      ∃ reads, Chain (fun b => (σ.buffers.memory b).pNext)
          (σ.contexts.memory c).pOutOfOrderReads reads ∧
        reads.Nodup ∧ (∀ b ∈ reads, b ∈ σ.buffers.inUse) ∧
        σ'.released = σ.released ++ reads ∧
        ∀ b, b ∈ σ'.buffers.inUse ↔ b ∈ σ.buffers.inUse ∧ b ∉ reads
  | .writeBuffer _ _ | .writeContext _ _ => True

section
variable {cfg : Limits} {σ σ' : Pools} {free freeBuffers freeContexts : List Nat} {b c : Nat}
  {r : Result}

theorem AllocateBuffer_wf {nLen : Int} {a : Option Nat} (h : Wf cfg σ freeBuffers freeContexts)
    (hcall : call cfg σ (.AllocateBuffer nLen a) = some (σ', r)) :
    (∃ freeBuffers, Wf cfg σ' freeBuffers freeContexts) ∧
      Effect σ (.AllocateBuffer nLen a) σ' r := by
  obtain ⟨⟨τ, p⟩, hp, heq⟩ := Option.map_eq_some_iff.mp hcall
  cases heq
  unfold Pools.AllocateBuffer at hp
  split at hp
  · cases hp
    refine ⟨⟨freeBuffers, h⟩, fun _ => ⟨rfl, rfl⟩, fun b hb => ?_⟩
    cases hb
  · rename_i hsize
    obtain ⟨⟨pool, q⟩, hpool, heq⟩ := Option.map_eq_some_iff.mp hp
    rcases h.buffers.take rfl hpool with ⟨rfl, rfl⟩ | ⟨b, free', rfl, hb, huse, hblank, hholds⟩
    · cases heq
      refine ⟨⟨freeBuffers, h⟩, fun hlarge => absurd hlarge hsize, fun b hb => ?_⟩
      cases hb
    · cases heq
      have hfree : b ∉ free' := hholds.not_free (huse ▸ List.mem_cons_self)
      refine ⟨⟨free', hholds.write hfree _, h.contexts⟩, fun hlarge => absurd hlarge hsize,
        fun c hc => ?_⟩
      cases hc
      refine ⟨hb, huse, ?_⟩
      rw [write_memory_self, hblank]

theorem AllocateContext_wf {s : SOCKET} {a : Option Nat}
    (h : Wf cfg σ freeBuffers freeContexts)
    (hcall : call cfg σ (.AllocateContext s a) = some (σ', r)) :
    (∃ freeContexts, Wf cfg σ' freeBuffers freeContexts) ∧
      Effect σ (.AllocateContext s a) σ' r := by
  obtain ⟨⟨τ, p⟩, hp, heq⟩ := Option.map_eq_some_iff.mp hcall
  cases heq
  obtain ⟨⟨pool, q⟩, hpool, heq⟩ := Option.bind_eq_some_iff.mp hp
  rcases h.contexts.take ⟨_, rfl⟩ hpool with
    ⟨rfl, rfl⟩ | ⟨c, free', rfl, hc, huse, ⟨k, hblank⟩, hholds⟩
  · cases heq
  · cases heq
    have hfree : p ∉ free' := hholds.not_free (huse ▸ List.mem_cons_self)
    refine ⟨⟨free', h.buffers, hholds.write hfree _⟩, p, k, rfl, hc, huse, ?_⟩
    rw [write_memory_self, hblank]
    rfl

theorem ReleaseBuffer_wf (h : Wf cfg σ freeBuffers freeContexts)
    (hcall : σ.ReleaseBuffer cfg b = some σ') :
    b ∈ σ.buffers.inUse ∧ σ'.buffers.inUse = σ.buffers.inUse.erase b ∧
      (∀ c, c ≠ b → σ'.buffers.memory c = σ.buffers.memory c) ∧
      σ'.contexts = σ.contexts ∧ σ'.released = σ.released ++ [b] ∧
      ∃ freeBuffers, Wf cfg σ' freeBuffers freeContexts := by
  obtain ⟨pool, hpool, rfl⟩ := Option.map_eq_some_iff.mp hcall
  obtain ⟨hb, huse, hmemory, free', hholds⟩ := h.buffers.give (fun _ => rfl) hpool
  exact ⟨hb, huse, hmemory, rfl, rfl, free', hholds, h.contexts⟩

theorem releaseReads_inUse {fuel : Nat} (hcall : Pools.releaseReads cfg c fuel σ = some σ') :
    σ'.contexts.inUse = σ.contexts.inUse := by
  induction fuel generalizing σ with
  | zero =>
      obtain ⟨-, heq⟩ := Option.ite_none_right_eq_some.mp hcall
      cases heq
      rfl
  | succ fuel ih =>
      rw [Pools.releaseReads] at hcall
      split at hcall
      · obtain ⟨τ, hτ, hrest⟩ := Option.bind_eq_some_iff.mp hcall
        obtain ⟨pool, -, rfl⟩ := Option.map_eq_some_iff.mp hτ
        have hinUse := ih hrest
        exact hinUse
      · cases hcall
        rfl

/-- One round of the loop: `b` is released, and the context is left with what was behind it. -/
theorem round_wf (h : Wf cfg σ freeBuffers freeContexts) (hc : c ∈ σ.contexts.inUse)
    (hrelease : σ.ReleaseBuffer cfg b = some σ') :
    (∃ freeBuffers, Wf cfg (σ'.setReads c (σ.buffers.memory b).pNext) freeBuffers freeContexts) ∧
      ((σ'.setReads c (σ.buffers.memory b).pNext).contexts.memory c).pOutOfOrderReads =
        (σ.buffers.memory b).pNext ∧
      c ∈ σ'.contexts.inUse ∧ σ'.released = σ.released ++ [b] ∧
      (∀ x, x ∈ σ'.buffers.inUse ↔ x ≠ b ∧ x ∈ σ.buffers.inUse) ∧
      ∀ x, x ≠ b → (σ'.buffers.memory x).pNext = (σ.buffers.memory x).pNext := by
  obtain ⟨-, huse, hmemory, hcontexts, hreleased, free', hwf⟩ := ReleaseBuffer_wf h hrelease
  refine ⟨⟨free', hwf.buffers, hwf.contexts.write (h.contexts.not_free hc) _⟩,
    congrArg CIOCPContext.pOutOfOrderReads write_memory_self, hcontexts ▸ hc, hreleased,
    fun x => ?_, fun x hx => congrArg CIOCPBuffer.pNext (hmemory x hx)⟩
  rw [huse, h.buffers.inUse_nodup.mem_erase_iff]

theorem releaseReads_wf {fuel : Nat} (h : Wf cfg σ freeBuffers freeContexts)
    (hc : c ∈ σ.contexts.inUse) (hcall : Pools.releaseReads cfg c fuel σ = some σ') :
    ∃ reads freeBuffers,
      Chain (fun b => (σ.buffers.memory b).pNext) (σ.contexts.memory c).pOutOfOrderReads reads ∧
      (∀ b ∈ reads, b ∈ σ.buffers.inUse) ∧ σ'.released = σ.released ++ reads ∧
      (∀ b, b ∈ σ'.buffers.inUse ↔ b ∈ σ.buffers.inUse ∧ b ∉ reads) ∧
      Wf cfg σ' freeBuffers freeContexts := by
  induction fuel generalizing σ freeBuffers with
  | zero =>
      obtain ⟨hnone, heq⟩ := Option.ite_none_right_eq_some.mp hcall
      cases heq
      exact ⟨[], freeBuffers, hnone, fun _ hb => absurd hb List.not_mem_nil,
        (List.append_nil _).symm, fun b => by simp, h⟩
  | succ fuel ih =>
      rw [Pools.releaseReads] at hcall
      cases hreads : (σ.contexts.memory c).pOutOfOrderReads with
      | none =>
          rw [hreads] at hcall
          cases hcall
          exact ⟨[], freeBuffers, rfl, fun _ hb => absurd hb List.not_mem_nil,
            (List.append_nil _).symm, fun b => by simp, h⟩
      | some b =>
          rw [hreads] at hcall
          obtain ⟨τ, hτ, hrest⟩ := Option.bind_eq_some_iff.mp hcall
          have hb : b ∈ σ.buffers.inUse := (ReleaseBuffer_wf h hτ).1
          obtain ⟨⟨free', hwf⟩, hnext, hcτ, hreleased, herase, hlinks⟩ := round_wf h hc hτ
          obtain ⟨reads, freeBuffers', hchain, hmem, hlog, hinUse, hfinal⟩ := ih hwf hcτ hrest
          rw [hnext] at hchain
          have hmem' : ∀ x ∈ reads, x ≠ b ∧ x ∈ σ.buffers.inUse :=
            fun x hx => (herase x).mp (hmem x hx)
          refine ⟨b :: reads, freeBuffers', ⟨rfl, ?_⟩, ?_, ?_, fun x => ?_, hfinal⟩
          · exact hchain.frame fun x hx => (hlinks x (hmem' x hx).1).symm
          · exact List.forall_mem_cons.mpr ⟨hb, fun x hx => (hmem' x hx).2⟩
          · rw [hlog, List.append_cons, ← hreleased]
            rfl
          · rw [hinUse x, List.mem_cons, not_or]
            change x ∈ τ.buffers.inUse ∧ _ ↔ _
            rw [herase x, and_assoc, and_left_comm]

/-- If the parked reads are handed out, the loop comes to its end. -/
theorem releaseReads_returns {fuel : Nat} {reads : List Nat}
    (h : Wf cfg σ freeBuffers freeContexts) (hc : c ∈ σ.contexts.inUse)
    (hchain : Chain (fun b => (σ.buffers.memory b).pNext)
      (σ.contexts.memory c).pOutOfOrderReads reads)
    (hmem : ∀ b ∈ reads, b ∈ σ.buffers.inUse) (hfuel : reads.length ≤ fuel) :
    ∃ σ', Pools.releaseReads cfg c fuel σ = some σ' := by
  induction reads generalizing σ freeBuffers fuel with
  | nil =>
      have hnone : (σ.contexts.memory c).pOutOfOrderReads = none := hchain
      cases fuel with
      | zero => exact ⟨σ, if_pos hnone⟩
      | succ fuel => exact ⟨σ, by rw [Pools.releaseReads, hnone]⟩
  | cons b reads ih =>
      have hnodup := List.nodup_cons.mp hchain.nodup
      obtain ⟨hsome, hchain⟩ := hchain
      obtain ⟨hb, hmem⟩ := List.forall_mem_cons.mp hmem
      cases fuel with
      | zero => cases hfuel
      | succ fuel =>
          obtain ⟨τ, hτ⟩ : ∃ τ, σ.ReleaseBuffer cfg b = some τ := by
            obtain ⟨pool, hpool⟩ := exists_give bufferLink (fun _ => .zero) cfg.m_nMaxFreeBuffers hb
            exact ⟨_, Option.map_eq_some_iff.mpr ⟨pool, hpool, rfl⟩⟩
          obtain ⟨⟨free', hwf⟩, hnext, hcτ, -, herase, hlinks⟩ := round_wf h hc hτ
          have hne : ∀ x ∈ reads, x ≠ b := fun x hx => ne_of_mem_of_not_mem hx hnodup.1
          have hrest : ∃ σ', Pools.releaseReads cfg c fuel
              (τ.setReads c (σ.buffers.memory b).pNext) = some σ' := by
            refine ih hwf hcτ ?_ (fun x hx => (herase x).mpr ⟨hne x hx, hmem x hx⟩)
              (Nat.le_of_succ_le_succ hfuel)
            rw [hnext]
            exact hchain.frame fun x hx => hlinks x (hne x hx)
          obtain ⟨σ', hσ'⟩ := hrest
          refine ⟨σ', ?_⟩
          rw [Pools.releaseReads, hsome]
          exact Option.bind_eq_some_iff.mpr ⟨τ, hτ, hσ'⟩

theorem closesocket_same : (σ.closesocket c).buffers = σ.buffers ∧
    (σ.closesocket c).contexts = σ.contexts ∧ (σ.closesocket c).released = σ.released := by
  unfold Pools.closesocket
  split
  · exact ⟨rfl, rfl, rfl⟩
  · exact ⟨rfl, rfl, rfl⟩

theorem ReleaseContext_wf (h : Wf cfg σ freeBuffers freeContexts)
    (hcall : call cfg σ (.ReleaseContext c) = some (σ', r)) :
    (∃ freeBuffers freeContexts, Wf cfg σ' freeBuffers freeContexts) ∧
      Effect σ (.ReleaseContext c) σ' r := by
  obtain ⟨τ, hτ, heq⟩ := Option.map_eq_some_iff.mp hcall
  cases heq
  obtain ⟨ρ, hρ, hgive⟩ := Option.bind_eq_some_iff.mp hτ
  obtain ⟨pool, hpool, rfl⟩ := Option.map_eq_some_iff.mp hgive
  obtain ⟨hbuffers, hcontexts, hreleased⟩ := closesocket_same (σ := σ) (c := c)
  have hclosed : Wf cfg (σ.closesocket c) freeBuffers freeContexts :=
    ⟨hbuffers ▸ h.buffers, hcontexts ▸ h.contexts⟩
  have hinUse : ρ.contexts.inUse = σ.contexts.inUse := by
    rw [releaseReads_inUse hρ, hcontexts]
  have hc : c ∈ σ.contexts.inUse := hinUse ▸ (Option.ite_none_right_eq_some.mp hpool).1
  obtain ⟨reads, freeBuffers', hchain, hmem, hlog, hbuffersInUse, hwf⟩ :=
    releaseReads_wf hclosed (hcontexts ▸ hc) hρ
  obtain ⟨-, huse, -, free', hholds⟩ := hwf.contexts.give (fun r => ⟨r.Lock, rfl⟩) hpool
  rw [hbuffers, hcontexts] at hchain
  rw [hbuffers] at hmem hbuffersInUse
  rw [hreleased] at hlog
  exact ⟨⟨freeBuffers', free', hwf.buffers, hholds⟩, hc, hinUse ▸ huse, reads, hchain,
    hchain.nodup, hmem, hlog, hbuffersInUse⟩

theorem call_wf {x : Call} (h : Wf cfg σ freeBuffers freeContexts)
    (hcall : call cfg σ x = some (σ', r)) :
    (∃ freeBuffers freeContexts, Wf cfg σ' freeBuffers freeContexts) ∧ Effect σ x σ' r := by
  cases x with
  | AllocateBuffer nLen a =>
      obtain ⟨⟨free', hwf⟩, heffect⟩ := AllocateBuffer_wf h hcall
      exact ⟨⟨free', freeContexts, hwf⟩, heffect⟩
  | ReleaseBuffer b =>
      obtain ⟨τ, hτ, heq⟩ := Option.map_eq_some_iff.mp hcall
      cases heq
      obtain ⟨hb, huse, -, -, -, free', hwf⟩ := ReleaseBuffer_wf h hτ
      exact ⟨⟨free', freeContexts, hwf⟩, hb, huse⟩
  | AllocateContext s a =>
      obtain ⟨⟨free', hwf⟩, heffect⟩ := AllocateContext_wf h hcall
      exact ⟨⟨freeBuffers, free', hwf⟩, heffect⟩
  | ReleaseContext c => exact ReleaseContext_wf h hcall
  | writeBuffer b x =>
      obtain ⟨hb, heq⟩ := Option.ite_none_right_eq_some.mp hcall
      cases heq
      have hholds := h.buffers.write (h.buffers.not_free hb) x
      exact ⟨⟨freeBuffers, freeContexts, hholds, h.contexts⟩, trivial⟩
  | writeContext c x =>
      obtain ⟨hc, heq⟩ := Option.ite_none_right_eq_some.mp hcall
      cases heq
      have hholds := h.contexts.write (h.contexts.not_free hc) x
      exact ⟨⟨freeBuffers, freeContexts, h.buffers, hholds⟩, trivial⟩

theorem ReleaseContext_returns {reads : List Nat} (h : Wf cfg σ freeBuffers freeContexts)
    (hc : c ∈ σ.contexts.inUse)
    (hchain : Chain (fun b => (σ.buffers.memory b).pNext)
      (σ.contexts.memory c).pOutOfOrderReads reads)
    (hmem : ∀ b ∈ reads, b ∈ σ.buffers.inUse) :
    ∃ σ', call cfg σ (.ReleaseContext c) = some (σ', .void) := by
  obtain ⟨hbuffers, hcontexts, -⟩ := closesocket_same (σ := σ) (c := c)
  have hclosed : Wf cfg (σ.closesocket c) freeBuffers freeContexts :=
    ⟨hbuffers ▸ h.buffers, hcontexts ▸ h.contexts⟩
  have hfuel : reads.length ≤ σ.buffers.inUse.length :=
    (hchain.nodup.subperm fun b hb => hmem b hb).length_le
  obtain ⟨τ, hτ⟩ := releaseReads_returns hclosed (hcontexts ▸ hc) (hbuffers ▸ hcontexts ▸ hchain)
    (hbuffers ▸ hmem) hfuel
  have hcτ : c ∈ τ.contexts.inUse := by
    rw [releaseReads_inUse hτ, hcontexts]
    exact hc
  obtain ⟨pool, hpool⟩ :=
    exists_give contextLink (fun r => .zero r.Lock) cfg.m_nMaxFreeContexts hcτ
  have hrelease : σ.ReleaseContext cfg c = some { τ with contexts := pool } :=
    Option.bind_eq_some_iff.mpr ⟨τ, hτ, Option.map_eq_some_iff.mpr ⟨pool, hpool, rfl⟩⟩
  exact ⟨_, Option.map_eq_some_iff.mpr ⟨_, hrelease, rfl⟩⟩

/-- After any calls, the lists, the counts and the limits agree, every call does what it is for,
and the release of a context with parked reads that are handed out returns. -/
theorem free_pools {buffers : Nat → CIOCPBuffer} {contexts : Nat → CIOCPContext}
    {calls : List Call} {rs : List Result}
    (hrun : run (call cfg) (.start buffers contexts) calls = some (σ, rs)) :
    (∃ freeBuffers freeContexts, Wf cfg σ freeBuffers freeContexts) ∧
      (∀ x σ' r, call cfg σ x = some (σ', r) → Effect σ x σ' r) ∧
      ∀ c reads, c ∈ σ.contexts.inUse →
        Chain (fun b => (σ.buffers.memory b).pNext) (σ.contexts.memory c).pOutOfOrderReads reads →
        (∀ b ∈ reads, b ∈ σ.buffers.inUse) →
        ∃ σ', call cfg σ (.ReleaseContext c) = some (σ', .void) := by
  have hwf : ∃ freeBuffers freeContexts, Wf cfg σ freeBuffers freeContexts := by
    refine run_invariant (P := fun σ => ∃ freeBuffers freeContexts,
      Wf cfg σ freeBuffers freeContexts) ?_ hrun ?_
    · exact ⟨[], [], holds_empty buffers, holds_empty contexts⟩
    · rintro σ x σ' r ⟨freeBuffers, freeContexts, h⟩ hcall
      exact (call_wf h hcall).1
  obtain ⟨freeBuffers, freeContexts, h⟩ := hwf
  refine ⟨⟨freeBuffers, freeContexts, h⟩, fun x σ' r hcall => (call_wf h hcall).2, ?_⟩
  exact fun c reads hc hchain hmem => ReleaseContext_returns h hc hchain hmem

end

/-- A context is released with two parked reads, of which one is kept, and is used again. -/
def parked : List Call :=
  [.AllocateBuffer 100 (some 1), .AllocateBuffer 200 (some 2), .AllocateContext 7 (some 1),
    .writeContext 1
      { CIOCPContext.zero (.initialized (some 3)) with
        s := 7, nReadSequence := 5, bClosing := true, pOutOfOrderReads := some 2 },
    .writeBuffer 2 { CIOCPBuffer.zero with nSequenceNumber := 3, pNext := some 1 },
    .ReleaseContext 1, .AllocateContext 8 none, .AllocateBuffer 5000 none]

theorem free_pools_parked :
    ∃ σ rs, run (call ⟨1, 1⟩) (.start (fun _ => .zero) fun _ => .zero .zero) parked =
        some (σ, rs) ∧
      rs = [.pointer (some 1), .pointer (some 2), .pointer (some 1), .void, .void, .void,
        .pointer (some 1), .pointer none] ∧
      σ.released = [2, 1] ∧ σ.closed = [7] ∧ σ.buffers.count = 1 ∧ σ.contexts.count = 0 ∧
      ∃ freeBuffers freeContexts, Wf ⟨1, 1⟩ σ freeBuffers freeContexts := by
  have hrun : ∃ σ, run (call ⟨1, 1⟩) (.start (fun _ => .zero) fun _ => .zero .zero) parked =
        some (σ, [.pointer (some 1), .pointer (some 2), .pointer (some 1), .void, .void, .void,
          .pointer (some 1), .pointer none]) ∧
      σ.released = [2, 1] ∧ σ.closed = [7] ∧ σ.buffers.count = 1 ∧ σ.contexts.count = 0 :=
    ⟨_, rfl, rfl, rfl, rfl, rfl⟩
  obtain ⟨σ, hσ, hreleased, hclosed, hbuffers, hcontexts⟩ := hrun
  exact ⟨σ, _, hσ, rfl, hreleased, hclosed, hbuffers, hcontexts, (free_pools hσ).1⟩

/-- With negative limits the counts stay zero, which is more than the limits. -/
theorem counts_exceed :
    ∃ σ rs, run (call ⟨-1, -1⟩) (.start (fun _ => .zero) fun _ => .zero .zero)
        [.AllocateBuffer 100 (some 1), .ReleaseBuffer 1, .AllocateContext 7 (some 1),
          .ReleaseContext 1] = some (σ, rs) ∧
      ¬σ.buffers.count ≤ -1 ∧ ¬σ.contexts.count ≤ -1 :=
  ⟨_, _, rfl, by decide, by decide⟩

end CppWorkspace.CIOCPServer.FreePools
