/-
# `CppWorkspace.TcpServer.Contexts` — operation contexts and their pools

`CAcceptContext`, `CTcpReceiveContext` and `CTcpSendContext` have one pool each,
of one shape: all contexts ever created, and a stack of the idle ones.  A context
is a number, its place in the order of creation.

`got` and `released` are ghost counters: how often a context was handed out and
how often it was given back.  Giving back more often than taking is possible, and
leaves the context in the stack twice; a full stack drops what it is given.

Left out: the overlapped block, the operation mode (it is the kind of the pool),
and the accept and receive buffers, which no function here reads.
-/
import Mathlib.Algebra.Group.Nat.Defs
import Mathlib.Data.List.Nodup
import Mathlib.Data.List.Perm.Subperm
import Mathlib.Logic.Function.Basic

namespace CppWorkspace.TcpServer

/-! ## Contexts -/

/-- A socket handle; `NULL` is 0. -/
abbrev SOCKET := Nat

def INVALID_SOCKET : SOCKET := 2 ^ 32 - 1

def MAX_STACK_CAPACITY : Nat := 32768

/-- The memory block of a send context, in bytes. -/
def DEFAULT_TCP_SEND_CONTEXT_SIZE : Nat := 1024 * 4

/-- The three classes of contexts, a pool each. -/
inductive Kind
  | accept
  | receive
  | send
  deriving DecidableEq, Repr

/-- The fields of a context that the threads use. -/
structure Context where
  m_hSocket : SOCKET
  /-- The bytes of `m_pSendDataBuf->m_pMemoryBlock`. -/
  m_pSendDataBuf : List UInt8
  /-- `m_struSendBuf.len`. -/
  len : Nat

namespace Context

/-- As the constructor leaves it. -/
def new : Context := ⟨0, List.replicate DEFAULT_TCP_SEND_CONTEXT_SIZE 0, 0⟩

def setSocket (x : Context) (h : SOCKET) : Context := { x with m_hSocket := h }

/-- `CTcpSendContext::SetSendParameters`: at most one block is copied, and the
count of what is left is returned.  `m_struSendBuf.len` is set to the whole
count.  A null `dataAddr` is `none`. -/
def SetSendParameters (x : Context) (clientSock : SOCKET) (dataAddr : Option (List UInt8))
    (transferByte : Nat) : Context × Nat :=
  match dataAddr with
  | some data =>
      if transferByte ≠ 0 then
        let tranSize := min transferByte DEFAULT_TCP_SEND_CONTEXT_SIZE
        (⟨clientSock, data.take tranSize ++ x.m_pSendDataBuf.drop tranSize, transferByte⟩,
          transferByte - tranSize)
      else (x.setSocket clientSock, transferByte)
  | none => (x.setSocket clientSock, transferByte)

/-- `CTcpSendContext::ResetContext`; `len` stays. -/
def ResetContext (x : Context) : Context :=
  { x with m_hSocket := 0, m_pSendDataBuf := List.replicate x.m_pSendDataBuf.length 0 }

@[simp] theorem setSendParameters_m_hSocket (x : Context) (h : SOCKET) (d : Option (List UInt8))
    (n : Nat) : (x.SetSendParameters h d n).1.m_hSocket = h := by
  unfold SetSendParameters
  split
  · split <;> rfl
  · rfl

end Context

/-! ## Pools -/

/-- The pool of a class. -/
structure Pool where
  /-- The idle contexts, the top of the stack first. -/
  stack : List Nat
  /-- How many contexts exist. -/
  size : Nat
  context : Nat → Context
  got : Nat → Nat
  released : Nat → Nat

namespace Pool

/-- `InitContextPool`. -/
def InitContextPool (poolSize : Nat) : Pool where
  stack := (List.range poolSize).reverse
  size := poolSize
  context := fun _ => .new
  got := fun _ => 0
  released := fun _ => 0

/-- `f` changed at one context. -/
def write {β : Type} (f : Nat → β) (c : Nat) (v : β) : Nat → β := fun x => if x = c then v else f x

@[simp] theorem write_self {β : Type} (f : Nat → β) (c : Nat) (v : β) : write f c v c = v :=
  if_pos rfl

theorem write_of_ne {β : Type} {f : Nat → β} {c x : Nat} {v : β} (h : x ≠ c) :
    write f c v x = f x :=
  if_neg h

theorem write_eq_self {β : Type} (f : Nat → β) (c : Nat) : write f c (f c) = f := by
  funext x
  by_cases h : x = c
  · rw [h, write_self]
  · rw [write_of_ne h]

/-- `GetContext`: the top of the stack, or a new context. -/
def GetContext (p : Pool) : Nat × Pool :=
  match p.stack with
  | c :: stack => (c, { p with stack := stack, got := write p.got c (p.got c + 1) })
  | [] => (p.size, { p with size := p.size + 1, got := write p.got p.size (p.got p.size + 1) })

/-- `ReleaseContext`; a full stack drops the context. -/
def ReleaseContext (p : Pool) (c : Nat) : Pool :=
  { p with
    stack := if p.stack.length < MAX_STACK_CAPACITY then c :: p.stack else p.stack
    released := write p.released c (p.released c + 1) }

/-- One context is given new contents. -/
def set (p : Pool) (c : Nat) (x : Context) : Pool := { p with context := write p.context c x }

section
variable {p : Pool} {c : Nat} {x : Context}

@[simp] theorem set_stack : (p.set c x).stack = p.stack := rfl
@[simp] theorem set_size : (p.set c x).size = p.size := rfl
@[simp] theorem set_got : (p.set c x).got = p.got := rfl
@[simp] theorem set_released : (p.set c x).released = p.released := rfl
@[simp] theorem set_context_self : (p.set c x).context c = x := write_self ..

theorem set_context_of_ne {d : Nat} (h : d ≠ c) : (p.set c x).context d = p.context d :=
  write_of_ne h

@[simp] theorem releaseContext_size : (p.ReleaseContext c).size = p.size := rfl
@[simp] theorem releaseContext_context : (p.ReleaseContext c).context = p.context := rfl

@[simp] theorem getContext_context : p.GetContext.2.context = p.context := by
  unfold GetContext
  split <;> rfl

end

/-- The three pools, with one of them changed. -/
def setPool (pool : Kind → Pool) (k : Kind) (p : Pool) : Kind → Pool :=
  fun k' => if k' = k then p else pool k'

theorem setPool_self {pool : Kind → Pool} {k : Kind} {p : Pool} : setPool pool k p k = p :=
  if_pos rfl

theorem setPool_of_ne {pool : Kind → Pool} {k k' : Kind} {p : Pool} (h : k' ≠ k) :
    setPool pool k p k' = pool k' :=
  if_neg h

theorem setPool_context {pool : Kind → Pool} {k k' : Kind} {p : Pool} {c c' : Nat} {x : Context}
    (hp : p.context = (pool k).context) :
    (setPool pool k (p.set c x) k').context c' =
      if k' = k ∧ c' = c then x else (pool k').context c' := by
  by_cases hk : k' = k
  · subst hk
    rw [setPool_self]
    by_cases hc : c' = c
    · subst hc
      rw [if_pos ⟨rfl, rfl⟩, set_context_self]
    · rw [if_neg fun h => hc h.2, set_context_of_ne hc, hp]
  · rw [setPool_of_ne hk, if_neg fun h => hk h.1]

/-! ## What a pool knows

`rest c` is how often `c` is elsewhere: attached to an operation, or held. -/

/-- Every context is in the stack or elsewhere, once; those that would not fit
into the stack may be lost. -/
structure Whole (p : Pool) (rest : Nat → Nat) : Prop where
  once : ∀ c, p.stack.count c + rest c ≤ 1
  present : p.size ≤ MAX_STACK_CAPACITY → ∀ c, c < p.size → p.stack.count c + rest c = 1
  absent : ∀ c, p.size ≤ c → p.stack.count c + rest c = 0
  matched : p.size ≤ MAX_STACK_CAPACITY →
    ∀ c, c < p.size → p.stack.count c + p.got c = p.released c + 1
  unused : ∀ c, p.size ≤ c → p.got c = 0 ∧ p.released c = 0

theorem whole_initContextPool (n : Nat) : (InitContextPool n).Whole fun _ => 0 := by
  have hcount : ∀ c, (List.range n).reverse.count c = if c < n then 1 else 0 := by
    intro c
    rw [List.count_reverse]
    by_cases hc : c < n
    · rw [if_pos hc]
      exact List.count_eq_one_of_mem List.nodup_range (List.mem_range.mpr hc)
    · rw [if_neg hc]
      exact List.count_eq_zero_of_not_mem fun h => hc (List.mem_range.mp h)
  refine ⟨?_, ?_, ?_, ?_, ?_⟩
  · intro c
    simp only [InitContextPool, hcount]
    split <;> simp
  · intro _ c hc
    simp only [InitContextPool, hcount] at hc ⊢
    rw [if_pos hc]
  · intro c hc
    simp only [InitContextPool, hcount] at hc ⊢
    rw [if_neg (Nat.not_lt.mpr hc)]
  · intro _ c hc
    simp only [InitContextPool, hcount] at hc ⊢
    rw [if_pos hc]
  · intro c _
    exact ⟨rfl, rfl⟩

section
variable {p : Pool} {rest rest' : Nat → Nat} {c : Nat} {x : Context}

theorem Whole.set (h : p.Whole rest) : (p.set c x).Whole rest :=
  ⟨h.once, h.present, h.absent, h.matched, h.unused⟩

theorem Whole.congr (h : p.Whole rest) (hrest : ∀ d, rest' d = rest d) : p.Whole rest' := by
  obtain rfl : rest' = rest := funext hrest
  exact h

theorem Whole.lt_size (h : p.Whole rest) (hc : 0 < rest c) : c < p.size := by
  by_contra hlt
  have habsent := h.absent c (Nat.not_lt.mp hlt)
  omega

theorem Whole.length_lt (h : p.Whole rest) (hc : 0 < rest c) : p.stack.length < p.size := by
  have hnodup : (c :: p.stack).Nodup := by
    refine List.nodup_cons.mpr ⟨fun hmem => ?_, List.nodup_iff_count_le_one.mpr fun d => ?_⟩
    · have hpos := List.count_pos_iff.mpr hmem
      have honce := h.once c
      omega
    · have honce := h.once d
      omega
  have hsub : c :: p.stack ⊆ List.range p.size := by
    rintro d hd
    rw [List.mem_range]
    rcases List.mem_cons.mp hd with rfl | hd
    · exact h.lt_size hc
    · by_contra hlt
      have hpos := List.count_pos_iff.mpr hd
      have habsent := h.absent d (Nat.not_lt.mp hlt)
      omega
  have hlen := (hnodup.subperm hsub).length_le
  rwa [List.length_cons, List.length_range] at hlen

theorem Whole.getContext (h : p.Whole rest) (hrest : ∀ d, rest' d = rest d +
    if d = p.GetContext.1 then 1 else 0) : p.GetContext.2.Whole rest' := by
  unfold GetContext at hrest ⊢
  split at hrest
  · rename_i c stack hstack
    have hcount : ∀ d, p.stack.count d + rest d = stack.count d + rest' d := by
      intro d
      rw [hstack, hrest, List.count_cons]
      by_cases hd : d = c
      · simp [hd]
        omega
      · simp [hd, Ne.symm hd]
    refine ⟨?_, ?_, ?_, ?_, ?_⟩
    · intro d
      exact hcount d ▸ h.once d
    · intro hsize d hd
      exact hcount d ▸ h.present hsize d hd
    · intro d hd
      exact hcount d ▸ h.absent d hd
    · intro hsize d hd
      have hmatched := h.matched hsize d hd
      rw [hstack, List.count_cons] at hmatched
      by_cases hdc : d = c
      · subst hdc
        simp only [beq_self_eq_true, if_true] at hmatched
        simp only [write_self]
        omega
      · simp only [write_of_ne hdc]
        simpa [Ne.symm hdc] using hmatched
    · intro d hd
      have hdc : d ≠ c := by
        rintro rfl
        have habsent := h.absent d hd
        rw [hstack, List.count_cons_self] at habsent
        omega
      simpa only [write_of_ne hdc] using h.unused d hd
  · rename_i hstack
    have hnew := h.absent p.size (Nat.le_refl _)
    refine ⟨?_, ?_, ?_, ?_, ?_⟩
    · intro d
      have honce := h.once d
      rw [hrest]
      by_cases hd : d = p.size
      · subst hd
        simp only [if_true]
        omega
      · simpa [hd] using honce
    · intro hsize d hd
      rw [hrest]
      by_cases hdc : d = p.size
      · subst hdc
        simp only [if_true]
        omega
      · have hpresent := h.present (by simp only at hsize; omega) d (by simp only at hd; omega)
        simpa [hdc] using hpresent
    · intro d hd
      simp only at hd
      have habsent := h.absent d (by omega)
      have hdc : d ≠ p.size := by omega
      simpa [hrest, hdc] using habsent
    · intro hsize d hd
      by_cases hdc : d = p.size
      · subst hdc
        obtain ⟨hgot, hrel⟩ := h.unused p.size (Nat.le_refl _)
        simp [hstack, hgot, hrel]
      · have hmatched := h.matched (by simp only at hsize; omega) d (by simp only at hd; omega)
        simpa only [write_of_ne hdc] using hmatched
    · intro d hd
      simp only at hd
      have hdc : d ≠ p.size := by omega
      simpa only [write_of_ne hdc] using h.unused d (by omega)

theorem Whole.rest_getContext (h : p.Whole rest) : rest p.GetContext.1 = 0 := by
  unfold GetContext
  split
  · rename_i c stack hstack
    have honce := h.once c
    rw [hstack, List.count_cons_self] at honce
    show rest c = 0
    omega
  · have hnew := h.absent p.size (Nat.le_refl _)
    show rest p.size = 0
    omega

theorem Whole.releaseContext (h : p.Whole rest)
    (hrest : ∀ d, rest d = rest' d + if d = c then 1 else 0) :
    (p.ReleaseContext c).Whole rest' := by
  have hc : 0 < rest c := by
    rw [hrest, if_pos rfl]
    exact Nat.succ_pos _
  have hlt := h.length_lt hc
  have hcount : ∀ d, (c :: p.stack).count d + rest' d = p.stack.count d + rest d := by
    intro d
    rw [hrest, List.count_cons]
    by_cases hd : d = c
    · simp [hd]
      omega
    · simp [hd, Ne.symm hd]
  by_cases hfull : p.stack.length < MAX_STACK_CAPACITY
  · have hstack : (p.ReleaseContext c).stack = c :: p.stack := if_pos hfull
    refine ⟨?_, ?_, ?_, ?_, ?_⟩
    · intro d
      rw [hstack, hcount]
      exact h.once d
    · intro hsize d hd
      rw [hstack, hcount]
      exact h.present hsize d hd
    · intro d hd
      rw [hstack, hcount]
      exact h.absent d hd
    · intro hsize d hd
      have hmatched := h.matched hsize d hd
      rw [hstack, List.count_cons]
      by_cases hdc : d = c
      · subst hdc
        simp only [ReleaseContext, write_self, beq_self_eq_true, if_true]
        omega
      · simp only [ReleaseContext, write_of_ne hdc]
        simpa [Ne.symm hdc] using hmatched
    · intro d hd
      have hdc : d ≠ c := by
        rintro rfl
        exact absurd (h.lt_size hc) (Nat.not_lt.mpr hd)
      simpa only [ReleaseContext, write_of_ne hdc] using h.unused d hd
  · have hstack : (p.ReleaseContext c).stack = p.stack := if_neg hfull
    have hlarge : ¬ (p.ReleaseContext c).size ≤ MAX_STACK_CAPACITY := by
      rw [releaseContext_size]
      omega
    refine ⟨?_, fun hsize => absurd hsize hlarge, ?_, fun hsize => absurd hsize hlarge, ?_⟩
    · intro d
      have honce := h.once d
      have hle := hrest d
      rw [hstack]
      omega
    · intro d hd
      have habsent := h.absent d hd
      have hle := hrest d
      rw [hstack]
      omega
    · intro d hd
      have hdc : d ≠ c := by
        rintro rfl
        exact absurd (h.lt_size hc) (Nat.not_lt.mpr hd)
      simpa only [ReleaseContext, write_of_ne hdc] using h.unused d hd

end

end Pool

end CppWorkspace.TcpServer
