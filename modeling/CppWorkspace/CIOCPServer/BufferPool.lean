/-
# `CppWorkspace.CIOCPServer.BufferPool` — the two lists that share `pNext`

`AllocateBuffer`, `ReleaseBuffer`, `InsertPendingAccept` and
`RemovePendingAccept`, on the memory of links itself.  A buffer has one link
`pNext`, which threads the free list while the buffer is free, the list of
pending accepts while an accept is posted, and some `pOutOfOrderReads` while it
is parked there.

* each function is one critical section, so here each is one function;
* a buffer is named by its address; `heap` holds what `HeapAlloc` has returned
  and `HeapFree` has not taken back, and an address in it is not returned again;
* `HEAP_ZERO_MEMORY`, `memset` and `AllocateBuffer` itself clear `pNext`;
* the counters are `int` and `long`, here `Int`.

`Pool s free pend rest` says what the two lists are and that every buffer is in
exactly one place: free, pending, or in the hands of somebody (`rest`).
-/
import Mathlib.Data.List.Count
import Mathlib.Data.List.Perm.Basic
import CppWorkspace.Lib.LinkedList

namespace CppWorkspace.CIOCPServer

open LinkedList

/-- The free list, the list of pending accepts and the links of both. -/
structure Buffers where
  pNext : Nat → Option Nat
  pFreeBufferList : Option Nat
  nFreeBufferCount : Int
  pPendingAccepts : Option Nat
  nPendingAcceptCount : Int
  heap : List Nat

namespace Buffers

/-- `AllocateBuffer` for a length that a buffer can have; `a` is what `HeapAlloc`
returns if it is called.  `none`: an address in use is not returned. -/
def allocateBuffer (s : Buffers) (a : Option Nat) : Option (Buffers × Option Nat) :=
  match s.pFreeBufferList, a with
  | some b, _ => some
      ({ s with
          pNext := write s.pNext b none
          pFreeBufferList := s.pNext b
          nFreeBufferCount := s.nFreeBufferCount - 1 }, some b)
  | none, none => some (s, none)
  | none, some b =>
      if b ∈ s.heap then none
      else some ({ s with pNext := write s.pNext b none, heap := b :: s.heap }, some b)

/-- `ReleaseBuffer`: onto the free list, or back to the heap. -/
def releaseBuffer (s : Buffers) (nMaxFreeBuffers : Int) (b : Nat) : Buffers :=
  if s.nFreeBufferCount < nMaxFreeBuffers then
    { s with
      pNext := write s.pNext b s.pFreeBufferList
      pFreeBufferList := some b
      nFreeBufferCount := s.nFreeBufferCount + 1 }
  else { s with heap := s.heap.erase b }

/-- `InsertPendingAccept`.  Into the empty list the buffer goes with the link it has. -/
def insertPendingAccept (s : Buffers) (b : Nat) : Buffers :=
  match s.pPendingAccepts with
  | none =>
      { s with
        pPendingAccepts := some b
        nPendingAcceptCount := s.nPendingAcceptCount + 1 }
  | some p =>
      { s with
        pNext := write s.pNext b (some p)
        pPendingAccepts := some b
        nPendingAcceptCount := s.nPendingAcceptCount + 1 }

/-- `RemovePendingAccept`.  The search gets as many rounds as the counter says,
which is enough (`Pool.remove`). -/
def removePendingAccept (s : Buffers) (b : Nat) : Option Buffers :=
  (remove s.pNext s.pPendingAccepts b s.nPendingAcceptCount.toNat).map fun (next, p, bResult) =>
    { s with
      pNext := next
      pPendingAccepts := p
      nPendingAcceptCount :=
        if bResult then s.nPendingAcceptCount - 1 else s.nPendingAcceptCount }

/-- No buffers at all. -/
def empty : Buffers where
  pNext := fun _ => none
  pFreeBufferList := none
  nFreeBufferCount := 0
  pPendingAccepts := none
  nPendingAcceptCount := 0
  heap := []

end Buffers

/-- The two lists and their counters, and everything else that was allocated. -/
structure Pool (s : Buffers) (free pend rest : List Nat) : Prop where
  free_chain : Chain s.pNext s.pFreeBufferList free
  pend_chain : Chain s.pNext s.pPendingAccepts pend
  free_count : s.nFreeBufferCount = free.length
  pend_count : s.nPendingAcceptCount = pend.length
  owned : ∀ b, s.heap.count b = free.count b + pend.count b + rest.count b
  once : ∀ b, s.heap.count b ≤ 1

namespace Pool

variable {s : Buffers} {free pend rest rest' : List Nat} {b : Nat}

theorem empty : Pool .empty [] [] [] where
  free_chain := rfl
  pend_chain := rfl
  free_count := rfl
  pend_count := rfl
  owned := fun _ => rfl
  once := fun _ => Nat.zero_le 1

theorem perm (h : Pool s free pend rest) (hr : ∀ b, rest'.count b = rest.count b) :
    Pool s free pend rest' :=
  { h with owned := fun b => by rw [h.owned, hr] }

/-! ## A buffer is in one place -/

theorem not_free (h : Pool s free pend rest) (hb : b ∈ pend ∨ b ∈ rest) : b ∉ free := by
  intro hf
  have hfree := List.count_pos_iff.mpr hf
  have howned := h.owned b
  have honce := h.once b
  rcases hb with hb | hb <;> have hpos := List.count_pos_iff.mpr hb <;> omega

theorem not_pend (h : Pool s free pend rest) (hb : b ∈ free ∨ b ∈ rest) : b ∉ pend := by
  intro hp
  have hpend := List.count_pos_iff.mpr hp
  have howned := h.owned b
  have honce := h.once b
  rcases hb with hb | hb <;> have hpos := List.count_pos_iff.mpr hb <;> omega

theorem not_mem_of_not_heap (h : Pool s free pend rest) (hb : b ∉ s.heap) :
    b ∉ free ∧ b ∉ pend ∧ b ∉ rest := by
  have howned := h.owned b
  rw [List.count_eq_zero.mpr hb] at howned
  refine ⟨?_, ?_, ?_⟩ <;> refine List.count_eq_zero.mp ?_ <;> omega

theorem free_nodup (h : Pool s free pend rest) : free.Nodup :=
  List.nodup_iff_count_le_one.mpr fun b => by
    have howned := h.owned b
    have honce := h.once b
    omega

theorem pend_nodup (h : Pool s free pend rest) : pend.Nodup :=
  List.nodup_iff_count_le_one.mpr fun b => by
    have howned := h.owned b
    have honce := h.once b
    omega

/-! ## What the functions do -/

/-- A write to the link of a buffer that is in nobody's list. -/
theorem link (h : Pool s free pend rest) (hb : b ∈ rest) (v : Option Nat) :
    Pool { s with pNext := write s.pNext b v } free pend rest :=
  { h with
    free_chain := h.free_chain.write (h.not_free (.inr hb)) v
    pend_chain := h.pend_chain.write (h.not_pend (.inr hb)) v }

theorem allocate (h : Pool s free pend rest) {a : Option Nat} {s' : Buffers}
    (hs : s.allocateBuffer a = some (s', some b)) :
    (∃ free', Pool s' free' pend (b :: rest)) ∧ s'.pNext b = none ∧
      (∀ x, x ≠ b → s'.pNext x = s.pNext x) ∧ b ∉ rest := by
  cases hc : s.pFreeBufferList with
  | some c =>
      simp only [Buffers.allocateBuffer, hc, Option.some.injEq, Prod.mk.injEq] at hs
      obtain ⟨rfl, rfl⟩ := hs
      obtain ⟨free', rfl, hfree⟩ := (hc ▸ h.free_chain).pop
      have hnd := List.nodup_cons.mp h.free_nodup
      have hrest : c ∉ rest := fun hr => h.not_free (.inr hr) List.mem_cons_self
      refine ⟨⟨free', ?_, ?_, ?_, h.pend_count, fun x => ?_, h.once⟩, write_self,
        fun x hx => write_of_ne hx, hrest⟩
      · exact hfree.write hnd.1 none
      · exact h.pend_chain.write (h.not_pend (.inl List.mem_cons_self)) none
      · have hcount := h.free_count
        simp only [List.length_cons] at hcount ⊢
        omega
      · have howned := h.owned x
        simp only [List.count_cons] at howned ⊢
        omega
  | none =>
      cases a with
      | none => simp [Buffers.allocateBuffer, hc] at hs
      | some c =>
          simp only [Buffers.allocateBuffer, hc] at hs
          split at hs
          · cases hs
          · rename_i hheap
            simp only [Option.some.injEq, Prod.mk.injEq] at hs
            obtain ⟨rfl, rfl⟩ := hs
            obtain ⟨hf, hp, hr⟩ := h.not_mem_of_not_heap hheap
            have hempty : free = [] := by
              have hchain := h.free_chain
              rw [hc] at hchain
              cases free with
              | nil => rfl
              | cons x l => cases hchain.1
            subst hempty
            refine ⟨⟨[], rfl, h.pend_chain.write hp none, h.free_count, h.pend_count,
              fun x => ?_, fun x => ?_⟩, write_self, fun x hx => write_of_ne hx, hr⟩
            · have howned := h.owned x
              simp only [List.count_cons] at howned ⊢
              omega
            · have honce := h.once x
              by_cases hx : c = x
              · subst hx
                simp [List.count_eq_zero.mpr hheap]
              · simpa [List.count_cons_of_ne hx] using honce

theorem allocate_none {a : Option Nat} {s' : Buffers}
    (hs : s.allocateBuffer a = some (s', none)) : s' = s := by
  cases hc : s.pFreeBufferList with
  | some c => simp [Buffers.allocateBuffer, hc] at hs
  | none =>
      cases a with
      | none => simpa [Buffers.allocateBuffer, hc] using hs.symm
      | some c =>
          simp only [Buffers.allocateBuffer, hc] at hs
          split at hs <;> simp at hs

theorem release (h : Pool s free pend rest) (hb : b ∈ rest) (nMaxFreeBuffers : Int) :
    (∃ free', Pool (s.releaseBuffer nMaxFreeBuffers b) free' pend (rest.erase b)) ∧
      ∀ x, x ≠ b → (s.releaseBuffer nMaxFreeBuffers b).pNext x = s.pNext x := by
  have hrest : ∀ x, rest.count x = (b :: rest.erase b).count x :=
    (List.perm_cons_erase hb).count_eq
  unfold Buffers.releaseBuffer
  split
  · refine ⟨⟨b :: free, ?_, ?_, ?_, h.pend_count, fun x => ?_, h.once⟩,
      fun x hx => write_of_ne hx⟩
    · exact h.free_chain.push (h.not_free (.inr hb))
    · exact h.pend_chain.write (h.not_pend (.inr hb)) _
    · have hcount := h.free_count
      simp only [List.length_cons]
      omega
    · have howned := h.owned x
      rw [hrest x] at howned
      simp only [List.count_cons] at howned ⊢
      omega
  · have hheap : b ∈ s.heap := by
      have hpos := List.count_pos_iff.mpr hb
      have howned := h.owned b
      exact List.count_pos_iff.mp (by omega)
    refine ⟨⟨free, h.free_chain, h.pend_chain, h.free_count, h.pend_count, fun x => ?_,
      fun x => ?_⟩, fun x _ => rfl⟩
    · have howned := h.owned x
      rw [hrest x, (List.perm_cons_erase hheap).count_eq x] at howned
      simp only [List.count_cons] at howned
      show (s.heap.erase b).count x = _
      omega
    · exact Nat.le_trans (List.erase_sublist.count_le x) (h.once x)

theorem insert (h : Pool s free pend rest) (hb : b ∈ rest) (hnext : s.pNext b = none) :
    Pool (s.insertPendingAccept b) free (b :: pend) (rest.erase b) ∧
      ∀ x, x ≠ b → (s.insertPendingAccept b).pNext x = s.pNext x := by
  have howned : ∀ x, s.heap.count x
      = free.count x + (b :: pend).count x + (rest.erase b).count x := by
    intro x
    have howned := h.owned x
    rw [(List.perm_cons_erase hb).count_eq x] at howned
    simp only [List.count_cons] at howned ⊢
    omega
  have hcount : s.nPendingAcceptCount + 1 = ((b :: pend).length : Int) := by
    have hcount := h.pend_count
    simp only [List.length_cons]
    omega
  unfold Buffers.insertPendingAccept
  split
  · rename_i hp
    have hchain := h.pend_chain
    rw [hp] at hchain
    refine ⟨⟨h.free_chain, ⟨rfl, ?_⟩, h.free_count, hcount, howned, h.once⟩, fun x _ => rfl⟩
    rw [hnext]
    exact hchain
  · rename_i p hp
    refine ⟨⟨h.free_chain.write (h.not_free (.inr hb)) _, ?_, h.free_count, hcount, howned,
      h.once⟩, fun x hx => write_of_ne hx⟩
    have hpush := h.pend_chain.push (h.not_pend (.inr hb))
    rw [hp] at hpush
    exact hpush

/-- `RemovePendingAccept` of a pending buffer returns, and takes it out. -/
theorem remove (h : Pool s free pend rest) (hb : b ∈ pend) :
    ∃ s', s.removePendingAccept b = some s' ∧ Pool s' free (pend.erase b) (b :: rest) ∧
      ∀ x, x ∉ pend → s'.pNext x = s.pNext x := by
  have hfuel : pend.length ≤ s.nPendingAcceptCount.toNat := by
    rw [h.pend_count]
    exact Nat.le_of_eq (Int.toNat_natCast _).symm
  obtain ⟨next, p, hrem, hchain, hframe⟩ := remove_mem h.pend_chain h.pend_nodup hb hfuel
  refine ⟨{ s with
      pNext := next
      pPendingAccepts := p
      nPendingAcceptCount := s.nPendingAcceptCount - 1 }, ?_, ?_, hframe⟩
  · simp [Buffers.removePendingAccept, hrem]
  · refine ⟨?_, hchain, h.free_count, ?_, fun x => ?_, h.once⟩
    · refine h.free_chain.frame fun x hx => hframe x fun hp => h.not_free (.inl hp) hx
    · have hlen := List.length_erase_of_mem hb
      have hpos := List.length_pos_of_mem hb
      have hcount := h.pend_count
      show s.nPendingAcceptCount - 1 = _
      omega
    · have howned := h.owned x
      rw [(List.perm_cons_erase hb).count_eq x] at howned
      simp only [List.count_cons] at howned ⊢
      omega

end Pool

end CppWorkspace.CIOCPServer
