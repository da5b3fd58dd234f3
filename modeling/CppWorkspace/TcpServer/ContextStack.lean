/-
# `CppWorkspace.TcpServer.ContextStack` — `CContextStack`, the stack of the context pools

`m_iStackSize` is the index of the top, `-1` for the empty stack.  Against a list, the top
first, the calls have the same results (`context_stack`), whatever sequence of them is made;
the pools of contexts are modelled with such lists.

Conventions: a pointer is an address, `NULL` is `0`, and an `unsigned long` has 32 bits;
`inBounds` says that no index was outside the array (a ghost field); the units that were not
written yet are any.  A `long` is an `Int`: none is greater than the capacity.
-/
import CppWorkspace.Lib.Refinement
import CppWorkspace.Lib.Stacks

namespace CppWorkspace.ContextStack

open Refinement Stacks

/-! ## The class -/

abbrev Pointer := Nat

def NULL : Pointer := 0

/-- The stack: its array, its capacity and its size. -/
structure CContextStack where
  m_iMaxStackCapacity : Int
  m_iStackSize : Int
  m_struStackUnit : Nat → Pointer
  inBounds : Bool

namespace CContextStack

/-- The constructor. -/
def new (stackCapacity : Int) (units : Nat → Pointer) : CContextStack where
  m_iMaxStackCapacity := stackCapacity
  m_iStackSize := -1
  m_struStackUnit := units
  inBounds := true

/-- An access to `m_struStackUnit[i]`. -/
def touch (σ : CContextStack) (i : Int) : CContextStack :=
  { σ with inBounds := σ.inBounds && decide (0 ≤ i ∧ i < σ.m_iMaxStackCapacity) }

def Push (σ : CContextStack) (pContext : Pointer) : CContextStack × Bool :=
  if pContext = NULL ∨ pContext % 4294967296 = 0xffffffff then (σ, false)
  else if σ.m_iMaxStackCapacity ≤ σ.m_iStackSize + 1 then (σ, false)
  else
    ({ σ.touch (σ.m_iStackSize + 1) with
      m_iStackSize := σ.m_iStackSize + 1
      m_struStackUnit := Function.update σ.m_struStackUnit (σ.m_iStackSize + 1).toNat pContext },
      true)

def Pop (σ : CContextStack) : CContextStack × Pointer :=
  if 0 ≤ σ.m_iStackSize then
    ({ σ.touch σ.m_iStackSize with m_iStackSize := σ.m_iStackSize - 1 },
      σ.m_struStackUnit σ.m_iStackSize.toNat)
  else (σ, NULL)

def IsEmpty (σ : CContextStack) : Bool := decide (σ.m_iStackSize < 0)

def IsFull (σ : CContextStack) : Bool := decide (σ.m_iStackSize + 1 = σ.m_iMaxStackCapacity)

def Size (σ : CContextStack) : Int := σ.m_iStackSize + 1

end CContextStack

/-- The member functions of the stack. -/
inductive Call where
  | Push (pContext : Pointer)
  | Pop
  | IsEmpty
  | IsFull
  | Size
deriving DecidableEq, Repr

/-- What they return. -/
inductive Result where
  | bool (b : Bool)
  | pointer (p : Pointer)
  | long (n : Int)
deriving DecidableEq, Repr

def CContextStack.call (σ : CContextStack) : Call → Option (CContextStack × Result)
  | .Push pContext => some ((σ.Push pContext).1, .bool (σ.Push pContext).2)
  | .Pop => some (σ.Pop.1, .pointer σ.Pop.2)
  | .IsEmpty => some (σ, .bool σ.IsEmpty)
  | .IsFull => some (σ, .bool σ.IsFull)
  | .Size => some (σ, .long σ.Size)

/-! ## The list -/

/-- Neither `NULL` nor `0xffffffff`. -/
def Valid (p : Pointer) : Prop := p ≠ NULL ∧ p % 4294967296 ≠ 0xffffffff

instance (p : Pointer) : Decidable (Valid p) := inferInstanceAs (Decidable (_ ∧ _))

/-- A list with room for `c` pointers. -/
def lifo (c : Int) (l : List Pointer) : Call → Option (List Pointer × Result)
  | .Push p =>
      if Valid p ∧ (l.length : Int) < c then some (p :: l, .bool true) else some (l, .bool false)
  | .Pop => some (l.tail, .pointer (l.head?.getD NULL))
  | .IsEmpty => some (l, .bool (decide (l = [])))
  | .IsFull => some (l, .bool (decide ((l.length : Int) = c)))
  | .Size => some (l, .long l.length)

/-- The stack with capacity `c` holds the list. -/
structure Holds (c : Int) (σ : CContextStack) (l : List Pointer) : Prop where
  capacity : σ.m_iMaxStackCapacity = c
  size : σ.m_iStackSize + 1 = l.length
  room : (l.length : Int) ≤ c
  units : stack σ.m_struStackUnit l.length = l
  valid : ∀ p ∈ l, Valid p
  inBounds : σ.inBounds = true

section
variable {c : Int} {σ : CContextStack} {l : List Pointer} {p : Pointer}

theorem Holds.lower (h : Holds c σ l) : -1 ≤ σ.m_iStackSize := by
  have hsize := h.size
  omega

theorem Holds.upper (h : Holds c σ l) : σ.m_iStackSize < c := by
  have hsize := h.size
  have hroom := h.room
  omega

theorem holds_new (hc : 0 < c) (units : Nat → Pointer) : Holds c (.new c units) [] where
  capacity := rfl
  size := rfl
  room := Int.le_of_lt hc
  units := rfl
  valid := fun _ h => absurd h List.not_mem_nil
  inBounds := rfl

theorem Push_false (h : (σ.Push p).2 = false) : (σ.Push p).1 = σ := by
  unfold CContextStack.Push at h ⊢
  split
  · rfl
  · split
    · rfl
    · rename_i hvalid hroom
      rw [if_neg hvalid, if_neg hroom] at h
      cases h

theorem Push_of_invalid (h : ¬Valid p) : σ.Push p = (σ, false) := by
  refine if_pos ?_
  by_cases hnull : p = NULL
  · exact .inl hnull
  · exact .inr (Decidable.not_not.mp fun hne => h ⟨hnull, hne⟩)

theorem Holds.Push_full (h : Holds c σ l) (hfull : ¬(l.length : Int) < c) :
    σ.Push p = (σ, false) := by
  have hsize := h.size
  have hcapacity := h.capacity
  have hle : σ.m_iMaxStackCapacity ≤ σ.m_iStackSize + 1 := by omega
  unfold CContextStack.Push
  rw [if_pos hle]
  split
  · rfl
  · rfl

theorem Holds.Push (h : Holds c σ l) (hp : Valid p) (hroom : (l.length : Int) < c) :
    (σ.Push p).2 = true ∧ Holds c (σ.Push p).1 (p :: l) := by
  have hsize := h.size
  have hcapacity := h.capacity
  have hvalid : ¬(p = NULL ∨ p % 4294967296 = 0xffffffff) := not_or.mpr hp
  have hlt : ¬σ.m_iMaxStackCapacity ≤ σ.m_iStackSize + 1 := by omega
  rw [CContextStack.Push, if_neg hvalid, if_neg hlt]
  refine ⟨rfl, hcapacity, ?_, ?_, ?_, ?_, ?_⟩
  · change σ.m_iStackSize + 1 + 1 = ((l.length + 1 : Nat) : Int)
    omega
  · change ((l.length + 1 : Nat) : Int) ≤ c
    omega
  · change stack (Function.update σ.m_struStackUnit (σ.m_iStackSize + 1).toNat p)
      (l.length + 1) = p :: l
    rw [hsize, Int.toNat_natCast, stack_push, h.units]
  · exact List.forall_mem_cons.mpr ⟨hp, h.valid⟩
  · change (σ.inBounds && decide (0 ≤ σ.m_iStackSize + 1 ∧
      σ.m_iStackSize + 1 < σ.m_iMaxStackCapacity)) = true
    rw [h.inBounds, Bool.true_and, decide_eq_true_eq]
    omega

theorem Holds.Pop (h : Holds c σ l) : σ.Pop.2 = l.head?.getD NULL ∧ Holds c σ.Pop.1 l.tail := by
  have hsize := h.size
  have hcapacity := h.capacity
  have hroom := h.room
  cases l with
  | nil =>
      have hneg : ¬0 ≤ σ.m_iStackSize := by
        change σ.m_iStackSize + 1 = 0 at hsize
        omega
      rw [CContextStack.Pop, if_neg hneg]
      exact ⟨rfl, h⟩
  | cons p l =>
      have htop : σ.m_iStackSize = l.length := by
        rw [List.length_cons] at hsize
        omega
      have hunits : σ.m_struStackUnit l.length :: stack σ.m_struStackUnit l.length = p :: l :=
        h.units
      obtain ⟨hunit, hrest⟩ := List.cons.inj hunits
      have hpos : 0 ≤ σ.m_iStackSize := by omega
      rw [List.length_cons] at hroom
      rw [CContextStack.Pop, if_pos hpos]
      refine ⟨?_, hcapacity, ?_, ?_, hrest, ?_, ?_⟩
      · change σ.m_struStackUnit σ.m_iStackSize.toNat = p
        rw [htop, Int.toNat_natCast, hunit]
      · change σ.m_iStackSize - 1 + 1 = l.length
        omega
      · change (l.length : Int) ≤ c
        omega
      · exact (List.forall_mem_cons.mp h.valid).2
      · change (σ.inBounds && decide (0 ≤ σ.m_iStackSize ∧
          σ.m_iStackSize < σ.m_iMaxStackCapacity)) = true
        rw [h.inBounds, Bool.true_and, decide_eq_true_eq]
        omega

/-- No `NULL` was pushed, so only the empty stack gives one. -/
theorem Holds.Pop_eq_NULL (h : Holds c σ l) : σ.Pop.2 = NULL ↔ l = [] := by
  rw [h.Pop.1]
  cases l with
  | nil => exact ⟨fun _ => rfl, fun _ => rfl⟩
  | cons p l =>
      constructor
      · intro hp
        exact absurd hp (h.valid p List.mem_cons_self).1
      · intro hl
        cases hl

theorem Holds.IsEmpty (h : Holds c σ l) : σ.IsEmpty = decide (l = []) := by
  have hsize := h.size
  refine decide_eq_decide.mpr ?_
  rw [← List.length_eq_zero_iff]
  omega

theorem Holds.IsFull (h : Holds c σ l) : σ.IsFull = decide ((l.length : Int) = c) := by
  rw [CContextStack.IsFull, h.size, h.capacity]

theorem refines : Refines CContextStack.call (lifo c) (Holds c) := by
  intro σ l call l' r h hcall
  cases call with
  | Push p =>
      by_cases hp : Valid p ∧ (l.length : Int) < c
      · rw [lifo, if_pos hp] at hcall
        cases hcall
        obtain ⟨htrue, hholds⟩ := h.Push hp.1 hp.2
        exact ⟨_, by rw [CContextStack.call, htrue], hholds⟩
      · rw [lifo, if_neg hp] at hcall
        cases hcall
        have hfalse : σ.Push p = (σ, false) := by
          by_cases hvalid : Valid p
          · exact h.Push_full fun hroom => hp ⟨hvalid, hroom⟩
          · exact Push_of_invalid hvalid
        exact ⟨σ, by rw [CContextStack.call, hfalse], h⟩
  | Pop =>
      cases hcall
      obtain ⟨htop, hholds⟩ := h.Pop
      exact ⟨_, by rw [CContextStack.call, htop], hholds⟩
  | IsEmpty =>
      cases hcall
      exact ⟨σ, by rw [CContextStack.call, h.IsEmpty], h⟩
  | IsFull =>
      cases hcall
      exact ⟨σ, by rw [CContextStack.call, h.IsFull], h⟩
  | Size =>
      cases hcall
      exact ⟨σ, by rw [CContextStack.call, CContextStack.Size, h.size], h⟩

/-- The results of all calls are those of the list, of which the stack holds the pointers. -/
theorem context_stack (hc : 0 < c) (units : Nat → Pointer) (calls : List Call) :
    ∃ σ l rs, run CContextStack.call (.new c units) calls = some (σ, rs) ∧
      run (lifo c) [] calls = some (l, rs) ∧ Holds c σ l ∧
      (-1 ≤ σ.m_iStackSize ∧ σ.m_iStackSize < c) ∧
      (σ.Pop.2 = NULL ↔ l = []) ∧ ∀ p, (σ.Push p).2 = false → (σ.Push p).1 = σ := by
  have htotal : ∀ l call, ∃ x, lifo c l call = some x := by
    intro l call
    cases call with
    | Push p => exact ⟨_, (apply_ite some _ _ _).symm⟩
    | Pop | IsEmpty | IsFull | Size => exact ⟨_, rfl⟩
  obtain ⟨l, rs, hl⟩ := exists_run htotal [] calls
  obtain ⟨σ, hσ, hholds⟩ := refines.run (holds_new hc units) hl
  exact ⟨σ, l, rs, hσ, hl, hholds, ⟨hholds.lower, hholds.upper⟩, hholds.Pop_eq_NULL,
    fun p => Push_false⟩

end

/-- Two pointers are stored, and the third is refused, as the two that are not valid. -/
theorem context_stack_two :
    ∃ σ l rs,
      run CContextStack.call (.new 2 fun _ => 7)
          [.Pop, .Push NULL, .Push 4096, .Push 0xffffffff, .Push 8192, .IsFull, .Push 4096,
            .Pop, .Size] =
        some (σ, rs) ∧
      run (lifo 2) []
          [.Pop, .Push NULL, .Push 4096, .Push 0xffffffff, .Push 8192, .IsFull, .Push 4096,
            .Pop, .Size] =
        some (l, rs) ∧
      l = [4096] ∧
      rs = [.pointer NULL, .bool false, .bool true, .bool false, .bool true, .bool true,
        .bool false, .pointer 8192, .long 1] ∧
      Holds 2 σ l := by
  obtain ⟨σ, l, rs, hσ, hl, hholds, -⟩ := context_stack (c := 2) (by decide) (fun _ => 7)
    [.Pop, .Push NULL, .Push 4096, .Push 0xffffffff, .Push 8192, .IsFull, .Push 4096, .Pop,
      .Size]
  have hrun : (l, rs) = ([4096], [.pointer NULL, .bool false, .bool true, .bool false,
      .bool true, .bool true, .bool false, .pointer 8192, .long 1]) := by
    refine Option.some.inj (hl.symm.trans ?_)
    decide
  obtain ⟨rfl, rfl⟩ := Prod.mk.inj hrun
  exact ⟨σ, _, _, hσ, hl, rfl, rfl, hholds⟩

end CppWorkspace.ContextStack
