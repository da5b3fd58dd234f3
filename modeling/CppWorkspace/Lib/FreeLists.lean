/-
# `CppWorkspace.Lib.FreeLists` — objects that are kept to be used again

The objects of a pool are records in memory with a link; the free ones are a list through it.

    take     the first of the list, or a new one from the heap       `Holds.take`
    give     back to the list if there is room, or to the heap       `Holds.give`

Given back to the list, an object is cleared; so the next one that takes it finds a blank one,
as if it came from the heap.  `inUse` is a ghost: what was taken and not given back.
-/
import Mathlib.Data.List.Perm.Basic
import CppWorkspace.Lib.LinkedList

namespace CppWorkspace.FreeLists

open LinkedList

/-- The link of a record. -/
structure Link (R : Type) where
  get : R → Option Nat
  set : R → Option Nat → R
  get_set : ∀ r v, get (set r v) = v
  set_set : ∀ r v w, set (set r v) w = set r w

/-- Objects, a free list through them, and a count. -/
structure Pool (R : Type) where
  memory : Nat → R
  head : Option Nat
  count : Int
  /-- What the heap has returned, and was not given back to it. -/
  heap : List Nat
  inUse : List Nat

variable {R : Type}

namespace Pool

def empty (memory : Nat → R) : Pool R where
  memory := memory
  head := none
  count := 0
  heap := []
  inUse := []

def write (σ : Pool R) (b : Nat) (r : R) : Pool R :=
  { σ with memory := Function.update σ.memory b r }

/-- `a` is what the heap returns if it is asked; it returns no object twice. -/
def take (L : Link R) (fresh : R) (a : Option Nat) (σ : Pool R) : Option (Pool R × Option Nat) :=
  match σ.head with
  | some b =>
      some ({ σ.write b (L.set (σ.memory b) none) with
        head := L.get (σ.memory b)
        count := σ.count - 1
        inUse := b :: σ.inUse }, some b)
  | none =>
      match a with
      | some b =>
          if b ∉ σ.heap then
            some ({ σ.write b fresh with heap := b :: σ.heap, inUse := b :: σ.inUse }, some b)
          else none
      | none => some (σ, none)

/-- `none`: an object is given back that is not in use. -/
def give (L : Link R) (clear : R → R) (limit : Int) (b : Nat) (σ : Pool R) : Option (Pool R) :=
  if b ∈ σ.inUse then
    if σ.count < limit then
      some { σ.write b (L.set (clear (σ.memory b)) σ.head) with
        head := some b
        count := σ.count + 1
        inUse := σ.inUse.erase b }
    else some { σ with heap := σ.heap.erase b, inUse := σ.inUse.erase b }
  else none

end Pool

/-- The free objects are `free`; all but their links is blank.  If the limit is negative, none is
kept. -/
structure Holds (L : Link R) (blank : R → Prop) (limit : Int) (σ : Pool R) (free : List Nat) :
    Prop where
  chain : Chain (fun b => L.get (σ.memory b)) σ.head free
  count : σ.count = free.length
  limit : (free.length : Int) ≤ max limit 0
  nodup : (free ++ σ.inUse).Nodup
  heap : σ.heap.Perm (free ++ σ.inUse)
  blank : ∀ b ∈ free, blank (L.set (σ.memory b) none)

section
variable {L : Link R} {blank : R → Prop} {limit : Int} {σ σ' : Pool R} {free : List Nat} {b : Nat}
  {r : R}

theorem holds_empty (memory : Nat → R) : Holds L blank limit (.empty memory) [] where
  chain := rfl
  count := rfl
  limit := Int.le_max_right limit 0
  nodup := List.nodup_nil
  heap := List.Perm.refl []
  blank := fun _ h => absurd h List.not_mem_nil

theorem Holds.not_free (h : Holds L blank limit σ free) (hb : b ∈ σ.inUse) : b ∉ free :=
  fun hfree => (List.nodup_append.mp h.nodup).2.2 b hfree b hb rfl

theorem Holds.inUse_nodup (h : Holds L blank limit σ free) : σ.inUse.Nodup :=
  (List.nodup_append.mp h.nodup).2.1

theorem write_memory_self : (σ.write b r).memory b = r := Function.update_self ..

theorem write_memory_of_ne {c : Nat} (h : c ≠ b) : (σ.write b r).memory c = σ.memory c :=
  Function.update_of_ne h ..

theorem links_write : (fun c => L.get ((σ.write b r).memory c)) =
    LinkedList.write (fun c => L.get (σ.memory c)) b (L.get r) := by
  funext c
  by_cases hc : c = b
  · subst hc
    rw [write_self, write_memory_self]
  · rw [write_of_ne hc, write_memory_of_ne hc]

theorem Holds.write (h : Holds L blank limit σ free) (hb : b ∉ free) (r : R) :
    Holds L blank limit (σ.write b r) free where
  chain := by
    rw [links_write]
    exact h.chain.write hb _
  count := h.count
  limit := h.limit
  nodup := h.nodup
  heap := h.heap
  blank := by
    intro c hc
    rw [write_memory_of_ne (ne_of_mem_of_not_mem hc hb)]
    exact h.blank c hc

theorem Holds.take_head {l : List Nat} (h : Holds L blank limit σ (b :: l))
    (hchain : Chain (fun c => L.get (σ.memory c)) (L.get (σ.memory b)) l) :
    Holds L blank limit
      { σ.write b (L.set (σ.memory b) none) with
        head := L.get (σ.memory b)
        count := σ.count - 1
        inUse := b :: σ.inUse } l := by
  have hb : b ∉ l := fun hmem =>
    (List.nodup_cons.mp h.nodup).1 (List.mem_append_left _ hmem)
  have hperm : (b :: l ++ σ.inUse).Perm (l ++ b :: σ.inUse) := List.perm_middle.symm
  refine ⟨?_, ?_, ?_, hperm.nodup_iff.mp h.nodup, h.heap.trans hperm, fun c hc => ?_⟩
  · change Chain (fun c => L.get ((σ.write b (L.set (σ.memory b) none)).memory c)) _ l
    rw [links_write]
    exact hchain.write hb _
  · have hcount := h.count
    rw [List.length_cons] at hcount
    change σ.count - 1 = _
    omega
  · have hlimit := h.limit
    rw [List.length_cons] at hlimit
    omega
  · change blank (L.set ((σ.write b _).memory c) none)
    rw [write_memory_of_ne (ne_of_mem_of_not_mem hc hb)]
    exact h.blank c (List.mem_cons_of_mem b hc)

theorem Holds.take_heap (h : Holds L blank limit σ []) (hb : b ∉ σ.heap) (r : R) :
    Holds L blank limit { σ.write b r with heap := b :: σ.heap, inUse := b :: σ.inUse } [] where
  chain := h.chain
  count := h.count
  limit := h.limit
  nodup := List.nodup_cons.mpr ⟨fun hmem => hb (h.heap.mem_iff.mpr hmem), h.nodup⟩
  heap := h.heap.cons b
  blank := fun _ hc => absurd hc List.not_mem_nil

theorem Holds.take {fresh : R} {a p : Option Nat} (h : Holds L blank limit σ free)
    (hfresh : blank fresh) (htake : σ.take L fresh a = some (σ', p)) :
    (p = none ∧ σ' = σ) ∨
      ∃ b free', p = some b ∧ b ∉ σ.inUse ∧ σ'.inUse = b :: σ.inUse ∧ blank (σ'.memory b) ∧
        Holds L blank limit σ' free' := by
  unfold Pool.take at htake
  have hchain := h.chain
  cases hhead : σ.head with
  | some b =>
      rw [hhead] at hchain htake
      cases htake
      obtain ⟨rest, rfl, hrest⟩ := hchain.pop
      have hb : b ∉ σ.inUse := fun hmem => h.not_free hmem List.mem_cons_self
      refine .inr ⟨b, rest, rfl, hb, rfl, ?_, h.take_head hrest⟩
      change blank ((σ.write b (L.set (σ.memory b) none)).memory b)
      rw [write_memory_self]
      exact h.blank b List.mem_cons_self
  | none =>
      rw [hhead] at hchain htake
      obtain rfl : free = [] := hchain.unique rfl
      cases a with
      | none =>
          cases htake
          exact .inl ⟨rfl, rfl⟩
      | some b =>
          obtain ⟨hb, heq⟩ := Option.ite_none_right_eq_some.mp htake
          cases heq
          refine .inr ⟨b, [], rfl, fun hmem => hb (h.heap.mem_iff.mpr hmem), rfl, ?_,
            h.take_heap hb fresh⟩
          change blank ((σ.write b fresh).memory b)
          rw [write_memory_self]
          exact hfresh

theorem exists_give (L : Link R) (clear : R → R) (limit : Int) (hb : b ∈ σ.inUse) :
    ∃ σ', σ.give L clear limit b = some σ' := by
  rw [Pool.give, if_pos hb]
  split
  · exact ⟨_, rfl⟩
  · exact ⟨_, rfl⟩

theorem Holds.give {clear : R → R} (h : Holds L blank limit σ free)
    (hclear : ∀ r, blank (L.set (clear r) none)) (hgive : σ.give L clear limit b = some σ') :
    b ∈ σ.inUse ∧ σ'.inUse = σ.inUse.erase b ∧ (∀ c, c ≠ b → σ'.memory c = σ.memory c) ∧
      ∃ free', Holds L blank limit σ' free' := by
  obtain ⟨hb, heq⟩ := Option.ite_none_right_eq_some.mp hgive
  have hfree := h.not_free hb
  have hperm : (free ++ σ.inUse).Perm (b :: free ++ σ.inUse.erase b) :=
    ((List.perm_cons_erase hb).append_left free).trans List.perm_middle
  have hcount := h.count
  split at heq
  · rename_i hroom
    cases heq
    refine ⟨hb, rfl, fun c hc => write_memory_of_ne hc, b :: free, ?_, ?_, ?_,
      hperm.nodup_iff.mp h.nodup, h.heap.trans hperm, ?_⟩
    · change Chain (fun c => L.get ((σ.write b (L.set (clear (σ.memory b)) σ.head)).memory c))
        (some b) (b :: free)
      rw [links_write, L.get_set]
      exact h.chain.push hfree
    · change σ.count + 1 = ((free.length + 1 : Nat) : Int)
      omega
    · rw [List.length_cons]
      omega
    · refine List.forall_mem_cons.mpr ⟨?_, fun c hc => ?_⟩
      · change blank (L.set ((σ.write b (L.set (clear (σ.memory b)) σ.head)).memory b) none)
        rw [write_memory_self, L.set_set]
        exact hclear _
      · change blank (L.set ((σ.write b _).memory c) none)
        rw [write_memory_of_ne (ne_of_mem_of_not_mem hc hfree)]
        exact h.blank c hc
  · cases heq
    have hheap : (σ.heap.erase b).Perm (free ++ σ.inUse.erase b) := by
      have herase := (h.heap.trans hperm).erase b
      rwa [List.cons_append, List.erase_cons_head] at herase
    exact ⟨hb, rfl, fun c _ => rfl, free, h.chain, hcount, h.limit,
      (List.nodup_cons.mp (hperm.nodup_iff.mp h.nodup)).2, hheap, h.blank⟩

end

end CppWorkspace.FreeLists
