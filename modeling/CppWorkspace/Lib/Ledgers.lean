/-
# `CppWorkspace.Lib.Ledgers` — objects that have one holder at a time

Objects are numbered in the order in which they are made, and each has a state.  A
ledger has an entry `(c, P)` for each object that is still held by someone: a thread, an
operation in flight, a list.  The entry says which object it is and what its holder may
rely on, whatever the others do: its state satisfies `P`.  An object that nobody holds is
`done`.

    make       a new object gets an entry             `Ledger.make`
    change     its holder changes its state           `Ledger.change`
    reword     its holder relies on something else    `Ledger.reword`
    release    its holder leaves it, `done`           `Ledger.release`
-/
import Mathlib.Data.Multiset.UnionInter

namespace CppWorkspace.Ledgers

variable {V : Type}

abbrev Entry (V : Type) := Nat × (V → Prop)

/-- The ledger `held` of the objects `0 .. next - 1`, whose states are `value`. -/
structure Ledger (fresh : V) (done : V → Prop) (held : Multiset (Entry V)) (value : Nat → V)
    (next : Nat) : Prop where
  nodup : (held.map Prod.fst).Nodup
  entries : ∀ p ∈ held, p.2 (value p.1)
  made : ∀ p ∈ held, p.1 < next
  rest : ∀ c < next, c ∉ held.map Prod.fst → done (value c)
  unused : ∀ c, next ≤ c → value c = fresh

theorem mem_sum {α : Type} {l : List (Multiset α)} {p : α} (h : p ∈ l.sum) : ∃ m ∈ l, p ∈ m := by
  induction l with
  | nil => exact absurd h (Multiset.notMem_zero p)
  | cons m l ih =>
      rw [List.sum_cons] at h
      rcases Multiset.mem_add.mp h with hp | hp
      · exact ⟨m, List.mem_cons_self, hp⟩
      · obtain ⟨m', hm', hp'⟩ := ih hp
        exact ⟨m', List.mem_cons_of_mem m hm', hp'⟩

namespace Ledger

variable {fresh : V} {done : V → Prop} {held : Multiset (Entry V)} {value : Nat → V}
  {next c : Nat} {P Q : V → Prop} {y : V}

theorem start : Ledger fresh done 0 (fun _ => fresh) 0 where
  nodup := Multiset.nodup_zero
  entries p hp := absurd hp (Multiset.notMem_zero p)
  made p hp := absurd hp (Multiset.notMem_zero p)
  rest c hc := absurd hc (Nat.not_lt_zero c)
  unused _ _ := rfl

theorem make (h : Ledger fresh done held value next) (hP : P fresh) :
    Ledger fresh done ((next, P) ::ₘ held) value (next + 1) := by
  refine ⟨?_, ?_, ?_, ?_, fun c hc => h.unused c (Nat.le_of_succ_le hc)⟩
  · rw [Multiset.map_cons, Multiset.nodup_cons]
    refine ⟨fun hmem => ?_, h.nodup⟩
    obtain ⟨p, hp, hnext⟩ := Multiset.mem_map.mp hmem
    exact Nat.lt_irrefl _ (hnext ▸ h.made p hp)
  · intro p hp
    rcases Multiset.mem_cons.mp hp with rfl | hp
    · rw [h.unused next (Nat.le_refl _)]
      exact hP
    · exact h.entries p hp
  · intro p hp
    rcases Multiset.mem_cons.mp hp with rfl | hp
    · exact Nat.lt_succ_self _
    · exact Nat.lt_succ_of_lt (h.made p hp)
  · intro c hc hnot
    rw [Multiset.map_cons, Multiset.mem_cons, not_or] at hnot
    exact h.rest c (Nat.lt_of_le_of_ne (Nat.le_of_lt_succ hc) hnot.1) hnot.2

/-- Who holds an object is the only one. -/
theorem exclusive (h : Ledger fresh done ((c, P) ::ₘ held) value next) :
    c ∉ held.map Prod.fst := by
  have hnodup := h.nodup
  rw [Multiset.map_cons, Multiset.nodup_cons] at hnodup
  exact hnodup.1

theorem know (h : Ledger fresh done ((c, P) ::ₘ held) value next) : P (value c) :=
  h.entries _ (Multiset.mem_cons_self _ _)

theorem change (h : Ledger fresh done ((c, P) ::ₘ held) value next) (hQ : Q y) :
    Ledger fresh done ((c, Q) ::ₘ held) (Function.update value c y) next := by
  have hc : c < next := h.made _ (Multiset.mem_cons_self _ _)
  have hne : ∀ p ∈ held, p.1 ≠ c := fun p hp he =>
    h.exclusive (Multiset.mem_map.mpr ⟨p, hp, he⟩)
  refine ⟨?_, ?_, ?_, ?_, ?_⟩
  · rw [Multiset.map_cons]
    exact Multiset.map_cons Prod.fst (c, P) held ▸ h.nodup
  · intro p hp
    rcases Multiset.mem_cons.mp hp with rfl | hp
    · rw [Function.update_self]
      exact hQ
    · rw [Function.update_of_ne (hne p hp)]
      exact h.entries p (Multiset.mem_cons_of_mem hp)
  · intro p hp
    rcases Multiset.mem_cons.mp hp with rfl | hp
    · exact hc
    · exact h.made p (Multiset.mem_cons_of_mem hp)
  · intro d hd hnot
    rw [Multiset.map_cons] at hnot
    have hdc : d ≠ c := fun he => hnot (Multiset.mem_cons.mpr (.inl he))
    rw [Function.update_of_ne hdc]
    exact h.rest d hd (by rwa [Multiset.map_cons])
  · intro d hd
    have hdc : d ≠ c := fun he => by omega
    rw [Function.update_of_ne hdc]
    exact h.unused d hd

theorem reword (h : Ledger fresh done ((c, P) ::ₘ held) value next) (hQ : Q (value c)) :
    Ledger fresh done ((c, Q) ::ₘ held) value next := by
  have hchange := h.change hQ
  rwa [Function.update_eq_self] at hchange

theorem release (h : Ledger fresh done ((c, P) ::ₘ held) value next) (hy : done y) :
    Ledger fresh done held (Function.update value c y) next := by
  have hdone := h.change (Q := done) hy
  refine ⟨?_, fun p hp => hdone.entries p (Multiset.mem_cons_of_mem hp),
    fun p hp => hdone.made p (Multiset.mem_cons_of_mem hp), ?_, hdone.unused⟩
  · have hnodup := h.nodup
    rw [Multiset.map_cons, Multiset.nodup_cons] at hnodup
    exact hnodup.2
  · intro d hd hmem
    by_cases hdc : d = c
    · subst hdc
      rw [Function.update_self]
      exact hy
    · refine hdone.rest d hd ?_
      rw [Multiset.map_cons, Multiset.mem_cons, not_or]
      exact ⟨hdc, hmem⟩

/-- An object has an entry, or nobody holds it. -/
theorem cases (h : Ledger fresh done held value next) (c : Nat) :
    (∃ P, (c, P) ∈ held ∧ P (value c)) ∨ (done (value c) ∧ c ∉ held.map Prod.fst) ∨
      (next ≤ c ∧ value c = fresh) := by
  by_cases hmem : c ∈ held.map Prod.fst
  · obtain ⟨⟨d, P⟩, hp, rfl⟩ := Multiset.mem_map.mp hmem
    exact .inl ⟨P, hp, h.entries _ hp⟩
  · by_cases hc : c < next
    · exact .inr (.inl ⟨h.rest c hc hmem, hmem⟩)
    · exact .inr (.inr ⟨Nat.le_of_not_lt hc, h.unused c (Nat.le_of_not_lt hc)⟩)

end Ledger

end CppWorkspace.Ledgers
