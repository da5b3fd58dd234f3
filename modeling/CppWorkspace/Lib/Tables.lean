/-
# `CppWorkspace.Lib.Tables` — arrays of which the first entries are in use

A table is an array and a counter: the entries below the counter are in use.

    push      a new entry goes to the place of the counter
    remove    the last entry goes to the place of the removed one, and its own
              place is cleared

What is in use is a multiset, `bag`, since removing changes the order.  Parallel
arrays are one table of pairs: `bag` of a function of the index.
-/
import Mathlib.Data.Multiset.Range
import Mathlib.Data.Multiset.MapFold

namespace CppWorkspace.Tables

variable {α β : Type}

/-- The entries below `n`. -/
def bag (f : Nat → α) (n : Nat) : Multiset α := (Multiset.range n).map f

/-- The last of `n` entries goes to place `i`, and `z` to its own. -/
def remove (f : Nat → α) (n i : Nat) (z : α) : Nat → α :=
  Function.update (Function.update f i (f (n - 1))) (n - 1) z

section
variable {f g : Nat → α} {n i k : Nat} {x z : α}

theorem mem_bag : x ∈ bag f n ↔ ∃ k < n, f k = x := by
  simp only [bag, Multiset.mem_map, Multiset.mem_range]

theorem bag_succ : bag f (n + 1) = f n ::ₘ bag f n := by
  rw [bag, Multiset.range_succ, Multiset.map_cons]
  rfl

theorem bag_congr (h : ∀ k < n, f k = g k) : bag f n = bag g n :=
  Multiset.map_congr rfl fun k hk => h k (Multiset.mem_range.mp hk)

theorem bag_inj (h : (bag f n).Nodup) (hi : i < n) (hk : k < n) (heq : f i = f k) : i = k :=
  Multiset.inj_on_of_nodup_map h i (Multiset.mem_range.mpr hi) k (Multiset.mem_range.mpr hk) heq

theorem bag_update (hi : i < n) : f i ::ₘ bag (Function.update f i x) n = x ::ₘ bag f n := by
  induction n with
  | zero => exact absurd hi (Nat.not_lt_zero i)
  | succ n ih =>
      rw [bag_succ, bag_succ]
      rcases Nat.lt_succ_iff_lt_or_eq.mp hi with hlt | rfl
      · rw [Function.update_of_ne hlt.ne', Multiset.cons_swap, ih hlt, Multiset.cons_swap]
      · rw [Function.update_self, Multiset.cons_swap,
          bag_congr fun k hk => Function.update_of_ne hk.ne x f]

theorem bag_remove (hi : i < n) : f i ::ₘ bag (remove f n i z) (n - 1) = bag f n := by
  obtain ⟨m, rfl⟩ := Nat.exists_eq_succ_of_ne_zero (Nat.ne_zero_of_lt hi)
  have hlast : bag (remove f (m + 1) i z) m = bag (Function.update f i (f m)) m :=
    bag_congr fun k hk => Function.update_of_ne hk.ne ..
  change f i ::ₘ bag (remove f (m + 1) i z) m = bag f (m + 1)
  rw [hlast, bag_succ]
  rcases Nat.lt_succ_iff_lt_or_eq.mp hi with hlt | rfl
  · exact bag_update hlt
  · rw [bag_congr fun k hk => Function.update_of_ne hk.ne ..]

theorem remove_apply (hk : k < n - 1) :
    remove f n i z k = if k = i then f (n - 1) else f k := by
  rw [remove, Function.update_of_ne hk.ne, Function.update_apply]

/-- An entry that stays comes from one that was in use, and not from the removed one: from
the same in all parallel arrays. -/
theorem remove_from (hi : i < n) (hk : k < n - 1) :
    ∃ j < n, j ≠ i ∧ (j = k ∨ k = i ∧ j = n - 1) ∧
      ∀ {γ : Type} (f : Nat → γ) (z : γ), remove f n i z k = f j := by
  by_cases hki : k = i
  · exact ⟨n - 1, by omega, by omega, .inr ⟨hki, rfl⟩, fun f z =>
      (remove_apply hk).trans (if_pos hki)⟩
  · exact ⟨k, by omega, hki, .inl rfl, fun f z => (remove_apply hk).trans (if_neg hki)⟩

end

theorem remove_pair {f : Nat → α} {g : Nat → β} {n i : Nat} {y : α} {z : β} :
    (fun k => (remove f n i y k, remove g n i z k)) =
      remove (fun k => (f k, g k)) n i (y, z) := by
  funext k
  by_cases hlast : k = n - 1
  · simp only [remove, hlast, Function.update_self]
  · by_cases hki : k = i
    · simp only [remove, hki, Function.update_of_ne (hki ▸ hlast), Function.update_self]
    · simp only [remove, Function.update_of_ne hlast, Function.update_of_ne hki]

end CppWorkspace.Tables
