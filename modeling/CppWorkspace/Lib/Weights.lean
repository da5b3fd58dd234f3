/-
# `CppWorkspace.Lib.Weights` — counting over a pool of activities

The concurrent machines of this development keep their activities (calls in
progress) in a list; a step replaces one entry.  What an invariant has to say
about the pool is nearly always a sum: how many entries stand at a position,
how many hold a resource.  `weight f l` is that sum, and the lemmas here say
how it moves under the only four operations a step performs: replace, append,
erase, insert.  All are stated as additions, so `omega` finishes.
-/
import Mathlib.Data.List.Basic
import Mathlib.Algebra.BigOperators.Ring.Finset
import Mathlib.Algebra.Order.BigOperators.Group.Finset

namespace CppWorkspace.Weights

variable {α : Type}

/-- The total weight of a list. -/
def weight (f : α → Nat) : List α → Nat
  | [] => 0
  | a :: l => f a + weight f l

section
variable (f : α → Nat)

@[simp] theorem weight_nil : weight f [] = 0 := rfl

@[simp] theorem weight_cons (a : α) (l : List α) : weight f (a :: l) = f a + weight f l := rfl

@[simp] theorem weight_append (l m : List α) : weight f (l ++ m) = weight f l + weight f m := by
  induction l with
  | nil => simp
  | cons a l ih => simp [ih, Nat.add_assoc]

theorem weight_set {l : List α} {i : Nat} {a : α} (b : α) (h : l[i]? = some a) :
    weight f (l.set i b) + f a = weight f l + f b := by
  induction l generalizing i with
  | nil => simp at h
  | cons c l ih =>
      cases i with
      | zero =>
          simp only [List.getElem?_cons_zero, Option.some.injEq] at h
          subst h
          simp only [List.set_cons_zero, weight_cons]
          omega
      | succ i =>
          have := ih (i := i) (by simpa using h)
          simp only [List.set_cons_succ, weight_cons]
          omega

theorem weight_eraseIdx {l : List α} {i : Nat} {a : α} (h : l[i]? = some a) :
    weight f (l.eraseIdx i) + f a = weight f l := by
  induction l generalizing i with
  | nil => simp at h
  | cons c l ih =>
      cases i with
      | zero =>
          simp only [List.getElem?_cons_zero, Option.some.injEq] at h
          subst h
          simp only [List.eraseIdx_cons_zero, weight_cons]
          omega
      | succ i =>
          have := ih (i := i) (by simpa using h)
          simp only [List.eraseIdx_cons_succ, weight_cons]
          omega

variable {f}

theorem weight_pos {l : List α} {a : α} (h : a ∈ l) : f a ≤ weight f l := by
  induction l with
  | nil => simp at h
  | cons c l ih =>
      rcases List.mem_cons.mp h with rfl | h
      · simp
      · have := ih h
        simp only [weight_cons]
        omega

theorem weight_eq_zero {l : List α} : weight f l = 0 ↔ ∀ a ∈ l, f a = 0 := by
  induction l with
  | nil => simp
  | cons c l ih => simp [ih]

theorem exists_of_weight_pos {l : List α} (h : 0 < weight f l) : ∃ a ∈ l, 0 < f a := by
  by_contra hn
  have h0 : weight f l = 0 :=
    weight_eq_zero.mpr fun a ha => by
      by_contra hne
      exact hn ⟨a, ha, Nat.pos_of_ne_zero hne⟩
  omega

theorem weight_two {l : List α} {i j : Nat} {a b : α} (hij : i ≠ j) (hi : l[i]? = some a)
    (hj : l[j]? = some b) : f a + f b ≤ weight f l := by
  have h := weight_eraseIdx f hi
  have hb : b ∈ l.eraseIdx i := by
    rw [List.mem_eraseIdx_iff_getElem?]
    exact ⟨j, fun h => hij h.symm, hj⟩
  have := weight_pos (f := f) hb
  omega

theorem weight_le {g : α → Nat} {l : List α} (h : ∀ a ∈ l, f a ≤ g a) :
    weight f l ≤ weight g l := by
  induction l with
  | nil => exact Nat.le_refl 0
  | cons c l ih =>
      have h₁ := h c List.mem_cons_self
      have h₂ := ih fun a ha => h a (List.mem_cons_of_mem c ha)
      simp only [weight_cons]
      omega

theorem weight_congr {g : α → Nat} {l : List α} (h : ∀ a ∈ l, f a = g a) :
    weight f l = weight g l :=
  Nat.le_antisymm (weight_le fun a ha => (h a ha).le) (weight_le fun a ha => (h a ha).ge)

theorem weight_flatMap {β : Type} (g : β → List α) (l : List β) :
    weight f (l.flatMap g) = weight (fun b => weight f (g b)) l := by
  induction l with
  | nil => rfl
  | cons b l ih => simp [ih]

/-- Double counting: the entries of each key below `N`, summed over the keys. -/
theorem weight_by_key (p : α → Prop) [DecidablePred p] (key : α → Nat) (N : Nat) (l : List α) :
    ∑ x ∈ Finset.range N, weight (fun a => if p a ∧ key a = x then 1 else 0) l
      = weight (fun a => if p a ∧ key a < N then 1 else 0) l := by
  induction l with
  | nil => simp
  | cons c l ih =>
      simp only [weight_cons, Finset.sum_add_distrib, ih]
      congr 1
      by_cases hp : p c
      · simp only [hp, true_and]
        rw [Finset.sum_ite_eq]
        simp
      · simp [hp]

end

/-! ## Contributions

The same moves for lists instead of numbers: `l.flatMap f` is what the entries
contribute, in the order of the pool. -/

section
variable {β : Type} {f : α → List β} {l : List α} {i : Nat} {a : α}

theorem flatMap_set_same {b : α} (h : l[i]? = some a) (hf : f b = f a) :
    (l.set i b).flatMap f = l.flatMap f := by
  induction l generalizing i with
  | nil => rfl
  | cons c l ih =>
      cases i with
      | zero =>
          simp only [List.getElem?_cons_zero, Option.some.injEq] at h
          subst h
          simp [hf]
      | succ i =>
          simp only [List.set_cons_succ, List.flatMap_cons]
          rw [ih (by simpa using h)]

theorem flatMap_single (h : l[i]? = some a) (ho : ∀ j x, j ≠ i → l[j]? = some x → f x = []) :
    l.flatMap f = f a := by
  induction l generalizing i with
  | nil => cases h
  | cons c l ih =>
      cases i with
      | zero =>
          simp only [List.getElem?_cons_zero, Option.some.injEq] at h
          subst h
          have hl : l.flatMap f = [] := by
            rw [List.flatMap_eq_nil_iff]
            intro x hx
            obtain ⟨j, hj⟩ := List.mem_iff_getElem?.mp hx
            exact ho (j + 1) x (by omega) (by simpa using hj)
          simp [hl]
      | succ i =>
          rw [List.flatMap_cons, ho 0 c (by omega) rfl, List.nil_append]
          exact ih (by simpa using h) fun j x hj hx => ho (j + 1) x (by omega) (by simpa using hx)

end

end CppWorkspace.Weights
