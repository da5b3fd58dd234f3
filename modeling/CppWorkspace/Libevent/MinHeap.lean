/-
# `CppWorkspace.Libevent.MinHeap` — the timeouts of the events

`minheap-internal.h` keeps the events that have a timeout in an array, each with its index
(`min_heap_idx`), so that one can be taken out of the middle.  What it is for is a set of
events of which the first one is found:

    Implements min_heap.call Allows Fine Represents        `min_heaps_implement`

so in every run (`min_heap_run`).  The timeouts are of any linear order, as `evutil_timercmp` is
one on `struct timeval`; `ev_timeout` is set each time an event is put into the heap, and stays
while it is there.

While an event is put in its place there is a hole in the array; what holds then is stated of
the array with the event in the hole (`Upwards`, `Downwards`).

The numbers of events are not reduced: there is no room for 2^28 of them in the memory of a
process, so neither `n` nor `a * sizeof *p` wraps.
-/
import CppWorkspace.Lib.Refinement
import Mathlib.Order.Lattice
import Mathlib.Data.Set.Basic

namespace CppWorkspace.Libevent

/-- An event stands for its `struct event`. -/
abbrev EventId := Nat

/-- The array, and the indices of the events; `none` stands for -1. -/
structure min_heap where
  p : Nat → EventId
  n : Nat
  a : Nat
  min_heap_idx : EventId → Option Nat

namespace min_heap

/-- `(p[i] = e)->min_heap_idx = i`. -/
def put (s : min_heap) (i : Nat) (e : EventId) : min_heap :=
  { s with p := Function.update s.p i e, min_heap_idx := Function.update s.min_heap_idx e (some i) }

section
variable {τ : Type} [LinearOrder τ] (timeout : EventId → τ)

/-- `min_heap_elem_greater`. -/
def elem_greater (a b : EventId) : Bool := timeout b < timeout a

def shift_up (s : min_heap) (hole_index : Nat) (e : EventId) : min_heap :=
  if hole_index ≠ 0 ∧ elem_greater timeout (s.p ((hole_index - 1) / 2)) e then
    shift_up (s.put hole_index (s.p ((hole_index - 1) / 2))) ((hole_index - 1) / 2) e
  else s.put hole_index e
termination_by hole_index
decreasing_by omega

/-- The child of the hole with the smaller timeout. -/
def minChild (s : min_heap) (hole_index : Nat) : Nat :=
  let min_child := 2 * (hole_index + 1)
  if min_child = s.n ∨ elem_greater timeout (s.p min_child) (s.p (min_child - 1)) then
    min_child - 1
  else min_child

theorem minChild_spec {s : min_heap} {h : Nat} (hn : 2 * (h + 1) ≤ s.n) :
    h < minChild timeout s h ∧ minChild timeout s h < s.n ∧
      (minChild timeout s h - 1) / 2 = h ∧ ∀ i < s.n, i ≠ 0 → (i - 1) / 2 = h →
        timeout (s.p (minChild timeout s h)) ≤ timeout (s.p i) := by
  simp only [minChild, elem_greater, decide_eq_true_eq]
  split
  · rename_i hc
    refine ⟨by omega, by omega, by omega, fun i hi h0 hpar => ?_⟩
    rcases Nat.lt_or_ge i (2 * (h + 1)) with hlt | hge
    · obtain rfl : i = 2 * (h + 1) - 1 := by omega
      exact le_rfl
    · obtain rfl : i = 2 * (h + 1) := by omega
      exact (hc.resolve_left (by omega)).le
  · rename_i hc
    obtain ⟨hne, hle⟩ := not_or.mp hc
    refine ⟨by omega, by omega, by omega, fun i hi h0 hpar => ?_⟩
    rcases Nat.lt_or_ge i (2 * (h + 1)) with hlt | hge
    · obtain rfl : i = 2 * (h + 1) - 1 := by omega
      exact not_lt.mp hle
    · obtain rfl : i = 2 * (h + 1) := by omega
      exact le_rfl

def shift_down (s : min_heap) (hole_index : Nat) (e : EventId) : min_heap :=
  if _h : 2 * (hole_index + 1) ≤ s.n then
    if elem_greater timeout e (s.p (minChild timeout s hole_index)) then
      shift_down (s.put hole_index (s.p (minChild timeout s hole_index)))
        (minChild timeout s hole_index) e
    else s.put hole_index e
  else s.put hole_index e
termination_by s.n - hole_index
decreasing_by
  have hspec := minChild_spec timeout _h
  show s.n - _ < s.n - _
  omega

/-- `none` stands for -1; `fails`: `mm_realloc` does. -/
def reserve (s : min_heap) (n : Nat) (fails : Bool) : Option min_heap :=
  if s.a < n then
    if fails then none
    else
      let a := if s.a ≠ 0 then s.a * 2 else 8
      some { s with a := if a < n then n else a }
  else some s

def push (s : min_heap) (e : EventId) (fails : Bool) : min_heap × Int :=
  match s.reserve (s.n + 1) fails with
  | none => (s, -1)
  | some s => (shift_up timeout { s with n := s.n + 1 } s.n e, 0)

def pop (s : min_heap) : min_heap × Option EventId :=
  if s.n ≠ 0 then
    let e := s.p 0
    let s := shift_down timeout { s with n := s.n - 1 } 0 (s.p (s.n - 1))
    ({ s with min_heap_idx := Function.update s.min_heap_idx e none }, some e)
  else (s, none)

def erase (s : min_heap) (e : EventId) : min_heap × Int :=
  match s.min_heap_idx e with
  | none => (s, -1)
  | some i =>
      let last := s.p (s.n - 1)
      let s := { s with n := s.n - 1 }
      let s :=
        if 0 < i ∧ elem_greater timeout (s.p ((i - 1) / 2)) last then shift_up timeout s i last
        else shift_down timeout s i last
      ({ s with min_heap_idx := Function.update s.min_heap_idx e none }, 0)

end

/-! ## The hole -/

/-- The indices are right, apart from that of `d`, which is not in the array. -/
structure Indexed (s : min_heap) (d : Option EventId) : Prop where
  iff : ∀ x, some x ≠ d → ∀ i, i < s.n ∧ s.p i = x ↔ s.min_heap_idx x = some i
  gone : ∀ i < s.n, some (s.p i) ≠ d

section
variable {τ : Type} [LinearOrder τ] {timeout : EventId → τ} {s s' : min_heap} {h c i n : Nat}
  {e x : EventId} {d : Option EventId}

theorem Indexed.move (hs : (s.put h e).Indexed d) (hh : h < s.n) (hc : c < s.n) (hne : c ≠ h) :
    ((s.put h (s.p c)).put c e).Indexed d := by
  have hc' := hs.gone c hc
  have hh' := hs.gone h hh
  simp only [put, Function.update_self, Function.update_of_ne hne] at hc' hh'
  have he := fun i => hs.iff e hh' i
  have hp := fun i => hs.iff (s.p c) hc' i
  refine ⟨fun x hx i => ?_, fun i hi => ?_⟩
  · have hi := hs.iff x hx i
    simp only [put, Function.update_apply] at *
    grind
  · have hi := hs.gone i hi
    simp only [put, Function.update_apply] at *
    grind

theorem Indexed.isSome_move (hs : (s.put h e).Indexed d) (hc : c < s.n) (hne : c ≠ h)
    (x : EventId) :
    (((s.put h (s.p c)).put c e).min_heap_idx x).isSome = ((s.put h e).min_heap_idx x).isSome := by
  have hc' := hs.gone c hc
  simp only [put, Function.update_of_ne hne] at hc'
  have hp := (hs.iff (s.p c) hc' c).mp ⟨hc, Function.update_of_ne hne ..⟩
  simp only [put, Function.update_apply] at *
  grind

/-- The event in the hole `h` may be too small. -/
structure Upwards (timeout : EventId → τ) (s : min_heap) (h : Nat) : Prop where
  order : ∀ i < s.n, i ≠ 0 → i ≠ h → timeout (s.p ((i - 1) / 2)) ≤ timeout (s.p i)
  above : ∀ i < s.n, i ≠ 0 → (i - 1) / 2 = h → h ≠ 0 →
    timeout (s.p ((h - 1) / 2)) ≤ timeout (s.p i)

/-- The event in the hole `h` may be too big. -/
structure Downwards (timeout : EventId → τ) (s : min_heap) (h : Nat) : Prop where
  order : ∀ i < s.n, i ≠ 0 → (i - 1) / 2 ≠ h → timeout (s.p ((i - 1) / 2)) ≤ timeout (s.p i)
  above : ∀ i < s.n, i ≠ 0 → (i - 1) / 2 = h → h ≠ 0 →
    timeout (s.p ((h - 1) / 2)) ≤ timeout (s.p i)

def Ordered (timeout : EventId → τ) (s : min_heap) : Prop :=
  ∀ i < s.n, i ≠ 0 → timeout (s.p ((i - 1) / 2)) ≤ timeout (s.p i)

theorem Upwards.move (hs : Upwards timeout (s.put h e) h) (h0 : h ≠ 0) (hh : h < s.n)
    (hlt : timeout e < timeout (s.p ((h - 1) / 2))) :
    Upwards timeout ((s.put h (s.p ((h - 1) / 2))).put ((h - 1) / 2) e) ((h - 1) / 2) := by
  have hpar := hs.order ((h - 1) / 2)
  have horder := hs.order
  have habove := hs.above
  simp only [put, Function.update_apply] at hpar horder habove
  constructor
  · intro i hi i0 hne
    have ho := horder i hi i0
    have ha := habove i hi i0
    simp only [put, Function.update_apply]
    grind
  · intro i hi i0 heq hne
    have ho := horder i hi i0
    have hp := hpar (by omega) hne (by omega)
    simp only [put, Function.update_apply]
    grind

theorem Downwards.move (hs : Downwards timeout (s.put h e) h) (hc : c < s.n)
    (hpar : (c - 1) / 2 = h) (hlt : timeout (s.p c) < timeout e) (hhc : h < c)
    (hmin : ∀ i < s.n, i ≠ 0 → (i - 1) / 2 = h → timeout (s.p c) ≤ timeout (s.p i)) :
    Downwards timeout ((s.put h (s.p c)).put c e) c := by
  have horder := hs.order
  have habove := hs.above
  simp only [put, Function.update_apply] at horder habove
  constructor
  · intro i hi i0 hne
    have ho := horder i hi i0
    have ha := habove c hc (by omega) hpar
    have hm := hmin i hi i0
    simp only [put, Function.update_apply]
    grind
  · intro i hi i0 heq hne
    have ho := horder i hi i0
    simp only [put, Function.update_apply]
    grind

theorem shift_up_spec (hs : (s.put h e).Indexed d) (ho : Upwards timeout (s.put h e) h)
    (hh : h < s.n) :
    (shift_up timeout s h e).Indexed d ∧ Ordered timeout (shift_up timeout s h e) ∧
      (shift_up timeout s h e).n = s.n ∧ (shift_up timeout s h e).a = s.a ∧
      ∀ x, ((shift_up timeout s h e).min_heap_idx x).isSome =
        ((s.put h e).min_heap_idx x).isSome := by
  induction h using Nat.strongRecOn generalizing s with
  | ind h ih =>
      rw [shift_up]
      split
      · rename_i hgo
        obtain ⟨h0, hlt⟩ := hgo
        have hlt : timeout e < timeout (s.p ((h - 1) / 2)) := of_decide_eq_true hlt
        have hc : (h - 1) / 2 < s.n := by omega
        have hne : (h - 1) / 2 ≠ h := by omega
        obtain ⟨hindexed, hordered, hn, ha, hsome⟩ :=
          ih ((h - 1) / 2) (by omega) (hs.move hh hc hne) (ho.move h0 hh hlt) hc
        exact ⟨hindexed, hordered, hn, ha, fun x => (hsome x).trans (hs.isSome_move hc hne x)⟩
      · rename_i hstop
        refine ⟨hs, fun i hi i0 => ?_, rfl, rfl, fun _ => rfl⟩
        rcases eq_or_ne i h with rfl | hne
        · have hle := not_lt.mp fun hlt => hstop ⟨i0, decide_eq_true hlt⟩
          simp only [put, Function.update_self]
          rwa [Function.update_of_ne (by omega)]
        · exact ho.order i hi i0 hne

theorem shift_down_spec (hs : (s.put h e).Indexed d) (ho : Downwards timeout (s.put h e) h)
    (hh : h < s.n) :
    (shift_down timeout s h e).Indexed d ∧ Ordered timeout (shift_down timeout s h e) ∧
      (shift_down timeout s h e).n = s.n ∧ (shift_down timeout s h e).a = s.a ∧
      ∀ x, ((shift_down timeout s h e).min_heap_idx x).isSome =
        ((s.put h e).min_heap_idx x).isSome := by
  induction hk : s.n - h using Nat.strongRecOn generalizing s h with
  | ind k ih =>
      subst hk
      rw [shift_down]
      split
      · rename_i hn
        obtain ⟨hhc, hc, hpar, hmin⟩ := minChild_spec timeout hn
        split
        · rename_i hgo
          obtain ⟨hindexed, hordered, hn, ha, hsome⟩ := ih _
            (show s.n - minChild timeout s h < s.n - h by omega) (hs.move hh hc hhc.ne')
            (ho.move hc hpar (of_decide_eq_true hgo) hhc hmin) hc rfl
          exact ⟨hindexed, hordered, hn, ha, fun x =>
            (hsome x).trans (hs.isSome_move hc hhc.ne' x)⟩
        · rename_i hstop
          refine ⟨hs, fun i hi i0 => ?_, rfl, rfl, fun _ => rfl⟩
          rcases eq_or_ne ((i - 1) / 2) h with heq | hne
          · have hle := not_lt.mp fun hlt => hstop (decide_eq_true hlt)
            simp only [put, heq, Function.update_self]
            rw [Function.update_of_ne (by omega)]
            exact hle.trans (hmin i hi i0 heq)
          · exact ho.order i hi i0 hne
      · rename_i hn
        refine ⟨hs, fun i hi i0 => ho.order i hi i0 ?_, rfl, rfl, fun _ => rfl⟩
        have hi : i < s.n := hi
        omega

/-! ## The operations -/

/-- The heap with its indices and its order, in the memory it has. -/
structure Inv (timeout : EventId → τ) (s : min_heap) : Prop where
  indexed : s.Indexed none
  order : Ordered timeout s
  room : s.n ≤ s.a

theorem Indexed.isSome_iff (hs : s.Indexed none) (x : EventId) :
    (s.min_heap_idx x).isSome ↔ ∃ i < s.n, s.p i = x := by
  rw [Option.isSome_iff_exists]
  exact exists_congr fun i => (hs.iff x (by simp) i).symm

theorem reserve_spec (s : min_heap) (n : Nat) (fails : Bool) :
    (s.reserve n fails = none ∧ fails = true) ∨
      ∃ a, s.reserve n fails = some { s with a := a } ∧ n ≤ a := by
  rw [reserve]
  split
  · split
    · exact .inl ⟨rfl, by assumption⟩
    · refine .inr ⟨_, rfl, ?_⟩
      generalize (if s.a ≠ 0 then s.a * 2 else 8) = a
      split <;> omega
  · exact .inr ⟨s.a, rfl, by omega⟩

theorem Inv.push (hs : Inv timeout s) (he : s.min_heap_idx e = none) (fails : Bool) :
    (min_heap.push timeout s e fails = (s, -1) ∧ fails = true) ∨
      ∃ s', min_heap.push timeout s e fails = (s', 0) ∧ Inv timeout s' ∧
        ∀ x, (s'.min_heap_idx x).isSome ↔ (s.min_heap_idx x).isSome ∨ x = e := by
  rcases reserve_spec s (s.n + 1) fails with ⟨hnone, hfails⟩ | ⟨a, hsome, ha⟩
  · exact .inl ⟨by rw [min_heap.push, hnone], hfails⟩
  · let t : min_heap := { s with a := a, n := s.n + 1 }
    have hindexed : (t.put s.n e).Indexed none := by
      refine ⟨fun x hx i => ?_, fun i _ => by simp⟩
      have hi := hs.indexed.iff x (by simp) i
      have hei := hs.indexed.iff e (by simp) i
      simp only [put, t, Function.update_apply]
      grind
    have hup : Upwards timeout (t.put s.n e) s.n := by
      constructor
      · intro i hi i0 hne
        have hi : i < s.n + 1 := hi
        have ho := hs.order i (by omega) i0
        simp only [put, t]
        rwa [Function.update_of_ne (by omega), Function.update_of_ne hne]
      · intro i hi i0 heq hne
        have hi : i < s.n + 1 := hi
        omega
    obtain ⟨hindexed', horder, hn, ha', hmem⟩ := shift_up_spec hindexed hup (Nat.lt_succ_self s.n)
    refine .inr ⟨shift_up timeout t s.n e, by rw [min_heap.push, hsome], ⟨hindexed', horder, ?_⟩,
      fun x => ?_⟩
    · rw [hn, ha']
      exact ha
    · rw [hmem x]
      simp only [put, t, Function.update_apply]
      grind

theorem Indexed.forget (hs : s.Indexed (some e)) :
    ({ s with min_heap_idx := Function.update s.min_heap_idx e none } : min_heap).Indexed none := by
  refine ⟨fun x _ i => ?_, fun i _ => by simp⟩
  rcases eq_or_ne x e with rfl | hne
  · have hgone := hs.gone i
    simp only [Function.update_self]
    grind
  · simp only [Function.update_of_ne hne]
    exact hs.iff x (by simpa using hne) i

theorem Inv.erase (hs : Inv timeout s) (he : s.min_heap_idx e = some h) :
    ∃ s', min_heap.erase timeout s e = (s', 0) ∧ Inv timeout s' ∧
      ∀ x, (s'.min_heap_idx x).isSome ↔ (s.min_heap_idx x).isSome ∧ x ≠ e := by
  obtain ⟨hh, hp⟩ := (hs.indexed.iff e (by simp) h).mpr he
  have hroom := hs.room
  have hlast := (hs.indexed.iff (s.p (s.n - 1)) (by simp) (s.n - 1)).mp ⟨by omega, rfl⟩
  let t : min_heap := { s with n := s.n - 1 }
  obtain ⟨r, hr, hindexed, horder, hn, ha, hmem⟩ : ∃ r, (if 0 < h ∧
        elem_greater timeout (t.p ((h - 1) / 2)) (s.p (s.n - 1)) then
        shift_up timeout t h (s.p (s.n - 1)) else shift_down timeout t h (s.p (s.n - 1))) = r ∧
      r.Indexed (some e) ∧ Ordered timeout r ∧ r.n = s.n - 1 ∧ r.a = s.a ∧
      ∀ x, (r.min_heap_idx x).isSome = ((t.put h (s.p (s.n - 1))).min_heap_idx x).isSome := by
    rcases eq_or_ne h (s.n - 1) with rfl | hne
    · -- it is the last one itself
      have hnot : ¬(0 < s.n - 1 ∧ elem_greater timeout (t.p ((s.n - 1 - 1) / 2))
          (s.p (s.n - 1)) = true) := fun hup =>
        absurd (hs.order (s.n - 1) hh (by omega)) (not_le.mpr (of_decide_eq_true hup.2))
      refine ⟨_, if_neg hnot, ?_⟩
      rw [shift_down, dif_neg (show ¬2 * (s.n - 1 + 1) ≤ s.n - 1 by omega)]
      refine ⟨⟨fun x hx i => ?_, fun i hi => ?_⟩, fun i hi i0 => ?_, rfl, rfl, fun _ => rfl⟩
      · have hi := hs.indexed.iff x (by simp) i
        simp only [put, t, Function.update_apply]
        grind
      · have hi' := hs.indexed.iff (s.p i) (by simp) i
        simp only [put, t, Function.update_apply] at hi ⊢
        grind
      · have hi : i < s.n - 1 := hi
        simp only [put, t]
        rw [Function.update_of_ne (by omega), Function.update_of_ne (by omega)]
        exact hs.order i (by omega) i0
    · have hhole : (t.put h (s.p (s.n - 1))).Indexed (some e) := by
        refine ⟨fun x hx i => ?_, fun i hi => ?_⟩
        · have hi := hs.indexed.iff x (by simp) i
          simp only [put, t, Function.update_apply]
          grind
        · have hi' := hs.indexed.iff (s.p i) (by simp) i
          simp only [put, t, Function.update_apply] at hi ⊢
          grind
      have hht : h < t.n := show h < s.n - 1 by omega
      split
      · rename_i hup
        obtain ⟨h0, hlt⟩ := hup
        have hlt : timeout (s.p (s.n - 1)) < timeout (s.p ((h - 1) / 2)) := of_decide_eq_true hlt
        refine ⟨_, rfl, shift_up_spec hhole ⟨fun i hi i0 hne => ?_, fun i hi i0 heq h0 => ?_⟩ hht⟩
        · have hi : i < s.n - 1 := hi
          have ho := hs.order i (by omega) i0
          have hoh := hs.order h hh (by omega)
          simp only [put, t, Function.update_apply]
          grind
        · have hi : i < s.n - 1 := hi
          have ho := hs.order i (by omega) i0
          have hoh := hs.order h hh (by omega)
          simp only [put, t, Function.update_apply]
          grind
      · rename_i hup
        refine ⟨_, rfl, shift_down_spec hhole ⟨fun i hi i0 hne => ?_, fun i hi i0 heq h0 => ?_⟩ hht⟩
        · have hi : i < s.n - 1 := hi
          have ho := hs.order i (by omega) i0
          have hle : 0 < h → timeout (s.p ((h - 1) / 2)) ≤ timeout (s.p (s.n - 1)) := fun h0 =>
            not_lt.mp fun hlt => hup ⟨h0, decide_eq_true hlt⟩
          simp only [put, t, Function.update_apply]
          grind
        · have hi : i < s.n - 1 := hi
          have ho := hs.order i (by omega) i0
          have hoh := hs.order h hh (by omega)
          simp only [put, t, Function.update_apply]
          grind
  refine ⟨{ r with min_heap_idx := Function.update r.min_heap_idx e none }, ?_,
    ⟨hindexed.forget, horder, ?_⟩, fun x => ?_⟩
  · rw [min_heap.erase, he, ← hr]
  · show r.n ≤ r.a
    omega
  · have hx := hmem x
    simp only [put, t, Function.update_apply] at hx ⊢
    grind

theorem Ordered.first (ho : Ordered timeout s) (hi : i < s.n) :
    timeout (s.p 0) ≤ timeout (s.p i) := by
  induction i using Nat.strongRecOn with
  | ind i ih =>
      rcases eq_or_ne i 0 with rfl | i0
      · exact le_rfl
      · exact (ih ((i - 1) / 2) (by omega) (by omega)).trans (ho i hi i0)

theorem Inv.pop_eq (hs : Inv timeout s) (hn : s.n ≠ 0) :
    pop timeout s = ((min_heap.erase timeout s (s.p 0)).1, some (s.p 0)) := by
  have hidx := (hs.indexed.iff (s.p 0) (by simp) 0).mp ⟨by omega, rfl⟩
  simp [pop, min_heap.erase, hidx, hn]

end

/-! ## What it is for -/

/-- The heap and the `ev_timeout` of the events. -/
structure Timers (τ : Type) extends min_heap where
  ev_timeout : EventId → τ

/-- What is called, with the timeout of the event that is put into the heap. -/
inductive Call (τ : Type) where
  | push (e : EventId) (tv : τ) (fails : Bool)
  | top
  | pop
  | erase (e : EventId)
deriving DecidableEq, Repr

/-- What a function returns: a number, or an event. -/
abbrev Reply := Int × Option EventId

/-- `min_heap_top`. -/
def top (s : min_heap) : Option EventId := if s.n ≠ 0 then some (s.p 0) else none

section
variable {τ : Type} [LinearOrder τ]

def call (s : Timers τ) : Call τ → Option (Timers τ × Reply)
  | .push e tv fails =>
      let ev_timeout := Function.update s.ev_timeout e tv
      let (heap, r) := push ev_timeout s.tomin_heap e fails
      some (⟨heap, ev_timeout⟩, r, none)
  | .top => some (s, 0, s.top)
  | .pop =>
      let (heap, e) := pop s.ev_timeout s.tomin_heap
      some (⟨heap, s.ev_timeout⟩, 0, e)
  | .erase e =>
      let (heap, r) := erase s.ev_timeout s.tomin_heap e
      some (⟨heap, s.ev_timeout⟩, r, none)

/-- `e` is one of the first events that are pending, or there is none. -/
def First (S : EventId → Option τ) : Option EventId → Prop
  | none => ∀ x, S x = none
  | some e => ∃ t, S e = some t ∧ ∀ x u, S x = some u → t ≤ u

/-- What a call may do to the events that are pending, each with its timeout. -/
def Allows (S : EventId → Option τ) (c : Call τ) (r : Reply) (S' : EventId → Option τ) : Prop :=
  match c with
  | .push e tv fails =>
      fails = true ∧ r = (-1, none) ∧ S' = S ∨
        r = (0, none) ∧ S' = Function.update S e (some tv)
  | .top => First S r.2 ∧ S' = S
  | .pop => First S r.2 ∧ S' = fun x => if r.2 = some x then none else S x
  | .erase e =>
      S e ≠ none ∧ r = (0, none) ∧ S' = Function.update S e none ∨
        S e = none ∧ r = (-1, none) ∧ S' = S

/-- An event that is in the heap is not put into it. -/
def Fine (s : Timers τ) : Call τ → Prop
  | .push e _ _ => s.min_heap_idx e = none
  | _ => True

def Represents (s : Timers τ) (S : EventId → Option τ) : Prop :=
  Inv s.ev_timeout s.tomin_heap ∧ ∀ x, S x = (s.min_heap_idx x).map fun _ => s.ev_timeout x

variable {s : Timers τ} {S : EventId → Option τ} {h : min_heap} {e : EventId} {t : τ}
  {ev_timeout : EventId → τ}

theorem Inv.set_timeout (hs : Inv ev_timeout h) (he : h.min_heap_idx e = none) (t : τ) :
    Inv (Function.update ev_timeout e t) h := by
  have hne : ∀ i < h.n, h.p i ≠ e := fun i hi hp => by
    rw [(hs.indexed.iff e (by simp) i).mp ⟨hi, hp⟩] at he
    cases he
  refine ⟨hs.indexed, fun i hi i0 => ?_, hs.room⟩
  rw [Function.update_of_ne (hne _ (by omega)), Function.update_of_ne (hne i hi)]
  exact hs.order i hi i0

theorem Represents.eq_none (hs : Represents s S) : S e = none ↔ s.min_heap_idx e = none := by
  rw [hs.2 e, Option.map_eq_none_iff]

theorem Represents.eq_some (hs : Represents s S) :
    S e = some t ↔ (∃ i < s.n, s.p i = e) ∧ s.ev_timeout e = t := by
  rw [hs.2 e, ← hs.1.indexed.isSome_iff, Option.isSome_iff_exists]
  simp

theorem Represents.first (hs : Represents s S) : First S s.top := by
  rw [top]
  split
  · rename_i hn
    refine ⟨_, hs.eq_some.mpr ⟨⟨0, Nat.pos_of_ne_zero hn, rfl⟩, rfl⟩, fun x u hx => ?_⟩
    obtain ⟨⟨i, hi, rfl⟩, rfl⟩ := hs.eq_some.mp hx
    exact hs.1.order.first hi
  · rename_i hn
    intro x
    refine Option.eq_none_iff_forall_ne_some.mpr fun u hx => ?_
    obtain ⟨⟨i, hi, -⟩, -⟩ := hs.eq_some.mp hx
    omega

theorem Represents.erase (hs : Represents s S) (he : S e ≠ none) :
    ∃ h, min_heap.erase s.ev_timeout s.tomin_heap e = (h, 0) ∧
      Represents ⟨h, s.ev_timeout⟩ (Function.update S e none) := by
  obtain ⟨i, hi⟩ := Option.ne_none_iff_exists'.mp (mt hs.eq_none.mpr he)
  obtain ⟨h, herase, hinv, hmem⟩ := hs.1.erase hi
  refine ⟨h, herase, hinv, fun x => ?_⟩
  have hx := hmem x
  rcases eq_or_ne x e with rfl | hne
  · have hnone : h.min_heap_idx x = none := by
      rw [← Option.not_isSome_iff_eq_none, hx]
      simp
    simp [hnone]
  · rw [Function.update_of_ne hne, hs.2 x]
    cases hold : s.min_heap_idx x <;> cases hnew : h.min_heap_idx x <;>
      simp_all

/-- The heap is a set of events, each with its timeout, and the first one at hand. -/
theorem min_heaps_implement :
    Refinement.Implements (call (τ := τ)) Allows Fine Represents := by
  intro s S c hs hf
  cases c with
  | push e tv fails =>
      have hidx : s.min_heap_idx e = none := hf
      have hset := hs.1.set_timeout hidx tv
      rcases hset.push hidx fails with ⟨hpush, hfails⟩ | ⟨h, hpush, hinv, hmem⟩
      · refine ⟨⟨s.tomin_heap, Function.update s.ev_timeout e tv⟩, (-1, none), S,
          by rw [call, hpush], .inl ⟨hfails, rfl, rfl⟩, hset, fun x => ?_⟩
        rcases eq_or_ne x e with rfl | hne
        · simp [hidx, hs.eq_none.mpr hidx]
        · simp only [hs.2 x, Function.update_of_ne hne]
      · refine ⟨⟨h, Function.update s.ev_timeout e tv⟩, (0, none), _, by rw [call, hpush],
          .inr ⟨rfl, rfl⟩, hinv, fun x => ?_⟩
        have hx := hmem x
        rcases eq_or_ne x e with rfl | hne
        · obtain ⟨i, hi⟩ := Option.isSome_iff_exists.mp (hx.mpr (.inr rfl))
          simp [hi]
        · simp only [Function.update_of_ne hne, hs.2 x]
          cases hold : s.min_heap_idx x <;> cases hnew : h.min_heap_idx x <;> simp_all
  | top => exact ⟨s, _, S, rfl, ⟨hs.first, rfl⟩, hs⟩
  | pop =>
      have hfirst := hs.first
      rw [top] at hfirst
      split at hfirst
      · rename_i hn
        obtain ⟨t, ht, hmin⟩ := hfirst
        obtain ⟨h, herase, hrep⟩ := hs.erase (e := s.p 0) (by simp [ht])
        have hset : Function.update S (s.p 0) none =
            fun x => if some (s.p 0) = some x then none else S x := by
          funext x
          simp [Function.update_apply, eq_comm]
        exact ⟨_, (0, some (s.p 0)), _, by rw [call, hs.1.pop_eq hn, herase],
          ⟨⟨t, ht, hmin⟩, rfl⟩, hset ▸ hrep⟩
      · rename_i hn
        have hpop : pop s.ev_timeout s.tomin_heap = (s.tomin_heap, none) := if_neg hn
        exact ⟨s, (0, none), S, by rw [call, hpop], ⟨hfirst, by simp⟩, hs⟩
  | erase e =>
      rcases eq_or_ne (S e) none with he | he
      · have hsame : min_heap.erase s.ev_timeout s.tomin_heap e = (s.tomin_heap, -1) := by
          rw [min_heap.erase, hs.eq_none.mp he]
        exact ⟨s, (-1, none), S, by rw [call, hsame], .inr ⟨he, rfl, rfl⟩, hs⟩
      · obtain ⟨h, herase, hrep⟩ := hs.erase he
        exact ⟨_, (0, none), _, by rw [call, herase], .inl ⟨he, rfl, rfl⟩, hrep⟩

/-- `min_heap_ctor`, and all events are as `min_heap_elem_init` leaves them. -/
def ctor (p : Nat → EventId) (ev_timeout : EventId → τ) : Timers τ where
  p := p
  n := 0
  a := 0
  min_heap_idx := fun _ => none
  ev_timeout := ev_timeout

theorem ctor_represents (p : Nat → EventId) (ev_timeout : EventId → τ) :
    Represents (ctor p ev_timeout) fun _ => none := by
  refine ⟨⟨⟨fun x _ i => ?_, fun i hi => absurd hi (Nat.not_lt_zero i)⟩,
    fun i hi => absurd hi (Nat.not_lt_zero i), Nat.le_refl 0⟩, fun x => rfl⟩
  simp [ctor]

/-- An event is put into the heap again only after it has been erased; those of `B` may be
there. -/
def ErasedFirst : List EventId → List (Call τ) → Prop
  | _, [] => True
  | B, .push e _ _ :: cs => e ∉ B ∧ ErasedFirst (e :: B) cs
  | B, .erase e :: cs => ErasedFirst (B.filter (· ≠ e)) cs
  | B, .top :: cs => ErasedFirst B cs
  | B, .pop :: cs => ErasedFirst B cs

theorem fineRun_of_erasedFirst {B : List EventId} {cs : List (Call τ)} (hs : Represents s S)
    (hB : ∀ x, S x ≠ none → x ∈ B) (hcs : ErasedFirst B cs) :
    Refinement.FineRun call Fine s cs := by
  induction cs generalizing s S B with
  | nil => trivial
  | cons c cs ih =>
      have hf : Fine s c := by
        cases c with
        | push e tv fails => exact hs.eq_none.mp (not_not.mp (mt (hB e) hcs.1))
        | top => trivial
        | pop => trivial
        | erase e => trivial
      refine ⟨hf, fun s' r hcall => ?_⟩
      obtain ⟨_, _, S', hcall', hallows, hs'⟩ := min_heaps_implement s S c hs hf
      cases hcall'.symm.trans hcall
      cases c with
      | push e tv fails =>
          refine ih hs' (fun x hx => ?_) hcs.2
          rcases hallows with ⟨-, -, rfl⟩ | ⟨-, rfl⟩
          · exact List.mem_cons_of_mem e (hB x hx)
          · rcases eq_or_ne x e with rfl | hne
            · exact List.mem_cons_self
            · rw [Function.update_of_ne hne] at hx
              exact List.mem_cons_of_mem e (hB x hx)
      | top =>
          obtain ⟨-, rfl⟩ := hallows
          exact ih hs' hB hcs
      | pop =>
          obtain ⟨-, rfl⟩ := hallows
          exact ih hs' (fun x hx => hB x fun hnone => hx (by simp [hnone])) hcs
      | erase e =>
          refine ih hs' (fun x hx => List.mem_filter.mpr ?_) hcs
          rcases hallows with ⟨-, -, rfl⟩ | ⟨he, -, rfl⟩
          · rcases eq_or_ne x e with rfl | hne
            · simp at hx
            · rw [Function.update_of_ne hne] at hx
              exact ⟨hB x hx, by simpa using hne⟩
          · have hne : x ≠ e := by
              rintro rfl
              exact hx he
            exact ⟨hB x hx, by simpa using hne⟩

/-- Whatever is called, in whatever order, it has the results that it has on a set of events
with their timeouts; the heap stays in the memory it has. -/
theorem min_heap_run {p : Nat → EventId} {ev_timeout : EventId → τ} {cs : List (Call τ)}
    (hfine : Refinement.FineRun call Fine (ctor p ev_timeout) cs) :
    ∃ s rs S, Refinement.run call (ctor p ev_timeout) cs = some (s, rs) ∧
      Refinement.Allowed Allows (fun _ => none) cs rs S ∧ s.n ≤ s.a ∧
      (∀ e i, s.min_heap_idx e = some i ↔ i < s.n ∧ s.p i = e) ∧
      ∀ e, S e = (s.min_heap_idx e).map fun _ => s.ev_timeout e := by
  obtain ⟨s, rs, S, hrun, hallowed, hs, hS⟩ :=
    min_heaps_implement.run (ctor_represents p ev_timeout) hfine
  exact ⟨s, rs, S, hrun, hallowed, hs.room, fun e i => (hs.indexed.iff e (by simp) i).symm, hS⟩

theorem min_heap_run_push_erase :
    ∃ s rs S, Refinement.run call (ctor (fun _ => 0) fun _ => 0)
        [.push 5 10 false, .push 3 20 false, .push 7 30 false, .erase 5, .push 5 40 false, .pop,
          .pop, .top] = some (s, rs) ∧
      Refinement.Allowed Allows (fun _ => none)
        [.push 5 10 false, .push 3 20 false, .push 7 30 false, .erase 5, .push 5 40 false, .pop,
          .pop, .top] rs S ∧ s.n ≤ s.a ∧
      (∀ e i, s.min_heap_idx e = some i ↔ i < s.n ∧ s.p i = e) ∧
      ∀ e, S e = (s.min_heap_idx e).map fun _ => (s.ev_timeout e : Nat) :=
  min_heap_run (fineRun_of_erasedFirst (B := []) (ctor_represents _ _) (fun _ hx => absurd rfl hx)
    (by simp [ErasedFirst]))

end

end min_heap

end CppWorkspace.Libevent
