/-
# `CppWorkspace.Lib.Runs` — runs of an executable transition system

A transition system is an executable step function `step : S → A → Option S`:
`none` says that the action is not enabled.  A run is judged by a condition
`ok : S → A → Prop` on its steps, read in the state BEFORE the step, so one
relation serves every use in this development:

    Via step ok s t        some run from `s` to `t`, each step of it `ok`

* all runs of the system:                      `ok := fun _ _ => True`
* the runs in which nothing is ever refused:   `ok` looks at the action
* the runs that avoid one bad branch:          `ok` looks at the state as well

The one induction over runs is `Via.invariant`; `execIf` computes a run of a
given action list, so that concrete runs are closed by evaluation
(`via_of_execIf`).
-/
import Mathlib.Logic.Basic

namespace CppWorkspace.Runs

variable {S A : Type}

/-- `Via step ok s t`: a run leads from `s` to `t`, and every step of it
satisfies `ok` in the state in which it is taken. -/
inductive Via (step : S → A → Option S) (ok : S → A → Prop) (s : S) : S → Prop
  | refl : Via step ok s s
  | tail {t u : S} (a : A) : Via step ok s t → ok t a → step t a = some u → Via step ok s u

section
variable {step : S → A → Option S} {ok ok' : S → A → Prop} {s t u : S}

/-- The invariant rule: what holds at the start and is kept by every step
that satisfies the condition holds at the end of every such run. -/
theorem Via.invariant {P : S → Prop} (h : Via step ok s t) (h₀ : P s)
    (hstep : ∀ t a u, P t → ok t a → step t a = some u → P u) : P t := by
  induction h with
  | refl => exact h₀
  | tail a _ hok hs ih => exact hstep _ a _ ih hok hs

/-- The invariant rule for a property that needs a second one, already known
to hold in every state of the run. -/
theorem Via.invariant₂ {P Q : S → Prop} (h : Via step ok s t) (hQ : ∀ t, Via step ok s t → Q t)
    (h₀ : P s) (hstep : ∀ t a u, Q t → P t → ok t a → step t a = some u → P u) : P t := by
  induction h with
  | refl => exact h₀
  | tail a ht hok hs ih => exact hstep _ a _ (hQ _ ht) ih hok hs

theorem Via.mono (h : Via step ok s t) (hok : ∀ t a, ok t a → ok' t a) :
    Via step ok' s t := by
  induction h with
  | refl => exact .refl
  | tail a _ h₁ hs ih => exact .tail a ih (hok _ _ h₁) hs

/-- What holds in every state reached may be asked for in every step. -/
theorem Via.strengthen {Q : S → Prop} (h : Via step ok s t) (hQ : ∀ t, Via step ok s t → Q t) :
    Via step (fun t a => ok t a ∧ Q t) s t := by
  induction h with
  | refl => exact .refl
  | tail a ht hok hs ih => exact .tail a ih ⟨hok, hQ _ ht⟩ hs

theorem Via.trans (h₁ : Via step ok s t) (h₂ : Via step ok t u) : Via step ok s u := by
  induction h₂ with
  | refl => exact h₁
  | tail a _ hok hs ih => exact .tail a ih hok hs

end

/-- The run of a list of actions that checks `ok` before each of them. -/
def execIf (step : S → A → Option S) (ok : S → A → Prop) [∀ s a, Decidable (ok s a)] (s : S) :
    List A → Option S
  | [] => some s
  | a :: as => if ok s a then (step s a).bind fun t => execIf step ok t as else none

theorem via_of_execIf {step : S → A → Option S} {ok : S → A → Prop} [∀ s a, Decidable (ok s a)]
    {t : S} : ∀ {as : List A} {s : S}, execIf step ok s as = some t → Via step ok s t
  | [], s, h => by cases h; exact .refl
  | a :: as, s, h => by
      by_cases hok : ok s a
      · simp only [execIf, if_pos hok, Option.bind_eq_some_iff] at h
        obtain ⟨u, hs, hu⟩ := h
        have hsu : Via step ok s u := .tail a .refl hok hs
        exact hsu.trans (via_of_execIf hu)
      · simp only [execIf, if_neg hok] at h
        cases h

/-- A concrete run with a property of its last state, both by evaluation. -/
theorem exists_via_of_execIf {step : S → A → Option S} {ok : S → A → Prop}
    [∀ s a, Decidable (ok s a)] {s : S} {P : S → Prop} (as : List A)
    (h : ∃ t ∈ execIf step ok s as, P t) : ∃ t, Via step ok s t ∧ P t := by
  obtain ⟨t, ht, hP⟩ := h
  exact ⟨t, via_of_execIf ht, hP⟩

end CppWorkspace.Runs
