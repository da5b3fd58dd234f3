/-
# `CppWorkspace.Lib.Stacks` — bounded stacks, by their calls

A stack with room for `cap` elements is a list, the top first.  A call carries its result
(`Call`), and `replay` says what the stack holds after a history of calls, if a stack can
have given these results at all: `pop` returns the top, and nothing exactly if the stack is
empty; `push` is refused exactly if it is full.

`stack f n` is the stack that an array keeps in its places below `n`, the top in the last
of them; what is written from `n` on does not count.
-/
import Mathlib.Data.List.Induction
import Mathlib.Data.List.Perm.Basic
import Mathlib.Logic.Function.Basic

namespace CppWorkspace.Stacks

variable {α : Type}

/-- The calls on a stack, with what they return. -/
inductive Call (α : Type) where
  | push (a : α) (accepted : Bool)
  | pop (a : Option α)
deriving DecidableEq, Repr

section
variable [DecidableEq α]

/-- The stack after a call, if it gives this result. -/
def Call.apply (cap : Nat) (l : List α) : Call α → Option (List α)
  | .push a accepted =>
      if accepted = decide (l.length < cap) then some (if accepted then a :: l else l) else none
  | .pop a => if a = l.head? then some l.tail else none

def replay (cap : Nat) (calls : List (Call α)) : Option (List α) :=
  calls.foldlM (Call.apply cap) []

end

/-- What was pushed and accepted. -/
def pushed (calls : List (Call α)) : List α :=
  calls.filterMap fun
    | .push a true => some a
    | _ => none

/-- What `pop` has returned. -/
def popped (calls : List (Call α)) : List α :=
  calls.filterMap fun
    | .pop a => a
    | _ => none

section
variable [DecidableEq α] {cap : Nat} {calls : List (Call α)} {c : Call α} {a : α}
  {l l' : List α}

theorem replay_concat (h : replay cap calls = some l) :
    replay cap (calls ++ [c]) = c.apply cap l := by
  rw [replay, List.foldlM_append, ← replay, h]
  exact Option.bind_fun_some (c.apply cap l)

theorem replay_push (h : replay cap calls = some l) (hroom : l.length < cap) :
    replay cap (calls ++ [.push a true]) = some (a :: l) := by
  rw [replay_concat h, Call.apply, if_pos (decide_eq_true hroom).symm, if_pos rfl]

theorem replay_refused (h : replay cap calls = some l) (hfull : ¬l.length < cap) :
    replay cap (calls ++ [.push a false]) = some l := by
  rw [replay_concat h, Call.apply, if_pos (decide_eq_false hfull).symm, if_neg Bool.false_ne_true]

theorem replay_pop (h : replay cap calls = some l) :
    replay cap (calls ++ [.pop l.head?]) = some l.tail := by
  rw [replay_concat h, Call.apply, if_pos rfl]

/-- A history that a stack can have given was given call by call. -/
theorem replay_cases (h : replay cap (calls ++ [c]) = some l') :
    ∃ l, replay cap calls = some l ∧ c.apply cap l = some l' := by
  cases hcalls : replay cap calls with
  | none =>
      rw [replay, List.foldlM_append, ← replay, hcalls] at h
      cases h
  | some l => exact ⟨l, rfl, (replay_concat hcalls).symm.trans h⟩

end

section
variable {cap n i : Nat} {calls : List (Call α)} {c : Call α} {l : List α} {f g : Nat → α} {x : α}

theorem pushed_concat : pushed (calls ++ [c]) = pushed calls ++ pushed [c] :=
  List.filterMap_append

theorem pushed_push {a : α} : pushed (calls ++ [.push a true]) = pushed calls ++ [a] :=
  pushed_concat

theorem pushed_refused {a : α} : pushed (calls ++ [.push a false]) = pushed calls :=
  pushed_concat.trans (List.append_nil _)

theorem pushed_pop {a : Option α} : pushed (calls ++ [.pop a]) = pushed calls :=
  pushed_concat.trans (List.append_nil _)

theorem popped_concat : popped (calls ++ [c]) = popped calls ++ popped [c] :=
  List.filterMap_append

/-- Each accepted element is in the stack or was returned, as often as it was pushed. -/
theorem perm_of_replay [DecidableEq α] (h : replay cap calls = some l) :
    (popped calls ++ l).Perm (pushed calls) := by
  induction calls using List.reverseRecOn generalizing l with
  | nil =>
      cases h
      exact .refl []
  | append_singleton calls c ih =>
      obtain ⟨l₀, h₀, hc⟩ := replay_cases h
      rw [popped_concat]
      cases c with
      | push a accepted =>
          obtain ⟨-, hl⟩ := Option.ite_none_right_eq_some.mp hc
          cases hl
          change (popped calls ++ [] ++ _).Perm _
          rw [List.append_nil]
          cases accepted with
          | true =>
              rw [pushed_push]
              exact List.perm_middle.trans
                (((ih h₀).cons a).trans (List.perm_append_singleton ..).symm)
          | false =>
              rw [pushed_refused]
              exact ih h₀
      | pop a =>
          obtain ⟨ha, hl⟩ := Option.ite_none_right_eq_some.mp hc
          cases hl
          rw [pushed_pop]
          cases l₀ with
          | nil =>
              cases ha
              simpa [popped] using ih h₀
          | cons t l₀ =>
              cases ha
              simpa [popped] using ih h₀

/-! ## Arrays -/

/-- What an array keeps below `n`, the last one first. -/
def stack (f : Nat → α) : Nat → List α
  | 0 => []
  | n + 1 => f n :: stack f n

@[simp] theorem length_stack : (stack f n).length = n := by
  induction n with
  | zero => rfl
  | succ n ih => rw [stack, List.length_cons, ih]

theorem stack_congr (h : ∀ k < n, f k = g k) : stack f n = stack g n := by
  induction n with
  | zero => rfl
  | succ n ih =>
      rw [stack, stack, h n (Nat.lt_succ_self n), ih fun k hk => h k (Nat.lt_succ_of_lt hk)]

theorem stack_update (h : n ≤ i) : stack (Function.update f i x) n = stack f n :=
  stack_congr fun _ hk => Function.update_of_ne (Nat.ne_of_lt (Nat.lt_of_lt_of_le hk h)) x f

theorem stack_push : stack (Function.update f n x) (n + 1) = x :: stack f n := by
  rw [stack, Function.update_self, stack_update (Nat.le_refl n)]

end

end CppWorkspace.Stacks
