/-
# `CppWorkspace.Lib.Atomic` — atomic objects, and the systems that refine them

An object is given by what its operations do when they are made one after
another (`Spec`).  The atomic object of a specification has a status for each
process, and an operation takes effect at one point between its call and its
return:

    idle   —call p op→   called op   —(effect)→   done res   —ret p res→   idle

Only calls and returns are seen.  A system refines the object if each of its
histories is one of the object's; `refines` reduces this to a relation between
states that every step of the system keeps, where the object makes any moves
that show the same.
-/
import Mathlib.Data.List.Basic
import Mathlib.Logic.Function.Basic

namespace CppWorkspace.Atomic

/-- What one operation does, and its result. -/
structure Spec (Q Op Res : Type) where
  apply : Q → Op → Q × Res

/-- Where a thread is with its operation. -/
inductive Status (Op Res : Type)
  | idle
  | called (op : Op)
  | done (res : Res)

/-- What is seen of a run. -/
inductive Label (P Op Res : Type)
  | call (p : P) (op : Op)
  | ret (p : P) (res : Res)

/-- The atomic object in a state. -/
structure Object (P Q Op Res : Type) where
  value : Q
  status : P → Status Op Res

variable {P Q Op Res S A L : Type}

section
variable [DecidableEq P]

def Object.set (c : Object P Q Op Res) (p : P) (x : Status Op Res) : Object P Q Op Res :=
  { c with status := Function.update c.status p x }

@[simp] theorem Object.set_value (c : Object P Q Op Res) (p : P) (x : Status Op Res) :
    (c.set p x).value = c.value := rfl

@[simp] theorem Object.set_self (c : Object P Q Op Res) (p : P) (x : Status Op Res) :
    (c.set p x).status p = x := by
  simp [Object.set]

@[simp] theorem Object.set_of_ne {p r : P} (h : r ≠ p) (c : Object P Q Op Res)
    (x : Status Op Res) : (c.set p x).status r = c.status r := by
  simp [Object.set, h]

/-- `History spec c tr d`: the object comes from `c` to `d` and shows `tr`. -/
inductive History (spec : Spec Q Op Res) (c : Object P Q Op Res) :
    List (Label P Op Res) → Object P Q Op Res → Prop
  | nil : History spec c [] c
  | call {tr : List (Label P Op Res)} {d : Object P Q Op Res} (p : P) (op : Op) :
      History spec c tr d → d.status p = .idle →
      History spec c (tr ++ [.call p op]) (d.set p (.called op))
  | effect {tr : List (Label P Op Res)} {d : Object P Q Op Res} (p : P) (op : Op) :
      History spec c tr d → d.status p = .called op →
      History spec c tr
        (({ d with value := (spec.apply d.value op).1 } : Object P Q Op Res).set p
          (.done (spec.apply d.value op).2))
  | ret {tr : List (Label P Op Res)} {d : Object P Q Op Res} (p : P) (res : Res) :
      History spec c tr d → d.status p = .done res →
      History spec c (tr ++ [.ret p res]) (d.set p .idle)

theorem History.oneCall {spec : Spec Q Op Res} {c : Object P Q Op Res} (p : P) (op : Op)
    (h : c.status p = .idle) : History spec c [.call p op] (c.set p (.called op)) :=
  .call p op .nil h

theorem History.oneRet {spec : Spec Q Op Res} {c : Object P Q Op Res} (p : P) (res : Res)
    (h : c.status p = .done res) : History spec c [.ret p res] (c.set p .idle) :=
  .ret p res .nil h

theorem History.trans {spec : Spec Q Op Res} {c d e : Object P Q Op Res}
    {tr tr' : List (Label P Op Res)} (h : History spec c tr d) (h' : History spec d tr' e) :
    History spec c (tr ++ tr') e := by
  induction h' with
  | nil =>
      rw [List.append_nil]
      exact h
  | call p op _ hp ih =>
      rw [← List.append_assoc]
      exact .call p op ih hp
  | effect p op _ hp ih => exact .effect p op ih hp
  | ret p res _ hp ih =>
      rw [← List.append_assoc]
      exact .ret p res ih hp

end

/-- A run of the system, and what is seen of it. -/
inductive Trace (step : S → A → Option S) (vis : S → A → Option L) (s : S) : List L → S → Prop
  | nil : Trace step vis s [] s
  | snoc {tr : List L} {t u : S} (a : A) : Trace step vis s tr t → step t a = some u →
      Trace step vis s (tr ++ (vis t a).toList) u

/-- The run of a list of actions, and what is seen of it. -/
def execTrace (step : S → A → Option S) (vis : S → A → Option L) :
    List L → S → List A → Option (List L × S)
  | tr, s, [] => some (tr, s)
  | tr, s, a :: as => (step s a).bind fun t => execTrace step vis (tr ++ (vis s a).toList) t as

theorem Trace.exec {step : S → A → Option S} {vis : S → A → Option L} {s u : S} {tr' : List L} :
    ∀ {as : List A} {tr : List L} {t : S}, Trace step vis s tr t →
      execTrace step vis tr t as = some (tr', u) → Trace step vis s tr' u
  | [], tr, t, h, he => by
      cases he
      exact h
  | a :: as, tr, t, h, he => by
      obtain ⟨v, hv, he'⟩ := Option.bind_eq_some_iff.mp he
      exact (Trace.snoc a h hv).exec he'

/-- A concrete run with a property of its last state, both by evaluation. -/
theorem exists_trace_of_exec {step : S → A → Option S} {vis : S → A → Option L} {s : S}
    {P : S → Prop} (as : List A) (h : ∃ x ∈ execTrace step vis [] s as, P x.2) :
    ∃ tr t, Trace step vis s tr t ∧ P t := by
  obtain ⟨⟨tr, t⟩, hx, hP⟩ := h
  exact ⟨tr, t, Trace.nil.exec hx, hP⟩

/-- A system that a relation ties to the object, step by step, shows nothing else. -/
theorem refines [DecidableEq P] {spec : Spec Q Op Res} {step : S → A → Option S}
    {vis : S → A → Option (Label P Op Res)} {R : S → Object P Q Op Res → Prop} {s t : S}
    {c : Object P Q Op Res} {tr : List (Label P Op Res)} (h : Trace step vis s tr t) (h₀ : R s c)
    (hstep : ∀ t a u d, R t d → step t a = some u →
      ∃ e, History spec d (vis t a).toList e ∧ R u e) :
    ∃ d, History spec c tr d ∧ R t d := by
  induction h with
  | nil => exact ⟨c, .nil, h₀⟩
  | snoc a _ hs ih =>
      obtain ⟨d, hd, hR⟩ := ih
      obtain ⟨e, he, hR'⟩ := hstep _ a _ d hR hs
      exact ⟨e, hd.trans he, hR'⟩

end CppWorkspace.Atomic
