/-
# `CppWorkspace.Lib.Refinement` — objects that are called, one call after another

An object is a function `call : S → C → Option (S × R)`: in a state a call leads to a state and
has a result, or it is not one that may be made (`none`).

An object refines another one, its specification, if a relation between their states is kept
by the calls that the specification admits, and these have the same results
(`Refines`); then the same holds of every sequence of calls (`Refines.run`).  Where a loop of
the object is given fuel, the relation may say how many more calls the fuel is enough for
(`RefinesFor`).

A specification may also leave a choice: `spec t c r t'`.  An object implements it for the
calls that are `fine` in the state in which they are made (`Implements`); then it does so for
every sequence of calls each of which is fine when its turn comes (`Implements.run`).
-/
import Mathlib.Logic.Basic

namespace CppWorkspace.Refinement

variable {S T C R : Type}

/-- The state after a sequence of calls, and their results. -/
def run (call : S → C → Option (S × R)) : S → List C → Option (S × List R)
  | s, [] => some (s, [])
  | s, c :: cs => (call s c).bind fun x => (run call x.1 cs).map fun y => (y.1, x.2 :: y.2)

/-- The object does what the specification does, wherever that admits the call; `rel n` is the
relation with `n` more calls to come. -/
def RefinesFor (call : S → C → Option (S × R)) (spec : T → C → Option (T × R))
    (rel : Nat → S → T → Prop) : Prop :=
  ∀ n s t c t' r, rel (n + 1) s t → spec t c = some (t', r) →
    ∃ s', call s c = some (s', r) ∧ rel n s' t'

def Refines (call : S → C → Option (S × R)) (spec : T → C → Option (T × R))
    (rel : S → T → Prop) : Prop :=
  ∀ s t c t' r, rel s t → spec t c = some (t', r) → ∃ s', call s c = some (s', r) ∧ rel s' t'

/-- What a specification with a choice allows, one call after another. -/
inductive Allowed (spec : T → C → R → T → Prop) : T → List C → List R → T → Prop
  | nil {t : T} : Allowed spec t [] [] t
  | cons {t u t' : T} {c : C} {r : R} {cs : List C} {rs : List R} :
      spec t c r u → Allowed spec u cs rs t' → Allowed spec t (c :: cs) (r :: rs) t'

/-- Every call of the sequence is fine when its turn comes. -/
def FineRun (call : S → C → Option (S × R)) (fine : S → C → Prop) : S → List C → Prop
  | _, [] => True
  | s, c :: cs => fine s c ∧ ∀ s' r, call s c = some (s', r) → FineRun call fine s' cs

def Implements (call : S → C → Option (S × R)) (spec : T → C → R → T → Prop)
    (fine : S → C → Prop) (rel : S → T → Prop) : Prop :=
  ∀ s t c, rel s t → fine s c → ∃ s' r t', call s c = some (s', r) ∧ spec t c r t' ∧ rel s' t'

section
variable {call : S → C → Option (S × R)} {spec : T → C → Option (T × R)} {s : S} {t t' : T}
  {cs : List C} {rs : List R}

theorem RefinesFor.run {rel : Nat → S → T → Prop} (h : RefinesFor call spec rel)
    (hst : rel cs.length s t) (hrun : Refinement.run spec t cs = some (t', rs)) :
    ∃ s', Refinement.run call s cs = some (s', rs) ∧ rel 0 s' t' := by
  induction cs generalizing s t rs with
  | nil =>
      cases hrun
      exact ⟨s, rfl, hst⟩
  | cons c cs ih =>
      obtain ⟨⟨u, r⟩, hu, hrest⟩ := Option.bind_eq_some_iff.mp hrun
      obtain ⟨⟨v, rest⟩, hv, heq⟩ := Option.map_eq_some_iff.mp hrest
      cases heq
      obtain ⟨w, hw, hwu⟩ := h cs.length s t c u r hst hu
      obtain ⟨s', hs', hs't'⟩ := ih hwu hv
      exact ⟨s', by rw [Refinement.run, hw, Option.bind_some, hs']; rfl, hs't'⟩

theorem Refines.run {rel : S → T → Prop} (h : Refines call spec rel) (hst : rel s t)
    (hrun : Refinement.run spec t cs = some (t', rs)) :
    ∃ s', Refinement.run call s cs = some (s', rs) ∧ rel s' t' :=
  have hfor : RefinesFor call spec fun _ => rel := fun _ => h
  hfor.run hst hrun

theorem Implements.run {spec : T → C → R → T → Prop} {fine : S → C → Prop} {rel : S → T → Prop}
    (h : Implements call spec fine rel) (hst : rel s t) (hfine : FineRun call fine s cs) :
    ∃ s' rs t', Refinement.run call s cs = some (s', rs) ∧ Allowed spec t cs rs t' ∧
      rel s' t' := by
  induction cs generalizing s t with
  | nil => exact ⟨s, [], t, rfl, .nil, hst⟩
  | cons c cs ih =>
      obtain ⟨u, r, v, hu, hspec, huv⟩ := h s t c hst hfine.1
      obtain ⟨s', rs, t', hrun, hallowed, hrel⟩ := ih huv (hfine.2 u r hu)
      refine ⟨s', r :: rs, t', ?_, .cons hspec hallowed, hrel⟩
      rw [Refinement.run, hu, Option.bind_some, hrun]
      rfl

theorem FineRun.cons {fine : S → C → Prop} {s' : S} {c : C} {r : R} (hc : fine s c)
    (hcall : call s c = some (s', r)) (h : FineRun call fine s' cs) :
    FineRun call fine s (c :: cs) := by
  refine ⟨hc, fun u q hu => ?_⟩
  cases hcall.symm.trans hu
  exact h

theorem run_invariant {P : S → Prop} {s' : S} (hs : P s) (h : run call s cs = some (s', rs))
    (hcall : ∀ s c s' r, P s → call s c = some (s', r) → P s') : P s' := by
  induction cs generalizing s rs with
  | nil =>
      cases h
      exact hs
  | cons c cs ih =>
      obtain ⟨⟨u, r⟩, hu, hrest⟩ := Option.bind_eq_some_iff.mp h
      obtain ⟨⟨v, rest⟩, hv, heq⟩ := Option.map_eq_some_iff.mp hrest
      cases heq
      exact ih (hcall s c u r hs hu) hv

theorem exists_run (h : ∀ s c, ∃ x, call s c = some x) (s : S) (cs : List C) :
    ∃ s' rs, run call s cs = some (s', rs) := by
  induction cs generalizing s with
  | nil => exact ⟨s, [], rfl⟩
  | cons c cs ih =>
      obtain ⟨⟨u, r⟩, hu⟩ := h s c
      obtain ⟨s', rs, hs'⟩ := ih u
      exact ⟨s', r :: rs, by rw [run, hu, Option.bind_some, hs']; rfl⟩

end

end CppWorkspace.Refinement
