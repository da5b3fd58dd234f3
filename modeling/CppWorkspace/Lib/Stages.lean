/-
# `CppWorkspace.Lib.Stages` — what a program may still do

`May P p` says that some path of the program `p` gives a command of `P`; of a thread it
says what is still ahead of it, whatever the replies will be.

A `Discipline` bounds what is ahead.  A program moves through stages: in each it may give
certain commands, and the reply leads to the next one.

    Follows D post p q    from the stage `q`, `p` gives only what is allowed, and `post`
                          holds of its result and the stage in which it ends

The rules follow the program text, as those of `wp` do, but no state is looked at.
`Follows.not_may` is what a discipline is for: commands that are not allowed in a stage, and
in none that it leads to, are not ahead.
-/
import CppWorkspace.Lib.Programs

namespace CppWorkspace.Programs

variable {S C X E Q α β : Type} {R : C → Type}

namespace Prog

/-- Some path gives a command of `P`. -/
def May (P : C → Prop) : Prog C R α → Prop
  | ret _ => False
  | call c k => P c ∨ ∃ v, May P (k v)

end Prog

/-- Stages, what is allowed in each, and where the reply to a command leads. -/
structure Discipline (C : Type) (R : C → Type) (Q : Type) where
  allows : Q → C → Prop
  next : Q → (c : C) → R c → Q

namespace Discipline

variable (D : Discipline C R Q)

/-- `p` keeps to the discipline from the stage `q` on. -/
def Follows (post : α → Q → Prop) : Prog C R α → Q → Prop
  | .ret a, q => post a q
  | .call c k, q => D.allows q c ∧ ∀ v, Follows post (k v) (D.next q c v)

variable {D} {post : α → Q → Prop} {q : Q}

theorem follows_ret {a : α} (h : post a q) : D.Follows post (pure a) q := h

theorem Follows.mono {p : Prog C R α} {post' : α → Q → Prop} (h : D.Follows post p q)
    (hpost : ∀ a q', post a q' → post' a q') : D.Follows post' p q := by
  induction p generalizing q with
  | ret a => exact hpost a q h
  | call c k ih => exact ⟨h.1, fun v => ih v (h.2 v)⟩

theorem follows_call {c : C} {f : R c → Prog C R α} (h : D.allows q c)
    (hf : ∀ v, D.Follows post (f v) (D.next q c v)) :
    D.Follows post (Prog.perform c >>= f) q :=
  ⟨h, hf⟩

theorem follows_bind {p : Prog C R β} {f : β → Prog C R α}
    (h : D.Follows (fun b q' => D.Follows post (f b) q') p q) : D.Follows post (p >>= f) q := by
  induction p generalizing q with
  | ret b => exact h
  | call c k ih => exact ⟨h.1, fun v => ih v (h.2 v)⟩

theorem follows_after {p : Prog C R β} {f : β → Prog C R α} {P : β → Q → Prop}
    (h : D.Follows P p q) (hf : ∀ b q', P b q' → D.Follows post (f b) q') :
    D.Follows post (p >>= f) q :=
  follows_bind (h.mono hf)

/-- What is allowed in no stage that can still come is not ahead. -/
theorem Follows.not_may {p : Prog C R α} {P : C → Prop} {Z : Q → Prop}
    (hZ : ∀ q c, Z q → D.allows q c → ¬ P c ∧ ∀ v, Z (D.next q c v)) (hq : Z q)
    (h : D.Follows post p q) : ¬ p.May P := by
  induction p generalizing q with
  | ret a => exact id
  | call c k ih =>
      obtain ⟨hnot, hnext⟩ := hZ q c hq h.1
      rintro (hc | ⟨v, hv⟩)
      · exact hnot hc
      · exact ih v (hnext v) (h.2 v) hv

end Discipline

/-! ## What is ahead of a thread -/

namespace Machine

/-- What is left of the program of thread `t`. -/
def program (m : Machine S C R E α) (t : Nat) : Option (Prog C R α) :=
  (m.threads[t]?).bind fun o => o.map Prod.snd

/-- A command of `P` may be ahead of thread `t`. -/
def May (m : Machine S C R E α) (t : Nat) (P : C → Prop) : Prop :=
  ∃ p, m.program t = some p ∧ p.May P

variable {m m' : Machine S C R E α} {t u : Nat} {P : C → Prop}

theorem program_of_threads {e : E} {p : Prog C R α} (h : m.threads[t]? = some (some (e, p))) :
    m.program t = some p := by
  rw [program, h]
  rfl

theorem next_of_program {p : Prog C R α} (h : m.program t = some p) : m.next t = p.next := by
  obtain ⟨o, ht, ho⟩ := Option.bind_eq_some_iff.mp h
  obtain ⟨⟨e, p'⟩, rfl, rfl⟩ := Option.map_eq_some_iff.mp ho
  rw [next, ht]
  rfl

theorem May.of_program {p : Prog C R α} (h : m.May t P) (hp : m.program t = some p) :
    p.May P := by
  obtain ⟨p', hp', hmay⟩ := h
  cases hp.symm.trans hp'
  exact hmay

theorem may_of_next {c : C} (h : m.next t = some c) (hc : P c) : m.May t P := by
  obtain ⟨o, ht, hq⟩ := Option.bind_eq_some_iff.mp h
  obtain ⟨⟨e, p⟩, rfl, hp⟩ := Option.bind_eq_some_iff.mp hq
  refine ⟨p, program_of_threads ht, ?_⟩
  cases p with
  | ret a => cases hp
  | call c' k =>
      cases hp
      exact .inl hc

theorem program_set {σ : S} {o o' : Option (E × Prog C R α)} (h : m.threads[t]? = some o) :
    (⟨σ, m.threads.set t o'⟩ : Machine S C R E α).program u =
      if u = t then o'.map Prod.snd else m.program u := by
  by_cases hu : u = t
  · subst hu
    rw [if_pos rfl, program, List.getElem?_set_self', h]
    rfl
  · rw [if_neg hu, program, program, List.getElem?_set_ne (Ne.symm hu)]

end Machine

/-! What an action does to the programs. -/

section
variable {Y : System S C R X E α} {m m' : Machine S C R E α} {t u : Nat} {P : C → Prop}

theorem program_run {x : X} (h : Y.step m (.run t x) = some m') :
    ∃ e c, ∃ k : R c → Prog C R α, ∃ v, m.program t = some (.call c k) ∧
      Y.exec t e c m.shared x = some (m'.shared, v) ∧
      ∀ u, m'.program u = if u = t then some (k v) else m.program u := by
  simp only [System.step] at h
  split at h
  · rename_i e c k ht
    obtain ⟨⟨σ, v⟩, hexec, rfl⟩ := Option.map_eq_some_iff.mp h
    exact ⟨e, c, k, v, Machine.program_of_threads ht, hexec, fun u => Machine.program_set ht⟩
  · cases h

theorem program_begin {e : E} (h : Y.step m (.begin t e) = some m') :
    m.program t = none ∧ ∃ p, Y.spawn t e m.shared = some (m'.shared, p) ∧
      ∀ u, m'.program u = if u = t then some p else m.program u := by
  simp only [System.step] at h
  split at h
  · rename_i ht
    obtain ⟨⟨σ, p⟩, hspawn, rfl⟩ := Option.map_eq_some_iff.mp h
    refine ⟨?_, p, hspawn, fun u => Machine.program_set ht⟩
    rw [Machine.program, ht]
    rfl
  · cases h

theorem program_finish (h : Y.step m (.finish t) = some m') :
    m'.shared = m.shared ∧ (∃ a, m.program t = some (.ret a)) ∧
      ∀ u, m'.program u = if u = t then none else m.program u := by
  simp only [System.step] at h
  split at h
  · rename_i e a ht
    cases h
    exact ⟨rfl, ⟨a, Machine.program_of_threads ht⟩, fun u => Machine.program_set ht⟩
  · cases h

end

end CppWorkspace.Programs
