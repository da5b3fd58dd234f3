/-
# `CppWorkspace.Lib.Turns` — one event after the other

If events begin only while all threads are idle, each of them runs as if it were alone,
and what holds between two events is proved of one event at a time:

    Leads Y ok t e post p σ    if `p` comes to its end from `σ`, with choices of the
                               environment that are `ok`, then `post` holds there

Unlike `Ends` it does not say that the program ends, and it speaks of all choices; unlike
`wp` it needs no frame.  `turns` goes from events to runs.
-/
import CppWorkspace.Lib.Programs

namespace CppWorkspace.Programs.System

open Runs

variable {S C X E α β γ : Type} {R : C → Type}

def Leads (Y : System S C R X E α) (ok : C → X → Prop) (t : Nat) (e : E) (post : β → S → Prop) :
    Prog C R β → S → Prop
  | .ret b, σ => post b σ
  | .call c k, σ =>
      ∀ x σ' v, ok c x → Y.exec t e c σ x = some (σ', v) → Leads Y ok t e post (k v) σ'

section
variable {Y : System S C R X E α} {ok : C → X → Prop} {t : Nat} {e : E} {σ : S}

theorem leads_ret {post : β → S → Prop} {b : β} (h : post b σ) :
    Leads Y ok t e post (pure b) σ := h

theorem Leads.mono {post post' : β → S → Prop} {p : Prog C R β} (h : Leads Y ok t e post p σ)
    (hpost : ∀ b σ', post b σ' → post' b σ') : Leads Y ok t e post' p σ := by
  induction p generalizing σ with
  | ret b => exact hpost b σ h
  | call c k ih => exact fun x σ' v hok hexec => ih v (h x σ' v hok hexec)

theorem leads_call {post : γ → S → Prop} {c : C} {f : R c → Prog C R γ}
    (h : ∀ x σ' v, ok c x → Y.exec t e c σ x = some (σ', v) → Leads Y ok t e post (f v) σ') :
    Leads Y ok t e post (Prog.perform c >>= f) σ := h

theorem leads_after {post : γ → S → Prop} {P : β → S → Prop} {p : Prog C R β}
    {f : β → Prog C R γ} (h : Leads Y ok t e P p σ)
    (hf : ∀ b σ', P b σ' → Leads Y ok t e post (f b) σ') :
    Leads Y ok t e post (p >>= f) σ := by
  induction p generalizing σ with
  | ret b => exact hf b σ h
  | call c k ih => exact fun x σ' v hok hexec => ih v (h x σ' v hok hexec)

end

/-! ## Runs -/

section
variable {Y : System S C R X E α} {ok : C → X → Prop} {m m' : Machine S C R E α}
  {cond : Machine S C R E α → Act X E → Prop} {P : S → Prop}

/-- What holds between events, and what the thread inside one leads to. -/
structure Turn (Y : System S C R X E α) (ok : C → X → Prop) (P : S → Prop)
    (m : Machine S C R E α) : Prop where
  solo : m.Solo
  rest : m.Quiescent → P m.shared
  inside : ∀ t e p, m.threads[t]? = some (some (e, p)) → Leads Y ok t e (fun _ => P) p m.shared

theorem get_set {threads : List (Option (E × Prog C R α))} {o : Option (E × Prog C R α)}
    {t u : Nat} {q : E × Prog C R α} (h : (threads.set t o)[u]? = some (some q)) :
    (u = t ∧ o = some q) ∨ threads[u]? = some (some q) := by
  by_cases hu : t = u
  · subst hu
    rw [List.getElem?_set_self'] at h
    obtain ⟨_, -, he⟩ := Option.map_eq_some_iff.mp h
    exact .inl ⟨rfl, he⟩
  · rw [List.getElem?_set_ne hu] at h
    exact .inr h

theorem Turn.move {σ : S} {t : Nat} {o o' : Option (E × Prog C R α)}
    (hidle : ∀ u q, m.threads[u]? = some (some q) → u = t) (hself : m.threads[t]? = some o)
    (hrest : o' = none → P σ)
    (hin : ∀ e p, o' = some (e, p) → Leads Y ok t e (fun _ => P) p σ) :
    Turn Y ok P ⟨σ, m.threads.set t o'⟩ where
  solo := solo_set hidle
  rest hq := by
    have hlt := (List.getElem?_eq_some_iff.mp hself).1
    exact hrest (hq o' (List.mem_of_getElem? (List.getElem?_set_self hlt)))
  inside u e p hu := by
    rcases get_set hu with ⟨rfl, ho⟩ | hold
    · exact hin e p ho
    · obtain rfl := hidle u _ hold
      rw [List.getElem?_set_self', hself] at hu
      exact hin e p (Option.some.inj hu)

/-- One event after the other: what is proved of each of them holds between any two. -/
theorem turns (hbegin : ∀ m t e, cond m (.begin t e) → m.Quiescent)
    (hok : ∀ m t x c, cond m (.run t x) → m.next t = some c → ok c x)
    (hevent : ∀ m t e σ p, cond m (.begin t e) → P m.shared →
      Y.spawn t e m.shared = some (σ, p) → Leads Y ok t e (fun _ => P) p σ)
    (hidle : m.Quiescent) (h₀ : P m.shared) (h : Via Y.step cond m m') : Turn Y ok P m' := by
  have hfirst : Turn Y ok P m := by
    refine ⟨hidle.solo, fun _ => h₀, fun t e p ht => ?_⟩
    cases hidle _ (List.mem_of_getElem? ht)
  refine h.invariant hfirst fun m a m' hm hcond hstep => ?_
  cases a with
  | run t x =>
      simp only [System.step] at hstep
      split at hstep
      · rename_i e c k ht
        obtain ⟨⟨σ, v⟩, hexec, rfl⟩ := Option.map_eq_some_iff.mp hstep
        have hx := hok m t x c hcond (by simp [Machine.next, ht, Prog.next])
        refine .move (fun u q hu => hm.solo u t q _ hu ht) ht (fun he => by cases he) ?_
        intro e' p he
        cases he
        exact hm.inside t e _ ht x σ v hx hexec
      · cases hstep
  | begin t e =>
      simp only [System.step] at hstep
      split at hstep
      · rename_i ht
        obtain ⟨⟨σ, p⟩, hspawn, rfl⟩ := Option.map_eq_some_iff.mp hstep
        have hq := hbegin m t e hcond
        refine .move (fun u q hu => ?_) ht (fun he => by cases he) ?_
        · cases hq _ (List.mem_of_getElem? hu)
        · intro e' p' he
          cases he
          exact hevent m t e σ p hcond (hm.rest hq) hspawn
      · cases hstep
  | finish t =>
      simp only [System.step] at hstep
      split at hstep
      · rename_i e b ht
        cases hstep
        refine .move (fun u q hu => hm.solo u t q _ hu ht) ht ?_ fun e' p he => by cases he
        exact fun _ => hm.inside t e _ ht
      · cases hstep

end

end CppWorkspace.Programs.System
