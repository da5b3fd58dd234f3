/-
# `CppWorkspace.Lib.Solo` — a program of one thread, with nobody else

`answered answer t e p` runs the program `p` of thread `t` to its end; the choices of the
environment are the answers to the state and the command, so that an arbitrary `answer` is
every choice of what fails.

    Ends Y answer t e post p σ    from `σ` the program comes to its end, with `post` of its
                                  result and the last state

Unlike `wp` this says that the program ends, and it speaks of one run only.
-/
import CppWorkspace.Lib.Programs

namespace CppWorkspace.Programs.System

variable {S C X E α β γ : Type} {R : C → Type}

/-- Thread `t` alone, up to the result of its program. -/
def answered (Y : System S C R X E α) (answer : S → C → X) (t : Nat) (e : E) :
    Prog C R β → S → Option (S × β)
  | .ret b, σ => some (σ, b)
  | .call c k, σ => (Y.exec t e c σ (answer σ c)).bind fun r => answered Y answer t e (k r.2) r.1

/-- The program ends, with `post`. -/
def Ends (Y : System S C R X E α) (answer : S → C → X) (t : Nat) (e : E) (post : β → S → Prop) :
    Prog C R β → S → Prop
  | .ret b, σ => post b σ
  | .call c k, σ =>
      ∃ σ' v, Y.exec t e c σ (answer σ c) = some (σ', v) ∧ Ends Y answer t e post (k v) σ'

section
variable {Y : System S C R X E α} {answer : S → C → X} {t : Nat} {e : E} {σ : S}

theorem Ends.answered {post : β → S → Prop} {p : Prog C R β} (h : Ends Y answer t e post p σ) :
    ∃ σ' b, Y.answered answer t e p σ = some (σ', b) ∧ post b σ' := by
  induction p generalizing σ with
  | ret b => exact ⟨σ, b, rfl, h⟩
  | call c k ih =>
      obtain ⟨σ', v, hexec, hrest⟩ := h
      obtain ⟨σ'', b, hrun, hpost⟩ := ih v hrest
      refine ⟨σ'', b, ?_, hpost⟩
      rw [System.answered, hexec]
      exact hrun

theorem ends_ret {post : β → S → Prop} {b : β} (h : post b σ) :
    Ends Y answer t e post (pure b) σ := h

theorem Ends.mono {post post' : β → S → Prop} {p : Prog C R β} (h : Ends Y answer t e post p σ)
    (hpost : ∀ b σ', post b σ' → post' b σ') : Ends Y answer t e post' p σ := by
  induction p generalizing σ with
  | ret b => exact hpost b σ h
  | call c k ih =>
      obtain ⟨σ', v, hexec, hrest⟩ := h
      exact ⟨σ', v, hexec, ih v hrest⟩

theorem ends_call {post : γ → S → Prop} {c : C} {f : R c → Prog C R γ} {σ' : S} {v : R c}
    (hexec : Y.exec t e c σ (answer σ c) = some (σ', v)) (hf : Ends Y answer t e post (f v) σ') :
    Ends Y answer t e post (Prog.perform c >>= f) σ :=
  ⟨σ', v, hexec, hf⟩

theorem ends_after {post : γ → S → Prop} {P : β → S → Prop} {p : Prog C R β}
    {f : β → Prog C R γ} (h : Ends Y answer t e P p σ)
    (hf : ∀ b σ', P b σ' → Ends Y answer t e post (f b) σ') :
    Ends Y answer t e post (p >>= f) σ := by
  induction p generalizing σ with
  | ret b => exact hf b σ h
  | call c k ih =>
      obtain ⟨σ', v, hexec, hrest⟩ := h
      exact ⟨σ', v, hexec, ih v hrest⟩

end

end CppWorkspace.Programs.System
