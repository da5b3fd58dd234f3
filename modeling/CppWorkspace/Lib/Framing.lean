/-
# `CppWorkspace.Lib.Framing` — frames in a stream that arrives in pieces

A stream is the concatenation of frames; a receiver sees a prefix of it.  The
prefix is some whole frames and the beginning of the next one, and the two
parts are determined (`split_prefix`):

    p  =  done.flatten ++ r        `done` whole frames, `r` ends before the next

`Short fs r` says that `r` ends before the first of the frames `fs` does.  A
receiver that keeps `r` and joins it with the next piece is again in the
situation of the lemma, with the frames that are left, so reassembly is an
induction over the pieces; it ends with `eq_nil_of_short`.
-/
import Mathlib.Data.List.Basic

namespace CppWorkspace.Framing

variable {α : Type} {fs : List (List α)} {p r : List α}

/-- `r` ends before the first of the frames does. -/
def Short (fs : List (List α)) (r : List α) : Prop := ∀ f ∈ fs.head?, r.length < f.length

theorem short_nil : Short (α := α) [] r := by
  intro f hf
  cases hf

theorem split_prefix (h : p <+: fs.flatten) :
    ∃ done rest r, fs = done ++ rest ∧ p = done.flatten ++ r ∧ Short rest r := by
  induction fs generalizing p with
  | nil =>
      obtain rfl : p = [] := List.prefix_nil.mp h
      exact ⟨[], [], [], rfl, rfl, short_nil⟩
  | cons f fs ih =>
      by_cases hlt : p.length < f.length
      · refine ⟨[], f :: fs, p, rfl, rfl, fun g hg => ?_⟩
        obtain rfl : f = g := by simpa using hg
        exact hlt
      · rw [List.flatten_cons] at h
        obtain ⟨p', rfl⟩ : f <+: p :=
          List.prefix_of_prefix_length_le (List.prefix_append _ _) h (by omega)
        obtain ⟨done, rest, r, rfl, rfl, hs⟩ := ih ((List.prefix_append_right_inj f).mp h)
        exact ⟨f :: done, rest, r, rfl, by simp, hs⟩

theorem mul_length_le_flatten {n : Nat} (h : ∀ f ∈ fs, n ≤ f.length) :
    n * fs.length ≤ fs.flatten.length := by
  induction fs with
  | nil => simp
  | cons f fs ih =>
      have hf := h f List.mem_cons_self
      have hfs := ih fun g hg => h g (List.mem_cons_of_mem f hg)
      rw [List.flatten_cons, List.length_append, List.length_cons, Nat.mul_succ]
      omega

/-- A stream that ends before its first frame does has no frame. -/
theorem eq_nil_of_short (h : Short fs r) (hr : r = fs.flatten) : fs = [] := by
  cases fs with
  | nil => rfl
  | cons f fs =>
      have hlt := h f rfl
      rw [hr, List.flatten_cons, List.length_append] at hlt
      omega

end CppWorkspace.Framing
