/-
# `CppWorkspace.Lib.Searching` — places in a list, and readers of a stream

    place what l        where `what` stands first in `l`
    Takes cut s xs r    a reader takes `xs` from `s` one after another, and `r` is left

A reader is `Steady` if it takes the same thing when more of the stream is there.  Then
what it has taken stays right while the stream grows (`Steady.append`), so it does not
matter in which pieces the stream arrives.
-/
import Mathlib.Data.List.Basic

namespace CppWorkspace.Searching

variable {α β : Type}

/-! ## The first place -/

section
variable [DecidableEq α] {what l s t : List α} {p : α → Bool} {a : α} {k : Nat}

def place (what : List α) : List α → Option Nat
  | [] => if what = [] then some 0 else none
  | a :: l => if what <+: a :: l then some 0 else (place what l).map (· + 1)

theorem place_prefix (h : what <+: l) : place what l = some 0 := by
  cases l with
  | nil => exact if_pos (List.prefix_nil.mp h)
  | cons a l => exact if_pos h

theorem place_eq_some (h : place what l = some k) : what <+: l.drop k := by
  induction l generalizing k with
  | nil =>
      rw [place] at h
      split at h
      · rename_i hnil
        rw [hnil]
        exact List.nil_prefix
      · cases h
  | cons a l ih =>
      rw [place] at h
      split at h
      · rename_i hp
        obtain rfl := Option.some.inj h
        exact hp
      · obtain ⟨j, hj, rfl⟩ := Option.map_eq_some_iff.mp h
        exact ih hj

theorem place_drop (hle : k ≤ l.length) (h : ∀ j < k, ¬ what <+: l.drop j) :
    place what l = (place what (l.drop k)).map (· + k) := by
  induction k generalizing l with
  | zero => simp
  | succ k ih =>
      cases l with
      | nil => cases hle
      | cons a l =>
          have hp : ¬ what <+: a :: l := h 0 (Nat.succ_pos k)
          rw [place, if_neg hp,
            ih (Nat.le_of_succ_le_succ hle) fun j hj => h (j + 1) (Nat.succ_lt_succ hj),
            Option.map_map, List.drop_succ_cons]
          rfl

theorem place_take {j : Nat} (hne : what ≠ []) :
    place what (l.take j) = (place what l).filter (fun k => k + what.length ≤ j) := by
  induction l generalizing j with
  | nil => simp [place, hne]
  | cons a l ih =>
      cases j with
      | zero =>
          have hlen := List.length_pos_of_ne_nil hne
          cases hp : place what (a :: l) with
          | none => simp [place, hne]
          | some k =>
              rw [Option.filter_some, if_neg (by rw [decide_eq_true_eq]; omega)]
              simp [place, hne]
      | succ j =>
          have hlen := List.length_pos_of_ne_nil hne
          rw [List.take_succ_cons, place, place]
          by_cases hp : what <+: a :: l
          · rw [if_pos hp, Option.filter_some]
            by_cases hle : what.length ≤ j + 1
            · have hp' : what <+: a :: l.take j := by
                rw [← List.take_succ_cons]
                exact List.prefix_take_iff.mpr ⟨hp, hle⟩
              simp [hp', hle]
            · have hp' : ¬ what <+: a :: l.take j := fun hp' => hle (by
                have hle' := hp'.length_le
                rw [List.length_cons, List.length_take] at hle'
                omega)
              have hnone : place what (l.take j) = none := by
                rw [ih]
                cases hk : place what l with
                | none => rfl
                | some k => rw [Option.filter_some, if_neg (by rw [decide_eq_true_eq]; omega)]
              rw [if_neg hp', hnone]
              simp [hle]
          · have hp' : ¬ what <+: a :: l.take j := fun hp' => hp (hp'.trans (by
              rw [List.cons_prefix_cons]
              exact ⟨rfl, List.take_prefix j l⟩))
            rw [if_neg hp, if_neg hp', ih]
            cases place what l with
            | none => rfl
            | some k =>
                simp only [Option.filter_some, Option.map_some, decide_eq_true_eq]
                by_cases hle : k + what.length ≤ j
                · rw [if_pos hle, if_pos (by omega)]
                  rfl
                · rw [if_neg hle, if_neg (by omega)]
                  rfl

theorem place_append (h : place what s = some k) : place what (s ++ t) = some k := by
  induction s generalizing k with
  | nil =>
      rw [place] at h
      split at h
      · rename_i hnil
        rw [← h, hnil]
        exact place_prefix List.nil_prefix
      · cases h
  | cons a s ih =>
      rw [place] at h
      split at h
      · rename_i hp
        rw [← h]
        exact place_prefix (hp.trans (List.prefix_append _ _))
      · rename_i hp
        obtain ⟨j, hj, rfl⟩ := Option.map_eq_some_iff.mp h
        have hlen : what.length ≤ (a :: s).length := by
          have hle := (place_eq_some hj).length_le
          rw [List.length_drop] at hle
          rw [List.length_cons]
          omega
        have hp' : ¬ what <+: a :: (s ++ t) := fun hp' =>
          hp (List.prefix_of_prefix_length_le hp' (List.prefix_append (a :: s) t) hlen)
        rw [List.cons_append, place, if_neg hp', ih hj]
        rfl

end

/-! ## Readers -/

/-- `xs` are taken from `s`, one after another, and `r` is left. -/
inductive Takes (cut : List α → Option (β × List α)) : List α → List β → List α → Prop where
  | nil {s : List α} : Takes cut s [] s
  | cons {s r r' : List α} {x : β} {xs : List β} :
      cut s = some (x, r) → Takes cut r xs r' → Takes cut s (x :: xs) r'

/-- What is taken does not depend on what comes behind it. -/
structure Steady (cut : List α → Option (β × List α)) : Prop where
  more : ∀ {s x r}, cut s = some (x, r) → ∀ t, cut (s ++ t) = some (x, r ++ t)

section
variable {cut : List α → Option (β × List α)} {s t r r' : List α} {x : β} {xs ys : List β}

theorem Takes.trans (h : Takes cut s xs r) (h' : Takes cut r ys r') :
    Takes cut s (xs ++ ys) r' := by
  induction h with
  | nil => exact h'
  | cons hcut _ ih => exact .cons hcut (ih h')

theorem Takes.snoc (h : Takes cut s xs r) (hcut : cut r = some (x, r')) :
    Takes cut s (xs ++ [x]) r' := h.trans (.cons hcut .nil)

theorem Takes.all (h : Takes cut s xs r) (hr : cut r = none) (h' : Takes cut s ys r') :
    ys <+: xs := by
  induction h generalizing ys with
  | nil =>
      cases h' with
      | nil => exact List.nil_prefix
      | cons hcut _ => cases hr.symm.trans hcut
  | cons hcut _ ih =>
      cases h' with
      | nil => exact List.nil_prefix
      | cons hcut' hrest =>
          cases hcut.symm.trans hcut'
          rw [List.cons_prefix_cons]
          exact ⟨rfl, ih hr hrest⟩

theorem Steady.append (hc : Steady cut) (h : Takes cut s xs r) (t : List α) :
    Takes cut (s ++ t) xs (r ++ t) := by
  induction h with
  | nil => exact .nil
  | cons hcut _ ih => exact .cons (hc.more hcut t) ih

end

end CppWorkspace.Searching
