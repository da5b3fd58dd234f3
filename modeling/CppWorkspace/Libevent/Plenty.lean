/-
# `CppWorkspace.Libevent.Plenty` — evbuffers as long as no allocation fails

The callers of `buffer.c` often do not look at what its functions return.  What they are for
then holds only as long as `mm_malloc` does not fail (`World.Plenty`): here the functions have
one result each, and an effect on the contents (`Leaves`).
-/
import CppWorkspace.Libevent.Evbuffers

namespace CppWorkspace.Libevent

/-- No call of `mm_malloc` fails from now on. -/
def World.Plenty (w : World) : Prop := ∀ i, w.mallocs ≤ i → w.fails i = false

/-- The evbuffers have the contents `s` now, and those that were tight still are. -/
structure Leaves (w w' : World) (s : BufId → Contents) : Prop where
  represents : Represents w' s
  fails : w'.fails = w.fails
  mallocs : w.mallocs ≤ w'.mallocs
  tight : ∀ j, w.Tight j → w'.Tight j

section
variable {w w' v : World} {s s' : BufId → Contents} {b : BufId} {c : Call} {bs data : List UInt8}
  {n : Nat}

theorem World.Plenty.not_outOfMemory (h : w.Plenty) : ¬w.OutOfMemory w' := by
  rintro ⟨i, hge, -, hi⟩
  rw [h i hge] at hi
  cases hi

theorem World.start_plenty : (World.start fun _ => false).Plenty := fun _ _ => rfl

theorem Leaves.refl (h : Represents w s) : Leaves w w s :=
  ⟨h, rfl, Nat.le_refl _, fun _ ht => ht⟩

theorem Leaves.trans (h : Leaves w w' s) (h' : Leaves w' v s') : Leaves w v s' :=
  ⟨h'.represents, h'.fails.trans h.fails, Nat.le_trans h.mallocs h'.mallocs,
    fun j hj => h'.tight j (h.tight j hj)⟩

theorem Leaves.plenty (h : Leaves w w' s) (hw : w.Plenty) : w'.Plenty := fun i hi => by
  rw [h.fails]
  exact hw i (Nat.le_trans h.mallocs hi)

theorem Outcome.leaves (h : Outcome w c w' s) (hc : c.Outputs w.Tight) : Leaves w w' s :=
  ⟨h.represents, h.fails, h.mallocs, h.tight w.Tight hc fun _ ht => ht⟩

theorem Represents.length_le (h : Represents w s) (b : BufId) :
    (s b).bytes.length ≤ EV_SSIZE_MAX := by
  obtain ⟨L, h⟩ := h
  rw [← h.total_len]
  exact (h.sized b).total_len

theorem le_maxLen (h : n ≤ 64) : n ≤ maxLen := Nat.le_trans h (by decide)

theorem add_outcome (h : Represents w s) (hw : w.Plenty) (hb : s b = ⟨bs, false, false⟩)
    (htight : data = [] ∨ w.Tight b) (hlen : data.length ≤ maxLen)
    (hfit : bs.length + data.length ≤ EV_SSIZE_MAX) :
    ∃ w', evbuffer_add w b data = some (w', 0) ∧
      Outcome w (.add b data) w' (Function.update s b ⟨bs ++ data, false, false⟩) := by
  have htotal := h.total_len b
  obtain ⟨L, h⟩ := h
  rw [hb] at htotal
  obtain ⟨w', r, s', hcall, hallows, hout⟩ :=
    h.call (c := .add b data) ⟨⟨hlen, by rwa [htotal]⟩, htight⟩
  rw [Allows, Adds, hb, if_neg Bool.false_ne_true] at hallows
  rcases hallows with ⟨hmem, -⟩ | ⟨rfl, rfl⟩
  · exact absurd hmem hw.not_outOfMemory
  · obtain ⟨⟨w₁, r⟩, hadd, hx⟩ := Option.map_eq_some_iff.mp hcall
    cases hx
    exact ⟨_, hadd, hout⟩

theorem add_leaves (h : Represents w s) (hw : w.Plenty) (hb : s b = ⟨bs, false, false⟩)
    (htight : w.Tight b) (hne : data ≠ []) (hlen : data.length ≤ maxLen)
    (hfit : bs.length + data.length ≤ EV_SSIZE_MAX) :
    ∃ w', evbuffer_add w b data = some (w', 0) ∧
      Leaves w w' (Function.update s b ⟨bs ++ data, false, false⟩) := by
  obtain ⟨w', hadd, hout⟩ := add_outcome h hw hb (.inr htight) hlen hfit
  exact ⟨w', hadd, hout.leaves ⟨htight, hne⟩⟩

theorem add_references_leave (ps : List (List UInt8)) (h : Represents w s) (hw : w.Plenty)
    (hb : s b = ⟨bs, false, false⟩) (htight : w.Tight b)
    (hps : ∀ p ∈ ps, p ≠ [] ∧ p.length ≤ maxLen)
    (hfit : bs.length + ps.flatten.length ≤ EV_SSIZE_MAX) :
    ∃ w' rs, Refinement.run World.call w (ps.map fun p => .add_reference b p) = some (w', rs) ∧
      Leaves w w' (Function.update s b ⟨bs ++ ps.flatten, false, false⟩) := by
  induction ps generalizing w s bs with
  | nil =>
      refine ⟨w, [], rfl, ?_⟩
      rw [List.flatten_nil, List.append_nil, ← hb, Function.update_eq_self]
      exact .refl h
  | cons p ps ih =>
      obtain ⟨hne, hlen⟩ := hps p List.mem_cons_self
      have htotal := h.total_len b
      rw [hb] at htotal
      rw [List.flatten_cons, List.length_append] at hfit
      have hmodels := h
      obtain ⟨L, hmodels⟩ := hmodels
      obtain ⟨w₁, r, s₁, hcall, hallows, hout⟩ := hmodels.call (c := .add_reference b p)
        ⟨⟨hne, hlen, by rw [htotal]; show bs.length + p.length ≤ _; omega⟩, .inr htight⟩
      rw [Allows, Adds, hb, if_neg Bool.false_ne_true] at hallows
      rcases hallows with ⟨hmem, -⟩ | ⟨rfl, rfl⟩
      · exact absurd hmem hw.not_outOfMemory
      · have hl₁ := hout.leaves htight
        obtain ⟨w₂, rs, hrun, hl₂⟩ := ih hout.represents (hl₁.plenty hw) (Function.update_self ..)
          (hl₁.tight b htight) (fun q hq => hps q (List.mem_cons_of_mem p hq))
          (by simp only [List.length_append]; omega)
        have hl := hl₁.trans hl₂
        rw [Function.update_idem, List.append_assoc] at hl
        refine ⟨w₂, ((0 : Nat), []) :: rs, ?_, by rwa [List.flatten_cons]⟩
        rw [List.map_cons, Refinement.run, hcall, Option.bind_some, hrun]
        rfl

theorem drain_leaves (h : Represents w s) (hb : s b = ⟨bs, false, false⟩) :
    ∃ w', evbuffer_drain w b n = some (w', 0) ∧
      Leaves w w' (Function.update s b ⟨bs.drop n, false, false⟩) := by
  obtain ⟨L, h⟩ := h
  obtain ⟨w', r, s', hcall, hallows, hout⟩ := h.call (c := .drain b n) ⟨trivial, trivial⟩
  have hdone : r = (0, []) ∧ s' = Function.update s b ⟨bs.drop n, false, false⟩ := by
    rw [Allows, hb] at hallows
    split at hallows
    · rename_i hnil
      obtain rfl : bs = [] := hnil
      rw [List.drop_nil, ← hb, Function.update_eq_self]
      exact hallows
    · rwa [if_neg Bool.false_ne_true] at hallows
  obtain ⟨rfl, rfl⟩ := hdone
  obtain ⟨⟨w₁, r⟩, hdrain, hx⟩ := Option.map_eq_some_iff.mp hcall
  cases hx
  exact ⟨_, hdrain, hout.leaves trivial⟩

theorem remove_leaves (h : Represents w s) (hb : s b = ⟨bs, false, false⟩) (hn : n ≤ bs.length) :
    ∃ w', evbuffer_remove w b n = some (w', ((n : Nat) : Int), bs.take n) ∧
      Leaves w w' (Function.update s b ⟨bs.drop n, false, false⟩) := by
  obtain ⟨L, h⟩ := h
  obtain ⟨w', r, s', hcall, hallows, hout⟩ := h.call (c := .remove b n) ⟨trivial, trivial⟩
  rw [Allows, hb, if_neg (by simp), Nat.min_eq_left hn] at hallows
  obtain ⟨rfl, rfl⟩ := hallows
  exact ⟨_, hcall, hout.leaves trivial⟩

theorem pullup_leaves (h : Represents w s) (hw : w.Plenty) (hpos : 0 < n)
    (hn : n ≤ (s b).bytes.length) (hmax : n ≤ maxLen) :
    ∃ w' data, evbuffer_pullup w b (n : Nat) = some (w', some data) ∧ n ≤ data.length ∧
      data <+: (s b).bytes ∧ Leaves w w' s := by
  obtain ⟨L, h⟩ := h
  have hsize : ∀ t, pullSize t (n : Nat) = n := fun t => by
    rw [pullSize, if_neg (by omega), Int.toNat_natCast]
  have hf : w.Fits (.pullup b (n : Nat)) := by
    show pullSize _ _ ≤ maxLen
    rwa [hsize]
  obtain ⟨w', r, s', hcall, hallows, hout⟩ := h.call ⟨hf, trivial⟩
  simp only [Allows, hsize] at hallows
  obtain ⟨rfl, hallows⟩ := hallows
  rw [if_neg (by omega)] at hallows
  rcases hallows with ⟨hmem, -⟩ | ⟨hr, hlen, hpre⟩
  · exact absurd hmem hw.not_outOfMemory
  · obtain ⟨⟨w₁, o⟩, hpull, hx⟩ := Option.map_eq_some_iff.mp hcall
    cases o with
    | none =>
        cases hx
        cases hr
    | some data =>
        cases hx
        exact ⟨_, data, hpull, hlen, hpre, hout.leaves trivial⟩

theorem malloc_leaves (h : Represents w s) : Leaves w { w with mallocs := w.mallocs + 1 } s := by
  obtain ⟨L, h⟩ := h
  exact ⟨⟨L, h.inv.next_malloc, h.counted, h.sized, h.contents⟩, rfl, Nat.le_succ _,
    fun _ ht => ht⟩

end

end CppWorkspace.Libevent
