/-
# `CppWorkspace.Lib.DoublyLinked` — doubly linked lists in a memory of links

Two memories, `next` and `prev`, hold a list.  `Links next prev q p l q' p'` says that the
list which starts at `p`, behind `q`, is `l`, that its last node is `q'`, and that what comes
behind it is `p'`; if the list is empty, `q` and `p` are `q'` and `p'`.  Two lists are one
after the other if the end of the first is the start of the second (`links_append`), so that
a node is taken out by writing to the end of what stands before it and to the start of what
stands behind it (`Links.setNext`, `Links.setPrev`).

    append   `b → next := NULL; b → prev := end; end → next := b`         `Links.concat`
    remove   `b → prev → next := b → next; b → next → prev := b → prev`   `Links.unlink`
-/
import CppWorkspace.Lib.LinkedList

namespace CppWorkspace.DoublyLinked

open LinkedList

variable {α : Type}

def Links (next prev : α → Option α) :
    Option α → Option α → List α → Option α → Option α → Prop
  | q, p, [], q', p' => q = q' ∧ p = p'
  | q, p, a :: l, q', p' => p = some a ∧ prev a = q ∧ Links next prev (some a) (next a) l q' p'

section
variable {next prev : α → Option α} {p q p' q' v : Option α} {a b : α} {l l₁ l₂ : List α}

theorem links_append :
    Links next prev q p (l₁ ++ l₂) q' p' ↔
      ∃ u v, Links next prev q p l₁ u v ∧ Links next prev u v l₂ q' p' := by
  induction l₁ generalizing q p with
  | nil =>
      constructor
      · exact fun h => ⟨q, p, ⟨rfl, rfl⟩, h⟩
      · rintro ⟨u, v, ⟨rfl, rfl⟩, h⟩
        exact h
  | cons a l₁ ih =>
      constructor
      · rintro ⟨hp, hq, h⟩
        obtain ⟨u, v, h₁, h₂⟩ := ih.mp h
        exact ⟨u, v, ⟨hp, hq, h₁⟩, h₂⟩
      · rintro ⟨u, v, ⟨hp, hq, h₁⟩, h₂⟩
        exact ⟨hp, hq, ih.mpr ⟨u, v, h₁, h₂⟩⟩

theorem Links.first (h : Links next prev q p l q' p') : p = l.head?.or p' := by
  cases l with
  | nil => exact h.2
  | cons a l => exact h.1

theorem Links.last (h : Links next prev q p l q' p') : q' = l.getLast?.or q := by
  induction l generalizing q p with
  | nil => exact h.1.symm
  | cons a l ih =>
      rw [ih h.2.2, List.getLast?_cons]
      cases l.getLast? <;> rfl

/-- What stands before a node, the node, and what stands behind it. -/
theorem Links.split (h : Links next prev q p (l₁ ++ a :: l₂) q' p') :
    Links next prev q p l₁ (prev a) (some a) ∧
      Links next prev (some a) (next a) l₂ q' p' := by
  obtain ⟨u, v, h₁, rfl, rfl, h₂⟩ := links_append.mp h
  exact ⟨h₁, h₂⟩

theorem Links.neighbours (h : Links next prev none p (l₁ ++ a :: l₂) q' none) :
    next a = l₂.head? ∧ prev a = l₁.getLast? := by
  obtain ⟨h₁, h₂⟩ := h.split
  exact ⟨h₂.first.trans (Option.or_none ..), h₁.last.trans (Option.or_none ..)⟩

theorem Links.inverse (h : Links next prev none p l q' none) (ha : a ∈ l) (hb : b ∈ l) :
    next a = some b ↔ prev b = some a := by
  constructor
  · intro hnext
    obtain ⟨l₁, l₂, rfl⟩ := List.append_of_mem ha
    obtain ⟨l₃, rfl⟩ := List.head?_eq_some_iff.mp (h.neighbours.1.symm.trans hnext)
    rw [List.append_cons] at h
    rw [h.neighbours.2, List.getLast?_concat]
  · intro hprev
    obtain ⟨l₁, l₂, rfl⟩ := List.append_of_mem hb
    obtain ⟨l₃, rfl⟩ := List.getLast?_eq_some_iff.mp (h.neighbours.2.symm.trans hprev)
    rw [← List.append_cons] at h
    exact h.neighbours.1

theorem Links.frame {next' prev' : α → Option α} (h : Links next prev q p l q' p')
    (hnext : ∀ x ∈ l, next' x = next x) (hprev : ∀ x ∈ l, prev' x = prev x) :
    Links next' prev' q p l q' p' := by
  induction l generalizing q p with
  | nil => exact h
  | cons a l ih =>
      obtain ⟨hp, hq, h⟩ := h
      refine ⟨hp, (hprev a List.mem_cons_self).trans hq, ?_⟩
      rw [hnext a List.mem_cons_self]
      exact ih h (fun x hx => hnext x (List.mem_cons_of_mem a hx))
        fun x hx => hprev x (List.mem_cons_of_mem a hx)

/-! ## The end -/

/-- `while (ptr → next) ptr = ptr → next;`  `none`: still running. -/
def findEnd (next : α → Option α) : Nat → α → Option α
  | 0, a => if next a = none then some a else none
  | fuel + 1, a =>
      match next a with
      | some b => findEnd next fuel b
      | none => some a

theorem Links.findEnd {fuel : Nat} (h : Links next prev q (some a) l q' none)
    (hfuel : l.length ≤ fuel) : DoublyLinked.findEnd next fuel a = l.getLast? := by
  induction l generalizing q a fuel with
  | nil =>
      obtain ⟨-, hp⟩ := h
      cases hp
  | cons c l ih =>
      obtain ⟨hc, -, h⟩ := h
      obtain rfl : a = c := Option.some.inj hc
      cases fuel with
      | zero => cases hfuel
      | succ fuel =>
          cases l with
          | nil =>
              rw [DoublyLinked.findEnd, h.2]
              rfl
          | cons b l =>
              rw [List.getLast?_cons_cons, ← ih (h.1 ▸ h) (Nat.le_of_succ_le_succ hfuel)]
              rw [DoublyLinked.findEnd, h.1]

/-! ## Writes -/

variable [DecidableEq α]

/-- `if (q) q → link := v;` -/
def writeAt (link : α → Option α) (q v : Option α) : α → Option α :=
  match q with
  | some a => write link a v
  | none => link

theorem writeAt_of_ne {link : α → Option α} (h : q ≠ some a) : writeAt link q v a = link a := by
  cases q with
  | none => rfl
  | some b => exact write_of_ne fun hab => h (hab ▸ rfl)

theorem Links.setNext (h : Links next prev none p l q' p') (hnodup : l.Nodup) (v : Option α) :
    Links (writeAt next q' v) prev none (l.head?.or v) l q' v := by
  rcases List.eq_nil_or_concat l with rfl | ⟨l, a, rfl⟩
  · obtain ⟨rfl, -⟩ := h
    exact ⟨rfl, rfl⟩
  · rw [List.concat_eq_append] at h hnodup ⊢
    have hp : (l ++ [a]).head?.or v = p := by
      rw [h.first]
      cases l <;> rfl
    obtain ⟨h₁, rfl, -⟩ := h.split
    have ha : a ∉ l := fun hmem => (List.nodup_append.mp hnodup).2.2 a hmem a (by simp) rfl
    rw [hp]
    refine links_append.mpr ⟨prev a, some a, ?_, rfl, rfl, rfl, write_self⟩
    exact h₁.frame (fun x hx => write_of_ne (ne_of_mem_of_not_mem hx ha)) fun _ _ => rfl

theorem Links.setPrev (h : Links next prev q p l q' none) (hnodup : l.Nodup) (v : Option α) :
    Links next (writeAt prev p v) v p l (l.getLast?.or v) none := by
  cases l with
  | nil =>
      obtain ⟨-, rfl⟩ := h
      exact ⟨rfl, rfl⟩
  | cons a l =>
      obtain ⟨rfl, -, h⟩ := h
      have hlast : (a :: l).getLast?.or v = q' := by
        rw [h.last, List.getLast?_cons]
        cases l.getLast? <;> rfl
      rw [hlast]
      refine ⟨rfl, write_self, h.frame (fun _ _ => rfl) fun x hx => ?_⟩
      exact write_of_ne (ne_of_mem_of_not_mem hx (List.nodup_cons.mp hnodup).1)

theorem Links.concat (h : Links next prev none p l q' none) (hnodup : l.Nodup) (hb : b ∉ l) :
    Links (writeAt (write next b none) q' (some b)) (write prev b q') none
      (l.head?.or (some b)) (l ++ [b]) (some b) none := by
  have hframe : Links (write next b none) (write prev b q') none p l q' none :=
    h.frame (fun x hx => write_of_ne (ne_of_mem_of_not_mem hx hb))
      fun x hx => write_of_ne (ne_of_mem_of_not_mem hx hb)
  have hne : q' ≠ some b := by
    rw [h.last, Option.or_none]
    exact fun hlast => hb (List.mem_of_getLast? hlast)
  refine links_append.mpr ⟨q', some b, hframe.setNext hnodup (some b), rfl, write_self, rfl, ?_⟩
  rw [writeAt_of_ne hne, write_self]

theorem Links.unlink (h : Links next prev none p (l₁ ++ b :: l₂) q' none)
    (hnodup : (l₁ ++ b :: l₂).Nodup) :
    Links (writeAt next (prev b) (next b)) (writeAt prev (next b) (prev b)) none
      (l₁.head?.or (next b)) (l₁ ++ l₂) (l₂.getLast?.or (prev b)) none := by
  obtain ⟨hnext, hprev⟩ := h.neighbours
  obtain ⟨h₁, h₂⟩ := h.split
  obtain ⟨hnodup₁, hnodup₂, hdisjoint⟩ := List.nodup_append.mp hnodup
  have hbefore : ∀ x ∈ l₁, next b ≠ some x := by
    intro x hx hbx
    have hmem : x ∈ l₂ := List.mem_of_head? (hnext.symm.trans hbx)
    exact hdisjoint x hx x (List.mem_cons_of_mem b hmem) rfl
  have hbehind : ∀ x ∈ l₂, prev b ≠ some x := by
    intro x hx hbx
    have hmem : x ∈ l₁ := List.mem_of_getLast? (hprev.symm.trans hbx)
    exact hdisjoint x hmem x (List.mem_cons_of_mem b hx) rfl
  refine links_append.mpr ⟨prev b, next b, ?_, ?_⟩
  · exact (h₁.setNext hnodup₁ (next b)).frame (fun _ _ => rfl)
      fun x hx => writeAt_of_ne (hbefore x hx)
  · exact (h₂.setPrev (List.nodup_cons.mp hnodup₂).2 (prev b)).frame
      (fun x hx => writeAt_of_ne (hbehind x hx)) fun _ _ => rfl

end

end CppWorkspace.DoublyLinked
