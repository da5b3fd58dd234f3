/-
# `CppWorkspace.IocpClient.ConnectionList` — `gConnectionList`, the list of connections

The client's connections are linked in both directions; `Client` models the list by a list.
The links of an object are not cleared when it is removed.  Between two calls the rest of the
program may write to any object that is not in the list: it is freed, and its memory used
again.

Convention: `InsertSocketObj` is given fuel for its walk to the end, which is as many rounds
as the list has nodes at most.
-/
import CppWorkspace.Lib.DoublyLinked
import CppWorkspace.Lib.Refinement

namespace CppWorkspace.IocpClient.ConnectionList

open DoublyLinked LinkedList Refinement

/-- The links of all `SOCKET_OBJ`s, and the head of the list. -/
structure Objects where
  next : Nat → Option Nat
  prev : Nat → Option Nat
  gConnectionList : Option Nat

namespace Objects

/-- `none`: the walk is still running. -/
def InsertSocketObj (fuel : Nat) (σ : Objects) (obj : Nat) : Option Objects :=
  match σ.gConnectionList with
  | some ptr => (findEnd σ.next fuel ptr).map fun e =>
      { σ with
        next := write (write σ.next obj none) e (some obj)
        prev := write (write σ.prev obj (some e)) obj (some e) }
  | none =>
      some
        { next := write σ.next obj none
          prev := write σ.prev obj none
          gConnectionList := some obj }

/-- `if (buf->prev) buf->prev->next = buf->next;` -/
def fixNext (σ : Objects) (buf : Nat) : Objects :=
  { σ with next := writeAt σ.next (σ.prev buf) (σ.next buf) }

/-- `if (buf->next) buf->next->prev = buf->prev;` -/
def fixPrev (σ : Objects) (buf : Nat) : Objects :=
  { σ with prev := writeAt σ.prev (σ.next buf) (σ.prev buf) }

/-- `if (*head == buf) (*head) = buf->next;` -/
def fixHead (σ : Objects) (buf : Nat) : Objects :=
  { σ with
    gConnectionList := if σ.gConnectionList = some buf then σ.next buf else σ.gConnectionList }

def RemoveSocketObj (σ : Objects) (buf : Nat) : Objects × Nat :=
  if σ.gConnectionList ≠ none then (((σ.fixNext buf).fixPrev buf).fixHead buf, buf) else (σ, buf)

end Objects

/-- The functions on the list of connections. -/
inductive Call where
  | InsertSocketObj (obj : Nat)
  | RemoveSocketObj (buf : Nat)
  /-- The object is used for something else. -/
  | write (obj : Nat) (next prev : Option Nat)
deriving DecidableEq, Repr

/-- What they return. -/
inductive Result where
  | void
  | pointer (p : Nat)
deriving DecidableEq, Repr

def call (fuel : Nat) (σ : Objects) : Call → Option (Objects × Result)
  | .InsertSocketObj obj => (σ.InsertSocketObj fuel obj).map fun σ' => (σ', .void)
  | .RemoveSocketObj buf => some ((σ.RemoveSocketObj buf).1, .pointer (σ.RemoveSocketObj buf).2)
  | .write obj next prev =>
      some ({ σ with next := write σ.next obj next, prev := write σ.prev obj prev }, .void)

/-! ## The sequence -/

/-- An object that is not in the list is inserted at the end, or written; one that is there is
removed. -/
def sequence (l : List Nat) : Call → Option (List Nat × Result)
  | .InsertSocketObj obj => if obj ∉ l then some (l ++ [obj], .void) else none
  | .RemoveSocketObj buf => if buf ∈ l then some (l.erase buf, .pointer buf) else none
  | .write obj _ _ => if obj ∉ l then some (l, .void) else none

/-- The list is `l`, linked in both directions. -/
structure Holds (σ : Objects) (l : List Nat) : Prop where
  links : Links σ.next σ.prev none σ.gConnectionList l l.getLast? none
  nodup : l.Nodup

section
variable {σ : Objects} {l : List Nat} {b fuel : Nat}

theorem Holds.head (h : Holds σ l) : σ.gConnectionList = l.head? :=
  h.links.first.trans (Option.or_none ..)

theorem Holds.insert (h : Holds σ l) (hb : b ∉ l) (hfuel : l.length ≤ fuel) :
    ∃ σ', σ.InsertSocketObj fuel b = some σ' ∧ Holds σ' (l ++ [b]) := by
  have hlinks := h.links.concat h.nodup hb
  have hnodup : (l ++ [b]).Nodup := by
    rw [← List.concat_eq_append]
    exact h.nodup.concat hb
  have hlast : (l ++ [b]).getLast? = some b := List.getLast?_concat
  have hhead := h.head
  cases l with
  | nil =>
      change σ.gConnectionList = none at hhead
      rw [Objects.InsertSocketObj, hhead]
      exact ⟨_, rfl, hlinks, hnodup⟩
  | cons a l =>
      change σ.gConnectionList = some a at hhead
      obtain ⟨e, he⟩ : ∃ e, (a :: l).getLast? = some e :=
        Option.ne_none_iff_exists'.mp (by simp)
      have hwalk : findEnd σ.next fuel a = some e := by
        rw [← he]
        exact (hhead ▸ h.links).findEnd hfuel
      have hprev : write (write σ.prev b (some e)) b (some e) = write σ.prev b (some e) := by
        funext x
        by_cases hx : x = b
        · rw [hx, write_self, write_self]
        · rw [write_of_ne hx]
      rw [he] at hlinks
      rw [Objects.InsertSocketObj, hhead]
      change ∃ σ', ((findEnd σ.next fuel a).map _) = some σ' ∧ _
      rw [hwalk]
      refine ⟨_, rfl, ?_, hnodup⟩
      change Links _ (write (write σ.prev b (some e)) b (some e)) none (some a) _ _ none
      rw [hprev, hlast]
      exact hlinks

/-- The node before `b` is not `b`, so that `b → next` is still there to be read. -/
theorem Holds.remove (h : Holds σ l) (hb : b ∈ l) :
    Holds (σ.RemoveSocketObj b).1 (l.erase b) ∧ (σ.RemoveSocketObj b).2 = b := by
  obtain ⟨l₁, l₂, rfl⟩ := List.append_of_mem hb
  have hnodup : (l₁ ++ l₂).Nodup := erase_middle h.nodup ▸ h.nodup.erase b
  obtain ⟨-, hprev⟩ := h.links.neighbours
  have hlinks := h.links.unlink h.nodup
  rw [hprev, ← List.getLast?_append, ← hprev] at hlinks
  have hstay : (σ.fixNext b).next b = σ.next b := by
    refine writeAt_of_ne fun hself => ?_
    have hmem : b ∈ l₁ := List.mem_of_getLast? (hprev.symm.trans hself)
    exact (List.nodup_append.mp h.nodup).2.2 b hmem b List.mem_cons_self rfl
  have hhead : (if σ.gConnectionList = some b then (σ.fixNext b).next b
      else σ.gConnectionList) = l₁.head?.or (σ.next b) := by
    rw [hstay, h.head]
    cases l₁ with
    | nil => exact if_pos rfl
    | cons c l₁ =>
        refine if_neg fun hc => ?_
        obtain rfl : c = b := Option.some.inj hc
        exact (List.nodup_cons.mp h.nodup).1 (by simp)
  have hne : σ.gConnectionList ≠ none := by
    rw [h.head]
    simp
  rw [erase_middle h.nodup, Objects.RemoveSocketObj, if_pos hne]
  refine ⟨⟨?_, hnodup⟩, rfl⟩
  change Links (writeAt σ.next (σ.prev b) (σ.next b))
    (writeAt σ.prev ((σ.fixNext b).next b) (σ.prev b)) none
    (if σ.gConnectionList = some b then (σ.fixNext b).next b else σ.gConnectionList) _ _ none
  rw [hhead, hstay]
  exact hlinks

theorem Holds.write (h : Holds σ l) (hb : b ∉ l) (next prev : Option Nat) :
    Holds { σ with
      next := LinkedList.write σ.next b next
      prev := LinkedList.write σ.prev b prev } l where
  links := h.links.frame (fun _ hx => write_of_ne (ne_of_mem_of_not_mem hx hb))
    fun _ hx => write_of_ne (ne_of_mem_of_not_mem hx hb)
  nodup := h.nodup

theorem refines : RefinesFor (call fuel) sequence
    fun n σ l => Holds σ l ∧ l.length + n ≤ fuel := by
  rintro n σ l c l' r ⟨h, hfuel⟩ hc
  cases c with
  | InsertSocketObj obj =>
      obtain ⟨hobj, heq⟩ := Option.ite_none_right_eq_some.mp hc
      cases heq
      have hlength : l.length ≤ fuel := by omega
      obtain ⟨σ', hσ', hholds⟩ := h.insert hobj hlength
      refine ⟨σ', by rw [call, hσ']; rfl, hholds, ?_⟩
      rw [List.length_append, List.length_singleton]
      omega
  | RemoveSocketObj buf =>
      obtain ⟨hbuf, heq⟩ := Option.ite_none_right_eq_some.mp hc
      cases heq
      obtain ⟨hholds, hresult⟩ := h.remove hbuf
      refine ⟨_, by rw [call, hresult], hholds, ?_⟩
      have hlength := List.length_erase_of_mem hbuf
      omega
  | write obj next prev =>
      obtain ⟨hobj, heq⟩ := Option.ite_none_right_eq_some.mp hc
      cases heq
      exact ⟨_, rfl, h.write hobj next prev, by omega⟩

/-- The calls have the results of the sequence, with any fuel for that many rounds; the links of
the list are those of the sequence. -/
theorem linked_sequence {calls : List Call} {rs : List Result} (hσ : σ.gConnectionList = none)
    (hrun : run sequence [] calls = some (l, rs)) (hfuel : calls.length ≤ fuel) :
    ∃ σ', run (call fuel) σ calls = some (σ', rs) ∧ l.Nodup ∧ σ'.gConnectionList = l.head? ∧
      (∀ a, l.head? = some a → σ'.prev a = none) ∧
      (∀ a, l.getLast? = some a → σ'.next a = none) ∧
      (∀ l₁ a l₂, l = l₁ ++ a :: l₂ → σ'.next a = l₂.head? ∧ σ'.prev a = l₁.getLast?) ∧
      ∀ a ∈ l, ∀ b ∈ l, σ'.next a = some b ↔ σ'.prev b = some a := by
  have hholds : Holds σ [] := ⟨⟨rfl, hσ⟩, List.nodup_nil⟩
  have hrounds : ([] : List Nat).length + calls.length ≤ fuel := by
    rw [List.length_nil, Nat.zero_add]
    exact hfuel
  obtain ⟨σ', hσ', ⟨hlinks, hnodup⟩, -⟩ := refines.run ⟨hholds, hrounds⟩ hrun
  refine ⟨σ', hσ', hnodup, Holds.head ⟨hlinks, hnodup⟩, ?_, ?_, ?_, ?_⟩
  · intro a ha
    obtain ⟨l₂, rfl⟩ := List.head?_eq_some_iff.mp ha
    exact hlinks.2.1
  · intro a ha
    obtain ⟨l₁, rfl⟩ := List.getLast?_eq_some_iff.mp ha
    exact hlinks.neighbours.1
  · rintro l₁ a l₂ rfl
    exact hlinks.neighbours
  · exact fun a ha b hb => hlinks.inverse ha hb

end

/-- The middle one of three, the first, the last and the only one are removed, and an object is
inserted again with the links that it had. -/
def removals : List Call :=
  [.InsertSocketObj 5, .InsertSocketObj 6, .InsertSocketObj 7, .RemoveSocketObj 6,
    .InsertSocketObj 6, .RemoveSocketObj 5, .RemoveSocketObj 6, .RemoveSocketObj 7,
    .InsertSocketObj 5, .InsertSocketObj 7]

theorem linked_sequence_removals :
    ∃ σ, run (call 10) ⟨fun _ => some 9, fun _ => some 9, none⟩ removals = some (σ,
        [.void, .void, .void, .pointer 6, .void, .pointer 5, .pointer 6, .pointer 7, .void,
          .void]) ∧
      σ.gConnectionList = some 5 ∧ σ.next 5 = some 7 ∧ σ.prev 7 = some 5 ∧ σ.next 7 = none := by
  have hrun : run sequence [] removals = some ([5, 7],
      [.void, .void, .void, .pointer 6, .void, .pointer 5, .pointer 6, .pointer 7, .void,
        .void]) := by decide
  have hfuel : removals.length ≤ 10 := by decide
  obtain ⟨σ, hσ, -, hhead, -, -, hall, -⟩ := linked_sequence
    (σ := ⟨fun _ => some 9, fun _ => some 9, none⟩) rfl hrun hfuel
  exact ⟨σ, hσ, hhead, (hall [] 5 [7] rfl).1, (hall [5] 7 [] rfl).2, (hall [5] 7 [] rfl).1⟩

end CppWorkspace.IocpClient.ConnectionList
