/-
# `CppWorkspace.Lib.LinkedList` — singly linked lists in a memory of links

A memory of links is a function `next : α → Option α`; `none` is the null
pointer.  `Chain next p l` says that the list which starts at `p` is `l`.  One
memory can hold many lists, and one list is not disturbed by a write to a node
of another (`Chain.write`), so the operations are specified by what they do to
`l` and by the nodes whose links they leave alone:

    push     `b → next := p; p := b`                       `Chain.push`
    pop      `p := p → next`                               `Chain.pop`
    remove   search for the node before `b`, unlink `b`    `remove_mem`, `remove_not_mem`

`remove` searches in a loop.  It is given fuel, and returns as soon as there
are as many rounds as nodes.

Several lists without a common node are `Lists`; the operations are the same, with
`append` behind the last node, and `cut` where the last node is left to others while its
list still points to it.

A queue with a pointer to its last node is a `Segment` from the head up to that
node; the last node is never taken out, so that the queue is never empty:

    get      `p := p → next`, if `p` is not the tail       `Segment.get`
    put      `tail → next := b; tail := b`                 `Segment.put`
-/
import Mathlib.Data.List.Nodup
import Mathlib.Logic.Function.Basic

namespace CppWorkspace.LinkedList

variable {α : Type}

/-- The list that starts at `p`. -/
def Chain (next : α → Option α) : Option α → List α → Prop
  | p, [] => p = none
  | p, a :: l => p = some a ∧ Chain next (next a) l

/-- The nodes from `p` up to `q`, without `q`. -/
def Segment (next : α → Option α) : Option α → Option α → List α → Prop
  | p, q, [] => p = q
  | p, q, a :: l => p = some a ∧ Segment next (next a) q l

section
variable {next : α → Option α} {p q v : Option α} {a b : α} {l l' : List α}

theorem Chain.unique (h : Chain next p l) (h' : Chain next p l') : l = l' := by
  induction l generalizing p l' with
  | nil =>
      cases l' with
      | nil => rfl
      | cons a l' =>
          have hp := h.symm.trans h'.1
          cases hp
  | cons a l ih =>
      cases l' with
      | nil =>
          have hp := h'.symm.trans h.1
          cases hp
      | cons a' l' =>
          obtain rfl : a = a' := Option.some.inj (h.1.symm.trans h'.1)
          rw [ih h.2 h'.2]

theorem segment_none : Segment next p none l ↔ Chain next p l := by
  induction l generalizing p with
  | nil => exact Iff.rfl
  | cons a l ih => exact and_congr_right fun _ => ih

theorem Segment.frame {next' : α → Option α} (h : Segment next p q l)
    (hl : ∀ x ∈ l, next' x = next x) : Segment next' p q l := by
  induction l generalizing p with
  | nil => exact h
  | cons a l ih =>
      refine ⟨h.1, ?_⟩
      rw [hl a List.mem_cons_self]
      exact ih h.2 fun x hx => hl x (List.mem_cons_of_mem a hx)

theorem Chain.frame {next' : α → Option α} (h : Chain next p l)
    (hl : ∀ x ∈ l, next' x = next x) : Chain next' p l :=
  segment_none.mp ((segment_none.mpr h).frame hl)

/-- Up to one of its nodes. -/
theorem Segment.cut {l₁ l₂ : List α} (h : Segment next p q (l₁ ++ a :: l₂)) :
    Segment next p (some a) l₁ := by
  induction l₁ generalizing p with
  | nil => exact h.1
  | cons c l₁ ih => exact ⟨h.1, ih h.2⟩

theorem Chain.pop (h : Chain next (some a) l) : ∃ l', l = a :: l' ∧ Chain next (next a) l' := by
  cases l with
  | nil => cases h
  | cons b l =>
      obtain rfl : a = b := Option.some.inj h.1
      exact ⟨l, rfl, h.2⟩

theorem Chain.suffix {l₁ l₂ : List α} (h : Chain next p (l₁ ++ a :: l₂)) :
    Chain next (next a) l₂ := by
  induction l₁ generalizing p with
  | nil => exact h.2
  | cons c l₁ ih => exact ih h.2

theorem Chain.nodup (h : Chain next p l) : l.Nodup := by
  induction l generalizing p with
  | nil => exact List.nodup_nil
  | cons a l ih =>
      refine List.nodup_cons.mpr ⟨fun ha => ?_, ih h.2⟩
      obtain ⟨l₁, l₂, rfl⟩ := List.append_of_mem ha
      have heq : l₁ ++ a :: l₂ = l₂ := h.2.unique h.2.suffix
      have hlength := congrArg List.length heq
      rw [List.length_append, List.length_cons] at hlength
      omega

theorem Chain.head (h : Chain next p l) : p = l.head? := by
  cases l with
  | nil => exact h
  | cons a l => exact h.1

theorem Chain.next_last {e : α} (h : Chain next p l) (he : l.getLast? = some e) :
    next e = none := by
  obtain ⟨l₀, rfl⟩ := List.getLast?_eq_some_iff.mp he
  exact h.suffix

/-- The nodes from `p` on, `fuel` of them at most. -/
def nodes (next : α → Option α) : Nat → Option α → List α
  | _, none => []
  | 0, some _ => []
  | fuel + 1, some a => a :: nodes next fuel (next a)

theorem Chain.nodes_eq {fuel : Nat} (h : Chain next p l) (hfuel : l.length ≤ fuel) :
    nodes next fuel p = l := by
  induction l generalizing p fuel with
  | nil =>
      obtain rfl : p = none := h
      cases fuel <;> rfl
  | cons a l ih =>
      obtain ⟨rfl, hl⟩ := h
      cases fuel with
      | zero => cases hfuel
      | succ fuel => exact congrArg (a :: ·) (ih hl (Nat.le_of_succ_le_succ hfuel))

variable [DecidableEq α]

/-- `a → next := v`. -/
def write (next : α → Option α) (a : α) (v : Option α) : α → Option α :=
  fun x => if x = a then v else next x

@[simp] theorem write_self : write next a v a = v := if_pos rfl

@[simp] theorem write_of_ne (h : b ≠ a) : write next a v b = next b := if_neg h

theorem Segment.write (h : Segment next p q l) (hb : b ∉ l) (v : Option α) :
    Segment (LinkedList.write next b v) p q l :=
  h.frame fun _ hx => write_of_ne fun he => hb (he ▸ hx)

theorem Chain.write (h : Chain next p l) (hb : b ∉ l) (v : Option α) :
    Chain (LinkedList.write next b v) p l :=
  segment_none.mp ((segment_none.mpr h).write hb v)

theorem Segment.push (h : Segment next p q l) (hb : b ∉ l) :
    Segment (LinkedList.write next b p) (some b) q (b :: l) :=
  ⟨rfl, by rw [write_self]; exact h.write hb p⟩

theorem Chain.push (h : Chain next p l) (hb : b ∉ l) :
    Chain (LinkedList.write next b p) (some b) (b :: l) :=
  segment_none.mp ((segment_none.mpr h).push hb)

/-- `b → next := NULL; e → next := b`, where `e` is the last node. -/
theorem Chain.append {e : α} (h : Chain next p l) (hnodup : l.Nodup) (hb : b ∉ l)
    (he : l.getLast? = some e) :
    Chain (LinkedList.write (LinkedList.write next b none) e (some b)) p (l ++ [b]) := by
  induction l generalizing p with
  | nil => cases he
  | cons a l ih =>
      obtain ⟨rfl, hchain⟩ := h
      obtain ⟨hba, hbl⟩ := List.ne_and_not_mem_of_not_mem_cons hb
      obtain ⟨hal, hnodup⟩ := List.nodup_cons.mp hnodup
      cases l with
      | nil =>
          obtain rfl : a = e := by simpa using he
          refine ⟨rfl, write_self, ?_⟩
          rw [write_of_ne hba, write_self]
          rfl
      | cons c l =>
          rw [List.getLast?_cons_cons] at he
          have hae : a ≠ e := fun hae => hal (hae ▸ List.mem_of_getLast? he)
          refine ⟨rfl, ?_⟩
          rw [write_of_ne hae, write_of_ne (Ne.symm hba)]
          exact ih hchain hnodup hbl he

/-- `a → next := v`: another list behind `a`. -/
theorem Chain.relink {l l₁ l₂ : List α} (h : Chain next p (l₁ ++ a :: l₂))
    (hnodup : (l₁ ++ [a]).Nodup) (hv : Chain next v l) (ha : a ∉ l) :
    Chain (LinkedList.write next a v) p (l₁ ++ a :: l) := by
  induction l₁ generalizing p with
  | nil => exact ⟨h.1, by rw [write_self]; exact hv.write ha v⟩
  | cons c l₁ ih =>
      obtain ⟨hc, hnodup⟩ := List.nodup_cons.mp hnodup
      have hca : c ≠ a := fun hca => hc (by simp [hca])
      refine ⟨h.1, ?_⟩
      rw [write_of_ne hca]
      exact ih h.2 hnodup

/-! ## Removal -/

theorem erase_middle {l₁ l₂ : List α} (h : (l₁ ++ b :: l₂).Nodup) :
    (l₁ ++ b :: l₂).erase b = l₁ ++ l₂ := by
  have hb : b ∉ l₁ := fun hmem => (List.nodup_append.mp h).2.2 b hmem b (by simp) rfl
  rw [List.erase_append_right _ hb, List.erase_cons_head]

/-- `while (t && t → next != b) t = t → next;`  Outer `none`: still running. -/
def seek (next : α → Option α) (b : α) : Nat → Option α → Option (Option α)
  | _, none => some none
  | 0, some _ => none
  | fuel + 1, some a => if next a = some b then some (some a) else seek next b fuel (next a)

/-- The links and the start after the removal of `b` from the list at `p`, and
whether it was found. -/
def remove (next : α → Option α) (p : Option α) (b : α) (fuel : Nat) :
    Option ((α → Option α) × Option α × Bool) :=
  if p = some b then some (next, next b, true)
  else (seek next b fuel p).map fun t =>
    match t with
    | some a => (write next a (next b), p, true)
    | none => (next, p, false)

theorem seek_mem {fuel : Nat} (h : Chain next p l) (hp : p ≠ some b) (hb : b ∈ l)
    (hfuel : l.length ≤ fuel) :
    ∃ a l₁ l₂, seek next b fuel p = some (some a) ∧ l = l₁ ++ a :: b :: l₂ := by
  induction l generalizing p fuel with
  | nil => cases hb
  | cons a l ih =>
      obtain ⟨rfl, hl⟩ := h
      have hne : b ≠ a := fun he => hp (he ▸ rfl)
      have hb' : b ∈ l := (List.mem_cons.mp hb).resolve_left hne
      cases fuel with
      | zero => cases hfuel
      | succ fuel =>
          by_cases hnext : next a = some b
          · rw [hnext] at hl
            obtain ⟨l₂, rfl, -⟩ := hl.pop
            exact ⟨a, [], l₂, by simp [seek, hnext], rfl⟩
          · obtain ⟨c, l₁, l₂, hseek, rfl⟩ := ih hl hnext hb' (Nat.le_of_succ_le_succ hfuel)
            exact ⟨c, a :: l₁, l₂, by simpa [seek, hnext] using hseek, rfl⟩

/-- The search for a node that is not there ends at the null pointer. -/
theorem seek_not_mem {fuel : Nat} (h : Chain next p l) (hb : b ∉ l) (hfuel : l.length ≤ fuel) :
    seek next b fuel p = some none := by
  induction l generalizing p fuel with
  | nil =>
      obtain rfl : p = none := h
      cases fuel <;> rfl
  | cons a l ih =>
      obtain ⟨rfl, hl⟩ := h
      obtain ⟨hne, hb⟩ := List.ne_and_not_mem_of_not_mem_cons hb
      cases fuel with
      | zero => cases hfuel
      | succ fuel =>
          have hnext : next a ≠ some b := by
            intro he
            rw [he] at hl
            obtain ⟨l₂, rfl, -⟩ := hl.pop
            exact hb List.mem_cons_self
          simpa [seek, hnext] using ih hl hb (Nat.le_of_succ_le_succ hfuel)

/-- `a → next := b → next` takes `b` out. -/
theorem Segment.unlink {l₁ l₂ : List α} (h : Segment next p q (l₁ ++ a :: b :: l₂))
    (hnd : (l₁ ++ a :: b :: l₂).Nodup) :
    Segment (LinkedList.write next a (next b)) p q (l₁ ++ a :: l₂) := by
  induction l₁ generalizing p with
  | nil =>
      obtain ⟨rfl, hnext, hl⟩ := h
      have ha : a ∉ l₂ := fun hmem => (List.nodup_cons.mp hnd).1 (List.mem_cons_of_mem b hmem)
      exact ⟨rfl, by rw [write_self]; exact hl.write ha (next b)⟩
  | cons c l₁ ih =>
      obtain ⟨rfl, hl⟩ := h
      obtain ⟨hc, hnd⟩ := List.nodup_cons.mp hnd
      have hne : c ≠ a := fun he => hc (by simp [he])
      refine ⟨rfl, ?_⟩
      rw [write_of_ne hne]
      exact ih hl hnd

theorem remove_mem {fuel : Nat} (h : Chain next p l) (hnd : l.Nodup) (hb : b ∈ l)
    (hfuel : l.length ≤ fuel) :
    ∃ next' p', remove next p b fuel = some (next', p', true) ∧ Chain next' p' (l.erase b) ∧
      ∀ x ∉ l, next' x = next x := by
  by_cases hp : p = some b
  · subst hp
    obtain ⟨l', rfl, hl'⟩ := h.pop
    refine ⟨next, next b, if_pos rfl, ?_, fun _ _ => rfl⟩
    rw [List.erase_cons_head]
    exact hl'
  · obtain ⟨a, l₁, l₂, hseek, rfl⟩ := seek_mem h hp hb hfuel
    refine ⟨LinkedList.write next a (next b), p, by simp [remove, hp, hseek], ?_, fun x hx => ?_⟩
    · have herase : (l₁ ++ a :: b :: l₂).erase b = l₁ ++ a :: l₂ := by
        have hb₁ : b ∉ l₁ := fun hmem => (List.nodup_append.mp hnd).2.2 b hmem b (by simp) rfl
        have hab : a ≠ b := by
          intro he
          have hcons := (List.nodup_append.mp hnd).2.1
          exact (List.nodup_cons.mp hcons).1 (by simp [he])
        rw [List.erase_append_right _ hb₁, List.erase_cons_tail (by simpa using hab),
          List.erase_cons_head]
      rw [herase]
      exact segment_none.mp ((segment_none.mpr h).unlink hnd)
    · exact write_of_ne fun he => hx (by simp [he])

theorem remove_not_mem {fuel : Nat} (h : Chain next p l) (hb : b ∉ l) (hfuel : l.length ≤ fuel) :
    remove next p b fuel = some (next, p, false) := by
  have hp : p ≠ some b := by
    rintro rfl
    obtain ⟨l', rfl, -⟩ := h.pop
    exact hb List.mem_cons_self
  simp [remove, hp, seek_not_mem h hb hfuel]

/-! A second way to search: `prev` is the node before `ptr`.

    while (ptr && ptr != b) { prev = ptr; ptr = ptr → next; }

It stops at `b`, or after the last node. -/

/-- The node before `b`, or the last one; `none` if there is no such node.  Outer `none`:
still running. -/
def before (next : α → Option α) (b : α) : Nat → Option α → Option α → Option (Option α)
  | _, prev, none => some prev
  | 0, prev, some a => if a = b then some prev else none
  | fuel + 1, prev, some a =>
      if a = b then some prev else before next b fuel (some a) (next a)

theorem before_mem {fuel : Nat} {prev : Option α} (h : Segment next p q l) (hb : b ∈ l)
    (hfuel : l.length ≤ fuel) :
    ∃ l₁ l₂, l = l₁ ++ b :: l₂ ∧ before next b fuel prev p = some (l₁.getLast?.or prev) := by
  induction l generalizing p fuel prev with
  | nil => cases hb
  | cons a l ih =>
      obtain ⟨rfl, hl⟩ := h
      cases fuel with
      | zero => cases hfuel
      | succ fuel =>
          by_cases hab : a = b
          · subst hab
            exact ⟨[], l, rfl, by simp [before]⟩
          · have hb' : b ∈ l := (List.mem_cons.mp hb).resolve_left (Ne.symm hab)
            obtain ⟨l₁, l₂, rfl, hbefore⟩ := ih hl hb'
              (Nat.le_of_succ_le_succ hfuel)
            refine ⟨a :: l₁, l₂, rfl, ?_⟩
            rw [before, if_neg hab, hbefore, List.getLast?_cons]
            cases l₁.getLast? <;> rfl

/-- The nodes before `b`. -/
def upTo (next : α → Option α) (b : α) : Nat → Option α → List α
  | _, none => []
  | 0, some _ => []
  | fuel + 1, some a => if a = b then [] else a :: upTo next b fuel (next a)

theorem Segment.upTo_eq {fuel : Nat} {l₁ l₂ : List α} (h : Segment next p q (l₁ ++ b :: l₂))
    (hb : b ∉ l₁) (hfuel : l₁.length ≤ fuel) : upTo next b fuel p = l₁ := by
  induction l₁ generalizing p fuel with
  | nil =>
      obtain ⟨rfl, -⟩ := h
      cases fuel <;> simp [upTo]
  | cons a l₁ ih =>
      obtain ⟨rfl, hl⟩ := h
      obtain ⟨hba, hb⟩ := List.ne_and_not_mem_of_not_mem_cons hb
      cases fuel with
      | zero => cases hfuel
      | succ fuel =>
          rw [upTo, if_neg (Ne.symm hba), ih hl hb (Nat.le_of_succ_le_succ hfuel)]

/-! ## Several lists in one memory -/

/-- The lists `l i` start at `head i`, and no two of them have a node in common.  A list ends
at the null pointer, unless it is `loose`: then its last node may point anywhere. -/
structure Lists {ι : Type} (next : α → Option α) (head : ι → Option α) (loose : ι → Prop)
    (l : ι → List α) : Prop where
  segment : ∀ i, ∃ q, Segment next (head i) q (l i) ∧ (q = none ∨ loose i)
  nodup : ∀ i, (l i).Nodup
  disjoint : ∀ i j a, a ∈ l i → a ∈ l j → i = j

namespace Lists

variable {ι : Type} {head : ι → Option α} {loose : ι → Prop} {L : ι → List α} {i : ι}

omit [DecidableEq α] in
theorem congr {next' : α → Option α} {head' : ι → Option α} (h : Lists next head loose L)
    (hnext : next' = next) (hhead : head' = head) : Lists next' head' loose L := by
  rw [hnext, hhead]
  exact h

omit [DecidableEq α] in
theorem chain (h : Lists next head loose L) (i : ι) (hi : ¬ loose i) :
    Chain next (head i) (L i) := by
  obtain ⟨q, hq, rfl | hloose⟩ := h.segment i
  · exact segment_none.mp hq
  · exact absurd hloose hi

theorem write (h : Lists next head loose L) (hb : ∀ i, b ∉ L i) (v : Option α) :
    Lists (LinkedList.write next b v) head loose L := by
  refine ⟨fun i => ?_, h.nodup, h.disjoint⟩
  obtain ⟨q, hq, hend⟩ := h.segment i
  exact ⟨q, hq.write (hb i) v, hend⟩

variable [DecidableEq ι]

omit [DecidableEq α] in
/-- One list is replaced, by nodes of its own and nodes of none of them. -/
theorem replace {next' : α → Option α} (h : Lists next head loose L)
    (hsegment : ∃ q, Segment next' p q l ∧ (q = none ∨ loose i)) (hnodup : l.Nodup)
    (hmem : ∀ a ∈ l, a ∈ L i ∨ ∀ j, a ∉ L j)
    (hnext : ∀ j, j ≠ i → ∀ a ∈ L j, next' a = next a) :
    Lists next' (Function.update head i p) loose (Function.update L i l) := by
  have hnew : ∀ a ∈ l, ∀ j, a ∈ L j → i = j := by
    intro a ha j hj
    rcases hmem a ha with hi | hnone
    · exact h.disjoint i j a hi hj
    · exact absurd hj (hnone j)
  refine ⟨fun j => ?_, fun j => ?_, fun j k a hj hk => ?_⟩
  · by_cases hij : j = i
    · subst hij
      rw [Function.update_self, Function.update_self]
      exact hsegment
    · rw [Function.update_of_ne hij, Function.update_of_ne hij]
      obtain ⟨q, hq, hend⟩ := h.segment j
      exact ⟨q, hq.frame (hnext j hij), hend⟩
  · by_cases hij : j = i
    · subst hij
      rw [Function.update_self]
      exact hnodup
    · rw [Function.update_of_ne hij]
      exact h.nodup j
  · by_cases hij : j = i
    · by_cases hik : k = i
      · rw [hij, hik]
      · subst hij
        rw [Function.update_self] at hj
        rw [Function.update_of_ne hik] at hk
        exact hnew a hj k hk
    · rw [Function.update_of_ne hij] at hj
      by_cases hik : k = i
      · subst hik
        rw [Function.update_self] at hk
        exact (hnew a hk j hj).symm
      · rw [Function.update_of_ne hik] at hk
        exact h.disjoint j k a hj hk

theorem push (h : Lists next head loose L) (hb : ∀ i, b ∉ L i) (i : ι) :
    Lists (LinkedList.write next b (head i)) (Function.update head i (some b)) loose
      (Function.update L i (b :: L i)) := by
  obtain ⟨q, hq, hend⟩ := h.segment i
  refine h.replace ⟨q, hq.push (hb i), hend⟩ (List.nodup_cons.mpr ⟨hb i, h.nodup i⟩) ?_ ?_
  · intro a ha
    rcases List.mem_cons.mp ha with rfl | ha
    · exact .inr hb
    · exact .inl ha
  · intro j _ a ha
    exact write_of_ne fun he => hb j (he ▸ ha)

omit [DecidableEq α] in
theorem pop (h : Lists next head loose L) (hloose : ¬ loose i) (hi : head i = some b) :
    ∃ l, L i = b :: l ∧
      Lists next (Function.update head i (next b)) loose (Function.update L i l) := by
  obtain ⟨l, hl, hchain⟩ := (hi ▸ h.chain i hloose).pop
  refine ⟨l, hl, h.replace ⟨none, segment_none.mpr hchain, .inl rfl⟩ ?_ ?_ fun _ _ _ _ => rfl⟩
  · exact (List.nodup_cons.mp (hl ▸ h.nodup i)).2
  · intro a ha
    exact .inl (hl ▸ List.mem_cons_of_mem b ha)

theorem append {e : α} (h : Lists next head loose L) (hloose : ¬ loose i) (hb : ∀ i, b ∉ L i)
    (he : (L i).getLast? = some e) :
    Lists (LinkedList.write (LinkedList.write next b none) e (some b)) head loose
      (Function.update L i (L i ++ [b])) := by
  have hmem : e ∈ L i := List.mem_of_getLast? he
  have happend := (h.chain i hloose).append (h.nodup i) (hb i) he
  have hset := h.replace (i := i) ⟨none, segment_none.mpr happend, .inl rfl⟩ ?_ ?_ ?_
  · rwa [Function.update_eq_self] at hset
  · rw [List.nodup_append]
    exact ⟨h.nodup i, List.nodup_singleton b,
      fun a ha c hc hac => hb i (by rw [← List.mem_singleton.mp hc, ← hac]; exact ha)⟩
  · intro a ha
    rcases List.mem_append.mp ha with ha | ha
    · exact .inl ha
    · obtain rfl := List.mem_singleton.mp ha
      exact .inr hb
  · intro j hj a ha
    have hae : a ≠ e := fun hae => hj (h.disjoint j i a ha (hae ▸ hmem))
    have hab : a ≠ b := fun hab => hb j (hab ▸ ha)
    rw [write_of_ne hae, write_of_ne hab]

theorem unlink {fuel : Nat} (h : Lists next head loose L) (hb : b ∈ L i)
    (hfuel : (L i).length ≤ fuel) :
    ∃ prev, before next b fuel none (head i) = some prev ∧
      match prev with
      | some a => Lists (LinkedList.write next a (next b)) head loose
          (Function.update L i ((L i).erase b))
      | none => Lists next (Function.update head i (next b)) loose
          (Function.update L i ((L i).erase b)) := by
  obtain ⟨q, hq, hend⟩ := h.segment i
  obtain ⟨l₁, l₂, hL, hbefore⟩ := before_mem hq hb hfuel
  have hnodup := hL ▸ h.nodup i
  have herase : (L i).erase b = l₁ ++ l₂ := hL ▸ erase_middle hnodup
  have hnodup' : (l₁ ++ l₂).Nodup := herase ▸ (h.nodup i).erase b
  have hmem : ∀ a ∈ l₁ ++ l₂, a ∈ L i ∨ ∀ j, a ∉ L j :=
    fun a ha => .inl (List.mem_of_mem_erase (herase ▸ ha))
  rw [Option.or_none] at hbefore
  refine ⟨_, hbefore, ?_⟩
  rw [herase]
  rw [hL] at hq
  cases hlast : l₁.getLast? with
  | none =>
      obtain rfl := List.getLast?_eq_none_iff.mp hlast
      obtain ⟨-, hq⟩ := hq
      exact h.replace ⟨q, hq, hend⟩ hnodup' hmem fun _ _ _ _ => rfl
  | some a =>
      obtain ⟨l₀, rfl⟩ : ∃ l₀, l₁ = l₀ ++ [a] := List.getLast?_eq_some_iff.mp hlast
      rw [List.append_assoc, List.singleton_append] at hq hnodup hL
      have hset := h.replace (i := i) (p := head i) ⟨q, hq.unlink hnodup, hend⟩
        (by simpa using hnodup') (by simpa using hmem) ?_
      · rw [Function.update_eq_self] at hset
        simpa using hset
      · intro j hj c hc
        have hai : a ∈ L i := by simp [hL]
        exact write_of_ne fun hca => hj (h.disjoint j i c hc (hca ▸ hai))

omit [DecidableEq α] in
/-- The last node of a list is left to others, with all that it points to. -/
theorem cut {loose' : ι → Prop} (h : Lists next head loose L) (hL : L i = l ++ [b])
    (hle : ∀ j, loose j → loose' j) (hloose : loose' i) :
    Lists next head loose' (Function.update L i l) := by
  have hmore : Lists next head loose' L := by
    refine ⟨fun j => ?_, h.nodup, h.disjoint⟩
    obtain ⟨q, hq, hend⟩ := h.segment j
    exact ⟨q, hq, hend.imp_right (hle j)⟩
  obtain ⟨q, hq, -⟩ := h.segment i
  have hnodup := hL ▸ h.nodup i
  have hset := hmore.replace (i := i) (p := head i) ⟨some b, (hL ▸ hq).cut, .inr hloose⟩
    (List.nodup_append.mp hnodup).1 (fun a ha => .inl (by simp [hL, ha])) fun _ _ _ _ => rfl
  rwa [Function.update_eq_self] at hset

end Lists

/-! ## Queues -/

omit [DecidableEq α] in
theorem Segment.snoc (h : Segment next p (some a) l) : Segment next p (next a) (l ++ [a]) := by
  induction l generalizing p with
  | nil => exact ⟨h, rfl⟩
  | cons c l ih => exact ⟨h.1, ih h.2⟩

omit [DecidableEq α] in
theorem Segment.get (h : Segment next (some a) (some b) l) (hne : a ≠ b) :
    ∃ l', l = a :: l' ∧ Segment next (next a) (some b) l' := by
  cases l with
  | nil => exact absurd (Option.some.inj h) hne
  | cons c l =>
      obtain rfl : a = c := Option.some.inj h.1
      exact ⟨l, rfl, h.2⟩

theorem Segment.put (h : Segment next p (some a) l) (ha : a ∉ l) (b : α) :
    Segment (LinkedList.write next a (some b)) p (some b) (l ++ [a]) := by
  have hsnoc := (h.write ha (some b)).snoc
  rwa [write_self] at hsnoc

end

end CppWorkspace.LinkedList
