/-
# `CppWorkspace.IteratorImpl` — traversals of `ConcreateAggregate`

`begin()` and `end()` make an iterator once and hand out references to it:

    begin    index 0 when it is made; a loop over the reference moves it
    end      the size when it is made

So a first traversal is right, whatever the loop variable is.  A later one begins where the
iterator of `begin()` stands, and ends at the size of the first one: it is right if the
elements are as many as then and no loop has moved the iterator, or if there are no
elements and a loop has moved it to the end.  Which sizes the traversals of a sequence of
operations must find is `Meets`, and they are all right exactly then (`right_iff`).

Conventions: the iterators of one aggregate differ in their index only; the `-1` that
`GetItem` returns outside the elements is the one of `DATA`; the increment of the largest
`int`, which is undefined, is not a step.
-/
import Mathlib.Algebra.GroupWithZero.Nat
import Mathlib.Data.List.Basic

namespace CppWorkspace.IteratorImpl

/-- A `size_t` as an `int`. -/
def toInt (n : Nat) : Int :=
  if (n : Int) % 4294967296 < 2147483648 then (n : Int) % 4294967296
  else (n : Int) % 4294967296 - 4294967296

def INT_MAX : Int := 2147483647

/-! ## The container -/

/-- The container: the range of its indices, and the elements. -/
structure ConcreateAggregate (DATA : Type) where
  m_begin : Option Int
  m_end : Option Int
  m_aData : List DATA
deriving DecidableEq, Repr

/-- The loop variable. -/
inductive Var where
  | reference
  | copy
deriving DecidableEq, Repr

variable {DATA : Type}

namespace ConcreateAggregate

/-- The constructor. -/
def new : ConcreateAggregate DATA := ⟨none, none, []⟩

/-- `begin()`; the index of the iterator is that of `m_begin`. -/
def begin (σ : ConcreateAggregate DATA) : ConcreateAggregate DATA :=
  match σ.m_begin with
  | none => { σ with m_begin := some 0 }
  | some _ => σ

/-- `end()` -/
def end_ (σ : ConcreateAggregate DATA) : ConcreateAggregate DATA :=
  match σ.m_end with
  | none => { σ with m_end := some (toInt σ.m_aData.length) }
  | some _ => σ

def push_back (σ : ConcreateAggregate DATA) (dt : DATA) : ConcreateAggregate DATA :=
  { σ with m_aData := σ.m_aData ++ [dt] }

/-- Not defined on an empty container. -/
def pop_back (σ : ConcreateAggregate DATA) : Option (DATA × ConcreateAggregate DATA) :=
  σ.m_aData.getLast?.map fun tmp => (tmp, { σ with m_aData := σ.m_aData.dropLast })

/-- A negative index is a large `size_t`. -/
def GetItem [IntCast DATA] (σ : ConcreateAggregate DATA) (nIndex : Int) : DATA :=
  if 0 ≤ nIndex then σ.m_aData.getD nIndex.toNat ((-1 : Int) : DATA) else ((-1 : Int) : DATA)

end ConcreateAggregate

/-! ## A loop -/

/-- A loop; `m_nIndex` is the index of its variable if that is a copy. -/
structure Loop (DATA : Type) where
  aggregate : ConcreateAggregate DATA
  var : Var
  m_nIndex : Int

namespace Loop

/-- The index of the loop variable. -/
def index (l : Loop DATA) : Int :=
  match l.var with
  | .reference => l.aggregate.m_begin.getD 0
  | .copy => l.m_nIndex

/-- `++itr` -/
def increment (l : Loop DATA) : Loop DATA :=
  match l.var with
  | .reference => { l with aggregate := { l.aggregate with m_begin := some (l.index + 1) } }
  | .copy => { l with m_nIndex := l.index + 1 }

/-- `end()` -/
def end_ (l : Loop DATA) : Loop DATA := { l with aggregate := l.aggregate.end_ }

/-- `for (…; itr != end(); ++itr)`, with so many tests at most: the elements that are visited,
and the container then. -/
def run [IntCast DATA] : Nat → Loop DATA → Option (List DATA × ConcreateAggregate DATA)
  | 0, _ => none
  | n + 1, l =>
      if some l.end_.index = l.end_.aggregate.m_end then some ([], l.end_.aggregate)
      else if l.end_.index < INT_MAX then
        (run n l.end_.increment).map fun r => (l.end_.aggregate.GetItem l.end_.index :: r.1, r.2)
      else none

end Loop

/-- The loop variable is a reference to `begin()`, or a copy. -/
def ConcreateAggregate.enter (σ : ConcreateAggregate DATA) (v : Var) : Loop DATA where
  aggregate := σ.begin
  var := v
  m_nIndex := σ.begin.m_begin.getD 0

/-- The loop ends, and has visited `xs`. -/
def Traverses [IntCast DATA] (σ : ConcreateAggregate DATA) (v : Var) (xs : List DATA)
    (σ' : ConcreateAggregate DATA) : Prop :=
  ∃ n, (σ.enter v).run n = some (xs, σ')

/-! ## Sequences of operations -/

/-- The calls on the container and its iterator. -/
inductive Op (DATA : Type) where
  | push_back (dt : DATA)
  | pop_back
  | traverse (v : Var)
deriving DecidableEq, Repr

/-- From `n` elements on, an element is only taken where there is one. -/
def Allowed : Nat → List (Op DATA) → Prop
  | _, [] => True
  | n, .push_back _ :: ops => Allowed (n + 1) ops
  | n, .pop_back :: ops => 0 < n ∧ Allowed (n - 1) ops
  | n, .traverse _ :: ops => Allowed n ops

/-- Every traversal ends and visits the elements in order. -/
def Right [IntCast DATA] : ConcreateAggregate DATA → List (Op DATA) → Prop
  | _, [] => True
  | σ, .push_back dt :: ops => Right (σ.push_back dt) ops
  | σ, .pop_back :: ops => ∀ r ∈ σ.pop_back, Right r.2 ops
  | σ, .traverse v :: ops => ∃ σ', Traverses σ v σ.m_aData σ' ∧ Right σ' ops

/-- What the traversals after one of `n` elements must find. -/
def Var.next (v : Var) (n : Nat) : Nat :=
  match v with
  | .reference => 0
  | .copy => n

/-- From `n` elements on, the first traversal finds less than 2^31 of them, a later one as
many as the first, and none if one before it used the reference. -/
def Meets : Nat → Option Nat → List (Op DATA) → Prop
  | _, _, [] => True
  | n, m, .push_back _ :: ops => Meets (n + 1) m ops
  | n, m, .pop_back :: ops => Meets (n - 1) m ops
  | n, none, .traverse v :: ops => n < 2 ^ 31 ∧ Meets n (some (v.next n)) ops
  | n, some m, .traverse v :: ops => n = m ∧ Meets n (some (v.next m)) ops

/-! ## What a loop visits -/

theorem toInt_le (n : Nat) : toInt n ≤ INT_MAX := by
  unfold toInt INT_MAX
  split <;> omega

theorem toInt_eq_iff {n : Nat} : toInt n = n ↔ n < 2 ^ 31 := by
  unfold toInt
  split <;> omega

namespace Loop

/-- A loop that has come to index `i`; `begin()` was at `b` when it was entered. -/
def at_ (xs : List DATA) (m_end : Option Int) (b : Int) (v : Var) (i : Int) : Loop DATA :=
  match v with
  | .reference => ⟨⟨some i, m_end, xs⟩, .reference, b⟩
  | .copy => ⟨⟨some b, m_end, xs⟩, .copy, i⟩

section
variable {xs : List DATA} {b i : Int} {v : Var} {m : Option Int}

theorem index_at : (at_ xs m b v i).index = i := by cases v <;> rfl

theorem m_end_at : (at_ xs m b v i).aggregate.m_end = m := by cases v <;> rfl

theorem increment_at : (at_ xs m b v i).increment = at_ xs m b v (i + 1) := by cases v <;> rfl

theorem end_at : (at_ xs m b v i).end_ = at_ xs (some (m.getD (toInt xs.length))) b v i := by
  cases m with
  | none => rw [Option.getD_none]; cases v <;> rfl
  | some e => rw [Option.getD_some]; cases v <;> rfl

theorem enter_eq (σ : ConcreateAggregate DATA) (v : Var) :
    σ.enter v = at_ σ.m_aData σ.m_end (σ.m_begin.getD 0) v (σ.m_begin.getD 0) := by
  obtain ⟨m_begin, m_end, m_aData⟩ := σ
  cases v <;> cases m_begin <;> rfl

end

end Loop

section
variable [IntCast DATA]

/-- What `GetItem` returns does not depend on the iterators. -/
def item (xs : List DATA) (i : Int) : DATA := (⟨none, none, xs⟩ : ConcreateAggregate DATA).GetItem i

theorem items_eq (xs : List DATA) :
    (List.range xs.length).map (fun k : Nat => item xs (0 + (k : Int))) = xs := by
  apply List.ext_getElem
  · rw [List.length_map, List.length_range]
  · intro k h₁ h₂
    rw [List.getElem_map, List.getElem_range]
    simp [item, ConcreateAggregate.GetItem, h₂]

namespace Loop

variable {xs : List DATA} {b e i : Int} {v : Var} {m : Option Int}

theorem GetItem_at (k : Int) : (at_ xs m b v i).aggregate.GetItem k = item xs k := by
  cases v <;> rfl

theorem run_succ (n : Nat) : (at_ xs (some e) b v i).run (n + 1) =
    if i = e then some ([], (at_ xs (some e) b v e).aggregate)
    else if i < INT_MAX then
      ((at_ xs (some e) b v (i + 1)).run n).map fun r => (item xs i :: r.1, r.2)
    else none := by
  simp only [run, end_at, Option.getD_some, index_at, m_end_at, Option.some.injEq, increment_at,
    GetItem_at]
  split
  · rename_i h
    rw [h]
  · rfl

theorem run_end (n : Nat) :
    (at_ xs m b v i).run n = (at_ xs (some (m.getD (toInt xs.length))) b v i).run n := by
  cases n with
  | zero => rfl
  | succ n => simp only [run, end_at, Option.getD_some]

theorem run_eq {n : Nat} (h : i + n = e) (he : e ≤ INT_MAX) (tests : Nat) :
    (at_ xs (some e) b v i).run tests = if n < tests then
      some ((List.range n).map fun k : Nat => item xs (i + (k : Int)),
        (at_ xs (some e) b v e).aggregate)
    else none := by
  induction tests generalizing i n with
  | zero => rw [if_neg (Nat.not_lt_zero n)]; rfl
  | succ tests ih =>
      rw [run_succ]
      cases n with
      | zero =>
          have hi : i = e := by omega
          rw [if_pos hi, if_pos (Nat.succ_pos tests)]
          rfl
      | succ n =>
          have hne : i ≠ e := by omega
          have hlt : i < INT_MAX := by omega
          rw [if_neg hne, if_pos hlt, ih (n := n) (by omega)]
          by_cases hn : n < tests
          · rw [if_pos hn, if_pos (Nat.succ_lt_succ hn), List.range_succ_eq_map]
            have hk : ∀ k : Nat, i + 1 + (k : Int) = i + ((k + 1 : Nat) : Int) := fun k => by omega
            simp [Function.comp_def, hk]
          · rw [if_neg hn, if_neg (fun h => hn (Nat.lt_of_succ_lt_succ h))]
            rfl

theorem run_none (h : e < i) (tests : Nat) : (at_ xs (some e) b v i).run tests = none := by
  induction tests generalizing i with
  | zero => rfl
  | succ tests ih =>
      rw [run_succ, if_neg (Int.ne_of_gt h), ih (by omega)]
      split <;> rfl

end Loop

theorem traverses_iff {σ σ' : ConcreateAggregate DATA} {v : Var} {xs : List DATA} {b e : Int}
    (hb : σ.m_begin.getD 0 = b) (he : σ.m_end.getD (toInt σ.m_aData.length) = e)
    (hmax : e ≤ INT_MAX) :
    Traverses σ v xs σ' ↔ ∃ n : Nat, b + n = e ∧
      (List.range n).map (fun k : Nat => item σ.m_aData (b + (k : Int))) = xs ∧
      σ' = (Loop.at_ σ.m_aData (some e) b v e).aggregate := by
  unfold Traverses
  have hrun : ∀ tests, (σ.enter v).run tests = (Loop.at_ σ.m_aData (some e) b v b).run tests :=
    fun tests => by rw [Loop.enter_eq, hb, Loop.run_end, he]
  simp only [hrun]
  constructor
  · rintro ⟨tests, h⟩
    rcases Int.lt_or_le e b with hlt | hle
    · rw [Loop.run_none hlt] at h
      cases h
    · obtain ⟨n, hn⟩ := Int.le.dest hle
      rw [Loop.run_eq hn hmax] at h
      obtain ⟨-, h⟩ := Option.ite_none_right_eq_some.mp h
      cases h
      exact ⟨n, hn, rfl, rfl⟩
  · rintro ⟨n, hn, rfl, rfl⟩
    exact ⟨n + 1, by rw [Loop.run_eq hn hmax, if_pos (Nat.lt_succ_self n)]⟩

/-- A traversal is right if it finds as many elements as it visits, and begins at the front or
finds none. -/
theorem traverses_items_iff {σ σ' : ConcreateAggregate DATA} {v : Var} {b e : Int} {m : Nat}
    (hb : σ.m_begin.getD 0 = b) (he : σ.m_end.getD (toInt σ.m_aData.length) = e)
    (hmax : e ≤ INT_MAX) (hm : b + m = e) (hfront : b = 0 ∨ m = 0) :
    Traverses σ v σ.m_aData σ' ↔ σ.m_aData.length = m ∧
      σ' = (Loop.at_ σ.m_aData (some e) b v e).aggregate := by
  rw [traverses_iff hb he hmax]
  constructor
  · rintro ⟨n, hn, hxs, hσ'⟩
    have hlen := congrArg List.length hxs
    rw [List.length_map, List.length_range] at hlen
    exact ⟨by omega, hσ'⟩
  · rintro ⟨hlen, hσ'⟩
    refine ⟨m, hm, ?_, hσ'⟩
    rcases hfront with rfl | rfl
    · rw [← hlen]
      exact items_eq σ.m_aData
    · exact (List.length_eq_zero_iff.mp hlen).symm

end

/-! ## Sequences of traversals -/

/-- The container has `n` elements; before the first traversal there is no iterator, and
afterwards a traversal visits `m` elements. -/
def Tied (σ : ConcreateAggregate DATA) (n : Nat) : Option Nat → Prop
  | none => σ.m_aData.length = n ∧ σ.m_begin = none ∧ σ.m_end = none
  | some m => σ.m_aData.length = n ∧ ∃ b e : Int, σ.m_begin = some b ∧ σ.m_end = some e ∧
      e ≤ INT_MAX ∧ b + m = e ∧ (b = 0 ∨ m = 0)

theorem tied_of_data {σ σ' : ConcreateAggregate DATA} {n n' : Nat} {m : Option Nat}
    (h : Tied σ n m) (hlen : σ'.m_aData.length = n') (hbegin : σ'.m_begin = σ.m_begin)
    (hend : σ'.m_end = σ.m_end) : Tied σ' n' m := by
  cases m with
  | none => exact ⟨hlen, hbegin.trans h.2.1, hend.trans h.2.2⟩
  | some m =>
      obtain ⟨-, b, e, hb, he, hrest⟩ := h
      exact ⟨hlen, b, e, hbegin.trans hb, hend.trans he, hrest⟩

theorem tied_new : Tied (.new : ConcreateAggregate DATA) 0 none := ⟨rfl, rfl, rfl⟩

theorem tied_traverse {xs : List DATA} {v : Var} {b e : Int} {m : Nat} (he : e ≤ INT_MAX)
    (hm : b + m = e) (hfront : b = 0 ∨ m = 0) :
    Tied (Loop.at_ xs (some e) b v e).aggregate xs.length (some (v.next m)) := by
  cases v with
  | reference => exact ⟨rfl, e, e, rfl, rfl, he, Int.add_zero e, .inr rfl⟩
  | copy => exact ⟨rfl, b, e, rfl, rfl, he, hm, hfront⟩

section
variable [IntCast DATA]

theorem right_iff_of_tied {ops : List (Op DATA)} : ∀ {σ : ConcreateAggregate DATA} {n : Nat}
    {m : Option Nat}, Tied σ n m → Allowed n ops → (Right σ ops ↔ Meets n m ops) := by
  induction ops with
  | nil => exact fun _ _ => Iff.rfl
  | cons op ops ih =>
      intro σ n m h hops
      have hlen : σ.m_aData.length = n := by cases m <;> exact h.1
      cases op with
      | push_back dt =>
          refine ih (tied_of_data h ?_ rfl rfl) hops
          rw [ConcreateAggregate.push_back, List.length_append, hlen]
          rfl
      | pop_back =>
          have hpos : σ.m_aData ≠ [] := List.ne_nil_of_length_pos (hlen ▸ hops.1)
          have hpop : σ.pop_back = some (σ.m_aData.getLast hpos,
              { σ with m_aData := σ.m_aData.dropLast }) := by
            rw [ConcreateAggregate.pop_back, List.getLast?_eq_some_getLast hpos]
            rfl
          have hpop' : Right σ (.pop_back :: ops) ↔
              Right { σ with m_aData := σ.m_aData.dropLast } ops := by
            change (∀ r ∈ σ.pop_back, Right r.2 ops) ↔ _
            rw [hpop]
            simp
          refine hpop'.trans (ih (tied_of_data h ?_ rfl rfl) hops.2)
          rw [List.length_dropLast, hlen]
      | traverse v =>
          have hvisits : ∀ {b e : Int} {m : Nat}, σ.m_begin.getD 0 = b →
              σ.m_end.getD (toInt σ.m_aData.length) = e → e ≤ INT_MAX → b + m = e →
              (b = 0 ∨ m = 0) →
              (Right σ (.traverse v :: ops) ↔ n = m ∧ Meets n (some (v.next m)) ops) := by
            intro b e m hb he hmax hm hfront
            have hright : Right (Loop.at_ σ.m_aData (some e) b v e).aggregate ops ↔
                Meets n (some (v.next m)) ops := ih (hlen ▸ tied_traverse hmax hm hfront) hops
            rw [← hright, ← hlen]
            constructor
            · rintro ⟨σ', htraverses, hσ'⟩
              obtain ⟨hlen', rfl⟩ := (traverses_items_iff hb he hmax hm hfront).mp htraverses
              exact ⟨hlen', hσ'⟩
            · rintro ⟨hlen', hσ'⟩
              exact ⟨_, (traverses_items_iff hb he hmax hm hfront).mpr ⟨hlen', rfl⟩, hσ'⟩
          cases m with
          | none =>
              obtain ⟨-, hbegin, hend⟩ := h
              have hb : σ.m_begin.getD 0 = 0 := by rw [hbegin]; rfl
              have he : σ.m_end.getD (toInt σ.m_aData.length) = toInt n := by
                rw [hend, hlen, Option.getD_none]
              by_cases hn : n < 2 ^ 31
              · rw [hvisits hb he (toInt_le n) ((Int.zero_add _).trans (toInt_eq_iff.mpr hn).symm)
                  (.inl rfl), Meets, and_iff_right rfl, and_iff_right hn]
              · refine iff_of_false ?_ fun hmeets => hn hmeets.1
                rintro ⟨σ', htraverses, -⟩
                obtain ⟨k, hk, hxs, -⟩ := (traverses_iff hb he (toInt_le n)).mp htraverses
                have hklen := congrArg List.length hxs
                rw [List.length_map, List.length_range, hlen] at hklen
                exact hn (toInt_eq_iff.mp (by omega))
          | some m =>
              obtain ⟨-, b, e, hbegin, hend, hmax, hm, hfront⟩ := h
              exact hvisits (by rw [hbegin]; rfl) (by rw [hend]; rfl) hmax hm hfront

/-- All traversals are right exactly if each finds the size that is asked for. -/
theorem right_iff {ops : List (Op DATA)} (hops : Allowed 0 ops) :
    Right .new ops ↔ Meets 0 none ops :=
  right_iff_of_tied tied_new hops

end

/-- Two elements, traversed by two copies and then by the reference. -/
theorem right_copies : Right (.new : ConcreateAggregate Int)
    [.push_back 3, .push_back 4, .traverse .copy, .traverse .copy, .traverse .reference] := by
  have hops : Allowed 0 [Op.push_back (3 : Int), .push_back 4, .traverse .copy, .traverse .copy,
    .traverse .reference] := trivial
  exact (right_iff hops).mpr ⟨by decide, rfl, rfl, trivial⟩

/-- A second traversal by the reference finds nothing. -/
theorem not_right : ¬ ∀ ops : List (Op Int), Allowed 0 ops → Right .new ops := by
  intro h
  have hops : Allowed 0 [.push_back (3 : Int), .traverse .reference, .traverse .reference] :=
    trivial
  obtain ⟨-, hmeets, -⟩ := (right_iff_of_tied tied_new hops).mp (h _ hops)
  cases hmeets

end CppWorkspace.IteratorImpl
