/-
# `CppWorkspace.LibeventServer.FreeQueue` — `GetFreeConn` and `PutFreeConn`, access by access

The listener takes `Conn`s from the head of the list, a worker puts them behind
the tail, and there is no lock.  Here each read and each write of `head`, `tail`
and `next` is a step of its own:

    getter   head · tail · head · head · head->next · head :=
    putter   tail · tail->next := · tail :=

The list is a queue whose last `Conn` is held back: it is not handed out, and
its `next` is the one that the putter writes.  `freeConns_atomic` says that the
two refine the queue with `heldBack` as its operations, where a put takes effect
with the write of `tail`, a get that finds a `Conn` with the write of `head`,
and one that finds none with its read of `tail`.

Ghost fields: `out`, the `Conn`s that were obtained and not yet returned, and
`linked`, whether the `next` of a `Conn` was written since the `Conn` has left
the list.
-/
import CppWorkspace.Lib.Atomic
import CppWorkspace.LibeventServer.Pool

namespace CppWorkspace.LibeventServer.FreeQueue

open LinkedList Runs Atomic

/-! ## The two functions -/

/-- Where `GetFreeConn` stands. -/
inductive Getter
  | idle
  | entered
  /-- `head` is read, to be compared. -/
  | head (h : Option Nat)
  /-- `head` is not `tail`. -/
  | more
  /-- `pItem` is set. -/
  | item (p : Option Nat)
  /-- `head` is read once more. -/
  | again (p h : Option Nat)
  /-- `head->next` is read. -/
  | link (p n : Option Nat)
  | done (p : Option Nat)
deriving DecidableEq

/-- Where `PutFreeConn` stands. -/
inductive Putter
  | idle
  | entered (p : Nat)
  /-- `tail` is read. -/
  | tail (p t : Nat)
  /-- `tail->next` is written. -/
  | linked (p : Nat)
  | done
deriving DecidableEq

/-- The list of free `Conn`s, and the two threads at their places. -/
structure State where
  head : Option Nat
  tail : Nat
  next : Nat → Option Nat
  getter : Getter
  putter : Putter
  out : List Nat
  linked : Nat → Bool

/-- A step of the thread that gets or of the one that puts. -/
inductive Act
  | callGet
  | getter
  | retGet
  | callPut (p : Nat)
  | putter
  | retPut
deriving DecidableEq

namespace State

/-- The list as `StartServer` makes it. -/
def start (connnum : Nat) : State where
  head := (Worker.start connnum).head
  tail := (Worker.start connnum).tail
  next := (Worker.start connnum).next
  getter := .idle
  putter := .idle
  out := []
  linked p := decide (p < connnum)

/-- The next access of `GetFreeConn`; `none` also for a null pointer that is followed. -/
def stepGetter (s : State) : Option State :=
  match s.getter with
  | .idle | .done _ => none
  | .entered => some { s with getter := .head s.head }
  | .head h => some { s with getter := if h = some s.tail then .done none else .more }
  | .more => some { s with getter := .item s.head }
  | .item p => some { s with getter := .again p s.head }
  | .again p h => h.map fun c => { s with getter := .link p (s.next c) }
  | .link p n =>
      some { s with
        head := n
        getter := .done p
        linked := fun c => if some c = p then false else s.linked c }

/-- The next access of `PutFreeConn`. -/
def stepPutter (s : State) : Option State :=
  match s.putter with
  | .idle | .done => none
  | .entered p => some { s with putter := .tail p s.tail }
  | .tail p t =>
      some { s with
        next := write s.next t (some p)
        putter := .linked p
        linked := fun c => if c = t then true else s.linked c }
  | .linked p => some { s with tail := p, putter := .done }

/-- One access, a call or a return.  A `Conn` is put back that was obtained. -/
def step (s : State) : Act → Option State
  | .callGet => if s.getter = .idle then some { s with getter := .entered } else none
  | .getter => s.stepGetter
  | .retGet =>
      match s.getter with
      | .done p => some { s with getter := .idle, out := p.toList ++ s.out }
      | _ => none
  | .callPut p =>
      if s.putter = .idle ∧ p ∈ s.out then
        some { s with putter := .entered p, out := s.out.erase p }
      else none
  | .putter => s.stepPutter
  | .retPut => if s.putter = .done then some { s with putter := .idle } else none

end State

/-! ## The queue -/

/-- The two ends of the list, one thread each. -/
inductive Side
  | getter
  | putter
deriving DecidableEq

/-- The two functions of the list. -/
inductive Op
  | get
  | put (p : Nat)

/-- A FIFO queue whose last element is held back. -/
def heldBack : Spec (List Nat) Op (Option Nat) where
  apply
    | p :: q :: l, .get => (q :: l, some p)
    | l, .get => (l, none)
    | l, .put p => (l ++ [p], none)

/-- The calls and the returns. -/
def vis (s : State) : Act → Option (Label Side Op (Option Nat))
  | .callGet => some (.call .getter .get)
  | .retGet =>
      match s.getter with
      | .done p => some (.ret .getter p)
      | _ => none
  | .callPut p => some (.call .putter (.put p))
  | .retPut => some (.ret .putter none)
  | .getter | .putter => none

/-- All `Conn`s are free, in the order of the array. -/
def initial (connnum : Nat) : Object Side (List Nat) Op (Option Nat) where
  value := List.range (connnum + 1)
  status _ := .idle

/-! ## The two functions and the queue -/

/-- The `Conn` that a get is about to return. -/
def Getter.holds : Getter → List Nat
  | .done p => p.toList
  | _ => []

/-- The `Conn` of a put that has not taken effect. -/
def Putter.holds : Putter → List Nat
  | .entered p | .tail p _ | .linked p => [p]
  | .idle | .done => []

/-- What the getter knows, and the status of its operation. -/
def Getter.Agrees (head : Option Nat) (tail : Nat) (next : Nat → Option Nat)
    (x : Status Op (Option Nat)) : Getter → Prop
  | .idle => x = .idle
  | .entered => x = .called .get
  | .head h => x = .called .get ∧ h = head
  | .more => x = .called .get ∧ head ≠ some tail
  | .item p => x = .called .get ∧ head ≠ some tail ∧ p = head
  | .again p h => x = .called .get ∧ head ≠ some tail ∧ p = head ∧ h = head
  | .link p n => x = .called .get ∧ head ≠ some tail ∧ p = head ∧ n = head.bind next
  | .done p => x = .done p

/-- What the putter knows, and the status of its operation. -/
def Putter.Agrees (tail : Nat) (next : Nat → Option Nat) (linked : Nat → Bool)
    (x : Status Op (Option Nat)) : Putter → Prop
  | .idle => x = .idle
  | .entered p => x = .called (.put p)
  | .tail p t => x = .called (.put p) ∧ t = tail
  | .linked p => x = .called (.put p) ∧ next tail = some p ∧ linked tail = true
  | .done => x = .done none

/-- The `Conn`s `l` come before the tail, and each `Conn` has one place. -/
structure Simulates (n : Nat) (l : List Nat) (s : State)
    (c : Object Side (List Nat) Op (Option Nat)) : Prop where
  value : c.value = l ++ [s.tail]
  segment : Segment s.next s.head (some s.tail) l
  places : (l ++ [s.tail] ++ s.out ++ s.getter.holds ++ s.putter.holds).Perm (List.range (n + 1))
  linked : ∀ p ∈ l, s.linked p = true
  getter : s.getter.Agrees s.head s.tail s.next (c.status .getter)
  putter : s.putter.Agrees s.tail s.next s.linked (c.status .putter)

theorem start_simulates (n : Nat) : Simulates n (List.range n) (State.start n) (initial n) where
  value := by
    rw [initial, List.range_succ]
    rfl
  segment := by
    rw [List.range_eq_range']
    exact Worker.start_segment n n 0 (by omega)
  places := by
    rw [List.range_succ]
    simp [State.start, Getter.holds, Putter.holds, Worker.start]
  linked := by
    intro p hp
    exact decide_eq_true (List.mem_range.mp hp)
  getter := rfl
  putter := rfl

section
variable {n : Nat} {l : List Nat} {s t : State} {c : Object Side (List Nat) Op (Option Nat)}

theorem Simulates.ofGetter (h : Simulates n l s c) {g : Getter}
    {d : Object Side (List Nat) Op (Option Nat)} (hholds : g.holds = s.getter.holds)
    (hvalue : d.value = c.value) (hputter : d.status .putter = c.status .putter)
    (hg : g.Agrees s.head s.tail s.next (d.status .getter)) :
    Simulates n l { s with getter := g } d where
  value := hvalue.trans h.value
  segment := h.segment
  places := by
    show (l ++ [s.tail] ++ s.out ++ g.holds ++ s.putter.holds).Perm _
    rw [hholds]
    exact h.places
  linked := h.linked
  getter := hg
  putter := by
    rw [hputter]
    exact h.putter

theorem Simulates.ofPutter (h : Simulates n l s c) {q : Putter}
    {d : Object Side (List Nat) Op (Option Nat)} (hholds : q.holds = s.putter.holds)
    (hvalue : d.value = c.value) (hgetter : d.status .getter = c.status .getter)
    (hq : q.Agrees s.tail s.next s.linked (d.status .putter)) :
    Simulates n l { s with putter := q } d where
  value := hvalue.trans h.value
  segment := h.segment
  places := by
    show (l ++ [s.tail] ++ s.out ++ s.getter.holds ++ q.holds).Perm _
    rw [hholds]
    exact h.places
  linked := h.linked
  getter := by
    rw [hgetter]
    exact h.getter
  putter := hq

theorem Simulates.nodup (h : Simulates n l s c) :
    (l ++ [s.tail] ++ s.out ++ s.getter.holds ++ s.putter.holds).Nodup :=
  h.places.nodup_iff.mpr List.nodup_range

theorem Simulates.head (h : Simulates n l s c) (hne : s.head ≠ some s.tail) :
    ∃ p l', l = p :: l' ∧ s.head = some p ∧ Segment s.next (s.next p) (some s.tail) l' := by
  cases l with
  | nil => exact absurd h.segment hne
  | cons p l' => exact ⟨p, l', rfl, h.segment.1, h.segment.2⟩

theorem heldBack_get (p t : Nat) (l : List Nat) :
    heldBack.apply (p :: l ++ [t]) .get = (l ++ [t], some p) := by
  cases l with
  | nil => rfl
  | cons q l => rfl

theorem heldBack_put (p : Nat) : ∀ l : List Nat, heldBack.apply l (.put p) = (l ++ [p], none)
  | [] => rfl
  | [_] => rfl
  | _ :: _ :: _ => rfl

theorem Simulates.head_ne (h : Simulates n l s c) {p : Nat} (hp : p ∈ s.putter.holds) :
    s.head ≠ some p := by
  intro hhead
  have hmem : p ∈ l ++ [s.tail] := by
    cases l with
    | nil =>
        obtain rfl : s.tail = p := Option.some.inj (h.segment.symm.trans hhead)
        exact List.mem_cons_self
    | cons a l =>
        obtain rfl : a = p := Option.some.inj (h.segment.1.symm.trans hhead)
        exact List.mem_cons_self
  have hcount := List.nodup_iff_count_le_one.mp h.nodup p
  have h₁ := List.count_pos_iff.mpr hmem
  have h₂ := List.count_pos_iff.mpr hp
  simp only [List.count_append] at hcount h₁
  omega

theorem Putter.Agrees.congr {q : Putter} {tail : Nat} {next : Nat → Option Nat}
    {linked linked' : Nat → Bool} {x : Status Op (Option Nat)} (h : q.Agrees tail next linked x)
    (hl : linked' tail = linked tail) : q.Agrees tail next linked' x := by
  cases q with
  | linked p => exact ⟨h.1, h.2.1, hl.trans h.2.2⟩
  | _ => exact h

theorem Simulates.stepGetter (h : Simulates n l s c) (hstep : s.stepGetter = some t) :
    ∃ l' d, History heldBack c [] d ∧ Simulates n l' t d := by
  have hag := h.getter
  unfold State.stepGetter at hstep
  cases hg : s.getter with
  | idle =>
      simp only [hg] at hstep
      cases hstep
  | done p =>
      simp only [hg] at hstep
      cases hstep
  | entered =>
      simp only [hg] at hstep hag
      cases hstep
      exact ⟨l, c, .nil, h.ofGetter (g := .head s.head) (by rw [hg]; rfl) rfl rfl ⟨hag, rfl⟩⟩
  | head p =>
      simp only [hg] at hstep hag
      obtain ⟨hx, rfl⟩ := hag
      by_cases htail : s.head = some s.tail
      · -- nothing but the tail: the get takes effect with this read
        rw [if_pos htail] at hstep
        cases hstep
        obtain rfl : l = [] := by
          cases l with
          | nil => rfl
          | cons p l =>
              have hp : p = s.tail := Option.some.inj (h.segment.1.symm.trans htail)
              have hnd := h.nodup
              rw [hp] at hnd
              simp at hnd
        refine ⟨[], _, .effect .getter .get .nil hx,
          h.ofGetter (g := .done none) (by rw [hg]; rfl) ?_ ?_ ?_⟩
        · rw [Object.set_value, h.value]
          rfl
        · rw [Object.set_of_ne (by decide)]
        · rw [Object.set_self, h.value]
          rfl
      · rw [if_neg htail] at hstep
        cases hstep
        exact ⟨l, c, .nil, h.ofGetter (g := .more) (by rw [hg]; rfl) rfl rfl ⟨hx, htail⟩⟩
  | more =>
      simp only [hg] at hstep hag
      cases hstep
      exact ⟨l, c, .nil,
        h.ofGetter (g := .item s.head) (by rw [hg]; rfl) rfl rfl ⟨hag.1, hag.2, rfl⟩⟩
  | item p =>
      simp only [hg] at hstep hag
      obtain ⟨hx, hne, rfl⟩ := hag
      cases hstep
      exact ⟨l, c, .nil,
        h.ofGetter (g := .again s.head s.head) (by rw [hg]; rfl) rfl rfl ⟨hx, hne, rfl, rfl⟩⟩
  | again p r =>
      simp only [hg] at hstep hag
      obtain ⟨hx, hne, rfl, rfl⟩ := hag
      obtain ⟨q, hq, rfl⟩ := Option.map_eq_some_iff.mp hstep
      refine ⟨_, c, .nil, h.ofGetter (g := .link s.head (s.next q)) (by rw [hg]; rfl) rfl rfl
        ⟨hx, hne, rfl, ?_⟩⟩
      rw [hq]
      rfl
  | link p r =>
      simp only [hg] at hstep hag
      obtain ⟨hx, hne, rfl, rfl⟩ := hag
      obtain ⟨q, l', rfl, hq, hseg⟩ := h.head hne
      have hseg' : Segment s.next (s.head.bind s.next) (some s.tail) l' := by
        rw [hq]
        exact hseg
      cases hstep
      have hget : heldBack.apply c.value .get = (l' ++ [s.tail], some q) := by
        rw [h.value]
        exact heldBack_get q s.tail l'
      have hnd : q ∉ l' := by
        have hnd := h.nodup
        simp only [List.cons_append, List.nodup_cons, List.mem_append, not_or] at hnd
        exact hnd.1.1.1.1.1
      refine ⟨l', _, .effect .getter .get .nil hx, ?_, hseg', ?_, ?_, ?_, ?_⟩
      · rw [hget]
        rfl
      · have hplaces := h.places
        rw [hg] at hplaces
        refine List.Perm.trans ?_ hplaces
        simp only [hq, Getter.holds, Option.toList_some]
        rw [List.perm_iff_count]
        intro a
        simp only [List.count_append, List.count_cons, List.count_nil]
        omega
      · intro p hp
        have hpq : p ≠ q := by
          rintro rfl
          exact hnd hp
        have hne' : some p ≠ s.head := by
          rw [hq]
          exact fun he => hpq (Option.some.inj he)
        show (if some p = s.head then false else s.linked p) = true
        rw [if_neg hne']
        exact h.linked p (List.mem_cons_of_mem q hp)
      · rw [Object.set_self, hget]
        exact congrArg Status.done hq.symm
      · rw [Object.set_of_ne (by decide)]
        refine h.putter.congr ?_
        show (if some s.tail = s.head then false else s.linked s.tail) = _
        rw [if_neg fun he => hne he.symm]

/-- The write of `tail->next` concerns no `Conn` that the getter looks at. -/
theorem Getter.Agrees.write {g : Getter} {head : Option Nat} {tail : Nat}
    {next : Nat → Option Nat} {x : Status Op (Option Nat)} (h : g.Agrees head tail next x)
    (v : Option Nat) : g.Agrees head tail (LinkedList.write next tail v) x := by
  cases g with
  | link p r =>
      obtain ⟨hx, hne, hp, hr⟩ := h
      refine ⟨hx, hne, hp, hr.trans ?_⟩
      cases hhead : head with
      | none => rfl
      | some q =>
          have hq : q ≠ tail := by
            rintro rfl
            exact hne hhead
          exact (write_of_ne hq).symm
  | _ => exact h

theorem Getter.Agrees.newTail {g : Getter} {head : Option Nat} {tail p : Nat}
    {next : Nat → Option Nat} {x : Status Op (Option Nat)} (h : g.Agrees head tail next x)
    (hp : head ≠ some p) : g.Agrees head p next x := by
  cases g with
  | more => exact ⟨h.1, hp⟩
  | item r => exact ⟨h.1, hp, h.2.2⟩
  | again r r' => exact ⟨h.1, hp, h.2.2⟩
  | link r r' => exact ⟨h.1, hp, h.2.2⟩
  | _ => exact h

theorem Simulates.stepPutter (h : Simulates n l s c) (hstep : s.stepPutter = some t) :
    ∃ l' d, History heldBack c [] d ∧ Simulates n l' t d := by
  have hag := h.putter
  unfold State.stepPutter at hstep
  cases hq : s.putter with
  | idle =>
      simp only [hq] at hstep
      cases hstep
  | done =>
      simp only [hq] at hstep
      cases hstep
  | entered p =>
      simp only [hq] at hstep hag
      cases hstep
      exact ⟨l, c, .nil, h.ofPutter (q := .tail p s.tail) (by rw [hq]; rfl) rfl rfl ⟨hag, rfl⟩⟩
  | tail p r =>
      simp only [hq] at hstep hag
      obtain ⟨hx, rfl⟩ := hag
      cases hstep
      have hfresh : s.tail ∉ l := by
        have hnd := h.nodup
        intro hmem
        have hcount := List.nodup_iff_count_le_one.mp hnd s.tail
        have hpos := List.count_pos_iff.mpr hmem
        simp only [List.count_append, List.count_cons_self] at hcount
        omega
      refine ⟨l, c, .nil, h.value, h.segment.frame ?_, ?_, ?_, h.getter.write _, ?_⟩
      · intro a ha
        refine write_of_ne ?_
        rintro rfl
        exact hfresh ha
      · have hplaces := h.places
        rw [hq] at hplaces
        exact hplaces
      · intro a ha
        have hne : a ≠ s.tail := by
          rintro rfl
          exact hfresh ha
        show (if a = s.tail then true else s.linked a) = true
        rw [if_neg hne]
        exact h.linked a ha
      · exact ⟨hx, write_self, if_pos rfl⟩
  | linked p =>
      simp only [hq] at hstep hag
      obtain ⟨hx, hnext, hlinked⟩ := hag
      cases hstep
      have hseg : Segment s.next s.head (some p) (l ++ [s.tail]) := by
        have hsnoc := h.segment.snoc
        rwa [hnext] at hsnoc
      refine ⟨l ++ [s.tail], _, .effect .putter (.put p) .nil hx, ?_, hseg, ?_, ?_, ?_, ?_⟩
      · rw [Object.set_value, h.value, heldBack_put]
      · have hplaces := h.places
        rw [hq] at hplaces
        refine List.Perm.trans ?_ hplaces
        rw [List.perm_iff_count]
        intro a
        simp only [Putter.holds, List.count_append, List.count_cons, List.count_nil]
        omega
      · intro a ha
        rcases List.mem_append.mp ha with ha | ha
        · exact h.linked a ha
        · rw [List.mem_singleton.mp ha]
          exact hlinked
      · rw [Object.set_of_ne (by decide)]
        refine h.getter.newTail (h.head_ne ?_)
        rw [hq]
        exact List.mem_cons_self
      · rw [Object.set_self, heldBack_put]
        rfl

/-- One access, a call or a return: the queue makes the moves that are seen. -/
theorem Simulates.step {a : Act} (h : Simulates n l s c) (hstep : s.step a = some t) :
    ∃ l' d, History heldBack c (vis s a).toList d ∧ Simulates n l' t d := by
  cases a with
  | getter => exact h.stepGetter hstep
  | putter => exact h.stepPutter hstep
  | callGet =>
      obtain ⟨hg, he⟩ := Option.ite_none_right_eq_some.mp hstep
      cases he
      have hx : c.status Side.getter = .idle := by
        have hag := h.getter
        rwa [hg] at hag
      refine ⟨l, _, .oneCall Side.getter Op.get hx,
        h.ofGetter (g := .entered) (by rw [hg]; rfl) rfl ?_ ?_⟩
      · rw [Object.set_of_ne (by decide)]
      · rw [Object.set_self]
        rfl
  | retPut =>
      obtain ⟨hq, he⟩ := Option.ite_none_right_eq_some.mp hstep
      cases he
      have hx : c.status Side.putter = .done none := by
        have hag := h.putter
        rwa [hq] at hag
      refine ⟨l, _, .oneRet Side.putter none hx,
        h.ofPutter (q := .idle) (by rw [hq]; rfl) rfl ?_ ?_⟩
      · rw [Object.set_of_ne (by decide)]
      · rw [Object.set_self]
        rfl
  | retGet =>
      cases hg : s.getter with
      | done p =>
          simp only [State.step, hg] at hstep
          cases hstep
          have hx : c.status Side.getter = .done p := by
            have hag := h.getter
            rwa [hg] at hag
          have hvis : vis s .retGet = some (.ret .getter p) := by simp only [vis, hg]
          rw [hvis]
          refine ⟨l, c.set .getter .idle, .oneRet Side.getter p hx, h.value, h.segment, ?_,
            h.linked,
            ?_, ?_⟩
          · have hplaces := h.places
            rw [hg] at hplaces
            refine List.Perm.trans ?_ hplaces
            rw [List.perm_iff_count]
            intro a
            simp only [Getter.holds, List.count_append, List.count_nil]
            omega
          · rw [Object.set_self]
            rfl
          · rw [Object.set_of_ne (by decide)]
            exact h.putter
      | _ =>
          simp only [State.step, hg] at hstep
          cases hstep
  | callPut p =>
      obtain ⟨⟨hq, hp⟩, he⟩ := Option.ite_none_right_eq_some.mp hstep
      cases he
      have hx : c.status Side.putter = .idle := by
        have hag := h.putter
        rwa [hq] at hag
      refine ⟨l, c.set .putter (.called (.put p)), .oneCall Side.putter (.put p) hx, h.value,
        h.segment, ?_, h.linked, ?_, ?_⟩
      · have hplaces := h.places
        rw [hq] at hplaces
        refine List.Perm.trans ?_ hplaces
        have hout := (List.perm_cons_erase hp).symm
        rw [List.perm_iff_count] at hout ⊢
        intro a
        have ha := hout a
        simp only [Putter.holds, List.count_append, List.count_cons, List.count_nil] at ha ⊢
        omega
      · rw [Object.set_of_ne (by decide)]
        exact h.getter
      · rw [Object.set_self]
        rfl

end

/-! ## One function at a time -/

/-- The list of a worker, with no call under way. -/
def State.of (w : Worker) (out : List Nat) : State where
  head := w.head
  tail := w.tail
  next := w.next
  getter := .idle
  putter := .idle
  out := out
  linked := fun _ => true

theorem get_alone {w w' : Worker} {r : Option Nat} (out : List Nat)
    (h : w.GetFreeConn = some (r, w')) :
    ∃ s, Via State.step (fun _ _ => True) (State.of w out) s ∧ s.getter = .done r
      ∧ s.head = w'.head ∧ s.tail = w'.tail ∧ s.next = w'.next := by
  unfold Worker.GetFreeConn at h
  split at h
  · rename_i htail
    cases h
    have hrun : execIf State.step (fun _ _ => True) (State.of w out) [.callGet, .getter, .getter]
        = some { State.of w out with getter := .done none } := by
      simp [execIf, State.step, State.stepGetter, State.of, htail]
    exact ⟨_, via_of_execIf hrun, rfl, rfl, rfl, rfl⟩
  · rename_i htail
    obtain ⟨p, hp, he⟩ := Option.map_eq_some_iff.mp h
    cases he
    have hne : p ≠ w.tail := fun he => htail (by rw [hp, he])
    have hrun : execIf State.step (fun _ _ => True) (State.of w out)
        [.callGet, .getter, .getter, .getter, .getter, .getter, .getter]
        = some { State.of w out with
            head := w.next p, getter := .done (some p),
            linked := fun c => if some c = some p then false else true } := by
      simp [execIf, State.step, State.stepGetter, State.of, hp, hne]
    exact ⟨_, via_of_execIf hrun, rfl, rfl, rfl, rfl⟩

theorem put_alone (w : Worker) {p : Nat} {out : List Nat} (hp : p ∈ out) :
    ∃ s, Via State.step (fun _ _ => True) (State.of w out) s ∧ s.putter = .done
      ∧ s.head = (w.PutFreeConn p).head ∧ s.tail = (w.PutFreeConn p).tail
      ∧ s.next = (w.PutFreeConn p).next := by
  have hrun : execIf State.step (fun _ _ => True) (State.of w out)
      [.callPut p, .putter, .putter, .putter]
      = some { State.of w out with
          tail := p, next := write w.next w.tail (some p), putter := .done, out := out.erase p,
          linked := fun c => if c = w.tail then true else true } := by
    simp [execIf, State.step, State.stepPutter, State.of, hp]
  exact ⟨_, via_of_execIf hrun, rfl, rfl, rfl, rfl⟩

/-! ## Every run -/

/-- What the listener and the worker may rely on. -/
structure Sound (connnum : Nat) (s : State) : Prop where
  /-- A `Conn` that is handed out is not in use, and is not the one of a put that
  has not taken effect. -/
  fresh : ∀ p, s.getter = .done (some p) → p ∉ s.out ∧ p ∉ s.putter.holds
  /-- Each `Conn` is obtained once. -/
  nodup : s.out.Nodup
  /-- The `Conn`s in use, and those that are about to be handed out or put back. -/
  outstanding : (s.out ++ s.getter.holds ++ s.putter.holds).length ≤ connnum
  /-- The `next` that is followed was written since its `Conn` was put back, and
  no put is about to write it. -/
  follows : ∀ p h, s.getter = .again p h →
    ∃ q, h = some q ∧ s.linked q = true ∧ q ∉ s.out ∧ q ∉ s.putter.holds ∧ q ≠ s.tail

section
variable {n : Nat} {l : List Nat} {s : State} {c : Object Side (List Nat) Op (Option Nat)}

theorem Simulates.sound (h : Simulates n l s c) : Sound n s := by
  have hcount := List.nodup_iff_count_le_one.mp h.nodup
  constructor
  · intro p hg
    have hp := hcount p
    have hpos : 0 < s.getter.holds.count p := by
      rw [hg]
      exact List.count_pos_iff.mpr (by simp [Getter.holds])
    simp only [List.count_append] at hp
    constructor
    · intro hmem
      have := List.count_pos_iff.mpr hmem
      omega
    · intro hmem
      have := List.count_pos_iff.mpr hmem
      omega
  · rw [List.nodup_iff_count_le_one]
    intro p
    have hp := hcount p
    simp only [List.count_append] at hp
    omega
  · have hlen := h.places.length_eq
    simp only [List.length_append, List.length_range, List.length_singleton] at hlen ⊢
    omega
  · intro p r hg
    have hag := h.getter
    simp only [hg] at hag
    obtain ⟨-, hne, rfl, rfl⟩ := hag
    obtain ⟨q, l', rfl, hq, -⟩ := h.head hne
    have hp := hcount q
    simp only [List.cons_append, List.count_append, List.count_cons_self] at hp
    refine ⟨q, hq, h.linked q List.mem_cons_self, ?_, ?_, ?_⟩
    · intro hmem
      have := List.count_pos_iff.mpr hmem
      omega
    · intro hmem
      have := List.count_pos_iff.mpr hmem
      omega
    · rintro rfl
      exact hne hq

end

/-- **The free `Conn`s.**  For every number of `Conn`s and every order of the
accesses: what the listener and the worker see is a history of the queue whose
last element is held back, and every state is sound. -/
theorem freeConns_atomic (connnum : Nat) (tr : List (Label Side Op (Option Nat))) (s : State)
    (h : Trace State.step vis (State.start connnum) tr s) :
    (∃ d, History heldBack (initial connnum) tr d) ∧ Sound connnum s := by
  obtain ⟨d, hd, l, hl⟩ := refines (R := fun s c => ∃ l, Simulates connnum l s c) h
    ⟨_, start_simulates connnum⟩
    (by
      rintro t a u d ⟨l, hl⟩ hs
      obtain ⟨l', e, he, hl'⟩ := hl.step hs
      exact ⟨e, he, l', hl'⟩)
  exact ⟨⟨d, hd⟩, hl.sound⟩

/-- Three `Conn`s: two are obtained, and while the first one is put back a third
get has read the tail that it replaces. -/
theorem freeConns_atomic_recycled :
    ∃ tr s, Trace State.step vis (State.start 2) tr s
      ∧ (s.getter = .done none ∧ s.tail = 0 ∧ s.out = [1])
      ∧ (∃ d, History heldBack (initial 2) tr d) ∧ Sound 2 s := by
  obtain ⟨tr, s, hs, hend⟩ : ∃ tr s, Trace State.step vis (State.start 2) tr s
      ∧ s.getter = .done none ∧ s.tail = 0 ∧ s.out = [1] := exists_trace_of_exec
    [.callGet, .getter, .getter, .getter, .getter, .getter, .getter, .retGet,
      .callGet, .getter, .getter, .getter, .getter, .getter, .getter, .retGet,
      .callPut 0, .callGet, .putter, .putter, .getter, .getter, .putter] (by decide +kernel)
  exact ⟨tr, s, hs, hend, freeConns_atomic 2 tr s hs⟩

end CppWorkspace.LibeventServer.FreeQueue
