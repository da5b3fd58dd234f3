/-
# `CppWorkspace.ThrottledServer.PendingSends` — the queue of the pending sends

`EnqueuePendingOperation` looks at the end of the queue, `DequeuePendingOperation` at its
head, and neither at the count.  Between two calls the rest of the program may write to any
buffer that is not queued, and to its `next`.  The queue is that of a list to which one end
is added and from which the other is taken (`pending_sends`).
-/
import CppWorkspace.Lib.Refinement
import CppWorkspace.ThrottledServer.Server

namespace CppWorkspace.ThrottledServer.PendingSends

open LinkedList Refinement

/-- The functions on the queue of pending sends. -/
inductive Call
  | EnqueuePendingOperation (b : Nat)
  | DequeuePendingOperation
  /-- `b` is used for something else. -/
  | write (b : Nat) (x : BufferObj) (next : Option Nat)

/-- What they return. -/
inductive Result
  | void
  | pointer (b : Option Nat)
  deriving DecidableEq, Repr

def call (σ : Server) : Call → Option (Server × Result)
  | .EnqueuePendingOperation b => (σ.EnqueuePendingOperation b).map fun σ' => (σ', .void)
  | .DequeuePendingOperation => σ.DequeuePendingOperation.map fun x => (x.1, .pointer x.2)
  | .write b x next => some ({ σ with next := write σ.next b next }.setBuffer b x, .void)

/-! ## The list -/

/-- The queued buffers, the oldest first, and the socket of each buffer. -/
structure Fifo where
  queue : List Nat
  sock : Nat → Option SockPtr

namespace Fifo

/-- The queued buffers of a socket object. -/
def pending (q : Fifo) (k : Nat) : Nat :=
  q.queue.countP fun b => (q.sock b).map SockPtr.obj = some k

/-- A buffer is enqueued if it is not queued and has a socket, which `HandleIo` sets before each
call; it is written if it is not queued. -/
def call (q : Fifo) : Call → Option (Fifo × Result)
  | .EnqueuePendingOperation b =>
      if b ∉ q.queue ∧ q.sock b ≠ none then some ({ q with queue := q.queue ++ [b] }, .void)
      else none
  | .DequeuePendingOperation => some ({ q with queue := q.queue.tail }, .pointer q.queue.head?)
  | .write b x _ =>
      if b ∉ q.queue then some ({ q with sock := Function.update q.sock b x.sock }, .void)
      else none

end Fifo

def Call.enqueued : Call → Option Nat
  | .EnqueuePendingOperation b => some b
  | _ => none

def Result.dequeued : Result → Option Nat
  | .pointer b => b
  | .void => none

section
variable {q q' : Fifo} {calls : List Call} {rs : List Result}

theorem enqueued_eq (h : run Fifo.call q calls = some (q', rs)) :
    q.queue ++ calls.filterMap Call.enqueued = rs.filterMap Result.dequeued ++ q'.queue := by
  induction calls generalizing q rs with
  | nil =>
      cases h
      exact List.append_nil _
  | cons c calls ih =>
      obtain ⟨⟨u, r⟩, hu, hrest⟩ := Option.bind_eq_some_iff.mp h
      obtain ⟨⟨v, rest⟩, hv, heq⟩ := Option.map_eq_some_iff.mp hrest
      cases heq
      have hrun := ih hv
      cases c with
      | EnqueuePendingOperation b =>
          obtain ⟨-, heq⟩ := Option.ite_none_right_eq_some.mp hu
          cases heq
          calc q.queue ++ b :: calls.filterMap Call.enqueued
              = (q.queue ++ [b]) ++ calls.filterMap Call.enqueued :=
                List.append_cons ..
            _ = rest.filterMap Result.dequeued ++ v.queue := hrun
      | DequeuePendingOperation =>
          cases hu
          cases hqueue : q.queue with
          | nil =>
              rw [hqueue] at hrun
              exact hrun
          | cons b l =>
              rw [hqueue] at hrun
              exact congrArg (b :: ·) hrun
      | write b x next =>
          obtain ⟨-, heq⟩ := Option.ite_none_right_eq_some.mp hu
          cases heq
          exact hrun

end

/-! ## The queue holds it -/

/-- The queue is what the two ends and `next` say. -/
structure Holds (σ : Server) (q : Fifo) : Prop where
  chain : Chain σ.next σ.gPendingSendList q.queue
  last : σ.gPendingSendListEnd = q.queue.getLast?
  nodup : q.queue.Nodup
  sock : ∀ b, (σ.buffer b).sock = q.sock b
  owned : ∀ b ∈ q.queue, q.sock b ≠ none
  PendingSend : ∀ k, (σ.socket k).PendingSend = q.pending k

/-- Nothing is queued; the links are any. -/
structure Empty (σ : Server) : Prop where
  head : σ.gPendingSendList = none
  last : σ.gPendingSendListEnd = none
  PendingSend : ∀ k, (σ.socket k).PendingSend = 0

section
variable {σ : Server} {q : Fifo} {b k : Nat} {p : SockPtr} {l : List Nat}

theorem Empty.holds (h : Empty σ) : Holds σ ⟨[], fun b => (σ.buffer b).sock⟩ where
  chain := h.head
  last := h.last
  nodup := List.nodup_nil
  sock := fun _ => rfl
  owned := fun _ h => absurd h List.not_mem_nil
  PendingSend := h.PendingSend

theorem Holds.head (h : Holds σ q) : σ.gPendingSendList = q.queue.head? := by
  have hchain := h.chain
  cases hqueue : q.queue with
  | nil =>
      rw [hqueue] at hchain
      exact hchain
  | cons b l =>
      rw [hqueue] at hchain
      exact hchain.1

theorem Holds.head_eq_none (h : Holds σ q) :
    σ.gPendingSendList = none ↔ σ.gPendingSendListEnd = none := by
  rw [h.head, h.last, List.head?_eq_none_iff, List.getLast?_eq_none_iff]

theorem pending_append (hp : q.sock b = some p) (k : Nat) :
    ({ q with queue := q.queue ++ [b] } : Fifo).pending k =
      q.pending k + if p.obj = k then 1 else 0 := by
  rw [Fifo.pending, List.countP_append, List.countP_singleton, hp]
  by_cases hk : p.obj = k
  · simp [hk, Fifo.pending]
  · simp [hk, Fifo.pending]

theorem pending_cons (hqueue : q.queue = b :: l) (hp : q.sock b = some p) (k : Nat) :
    q.pending k = ({ q with queue := l } : Fifo).pending k + if p.obj = k then 1 else 0 := by
  rw [Fifo.pending, hqueue, List.countP_cons, hp]
  by_cases hk : p.obj = k
  · simp [hk, Fifo.pending]
  · simp [hk, Fifo.pending]

theorem PendingSend_setSocket (n : Int) :
    ((σ.setSocket p.obj { σ.socket p.obj with
      PendingSend := (σ.socket p.obj).PendingSend + n }).socket k).PendingSend =
      (σ.socket k).PendingSend + if p.obj = k then n else 0 := by
  by_cases hk : p.obj = k
  · subst hk
    rw [Server.setSocket_self, if_pos rfl]
  · rw [Server.setSocket_of_ne (Ne.symm hk), if_neg hk, Int.add_zero]

theorem EnqueuePendingOperation_end {e : Nat} (hp : (σ.buffer b).sock = some p)
    (he : σ.gPendingSendListEnd = some e) :
    σ.EnqueuePendingOperation b = some { σ.setSocket p.obj { σ.socket p.obj with
      PendingSend := (σ.socket p.obj).PendingSend + 1 } with
      next := LinkedList.write (LinkedList.write σ.next b none) e (some b)
      gPendingSendListEnd := some b } := by
  rw [Server.EnqueuePendingOperation, hp, Option.map_some]
  simp only [Server.setSocket, he]

theorem EnqueuePendingOperation_empty (hp : (σ.buffer b).sock = some p)
    (he : σ.gPendingSendListEnd = none) :
    σ.EnqueuePendingOperation b = some { σ.setSocket p.obj { σ.socket p.obj with
      PendingSend := (σ.socket p.obj).PendingSend + 1 } with
      next := LinkedList.write σ.next b none
      gPendingSendList := some b
      gPendingSendListEnd := some b } := by
  rw [Server.EnqueuePendingOperation, hp, Option.map_some]
  simp only [Server.setSocket, he]

theorem Holds.enqueue (h : Holds σ q) (hb : b ∉ q.queue) (hp : q.sock b = some p) :
    ∃ σ', σ.EnqueuePendingOperation b = some σ' ∧
      Holds σ' { q with queue := q.queue ++ [b] } := by
  have hnodup : (q.queue ++ [b]).Nodup := by
    rw [← List.concat_eq_append]
    exact h.nodup.concat hb
  have howned : ∀ c ∈ q.queue ++ [b], q.sock c ≠ none := by
    intro c hc
    rcases List.mem_append.mp hc with hc | hc
    · exact h.owned c hc
    · rw [List.mem_singleton.mp hc, hp]
      exact Option.some_ne_none p
  have hpending : ∀ k, ((σ.setSocket p.obj { σ.socket p.obj with
      PendingSend := (σ.socket p.obj).PendingSend + 1 }).socket k).PendingSend =
      ({ q with queue := q.queue ++ [b] } : Fifo).pending k := by
    intro k
    rw [PendingSend_setSocket, h.PendingSend, pending_append hp]
    split <;> rfl
  have hsock : (σ.buffer b).sock = some p := (h.sock b).trans hp
  cases hend : σ.gPendingSendListEnd with
  | some e =>
      have hlast : q.queue.getLast? = some e := h.last.symm.trans hend
      exact ⟨_, EnqueuePendingOperation_end hsock hend, h.chain.append h.nodup hb hlast,
        List.getLast?_concat.symm, hnodup, h.sock, howned, hpending⟩
  | none =>
      have hqueue : q.queue = [] := List.getLast?_eq_none_iff.mp (h.last.symm.trans hend)
      refine ⟨_, EnqueuePendingOperation_empty hsock hend, ?_, List.getLast?_concat.symm, hnodup,
        h.sock, howned, hpending⟩
      rw [hqueue]
      exact ⟨rfl, write_self⟩

theorem Holds.dequeue (h : Holds σ q) :
    ∃ σ', σ.DequeuePendingOperation = some (σ', q.queue.head?) ∧
      Holds σ' { q with queue := q.queue.tail } := by
  have hhead := h.head
  rw [Server.DequeuePendingOperation]
  cases hqueue : q.queue with
  | nil =>
      rw [hqueue] at hhead
      rw [hhead]
      refine ⟨σ, rfl, ?_⟩
      have heq : ({ q with queue := [] } : Fifo) = q := by rw [← hqueue]
      change Holds σ { q with queue := [] }
      rw [heq]
      exact h
  | cons b l =>
      rw [hqueue] at hhead
      obtain ⟨p, hp⟩ := Option.ne_none_iff_exists'.mp (h.owned b (by rw [hqueue]; simp))
      obtain ⟨-, hchain⟩ : Chain σ.next σ.gPendingSendList (b :: l) := hqueue ▸ h.chain
      rw [hhead]
      change ∃ σ', ((σ.buffer b).sock.map _) = some (σ', some b) ∧ _
      rw [h.sock b, hp]
      refine ⟨_, rfl, hchain, ?_, (List.nodup_cons.mp (hqueue ▸ h.nodup)).2, h.sock, ?_, ?_⟩
      · have hlast := h.last
        rw [hqueue] at hlast
        change (if σ.next b = none then none else σ.gPendingSendListEnd) = l.getLast?
        cases l with
        | nil => exact if_pos hchain
        | cons c l =>
            have hne : σ.next b ≠ none := by
              rw [hchain.1]
              exact Option.some_ne_none c
            rw [if_neg hne, hlast, List.getLast?_cons_cons]
      · exact fun c hc => h.owned c (by rw [hqueue]; exact List.mem_cons_of_mem b hc)
      · intro k
        have hpending := PendingSend_setSocket (σ := σ) (p := p) (k := k) (-1)
        rw [h.PendingSend k, pending_cons hqueue hp] at hpending
        refine hpending.trans ?_
        split
        · rw [Int.natCast_add]
          exact Int.add_neg_cancel_right _ 1
        · exact Int.add_zero _

theorem Holds.write (h : Holds σ q) (hb : b ∉ q.queue) (x : BufferObj) (v : Option Nat) :
    Holds ({ σ with next := LinkedList.write σ.next b v }.setBuffer b x)
      { q with sock := Function.update q.sock b x.sock } := by
  have hqueued : ∀ c ∈ q.queue, Function.update q.sock b x.sock c = q.sock c :=
    fun c hc => Function.update_of_ne (ne_of_mem_of_not_mem hc hb) ..
  refine ⟨h.chain.write hb v, h.last, h.nodup, fun c => ?_, fun c hc => ?_, fun k => ?_⟩
  · change (Function.update σ.buffer b x c).sock = Function.update q.sock b x.sock c
    by_cases hc : c = b
    · subst hc
      rw [Function.update_self, Function.update_self]
    · rw [Function.update_of_ne hc, Function.update_of_ne hc]
      exact h.sock c
  · exact fun hnone => h.owned c hc ((hqueued c hc).symm.trans hnone)
  · refine (h.PendingSend k).trans (congrArg Nat.cast (List.countP_congr fun c hc => ?_))
    change _ ↔ decide ((Function.update q.sock b x.sock c).map SockPtr.obj = some k) = true
    rw [hqueued c hc]

theorem refines : Refines call Fifo.call Holds := by
  intro σ q c q' r h hc
  cases c with
  | EnqueuePendingOperation b =>
      obtain ⟨⟨hb, hsock⟩, heq⟩ := Option.ite_none_right_eq_some.mp hc
      cases heq
      obtain ⟨p, hp⟩ := Option.ne_none_iff_exists'.mp hsock
      obtain ⟨σ', hσ', hholds⟩ := h.enqueue hb hp
      exact ⟨σ', by rw [call, hσ']; rfl, hholds⟩
  | DequeuePendingOperation =>
      cases hc
      obtain ⟨σ', hσ', hholds⟩ := h.dequeue
      exact ⟨σ', by rw [call, hσ']; rfl, hholds⟩
  | write b x next =>
      obtain ⟨hb, heq⟩ := Option.ite_none_right_eq_some.mp hc
      cases heq
      exact ⟨_, rfl, h.write hb x next⟩

/-- The calls have the results of the list; what was enqueued was dequeued in this order or is
queued. -/
theorem pending_sends {calls : List Call} {rs : List Result} (hσ : Empty σ)
    (hrun : run Fifo.call ⟨[], fun b => (σ.buffer b).sock⟩ calls = some (q, rs)) :
    ∃ σ', run call σ calls = some (σ', rs) ∧ Holds σ' q ∧
      (σ'.gPendingSendList = none ↔ σ'.gPendingSendListEnd = none) ∧
      (∀ e, σ'.gPendingSendListEnd = some e → q.queue.getLast? = some e ∧ σ'.next e = none) ∧
      calls.filterMap Call.enqueued = rs.filterMap Result.dequeued ++ q.queue := by
  obtain ⟨σ', hσ', hholds⟩ := refines.run hσ.holds hrun
  refine ⟨σ', hσ', hholds, hholds.head_eq_none, fun e he => ?_, enqueued_eq hrun⟩
  have hlast : q.queue.getLast? = some e := hholds.last.symm.trans he
  exact ⟨hlast, hholds.chain.next_last hlast⟩

end

/-- Buffer `3` is enqueued again, with a link to the buffer that was behind it. -/
def again : List Call :=
  [.write 3 { BufferObj.zero 1 with sock := some ⟨0, 0⟩ } (some 9),
    .write 4 { BufferObj.zero 1 with sock := some ⟨1, 1⟩ } (some 3),
    .EnqueuePendingOperation 3, .EnqueuePendingOperation 4, .DequeuePendingOperation,
    .EnqueuePendingOperation 3, .DequeuePendingOperation]

theorem pending_sends_again :
    ∃ σ q σ' rs, Empty σ ∧
      run Fifo.call ⟨[], fun b => (σ.buffer b).sock⟩ again = some (q, rs) ∧
      run call σ again = some (σ', rs) ∧ q.queue = [3] ∧
      rs = [.void, .void, .void, .void, .pointer (some 3), .void, .pointer (some 4)] ∧
      Holds σ' q := by
  have hempty : Empty (Server.start ⟨1, 1, 1, 1⟩) := ⟨rfl, rfl, fun _ => rfl⟩
  have hrun : ∃ q, run Fifo.call
      ⟨[], fun b => ((Server.start ⟨1, 1, 1, 1⟩).buffer b).sock⟩ again =
        some (q, [.void, .void, .void, .void, .pointer (some 3), .void, .pointer (some 4)]) ∧
      q.queue = [3] := ⟨_, rfl, rfl⟩
  obtain ⟨q, hq, hqueue⟩ := hrun
  obtain ⟨σ', hσ', hholds, -⟩ := pending_sends hempty hq
  exact ⟨_, q, σ', _, hempty, hq, hσ', hqueue, rfl, hholds⟩

end CppWorkspace.ThrottledServer.PendingSends
