/-
# `CppWorkspace.OrderedServer.Lifetime` — the life of a `SOCKET_OBJ`

`OutstandingOps` is raised after the post and lowered by each call of `HandleIo`, and the
call that lowers it to `0` may free the object.  Between any two commands

    OutstandingOps + (issued, not yet counted) = (in flight) + (delivered, not yet finished)

so a counter that is `0` says little while an operation has still to be counted, and nothing
about the threads that have finished with their own completion and not with the object: the
handler of an accept, which sets a new object up, and a handler that has left the counter
behind and not yet the critical section.

A free is right (`Alone`) exactly if there are no such threads when `FreeSocketObj` finds the
counter at `0` (`object_lifetime`); nothing in the code sees to that (`not_object_lifetime`).
-/
import CppWorkspace.OrderedServer.Threads
import Mathlib.Data.Finset.Card

namespace CppWorkspace.OrderedServer.Threads

open Programs Runs

/-- Thread `t` may still do something with the object. -/
def Holds (m : Machine) (t s : Nat) : Prop := m.May t fun c => c.sock = s

/-- Thread `t` has still to count its completion off. -/
def Owes (m : Machine) (t s : Nat) : Prop := m.May t fun c => c = ⟨s, .InterlockedDecrement⟩

/-- The object has not been freed, and nobody but thread `t` has to do with it: no operation
is in flight on it or still to be counted, and no other thread is inside `HandleIo` with it,
waits for its `SockCritSec`, or is posting on it. -/
structure Alone (m : Machine) (t s : Nat) : Prop where
  first : s ∉ m.shared.freed
  idle : ∀ op ∈ m.shared.flight, op.sock ≠ s
  counted : (m.shared.obj s).issued = (m.shared.obj s).counted
  others : ∀ u, u ≠ t → ¬ Holds m u s

/-- Thread `t` stands before `HeapFree`, or before the test of `FreeSocketObj` that will let
it go on to there. -/
def Frees (m : Machine) (t s : Nat) : Prop :=
  m.next t = some ⟨s, .HeapFree⟩ ∨
    (m.next t = some ⟨s, .hasOutstandingOps⟩ ∧ (m.shared.obj s).OutstandingOps = 0)

/-- If the step frees an object, it may. -/
def FreesRight (m : Machine) : Action → Prop
  | .run t _ => ∀ s, Frees m t s → Alone m t s
  | _ => True

/-- When `FreeSocketObj` finds no outstanding operations, all have been counted, and each
other thread that has the object at hand has still to count its completion off. -/
def FoundLast (m : Machine) : Action → Prop
  | .run t _ => ∀ s, m.next t = some ⟨s, .hasOutstandingOps⟩ →
      (m.shared.obj s).OutstandingOps = 0 →
      (m.shared.obj s).issued = (m.shared.obj s).counted ∧
        ∀ u, u ≠ t → Holds m u s → Owes m u s
  | _ => True

/-! ## What a thread does with an object

While a thread is `handling` an object it has still to count its completion off; after that,
or if it sets the object up, it is `holding` it, until it is `freeing` it. -/

/-- What a thread has to do with a socket object. -/
inductive Stage where
  | handling
  | holding
  | freeing
  | away
deriving DecidableEq, Repr

namespace Stage

def allows : Stage → Access → Prop
  | .handling, a => a ≠ .hasOutstandingOps ∧ a ≠ .DeleteCriticalSection ∧ a ≠ .HeapFree
  | .holding, a => a ≠ .InterlockedDecrement ∧ a ≠ .DeleteCriticalSection ∧ a ≠ .HeapFree
  | .freeing, a => a = .isOpen ∨ a = .closesocket ∨ a = .DeleteCriticalSection ∨ a = .HeapFree
  | .away, _ => False

def next : Stage → (a : Access) → a.Reply → Stage
  | .handling, .InterlockedDecrement, _ => .holding
  | .holding, .hasOutstandingOps, found => if found = true then .holding else .freeing
  | .freeing, .HeapFree, _ => .away
  | q, _, _ => q

end Stage

def discipline : Discipline Cmd Cmd.Reply (Nat → Stage) where
  allows Q c := (Q c.sock).allows c.access
  next Q c v := Function.update Q c.sock ((Q c.sock).next c.access v)

/-- Commands that are allowed while a thread is handling or holding an object, and change
nothing about that. -/
def Access.plain : Access → Bool
  | .InterlockedDecrement | .hasOutstandingOps | .DeleteCriticalSection | .HeapFree => false
  | _ => true

/-- A function that leaves a thread handling or holding an object as it is. -/
def Keeps {α : Type} (s : Nat) (p : Program α) : Prop :=
  ∀ Q : Nat → Stage, Q s = .handling ∨ Q s = .holding →
    discipline.Follows (fun _ Q' => Q' = Q) p Q

section
variable {α β : Type} {s u n : Nat} {a : Access} {Q : Nat → Stage} {p : Program α}
  {f : α → Program β} {post : β → (Nat → Stage) → Prop}

theorem Stage.next_plain {q : Stage} {v : a.Reply} (ha : a.plain = true) : q.next a v = q := by
  cases q <;> cases a <;> first | rfl | cases ha

theorem Stage.allows_plain {q : Stage} (ha : a.plain = true) (hq : q = .handling ∨ q = .holding) :
    q.allows a := by
  rcases hq with rfl | rfl
  · refine ⟨?_, ?_, ?_⟩ <;> rintro rfl <;> cases ha
  · refine ⟨?_, ?_, ?_⟩ <;> rintro rfl <;> cases ha

theorem keeps_pure {b : α} : Keeps s (pure b : Program α) := fun _ _ => Discipline.follows_ret rfl

theorem keeps_bind (hp : Keeps s p) (hf : ∀ b, Keeps s (f b)) : Keeps s (p >>= f) := by
  refine fun Q hQ => Discipline.follows_after (hp Q hQ) ?_
  rintro b _ rfl
  exact hf b _ hQ

theorem keeps_perform (ha : a.plain = true) : Keeps s (perform s a) := by
  refine fun Q hQ => ⟨Stage.allows_plain ha hQ, fun v => ?_⟩
  change Function.update Q s ((Q s).next a v) = Q
  rw [Stage.next_plain ha]
  exact Function.update_eq_self s Q

theorem keeps_countPost {rc : Bool} : Keeps s (countPost s rc) := by
  unfold countPost
  split
  · exact keeps_bind (keeps_perform rfl) fun _ => keeps_pure
  · exact keeps_pure

theorem keeps_postRecv : Keeps s (PostRecv s n) :=
  keeps_bind (keeps_perform rfl) fun _ => keeps_bind (keeps_perform rfl) fun _ =>
    keeps_bind (keeps_perform rfl) fun _ => keeps_bind (keeps_perform rfl) fun _ =>
      keeps_countPost

theorem keeps_postSend {sendobj : BufferObj} : Keeps s (PostSend s sendobj) :=
  keeps_bind (keeps_perform rfl) fun _ => keeps_bind (keeps_perform rfl) fun _ =>
    keeps_bind (keeps_perform rfl) fun _ => keeps_bind (keeps_perform rfl) fun _ =>
      keeps_countPost

theorem keeps_postAccept : Keeps s (PostAccept s n) := by
  refine keeps_bind (keeps_perform rfl) fun made => ?_
  split
  · exact keeps_bind (keeps_perform rfl) fun _ => keeps_countPost
  · exact keeps_pure

theorem keeps_insertPendingSend {send : BufferObj} : Keeps s (InsertPendingSend s send) :=
  keeps_bind (keeps_perform rfl) fun _ => keeps_bind (keeps_perform rfl) fun _ =>
    keeps_bind (keeps_perform rfl) fun _ => keeps_perform rfl

theorem keeps_doSendsFrom (sends : List BufferObj) : Keeps s (doSendsFrom s sends) := by
  induction sends with
  | nil => exact keeps_pure
  | cons sendobj rest ih =>
      refine keeps_bind (keeps_perform rfl) fun last => ?_
      split
      · refine keeps_bind keeps_postSend fun sent => ?_
        split
        · exact keeps_bind (keeps_perform rfl) fun _ => ih
        · exact keeps_bind (keeps_perform rfl) fun _ => keeps_pure
      · exact keeps_pure

theorem keeps_doSends : Keeps s (DoSends s) :=
  keeps_bind (keeps_perform rfl) fun _ => keeps_bind (keeps_perform rfl) fun sends =>
    keeps_bind (keeps_doSendsFrom sends) fun _ => keeps_bind (keeps_perform rfl) fun _ =>
      keeps_pure

theorem keeps_postReceives (i : Nat) : Keeps s (postReceives s i) := by
  induction i with
  | zero => exact keeps_pure
  | succ i ih =>
      refine keeps_bind (keeps_perform rfl) fun recvobj =>
        keeps_bind keeps_postRecv fun posted => ?_
      split
      · exact ih
      · exact keeps_bind (keeps_perform rfl) fun _ => keeps_pure

theorem keeps_serveClient {cfg : Config} : Keeps s (serveClient cfg s) := by
  refine keeps_bind (keeps_perform rfl) fun sendobj => keeps_bind keeps_postSend fun sent => ?_
  split
  · exact keeps_postReceives cfg.gOverlappedCount
  · exact keeps_bind (keeps_perform rfl) fun _ => keeps_pure

theorem keeps_receiveCompleted {IoOrder : ULONG} : Keeps s (receiveCompleted s n IoOrder) := by
  refine keeps_bind (keeps_perform rfl) fun sendobj => keeps_bind keeps_insertPendingSend fun _ =>
    keeps_bind keeps_doSends fun sent => ?_
  split
  · refine keeps_bind keeps_postRecv fun posted => ?_
    split
    · exact keeps_pure
    · exact keeps_bind (keeps_perform rfl) fun _ => keeps_pure
  · exact keeps_pure

theorem keeps_lastOperation : Keeps s (lastOperation s) := by
  refine keeps_bind (keeps_perform rfl) fun ops => ?_
  split
  · exact keeps_bind (keeps_perform rfl) fun _ => keeps_pure
  · exact keeps_pure

theorem keeps_receiveEnded : Keeps s (receiveEnded s n) :=
  keeps_bind (keeps_perform rfl) fun _ => keeps_bind (keeps_perform rfl) fun _ =>
    keeps_bind keeps_doSends fun _ => keeps_bind keeps_lastOperation fun _ => keeps_pure

theorem keeps_receiveFailed : Keeps s (receiveFailed s n) :=
  keeps_bind keeps_postRecv fun _ => keeps_pure

theorem keeps_sendCompleted {error : Bool} : Keeps s (sendCompleted s n error) :=
  keeps_bind (keeps_perform rfl) fun _ => keeps_bind keeps_doSends fun _ => keeps_pure

theorem keeps_opened {cfg : Config} : Keeps s (Threads.opened cfg s) := by
  have haccepts : ∀ i, Keeps s (postAccepts s i) := by
    intro i
    induction i with
    | zero => exact keeps_pure
    | succ i ih =>
        exact keeps_bind (keeps_perform rfl) fun _ => keeps_bind keeps_postAccept fun _ => ih
  have hreceives : ∀ i, Keeps s (postDatagrams s i) := by
    intro i
    induction i with
    | zero => exact keeps_pure
    | succ i ih =>
        exact keeps_bind (keeps_perform rfl) fun _ => keeps_bind keeps_postRecv fun _ => ih
  unfold Threads.opened
  split
  · exact haccepts _
  · exact hreceives _

theorem follows_keeps (hp : Keeps s p) (hQ : Q s = .handling ∨ Q s = .holding)
    (hf : ∀ b, discipline.Follows post (f b) Q) : discipline.Follows post (p >>= f) Q := by
  refine Discipline.follows_after (hp Q hQ) ?_
  rintro b _ rfl
  exact hf b

theorem next_same {v : a.Reply} (h : (Q s).next a v = Q s) : discipline.next Q ⟨s, a⟩ v = Q := by
  change Function.update Q s ((Q s).next a v) = Q
  rw [h]
  exact Function.update_eq_self s Q

theorem follows_heapFree (hQ : Q s = .freeing) :
    discipline.Follows (fun _ Q' => ∀ u, u ≠ s → Q' u = Q u)
      (do perform s .DeleteCriticalSection; perform s .HeapFree) Q := by
  refine Discipline.follows_call (q := Q) ?_ fun _ => ?_
  · change (Q s).allows .DeleteCriticalSection
    rw [hQ]
    exact .inr (.inr (.inl rfl))
  rw [next_same (by rw [hQ]; rfl)]
  refine ⟨?_, fun _ u hu => Function.update_of_ne hu _ Q⟩
  change (Q s).allows .HeapFree
  rw [hQ]
  exact .inr (.inr (.inr rfl))

theorem follows_freeing (hQ : Q s = .freeing) :
    discipline.Follows (fun _ Q' => ∀ u, u ≠ s → Q' u = Q u)
      (do
        if ← perform s .isOpen then
          perform s .closesocket
          perform s .DeleteCriticalSection
          perform s .HeapFree
        else
          perform s .DeleteCriticalSection
          perform s .HeapFree) Q := by
  refine Discipline.follows_call (q := Q) ?_ fun opened => ?_
  · change (Q s).allows .isOpen
    rw [hQ]
    exact .inl rfl
  rw [next_same (by rw [hQ]; rfl)]
  split
  · refine Discipline.follows_call (q := Q) ?_ fun _ => ?_
    · change (Q s).allows .closesocket
      rw [hQ]
      exact .inr (.inl rfl)
    rw [next_same (by rw [hQ]; rfl)]
    exact follows_heapFree hQ
  · exact follows_heapFree hQ

theorem follows_freeSocketObj (hQ : Q s = .holding) :
    discipline.Follows (fun _ Q' => ∀ u, u ≠ s → Q' u = Q u) (FreeSocketObj s) Q := by
  refine Discipline.follows_call (q := Q) ?_ fun found => ?_
  · change (Q s).allows .hasOutstandingOps
    rw [hQ]
    exact ⟨nofun, nofun, nofun⟩
  have hnext : discipline.next Q ⟨s, .hasOutstandingOps⟩ found =
      Function.update Q s (if found = true then .holding else .freeing) := by
    change Function.update Q s ((Q s).next .hasOutstandingOps found) = _
    rw [hQ]
    rfl
  rw [hnext]
  cases found with
  | true => exact Discipline.follows_ret fun u hu => Function.update_of_ne hu _ Q
  | false =>
      refine (follows_freeing (Function.update_self s _ Q)).mono ?_
      intro _ Q' hQ' u hu
      exact (hQ' u hu).trans (Function.update_of_ne hu _ Q)

theorem follows_abandonClient (hQ : Q s = .holding) :
    discipline.Follows (fun _ Q' => ∀ u, u ≠ s → Q' u = Q u) (abandonClient s) Q := by
  refine follows_keeps (keeps_perform rfl) (.inr hQ) fun ops => ?_
  split
  · exact follows_keeps (keeps_perform rfl) (.inr hQ) fun _ => follows_freeSocketObj hQ
  · refine (keeps_perform rfl Q (.inr hQ)).mono ?_
    rintro _ _ rfl u -
    rfl

theorem follows_acceptCompleted {cfg : Config} {client : Nat} (hne : s ≠ client)
    (hs : Q s = .handling) (hclient : Q client = .holding) :
    discipline.Follows (fun _ Q' => Q' s = .handling) (acceptCompleted cfg s n client) Q := by
  refine follows_keeps (keeps_perform rfl) (.inr hclient) fun associated => ?_
  split
  · refine follows_keeps keeps_serveClient (.inr hclient) fun served => ?_
    refine follows_keeps keeps_postAccept (.inl hs) fun _ => ?_
    split
    · exact Discipline.follows_ret hs
    · refine Discipline.follows_after (follows_abandonClient hclient) fun _ Q' hQ' => ?_
      exact Discipline.follows_ret ((hQ' s hne).trans hs)
  · exact Discipline.follows_ret hs

theorem follows_decrement {g : Int → Program β} (hQ : Q s = .handling)
    (hg : ∀ ops, discipline.Follows post (g ops) (Function.update Q s .holding)) :
    discipline.Follows post (do g (← perform s .InterlockedDecrement)) Q := by
  refine Discipline.follows_call (q := Q) ?_ fun ops => ?_
  · change (Q s).allows .InterlockedDecrement
    rw [hQ]
    exact ⟨nofun, nofun, nofun⟩
  · have hnext : discipline.next Q ⟨s, .InterlockedDecrement⟩ ops =
        Function.update Q s .holding := by
      change Function.update Q s ((Q s).next .InterlockedDecrement ops) = _
      rw [hQ]
      rfl
    rw [hnext]
    exact hg ops

theorem follows_checkClosing (hQ : Q s = .handling) :
    discipline.Follows (fun _ Q' => Q' = Function.update Q s .holding) (checkClosing s) Q := by
  have hholding : Function.update Q s .holding s = .holding := Function.update_self s _ Q
  refine follows_decrement hQ fun ops => ?_
  split
  · refine follows_keeps (keeps_perform rfl) (.inr hholding) fun closing => ?_
    split
    · exact follows_keeps (keeps_perform rfl) (.inr hholding) fun _ => Discipline.follows_ret rfl
    · exact Discipline.follows_ret rfl
  · exact Discipline.follows_ret rfl

theorem follows_leave {b : Bool} (hQ : Q s = .handling) :
    discipline.Follows (fun _ _ => True) (leave s b) Q := by
  have hholding : Function.update Q s .holding s = .holding := Function.update_self s _ Q
  have hend : ∀ bCleanupSocket : Bool, discipline.Follows (fun _ _ => True)
      (do
        perform s .LeaveCriticalSection
        if bCleanupSocket then
          perform s .closesocket
          FreeSocketObj s
        else
          return ()) (Function.update Q s .holding) := by
    intro bCleanupSocket
    refine follows_keeps (keeps_perform rfl) (.inr hholding) fun _ => ?_
    split
    · refine follows_keeps (keeps_perform rfl) (.inr hholding) fun _ => ?_
      exact (follows_freeSocketObj hholding).mono fun _ _ _ => trivial
    · exact Discipline.follows_ret trivial
  refine Discipline.follows_after (follows_checkClosing hQ) ?_
  rintro last _ rfl
  cases last with
  | true => exact hend true
  | false =>
      refine follows_keeps keeps_doSends (.inr hholding) fun sent => ?_
      cases sent with
      | true => exact hend b
      | false => exact hend true

theorem follows_finish {r : Bool × Bool} (hQ : Q s = .handling) :
    discipline.Follows (fun _ _ => True) (finish s r) Q := by
  unfold finish
  split
  · exact follows_keeps (keeps_perform rfl) (.inl hQ) fun _ => follows_leave hQ
  · exact follows_leave hQ

theorem follows_handleIo {cfg : Config} {op : Op} {k client : Nat} {error : Bool}
    (hne : op.sock ≠ client) (hs : Q op.sock = .handling) (hclient : Q client = .holding) :
    discipline.Follows (fun _ _ => True) (HandleIo cfg op k error client) Q := by
  unfold HandleIo
  split
  · refine follows_keeps (keeps_perform rfl) (.inl hs) fun _ => ?_
    refine follows_decrement hs fun ops => ?_
    split
    · exact (follows_freeSocketObj (Function.update_self _ _ Q)).mono fun _ _ _ => trivial
    · exact Discipline.follows_ret trivial
  · refine follows_keeps (keeps_perform rfl) (.inl hs) fun _ => ?_
    split
    · refine Discipline.follows_after (follows_acceptCompleted hne hs hclient) ?_
      intro goesOn Q' hQ'
      split
      · exact follows_finish hQ'
      · exact Discipline.follows_ret trivial
    · split
      · exact follows_keeps keeps_receiveFailed (.inl hs) fun _ => follows_finish hs
      · split
        · exact follows_keeps keeps_receiveCompleted (.inl hs) fun _ => follows_finish hs
        · exact follows_keeps keeps_receiveEnded (.inl hs) fun _ => follows_finish hs
    · exact follows_keeps keeps_sendCompleted (.inl hs) fun _ => follows_finish hs

end

/-! ## Counts -/

/-- What is counted on an object. -/
structure Tally where
  ops : Int
  flight : Nat
  issued : Nat
  counted : Nat
  delivered : Nat
  finished : Nat

def Server.tally (σ : Server) (s : Nat) : Tally where
  ops := (σ.obj s).OutstandingOps
  flight := σ.flight.countP fun op => op.sock = s
  issued := (σ.obj s).issued
  counted := (σ.obj s).counted
  delivered := (σ.obj s).delivered
  finished := (σ.obj s).finished

namespace Tally

def posted (x : Tally) (ok : Bool) : Tally :=
  if ok then { x with flight := x.flight + 1, issued := x.issued + 1 } else x

/-- What a command does to the counts of its object. -/
def after (x : Tally) : (a : Access) → a.Reply → Tally
  | .WSARecv _ _, ok => x.posted ok
  | .WSASend _ _, ok => x.posted ok
  | .AcceptEx _, ok => x.posted ok
  | .InterlockedIncrement, _ => { x with ops := x.ops + 1, counted := x.counted + 1 }
  | .InterlockedDecrement, _ => { x with ops := x.ops - 1, finished := x.finished + 1 }
  | _, _ => x

/-- The counter, and the operations. -/
structure Balanced (x : Tally) : Prop where
  ops : x.ops = x.counted - x.finished
  flight : x.flight + x.delivered = x.issued

variable {x : Tally} {a : Access} {v : a.Reply} {ok : Bool}

theorem Balanced.posted (h : Balanced x) : Balanced (x.posted ok) := by
  cases ok with
  | false => exact h
  | true =>
      refine ⟨h.ops, ?_⟩
      have hflight := h.flight
      change x.flight + 1 + x.delivered = x.issued + 1
      omega

theorem Balanced.after (h : Balanced x) : Balanced (x.after a v) := by
  have hops := h.ops
  cases a with
  | WSARecv | WSASend | AcceptEx => exact h.posted
  | InterlockedIncrement =>
      refine ⟨?_, h.flight⟩
      change x.ops + 1 = ((x.counted + 1 : Nat) : Int) - x.finished
      omega
  | InterlockedDecrement =>
      refine ⟨?_, h.flight⟩
      change x.ops - 1 = x.counted - ((x.finished + 1 : Nat) : Int)
      omega
  | _ => exact h

theorem posted_delivered : (x.posted ok).delivered = x.delivered := by
  cases ok <;> rfl

theorem posted_finished : (x.posted ok).finished = x.finished := by
  cases ok <;> rfl

theorem after_delivered : (x.after a v).delivered = x.delivered := by
  cases a <;> first | exact posted_delivered | rfl

theorem after_finished (ha : a ≠ .InterlockedDecrement) :
    (x.after a v).finished = x.finished := by
  cases a <;> first | exact posted_finished | exact absurd rfl ha | rfl

end Tally

section
variable {σ σ' : Server} {s t : Nat} {a : Access} {v : a.Reply} {op : Op} {ok b : Bool}

/-- What a command does to the server. -/
structure Effect (s : Nat) (a : Access) (v : a.Reply) (σ σ' : Server) : Prop where
  next : σ'.next = σ.next
  here : σ'.tally s = (σ.tally s).after a v
  elsewhere : ∀ u, u ≠ s → σ'.tally u = σ.tally u
  flight : ∀ op ∈ σ'.flight, op ∈ σ.flight ∨ op.sock = s
  freed : σ'.freed = if a = .HeapFree then s :: σ.freed else σ.freed

theorem tally_set_of_ne {u : Nat} {x : Obj} (hu : u ≠ s) : (σ.set s x).tally u = σ.tally u := by
  simp only [Server.tally, Server.set, Function.update_of_ne hu]

theorem effect_post (hs : op.sock = s) (hv : (σ.post op ok).2 = b) :
    (σ.post op ok).1.tally s = (σ.tally s).posted b ∧
      (∀ u, u ≠ s → (σ.post op ok).1.tally u = σ.tally u) ∧
      (∀ op' ∈ (σ.post op ok).1.flight, op' ∈ σ.flight ∨ op'.sock = s) ∧
      (σ.post op ok).1.next = σ.next ∧ (σ.post op ok).1.freed = σ.freed := by
  subst hs hv
  unfold Server.post
  split
  · refine ⟨?_, fun u hu => ?_, ?_, rfl, rfl⟩
    · simp [Server.tally, Server.set, Tally.posted]
    · simp [Server.tally, Server.set, Function.update_of_ne hu, Ne.symm hu]
    · rintro op' (_ | ⟨_, hmem⟩)
      · exact .inr rfl
      · exact .inl hmem
  · exact ⟨rfl, fun _ _ => rfl, fun _ => .inl, rfl, rfl⟩

theorem effect_set {x : Obj} (hx : ({ σ with obj := fun _ => x } : Server).tally s = σ.tally s)
    (ha : ∀ y : Tally, y.after a v = y) (hfree : a ≠ .HeapFree) : Effect s a v σ (σ.set s x) where
  next := rfl
  here := by
    rw [ha, ← hx]
    simp [Server.tally, Server.set]
  elsewhere u hu := tally_set_of_ne hu
  flight _ := .inl
  freed := (if_neg hfree).symm

theorem effect_same (hobj : σ'.obj = σ.obj) (hflight : σ'.flight = σ.flight)
    (hnext : σ'.next = σ.next) (hfreed : σ'.freed = if a = .HeapFree then s :: σ.freed else σ.freed)
    (ha : ∀ y : Tally, y.after a v = y) : Effect s a v σ σ' where
  next := hnext
  here := by rw [ha, Server.tally, Server.tally, hobj, hflight]
  elsewhere u _ := by rw [Server.tally, Server.tally, hobj, hflight]
  flight op hop := .inl (hflight ▸ hop)
  freed := hfreed

theorem access_effect (h : access t s σ ok a = some (σ', v)) : Effect s a v σ σ' := by
  cases a with
  | WSARecv | WSASend | AcceptEx =>
      have hpost := Option.some.inj h
      obtain ⟨hhere, helse, hflight, hnext, hfreed⟩ :=
        @effect_post σ _ _ ok _ rfl (congrArg Prod.snd hpost)
      rw [congrArg Prod.fst hpost] at hhere helse hflight hnext hfreed
      exact ⟨hnext, hhere, helse, hflight, hfreed.trans (if_neg (fun he => by cases he)).symm⟩
  | EnterCriticalSection =>
      obtain ⟨x, hx, he⟩ := Option.map_eq_some_iff.mp h
      cases he
      refine effect_set ?_ (fun _ => rfl) fun he => by cases he
      unfold Obj.enter at hx
      split at hx
      · cases hx
        rfl
      · obtain ⟨-, hsome⟩ := Option.ite_none_right_eq_some.mp hx
        cases hsome
        rfl
  | LeaveCriticalSection =>
      cases h
      refine effect_set ?_ (fun _ => rfl) fun he => by cases he
      unfold Obj.left
      split
      · rfl
      · rfl
  | InterlockedIncrement | InterlockedDecrement =>
      cases h
      refine ⟨rfl, ?_, fun u hu => tally_set_of_ne hu, fun _ => .inl,
        (if_neg (fun he => by cases he)).symm⟩
      simp [Server.tally, Server.set, Tally.after]
  | IoCountIssued | nextSend | setOutOfOrderSends | setClosing | closesocket
  | DeleteCriticalSection =>
      cases h
      exact effect_set rfl (fun _ => rfl) fun he => by cases he
  | HeapFree =>
      cases h
      exact effect_same rfl rfl rfl (if_pos rfl).symm fun _ => rfl
  | _ =>
      cases h
      exact effect_same rfl rfl rfl (if_neg (fun he => by cases he)).symm fun _ => rfl

end

/-! ## Objects and threads -/

/-- Nobody has to do with the object any more. -/
structure Gone (m : Machine) (s : Nat) : Prop where
  idle : ∀ op ∈ m.shared.flight, op.sock ≠ s
  counted : (m.shared.obj s).issued = (m.shared.obj s).counted
  untouched : ∀ t, ¬ Holds m t s

/-- A thread keeps to the discipline.  It has objects at hand that were made, and whoever is
freeing one is alone with it. -/
def Keeping (m : Machine) (t : Nat) (p : Program Unit) : Prop :=
  ∃ Q, discipline.Follows (fun _ _ => True) p Q ∧
    ∀ s, (Q s ≠ .away → s < m.shared.next) ∧ (Q s = .freeing → Alone m t s)

/-- What holds of the socket objects in every state. -/
structure Lives (m : Machine) : Prop where
  balanced : ∀ s, (m.shared.tally s).Balanced
  /-- the threads that owe a completion are no more than have been delivered -/
  owed : ∀ s, ∃ T : Finset Nat, (∀ t, Owes m t s → t ∈ T) ∧
    T.card + (m.shared.tally s).finished ≤ (m.shared.tally s).delivered
  made : ∀ op ∈ m.shared.flight, op.sock < m.shared.next
  threads : ∀ t p, m.program t = some p → Keeping m t p
  freed : ∀ s ∈ m.shared.freed, s < m.shared.next ∧ Gone m s
  once : m.shared.freed.Nodup

section
variable {cfg : Config} {m m' : Machine} {t u s : Nat} {p : Program Unit} {Q : Nat → Stage}

theorem idle_iff {σ : Server} : (∀ op ∈ σ.flight, op.sock ≠ s) ↔ (σ.tally s).flight = 0 := by
  simp only [Server.tally, List.countP_eq_zero, decide_eq_true_eq]

theorem idle_of_tally (htally : m'.shared.tally s = m.shared.tally s)
    (h : ∀ op ∈ m.shared.flight, op.sock ≠ s) : ∀ op ∈ m'.shared.flight, op.sock ≠ s := by
  rw [idle_iff, htally]
  exact idle_iff.mp h

theorem counted_of_tally (htally : m'.shared.tally s = m.shared.tally s)
    (h : (m.shared.obj s).issued = (m.shared.obj s).counted) :
    (m'.shared.obj s).issued = (m'.shared.obj s).counted := by
  have hissued : (m'.shared.obj s).issued = (m.shared.obj s).issued := congrArg Tally.issued htally
  have hcounted : (m'.shared.obj s).counted = (m.shared.obj s).counted :=
    congrArg Tally.counted htally
  rw [hissued, hcounted, h]

theorem Alone.mono (h : Alone m t s) (htally : m'.shared.tally s = m.shared.tally s)
    (hfreed : s ∈ m'.shared.freed → s ∈ m.shared.freed)
    (hholds : ∀ u, u ≠ t → Holds m' u s → Holds m u s) : Alone m' t s where
  first hmem := h.first (hfreed hmem)
  idle := idle_of_tally htally h.idle
  counted := counted_of_tally htally h.counted
  others u hu hmay := h.others u hu (hholds u hu hmay)

theorem Gone.mono (h : Gone m s) (htally : m'.shared.tally s = m.shared.tally s)
    (hholds : ∀ u, Holds m' u s → Holds m u s) : Gone m' s where
  idle := idle_of_tally htally h.idle
  counted := counted_of_tally htally h.counted
  untouched u hmay := h.untouched u (hholds u hmay)

theorem not_touches (h : discipline.Follows (fun _ _ => True) p Q) (hQ : Q s = .away) :
    ¬ p.May fun c => c.sock = s := by
  refine h.not_may (Z := fun Q => Q s = .away) (fun Q c hs hallows => ?_) hQ
  have hne : c.sock ≠ s := by
    rintro rfl
    change (Q c.sock).allows c.access at hallows
    rw [hs] at hallows
    exact hallows
  exact ⟨hne, fun v => (Function.update_of_ne (Ne.symm hne) _ Q).trans hs⟩

theorem Stage.handling_of_decrement {q : Stage} (h : q.allows .InterlockedDecrement) :
    q = .handling := by
  cases q with
  | handling => rfl
  | holding => exact absurd rfl h.1
  | freeing => rcases h with h | h | h | h <;> cases h
  | away => exact h.elim

theorem Stage.freeing_of_heapFree {q : Stage} (h : q.allows .HeapFree) : q = .freeing := by
  cases q with
  | handling | holding => exact absurd rfl h.2.2
  | freeing => rfl
  | away => exact h.elim

theorem Stage.next_handling {q : Stage} {a : Access} {v : a.Reply} (h : q.next a v = .handling) :
    q = .handling := by
  cases q with
  | handling => rfl
  | holding =>
      cases a with
      | hasOutstandingOps =>
          change (if v = true then Stage.holding else .freeing) = .handling at h
          split at h <;> cases h
      | _ => cases h
  | freeing => cases a <;> cases h
  | away => cases h

/-- Only a thread that is handling an object owes a completion of it. -/
theorem not_owes (h : discipline.Follows (fun _ _ => True) p Q) (hQ : Q s ≠ .handling) :
    ¬ p.May fun c => c = ⟨s, .InterlockedDecrement⟩ := by
  refine h.not_may (Z := fun Q => Q s ≠ .handling) (fun Q c hs hallows => ⟨?_, fun v => ?_⟩) hQ
  · rintro rfl
    exact hs (Stage.handling_of_decrement hallows)
  · change Function.update Q c.sock ((Q c.sock).next c.access v) s ≠ .handling
    by_cases hc : s = c.sock
    · subst hc
      rw [Function.update_self]
      exact fun hnext => hs (Stage.next_handling hnext)
    · rwa [Function.update_of_ne hc]

/-! ## One step -/

theorem may_run {P : Cmd → Prop} {c : Cmd} {k : c.Reply → Program Unit} {v : c.Reply}
    (ht : m.program t = some (.call c k))
    (hprograms : ∀ u, m'.program u = if u = t then some (k v) else m.program u)
    (h : m'.May u P) : m.May u P := by
  obtain ⟨p, hp, hmay⟩ := h
  rw [hprograms] at hp
  split at hp
  · rename_i hu
    cases hp
    subst hu
    exact ⟨_, ht, .inr ⟨v, hmay⟩⟩
  · exact ⟨p, hp, hmay⟩

/-- The counter is `0`, all operations have been counted, and whoever else has the object at
hand owes a completion: there is nobody. -/
theorem Lives.alone (h : Lives m) (hheld : Holds m t s) (hops : (m.shared.obj s).OutstandingOps = 0)
    (hcounted : (m.shared.obj s).issued = (m.shared.obj s).counted)
    (hothers : ∀ u, u ≠ t → Holds m u s → Owes m u s) : Alone m t s := by
  have hbalance := (h.balanced s).ops
  have hflight := (h.balanced s).flight
  obtain ⟨T, hT, hcard⟩ := h.owed s
  change (m.shared.obj s).OutstandingOps =
    ((m.shared.obj s).counted : Int) - (m.shared.obj s).finished at hbalance
  change (m.shared.tally s).flight + (m.shared.obj s).delivered =
    (m.shared.obj s).issued at hflight
  change T.card + (m.shared.obj s).finished ≤ (m.shared.obj s).delivered at hcard
  refine ⟨fun hmem => (h.freed s hmem).2.untouched t hheld, idle_iff.mpr (by omega), hcounted, ?_⟩
  intro u hu hmay
  have hmem : u ∈ T := hT u (hothers u hu hmay)
  have hpos : 0 < T.card := Finset.card_pos.mpr ⟨u, hmem⟩
  omega

/-- The facts about one command of a thread. -/
structure Ran (m m' : Machine) (t : Nat) (c : Cmd) (k : c.Reply → Program Unit) (v : c.Reply) :
    Prop where
  before : m.program t = some (.call c k)
  after : ∀ u, m'.program u = if u = t then some (k v) else m.program u
  effect : Effect c.sock c.access v m.shared m'.shared

variable {c : Cmd} {k : c.Reply → Program Unit} {v : c.Reply}

theorem Ran.holds (r : Ran m m' t c k v) : Holds m t c.sock := ⟨_, r.before, .inl rfl⟩

theorem Ran.may {P : Cmd → Prop} (r : Ran m m' t c k v) (h : m'.May u P) : m.May u P :=
  may_run r.before r.after h

theorem Ran.program_self (r : Ran m m' t c k v) : m'.program t = some (k v) := by
  rw [r.after, if_pos rfl]

theorem Ran.freed_of_ne (r : Ran m m' t c k v) (hs : s ≠ c.sock) (hmem : s ∈ m'.shared.freed) :
    s ∈ m.shared.freed := by
  rw [r.effect.freed] at hmem
  split at hmem
  · exact (List.mem_cons.mp hmem).resolve_left hs
  · exact hmem

theorem Ran.alone_of_ne (r : Ran m m' t c k v) (hs : s ≠ c.sock) (h : Alone m u s) :
    Alone m' u s :=
  h.mono (r.effect.elsewhere s hs) (r.freed_of_ne hs) fun _ _ hw => r.may hw

theorem Ran.balanced (r : Ran m m' t c k v) (h : Lives m) (s : Nat) :
    (m'.shared.tally s).Balanced := by
  by_cases hs : s = c.sock
  · subst hs
    rw [r.effect.here]
    exact (h.balanced _).after
  · rw [r.effect.elsewhere s hs]
    exact h.balanced s

theorem Ran.owed (r : Ran m m' t c k v) (h : Lives m)
    (hfollows : discipline.Follows (fun _ _ => True) (.call c k) Q) (s : Nat) :
    ∃ T : Finset Nat, (∀ u, Owes m' u s → u ∈ T) ∧
      T.card + (m'.shared.tally s).finished ≤ (m'.shared.tally s).delivered := by
  obtain ⟨T, hT, hcard⟩ := h.owed s
  by_cases hdec : c = ⟨s, .InterlockedDecrement⟩
  · subst hdec
    have htally : m'.shared.tally s = (m.shared.tally s).after .InterlockedDecrement v :=
      r.effect.here
    have hmem : t ∈ T := hT t ⟨_, r.before, .inl rfl⟩
    have hnext : discipline.next Q ⟨s, .InterlockedDecrement⟩ v s ≠ .handling := by
      have hs : Q s = .handling := Stage.handling_of_decrement hfollows.1
      change Function.update Q s ((Q s).next .InterlockedDecrement v) s ≠ .handling
      rw [Function.update_self, hs]
      exact nofun
    refine ⟨T.erase t, fun u hu => Finset.mem_erase.mpr ⟨?_, hT u (r.may hu)⟩, ?_⟩
    · rintro rfl
      exact not_owes (hfollows.2 v) hnext (hu.of_program r.program_self)
    · rw [htally]
      change (T.erase t).card + ((m.shared.tally s).finished + 1) ≤ (m.shared.tally s).delivered
      have herase := Finset.card_erase_add_one hmem
      omega
  · refine ⟨T, fun u hu => hT u (r.may hu), ?_⟩
    by_cases hs : s = c.sock
    · subst hs
      have ha : c.access ≠ .InterlockedDecrement := by
        intro ha
        exact hdec (by rw [← ha])
      rw [r.effect.here, Tally.after_finished ha, Tally.after_delivered]
      exact hcard
    · rw [r.effect.elsewhere s hs]
      exact hcard

/-- How a thread comes to be freeing an object, or stays so: by commands that leave the counts
as they are. -/
theorem Stage.freeing_cases {q : Stage} {a : Access} {v : a.Reply} (ha : q.allows a)
    (h : q.next a v = .freeing) :
    (q = .freeing ∨ a = .hasOutstandingOps) ∧ a ≠ .HeapFree ∧ ∀ x : Tally, x.after a v = x := by
  cases q with
  | handling => cases a <;> cases h
  | holding =>
      cases a with
      | hasOutstandingOps => exact ⟨.inr rfl, nofun, fun _ => rfl⟩
      | _ => cases h
  | freeing =>
      rcases ha with rfl | rfl | rfl | rfl
      · exact ⟨.inl rfl, nofun, fun _ => rfl⟩
      · exact ⟨.inl rfl, nofun, fun _ => rfl⟩
      · exact ⟨.inl rfl, nofun, fun _ => rfl⟩
      · cases h
  | away => exact ha.elim

theorem Ran.keeping (r : Ran m m' t c k v)
    (hlast : c.access = .hasOutstandingOps → (Q c.sock).next c.access v = .freeing →
      Alone m t c.sock)
    (hfollows : discipline.Follows (fun _ _ => True) (.call c k) Q)
    (hQ : ∀ s, (Q s ≠ .away → s < m.shared.next) ∧ (Q s = .freeing → Alone m t s)) :
    Keeping m' t (k v) := by
  have hallows : (Q c.sock).allows c.access := hfollows.1
  refine ⟨_, hfollows.2 v, fun s => ?_⟩
  change (Function.update Q c.sock ((Q c.sock).next c.access v) s ≠ .away → _) ∧
    (Function.update Q c.sock ((Q c.sock).next c.access v) s = .freeing → _)
  rw [r.effect.next]
  by_cases hs : s = c.sock
  · subst hs
    rw [Function.update_self]
    refine ⟨fun _ => (hQ c.sock).1 fun haway => ?_, fun hfreeing => ?_⟩
    · rw [haway] at hallows
      exact hallows
    · obtain ⟨hstage, hnot, htally⟩ := Stage.freeing_cases hallows hfreeing
      have halone : Alone m t c.sock := by
        rcases hstage with hstage | htest
        · exact (hQ c.sock).2 hstage
        · exact hlast htest hfreeing
      refine halone.mono (r.effect.here.trans (htally _)) ?_ fun _ _ hw => r.may hw
      rw [r.effect.freed, if_neg hnot]
      exact id
  · rw [Function.update_of_ne hs]
    exact ⟨(hQ s).1, fun hfreeing => r.alone_of_ne hs ((hQ s).2 hfreeing)⟩

theorem Ran.freed (r : Ran m m' t c k v) (h : Lives m)
    (hfollows : discipline.Follows (fun _ _ => True) (.call c k) Q)
    (hQ : ∀ s, (Q s ≠ .away → s < m.shared.next) ∧ (Q s = .freeing → Alone m t s)) :
    (∀ s ∈ m'.shared.freed, s < m'.shared.next ∧ Gone m' s) ∧ m'.shared.freed.Nodup := by
  have hold : ∀ s ∈ m.shared.freed, s < m'.shared.next ∧ Gone m' s := by
    intro s hmem
    obtain ⟨hlt, hgone⟩ := h.freed s hmem
    have hne : s ≠ c.sock := by
      rintro rfl
      exact hgone.untouched t r.holds
    rw [r.effect.next]
    exact ⟨hlt, hgone.mono (r.effect.elsewhere s hne) fun _ hw => r.may hw⟩
  rw [r.effect.freed]
  by_cases hfree : c.access = .HeapFree
  · obtain ⟨s, a⟩ := c
    cases hfree
    have hstage : Q s = .freeing := Stage.freeing_of_heapFree hfollows.1
    have halone := (hQ s).2 hstage
    have haway : discipline.next Q ⟨s, .HeapFree⟩ v s = .away := by
      change Function.update Q s ((Q s).next .HeapFree v) s = .away
      rw [Function.update_self, hstage]
      rfl
    rw [if_pos rfl]
    refine ⟨List.forall_mem_cons.mpr ⟨?_, hold⟩, List.nodup_cons.mpr ⟨halone.first, h.once⟩⟩
    have hlt : s < m.shared.next := (hQ s).1 (by rw [hstage]; exact nofun)
    rw [r.effect.next]
    refine ⟨hlt, idle_of_tally r.effect.here halone.idle,
      counted_of_tally r.effect.here halone.counted, fun u hmay => ?_⟩
    by_cases hu : u = t
    · subst hu
      exact not_touches (hfollows.2 v) haway (hmay.of_program r.program_self)
    · exact halone.others u hu (r.may hmay)
  · rw [if_neg hfree]
    exact ⟨hold, h.once⟩

theorem Lives.ran (h : Lives m) (r : Ran m m' t c k v)
    (hlast : c.access = .hasOutstandingOps → (m.shared.obj c.sock).OutstandingOps = 0 →
      Alone m t c.sock)
    (htest : ∀ q : Stage, c.access = .hasOutstandingOps → q.next c.access v = .freeing →
      q ≠ .freeing → (m.shared.obj c.sock).OutstandingOps = 0) : Lives m' := by
  obtain ⟨Q, hfollows, hQ⟩ := h.threads t _ r.before
  have hallows : (Q c.sock).allows c.access := hfollows.1
  have hheld : c.sock < m.shared.next := by
    refine (hQ c.sock).1 fun haway => ?_
    rw [haway] at hallows
    exact hallows
  obtain ⟨hfreed, honce⟩ := r.freed h hfollows hQ
  refine ⟨r.balanced h, r.owed h hfollows, fun op hop => ?_, fun u p hu => ?_, hfreed, honce⟩
  · rw [r.effect.next]
    rcases r.effect.flight op hop with hop | hop
    · exact h.made op hop
    · rwa [hop]
  · rw [r.after] at hu
    by_cases hut : u = t
    · subst hut
      rw [if_pos rfl] at hu
      cases hu
      refine r.keeping (fun ha hnext => hlast ha (htest _ ha hnext fun hfreeing => ?_)) hfollows hQ
      rw [hfreeing, ha] at hallows
      rcases hallows with h | h | h | h <;> cases h
    · rw [if_neg hut] at hu
      obtain ⟨Q', hfollows', hQ'⟩ := h.threads u p hu
      refine ⟨Q', hfollows', fun s => ⟨?_, fun hfreeing => ?_⟩⟩
      · rw [r.effect.next]
        exact (hQ' s).1
      · have halone := (hQ' s).2 hfreeing
        refine r.alone_of_ne ?_ halone
        rintro rfl
        exact halone.others t (Ne.symm hut) r.holds

theorem Lives.run {x : Bool} (h : Lives m) (hlast : FoundLast m (.run t x))
    (hstep : (system cfg).step m (.run t x) = some m') : Lives m' := by
  obtain ⟨e, ⟨s, a⟩, k, v, ht, hexec, hprograms⟩ := program_run hstep
  have r : Ran m m' t ⟨s, a⟩ k v := ⟨ht, hprograms, access_effect hexec⟩
  refine h.ran r ?_ ?_
  · rintro rfl hops
    obtain ⟨hcounted, hothers⟩ := hlast s (Machine.next_of_program ht) hops
    exact h.alone r.holds hops hcounted hothers
  · rintro q rfl hnext hq
    have hv : (!decide ((m.shared.obj s).OutstandingOps = 0)) = v := by
      have hreply := congrArg Prod.snd (Option.some.inj hexec)
      simpa [decide_not] using hreply
    by_contra hops
    rw [decide_eq_false hops] at hv
    subst hv
    cases q with
    | freeing => exact hq rfl
    | _ => cases hnext

/-! An event begins. -/

/-- Thread `t` begins the program `p`, which is about the objects that `Q` says. -/
structure Begun (m m' : Machine) (t : Nat) (p : Program Unit) (Q : Nat → Stage) : Prop where
  idle : m.program t = none
  after : ∀ u, m'.program u = if u = t then some p else m.program u
  follows : discipline.Follows (fun _ _ => True) p Q
  freed : m'.shared.freed = m.shared.freed
  next : m.shared.next ≤ m'.shared.next
  fresh : ∀ s, Q s ≠ .away → s < m'.shared.next ∧ Q s ≠ .freeing
  known : ∀ s, s < m.shared.next → (∀ op ∈ m.shared.flight, op.sock ≠ s) →
    Q s = .away ∧ m'.shared.tally s = m.shared.tally s

theorem Begun.may {P : Cmd → Prop} (b : Begun m m' t p Q) (hp : ¬ p.May P) (h : m'.May u P) :
    m.May u P := by
  obtain ⟨p', hp', hmay⟩ := h
  rw [b.after] at hp'
  split at hp'
  · cases hp'
    exact absurd hmay hp
  · exact ⟨p', hp', hmay⟩

/-- An object on which nothing is in flight is not what the event is about. -/
theorem Begun.holds (b : Begun m m' t p Q) (hs : s < m.shared.next)
    (hidle : ∀ op ∈ m.shared.flight, op.sock ≠ s) (h : Holds m' u s) : Holds m u s :=
  b.may (not_touches b.follows (b.known s hs hidle).1) h

theorem Lives.begun (h : Lives m) (b : Begun m m' t p Q)
    (hbalanced : ∀ s, (m'.shared.tally s).Balanced)
    (howed : ∀ s, (m'.shared.tally s).finished = (m.shared.tally s).finished ∧
      (m.shared.tally s).delivered + (if Q s = .handling then 1 else 0) ≤
        (m'.shared.tally s).delivered)
    (hmade : ∀ op ∈ m'.shared.flight, op.sock < m'.shared.next) : Lives m' := by
  refine ⟨hbalanced, fun s => ?_, hmade, fun u p' hu => ?_, fun s hmem => ?_, ?_⟩
  · obtain ⟨T, hT, hcard⟩ := h.owed s
    obtain ⟨hfinished, hdelivered⟩ := howed s
    by_cases hs : Q s = .handling
    · rw [if_pos hs] at hdelivered
      refine ⟨insert t T, fun u hu => ?_, ?_⟩
      · by_cases hut : u = t
        · exact Finset.mem_insert.mpr (.inl hut)
        · obtain ⟨p', hp', hmay⟩ := hu
          rw [b.after, if_neg hut] at hp'
          exact Finset.mem_insert_of_mem (hT u ⟨p', hp', hmay⟩)
      · have hinsert := Finset.card_insert_le t T
        omega
    · rw [if_neg hs] at hdelivered
      refine ⟨T, fun u hu => hT u (b.may (not_owes b.follows hs) hu), ?_⟩
      omega
  · rw [b.after] at hu
    by_cases hut : u = t
    · rw [if_pos hut] at hu
      cases hu
      refine ⟨Q, b.follows, fun s => ⟨fun hs => (b.fresh s hs).1, fun hfreeing => ?_⟩⟩
      exact absurd hfreeing (b.fresh s (by rw [hfreeing]; exact nofun)).2
    · rw [if_neg hut] at hu
      obtain ⟨Q', hfollows', hQ'⟩ := h.threads u p' hu
      refine ⟨Q', hfollows', fun s => ⟨fun hs => ?_, fun hfreeing => ?_⟩⟩
      · exact Nat.lt_of_lt_of_le ((hQ' s).1 hs) b.next
      · have halone := (hQ' s).2 hfreeing
        have hs := (hQ' s).1 (by rw [hfreeing]; exact nofun)
        exact halone.mono (b.known s hs halone.idle).2 (fun hmem => b.freed ▸ hmem)
          fun _ _ hw => b.holds hs halone.idle hw
  · rw [b.freed] at hmem
    obtain ⟨hs, hgone⟩ := h.freed s hmem
    exact ⟨Nat.lt_of_lt_of_le hs b.next, hgone.mono (b.known s hs hgone.idle).2
      fun _ hw => b.holds hs hgone.idle hw⟩
  · rw [b.freed]
    exact h.once

theorem Lives.opened (h : Lives m) (hidle : m.program t = none)
    (hshared : m'.shared = { m.shared with next := m.shared.next + 1 })
    (hprograms : ∀ u, m'.program u =
      if u = t then some (Threads.opened cfg m.shared.next) else m.program u) : Lives m' := by
  have htally : ∀ s, m'.shared.tally s = m.shared.tally s := by
    intro s
    rw [hshared]
    rfl
  have hnext : m'.shared.next = m.shared.next + 1 := by rw [hshared]
  have hflight : m'.shared.flight = m.shared.flight := by rw [hshared]
  have hself := Function.update_self (β := fun _ => Stage) m.shared.next .holding fun _ => .away
  have hne : ∀ s, s ≠ m.shared.next →
      Function.update (fun _ => Stage.away) m.shared.next .holding s = .away :=
    fun s hs => Function.update_of_ne hs _ _
  have b : Begun m m' t (Threads.opened cfg m.shared.next)
      (Function.update (fun _ => .away) m.shared.next .holding) := by
    refine ⟨hidle, hprograms, ?_, by rw [hshared], by omega, fun s hs => ?_, fun s hs _ => ?_⟩
    · exact (keeps_opened _ (.inr hself)).mono fun _ _ _ => trivial
    · by_cases heq : s = m.shared.next
      · subst heq
        rw [hself]
        exact ⟨by omega, nofun⟩
      · exact absurd (hne s heq) hs
    · exact ⟨hne s (by omega), htally s⟩
  refine h.begun b (fun s => htally s ▸ h.balanced s) (fun s => ?_) fun op hop => ?_
  · have hnot : Function.update (fun _ => Stage.away) m.shared.next .holding s ≠ .handling := by
      by_cases heq : s = m.shared.next
      · subst heq
        rw [hself]
        exact nofun
      · rw [hne s heq]
        exact nofun
    rw [htally, if_neg hnot]
    exact ⟨rfl, Nat.le_refl _⟩
  · rw [hflight] at hop
    have hlt := h.made op hop
    omega

/-- The object of the completion, and the one that an accept is to make. -/
def atHand (sock clientobj s : Nat) : Stage :=
  if s = sock then .handling else if s = clientobj then .holding else .away

theorem Lives.delivered {op : Op} {n : Nat} {error : Bool} (h : Lives m)
    (hop : op ∈ m.shared.flight) (hidle : m.program t = none)
    (hshared : m'.shared = { m.shared.set op.sock { m.shared.obj op.sock with
        delivered := (m.shared.obj op.sock).delivered + 1 } with
      next := m.shared.next + 1
      flight := m.shared.flight.erase op })
    (hprograms : ∀ u, m'.program u =
      if u = t then some (HandleIo cfg op n error m.shared.next) else m.program u) : Lives m' := by
  have hlt := h.made op hop
  have hcount : ∀ s, (m.shared.tally s).flight =
      (m'.shared.tally s).flight + if op.sock = s then 1 else 0 := by
    intro s
    have hperm := (List.perm_cons_erase hop).countP_eq fun op => decide (op.sock = s)
    rw [List.countP_cons] at hperm
    simpa [Server.tally, hshared] using hperm
  have hother : ∀ s, s ≠ op.sock → m'.shared.tally s = m.shared.tally s := by
    intro s hs
    have hflight := hcount s
    rw [if_neg (Ne.symm hs), Nat.add_zero] at hflight
    have hobj : m'.shared.obj s = m.shared.obj s := by
      rw [hshared]
      exact Function.update_of_ne hs _ _
    rw [Server.tally, Server.tally, hobj]
    congr 1
    exact hflight.symm
  have hhere : m'.shared.obj op.sock = { m.shared.obj op.sock with
      delivered := (m.shared.obj op.sock).delivered + 1 } := by
    rw [hshared]
    exact Function.update_self _ _ _
  have hnext : m'.shared.next = m.shared.next + 1 := by rw [hshared]
  have hself : atHand op.sock m.shared.next op.sock = .handling := if_pos rfl
  have hclient : atHand op.sock m.shared.next m.shared.next = .holding := by
    rw [atHand, if_neg (by omega), if_pos rfl]
  have hne : ∀ s, s ≠ op.sock → s ≠ m.shared.next → atHand op.sock m.shared.next s = .away :=
    fun s hs hs' => by rw [atHand, if_neg hs, if_neg hs']
  have b : Begun m m' t (HandleIo cfg op n error m.shared.next)
      (atHand op.sock m.shared.next) := by
    refine ⟨hidle, hprograms, follows_handleIo (by omega) hself hclient, by rw [hshared]; rfl,
      by omega, fun s hs => ?_, fun s hs hnone => ?_⟩
    · by_cases heq : s = op.sock
      · subst heq
        rw [hself]
        exact ⟨by omega, nofun⟩
      · by_cases heq' : s = m.shared.next
        · subst heq'
          rw [hclient]
          exact ⟨by omega, nofun⟩
        · exact absurd (hne s heq heq') hs
    · have hs' : s ≠ op.sock := fun heq => hnone op hop heq.symm
      exact ⟨hne s hs' (by omega), hother s hs'⟩
  refine h.begun b (fun s => ?_) (fun s => ?_) fun op' hop' => ?_
  · by_cases hs : s = op.sock
    · subst hs
      have hflight := hcount op.sock
      rw [if_pos rfl] at hflight
      have hbalance := h.balanced op.sock
      have hops : (m'.shared.obj op.sock).OutstandingOps =
          ((m'.shared.obj op.sock).counted : Int) - (m'.shared.obj op.sock).finished := by
        rw [hhere]
        exact hbalance.ops
      refine ⟨hops, ?_⟩
      change (m'.shared.tally op.sock).flight + (m'.shared.obj op.sock).delivered =
        (m'.shared.obj op.sock).issued
      have hissued : (m.shared.tally op.sock).flight + (m.shared.obj op.sock).delivered =
        (m.shared.obj op.sock).issued := hbalance.flight
      rw [hhere]
      dsimp only
      omega
    · rw [hother s hs]
      exact h.balanced s
  · by_cases hs : s = op.sock
    · subst hs
      rw [hself, if_pos rfl]
      refine ⟨?_, ?_⟩
      · change (m'.shared.obj op.sock).finished = (m.shared.obj op.sock).finished
        rw [hhere]
      · change (m.shared.obj op.sock).delivered + 1 ≤ (m'.shared.obj op.sock).delivered
        rw [hhere]
    · have hnot : atHand op.sock m.shared.next s ≠ .handling := by
        rw [atHand, if_neg hs]
        split <;> exact nofun
      rw [hother s hs, if_neg hnot]
      exact ⟨rfl, Nat.le_refl _⟩
  · have hmem : op' ∈ m.shared.flight.erase op := by
      rw [hshared] at hop'
      exact hop'
    have hlt' := h.made op' (List.mem_of_mem_erase hmem)
    omega

theorem Lives.begin {e : Event} (h : Lives m)
    (hstep : (system cfg).step m (.begin t e) = some m') : Lives m' := by
  obtain ⟨hidle, p, hspawn, hprograms⟩ := program_begin hstep
  cases e with
  | opened sock =>
      obtain ⟨⟨-, rfl⟩, hsome⟩ := Option.ite_none_right_eq_some.mp hspawn
      obtain ⟨hshared, rfl⟩ := Prod.mk.inj (Option.some.inj hsome)
      exact h.opened hidle hshared.symm hprograms
  | completion op n error clientobj =>
      obtain ⟨⟨-, hop, rfl⟩, hsome⟩ := Option.ite_none_right_eq_some.mp hspawn
      obtain ⟨hshared, rfl⟩ := Prod.mk.inj (Option.some.inj hsome)
      exact h.delivered hop hidle hshared.symm hprograms

theorem Lives.finish (h : Lives m) (hstep : (system cfg).step m (.finish t) = some m') :
    Lives m' := by
  obtain ⟨hshared, -, hprograms⟩ := program_finish hstep
  have hprogram : ∀ {u p}, m'.program u = some p → m.program u = some p := by
    intro u p hu
    rw [hprograms] at hu
    split at hu
    · cases hu
    · exact hu
  have hmay : ∀ {u P}, m'.May u P → m.May u P := fun ⟨p, hp, hw⟩ => ⟨p, hprogram hp, hw⟩
  have htally : ∀ s, m'.shared.tally s = m.shared.tally s := fun s => by rw [hshared]
  refine ⟨fun s => htally s ▸ h.balanced s, fun s => ?_, ?_, fun u p hu => ?_, fun s hmem => ?_, ?_⟩
  · obtain ⟨T, hT, hcard⟩ := h.owed s
    exact ⟨T, fun u hu => hT u (hmay hu), htally s ▸ hcard⟩
  · rw [hshared]
    exact h.made
  · obtain ⟨Q, hfollows, hQ⟩ := h.threads u p (hprogram hu)
    refine ⟨Q, hfollows, fun s => ⟨?_, fun hfreeing => ?_⟩⟩
    · rw [hshared]
      exact (hQ s).1
    · exact ((hQ s).2 hfreeing).mono (htally s) (fun hmem => hshared ▸ hmem)
        fun _ _ hw => hmay hw
  · rw [hshared] at hmem ⊢
    obtain ⟨hs, hgone⟩ := h.freed s hmem
    exact ⟨hs, hgone.mono (htally s) fun _ hw => hmay hw⟩
  · rw [hshared]
    exact h.once

/-! ## Runs -/

theorem Lives.step {a : Action} (h : Lives m) (hlast : FoundLast m a)
    (hstep : (system cfg).step m a = some m') : Lives m' := by
  cases a with
  | run t x => exact h.run hlast hstep
  | begin t e => exact h.begin hstep
  | finish t => exact h.finish hstep

theorem program_idle {threads : Nat} : (idle cfg threads).program t = none := by
  rw [Machine.program, idle, List.getElem?_replicate]
  split <;> rfl

theorem lives_idle {threads : Nat} : Lives (idle cfg threads) where
  balanced _ := ⟨rfl, rfl⟩
  owed s := by
    refine ⟨∅, fun t ht => ?_, Nat.le_refl 0⟩
    obtain ⟨p, hp, -⟩ := ht
    rw [program_idle] at hp
    cases hp
  made _ hop := by cases hop
  threads t p hp := by
    rw [program_idle] at hp
    cases hp
  freed _ hmem := by cases hmem
  once := List.nodup_nil

theorem lives_run {threads : Nat} (h : Via (system cfg).step FoundLast (idle cfg threads) m) :
    Lives m :=
  h.invariant (P := Lives) lives_idle fun _ _ _ hm hlast hstep => hm.step hlast hstep

theorem Lives.heapFree (h : Lives m) (hnext : m.next t = some ⟨s, .HeapFree⟩) : Alone m t s := by
  obtain ⟨o, ht, ho⟩ := Option.bind_eq_some_iff.mp hnext
  obtain ⟨⟨e, p⟩, rfl, hp⟩ := Option.bind_eq_some_iff.mp ho
  obtain ⟨Q, hfollows, hQ⟩ := h.threads t p (Machine.program_of_threads ht)
  refine (hQ s).2 ?_
  cases p with
  | ret b => cases hp
  | call c k =>
      cases hp
      exact Stage.freeing_of_heapFree hfollows.1

/-- **The life of an object.**  In every run in which `FreeSocketObj` has found the counter at
`0` only when the last thread came to it, the next step frees rightly exactly if this holds of
it, too; and no object has been freed twice. -/
theorem object_lifetime {threads : Nat}
    (h : Via (system cfg).step FoundLast (idle cfg threads) m) (a : Action) :
    m.shared.freed.Nodup ∧ (FreesRight m a ↔ FoundLast m a) := by
  have hm := lives_run h
  refine ⟨hm.once, ?_⟩
  cases a with
  | begin t e => exact Iff.rfl
  | finish t => exact Iff.rfl
  | run t x =>
      constructor
      · intro hright s hnext hops
        have halone := hright s (.inr ⟨hnext, hops⟩)
        exact ⟨halone.counted, fun u hu hw => absurd hw (halone.others u hu)⟩
      · rintro hlast s (hfree | ⟨hnext, hops⟩)
        · exact hm.heapFree hfree
        · obtain ⟨hcounted, hothers⟩ := hlast s hnext hops
          exact hm.alone (Machine.may_of_next hnext rfl) hops hcounted hothers

end

/-! ## Two connections -/

/-- One receive for each connection. -/
def oneReceive : Config := ⟨.tcp, 1⟩

/-- `main` posts its accept. -/
def listening : List Action :=
  .begin 0 (.opened 0) :: (List.replicate 4 (.run 0 true) ++ [.finish 0])

/-- The accept is handled to its end; the receive brings nothing, and then the send completes:
its handler stands before the test of `FreeSocketObj`. -/
def lastSend : List Action := List.flatten [
  listening, [.begin 1 (.completion ⟨0, .opAccept, 0, 0⟩ 1 false 1)],
  List.replicate 22 (.run 1 true),
  [.finish 1, .begin 1 (.completion ⟨1, .opRead, 1, 2⟩ 0 false 2)],
  List.replicate 12 (.run 1 true),
  [.finish 1, .begin 1 (.completion ⟨1, .opWrite, 0, 1⟩ 1 false 3)],
  List.replicate 10 (.run 1 true)]

/-- The handler of the accept stands between `WSARecv` and the counting of the receive.  The
receive completes with an error on thread `2`, which lowers the counter to `0`. -/
def uncountedReceive : List Action :=
  listening ++ .begin 1 (.completion ⟨0, .opAccept, 0, 0⟩ 1 false 1) ::
    List.replicate 13 (.run 1 true) ++
    .begin 2 (.completion ⟨1, .opRead, 1, 2⟩ 0 true 2) :: List.replicate 6 (.run 2 true)

/-- No step of the run is a test of `FreeSocketObj`. -/
def Untested (m : Machine) : Action → Prop
  | .run t _ => ∀ c ∈ m.next t, c.access ≠ .hasOutstandingOps
  | _ => True

instance (m : Machine) : (a : Action) → Decidable (Untested m a)
  | .run t _ => inferInstanceAs (Decidable (∀ c ∈ m.next t, c.access ≠ .hasOutstandingOps))
  | .begin _ _ => .isTrue trivial
  | .finish _ => .isTrue trivial

theorem Untested.foundLast {m : Machine} {a : Action} (h : Untested m a) : FoundLast m a := by
  cases a with
  | run t x => exact fun s hnext _ => absurd rfl (h _ hnext)
  | begin t e => trivial
  | finish t => trivial

theorem object_lifetime_lastSend :
    ∃ m, Via (system oneReceive).step FoundLast (idle oneReceive 2) m ∧
      m.next 1 = some ⟨1, .hasOutstandingOps⟩ ∧ (m.shared.obj 1).OutstandingOps = 0 ∧
      FreesRight m (.run 1 true) := by
  have hexec : ∃ m, Via (system oneReceive).step Untested (idle oneReceive 2) m ∧
      m.next 1 = some ⟨1, .hasOutstandingOps⟩ ∧ (m.shared.obj 1).OutstandingOps = 0 ∧
      (m.shared.obj 1).issued = (m.shared.obj 1).counted ∧ m.threads.length = 2 ∧
      m.event 0 = none := exists_via_of_execIf lastSend (by decide +kernel)
  obtain ⟨m, hrun, hnext, hops, hcounted, hlength, hmain⟩ := hexec
  have hlast : Via (system oneReceive).step FoundLast (idle oneReceive 2) m :=
    hrun.mono fun _ _ h => h.foundLast
  refine ⟨m, hlast, hnext, hops, (object_lifetime hlast _).2.mpr ?_⟩
  rintro s hs -
  cases hnext.symm.trans hs
  refine ⟨hcounted, fun u hu hw => ?_⟩
  obtain ⟨p, hp, -⟩ := hw
  obtain ⟨o, ho, hq⟩ := Option.bind_eq_some_iff.mp hp
  obtain ⟨q, rfl, -⟩ := Option.map_eq_some_iff.mp hq
  have hlt := (List.getElem?_eq_some_iff.mp ho).1
  obtain rfl : u = 0 := by omega
  rw [Machine.event, ho] at hmain
  cases hmain

/-- Thread `2` frees the object: a send is in flight on it, a receive has not been counted, and
thread `1` is posting on it. -/
theorem not_object_lifetime :
    ∃ m, Reachable oneReceive 3 m ∧ m.next 2 = some ⟨1, .HeapFree⟩ ∧
      ⟨1, .opWrite, 0, 1⟩ ∈ m.shared.flight ∧
      (m.shared.obj 1).issued ≠ (m.shared.obj 1).counted ∧
      m.next 1 = some ⟨1, .InterlockedIncrement⟩ ∧ ¬ FreesRight m (.run 2 true) := by
  have hexec : ∃ m, Reachable oneReceive 3 m ∧ m.next 2 = some ⟨1, .HeapFree⟩ ∧
      ⟨1, .opWrite, 0, 1⟩ ∈ m.shared.flight ∧
      (m.shared.obj 1).issued ≠ (m.shared.obj 1).counted ∧
      m.next 1 = some ⟨1, .InterlockedIncrement⟩ :=
    exists_via_of_execIf uncountedReceive (by decide +kernel)
  obtain ⟨m, hrun, hfree, hflight, hcounted, hnext⟩ := hexec
  refine ⟨m, hrun, hfree, hflight, hcounted, hnext, fun hright => ?_⟩
  exact (hright 1 (.inl hfree)).idle _ hflight rfl

end CppWorkspace.OrderedServer.Threads
