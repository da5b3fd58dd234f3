/-
# `CppWorkspace.IocpSocket` — the server of `IOCP_Socket.cpp`

`main` accepts clients, `ServerWorkThread` runs in any number of workers and receives from
them, and `ServerSendThread` sends each line typed at the console to all of `clientGroup`.

    accept, push, post     the steps of `main` for one client
    complete               `GetQueuedCompletionStatus` returns in a worker
    work                   the next step of a worker that handles a completion
    send                   the next step of `ServerSendThread`

A client is named by its number; it has one `PER_HANDLE_DATA`, which its entry of
`clientGroup` and its completions point to, and one `PER_IO_DATA`.  `GlobalAlloc` and
`CreateIoCompletionPort` succeed.

`clientGroup` is a vector without a lock.  `array` names the memory that its elements are
in: `push_back` may move them (`moved`), and frees the old one.  `clientGroup[i]` reads
the address of the array, and then the element; what is read from an array that was freed
is no entry (`none`).

`gone`, `closes`, `handleFrees` and `ioFrees` are not in the source: whether the receive
of the client has ended without data or could not be posted, and how often its socket was
closed and its two objects were freed.
-/
import Mathlib.Algebra.Order.Group.Multiset
import CppWorkspace.Lib.Ledgers
import CppWorkspace.Lib.Programs

namespace CppWorkspace.IocpSocket

open Ledgers Runs

/-- What has become of a client. -/
structure Client where
  gone : Bool
  closes : Nat
  handleFrees : Nat
  ioFrees : Nat
deriving DecidableEq, Repr

/-- Where `main` is: before `accept`, `push_back` and `WSARecv`; it returns if `accept`
fails. -/
inductive MainPc where
  | accept
  | push (c : Nat)
  | post (c : Nat)
  | returned
deriving DecidableEq, Repr

/-- Where a worker is: before `GetQueuedCompletionStatus`; with data, before it waits for
`hMutex`, before it releases it, and before `WSARecv`; without data, before `closesocket`
and before each `GlobalFree`. -/
inductive WorkerPc where
  | wait
  | data (c : Nat)
  | talk (c : Nat)
  | recv (c : Nat)
  | close (c : Nat)
  | freeHandle (c : Nat)
  | freeIo (c : Nat)
  | returned
deriving DecidableEq, Repr

/-- Where `ServerSendThread` is: before `gets`, before it waits for `hMutex`, before
`clientGroup.size()`; and in its loop with `i` and `isize`, before it reads the address of
the array, the element, and the `socket` that the element points to. -/
inductive SendPc where
  | gets
  | lock
  | size
  | load (i isize : Nat)
  | entry (i isize array : Nat)
  | socket (i isize : Nat) (entry : Option Nat)
deriving DecidableEq, Repr

/-- How a receive ends: `failed` is the completion with which
`GetQueuedCompletionStatus` returns `0`. -/
inductive Completion where
  | data
  | zero
  | failed
deriving DecidableEq, Repr

/-- The list of clients, the threads, and the pointers that they hold. -/
structure Server where
  next : Nat
  clients : Nat → Client
  clientGroup : List Nat
  array : Nat
  flight : List Nat
  hMutex : Bool
  main : MainPc
  workers : List WorkerPc
  sender : SendPc

/-- `n` workers. -/
def start (n : Nat) : Server where
  next := 0
  clients _ := ⟨false, 0, 0, 0⟩
  clientGroup := []
  array := 0
  flight := []
  hMutex := false
  main := .accept
  workers := List.replicate n .wait
  sender := .gets

namespace Server

def set (σ : Server) (c : Nat) (x : Client) : Server :=
  { σ with clients := Function.update σ.clients c x }

def setWorker (σ : Server) (t : Nat) (pc : WorkerPc) : Server :=
  { σ with workers := σ.workers.set t pc }

/-- The client is gone. -/
def lose (σ : Server) (c : Nat) : Server := σ.set c { σ.clients c with gone := true }

def closesocket (σ : Server) (c : Nat) : Server :=
  σ.set c { σ.clients c with closes := (σ.clients c).closes + 1 }

/-- `GlobalFree(PerHandleData)`. -/
def freeHandle (σ : Server) (c : Nat) : Server :=
  σ.set c { σ.clients c with handleFrees := (σ.clients c).handleFrees + 1 }

/-- `GlobalFree(PerIoData)`. -/
def freeIo (σ : Server) (c : Nat) : Server :=
  σ.set c { σ.clients c with ioFrees := (σ.clients c).ioFrees + 1 }

/-- Its result is not looked at: a receive that is rejected is in flight nowhere. -/
def WSARecv (σ : Server) (c : Nat) (ok : Bool) : Server :=
  if ok then { σ with flight := c :: σ.flight } else σ.lose c

def push_back (σ : Server) (c : Nat) (moved : Bool) : Server :=
  { σ with
    clientGroup := σ.clientGroup ++ [c]
    array := if moved then σ.array + 1 else σ.array }

end Server

/-- A step of one of the threads; `ok` says that its call succeeds. -/
inductive Action where
  | accept (ok : Bool)
  | push (moved : Bool)
  | post (ok : Bool)
  | complete (t c : Nat) (r : Completion)
  | work (t : Nat) (ok : Bool)
  | send
deriving DecidableEq, Repr

def main (σ : Server) : Action → Option Server
  | .accept ok =>
      match σ.main with
      | .accept =>
          if ok then some { σ with next := σ.next + 1, main := .push σ.next }
          else some { σ with main := .returned }
      | _ => none
  | .push moved =>
      match σ.main with
      | .push c => some { σ.push_back c moved with main := .post c }
      | _ => none
  | .post ok =>
      match σ.main with
      | .post c => some { σ.WSARecv c ok with main := .accept }
      | _ => none
  | _ => none

/-- A worker returns if the completion has failed. -/
def GetQueuedCompletionStatus (σ : Server) (t c : Nat) (r : Completion) : Option Server :=
  if σ.workers[t]? = some .wait ∧ c ∈ σ.flight then
    let σ := { σ with flight := σ.flight.erase c }
    match r with
    | .data => some (σ.setWorker t (.data c))
    | .zero => some ((σ.lose c).setWorker t (.close c))
    | .failed => some ((σ.lose c).setWorker t .returned)
  else none

def ServerWorkThread (σ : Server) (t : Nat) (ok : Bool) : Option Server := do
  match ← σ.workers[t]? with
  | .data c => if σ.hMutex then none else some { σ.setWorker t (.talk c) with hMutex := true }
  | .talk c => some { σ.setWorker t (.recv c) with hMutex := false }
  | .recv c => some ((σ.WSARecv c ok).setWorker t .wait)
  | .close c => some ((σ.closesocket c).setWorker t (.freeHandle c))
  | .freeHandle c => some ((σ.freeHandle c).setWorker t (.freeIo c))
  | .freeIo c => some ((σ.freeIo c).setWorker t .wait)
  | .wait => none
  | .returned => none

def ServerSendThread (σ : Server) : Option Server :=
  match σ.sender with
  | .gets => some { σ with sender := .lock }
  | .lock => if σ.hMutex then none else some { σ with hMutex := true, sender := .size }
  | .size => some { σ with sender := .load 0 σ.clientGroup.length }
  | .load i isize =>
      if i < isize then some { σ with sender := .entry i isize σ.array }
      else some { σ with hMutex := false, sender := .gets }
  | .entry i isize array =>
      some { σ with
        sender := .socket i isize (if array = σ.array then σ.clientGroup[i]? else none) }
  | .socket i isize _ => some { σ with sender := .load (i + 1) isize }

def step (σ : Server) : Action → Option Server
  | .complete t c r => GetQueuedCompletionStatus σ t c r
  | .work t ok => ServerWorkThread σ t ok
  | .send => ServerSendThread σ
  | a => main σ a

/-- The client whose end a worker is handling. -/
def WorkerPc.ending : WorkerPc → Option Nat
  | .close c => some c
  | .freeHandle c => some c
  | .freeIo c => some c
  | _ => none

/-- The end of a client is handled, and nothing else happens. -/
structure Contained (σ : Server) : Prop where
  live : ∀ i isize e, σ.sender = .socket i isize e →
    ∃ c, e = some c ∧ (σ.clients c).handleFrees = 0
  once : ∀ c, (σ.clients c).handleFrees ≤ 1 ∧ (σ.clients c).ioFrees ≤ 1
  gone : ∀ c, 0 < (σ.clients c).handleFrees ∨ 0 < (σ.clients c).ioFrees →
    (σ.clients c).gone = true
  released : ∀ c, (σ.clients c).gone = true → (∀ pc ∈ σ.workers, pc.ending ≠ some c) →
    (σ.clients c).handleFrees = 1 ∧ (σ.clients c).ioFrees = 1
  running : ∀ pc ∈ σ.workers, pc ≠ .returned

/-- `ServerSendThread` will still read the entry of `c` in the loop it is in. -/
def SendPc.Ahead (c : Nat) : SendPc → Prop
  | .load i isize => i ≤ c ∧ c < isize
  | .entry i isize _ => i ≤ c ∧ c < isize
  | .socket i isize _ => i ≤ c ∧ c < isize
  | _ => False

instance (c : Nat) : (pc : SendPc) → Decidable (pc.Ahead c)
  | .load i isize => inferInstanceAs (Decidable (i ≤ c ∧ c < isize))
  | .entry i isize _ => inferInstanceAs (Decidable (i ≤ c ∧ c < isize))
  | .socket i isize _ => inferInstanceAs (Decidable (i ≤ c ∧ c < isize))
  | .gets => inferInstanceAs (Decidable False)
  | .lock => inferInstanceAs (Decidable False)
  | .size => inferInstanceAs (Decidable False)

/-- `ServerSendThread` is between the address of the array and the element. -/
def SendPc.indexing : SendPc → Bool
  | .entry .. => true
  | _ => false

/-- What the next step of a worker must not meet. -/
def WorkerPc.Orderly (sender : SendPc) (ok : Bool) : WorkerPc → Prop
  | .recv _ => ok = true
  | .freeHandle c => ¬ sender.Ahead c
  | _ => True

instance (sender : SendPc) (ok : Bool) : (pc : WorkerPc) → Decidable (pc.Orderly sender ok)
  | .recv _ => inferInstanceAs (Decidable (ok = true))
  | .freeHandle c => inferInstanceAs (Decidable (¬ sender.Ahead c))
  | .wait => inferInstanceAs (Decidable True)
  | .data _ => inferInstanceAs (Decidable True)
  | .talk _ => inferInstanceAs (Decidable True)
  | .close _ => inferInstanceAs (Decidable True)
  | .freeIo _ => inferInstanceAs (Decidable True)
  | .returned => inferInstanceAs (Decidable True)

/-- No completion fails and no receive is rejected; the vector is not moved while an entry
is read; no client that is still to be sent to is freed, and nothing is sent once a
client was freed. -/
def Orderly (σ : Server) : Action → Prop
  | .accept _ => True
  | .push moved => moved = true → σ.sender.indexing = false
  | .post ok => ok = true
  | .complete _ _ r => r ≠ .failed
  | .work t ok => ∀ pc ∈ σ.workers[t]?, pc.Orderly σ.sender ok
  | .send => σ.sender = .size → ∀ c ∈ σ.clientGroup, (σ.clients c).handleFrees = 0

instance (σ : Server) : (a : Action) → Decidable (Orderly σ a)
  | .accept _ => inferInstanceAs (Decidable True)
  | .push moved => inferInstanceAs (Decidable (moved = true → σ.sender.indexing = false))
  | .post ok => inferInstanceAs (Decidable (ok = true))
  | .complete _ _ r => inferInstanceAs (Decidable (r ≠ .failed))
  | .work _ ok => inferInstanceAs (Decidable (∀ pc ∈ _, WorkerPc.Orderly σ.sender ok pc))
  | .send => inferInstanceAs (Decidable (_ → ∀ c ∈ σ.clientGroup, _ = 0))

/-! ## The invariant -/

/-- The values of a client, from its connection on. -/
abbrev connected : Client := ⟨false, 0, 0, 0⟩
abbrev left : Client := ⟨true, 0, 0, 0⟩
abbrev closed : Client := ⟨true, 1, 0, 0⟩
abbrev freed : Client := ⟨true, 1, 1, 0⟩
abbrev released : Client := ⟨true, 1, 1, 1⟩

/-- The client that `main` has at hand. -/
def MainPc.holds : MainPc → Multiset (Entry Client)
  | .push c => {(c, (· = connected))}
  | .post c => {(c, (· = connected))}
  | _ => 0

/-- The client that a worker has at hand. -/
def WorkerPc.holds : WorkerPc → Multiset (Entry Client)
  | .data c => {(c, (· = connected))}
  | .talk c => {(c, (· = connected))}
  | .recv c => {(c, (· = connected))}
  | .close c => {(c, (· = left))}
  | .freeHandle c => {(c, (· = closed))}
  | .freeIo c => {(c, (· = freed))}
  | _ => 0

/-- A client with a receive in flight. -/
def receiving (c : Nat) : Entry Client := (c, (· = connected))

/-- Where the clients are. -/
def Server.held (σ : Server) : Multiset (Entry Client) :=
  σ.main.holds + (σ.flight : Multiset Nat).map receiving +
    (σ.workers.map WorkerPc.holds).sum

/-- How many clients are in `clientGroup`. -/
def Server.pushed (σ : Server) : Nat :=
  match σ.main with
  | .push c => c
  | _ => σ.next

/-- None of the entries that `ServerSendThread` will read is freed, and it has not missed a
move of the array. -/
def Sending (σ : Server) : Prop :=
  match σ.sender with
  | .load i isize => isize ≤ σ.clientGroup.length ∧
      ∀ c, i ≤ c → c < isize → (σ.clients c).handleFrees = 0
  | .entry i isize array => isize ≤ σ.clientGroup.length ∧ i < isize ∧ array = σ.array ∧
      ∀ c, i ≤ c → c < isize → (σ.clients c).handleFrees = 0
  | .socket i isize e => isize ≤ σ.clientGroup.length ∧ i < isize ∧ e = some i ∧
      ∀ c, i ≤ c → c < isize → (σ.clients c).handleFrees = 0
  | _ => True

/-- Each connected client is known to one holder, and a freed one to none. -/
structure Inv (σ : Server) : Prop where
  ledger : Ledger connected (· = released) σ.held σ.clients σ.next
  group : σ.clientGroup = List.range σ.pushed
  push : ∀ c, σ.main = .push c → c + 1 = σ.next
  running : ∀ pc ∈ σ.workers, pc ≠ .returned
  sending : Sending σ

theorem WorkerPc.holds_cases {pc : WorkerPc} {c : Nat} {P : Client → Prop} {x : Client}
    (h : (c, P) ∈ pc.holds) (hx : P x) :
    (x = connected ∨ x = left ∨ x = closed ∨ x = freed) ∧
      (x.gone = true → pc.ending = some c) := by
  cases pc with
  | wait => exact absurd h (Multiset.notMem_zero _)
  | returned => exact absurd h (Multiset.notMem_zero _)
  | data d => cases Multiset.mem_singleton.mp h; cases hx; exact ⟨.inl rfl, nofun⟩
  | talk d => cases Multiset.mem_singleton.mp h; cases hx; exact ⟨.inl rfl, nofun⟩
  | recv d => cases Multiset.mem_singleton.mp h; cases hx; exact ⟨.inl rfl, nofun⟩
  | close d =>
      cases Multiset.mem_singleton.mp h
      cases hx
      exact ⟨.inr (.inl rfl), fun _ => rfl⟩
  | freeHandle d =>
      cases Multiset.mem_singleton.mp h
      cases hx
      exact ⟨.inr (.inr (.inl rfl)), fun _ => rfl⟩
  | freeIo d =>
      cases Multiset.mem_singleton.mp h
      cases hx
      exact ⟨.inr (.inr (.inr rfl)), fun _ => rfl⟩

theorem MainPc.holds_cases {pc : MainPc} {c : Nat} {P : Client → Prop} {x : Client}
    (h : (c, P) ∈ pc.holds) (hx : P x) : x = connected := by
  cases pc with
  | accept => exact absurd h (Multiset.notMem_zero _)
  | returned => exact absurd h (Multiset.notMem_zero _)
  | push d => cases Multiset.mem_singleton.mp h; exact hx
  | post d => cases Multiset.mem_singleton.mp h; exact hx

/-- `ServerSendThread` does not notice what happens to clients that it has passed. -/
theorem Sending.mono {σ σ' : Server} (h : Sending σ) (hsender : σ'.sender = σ.sender)
    (harray : σ.sender.indexing = true → σ'.array = σ.array)
    (hgroup : σ.clientGroup.length ≤ σ'.clientGroup.length)
    (hfrees : ∀ c, σ.sender.Ahead c →
      (σ'.clients c).handleFrees = (σ.clients c).handleFrees) : Sending σ' := by
  unfold Sending at h ⊢
  rw [hsender]
  cases hpc : σ.sender with
  | gets => trivial
  | lock => trivial
  | size => trivial
  | load i isize =>
      rw [hpc] at h hfrees
      exact ⟨Nat.le_trans h.1 hgroup, fun c hi hc => (hfrees c ⟨hi, hc⟩).trans (h.2 c hi hc)⟩
  | entry i isize array =>
      rw [hpc] at h hfrees harray
      obtain ⟨hsize, hlt, rfl, hlive⟩ := h
      exact ⟨Nat.le_trans hsize hgroup, hlt, (harray rfl).symm,
        fun c hi hc => (hfrees c ⟨hi, hc⟩).trans (hlive c hi hc)⟩
  | socket i isize e =>
      rw [hpc] at h hfrees
      obtain ⟨hsize, hlt, he, hlive⟩ := h
      exact ⟨Nat.le_trans hsize hgroup, hlt, he,
        fun c hi hc => (hfrees c ⟨hi, hc⟩).trans (hlive c hi hc)⟩

namespace Inv

variable {σ σ' : Server} {c t : Nat} {x y : Client} {p q : WorkerPc}

/-- A client is in one of its stages; at its end a worker is at work on it. -/
theorem client (h : Inv σ) (c : Nat) :
    σ.clients c = released ∨
      ((σ.clients c = connected ∨ σ.clients c = left ∨ σ.clients c = closed ∨
          σ.clients c = freed) ∧
        ((σ.clients c).gone = true → ∃ pc ∈ σ.workers, pc.ending = some c)) := by
  rcases h.ledger.cases c with ⟨P, hmem, hP⟩ | ⟨hdone, -⟩ | ⟨-, hfresh⟩
  · rw [Server.held, Multiset.mem_add, Multiset.mem_add] at hmem
    rcases hmem with (hmain | hflight) | hworkers
    · rw [MainPc.holds_cases hmain hP]
      exact .inr ⟨.inl rfl, nofun⟩
    · obtain ⟨d, -, he⟩ := Multiset.mem_map.mp hflight
      cases he
      rw [hP]
      exact .inr ⟨.inl rfl, nofun⟩
    · obtain ⟨m, hm, hmem⟩ := mem_sum hworkers
      obtain ⟨pc, hpc, rfl⟩ := List.mem_map.mp hm
      obtain ⟨hcases, hending⟩ := WorkerPc.holds_cases hmem hP
      exact .inr ⟨hcases, fun hgone => ⟨pc, hpc, hending hgone⟩⟩
  · exact .inl hdone
  · rw [hfresh]
    exact .inr ⟨.inl rfl, nofun⟩

theorem toContained (h : Inv σ) : Contained σ where
  live i isize e he := by
    have hsending := h.sending
    rw [Sending, he] at hsending
    obtain ⟨-, hi, rfl, hfrees⟩ := hsending
    exact ⟨i, rfl, hfrees i (Nat.le_refl i) hi⟩
  once c := by
    rcases h.client c with he | ⟨he | he | he | he, -⟩ <;> rw [he] <;> decide
  gone c hfrees := by
    rcases h.client c with he | ⟨he | he | he | he, -⟩
    · rw [he]
    · rw [he] at hfrees
      exact absurd hfrees (by decide)
    · rw [he]
    · rw [he]
    · rw [he]
  released c hgone hnone := by
    rcases h.client c with he | ⟨-, hending⟩
    · rw [he]
      exact ⟨rfl, rfl⟩
    · obtain ⟨pc, hpc, hc⟩ := hending hgone
      exact absurd hc (hnone pc hpc)
  running := h.running

theorem split (ht : σ.workers[t]? = some p) : ∃ F, σ.held = p.holds + F ∧
    ∀ q, (σ.setWorker t q).held = q.holds + F := by
  have hget : (σ.workers.map WorkerPc.holds)[t]? = some p.holds := by
    rw [List.getElem?_map, ht]
    rfl
  obtain ⟨F, hsum, hset⟩ := Programs.sum_split hget
  refine ⟨σ.main.holds + (σ.flight : Multiset Nat).map receiving + F, ?_, fun q => ?_⟩
  · rw [Server.held, hsum, add_left_comm]
  · rw [Server.held, Server.setWorker]
    dsimp only
    rw [List.map_set, hset, add_left_comm]

theorem running_set (h : Inv σ) (hpc : p ≠ .returned) :
    ∀ q ∈ σ.workers.set t p, q ≠ .returned := by
  intro q hmem
  rcases List.mem_or_eq_of_mem_set hmem with hmem | rfl
  · exact h.running q hmem
  · exact hpc

theorem work (h : Inv σ) (ht : σ.workers[t]? = some p) (hpc : p.holds = {(c, (· = x))})
    (hpc' : q.holds = {(c, (· = y))}) (hne : q ≠ .returned)
    (hfrees : σ.sender.Ahead c → y.handleFrees = x.handleFrees) (b : Bool) :
    Inv { (σ.set c y).setWorker t q with hMutex := b } := by
  obtain ⟨F, hheld, hset⟩ := split ht
  have hledger := h.ledger
  rw [hheld, hpc, Multiset.singleton_add] at hledger
  refine ⟨?_, h.group, h.push, h.running_set hne, ?_⟩
  · have hheld' : { (σ.set c y).setWorker t q with hMutex := b }.held = (c, (· = y)) ::ₘ F := by
      refine (hset q).trans ?_
      rw [hpc', Multiset.singleton_add]
    rw [hheld']
    exact hledger.change rfl
  · refine h.sending.mono rfl (fun _ => rfl) (Nat.le_refl _) fun d hd => ?_
    by_cases hdc : d = c
    · subst hdc
      have hx : σ.clients d = x := hledger.know
      refine (congrArg Client.handleFrees (Function.update_self ..)).trans ?_
      rw [hx]
      exact hfrees hd
    · exact congrArg Client.handleFrees (Function.update_of_ne hdc ..)

theorem set_self (h : Inv σ) (ht : σ.workers[t]? = some p) (hpc : p.holds = {(c, (· = x))}) :
    σ.clients c = x ∧ σ.set c x = σ := by
  obtain ⟨F, hheld, -⟩ := split ht
  have hledger := h.ledger
  rw [hheld, hpc, Multiset.singleton_add] at hledger
  have hx : σ.clients c = x := hledger.know
  refine ⟨hx, ?_⟩
  rw [Server.set, ← hx, Function.update_eq_self]

/-- A receive that completes leaves the flight, and a worker takes the client. -/
theorem complete (h : Inv σ) (ht : σ.workers[t]? = some .wait) (hc : c ∈ σ.flight)
    (hpc : p.holds = {(c, (· = y))}) (hne : p ≠ .returned) (hy : y.handleFrees = 0) :
    Inv (({ σ with flight := σ.flight.erase c }.set c y).setWorker t p) := by
  obtain ⟨F, hheld, hset⟩ := split (σ := { σ with flight := σ.flight.erase c }) ht
  have hflight : σ.held = receiving c ::ₘ F := by
    have hcons : (σ.flight : Multiset Nat) = c ::ₘ (σ.flight.erase c : Multiset Nat) := by
      rw [Multiset.cons_coe]
      exact Multiset.coe_eq_coe.mpr (List.perm_cons_erase hc)
    rw [Server.held] at hheld ⊢
    rw [hcons, Multiset.map_cons, Multiset.add_cons, Multiset.cons_add, hheld]
    exact congrArg _ (zero_add F)
  have hledger := h.ledger
  rw [hflight] at hledger
  have hx : σ.clients c = connected := hledger.know
  refine ⟨?_, h.group, h.push, h.running_set hne, ?_⟩
  · have hheld' : (({ σ with flight := σ.flight.erase c }.set c y).setWorker t p).held =
        (c, (· = y)) ::ₘ F := by
      refine (hset p).trans ?_
      rw [hpc, Multiset.singleton_add]
    rw [hheld']
    exact hledger.change rfl
  · refine h.sending.mono rfl (fun _ => rfl) (Nat.le_refl _) fun d _ => ?_
    by_cases hdc : d = c
    · subst hdc
      refine (congrArg Client.handleFrees (Function.update_self ..)).trans ?_
      rw [hx]
      exact hy
    · exact congrArg Client.handleFrees (Function.update_of_ne hdc ..)

theorem recv (h : Inv σ) (ht : σ.workers[t]? = some (.recv c)) :
    Inv ((σ.WSARecv c true).setWorker t .wait) := by
  obtain ⟨F, hheld, hset⟩ := split ht
  have hheld' : ((σ.WSARecv c true).setWorker t .wait).held = σ.held := by
    rw [hheld]
    have hsetF := hset .wait
    rw [Server.held] at hsetF ⊢
    change _ + Multiset.map receiving ((c :: σ.flight : List Nat) : Multiset Nat) + _ = _
    rw [← Multiset.cons_coe, Multiset.map_cons, Multiset.add_cons, Multiset.cons_add]
    exact (congrArg _ hsetF).trans (congrArg _ (zero_add F))
  exact ⟨hheld' ▸ h.ledger, h.group, h.push, h.running_set nofun, h.sending⟩

theorem finish (h : Inv σ) (ht : σ.workers[t]? = some (.freeIo c)) :
    Inv ((σ.freeIo c).setWorker t .wait) := by
  obtain ⟨F, hheld, hset⟩ := split ht
  have hledger := h.ledger
  rw [hheld] at hledger
  have hx : σ.clients c = freed := hledger.know
  have hreleased : { σ.clients c with ioFrees := (σ.clients c).ioFrees + 1 } = released := by
    rw [hx]
  unfold Server.freeIo
  rw [hreleased]
  refine ⟨?_, h.group, h.push, h.running_set nofun, ?_⟩
  · have hheld' : ((σ.set c released).setWorker t .wait).held = F := (hset .wait).trans (zero_add F)
    rw [hheld']
    exact hledger.release rfl
  · refine h.sending.mono rfl (fun _ => rfl) (Nat.le_refl _) fun d _ => ?_
    by_cases hdc : d = c
    · subst hdc
      refine (congrArg Client.handleFrees (Function.update_self ..)).trans ?_
      rw [hx]
    · exact congrArg Client.handleFrees (Function.update_of_ne hdc ..)

theorem main {a : Action} (h : Inv σ) (ha : Orderly σ a)
    (hstep : IocpSocket.main σ a = some σ') : Inv σ' := by
  cases a with
  | accept ok =>
      simp only [IocpSocket.main] at hstep
      split at hstep
      · rename_i hpc
        have hledger := h.ledger
        have hgroup := h.group
        rw [Server.held, hpc] at hledger
        rw [Server.pushed, hpc] at hgroup
        cases ok with
        | true =>
            cases hstep
            refine ⟨?_, hgroup, fun c hc => ?_, h.running, h.sending⟩
            · have hmake := hledger.make (P := (· = connected)) rfl
              simp only [MainPc.holds, zero_add] at hmake
              simp only [Server.held, MainPc.holds, Multiset.singleton_add, Multiset.cons_add]
              exact hmake
            · cases hc
              rfl
        | false =>
            cases hstep
            exact ⟨hledger, hgroup, (fun d hd => by cases hd), h.running, h.sending⟩
      · cases hstep
  | push moved =>
      simp only [IocpSocket.main] at hstep
      split at hstep
      · rename_i c hpc
        cases hstep
        have hledger := h.ledger
        have hgroup := h.group
        have hc := h.push c hpc
        rw [Server.held, hpc] at hledger
        rw [Server.pushed, hpc] at hgroup
        refine ⟨hledger, ?_, (fun d hd => by cases hd), h.running, ?_⟩
        · change σ.clientGroup ++ [c] = List.range σ.next
          rw [hgroup, ← hc, List.range_succ]
        · refine h.sending.mono rfl (fun hindexing => ?_) ?_ fun _ _ => rfl
          · cases moved with
            | true => exact absurd (ha rfl) (by rw [hindexing]; decide)
            | false => rfl
          · simp [Server.push_back]
      · cases hstep
  | post ok =>
      obtain rfl : ok = true := ha
      simp only [IocpSocket.main] at hstep
      split at hstep
      · rename_i c hpc
        cases hstep
        have hledger := h.ledger
        have hgroup := h.group
        rw [Server.held, hpc] at hledger
        rw [Server.pushed, hpc] at hgroup
        refine ⟨?_, hgroup, (fun d hd => by cases hd), h.running, h.sending⟩
        have hheld : { σ.WSARecv c true with main := .accept }.held =
            MainPc.holds (.post c) + (σ.flight : Multiset Nat).map receiving +
              (σ.workers.map WorkerPc.holds).sum := by
          change 0 + Multiset.map receiving ((c :: σ.flight : List Nat) : Multiset Nat) + _ = _
          rw [← Multiset.cons_coe, Multiset.map_cons, zero_add, MainPc.holds,
            Multiset.singleton_add]
          rfl
        rw [hheld]
        exact hledger
      · cases hstep
  | complete t c r => cases hstep
  | work t ok => cases hstep
  | send => cases hstep

theorem worker {ok : Bool} (h : Inv σ) (ha : Orderly σ (.work t ok))
    (hstep : ServerWorkThread σ t ok = some σ') : Inv σ' := by
  obtain ⟨pc, ht, hstep⟩ := Option.bind_eq_some_iff.mp hstep
  have horderly : pc.Orderly σ.sender ok := ha pc ht
  cases pc with
  | wait => cases hstep
  | returned => cases hstep
  | data c =>
      dsimp only at hstep
      split at hstep
      · cases hstep
      · cases hstep
        have hwork := h.work (q := .talk c) ht rfl rfl nofun (fun _ => rfl) true
        rwa [(h.set_self ht rfl).2] at hwork
  | talk c =>
      cases hstep
      have hwork := h.work (q := .recv c) ht rfl rfl nofun (fun _ => rfl) false
      rwa [(h.set_self ht rfl).2] at hwork
  | recv c =>
      cases hstep
      obtain rfl : ok = true := horderly
      exact h.recv ht
  | close c =>
      cases hstep
      have hwork := h.work (q := .freeHandle c) ht rfl rfl nofun (fun _ => rfl) σ.hMutex
      have hx : { σ.clients c with closes := (σ.clients c).closes + 1 } = closed := by
        rw [(h.set_self ht rfl).1]
      unfold Server.closesocket
      rw [hx]
      exact hwork
  | freeHandle c =>
      cases hstep
      have hwork := h.work (q := .freeIo c) ht rfl rfl nofun
        (fun hahead => absurd hahead horderly) σ.hMutex
      have hx : { σ.clients c with handleFrees := (σ.clients c).handleFrees + 1 } = freed := by
        rw [(h.set_self ht rfl).1]
      unfold Server.freeHandle
      rw [hx]
      exact hwork
  | freeIo c =>
      cases hstep
      exact h.finish ht

theorem status {r : Completion} (h : Inv σ) (hr : r ≠ .failed)
    (hstep : GetQueuedCompletionStatus σ t c r = some σ') : Inv σ' := by
  obtain ⟨⟨ht, hc⟩, hstep⟩ := Option.ite_none_right_eq_some.mp hstep
  have hx : σ.clients c = connected := by
    refine h.ledger.entries (receiving c) ?_
    rw [Server.held]
    refine Multiset.mem_add.mpr (.inl (Multiset.mem_add.mpr (.inr ?_)))
    exact Multiset.mem_map_of_mem _ hc
  cases r with
  | data =>
      cases hstep
      have hcomplete := h.complete (p := .data c) ht hc rfl nofun rfl
      have hset : { σ with flight := σ.flight.erase c }.set c connected =
          { σ with flight := σ.flight.erase c } := by
        rw [Server.set, ← hx, Function.update_eq_self]
      rwa [hset] at hcomplete
  | zero =>
      cases hstep
      have hcomplete := h.complete (p := .close c) ht hc rfl nofun rfl
      have hleft : { σ.clients c with gone := true } = left := by rw [hx]
      unfold Server.lose
      rw [hleft]
      exact hcomplete
  | failed => exact absurd rfl hr

theorem sender (h : Inv σ) (ha : Orderly σ .send) (hstep : ServerSendThread σ = some σ') :
    Inv σ' := by
  have hsending := h.sending
  have hkeep : ∀ pc b, Sending { σ with sender := pc, hMutex := b } →
      Inv { σ with sender := pc, hMutex := b } :=
    fun pc b hpc => ⟨h.ledger, h.group, h.push, h.running, hpc⟩
  unfold ServerSendThread at hstep
  unfold Sending at hsending
  cases hpc : σ.sender with
  | gets =>
      rw [hpc] at hstep
      cases hstep
      exact hkeep _ _ trivial
  | lock =>
      rw [hpc] at hstep
      dsimp only at hstep
      split at hstep
      · cases hstep
      · cases hstep
        exact hkeep .size true trivial
  | size =>
      rw [hpc] at hstep
      cases hstep
      refine hkeep _ _ ⟨Nat.le_refl _, fun c _ hc => ha hpc c ?_⟩
      rw [h.group]
      rw [h.group, List.length_range] at hc
      exact List.mem_range.mpr hc
  | load i isize =>
      rw [hpc] at hstep hsending
      dsimp only at hstep
      split at hstep
      · rename_i hi
        cases hstep
        exact hkeep _ _ ⟨hsending.1, hi, rfl, hsending.2⟩
      · cases hstep
        exact hkeep .gets false trivial
  | entry i isize array =>
      rw [hpc] at hstep hsending
      cases hstep
      obtain ⟨hsize, hi, rfl, hlive⟩ := hsending
      refine hkeep _ _ ⟨hsize, hi, ?_, hlive⟩
      rw [if_pos rfl, h.group]
      rw [h.group, List.length_range] at hsize
      rw [List.getElem?_range (Nat.lt_of_lt_of_le hi hsize)]
  | socket i isize e =>
      rw [hpc] at hstep hsending
      cases hstep
      obtain ⟨hsize, -, -, hlive⟩ := hsending
      exact hkeep _ _ ⟨hsize, fun c hi hc => hlive c (Nat.le_of_succ_le hi) hc⟩

theorem step {a : Action} (h : Inv σ) (ha : Orderly σ a)
    (hstep : IocpSocket.step σ a = some σ') : Inv σ' := by
  cases a with
  | accept ok => exact h.main ha hstep
  | push moved => exact h.main ha hstep
  | post ok => exact h.main ha hstep
  | complete t c r => exact h.status ha hstep
  | work t ok => exact h.worker ha hstep
  | send => exact h.sender ha hstep

end Inv

theorem inv_start (n : Nat) : Inv (start n) := by
  have hheld : (start n).held = 0 := by
    have hsum : ((List.replicate n WorkerPc.wait).map WorkerPc.holds).sum = 0 := by
      have hwait : WorkerPc.wait.holds = 0 := rfl
      rw [List.map_replicate, hwait, List.sum_replicate, nsmul_zero]
    rw [Server.held, start, hsum]
    rfl
  refine ⟨?_, rfl, nofun, fun pc hpc => ?_, trivial⟩
  · rw [hheld]
    exact Ledger.start
  · rw [List.eq_of_mem_replicate hpc]
    exact nofun

/-- A client comes. -/
def connect : List Action := [.accept true, .push true, .post true]

end CppWorkspace.IocpSocket
