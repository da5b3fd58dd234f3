/-
# `CppWorkspace.CompletionPortServer` — the server of the completion port model

`ConnThread` accepts a connection, gives it a `PER_IO_OP_DATA` and posts its first
receive.  From then on there is one operation of the connection at a time: the worker that
has its completion posts the next one, a send after a receive and a receive after a send,
or it closes the connection, frees the data and takes it out of `TotalClient`.

    accept       a pass of the loop of `ConnThread`, thread `0`
    completion   a pass of the loop of `WorkerThread`, any other thread, for an operation
                 that has completed (`bResult` and `dwTransferred` are arbitrary)

The passes are programs over the commands of `Cmd`; one command is atomic, and the
commands of the threads come in any order.  A post that is accepted puts the operation in
`flight`, so its completion may begin before the posting thread has gone on; one that is
rejected puts nothing there.  `closesocket` succeeds.  `GetQueuedCompletionStatus` fails
without an operation only on a timeout, which changes nothing.

A connection is named by its number.  `closes`, `frees` and `posted` are not in the source:
how often its socket was closed and its data freed, and the operations that were posted.
What the messages and `GetData` do with the buffer is left out, but not that they use it.
-/
import Mathlib.Algebra.Group.Prod
import Mathlib.Algebra.Order.Group.Multiset
import Mathlib.Data.Finset.Card
import CppWorkspace.Lib.Ledgers
import CppWorkspace.Lib.Programs
import Mathlib.Algebra.Ring.Nat
import Mathlib.Algebra.Ring.Int.Defs

namespace CppWorkspace.CompletionPortServer

open Ledgers Programs Runs

/-- What an operation was posted as. -/
inductive PostType where
  | OP_RECV
  | OP_SEND
  | OP_EXIT
deriving DecidableEq, Repr

/-- The call that has posted an operation. -/
inductive Call where
  | WSARecv
  | WSASend
deriving DecidableEq, Repr

/-- A connection, with its socket and its `PER_IO_OP_DATA`. -/
structure Conn where
  associated : Bool
  allocated : Bool
  dwOpType : PostType
  closes : Nat
  frees : Nat
  posted : List Call
deriving DecidableEq, Repr

/-- An operation in flight on connection `c`. -/
structure Op where
  c : Nat
  call : Call
deriving DecidableEq, Repr

/-- The connections, and what is in flight. -/
structure Server where
  next : Nat
  conn : Nat → Conn
  flight : List Op
  TotalClient : Int

/-- As `accept` leaves a connection; `GPTR` allocates zeroed memory. -/
def accepted : Conn := ⟨false, false, .OP_RECV, 0, 0, []⟩

def start : Server := ⟨0, fun _ => accepted, [], 0⟩

/-- `Buffer` and `Overlapped` are accesses to these fields of the data of `c`, and
`setOpType` is the assignment to its `dwOpType`. -/
inductive Cmd where
  | CreateIoCompletionPort (c : Nat)
  | GlobalAlloc (c : Nat)
  | Buffer (c : Nat)
  | Overlapped (c : Nat)
  | dwOpType (c : Nat)
  | setOpType (c : Nat) (op : PostType)
  | InterlockedIncrement
  | InterlockedDecrement
  | WSARecv (c : Nat)
  | WSASend (c : Nat)
  | closesocket (c : Nat)
  | GlobalFree (c : Nat)
deriving DecidableEq, Repr

/-- What a command replies: `true` stands for success. -/
abbrev Cmd.Reply : Cmd → Type
  | .CreateIoCompletionPort _ => Bool
  | .GlobalAlloc _ => Bool
  | .dwOpType _ => PostType
  | .WSARecv _ => Bool
  | .WSASend _ => Bool
  | _ => Unit

abbrev Program (α : Type) := Prog Cmd Cmd.Reply α

abbrev perform (c : Cmd) : Program c.Reply := Prog.perform c

/-- An operation has failed, or was not accepted. -/
def closeAndFree (c : Nat) : Program Bool := do
  perform (.closesocket c)
  perform (.GlobalFree c)
  perform .InterlockedDecrement
  return true

/-- Nothing was transferred. -/
def freeAndClose (c : Nat) : Program Bool := do
  perform (.GlobalFree c)
  perform (.closesocket c)
  perform .InterlockedDecrement
  return true

/-- After `accept`; the result of this and of the next program says whether the thread goes
on with its loop. -/
def ConnThread (c : Nat) : Program Bool := do
  if ← perform (.CreateIoCompletionPort c) then
    if ← perform (.GlobalAlloc c) then
      perform (.setOpType c .OP_SEND)
      perform (.Buffer c)
      perform .InterlockedIncrement
      if ← perform (.WSARecv c) then return true else closeAndFree c
    else
      perform (.closesocket c)
      return true
  else
    perform (.closesocket c)
    return true

/-- The `switch`: the next operation is posted. -/
def postNext (c : Nat) (dwOpType : PostType) : Program Bool := do
  match dwOpType with
  | .OP_SEND =>
      perform (.Buffer c)
      perform (.Overlapped c)
      perform (.Buffer c)
      perform (.setOpType c .OP_RECV)
      if ← perform (.WSASend c) then return true else closeAndFree c
  | .OP_RECV =>
      perform (.Buffer c)
      perform (.Overlapped c)
      perform (.setOpType c .OP_SEND)
      if ← perform (.WSARecv c) then return true else closeAndFree c
  | .OP_EXIT => return true

/-- After the test for a closed connection. -/
def operationCompleted (c : Nat) : Program Bool := do
  if (← perform (.dwOpType c)) = .OP_EXIT then
    perform (.closesocket c)
    perform (.GlobalFree c)
    perform .InterlockedDecrement
    return false
  else
    postNext c (← perform (.dwOpType c))

/-- After `GetQueuedCompletionStatus`. -/
def WorkerThread (c : Nat) (bResult : Bool) (dwTransferred : Nat) : Program Bool := do
  if bResult = false then
    closeAndFree c
  else if dwTransferred = 0 then
    if (← perform (.dwOpType c)) ≠ .OP_EXIT then freeAndClose c else operationCompleted c
  else
    operationCompleted c

/-- What the threads wait for. -/
inductive Event where
  | accept (c : Nat)
  | completion (op : Op) (bResult : Bool) (dwTransferred : Nat)
deriving DecidableEq, Repr

namespace Server

def set (σ : Server) (c : Nat) (x : Conn) : Server :=
  { σ with conn := Function.update σ.conn c x }

/-- An operation is accepted. -/
def post (σ : Server) (c : Nat) (call : Call) : Server :=
  { σ.set c { σ.conn c with posted := (σ.conn c).posted ++ [call] } with
    flight := ⟨c, call⟩ :: σ.flight }

end Server

/-- What a command does; `ok` is chosen for those that may fail. -/
def exec (_ : Nat) (_ : Event) : (cmd : Cmd) → Server → Bool → Option (Server × cmd.Reply)
  | .CreateIoCompletionPort c, σ, ok => some (σ.set c { σ.conn c with associated := ok }, ok)
  | .GlobalAlloc c, σ, ok => some (σ.set c { σ.conn c with allocated := ok }, ok)
  | .Buffer _, σ, _ => some (σ, ())
  | .Overlapped _, σ, _ => some (σ, ())
  | .dwOpType c, σ, _ => some (σ, (σ.conn c).dwOpType)
  | .setOpType c op, σ, _ => some (σ.set c { σ.conn c with dwOpType := op }, ())
  | .InterlockedIncrement, σ, _ => some ({ σ with TotalClient := σ.TotalClient + 1 }, ())
  | .InterlockedDecrement, σ, _ => some ({ σ with TotalClient := σ.TotalClient - 1 }, ())
  | .WSARecv c, σ, ok => some (if ok then σ.post c .WSARecv else σ, ok)
  | .WSASend c, σ, ok => some (if ok then σ.post c .WSASend else σ, ok)
  | .closesocket c, σ, _ => some (σ.set c { σ.conn c with closes := (σ.conn c).closes + 1 }, ())
  | .GlobalFree c, σ, _ => some (σ.set c { σ.conn c with frees := (σ.conn c).frees + 1 }, ())

def spawn (t : Nat) (e : Event) (σ : Server) : Option (Server × Program Bool) :=
  match e with
  | .accept c =>
      if t = 0 ∧ c = σ.next then some ({ σ with next := σ.next + 1 }, ConnThread c) else none
  | .completion op bResult dwTransferred =>
      if t ≠ 0 ∧ op ∈ σ.flight then
        some ({ σ with flight := σ.flight.erase op }, WorkerThread op.c bResult dwTransferred)
      else none

def system : System Server Cmd Cmd.Reply Bool Event Bool where
  exec := exec
  spawn := spawn

abbrev Machine := Programs.Machine Server Cmd Cmd.Reply Event Bool

abbrev Action := Act Bool Event

/-- All threads idle. -/
def idle (threads : Nat) : Machine := ⟨start, List.replicate threads none⟩

/-- A state that some run of the server reaches. -/
def Reachable (threads : Nat) (m : Machine) : Prop :=
  Via system.step (fun _ _ => True) (idle threads) m

/-! ## The life cycle of a connection -/

/-- The connection that an event is about. -/
def Event.c : Event → Nat
  | .accept c => c
  | .completion op _ _ => op.c

/-- The socket that a command uses. -/
def Cmd.socket : Cmd → Option Nat
  | .CreateIoCompletionPort c => some c
  | .WSARecv c => some c
  | .WSASend c => some c
  | .closesocket c => some c
  | _ => none

/-- The data that a command uses. -/
def Cmd.data : Cmd → Option Nat
  | .Buffer c => some c
  | .Overlapped c => some c
  | .dwOpType c => some c
  | .setOpType c _ => some c
  | .WSARecv c => some c
  | .WSASend c => some c
  | .GlobalFree c => some c
  | _ => none

/-- Thread `t` is inside a pass about the connection `c`, and has not ended it. -/
def Handles (m : Machine) (t c : Nat) : Prop :=
  (∃ e, m.event t = some e ∧ e.c = c) ∧ m.next t ≠ none

/-- The operations in flight on `c`. -/
def Server.inFlight (σ : Server) (c : Nat) : Nat := σ.flight.countP fun op => op.c = c

/-- The calls alternate, and the first one is a receive. -/
def Alternates (posted : List Call) : Prop :=
  ∀ i call, posted[i]? = some call → call = if i % 2 = 0 then .WSARecv else .WSASend

/-- What holds of each connection in every state. -/
structure LifeCycle (m : Machine) : Prop where
  /-- One operation is in flight, or one thread handles the connection, or it is closed. -/
  one : ∀ c < m.shared.next,
    ((m.shared.conn c).closes = 0 ∧ m.shared.inFlight c = 1 ∧ ∀ t, ¬ Handles m t c) ∨
    ((m.shared.conn c).closes = 0 ∧ m.shared.inFlight c = 0 ∧ ∃! t, Handles m t c) ∨
    ((m.shared.conn c).closes = 1 ∧ m.shared.inFlight c = 0)
  alternate : ∀ c, Alternates (m.shared.conn c).posted
  once : ∀ c, (m.shared.conn c).closes ≤ 1 ∧ (m.shared.conn c).frees ≤ 1
  freed : ∀ c, (m.shared.conn c).closes = 1 → (m.shared.conn c).allocated = true →
    (∀ t, ¬ Handles m t c) → (m.shared.conn c).frees = 1
  /-- What was closed or freed is not used any more, by a thread or by an operation. -/
  socket : ∀ t cmd c, m.next t = some cmd → cmd.socket = some c → (m.shared.conn c).closes = 0
  data : ∀ t cmd c, m.next t = some cmd → cmd.data = some c → (m.shared.conn c).frees = 0
  flight : ∀ op ∈ m.shared.flight,
    (m.shared.conn op.c).closes = 0 ∧ (m.shared.conn op.c).frees = 0
  total : m.Quiescent → m.shared.TotalClient =
    ((Finset.range m.shared.next).filter fun c => (m.shared.conn c).closes = 0).card

/-! ## The invariant -/

/-- A connection whose socket is open and whose data is allocated. -/
structure Usable (x : Conn) : Prop where
  allocated : x.allocated = true
  closes : x.closes = 0
  frees : x.frees = 0
  alternates : Alternates x.posted

/-- `dwOpType` tells which call comes next. -/
structure Ready (x : Conn) : Prop extends Usable x where
  next : x.dwOpType = if x.posted.length % 2 = 0 then .OP_RECV else .OP_SEND

/-- A connection that is closed, and its data freed. -/
structure Done (x : Conn) : Prop where
  closes : x.closes = 1
  frees : x.frees = if x.allocated then 1 else 0
  alternates : Alternates x.posted

/-- A thread knows its connection. -/
def own (p : Nat × Conn) : Entry Conn := (p.1, (· = p.2))

def flying (op : Op) : Entry Conn := (op.c, Ready)

/-- Each connection is in flight or with a thread until it is done, and is counted in
`TotalClient` while it is in flight; `R.2` is what the threads have counted. -/
structure Counted (σ : Server) (R : Multiset (Nat × Conn) × Int) : Prop where
  ledger : Ledger accepted Done (R.1.map own + (σ.flight : Multiset Op).map flying) σ.conn σ.next
  total : σ.TotalClient = σ.flight.length + R.2

/-- What a command may be used on. -/
structure Cmd.Allowed (cmd : Cmd) (c : Nat) (x : Conn) : Prop where
  socket : ∀ d, cmd.socket = some d → d = c ∧ x.closes = 0
  data : ∀ d, cmd.data = some d → d = c ∧ x.frees = 0
  alternates : Alternates x.posted
  closes : x.closes ≤ 1
  frees : x.frees ≤ 1

def lifeCycle : Logic Server Cmd Cmd.Reply Bool Event Bool (Multiset (Nat × Conn) × Int) where
  toSystem := system
  Inv := Counted
  Pre _ e cmd _ r := ∃ x, r.1 = {(e.c, x)} ∧ cmd.Allowed e.c x
  ok _ _ _ _ _ _ := True

section
variable {t c : Nat} {e : Event} {x : Conn} {k : Int} {cmd : Cmd}

theorem does_set {f : Bool → Conn → Conn} {v : Bool → cmd.Reply} (hc : e.c = c)
    (hexec : ∀ σ ok, exec t e cmd σ ok = some (σ.set c (f ok (σ.conn c)), v ok))
    (hallowed : cmd.Allowed c x) :
    Does lifeCycle t e cmd ({(c, x)}, k) fun w r => ∃ ok, w = v ok ∧ r = ({(c, f ok x)}, k) := by
  intro σ F hinv
  refine ⟨⟨x, by rw [hc], hc ▸ hallowed⟩, fun ok σ' w _ hrun => ?_⟩
  have hledger : Ledger accepted Done
      ((({(c, x)} + F.1).map own) + (σ.flight : Multiset Op).map flying) σ.conn σ.next :=
    hinv.ledger
  rw [Multiset.singleton_add, Multiset.map_cons, Multiset.cons_add] at hledger
  cases (hexec σ ok).symm.trans hrun
  refine ⟨({(c, f ok x)}, k), ⟨?_, hinv.total⟩, ok, rfl, rfl⟩
  have hx : σ.conn c = x := hledger.know
  change Ledger accepted Done
    ((({(c, f ok x)} + F.1).map own) + (σ.flight : Multiset Op).map flying)
    (Function.update σ.conn c (f ok (σ.conn c))) σ.next
  rw [Multiset.singleton_add, Multiset.map_cons, Multiset.cons_add, hx]
  exact hledger.change rfl

/-- A command that uses the connection at hand and leaves it as it is. -/
theorem does_use {v : Server → cmd.Reply} {P : cmd.Reply → Prop} (hc : e.c = c)
    (hexec : ∀ σ ok, exec t e cmd σ ok = some (σ, v σ)) (hP : ∀ σ, σ.conn c = x → P (v σ))
    (hallowed : cmd.Allowed c x) :
    Does lifeCycle t e cmd ({(c, x)}, k) fun w r => P w ∧ r = ({(c, x)}, k) := by
  intro σ F hinv
  refine ⟨⟨x, by rw [hc], hc ▸ hallowed⟩, fun ok σ' w _ hrun => ?_⟩
  have hx : σ.conn c = x := by
    refine hinv.ledger.entries (own (c, x)) ?_
    exact Multiset.mem_add.mpr (.inl (Multiset.mem_map_of_mem own
      (Multiset.mem_add.mpr (.inl (Multiset.mem_singleton_self _)))))
  cases (hexec σ ok).symm.trans hrun
  exact ⟨_, hinv, hP σ hx, rfl⟩

theorem does_count {n : Int} {v : cmd.Reply} (hc : e.c = c)
    (hexec : ∀ σ ok, exec t e cmd σ ok = some ({ σ with TotalClient := σ.TotalClient + n }, v))
    (hallowed : cmd.Allowed c x) :
    Does lifeCycle t e cmd ({(c, x)}, k) fun _ r => r = ({(c, x)}, k + n) := by
  intro σ F hinv
  refine ⟨⟨x, by rw [hc], hc ▸ hallowed⟩, fun ok σ' w _ hrun => ?_⟩
  cases (hexec σ ok).symm.trans hrun
  refine ⟨({(c, x)}, k + n), ⟨hinv.ledger, ?_⟩, rfl⟩
  have htotal : σ.TotalClient = σ.flight.length + (k + F.2) := hinv.total
  change σ.TotalClient + n = σ.flight.length + (k + n + F.2)
  omega

/-- An operation is posted, and then the connection is given away. -/
theorem does_post {call : Call} {v : Bool → cmd.Reply} (hc : e.c = c)
    (hexec : ∀ σ ok, exec t e cmd σ ok = some (if ok then σ.post c call else σ, v ok))
    (hready : Ready { x with posted := x.posted ++ [call] }) (hallowed : cmd.Allowed c x) :
    Does lifeCycle t e cmd ({(c, x)}, 1) fun w r =>
      ∃ ok, w = v ok ∧ r = if ok then 0 else ({(c, x)}, 1) := by
  intro σ F hinv
  refine ⟨⟨x, by rw [hc], hc ▸ hallowed⟩, fun ok σ' w _ hrun => ?_⟩
  cases (hexec σ ok).symm.trans hrun
  cases ok with
  | false => exact ⟨({(c, x)}, 1), hinv, false, rfl, rfl⟩
  | true =>
      have hledger : Ledger accepted Done
          ((({(c, x)} + F.1).map own) + (σ.flight : Multiset Op).map flying) σ.conn σ.next :=
        hinv.ledger
      rw [Multiset.singleton_add, Multiset.map_cons, Multiset.cons_add] at hledger
      have hx : σ.conn c = x := hledger.know
      refine ⟨0, ⟨?_, ?_⟩, true, rfl, rfl⟩
      · change Ledger accepted Done
          ((0 + F.1).map own + ((⟨c, call⟩ :: σ.flight : List Op) : Multiset Op).map flying)
          (Function.update σ.conn c { σ.conn c with posted := (σ.conn c).posted ++ [call] }) σ.next
        rw [zero_add, ← Multiset.cons_coe, Multiset.map_cons, Multiset.add_cons, hx]
        exact hledger.change hready
      · have htotal : σ.TotalClient = σ.flight.length + (1 + F.2) := hinv.total
        change σ.TotalClient = ((⟨c, call⟩ :: σ.flight : List Op).length : Int) + (0 + F.2)
        rw [List.length_cons]
        push_cast
        omega

/-! ## The programs -/

/-- At the end of a pass the connection was given away, or it is done. -/
def Ends (c : Nat) (_ : Bool) (r : Multiset (Nat × Conn) × Int) : Prop :=
  r = 0 ∨ ∃ y, Done y ∧ r = ({(c, y)}, 0)

theorem Usable.allowed (h : Usable x) (hsocket : ∀ d, cmd.socket = some d → d = c)
    (hdata : ∀ d, cmd.data = some d → d = c) : cmd.Allowed c x where
  socket d hd := ⟨hsocket d hd, h.closes⟩
  data d hd := ⟨hdata d hd, h.frees⟩
  alternates := h.alternates
  closes := by rw [h.closes]; exact Nat.zero_le 1
  frees := by rw [h.frees]; exact Nat.zero_le 1

theorem Usable.done (h : Usable x) :
    Done { x with closes := x.closes + 1, frees := x.frees + 1 } where
  closes := by rw [h.closes]
  frees := by rw [h.frees, h.allocated]; rfl
  alternates := h.alternates

theorem Done.uncount (h : Done x) : Cmd.InterlockedDecrement.Allowed c x where
  socket := nofun
  data := nofun
  alternates := h.alternates
  closes := Nat.le_of_eq h.closes
  frees := by
    rw [h.frees]
    split <;> decide

theorem wp_uncount (hc : e.c = c) (h : Done x) :
    wp lifeCycle t e (do perform .InterlockedDecrement; return true) (Ends c) ({(c, x)}, 1) := by
  refine wp_call (does_count (n := -1) hc (fun σ _ => rfl) h.uncount) ?_
  rintro _ _ rfl
  exact wp_ret (.inr ⟨x, h, rfl⟩)

theorem wp_closeAndFree (hc : e.c = c) (h : Usable x) :
    wp lifeCycle t e (closeAndFree c) (Ends c) ({(c, x)}, 1) := by
  refine wp_call (does_set (f := fun _ x => { x with closes := x.closes + 1 }) hc
    (fun _ _ => rfl) (h.allowed (by simp [Cmd.socket]) nofun)) ?_
  rintro _ _ ⟨_, -, rfl⟩
  refine wp_call (does_set (f := fun _ x => { x with frees := x.frees + 1 }) hc
    (fun _ _ => rfl) ?_) ?_
  · exact ⟨nofun, fun d hd => ⟨(Option.some.inj hd).symm, h.frees⟩, h.alternates,
      Nat.le_of_eq h.done.closes, by rw [h.frees]; exact Nat.zero_le 1⟩
  · rintro _ _ ⟨_, -, rfl⟩
    exact wp_uncount hc h.done

theorem wp_freeAndClose (hc : e.c = c) (h : Usable x) :
    wp lifeCycle t e (freeAndClose c) (Ends c) ({(c, x)}, 1) := by
  refine wp_call (does_set (f := fun _ x => { x with frees := x.frees + 1 }) hc
    (fun _ _ => rfl) (h.allowed nofun (by simp [Cmd.data]))) ?_
  rintro _ _ ⟨_, -, rfl⟩
  refine wp_call (does_set (f := fun _ x => { x with closes := x.closes + 1 }) hc
    (fun _ _ => rfl) ?_) ?_
  · exact ⟨fun d hd => ⟨(Option.some.inj hd).symm, h.closes⟩, nofun, h.alternates,
      by rw [h.closes]; exact Nat.zero_le 1, by rw [h.frees]⟩
  · rintro _ _ ⟨_, -, rfl⟩
    exact wp_uncount hc h.done

theorem wp_post (cmd : Cmd) (call : Call) (hc : e.c = c) (h : Usable x) {v : Bool → cmd.Reply}
    {next : cmd.Reply → Program Bool}
    (hexec : ∀ σ ok, exec t e cmd σ ok = some (if ok then σ.post c call else σ, v ok))
    (hready : Ready { x with posted := x.posted ++ [call] })
    (hsocket : ∀ d, cmd.socket = some d → d = c) (hdata : ∀ d, cmd.data = some d → d = c)
    (hnext : ∀ ok, next (v ok) = if ok then return true else closeAndFree c) :
    wp lifeCycle t e (perform cmd >>= next) (Ends c) ({(c, x)}, 1) := by
  refine wp_call (does_post hc hexec hready (h.allowed hsocket hdata)) ?_
  rintro _ _ ⟨ok, rfl, rfl⟩
  rw [hnext]
  cases ok with
  | true => exact wp_ret (.inl rfl)
  | false => exact wp_closeAndFree hc h

theorem alternates_append {l : List Call} {call : Call} (h : Alternates l)
    (hcall : call = if l.length % 2 = 0 then .WSARecv else .WSASend) :
    Alternates (l ++ [call]) := by
  intro i d hd
  rcases Nat.lt_or_ge i l.length with hi | hi
  · rw [List.getElem?_append_left hi] at hd
    exact h i d hd
  · rw [List.getElem?_append_right hi] at hd
    have hzero : i - l.length = 0 := by
      have hlt := (List.getElem?_eq_some_iff.mp hd).1
      rw [List.length_singleton] at hlt
      omega
    rw [hzero] at hd
    cases hd
    rw [hcall, show i = l.length by omega]

theorem Usable.posted {call : Call} (h : Usable x)
    (hcall : call = if x.posted.length % 2 = 0 then .WSARecv else .WSASend)
    (hop : x.dwOpType = if x.posted.length % 2 = 0 then .OP_SEND else .OP_RECV) :
    Ready { x with posted := x.posted ++ [call] } where
  allocated := h.allocated
  closes := h.closes
  frees := h.frees
  alternates := alternates_append h.alternates hcall
  next := by
    dsimp only
    rw [hop, List.length_append, List.length_singleton]
    by_cases heven : x.posted.length % 2 = 0
    · rw [if_pos heven, if_neg (by omega)]
    · rw [if_neg heven, if_pos (by omega)]

theorem wp_block {cmd : Program Unit} {p : Program Bool}
    {Q : Bool → Multiset (Nat × Conn) × Int → Prop}
    (hcmd : cmd = perform (.Buffer c) ∨ cmd = perform (.Overlapped c)) (hc : e.c = c)
    (h : Usable x) (hp : wp lifeCycle t e p Q ({(c, x)}, k)) :
    wp lifeCycle t e (do cmd; p) Q ({(c, x)}, k) := by
  rcases hcmd with rfl | rfl
  all_goals
    refine wp_call (does_use (P := fun _ => True) hc (v := fun _ => ()) (fun _ _ => rfl)
      (fun _ _ => trivial) (h.allowed nofun (by simp [Cmd.data]))) ?_
    rintro _ _ ⟨-, rfl⟩
    exact hp

theorem wp_setOpType {op : PostType} {p : Program Bool}
    {Q : Bool → Multiset (Nat × Conn) × Int → Prop} (hc : e.c = c) (h : Usable x)
    (hp : wp lifeCycle t e p Q ({(c, { x with dwOpType := op })}, k)) :
    wp lifeCycle t e (do perform (.setOpType c op); p) Q ({(c, x)}, k) := by
  refine wp_call (does_set (f := fun _ x => { x with dwOpType := op }) hc (fun _ _ => rfl)
    (h.allowed nofun (by simp [Cmd.data]))) ?_
  rintro _ _ ⟨_, -, rfl⟩
  exact hp

theorem wp_dwOpType {f : PostType → Program Bool} {Q : Bool → Multiset (Nat × Conn) × Int → Prop}
    (hc : e.c = c) (h : Usable x) (hp : wp lifeCycle t e (f x.dwOpType) Q ({(c, x)}, k)) :
    wp lifeCycle t e (do f (← perform (.dwOpType c))) Q ({(c, x)}, k) := by
  refine wp_call (does_use (P := fun w => w = x.dwOpType) hc
    (v := fun σ => (σ.conn c).dwOpType) (fun _ _ => rfl)
    (fun σ hx => congrArg Conn.dwOpType hx) (h.allowed nofun (by simp [Cmd.data]))) ?_
  rintro _ _ ⟨rfl, rfl⟩
  exact hp

theorem wp_postNext (hc : e.c = c) (h : Ready x) :
    wp lifeCycle t e (postNext c x.dwOpType) (Ends c) ({(c, x)}, 1) := by
  have husable := h.toUsable
  rw [h.next]
  by_cases heven : x.posted.length % 2 = 0
  · rw [if_pos heven]
    refine wp_block (.inl rfl) hc husable (wp_block (.inr rfl) hc husable
      (wp_setOpType hc husable ?_))
    have hset : Usable { x with dwOpType := .OP_SEND } :=
      ⟨husable.allocated, husable.closes, husable.frees, husable.alternates⟩
    refine wp_post (.WSARecv c) .WSARecv (v := id) hc hset (fun _ ok => by cases ok <;> rfl)
      (hset.posted (by rw [if_pos heven]) (by rw [if_pos heven])) ?_ ?_ ?_
    · simp [Cmd.socket]
    · simp [Cmd.data]
    · intro ok
      cases ok <;> rfl
  · rw [if_neg heven]
    refine wp_block (.inl rfl) hc husable (wp_block (.inr rfl) hc husable
      (wp_block (.inl rfl) hc husable (wp_setOpType hc husable ?_)))
    have hset : Usable { x with dwOpType := .OP_RECV } :=
      ⟨husable.allocated, husable.closes, husable.frees, husable.alternates⟩
    refine wp_post (.WSASend c) .WSASend (v := id) hc hset (fun _ ok => by cases ok <;> rfl)
      (hset.posted (by rw [if_neg heven]) (by rw [if_neg heven])) ?_ ?_ ?_
    · simp [Cmd.socket]
    · simp [Cmd.data]
    · intro ok
      cases ok <;> rfl

theorem Ready.ne_exit (h : Ready x) : x.dwOpType ≠ .OP_EXIT := by
  rw [h.next]
  split <;> decide

theorem wp_operationCompleted (hc : e.c = c) (h : Ready x) :
    wp lifeCycle t e (operationCompleted c) (Ends c) ({(c, x)}, 1) := by
  refine wp_dwOpType hc h.toUsable ?_
  rw [if_neg h.ne_exit]
  exact wp_dwOpType hc h.toUsable (wp_postNext hc h)

theorem wp_workerThread {bResult : Bool} {dwTransferred : Nat} (hc : e.c = c) (h : Ready x) :
    wp lifeCycle t e (WorkerThread c bResult dwTransferred) (Ends c) ({(c, x)}, 1) := by
  unfold WorkerThread
  split
  · exact wp_closeAndFree hc h.toUsable
  · split
    · refine wp_dwOpType hc h.toUsable ?_
      rw [if_pos h.ne_exit]
      exact wp_freeAndClose hc h.toUsable
    · exact wp_operationCompleted hc h

theorem wp_close (hc : e.c = c) (halternates : Alternates x.posted) (hcloses : x.closes = 0)
    (hfrees : x.frees = 0) (hallocated : x.allocated = false) :
    wp lifeCycle t e (do perform (.closesocket c); return true) (Ends c) ({(c, x)}, 0) := by
  refine wp_call (does_set (f := fun _ x => { x with closes := x.closes + 1 }) hc
    (fun _ _ => rfl) ?_) ?_
  · exact ⟨fun d hd => ⟨(Option.some.inj hd).symm, hcloses⟩, nofun, halternates,
      by rw [hcloses]; exact Nat.zero_le 1, by rw [hfrees]; exact Nat.zero_le 1⟩
  · rintro _ _ ⟨_, -, rfl⟩
    refine wp_ret (.inr ⟨{ x with closes := x.closes + 1 }, ⟨?_, ?_, halternates⟩, rfl⟩)
    · dsimp only
      rw [hcloses]
    · dsimp only
      rw [hfrees, hallocated]
      rfl

theorem wp_connThread (hc : e.c = c) :
    wp lifeCycle t e (ConnThread c) (Ends c) ({(c, accepted)}, 0) := by
  have hnone : Alternates [] := nofun
  refine wp_call (does_set (f := fun ok x => { x with associated := ok }) (v := id) hc
    (fun _ _ => rfl) ?_) ?_
  · exact ⟨fun d hd => ⟨(Option.some.inj hd).symm, rfl⟩, nofun, hnone, Nat.zero_le 1,
      Nat.zero_le 1⟩
  rintro ok _ ⟨_, rfl, rfl⟩
  cases ok with
  | false => exact wp_close hc hnone rfl rfl rfl
  | true =>
      refine wp_call (does_set (f := fun ok x => { x with allocated := ok }) (v := id) hc
        (fun _ _ => rfl) ⟨nofun, nofun, hnone, Nat.zero_le 1, Nat.zero_le 1⟩) ?_
      rintro ok _ ⟨_, rfl, rfl⟩
      cases ok with
      | false => exact wp_close hc hnone rfl rfl rfl
      | true =>
          have hset : Usable ⟨true, true, .OP_RECV, 0, 0, []⟩ := ⟨rfl, rfl, rfl, hnone⟩
          have husable : Usable ⟨true, true, .OP_SEND, 0, 0, []⟩ := ⟨rfl, rfl, rfl, hnone⟩
          refine wp_setOpType hc hset (wp_block (.inl rfl) hc husable ?_)
          refine wp_call (does_count (n := 1) hc (fun _ _ => rfl)
            (husable.allowed nofun nofun)) ?_
          rintro _ _ rfl
          refine wp_post (.WSARecv c) .WSARecv (v := id) hc husable
            (fun _ ok => by cases ok <;> rfl) (husable.posted rfl rfl) ?_ ?_ ?_
          · simp [Cmd.socket]
          · simp [Cmd.data]
          · intro ok
            cases ok <;> rfl

end

/-! ## Runs -/

theorem Counted.drop {σ : Server} {c : Nat} {y : Conn} {F : Multiset (Nat × Conn) × Int}
    (hy : Done y) (h : Counted σ (({(c, y)}, 0) + F)) : Counted σ (0 + F) := by
  have hledger : Ledger accepted Done
      ((({(c, y)} + F.1).map own) + (σ.flight : Multiset Op).map flying) σ.conn σ.next := h.ledger
  rw [Multiset.singleton_add, Multiset.map_cons, Multiset.cons_add] at hledger
  have hc : σ.conn c = y := hledger.know
  refine ⟨?_, h.total⟩
  have hrelease := hledger.release hy
  rw [← hc, Function.update_eq_self] at hrelease
  change Ledger accepted Done ((0 + F.1).map own + _) _ _
  rwa [zero_add]

theorem wp_ends {t c : Nat} {e : Event} {p : Program Bool} {r : Multiset (Nat × Conn) × Int}
    (h : wp lifeCycle t e p (Ends c) r) (hp : p.next ≠ none) :
    wp lifeCycle t e p (fun _ r' => r' = 0) r := by
  refine wp_drop h ?_ hp
  rintro _ r' (rfl | ⟨y, hy, rfl⟩)
  · exact ⟨0, rfl, fun _ _ hinv => hinv⟩
  · exact ⟨0, rfl, fun _ _ hinv => Counted.drop hy hinv⟩

theorem workerThread_next {c n : Nat} {b : Bool} : (WorkerThread c b n).next ≠ none := by
  unfold WorkerThread
  split
  · exact nofun
  · split
    · exact nofun
    · exact nofun

theorem spawn_counted {t : Nat} {e : Event} {σ σ' : Server} {p : Program Bool}
    {F : Multiset (Nat × Conn) × Int} (hinv : Counted σ F) (hspawn : spawn t e σ = some (σ', p)) :
    ∃ r, Counted σ' (r + F) ∧ wp lifeCycle t e p (fun _ r' => r' = 0) r := by
  cases e with
  | accept c =>
      obtain ⟨⟨-, rfl⟩, hsome⟩ := Option.ite_none_right_eq_some.mp hspawn
      cases hsome
      refine ⟨({(σ.next, accepted)}, 0), ⟨?_, ?_⟩, wp_ends (wp_connThread rfl) nofun⟩
      · change Ledger accepted Done
          (({(σ.next, accepted)} + F.1).map own + (σ.flight : Multiset Op).map flying) σ.conn
          (σ.next + 1)
        rw [Multiset.singleton_add, Multiset.map_cons, Multiset.cons_add]
        exact hinv.ledger.make rfl
      · change σ.TotalClient = σ.flight.length + (0 + F.2)
        rw [zero_add]
        exact hinv.total
  | completion op bResult dwTransferred =>
      obtain ⟨⟨-, hop⟩, hsome⟩ := Option.ite_none_right_eq_some.mp hspawn
      cases hsome
      have hcons : (σ.flight : Multiset Op) = op ::ₘ (σ.flight.erase op : Multiset Op) := by
        rw [Multiset.cons_coe]
        exact Multiset.coe_eq_coe.mpr (List.perm_cons_erase hop)
      have hledger := hinv.ledger
      rw [hcons, Multiset.map_cons, Multiset.add_cons] at hledger
      have hready : Ready (σ.conn op.c) := hledger.know
      refine ⟨({(op.c, σ.conn op.c)}, 1), ⟨?_, ?_⟩,
        wp_ends (wp_workerThread rfl hready) workerThread_next⟩
      · change Ledger accepted Done (({(op.c, σ.conn op.c)} + F.1).map own +
          ((σ.flight.erase op : List Op) : Multiset Op).map flying) σ.conn σ.next
        rw [Multiset.singleton_add, Multiset.map_cons, Multiset.cons_add]
        exact hledger.reword rfl
      · have hlength : σ.flight.length = (σ.flight.erase op).length + 1 :=
          (List.perm_cons_erase hop).length_eq
        have htotal := hinv.total
        change σ.TotalClient = ((σ.flight.erase op).length : Int) + (1 + F.2)
        rw [hlength] at htotal
        push_cast at htotal
        omega

theorem counted_start : Counted start 0 := ⟨Ledger.start, rfl⟩

theorem good_run {threads : Nat} {m : Machine} (h : Reachable threads m) :
    ∃ rs, lifeCycle.Good m rs :=
  Logic.run (L := lifeCycle) (fun _ _ _ _ _ _ _ _ _ _ => trivial)
    (fun _ _ _ _ _ _ _ hinv hspawn => spawn_counted hinv hspawn)
    ⟨_, lifeCycle.good_start counted_start⟩ h

section
variable {m : Machine} {rs : List (Multiset (Nat × Conn) × Int)} {t c : Nat} {x : Conn}

/-- The connections that threads know, and those in flight, are all different. -/
theorem Counted.nodup {σ : Server} {R : Multiset (Nat × Conn) × Int} (h : Counted σ R) :
    (R.1.map Prod.fst + (σ.flight : Multiset Op).map Op.c).Nodup := by
  have hnodup := h.ledger.nodup
  rwa [Multiset.map_add, Multiset.map_map, Multiset.map_map] at hnodup

theorem Counted.conn {σ : Server} {R : Multiset (Nat × Conn) × Int} (h : Counted σ R)
    (hx : (c, x) ∈ R.1) : σ.conn c = x :=
  h.ledger.entries (own (c, x))
    (Multiset.mem_add.mpr (.inl (Multiset.mem_map_of_mem own hx)))

theorem Counted.ready {σ : Server} {R : Multiset (Nat × Conn) × Int} (h : Counted σ R) {op : Op}
    (hop : op ∈ σ.flight) : Ready (σ.conn op.c) :=
  h.ledger.entries (flying op)
    (Multiset.mem_add.mpr (.inr (Multiset.mem_map_of_mem flying (Multiset.mem_coe.mpr hop))))

theorem Counted.cases {σ : Server} {R : Multiset (Nat × Conn) × Int} (h : Counted σ R) (c : Nat) :
    (∃ x, (c, x) ∈ R.1) ∨ (∃ op ∈ σ.flight, op.c = c) ∨
      (Done (σ.conn c) ∧ c ∉ σ.flight.map Op.c) ∨ (σ.next ≤ c ∧ σ.conn c = accepted) := by
  rcases h.ledger.cases c with ⟨P, hmem, -⟩ | ⟨hdone, hnot⟩ | hfresh
  · rcases Multiset.mem_add.mp hmem with hown | hflying
    · obtain ⟨⟨d, x⟩, hx, he⟩ := Multiset.mem_map.mp hown
      obtain rfl : d = c := congrArg Prod.fst he
      exact .inl ⟨x, hx⟩
    · obtain ⟨op, hop, he⟩ := Multiset.mem_map.mp hflying
      exact .inr (.inl ⟨op, hop, congrArg Prod.fst he⟩)
  · refine .inr (.inr (.inl ⟨hdone, fun hmem => hnot ?_⟩))
    obtain ⟨op, hop, rfl⟩ := List.mem_map.mp hmem
    rw [Multiset.map_add]
    exact Multiset.mem_add.mpr (.inr (Multiset.mem_map.mpr
      ⟨flying op, Multiset.mem_map_of_mem flying (Multiset.mem_coe.mpr hop), rfl⟩))
  · exact .inr (.inr (.inr hfresh))

theorem inFlight_eq {σ : Server} :
    σ.inFlight c = Multiset.count c ((σ.flight : Multiset Op).map Op.c) := by
  rw [Multiset.map_coe, Multiset.coe_count, List.count, List.countP_map]
  rfl

theorem handles_own (h : lifeCycle.Good m rs) (ht : Handles m t c) :
    ∃ r x cmd, rs[t]? = some r ∧ r.1 = {(c, x)} ∧ m.next t = some cmd ∧ cmd.Allowed c x := by
  obtain ⟨⟨e, he, rfl⟩, hnext⟩ := ht
  obtain ⟨cmd, hcmd⟩ := Option.ne_none_iff_exists'.mp hnext
  obtain ⟨e', r, he', hr, x, hx, hallowed⟩ := h.before hcmd
  cases he.symm.trans he'
  exact ⟨r, x, cmd, hr, hx, hcmd, hallowed⟩

theorem mem_of_get {r : Multiset (Nat × Conn) × Int} (hr : rs[t]? = some r) (hx : r.1 = {(c, x)}) :
    (c, x) ∈ rs.sum.1 := by
  obtain ⟨F, hsum, -⟩ := sum_split hr
  rw [hsum, Prod.fst_add, hx]
  exact Multiset.mem_add.mpr (.inl (Multiset.mem_singleton_self _))

theorem own_handles (h : lifeCycle.Good m rs) (hx : (c, x) ∈ rs.sum.1) :
    ∃ t, Handles m t c ∧ ∃ cmd : Cmd, cmd.Allowed c x := by
  obtain ⟨t, -, e, cmd, r, he, hcmd, hmem, y, hy, hallowed⟩ := h.owner
    (P := fun r => (c, x) ∈ r.1) (Multiset.notMem_zero _) (fun _ _ => Multiset.mem_add.mp) hx
  rw [hy, Multiset.mem_singleton] at hmem
  obtain ⟨rfl, rfl⟩ := Prod.mk.inj hmem
  exact ⟨t, ⟨⟨e, he, rfl⟩, by rw [hcmd]; exact nofun⟩, cmd, hallowed⟩

theorem handles_unique (h : lifeCycle.Good m rs) {u : Nat} (ht : Handles m t c)
    (hu : Handles m u c) : t = u := by
  by_contra hne
  obtain ⟨r, x, -, hr, hx, -⟩ := handles_own h ht
  obtain ⟨r', y, -, hr', hy, -⟩ := handles_own h hu
  obtain ⟨F, hsum⟩ := sum_two hne hr hr'
  have hnodup := Counted.nodup h.inv
  rw [hsum, Prod.fst_add, Prod.fst_add, hx, hy, Multiset.singleton_add, Multiset.singleton_add,
    Multiset.map_cons, Multiset.map_cons, Multiset.cons_add, Multiset.nodup_cons] at hnodup
  exact hnodup.1 (Multiset.mem_add.mpr (.inl (Multiset.mem_cons_self _ _)))

theorem handles_grounded (h : lifeCycle.Good m rs) (hx : (c, x) ∈ rs.sum.1) :
    m.shared.inFlight c = 0 := by
  rw [inFlight_eq]
  refine Multiset.count_eq_zero_of_notMem fun hmem => ?_
  have hdisjoint := (Multiset.nodup_add.mp (Counted.nodup h.inv)).2.2
  exact Multiset.disjoint_left.mp hdisjoint (Multiset.mem_map_of_mem Prod.fst hx) hmem

theorem inFlight_one (h : lifeCycle.Good m rs) {op : Op} (hop : op ∈ m.shared.flight) :
    m.shared.inFlight op.c = 1 := by
  rw [inFlight_eq]
  refine Multiset.count_eq_one_of_mem (Multiset.nodup_add.mp (Counted.nodup h.inv)).2.1 ?_
  exact Multiset.mem_map_of_mem Op.c (Multiset.mem_coe.mpr hop)

theorem one_place (h : lifeCycle.Good m rs) (hc : c < m.shared.next) :
    ((m.shared.conn c).closes = 0 ∧ m.shared.inFlight c = 1 ∧ ∀ t, ¬ Handles m t c) ∨
    ((m.shared.conn c).closes = 0 ∧ m.shared.inFlight c = 0 ∧ ∃! t, Handles m t c) ∨
    ((m.shared.conn c).closes = 1 ∧ m.shared.inFlight c = 0) := by
  rcases Counted.cases h.inv c with ⟨x, hx⟩ | ⟨op, hop, rfl⟩ | ⟨hdone, hnot⟩ | ⟨hge, -⟩
  · obtain ⟨t, ht, cmd, hallowed⟩ := own_handles h hx
    have hground := handles_grounded h hx
    rw [Counted.conn h.inv hx]
    rcases Nat.le_one_iff_eq_zero_or_eq_one.mp hallowed.closes with hzero | hone
    · exact .inr (.inl ⟨hzero, hground, t, ht, fun u hu => handles_unique h hu ht⟩)
    · exact .inr (.inr ⟨hone, hground⟩)
  · have hone := inFlight_one h hop
    refine .inl ⟨(Counted.ready h.inv hop).closes, hone, fun t ht => ?_⟩
    obtain ⟨r, x, -, hr, hx, -⟩ := handles_own h ht
    rw [handles_grounded h (mem_of_get hr hx)] at hone
    cases hone
  · refine .inr (.inr ⟨hdone.closes, ?_⟩)
    rw [inFlight_eq]
    exact Multiset.count_eq_zero_of_notMem hnot
  · exact absurd hc (Nat.not_lt.mpr hge)

theorem conn_facts (h : lifeCycle.Good m rs) (c : Nat) :
    Alternates (m.shared.conn c).posted ∧ (m.shared.conn c).closes ≤ 1 ∧
      (m.shared.conn c).frees ≤ 1 ∧ ((m.shared.conn c).closes = 1 →
        (m.shared.conn c).allocated = true → (∀ t, ¬ Handles m t c) →
          (m.shared.conn c).frees = 1) := by
  rcases Counted.cases h.inv c with ⟨x, hx⟩ | ⟨op, hop, rfl⟩ | ⟨hdone, -⟩ | ⟨-, hnew⟩
  · obtain ⟨t, ht, cmd, hallowed⟩ := own_handles h hx
    rw [Counted.conn h.inv hx]
    exact ⟨hallowed.alternates, hallowed.closes, hallowed.frees,
      fun _ _ hnone => absurd ht (hnone t)⟩
  · have hready := Counted.ready h.inv hop
    rw [hready.closes, hready.frees]
    exact ⟨hready.alternates, Nat.zero_le 1, Nat.zero_le 1, fun hone => by cases hone⟩
  · refine ⟨hdone.alternates, Nat.le_of_eq hdone.closes, ?_, fun _ hallocated _ => ?_⟩
    · rw [hdone.frees]
      split <;> decide
    · rw [hdone.frees, if_pos hallocated]
  · rw [hnew]
    exact ⟨nofun, Nat.zero_le 1, Nat.zero_le 1, fun hone => by cases hone⟩

/-- When no thread is inside a pass, the open connections are those in flight. -/
theorem total_eq (h : lifeCycle.Good m rs) (hq : m.Quiescent) : m.shared.TotalClient =
    ((Finset.range m.shared.next).filter fun c => (m.shared.conn c).closes = 0).card := by
  have hinv : Counted m.shared 0 := h.quiescent hq
  have hnodup := hinv.nodup
  rw [Prod.fst_zero, Multiset.map_zero, zero_add, Multiset.map_coe, Multiset.coe_nodup] at hnodup
  have hset : (Finset.range m.shared.next).filter (fun c => (m.shared.conn c).closes = 0) =
      (m.shared.flight.map Op.c).toFinset := by
    ext c
    rw [Finset.mem_filter, Finset.mem_range, List.mem_toFinset]
    constructor
    · rintro ⟨hc, hzero⟩
      rcases hinv.cases c with ⟨x, hx⟩ | ⟨op, hop, rfl⟩ | ⟨hdone, -⟩ | ⟨hge, -⟩
      · exact absurd hx (Multiset.notMem_zero _)
      · exact List.mem_map_of_mem hop
      · rw [hdone.closes] at hzero
        cases hzero
      · exact absurd hc (Nat.not_lt.mpr hge)
    · intro hmem
      obtain ⟨op, hop, rfl⟩ := List.mem_map.mp hmem
      refine ⟨?_, (hinv.ready hop).closes⟩
      exact hinv.ledger.made (flying op) (Multiset.mem_add.mpr (.inr
        (Multiset.mem_map_of_mem flying (Multiset.mem_coe.mpr hop))))
  have htotal := hinv.total
  rw [Prod.snd_zero, add_zero] at htotal
  rw [htotal, hset, List.toFinset_card_of_nodup hnodup, List.length_map]

/-- In every state that the server reaches. -/
theorem life_cycle {threads : Nat} {m : Machine} (h : Reachable threads m) : LifeCycle m := by
  obtain ⟨rs, hgood⟩ := good_run h
  refine ⟨fun c hc => one_place hgood hc, fun c => (conn_facts hgood c).1,
    fun c => ⟨(conn_facts hgood c).2.1, (conn_facts hgood c).2.2.1⟩,
    fun c => (conn_facts hgood c).2.2.2, ?_, ?_, fun op hop => ?_, total_eq hgood⟩
  · intro t cmd c hcmd hsocket
    obtain ⟨e, r, -, hr, x, hx, hallowed⟩ := hgood.before hcmd
    obtain ⟨rfl, hcloses⟩ := hallowed.socket c hsocket
    rw [Counted.conn hgood.inv (mem_of_get hr hx)]
    exact hcloses
  · intro t cmd c hcmd hdata
    obtain ⟨e, r, -, hr, x, hx, hallowed⟩ := hgood.before hcmd
    obtain ⟨rfl, hfrees⟩ := hallowed.data c hdata
    rw [Counted.conn hgood.inv (mem_of_get hr hx)]
    exact hfrees
  · have hready := Counted.ready hgood.inv hop
    exact ⟨hready.closes, hready.frees⟩

/-- Two connections; the first one sends, gets its answer and closes. -/
theorem life_cycle_two : ∃ m, Reachable 3 m ∧ m.shared.next = 2 ∧
    (m.shared.conn 0).posted = [.WSARecv, .WSASend] ∧ m.shared.TotalClient = 1 ∧ LifeCycle m := by
  have hrun : ∃ m, Reachable 3 m ∧ m.shared.next = 2 ∧
      (m.shared.conn 0).posted = [.WSARecv, .WSASend] ∧ m.shared.TotalClient = 1 :=
    exists_via_of_execIf (List.flatten [
      [.begin 0 (.accept 0)], List.replicate 6 (.run 0 true), [.finish 0],
      [.begin 1 (.completion ⟨0, .WSARecv⟩ true 5), .begin 0 (.accept 1)],
      List.replicate 6 (.run 0 true), List.replicate 7 (.run 1 true),
      [.begin 2 (.completion ⟨0, .WSASend⟩ true 0)], List.replicate 4 (.run 2 true)])
      (by decide +kernel)
  obtain ⟨m, hm, hnext, hposted, htotal⟩ := hrun
  exact ⟨m, hm, hnext, hposted, htotal, life_cycle hm⟩

end

end CppWorkspace.CompletionPortServer
