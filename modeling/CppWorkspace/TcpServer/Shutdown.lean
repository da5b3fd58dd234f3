/-
# `CppWorkspace.TcpServer.Shutdown` — `StopServer` against all other threads

`StopServer` sets a flag, waits for `ListenThread`, wakes the workers by packets without a
context, waits for them, and then `ReleaseResource` clears the map, kills the timer and
destroys the pools.  The functions of `TcpServer.Server` run unchanged (`lift`), and the
loops of the threads and `StopServer` are added:

    thread 0               InitServer, then StopServer
    thread 1               ListenThread, one event for each round
    threads 2, 3, ...      WorkThread, as many as `workers`
    the others             callbacks of the timer, and callers of SendData and SendFile

`misused` records that a thread has used a pool after it was destroyed, or the map after it
was cleared; `early` that a context was deleted while its operation was in flight.

Neither the timer nor the callers are stopped, so what is still under way when the map is
cleared must have used it for the last time; and `DestroyContextPool` deletes the contexts
that were created last, so those in flight must be older (`Orderly`).

Conventions: as in `TcpServer.Server`; the run begins when `StartServer` has resumed the
threads, with the flag set, so `StopServer` does not call `StartServer`; `started t` says
that worker `t` was created; a callback that begins before `timeKillEvent` may go on after
it; what happens after a misuse is not described.
-/
import Mathlib.Algebra.Group.Pi.Basic
import Mathlib.Algebra.Order.Group.Multiset
import CppWorkspace.Lib.Fairness
import CppWorkspace.TcpServer.Server

namespace CppWorkspace.TcpServer.Shutdown

open Programs Runs

/-! ## State -/

/-- The server, and how far its end has come. -/
structure State where
  core : Server
  m_bServerRunning : Bool
  /-- The packets without a context in the completion port. -/
  packets : Nat
  /-- How many were posted. -/
  posted : Nat
  /-- The workers that have taken one. -/
  woken : List Nat
  /-- The thread function has returned. -/
  exited : Nat → Bool
  inited : Bool
  stopping : Bool
  /-- After `m_mapAcceptSockQueue.clear()`. -/
  cleared : Bool
  /-- After `timeKillEvent`. -/
  killed : Bool
  destroyed : Kind → Bool
  misused : Bool
  early : Bool

/-- After `StartServer`; `InitServer` has still to post the accepts. -/
def start (m_hListenSocket : SOCKET) : State where
  core := .start m_hListenSocket
  m_bServerRunning := true
  packets := 0
  posted := 0
  woken := []
  exited _ := false
  inited := false
  stopping := false
  cleared := false
  killed := false
  destroyed _ := false
  misused := false
  early := false

/-! ## Commands -/

/-- What `WSAWaitForMultipleEvents` returns. -/
inductive Wait where
  | WSA_WAIT_FAILED
  | WSA_WAIT_TIMEOUT
  | FD_ACCEPT
  | semaphore
  deriving DecidableEq

/-- What `GetQueuedCompletionStatus` returns. -/
inductive Packet where
  | operation (op : Op) (bResult : Bool) (data : List UInt8)
  /-- `pOverlapped` is null. -/
  | shutdown
  deriving DecidableEq

/-- The steps of the threads: those of `TcpServer.Server`, and those of the end. -/
inductive Cmd where
  | core (c : TcpServer.Cmd)
  /-- `m_bServerRunning` is read. -/
  | running
  | setRunning (b : Bool)
  | ioctlsocket
  | DebugPrintf
  | WSAWaitForMultipleEvents
  | GetQueuedCompletionStatus
  | PostQueuedCompletionStatus
  /-- For the thread `t`. -/
  | WaitForSingleObject (t : Nat)
  /-- The thread function returns. -/
  | exits
  | closeListenSocket
  /-- The sockets of `m_mapAcceptSockQueue`. -/
  | sockets
  | clear
  | timeKillEvent
  | DestroyContextPool (k : Kind)
  | GetContextCounter (k : Kind)
  | GetIdleContextCounter (k : Kind)
  /-- `m_mapAcceptSockQueue.size()`. -/
  | size
  deriving DecidableEq

abbrev Cmd.Reply : Cmd → Type
  | .core c => c.Reply
  | .running => Bool
  | .WSAWaitForMultipleEvents => Wait
  | .GetQueuedCompletionStatus => Packet
  | .PostQueuedCompletionStatus => Bool
  | .sockets => List SOCKET
  | _ => Unit

/-- How a command ends. -/
inductive Choice where
  | core (x : TcpServer.Choice)
  | wait (w : Wait)
  | packet (p : Packet)
  | ok
  | fail
  deriving DecidableEq

abbrev Program (α : Type) := Prog Cmd Cmd.Reply α

abbrev perform (c : Cmd) : Program c.Reply := Prog.perform c

/-- A function of `TcpServer.Server`. -/
def lift {α : Type} : TcpServer.Program α → Program α
  | .ret a => .ret a
  | .call c k => .call (.core c) fun v => lift (k v)

/-! ## The threads -/

/-- One round of the loop. -/
def ListenThread : Program Unit := do
  if ← perform .running then
    let rc ← perform .WSAWaitForMultipleEvents
    if ← perform .running then
      match rc with
      | .WSA_WAIT_FAILED => perform .DebugPrintf
      | .WSA_WAIT_TIMEOUT => pure ()
      | .FD_ACCEPT => do
          let _ ← lift (PostAcceptOperation m_iMaxPostAcceptNumbs)
          pure ()
      | .semaphore => do
          let _ ← lift (PostAcceptOperation 1)
          pure ()
    else
      perform .exits
  else
    perform .exits

/-- One round of the loop. -/
def WorkThread (cls : Class) : Program Unit := do
  if ← perform .running then
    match ← perform .GetQueuedCompletionStatus with
    | .operation op bResult data => lift (TcpServer.WorkThread cls op bResult data)
    | .shutdown => do
        perform .DebugPrintf
        perform .exits
  else
    perform .exits

def TimerProc : Program Unit := do
  perform (.GetContextCounter .receive)
  perform (.GetIdleContextCounter .receive)
  perform (.GetContextCounter .accept)
  perform (.GetIdleContextCounter .accept)
  perform (.GetContextCounter .send)
  perform (.GetIdleContextCounter .send)
  perform .size
  perform .DebugPrintf
  lift ConnectTimeOutCheck

def wakeWorkers : Nat → Program Unit
  | 0 => pure ()
  | n + 1 => do
      let _ ← perform .PostQueuedCompletionStatus
      wakeWorkers n

def waitFor : List Nat → Program Unit
  | [] => pure ()
  | t :: ts => do
      perform (.WaitForSingleObject t)
      waitFor ts

def closeSockets : List SOCKET → Program Unit
  | [] => pure ()
  | h :: sockets => do
      perform (.core (.closesocket h))
      closeSockets sockets

def ReleaseResource : Program Unit := do
  perform .closeListenSocket
  let sockets ← perform .sockets
  closeSockets sockets
  perform .clear
  perform .timeKillEvent
  perform (.DestroyContextPool .accept)
  perform (.DestroyContextPool .receive)
  perform (.DestroyContextPool .send)

/-- Worker `t` belongs to the server, and was created. -/
def IsWorker (workers : Nat) (started : Nat → Bool) (t : Nat) : Prop :=
  2 ≤ t ∧ t < workers + 2 ∧ started t = true

instance (workers : Nat) (started : Nat → Bool) (t : Nat) :
    Decidable (IsWorker workers started t) := inferInstanceAs (Decidable (_ ∧ _))

/-- The workers whose handle is not null. -/
def handles (workers : Nat) (started : Nat → Bool) : List Nat :=
  (List.range' 2 workers).filter started

def StopServer (workers : Nat) (started : Nat → Bool) : Program Unit := do
  if ← perform .running then
    pure ()
  else
    -- `StartServer`, which is not reached
    perform (.setRunning true)
  perform .ioctlsocket
  perform (.setRunning false)
  perform (.WaitForSingleObject 1)
  wakeWorkers workers
  waitFor (handles workers started)
  ReleaseResource

/-- What the threads begin with. -/
inductive Event where
  | InitServer
  | StopServer
  | ListenThread
  | WorkThread
  | TimerProc
  | SendData (sock : SOCKET) (pVoid : Option (List UInt8))
  | SendFile (sock : SOCKET)
  deriving DecidableEq

/-- A callback of the timer, or a call from outside. -/
def Event.isCall : Event → Bool
  | .TimerProc => true
  | .SendData _ _ => true
  | .SendFile _ => true
  | _ => false

/-- A call from outside. -/
def Event.isSend : Event → Bool
  | .SendData _ _ => true
  | .SendFile _ => true
  | _ => false

/-- The event of the running thread, as `TcpServer.exec` asks for it. -/
def Event.core : Event → TcpServer.Event
  | .InitServer => .InitServer
  | .StopServer => .TimerProc
  | .ListenThread => .FD_ACCEPT
  | .WorkThread => .semaphore
  | .TimerProc => .TimerProc
  | .SendData sock pVoid => .SendData sock pVoid
  | .SendFile sock => .SendFile sock

namespace State

/-- A pool is used. -/
def usePool (σ : State) (k : Kind) : State := { σ with misused := σ.misused || σ.destroyed k }

/-- The map is used. -/
def useMap (σ : State) : State := { σ with misused := σ.misused || σ.cleared }

/-- What a command of `TcpServer.Server` uses; a context belongs to its pool. -/
def use (σ : State) : TcpServer.Cmd → State
  | .insert _ => σ.useMap
  | .erase _ => σ.useMap
  | .find _ => σ.useMap
  | .EnterCriticalSection => σ.useMap
  | .closePos _ => σ.useMap
  | .erasePos _ => σ.useMap
  | .GetContext k _ => σ.usePool k
  | .ReleaseContext k _ => σ.usePool k
  | .m_hSocket k _ => σ.usePool k
  | .SetAcceptParameters _ _ => σ.usePool .accept
  | .SetSendParameters _ _ _ _ => σ.usePool .send
  | .AcceptEx _ => σ.usePool .accept
  | .WSARecv _ => σ.usePool .receive
  | .WSASend _ => σ.usePool .send
  | .TransmitFile _ _ => σ.usePool .send
  | _ => σ

/-- An operation of a packet is taken by thread `t`. -/
def take (σ : State) (t : Nat) (op : Op) : State :=
  { σ with core := { σ.core with
      flight := σ.core.flight.erase op
      held := ⟨t, op.kind, op.ctx⟩ :: σ.core.held } }

/-- The stack of all contexts, the last that was created first; a full stack drops. -/
def manageStack (p : Pool) : List Nat := (List.range (min p.size MAX_STACK_CAPACITY)).reverse

/-- What the loop of `DestroyContextPool` deletes: it pops the stack of all contexts once
for each idle one. -/
def deleted (p : Pool) : List Nat := (manageStack p).take p.stack.length

def DestroyContextPool (σ : State) (k : Kind) : State :=
  { σ with
    destroyed := Function.update σ.destroyed k true
    early := σ.early || σ.core.flight.any fun op =>
      decide (op.kind = k) && (deleted (σ.core.pool k)).contains op.ctx }

/-- Each context in flight was created before the last ones, as many as are idle, or was
not put on the stack. -/
def Kept (σ : State) (k : Kind) : Prop :=
  ∀ op ∈ σ.core.flight, op.kind = k →
    op.ctx + (σ.core.pool k).stack.length < min (σ.core.pool k).size MAX_STACK_CAPACITY
      ∨ min (σ.core.pool k).size MAX_STACK_CAPACITY ≤ op.ctx

instance (σ : State) (k : Kind) : Decidable (σ.Kept k) :=
  inferInstanceAs (Decidable (∀ op ∈ σ.core.flight, op.kind = k → _))

end State

/-- What a command does. -/
def exec (t : Nat) (e : Event) : (cmd : Cmd) → State → Choice → Option (State × cmd.Reply)
  | .core c, σ, .core x =>
      (TcpServer.exec t e.core c σ.core x).map fun r => ({ σ.use c with core := r.1 }, r.2)
  | .running, σ, .ok => some (σ, σ.m_bServerRunning)
  | .setRunning b, σ, .ok => some ({ σ with m_bServerRunning := b }, ())
  | .ioctlsocket, σ, .ok => some (σ, ())
  | .DebugPrintf, σ, .ok => if σ.core.m_struCriSec = none then some (σ, ()) else none
  | .WSAWaitForMultipleEvents, σ, .wait .semaphore =>
      if 0 < σ.core.semaphore then
        some ({ σ with core := { σ.core with semaphore := σ.core.semaphore - 1 } }, .semaphore)
      else none
  | .WSAWaitForMultipleEvents, σ, .wait w => some (σ, w)
  | .GetQueuedCompletionStatus, σ, .packet (.operation op bResult data) =>
      if op ∈ σ.core.flight then some (σ.take t op, .operation op bResult data) else none
  | .GetQueuedCompletionStatus, σ, .packet .shutdown =>
      if 0 < σ.packets then
        some ({ σ with packets := σ.packets - 1, woken := t :: σ.woken }, .shutdown)
      else none
  | .PostQueuedCompletionStatus, σ, .ok =>
      some ({ σ with packets := σ.packets + 1, posted := σ.posted + 1 }, true)
  | .PostQueuedCompletionStatus, σ, .fail => some (σ, false)
  | .WaitForSingleObject u, σ, .ok => if σ.exited u = true then some (σ, ()) else none
  | .exits, σ, .ok => some ({ σ with exited := Function.update σ.exited t true }, ())
  | .closeListenSocket, σ, .ok => some (σ, ())
  | .sockets, σ, .ok => some (σ, σ.core.m_mapAcceptSockQueue)
  | .clear, σ, .ok =>
      some ({ σ with core := { σ.core with m_mapAcceptSockQueue := [] }, cleared := true }, ())
  | .timeKillEvent, σ, .ok => some ({ σ with killed := true }, ())
  | .DestroyContextPool k, σ, .ok => some (σ.DestroyContextPool k, ())
  | .GetContextCounter k, σ, .ok => some (σ.usePool k, ())
  | .GetIdleContextCounter k, σ, .ok => some (σ.usePool k, ())
  | .size, σ, .ok => some (σ.useMap, ())
  | _, _, _ => none

section
variable (cls : Class) (workers : Nat) (started : Nat → Bool)

/-- How the threads begin. -/
def spawn (t : Nat) (e : Event) (σ : State) : Option (State × Program Unit) :=
  match e with
  | .InitServer =>
      if t = 0 ∧ σ.inited = false ∧ σ.stopping = false then
        some ({ σ with inited := true }, do
          let _ ← lift (PostAcceptOperation (m_iMaxPostAcceptNumbs / 2))
          pure ())
      else none
  | .StopServer =>
      if t = 0 ∧ σ.inited = true ∧ σ.stopping = false then
        some ({ σ with stopping := true }, StopServer workers started)
      else none
  | .ListenThread =>
      if t = 1 ∧ σ.exited t = false then some (σ, ListenThread) else none
  | .WorkThread =>
      if IsWorker workers started t ∧ σ.exited t = false then some (σ, WorkThread cls) else none
  | .TimerProc => if workers + 2 ≤ t ∧ σ.killed = false then some (σ, TimerProc) else none
  | .SendData sock pVoid =>
      if workers + 2 ≤ t then some (σ, do
        let _ ← lift (TcpServer.SendData sock pVoid)
        pure ())
      else none
  | .SendFile sock =>
      if workers + 2 ≤ t then some (σ, lift (TcpServer.SendFile sock)) else none

def system : System State Cmd Cmd.Reply Choice Event Unit where
  exec := exec
  spawn := spawn cls workers started

end

abbrev Machine := Programs.Machine State Cmd Cmd.Reply Event Unit

abbrev Action := Act Choice Event

/-- All threads idle. -/
def idle (m_hListenSocket : SOCKET) (threads : Nat) : Machine :=
  ⟨start m_hListenSocket, List.replicate threads none⟩

/-- With this command ahead the call does not use the map any more: a callback has only to
leave `m_struCriSec`, and a call from outside has looked up its socket. -/
def PastMap (e : Event) : Cmd → Prop
  | .core .LeaveCriticalSection => True
  | .core (.find _) => False
  | _ => e.isSend = true

instance (e : Event) (c : Cmd) : Decidable (PastMap e c) := by
  unfold PastMap
  split <;> infer_instance

/-- The calls that are under way have used the map for the last time. -/
def MapLeft (m : Machine) : Prop :=
  ∀ t < m.threads.length, ∀ e ∈ m.event t, ∀ c ∈ m.next t, e.isCall = true → PastMap e c

/-- Calls from outside that are under way have used the pool of the sends for the last time:
they have only to return. -/
def SendsLeft (m : Machine) : Prop :=
  ∀ t < m.threads.length, ∀ e ∈ m.event t, e.isSend = true → m.next t = none

instance (m : Machine) : Decidable (MapLeft m) := inferInstanceAs (Decidable (∀ t < _, _))

instance (m : Machine) : Decidable (SendsLeft m) := inferInstanceAs (Decidable (∀ t < _, _))

/-- What is asked of the commands of `StopServer`: packets can be posted, no call under way
has still to use what is cleared or destroyed, and no context in flight is among the last
that were created. -/
def Allowed (m : Machine) (x : Choice) : Cmd → Prop
  | .PostQueuedCompletionStatus => x = .ok
  | .clear => MapLeft m
  | .DestroyContextPool k => m.shared.Kept k ∧ (k = .send → SendsLeft m)
  | _ => True

instance (m : Machine) (x : Choice) : (c : Cmd) → Decidable (Allowed m x c)
  | .PostQueuedCompletionStatus => inferInstanceAs (Decidable (_ = _))
  | .clear => inferInstanceAs (Decidable (MapLeft m))
  | .DestroyContextPool k => inferInstanceAs (Decidable (m.shared.Kept k ∧ _))
  | .core _ | .running | .setRunning _ | .ioctlsocket | .DebugPrintf
  | .WSAWaitForMultipleEvents | .GetQueuedCompletionStatus | .WaitForSingleObject _ | .exits
  | .closeListenSocket | .sockets | .timeKillEvent | .GetContextCounter _
  | .GetIdleContextCounter _ | .size => inferInstanceAs (Decidable True)

/-- And no call begins after the map was cleared. -/
def Orderly (m : Machine) : Action → Prop
  | .run t x => ∀ c ∈ m.next t, Allowed m x c
  | .begin _ e => e.isCall = true → m.shared.cleared = false
  | .finish _ => True

instance (m : Machine) : (a : Action) → Decidable (Orderly m a)
  | .run t x => inferInstanceAs (Decidable (∀ c ∈ m.next t, Allowed m x c))
  | .begin _ _ => inferInstanceAs (Decidable (_ → _))
  | .finish _ => inferInstanceAs (Decidable True)

/-- Nothing that is gone was used, and no context was deleted in flight. -/
def Safe (m : Machine) : Prop := m.shared.misused = false ∧ m.shared.early = false

/-! ## What the functions of `TcpServer.Server` do -/

/-- The command takes `m_struCriSec`, and leaves it again at once. -/
def Locks : TcpServer.Cmd → Prop
  | .insert _ => True
  | .erase _ => True
  | .find _ => True
  | _ => False

/-- It does not stay in `m_struCriSec`, and does not come from there. -/
def Plain : TcpServer.Cmd → Prop
  | .EnterCriticalSection => False
  | .LeaveCriticalSection => False
  | _ => True

/-- It does neither. -/
def Bare (c : TcpServer.Cmd) : Prop := Plain c ∧ ¬ Locks c

/-- It uses the pool of the sends at most. -/
def Sending : TcpServer.Cmd → Prop
  | .call _ _ => True
  | .GetContext k _ => k = .send
  | .ReleaseContext k _ => k = .send
  | .SetSendParameters _ _ _ _ => True
  | .WSASend _ => True
  | .TransmitFile _ _ => True
  | _ => False

theorem Sending.bare {c : TcpServer.Cmd} (h : Sending c) : Bare c := by
  cases c with
  | call | GetContext | ReleaseContext | SetSendParameters | WSASend | TransmitFile =>
      exact ⟨trivial, id⟩
  | _ => exact h.elim

section
variable {t : Nat} {e : TcpServer.Event} {σ τ : Server} {x : TcpServer.Choice}

theorem post_lock {k : Kind} {c : Nat} {h : SOCKET} (hpost : σ.post t k c h = some τ) :
    τ.m_struCriSec = σ.m_struCriSec := by
  obtain ⟨conn, -, rfl⟩ := Option.map_eq_some_iff.mp hpost
  rfl

theorem exec_lock {c : TcpServer.Cmd} {v : c.Reply} (hplain : Plain c)
    (h : TcpServer.exec t e c σ x = some (τ, v)) : τ.m_struCriSec = σ.m_struCriSec := by
  unfold TcpServer.exec at h
  split at h
  -- refused, one result, under a condition, or an operation that is posted
  all_goals first
    | exact hplain.elim
    | cases h
      rfl
    | cases h
    | obtain ⟨-, h⟩ := Option.ite_none_right_eq_some.mp h
      cases h
      rfl
    | obtain ⟨-, h⟩ := Option.ite_none_left_eq_some.mp h
      cases h
      rfl
    | obtain ⟨σ', hpost, h⟩ := Option.map_eq_some_iff.mp h
      exact (congrArg (fun r => r.1.m_struCriSec) h).symm.trans (post_lock hpost)
    | split at h <;> cases h <;> rfl

theorem exec_enabled (c : TcpServer.Cmd) (h : c = .EnterCriticalSection ∨ Locks c →
    σ.m_struCriSec = none) : ∃ x, (TcpServer.exec t e c σ x).isSome := by
  cases c with
  | WSASocket => exact ⟨.fail, rfl⟩
  | call f h => exact ⟨.ok, rfl⟩
  | insert h' | erase h' | find h' =>
      have hfree := h (.inr trivial)
      exact ⟨.ok, by simp [TcpServer.exec, hfree]⟩
  | EnterCriticalSection =>
      have hfree := h (.inl rfl)
      exact ⟨.ok, by simp [TcpServer.exec, hfree]⟩
  | closesocket h | closePos h | erasePos h | LeaveCriticalSection | GetContext k h
  | ReleaseContext k c | m_hSocket k c | SetAcceptParameters c h | SetSendParameters c h d n =>
      exact ⟨.ok, rfl⟩
  | AcceptEx c | WSARecv c | WSASend c | TransmitFile c h => exact ⟨.fail, rfl⟩
  | ReleaseSemaphore =>
      refine ⟨.ok, ?_⟩
      simp only [TcpServer.exec]
      split <;> rfl

end

/-! Only `ConnectTimeOutCheck` stays in `m_struCriSec`. -/

section
open Prog

theorem plain_closeClientSocket {h : SOCKET} : (CloseClientSocket h).All Plain := by
  refine all_call trivial fun found => ?_
  cases found
  · exact all_pure
  · exact all_perform trivial

theorem plain_issueAccept : IssueAcceptOperation.All Plain := by
  refine all_call trivial fun h => ?_
  split
  · exact plain_closeClientSocket.bind fun _ => all_pure
  · refine all_call trivial fun ok => ?_
    split
    · refine all_call trivial fun c => ?_
      split
      · exact plain_closeClientSocket.bind fun _ => all_pure
      · refine all_call trivial fun _ => all_call trivial fun posted => ?_
        split
        · exact all_pure
        · exact plain_closeClientSocket.bind fun _ => all_call trivial fun _ => all_pure
    · exact plain_closeClientSocket.bind fun _ => all_pure

theorem plain_postAccept (n : Nat) : (PostAcceptOperation n).All Plain := by
  induction n with
  | zero => exact all_pure
  | succ n ih => exact plain_issueAccept.bind fun _ => ih.bind fun _ => all_pure

theorem plain_issueReceive {h : SOCKET} : (IssueReceiveOperation h).All Plain := by
  refine all_call trivial fun c => ?_
  split
  · exact all_pure
  · refine all_call trivial fun posted => ?_
    split
    · exact all_pure
    · exact all_call trivial fun _ => all_pure

theorem sending_sendLoop {h : SOCKET} {data : List UInt8} (rounds n : Nat) :
    (sendLoop h data rounds n).All Sending := by
  induction rounds generalizing n with
  | zero => exact all_pure
  | succ rounds ih =>
      refine all_call rfl fun c => ?_
      split
      · exact all_pure
      · refine all_call trivial fun left => all_call trivial fun posted => ?_
        split
        · split
          · exact ih left
          · exact all_pure
        · exact all_call rfl fun _ => all_pure

theorem sending_issueSend {h : SOCKET} {data : List UInt8} {n : Nat} :
    (IssueSendOperation h data n).All Sending := by
  unfold IssueSendOperation
  split
  · exact sending_sendLoop n n
  · exact all_pure

theorem plain_issueSend {h : SOCKET} {data : List UInt8} {n : Nat} :
    (IssueSendOperation h data n).All Plain :=
  sending_issueSend.mono fun _ hc => hc.bare.1

theorem sending_sendData (h : SOCKET) (data : Option (List UInt8)) :
    ∃ k, TcpServer.SendData h data = IsValidSocket h >>= k ∧ ∀ valid, (k valid).All Sending := by
  refine ⟨_, rfl, fun valid => ?_⟩
  split
  · split
    · exact sending_issueSend
    · exact all_pure
  · exact all_pure

theorem plain_sendData {h : SOCKET} {data : Option (List UInt8)} :
    (TcpServer.SendData h data).All Plain := by
  obtain ⟨k, hk, hsend⟩ := sending_sendData h data
  rw [hk]
  exact ⟨trivial, fun valid => (hsend valid).mono fun _ hc => hc.bare.1⟩

theorem sending_sendFile (h : SOCKET) :
    ∃ k, TcpServer.SendFile h = IsValidSocket h >>= k ∧ ∀ valid, (k valid).All Sending := by
  refine ⟨_, rfl, fun valid => ?_⟩
  split
  · refine all_call trivial fun created => ?_
    split
    · refine all_call rfl fun c => ?_
      split
      · exact all_pure
      · refine all_call trivial fun _ => all_call trivial fun posted => ?_
        split
        · exact all_pure
        · exact all_perform rfl
    · exact all_pure
  · exact all_pure

theorem plain_callOn {k : Kind} {c : Nat} {f : Call} : (callOn k c f).All Plain :=
  all_call trivial fun _ => all_perform trivial

theorem plain_closeOf {k : Kind} {c : Nat} : (closeOf k c).All Plain :=
  all_call trivial fun _ => plain_closeClientSocket

theorem plain_refuse {c : Nat} : (refuse c).All Plain :=
  plain_closeOf.bind fun _ => all_call trivial fun _ => all_pure

theorem plain_completeAccept {c : Nat} : (CompleteAccept c).All Plain := by
  refine all_call trivial fun h => (all_perform trivial).bind fun _ => ?_
  -- five calls that may refuse the connection
  iterate 5
    refine plain_callOn.bind fun ok => ?_
    split
    rotate_left
    · exact plain_refuse
  refine all_call trivial fun h => plain_issueReceive.bind fun received => ?_
  split
  · refine plain_issueAccept.bind fun posted => ?_
    split
    · exact all_call trivial fun _ => all_pure
    · exact all_call trivial fun _ => all_call trivial fun _ => all_pure
  · exact plain_refuse

theorem plain_releaseAndClose {c : Nat} : (releaseAndClose c).All Plain :=
  all_call trivial fun _ => plain_closeOf.bind fun _ => all_pure

theorem plain_saveReceivedData {cls : Class} {h : SOCKET} {data : List UInt8} :
    (SaveReceivedData cls h data).All Plain := by
  cases cls with
  | CTcpServer => exact all_pure
  | CWebServer => exact plain_sendData.bind fun _ => all_pure

theorem plain_completeReceive {cls : Class} {c : Nat} {data : List UInt8} :
    (CompleteReceive cls c data).All Plain := by
  unfold CompleteReceive
  split
  · refine plain_callOn.bind fun ok => ?_
    split
    · refine all_call trivial fun h => plain_saveReceivedData.bind fun _ => ?_
      refine all_call trivial fun h => plain_issueReceive.bind fun received => ?_
      split
      · exact all_call trivial fun _ => all_pure
      · exact plain_releaseAndClose
    · exact plain_releaseAndClose
  · exact plain_closeOf.bind fun _ => all_call trivial fun _ => all_pure

theorem plain_completeSend {c : Nat} : (CompleteSend c).All Plain :=
  all_call trivial fun _ => plain_issueSend.bind fun _ => all_call trivial fun _ => all_pure

theorem plain_workThread {cls : Class} {op : Op} {bResult : Bool} {data : List UInt8} :
    (TcpServer.WorkThread cls op bResult data).All Plain := by
  unfold TcpServer.WorkThread
  split
  · exact plain_closeOf.bind fun _ => all_perform trivial
  · exact plain_completeAccept.bind fun _ => all_pure
  · split
    · exact plain_closeOf.bind fun _ => all_perform trivial
    · exact plain_completeReceive.bind fun _ => all_pure
  · exact plain_completeSend.bind fun _ => all_pure

theorem bare_sweep (sockets : List SOCKET) : (sweep sockets).All Bare := by
  have hbare : ∀ {c}, Plain c → ¬ Locks c → Bare c := fun hp hl => ⟨hp, hl⟩
  induction sockets with
  | nil => exact all_pure
  | cons h sockets ih =>
      refine all_call (hbare trivial id) fun late => ?_
      split
      · exact all_call (hbare trivial id) fun _ => all_call (hbare trivial id) fun _ => ih
      · exact ih

end

/-! ## What the threads know -/

/-- How far `StopServer` has come: the flag, the packets that it has posted, the threads
that it has waited for, and whether it has cleared the map. -/
structure Progress where
  flag : Bool
  posted : Nat
  joined : List Nat
  cleared : Bool
  deriving DecidableEq

/-- What a thread is about. -/
inductive Phase where
  | init
  | stop (s : Progress)
  /-- In a round; `woken` after a packet without a context. -/
  | round (woken : Bool)
  /-- In a callback, or a call from outside; `locked` inside `m_struCriSec`. -/
  | call (locked : Bool)
  /-- A callback has only to leave `m_struCriSec`. -/
  | leaving
  /-- A call from outside has looked up its socket. -/
  | sending
  deriving DecidableEq

/-- It is inside `m_struCriSec`. -/
def Phase.inside : Phase → Bool
  | .call locked => locked
  | .leaving => true
  | _ => false

/-- In it the map is not cleared. -/
def Phase.before : Phase → Bool
  | .init | .round _ | .call _ => true
  | .stop _ | .leaving | .sending => false

section
variable (workers : Nat) (started : Nat → Bool)

/-- Thread `t` has a loop. -/
def Loops (t : Nat) : Prop := t = 1 ∨ IsWorker workers started t

def Phase.Holds (σ : State) (t : Nat) : Phase → Prop
  | .init => t = 0 ∧ σ.core.m_struCriSec ≠ some t
      ∧ σ.stopping = false ∧ σ.m_bServerRunning = true ∧ σ.posted = 0 ∧ σ.cleared = false
  | .stop s => t = 0 ∧ σ.core.m_struCriSec ≠ some t
      ∧ σ.stopping = true ∧ σ.m_bServerRunning = s.flag ∧ σ.posted = s.posted
      ∧ σ.cleared = s.cleared ∧ ∀ u ∈ s.joined, σ.exited u = true
  | .round woken => Loops workers started t ∧ σ.core.m_struCriSec ≠ some t
      ∧ σ.exited t = false ∧ (t ∈ σ.woken ↔ woken = true)
  | .call locked => workers + 2 ≤ t ∧ (σ.core.m_struCriSec = some t ↔ locked = true)
      ∧ σ.cleared = false
  | .leaving => workers + 2 ≤ t ∧ σ.core.m_struCriSec = some t
  | .sending => workers + 2 ≤ t ∧ σ.core.m_struCriSec ≠ some t ∧ σ.destroyed .send = false

/-- What holds of a thread that is idle. -/
structure State.Idle (σ : State) (t : Nat) : Prop where
  lock : σ.core.m_struCriSec ≠ some t
  woken : t ∈ σ.woken → σ.exited t = true
  stop : t = 0 → σ.stopping = false →
    σ.m_bServerRunning = true ∧ σ.posted = 0 ∧ σ.cleared = false

/-- A thread is idle, or in one phase. -/
inductive State.Stage (σ : State) (t : Nat) (H : Multiset Phase) : Prop
  | idle (hH : H = 0) (h : σ.Idle t)
  | busy (p : Phase) (hH : H = {p}) (h : p.Holds workers started σ t)

/-- What holds of all threads together. -/
structure State.Global (σ : State) : Prop where
  misused : σ.misused = false
  early : σ.early = false
  gone : σ.cleared = true → ∀ t, Loops workers started t → σ.exited t = true
  destroyed : ∀ k, σ.destroyed k = true → σ.cleared = true
  packets : σ.packets + σ.woken.length = σ.posted
  nodup : σ.woken.Nodup
  workers : ∀ t ∈ σ.woken, IsWorker workers started t

/-- The invariant of the orderly runs. -/
structure State.Staged (σ : State) (R : Nat → Multiset Phase) : Prop where
  stage : ∀ t, σ.Stage workers started t (R t)
  all : σ.Global workers started

/-- A command that waits for somebody. -/
def Blocks : Cmd → Prop
  | .core c => c = .EnterCriticalSection ∨ Locks c
  | .DebugPrintf => True
  | .GetQueuedCompletionStatus => True
  | .WaitForSingleObject _ => True
  | _ => False

/-- What is known before each command. -/
structure Before (t : Nat) (e : Event) (c : Cmd) (σ : State) (R : Nat → Multiset Phase) : Prop where
  own : ∀ u, R u ≠ 0 → u = t
  call : (∃ locked, .call locked ∈ R t) → e.isCall = true ∧ ¬ PastMap e c
  sending : .sending ∈ R t → e.isSend = true
  lock : Blocks c → σ.core.m_struCriSec ≠ some t
  packet : c = .GetQueuedCompletionStatus → t ∉ σ.woken ∧ IsWorker workers started t
  wait : ∀ u, c = .WaitForSingleObject u → t = 0 ∧ σ.m_bServerRunning = false
    ∧ (u = 1 ∨ IsWorker workers started u ∧ σ.posted = workers)

/-- What the orderly runs keep to. -/
def ok (cmd : Cmd) (σ : State) (R : Nat → Multiset Phase) (x : Choice) : Prop :=
  (cmd = .PostQueuedCompletionStatus → x = .ok)
    ∧ (cmd = .clear → ∀ u locked, .call locked ∉ R u)
    ∧ ∀ k, cmd = .DestroyContextPool k → σ.Kept k ∧ (k = .send → ∀ u, .sending ∉ R u)

def phases (cls : Class) : Logic State Cmd Cmd.Reply Choice Event Unit (Nat → Multiset Phase) where
  toSystem := system cls workers started
  Inv := State.Staged workers started
  Pre := Before workers started
  ok _ _ cmd σ R x := ok cmd σ R x

end

/-! What a command leaves alone. -/

/-- Nothing has changed that the phases speak of. -/
structure Same (σ τ : State) : Prop where
  lock : τ.core.m_struCriSec = σ.core.m_struCriSec
  running : τ.m_bServerRunning = σ.m_bServerRunning
  packets : τ.packets = σ.packets
  posted : τ.posted = σ.posted
  woken : τ.woken = σ.woken
  exited : τ.exited = σ.exited
  stopping : τ.stopping = σ.stopping
  cleared : τ.cleared = σ.cleared
  destroyed : τ.destroyed = σ.destroyed
  misused : τ.misused = σ.misused
  early : τ.early = σ.early

/-- Only what thread `t` may change has changed. -/
structure Frame (σ τ : State) (t : Nat) : Prop where
  lock : ∀ u, u ≠ t → (τ.core.m_struCriSec = some u ↔ σ.core.m_struCriSec = some u)
  woken : ∀ u, u ≠ t → (u ∈ τ.woken ↔ u ∈ σ.woken)
  exited : ∀ u, u ≠ t → τ.exited u = σ.exited u
  cleared : τ.cleared = σ.cleared
  destroyed : τ.destroyed = σ.destroyed
  control : t ≠ 0 → τ.m_bServerRunning = σ.m_bServerRunning ∧ τ.posted = σ.posted
    ∧ τ.stopping = σ.stopping ∧ ∀ u, σ.exited u = true → τ.exited u = true

theorem Frame.refl (σ : State) (t : Nat) : Frame σ σ t :=
  ⟨fun _ _ => .rfl, fun _ _ => .rfl, fun _ _ => rfl, rfl, rfl,
    fun _ => ⟨rfl, rfl, rfl, fun _ h => h⟩⟩

section
variable {workers : Nat} {started : Nat → Bool} {σ τ : State} {t u : Nat} {p q : Phase}
  {R F : Nat → Multiset Phase}

theorem Same.holds (h : Same σ τ) (hp : p.Holds workers started σ t) :
    p.Holds workers started τ t := by
  cases p with
  | init => simpa only [Phase.Holds, h.lock, h.stopping, h.running, h.posted, h.cleared] using hp
  | stop s =>
      simpa only [Phase.Holds, h.lock, h.stopping, h.running, h.posted, h.cleared, h.exited]
        using hp
  | round woken => simpa only [Phase.Holds, h.lock, h.exited, h.woken] using hp
  | call locked => simpa only [Phase.Holds, h.lock, h.cleared] using hp
  | leaving => simpa only [Phase.Holds, h.lock] using hp
  | sending => simpa only [Phase.Holds, h.lock, h.destroyed] using hp

theorem Same.idle (h : Same σ τ) (hi : σ.Idle t) : τ.Idle t where
  lock := h.lock ▸ hi.lock
  woken := by simpa only [h.woken, h.exited] using hi.woken
  stop := by simpa only [h.stopping, h.running, h.posted, h.cleared] using hi.stop

theorem Same.all (h : Same σ τ) (hg : σ.Global workers started) : τ.Global workers started where
  misused := h.misused.trans hg.misused
  early := h.early.trans hg.early
  gone := by simpa only [h.cleared, h.exited] using hg.gone
  destroyed := by simpa only [h.destroyed, h.cleared] using hg.destroyed
  packets := by simpa only [h.packets, h.woken, h.posted] using hg.packets
  nodup := h.woken ▸ hg.nodup
  workers := h.woken ▸ hg.workers

theorem Same.staged (h : Same σ τ) (hs : σ.Staged workers started R) :
    τ.Staged workers started R where
  stage t := by
    cases hs.stage t with
    | idle hH hi => exact .idle hH (h.idle hi)
    | busy p hH hp => exact .busy p hH (h.holds hp)
  all := h.all hs.all

theorem Frame.holds (h : Frame σ τ t) (hu : u ≠ t) (hp : p.Holds workers started σ u) :
    p.Holds workers started τ u := by
  cases p with
  | init =>
      obtain ⟨rfl, hlock, hstop, hrun, hposted, hcleared⟩ := hp
      obtain ⟨hrun', hposted', hstop', -⟩ := h.control (Ne.symm hu)
      exact ⟨rfl, fun hl => hlock ((h.lock 0 hu).mp hl), hstop'.trans hstop, hrun'.trans hrun,
        hposted'.trans hposted, h.cleared.trans hcleared⟩
  | stop s =>
      obtain ⟨rfl, hlock, hstop, hrun, hposted, hcleared, hjoined⟩ := hp
      obtain ⟨hrun', hposted', hstop', hmono⟩ := h.control (Ne.symm hu)
      exact ⟨rfl, fun hl => hlock ((h.lock 0 hu).mp hl), hstop'.trans hstop, hrun'.trans hrun,
        hposted'.trans hposted, h.cleared.trans hcleared, fun v hv => hmono v (hjoined v hv)⟩
  | round woken =>
      obtain ⟨hloops, hlock, hexited, hwoken⟩ := hp
      exact ⟨hloops, fun hl => hlock ((h.lock u hu).mp hl), (h.exited u hu).trans hexited,
        (h.woken u hu).trans hwoken⟩
  | call locked =>
      obtain ⟨hle, hlock, hcleared⟩ := hp
      exact ⟨hle, (h.lock u hu).trans hlock, h.cleared.trans hcleared⟩
  | leaving => exact ⟨hp.1, (h.lock u hu).mpr hp.2⟩
  | sending =>
      obtain ⟨hle, hlock, hdestroyed⟩ := hp
      exact ⟨hle, fun hl => hlock ((h.lock u hu).mp hl),
        (congrFun h.destroyed .send).trans hdestroyed⟩

theorem Frame.idle (h : Frame σ τ t) (hu : u ≠ t) (hi : σ.Idle u) : τ.Idle u where
  lock hl := hi.lock ((h.lock u hu).mp hl)
  woken hw := (h.exited u hu).trans (hi.woken ((h.woken u hu).mp hw))
  stop hzero hstop := by
    obtain ⟨hrun', hposted', hstop', -⟩ := h.control (hzero ▸ Ne.symm hu)
    obtain ⟨hrun, hposted, hcleared⟩ := hi.stop hzero (hstop'.symm.trans hstop)
    exact ⟨hrun'.trans hrun, hposted'.trans hposted, h.cleared.trans hcleared⟩

theorem State.Staged.own (h : σ.Staged workers started (Pi.single t {p} + F)) :
    F t = 0 ∧ p.Holds workers started σ t := by
  have ht := h.stage t
  rw [Pi.add_apply, Pi.single_eq_same] at ht
  cases ht with
  | idle hH =>
      have hcard := congrArg Multiset.card hH
      simp at hcard
  | busy q hH hq =>
      have hcard := congrArg Multiset.card hH
      rw [Multiset.card_add, Multiset.card_singleton, Multiset.card_singleton] at hcard
      have hF : F t = 0 := Multiset.card_eq_zero.mp (by omega)
      rw [hF, add_zero, Multiset.singleton_inj] at hH
      exact ⟨hF, hH ▸ hq⟩

theorem State.Staged.update {H P : Multiset Phase}
    (h : σ.Staged workers started (Pi.single t H + F)) (hF : F t = 0)
    (hframe : Frame σ τ t) (hstage : τ.Stage workers started t P)
    (hall : τ.Global workers started) : τ.Staged workers started (Pi.single t P + F) where
  stage u := by
    by_cases hu : u = t
    · subst hu
      rwa [Pi.add_apply, Pi.single_eq_same, hF, add_zero]
    · have hst := h.stage u
      rw [Pi.add_apply, Pi.single_eq_of_ne hu] at hst ⊢
      cases hst with
      | idle hH hi => exact .idle hH (hframe.idle hu hi)
      | busy q hH hq => exact .busy q hH (hframe.holds hu hq)
  all := hall

end

/-! ## Commands -/

section
variable {cls : Class} {workers : Nat} {started : Nat → Bool} {σ τ : State} {t : Nat} {e : Event}
  {p : Phase} {F : Nat → Multiset Phase}

theorem Phase.Holds.unlocked (h : p.Holds workers started σ t) (hp : p.inside = false) :
    σ.core.m_struCriSec ≠ some t := by
  cases p with
  | init => exact h.2.1
  | stop s => exact h.2.1
  | round woken => exact h.2.1
  | call locked => exact fun hlock => Bool.false_ne_true (hp.symm.trans (h.2.1.mp hlock))
  | leaving => cases hp
  | sending => exact h.2.1

theorem Phase.Holds.uncleared (h : p.Holds workers started σ t)
    (hall : σ.Global workers started) (hp : p.before = true) : σ.cleared = false := by
  cases p with
  | init => exact h.2.2.2.2.2
  | round woken =>
      refine Bool.eq_false_iff.mpr fun hcleared => ?_
      exact Bool.false_ne_true (h.2.2.1.symm.trans (hall.gone hcleared t h.1))
  | call locked => exact h.2.2
  | stop s | leaving | sending => cases hp

theorem State.Global.present (h : σ.Global workers started) (hcleared : σ.cleared = false)
    (k : Kind) : σ.destroyed k = false :=
  Bool.eq_false_iff.mpr fun hd => Bool.false_ne_true (hcleared.symm.trans (h.destroyed k hd))

theorem State.mem_deleted {p : Pool} {c : Nat} : c ∈ State.deleted p ↔
    c < min p.size MAX_STACK_CAPACITY ∧ min p.size MAX_STACK_CAPACITY ≤ c + p.stack.length := by
  simp only [State.deleted, State.manageStack, List.mem_take_iff_getElem, List.length_reverse,
    List.length_range, List.getElem_reverse, List.getElem_range]
  constructor
  · rintro ⟨i, hi, rfl⟩
    omega
  · rintro ⟨hlt, hle⟩
    exact ⟨min p.size MAX_STACK_CAPACITY - 1 - c, by omega, by omega⟩

theorem State.Kept.early {k : Kind} (h : σ.Kept k) :
    (σ.DestroyContextPool k).early = σ.early := by
  have hnone : (σ.core.flight.any fun op =>
      decide (op.kind = k) && (State.deleted (σ.core.pool k)).contains op.ctx) = false := by
    refine List.any_eq_false.mpr fun op hop hdel => ?_
    obtain ⟨hkind, hmem⟩ := Bool.and_eq_true_iff.mp hdel
    obtain ⟨hlt, hle⟩ := State.mem_deleted.mp (List.contains_iff_mem.mp hmem)
    rcases h op hop (of_decide_eq_true hkind) with hold | hold
    · exact absurd hle (Nat.not_le.mpr hold)
    · exact absurd hlt (Nat.not_lt.mpr hold)
  rw [State.DestroyContextPool, hnone, Bool.or_false]

theorem State.usePool_of (hd : ∀ k, σ.destroyed k = false) (k : Kind) : σ.usePool k = σ := by
  rw [State.usePool, hd k, Bool.or_false]

theorem State.useMap_of (hcleared : σ.cleared = false) : σ.useMap = σ := by
  have hor : (σ.misused || σ.cleared) = σ.misused := by rw [hcleared, Bool.or_false]
  rw [State.useMap, hor]

theorem State.use_of (h : σ.Global workers started) (hcleared : σ.cleared = false)
    (c : TcpServer.Cmd) : σ.use c = σ := by
  have hpool := σ.usePool_of (h.present hcleared)
  have hmap := σ.useMap_of hcleared
  cases c with
  | insert | erase | find | EnterCriticalSection | closePos | erasePos => exact hmap
  | GetContext | ReleaseContext | m_hSocket | SetAcceptParameters | SetSendParameters
  | AcceptEx | WSARecv | WSASend | TransmitFile => exact hpool _
  | WSASocket | call | closesocket | LeaveCriticalSection | ReleaseSemaphore => rfl

/-- The rest of a call from outside uses the pool of the sends only. -/
theorem State.use_sending (h : σ.destroyed .send = false) {c : TcpServer.Cmd} (hc : Sending c) :
    σ.use c = σ := by
  have hpool : σ.usePool .send = σ := by rw [State.usePool, h, Bool.or_false]
  cases c with
  | call => rfl
  | GetContext k | ReleaseContext k =>
      obtain rfl : k = .send := hc
      exact hpool
  | SetSendParameters | WSASend | TransmitFile => exact hpool
  | _ => exact hc.elim

/-- What a phase says of the event and the next command of its thread. -/
def Phase.At (e : Event) (c : Cmd) : Phase → Prop
  | .call _ => e.isCall = true ∧ ¬ PastMap e c
  | .sending => e.isSend = true
  | _ => True

theorem before_of {c : Cmd} (h : p.Holds workers started σ t)
    (hat : p.At e c) (hlock : Blocks c → p.inside = false)
    (hpacket : c ≠ .GetQueuedCompletionStatus) (hwait : ∀ u, c ≠ .WaitForSingleObject u) :
    Before workers started t e c σ (Pi.single t {p}) where
  own u hu := by
    by_contra hne
    exact hu (Pi.single_eq_of_ne hne _)
  call := by
    rintro ⟨locked, hl⟩
    rw [Pi.single_eq_same, Multiset.mem_singleton] at hl
    subst hl
    exact hat
  sending hs := by
    rw [Pi.single_eq_same, Multiset.mem_singleton] at hs
    subst hs
    exact hat
  lock hb := h.unlocked (hlock hb)
  packet hc := absurd hc hpacket
  wait u hc := absurd hc (hwait u)

theorem does_same {c : Cmd} {P : c.Reply → Prop} (hat : p.At e c)
    (hlock : Blocks c → p.inside = false)
    (hpacket : c ≠ .GetQueuedCompletionStatus) (hwait : ∀ u, c ≠ .WaitForSingleObject u)
    (hexec : ∀ σ x τ v, p.Holds workers started σ t → σ.Global workers started →
      exec t e c σ x = some (τ, v) → Same σ τ ∧ P v) :
    Does (phases workers started cls) t e c (Pi.single t {p}) fun v R =>
      P v ∧ R = Pi.single t {p} := by
  intro σ F hinv
  obtain ⟨hF, hp⟩ := hinv.own
  refine ⟨before_of hp hat hlock hpacket hwait, fun x τ v _ hrun => ?_⟩
  obtain ⟨hsame, hP⟩ := hexec σ x τ v hp hinv.all hrun
  exact ⟨Pi.single t {p}, hsame.staged hinv, hP, rfl⟩

theorem same_refl (σ : State) : Same σ σ := ⟨rfl, rfl, rfl, rfl, rfl, rfl, rfl, rfl, rfl, rfl, rfl⟩

/-- The rest of the server is not spoken of, but for `m_struCriSec`. -/
theorem same_core {core : Server} (h : core.m_struCriSec = σ.core.m_struCriSec) :
    Same σ { σ with core := core } := ⟨h, rfl, rfl, rfl, rfl, rfl, rfl, rfl, rfl, rfl, rfl⟩

theorem exec_core {c : TcpServer.Cmd} {x : Choice} {v : c.Reply}
    (h : exec t e (.core c) σ x = some (τ, v)) : ∃ x' core,
      TcpServer.exec t e.core c σ.core x' = some (core, v) ∧ τ = { σ.use c with core := core } := by
  cases x with
  | core x' =>
      obtain ⟨⟨core, w⟩, hcore, hr⟩ := Option.map_eq_some_iff.mp h
      cases hr
      exact ⟨x', core, hcore, rfl⟩
  | wait w => cases h
  | packet q => cases h
  | ok => cases h
  | fail => cases h

theorem does_core {c : TcpServer.Cmd} (hbefore : p.before = true) (hat : p.At e (.core c))
    (hplain : Plain c) (hlock : Locks c → p.inside = false) :
    Does (phases workers started cls) t e (.core c) (Pi.single t {p}) fun _ R =>
      R = Pi.single t {p} := by
  have hblocks : Blocks (.core c) → p.inside = false := by
    rintro (rfl | hl)
    · exact hplain.elim
    · exact hlock hl
  refine Does.mono (does_same (P := fun _ => True) hat hblocks nofun nofun
    fun σ x τ v hp hall hrun => ⟨?_, trivial⟩) fun _ _ hR => hR.2
  obtain ⟨x', core, hcore, rfl⟩ := exec_core hrun
  rw [State.use_of hall (hp.uncleared hall hbefore)]
  exact same_core (exec_lock hplain hcore)

theorem does_send {c : TcpServer.Cmd} (he : e.isSend = true) (hc : Sending c) :
    Does (phases workers started cls) t e (.core c) (Pi.single t {.sending}) fun _ R =>
      R = Pi.single t {.sending} := by
  refine Does.mono (does_same (P := fun _ => True) he (fun _ => rfl) nofun nofun
    fun σ x τ v hp _ hrun => ⟨?_, trivial⟩) fun _ _ hR => hR.2
  obtain ⟨x', core, hcore, rfl⟩ := exec_core hrun
  rw [State.use_sending hp.2.2 hc]
  exact same_core (exec_lock hc.bare.1 hcore)

theorem not_pastMap_timer {c : Cmd} (hc : c ≠ .core .LeaveCriticalSection) :
    ¬ PastMap .TimerProc c := by
  unfold PastMap
  split
  · exact absurd rfl hc
  · exact id
  · exact nofun

theorem Phase.at_plain {c : TcpServer.Cmd} (hbefore : p.before = true)
    (hcall : ∀ locked, p = .call locked → e = .TimerProc) (hplain : Plain c) :
    p.At e (.core c) := by
  cases p with
  | init | stop s | round woken | leaving => exact trivial
  | call locked =>
      rw [hcall locked rfl]
      refine ⟨rfl, not_pastMap_timer ?_⟩
      rintro ⟨⟩
      exact hplain
  | sending => cases hbefore

theorem wp_lift {β : Type} {prog : TcpServer.Program β} (hbefore : p.before = true)
    (hcall : ∀ locked, p = .call locked → e = .TimerProc)
    (hall : prog.All fun c => Plain c ∧ (Locks c → p.inside = false)) :
    wp (phases workers started cls) t e (lift prog) (fun _ R => R = Pi.single t {p})
      (Pi.single t {p}) := by
  induction prog with
  | ret b => exact rfl
  | call c k ih =>
      refine Does.mono (does_core hbefore (Phase.at_plain hbefore hcall hall.1.1) hall.1.1
        hall.1.2) fun v R hR => ?_
      rw [hR]
      exact ih v (hall.2 v)

theorem wp_plain {β : Type} {prog : TcpServer.Program β} (hbefore : p.before = true)
    (hcall : ∀ locked, p = .call locked → e = .TimerProc) (hout : p.inside = false)
    (hall : prog.All Plain) :
    wp (phases workers started cls) t e (lift prog) (fun _ R => R = Pi.single t {p})
      (Pi.single t {p}) :=
  wp_lift hbefore hcall (hall.mono fun _ hc => ⟨hc, fun _ => hout⟩)

theorem wp_sending {β : Type} {prog : TcpServer.Program β} (he : e.isSend = true)
    (hall : prog.All Sending) :
    wp (phases workers started cls) t e (lift prog) (fun _ R => R = Pi.single t {.sending})
      (Pi.single t {.sending}) := by
  induction prog with
  | ret b => exact rfl
  | call c k ih =>
      refine Does.mono (does_send he hall.1) fun v R hR => ?_
      rw [hR]
      exact ih v (hall.2 v)

/-- The flag is read; `StopServer` knows it. -/
theorem does_running (hat : p.At e .running) :
    Does (phases workers started cls) t e .running (Pi.single t {p}) fun v R =>
      (∀ s, p = .stop s → v = s.flag) ∧ R = Pi.single t {p} := by
  refine does_same hat nofun nofun nofun fun σ x τ v hp _ hrun => ?_
  cases x with
  | ok =>
      cases hrun
      refine ⟨same_refl σ, ?_⟩
      rintro s rfl
      exact hp.2.2.2.1
  | core _ | wait _ | packet _ | fail => cases hrun

theorem does_debugPrintf (hat : p.At e .DebugPrintf) (hlock : p.inside = false) :
    Does (phases workers started cls) t e .DebugPrintf (Pi.single t {p}) fun _ R =>
      R = Pi.single t {p} := by
  refine Does.mono (does_same (P := fun _ => True) hat (fun _ => hlock) nofun nofun
    fun σ x τ v _ _ hrun => ⟨?_, trivial⟩) fun _ _ hR => hR.2
  cases x with
  | ok =>
      obtain ⟨-, hrun⟩ := Option.ite_none_right_eq_some.mp hrun
      cases hrun
      exact same_refl σ
  | core _ | wait _ | packet _ | fail => cases hrun

theorem does_count {c : Cmd} (hbefore : p.before = true) (hat : p.At e c)
    (hc : (∃ k, c = .GetContextCounter k) ∨ (∃ k, c = .GetIdleContextCounter k) ∨ c = .size) :
    Does (phases workers started cls) t e c (Pi.single t {p}) fun _ R => R = Pi.single t {p} := by
  have hplain : ¬ Blocks c ∧ c ≠ .GetQueuedCompletionStatus ∧ ∀ u, c ≠ .WaitForSingleObject u := by
    rcases hc with ⟨k, rfl⟩ | ⟨k, rfl⟩ | rfl <;> exact ⟨nofun, nofun, nofun⟩
  refine Does.mono (does_same (P := fun _ => True) hat (fun hb => absurd hb hplain.1)
    hplain.2.1 hplain.2.2 fun σ x τ v hp hall hrun => ⟨?_, trivial⟩) fun _ _ hR => hR.2
  have hcleared := hp.uncleared hall hbefore
  have hpool := σ.usePool_of (hall.present hcleared)
  have hmap := σ.useMap_of hcleared
  rcases hc with ⟨k, rfl⟩ | ⟨k, rfl⟩ | rfl
  all_goals
    cases x with
    | ok =>
        cases hrun
        first | rw [hpool] | rw [hmap]
        exact same_refl σ
    | core _ | wait _ | packet _ | fail => cases hrun

/-! The loops. -/

theorem does_wsaWait {woken : Bool} :
    Does (phases workers started cls) t e .WSAWaitForMultipleEvents (Pi.single t {.round woken})
      fun _ R => R = Pi.single t {.round woken} := by
  refine Does.mono (does_same (P := fun _ => True) trivial nofun nofun nofun
    fun σ x τ v _ _ hrun => ⟨?_, trivial⟩) fun _ _ hR => hR.2
  cases x with
  | wait w =>
      cases w with
      | semaphore =>
          obtain ⟨-, hrun⟩ := Option.ite_none_right_eq_some.mp hrun
          cases hrun
          exact same_core rfl
      | WSA_WAIT_FAILED | WSA_WAIT_TIMEOUT | FD_ACCEPT =>
          cases hrun
          exact same_refl σ
  | core _ | packet _ | ok | fail => cases hrun

/-- A worker takes a packet; one without a context is counted. -/
theorem does_packet (ht : IsWorker workers started t) :
    Does (phases workers started cls) t e .GetQueuedCompletionStatus (Pi.single t {.round false})
      fun v R => R = Pi.single t {.round (decide (v = .shutdown))} := by
  intro σ F hinv
  obtain ⟨hF, hp⟩ := hinv.own
  obtain ⟨hloops, hlock, hexited, hwoken⟩ := hp
  have hnot : t ∉ σ.woken := fun hw => Bool.false_ne_true (hwoken.mp hw)
  refine ⟨⟨fun u hu => ?_, ?_, fun hs => ?_, fun _ => hlock, fun _ => ⟨hnot, ht⟩, nofun⟩,
    fun x τ v _ hrun => ⟨Pi.single t {.round (decide (v = .shutdown))}, ?_, rfl⟩⟩
  · by_contra hne
    exact hu (Pi.single_eq_of_ne hne _)
  · rintro ⟨locked, hl⟩
    rw [Pi.single_eq_same, Multiset.mem_singleton] at hl
    cases hl
  · rw [Pi.single_eq_same, Multiset.mem_singleton] at hs
    cases hs
  · cases x with
    | packet q =>
        cases q with
        | operation op bResult data =>
            obtain ⟨-, hrun⟩ := Option.ite_none_right_eq_some.mp hrun
            cases hrun
            have hsame : Same σ (σ.take t op) := same_core rfl
            exact hsame.staged hinv
        | shutdown =>
            obtain ⟨hpos, hrun⟩ := Option.ite_none_right_eq_some.mp hrun
            cases hrun
            refine hinv.update hF ⟨fun _ _ => .rfl, fun u hu => ?_, fun _ _ => rfl, rfl, rfl,
              fun _ => ⟨rfl, rfl, rfl, fun _ h => h⟩⟩
              (.busy (.round true) rfl ⟨hloops, hlock, hexited, ?_⟩) ?_
            · rw [List.mem_cons, or_iff_right hu]
            · exact iff_of_true List.mem_cons_self rfl
            · have hall := hinv.all
              have hcount := hall.packets
              refine { hall with
                packets := ?_
                nodup := List.nodup_cons.mpr ⟨hnot, hall.nodup⟩
                workers := List.forall_mem_cons.mpr ⟨ht, hall.workers⟩ }
              show σ.packets - 1 + (σ.woken.length + 1) = σ.posted
              omega
    | core _ | wait _ | ok | fail => cases hrun

theorem Loops.ne_zero (h : Loops workers started t) : t ≠ 0 := by
  rcases h with rfl | ht
  · exact Nat.one_ne_zero
  · exact Nat.ne_of_gt (Nat.lt_of_lt_of_le Nat.two_pos ht.1)

theorem does_exits {woken : Bool} :
    Does (phases workers started cls) t e .exits (Pi.single t {.round woken}) fun _ R => R = 0 := by
  intro σ F hinv
  obtain ⟨hF, hp⟩ := hinv.own
  have hbefore := before_of (e := e) (c := .exits) hp trivial nofun nofun nofun
  obtain ⟨hloops, hlock, hexited, hwoken⟩ := hp
  have hzero := hloops.ne_zero
  refine ⟨hbefore, fun x τ v _ hrun => ⟨0, ?_, rfl⟩⟩
  cases x with
  | ok =>
      cases hrun
      rw [← Pi.single_zero t]
      have hmono : ∀ u, σ.exited u = true → Function.update σ.exited t true u = true := by
        intro u hu
        by_cases hut : u = t
        · rw [hut, Function.update_self]
        · rw [Function.update_of_ne hut, hu]
      refine hinv.update hF ⟨fun _ _ => .rfl, fun _ _ => .rfl,
        fun u hu => Function.update_of_ne hu _ _, rfl, rfl, fun _ => ⟨rfl, rfl, rfl, hmono⟩⟩
        (.idle rfl ⟨hlock, fun _ => Function.update_self .., fun h => absurd h hzero⟩)
        { hinv.all with gone := fun hcleared u hu => hmono u (hinv.all.gone hcleared u hu) }
  | core _ | wait _ | packet _ | fail => cases hrun

/-! `ConnectTimeOutCheck` stays in `m_struCriSec`. -/

theorem does_enter :
    Does (phases workers started cls) t .TimerProc (.core .EnterCriticalSection)
      (Pi.single t {.call false}) fun _ R => R = Pi.single t {.call true} := by
  intro σ F hinv
  obtain ⟨hF, hp⟩ := hinv.own
  refine ⟨before_of hp ⟨rfl, not_pastMap_timer nofun⟩ (fun _ => rfl) nofun nofun,
    fun x τ v _ hrun => ⟨_, ?_, rfl⟩⟩
  obtain ⟨x', core, hcore, rfl⟩ := exec_core hrun
  rw [State.use_of hinv.all (hp.uncleared hinv.all rfl)]
  cases x' with
  | ok =>
      obtain ⟨hfree, hcore⟩ := Option.ite_none_right_eq_some.mp hcore
      cases hcore
      refine hinv.update hF ⟨fun u hu => ?_, fun _ _ => .rfl, fun _ _ => rfl, rfl, rfl,
        fun _ => ⟨rfl, rfl, rfl, fun _ h => h⟩⟩ (.busy (.call true) rfl ⟨hp.1, ?_, hp.2.2⟩)
        { hinv.all with }
      · rw [hfree]
        exact iff_of_false (fun h => hu (Option.some.inj h).symm) nofun
      · exact iff_of_true rfl rfl
  | fail | handle _ => cases hcore

theorem State.Global.not_woken (h : σ.Global workers started) (ht : workers + 2 ≤ t) :
    t ∉ σ.woken := fun hw => absurd (h.workers t hw).2.1 (Nat.not_lt.mpr ht)

theorem does_leave :
    Does (phases workers started cls) t e (.core .LeaveCriticalSection)
      (Pi.single t {.leaving}) fun _ R => R = 0 := by
  intro σ F hinv
  obtain ⟨hF, hp⟩ := hinv.own
  refine ⟨before_of hp trivial ?_ nofun nofun, fun x τ v _ hrun => ⟨0, ?_, rfl⟩⟩
  · rintro (h | h)
    · cases h
    · exact h.elim
  obtain ⟨x', core, hcore, rfl⟩ := exec_core hrun
  obtain ⟨hle, hlock⟩ := hp
  cases x' with
  | ok =>
      cases hcore
      rw [← Pi.single_zero t]
      refine hinv.update hF ⟨fun u hu => ?_, fun _ _ => .rfl, fun _ _ => rfl, rfl, rfl,
        fun _ => ⟨rfl, rfl, rfl, fun _ h => h⟩⟩ (.idle rfl ⟨nofun, fun hw => ?_, fun hzero => ?_⟩)
        { hinv.all with }
      · rw [hlock]
        exact iff_of_false nofun fun h => hu (Option.some.inj h).symm
      · exact absurd hw (hinv.all.not_woken hle)
      · exact absurd (hzero ▸ hle) (Nat.not_succ_le_zero (workers + 1))
  | fail | handle _ => cases hcore

/-! `StopServer`. -/

variable {s : Progress}

theorem does_setRunning {b : Bool} :
    Does (phases workers started cls) t e (.setRunning b) (Pi.single t {.stop s}) fun _ R =>
      R = Pi.single t {.stop { s with flag := b }} := by
  intro σ F hinv
  obtain ⟨hF, hp⟩ := hinv.own
  refine ⟨before_of hp trivial nofun nofun nofun, fun x τ v _ hrun => ⟨_, ?_, rfl⟩⟩
  obtain ⟨rfl, hlock, hstop, hrunning, hposted, hcleared, hjoined⟩ := hp
  cases x with
  | ok =>
      cases hrun
      exact hinv.update hF ⟨fun _ _ => .rfl, fun _ _ => .rfl, fun _ _ => rfl, rfl, rfl,
        fun h => absurd rfl h⟩
        (.busy (.stop { s with flag := b }) rfl
          ⟨rfl, hlock, hstop, rfl, hposted, hcleared, hjoined⟩) { hinv.all with }
  | core _ | wait _ | packet _ | fail => cases hrun

/-- `WaitForSingleObject` comes back when the thread has returned. -/
theorem does_wait {u : Nat} (hflag : s.flag = false)
    (hu : u = 1 ∨ IsWorker workers started u ∧ s.posted = workers) :
    Does (phases workers started cls) t e (.WaitForSingleObject u) (Pi.single t {.stop s})
      fun _ R => R = Pi.single t {.stop { s with joined := u :: s.joined }} := by
  intro σ F hinv
  obtain ⟨hF, hp⟩ := hinv.own
  obtain ⟨rfl, hlock, hstop, hrunning, hposted, hcleared, hjoined⟩ := hp
  refine ⟨⟨fun v hv => ?_, ?_, fun hs => ?_, fun _ => hlock, nofun, ?_⟩,
    fun x τ v _ hrun => ⟨_, ?_, rfl⟩⟩
  · by_contra hne
    exact hv (Pi.single_eq_of_ne hne _)
  · rintro ⟨locked, hl⟩
    rw [Pi.single_eq_same, Multiset.mem_singleton] at hl
    cases hl
  · rw [Pi.single_eq_same, Multiset.mem_singleton] at hs
    cases hs
  · intro w hw
    cases hw
    exact ⟨rfl, hrunning.trans hflag, hu.imp_right fun h => ⟨h.1, hposted.trans h.2⟩⟩
  · cases x with
    | ok =>
        obtain ⟨hexited, hrun⟩ := Option.ite_none_right_eq_some.mp hrun
        cases hrun
        exact hinv.update hF ⟨fun _ _ => .rfl, fun _ _ => .rfl, fun _ _ => rfl, rfl,
          rfl, fun h => absurd rfl h⟩
          (.busy (.stop { s with joined := u :: s.joined }) rfl ⟨rfl, hlock, hstop, hrunning,
            hposted, hcleared, List.forall_mem_cons.mpr ⟨hexited, hjoined⟩⟩) hinv.all
    | core _ | wait _ | packet _ | fail => cases hrun

theorem does_post :
    Does (phases workers started cls) t e .PostQueuedCompletionStatus (Pi.single t {.stop s})
      fun _ R => R = Pi.single t {.stop { s with posted := s.posted + 1 }} := by
  intro σ F hinv
  obtain ⟨hF, hp⟩ := hinv.own
  refine ⟨before_of hp trivial nofun nofun nofun, fun x τ v hok hrun => ⟨_, ?_, rfl⟩⟩
  obtain ⟨rfl, hlock, hstop, hrunning, hposted, hcleared, hjoined⟩ := hp
  obtain rfl : x = .ok := hok.1 rfl
  cases hrun
  have hcount := hinv.all.packets
  refine hinv.update hF ⟨fun _ _ => .rfl, fun _ _ => .rfl, fun _ _ => rfl, rfl,
    rfl, fun h => absurd rfl h⟩
    (.busy (.stop { s with posted := s.posted + 1 }) rfl
      ⟨rfl, hlock, hstop, hrunning, congrArg Nat.succ hposted, hcleared, hjoined⟩)
    { hinv.all with packets := ?_ }
  show σ.packets + 1 + σ.woken.length = σ.posted + 1
  omega

/-- The map is cleared when all loops have ended and no call is under way. -/
theorem does_clear (hall : ∀ u, Loops workers started u → u ∈ s.joined) :
    Does (phases workers started cls) t e .clear (Pi.single t {.stop s})
      fun _ R => R = Pi.single t {.stop { s with cleared := true }} := by
  intro σ F hinv
  obtain ⟨hF, hp⟩ := hinv.own
  refine ⟨before_of hp trivial nofun nofun nofun, fun x τ v hok hrun => ⟨_, ?_, rfl⟩⟩
  obtain ⟨rfl, hlock, hstop, hrunning, hposted, hcleared, hjoined⟩ := hp
  have hcalls := hok.2.1 rfl
  cases x with
  | ok =>
      cases hrun
      refine ⟨fun u => ?_, { hinv.all with
        gone := fun _ v hv => hjoined v (hall v hv)
        destroyed := fun _ _ => rfl }⟩
      by_cases hu : u = 0
      · subst hu
        rw [Pi.add_apply, Pi.single_eq_same, hF, add_zero]
        exact .busy (.stop { s with cleared := true }) rfl
          ⟨rfl, hlock, hstop, hrunning, hposted, rfl, hjoined⟩
      · have hst := hinv.stage u
        have hcalls := hcalls u
        rw [Pi.add_apply, Pi.single_eq_of_ne hu, zero_add] at hst hcalls ⊢
        cases hst with
        | idle hH hi => exact .idle hH ⟨hi.lock, hi.woken, fun h => absurd h hu⟩
        | busy q hH hq =>
            refine .busy q hH ?_
            cases q with
            | init => exact absurd hq.1 hu
            | stop _ => exact absurd hq.1 hu
            | round _ | leaving | sending => exact hq
            | call locked => exact absurd (hH ▸ Multiset.mem_singleton_self _) (hcalls locked)
  | core _ | wait _ | packet _ | fail => cases hrun

/-- A pool is destroyed: no context in flight is deleted, and nobody sends any more when it
is the pool of the sends. -/
theorem does_destroy {k : Kind} (hdone : s.cleared = true) :
    Does (phases workers started cls) t e (.DestroyContextPool k) (Pi.single t {.stop s})
      fun _ R => R = Pi.single t {.stop s} := by
  intro σ F hinv
  obtain ⟨hF, hp⟩ := hinv.own
  refine ⟨before_of hp trivial nofun nofun nofun, fun x τ v hok hrun => ⟨_, ?_, rfl⟩⟩
  obtain ⟨hkept, hsends⟩ := hok.2.2 k rfl
  obtain ⟨rfl, hlock, hstop, hrunning, hposted, hcleared, hjoined⟩ := hp
  cases x with
  | ok =>
      cases hrun
      refine ⟨fun u => ?_, { hinv.all with
        early := hkept.early.trans hinv.all.early
        destroyed := fun _ _ => hcleared.trans hdone }⟩
      by_cases hu : u = 0
      · subst hu
        rw [Pi.add_apply, Pi.single_eq_same, hF, add_zero]
        exact .busy (.stop s) rfl ⟨rfl, hlock, hstop, hrunning, hposted, hcleared, hjoined⟩
      · have hst := hinv.stage u
        have hsends := fun hk => hsends hk u
        rw [Pi.add_apply, Pi.single_eq_of_ne hu, zero_add] at hst hsends ⊢
        cases hst with
        | idle hH hi => exact .idle hH ⟨hi.lock, hi.woken, hi.stop⟩
        | busy q hH hq =>
            refine .busy q hH ?_
            cases q with
            | init => exact absurd hq.1 hu
            | stop _ => exact absurd hq.1 hu
            | round _ | call _ | leaving => exact hq
            | sending =>
                have hk : .send ≠ k := by
                  rintro rfl
                  exact hsends rfl (hH ▸ Multiset.mem_singleton_self _)
                exact ⟨hq.1, hq.2.1, (Function.update_of_ne hk _ _).trans hq.2.2⟩
  | core _ | wait _ | packet _ | fail => cases hrun

theorem does_plain {c : Cmd} (hc : c = .ioctlsocket ∨ c = .closeListenSocket ∨ c = .timeKillEvent
    ∨ c = .sockets ∨ ∃ h, c = .core (.closesocket h)) :
    Does (phases workers started cls) t e c (Pi.single t {.stop s}) fun _ R =>
      R = Pi.single t {.stop s} := by
  have hplain : ¬ Blocks c ∧ c ≠ .GetQueuedCompletionStatus ∧ ∀ u, c ≠ .WaitForSingleObject u := by
    rcases hc with rfl | rfl | rfl | rfl | ⟨h, rfl⟩ <;> exact ⟨nofun, nofun, nofun⟩
  refine Does.mono (does_same (P := fun _ => True) trivial (fun hb => absurd hb hplain.1)
    hplain.2.1 hplain.2.2 fun σ x τ v _ _ hrun => ⟨?_, trivial⟩) fun _ _ hR => hR.2
  rcases hc with rfl | rfl | rfl | rfl | ⟨h, rfl⟩
  rotate_left 4
  · obtain ⟨x', core, hcore, rfl⟩ := exec_core hrun
    exact same_core (exec_lock (c := .closesocket h) trivial hcore)
  all_goals
    cases x with
    | ok =>
        cases hrun
        exact ⟨rfl, rfl, rfl, rfl, rfl, rfl, rfl, rfl, rfl, rfl, rfl⟩
    | core _ | wait _ | packet _ | fail => cases hrun

/-! ## The programs -/

/-- A thread outside `m_struCriSec` that has taken no packet without a context may be
idle. -/
theorem Phase.Holds.idle (h : p.Holds workers started σ t) (hall : σ.Global workers started)
    (hlock : p.inside = false) (hround : p ≠ .round true) : σ.Idle t where
  lock := h.unlocked hlock
  woken hw := by
    have hle := (hall.workers t hw).1
    exfalso
    cases p with
    | init => exact Nat.not_succ_le_zero 1 (h.1 ▸ hle)
    | stop s => exact Nat.not_succ_le_zero 1 (h.1 ▸ hle)
    | round woken =>
        have hwoken : woken = true := h.2.2.2.mp hw
        exact hround (congrArg Phase.round hwoken)
    | call locked | leaving | sending => exact hall.not_woken h.1 hw
  stop hzero hstop := by
    cases p with
    | init => exact h.2.2.2
    | stop s => exact absurd (hstop.symm.trans h.2.2.1) nofun
    | round woken => exact absurd hzero h.1.ne_zero
    | call locked | leaving | sending =>
        exact absurd (hzero ▸ h.1) (Nat.not_succ_le_zero (workers + 1))

theorem State.Staged.rephase {q : Phase} (h : σ.Staged workers started (Pi.single t {p} + F))
    (hq : q.Holds workers started σ t) : σ.Staged workers started (Pi.single t {q} + F) :=
  h.update h.own.1 (.refl σ t) (.busy q rfl hq) h.all

theorem State.Staged.drop (h : σ.Staged workers started (Pi.single t {p} + F))
    (hlock : p.inside = false) (hround : p ≠ .round true) : σ.Staged workers started (0 + F) := by
  obtain ⟨hF, hp⟩ := h.own
  rw [← Pi.single_zero t]
  exact h.update hF (.refl σ t) (.idle rfl (hp.idle h.all hlock hround)) h.all

theorem wp_idle {prog : Program Unit} {R : Nat → Multiset Phase} (hlock : p.inside = false)
    (hround : p ≠ .round true) (hnext : prog.next ≠ none)
    (h : wp (phases workers started cls) t e prog
      (fun _ R => R = 0 ∨ R = Pi.single t {p}) R) :
    wp (phases workers started cls) t e prog (fun _ R => R = 0) R := by
  refine wp_drop h (fun _ R hR => ⟨0, rfl, fun σ F hinv => ?_⟩) hnext
  rcases hR with rfl | rfl
  · exact hinv
  · exact hinv.drop hlock hround

theorem wp_workThread (ht : IsWorker workers started t) :
    wp (phases workers started cls) t e (WorkThread cls)
      (fun _ R => R = 0 ∨ R = Pi.single t {.round false}) (Pi.single t {.round false}) := by
  refine wp_call (does_running trivial) ?_
  rintro (running : Bool) _ ⟨-, rfl⟩
  cases running with
  | false => exact wp_perform (Does.mono does_exits fun _ _ hR => .inl hR)
  | true =>
      refine wp_call (does_packet ht) ?_
      rintro (_ | _) _ rfl
      · exact wp_mono (wp_plain rfl nofun rfl plain_workThread) fun _ _ hR => .inr hR
      · refine wp_call (does_debugPrintf trivial rfl) ?_
        rintro _ _ rfl
        exact wp_perform (Does.mono does_exits fun _ _ hR => .inl hR)

theorem wp_listenThread :
    wp (phases workers started cls) t e ListenThread
      (fun _ R => R = 0 ∨ R = Pi.single t {.round false}) (Pi.single t {.round false}) := by
  refine wp_call (does_running trivial) ?_
  rintro (running : Bool) _ ⟨-, rfl⟩
  cases running with
  | false => exact wp_perform (Does.mono does_exits fun _ _ hR => .inl hR)
  | true =>
      refine wp_call does_wsaWait ?_
      rintro rc _ rfl
      refine wp_call (does_running trivial) ?_
      rintro (running : Bool) _ ⟨-, rfl⟩
      cases running with
      | false => exact wp_perform (Does.mono does_exits fun _ _ hR => .inl hR)
      | true =>
          cases rc with
          | WSA_WAIT_FAILED =>
              exact wp_perform (Does.mono (does_debugPrintf trivial rfl) fun _ _ hR => .inr hR)
          | WSA_WAIT_TIMEOUT => exact wp_ret (.inr rfl)
          | FD_ACCEPT | semaphore =>
              exact wp_after (wp_plain rfl nofun rfl (plain_postAccept _))
                fun _ _ hR => wp_ret (.inr hR)

theorem lift_bind {α β : Type} (prog : TcpServer.Program α) (f : α → TcpServer.Program β) :
    lift (prog >>= f) = lift prog >>= fun a => lift (f a) := by
  induction prog with
  | ret a => rfl
  | call c k ih => exact congrArg (Prog.call (Cmd.core c)) (funext ih)

/-- `EnterCriticalSection` and the loop of `ConnectTimeOutCheck`. -/
def enterAndSweep : Program Unit := do
  let sockets ← perform (.core .EnterCriticalSection)
  lift (sweep sockets)

theorem lift_connectTimeOutCheck : lift ConnectTimeOutCheck = (do
    enterAndSweep
    perform (.core .LeaveCriticalSection)) := by
  refine congrArg (Prog.call (Cmd.core .EnterCriticalSection)) (funext fun sockets => ?_)
  exact lift_bind (sweep sockets) fun _ => TcpServer.perform .LeaveCriticalSection

theorem wp_enterAndSweep :
    wp (phases workers started cls) t .TimerProc enterAndSweep
      (fun _ R => R = Pi.single t {.leaving}) (Pi.single t {.call false}) := by
  have hsweep : wp (phases workers started cls) t .TimerProc enterAndSweep
      (fun _ R => R = Pi.single t {.call true}) (Pi.single t {.call false}) := by
    refine wp_call does_enter ?_
    rintro (sockets : List SOCKET) _ rfl
    exact wp_lift rfl (fun _ _ => rfl) ((bare_sweep sockets).mono fun _ hc =>
      ⟨hc.1, fun hl => absurd hl hc.2⟩)
  refine wp_drop hsweep (fun _ R hR => ⟨_, rfl, fun σ F hinv => ?_⟩) nofun
  subst hR
  obtain ⟨hle, hlock, -⟩ := hinv.own.2
  exact hinv.rephase (q := .leaving) ⟨hle, hlock.mpr rfl⟩

theorem wp_timerProc :
    wp (phases workers started cls) t .TimerProc TimerProc (fun _ R => R = 0)
      (Pi.single t {.call false}) := by
  have hcount : ∀ {c : Cmd}, ((∃ k, c = .GetContextCounter k) ∨
      (∃ k, c = .GetIdleContextCounter k) ∨ c = .size) →
      Does (phases workers started cls) t .TimerProc c (Pi.single t {.call false}) fun _ R =>
        R = Pi.single t {.call false} := by
    intro c hc
    refine does_count rfl ⟨rfl, not_pastMap_timer ?_⟩ hc
    rcases hc with ⟨k, rfl⟩ | ⟨k, rfl⟩ | rfl <;> exact nofun
  rw [TimerProc, lift_connectTimeOutCheck]
  -- the pools of the receives, of the accepts and of the sends
  iterate 3
    refine wp_call (hcount (.inl ⟨_, rfl⟩)) ?_
    rintro _ _ rfl
    refine wp_call (hcount (.inr (.inl ⟨_, rfl⟩))) ?_
    rintro _ _ rfl
  refine wp_call (hcount (.inr (.inr rfl))) ?_
  rintro _ _ rfl
  refine wp_call (does_debugPrintf ⟨rfl, not_pastMap_timer nofun⟩ rfl) ?_
  rintro _ _ rfl
  refine wp_after wp_enterAndSweep ?_
  rintro _ _ rfl
  exact wp_perform does_leave

/-- A call from outside: the look-up, and then the sends. -/
theorem wp_call_outside {prog : Program Unit} {sock : SOCKET} {k : Bool → Program Unit}
    (he : e.isSend = true) (hprog : prog = .call (.core (.find sock)) k)
    (hall : ∀ valid, wp (phases workers started cls) t e (k valid)
      (fun _ R => R = Pi.single t {.sending}) (Pi.single t {.sending})) :
    wp (phases workers started cls) t e prog (fun _ R => R = 0) (Pi.single t {.call false}) := by
  have hcall : e.isCall = true := by
    cases e with
    | SendData | SendFile => rfl
    | _ => cases he
  have hfind : Does (phases workers started cls) t e (.core (.find sock))
      (Pi.single t {.call false}) fun _ R => R = Pi.single t {.call false} :=
    does_core rfl ⟨hcall, id⟩ trivial fun _ => rfl
  have hpass := wp_drop (wp_perform hfind) (fun _ R hR =>
    ⟨Pi.single t {.sending}, rfl, fun σ F hinv => by
      subst hR
      obtain ⟨hle, -, hcleared⟩ := hinv.own.2
      refine hinv.rephase (q := .sending) ⟨hle, hinv.own.2.unlocked rfl, ?_⟩
      exact hinv.all.present hcleared .send⟩) nofun
  subst hprog
  refine wp_idle (p := .sending) rfl nofun nofun ?_
  refine wp_mono (wp_call hpass fun valid R hR => ?_) fun _ _ hR => .inr hR
  subst hR
  exact hall valid

/-! `StopServer`, part by part. -/

theorem wp_wakeWorkers (n : Nat) : wp (phases workers started cls) t e (wakeWorkers n)
    (fun _ R => R = Pi.single t {.stop { s with posted := s.posted + n }})
    (Pi.single t {.stop s}) := by
  induction n generalizing s with
  | zero => exact wp_ret rfl
  | succ n ih =>
      refine wp_call does_post ?_
      rintro _ _ rfl
      refine wp_mono ih fun _ _ hR => ?_
      rw [hR, Nat.add_right_comm]
      rfl

theorem wp_waitFor {ts : List Nat} (hflag : s.flag = false)
    (hts : ∀ u ∈ ts, u = 1 ∨ IsWorker workers started u ∧ s.posted = workers) :
    wp (phases workers started cls) t e (waitFor ts)
      (fun _ R => R = Pi.single t {.stop { s with joined := ts.reverse ++ s.joined }})
      (Pi.single t {.stop s}) := by
  induction ts generalizing s with
  | nil => exact wp_ret rfl
  | cons u ts ih =>
      obtain ⟨hu, hrest⟩ := List.forall_mem_cons.mp hts
      refine wp_call (does_wait hflag hu) ?_
      rintro _ _ rfl
      refine wp_mono (ih hflag hrest) fun _ _ hR => ?_
      rw [hR, List.reverse_cons, List.append_assoc]
      rfl

theorem wp_closeSockets (sockets : List SOCKET) :
    wp (phases workers started cls) t e (closeSockets sockets)
      (fun _ R => R = Pi.single t {.stop s}) (Pi.single t {.stop s}) := by
  induction sockets with
  | nil => exact wp_ret rfl
  | cons h sockets ih =>
      refine wp_call (does_plain (.inr (.inr (.inr (.inr ⟨h, rfl⟩))))) ?_
      rintro _ _ rfl
      exact ih

theorem wp_releaseResource (hall : ∀ u, Loops workers started u → u ∈ s.joined) :
    wp (phases workers started cls) t e ReleaseResource
      (fun _ R => R = Pi.single t {.stop { s with cleared := true }}) (Pi.single t {.stop s}) := by
  refine wp_call (does_plain (.inr (.inl rfl))) ?_
  rintro _ _ rfl
  refine wp_call (does_plain (.inr (.inr (.inr (.inl rfl))))) ?_
  rintro sockets _ rfl
  refine wp_after (wp_closeSockets sockets) ?_
  rintro _ _ rfl
  refine wp_call (does_clear hall) ?_
  rintro _ _ rfl
  refine wp_call (does_plain (.inr (.inr (.inl rfl)))) ?_
  rintro _ _ rfl
  refine wp_call (does_destroy rfl) ?_
  rintro _ _ rfl
  refine wp_call (does_destroy rfl) ?_
  rintro _ _ rfl
  exact wp_perform (does_destroy rfl)

theorem mem_handles {u : Nat} : u ∈ handles workers started ↔ IsWorker workers started u := by
  simp only [handles, List.mem_filter, List.mem_range'_1, IsWorker, Nat.add_comm, and_assoc]

/-- What `StopServer` knows when it returns. -/
def stopped (workers : Nat) (started : Nat → Bool) : Progress :=
  ⟨false, workers, (handles workers started).reverse ++ [1], true⟩

theorem wp_stopServer : wp (phases workers started cls) t e (StopServer workers started)
    (fun _ R => R = 0 ∨ R = Pi.single t {.stop (stopped workers started)})
    (Pi.single t {.stop ⟨true, 0, [], false⟩}) := by
  refine wp_call (does_running trivial) ?_
  rintro (running : Bool) _ ⟨hflag, rfl⟩
  obtain rfl : running = true := hflag _ rfl
  refine wp_call (does_plain (.inl rfl)) ?_
  rintro _ _ rfl
  refine wp_call does_setRunning ?_
  rintro _ _ rfl
  refine wp_call (does_wait rfl (.inl rfl)) ?_
  rintro _ _ rfl
  refine wp_after (wp_wakeWorkers workers) ?_
  rintro _ _ rfl
  refine wp_after (wp_waitFor rfl fun u hu => .inr ⟨mem_handles.mp hu, Nat.zero_add workers⟩) ?_
  rintro _ _ rfl
  refine wp_mono (wp_releaseResource fun u hu => ?_) fun _ _ hR => .inr ?_
  · refine List.mem_append.mpr ?_
    rcases hu with rfl | hu
    · exact .inr List.mem_cons_self
    · exact .inl (List.mem_reverse.mpr (mem_handles.mpr hu))
  · rw [hR, Nat.zero_add]
    rfl

/-! ## Runs -/

theorem State.Staged.idle (h : σ.Staged workers started F) (hF : F t = 0) : σ.Idle t := by
  cases h.stage t with
  | idle _ hi => exact hi
  | busy p hH _ => exact absurd (hF.symm.trans hH) (Multiset.singleton_ne_zero p).symm

theorem State.Staged.enter (h : σ.Staged workers started F) (hF : F t = 0)
    (hframe : Frame σ τ t) (hp : p.Holds workers started τ t) (hall : τ.Global workers started) :
    τ.Staged workers started (Pi.single t {p} + F) := by
  refine State.Staged.update (σ := σ) (H := 0) ?_ hF hframe (.busy p rfl hp) hall
  rwa [Pi.single_zero, zero_add]

theorem staged_start (hs : SOCKET) : (start hs).Staged workers started 0 where
  stage _ := .idle rfl ⟨nofun, nofun, fun _ _ => ⟨rfl, rfl, rfl⟩⟩
  all := {
    misused := rfl
    early := rfl
    gone := nofun
    destroyed := nofun
    packets := rfl
    nodup := .nil
    workers := nofun }

theorem staged_spawn {prog : Program Unit} (h : σ.Staged workers started F) (hF : F t = 0)
    (hcall : e.isCall = true → σ.cleared = false)
    (hspawn : spawn cls workers started t e σ = some (τ, prog)) :
    ∃ R, τ.Staged workers started (R + F) ∧
      wp (phases workers started cls) t e prog (fun _ R => R = 0) R := by
  have hi := h.idle hF
  have hunwoken : σ.exited t = false → (t ∈ σ.woken ↔ false = true) := fun hexited =>
    iff_of_false (fun hw => Bool.false_ne_true (hexited.symm.trans (hi.woken hw))) nofun
  have hsame := Frame.refl σ t
  cases e with
  | InitServer =>
      obtain ⟨⟨rfl, -, hstop⟩, hbegin⟩ := Option.ite_none_right_eq_some.mp hspawn
      cases hbegin
      refine ⟨Pi.single 0 {.init}, h.enter (p := .init) hF ?_ ?_ ?_,
        wp_idle (p := .init) rfl nofun nofun ?_⟩
      · exact ⟨fun _ _ => .rfl, fun _ _ => .rfl, fun _ _ => rfl, rfl, rfl, fun h => absurd rfl h⟩
      · exact ⟨rfl, hi.lock, hstop, hi.stop rfl hstop⟩
      · exact { h.all with }
      · exact wp_after (wp_plain rfl nofun rfl (plain_postAccept _)) fun _ _ hR =>
          wp_ret (.inr hR)
  | StopServer =>
      obtain ⟨⟨rfl, -, hstop⟩, hbegin⟩ := Option.ite_none_right_eq_some.mp hspawn
      cases hbegin
      obtain ⟨hrunning, hposted, hcleared⟩ := hi.stop rfl hstop
      refine ⟨Pi.single 0 {.stop ⟨true, 0, [], false⟩},
        h.enter (p := .stop ⟨true, 0, [], false⟩) hF ?_ ?_ ?_,
        wp_idle (p := .stop (stopped workers started)) rfl nofun nofun wp_stopServer⟩
      · exact ⟨fun _ _ => .rfl, fun _ _ => .rfl, fun _ _ => rfl, rfl, rfl, fun h => absurd rfl h⟩
      · exact ⟨rfl, hi.lock, rfl, hrunning, hposted, hcleared, nofun⟩
      · exact { h.all with }
  | ListenThread =>
      obtain ⟨⟨rfl, hexited⟩, hbegin⟩ := Option.ite_none_right_eq_some.mp hspawn
      cases hbegin
      exact ⟨Pi.single 1 {.round false}, h.enter (p := .round false) hF hsame
        ⟨.inl rfl, hi.lock, hexited, hunwoken hexited⟩ h.all,
        wp_idle (p := .round false) rfl nofun nofun wp_listenThread⟩
  | WorkThread =>
      obtain ⟨⟨ht, hexited⟩, hbegin⟩ := Option.ite_none_right_eq_some.mp hspawn
      cases hbegin
      exact ⟨Pi.single t {.round false}, h.enter (p := .round false) hF hsame
        ⟨.inr ht, hi.lock, hexited, hunwoken hexited⟩ h.all,
        wp_idle (p := .round false) rfl nofun nofun (wp_workThread ht)⟩
  | TimerProc =>
      obtain ⟨⟨ht, -⟩, hbegin⟩ := Option.ite_none_right_eq_some.mp hspawn
      cases hbegin
      exact ⟨Pi.single t {.call false}, h.enter (p := .call false) hF hsame
        ⟨ht, iff_of_false hi.lock nofun, hcall rfl⟩ h.all,
        wp_timerProc⟩
  | SendData sock pVoid =>
      obtain ⟨ht, hbegin⟩ := Option.ite_none_right_eq_some.mp hspawn
      cases hbegin
      refine ⟨Pi.single t {.call false}, h.enter (p := .call false) hF hsame
        ⟨ht, iff_of_false hi.lock nofun, hcall rfl⟩ h.all,
        ?_⟩
      obtain ⟨k, hk, hsend⟩ := sending_sendData sock pVoid
      refine wp_call_outside rfl (congrArg (fun p => lift p >>= fun _ => pure ()) hk)
        fun valid => ?_
      exact wp_after (wp_sending rfl (hsend valid)) fun _ _ hR => wp_ret hR
  | SendFile sock =>
      obtain ⟨ht, hbegin⟩ := Option.ite_none_right_eq_some.mp hspawn
      cases hbegin
      refine ⟨Pi.single t {.call false}, h.enter (p := .call false) hF hsame
        ⟨ht, iff_of_false hi.lock nofun, hcall rfl⟩ h.all,
        ?_⟩
      obtain ⟨k, hk, hsend⟩ := sending_sendFile sock
      exact wp_call_outside rfl (congrArg lift hk) fun valid => wp_sending rfl (hsend valid)

variable {m m' : Machine} {rs : List (Nat → Multiset Phase)}

/-- Who has a phase of thread `t` is thread `t` itself, before a command. -/
theorem owner_of (h : (phases workers started cls).Good m rs) (hp : p ∈ rs.sum t) :
    ∃ e c R, m.event t = some e ∧ m.next t = some c ∧ p ∈ R t
      ∧ Before workers started t e c m.shared R := by
  obtain ⟨u, -, e, c, R, he, hc, hR, hbefore⟩ := h.owner (P := fun R => p ∈ R t)
    (Multiset.notMem_zero p) (fun R R' hm => Multiset.mem_add.mp hm) hp
  have hne : R t ≠ 0 := fun hz => Multiset.notMem_zero p (hz ▸ hR)
  obtain rfl := hbefore.own t hne
  exact ⟨e, c, R, he, hc, hR, hbefore⟩

theorem idle_of (h : (phases workers started cls).Good m rs) (ht : m.threads[t]? = some none) :
    rs.sum t = 0 := by
  refine Multiset.eq_zero_of_forall_notMem fun p hp => ?_
  obtain ⟨e, c, R, he, -⟩ := owner_of h hp
  simp [Machine.event, ht] at he

theorem lt_of_event (h : m.event t = some e) : t < m.threads.length := by
  obtain ⟨o, ho, -⟩ := Option.bind_eq_some_iff.mp h
  exact (List.getElem?_eq_some_iff.mp ho).1

theorem ok_of_orderly {c : Cmd} {x : Choice} (h : (phases workers started cls).Good m rs)
    (hcond : Orderly m (.run t x)) (hc : m.next t = some c) : ok c m.shared rs.sum x := by
  have hallowed : Allowed m x c := hcond c hc
  refine ⟨?_, ?_, ?_⟩
  · rintro rfl
    exact hallowed
  · rintro rfl u locked hu
    obtain ⟨e, c, R, he, hc, hR, hbefore⟩ := owner_of h hu
    obtain ⟨hcall, hpast⟩ := hbefore.call ⟨locked, hR⟩
    exact hpast (hallowed u (lt_of_event he) e he c hc hcall)
  · rintro k rfl
    refine ⟨hallowed.1, fun hk u hu => ?_⟩
    obtain ⟨e, c, R, he, hc, hR, hbefore⟩ := owner_of h hu
    exact absurd ((hallowed.2 hk u (lt_of_event he) e he (hbefore.sending hR)).symm.trans hc) nofun

theorem good_run {hs : SOCKET} {threads : Nat}
    (h : Via (system cls workers started).step Orderly (idle hs threads) m) :
    ∃ rs, (phases workers started cls).Good m rs := by
  refine h.invariant (P := fun m => ∃ rs, (phases workers started cls).Good m rs)
    ⟨_, (phases workers started cls).good_start (staged_start hs)⟩ ?_
  rintro m a m' ⟨rs, hgood⟩ hcond hstep
  refine hgood.step ?_ ?_ hstep
  · rintro t x e c rfl he hc
    exact ok_of_orderly hgood hcond hc
  · rintro t e σ prog rfl hspawn
    obtain ⟨hidle, -⟩ := step_begin hstep
    exact staged_spawn hgood.inv (idle_of hgood hidle) hcond hspawn

theorem safe_run {hs : SOCKET} {threads : Nat}
    (h : Via (system cls workers started).step Orderly (idle hs threads) m) : Safe m := by
  obtain ⟨rs, hgood⟩ := good_run h
  exact ⟨hgood.inv.all.misused, hgood.inv.all.early⟩

end

end CppWorkspace.TcpServer.Shutdown
