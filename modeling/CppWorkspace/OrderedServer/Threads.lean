/-
# `CppWorkspace.OrderedServer.Threads` — `iocpserver.cpp`, command by command

`CppWorkspace.OrderedServer.Socket` takes a call of `HandleIo` as one step.  Here the
functions are programs over the commands of `Cmd`; one command is atomic, and the commands
of the threads come in any order that `SockCritSec` allows:

    opened       a round of the loop of `main` over the local addresses, after `bind` and
                 `listen`, thread `0`
    completion   a call of `HandleIo`, any other thread, for an operation in flight

A post that is accepted puts the operation in flight, so that its completion may be handled
before the posting thread goes on and counts it.

An object is named by its number, and is as `GetSocketObj` makes it until it is used; every
completion has the number of a new object, which only an accept uses.  Buffers are numbered,
too; `no` is the number of one that waits.  `issued`, `counted`, `delivered` and `finished`
are not in the source: the operations that were accepted on an object, the increments of its
`OutstandingOps`, the calls of `HandleIo`, and the decrements.  The bytes, the addresses and
the statistics are left out.
-/
import CppWorkspace.Lib.Stages
import CppWorkspace.OrderedServer.Socket
import Mathlib.Logic.Function.Basic

namespace CppWorkspace.OrderedServer.Threads

open Programs Runs

/-- The operations, those of the listeners included. -/
inductive Operation where
  | opAccept
  | opRead
  | opWrite
deriving DecidableEq, Repr

/-- An operation in flight on the object `sock`, with its buffer and the `IoOrder` of it. -/
structure Op where
  sock : Nat
  operation : Operation
  IoOrder : ULONG
  buf : Nat
deriving DecidableEq, Repr

/-- The options that the threads read. -/
structure Config where
  gProtocol : Protocol
  gOverlappedCount : Nat

/-- `SOCKET_OBJ`; `SockCritSec` is the thread that is in it, and how often it has entered. -/
structure Obj extends SocketObj where
  SockCritSec : Option (Nat × Nat)
  issued : Nat
  counted : Nat
  delivered : Nat
  finished : Nat

/-- `GetSocketObj`. -/
def getSocketObj (gProtocol : Protocol) : Obj where
  isOpen := true
  bClosing := false
  OutstandingOps := 0
  LastSendIssued := 0
  IoCountIssued := if gProtocol = .tcp then 1 else 0
  OutOfOrderSends := []
  SockCritSec := none
  issued := 0
  counted := 0
  delivered := 0
  finished := 0

/-- The socket objects, and what is in flight. -/
structure Server where
  next : Nat
  obj : Nat → Obj
  flight : List Op
  freed : List Nat
  buffers : Nat
  freedBuffers : List Nat

def start (cfg : Config) : Server := ⟨0, fun _ => getSocketObj cfg.gProtocol, [], [], 0, []⟩

/-! ## Commands -/

/-- The commands on an object.  `IoCountIssued` and `LastSendIssued` are read, and the
first is counted up with the read; `nextSend` is `LastSendIssued++`.  `OutstandingOps` is
read by `HandleIo`, and tested by `FreeSocketObj` (`hasOutstandingOps`).  A buffer is got
and freed for an object. -/
inductive Access where
  | GetBufferObj
  | FreeBufferObj (buf : Nat)
  | EnterCriticalSection
  | LeaveCriticalSection
  | CreateIoCompletionPort
  | socket
  | IoCountIssued
  | LastSendIssued
  | nextSend
  | WSARecv (buf : Nat) (IoOrder : ULONG)
  | WSASend (buf : Nat) (IoOrder : ULONG)
  | AcceptEx (buf : Nat)
  | InterlockedIncrement
  | InterlockedDecrement
  | OutOfOrderSends
  | setOutOfOrderSends (sends : List BufferObj)
  | bClosing
  | setClosing
  | OutstandingOps
  | hasOutstandingOps
  | isOpen
  | closesocket
  | DeleteCriticalSection
  | HeapFree
deriving DecidableEq, Repr

/-- An access of a thread to a socket object. -/
structure Cmd where
  sock : Nat
  access : Access
deriving DecidableEq, Repr

/-- What a command replies: `true` stands for success. -/
abbrev Access.Reply : Access → Type
  | .GetBufferObj => Nat
  | .CreateIoCompletionPort => Bool
  | .socket => Bool
  | .IoCountIssued => ULONG
  | .LastSendIssued => ULONG
  | .WSARecv _ _ => Bool
  | .WSASend _ _ => Bool
  | .AcceptEx _ => Bool
  | .InterlockedDecrement => Int
  | .OutOfOrderSends => List BufferObj
  | .bClosing => Bool
  | .OutstandingOps => Int
  | .hasOutstandingOps => Bool
  | .isOpen => Bool
  | _ => Unit

abbrev Cmd.Reply (c : Cmd) : Type := c.access.Reply

abbrev Program (α : Type) := Prog Cmd Cmd.Reply α

abbrev perform (sock : Nat) (a : Access) : Program a.Reply := Prog.perform (C := Cmd) ⟨sock, a⟩

/-! ## The functions -/

/-- "If there are outstanding operations, the object is not freed". -/
def FreeSocketObj (obj : Nat) : Program Unit := do
  if ← perform obj .hasOutstandingOps then
    return ()
  else
    if ← perform obj .isOpen then
      perform obj .closesocket
      perform obj .DeleteCriticalSection
      perform obj .HeapFree
    else
      perform obj .DeleteCriticalSection
      perform obj .HeapFree

/-- "Increment outstanding overlapped operations", if the post was accepted. -/
def countPost (sock : Nat) (rc : Bool) : Program Bool := do
  if rc then
    perform sock .InterlockedIncrement
    return true
  else
    return false

def PostRecv (sock recvobj : Nat) : Program Bool := do
  perform sock .EnterCriticalSection
  let IoOrder ← perform sock .IoCountIssued
  let rc ← perform sock (.WSARecv recvobj IoOrder)
  perform sock .LeaveCriticalSection
  countPost sock rc

def PostSend (sock : Nat) (sendobj : BufferObj) : Program Bool := do
  perform sock .EnterCriticalSection
  perform sock .nextSend
  let rc ← perform sock (.WSASend sendobj.no sendobj.IoOrder)
  perform sock .LeaveCriticalSection
  countPost sock rc

def PostAccept (sock acceptobj : Nat) : Program Bool := do
  if ← perform sock .socket then
    countPost sock (← perform sock (.AcceptEx acceptobj))
  else
    return false

def InsertPendingSend (sock : Nat) (send : BufferObj) : Program Unit := do
  perform sock .EnterCriticalSection
  let sends ← perform sock .OutOfOrderSends
  perform sock (.setOutOfOrderSends (Socket.insertBefore send sends))
  perform sock .LeaveCriticalSection

/-- The loop of `DoSends`. -/
def doSendsFrom (sock : Nat) : List BufferObj → Program Bool
  | [] => return true
  | sendobj :: rest => do
      let last ← perform sock .LastSendIssued
      if sendobj.IoOrder = last then
        if ← PostSend sock sendobj then
          perform sock (.setOutOfOrderSends rest)
          doSendsFrom sock rest
        else
          perform sock (.FreeBufferObj sendobj.no)
          return false
      else
        return true

def DoSends (sock : Nat) : Program Bool := do
  perform sock .EnterCriticalSection
  let sends ← perform sock .OutOfOrderSends
  let ret ← doSendsFrom sock sends
  perform sock .LeaveCriticalSection
  return ret

/-! ## `HandleIo`

The branches of the critical section yield `error` and `bCleanupSocket`. -/

/-- "Now post some receives on this new connection". -/
def postReceives (clientobj : Nat) : Nat → Program Bool
  | 0 => return true
  | i + 1 => do
      let recvobj ← perform clientobj .GetBufferObj
      if ← PostRecv clientobj recvobj then
        postReceives clientobj i
      else
        perform clientobj (.FreeBufferObj recvobj)
        return false

/-- The send, and then the receives. -/
def serveClient (cfg : Config) (clientobj : Nat) : Program Bool := do
  let sendobj ← perform clientobj .GetBufferObj
  if ← PostSend clientobj { getBufferObj with no := sendobj } then
    postReceives clientobj cfg.gOverlappedCount
  else
    perform clientobj (.FreeBufferObj sendobj)
    return false

/-- After a post on the new connection was refused. -/
def abandonClient (clientobj : Nat) : Program Unit := do
  let ops ← perform clientobj .OutstandingOps
  if ops = 0 then
    perform clientobj .closesocket
    FreeSocketObj clientobj
  else
    perform clientobj .setClosing

/-- An accept; the result is `false` where `HandleIo` returns at once. -/
def acceptCompleted (cfg : Config) (sock buf clientobj : Nat) : Program Bool := do
  if ← perform clientobj .CreateIoCompletionPort then
    let served ← serveClient cfg clientobj
    let _ ← PostAccept sock buf
    if served then
      return true
    else
      abandonClient clientobj
      return true
  else
    return false

/-- A receive that brought data, or any datagram. -/
def receiveCompleted (sock buf : Nat) (IoOrder : ULONG) : Program (Bool × Bool) := do
  let sendobj ← perform sock .GetBufferObj
  InsertPendingSend sock { getBufferObj with IoOrder := IoOrder, no := sendobj }
  if ← DoSends sock then
    if ← PostRecv sock buf then
      return (false, false)
    else
      perform sock (.FreeBufferObj buf)
      return (true, false)
  else
    return (true, false)

/-- "If this was the last outstanding operation on socket, clean it up". -/
def lastOperation (sock : Nat) : Program Bool := do
  let ops ← perform sock .OutstandingOps
  if ops = 0 then
    let sends ← perform sock .OutOfOrderSends
    return sends = []
  else
    return false

/-- "Graceful close - the receive returned 0 bytes read". -/
def receiveEnded (sock buf : Nat) : Program (Bool × Bool) := do
  perform sock .setClosing
  perform sock (.FreeBufferObj buf)
  let sent ← DoSends sock
  let bCleanupSocket ← lastOperation sock
  return (!sent, bCleanupSocket)

/-- "If for UDP, a receive completes with an error, we ignore it and re-post the recv";
`error` keeps its value. -/
def receiveFailed (sock buf : Nat) : Program (Bool × Bool) := do
  let _ ← PostRecv sock buf
  return (true, false)

def sendCompleted (sock buf : Nat) (error : Bool) : Program (Bool × Bool) := do
  perform sock (.FreeBufferObj buf)
  let sent ← DoSends sock
  return (error || !sent, false)

/-- "Check to see if socket is closing". -/
def checkClosing (sock : Nat) : Program Bool := do
  let ops ← perform sock .InterlockedDecrement
  if ops = 0 then
    if ← perform sock .bClosing then
      let sends ← perform sock .OutOfOrderSends
      return sends = []
    else
      return false
  else
    return false

/-- The end of the critical section, and what comes after it. -/
def leave (sock : Nat) (bCleanupSocket : Bool) : Program Unit := do
  let bCleanupSocket ←
    if ← checkClosing sock then pure true
    else
      if ← DoSends sock then pure bCleanupSocket else pure true
  perform sock .LeaveCriticalSection
  if bCleanupSocket then
    perform sock .closesocket
    FreeSocketObj sock
  else
    return ()

/-- A branch has ended. -/
def finish (sock : Nat) (r : Bool × Bool) : Program Unit := do
  if r.1 then
    perform sock .setClosing
    leave sock r.2
  else
    leave sock r.2

def HandleIo (cfg : Config) (op : Op) (BytesTransfered : Nat) (error : Bool) (clientobj : Nat) :
    Program Unit := do
  if error ∧ cfg.gProtocol = .tcp then
    perform op.sock (.FreeBufferObj op.buf)
    let ops ← perform op.sock .InterlockedDecrement
    if ops = 0 then FreeSocketObj op.sock else return ()
  else
    perform op.sock .EnterCriticalSection
    match op.operation with
    | .opAccept =>
        if ← acceptCompleted cfg op.sock op.buf clientobj then finish op.sock (false, false)
        else return ()
    | .opRead =>
        if error then
          finish op.sock (← receiveFailed op.sock op.buf)
        else if 0 < BytesTransfered ∨ cfg.gProtocol = .udp then
          finish op.sock (← receiveCompleted op.sock op.buf op.IoOrder)
        else
          finish op.sock (← receiveEnded op.sock op.buf)
    | .opWrite => finish op.sock (← sendCompleted op.sock op.buf error)

/-! ## `main` -/

/-- "Post the AcceptEx(s)". -/
def postAccepts (sock : Nat) : Nat → Program Unit
  | 0 => return ()
  | i + 1 => do
      let acceptobj ← perform sock .GetBufferObj
      let _ ← PostAccept sock acceptobj
      postAccepts sock i

/-- "For UDP, simply post some receives". -/
def postDatagrams (sock : Nat) : Nat → Program Unit
  | 0 => return ()
  | i + 1 => do
      let recvobj ← perform sock .GetBufferObj
      let _ ← PostRecv sock recvobj
      postDatagrams sock i

def opened (cfg : Config) (sock : Nat) : Program Unit :=
  match cfg.gProtocol with
  | .tcp => postAccepts sock cfg.gOverlappedCount
  | .udp => postDatagrams sock cfg.gOverlappedCount

/-! ## What commands do -/

namespace Obj

def enter (x : Obj) (t : Nat) : Option Obj :=
  match x.SockCritSec with
  | none => some { x with SockCritSec := some (t, 1) }
  | some (u, n) => if u = t then some { x with SockCritSec := some (t, n + 1) } else none

def left (x : Obj) : Obj :=
  match x.SockCritSec with
  | some (u, n + 2) => { x with SockCritSec := some (u, n + 1) }
  | _ => { x with SockCritSec := none }

end Obj

namespace Server

def set (σ : Server) (s : Nat) (x : Obj) : Server :=
  { σ with obj := Function.update σ.obj s x }

@[simp] theorem set_self (σ : Server) (s : Nat) (x : Obj) : (σ.set s x).obj s = x := by
  simp [set]

theorem set_of_ne (σ : Server) {s u : Nat} (x : Obj) (hu : u ≠ s) :
    (σ.set s x).obj u = σ.obj u := by
  simp [set, hu]

/-- A post; on a closed socket none is accepted. -/
def post (σ : Server) (op : Op) (ok : Bool) : Server × Bool :=
  if ok ∧ (σ.obj op.sock).isOpen then
    ({ σ.set op.sock { σ.obj op.sock with issued := (σ.obj op.sock).issued + 1 } with
      flight := op :: σ.flight }, true)
  else (σ, false)

end Server

/-- What thread `t` does with an object. -/
def access (t s : Nat) (σ : Server) (ok : Bool) : (a : Access) → Option (Server × a.Reply)
  | .GetBufferObj => some ({ σ with buffers := σ.buffers + 1 }, σ.buffers)
  | .FreeBufferObj buf => some ({ σ with freedBuffers := buf :: σ.freedBuffers }, ())
  | .EnterCriticalSection => ((σ.obj s).enter t).map fun x => (σ.set s x, ())
  | .LeaveCriticalSection => some (σ.set s (σ.obj s).left, ())
  | .CreateIoCompletionPort => some (σ, ok)
  | .socket => some (σ, ok)
  | .IoCountIssued => some (σ.set s { σ.obj s with
      IoCountIssued := (σ.obj s).IoCountIssued + 1 }, (σ.obj s).IoCountIssued)
  | .LastSendIssued => some (σ, (σ.obj s).LastSendIssued)
  | .nextSend => some (σ.set s { σ.obj s with
      LastSendIssued := (σ.obj s).LastSendIssued + 1 }, ())
  | .WSARecv buf IoOrder => some (σ.post ⟨s, .opRead, IoOrder, buf⟩ ok)
  | .WSASend buf IoOrder => some (σ.post ⟨s, .opWrite, IoOrder, buf⟩ ok)
  | .AcceptEx buf => some (σ.post ⟨s, .opAccept, 0, buf⟩ ok)
  | .InterlockedIncrement => some (σ.set s { σ.obj s with
      OutstandingOps := (σ.obj s).OutstandingOps + 1
      counted := (σ.obj s).counted + 1 }, ())
  | .InterlockedDecrement => some (σ.set s { σ.obj s with
      OutstandingOps := (σ.obj s).OutstandingOps - 1
      finished := (σ.obj s).finished + 1 }, (σ.obj s).OutstandingOps - 1)
  | .OutOfOrderSends => some (σ, (σ.obj s).OutOfOrderSends)
  | .setOutOfOrderSends sends => some (σ.set s { σ.obj s with OutOfOrderSends := sends }, ())
  | .bClosing => some (σ, (σ.obj s).bClosing)
  | .setClosing => some (σ.set s { σ.obj s with bClosing := true }, ())
  | .OutstandingOps => some (σ, (σ.obj s).OutstandingOps)
  | .hasOutstandingOps => some (σ, (σ.obj s).OutstandingOps ≠ 0)
  | .isOpen => some (σ, (σ.obj s).isOpen)
  | .closesocket => some (σ.set s { σ.obj s with isOpen := false }, ())
  | .DeleteCriticalSection => some (σ.set s { σ.obj s with SockCritSec := none }, ())
  | .HeapFree => some ({ σ with freed := s :: σ.freed }, ())

/-- What the completion threads wait for. -/
inductive Event where
  | opened (sock : Nat)
  | completion (op : Op) (BytesTransfered : Nat) (error : Bool) (clientobj : Nat)
deriving DecidableEq, Repr

def exec (t : Nat) (_ : Event) (c : Cmd) (σ : Server) (ok : Bool) : Option (Server × c.Reply) :=
  access t c.sock σ ok c.access

def spawn (cfg : Config) (t : Nat) (e : Event) (σ : Server) : Option (Server × Program Unit) :=
  match e with
  | .opened sock =>
      if t = 0 ∧ sock = σ.next then
        some ({ σ with next := σ.next + 1 }, Threads.opened cfg sock)
      else none
  | .completion op BytesTransfered error clientobj =>
      if t ≠ 0 ∧ op ∈ σ.flight ∧ clientobj = σ.next then
        some ({ σ.set op.sock { σ.obj op.sock with
            delivered := (σ.obj op.sock).delivered + 1 } with
          next := σ.next + 1
          flight := σ.flight.erase op }, HandleIo cfg op BytesTransfered error clientobj)
      else none

def system (cfg : Config) : System Server Cmd Cmd.Reply Bool Event Unit where
  exec := exec
  spawn := spawn cfg

abbrev Machine := Programs.Machine Server Cmd Cmd.Reply Event Unit

abbrev Action := Act Bool Event

/-- All threads idle. -/
def idle (cfg : Config) (threads : Nat) : Machine := ⟨start cfg, List.replicate threads none⟩

/-- A state that some run of the server reaches. -/
def Reachable (cfg : Config) (threads : Nat) (m : Machine) : Prop :=
  Via (system cfg).step (fun _ _ => True) (idle cfg threads) m

end CppWorkspace.OrderedServer.Threads
