/-
# `CppWorkspace.UdpServer.Server` — `CUdpServer` as threads of commands

`InitServer` posts receives; a worker thread that has a completion runs `WorkThread`.
The functions of the source are programs over the commands of `Cmd`.

    receive   IssueReceiveOperation -> in flight -> WorkThread -> CompleteReceive
    send      IssueSendOperation -> in flight -> WorkThread -> CompleteSend

Conventions:

* one command is atomic: a system call, an operation of the pool, one access to a
  context;
* `Choice` is what the system decides: a call succeeds, or it fails with an error;
* a posted operation stays in `flight` until its completion begins; it completes at
  any time and with any result.  A receive has then written `data` and `addr`, at
  most as many bytes as its buffer had room for;
* there is one socket, `m_hListenSocket`; an address is a number;
* `receives`, `received` and `sends` are ghost fields.

Left out: `TimerProc`, which only prints; `ListenThread`, whose events nothing
signals while the server runs; the shutdown.
-/
import Mathlib.Logic.Function.Basic
import CppWorkspace.Lib.Programs

namespace CppWorkspace.UdpServer

open Programs Runs

/-! ## Contexts -/

abbrev sockaddr_in := Nat

def MAX_UDP_CONTEXT_BUFSIZE : Nat := 4 * 1024

def MAX_STACK_CAPACITY : Nat := 32768

def m_iMaxPostReceiveNumbs : Nat := 32

/-- What a context waits for. -/
inductive Mode
  | SC_WAIT_RECEIVE
  | SC_WAIT_TRANSMIT
  deriving DecidableEq, Repr

/-- The fields of a context that the threads use. -/
structure Context where
  m_iOperateMode : Mode
  m_struRemoteAddr : sockaddr_in
  /-- The bytes of `m_struRevBuf.buf`. -/
  buf : List UInt8
  /-- `m_struRevBuf.len`. -/
  len : Nat

namespace Context

/-- As the constructor leaves it. -/
def new : Context where
  m_iOperateMode := .SC_WAIT_RECEIVE
  m_struRemoteAddr := 0
  buf := List.replicate MAX_UDP_CONTEXT_BUFSIZE 0
  len := MAX_UDP_CONTEXT_BUFSIZE

/-- At most `m_struRevBuf.len` bytes are copied, and the count of what is left is
returned.  `m_struRevBuf.len` becomes the count that was copied. -/
def SetSendParameters (x : Context) (addr : sockaddr_in) (dataAddr : List UInt8)
    (transferByte : Nat) : Context × Nat :=
  if transferByte ≠ 0 then
    let tranSize := min transferByte x.len
    ({ x with
      m_struRemoteAddr := addr, len := tranSize
      buf := dataAddr.take tranSize ++ x.buf.drop tranSize }, transferByte - tranSize)
  else ({ x with m_struRemoteAddr := addr }, transferByte)

/-- What a receive leaves in the context. -/
def fill (x : Context) (addr : sockaddr_in) (data : List UInt8) : Context :=
  { x with m_struRemoteAddr := addr, buf := data ++ x.buf.drop data.length }

end Context

/-! ## State -/

/-- A datagram, with the address of the other side. -/
structure Datagram where
  addr : sockaddr_in
  data : List UInt8
  deriving DecidableEq

/-- What `WSASendTo` is given. -/
def Context.datagram (x : Context) : Datagram := ⟨x.m_struRemoteAddr, x.buf.take x.len⟩

/-- An accepted overlapped operation: its context, and the length of its buffer. -/
structure Op where
  mode : Mode
  ctx : Nat
  len : Nat
  deriving DecidableEq

/-- The stack of idle contexts, and what is in flight. -/
structure Server where
  /-- `m_pUdpContextStack`, the top first. -/
  stack : List Nat
  /-- How many contexts exist. -/
  size : Nat
  context : Nat → Context
  flight : List Op
  /-- The lengths of the buffers that were given to `WSARecvFrom`. -/
  receives : List Nat
  /-- What has come with the completion that a thread handles. -/
  received : Nat → Option Datagram
  /-- What a thread has given to `WSASendTo` since then. -/
  sends : Nat → List Datagram

/-- How a call of the system ends. -/
inductive Choice
  | ok
  | WSAECONNRESET
  | error
  deriving DecidableEq

/-- What the threads wait for, and the calls from outside. -/
inductive Event
  /-- The receives that `InitServer` posts. -/
  | InitServer
  /-- `GetQueuedCompletionStatus`; `addr` and `data` are those of a receive. -/
  | completion (op : Op) (bResult : Bool) (addr : sockaddr_in) (data : List UInt8)
  deriving DecidableEq

/-- The steps of the threads. -/
inductive Cmd
  | GetContext (operateMode : Mode)
  | ReleaseContext (c : Nat)
  /-- `pContext->m_iOperateMode` is read. -/
  | m_iOperateMode (c : Nat)
  /-- `addr` and `dataAddr` are `m_struRemoteAddr` and `m_struRevBuf.buf` of `src`. -/
  | SetSendParameters (c src : Nat) (transferByte : Nat)
  | WSARecvFrom (c : Nat)
  | WSASendTo (c : Nat)
  deriving DecidableEq

/-- What a command replies. -/
abbrev Cmd.Reply : Cmd → Type
  | .GetContext _ => Nat
  | .ReleaseContext _ => Unit
  | .m_iOperateMode _ => Mode
  | .SetSendParameters _ _ _ => Nat
  | .WSARecvFrom _ => Choice
  | .WSASendTo _ => Bool

namespace Server

/-- After `InitContextPool(128)`. -/
def start : Server where
  stack := (List.range 128).reverse
  size := 128
  context := fun _ => .new
  flight := []
  receives := []
  received := fun _ => none
  sends := fun _ => []

/-- The context that the next `GetContext` hands out. -/
def top (σ : Server) : Context :=
  match σ.stack with
  | c :: _ => σ.context c
  | [] => .new

def GetContext (σ : Server) (operateMode : Mode) : Server × Nat :=
  let x := { σ.top with m_iOperateMode := operateMode }
  match σ.stack with
  | c :: stack => ({ σ with stack := stack, context := Function.update σ.context c x }, c)
  | [] => ({ σ with size := σ.size + 1, context := Function.update σ.context σ.size x }, σ.size)

/-- The context is not reset; a full stack drops it. -/
def ReleaseContext (σ : Server) (c : Nat) : Server :=
  { σ with stack := if σ.stack.length < MAX_STACK_CAPACITY then c :: σ.stack else σ.stack }

def WSARecvFrom (σ : Server) (c : Nat) (x : Choice) : Server :=
  { σ with
    receives := σ.receives ++ [(σ.context c).len]
    flight := if x = .ok then ⟨.SC_WAIT_RECEIVE, c, (σ.context c).len⟩ :: σ.flight
      else σ.flight }

def WSASendTo (σ : Server) (t c : Nat) (x : Choice) : Server :=
  { σ with
    sends := Function.update σ.sends t (σ.sends t ++ [(σ.context c).datagram])
    flight := if x = .ok then ⟨.SC_WAIT_TRANSMIT, c, (σ.context c).len⟩ :: σ.flight
      else σ.flight }

end Server

/-! ## The functions -/

abbrev Program (α : Type) := Prog Cmd Cmd.Reply α

abbrev perform (c : Cmd) : Program c.Reply := Prog.perform c

def IssueReceiveOperation : Program Bool := do
  let c ← perform (.GetContext .SC_WAIT_RECEIVE)
  match ← perform (.WSARecvFrom c) with
  | .ok => pure true
  | .WSAECONNRESET => pure false
  | .error => do
      perform (.ReleaseContext c)
      pure false

/-- The number of receives that were posted. -/
def PostReceiveOperation : Nat → Program Nat
  | 0 => pure 0
  | postNumbs + 1 => do
      let posted ← IssueReceiveOperation
      let dwPostReceiveNumbs ← PostReceiveOperation postNumbs
      pure (if posted then dwPostReceiveNumbs + 1 else dwPostReceiveNumbs)

/-- The loop of `IssueSendOperation`; each round copies at least one byte, as long as
no context has a buffer of length 0, so `leavingBytes` rounds are enough. -/
def sendLoop (src : Nat) : Nat → Nat → Program Unit
  | 0, _ => pure ()
  | rounds + 1, leavingBytes => do
      let c ← perform (.GetContext .SC_WAIT_TRANSMIT)
      let leavingBytes ← perform (.SetSendParameters c src leavingBytes)
      if ← perform (.WSASendTo c) then
        if leavingBytes ≠ 0 then sendLoop src rounds leavingBytes else pure ()
      else
        perform (.ReleaseContext c)

/-- `remoteAddr` and `pData` are those of the context `src`. -/
def IssueSendOperation (src : Nat) (dwTransferBytes : Nat) : Program Unit :=
  if dwTransferBytes ≠ 0 then sendLoop src dwTransferBytes dwTransferBytes else pure ()

def CompleteReceive (c : Nat) (dwTransferBytes : Nat) : Program Unit := do
  let _ ← IssueReceiveOperation
  IssueSendOperation c dwTransferBytes
  perform (.ReleaseContext c)

def CompleteSend (c : Nat) : Program Unit := perform (.ReleaseContext c)

/-- `ReleaseContext`, and a new receive. -/
def receiveAgain (c : Nat) : Program Unit := do
  perform (.ReleaseContext c)
  let _ ← IssueReceiveOperation
  pure ()

/-- One round of `WorkThread`. -/
def WorkThread (c : Nat) (bResult : Bool) (NumTransferred : Nat) : Program Unit :=
  match bResult with
  | false => receiveAgain c
  | true => do
      match ← perform (.m_iOperateMode c) with
      | .SC_WAIT_RECEIVE =>
          if NumTransferred = 0 then receiveAgain c else CompleteReceive c NumTransferred
      | .SC_WAIT_TRANSMIT => CompleteSend c

/-- What a thread does in an event. -/
def Event.program : Event → Program Unit
  | .InitServer => do
      let _ ← PostReceiveOperation m_iMaxPostReceiveNumbs
      pure ()
  | .completion op bResult _ data => WorkThread op.ctx bResult data.length

/-! ## The machine -/

/-- The commands. -/
def exec (t : Nat) (_ : Event) : (c : Cmd) → Server → Choice → Option (Server × c.Reply)
  | .GetContext operateMode, σ, .ok => some (σ.GetContext operateMode)
  | .ReleaseContext c, σ, .ok => some (σ.ReleaseContext c, ())
  | .m_iOperateMode c, σ, .ok => some (σ, (σ.context c).m_iOperateMode)
  | .SetSendParameters c src n, σ, .ok =>
      let y := σ.context src
      let r := (σ.context c).SetSendParameters y.m_struRemoteAddr y.buf n
      some ({ σ with context := Function.update σ.context c r.1 }, r.2)
  | .WSARecvFrom c, σ, x => some (σ.WSARecvFrom c x, x)
  | .WSASendTo c, σ, x => some (σ.WSASendTo t c x, x = .ok)
  | _, _, _ => none

/-- The datagram that an event brings. -/
def Event.datagram : Event → Option Datagram
  | .completion op true addr data =>
      if op.mode = .SC_WAIT_RECEIVE ∧ data ≠ [] then some ⟨addr, data⟩ else none
  | _ => none

/-- The beginning of an event: a completion takes its operation out of `flight`. -/
def spawn (t : Nat) (e : Event) (σ : Server) : Option (Server × Program Unit) :=
  let σ₁ := { σ with
    received := Function.update σ.received t e.datagram
    sends := Function.update σ.sends t [] }
  match e with
  | .InitServer => some (σ₁, e.program)
  | .completion op _ addr data =>
      if op ∈ σ.flight then
        let σ₂ := { σ₁ with flight := σ.flight.erase op }
        match op.mode with
        | .SC_WAIT_RECEIVE =>
            if data.length ≤ op.len then
              some ({ σ₂ with
                context := Function.update σ.context op.ctx
                  ((σ.context op.ctx).fill addr data) }, e.program)
            else none
        | .SC_WAIT_TRANSMIT => some (σ₂, e.program)
      else none

def system : System Server Cmd Cmd.Reply Choice Event Unit where
  exec := exec
  spawn := spawn

abbrev Machine := Programs.Machine Server Cmd Cmd.Reply Event Unit

abbrev Action := Act Choice Event

/-- All threads idle. -/
def idle (threads : Nat) : Machine := ⟨.start, List.replicate threads none⟩

/-- A state that some run of the server reaches. -/
def Reachable (threads : Nat) (m : Machine) : Prop :=
  Via system.step (fun _ _ => True) (idle threads) m

end CppWorkspace.UdpServer
