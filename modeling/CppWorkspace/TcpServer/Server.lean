/-
# `CppWorkspace.TcpServer.Server` — `CTcpServer` as threads of commands

The worker threads, `ListenThread`, the timer and the callers of `SendData` and
`SendFile` are threads that handle one event after the other; the functions of the
source are programs over the commands of `Cmd`.

    accept    IssueAcceptOperation -> in flight -> WorkThread -> CompleteAccept
    receive   IssueReceiveOperation -> in flight -> WorkThread -> CompleteReceive
    send      IssueSendOperation, SendFile -> in flight -> WorkThread -> CompleteSend

Conventions:

* one command is atomic: a system call, an operation of a pool, one critical
  section of `m_struCriSec`, one access to a context.  `ConnectTimeOutCheck` closes
  sockets inside its critical section, so there `m_struCriSec` is taken and left by
  commands of their own;
* `Choice` is what the system decides: the call succeeds, it fails, or, for
  `WSASocket`, the handle it returns, which may be any that is not open;
* `sockets` tells which connection owns an open handle: connections are numbered in
  the order of `WSASocket`;
* a posted operation stays in `flight` until its completion begins; it completes at
  any time and with any result, also after its socket was closed;
* the functions return `true` for 1 and `false` for 0; an exception that is thrown
  is caught in the same function, which returns 0;
* `held`, `closed`, `posted`, `answers` and `sends` are ghost fields.
-/
import CppWorkspace.Lib.Programs
import CppWorkspace.TcpServer.Contexts

namespace CppWorkspace.TcpServer

open Programs Runs

/-! ## State -/

/-- An accepted overlapped operation: its context, and the socket it was posted on
with the connection that owned it then. -/
structure Op where
  kind : Kind
  ctx : Nat
  h : SOCKET
  conn : Nat
  deriving DecidableEq

/-- Thread `thread` has the context, to release it or to post with it. -/
structure Holding where
  thread : Nat
  kind : Kind
  ctx : Nat
  deriving DecidableEq

/-- What was handed to an accepted `WSASend`. -/
structure Sent where
  h : SOCKET
  /-- The memory behind `m_struSendBuf.buf`. -/
  block : List UInt8
  len : Nat
  deriving DecidableEq

/-- The state that the threads share. -/
structure Server where
  m_hListenSocket : SOCKET
  m_mapAcceptSockQueue : List SOCKET
  /-- The thread inside a critical section of more than one command. -/
  m_struCriSec : Option Nat
  /-- The count of `m_hPostAcceptEvent[1]`. -/
  semaphore : Nat
  pool : Kind → Pool
  sockets : SOCKET → Option Nat
  /-- How many sockets were created. -/
  created : Nat
  flight : List Op
  held : List Holding
  /-- The socket that is closed, and still registered. -/
  closed : Option SOCKET
  /-- The accepts that were posted at start and on `FD_ACCEPT`. -/
  posted : Nat
  /-- How many accepts a thread has posted or asked for since its event began,
  other than those in `posted`. -/
  answers : Nat → Nat
  sends : List Sent

def m_iMaxPostAcceptNumbs : Nat := 64

namespace Server

/-- After the pools were created. -/
def start (m_hListenSocket : SOCKET) : Server where
  m_hListenSocket := m_hListenSocket
  m_mapAcceptSockQueue := []
  m_struCriSec := none
  semaphore := 0
  pool
    | .accept => .InitContextPool m_iMaxPostAcceptNumbs
    | .receive => .InitContextPool m_iMaxPostAcceptNumbs
    | .send => .InitContextPool (m_iMaxPostAcceptNumbs * 10)
  sockets := fun _ => none
  created := 0
  flight := []
  held := []
  closed := none
  posted := 0
  answers := fun _ => 0
  sends := []

/-- The contents of a context. -/
def context (σ : Server) (k : Kind) (c : Nat) : Context := (σ.pool k).context c

/-- One context is given new contents. -/
def setContext (σ : Server) (k : Kind) (c : Nat) (x : Context) : Server :=
  { σ with pool := Pool.setPool σ.pool k ((σ.pool k).set c x) }

end Server

/-! ## Events and commands -/

/-- What the threads wait for, and the calls from outside. -/
inductive Event
  /-- `InitServer` posts the first accepts. -/
  | InitServer
  /-- `m_hPostAcceptEvent[0]`. -/
  | FD_ACCEPT
  /-- `m_hPostAcceptEvent[1]`. -/
  | semaphore
  /-- `GetQueuedCompletionStatus`; `data` are the bytes of a receive. -/
  | completion (op : Op) (bResult : Bool) (data : List UInt8)
  | TimerProc
  | SendData (sock : SOCKET) (pVoid : Option (List UInt8))
  | SendFile (sock : SOCKET)
  deriving DecidableEq

/-- Calls of the system that only succeed or fail. -/
inductive Call
  /-- With `FIONBIO`. -/
  | ioctlsocket
  | SO_REUSEADDR
  | SO_DONTLINGER
  | SO_GROUP_PRIORITY
  | SIO_KEEPALIVE_VALS
  | CreateIoCompletionPort
  | CreateFile
  /-- `getsockopt`, and the comparison with the timeout. -/
  | getsockopt
  deriving DecidableEq, Repr

/-- The steps of the threads. -/
inductive Cmd
  | WSASocket
  | call (f : Call) (h : SOCKET)
  /-- `m_mapAcceptSockQueue.insert`. -/
  | insert (h : SOCKET)
  /-- `find`, and `erase` of what was found. -/
  | erase (h : SOCKET)
  | find (h : SOCKET)
  | closesocket (h : SOCKET)
  /-- `ConnectTimeOutCheck`, as the next three. -/
  | EnterCriticalSection
  /-- `closesocket(pos->first)`. -/
  | closePos (h : SOCKET)
  /-- `m_mapAcceptSockQueue.erase(pos++)`. -/
  | erasePos (h : SOCKET)
  | LeaveCriticalSection
  /-- `clientSock` is used for a receive only. -/
  | GetContext (k : Kind) (clientSock : SOCKET)
  | ReleaseContext (k : Kind) (c : Nat)
  /-- `pContext->m_hSocket` is read. -/
  | m_hSocket (k : Kind) (c : Nat)
  | SetAcceptParameters (c : Nat) (clientSocket : SOCKET)
  | SetSendParameters (c : Nat) (clientSock : SOCKET) (dataAddr : Option (List UInt8))
      (transferByte : Nat)
  /-- On `pContext->m_hSocket`, as the next two. -/
  | AcceptEx (c : Nat)
  | WSARecv (c : Nat)
  | WSASend (c : Nat)
  | TransmitFile (c : Nat) (sock : SOCKET)
  | ReleaseSemaphore
  deriving DecidableEq

/-- What a command replies. -/
abbrev Cmd.Reply : Cmd → Type
  | .WSASocket => SOCKET
  | .call _ _ => Bool
  | .erase _ => Bool
  | .find _ => Bool
  | .EnterCriticalSection => List SOCKET
  | .GetContext _ _ => Option Nat
  | .m_hSocket _ _ => SOCKET
  | .SetSendParameters _ _ _ _ => Nat
  | .AcceptEx _ => Bool
  | .WSARecv _ => Bool
  | .WSASend _ => Bool
  | .TransmitFile _ _ => Bool
  | _ => Unit

/-- How a call of the system ends. -/
inductive Choice
  | ok
  | fail
  | handle (h : SOCKET)
  deriving DecidableEq

abbrev Program (α : Type) := Prog Cmd Cmd.Reply α

abbrev perform (c : Cmd) : Program c.Reply := Prog.perform c

/-! ## Registered sockets -/

def PushClientSocket (clientSock : SOCKET) : Program Unit := perform (.insert clientSock)

def CloseClientSocket (clientSocket : SOCKET) : Program Unit := do
  if ← perform (.erase clientSocket) then
    perform (.closesocket clientSocket)
  else
    pure ()

def IsValidSocket (socket : SOCKET) : Program Bool := perform (.find socket)

/-- The loop of `ConnectTimeOutCheck`. -/
def sweep : List SOCKET → Program Unit
  | [] => pure ()
  | h :: sockets => do
      if ← perform (.call .getsockopt h) then
        perform (.closePos h)
        perform (.erasePos h)
        sweep sockets
      else
        sweep sockets

def ConnectTimeOutCheck : Program Unit := do
  let sockets ← perform .EnterCriticalSection
  sweep sockets
  perform .LeaveCriticalSection

/-! ## Posting -/

def IssueAcceptOperation : Program Bool := do
  let hClientSocket ← perform .WSASocket
  if hClientSocket = INVALID_SOCKET then
    CloseClientSocket hClientSocket
    pure false
  else if ← perform (.call .ioctlsocket hClientSocket) then
    match ← perform (.GetContext .accept 0) with
    | none => do
        CloseClientSocket hClientSocket
        pure false
    | some c => do
        perform (.SetAcceptParameters c hClientSocket)
        if ← perform (.AcceptEx c) then
          pure true
        else
          CloseClientSocket hClientSocket
          perform (.ReleaseContext .accept c)
          pure false
  else
    CloseClientSocket hClientSocket
    pure false

/-- The number of accepts that were posted. -/
def PostAcceptOperation : Nat → Program Nat
  | 0 => pure 0
  | postNumbs + 1 => do
      let posted ← IssueAcceptOperation
      let dwAcceptNumbs ← PostAcceptOperation postNumbs
      pure (if posted then dwAcceptNumbs + 1 else dwAcceptNumbs)

def IssueReceiveOperation (socket : SOCKET) : Program Bool := do
  match ← perform (.GetContext .receive socket) with
  | none => pure false
  | some c => do
      if ← perform (.WSARecv c) then
        pure true
      else
        perform (.ReleaseContext .receive c)
        pure false

/-- The loop of `IssueSendOperation`; each round sends at least one byte, so
`leavingBytes` rounds are enough. -/
def sendLoop (cliSock : SOCKET) (pData : List UInt8) : Nat → Nat → Program Bool
  | 0, _ => pure false
  | rounds + 1, leavingBytes => do
      match ← perform (.GetContext .send 0) with
      | none => pure false
      | some c => do
          let leavingBytes ← perform (.SetSendParameters c cliSock (some pData) leavingBytes)
          if ← perform (.WSASend c) then
            if leavingBytes ≠ 0 then sendLoop cliSock pData rounds leavingBytes else pure true
          else
            perform (.ReleaseContext .send c)
            pure false

def IssueSendOperation (cliSock : SOCKET) (pData : List UInt8) (dwTransferBytes : Nat) :
    Program Bool :=
  if dwTransferBytes ≠ 0 then sendLoop cliSock pData dwTransferBytes dwTransferBytes
  else pure false

def SendData (sock : SOCKET) (pVoid : Option (List UInt8)) : Program Bool := do
  if ← IsValidSocket sock then
    match pVoid with
    | some data => IssueSendOperation sock data data.length
    | none => pure false
  else
    pure false

def SendFile (sock : SOCKET) : Program Unit := do
  if ← IsValidSocket sock then
    if ← perform (.call .CreateFile sock) then
      match ← perform (.GetContext .send 0) with
      | none => pure ()
      | some c => do
          let _ ← perform (.SetSendParameters c sock none 0)
          if ← perform (.TransmitFile c sock) then
            pure ()
          else
            perform (.ReleaseContext .send c)
    else
      pure ()
  else
    pure ()

/-! ## Completions -/

/-- The class of the server: `SaveReceivedData` is virtual. -/
inductive Class
  | CTcpServer
  | CWebServer
  deriving DecidableEq

def SaveReceivedData (cls : Class) (sock : SOCKET) (data : List UInt8) : Program Unit :=
  match cls with
  | .CTcpServer => pure ()
  | .CWebServer => do
      let _ ← SendData sock (some data)
      pure ()

/-- A call on `pContext->m_hSocket`. -/
def callOn (k : Kind) (c : Nat) (f : Call) : Program Bool := do
  let h ← perform (.m_hSocket k c)
  perform (.call f h)

/-- `CloseClientSocket(pContext->m_hSocket)`. -/
def closeOf (k : Kind) (c : Nat) : Program Unit := do
  let h ← perform (.m_hSocket k c)
  CloseClientSocket h

/-- The error branches of `CompleteAccept`. -/
def refuse (c : Nat) : Program Bool := do
  closeOf .accept c
  perform (.ReleaseContext .accept c)
  pure false

def CompleteAccept (c : Nat) : Program Bool := do
  let h ← perform (.m_hSocket .accept c)
  PushClientSocket h
  if ← callOn .accept c .SO_REUSEADDR then
    if ← callOn .accept c .SO_DONTLINGER then
      if ← callOn .accept c .SO_GROUP_PRIORITY then
        if ← callOn .accept c .SIO_KEEPALIVE_VALS then
          if ← callOn .accept c .CreateIoCompletionPort then
            let h ← perform (.m_hSocket .accept c)
            if ← IssueReceiveOperation h then
              if ← IssueAcceptOperation then
                perform (.ReleaseContext .accept c)
                pure true
              else
                perform .ReleaseSemaphore
                perform (.ReleaseContext .accept c)
                pure true
            else refuse c
          else refuse c
        else refuse c
      else refuse c
    else refuse c
  else refuse c

/-- The error branches of `CompleteReceive`: the context is released first, and
read afterwards. -/
def releaseAndClose (c : Nat) : Program Bool := do
  perform (.ReleaseContext .receive c)
  closeOf .receive c
  pure false

def CompleteReceive (cls : Class) (c : Nat) (data : List UInt8) : Program Bool := do
  if data.length ≠ 0 then
    if ← callOn .receive c .SO_GROUP_PRIORITY then
      let h ← perform (.m_hSocket .receive c)
      SaveReceivedData cls h data
      let h ← perform (.m_hSocket .receive c)
      if ← IssueReceiveOperation h then
        perform (.ReleaseContext .receive c)
        pure true
      else releaseAndClose c
    else releaseAndClose c
  else
    closeOf .receive c
    perform (.ReleaseContext .receive c)
    pure true

/-- `char buf[512] = "test\n"`. -/
def testBuf : List UInt8 := [116, 101, 115, 116, 10] ++ List.replicate 507 0

def CompleteSend (c : Nat) : Program Bool := do
  let h ← perform (.m_hSocket .send c)
  let _ ← IssueSendOperation h testBuf 512
  perform (.ReleaseContext .send c)
  pure true

/-- One round of `WorkThread`. -/
def WorkThread (cls : Class) (op : Op) (bResult : Bool) (data : List UInt8) : Program Unit :=
  match bResult, op.kind with
  | false, k => do
      closeOf k op.ctx
      perform (.ReleaseContext k op.ctx)
  | true, .accept => do
      let _ ← CompleteAccept op.ctx
      pure ()
  | true, .receive => do
      if data.length = 0 then
        closeOf .receive op.ctx
        perform (.ReleaseContext .receive op.ctx)
      else
        let _ ← CompleteReceive cls op.ctx data
        pure ()
  | true, .send => do
      let _ ← CompleteSend op.ctx
      pure ()

/-- What a thread does in an event. -/
def Event.program (cls : Class) : Event → Program Unit
  | .InitServer => do
      let _ ← PostAcceptOperation (m_iMaxPostAcceptNumbs / 2)
      pure ()
  | .FD_ACCEPT => do
      let _ ← PostAcceptOperation m_iMaxPostAcceptNumbs
      pure ()
  | .semaphore => do
      let _ ← PostAcceptOperation 1
      pure ()
  | .completion op bResult data => WorkThread cls op bResult data
  | .TimerProc => ConnectTimeOutCheck
  | .SendData sock pVoid => do
      let _ ← TcpServer.SendData sock pVoid
      pure ()
  | .SendFile sock => TcpServer.SendFile sock

/-! ## The machine -/

namespace Server

/-- An operation is accepted: only on an open socket. -/
def post (σ : Server) (t : Nat) (k : Kind) (c : Nat) (h : SOCKET) : Option Server :=
  (σ.sockets h).map fun conn =>
    { σ with flight := ⟨k, c, h, conn⟩ :: σ.flight, held := σ.held.erase ⟨t, k, c⟩ }

/-- The context that `GetContext` hands out; a receive context is given its socket. -/
def taken (σ : Server) (k : Kind) (clientSock : SOCKET) : Context :=
  let x := σ.context k (σ.pool k).GetContext.1
  if k = .receive then x.setSocket clientSock else x

def GetContext (σ : Server) (t : Nat) (k : Kind) (clientSock : SOCKET) : Server × Nat :=
  let c := (σ.pool k).GetContext.1
  ({ σ with
    pool := Pool.setPool σ.pool k ((σ.pool k).GetContext.2.set c (σ.taken k clientSock))
    held := ⟨t, k, c⟩ :: σ.held }, c)

/-- `ReleaseContext`; a send context is reset. -/
def ReleaseContext (σ : Server) (t : Nat) (k : Kind) (c : Nat) : Server :=
  let x := if k = .send then (σ.context k c).ResetContext else σ.context k c
  { σ with
    pool := Pool.setPool σ.pool k (((σ.pool k).ReleaseContext c).set c x)
    held := σ.held.erase ⟨t, k, c⟩ }

end Server

/-- Accepts posted by these events are not owed to an earlier one. -/
def Event.posts : Event → Bool
  | .InitServer => true
  | .FD_ACCEPT => true
  | _ => false

/-- The commands. -/
def exec (t : Nat) (e : Event) : (c : Cmd) → Server → Choice → Option (Server × c.Reply)
  | .WSASocket, σ, .handle h =>
      if h ≠ 0 ∧ h ≠ INVALID_SOCKET ∧ h ≠ σ.m_hListenSocket ∧ σ.sockets h = none then
        some ({ σ with
          sockets := Pool.write σ.sockets h (some σ.created), created := σ.created + 1 }, h)
      else none
  | .WSASocket, σ, .fail => some (σ, INVALID_SOCKET)
  | .call _ _, σ, .ok => some (σ, true)
  | .call _ _, σ, .fail => some (σ, false)
  | .insert h, σ, .ok =>
      if σ.m_struCriSec = none then
        some ({ σ with m_mapAcceptSockQueue := σ.m_mapAcceptSockQueue.insert h }, ())
      else none
  | .erase h, σ, .ok =>
      if σ.m_struCriSec = none then
        some ({ σ with m_mapAcceptSockQueue := σ.m_mapAcceptSockQueue.erase h },
          decide (h ∈ σ.m_mapAcceptSockQueue))
      else none
  | .find h, σ, .ok =>
      if σ.m_struCriSec = none then some (σ, decide (h ∈ σ.m_mapAcceptSockQueue)) else none
  | .closesocket h, σ, .ok => some ({ σ with sockets := Pool.write σ.sockets h none }, ())
  | .EnterCriticalSection, σ, .ok =>
      if σ.m_struCriSec = none then
        some ({ σ with m_struCriSec := some t }, σ.m_mapAcceptSockQueue)
      else none
  | .closePos h, σ, .ok =>
      some ({ σ with sockets := Pool.write σ.sockets h none, closed := some h }, ())
  | .erasePos h, σ, .ok =>
      some ({ σ with
        m_mapAcceptSockQueue := σ.m_mapAcceptSockQueue.erase h, closed := none }, ())
  | .LeaveCriticalSection, σ, .ok => some ({ σ with m_struCriSec := none }, ())
  | .GetContext k clientSock, σ, .ok =>
      some ((σ.GetContext t k clientSock).1, some (σ.GetContext t k clientSock).2)
  | .GetContext k _, σ, .fail => if k = .send then none else some (σ, none)
  | .ReleaseContext k c, σ, .ok => some (σ.ReleaseContext t k c, ())
  | .m_hSocket k c, σ, .ok => some (σ, (σ.context k c).m_hSocket)
  | .SetAcceptParameters c h, σ, .ok =>
      some (σ.setContext .accept c ((σ.context .accept c).setSocket h), ())
  | .SetSendParameters c h data n, σ, .ok =>
      some (σ.setContext .send c ((σ.context .send c).SetSendParameters h data n).1,
        ((σ.context .send c).SetSendParameters h data n).2)
  | .AcceptEx c, σ, .ok =>
      (σ.post t .accept c (σ.context .accept c).m_hSocket).map fun σ' =>
        ({ σ' with
          posted := if e.posts then σ.posted + 1 else σ.posted
          answers := if e.posts then σ.answers else
            Pool.write σ.answers t (σ.answers t + 1) }, true)
  | .AcceptEx _, σ, .fail => some (σ, false)
  | .WSARecv c, σ, .ok =>
      (σ.post t .receive c (σ.context .receive c).m_hSocket).map fun σ' => (σ', true)
  | .WSARecv _, σ, .fail => some (σ, false)
  | .WSASend c, σ, .ok =>
      (σ.post t .send c (σ.context .send c).m_hSocket).map fun σ' =>
        ({ σ' with sends := σ.sends ++
          [⟨(σ.context .send c).m_hSocket, (σ.context .send c).m_pSendDataBuf,
            (σ.context .send c).len⟩] }, true)
  | .WSASend _, σ, .fail => some (σ, false)
  | .TransmitFile c h, σ, .ok => (σ.post t .send c h).map fun σ' => (σ', true)
  | .TransmitFile _ _, σ, .fail => some (σ, false)
  | .ReleaseSemaphore, σ, .ok =>
      if σ.semaphore < m_iMaxPostAcceptNumbs then
        some ({ σ with
          semaphore := σ.semaphore + 1, answers := Pool.write σ.answers t (σ.answers t + 1) }, ())
      else some (σ, ())
  | _, _, _ => none

/-- The beginning of an event: a completion takes its operation out of `flight`. -/
def spawn (cls : Class) (t : Nat) (e : Event) (σ : Server) : Option (Server × Program Unit) :=
  let answers := Pool.write σ.answers t 0
  match e with
  | .completion op _ _ =>
      if op ∈ σ.flight then
        some ({ σ with
          flight := σ.flight.erase op, held := ⟨t, op.kind, op.ctx⟩ :: σ.held
          answers := answers }, e.program cls)
      else none
  | .semaphore =>
      if 0 < σ.semaphore then
        some ({ σ with semaphore := σ.semaphore - 1, answers := answers }, e.program cls)
      else none
  | _ => some ({ σ with answers := answers }, e.program cls)

def system (cls : Class) : System Server Cmd Cmd.Reply Choice Event Unit where
  exec := exec
  spawn := spawn cls

abbrev Machine := Programs.Machine Server Cmd Cmd.Reply Event Unit

abbrev Action := Act Choice Event

/-- All threads idle. -/
def idle (m_hListenSocket : SOCKET) (threads : Nat) : Machine :=
  ⟨.start m_hListenSocket, List.replicate threads none⟩

/-- A state that some run of `CTcpServer` or a derived class reaches. -/
def Reachable (cls : Class) (m_hListenSocket : SOCKET) (threads : Nat) (m : Machine) : Prop :=
  Via (system cls).step (fun _ _ => True) (idle m_hListenSocket threads) m

end CppWorkspace.TcpServer
