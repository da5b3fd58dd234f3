/-
# `CppWorkspace.ThrottledServer.Server` — `iocp_server` as threads of commands

`main` posts accepts; a completion thread that has a completion runs `HandleIo`.  What
has come in waits in one queue of the whole server, and `ProcessPendingOperations` posts
it while fewer than `gMaxSends` sends are outstanding.  The functions of the source are
programs over the commands of `Cmd`.

    accept    PostAccept -> in flight -> HandleIo -> queue
    send      queue -> ProcessPendingOperations -> PostSend -> in flight -> HandleIo
    receive   HandleIo -> PostRecv -> in flight -> HandleIo -> queue

Conventions:

* one command is atomic: a system call, an interlocked operation, one access to a field,
  and what stands inside `gBufferListCs`, `gSocketListCs`, `gPendingCritSec` or
  `ListenCritSec`.  `SockCritSec` is entered and left by commands of its own, since
  `PostRecv` and `PostSend` post inside it;
* writes to a buffer that a thread holds belong to the command next to them;
* free buffers, queued sends and pending accepts are lists through the one field `next`;
* `Choice` is what the system decides: a call succeeds, or fails;
* a posted operation stays in `flight` until its completion begins, at any time and with
  any result; it has then written `data`, at most as many bytes as it had room for;
* a function that goes through a null pointer, or runs for ever, does not return: its
  command is not enabled;
* `conn`, `shut`, `source` and the last fields of `Server` are ghosts.

Left out: the statistics; the address family; the printed addresses; the scan of `main`
for accepts that stay idle, which only closes client sockets (their accepts then fail, as
they may at any time).  In the accept branch `error` is `NO_ERROR`, so its closing part
is never run.
-/
import Mathlib.Logic.Function.Basic
import CppWorkspace.Lib.LinkedList
import CppWorkspace.Lib.Programs

namespace CppWorkspace.ThrottledServer

open Programs Runs LinkedList

/-! ## Data -/

/-- A socket handle; `none` is `INVALID_SOCKET`. -/
abbrev SOCKET := Option Nat

/-- What a buffer is posted for. -/
inductive Operation
  | OP_ACCEPT
  | OP_READ
  | OP_WRITE
  deriving DecidableEq, Repr

/-- A pointer to a `SOCKET_OBJ`, with the number of the connection for which
`GetSocketObj` has returned it. -/
structure SockPtr where
  obj : Nat
  conn : Nat
  deriving DecidableEq, Repr

/-- The key of a socket on the completion port. -/
inductive Key
  | listen (l : Nat)
  | sock (p : SockPtr)
  deriving DecidableEq, Repr

/-- What has come in at once, and on which socket. -/
structure Chunk where
  source : SOCKET
  data : List UInt8
  deriving DecidableEq, Repr

/-- `BUFFER_OBJ`; `buf` has `gBufferSize` bytes, of which `buflen` are used. -/
structure BufferObj where
  operation : Operation
  sclient : SOCKET
  buf : List UInt8
  buflen : Nat
  sock : Option SockPtr
  /-- Where the bytes have come from. -/
  source : SOCKET
  deriving DecidableEq

namespace BufferObj

/-- `memset` to zero. -/
def zero (gBufferSize : Nat) : BufferObj where
  operation := .OP_ACCEPT
  sclient := some 0
  buf := List.replicate gBufferSize 0
  buflen := 0
  sock := none
  source := none

/-- What `WSASend` is given. -/
def chunk (x : BufferObj) : Chunk := ⟨x.source, x.buf.take x.buflen⟩

/-- Data that came in on the socket `h`. -/
def fill (x : BufferObj) (h : Nat) (data : List UInt8) : BufferObj :=
  { x with buf := data ++ x.buf.drop data.length, source := some h }

end BufferObj

/-- A connection, as far as the threads use it. -/
structure SocketObj where
  s : SOCKET
  bClosing : Bool
  OutstandingRecv : Int
  OutstandingSend : Int
  PendingSend : Int
  /-- The thread inside. -/
  SockCritSec : Option Nat
  /-- The connection that the object was handed out for, and whether its socket was closed. -/
  conn : Option Nat
  shut : Bool
  deriving DecidableEq

/-- `memset` to zero, except for the critical section. -/
def SocketObj.zero (SockCritSec : Option Nat) : SocketObj where
  s := some 0
  bClosing := false
  OutstandingRecv := 0
  OutstandingSend := 0
  PendingSend := 0
  SockCritSec := SockCritSec
  conn := none
  shut := false

/-- A listener. -/
structure ListenObj where
  PendingAccepts : Option Nat
  PendingAcceptCount : Int
  RepostCount : Int

/-- An overlapped operation in flight: the socket that it uses (for an accept, the client
socket), its buffer, and the room of an accept or a receive. -/
structure Op where
  operation : Operation
  key : Key
  s : Nat
  buf : Nat
  len : Nat
  deriving DecidableEq

/-- `2 * (sizeof(SOCKADDR_STORAGE) + 16)`. -/
def ADDRESSES : Nat := 2 * (128 + 16)

def BURST_ACCEPT_COUNT : Nat := 100

/-- The command line. -/
structure Config where
  gBufferSize : Nat
  gInitialAccepts : Nat
  gMaxAccepts : Int
  gMaxSends : Int

/-- The objects and the lists, and what is in flight. -/
structure Server where
  buffer : Nat → BufferObj
  /-- `BUFFER_OBJ.next`. -/
  next : Nat → Option Nat
  /-- How many buffers were allocated. -/
  buffers : Nat
  gFreeBufferList : Option Nat
  gPendingSendList : Option Nat
  gPendingSendListEnd : Option Nat
  socket : Nat → SocketObj
  /-- `SOCKET_OBJ.next`. -/
  snext : Nat → Option Nat
  sockets : Nat
  gFreeSocketList : Option Nat
  gOutstandingSends : Int
  listen : Nat → ListenObj
  flight : List Op
  isOpen : Nat → Bool
  /-- The keys of the sockets that `CreateIoCompletionPort` was called for. -/
  port : Nat → Option SockPtr
  /-- The calls of `GetSocketObj` and of `FreeSocketObj`. -/
  connections : Nat
  frees : List SockPtr
  /-- What has come in on a socket, and what was given to `WSASend`. -/
  received : Nat → List Chunk
  posted : Nat → List Chunk
  /-- The buffers for which `PostAccept` has failed. -/
  abandoned : List (Nat × Nat)
  /-- The accepts and the sends that have completed with an error. -/
  failedAccepts : Nat → Nat
  failedSends : Nat

/-- The counters that are read and written by interlocked operations. -/
inductive Var
  | gOutstandingSends
  | PendingAcceptCount (l : Nat)
  | RepostCount (l : Nat)
  | OutstandingRecv (p : SockPtr)
  | OutstandingSend (p : SockPtr)
  deriving DecidableEq

/-- How a call of the system ends. -/
inductive Choice
  | ok
  | fail
  /-- The handle that `socket` returns. -/
  | handle (h : Nat)
  deriving DecidableEq

/-- What `main` and the completion threads wait for. -/
inductive Event
  /-- The accepts that `main` posts first. -/
  | initialAccepts (l : Nat)
  /-- `AcceptEvent` is signalled with `FD_ACCEPT`. -/
  | FD_ACCEPT (l : Nat)
  /-- `RepostAccept` is signalled. -/
  | RepostAccept (l : Nat)
  /-- `GetQueuedCompletionStatus`; `data` is that of an accept or a receive, and `rounds`
  bounds the loop of `ProcessPendingOperations`. -/
  | completion (op : Op) (error : Bool) (data : List UInt8) (rounds : Nat)
  deriving DecidableEq

/-- The steps of the threads. -/
inductive Cmd
  | read (v : Var)
  | InterlockedIncrement (v : Var)
  | InterlockedDecrement (v : Var)
  /-- `InterlockedExchange(&RepostCount, 0)` -/
  | InterlockedExchange (l : Nat)
  | GetBufferObj
  | FreeBufferObj (b : Nat)
  | EnqueuePendingOperation (b : Nat)
  | DequeuePendingOperation
  | InsertPendingAccept (l b : Nat)
  | RemovePendingAccept (l b : Nat)
  /-- Fields of a buffer: `buf->operation`, `buf->sock`, and writes to `buflen` and `sock`. -/
  | operation (b : Nat)
  | sock (b : Nat)
  | setBuflen (b n : Nat)
  | setSock (b : Nat) (p : SockPtr)
  /-- `closesocket(buf->sclient); buf->sclient = INVALID_SOCKET` -/
  | closeClient (b : Nat)
  /-- `GetSocketObj(buf->sclient, _)` -/
  | GetSocketObj (b : Nat)
  /-- The critical section of `FreeSocketObj`. -/
  | FreeSocketObj (p : SockPtr)
  /-- Fields of a socket object: `s`, `bClosing`, `s = INVALID_SOCKET`, `bClosing = TRUE`. -/
  | s (p : SockPtr)
  | bClosing (p : SockPtr)
  | setInvalid (p : SockPtr)
  | setClosing (p : SockPtr)
  | EnterCriticalSection (p : SockPtr)
  | LeaveCriticalSection (p : SockPtr)
  /-- System calls. -/
  | socket (l b : Nat)
  | AcceptEx (l b : Nat)
  | setsockopt (b : Nat)
  | CreateIoCompletionPort (p : SockPtr)
  | WSARecv (p : SockPtr) (b : Nat)
  | WSASend (p : SockPtr) (b : Nat)
  /-- `closesocket(sockobj->s)` -/
  | closesocket (p : SockPtr)
  /-- A thread that does not return. -/
  | never
  deriving DecidableEq

/-- What a command replies. -/
abbrev Cmd.Reply : Cmd → Type
  | .read _ | .InterlockedDecrement _ | .InterlockedExchange _ => Int
  | .GetBufferObj | .DequeuePendingOperation => Option Nat
  | .operation _ => Operation
  | .sock _ => SockPtr
  | .GetSocketObj _ => Option SockPtr
  | .s _ => SOCKET
  | .bClosing _ | .socket _ _ | .AcceptEx _ _ | .setsockopt _ | .CreateIoCompletionPort _
  | .WSARecv _ _ | .WSASend _ _ => Bool
  | _ => Unit

/-! ## What the commands do -/

namespace Server

def start (cfg : Config) : Server where
  buffer := fun _ => .zero cfg.gBufferSize
  next := fun _ => none
  buffers := 0
  gFreeBufferList := none
  gPendingSendList := none
  gPendingSendListEnd := none
  socket := fun _ => .zero none
  snext := fun _ => none
  sockets := 0
  gFreeSocketList := none
  gOutstandingSends := 0
  listen := fun _ => ⟨none, 0, 0⟩
  flight := []
  isOpen := fun _ => false
  port := fun _ => none
  connections := 0
  frees := []
  received := fun _ => []
  posted := fun _ => []
  abandoned := []
  failedAccepts := fun _ => 0
  failedSends := 0

variable (cfg : Config) (σ : Server)

def setBuffer (b : Nat) (x : BufferObj) : Server :=
  { σ with buffer := Function.update σ.buffer b x }

def setSocket (k : Nat) (x : SocketObj) : Server :=
  { σ with socket := Function.update σ.socket k x }

def setListen (l : Nat) (x : ListenObj) : Server :=
  { σ with listen := Function.update σ.listen l x }

section
variable {σ : Server} {b c : Nat}

@[simp] theorem setBuffer_self {x : BufferObj} : (σ.setBuffer b x).buffer b = x :=
  Function.update_self ..

theorem setBuffer_of_ne {x : BufferObj} (h : c ≠ b) : (σ.setBuffer b x).buffer c = σ.buffer c :=
  Function.update_of_ne h ..

@[simp] theorem setSocket_self {x : SocketObj} : (σ.setSocket b x).socket b = x :=
  Function.update_self ..

theorem setSocket_of_ne {x : SocketObj} (h : c ≠ b) : (σ.setSocket b x).socket c = σ.socket c :=
  Function.update_of_ne h ..

@[simp] theorem setListen_self {x : ListenObj} : (σ.setListen b x).listen b = x :=
  Function.update_self ..

theorem setListen_of_ne {x : ListenObj} (h : c ≠ b) : (σ.setListen b x).listen c = σ.listen c :=
  Function.update_of_ne h ..

end

def get : Var → Int
  | .gOutstandingSends => σ.gOutstandingSends
  | .PendingAcceptCount l => (σ.listen l).PendingAcceptCount
  | .RepostCount l => (σ.listen l).RepostCount
  | .OutstandingRecv p => (σ.socket p.obj).OutstandingRecv
  | .OutstandingSend p => (σ.socket p.obj).OutstandingSend

def set (n : Int) : Var → Server
  | .gOutstandingSends => { σ with gOutstandingSends := n }
  | .PendingAcceptCount l => σ.setListen l { σ.listen l with PendingAcceptCount := n }
  | .RepostCount l => σ.setListen l { σ.listen l with RepostCount := n }
  | .OutstandingRecv p => σ.setSocket p.obj { σ.socket p.obj with OutstandingRecv := n }
  | .OutstandingSend p => σ.setSocket p.obj { σ.socket p.obj with OutstandingSend := n }

/-- The heap gives a buffer if the list is empty; `fail` is a heap that is full. -/
def GetBufferObj : Choice → Option (Server × Option Nat)
  | .ok =>
      match σ.gFreeBufferList with
      | some b =>
          some (({ σ with gFreeBufferList := σ.next b, next := write σ.next b none }).setBuffer b
            { σ.buffer b with buflen := cfg.gBufferSize }, some b)
      | none =>
          some (({ σ with buffers := σ.buffers + 1, next := write σ.next σ.buffers none }).setBuffer
            σ.buffers { BufferObj.zero cfg.gBufferSize with buflen := cfg.gBufferSize },
            some σ.buffers)
  | .fail => if σ.gFreeBufferList = none then some (σ, none) else none
  | .handle _ => none

def FreeBufferObj (b : Nat) : Server :=
  ({ σ with gFreeBufferList := some b, next := write σ.next b σ.gFreeBufferList }).setBuffer b
    (.zero cfg.gBufferSize)

def EnqueuePendingOperation (b : Nat) : Option Server :=
  (σ.buffer b).sock.map fun p =>
    let σ := σ.setSocket p.obj
      { σ.socket p.obj with PendingSend := (σ.socket p.obj).PendingSend + 1 }
    match σ.gPendingSendListEnd with
    | some e =>
        { σ with next := write (write σ.next b none) e (some b), gPendingSendListEnd := some b }
    | none =>
        { σ with
          next := write σ.next b none, gPendingSendList := some b, gPendingSendListEnd := some b }

def DequeuePendingOperation : Option (Server × Option Nat) :=
  match σ.gPendingSendList with
  | some b => (σ.buffer b).sock.map fun p =>
      (({ σ with
        gPendingSendList := σ.next b
        gPendingSendListEnd := if σ.next b = none then none else σ.gPendingSendListEnd }).setSocket
          p.obj { σ.socket p.obj with PendingSend := (σ.socket p.obj).PendingSend - 1 }, some b)
  | none => some (σ, none)

def InsertPendingAccept (l b : Nat) : Server :=
  ({ σ with next := write σ.next b (σ.listen l).PendingAccepts }).setListen l
    { σ.listen l with PendingAccepts := some b }

/-- Also if `b` is not found. -/
def RemovePendingAccept (l b : Nat) : Option Server :=
  (before σ.next b σ.buffers none (σ.listen l).PendingAccepts).map fun prev =>
    match prev with
    | some a => { σ with next := write σ.next a (σ.next b) }
    | none => σ.setListen l { σ.listen l with PendingAccepts := σ.next b }

/-- As `GetBufferObj`. -/
def GetSocketObj (s : SOCKET) : Choice → Option (Server × Option SockPtr)
  | .ok =>
      let σ₁ := { σ with connections := σ.connections + 1 }
      match σ.gFreeSocketList with
      | some k =>
          some (({ σ₁ with
            gFreeSocketList := σ.snext k, snext := write σ.snext k none }).setSocket k
            { σ.socket k with s := s, conn := some σ.connections }, some ⟨k, σ.connections⟩)
      | none =>
          some (({ σ₁ with sockets := σ.sockets + 1 }).setSocket σ.sockets
            { SocketObj.zero none with s := s, conn := some σ.connections },
            some ⟨σ.sockets, σ.connections⟩)
  | .fail => if σ.gFreeSocketList = none then some (σ, none) else none
  | .handle _ => none

def FreeSocketObj (p : SockPtr) : Server :=
  ({ σ with
    gFreeSocketList := some p.obj, snext := write σ.snext p.obj σ.gFreeSocketList
    frees := p :: σ.frees }).setSocket p.obj (.zero (σ.socket p.obj).SockCritSec)

/-- A buffer is posted on the socket `h`. -/
def post (operation : Operation) (key : Key) (h b len : Nat) : Server :=
  { σ with flight := ⟨operation, key, h, b, len⟩ :: σ.flight }

/-- `acceptobj->operation = OP_ACCEPT; acceptobj->sclient = socket(..)` -/
def newClient (l b : Nat) : Choice → Option (Server × Bool)
  | .handle h =>
      if σ.isOpen h = false then
        some (({ σ with
          isOpen := Function.update σ.isOpen h true, port := Function.update σ.port h none
          received := Function.update σ.received h []
          posted := Function.update σ.posted h [] }).setBuffer b
            { σ.buffer b with operation := .OP_ACCEPT, sclient := some h }, true)
      else none
  | .fail => some (({ σ with abandoned := (l, b) :: σ.abandoned }).setBuffer b
      { σ.buffer b with operation := .OP_ACCEPT, sclient := none }, false)
  | .ok => none

def AcceptEx (l b : Nat) : Choice → Option (Server × Bool)
  | .ok => (σ.buffer b).sclient.map fun h =>
      (σ.post .OP_ACCEPT (.listen l) h b ((σ.buffer b).buflen - ADDRESSES), true)
  | .fail => some ({ σ with abandoned := (l, b) :: σ.abandoned }, false)
  | .handle _ => none

/-- `recvobj->operation = OP_READ`, and `WSARecv`. -/
def WSARecv (p : SockPtr) (b : Nat) (x : Choice) : Option (Server × Bool) :=
  let σ₁ := σ.setBuffer b { σ.buffer b with operation := .OP_READ }
  match x, (σ.socket p.obj).s with
  | .ok, some h => (σ.port h).map fun q =>
      (σ₁.post .OP_READ (.sock q) h b (σ.buffer b).buflen, true)
  | .fail, _ => some (σ₁, false)
  | _, _ => none

/-- `sendobj->operation = OP_WRITE`, and `WSASend`. -/
def WSASend (p : SockPtr) (b : Nat) (x : Choice) : Option (Server × Bool) :=
  let σ₁ := σ.setBuffer b { σ.buffer b with operation := .OP_WRITE }
  match x, (σ.socket p.obj).s with
  | .ok, some h => (σ.port h).map fun q =>
      ({ σ₁.post .OP_WRITE (.sock q) h b (σ.buffer b).buflen with
        posted := Function.update σ.posted h (σ.posted h ++ [(σ.buffer b).chunk]) }, true)
  | .fail, _ => some (σ₁, false)
  | _, _ => none

def CreateIoCompletionPort (p : SockPtr) : Choice → Option (Server × Bool)
  | .ok => (σ.socket p.obj).s.map fun h =>
      ({ σ with port := Function.update σ.port h (some p) }, true)
  | .fail => some (σ, false)
  | .handle _ => none

def closesocket : SOCKET → Server
  | some h => { σ with
      isOpen := Function.update σ.isOpen h false, port := Function.update σ.port h none }
  | none => σ

end Server

/-! ## The functions -/

abbrev Program (α : Type) := Prog Cmd Cmd.Reply α

abbrev perform (c : Cmd) : Program c.Reply := Prog.perform c

def PostRecv (p : SockPtr) (b : Nat) : Program Bool := do
  perform (.EnterCriticalSection p)
  if ← perform (.WSARecv p b) then
    let _ ← perform (.InterlockedIncrement (.OutstandingRecv p))
    perform (.LeaveCriticalSection p)
    pure true
  else
    perform (.LeaveCriticalSection p)
    pure false

def PostSend (p : SockPtr) (b : Nat) : Program Bool := do
  perform (.EnterCriticalSection p)
  if ← perform (.WSASend p b) then
    perform (.InterlockedIncrement (.OutstandingSend p))
    perform (.InterlockedIncrement .gOutstandingSends)
    perform (.LeaveCriticalSection p)
    pure true
  else
    perform (.LeaveCriticalSection p)
    pure false

/-- Nobody looks at the result. -/
def PostAccept (l b : Nat) : Program Unit := do
  if ← perform (.socket l b) then
    if ← perform (.AcceptEx l b) then
      perform (.InterlockedIncrement (.PendingAcceptCount l))
    else pure ()
  else pure ()

def FreeSocketObj (p : SockPtr) : Program Unit := do
  if (← perform (.s p)) = none then perform (.FreeSocketObj p)
  else do
    perform (.closesocket p)
    perform (.setInvalid p)
    perform (.FreeSocketObj p)

/-- What `HandleIo` does if `bCleanupSocket` is set. -/
def cleanupSocket (p : SockPtr) : Program Unit := do
  perform (.closesocket p)
  perform (.setInvalid p)
  FreeSocketObj p

/-- `OutstandingSend == 0 && OutstandingRecv == 0` -/
def noneOutstanding (p : SockPtr) : Program Bool := do
  if (← perform (.read (.OutstandingSend p))) = 0 then
    let n ← perform (.read (.OutstandingRecv p))
    pure (decide (n = 0))
  else pure false

section
variable (cfg : Config)

def ProcessPendingOperations : Nat → Program Unit
  | 0 => perform .never
  | rounds + 1 => do
      if (← perform (.read .gOutstandingSends)) < cfg.gMaxSends then
        match ← perform .DequeuePendingOperation with
        | some b => do
            let p ← perform (.sock b)
            if ← PostSend p b then ProcessPendingOperations rounds
            else perform (.FreeBufferObj b)
        | none => pure ()
      else pure ()

/-- The first part of `HandleIo`; a failed accept stays in `PendingAccepts`. -/
def HandleError (key : Key) (b : Nat) : Program Unit := do
  match ← perform (.operation b), key with
  | .OP_READ, .sock p => do
      if (← perform (.InterlockedDecrement (.OutstandingRecv p))) = 0 then
        if (← perform (.read (.OutstandingSend p))) = 0 then FreeSocketObj p else pure ()
      else pure ()
      perform (.FreeBufferObj b)
  | .OP_WRITE, .sock p => do
      if (← perform (.InterlockedDecrement (.OutstandingSend p))) = 0 then
        if (← perform (.read (.OutstandingRecv p))) = 0 then FreeSocketObj p else pure ()
      else pure ()
      perform (.FreeBufferObj b)
  | .OP_ACCEPT, .listen _ => do
      perform (.closeClient b)
      perform (.FreeBufferObj b)
  | _, _ => perform .never

/-- `RepostCount` is raised and `RepostAccept` signalled, and then the common end. -/
def repost (l rounds : Nat) : Program Unit := do
  perform (.InterlockedIncrement (.RepostCount l))
  ProcessPendingOperations cfg rounds

def HandleAccept (l b BytesTransfered rounds : Nat) : Program Unit := do
  let _ ← perform (.InterlockedDecrement (.PendingAcceptCount l))
  perform (.RemovePendingAccept l b)
  match ← perform (.GetSocketObj b) with
  | some clientobj => do
      if ← perform (.setsockopt b) then
        if ← perform (.CreateIoCompletionPort clientobj) then
          perform (.setBuflen b BytesTransfered)
          perform (.setSock b clientobj)
          perform (.EnqueuePendingOperation b)
          repost cfg l rounds
        else pure ()
      else pure ()
  | none => do
      perform (.closeClient b)
      perform (.FreeBufferObj b)
      repost cfg l rounds

/-- The last part of `HandleIo`, for a socket. -/
def cleanup (p : SockPtr) (bCleanupSocket : Bool) : Program Unit := do
  if ← noneOutstanding p then
    if (← perform (.bClosing p)) || bCleanupSocket then cleanupSocket p else pure ()
  else if bCleanupSocket then cleanupSocket p
  else pure ()

def HandleRead (p : SockPtr) (b BytesTransfered rounds : Nat) : Program Unit := do
  let _ ← perform (.InterlockedDecrement (.OutstandingRecv p))
  if 0 < BytesTransfered then
    perform (.setBuflen b BytesTransfered)
    perform (.setSock b p)
    perform (.EnqueuePendingOperation b)
    ProcessPendingOperations cfg rounds
    cleanup p false
  else
    perform (.setClosing p)
    perform (.FreeBufferObj b)
    perform (.EnterCriticalSection p)
    let bCleanupSocket ← noneOutstanding p
    perform (.LeaveCriticalSection p)
    ProcessPendingOperations cfg rounds
    cleanup p bCleanupSocket

def HandleWrite (p : SockPtr) (b rounds : Nat) : Program Unit := do
  let _ ← perform (.InterlockedDecrement (.OutstandingSend p))
  let _ ← perform (.InterlockedDecrement .gOutstandingSends)
  perform (.setBuflen b cfg.gBufferSize)
  if ← perform (.bClosing p) then
    ProcessPendingOperations cfg rounds
    cleanup p false
  else
    perform (.setSock b p)
    let _ ← PostRecv p b
    ProcessPendingOperations cfg rounds
    cleanup p false

def HandleIo (key : Key) (b BytesTransfered : Nat) (error : Bool) (rounds : Nat) :
    Program Unit :=
  if error then HandleError key b
  else do
    match ← perform (.operation b), key with
    | .OP_ACCEPT, .listen l => HandleAccept cfg l b BytesTransfered rounds
    | .OP_READ, .sock p => HandleRead cfg p b BytesTransfered rounds
    | .OP_WRITE, .sock p => HandleWrite cfg p b rounds
    | _, _ => perform .never

/-- One round.  After an error the socket is read for `WSAGetOverlappedResult`. -/
def CompletionThread (key : Key) (b BytesTransfered : Nat) (error : Bool) (rounds : Nat) :
    Program Unit :=
  match error, key with
  | true, .sock p => do
      let _ ← perform (.s p)
      HandleIo cfg key b BytesTransfered error rounds
  | _, _ => HandleIo cfg key b BytesTransfered error rounds

/-- The loop of `main` over `gInitialAccepts`; it returns if the heap is full. -/
def postInitialAccepts (l : Nat) : Nat → Program Unit
  | 0 => pure ()
  | n + 1 => do
      match ← perform .GetBufferObj with
      | some b => do
          perform (.InsertPendingAccept l b)
          PostAccept l b
          postInitialAccepts l n
      | none => pure ()

/-- The loop of `main` over `limit`. -/
def postAccepts (l : Nat) : Nat → Program Unit
  | 0 => pure ()
  | n + 1 => do
      if (← perform (.read (.PendingAcceptCount l))) < cfg.gMaxAccepts then
        match ← perform .GetBufferObj with
        | some b => do
            perform (.InsertPendingAccept l b)
            PostAccept l b
            postAccepts l n
        | none => postAccepts l n
      else pure ()

/-- What a thread does in an event. -/
def Event.program : Event → Program Unit
  | .initialAccepts l => postInitialAccepts l cfg.gInitialAccepts
  | .FD_ACCEPT l => postAccepts cfg l BURST_ACCEPT_COUNT
  | .RepostAccept l => do
      let limit ← perform (.InterlockedExchange l)
      postAccepts cfg l limit.toNat
  | .completion op error data rounds =>
      CompletionThread cfg op.key op.buf data.length error rounds

/-! ## The machine -/

/-- The commands. -/
def exec (t : Nat) (_ : Event) :
    (c : Cmd) → Server → Choice → Option (Server × c.Reply)
  | .GetBufferObj, σ, x => σ.GetBufferObj cfg x
  | .GetSocketObj b, σ, x => σ.GetSocketObj (σ.buffer b).sclient x
  | .socket l b, σ, x => σ.newClient l b x
  | .AcceptEx l b, σ, x => σ.AcceptEx l b x
  | .setsockopt _, σ, x => some (σ, x = .ok)
  | .CreateIoCompletionPort p, σ, x => σ.CreateIoCompletionPort p x
  | .WSARecv p b, σ, x => σ.WSARecv p b x
  | .WSASend p b, σ, x => σ.WSASend p b x
  | .read v, σ, .ok => some (σ, σ.get v)
  | .InterlockedIncrement v, σ, .ok => some (σ.set (σ.get v + 1) v, ())
  | .InterlockedDecrement v, σ, .ok => some (σ.set (σ.get v - 1) v, σ.get v - 1)
  | .InterlockedExchange l, σ, .ok => some (σ.set 0 (.RepostCount l), σ.get (.RepostCount l))
  | .FreeBufferObj b, σ, .ok => some (σ.FreeBufferObj cfg b, ())
  | .EnqueuePendingOperation b, σ, .ok => (σ.EnqueuePendingOperation b).map fun σ => (σ, ())
  | .DequeuePendingOperation, σ, .ok => σ.DequeuePendingOperation
  | .InsertPendingAccept l b, σ, .ok => some (σ.InsertPendingAccept l b, ())
  | .RemovePendingAccept l b, σ, .ok => (σ.RemovePendingAccept l b).map fun σ => (σ, ())
  | .operation b, σ, .ok => some (σ, (σ.buffer b).operation)
  | .sock b, σ, .ok => (σ.buffer b).sock.map fun p => (σ, p)
  | .setBuflen b n, σ, .ok => some (σ.setBuffer b { σ.buffer b with buflen := n }, ())
  | .setSock b p, σ, .ok => some (σ.setBuffer b { σ.buffer b with sock := some p }, ())
  | .closeClient b, σ, .ok => some ((σ.closesocket (σ.buffer b).sclient).setBuffer b
      { σ.buffer b with sclient := none }, ())
  | .FreeSocketObj p, σ, .ok => some (σ.FreeSocketObj p, ())
  | .s p, σ, .ok => some (σ, (σ.socket p.obj).s)
  | .bClosing p, σ, .ok => some (σ, (σ.socket p.obj).bClosing)
  | .setInvalid p, σ, .ok => some (σ.setSocket p.obj { σ.socket p.obj with s := none }, ())
  | .setClosing p, σ, .ok => some (σ.setSocket p.obj { σ.socket p.obj with bClosing := true }, ())
  | .EnterCriticalSection p, σ, .ok =>
      if (σ.socket p.obj).SockCritSec = none then
        some (σ.setSocket p.obj { σ.socket p.obj with SockCritSec := some t }, ())
      else none
  | .LeaveCriticalSection p, σ, .ok =>
      some (σ.setSocket p.obj { σ.socket p.obj with SockCritSec := none }, ())
  | .closesocket p, σ, .ok => some ((σ.closesocket (σ.socket p.obj).s).setSocket p.obj
      { σ.socket p.obj with shut := true }, ())
  | _, _, _ => none

end

/-- The bytes that an operation has written when it completes. -/
def Server.arrive (σ : Server) (op : Op) (data : List UInt8) : Option Server :=
  let σ₁ := σ.setBuffer op.buf ((σ.buffer op.buf).fill op.s data)
  let σ₂ := { σ₁ with
    received := Function.update σ.received op.s (σ.received op.s ++ [⟨some op.s, data⟩]) }
  match op.operation with
  | .OP_ACCEPT => if data.length ≤ op.len then some σ₂ else none
  | .OP_READ => if data = [] then some σ else if data.length ≤ op.len then some σ₂ else none
  | .OP_WRITE => some σ

/-- What a failed operation is counted as. -/
def Server.fail (σ : Server) (op : Op) : Server :=
  match op.operation, op.key with
  | .OP_ACCEPT, .listen l =>
      { σ with failedAccepts := Function.update σ.failedAccepts l (σ.failedAccepts l + 1) }
  | .OP_WRITE, _ => { σ with failedSends := σ.failedSends + 1 }
  | _, _ => σ

/-- The beginning of an event: a completion takes its operation out of `flight`. -/
def spawn (cfg : Config) (_ : Nat) (e : Event) (σ : Server) : Option (Server × Program Unit) :=
  match e with
  | .completion op error data _ =>
      if op ∈ σ.flight then
        let σ₁ := { σ with flight := σ.flight.erase op }
        if error then some (σ₁.fail op, e.program cfg)
        else (σ₁.arrive op data).map fun σ => (σ, e.program cfg)
      else none
  | _ => some (σ, e.program cfg)

def system (cfg : Config) : System Server Cmd Cmd.Reply Choice Event Unit where
  exec := exec cfg
  spawn := spawn cfg

abbrev Machine := Programs.Machine Server Cmd Cmd.Reply Event Unit

abbrev Action := Act Choice Event

/-- All threads idle. -/
def start (cfg : Config) (threads : Nat) : Machine :=
  ⟨.start cfg, List.replicate threads none⟩

/-- A state that some run of the server reaches. -/
def Reachable (cfg : Config) (threads : Nat) (m : Machine) : Prop :=
  Via (system cfg).step (fun _ _ => True) (start cfg threads) m

end CppWorkspace.ThrottledServer
