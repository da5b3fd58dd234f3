/-
# `CppWorkspace.OrderedServer.Socket` — one socket of `iocpserver.cpp`

A socket keeps `gOverlappedCount` receives posted at a time and echoes what they
bring.  Receives complete in any order, so `PostRecv` stamps each with an `IoOrder`,
and what has been received waits in `OutOfOrderSends` until it is its turn
(`InsertPendingSend`, `DoSends`).

The machine is one data socket: the socket of an accepted client (TCP) or one of the
sockets `main` receives datagrams on (UDP).  Its actions are

* `post`       the next `PostRecv` of the thread that sets the socket up
* `complete`   `HandleIo` of one of the operations in flight

and each is one step, since all calls of `HandleIo` on a socket run under its
`SockCritSec` and the error branch, which does not, only counts.  Completions may be
handled in any order and between any two posts of the set-up.

`net` decides, for each `WSARecv*` and `WSASend*` of the run in turn, whether it is
accepted; on a closed socket none is.  The functions return `true` for `NO_ERROR`.

`issued`, `no`, `received`, `failed`, `sent` and the two counts are not in the source:
the receives of a socket are numbered without wrapping, the data of the accept being
number `0`, and the run keeps a record of what has come and what has been sent.  The
buffer of a receive is always `gBufferSize` long, and the addresses, statistics and
locks carry nothing that a modelled function reads; these are left out.
-/
import CppWorkspace.Lib.Runs

namespace CppWorkspace.OrderedServer

abbrev ULONG := UInt32

/-- `gProtocol`. -/
inductive Protocol where
  | tcp
  | udp
deriving DecidableEq, Repr

/-- The operations on a connected socket. -/
inductive Operation where
  | opRead
  | opWrite
deriving DecidableEq, Repr

/-- `BUFFER_OBJ`: `buf` are its first `buflen` bytes once it is to be sent. -/
structure BufferObj where
  operation : Operation
  buf : List UInt8
  addr : Nat
  IoOrder : ULONG
  no : Nat
deriving DecidableEq, Repr

/-- What `GetBufferObj` hands out: zeroed memory. -/
def getBufferObj : BufferObj := ⟨.opRead, [], 0, 0, 0⟩

/-- `SOCKET_OBJ`; `isOpen` says that `s` is not `INVALID_SOCKET`. -/
structure SocketObj where
  isOpen : Bool
  bClosing : Bool
  OutstandingOps : Int
  LastSendIssued : ULONG
  IoCountIssued : ULONG
  OutOfOrderSends : List BufferObj

/-- A socket with the operations in flight on it and the record of its run. -/
structure Socket extends SocketObj where
  inFlight : List BufferObj
  /-- receives that the set-up has still to post -/
  toPost : Nat
  /-- numbers given to receives -/
  issued : Nat
  /-- what has come, by number: the bytes and the address of the sender -/
  received : Nat → Option (List UInt8 × Nat)
  /-- receives that completed with an error -/
  failed : List Nat
  /-- the calls of `PostSend` -/
  sent : List BufferObj
  posts : Nat
  refused : Nat
  freedBuffers : List BufferObj
  /-- calls of `FreeSocketObj` that freed the object -/
  freed : Nat

namespace Socket

variable (gProtocol : Protocol) (net : Nat → Bool)

/-- `GetSocketObj`.  "For TCP we initialize the IO count to one since the AcceptEx is
posted to receive data". -/
def getSocketObj : Socket where
  isOpen := true
  bClosing := false
  OutstandingOps := 0
  LastSendIssued := 0
  IoCountIssued := if gProtocol = .tcp then 1 else 0
  OutOfOrderSends := []
  inFlight := []
  toPost := 0
  issued := if gProtocol = .tcp then 1 else 0
  received := fun _ => none
  failed := []
  sent := []
  posts := 0
  refused := 0
  freedBuffers := []
  freed := 0

def freeBufferObj (obj : BufferObj) (s : Socket) : Socket :=
  { s with freedBuffers := obj :: s.freedBuffers }

/-- `closesocket` and `s = INVALID_SOCKET`. -/
def closesocket (s : Socket) : Socket := { s with isOpen := false }

/-- "If there are outstanding operations, the object is not freed". -/
def freeSocketObj (s : Socket) : Socket :=
  if s.OutstandingOps ≠ 0 then s else { s with isOpen := false, freed := s.freed + 1 }

/-! ## Posting -/

/-- `WSARecv*` or `WSASend*`, and the counting of the operation. -/
def issue (obj : BufferObj) (s : Socket) : Bool × Socket :=
  if s.isOpen ∧ net s.posts then
    (true, { s with
      posts := s.posts + 1
      inFlight := s.inFlight ++ [obj]
      OutstandingOps := s.OutstandingOps + 1 })
  else (false, { s with posts := s.posts + 1, refused := s.refused + 1 })

def postRecv (recvobj : BufferObj) (s : Socket) : Bool × Socket :=
  issue net { recvobj with operation := .opRead, IoOrder := s.IoCountIssued, no := s.issued }
    { s with IoCountIssued := s.IoCountIssued + 1, issued := s.issued + 1 }

def postSend (sendobj : BufferObj) (s : Socket) : Bool × Socket :=
  issue net { sendobj with operation := .opWrite }
    { s with LastSendIssued := s.LastSendIssued + 1, sent := s.sent ++ [sendobj] }

/-! ## The sends that wait for their turn -/

/-- The loop of `InsertPendingSend`: past every buffer that is not larger. -/
def insertBefore (send : BufferObj) : List BufferObj → List BufferObj
  | [] => [send]
  | ptr :: rest =>
      if send.IoOrder < ptr.IoOrder then send :: ptr :: rest
      else ptr :: insertBefore send rest

def insertPendingSend (send : BufferObj) (s : Socket) : Socket :=
  { s with OutOfOrderSends := insertBefore send s.OutOfOrderSends }

/-- The loop of `DoSends`.  A buffer whose send is refused is freed and stays at the
head of the list. -/
def doSendsFrom : List BufferObj → Socket → Bool × Socket
  | [], s => (true, s)
  | sendobj :: rest, s =>
      if sendobj.IoOrder = s.LastSendIssued then
        match postSend net sendobj s with
        | (true, s) => doSendsFrom rest { s with OutOfOrderSends := rest }
        | (false, s) => (false, freeBufferObj sendobj s)
      else (true, s)

def doSends (s : Socket) : Bool × Socket := doSendsFrom net s.OutOfOrderSends s

/-! ## `HandleIo`

Each branch yields `error`, `bCleanupSocket` and the socket. -/

/-- The send buffer: the bytes of the receive under its order; the address is copied
"if (gProtocol == IPPROTO_UDP)". -/
def echoOf (buf : BufferObj) (bytes : List UInt8) (sender : Nat) : BufferObj :=
  { getBufferObj with
    buf := bytes
    addr := if gProtocol = .udp then sender else getBufferObj.addr
    IoOrder := buf.IoOrder
    no := buf.no }

/-- A receive that brought data, or any datagram. -/
def receiveCompleted (buf : BufferObj) (bytes : List UInt8) (sender : Nat) (s : Socket) :
    Bool × Bool × Socket :=
  let sendobj := echoOf gProtocol buf bytes sender
  let s := { s with received := fun k =>
    if k = buf.no then some (sendobj.buf, sendobj.addr) else s.received k }
  match doSends net (insertPendingSend sendobj s) with
  | (false, s) => (true, false, s)
  | (true, s) =>
      match postRecv net buf s with
      | (true, s) => (false, false, s)
      | (false, s) => (true, false, freeBufferObj buf s)

/-- "Graceful close - the receive returned 0 bytes read". -/
def receiveEnded (buf : BufferObj) (s : Socket) : Bool × Bool × Socket :=
  let r := doSends net (freeBufferObj buf { s with bClosing := true })
  (!r.1, r.2.OutstandingOps = 0 ∧ r.2.OutOfOrderSends = [], r.2)

/-- "If for UDP, a receive completes with an error, we ignore it and re-post the
recv"; `error` keeps its value. -/
def receiveFailed (buf : BufferObj) (s : Socket) : Bool × Bool × Socket :=
  (true, false, (postRecv net buf { s with failed := buf.no :: s.failed }).2)

def sendCompleted (buf : BufferObj) (error : Bool) (s : Socket) : Bool × Bool × Socket :=
  let r := doSends net (freeBufferObj buf s)
  (error || !r.1, false, r.2)

/-- The end of the critical section: the operation is counted off, then the socket is
cleaned up or the sends are tried once more. -/
def leave (r : Bool × Bool × Socket) : Socket :=
  let s := { r.2.2 with
    bClosing := r.1 || r.2.2.bClosing
    OutstandingOps := r.2.2.OutstandingOps - 1 }
  if s.OutstandingOps = 0 ∧ s.bClosing ∧ s.OutOfOrderSends = [] then
    freeSocketObj (closesocket s)
  else
    let d := doSends net s
    if r.2.1 ∨ d.1 = false then freeSocketObj (closesocket d.2) else d.2

def handleIo (buf : BufferObj) (bytes : List UInt8) (sender : Nat) (error : Bool) (s : Socket) :
    Socket :=
  if error ∧ gProtocol = .tcp then
    let s := freeBufferObj buf { s with OutstandingOps := s.OutstandingOps - 1 }
    if s.OutstandingOps = 0 then freeSocketObj s else s
  else
    match buf.operation with
    | .opRead =>
        if error then leave net (receiveFailed net buf s)
        else if bytes ≠ [] ∨ gProtocol = .udp then
          leave net (receiveCompleted gProtocol net buf bytes sender s)
        else leave net (receiveEnded net buf s)
    | .opWrite => leave net (sendCompleted net buf error s)

/-! ## The set-up -/

/-- The accept handler gives a new connection up: a post was refused. -/
def abandon (s : Socket) : Socket :=
  if s.OutstandingOps = 0 then freeSocketObj (closesocket s) else { s with bClosing := true }

/-- The accept handler has echoed the data that came with the accept; `n` receives are
to be posted. -/
def accepted (n : Nat) (bytes : List UInt8) : Socket :=
  let sendobj := { getBufferObj with buf := bytes }
  match postSend net sendobj { getSocketObj .tcp with
      received := fun k => if k = 0 then some (bytes, 0) else none } with
  | (true, s) => { s with toPost := n }
  | (false, s) => abandon (freeBufferObj sendobj s)

/-- `main` has created a socket for datagrams. -/
def opened (n : Nat) : Socket := { getSocketObj .udp with toPost := n }

/-- One round of the loop that posts the receives.  If a post is refused the accept
handler leaves the loop; `main` does not look at the result. -/
def postNext (s : Socket) : Socket :=
  match postRecv net getBufferObj { s with toPost := s.toPost - 1 } with
  | (true, s) => s
  | (false, s) =>
      match gProtocol with
      | .tcp => abandon (freeBufferObj getBufferObj { s with toPost := 0 })
      | .udp => s

end Socket

/-! ## The machine -/

/-- The posts and completions of one socket object. -/
inductive Action where
  | post
  | complete (i : Nat) (bytes : List UInt8) (sender : Nat) (error : Bool)
deriving DecidableEq, Repr

/-- One step of the socket. -/
def step (gProtocol : Protocol) (net : Nat → Bool) (s : Socket) : Action → Option Socket
  | .post => if s.toPost = 0 then none else some (s.postNext gProtocol net)
  | .complete i bytes sender error =>
      s.inFlight[i]?.map fun buf =>
        Socket.handleIo gProtocol net buf bytes sender error
          { s with inFlight := s.inFlight.eraseIdx i }

end CppWorkspace.OrderedServer
