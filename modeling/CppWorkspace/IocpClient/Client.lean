/-
# `CppWorkspace.IocpClient.Client` — the client of `iocpclient.cpp`

One thread.  `main` starts the connections and then takes the completions, one at
a time:

    GetQueuedCompletionStatus fails     the operation is reported, and forgotten
    else                                HandleIo(sockobj, buffobj, bytes, NO_ERROR)

so `HandleIo` never sees an error, although it has a branch for it.

Conventions:

* a `SOCKET_OBJ` is a number, its place in the order of creation, and so is a
  `BUFFER_OBJ` among those of its connection; the object holds what is in flight
  on its socket, and the ghost fields count what was done with it;
* an operation in flight may complete at any time and with any result;
* a post fails if the system refuses it, and on `INVALID_SOCKET`;
* the nodes of `gConnectionList` are a list.

Left out: the address and the file of a buffer, what `setsockopt` and `shutdown`
return (it is printed), the statistics but for `gCurrentConnections`, and
`SendThread`, which nothing starts.  A `socket`, `bind` or `WSAIoctl` that fails ends
the program.
-/
import Mathlib.Algebra.Ring.Int.Defs
import Mathlib.Logic.Function.Basic
import CppWorkspace.Lib.Runs

namespace CppWorkspace.IocpClient

open Runs

/-! ## Objects -/

/-- What an overlapped operation is. -/
inductive Operation
  | OP_CONNECT
  | OP_READ
  | OP_WRITE
  | OP_TRANSMIT
deriving DecidableEq, Repr

/-- The buffer of an operation. -/
structure BUFFER_OBJ where
  buf : Nat
  operation : Operation
deriving DecidableEq, Repr

/-- A connection. -/
structure SOCKET_OBJ where
  /-- `none` is `INVALID_SOCKET`. -/
  s : Option Nat
  OutstandingOps : Int
  SendCount : Int
  bConnected : Bool
  bClosing : Bool
  Repost : List BUFFER_OBJ
  flight : List BUFFER_OBJ
  /-- How many `BUFFER_OBJ`s were made for the connection. -/
  made : Nat
  /-- Those that were made for sends. -/
  senders : List Nat
  /-- The calls of `FreeBufferObj`. -/
  freed : List Nat
  /-- How many sends were posted. -/
  sends : Nat
  /-- The write side of the open socket was shut down. -/
  shut : Bool
  /-- How often `closesocket` has closed the socket. -/
  closed : Nat
deriving DecidableEq

/-- The options that the handlers read. -/
structure Config where
  gOverlappedCount : Nat
  gSendCount : Int
  gTransmitFile : Bool
  gRateLimit : Int
  gTimeout : Int

/-- No rate limit: `main` leaves `gTimeout` at 0.  There is one `TransmitFile` at a
time. -/
def Config.unlimited (gOverlappedCount : Nat) (gSendCount : Int) (gTransmitFile : Bool) :
    Config where
  gOverlappedCount := if gTransmitFile = true ∧ 1 < gOverlappedCount then 1 else gOverlappedCount
  gSendCount := gSendCount
  gTransmitFile := gTransmitFile
  gRateLimit := -1
  gTimeout := 0

namespace SOCKET_OBJ

/-- As `GetSocketObj` and `main` make it: its socket is its own number. -/
def new (cfg : Config) (c : Nat) : SOCKET_OBJ where
  s := some c
  OutstandingOps := 0
  SendCount := cfg.gSendCount
  bConnected := false
  bClosing := false
  Repost := []
  flight := []
  made := 0
  senders := []
  freed := []
  sends := 0
  shut := false
  closed := 0

/-- `GetBufferObj`. -/
def GetBufferObj (o : SOCKET_OBJ) : SOCKET_OBJ × Nat := ({ o with made := o.made + 1 }, o.made)

/-- `FreeBufferObj`. -/
def FreeBufferObj (o : SOCKET_OBJ) (b : Nat) : SOCKET_OBJ := { o with freed := b :: o.freed }

/-- `closesocket(sock->s); sock->s = INVALID_SOCKET`. -/
def closesocket (o : SOCKET_OBJ) : SOCKET_OBJ :=
  { o with s := none, closed := if o.s = none then o.closed else o.closed + 1 }

/-- `shutdown(sock->s, SD_SEND)`. -/
def shutdown (o : SOCKET_OBJ) : SOCKET_OBJ := { o with shut := o.shut || o.s.isSome }

/-- A post of the four functions, and whether it is accepted; `ok` is what the system
says. -/
def post (o : SOCKET_OBJ) (b : Nat) (operation : Operation) (ok : Bool) : SOCKET_OBJ × Bool :=
  if ok = true ∧ o.s ≠ none then
    ({ o with flight := ⟨b, operation⟩ :: o.flight, OutstandingOps := o.OutstandingOps + 1 }, true)
  else (o, false)

def PostConnect (o : SOCKET_OBJ) (b : Nat) (ok : Bool) : SOCKET_OBJ × Bool :=
  o.post b .OP_CONNECT ok

def PostRecv (o : SOCKET_OBJ) (b : Nat) (ok : Bool) : SOCKET_OBJ × Bool := o.post b .OP_READ ok

/-- `SendCount` counts the sends that are left. -/
def count (r : SOCKET_OBJ × Bool) : SOCKET_OBJ × Bool :=
  if r.2 = true then ({ r.1 with SendCount := r.1.SendCount - 1, sends := r.1.sends + 1 }, true)
  else r

def PostSend (o : SOCKET_OBJ) (b : Nat) (ok : Bool) : SOCKET_OBJ × Bool :=
  count (o.post b .OP_WRITE ok)

def PostTransmitFile (o : SOCKET_OBJ) (b : Nat) (ok : Bool) : SOCKET_OBJ × Bool :=
  count (o.post b .OP_TRANSMIT ok)

/-- The send that `gTransmitFile` chooses. -/
def postData (cfg : Config) (o : SOCKET_OBJ) (b : Nat) (ok : Bool) : SOCKET_OBJ × Bool :=
  if cfg.gTransmitFile = true then o.PostTransmitFile b ok else o.PostSend b ok

/-! ## `HandleIo` on its connection

`fails` is the number of the post that the system refuses, in the order of the calls.
-/

/-- The receives of a new connection, and `bCleanupSocket`. -/
def postRecvs (fails : Option Nat) : Nat → SOCKET_OBJ → Nat → SOCKET_OBJ × Bool
  | 0, o, _ => (o, false)
  | n + 1, o, i =>
      let b := o.GetBufferObj
      let r := b.1.PostRecv b.2 (fails ≠ some i)
      if r.2 = true then postRecvs fails n r.1 (i + 1) else (r.1.FreeBufferObj b.2, true)

/-- The first sends of a new connection, and `bCleanupSocket`. -/
def postSends (cfg : Config) (fails : Option Nat) : Nat → SOCKET_OBJ → Nat → SOCKET_OBJ × Bool
  | 0, o, _ => (o, false)
  | n + 1, o, i =>
      let b := o.GetBufferObj
      let r := postData cfg { b.1 with senders := b.2 :: b.1.senders } b.2 (fails ≠ some i)
      if r.2 = true then
        if r.1.SendCount = 0 then (r.1, false) else postSends cfg fails n r.1 (i + 1)
      else (r.1.FreeBufferObj b.2, true)

/-- A connect has completed. -/
def connected (cfg : Config) (fails : Option Nat) (o : SOCKET_OBJ) (b : Nat) :
    SOCKET_OBJ × Bool :=
  let r := postRecvs fails cfg.gOverlappedCount { o with bConnected := true } 0
  let r' := if r.2 = true then r
    else postSends cfg fails cfg.gOverlappedCount r.1 cfg.gOverlappedCount
  (r'.1.FreeBufferObj b, r'.2)

/-- A receive has completed. -/
def received (fails : Option Nat) (o : SOCKET_OBJ) (b BytesTransfered : Nat) :
    SOCKET_OBJ × Bool :=
  if 0 < BytesTransfered ∧ o.bClosing = false then
    let r := o.PostRecv b (fails ≠ some 0)
    if r.2 = true then (r.1, false) else (r.1.FreeBufferObj b, true)
  else ({ o with bClosing := true }.FreeBufferObj b, false)

/-- A send has completed: the buffer is posted again by `repost`, kept for the rate
thread, or freed. -/
def sent (cfg : Config) (o : SOCKET_OBJ) (buf : BUFFER_OBJ) (repost : SOCKET_OBJ × Bool) :
    SOCKET_OBJ × Bool :=
  if 0 < o.SendCount then
    if cfg.gRateLimit = -1 then (repost.1, !repost.2)
    else ({ o with Repost := buf :: o.Repost }, false)
  else (o.shutdown.FreeBufferObj buf.buf, false)

/-- `HandleIo` without an error, up to the test of `bClosing`; and `bCleanupSocket`. -/
def completed (cfg : Config) (fails : Option Nat) (o : SOCKET_OBJ) (buf : BUFFER_OBJ)
    (BytesTransfered : Nat) : SOCKET_OBJ × Bool :=
  match buf.operation with
  | .OP_CONNECT => o.connected cfg fails buf.buf
  | .OP_READ => o.received fails buf.buf BytesTransfered
  | .OP_WRITE => o.sent cfg buf (o.PostSend buf.buf (fails ≠ some 0))
  | .OP_TRANSMIT => o.sent cfg buf (o.PostTransmitFile buf.buf (fails ≠ some 0))

end SOCKET_OBJ

/-! ## The client -/

/-- The error of a completion, as far as the client tells them apart. -/
inductive Error
  | NO_ERROR
  | WSAECONNREFUSED
  | other
deriving DecidableEq, Repr

/-- The objects of all connections, and what is in flight. -/
structure Client where
  obj : Nat → SOCKET_OBJ
  /-- How many `SOCKET_OBJ`s `main` has made. -/
  count : Nat
  gConnectionList : List Nat
  gCurrentConnections : Int
  /-- `main` has begun to take completions, and has not left the loop. -/
  looping : Bool
  left : Bool
  /-- The `SOCKET_OBJ`s that `FreeSocketObj` has freed. -/
  freed : List Nat
  /-- `HandleIo` was called for a freed `SOCKET_OBJ`. -/
  dangling : Bool
  /-- The connections whose connect has completed. -/
  established : List Nat
  /-- The connections that `HandleIo` has cleaned up, each as often as it has. -/
  cleaned : List Nat

namespace Client

def start (cfg : Config) : Client where
  obj := SOCKET_OBJ.new cfg
  count := 0
  gConnectionList := []
  gCurrentConnections := 0
  looping := false
  left := false
  freed := []
  dangling := false
  established := []
  cleaned := []

def set (σ : Client) (c : Nat) (o : SOCKET_OBJ) : Client :=
  { σ with obj := Function.update σ.obj c o }

/-- `RemoveSocketObj(&gConnectionList, sock)`. -/
def RemoveSocketObj (σ : Client) (c : Nat) : Client :=
  { σ with gConnectionList := σ.gConnectionList.erase c }

/-- An object with outstanding operations is not freed. -/
def FreeSocketObj (σ : Client) (c : Nat) : Client :=
  if (σ.obj c).OutstandingOps ≠ 0 then σ
  else { σ.set c (σ.obj c).closesocket with freed := c :: σ.freed }

/-- The branch of `HandleIo` for an error. -/
def failed (σ : Client) (c : Nat) (buf : BUFFER_OBJ) : Client × Int :=
  let σ₁ := { σ.set c ((σ.obj c).closesocket.FreeBufferObj buf.buf) with
    cleaned := c :: σ.cleaned }
  if buf.operation = .OP_CONNECT then
    let σ₂ := (σ₁.RemoveSocketObj c).FreeSocketObj c
    (σ₂, if σ₂.gConnectionList = [] then 0 else -1)
  else if (σ₁.obj c).OutstandingOps = 0 then ((σ₁.RemoveSocketObj c).FreeSocketObj c, -1)
  else (σ₁, -1)

/-- The end of `HandleIo`, if `bCleanupSocket`. -/
def cleanup (cfg : Config) (σ : Client) (c : Nat) : Client × Int :=
  let σ₁ := { σ.set c (σ.obj c).closesocket with
    gCurrentConnections := σ.gCurrentConnections - 1
    cleaned := c :: σ.cleaned }
  if cfg.gTimeout = -1 then
    let σ₂ := (σ₁.RemoveSocketObj c).FreeSocketObj c
    (σ₂, if σ₂.gConnectionList = [] then 0 else 1)
  else if σ₁.gCurrentConnections = 0 then (σ₁, 0)
  else (σ₁, if σ₁.gConnectionList = [] then 0 else 1)

/-- `HandleIo`, and what it returns. -/
def HandleIo (cfg : Config) (fails : Option Nat) (σ : Client) (c : Nat) (buf : BUFFER_OBJ)
    (BytesTransfered : Nat) (error : Error) : Client × Int :=
  let σ₁ : Client := { σ with dangling := σ.dangling || decide (c ∈ σ.freed) }
  if error ≠ .NO_ERROR then σ₁.failed c buf
  else
    let r := (σ.obj c).completed cfg fails buf BytesTransfered
    let o : SOCKET_OBJ := { r.1 with OutstandingOps := r.1.OutstandingOps - 1 }
    let σ₂ : Client :=
      if buf.operation = .OP_CONNECT then
        { σ₁.set c o with
          gCurrentConnections := σ.gCurrentConnections + 1
          established := c :: σ.established }
      else σ₁.set c o
    if r.2 = true ∨ (o.OutstandingOps = 0 ∧ o.bClosing = true) then σ₂.cleanup cfg c
    else (σ₂, 1)

/-- The actions of the client. -/
inductive Act
  /-- `main` starts a connection; whether `ConnectEx` is accepted. -/
  | connect (ok : Bool)
  /-- A completion is taken. -/
  | completion (c : Nat) (buf : BUFFER_OBJ) (error : Error) (bytes : Nat) (fails : Option Nat)
deriving DecidableEq

/-- A completion is taken: its operation is no longer in flight. -/
def taken (σ : Client) (c : Nat) (buf : BUFFER_OBJ) : Client :=
  { σ.set c { σ.obj c with flight := (σ.obj c).flight.erase buf } with looping := true }

/-- `main`. -/
def step (cfg : Config) (σ : Client) : Act → Option Client
  | .connect ok =>
      if σ.looping = false then
        let b := (SOCKET_OBJ.new cfg σ.count).GetBufferObj
        some { σ.set σ.count (b.1.PostConnect b.2 ok).1 with
          count := σ.count + 1
          gConnectionList := σ.gConnectionList ++ [σ.count] }
      else none
  | .completion c buf error bytes fails =>
      if σ.left = false ∧ c < σ.count ∧ buf ∈ (σ.obj c).flight then
        if error = .NO_ERROR then
          let r := HandleIo cfg fails (σ.taken c buf) c buf bytes .NO_ERROR
          some { r.1 with left := r.2 == 0 }
        else some (σ.taken c buf)
      else none

/-! ## A step without a rate limit -/

section
variable {cfg : Config} {fails : Option Nat} {σ σ' : Client} {c : Nat} {buf : BUFFER_OBJ}
  {bytes : Nat}

/-- What `HandleIo` leaves of the `SOCKET_OBJ`, and whether it has cleaned up. -/
def handled (cfg : Config) (fails : Option Nat) (o : SOCKET_OBJ) (buf : BUFFER_OBJ)
    (bytes : Nat) : SOCKET_OBJ × Bool :=
  let r := o.completed cfg fails buf bytes
  let o' : SOCKET_OBJ := { r.1 with OutstandingOps := r.1.OutstandingOps - 1 }
  if r.2 = true ∨ (o'.OutstandingOps = 0 ∧ o'.bClosing = true) then (o'.closesocket, true)
  else (o', false)

/-- `gTimeout` is not -1: nothing is removed and nothing is freed. -/
theorem HandleIo_eq (ht : cfg.gTimeout = 0) :
    (HandleIo cfg fails σ c buf bytes .NO_ERROR).1 =
      { σ.set c (handled cfg fails (σ.obj c) buf bytes).1 with
        dangling := σ.dangling || decide (c ∈ σ.freed)
        gCurrentConnections := σ.gCurrentConnections
          + (if buf.operation = .OP_CONNECT then 1 else 0)
          - (if (handled cfg fails (σ.obj c) buf bytes).2 = true then 1 else 0)
        established := if buf.operation = .OP_CONNECT then c :: σ.established else σ.established
        cleaned := if (handled cfg fails (σ.obj c) buf bytes).2 = true then c :: σ.cleaned
          else σ.cleaned } := by
  have hne : cfg.gTimeout ≠ -1 := by omega
  unfold HandleIo handled
  split
  next he => exact absurd rfl he
  next =>
    by_cases hop : buf.operation = .OP_CONNECT
    · simp only [hop, if_true]
      split
      · simp only [cleanup, if_neg hne]
        split <;> simp [set]
      · simp [set]
    · simp only [hop, if_false]
      split
      · simp only [cleanup, if_neg hne]
        split <;> simp [set]
      · simp [set]

theorem step_cases {a : Act} (h : step cfg σ a = some σ') :
    (∃ ok, a = .connect ok ∧ σ.looping = false ∧ σ' =
      { σ.set σ.count ((SOCKET_OBJ.new cfg σ.count).GetBufferObj.1.PostConnect 0 ok).1 with
        count := σ.count + 1
        gConnectionList := σ.gConnectionList ++ [σ.count] }) ∨
    (∃ c buf error bytes fails, a = .completion c buf error bytes fails ∧ c < σ.count
      ∧ buf ∈ (σ.obj c).flight ∧
      ((error ≠ .NO_ERROR ∧ σ' = σ.taken c buf) ∨
        (error = .NO_ERROR ∧ ∃ left,
          σ' = { (HandleIo cfg fails (σ.taken c buf) c buf bytes .NO_ERROR).1 with
            left := left }))) := by
  cases a with
  | connect ok =>
      obtain ⟨hl, he⟩ := Option.ite_none_right_eq_some.mp h
      cases he
      exact .inl ⟨ok, rfl, hl, rfl⟩
  | completion c buf error bytes fails =>
      obtain ⟨⟨-, hc, hbuf⟩, he⟩ := Option.ite_none_right_eq_some.mp h
      refine .inr ⟨c, buf, error, bytes, fails, rfl, hc, hbuf, ?_⟩
      split at he
      · cases he
        exact .inr ⟨‹_›, _, rfl⟩
      · cases he
        exact .inl ⟨‹_›, rfl⟩

end

end Client

end CppWorkspace.IocpClient
