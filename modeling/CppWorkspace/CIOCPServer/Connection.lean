/-
# `CppWorkspace.CIOCPServer.Connection` — one connection under any number of workers

The machine of one `CIOCPContext` from `AllocateContext` on: every call that
works on it is an entry of `calls`, and one action lets one call take its next
atomic step.  Nothing orders the calls, so a run is an arbitrary interleaving
of arbitrarily many workers.

**Who works on the context** (`Job`)

* `io`      `HandleIO` with this context as its key, for one completed read or send
* `accept`  `HandleIO` of the accept that created it (key `0`), from `AddAConnection` on
* `app`     any other thread, inside `SendText` or `CloseAConnection`

**Atomic steps** (`Pc` is the position BEFORE the step): every critical
section, every `WSASend`, every unlocked read of `bClosing` or of a counter,
the three accesses of `GetNextReadBuffer`, the entry of a callback, the
interlocked increment.  `WSARecv` runs inside the critical section of
`PostRecv` and is one step with it.  A passed zero-counter test and the call of
`ReleaseContext` it leads to are one step, since nothing shared is read in
between; `released` counts these calls.

**The kernel**: `inFlight` holds the operations that were posted and whose
completion no worker has taken yet.  A completion can be taken at any time
after the post and in any order, with any outcome.  A post on anything but the
open socket of the connection is refused; a post on it may be refused as well
(`Choice.ok`).

Callbacks are a parameter: each yields the texts that it hands to `SendText`
on its own context.  `CMyServer`, the server of `main`, echoes.
-/
import CppWorkspace.CIOCPServer.Data
import CppWorkspace.Lib.Runs

namespace CppWorkspace.CIOCPServer

open Weights

/-- What is handed to `SendText`: `nLen` bytes. -/
abbrev Text := List UInt8

/-- The members that are set before a connection exists, and the virtual
functions: the texts each of them sends. -/
structure Config where
  nMaxSends : Int
  nInitialReads : Nat
  onConnectionEstablished : CIOCPBuffer → List Text
  onReadCompleted : CIOCPBuffer → List Text
  onWriteCompleted : CIOCPBuffer → List Text

/-- `CMyServer` with the constructor's `m_nMaxSends` and `Start`'s default
`nInitialReads`: what arrives is sent back. -/
def cMyServer : Config where
  nMaxSends := 20
  nInitialReads := 4
  onConnectionEstablished := fun b => [b.buff]
  onReadCompleted := fun b => [b.buff]
  onWriteCompleted := fun _ => []

/-- What a call was started for. -/
inductive Job where
  | io (pBuffer : CIOCPBuffer) (dwTrans nError : Nat)
  | accept (pBuffer : CIOCPBuffer)
  | app
deriving DecidableEq, Repr

/-- Who called `SendText`, and so what follows when the callback is through. -/
inductive Sender where
  | readCompleted (p : CIOCPBuffer)
  | writeCompleted
  | established
  | app
deriving DecidableEq, Repr

/-- Who called `AllocateBuffer` and `PostRecv`. -/
inductive Receiver where
  | repost
  | initial (left : Nat)
deriving DecidableEq, Repr

/-- What the caller of `CloseAConnection` does next. -/
inductive AfterClose where
  | test
  | release
  | leave
deriving DecidableEq, Repr

/-- The step a call takes next. -/
inductive Pc where
  | enter
  | testClosing
  | notify
  | unlink (k : AfterClose)
  | close (k : AfterClose)
  | testCounters
  | release
  | finish
  | compare
  | insert
  | headTest
  | call (p : CIOCPBuffer)
  | send (k : Sender) (ts : List Text)
  | throttle (k : Sender) (b : CIOCPBuffer) (ts : List Text)
  | wsaSend (k : Sender) (b : CIOCPBuffer) (ts : List Text)
  | countSend (k : Sender) (ts : List Text)
  | increment (p : CIOCPBuffer)
  | drop (p : CIOCPBuffer)
  | alloc (k : Receiver)
  | recv (k : Receiver) (addr : Nat)
  | add
  | keepAlive
  | ioctl
  | reads (left : Nat)
  | returned
deriving DecidableEq, Repr

/-- One call of `HandleIO`, or of the application, and where it is. -/
structure Call where
  job : Job
  pc : Pc
deriving DecidableEq, Repr

/-- What an observer of the connection sees, oldest first. -/
inductive Event where
  | established
  | readCompleted (p : CIOCPBuffer)
  | writeCompleted
  | closing
  | error (nError : Nat)
  | noBuffer (t : Text)
  | throttled (t : Text) (nOutstandingSend : Int)
  | admitted (t : Text) (nOutstandingSend : Int)
  | sent (t : Text)
deriving DecidableEq, Repr

/-- The shared state: the context, the kernel's side, and what was observed.
`reads`, `delivered` and `released` count, without wrapping, the accepted
`WSARecv` calls, the increments of `nCurrentReadSequence` and the calls of
`ReleaseContext`. -/
structure Core where
  ctx : CIOCPContext
  sock : SOCKET
  sockOpen : Bool
  inFlight : List CIOCPBuffer
  reads : Nat
  delivered : Nat
  released : Nat
  trace : List Event
deriving DecidableEq, Repr

/-- A connection with the calls that work on it. -/
structure Conn extends Core where
  calls : List Call
deriving DecidableEq, Repr

/-- The outcome of a call into the system: whether it is accepted, and what
`AllocateBuffer` returns. -/
structure Choice where
  ok : Bool
  addr : Option Nat
deriving DecidableEq, Repr

namespace Core

def log (k : Core) (e : Event) : Core := { k with trace := k.trace ++ [e] }

/-- Whether `WSARecv` or `WSASend` on `pContext->s` is accepted. -/
def accepts (k : Core) (ok : Bool) : Bool := ok && k.ctx.s == k.sock && k.sockOpen

/-- The critical section of `NotifyConnectionClosing` and `NotifyConnectionError`. -/
def notify (k : Core) (e : Event) : Core :=
  if k.ctx.bNotifyCloseOrError then k
  else { k with ctx := { k.ctx with bNotifyCloseOrError := true }, trace := k.trace ++ [e] }

/-- The second critical section of `CloseAConnection`. -/
def close (k : Core) : Core :=
  { k with ctx := k.ctx.close, sockOpen := k.sockOpen && k.ctx.s != k.sock }

/-- The body of `ReleaseContext`, with the context kept on the free list.  The
parked buffers go back to the pool. -/
def release (k : Core) : Core :=
  { k with ctx := .zeroed, sockOpen := k.sockOpen && k.ctx.s != k.sock }

/-- The critical section of `PostRecv`, when `WSARecv` is accepted. -/
def postRecv (k : Core) (addr : Nat) : Core :=
  { k with
    ctx := k.ctx.countRecv
    inFlight := k.inFlight ++
      [{ addr, nOperation := .opRead, nSequenceNumber := k.ctx.nReadSequence, buff := [],
         no := k.reads }]
    reads := k.reads + 1 }

/-- An accepted `WSASend`. -/
def wsaSend (k : Core) (b : CIOCPBuffer) : Core :=
  { k with
    inFlight := k.inFlight ++ [{ b with nOperation := .opWrite }]
    trace := k.trace ++ [.sent b.buff] }

end Core

/-- `HandleIO` after the test of `bClosing`: the error branch, the two
zero-byte branches and the two data branches. -/
def dispatch (cfg : Config) : Job → Core → Core × Pc
  | .io b dwTrans nError, k =>
      if nError ≠ noError then (k, .notify)
      else if dwTrans = 0 then (k, .notify)
      else match b.nOperation with
        | .opRead => (k, .compare)
        | .opWrite => (k.log .writeCompleted, .send .writeCompleted (cfg.onWriteCompleted b))
        | .opAccept => (k, .finish)
  | .accept _, k => (k, .finish)
  | .app, k => (k, .returned)

/-- What a notification reports. -/
def notification : Job → Event
  | .io _ _ nError => if nError ≠ noError then .error nError else .closing
  | _ => .closing

/-- The caller of `SendText` after its last text. -/
def afterSend (cfg : Config) : Sender → Pc
  | .readCompleted p => .increment p
  | .writeCompleted => .finish
  | .established => .reads cfg.nInitialReads
  | .app => .returned

/-- The caller of `CloseAConnection` afterwards.  `HandleIO` of a read has no
buffer left when it closes after a failed `PostRecv`; the accept branch still
has to give its buffer back. -/
def afterClose : Job → AfterClose → Pc
  | _, .test => .testCounters
  | _, .release => .release
  | .accept _, .leave => .finish
  | _, .leave => .returned

/-- The caller of a successful `PostRecv`. -/
def afterRecv : Receiver → Pc
  | .repost => .returned
  | .initial left => .reads left

/-- `AllocateBuffer` returned `NULL`: `HandleIO` of a read closes the
connection, the accept branch just posts one read less. -/
def afterNoBuffer : Receiver → Pc
  | .repost => .unlink .leave
  | .initial left => .reads left

/-- One atomic step of a call. -/
def stepCall (cfg : Config) (ch : Choice) (k : Core) (job : Job) : Pc → Core × Pc
  -- HandleIO
  | .enter =>
      (match job with
        | .io b _ _ => { k with ctx := k.ctx.countDown b.nOperation }
        | _ => k, .testClosing)
  | .testClosing => if k.ctx.bClosing then (k, .testCounters) else dispatch cfg job k
  | .notify => (k.notify (notification job), .unlink .test)
  | .unlink a => (k, .close a)
  | .close .release => ({ k.close with released := k.released + 1 }, .release)
  | .close a => (k.close, afterClose job a)
  | .testCounters =>
      if k.ctx.nothingOutstanding then ({ k with released := k.released + 1 }, .release)
      else (k, .finish)
  | .release => (k.release, .finish)
  | .finish => (k, .returned)
  -- GetNextReadBuffer and the read loop
  | .compare =>
      match job with
      | .io b _ _ => if isNextRead k.ctx b then (k, .call b) else (k, .insert)
      | _ => (k, .returned)
  | .insert =>
      (match job with
        | .io b _ _ => { k with ctx := k.ctx.park b }
        | _ => k, .headTest)
  | .headTest =>
      match takeHead k.ctx with
      | (c, some p) => ({ k with ctx := c }, .call p)
      | (_, none) => (k, .alloc .repost)
  | .call p => (k.log (.readCompleted p), .send (.readCompleted p) (cfg.onReadCompleted p))
  | .increment p => ({ k with ctx := k.ctx.nextRead, delivered := k.delivered + 1 }, .drop p)
  | .drop _ => (k, .headTest)
  -- SendText and PostSend
  | .send a [] => (k, afterSend cfg a)
  | .send a (t :: ts) =>
      match ch.addr with
      | some addr =>
          if t.length ≤ bufferSize then
            (k, .throttle a
              { addr, nOperation := .opWrite, nSequenceNumber := 0, buff := t, no := 0 } ts)
          else (k.log (.noBuffer t), .send a ts)
      | none => (k.log (.noBuffer t), .send a ts)
  | .throttle a b ts =>
      if cfg.nMaxSends < k.ctx.nOutstandingSend then
        (k.log (.throttled b.buff k.ctx.nOutstandingSend), .send a ts)
      else (k.log (.admitted b.buff k.ctx.nOutstandingSend), .wsaSend a b ts)
  | .wsaSend a b ts => if k.accepts ch.ok then (k.wsaSend b, .countSend a ts) else (k, .send a ts)
  | .countSend a ts => ({ k with ctx := k.ctx.countSend }, .send a ts)
  -- AllocateBuffer and PostRecv
  | .alloc a =>
      match ch.addr with
      | some addr => (k, .recv a addr)
      | none => (k, afterNoBuffer a)
  | .recv a addr => if k.accepts ch.ok then (k.postRecv addr, afterRecv a) else (k, .unlink .leave)
  -- the accept branch
  | .add => if ch.ok then (k, .keepAlive) else (k, .unlink .release)
  | .keepAlive => if ch.ok then (k, .ioctl) else (k, .unlink .leave)
  | .ioctl =>
      match job with
      | .accept b =>
          if ch.ok then (k.log .established, .send .established (cfg.onConnectionEstablished b))
          else (k, .unlink .leave)
      | _ => (k, .returned)
  | .reads 0 => (k, .finish)
  | .reads (left + 1) => (k, .alloc (.initial left))
  | .returned => (k, .returned)

/-- What can happen to a connection. -/
inductive Action where
  /-- a worker takes the completion of `inFlight[i]`: `data` is what was
  received or sent, so `dwTrans` is its length -/
  | dequeue (i : Nat) (data : List UInt8) (nError : Nat)
  /-- call `i` takes its next step -/
  | step (i : Nat) (ch : Choice)
  /-- another thread, which knows the context from `OnConnectionEstablished`,
  calls `SendText` -/
  | sendText (t : Text)
  /-- such a thread calls `CloseAConnection` -/
  | closeAConnection
deriving DecidableEq, Repr

/-- The buffer of a completed operation: a read has received `data`. -/
def completed (b : CIOCPBuffer) (data : List UInt8) : CIOCPBuffer :=
  match b.nOperation with
  | .opRead => { b with buff := data }
  | _ => b

/-- How much a completion can carry: the whole buffer at most. -/
def fits (b : CIOCPBuffer) (data : List UInt8) : Bool :=
  match b.nOperation with
  | .opRead => decide (data.length ≤ bufferSize)
  | _ => decide (data.length ≤ b.buff.length)

namespace Conn

def start (c : Conn) (job : Job) (pc : Pc) : Conn := { c with calls := c.calls ++ [⟨job, pc⟩] }

/-- `OnConnectionEstablished` has handed the context to the application. -/
def known (c : Conn) : Bool := decide (.established ∈ c.trace)

/-- Call `i`, which is `a`, has taken its step with result `r`. -/
def become (c : Conn) (i : Nat) (a : Call) (r : Core × Pc) : Conn where
  toCore := r.1
  calls := c.calls.set i { a with pc := r.2 }

def step (cfg : Config) (c : Conn) : Action → Option Conn
  | .dequeue i data nError =>
      match c.inFlight[i]? with
      | none => none
      | some b =>
          if fits b data then
            some (({ c with inFlight := c.inFlight.eraseIdx i } : Conn).start
              (.io (completed b data) data.length nError) .enter)
          else none
  | .step i ch =>
      match c.calls[i]? with
      | none => none
      | some a =>
          if a.pc = .returned then none
          else some (c.become i a (stepCall cfg ch c.toCore a.job a.pc))
  | .sendText t => if c.known then some (c.start .app (.send .app [t])) else none
  | .closeAConnection => if c.known then some (c.start .app (.unlink .leave)) else none

/-- The connection as the accept branch of `HandleIO` gets it from
`AllocateContext`: the worker stands before `AddAConnection`. -/
def init (sock : SOCKET) (pBuffer : CIOCPBuffer) : Conn where
  ctx := .allocated sock
  sock := sock
  sockOpen := true
  inFlight := []
  reads := 0
  delivered := 0
  released := 0
  trace := []
  calls := [⟨.accept pBuffer, .add⟩]

theorem step_eq {cfg : Config} {c d : Conn} {i : Nat} {ch : Choice}
    (h : c.step cfg (.step i ch) = some d) :
    ∃ a, c.calls[i]? = some a ∧ a.pc ≠ .returned ∧
      d = c.become i a (stepCall cfg ch c.toCore a.job a.pc) := by
  simp only [step] at h
  cases ha : c.calls[i]? with
  | none => simp [ha] at h
  | some a =>
      simp only [ha] at h
      split at h
      · cases h
      · rename_i hne
        exact ⟨a, rfl, hne, by simpa using h.symm⟩

theorem dequeue_eq {cfg : Config} {c d : Conn} {i : Nat} {data : List UInt8} {nError : Nat}
    (h : c.step cfg (.dequeue i data nError) = some d) :
    ∃ b, c.inFlight[i]? = some b ∧ fits b data = true ∧
      d = ({ c with inFlight := c.inFlight.eraseIdx i } : Conn).start
        (.io (completed b data) data.length nError) .enter := by
  simp only [step] at h
  cases hb : c.inFlight[i]? with
  | none => simp [hb] at h
  | some b =>
      simp only [hb] at h
      split at h
      · rename_i hf
        exact ⟨b, rfl, hf, by simpa using h.symm⟩
      · cases h

theorem sendText_eq {cfg : Config} {c d : Conn} {t : Text}
    (h : c.step cfg (.sendText t) = some d) :
    c.known = true ∧ d = c.start .app (.send .app [t]) := by
  simp only [step] at h
  split at h
  · rename_i hk
    exact ⟨hk, by simpa using h.symm⟩
  · cases h

theorem closeAConnection_eq {cfg : Config} {c d : Conn}
    (h : c.step cfg .closeAConnection = some d) :
    c.known = true ∧ d = c.start .app (.unlink .leave) := by
  simp only [step] at h
  split at h
  · rename_i hk
    exact ⟨hk, by simpa using h.symm⟩
  · cases h

@[simp] theorem become_toCore (c : Conn) (i : Nat) (a : Call) (r : Core × Pc) :
    (c.become i a r).toCore = r.1 := rfl

theorem mem_become {c : Conn} {i : Nat} {a x : Call} {r : Core × Pc}
    (h : x ∈ (c.become i a r).calls) : x ∈ c.calls ∨ x = { a with pc := r.2 } :=
  List.mem_or_eq_of_mem_set h

theorem others_become {c : Conn} {i : Nat} {a x : Call} {r : Core × Pc}
    (h : x ∈ (c.become i a r).calls) : x ∈ c.calls.eraseIdx i ∨ x = { a with pc := r.2 } := by
  obtain ⟨j, hj⟩ := List.mem_iff_getElem?.mp h
  simp only [become, List.getElem?_set] at hj
  by_cases hij : i = j
  · rw [if_pos hij] at hj
    split at hj
    · exact .inr (Option.some.inj hj).symm
    · cases hj
  · rw [if_neg hij] at hj
    exact .inl (List.mem_eraseIdx_iff_getElem?.mpr ⟨j, fun e => hij e.symm, hj⟩)

theorem weight_become (f : Call → Nat) {c : Conn} {i : Nat} {a : Call} (r : Core × Pc)
    (h : c.calls[i]? = some a) :
    ∃ others, weight f c.calls = f a + others ∧
      weight f (c.become i a r).calls = f { a with pc := r.2 } + others := by
  have he := weight_eraseIdx f h
  have hs := weight_set f { a with pc := r.2 } h
  refine ⟨weight f (c.calls.eraseIdx i), by omega, ?_⟩
  simp only [become]
  omega

end Conn

/-- The call is a `HandleIO` with this context as its key and has not returned. -/
def Call.inside (a : Call) : Bool :=
  match a.job with
  | .io .. => a.pc != .returned
  | _ => false

/-! ## Which positions a call can have -/

def Job.isIo : Job → Bool
  | .io .. => true
  | _ => false

def Job.isRead : Job → Bool
  | .io b _ _ => b.nOperation == .opRead
  | _ => false

def Job.isWrite : Job → Bool
  | .io b _ _ => b.nOperation == .opWrite
  | _ => false

def Job.isAccept : Job → Bool
  | .accept _ => true
  | _ => false

def Job.isApp : Job → Bool
  | .app => true
  | _ => false

/-- `SendText` is called in this place by this job. -/
def Sender.belongs (job : Job) : Sender → Bool
  | .readCompleted _ => job.isRead
  | .writeCompleted => job.isWrite
  | .established => job.isAccept
  | .app => job.isApp

/-- The position lies in the part of the code that the job runs through. -/
def Pc.belongs (job : Job) : Pc → Bool
  | .enter | .testClosing | .notify | .unlink .test | .close .test | .testCounters => job.isIo
  | .compare | .insert | .headTest | .call _ | .increment _ | .drop _ => job.isRead
  | .alloc .repost | .recv .repost _ => job.isRead
  | .send k _ | .throttle k _ _ | .wsaSend k _ _ | .countSend k _ => k.belongs job
  | .add | .keepAlive | .ioctl | .reads _ => job.isAccept
  | .alloc (.initial _) | .recv (.initial _) _ => job.isAccept
  | .unlink .release | .close .release => job.isAccept
  | .unlink .leave | .close .leave | .release | .finish | .returned => true

theorem stepCall_belongs (cfg : Config) (ch : Choice) (k : Core) {job : Job} {pc : Pc}
    (h : pc.belongs job = true) : (stepCall cfg ch k job pc).2.belongs job = true := by
  cases pc with
  | testClosing =>
      simp only [stepCall]
      split
      · exact h
      · cases job with
        | io b t e =>
            simp only [dispatch]
            repeat' split
            all_goals simp_all [Pc.belongs, Sender.belongs, Job.isIo, Job.isRead, Job.isWrite]
        | accept b | app => cases h
  | send a ts =>
      cases ts with
      | nil => cases a <;> first | exact h | rfl
      | cons t ts =>
          simp only [stepCall]
          repeat' split
          all_goals exact h
  | close a =>
      cases a with
      | test => exact h
      | release => rfl
      | leave => cases job <;> rfl
  | unlink a => cases a <;> exact h
  | headTest =>
      simp only [stepCall]
      rcases takeHead_eq k.ctx with ht | ⟨p, rest, -, -, ht⟩ <;> rw [ht] <;> exact h
  | alloc a =>
      simp only [stepCall]
      cases ch.addr <;> cases a <;> first | exact h | rfl
  | recv a addr =>
      simp only [stepCall]
      cases a <;> split <;> first | exact h | rfl
  | compare =>
      cases job with
      | io b t e =>
          simp only [stepCall]
          split <;> exact h
      | accept b | app => rfl
  | reads left => cases left <;> first | exact h | rfl
  | enter | notify | testCounters | release | finish | insert | call p | throttle a b ts
  | wsaSend a b ts | countSend a ts | increment p | drop p | returned =>
      simp only [stepCall]
      repeat' split
      all_goals first | exact h | rfl
  | add | keepAlive =>
      simp only [stepCall]
      split <;> first | exact h | rfl
  | ioctl =>
      simp only [stepCall]
      repeat' split
      all_goals first | exact h | rfl

/-- Every call is where its job can be. -/
def WellPlaced (c : Conn) : Prop := ∀ a ∈ c.calls, a.pc.belongs a.job = true

theorem WellPlaced.start {c : Conn} (h : WellPlaced c) {job : Job} {pc : Pc}
    (hpc : pc.belongs job = true) : WellPlaced (c.start job pc) := by
  intro a ha
  rcases List.mem_append.mp ha with ha | ha
  · exact h a ha
  · obtain rfl := List.mem_singleton.mp ha
    exact hpc

theorem WellPlaced.step {c d : Conn} (h : WellPlaced c) {cfg : Config} {act : Action}
    (hs : c.step cfg act = some d) : WellPlaced d := by
  cases act with
  | dequeue i data e =>
      obtain ⟨b, -, -, rfl⟩ := Conn.dequeue_eq hs
      exact WellPlaced.start (c := { c with inFlight := c.inFlight.eraseIdx i }) h rfl
  | step i ch =>
      obtain ⟨a, ha, -, rfl⟩ := Conn.step_eq hs
      intro x hx
      rcases Conn.mem_become hx with hx | rfl
      · exact h x hx
      · exact stepCall_belongs cfg ch c.toCore (h a (List.mem_of_getElem? ha))
  | sendText t =>
      obtain ⟨-, rfl⟩ := Conn.sendText_eq hs
      exact h.start rfl
  | closeAConnection =>
      obtain ⟨-, rfl⟩ := Conn.closeAConnection_eq hs
      exact h.start rfl

theorem WellPlaced.init (sock : SOCKET) (b : CIOCPBuffer) : WellPlaced (Conn.init sock b) := by
  intro a ha
  obtain rfl := List.mem_singleton.mp ha
  rfl

/-- The call is about to execute the second critical section of `CloseAConnection`. -/
def Pc.closes : Pc → Bool
  | .close _ => true
  | _ => false

/-! ## What a step leaves alone -/

section
variable (cfg : Config) (ch : Choice) (k : Core) (job : Job)

theorem dispatch_core :
    (dispatch cfg job k).1 = k ∨ (dispatch cfg job k).1 = k.log .writeCompleted := by
  unfold dispatch
  repeat' split
  all_goals first | exact .inl rfl | exact .inr rfl

theorem notify_eq (e : Event) :
    k.notify e = k ∨ k.notify e = { k with
      ctx := { k.ctx with bNotifyCloseOrError := true }, trace := k.trace ++ [e] } := by
  unfold Core.notify
  split
  · exact .inl rfl
  · exact .inr rfl

theorem stepCall_delivered {pc : Pc} (h : ∀ p, pc ≠ .increment p) :
    (stepCall cfg ch k job pc).1.delivered = k.delivered := by
  unfold stepCall
  repeat' split
  all_goals first | rfl | skip
  · rcases dispatch_core cfg k job with h | h <;> simp [h, Core.log]
  · rcases notify_eq k (notification job) with h | h <;> rw [h]
  · exact absurd rfl (h _)

/-- Only the insertion, the head test and `ReleaseContext` touch `pOutOfOrderReads`. -/
theorem stepCall_parked {pc : Pc} (hi : pc ≠ .insert) (ht : pc ≠ .headTest) (hr : pc ≠ .release) :
    (stepCall cfg ch k job pc).1.ctx.pOutOfOrderReads = k.ctx.pOutOfOrderReads := by
  unfold stepCall
  repeat' split
  all_goals first | rfl | contradiction | skip
  · exact CIOCPContext.countDown_pOutOfOrderReads ..
  · rcases dispatch_core cfg k job with h | h <;> simp [h, Core.log]
  · rcases notify_eq k (notification job) with h | h <;> rw [h]

/-- Reads are posted by `PostRecv` only, sends by `WSASend` only. -/
theorem stepCall_posted (pc : Pc) :
    let k' := (stepCall cfg ch k job pc).1
    (k'.inFlight = k.inFlight ∧ k'.reads = k.reads) ∨
      (∃ a addr, pc = .recv a addr ∧ k' = k.postRecv addr) ∨
      (∃ a b ts, pc = .wsaSend a b ts ∧ k' = k.wsaSend b) := by
  intro k'
  simp only [k']
  unfold stepCall
  repeat' split
  all_goals first | exact .inl ⟨rfl, rfl⟩ | skip
  · rcases dispatch_core cfg k job with h | h <;> simp [h, Core.log]
  · rcases notify_eq k (notification job) with h | h <;> simp [h]
  · exact .inr (.inr ⟨_, _, _, rfl, rfl⟩)
  · exact .inr (.inl ⟨_, _, rfl, rfl⟩)

theorem notification_eq : notification job = .closing ∨ ∃ n, notification job = .error n := by
  cases job with
  | io b t e =>
      simp only [notification]
      split
      · exact .inr ⟨_, rfl⟩
      · exact .inl rfl
  | accept b | app => exact .inl rfl

/-- Where an event comes from. -/
structure Source (cfg : Config) (k : Core) (job : Job) (pc : Pc) (e : Event) : Prop where
  closing : e = .closing →
    pc = .notify ∧ notification job = .closing ∧ k.ctx.bNotifyCloseOrError = false
  established : e = .established → pc = .ioctl
  throttled : ∀ t n, e = .throttled t n → cfg.nMaxSends < n
  sent : ∀ t, e = .sent t → k.sockOpen = true

theorem stepCall_trace (pc : Pc) :
    (stepCall cfg ch k job pc).1.trace = k.trace ∨
      ∃ e, (stepCall cfg ch k job pc).1.trace = k.trace ++ [e] ∧ Source cfg k job pc e := by
  cases pc with
  | notify =>
      simp only [stepCall, Core.notify]
      split
      · exact .inl rfl
      · rename_i hb
        refine .inr ⟨_, rfl, fun he => ⟨rfl, he, by simpa using hb⟩, ?_, ?_, ?_⟩ <;>
          rcases notification_eq job with hn | ⟨n, hn⟩ <;> simp [hn]
  | testClosing =>
      simp only [stepCall]
      split
      · exact .inl rfl
      · rcases dispatch_core cfg k job with hd | hd <;> rw [hd]
        · exact .inl rfl
        · exact .inr ⟨_, rfl, by simp, by simp, by simp, by simp⟩
  | headTest =>
      simp only [stepCall]
      rcases takeHead_eq k.ctx with ht | ⟨p, rest, -, -, ht⟩ <;> rw [ht] <;> exact .inl rfl
  | close a => cases a <;> exact .inl rfl
  | enter | insert => cases job <;> exact .inl rfl
  | send a ts =>
      cases ts with
      | nil => exact .inl rfl
      | cons t ts =>
          simp only [stepCall]
          repeat' split
          all_goals first
            | exact .inl rfl
            | exact .inr ⟨_, rfl, by simp, by simp, by simp, by simp⟩
  | throttle a b ts =>
      simp only [stepCall]
      split
      · rename_i hlt
        refine .inr ⟨_, rfl, by simp, by simp, fun t n he => ?_, by simp⟩
        simp only [Event.throttled.injEq] at he
        exact he.2 ▸ hlt
      · exact .inr ⟨_, rfl, by simp, by simp, by simp, by simp⟩
  | wsaSend a b ts =>
      simp only [stepCall]
      split
      · rename_i hacc
        refine .inr ⟨_, rfl, by simp, by simp, by simp, fun _ _ => ?_⟩
        simp_all [Core.accepts]
      · exact .inl rfl
  | reads left => cases left <;> exact .inl rfl
  | unlink a | release | finish | countSend a ts | increment p | drop p | returned =>
      exact .inl rfl
  | testCounters | compare | call p | alloc a | recv a addr | add | keepAlive | ioctl =>
      simp only [stepCall]
      repeat' split
      all_goals first
        | exact .inl rfl
        | exact .inr ⟨_, rfl, by simp, by simp, by simp, by simp⟩

end

theorem Conn.step_trace {cfg : Config} {c d : Conn} {act : Action}
    (hs : c.step cfg act = some d) :
    d.trace = c.trace ∨ ∃ e, d.trace = c.trace ++ [e] ∧ ∃ i ch a, act = .step i ch ∧
      c.calls[i]? = some a ∧ Source cfg c.toCore a.job a.pc e := by
  cases act with
  | dequeue i data e =>
      obtain ⟨b, -, -, rfl⟩ := Conn.dequeue_eq hs
      exact .inl rfl
  | step i ch =>
      obtain ⟨a, ha, -, rfl⟩ := Conn.step_eq hs
      rcases stepCall_trace cfg ch c.toCore a.job a.pc with h | ⟨e, h, he⟩
      · exact .inl h
      · exact .inr ⟨e, h, i, ch, a, rfl, ha, he⟩
  | sendText t =>
      obtain ⟨-, rfl⟩ := Conn.sendText_eq hs
      exact .inl rfl
  | closeAConnection =>
      obtain ⟨-, rfl⟩ := Conn.closeAConnection_eq hs
      exact .inl rfl

/-! ## Concrete runs -/

/-- The accept that opens a connection: the client has sent two bytes. -/
def firstData : CIOCPBuffer where
  addr := 1
  nOperation := .opAccept
  nSequenceNumber := 0
  buff := [104, 105]
  no := 0

/-- `n` steps of call `i` in which the system accepts everything; the buffers
are allocated from address `base` on. -/
def smooth (i n base : Nat) : List Action :=
  (List.range n).map fun j => .step i ⟨true, some (base + j)⟩

end CppWorkspace.CIOCPServer
