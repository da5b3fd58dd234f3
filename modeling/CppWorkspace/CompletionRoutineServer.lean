/-
# `CppWorkspace.CompletionRoutineServer` — the server of the overlapped model with routines

`ConnThread` accepts and hands each client over on the stack `Client`; `WorkerThread` takes
it from there and posts a first receive, and `WorkerRoutine` runs in the alertable wait of
this thread when a receive or send has completed.  `TotalClients` is raised by `ConnThread`
behind the hand-over, and lowered where a client is closed.

`Get_Client` reads the place below the top and clears the one at the top, which with 64
clients waiting is the one behind the array.  `WorkerThread` closes a client without
lowering `TotalClients` if `GlobalAlloc` fails.  In every run without these two, what the
calls return is what a stack with room for 64 returns, and at rest `TotalClients` is the
number of the clients that are open (`hand_over`).

Conventions: a critical section or a call is one step, and the steps of the two threads come
in any order; an action carries the socket of its thread and what the call returns.
`inBounds` says that no index was outside the array, and `log` has the calls of `Add_Client`
and `Get_Client` with their results; neither is in the source.  A socket is a number that is
not used again.  `TotalClients` is an `Int`; the `DWORD` goes to `2^32 - 1` where it is `-1`.
`bExit` is left out: a thread that has left its loop takes no more steps.  So is what is in
the buffers.
-/
import Mathlib.Data.List.Nodup
import CppWorkspace.Lib.Runs
import CppWorkspace.Lib.Stacks

namespace CppWorkspace.CompletionRoutineServer

open Runs Stacks

def WSA_MAXIMUM_WAIT_EVENTS : Nat := 64

/-! ## State -/

/-- `dwOpType`: the operation that comes next. -/
inductive NextIo where
  | NEXT_IO_READ
  | NEXT_IO_SEND
deriving DecidableEq, Repr

/-- The record of an operation. -/
structure PER_IO_OP_DATA where
  dwOpType : NextIo
  Socket : Nat
deriving DecidableEq, Repr

/-- Where `ConnThread` is: before `accept`, before `Add_Client`, before the `closesocket` for
a full stack, and before `InterlockedIncrement`. -/
inductive ConnPc where
  | accept
  | add (s : Nat)
  | full (s : Nat)
  | count
deriving DecidableEq, Repr

/-- Where `WorkerThread` is: before `Get_Client`, `GlobalAlloc`, `WSARecv` and the wait; before
the `closesocket` for lack of memory; before the call of `WorkerRoutine` that posts the next
operation; and where a failed client is closed and counted, there or in `WorkerRoutine`. -/
inductive WorkerPc where
  | top
  | alloc (s : Nat)
  | recv (io : PER_IO_OP_DATA)
  | wait
  | noMemory (s : Nat)
  | post (io : PER_IO_OP_DATA)
  | close (s : Nat) (inRoutine : Bool)
  | uncount (inRoutine : Bool)
deriving DecidableEq, Repr

/-- The stack of waiting clients, the two threads, and the sockets. -/
structure Server where
  next : Nat
  isOpen : Nat → Bool
  Client : Nat → Nat
  dwLeftConnect : Nat
  TotalClients : Int
  conn : ConnPc
  worker : WorkerPc
  /-- posted, and not completed yet -/
  operations : List PER_IO_OP_DATA
  inBounds : Bool
  log : List (Call Nat)

def start : Server where
  next := 1
  isOpen _ := false
  Client _ := 0
  dwLeftConnect := 0
  TotalClients := 0
  conn := .accept
  worker := .top
  operations := []
  inBounds := true
  log := []

/-! ## The threads -/

/-- What `WSARecv` returns: zero, `WSA_IO_PENDING` or another error. -/
inductive Posted where
  | done
  | pending
  | failed
deriving DecidableEq, Repr

/-- A step of one of the two threads. -/
inductive Action where
  | accept (accepted : Bool)
  | Add_Client (s : Nat)
  | refuse (s : Nat)
  | InterlockedIncrement
  | Get_Client
  | GlobalAlloc (s : Nat) (allocated : Bool)
  | giveUp (s : Nat)
  | WSARecv (io : PER_IO_OP_DATA) (posted : Posted)
  | complete (io : PER_IO_OP_DATA) (dwError cbTransferred : Nat)
  | post (io : PER_IO_OP_DATA) (posted : Bool)
  | wake
  | closesocket (s : Nat) (inRoutine : Bool)
  | InterlockedDecrement (inRoutine : Bool)
deriving DecidableEq, Repr

namespace Server

/-- An access to `Client[i]`. -/
def touch (σ : Server) (i : Nat) : Server :=
  { σ with inBounds := σ.inBounds && decide (i < WSA_MAXIMUM_WAIT_EVENTS) }

def closesocket (σ : Server) (s : Nat) : Server :=
  { σ with isOpen := Function.update σ.isOpen s false }

def accept (σ : Server) (accepted : Bool) : Server :=
  if accepted then
    { σ with
      next := σ.next + 1
      isOpen := Function.update σ.isOpen σ.next true
      conn := .add σ.next }
  else σ

def Add_Client (σ : Server) (ClientSocket : Nat) : Server :=
  if WSA_MAXIMUM_WAIT_EVENTS ≤ σ.dwLeftConnect then
    { σ with conn := .full ClientSocket, log := σ.log ++ [.push ClientSocket false] }
  else
    { σ.touch σ.dwLeftConnect with
      Client := Function.update σ.Client σ.dwLeftConnect ClientSocket
      dwLeftConnect := σ.dwLeftConnect + 1
      conn := .count
      log := σ.log ++ [.push ClientSocket true] }

/-- `Client[dwLeftConnect--] = 0` writes at the old value of `dwLeftConnect`. -/
def Get_Client (σ : Server) : Server :=
  if 0 < σ.dwLeftConnect then
    let ClientSocket := σ.Client (σ.dwLeftConnect - 1)
    { (σ.touch (σ.dwLeftConnect - 1)).touch σ.dwLeftConnect with
      Client := Function.update σ.Client σ.dwLeftConnect 0
      dwLeftConnect := σ.dwLeftConnect - 1
      worker := .alloc ClientSocket
      log := σ.log ++ [.pop (some ClientSocket)] }
  else { σ with worker := .wait, log := σ.log ++ [.pop none] }

/-- The first receive; if it is pending the thread does not wait. -/
def WSARecv (σ : Server) (io : PER_IO_OP_DATA) : Posted → Server
  | .done => { σ with operations := io :: σ.operations, worker := .wait }
  | .pending => { σ with operations := io :: σ.operations, worker := .top }
  | .failed => { σ with worker := .close io.Socket false }

/-- `WorkerRoutine` up to the next operation. -/
def complete (σ : Server) (io : PER_IO_OP_DATA) (dwError cbTransferred : Nat) : Server :=
  { σ with
    operations := σ.operations.erase io
    worker := if dwError ≠ 0 ∨ cbTransferred = 0 then .close io.Socket true else .post io }

/-- `WSASend` behind a receive, and `WSARecv` behind a send. -/
def post (σ : Server) (io : PER_IO_OP_DATA) (posted : Bool) : Server :=
  let dwOpType := if io.dwOpType = .NEXT_IO_SEND then .NEXT_IO_READ else .NEXT_IO_SEND
  if posted then { σ with operations := ⟨dwOpType, io.Socket⟩ :: σ.operations, worker := .wait }
  else { σ with worker := .close io.Socket true }

end Server

/-- Where the thread of the action is. -/
def Action.Enabled (σ : Server) : Action → Prop
  | .accept _ => σ.conn = .accept
  | .Add_Client s => σ.conn = .add s
  | .refuse s => σ.conn = .full s
  | .InterlockedIncrement => σ.conn = .count
  | .Get_Client => σ.worker = .top
  | .GlobalAlloc s _ => σ.worker = .alloc s
  | .giveUp s => σ.worker = .noMemory s
  | .WSARecv io _ => σ.worker = .recv io
  | .complete io _ _ => σ.worker = .wait ∧ io ∈ σ.operations
  | .post io _ => σ.worker = .post io
  | .wake => σ.worker = .wait
  | .closesocket s inRoutine => σ.worker = .close s inRoutine
  | .InterlockedDecrement inRoutine => σ.worker = .uncount inRoutine

instance (σ : Server) : ∀ a : Action, Decidable (a.Enabled σ)
  | .accept _ | .Add_Client _ | .refuse _ | .InterlockedIncrement | .Get_Client
  | .GlobalAlloc _ _ | .giveUp _ | .WSARecv _ _ | .post _ _ | .wake | .closesocket _ _
  | .InterlockedDecrement _ => inferInstanceAs (Decidable (_ = _))
  | .complete _ _ _ => inferInstanceAs (Decidable (_ ∧ _))

def Action.perform (σ : Server) : Action → Server
  | .accept accepted => σ.accept accepted
  | .Add_Client s => σ.Add_Client s
  | .refuse s => { σ.closesocket s with conn := .accept }
  | .InterlockedIncrement => { σ with TotalClients := σ.TotalClients + 1, conn := .accept }
  | .Get_Client => σ.Get_Client
  | .GlobalAlloc s allocated =>
      { σ with worker := if allocated then .recv ⟨.NEXT_IO_SEND, s⟩ else .noMemory s }
  | .giveUp s => { σ.closesocket s with worker := .top }
  | .WSARecv io posted => σ.WSARecv io posted
  | .complete io dwError cbTransferred => σ.complete io dwError cbTransferred
  | .post io posted => σ.post io posted
  | .wake => { σ with worker := .top }
  | .closesocket s inRoutine => { σ.closesocket s with worker := .uncount inRoutine }
  | .InterlockedDecrement inRoutine =>
      { σ with
        TotalClients := σ.TotalClients - 1
        worker := if inRoutine then .wait else .top }

def step (σ : Server) (a : Action) : Option Server :=
  if a.Enabled σ then some (a.perform σ) else none

/-! ## What is asked for -/

namespace Server

/-- The clients on the stack, the next one first. -/
def waiting (σ : Server) : List Nat := stack σ.Client σ.dwLeftConnect

/-- How many clients are open that `Add_Client` has taken, whether they wait or were handed
over. -/
def counted (σ : Server) : Nat := ((pushed σ.log).filter σ.isOpen).length

/-- No thread is inside a handler. -/
def AtRest (σ : Server) : Prop := σ.conn = .accept ∧ (σ.worker = .top ∨ σ.worker = .wait)

end Server

/-- The array is a stack of clients, and no client is in it twice. -/
structure Good (σ : Server) : Prop where
  inBounds : σ.inBounds = true
  /-- The calls have returned what those of a stack return. -/
  lifo : replay WSA_MAXIMUM_WAIT_EVENTS σ.log = some σ.waiting
  /-- No client is added twice. -/
  once : (pushed σ.log).Nodup
  rest : σ.AtRest → σ.TotalClients = σ.counted

/-- `Get_Client` does not find the stack full, and `GlobalAlloc` does not fail. -/
def Calm (σ : Server) : Action → Prop
  | .Get_Client => σ.dwLeftConnect < WSA_MAXIMUM_WAIT_EVENTS
  | .GlobalAlloc _ allocated => allocated = true
  | _ => True

instance (σ : Server) : ∀ a, Decidable (Calm σ a)
  | .Get_Client => inferInstanceAs (Decidable (_ < _))
  | .GlobalAlloc _ _ => inferInstanceAs (Decidable (_ = _))
  | .accept _ | .Add_Client _ | .refuse _ | .InterlockedIncrement | .giveUp _ | .WSARecv _ _
  | .complete _ _ _ | .post _ _ | .wake | .closesocket _ _ | .InterlockedDecrement _ =>
      inferInstanceAs (Decidable True)

/-! ## The invariant -/

def ConnPc.sockets : ConnPc → List Nat
  | .add s | .full s => [s]
  | .accept | .count => []

/-- How many clients are on the stack that are not counted yet. -/
def ConnPc.uncounted : ConnPc → Nat
  | .count => 1
  | .accept | .add _ | .full _ => 0

def WorkerPc.sockets : WorkerPc → List Nat
  | .alloc s | .noMemory s | .close s _ => [s]
  | .recv io | .post io => [io.Socket]
  | .top | .wait | .uncount _ => []

/-- How many clients are closed that are still counted. -/
def WorkerPc.counted : WorkerPc → Nat
  | .uncount _ => 1
  | .top | .alloc _ | .recv _ | .wait | .noMemory _ | .post _ | .close _ _ => 0

/-- The clients that `WorkerThread` is at, that an operation is posted for, and that wait. -/
def Server.owned (σ : Server) : List Nat :=
  σ.worker.sockets ++ σ.operations.map PER_IO_OP_DATA.Socket ++ σ.waiting

/-- The invariant of the calm runs. -/
structure Safe (σ : Server) : Prop where
  inBounds : σ.inBounds = true
  lifo : replay WSA_MAXIMUM_WAIT_EVENTS σ.log = some σ.waiting
  fresh : ∀ s ∈ σ.conn.sockets ++ pushed σ.log, s < σ.next
  distinct : (σ.conn.sockets ++ pushed σ.log).Nodup
  accepted : ∀ s ∈ σ.conn.sockets, σ.isOpen s = true
  /-- The clients that are open are owned, each once. -/
  owned : σ.owned.Perm ((pushed σ.log).filter σ.isOpen)
  memory : ∀ s, σ.worker ≠ .noMemory s
  total : σ.TotalClients + σ.conn.uncounted = σ.owned.length + σ.worker.counted

theorem safe_start : Safe start where
  inBounds := rfl
  lifo := rfl
  fresh := fun _ h => absurd h List.not_mem_nil
  distinct := List.nodup_nil
  accepted := fun _ h => absurd h List.not_mem_nil
  owned := .refl []
  memory := fun _ h => by cases h
  total := rfl

section
variable {σ : Server} {s : Nat} {io : PER_IO_OP_DATA}

theorem Safe.good (hσ : Safe σ) : Good σ where
  inBounds := hσ.inBounds
  lifo := hσ.lifo
  once := hσ.distinct.of_append_right
  rest := by
    rintro ⟨hconn, hworker⟩
    have htotal := hσ.total
    have hworker : σ.worker.counted = 0 := by
      rcases hworker with h | h
      · rw [h]; rfl
      · rw [h]; rfl
    rw [hconn, hworker, hσ.owned.length_eq] at htotal
    exact (Int.add_zero _).symm.trans (htotal.trans (Int.add_zero _))

/-! ## `ConnThread` -/

/-- A socket that `Add_Client` has not taken is opened or closed. -/
theorem filter_update {l : List Nat} {isOpen : Nat → Bool} {b : Bool} (h : s ∉ l) :
    l.filter (Function.update isOpen s b) = l.filter isOpen :=
  List.filter_congr fun _ ht => Function.update_of_ne (ne_of_mem_of_not_mem ht h) ..

theorem Safe.accept (hσ : Safe σ) (hconn : σ.conn = .accept) (accepted : Bool) :
    Safe (σ.accept accepted) := by
  cases accepted with
  | false => exact hσ
  | true =>
      have hfresh := hσ.fresh
      have hdistinct := hσ.distinct
      have htotal := hσ.total
      rw [hconn] at hfresh hdistinct htotal
      have hnew : σ.next ∉ pushed σ.log := fun h => Nat.lt_irrefl _ (hfresh _ h)
      refine ⟨hσ.inBounds, hσ.lifo, fun s hs => ?_, List.nodup_cons.mpr ⟨hnew, hdistinct⟩,
        fun s hs => ?_, ?_, hσ.memory, htotal⟩
      · rcases List.mem_cons.mp hs with rfl | hs
        · exact Nat.lt_succ_self _
        · exact Nat.lt_succ_of_lt (hfresh s hs)
      · cases List.mem_singleton.mp hs
        exact Function.update_self ..
      · change σ.owned.Perm ((pushed σ.log).filter (Function.update σ.isOpen σ.next true))
        rw [filter_update hnew]
        exact hσ.owned

theorem Safe.refuse (hσ : Safe σ) (hconn : σ.conn = .full s) :
    Safe { σ.closesocket s with conn := .accept } := by
  have hfresh := hσ.fresh
  have hdistinct := hσ.distinct
  have htotal := hσ.total
  rw [hconn] at hfresh hdistinct htotal
  obtain ⟨hnot, hdistinct⟩ : s ∉ pushed σ.log ∧ (pushed σ.log).Nodup := List.nodup_cons.mp hdistinct
  refine ⟨hσ.inBounds, hσ.lifo, fun t ht => hfresh t (List.mem_cons_of_mem s ht), hdistinct,
    fun t ht => absurd ht List.not_mem_nil, ?_, hσ.memory, htotal⟩
  change σ.owned.Perm ((pushed σ.log).filter (Function.update σ.isOpen s false))
  rw [filter_update hnot]
  exact hσ.owned

theorem Safe.Add_Client (hσ : Safe σ) (hconn : σ.conn = .add s) : Safe (σ.Add_Client s) := by
  have hfresh := hσ.fresh
  have hdistinct := hσ.distinct
  have haccepted := hσ.accepted
  have htotal := hσ.total
  rw [hconn] at hfresh hdistinct haccepted htotal
  have hlen : σ.waiting.length = σ.dwLeftConnect := length_stack
  unfold Server.Add_Client
  split
  next hfull =>
    have howned := hσ.owned
    rw [← pushed_refused] at hfresh hdistinct howned
    exact ⟨hσ.inBounds, replay_refused hσ.lifo (Nat.not_lt.mpr (hlen.symm ▸ hfull)), hfresh,
      hdistinct, haccepted, howned, hσ.memory, htotal⟩
  next hroom =>
    have hroom := Nat.lt_of_not_le hroom
    have hperm : (s :: pushed σ.log).Perm (pushed σ.log ++ [s]) :=
      (List.perm_append_singleton s _).symm
    have howned : (σ.worker.sockets ++ σ.operations.map PER_IO_OP_DATA.Socket ++
        s :: σ.waiting).Perm (s :: σ.owned) := List.perm_middle
    have hwaiting : stack (Function.update σ.Client σ.dwLeftConnect s) (σ.dwLeftConnect + 1) =
        s :: σ.waiting := stack_push
    refine ⟨?_, ?_, fun t ht => ?_, ?_, fun t ht => absurd ht List.not_mem_nil, ?_, hσ.memory, ?_⟩
    · change (σ.inBounds && decide (σ.dwLeftConnect < WSA_MAXIMUM_WAIT_EVENTS)) = true
      rw [hσ.inBounds, decide_eq_true hroom]
      rfl
    · change replay _ (σ.log ++ [.push s true]) = some (stack _ (σ.dwLeftConnect + 1))
      rw [hwaiting]
      exact replay_push hσ.lifo (hlen.symm ▸ hroom)
    · change t ∈ pushed (σ.log ++ [.push s true]) at ht
      rw [pushed_push] at ht
      exact hfresh t (hperm.mem_iff.mpr ht)
    · change (pushed (σ.log ++ [.push s true])).Nodup
      rw [pushed_push]
      exact hperm.nodup_iff.mp hdistinct
    · change (_ ++ stack _ (σ.dwLeftConnect + 1)).Perm
        ((pushed (σ.log ++ [.push s true])).filter σ.isOpen)
      have hopen := haccepted s (List.mem_singleton_self s)
      rw [hwaiting, pushed_push, List.filter_append, List.filter_cons_of_pos hopen, List.filter_nil]
      exact howned.trans ((hσ.owned.cons s).trans (List.perm_append_singleton s _).symm)
    · change σ.TotalClients + 1 =
        ((σ.worker.sockets ++ σ.operations.map PER_IO_OP_DATA.Socket ++
          stack _ (σ.dwLeftConnect + 1)).length : Int) + σ.worker.counted
      rw [hwaiting, howned.length_eq, List.length_cons]
      change σ.TotalClients + 0 = σ.owned.length + σ.worker.counted at htotal
      omega

theorem Safe.InterlockedIncrement (hσ : Safe σ) (hconn : σ.conn = .count) :
    Safe { σ with TotalClients := σ.TotalClients + 1, conn := .accept } := by
  have hfresh := hσ.fresh
  have hdistinct := hσ.distinct
  have haccepted := hσ.accepted
  have htotal := hσ.total
  rw [hconn] at hfresh hdistinct haccepted htotal
  exact ⟨hσ.inBounds, hσ.lifo, hfresh, hdistinct, haccepted, hσ.owned, hσ.memory,
    (Int.add_zero _).trans htotal⟩

/-! ## `WorkerThread` -/

/-- A step that only moves a client between the thread and its operations. -/
theorem Safe.move (hσ : Safe σ) {pc worker : WorkerPc} {operations : List PER_IO_OP_DATA}
    (hpc : σ.worker = pc) (hmemory : ∀ s, worker ≠ .noMemory s)
    (hperm : (worker.sockets ++ operations.map PER_IO_OP_DATA.Socket).Perm
      (pc.sockets ++ σ.operations.map PER_IO_OP_DATA.Socket))
    (hcounted : worker.counted = pc.counted) :
    Safe { σ with worker := worker, operations := operations } := by
  subst hpc
  have howned : (worker.sockets ++ operations.map PER_IO_OP_DATA.Socket ++ σ.waiting).Perm
      σ.owned := hperm.append_right σ.waiting
  refine ⟨hσ.inBounds, hσ.lifo, hσ.fresh, hσ.distinct, hσ.accepted, howned.trans hσ.owned,
    hmemory, ?_⟩
  change σ.TotalClients + σ.conn.uncounted =
    ((worker.sockets ++ operations.map PER_IO_OP_DATA.Socket ++ σ.waiting).length : Int) +
      worker.counted
  rw [howned.length_eq, hcounted]
  exact hσ.total

theorem Safe.take (hσ : Safe σ) (hworker : σ.worker = .top) {n : Nat}
    (hn : σ.dwLeftConnect = n + 1) (hcalm : n + 1 < WSA_MAXIMUM_WAIT_EVENTS) :
    Safe { (σ.touch n).touch (n + 1) with
      Client := Function.update σ.Client (n + 1) 0
      dwLeftConnect := n
      worker := .alloc (σ.Client n)
      log := σ.log ++ [.pop (some (σ.Client n))] } := by
  have howned := hσ.owned
  have htotal := hσ.total
  have hlifo := replay_pop hσ.lifo
  rw [Server.owned, hworker] at howned htotal
  have hwaiting : σ.waiting = σ.Client n :: stack σ.Client n := by
    rw [Server.waiting, hn]
    rfl
  have hstack : stack (Function.update σ.Client (n + 1) 0) n = stack σ.Client n :=
    stack_update (Nat.le_succ n)
  have hperm : (σ.Client n :: (σ.operations.map PER_IO_OP_DATA.Socket ++ stack σ.Client n)).Perm
      (σ.operations.map PER_IO_OP_DATA.Socket ++ σ.waiting) := by
    rw [hwaiting]
    exact List.perm_middle.symm
  rw [hwaiting] at hlifo
  refine ⟨?_, hlifo.trans (congrArg some hstack.symm), ?_, ?_, hσ.accepted, ?_,
    (fun s h => by cases h), ?_⟩
  · change (σ.inBounds && decide (n < _) && decide (n + 1 < WSA_MAXIMUM_WAIT_EVENTS)) = true
    rw [hσ.inBounds, decide_eq_true hcalm, decide_eq_true (Nat.lt_of_succ_lt hcalm)]
    rfl
  · rw [pushed_pop]
    exact hσ.fresh
  · rw [pushed_pop]
    exact hσ.distinct
  · change (σ.Client n :: (σ.operations.map PER_IO_OP_DATA.Socket ++
      stack (Function.update σ.Client (n + 1) 0) n)).Perm
      ((pushed (σ.log ++ [Call.pop (some (σ.Client n))])).filter σ.isOpen)
    rw [hstack, pushed_pop]
    exact hperm.trans howned
  · change σ.TotalClients + σ.conn.uncounted =
      ((σ.Client n :: (σ.operations.map PER_IO_OP_DATA.Socket ++
        stack (Function.update σ.Client (n + 1) 0) n)).length : Int) + 0
    rw [hstack, hperm.length_eq]
    exact htotal

theorem Safe.takeNone (hσ : Safe σ) (hworker : σ.worker = .top) (hzero : σ.dwLeftConnect = 0) :
    Safe { σ with worker := .wait, log := σ.log ++ [.pop none] } := by
  have howned := hσ.owned
  have htotal := hσ.total
  have hlifo := replay_pop hσ.lifo
  rw [Server.owned, hworker] at howned htotal
  have hwaiting : σ.waiting = [] := by
    rw [Server.waiting, hzero]
    rfl
  rw [hwaiting] at hlifo
  refine ⟨hσ.inBounds, hlifo.trans (congrArg some hwaiting.symm), ?_, ?_, hσ.accepted, ?_,
    (fun s h => by cases h), htotal⟩
  · rw [pushed_pop]
    exact hσ.fresh
  · rw [pushed_pop]
    exact hσ.distinct
  · rw [pushed_pop]
    exact howned

theorem Safe.Get_Client (hσ : Safe σ) (hworker : σ.worker = .top)
    (hcalm : σ.dwLeftConnect < WSA_MAXIMUM_WAIT_EVENTS) : Safe σ.Get_Client := by
  unfold Server.Get_Client
  split
  next hpos =>
    obtain ⟨n, hn⟩ := Nat.exists_eq_succ_of_ne_zero (Nat.ne_of_gt hpos)
    rw [hn] at hcalm
    simp only [hn, Nat.succ_eq_add_one, Nat.add_sub_cancel]
    exact hσ.take hworker hn hcalm
  next hzero => exact hσ.takeNone hworker (Nat.eq_zero_of_not_pos hzero)

theorem Safe.closesocket (hσ : Safe σ) {inRoutine : Bool}
    (hworker : σ.worker = .close s inRoutine) :
    Safe { σ.closesocket s with worker := .uncount inRoutine } := by
  have howned := hσ.owned
  have htotal := hσ.total
  rw [Server.owned, hworker] at howned htotal
  have hnodup := howned.nodup_iff.mpr (hσ.distinct.of_append_right.filter _)
  have hnotRest : s ∉ σ.operations.map PER_IO_OP_DATA.Socket ++ σ.waiting :=
    (List.nodup_cons.mp hnodup).1
  have hadded : s ∈ pushed σ.log :=
    List.mem_of_mem_filter (howned.mem_iff.mp List.mem_cons_self)
  have hnotConn : s ∉ σ.conn.sockets := fun h =>
    (List.nodup_append.mp hσ.distinct).2.2 s h s hadded rfl
  -- closing `s` filters it out
  have hfilter : (pushed σ.log).filter (Function.update σ.isOpen s false) =
      ((pushed σ.log).filter σ.isOpen).filter (· ≠ s) := by
    rw [List.filter_filter]
    refine List.filter_congr fun t _ => ?_
    by_cases ht : t = s
    · rw [ht, Function.update_self]
      simp
    · rw [Function.update_of_ne ht]
      simp [ht]
  have hrest : (s :: (σ.operations.map PER_IO_OP_DATA.Socket ++ σ.waiting)).filter (· ≠ s) =
      σ.operations.map PER_IO_OP_DATA.Socket ++ σ.waiting := by
    rw [List.filter_cons_of_neg (by simp), List.filter_eq_self]
    exact fun t ht => decide_eq_true (ne_of_mem_of_not_mem ht hnotRest)
  refine ⟨hσ.inBounds, hσ.lifo, hσ.fresh, hσ.distinct, fun t ht => ?_, ?_, (fun t h => by cases h),
    ?_⟩
  · change Function.update σ.isOpen s false t = true
    rw [Function.update_of_ne (ne_of_mem_of_not_mem ht hnotConn)]
    exact hσ.accepted t ht
  · change (σ.operations.map PER_IO_OP_DATA.Socket ++ σ.waiting).Perm
      ((pushed σ.log).filter (Function.update σ.isOpen s false))
    rw [hfilter, ← hrest]
    exact howned.filter _
  · change σ.TotalClients + σ.conn.uncounted =
      ((σ.operations.map PER_IO_OP_DATA.Socket ++ σ.waiting).length : Int) + 1
    exact htotal.trans (Int.add_zero _)

theorem Safe.InterlockedDecrement (hσ : Safe σ) {inRoutine : Bool}
    (hworker : σ.worker = .uncount inRoutine) :
    Safe { σ with
      TotalClients := σ.TotalClients - 1
      worker := if inRoutine then .wait else .top } := by
  have howned := hσ.owned
  have htotal := hσ.total
  rw [Server.owned, hworker] at howned htotal
  have hsockets : (if inRoutine then WorkerPc.wait else .top).sockets = [] := by
    cases inRoutine <;> rfl
  have hcounted : (if inRoutine then WorkerPc.wait else .top).counted = 0 := by
    cases inRoutine <;> rfl
  refine ⟨hσ.inBounds, hσ.lifo, hσ.fresh, hσ.distinct, hσ.accepted, ?_, fun t h => ?_, ?_⟩
  · change ((if inRoutine then WorkerPc.wait else .top).sockets ++ _ ++ σ.waiting).Perm _
    rw [hsockets]
    exact howned
  · cases inRoutine <;> cases h
  · change σ.TotalClients - 1 + σ.conn.uncounted =
      (((if inRoutine then WorkerPc.wait else .top).sockets ++
        σ.operations.map PER_IO_OP_DATA.Socket ++ σ.waiting).length : Int) +
        (if inRoutine then WorkerPc.wait else .top).counted
    rw [hsockets, hcounted]
    change σ.TotalClients + σ.conn.uncounted =
      (([] ++ σ.operations.map PER_IO_OP_DATA.Socket ++ σ.waiting).length : Int) + 1 at htotal
    omega

theorem Safe.complete (hσ : Safe σ) (hworker : σ.worker = .wait) (hio : io ∈ σ.operations)
    (dwError cbTransferred : Nat) : Safe (σ.complete io dwError cbTransferred) := by
  have hperm : (io.Socket :: (σ.operations.erase io).map PER_IO_OP_DATA.Socket).Perm
      (σ.operations.map PER_IO_OP_DATA.Socket) :=
    ((List.perm_cons_erase hio).map PER_IO_OP_DATA.Socket).symm
  unfold Server.complete
  split
  · exact hσ.move hworker (fun t h => by cases h) hperm rfl
  · exact hσ.move hworker (fun t h => by cases h) hperm rfl

theorem Safe.perform (hσ : Safe σ) : ∀ {a : Action}, a.Enabled σ → Calm σ a → Safe (a.perform σ)
  | .accept accepted, ha, _ => hσ.accept ha accepted
  | .Add_Client _, ha, _ => hσ.Add_Client ha
  | .refuse _, ha, _ => hσ.refuse ha
  | .InterlockedIncrement, ha, _ => hσ.InterlockedIncrement ha
  | .Get_Client, ha, hcalm => hσ.Get_Client ha hcalm
  | .GlobalAlloc _ _, ha, hcalm => by
      cases hcalm
      exact hσ.move ha (fun t h => by cases h) (.refl _) rfl
  | .giveUp s, ha, _ => absurd ha (hσ.memory s)
  | .WSARecv _ posted, ha, _ => by
      cases posted with
      | done | pending | failed => exact hσ.move ha (fun t h => by cases h) (.refl _) rfl
  | .complete _ dwError cbTransferred, ha, _ => hσ.complete ha.1 ha.2 dwError cbTransferred
  | .post _ posted, ha, _ => by
      cases posted with
      | true | false => exact hσ.move ha (fun t h => by cases h) (.refl _) rfl
  | .wake, ha, _ => hσ.move ha (fun t h => by cases h) (.refl _) rfl
  | .closesocket _ _, ha, _ => hσ.closesocket ha
  | .InterlockedDecrement _, ha, _ => hσ.InterlockedDecrement ha

theorem safe_of_via (h : Via step Calm start σ) : Safe σ := by
  refine h.invariant safe_start fun τ a u hτ hcalm hs => ?_
  obtain ⟨ha, hu⟩ := Option.ite_none_right_eq_some.mp hs
  cases hu
  exact hτ.perform ha hcalm

/-! ## Every client is taken -/

/-- `WorkerThread` comes to its next `Get_Client`, and the stack is as before. -/
def Returns (σ : Server) : Prop :=
  ∃ τ, Via step Calm σ τ ∧ τ.worker = .top ∧ τ.dwLeftConnect = σ.dwLeftConnect ∧ τ.log = σ.log

theorem Returns.of_step {a : Action} (ha : a.Enabled σ) (hcalm : Calm σ a)
    (hleft : (a.perform σ).dwLeftConnect = σ.dwLeftConnect) (hlog : (a.perform σ).log = σ.log)
    (h : Returns (a.perform σ)) : Returns σ := by
  obtain ⟨τ, hτ, htop, hτleft, hτlog⟩ := h
  have hstep : Via step Calm σ (a.perform σ) := .tail a .refl hcalm (if_pos ha)
  exact ⟨τ, hstep.trans hτ, htop, hτleft.trans hleft, hτlog.trans hlog⟩

theorem returns_of_top (h : σ.worker = .top) : Returns σ := ⟨σ, .refl, h, rfl, rfl⟩

theorem returns_of_wait (h : σ.worker = .wait) : Returns σ :=
  .of_step (a := .wake) h trivial rfl rfl (returns_of_top rfl)

theorem returns_of_uncount {inRoutine : Bool} (h : σ.worker = .uncount inRoutine) : Returns σ := by
  refine .of_step (a := .InterlockedDecrement inRoutine) h trivial rfl rfl ?_
  cases inRoutine with
  | true => exact returns_of_wait rfl
  | false => exact returns_of_top rfl

theorem returns_of_recv (h : σ.worker = .recv io) : Returns σ :=
  .of_step (a := .WSARecv io .pending) h trivial rfl rfl (returns_of_top rfl)

theorem returns (σ : Server) : Returns σ := by
  cases h : σ.worker with
  | top => exact returns_of_top h
  | wait => exact returns_of_wait h
  | recv io => exact returns_of_recv h
  | uncount inRoutine => exact returns_of_uncount h
  | alloc s =>
      exact .of_step (a := .GlobalAlloc s true) h rfl rfl rfl
        (returns_of_recv (show _ = WorkerPc.recv ⟨.NEXT_IO_SEND, s⟩ from rfl))
  | noMemory s => exact .of_step (a := .giveUp s) h trivial rfl rfl (returns_of_top rfl)
  | post io => exact .of_step (a := .post io true) h trivial rfl rfl (returns_of_wait rfl)
  | close s inRoutine =>
      exact .of_step (a := .closesocket s inRoutine) h trivial rfl rfl (returns_of_uncount rfl)

theorem drains (h : σ.dwLeftConnect < WSA_MAXIMUM_WAIT_EVENTS) :
    ∃ τ, Via step Calm σ τ ∧ τ.dwLeftConnect = 0 ∧ pushed τ.log = pushed σ.log := by
  generalize hn : σ.dwLeftConnect = n at h
  induction n generalizing σ with
  | zero => exact ⟨σ, .refl, hn, rfl⟩
  | succ n ih =>
      obtain ⟨τ, hτ, htop, hleft, hlog⟩ := returns σ
      rw [hn] at hleft
      have hcalm : τ.dwLeftConnect < WSA_MAXIMUM_WAIT_EVENTS := hleft ▸ h
      have hstep : Via step Calm τ τ.Get_Client := .tail .Get_Client .refl hcalm (if_pos htop)
      have hpos : 0 < τ.dwLeftConnect := hleft ▸ Nat.succ_pos n
      have hget : τ.Get_Client.dwLeftConnect = n := by
        rw [Server.Get_Client, if_pos hpos]
        exact congrArg (· - 1) hleft
      have hpushed : pushed τ.Get_Client.log = pushed σ.log := by
        rw [Server.Get_Client, if_pos hpos, ← hlog]
        exact pushed_pop
      obtain ⟨u, hu, hzero, hupushed⟩ := ih hget (Nat.lt_of_succ_lt h)
      exact ⟨u, (hτ.trans hstep).trans hu, hzero, hupushed.trans hpushed⟩

/-- In a calm run the calls are those of a stack and the count is right at rest.  Each client
that was added waits or was returned once, and once there is room all of them can be. -/
theorem hand_over (h : Via step Calm start σ) :
    Good σ ∧ (popped σ.log ++ σ.waiting).Perm (pushed σ.log) ∧
      (σ.dwLeftConnect < WSA_MAXIMUM_WAIT_EVENTS →
        ∃ τ, Via step Calm σ τ ∧ (popped τ.log).Perm (pushed σ.log)) := by
  have hσ := safe_of_via h
  refine ⟨hσ.good, perm_of_replay hσ.lifo, fun hroom => ?_⟩
  obtain ⟨τ, hτ, hzero, hpushed⟩ := drains hroom
  have hperm := perm_of_replay (safe_of_via (h.trans hτ)).lifo
  rw [Server.waiting, hzero, stack, List.append_nil, hpushed] at hperm
  exact ⟨τ, hτ, hperm⟩

end

/-- Two clients come, the second one is taken, sends and is closed, and then the first one is
taken. -/
theorem hand_over_two :
    ∃ σ, (popped σ.log = [2, 1] ∧ σ.TotalClients = 1 ∧ σ.operations = [⟨.NEXT_IO_SEND, 1⟩]) ∧
      Good σ ∧ (popped σ.log ++ σ.waiting).Perm (pushed σ.log) ∧
      (σ.dwLeftConnect < WSA_MAXIMUM_WAIT_EVENTS →
        ∃ τ, Via step Calm σ τ ∧ (popped τ.log).Perm (pushed σ.log)) := by
  have hrun : ∃ σ, Via step Calm start σ ∧
      (popped σ.log = [2, 1] ∧ σ.TotalClients = 1 ∧ σ.operations = [⟨.NEXT_IO_SEND, 1⟩]) :=
    exists_via_of_execIf
      [.accept true, .Add_Client 1, .InterlockedIncrement, .accept true, .Add_Client 2, .Get_Client,
        .GlobalAlloc 2 true, .WSARecv ⟨.NEXT_IO_SEND, 2⟩ .done,
        .complete ⟨.NEXT_IO_SEND, 2⟩ 0 5, .post ⟨.NEXT_IO_SEND, 2⟩ true,
        .complete ⟨.NEXT_IO_READ, 2⟩ 64 0, .closesocket 2 true, .InterlockedDecrement true,
        .InterlockedIncrement, .wake, .Get_Client, .GlobalAlloc 1 true,
        .WSARecv ⟨.NEXT_IO_SEND, 1⟩ .pending] (by decide +kernel)
  obtain ⟨σ, hσ, hlast⟩ := hrun
  exact ⟨σ, hlast, hand_over hσ⟩

instance (σ : Server) : Decidable σ.AtRest := inferInstanceAs (Decidable (_ ∧ _))

/-- With 64 clients waiting `Get_Client` writes behind the array; and a client for which there
is no memory is closed and stays counted. -/
theorem behind_the_array :
    (∃ σ, Via step (fun _ _ => True) start σ ∧ σ.inBounds = false) ∧
      ∃ σ, Via step (fun _ _ => True) start σ ∧ σ.AtRest ∧ σ.TotalClients = 1 ∧ σ.counted = 0 := by
  constructor
  · exact exists_via_of_execIf
      (List.flatten [(List.range 64).flatMap fun i =>
        [.accept true, .Add_Client (i + 1), .InterlockedIncrement], [.Get_Client]])
      (by decide +kernel)
  · exact exists_via_of_execIf
      [.accept true, .Add_Client 1, .InterlockedIncrement, .Get_Client, .GlobalAlloc 1 false,
        .giveUp 1] (by decide +kernel)

end CppWorkspace.CompletionRoutineServer
