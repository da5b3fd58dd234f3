/-
# `CppWorkspace.CIOCPServer.Admission` — `m_nMaxConnections` and `m_nMaxSends`

All connections of the server at once: `conns p` is what happens on the context at the
address `p` (`Connection`), and the list with its counter is shared.  A context that was
released may be handed out again, while calls that still use it go on.

Both limits are tests with `<=` where the counter is incremented afterwards:

| limit | test | increment |
| :-- | :-- | :-- |
| `m_nMaxConnections` | `AddAConnection` | in the same critical section |
| `m_nMaxSends` | `PostSend`, no lock | after `WSASend`, in a critical section |

so each admits one more than it says.  Between the test and the increment of a send other
sends pass the test, and the completion of the send may already be counted down.

`WithinLimits` is a condition on the order of the steps.  A client comes only while there is
room for it and for those that are on their way to `AddAConnection`; a send passes the test
only while there is room for it and for those that are still to be counted; and a completion
is counted down after its send was counted, on a context that was not released in between.
Which completion belongs to which send is no data of the source, so the runs are watched by a
record of the sends (`SendRecord`).  On these runs the limits hold (`limited`).
-/
import CppWorkspace.CIOCPServer.Connection

namespace CppWorkspace.CIOCPServer

open Runs Weights

/-- `m_pConnectionList`, its counter, and what happens on each context. -/
structure Clients where
  m_pConnectionList : List Nat
  m_nCurrentConnection : Int
  free : Nat → Bool
  conns : Nat → Conn

/-- What the workers and the clients do. -/
inductive ClientAction where
  /-- a worker has an accept with data, and `AllocateContext(s)` gives it the context `p` -/
  | accept (p : Nat) (s : SOCKET) (pBuffer : CIOCPBuffer)
  | on (p : Nat) (act : Action)
  | closeAllConnections
deriving DecidableEq, Repr

/-- A context that was never used. -/
def Conn.unused : Conn where
  ctx := .zeroed
  sock := 0
  sockOpen := false
  inFlight := []
  reads := 0
  delivered := 0
  released := 0
  trace := []
  calls := []

/-- `AllocateContext(s)`, and the worker before `AddAConnection`. -/
def Conn.reuse (c : Conn) (s : SOCKET) (pBuffer : CIOCPBuffer) : Conn :=
  { c with
    ctx := c.ctx.recycle s
    sock := s
    sockOpen := true
    calls := c.calls ++ [⟨.accept pBuffer, .add⟩] }

namespace Clients

def init : Clients where
  m_pConnectionList := []
  m_nCurrentConnection := 0
  free := fun _ => true
  conns := fun _ => .unused

/-- What the step of a call at `pc` does to the list. -/
def relist (nMaxConnections : Int) (σ : Clients) (p : Nat) : Pc → Clients
  | .add =>
      if σ.m_nCurrentConnection ≤ nMaxConnections then
        { σ with
          m_pConnectionList := p :: σ.m_pConnectionList
          m_nCurrentConnection := σ.m_nCurrentConnection + 1 }
      else σ
  | .unlink _ =>
      if p ∈ σ.m_pConnectionList then
        { σ with
          m_pConnectionList := σ.m_pConnectionList.erase p
          m_nCurrentConnection := σ.m_nCurrentConnection - 1 }
      else σ
  | .release => { σ with free := Function.update σ.free p true }
  | _ => σ

/-- `AddAConnection` goes by its test. -/
def answer (nMaxConnections : Int) (σ : Clients) (ch : Choice) : Pc → Choice
  | .add => { ch with ok := decide (σ.m_nCurrentConnection ≤ nMaxConnections) }
  | _ => ch

/-- Where the call that takes this step stands. -/
def pcOf (c : Conn) : Action → Pc
  | .step i _ => (c.calls[i]?.map Call.pc).getD .returned
  | _ => .returned

def answered (nMaxConnections : Int) (σ : Clients) (c : Conn) : Action → Action
  | .step i ch => .step i (σ.answer nMaxConnections ch (pcOf c (.step i ch)))
  | act => act

def step (nMaxConnections : Int) (cfg : Config) (σ : Clients) : ClientAction → Option Clients
  | .accept p s b =>
      if σ.free p then
        some { σ with
          free := Function.update σ.free p false
          conns := Function.update σ.conns p ((σ.conns p).reuse s b) }
      else none
  | .on p act =>
      ((σ.conns p).step cfg (σ.answered nMaxConnections (σ.conns p) act)).map fun d =>
        { σ.relist nMaxConnections p (pcOf (σ.conns p) act) with
          conns := Function.update σ.conns p d }
  | .closeAllConnections =>
      some { σ with
        m_pConnectionList := []
        m_nCurrentConnection := 0
        conns := fun p =>
          if p ∈ σ.m_pConnectionList then { σ.conns p with toCore := (σ.conns p).toCore.close }
          else σ.conns p }

end Clients

/-- The call is in `PostSend`, between the test and the increment. -/
def Pc.posting : Pc → Nat
  | .wsaSend .. | .countSend .. => 1
  | _ => 0

/-- The sends between the test and the increment. -/
def Conn.posting (c : Conn) : Nat := weight (fun a => a.pc.posting) c.calls

/-- The call is before the test of `PostSend`. -/
def Pc.tests : Pc → Bool
  | .throttle .. => true
  | _ => false

/-! ## Watched runs -/

/-- What is recorded of the sends of one context.  An accepted `WSASend` is given the next
number; `flight` has a number for each operation in flight (for a read it means nothing),
`send` the number that call `i` works on: the send it has posted last, or the send whose
completion it handles.  `counted` are the sends that were counted since the context was
released last, and not yet counted down. -/
structure SendRecord where
  sends : Nat
  flight : List Nat
  send : Nat → Nat
  counted : List Nat

/-- The record after a step from `c` to `d`. -/
def SendRecord.after (l : SendRecord) (c d : Conn) : Action → SendRecord
  | .dequeue i _ _ =>
      { l with
        flight := l.flight.eraseIdx i
        send := Function.update l.send c.calls.length (l.flight.getD i 0) }
  | .step i _ =>
      match c.calls[i]? with
      | none => l
      | some a =>
          match a.pc with
          | .wsaSend .. =>
              if c.inFlight.length < d.inFlight.length then
                { l with
                  sends := l.sends + 1
                  flight := l.flight ++ [l.sends]
                  send := Function.update l.send i l.sends }
              else l
          | .recv .. =>
              if c.inFlight.length < d.inFlight.length then { l with flight := l.flight ++ [0] }
              else l
          | .countSend .. => { l with counted := l.send i :: l.counted }
          | .enter =>
              if a.job.isWrite then { l with counted := l.counted.erase (l.send i) } else l
          | .release => { l with counted := [] }
          | _ => l
  | .sendText _ | .closeAConnection => l

/-- `arriving` are the contexts of the clients that were accepted and have not come to
`AddAConnection`. -/
structure Monitored extends Clients where
  arriving : List Nat
  record : Nat → SendRecord

namespace Monitored

def init : Monitored where
  toClients := .init
  arriving := []
  record := fun _ => ⟨0, [], fun _ => 0, []⟩

def arrivingAfter (w : Monitored) : ClientAction → List Nat
  | .accept p _ _ => p :: w.arriving
  | .on p act => if Clients.pcOf (w.conns p) act = .add then w.arriving.erase p else w.arriving
  | .closeAllConnections => w.arriving

def recordAfter (w : Monitored) (σ : Clients) : ClientAction → Nat → SendRecord
  | .on p act => Function.update w.record p ((w.record p).after (w.conns p) (σ.conns p) act)
  | _ => w.record

/-- The step of the server, and what is noted of it. -/
def step (nMaxConnections : Int) (cfg : Config) (w : Monitored) (act : ClientAction) :
    Option Monitored :=
  (w.toClients.step nMaxConnections cfg act).map fun σ =>
    { toClients := σ, arriving := w.arrivingAfter act, record := w.recordAfter σ act }

end Monitored

/-- A send passes the test while there is room for it and for those that are still to be
counted; and a completion is counted down after its `PostSend` has counted the send, on a
context that was not released in between. -/
def CallWithin (nMaxSends : Int) (c : Conn) (l : SendRecord) (i : Nat) (a : Call) : Prop :=
  (a.pc.tests = true → c.ctx.nOutstandingSend ≤ nMaxSends →
    c.ctx.nOutstandingSend + c.posting < nMaxSends) ∧
  (a.pc = .enter → a.job.isWrite = true → l.send i ∈ l.counted)

instance (nMaxSends : Int) (c : Conn) (l : SendRecord) (i : Nat) (a : Call) :
    Decidable (CallWithin nMaxSends c l i a) :=
  inferInstanceAs (Decidable (_ ∧ _))

/-- A client comes while fewer than `m_nMaxConnections` are connected or on their way, and the
calls keep to the order of the sends. -/
def WithinLimits (nMaxConnections nMaxSends : Int) (w : Monitored) : ClientAction → Prop
  | .accept .. =>
      ((w.m_pConnectionList.length + w.arriving.length : Nat) : Int) < nMaxConnections
  | .on p (.step i _) => ∀ a ∈ (w.conns p).calls[i]?,
      CallWithin nMaxSends (w.conns p) (w.record p) i a
  | _ => True

instance (nMaxConnections nMaxSends : Int) (w : Monitored) :
    ∀ act, Decidable (WithinLimits nMaxConnections nMaxSends w act)
  | .accept .. => inferInstanceAs (Decidable (_ < _))
  | .on p (.step i _) => inferInstanceAs (Decidable (∀ a ∈ (w.conns p).calls[i]?,
      CallWithin nMaxSends (w.conns p) (w.record p) i a))
  | .on _ (.dequeue ..) | .on _ (.sendText _) | .on _ .closeAConnection => isTrue trivial
  | .closeAllConnections => isTrue trivial

/-- What holds of one context: the record has a number for each operation in flight,
`nOutstandingSend` is the number of the sends that were counted and not counted down, and
there is room for those that will be. -/
structure Bounded (nMaxSends : Int) (c : Conn) (l : SendRecord) : Prop where
  flight : l.flight.length = c.inFlight.length
  count : c.ctx.nOutstandingSend = l.counted.length
  room : c.ctx.nOutstandingSend + c.posting ≤ nMaxSends

section
variable {nMaxConnections nMaxSends : Int} {cfg : Config} {c d : Conn} {l : SendRecord} {a : Call}
  {i : Nat} {ch : Choice} {k : Core}

/-! ## One context -/

theorem stepCall_nOutstandingSend (job : Job) {pc : Pc} (henter : pc ≠ .enter)
    (hcount : ∀ s ts, pc ≠ .countSend s ts) (hrelease : pc ≠ .release) :
    (stepCall cfg ch k job pc).1.ctx.nOutstandingSend = k.ctx.nOutstandingSend := by
  cases pc with
  | enter => exact absurd rfl henter
  | countSend s ts => exact absurd rfl (hcount s ts)
  | release => exact absurd rfl hrelease
  | testClosing =>
      simp only [stepCall]
      split
      · rfl
      · rcases dispatch_core cfg k job with h | h
        · rw [h]
        · rw [h]
          rfl
  | notify =>
      simp only [stepCall]
      rcases notify_eq k (notification job) with h | h
      all_goals rw [h]
  | close s => cases s <;> rfl
  | headTest =>
      simp only [stepCall]
      rcases takeHead_eq k.ctx with ht | ⟨p, rest, -, -, ht⟩ <;> rw [ht]
  | insert => cases job <;> rfl
  | send s ts =>
      cases ts with
      | nil => rfl
      | cons t ts =>
          simp only [stepCall]
          repeat' split
          all_goals rfl
  | reads left => cases left <;> rfl
  | unlink s | finish | call p | increment p | drop p | returned => rfl
  | testCounters | compare | add | keepAlive | ioctl | alloc s | recv s addr | throttle s b ts
  | wsaSend s b ts =>
      simp only [stepCall]
      repeat' split
      all_goals rfl

theorem stepCall_posting (cfg : Config) (ch : Choice) (k : Core) (job : Job) {pc : Pc}
    (hthrottle : ∀ s b ts, pc ≠ .throttle s b ts) :
    (stepCall cfg ch k job pc).2.posting ≤ pc.posting := by
  cases pc with
  | throttle s b ts => exact absurd rfl (hthrottle s b ts)
  | testClosing =>
      simp only [stepCall]
      split
      · exact Nat.zero_le _
      · unfold dispatch
        repeat' split
        all_goals exact Nat.le_refl 0
  | close s => cases s <;> cases job <;> exact Nat.le_refl 0
  | headTest =>
      simp only [stepCall]
      rcases takeHead_eq k.ctx with ht | ⟨p, rest, -, -, ht⟩ <;> rw [ht] <;> exact Nat.le_refl 0
  | send s ts =>
      cases ts with
      | nil => cases s <;> exact Nat.le_refl 0
      | cons t ts =>
          simp only [stepCall]
          repeat' split
          all_goals exact Nat.le_refl 0
  | wsaSend s b ts =>
      simp only [stepCall]
      split
      · exact Nat.le_refl 1
      · exact Nat.zero_le 1
  | countSend s ts => exact Nat.zero_le 1
  | reads left => cases left <;> exact Nat.le_refl 0
  | alloc s =>
      simp only [stepCall]
      split
      · exact Nat.le_refl 0
      · cases s <;> exact Nat.le_refl 0
  | recv s addr =>
      simp only [stepCall]
      cases s <;> split <;> exact Nat.le_refl 0
  | enter | notify | release | insert | unlink s | finish | call p | increment p | drop p
  | returned =>
      exact Nat.le_refl 0
  | testCounters | compare | add | keepAlive | ioctl =>
      simp only [stepCall]
      repeat' split
      all_goals exact Nat.le_refl 0

theorem after_flight (h : l.flight.length = c.inFlight.length) {act : Action}
    (hs : c.step cfg act = some d) : (l.after c d act).flight.length = d.inFlight.length := by
  cases act with
  | dequeue i data e =>
      obtain ⟨b, hb, -, rfl⟩ := Conn.dequeue_eq hs
      obtain ⟨hlt, -⟩ := List.getElem?_eq_some_iff.mp hb
      simp only [SendRecord.after, Conn.start]
      rw [List.length_eraseIdx_of_lt (h ▸ hlt), List.length_eraseIdx_of_lt hlt, h]
  | step i ch =>
      obtain ⟨a, ha, -, rfl⟩ := Conn.step_eq hs
      have hposted := stepCall_posted cfg ch c.toCore a.job a.pc
      generalize stepCall cfg ch c.toCore a.job a.pc = r at hposted ⊢
      simp only [SendRecord.after, ha, Conn.become_toCore]
      rcases hposted with ⟨hsame, -⟩ | ⟨s, addr, hpc, hpost⟩ | ⟨s, b, ts, hpc, hpost⟩
      · simp only [hsame, Nat.lt_irrefl, if_false]
        split <;> first | exact h | (split <;> exact h)
      · simp only [hpost, hpc, Core.postRecv, List.length_append, List.length_singleton,
          Nat.lt_succ_self, if_true, h]
      · simp only [hpost, hpc, Core.wsaSend, List.length_append, List.length_singleton,
          Nat.lt_succ_self, if_true, h]
  | sendText t =>
      obtain ⟨-, rfl⟩ := Conn.sendText_eq hs
      exact h
  | closeAConnection =>
      obtain ⟨-, rfl⟩ := Conn.closeAConnection_eq hs
      exact h

/-- A step of one call: what it does to the counter is what it does to the record, and a send
passes the test only where there is room. -/
theorem stepCall_within (ch : Choice) (h : Bounded nMaxSends c l) (ha : c.calls[i]? = some a)
    (hcall : CallWithin nMaxSends c l i a) (hcfg : cfg.nMaxSends = nMaxSends) :
    let r := stepCall cfg ch c.toCore a.job a.pc
    r.1.ctx.nOutstandingSend = (l.after c (c.become i a r) (.step i ch)).counted.length ∧
      (r.1.ctx.nOutstandingSend + r.2.posting ≤ c.ctx.nOutstandingSend + a.pc.posting ∨
        a.pc.posting = 0 ∧ r.1.ctx.nOutstandingSend + r.2.posting + c.posting ≤ nMaxSends) := by
  intro r
  have hcount := h.count
  have hnonneg : 0 ≤ c.ctx.nOutstandingSend := hcount ▸ Int.natCast_nonneg _
  by_cases henter : a.pc = .enter
  · simp only [r, henter, stepCall, SendRecord.after, ha, Pc.posting]
    cases hw : a.job.isWrite with
    | true =>
        have hmem := hcall.2 henter hw
        have hpos := List.length_pos_of_mem hmem
        cases hj : a.job with
        | io b t e =>
            rw [hj] at hw
            have hop : b.nOperation = .opWrite := by simpa [Job.isWrite] using hw
            simp only [hop, CIOCPContext.countDown, if_true, List.length_erase_of_mem hmem]
            omega
        | accept b | app =>
            rw [hj] at hw
            cases hw
    | false =>
        simp only [Bool.false_eq_true, if_false]
        cases hj : a.job with
        | io b t e =>
            rw [hj] at hw
            cases hop : b.nOperation with
            | opWrite => simp [Job.isWrite, hop] at hw
            | opRead | opAccept =>
                simp only [hop, CIOCPContext.countDown]
                exact ⟨hcount, .inl (Int.le_refl _)⟩
        | accept b | app => exact ⟨hcount, .inl (Int.le_refl _)⟩
  by_cases hsend : ∃ s ts, a.pc = .countSend s ts
  · obtain ⟨s, ts, hpc⟩ := hsend
    simp only [r, hpc, stepCall, SendRecord.after, ha, Pc.posting, CIOCPContext.countSend,
      List.length_cons]
    omega
  by_cases hrelease : a.pc = .release
  · simp only [r, hrelease, stepCall, SendRecord.after, ha, Pc.posting, Core.release,
      List.length_nil]
    exact ⟨rfl, .inl (Int.add_le_add_right hnonneg _)⟩
  have hsame : r.1.ctx.nOutstandingSend = c.ctx.nOutstandingSend :=
    stepCall_nOutstandingSend a.job henter (fun s ts hpc => hsend ⟨s, ts, hpc⟩) hrelease
  refine ⟨hsame.trans (hcount.trans ?_), ?_⟩
  · simp only [SendRecord.after, ha]
    split <;> first | rfl | (split <;> rfl) | skip
    · rename_i hpc
      exact absurd ⟨_, _, hpc⟩ hsend
    · rename_i hpc
      exact absurd hpc henter
    · rename_i hpc
      exact absurd hpc hrelease
  · by_cases hthrottle : ∃ s b ts, a.pc = .throttle s b ts
    · obtain ⟨s, b, ts, hpc⟩ := hthrottle
      simp only [r, hpc, stepCall, hcfg]
      split
      · exact .inl (Int.le_refl _)
      · rename_i hle
        have hroom := hcall.1 (by rw [hpc]; rfl) (Int.not_lt.mp hle)
        refine .inr ⟨rfl, ?_⟩
        change c.ctx.nOutstandingSend + ((1 : Nat) : Int) + c.posting ≤ nMaxSends
        omega
    · have hposting := stepCall_posting cfg ch c.toCore a.job
        fun s b ts hpc => hthrottle ⟨s, b, ts, hpc⟩
      refine .inl ?_
      change r.2.posting ≤ a.pc.posting at hposting
      omega

theorem Bounded.stepped (h : Bounded nMaxSends c l) (ha : c.calls[i]? = some a)
    (hcall : CallWithin nMaxSends c l i a) (hcfg : cfg.nMaxSends = nMaxSends)
    (hs : c.step cfg (.step i ch) = some (c.become i a (stepCall cfg ch c.toCore a.job a.pc))) :
    Bounded nMaxSends (c.become i a (stepCall cfg ch c.toCore a.job a.pc))
      (l.after c (c.become i a (stepCall cfg ch c.toCore a.job a.pc)) (.step i ch)) := by
  obtain ⟨hcount, hroom⟩ := stepCall_within ch h ha hcall hcfg
  obtain ⟨others, hbefore, hafter⟩ := Conn.weight_become (fun a => a.pc.posting)
    (stepCall cfg ch c.toCore a.job a.pc) ha
  refine ⟨after_flight h.flight hs, hcount, ?_⟩
  have hold := h.room
  unfold Conn.posting at hold hroom ⊢
  rw [Conn.become_toCore, hafter]
  rw [hbefore] at hold hroom
  push_cast at hold hroom ⊢
  rcases hroom with hroom | ⟨hzero, hroom⟩ <;> omega

theorem Bounded.start (h : Bounded nMaxSends c l) {job : Job} {pc : Pc} (hpc : pc.posting = 0) :
    Bounded nMaxSends (c.start job pc) l := by
  refine ⟨h.flight, h.count, ?_⟩
  have hroom := h.room
  unfold Conn.posting at hroom ⊢
  simp only [Conn.start, weight_append, weight_cons, weight_nil, hpc]
  simpa using hroom

theorem Bounded.step (h : Bounded nMaxSends c l) (hcfg : cfg.nMaxSends = nMaxSends) {act : Action}
    (hok : ∀ i ch, act = .step i ch → ∀ a ∈ c.calls[i]?, CallWithin nMaxSends c l i a)
    (hs : c.step cfg act = some d) : Bounded nMaxSends d (l.after c d act) := by
  cases act with
  | dequeue i data e =>
      have hflight := after_flight h.flight hs
      obtain ⟨b, -, -, rfl⟩ := Conn.dequeue_eq hs
      have hstart : Bounded nMaxSends
          (c.start (.io (completed b data) data.length e) .enter) l := h.start rfl
      exact ⟨hflight, hstart.count, hstart.room⟩
  | step i ch =>
      obtain ⟨a, ha, -, rfl⟩ := Conn.step_eq hs
      exact h.stepped ha (hok i ch rfl a ha) hcfg hs
  | sendText t =>
      obtain ⟨-, rfl⟩ := Conn.sendText_eq hs
      exact h.start rfl
  | closeAConnection =>
      obtain ⟨-, rfl⟩ := Conn.closeAConnection_eq hs
      exact h.start rfl

/-! ## The clients on their way -/

/-- One while the call stands before `AddAConnection`. -/
def Pc.adding : Pc → Nat
  | .add => 1
  | _ => 0

theorem stepCall_adding (cfg : Config) (ch : Choice) (k : Core) (job : Job) (pc : Pc) :
    (stepCall cfg ch k job pc).2.adding = 0 := by
  cases pc with
  | testClosing =>
      simp only [stepCall]
      split
      · rfl
      · unfold dispatch
        repeat' split
        all_goals rfl
  | close s => cases s <;> cases job <;> rfl
  | headTest =>
      simp only [stepCall]
      rcases takeHead_eq k.ctx with ht | ⟨p, rest, -, -, ht⟩ <;> rw [ht] <;> rfl
  | send s ts =>
      cases ts with
      | nil => cases s <;> rfl
      | cons t ts =>
          simp only [stepCall]
          repeat' split
          all_goals rfl
  | reads left => cases left <;> rfl
  | alloc s =>
      simp only [stepCall]
      split
      · rfl
      · cases s <;> rfl
  | recv s addr =>
      simp only [stepCall]
      cases s <;> split <;> rfl
  | enter | notify | release | insert | unlink s | finish | call p | increment p | drop p
  | returned | countSend s ts =>
      rfl
  | testCounters | compare | add | keepAlive | ioctl | throttle s b ts | wsaSend s b ts =>
      simp only [stepCall]
      repeat' split
      all_goals rfl

/-- The calls of a context that stand before `AddAConnection`. -/
def Conn.adding (c : Conn) : Nat := weight (fun a => a.pc.adding) c.calls

theorem adding_start {job : Job} {pc : Pc} :
    (c.start job pc).adding = c.adding + pc.adding := by
  simp [Conn.adding, Conn.start]

/-- The step of `AddAConnection` is one call less, any other step none. -/
theorem adding_step {act : Action} (hs : c.step cfg act = some d) :
    d.adding + (Clients.pcOf c act).adding = c.adding := by
  cases act with
  | dequeue i data e =>
      obtain ⟨b, -, -, rfl⟩ := Conn.dequeue_eq hs
      exact adding_start
  | step i ch =>
      obtain ⟨a, ha, -, rfl⟩ := Conn.step_eq hs
      obtain ⟨others, hbefore, hafter⟩ := Conn.weight_become (fun a => a.pc.adding)
        (stepCall cfg ch c.toCore a.job a.pc) ha
      have hzero := stepCall_adding cfg ch c.toCore a.job a.pc
      simp only [Conn.adding, Clients.pcOf, ha, Option.map_some, Option.getD_some]
      rw [hbefore, hafter]
      simp only at hzero ⊢
      omega
  | sendText t =>
      obtain ⟨-, rfl⟩ := Conn.sendText_eq hs
      exact adding_start
  | closeAConnection =>
      obtain ⟨-, rfl⟩ := Conn.closeAConnection_eq hs
      exact adding_start

/-! ## All of them -/

/-- `m_nCurrentConnection` is the length of the list, and there is room for the clients that
are on their way. -/
structure ClientRoom (nMaxConnections : Int) (w : Monitored) : Prop where
  count : w.m_nCurrentConnection = w.m_pConnectionList.length
  arriving : ∀ p, w.arriving.count p = (w.conns p).adding
  room : ((w.m_pConnectionList.length + w.arriving.length : Nat) : Int) ≤ nMaxConnections

variable {w v : Monitored}

theorem ClientRoom.on (h : ClientRoom nMaxConnections w) {p : Nat} {act : Action}
    (hs : (w.conns p).step cfg (w.answered nMaxConnections (w.conns p) act) = some d) :
    ClientRoom nMaxConnections
      { toClients :=
          { w.relist nMaxConnections p (Clients.pcOf (w.conns p) act) with
            conns := Function.update w.conns p d }
        arriving := w.arrivingAfter (.on p act), record := w.record } := by
  have hadding : d.adding + (Clients.pcOf (w.conns p) act).adding = (w.conns p).adding := by
    have hstep := adding_step hs
    cases act with
    | step i ch => exact hstep
    | dequeue i data e | sendText t | closeAConnection => exact hstep
  have hcount := h.count
  have hroom := h.room
  have harriving : ∀ (l : List Nat), (l.count p + (Clients.pcOf (w.conns p) act).adding
      = w.arriving.count p) → (∀ q, q ≠ p → l.count q = w.arriving.count q) →
      ∀ q, l.count q = (Function.update w.conns p d q).adding := by
    intro l hp hq q
    by_cases hqp : q = p
    · have harr := h.arriving p
      rw [hqp, Function.update_self]
      omega
    · rw [Function.update_of_ne hqp, hq q hqp, h.arriving q]
  cases hpc : Clients.pcOf (w.conns p) act with
  | add =>
      have hmem : p ∈ w.arriving := by
        have harr := h.arriving p
        rw [hpc] at hadding
        simp only [Pc.adding] at hadding
        exact List.count_pos_iff.mp (by omega)
      have hlength := List.length_erase_of_mem hmem
      have hpos := List.length_pos_of_mem hmem
      have herase : ∀ q, ((w.arriving.erase p).count q + if q = p then 1 else 0)
          = w.arriving.count q := by
        intro q
        by_cases hqp : q = p
        · have hcp := List.count_pos_iff.mpr hmem
          rw [hqp, List.count_erase_self, if_pos rfl]
          omega
        · rw [List.count_erase_of_ne hqp, if_neg hqp, Nat.add_zero]
      have hlt : w.m_nCurrentConnection ≤ nMaxConnections := by omega
      simp only [Clients.relist, if_pos hlt, Monitored.arrivingAfter, hpc, if_true]
      refine ⟨?_, harriving _ ?_ fun q hq => ?_, ?_⟩
      · simp only [List.length_cons]
        omega
      · have hself := herase p
        rw [if_pos rfl] at hself
        rw [hpc]
        exact hself
      · have hother := herase q
        rwa [if_neg hq, Nat.add_zero] at hother
      · simp only [List.length_cons]
        omega
  | unlink s =>
      have hsame : ∀ q, w.arriving.count q = (Function.update w.conns p d q).adding :=
        harriving _ (by rw [hpc]; rfl) fun _ _ => rfl
      simp only [Clients.relist, Monitored.arrivingAfter, hpc, reduceCtorEq, if_false]
      by_cases hmem : p ∈ w.m_pConnectionList
      · have hlength := List.length_erase_of_mem hmem
        have hpos := List.length_pos_of_mem hmem
        simp only [if_pos hmem]
        exact ⟨by dsimp only; omega, hsame, by dsimp only; omega⟩
      · simp only [if_neg hmem]
        exact ⟨hcount, hsame, hroom⟩
  | _ =>
      have hsame : ∀ q, w.arriving.count q = (Function.update w.conns p d q).adding :=
        harriving _ (by rw [hpc]; rfl) fun _ _ => rfl
      simp only [Clients.relist, Monitored.arrivingAfter, hpc, reduceCtorEq, if_false]
      exact ⟨hcount, hsame, hroom⟩

/-- The limits of the server. -/
structure Inside (nMaxConnections nMaxSends : Int) (w : Monitored) : Prop where
  room : ClientRoom nMaxConnections w
  bounded : ∀ p, Bounded nMaxSends (w.conns p) (w.record p)

theorem Inside.step (h : Inside nMaxConnections nMaxSends w) (hcfg : cfg.nMaxSends = nMaxSends)
    {act : ClientAction} (hok : WithinLimits nMaxConnections nMaxSends w act)
    (hs : w.step nMaxConnections cfg act = some v) : Inside nMaxConnections nMaxSends v := by
  obtain ⟨σ, hσ, rfl⟩ := Option.map_eq_some_iff.mp hs
  obtain ⟨hroom, hbounded⟩ := h
  cases act with
  | accept p s b =>
      obtain ⟨-, ht⟩ := Option.ite_none_right_eq_some.mp hσ
      cases ht
      refine ⟨⟨hroom.count, fun q => ?_, ?_⟩, fun q => ?_⟩
      · change (p :: w.arriving).count q = (Function.update w.conns p _ q).adding
        by_cases hqp : q = p
        · have hstart : ((w.conns p).reuse s b).adding = (w.conns p).adding + 1 := adding_start
          rw [hqp, Function.update_self, List.count_cons_self, hroom.arriving p, hstart]
        · rw [Function.update_of_ne hqp, List.count_cons_of_ne (Ne.symm hqp), hroom.arriving q]
      · simp only [WithinLimits, Monitored.arrivingAfter, List.length_cons] at hok ⊢
        omega
      · change Bounded nMaxSends (Function.update w.conns p _ q) (w.record q)
        by_cases hqp : q = p
        · have hstart : Bounded nMaxSends ((w.conns p).start (.accept b) .add) (w.record p) :=
            (hbounded p).start rfl
          rw [hqp, Function.update_self]
          exact ⟨hstart.flight, hstart.count, hstart.room⟩
        · rw [Function.update_of_ne hqp]
          exact hbounded q
  | on p act =>
      obtain ⟨d, hd, rfl⟩ := Option.map_eq_some_iff.mp hσ
      have hon := hroom.on hd
      refine ⟨⟨hon.count, hon.arriving, hon.room⟩, fun q => ?_⟩
      simp only [Monitored.recordAfter]
      by_cases hqp : q = p
      · subst hqp
        rw [Function.update_self, Function.update_self]
        have hcall : ∀ i ch, w.answered nMaxConnections (w.conns q) act = .step i ch →
            ∀ a ∈ (w.conns q).calls[i]?, CallWithin nMaxSends (w.conns q) (w.record q) i a := by
          intro i ch hact a ha
          cases act with
          | step j ch' =>
              cases hact
              exact hok a ha
          | dequeue j data e | sendText t | closeAConnection => cases hact
        have hbound := (hbounded q).step hcfg hcall hd
        cases act with
        | step i ch => exact hbound
        | dequeue i data e | sendText t | closeAConnection => exact hbound
      · rw [Function.update_of_ne hqp, Function.update_of_ne hqp]
        exact hbounded q
  | closeAllConnections =>
      cases hσ
      have hle := hroom.room
      refine ⟨⟨rfl, fun p => (hroom.arriving p).trans ?_, ?_⟩, fun p => ?_⟩
      · change _ = Conn.adding (if p ∈ w.m_pConnectionList then _ else w.conns p)
        split <;> rfl
      · change ((0 + w.arriving.length : Nat) : Int) ≤ nMaxConnections
        omega
      · change Bounded nMaxSends (if p ∈ w.m_pConnectionList then _ else w.conns p) (w.record p)
        split
        · exact ⟨(hbounded p).flight, (hbounded p).count, (hbounded p).room⟩
        · exact hbounded p

end

/-- An echo server with room for one client and one send. -/
def single : Config := { cMyServer with nMaxSends := 1, nInitialReads := 1 }

end CppWorkspace.CIOCPServer
