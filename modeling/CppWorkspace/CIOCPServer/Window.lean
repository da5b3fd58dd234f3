/-
# `CppWorkspace.CIOCPServer.Window` — why sequence numbers never collide

`nSequenceNumber` is 32 bits wide and wraps, so two undelivered reads with the
same stamp would be `2^32` posts apart.  Nothing in the code bounds the number
of undelivered reads; the address space does.  Every undelivered read lives in
a receive buffer of its own, and the program keeps its pointers in 32 bits (the
completion key is a `DWORD`), so there are at most `2^32` of them.

The facts used of `AllocateBuffer` are these two: the address is below `2^32`,
and no receive buffer in use lives there (`Separated`).  The number of
undelivered reads is then counted twice, once by sequence number and once by
address.
-/
import CppWorkspace.CIOCPServer.ReadOrder
import Mathlib.Order.Interval.Finset.Nat

namespace CppWorkspace.CIOCPServer

open Runs Weights

/-- `1` if this is a receive buffer at address `x`. -/
def atAddr (x : Nat) (b : CIOCPBuffer) : Nat :=
  if b.nOperation = .opRead ∧ b.addr = x then 1 else 0

/-- The buffer of the completion that the call was started for. -/
def Job.buffers : Job → List CIOCPBuffer
  | .io b _ _ => [b]
  | _ => []

/-- The buffers that the call has in its hands. -/
def Call.buffers (a : Call) : List CIOCPBuffer :=
  (if a.pc.early then a.job.buffers else []) ++ a.pc.held.toList

/-- `1` if the call has allocated `x` for a read that is not posted yet. -/
def Call.allotted (x : Nat) (a : Call) : Nat :=
  match a.pc with
  | .recv _ addr => if addr = x then 1 else 0
  | _ => 0

/-- What the call keeps at address `x`. -/
def Call.keepsAt (x : Nat) (a : Call) : Nat := weight (atAddr x) a.buffers + a.allotted x

/-- How many receive buffers in use there are at address `x`. -/
def live (x : Nat) (c : Conn) : Nat :=
  weight (atAddr x) c.inFlight + weight (Call.keepsAt x) c.calls +
    weight (atAddr x) c.ctx.pOutOfOrderReads

/-- One receive buffer at an address, and none beyond 32 bits. -/
def Separated (c : Conn) : Prop := ∀ x, live x c ≤ if x < 2 ^ 32 then 1 else 0

/-- A call of `AllocateBuffer` for a read yields an address of 32 bits at which
no receive buffer in use lives. -/
def FreshAddr (c : Conn) (ch : Choice) : Prop := ∀ x ∈ ch.addr, x < 2 ^ 32 ∧ live x c = 0

instance (c : Conn) (ch : Choice) : Decidable (FreshAddr c ch) :=
  inferInstanceAs (Decidable (∀ x ∈ ch.addr, x < 2 ^ 32 ∧ live x c = 0))

def Pc.allocates : Pc → Bool
  | .alloc _ => true
  | _ => false

/-! ## Counting twice -/

/-- The undelivered reads, wherever they are. -/
def liveReads (c : Conn) : List CIOCPBuffer :=
  c.inFlight ++ c.calls.flatMap Call.buffers ++ c.ctx.pOutOfOrderReads

theorem carries_eq (n : Nat) (a : Call) : a.carries n = weight (isNo n) a.buffers := by
  obtain ⟨job, pc⟩ := a
  simp only [Call.carries, Call.buffers, weight_append]
  congr 1
  · cases pc.early
    · rfl
    · cases job <;> simp [Job.buffers, Job.isNo]
  · cases pc.held <;> simp [heldNo]

theorem tally_eq (n : Nat) (c : Conn) : tally n c = weight (isNo n) (liveReads c) := by
  simp only [tally, liveReads, weight_append, weight_flatMap]
  rw [show Call.carries n = fun a => weight (isNo n) a.buffers from funext (carries_eq n)]

theorem live_ge (x : Nat) (c : Conn) : weight (atAddr x) (liveReads c) ≤ live x c := by
  simp only [live, liveReads, weight_append, weight_flatMap]
  have h : weight (fun a => weight (atAddr x) (Call.buffers a)) c.calls
      ≤ weight (Call.keepsAt x) c.calls :=
    weight_le fun a _ => Nat.le_add_right _ _
  omega

theorem Separated.window {c : Conn} (hS : Separated c) (h : InOrder (fun _ => True) c) :
    c.reads ≤ c.delivered + 2 ^ 32 := by
  -- by sequence number: every undelivered read is counted once
  have hno : ∑ n ∈ Finset.range c.reads, tally n c = c.reads - c.delivered := by
    have hterm : ∀ n ∈ Finset.range c.reads, tally n c = if c.delivered ≤ n then 1 else 0 := by
      intro n hn
      rw [h.once n trivial]
      simp [Finset.mem_range.mp hn]
    rw [Finset.sum_congr rfl hterm, Finset.sum_boole]
    have hfilter : (Finset.range c.reads).filter (fun n => c.delivered ≤ n)
        = Finset.Ico c.delivered c.reads := by
      ext n
      simp [and_comm]
    rw [hfilter]
    simp
  -- by address: every address is counted once at most
  have haddr : ∑ x ∈ Finset.range (2 ^ 32), weight (atAddr x) (liveReads c) ≤ 2 ^ 32 := by
    have hle : ∀ x ∈ Finset.range (2 ^ 32), weight (atAddr x) (liveReads c) ≤ 1 := by
      intro x hx
      have hx' := hS x
      rw [if_pos (Finset.mem_range.mp hx)] at hx'
      exact Nat.le_trans (live_ge x c) hx'
    calc ∑ x ∈ Finset.range (2 ^ 32), weight (atAddr x) (liveReads c)
        ≤ ∑ _x ∈ Finset.range (2 ^ 32), 1 := Finset.sum_le_sum hle
      _ = 2 ^ 32 := by simp
  have hmid : weight (fun b : CIOCPBuffer =>
        if b.nOperation = .opRead ∧ b.no < c.reads then 1 else 0) (liveReads c)
      ≤ weight (fun b : CIOCPBuffer =>
        if b.nOperation = .opRead ∧ b.addr < 2 ^ 32 then 1 else 0) (liveReads c) := by
    refine weight_le fun b hb => ?_
    by_cases hop : b.nOperation = .opRead
    · have hlt : b.addr < 2 ^ 32 := by
        by_contra hge
        have hS' := hS b.addr
        rw [if_neg hge] at hS'
        have h1 := weight_pos (f := atAddr b.addr) hb
        have h2 : atAddr b.addr b = 1 := by simp [atAddr, hop]
        have h3 := live_ge b.addr c
        omega
      simp only [hop, hlt, true_and]
      split <;> simp
    · simp [hop]
  have e₁ : ∑ n ∈ Finset.range c.reads, weight (isNo n) (liveReads c) = _ :=
    weight_by_key (fun b : CIOCPBuffer => b.nOperation = .opRead) CIOCPBuffer.no c.reads _
  have e₂ : ∑ x ∈ Finset.range (2 ^ 32), weight (atAddr x) (liveReads c) = _ :=
    weight_by_key (fun b : CIOCPBuffer => b.nOperation = .opRead) CIOCPBuffer.addr (2 ^ 32) _
  rw [Finset.sum_congr rfl fun n _ => tally_eq n c, e₁] at hno
  rw [e₂] at haddr
  omega

/-! ## No buffer gets a second copy -/

/-- What is at address `x` in the shared state and in the hands of one call. -/
def around (x : Nat) (k : Core) (a : Call) : Nat :=
  weight (atAddr x) k.inFlight + a.keepsAt x + weight (atAddr x) k.ctx.pOutOfOrderReads

section
variable (x : Nat) (cfg : Config) (ch : Choice) (k : Core) (job : Job)

/-- A call that keeps the shared places and carries no more than before. -/
theorem around_le {k' : Core} {pc pc' : Pc} (hf : k'.inFlight = k.inFlight)
    (hp : k'.ctx.pOutOfOrderReads = k.ctx.pOutOfOrderReads)
    (h : Call.keepsAt x ⟨job, pc'⟩ ≤ Call.keepsAt x ⟨job, pc⟩) :
    around x k' ⟨job, pc'⟩ ≤ around x k ⟨job, pc⟩ := by
  simp only [around, hf, hp]
  omega

/-- A position at which the call has nothing in its hands. -/
def Pc.idle (pc : Pc) : Bool :=
  match pc with
  | .recv .. => false
  | pc => !pc.early && pc.held.isNone

theorem keepsAt_idle (pc : Pc) (h : pc.idle = true) : Call.keepsAt x ⟨job, pc⟩ = 0 := by
  cases pc <;> simp_all [Pc.idle, Call.keepsAt, Call.buffers, Call.allotted]

theorem keepsAt_eq {pc pc' : Pc} (he : pc'.early = pc.early) (hh : pc'.held = pc.held)
    (hr : ∀ a addr, pc' ≠ .recv a addr) :
    Call.keepsAt x ⟨job, pc'⟩ ≤ Call.keepsAt x ⟨job, pc⟩ := by
  have h0 : Call.allotted x ⟨job, pc'⟩ = 0 := by
    cases pc' <;> first | rfl | exact absurd rfl (hr _ _)
  simp only [Call.keepsAt, Call.buffers, he, hh, h0]
  omega

/-- A step that leaves the shared places alone and leads to an idle position. -/
theorem around_idle {k' : Core} {pc pc' : Pc} (hf : k'.inFlight = k.inFlight)
    (hp : k'.ctx.pOutOfOrderReads = k.ctx.pOutOfOrderReads) (h : pc'.idle = true) :
    around x k' ⟨job, pc'⟩ ≤ around x k ⟨job, pc⟩ :=
  around_le x k job hf hp (by rw [keepsAt_idle x job _ h]; exact Nat.zero_le _)

/-- A step that leaves the shared places alone and what the call carries as well. -/
theorem around_same {k' : Core} {pc pc' : Pc} (hf : k'.inFlight = k.inFlight)
    (hp : k'.ctx.pOutOfOrderReads = k.ctx.pOutOfOrderReads) (he : pc'.early = pc.early)
    (hh : pc'.held = pc.held) (hr : ∀ a addr, pc' ≠ .recv a addr) :
    around x k' ⟨job, pc'⟩ ≤ around x k ⟨job, pc⟩ :=
  around_le x k job hf hp (keepsAt_eq x job he hh hr)

/-- A step moves a receive buffer or drops it; only `AllocateBuffer` adds one. -/
theorem stepCall_around (pc : Pc) :
    around x (stepCall cfg ch k job pc).1 ⟨job, (stepCall cfg ch k job pc).2⟩
      ≤ around x k ⟨job, pc⟩
        + if pc.allocates = true ∧ ch.addr = some x then 1 else 0 := by
  by_cases halloc : ∃ a, pc = .alloc a
  · obtain ⟨a, rfl⟩ := halloc
    simp only [stepCall]
    cases ch.addr with
    | none => cases a <;> exact around_idle x k job rfl rfl rfl
    | some addr =>
        simp only [around, Call.keepsAt, Call.buffers, Call.allotted, Pc.early, Pc.held,
          Pc.allocates, Option.some.injEq, true_and]
        simp
        omega
  refine Nat.le_trans ?_ (Nat.le_add_right _ _)
  cases pc with
  | alloc a => exact absurd ⟨a, rfl⟩ halloc
  | enter =>
      cases job with
      | io b t e =>
          exact around_same x k _ rfl (CIOCPContext.countDown_pOutOfOrderReads ..) rfl rfl
            (by simp [stepCall])
      | accept b | app => exact around_same x k _ rfl rfl rfl rfl (by simp [stepCall])
  | testClosing =>
      simp only [stepCall]
      split
      · exact around_idle x k job rfl rfl rfl
      · unfold dispatch
        repeat' split
        all_goals first
          | exact around_idle x k _ rfl rfl rfl
          | exact around_same x k _ rfl rfl rfl rfl (by simp)
  | notify =>
      simp only [stepCall, Core.notify]
      split <;> exact around_idle x k job rfl rfl rfl
  | close a => cases a <;> cases job <;> exact around_idle x k _ rfl rfl rfl
  | release =>
      have h0 := keepsAt_idle x job .finish rfl
      simp only [stepCall, around, h0, Core.release, CIOCPContext.zeroed, CIOCPContext.allocated,
        weight_nil]
      omega
  | compare =>
      cases job with
      | io b t e =>
          simp only [stepCall]
          split
          · exact around_le x k _ rfl rfl (by
              simp [Call.keepsAt, Call.buffers, Call.allotted, Pc.early, Pc.held, Job.buffers])
          · exact around_same x k _ rfl rfl rfl rfl (by simp)
      | accept b | app => exact around_idle x k _ rfl rfl rfl
  | insert =>
      cases job with
      | io b t e =>
          simp only [stepCall, around, CIOCPContext.park, weight_insertRead, Call.keepsAt,
            Call.buffers, Call.allotted, Pc.early, Pc.held, Job.buffers]
          simp
          omega
      | accept b | app => exact around_idle x k _ rfl rfl rfl
  | headTest =>
      simp only [stepCall]
      rcases takeHead_eq k.ctx with ht | ⟨p, rest, hl, -, ht⟩ <;> rw [ht]
      · exact around_idle x k job rfl rfl rfl
      · simp only [around, hl, Call.keepsAt, Call.buffers, Call.allotted, Pc.early, Pc.held,
          weight_cons]
        simp
        omega
  | call p => exact around_same x k job rfl rfl rfl rfl (by simp [stepCall])
  | send a ts =>
      cases ts with
      | nil => cases a <;> exact around_same x k job rfl rfl rfl rfl (by simp [stepCall, afterSend])
      | cons t ts =>
          simp only [stepCall]
          repeat' split
          all_goals cases a <;> exact around_same x k job rfl rfl rfl rfl (by simp)
  | throttle a b ts =>
      simp only [stepCall]
      split <;> cases a <;> exact around_same x k job rfl rfl rfl rfl (by simp)
  | wsaSend a b ts =>
      simp only [stepCall]
      split
      · -- a send buffer is no receive buffer
        have hf : weight (atAddr x) (k.wsaSend b).inFlight = weight (atAddr x) k.inFlight := by
          simp [Core.wsaSend, atAddr]
        have hk : Call.keepsAt x ⟨job, .countSend a ts⟩ ≤ Call.keepsAt x ⟨job, .wsaSend a b ts⟩ :=
          keepsAt_eq x job rfl (by cases a <;> rfl) (by simp)
        simp only [around, hf]
        exact Nat.add_le_add_right (Nat.add_le_add_left hk _) _
      · cases a <;> exact around_same x k job rfl rfl rfl rfl (by simp)
  | countSend a ts => cases a <;> exact around_same x k job rfl rfl rfl rfl (by simp [stepCall])
  | recv a addr =>
      simp only [stepCall]
      split
      · have h0 := keepsAt_idle x job (afterRecv a) (by cases a <;> rfl)
        have hk : Call.keepsAt x ⟨job, .recv a addr⟩ = if addr = x then 1 else 0 := by
          simp [Call.keepsAt, Call.buffers, Call.allotted, Pc.early, Pc.held]
        have hf : weight (atAddr x) (k.postRecv addr).inFlight
            = weight (atAddr x) k.inFlight + if addr = x then 1 else 0 := by
          simp [Core.postRecv, atAddr]
        simp only [around, h0, hk, hf]
        exact Nat.le_refl _
      · exact around_idle x k job rfl rfl rfl
  | reads left => cases left <;> exact around_idle x k job rfl rfl rfl
  | unlink a | testCounters | finish | increment p | drop p | add | keepAlive | ioctl | returned =>
      simp only [stepCall]
      repeat' split
      all_goals exact around_idle x k _ rfl rfl rfl

end

/-! ## Runs -/

theorem live_become {x : Nat} {c : Conn} {i : Nat} {a : Call} {r : Core × Pc}
    (ha : c.calls[i]? = some a) : ∃ o, live x c = around x c.toCore a + o ∧
      live x (c.become i a r) = around x r.1 { a with pc := r.2 } + o := by
  obtain ⟨o, h₁, h₂⟩ := Conn.weight_become (Call.keepsAt x) r ha
  refine ⟨o, ?_, ?_⟩
  · simp only [live, around, h₁]
    omega
  · simp only [live, around, h₂, Conn.become_toCore]
    omega

theorem atAddr_completed (x : Nat) (b : CIOCPBuffer) (data : List UInt8) :
    atAddr x (completed b data) = atAddr x b := by
  unfold completed atAddr
  split <;> simp_all

theorem Separated.step {c d : Conn} {cfg : Config} {act : Action} (h : Separated c)
    (hfresh : ∀ i ch a, act = .step i ch → c.calls[i]? = some a → a.pc.allocates = true →
      FreshAddr c ch)
    (hs : c.step cfg act = some d) : Separated d := by
  intro x
  have hx := h x
  cases act with
  | dequeue i data e =>
      obtain ⟨b, hb, -, rfl⟩ := Conn.dequeue_eq hs
      have he := weight_eraseIdx (atAddr x) hb
      have hk : Call.keepsAt x ⟨.io (completed b data) data.length e, .enter⟩ = atAddr x b := by
        simp [Call.keepsAt, Call.buffers, Call.allotted, Pc.early, Pc.held, Job.buffers,
          atAddr_completed]
      simp only [live, Conn.start, weight_append, weight_cons, weight_nil, hk] at hx ⊢
      omega
  | step i ch =>
      obtain ⟨a, ha, -, rfl⟩ := Conn.step_eq hs
      obtain ⟨o, h₁, h₂⟩ := live_become (x := x) (r := stepCall cfg ch c.toCore a.job a.pc) ha
      have hle : around x (stepCall cfg ch c.toCore a.job a.pc).1
            { a with pc := (stepCall cfg ch c.toCore a.job a.pc).2 }
          ≤ around x c.toCore a + if a.pc.allocates = true ∧ ch.addr = some x then 1 else 0 :=
        stepCall_around x cfg ch c.toCore a.job a.pc
      rw [h₂]
      by_cases hnew : a.pc.allocates = true ∧ ch.addr = some x
      · obtain ⟨hlt, hzero⟩ := hfresh i ch a rfl ha hnew.1 x hnew.2
        rw [if_pos hnew] at hle
        rw [if_pos hlt]
        omega
      · rw [if_neg hnew] at hle
        omega
  | sendText t =>
      obtain ⟨-, rfl⟩ := Conn.sendText_eq hs
      simp only [live, Conn.start, weight_append, weight_cons, weight_nil,
        keepsAt_idle x .app (.send .app [t]) rfl] at hx ⊢
      exact hx
  | closeAConnection =>
      obtain ⟨-, rfl⟩ := Conn.closeAConnection_eq hs
      simp only [live, Conn.start, weight_append, weight_cons, weight_nil,
        keepsAt_idle x .app (.unlink .leave) rfl] at hx ⊢
      exact hx

theorem Separated.init (sock : SOCKET) (b : CIOCPBuffer) : Separated (Conn.init sock b) := by
  intro x
  simp [live, Conn.init, CIOCPContext.allocated, Call.keepsAt, Call.buffers, Call.allotted,
    Pc.early, Pc.held]

end CppWorkspace.CIOCPServer
