/-
# `CppWorkspace.CIOCPServer.Holding` — where the buffers of one connection are

A buffer of a connection is attached to an operation in flight, parked in
`pOutOfOrderReads`, or in the hands of a call (`Call.holds`, by its position).
Every step moves buffers between these places, and the balance is exact
(`stepCall_holds`):

    here after + given back + lost  =  here before + allocated

`given back` are the calls of `ReleaseBuffer`; `lost` are the buffers whose
post was refused: `PostRecv` and `PostSend` return `FALSE` and keep nothing,
and no caller gives the buffer back.

The buffer of an accept is the server's: `Call.acceptHolds` follows it to the
end of the accept branch.
-/
import CppWorkspace.CIOCPServer.Connection

namespace CppWorkspace.CIOCPServer

open Weights

/-- `1` if the buffer is the one at address `x`. -/
def isAt (x : Nat) (b : CIOCPBuffer) : Nat := if b.addr = x then 1 else 0

/-- The buffer of the read or write that the call was started for. -/
def Job.addrs : Job → List Nat
  | .io b _ _ => [b.addr]
  | _ => []

/-- The buffer that the caller of `SendText` keeps meanwhile. -/
def Sender.holds (job : Job) : Sender → List Nat
  | .readCompleted p => [p.addr]
  | _ => job.addrs

/-- The buffers in the hands of a call. -/
def Call.holds (a : Call) : List Nat :=
  match a.pc with
  | .send k _ | .countSend k _ => k.holds a.job
  | .throttle k b _ | .wsaSend k b _ => b.addr :: k.holds a.job
  | .call p | .increment p | .drop p => [p.addr]
  | .recv _ addr => [addr]
  | .headTest | .alloc _ | .unlink .leave | .close .leave | .returned => []
  | _ => a.job.addrs

/-- The accept buffer, until the accept branch has given it back. -/
def Call.acceptHolds (a : Call) : List Nat :=
  match a.job with
  | .accept b => if a.pc = .returned then [] else [b.addr]
  | _ => []

/-- The buffers of a connection, at address `x`. -/
def Core.keeps (x : Nat) (k : Core) : Nat :=
  weight (isAt x) k.inFlight + weight (isAt x) k.ctx.pOutOfOrderReads

def Conn.owns (x : Nat) (c : Conn) : Nat :=
  c.keeps x + weight (fun a => a.holds.count x) c.calls

/-! ## What a step allocates, gives back and loses -/

/-- The position calls `AllocateBuffer`, for a length that a buffer can have. -/
def Pc.allocating : Pc → Bool
  | .alloc _ => true
  | .send _ (t :: _) => decide (t.length ≤ bufferSize)
  | _ => false

/-- The calls of `ReleaseBuffer` for reads and sends. -/
def Call.gives (k : Core) (a : Call) : List Nat :=
  match a.pc with
  | .drop p => [p.addr]
  | .finish => a.job.addrs
  | .release => k.ctx.pOutOfOrderReads.map CIOCPBuffer.addr
  | _ => []

/-- The buffer whose post is refused: by the throttle, `WSASend` or `WSARecv`. -/
def Pc.lost (cfg : Config) (ch : Choice) (k : Core) : Pc → List Nat
  | .throttle _ b _ => if cfg.nMaxSends < k.ctx.nOutstandingSend then [b.addr] else []
  | .wsaSend _ b _ => if k.accepts ch.ok then [] else [b.addr]
  | .recv _ addr => if k.accepts ch.ok then [] else [addr]
  | _ => []

/-- The answer of `AllocateBuffer` is used. -/
def Pc.takes (ch : Choice) (pc : Pc) : List Nat := if pc.allocating then ch.addr.toList else []

section
variable (x : Nat) (cfg : Config) (ch : Choice) (k : Core) (job : Job) {pc : Pc}

theorem count_map_addr (l : List CIOCPBuffer) :
    (l.map CIOCPBuffer.addr).count x = weight (isAt x) l := by
  induction l with
  | nil => rfl
  | cons b l ih =>
      simp only [List.map_cons, List.count_cons, weight_cons, ih, isAt, beq_iff_eq]
      omega

theorem count_addr (b : CIOCPBuffer) : [b.addr].count x = isAt x b := by
  simp only [List.count_cons, List.count_nil, isAt, beq_iff_eq, Nat.zero_add]

theorem addrs_of_not_io (h : job.isIo = false) : job.addrs = [] := by
  cases job with
  | io b t e => cases h
  | accept b | app => rfl

theorem isIo_of_isAccept {job : Job} (h : job.isAccept = true) : job.isIo = false := by
  cases job with
  | accept b => rfl
  | io b t e | app => cases h

/-- A step that leaves the operations and the parked reads alone. -/
theorem keeps_of_eq {k k' : Core} (hf : k'.inFlight = k.inFlight)
    (hp : k'.ctx.pOutOfOrderReads = k.ctx.pOutOfOrderReads) : k'.keeps x = k.keeps x := by
  rw [Core.keeps, hf, hp, Core.keeps]

theorem stepCall_holds (hpc : pc.belongs job = true) :
    (stepCall cfg ch k job pc).1.keeps x + (Call.holds ⟨job, (stepCall cfg ch k job pc).2⟩).count x
        + (Call.gives k ⟨job, pc⟩).count x + (pc.lost cfg ch k).count x
      = k.keeps x + (Call.holds ⟨job, pc⟩).count x + (pc.takes ch).count x := by
  cases pc with
  | headTest =>
      simp only [stepCall]
      rcases takeHead_eq k.ctx with ht | ⟨p, rest, hp, -, ht⟩
      · rw [ht]
        rfl
      · rw [ht]
        simp only [Core.keeps, hp, weight_cons, Call.holds, Call.gives, Pc.lost, Pc.takes,
          Pc.allocating, count_addr, List.count_nil]
        simp
        omega
  | insert =>
      cases job with
      | io b t e =>
          simp only [stepCall, Core.keeps, CIOCPContext.park, weight_insertRead, Call.holds,
            Call.gives, Pc.lost, Pc.takes, Pc.allocating, Job.addrs, count_addr, List.count_nil]
          simp
          omega
      | accept b | app => cases hpc
  | release =>
      simp only [stepCall, Core.keeps, Core.release, Call.holds, Call.gives, Pc.lost, Pc.takes,
        Pc.allocating, count_map_addr]
      simp [CIOCPContext.zeroed, CIOCPContext.allocated]
      omega
  | enter =>
      cases job with
      | io b t e =>
          have hk : Core.keeps x { k with ctx := k.ctx.countDown b.nOperation } = k.keeps x :=
            keeps_of_eq x rfl (CIOCPContext.countDown_pOutOfOrderReads ..)
          simp only [stepCall]
          rw [hk]
          rfl
      | accept b | app => cases hpc
  | testClosing =>
      simp only [stepCall]
      split
      · rfl
      · cases job with
        | io b t e =>
            simp only [dispatch]
            repeat' split
            all_goals rfl
        | accept b | app => cases hpc
  | notify =>
      simp only [stepCall]
      rcases notify_eq k (notification job) with hn | hn <;> rw [hn] <;> rfl
  | unlink a => cases a <;> rfl
  | close a =>
      cases a with
      | test | release => rfl
      | leave => cases job <;> rfl
  | testCounters =>
      simp only [stepCall]
      split <;> rfl
  | finish =>
      simp only [stepCall, Call.holds, Call.gives, Pc.lost, Pc.takes, Pc.allocating]
      simp
  | compare =>
      cases job with
      | io b t e =>
          simp only [stepCall]
          split <;> rfl
      | accept b | app => cases hpc
  | call p => rfl
  | increment p => rfl
  | drop p =>
      simp only [stepCall, Call.holds, Call.gives, Pc.lost, Pc.takes, Pc.allocating]
      simp
  | send a ts =>
      cases ts with
      | nil =>
          cases a with
          | readCompleted p | writeCompleted => rfl
          | established =>
              simp only [stepCall, afterSend, Call.holds, Sender.holds]
              rfl
          | app =>
              cases job with
              | app => rfl
              | io b t e | accept b => cases hpc
      | cons t ts =>
          simp only [stepCall, Pc.takes, Pc.allocating]
          cases ch.addr with
          | none => simp [Call.holds, Call.gives, Pc.lost, Core.keeps, Core.log]
          | some addr =>
              by_cases hle : t.length ≤ bufferSize
              · simp only [hle, Call.holds, Call.gives, Pc.lost, decide_true,
                  List.count_cons, List.count_nil, Option.toList, if_true]
                omega
              · simp [Call.holds, Call.gives, Pc.lost, Core.keeps, Core.log, hle]
  | throttle a b ts =>
      simp only [stepCall, Pc.lost, Pc.takes, Pc.allocating]
      split <;> simp [Call.holds, Call.gives, Core.keeps, Core.log, List.count_cons]
      omega
  | wsaSend a b ts =>
      simp only [stepCall, Pc.lost, Pc.takes, Pc.allocating]
      split <;> simp [Call.holds, Call.gives, Core.keeps, Core.wsaSend, List.count_cons, isAt] <;>
        omega
  | countSend a ts => rfl
  | alloc a =>
      simp only [stepCall, Pc.takes, Pc.allocating]
      cases ch.addr with
      | some addr => simp [Call.holds, Call.gives, Pc.lost]
      | none =>
          cases a with
          | repost => rfl
          | initial left =>
              have hio := addrs_of_not_io job (isIo_of_isAccept hpc)
              simp [Call.holds, Call.gives, Pc.lost, afterNoBuffer, hio]
  | recv a addr =>
      simp only [stepCall, Pc.lost, Pc.takes, Pc.allocating]
      split
      · cases a with
        | repost =>
            simp [Call.holds, Call.gives, Core.keeps, Core.postRecv, afterRecv, List.count_cons,
              isAt]
            omega
        | initial left =>
            have hio := addrs_of_not_io job (isIo_of_isAccept hpc)
            simp [Call.holds, Call.gives, Core.keeps, Core.postRecv, afterRecv, List.count_cons,
              isAt, hio]
            omega
      · simp [Call.holds, Call.gives, List.count_cons]
  | add | keepAlive =>
      have hio := addrs_of_not_io job (isIo_of_isAccept hpc)
      simp only [stepCall]
      split <;> simp [Call.holds, Call.gives, Pc.lost, Pc.takes, Pc.allocating, hio]
  | ioctl =>
      cases job with
      | accept b =>
          simp only [stepCall]
          split <;> rfl
      | io b t e | app => cases hpc
  | reads left =>
      have hio := addrs_of_not_io job (isIo_of_isAccept hpc)
      cases left <;> simp [stepCall, Call.holds, Call.gives, Pc.lost, Pc.takes, Pc.allocating, hio]
  | returned => rfl

end

/-! ## What an action on a connection moves -/

/-- The buffers of the accepts that calls of this connection have in hands. -/
def Conn.accepting (x : Nat) (c : Conn) : Nat := weight (fun a => a.acceptHolds.count x) c.calls

/-- The accept buffer, if the step gives it back. -/
def Call.ends (a : Call) : List Nat :=
  match a.pc, a.job with
  | .finish, .accept b => [b.addr]
  | _, _ => []

theorem completed_addr (b : CIOCPBuffer) (data : List UInt8) :
    (completed b data).addr = b.addr := by
  unfold completed
  split <;> rfl

/-- The accept branch returns from its last step only. -/
theorem stepCall_returned (cfg : Config) (ch : Choice) (k : Core) {b : CIOCPBuffer} {pc : Pc}
    (hpc : pc.belongs (.accept b) = true) (hret : pc ≠ .returned) :
    (stepCall cfg ch k (.accept b) pc).2 = .returned ↔ pc = .finish := by
  cases pc with
  | finish => exact ⟨fun _ => rfl, fun _ => rfl⟩
  | returned => exact absurd rfl hret
  | enter | testClosing | notify | testCounters | compare | insert | headTest | call p
  | increment p | drop p => cases hpc
  | unlink k => simp [stepCall]
  | close k => cases k <;> simp [stepCall, afterClose]
  | release => simp [stepCall]
  | send k ts =>
      cases ts with
      | nil =>
          cases k with
          | established => simp [stepCall, afterSend]
          | readCompleted p | writeCompleted | app => cases hpc
      | cons t ts =>
          simp only [stepCall]
          repeat' split
          all_goals simp
  | throttle k b ts | wsaSend k b ts | add | keepAlive | ioctl =>
      simp only [stepCall]
      split <;> simp
  | countSend k ts => simp [stepCall]
  | alloc k =>
      cases k with
      | initial left =>
          simp only [stepCall]
          split <;> simp [afterNoBuffer]
      | repost => cases hpc
  | recv k addr =>
      cases k with
      | initial left =>
          simp only [stepCall]
          split <;> simp [afterRecv]
      | repost => cases hpc
  | reads left => cases left <;> simp [stepCall]

theorem stepCall_acceptHolds (x : Nat) (cfg : Config) (ch : Choice) (k : Core) {a : Call}
    (hpc : a.pc.belongs a.job = true) (hret : a.pc ≠ .returned) :
    (Call.acceptHolds ⟨a.job, (stepCall cfg ch k a.job a.pc).2⟩).count x + a.ends.count x
      = a.acceptHolds.count x := by
  obtain ⟨job, pc⟩ := a
  cases job with
  | accept b =>
      have hiff := stepCall_returned cfg ch k hpc hret
      by_cases hfin : pc = .finish
      · subst hfin
        simp [Call.acceptHolds, Call.ends, stepCall]
      · have hends : Call.ends ⟨.accept b, pc⟩ = [] := by
          unfold Call.ends
          split
          · exact absurd ‹_› hfin
          · rfl
        simp only [Call.acceptHolds, hends, if_neg hret, if_neg (hiff.not.mpr hfin), List.count_nil,
          Nat.add_zero]
  | io b t e | app =>
      have hends : ∀ job, (∀ b, job ≠ .accept b) → Call.ends ⟨job, pc⟩ = [] := by
        intro job hjob
        unfold Call.ends
        split
        · exact absurd ‹_› (hjob _)
        · rfl
      rw [hends _ (by simp)]
      rfl

section
variable (x : Nat) {cfg : Config} {c d : Conn} {i : Nat} {a : Call} {ch : Choice}

theorem Conn.owns_step (hplaced : WellPlaced c) (ha : c.calls[i]? = some a)
    (hs : c.step cfg (.step i ch) = some d) :
    d.owns x + (a.gives c.toCore).count x + (a.pc.lost cfg ch c.toCore).count x
      = c.owns x + (a.pc.takes ch).count x := by
  obtain ⟨a', ha', -, rfl⟩ := Conn.step_eq hs
  obtain rfl : a = a' := Option.some.inj (ha.symm.trans ha')
  have hbal : _ + (a.gives c.toCore).count x + _ = _ + a.holds.count x + _ :=
    stepCall_holds x cfg ch c.toCore a.job (hplaced a (List.mem_of_getElem? ha))
  obtain ⟨others, hbefore, hafter⟩ := Conn.weight_become (fun a => a.holds.count x)
    (stepCall cfg ch c.toCore a.job a.pc) ha
  simp only [Conn.owns, Conn.become_toCore, hbefore, hafter]
  omega

theorem Conn.accepting_step (hplaced : WellPlaced c) (ha : c.calls[i]? = some a)
    (hs : c.step cfg (.step i ch) = some d) :
    d.accepting x + a.ends.count x = c.accepting x := by
  obtain ⟨a', ha', hret, rfl⟩ := Conn.step_eq hs
  obtain rfl : a = a' := Option.some.inj (ha.symm.trans ha')
  have hacc := stepCall_acceptHolds x cfg ch c.toCore (hplaced a (List.mem_of_getElem? ha)) hret
  obtain ⟨others, hbefore, hafter⟩ := Conn.weight_become (fun a => a.acceptHolds.count x)
    (stepCall cfg ch c.toCore a.job a.pc) ha
  simp only [Conn.accepting, hbefore, hafter]
  omega

/-- A call that begins takes its buffer from the operations in flight. -/
theorem Conn.owns_begin {act : Action} (hact : ∀ i ch, act ≠ .step i ch)
    (hs : c.step cfg act = some d) : d.owns x = c.owns x ∧ d.accepting x = c.accepting x := by
  cases act with
  | step i ch => exact absurd rfl (hact i ch)
  | dequeue i data e =>
      obtain ⟨b, hb, -, rfl⟩ := Conn.dequeue_eq hs
      have herase := weight_eraseIdx (isAt x) hb
      have haddr := completed_addr b data
      constructor
      · simp only [Conn.owns, Core.keeps, Conn.start, weight_append, weight_cons, weight_nil,
          Call.holds, Job.addrs, count_addr, isAt, haddr] at herase ⊢
        omega
      · simp [Conn.accepting, Conn.start, Call.acceptHolds]
  | sendText t =>
      obtain ⟨-, rfl⟩ := Conn.sendText_eq hs
      simp [Conn.owns, Conn.accepting, Conn.start, Call.holds, Call.acceptHolds, Sender.holds,
        Job.addrs]
  | closeAConnection =>
      obtain ⟨-, rfl⟩ := Conn.closeAConnection_eq hs
      simp [Conn.owns, Conn.accepting, Conn.start, Call.holds, Call.acceptHolds]

/-- When every call has returned, a connection has what is in flight or parked. -/
theorem Conn.owns_of_settled (h : ∀ a ∈ c.calls, a.pc = .returned) :
    c.owns x = c.keeps x ∧ c.accepting x = 0 := by
  constructor
  · have hzero : weight (fun a => a.holds.count x) c.calls = 0 :=
      weight_eq_zero.mpr fun a ha => by simp [Call.holds, h a ha]
    rw [Conn.owns, hzero, Nat.add_zero]
  · refine weight_eq_zero.mpr fun a ha => ?_
    unfold Call.acceptHolds
    split <;> simp [h a ha]

/-- A connection that begins has the accept buffer in hands, and nothing else. -/
theorem Conn.owns_init (sock : SOCKET) (b : CIOCPBuffer) :
    (Conn.init sock b).owns x = 0 ∧ (Conn.init sock b).accepting x = isAt x b := by
  constructor
  · rfl
  · simp [Conn.accepting, Conn.init, Call.acceptHolds, count_addr]

end

end CppWorkspace.CIOCPServer
