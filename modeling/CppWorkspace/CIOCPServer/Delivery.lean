/-
# `CppWorkspace.CIOCPServer.Delivery` — in-order, exactly-once delivery

`ReadOrder` says that no read is delivered twice, early or beside another one.
This module adds that none is forgotten: the wake-up argument.

    the next read is parked  ⟹  some call is about to test the head

The two re-checks of the source carry it.  A call that parks a buffer tests the
head afterwards, and a call that advances the counter tests it again.  Since
`pOutOfOrderReads` is sorted and holds undelivered reads only, a parked next
read IS the head, so whoever tests first takes it.

What does not hold is that the workers of the completions `0..k-1` deliver the
reads `0..k-1` among themselves: a worker that has parked a LATER read may
take the next one at its head test and stand before `OnReadCompleted` when all
the earlier workers have returned (`handed_over`).  The read is not lost, it
has passed to that worker (`in_order_exactly_once`).

Here sequence numbers must not wrap: the sorted insertion compares them as
they are.  Hence the bound `reads < 2^32`.
-/
import CppWorkspace.CIOCPServer.ReadOrder

namespace CppWorkspace.CIOCPServer

open Runs Weights

/-- The positions of `HandleIO` between the entry into `GetNextReadBuffer` and
the last head test. -/
def Pc.inReadLoop (pc : Pc) : Bool :=
  match pc with
  | .compare | .insert | .headTest | .drop _ => true
  | pc => pc.held.isSome

def Call.wakes (a : Call) : Nat := a.pc.wakes

def Call.jobNo (n : Nat) (a : Call) : Nat := a.job.isNo n

/-- No parked read is forgotten. -/
structure Awake (c : Conn) : Prop where
  sorted : SortedReads c.ctx.pOutOfOrderReads
  wake : weight (isNo c.delivered) c.ctx.pOutOfOrderReads ≤ weight Call.wakes c.calls
  /-- a posted read is in flight or was completed once -/
  jobs : ∀ n, weight (isNo n) c.inFlight + weight (Call.jobNo n) c.calls
    = if n < c.reads then 1 else 0
  /-- the read loop is entered by reads that completed with data -/
  loop : ∀ a ∈ c.calls, a.pc.inReadLoop = true →
    ∃ b t e, a.job = .io b t e ∧ b.nOperation = .opRead ∧ t ≠ 0 ∧ e = noError

section
variable {B : Nat → Prop} {c : Conn} {i : Nat} {a : Call} (cfg : Config) (ch : Choice)

theorem Awake.jobs_step (h : Awake c) (ha : c.calls[i]? = some a) (n : Nat) :
    let d := c.become i a (stepCall cfg ch c.toCore a.job a.pc)
    weight (isNo n) d.inFlight + weight (Call.jobNo n) d.calls = if n < d.reads then 1 else 0 := by
  intro d
  obtain ⟨o, h₁, h₂⟩ :=
    Conn.weight_become (Call.jobNo n) (stepCall cfg ch c.toCore a.job a.pc) ha
  have hj := h.jobs n
  rw [h₁] at hj
  simp only [d]
  rw [h₂]
  rcases stepCall_posted cfg ch c.toCore a.job a.pc with
    ⟨hf, hr⟩ | ⟨-, addr, -, hk⟩ | ⟨-, b, -, -, hk⟩
  · rw [Conn.become_toCore, hf, hr]
    exact hj
  · rw [Conn.become_toCore, hk]
    have hnew : weight (isNo n) (c.toCore.postRecv addr).inFlight
        = weight (isNo n) c.inFlight + if c.reads = n then 1 else 0 := by
      simp [Core.postRecv, isNo]
    rw [hnew]
    show _ = if n < c.reads + 1 then 1 else 0
    simp only [Call.jobNo] at hj ⊢
    split at hj <;> split <;> split <;> omega
  · rw [Conn.become_toCore, hk]
    have hsame : weight (isNo n) (c.toCore.wsaSend b).inFlight = weight (isNo n) c.inFlight := by
      simp [Core.wsaSend, isNo]
    rw [hsame]
    exact hj

theorem stepCall_inReadLoop (k : Core) {job : Job} {pc : Pc}
    (h : (stepCall cfg ch k job pc).2.inReadLoop = true) :
    pc.inReadLoop = true ∨
      ∃ b t e, job = .io b t e ∧ b.nOperation = .opRead ∧ t ≠ 0 ∧ e = noError := by
  cases pc with
  | testClosing =>
      cases job with
      | io b t e =>
          simp only [stepCall, dispatch] at h
          cases hop : b.nOperation with
          | opRead =>
              by_cases he : e ≠ noError
              · simp only [if_pos he] at h
                split at h <;> cases h
              · by_cases ht : t = 0
                · simp only [if_neg he, if_pos ht] at h
                  split at h <;> cases h
                · exact .inr ⟨b, t, e, rfl, hop, ht, not_not.mp he⟩
          | opWrite | opAccept =>
              simp only [hop] at h
              repeat' split at h
              all_goals cases h
      | accept b | app =>
          simp only [stepCall, dispatch] at h
          split at h <;> cases h
  | compare | insert | headTest | drop p | call p | increment p => exact .inl rfl
  | send k ts =>
      cases ts with
      | nil => cases k <;> first | exact .inl rfl | cases h
      | cons t ts =>
          simp only [stepCall] at h
          cases k
          · exact .inl rfl
          all_goals repeat' split at h
          all_goals cases h
  | throttle k b ts | wsaSend k b ts =>
      simp only [stepCall] at h
      cases k
      · exact .inl rfl
      all_goals split at h <;> cases h
  | countSend k ts => cases k <;> first | exact .inl rfl | cases h
  | close k =>
      cases k <;> cases job <;> cases h
  | alloc k =>
      simp only [stepCall] at h
      cases k <;> split at h <;> cases h
  | recv k addr =>
      simp only [stepCall] at h
      cases k <;> split at h <;> cases h
  | testCounters | add | keepAlive =>
      simp only [stepCall] at h
      split at h <;> cases h
  | ioctl =>
      simp only [stepCall] at h
      repeat' split at h
      all_goals cases h
  | reads left => cases left <;> cases h
  | enter | notify | unlink k | release | finish | returned => cases h

theorem stepCall_wakes (k : Core) (job : Job) {pc : Pc} (h : pc ≠ .headTest) :
    pc.wakes ≤ (stepCall cfg ch k job pc).2.wakes := by
  cases pc <;> first | exact Nat.zero_le _ | exact absurd rfl h | exact Nat.le_refl _

/-- In a sorted list the next read can only be the head. -/
theorem InOrder.not_parked (h : InOrder B c) (hr : c.reads < 2 ^ 32)
    (hs : SortedReads c.ctx.pOutOfOrderReads)
    (hhead : ∀ p rest, c.ctx.pOutOfOrderReads = p :: rest →
      p.nSequenceNumber ≠ c.ctx.nCurrentReadSequence) :
    weight (isNo c.delivered) c.ctx.pOutOfOrderReads = 0 := by
  refine weight_eq_zero.mpr fun q hq => ?_
  by_contra hne
  have hqd : q.no = c.delivered := by
    by_contra hno
    exact hne (by simp [isNo, hno])
  obtain ⟨hqop, hqst, -⟩ := h.parked q hq
  have hqn : q.nSequenceNumber = UInt32.ofNat c.delivered := by rw [hqst hqop, hqd]
  cases hl : c.ctx.pOutOfOrderReads with
  | nil => rw [hl] at hq; cases hq
  | cons p rest =>
      have hp : p ∈ c.ctx.pOutOfOrderReads := by rw [hl]; exact List.mem_cons_self
      obtain ⟨hpop, hpst, -⟩ := h.parked p hp
      have hpr := h.inList hp
      -- the head is not larger than `q`, and no parked read is smaller
      have hle : p.nSequenceNumber ≤ q.nSequenceNumber := by
        rw [hl] at hq hs
        rcases List.mem_cons.mp hq with rfl | hq
        · exact UInt32.le_refl _
        · exact (List.pairwise_cons.mp hs).1 q hq
      have hpn : p.nSequenceNumber = UInt32.ofNat p.no := hpst hpop
      rw [hpn, hqn, UInt32.le_iff_toNat_le] at hle
      simp only [UInt32.toNat_ofNat'] at hle
      have hpd : p.no = c.delivered := by omega
      exact hhead p rest hl (by rw [hpn, hpd, h.current])

theorem Awake.sorted_step (hA : Awake c) (h : InOrder B c) (ha : c.calls[i]? = some a) :
    SortedReads (stepCall cfg ch c.toCore a.job a.pc).1.ctx.pOutOfOrderReads := by
  by_cases hi : a.pc = .insert
  · obtain ⟨b, t, e, hjob, -, -⟩ := (CallOk.of_mem h ha).path (.inr hi)
    simp only [hi, stepCall, hjob]
    exact sortedReads_insertRead hA.sorted
  by_cases ht : a.pc = .headTest
  · rw [ht]
    have hs := hA.sorted
    simp only [stepCall, takeHead]
    cases hl : c.ctx.pOutOfOrderReads with
    | nil => simp [SortedReads, hl]
    | cons p rest =>
        rw [hl] at hs
        by_cases hseq : p.nSequenceNumber = c.ctx.nCurrentReadSequence
        · simp only [if_pos hseq]
          exact (List.pairwise_cons.mp hs).2
        · simp only [if_neg hseq, hl]
          exact hs
  · rw [stepCall_parked cfg ch c.toCore a.job hi ht (CallOk.of_mem h ha).late.2]
    exact hA.sorted

/-- A head test that leaves without a buffer leaves no next read behind; one
that takes a buffer takes the only one of that number. -/
theorem Awake.wake_headTest (hA : Awake c) (h : InOrder B c) (hr : c.reads < 2 ^ 32) (job : Job) :
    weight (isNo (stepCall cfg ch c.toCore job .headTest).1.delivered)
      (stepCall cfg ch c.toCore job .headTest).1.ctx.pOutOfOrderReads = 0 := by
  simp only [stepCall, takeHead]
  cases hl : c.ctx.pOutOfOrderReads with
  | nil => simp [hl]
  | cons p rest =>
      by_cases hseq : p.nSequenceNumber = c.ctx.nCurrentReadSequence
      · simp only [if_pos hseq]
        have hp : p ∈ c.ctx.pOutOfOrderReads := by rw [hl]; exact List.mem_cons_self
        obtain ⟨hop, hst, hB⟩ := h.parked p hp
        have hno := h.no_eq (by omega) hop hst (h.inList hp) hseq
        have ht := h.tally_le_one (hno ▸ hB)
        have h1 : isNo c.delivered p = 1 := hno ▸ isNo_self hop
        simp only [tally, hl, weight_cons, h1] at ht
        omega
      · simp only [if_neg hseq]
        exact h.not_parked hr hA.sorted fun q rest' hq => by
          rw [hl] at hq
          exact (List.cons.inj hq).1 ▸ hseq

theorem InOrder.parked_le_one (h : InOrder B c) (n : Nat) :
    weight (isNo n) c.ctx.pOutOfOrderReads ≤ 1 := by
  by_contra hgt
  obtain ⟨q, hq, hpos⟩ :=
    exists_of_weight_pos (f := isNo n) (l := c.ctx.pOutOfOrderReads) (by omega)
  have hqn : q.no = n := by
    by_contra hne
    simp [isNo, hne] at hpos
  have hle := h.tally_le_one (hqn ▸ (h.parked q hq).2.2)
  simp only [tally] at hle
  omega

theorem Awake.stepped (hA : Awake c) (h : InOrder B c) (hr : c.reads < 2 ^ 32)
    (ha : c.calls[i]? = some a) :
    Awake (c.become i a (stepCall cfg ch c.toCore a.job a.pc)) := by
  refine ⟨hA.sorted_step cfg ch h ha, ?_, hA.jobs_step cfg ch ha, fun x hx hl => ?_⟩
  · obtain ⟨o, h₁, h₂⟩ := Conn.weight_become Call.wakes (stepCall cfg ch c.toCore a.job a.pc) ha
    have hw := hA.wake
    rw [h₁] at hw
    rw [h₂, Conn.become_toCore]
    by_cases ht : a.pc = .headTest
    · rw [ht, hA.wake_headTest cfg ch h hr]
      exact Nat.zero_le _
    have hmono := stepCall_wakes cfg ch c.toCore a.job ht
    by_cases hi : a.pc = .insert
    · -- the call that parks a buffer will test the head
      obtain ⟨b, t, e, hjob, -, -⟩ := (CallOk.of_mem h ha).path (.inr hi)
      have h0 : Call.wakes a = 0 := by rw [Call.wakes, hi]; rfl
      have hb : isNo c.delivered b ≤ 1 := by unfold isNo; split <;> omega
      rw [h0] at hw
      simp only [hi, stepCall, hjob, CIOCPContext.park, weight_insertRead, Call.wakes, Pc.wakes]
      omega
    rw [stepCall_parked cfg ch c.toCore a.job hi ht (CallOk.of_mem h ha).late.2]
    by_cases hinc : ∃ p, a.pc = .increment p
    · -- and so will the call that advances the counter
      obtain ⟨p, hp⟩ := hinc
      have h1 : Call.wakes { a with pc := (stepCall cfg ch c.toCore a.job a.pc).2 } = 1 := by
        rw [hp]; rfl
      have hle := h.parked_le_one (stepCall cfg ch c.toCore a.job a.pc).1.delivered
      omega
    · rw [stepCall_delivered cfg ch c.toCore a.job (fun p hp => hinc ⟨p, hp⟩)]
      simp only [Call.wakes] at hw ⊢
      omega
  · rcases Conn.mem_become hx with hx | rfl
    · exact hA.loop x hx hl
    · rcases stepCall_inReadLoop cfg ch c.toCore hl with hl | hj
      · exact hA.loop a (mem_of_get ha) hl
      · exact hj

theorem Awake.start (hA : Awake c) {job : Job} {pc : Pc} (hjob : ∀ n, job.isNo n = 0)
    (hloop : pc.inReadLoop = false) (hw : pc.wakes = 0) : Awake (c.start job pc) where
  sorted := hA.sorted
  wake := by
    have := hA.wake
    simp only [Conn.start, weight_append, weight_cons, weight_nil, Call.wakes, hw]
    simpa [Call.wakes] using this
  jobs := fun n => by
    have hj := hA.jobs n
    simp only [Conn.start, weight_append, weight_cons, weight_nil, Call.jobNo, hjob] at hj ⊢
    exact hj
  loop := fun x hx hl => by
    rcases List.mem_append.mp hx with hx | hx
    · exact hA.loop x hx hl
    · obtain rfl := List.mem_singleton.mp hx
      rw [hloop] at hl
      cases hl

theorem isNo_completed (n : Nat) (b : CIOCPBuffer) (data : List UInt8) :
    isNo n (completed b data) = isNo n b := by
  unfold completed isNo
  split <;> simp_all

theorem Awake.step (hA : Awake c) (h : InOrder B c) (hr : c.reads < 2 ^ 32) {act : Action}
    {d : Conn} (hs : c.step cfg act = some d) : Awake d := by
  cases act with
  | dequeue i data e =>
      obtain ⟨b, hb, -, rfl⟩ := Conn.dequeue_eq hs
      refine ⟨hA.sorted, ?_, fun n => ?_, fun x hx hl => ?_⟩
      · have := hA.wake
        simpa [Conn.start, Call.wakes, Pc.wakes] using this
      · have he := weight_eraseIdx (isNo n) hb
        have hj := hA.jobs n
        simp only [Conn.start, weight_append, weight_cons, weight_nil, Call.jobNo, Job.isNo,
          isNo_completed] at hj ⊢
        show _ = if n < c.reads then 1 else 0
        omega
      · rcases List.mem_append.mp hx with hx | hx
        · exact hA.loop x hx hl
        · obtain rfl := List.mem_singleton.mp hx
          cases hl
  | step i ch =>
      obtain ⟨a, ha, -, rfl⟩ := Conn.step_eq hs
      exact hA.stepped cfg ch h hr ha
  | sendText t =>
      obtain ⟨-, rfl⟩ := Conn.sendText_eq hs
      exact hA.start (fun _ => rfl) rfl rfl
  | closeAConnection =>
      obtain ⟨-, rfl⟩ := Conn.closeAConnection_eq hs
      exact hA.start (fun _ => rfl) rfl rfl

/-! ## Runs on which the connection stays open -/

/-- Every read completes with data, and nobody executes `CloseAConnection`. -/
def Undisturbed (c : Conn) : Action → Prop
  | .dequeue i d e => ∀ b ∈ c.inFlight[i]?, b.nOperation = .opRead → d.length ≠ 0 ∧ e = noError
  | .step i _ => ∀ a ∈ c.calls[i]?, a.pc.closes = false
  | _ => True

instance (c : Conn) : (act : Action) → Decidable (Undisturbed c act)
  | .dequeue i d e => inferInstanceAs
      (Decidable (∀ b ∈ c.inFlight[i]?, b.nOperation = .opRead → d.length ≠ 0 ∧ e = noError))
  | .step i _ => inferInstanceAs (Decidable (∀ a ∈ c.calls[i]?, a.pc.closes = false))
  | .sendText _ | .closeAConnection => inferInstanceAs (Decidable True)

theorem Undisturbed.openStep {act : Action} (h : Undisturbed c act)
    (hw : c.reads ≤ c.delivered + 2 ^ 32) : OpenStep (fun _ => True) c act where
  data := fun i d e b hact hb hop => by
    subst hact
    simpa using h b hb hop
  open_ := fun i ch a hact ha k hk => by
    subst hact
    have := h a ha
    rw [hk] at this
    cases this
  window := hw

theorem reads_mono {d : Conn} {act : Action} (hs : c.step cfg act = some d) :
    c.reads ≤ d.reads := by
  cases act with
  | dequeue i data e =>
      obtain ⟨b, -, -, rfl⟩ := Conn.dequeue_eq hs
      exact Nat.le_refl _
  | step i ch =>
      obtain ⟨a, -, -, rfl⟩ := Conn.step_eq hs
      rw [Conn.become_toCore]
      rcases stepCall_posted cfg ch c.toCore a.job a.pc with
        ⟨-, hr⟩ | ⟨-, addr, -, hk⟩ | ⟨-, b, -, -, hk⟩
      · exact Nat.le_of_eq hr.symm
      · rw [hk]; exact Nat.le_succ _
      · rw [hk]; exact Nat.le_refl _
  | sendText t =>
      obtain ⟨-, rfl⟩ := Conn.sendText_eq hs
      exact Nat.le_refl _
  | closeAConnection =>
      obtain ⟨-, rfl⟩ := Conn.closeAConnection_eq hs
      exact Nat.le_refl _

theorem Awake.init (sock : SOCKET) (b : CIOCPBuffer) : Awake (Conn.init sock b) where
  sorted := by simp [SortedReads, Conn.init, CIOCPContext.allocated]
  wake := Nat.zero_le _
  jobs := fun n => by simp [Conn.init, Call.jobNo, Job.isNo]
  loop := fun x hx hl => by
    obtain rfl := List.mem_singleton.mp hx
    cases hl

/-- As long as the numbers have not wrapped, both invariants hold on such runs. -/
theorem undisturbed_invariants {sock : SOCKET} {b : CIOCPBuffer}
    (h : Via (Conn.step cfg) Undisturbed (Conn.init sock b) c) :
    c.reads < 2 ^ 32 → InOrder (fun _ => True) c ∧ Awake c := by
  refine h.invariant (P := fun c => c.reads < 2 ^ 32 → InOrder (fun _ => True) c ∧ Awake c)
    (fun _ => ⟨.init sock b, .init sock b⟩) fun t act u ih hok hs hr => ?_
  have hle := reads_mono cfg hs
  obtain ⟨hI, hA⟩ := ih (by omega)
  exact ⟨hI.step (hok.openStep (by omega)) hs, hA.step cfg hI (by omega) hs⟩

/-! ## The delivery theorem -/

/-- The sequence number of a buffer. -/
def CIOCPBuffer.seq (b : CIOCPBuffer) : Nat := b.nSequenceNumber.toNat

/-- The sequence number of the read whose completion is handled. -/
def Job.readSeq : Job → Option Nat
  | .io b _ _ => if b.nOperation = .opRead then some b.seq else none
  | _ => none

/-- The worker that took the completion of the read with sequence number `n`
has returned from `HandleIO`. -/
def Handled (c : Conn) (n : Nat) : Prop :=
  ∃ a ∈ c.calls, a.job.readSeq = some n ∧ a.pc = .returned

instance (c : Conn) (n : Nat) : Decidable (Handled c n) :=
  inferInstanceAs (Decidable (∃ a ∈ c.calls, a.job.readSeq = some n ∧ a.pc = .returned))

/-- Call `a` handles a read that is none of the first `k`, has not returned, and
has the next read in its hands or is about to find it at the head. -/
def TakesOver (c : Conn) (k : Nat) (a : Call) : Prop :=
  (∃ n, a.job.readSeq = some n ∧ k ≤ n) ∧ a.pc ≠ .returned ∧
    ((∃ p, a.pc.held = some p ∧ p.seq = c.delivered) ∨
      (0 < a.pc.wakes ∧ ∃ p ∈ c.ctx.pOutOfOrderReads, p.seq = c.delivered))

theorem readSeq_eq {job : Job} {n : Nat} (h : job.readSeq = some n) :
    ∃ b t e, job = .io b t e ∧ b.nOperation = .opRead ∧ b.seq = n := by
  cases job with
  | io b t e =>
      simp only [Job.readSeq] at h
      split at h
      · rename_i hop
        exact ⟨b, t, e, rfl, hop, Option.some.inj h⟩
      · cases h
  | accept b | app => cases h

theorem seq_eq {p : CIOCPBuffer} (hop : p.nOperation = .opRead) (hst : Stamped p)
    (hno : p.no < 2 ^ 32) : p.seq = p.no := by
  rw [CIOCPBuffer.seq, hst hop, UInt32.toNat_ofNat']
  exact Nat.mod_eq_of_lt hno

theorem InOrder.seqs_eq (h : InOrder B c) (hr : c.reads < 2 ^ 32) :
    (readLog c.trace).map CIOCPBuffer.seq = List.range (c.delivered + startedCalls c) := by
  rw [← h.log]
  refine List.map_congr_left fun p hp => ?_
  have hmem : p.no ∈ List.range (c.delivered + startedCalls c) := by
    rw [← h.log]
    exact List.mem_map_of_mem hp
  exact seq_eq (h.logged p hp).1 (h.logged p hp).2
    (by have := List.mem_range.mp hmem; have := h.logged_lt; omega)

theorem Awake.job_lt (hA : Awake c) (ha : a ∈ c.calls) {b : CIOCPBuffer} {t e : Nat}
    (hj : a.job = .io b t e) (hop : b.nOperation = .opRead) : b.no < c.reads := by
  have h1 := weight_pos (f := Call.jobNo b.no) ha
  have h2 := hA.jobs b.no
  have h3 : Call.jobNo b.no a = 1 := by simp [Call.jobNo, hj, Job.isNo, isNo_self hop]
  by_contra hn
  rw [if_neg hn] at h2
  omega

/-- A read was completed to one worker only. -/
theorem Awake.job_unique (hA : Awake c) {j : Nat} {x : Call} (ha : c.calls[i]? = some a)
    (hx : c.calls[j]? = some x) {n : Nat} (h₁ : 0 < a.jobNo n) (h₂ : 0 < x.jobNo n) : i = j := by
  by_contra hij
  have h := weight_two (f := Call.jobNo n) hij ha hx
  have := hA.jobs n
  split at this <;> omega

/-- The next read, once its worker has returned, is parked or in the hands of
another worker. -/
theorem next_read_place (h : InOrder (fun _ => True) c) (hA : Awake c) (hr : c.reads < 2 ^ 32)
    (hd : Handled c c.delivered) :
    (∃ x ∈ c.calls, ∃ p, x.pc.held = some p ∧ p.no = c.delivered) ∨
      0 < weight (isNo c.delivered) c.ctx.pOutOfOrderReads := by
  obtain ⟨a, ha, hread, hret⟩ := hd
  obtain ⟨b, t, e, hj, hop, hseq⟩ := readSeq_eq hread
  have hlt := hA.job_lt ha hj hop
  have hbno : b.no = c.delivered :=
    (seq_eq hop ((h.calls a ha).job b t e hj hop).1 (by omega)).symm.trans hseq
  have hja : Call.jobNo c.delivered a = 1 := by
    simp [Call.jobNo, hj, Job.isNo, ← hbno, isNo_self hop]
  have ho := h.once c.delivered trivial
  have hjobs := hA.jobs c.delivered
  rw [if_pos ⟨Nat.le_refl _, by omega⟩] at ho
  rw [if_pos (by omega)] at hjobs
  have hge := weight_pos (f := Call.jobNo c.delivered) ha
  simp only [tally] at ho
  by_cases hp : 0 < weight (isNo c.delivered) c.ctx.pOutOfOrderReads
  · exact .inr hp
  · obtain ⟨x, hx, hcx⟩ := exists_of_weight_pos (f := Call.carries c.delivered) (l := c.calls)
      (by omega)
    refine .inl ⟨x, hx, ?_⟩
    -- the completion itself is in nobody's hands any more: its worker returned
    have hearly : (if x.pc.early then x.job.isNo c.delivered else 0) = 0 := by
      by_contra hne
      have hxe : x.pc.early = true := by
        by_contra hn
        simp [hn] at hne
      rw [if_pos hxe] at hne
      obtain ⟨i, hi⟩ := List.mem_iff_getElem?.mp ha
      obtain ⟨j, hj'⟩ := List.mem_iff_getElem?.mp hx
      obtain rfl := hA.job_unique hi hj' (n := c.delivered) (by omega)
        (Nat.pos_of_ne_zero hne)
      obtain rfl := Option.some.inj (hi.symm.trans hj')
      rw [hret] at hxe
      cases hxe
    simp only [Call.carries, hearly] at hcx
    cases hq : x.pc.held with
    | none => simp [hq, heldNo] at hcx
    | some p => exact ⟨p, rfl, ((h.calls x hx).held p hq).2.2.2⟩

/-- **In-order, exactly-once delivery.**  On every run on which all reads
complete with data, the connection is not closed and fewer than `2^32` reads
are posted: `OnReadCompleted` is called in the order `0, 1, 2, …` of the
sequence numbers, at most once for each; never for two buffers at a time; and
when the workers of the completions `0..k-1` have all returned, these reads are
delivered and none of them is parked, unless the next of them has passed to a
worker that handles a later completion and has not returned. -/
theorem in_order_exactly_once {sock : SOCKET} {b : CIOCPBuffer}
    (hrun : Via (Conn.step cfg) Undisturbed (Conn.init sock b) c) (hn : c.reads < 2 ^ 32) :
    (∃ m ≤ c.reads, (readLog c.trace).map CIOCPBuffer.seq = List.range m) ∧
    (∀ (i j : Nat) (x y : Call), c.calls[i]? = some x → c.calls[j]? = some y →
      0 < x.pc.started → 0 < y.pc.started → i = j) ∧
    (∀ k, (∀ n < k, Handled c n) →
      ((∀ n < k, n ∈ (readLog c.trace).map CIOCPBuffer.seq) ∧
        ∀ p ∈ c.ctx.pOutOfOrderReads, k ≤ p.seq) ∨
      (c.delivered < k ∧ ∃ a ∈ c.calls, TakesOver c k a)) := by
  obtain ⟨h, hA⟩ := undisturbed_invariants cfg hrun hn
  have hlog := h.seqs_eq hn
  refine ⟨⟨_, h.logged_lt, hlog⟩, fun i j x y hx hy h₁ h₂ => ?_, fun k hk => ?_⟩
  · by_contra hij
    obtain ⟨p, hp⟩ := held_of_started h₁
    obtain ⟨q, hq⟩ := held_of_started h₂
    rw [h.alone hx hp hij hy] at hq
    cases hq
  · by_cases hd : k ≤ c.delivered
    · refine .inl ⟨fun n hnk => ?_, fun p hp => ?_⟩
      · rw [hlog, List.mem_range]
        omega
      · obtain ⟨hop, hst, -⟩ := h.parked p hp
        have hin := h.inList hp
        rw [seq_eq hop hst (by omega)]
        omega
    · refine .inr ⟨by omega, ?_⟩
      -- a call that has not returned does not belong to the first `k` completions
      have hlater : ∀ x ∈ c.calls, x.pc ≠ .returned → x.pc.inReadLoop = true →
          ∃ n, x.job.readSeq = some n ∧ k ≤ n := by
        intro x hx hret hloop
        obtain ⟨b, t, e, hj, hop, -⟩ := hA.loop x hx hloop
        refine ⟨b.seq, by simp [Job.readSeq, hj, hop], ?_⟩
        by_contra hlt
        obtain ⟨y, hy, hread', hret'⟩ := hk b.seq (by omega)
        obtain ⟨b', t', e', hj', hop', hseq'⟩ := readSeq_eq hread'
        have hb := seq_eq hop ((h.calls x hx).job b t e hj hop).1
          (by have := hA.job_lt hx hj hop; omega)
        have hb' := seq_eq hop' ((h.calls y hy).job b' t' e' hj' hop').1
          (by have := hA.job_lt hy hj' hop'; omega)
        have hno : b'.no = b.no := by rw [← hb', ← hb]; exact hseq'
        obtain ⟨i, hi⟩ := List.mem_iff_getElem?.mp hx
        obtain ⟨j, hj₂⟩ := List.mem_iff_getElem?.mp hy
        obtain rfl := hA.job_unique hi hj₂ (n := b.no)
          (by simp [Call.jobNo, hj, Job.isNo, isNo_self hop])
          (by simp [Call.jobNo, hj', Job.isNo, ← hno, isNo_self hop'])
        obtain rfl := Option.some.inj (hi.symm.trans hj₂)
        exact hret hret'
      rcases next_read_place h hA hn (hk c.delivered (by omega)) with ⟨x, hx, p, hp, hpd⟩ | hpos
      · have hret : x.pc ≠ .returned := by
          intro hr
          rw [hr] at hp
          cases hp
        obtain ⟨hop, hst, -, -⟩ := (h.calls x hx).held p hp
        have hloop : x.pc.inReadLoop = true := by
          unfold Pc.inReadLoop
          split <;> simp_all
        exact ⟨x, hx, hlater x hx hret hloop, hret,
          .inl ⟨p, hp, by rw [seq_eq hop hst (by have := h.bound; omega)]; exact hpd⟩⟩
      · obtain ⟨x, hx, hw⟩ := exists_of_weight_pos (Nat.lt_of_lt_of_le hpos hA.wake)
        obtain ⟨p, hp, hpp⟩ := exists_of_weight_pos hpos
        have hpd : p.no = c.delivered := by
          by_contra hne
          simp [isNo, hne] at hpp
        obtain ⟨hop, hst, -⟩ := h.parked p hp
        have hret : x.pc ≠ .returned := by
          intro hr
          rw [Call.wakes, hr] at hw
          exact absurd hw (Nat.lt_irrefl 0)
        have hloop : x.pc.inReadLoop = true := by
          cases hpc : x.pc <;> rw [Call.wakes, hpc] at hw <;>
            first | rfl | exact absurd hw (Nat.lt_irrefl 0)
        exact ⟨x, hx, hlater x hx hret hloop, hret,
          .inr ⟨hw, p, hp, by rw [seq_eq hop hst (by have := h.bound; omega)]; exact hpd⟩⟩

end

/-! ## The hand-over -/

/-- Reads `0..3` are posted, and `2` (call 1), `1` (call 2) and `0` (call 3)
complete.  Call 1 parks `2` and call 2 parks `1`; call 3 delivers `0` and
advances the counter, call 1 takes `1` from the head, call 3 finds nothing. -/
def handOver : List Action :=
  smooth 0 22 100 ++
  [.dequeue 3 [50] noError, .dequeue 2 [49] noError, .dequeue 1 [48] noError] ++
  smooth 1 4 200 ++ smooth 2 7 300 ++ smooth 3 10 400 ++ smooth 1 1 500 ++ smooth 3 4 600

/-- Both early workers have returned, and read `1` is not delivered. -/
theorem handed_over :
    ∃ c, Via (Conn.step cMyServer) Undisturbed (Conn.init 7 firstData) c ∧
      c.reads < 2 ^ 32 ∧ (∀ n < 2, Handled c n) ∧
      1 ∉ (readLog c.trace).map CIOCPBuffer.seq :=
  exists_via_of_execIf handOver (by decide +kernel)

/-- In that run it is call 1 that has taken over. -/
theorem in_order_exactly_once_handOver :
    ∃ c, Via (Conn.step cMyServer) Undisturbed (Conn.init 7 firstData) c ∧
      c.delivered < 2 ∧ ∃ a ∈ c.calls, TakesOver c 2 a := by
  have h : ∃ c, Via (Conn.step cMyServer) Undisturbed (Conn.init 7 firstData) c ∧
      c.reads < 2 ^ 32 ∧ (∀ n < 2, Handled c n) ∧ 1 ∉ (readLog c.trace).map CIOCPBuffer.seq :=
    exists_via_of_execIf handOver (by decide +kernel)
  obtain ⟨c, hrun, hn, hk, hlog⟩ := h
  rcases (in_order_exactly_once cMyServer hrun hn).2.2 2 hk with ⟨hall, -⟩ | htake
  · exact absurd (hall 1 (by omega)) hlog
  · exact ⟨c, hrun, htake⟩

end CppWorkspace.CIOCPServer
