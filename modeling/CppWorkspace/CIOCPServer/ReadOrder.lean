/-
# `CppWorkspace.CIOCPServer.ReadOrder` — where the reads of an open connection are

The delivery counter `nCurrentReadSequence` is advanced outside any lock, so
the order of `OnReadCompleted` rests on one bookkeeping fact: every read that
was posted and not yet delivered is in exactly ONE of these places

    in flight                 posted, its completion not taken
    carried, before parking   a `HandleIO` of its completion, up to the insertion
    parked                    in `pOutOfOrderReads`
    carried, for delivery     a call that took it and has not advanced the counter

(`tally`), and a buffer carried for delivery has the number of the counter.
Since a number is in one place only, at most one call delivers at a time, and
nobody but that call advances the counter.

`InOrder B` is the invariant, for a connection that has not been closed.  `B`
says which reads complete with data: the others never reach
`GetNextReadBuffer`.  Sequence numbers are 32 bits wide; the invariant is kept
as long as at most `2^32` reads are undelivered at a time, so that equal
sequence numbers mean equal reads.
-/
import CppWorkspace.CIOCPServer.Connection

namespace CppWorkspace.CIOCPServer

open Runs Weights

/-! ## The places of a read -/

/-- `1` if `b` is the read posted as number `n`. -/
def isNo (n : Nat) (b : CIOCPBuffer) : Nat := if b.nOperation = .opRead ∧ b.no = n then 1 else 0

/-- `1` if the call was started for the completion of read `n`. -/
def Job.isNo (n : Nat) : Job → Nat
  | .io b _ _ => CIOCPServer.isNo n b
  | _ => 0

/-- The call still carries the completion it was started for. -/
def Pc.early : Pc → Bool
  | .enter | .testClosing | .compare | .insert => true
  | _ => false

/-- The buffer a call is delivering. -/
def Pc.held : Pc → Option CIOCPBuffer
  | .call p => some p
  | .send (.readCompleted p) _ => some p
  | .throttle (.readCompleted p) _ _ => some p
  | .wsaSend (.readCompleted p) _ _ => some p
  | .countSend (.readCompleted p) _ => some p
  | .increment p => some p
  | _ => none

/-- The call is inside `OnReadCompleted`, or about to advance the counter. -/
def Pc.started : Pc → Nat
  | .call _ => 0
  | pc => if pc.held.isSome then 1 else 0

/-- The call will test the head of `pOutOfOrderReads` before anything else. -/
def Pc.wakes : Pc → Nat
  | .headTest => 1
  | .drop _ => 1
  | _ => 0

def heldNo (n : Nat) : Option CIOCPBuffer → Nat
  | some p => isNo n p
  | none => 0

/-- The call has read `n` in its hands. -/
def Call.carries (n : Nat) (a : Call) : Nat :=
  (if a.pc.early then a.job.isNo n else 0) + heldNo n a.pc.held

/-- How often read `n` occurs among the four places. -/
def tally (n : Nat) (c : Conn) : Nat :=
  weight (isNo n) c.inFlight + weight (Call.carries n) c.calls +
    weight (isNo n) c.ctx.pOutOfOrderReads

/-- How many calls are inside `OnReadCompleted`. -/
def startedCalls (c : Conn) : Nat := weight (fun a => a.pc.started) c.calls

/-- The delivered buffers, in the order of the calls of `OnReadCompleted`. -/
def readLog : List Event → List CIOCPBuffer
  | [] => []
  | .readCompleted p :: es => p :: readLog es
  | _ :: es => readLog es

@[simp] theorem readLog_append (l m : List Event) : readLog (l ++ m) = readLog l ++ readLog m := by
  induction l with
  | nil => rfl
  | cons e l ih => cases e <;> simp [readLog, ih]

/-! ## The invariant -/

/-- The stamp of a read is its number modulo `2^32`. -/
def Stamped (b : CIOCPBuffer) : Prop :=
  b.nOperation = .opRead → b.nSequenceNumber = UInt32.ofNat b.no

/-- What is known of one call, `d` reads having been delivered. -/
structure CallOk (B : Nat → Prop) (d : Nat) (a : Call) : Prop where
  /-- the completion it was started for -/
  job : ∀ b t e, a.job = .io b t e → b.nOperation = .opRead →
    Stamped b ∧ (B b.no ↔ t ≠ 0 ∧ e = noError)
  /-- in `GetNextReadBuffer` the call has a data read -/
  path : a.pc = .compare ∨ a.pc = .insert →
    ∃ b t e, a.job = .io b t e ∧ b.nOperation = .opRead ∧ B b.no
  /-- a buffer carried for delivery is the next one -/
  held : ∀ p, a.pc.held = some p → p.nOperation = .opRead ∧ Stamped p ∧ B p.no ∧ p.no = d
  /-- nobody releases the context -/
  late : a.pc ≠ .testCounters ∧ a.pc ≠ .release

/-- The state of an open connection. -/
structure InOrder (B : Nat → Prop) (c : Conn) : Prop where
  closing : c.ctx.bClosing = false
  current : c.ctx.nCurrentReadSequence = UInt32.ofNat c.delivered
  next : c.ctx.nReadSequence = UInt32.ofNat c.reads
  bound : c.delivered ≤ c.reads
  posted : ∀ b ∈ c.inFlight, Stamped b
  calls : ∀ a ∈ c.calls, CallOk B c.delivered a
  parked : ∀ p ∈ c.ctx.pOutOfOrderReads, p.nOperation = .opRead ∧ Stamped p ∧ B p.no
  once : ∀ n, B n → tally n c = if c.delivered ≤ n ∧ n < c.reads then 1 else 0
  log : (readLog c.trace).map CIOCPBuffer.no = List.range (c.delivered + startedCalls c)
  logged : ∀ p ∈ readLog c.trace, p.nOperation = .opRead ∧ Stamped p

/-- The conditions on a run: the completions of reads carry data exactly as
`B` says, nobody executes `CloseAConnection`, and no more than `2^32` reads are
undelivered. -/
structure OpenStep (B : Nat → Prop) (c : Conn) (act : Action) : Prop where
  data : ∀ i d e b, act = .dequeue i d e → c.inFlight[i]? = some b → b.nOperation = .opRead →
    (B b.no ↔ d.length ≠ 0 ∧ e = noError)
  open_ : ∀ i ch a, act = .step i ch → c.calls[i]? = some a → ∀ k, a.pc ≠ .close k
  window : c.reads ≤ c.delivered + 2 ^ 32

section
variable {B : Nat → Prop} {c : Conn} {i : Nat} {a : Call}

theorem CallOk.of_mem (h : InOrder B c) (ha : c.calls[i]? = some a) : CallOk B c.delivered a :=
  h.calls a (List.mem_of_getElem? ha)

/-- A call that moves on without entering `GetNextReadBuffer`. -/
theorem CallOk.move {d : Nat} {pc : Pc} (h : CallOk B d a)
    (hpath : pc ≠ .compare ∧ pc ≠ .insert) (hlate : pc ≠ .testCounters ∧ pc ≠ .release)
    (hheld : ∀ p, pc.held = some p → a.pc.held = some p) : CallOk B d { a with pc := pc } where
  job := h.job
  path := fun hp => (hp.elim hpath.1 hpath.2).elim
  held := fun p hp => h.held p (hheld p hp)
  late := hlate

/-- The parts of the shared state that the order of the reads depends on. -/
structure SameReads (k k' : Core) : Prop where
  closing : k'.ctx.bClosing = k.ctx.bClosing
  current : k'.ctx.nCurrentReadSequence = k.ctx.nCurrentReadSequence
  next : k'.ctx.nReadSequence = k.ctx.nReadSequence
  parked : k'.ctx.pOutOfOrderReads = k.ctx.pOutOfOrderReads
  inFlight : ∀ n, weight (isNo n) k'.inFlight = weight (isNo n) k.inFlight
  posted : (∀ b ∈ k.inFlight, Stamped b) → ∀ b ∈ k'.inFlight, Stamped b
  reads : k'.reads = k.reads
  delivered : k'.delivered = k.delivered
  log : readLog k'.trace = readLog k.trace

theorem SameReads.refl (k : Core) : SameReads k k :=
  ⟨rfl, rfl, rfl, rfl, fun _ => rfl, fun h => h, rfl, rfl, rfl⟩

/-- A step of call `i`, place by place: `o` stands for what the other calls
contribute to a sum. -/
theorem InOrder.moved (h : InOrder B c) (ha : c.calls[i]? = some a) {r : Core × Pc}
    (closing : r.1.ctx.bClosing = false)
    (current : r.1.ctx.nCurrentReadSequence = UInt32.ofNat r.1.delivered)
    (next : r.1.ctx.nReadSequence = UInt32.ofNat r.1.reads)
    (bound : r.1.delivered ≤ r.1.reads)
    (posted : ∀ b ∈ r.1.inFlight, Stamped b)
    (calls : ∀ x ∈ (c.become i a r).calls, CallOk B r.1.delivered x)
    (parked : ∀ p ∈ r.1.ctx.pOutOfOrderReads, p.nOperation = .opRead ∧ Stamped p ∧ B p.no)
    (once : ∀ n o, B n →
      weight (isNo n) c.inFlight + (a.carries n + o) + weight (isNo n) c.ctx.pOutOfOrderReads
        = (if c.delivered ≤ n ∧ n < c.reads then 1 else 0) →
      weight (isNo n) r.1.inFlight + (Call.carries n { a with pc := r.2 } + o)
          + weight (isNo n) r.1.ctx.pOutOfOrderReads
        = if r.1.delivered ≤ n ∧ n < r.1.reads then 1 else 0)
    (log : ∀ o, startedCalls c = a.pc.started + o →
      (readLog c.trace).map CIOCPBuffer.no = List.range (c.delivered + (a.pc.started + o)) →
      (readLog r.1.trace).map CIOCPBuffer.no = List.range (r.1.delivered + (r.2.started + o)))
    (logged : ∀ p ∈ readLog r.1.trace, p.nOperation = .opRead ∧ Stamped p) :
    InOrder B (c.become i a r) where
  closing := closing
  current := current
  next := next
  bound := bound
  posted := posted
  calls := calls
  parked := parked
  once := fun n hn => by
    obtain ⟨o, h₁, h₂⟩ := Conn.weight_become (Call.carries n) r ha
    have := once n o hn (by rw [← h₁]; exact h.once n hn)
    rwa [← h₂] at this
  log := by
    obtain ⟨o, h₁, h₂⟩ := Conn.weight_become (fun a => a.pc.started) r ha
    have := log o h₁ (by rw [← h₁]; exact h.log)
    rwa [← h₂] at this
  logged := logged

theorem InOrder.quiet (h : InOrder B c) (ha : c.calls[i]? = some a) {r : Core × Pc}
    (hk : SameReads c.toCore r.1) (hok : CallOk B c.delivered { a with pc := r.2 })
    (hc : ∀ n, B n → Call.carries n { a with pc := r.2 } = a.carries n)
    (hs : r.2.started = a.pc.started) : InOrder B (c.become i a r) := by
  refine h.moved ha (hk.closing.trans h.closing) ?_ ?_ ?_ (hk.posted h.posted) (fun x hx => ?_) ?_
    (fun n o hn ho => ?_) (fun o _ hl => ?_) (hk.log ▸ h.logged)
  · rw [hk.current, hk.delivered, h.current]
  · rw [hk.next, hk.reads, h.next]
  · rw [hk.delivered, hk.reads]
    exact h.bound
  · rw [hk.delivered]
    rcases Conn.mem_become hx with hx | rfl
    · exact h.calls x hx
    · exact hok
  · rw [hk.parked]
    exact h.parked
  · rw [hk.inFlight, hk.parked, hk.delivered, hk.reads, hc n hn, ho]
  · rw [hk.log, hk.delivered, hs, hl]

/-! ## Equal stamps, equal reads -/

theorem InOrder.range_of_tally (h : InOrder B c) {n : Nat} (hn : B n) (ht : 0 < tally n c) :
    c.delivered ≤ n ∧ n < c.reads := by
  rw [h.once n hn] at ht
  by_contra hr
  rw [if_neg hr] at ht
  exact absurd ht (Nat.lt_irrefl 0)

theorem InOrder.tally_le_one (h : InOrder B c) {n : Nat} (hn : B n) : tally n c ≤ 1 := by
  rw [h.once n hn]
  split <;> omega

theorem InOrder.no_eq (h : InOrder B c) (hw : c.reads ≤ c.delivered + 2 ^ 32) {p : CIOCPBuffer}
    (hop : p.nOperation = .opRead) (hst : Stamped p)
    (hr : c.delivered ≤ p.no ∧ p.no < c.reads)
    (hseq : p.nSequenceNumber = c.ctx.nCurrentReadSequence) : p.no = c.delivered := by
  rw [hst hop, h.current] at hseq
  have := congrArg UInt32.toNat hseq
  simp only [UInt32.toNat_ofNat'] at this
  omega

theorem isNo_self {p : CIOCPBuffer} (h : p.nOperation = .opRead) : isNo p.no p = 1 := by
  simp [isNo, h]

theorem InOrder.carried (h : InOrder B c) (ha : a ∈ c.calls) {n : Nat} (hn : B n)
    (hc : 0 < a.carries n) : c.delivered ≤ n ∧ n < c.reads := by
  refine h.range_of_tally hn ?_
  have := weight_pos (f := Call.carries n) ha
  simp only [tally]
  omega

theorem InOrder.inList (h : InOrder B c) {p : CIOCPBuffer} (hp : p ∈ c.ctx.pOutOfOrderReads) :
    c.delivered ≤ p.no ∧ p.no < c.reads := by
  obtain ⟨hop, -, hB⟩ := h.parked p hp
  refine h.range_of_tally hB ?_
  have := weight_pos (f := isNo p.no) hp
  rw [isNo_self hop] at this
  simp only [tally]
  omega

theorem InOrder.alone (h : InOrder B c) (ha : c.calls[i]? = some a) {p : CIOCPBuffer}
    (hp : a.pc.held = some p) {j : Nat} {x : Call} (hij : i ≠ j) (hx : c.calls[j]? = some x) :
    x.pc.held = none := by
  obtain ⟨hop, -, hB, hd⟩ := (CallOk.of_mem h ha).held p hp
  cases hq : x.pc.held with
  | none => rfl
  | some q =>
      obtain ⟨hop', -, -, hd'⟩ := (CallOk.of_mem h hx).held q hq
      have h2 := weight_two (f := Call.carries c.delivered) hij ha hx
      have h1 : tally c.delivered c ≤ 1 := h.tally_le_one (hd ▸ hB)
      have ha1 : 1 ≤ Call.carries c.delivered a := by
        simp only [Call.carries, hp, heldNo, isNo, hop, hd, and_self, if_true]
        omega
      have hx1 : 1 ≤ Call.carries c.delivered x := by
        simp only [Call.carries, hq, heldNo, isNo, hop', hd', and_self, if_true]
        omega
      simp only [tally] at h1
      omega

theorem started_le_one (pc : Pc) : pc.started ≤ 1 := by
  cases pc <;> simp only [Pc.started] <;> first | omega | (split <;> omega)

theorem held_of_started {pc : Pc} (h : 0 < pc.started) : ∃ p, pc.held = some p := by
  have hs : pc.held.isSome = true := by
    by_contra hn
    cases pc <;> simp only [Pc.started, if_neg hn] at h <;> omega
  exact Option.isSome_iff_exists.mp hs

/-- The started calls are the one that carries the next read, or none. -/
theorem InOrder.startedCalls_eq (h : InOrder B c) (ha : c.calls[i]? = some a) {p : CIOCPBuffer}
    (hp : a.pc.held = some p) : startedCalls c = a.pc.started := by
  have he := weight_eraseIdx (fun a => a.pc.started) ha
  have h0 : weight (fun a : Call => a.pc.started) (c.calls.eraseIdx i) = 0 := by
    refine weight_eq_zero.mpr fun x hx => ?_
    rw [List.mem_eraseIdx_iff_getElem?] at hx
    obtain ⟨j, hj, hx⟩ := hx
    have hnone := h.alone ha hp (fun e => hj e.symm) hx
    by_contra hne
    obtain ⟨q, hq⟩ := held_of_started (Nat.pos_of_ne_zero hne)
    rw [hnone] at hq
    cases hq
  simp only [startedCalls]
  omega

/-- A call that is started has a posted read, so the log never runs ahead. -/
theorem InOrder.logged_lt (h : InOrder B c) : c.delivered + startedCalls c ≤ c.reads := by
  by_cases hz : startedCalls c = 0
  · have := h.bound
    omega
  · obtain ⟨x, hx, hpos⟩ := exists_of_weight_pos (Nat.pos_of_ne_zero hz)
    obtain ⟨i, hi⟩ := List.mem_iff_getElem?.mp hx
    obtain ⟨p, hp⟩ := held_of_started hpos
    obtain ⟨hop, -, hB, hd⟩ := (h.calls x hx).held p hp
    have hin := h.carried hx hB (by simp [Call.carries, hp, heldNo, isNo_self hop])
    have hs := h.startedCalls_eq hi hp
    have := started_le_one x.pc
    omega

/-! ## One step of one call

Five steps move a read to another place or deliver it; they come first.  For
all others `InOrder.quiet` applies. -/

theorem mem_of_get (ha : c.calls[i]? = some a) : a ∈ c.calls := List.mem_of_getElem? ha

/-- The insertion: from the hands of its call into the list. -/
theorem InOrder.insert (h : InOrder B c) (ha : c.calls[i]? = some a) (hpc : a.pc = .insert)
    {b : CIOCPBuffer} {t e : Nat} (hjob : a.job = .io b t e) :
    InOrder B (c.become i a ({ c.toCore with ctx := c.ctx.park b }, .headTest)) := by
  obtain ⟨b', t', e', hj, hop, hB⟩ := (CallOk.of_mem h ha).path (.inr hpc)
  obtain ⟨rfl, rfl, rfl⟩ : b = b' ∧ t = t' ∧ e = e' := by simpa [hjob] using hj
  have hst := ((CallOk.of_mem h ha).job b t e hjob hop).1
  refine h.moved ha h.closing h.current h.next h.bound h.posted (fun x hx => ?_) (fun p hp => ?_)
    (fun n o hn ho => ?_) (fun o _ hl => ?_) h.logged
  · rcases Conn.mem_become hx with hx | rfl
    · exact h.calls x hx
    · exact (CallOk.of_mem h ha).move (by simp) (by simp) (by simp [Pc.held])
  · rcases mem_insertRead.mp hp with rfl | hp
    · exact ⟨hop, hst, hB⟩
    · exact h.parked p hp
  · simp only [Call.carries, hpc, Pc.early, Pc.held, heldNo, hjob, Job.isNo, if_true] at ho
    simp only [Call.carries, Pc.early, Pc.held, heldNo, CIOCPContext.park, weight_insertRead, ← ho]
    simp only [Bool.false_eq_true, if_false]
    omega
  · have h0 : a.pc.started = 0 := by rw [hpc]; rfl
    rw [h0] at hl
    exact hl

/-- A passed head test: from the list into the hands of the caller. -/
theorem InOrder.headTest (h : InOrder B c) (hw : c.reads ≤ c.delivered + 2 ^ 32)
    (ha : c.calls[i]? = some a) (hpc : a.pc = .headTest) {p : CIOCPBuffer}
    {rest : List CIOCPBuffer} (hl : c.ctx.pOutOfOrderReads = p :: rest)
    (hseq : p.nSequenceNumber = c.ctx.nCurrentReadSequence) :
    InOrder B (c.become i a
      ({ c.toCore with ctx := { c.ctx with pOutOfOrderReads := rest } }, .call p)) := by
  have hp : p ∈ c.ctx.pOutOfOrderReads := by rw [hl]; exact List.mem_cons_self
  obtain ⟨hop, hst, hB⟩ := h.parked p hp
  have hno := h.no_eq hw hop hst (h.inList hp) hseq
  refine h.moved ha h.closing h.current h.next h.bound h.posted (fun x hx => ?_) (fun q hq => ?_)
    (fun n o hn ho => ?_) (fun o _ hlog => ?_) h.logged
  · rcases Conn.mem_become hx with hx | rfl
    · exact h.calls x hx
    · refine ⟨(CallOk.of_mem h ha).job, by simp, fun q hq => ?_, by simp⟩
      obtain rfl : p = q := by simpa [Pc.held] using hq
      exact ⟨hop, hst, hB, hno⟩
  · exact h.parked q (by rw [hl]; exact List.mem_cons_of_mem _ hq)
  · simp only [Call.carries, hpc, Pc.early, Pc.held, heldNo, hl, weight_cons] at ho
    simp only [Call.carries, Pc.early, Pc.held, heldNo, ← ho]
    simp only [Bool.false_eq_true, if_false]
    omega
  · have h0 : a.pc.started = 0 := by rw [hpc]; rfl
    rw [h0] at hlog
    exact hlog

/-- The call of `OnReadCompleted`: the next number is logged. -/
theorem InOrder.call (h : InOrder B c) (ha : c.calls[i]? = some a) {p : CIOCPBuffer}
    (hpc : a.pc = .call p) (ts : List Text) :
    InOrder B (c.become i a (c.toCore.log (.readCompleted p), .send (.readCompleted p) ts)) := by
  have hheld : a.pc.held = some p := by rw [hpc]; rfl
  obtain ⟨hop, hst, -, hno⟩ := (CallOk.of_mem h ha).held p hheld
  have hs := h.startedCalls_eq ha hheld
  refine h.moved ha h.closing h.current h.next h.bound h.posted (fun x hx => ?_) h.parked
    (fun n o hn ho => ?_) (fun o ho hl => ?_) (fun q hq => ?_)
  · rcases Conn.mem_become hx with hx | rfl
    · exact h.calls x hx
    · exact (CallOk.of_mem h ha).move (by simp) (by simp) (fun q hq => hheld.trans hq)
  · have h0 : Call.carries n a = isNo n p := by simp [Call.carries, hpc, Pc.early, Pc.held, heldNo]
    have h1 : Call.carries n { a with pc := .send (.readCompleted p) ts } = isNo n p := by
      simp [Call.carries, Pc.early, Pc.held, heldNo]
    rw [h0] at ho
    rw [h1]
    exact ho
  · -- nobody else is inside, so the log is complete up to the counter
    have h0 : a.pc.started = 0 := by rw [hpc]; rfl
    obtain rfl : o = 0 := by omega
    rw [h0] at hl
    simp only [Core.log, readLog_append, List.map_append, hl, readLog, List.map_cons, hno]
    exact (List.range_succ ..).symm
  · simp only [Core.log, readLog_append, List.mem_append, readLog, List.mem_singleton] at hq
    rcases hq with hq | rfl
    · exact h.logged q hq
    · exact ⟨hop, hst⟩

/-- The increment: the next read is delivered, and nobody else had it. -/
theorem InOrder.increment (h : InOrder B c) (ha : c.calls[i]? = some a) {p : CIOCPBuffer}
    (hpc : a.pc = .increment p) :
    InOrder B (c.become i a
      ({ c.toCore with ctx := c.ctx.nextRead, delivered := c.delivered + 1 }, .drop p)) := by
  have hheld : a.pc.held = some p := by rw [hpc]; rfl
  obtain ⟨hop, -, hBp, hno⟩ := (CallOk.of_mem h ha).held p hheld
  have hin : c.delivered ≤ p.no ∧ p.no < c.reads := h.carried (mem_of_get ha) hBp
    (by simp [Call.carries, hpc, Pc.early, Pc.held, heldNo, isNo_self hop])
  refine h.moved ha h.closing ?_ h.next (by simp only; omega) h.posted (fun x hx => ?_) h.parked
    (fun n o hn ho => ?_) (fun o _ hl => ?_) h.logged
  · show c.ctx.nCurrentReadSequence + 1 = UInt32.ofNat (c.delivered + 1)
    rw [h.current, UInt32.ofNat_add]
    rfl
  · obtain ⟨j, hj⟩ := List.mem_iff_getElem?.mp hx
    by_cases hij : i = j
    · subst hij
      obtain rfl : { a with pc := .drop p } = x := by
        rw [Conn.become, List.getElem?_set_self (List.getElem?_eq_some_iff.mp ha).1] at hj
        exact Option.some.inj hj
      exact ⟨(CallOk.of_mem h ha).job, by simp, by simp [Pc.held], by simp⟩
    · rw [Conn.become, List.getElem?_set_ne hij] at hj
      have hx' := CallOk.of_mem h hj
      refine ⟨hx'.job, hx'.path, fun q hq => ?_, hx'.late⟩
      rw [h.alone ha hheld hij hj] at hq
      cases hq
  · have hmine : Call.carries n a = isNo n p := by
      simp [Call.carries, hpc, Pc.early, Pc.held, heldNo]
    simp only [Call.carries, Pc.early, Pc.held, heldNo, Bool.false_eq_true, if_false,
      CIOCPContext.nextRead_pOutOfOrderReads]
    rw [hmine] at ho
    by_cases hnd : n = p.no
    · subst hnd
      rw [if_pos hin, isNo_self hop] at ho
      rw [if_neg (by omega)]
      omega
    · have hz : isNo n p = 0 := by simp [isNo, Ne.symm hnd]
      have hiff : (c.delivered + 1 ≤ n ∧ n < c.reads) ↔ (c.delivered ≤ n ∧ n < c.reads) := by omega
      rw [if_congr hiff rfl rfl, ← ho]
      omega
  · have h1 : a.pc.started = 1 := by rw [hpc]; rfl
    rw [hl, h1]
    show List.range _ = List.range (c.delivered + 1 + (0 + o))
    congr 1
    omega

/-- An accepted `PostRecv`: the next number is in flight. -/
theorem InOrder.recv (h : InOrder B c) (ha : c.calls[i]? = some a) {k : Receiver} {addr : Nat}
    (hpc : a.pc = .recv k addr) :
    InOrder B (c.become i a (c.toCore.postRecv addr, afterRecv k)) := by
  have hmove : CallOk B c.delivered { a with pc := afterRecv k } :=
    (CallOk.of_mem h ha).move (by cases k <;> simp [afterRecv]) (by cases k <;> simp [afterRecv])
      (by cases k <;> simp [afterRecv, Pc.held])
  refine h.moved ha h.closing h.current ?_ (Nat.le_succ_of_le h.bound) (fun b hb => ?_)
    (fun x hx => ?_) h.parked (fun n o hn ho => ?_) (fun o _ hl => ?_) h.logged
  · show c.ctx.nReadSequence + 1 = UInt32.ofNat (c.reads + 1)
    rw [h.next, UInt32.ofNat_add]
    rfl
  · rcases List.mem_append.mp hb with hb | hb
    · exact h.posted b hb
    · obtain rfl := List.mem_singleton.mp hb
      exact fun _ => h.next
  · rcases Conn.mem_become hx with hx | rfl
    · exact h.calls x hx
    · exact hmove
  · have h0 : Call.carries n a = 0 := by simp [Call.carries, hpc, Pc.early, Pc.held, heldNo]
    have h1 : Call.carries n { a with pc := afterRecv k } = 0 := by
      cases k <;> simp [Call.carries, afterRecv, Pc.early, Pc.held, heldNo]
    have hnew : weight (isNo n) (c.toCore.postRecv addr).inFlight
        = weight (isNo n) c.inFlight + if c.reads = n then 1 else 0 := by
      simp [Core.postRecv, isNo]
    have hd := h.bound
    rw [h0] at ho
    rw [h1, hnew]
    show _ + weight (isNo n) c.ctx.pOutOfOrderReads
      = if c.delivered ≤ n ∧ n < c.reads + 1 then 1 else 0
    split at ho <;> split <;> split <;> omega
  · have h0 : a.pc.started = 0 := by rw [hpc]; rfl
    have h1 : (afterRecv k).started = 0 := by cases k <;> rfl
    rw [h0] at hl
    rw [h1]
    exact hl

/-! ### The quiet steps -/

theorem InOrder.pass (h : InOrder B c) (ha : c.calls[i]? = some a) {pc : Pc} (hpc : a.pc = pc)
    {r : Core × Pc} (hk : SameReads c.toCore r.1)
    (hpath : r.2 ≠ .compare ∧ r.2 ≠ .insert := by simp [stepCall, afterSend, afterNoBuffer])
    (hlate : r.2 ≠ .testCounters ∧ r.2 ≠ .release := by simp [stepCall, afterSend, afterNoBuffer])
    (hheld : r.2.held = pc.held := by rfl) (hearly : r.2.early = pc.early := by rfl)
    (hs : r.2.started = pc.started := by rfl) : InOrder B (c.become i a r) := by
  subst hpc
  refine h.quiet ha hk ((CallOk.of_mem h ha).move hpath hlate fun p hp => hheld ▸ hp)
    (fun n _ => ?_) hs
  simp only [Call.carries, hheld, hearly]

theorem SameReads.countDown (k : Core) (op : Operation) :
    SameReads k { k with ctx := k.ctx.countDown op } := by
  cases op <;> exact ⟨rfl, rfl, rfl, rfl, fun _ => rfl, fun h => h, rfl, rfl, rfl⟩

theorem SameReads.countSend (k : Core) : SameReads k { k with ctx := k.ctx.countSend } :=
  ⟨rfl, rfl, rfl, rfl, fun _ => rfl, fun h => h, rfl, rfl, rfl⟩

theorem SameReads.logged (k : Core) {e : Event} (he : readLog [e] = []) : SameReads k (k.log e) :=
  ⟨rfl, rfl, rfl, rfl, fun _ => rfl, fun h => h, rfl, rfl, by simp [Core.log, he]⟩

theorem SameReads.notify (k : Core) (job : Job) : SameReads k (k.notify (notification job)) := by
  have he : readLog [notification job] = [] := by
    cases job <;> simp only [notification] <;> first | rfl | (split <;> rfl)
  unfold Core.notify
  split
  · exact .refl k
  · exact ⟨rfl, rfl, rfl, rfl, fun _ => rfl, fun h => h, rfl, rfl, by simp [he]⟩

theorem SameReads.wsaSend (k : Core) (b : CIOCPBuffer) : SameReads k (k.wsaSend b) := by
  refine ⟨rfl, rfl, rfl, rfl, fun n => ?_, fun h x hx => ?_, rfl, rfl, ?_⟩
  · simp [Core.wsaSend, isNo]
  · rcases List.mem_append.mp hx with hx | hx
    · exact h x hx
    · obtain rfl := List.mem_singleton.mp hx
      exact fun hop => by cases hop
  · simp [Core.wsaSend, readLog]

/-- The comparison: a read that is the next one is taken for delivery. -/
theorem InOrder.compare (h : InOrder B c) (hw : c.reads ≤ c.delivered + 2 ^ 32)
    (ha : c.calls[i]? = some a) (hpc : a.pc = .compare) (cfg : Config) (ch : Choice) :
    InOrder B (c.become i a (stepCall cfg ch c.toCore a.job .compare)) := by
  obtain ⟨b, t, e, hjob, hop, hB⟩ := (CallOk.of_mem h ha).path (.inl hpc)
  have hst := ((CallOk.of_mem h ha).job b t e hjob hop).1
  have hcarry : ∀ n, a.carries n = isNo n b := fun n => by
    simp [Call.carries, hpc, Pc.early, Pc.held, heldNo, hjob, Job.isNo]
  simp only [stepCall, hjob]
  split
  · rename_i hnext
    have hin := h.carried (mem_of_get ha) hB (by rw [hcarry, isNo_self hop]; exact Nat.one_pos)
    have hno := h.no_eq hw hop hst hin (by simpa [isNextRead] using hnext)
    refine h.quiet ha (.refl _) ⟨(CallOk.of_mem h ha).job, by simp, fun p hp => ?_, by simp⟩
      (fun n _ => ?_) (by rw [hpc]; rfl)
    · obtain rfl : b = p := by simpa [Pc.held] using hp
      exact ⟨hop, hst, hB, hno⟩
    · rw [hcarry]
      simp [Call.carries, Pc.early, Pc.held, heldNo]
  · refine h.quiet ha (.refl _) ⟨(CallOk.of_mem h ha).job, fun _ => ⟨b, t, e, hjob, hop, hB⟩,
      by simp [Pc.held], by simp⟩ (fun n _ => ?_) (by rw [hpc]; rfl)
    rw [hcarry]
    simp [Call.carries, Pc.early, Pc.held, heldNo, hjob, Job.isNo]

/-- Past the test of `bClosing`: a data read goes to `GetNextReadBuffer`, a
read without data leaves the bookkeeping. -/
theorem InOrder.testClosing (h : InOrder B c) (ha : c.calls[i]? = some a)
    (hpc : a.pc = .testClosing) (cfg : Config) (ch : Choice) :
    InOrder B (c.become i a (stepCall cfg ch c.toCore a.job .testClosing)) := by
  have hok := CallOk.of_mem h ha
  simp only [stepCall, h.closing, Bool.false_eq_true, if_false]
  cases hjob : a.job with
  | accept b | app =>
      refine h.quiet ha (.refl _) (hok.move (by simp [dispatch]) (by simp [dispatch])
        (by simp [dispatch, Pc.held])) (fun n _ => ?_) (by rw [hpc]; rfl)
      simp [Call.carries, hpc, dispatch, Pc.early, Pc.held, heldNo, hjob, Job.isNo]
  | io b t e =>
      have hcarry : ∀ n, a.carries n = isNo n b := fun n => by
        simp [Call.carries, hpc, Pc.early, Pc.held, heldNo, hjob, Job.isNo]
      -- without data a read is none of those that `B` names
      have hgone : ¬ (t ≠ 0 ∧ e = noError) → ∀ n, B n → isNo n b = 0 := by
        intro hd n hn
        unfold isNo
        split
        · rename_i hb
          exact absurd (((hok.job b t e hjob hb.1).2).mp (hb.2 ▸ hn)) hd
        · rfl
      have hnotify : ¬ (t ≠ 0 ∧ e = noError) → InOrder B (c.become i a (c.toCore, .notify)) :=
        fun hd => h.quiet ha (.refl _) (hok.move (by simp) (by simp) (by simp [Pc.held]))
          (fun n hn => by
            rw [hcarry, hgone hd n hn]
            simp [Call.carries, Pc.early, Pc.held, heldNo]) (by rw [hpc]; rfl)
      simp only [dispatch]
      by_cases he : e ≠ noError
      · rw [if_pos he]
        exact hnotify fun hd => he hd.2
      rw [if_neg he]
      by_cases ht : t = 0
      · rw [if_pos ht]
        exact hnotify fun hd => hd.1 ht
      rw [if_neg ht]
      cases hop : b.nOperation with
      | opRead =>
          have hB : B b.no := ((hok.job b t e hjob hop).2).mpr ⟨ht, not_not.mp he⟩
          refine h.quiet ha (.refl _) ⟨hok.job, fun _ => ⟨b, t, e, hjob, hop, hB⟩,
            by simp [Pc.held], by simp⟩ (fun n _ => ?_) (by rw [hpc]; rfl)
          rw [hcarry]
          simp [Call.carries, Pc.early, Pc.held, heldNo, hjob, Job.isNo]
      | opWrite =>
          refine h.quiet ha (.logged _ rfl) (hok.move (by simp) (by simp) (by simp [Pc.held]))
            (fun n _ => ?_) (by rw [hpc]; rfl)
          rw [hcarry]
          simp [Call.carries, Pc.early, Pc.held, heldNo, isNo, hop]
      | opAccept =>
          refine h.quiet ha (.refl _) (hok.move (by simp) (by simp) (by simp [Pc.held]))
            (fun n _ => ?_) (by rw [hpc]; rfl)
          rw [hcarry]
          simp [Call.carries, Pc.early, Pc.held, heldNo, isNo, hop]

theorem InOrder.stepped (h : InOrder B c) (hw : c.reads ≤ c.delivered + 2 ^ 32)
    (ha : c.calls[i]? = some a) (hclose : ∀ k, a.pc ≠ .close k) (cfg : Config) (ch : Choice) :
    InOrder B (c.become i a (stepCall cfg ch c.toCore a.job a.pc)) := by
  have hlate := (CallOk.of_mem h ha).late
  cases hpc : a.pc with
  | enter =>
      simp only [stepCall]
      cases hjob : a.job with
      | io b t e => exact h.pass ha hpc (.countDown _ _)
      | accept b | app => exact h.pass ha hpc (.refl _)
  | testClosing => exact h.testClosing ha hpc cfg ch
  | notify => exact h.pass ha hpc (.notify _ _)
  | unlink k => exact h.pass ha hpc (.refl _)
  | close k => exact absurd hpc (hclose k)
  | testCounters => exact absurd hpc hlate.1
  | release => exact absurd hpc hlate.2
  | finish => exact h.pass ha hpc (.refl _)
  | compare => exact h.compare hw ha hpc cfg ch
  | insert =>
      obtain ⟨b, t, e, hjob, -, -⟩ := (CallOk.of_mem h ha).path (.inr hpc)
      simp only [stepCall, hjob]
      exact h.insert ha hpc hjob
  | headTest =>
      simp only [stepCall, takeHead]
      have hnone : InOrder B (c.become i a (c.toCore, .alloc .repost)) :=
        h.pass ha hpc (.refl _)
      cases hl : c.ctx.pOutOfOrderReads with
      | nil => exact hnone
      | cons p rest =>
          by_cases hseq : p.nSequenceNumber = c.ctx.nCurrentReadSequence
          · simp only [if_pos hseq]
            exact h.headTest hw ha hpc hl hseq
          · simp only [if_neg hseq]
            exact hnone
  | call p => exact h.call ha hpc _
  | send k ts =>
      cases ts with
      | nil =>
          cases k <;> exact h.pass ha hpc (.refl _)
      | cons t ts =>
          have hno : InOrder B (c.become i a (c.toCore.log (.noBuffer t), .send k ts)) := by
            cases k <;> exact h.pass ha hpc (.logged _ rfl)
          simp only [stepCall]
          cases ch.addr with
          | none => exact hno
          | some addr =>
              by_cases ht : t.length ≤ bufferSize
              · simp only [if_pos ht]
                cases k <;> exact h.pass ha hpc (.refl _)
              · simp only [if_neg ht]
                exact hno
  | throttle k b ts =>
      simp only [stepCall]
      split <;> cases k <;> exact h.pass ha hpc (.logged _ rfl)
  | wsaSend k b ts =>
      simp only [stepCall]
      split
      · cases k <;> exact h.pass ha hpc (.wsaSend _ _)
      · cases k <;> exact h.pass ha hpc (.refl _)
  | countSend k ts => cases k <;> exact h.pass ha hpc (.countSend _)
  | increment p => exact h.increment ha hpc
  | drop p => exact h.pass ha hpc (.refl _)
  | alloc k =>
      simp only [stepCall]
      cases ch.addr with
      | none => cases k <;> exact h.pass ha hpc (.refl _)
      | some addr => exact h.pass ha hpc (.refl _)
  | recv k addr =>
      simp only [stepCall]
      split
      · exact h.recv ha hpc
      · exact h.pass ha hpc (.refl _)
  | add | keepAlive =>
      simp only [stepCall]
      split <;> exact h.pass ha hpc (.refl _)
  | ioctl =>
      simp only [stepCall]
      cases a.job with
      | accept b =>
          by_cases hok : ch.ok = true
          · simp only [if_pos hok]
            exact h.pass ha hpc (.logged _ rfl)
          · simp only [if_neg hok]
            exact h.pass ha hpc (.refl _)
      | io b t e | app => exact h.pass ha hpc (.refl _)
  | reads left =>
      cases left <;> exact h.pass ha hpc (.refl _)
  | returned => exact h.pass ha hpc (.refl _)

/-! ## Calls that begin, and whole runs -/

theorem InOrder.start (h : InOrder B c) {job : Job} {pc : Pc}
    (hok : CallOk B c.delivered ⟨job, pc⟩) (hcarry : ∀ n, Call.carries n ⟨job, pc⟩ = 0)
    (hs : pc.started = 0) : InOrder B (c.start job pc) where
  closing := h.closing
  current := h.current
  next := h.next
  bound := h.bound
  posted := h.posted
  calls := fun x hx => by
    rcases List.mem_append.mp hx with hx | hx
    · exact h.calls x hx
    · obtain rfl := List.mem_singleton.mp hx
      exact hok
  parked := h.parked
  once := fun n hn => by
    have ho := h.once n hn
    simp only [tally, Conn.start, weight_append, weight_cons, weight_nil, hcarry] at ho ⊢
    exact ho
  log := by
    have hl := h.log
    simp only [startedCalls, Conn.start, weight_append, weight_cons, weight_nil, hs] at hl ⊢
    exact hl
  logged := h.logged

/-- A worker that takes a completion: the read passes from the kernel into its hands. -/
theorem InOrder.dequeue (h : InOrder B c) {b : CIOCPBuffer} (hb : c.inFlight[i]? = some b)
    {data : List UInt8} {e : Nat}
    (hdata : b.nOperation = .opRead → (B b.no ↔ data.length ≠ 0 ∧ e = noError)) :
    InOrder B (({ c with inFlight := c.inFlight.eraseIdx i } : Conn).start
      (.io (completed b data) data.length e) .enter) := by
  have hmem : b ∈ c.inFlight := List.mem_of_getElem? hb
  have hop : (completed b data).nOperation = b.nOperation := by
    unfold completed; split <;> simp_all
  have hnum : (completed b data).no = b.no := by unfold completed; split <;> rfl
  have hseq : (completed b data).nSequenceNumber = b.nSequenceNumber := by
    unfold completed; split <;> rfl
  have hisNo : ∀ n, isNo n (completed b data) = isNo n b := fun n => by
    simp only [isNo, hop, hnum]
  refine ⟨h.closing, h.current, h.next, h.bound,
    fun x hx => h.posted x (List.mem_of_mem_eraseIdx hx), fun x hx => ?_, h.parked,
    fun n hn => ?_, ?_, h.logged⟩
  · rcases List.mem_append.mp hx with hx | hx
    · exact h.calls x hx
    · obtain rfl := List.mem_singleton.mp hx
      refine ⟨fun b' t e' hj hr => ?_, by simp, by simp [Pc.held], by simp⟩
      obtain ⟨rfl, rfl, rfl⟩ : completed b data = b' ∧ data.length = t ∧ e = e' := by
        simpa using hj
      rw [hop] at hr
      refine ⟨fun _ => ?_, ?_⟩
      · rw [hseq, hnum]
        exact h.posted b hmem hr
      · rw [hnum]
        exact hdata hr
  · have he := weight_eraseIdx (isNo n) hb
    have ho := h.once n hn
    have hc : Call.carries n ⟨.io (completed b data) data.length e, .enter⟩ = isNo n b := by
      simp [Call.carries, Pc.early, Pc.held, heldNo, Job.isNo, hisNo]
    simp only [tally] at ho ⊢
    simp only [Conn.start, weight_append, weight_cons, weight_nil, hc]
    show _ = if c.delivered ≤ n ∧ n < c.reads then 1 else 0
    omega
  · have hl := h.log
    simp only [startedCalls, Conn.start, weight_append, weight_cons, weight_nil] at hl ⊢
    exact hl

theorem InOrder.init (sock : SOCKET) (b : CIOCPBuffer) : InOrder B (Conn.init sock b) where
  closing := rfl
  current := rfl
  next := rfl
  bound := Nat.le_refl 0
  posted := fun b hb => by cases hb
  calls := fun x hx => by
    obtain rfl := List.mem_singleton.mp hx
    exact ⟨fun _ _ _ hj => (by cases hj), by simp, by simp [Pc.held], by simp⟩
  parked := fun p hp => by cases hp
  once := fun n _ => by
    simp [tally, Conn.init, Call.carries, Pc.early, Pc.held, heldNo, CIOCPContext.allocated]
  log := rfl
  logged := fun p hp => by cases hp

theorem InOrder.step (h : InOrder B c) {cfg : Config} {act : Action} {d : Conn}
    (hok : OpenStep B c act) (hs : c.step cfg act = some d) : InOrder B d := by
  cases act with
  | dequeue i data e =>
      obtain ⟨b, hb, -, rfl⟩ := Conn.dequeue_eq hs
      exact h.dequeue hb fun hr => hok.data i data e b rfl hb hr
  | step i ch =>
      obtain ⟨a, ha, -, rfl⟩ := Conn.step_eq hs
      exact h.stepped hok.window ha (hok.open_ i ch a rfl ha) cfg ch
  | sendText t =>
      obtain ⟨-, rfl⟩ := Conn.sendText_eq hs
      exact h.start ⟨fun _ _ _ hj => (by cases hj), by simp, by simp [Pc.held], by simp⟩
        (fun n => by simp [Call.carries, Pc.early, Pc.held, heldNo]) rfl
  | closeAConnection =>
      obtain ⟨-, rfl⟩ := Conn.closeAConnection_eq hs
      exact h.start ⟨fun _ _ _ hj => (by cases hj), by simp, by simp [Pc.held], by simp⟩
        (fun n => by simp [Call.carries, Pc.early, Pc.held, heldNo]) rfl

theorem InOrder.of_via {cfg : Config} {sock : SOCKET} {b : CIOCPBuffer}
    (h : Via (Conn.step cfg) (OpenStep B) (Conn.init sock b) c) : InOrder B c :=
  h.invariant (.init sock b) fun _ _ _ h hok hs => h.step hok hs

end

end CppWorkspace.CIOCPServer
