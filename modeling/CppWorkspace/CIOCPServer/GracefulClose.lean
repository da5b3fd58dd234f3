/-
# `CppWorkspace.CIOCPServer.GracefulClose` — what the peer's close overtakes

The peer closes after its last byte, so its close is the zero-byte completion
of some read `k`, and the reads before `k` carry data.  That completion is
handled OUT of sequence: it does not pass through `GetNextReadBuffer`, its
worker calls `OnConnectionClosing` and sets `bClosing` at once, and a data
completion that comes to its test of `bClosing` afterwards is thrown away
(`overtaken`).

So the order in which the completions are handled decides.  `InSequence` asks
that the close is not handled while an earlier read is: its completion was
taken, and its worker has left the read loop, or is inside `OnReadCompleted`
with the last of them.  On runs where this holds nothing is lost
(`graceful_close`).  A parked buffer needs no condition of its own: whoever
could still take it from the list would be in the read loop
(`Phase.ready_of_earlierHandled`).
-/
import CppWorkspace.CIOCPServer.Delivery
import CppWorkspace.CIOCPServer.Lifetime

namespace CppWorkspace.CIOCPServer

open Runs Weights

/-- The first `k` reads were passed to `OnReadCompleted`. -/
def HandedOut (k : Nat) (tr : List Event) : Prop :=
  ∀ n < k, n ∈ (readLog tr).map CIOCPBuffer.seq

/-- Every `OnConnectionClosing` came after the first `k` reads. -/
def ClosingAfter (k : Nat) (tr : List Event) : Prop :=
  ∀ l₁ l₂, tr = l₁ ++ .closing :: l₂ → HandedOut k l₁

/-- All completions were taken and all calls have returned. -/
def AllHandled (c : Conn) : Prop := c.inFlight = [] ∧ ∀ a ∈ c.calls, a.pc = .returned

/-- The data of the connection ends at read `k`: exactly the reads before it
complete with data and without an error. -/
def PeerClosesAt (k : Nat) (c : Conn) : Action → Prop
  | .dequeue i d e => ∀ b ∈ c.inFlight[i]?, b.nOperation = .opRead →
      (b.seq < k ↔ d.length ≠ 0 ∧ e = noError)
  | _ => True

instance (k : Nat) (c : Conn) : (act : Action) → Decidable (PeerClosesAt k c act)
  | .dequeue i d e => inferInstanceAs (Decidable (∀ b ∈ c.inFlight[i]?, b.nOperation = .opRead →
      (b.seq < k ↔ d.length ≠ 0 ∧ e = noError)))
  | .step _ _ | .sendText _ | .closeAConnection => inferInstanceAs (Decidable True)

/-- The position of a worker whose read completion is handled, but for the new `PostRecv`. -/
def Pc.leftLoop (pc : Pc) : Bool := !pc.early && !pc.inReadLoop

/-- The completions of the first `k` reads were taken, and their workers have left the read
loop; or a worker is inside `OnReadCompleted` with the last of these reads. -/
def EarlierHandled (k : Nat) (c : Conn) : Prop :=
  (∀ n < k, ∃ a ∈ c.calls, a.job.readSeq = some n ∧ a.pc.leftLoop = true) ∨
    ∃ a ∈ c.calls, 0 < a.pc.started ∧ ∃ p ∈ a.pc.held, p.seq + 1 = k

instance (k : Nat) (c : Conn) : Decidable (EarlierHandled k c) :=
  inferInstanceAs (Decidable ((∀ n < k, ∃ a ∈ c.calls, _ ∧ _) ∨ ∃ a ∈ c.calls, _ ∧ _))

/-- The next step of the call is that of `OnConnectionClosing`. -/
def Call.notifies (k : Core) (a : Call) : Bool :=
  a.pc == .notify && notification a.job == .closing && !k.ctx.bNotifyCloseOrError

/-- `OnConnectionClosing` is called, and `bClosing` is set, only when the earlier completions
have been handled. -/
def InSequence (k : Nat) (c : Conn) : Action → Prop
  | .step i _ => ∀ a ∈ c.calls[i]?, (a.notifies c.toCore || a.pc.closes) = true → EarlierHandled k c
  | _ => True

instance (k : Nat) (c : Conn) : (act : Action) → Decidable (InSequence k c act)
  | .step i _ => inferInstanceAs (Decidable (∀ a ∈ c.calls[i]?,
      (a.notifies c.toCore || a.pc.closes) = true → EarlierHandled k c))
  | .dequeue .. | .sendText _ | .closeAConnection => inferInstanceAs (Decidable True)

/-- The counter has reached `k`, or the worker of read `k-1` is about to advance it. -/
def Ready (k : Nat) (c : Conn) : Prop := k ≤ c.delivered + startedCalls c

/-! ## The trace -/

section
variable (cfg : Config) (ch : Choice) (k : Core) (job : Job) {pc : Pc}

theorem stepCall_progress :
    k.delivered + pc.started ≤
      (stepCall cfg ch k job pc).1.delivered + (stepCall cfg ch k job pc).2.started := by
  by_cases hinc : ∃ p, pc = .increment p
  · obtain ⟨p, rfl⟩ := hinc
    exact Nat.le_refl _
  rw [stepCall_delivered cfg ch k job (fun p hp => hinc ⟨p, hp⟩)]
  refine Nat.add_le_add_left ?_ _
  cases pc with
  | send a ts =>
      cases ts with
      | nil => cases a <;> exact Nat.le_refl _
      | cons t ts =>
          simp only [stepCall]
          repeat' split
          all_goals cases a <;> exact Nat.le_refl _
  | throttle a b ts | wsaSend a b ts =>
      simp only [stepCall]
      split <;> cases a <;> exact Nat.le_refl _
  | countSend a ts => cases a <;> exact Nat.le_refl _
  | increment p => exact absurd ⟨p, rfl⟩ hinc
  | _ => exact Nat.zero_le _

end

theorem readLog_mem_append {n : Nat} {l : List Event} (es : List Event)
    (h : n ∈ (readLog l).map CIOCPBuffer.seq) :
    n ∈ (readLog (l ++ es)).map CIOCPBuffer.seq := by
  rw [readLog_append, List.map_append]
  exact List.mem_append_left _ h

theorem HandedOut.append {k : Nat} {l : List Event} (h : HandedOut k l) (es : List Event) :
    HandedOut k (l ++ es) := fun n hn => readLog_mem_append es (h n hn)

theorem ClosingAfter.append {k : Nat} {l : List Event} (h : ClosingAfter k l) {e : Event}
    (he : e = .closing → HandedOut k l) : ClosingAfter k (l ++ [e]) := by
  intro l₁ l₂ hl
  rcases List.eq_nil_or_concat l₂ with rfl | ⟨l₂, x, rfl⟩
  · obtain ⟨rfl, hx⟩ := List.append_inj' hl rfl
    exact he (List.cons.inj hx).1
  · have hl' : l ++ [e] = (l₁ ++ .closing :: l₂) ++ [x] := by simpa using hl
    obtain ⟨rfl, -⟩ := List.append_inj' hl' rfl
    exact h l₁ l₂ rfl

/-! ## Runs -/

section
variable {cfg : Config} {k : Nat} {c d : Conn} {act : Action}

theorem step_closing (hs : c.step cfg act = some d) :
    d.trace = c.trace ∨ ∃ e, d.trace = c.trace ++ [e] ∧
      (e = .closing → ∃ i ch a, act = .step i ch ∧ c.calls[i]? = some a ∧
        a.notifies c.toCore = true) := by
  rcases Conn.step_trace hs with ht | ⟨e, ht, i, ch, a, hact, ha, he⟩
  · exact .inl ht
  · refine .inr ⟨e, ht, fun hc => ⟨i, ch, a, hact, ha, ?_⟩⟩
    obtain ⟨hpc, hn, hb⟩ := he.closing hc
    simp [Call.notifies, hpc, hn, hb]

theorem step_progress (hs : c.step cfg act = some d) :
    c.delivered + startedCalls c ≤ d.delivered + startedCalls d := by
  cases act with
  | dequeue i data e =>
      obtain ⟨b, -, -, rfl⟩ := Conn.dequeue_eq hs
      simp [startedCalls, Conn.start]
  | step i ch =>
      obtain ⟨a, ha, -, rfl⟩ := Conn.step_eq hs
      obtain ⟨o, h₁, h₂⟩ := Conn.weight_become (fun a => a.pc.started)
        (stepCall cfg ch c.toCore a.job a.pc) ha
      have hp : c.delivered + a.pc.started ≤ (stepCall cfg ch c.toCore a.job a.pc).1.delivered +
          Pc.started (Call.pc { a with pc := (stepCall cfg ch c.toCore a.job a.pc).2 }) :=
        stepCall_progress cfg ch c.toCore a.job
      simp only [startedCalls, Conn.become_toCore]
      omega
  | sendText t =>
      obtain ⟨-, rfl⟩ := Conn.sendText_eq hs
      simp [startedCalls, Conn.start]
  | closeAConnection =>
      obtain ⟨-, rfl⟩ := Conn.closeAConnection_eq hs
      simp [startedCalls, Conn.start]

/-- Before the connection is closed the reads are in order; afterwards the
first `k` have been handed out. -/
def Phase (k : Nat) (c : Conn) : Prop :=
  (InOrder (· < k) c ∧ Awake c) ∨ (HandedOut k c.trace ∧ Ready k c)

theorem handedOut_iff {m : Nat} {l : List Event}
    (hl : (readLog l).map CIOCPBuffer.seq = List.range m) : HandedOut k l ↔ k ≤ m := by
  unfold HandedOut
  rw [hl]
  simp only [List.mem_range]
  constructor
  · intro h
    by_contra hm
    exact absurd (h m (by omega)) (Nat.lt_irrefl m)
  · intro h n hn
    omega

theorem Phase.handedOut_iff (h : Phase k c) (hr : c.reads < 2 ^ 32) :
    HandedOut k c.trace ↔ Ready k c := by
  rcases h with ⟨hI, -⟩ | ⟨hl, hrdy⟩
  · exact CIOCPServer.handedOut_iff (hI.seqs_eq hr)
  · exact ⟨fun _ => hrdy, fun _ => hl⟩

theorem Pc.wakes_eq_zero {pc : Pc} (h : pc.inReadLoop = false) : pc.wakes = 0 := by
  cases pc <;> first | rfl | cases h

theorem Pc.held_eq_none {pc : Pc} (h : pc.inReadLoop = false) : pc.held = none := by
  cases hheld : pc.held with
  | none => rfl
  | some p =>
      have hloop : pc.inReadLoop = true := by
        unfold Pc.inReadLoop
        split <;> simp_all
      rw [hloop] at h
      cases h

/-- A worker in the read loop handles one of the first `k` reads, whose workers have all left
the loop. -/
theorem not_inReadLoop (hI : InOrder (· < k) c) (hA : Awake c) (hr : c.reads < 2 ^ 32)
    (hleft : ∀ n < k, ∃ a ∈ c.calls, a.job.readSeq = some n ∧ a.pc.leftLoop = true) {x : Call}
    (hx : x ∈ c.calls) : x.pc.inReadLoop = false := by
  by_contra hne
  have hloop : x.pc.inReadLoop = true := by simpa using hne
  obtain ⟨b, t, e, hj, hop, ht, he⟩ := hA.loop x hx hloop
  have hk : b.no < k := ((hI.calls x hx).job b t e hj hop).2.mpr ⟨ht, he⟩
  obtain ⟨a, ha, hread, hleft⟩ := hleft b.no hk
  obtain ⟨b', t', e', hj', hop', hseq⟩ := readSeq_eq hread
  have hlt := hA.job_lt ha hj' hop'
  have hno : b'.no = b.no :=
    (seq_eq hop' ((hI.calls a ha).job b' t' e' hj' hop').1 (by omega)).symm.trans hseq
  obtain ⟨i, hi⟩ := List.mem_iff_getElem?.mp hx
  obtain ⟨j, hj₂⟩ := List.mem_iff_getElem?.mp ha
  obtain rfl := hA.job_unique hi hj₂ (n := b.no)
    (by simp [Call.jobNo, hj, Job.isNo, isNo_self hop])
    (by simp [Call.jobNo, hj', Job.isNo, ← hno, isNo_self hop'])
  obtain rfl := Option.some.inj (hi.symm.trans hj₂)
  simp [Pc.leftLoop, hloop] at hleft

/-- When the earlier completions have been handled, the counter has come to `k`: a read that
was not handed out would be in the hands of a worker in the read loop, or parked with such a
worker about to test the head. -/
theorem InOrder.ready_of_earlierHandled (hI : InOrder (· < k) c) (hA : Awake c)
    (hr : c.reads < 2 ^ 32) (h : EarlierHandled k c) : Ready k c := by
  rcases h with hleft | ⟨a, ha, hstarted, p, hp, hseq⟩
  · by_contra hlt
    have hd : c.delivered < k := by
      unfold Ready at hlt
      omega
    -- the next read was completed, and is not in flight
    obtain ⟨a, ha, hread, hout⟩ := hleft c.delivered hd
    obtain ⟨b, t, e, hj, hop, hbseq⟩ := readSeq_eq hread
    have hposted := hA.job_lt ha hj hop
    have hno : b.no = c.delivered :=
      (seq_eq hop ((hI.calls a ha).job b t e hj hop).1 (by omega)).symm.trans hbseq
    have hja : Call.jobNo c.delivered a = 1 := by
      simp [Call.jobNo, hj, Job.isNo, ← hno, isNo_self hop]
    have hjobs := hA.jobs c.delivered
    have hge := weight_pos (f := Call.jobNo c.delivered) ha
    rw [if_pos (by omega)] at hjobs
    have honce := hI.once c.delivered hd
    rw [if_pos ⟨Nat.le_refl _, by omega⟩] at honce
    -- nobody is in the read loop, so nobody holds it, and it is not parked
    have hwakes : weight Call.wakes c.calls = 0 := weight_eq_zero.mpr fun x hx =>
      Pc.wakes_eq_zero (not_inReadLoop hI hA hr hleft hx)
    have hcarried : weight (Call.carries c.delivered) c.calls = 0 :=
      weight_eq_zero.mpr fun x hx => by
        by_contra hne
        have hheld := Pc.held_eq_none (not_inReadLoop hI hA hr hleft hx)
        simp only [Call.carries, hheld, heldNo, Nat.add_zero] at hne
        split at hne
        · rename_i hearly
          obtain ⟨i, hi⟩ := List.mem_iff_getElem?.mp ha
          obtain ⟨j, hj'⟩ := List.mem_iff_getElem?.mp hx
          obtain rfl := hA.job_unique hi hj' (n := c.delivered) (by omega)
            (Nat.pos_of_ne_zero hne)
          obtain rfl := Option.some.inj (hi.symm.trans hj')
          simp [Pc.leftLoop, hearly] at hout
        · exact hne rfl
    have hwake := hA.wake
    simp only [tally] at honce
    omega
  · obtain ⟨hop, hst, -, hno⟩ := (hI.calls a ha).held p hp
    have hge := weight_pos (f := fun a : Call => a.pc.started) ha
    have hlt := hI.logged_lt
    have hseq' := seq_eq hop hst (by omega)
    simp only [Ready, startedCalls] at hlt ⊢
    omega

theorem Phase.ready_of_earlierHandled (h : Phase k c) (hr : c.reads < 2 ^ 32)
    (he : EarlierHandled k c) : Ready k c := by
  rcases h with ⟨hI, hA⟩ | ⟨-, hrdy⟩
  · exact hI.ready_of_earlierHandled hA hr he
  · exact hrdy

theorem openStep_of_peerClosesAt (hI : InOrder (· < k) c) (hA : Awake c) (hr : c.reads < 2 ^ 32)
    (hdata : PeerClosesAt k c act)
    (hopen : ∀ i ch a, act = .step i ch → c.calls[i]? = some a → a.pc.closes = false) :
    OpenStep (· < k) c act where
  data := fun i d e b hact hb hop => by
    subst hact
    have hmem : b ∈ c.inFlight := List.mem_of_getElem? hb
    have hlt : b.no < c.reads := by
      have h1 := weight_pos (f := isNo b.no) hmem
      have h2 := hA.jobs b.no
      rw [isNo_self hop] at h1
      by_contra hn
      rw [if_neg hn] at h2
      omega
    have hseq := seq_eq hop (hI.posted b hmem) (by omega)
    rw [← hseq]
    exact hdata b hb hop
  open_ := fun i ch a hact ha k' hk => by
    have := hopen i ch a hact ha
    rw [hk] at this
    cases this
  window := by omega

theorem Phase.step (h : Phase k c) (hr : c.reads < 2 ^ 32) (hdata : PeerClosesAt k c act)
    (hseq : InSequence k c act) (hs : c.step cfg act = some d) : Phase k d := by
  have hlater : HandedOut k c.trace → Ready k c → Phase k d := by
    intro hl hrdy
    refine .inr ⟨?_, Nat.le_trans hrdy (step_progress hs)⟩
    rcases step_closing hs with ht | ⟨e, ht, -⟩ <;> rw [ht]
    · exact hl
    · exact hl.append [e]
  by_cases hclose : ∃ i ch a, act = .step i ch ∧ c.calls[i]? = some a ∧ a.pc.closes = true
  · obtain ⟨i, ch, a, rfl, ha, hc⟩ := hclose
    have hrdy := h.ready_of_earlierHandled hr (hseq a ha (by simp [hc]))
    exact hlater ((h.handedOut_iff hr).mpr hrdy) hrdy
  · rcases h with ⟨hI, hA⟩ | ⟨hl, hrdy⟩
    · have hok := openStep_of_peerClosesAt hI hA hr hdata fun i ch a hact ha => by
        by_contra hne
        exact hclose ⟨i, ch, a, hact, ha, by simpa using hne⟩
      exact .inl ⟨hI.step hok hs, hA.step cfg hI hr hs⟩
    · exact hlater hl hrdy

/-- When all is handled, an open connection has delivered what was posted. -/
theorem InOrder.delivered_all (hI : InOrder (· < k) c) (hA : Awake c) (hall : AllHandled c)
    {n : Nat} (hk : n < k) (hr : n < c.reads) : n < c.delivered := by
  by_contra hn
  have ho := hI.once c.delivered (show c.delivered < k by omega)
  rw [if_pos ⟨Nat.le_refl _, by omega⟩] at ho
  have hcalls : ∀ f : Call → Nat, (∀ job, f ⟨job, .returned⟩ = 0) → weight f c.calls = 0 := by
    intro f hf
    refine weight_eq_zero.mpr fun a ha => ?_
    obtain ⟨job, pc⟩ := a
    obtain rfl : pc = .returned := hall.2 _ ha
    exact hf job
  have hw := hA.wake
  rw [hcalls Call.wakes fun _ => rfl] at hw
  have hc := hcalls (Call.carries c.delivered) fun _ => rfl
  have hp := Nat.le_zero.mp hw
  simp [tally, hall.1, hc, hp] at ho

theorem graceful_invariants {sock : SOCKET} {b : CIOCPBuffer}
    (hrun : Via (Conn.step cfg) (fun c act => PeerClosesAt k c act ∧ InSequence k c act)
      (Conn.init sock b) c) :
    c.reads < 2 ^ 32 → Phase k c ∧ ClosingAfter k c.trace := by
  refine hrun.invariant (P := fun c => c.reads < 2 ^ 32 → Phase k c ∧ ClosingAfter k c.trace)
    (fun _ => ⟨.inl ⟨.init sock b, .init sock b⟩, fun l₁ l₂ hl => ?_⟩)
    fun t act u ih hok hs hr => ?_
  · exact absurd hl (by simp [Conn.init])
  · have hle := reads_mono cfg hs
    obtain ⟨hP, hC⟩ := ih (by omega)
    refine ⟨hP.step (by omega) hok.1 hok.2 hs, ?_⟩
    rcases step_closing hs with ht | ⟨e, ht, he⟩ <;> rw [ht]
    · exact hC
    · refine hC.append fun hcl => (hP.handedOut_iff (by omega)).mpr ?_
      obtain ⟨i, ch, a, rfl, ha, hnot⟩ := he hcl
      exact hP.ready_of_earlierHandled (by omega) (hok.2 a ha (by simp [hnot]))

/-- **Graceful close.**  On every run on which the data of the connection ends
at read `k` and nobody notifies or closes while the completion of an earlier
read is being handled, the reads before `k` are passed to `OnReadCompleted`
before `OnConnectionClosing` is called, and all of them are once all
completions have been handled.  The counter tells when: the reads before `k`
have been handed out if and only if it has come to `k`. -/
theorem graceful_close {sock : SOCKET} {b : CIOCPBuffer}
    (hrun : Via (Conn.step cfg) (fun c act => PeerClosesAt k c act ∧ InSequence k c act)
      (Conn.init sock b) c) (hn : c.reads < 2 ^ 32) :
    ClosingAfter k c.trace ∧
    (AllHandled c → ∀ n < k, n < c.reads → n ∈ (readLog c.trace).map CIOCPBuffer.seq) ∧
    (HandedOut k c.trace ↔ Ready k c) := by
  obtain ⟨hP, hC⟩ := graceful_invariants hrun hn
  refine ⟨hC, fun hall n hk hr => ?_, hP.handedOut_iff hn⟩
  rcases hP with ⟨hI, hA⟩ | ⟨hl, -⟩
  · rw [hI.seqs_eq hn, List.mem_range]
    have := hI.delivered_all hA hall hk hr
    omega
  · exact hl n hk

end

/-! ## The overtaken read -/

/-- Read `0` carries data and read `1` the close.  The worker of `1` is first:
it notifies and closes, and the worker of `0` drops its data. -/
def overtaking : List Action :=
  smooth 0 16 100 ++ [.dequeue 0 [104, 105] noError] ++ smooth 1 4 0 ++
  [.dequeue 1 [] noError] ++ smooth 2 7 0 ++ [.dequeue 0 [48] noError] ++ smooth 3 5 0

/-- The peer sent a byte and closed; all is handled, the application was told
of the close and never got the byte. -/
theorem overtaken :
    ∃ c, Via (Conn.step twoReads) (PeerClosesAt 1) (Conn.init 7 firstData) c ∧
      AllHandled c ∧ .closing ∈ c.trace ∧ 0 < c.reads ∧
      0 ∉ (readLog c.trace).map CIOCPBuffer.seq :=
  exists_via_of_execIf overtaking (by unfold AllHandled; decide +kernel)

/-- The same completions with the reads handled in their order. -/
def inTurn : List Action :=
  smooth 0 16 100 ++ [.dequeue 0 [104, 105] noError] ++ smooth 1 4 0 ++
  [.dequeue 0 [48] noError] ++ smooth 2 14 200 ++ [.dequeue 0 [] noError] ++ smooth 3 7 0

theorem graceful_close_inTurn :
    ∃ c, Via (Conn.step twoReads) (fun c act => PeerClosesAt 1 c act ∧ InSequence 1 c act)
        (Conn.init 7 firstData) c ∧
      .closing ∈ c.trace ∧ ClosingAfter 1 c.trace := by
  have h : ∃ c, Via (Conn.step twoReads) (fun c act => PeerClosesAt 1 c act ∧ InSequence 1 c act)
      (Conn.init 7 firstData) c ∧ .closing ∈ c.trace ∧ c.reads < 2 ^ 32 :=
    exists_via_of_execIf inTurn (by decide +kernel)
  obtain ⟨c, hrun, hcl, hn⟩ := h
  exact ⟨c, hrun, hcl, (graceful_close hrun hn).1⟩

end CppWorkspace.CIOCPServer
