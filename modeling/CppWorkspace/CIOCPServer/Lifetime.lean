/-
# `CppWorkspace.CIOCPServer.Lifetime` — when `ReleaseContext` is called

The life of a context ends at a test of its two counters.  What the counters
mean is an account of operations (`Lifetime.recv`, `Lifetime.send`):

    nOutstandingRecv            =  reads in flight   +  read completions not counted down
    nOutstandingSend + pending  =  writes in flight  +  write completions not counted down

where `pending` is the number of `PostSend` calls that have issued `WSASend`
and have not counted it.  So two zero counters say nothing about the workers
that HAVE counted their completion down, and nothing about a send that was
posted a moment ago.  Two completions of one connection are enough for a
second `ReleaseContext` (`released_twice`): both workers leave the first
critical section before either of them tests.

`Alone` is the condition on the passing test; under it the release is safe,
and without it it is not (`released_alone_iff`).
-/
import CppWorkspace.CIOCPServer.Connection

namespace CppWorkspace.CIOCPServer

open Runs Weights

/-! ## The account of the counters -/

/-- `1` if the operation is of this kind. -/
def isOp (op : Operation) (b : CIOCPBuffer) : Nat := if b.nOperation = op then 1 else 0

/-- The call has a completion of this kind that it has not counted down. -/
def Call.entering (op : Operation) (a : Call) : Nat :=
  match a.pc, a.job with
  | .enter, .io b _ _ => isOp op b
  | _, _ => 0

/-- The call stands between `WSASend` and the counting of the send. -/
def Call.uncounted (a : Call) : Nat :=
  match a.pc with
  | .countSend .. => 1
  | _ => 0

/-- The positions from which a call may come to the counter test. -/
def Pc.testing : Pc → Bool
  | .enter | .testClosing | .notify | .unlink .test | .close .test | .testCounters => true
  | _ => false

/-- The positions of an accept whose context nobody else knows and may never know. -/
def Pc.rejecting : Pc → Bool
  | .add | .unlink .release | .close .release => true
  | _ => false

/-- What is known of one call. -/
structure CallLife (k : Core) (a : Call) : Prop where
  /-- the test is made for completed reads and writes only -/
  testing : a.pc.testing = true → ∃ b t e, a.job = .io b t e ∧ b.nOperation ≠ .opAccept
  /-- and after the socket was closed -/
  closed : a.pc = .testCounters → k.sockOpen = false
  release : a.pc = .release → 0 < k.released
  gone : 0 < k.released →
    a.uncounted = 0 ∧ (a.inside = true → a.pc = .release ∨ a.pc = .finish)

/-- The counters of a connection are the operations and the calls that they stand for. -/
structure Lifetime (c : Conn) : Prop where
  recv : c.ctx.nOutstandingRecv
    = (weight (isOp .opRead) c.inFlight + weight (Call.entering .opRead) c.calls : Nat)
  send : c.ctx.nOutstandingSend + (weight Call.uncounted c.calls : Nat)
    = (weight (isOp .opWrite) c.inFlight + weight (Call.entering .opWrite) c.calls : Nat)
  posted : ∀ b ∈ c.inFlight, b.nOperation ≠ .opAccept
  sock : c.ctx.s = c.sock ∨ c.sockOpen = false
  closing : c.ctx.bClosing = true → c.sockOpen = false
  calls : ∀ a ∈ c.calls, CallLife c.toCore a
  fresh : (∃ a ∈ c.calls, a.pc.rejecting = true) →
    c.calls.length = 1 ∧ c.inFlight = [] ∧ c.released = 0 ∧ c.known = false
  gone : 0 < c.released → c.inFlight = [] ∧ c.sockOpen = false ∧ c.released = 1

/-! ## What a step of a call does to the account -/

/-- The parts of the shared state that the life of the context depends on. -/
structure SameLife (k k' : Core) : Prop where
  s : k'.ctx.s = k.ctx.s
  bClosing : k'.ctx.bClosing = k.ctx.bClosing
  recv : k'.ctx.nOutstandingRecv = k.ctx.nOutstandingRecv
  send : k'.ctx.nOutstandingSend = k.ctx.nOutstandingSend
  sock : k'.sock = k.sock
  sockOpen : k'.sockOpen = k.sockOpen
  inFlight : k'.inFlight = k.inFlight
  released : k'.released = k.released

theorem SameLife.refl (k : Core) : SameLife k k := ⟨rfl, rfl, rfl, rfl, rfl, rfl, rfl, rfl⟩

theorem SameLife.log (k : Core) (e : Event) : SameLife k (k.log e) :=
  ⟨rfl, rfl, rfl, rfl, rfl, rfl, rfl, rfl⟩

theorem SameLife.notify (k : Core) (e : Event) : SameLife k (k.notify e) := by
  unfold Core.notify
  split
  · exact .refl k
  · exact ⟨rfl, rfl, rfl, rfl, rfl, rfl, rfl, rfl⟩

/-- The positions whose step changes the account. -/
def Pc.lively : Pc → Bool
  | .enter | .close _ | .testCounters | .release | .wsaSend .. | .countSend .. | .recv .. => true
  | _ => false

section
variable (cfg : Config) (ch : Choice) (k : Core) (job : Job) {pc : Pc}

theorem stepCall_sameLife (h : pc.lively = false) : SameLife k (stepCall cfg ch k job pc).1 := by
  cases pc with
  | enter | close a | testCounters | release | wsaSend a b ts | countSend a ts | recv a addr =>
      cases h
  | testClosing =>
      simp only [stepCall]
      split
      · exact .refl k
      · rcases dispatch_core cfg k job with hd | hd <;> rw [hd]
        · exact .refl k
        · exact .log k _
  | notify => exact .notify k _
  | insert =>
      cases job with
      | io b t e => exact ⟨rfl, rfl, rfl, rfl, rfl, rfl, rfl, rfl⟩
      | accept b | app => exact .refl k
  | headTest =>
      simp only [stepCall]
      rcases takeHead_eq k.ctx with ht | ⟨p, rest, -, -, ht⟩ <;> rw [ht]
      · exact .refl k
      · exact ⟨rfl, rfl, rfl, rfl, rfl, rfl, rfl, rfl⟩
  | increment p => exact ⟨rfl, rfl, rfl, rfl, rfl, rfl, rfl, rfl⟩
  | unlink a | finish | compare | call p | drop p | alloc a | add | keepAlive | returned
  | throttle a b ts | ioctl =>
      simp only [stepCall]
      repeat' split
      all_goals first | exact .refl k | exact .log k _
  | send a ts =>
      cases ts with
      | nil => exact .refl k
      | cons t ts =>
          simp only [stepCall]
          repeat' split
          all_goals first | exact .refl k | exact .log k _
  | reads left => cases left <;> exact .refl k

/-- Only `CloseAConnection` and `ReleaseContext` touch the socket. -/
theorem stepCall_socket (hc : pc.closes = false) (hr : pc ≠ .release) :
    let k' := (stepCall cfg ch k job pc).1
    k'.ctx.s = k.ctx.s ∧ k'.sock = k.sock ∧ k'.sockOpen = k.sockOpen := by
  intro k'
  by_cases hl : pc.lively = true
  · simp only [k']
    cases pc with
    | close a => cases hc
    | release => exact absurd rfl hr
    | enter =>
        cases job with
        | io b t e => cases hop : b.nOperation <;> simp [stepCall, hop, CIOCPContext.countDown]
        | accept b | app => exact ⟨rfl, rfl, rfl⟩
    | testCounters | wsaSend a b ts | recv a addr =>
        simp only [stepCall]
        split <;> exact ⟨rfl, rfl, rfl⟩
    | countSend a ts => exact ⟨rfl, rfl, rfl⟩
    | _ => cases hl
  · have h := stepCall_sameLife cfg ch k job (by simpa using hl)
    exact ⟨h.s, h.sock, h.sockOpen⟩

/-- Where a step may lead, as far as the life of the context is concerned. -/
structure Next (cfg : Config) (ch : Choice) (k : Core) (pc pc' : Pc) : Prop where
  enter : pc' ≠ .enter
  uncounted : ∀ a ts, pc' = .countSend a ts →
    ∃ b, pc = .wsaSend a b ts ∧ k.accepts ch.ok = true
  testing : pc'.testing = true → pc.testing = true
  rejecting : pc'.rejecting = true → pc = .add ∨ pc = .unlink .release
  tested : pc' = .testCounters → (pc = .testClosing ∧ k.ctx.bClosing = true) ∨ pc = .close .test
  release : pc' = .release →
    pc = .close .release ∨ (pc = .testCounters ∧ k.ctx.nothingOutstanding = true)
  leaving : pc = .release ∨ pc = .finish → pc' = .finish ∨ pc' = .returned

theorem stepCall_next : Next cfg ch k pc (stepCall cfg ch k job pc).2 := by
  cases pc with
  | testClosing =>
      simp only [stepCall]
      split
      · rename_i h
        constructor <;> simp_all [Pc.testing, Pc.rejecting]
      · unfold dispatch
        repeat' split
        all_goals constructor <;> simp_all [Pc.testing, Pc.rejecting]
  | send a ts =>
      cases ts with
      | nil =>
          cases a <;> constructor <;> simp [stepCall, afterSend, Pc.testing, Pc.rejecting]
      | cons t ts =>
          simp only [stepCall]
          repeat' split
          all_goals constructor <;> simp_all [Pc.testing, Pc.rejecting]
  | close a =>
      cases a <;> cases job <;> constructor <;>
        simp [stepCall, afterClose, Pc.testing, Pc.rejecting]
  | reads left => cases left <;> constructor <;> simp [stepCall, Pc.testing, Pc.rejecting]
  | unlink a => cases a <;> constructor <;> simp [stepCall, Pc.testing, Pc.rejecting]
  | headTest =>
      simp only [stepCall]
      rcases takeHead_eq k.ctx with ht | ⟨p, rest, -, -, ht⟩ <;> rw [ht] <;> constructor <;>
        simp [Pc.testing, Pc.rejecting]
  | alloc a =>
      simp only [stepCall]
      cases ch.addr <;> cases a <;> constructor <;> simp [afterNoBuffer, Pc.testing, Pc.rejecting]
  | recv a addr =>
      simp only [stepCall]
      cases a <;> split <;> constructor <;> simp_all [afterRecv, Pc.testing, Pc.rejecting]
  | enter | notify | testCounters | release | finish | compare | insert | call p
  | throttle a b ts | wsaSend a b ts | countSend a ts | increment p | drop p | add | keepAlive
  | ioctl | returned =>
      simp only [stepCall]
      repeat' split
      all_goals constructor <;> simp_all [Pc.testing, Pc.rejecting]

end

section
variable {c : Conn} {i : Nat} {a : Call}

/-- As long as nothing is released that was not, what is known of a call stays
known when the shared state moves on. -/
theorem CallLife.mono {k k' : Core} (h : CallLife k a)
    (hs : k.sockOpen = false → k'.sockOpen = false) (hr : k'.released = k.released) :
    CallLife k' a where
  testing := h.testing
  closed := fun hp => hs (h.closed hp)
  release := fun hp => hr ▸ h.release hp
  gone := fun hp => h.gone (hr ▸ hp)

/-- A call between its completion and the entry is a call inside `HandleIO`. -/
theorem inside_of_entering {op : Operation} (h : 0 < a.entering op) :
    a.pc = .enter ∧ a.inside = true := by
  obtain ⟨job, pc⟩ := a
  cases pc <;> cases job <;> simp_all [Call.entering, Call.inside]

theorem entering_eq_zero {op : Operation} (h : a.pc ≠ .enter) : a.entering op = 0 := by
  by_contra hne
  exact h (inside_of_entering (Nat.pos_of_ne_zero hne)).1

theorem uncounted_eq_zero (h : ∀ b ts, a.pc ≠ .countSend b ts) : a.uncounted = 0 := by
  obtain ⟨job, pc⟩ := a
  cases pc <;> simp_all [Call.uncounted]

/-- The only call of a rejected connection is the one that rejects it. -/
theorem Lifetime.fresh_of_get (h : Lifetime c) (ha : c.calls[i]? = some a)
    (hp : a.pc.rejecting = true) : c.calls = [a] ∧ i = 0 := by
  have hl := (h.fresh ⟨a, List.mem_of_getElem? ha, hp⟩).1
  obtain ⟨x, hx⟩ := List.length_eq_one_iff.mp hl
  rw [hx] at ha ⊢
  cases i with
  | zero => simp_all
  | succ i => simp at ha

/-- A step of call `i`, account by account: `o` stands for what the other calls
contribute. -/
theorem Lifetime.moved (h : Lifetime c) (ha : c.calls[i]? = some a) {r : Core × Pc}
    (hlast : r.2 ≠ .enter) (hfresh : r.2.rejecting = false)
    (hcalls : ∀ x ∈ (c.become i a r).calls, CallLife r.1 x)
    (recv : ∀ o, c.ctx.nOutstandingRecv
        = (weight (isOp .opRead) c.inFlight + (a.entering .opRead + o) : Nat) →
      r.1.ctx.nOutstandingRecv = (weight (isOp .opRead) r.1.inFlight + o : Nat))
    (send : ∀ o u, c.ctx.nOutstandingSend + (a.uncounted + u : Nat)
        = (weight (isOp .opWrite) c.inFlight + (a.entering .opWrite + o) : Nat) →
      r.1.ctx.nOutstandingSend + (Call.uncounted { a with pc := r.2 } + u : Nat)
        = (weight (isOp .opWrite) r.1.inFlight + o : Nat))
    (posted : ∀ b ∈ r.1.inFlight, b.nOperation ≠ .opAccept)
    (sock : r.1.ctx.s = r.1.sock ∨ r.1.sockOpen = false)
    (closing : r.1.ctx.bClosing = true → r.1.sockOpen = false)
    (gone : 0 < r.1.released → r.1.inFlight = [] ∧ r.1.sockOpen = false ∧ r.1.released = 1) :
    Lifetime (c.become i a r) where
  recv := by
    obtain ⟨o, h₁, h₂⟩ := Conn.weight_become (Call.entering .opRead) r ha
    have hrecv := h.recv
    rw [h₁] at hrecv
    rw [h₂, entering_eq_zero hlast, Nat.zero_add]
    exact recv o hrecv
  send := by
    obtain ⟨o, h₁, h₂⟩ := Conn.weight_become (Call.entering .opWrite) r ha
    obtain ⟨u, h₃, h₄⟩ := Conn.weight_become Call.uncounted r ha
    have hsend := h.send
    rw [h₁, h₃] at hsend
    rw [h₂, h₄, entering_eq_zero hlast, Nat.zero_add]
    exact send o u hsend
  posted := posted
  sock := sock
  closing := closing
  calls := hcalls
  fresh := by
    rintro ⟨x, hx, hp⟩
    rcases Conn.mem_become hx with hx' | rfl
    · obtain ⟨j, hj⟩ := List.mem_iff_getElem?.mp hx'
      obtain ⟨hc, rfl⟩ := h.fresh_of_get hj hp
      -- the stepping call is the only one, so `x` is what it has become
      obtain rfl := List.mem_singleton.mp (hc ▸ List.mem_of_getElem? ha)
      have hi := (h.fresh_of_get ha hp).2
      subst hi
      simp only [Conn.become, hc, List.set_cons_zero, List.mem_singleton] at hx
      rw [hx] at hp
      rw [hfresh] at hp
      cases hp
    · rw [hfresh] at hp
      cases hp
  gone := gone

theorem CallLife.next {cfg : Config} {ch : Choice} {k' : Core} (h : CallLife c.toCore a)
    {pc : Pc} (hn : Next cfg ch c.toCore a.pc pc) (hret : a.pc ≠ .returned)
    (hr : k'.released = c.released)
    (hclose : a.pc = .testClosing → c.ctx.bClosing = true → k'.sockOpen = false)
    (hclose' : a.pc = .close .test → k'.sockOpen = false)
    (hrel : pc = .release → 0 < k'.released)
    (hopen : 0 < c.released → c.sockOpen = false) : CallLife k' { a with pc := pc } where
  testing := fun hp => h.testing (hn.testing hp)
  closed := fun hp => (hn.tested hp).elim (fun ht => hclose ht.1 ht.2) hclose'
  release := hrel
  gone := fun hp => by
    rw [hr] at hp
    refine ⟨uncounted_eq_zero fun b ts he => ?_, fun hin => ?_⟩
    · obtain ⟨b', -, hacc⟩ := hn.uncounted b ts he
      simp [Core.accepts, hopen hp] at hacc
    · have hin' : a.inside = true := by
        cases hj : a.job with
        | io b t e => simpa [Call.inside, hj] using hret
        | accept b | app => simp [Call.inside, hj] at hin
      rcases hn.leaving ((h.gone hp).2 hin') with he | he
      · exact .inr he
      · cases hj : a.job <;> simp [Call.inside, he, hj] at hin

/-! ## One step -/

theorem Lifetime.quiet (h : Lifetime c) (ha : c.calls[i]? = some a) {cfg : Config} {ch : Choice}
    {r : Core × Pc} (hret : a.pc ≠ .returned) (hn : Next cfg ch c.toCore a.pc r.2)
    (hk : SameLife c.toCore r.1)
    (hrej : r.2.rejecting = false) (hent : a.entering .opRead = 0 ∧ a.entering .opWrite = 0)
    (hunc : Call.uncounted { a with pc := r.2 } = a.uncounted)
    (hclose : a.pc ≠ .close .test) (hrel : r.2 ≠ .release) :
    Lifetime (c.become i a r) := by
  refine h.moved ha hn.enter hrej (fun x hx => ?_) (fun o ho => ?_) (fun o u ho => ?_) ?_ ?_ ?_ ?_
  · rcases Conn.mem_become hx with hx | rfl
    · exact (h.calls x hx).mono (fun hs => hk.sockOpen.trans hs) hk.released
    · exact (h.calls a (List.mem_of_getElem? ha)).next hn hret hk.released
        (fun _ hb => hk.sockOpen.trans (h.closing hb)) (fun hp => absurd hp hclose)
        (fun hp => absurd hp hrel) (fun hp => (h.gone hp).2.1)
  · rw [hk.recv, hk.inFlight]
    omega
  · rw [hk.send, hk.inFlight]
    omega
  · rw [hk.inFlight]
    exact h.posted
  · rw [hk.s, hk.sock, hk.sockOpen]
    exact h.sock
  · rw [hk.bClosing, hk.sockOpen]
    exact h.closing
  · rw [hk.released, hk.inFlight, hk.sockOpen]
    exact h.gone

theorem Lifetime.reject (h : Lifetime c) (ha : c.calls[i]? = some a)
    (hp : a.pc.rejecting = true) {pc : Pc} (hpc : pc = .unlink .release ∨ pc = .close .release) :
    Lifetime (c.become i a (c.toCore, pc)) := by
  obtain ⟨hc, rfl⟩ := h.fresh_of_get ha hp
  obtain ⟨-, hf, hr, hk⟩ := h.fresh ⟨a, List.mem_of_getElem? ha, hp⟩
  have hcalls : (c.become 0 a (c.toCore, pc)).calls = [{ a with pc := pc }] := by
    simp [Conn.become, hc]
  have hold : a.entering .opRead = 0 ∧ a.entering .opWrite = 0 ∧ a.uncounted = 0 := by
    refine ⟨entering_eq_zero ?_, entering_eq_zero ?_, uncounted_eq_zero fun b ts he => ?_⟩
    · intro he; rw [he] at hp; cases hp
    · intro he; rw [he] at hp; cases hp
    · rw [he] at hp; cases hp
  have hrecv := h.recv
  have hsend := h.send
  simp only [hc, weight_cons, weight_nil, hold] at hrecv hsend
  have hnew : ∀ op, Call.entering op { a with pc := pc } = 0 := fun op =>
    entering_eq_zero (by rcases hpc with rfl | rfl <;> simp)
  have hnew' : Call.uncounted { a with pc := pc } = 0 :=
    uncounted_eq_zero (by rcases hpc with rfl | rfl <;> simp)
  refine ⟨?_, ?_, h.posted, h.sock, h.closing, fun x hx => ?_, fun _ => ?_, h.gone⟩
  · rw [hcalls]
    simp only [weight_cons, weight_nil, hnew]
    exact hrecv
  · rw [hcalls]
    simp only [weight_cons, weight_nil, hnew, hnew']
    exact hsend
  · rw [hcalls] at hx
    obtain rfl := List.mem_singleton.mp hx
    have hr' : ¬ 0 < (c.become 0 a (c.toCore, pc)).released := by
      show ¬ 0 < c.released
      omega
    exact ⟨by rcases hpc with rfl | rfl <;> simp [Pc.testing],
      by rcases hpc with rfl | rfl <;> simp, by rcases hpc with rfl | rfl <;> simp,
      fun h0 => absurd h0 hr'⟩
  · exact ⟨by rw [hcalls]; rfl, hf, hr, hk⟩

/-- Nothing is in flight when both counters are zero and no send is uncounted. -/
theorem Lifetime.nothing_inFlight (h : Lifetime c) (hz : c.ctx.nothingOutstanding = true)
    (hu : weight Call.uncounted c.calls = 0) :
    c.inFlight = [] ∧ (∀ op, op ≠ .opAccept → weight (Call.entering op) c.calls = 0) := by
  simp only [CIOCPContext.nothingOutstanding, Bool.and_eq_true, beq_iff_eq] at hz
  have hrecv := h.recv
  have hsend := h.send
  rw [hz.1] at hrecv
  rw [hz.2, hu] at hsend
  refine ⟨?_, fun op hop => ?_⟩
  · cases hf : c.inFlight with
    | nil => rfl
    | cons b l =>
        have hb : b ∈ c.inFlight := by rw [hf]; exact List.mem_cons_self
        have hop := h.posted b hb
        cases hcase : b.nOperation with
        | opAccept => exact absurd hcase hop
        | opRead =>
            have := weight_pos (f := isOp .opRead) hb
            have hone : isOp .opRead b = 1 := by simp [isOp, hcase]
            omega
        | opWrite =>
            have := weight_pos (f := isOp .opWrite) hb
            have hone : isOp .opWrite b = 1 := by simp [isOp, hcase]
            omega
  · cases op with
    | opAccept => exact absurd rfl hop
    | opRead => omega
    | opWrite => omega

/-! ## The condition, and what it is equivalent to -/

/-- The call has counted its completion down and not returned, or has a send
that it has not counted. -/
def Call.exposed (a : Call) : Bool :=
  (a.inside && a.pc != .enter) || a.uncounted != 0

/-- Whoever finds both counters zero is the only one at work: no other call of
`HandleIO` on this context is past its first critical section, and no
`PostSend` stands between `WSASend` and the counting of the send. -/
def Alone (c : Conn) : Action → Prop
  | .step i _ => ∀ a ∈ c.calls[i]?, a.pc = .testCounters → c.ctx.nothingOutstanding = true →
      ∀ x ∈ c.calls.eraseIdx i, x.exposed = false
  | _ => True

instance (c : Conn) : (act : Action) → Decidable (Alone c act)
  | .step i _ => inferInstanceAs (Decidable (∀ a ∈ c.calls[i]?, a.pc = .testCounters →
      c.ctx.nothingOutstanding = true → ∀ x ∈ c.calls.eraseIdx i, x.exposed = false))
  | .dequeue .. | .sendText _ | .closeAConnection => inferInstanceAs (Decidable True)

/-- The calls that do not take this step. -/
def Conn.others (c : Conn) : Action → List Call
  | .step i _ => c.calls.eraseIdx i
  | _ => c.calls

/-- If this step calls `ReleaseContext`, it is the first to do so, nothing is in
flight, and no other worker is inside `HandleIO` with this context as its key. -/
def SafeRelease (cfg : Config) (c : Conn) (act : Action) : Prop :=
  ∀ d, c.step cfg act = some d → c.released < d.released →
    c.released = 0 ∧ c.inFlight = [] ∧ ∀ x ∈ c.others act, x.inside = false

/-- A call that comes to the counter test has a completion of this context. -/
theorem Lifetime.inside_of_testing (h : Lifetime c) (ha : a ∈ c.calls)
    (ht : a.pc.testing = true) : a.inside = true := by
  obtain ⟨b, t, e, hj, -⟩ := (h.calls a ha).testing ht
  have hpc : a.pc ≠ .returned := by
    intro he
    rw [he] at ht
    cases ht
  simpa [Call.inside, hj] using hpc

theorem weight_split (f : Call → Nat) (ha : c.calls[i]? = some a) :
    weight f c.calls = weight f (c.calls.eraseIdx i) + f a :=
  (weight_eraseIdx f ha).symm

theorem Lifetime.alone_at_test (h : Lifetime c) (ha : c.calls[i]? = some a)
    (hpc : a.pc = .testCounters) (hz : c.ctx.nothingOutstanding = true)
    (hx : ∀ x ∈ c.calls.eraseIdx i, x.exposed = false) :
    c.released = 0 ∧ c.inFlight = [] ∧
      ∀ x ∈ c.calls.eraseIdx i, x.inside = false ∧ x.uncounted = 0 := by
  have hmem := List.mem_of_getElem? ha
  have hin : a.inside = true := h.inside_of_testing hmem (by rw [hpc]; rfl)
  have hunc : ∀ x ∈ c.calls.eraseIdx i, x.uncounted = 0 := by
    intro x hx'
    have := hx x hx'
    simp only [Call.exposed, Bool.or_eq_false_iff, bne_eq_false_iff_eq] at this
    exact this.2
  have hu : weight Call.uncounted c.calls = 0 := by
    have h0 : a.uncounted = 0 := uncounted_eq_zero (by rw [hpc]; simp)
    have h1 := weight_eq_zero.mpr hunc
    have h2 := weight_split Call.uncounted ha
    omega
  obtain ⟨hf, hent⟩ := h.nothing_inFlight hz hu
  refine ⟨?_, hf, fun x hx' => ⟨?_, hunc x hx'⟩⟩
  · by_contra hr
    rcases ((h.calls a hmem).gone (Nat.pos_of_ne_zero hr)).2 hin with he | he <;>
      rw [hpc] at he <;> cases he
  · by_contra hne
    have hxin : x.inside = true := by simpa using hne
    have hex := hx x hx'
    have henter : x.pc = .enter := by
      simp only [Call.exposed, hxin, Bool.true_and, Bool.or_eq_false_iff,
        bne_eq_false_iff_eq] at hex
      exact hex.1
    -- a completion that is not counted down keeps a counter from being zero
    have hxm : x ∈ c.calls := List.mem_of_mem_eraseIdx hx'
    obtain ⟨b, t, e, hj, hop⟩ := (h.calls x hxm).testing (by rw [henter]; rfl)
    have hone : x.entering b.nOperation = 1 := by
      simp [Call.entering, henter, hj, isOp]
    have hpos := weight_pos (f := Call.entering b.nOperation) hxm
    have hzero := hent b.nOperation hop
    omega

/-- A passed test is safe only for a worker that is alone. -/
theorem Lifetime.exposed_of_safe (h : Lifetime c) (ha : c.calls[i]? = some a)
    (hpc : a.pc = .testCounters) (hz : c.ctx.nothingOutstanding = true)
    (hf : c.inFlight = []) (hx : ∀ x ∈ c.calls.eraseIdx i, x.inside = false) :
    ∀ x ∈ c.calls.eraseIdx i, x.exposed = false := by
  have hent : weight (Call.entering .opWrite) c.calls = 0 := by
    have h0 : a.entering .opWrite = 0 := entering_eq_zero (by rw [hpc]; simp)
    have h1 : weight (Call.entering .opWrite) (c.calls.eraseIdx i) = 0 := by
      refine weight_eq_zero.mpr fun x hx' => ?_
      by_contra hne
      have := (inside_of_entering (Nat.pos_of_ne_zero hne)).2
      rw [hx x hx'] at this
      cases this
    have h2 := weight_split (Call.entering .opWrite) ha
    omega
  have hsend := h.send
  simp only [CIOCPContext.nothingOutstanding, Bool.and_eq_true, beq_iff_eq] at hz
  rw [hz.2, hent, hf] at hsend
  simp only [weight_nil] at hsend
  intro x hx'
  have hpos := weight_pos (f := Call.uncounted) (List.mem_of_mem_eraseIdx hx')
  have hu : x.uncounted = 0 := by omega
  simp [Call.exposed, hx x hx', hu]

/-! ### The steps that change an account -/

theorem Lifetime.pass (h : Lifetime c) (ha : c.calls[i]? = some a)
    (hpc : a.pc = .testCounters) (hz : c.ctx.nothingOutstanding = true)
    (hx : ∀ x ∈ c.calls.eraseIdx i, x.exposed = false) :
    Lifetime (c.become i a ({ c.toCore with released := c.released + 1 }, .release)) := by
  have hmem := List.mem_of_getElem? ha
  obtain ⟨hr, hf, hothers⟩ := h.alone_at_test ha hpc hz hx
  have hclosed := (h.calls a hmem).closed hpc
  have hent : ∀ op, a.entering op = 0 := fun op => entering_eq_zero (by rw [hpc]; simp)
  have hunc : a.uncounted = 0 := uncounted_eq_zero (by rw [hpc]; simp)
  refine h.moved ha (by simp) rfl (fun x hx => ?_) (fun o ho => ?_) (fun o u ho => ?_) h.posted
    h.sock h.closing (fun _ => ⟨hf, hclosed, by simp [hr]⟩)
  · rcases Conn.others_become hx with hx | rfl
    · have hxm := h.calls x (List.mem_of_mem_eraseIdx hx)
      obtain ⟨hin, hu⟩ := hothers x hx
      exact ⟨hxm.testing, hxm.closed, fun _ => Nat.succ_pos _,
        fun _ => ⟨hu, fun hin' => by rw [hin] at hin'; cases hin'⟩⟩
    · exact ⟨by simp [Pc.testing], by simp, fun _ => Nat.succ_pos _,
        fun _ => ⟨rfl, fun _ => .inl rfl⟩⟩
  · rw [hent, Nat.zero_add] at ho
    exact ho
  · rw [hent, Nat.zero_add, hunc] at ho
    exact ho

theorem Lifetime.release (h : Lifetime c) (ha : c.calls[i]? = some a) (hpc : a.pc = .release) :
    Lifetime (c.become i a (c.toCore.release, .finish)) := by
  have hmem := List.mem_of_getElem? ha
  have hr := (h.calls a hmem).release hpc
  obtain ⟨hf, hclosed, hr1⟩ := h.gone hr
  have hnew : c.toCore.release.sockOpen = false := by simp [Core.release, hclosed]
  have hent : ∀ op, weight (Call.entering op) c.calls = 0 := fun op =>
    weight_eq_zero.mpr fun x hx => by
      by_contra hne
      obtain ⟨he, hin⟩ := inside_of_entering (Nat.pos_of_ne_zero hne)
      rcases ((h.calls x hx).gone hr).2 hin with he' | he' <;> rw [he] at he' <;>
        cases he'
  have hunc : weight Call.uncounted c.calls = 0 :=
    weight_eq_zero.mpr fun x hx => ((h.calls x hx).gone hr).1
  refine ⟨?_, ?_, ?_, .inr hnew, fun _ => hnew, fun x hx => ?_, ?_, fun _ => ⟨hf, hnew, hr1⟩⟩
  · obtain ⟨o, h₁, h₂⟩ := Conn.weight_become (Call.entering .opRead) (c.toCore.release, .finish) ha
    have hz : Call.entering .opRead { a with pc := .finish } = 0 := entering_eq_zero (by simp)
    have := hent .opRead
    rw [h₂, hz]
    have ho : o = 0 := by omega
    simp [Core.release, CIOCPContext.zeroed, CIOCPContext.allocated, hf, ho]
  · obtain ⟨o, h₁, h₂⟩ := Conn.weight_become (Call.entering .opWrite) (c.toCore.release, .finish) ha
    obtain ⟨u, h₃, h₄⟩ := Conn.weight_become Call.uncounted (c.toCore.release, .finish) ha
    have hz : Call.entering .opWrite { a with pc := .finish } = 0 := entering_eq_zero (by simp)
    have hz' : Call.uncounted { a with pc := .finish } = 0 := uncounted_eq_zero (by simp)
    have := hent .opWrite
    rw [h₂, h₄, hz, hz']
    have ho : o = 0 := by omega
    have hu : u = 0 := by omega
    simp [Core.release, CIOCPContext.zeroed, CIOCPContext.allocated, hf, ho, hu]
  · exact h.posted
  · rcases Conn.mem_become hx with hx | rfl
    · exact (h.calls x hx).mono (fun _ => hnew) rfl
    · exact ⟨by simp [Pc.testing], by simp, by simp, fun _ => ⟨rfl, fun _ => .inr rfl⟩⟩
  · rintro ⟨x, hx, hp⟩
    rcases Conn.mem_become hx with hx | rfl
    · have hr0 := (h.fresh ⟨x, hx, hp⟩).2.2.1
      omega
    · cases hp

/-- The second critical section of `CloseAConnection` closes the socket. -/
theorem Lifetime.closed (h : Lifetime c) : c.toCore.close.sockOpen = false := by
  rcases h.sock with hs | hs
  · simp [Core.close, hs]
  · simp [Core.close, hs]

theorem Lifetime.close (h : Lifetime c) (ha : c.calls[i]? = some a) {k : AfterClose}
    (hpc : a.pc = .close k) (cfg : Config) (ch : Choice) :
    Lifetime (c.become i a (stepCall cfg ch c.toCore a.job (.close k))) := by
  have hmem := List.mem_of_getElem? ha
  have hn : Next cfg ch c.toCore a.pc (stepCall cfg ch c.toCore a.job (.close k)).2 :=
    hpc ▸ stepCall_next cfg ch c.toCore a.job
  have hclosed := h.closed
  have hent : ∀ op, a.entering op = 0 := fun op => entering_eq_zero (by rw [hpc]; simp)
  have hunc : a.uncounted = 0 := uncounted_eq_zero (by rw [hpc]; simp)
  have hret : a.pc ≠ .returned := by rw [hpc]; simp
  have hunc' : Call.uncounted { a with pc := (stepCall cfg ch c.toCore a.job (.close k)).2 } = 0 :=
    uncounted_eq_zero fun b ts he => by
      obtain ⟨b', hb', -⟩ := hn.uncounted b ts he
      rw [hpc] at hb'
      cases hb'
  cases k with
  | release =>
      -- the rejected context: its only user lets go of it
      have hp : a.pc.rejecting = true := by rw [hpc]; rfl
      obtain ⟨hc, rfl⟩ := h.fresh_of_get ha hp
      obtain ⟨-, hf, hr, -⟩ := h.fresh ⟨a, hmem, hp⟩
      refine h.moved ha (by simp [stepCall]) rfl (fun x hx => ?_) (fun o ho => ?_)
        (fun o u ho => ?_) h.posted (.inr hclosed) (fun _ => hclosed)
        (fun _ => ⟨hf, hclosed, by simp [stepCall, hr]⟩)
      · simp only [Conn.become, hc, List.set_cons_zero, List.mem_singleton] at hx
        subst hx
        exact ⟨by simp [stepCall, Pc.testing], by simp [stepCall], fun _ => Nat.succ_pos _,
          fun _ => ⟨rfl, fun _ => .inl rfl⟩⟩
      · rw [hent, Nat.zero_add] at ho
        exact ho
      · rw [hent, hunc, Nat.zero_add, Nat.zero_add] at ho
        rw [hunc', Nat.zero_add]
        exact ho
  | test | leave =>
      refine h.moved ha hn.enter ?_ (fun x hx => ?_) (fun o ho => ?_)
        (fun o u ho => ?_) h.posted (.inr hclosed) (fun _ => hclosed)
        (fun hr => ⟨(h.gone hr).1, hclosed, (h.gone hr).2.2⟩)
      · cases a.job <;> rfl
      · rcases Conn.mem_become hx with hx | rfl
        · exact (h.calls x hx).mono (fun _ => hclosed) rfl
        · refine (h.calls a hmem).next hn hret rfl (fun _ _ => hclosed) (fun _ => hclosed)
            (fun he => ?_) (fun hr => (h.gone hr).2.1)
          rcases hn.release he with he' | ⟨he', -⟩ <;> rw [hpc] at he' <;> cases he'
      · rw [hent, Nat.zero_add] at ho
        exact ho
      · rw [hent, hunc, Nat.zero_add, Nat.zero_add] at ho
        rw [hunc', Nat.zero_add]
        exact ho

theorem Lifetime.enter (h : Lifetime c) (ha : c.calls[i]? = some a) (hpc : a.pc = .enter)
    (cfg : Config) (ch : Choice) :
    Lifetime (c.become i a (stepCall cfg ch c.toCore a.job .enter)) := by
  have hmem := List.mem_of_getElem? ha
  obtain ⟨b, t, e, hj, hop⟩ := (h.calls a hmem).testing (by rw [hpc]; rfl)
  have hent : ∀ op, a.entering op = isOp op b := fun op => by simp [Call.entering, hpc, hj]
  have hunc : a.uncounted = 0 := uncounted_eq_zero (by rw [hpc]; simp)
  have hn : Next cfg ch c.toCore a.pc (stepCall cfg ch c.toCore a.job .enter).2 :=
    hpc ▸ stepCall_next cfg ch c.toCore a.job
  have hcore : (stepCall cfg ch c.toCore a.job .enter).1
      = { c.toCore with ctx := c.ctx.countDown b.nOperation } := by simp [stepCall, hj]
  have hs : (c.ctx.countDown b.nOperation).s = c.ctx.s ∧
      (c.ctx.countDown b.nOperation).bClosing = c.ctx.bClosing := by
    cases b.nOperation <;> exact ⟨rfl, rfl⟩
  rw [show stepCall cfg ch c.toCore a.job .enter
    = ({ c.toCore with ctx := c.ctx.countDown b.nOperation }, .testClosing) by
      simp [stepCall, hj]]
  refine h.moved ha (by simp) rfl (fun x hx => ?_) (fun o ho => ?_) (fun o u ho => ?_) h.posted
    (by simpa [hs.1] using h.sock) (by simpa [hs.2] using h.closing) h.gone
  · rcases Conn.mem_become hx with hx | rfl
    · exact (h.calls x hx).mono (fun hs => hs) rfl
    · exact ⟨fun _ => ⟨b, t, e, hj, hop⟩, by simp, by simp, fun hr => by
        rcases ((h.calls a hmem).gone hr).2
          (h.inside_of_testing hmem (by rw [hpc]; rfl)) with he | he <;>
          rw [hpc] at he <;> cases he⟩
  · rw [hent] at ho
    cases hcase : b.nOperation <;>
      simp only [CIOCPContext.countDown, isOp, hcase, reduceCtorEq, if_true, if_false] at ho ⊢ <;>
      omega
  · rw [hent, hunc] at ho
    have hu : Call.uncounted { a with pc := .testClosing } = 0 := uncounted_eq_zero (by simp)
    rw [hu]
    cases hcase : b.nOperation <;>
      simp only [CIOCPContext.countDown, isOp, hcase, reduceCtorEq, if_true, if_false] at ho ⊢ <;>
      omega

/-- A post on the open socket: nothing has been released. -/
theorem Lifetime.not_released (h : Lifetime c) (ho : c.sockOpen = true) : c.released = 0 := by
  by_contra hr
  have := (h.gone (Nat.pos_of_ne_zero hr)).2.1
  rw [ho] at this
  cases this

theorem Lifetime.recv_accepted (h : Lifetime c) (ha : c.calls[i]? = some a) {k : Receiver}
    {addr : Nat} (hpc : a.pc = .recv k addr) (ho : c.sockOpen = true) :
    Lifetime (c.become i a (c.toCore.postRecv addr, afterRecv k)) := by
  have hr := h.not_released ho
  have hr' : ¬ 0 < (c.toCore.postRecv addr).released := by
    show ¬ 0 < c.released
    omega
  have hent : ∀ op, a.entering op = 0 := fun op => entering_eq_zero (by rw [hpc]; simp)
  have hunc : a.uncounted = 0 := uncounted_eq_zero (by rw [hpc]; simp)
  refine h.moved ha (by cases k <;> simp [afterRecv]) (by cases k <;> rfl) (fun x hx => ?_)
    (fun o ho => ?_) (fun o u ho => ?_) (fun b hb => ?_) h.sock h.closing
    (fun hp => absurd hp hr')
  · rcases Conn.mem_become hx with hx | rfl
    · exact (h.calls x hx).mono (fun hs => hs) rfl
    · exact ⟨by cases k <;> simp [afterRecv, Pc.testing], by cases k <;> simp [afterRecv],
        by cases k <;> simp [afterRecv], fun hp => absurd hp hr'⟩
  · rw [hent] at ho
    simp only [Core.postRecv, CIOCPContext.countRecv, weight_append, weight_cons, weight_nil]
    rw [ho]
    simp [isOp]
    omega
  · rw [hent, hunc] at ho
    have hu : Call.uncounted { a with pc := afterRecv k } = 0 :=
      uncounted_eq_zero (by cases k <;> simp [afterRecv])
    rw [hu]
    simp only [Core.postRecv, CIOCPContext.countRecv, weight_append, weight_cons, weight_nil]
    simp [isOp]
    omega
  · rcases List.mem_append.mp hb with hb | hb
    · exact h.posted b hb
    · obtain rfl := List.mem_singleton.mp hb
      simp

theorem Lifetime.wsaSend_accepted (h : Lifetime c) (ha : c.calls[i]? = some a) {k : Sender}
    {b : CIOCPBuffer} {ts : List Text} (hpc : a.pc = .wsaSend k b ts) (ho : c.sockOpen = true) :
    Lifetime (c.become i a (c.toCore.wsaSend b, .countSend k ts)) := by
  have hr := h.not_released ho
  have hr' : ¬ 0 < (c.toCore.wsaSend b).released := by
    show ¬ 0 < c.released
    omega
  have hent : ∀ op, a.entering op = 0 := fun op => entering_eq_zero (by rw [hpc]; simp)
  have hunc : a.uncounted = 0 := uncounted_eq_zero (by rw [hpc]; simp)
  refine h.moved ha (by simp) rfl (fun x hx => ?_)
    (fun o ho => ?_) (fun o u ho => ?_) (fun b hb => ?_) h.sock h.closing
    (fun hp => absurd hp hr')
  · rcases Conn.mem_become hx with hx | rfl
    · exact (h.calls x hx).mono (fun hs => hs) rfl
    · exact ⟨by simp [Pc.testing], by simp, by simp, fun hp => absurd hp hr'⟩
  · rw [hent] at ho
    simp only [Core.wsaSend, weight_append, weight_cons, weight_nil]
    rw [ho]
    simp [isOp]
  · rw [hent, hunc] at ho
    simp only [Core.wsaSend, weight_append, weight_cons, weight_nil, Call.uncounted]
    simp [isOp]
    omega
  · rcases List.mem_append.mp hb with hb | hb
    · exact h.posted b hb
    · obtain rfl := List.mem_singleton.mp hb
      simp

theorem Lifetime.countSend (h : Lifetime c) (ha : c.calls[i]? = some a) {k : Sender}
    {ts : List Text} (hpc : a.pc = .countSend k ts) :
    Lifetime (c.become i a ({ c.toCore with ctx := c.ctx.countSend }, .send k ts)) := by
  have hmem := List.mem_of_getElem? ha
  have hr : ¬ 0 < c.released := fun hr => by
    have := ((h.calls a hmem).gone hr).1
    simp [Call.uncounted, hpc] at this
  have hent : ∀ op, a.entering op = 0 := fun op => entering_eq_zero (by rw [hpc]; simp)
  have hunc : a.uncounted = 1 := by simp [Call.uncounted, hpc]
  refine h.moved ha (by simp) rfl (fun x hx => ?_) (fun o ho => ?_) (fun o u ho => ?_) h.posted
    h.sock h.closing h.gone
  · rcases Conn.mem_become hx with hx | rfl
    · exact (h.calls x hx).mono (fun hs => hs) rfl
    · exact ⟨by simp [Pc.testing], by simp, by simp, fun hp => absurd hp hr⟩
  · rw [hent, Nat.zero_add] at ho
    exact ho
  · rw [hent, hunc] at ho
    have hu : Call.uncounted { a with pc := .send k ts } = 0 := uncounted_eq_zero (by simp)
    rw [hu]
    simp only [CIOCPContext.countSend]
    omega

theorem Lifetime.stepped (h : Lifetime c) (ha : c.calls[i]? = some a) (hret : a.pc ≠ .returned)
    (halone : a.pc = .testCounters → c.ctx.nothingOutstanding = true →
      ∀ x ∈ c.calls.eraseIdx i, x.exposed = false) (cfg : Config) (ch : Choice) :
    Lifetime (c.become i a (stepCall cfg ch c.toCore a.job a.pc)) := by
  have hn : Next cfg ch c.toCore a.pc (stepCall cfg ch c.toCore a.job a.pc).2 :=
    stepCall_next cfg ch c.toCore a.job
  -- a post on the closed socket, a failed test, and everything that is not `lively`
  have hquiet : ∀ {r : Core × Pc}, Next cfg ch c.toCore a.pc r.2 → SameLife c.toCore r.1 →
      a.pc ≠ .enter → (∀ k, a.pc ≠ .close k) → (∀ k ts, a.pc ≠ .countSend k ts) →
      (∀ k ts, r.2 ≠ .countSend k ts) → r.2.rejecting = false → r.2 ≠ .release →
      Lifetime (c.become i a r) := by
    intro r hn hk h₁ h₂ h₃ h₄ h₅ h₆
    refine h.quiet ha hret hn hk h₅ ⟨entering_eq_zero h₁, entering_eq_zero h₁⟩ ?_ (h₂ .test) h₆
    rw [uncounted_eq_zero h₃, uncounted_eq_zero h₄]
  cases hpc : a.pc with
  | enter => exact h.enter ha hpc cfg ch
  | close k => exact h.close ha hpc cfg ch
  | testCounters =>
      simp only [stepCall]
      split
      · rename_i hz
        exact h.pass ha hpc hz (halone hpc hz)
      · rename_i hz
        refine hquiet ?_ (.refl _) (by rw [hpc]; simp) (by rw [hpc]; simp) (by rw [hpc]; simp)
          (by simp) rfl (by simp)
        simpa [hpc, stepCall, hz] using hn
  | release => exact h.release ha hpc
  | wsaSend k b ts =>
      simp only [stepCall]
      split
      · rename_i hacc
        exact h.wsaSend_accepted ha hpc (by simp_all [Core.accepts])
      · rename_i hacc
        refine hquiet ?_ (.refl _) (by rw [hpc]; simp) (by rw [hpc]; simp) (by rw [hpc]; simp)
          (by simp) rfl (by simp)
        simpa [hpc, stepCall, hacc] using hn
  | countSend k ts => exact h.countSend ha hpc
  | recv k addr =>
      simp only [stepCall]
      split
      · rename_i hacc
        exact h.recv_accepted ha hpc (by simp_all [Core.accepts])
      · rename_i hacc
        refine hquiet ?_ (.refl _) (by rw [hpc]; simp) (by rw [hpc]; simp) (by rw [hpc]; simp)
          (by simp) rfl (by simp)
        simpa [hpc, stepCall, hacc] using hn
  | add =>
      simp only [stepCall]
      split
      · rename_i hok
        refine hquiet ?_ (.refl _) (by rw [hpc]; simp) (by rw [hpc]; simp) (by rw [hpc]; simp)
          (by simp) rfl (by simp)
        simpa [hpc, stepCall, hok] using hn
      · exact h.reject ha (by rw [hpc]; rfl) (.inl rfl)
  | unlink k =>
      rw [hpc] at hn
      cases k with
      | release => exact h.reject ha (by rw [hpc]; rfl) (.inr rfl)
      | test | leave =>
          refine hquiet ?_ (.refl _) (by rw [hpc]; simp) (by rw [hpc]; simp) (by rw [hpc]; simp)
            (by simp [stepCall]) rfl (by simp [stepCall])
          rw [hpc]
          exact hn
  | testClosing | notify | finish | compare | insert | headTest | call p | send k ts
  | throttle k b ts | increment p | drop p | alloc k | keepAlive | ioctl | reads left | returned =>
      rw [hpc] at hn
      refine hquiet (by rw [hpc]; exact hn) (stepCall_sameLife cfg ch c.toCore a.job rfl)
        (by rw [hpc]; simp) (by rw [hpc]; simp) (by rw [hpc]; simp) (fun k' ts' he => ?_) ?_
        (fun he => ?_)
      · obtain ⟨b, hb, -⟩ := hn.uncounted k' ts' he
        cases hb
      · by_contra hrej
        rcases hn.rejecting (by simpa using hrej) with he | he <;> cases he
      · rcases hn.release he with he' | ⟨he', -⟩ <;> cases he'

/-! ## Calls that begin, and whole runs -/

theorem Lifetime.start (h : Lifetime c) (hfresh : ∀ x ∈ c.calls, x.pc.rejecting = false)
    {job : Job} {pc : Pc} (hpc : pc.rejecting = false) (hok : CallLife c.toCore ⟨job, pc⟩)
    (hent : ∀ op, Call.entering op ⟨job, pc⟩ = 0) (hunc : Call.uncounted ⟨job, pc⟩ = 0) :
    Lifetime (c.start job pc) where
  recv := by
    simp only [Conn.start, weight_append, weight_cons, weight_nil, hent]
    exact h.recv
  send := by
    simp only [Conn.start, weight_append, weight_cons, weight_nil, hent, hunc]
    exact h.send
  posted := h.posted
  sock := h.sock
  closing := h.closing
  calls := fun x hx => by
    rcases List.mem_append.mp hx with hx | hx
    · exact h.calls x hx
    · obtain rfl := List.mem_singleton.mp hx
      exact hok
  fresh := by
    rintro ⟨x, hx, hp⟩
    rcases List.mem_append.mp hx with hx | hx
    · rw [hfresh x hx] at hp
      cases hp
    · obtain rfl := List.mem_singleton.mp hx
      rw [hpc] at hp
      cases hp
  gone := h.gone

theorem Lifetime.dequeue (h : Lifetime c) {b : CIOCPBuffer} (hb : c.inFlight[i]? = some b)
    (data : List UInt8) (e : Nat) :
    Lifetime (({ c with inFlight := c.inFlight.eraseIdx i } : Conn).start
      (.io (completed b data) data.length e) .enter) := by
  have hmem : b ∈ c.inFlight := List.mem_of_getElem? hb
  have hne : c.inFlight ≠ [] := List.ne_nil_of_mem hmem
  have hr : ¬ 0 < c.released := fun hr => hne (h.gone hr).1
  have hop : (completed b data).nOperation = b.nOperation := by
    unfold completed
    split <;> simp_all
  have hisOp : ∀ op, Call.entering op ⟨.io (completed b data) data.length e, .enter⟩ = isOp op b :=
    fun op => by simp [Call.entering, isOp, hop]
  refine ⟨?_, ?_, fun x hx => h.posted x (List.mem_of_mem_eraseIdx hx), h.sock, h.closing,
    fun x hx => ?_, ?_, fun hr' => absurd hr' hr⟩
  · have he := weight_eraseIdx (isOp .opRead) hb
    have := h.recv
    simp only [Conn.start, weight_append, weight_cons, weight_nil, hisOp]
    omega
  · have he := weight_eraseIdx (isOp .opWrite) hb
    have := h.send
    have hu : Call.uncounted ⟨.io (completed b data) data.length e, .enter⟩ = 0 := rfl
    simp only [Conn.start, weight_append, weight_cons, weight_nil, hisOp, hu]
    omega
  · rcases List.mem_append.mp hx with hx | hx
    · exact (h.calls x hx).mono (fun hs => hs) rfl
    · obtain rfl := List.mem_singleton.mp hx
      exact ⟨fun _ => ⟨_, _, _, rfl, hop ▸ h.posted b hmem⟩, by simp, by simp,
        fun hr' => absurd hr' hr⟩
  · rintro ⟨x, hx, hp⟩
    rcases List.mem_append.mp hx with hx | hx
    · exact absurd (h.fresh ⟨x, hx, hp⟩).2.1 hne
    · obtain rfl := List.mem_singleton.mp hx
      cases hp

theorem Lifetime.init (sock : SOCKET) (b : CIOCPBuffer) : Lifetime (Conn.init sock b) where
  recv := rfl
  send := rfl
  posted := fun b hb => by cases hb
  sock := .inl rfl
  closing := fun h => by cases h
  calls := fun x hx => by
    obtain rfl := List.mem_singleton.mp hx
    exact ⟨by simp [Pc.testing], by simp, by simp, fun hr => absurd hr (Nat.lt_irrefl 0)⟩
  fresh := fun _ => ⟨rfl, rfl, rfl, rfl⟩
  gone := fun hr => absurd hr (Nat.lt_irrefl 0)

theorem Lifetime.not_fresh_of_known (h : Lifetime c) (hk : c.known = true) :
    ∀ x ∈ c.calls, x.pc.rejecting = false := by
  intro x hx
  by_contra hne
  have := (h.fresh ⟨x, hx, by simpa using hne⟩).2.2.2
  rw [hk] at this
  cases this

theorem Lifetime.step (h : Lifetime c) {cfg : Config} {act : Action} {d : Conn}
    (hok : Alone c act) (hs : c.step cfg act = some d) : Lifetime d := by
  cases act with
  | dequeue i data e =>
      obtain ⟨b, hb, -, rfl⟩ := Conn.dequeue_eq hs
      exact h.dequeue hb data e
  | step i ch =>
      obtain ⟨a, ha, hret, rfl⟩ := Conn.step_eq hs
      exact h.stepped ha hret (hok a ha) cfg ch
  | sendText t =>
      obtain ⟨hk, rfl⟩ := Conn.sendText_eq hs
      exact h.start (h.not_fresh_of_known hk) rfl
        ⟨by simp [Pc.testing], by simp, by simp, fun _ => ⟨rfl, by simp [Call.inside]⟩⟩
        (fun _ => rfl) rfl
  | closeAConnection =>
      obtain ⟨hk, rfl⟩ := Conn.closeAConnection_eq hs
      exact h.start (h.not_fresh_of_known hk) rfl
        ⟨by simp [Pc.testing], by simp, by simp, fun _ => ⟨rfl, by simp [Call.inside]⟩⟩
        (fun _ => rfl) rfl

theorem Lifetime.of_via {cfg : Config} {sock : SOCKET} {b : CIOCPBuffer}
    (h : Via (Conn.step cfg) Alone (Conn.init sock b) c) : Lifetime c :=
  h.invariant (.init sock b) fun _ _ _ h hok hs => h.step hok hs

/-- The counter test and the rejection are the only places that call
`ReleaseContext`. -/
theorem stepCall_released (cfg : Config) (ch : Choice) (k : Core) (job : Job) {pc : Pc}
    (h : k.released < (stepCall cfg ch k job pc).1.released) :
    pc = .close .release ∨ (pc = .testCounters ∧ k.ctx.nothingOutstanding = true) := by
  by_cases hl : pc.lively = true
  · cases pc with
    | close a =>
        cases a with
        | release => exact .inl rfl
        | test | leave => exact absurd h (Nat.lt_irrefl _)
    | testCounters =>
        refine .inr ⟨rfl, ?_⟩
        by_contra hz
        simp only [stepCall, if_neg hz] at h
        exact absurd h (Nat.lt_irrefl _)
    | enter => cases job <;> exact absurd h (Nat.lt_irrefl _)
    | release | countSend a ts => exact absurd h (Nat.lt_irrefl _)
    | wsaSend a b ts | recv a addr =>
        simp only [stepCall] at h
        split at h <;> exact absurd h (Nat.lt_irrefl _)
    | _ => cases hl
  · rw [(stepCall_sameLife cfg ch k job (by simpa using hl)).released] at h
    exact absurd h (Nat.lt_irrefl _)

/-- **The life of a context.**  On every run on which each passed counter test
was made by a worker that is alone, the next step is safe exactly if it meets
the same condition: `ReleaseContext` is then called for the first time, with
no read or send in flight and no other worker inside `HandleIO`. -/
theorem released_alone_iff {cfg : Config} {sock : SOCKET} {b : CIOCPBuffer}
    (hrun : Via (Conn.step cfg) Alone (Conn.init sock b) c) (act : Action) :
    SafeRelease cfg c act ↔ Alone c act := by
  have h : Lifetime c := .of_via hrun
  constructor
  · intro hsafe
    cases act with
    | step i ch =>
        intro a ha hpc hz
        have ha' : c.calls[i]? = some a := ha
        have hs : c.step cfg (.step i ch)
            = some (c.become i a ({ c.toCore with released := c.released + 1 }, .release)) := by
          simp [Conn.step, ha', hpc, stepCall, hz]
        obtain ⟨-, hf, hothers⟩ := hsafe _ hs (Nat.lt_succ_self _)
        exact h.exposed_of_safe ha' hpc hz hf hothers
    | dequeue i data e | sendText t | closeAConnection => trivial
  · intro hok d hs hrel
    cases act with
    | step i ch =>
        obtain ⟨a, ha, -, rfl⟩ := Conn.step_eq hs
        rcases stepCall_released cfg ch c.toCore a.job hrel with hpc | ⟨hpc, hz⟩
        · have hp : a.pc.rejecting = true := by rw [hpc]; rfl
          obtain ⟨hc, rfl⟩ := h.fresh_of_get ha hp
          obtain ⟨-, hf, hr, -⟩ := h.fresh ⟨a, List.mem_of_getElem? ha, hp⟩
          refine ⟨hr, hf, fun x hx => ?_⟩
          simp [Conn.others, hc] at hx
        · obtain ⟨hr, hf, hothers⟩ := h.alone_at_test ha hpc hz (hok a ha hpc hz)
          exact ⟨hr, hf, fun x hx => (hothers x hx).1⟩
    | dequeue i data e =>
        obtain ⟨b, -, -, rfl⟩ := Conn.dequeue_eq hs
        exact absurd hrel (Nat.lt_irrefl _)
    | sendText t =>
        obtain ⟨-, rfl⟩ := Conn.sendText_eq hs
        exact absurd hrel (Nat.lt_irrefl _)
    | closeAConnection =>
        obtain ⟨-, rfl⟩ := Conn.closeAConnection_eq hs
        exact absurd hrel (Nat.lt_irrefl _)

end

/-! ## The second release -/

/-- `CMyServer` started with `nInitialReads = 2`. -/
def twoReads : Config := { cMyServer with nInitialReads := 2 }

/-- The send of the echo and both reads complete, the reads with zero bytes:
all three workers count down, then each of the readers tests. -/
def twoTests : List Action := List.flatten [
  smooth 0 16 100,
  [.dequeue 0 [104, 105] noError, .dequeue 0 [] noError, .dequeue 0 [] noError],
  smooth 1 1 0, smooth 2 1 0, smooth 3 1 0, smooth 2 5 0, smooth 3 2 0]

/-- `ReleaseContext` is called twice on one context. -/
theorem released_twice :
    ∃ c, Via (Conn.step twoReads) (fun _ _ => True) (Conn.init 7 firstData) c ∧ c.released = 2 :=
  exists_via_of_execIf twoTests (by decide +kernel)

/-- The same completions, handled one after the other: the last worker is alone. -/
def oneTest : List Action :=
  smooth 0 16 100 ++ [.dequeue 0 [104, 105] noError] ++ smooth 1 4 0 ++
  [.dequeue 1 [] noError] ++ smooth 2 7 0 ++ [.dequeue 0 [] noError] ++ smooth 3 2 0

theorem released_alone_iff_oneTest :
    ∃ c, Via (Conn.step twoReads) Alone (Conn.init 7 firstData) c ∧
      (∃ d ∈ c.step twoReads (.step 3 ⟨true, none⟩), c.released < d.released) ∧
      SafeRelease twoReads c (.step 3 ⟨true, none⟩) := by
  have h : ∃ c, Via (Conn.step twoReads) Alone (Conn.init 7 firstData) c ∧
      (∃ d ∈ c.step twoReads (.step 3 ⟨true, none⟩), c.released < d.released) ∧
      Alone c (.step 3 ⟨true, none⟩) :=
    exists_via_of_execIf oneTest (by decide +kernel)
  obtain ⟨c, hrun, hrel, hok⟩ := h
  exact ⟨c, hrun, hrel, (released_alone_iff hrun _).mpr hok⟩

end CppWorkspace.CIOCPServer
