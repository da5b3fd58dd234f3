/-
# `CppWorkspace.CIOCPServer.Reclaim` — a closed context is released, by one worker

With one worker there is no race for the counter test, but the test has to be
MADE.  Four callers of `CloseAConnection` make it or release at once; the other
ones (`setsockopt` or `WSAIoctl` failed, an initial read was refused, the read
that follows the data was not posted) just leave.  They are right to leave as
long as something is outstanding: its completion finds `bClosing` set and makes
the test.  If nothing is, nobody ever comes back to the context.

`Tested` is the condition that a caller who leaves has something outstanding.
A run of one worker ends with every closed and drained context released exactly
if all its steps meet it (`reclaimed_iff`).
-/
import CppWorkspace.CIOCPServer.Lifetime

namespace CppWorkspace.CIOCPServer

open Runs Weights

/-- Every call has returned. -/
def Settled (c : Conn) : Prop := ∀ a ∈ c.calls, a.pc = .returned

instance (c : Conn) : Decidable (Settled c) :=
  inferInstanceAs (Decidable (∀ a ∈ c.calls, a.pc = .returned))

/-- One worker: it takes a completion when it has returned from the one before,
and there is no other thread. -/
def Sequential (c : Conn) : Action → Prop
  | .dequeue .. => Settled c
  | .step .. => True
  | .sendText _ | .closeAConnection => False

instance (c : Conn) : (act : Action) → Decidable (Sequential c act)
  | .dequeue .. => inferInstanceAs (Decidable (Settled c))
  | .step .. => inferInstanceAs (Decidable True)
  | .sendText _ | .closeAConnection => inferInstanceAs (Decidable False)

/-- A `CloseAConnection` whose caller does not test the counters is executed
only while one of them is not zero. -/
def Tested (c : Conn) : Action → Prop
  | .step i _ => ∀ a ∈ c.calls[i]?, a.pc = .close .leave → c.ctx.nothingOutstanding = false
  | _ => True

instance (c : Conn) : (act : Action) → Decidable (Tested c act)
  | .step i _ => inferInstanceAs (Decidable (∀ a ∈ c.calls[i]?, a.pc = .close .leave →
      c.ctx.nothingOutstanding = false))
  | .dequeue .. | .sendText _ | .closeAConnection => inferInstanceAs (Decidable True)

/-- A connection that was closed or rejected and has nothing in flight was
released, once; a context that is still closing has something outstanding. -/
structure Reclaimed (c : Conn) : Prop where
  once : c.sockOpen = false → c.inFlight = [] → c.released = 1
  kept : c.ctx.bClosing = true → c.ctx.nothingOutstanding = false

/-! ## One worker -/

/-- At most one call is at work. -/
def Turn (c : Conn) : Prop :=
  ∃ i, ∀ (j : Nat) (a : Call), c.calls[j]? = some a → a.pc ≠ .returned → j = i

/-- What holds on every run of one worker. -/
structure OneWorker (c : Conn) : Prop where
  life : Lifetime c
  turn : Turn c
  closing : c.sockOpen = false → c.released = 0 → c.ctx.bClosing = true
  gone : 0 < c.released → ∀ a ∈ c.calls, a.pc = .release ∨ a.pc = .finish ∨ a.pc = .returned
  zeroed : 0 < c.released → c.ctx.bClosing = false ∨ ∃ a ∈ c.calls, a.pc = .release

section
variable {c d : Conn} {i : Nat} {a : Call} {cfg : Config} {ch : Choice}

theorem Turn.others (h : Turn c) (ha : c.calls[i]? = some a) (hret : a.pc ≠ .returned) :
    ∀ x ∈ c.calls.eraseIdx i, x.pc = .returned := by
  intro x hx
  obtain ⟨n, hn⟩ := h
  obtain ⟨j, hji, hj⟩ := List.mem_eraseIdx_iff_getElem?.mp hx
  by_contra hne
  exact hji ((hn j x hj hne).trans (hn i a ha hret).symm)

theorem Turn.become (h : Turn c) (ha : c.calls[i]? = some a) (hret : a.pc ≠ .returned)
    (r : Core × Pc) : Turn (c.become i a r) := by
  refine ⟨i, fun j x hj hne => ?_⟩
  obtain ⟨n, hn⟩ := h
  simp only [Conn.become, List.getElem?_set] at hj
  by_cases hij : i = j
  · exact hij.symm
  · rw [if_neg hij] at hj
    exact (hn j x hj hne).trans (hn i a ha hret).symm

theorem Turn.dequeued (h : Settled c) (job : Job) (pc : Pc) : Turn (c.start job pc) := by
  refine ⟨c.calls.length, fun j x hj hne => ?_⟩
  by_contra hlt
  have hmem : x ∈ c.calls := by
    by_cases hj' : j < c.calls.length
    · rw [Conn.start, List.getElem?_append_left hj'] at hj
      exact List.mem_of_getElem? hj
    · rw [Conn.start, List.getElem?_append_right (by omega), List.getElem?_eq_none (by simp; omega)]
        at hj
      cases hj
  exact hne (h x hmem)

theorem Turn.alone (h : Turn c) (act : Action) : Alone c act := by
  cases act with
  | step i ch =>
      intro a ha hpc _ x hx
      have hx' := h.others ha (by rw [hpc]; simp) x hx
      have hin : x.inside = false := by
        unfold Call.inside
        split <;> simp [hx']
      have hunc : x.uncounted = 0 := uncounted_eq_zero (by rw [hx']; simp)
      simp [Call.exposed, hin, hunc]
  | dequeue i data e | sendText t | closeAConnection => trivial

/-- If the call at work has counted everything, the counters are those of what
is in flight. -/
theorem OneWorker.drained (h : OneWorker c) (ha : c.calls[i]? = some a) (hret : a.pc ≠ .returned)
    (hent : a.pc ≠ .enter) (hcnt : ∀ k ts, a.pc ≠ .countSend k ts) :
    c.ctx.nothingOutstanding = true ↔ c.inFlight = [] := by
  have hothers := h.turn.others ha hret
  have hzero : ∀ f : Call → Nat, f a = 0 → (∀ x : Call, x.pc = .returned → f x = 0) →
      weight f c.calls = 0 := by
    intro f h₀ hf
    have hsplit := weight_split f ha
    have hrest := weight_eq_zero.mpr fun x hx => hf x (hothers x hx)
    omega
  have hu : weight Call.uncounted c.calls = 0 :=
    hzero _ (uncounted_eq_zero hcnt) fun x hx => uncounted_eq_zero (by rw [hx]; simp)
  have he : ∀ op, weight (Call.entering op) c.calls = 0 := fun op =>
    hzero _ (entering_eq_zero hent) fun x hx => entering_eq_zero (by rw [hx]; simp)
  constructor
  · intro hz
    exact (h.life.nothing_inFlight hz hu).1
  · intro hf
    have hrecv := h.life.recv
    have hsend := h.life.send
    rw [hf, he, weight_nil] at hrecv hsend
    rw [hu] at hsend
    simp only [CIOCPContext.nothingOutstanding, Bool.and_eq_true, beq_iff_eq]
    omega

/-! ## Who comes back to a closed context -/

/-- The call is on its way to the counter test. -/
def Pc.due : Pc → Bool
  | .enter | .testClosing | .testCounters => true
  | _ => false

/-- A closed context that is not released: a call comes to the test, or a
completion will. -/
def Watched (c : Conn) : Prop :=
  c.sockOpen = false → c.released = 0 → (∃ a ∈ c.calls, a.pc.due = true) ∨ c.inFlight ≠ []

/-- A closed context that nobody comes back to. -/
structure Lost (c : Conn) : Prop where
  closed : c.sockOpen = false
  released : c.released = 0
  inFlight : c.inFlight = []
  calls : ∀ a ∈ c.calls, a.pc = .finish ∨ a.pc = .returned

/-- A step that leaves the socket, the release count and the operations alone. -/
theorem OneWorker.watched_quiet (h : OneWorker c) (hw : Watched c) (ha : c.calls[i]? = some a)
    (hret : a.pc ≠ .returned) (hdue : a.pc.due = false) {r : Core × Pc}
    (ho : r.1.sockOpen = c.sockOpen) (hr : r.1.released = c.released)
    (hf : r.1.inFlight = c.inFlight) : Watched (c.become i a r) := by
  intro hclosed hrel
  rcases hw (ho ▸ hclosed) (hr ▸ hrel) with ⟨x, hx, hxd⟩ | hne
  · obtain ⟨j, hj⟩ := List.mem_iff_getElem?.mp hx
    have hxret : x.pc ≠ .returned := by
      intro he
      rw [he] at hxd
      cases hxd
    obtain ⟨n, hn⟩ := h.turn
    obtain rfl : j = i := (hn j x hj hxret).trans (hn i a ha hret).symm
    obtain rfl : a = x := Option.some.inj (ha.symm.trans hj)
    rw [hdue] at hxd
    cases hxd
  · exact .inr (hf ▸ hne)

theorem mem_become_self (ha : c.calls[i]? = some a) (r : Core × Pc) :
    { a with pc := r.2 } ∈ (c.become i a r).calls := by
  have hlt : i < c.calls.length := (List.getElem?_eq_some_iff.mp ha).1
  exact List.mem_iff_getElem?.mpr ⟨i, by simp [Conn.become, hlt]⟩

/-- A step of a call keeps the context watched, if the call tests before it leaves. -/
theorem OneWorker.watched_stepped (h : OneWorker c) (hw : Watched c) (ha : c.calls[i]? = some a)
    (hret : a.pc ≠ .returned) (hok : a.pc = .close .leave → c.ctx.nothingOutstanding = false) :
    Watched (c.become i a (stepCall cfg ch c.toCore a.job a.pc)) := by
  have hdue : ∀ r : Core × Pc, r.2.due = true → Watched (c.become i a r) :=
    fun r hr _ _ => .inl ⟨_, mem_become_self ha r, hr⟩
  cases hpc : a.pc with
  | enter => exact hdue _ rfl
  | testClosing =>
      by_cases hb : c.ctx.bClosing = true
      · exact hdue _ (by simp [stepCall, hb, Pc.due])
      · intro hclosed hrel
        have hs : SameLife c.toCore (stepCall cfg ch c.toCore a.job .testClosing).1 :=
          stepCall_sameLife cfg ch c.toCore a.job rfl
        exact absurd (h.closing (hs.sockOpen ▸ hclosed) (hs.released ▸ hrel)) hb
  | testCounters =>
      by_cases hz : c.ctx.nothingOutstanding = true
      · intro _ hrel
        simp only [stepCall, if_pos hz] at hrel
        cases hrel
      · intro _ _
        have hf := mt (h.drained ha hret (by rw [hpc]; simp) (by rw [hpc]; simp)).mpr hz
        simp only [stepCall, if_neg hz]
        exact .inr hf
  | close k =>
      cases k with
      | test => exact hdue _ (by cases a.job <;> rfl)
      | release =>
          intro _ hrel
          cases hrel
      | leave =>
          intro _ _
          have hz := hok hpc
          have hf := (h.drained ha hret (by rw [hpc]; simp) (by rw [hpc]; simp)).not.mp
            (by simp [hz])
          exact .inr hf
  | release =>
      intro _ hrel
      have hpos := (h.life.calls a (List.mem_of_getElem? ha)).release hpc
      exact absurd hpos (by rw [show c.released = 0 from hrel]; simp)
  | wsaSend k b ts =>
      simp only [stepCall]
      split
      · exact fun _ _ => .inr (by simp [Conn.become, Core.wsaSend])
      · exact h.watched_quiet hw ha hret (by rw [hpc]; rfl) rfl rfl rfl
  | recv k addr =>
      simp only [stepCall]
      split
      · exact fun _ _ => .inr (by simp [Conn.become, Core.postRecv])
      · exact h.watched_quiet hw ha hret (by rw [hpc]; rfl) rfl rfl rfl
  | countSend k ts => exact h.watched_quiet hw ha hret (by rw [hpc]; rfl) rfl rfl rfl
  | returned => exact absurd hpc hret
  | notify | unlink k | finish | compare | insert | headTest | call p | send k ts
  | throttle k b ts | increment p | drop p | alloc k | add | keepAlive | ioctl | reads left =>
      have hs : SameLife c.toCore (stepCall cfg ch c.toCore a.job a.pc).1 :=
        stepCall_sameLife cfg ch c.toCore a.job (by rw [hpc]; rfl)
      rw [← hpc]
      exact h.watched_quiet hw ha hret (by rw [hpc]; rfl) hs.sockOpen hs.released hs.inFlight

/-! ## Runs of one worker -/

/-- `bClosing` is set with the socket closed, and kept until the release. -/
theorem OneWorker.closing_stepped (h : OneWorker c) (ha : c.calls[i]? = some a)
    (hret : a.pc ≠ .returned) :
    (c.become i a (stepCall cfg ch c.toCore a.job a.pc)).sockOpen = false →
      (c.become i a (stepCall cfg ch c.toCore a.job a.pc)).released = 0 →
      (c.become i a (stepCall cfg ch c.toCore a.job a.pc)).ctx.bClosing = true := by
  simp only [Conn.become_toCore]
  cases hpc : a.pc with
  | enter =>
      cases hj : a.job with
      | io b t e =>
          simp only [stepCall]
          cases b.nOperation <;> exact h.closing
      | accept b | app => exact h.closing
  | close k => cases k <;> exact fun _ _ => rfl
  | testCounters =>
      simp only [stepCall]
      split
      · intro _ hrel
        cases hrel
      · exact h.closing
  | release =>
      intro _ hrel
      have hpos := (h.life.calls a (List.mem_of_getElem? ha)).release hpc
      exact absurd hpos (by rw [show c.released = 0 from hrel]; simp)
  | wsaSend k b ts | recv k addr =>
      simp only [stepCall]
      split <;> exact h.closing
  | countSend k ts => exact h.closing
  | returned => exact absurd hpc hret
  | testClosing | notify | unlink k | finish | compare | insert | headTest | call p | send k ts
  | throttle k b ts | increment p | drop p | alloc k | add | keepAlive | ioctl | reads left =>
      have hs : SameLife c.toCore (stepCall cfg ch c.toCore a.job a.pc).1 :=
        stepCall_sameLife cfg ch c.toCore a.job (by rw [hpc]; rfl)
      rw [← hpc, hs.sockOpen, hs.released, hs.bClosing]
      exact h.closing

/-- After `ReleaseContext` there is nothing to do but to give the buffer back. -/
theorem OneWorker.released_stepped (h : OneWorker c) (ha : c.calls[i]? = some a)
    (hret : a.pc ≠ .returned)
    (hrel : 0 < (stepCall cfg ch c.toCore a.job a.pc).1.released) :
    ((stepCall cfg ch c.toCore a.job a.pc).2 = .release ∨
      (stepCall cfg ch c.toCore a.job a.pc).2 = .finish ∨
      (stepCall cfg ch c.toCore a.job a.pc).2 = .returned) ∧
      ((stepCall cfg ch c.toCore a.job a.pc).1.ctx.bClosing = false ∨
        (stepCall cfg ch c.toCore a.job a.pc).2 = .release) := by
  by_cases h₀ : c.released = 0
  · rcases stepCall_released cfg ch c.toCore a.job (h₀ ▸ hrel) with hpc | ⟨hpc, hz⟩
    · rw [hpc]
      exact ⟨.inl rfl, .inr rfl⟩
    · have hpass : stepCall cfg ch c.toCore a.job a.pc
          = ({ c.toCore with released := c.released + 1 }, .release) := by
        rw [hpc]
        exact if_pos hz
      rw [hpass]
      exact ⟨.inl rfl, .inr rfl⟩
  · have hpos := Nat.pos_of_ne_zero h₀
    rcases h.gone hpos a (List.mem_of_getElem? ha) with hpc | hpc | hpc
    · rw [hpc]
      exact ⟨.inr (.inl rfl), .inl rfl⟩
    · rw [hpc]
      refine ⟨.inr (.inr rfl), .inl ?_⟩
      rcases h.zeroed hpos with hb | ⟨x, hx, hxr⟩
      · exact hb
      · -- the one call at work is not at `release`
        obtain ⟨j, hj⟩ := List.mem_iff_getElem?.mp hx
        obtain ⟨n, hn⟩ := h.turn
        obtain rfl : j = i := (hn j x hj (by rw [hxr]; simp)).trans (hn i a ha hret).symm
        obtain rfl : a = x := Option.some.inj (ha.symm.trans hj)
        rw [hpc] at hxr
        cases hxr
    · exact absurd hpc hret

theorem OneWorker.init (sock : SOCKET) (b : CIOCPBuffer) : OneWorker (Conn.init sock b) where
  life := .init sock b
  turn := by
    refine ⟨0, fun j a hj _ => ?_⟩
    have hlt := (List.getElem?_eq_some_iff.mp hj).1
    exact Nat.lt_one_iff.mp hlt
  closing := fun h => by cases h
  gone := fun h => absurd h (Nat.lt_irrefl 0)
  zeroed := fun h => absurd h (Nat.lt_irrefl 0)

theorem OneWorker.step (h : OneWorker c) {act : Action} (hseq : Sequential c act)
    (hs : c.step cfg act = some d) : OneWorker d := by
  have hlife : Lifetime d := h.life.step (h.turn.alone act) hs
  cases act with
  | dequeue i data e =>
      obtain ⟨b, hb, -, rfl⟩ := Conn.dequeue_eq hs
      have hr : ¬ 0 < c.released := by
        intro hr
        rw [(h.life.gone hr).1] at hb
        cases hb
      refine ⟨hlife, Turn.dequeued (c := { c with inFlight := c.inFlight.eraseIdx i }) hseq _ _,
        h.closing, fun hr' => absurd hr' hr, fun hr' => absurd hr' hr⟩
  | step i ch =>
      obtain ⟨a, ha, hret, rfl⟩ := Conn.step_eq hs
      refine ⟨hlife, h.turn.become ha hret _, h.closing_stepped ha hret, ?_, ?_⟩
      · intro hr x hx
        rcases Conn.others_become hx with hx | rfl
        · exact .inr (.inr (h.turn.others ha hret x hx))
        · exact (h.released_stepped ha hret hr).1
      · intro hr
        refine (h.released_stepped ha hret hr).2.imp_right fun hpc => ?_
        exact ⟨_, mem_become_self ha _, hpc⟩
  | sendText t | closeAConnection => exact hseq.elim

/-- Whoever leaves a closed context with nothing outstanding leaves it for ever. -/
theorem OneWorker.lost_of_left (h : OneWorker c) (ha : c.calls[i]? = some a)
    (hpc : a.pc = .close .leave) (hz : c.ctx.nothingOutstanding = true) :
    Lost (c.become i a (stepCall cfg ch c.toCore a.job a.pc)) := by
  have hret : a.pc ≠ .returned := by rw [hpc]; simp
  have hr : c.released = 0 := by
    by_contra hne
    rcases h.gone (Nat.pos_of_ne_zero hne) a (List.mem_of_getElem? ha) with he | he | he <;>
      rw [hpc] at he <;> cases he
  rw [hpc]
  refine ⟨h.life.closed, hr, ?_, fun x hx => ?_⟩
  · exact (h.drained ha hret (by rw [hpc]; simp) (by rw [hpc]; simp)).mp hz
  · rcases Conn.others_become hx with hx | rfl
    · exact .inr (h.turn.others ha hret x hx)
    · cases a.job with
      | accept b => exact .inl rfl
      | io b t e | app => exact .inr rfl

theorem Lost.step (h : Lost c) {act : Action} (hseq : Sequential c act)
    (hs : c.step cfg act = some d) : Lost d := by
  cases act with
  | dequeue i data e =>
      obtain ⟨b, hb, -, -⟩ := Conn.dequeue_eq hs
      rw [h.inFlight] at hb
      cases hb
  | step i ch =>
      obtain ⟨a, ha, hret, rfl⟩ := Conn.step_eq hs
      have hpc : a.pc = .finish := (h.calls a (List.mem_of_getElem? ha)).resolve_right hret
      rw [hpc]
      refine ⟨h.closed, h.released, h.inFlight, fun x hx => ?_⟩
      rcases Conn.mem_become hx with hx | rfl
      · exact h.calls x hx
      · exact .inr rfl
  | sendText t | closeAConnection => exact hseq.elim

theorem OneWorker.watched_step (h : OneWorker c) (hw : Watched c) {act : Action}
    (hseq : Sequential c act) (hok : Tested c act) (hs : c.step cfg act = some d) :
    Watched d := by
  cases act with
  | dequeue i data e =>
      obtain ⟨b, hb, -, rfl⟩ := Conn.dequeue_eq hs
      exact fun _ _ => .inl ⟨_, List.mem_append_right _ (List.mem_singleton.mpr rfl), rfl⟩
  | step i ch =>
      obtain ⟨a, ha, hret, rfl⟩ := Conn.step_eq hs
      exact h.watched_stepped hw ha hret (hok a ha)
  | sendText t | closeAConnection => exact hseq.elim

/-- When the worker waits, a watched context has been reclaimed. -/
theorem OneWorker.reclaimed (h : OneWorker c) (hset : Settled c) (hw : Watched c) :
    Reclaimed c := by
  have hdue : ¬ ∃ a ∈ c.calls, a.pc.due = true := by
    rintro ⟨a, ha, hd⟩
    rw [hset a ha] at hd
    cases hd
  have honce : c.sockOpen = false → c.inFlight = [] → c.released = 1 := by
    intro hclosed hf
    have hpos : 0 < c.released := by
      by_contra hr
      rcases hw hclosed (by omega) with hd | hne
      · exact hdue hd
      · exact hne hf
    exact (h.life.gone hpos).2.2
  refine ⟨honce, fun hb => ?_⟩
  by_contra hz
  have hent : ∀ x ∈ c.calls, x.uncounted = 0 :=
    fun x hx => uncounted_eq_zero (by rw [hset x hx]; simp)
  have hf := (h.life.nothing_inFlight (by simpa using hz) (weight_eq_zero.mpr hent)).1
  have hone := honce (h.life.closing hb) hf
  rcases h.zeroed (by omega) with hb' | ⟨x, hx, hxr⟩
  · rw [hb] at hb'
    cases hb'
  · rw [hset x hx] at hxr
    cases hxr

end

/-- **Reclamation.**  When one worker, on any run, has returned from `HandleIO`,
every context that was closed and has nothing in flight has been released, once,
exactly if on this run nobody left a closed context with both counters zero. -/
theorem reclaimed_iff {cfg : Config} {sock : SOCKET} {b : CIOCPBuffer} {c : Conn}
    (hrun : Via (Conn.step cfg) Sequential (Conn.init sock b) c) (hset : Settled c) :
    Reclaimed c ↔
      Via (Conn.step cfg) (fun c act => Sequential c act ∧ Tested c act) (Conn.init sock b) c := by
  constructor
  · intro hrec
    have hsplit : OneWorker c ∧ (Lost c ∨
        Via (Conn.step cfg) (fun c act => Sequential c act ∧ Tested c act)
          (Conn.init sock b) c) := by
      clear hset hrec
      induction hrun with
      | refl => exact ⟨.init sock b, .inr .refl⟩
      | @tail t u act ht hseq hs ih =>
          obtain ⟨h, hl | hv⟩ := ih
          · exact ⟨h.step hseq hs, .inl (hl.step hseq hs)⟩
          · refine ⟨h.step hseq hs, ?_⟩
            by_cases hok : Tested t act
            · exact .inr (hv.tail act ⟨hseq, hok⟩ hs)
            · cases act with
              | step i ch =>
                  obtain ⟨a, ha, -, rfl⟩ := Conn.step_eq hs
                  simp only [Tested, Option.mem_def, not_forall] at hok
                  obtain ⟨a', ha', hpc, hz⟩ := hok
                  obtain rfl : a = a' := Option.some.inj (ha.symm.trans ha')
                  exact .inl (h.lost_of_left ha hpc (by simpa using hz))
              | dequeue i data e | sendText t | closeAConnection => exact absurd trivial hok
    refine hsplit.2.resolve_left fun hl => ?_
    have hone := hrec.once hl.closed hl.inFlight
    rw [hl.released] at hone
    cases hone
  · intro hv
    have h : OneWorker c ∧ Watched c := by
      refine hv.invariant (P := fun c => OneWorker c ∧ Watched c) ⟨.init sock b, ?_⟩ ?_
      · intro hclosed
        cases hclosed
      · intro t act u ht hok hs
        exact ⟨ht.1.step hok.1 hs, ht.1.watched_step ht.2 hok.1 hok.2 hs⟩
    exact h.1.reclaimed hset h.2

/-! ## Who leaves with nothing outstanding -/

/-- `setsockopt` fails for a new connection. -/
def keepAliveFails : List Action :=
  smooth 0 1 0 ++ [.step 0 ⟨false, none⟩] ++ smooth 0 3 0

/-- The context stays allocated, closing, with both counters zero. -/
theorem left_behind :
    ∃ c, Via (Conn.step cMyServer) Sequential (Conn.init 7 firstData) c ∧
      Settled c ∧ c.ctx.bClosing = true ∧ c.ctx.nothingOutstanding = true ∧ c.inFlight = [] ∧
      c.released = 0 :=
  exists_via_of_execIf keepAliveFails (by decide +kernel)

/-- Two reads are posted.  The first brings data and the read that follows it is
refused; the second and the two echoes find `bClosing` set. -/
def repostRefused : List Action := List.flatten [
  smooth 0 16 100, [.dequeue 1 [120] noError], smooth 1 12 200,
  [.step 1 ⟨false, none⟩], smooth 1 2 0,
  [.dequeue 0 [104, 105] noError], smooth 2 4 0,
  [.dequeue 0 [121] noError], smooth 3 4 0,
  [.dequeue 0 [120] noError], smooth 4 5 0]

theorem reclaimed_iff_repostRefused :
    ∃ c, Via (Conn.step twoReads) Sequential (Conn.init 7 firstData) c ∧ Settled c ∧
      c.sockOpen = false ∧ Reclaimed c := by
  have h : ∃ c, Via (Conn.step twoReads) (fun c act => Sequential c act ∧ Tested c act)
      (Conn.init 7 firstData) c ∧ Settled c ∧ c.sockOpen = false :=
    exists_via_of_execIf repostRefused (by decide +kernel)
  obtain ⟨c, hrun, hset, hclosed⟩ := h
  exact ⟨c, hrun.mono fun _ _ h => h.1, hset, hclosed,
    (reclaimed_iff (hrun.mono fun _ _ h => h.1) hset).mpr hrun⟩

end CppWorkspace.CIOCPServer
