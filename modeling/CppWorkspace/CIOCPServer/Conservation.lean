/-
# `CppWorkspace.CIOCPServer.Conservation` — where every buffer is

The whole server, one call at a time: an iteration of the listener, a
`HandleIO`, a `SendText` or a `CloseAConnection` starts when the one before has
returned (`Idle`), and then runs to its end step by step.

**The parts** are the pool with the listener (`Accepts`) and any number of
connections (`Conn`).  A step of a call that allocates gets the answer of the
pool, a call of `ReleaseBuffer` goes to the pool, and the sorted insertion
writes the links of the parked reads.  The accept branch owns the accept buffer
to its end; `reject` is the whole `HandleIO` of an accept that has an error,
brings no data or gets no context.

* `AddAConnection`, `setsockopt` and `WSAIoctl` succeed or fail as they like;
* the application works on a context that was not released;
* shutting down is left out: `m_bShutDown` stays `FALSE`.

`refused` lists the buffers whose post was refused: by `AcceptEx`, by the
throttle of `PostSend`, by `WSASend` or by `WSARecv`.  Nobody gives them back.
The ledger (`Ledger`) therefore balances with them,

    allocated  =  free + attached + parked + in hands + refused

and conservation holds exactly if nothing was refused (`buffers_conserved_iff`).
-/
import CppWorkspace.CIOCPServer.Holding
import CppWorkspace.CIOCPServer.PendingAccepts
import CppWorkspace.CIOCPServer.Reclaim

namespace CppWorkspace.CIOCPServer

open LinkedList Runs Weights

/-! ## The pool under the calls -/

/-- What `AllocateBuffer` answers: a free buffer, or else what `HeapAlloc` returns. -/
def Buffers.answer (s : Buffers) (a : Option Nat) : Option Nat := s.pFreeBufferList.or a

namespace Accepts

/-- A call stands at `pc`: it allocates, or does not. -/
def allocateAt (s : Accepts) (pc : Pc) (a : Option Nat) : Option (Accepts × Option Nat) :=
  if pc.allocating then
    (s.allocateBuffer a).map fun (t, p) =>
      ({ s with toBuffers := t, held := p.toList ++ s.held }, p)
  else some (s, none)

/-- `ReleaseBuffer` of a read or a write. -/
def give (lim : Limits) (s : Accepts) (b : Nat) : Accepts :=
  ({ s with held := s.held.erase b } : Accepts).withBuffers
    (s.toBuffers.releaseBuffer lim.nMaxFreeBuffers b)

/-- The end of the accept branch: `ReleaseBuffer`, and one accept more to post. -/
def endAccept (lim : Limits) (s : Accepts) (b : Nat) : Accepts :=
  ({ s with handling := s.handling.erase b, nRepostCount := s.nRepostCount + 1 } :
    Accepts).withBuffers (s.toBuffers.releaseBuffer lim.nMaxFreeBuffers b)

/-- The links that spell a list of parked reads. -/
def park (s : Accepts) : List CIOCPBuffer → Accepts
  | [] => s
  | p :: l =>
      (s.park l).withBuffers { (s.park l).toBuffers with
        pNext := write (s.park l).pNext p.addr (l.head?.map CIOCPBuffer.addr) }

end Accepts

/-- What a step of a call, from `k` to `k'`, does to the pool after it has allocated. -/
def Call.settle (lim : Limits) (k k' : Core) (a : Call) (s : Accepts) : Accepts :=
  match a.pc, a.job with
  | .insert, _ => s.park k'.ctx.pOutOfOrderReads
  | .finish, .accept b => s.endAccept lim b.addr
  | _, _ => (a.gives k).foldl (Accepts.give lim) s

/-! ## The server -/

/-- The listener and its accepts, and the connections. -/
structure Server extends Accepts where
  conns : List Conn
  refused : List Nat

/-- A step of the listener or of a worker. -/
inductive ServerAction where
  /-- the listener takes its next step -/
  | listen (a : Option Nat) (acceptEx : Bool) (w : Wake)
  /-- `HandleIO` of an accept that leads to no connection -/
  | reject (b : Nat) (error : Bool)
  /-- `HandleIO` of an accept begins: the client is on `sock` and has sent `data` -/
  | accept (b : Nat) (sock : SOCKET) (data : List UInt8)
  /-- a call on connection `i` begins -/
  | begin (i : Nat) (act : Action)
  /-- call `j` of connection `i` takes its next step -/
  | step (i j : Nat) (ok : Bool) (a : Option Nat)
deriving DecidableEq, Repr

/-- The action begins a call; the application knows the context and it is alive. -/
def Conn.begins (c : Conn) : Action → Bool
  | .dequeue .. => true
  | .sendText _ | .closeAConnection => decide (c.released = 0)
  | .step .. => false

namespace Server

def init (lim : Limits) : Server where
  toAccepts := .init lim
  conns := []
  refused := []

/-- No call is in progress. -/
def Quiet (s : Server) : Prop := ∀ c ∈ s.conns, Settled c

/-- Neither is an accept of the listener. -/
def Idle (s : Server) : Prop := s.Quiet ∧ s.allocated = [] ∧ s.issuing = []

instance (s : Server) : Decidable s.Quiet :=
  inferInstanceAs (Decidable (∀ c ∈ s.conns, Settled c))

instance (s : Server) : Decidable s.Idle :=
  inferInstanceAs (Decidable (s.Quiet ∧ s.allocated = [] ∧ s.issuing = []))

def step (lim : Limits) (cfg : Config) (s : Server) : ServerAction → Option Server
  | .listen a acceptEx w =>
      if s.Quiet ∧ w ≠ .shutDown then
        (s.toAccepts.listen lim a acceptEx w).map fun t => { s with toAccepts := t }
      else none
  | .reject b error =>
      if s.Idle then
        (s.toAccepts.step lim (.complete b)).bind fun t =>
          (t.step lim (.release b error)).bind fun t =>
            (if error then some t else t.step lim .signal).map fun t => { s with toAccepts := t }
      else none
  | .accept b sock data =>
      if s.Idle ∧ data ≠ [] then
        (s.toAccepts.step lim (.complete b)).map fun t =>
          { s with toAccepts := t, conns := s.conns ++ [.init sock ⟨b, .opAccept, 0, data, 0⟩] }
      else none
  | .begin i act =>
      if s.Idle then
        s.conns[i]?.bind fun c =>
          if c.begins act then (c.step cfg act).map fun d => { s with conns := s.conns.set i d }
          else none
      else none
  | .step i j ok a => do
      let c ← s.conns[i]?
      let call ← c.calls[j]?
      let (t, p) ← s.allocateAt call.pc a
      let d ← c.step cfg (.step j ⟨ok, p⟩)
      some
        { toAccepts := call.settle lim c.toCore d.toCore t
          conns := s.conns.set i d
          refused := call.pc.lost cfg ⟨ok, p⟩ c.toCore ++ s.refused }

/-- The buffers at address `x` that are attached to an operation in flight, or
parked in a live context. -/
def placed (s : Server) (x : Nat) : Nat :=
  s.posted.count x + weight (fun c => weight (isAt x) c.inFlight +
    if c.released = 0 then weight (isAt x) c.ctx.pOutOfOrderReads else 0) s.conns

/-- Every buffer is on the free list, once, or in one place. -/
def Conserved (s : Server) : Prop :=
  ∃ free, Chain s.pNext s.pFreeBufferList free ∧
    ∀ x, s.heap.count x ≤ 1 ∧ s.heap.count x = free.count x + s.placed x

end Server

/-- The step is not a post that is refused. -/
def Posted (cfg : Config) (s : Server) : ServerAction → Prop
  | .listen _ acceptEx _ => s.issuing ≠ [] → acceptEx = true
  | .step i j ok _ =>
      ∀ c ∈ s.conns[i]?, ∀ call ∈ c.calls[j]?, call.pc.lost cfg ⟨ok, none⟩ c.toCore = []
  | _ => True

instance (cfg : Config) (s : Server) : (act : ServerAction) → Decidable (Posted cfg s act)
  | .listen _ acceptEx _ => inferInstanceAs (Decidable (s.issuing ≠ [] → acceptEx = true))
  | .step i j ok _ => inferInstanceAs (Decidable (∀ c ∈ s.conns[i]?, ∀ call ∈ c.calls[j]?,
      call.pc.lost cfg ⟨ok, none⟩ c.toCore = []))
  | .reject .. | .accept .. | .begin .. => inferInstanceAs (Decidable True)

/-! ## The contexts of a sequential run -/

/-- A released context has no parked reads, once `ReleaseContext` is through. -/
def Emptied (c : Conn) : Prop :=
  0 < c.released → c.ctx.pOutOfOrderReads = [] ∨ ∃ a ∈ c.calls, a.pc = .release

section
variable {cfg : Config} {ch : Choice} {c d : Conn} {i : Nat} {a : Call} {act : Action}

theorem OneWorker.emptied_stepped (h : OneWorker c) (he : Emptied c) (ha : c.calls[i]? = some a)
    (hret : a.pc ≠ .returned) :
    Emptied (c.become i a (stepCall cfg ch c.toCore a.job a.pc)) := by
  intro hrel
  by_cases h₀ : c.released = 0
  · have hpc : (stepCall cfg ch c.toCore a.job a.pc).2 = .release := by
      rcases stepCall_released cfg ch c.toCore a.job (h₀ ▸ hrel) with hpc | ⟨hpc, hz⟩
      · rw [hpc]
        rfl
      · rw [hpc]
        simp only [stepCall, if_pos hz]
    exact .inr ⟨_, mem_become_self ha _, hpc⟩
  · rcases h.gone (Nat.pos_of_ne_zero h₀) a (List.mem_of_getElem? ha) with hpc | hpc | hpc
    · rw [hpc]
      exact .inl rfl
    · rw [hpc]
      refine .inl ((he (Nat.pos_of_ne_zero h₀)).resolve_right ?_)
      rintro ⟨x, hx, hxr⟩
      -- the one call at work is not at `release`
      obtain ⟨j, hj⟩ := List.mem_iff_getElem?.mp hx
      obtain ⟨n, hn⟩ := h.turn
      obtain rfl : j = i := (hn j x hj (by rw [hxr]; simp)).trans (hn i a ha hret).symm
      obtain rfl : a = x := Option.some.inj (ha.symm.trans hj)
      rw [hpc] at hxr
      cases hxr
    · exact absurd hpc hret

/-- What holds of a connection in a sequential run. -/
structure InTurn (c : Conn) : Prop where
  placed : WellPlaced c
  worker : OneWorker c
  emptied : Emptied c

theorem InTurn.init (sock : SOCKET) (b : CIOCPBuffer) : InTurn (Conn.init sock b) where
  placed := .init sock b
  worker := .init sock b
  emptied := fun h => absurd h (Nat.lt_irrefl 0)

theorem InTurn.step (h : InTurn c) (hs : c.step cfg (.step i ch) = some d) : InTurn d := by
  have hseq : Sequential c (.step i ch) := trivial
  refine ⟨h.placed.step hs, h.worker.step hseq hs, ?_⟩
  obtain ⟨a, ha, hret, rfl⟩ := Conn.step_eq hs
  exact h.worker.emptied_stepped h.emptied ha hret

/-- A call of the application begins on a context that is alive. -/
theorem InTurn.start (h : InTurn c) (hset : Settled c) (hrel : c.released = 0) {pc : Pc}
    (hs : c.step cfg act = some (c.start .app pc)) : InTurn (c.start .app pc) where
  placed := h.placed.step hs
  worker :=
    { life := h.worker.life.step (h.worker.turn.alone act) hs
      turn := Turn.dequeued hset .app pc
      closing := h.worker.closing
      gone := fun hr => absurd hrel (Nat.pos_iff_ne_zero.mp hr)
      zeroed := fun hr => absurd hrel (Nat.pos_iff_ne_zero.mp hr) }
  emptied := fun hr => absurd hrel (Nat.pos_iff_ne_zero.mp hr)

theorem InTurn.begin (h : InTurn c) (hset : Settled c) (hact : c.begins act = true)
    (hs : c.step cfg act = some d) : InTurn d := by
  cases act with
  | step i ch => cases hact
  | dequeue i data e =>
      have hseq : Sequential c (.dequeue i data e) := hset
      refine ⟨h.placed.step hs, h.worker.step hseq hs, ?_⟩
      obtain ⟨b, hb, -, rfl⟩ := Conn.dequeue_eq hs
      intro hr
      rw [(h.worker.life.gone hr).1] at hb
      cases hb
  | sendText t =>
      obtain ⟨-, rfl⟩ := Conn.sendText_eq hs
      exact h.start hset (of_decide_eq_true hact) hs
  | closeAConnection =>
      obtain ⟨-, rfl⟩ := Conn.closeAConnection_eq hs
      exact h.start hset (of_decide_eq_true hact) hs

/-- Between two calls only a live context has parked reads. -/
theorem InTurn.keeps_eq (h : InTurn c) (hset : Settled c) (x : Nat) :
    c.keeps x = weight (isAt x) c.inFlight +
      if c.released = 0 then weight (isAt x) c.ctx.pOutOfOrderReads else 0 := by
  split
  · rfl
  · rename_i hrel
    have hnil : c.ctx.pOutOfOrderReads = [] := by
      refine (h.emptied (Nat.pos_of_ne_zero hrel)).resolve_right ?_
      rintro ⟨a, ha, hpc⟩
      rw [hset a ha] at hpc
      cases hpc
    rw [Core.keeps, hnil, weight_nil]

end

/-! ## What the calls do to the pool -/

/-- From `s` to `t` the calls get `taken` and give back `given`, and accepts end
whose buffers are `ended`. -/
structure Moves (s t : Accepts) (taken given ended : List Nat) : Prop where
  held : ∀ x, t.held.count x + given.count x = s.held.count x + taken.count x
  handling : ∀ x, t.handling.count x + ended.count x = s.handling.count x

section
variable {lim : Limits} {s t : Accepts} {free pend : List Nat}

theorem AcceptInv.allocateAt (h : AcceptInv lim s free pend) {pc : Pc} {a p : Option Nat}
    (ok : Bool) (hs : s.allocateAt pc a = some (t, p)) :
    (∃ free', AcceptInv lim t free' pend) ∧ Moves s t (pc.takes ⟨ok, p⟩) [] [] := by
  unfold Accepts.allocateAt at hs
  split at hs
  · rename_i hpc
    obtain ⟨⟨u, q⟩, hu, heq⟩ := Option.map_eq_some_iff.mp hs
    cases heq
    refine ⟨h.allocateOther hu, fun x => ?_, fun _ => rfl⟩
    simp only [Pc.takes, hpc, if_true, List.count_append, List.count_nil]
    omega
  · rename_i hpc
    cases hs
    refine ⟨⟨free, h⟩, fun x => ?_, fun _ => rfl⟩
    simp only [Pc.takes, hpc, if_false, Bool.false_eq_true]

theorem AcceptInv.give (h : AcceptInv lim s free pend) {b : Nat} (hb : b ∈ s.held) :
    (∃ free', AcceptInv lim (s.give lim b) free' pend) ∧ Moves s (s.give lim b) [] [b] [] := by
  have hcount := (List.perm_cons_erase hb).count_eq
  constructor
  · refine h.released (List.mem_append_right _ hb) s.handling (s.held.erase b) s.signalling
      fun x => ?_
    have hx := hcount x
    simp only [List.count_append, List.count_cons] at hx ⊢
    omega
  · refine ⟨fun x => ?_, fun _ => rfl⟩
    have hx := hcount x
    show (s.held.erase b).count x + _ = _
    simp only [List.count_cons, List.count_nil] at hx ⊢
    omega

theorem AcceptInv.give_all {l : List Nat} (h : AcceptInv lim s free pend)
    (hl : ∀ x, l.count x ≤ s.held.count x) :
    (∃ free', AcceptInv lim (l.foldl (Accepts.give lim) s) free' pend) ∧
      Moves s (l.foldl (Accepts.give lim) s) [] l [] := by
  induction l generalizing s free with
  | nil => exact ⟨⟨free, h⟩, fun _ => rfl, fun _ => rfl⟩
  | cons b l ih =>
      have hb : b ∈ s.held := by
        have hpos := hl b
        simp only [List.count_cons_self] at hpos
        exact List.count_pos_iff.mp (by omega)
      obtain ⟨⟨free', h'⟩, hm⟩ := h.give hb
      have hl' : ∀ x, l.count x ≤ (s.give lim b).held.count x := by
        intro x
        have hx := hl x
        have hmx := hm.held x
        simp only [List.count_cons, List.count_nil] at hx hmx
        omega
      obtain ⟨hinv, hm'⟩ := ih h' hl'
      refine ⟨hinv, fun x => ?_, fun x => (hm'.handling x).trans (hm.handling x)⟩
      have hx := hm.held x
      have hx' := hm'.held x
      simp only [List.foldl_cons, List.count_cons, List.count_nil] at hx hx' ⊢
      omega

theorem AcceptInv.endAccept (h : AcceptInv lim s free pend) {b : Nat} (hb : b ∈ s.handling) :
    (∃ free', AcceptInv lim (s.endAccept lim b) free' pend) ∧
      Moves s (s.endAccept lim b) [] [] [b] := by
  have hcount := (List.perm_cons_erase hb).count_eq
  constructor
  · obtain ⟨free', h'⟩ := h.released (List.mem_append_left _ hb) (s.handling.erase b) s.held
      s.signalling fun x => by
        rw [← List.cons_append, List.count_append, List.count_append, ← hcount x]
    exact ⟨free', h'.pool, h'.listed, h'.cleared, h'.room⟩
  · refine ⟨fun _ => rfl, fun x => ?_⟩
    have hx := hcount x
    show (s.handling.erase b).count x + _ = _
    simp only [List.count_cons, List.count_nil] at hx ⊢
    omega

theorem AcceptInv.park {l : List CIOCPBuffer} (h : AcceptInv lim s free pend)
    (hl : ∀ p ∈ l, p.addr ∈ s.held) :
    AcceptInv lim (s.park l) free pend ∧ (s.park l).held = s.held ∧
      (s.park l).handling = s.handling := by
  induction l with
  | nil => exact ⟨h, rfl, rfl⟩
  | cons p l ih =>
      obtain ⟨h', hheld, hhandling⟩ := ih fun q hq => hl q (List.mem_cons_of_mem p hq)
      have hp : p.addr ∈ (s.park l).held := hheld ▸ hl p List.mem_cons_self
      exact ⟨h'.link hp _, hheld, hhandling⟩

/-- What a step of a call does to the pool, if the call has what it gives back. -/
theorem AcceptInv.settle (h : AcceptInv lim s free pend) {k k' : Core} {a : Call}
    (hgives : ∀ x, (a.gives k).count x ≤ s.held.count x)
    (hends : ∀ b ∈ a.ends, b ∈ s.handling)
    (hparks : ∀ p ∈ k'.ctx.pOutOfOrderReads, a.pc = .insert → p.addr ∈ s.held) :
    (∃ free', AcceptInv lim (a.settle lim k k' s) free' pend) ∧
      Moves s (a.settle lim k k' s) [] (a.gives k) a.ends := by
  unfold Call.settle
  split
  · rename_i hpc
    obtain ⟨h', hheld, hhandling⟩ := h.park fun p hp => hparks p hp hpc
    refine ⟨⟨free, h'⟩, fun x => ?_, fun x => ?_⟩
    · simp only [Call.gives, hpc, hheld]
    · simp only [Call.ends, hpc, hhandling, List.count_nil, Nat.add_zero]
  · rename_i b hpc hjob
    have hb : b.addr ∈ s.handling := hends b.addr (by simp [Call.ends, hpc, hjob])
    have hg : a.gives k = [] := by simp [Call.gives, hpc, hjob, Job.addrs]
    have he : a.ends = [b.addr] := by simp [Call.ends, hpc, hjob]
    rw [hg, he]
    exact h.endAccept hb
  · rename_i hnot
    have he : a.ends = [] := by
      unfold Call.ends
      split
      · rename_i hpc hjob
        exact (hnot _ hpc hjob).elim
      · rfl
    rw [he]
    exact h.give_all hgives

end

/-! ## The ledger -/

/-- What holds in every state: the pool, whose the buffers in hands are, and the
connections. -/
structure Ledger (lim : Limits) (s : Server) (free pend : List Nat) : Prop where
  accepts : AcceptInv lim s.toAccepts free pend
  held : ∀ x, s.held.count x = weight (Conn.owns x) s.conns + s.refused.count x
  handling : ∀ x, s.handling.count x = weight (Conn.accepting x) s.conns
  conns : ∀ c ∈ s.conns, InTurn c

section
variable {lim : Limits} {cfg : Config} {s t : Server} {free pend : List Nat}

theorem Ledger.init (lim : Limits) : Ledger lim (.init lim) [] [] where
  accepts := .init lim
  held := fun _ => rfl
  handling := fun _ => rfl
  conns := fun _ hc => absurd hc List.not_mem_nil

theorem listen_hands {s t : Accepts} {a : Option Nat} {acceptEx : Bool} {w : Wake}
    (hs : s.listen lim a acceptEx w = some t) : t.held = s.held ∧ t.handling = s.handling := by
  have halloc : ∀ k, s.listenAllocate a k = some t → t.held = s.held ∧ t.handling = s.handling := by
    intro k hk
    obtain ⟨⟨u, p⟩, -, rfl⟩ := Option.map_eq_some_iff.mp hk
    exact ⟨rfl, rfl⟩
  unfold Accepts.listen at hs
  split at hs
  · cases hs
    exact ⟨rfl, rfl⟩
  · cases hs
    exact ⟨rfl, rfl⟩
  · exact halloc _ hs
  · split at hs
    · exact halloc _ hs
    · cases hs
      exact ⟨rfl, rfl⟩
  · cases hs
    exact ⟨rfl, rfl⟩
  · split at hs <;> cases hs <;> exact ⟨rfl, rfl⟩
  · cases hs
    cases w <;> exact ⟨rfl, rfl⟩
  · cases hs

theorem complete_hands {s t : Accepts} {b : Nat} (hs : s.step lim (.complete b) = some t) :
    t.held = s.held ∧ t.handling = b :: s.handling := by
  simp only [Accepts.step] at hs
  split at hs
  · obtain ⟨u, -, rfl⟩ := Option.map_eq_some_iff.mp hs
    exact ⟨rfl, rfl⟩
  · cases hs

theorem release_hands {s t : Accepts} {b : Nat} {error : Bool}
    (hs : s.step lim (.release b error) = some t) :
    t.held = s.held ∧ t.handling = s.handling.erase b := by
  simp only [Accepts.step] at hs
  split at hs
  · cases hs
    exact ⟨rfl, rfl⟩
  · cases hs

theorem signal_hands {s t : Accepts} (hs : s.step lim .signal = some t) :
    t.held = s.held ∧ t.handling = s.handling := by
  simp only [Accepts.step] at hs
  split at hs
  · cases hs
    exact ⟨rfl, rfl⟩
  · cases hs

theorem reject_eq {b : Nat} {error : Bool} (hs : s.step lim cfg (.reject b error) = some t) :
    ∃ u₁ u₂ u₃, s.toAccepts.step lim (.complete b) = some u₁ ∧
      u₁.step lim (.release b error) = some u₂ ∧ (u₃ = u₂ ∨ u₂.step lim .signal = some u₃) ∧
      t = { s with toAccepts := u₃ } := by
  simp only [Server.step] at hs
  split at hs
  · simp only [Option.bind_eq_some_iff, Option.map_eq_some_iff] at hs
    obtain ⟨u₁, h₁, u₂, h₂, u₃, h₃, rfl⟩ := hs
    refine ⟨u₁, u₂, u₃, h₁, h₂, ?_, rfl⟩
    cases error with
    | true => exact .inl (Option.some.inj h₃).symm
    | false => exact .inr h₃
  · cases hs

theorem accept_eq {b : Nat} {sock : SOCKET} {data : List UInt8}
    (hs : s.step lim cfg (.accept b sock data) = some t) :
    ∃ u, s.toAccepts.step lim (.complete b) = some u ∧
      t = { s with
        toAccepts := u, conns := s.conns ++ [.init sock ⟨b, .opAccept, 0, data, 0⟩] } := by
  simp only [Server.step] at hs
  split at hs
  · obtain ⟨u, hu, rfl⟩ := Option.map_eq_some_iff.mp hs
    exact ⟨u, hu, rfl⟩
  · cases hs

theorem begin_eq {i : Nat} {act : Action} (hs : s.step lim cfg (.begin i act) = some t) :
    s.Idle ∧ ∃ c d, s.conns[i]? = some c ∧ c.begins act = true ∧ c.step cfg act = some d ∧
      t = { s with conns := s.conns.set i d } := by
  simp only [Server.step] at hs
  split at hs
  · rename_i hidle
    obtain ⟨c, hc, hs⟩ := Option.bind_eq_some_iff.mp hs
    split at hs
    · rename_i hact
      obtain ⟨d, hd, rfl⟩ := Option.map_eq_some_iff.mp hs
      exact ⟨hidle, c, d, hc, hact, hd, rfl⟩
    · cases hs
  · cases hs

theorem step_eq {i j : Nat} {ok : Bool} {a : Option Nat}
    (hs : s.step lim cfg (.step i j ok a) = some t) :
    ∃ c call u p d, s.conns[i]? = some c ∧ c.calls[j]? = some call ∧
      s.allocateAt call.pc a = some (u, p) ∧ c.step cfg (.step j ⟨ok, p⟩) = some d ∧
      t = { toAccepts := call.settle lim c.toCore d.toCore u
            conns := s.conns.set i d
            refused := call.pc.lost cfg ⟨ok, p⟩ c.toCore ++ s.refused } := by
  simp only [Server.step, Option.bind_eq_bind, Option.bind_eq_some_iff] at hs
  obtain ⟨c, hc, call, hcall, ⟨u, p⟩, hu, d, hd, heq⟩ := hs
  exact ⟨c, call, u, p, d, hc, hcall, hu, hd, (Option.some.inj heq).symm⟩

theorem forall_mem_set {l : List Conn} {i : Nat} {d : Conn} (h : ∀ c ∈ l, InTurn c)
    (hd : InTurn d) : ∀ c ∈ l.set i d, InTurn c := by
  intro c hc
  rcases List.mem_or_eq_of_mem_set hc with hc | rfl
  · exact h c hc
  · exact hd

end

section
variable {lim : Limits} {cfg : Config} {s t : Server} {free pend : List Nat}

theorem Ledger.listen (h : Ledger lim s free pend) {a : Option Nat} {acceptEx : Bool} {w : Wake}
    (hs : s.step lim cfg (.listen a acceptEx w) = some t) :
    ∃ free' pend', Ledger lim t free' pend' := by
  simp only [Server.step] at hs
  split at hs
  · obtain ⟨u, hu, rfl⟩ := Option.map_eq_some_iff.mp hs
    obtain ⟨free', pend', h'⟩ := h.accepts.listen hu
    obtain ⟨hheld, hhandling⟩ := listen_hands hu
    exact ⟨free', pend', h', fun x => hheld ▸ h.held x, fun x => hhandling ▸ h.handling x, h.conns⟩
  · cases hs

theorem Ledger.reject (h : Ledger lim s free pend) {b : Nat} {error : Bool}
    (hs : s.step lim cfg (.reject b error) = some t) :
    ∃ free' pend', Ledger lim t free' pend' := by
  obtain ⟨u₁, u₂, u₃, h₁, h₂, h₃, rfl⟩ := reject_eq hs
  obtain ⟨free₁, pend₁, hinv₁⟩ := h.accepts.step h₁
  obtain ⟨free₂, pend₂, hinv₂⟩ := hinv₁.step h₂
  obtain ⟨hheld₁, hhandling₁⟩ := complete_hands h₁
  obtain ⟨hheld₂, hhandling₂⟩ := release_hands h₂
  have hlast : (∃ free' pend', AcceptInv lim u₃ free' pend') ∧ u₃.held = u₂.held ∧
      u₃.handling = u₂.handling := by
    rcases h₃ with rfl | h₃
    · exact ⟨⟨free₂, pend₂, hinv₂⟩, rfl, rfl⟩
    · exact ⟨hinv₂.step h₃, signal_hands h₃⟩
  obtain ⟨⟨free', pend', hinv⟩, hheld₃, hhandling₃⟩ := hlast
  have hheld : u₃.held = s.held := hheld₃.trans (hheld₂.trans hheld₁)
  have hhandling : u₃.handling = s.handling := by
    rw [hhandling₃, hhandling₂, hhandling₁, List.erase_cons_head]
  exact ⟨free', pend', hinv, fun x => hheld ▸ h.held x, fun x => hhandling ▸ h.handling x, h.conns⟩

theorem Ledger.accept (h : Ledger lim s free pend) {b : Nat} {sock : SOCKET}
    {data : List UInt8} (hs : s.step lim cfg (.accept b sock data) = some t) :
    ∃ free' pend', Ledger lim t free' pend' := by
  obtain ⟨u, hu, rfl⟩ := accept_eq hs
  obtain ⟨free', pend', hinv⟩ := h.accepts.step hu
  obtain ⟨hheld, hhandling⟩ := complete_hands hu
  refine ⟨free', pend', hinv, fun x => ?_, fun x => ?_, fun c hc => ?_⟩
  · have hx := h.held x
    have hnew := (Conn.owns_init x sock ⟨b, .opAccept, 0, data, 0⟩).1
    simp only [hheld, weight_append, weight_cons, weight_nil, hnew]
    omega
  · have hx := h.handling x
    have hnew := (Conn.owns_init x sock ⟨b, .opAccept, 0, data, 0⟩).2
    simp only [hhandling, weight_append, weight_cons, weight_nil, hnew, isAt, List.count_cons,
      beq_iff_eq]
    omega
  · rcases List.mem_append.mp hc with hc | hc
    · exact h.conns c hc
    · obtain rfl := List.mem_singleton.mp hc
      exact .init sock _

theorem Ledger.begin (h : Ledger lim s free pend) {i : Nat} {act : Action}
    (hs : s.step lim cfg (.begin i act) = some t) : Ledger lim t free pend := by
  obtain ⟨⟨hquiet, -⟩, c, d, hc, hact, hd, rfl⟩ := begin_eq hs
  have hmem := List.mem_of_getElem? hc
  have hnot : ∀ i ch, act ≠ .step i ch := by
    rintro i ch rfl
    cases hact
  refine ⟨h.accepts, fun x => ?_, fun x => ?_,
    forall_mem_set h.conns ((h.conns c hmem).begin (hquiet c hmem) hact hd)⟩
  · have hx := h.held x
    have hset := weight_set (Conn.owns x) d hc
    have hown := (Conn.owns_begin x hnot hd).1
    show s.held.count x = weight (Conn.owns x) (s.conns.set i d) + s.refused.count x
    omega
  · have hx := h.handling x
    have hset := weight_set (Conn.accepting x) d hc
    have hacc := (Conn.owns_begin x hnot hd).2
    show s.handling.count x = weight (Conn.accepting x) (s.conns.set i d)
    omega

/-- **One step of a call.**  The pool hands out what the call allocates; the call has
what it gives back; what was refused is written down. -/
theorem Ledger.stepped (h : Ledger lim s free pend) {i j : Nat} {ok : Bool} {a : Option Nat}
    (hs : s.step lim cfg (.step i j ok a) = some t) : ∃ free', Ledger lim t free' pend := by
  obtain ⟨c, call, u, p, d, hc, hcall, hu, hd, rfl⟩ := step_eq hs
  have hmem := List.mem_of_getElem? hc
  have hturn := h.conns c hmem
  obtain ⟨⟨free₁, hinv⟩, htaken⟩ := h.accepts.allocateAt ok hu
  have hown := fun x => Conn.owns_step x hturn.placed hcall hd
  have hacc := fun x => Conn.accepting_step x hturn.placed hcall hd
  have hset := fun x => weight_set (Conn.owns x) d hc
  have hset' := fun x => weight_set (Conn.accepting x) d hc
  -- before the step gives back, the calls hold what the connections own
  have hheld : ∀ x, u.held.count x = weight (Conn.owns x) (s.conns.set i d) + s.refused.count x
      + (call.gives c.toCore).count x + (call.pc.lost cfg ⟨ok, p⟩ c.toCore).count x := by
    intro x
    have hx := h.held x
    have htx := htaken.held x
    have hox := hown x
    have hsx := hset x
    simp only [List.count_nil] at htx
    omega
  have hhandling : ∀ x, u.handling.count x
      = weight (Conn.accepting x) (s.conns.set i d) + call.ends.count x := by
    intro x
    have hx := h.handling x
    have htx := htaken.handling x
    have hax := hacc x
    have hsx := hset' x
    simp only [List.count_nil] at htx
    omega
  have hgives : ∀ x, (call.gives c.toCore).count x ≤ u.held.count x := by
    intro x
    have hx := hheld x
    omega
  have hends : ∀ b ∈ call.ends, b ∈ u.handling := by
    intro b hb
    have hx := hhandling b
    have hpos := List.count_pos_iff.mpr hb
    exact List.count_pos_iff.mp (by omega)
  have hparks : ∀ q ∈ d.ctx.pOutOfOrderReads, call.pc = .insert → q.addr ∈ u.held := by
    intro q hq _
    have hx := hheld q.addr
    have hone : isAt q.addr q = 1 := if_pos rfl
    have hpark := weight_pos (f := isAt q.addr) hq
    have hlt : i < s.conns.length := (List.getElem?_eq_some_iff.mp hc).1
    have hpos := weight_pos (f := Conn.owns q.addr) (List.mem_set hlt d)
    simp only [Conn.owns, Core.keeps] at hpos hx
    exact List.count_pos_iff.mp (by omega)
  obtain ⟨⟨free', hinv'⟩, hgiven⟩ := hinv.settle hgives hends hparks
  refine ⟨free', hinv', fun x => ?_, fun x => ?_, forall_mem_set h.conns (hturn.step hd)⟩
  · have hx := hheld x
    have hgx := hgiven.held x
    show (call.settle lim c.toCore d.toCore u).held.count x = weight (Conn.owns x) (s.conns.set i d)
      + (call.pc.lost cfg ⟨ok, p⟩ c.toCore ++ s.refused).count x
    simp only [List.count_nil, List.count_append] at hgx ⊢
    omega
  · have hx := hhandling x
    have hgx := hgiven.handling x
    show (call.settle lim c.toCore d.toCore u).handling.count x
      = weight (Conn.accepting x) (s.conns.set i d)
    omega

end

/-! ## Runs -/

section
variable {lim : Limits} {cfg : Config} {s t : Server} {free pend : List Nat}

theorem Ledger.step (h : Ledger lim s free pend) {act : ServerAction}
    (hs : s.step lim cfg act = some t) : ∃ free' pend', Ledger lim t free' pend' := by
  cases act with
  | listen a acceptEx w => exact h.listen hs
  | reject b error => exact h.reject hs
  | accept b sock data => exact h.accept hs
  | begin i act => exact ⟨free, pend, h.begin hs⟩
  | step i j ok a =>
      obtain ⟨free', h'⟩ := h.stepped hs
      exact ⟨free', pend, h'⟩

theorem Ledger.of_via (hrun : Via (Server.step lim cfg) (fun _ _ => True) (.init lim) s) :
    ∃ free pend, Ledger lim s free pend := by
  refine hrun.invariant (P := fun s => ∃ free pend, Ledger lim s free pend)
    ⟨[], [], .init lim⟩ ?_
  rintro t act u ⟨free, pend, h⟩ - hs
  exact h.step hs

/-- Between two calls the ledger names the place of every buffer. -/
theorem Ledger.places (h : Ledger lim s free pend) (hidle : s.Idle) (x : Nat) :
    s.heap.count x = free.count x + s.placed x + (s.failed.count x + s.refused.count x) := by
  obtain ⟨hquiet, halloc, hiss⟩ := hidle
  have howned := h.accepts.pool.owned x
  have hlisted := h.accepts.listed x
  have hheld := h.held x
  have hhandling : s.handling.count x = 0 := by
    rw [h.handling x]
    exact weight_eq_zero.mpr fun c hc => (Conn.owns_of_settled x (hquiet c hc)).2
  have hkept : weight (Conn.owns x) s.conns = weight (fun c => weight (isAt x) c.inFlight +
      if c.released = 0 then weight (isAt x) c.ctx.pOutOfOrderReads else 0) s.conns := by
    refine weight_congr fun c hc => ?_
    exact (Conn.owns_of_settled x (hquiet c hc)).1.trans ((h.conns c hc).keeps_eq (hquiet c hc) x)
  rw [halloc, List.nil_append, List.count_append] at howned
  rw [hiss, List.count_nil] at hlisted
  rw [Server.placed, ← hkept]
  omega

/-! ## What is refused -/

theorem allocateAt_failed {u v : Accepts} {pc : Pc} {a p : Option Nat}
    (hs : u.allocateAt pc a = some (v, p)) : v.failed = u.failed := by
  unfold Accepts.allocateAt at hs
  split at hs
  · obtain ⟨⟨w, q⟩, -, heq⟩ := Option.map_eq_some_iff.mp hs
    cases heq
    rfl
  · cases hs
    rfl

theorem settle_failed {u : Accepts} {k k' : Core} {a : Call} :
    (a.settle lim k k' u).failed = u.failed := by
  have hpark : ∀ l : List CIOCPBuffer, (u.park l).failed = u.failed := by
    intro l
    induction l with
    | nil => rfl
    | cons p l ih => exact ih
  have hgive : ∀ (l : List Nat) (v : Accepts),
      (l.foldl (Accepts.give lim) v).failed = v.failed := by
    intro l
    induction l with
    | nil => exact fun v => rfl
    | cons b l ih => exact fun v => ih (v.give lim b)
  unfold Call.settle
  split
  · exact hpark _
  · rfl
  · exact hgive _ u

theorem lost_answer (cfg : Config) (ok : Bool) (p : Option Nat) (k : Core) (pc : Pc) :
    pc.lost cfg ⟨ok, p⟩ k = pc.lost cfg ⟨ok, none⟩ k := by
  cases pc <;> rfl

theorem refused_step {act : ServerAction} (hs : s.step lim cfg act = some t) :
    (t.failed = [] ∧ t.refused = []) ↔ (s.failed = [] ∧ s.refused = []) ∧ Posted cfg s act := by
  cases act with
  | listen a acceptEx w =>
      simp only [Server.step] at hs
      split at hs
      · obtain ⟨u, hu, rfl⟩ := Option.map_eq_some_iff.mp hs
        have hlisten : s.toAccepts.step lim (.listen a acceptEx w) = some u := hu
        rcases step_failed hlisten with ⟨hok, hf⟩ | ⟨hbad, b, hf⟩
        · simp only [hf]
          exact ⟨fun h => ⟨h, hok⟩, fun h => h.1⟩
        · simp only [hf]
          exact ⟨fun h => absurd h.1 (List.cons_ne_nil b _), fun h => absurd h.2 hbad⟩
      · cases hs
  | reject b error =>
      obtain ⟨u₁, u₂, u₃, h₁, h₂, h₃, rfl⟩ := reject_eq hs
      have hf : ∀ {u v : Accepts} (act : AcceptAction), AcceptExSucceeds u act →
          u.step lim act = some v → v.failed = u.failed := by
        intro u v act hok hstep
        rcases step_failed hstep with ⟨-, hf⟩ | ⟨hbad, -⟩
        · exact hf
        · exact absurd hok hbad
      have hlast : u₃.failed = u₂.failed := by
        rcases h₃ with rfl | h₃
        · rfl
        · exact hf .signal trivial h₃
      have hall : u₃.failed = s.failed :=
        hlast.trans ((hf (.release b error) trivial h₂).trans
          (hf (.complete b) trivial h₁))
      simp only [hall]
      exact ⟨fun h => ⟨h, trivial⟩, fun h => h.1⟩
  | accept b sock data =>
      obtain ⟨u, hu, rfl⟩ := accept_eq hs
      have hf : u.failed = s.failed := by
        rcases step_failed hu with ⟨-, hf⟩ | ⟨hbad, -⟩
        · exact hf
        · exact absurd trivial hbad
      simp only [hf]
      exact ⟨fun h => ⟨h, trivial⟩, fun h => h.1⟩
  | begin i act =>
      obtain ⟨-, c, d, -, -, -, rfl⟩ := begin_eq hs
      exact ⟨fun h => ⟨h, trivial⟩, fun h => h.1⟩
  | step i j ok a =>
      obtain ⟨c, call, u, p, d, hc, hcall, hu, -, rfl⟩ := step_eq hs
      have hf : (call.settle lim c.toCore d.toCore u).failed = s.failed :=
        settle_failed.trans (allocateAt_failed hu)
      have hposted : Posted cfg s (.step i j ok a) ↔ call.pc.lost cfg ⟨ok, p⟩ c.toCore = [] := by
        rw [lost_answer]
        constructor
        · intro h
          exact h c hc call hcall
        · rintro h c' hc' call' hcall'
          obtain rfl : c = c' := Option.some.inj (hc.symm.trans hc')
          obtain rfl : call = call' := Option.some.inj (hcall.symm.trans hcall')
          exact h
      rw [hposted, hf, List.append_eq_nil_iff]
      tauto

theorem nothing_refused_iff (hrun : Via (Server.step lim cfg) (fun _ _ => True) (.init lim) s) :
    (s.failed = [] ∧ s.refused = []) ↔ Via (Server.step lim cfg) (Posted cfg) (.init lim) s := by
  constructor
  · intro hnil
    induction hrun with
    | refl => exact .refl
    | @tail t u act _ _ hs ih =>
        obtain ⟨hnil', hok⟩ := (refused_step hs).mp hnil
        exact (ih hnil').tail act hok hs
  · intro hok
    refine hok.invariant (P := fun s => s.failed = [] ∧ s.refused = []) ⟨rfl, rfl⟩ ?_
    intro t act u ht hact hs
    exact (refused_step hs).mpr ⟨ht, hact⟩

end

/-- **Conservation.**  Whenever a call of a sequential run has returned, every buffer is
on the free list, once, or in one place, exactly if on this run no post was refused. -/
theorem buffers_conserved_iff {lim : Limits} {cfg : Config} {s : Server}
    (hrun : Via (Server.step lim cfg) (fun _ _ => True) (.init lim) s) (hidle : s.Idle) :
    s.Conserved ↔ Via (Server.step lim cfg) (Posted cfg) (.init lim) s := by
  obtain ⟨free, pend, h⟩ := Ledger.of_via hrun
  rw [← nothing_refused_iff hrun]
  constructor
  · rintro ⟨free', hchain, hcount⟩
    obtain rfl := hchain.unique h.accepts.pool.free_chain
    have hnone : ∀ x, s.failed.count x = 0 ∧ s.refused.count x = 0 := by
      intro x
      have hplaces := h.places hidle x
      have hx := (hcount x).2
      omega
    exact ⟨List.eq_nil_iff_forall_not_mem.mpr fun x => List.count_eq_zero.mp (hnone x).1,
      List.eq_nil_iff_forall_not_mem.mpr fun x => List.count_eq_zero.mp (hnone x).2⟩
  · rintro ⟨hfailed, hrefused⟩
    refine ⟨free, h.accepts.pool.free_chain, fun x => ⟨h.accepts.pool.once x, ?_⟩⟩
    rw [h.places hidle x, hfailed, hrefused]
    rfl

/-! ## A refused send -/

/-- `n` steps of the listener; the buffers are allocated from address `base` on. -/
def listens (n base : Nat) : List ServerAction :=
  (List.range n).map fun j => .listen (some (base + j)) true .timeout

/-- `n` steps of call `j` of connection `i` in which everything is accepted. -/
def served (i j n base : Nat) : List ServerAction :=
  (List.range n).map fun k => .step i j true (some (base + k))

/-- The ten accepts are posted, one completes with two bytes, and the `WSASend` of the
echo is refused. -/
def echoRefused : List ServerAction :=
  listens 32 1 ++ [.accept 1 7 [104, 105]] ++ served 0 0 5 100 ++ [.step 0 0 false none] ++
  served 0 0 15 200

/-- The buffer of the echo is nowhere. -/
theorem echo_buffer_lost :
    ∃ s, Via (Server.step defaultLimits cMyServer) (fun _ _ => True) (.init defaultLimits) s ∧
      s.Idle ∧ ¬ s.Conserved := by
  have hrun : ∃ s, Via (Server.step defaultLimits cMyServer) (fun _ _ => True)
      (.init defaultLimits) s ∧ s.Idle ∧ s.pFreeBufferList = some 1 ∧ s.pNext 1 = none ∧
      s.heap.count 103 = 1 ∧ s.placed 103 = 0 :=
    exists_via_of_execIf echoRefused (by decide +kernel)
  obtain ⟨s, hvia, hidle, hhead, hnext, hheap, hplaced⟩ := hrun
  refine ⟨s, hvia, hidle, ?_⟩
  rintro ⟨free, hchain, hcount⟩
  rw [hhead] at hchain
  obtain ⟨rest, rfl, hrest⟩ := hchain.pop
  rw [hnext] at hrest
  obtain rfl : rest = [] := hrest.unique rfl
  have hx := (hcount 103).2
  rw [hheap, hplaced] at hx
  cases hx

/-- The same connection with the echo sent: it completes, and its buffer serves for the
echo of a read. -/
def echoSent : List ServerAction :=
  listens 32 1 ++ [.accept 1 7 [104, 105]] ++ served 0 0 22 100 ++
  [.begin 0 (.dequeue 0 [104, 105] noError)] ++ served 0 1 4 0 ++
  [.begin 0 (.dequeue 0 [120] noError)] ++ served 0 2 14 200

theorem buffers_conserved_iff_echoSent :
    ∃ s, Via (Server.step defaultLimits cMyServer) (Posted cMyServer) (.init defaultLimits) s ∧
      s.placed 103 = 1 ∧ s.Conserved := by
  have hrun : ∃ s, Via (Server.step defaultLimits cMyServer) (Posted cMyServer)
      (.init defaultLimits) s ∧ s.Idle ∧ s.placed 103 = 1 :=
    exists_via_of_execIf echoSent (by decide +kernel)
  obtain ⟨s, hvia, hidle, hplaced⟩ := hrun
  exact ⟨s, hvia, hplaced,
    (buffers_conserved_iff (hvia.mono fun _ _ _ => trivial) hidle).mpr hvia⟩

end CppWorkspace.CIOCPServer
