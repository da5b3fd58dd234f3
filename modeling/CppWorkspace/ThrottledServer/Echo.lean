/-
# `CppWorkspace.ThrottledServer.Echo` — what comes in on a connection is sent back

All sends go through one queue, which any thread drains: what has come in on a connection
is mostly posted by a thread that works for another one.  It still is posted once, in
order and on its own socket (`echoes`), because a connection has only one buffer, and the
buffer is always somewhere: in flight, queued, or held by a thread.

This is for runs in which nothing fails and no client hangs up.  What comes after a
failure is in `Lifetime` and `Throttle`.
-/
import CppWorkspace.ThrottledServer.Events

namespace CppWorkspace.ThrottledServer

open Programs Runs LinkedList

/-- What is queued, for the connections. -/
structure Waits (m : Machine) (queue : List Nat) : Prop where
  chain : Chain m.shared.next m.shared.gPendingSendList queue
  /-- A connection has one operation or one queued send. -/
  one : ∀ p, (m.shared.flight.countP fun op => op.key = .sock p) +
    (queue.countP fun b => (m.shared.buffer b).sock = some p) ≤ 1
  /-- Where no thread is inside an event, the queue has all that was not posted. -/
  rest : m.Quiescent → ∀ h, m.shared.received h = m.shared.posted h ∨
    ∃ b ∈ queue, ∃ p, (m.shared.buffer b).sock = some p ∧ (m.shared.socket p.obj).s = some h ∧
      m.shared.received h = m.shared.posted h ++ [(m.shared.buffer b).chunk]

/-- What comes in on a socket is posted on it: in order, nothing twice and nothing of
another socket; and nothing is lost. -/
structure Echoes (cfg : Config) (m : Machine) : Prop where
  inOrder : ∀ h, m.shared.posted h <+: m.shared.received h
  own : ∀ h, ∀ c ∈ m.shared.posted h, c.source = some h
  waits : ∃ queue, Waits m queue
  /-- When all sends have completed, everything was posted. -/
  complete : m.Quiescent → 0 < cfg.gMaxSends → m.shared.sends = 0 →
    ∀ h, m.shared.posted h = m.shared.received h

/-- Nothing fails, and no client hangs up. -/
def Undisturbed (m : Machine) : Action → Prop
  | .begin _ (.completion op error data _) =>
      error = false ∧ (op.operation = .OP_READ → data ≠ [])
  | .run t x => ∀ c ∈ m.next t, c.serves = true → x = .ok
  | _ => True

instance (m : Machine) : (a : Action) → Decidable (Undisturbed m a)
  | .begin _ (.completion op error data _) =>
      inferInstanceAs (Decidable (error = false ∧ (op.operation = .OP_READ → data ≠ [])))
  | .begin _ (.initialAccepts _) => .isTrue trivial
  | .begin _ (.FD_ACCEPT _) => .isTrue trivial
  | .begin _ (.RepostAccept _) => .isTrue trivial
  | .run t x => inferInstanceAs (Decidable (∀ c ∈ m.next t, c.serves = true → x = .ok))
  | .finish _ => .isTrue trivial

variable {cfg : Config} {threads : Nat} {m : Machine} {σ : Server} {queue : List Nat}
  {B : Multiset Hold} {U : Multiset Use} {p : SockPtr} {h : Nat}

/-! ## One buffer for a connection -/

theorem count_flight (flight : List Op) : (flight.countP fun op => op.key = .sock p) =
    ((flight.filterMap Op.toSeat : Multiset Seat).map Seat.sock).count p := by
  induction flight with
  | nil => rfl
  | cons op flight ih =>
      cases hkey : op.key with
      | listen l =>
          rw [List.countP_cons_of_neg (by simp [hkey]), List.filterMap_cons_none, ih]
          rw [Op.toSeat, hkey]
      | sock q =>
          have hseat : op.toSeat = some ⟨q, true, []⟩ := by rw [Op.toSeat, hkey]
          rw [List.filterMap_cons_some hseat, ← Multiset.cons_coe, Multiset.map_cons,
            Multiset.count_cons, List.countP_cons, ih, hkey]
          simp [eq_comm]

theorem count_queue (queue : List Nat) : (queue.countP fun b => (σ.buffer b).sock = some p) =
    ((queue.filterMap fun b => (σ.buffer b).toSeat : Multiset Seat).map Seat.sock).count p := by
  induction queue with
  | nil => rfl
  | cons b queue ih =>
      cases hsock : (σ.buffer b).sock with
      | none =>
          rw [List.countP_cons_of_neg (by simp [hsock]), List.filterMap_cons_none, ih]
          rw [BufferObj.toSeat, hsock]
          rfl
      | some q =>
          have hseat : (σ.buffer b).toSeat = some ⟨q, true, [(σ.buffer b).chunk]⟩ := by
            rw [BufferObj.toSeat, hsock]
            rfl
          rw [List.filterMap_cons_some (f := fun b => (σ.buffer b).toSeat) hseat,
            ← Multiset.cons_coe, Multiset.map_cons, Multiset.count_cons, List.countP_cons, ih,
            hsock]
          simp [eq_comm]

theorem Seating.one (H : Seating σ (seats σ queue B) (guests σ B)) (p : SockPtr) :
    (σ.flight.countP fun op => op.key = .sock p) +
      (queue.countP fun b => (σ.buffer b).sock = some p) ≤ 1 := by
  have hone := Multiset.nodup_iff_count_le_one.mp H.once p
  rw [seats, Multiset.map_add, Multiset.map_add, Multiset.count_add, Multiset.count_add] at hone
  rw [count_flight, count_queue]
  omega

/-! ## Nothing is lost -/

theorem queued_of_seat {q : Seat} (hq : q ∈ seats σ queue 0) (hcs : q.cs ≠ []) :
    ∃ b ∈ queue, (σ.buffer b).sock = some q.sock ∧ q.cs = [(σ.buffer b).chunk] := by
  rw [seats, Multiset.filterMap_zero, add_zero, Multiset.mem_add] at hq
  rcases hq with hq | hq
  · obtain ⟨op, -, hseat⟩ := List.mem_filterMap.mp hq
    unfold Op.toSeat at hseat
    split at hseat
    · cases hseat
      exact absurd rfl hcs
    · cases hseat
  · obtain ⟨b, hb, hseat⟩ := List.mem_filterMap.mp hq
    obtain ⟨p, hp, rfl⟩ := Option.map_eq_some_iff.mp hseat
    exact ⟨b, hb, hp, rfl⟩

/-- A client socket that no thread has to do with has no data. -/
theorem guest_empty {g : Guest} (hg : g ∈ guests σ 0) : g.2 = [] := by
  rw [guests, Multiset.filterMap_zero, add_zero] at hg
  obtain ⟨op, -, hguest⟩ := List.mem_filterMap.mp hg
  unfold Op.toGuest at hguest
  split at hguest
  · cases hguest
    rfl
  · cases hguest

theorem Sockets.rest {w : Prop} (H : Sockets w σ queue 0 U) (hw : w) (h : Nat) :
    σ.received h = σ.posted h ∨ ∃ b ∈ queue, ∃ p, (σ.buffer b).sock = some p ∧
      (σ.socket p.obj).s = some h ∧ σ.received h = σ.posted h ++ [(σ.buffer b).chunk] := by
  by_cases heq : σ.received h = σ.posted h
  · exact .inl heq
  rcases H.whole hw h heq with ⟨q, hq, hcs, hs⟩ | ⟨g, hg, hne, -⟩
  · obtain ⟨b, hb, hsock, hchunk⟩ := queued_of_seat hq hcs
    obtain ⟨k, hk⟩ := H.seating.seated q hq
    obtain rfl : k = h := Option.some.inj (hk.owner.2.1.symm.trans hs)
    exact .inr ⟨b, hb, q.sock, hsock, hs, hchunk ▸ hk.stream⟩
  · exact absurd (guest_empty hg) hne

/-! ## Every run -/

theorem undisturbed_run (h : Via (system cfg).step Undisturbed (start cfg threads) m) :
    ∃ rs, (rules cfg .quiet).Good m rs := by
  refine world_run (fun m rs t e _ hcond => ?_) (fun _ _ _ _ _ _ _ _ _ _ hquiet => absurd rfl hquiet)
    (fun m t x c hcond hc => ⟨nofun, fun _ hserves => ?_⟩) h
  · cases e with
    | completion op error data rounds =>
        obtain ⟨rfl, hdata⟩ := hcond
        exact ⟨fun _ => nofun, fun _ => ⟨rfl, hdata⟩⟩
    | _ => trivial
  · exact hcond c hc hserves

theorem echoes_of_good {rs : List Res} (hgood : (rules cfg .quiet).Good m rs)
    (hfailed : m.shared.failedSends = 0) : Echoes cfg m := by
  have H : World cfg .quiet m.shared rs.sum.1 rs.sum.2.1 rs.sum.2.2.1 rs.sum.2.2.2 := hgood.inv
  obtain ⟨L, hL⟩ := H.listed rfl
  have hchain := hL.buffers.lists.chain .gPendingSendList id
  have hsockets := hL.sockets rfl
  have hseating := hsockets.seating
  have hrest : m.Quiescent → ∃ L', Listed cfg .quiet m.shared L' 0 0 0 0 ∧
      L' .gPendingSendList = L .gPendingSendList := by
    intro hq
    obtain ⟨L', hL'⟩ := (world_quiescent hgood hq).listed rfl
    exact ⟨L', hL', (hL'.buffers.lists.chain .gPendingSendList id).unique hchain⟩
  refine ⟨hseating.inOrder, fun h c hc => ?_, ⟨L .gPendingSendList, hchain, hseating.one, ?_⟩, ?_⟩
  · exact hseating.source h c ((hseating.inOrder h).subset hc)
  · intro hq h
    obtain ⟨L', hL', hsame⟩ := hrest hq
    exact hsame ▸ (hL'.sockets rfl).rest rfl h
  · intro hq hmax hsends h
    obtain ⟨L', hL', -⟩ := hrest hq
    have hcount : m.shared.gOutstandingSends + 0 = m.shared.sends + m.shared.failedSends :=
      hL'.sends
    have hempty : L' .gPendingSendList = [] := by
      rcases hL'.drained rfl with hnil | hfull | hpos
      · exact hnil
      · omega
      · exact absurd hpos (Nat.lt_irrefl 0)
    rcases (hL'.sockets rfl).rest rfl h with heq | ⟨b, hb, -⟩
    · exact heq.symm
    · rw [hempty] at hb
      cases hb

/-- **Echo.**  In every run in which nothing fails and no client hangs up. -/
theorem echoes (h : Via (system cfg).step Undisturbed (start cfg threads) m) : Echoes cfg m := by
  obtain ⟨rs, hgood⟩ := undisturbed_run h
  refine echoes_of_good hgood (failedSends_run (fun m t op data rounds hcond => ?_) h)
  cases hcond.1

/-! Two clients, and one send at a time: the chunk of the second waits for the send of the
first, and is posted by the thread that handles its completion. -/

def oneAtATime : Config := ⟨4096, 2, 500, 1⟩

def crossed : List Action := List.flatten [
  [.begin 0 (.initialAccepts 0)],
  List.map (.run 0) [.ok, .ok, .handle 100, .ok, .ok, .ok, .ok, .handle 200, .ok, .ok],
  [.finish 0, .begin 0 (.completion ⟨.OP_ACCEPT, .listen 0, 100, 0, 3808⟩ false [7] 2)],
  List.replicate 19 (.run 0 .ok),
  [.finish 0, .begin 1 (.completion ⟨.OP_ACCEPT, .listen 0, 200, 1, 3808⟩ false [9] 2)],
  List.replicate 11 (.run 1 .ok),
  [.finish 1, .begin 0 (.completion ⟨.OP_WRITE, .sock ⟨0, 0⟩, 100, 0, 1⟩ false [] 3)],
  List.replicate 21 (.run 0 .ok), [.finish 0]]

theorem echoes_crossed : ∃ m, Via (system oneAtATime).step Undisturbed (start oneAtATime 2) m ∧
    m.shared.posted 100 = [⟨some 100, [7]⟩] ∧ m.shared.posted 200 = [⟨some 200, [9]⟩] ∧
    Echoes oneAtATime m := by
  have hrun : ∃ m, Via (system oneAtATime).step Undisturbed (start oneAtATime 2) m ∧
      m.shared.posted 100 = [⟨some 100, [7]⟩] ∧ m.shared.posted 200 = [⟨some 200, [9]⟩] :=
    exists_via_of_execIf crossed (by decide +kernel)
  obtain ⟨m, hm, hfirst, hsecond⟩ := hrun
  exact ⟨m, hm, hfirst, hsecond, echoes hm⟩

end CppWorkspace.ThrottledServer
