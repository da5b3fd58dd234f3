/-
# `CppWorkspace.ThrottledServer.Throttle` — how many sends are outstanding

`PostSend` raises `gOutstandingSends` and the handler of a send lowers it; what is queued
meanwhile is posted by `ProcessPendingOperations`, at the end of a handler.  The branch of
`HandleIo` for errors lowers only the count of the socket object, and does not look at the
queue.  So each failed send is counted for ever, and after `gMaxSends` of them nothing is
sent any more (`not_throttled`).

`Throttled` holds between any two calls of `HandleIo`, one after the other, if no send fails,
no accept but the oldest of its listener fails, and no send is refused while another one
waits (`throttled`).  An accept that fails leaves a freed buffer in `PendingAccepts`; behind
the last accept nobody comes across it.
-/
import Mathlib.Algebra.BigOperators.Group.Finset.Piecewise
import Mathlib.Algebra.BigOperators.Ring.Finset
import CppWorkspace.ThrottledServer.Events

namespace CppWorkspace.ThrottledServer

open Programs Runs LinkedList

/-- `gOutstandingSends` is the number of sends in flight, and the sum of the counts of all
socket objects; while less than `gMaxSends`, nothing is queued. -/
structure Throttled (cfg : Config) (σ : Server) : Prop where
  outstanding : σ.gOutstandingSends = σ.sends
  sum : ∑ k ∈ Finset.range σ.sockets, (σ.socket k).OutstandingSend = σ.gOutstandingSends
  waits : σ.gPendingSendList ≠ none → cfg.gMaxSends ≤ σ.gOutstandingSends
  /-- A send in flight will drain the queue. -/
  served : 0 < cfg.gMaxSends → σ.gPendingSendList ≠ none → 0 < σ.sends

/-- One event after the other. -/
def InTurn (m : Machine) : Action → Prop
  | .begin _ _ => m.Quiescent
  | _ => True

/-- No send completes with an error, and no accept but the oldest of its listener. -/
def Event.Delivers (σ : Server) : Event → Prop
  | .completion op error _ _ => error = true →
      op.operation = .OP_READ ∨ op.operation = .OP_ACCEPT ∧ σ.Oldest op.key op.buf
  | _ => True

instance (σ : Server) : (e : Event) → Decidable (e.Delivers σ)
  | .completion op error _ _ => inferInstanceAs (Decidable (error = true →
      op.operation = .OP_READ ∨ op.operation = .OP_ACCEPT ∧ σ.Oldest op.key op.buf))
  | .initialAccepts _ => .isTrue trivial
  | .FD_ACCEPT _ => .isTrue trivial
  | .RepostAccept _ => .isTrue trivial

def Cmd.sends : Cmd → Bool
  | .WSASend _ _ => true
  | _ => false

/-- And no send is refused while another one waits. -/
def Orderly (m : Machine) : Action → Prop
  | .begin _ e => m.Quiescent ∧ e.Delivers m.shared
  | .run t x => ∀ c ∈ m.next t, c.sends = true → x = .fail → m.shared.gPendingSendList = none
  | .finish _ => True

instance (m : Machine) : (a : Action) → Decidable (InTurn m a)
  | .begin _ _ => inferInstanceAs (Decidable m.Quiescent)
  | .run _ _ => .isTrue trivial
  | .finish _ => .isTrue trivial

instance (m : Machine) : (a : Action) → Decidable (Orderly m a)
  | .begin _ e => inferInstanceAs (Decidable (m.Quiescent ∧ e.Delivers m.shared))
  | .run t x => inferInstanceAs (Decidable (∀ c ∈ m.next t, c.sends = true → x = .fail →
      m.shared.gPendingSendList = none))
  | .finish _ => .isTrue trivial

variable {cfg : Config} {threads : Nat} {m : Machine} {σ : Server} {n : Nat}

/-! ## The counts -/

theorem sum_busy (flight : List Op)
    (h : ∀ op ∈ flight, op.operation = .OP_WRITE → ∃ k < n, op.key.obj = some k) :
    ∑ k ∈ Finset.range n, busy .OP_WRITE k flight =
      flight.countP fun op => op.operation = .OP_WRITE := by
  induction flight with
  | nil => exact Finset.sum_const_zero
  | cons op flight ih =>
      have hrest := ih fun op' hop' => h op' (List.mem_cons_of_mem op hop')
      simp only [busy_cons, Finset.sum_add_distrib, hrest, List.countP_cons]
      congr 1
      by_cases hop : op.operation = .OP_WRITE
      · obtain ⟨k, hk, hkey⟩ := h op List.mem_cons_self hop
        simp only [hop, hkey, Option.some.injEq, true_and, Finset.sum_ite_eq, Finset.mem_range, hk,
          if_true, decide_true]
      · simp [hop]

theorem sum_outstandingSend {w : Prop} {queue : List Nat} (H : Sockets w σ queue 0 0)
    (hkind : ∀ op ∈ σ.flight, op.operation = .OP_ACCEPT ↔ ∃ l, op.key = .listen l) :
    ∑ k ∈ Finset.range σ.sockets, (σ.socket k).OutstandingSend = σ.sends := by
  have heach : ∀ k, (σ.socket k).OutstandingSend = (busy .OP_WRITE k σ.flight : Int) := fun k =>
    (add_zero _).symm.trans (H.users.count .OP_WRITE nofun k)
  rw [Finset.sum_congr rfl fun k _ => heach k, ← Nat.cast_sum, sum_busy, Server.sends]
  intro op hop hwrite
  cases hkey : op.key with
  | listen l =>
      have haccept := (hkind op hop).mpr ⟨l, hkey⟩
      rw [hwrite] at haccept
      cases haccept
  | sock p =>
      obtain ⟨h, hh⟩ := H.seating.seated _ (Sockets.seat_of_flight hop hkey)
      exact ⟨p.obj, (H.objects.exist p hh.owner.1).1, rfl⟩

theorem throttled_of_world (H : World cfg .drain σ 0 0 0 0) (hfailed : σ.failedSends = 0) :
    Throttled cfg σ := by
  obtain ⟨L, hL⟩ := H.listed rfl
  have hcount : σ.gOutstandingSends = σ.sends := by
    have hsends : σ.gOutstandingSends + 0 = σ.sends + σ.failedSends := hL.sends
    omega
  have hwaits : σ.gPendingSendList ≠ none → cfg.gMaxSends ≤ σ.gOutstandingSends := by
    intro hqueue
    rcases hL.drained rfl with hnil | hfull | hpos
    · have hchain := hL.buffers.lists.chain .gPendingSendList id
      rw [hnil] at hchain
      exact absurd hchain hqueue
    · exact hfull
    · exact absurd hpos (Nat.lt_irrefl 0)
  refine ⟨hcount, ?_, hwaits, fun hmax hqueue => ?_⟩
  · rw [hcount]
    exact sum_outstandingSend (hL.sockets rfl) H.accepts.kind
  · have hfull := hwaits hqueue
    omega

/-! ## Every run -/

theorem orderly_run (h : Via (system cfg).step Orderly (start cfg threads) m) :
    ∃ rs, (rules cfg .drain).Good m rs := by
  refine world_run_solo (fun m t e hcond => hcond.1) (fun m t e hcond => ?_)
    (fun m t x c hcond hc => ⟨fun _ p b hsend hx => ?_, nofun⟩) h
  · obtain ⟨-, hdelivers⟩ := hcond
    cases e with
    | completion op error data rounds =>
        refine ⟨fun _ herror haccept => ⟨rfl, ?_⟩, nofun⟩
        rcases hdelivers herror with hread | ⟨-, hold⟩
        · rw [haccept] at hread
          cases hread
        · exact hold
    | _ => trivial
  · subst hsend
    exact hcond _ hc rfl hx

/-- **Throttle.**  Between any two calls of `HandleIo`. -/
theorem throttled (h : Via (system cfg).step Orderly (start cfg threads) m) (hq : m.Quiescent) :
    Throttled cfg m.shared := by
  obtain ⟨rs, hgood⟩ := orderly_run h
  refine throttled_of_world (world_quiescent hgood hq)
    (failedSends_run (fun m t op data rounds hcond hwrite => ?_) h)
  rcases hcond.2 rfl with hread | ⟨haccept, -⟩
  · rw [hwrite] at hread
    cases hread
  · rw [hwrite] at haccept
    cases haccept

/-! Two clients, and one send at a time: what the second has sent waits for the send of the
first. -/

def oneSend : Config := ⟨4096, 2, 500, 1⟩

def firstSent : List Action := List.flatten [
  [.begin 0 (.initialAccepts 0)],
  List.map (.run 0) [.ok, .ok, .handle 100, .ok, .ok, .ok, .ok, .handle 200, .ok, .ok],
  [.finish 0, .begin 0 (.completion ⟨.OP_ACCEPT, .listen 0, 100, 0, 3808⟩ false [7] 2)],
  List.replicate 19 (.run 0 .ok), [.finish 0]]

/-- A client hangs up before it is accepted; its buffer is in the next accept again. -/
def hangsUp : List Action := List.flatten [
  [.begin 0 (.completion ⟨.OP_ACCEPT, .listen 0, 200, 1, 3808⟩ true [] 0)],
  List.replicate 3 (.run 0 .ok), [.finish 0, .begin 0 (.RepostAccept 0)],
  List.map (.run 0) [.ok, .ok, .ok, .ok, .handle 300, .ok, .ok], [.finish 0]]

def secondWaits (h : Nat) : List Action :=
  .begin 0 (.completion ⟨.OP_ACCEPT, .listen 0, h, 1, 3808⟩ false [9] 2) ::
    (List.replicate 11 (.run 0 .ok) ++ [.finish 0])

/-- The send of the first fails. -/
def firstFails : List Action :=
  .begin 0 (.completion ⟨.OP_WRITE, .sock ⟨0, 0⟩, 100, 0, 1⟩ true [] 0) ::
    (List.replicate 9 (.run 0 .ok) ++ [.finish 0])

theorem throttled_secondWaits : ∃ m, Via (system oneSend).step Orderly (start oneSend 1) m ∧
    m.shared.gPendingSendList = some 1 ∧ Throttled oneSend m.shared := by
  have hrun : ∃ m, Via (system oneSend).step Orderly (start oneSend 1) m ∧ m.Quiescent ∧
      m.shared.gPendingSendList = some 1 :=
    exists_via_of_execIf (firstSent ++ hangsUp ++ secondWaits 300) (by decide +kernel)
  obtain ⟨m, hm, hq, hqueue⟩ := hrun
  exact ⟨m, hm, hqueue, throttled hm hq⟩

theorem not_throttled : ∃ m, Via (system oneSend).step InTurn (start oneSend 1) m ∧ m.Quiescent ∧
    m.shared.flight = [] ∧ m.shared.gOutstandingSends = 1 ∧ m.shared.gPendingSendList = some 1 ∧
    ¬ Throttled oneSend m.shared := by
  have hrun : ∃ m, Via (system oneSend).step InTurn (start oneSend 1) m ∧ m.Quiescent ∧
      m.shared.flight = [] ∧ m.shared.gOutstandingSends = 1 ∧
      m.shared.gPendingSendList = some 1 :=
    exists_via_of_execIf (firstSent ++ firstFails ++ secondWaits 200) (by decide +kernel)
  obtain ⟨m, hm, hq, hflight, hcount, hqueue⟩ := hrun
  refine ⟨m, hm, hq, hflight, hcount, hqueue, fun h => ?_⟩
  have hsends := h.outstanding
  rw [hcount, Server.sends, hflight] at hsends
  cases hsends

end CppWorkspace.ThrottledServer
