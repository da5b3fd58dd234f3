/-
# `CppWorkspace.UdpServer.Conservation` — receives and contexts are kept

A completed receive is to be followed by one new receive, and a completed send by none.
`WorkThread` does so, except that its error branch does not ask which operation has
failed: a send that completes with an error is followed by a receive as well
(`receives_multiply`).

A context is idle, in flight or owned by a thread.  `IssueReceiveOperation` keeps it
for ever if `WSARecvFrom` fails with `WSAECONNRESET`, and `ReleaseContext` drops it if
the stack is full; all other failures give it back.

In a run without these three cases (`Clean`) both are kept (`receives_conserved`).  The
machine is the one of `UdpServer.Server` with a record of the events that have begun.
-/
import Mathlib.Data.Multiset.Range
import CppWorkspace.UdpServer.Echo
import Mathlib.Algebra.Ring.Nat

namespace CppWorkspace.UdpServer

open Programs Runs

/-! ## Runs with a record of their events -/

abbrev History := Programs.Machine (Server × List Event) Cmd Cmd.Reply Event Unit

/-- All threads idle, and nothing has happened. -/
def History.start (threads : Nat) : History := ⟨(.start, []), List.replicate threads none⟩

/-- The calls of `WSARecvFrom` that an event is to make. -/
def Event.posts : Event → Nat
  | .InitServer => m_iMaxPostReceiveNumbs
  | .completion op _ _ _ => if op.mode = .SC_WAIT_RECEIVE then 1 else 0

/-- The receives that an event completes. -/
def Event.completes : Event → Nat
  | .InitServer => 0
  | .completion op _ _ _ => if op.mode = .SC_WAIT_RECEIVE then 1 else 0

/-- The receives in flight. -/
def Server.receiving (σ : Server) : Nat := σ.flight.countP fun op => op.mode = .SC_WAIT_RECEIVE

def Cmd.isReceive : Cmd → Bool
  | .WSARecvFrom _ => true
  | _ => false

def Cmd.isRelease : Cmd → Bool
  | .ReleaseContext _ => true
  | _ => false

/-- Every call of `WSARecvFrom` is accepted. -/
def Accepting (m : History) : Action → Prop
  | .run t x => ∀ c ∈ m.next t, c.isReceive → x = .ok
  | _ => True

/-- No send completes with an error, no receive is refused with `WSAECONNRESET`, and no
context is released on a full stack. -/
def Clean (m : History) : Action → Prop
  | .run t x => ∀ c ∈ m.next t, (c.isReceive → x ≠ .WSAECONNRESET) ∧
      (c.isRelease → m.shared.1.stack.length < MAX_STACK_CAPACITY)
  | .begin _ (.completion op bResult _ _) => op.mode = .SC_WAIT_TRANSMIT → bResult = true
  | _ => True

instance (m : History) : (a : Action) → Decidable (Accepting m a)
  | .run t x => inferInstanceAs (Decidable (∀ c ∈ m.next t, c.isReceive → x = .ok))
  | .begin _ _ | .finish _ => .isTrue trivial

instance (m : History) : (a : Action) → Decidable (Clean m a)
  | .run t x => inferInstanceAs (Decidable (∀ c ∈ m.next t,
      (c.isReceive → x ≠ .WSAECONNRESET) ∧
      (c.isRelease → m.shared.1.stack.length < MAX_STACK_CAPACITY)))
  | .begin _ (.completion op bResult _ _) =>
      inferInstanceAs (Decidable (op.mode = .SC_WAIT_TRANSMIT → bResult = true))
  | .begin _ .InitServer | .finish _ => .isTrue trivial

/-! ## Where the contexts are -/

/-- Each context that exists is in one place, and its owner knows its contents. -/
structure Placed (σ : Server) (B : Multiset Block) : Prop where
  all : places σ B = Multiset.range σ.size
  contents : ∀ b ∈ B, σ.context b.1 = b.2
  mode : ∀ op ∈ σ.flight, (σ.context op.ctx).m_iOperateMode = op.mode

namespace Placed

variable {σ σ' : Server} {B B' : Multiset Block} {c : Nat} {x y : Context}

theorem nodup (H : Placed σ B) : (places σ B).Nodup := by
  rw [H.all]
  exact Multiset.nodup_range _

theorem same (H : Placed σ B) (hstack : σ'.stack = σ.stack) (hsize : σ'.size = σ.size)
    (hcontext : σ'.context = σ.context) (hflight : σ'.flight = σ.flight) : Placed σ' B where
  all := by
    rw [places, hstack, hflight, hsize]
    exact H.all
  contents := hcontext ▸ H.contents
  mode := by
    rw [hflight, hcontext]
    exact H.mode

theorem exclusive (H : Placed σ ((c, x) ::ₘ B)) :
    (∀ op ∈ σ.flight, op.ctx ≠ c) ∧ ∀ b ∈ B, b.1 ≠ c := by
  have hnodup := H.nodup
  rw [places_cons, Multiset.nodup_cons, mem_places] at hnodup
  refine ⟨?_, ?_⟩
  · rintro op hop rfl
    exact hnodup.1 (.inr (.inl ⟨op, hop, rfl⟩))
  · rintro b hb rfl
    exact hnodup.1 (.inr (.inr ⟨b, hb, rfl⟩))

theorem write (hflight : ∀ op ∈ σ.flight, op.ctx ≠ c) (hB : ∀ b ∈ B, b.1 ≠ c)
    (hcontents : ∀ b ∈ B, σ.context b.1 = b.2)
    (hmode : ∀ op ∈ σ.flight, (σ.context op.ctx).m_iOperateMode = op.mode)
    (hall : places σ ((c, y) ::ₘ B) = Multiset.range σ.size) :
    Placed { σ with context := Function.update σ.context c y } ((c, y) ::ₘ B) where
  all := hall
  contents := by
    intro b hb
    rcases Multiset.mem_cons.mp hb with rfl | hb
    · exact Function.update_self ..
    · exact (Function.update_of_ne (hB b hb) ..).trans (hcontents b hb)
  mode := by
    intro op hop
    dsimp only
    rw [Function.update_of_ne (hflight op hop)]
    exact hmode op hop

theorem set (H : Placed σ ((c, x) ::ₘ B)) :
    Placed { σ with context := Function.update σ.context c y } ((c, y) ::ₘ B) := by
  obtain ⟨hflight, hB⟩ := H.exclusive
  refine write hflight hB (fun b hb => H.contents b (Multiset.mem_cons_of_mem hb)) H.mode ?_
  rw [← H.all, places_cons, places_cons]

theorem release (H : Placed σ ((c, x) ::ₘ B)) (hstack : σ.stack.length < MAX_STACK_CAPACITY) :
    Placed (σ.ReleaseContext c) B where
  all := by
    rw [Server.ReleaseContext, if_pos hstack]
    refine Eq.trans ?_ H.all
    rw [places_cons, places, places, ← Multiset.cons_add, ← Multiset.cons_add, Multiset.cons_coe]
  contents b hb := H.contents b (Multiset.mem_cons_of_mem hb)
  mode := H.mode

theorem get {mode : Mode} (H : Placed σ B) : Placed (σ.GetContext mode).1
    (((σ.GetContext mode).2, { σ.top with m_iOperateMode := mode }) ::ₘ B) := by
  generalize hx : ({ σ.top with m_iOperateMode := mode } : Context) = x
  rw [Server.GetContext, hx]
  cases hstack : σ.stack with
  | cons c stack =>
      have hplaces : places { σ with stack := stack } ((c, x) ::ₘ B) = places σ B := by
        rw [places_cons, places, places, hstack, ← Multiset.cons_coe, Multiset.cons_add,
          Multiset.cons_add]
      have hnodup := hplaces ▸ H.nodup
      rw [places_cons, Multiset.nodup_cons, mem_places] at hnodup
      exact write (σ := { σ with stack := stack })
        (fun op hop heq => hnodup.1 (.inr (.inl ⟨op, hop, heq⟩)))
        (fun b hb heq => hnodup.1 (.inr (.inr ⟨b, hb, heq⟩))) H.contents H.mode
        (hplaces.trans H.all)
  | nil =>
      have hnew : σ.size ∉ places σ B := by
        rw [H.all]
        exact Multiset.notMem_range_self
      refine write (σ := { σ with stack := [], size := σ.size + 1 })
        (fun op hop heq => hnew (mem_places.mpr (.inr (.inl ⟨op, hop, heq⟩))))
        (fun b hb heq => hnew (mem_places.mpr (.inr (.inr ⟨b, hb, heq⟩)))) H.contents H.mode ?_
      rw [places_cons, Multiset.range_succ, ← H.all, places, places, hstack]

theorem post {k : Mode} (H : Placed σ ((c, x) ::ₘ B)) (hmode : x.m_iOperateMode = k) :
    Placed { σ with flight := ⟨k, c, (σ.context c).len⟩ :: σ.flight } B where
  all := by
    rw [← H.all, places_cons, places, places, ← Multiset.cons_add, ← Multiset.add_cons]
    rfl
  contents b hb := H.contents b (Multiset.mem_cons_of_mem hb)
  mode := by
    intro op hop
    rcases List.mem_cons.mp hop with rfl | hop
    · exact (congrArg Context.m_iOperateMode
        (H.contents _ (Multiset.mem_cons_self _ _))).trans hmode
    · exact H.mode op hop

/-- An operation completes: its context goes to the thread. -/
theorem complete {op : Op} (H : Placed σ B) (hop : op ∈ σ.flight) :
    Placed { σ with
      flight := σ.flight.erase op, context := Function.update σ.context op.ctx y }
      ((op.ctx, y) ::ₘ B) := by
  have hplaces : places { σ with flight := σ.flight.erase op } ((op.ctx, y) ::ₘ B) =
      places σ B := by
    have hperm : (σ.flight.map Op.ctx : Multiset Nat) =
        op.ctx ::ₘ ((σ.flight.erase op).map Op.ctx : Multiset Nat) := by
      rw [Multiset.cons_coe, Multiset.coe_eq_coe]
      exact (List.perm_cons_erase hop).map Op.ctx
    rw [places_cons, places, places, hperm, Multiset.add_cons, Multiset.cons_add]
  have hnodup := hplaces ▸ H.nodup
  rw [places_cons, Multiset.nodup_cons, mem_places] at hnodup
  exact write (σ := { σ with flight := σ.flight.erase op })
    (fun op' hop' heq => hnodup.1 (.inr (.inl ⟨op', hop', heq⟩)))
    (fun b hb heq => hnodup.1 (.inr (.inr ⟨b, hb, heq⟩))) H.contents
    (fun op' hop' => H.mode op' (List.mem_of_mem_erase hop')) (hplaces.trans H.all)

end Placed

/-! ## How many receives there are -/

theorem getContext_receives {σ : Server} {mode : Mode} :
    (σ.GetContext mode).1.receives = σ.receives := by
  rw [Server.GetContext]
  cases σ.stack <;> rfl

theorem getContext_flight {σ : Server} {mode : Mode} :
    (σ.GetContext mode).1.flight = σ.flight := by
  rw [Server.GetContext]
  cases σ.stack <;> rfl

/-- The threads have still to call `WSARecvFrom` `O` times; if all calls were accepted,
the receives in flight are those that were posted and have not completed. -/
structure Counted (acc : Bool) (σ : Server) (es : List Event) (O : Nat) : Prop where
  calls : σ.receives.length + O = (es.map Event.posts).sum
  accepted : acc = true → σ.receiving + (es.map Event.completes).sum = σ.receives.length

namespace Counted

variable {acc : Bool} {σ σ' : Server} {es : List Event} {O : Nat} {c t : Nat} {x : Choice}

theorem same (H : Counted acc σ es O) (hreceives : σ'.receives = σ.receives)
    (hflight : σ'.receiving = σ.receiving) : Counted acc σ' es O := by
  refine ⟨?_, fun hacc => ?_⟩
  · rw [hreceives]
    exact H.calls
  · rw [hreceives, hflight]
    exact H.accepted hacc

/-- A receive is posted: one call less is owed. -/
theorem receive (H : Counted acc σ es (O + 1)) (hx : acc = true → x = .ok) :
    Counted acc (σ.WSARecvFrom c x) es O := by
  have hlength : (σ.WSARecvFrom c x).receives.length = σ.receives.length + 1 :=
    List.length_append
  refine ⟨?_, fun hacc => ?_⟩
  · have hcalls := H.calls
    omega
  · have haccepted := H.accepted hacc
    have hreceiving : (σ.WSARecvFrom c x).receiving = σ.receiving + 1 := by
      rw [Server.receiving, Server.WSARecvFrom, if_pos (hx hacc), List.countP_cons_of_pos (by simp),
        Server.receiving]
    omega

theorem send (H : Counted acc σ es O) : Counted acc (σ.WSASendTo t c x) es O := by
  refine H.same rfl ?_
  rw [Server.receiving, Server.WSASendTo, Server.receiving]
  dsimp only
  split
  · rw [List.countP_cons_of_neg (by simp)]
  · rfl

/-- An operation completes: a receive is owed for a receive. -/
theorem complete {op : Op} {b : Bool} {addr : sockaddr_in} {data : List UInt8}
    (H : Counted acc σ es O) (hop : op ∈ σ.flight) (hreceives : σ'.receives = σ.receives)
    (hflight : σ'.flight = σ.flight.erase op) :
    Counted acc σ' (es ++ [.completion op b addr data])
      ((Event.completion op b addr data).posts + O) := by
  have hcount : σ'.receiving + (Event.completion op b addr data).completes = σ.receiving := by
    have hperm := (List.perm_cons_erase hop).countP_eq fun op => op.mode = .SC_WAIT_RECEIVE
    rw [List.countP_cons] at hperm
    rw [Server.receiving, Server.receiving, hflight, Event.completes, hperm]
    simp
  refine ⟨?_, fun hacc => ?_⟩
  · have hcalls := H.calls
    rw [hreceives, List.map_append, List.sum_append, List.map_singleton, List.sum_singleton]
    omega
  · have haccepted := H.accepted hacc
    rw [hreceives, List.map_append, List.sum_append, List.map_singleton, List.sum_singleton]
    omega

theorem init (H : Counted acc σ es O) :
    Counted acc σ (es ++ [.InitServer]) (m_iMaxPostReceiveNumbs + O) := by
  refine ⟨?_, fun hacc => ?_⟩
  · have hcalls := H.calls
    rw [List.map_append, List.sum_append, List.map_singleton, List.sum_singleton, Event.posts]
    omega
  · rw [List.map_append, List.sum_append]
    exact H.accepted hacc

end Counted

/-! ## The functions -/

/-- The rules for clean runs; with `acc`, every receive is accepted. -/
def ledger (acc : Bool) :
    Logic (Server × List Event) Cmd Cmd.Reply Choice Event Unit (Multiset Block × Nat) where
  toSystem := system.recorded
  Inv s R := Placed s.1 R.1 ∧ Counted acc s.1 s.2 R.2
  Pre _ _ _ _ _ := True
  ok _ _ c s _ x :=
    (c.isReceive → x ≠ .WSAECONNRESET ∧ (acc = true → x = .ok)) ∧
    (c.isRelease → s.1.stack.length < MAX_STACK_CAPACITY)

section
variable {acc : Bool} {t : Nat} {e : Event} {c src n O : Nat} {x : Context} {B : Multiset Block}

theorem keeps_getContext {mode : Mode} : Does (ledger acc) t e (.GetContext mode) (B, O)
    fun v r => ∃ x, r = ((v, x) ::ₘ B, O) ∧ x.m_iOperateMode = mode := by
  rintro ⟨σ, es⟩ ⟨F, G⟩ ⟨hplaced, hcounted⟩
  refine ⟨trivial, ?_⟩
  rintro x ⟨σ', es'⟩ v - hexec
  obtain ⟨⟨σ₁, v₁⟩, hexec, heq⟩ := Option.map_eq_some_iff.mp hexec
  cases heq
  cases x with
  | ok =>
      cases hexec
      refine ⟨(((σ.GetContext mode).2, { σ.top with m_iOperateMode := mode }) ::ₘ B, O),
        ⟨?_, hcounted.same getContext_receives ?_⟩, _, rfl, rfl⟩
      · change Placed _ (_ ::ₘ B + F)
        rw [Multiset.cons_add]
        exact hplaced.get
      · rw [Server.receiving, getContext_flight, Server.receiving]
  | WSAECONNRESET => cases hexec
  | error => cases hexec

theorem keeps_releaseContext :
    Does (ledger acc) t e (.ReleaseContext c) ((c, x) ::ₘ B, O) fun _ r => r = (B, O) := by
  rintro ⟨σ, es⟩ ⟨F, G⟩ ⟨hplaced, hcounted⟩
  refine ⟨trivial, ?_⟩
  change Placed σ ((c, x) ::ₘ B + F) at hplaced
  rw [Multiset.cons_add] at hplaced
  rintro z ⟨σ', es'⟩ v ⟨-, hstack⟩ hexec
  obtain ⟨⟨σ₁, v₁⟩, hexec, heq⟩ := Option.map_eq_some_iff.mp hexec
  cases heq
  cases z with
  | ok =>
      cases hexec
      exact ⟨(B, O), ⟨hplaced.release (hstack rfl), hcounted.same rfl rfl⟩, rfl⟩
  | WSAECONNRESET => cases hexec
  | error => cases hexec

theorem keeps_m_iOperateMode :
    Does (ledger acc) t e (.m_iOperateMode c) ((c, x) ::ₘ B, O) fun v r =>
      v = x.m_iOperateMode ∧ r = ((c, x) ::ₘ B, O) := by
  rintro ⟨σ, es⟩ ⟨F, G⟩ ⟨hplaced, hcounted⟩
  refine ⟨trivial, ?_⟩
  rintro z ⟨σ', es'⟩ v - hexec
  obtain ⟨⟨σ₁, v₁⟩, hexec, heq⟩ := Option.map_eq_some_iff.mp hexec
  cases heq
  cases z with
  | ok =>
      cases hexec
      refine ⟨((c, x) ::ₘ B, O), ⟨hplaced, hcounted⟩, ?_, rfl⟩
      change Placed σ ((c, x) ::ₘ B + F) at hplaced
      rw [Multiset.cons_add] at hplaced
      exact congrArg Context.m_iOperateMode (hplaced.contents _ (Multiset.mem_cons_self _ _))
  | WSAECONNRESET => cases hexec
  | error => cases hexec

theorem keeps_setSendParameters :
    Does (ledger acc) t e (.SetSendParameters c src n) ((c, x) ::ₘ B, O) fun _ r =>
      ∃ y, r = ((c, y) ::ₘ B, O) ∧ y.m_iOperateMode = x.m_iOperateMode := by
  rintro ⟨σ, es⟩ ⟨F, G⟩ ⟨hplaced, hcounted⟩
  refine ⟨trivial, ?_⟩
  change Placed σ ((c, x) ::ₘ B + F) at hplaced
  rw [Multiset.cons_add] at hplaced
  have hx : σ.context c = x := hplaced.contents _ (Multiset.mem_cons_self _ _)
  rintro z ⟨σ', es'⟩ v - hexec
  obtain ⟨⟨σ₁, v₁⟩, hexec, heq⟩ := Option.map_eq_some_iff.mp hexec
  cases heq
  cases z with
  | ok =>
      cases hexec
      refine ⟨((c, ((σ.context c).SetSendParameters (σ.context src).m_struRemoteAddr
        (σ.context src).buf n).1) ::ₘ B, O), ⟨?_, hcounted.same rfl rfl⟩, _, rfl, ?_⟩
      · change Placed _ ((c, _) ::ₘ B + F)
        rw [Multiset.cons_add]
        exact hplaced.set
      · rw [hx, Context.SetSendParameters]
        split <;> rfl
  | WSAECONNRESET => cases hexec
  | error => cases hexec

theorem keeps_wsaRecvFrom (hmode : x.m_iOperateMode = .SC_WAIT_RECEIVE) :
    Does (ledger acc) t e (.WSARecvFrom c) ((c, x) ::ₘ B, O + 1) fun v r =>
      v ≠ .WSAECONNRESET ∧ r = (if v = .ok then B else (c, x) ::ₘ B, O) := by
  rintro ⟨σ, es⟩ ⟨F, G⟩ ⟨hplaced, hcounted⟩
  refine ⟨trivial, ?_⟩
  change Placed σ ((c, x) ::ₘ B + F) at hplaced
  change Counted acc σ es (O + 1 + G) at hcounted
  rw [Multiset.cons_add] at hplaced
  rw [Nat.add_right_comm] at hcounted
  rintro z ⟨σ', es'⟩ v ⟨hok, -⟩ hexec
  cases hexec
  obtain ⟨hreset, hacc⟩ := hok rfl
  have hcalled := hcounted.receive (c := c) hacc
  cases z with
  | ok => exact ⟨(B, O), ⟨(hplaced.post hmode).same rfl rfl rfl rfl, hcalled⟩, hreset, rfl⟩
  | WSAECONNRESET => exact absurd rfl hreset
  | error =>
      refine ⟨((c, x) ::ₘ B, O), ⟨?_, hcalled⟩, hreset, rfl⟩
      change Placed _ ((c, x) ::ₘ B + F)
      rw [Multiset.cons_add]
      exact hplaced.same rfl rfl rfl rfl

theorem keeps_wsaSendTo (hmode : x.m_iOperateMode = .SC_WAIT_TRANSMIT) :
    Does (ledger acc) t e (.WSASendTo c) ((c, x) ::ₘ B, O) fun v r =>
      r = (if v then B else (c, x) ::ₘ B, O) := by
  rintro ⟨σ, es⟩ ⟨F, G⟩ ⟨hplaced, hcounted⟩
  refine ⟨trivial, ?_⟩
  change Placed σ ((c, x) ::ₘ B + F) at hplaced
  rw [Multiset.cons_add] at hplaced
  rintro z ⟨σ', es'⟩ v - hexec
  cases hexec
  have hcalled := hcounted.send (t := t) (c := c) (x := z)
  by_cases hz : z = .ok
  · subst hz
    exact ⟨(B, O), ⟨(hplaced.post hmode).same rfl rfl rfl rfl, hcalled⟩, rfl⟩
  · refine ⟨((c, x) ::ₘ B, O), ⟨?_, hcalled⟩, by simp [hz]⟩
    change Placed _ ((c, x) ::ₘ B + F)
    rw [Multiset.cons_add]
    exact hplaced.same rfl rfl rfl (if_neg hz)

/-- One call of `WSARecvFrom`; the context is in flight or idle again. -/
theorem keeps_issueReceiveOperation :
    wp (ledger acc) t e IssueReceiveOperation (fun _ r => r = (B, O)) (B, O + 1) := by
  refine wp_call keeps_getContext ?_
  rintro c _ ⟨x, rfl, hmode⟩
  refine wp_call (keeps_wsaRecvFrom hmode) ?_
  rintro v _ ⟨hreset, rfl⟩
  cases v with
  | ok => exact wp_ret rfl
  | WSAECONNRESET => exact absurd rfl hreset
  | error =>
      refine wp_call keeps_releaseContext ?_
      rintro _ _ rfl
      exact wp_ret rfl

theorem keeps_postReceiveOperation (n : Nat) :
    wp (ledger acc) t e (PostReceiveOperation n) (fun _ r => r = (B, O)) (B, O + n) := by
  induction n with
  | zero => exact wp_ret rfl
  | succ n ih =>
      refine wp_after keeps_issueReceiveOperation ?_
      rintro _ _ rfl
      refine wp_after ih ?_
      rintro _ _ rfl
      exact wp_ret rfl

theorem keeps_sendLoop (rounds n : Nat) :
    wp (ledger acc) t e (sendLoop src rounds n) (fun _ r => r = (B, O)) (B, O) := by
  induction rounds generalizing n with
  | zero => exact wp_ret rfl
  | succ rounds ih =>
      refine wp_call keeps_getContext ?_
      rintro c _ ⟨x, rfl, hmode⟩
      refine wp_call keeps_setSendParameters ?_
      rintro leavingBytes _ ⟨y, rfl, hy⟩
      refine wp_call (keeps_wsaSendTo (hy.trans hmode)) ?_
      rintro v _ rfl
      cases v with
      | true =>
          show wp _ t e (if leavingBytes ≠ 0 then _ else _) _ _
          split
          · exact ih leavingBytes
          · exact wp_ret rfl
      | false => exact wp_perform keeps_releaseContext

theorem keeps_issueSendOperation (n : Nat) :
    wp (ledger acc) t e (IssueSendOperation src n) (fun _ r => r = (B, O)) (B, O) := by
  rw [IssueSendOperation]
  split
  · exact keeps_sendLoop n n
  · exact wp_ret rfl

theorem keeps_receiveAgain :
    wp (ledger acc) t e (receiveAgain c) (fun _ r => r = 0) ({(c, x)}, 1) := by
  rw [← Multiset.cons_zero (c, x)]
  refine wp_call keeps_releaseContext ?_
  rintro _ _ rfl
  refine wp_after (keeps_issueReceiveOperation (O := 0)) ?_
  rintro _ _ rfl
  exact wp_ret rfl

theorem keeps_completeReceive (n : Nat) :
    wp (ledger acc) t e (CompleteReceive c n) (fun _ r => r = 0) ({(c, x)}, 1) := by
  rw [← Multiset.cons_zero (c, x)]
  refine wp_after (keeps_issueReceiveOperation (O := 0)) ?_
  rintro _ _ rfl
  refine wp_after (keeps_issueSendOperation n) ?_
  rintro _ _ rfl
  exact wp_perform keeps_releaseContext

/-- The completion of a receive calls `WSARecvFrom` once, that of a send does not. -/
theorem keeps_workThread {op : Op} {b : Bool} {addr : sockaddr_in} {data : List UInt8}
    (hmode : x.m_iOperateMode = op.mode) (hb : op.mode = .SC_WAIT_TRANSMIT → b = true) :
    wp (ledger acc) t (.completion op b addr data) (WorkThread op.ctx b data.length)
      (fun _ r => r = 0) ({(op.ctx, x)}, (Event.completion op b addr data).posts) := by
  cases hop : op.mode with
  | SC_WAIT_RECEIVE =>
      rw [Event.posts, if_pos hop]
      cases b with
      | false => exact keeps_receiveAgain
      | true =>
          rw [← Multiset.cons_zero (op.ctx, x)]
          refine wp_call keeps_m_iOperateMode ?_
          rintro _ _ ⟨rfl, rfl⟩
          rw [Multiset.cons_zero, hmode, hop]
          show wp _ t _ (if data.length = 0 then _ else _) _ _
          split
          · exact keeps_receiveAgain
          · exact keeps_completeReceive _
  | SC_WAIT_TRANSMIT =>
      have hposts : (Event.completion op b addr data).posts = 0 :=
        if_neg fun h => by rw [hop] at h; cases h
      rw [hposts, hb hop, ← Multiset.cons_zero (op.ctx, x)]
      refine wp_call keeps_m_iOperateMode ?_
      rintro _ _ ⟨rfl, rfl⟩
      rw [hmode, hop]
      exact wp_perform keeps_releaseContext

end

/-! ## Runs -/

section
variable {acc : Bool} {threads : Nat} {m : History}

theorem ledger_spawn {t : Nat} {e : Event} {s s' : Server × List Event} {p : Program Unit}
    {F : Multiset Block × Nat}
    (hclean : ∀ op bResult addr data, e = .completion op bResult addr data →
      op.mode = .SC_WAIT_TRANSMIT → bResult = true)
    (hinv : (ledger acc).Inv s F) (hspawn : (ledger acc).spawn t e s = some (s', p)) :
    ∃ r, (ledger acc).Inv s' (r + F) ∧ wp (ledger acc) t e p (fun _ r' => r' = 0) r := by
  obtain ⟨hplaced, hcounted⟩ := hinv
  obtain ⟨⟨σ, p'⟩, hbegun, heq⟩ := Option.map_eq_some_iff.mp hspawn
  cases heq
  cases e with
  | InitServer =>
      cases hbegun
      refine ⟨(0, m_iMaxPostReceiveNumbs), ⟨?_, hcounted.init.same rfl rfl⟩, ?_⟩
      · change Placed _ (0 + F.1)
        rw [zero_add]
        exact hplaced.same rfl rfl rfl rfl
      · refine wp_after (keeps_postReceiveOperation (O := 0) m_iMaxPostReceiveNumbs) ?_
        rintro _ _ rfl
        exact wp_ret rfl
  | completion op b addr data =>
      simp only [system, spawn] at hbegun
      split at hbegun
      · rename_i hop
        have hmode := hplaced.mode op hop
        have hb := hclean op b addr data rfl
        split at hbegun
        · split at hbegun
          · cases hbegun
            refine ⟨({(op.ctx, (s.1.context op.ctx).fill addr data)}, _), ⟨?_, ?_⟩,
              keeps_workThread hmode hb⟩
            · change Placed _ ({(op.ctx, _)} + F.1)
              rw [Multiset.singleton_add]
              exact (hplaced.complete hop).same rfl rfl rfl rfl
            · exact hcounted.complete hop rfl rfl
          · cases hbegun
        · cases hbegun
          refine ⟨({(op.ctx, s.1.context op.ctx)}, _), ⟨?_, ?_⟩, keeps_workThread hmode hb⟩
          · change Placed _ ({(op.ctx, _)} + F.1)
            rw [Multiset.singleton_add]
            have hcomplete := hplaced.complete (y := s.1.context op.ctx) hop
            rw [Function.update_eq_self] at hcomplete
            exact hcomplete.same rfl rfl rfl rfl
          · exact hcounted.complete hop rfl rfl
      · cases hbegun

theorem ledger_run (h : Via system.recorded.step
    (fun m a => Clean m a ∧ (acc = true → Accepting m a)) (History.start threads) m) :
    ∃ rs, (ledger acc).Good m rs := by
  have hstart : (ledger acc).Inv (.start, []) 0 := by
    refine ⟨⟨?_, ?_, ?_⟩, ⟨rfl, fun _ => rfl⟩⟩
    · change ((List.range 128).reverse : Multiset Nat) = Multiset.range 128
      exact Multiset.coe_eq_coe.mpr (List.reverse_perm _)
    · intro b hb
      exact absurd hb (Multiset.notMem_zero b)
    · intro op hop
      cases hop
  refine (ledger acc).run ?_ ?_ ⟨_, (ledger acc).good_start hstart⟩ h
  · rintro m rs - t x e c ⟨hclean, hacc⟩ - hc
    obtain ⟨hreset, hstack⟩ := hclean c hc
    exact ⟨fun hreceive => ⟨hreset hreceive, fun h => hacc h c hc hreceive⟩, hstack⟩
  · rintro m t e s p F ⟨hclean, -⟩ hinv hspawn
    refine ledger_spawn ?_ hinv hspawn
    rintro op b addr data rfl
    exact hclean

/-- In a clean run, whenever no thread is inside an event: `WSARecvFrom` has been called
once for each completed receive, and for no send; if all calls were accepted, the
receives in flight are those that `InitServer` has posted; and every context is idle or
in flight. -/
theorem receives_conserved (h : Via system.recorded.step
    (fun m a => Clean m a ∧ (acc = true → Accepting m a)) (History.start threads) m)
    (hq : m.Quiescent) :
    m.shared.1.receives.length = (m.shared.2.map Event.posts).sum ∧
    (acc = true →
      m.shared.1.receiving = m_iMaxPostReceiveNumbs * m.shared.2.count .InitServer) ∧
    places m.shared.1 0 = Multiset.range m.shared.1.size := by
  obtain ⟨rs, hgood⟩ := ledger_run h
  obtain ⟨hplaced, hcounted⟩ := hgood.quiescent hq
  have hcalls : m.shared.1.receives.length = (m.shared.2.map Event.posts).sum := hcounted.calls
  refine ⟨hcalls, fun hacc => ?_, hplaced.all⟩
  have haccepted := hcounted.accepted hacc
  have hsum : ∀ es : List Event, (es.map Event.posts).sum =
      m_iMaxPostReceiveNumbs * es.count .InitServer + (es.map Event.completes).sum := by
    intro es
    induction es with
    | nil => rfl
    | cons e es ih =>
        rw [List.map_cons, List.sum_cons, ih, List.map_cons, List.sum_cons]
        cases e with
        | InitServer =>
            rw [List.count_cons_self, Event.posts, Event.completes, Nat.mul_succ]
            omega
        | completion op b addr data =>
            rw [List.count_cons_of_ne (by simp), Event.posts, Event.completes]
            omega
  have hposts := hsum m.shared.2
  omega

end

/-- A datagram is received and echoed. -/
def oneEcho : List Action := List.flatten [
  postReceives, datagram 127 4096 [7],
  [.finish 0, .begin 1 (.completion ⟨.SC_WAIT_TRANSMIT, 94, 1⟩ true 0 []), .run 1 .ok, .run 1 .ok,
    .finish 1]]

theorem receives_conserved_oneEcho : ∃ m, Via system.recorded.step
    (fun m a => Clean m a ∧ (true = true → Accepting m a)) (History.start 2) m ∧
    m.Quiescent ∧ m.shared.2.length = 3 ∧
      m.shared.1.receiving = 32 * m.shared.2.count .InitServer := by
  have hrun : ∃ m, Via system.recorded.step
      (fun m a => Clean m a ∧ (true = true → Accepting m a)) (History.start 2) m ∧
      m.Quiescent ∧ m.shared.2.length = 3 :=
    exists_via_of_execIf oneEcho (by decide +kernel)
  obtain ⟨m, hm, hq, hlength⟩ := hrun
  exact ⟨m, hm, hq, hlength, (receives_conserved hm hq).2.1 rfl⟩

/-- The echo completes with an error: one receive more. -/
def failedEcho : List Action := List.flatten [
  postReceives, datagram 127 4096 [7],
  [.finish 0, .begin 1 (.completion ⟨.SC_WAIT_TRANSMIT, 94, 1⟩ false 0 []), .run 1 .ok,
    .run 1 .ok, .run 1 .ok, .finish 1]]

/-- A receive completes without data, and the new one is refused: its context is lost. -/
def resetReceive : List Action :=
  postReceives ++ [.begin 0 (.completion ⟨.SC_WAIT_RECEIVE, 127, 4096⟩ true 5 []), .run 0 .ok,
    .run 0 .ok, .run 0 .ok, .run 0 .WSAECONNRESET, .finish 0]

theorem receives_multiply :
    (∃ m, Via system.recorded.step Accepting (History.start 2) m ∧ m.Quiescent ∧
      m.shared.2.count .InitServer = 1 ∧ m.shared.1.receiving = 33) ∧
    ∃ m, Via system.recorded.step (fun _ _ => True) (History.start 2) m ∧ m.Quiescent ∧
      m.shared.1.receives.length = 33 ∧ m.shared.1.receiving = 31 ∧
      127 < m.shared.1.size ∧ 127 ∉ m.shared.1.stack ∧ 127 ∉ m.shared.1.flight.map Op.ctx :=
  ⟨exists_via_of_execIf failedEcho (by decide +kernel),
    exists_via_of_execIf resetReceive (by decide +kernel)⟩

end CppWorkspace.UdpServer
