/-
# `CppWorkspace.UdpServer.Echo` — each datagram goes back to its sender

Receives and sends take their contexts from one pool, and `m_struRevBuf.len` is both
the room of a receive and the length of the last send: `SetSendParameters` only ever
makes it smaller, and nothing sets it back.  So a context that has carried a short
datagram gives a short receive, and cuts a longer datagram into pieces, each of them
the first bytes of it (`short_context`).

The room of a context is the least of the full size and of the datagrams that it has sent
back before (`Kept.len`).  So if no context is handed out that has sent back a shorter
datagram than it is needed for now, each receive is posted with the whole buffer and each
datagram is sent back once (`echoes_in_full`).
-/
import Mathlib.Algebra.Group.Prod
import Mathlib.Algebra.Order.Group.Multiset
import Mathlib.Data.Multiset.UnionInter
import CppWorkspace.UdpServer.Server

namespace CppWorkspace.UdpServer

open Programs Runs

/-! ## What was sent back with a context -/

/-- The contexts that were used to send something back, and the sizes of the datagrams. -/
abbrev Carried := List (Nat × Nat)

/-- `SetSendParameters` is where a context is given the datagram of the thread's event. -/
def carried (m : Machine) : Action → Carried
  | .run t _ =>
      match m.event t, m.next t with
      | some e, some (.SetSendParameters c _ _) => e.datagram.toList.map fun d => (c, d.data.length)
      | _, _ => []
  | _ => []

/-- The server, with what its contexts have carried. -/
def recordStep (s : Machine × Carried) (a : Action) : Option (Machine × Carried) :=
  (system.step s.1 a).map fun m => (m, s.2 ++ carried s.1 a)

/-- The sizes of the datagrams that were sent back with context `c`. -/
def sizes (history : Carried) (c : Nat) : List Nat :=
  (history.filter fun p => p.1 = c).map Prod.snd

/-- No context is handed out that has sent back a shorter datagram than it is needed for: one
of the full size for a receive, the datagram itself for its echo. -/
def Roomy (s : Machine × Carried) : Action → Prop
  | .run t _ =>
      match s.1.event t, s.1.next t, s.1.shared.stack with
      | some _, some (.GetContext .SC_WAIT_RECEIVE), c :: _ =>
          ∀ n ∈ sizes s.2 c, MAX_UDP_CONTEXT_BUFSIZE ≤ n
      | some e, some (.GetContext .SC_WAIT_TRANSMIT), c :: _ =>
          ∀ n ∈ sizes s.2 c, ∀ d ∈ e.datagram, d.data.length ≤ n
      | _, _, _ => True
  | _ => True

instance (s : Machine × Carried) (a : Action) : Decidable (Roomy s a) := by
  unfold Roomy
  split
  · split <;> infer_instance
  · infer_instance

/-! ## What the threads own -/

/-- A context, with its contents. -/
abbrev Block := Nat × Context

/-- What thread `t` has still to send. -/
abbrev Debt := Nat × Datagram

/-- Where the contexts are: idle, in flight or owned. -/
def places (σ : Server) (B : Multiset Block) : Multiset Nat :=
  (σ.stack : Multiset Nat) + (σ.flight.map Op.ctx : Multiset Nat) + B.map Prod.fst

theorem places_cons {σ : Server} {B : Multiset Block} {c : Nat} {x : Context} :
    places σ ((c, x) ::ₘ B) = c ::ₘ places σ B := by
  rw [places, Multiset.map_cons, Multiset.add_cons, places]

theorem mem_places {σ : Server} {B : Multiset Block} {c : Nat} : c ∈ places σ B ↔
    c ∈ σ.stack ∨ (∃ op ∈ σ.flight, op.ctx = c) ∨ ∃ b ∈ B, b.1 = c := by
  rw [places, Multiset.mem_add, Multiset.mem_add, Multiset.mem_coe, Multiset.mem_coe,
    List.mem_map, Multiset.mem_map, or_assoc]

/-- Each context is in one place, and its owner knows its contents; a thread has sent
back what has come, or still owes it. -/
structure Echoing (σ : Server) (B : Multiset Block) (O : Multiset Debt) : Prop where
  nodup : (places σ B).Nodup
  exist : ∀ c ∈ places σ B, c < σ.size
  contents : ∀ b ∈ B, σ.context b.1 = b.2
  mode : ∀ op ∈ σ.flight, (σ.context op.ctx).m_iOperateMode = op.mode
  room : ∀ op ∈ σ.flight, op.mode = .SC_WAIT_RECEIVE → op.len = MAX_UDP_CONTEXT_BUFSIZE
  receives : ∀ n ∈ σ.receives, n = MAX_UDP_CONTEXT_BUFSIZE
  once : (O.map Prod.fst).Nodup
  owed : ∀ p ∈ O, σ.received p.1 = some p.2 ∧ σ.sends p.1 = []
  sent : ∀ t, t ∉ O.map Prod.fst → σ.sends t = (σ.received t).toList

namespace Echoing

variable {σ : Server} {B : Multiset Block} {O : Multiset Debt} {t c : Nat} {x y : Context}

theorem exclusive (H : Echoing σ ((c, x) ::ₘ B) O) :
    (∀ op ∈ σ.flight, op.ctx ≠ c) ∧ ∀ b ∈ B, b.1 ≠ c := by
  have hnodup := H.nodup
  rw [places_cons, Multiset.nodup_cons, mem_places] at hnodup
  obtain ⟨hnotMem, -⟩ := hnodup
  refine ⟨?_, ?_⟩
  · rintro op hop rfl
    exact hnotMem (.inr (.inl ⟨op, hop, rfl⟩))
  · rintro b hb rfl
    exact hnotMem (.inr (.inr ⟨b, hb, rfl⟩))

theorem move {σ' : Server} {B' : Multiset Block} (H : Echoing σ B O)
    (hplaces : places σ' B' ≤ places σ B) (hsize : σ'.size = σ.size)
    (hcontents : ∀ b ∈ B', σ'.context b.1 = b.2)
    (hmode : ∀ op ∈ σ'.flight, (σ'.context op.ctx).m_iOperateMode = op.mode)
    (hroom : ∀ op ∈ σ'.flight, op.mode = .SC_WAIT_RECEIVE → op.len = MAX_UDP_CONTEXT_BUFSIZE)
    (hreceives : ∀ n ∈ σ'.receives, n = MAX_UDP_CONTEXT_BUFSIZE)
    (hreceived : σ'.received = σ.received) (hsends : σ'.sends = σ.sends) : Echoing σ' B' O where
  nodup := Multiset.nodup_of_le hplaces H.nodup
  exist c hc := hsize ▸ H.exist c (Multiset.mem_of_le hplaces hc)
  contents := hcontents
  mode := hmode
  room := hroom
  receives := hreceives
  once := H.once
  owed p hp := by
    rw [hreceived, hsends]
    exact H.owed p hp
  sent t ht := by
    rw [hreceived, hsends]
    exact H.sent t ht

/-- One context that is in no other place is given new contents. -/
theorem update (hflight : ∀ op ∈ σ.flight, op.ctx ≠ c) (hB : ∀ b ∈ B, b.1 ≠ c)
    (H : Echoing σ B O) : (∀ b ∈ (c, y) ::ₘ B, Function.update σ.context c y b.1 = b.2) ∧
      ∀ op ∈ σ.flight, (Function.update σ.context c y op.ctx).m_iOperateMode = op.mode := by
  refine ⟨?_, ?_⟩
  · intro b hb
    rcases Multiset.mem_cons.mp hb with rfl | hb
    · exact Function.update_self ..
    · rw [Function.update_of_ne (hB b hb)]
      exact H.contents b hb
  · intro op hop
    rw [Function.update_of_ne (hflight op hop)]
    exact H.mode op hop

theorem drop (H : Echoing σ ((c, x) ::ₘ B) O) : Echoing σ B O := by
  refine H.move ?_ rfl (fun b hb => H.contents b (Multiset.mem_cons_of_mem hb)) H.mode H.room
    H.receives rfl rfl
  rw [places_cons]
  exact Multiset.le_cons_self _ _

theorem set (H : Echoing σ ((c, x) ::ₘ B) O) :
    Echoing { σ with context := Function.update σ.context c y } ((c, y) ::ₘ B) O := by
  obtain ⟨hflight, hB⟩ := H.exclusive
  obtain ⟨hcontents, hmode⟩ := H.drop.update hflight hB
  refine H.move ?_ rfl hcontents hmode H.room H.receives rfl rfl
  rw [places_cons, places_cons]
  rfl

theorem release (H : Echoing σ ((c, x) ::ₘ B) O) : Echoing (σ.ReleaseContext c) B O := by
  refine H.move ?_ rfl (fun b hb => H.contents b (Multiset.mem_cons_of_mem hb)) H.mode H.room
    H.receives rfl rfl
  rw [places_cons, places, places, ← Multiset.cons_add, ← Multiset.cons_add, Multiset.cons_coe]
  refine Multiset.add_le_add_right (Multiset.add_le_add_right ?_)
  unfold Server.ReleaseContext
  split
  · exact le_refl _
  · exact Multiset.le_cons_self _ _

theorem get {mode : Mode} (H : Echoing σ B O) :
    Echoing (σ.GetContext mode).1
      (((σ.GetContext mode).2, { σ.top with m_iOperateMode := mode }) ::ₘ B) O := by
  generalize hx : ({ σ.top with m_iOperateMode := mode } : Context) = x
  cases hstack : σ.stack with
  | cons c stack =>
      have hget : σ.GetContext mode =
          ({ σ with stack := stack, context := Function.update σ.context c x }, c) := by
        rw [Server.GetContext, hx]
        simp only [hstack]
      rw [hget]
      have hplaces : places { σ with stack := stack } ((c, x) ::ₘ B) = places σ B := by
        rw [places_cons, places, places, hstack, ← Multiset.cons_coe, Multiset.cons_add,
          Multiset.cons_add]
      have hidle : Echoing { σ with stack := stack } B O := by
        refine H.move ?_ rfl H.contents H.mode H.room H.receives rfl rfl
        rw [← hplaces, places_cons]
        exact Multiset.le_cons_self _ _
      have hnodup := hplaces ▸ H.nodup
      rw [places_cons, Multiset.nodup_cons, mem_places] at hnodup
      obtain ⟨hcontents, hmode⟩ := hidle.update (c := c) (y := x)
        (fun op hop heq => hnodup.1 (.inr (.inl ⟨op, hop, heq⟩)))
        fun b hb heq => hnodup.1 (.inr (.inr ⟨b, hb, heq⟩))
      exact H.move (le_of_eq hplaces) rfl hcontents hmode H.room H.receives rfl rfl
  | nil =>
      have hget : σ.GetContext mode =
          ({ σ with size := σ.size + 1, context := Function.update σ.context σ.size x },
            σ.size) := by
        rw [Server.GetContext, hx]
        simp only [hstack]
      rw [hget]
      dsimp only
      have hnew : σ.size ∉ places σ B := fun hmem => Nat.lt_irrefl _ (H.exist _ hmem)
      have hplaces : places { σ with
          size := σ.size + 1, context := Function.update σ.context σ.size x }
          ((σ.size, x) ::ₘ B) = σ.size ::ₘ places σ B := places_cons
      obtain ⟨hcontents, hmode⟩ := H.update (c := σ.size) (y := x)
        (fun op hop heq => hnew (mem_places.mpr (.inr (.inl ⟨op, hop, heq⟩))))
        fun b hb heq => hnew (mem_places.mpr (.inr (.inr ⟨b, hb, heq⟩)))
      refine ⟨?_, ?_, hcontents, hmode, H.room, H.receives, H.once, H.owed, H.sent⟩
      · rw [hplaces]
        exact Multiset.nodup_cons.mpr ⟨hnew, H.nodup⟩
      · rw [hplaces]
        intro c hc
        rcases Multiset.mem_cons.mp hc with rfl | hc
        · exact Nat.lt_succ_self _
        · exact Nat.lt_succ_of_lt (H.exist c hc)

theorem post {k : Mode} {v : Choice} (H : Echoing σ ((c, x) ::ₘ B) O) (hmode : x.m_iOperateMode = k)
    (hroom : k = .SC_WAIT_RECEIVE → x.len = MAX_UDP_CONTEXT_BUFSIZE) :
    Echoing { σ with flight := if v = .ok then ⟨k, c, (σ.context c).len⟩ :: σ.flight
      else σ.flight } (if v = .ok then B else (c, x) ::ₘ B) O := by
  have hx := H.contents _ (Multiset.mem_cons_self _ _)
  by_cases hv : v = .ok
  · simp only [if_pos hv]
    refine H.move ?_ rfl (fun b hb => H.contents b (Multiset.mem_cons_of_mem hb)) ?_ ?_
      H.receives rfl rfl
    · rw [places_cons, places, places, ← Multiset.cons_add, ← Multiset.add_cons]
      rfl
    · intro op hop
      rcases List.mem_cons.mp hop with rfl | hop
      · exact (congrArg Context.m_iOperateMode hx).trans hmode
      · exact H.mode op hop
    · intro op hop hreceive
      rcases List.mem_cons.mp hop with rfl | hop
      · exact (congrArg Context.len hx).trans (hroom hreceive)
      · exact H.room op hop hreceive
  · simp only [if_neg hv]
    exact H

theorem receive {v : Choice} (H : Echoing σ ((c, x) ::ₘ B) O)
    (hmode : x.m_iOperateMode = .SC_WAIT_RECEIVE) (hlen : x.len = MAX_UDP_CONTEXT_BUFSIZE) :
    Echoing (σ.WSARecvFrom c v) (if v = .ok then B else (c, x) ::ₘ B) O := by
  have hpost := H.post (v := v) hmode fun _ => hlen
  refine ⟨hpost.nodup, hpost.exist, hpost.contents, hpost.mode, hpost.room, ?_, hpost.once,
    hpost.owed, hpost.sent⟩
  intro n hn
  rcases List.mem_append.mp hn with hn | hn
  · exact H.receives n hn
  · rw [List.mem_singleton.mp hn, H.contents _ (Multiset.mem_cons_self _ _)]
    exact hlen

theorem send {d : Datagram} {v : Choice} (H : Echoing σ ((c, x) ::ₘ B) ((t, d) ::ₘ O))
    (hmode : x.m_iOperateMode = .SC_WAIT_TRANSMIT) (hd : x.datagram = d) :
    Echoing (σ.WSASendTo t c v) (if v = .ok then B else (c, x) ::ₘ B) O := by
  have hpost := H.post (v := v) hmode fun hreceive => by cases hreceive
  obtain ⟨hreceived, hsends⟩ := H.owed _ (Multiset.mem_cons_self _ _)
  have honce := H.once
  rw [Multiset.map_cons, Multiset.nodup_cons] at honce
  refine ⟨hpost.nodup, hpost.exist, hpost.contents, hpost.mode, hpost.room, hpost.receives,
    honce.2, ?_, ?_⟩
  · intro p hp
    obtain ⟨hr, hs⟩ := H.owed p (Multiset.mem_cons_of_mem hp)
    refine ⟨hr, (Function.update_of_ne ?_ ..).trans hs⟩
    intro heq
    have hmem := Multiset.mem_map_of_mem Prod.fst hp
    rw [heq] at hmem
    exact honce.1 hmem
  · intro u hu
    by_cases heq : u = t
    · subst heq
      refine (Function.update_self ..).trans ?_
      rw [hsends, H.contents _ (Multiset.mem_cons_self _ _), hd]
      exact (congrArg Option.toList hreceived).symm
    · refine (Function.update_of_ne heq ..).trans (H.sent u ?_)
      rw [Multiset.map_cons, Multiset.mem_cons, not_or]
      exact ⟨heq, hu⟩

theorem begin (H : Echoing σ B O) (ht : t ∉ O.map Prod.fst) (o : Option Datagram) :
    Echoing { σ with
      received := Function.update σ.received t o, sends := Function.update σ.sends t [] } B
      ((o.elim 0 fun d => {(t, d)}) + O) := by
  have hne : ∀ p ∈ O, p.1 ≠ t := by
    rintro p hp rfl
    exact ht (Multiset.mem_map_of_mem Prod.fst hp)
  have hold : ∀ p ∈ O, Function.update σ.received t o p.1 = some p.2 ∧
      Function.update σ.sends t [] p.1 = [] := by
    intro p hp
    rw [Function.update_of_ne (hne p hp), Function.update_of_ne (hne p hp)]
    exact H.owed p hp
  refine ⟨H.nodup, H.exist, H.contents, H.mode, H.room, H.receives, ?_, ?_, ?_⟩
  · cases o with
    | none =>
        rw [Option.elim_none, zero_add]
        exact H.once
    | some d =>
        rw [Option.elim_some, Multiset.singleton_add, Multiset.map_cons]
        exact Multiset.nodup_cons.mpr ⟨ht, H.once⟩
  · cases o with
    | none =>
        rw [Option.elim_none, zero_add]
        exact hold
    | some d =>
        rw [Option.elim_some, Multiset.singleton_add]
        intro p hp
        rcases Multiset.mem_cons.mp hp with rfl | hp
        · exact ⟨Function.update_self .., Function.update_self ..⟩
        · exact hold p hp
  · intro u hu
    rw [Multiset.map_add, Multiset.mem_add, not_or] at hu
    by_cases heq : u = t
    · subst heq
      cases o with
      | none => exact (Function.update_self ..).trans (by simp)
      | some d => exact absurd (Multiset.mem_singleton_self u) hu.1
    · simp only [Function.update_of_ne heq]
      exact H.sent u hu.2

/-- An operation completes: its context goes to the thread, filled if it was a receive. -/
theorem complete {op : Op} (H : Echoing σ B O) (hop : op ∈ σ.flight) :
    Echoing { σ with
      flight := σ.flight.erase op, context := Function.update σ.context op.ctx y }
      ((op.ctx, y) ::ₘ B) O := by
  have hplaces : places { σ with flight := σ.flight.erase op } ((op.ctx, y) ::ₘ B) =
      places σ B := by
    have hperm : (σ.flight.map Op.ctx : Multiset Nat) =
        op.ctx ::ₘ ((σ.flight.erase op).map Op.ctx : Multiset Nat) := by
      rw [Multiset.cons_coe, Multiset.coe_eq_coe]
      exact (List.perm_cons_erase hop).map Op.ctx
    rw [places_cons, places, places, hperm, Multiset.add_cons, Multiset.cons_add]
  have hrest : Echoing { σ with flight := σ.flight.erase op } B O := by
    refine H.move ?_ rfl H.contents (fun op' hop' => H.mode op' (List.mem_of_mem_erase hop'))
      (fun op' hop' => H.room op' (List.mem_of_mem_erase hop')) H.receives rfl rfl
    rw [← hplaces, places_cons]
    exact Multiset.le_cons_self _ _
  have hnodup := hplaces ▸ H.nodup
  rw [places_cons, Multiset.nodup_cons, mem_places] at hnodup
  obtain ⟨hcontents, hmode⟩ := hrest.update (c := op.ctx) (y := y)
    (fun op' hop' heq => hnodup.1 (.inr (.inl ⟨op', hop', heq⟩)))
    fun b hb heq => hnodup.1 (.inr (.inr ⟨b, hb, heq⟩))
  exact H.move (le_of_eq hplaces) rfl hcontents hmode hrest.room H.receives rfl rfl

end Echoing

/-! ## The functions -/

/-- The rules for runs in which the contexts have room.  A thread owes only what it has to
send itself, and what it sends is the datagram of its event. -/
def echoing : Logic Server Cmd Cmd.Reply Choice Event Unit (Multiset Block × Multiset Debt) where
  toSystem := system
  Inv σ R := Echoing σ R.1 R.2
  Pre t e c σ r := (∀ p ∈ r.2, p.1 = t) ∧ ∀ k src n, c = .SetSendParameters k src n →
    k < σ.size ∧ ∃ d, e.datagram = some d ∧ d.data.length = n
  ok _ e c σ _ _ :=
    (c = .GetContext .SC_WAIT_RECEIVE → σ.top.len = MAX_UDP_CONTEXT_BUFSIZE) ∧
    (c = .GetContext .SC_WAIT_TRANSMIT → ∀ d ∈ e.datagram, d.data.length ≤ σ.top.len)

section
variable {t : Nat} {e : Event} {c src n : Nat} {x y : Context} {d : Datagram}
  {B : Multiset Block} {O : Multiset Debt}

theorem does_getContext {mode : Mode} (hO : ∀ p ∈ O, p.1 = t) :
    Does echoing t e (.GetContext mode) (B, O) fun v r => ∃ x,
      r = ((v, x) ::ₘ B, O) ∧ x.m_iOperateMode = mode ∧
      (mode = .SC_WAIT_RECEIVE → x.len = MAX_UDP_CONTEXT_BUFSIZE) ∧
      (mode = .SC_WAIT_TRANSMIT → ∀ d ∈ e.datagram, d.data.length ≤ x.len) := by
  rintro σ ⟨F, G⟩ H
  refine ⟨⟨hO, nofun⟩, ?_⟩
  rintro x σ' v ⟨hreceive, hsend⟩ hexec
  cases x with
  | ok =>
      have hget : Echoing (σ.GetContext mode).1 _ _ := Echoing.get H
      rw [show σ.GetContext mode = (σ', v) from Option.some.inj hexec] at hget
      change Echoing σ' (_ ::ₘ (B + F)) (O + G) at hget
      rw [← Multiset.cons_add] at hget
      refine ⟨(_ ::ₘ B, O), hget, _, rfl, rfl, ?_, ?_⟩
      · rintro rfl
        exact hreceive rfl
      · rintro rfl
        exact hsend rfl
  | WSAECONNRESET => cases hexec
  | error => cases hexec

theorem does_releaseContext (hO : ∀ p ∈ O, p.1 = t) :
    Does echoing t e (.ReleaseContext c) ((c, x) ::ₘ B, O) fun _ r => r = (B, O) := by
  rintro σ ⟨F, G⟩ H
  refine ⟨⟨hO, nofun⟩, ?_⟩
  change Echoing σ ((c, x) ::ₘ B + F) (O + G) at H
  rw [Multiset.cons_add] at H
  rintro z σ' v - hexec
  cases z with
  | ok =>
      cases hexec
      exact ⟨(B, O), H.release, rfl⟩
  | WSAECONNRESET => cases hexec
  | error => cases hexec

theorem does_m_iOperateMode (hO : ∀ p ∈ O, p.1 = t) :
    Does echoing t e (.m_iOperateMode c) ((c, x) ::ₘ B, O) fun v r =>
      v = x.m_iOperateMode ∧ r = ((c, x) ::ₘ B, O) := by
  rintro σ ⟨F, G⟩ H
  refine ⟨⟨hO, nofun⟩, ?_⟩
  rintro z σ' v - hexec
  cases z with
  | ok =>
      cases hexec
      refine ⟨((c, x) ::ₘ B, O), H, ?_, rfl⟩
      change Echoing σ ((c, x) ::ₘ B + F) (O + G) at H
      rw [Multiset.cons_add] at H
      rw [H.contents _ (Multiset.mem_cons_self _ _)]
  | WSAECONNRESET => cases hexec
  | error => cases hexec

theorem does_setSendParameters (hO : ∀ p ∈ O, p.1 = t) (he : e.datagram = some d)
    (hlen : d.data.length = n) :
    Does echoing t e (.SetSendParameters c src n) ((c, x) ::ₘ (src, y) ::ₘ B, O) fun v r =>
      v = (x.SetSendParameters y.m_struRemoteAddr y.buf n).2 ∧
      r = ((c, (x.SetSendParameters y.m_struRemoteAddr y.buf n).1) ::ₘ (src, y) ::ₘ B, O) := by
  rintro σ ⟨F, G⟩ H
  change Echoing σ ((c, x) ::ₘ (src, y) ::ₘ B + F) (O + G) at H
  have hc : c < σ.size := by
    refine H.exist c ?_
    rw [Multiset.cons_add, places_cons]
    exact Multiset.mem_cons_self c _
  refine ⟨⟨hO, fun k _ _ heq => by cases heq; exact ⟨hc, d, he, hlen⟩⟩, ?_⟩
  rw [Multiset.cons_add, Multiset.cons_add] at H
  have hx := H.contents _ (Multiset.mem_cons_self _ _)
  have hy := H.contents _ (Multiset.mem_cons_of_mem (Multiset.mem_cons_self _ _))
  dsimp only at hx hy
  rintro z σ' v - hexec
  cases z with
  | ok =>
      cases hexec
      rw [hx, hy]
      refine ⟨((c, _) ::ₘ (src, y) ::ₘ B, O), ?_, rfl, rfl⟩
      change Echoing _ ((c, _) ::ₘ (src, y) ::ₘ B + F) (O + G)
      rw [Multiset.cons_add, Multiset.cons_add]
      exact H.set
  | WSAECONNRESET => cases hexec
  | error => cases hexec

theorem does_wsaRecvFrom (hO : ∀ p ∈ O, p.1 = t) (hmode : x.m_iOperateMode = .SC_WAIT_RECEIVE)
    (hlen : x.len = MAX_UDP_CONTEXT_BUFSIZE) :
    Does echoing t e (.WSARecvFrom c) ((c, x) ::ₘ B, O) fun v r =>
      r = (if v = .error then (c, x) ::ₘ B else B, O) := by
  rintro σ ⟨F, G⟩ H
  refine ⟨⟨hO, nofun⟩, ?_⟩
  change Echoing σ ((c, x) ::ₘ B + F) (O + G) at H
  rw [Multiset.cons_add] at H
  rintro z σ' v - hexec
  cases hexec
  have hpost := H.receive (v := z) hmode hlen
  cases z with
  | ok => exact ⟨(B, O), hpost, rfl⟩
  | WSAECONNRESET => exact ⟨(B, O), hpost.drop, rfl⟩
  | error =>
      refine ⟨((c, x) ::ₘ B, O), ?_, rfl⟩
      change Echoing _ ((c, x) ::ₘ B + F) (O + G)
      rw [Multiset.cons_add]
      exact hpost

theorem does_wsaSendTo (hO : ∀ p ∈ (t, d) ::ₘ O, p.1 = t)
    (hmode : x.m_iOperateMode = .SC_WAIT_TRANSMIT) (hd : x.datagram = d) :
    Does echoing t e (.WSASendTo c) ((c, x) ::ₘ B, (t, d) ::ₘ O) fun v r =>
      r = (if v then B else (c, x) ::ₘ B, O) := by
  rintro σ ⟨F, G⟩ H
  refine ⟨⟨hO, nofun⟩, ?_⟩
  change Echoing σ ((c, x) ::ₘ B + F) ((t, d) ::ₘ O + G) at H
  rw [Multiset.cons_add, Multiset.cons_add] at H
  rintro z σ' v - hexec
  cases hexec
  have hpost := H.send (v := z) hmode hd
  by_cases hz : z = .ok
  · rw [if_pos hz] at hpost
    exact ⟨(B, O), hpost, by simp [hz]⟩
  · rw [if_neg hz, ← Multiset.cons_add] at hpost
    exact ⟨((c, x) ::ₘ B, O), hpost, by simp [hz]⟩

theorem wp_issueReceiveOperation (hO : ∀ p ∈ O, p.1 = t) :
    wp echoing t e IssueReceiveOperation (fun _ r => r = (B, O)) (B, O) := by
  refine wp_call (does_getContext hO) ?_
  rintro c _ ⟨x, rfl, hmode, hlen, -⟩
  refine wp_call (does_wsaRecvFrom hO hmode (hlen rfl)) ?_
  rintro v _ rfl
  cases v with
  | ok => exact wp_ret rfl
  | WSAECONNRESET => exact wp_ret rfl
  | error =>
      refine wp_call (does_releaseContext hO) ?_
      rintro _ _ rfl
      exact wp_ret rfl

theorem wp_postReceiveOperation (n : Nat) :
    wp echoing t e (PostReceiveOperation n) (fun _ r => r = 0) 0 := by
  induction n with
  | zero => exact wp_ret rfl
  | succ n ih =>
      refine wp_after (wp_issueReceiveOperation (B := 0) (O := 0) (by simp)) ?_
      rintro _ _ rfl
      refine wp_after ih ?_
      rintro _ _ rfl
      exact wp_ret rfl

theorem setSendParameters_roomy {addr : sockaddr_in} {data : List UInt8} (hn : n ≠ 0)
    (hroom : n ≤ x.len) : x.SetSendParameters addr data n =
      ({ x with m_struRemoteAddr := addr, len := n, buf := data.take n ++ x.buf.drop n }, 0) := by
  rw [Context.SetSendParameters, if_pos hn]
  dsimp only
  rw [Nat.min_eq_left hroom, Nat.sub_self]

theorem wp_issueSendOperation (he : e.datagram = some d) (haddr : y.m_struRemoteAddr = d.addr)
    (hdata : y.buf.take n = d.data) (hlen : d.data.length = n) (hn : n ≠ 0) :
    wp echoing t e (IssueSendOperation src n) (fun _ r => r = ((src, y) ::ₘ B, 0))
      ((src, y) ::ₘ B, {(t, d)}) := by
  have hO : ∀ p ∈ ((t, d) ::ₘ 0 : Multiset Debt), p.1 = t := by simp
  obtain ⟨rounds, rfl⟩ := Nat.exists_eq_succ_of_ne_zero hn
  rw [IssueSendOperation, if_pos hn, ← Multiset.cons_zero (t, d)]
  refine wp_call (does_getContext hO) ?_
  rintro c _ ⟨x, rfl, hmode, -, hroom⟩
  refine wp_call (does_setSendParameters hO he hlen) ?_
  have hx := hroom rfl d he
  rw [hlen] at hx
  rw [setSendParameters_roomy hn hx]
  rintro _ _ ⟨rfl, rfl⟩
  refine wp_call (does_wsaSendTo (d := d) hO hmode ?_) ?_
  · have htake : (y.buf.take (rounds + 1) ++ x.buf.drop (rounds + 1)).take (rounds + 1) =
        d.data := by
      rw [hdata]
      exact List.take_left' hlen
    rw [Context.datagram, haddr]
    exact congrArg (Datagram.mk d.addr) htake
  · rintro v _ rfl
    cases v with
    | true => exact wp_ret rfl
    | false => exact wp_perform (does_releaseContext (by simp))

theorem wp_completeReceive (he : e.datagram = some d) (haddr : y.m_struRemoteAddr = d.addr)
    (hdata : y.buf.take n = d.data) (hlen : d.data.length = n) (hn : n ≠ 0) :
    wp echoing t e (CompleteReceive c n) (fun _ r => r = 0) ({(c, y)}, {(t, d)}) := by
  refine wp_after (wp_issueReceiveOperation (by simp)) ?_
  rintro _ _ rfl
  rw [← Multiset.cons_zero (c, y)]
  refine wp_after (wp_issueSendOperation he haddr hdata hlen hn) ?_
  rintro _ _ rfl
  exact wp_perform (does_releaseContext (by simp))

theorem wp_receiveAgain : wp echoing t e (receiveAgain c) (fun _ r => r = 0) ({(c, y)}, 0) := by
  rw [← Multiset.cons_zero (c, y)]
  refine wp_call (does_releaseContext (by simp)) ?_
  rintro _ _ rfl
  refine wp_after (wp_issueReceiveOperation (by simp)) ?_
  rintro _ _ rfl
  exact wp_ret rfl

theorem wp_workThread {op : Op} {b : Bool} {addr : sockaddr_in} {data : List UInt8}
    (hmode : y.m_iOperateMode = op.mode)
    (hreceive : op.mode = .SC_WAIT_RECEIVE → y.m_struRemoteAddr = addr ∧
      y.buf.take data.length = data) :
    wp echoing t (.completion op b addr data) (WorkThread op.ctx b data.length)
      (fun _ r => r = 0)
      ({(op.ctx, y)}, (Event.completion op b addr data).datagram.elim 0 fun d => {(t, d)}) := by
  cases b with
  | false => exact wp_receiveAgain
  | true =>
      have hO : ∀ p ∈ ((Event.completion op true addr data).datagram.elim 0 fun d => {(t, d)} :
          Multiset Debt), p.1 = t := by
        cases (Event.completion op true addr data).datagram with
        | none => simp
        | some d => simp
      rw [← Multiset.cons_zero (op.ctx, y)]
      refine wp_call (does_m_iOperateMode hO) ?_
      rintro _ _ ⟨rfl, rfl⟩
      rw [Multiset.cons_zero, hmode]
      cases hop : op.mode with
      | SC_WAIT_RECEIVE =>
          by_cases hdata : data = []
          · have hnone : (Event.completion op true addr data).datagram = none :=
              if_neg fun h => h.2 hdata
            rw [hnone]
            subst hdata
            exact wp_receiveAgain
          · have hsome : (Event.completion op true addr data).datagram = some ⟨addr, data⟩ :=
              if_pos ⟨hop, hdata⟩
            have hlen : data.length ≠ 0 := fun h => hdata (List.length_eq_zero_iff.mp h)
            obtain ⟨haddr, hbuf⟩ := hreceive hop
            simp only [if_neg hlen]
            conv => arg 6; rw [hsome]
            exact wp_completeReceive hsome haddr hbuf rfl hlen
      | SC_WAIT_TRANSMIT =>
          have hnone : (Event.completion op true addr data).datagram = none :=
            if_neg fun h => by rw [hop] at h; cases h.1
          rw [hnone, ← Multiset.cons_zero (op.ctx, y)]
          exact wp_perform (does_releaseContext (by simp))

theorem fill_take {addr : sockaddr_in} {data : List UInt8} :
    (x.fill addr data).buf.take data.length = data :=
  List.take_left' rfl

theorem echoing_spawn {m : Machine} {rs : List (Multiset Block × Multiset Debt)} {σ : Server}
    {p : Program Unit} (hgood : echoing.Good m rs) (hidle : m.event t = none)
    (hspawn : spawn t e m.shared = some (σ, p)) :
    ∃ r, echoing.Inv σ (r + rs.sum) ∧ wp echoing t e p (fun _ r' => r' = 0) r := by
  have hinv : Echoing m.shared rs.sum.1 rs.sum.2 := hgood.inv
  have ht : t ∉ rs.sum.2.map Prod.fst := by
    intro hmem
    obtain ⟨q, hq, rfl⟩ := Multiset.mem_map.mp hmem
    obtain ⟨u, -, e', c', r, he', -, hqr, hpre⟩ := hgood.owner
      (P := fun r => q ∈ r.2) (Multiset.notMem_zero q) (fun _ _ => Multiset.mem_add.mp) hq
    rw [hpre.1 q hqr, he'] at hidle
    cases hidle
  have hbegin := hinv.begin ht e.datagram
  cases e with
  | InitServer =>
      cases hspawn
      refine ⟨0, ?_, ?_⟩
      · change Echoing _ (0 + rs.sum.1) (0 + rs.sum.2)
        rw [zero_add]
        exact hbegin
      · refine wp_after (wp_postReceiveOperation _) ?_
        rintro _ _ rfl
        exact wp_ret rfl
  | completion op b addr data =>
      simp only [spawn] at hspawn
      split at hspawn
      · rename_i hop
        have hmode := hinv.mode op hop
        split at hspawn
        · rename_i hreceive
          split at hspawn
          · cases hspawn
            refine ⟨({(op.ctx, (m.shared.context op.ctx).fill addr data)}, _), ?_,
              wp_workThread hmode fun _ => ⟨rfl, fill_take⟩⟩
            change Echoing _ ({(op.ctx, (m.shared.context op.ctx).fill addr data)} + rs.sum.1) _
            rw [Multiset.singleton_add]
            exact hbegin.complete hop
          · cases hspawn
        · rename_i hsend
          cases hspawn
          refine ⟨({(op.ctx, m.shared.context op.ctx)}, _), ?_,
            wp_workThread hmode fun hreceive => by rw [hsend] at hreceive; cases hreceive⟩
          change Echoing _ ({(op.ctx, m.shared.context op.ctx)} + rs.sum.1) _
          rw [Multiset.singleton_add]
          have hcomplete := hbegin.complete (y := m.shared.context op.ctx) hop
          dsimp only at hcomplete
          rwa [Function.update_eq_self] at hcomplete
      · cases hspawn

end

/-! ## Runs -/

theorem echoing_start : Echoing .start 0 0 := by
  refine ⟨?_, ?_, ?_, ?_, ?_, ?_, ?_, ?_, ?_⟩
  · change ((List.range 128).reverse : Multiset Nat).Nodup
    exact Multiset.coe_nodup.mpr (List.nodup_reverse.mpr List.nodup_range)
  · intro c hc
    change c ∈ (List.range 128).reverse at hc
    exact List.mem_range.mp (List.mem_reverse.mp hc)
  · intro b hb
    exact absurd hb (Multiset.notMem_zero b)
  · intro op hop
    cases hop
  · intro op hop
    cases hop
  · intro n hn
    cases hn
  · exact Multiset.nodup_zero
  · intro p hp
    exact absurd hp (Multiset.notMem_zero p)
  · intro t _
    rfl

/-- A context that is handed out has as much room as it is needed for. -/
def HasRoom (m : Machine) : Action → Prop
  | .run t _ => ∀ e, m.event t = some e →
      (m.next t = some (.GetContext .SC_WAIT_RECEIVE) →
        m.shared.top.len = MAX_UDP_CONTEXT_BUFSIZE) ∧
      (m.next t = some (.GetContext .SC_WAIT_TRANSMIT) →
        ∀ d ∈ e.datagram, d.data.length ≤ m.shared.top.len)
  | _ => True

theorem echoing_step {m m' : Machine} {a : Action} (h : ∃ rs, echoing.Good m rs)
    (ha : HasRoom m a) (hstep : system.step m a = some m') : ∃ rs, echoing.Good m' rs := by
  obtain ⟨rs, hgood⟩ := h
  refine hgood.step ?_ ?_ hstep
  · rintro t x e c rfl he hc
    refine ⟨?_, ?_⟩
    · rintro rfl
      exact (ha e he).1 hc
    · rintro rfl
      exact (ha e he).2 hc
  · rintro t e σ p rfl hspawn
    exact echoing_spawn hgood (by rw [Machine.event, (step_begin hstep).1]; rfl) hspawn

theorem exec_received {t : Nat} {e : Event} {c : Cmd} {x : Choice} {σ σ' : Server}
    {v : c.Reply} (hexec : exec t e c σ x = some (σ', v)) : σ'.received = σ.received := by
  cases c with
  | GetContext mode =>
      cases x with
      | ok =>
          have hget : σ.GetContext mode = (σ', v) := Option.some.inj hexec
          have hreceived : (σ.GetContext mode).1.received = σ.received := by
            unfold Server.GetContext
            split <;> rfl
          rwa [hget] at hreceived
      | WSAECONNRESET => cases hexec
      | error => cases hexec
  | WSARecvFrom c => cases hexec; rfl
  | WSASendTo c => cases hexec; rfl
  | _ =>
      cases x with
      | ok => cases hexec; rfl
      | WSAECONNRESET => cases hexec
      | error => cases hexec

theorem spawn_received {t : Nat} {e : Event} {σ σ' : Server} {p : Program Unit}
    (hspawn : spawn t e σ = some (σ', p)) :
    σ'.received = Function.update σ.received t e.datagram := by
  unfold spawn at hspawn
  split at hspawn
  · cases hspawn
    rfl
  · split at hspawn
    · dsimp only at hspawn
      split at hspawn
      · split at hspawn <;> cases hspawn
        rfl
      · cases hspawn
        rfl
    · cases hspawn

/-- The ghost field `received` tells what the event of a thread has brought. -/
theorem received_run {cond : Machine → Action → Prop} {threads : Nat} {m : Machine}
    (h : Via system.step cond (idle threads) m) {t : Nat} {e : Event}
    (he : m.event t = some e) : m.shared.received t = e.datagram := by
  refine h.invariant (P := fun m => ∀ t e, m.event t = some e → m.shared.received t = e.datagram)
    ?_ ?_ t e he
  · intro t e he
    simp only [Machine.event, idle, Option.bind_eq_some_iff, Option.map_eq_some_iff] at he
    obtain ⟨o, ho, q, rfl, -⟩ := he
    have hnone := List.eq_of_mem_replicate (List.mem_of_getElem? ho)
    cases hnone
  · intro m a m' ih _ hstep t e he
    cases a with
    | run u x =>
        simp only [System.step] at hstep
        split at hstep
        · rename_i e' c k hu
          obtain ⟨⟨σ', v⟩, hexec, rfl⟩ := Option.map_eq_some_iff.mp hstep
          refine (congrFun (exec_received (e := e') hexec) t).trans (ih t e ?_)
          by_cases heq : u = t
          · subst heq
            simpa [Machine.event, List.getElem?_set_self', hu] using he
          · simpa [Machine.event, List.getElem?_set_ne heq] using he
        · cases hstep
    | begin u e' =>
        simp only [System.step] at hstep
        split at hstep
        · rename_i hu
          obtain ⟨⟨σ', p⟩, hspawn, rfl⟩ := Option.map_eq_some_iff.mp hstep
          refine (congrFun (spawn_received hspawn) t).trans ?_
          by_cases heq : u = t
          · subst heq
            have hee : e' = e := by
              simpa [Machine.event, List.getElem?_set_self', hu] using he
            rw [Function.update_self, hee]
          · rw [Function.update_of_ne (Ne.symm heq)]
            exact ih t e (by simpa [Machine.event, List.getElem?_set_ne heq] using he)
        · cases hstep
    | finish u =>
        simp only [System.step] at hstep
        split at hstep
        · rename_i e' p hu
          cases hstep
          by_cases heq : u = t
          · subst heq
            simp [Machine.event, List.getElem?_set_self', hu] at he
          · exact ih t e (by simpa [Machine.event, List.getElem?_set_ne heq] using he)
        · cases hstep

/-! ## The room of a context -/

/-- What the history tells of the contexts. -/
structure Kept (threads : Nat) (m : Machine) (history : Carried) : Prop where
  reached : Reachable threads m
  good : ∃ rs, echoing.Good m rs
  len : ∀ c, (m.shared.context c).len = (sizes history c).foldl min MAX_UDP_CONTEXT_BUFSIZE
  new : ∀ c, m.shared.size ≤ c → (m.shared.context c).len = MAX_UDP_CONTEXT_BUFSIZE
  received : ∀ t, ∀ d ∈ m.shared.received t, d.data.length ≤ MAX_UDP_CONTEXT_BUFSIZE

theorem le_foldl_min {l : List Nat} {b k : Nat} (hb : k ≤ b) (h : ∀ n ∈ l, k ≤ n) :
    k ≤ l.foldl min b := by
  induction l generalizing b with
  | nil => exact hb
  | cons n l ih =>
      exact ih (Nat.le_min.mpr ⟨hb, h n List.mem_cons_self⟩)
        fun n' hn' => h n' (List.mem_cons_of_mem n hn')

theorem foldl_min_le {l : List Nat} {b : Nat} : l.foldl min b ≤ b := by
  induction l generalizing b with
  | nil => exact Nat.le_refl b
  | cons n l ih => exact Nat.le_trans ih (Nat.min_le_left b n)

theorem sizes_append (history : Carried) (c : Nat) (h' : Carried) :
    sizes (history ++ h') c = sizes history c ++ sizes h' c := by
  rw [sizes, sizes, sizes, List.filter_append, List.map_append]

/-- The room of context `k` after a command. -/
def Cmd.room (k len : Nat) : Cmd → Nat
  | .SetSendParameters c _ n => if k = c ∧ n ≠ 0 then min n len else len
  | _ => len

theorem exec_len {t : Nat} {e : Event} {c : Cmd} {x : Choice} {σ σ' : Server} {v : c.Reply}
    (hexec : exec t e c σ x = some (σ', v))
    (hnew : ∀ k, σ.size ≤ k → (σ.context k).len = MAX_UDP_CONTEXT_BUFSIZE) :
    σ.size ≤ σ'.size ∧ ∀ k, (σ'.context k).len = c.room k (σ.context k).len := by
  cases c with
  | GetContext mode =>
      cases x with
      | ok =>
          have hget : σ.GetContext mode = (σ', v) := Option.some.inj hexec
          cases hstack : σ.stack with
          | nil =>
              simp only [Server.GetContext, Server.top, hstack, Prod.mk.injEq] at hget
              obtain ⟨rfl, -⟩ := hget
              refine ⟨Nat.le_succ _, fun k => ?_⟩
              by_cases hk : k = σ.size
              · subst hk
                exact (congrArg Context.len (Function.update_self ..)).trans
                  (hnew _ (Nat.le_refl _)).symm
              · exact congrArg Context.len (Function.update_of_ne hk ..)
          | cons c stack =>
              simp only [Server.GetContext, Server.top, hstack, Prod.mk.injEq] at hget
              obtain ⟨rfl, -⟩ := hget
              refine ⟨Nat.le_refl _, fun k => ?_⟩
              by_cases hk : k = c
              · subst hk
                dsimp only
                rw [Function.update_self]
                rfl
              · exact congrArg Context.len (Function.update_of_ne hk ..)
      | WSAECONNRESET => cases hexec
      | error => cases hexec
  | SetSendParameters c' src n =>
      cases x with
      | ok =>
          cases hexec
          refine ⟨Nat.le_refl _, fun k => ?_⟩
          by_cases hk : k = c'
          · subst hk
            refine (congrArg Context.len (Function.update_self ..)).trans ?_
            by_cases hn : n ≠ 0
            · simp only [Context.SetSendParameters, Cmd.room, if_pos hn, true_and]
            · simp only [Context.SetSendParameters, Cmd.room, if_neg hn, true_and]
          · refine (congrArg Context.len (Function.update_of_ne hk ..)).trans ?_
            simp only [Cmd.room, hk, false_and, if_false]
      | WSAECONNRESET => cases hexec
      | error => cases hexec
  | WSARecvFrom c =>
      cases hexec
      exact ⟨Nat.le_refl _, fun _ => rfl⟩
  | WSASendTo c =>
      cases hexec
      exact ⟨Nat.le_refl _, fun _ => rfl⟩
  | ReleaseContext c =>
      cases x with
      | ok =>
          cases hexec
          exact ⟨Nat.le_refl _, fun _ => rfl⟩
      | WSAECONNRESET => cases hexec
      | error => cases hexec
  | m_iOperateMode c =>
      cases x with
      | ok =>
          cases hexec
          exact ⟨Nat.le_refl _, fun _ => rfl⟩
      | WSAECONNRESET => cases hexec
      | error => cases hexec

theorem spawn_len {t : Nat} {e : Event} {σ σ' : Server} {p : Program Unit}
    (hspawn : spawn t e σ = some (σ', p)) :
    σ'.size = σ.size ∧ ∀ k, (σ'.context k).len = (σ.context k).len := by
  unfold spawn at hspawn
  split at hspawn
  · cases hspawn
    exact ⟨rfl, fun _ => rfl⟩
  · rename_i op _ addr data
    split at hspawn
    · dsimp only at hspawn
      split at hspawn
      · split at hspawn <;> cases hspawn
        refine ⟨rfl, fun k => ?_⟩
        by_cases hk : k = op.ctx
        · subst hk
          dsimp only
          rw [Function.update_self]
          rfl
        · exact congrArg Context.len (Function.update_of_ne hk ..)
      · cases hspawn
        exact ⟨rfl, fun _ => rfl⟩
    · cases hspawn

theorem event_datagram_ne {e : Event} {d : Datagram} (hd : e.datagram = some d) :
    d.data.length ≠ 0 := by
  cases e with
  | InitServer => cases hd
  | completion op b addr data =>
      cases b with
      | false => cases hd
      | true =>
          obtain ⟨⟨-, hne⟩, heq⟩ := Option.ite_none_right_eq_some.mp hd
          cases heq
          exact fun hzero => hne (List.length_eq_zero_iff.mp hzero)

theorem spawn_datagram {t : Nat} {e : Event} {σ σ' : Server} {p : Program Unit} {d : Datagram}
    (hspawn : spawn t e σ = some (σ', p)) (hd : d ∈ e.datagram)
    (hroom : ∀ op ∈ σ.flight, op.mode = .SC_WAIT_RECEIVE → op.len = MAX_UDP_CONTEXT_BUFSIZE) :
    d.data.length ≤ MAX_UDP_CONTEXT_BUFSIZE := by
  cases e with
  | InitServer => cases hd
  | completion op b addr data =>
      cases b with
      | false => cases hd
      | true =>
          simp only [Event.datagram, Option.mem_def, Option.ite_none_right_eq_some,
            Option.some.injEq] at hd
          obtain ⟨⟨hmode, -⟩, rfl⟩ := hd
          simp only [spawn, hmode] at hspawn
          obtain ⟨hop, hspawn⟩ := Option.ite_none_right_eq_some.mp hspawn
          obtain ⟨hle, -⟩ := Option.ite_none_right_eq_some.mp hspawn
          exact hroom op hop hmode ▸ hle

namespace Kept

variable {threads : Nat} {m m' : Machine} {history : Carried}

theorem start (threads : Nat) : Kept threads (idle threads) [] where
  reached := .refl
  good := ⟨_, echoing.good_start echoing_start⟩
  len _ := rfl
  new _ _ := rfl
  received _ _ hd := by cases hd

theorem top_len (h : Kept threads m history) {k : Nat} (hk : k ≤ MAX_UDP_CONTEXT_BUFSIZE)
    (hsizes : ∀ c stack, m.shared.stack = c :: stack → ∀ n ∈ sizes history c, k ≤ n) :
    k ≤ m.shared.top.len ∧ m.shared.top.len ≤ MAX_UDP_CONTEXT_BUFSIZE := by
  cases hstack : m.shared.stack with
  | nil =>
      simp only [Server.top, hstack]
      exact ⟨hk, Nat.le_refl _⟩
  | cons c stack =>
      simp only [Server.top, hstack, h.len c]
      exact ⟨le_foldl_min hk (hsizes c stack hstack), foldl_min_le⟩

/-- A context that has sent back no shorter datagram has the room. -/
theorem hasRoom (h : Kept threads m history) {a : Action} (ha : Roomy (m, history) a) :
    HasRoom m a := by
  cases a with
  | run t x =>
      intro e he
      refine ⟨fun hc => ?_, fun hc d hd => ?_⟩
      · have htop := h.top_len (Nat.le_refl _) fun c stack hstack => by
          simpa only [Roomy, he, hc, hstack] using ha
        exact Nat.le_antisymm htop.2 htop.1
      · have hd' : d ∈ m.shared.received t := by
          rw [received_run h.reached he]
          exact hd
        refine (h.top_len (h.received t d hd') fun c stack hstack => ?_).1
        have ha' : ∀ n ∈ sizes history c, ∀ d ∈ e.datagram, d.data.length ≤ n := by
          simpa only [Roomy, he, hc, hstack] using ha
        exact fun n hn => ha' n hn d hd
  | begin t e => trivial
  | finish t => trivial

theorem run {t : Nat} {x : Choice} (h : Kept threads m history)
    (hgood : ∃ rs, echoing.Good m' rs) (hstep : system.step m (.run t x) = some m') :
    Kept threads m' (history ++ carried m (.run t x)) := by
  obtain ⟨e, c, v, he, hc, hexec⟩ := step_run hstep
  obtain ⟨rs, hm⟩ := h.good
  obtain ⟨e', r, he', hr, -, hset⟩ := hm.before hc
  obtain rfl : e' = e := Option.some.inj (he'.symm.trans he)
  obtain ⟨hsize, hlen⟩ := exec_len (e := e') hexec h.new
  have hreceived := exec_received (e := e') hexec
  refine ⟨.tail _ h.reached trivial hstep, hgood, fun k => ?_, fun k hk => ?_,
    hreceived ▸ h.received⟩
  · rw [hlen k, sizes_append, List.foldl_append, ← h.len k]
    cases c with
    | SetSendParameters c' src n =>
        obtain ⟨-, d, hd, rfl⟩ := hset c' src n rfl
        have hne : d.data.length ≠ 0 := event_datagram_ne hd
        by_cases hk : k = c'
        · subst hk
          simp [Cmd.room, carried, he, hc, hd, sizes, hne, Nat.min_comm]
        · simp [Cmd.room, carried, he, hc, hd, sizes, hk, Ne.symm hk]
    | _ => simp [Cmd.room, carried, he, hc, sizes]
  · rw [hlen k]
    have hk' := h.new k (Nat.le_trans hsize hk)
    cases c with
    | SetSendParameters c' src n =>
        obtain ⟨hlt, -⟩ := hset c' src n rfl
        have hne : k ≠ c' := fun heq => by omega
        simp only [Cmd.room, hne, false_and, if_false]
        exact hk'
    | _ => exact hk'

theorem begin {t : Nat} {e : Event} (h : Kept threads m history)
    (hgood : ∃ rs, echoing.Good m' rs) (hstep : system.step m (.begin t e) = some m') :
    Kept threads m' history := by
  obtain ⟨-, p, hspawn⟩ := step_begin hstep
  obtain ⟨rs, hm⟩ := h.good
  obtain ⟨hsize, hlen⟩ := spawn_len hspawn
  refine ⟨.tail _ h.reached trivial hstep, hgood, fun k => (hlen k).trans (h.len k),
    fun k hk => (hlen k).trans (h.new k (hsize ▸ hk)), fun u d hd => ?_⟩
  rw [spawn_received hspawn] at hd
  by_cases hu : u = t
  · subst hu
    rw [Function.update_self] at hd
    exact spawn_datagram hspawn hd hm.inv.room
  · rw [Function.update_of_ne hu] at hd
    exact h.received u d hd

theorem step {s s' : Machine × Carried} {a : Action} (h : Kept threads s.1 s.2)
    (ha : Roomy s a) (hstep : recordStep s a = some s') : Kept threads s'.1 s'.2 := by
  obtain ⟨m', hm', rfl⟩ := Option.map_eq_some_iff.mp hstep
  have hgood := echoing_step h.good (h.hasRoom ha) hm'
  cases a with
  | run t x => exact h.run hgood hm'
  | begin t e =>
      simp only [carried, List.append_nil]
      exact h.begin hgood hm'
  | finish t =>
      simp only [carried, List.append_nil]
      have hshared := step_finish hm'
      exact ⟨.tail _ h.reached trivial hm', hgood, hshared ▸ h.len, hshared ▸ h.new,
        hshared ▸ h.received⟩

end Kept

/-- In a run in which no context is handed out that has sent back a shorter datagram before,
every receive is posted with the whole buffer, and a thread that has handled a completion has
sent back the datagram that came with it, once and to its sender, or nothing if none came. -/
theorem echoes_in_full {threads : Nat} {m : Machine} {history : Carried}
    (h : Via recordStep Roomy (idle threads, []) (m, history)) :
    (∀ n ∈ m.shared.receives, n = MAX_UDP_CONTEXT_BUFSIZE) ∧
    (∀ op ∈ m.shared.flight, op.mode = .SC_WAIT_RECEIVE → op.len = MAX_UDP_CONTEXT_BUFSIZE) ∧
    ∀ t e, m.event t = some e → m.next t = none → m.shared.sends t = e.datagram.toList := by
  have hkept : Kept threads m history :=
    h.invariant (P := fun s => Kept threads s.1 s.2) (.start threads)
      fun _ _ _ hs ha hstep => hs.step ha hstep
  obtain ⟨rs, hgood⟩ := hkept.good
  refine ⟨hgood.inv.receives, hgood.inv.room, fun t e he ht => ?_⟩
  rw [← received_run hkept.reached he]
  refine hgood.inv.sent t fun hmem => ?_
  obtain ⟨q, hq, rfl⟩ := Multiset.mem_map.mp hmem
  obtain ⟨u, -, e', c', r, -, hc', hqr, hpre⟩ := hgood.owner
    (P := fun r => q ∈ r.2) (Multiset.notMem_zero q) (fun _ _ => Multiset.mem_add.mp) hq
  rw [hpre.1 q hqr, hc'] at ht
  cases ht

/-- `InitServer` posts the first receives. -/
def postReceives : List Action := List.flatten [
  [.begin 0 .InitServer], List.replicate 64 (.run 0 .ok), [.finish 0]]

/-- A datagram on one of them is handled. -/
def datagram (c n : Nat) (data : List UInt8) : List Action :=
  [.begin 0 (.completion ⟨.SC_WAIT_RECEIVE, c, n⟩ true 5 data)] ++ List.replicate 7 (.run 0 .ok)

/-- Two datagrams of different sizes; their echoes are still in flight. -/
theorem echoes_in_full_one : ∃ m, Via recordStep Roomy (idle 2, []) (m, [(94, 1), (93, 3)]) ∧
    m.shared.sends 0 = [⟨5, [1, 2, 3]⟩] ∧ 34 = m.shared.receives.length ∧
    ∀ n ∈ m.shared.receives, n = MAX_UDP_CONTEXT_BUFSIZE := by
  have hrun : ∃ s, Via recordStep Roomy (idle 2, []) s ∧ s.2 = [(94, 1), (93, 3)] ∧
      s.1.event 0 = some (.completion ⟨.SC_WAIT_RECEIVE, 126, 4096⟩ true 5 [1, 2, 3]) ∧
      s.1.next 0 = none ∧ 34 = s.1.shared.receives.length :=
    exists_via_of_execIf (List.flatten [
      postReceives, datagram 127 4096 [7], [.finish 0], datagram 126 4096 [1, 2, 3]])
      (by decide +kernel)
  obtain ⟨⟨m, history⟩, hm, rfl, he, hnext, hlength⟩ := hrun
  have hfull := echoes_in_full hm
  exact ⟨m, hm, hfull.2.2 0 _ he hnext, hlength, hfull.1⟩

/-- Two datagrams of one byte, and then the completions of their echoes. -/
def twoShort : List Action := List.flatten [
  postReceives, datagram 127 4096 [7], [.finish 0], datagram 126 4096 [8],
  [.finish 0, .begin 1 (.completion ⟨.SC_WAIT_TRANSMIT, 94, 1⟩ true 0 []), .run 1 .ok, .run 1 .ok,
    .finish 1, .begin 1 (.completion ⟨.SC_WAIT_TRANSMIT, 93, 1⟩ true 0 []), .run 1 .ok,
    .run 1 .ok, .finish 1]]

/-- After that a receive has room for one byte, and of two bytes the first goes back
twice. -/
theorem short_context : ∃ m, Reachable 2 m ∧
    m.event 0 = some (.completion ⟨.SC_WAIT_RECEIVE, 125, 4096⟩ true 5 [1, 2]) ∧
    m.next 0 = none ∧ m.shared.sends 0 = [⟨5, [1]⟩, ⟨5, [1]⟩] ∧ 1 ∈ m.shared.receives :=
  exists_via_of_execIf (List.flatten [
    twoShort, datagram 125 4096 [1, 2], List.replicate 3 (.run 0 .ok)])
    (by decide +kernel)

end CppWorkspace.UdpServer
