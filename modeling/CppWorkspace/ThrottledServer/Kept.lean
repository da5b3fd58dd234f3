/-
# `CppWorkspace.ThrottledServer.Kept` — nothing is out of sight

`Buffers` and `Sockets` say that nothing is in two places.  Here it is said that everything
is in one, for one thread that is alone inside an event and holds

    B   buffers
    C   connections that have no operation in flight and no queued send
    G   client sockets that were not handed to a socket object

    Stocked    there are as many places as buffers
    Tended     each connection that was not freed is in flight, queued, or in `C`; the other
               socket objects are in the free list
    Guarded    each open socket is that of an accept, of a connection, or in `G`

There is one lemma for each command.
-/
import Mathlib.Data.Multiset.AddSub
import CppWorkspace.ThrottledServer.Operations

namespace CppWorkspace.ThrottledServer

open Programs Runs LinkedList

/-! ## Connections and client sockets -/

/-- The connection of an operation, and the client socket of an accept. -/
def Op.peer (op : Op) : Option SockPtr :=
  match op.key with
  | .sock p => some p
  | .listen _ => none

def Op.client (op : Op) : Option Nat :=
  match op.key with
  | .listen _ => some op.s
  | .sock _ => none

/-- The connections with an operation in flight or a queued send. -/
def peers (σ : Server) (queue : List Nat) : Multiset SockPtr :=
  (σ.flight.filterMap Op.peer : Multiset SockPtr) +
    (queue.filterMap fun b => (σ.buffer b).sock : Multiset SockPtr)

/-- The client sockets of the accepts in flight, and of those that were not posted. -/
def clients (σ : Server) : Multiset Nat :=
  (σ.flight.filterMap Op.client : Multiset Nat) +
    (σ.abandoned.filterMap fun a => (σ.buffer a.2).sclient : Multiset Nat)

/-- The socket of a connection is open, and the completion port knows it. -/
def Attached (σ : Server) (p : SockPtr) : Prop :=
  ∃ h, (σ.socket p.obj).s = some h ∧ σ.isOpen h = true ∧ σ.port h = some p

/-- The connection of `p` is open and attached. -/
structure Joined (σ : Server) (p : SockPtr) : Prop where
  notClosing : (σ.socket p.obj).bClosing = false
  attached : Attached σ p

/-- `OutstandingSend == 0 && OutstandingRecv == 0` -/
def Idle (σ : Server) (p : SockPtr) : Prop :=
  (σ.socket p.obj).OutstandingSend = 0 ∧ (σ.socket p.obj).OutstandingRecv = 0

/-- Every buffer is in a place. -/
structure Stocked (σ : Server) (L : Head → List Nat) (B : Multiset Hold) : Prop where
  buffers : Buffers σ L B
  covered : Multiset.card (places σ L B) = σ.buffers

/-- Every connection has a buffer, or a thread. -/
structure Tended (σ : Server) (queue : List Nat) (C : Multiset SockPtr) : Prop where
  once : (peers σ queue + C).Nodup
  live : ∀ p, σ.live p ↔ p ∈ peers σ queue + C
  joined : ∀ p ∈ peers σ queue, Joined σ p
  free : ∃ l, Chain σ.snext σ.gFreeSocketList l ∧ l.Nodup ∧
    ∀ k, k ∈ l ↔ k < σ.sockets ∧ (σ.socket k).conn = none
  fresh : ∀ k, σ.sockets ≤ k → (σ.socket k).conn = none
  clear : ∀ k, (σ.socket k).conn = none → (σ.socket k).bClosing = false

/-- Every client socket that the port does not know has a buffer, or a thread. -/
structure Guarded (σ : Server) (G : Multiset Nat) : Prop where
  once : (clients σ + G).Nodup
  unknown : ∀ h ∈ clients σ + G, σ.isOpen h = true ∧ σ.port h = none
  owned : ∀ h, σ.isOpen h = true → h ∈ clients σ + G ∨
    ∃ p, σ.live p ∧ (σ.socket p.obj).s = some h

/-- Nothing is lost. -/
structure Kept (σ : Server) (L : Head → List Nat) (B : Multiset Hold) (C : Multiset SockPtr)
    (G : Multiset Nat) : Prop where
  stocked : Stocked σ L B
  tended : Tended σ (L .gPendingSendList) C
  guarded : Guarded σ G

/-- The owners of the socket objects and of the sockets are the same. -/
structure Calm (σ σ' : Server) : Prop where
  object : ∀ k, (σ'.socket k).conn = (σ.socket k).conn ∧ (σ'.socket k).s = (σ.socket k).s ∧
    (σ'.socket k).bClosing = (σ.socket k).bClosing
  isOpen : σ'.isOpen = σ.isOpen
  port : σ'.port = σ.port
  snext : σ'.snext = σ.snext
  gFreeSocketList : σ'.gFreeSocketList = σ.gFreeSocketList
  sockets : σ'.sockets = σ.sockets

variable {σ σ' σ'' : Server} {L L' : Head → List Nat} {B B' : Multiset Hold}
  {C C' : Multiset SockPtr} {G G' : Multiset Nat} {x : Hold} {p q : SockPtr} {op : Op}
  {queue queue' : List Nat} {b h k l : Nat}

theorem places_card : Multiset.card (places σ L B) = (L .gFreeBufferList).length +
    (L .gPendingSendList).length + σ.flight.length + σ.abandoned.length + Multiset.card B := by
  simp only [places, Multiset.card_add, Multiset.coe_card, Multiset.card_map, List.length_map]

/-! ## What does not change -/

namespace Calm

theorem trans (h : Calm σ σ') (h' : Calm σ' σ'') : Calm σ σ'' where
  object k := ⟨(h'.object k).1.trans (h.object k).1, (h'.object k).2.1.trans (h.object k).2.1,
    (h'.object k).2.2.trans (h.object k).2.2⟩
  isOpen := h'.isOpen.trans h.isOpen
  port := h'.port.trans h.port
  snext := h'.snext.trans h.snext
  gFreeSocketList := h'.gFreeSocketList.trans h.gFreeSocketList
  sockets := h'.sockets.trans h.sockets

theorem of_eq (hsocket : σ'.socket = σ.socket) (hisOpen : σ'.isOpen = σ.isOpen)
    (hport : σ'.port = σ.port) (hsnext : σ'.snext = σ.snext)
    (hfree : σ'.gFreeSocketList = σ.gFreeSocketList) (hsockets : σ'.sockets = σ.sockets) :
    Calm σ σ' where
  object k := by
    rw [hsocket]
    exact ⟨rfl, rfl, rfl⟩
  isOpen := hisOpen
  port := hport
  snext := hsnext
  gFreeSocketList := hfree
  sockets := hsockets

theorem setSocket {x : SocketObj} (hconn : x.conn = (σ.socket k).conn)
    (hs : x.s = (σ.socket k).s) (hclosing : x.bClosing = (σ.socket k).bClosing) :
    Calm σ (σ.setSocket k x) where
  object j := by
    by_cases hj : j = k
    · subst hj
      rw [Server.setSocket_self]
      exact ⟨hconn, hs, hclosing⟩
    · rw [Server.setSocket_of_ne hj]
      exact ⟨rfl, rfl, rfl⟩
  isOpen := rfl
  port := rfl
  snext := rfl
  gFreeSocketList := rfl
  sockets := rfl

theorem set {n : Int} {v : Var} : Calm σ (σ.set n v) := by
  cases v with
  | OutstandingRecv p => exact setSocket rfl rfl rfl
  | OutstandingSend p => exact setSocket rfl rfl rfl
  | _ => exact of_eq rfl rfl rfl rfl rfl rfl

theorem live (H : Calm σ σ') : σ'.live p ↔ σ.live p := by
  rw [Server.live, (H.object p.obj).1, Server.live]

theorem attached (H : Calm σ σ') (h : Attached σ p) : Attached σ' p := by
  obtain ⟨h, hs, hopen, hport⟩ := h
  exact ⟨h, (H.object p.obj).2.1.trans hs, by rw [H.isOpen, hopen], by rw [H.port, hport]⟩

theorem joined (H : Calm σ σ') (h : Joined σ p) : Joined σ' p where
  notClosing := (H.object p.obj).2.2.trans h.notClosing
  attached := H.attached h.attached

end Calm

/-! Operations are posted, queued, completed and taken from the queue. -/

theorem Tended.calm (H : Tended σ queue C) (hcalm : Calm σ σ')
    (hpeers : peers σ' queue' + C' = peers σ queue + C)
    (hjoined : ∀ p ∈ peers σ' queue', p ∈ peers σ queue ∨ Joined σ p) :
    Tended σ' queue' C' where
  once := hpeers ▸ H.once
  live p := by
    rw [hcalm.live, hpeers]
    exact H.live p
  joined p hp := by
    rcases hjoined p hp with hold | hnew
    · exact hcalm.joined (H.joined p hold)
    · exact hcalm.joined hnew
  free := by
    obtain ⟨l, hchain, hnodup, hl⟩ := H.free
    refine ⟨l, ?_, hnodup, fun k => ?_⟩
    · rw [hcalm.snext, hcalm.gFreeSocketList]
      exact hchain
    · rw [hl, hcalm.sockets, (hcalm.object k).1]
  fresh k hk := (hcalm.object k).1.trans (H.fresh k (hcalm.sockets ▸ hk))
  clear k hk := (hcalm.object k).2.2.trans (H.clear k ((hcalm.object k).1.symm.trans hk))

theorem Guarded.calm (H : Guarded σ G) (hcalm : Calm σ σ')
    (hclients : clients σ' + G' = clients σ + G) : Guarded σ' G' where
  once := hclients ▸ H.once
  unknown h hh := by
    rw [hcalm.isOpen, hcalm.port]
    exact H.unknown h (hclients ▸ hh)
  owned h hh := by
    rw [hcalm.isOpen] at hh
    rw [hclients]
    refine (H.owned h hh).imp_right ?_
    rintro ⟨p, hlive, hs⟩
    exact ⟨p, hcalm.live.mpr hlive, (hcalm.object p.obj).2.1.trans hs⟩

theorem peers_same (hflight : σ'.flight = σ.flight)
    (hbuffer : ∀ b ∈ queue, (σ'.buffer b).sock = (σ.buffer b).sock) :
    peers σ' queue = peers σ queue := by
  rw [peers, peers, hflight, List.filterMap_congr hbuffer]

theorem clients_same (hflight : σ'.flight = σ.flight) (habandoned : σ'.abandoned = σ.abandoned)
    (hbuffer : ∀ a ∈ σ.abandoned, (σ'.buffer a.2).sclient = (σ.buffer a.2).sclient) :
    clients σ' = clients σ := by
  rw [clients, clients, hflight, habandoned, List.filterMap_congr hbuffer]

theorem Tended.first (H : Tended σ queue (p ::ₘ C)) : σ.live p ∧ p ∉ peers σ queue + C := by
  have hmem : p ∈ peers σ queue + p ::ₘ C :=
    Multiset.mem_add.mpr (.inr (Multiset.mem_cons_self p C))
  have honce := H.once
  rw [Multiset.add_cons, Multiset.nodup_cons] at honce
  exact ⟨(H.live p).mpr hmem, honce.1⟩

theorem live_apart (hp : σ.live p) (hq : σ.live q) (hne : p ≠ q) : p.obj ≠ q.obj := by
  intro hobj
  rw [Server.live] at hp hq
  rw [hobj, hq] at hp
  obtain ⟨i, m⟩ := p
  obtain ⟨j, n⟩ := q
  obtain rfl : i = j := hobj
  obtain rfl : n = m := Option.some.inj hp
  exact hne rfl

/-! A socket is opened, closed, or told to the completion port. -/

/-- The sockets and the socket objects, but for the socket `h`. -/
structure Beside (σ σ' : Server) (h : Nat) : Prop where
  socket : σ'.socket = σ.socket
  isOpen : ∀ k, k ≠ h → σ'.isOpen k = σ.isOpen k
  port : ∀ k, k ≠ h → σ'.port k = σ.port k
  snext : σ'.snext = σ.snext
  gFreeSocketList : σ'.gFreeSocketList = σ.gFreeSocketList
  sockets : σ'.sockets = σ.sockets

theorem Beside.live (H : Beside σ σ' h) : σ'.live p ↔ σ.live p := by
  rw [Server.live, H.socket, Server.live]

theorem Joined.beside (H : Joined σ p) (hbeside : Beside σ σ' h)
    (hne : (σ.socket p.obj).s ≠ some h) : Joined σ' p := by
  obtain ⟨hclosing, k, hs, hopen, hport⟩ := H
  have hk : k ≠ h := fun he => hne (he ▸ hs)
  refine ⟨by rw [hbeside.socket, hclosing], k, by rw [hbeside.socket, hs], ?_, ?_⟩
  · rw [hbeside.isOpen k hk, hopen]
  · rw [hbeside.port k hk, hport]

theorem Tended.beside (H : Tended σ queue C) (hbeside : Beside σ σ' h)
    (hne : ∀ p ∈ peers σ queue, (σ.socket p.obj).s ≠ some h)
    (hpeers : peers σ' queue = peers σ queue) : Tended σ' queue C where
  once := hpeers ▸ H.once
  live p := by
    rw [hbeside.live, hpeers]
    exact H.live p
  joined p hp := by
    rw [hpeers] at hp
    exact (H.joined p hp).beside hbeside (hne p hp)
  free := by
    rw [hbeside.snext, hbeside.gFreeSocketList, hbeside.sockets, hbeside.socket]
    exact H.free
  fresh := by
    rw [hbeside.sockets, hbeside.socket]
    exact H.fresh
  clear := by
    rw [hbeside.socket]
    exact H.clear

/-- A client socket is not that of a connection that the completion port knows. -/
theorem Joined.not_client (H : Joined σ p) (hport : σ.port h = none) :
    (σ.socket p.obj).s ≠ some h := by
  obtain ⟨-, k, hs, -, hk⟩ := H
  intro he
  obtain rfl : k = h := Option.some.inj (hs.symm.trans he)
  rw [hport] at hk
  cases hk

/-! The object of a connection that the thread holds changes. -/

theorem Tended.object {f : SocketObj} (H : Tended σ queue (p ::ₘ C))
    (hconn : f.conn = (σ.socket p.obj).conn) : Tended (σ.setSocket p.obj f) queue (p ::ₘ C) := by
  have hsame : ∀ k, ((σ.setSocket p.obj f).socket k).conn = (σ.socket k).conn := by
    intro k
    by_cases hk : k = p.obj
    · subst hk
      rw [Server.setSocket_self, hconn]
    · rw [Server.setSocket_of_ne hk]
  obtain ⟨hlive, hnot⟩ := H.first
  refine ⟨H.once, fun q => ?_, fun q hq => ?_, ?_, fun k hk => (hsame k).trans (H.fresh k hk),
    fun k hk => ?_⟩
  · rw [Server.live, hsame]
    exact H.live q
  · have hq' : q ≠ p := by
      rintro rfl
      exact hnot (Multiset.mem_add.mpr (.inl hq))
    have hobj : q.obj ≠ p.obj :=
      live_apart ((H.live q).mpr (Multiset.mem_add.mpr (.inl hq))) hlive hq'
    obtain ⟨hclosing, h, hs, hopen, hport⟩ := H.joined q hq
    refine ⟨?_, h, ?_, hopen, hport⟩
    · rw [Server.setSocket_of_ne hobj, hclosing]
    · rw [Server.setSocket_of_ne hobj, hs]
  · obtain ⟨l, hchain, hnodup, hl⟩ := H.free
    refine ⟨l, hchain, hnodup, fun k => ?_⟩
    rw [hsame]
    exact hl k
  · rw [hsame] at hk
    have hne : k ≠ p.obj := by
      rintro rfl
      rw [Server.live, hk] at hlive
      cases hlive
    rw [Server.setSocket_of_ne hne]
    exact H.clear k hk

theorem Guarded.object {f : SocketObj} (H : Guarded σ G) (hconn : f.conn = (σ.socket k).conn)
    (hs : ∀ h, (σ.socket k).s = some h → σ.isOpen h = true → f.s = some h) :
    Guarded (σ.setSocket k f) G := by
  refine ⟨H.once, H.unknown, fun h hh => (H.owned h hh).imp_right ?_⟩
  rintro ⟨p, hlive, hp⟩
  by_cases hk : p.obj = k
  · subst hk
    refine ⟨p, ?_, ?_⟩
    · rw [Server.live, Server.setSocket_self, hconn]
      exact hlive
    · rw [Server.setSocket_self]
      exact hs h hp hh
  · refine ⟨p, ?_, ?_⟩
    · rw [Server.live, Server.setSocket_of_ne hk]
      exact hlive
    · rw [Server.setSocket_of_ne hk]
      exact hp

/-! A socket object is handed out, and freed. -/

theorem Tended.connect {f : SocketObj} {n : Nat} (H : Tended σ queue C)
    (hk : (σ.socket k).conn = none) (hsocket : σ'.socket = Function.update σ.socket k f)
    (hconn : f.conn = some n) (hclosing : f.bClosing = false) (hisOpen : σ'.isOpen = σ.isOpen)
    (hport : σ'.port = σ.port) (hpeers : peers σ' queue = peers σ queue)
    (hsockets : σ.sockets ≤ σ'.sockets) (hlt : k < σ'.sockets)
    (hfree : ∃ l, Chain σ'.snext σ'.gFreeSocketList l ∧ l.Nodup ∧
      ∀ j, j ∈ l ↔ j ≠ k ∧ j < σ'.sockets ∧ (σ.socket j).conn = none) :
    Tended σ' queue (⟨k, n⟩ ::ₘ C) := by
  have hself : σ'.socket k = f := by rw [hsocket, Function.update_self]
  have hother : ∀ j, j ≠ k → σ'.socket j = σ.socket j := fun j hj => by
    rw [hsocket, Function.update_of_ne hj]
  have hlive : ∀ q, σ.live q → q.obj ≠ k := by
    rintro q hq rfl
    rw [Server.live, hk] at hq
    cases hq
  refine ⟨?_, fun q => ?_, fun q hq => ?_, ?_, fun j hj => ?_, fun j hj => ?_⟩
  · rw [hpeers, Multiset.add_cons, Multiset.nodup_cons]
    exact ⟨fun hmem => hlive _ ((H.live _).mpr hmem) rfl, H.once⟩
  · rw [hpeers, Multiset.add_cons, Multiset.mem_cons, ← H.live]
    by_cases hq : q.obj = k
    · obtain ⟨i, m⟩ := q
      obtain rfl : i = k := hq
      have hdead : ¬ σ.live ⟨i, m⟩ := fun hm => hlive _ hm rfl
      rw [Server.live, hself, hconn]
      simp only [hdead, or_false, Option.some.injEq, SockPtr.mk.injEq, true_and, eq_comm]
    · have hne : q ≠ ⟨k, n⟩ := fun he => hq (he ▸ rfl)
      rw [Server.live, hother _ hq]
      simp only [hne, false_or]
      rfl
  · rw [hpeers] at hq
    have hobj := hlive q ((H.live q).mpr (Multiset.mem_add.mpr (.inl hq)))
    obtain ⟨hopen, h, hs, hh, hp⟩ := H.joined q hq
    exact ⟨by rw [hother _ hobj, hopen], h, by rw [hother _ hobj, hs], by rw [hisOpen, hh],
      by rw [hport, hp]⟩
  · obtain ⟨l, hchain, hnodup, hl⟩ := hfree
    refine ⟨l, hchain, hnodup, fun j => ?_⟩
    rw [hl]
    by_cases hj : j = k
    · subst hj
      simp [hself, hconn]
    · simp [hj, hother j hj]
  · have hne : j ≠ k := fun he => Nat.lt_irrefl _ (Nat.lt_of_lt_of_le (he ▸ hlt) hj)
    rw [hother j hne]
    exact H.fresh j (Nat.le_trans hsockets hj)
  · by_cases hjk : j = k
    · subst hjk
      rw [hself, hclosing]
    · rw [hother j hjk] at hj ⊢
      exact H.clear j hj

theorem Tended.release (H : Tended σ queue (p ::ₘ C)) : Tended (σ.FreeSocketObj p) queue C := by
  obtain ⟨hlive, hnot⟩ := H.first
  have hself : (σ.FreeSocketObj p).socket p.obj = .zero (σ.socket p.obj).SockCritSec :=
    Server.setSocket_self
  have hother : ∀ j, j ≠ p.obj → (σ.FreeSocketObj p).socket j = σ.socket j :=
    fun j hj => Server.setSocket_of_ne hj
  have honce := H.once
  rw [Multiset.add_cons, Multiset.nodup_cons] at honce
  have hapart : ∀ q ∈ peers σ queue + C, q.obj ≠ p.obj := by
    intro q hq
    refine live_apart ((H.live q).mpr ?_) hlive fun he => hnot (he ▸ hq)
    rw [Multiset.add_cons]
    exact Multiset.mem_cons_of_mem hq
  refine ⟨honce.2, fun q => ⟨fun hq => ?_, fun hq => ?_⟩, fun q hq => ?_, ?_, fun j hj => ?_,
    fun j hj => ?_⟩
  · have hobj : q.obj ≠ p.obj := by
      intro hobj
      rw [Server.live, hobj, hself] at hq
      cases hq
    rw [Server.live, hother _ hobj] at hq
    have hmem := (H.live q).mp hq
    rw [Multiset.add_cons] at hmem
    exact (Multiset.mem_cons.mp hmem).resolve_left fun he => hobj (he ▸ rfl)
  · rw [Server.live, hother _ (hapart q hq)]
    refine (H.live q).mpr ?_
    rw [Multiset.add_cons]
    exact Multiset.mem_cons_of_mem hq
  · have hobj := hapart q (Multiset.mem_add.mpr (.inl hq))
    obtain ⟨hclosing, h, hs, hopen, hport⟩ := H.joined q hq
    exact ⟨by rw [hother _ hobj, hclosing], h, by rw [hother _ hobj, hs], hopen, hport⟩
  · obtain ⟨l, hchain, hnodup, hl⟩ := H.free
    have hp : p.obj ∉ l := by
      intro hmem
      have hconn := ((hl _).mp hmem).2
      rw [Server.live, hconn] at hlive
      cases hlive
    have hlt : p.obj < σ.sockets := by
      by_contra hge
      have hconn := H.fresh p.obj (Nat.le_of_not_lt hge)
      rw [Server.live, hconn] at hlive
      cases hlive
    refine ⟨p.obj :: l, hchain.push hp, List.nodup_cons.mpr ⟨hp, hnodup⟩, fun j => ?_⟩
    change _ ↔ j < σ.sockets ∧ ((σ.FreeSocketObj p).socket j).conn = none
    rw [List.mem_cons, hl]
    by_cases hj : j = p.obj
    · subst hj
      simp [hself, SocketObj.zero, hlt]
    · simp [hj, hother j hj]
  · by_cases hjp : j = p.obj
    · subst hjp
      rw [hself]
      rfl
    · rw [hother j hjp]
      exact H.fresh j hj
  · by_cases hjp : j = p.obj
    · subst hjp
      rw [hself]
      rfl
    · rw [hother j hjp] at hj ⊢
      exact H.clear j hj

theorem Buffers.elsewhere (H : Buffers σ L (x ::ₘ B)) : x.buf ∉ L .gPendingSendList ∧
    (∀ op ∈ σ.flight, op.buf ≠ x.buf) ∧ ∀ a ∈ σ.abandoned, a.2 ≠ x.buf := by
  have hx := H.exclusive
  rw [mem_places] at hx
  exact ⟨fun hq => hx (.inr (.inl hq)), fun op hop he => hx (.inr (.inr (.inl ⟨op, hop, he⟩))),
    fun a ha he => hx (.inr (.inr (.inr (.inl ⟨a, ha, he⟩))))⟩

theorem Buffers.held (H : Buffers σ L (x ::ₘ B)) (hflight : σ'.flight = σ.flight)
    (habandoned : σ'.abandoned = σ.abandoned)
    (hbuffer : ∀ c, c ≠ x.buf → σ'.buffer c = σ.buffer c) :
    peers σ' (L .gPendingSendList) = peers σ (L .gPendingSendList) ∧ clients σ' = clients σ := by
  obtain ⟨hqueue, -, hnot⟩ := H.elsewhere
  refine ⟨peers_same hflight fun b hb => ?_, clients_same hflight habandoned fun a ha => ?_⟩
  · rw [hbuffer b fun he => hqueue (he ▸ hb)]
  · rw [hbuffer a.2 (hnot a ha)]

theorem Idle.setSocket {f : SocketObj} (H : Idle σ q)
    (hsend : f.OutstandingSend = (σ.socket k).OutstandingSend)
    (hrecv : f.OutstandingRecv = (σ.socket k).OutstandingRecv) : Idle (σ.setSocket k f) q := by
  by_cases hk : q.obj = k
  · subst hk
    rw [Idle, Server.setSocket_self, hsend, hrecv]
    exact H
  · rw [Idle, Server.setSocket_of_ne hk]
    exact H

theorem calm_enqueue (h : σ.EnqueuePendingOperation b = some σ') : Calm σ σ' := by
  obtain ⟨p, next, first, last, -, rfl⟩ := enqueue_spec h
  have hset := Calm.setSocket (σ := σ) (k := p.obj)
    (x := { σ.socket p.obj with PendingSend := (σ.socket p.obj).PendingSend + 1 }) rfl rfl rfl
  exact hset.trans (.of_eq rfl rfl rfl rfl rfl rfl)

theorem calm_dequeue (h : σ.DequeuePendingOperation = some (σ', some b)) : Calm σ σ' := by
  obtain ⟨p, first, last, -, rfl⟩ := dequeue_spec h
  have hset := Calm.setSocket (σ := σ) (k := p.obj)
    (x := { σ.socket p.obj with PendingSend := (σ.socket p.obj).PendingSend - 1 }) rfl rfl rfl
  exact hset.trans (.of_eq rfl rfl rfl rfl rfl rfl)

/-! Operations. -/

theorem peers_post (h : op.key = .sock p) :
    peers { σ with flight := op :: σ.flight } queue = p ::ₘ peers σ queue := by
  have hpeer : op.peer = some p := by rw [Op.peer, h]
  rw [peers, List.filterMap_cons_some hpeer, ← Multiset.cons_coe, Multiset.cons_add]
  rfl

theorem peers_post_accept (h : op.key = .listen l) :
    peers { σ with flight := op :: σ.flight } queue = peers σ queue := by
  have hpeer : op.peer = none := by rw [Op.peer, h]
  rw [peers, List.filterMap_cons_none hpeer]
  rfl

theorem clients_post (h : op.key = .sock p) :
    clients { σ with flight := op :: σ.flight } = clients σ := by
  have hclient : op.client = none := by rw [Op.client, h]
  rw [clients, List.filterMap_cons_none hclient]
  rfl

theorem clients_post_accept (h : op.key = .listen l) :
    clients { σ with flight := op :: σ.flight } = op.s ::ₘ clients σ := by
  have hclient : op.client = some op.s := by rw [Op.client, h]
  rw [clients, List.filterMap_cons_some hclient, ← Multiset.cons_coe, Multiset.cons_add]
  rfl

theorem peers_perm {flight : List Op} (h : σ.flight.Perm flight) :
    peers σ queue = peers { σ with flight := flight } queue :=
  congrArg (· + _) (Multiset.coe_eq_coe.mpr (h.filterMap _))

theorem clients_perm {flight : List Op} (h : σ.flight.Perm flight) :
    clients σ = clients { σ with flight := flight } :=
  congrArg (· + _) (Multiset.coe_eq_coe.mpr (h.filterMap _))

namespace Kept

theorem calm (H : Kept σ L B C G) (hcalm : Calm σ σ') (hstocked : Stocked σ' L' B')
    (hpeers : peers σ' (L' .gPendingSendList) + C' = peers σ (L .gPendingSendList) + C)
    (hjoined : ∀ p ∈ peers σ' (L' .gPendingSendList),
      p ∈ peers σ (L .gPendingSendList) ∨ Joined σ p)
    (hclients : clients σ' + G' = clients σ + G) : Kept σ' L' B' C' G' :=
  ⟨hstocked, H.tended.calm hcalm hpeers hjoined, H.guarded.calm hcalm hclients⟩

theorem same (H : Kept σ L B C G) (hcalm : Calm σ σ') (hbuffer : σ'.buffer = σ.buffer)
    (hnext : σ'.next = σ.next) (hbuffers : σ'.buffers = σ.buffers) (hhead : σ'.head = σ.head)
    (hend : σ'.gPendingSendListEnd = σ.gPendingSendListEnd) (hflight : σ'.flight = σ.flight)
    (habandoned : σ'.abandoned = σ.abandoned) (hfailed : σ'.failedAccepts = σ.failedAccepts) :
    Kept σ' L B C G := by
  have hpeers : peers σ' (L .gPendingSendList) = peers σ (L .gPendingSendList) :=
    peers_same hflight fun b _ => by rw [hbuffer]
  refine H.calm hcalm ⟨H.stocked.buffers.same hbuffer hnext hbuffers hhead hend hflight habandoned
    hfailed, ?_⟩ (by rw [hpeers]) (fun p hp => .inl (hpeers ▸ hp)) ?_
  · rw [places, hflight, habandoned, hbuffers]
    exact H.stocked.covered
  · rw [clients_same hflight habandoned fun a _ => by rw [hbuffer]]

theorem set {n : Int} {v : Var} (H : Kept σ L B C G) : Kept (σ.set n v) L B C G := by
  refine H.same Calm.set ?_ ?_ ?_ head_set ?_ ?_ ?_ ?_ <;> cases v <;> rfl

theorem setSocket {f : SocketObj} (H : Kept σ L B C G) (hconn : f.conn = (σ.socket k).conn)
    (hs : f.s = (σ.socket k).s) (hclosing : f.bClosing = (σ.socket k).bClosing) :
    Kept (σ.setSocket k f) L B C G :=
  H.same (.setSocket hconn hs hclosing) rfl rfl rfl rfl rfl rfl rfl rfl

theorem handle (H : Kept σ L (x ::ₘ B) C G) (hcalm : Calm σ σ') (hstocked : Stocked σ' L' B')
    (hqueue : L' .gPendingSendList = L .gPendingSendList) (hflight : σ'.flight = σ.flight)
    (habandoned : σ'.abandoned = σ.abandoned)
    (hbuffer : ∀ c, c ≠ x.buf → σ'.buffer c = σ.buffer c) : Kept σ' L' B' C G := by
  obtain ⟨hpeers, hclients⟩ := H.stocked.buffers.held hflight habandoned hbuffer
  refine H.calm hcalm hstocked ?_ ?_ ?_
  · rw [hqueue, hpeers]
  · rw [hqueue, hpeers]
    exact fun p hp => .inl hp
  · rw [hclients]

theorem covered (H : Kept σ L B C G) (hbuffers : σ'.buffers = σ.buffers)
    (hcard : Multiset.card (places σ' L' B') = Multiset.card (places σ L B)) :
    Multiset.card (places σ' L' B') = σ'.buffers := by
  rw [hcard, hbuffers]
  exact H.stocked.covered

/-! ## Buffers -/

theorem write {o : BufferObj} (H : Kept σ L (x ::ₘ B) C G) :
    Kept (σ.setBuffer x.buf o) L (⟨x.buf, o, x.role⟩ ::ₘ B) C G := by
  refine H.handle (.of_eq rfl rfl rfl rfl rfl rfl)
    ⟨H.stocked.buffers.write rfl, H.covered rfl ?_⟩ rfl rfl rfl fun c hc =>
      Server.setBuffer_of_ne hc
  rw [places_card, places_card, Multiset.card_cons, Multiset.card_cons]
  rfl

theorem free {cfg : Config} (H : Kept σ L (x ::ₘ B) C G) (hx : x.role.list = none) :
    Kept (σ.FreeBufferObj cfg x.buf)
      (Function.update L .gFreeBufferList (x.buf :: L .gFreeBufferList)) B C G := by
  refine H.handle (.of_eq rfl rfl rfl rfl rfl rfl)
    ⟨H.stocked.buffers.free hx, H.covered rfl ?_⟩ rfl rfl rfl fun c hc =>
      Server.setBuffer_of_ne hc
  rw [places_card, places_card, Function.update_self, Multiset.card_cons, List.length_cons]
  change _ + 1 + (L .gPendingSendList).length + σ.flight.length + σ.abandoned.length + _ = _
  omega

theorem insert (H : Kept σ L (x ::ₘ B) C G) (hx : x.role.list = none) (l : Nat) :
    Kept (σ.InsertPendingAccept l x.buf)
      (Function.update L (.PendingAccepts l) (x.buf :: L (.PendingAccepts l)))
      (⟨x.buf, x.obj, .linked l⟩ ::ₘ B) C G := by
  refine H.handle (.of_eq rfl rfl rfl rfl rfl rfl)
    ⟨H.stocked.buffers.insert hx l, H.covered rfl ?_⟩ rfl rfl rfl fun _ _ => rfl
  rw [places_card, places_card, Multiset.card_cons, Multiset.card_cons]
  rfl

theorem remove (H : Kept σ L (x ::ₘ B) C G) (hx : x.role.list = some l)
    (hremove : σ.RemovePendingAccept l x.buf = some σ') :
    Kept σ' (Function.update L (.PendingAccepts l) ((L (.PendingAccepts l)).erase x.buf))
      (⟨x.buf, x.obj, .blank⟩ ::ₘ B) C G := by
  have hbuffers := H.stocked.buffers.remove hx (r := .blank) rfl hremove
  have hcard : Multiset.card (places σ' (Function.update L (.PendingAccepts l)
      ((L (.PendingAccepts l)).erase x.buf)) (⟨x.buf, x.obj, .blank⟩ ::ₘ B)) =
      Multiset.card (places σ L (x ::ₘ B)) := by
    rw [places_card, places_card, Multiset.card_cons, Multiset.card_cons]
    obtain ⟨prev, -, rfl⟩ := Option.map_eq_some_iff.mp hremove
    cases prev <;> rfl
  obtain ⟨prev, -, rfl⟩ := Option.map_eq_some_iff.mp hremove
  cases prev with
  | some a =>
      exact H.handle (.of_eq rfl rfl rfl rfl rfl rfl) ⟨hbuffers, H.covered rfl hcard⟩ rfl rfl rfl
        fun _ _ => rfl
  | none =>
      exact H.handle (.of_eq rfl rfl rfl rfl rfl rfl) ⟨hbuffers, H.covered rfl hcard⟩ rfl rfl rfl
        fun _ _ => rfl

theorem enqueue (H : Kept σ L (x ::ₘ B) (p ::ₘ C) G) (hx : x.role.list = none)
    (hsock : x.obj.sock = some p) (hjoined : Joined σ p)
    (henqueue : σ.EnqueuePendingOperation x.buf = some σ') :
    Kept σ' (Function.update L .gPendingSendList (L .gPendingSendList ++ [x.buf])) B C G ∧
      Calm σ σ' := by
  have hbuffers := H.stocked.buffers.enqueue hx henqueue
  have hself : (σ.buffer x.buf).sock = some p := by
    rw [H.stocked.buffers.contents x (Multiset.mem_cons_self _ _)]
    exact hsock
  have hcalm := calm_enqueue henqueue
  obtain ⟨q, next, first, last, -, rfl⟩ := enqueue_spec henqueue
  have hpeers : peers σ (L .gPendingSendList ++ [x.buf]) = p ::ₘ peers σ (L .gPendingSendList) := by
    rw [peers, List.filterMap_append,
      List.filterMap_cons_some (f := fun b => (σ.buffer b).sock) hself, List.filterMap_nil,
      ← Multiset.coe_add, Multiset.coe_singleton, ← add_assoc, add_comm, Multiset.singleton_add,
      peers]
  refine ⟨H.calm hcalm ⟨hbuffers, H.covered rfl ?_⟩ ?_ ?_ rfl, hcalm⟩
  · rw [places_card, places_card, Function.update_self, Multiset.card_cons, List.length_append]
    change (L .gFreeBufferList).length + (_ + 1) + σ.flight.length + σ.abandoned.length + _ = _
    omega
  · rw [Function.update_self, Multiset.add_cons]
    change peers σ (L .gPendingSendList ++ [x.buf]) + C = _
    rw [hpeers, Multiset.cons_add]
  · rw [Function.update_self]
    change ∀ r ∈ peers σ (L .gPendingSendList ++ [x.buf]), _
    rw [hpeers]
    intro r hr
    rcases Multiset.mem_cons.mp hr with rfl | hr
    · exact .inr hjoined
    · exact .inl hr

theorem dequeue (H : Kept σ L B C G)
    (hdequeue : σ.DequeuePendingOperation = some (σ', some b)) :
    ∃ L' p, (σ'.buffer b).sock = some p ∧ Joined σ' p ∧
      Kept σ' L' (⟨b, σ'.buffer b, .blank⟩ ::ₘ B) (p ::ₘ C) G ∧ Calm σ σ' := by
  obtain ⟨queue, hqueue, hbuffers⟩ := H.stocked.buffers.dequeue (r := .blank) hdequeue rfl
  have hcalm := calm_dequeue hdequeue
  obtain ⟨p, first, last, hp, rfl⟩ := dequeue_spec hdequeue
  have hpeers : peers σ (L .gPendingSendList) = p ::ₘ peers σ queue := by
    rw [hqueue, peers, List.filterMap_cons_some (f := fun b => (σ.buffer b).sock) hp,
      ← Multiset.cons_coe, Multiset.add_cons, peers]
  have hmem : p ∈ peers σ (L .gPendingSendList) := hpeers ▸ Multiset.mem_cons_self p _
  refine ⟨_, p, hp, hcalm.joined (H.tended.joined p hmem),
    H.calm hcalm ⟨hbuffers, H.covered rfl ?_⟩ ?_ ?_ rfl, hcalm⟩
  · rw [places_card, places_card, Function.update_self, hqueue, Multiset.card_cons,
      List.length_cons]
    change (L .gFreeBufferList).length + queue.length + σ.flight.length + σ.abandoned.length + _ = _
    omega
  · rw [Function.update_self, hpeers, Multiset.add_cons, Multiset.cons_add]
    rfl
  · rw [Function.update_self, hpeers]
    exact fun r hr => .inl (Multiset.mem_cons_of_mem hr)

theorem get {cfg : Config} (H : Kept σ L B C G)
    (hget : σ.GetBufferObj cfg .ok = some (σ', some b)) :
    ∃ L' obj, Kept σ' L' (⟨b, obj, .blank⟩ ::ₘ B) C G := by
  obtain ⟨L', obj, hbuffers, hqueue, hcard⟩ := H.stocked.buffers.get hget
  have hframe : Calm σ σ' ∧ σ.flight = σ'.flight ∧ σ.abandoned = σ'.abandoned ∧
      ∀ c, c ≠ b → σ.buffer c = σ'.buffer c := by
    cases hfree : σ.gFreeBufferList <;> simp only [Server.GetBufferObj, hfree] at hget <;>
      cases hget <;> exact ⟨.of_eq rfl rfl rfl rfl (by rfl) rfl, rfl, rfl,
        fun c hc => (Server.setBuffer_of_ne hc).symm⟩
  obtain ⟨hcalm, hflight, habandoned, hbuffer⟩ := hframe
  obtain ⟨hpeers, hclients⟩ := hbuffers.held hflight habandoned hbuffer
  rw [hqueue] at hpeers
  refine ⟨L', obj, H.calm hcalm ⟨hbuffers, ?_⟩ ?_ ?_ ?_⟩
  · have hcovered := H.stocked.covered
    omega
  · rw [hqueue, hpeers]
  · rw [hqueue, hpeers]
    exact fun p hp => .inl hp
  · rw [hclients]

/-! ## Operations -/

theorem post (H : Kept σ L (x ::ₘ B) (p ::ₘ C) G) (hx : x.role.list = none)
    (hjoined : Joined σ p) (hbuf : op.buf = x.buf) (hkey : op.key = .sock p)
    (hoperation : x.obj.operation = op.operation) (hne : op.operation ≠ .OP_ACCEPT) :
    Kept { σ with flight := op :: σ.flight } L B C G := by
  refine H.calm (.of_eq rfl rfl rfl rfl rfl rfl) ⟨H.stocked.buffers.post hbuf ?_ hoperation ?_,
    H.covered rfl ?_⟩ ?_ ?_ ?_
  · rw [hx, hkey]
    rfl
  · exact fun haccept => absurd haccept hne
  · rw [places_card, places_card, Multiset.card_cons, List.length_cons]
    change _ + _ + (σ.flight.length + 1) + σ.abandoned.length + _ = _
    omega
  · rw [peers_post hkey, Multiset.cons_add, Multiset.add_cons]
  · rw [peers_post hkey]
    intro q hq
    rcases Multiset.mem_cons.mp hq with rfl | hq
    · exact .inr hjoined
    · exact .inl hq
  · rw [clients_post hkey]

theorem postAccept (H : Kept σ L (x ::ₘ B) C (h ::ₘ G)) (hx : x.role.list = some l)
    (hbuf : op.buf = x.buf) (hkey : op.key = .listen l) (hs : op.s = h)
    (hoperation : x.obj.operation = op.operation) (hclient : x.obj.sclient = some h) :
    Kept { σ with flight := op :: σ.flight } L B C G := by
  refine H.calm (.of_eq rfl rfl rfl rfl rfl rfl) ⟨H.stocked.buffers.post hbuf ?_ hoperation ?_,
    H.covered rfl ?_⟩ ?_ ?_ ?_
  · rw [hx, hkey]
    rfl
  · rw [hs]
    exact fun _ => hclient
  · rw [places_card, places_card, Multiset.card_cons, List.length_cons]
    change _ + _ + (σ.flight.length + 1) + σ.abandoned.length + _ = _
    omega
  · rw [peers_post_accept hkey]
  · rw [peers_post_accept hkey]
    exact fun q hq => .inl hq
  · rw [clients_post_accept hkey, hs, Multiset.cons_add, Multiset.add_cons]

theorem complete (H : Kept σ L B C G) (hop : op ∈ σ.flight) (hkey : op.key = .sock p) :
    Kept { σ with flight := σ.flight.erase op } L (⟨op.buf, σ.buffer op.buf, .blank⟩ ::ₘ B)
      (p ::ₘ C) G := by
  have hperm := List.perm_cons_erase hop
  have hpeers : peers σ (L .gPendingSendList) =
      p ::ₘ peers { σ with flight := σ.flight.erase op } (L .gPendingSendList) := by
    rw [peers_perm hperm]
    exact peers_post (σ := { σ with flight := σ.flight.erase op }) hkey
  refine H.calm (.of_eq rfl rfl rfl rfl rfl rfl)
    ⟨H.stocked.buffers.complete hop (r := .blank) ?_, H.covered rfl ?_⟩ ?_ ?_ ?_
  · rw [hkey]
    rfl
  · rw [places_card, places_card, Multiset.card_cons, hperm.length_eq, List.length_cons]
    change _ + _ + (σ.flight.erase op).length + σ.abandoned.length + _ = _
    omega
  · rw [hpeers, Multiset.cons_add, Multiset.add_cons]
  · rw [hpeers]
    exact fun q hq => .inl (Multiset.mem_cons_of_mem hq)
  · rw [clients_perm hperm]
    exact congrArg (· + _) (clients_post (σ := { σ with flight := σ.flight.erase op }) hkey).symm

theorem completeAccept (H : Kept σ L B C G) (hop : op ∈ σ.flight) (hkey : op.key = .listen l) :
    Kept { σ with flight := σ.flight.erase op } L (⟨op.buf, σ.buffer op.buf, .linked l⟩ ::ₘ B)
      C (op.s ::ₘ G) := by
  have hperm := List.perm_cons_erase hop
  have hpeers : peers σ (L .gPendingSendList) =
      peers { σ with flight := σ.flight.erase op } (L .gPendingSendList) := by
    rw [peers_perm hperm]
    exact peers_post_accept (σ := { σ with flight := σ.flight.erase op }) hkey
  refine H.calm (.of_eq rfl rfl rfl rfl rfl rfl)
    ⟨H.stocked.buffers.complete hop (r := .linked l) ?_, H.covered rfl ?_⟩ ?_ ?_ ?_
  · rw [hkey]
    rfl
  · rw [places_card, places_card, Multiset.card_cons, hperm.length_eq, List.length_cons]
    change _ + _ + (σ.flight.erase op).length + σ.abandoned.length + _ = _
    omega
  · rw [hpeers]
  · rw [hpeers]
    exact fun q hq => .inl hq
  · have hclients := clients_post_accept (σ := { σ with flight := σ.flight.erase op }) hkey
    rw [clients_perm hperm, hclients, Multiset.cons_add, Multiset.add_cons]

/-- The buffer of an accept that was not posted stays in `PendingAccepts`. -/
theorem clients_abandon (hclient : (σ.buffer b).sclient = none) :
    clients { σ with abandoned := (l, b) :: σ.abandoned } = clients σ := by
  rw [clients, List.filterMap_cons_none (f := fun a : Nat × Nat => (σ.buffer a.2).sclient) hclient]
  rfl

theorem clients_abandon_some (hclient : (σ.buffer b).sclient = some h) :
    clients { σ with abandoned := (l, b) :: σ.abandoned } = h ::ₘ clients σ := by
  rw [clients, List.filterMap_cons_some (f := fun a : Nat × Nat => (σ.buffer a.2).sclient) hclient,
    ← Multiset.cons_coe, Multiset.add_cons]
  rfl

theorem abandon (H : Kept σ L (x ::ₘ B) C G') (hx : x.role.list = some l)
    (hclients : clients { σ with abandoned := (l, x.buf) :: σ.abandoned } + G = clients σ + G') :
    Kept { σ with abandoned := (l, x.buf) :: σ.abandoned } L B C G := by
  refine H.calm (.of_eq rfl rfl rfl rfl rfl rfl) ⟨H.stocked.buffers.abandon hx, H.covered rfl ?_⟩
    rfl (fun p hp => .inl hp) hclients
  rw [places_card, places_card, Multiset.card_cons]
  change _ + _ + σ.flight.length + (σ.abandoned.length + 1) + _ = _
  omega

/-! ## Client sockets -/

theorem openClient (H : Kept σ L B C G) (hclosed : σ.isOpen h = false)
    (hbeside : Beside σ σ' h) (hopen : σ'.isOpen h = true) (hport : σ'.port h = none)
    (hstocked : Stocked σ' L B) (hbuffer : σ'.buffer = σ.buffer)
    (hflight : σ'.flight = σ.flight) (habandoned : σ'.abandoned = σ.abandoned) :
    Kept σ' L B C (h ::ₘ G) := by
  have hpeers : peers σ' (L .gPendingSendList) = peers σ (L .gPendingSendList) :=
    peers_same hflight fun b _ => by rw [hbuffer]
  have hclients : clients σ' = clients σ := clients_same hflight habandoned fun a _ => by
    rw [hbuffer]
  have hnot : h ∉ clients σ + G := by
    intro hmem
    have hmine := (H.guarded.unknown h hmem).1
    rw [hclosed] at hmine
    cases hmine
  refine ⟨hstocked, H.tended.beside hbeside (fun p hp he => ?_) hpeers, ?_, fun k hk => ?_,
    fun k hk => ?_⟩
  · obtain ⟨-, k, hs, hk, -⟩ := H.tended.joined p hp
    obtain rfl : k = h := Option.some.inj (hs.symm.trans he)
    rw [hclosed] at hk
    cases hk
  · rw [hclients, Multiset.add_cons, Multiset.nodup_cons]
    exact ⟨hnot, H.guarded.once⟩
  · rw [hclients, Multiset.add_cons] at hk
    rcases Multiset.mem_cons.mp hk with rfl | hk
    · exact ⟨hopen, hport⟩
    · have hne : k ≠ h := fun he => hnot (he ▸ hk)
      rw [hbeside.isOpen k hne, hbeside.port k hne]
      exact H.guarded.unknown k hk
  · rw [hclients, Multiset.add_cons, Multiset.mem_cons]
    by_cases hne : k = h
    · exact .inl (.inl hne)
    · rw [hbeside.isOpen k hne] at hk
      refine (H.guarded.owned k hk).imp .inr ?_
      rintro ⟨p, hlive, hs⟩
      exact ⟨p, hbeside.live.mpr hlive, by rw [hbeside.socket, hs]⟩

theorem closeClient (H : Kept σ L B C (h ::ₘ G)) :
    Kept (σ.closesocket (some h)) L B C G := by
  have hbeside : Beside σ (σ.closesocket (some h)) h :=
    ⟨rfl, fun k hk => Function.update_of_ne hk .., fun k hk => Function.update_of_ne hk .., rfl,
      rfl, rfl⟩
  have hport := (H.guarded.unknown h
    (Multiset.mem_add.mpr (.inr (Multiset.mem_cons_self h G)))).2
  have honce := H.guarded.once
  rw [Multiset.add_cons, Multiset.nodup_cons] at honce
  have hunknown := H.guarded.unknown
  have howned := H.guarded.owned
  simp only [Multiset.add_cons, Multiset.mem_cons] at hunknown howned
  refine ⟨⟨H.stocked.buffers.same rfl rfl rfl rfl rfl rfl rfl rfl, H.covered rfl rfl⟩,
    H.tended.beside hbeside (fun p hp => (H.tended.joined p hp).not_client hport) rfl, honce.2,
    fun k hk => ?_, fun k hk => ?_⟩
  · have hne : k ≠ h := fun he => honce.1 (he ▸ hk)
    rw [hbeside.isOpen k hne, hbeside.port k hne]
    exact hunknown k (.inr hk)
  · have hne : k ≠ h := by
      rintro rfl
      have hclosed : (σ.closesocket (some k)).isOpen k = false := Function.update_self ..
      rw [hclosed] at hk
      cases hk
    rw [hbeside.isOpen k hne] at hk
    exact (howned k hk).imp_left fun hmem => hmem.resolve_left hne

/-! ## Connections -/

/-- A connection that was handed out for the client socket `h`. -/
structure Fresh (σ : Server) (G : Multiset Nat) (p : SockPtr) (h : Nat) : Prop where
  s : (σ.socket p.obj).s = some h
  notClosing : (σ.socket p.obj).bClosing = false
  isOpen : σ.isOpen h = true
  port : σ.port h = none
  not_client : h ∉ clients σ + G

theorem connect {f : SocketObj} {n : Nat} (H : Kept σ L B C (h ::ₘ G))
    (htended : Tended σ' (L .gPendingSendList) (⟨k, n⟩ ::ₘ C)) (hk : (σ.socket k).conn = none)
    (hsocket : σ'.socket = Function.update σ.socket k f) (hconn : f.conn = some n)
    (hs : f.s = some h) (hclosing : f.bClosing = false) (hstocked : Stocked σ' L B)
    (hisOpen : σ'.isOpen = σ.isOpen) (hport : σ'.port = σ.port)
    (hclients : clients σ' = clients σ) :
    Kept σ' L B (⟨k, n⟩ ::ₘ C) G ∧ Fresh σ' G ⟨k, n⟩ h := by
  have hself : σ'.socket k = f := by rw [hsocket, Function.update_self]
  have honce := H.guarded.once
  rw [Multiset.add_cons, Multiset.nodup_cons] at honce
  have hunknown := H.guarded.unknown
  have howned := H.guarded.owned
  simp only [Multiset.add_cons, Multiset.mem_cons] at hunknown howned
  have hfresh : Fresh σ' G ⟨k, n⟩ h := by
    refine ⟨by rw [hself, hs], by rw [hself, hclosing], ?_, ?_, ?_⟩
    · rw [hisOpen]
      exact (hunknown h (.inl rfl)).1
    · rw [hport]
      exact (hunknown h (.inl rfl)).2
    · rw [hclients]
      exact honce.1
  refine ⟨⟨hstocked, htended, hclients ▸ honce.2, fun j hj => ?_, fun j hj => ?_⟩, hfresh⟩
  · rw [hisOpen, hport]
    exact hunknown j (.inr (hclients ▸ hj))
  · rw [hisOpen] at hj
    rcases howned j hj with (rfl | hmem) | ⟨p, hlive, hp⟩
    · refine .inr ⟨⟨k, n⟩, ?_, hfresh.s⟩
      rw [Server.live, hself, hconn]
    · exact .inl (hclients ▸ hmem)
    · have hne : p.obj ≠ k := by
        rintro rfl
        rw [Server.live, hk] at hlive
        cases hlive
      refine .inr ⟨p, ?_, ?_⟩
      · rw [Server.live, hsocket, Function.update_of_ne hne]
        exact hlive
      · rw [hsocket, Function.update_of_ne hne]
        exact hp

theorem getSocketObj (H : Kept σ L B C (h ::ₘ G))
    (hget : σ.GetSocketObj (some h) .ok = some (σ', some p)) :
    Kept σ' L B (p ::ₘ C) G ∧ Fresh σ' G p h ∧ σ'.buffer = σ.buffer := by
  obtain ⟨l, hchain, hnodup, hl⟩ := H.tended.free
  cases hfree : σ.gFreeSocketList with
  | some k =>
      simp only [Server.GetSocketObj, hfree] at hget
      cases hget
      rw [hfree] at hchain
      obtain ⟨l', rfl, hchain'⟩ := hchain.pop
      obtain ⟨hnot, hnodup'⟩ := List.nodup_cons.mp hnodup
      obtain ⟨hlt, hconn⟩ := (hl k).mp List.mem_cons_self
      have hclear := H.tended.clear k hconn
      refine and_assoc.mp ⟨H.connect ?_ hconn rfl rfl rfl hclear ⟨H.stocked.buffers.same rfl rfl rfl
        rfl rfl rfl rfl rfl, H.covered rfl rfl⟩ rfl rfl rfl, rfl⟩
      refine H.tended.connect hconn rfl rfl hclear rfl rfl rfl (Nat.le_refl _) hlt
        ⟨l', hchain'.write hnot none, hnodup', fun j => ?_⟩
      have hj := hl j
      rw [List.mem_cons] at hj
      constructor
      · intro hmem
        exact ⟨fun he => hnot (he ▸ hmem), hj.mp (.inr hmem)⟩
      · rintro ⟨hne, hmem⟩
        exact (hj.mpr hmem).resolve_left hne
  | none =>
      simp only [Server.GetSocketObj, hfree] at hget
      cases hget
      rw [hfree] at hchain
      obtain rfl : l = [] := by
        cases l with
        | nil => rfl
        | cons j l => exact absurd hchain.1 (by exact nofun)
      have hconn := H.tended.fresh σ.sockets (Nat.le_refl _)
      refine and_assoc.mp ⟨H.connect ?_ hconn rfl rfl rfl rfl ⟨H.stocked.buffers.same rfl rfl rfl
        rfl rfl rfl rfl rfl, H.covered rfl rfl⟩ rfl rfl rfl, rfl⟩
      refine H.tended.connect hconn rfl rfl rfl rfl rfl rfl (Nat.le_succ _) (Nat.lt_succ_self _)
        ⟨[], rfl, List.nodup_nil, fun j => ⟨nofun, ?_⟩⟩
      rintro ⟨hne, hlt, hj⟩
      refine (hl j).mpr ⟨?_, hj⟩
      have hlt' : j < σ.sockets + 1 := hlt
      omega

theorem associate (H : Kept σ L B (p ::ₘ C) G) (hfresh : Fresh σ G p h) :
    Kept { σ with port := Function.update σ.port h (some p) } L B (p ::ₘ C) G ∧
      Joined { σ with port := Function.update σ.port h (some p) } p := by
  have hbeside : Beside σ { σ with port := Function.update σ.port h (some p) } h :=
    ⟨rfl, fun _ _ => rfl, fun k hk => Function.update_of_ne hk .., rfl, rfl, rfl⟩
  refine ⟨⟨⟨H.stocked.buffers.same rfl rfl rfl rfl rfl rfl rfl rfl, H.covered rfl rfl⟩,
    H.tended.beside hbeside (fun q hq => (H.tended.joined q hq).not_client hfresh.port) rfl,
    H.guarded.once, fun k hk => ⟨(H.guarded.unknown k hk).1, ?_⟩, H.guarded.owned⟩,
    hfresh.notClosing, h, hfresh.s, hfresh.isOpen, Function.update_self ..⟩
  rw [hbeside.port k fun he => hfresh.not_client (he ▸ hk)]
  exact (H.guarded.unknown k hk).2

/-- The socket of a connection was closed. -/
def Closed (σ : Server) (p : SockPtr) : Prop :=
  ∀ h, (σ.socket p.obj).s = some h → σ.isOpen h = false

theorem object {f : SocketObj} (H : Kept σ L B (p ::ₘ C) G)
    (hconn : f.conn = (σ.socket p.obj).conn)
    (hs : ∀ h, (σ.socket p.obj).s = some h → σ.isOpen h = true → f.s = some h) :
    Kept (σ.setSocket p.obj f) L B (p ::ₘ C) G :=
  ⟨⟨H.stocked.buffers.same rfl rfl rfl rfl rfl rfl rfl rfl, H.covered rfl rfl⟩, H.tended.object hconn,
    H.guarded.object hconn hs⟩

theorem closesocket {f : SocketObj} (H : Kept σ L B (p ::ₘ C) G) (hp : Attached σ p)
    (hconn : f.conn = (σ.socket p.obj).conn) (hs : f.s = (σ.socket p.obj).s) :
    Kept ((σ.closesocket (σ.socket p.obj).s).setSocket p.obj f) L B (p ::ₘ C) G ∧
      Closed ((σ.closesocket (σ.socket p.obj).s).setSocket p.obj f) p := by
  obtain ⟨h, hself, hopen, hport⟩ := hp
  rw [hself]
  have hbeside : Beside σ (σ.closesocket (some h)) h :=
    ⟨rfl, fun k hk => Function.update_of_ne hk .., fun k hk => Function.update_of_ne hk .., rfl,
      rfl, rfl⟩
  have hclosed : (σ.closesocket (some h)).isOpen h = false := Function.update_self ..
  obtain ⟨-, hnot⟩ := H.tended.first
  have hmid : Kept (σ.closesocket (some h)) L B (p ::ₘ C) G := by
    refine ⟨⟨H.stocked.buffers.same rfl rfl rfl rfl rfl rfl rfl rfl, H.covered rfl rfl⟩,
      H.tended.beside hbeside (fun q hq he => ?_) rfl, H.guarded.once, fun k hk => ?_,
      fun k hk => ?_⟩
    · obtain ⟨-, k, hqs, -, hqport⟩ := H.tended.joined q hq
      obtain rfl : k = h := Option.some.inj (hqs.symm.trans he)
      obtain rfl : p = q := Option.some.inj (hport.symm.trans hqport)
      exact hnot (Multiset.mem_add.mpr (.inl hq))
    · obtain ⟨hk', hnone⟩ := H.guarded.unknown k hk
      have hne : k ≠ h := by
        rintro rfl
        rw [hport] at hnone
        cases hnone
      rw [hbeside.isOpen k hne, hbeside.port k hne]
      exact ⟨hk', hnone⟩
    · have hne : k ≠ h := by
        rintro rfl
        rw [hclosed] at hk
        cases hk
      rw [hbeside.isOpen k hne] at hk
      exact H.guarded.owned k hk
  refine ⟨hmid.object hconn fun k hk _ => ?_, fun k hk => ?_⟩
  · rw [hs]
    exact hk
  · rw [Server.setSocket_self, hs, hself] at hk
    cases hk
    exact hclosed

theorem freeSocketObj (H : Kept σ L B (p ::ₘ C) G) (hp : (σ.socket p.obj).s = none) :
    Kept (σ.FreeSocketObj p) L B C G := by
  obtain ⟨hlive, -⟩ := H.tended.first
  refine ⟨⟨H.stocked.buffers.same rfl rfl rfl rfl rfl rfl rfl rfl, H.covered rfl rfl⟩,
    H.tended.release, H.guarded.once, H.guarded.unknown, fun h hh =>
      (H.guarded.owned h hh).imp_right ?_⟩
  rintro ⟨q, hq, hs⟩
  have hobj : q.obj ≠ p.obj := by
    intro hobj
    rw [hobj, hp] at hs
    cases hs
  have hother : (σ.FreeSocketObj p).socket q.obj = σ.socket q.obj := Server.setSocket_of_ne hobj
  refine ⟨q, ?_, by rw [hother, hs]⟩
  rw [Server.live, hother]
  exact hq

end Kept

end CppWorkspace.ThrottledServer
