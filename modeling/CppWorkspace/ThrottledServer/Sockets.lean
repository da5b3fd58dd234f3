/-
# `CppWorkspace.ThrottledServer.Sockets` — connections and their socket objects

A connection has one buffer at a time: it is in flight, queued, or held by a thread.
That is its SEAT, with what has come in on the connection and was not posted.  A client
socket that has no socket object yet is a GUEST.

    Seating   seats and guests have different sockets, and on each of them
              `received = posted ++ cs`
    Using     which threads use a socket object, who is inside `SockCritSec`, and that
              each counter is the number of operations in flight, but for the
              increments and decrements that threads still owe
    Objects   the free list, and the calls of `FreeSocketObj`
    Whole     what is not posted yet is in a seat, or with a guest

A thread that closes or frees a socket object has to be its only user; this is what
`FreeSocketObj` does not look at.
-/
import Mathlib.Algebra.BigOperators.Group.Multiset.Basic
import Mathlib.Algebra.Group.Pi.Basic
import CppWorkspace.ThrottledServer.Buffers
import Mathlib.Algebra.Ring.Int.Defs
import Mathlib.Algebra.Ring.Nat

namespace CppWorkspace.ThrottledServer

open Programs Runs LinkedList

/-! ## Seats and guests -/

/-- The connection that a buffer belongs to, and what has come in on it. -/
structure Seat where
  sock : SockPtr
  known : Bool
  cs : List Chunk

abbrev Guest := Nat × List Chunk

def Op.toSeat (op : Op) : Option Seat :=
  match op.key with
  | .sock p => some ⟨p, true, []⟩
  | .listen _ => none

def Op.toGuest (op : Op) : Option Guest :=
  match op.key with
  | .listen _ => some (op.s, [])
  | .sock _ => none

def Role.toSeat : Role → Option Seat
  | .seat p known cs => some ⟨p, known, cs⟩
  | _ => none

def Role.toGuest : Role → Option Guest
  | .accept _ h cs => some (h, cs)
  | .guest h cs => some (h, cs)
  | _ => none

/-- The seat of a queued buffer. -/
def BufferObj.toSeat (x : BufferObj) : Option Seat := x.sock.map fun p => ⟨p, true, [x.chunk]⟩

def seats (σ : Server) (queue : List Nat) (B : Multiset Hold) : Multiset Seat :=
  (σ.flight.filterMap Op.toSeat : Multiset Seat) +
    (queue.filterMap fun b => (σ.buffer b).toSeat : Multiset Seat) +
    B.filterMap fun x => x.role.toSeat

def guests (σ : Server) (B : Multiset Hold) : Multiset Guest :=
  (σ.flight.filterMap Op.toGuest : Multiset Guest) + B.filterMap fun x => x.role.toGuest

/-- The connection of `p` was not freed. -/
def Server.live (σ : Server) (p : SockPtr) : Prop := (σ.socket p.obj).conn = some p.conn

instance (σ : Server) (p : SockPtr) : Decidable (σ.live p) :=
  inferInstanceAs (Decidable (_ = _))

/-- The socket of the connection of `p` is `h`, and was not closed. -/
def Owner (σ : Server) (p : SockPtr) (h : Nat) : Prop :=
  σ.live p ∧ (σ.socket p.obj).s = some h ∧ (σ.socket p.obj).shut = false

/-- The socket of the seat is `h`, and open. -/
structure Seated (σ : Server) (q : Seat) (h : Nat) : Prop where
  owner : Owner σ q.sock h
  notClosing : (σ.socket q.sock.obj).bClosing = false
  port : q.known = true → σ.port h = some q.sock
  stream : σ.received h = σ.posted h ++ q.cs

/-- Seats and guests have sockets of their own. -/
structure Seating (σ : Server) (S : Multiset Seat) (G : Multiset Guest) : Prop where
  once : (S.map Seat.sock).Nodup
  seated : ∀ q ∈ S, ∃ h, Seated σ q h
  owner : ∀ p h, Owner σ p h → σ.isOpen h = true ∧ ∀ g ∈ G, g.1 ≠ h
  apart : ∀ p p' h, Owner σ p h → Owner σ p' h → p = p'
  clients : (G.map Prod.fst).Nodup
  client : ∀ g ∈ G, σ.isOpen g.1 = true ∧ σ.received g.1 = g.2 ∧ σ.posted g.1 = []
  inOrder : ∀ h, σ.posted h <+: σ.received h
  source : ∀ h, ∀ c ∈ σ.received h, c.source = some h

/-- The socket objects have the same owners. -/
def SameOwners (σ σ' : Server) : Prop :=
  ∀ k, (σ'.socket k).conn = (σ.socket k).conn ∧ (σ'.socket k).s = (σ.socket k).s ∧
    (σ'.socket k).shut = (σ.socket k).shut

variable {σ σ' : Server} {S S' : Multiset Seat} {G G' : Multiset Guest} {q : Seat}
  {h : Nat} {cs : List Chunk} {p : SockPtr}

theorem SameOwners.setSocket {k : Nat} {x : SocketObj} (hconn : x.conn = (σ.socket k).conn)
    (hs : x.s = (σ.socket k).s) (hshut : x.shut = (σ.socket k).shut) :
    SameOwners σ (σ.setSocket k x) := by
  intro j
  by_cases hj : j = k
  · subst hj
    rw [Server.setSocket_self]
    exact ⟨hconn, hs, hshut⟩
  · rw [Server.setSocket_of_ne hj]
    exact ⟨rfl, rfl, rfl⟩

theorem SameOwners.of_eq (h : σ'.socket = σ.socket) : SameOwners σ σ' := by
  intro k
  rw [h]
  exact ⟨rfl, rfl, rfl⟩

theorem SameOwners.live (H : SameOwners σ σ') : σ'.live p ↔ σ.live p := by
  rw [Server.live, (H p.obj).1, Server.live]

theorem SameOwners.owner (H : SameOwners σ σ') : Owner σ' p h ↔ Owner σ p h := by
  obtain ⟨-, hs, hshut⟩ := H p.obj
  constructor
  · rintro ⟨hlive, hhandle, hnotShut⟩
    exact ⟨H.live.mp hlive, hs.symm.trans hhandle, hshut.symm.trans hnotShut⟩
  · rintro ⟨hlive, hhandle, hnotShut⟩
    exact ⟨H.live.mpr hlive, hs.trans hhandle, hshut.trans hnotShut⟩

namespace Seating

theorem same (H : Seating σ S G) (howners : SameOwners σ σ')
    (hclosing : ∀ q ∈ S, (σ'.socket q.sock.obj).bClosing = (σ.socket q.sock.obj).bClosing)
    (hisOpen : σ'.isOpen = σ.isOpen)
    (hport : σ'.port = σ.port) (hreceived : σ'.received = σ.received)
    (hposted : σ'.posted = σ.posted) : Seating σ' S G where
  once := H.once
  seated q hq := by
    obtain ⟨h, hh⟩ := H.seated q hq
    refine ⟨h, howners.owner.mpr hh.owner, (hclosing q hq).trans hh.notClosing, ?_, ?_⟩
    · rw [hport]
      exact hh.port
    · rw [hreceived, hposted]
      exact hh.stream
  owner p h hh := by
    rw [hisOpen]
    exact H.owner p h (howners.owner.mp hh)
  apart p p' h hh hh' := H.apart p p' h (howners.owner.mp hh) (howners.owner.mp hh')
  clients := H.clients
  client := by
    rw [hisOpen, hreceived, hposted]
    exact H.client
  inOrder := by
    rw [hreceived, hposted]
    exact H.inOrder
  source := hreceived ▸ H.source

theorem shrink (H : Seating σ S G) (hS : S' ≤ S) (hG : G' ≤ G) : Seating σ S' G' where
  once := Multiset.nodup_of_le (Multiset.map_le_map hS) H.once
  seated q hq := H.seated q (Multiset.mem_of_le hS hq)
  owner p h hh := (H.owner p h hh).imp_right fun hG' g hg => hG' g (Multiset.mem_of_le hG hg)
  apart := H.apart
  clients := Multiset.nodup_of_le (Multiset.map_le_map hG) H.clients
  client g hg := H.client g (Multiset.mem_of_le hG hg)
  inOrder := H.inOrder
  source := H.source

theorem dropSeat (H : Seating σ (q ::ₘ S) G) : Seating σ S G :=
  H.shrink (Multiset.le_cons_self _ _) le_rfl

theorem dropGuest {g : Guest} (H : Seating σ S (g ::ₘ G)) : Seating σ S G :=
  H.shrink le_rfl (Multiset.le_cons_self _ _)

theorem notMem (H : Seating σ (q ::ₘ S) G) : ∀ q' ∈ S, q'.sock ≠ q.sock := by
  have honce := H.once
  rw [Multiset.map_cons, Multiset.nodup_cons] at honce
  intro q' hq' heq
  exact honce.1 (heq ▸ Multiset.mem_map_of_mem Seat.sock hq')

theorem sit (H : Seating σ S G) (hq : Seated σ q h) (hnot : ∀ q' ∈ S, q'.sock ≠ q.sock) :
    Seating σ (q ::ₘ S) G where
  once := by
    rw [Multiset.map_cons, Multiset.nodup_cons]
    refine ⟨fun hmem => ?_, H.once⟩
    obtain ⟨q', hq', heq⟩ := Multiset.mem_map.mp hmem
    exact hnot q' hq' heq
  seated q' hq' := by
    rcases Multiset.mem_cons.mp hq' with rfl | hq'
    · exact ⟨h, hq⟩
    · exact H.seated q' hq'
  owner := H.owner
  apart := H.apart
  clients := H.clients
  client := H.client
  inOrder := H.inOrder
  source := H.source

theorem take (H : Seating σ S G) (hopen : σ.isOpen h = true) (hreceived : σ.received h = cs)
    (hposted : σ.posted h = []) (hnot : ∀ g ∈ G, g.1 ≠ h) (howner : ∀ p, ¬ Owner σ p h) :
    Seating σ S ((h, cs) ::ₘ G) where
  once := H.once
  seated := H.seated
  owner p k hk := by
    obtain ⟨hisOpen, hne⟩ := H.owner p k hk
    refine ⟨hisOpen, fun g hg => ?_⟩
    rcases Multiset.mem_cons.mp hg with rfl | hg
    · rintro rfl
      exact howner p hk
    · exact hne g hg
  apart := H.apart
  clients := by
    rw [Multiset.map_cons, Multiset.nodup_cons]
    refine ⟨fun hmem => ?_, H.clients⟩
    obtain ⟨g, hg, heq⟩ := Multiset.mem_map.mp hmem
    exact hnot g hg heq
  client g hg := by
    rcases Multiset.mem_cons.mp hg with rfl | hg
    · exact ⟨hopen, hreceived, hposted⟩
    · exact H.client g hg
  inOrder := H.inOrder
  source := H.source

theorem guest_notMem {g : Guest} (H : Seating σ S (g ::ₘ G)) : ∀ g' ∈ G, g'.1 ≠ g.1 := by
  have hclients := H.clients
  rw [Multiset.map_cons, Multiset.nodup_cons] at hclients
  intro g' hg' heq
  exact hclients.1 (heq ▸ Multiset.mem_map_of_mem Prod.fst hg')

/-- The histories of one socket change, which is that of no seat and no guest. -/
theorem history {R P : List Chunk} (H : Seating σ S G) (hS : ∀ q ∈ S, ¬ Owner σ q.sock h)
    (hG : ∀ g ∈ G, g.1 ≠ h) (hinOrder : P <+: R) (hsource : ∀ c ∈ R, c.source = some h)
    (hsocket : σ'.socket = σ.socket) (hisOpen : σ'.isOpen = σ.isOpen) (hport : σ'.port = σ.port)
    (hreceived : σ'.received = Function.update σ.received h R)
    (hposted : σ'.posted = Function.update σ.posted h P) : Seating σ' S G := by
  have howners := SameOwners.of_eq hsocket
  refine ⟨H.once, fun q hq => ?_, fun p k hk => ?_, fun p p' k hk hk' => ?_, H.clients,
    fun g hg => ?_, fun k => ?_, fun k => ?_⟩
  · obtain ⟨k, hk⟩ := H.seated q hq
    have hne : k ≠ h := fun he => hS q hq (he ▸ hk.owner)
    refine ⟨k, howners.owner.mpr hk.owner,
      (congrArg (fun f => (f q.sock.obj).bClosing) hsocket).trans hk.notClosing, ?_, ?_⟩
    · rw [hport]
      exact hk.port
    · rw [hreceived, hposted, Function.update_of_ne hne, Function.update_of_ne hne]
      exact hk.stream
  · rw [hisOpen]
    exact H.owner p k (howners.owner.mp hk)
  · exact H.apart p p' k (howners.owner.mp hk) (howners.owner.mp hk')
  · rw [hisOpen, hreceived, hposted, Function.update_of_ne (hG g hg),
      Function.update_of_ne (hG g hg)]
    exact H.client g hg
  · rw [hreceived, hposted]
    by_cases hk : k = h
    · subst hk
      simpa using hinOrder
    · rw [Function.update_of_ne hk, Function.update_of_ne hk]
      exact H.inOrder k
  · rw [hreceived]
    by_cases hk : k = h
    · subst hk
      simpa using hsource
    · rw [Function.update_of_ne hk]
      exact H.source k

theorem stream {R P : List Chunk} (H : Seating σ (q ::ₘ S) G) (hq : Seated σ q h)
    (hR : R = P ++ cs) (hsource : ∀ c ∈ R, c.source = some h)
    (hsocket : σ'.socket = σ.socket) (hisOpen : σ'.isOpen = σ.isOpen) (hport : σ'.port = σ.port)
    (hreceived : σ'.received = Function.update σ.received h R)
    (hposted : σ'.posted = Function.update σ.posted h P) :
    Seating σ' (⟨q.sock, q.known, cs⟩ ::ₘ S) G := by
  have howners := SameOwners.of_eq hsocket
  have hrest : Seating σ' S G := by
    refine H.dropSeat.history (fun q' hq' hown => ?_) (H.owner _ _ hq.owner).2
      (hR ▸ List.prefix_append P cs) hsource hsocket hisOpen hport hreceived hposted
    exact H.notMem q' hq' (H.apart _ _ _ hown hq.owner)
  refine hrest.sit (h := h) ⟨howners.owner.mpr hq.owner, ?_, ?_, ?_⟩ H.notMem
  · exact (congrArg (fun f => (f q.sock.obj).bClosing) hsocket).trans hq.notClosing
  · rw [hport]
    exact hq.port
  · rw [hreceived, hposted, Function.update_self, Function.update_self]
    exact hR

theorem arrive (H : Seating σ S ((h, []) ::ₘ G)) (hsource : ∀ c ∈ cs, c.source = some h)
    (hsocket : σ'.socket = σ.socket) (hisOpen : σ'.isOpen = σ.isOpen) (hport : σ'.port = σ.port)
    (hreceived : σ'.received = Function.update σ.received h cs)
    (hposted : σ'.posted = σ.posted) : Seating σ' S ((h, cs) ::ₘ G) := by
  have howners := SameOwners.of_eq hsocket
  obtain ⟨hopen, -, hnil⟩ := H.client _ (Multiset.mem_cons_self _ _)
  have howner : ∀ p, ¬ Owner σ p h := fun p hp =>
    (H.owner p h hp).2 _ (Multiset.mem_cons_self _ _) rfl
  have hrest : Seating σ' S G := by
    refine H.dropGuest.history (P := []) (fun q _ => howner q.sock) H.guest_notMem
      List.nil_prefix hsource hsocket hisOpen hport hreceived ?_
    rw [hposted, ← hnil, Function.update_eq_self]
  refine hrest.take (hisOpen ▸ hopen) ?_ (hposted ▸ hnil) H.guest_notMem ?_
  · rw [hreceived, Function.update_self]
  · exact fun p hp => howner p (howners.owner.mp hp)

theorem unowned (H : Seating σ S G) (howner : ∀ p, ¬ Owner σ p h) (hG : ∀ g ∈ G, g.1 ≠ h)
    (hsocket : σ'.socket = σ.socket) (hisOpen : ∀ k, k ≠ h → σ'.isOpen k = σ.isOpen k)
    (hport : ∀ k, k ≠ h → σ'.port k = σ.port k)
    (hreceived : σ'.received = σ.received) (hposted : σ'.posted = σ.posted) :
    Seating σ' S G := by
  have howners := SameOwners.of_eq hsocket
  have hne : ∀ {p k}, Owner σ p k → k ≠ h := fun hk he => howner _ (he ▸ hk)
  refine ⟨H.once, fun q hq => ?_, fun p k hk => ?_, fun p p' k hk hk' => ?_, H.clients,
    fun g hg => ?_, ?_, ?_⟩
  · obtain ⟨k, hk⟩ := H.seated q hq
    refine ⟨k, howners.owner.mpr hk.owner,
      (congrArg (fun f => (f q.sock.obj).bClosing) hsocket).trans hk.notClosing, ?_, ?_⟩
    · rw [hport k (hne hk.owner)]
      exact hk.port
    · rw [hreceived, hposted]
      exact hk.stream
  · have hown := howners.owner.mp hk
    rw [hisOpen k (hne hown)]
    exact H.owner p k hown
  · exact H.apart p p' k (howners.owner.mp hk) (howners.owner.mp hk')
  · rw [hisOpen g.1 (hG g hg), hreceived, hposted]
    exact H.client g hg
  · rw [hreceived, hposted]
    exact H.inOrder
  · rw [hreceived]
    exact H.source

theorem know (H : Seating σ (q ::ₘ S) G) (hq : Seated σ q h) :
    Seating { σ with port := Function.update σ.port h (some q.sock) }
      (⟨q.sock, true, q.cs⟩ ::ₘ S) G where
  once := by
    have honce := H.once
    rwa [Multiset.map_cons] at honce ⊢
  seated q' hq' := by
    rcases Multiset.mem_cons.mp hq' with rfl | hq'
    · exact ⟨h, hq.owner, hq.notClosing, fun _ => Function.update_self .., hq.stream⟩
    · obtain ⟨k, hk⟩ := H.seated q' (Multiset.mem_cons_of_mem hq')
      have hne : k ≠ h := by
        rintro rfl
        exact H.notMem q' hq' (H.apart _ _ _ hk.owner hq.owner)
      exact ⟨k, hk.owner, hk.notClosing,
        fun hknown => (Function.update_of_ne hne ..).trans (hk.port hknown), hk.stream⟩
  owner := H.owner
  apart := H.apart
  clients := H.clients
  client := H.client
  inOrder := H.inOrder
  source := H.source

/-- A socket object without a seat changes, and owns nothing new. -/
theorem object {k : Nat} {x : SocketObj} (H : Seating σ S G) (hS : ∀ q ∈ S, q.sock.obj ≠ k)
    (howner : ∀ p h, Owner (σ.setSocket k x) p h → Owner σ p h) :
    Seating (σ.setSocket k x) S G where
  once := H.once
  seated q hq := by
    obtain ⟨h, hh⟩ := H.seated q hq
    have hsame : (σ.setSocket k x).socket q.sock.obj = σ.socket q.sock.obj :=
      Server.setSocket_of_ne (hS q hq)
    refine ⟨h, ⟨?_, ?_, ?_⟩, ?_, hh.port, hh.stream⟩
    · exact (congrArg _ hsame).trans hh.owner.1
    · exact (congrArg _ hsame).trans hh.owner.2.1
    · exact (congrArg _ hsame).trans hh.owner.2.2
    · exact (congrArg _ hsame).trans hh.notClosing
  owner p h hh := H.owner p h (howner p h hh)
  apart p p' h hh hh' := H.apart p p' h (howner p h hh) (howner p' h hh')
  clients := H.clients
  client := H.client
  inOrder := H.inOrder
  source := H.source

theorem seat {k n : Nat} {x : SocketObj} (H : Seating σ S ((h, cs) ::ₘ G))
    (hk : (σ.socket k).conn = none) (hconn : x.conn = some n) (hs : x.s = some h)
    (hshut : x.shut = false) (hclosing : x.bClosing = false) :
    Seating (σ.setSocket k x) (⟨⟨k, n⟩, false, cs⟩ ::ₘ S) G := by
  have hdead : ∀ p, σ.live p → p.obj ≠ k := by
    rintro p hp rfl
    rw [Server.live, hk] at hp
    cases hp
  have hold : ∀ p j, Owner (σ.setSocket k x) p j → p = ⟨k, n⟩ ∧ j = h ∨ Owner σ p j := by
    rintro ⟨i, m⟩ j ⟨hlive, hhandle, hnotShut⟩
    by_cases hi : i = k
    · subst hi
      rw [Server.live, Server.setSocket_self, hconn] at hlive
      rw [Server.setSocket_self, hs] at hhandle
      cases hlive
      cases hhandle
      exact .inl ⟨rfl, rfl⟩
    · rw [Server.live, Server.setSocket_of_ne hi] at hlive
      rw [Server.setSocket_of_ne hi] at hhandle hnotShut
      exact .inr ⟨hlive, hhandle, hnotShut⟩
  obtain ⟨hopen, hreceived, hposted⟩ := H.client _ (Multiset.mem_cons_self _ _)
  have hguest : ∀ p, ¬ Owner σ p h := fun p hp =>
    (H.owner p h hp).2 _ (Multiset.mem_cons_self _ _) rfl
  have hrest : Seating (σ.setSocket k x) S G := by
    refine ⟨H.once, fun q hq => ?_, fun p j hj => ?_, fun p p' j hj hj' => ?_,
      H.dropGuest.clients, H.dropGuest.client, H.inOrder, H.source⟩
    · obtain ⟨j, hj⟩ := H.seated q hq
      have hsame : (σ.setSocket k x).socket q.sock.obj = σ.socket q.sock.obj :=
        Server.setSocket_of_ne (hdead _ hj.owner.1)
      refine ⟨j, ⟨?_, ?_, ?_⟩, ?_, hj.port, hj.stream⟩
      · exact (congrArg _ hsame).trans hj.owner.1
      · exact (congrArg _ hsame).trans hj.owner.2.1
      · exact (congrArg _ hsame).trans hj.owner.2.2
      · exact (congrArg _ hsame).trans hj.notClosing
    · rcases hold p j hj with ⟨-, rfl⟩ | hj
      · exact ⟨hopen, H.guest_notMem⟩
      · exact H.dropGuest.owner p j hj
    · rcases hold p j hj with ⟨rfl, rfl⟩ | hj
      · rcases hold p' j hj' with ⟨rfl, -⟩ | hj'
        · rfl
        · exact absurd hj' (hguest p')
      · rcases hold p' j hj' with ⟨-, rfl⟩ | hj'
        · exact absurd hj (hguest p)
        · exact H.apart p p' j hj hj'
  refine hrest.sit (h := h) ⟨⟨?_, ?_, ?_⟩, ?_, nofun, ?_⟩ fun q hq heq => ?_
  · exact (congrArg _ Server.setSocket_self).trans hconn
  · exact (congrArg _ Server.setSocket_self).trans hs
  · exact (congrArg _ Server.setSocket_self).trans hshut
  · exact (congrArg _ Server.setSocket_self).trans hclosing
  · change σ.received h = σ.posted h ++ cs
    rw [hposted]
    exact hreceived
  · obtain ⟨j, hj⟩ := H.seated q hq
    exact hdead _ hj.owner.1 (congrArg SockPtr.obj heq)

end Seating

/-! ## Users -/

/-- How far a thread has come in giving up a socket object. -/
inductive Phase
  /-- Somebody else may have the seat. -/
  | tail
  /-- There is no seat any more. -/
  | dead
  /-- The thread has closed the socket. -/
  | closed
  /-- And has set `INVALID_SOCKET`. -/
  | invalid
  deriving DecidableEq

/-- A thread that goes on to use a socket object: because its completion has it as the
key (`inside`), or in `PostSend`.  `debt` is what the thread has still to add to the
counters. -/
structure Use where
  sock : SockPtr
  inside : Bool
  locked : Bool
  debt : Operation → Int
  phase : Phase

/-- The counter of an operation. -/
def SocketObj.outstanding (x : SocketObj) : Operation → Int
  | .OP_READ => x.OutstandingRecv
  | .OP_WRITE => x.OutstandingSend
  | .OP_ACCEPT => 0

def owed (o : Operation) (k : Nat) (U : Multiset Use) : Int :=
  ((U.filter fun u => u.sock.obj = k).map fun u => u.debt o).sum

def Key.obj : Key → Option Nat
  | .sock p => some p.obj
  | .listen _ => none

/-- The operations in flight on a socket object. -/
def busy (o : Operation) (k : Nat) (flight : List Op) : Nat :=
  flight.countP fun op => op.operation = o ∧ op.key.obj = some k

def Phase.Holds (σ : Server) (S : Multiset Seat) (p : SockPtr) : Phase → Prop
  | .tail => (σ.socket p.obj).shut = false
  | .dead => (σ.socket p.obj).shut = false ∧ ∀ q ∈ S, q.sock ≠ p
  | .closed => ∀ q ∈ S, q.sock ≠ p
  | .invalid => (σ.socket p.obj).s = none ∧ ∀ q ∈ S, q.sock ≠ p

/-- The use is of a live object, and its phase is right. -/
structure Use.Fits (σ : Server) (S : Multiset Seat) (u : Use) : Prop where
  live : σ.live u.sock
  phase : u.phase.Holds σ S u.sock
  lock : u.locked = true → (σ.socket u.sock.obj).SockCritSec ≠ none
  outside : u.inside = false → u.locked = true

/-- The objects whose `SockCritSec` is held. -/
def lockedObjs (U : Multiset Use) : Multiset Nat :=
  (U.filter fun u => u.locked = true).map fun u => u.sock.obj

/-- The uses of all threads agree with the counts and the locks. -/
structure Using (σ : Server) (S : Multiset Seat) (U : Multiset Use) : Prop where
  each : ∀ u ∈ U, u.Fits σ S
  locks : (lockedObjs U).Nodup
  count : ∀ o, o ≠ .OP_ACCEPT → ∀ k,
    (σ.socket k).outstanding o + owed o k U = busy o k σ.flight

variable {U U' : Multiset Use} {u u' : Use} {o : Operation} {k t : Nat} {ph : Phase}
  {op : Op} {flight : List Op}

theorem owed_cons : owed o k (u ::ₘ U) = (if u.sock.obj = k then u.debt o else 0) + owed o k U := by
  split
  · rename_i h
    rw [owed, Multiset.filter_cons_of_pos U (p := fun u => u.sock.obj = k) h, Multiset.map_cons,
      Multiset.sum_cons, owed]
  · rename_i h
    rw [owed, Multiset.filter_cons_of_neg U (p := fun u => u.sock.obj = k) h, owed, zero_add]

theorem lockedObjs_cons (h : u.locked = true) :
    lockedObjs (u ::ₘ U) = u.sock.obj ::ₘ lockedObjs U := by
  rw [lockedObjs, Multiset.filter_cons_of_pos U (p := fun u => u.locked = true) h,
    Multiset.map_cons, lockedObjs]

theorem lockedObjs_cons_free (h : u.locked = false) : lockedObjs (u ::ₘ U) = lockedObjs U := by
  rw [lockedObjs, Multiset.filter_cons_of_neg U (p := fun u => u.locked = true)
    (by rw [h]; exact nofun), lockedObjs]

theorem lockedObjs_congr (hlocked : u'.locked = u.locked) (hsock : u'.sock = u.sock) :
    lockedObjs (u' ::ₘ U) = lockedObjs (u ::ₘ U) := by
  cases h : u.locked with
  | true => rw [lockedObjs_cons h, lockedObjs_cons (hlocked.trans h), hsock]
  | false => rw [lockedObjs_cons_free h, lockedObjs_cons_free (hlocked.trans h)]

theorem busy_cons : busy o k (op :: flight) =
    busy o k flight + if op.operation = o ∧ op.key.obj = some k then 1 else 0 := by
  rw [busy, List.countP_cons, busy]
  simp

theorem busy_erase (h : op ∈ flight) : busy o k flight = busy o k (op :: flight.erase op) :=
  (List.perm_cons_erase h).countP_eq _

theorem Phase.Holds.mono (H : ph.Holds σ S p)
    (hS : ∀ q ∈ S', q.sock = p → ∃ q' ∈ S, q'.sock = p)
    (hshut : (σ'.socket p.obj).shut = (σ.socket p.obj).shut)
    (hs : (σ'.socket p.obj).s = (σ.socket p.obj).s) : ph.Holds σ' S' p := by
  have hseat : (∀ q ∈ S, q.sock ≠ p) → ∀ q ∈ S', q.sock ≠ p := by
    intro hne q hq he
    obtain ⟨q', hq', heq⟩ := hS q hq he
    exact hne q' hq' heq
  cases ph with
  | tail => exact hshut.trans H
  | dead => exact ⟨hshut.trans H.1, hseat H.2⟩
  | closed => exact hseat H
  | invalid => exact ⟨hs.trans H.1, hseat H.2⟩

theorem Use.Fits.same (H : u.Fits σ S) (hS : ∀ q ∈ S', q.sock = u.sock → ∃ q' ∈ S, q'.sock = u.sock)
    (howners : SameOwners σ σ')
    (hlock : (σ.socket u.sock.obj).SockCritSec ≠ none → (σ'.socket u.sock.obj).SockCritSec ≠ none) :
    u.Fits σ' S' where
  live := howners.live.mpr H.live
  phase := H.phase.mono hS (howners _).2.2 (howners _).2.1
  lock hl := hlock (H.lock hl)
  outside := H.outside

namespace Using

theorem first (H : Using σ S (u ::ₘ U)) : u.Fits σ S := H.each u (Multiset.mem_cons_self _ _)

theorem rest (H : Using σ S (u ::ₘ U)) : ∀ v ∈ U, v.Fits σ S :=
  fun v hv => H.each v (Multiset.mem_cons_of_mem hv)

theorem locks_congr (H : Using σ S (u ::ₘ U)) (hlocked : u'.locked = u.locked)
    (hsock : u'.sock = u.sock) : (lockedObjs (u' ::ₘ U)).Nodup := by
  rw [lockedObjs_congr hlocked hsock]
  exact H.locks

theorem same (H : Using σ S U) (hS : ∀ q ∈ S', ∃ q' ∈ S, q'.sock = q.sock)
    (howners : SameOwners σ σ')
    (hlock : ∀ k, (σ'.socket k).SockCritSec = (σ.socket k).SockCritSec)
    (hcount : ∀ o k, (σ'.socket k).outstanding o = (σ.socket k).outstanding o)
    (hflight : ∀ o k, busy o k σ'.flight = busy o k σ.flight) : Using σ' S' U where
  each u hu := by
    refine (H.each u hu).same (fun q hq he => ?_) howners fun hl => hlock _ ▸ hl
    obtain ⟨q', hq', heq⟩ := hS q hq
    exact ⟨q', hq', heq.trans he⟩
  locks := H.locks
  count o ho k := by
    rw [hcount, hflight]
    exact H.count o ho k

theorem drop (H : Using σ S (u ::ₘ U)) (hdebt : u.debt = 0) : Using σ S U where
  each := H.rest
  locks := by
    refine Multiset.nodup_of_le (Multiset.map_le_map (Multiset.filter_le_filter _ ?_)) H.locks
    exact Multiset.le_cons_self _ _
  count o ho k := by
    have hcount := H.count o ho k
    rw [owed_cons, hdebt] at hcount
    simpa using hcount

theorem rephase (H : Using σ S (u ::ₘ U)) (hphase : ph.Holds σ S u.sock) :
    Using σ S ({ u with phase := ph } ::ₘ U) where
  each := Multiset.forall_mem_cons.mpr
    ⟨⟨H.first.live, hphase, H.first.lock, H.first.outside⟩, H.rest⟩
  locks := H.locks_congr rfl rfl
  count o ho k := by
    have hcount := H.count o ho k
    rw [owed_cons] at hcount ⊢
    exact hcount

theorem add (H : Using σ S U) (hfits : u.Fits σ S) (hdebt : u.debt = 0)
    (hlocked : u.locked = true → u.sock.obj ∉ lockedObjs U) : Using σ S (u ::ₘ U) where
  each := Multiset.forall_mem_cons.mpr ⟨hfits, H.each⟩
  locks := by
    cases hu : u.locked with
    | true =>
        rw [lockedObjs_cons hu, Multiset.nodup_cons]
        exact ⟨hlocked hu, H.locks⟩
    | false =>
        rw [lockedObjs_cons_free hu]
        exact H.locks
  count o ho k := by
    have hcount := H.count o ho k
    rw [owed_cons, hdebt]
    simpa using hcount

theorem notLocked (H : Using σ S U) (hk : (σ.socket k).SockCritSec = none) :
    k ∉ lockedObjs U := by
  intro hmem
  obtain ⟨u, hu, rfl⟩ := Multiset.mem_map.mp hmem
  obtain ⟨hu, hlocked⟩ := Multiset.mem_filter.mp hu
  exact (H.each u hu).lock hlocked hk

theorem relock {x : SocketObj} (H : Using σ S U) (howners : SameOwners σ (σ.setSocket k x))
    (hcount : ∀ o, x.outstanding o = (σ.socket k).outstanding o)
    (hlock : k ∈ lockedObjs U → x.SockCritSec ≠ none) : Using (σ.setSocket k x) S U where
  each u hu := by
    have hfits := H.each u hu
    have hsame := hfits.same (fun q hq he => ⟨q, hq, he⟩) howners
    by_cases hk : u.sock.obj = k
    · subst hk
      by_cases hu' : u.locked = true
      · refine hsame fun _ => ?_
        rw [Server.setSocket_self]
        exact hlock (Multiset.mem_map.mpr ⟨u, Multiset.mem_filter.mpr ⟨hu, hu'⟩, rfl⟩)
      · refine ⟨howners.live.mpr hfits.live, ?_, fun hl => absurd hl hu', hfits.outside⟩
        exact hfits.phase.mono (fun q hq he => ⟨q, hq, he⟩) (howners _).2.2 (howners _).2.1
    · refine hsame fun hl => ?_
      rwa [Server.setSocket_of_ne hk]
  locks := H.locks
  count o ho j := by
    refine Eq.trans ?_ (H.count o ho j)
    by_cases hj : j = k
    · subst hj
      rw [Server.setSocket_self, hcount o]
    · rw [Server.setSocket_of_ne hj]

theorem elsewhere {x : SocketObj} (H : Using σ S U) (hU : ∀ u ∈ U, u.sock.obj ≠ k)
    (hcount : ∀ o, o ≠ .OP_ACCEPT → x.outstanding o = (σ.socket k).outstanding o) :
    Using (σ.setSocket k x) S U where
  each u hu := by
    have hsame : (σ.setSocket k x).socket u.sock.obj = σ.socket u.sock.obj :=
      Server.setSocket_of_ne (hU u hu)
    have hfits := H.each u hu
    refine ⟨?_, hfits.phase.mono (fun q hq he => ⟨q, hq, he⟩) ?_ ?_, ?_, hfits.outside⟩
    · exact (congrArg _ hsame).trans hfits.live
    · exact congrArg _ hsame
    · exact congrArg _ hsame
    · rw [hsame]
      exact hfits.lock
  locks := H.locks
  count o ho j := by
    refine Eq.trans ?_ (H.count o ho j)
    by_cases hj : j = k
    · subst hj
      rw [Server.setSocket_self, hcount o ho]
    · rw [Server.setSocket_of_ne hj]

theorem pay {x : SocketObj} {n : Int} (H : Using σ S (u ::ₘ U))
    (howners : SameOwners σ (σ.setSocket u.sock.obj x))
    (hlock : x.SockCritSec = (σ.socket u.sock.obj).SockCritSec)
    (hcount : ∀ o', x.outstanding o' =
      (σ.socket u.sock.obj).outstanding o' + (Pi.single o n : Operation → Int) o') :
    Using (σ.setSocket u.sock.obj x) S ({ u with debt := u.debt - Pi.single o n } ::ₘ U) where
  each := by
    have hsame : ∀ v, (σ.socket (Use.sock v).obj).SockCritSec ≠ none →
        ((σ.setSocket u.sock.obj x).socket v.sock.obj).SockCritSec ≠ none := by
      intro v hv
      by_cases hk : v.sock.obj = u.sock.obj
      · rw [hk, Server.setSocket_self, hlock]
        rwa [hk] at hv
      · rwa [Server.setSocket_of_ne hk]
    have hfits : ∀ v, Use.Fits σ S v → v.Fits (σ.setSocket u.sock.obj x) S :=
      fun v hv => hv.same (fun q hq he => ⟨q, hq, he⟩) howners (hsame v)
    have hu := hfits u H.first
    exact Multiset.forall_mem_cons.mpr
      ⟨⟨hu.live, hu.phase, hu.lock, hu.outside⟩, fun v hv => hfits v (H.rest v hv)⟩
  locks := H.locks_congr rfl rfl
  count o' ho' k := by
    have hold := H.count o' ho' k
    change _ = ((busy o' k σ.flight : Nat) : Int)
    rw [owed_cons] at hold ⊢
    by_cases hk : k = u.sock.obj
    · subst hk
      rw [Server.setSocket_self, hcount]
      simp only [↓reduceIte, Pi.sub_apply] at hold ⊢
      omega
    · rw [Server.setSocket_of_ne hk]
      simp only [if_neg (Ne.symm hk)] at hold ⊢
      exact hold

theorem post (H : Using σ S (u ::ₘ U)) (hop : op.key = .sock u.sock)
    (hS : ∀ q ∈ S', ∃ q' ∈ S, q'.sock = q.sock) (howners : SameOwners σ σ')
    (hlock : ∀ k, (σ'.socket k).SockCritSec = (σ.socket k).SockCritSec)
    (hcount : ∀ o k, (σ'.socket k).outstanding o = (σ.socket k).outstanding o)
    (hflight : σ'.flight = op :: σ.flight) :
    Using σ' S' ({ u with debt := u.debt + Pi.single op.operation 1 } ::ₘ U) where
  each := by
    have hfits : ∀ v, Use.Fits σ S v → v.Fits σ' S' := by
      intro v hv
      refine hv.same (fun q hq he => ?_) howners fun hl => hlock _ ▸ hl
      obtain ⟨q', hq', heq⟩ := hS q hq
      exact ⟨q', hq', heq.trans he⟩
    have hu := hfits u H.first
    exact Multiset.forall_mem_cons.mpr
      ⟨⟨hu.live, hu.phase, hu.lock, hu.outside⟩, fun v hv => hfits v (H.rest v hv)⟩
  locks := H.locks_congr rfl rfl
  count o' ho' k := by
    have hold := H.count o' ho' k
    rw [owed_cons] at hold ⊢
    rw [hcount, hflight, busy_cons, hop]
    by_cases hk : u.sock.obj = k
    · by_cases ho : op.operation = o'
      · subst ho
        simp only [hk, Key.obj, and_self, ↓reduceIte, Pi.add_apply, Pi.single_eq_same]
          at hold ⊢
        omega
      · simp only [hk, Key.obj, ho, false_and, ↓reduceIte, Pi.add_apply,
          Pi.single_eq_of_ne (Ne.symm ho), Nat.add_zero] at hold ⊢
        omega
    · simp only [hk, Key.obj, Option.some.injEq, and_false, ↓reduceIte, Nat.add_zero] at hold ⊢
      exact hold

/-- An operation completes: a thread uses its object, and owes the decrement. -/
theorem complete (H : Using σ S U) (hop : op ∈ σ.flight) (hkey : op.key = .sock p)
    (hS : ∀ q ∈ S', ∃ q' ∈ S, q'.sock = q.sock) (howners : SameOwners σ σ')
    (hlock : ∀ k, (σ'.socket k).SockCritSec = (σ.socket k).SockCritSec)
    (hcount : ∀ o k, (σ'.socket k).outstanding o = (σ.socket k).outstanding o)
    (hflight : σ'.flight = σ.flight.erase op) (hlive : σ'.live p) (hphase : ph.Holds σ' S' p) :
    Using σ' S' (⟨p, true, false, Pi.single op.operation (-1), ph⟩ ::ₘ U) where
  each := by
    refine Multiset.forall_mem_cons.mpr ⟨⟨hlive, hphase, nofun, nofun⟩, fun v hv => ?_⟩
    refine (H.each v hv).same (fun q hq he => ?_) howners fun hl => hlock _ ▸ hl
    obtain ⟨q', hq', heq⟩ := hS q hq
    exact ⟨q', hq', heq.trans he⟩
  locks := (lockedObjs_cons_free (u := ⟨p, true, false, _, ph⟩) rfl).symm ▸ H.locks
  count o' ho' k := by
    have hold := H.count o' ho' k
    rw [busy_erase hop, busy_cons, hkey] at hold
    rw [owed_cons, hcount, hflight]
    by_cases hk : p.obj = k
    · by_cases ho : op.operation = o'
      · subst ho
        simp only [hk, Key.obj, and_self, ↓reduceIte, Pi.single_eq_same]
          at hold ⊢
        omega
      · simp only [hk, Key.obj, ho, false_and, ↓reduceIte, Pi.single_eq_of_ne (Ne.symm ho),
          Nat.add_zero] at hold ⊢
        omega
    · simp only [hk, Key.obj, Option.some.injEq, and_false, ↓reduceIte, Nat.add_zero] at hold ⊢
      omega

/-- `SockCritSec` is entered; `u` is to be the user inside. -/
theorem enter {x : SocketObj} (H : Using σ S U) (hfree : (σ.socket u.sock.obj).SockCritSec = none)
    (howners : SameOwners σ (σ.setSocket u.sock.obj x)) (hlock : x.SockCritSec ≠ none)
    (hcount : ∀ o, x.outstanding o = (σ.socket u.sock.obj).outstanding o)
    (hlive : σ.live u.sock) (hphase : u.phase.Holds σ S u.sock) (hlocked : u.locked = true)
    (hdebt : u.debt = 0) : Using (σ.setSocket u.sock.obj x) S (u ::ₘ U) := by
  have hrelock := H.relock howners hcount fun _ => hlock
  refine hrelock.add ⟨howners.live.mpr hlive, ?_, fun _ => ?_, fun _ => hlocked⟩ hdebt
    fun _ => H.notLocked hfree
  · exact hphase.mono (fun q hq he => ⟨q, hq, he⟩) (howners _).2.2 (howners _).2.1
  · rwa [Server.setSocket_self]

theorem leave {x : SocketObj} (H : Using σ S (u ::ₘ U)) (hlocked : u.locked = true)
    (hdebt : u.debt = 0) (howners : SameOwners σ (σ.setSocket u.sock.obj x))
    (hcount : ∀ o, x.outstanding o = (σ.socket u.sock.obj).outstanding o) :
    Using (σ.setSocket u.sock.obj x) S U := by
  refine (H.drop hdebt).relock howners hcount fun hmem => ?_
  have hlocks := H.locks
  rw [lockedObjs_cons hlocked, Multiset.nodup_cons] at hlocks
  exact absurd hmem hlocks.1

theorem leaveOwn {x : SocketObj} (H : Using σ S (u ::ₘ U)) (hlocked : u.locked = true)
    (hinside : u.inside = true) (hdebt : u.debt = 0)
    (howners : SameOwners σ (σ.setSocket u.sock.obj x))
    (hcount : ∀ o, x.outstanding o = (σ.socket u.sock.obj).outstanding o) :
    Using (σ.setSocket u.sock.obj x) S ({ u with locked := false } ::ₘ U) := by
  refine (H.leave hlocked hdebt howners hcount).add ⟨howners.live.mpr H.first.live, ?_, nofun, ?_⟩
    hdebt nofun
  · exact H.first.phase.mono (fun q hq he => ⟨q, hq, he⟩) (howners _).2.2 (howners _).2.1
  · intro hi
    exact absurd hinside (by rw [hi]; exact nofun)

/-- The only user of a socket object closes its socket. -/
theorem close {x : SocketObj} (H : Using σ S (u ::ₘ U)) (hU : ∀ v ∈ U, v.sock.obj ≠ u.sock.obj)
    (hS : ∀ q ∈ S, q.sock ≠ u.sock) (hinside : u.inside = true) (hlocked : u.locked = false)
    (hdebt : u.debt = 0) (hconn : x.conn = (σ.socket u.sock.obj).conn)
    (hcount : ∀ o, x.outstanding o = (σ.socket u.sock.obj).outstanding o) :
    Using (σ.setSocket u.sock.obj x) S ({ u with phase := .closed } ::ₘ U) := by
  refine ((H.drop hdebt).elsewhere hU fun o _ => hcount o).add ⟨?_, hS, ?_, ?_⟩ hdebt ?_
  · exact (congrArg _ Server.setSocket_self).trans (hconn.trans H.first.live)
  · intro hl
    exact absurd hl (by rw [hlocked]; exact nofun)
  · intro hi
    exact absurd hinside (by rw [hi]; exact nofun)
  · intro hl
    exact absurd hl (by rw [hlocked]; exact nofun)

theorem invalidate {x : SocketObj} (H : Using σ S (u ::ₘ U)) (hphase : u.phase = .closed)
    (hconn : x.conn = (σ.socket u.sock.obj).conn) (hs : x.s = none)
    (hshut : x.shut = (σ.socket u.sock.obj).shut)
    (hlock : x.SockCritSec = (σ.socket u.sock.obj).SockCritSec)
    (hcount : ∀ o, x.outstanding o = (σ.socket u.sock.obj).outstanding o) :
    Using (σ.setSocket u.sock.obj x) S ({ u with phase := .invalid } ::ₘ U) := by
  have hfits : ∀ v, Use.Fits σ S v → v.Fits (σ.setSocket u.sock.obj x) S := by
    intro v hv
    by_cases hk : v.sock.obj = u.sock.obj
    · have hself : (σ.setSocket u.sock.obj x).socket v.sock.obj = x := by
        rw [hk, Server.setSocket_self]
      refine ⟨?_, ?_, ?_, hv.outside⟩
      · rw [Server.live, hself, hconn, ← hk]
        exact hv.live
      · have hold := hv.phase
        rw [← hk] at hshut
        cases hph : v.phase with
        | tail =>
            rw [hph] at hold
            exact (congrArg _ hself).trans (hshut.trans hold)
        | dead =>
            rw [hph] at hold
            exact ⟨(congrArg _ hself).trans (hshut.trans hold.1), hold.2⟩
        | closed =>
            rw [hph] at hold
            exact hold
        | invalid =>
            rw [hph] at hold
            exact ⟨(congrArg _ hself).trans hs, hold.2⟩
      · rw [hself, hlock, ← hk]
        exact hv.lock
    · have hsame : (σ.setSocket u.sock.obj x).socket v.sock.obj = σ.socket v.sock.obj :=
        Server.setSocket_of_ne hk
      refine ⟨?_, hv.phase.mono (fun q hq he => ⟨q, hq, he⟩) ?_ ?_, ?_, hv.outside⟩
      · exact (congrArg _ hsame).trans hv.live
      · exact congrArg _ hsame
      · exact congrArg _ hsame
      · rw [hsame]
        exact hv.lock
  have hu := hfits u H.first
  have hseat : ∀ q ∈ S, q.sock ≠ u.sock := by
    have hold := H.first.phase
    rw [hphase] at hold
    exact hold
  refine ⟨Multiset.forall_mem_cons.mpr ⟨⟨hu.live, ⟨?_, hseat⟩, hu.lock, hu.outside⟩,
    fun v hv => hfits v (H.rest v hv)⟩, H.locks_congr rfl rfl, fun o ho k => ?_⟩
  · exact (congrArg _ Server.setSocket_self).trans hs
  · have hold := H.count o ho k
    change _ = ((busy o k σ.flight : Nat) : Int)
    rw [owed_cons] at hold ⊢
    by_cases hk : k = u.sock.obj
    · subst hk
      rw [Server.setSocket_self, hcount]
      exact hold
    · rw [Server.setSocket_of_ne hk]
      exact hold

end Using

/-! ## The free list -/

/-- The socket objects and the free list of them. -/
structure Objects (σ : Server) : Prop where
  exist : ∀ p, σ.live p → p.obj < σ.sockets ∧ p.conn < σ.connections
  apart : ∀ p q, σ.live p → σ.live q → p.conn = q.conn → p = q
  freed : ∀ p ∈ σ.frees, p.conn < σ.connections ∧ ∀ q, σ.live q → q.conn ≠ p.conn
  once : (σ.frees.map SockPtr.conn).Nodup
  free : ∃ l, Chain σ.snext σ.gFreeSocketList l ∧ l.Nodup ∧ ∀ k ∈ l, k < σ.sockets ∧
    (σ.socket k).conn = none ∧ (σ.socket k).shut = false ∧ (σ.socket k).bClosing = false

namespace Objects

theorem same (H : Objects σ) (howners : SameOwners σ σ')
    (hclosing : ∀ k, (σ.socket k).conn = none →
      (σ'.socket k).bClosing = (σ.socket k).bClosing)
    (hsockets : σ'.sockets = σ.sockets) (hconnections : σ'.connections = σ.connections)
    (hfrees : σ'.frees = σ.frees) (hsnext : σ'.snext = σ.snext)
    (hfree : σ'.gFreeSocketList = σ.gFreeSocketList) : Objects σ' where
  exist p hp := by
    rw [hsockets, hconnections]
    exact H.exist p (howners.live.mp hp)
  apart p q hp hq := H.apart p q (howners.live.mp hp) (howners.live.mp hq)
  freed p hp := by
    rw [hfrees] at hp
    rw [hconnections]
    exact (H.freed p hp).imp_right fun hdead q hq => hdead q (howners.live.mp hq)
  once := hfrees ▸ H.once
  free := by
    obtain ⟨l, hchain, hnodup, hl⟩ := H.free
    refine ⟨l, ?_, hnodup, fun k hk => ?_⟩
    · rw [hsnext, hfree]
      exact hchain
    · obtain ⟨hlt, hconn, hshut, hopen⟩ := hl k hk
      rw [hsockets, (howners k).1, (howners k).2.2, hclosing k hconn]
      exact ⟨hlt, hconn, hshut, hopen⟩

/-- A field other than `conn` of a socket object that is in use. -/
theorem object {x : SocketObj} (H : Objects σ) (hlive : σ.live p)
    (hconn : x.conn = (σ.socket p.obj).conn) : Objects (σ.setSocket p.obj x) := by
  have hold : ∀ q, (σ.setSocket p.obj x).live q → σ.live q := by
    intro q hq
    by_cases hk : q.obj = p.obj
    · rw [Server.live, hk, Server.setSocket_self, hconn] at hq
      rw [Server.live, hk]
      exact hq
    · rwa [Server.live, Server.setSocket_of_ne hk] at hq
  refine ⟨fun q hq => H.exist q (hold q hq), fun q q' hq hq' => H.apart q q' (hold q hq)
    (hold q' hq'), fun q hq => (H.freed q hq).imp_right fun hdead q' hq' => hdead q' (hold q' hq'),
    H.once, ?_⟩
  obtain ⟨l, hchain, hnodup, hl⟩ := H.free
  refine ⟨l, hchain, hnodup, fun k hk => ?_⟩
  have hne : k ≠ p.obj := by
    rintro rfl
    have hdead := (hl _ hk).2.1
    rw [Server.live, hdead] at hlive
    cases hlive
  rw [Server.setSocket_of_ne hne]
  exact hl k hk

theorem conn_of_free (H : Objects σ) {k : Nat} (hk : σ.gFreeSocketList = some k) :
    (σ.socket k).conn = none ∧ (σ.socket k).shut = false ∧ (σ.socket k).bClosing = false := by
  obtain ⟨l, hchain, -, hl⟩ := H.free
  rw [hk] at hchain
  obtain ⟨l', rfl, -⟩ := hchain.pop
  exact (hl k List.mem_cons_self).2

theorem conn_of_new (H : Objects σ) : (σ.socket σ.sockets).conn = none := by
  cases hconn : (σ.socket σ.sockets).conn with
  | none => rfl
  | some n => exact absurd (H.exist ⟨σ.sockets, n⟩ hconn).1 (Nat.lt_irrefl _)

theorem release (H : Objects σ) (hlive : σ.live p) : Objects (σ.FreeSocketObj p) := by
  have hself : (σ.FreeSocketObj p).socket p.obj = .zero (σ.socket p.obj).SockCritSec :=
    Server.setSocket_self
  have hother : ∀ {k}, k ≠ p.obj → (σ.FreeSocketObj p).socket k = σ.socket k :=
    fun hk => Server.setSocket_of_ne hk
  have hold : ∀ q, (σ.FreeSocketObj p).live q → q.obj ≠ p.obj ∧ σ.live q := by
    intro q hq
    by_cases hk : q.obj = p.obj
    · rw [Server.live, hk, hself] at hq
      cases hq
    · rw [Server.live, hother hk] at hq
      exact ⟨hk, hq⟩
  obtain ⟨l, hchain, hnodup, hl⟩ := H.free
  have hnotMem : p.obj ∉ l := by
    intro hmem
    have hconn := (hl _ hmem).2.1
    rw [Server.live, hconn] at hlive
    cases hlive
  refine ⟨fun q hq => H.exist q (hold q hq).2, fun q q' hq hq' => H.apart q q' (hold q hq).2
    (hold q' hq').2, fun q hq => ?_, ?_, ?_⟩
  · rcases List.mem_cons.mp hq with rfl | hq
    · refine ⟨(H.exist q hlive).2, fun q' hq' heq => (hold q' hq').1 ?_⟩
      rw [H.apart q' q (hold q' hq').2 hlive heq]
    · exact (H.freed q hq).imp_right fun hdead q' hq' => hdead q' (hold q' hq').2
  · refine List.nodup_cons.mpr ⟨fun hmem => ?_, H.once⟩
    obtain ⟨q, hq, heq⟩ := List.mem_map.mp hmem
    exact (H.freed q hq).2 p hlive heq.symm
  · refine ⟨p.obj :: l, hchain.push hnotMem, List.nodup_cons.mpr ⟨hnotMem, hnodup⟩, fun k hk => ?_⟩
    rcases List.mem_cons.mp hk with rfl | hk
    · rw [hself]
      exact ⟨(H.exist p hlive).1, rfl, rfl, rfl⟩
    · rw [hother fun he => hnotMem (he ▸ hk)]
      exact hl k hk

theorem connect {k : Nat} (H : Objects σ) (hk : (σ.socket k).conn = none)
    (hconn : (σ'.socket k).conn = some σ.connections)
    (hother : ∀ j, j ≠ k → σ'.socket j = σ.socket j) (hlt : k < σ'.sockets)
    (hsockets : σ.sockets ≤ σ'.sockets) (hconnections : σ'.connections = σ.connections + 1)
    (hfrees : σ'.frees = σ.frees)
    (hfree : ∃ l, Chain σ'.snext σ'.gFreeSocketList l ∧ l.Nodup ∧ k ∉ l ∧
      ∀ j ∈ l, j < σ.sockets ∧ (σ.socket j).conn = none ∧ (σ.socket j).shut = false ∧
        (σ.socket j).bClosing = false) : Objects σ' := by
  have hold : ∀ q, σ'.live q → q = ⟨k, σ.connections⟩ ∨ σ.live q := by
    rintro ⟨j, n⟩ hq
    by_cases hj : j = k
    · subst hj
      rw [Server.live, hconn] at hq
      cases hq
      exact .inl rfl
    · rw [Server.live, hother j hj] at hq
      exact .inr hq
  refine ⟨fun q hq => ?_, fun q q' hq hq' heq => ?_, fun q hq => ?_, hfrees ▸ H.once, ?_⟩
  · rw [hconnections]
    rcases hold q hq with rfl | hq
    · exact ⟨hlt, Nat.lt_succ_self _⟩
    · obtain ⟨hobj, hqconn⟩ := H.exist q hq
      exact ⟨Nat.lt_of_lt_of_le hobj hsockets, Nat.lt_succ_of_lt hqconn⟩
  · rcases hold q hq with rfl | hq
    · rcases hold q' hq' with rfl | hq'
      · rfl
      · exact absurd heq (H.exist q' hq').2.ne'
    · rcases hold q' hq' with rfl | hq'
      · exact absurd heq (H.exist q hq).2.ne
      · exact H.apart q q' hq hq' heq
  · rw [hfrees] at hq
    obtain ⟨hqconn, hdead⟩ := H.freed q hq
    refine ⟨hconnections ▸ Nat.lt_succ_of_lt hqconn, fun q' hq' => ?_⟩
    rcases hold q' hq' with rfl | hq'
    · exact hqconn.ne'
    · exact hdead q' hq'
  · obtain ⟨l, hchain, hnodup, hnotMem, hl⟩ := hfree
    refine ⟨l, hchain, hnodup, fun j hj => ?_⟩
    rw [hother j fun he => hnotMem (he ▸ hj)]
    exact ⟨Nat.lt_of_lt_of_le (hl j hj).1 hsockets, (hl j hj).2⟩

end Objects

theorem getSocketObj_spec {s : SOCKET} (H : Objects σ)
    (hget : σ.GetSocketObj s .ok = some (σ', some p)) :
    Objects σ' ∧ (σ.socket p.obj).conn = none ∧ ∃ x snext free sockets,
      σ' = { σ.setSocket p.obj x with
        snext := snext, gFreeSocketList := free, sockets := sockets
        connections := σ.connections + 1 } ∧
      x.conn = some p.conn ∧ x.s = s ∧ x.shut = false ∧ x.bClosing = false ∧
      ∀ o, x.outstanding o = (σ.socket p.obj).outstanding o ∨ x.outstanding o = 0 := by
  unfold Server.GetSocketObj at hget
  obtain ⟨l, hchain, hnodup, hl⟩ := H.free
  cases hfree : σ.gFreeSocketList with
  | some k =>
      simp only [hfree] at hget
      cases hget
      obtain ⟨hconn, hshut, hclosing⟩ := H.conn_of_free hfree
      rw [hfree] at hchain
      obtain ⟨l', rfl, hchain'⟩ := hchain.pop
      obtain ⟨hnotMem, hnodup'⟩ := List.nodup_cons.mp hnodup
      refine ⟨?_, hconn, _, _, _, _, rfl, rfl, rfl, hshut, hclosing, fun o => .inl ?_⟩
      · exact H.connect hconn (congrArg _ Server.setSocket_self)
          (fun j hj => Server.setSocket_of_ne hj) (hl _ List.mem_cons_self).1 (Nat.le_refl _) rfl
          rfl ⟨l', hchain'.write hnotMem none, hnodup', hnotMem,
            fun j hj => hl j (List.mem_cons_of_mem _ hj)⟩
      · cases o <;> rfl
  | none =>
      simp only [hfree] at hget
      cases hget
      refine ⟨?_, H.conn_of_new, { SocketObj.zero none with s := s, conn := some σ.connections },
        σ.snext, none, σ.sockets + 1, ?_, rfl, rfl, rfl, rfl, fun o => .inr ?_⟩
      · exact H.connect H.conn_of_new (congrArg _ Server.setSocket_self)
          (fun j hj => Server.setSocket_of_ne hj) (Nat.lt_succ_self _) (Nat.le_succ _) rfl rfl
          ⟨[], rfl, List.nodup_nil, List.not_mem_nil, nofun⟩
      · rw [← hfree]
        rfl
      · cases o <;> rfl

/-! ## Nothing is lost -/

/-- What has come in and was not posted has a seat, or a guest. -/
def Whole (σ : Server) (S : Multiset Seat) (G : Multiset Guest) : Prop :=
  ∀ h, σ.received h ≠ σ.posted h →
    (∃ q ∈ S, q.cs ≠ [] ∧ (σ.socket q.sock.obj).s = some h) ∨ ∃ g ∈ G, g.2 ≠ [] ∧ g.1 = h

/-- Seats and guests are lost; if `w`, only empty ones. -/
structure Shed (w : Prop) (S S' : Multiset Seat) (G G' : Multiset Guest) : Prop where
  fewerSeats : S' ≤ S
  fewerGuests : G' ≤ G
  fullSeats : w → ∀ q ∈ S, q.cs ≠ [] → q ∈ S'
  fullGuests : w → ∀ g ∈ G, g.2 ≠ [] → g ∈ G'

theorem Shed.of_eq {w : Prop} (hS : S' = S) (hG : G' = G) : Shed w S S' G G' where
  fewerSeats := le_of_eq hS
  fewerGuests := le_of_eq hG
  fullSeats _ _ hq _ := hS ▸ hq
  fullGuests _ _ hg _ := hG ▸ hg

namespace Whole

/-- The histories are the same, and so are the sockets of seats. -/
theorem same (H : Whole σ S G) (hS : ∀ q ∈ S, q.cs ≠ [] → q ∈ S') (hG : ∀ g ∈ G, g.2 ≠ [] → g ∈ G')
    (hs : ∀ q ∈ S, (σ'.socket q.sock.obj).s = (σ.socket q.sock.obj).s)
    (hreceived : σ'.received = σ.received) (hposted : σ'.posted = σ.posted) : Whole σ' S' G' := by
  intro k hk
  rw [hreceived, hposted] at hk
  rcases H k hk with ⟨q, hq, hcs, hsock⟩ | ⟨g, hg, hcs, rfl⟩
  · exact .inl ⟨q, hS q hq hcs, hcs, (hs q hq).trans hsock⟩
  · exact .inr ⟨g, hG g hg hcs, hcs, rfl⟩

theorem elsewhere (H : Whole σ S G)
    (hself : σ'.received h ≠ σ'.posted h →
      (∃ q ∈ S', q.cs ≠ [] ∧ (σ'.socket q.sock.obj).s = some h) ∨
      ∃ g ∈ G', g.2 ≠ [] ∧ g.1 = h)
    (hS : ∀ q ∈ S, (σ.socket q.sock.obj).s ≠ some h → q ∈ S')
    (hG : ∀ g ∈ G, g.1 ≠ h → g ∈ G')
    (hs : ∀ q ∈ S, (σ'.socket q.sock.obj).s = (σ.socket q.sock.obj).s)
    (hreceived : ∀ k, k ≠ h → σ'.received k = σ.received k)
    (hposted : ∀ k, k ≠ h → σ'.posted k = σ.posted k) : Whole σ' S' G' := by
  intro k hk
  by_cases hkh : k = h
  · subst hkh
    exact hself hk
  rw [hreceived k hkh, hposted k hkh] at hk
  rcases H k hk with ⟨q, hq, hcs, hsock⟩ | ⟨g, hg, hcs, rfl⟩
  · refine .inl ⟨q, hS q hq ?_, hcs, (hs q hq).trans hsock⟩
    rw [hsock]
    exact fun he => hkh (Option.some.inj he)
  · exact .inr ⟨g, hG g hg hkh, hcs, rfl⟩

theorem reseat {known : Bool} (H : Whole σ (q ::ₘ S) G) (hq : (σ.socket q.sock.obj).s = some h)
    (hself : σ'.received h = σ'.posted h ++ cs) (hsocket : σ'.socket = σ.socket)
    (hreceived : ∀ k, k ≠ h → σ'.received k = σ.received k)
    (hposted : ∀ k, k ≠ h → σ'.posted k = σ.posted k) :
    Whole σ' (⟨q.sock, known, cs⟩ ::ₘ S) G := by
  refine H.elsewhere (h := h) (fun hne => .inl ⟨_, Multiset.mem_cons_self _ _, ?_, ?_⟩)
    (fun q' hq' hs => ?_) (fun _ hg _ => hg) (fun _ _ => by rw [hsocket]) hreceived hposted
  · rintro rfl
    exact hne (hself.trans (List.append_nil _))
  · rw [hsocket]
    exact hq
  · rcases Multiset.mem_cons.mp hq' with rfl | hq'
    · exact absurd hq hs
    · exact Multiset.mem_cons_of_mem hq'

end Whole

/-! ## All of it -/

/-- `w` says that nothing is lost. -/
structure Sockets (w : Prop) (σ : Server) (queue : List Nat) (B : Multiset Hold)
    (U : Multiset Use) : Prop where
  seating : Seating σ (seats σ queue B) (guests σ B)
  handle : ∀ op ∈ σ.flight, ∀ p, op.key = .sock p → (σ.socket p.obj).s = some op.s
  users : Using σ (seats σ queue B) U
  objects : Objects σ
  whole : w → Whole σ (seats σ queue B) (guests σ B)

section
variable {queue : List Nat} {B : Multiset Hold} {x y : Hold} {b : Nat} {g : Guest}

theorem seats_hold (h : x.role.toSeat = some q) :
    seats σ queue (x ::ₘ B) = q ::ₘ seats σ queue B := by
  rw [seats, Multiset.filterMap_cons_some (fun x => x.role.toSeat) x B h, Multiset.add_cons, seats]

theorem seats_hold_none (h : x.role.toSeat = none) :
    seats σ queue (x ::ₘ B) = seats σ queue B := by
  rw [seats, Multiset.filterMap_cons_none (f := fun x => x.role.toSeat) x B h, seats]

theorem guests_hold (h : x.role.toGuest = some g) : guests σ (x ::ₘ B) = g ::ₘ guests σ B := by
  rw [guests, Multiset.filterMap_cons_some (fun x => x.role.toGuest) x B h, Multiset.add_cons,
    guests]

theorem guests_hold_none (h : x.role.toGuest = none) : guests σ (x ::ₘ B) = guests σ B := by
  rw [guests, Multiset.filterMap_cons_none (f := fun x => x.role.toGuest) x B h, guests]

theorem seats_le : seats σ queue B ≤ seats σ queue (x ::ₘ B) := by
  cases hseat : x.role.toSeat with
  | none => rw [seats_hold_none hseat]
  | some q =>
      rw [seats_hold hseat]
      exact Multiset.le_cons_self _ _

theorem guests_le : guests σ B ≤ guests σ (x ::ₘ B) := by
  cases hguest : x.role.toGuest with
  | none => rw [guests_hold_none hguest]
  | some g =>
      rw [guests_hold hguest]
      exact Multiset.le_cons_self _ _

/-- No data is lost with a buffer. -/
def Role.Spent (role : Role) : Prop :=
  (∀ q ∈ role.toSeat, q.cs = []) ∧ ∀ g ∈ role.toGuest, g.2 = []

theorem Role.spent_blank : Role.blank.Spent := ⟨by exact nofun, by exact nofun⟩

theorem Role.spent_linked {l : Nat} : (Role.linked l).Spent := ⟨by exact nofun, by exact nofun⟩

theorem Role.spent_accept {l : Nat} : (Role.accept l h []).Spent :=
  ⟨by exact nofun, fun _ hg => Option.some.inj hg ▸ rfl⟩

theorem Role.spent_seat {known : Bool} : (Role.seat p known []).Spent :=
  ⟨fun _ hq => Option.some.inj hq ▸ rfl, by exact nofun⟩

theorem Shed.hold {w : Prop} (hx : w → x.role.Spent) :
    Shed w (seats σ queue (x ::ₘ B)) (seats σ queue B) (guests σ (x ::ₘ B)) (guests σ B) := by
  refine ⟨seats_le, guests_le, fun hw q hq hcs => ?_, fun hw g hg hcs => ?_⟩
  · cases hseat : x.role.toSeat with
    | none => rwa [seats_hold_none hseat] at hq
    | some q' =>
        rw [seats_hold hseat] at hq
        rcases Multiset.mem_cons.mp hq with rfl | hq
        · exact absurd ((hx hw).1 _ hseat) hcs
        · exact hq
  · cases hguest : x.role.toGuest with
    | none => rwa [guests_hold_none hguest] at hg
    | some g' =>
        rw [guests_hold hguest] at hg
        rcases Multiset.mem_cons.mp hg with rfl | hg
        · exact absurd ((hx hw).2 _ hguest) hcs
        · exact hg

/-- The operations in flight and the queued buffers are what they were. -/
theorem seats_same (hflight : σ'.flight = σ.flight)
    (hbuffer : ∀ b ∈ queue, σ'.buffer b = σ.buffer b) : seats σ' queue B = seats σ queue B := by
  have hqueue : (queue.filterMap fun b => (σ'.buffer b).toSeat) =
      queue.filterMap fun b => (σ.buffer b).toSeat :=
    List.filterMap_congr fun b hb => by rw [hbuffer b hb]
  rw [seats, seats, hflight, hqueue]

theorem guests_same (hflight : σ'.flight = σ.flight) : guests σ' B = guests σ B := by
  rw [guests, guests, hflight]

theorem seats_post (h : op.toSeat = some q) :
    seats { σ with flight := op :: σ.flight } queue B = q ::ₘ seats σ queue B := by
  rw [seats, List.filterMap_cons_some h, ← Multiset.cons_coe, Multiset.cons_add,
    Multiset.cons_add, seats]

theorem seats_post_none (h : op.toSeat = none) :
    seats { σ with flight := op :: σ.flight } queue B = seats σ queue B := by
  rw [seats, List.filterMap_cons_none h, seats]

theorem guests_post (h : op.toGuest = some g) :
    guests { σ with flight := op :: σ.flight } B = g ::ₘ guests σ B := by
  rw [guests, List.filterMap_cons_some h, ← Multiset.cons_coe, Multiset.cons_add, guests]

theorem guests_post_none (h : op.toGuest = none) :
    guests { σ with flight := op :: σ.flight } B = guests σ B := by
  rw [guests, List.filterMap_cons_none h, guests]

theorem seats_perm {flight : List Op} (h : σ.flight.Perm flight) :
    seats { σ with flight := flight } queue B = seats σ queue B := by
  rw [seats, seats, Multiset.coe_eq_coe.mpr (h.filterMap Op.toSeat)]

theorem guests_perm {flight : List Op} (h : σ.flight.Perm flight) :
    guests { σ with flight := flight } B = guests σ B := by
  rw [guests, guests, Multiset.coe_eq_coe.mpr (h.filterMap Op.toGuest)]

theorem seats_complete (hop : op ∈ σ.flight) (h : op.toSeat = some q) :
    seats σ queue B = q ::ₘ seats { σ with flight := σ.flight.erase op } queue B := by
  rw [← seats_perm (List.perm_cons_erase hop)]
  exact seats_post (σ := { σ with flight := σ.flight.erase op }) h

theorem seats_complete_none (hop : op ∈ σ.flight) (h : op.toSeat = none) :
    seats σ queue B = seats { σ with flight := σ.flight.erase op } queue B := by
  rw [← seats_perm (List.perm_cons_erase hop)]
  exact seats_post_none (σ := { σ with flight := σ.flight.erase op }) h

theorem guests_complete (hop : op ∈ σ.flight) (h : op.toGuest = some g) :
    guests σ B = g ::ₘ guests { σ with flight := σ.flight.erase op } B := by
  rw [← guests_perm (List.perm_cons_erase hop)]
  exact guests_post (σ := { σ with flight := σ.flight.erase op }) h

theorem guests_complete_none (hop : op ∈ σ.flight) (h : op.toGuest = none) :
    guests σ B = guests { σ with flight := σ.flight.erase op } B := by
  rw [← guests_perm (List.perm_cons_erase hop)]
  exact guests_post_none (σ := { σ with flight := σ.flight.erase op }) h

theorem seats_dequeue (h : (σ.buffer b).toSeat = some q) :
    seats σ (b :: queue) B = q ::ₘ seats σ queue B := by
  rw [seats, List.filterMap_cons_some (f := fun b => (σ.buffer b).toSeat) h,
    ← Multiset.cons_coe, Multiset.add_cons, Multiset.cons_add, seats]

theorem seats_enqueue (h : (σ.buffer b).toSeat = some q) :
    seats σ (queue ++ [b]) B = q ::ₘ seats σ queue B := by
  have hperm := (List.perm_append_singleton b queue).filterMap fun b => (σ.buffer b).toSeat
  rw [← seats_dequeue h, seats, seats, Multiset.coe_eq_coe.mpr hperm]

end

end CppWorkspace.ThrottledServer
