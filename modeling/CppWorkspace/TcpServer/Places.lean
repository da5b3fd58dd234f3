/-
# `CppWorkspace.TcpServer.Places` — where the contexts and the sockets are

The contexts: each one is in its idle stack, in one operation in flight, or with
one thread, in every reachable state and whatever fails (`context_in_one_place`).

The sockets: `CloseClientSocket` closes what is registered, and a socket is
registered when its accept has completed.  A call that fails before that leaves it
open for good (`socket_leaked`).  If none does, each socket that was created is
offered to `AcceptEx`, registered or closed (`no_socket_leak`).
-/
import CppWorkspace.TcpServer.Functions

namespace CppWorkspace.TcpServer

open Programs Runs

/-! ## Contexts -/

namespace Server

/-- How often a context is in its idle stack. -/
def idling (σ : Server) (k : Kind) (c : Nat) : Nat := (σ.pool k).stack.count c

/-- How often it is attached to an operation in flight. -/
def attached (σ : Server) (k : Kind) (c : Nat) : Nat :=
  σ.flight.countP fun op => op.kind = k ∧ op.ctx = c

/-- How often a thread holds it. -/
def holders (σ : Server) (k : Kind) (c : Nat) : Nat :=
  σ.held.countP fun x => x.kind = k ∧ x.ctx = c

end Server

/-- Each context that exists is in exactly one place, was given back as often as it
was handed out, up to the present use, and is released or posted by the thread that
holds it; threads that are idle hold none. -/
theorem context_in_one_place {cls : Class} {n : SOCKET} {threads : Nat} {m : Machine}
    (h : Reachable cls n threads m) (k : Kind)
    (hsize : (m.shared.pool k).size ≤ MAX_STACK_CAPACITY) :
    (∀ c, c < (m.shared.pool k).size →
      m.shared.idling k c + m.shared.attached k c + m.shared.holders k c = 1 ∧
      m.shared.idling k c + (m.shared.pool k).got c = (m.shared.pool k).released c + 1) ∧
    (∀ t cmd c, m.next t = some cmd → cmd.gives = some (k, c) →
      ⟨t, k, c⟩ ∈ m.shared.held ∧ m.shared.idling k c = 0 ∧ m.shared.attached k c = 0 ∧
        m.shared.holders k c = 1) ∧
    (m.Quiescent → m.shared.held = []) := by
  obtain ⟨rs, hgood⟩ := owned_run (N := False) (D := False)
    (fun hN => hN.elim) (fun hD => hD.elim) h
  have hwhole := hgood.inv.1.whole k
  refine ⟨?_, ?_, ?_⟩
  · intro c hc
    have hone := hwhole.present hsize c hc
    rw [elsewhere, ← Nat.add_assoc] at hone
    exact ⟨hone, hwhole.matched hsize c hc⟩
  · intro t cmd c hcmd hgives
    obtain ⟨e, r, -, -, -, hheld, -⟩ := hgood.before hcmd
    have hmem := hheld k c hgives
    have hpos : 0 < m.shared.holders k c :=
      List.countP_pos_iff.mpr ⟨_, hmem, by simp⟩
    have hone := hwhole.once c
    rw [elsewhere, ← Nat.add_assoc] at hone
    change m.shared.idling k c + m.shared.attached k c + m.shared.holders k c ≤ 1 at hone
    refine ⟨hmem, ?_, ?_, ?_⟩ <;> omega
  · intro hq
    have hheld := (hgood.quiescent hq).1.held
    simpa using hheld

/-- `InitServer` posts one accept, and stands before the next. -/
def oneAccept : List Action :=
  [.begin 0 .InitServer, .run 0 (.handle 1), .run 0 .ok, .run 0 .ok, .run 0 .ok, .run 0 .ok]

theorem context_in_one_place_oneAccept : ∃ m, Reachable .CTcpServer 9 2 m ∧
    m.shared.attached .accept 63 = 1 ∧ m.shared.idling .accept 63 = 0 ∧
    ∀ c, c < (m.shared.pool .accept).size →
      m.shared.idling .accept c + m.shared.attached .accept c + m.shared.holders .accept c = 1 := by
  have hrun : ∃ m, Reachable .CTcpServer 9 2 m ∧ m.shared.attached .accept 63 = 1 ∧
      m.shared.idling .accept 63 = 0 ∧ (m.shared.pool .accept).size ≤ MAX_STACK_CAPACITY :=
    exists_via_of_execIf oneAccept (by decide +kernel)
  obtain ⟨m, hm, hattached, hidling, hsize⟩ := hrun
  have hplaces := context_in_one_place hm .accept hsize
  exact ⟨m, hm, hattached, hidling, fun c hc => (hplaces.1 c hc).1⟩

/-! ## Sockets -/

/-- Each socket that was created is offered to `AcceptEx`, registered or closed, if
no call fails and no accept completes with an error while it is not registered. -/
theorem no_socket_leak {cls : Class} {n : SOCKET} {threads : Nat} {m : Machine}
    (h : Via (system cls).step NothingRefused (idle n threads) m) (hq : m.Quiescent) (conn : Nat) :
    (∃ s, m.shared.sockets s = some conn ∧ (s ∈ m.shared.m_mapAcceptSockQueue ∨
      ∃ op ∈ m.shared.flight, op.kind = .accept ∧ op.h = s)) ∨
    ∀ s, m.shared.sockets s ≠ some conn := by
  obtain ⟨rs, hgood⟩ := owned_run (N := True) (D := False)
    (fun _ _ _ hcond => hcond) (fun hD => hD.elim) h
  have hS := (hgood.quiescent hq).2
  by_cases hopen : ∃ s, m.shared.sockets s = some conn
  · obtain ⟨s, hs⟩ := hopen
    refine .inl ⟨s, hs, ?_⟩
    have hle := hS.atLeast trivial s
    have hdue : 1 ≤ due m.shared.sockets m.shared.closed s := by simp [due, hs]
    have hzero : (0 : Multiset Token × Late).1.count (.socket s) = 0 := rfl
    by_cases hmem : s ∈ m.shared.m_mapAcceptSockQueue
    · exact .inl hmem
    · have hcount := List.count_eq_zero_of_not_mem hmem
      have hpos : 0 < offered m.shared.flight s := by omega
      obtain ⟨op, hop, hacc⟩ := List.countP_pos_iff.mp hpos
      exact .inr ⟨op, hop, by simpa using hacc⟩
  · exact .inr fun s hs => hopen ⟨s, hs⟩

/-- One accept is posted, and no more sockets can be created. -/
def onlyOneAccept : List Action :=
  oneAccept ++ (List.replicate 31 [.run 0 .fail, .run 0 .ok]).flatten ++ [.finish 0]

theorem no_socket_leak_onlyOneAccept : ∃ m,
    Via (system .CTcpServer).step NothingRefused (idle 9 2) m ∧ m.shared.sockets 1 = some 0 ∧
    ∀ conn, (∃ s, m.shared.sockets s = some conn ∧ (s ∈ m.shared.m_mapAcceptSockQueue ∨
      ∃ op ∈ m.shared.flight, op.kind = .accept ∧ op.h = s)) ∨
      ∀ s, m.shared.sockets s ≠ some conn := by
  have hrun : ∃ m, Via (system .CTcpServer).step NothingRefused (idle 9 2) m ∧ m.Quiescent ∧
      m.shared.sockets 1 = some 0 := exists_via_of_execIf onlyOneAccept (by decide +kernel)
  obtain ⟨m, hm, hq, hopen⟩ := hrun
  exact ⟨m, hm, hopen, fun conn => no_socket_leak hm hq conn⟩

/-- `ioctlsocket` fails for the first socket that `InitServer` creates. -/
def nonBlockingFails : List Action := List.flatten [
  [.begin 0 .InitServer, .run 0 (.handle 1), .run 0 .fail, .run 0 .ok],
  List.flatten (List.replicate 31 [.run 0 .fail, .run 0 .ok]), [.finish 0]]

/-- That socket stays open, and nothing knows of it. -/
theorem socket_leaked : ∃ m, Reachable .CTcpServer 9 2 m ∧ m.Quiescent ∧
    m.shared.sockets 1 = some 0 ∧ 1 ∉ m.shared.m_mapAcceptSockQueue ∧ m.shared.flight = [] :=
  exists_via_of_execIf nonBlockingFails (by decide +kernel)

end CppWorkspace.TcpServer
