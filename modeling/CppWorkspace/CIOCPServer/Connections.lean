/-
# `CppWorkspace.CIOCPServer.Connections` — `m_pConnectionList`

The intrusive list of the connected clients, call by call: `AddAConnection`,
`CloseAConnection` and `CloseAllConnections` on the members of the server and
the `pNext`, `s` and `bClosing` of every context.

`CloseAllConnections` empties the list and leaves the `pNext` of the contexts
as they are, so a context outside the list may point into it.  Nothing follows
such a link: the search of `CloseAConnection` starts at the head and stops at a
member (`unlink_mem`) or at the null pointer (`unlink_not_mem`).

The loops get as many rounds as `m_nCurrentConnection` counts; `none` is a loop
that has not ended by then.
-/
import CppWorkspace.CIOCPServer.Data
import CppWorkspace.Lib.LinkedList
import CppWorkspace.Lib.Runs

namespace CppWorkspace.CIOCPServer

open LinkedList Runs

/-- The list, the contexts at their addresses, and the sockets that were handed to
`closesocket`, the last one first. -/
structure Connections where
  m_pConnectionList : Option Nat
  m_nCurrentConnection : Int
  pNext : Nat → Option Nat
  contexts : Nat → CIOCPContext
  closed : List SOCKET

/-- The functions that change the list of connections. -/
inductive ListCall where
  | addAConnection (pContext : Nat)
  | closeAConnection (pContext : Nat)
  | closeAllConnections
deriving DecidableEq, Repr

namespace Connections

/-- No connection yet; the context at `p` was allocated for the socket `sock p`. -/
def init (sock : Nat → SOCKET) : Connections where
  m_pConnectionList := none
  m_nCurrentConnection := 0
  pNext := fun _ => none
  contexts := fun p => .allocated (sock p)
  closed := []

def rounds (σ : Connections) : Nat := σ.m_nCurrentConnection.toNat

/-- What the links spell from the head on. -/
def connections (σ : Connections) : List Nat := nodes σ.pNext σ.rounds σ.m_pConnectionList

/-- `AddAConnection`. -/
def addAConnection (nMaxConnections : Int) (σ : Connections) (p : Nat) : Connections × Bool :=
  if σ.m_nCurrentConnection ≤ nMaxConnections then
    ({ σ with
        pNext := write σ.pNext p σ.m_pConnectionList
        m_pConnectionList := some p
        m_nCurrentConnection := σ.m_nCurrentConnection + 1 }, true)
  else (σ, false)

/-- The first critical section of `CloseAConnection`. -/
def unlink (σ : Connections) (p : Nat) : Option Connections :=
  (remove σ.pNext σ.m_pConnectionList p σ.rounds).map fun (next, head, found) =>
    { σ with
      pNext := next
      m_pConnectionList := head
      m_nCurrentConnection :=
        if found then σ.m_nCurrentConnection - 1 else σ.m_nCurrentConnection }

/-- The second critical section of `CloseAConnection`, which is also what
`CloseAllConnections` does with each context. -/
def closeSocket (σ : Connections) (p : Nat) : Connections :=
  { σ with
    contexts := Function.update σ.contexts p (σ.contexts p).close
    closed :=
      if (σ.contexts p).s = invalidSocket then σ.closed else (σ.contexts p).s :: σ.closed }

def closeAConnection (σ : Connections) (p : Nat) : Option Connections :=
  (σ.unlink p).map fun τ => τ.closeSocket p

/-- `while(pContext != NULL)` of `CloseAllConnections`. -/
def closeFrom : Nat → Connections → Option Nat → Option Connections
  | _, σ, none => some σ
  | 0, _, some _ => none
  | fuel + 1, σ, some p => closeFrom fuel (σ.closeSocket p) (σ.pNext p)

def closeAllConnections (σ : Connections) : Option Connections :=
  (closeFrom σ.rounds σ σ.m_pConnectionList).map fun τ =>
    { τ with m_pConnectionList := none, m_nCurrentConnection := 0 }

def step (nMaxConnections : Int) (σ : Connections) : ListCall → Option Connections
  | .addAConnection p => some (σ.addAConnection nMaxConnections p).1
  | .closeAConnection p => σ.closeAConnection p
  | .closeAllConnections => σ.closeAllConnections

end Connections

/-- Only a context that is not in the list is added. -/
def NotYetIn (σ : Connections) : ListCall → Prop
  | .addAConnection p => p ∉ σ.connections
  | _ => True

instance (σ : Connections) : ∀ call, Decidable (NotYetIn σ call)
  | .addAConnection p => inferInstanceAs (Decidable (p ∉ _))
  | .closeAConnection _ | .closeAllConnections => isTrue trivial

/-- What a close leaves. -/
def Closed (σ : Connections) (p : Nat) : Prop :=
  (σ.contexts p).bClosing = true ∧ (σ.contexts p).s = invalidSocket

/-- The list is `l`. -/
structure Spells (σ : Connections) (l : List Nat) : Prop where
  chain : Chain σ.pNext σ.m_pConnectionList l
  nodup : l.Nodup
  count : σ.m_nCurrentConnection = l.length

/-- A context has its socket until it is closed. -/
structure Sockets (sock : Nat → SOCKET) (σ : Connections) : Prop where
  own : ∀ p, (σ.contexts p).bClosing = false → (σ.contexts p).s = sock p
  gone : ∀ p, (σ.contexts p).bClosing = true → (σ.contexts p).s = invalidSocket
  once : ∀ p, sock p ≠ invalidSocket → (∀ q, sock q = sock p → q = p) →
    σ.closed.count (sock p) = if (σ.contexts p).bClosing then 1 else 0

section
variable {nMaxConnections : Int} {sock : Nat → SOCKET} {σ τ : Connections} {l : List Nat}
  {p q : Nat}

/-! ## The list -/

theorem Spells.rounds (h : Spells σ l) : σ.rounds = l.length := by
  rw [Connections.rounds, h.count, Int.toNat_natCast]

theorem Spells.connections (h : Spells σ l) : σ.connections = l :=
  h.chain.nodes_eq (Nat.le_of_eq h.rounds.symm)

theorem Spells.congr (h : Spells σ l) (hhead : τ.m_pConnectionList = σ.m_pConnectionList)
    (hcount : τ.m_nCurrentConnection = σ.m_nCurrentConnection) (hnext : τ.pNext = σ.pNext) :
    Spells τ l := by
  refine ⟨?_, h.nodup, hcount.trans h.count⟩
  rw [hhead, hnext]
  exact h.chain

theorem spells_init : Spells (.init sock) [] := ⟨rfl, List.nodup_nil, rfl⟩

theorem Spells.add (h : Spells σ l) (hp : p ∉ l) :
    Spells (σ.addAConnection nMaxConnections p).1
      (if σ.m_nCurrentConnection ≤ nMaxConnections then p :: l else l) := by
  unfold Connections.addAConnection
  split
  · refine ⟨h.chain.push hp, List.nodup_cons.mpr ⟨hp, h.nodup⟩, ?_⟩
    change σ.m_nCurrentConnection + 1 = ((p :: l).length : Int)
    rw [h.count, List.length_cons, Int.natCast_succ]
  · exact h

theorem Spells.unlink_mem (h : Spells σ l) (hp : p ∈ l) :
    ∃ τ, σ.unlink p = some τ ∧ Spells τ (l.erase p) ∧ τ.contexts = σ.contexts ∧
      τ.closed = σ.closed := by
  obtain ⟨next', head', hremove, hchain, -⟩ :=
    remove_mem h.chain h.nodup hp (Nat.le_of_eq h.rounds.symm)
  rw [Connections.unlink, hremove]
  refine ⟨_, rfl, ⟨hchain, h.nodup.erase p, ?_⟩, rfl, rfl⟩
  change σ.m_nCurrentConnection - 1 = ((l.erase p).length : Int)
  have hpos := List.length_pos_of_mem hp
  rw [h.count, List.length_erase_of_mem hp]
  omega

theorem Spells.unlink_not_mem (h : Spells σ l) (hp : p ∉ l) : σ.unlink p = some σ := by
  rw [Connections.unlink, remove_not_mem h.chain hp (Nat.le_of_eq h.rounds.symm)]
  rfl

theorem Spells.close (h : Spells σ l) (p : Nat) :
    ∃ τ, σ.closeAConnection p = some τ ∧ Spells τ (l.erase p) ∧
      τ.contexts = (σ.closeSocket p).contexts ∧ τ.closed = (σ.closeSocket p).closed := by
  by_cases hp : p ∈ l
  · obtain ⟨υ, hunlink, hspells, hcontexts, hclosed⟩ := h.unlink_mem hp
    refine ⟨υ.closeSocket p, by rw [Connections.closeAConnection, hunlink]; rfl,
      hspells.congr rfl rfl rfl, ?_, ?_⟩
    · rw [Connections.closeSocket, Connections.closeSocket, hcontexts]
    · rw [Connections.closeSocket, Connections.closeSocket, hcontexts, hclosed]
  · refine ⟨σ.closeSocket p, by rw [Connections.closeAConnection, h.unlink_not_mem hp]; rfl,
      ?_, rfl, rfl⟩
    rw [List.erase_of_not_mem hp]
    exact h.congr rfl rfl rfl

theorem closeFrom_eq {fuel : Nat} {head : Option Nat} (h : Chain σ.pNext head l)
    (hfuel : l.length ≤ fuel) :
    Connections.closeFrom fuel σ head = some (l.foldl Connections.closeSocket σ) := by
  induction l generalizing σ head fuel with
  | nil =>
      obtain rfl : head = none := h
      cases fuel <;> rfl
  | cons a l ih =>
      obtain ⟨rfl, hl⟩ := h
      cases fuel with
      | zero => cases hfuel
      | succ fuel => exact ih (σ := σ.closeSocket a) hl (Nat.le_of_succ_le_succ hfuel)

theorem Spells.closeAll (h : Spells σ l) :
    σ.closeAllConnections = some
      { l.foldl Connections.closeSocket σ with
        m_pConnectionList := none, m_nCurrentConnection := 0 } := by
  rw [Connections.closeAllConnections, closeFrom_eq h.chain (Nat.le_of_eq h.rounds.symm)]
  rfl

/-! ## The sockets -/

theorem sockets_init : Sockets sock (.init sock) :=
  ⟨fun _ _ => rfl, fun _ h => (by cases h), fun _ _ _ => List.count_nil⟩

theorem Sockets.congr (h : Sockets sock σ) (hcontexts : τ.contexts = σ.contexts)
    (hclosed : τ.closed = σ.closed) : Sockets sock τ := by
  refine ⟨?_, ?_, ?_⟩
  · rw [hcontexts]
    exact h.own
  · rw [hcontexts]
    exact h.gone
  · rw [hcontexts, hclosed]
    exact h.once

@[simp] theorem closeSocket_self :
    (σ.closeSocket p).contexts p = (σ.contexts p).close := Function.update_self ..

@[simp] theorem closeSocket_of_ne (h : q ≠ p) :
    (σ.closeSocket p).contexts q = σ.contexts q := Function.update_of_ne h ..

theorem closed_closeSocket : Closed (σ.closeSocket p) p := by
  rw [Closed, closeSocket_self]
  exact ⟨rfl, rfl⟩

theorem Closed.closeSocket (h : Closed σ p) (q : Nat) : Closed (σ.closeSocket q) p := by
  by_cases hpq : p = q
  · subst hpq
    exact closed_closeSocket
  · rw [Closed, closeSocket_of_ne hpq]
    exact h

theorem Closed.congr (h : Closed σ p) (hcontexts : τ.contexts = σ.contexts) : Closed τ p := by
  rw [Closed, hcontexts]
  exact h

theorem Sockets.closeSocket (h : Sockets sock σ) (p : Nat) : Sockets sock (σ.closeSocket p) := by
  refine ⟨fun q hq => ?_, fun q hq => ?_, fun q hvalid hown => ?_⟩
  · by_cases hqp : q = p
    · rw [hqp, closeSocket_self] at hq
      cases hq
    · rw [closeSocket_of_ne hqp] at hq ⊢
      exact h.own q hq
  · by_cases hqp : q = p
    · rw [hqp, closeSocket_self]
      rfl
    · rw [closeSocket_of_ne hqp] at hq ⊢
      exact h.gone q hq
  · have honce := h.once q hvalid hown
    change List.count (sock q) (if (σ.contexts p).s = invalidSocket then σ.closed
      else (σ.contexts p).s :: σ.closed) = _
    cases hclosing : (σ.contexts p).bClosing with
    | true =>
        -- the socket is gone already
        rw [if_pos (h.gone p hclosing), honce]
        by_cases hqp : q = p
        · rw [hqp, closeSocket_self, hclosing]
          rfl
        · rw [closeSocket_of_ne hqp]
    | false =>
        have hs := h.own p hclosing
        by_cases hqp : q = p
        · subst hqp
          rw [hclosing] at honce
          rw [if_neg (hs ▸ hvalid), hs, List.count_cons_self, honce, closeSocket_self]
          rfl
        · rw [closeSocket_of_ne hqp, ← honce, hs]
          have hne : sock p ≠ sock q := fun he => hqp (hown p he).symm
          split
          · rfl
          · exact List.count_cons_of_ne hne

theorem Sockets.closeAll (h : Sockets sock σ) (l : List Nat) :
    Sockets sock (l.foldl Connections.closeSocket σ) := by
  induction l generalizing σ with
  | nil => exact h
  | cons a l ih => exact ih (h.closeSocket a)

theorem Closed.closeAll (h : Closed σ p) (l : List Nat) :
    Closed (l.foldl Connections.closeSocket σ) p := by
  induction l generalizing σ with
  | nil => exact h
  | cons a l ih => exact ih (h.closeSocket a)

theorem closed_closeAll (hp : p ∈ l) : Closed (l.foldl Connections.closeSocket σ) p := by
  induction l generalizing σ with
  | nil => cases hp
  | cons a l ih =>
      rcases List.mem_cons.mp hp with rfl | hp
      · exact Closed.closeAll closed_closeSocket l
      · exact ih hp

/-! ## Runs -/

theorem step_spells (h : Spells σ l) (hsockets : Sockets sock σ) {call : ListCall}
    (hok : NotYetIn σ call) (hs : σ.step nMaxConnections call = some τ) :
    (∃ l', Spells τ l') ∧ Sockets sock τ ∧ ∀ p, Closed σ p → Closed τ p := by
  cases call with
  | addAConnection p =>
      obtain rfl := Option.some.inj hs
      have hp : p ∉ l := h.connections ▸ hok
      have hcontexts : (σ.addAConnection nMaxConnections p).1.contexts = σ.contexts := by
        unfold Connections.addAConnection
        split <;> rfl
      have hclosed : (σ.addAConnection nMaxConnections p).1.closed = σ.closed := by
        unfold Connections.addAConnection
        split <;> rfl
      exact ⟨⟨_, h.add hp⟩, hsockets.congr hcontexts hclosed, fun q hq => hq.congr hcontexts⟩
  | closeAConnection p =>
      obtain ⟨υ, hclose, hspells, hcontexts, hclosed⟩ := h.close p
      obtain rfl : υ = τ := Option.some.inj (hclose.symm.trans hs)
      exact ⟨⟨_, hspells⟩, (hsockets.closeSocket p).congr hcontexts hclosed,
        fun q hq => (hq.closeSocket p).congr hcontexts⟩
  | closeAllConnections =>
      obtain rfl := Option.some.inj (h.closeAll.symm.trans hs)
      exact ⟨⟨[], rfl, List.nodup_nil, rfl⟩, (hsockets.closeAll l).congr rfl rfl,
        fun q hq => (hq.closeAll l).congr rfl⟩

theorem spells_run (hrun : Via (Connections.step nMaxConnections) NotYetIn (.init sock) σ) :
    (∃ l, Spells σ l) ∧ Sockets sock σ := by
  have hinit : (∃ l, Spells (.init sock) l) ∧ Sockets sock (.init sock) :=
    ⟨⟨[], spells_init⟩, sockets_init⟩
  refine hrun.invariant (P := fun σ => (∃ l, Spells σ l) ∧ Sockets sock σ) hinit
    fun τ call υ h hok hs => ?_
  obtain ⟨⟨l, hl⟩, hsockets⟩ := h
  obtain ⟨hspells, hsockets', -⟩ := step_spells hl hsockets hok hs
  exact ⟨hspells, hsockets'⟩

theorem Closed.run (h : Closed σ p)
    (hinit : Via (Connections.step nMaxConnections) NotYetIn (.init sock) σ)
    (hrun : Via (Connections.step nMaxConnections) NotYetIn σ τ) : Closed τ p := by
  refine hrun.invariant₂ (P := fun τ => Closed τ p) (fun τ hτ => spells_run (hinit.trans hτ)) h
    fun τ call υ hQ hP hok hs => ?_
  obtain ⟨⟨l, hl⟩, hsockets⟩ := hQ
  exact (step_spells hl hsockets hok hs).2.2 p hP

/-- The list between two calls, and what each call makes of it. -/
structure ConnectionList (nMaxConnections : Int) (sock : Nat → SOCKET) (σ : Connections) :
    Prop where
  /-- the links end, and spell `connections` without a repetition -/
  chain : Chain σ.pNext σ.m_pConnectionList σ.connections
  nodup : σ.connections.Nodup
  count : σ.m_nCurrentConnection = σ.connections.length
  add : ∀ p ∉ σ.connections, ∃ τ, σ.step nMaxConnections (.addAConnection p) = some τ ∧
    τ.connections = if σ.m_nCurrentConnection ≤ nMaxConnections then p :: σ.connections
      else σ.connections
  close : ∀ p, ∃ τ, σ.step nMaxConnections (.closeAConnection p) = some τ ∧
    τ.connections = σ.connections.erase p ∧ Closed τ p ∧
    ∀ q ≠ p, τ.contexts q = σ.contexts q
  /-- a context outside the list -/
  leave : ∀ p ∉ σ.connections, ∃ τ, σ.step nMaxConnections (.closeAConnection p) = some τ ∧
    τ.connections = σ.connections ∧ τ.m_nCurrentConnection = σ.m_nCurrentConnection
  closeAll : ∃ τ, σ.step nMaxConnections .closeAllConnections = some τ ∧
    τ.connections = [] ∧ ∀ p ∈ σ.connections, Closed τ p
  /-- a closed context stays closed -/
  stays : ∀ p, Closed σ p → ∀ τ, Via (Connections.step nMaxConnections) NotYetIn σ τ → Closed τ p
  /-- a socket that is the context's alone is closed once with it, and not before -/
  once : ∀ p, sock p ≠ invalidSocket → (∀ q, sock q = sock p → q = p) →
    (Closed σ p → σ.closed.count (sock p) = 1) ∧ (¬ Closed σ p → σ.closed.count (sock p) = 0)

/-- Any sequence of calls. -/
theorem connection_list (hrun : Via (Connections.step nMaxConnections) NotYetIn (.init sock) σ) :
    ConnectionList nMaxConnections sock σ := by
  obtain ⟨⟨l, hl⟩, hsockets⟩ := spells_run hrun
  have hconn := hl.connections
  subst hconn
  refine ⟨hl.chain, hl.nodup, hl.count, fun p hp => ?_, fun p => ?_, fun p hp => ?_, ?_,
    fun p hp τ hτ => hp.run hrun hτ, fun p hvalid hown => ?_⟩
  · exact ⟨_, rfl, (hl.add hp).connections⟩
  · obtain ⟨τ, hclose, hspells, hcontexts, -⟩ := hl.close p
    refine ⟨τ, hclose, hspells.connections, closed_closeSocket.congr hcontexts, fun q hq => ?_⟩
    rw [hcontexts, closeSocket_of_ne hq]
  · obtain ⟨τ, hclose, hspells, -, -⟩ := hl.close p
    rw [List.erase_of_not_mem hp] at hspells
    exact ⟨τ, hclose, hspells.connections, hspells.count.trans hl.count.symm⟩
  · have hnone : Spells { σ.connections.foldl Connections.closeSocket σ with
        m_pConnectionList := none, m_nCurrentConnection := 0 } [] := ⟨rfl, List.nodup_nil, rfl⟩
    exact ⟨_, hl.closeAll, hnone.connections, fun p hp => (closed_closeAll hp).congr rfl⟩
  · have honce := hsockets.once p hvalid hown
    constructor
    · intro hclosed
      rw [honce, hclosed.1]
      rfl
    · intro hnot
      have hopen : (σ.contexts p).bClosing = false := by
        refine Bool.eq_false_iff.mpr fun hclosing => hnot ⟨hclosing, hsockets.gone p hclosing⟩
      rw [honce, hopen]
      rfl

end

/-- Three connections, of which one is closed, then all, then one again. -/
theorem connection_list_three :
    ∃ σ, Via (Connections.step 100) NotYetIn (.init fun p => p + 1) σ ∧
      σ.closed = [2, 4, 3] ∧ ConnectionList 100 (fun p => p + 1) σ := by
  have hexec : ∃ σ, Via (Connections.step 100) NotYetIn (.init fun p => p + 1) σ ∧
      σ.closed = [2, 4, 3] :=
    exists_via_of_execIf [.addAConnection 1, .addAConnection 2, .addAConnection 3,
      .closeAConnection 2, .closeAllConnections, .addAConnection 3, .closeAConnection 1]
      (by decide +kernel)
  obtain ⟨σ, hrun, hclosed⟩ := hexec
  exact ⟨σ, hrun, hclosed, connection_list hrun⟩

end CppWorkspace.CIOCPServer
