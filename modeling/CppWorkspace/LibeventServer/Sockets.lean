/-
# `CppWorkspace.LibeventServer.Sockets` — how often an accepted socket is closed

`CloseConn` closes `fd` and puts the `Conn` back, but the bufferevent of the `Conn`
stays attached to that descriptor.  It was made with `BEV_OPT_CLOSE_ON_FREE`, and the
destructor of `_Conn` frees it: `StopServer` closes the descriptor of each `Conn` once
more, unless `DoAccept` has attached another one since.  A socket that is accepted
when no `Conn` is free is never closed at all.

The callbacks are those of `Pool`, whose `opened` holds the open descriptors.  Added
is the descriptor of each bufferevent, and who has been given what: accepts are
numbered, `given` is the accept whose descriptor a `Conn` has, `last` the accept that
got a number last.  `closes k` counts the closes that descriptor `k` has met; `wrong`
says that a close met the descriptor of another connection.

All sockets are closed once if and only if each accept found a free `Conn` without a
client, no `Conn` was closed that had lost its client, and at `StopServer` each `Conn`
that was given a descriptor still has its client (`sockets_closed_once`).  As long as
no timeout hits a free `Conn` this means that nothing was closed before
(`closed_once_iff_quiet`).
-/
import Mathlib.Logic.Function.Basic
import CppWorkspace.LibeventServer.Pool

namespace CppWorkspace.LibeventServer.Sockets

open Runs Server

/-! ## The state -/

/-- A worker and a `Conn` of it. -/
abbrev ConnId := Nat × Nat

/-- The server, and what has become of the sockets. -/
structure State where
  server : Server
  /-- The descriptor that the bufferevent is attached to; `none` is `-1`. -/
  bufev : ConnId → Option evutil_socket_t
  given : ConnId → Option Nat
  accepts : Nat
  last : evutil_socket_t → Option Nat
  closes : Nat → Nat
  wrong : Bool

def clientOf (s : Server) (c : ConnId) : Option evutil_socket_t := (s.pWorker c.1).client c.2

def fdOf (s : Server) (c : ConnId) : evutil_socket_t := (s.pWorker c.1).fd c.2

/-- The `Conn` that `DoAccept` gets. -/
def chosen (s : Server) : Option ConnId :=
  let i := (s.nCurrentWorker.tmod s.workernum).toNat
  ((s.pWorker i).GetFreeConn.bind Prod.fst).map fun p => (i, p)

namespace State

/-- `StartServer`: the bufferevents are made with descriptor `-1`. -/
def start (workernum connnum : Nat) : State where
  server := .start workernum connnum
  bufev := fun _ => none
  given := fun _ => none
  accepts := 0
  last := fun _ => none
  closes := fun _ => 0
  wrong := false

/-- The descriptor `fd` is closed for the accept `g`. -/
def closing (σ : State) (fd : evutil_socket_t) (g : Option Nat) : State :=
  { σ with
      closes := fun k => if σ.last fd = some k then σ.closes k + 1 else σ.closes k
      wrong := σ.wrong || decide (fd ∈ σ.server.opened ∧ σ.last fd ≠ g) }

/-- A descriptor is accepted; with a `Conn`, it is attached to the bufferevent. -/
def taking (σ : State) (fd : evutil_socket_t) (c : Option ConnId) : State :=
  { σ with
      bufev := (c.map fun c => Function.update σ.bufev c (some fd)).getD σ.bufev
      given := (c.map fun c => Function.update σ.given c (some σ.accepts)).getD σ.given
      accepts := σ.accepts + 1
      last := Function.update σ.last fd (some σ.accepts) }

/-- What a callback does to descriptors. -/
def effect (σ : State) : Event → State
  | .accept fd => σ.taking fd (chosen σ.server)
  | .read i p true => σ.closing (fdOf σ.server (i, p)) (σ.given (i, p))
  | .read _ _ false => σ
  | .error i p => σ.closing (fdOf σ.server (i, p)) (σ.given (i, p))

def step (σ : State) (e : Event) : Option State :=
  (σ.server.step e).map fun s => { σ.effect e with server := s }

/-- `~_Conn`: `bufferevent_free`. -/
def free (σ : State) (c : ConnId) : State :=
  match σ.bufev c with
  | none => σ
  | some fd =>
      { σ.closing fd (σ.given c) with
          server := { σ.server with opened := σ.server.opened.erase fd } }

/-- The `Conn`s of all workers. -/
def conns (s : Server) : List ConnId :=
  (List.range s.workernum).flatMap fun i => (List.range (s.connnum + 1)).map fun p => (i, p)

/-- `StopServer`, as far as descriptors go. -/
def StopServer (σ : State) : State := (conns σ.server).foldl free σ

/-- Each accepted descriptor was closed once, and no close met another connection. -/
def ClosedOnce (σ : State) : Prop := σ.wrong = false ∧ ∀ k < σ.accepts, σ.closes k = 1

/-- An accept finds a `Conn` without a client; what `DoError` closes has its client, or
is a number that was never accepted. -/
def Sound (σ : State) : Event → Prop
  | .accept _ => ∃ c, chosen σ.server = some c ∧ clientOf σ.server c = none
  | .read _ _ _ => True
  | .error i p => clientOf σ.server (i, p) ≠ none ∨ σ.last (fdOf σ.server (i, p)) = none

/-- A `Conn` whose bufferevent is attached has its client. -/
def AllServed (σ : State) : Prop :=
  ∀ c ∈ conns σ.server, σ.bufev c ≠ none → clientOf σ.server c ≠ none

theorem mem_conns {s : Server} {c : ConnId} :
    c ∈ conns s ↔ c.1 < s.workernum ∧ c.2 ≤ s.connnum := by
  simp only [conns, List.mem_flatMap, List.mem_map, List.mem_range, Nat.lt_succ_iff]
  constructor
  · rintro ⟨i, hi, p, hp, rfl⟩
    exact ⟨hi, hp⟩
  · rintro ⟨hi, hp⟩
    exact ⟨c.1, hi, c.2, hp, rfl⟩

theorem nodup_conns (s : Server) : (conns s).Nodup := by
  refine List.nodup_flatMap.mpr ⟨fun i _ => ?_, ?_⟩
  · exact List.nodup_range.map fun p q h => (Prod.mk.inj h).2
  · refine List.nodup_range.imp fun {i j} hij => ?_
    refine List.disjoint_left.mpr fun c hc hc' => ?_
    obtain ⟨p, -, rfl⟩ := List.mem_map.mp hc
    obtain ⟨q, -, h⟩ := List.mem_map.mp hc'
    exact hij (Prod.mk.inj h).1.symm

end State

/-! ## The server's part of a step -/

/-- Every pointer is that of a `Conn`. -/
structure InRange (n : Nat) (w : Worker) : Prop where
  head : ∀ p, w.head = some p → p ≤ n
  tail : w.tail ≤ n
  next : ∀ q p, w.next q = some p → p ≤ n

section
variable {s t : Server} {fd : evutil_socket_t} {i p n : Nat} {w : Worker}

/-- What a `Conn` has after `CloseConn`: another one what it had. -/
theorem closeConn_conn {β : Type} (f : Worker → Nat → β) (c : ConnId) (s : Server) (i p : Nat)
    (hf : ∀ q, (i, q) ≠ (i, p) → f ((s.pWorker i).release p) q = f (s.pWorker i) q)
    (hc : c ≠ (i, p)) :
    f ((s.CloseConn i p).pWorker c.1) c.2 = f (s.pWorker c.1) c.2 := by
  obtain ⟨j, q⟩ := c
  by_cases hj : j = i
  · subst hj
    exact (congrArg (fun w => f w q) (setWorker_self _)).trans (hf q hc)
  · exact congrArg (fun w => f w q) (setWorker_of_ne _ hj)

theorem clientOf_closeConn (s : Server) (i p : Nat) :
    clientOf (s.CloseConn i p) = Function.update (clientOf s) (i, p) none := by
  funext c
  by_cases hc : c = (i, p)
  · subst hc
    rw [Function.update_self]
    show ((s.setWorker i _).pWorker i).client p = none
    rw [setWorker_self]
    exact Worker.set_self _ _ _
  · rw [Function.update_of_ne hc]
    refine closeConn_conn Worker.client c s i p (fun q hq => Worker.set_of_ne ?_) hc
    exact fun h => hq (by rw [h])

theorem fdOf_closeConn (s : Server) (i p : Nat) : fdOf (s.CloseConn i p) = fdOf s := by
  funext c
  by_cases hc : c = (i, p)
  · subst hc
    show ((s.setWorker i _).pWorker i).fd p = _
    rw [setWorker_self]
    rfl
  · exact closeConn_conn Worker.fd c s i p (fun _ _ => rfl) hc

theorem InRange.attach (h : InRange n w) (p : Nat) (fd : evutil_socket_t) :
    InRange n (({ w with head := w.next p } : Worker).attach p fd) where
  head := fun q hq => h.next p q hq
  tail := h.tail
  next := h.next

theorem InRange.release (h : InRange n w) (hp : p ≤ n) : InRange n (w.release p) where
  head := h.head
  tail := hp
  next := by
    intro q r hq
    by_cases hqt : q = w.tail
    · subst hqt
      have hself : LinkedList.write w.next w.tail (some p) w.tail = some p := LinkedList.write_self
      have hr : some p = some r := hself.symm.trans hq
      exact Option.some.inj hr ▸ hp
    · exact h.next q r ((LinkedList.write_of_ne hqt).symm.trans hq)

/-- What `DoAccept` leaves: with no `Conn`, the pools as they were; else the `Conn` at the
head of the list has a client. -/
theorem doAccept_cases (h : s.DoAccept fd = some t) :
    fd ∉ s.opened ∧ t.opened = fd :: s.opened ∧ t.workernum = s.workernum
      ∧ t.connnum = s.connnum
      ∧ (chosen s = none ∧ t.pWorker = s.pWorker
        ∨ ∃ c : ConnId, chosen s = some c ∧ c.1 < s.workernum
          ∧ (s.pWorker c.1).head = some c.2 ∧ c.2 ≠ (s.pWorker c.1).tail
          ∧ t.pWorker = fun i => if i = c.1 then
              ({ s.pWorker c.1 with head := (s.pWorker c.1).next c.2 } : Worker).attach c.2 fd
            else s.pWorker i) := by
  obtain ⟨hnew, i, r, hi, hlt, hr, rfl⟩ := DoAccept_spec h
  refine ⟨hnew, rfl, rfl, rfl, ?_⟩
  unfold Worker.GetFreeConn at hr
  split at hr
  · rename_i hempty
    obtain rfl := Option.some.inj hr
    refine .inl ⟨?_, funext fun j => ?_⟩
    · show ((s.pWorker _).GetFreeConn.bind Prod.fst).map _ = none
      rw [← hi, Worker.GetFreeConn, if_pos hempty]
      rfl
    · by_cases hj : j = i
      · exact (congrArg _ hj).trans ((setWorker_self _).trans (congrArg _ hj.symm))
      · exact setWorker_of_ne _ hj
  · rename_i hfree
    obtain ⟨p, hp, rfl⟩ := Option.map_eq_some_iff.mp hr
    refine .inr ⟨(i, p), ?_, hlt, hp, fun htail => hfree (hp.trans (congrArg some htail)), rfl⟩
    show ((s.pWorker _).GetFreeConn.bind Prod.fst).map _ = _
    rw [← hi, Worker.GetFreeConn, if_neg hfree, hp]
    rfl

end

/-! ## Closes -/

namespace State

section
variable {σ τ : State} {fd : evutil_socket_t} {g : Option Nat} {c : ConnId} {k : Nat}

theorem closing_closes_of_eq (h : σ.last fd = some k) :
    (σ.closing fd g).closes k = σ.closes k + 1 := if_pos h

theorem closing_closes_of_ne (h : σ.last fd ≠ some k) :
    (σ.closing fd g).closes k = σ.closes k := if_neg h

theorem le_closing_closes (σ : State) (fd : evutil_socket_t) (g : Option Nat) (k : Nat) :
    σ.closes k ≤ (σ.closing fd g).closes k := by
  show _ ≤ if _ then _ else _
  split
  · exact Nat.le_succ _
  · exact Nat.le_refl _

theorem closing_wrong : (σ.closing fd g).wrong = true
    ↔ σ.wrong = true ∨ fd ∈ σ.server.opened ∧ σ.last fd ≠ g := by
  show (σ.wrong || decide _) = true ↔ _
  rw [Bool.or_eq_true, decide_eq_true_iff]

/-- What is always so: a number that is not open has been closed since it was accepted. -/
structure Basic (σ : State) : Prop where
  closed : ∀ fd k, σ.last fd = some k → fd ∉ σ.server.opened → 1 ≤ σ.closes k
  given : ∀ c k, σ.given c = some k → k < σ.accepts
  last : ∀ fd k, σ.last fd = some k → k < σ.accepts

/-- A close has met another connection, a descriptor was closed twice, or one is not
closed and no `Conn` has it. -/
def Spoilt (σ : State) : Prop :=
  σ.wrong = true ∨ (∃ k < σ.accepts, 2 ≤ σ.closes k)
    ∨ ∃ k < σ.accepts, σ.closes k = 0 ∧ ∀ c, σ.given c ≠ some k

theorem Spoilt.not_closedOnce (h : σ.Spoilt) : ¬ σ.ClosedOnce := by
  rintro ⟨hwrong, hone⟩
  rcases h with h | ⟨k, hk, h⟩ | ⟨k, hk, h, -⟩
  · rw [hwrong] at h
    cases h
  · rw [hone k hk] at h
    omega
  · rw [hone k hk] at h
    cases h

/-- `fd` has been closed, and nothing else is new but the pools. -/
structure Closed (σ τ : State) (fd : evutil_socket_t) (g : Option Nat) : Prop where
  opened : τ.server.opened = σ.server.opened.erase fd
  given : τ.given = σ.given
  bufev : τ.bufev = σ.bufev
  accepts : τ.accepts = σ.accepts
  last : τ.last = σ.last
  closes : τ.closes = (σ.closing fd g).closes
  wrong : τ.wrong = (σ.closing fd g).wrong

theorem Closed.basic (hcl : Closed σ τ fd g) (h : σ.Basic) : τ.Basic where
  closed := by
    intro fd' k hlast hopen
    rw [hcl.last] at hlast
    rw [hcl.opened] at hopen
    rw [hcl.closes]
    by_cases hfd : fd' = fd
    · rw [closing_closes_of_eq (hfd ▸ hlast)]
      exact Nat.le_add_left 1 _
    · have hout : fd' ∉ σ.server.opened := fun hmem => hopen ((List.mem_erase_of_ne hfd).mpr hmem)
      exact Nat.le_trans (h.closed fd' k hlast hout) (le_closing_closes σ fd g k)
  given := by
    intro c k hc
    rw [hcl.given] at hc
    rw [hcl.accepts]
    exact h.given c k hc
  last := by
    intro fd' k hlast
    rw [hcl.last] at hlast
    rw [hcl.accepts]
    exact h.last fd' k hlast

/-- What is spoilt stays so: an intention can only be that of a `Conn`. -/
theorem Closed.spoilt (hcl : Closed σ τ fd (σ.given c)) (hb : σ.Basic) (h : σ.Spoilt) :
    τ.Spoilt := by
  rcases h with h | ⟨k, hk, h⟩ | ⟨k, hk, h, hnone⟩
  · exact .inl (hcl.wrong.trans (closing_wrong.mpr (.inl h)))
  · refine .inr (.inl ⟨k, hcl.accepts ▸ hk, ?_⟩)
    rw [hcl.closes]
    exact Nat.le_trans h (le_closing_closes σ fd _ k)
  · by_cases hlast : σ.last fd = some k
    · -- the number of `k` is closed for another one
      have hopen : fd ∈ σ.server.opened := by
        by_contra hout
        have hclosed := hb.closed fd k hlast hout
        omega
      refine .inl (hcl.wrong.trans (closing_wrong.mpr (.inr ⟨hopen, fun heq => ?_⟩)))
      exact hnone c (heq.symm.trans hlast)
    · refine .inr (.inr ⟨k, hcl.accepts ▸ hk, ?_, ?_⟩)
      · rw [hcl.closes, closing_closes_of_ne hlast, h]
      · rw [hcl.given]
        exact hnone

/-- A close for an accept that is closed already spoils what follows. -/
theorem Closed.spoils (hcl : Closed σ τ fd g) (hb : σ.Basic) (hlast : σ.last fd = some k)
    (hg : g = some k → 1 ≤ σ.closes k) : τ.Spoilt := by
  by_cases hwrong : fd ∈ σ.server.opened ∧ σ.last fd ≠ g
  · exact .inl (hcl.wrong.trans (closing_wrong.mpr (.inr hwrong)))
  · have hone : 1 ≤ σ.closes k := by
      by_cases hopen : fd ∈ σ.server.opened
      · have hsame : σ.last fd = g := by
          by_contra hne
          exact hwrong ⟨hopen, hne⟩
        exact hg (hsame.symm.trans hlast)
      · exact hb.closed fd k hlast hopen
    refine .inr (.inl ⟨k, hcl.accepts ▸ hb.last fd k hlast, ?_⟩)
    rw [hcl.closes, closing_closes_of_eq hlast]
    omega

end

/-! ## Order -/

/-- As long as nothing is spoilt: a `Conn` with a client has the open descriptor of one
accept, one that has lost its client a descriptor that was closed, and each accept was
closed once or has its `Conn`. -/
structure Clean (σ : State) : Prop where
  basic : σ.Basic
  range : ∀ i, InRange σ.server.connnum (σ.server.pWorker i)
  place : ∀ c k, σ.given c = some k → c ∈ conns σ.server
  alone : ∀ c d k, σ.given c = some k → σ.given d = some k → c = d
  bufev : ∀ c, σ.bufev c = (σ.given c).map fun _ => fdOf σ.server c
  client : ∀ c, clientOf σ.server c ≠ none → ∃ k, σ.given c = some k ∧ σ.closes k = 0
    ∧ σ.last (fdOf σ.server c) = some k ∧ fdOf σ.server c ∈ σ.server.opened
  stale : ∀ c k, clientOf σ.server c = none → σ.given c = some k →
    σ.closes k = 1 ∧ σ.last (fdOf σ.server c) ≠ none
  accounted : ∀ k < σ.accepts, σ.closes k = 1
    ∨ ∃ c, clientOf σ.server c ≠ none ∧ σ.given c = some k
  opened : ∀ fd ∈ σ.server.opened, ∃ k, σ.last fd = some k ∧ σ.closes k = 0
  number : ∀ fd fd' k, σ.last fd = some k → σ.last fd' = some k → fd = fd'
  nodup : σ.server.opened.Nodup
  fresh : ∀ k, σ.accepts ≤ k → σ.closes k = 0
  right : σ.wrong = false

theorem start_clean (workernum connnum : Nat) : (start workernum connnum).Clean where
  basic := ⟨fun _ _ h _ => (by cases h), fun _ _ h => (by cases h), fun _ _ h => (by cases h)⟩
  range := by
    intro i
    refine ⟨fun p hp => ?_, Nat.le_refl _, fun q p hp => ?_⟩
    · exact Option.some.inj hp ▸ Nat.zero_le _
    · have hp' : (if q < connnum then some (q + 1) else none) = some p := hp
      obtain ⟨hq, hp'⟩ := Option.ite_none_right_eq_some.mp hp'
      exact Option.some.inj hp' ▸ hq
  place := fun _ _ h => by cases h
  alone := fun _ _ _ h => by cases h
  bufev := fun _ => rfl
  client := fun _ h => absurd rfl h
  stale := fun _ _ _ h => by cases h
  accounted := fun k h => absurd h (Nat.not_lt_zero k)
  opened := fun _ h => absurd h List.not_mem_nil
  number := fun _ _ _ h => by cases h
  nodup := List.nodup_nil
  fresh := fun _ _ => rfl
  right := rfl

section
variable {σ τ : State} {c : ConnId}

/-- What `CloseConn` does to the pools and the descriptors. -/
structure ClosedConn (σ τ : State) (c : ConnId) : Prop extends
    Closed σ τ (fdOf σ.server c) (σ.given c) where
  server : τ.server = σ.server.CloseConn c.1 c.2

theorem ClosedConn.conns (h : ClosedConn σ τ c) : conns τ.server = conns σ.server := by
  rw [h.server]
  rfl

theorem ClosedConn.fdOf (h : ClosedConn σ τ c) : fdOf τ.server = fdOf σ.server := by
  rw [h.server, fdOf_closeConn]

theorem ClosedConn.clientOf (h : ClosedConn σ τ c) :
    clientOf τ.server = Function.update (clientOf σ.server) c none := by
  rw [h.server, clientOf_closeConn]

/-- The part that does not depend on whether the `Conn` had a client. -/
theorem ClosedConn.range (h : ClosedConn σ τ c) (hmem : c ∈ State.conns σ.server)
    (hrange : ∀ i, InRange σ.server.connnum (σ.server.pWorker i)) (i : Nat) :
    InRange τ.server.connnum (τ.server.pWorker i) := by
  rw [h.server]
  show InRange σ.server.connnum ((σ.server.setWorker c.1 _).pWorker i)
  by_cases hi : i = c.1
  · subst hi
    rw [setWorker_self]
    exact (hrange c.1).release (mem_conns.mp hmem).2
  · rw [setWorker_of_ne _ hi]
    exact hrange i

theorem Clean.closeConn (h : σ.Clean) (hτ : ClosedConn σ τ c) (hmem : c ∈ State.conns σ.server)
    (hc : clientOf σ.server c ≠ none) : τ.Clean := by
  obtain ⟨k, hk, hzero, hlast, hopen⟩ := h.client c hc
  have hcloses : τ.closes k = 1 := by
    rw [hτ.closes, closing_closes_of_eq hlast, hzero]
  have hother : ∀ j, j ≠ k → τ.closes j = σ.closes j := by
    intro j hj
    rw [hτ.closes, closing_closes_of_ne]
    rw [hlast]
    exact fun heq => hj (Option.some.inj heq).symm
  have hclient : ∀ d, d ≠ c → clientOf τ.server d = clientOf σ.server d := by
    intro d hd
    rw [hτ.clientOf, Function.update_of_ne hd]
  have hnone : clientOf τ.server c = none := by
    rw [hτ.clientOf, Function.update_self]
  have hgiven : ∀ d j, d ≠ c → σ.given d = some j → j ≠ k := by
    rintro d j hd hj rfl
    exact hd (h.alone d c j hj hk)
  refine ⟨hτ.toClosed.basic h.basic, hτ.range hmem h.range, ?_, ?_, ?_, ?_, ?_, ?_, ?_, ?_, ?_,
    ?_, ?_⟩
  · intro d j hd
    rw [hτ.given] at hd
    rw [hτ.conns]
    exact h.place d j hd
  · intro d e j hd he
    rw [hτ.given] at hd he
    exact h.alone d e j hd he
  · intro d
    rw [hτ.bufev, hτ.given, hτ.fdOf]
    exact h.bufev d
  · intro d hd
    have hdc : d ≠ c := fun heq => hd (heq ▸ hnone)
    rw [hclient d hdc] at hd
    obtain ⟨j, hj, hj0, hjlast, hjopen⟩ := h.client d hd
    have hjk := hgiven d j hdc hj
    refine ⟨j, hτ.given ▸ hj, ?_, ?_, ?_⟩
    · rw [hother j hjk, hj0]
    · rw [hτ.last, hτ.fdOf, hjlast]
    · rw [hτ.opened, hτ.fdOf]
      refine (List.mem_erase_of_ne fun heq => hjk ?_).mpr hjopen
      rw [heq, hlast] at hjlast
      exact (Option.some.inj hjlast).symm
  · intro d j hd hj
    rw [hτ.given] at hj
    rw [hτ.last, hτ.fdOf]
    by_cases hdc : d = c
    · subst hdc
      obtain rfl := Option.some.inj (hj.symm.trans hk)
      exact ⟨hcloses, by simp [hlast]⟩
    · rw [hother j (hgiven d j hdc hj)]
      exact h.stale d j (hclient d hdc ▸ hd) hj
  · intro j hj
    rw [hτ.accepts] at hj
    by_cases hjk : j = k
    · exact .inl (hjk ▸ hcloses)
    · rw [hother j hjk, hτ.given]
      refine (h.accounted j hj).imp_right ?_
      rintro ⟨d, hd, hdj⟩
      have hdc : d ≠ c := by
        rintro rfl
        exact hjk (Option.some.inj (hdj.symm.trans hk))
      exact ⟨d, (hclient d hdc).symm ▸ hd, hdj⟩
  · intro fd hfd
    rw [hτ.opened] at hfd
    obtain ⟨hne, hmem'⟩ := h.nodup.mem_erase_iff.mp hfd
    obtain ⟨j, hj, hj0⟩ := h.opened fd hmem'
    refine ⟨j, hτ.last ▸ hj, ?_⟩
    rw [hother j, hj0]
    rintro rfl
    exact hne (h.number _ _ _ hj hlast)
  · intro fd fd' j hj hj'
    rw [hτ.last] at hj hj'
    exact h.number fd fd' j hj hj'
  · rw [hτ.opened]
    exact h.nodup.erase _
  · intro j hj
    rw [hτ.accepts] at hj
    rw [hother j, h.fresh j hj]
    rintro rfl
    exact absurd (h.basic.given c _ hk) (Nat.not_lt.mpr hj)
  · have hright : ¬ τ.wrong = true := by
      rw [hτ.wrong, closing_wrong, h.right]
      simp [hlast, hk]
    exact Bool.eq_false_iff.mpr hright

/-- `CloseConn` of a number that was never accepted. -/
theorem Clean.closeNothing (h : σ.Clean) (hτ : ClosedConn σ τ c) (hmem : c ∈ State.conns σ.server)
    (hc : clientOf σ.server c = none) (hlast : σ.last (fdOf σ.server c) = none) : τ.Clean := by
  have hout : fdOf σ.server c ∉ σ.server.opened := by
    intro hopen
    obtain ⟨k, hk, -⟩ := h.opened _ hopen
    rw [hlast] at hk
    cases hk
  have hopened : τ.server.opened = σ.server.opened := by
    rw [hτ.opened, List.erase_of_not_mem hout]
  have hcloses : τ.closes = σ.closes := by
    rw [hτ.closes]
    funext k
    exact closing_closes_of_ne (by simp [hlast])
  have hclient : clientOf τ.server = clientOf σ.server := by
    rw [hτ.clientOf, ← hc, Function.update_eq_self]
  have hwrong : τ.wrong = false := by
    refine Bool.eq_false_iff.mpr fun hw => ?_
    rw [hτ.wrong, closing_wrong, h.right] at hw
    exact hout (hw.resolve_left Bool.false_ne_true).1
  refine ⟨hτ.toClosed.basic h.basic, hτ.range hmem h.range, ?_, ?_, ?_, ?_, ?_, ?_, ?_, ?_, ?_,
    ?_, hwrong⟩
  · rw [hτ.given, hτ.conns]
    exact h.place
  · rw [hτ.given]
    exact h.alone
  · rw [hτ.bufev, hτ.given, hτ.fdOf]
    exact h.bufev
  · rw [hclient, hτ.given, hcloses, hτ.last, hτ.fdOf, hopened]
    exact h.client
  · rw [hclient, hτ.given, hcloses, hτ.last, hτ.fdOf]
    exact h.stale
  · rw [hclient, hτ.given, hcloses, hτ.accepts]
    exact h.accounted
  · rw [hopened, hcloses, hτ.last]
    exact h.opened
  · rw [hτ.last]
    exact h.number
  · rw [hopened]
    exact h.nodup
  · rw [hcloses, hτ.accepts]
    exact h.fresh

/-- A descriptor was accepted; a `Conn` has at most been given this one. -/
structure Opened (σ τ : State) (fd : evutil_socket_t) : Prop where
  new : fd ∉ σ.server.opened
  opened : τ.server.opened = fd :: σ.server.opened
  accepts : τ.accepts = σ.accepts + 1
  last : τ.last = Function.update σ.last fd (some σ.accepts)
  closes : τ.closes = σ.closes
  wrong : τ.wrong = σ.wrong
  others : ∀ c, τ.given c = σ.given c ∨ τ.given c = some σ.accepts

theorem Opened.basic {fd : evutil_socket_t} (hτ : Opened σ τ fd) (h : σ.Basic) : τ.Basic where
  closed := by
    intro fd' k hk hout
    rw [hτ.opened, List.mem_cons, not_or] at hout
    rw [hτ.last, Function.update_of_ne hout.1] at hk
    rw [hτ.closes]
    exact h.closed fd' k hk hout.2
  given := by
    intro d k hd
    rw [hτ.accepts]
    rcases hτ.others d with hsame | hnew
    · exact Nat.lt_succ_of_lt (h.given d k (hsame ▸ hd))
    · rw [hnew] at hd
      exact Option.some.inj hd ▸ Nat.lt_succ_self _
  last := by
    intro fd' k hk
    rw [hτ.accepts]
    by_cases hne : fd' = fd
    · rw [hτ.last, hne, Function.update_self] at hk
      exact Option.some.inj hk ▸ Nat.lt_succ_self _
    · rw [hτ.last, Function.update_of_ne hne] at hk
      exact Nat.lt_succ_of_lt (h.last fd' k hk)

theorem Opened.spoilt {fd : evutil_socket_t} (hτ : Opened σ τ fd) (h : σ.Spoilt) : τ.Spoilt := by
  have hlt : ∀ k, k < σ.accepts → k < τ.accepts := by
    intro k hk
    rw [hτ.accepts]
    exact Nat.lt_succ_of_lt hk
  rcases h with h | ⟨k, hk, h⟩ | ⟨k, hk, h, hnone⟩
  · exact .inl (hτ.wrong.trans h)
  · exact .inr (.inl ⟨k, hlt k hk, hτ.closes ▸ h⟩)
  · refine .inr (.inr ⟨k, hlt k hk, hτ.closes ▸ h, fun d hd => ?_⟩)
    rcases hτ.others d with hsame | hnew
    · exact hnone d (hsame ▸ hd)
    · rw [hnew] at hd
      exact absurd (Option.some.inj hd) (Nat.ne_of_gt hk)

/-- What `DoAccept` with a `Conn` does. -/
structure Accepted (σ τ : State) (fd : evutil_socket_t) (c : ConnId) : Prop extends
    Opened σ τ fd where
  conns : State.conns τ.server = State.conns σ.server
  clientOf : Sockets.clientOf τ.server = Function.update (Sockets.clientOf σ.server) c (some fd)
  fdOf : Sockets.fdOf τ.server = Function.update (Sockets.fdOf σ.server) c fd
  bufev : τ.bufev = Function.update σ.bufev c (some fd)
  given : τ.given = Function.update σ.given c (some σ.accepts)
  range : (∀ i, InRange σ.server.connnum (σ.server.pWorker i)) →
    ∀ i, InRange τ.server.connnum (τ.server.pWorker i)

/-- A `Conn` without a client is taken. -/
theorem Clean.accept {fd : evutil_socket_t} (h : σ.Clean) (hτ : Accepted σ τ fd c)
    (hplace : c ∈ State.conns σ.server) (hc : Sockets.clientOf σ.server c = none) : τ.Clean := by
  have hlt : ∀ d k, σ.given d = some k → k ≠ σ.accepts := by
    rintro d k hd rfl
    exact absurd (h.basic.given d _ hd) (Nat.lt_irrefl _)
  have hself : τ.given c = some σ.accepts := by rw [hτ.given, Function.update_self]
  have hgiven : ∀ d, d ≠ c → τ.given d = σ.given d := by
    intro d hd
    rw [hτ.given, Function.update_of_ne hd]
  have hclient : ∀ d, d ≠ c → Sockets.clientOf τ.server d = Sockets.clientOf σ.server d := by
    intro d hd
    rw [hτ.clientOf, Function.update_of_ne hd]
  have hfd : ∀ d, d ≠ c → Sockets.fdOf τ.server d = Sockets.fdOf σ.server d := by
    intro d hd
    rw [hτ.fdOf, Function.update_of_ne hd]
  have hfdself : Sockets.fdOf τ.server c = fd := by rw [hτ.fdOf, Function.update_self]
  have hsome : Sockets.clientOf τ.server c = some fd := by
    rw [hτ.clientOf, Function.update_self]
  have hlastself : τ.last fd = some σ.accepts := by rw [hτ.last, Function.update_self]
  have hlast : ∀ fd', fd' ≠ fd → τ.last fd' = σ.last fd' := by
    intro fd' hne
    rw [hτ.last, Function.update_of_ne hne]
  have hopen : ∀ fd', fd' ∈ σ.server.opened → fd' ≠ fd := fun fd' hmem heq => hτ.new (heq ▸ hmem)
  refine ⟨hτ.toOpened.basic h.basic, hτ.range h.range, ?_, ?_, ?_, ?_, ?_, ?_, ?_, ?_, ?_, ?_,
    ?_⟩
  · intro d k hd
    rw [hτ.conns]
    by_cases hdc : d = c
    · exact hdc ▸ hplace
    · exact h.place d k (hgiven d hdc ▸ hd)
  · intro d e k hd he
    by_cases hdc : d = c
    · by_cases hec : e = c
      · rw [hdc, hec]
      · rw [hdc, hself] at hd
        rw [hgiven e hec] at he
        exact absurd (Option.some.inj hd).symm (hlt e k he)
    · rw [hgiven d hdc] at hd
      by_cases hec : e = c
      · rw [hec, hself] at he
        exact absurd (Option.some.inj he).symm (hlt d k hd)
      · exact h.alone d e k hd (hgiven e hec ▸ he)
  · intro d
    by_cases hdc : d = c
    · rw [hdc, hself, hfdself, hτ.bufev, Function.update_self]
      rfl
    · rw [hgiven d hdc, hfd d hdc, hτ.bufev, Function.update_of_ne hdc]
      exact h.bufev d
  · intro d hd
    rw [hτ.closes, hτ.opened]
    by_cases hdc : d = c
    · rw [hdc, hfdself]
      exact ⟨σ.accepts, hself, h.fresh _ (Nat.le_refl _), hlastself, List.mem_cons_self⟩
    · rw [hclient d hdc] at hd
      obtain ⟨k, hk, hzero, hklast, hkopen⟩ := h.client d hd
      rw [hfd d hdc, hgiven d hdc, hlast _ (hopen _ hkopen)]
      exact ⟨k, hk, hzero, hklast, List.mem_cons_of_mem _ hkopen⟩
  · intro d k hd hk
    by_cases hdc : d = c
    · rw [hdc, hsome] at hd
      cases hd
    · rw [hclient d hdc] at hd
      rw [hgiven d hdc] at hk
      obtain ⟨hone, hne⟩ := h.stale d k hd hk
      rw [hτ.closes, hfd d hdc]
      refine ⟨hone, ?_⟩
      by_cases heq : Sockets.fdOf σ.server d = fd
      · rw [heq, hlastself]
        exact Option.some_ne_none _
      · rw [hlast _ heq]
        exact hne
  · intro k hk
    rw [hτ.closes]
    rw [hτ.accepts] at hk
    by_cases hnew : k = σ.accepts
    · exact .inr ⟨c, by simp [hsome], hnew ▸ hself⟩
    · refine (h.accounted k (by omega)).imp_right ?_
      rintro ⟨d, hd, hdk⟩
      have hdc : d ≠ c := fun heq => hd (heq ▸ hc)
      exact ⟨d, (hclient d hdc).symm ▸ hd, (hgiven d hdc).trans hdk⟩
  · intro fd' hmem
    rw [hτ.opened] at hmem
    rw [hτ.closes]
    by_cases hne : fd' = fd
    · exact ⟨σ.accepts, hne ▸ hlastself, h.fresh _ (Nat.le_refl _)⟩
    · rw [hlast fd' hne]
      exact h.opened fd' (List.mem_of_ne_of_mem hne hmem)
  · intro fd₁ fd₂ k h₁ h₂
    have hold : ∀ fd' j, fd' ≠ fd → τ.last fd' = some j → j ≠ σ.accepts := by
      rintro fd' j hne hj rfl
      rw [hlast fd' hne] at hj
      exact absurd (h.basic.last fd' _ hj) (Nat.lt_irrefl _)
    by_cases hne₁ : fd₁ = fd
    · by_cases hne₂ : fd₂ = fd
      · rw [hne₁, hne₂]
      · rw [hne₁, hlastself] at h₁
        exact absurd (Option.some.inj h₁).symm (hold fd₂ k hne₂ h₂)
    · by_cases hne₂ : fd₂ = fd
      · rw [hne₂, hlastself] at h₂
        exact absurd (Option.some.inj h₂).symm (hold fd₁ k hne₁ h₁)
      · exact h.number fd₁ fd₂ k (hlast fd₁ hne₁ ▸ h₁) (hlast fd₂ hne₂ ▸ h₂)
  · rw [hτ.opened]
    exact List.nodup_cons.mpr ⟨hτ.new, h.nodup⟩
  · intro k hk
    rw [hτ.accepts] at hk
    rw [hτ.closes]
    exact h.fresh k (by omega)
  · rw [hτ.wrong]
    exact h.right

theorem Clean.dropped {fd : evutil_socket_t} (h : σ.Clean) (hτ : Opened σ τ fd)
    (hgiven : τ.given = σ.given) : τ.Spoilt := by
  refine .inr (.inr ⟨σ.accepts, ?_, ?_, ?_⟩)
  · rw [hτ.accepts]
    exact Nat.lt_succ_self _
  · rw [hτ.closes]
    exact h.fresh _ (Nat.le_refl _)
  · intro d hd
    rw [hgiven] at hd
    exact absurd (h.basic.given d _ hd) (Nat.lt_irrefl _)

theorem Clean.overwritten {fd : evutil_socket_t} (h : σ.Clean) (hτ : Accepted σ τ fd c)
    (hc : Sockets.clientOf σ.server c ≠ none) : τ.Spoilt := by
  obtain ⟨k, hk, hzero, -⟩ := h.client c hc
  have hlt := h.basic.given c k hk
  refine .inr (.inr ⟨k, ?_, ?_, ?_⟩)
  · rw [hτ.accepts]
    exact Nat.lt_succ_of_lt hlt
  · rw [hτ.closes]
    exact hzero
  · intro d hd
    rw [hτ.given] at hd
    by_cases hdc : d = c
    · rw [hdc, Function.update_self] at hd
      exact absurd (Option.some.inj hd) (Nat.ne_of_gt hlt)
    · rw [Function.update_of_ne hdc] at hd
      exact hdc (h.alone d c k hd hk)

theorem Clean.closedTwice (h : σ.Clean) (hτ : ClosedConn σ τ c)
    (hc : Sockets.clientOf σ.server c = none)
    (hlast : σ.last (Sockets.fdOf σ.server c) ≠ none) : τ.Spoilt := by
  obtain ⟨k, hk⟩ := Option.ne_none_iff_exists'.mp hlast
  refine hτ.toClosed.spoils h.basic hk fun hg => ?_
  exact Nat.le_of_eq (h.stale c k hc hg).1.symm

/-! ## Steps -/

theorem step_accept {fd : evutil_socket_t} (h : σ.step (.accept fd) = some τ) :
    chosen σ.server = none ∧ Opened σ τ fd ∧ τ.given = σ.given
      ∨ ∃ c, chosen σ.server = some c ∧ Accepted σ τ fd c
        ∧ c.1 < σ.server.workernum ∧ (σ.server.pWorker c.1).head = some c.2
        ∧ c.2 ≠ (σ.server.pWorker c.1).tail
        ∧ ∀ i, (τ.server.pWorker i).tail = (σ.server.pWorker i).tail := by
  obtain ⟨s, hs, rfl⟩ := Option.map_eq_some_iff.mp h
  obtain ⟨hnew, hopened, hnum, hconn, ⟨hchosen, hpool⟩ | ⟨c, hchosen, hlt, hhead, htail, hpool⟩⟩ :=
    doAccept_cases hs
  · refine .inl ⟨hchosen, ⟨hnew, hopened, rfl, rfl, rfl, rfl, fun d => .inl ?_⟩, ?_⟩
    all_goals simp only [effect, taking, hchosen, Option.map_none, Option.getD_none]
  · have hgiven : (σ.effect (.accept fd)).given
        = Function.update σ.given c (some σ.accepts) := by
      simp only [effect, taking, hchosen, Option.map_some, Option.getD_some]
    have hbufev : (σ.effect (.accept fd)).bufev = Function.update σ.bufev c (some fd) := by
      simp only [effect, taking, hchosen, Option.map_some, Option.getD_some]
    -- the fields of `c` are new, those of the other `Conn`s as they were
    have hself : s.pWorker c.1
        = ({ σ.server.pWorker c.1 with head := (σ.server.pWorker c.1).next c.2 }
          : Worker).attach c.2 fd := by
      rw [hpool]
      exact if_pos rfl
    have hother : ∀ i, i ≠ c.1 → s.pWorker i = σ.server.pWorker i := by
      intro i hi
      rw [hpool]
      exact if_neg hi
    have hfield : ∀ {β : Type} (field : Worker → Nat → β) (v : β),
        field (s.pWorker c.1) = Worker.set (field (σ.server.pWorker c.1)) c.2 v →
        (fun d : ConnId => field (s.pWorker d.1) d.2) =
          Function.update (fun d : ConnId => field (σ.server.pWorker d.1) d.2) c v := by
      intro β field v hset
      funext d
      by_cases hd : d = c
      · rw [hd, Function.update_self, hset]
        exact Worker.set_self _ _ _
      · rw [Function.update_of_ne hd]
        by_cases hi : d.1 = c.1
        · rw [hi, hset]
          refine (Worker.set_of_ne fun hp => hd (Prod.ext hi hp)).trans ?_
          rw [← hi]
        · rw [hother _ hi]
    refine .inr ⟨c, hchosen, ⟨⟨hnew, hopened, rfl, rfl, rfl, rfl, fun d => ?_⟩, ?_, ?_, ?_, hbufev,
      hgiven, ?_⟩, hlt, hhead, htail, fun i => ?_⟩
    · show (σ.effect (.accept fd)).given d = _ ∨ _ = _
      rw [hgiven]
      by_cases hd : d = c
      · exact .inr (hd ▸ Function.update_self _ _ _)
      · exact .inl (Function.update_of_ne hd _ _)
    · simp only [State.conns, hnum, hconn]
    · exact hfield Worker.client (some fd) (congrArg Worker.client hself)
    · exact hfield Worker.fd fd (congrArg Worker.fd hself)
    · intro hrange i
      show InRange s.connnum (s.pWorker i)
      rw [hconn]
      by_cases hi : i = c.1
      · rw [hi, hself]
        exact (hrange c.1).attach c.2 fd
      · rw [hother i hi]
        exact hrange i
    · show (s.pWorker i).tail = _
      by_cases hi : i = c.1
      · rw [hi, hself]
        rfl
      · rw [hother i hi]

theorem step_closes {i p : Nat} {e : Event} (he : e = .read i p true ∨ e = .error i p)
    (h : σ.step e = some τ) : (i, p) ∈ State.conns σ.server ∧ ClosedConn σ τ (i, p)
      ∧ (e = .read i p true → Sockets.clientOf σ.server (i, p) ≠ none) := by
  obtain ⟨s, hs, rfl⟩ := Option.map_eq_some_iff.mp h
  rcases he with rfl | rfl
  · obtain ⟨hon, hs⟩ := Option.ite_none_right_eq_some.mp hs
    simp only [if_true] at hs
    obtain ⟨hc, hs⟩ := Option.ite_none_left_eq_some.mp hs
    obtain rfl := Option.some.inj hs
    refine ⟨mem_conns.mpr ⟨hon.1, hon.2.1⟩, ⟨⟨rfl, rfl, rfl, rfl, rfl, rfl, rfl⟩, rfl⟩, fun _ => hc⟩
  · obtain ⟨hon, hs⟩ := Option.ite_none_right_eq_some.mp hs
    obtain rfl := Option.some.inj hs
    exact ⟨mem_conns.mpr ⟨hon.1, hon.2.1⟩, ⟨⟨rfl, rfl, rfl, rfl, rfl, rfl, rfl⟩, rfl⟩,
      fun hread => Event.noConfusion hread⟩

theorem step_read {i p : Nat} (h : σ.step (.read i p false) = some τ) : τ = σ := by
  obtain ⟨s, hs, rfl⟩ := Option.map_eq_some_iff.mp h
  obtain ⟨-, hs⟩ := Option.ite_none_right_eq_some.mp hs
  simp only [if_neg Bool.false_ne_true] at hs
  obtain rfl := Option.some.inj hs
  rfl

theorem Basic.step {e : Event} (h : σ.Basic) (hstep : σ.step e = some τ) :
    τ.Basic ∧ (σ.Spoilt → τ.Spoilt) := by
  have hclose : ∀ i p, (e = .read i p true ∨ e = .error i p) → τ.Basic ∧ (σ.Spoilt → τ.Spoilt) := by
    intro i p he
    obtain ⟨-, hτ, -⟩ := step_closes he hstep
    exact ⟨hτ.toClosed.basic h, hτ.toClosed.spoilt h⟩
  cases e with
  | accept fd =>
      rcases step_accept hstep with ⟨-, hτ, -⟩ | ⟨c, -, hτ, -⟩
      · exact ⟨hτ.basic h, hτ.spoilt⟩
      · exact ⟨hτ.toOpened.basic h, hτ.toOpened.spoilt⟩
  | read i p closes =>
      cases closes with
      | false =>
          obtain rfl := step_read hstep
          exact ⟨h, id⟩
      | true => exact hclose i p (.inl rfl)
  | error i p => exact hclose i p (.inr rfl)

/-- A sound step keeps the order; any other spoils it. -/
theorem Clean.step {e : Event} (h : σ.Clean) (hstep : σ.step e = some τ) :
    (σ.Sound e → τ.Clean) ∧ (¬ σ.Sound e → τ.Spoilt) := by
  cases e with
  | accept fd =>
      rcases step_accept hstep with ⟨hnone, hτ, hgiven⟩ | ⟨c, hsome, hτ, hlt, hhead, -⟩
      · refine ⟨?_, fun _ => h.dropped hτ hgiven⟩
        rintro ⟨c, hc, -⟩
        rw [hnone] at hc
        cases hc
      · have hplace : c ∈ State.conns σ.server :=
          mem_conns.mpr ⟨hlt, (h.range c.1).head c.2 hhead⟩
        constructor
        · rintro ⟨d, hd, hfree⟩
          obtain rfl := Option.some.inj (hsome.symm.trans hd)
          exact h.accept hτ hplace hfree
        · intro hbad
          exact h.overwritten hτ fun hfree => hbad ⟨c, hsome, hfree⟩
  | read i p closes =>
      cases closes with
      | false => exact ⟨fun _ => step_read hstep ▸ h, fun hbad => absurd trivial hbad⟩
      | true =>
          obtain ⟨hmem, hτ, hclient⟩ := step_closes (.inl rfl) hstep
          exact ⟨fun _ => h.closeConn hτ hmem (hclient rfl), fun hbad => absurd trivial hbad⟩
  | error i p =>
      obtain ⟨hmem, hτ, -⟩ := step_closes (.inr rfl) hstep
      by_cases hc : Sockets.clientOf σ.server (i, p) = none
      · by_cases hlast : σ.last (Sockets.fdOf σ.server (i, p)) = none
        · exact ⟨fun _ => h.closeNothing hτ hmem hc hlast, fun hbad => absurd (.inr hlast) hbad⟩
        · refine ⟨fun hsound => ?_, fun _ => h.closedTwice hτ hc hlast⟩
          exact absurd hc (hsound.resolve_right hlast)
      · exact ⟨fun _ => h.closeConn hτ hmem hc, fun hbad => absurd (.inl hc) hbad⟩

/-! ## `StopServer` -/

theorem free_of_none (h : σ.bufev c = none) : σ.free c = σ := by
  rw [free, h]

theorem free_closed {fd : evutil_socket_t} (h : σ.bufev c = some fd) :
    Closed σ (σ.free c) fd (σ.given c) := by
  rw [free, h]
  exact ⟨rfl, rfl, rfl, rfl, rfl, rfl, rfl⟩

theorem Basic.foldl (l : List ConnId) : ∀ {σ : State}, σ.Basic →
    (l.foldl free σ).Basic ∧ (σ.Spoilt → (l.foldl free σ).Spoilt) := by
  induction l with
  | nil =>
      intro σ h
      exact ⟨h, id⟩
  | cons c l ih =>
      intro σ h
      cases hc : σ.bufev c with
      | none =>
          rw [List.foldl_cons, free_of_none hc]
          exact ih h
      | some fd =>
          have hτ := free_closed hc
          obtain ⟨hbasic, hspoilt⟩ := ih (hτ.basic h)
          exact ⟨hbasic, fun hbad => hspoilt (hτ.spoilt h hbad)⟩

theorem Basic.foldl_spoilt {k : Nat} {fd : evutil_socket_t} (l : List ConnId) : ∀ {σ : State},
    σ.Basic → c ∈ l → σ.given c = some k → 1 ≤ σ.closes k → σ.bufev c = some fd →
    σ.last fd ≠ none → (l.foldl free σ).Spoilt := by
  induction l with
  | nil =>
      intro σ _ hmem
      cases hmem
  | cons d l ih =>
      intro σ h hmem hk hone hfd hlast
      by_cases hd : c = d
      · subst hd
        have hτ := free_closed hfd
        obtain ⟨j, hj⟩ := Option.ne_none_iff_exists'.mp hlast
        refine (Basic.foldl l (hτ.basic h)).2 (hτ.spoils h hj fun hg => ?_)
        exact Option.some.inj (hk.symm.trans hg) ▸ hone
      · have hrest := (List.mem_cons.mp hmem).resolve_left hd
        rw [List.foldl_cons]
        cases hbd : σ.bufev d with
        | none =>
            rw [free_of_none hbd]
            exact ih h hrest hk hone hfd hlast
        | some fd' =>
            have hτ := free_closed hbd
            refine ih (hτ.basic h) hrest ?_ ?_ ?_ ?_
            · rw [hτ.given, hk]
            · rw [hτ.closes]
              exact Nat.le_trans hone (le_closing_closes _ _ _ _)
            · rw [hτ.bufev, hfd]
            · rw [hτ.last]
              exact hlast

/-- In the middle of the loop: each accept was closed, or its `Conn` is still to come. -/
structure Freeing (σ : State) (l : List ConnId) : Prop where
  right : σ.wrong = false
  done : ∀ k < σ.accepts, σ.closes k = 1 ∨ ∃ c ∈ l, σ.given c = some k
  todo : ∀ c ∈ l, ∀ k, σ.given c = some k → σ.closes k = 0
    ∧ ∃ fd, σ.bufev c = some fd ∧ σ.last fd = some k ∧ fd ∈ σ.server.opened
  blank : ∀ c, σ.given c = none → σ.bufev c = none
  alone : ∀ c d k, σ.given c = some k → σ.given d = some k → c = d

theorem Freeing.free {l : List ConnId} (h : Freeing σ (c :: l)) (hc : c ∉ l) :
    Freeing (σ.free c) l := by
  cases hk : σ.given c with
  | none =>
      rw [free_of_none (h.blank c hk)]
      refine ⟨h.right, fun k hlt => (h.done k hlt).imp_right ?_,
        fun d hd => h.todo d (List.mem_cons_of_mem c hd), h.blank, h.alone⟩
      rintro ⟨d, hd, hdk⟩
      refine ⟨d, (List.mem_cons.mp hd).resolve_left ?_, hdk⟩
      rintro rfl
      rw [hk] at hdk
      cases hdk
  | some k =>
      obtain ⟨hzero, fd, hfd, hlast, hopen⟩ := h.todo c List.mem_cons_self k hk
      have hτ := free_closed hfd
      have hself : (σ.free c).closes k = 1 := by
        rw [hτ.closes, closing_closes_of_eq hlast, hzero]
      have hother : ∀ j, j ≠ k → (σ.free c).closes j = σ.closes j := by
        intro j hj
        rw [hτ.closes, closing_closes_of_ne]
        rw [hlast]
        exact fun heq => hj (Option.some.inj heq).symm
      refine ⟨?_, ?_, ?_, ?_, ?_⟩
      · refine Bool.eq_false_iff.mpr fun hw => ?_
        rw [hτ.wrong, closing_wrong, h.right, hlast, hk] at hw
        exact absurd rfl (hw.resolve_left Bool.false_ne_true).2
      · intro j hj
        rw [hτ.accepts] at hj
        by_cases hjk : j = k
        · exact .inl (hjk ▸ hself)
        · rw [hother j hjk, hτ.given]
          refine (h.done j hj).imp_right ?_
          rintro ⟨d, hd, hdj⟩
          refine ⟨d, (List.mem_cons.mp hd).resolve_left ?_, hdj⟩
          rintro rfl
          exact hjk (Option.some.inj (hdj.symm.trans hk))
      · intro d hd j hj
        rw [hτ.given] at hj
        have hjk : j ≠ k := by
          rintro rfl
          exact hc (h.alone d c j hj hk ▸ hd)
        obtain ⟨hj0, fd', hfd', hlast', hopen'⟩ := h.todo d (List.mem_cons_of_mem c hd) j hj
        refine ⟨(hother j hjk).trans hj0, fd', ?_, ?_, ?_⟩
        · rw [hτ.bufev, hfd']
        · rw [hτ.last, hlast']
        · rw [hτ.opened]
          refine (List.mem_erase_of_ne ?_).mpr hopen'
          rintro rfl
          exact hjk (Option.some.inj (hlast'.symm.trans hlast))
      · rw [hτ.given, hτ.bufev]
        exact h.blank
      · rw [hτ.given]
        exact h.alone

theorem Freeing.closedOnce (l : List ConnId) : ∀ {σ : State}, Freeing σ l → l.Nodup →
    (l.foldl State.free σ).ClosedOnce := by
  induction l with
  | nil =>
      intro σ h _
      refine ⟨h.right, fun k hk => (h.done k hk).resolve_right ?_⟩
      rintro ⟨c, hc, -⟩
      cases hc
  | cons c l ih =>
      intro σ h hnodup
      obtain ⟨hc, hl⟩ := List.nodup_cons.mp hnodup
      exact ih (h.free hc) hl

/-- `StopServer` closes what is left, if each `Conn` that is attached has its client. -/
theorem Clean.stopServer (h : σ.Clean) : σ.StopServer.ClosedOnce ↔ σ.AllServed := by
  constructor
  · intro hone c hmem hfd hc
    obtain ⟨fd, hfd⟩ := Option.ne_none_iff_exists'.mp hfd
    have hbufev := h.bufev c
    rw [hfd] at hbufev
    obtain ⟨k, hk, hfd'⟩ := Option.map_eq_some_iff.mp hbufev.symm
    obtain ⟨hclosed, hlast⟩ := h.stale c k hc hk
    have hspoilt := Basic.foldl_spoilt (State.conns σ.server) h.basic hmem hk
      (Nat.le_of_eq hclosed.symm) hfd (hfd' ▸ hlast)
    exact hspoilt.not_closedOnce hone
  · intro hserved
    have hclient : ∀ c k, σ.given c = some k → Sockets.clientOf σ.server c ≠ none := by
      intro c k hk
      refine hserved c (h.place c k hk) ?_
      rw [h.bufev c, hk]
      exact Option.some_ne_none _
    refine Freeing.closedOnce _ ⟨h.right, ?_, ?_, ?_, h.alone⟩ (nodup_conns σ.server)
    · intro k hk
      refine (h.accounted k hk).imp_right ?_
      rintro ⟨c, -, hck⟩
      exact ⟨c, h.place c k hck, hck⟩
    · intro c _ k hk
      obtain ⟨j, hj, hzero, hlast, hopen⟩ := h.client c (hclient c k hk)
      obtain rfl := Option.some.inj (hj.symm.trans hk)
      refine ⟨hzero, _, ?_, hlast, hopen⟩
      rw [h.bufev c, hk]
      rfl
    · intro c hc
      rw [h.bufev c, hc]
      rfl

end

end State

/-! ## Runs -/

theorem clean_or_spoilt {workernum connnum : Nat} {σ : State}
    (h : Via State.step (fun _ _ => True) (State.start workernum connnum) σ) :
    σ.Basic ∧ (σ.Clean ∧ Via State.step State.Sound (State.start workernum connnum) σ
      ∨ σ.Spoilt) := by
  induction h with
  | refl =>
      have hclean := State.start_clean workernum connnum
      exact ⟨hclean.basic, .inl ⟨hclean, .refl⟩⟩
  | @tail t u e _ _ hstep ih =>
      obtain ⟨hbasic, hcase⟩ := ih
      obtain ⟨hbasic', hkeep⟩ := hbasic.step hstep
      refine ⟨hbasic', ?_⟩
      rcases hcase with ⟨hclean, hrun⟩ | hspoilt
      · obtain ⟨hgood, hbad⟩ := hclean.step hstep
        by_cases hsound : t.Sound e
        · exact .inl ⟨hgood hsound, .tail e hrun hsound hstep⟩
        · exact .inr (hbad hsound)
      · exact .inr (hkeep hspoilt)

/-- **Closed once.**  After any callbacks, in any order: `StopServer` leaves each accepted
descriptor closed once, and no close has met another connection, if and only if the
callbacks were sound and each `Conn` that is attached has its client. -/
theorem sockets_closed_once (workernum connnum : Nat) (σ : State)
    (h : Via State.step (fun _ _ => True) (State.start workernum connnum) σ) :
    σ.StopServer.ClosedOnce
      ↔ Via State.step State.Sound (State.start workernum connnum) σ ∧ σ.AllServed := by
  obtain ⟨hbasic, hcase⟩ := clean_or_spoilt h
  constructor
  · intro hone
    rcases hcase with ⟨hclean, hrun⟩ | hspoilt
    · exact ⟨hrun, hclean.stopServer.mp hone⟩
    · have hbad := (State.Basic.foldl (State.conns σ.server) hbasic).2 hspoilt
      exact absurd hone hbad.not_closedOnce
  · rintro ⟨hrun, hserved⟩
    have hclean : σ.Clean := hrun.invariant (State.start_clean workernum connnum)
      fun _ _ _ hc hsound hstep => (hc.step hstep).1 hsound
    exact hclean.stopServer.mpr hserved

/-- One socket, that `StopServer` closes. -/
theorem sockets_closed_once_oneClient :
    ∃ σ, (Via State.step (fun _ _ => True) (State.start 1 1) σ ∧ σ.accepts = 1)
      ∧ (σ.StopServer.ClosedOnce
        ↔ Via State.step State.Sound (State.start 1 1) σ ∧ σ.AllServed) := by
  have hrun : ∃ σ, Via State.step (fun _ _ => True) (State.start 1 1) σ ∧ σ.accepts = 1 :=
    exists_via_of_execIf [.accept 7] (by decide)
  obtain ⟨σ, hvia, hone⟩ := hrun
  exact ⟨σ, ⟨hvia, hone⟩, sockets_closed_once 1 1 σ hvia⟩

/-- The peer of the only connection closes it: its descriptor is closed by `CloseConn`
and by `StopServer`. -/
theorem not_sockets_closed_once :
    ∃ σ, Via State.step (fun _ _ => True) (State.start 1 1) σ ∧ ¬ σ.StopServer.ClosedOnce := by
  have hrun : ∃ σ, Via State.step (fun _ _ => True) (State.start 1 1) σ
      ∧ 0 < σ.StopServer.accepts ∧ σ.StopServer.closes 0 = 2 :=
    exists_via_of_execIf [.accept 7, .error 0 0] (by decide)
  obtain ⟨σ, hvia, hpos, htwo⟩ := hrun
  refine ⟨σ, hvia, fun hone => ?_⟩
  rw [hone.2 0 hpos] at htwo
  cases htwo

/-! ## When no timeout hits a free `Conn` -/

/-- Each accept finds a free `Conn`, and nothing is closed. -/
def Quiet (σ : State) : Event → Prop
  | .accept _ => chosen σ.server ≠ none
  | .read _ _ closes => closes = false
  | .error _ _ => False

/-- The last `Conn` in the list of a worker is attached, and has lost its client. -/
def StaleTail (σ : State) : Prop :=
  ∃ i < σ.server.workernum, σ.bufev (i, (σ.server.pWorker i).tail) ≠ none
    ∧ clientOf σ.server (i, (σ.server.pWorker i).tail) = none

section
variable {σ τ : State}

theorem step_server {e : Event} (h : σ.step e = some τ) : σ.server.step e = some τ.server := by
  obtain ⟨s, hs, rfl⟩ := Option.map_eq_some_iff.mp h
  exact hs

theorem State.Clean.staleTail {i p : Nat} (h : σ.Clean) (hτ : State.ClosedConn σ τ (i, p))
    (hmem : (i, p) ∈ State.conns σ.server) (hc : clientOf σ.server (i, p) ≠ none) :
    StaleTail τ := by
  have htail : (τ.server.pWorker i).tail = p := by
    rw [hτ.server]
    exact congrArg Worker.tail (setWorker_self _)
  have hnum : τ.server.workernum = σ.server.workernum := by
    rw [hτ.server]
    rfl
  obtain ⟨k, hk, -⟩ := h.client _ hc
  refine ⟨i, hnum ▸ (State.mem_conns.mp hmem).1, ?_, ?_⟩
  · rw [htail, hτ.bufev, h.bufev, hk]
    exact Option.some_ne_none _
  · rw [htail, hτ.clientOf, Function.update_self]

theorem StaleTail.step {e : Event} (h : StaleTail σ) (hclean : σ.Clean)
    (hok : OnClient σ.server e) (hstep : σ.step e = some τ) : StaleTail τ ∨ τ.Spoilt := by
  obtain ⟨i, hi, hfd, hnone⟩ := h
  cases e with
  | accept fd =>
      rcases State.step_accept hstep with ⟨-, hτ, hgiven⟩ | ⟨c, -, hτ, -, -, htail, hsame⟩
      · exact .inr (hclean.dropped hτ hgiven)
      · have hne : (i, (σ.server.pWorker i).tail) ≠ c := by
          rintro rfl
          exact htail rfl
        have hnum : τ.server.workernum = σ.server.workernum :=
          (doAccept_cases (step_server hstep)).2.2.1
        refine .inl ⟨i, hnum ▸ hi, ?_, ?_⟩
        · rw [hsame, hτ.bufev, Function.update_of_ne hne]
          exact hfd
        · rw [hsame, hτ.clientOf, Function.update_of_ne hne]
          exact hnone
  | read j p closes =>
      cases closes with
      | false =>
          obtain rfl := State.step_read hstep
          exact .inl ⟨i, hi, hfd, hnone⟩
      | true =>
          obtain ⟨hmem, hτ, hc⟩ := State.step_closes (.inl rfl) hstep
          exact .inl (hclean.staleTail hτ hmem (hc rfl))
  | error j p =>
      obtain ⟨hmem, hτ, -⟩ := State.step_closes (.inr rfl) hstep
      exact .inl (hclean.staleTail hτ hmem hok)

/-- A step that is not quiet leaves a stale tail, or spoils something. -/
theorem State.Clean.not_quiet {e : Event} (h : σ.Clean) (hok : OnClient σ.server e)
    (hstep : σ.step e = some τ) (hloud : ¬ Quiet σ e) : StaleTail τ ∨ τ.Spoilt := by
  cases e with
  | accept fd =>
      rcases State.step_accept hstep with ⟨-, hτ, hgiven⟩ | ⟨c, hsome, -⟩
      · exact .inr (h.dropped hτ hgiven)
      · exact absurd (fun hnone => by rw [hnone] at hsome; cases hsome) hloud
  | read i p closes =>
      cases closes with
      | false => exact absurd rfl hloud
      | true =>
          obtain ⟨hmem, hτ, hc⟩ := State.step_closes (.inl rfl) hstep
          exact .inl (h.staleTail hτ hmem (hc rfl))
  | error i p =>
      obtain ⟨hmem, hτ, -⟩ := State.step_closes (.inr rfl) hstep
      exact .inl (h.staleTail hτ hmem hok)

end

/-- A run in which `DoError` is only for clients was quiet so far, or has left a stale tail,
or has spoilt something. -/
theorem quiet_or_stale {workernum connnum : Nat} {σ : State}
    (h : Via State.step (fun σ e => OnClient σ.server e) (State.start workernum connnum) σ) :
    σ.Basic ∧ (σ.Clean ∧ (Via State.step Quiet (State.start workernum connnum) σ ∨ StaleTail σ)
      ∨ σ.Spoilt) := by
  induction h with
  | refl =>
      have hclean := State.start_clean workernum connnum
      exact ⟨hclean.basic, .inl ⟨hclean, .inl .refl⟩⟩
  | @tail t u e _ hok hstep ih =>
      obtain ⟨hbasic, hcase⟩ := ih
      obtain ⟨hbasic', hkeep⟩ := hbasic.step hstep
      refine ⟨hbasic', ?_⟩
      rcases hcase with ⟨hclean, hrun⟩ | hspoilt
      · obtain ⟨hgood, hbad⟩ := hclean.step hstep
        by_cases hsound : t.Sound e
        · by_cases hquiet : Quiet t e
          · rcases hrun with hrun | hstale
            · exact .inl ⟨hgood hsound, .inl (.tail e hrun hquiet hstep)⟩
            · exact (hstale.step hclean hok hstep).imp_left fun h => ⟨hgood hsound, .inr h⟩
          · exact (hclean.not_quiet hok hstep hquiet).imp_left fun h => ⟨hgood hsound, .inr h⟩
        · exact .inr (hbad hsound)
      · exact .inr (hkeep hspoilt)

/-- In a quiet run the pools are in order, and each `Conn` that is attached has its client. -/
theorem quiet_served {workernum connnum : Nat} {σ : State}
    (h : Via State.step Quiet (State.start workernum connnum) σ) :
    Via State.step State.Sound (State.start workernum connnum) σ ∧ σ.server.Inv
      ∧ ∀ c, σ.bufev c ≠ none → clientOf σ.server c ≠ none := by
  induction h with
  | refl => exact ⟨.refl, Server.start_inv workernum connnum, fun _ h => absurd rfl h⟩
  | @tail t u e _ hok hstep ih =>
      obtain ⟨hrun, hinv, hserved⟩ := ih
      have hclient : OnClient t.server e := by
        cases e with
        | accept | read => exact trivial
        | error => exact hok.elim
      have hinv' := hinv.step hclient (step_server hstep)
      cases e with
      | accept fd =>
          rcases State.step_accept hstep with ⟨hnone, -⟩ | ⟨c, hsome, hτ, hlt, hhead, htail, -⟩
          · exact absurd hnone hok
          · -- the head of the list is free
            have hfree : clientOf t.server c = none := by
              obtain ⟨free, hpool⟩ := hinv.pooled c.1 hlt
              rcases hpool.getFreeConn with hget | ⟨q, rest, hget, hlist, -⟩
              · rw [Worker.GetFreeConn, hhead] at hget
                rw [if_neg fun h => htail (Option.some.inj h)] at hget
                cases hget
              · have hq : q = c.2 := by
                  rw [Worker.GetFreeConn, hhead,
                    if_neg fun h => htail (Option.some.inj h)] at hget
                  exact (Option.some.inj (Prod.mk.inj (Option.some.inj hget)).1).symm
                have hmem : c.2 ∈ free := by
                  rw [hlist, hq]
                  exact List.mem_cons_self
                exact ((hpool.mem c.2).mp hmem).2
            refine ⟨.tail (.accept fd) hrun ⟨c, hsome, hfree⟩ hstep, hinv', fun d hd => ?_⟩
            rw [hτ.clientOf]
            by_cases hdc : d = c
            · rw [hdc, Function.update_self]
              exact Option.some_ne_none _
            · rw [Function.update_of_ne hdc]
              rw [hτ.bufev, Function.update_of_ne hdc] at hd
              exact hserved d hd
      | read i p closes =>
          cases closes with
          | false =>
              have hsame := State.step_read hstep
              subst hsame
              exact ⟨hrun, hinv, hserved⟩
          | true => cases hok
      | error => exact hok.elim

/-- If `DoError` is only for `Conn`s with a client: the sockets are closed once if and only
if each accept found a free `Conn` and nothing was closed before `StopServer`. -/
theorem closed_once_iff_quiet (workernum connnum : Nat) (σ : State)
    (h : Via State.step (fun σ e => OnClient σ.server e) (State.start workernum connnum) σ) :
    σ.StopServer.ClosedOnce ↔ Via State.step Quiet (State.start workernum connnum) σ := by
  obtain ⟨hbasic, hcase⟩ := quiet_or_stale h
  constructor
  · intro hone
    rcases hcase with ⟨hclean, hrun⟩ | hspoilt
    · refine hrun.resolve_right ?_
      rintro ⟨i, hi, hfd, hnone⟩
      have hmem : (i, (σ.server.pWorker i).tail) ∈ State.conns σ.server :=
        State.mem_conns.mpr ⟨hi, (hclean.range i).tail⟩
      exact hclean.stopServer.mp hone _ hmem hfd hnone
    · have hbad := (State.Basic.foldl (State.conns σ.server) hbasic).2 hspoilt
      exact absurd hone hbad.not_closedOnce
  · intro hquiet
    obtain ⟨hrun, -, hserved⟩ := quiet_served hquiet
    have hclean : σ.Clean := hrun.invariant (State.start_clean workernum connnum)
      fun _ _ _ hc hsound hstep => (hc.step hstep).1 hsound
    exact hclean.stopServer.mpr fun c _ hfd => hserved c hfd

end CppWorkspace.LibeventServer.Sockets
