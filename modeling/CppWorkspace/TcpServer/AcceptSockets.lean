/-
# `CppWorkspace.TcpServer.AcceptSockets` — the registered sockets

`m_mapAcceptSockQueue` holds the sockets of the clients.  Two functions take one
out, and in opposite orders:

    CloseClientSocket      erase under the lock, closesocket after it
    ConnectTimeOutCheck    closesocket, then erase, both under the lock

In between, the map and the open handles differ: in the first window a socket is
open that is not in the map, in the second a handle is in the map that the
system may give to a new socket.  A new socket is pushed under the lock, so
never in the second window (`registered_sockets`).

A step is a critical section, a `closesocket` outside one, or, for a thread in
`ConnectTimeOutCheck`, one visit of the loop, with `closesocket` and `erase`
apart.  The ghost fields number the connections in the order in which the system
creates them: a handle value can name several, one after another.
-/
import CppWorkspace.Lib.Runs
import CppWorkspace.TcpServer.Contexts

namespace CppWorkspace.TcpServer.AcceptSockets

open Runs

/-! ## The map -/

/-- A `map<SOCKET,long>`: the entries in the order of their keys. -/
structure SocketMap where
  entries : List (SOCKET × Int)
  sorted : (entries.map Prod.fst).Pairwise (· < ·)

namespace SocketMap

def keys (m : SocketMap) : List SOCKET := m.entries.map Prod.fst

def empty : SocketMap := ⟨[], .nil⟩

/-- The entries with a new key in its place. -/
def place (h : SOCKET) (v : Int) : List (SOCKET × Int) → List (SOCKET × Int)
  | [] => [(h, v)]
  | e :: l => if h < e.1 then (h, v) :: e :: l else if h = e.1 then e :: l else e :: place h v l

theorem mem_place {h x : SOCKET} {v : Int} {l : List (SOCKET × Int)} :
    x ∈ (place h v l).map Prod.fst ↔ x = h ∨ x ∈ l.map Prod.fst := by
  induction l with
  | nil => simp [place]
  | cons e l ih =>
      unfold place
      split
      · simp
      · split
        · rename_i he
          simp [he]
        · rw [List.map_cons, List.mem_cons, ih, List.map_cons, List.mem_cons]
          tauto

theorem sorted_place {h : SOCKET} {v : Int} {l : List (SOCKET × Int)}
    (hl : (l.map Prod.fst).Pairwise (· < ·)) : ((place h v l).map Prod.fst).Pairwise (· < ·) := by
  induction l with
  | nil => simp [place]
  | cons e l ih =>
      rw [List.map_cons, List.pairwise_cons] at hl
      unfold place
      split
      · rename_i hlt
        rw [List.map_cons, List.map_cons, List.pairwise_cons, List.pairwise_cons]
        refine ⟨?_, hl⟩
        intro x hx
        rcases List.mem_cons.mp hx with rfl | hx
        · exact hlt
        · exact Nat.lt_trans hlt (hl.1 x hx)
      · split
        · rw [List.map_cons, List.pairwise_cons]
          exact hl
        · rename_i hlt hne
          rw [List.map_cons, List.pairwise_cons]
          refine ⟨?_, ih hl.2⟩
          intro x hx
          rcases mem_place.mp hx with rfl | hx
          · exact Nat.lt_of_le_of_ne (Nat.le_of_not_lt hlt) (Ne.symm hne)
          · exact hl.1 x hx

/-- `insert`. -/
def insert (m : SocketMap) (h : SOCKET) (v : Int) : SocketMap where
  entries := place h v m.entries
  sorted := sorted_place m.sorted

/-- `erase`. -/
def erase (m : SocketMap) (h : SOCKET) : SocketMap where
  entries := m.entries.filter fun e => e.1 ≠ h
  sorted := m.sorted.sublist (List.filter_sublist.map Prod.fst)

/-- `++pos`. -/
def next (m : SocketMap) (h : SOCKET) : Option SOCKET := m.keys.find? fun x => h < x

section
variable {m : SocketMap} {h x : SOCKET}

@[simp] theorem mem_insert {v : Int} : x ∈ (m.insert h v).keys ↔ x = h ∨ x ∈ m.keys := mem_place

@[simp] theorem mem_erase : x ∈ (m.erase h).keys ↔ x ≠ h ∧ x ∈ m.keys := by
  simp only [keys, erase, List.mem_map, List.mem_filter, decide_eq_true_eq]
  constructor
  · rintro ⟨e, ⟨he, hne⟩, rfl⟩
    exact ⟨hne, e, he, rfl⟩
  · rintro ⟨hne, e, he, rfl⟩
    exact ⟨e, ⟨he, hne⟩, rfl⟩

theorem mem_of_next (hx : m.next h = some x) : x ∈ m.keys := List.mem_of_find?_eq_some hx

theorem ne_of_next (hx : m.next h = some x) : x ≠ h := by
  have hlt : h < x := by simpa using List.find?_some hx
  exact Nat.ne_of_gt hlt

end

end SocketMap

/-! ## The critical sections -/

/-- `PushClientSocket`, and what it returns. -/
def PushClientSocket (m : SocketMap) (clientSock : SOCKET) : SocketMap × Int :=
  if clientSock ∈ m.keys then (m, 0) else (m.insert clientSock m.entries.length, 1)

/-- `CloseClientSocket`: `sock`, `NULL` if it is not in the map. -/
def CloseClientSocket (m : SocketMap) (clientSocket : SOCKET) : SocketMap × SOCKET :=
  if clientSocket ∈ m.keys then (m.erase clientSocket, clientSocket) else (m, 0)

def IsValidSocket (m : SocketMap) (socket : SOCKET) : Bool := decide (socket ∈ m.keys)

/-! ## Threads -/

/-- Where a thread stands. -/
inductive Pc
  | idle
  /-- `CloseClientSocket` has left the lock, with a `sock`. -/
  | close (sock : SOCKET)
  /-- `ConnectTimeOutCheck`, at the test of the loop. -/
  | scan (pos : Option SOCKET)
  /-- It has closed `pos->first`. -/
  | expired (pos : SOCKET)
deriving DecidableEq

/-- The map, the thread in its critical section, and the sockets. -/
structure State where
  m_mapAcceptSockQueue : SocketMap
  /-- The thread in `m_struCriSec`. -/
  m_struCriSec : Option Nat
  pc : Nat → Pc
  /-- What `IsValidSocket` has told the thread. -/
  valid : Nat → Bool
  /-- The open handles, and the connection of each. -/
  opened : SOCKET → Option Nat
  /-- How many connections were created. -/
  made : Nat
  handle : Nat → SOCKET
  pushed : Nat → Bool
  /-- The connections that a `CloseClientSocket` has taken out. -/
  taken : List Nat
  /-- The connections closed so far, each as often as it was. -/
  closed : List Nat
  /-- The handles that `closesocket` was applied to when they were no open
  pushed connection. -/
  astray : List SOCKET

/-- What happens to the sockets, and to the map of them. -/
inductive Act
  /-- The system makes a socket. -/
  | create (h : SOCKET)
  /-- `PushClientSocket` of the connection `c`. -/
  | push (t c : Nat)
  | isValid (t : Nat) (h : SOCKET)
  | close (t : Nat) (h : SOCKET)
  | closesocket (t : Nat)
  | check (t : Nat)
  /-- Whether `pos->first` has timed out. -/
  | visit (t : Nat) (timeout : Bool)
  | erase (t : Nat)
deriving DecidableEq

namespace State

def start : State where
  m_mapAcceptSockQueue := .empty
  m_struCriSec := none
  pc _ := .idle
  valid _ := false
  opened _ := none
  made := 0
  handle _ := 0
  pushed _ := false
  taken := []
  closed := []
  astray := []

/-- Thread `t` goes on. -/
def goto (s : State) (t : Nat) (x : Pc) : State := { s with pc := Function.update s.pc t x }

/-- `closesocket(h)`. -/
def closesocket (s : State) (h : SOCKET) : State :=
  match s.opened h with
  | none => { s with astray := h :: s.astray }
  | some c =>
      { s with
        opened := Function.update s.opened h none
        closed := c :: s.closed
        astray := if s.pushed c = true then s.astray else h :: s.astray }

/-- A thread that is not in a function and may enter the lock. -/
def Free (s : State) (t : Nat) : Prop := s.pc t = .idle ∧ s.m_struCriSec = none

instance (s : State) (t : Nat) : Decidable (s.Free t) :=
  inferInstanceAs (Decidable (_ ∧ _))

/-- A created connection is pushed once at most, and a handle is not given out
again before it is closed. -/
def step (s : State) : Act → Option State
  | .create h =>
      if s.opened h = none then
        some { s with
          opened := Function.update s.opened h (some s.made)
          handle := Function.update s.handle s.made h
          made := s.made + 1 }
      else none
  | .push t c =>
      if s.Free t ∧ c < s.made ∧ s.pushed c = false then
        some { s with
          m_mapAcceptSockQueue := (PushClientSocket s.m_mapAcceptSockQueue (s.handle c)).1
          pushed := Function.update s.pushed c true }
      else none
  | .isValid t h =>
      if s.Free t then
        some { s with valid := Function.update s.valid t (IsValidSocket s.m_mapAcceptSockQueue h) }
      else none
  | .close t h =>
      if s.Free t then
        let r := CloseClientSocket s.m_mapAcceptSockQueue h
        some (({ s with
          m_mapAcceptSockQueue := r.1
          taken := (if h ∈ s.m_mapAcceptSockQueue.keys then (s.opened h).toList else [])
            ++ s.taken } : State).goto t (if r.2 ≠ 0 then .close r.2 else .idle))
      else none
  | .closesocket t =>
      match s.pc t with
      | .close h => some ((s.closesocket h).goto t .idle)
      | _ => none
  | .check t =>
      if s.Free t then
        some (({ s with m_struCriSec := some t } : State).goto t
          (.scan s.m_mapAcceptSockQueue.keys.head?))
      else none
  | .visit t timeout =>
      match s.pc t with
      | .scan none => some (({ s with m_struCriSec := none } : State).goto t .idle)
      | .scan (some h) =>
          if timeout = true then some ((s.closesocket h).goto t (.expired h))
          else some (s.goto t (.scan (s.m_mapAcceptSockQueue.next h)))
      | _ => none
  | .erase t =>
      match s.pc t with
      | .expired h =>
          some (({ s with m_mapAcceptSockQueue := s.m_mapAcceptSockQueue.erase h } : State).goto t
            (.scan (s.m_mapAcceptSockQueue.next h)))
      | _ => none

/-- A pushed connection that nobody has closed or taken out. -/
def Registered (s : State) (c : Nat) : Prop :=
  s.pushed c = true ∧ c ∉ s.closed ∧ c ∉ s.taken

end State

/-! ## The two windows -/

/-- The thread is in `ConnectTimeOutCheck`. -/
def Pc.inLock : Pc → Bool
  | .scan _ | .expired _ => true
  | .idle | .close _ => false

/-- The map and the open handles: they differ by the connections that were taken
out (`closing`), and by the handle between `closesocket` and `erase` (`expired`),
which no pushed connection has. -/
structure State.Inv (s : State) : Prop where
  lock : ∀ t, (s.pc t).inLock = true ↔ s.m_struCriSec = some t
  pos : ∀ t h, s.pc t = .scan (some h) → h ∈ s.m_mapAcceptSockQueue.keys
  expired : ∀ t h, s.pc t = .expired h → ∀ c, s.opened h = some c → s.pushed c = false
  keys : ∀ h ∈ s.m_mapAcceptSockQueue.keys,
    (∃ t, s.pc t = .expired h) ∨ ∃ c, s.opened h = some c ∧ s.pushed c = true ∧ c ∉ s.taken
  registered : ∀ c, s.Registered c → s.handle c ∈ s.m_mapAcceptSockQueue.keys
  closing : ∀ t h, s.pc t = .close h →
    ∃ c, s.opened h = some c ∧ s.pushed c = true ∧ c ∈ s.taken
  apart : ∀ t t' h, s.pc t = .close h → s.pc t' = .close h → t = t'
  opened : ∀ h c, s.opened h = some c ↔ c < s.made ∧ s.handle c = h ∧ c ∉ s.closed
  pushed : ∀ c, s.pushed c = true → c < s.made
  taken : ∀ c ∈ s.taken, s.pushed c = true
  closed : ∀ c ∈ s.closed, s.pushed c = true
  nodup : s.closed.Nodup
  astray : s.astray = []

namespace State

theorem start_inv : start.Inv where
  lock := by simp [start, Pc.inLock]
  pos := by simp [start]
  expired := by simp [start]
  keys := by simp [start, SocketMap.keys, SocketMap.empty]
  registered := by simp [start, Registered]
  closing := by simp [start]
  apart := by simp [start]
  opened := by simp [start]
  pushed := by simp [start]
  taken := by simp [start]
  closed := by simp [start]
  nodup := List.nodup_nil
  astray := rfl

section
variable {s u : State} {t : Nat} {h : SOCKET}

theorem Inv.keys_free (hs : s.Inv) (hfree : s.m_struCriSec = none)
    (hh : h ∈ s.m_mapAcceptSockQueue.keys) :
    ∃ c, s.opened h = some c ∧ s.pushed c = true ∧ c ∉ s.taken := by
  rcases hs.keys h hh with ⟨t, ht⟩ | hc
  · have hlock := (hs.lock t).mp (by rw [ht]; rfl)
    rw [hfree] at hlock
    cases hlock
  · exact hc

theorem goto_pc {x y : Pc} {r : Nat} :
    (s.goto t x).pc r = y ↔ r = t ∧ x = y ∨ r ≠ t ∧ s.pc r = y := by
  by_cases hr : r = t
  · subst hr
    simp [goto]
  · simp [goto, hr]

/-- A thread that is not in `ConnectTimeOutCheck` before nor after. -/
theorem Inv.lock_goto (hs : s.Inv) {x : Pc} (hpc : (s.pc t).inLock = false)
    (hx : x.inLock = false) (r : Nat) :
    ((s.goto t x).pc r).inLock = true ↔ s.m_struCriSec = some r := by
  rw [← hs.lock]
  rcases goto_pc.mp (rfl : (s.goto t x).pc r = _) with ⟨rfl, hr⟩ | ⟨-, hr⟩
  · rw [← hr, hx, hpc]
  · rw [← hr]

/-- The system makes a socket: its handle may be the one of the second window. -/
theorem Inv.create (hs : s.Inv) (hstep : s.step (.create h) = some u) : u.Inv := by
  obtain ⟨hnone, he⟩ := Option.ite_none_right_eq_some.mp hstep
  cases he
  have hnew : ∀ c, s.pushed c = true → c ≠ s.made := fun c hc => Nat.ne_of_lt (hs.pushed c hc)
  have hopen : ∀ h' c, s.opened h' = some c → h' ≠ h := by
    rintro h' c hc rfl
    rw [hnone] at hc
    cases hc
  refine { hs with
    expired := ?_, keys := ?_, registered := ?_, closing := ?_, opened := ?_, pushed := ?_ }
  · intro t h' ht c hc
    by_cases hh : h' = h
    · subst hh
      obtain rfl : s.made = c := by simpa using hc
      by_contra hp
      exact hnew _ (by simpa using hp) rfl
    · exact hs.expired t h' ht c (by simpa [hh] using hc)
  · intro h' hh'
    rcases hs.keys h' hh' with ht | ⟨c, hc, hp⟩
    · exact .inl ht
    · exact .inr ⟨c, by simpa [hopen h' c hc] using hc, hp⟩
  · intro c hc
    show Function.update s.handle s.made h c ∈ _
    rw [Function.update_of_ne (hnew c hc.1)]
    exact hs.registered c hc
  · intro t h' ht
    obtain ⟨c, hc, hp⟩ := hs.closing t h' ht
    exact ⟨c, by simpa [hopen h' c hc] using hc, hp⟩
  · intro h' c
    by_cases hc : c = s.made
    · subst hc
      have hclosed : s.made ∉ s.closed := fun hmem => hnew _ (hs.closed _ hmem) rfl
      by_cases hh : h' = h
      · subst hh
        simp [hclosed]
      · have hne : s.opened h' ≠ some s.made :=
          fun hc => absurd ((hs.opened _ _).mp hc).1 (by omega)
        simp [hh, hne, Ne.symm hh]
    · have hold := hs.opened h' c
      by_cases hh : h' = h
      · subst hh
        have hne : s.made ≠ c := Ne.symm hc
        rw [hnone] at hold
        simp only [reduceCtorEq, false_iff] at hold
        simp only [Function.update_self, Option.some.injEq, hne, false_iff,
          Function.update_of_ne hc]
        intro hcon
        exact hold ⟨by omega, hcon.2⟩
      · simp only [Function.update_of_ne hh, Function.update_of_ne hc, hold]
        constructor
        · rintro ⟨hlt, hcon⟩
          exact ⟨by omega, hcon⟩
        · rintro ⟨hlt, hcon⟩
          exact ⟨by omega, hcon⟩
  · intro c hc
    have hlt := hs.pushed c hc
    show c < s.made + 1
    omega

/-- A created connection is pushed, while no thread is between `closesocket` and `erase`. -/
theorem Inv.push (hs : s.Inv) {c : Nat} (hstep : s.step (.push t c) = some u) : u.Inv := by
  obtain ⟨⟨hfree, hmade, hnew⟩, he⟩ := Option.ite_none_right_eq_some.mp hstep
  cases he
  have hopened : s.opened (s.handle c) = some c := by
    rw [hs.opened]
    refine ⟨hmade, rfl, fun hmem => ?_⟩
    rw [hs.closed c hmem] at hnew
    cases hnew
  have hkey : s.handle c ∉ s.m_mapAcceptSockQueue.keys := by
    intro hmem
    obtain ⟨c', hc', hp, -⟩ := hs.keys_free hfree.2 hmem
    rw [hopened] at hc'
    cases hc'
    rw [hnew] at hp
    cases hp
  have hmap : (PushClientSocket s.m_mapAcceptSockQueue (s.handle c)).1
      = s.m_mapAcceptSockQueue.insert (s.handle c) s.m_mapAcceptSockQueue.entries.length := by
    rw [PushClientSocket, if_neg hkey]
  have hmono : ∀ c', s.pushed c' = true → Function.update s.pushed c true c' = true := by
    intro c' hc'
    by_cases hcc : c' = c
    · rw [hcc, Function.update_self]
    · rwa [Function.update_of_ne hcc]
  have hnotlock : ∀ r h', s.pc r ≠ .expired h' := by
    intro r h' hr
    have hlock := (hs.lock r).mp (by rw [hr]; rfl)
    rw [hfree.2] at hlock
    cases hlock
  rw [hmap]
  refine { hs with
    pos := ?_, expired := ?_, keys := ?_, registered := ?_, closing := ?_, pushed := ?_,
    taken := ?_, closed := ?_ }
  · intro r h' hr
    exact SocketMap.mem_insert.mpr (.inr (hs.pos r h' hr))
  · intro r h' hr
    exact absurd hr (hnotlock r h')
  · intro h' hh'
    rcases SocketMap.mem_insert.mp hh' with rfl | hh'
    · refine .inr ⟨c, hopened, Function.update_self .., fun hmem => ?_⟩
      rw [hs.taken c hmem] at hnew
      cases hnew
    · obtain ⟨c', hc', hp, ht⟩ := hs.keys_free hfree.2 hh'
      exact .inr ⟨c', hc', hmono c' hp, ht⟩
  · rintro c' ⟨hp, hrest⟩
    by_cases hcc : c' = c
    · rw [hcc]
      exact SocketMap.mem_insert.mpr (.inl rfl)
    · exact SocketMap.mem_insert.mpr
        (.inr (hs.registered c' ⟨by simpa [hcc] using hp, hrest⟩))
  · intro r h' hr
    obtain ⟨c', hc', hp, ht⟩ := hs.closing r h' hr
    exact ⟨c', hc', hmono c' hp, ht⟩
  · intro c' hp
    by_cases hcc : c' = c
    · rw [hcc]
      exact hmade
    · exact hs.pushed c' (by simpa [hcc] using hp)
  · exact fun c' hc' => hmono c' (hs.taken c' hc')
  · exact fun c' hc' => hmono c' (hs.closed c' hc')

/-- A thread goes on, in or out of the lock; an entry that it has closed is no
longer in the map. -/
theorem Inv.move (hs : s.Inv) {x : Pc} {l : Option Nat} (hx : ∀ h, x ≠ .close h ∧ x ≠ .expired h)
    (hpc : ∀ h ∈ s.m_mapAcceptSockQueue.keys, s.pc t ≠ .expired h)
    (hpos : ∀ h, x = .scan (some h) → h ∈ s.m_mapAcceptSockQueue.keys)
    (hlock : ∀ r, ((s.goto t x).pc r).inLock = true ↔ l = some r) :
    (({ s with m_struCriSec := l } : State).goto t x).Inv := by
  refine { hs with
    lock := hlock, pos := ?_, expired := ?_, keys := ?_, closing := ?_, apart := ?_ }
  · intro r h hr
    rcases goto_pc.mp hr with ⟨-, hr⟩ | ⟨-, hr⟩
    · exact hpos h hr
    · exact hs.pos r h hr
  · intro r h hr
    rcases goto_pc.mp hr with ⟨-, hr⟩ | ⟨-, hr⟩
    · exact absurd hr (hx h).2
    · exact hs.expired r h hr
  · intro h hh
    rcases hs.keys h hh with ⟨r, hr⟩ | hc
    · refine .inl ⟨r, goto_pc.mpr (.inr ⟨?_, hr⟩)⟩
      rintro rfl
      exact hpc h hh hr
    · exact .inr hc
  · intro r h hr
    rcases goto_pc.mp hr with ⟨-, hr⟩ | ⟨-, hr⟩
    · exact absurd hr (hx h).1
    · exact hs.closing r h hr
  · intro r r' h hr hr'
    rcases goto_pc.mp hr with ⟨-, hr⟩ | ⟨-, hr⟩
    · exact absurd hr (hx h).1
    · rcases goto_pc.mp hr' with ⟨-, hr'⟩ | ⟨-, hr'⟩
      · exact absurd hr' (hx h).1
      · exact hs.apart r r' h hr hr'

theorem Inv.leave (hs : s.Inv) (hpc : (s.pc t).inLock = false) : (s.goto t .idle).Inv := by
  refine hs.move (by simp) ?_ (by simp) (hs.lock_goto hpc rfl)
  intro h _ he
  rw [he] at hpc
  cases hpc

theorem Inv.close (hs : s.Inv) (hstep : s.step (.close t h) = some u) : u.Inv := by
  obtain ⟨hfree, he⟩ := Option.ite_none_right_eq_some.mp hstep
  cases he
  have hpc : (s.pc t).inLock = false := by
    rw [hfree.1]
    rfl
  by_cases hmem : h ∈ s.m_mapAcceptSockQueue.keys
  · -- the socket is taken out, still open
    obtain ⟨c, hc, hp, ht⟩ := hs.keys_free hfree.2 hmem
    obtain ⟨-, hhandle, hclosed⟩ := (hs.opened h c).mp hc
    have hmap : CloseClientSocket s.m_mapAcceptSockQueue h = (s.m_mapAcceptSockQueue.erase h, h) :=
      if_pos hmem
    have htaken : (if h ∈ s.m_mapAcceptSockQueue.keys then (s.opened h).toList else []) ++ s.taken
        = c :: s.taken := by
      rw [if_pos hmem, hc]
      rfl
    have hnotlock : ∀ r h', s.pc r ≠ .expired h' ∧ ∀ pos, s.pc r ≠ .scan pos := by
      intro r h'
      have hlock := hs.lock r
      rw [hfree.2] at hlock
      constructor
      · intro hr
        rw [hr] at hlock
        cases hlock.mp rfl
      · intro pos hr
        rw [hr] at hlock
        cases hlock.mp rfl
    obtain ⟨x, hx, hto, hclose⟩ : ∃ x, (if h ≠ 0 then Pc.close h else Pc.idle) = x
        ∧ x.inLock = false ∧ ∀ h', x = .close h' → h' = h := by
      refine ⟨_, rfl, ?_⟩
      split
      · exact ⟨rfl, fun h' he => (Pc.close.inj he).symm⟩
      · refine ⟨rfl, fun h' he => ?_⟩
        cases he
    rw [hmap, htaken]
    dsimp only
    rw [hx]
    refine { hs with
      lock := hs.lock_goto hpc hto, pos := ?_, expired := ?_, keys := ?_, registered := ?_,
      closing := ?_, apart := ?_, taken := ?_ }
    · intro r h' hr
      rcases goto_pc.mp hr with ⟨-, rfl⟩ | ⟨-, hr⟩
      · cases hto
      · exact absurd hr ((hnotlock r h').2 _)
    · intro r h' hr
      rcases goto_pc.mp hr with ⟨-, rfl⟩ | ⟨-, hr⟩
      · cases hto
      · exact absurd hr (hnotlock r h').1
    · intro h' hh'
      obtain ⟨hne, hh'⟩ := SocketMap.mem_erase.mp hh'
      obtain ⟨c', hc', hp', ht'⟩ := hs.keys_free hfree.2 hh'
      refine .inr ⟨c', hc', hp', fun hin => ?_⟩
      rcases List.mem_cons.mp hin with rfl | hin
      · exact hne (((hs.opened h' c').mp hc').2.1.symm.trans hhandle)
      · exact ht' hin
    · rintro c' ⟨hp', hcl', ht'⟩
      refine SocketMap.mem_erase.mpr ⟨?_, hs.registered c'
        ⟨hp', hcl', fun hin => ht' (List.mem_cons_of_mem c hin)⟩⟩
      intro hh
      have hopen := (hs.opened h c').mpr ⟨hs.pushed c' hp', hh, hcl'⟩
      rw [hc] at hopen
      cases hopen
      exact ht' List.mem_cons_self
    · intro r h' hr
      rcases goto_pc.mp hr with ⟨-, hr⟩ | ⟨-, hr⟩
      · rw [hclose h' hr]
        exact ⟨c, hc, hp, List.mem_cons_self⟩
      · obtain ⟨c', hc', hp', ht'⟩ := hs.closing r h' hr
        exact ⟨c', hc', hp', List.mem_cons_of_mem c ht'⟩
    · -- nobody else closes it: it was not taken out before
      have hnone : ∀ r, s.pc r ≠ .close h := by
        intro r hr
        obtain ⟨c', hc', -, ht'⟩ := hs.closing r h hr
        rw [hc] at hc'
        cases hc'
        exact ht ht'
      intro r r' h' hr hr'
      rcases goto_pc.mp hr with ⟨hrt, hr⟩ | ⟨-, hr⟩
      · rcases goto_pc.mp hr' with ⟨hrt', -⟩ | ⟨-, hr'⟩
        · exact hrt.trans hrt'.symm
        · rw [hclose h' hr] at hr'
          exact absurd hr' (hnone r')
      · rcases goto_pc.mp hr' with ⟨-, hr'⟩ | ⟨-, hr'⟩
        · rw [hclose h' hr'] at hr
          exact absurd hr (hnone r)
        · exact hs.apart r r' h' hr hr'
    · intro c' hc'
      rcases List.mem_cons.mp hc' with rfl | hc'
      · exact hp
      · exact hs.taken c' hc'
  · have hmap : CloseClientSocket s.m_mapAcceptSockQueue h = (s.m_mapAcceptSockQueue, 0) :=
      if_neg hmem
    rw [hmap, if_neg hmem]
    exact hs.leave hpc

theorem closesocket_eq {c : Nat} (hc : s.opened h = some c) (hp : s.pushed c = true) :
    s.closesocket h
      = { s with opened := Function.update s.opened h none, closed := c :: s.closed } := by
  simp only [closesocket, hc, hp, if_true]

theorem Inv.opened_closesocket (hs : s.Inv) {c : Nat} (hc : s.opened h = some c) (h' : SOCKET)
    (c' : Nat) : Function.update s.opened h none h' = some c'
      ↔ c' < s.made ∧ s.handle c' = h' ∧ c' ∉ c :: s.closed := by
  have hold := hs.opened h' c'
  have hcur := (hs.opened h c).mp hc
  rw [List.mem_cons, not_or]
  by_cases hh : h' = h
  · subst hh
    rw [hc] at hold
    rw [Function.update_self]
    constructor
    · intro hn
      cases hn
    · rintro ⟨hlt, hhandle, hne, hcl⟩
      exact absurd (Option.some.inj (hold.mpr ⟨hlt, hhandle, hcl⟩)).symm hne
  · rw [Function.update_of_ne hh, hold]
    constructor
    · rintro ⟨hlt, hhandle, hcl⟩
      refine ⟨hlt, hhandle, ?_, hcl⟩
      rintro rfl
      exact hh (hhandle.symm.trans hcur.2.1)
    · rintro ⟨hlt, hhandle, -, hcl⟩
      exact ⟨hlt, hhandle, hcl⟩

theorem Inv.closesocket (hs : s.Inv) (hstep : s.step (.closesocket t) = some u) : u.Inv := by
  cases hpc : s.pc t with
  | close h =>
      simp only [step, hpc] at hstep
      cases hstep
      obtain ⟨c, hc, hp, ht⟩ := hs.closing t h hpc
      have hcl := ((hs.opened h c).mp hc).2.2
      have hlock : (s.pc t).inLock = false := by
        rw [hpc]
        rfl
      rw [closesocket_eq hc hp]
      refine { hs with
        lock := hs.lock_goto hlock rfl, pos := ?_, expired := ?_, keys := ?_, registered := ?_,
        closing := ?_, apart := ?_, opened := hs.opened_closesocket hc, closed := ?_,
        nodup := List.nodup_cons.mpr ⟨hcl, hs.nodup⟩ }
      · intro r h' hr
        rcases goto_pc.mp hr with ⟨-, hr⟩ | ⟨-, hr⟩
        · cases hr
        · exact hs.pos r h' hr
      · intro r h' hr c' hc'
        rcases goto_pc.mp hr with ⟨-, hr⟩ | ⟨-, hr⟩
        · cases hr
        · obtain ⟨hlt, hh, hncl⟩ := (hs.opened_closesocket hc h' c').mp hc'
          exact hs.expired r h' hr c' ((hs.opened h' c').mpr
            ⟨hlt, hh, fun hin => hncl (List.mem_cons_of_mem c hin)⟩)
      · intro h' hh'
        rcases hs.keys h' hh' with ⟨r, hr⟩ | ⟨c', hc', hp', ht'⟩
        · refine .inl ⟨r, goto_pc.mpr (.inr ⟨?_, hr⟩)⟩
          rintro rfl
          rw [hpc] at hr
          cases hr
        · have hne : h' ≠ h := by
            rintro rfl
            rw [hc] at hc'
            cases hc'
            exact ht' ht
          exact .inr ⟨c', (Function.update_of_ne hne ..).trans hc', hp', ht'⟩
      · rintro c' ⟨hp', hcl', ht'⟩
        exact hs.registered c' ⟨hp', fun hin => hcl' (List.mem_cons_of_mem c hin), ht'⟩
      · intro r h' hr
        rcases goto_pc.mp hr with ⟨-, hr⟩ | ⟨hrt, hr⟩
        · cases hr
        · obtain ⟨c', hc', hp', ht'⟩ := hs.closing r h' hr
          have hne : h' ≠ h := by
            rintro rfl
            exact hrt (hs.apart r t h' hr hpc)
          exact ⟨c', (Function.update_of_ne hne ..).trans hc', hp', ht'⟩
      · intro r r' h' hr hr'
        rcases goto_pc.mp hr with ⟨-, hr⟩ | ⟨-, hr⟩
        · cases hr
        · rcases goto_pc.mp hr' with ⟨-, hr'⟩ | ⟨-, hr'⟩
          · cases hr'
          · exact hs.apart r r' h' hr hr'
      · intro c' hc'
        rcases List.mem_cons.mp hc' with rfl | hc'
        · exact hp
        · exact hs.closed c' hc'
  | _ =>
      simp only [step, hpc] at hstep
      cases hstep

theorem Inv.alone (hs : s.Inv) {r : Nat} (ht : (s.pc t).inLock = true)
    (hr : (s.pc r).inLock = true) : r = t := by
  have h₁ := (hs.lock t).mp ht
  have h₂ := (hs.lock r).mp hr
  rw [h₁] at h₂
  exact (Option.some.inj h₂).symm

theorem Inv.check (hs : s.Inv) (hstep : s.step (.check t) = some u) : u.Inv := by
  obtain ⟨hfree, he⟩ := Option.ite_none_right_eq_some.mp hstep
  cases he
  refine hs.move (by simp) ?_ ?_ ?_
  · intro h _ he
    rw [hfree.1] at he
    cases he
  · intro h he
    exact List.mem_of_mem_head? (Pc.scan.inj he)
  · intro r
    have hnone := hs.lock r
    rw [hfree.2] at hnone
    rcases goto_pc.mp (rfl : (s.goto t _).pc r = _) with ⟨rfl, hr⟩ | ⟨hne, hr⟩
    · rw [← hr]
      simp [Pc.inLock]
    · rw [← hr, hnone]
      simp [Ne.symm hne]

theorem Inv.timeout (hs : s.Inv) (hpc : s.pc t = .scan (some h)) :
    ((s.closesocket h).goto t (.expired h)).Inv := by
  have hlock : (s.pc t).inLock = true := by
    rw [hpc]
    rfl
  -- the entry is one of an open connection
  obtain ⟨c, hc, hp, ht⟩ : ∃ c, s.opened h = some c ∧ s.pushed c = true ∧ c ∉ s.taken := by
    rcases hs.keys h (hs.pos t h hpc) with ⟨r, hr⟩ | hc
    · obtain rfl := hs.alone hlock (r := r) (by rw [hr]; rfl)
      rw [hpc] at hr
      cases hr
    · exact hc
  have hcl := ((hs.opened h c).mp hc).2.2
  rw [closesocket_eq hc hp]
  refine { hs with
    lock := ?_, pos := ?_, expired := ?_, keys := ?_, registered := ?_, closing := ?_,
    apart := ?_, opened := hs.opened_closesocket hc, closed := ?_,
    nodup := List.nodup_cons.mpr ⟨hcl, hs.nodup⟩ }
  · intro r
    show ((s.goto t (.expired h)).pc r).inLock = true ↔ s.m_struCriSec = some r
    rw [← hs.lock]
    rcases goto_pc.mp (rfl : (s.goto t (.expired h)).pc r = _) with ⟨rfl, hr⟩ | ⟨-, hr⟩
    · rw [← hr, hlock]
      rfl
    · rw [← hr]
  · intro r h' hr
    rcases goto_pc.mp hr with ⟨-, hr⟩ | ⟨-, hr⟩
    · cases hr
    · exact hs.pos r h' hr
  · intro r h' hr c' hc'
    rcases goto_pc.mp hr with ⟨-, hr⟩ | ⟨hrt, hr⟩
    · cases hr
      have hgone : Function.update s.opened h none h = none := Function.update_self ..
      exact absurd (hgone.symm.trans hc') (by simp)
    · exact absurd (hs.alone hlock (by rw [hr]; rfl)) hrt
  · intro h' hh'
    by_cases hne : h' = h
    · subst hne
      exact .inl ⟨t, goto_pc.mpr (.inl ⟨rfl, rfl⟩)⟩
    · rcases hs.keys h' hh' with ⟨r, hr⟩ | ⟨c', hc', hp', ht'⟩
      · obtain rfl := hs.alone hlock (r := r) (by rw [hr]; rfl)
        rw [hpc] at hr
        cases hr
      · exact .inr ⟨c', (Function.update_of_ne hne ..).trans hc', hp', ht'⟩
  · rintro c' ⟨hp', hcl', ht'⟩
    exact hs.registered c' ⟨hp', fun hin => hcl' (List.mem_cons_of_mem c hin), ht'⟩
  · intro r h' hr
    rcases goto_pc.mp hr with ⟨-, hr⟩ | ⟨-, hr⟩
    · cases hr
    · obtain ⟨c', hc', hp', ht'⟩ := hs.closing r h' hr
      have hne : h' ≠ h := by
        rintro rfl
        rw [hc] at hc'
        cases hc'
        exact ht ht'
      exact ⟨c', (Function.update_of_ne hne ..).trans hc', hp', ht'⟩
  · intro r r' h' hr hr'
    rcases goto_pc.mp hr with ⟨-, hr⟩ | ⟨-, hr⟩
    · cases hr
    · rcases goto_pc.mp hr' with ⟨-, hr'⟩ | ⟨-, hr'⟩
      · cases hr'
      · exact hs.apart r r' h' hr hr'
  · intro c' hc'
    rcases List.mem_cons.mp hc' with rfl | hc'
    · exact hp
    · exact hs.closed c' hc'

theorem Inv.scan_lock (hs : s.Inv) {pos : Option SOCKET} (hlock : (s.pc t).inLock = true)
    (r : Nat) : ((s.goto t (.scan pos)).pc r).inLock = true ↔ s.m_struCriSec = some r := by
  rw [← hs.lock]
  rcases goto_pc.mp (rfl : (s.goto t (.scan pos)).pc r = _) with ⟨rfl, hr⟩ | ⟨-, hr⟩
  · rw [← hr, hlock]
    rfl
  · rw [← hr]

theorem Inv.visit (hs : s.Inv) {timeout : Bool} (hstep : s.step (.visit t timeout) = some u) :
    u.Inv := by
  cases hpc : s.pc t with
  | scan pos =>
      have hlock : (s.pc t).inLock = true := by
        rw [hpc]
        rfl
      cases pos with
      | none =>
          simp only [step, hpc] at hstep
          cases hstep
          refine hs.move (by simp) (by simp [hpc]) (by simp) ?_
          intro r
          rcases goto_pc.mp (rfl : (s.goto t .idle).pc r = _) with ⟨rfl, hr⟩ | ⟨hne, hr⟩
          · rw [← hr]
            simp [Pc.inLock]
          · rw [← hr]
            have hout : (s.pc r).inLock ≠ true := fun hin => hne (hs.alone hlock hin)
            simp [hout]
      | some h =>
          simp only [step, hpc] at hstep
          split at hstep
          · cases hstep
            exact hs.timeout hpc
          · cases hstep
            exact hs.move (by simp) (by simp [hpc])
              (fun h' he => SocketMap.mem_of_next (Pc.scan.inj he)) (hs.scan_lock hlock)
  | _ =>
      simp only [step, hpc] at hstep
      cases hstep

/-- The second window ends: nothing was pushed under the handle. -/
theorem Inv.erase (hs : s.Inv) (hstep : s.step (.erase t) = some u) : u.Inv := by
  cases hpc : s.pc t with
  | expired h =>
      simp only [step, hpc] at hstep
      cases hstep
      have hlock : (s.pc t).inLock = true := by
        rw [hpc]
        rfl
      have herased :
          ({ s with m_mapAcceptSockQueue := s.m_mapAcceptSockQueue.erase h } : State).Inv := by
        refine { hs with pos := ?_, keys := ?_, registered := ?_ }
        · intro r h' hr
          obtain rfl := hs.alone hlock (r := r) (by rw [hr]; rfl)
          rw [hpc] at hr
          cases hr
        · intro h' hh'
          exact hs.keys h' (SocketMap.mem_erase.mp hh').2
        · intro c hc
          refine SocketMap.mem_erase.mpr ⟨?_, hs.registered c hc⟩
          intro hh
          have hopen := (hs.opened h c).mpr ⟨hs.pushed c hc.1, hh, hc.2.1⟩
          have hnot := hs.expired t h hpc c hopen
          rw [hc.1] at hnot
          cases hnot
      refine herased.move (by simp) ?_ ?_ (hs.scan_lock hlock)
      · intro h' hh' he
        rw [hpc] at he
        cases he
        exact (SocketMap.mem_erase.mp hh').1 rfl
      · intro h' he
        have hnext := Pc.scan.inj he
        exact SocketMap.mem_erase.mpr
          ⟨SocketMap.ne_of_next hnext, SocketMap.mem_of_next hnext⟩
  | _ =>
      simp only [step, hpc] at hstep
      cases hstep

theorem Inv.step (hs : s.Inv) {a : Act} (hstep : s.step a = some u) : u.Inv := by
  cases a with
  | create h => exact hs.create hstep
  | push t c => exact hs.push hstep
  | isValid t h =>
      obtain ⟨-, he⟩ := Option.ite_none_right_eq_some.mp hstep
      cases he
      exact { hs with }
  | close t h => exact hs.close hstep
  | closesocket t => exact hs.closesocket hstep
  | check t => exact hs.check hstep
  | visit t timeout => exact hs.visit hstep
  | erase t => exact hs.erase hstep

end

/-! ## Every run -/

/-- With the lock free, the map holds exactly the registered connections. -/
def Exact (s : State) : Prop :=
  (∀ c, s.Registered c → s.handle c ∈ s.m_mapAcceptSockQueue.keys)
    ∧ ∀ h ∈ s.m_mapAcceptSockQueue.keys, ∃ c, s.Registered c ∧ s.handle c = h
      ∧ ∀ c', s.Registered c' → s.handle c' = h → c' = c

theorem Inv.exact {s : State} (hs : s.Inv) (hfree : s.m_struCriSec = none) : s.Exact := by
  refine ⟨hs.registered, fun h hh => ?_⟩
  obtain ⟨c, hc, hp, ht⟩ := hs.keys_free hfree hh
  obtain ⟨-, hhandle, hcl⟩ := (hs.opened h c).mp hc
  refine ⟨c, ⟨hp, hcl, ht⟩, hhandle, ?_⟩
  rintro c' ⟨hp', hcl', -⟩ hh'
  have hopen := (hs.opened h c').mpr ⟨hs.pushed c' hp', hh', hcl'⟩
  rw [hc] at hopen
  exact (Option.some.inj hopen).symm

end State

/-- **The registered sockets.**  In every interleaving, each connection is closed
once at most, `closesocket` meets open pushed connections only, and with the
lock free the map holds exactly the connections that nobody has closed or taken
out. -/
theorem registered_sockets (s : State) (h : Via State.step (fun _ _ => True) State.start s) :
    s.closed.Nodup ∧ s.astray = [] ∧ (s.m_struCriSec = none → s.Exact) := by
  have hs : s.Inv := h.invariant State.start_inv fun _ _ _ hinv _ hstep => hinv.step hstep
  exact ⟨hs.nodup, hs.astray, hs.exact⟩

/-- The handle 5 is given out again between `closesocket` and `erase`; the handle
7 is taken out by another thread. -/
theorem registered_sockets_reuse :
    ∃ s, Via State.step (fun _ _ => True) State.start s
      ∧ (s.closed = [1, 0] ∧ s.m_mapAcceptSockQueue.keys = [5] ∧ s.handle 2 = 5)
      ∧ s.closed.Nodup ∧ s.astray = [] ∧ (s.m_struCriSec = none → s.Exact) := by
  obtain ⟨s, hs, hend⟩ : ∃ s, Via State.step (fun _ _ => True) State.start s
      ∧ s.closed = [1, 0] ∧ s.m_mapAcceptSockQueue.keys = [5] ∧ s.handle 2 = 5 :=
    exists_via_of_execIf
      [.create 5, .push 0 0, .create 7, .push 1 1, .check 2, .visit 2 true, .create 5, .erase 2,
        .visit 2 false, .visit 2 false, .push 0 2, .close 1 7, .isValid 0 7, .closesocket 1]
      (by decide +kernel)
  exact ⟨s, hs, hend, registered_sockets s hs⟩

end CppWorkspace.TcpServer.AcceptSockets
