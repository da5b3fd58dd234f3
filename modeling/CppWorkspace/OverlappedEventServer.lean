/-
# `CppWorkspace.OverlappedEventServer` — the server of the overlapped model with events

`ConnThread` adds a client, `WorkerThread` waits for the events and removes it.  Three
tables belong together:

    Event[k], OpInfo[k]      the entries, 0 .. EventTotal-1
    OpData.*[i]              the slots: the overlapped block, the buffer, the flag

`OpInfo[k].dwIndex` is the slot of entry `k`.  `AddArray` takes a free slot and goes behind
the last entry; `CompressArray` frees the slot and moves the last entry into the gap.

The test in `AddArray` lets a full table through; up to there the tables are in order after
any calls (`slots_tied`).  `AddArray` returns what the first `WSARecv` returns, and the
entry of a client whose receive is refused stays in the tables (`rejected_clients`).

Conventions: both functions run inside `csOpArray`, so a call is one step; `inBounds` says
that no index was outside an array (a ghost field), and what lies there is not described; a
pointer to `DataBuf[i]`, `Buffer[i]` or `Overlapped[i]` is `some i`.
-/
import Mathlib.Data.Finset.Card
import Mathlib.Data.Finset.Image
import CppWorkspace.Lib.Runs
import CppWorkspace.Lib.Tables

namespace CppWorkspace.OverlappedEventServer

open Runs Tables

def WSA_MAXIMUM_WAIT_EVENTS : Nat := 64

def BUFFER_SIZE : Nat := 64

/-! ## State -/

/-- The next operation. -/
inductive IO_Flag where
  | NEXT_IO_READ
  | NEXT_IO_SEND
deriving DecidableEq, Repr

/-- The buffer of a receive. -/
structure WSABUF where
  buf : Option Nat
  len : Nat
deriving DecidableEq, Repr

/-- The record of a connection. -/
structure OVERLAPPEDINFO where
  dwIndex : Nat
  IO_Flag : IO_Flag
  Socket : Nat
  wsaBuf : Option Nat
  pOverlapped : Option Nat
deriving DecidableEq, Repr

/-- `ZeroMemory`. -/
def OVERLAPPEDINFO.zero : OVERLAPPEDINFO := ⟨0, .NEXT_IO_READ, 0, none, none⟩

/-- The arrays of events, sockets and records. -/
structure Server where
  /-- `OpData.Overlapped[i].hEvent` -/
  hEvent : Nat → Nat
  DataBuf : Nat → WSABUF
  Buffer_Flag : Nat → Bool
  OpInfo : Nat → OVERLAPPEDINFO
  EventTotal : Nat
  Event : Nat → Nat
  inBounds : Bool

/-- `Init`. -/
def start : Server where
  hEvent _ := 0
  DataBuf _ := ⟨none, 0⟩
  Buffer_Flag _ := false
  OpInfo _ := .zero
  EventTotal := 0
  Event _ := 0
  inBounds := true

/-! ## The operations -/

/-- What `AddArray` returns; `dwIndex` is what it writes to its second argument. -/
structure Added where
  server : Server
  dwIndex : Option Nat
  result : Bool

namespace Server

/-- An access at `k`; all arrays have the same length. -/
def touch (σ : Server) (k : Nat) : Server :=
  { σ with inBounds := σ.inBounds && decide (k < WSA_MAXIMUM_WAIT_EVENTS) }

/-- `WSARecv` is accepted or refused. -/
def Do_A_Request (σ : Server) (dwIndex : Nat) (accepted : Bool) : Server × Bool :=
  let x := { σ.OpInfo dwIndex with IO_Flag := .NEXT_IO_SEND }
  ({ σ with OpInfo := Function.update σ.OpInfo dwIndex x }, accepted)

/-- The loop of `AddArray`; behind the last slot if none is free. -/
def freeSlot (σ : Server) : Nat :=
  ((List.range WSA_MAXIMUM_WAIT_EVENTS).find? fun i => !σ.Buffer_Flag i).getD
    WSA_MAXIMUM_WAIT_EVENTS

/-- `NewEvent` is the event that `WSACreateEvent` returns. -/
def AddArray (σ : Server) (ClientSocket NewEvent : Nat) (accepted : Bool) : Added :=
  if WSA_MAXIMUM_WAIT_EVENTS < σ.EventTotal then ⟨σ, none, false⟩
  else
    let i := σ.freeSlot
    let σ' : Server := { (σ.touch i).touch σ.EventTotal with
      hEvent := Function.update σ.hEvent i NewEvent
      DataBuf := Function.update σ.DataBuf i ⟨some i, BUFFER_SIZE⟩
      Buffer_Flag := Function.update σ.Buffer_Flag i true
      OpInfo := Function.update σ.OpInfo σ.EventTotal
        ⟨i, (σ.OpInfo σ.EventTotal).IO_Flag, ClientSocket, some i, some i⟩
      Event := Function.update σ.Event σ.EventTotal NewEvent
      EventTotal := σ.EventTotal + 1 }
    let r := σ'.Do_A_Request σ.EventTotal accepted
    ⟨r.1, some σ.EventTotal, r.2⟩

def CompressArray (σ : Server) (dwIndex : Nat) : Server :=
  if WSA_MAXIMUM_WAIT_EVENTS ≤ dwIndex then σ
  else
    { ((σ.touch (σ.OpInfo dwIndex).dwIndex).touch dwIndex).touch (σ.EventTotal - 1) with
      Buffer_Flag := Function.update σ.Buffer_Flag (σ.OpInfo dwIndex).dwIndex false
      Event := remove σ.Event σ.EventTotal dwIndex 0
      OpInfo := remove σ.OpInfo σ.EventTotal dwIndex .zero
      EventTotal := σ.EventTotal - 1 }

end Server

/-- A new connection, or the removal of one from the arrays. -/
inductive Action where
  | AddArray (ClientSocket NewEvent : Nat) (accepted : Bool)
  | CompressArray (dwIndex : Nat)
deriving DecidableEq, Repr

namespace Server

def step (σ : Server) : Action → Option Server
  | .AddArray s e accepted => some (σ.AddArray s e accepted).server
  | .CompressArray k => if k < σ.EventTotal then some (σ.CompressArray k) else none

/-- A client is added only while there is room. -/
def Room (σ : Server) : Action → Prop
  | .AddArray _ _ _ => σ.EventTotal < WSA_MAXIMUM_WAIT_EVENTS
  | .CompressArray _ => True

instance (σ : Server) : ∀ a, Decidable (σ.Room a)
  | .AddArray _ _ _ => inferInstanceAs (Decidable (_ < _))
  | .CompressArray _ => inferInstanceAs (Decidable True)

/-- Each entry has a slot of its own, and the other slots are free. -/
structure Tied (σ : Server) : Prop where
  total : σ.EventTotal ≤ WSA_MAXIMUM_WAIT_EVENTS
  inBounds : σ.inBounds = true
  distinct : ∀ j < σ.EventTotal, ∀ k < σ.EventTotal,
    (σ.OpInfo j).dwIndex = (σ.OpInfo k).dwIndex → j = k
  flags : ∀ i < WSA_MAXIMUM_WAIT_EVENTS,
    σ.Buffer_Flag i = true ↔ ∃ k < σ.EventTotal, (σ.OpInfo k).dwIndex = i
  slot : ∀ k < σ.EventTotal, (σ.OpInfo k).dwIndex < WSA_MAXIMUM_WAIT_EVENTS ∧
    (σ.OpInfo k).wsaBuf = some (σ.OpInfo k).dwIndex ∧
    (σ.OpInfo k).pOverlapped = some (σ.OpInfo k).dwIndex ∧
    (σ.DataBuf (σ.OpInfo k).dwIndex).buf = some (σ.OpInfo k).dwIndex
  event : ∀ k < σ.EventTotal, σ.Event k = σ.hEvent (σ.OpInfo k).dwIndex

/-- The entries with their events. -/
def table (σ : Server) : Multiset (OVERLAPPEDINFO × Nat) :=
  bag (fun k => (σ.OpInfo k, σ.Event k)) σ.EventTotal

/-- The entries that are not removed stay as they are. -/
def Keeps (σ τ : Server) : Action → Prop
  | .AddArray s e _ => ∃ i, τ.table = (⟨i, .NEXT_IO_SEND, s, some i, some i⟩, e) ::ₘ σ.table
  | .CompressArray k => (σ.OpInfo k, σ.Event k) ::ₘ τ.table = σ.table

section
variable {σ τ : Server} {s e i k : Nat} {accepted : Bool}

/-! ## The slots -/

theorem freeSlot_of_exists (h : ∃ i < WSA_MAXIMUM_WAIT_EVENTS, σ.Buffer_Flag i = false) :
    σ.freeSlot < WSA_MAXIMUM_WAIT_EVENTS ∧ σ.Buffer_Flag σ.freeSlot = false := by
  obtain ⟨i, hi, hflag⟩ := h
  have hsome : ((List.range WSA_MAXIMUM_WAIT_EVENTS).find? fun i => !σ.Buffer_Flag i).isSome := by
    rw [List.find?_isSome]
    exact ⟨i, List.mem_range.mpr hi, by rw [hflag]; rfl⟩
  obtain ⟨j, hj⟩ := Option.isSome_iff_exists.mp hsome
  have hslot : σ.freeSlot = j := by rw [freeSlot, hj, Option.getD_some]
  rw [hslot]
  refine ⟨List.mem_range.mp (List.mem_of_find?_eq_some hj), ?_⟩
  simpa using List.find?_some hj

theorem Tied.freeSlot (H : Tied σ) (hroom : σ.EventTotal < WSA_MAXIMUM_WAIT_EVENTS) :
    σ.freeSlot < WSA_MAXIMUM_WAIT_EVENTS ∧ σ.Buffer_Flag σ.freeSlot = false := by
  refine freeSlot_of_exists ?_
  by_contra hfull
  have hsub : Finset.range WSA_MAXIMUM_WAIT_EVENTS ⊆
      (Finset.range σ.EventTotal).image fun k => (σ.OpInfo k).dwIndex := by
    intro i hi
    have hflag : σ.Buffer_Flag i = true := by
      rw [← Bool.not_eq_false]
      exact fun hfree => hfull ⟨i, Finset.mem_range.mp hi, hfree⟩
    obtain ⟨k, hk, hslot⟩ := (H.flags i (Finset.mem_range.mp hi)).mp hflag
    exact Finset.mem_image.mpr ⟨k, Finset.mem_range.mpr hk, hslot⟩
  have hcard := (Finset.card_le_card hsub).trans Finset.card_image_le
  rw [Finset.card_range, Finset.card_range] at hcard
  omega

theorem Tied.slot_ne (H : Tied σ) (hk : k < σ.EventTotal) (hfree : σ.Buffer_Flag i = false) :
    (σ.OpInfo k).dwIndex ≠ i := by
  rintro rfl
  have hflag := (H.flags _ (H.slot k hk).1).mpr ⟨k, hk, rfl⟩
  rw [hfree] at hflag
  cases hflag

/-! ## Adding and removing -/

/-- What `AddArray` leaves unless there are too many entries. -/
theorem addArray_eq (h : σ.EventTotal ≤ WSA_MAXIMUM_WAIT_EVENTS) :
    σ.AddArray s e accepted = ⟨{ (σ.touch σ.freeSlot).touch σ.EventTotal with
      hEvent := Function.update σ.hEvent σ.freeSlot e
      DataBuf := Function.update σ.DataBuf σ.freeSlot ⟨some σ.freeSlot, BUFFER_SIZE⟩
      Buffer_Flag := Function.update σ.Buffer_Flag σ.freeSlot true
      OpInfo := Function.update σ.OpInfo σ.EventTotal
        ⟨σ.freeSlot, .NEXT_IO_SEND, s, some σ.freeSlot, some σ.freeSlot⟩
      Event := Function.update σ.Event σ.EventTotal e
      EventTotal := σ.EventTotal + 1 }, some σ.EventTotal, accepted⟩ := by
  rw [AddArray, if_neg (Nat.not_lt.mpr h)]
  simp only [Do_A_Request, touch, Function.update_self, Function.update_idem]

theorem table_addArray (h : σ.EventTotal ≤ WSA_MAXIMUM_WAIT_EVENTS) :
    (σ.AddArray s e accepted).server.table =
      (⟨σ.freeSlot, .NEXT_IO_SEND, s, some σ.freeSlot, some σ.freeSlot⟩, e) ::ₘ σ.table := by
  rw [addArray_eq h]
  simp only [table]
  rw [bag_succ, Function.update_self, Function.update_self]
  refine congrArg _ (bag_congr fun k hk => ?_)
  rw [Function.update_of_ne hk.ne, Function.update_of_ne hk.ne]

theorem Tied.addArray (H : Tied σ) (hroom : σ.EventTotal < WSA_MAXIMUM_WAIT_EVENTS) :
    Tied (σ.AddArray s e accepted).server := by
  obtain ⟨hslot, hfree⟩ := H.freeSlot hroom
  rw [addArray_eq hroom.le]
  -- an entry is an old one, or the new one in the free slot
  have hentry : ∀ k < σ.EventTotal + 1,
      k < σ.EventTotal ∧ Function.update σ.OpInfo σ.EventTotal ⟨σ.freeSlot, .NEXT_IO_SEND, s,
          some σ.freeSlot, some σ.freeSlot⟩ k = σ.OpInfo k ∧
        (σ.OpInfo k).dwIndex ≠ σ.freeSlot ∨
      k = σ.EventTotal := by
    intro k hk
    rcases Nat.lt_succ_iff_lt_or_eq.mp hk with hlt | rfl
    · exact .inl ⟨hlt, Function.update_of_ne hlt.ne .., H.slot_ne hlt hfree⟩
    · exact .inr rfl
  refine ⟨hroom, ?_, ?_, ?_, ?_, ?_⟩
  · simp only [touch, H.inBounds, hslot, hroom, decide_true, Bool.and_true]
  · intro j hj k hk heq
    simp only at heq
    rcases hentry j hj with ⟨hj, hjold, hjne⟩ | rfl
    · rcases hentry k hk with ⟨hk, hkold, -⟩ | rfl
      · rw [hjold, hkold] at heq
        exact H.distinct j hj k hk heq
      · rw [hjold, Function.update_self] at heq
        exact absurd heq hjne
    · rcases hentry k hk with ⟨hk, hkold, hkne⟩ | rfl
      · rw [hkold, Function.update_self] at heq
        exact absurd heq.symm hkne
      · rfl
  · intro i hi
    simp only
    constructor
    · intro hflag
      by_cases hnew : i = σ.freeSlot
      · exact ⟨σ.EventTotal, Nat.lt_succ_self _, by rw [Function.update_self, hnew]⟩
      · rw [Function.update_of_ne hnew] at hflag
        obtain ⟨k, hk, hki⟩ := (H.flags i hi).mp hflag
        exact ⟨k, Nat.lt_succ_of_lt hk, by rw [Function.update_of_ne hk.ne, hki]⟩
    · rintro ⟨k, hk, hki⟩
      rcases hentry k hk with ⟨hk, hold, hne⟩ | rfl
      · rw [hold] at hki
        rw [Function.update_of_ne (hki ▸ hne)]
        exact (H.flags i hi).mpr ⟨k, hk, hki⟩
      · rw [Function.update_self] at hki
        rw [← hki, Function.update_self]
  · intro k hk
    simp only
    rcases hentry k hk with ⟨hk, hold, hne⟩ | rfl
    · rw [hold, Function.update_of_ne hne]
      exact H.slot k hk
    · rw [Function.update_self, Function.update_self]
      exact ⟨hslot, rfl, rfl, rfl⟩
  · intro k hk
    simp only
    rcases hentry k hk with ⟨hk, hold, hne⟩ | rfl
    · rw [hold, Function.update_of_ne hk.ne, Function.update_of_ne hne]
      exact H.event k hk
    · rw [Function.update_self, Function.update_self, Function.update_self]

theorem table_compressArray (hk : k < σ.EventTotal) (hbound : k < WSA_MAXIMUM_WAIT_EVENTS) :
    (σ.OpInfo k, σ.Event k) ::ₘ (σ.CompressArray k).table = σ.table := by
  rw [CompressArray, if_neg (Nat.not_le.mpr hbound)]
  change _ ::ₘ bag (fun j => (remove σ.OpInfo σ.EventTotal k .zero j,
    remove σ.Event σ.EventTotal k 0 j)) (σ.EventTotal - 1) = _
  rw [remove_pair]
  exact bag_remove (f := fun j => (σ.OpInfo j, σ.Event j)) hk

theorem Tied.compressArray (H : Tied σ) (hk : k < σ.EventTotal) : Tied (σ.CompressArray k) := by
  have hbound : k < WSA_MAXIMUM_WAIT_EVENTS := hk.trans_le H.total
  rw [CompressArray, if_neg (Nat.not_le.mpr hbound)]
  -- an entry that stays is one of the others
  have hfrom : ∀ j < σ.EventTotal - 1, ∃ j' < σ.EventTotal, j' ≠ k ∧
      remove σ.OpInfo σ.EventTotal k .zero j = σ.OpInfo j' ∧
      remove σ.Event σ.EventTotal k 0 j = σ.Event j' ∧
      (j' = j ∨ j = k ∧ j' = σ.EventTotal - 1) := by
    intro j hj
    obtain ⟨j', hj', hne, hcases, hold⟩ := remove_from hk hj
    exact ⟨j', hj', hne, hold _ _, hold _ _, hcases⟩
  have hto : ∀ j' < σ.EventTotal, j' ≠ k → ∃ j < σ.EventTotal - 1,
      remove σ.OpInfo σ.EventTotal k .zero j = σ.OpInfo j' := by
    intro j' hj' hne
    by_cases hlast : j' = σ.EventTotal - 1
    · refine ⟨k, by omega, ?_⟩
      rw [remove_apply (by omega), if_pos rfl, hlast]
    · refine ⟨j', by omega, ?_⟩
      rw [remove_apply (by omega), if_neg hne]
  obtain ⟨hslot, -⟩ := H.slot k hk
  have htotal := H.total
  refine ⟨?_, ?_, ?_, ?_, ?_, ?_⟩
  · exact (Nat.sub_le _ 1).trans htotal
  · have hlast : σ.EventTotal - 1 < WSA_MAXIMUM_WAIT_EVENTS := by omega
    simp only [touch, H.inBounds, hslot, hbound, hlast, decide_true, Bool.and_true]
  · intro i hi j hj heq
    simp only at heq
    obtain ⟨i', hi', -, hiold, -, hicases⟩ := hfrom i hi
    obtain ⟨j', hj', -, hjold, -, hjcases⟩ := hfrom j hj
    rw [hiold, hjold] at heq
    have hsame := H.distinct i' hi' j' hj' heq
    change i < σ.EventTotal - 1 at hi
    change j < σ.EventTotal - 1 at hj
    omega
  · intro i hi
    simp only
    constructor
    · intro hflag
      rw [Function.update_apply] at hflag
      split at hflag
      · cases hflag
      · rename_i hne
        obtain ⟨j', hj', hold⟩ := (H.flags i hi).mp hflag
        obtain ⟨j, hj, heq⟩ := hto j' hj' fun h => hne (by rw [← hold, h])
        exact ⟨j, hj, by rw [heq, hold]⟩
    · rintro ⟨j, hj, hji⟩
      obtain ⟨j', hj', hne, hold, -⟩ := hfrom j hj
      rw [hold] at hji
      rw [Function.update_of_ne fun h => hne (H.distinct j' hj' k hk (hji.trans h))]
      exact (H.flags i hi).mpr ⟨j', hj', hji⟩
  · intro j hj
    obtain ⟨j', hj', -, hold, -⟩ := hfrom j hj
    simp only [touch]
    rw [hold]
    exact H.slot j' hj'
  · intro j hj
    obtain ⟨j', hj', -, hold, hevent, -⟩ := hfrom j hj
    simp only [touch]
    rw [hold, hevent]
    exact H.event j' hj'

theorem start_tied : Tied start where
  total := Nat.zero_le _
  inBounds := rfl
  distinct _ hj := absurd hj (Nat.not_lt_zero _)
  flags _ _ := ⟨nofun, fun ⟨_, hk, _⟩ => absurd hk (Nat.not_lt_zero _)⟩
  slot _ hk := absurd hk (Nat.not_lt_zero _)
  event _ hk := absurd hk (Nat.not_lt_zero _)

theorem Tied.step_iff (H : Tied σ) {a : Action} (hstep : σ.step a = some τ) :
    τ.Tied ∧ σ.Keeps τ a ↔ σ.Room a := by
  cases a with
  | AddArray s e accepted =>
      cases hstep
      constructor
      · rintro ⟨hτ, -⟩
        have htotal := hτ.total
        rw [addArray_eq H.total] at htotal
        exact htotal
      · exact fun hroom => ⟨H.addArray hroom, σ.freeSlot, table_addArray H.total⟩
  | CompressArray k =>
      obtain ⟨hk, heq⟩ := Option.ite_none_right_eq_some.mp hstep
      cases heq
      have hkeeps := table_compressArray hk (hk.trans_le H.total)
      exact ⟨fun _ => trivial, fun _ => ⟨H.compressArray hk, hkeeps⟩⟩

end

end Server

/-- **The event table.**  After any calls, each client of which was added to a table that was
not full, the tables are in order; the next call leaves them in order, with the entries that
are not removed, exactly if it does not add to a full table. -/
theorem slots_tied {σ : Server} (h : Via Server.step Server.Room start σ) :
    σ.Tied ∧ ∀ a τ, σ.step a = some τ → (τ.Tied ∧ σ.Keeps τ a ↔ σ.Room a) := by
  have H : σ.Tied := h.invariant Server.start_tied
    fun _ _ _ H hok hstep => ((H.step_iff hstep).mpr hok).1
  exact ⟨H, fun a τ hstep => H.step_iff hstep⟩

/-- Three clients, one of them refused; the first is removed, and a fourth gets its slot. -/
theorem slots_tied_fourClients : ∃ σ, Via Server.step Server.Room start σ ∧
    (σ.EventTotal = 3 ∧ (σ.OpInfo 0).Socket = 12 ∧ (σ.OpInfo 2).dwIndex = 0) ∧ σ.Tied := by
  have hrun : ∃ σ, Via Server.step Server.Room start σ ∧
      σ.EventTotal = 3 ∧ (σ.OpInfo 0).Socket = 12 ∧ (σ.OpInfo 2).dwIndex = 0 :=
    exists_via_of_execIf [.AddArray 10 20 true, .AddArray 11 21 false, .AddArray 12 22 true,
      .CompressArray 0, .AddArray 13 23 true] (by decide +kernel)
  obtain ⟨σ, hσ, hend⟩ := hrun
  exact ⟨σ, hσ, hend, (slots_tied hσ).1⟩

/-- The 65th client. -/
theorem not_slots_tied : ∃ σ, Via Server.step (fun _ _ => True) start σ ∧
    σ.EventTotal = 65 ∧ σ.inBounds = false ∧ ¬ σ.Tied := by
  have hrun : ∃ σ, Via Server.step (fun _ _ => True) start σ ∧
      σ.EventTotal = 65 ∧ σ.inBounds = false :=
    exists_via_of_execIf ((List.range 65).map fun k => .AddArray (10 + k) (100 + k) true)
      (by decide +kernel)
  obtain ⟨σ, hσ, htotal, hbounds⟩ := hrun
  refine ⟨σ, hσ, htotal, hbounds, fun H => ?_⟩
  have hin := H.inBounds
  rw [hbounds] at hin
  cases hin

/-! ## Clients whose receive is refused -/

namespace Server

/-- If `AddArray` returns `FALSE`, the entries are those before the call, and the socket that
`ConnThread` closes is in none of them. -/
def LeavesTables (σ : Server) (s e : Nat) (accepted : Bool) : Prop :=
  (σ.AddArray s e accepted).result = false →
    (σ.AddArray s e accepted).server.table = σ.table ∧
      ∀ x ∈ (σ.AddArray s e accepted).server.table, x.1.Socket ≠ s

/-- `ConnThread` with clients whose first receive is refused, each a socket and an event. -/
def rejectAll (σ : Server) (clients : List (Nat × Nat)) : Server :=
  clients.foldl (fun σ c => (σ.AddArray c.1 c.2 false).server) σ

/-- A client can be added, and is served. -/
def Serves (σ : Server) (s e : Nat) : Prop :=
  (σ.AddArray s e true).result = true ∧ (σ.AddArray s e true).server.Tied

section
variable {σ : Server} {s e : Nat} {accepted : Bool} {clients : List (Nat × Nat)}

/-- A client that is refused by its receive is in the tables afterwards. -/
theorem leavesTables_iff : σ.LeavesTables s e accepted ↔
    σ.EventTotal ≤ WSA_MAXIMUM_WAIT_EVENTS ∧ accepted = true ∨
      WSA_MAXIMUM_WAIT_EVENTS < σ.EventTotal ∧ ∀ x ∈ σ.table, x.1.Socket ≠ s := by
  by_cases hmany : WSA_MAXIMUM_WAIT_EVENTS < σ.EventTotal
  · have hsame : σ.AddArray s e accepted = ⟨σ, none, false⟩ := if_pos hmany
    rw [LeavesTables, hsame]
    constructor
    · exact fun h => .inr ⟨hmany, (h rfl).2⟩
    · rintro (⟨hfew, -⟩ | ⟨-, hnew⟩) -
      · exact absurd hmany (Nat.not_lt.mpr hfew)
      · exact ⟨rfl, hnew⟩
  · have htotal := Nat.not_lt.mp hmany
    have hresult : (σ.AddArray s e accepted).result = accepted := by rw [addArray_eq htotal]
    constructor
    · intro h
      refine .inl ⟨htotal, ?_⟩
      rw [← Bool.not_eq_false]
      intro hrefused
      obtain ⟨htable, -⟩ := h (hresult.trans hrefused)
      have hcard := congrArg Multiset.card htable
      rw [table_addArray htotal, Multiset.card_cons] at hcard
      exact absurd hcard (Nat.succ_ne_self _)
    · rintro (⟨-, rfl⟩ | h)
      · intro hfalse
        rw [hresult] at hfalse
        cases hfalse
      · exact absurd h.1 hmany

theorem rejectAll_of_lt (h : WSA_MAXIMUM_WAIT_EVENTS < σ.EventTotal) :
    σ.rejectAll clients = σ := by
  induction clients with
  | nil => rfl
  | cons c clients ih =>
      have hsame : σ.AddArray c.1 c.2 false = ⟨σ, none, false⟩ := if_pos h
      change ((σ.AddArray c.1 c.2 false).server).rejectAll clients = σ
      rw [hsame]
      exact ih

/-- Each refused client costs an entry, until there are more than fit. -/
theorem rejectAll_total (h : σ.EventTotal ≤ WSA_MAXIMUM_WAIT_EVENTS) :
    (σ.rejectAll clients).EventTotal =
      min (σ.EventTotal + clients.length) (WSA_MAXIMUM_WAIT_EVENTS + 1) := by
  induction clients generalizing σ with
  | nil =>
      change σ.EventTotal = min (σ.EventTotal + 0) _
      omega
  | cons c clients ih =>
      have hnext : (σ.AddArray c.1 c.2 false).server.EventTotal = σ.EventTotal + 1 := by
        rw [addArray_eq h]
      change ((σ.AddArray c.1 c.2 false).server.rejectAll clients).EventTotal = _
      rw [List.length_cons]
      by_cases hroom : σ.EventTotal < WSA_MAXIMUM_WAIT_EVENTS
      · rw [ih (hnext ▸ hroom), hnext]
        omega
      · rw [rejectAll_of_lt (by omega), hnext]
        omega

/-- While there is room, refused clients leave the tables in order. -/
theorem Tied.rejectAll (H : Tied σ)
    (hroom : σ.EventTotal + clients.length ≤ WSA_MAXIMUM_WAIT_EVENTS) :
    Tied (σ.rejectAll clients) := by
  induction clients generalizing σ with
  | nil => exact H
  | cons c clients ih =>
      rw [List.length_cons] at hroom
      have hadded : Tied (σ.AddArray c.1 c.2 false).server := H.addArray (by omega)
      refine ih hadded ?_
      change (σ.AddArray c.1 c.2 false).server.EventTotal + clients.length ≤ _
      rw [addArray_eq H.total]
      change σ.EventTotal + 1 + clients.length ≤ _
      omega

theorem Tied.serves_iff (H : Tied σ) :
    (σ.rejectAll clients).Serves s e ↔
      σ.EventTotal + clients.length < WSA_MAXIMUM_WAIT_EVENTS := by
  have htotal : (σ.rejectAll clients).EventTotal = _ := rejectAll_total H.total
  constructor
  · rintro ⟨hadded, hτ⟩
    by_contra hfull
    by_cases hmany : WSA_MAXIMUM_WAIT_EVENTS < (σ.rejectAll clients).EventTotal
    · rw [AddArray, if_pos hmany] at hadded
      cases hadded
    · have hlimit := hτ.total
      rw [addArray_eq (Nat.not_lt.mp hmany)] at hlimit
      change (σ.rejectAll clients).EventTotal + 1 ≤ _ at hlimit
      omega
  · intro hroom
    have hbefore : (σ.rejectAll clients).EventTotal < WSA_MAXIMUM_WAIT_EVENTS := by omega
    exact ⟨by rw [addArray_eq hbefore.le], (H.rejectAll hroom.le).addArray hbefore⟩

end

end Server

/-- **Rejected clients.**  For any tables, a call of `AddArray` that returns `FALSE` leaves the
tables as they were, without the socket, exactly if the receive was not refused or there were
too many entries before.  From tables in order, after `clients` refused ones another client is
served exactly if there is room for all of them. -/
theorem rejected_clients (σ : Server) :
    (∀ s e accepted, σ.LeavesTables s e accepted ↔
      σ.EventTotal ≤ WSA_MAXIMUM_WAIT_EVENTS ∧ accepted = true ∨
        WSA_MAXIMUM_WAIT_EVENTS < σ.EventTotal ∧ ∀ x ∈ σ.table, x.1.Socket ≠ s) ∧
    (Via Server.step Server.Room start σ → ∀ clients s e,
      ((σ.rejectAll clients).Serves s e ↔
        σ.EventTotal + clients.length < WSA_MAXIMUM_WAIT_EVENTS)) := by
  refine ⟨fun _ _ _ => Server.leavesTables_iff, fun h clients s e => ?_⟩
  have H : σ.Tied := h.invariant Server.start_tied
    fun _ _ _ H hok hstep => ((H.step_iff hstep).mpr hok).1
  exact H.serves_iff

/-- The first client of the server is added, and after a refused one another. -/
theorem rejected_clients_twoClients :
    start.LeavesTables 10 20 true ∧ (start.rejectAll [(10, 20)]).Serves 11 21 :=
  ⟨((rejected_clients start).1 10 20 true).mpr (.inl ⟨by decide, rfl⟩),
    ((rejected_clients start).2 .refl [(10, 20)] 11 21).mpr (by decide)⟩

/-- The receive of the first client is refused, and its socket stays in entry 0. -/
theorem not_rejected_clients : ¬ start.LeavesTables 10 20 false ∧
    ((start.rejectAll [(10, 20)]).OpInfo 0).Socket = 10 ∧
    ¬ (start.rejectAll (List.replicate 64 (10, 20))).Serves 11 21 := by
  refine ⟨fun h => ?_, by decide +kernel, fun h => ?_⟩
  · obtain ⟨htable, -⟩ := h rfl
    have hcard := congrArg Multiset.card htable
    exact absurd hcard (by decide +kernel)
  · have hroom := Server.start_tied.serves_iff.mp h
    rw [List.length_replicate] at hroom
    exact absurd hroom (by decide)

end CppWorkspace.OverlappedEventServer
