/-
# `CppWorkspace.EventSelectServer` — the server of the WSAEventSelect model

One thread waits for the events of all sockets.  Two arrays belong together:

    Socket[0], Event[0]    the listening socket
    Socket[k], Event[k]    a client

An accepted client goes behind the last entry, and `CompressArray` moves the last entry
into the place of a closed one.  Nothing else is said by the code about what belongs to
what, so a slip stays: the test before an accept lets entry 64 through, no call of the
accept is looked at, and the two `continue`s skip a close that was reported with them.
A table that is in order stays so in a round exactly if none of this happens
(`event_table`).

Conventions:

* a round of `WorkerThread` is one step; `Calls` is what the calls of the round return;
* the connections are numbered: 0 is the listening socket, `n` the client of the `n`-th
  accept.  `owner` is whose an open socket is, `selected` whose network events an event
  reports; no handle is given out again while it is open;
* `live` are the connections that no close was reported of, `inBounds` says that no index
  was outside the arrays (ghost fields);
* the received bytes, and the messages that are shown, are left out.
-/
import CppWorkspace.Lib.Runs
import CppWorkspace.Lib.Tables

namespace CppWorkspace.EventSelectServer

open Runs Tables

def WSA_MAXIMUM_WAIT_EVENTS : Nat := 64

def INVALID_SOCKET : Nat := 4294967295

/-- `WSA_INVALID_EVENT`. -/
def NULL : Nat := 0

/-! ## State -/

/-- The two arrays, and the sockets and events. -/
structure Server where
  Listen : Nat
  Socket : Nat → Nat
  Event : Nat → Nat
  EventTotal : Nat
  owner : Nat → Option Nat
  selected : Nat → Option Nat
  /-- How many clients were accepted. -/
  accepted : Nat
  live : Multiset Nat
  inBounds : Bool

/-- As `main` starts `WorkerThread`. -/
def start (Listen NewEvent : Nat) : Server where
  Listen := Listen
  Socket := Function.update (fun _ => 0) 0 Listen
  Event := Function.update (fun _ => NULL) 0 NewEvent
  EventTotal := 1
  owner := Function.update (fun _ => none) Listen (some 0)
  selected := Function.update (fun _ => none) NewEvent (some 0)
  accepted := 0
  live := {0}
  inBounds := true

/-! ## A round -/

/-- The network events that the server looks for. -/
inductive Bit where
  | FD_READ
  | FD_WRITE
  | FD_ACCEPT
  | FD_CLOSE
deriving DecidableEq, Repr

/-- What `WSAEnumNetworkEvents` fills. -/
structure WSANETWORKEVENTS where
  lNetworkEvents : List Bit
  /-- The bits whose code is not 0. -/
  iErrorCode : List Bit
deriving DecidableEq, Repr

/-- `none` is `INVALID_SOCKET` and `WSA_INVALID_EVENT`, `false` is `SOCKET_ERROR`. -/
structure Calls where
  accept : Option Nat
  WSACreateEvent : Option Nat
  WSAEventSelect : Bool
  recv : Bool
  send : Bool
deriving DecidableEq, Repr

/-- What the calls of one round of the loop return. -/
structure Round where
  Index : Nat
  NetWorkEvent : WSANETWORKEVENTS
  calls : Calls
deriving DecidableEq, Repr

namespace Round

def reports (r : Round) (b : Bit) : Bool := b ∈ r.NetWorkEvent.lNetworkEvents

def fails (r : Round) (b : Bit) : Bool := b ∈ r.NetWorkEvent.iErrorCode

/-- The `continue`s of the `FD_READ` branch. -/
def readStops (r : Round) : Bool :=
  r.reports .FD_READ && (r.fails .FD_READ || !r.calls.recv || !r.calls.send)

end Round

namespace Server

/-- An access to `Socket[k]` and `Event[k]`. -/
def touch (σ : Server) (k : Nat) : Server :=
  { σ with inBounds := σ.inBounds && decide (k < WSA_MAXIMUM_WAIT_EVENTS) }

def closesocket (σ : Server) (s : Nat) : Server :=
  { σ with owner := Function.update σ.owner s none }

/-- `CompressArray`, with the accesses to the two places. -/
def CompressArray (σ : Server) (Index : Nat) : Server :=
  if WSA_MAXIMUM_WAIT_EVENTS < Index then σ
  else
    { (σ.touch Index).touch (σ.EventTotal - 1) with
      Socket := remove σ.Socket σ.EventTotal Index 0
      Event := remove σ.Event σ.EventTotal Index 0
      selected := Function.update σ.selected (σ.Event Index) none
      EventTotal := σ.EventTotal - 1 }

/-- `accept(Socket[Index], NULL, NULL)`. -/
def accept (σ : Server) (c : Calls) : Server :=
  match c.accept with
  | some s =>
      { σ with
        owner := Function.update σ.owner s (some (σ.accepted + 1))
        accepted := σ.accepted + 1 }
  | none => σ

/-- The client goes behind the last entry. -/
def add (σ : Server) (c : Calls) : Server :=
  let Client := c.accept.getD INVALID_SOCKET
  let hEvent := c.WSACreateEvent.getD NULL
  { σ.touch σ.EventTotal with
    Socket := Function.update σ.Socket σ.EventTotal Client
    Event := Function.update σ.Event σ.EventTotal hEvent
    selected := if c.WSAEventSelect then Function.update σ.selected hEvent (σ.owner Client)
      else σ.selected
    live := (σ.owner Client).elim 0 ({·}) + σ.live
    EventTotal := σ.EventTotal + 1 }

/-- The `FD_ACCEPT` branch, and whether it ends with `continue`. -/
def onAccept (σ : Server) (r : Round) : Server × Bool :=
  if r.reports .FD_ACCEPT then
    if r.fails .FD_ACCEPT then (σ, true)
    else if WSA_MAXIMUM_WAIT_EVENTS < (σ.accept r.calls).EventTotal then
      ((σ.accept r.calls).closesocket (r.calls.accept.getD INVALID_SOCKET), true)
    else ((σ.accept r.calls).add r.calls, false)
  else (σ, false)

/-- A reported close ends the connection, whatever the code does about it. -/
def note (σ : Server) (r : Round) : Server :=
  if r.reports .FD_CLOSE then
    { σ with live := σ.live - ((σ.owner (σ.Socket r.Index)).elim 0 ({·})) }
  else σ

/-- The branches after that.  `FD_WRITE` only shows a message. -/
def onRest (p : Server × Bool) (r : Round) : Server :=
  if p.2 || r.readStops then p.1
  else if r.reports .FD_CLOSE then
    (p.1.closesocket (p.1.Socket r.Index)).CompressArray r.Index
  else p.1

/-- One round. -/
def WorkerThread (σ : Server) (r : Round) : Server :=
  onRest (((σ.touch r.Index).note r).onAccept r) r

/-- What Winsock promises: only the listening socket has clients, and no open handle is
given out. -/
def Possible (σ : Server) (r : Round) : Prop :=
  r.Index < σ.EventTotal ∧
    (∀ s ∈ r.calls.accept,
      σ.owner (σ.Socket r.Index) = some 0 ∧ σ.owner s = none ∧ s ≠ INVALID_SOCKET) ∧
    (∀ e ∈ r.calls.WSACreateEvent, e ≠ NULL ∧ ∀ k < σ.EventTotal, σ.Event k ≠ e) ∧
    (r.calls.WSAEventSelect = true →
      r.calls.accept ≠ none ∧ r.calls.WSACreateEvent ≠ none)

instance (σ : Server) (r : Round) : Decidable (σ.Possible r) :=
  inferInstanceAs (Decidable (_ ∧ _ ∧ _ ∧ _))

def step (σ : Server) (r : Round) : Option Server :=
  if σ.Possible r then some (σ.WorkerThread r) else none

/-- Entry `k` of the two arrays is one connection; the entries are the connections that
were not closed, and the first one is the listening socket. -/
structure Tied (σ : Server) : Prop where
  total : σ.EventTotal ≤ WSA_MAXIMUM_WAIT_EVENTS
  inBounds : σ.inBounds = true
  same : ∀ k < σ.EventTotal, ∃ c,
    σ.owner (σ.Socket k) = some c ∧ σ.selected (σ.Event k) = some c
  live : bag (fun k => σ.owner (σ.Socket k)) σ.EventTotal = σ.live.map some
  listen : 0 < σ.EventTotal ∧ σ.Socket 0 = σ.Listen ∧ σ.owner σ.Listen = some 0

/-- A client is accepted only while there is room, with calls that succeed, and a close is
reported of a client, without a `continue` before it. -/
def Orderly (σ : Server) (r : Round) : Prop :=
  (r.reports .FD_ACCEPT = true → r.fails .FD_ACCEPT = false →
      σ.EventTotal < WSA_MAXIMUM_WAIT_EVENTS ∧ r.calls.accept ≠ none ∧
        r.calls.WSACreateEvent ≠ none ∧ r.calls.WSAEventSelect = true) ∧
    (r.reports .FD_CLOSE = true → r.Index ≠ 0 ∧ r.readStops = false ∧
      ¬ (r.reports .FD_ACCEPT = true ∧ r.fails .FD_ACCEPT = true))

instance (σ : Server) (r : Round) : Decidable (σ.Orderly r) :=
  inferInstanceAs (Decidable (_ ∧ _))

/-! ## The table in order -/

/-- With what the next round relies on. -/
structure Inv (σ : Server) : Prop extends Tied σ where
  once : σ.live.Nodup
  old : ∀ c ∈ σ.live, c ≤ σ.accepted
  known : ∀ e c, σ.selected e = some c → c ≤ σ.accepted
  invalid : σ.owner INVALID_SOCKET = none
  null : σ.selected NULL = none

section
variable {σ τ : Server} {r : Round} {i k c s e : Nat}

theorem touch_of_lt (h : k < WSA_MAXIMUM_WAIT_EVENTS) : σ.touch k = σ := by
  rw [touch, decide_eq_true h, Bool.and_true]

theorem Tied.mem_live (H : Tied σ) (hk : k < σ.EventTotal) (hc : σ.owner (σ.Socket k) = some c) :
    c ∈ σ.live := by
  have hmem : some c ∈ bag (fun k => σ.owner (σ.Socket k)) σ.EventTotal := mem_bag.mpr ⟨k, hk, hc⟩
  rw [H.live] at hmem
  obtain ⟨d, hd, heq⟩ := Multiset.mem_map.mp hmem
  cases heq
  exact hd

namespace Inv

theorem owner_inj (H : Inv σ) (hi : i < σ.EventTotal) (hk : k < σ.EventTotal)
    (heq : σ.owner (σ.Socket i) = σ.owner (σ.Socket k)) : i = k := by
  have hnodup : (bag (fun k => σ.owner (σ.Socket k)) σ.EventTotal).Nodup := by
    rw [H.live]
    exact H.once.map (Option.some_injective _)
  exact bag_inj hnodup hi hk heq

theorem socket_inj (H : Inv σ) (hi : i < σ.EventTotal) (hk : k < σ.EventTotal)
    (heq : σ.Socket i = σ.Socket k) : i = k :=
  H.owner_inj hi hk (congrArg σ.owner heq)

theorem event_inj (H : Inv σ) (hi : i < σ.EventTotal) (hk : k < σ.EventTotal)
    (heq : σ.Event i = σ.Event k) : i = k := by
  obtain ⟨c, hc, hi'⟩ := H.same i hi
  obtain ⟨d, hd, hk'⟩ := H.same k hk
  rw [heq, hk'] at hi'
  exact H.owner_inj hi hk (by rw [hc, hd, hi'])

/-- The listening socket is entry 0 only. -/
theorem eq_zero (H : Inv σ) (hi : i < σ.EventTotal) (h : σ.owner (σ.Socket i) = some 0) :
    i = 0 := by
  obtain ⟨hpos, hlisten, hzero⟩ := H.listen
  refine H.owner_inj hi hpos ?_
  rw [h, hlisten, hzero]

theorem add (H : Inv σ) {calls : Calls} (hroom : σ.EventTotal < WSA_MAXIMUM_WAIT_EVENTS)
    (hs : calls.accept = some s) (hnew : σ.owner s = none) (hvalid : s ≠ INVALID_SOCKET)
    (he : calls.WSACreateEvent = some e) (hevent : e ≠ NULL)
    (hfresh : ∀ k < σ.EventTotal, σ.Event k ≠ e) (hselect : calls.WSAEventSelect = true) :
    Inv ((σ.accept calls).add calls) := by
  have hother : ∀ k < σ.EventTotal, σ.Socket k ≠ s := by
    rintro k hk rfl
    obtain ⟨c, hc, -⟩ := H.same k hk
    rw [hnew] at hc
    cases hc
  have heq : (σ.accept calls).add calls = { σ with
      Socket := Function.update σ.Socket σ.EventTotal s
      Event := Function.update σ.Event σ.EventTotal e
      owner := Function.update σ.owner s (some (σ.accepted + 1))
      selected := Function.update σ.selected e (some (σ.accepted + 1))
      accepted := σ.accepted + 1
      live := (σ.accepted + 1) ::ₘ σ.live
      EventTotal := σ.EventTotal + 1 } := by
    simp only [Server.accept, hs, Server.add, touch, hroom, decide_true, Bool.and_true, he,
      Option.getD_some, hselect, if_true, Function.update_self, Option.elim_some,
      Multiset.singleton_add]
  rw [heq]
  have hkeep : ∀ k < σ.EventTotal, Function.update σ.owner s (some (σ.accepted + 1))
      (Function.update σ.Socket σ.EventTotal s k) = σ.owner (σ.Socket k) := by
    intro k hk
    rw [Function.update_of_ne hk.ne, Function.update_of_ne (hother k hk)]
  refine ⟨⟨hroom, H.inBounds, ?_, ?_, Nat.succ_pos _, ?_, ?_⟩, ?_, ?_, ?_, ?_, ?_⟩
  · intro k hk
    rcases Nat.lt_succ_iff_lt_or_eq.mp hk with hlt | rfl
    · obtain ⟨c, hc, hsel⟩ := H.same k hlt
      refine ⟨c, (hkeep k hlt).trans hc, ?_⟩
      simp only
      rw [Function.update_of_ne hlt.ne, Function.update_of_ne (hfresh k hlt)]
      exact hsel
    · exact ⟨σ.accepted + 1, by simp, by simp⟩
  · simp only
    rw [bag_succ, bag_congr hkeep, H.live, Multiset.map_cons, Function.update_self,
      Function.update_self]
  · simp only
    rw [Function.update_of_ne H.listen.1.ne]
    exact H.listen.2.1
  · simp only
    rw [Function.update_of_ne]
    · exact H.listen.2.2
    · rintro rfl
      rw [H.listen.2.2] at hnew
      cases hnew
  · exact Multiset.nodup_cons.mpr ⟨fun hmem => absurd (H.old _ hmem) (by omega), H.once⟩
  · intro c hc
    rcases Multiset.mem_cons.mp hc with rfl | hc
    · exact Nat.le_refl _
    · exact Nat.le_succ_of_le (H.old c hc)
  · intro d c hc
    simp only [Function.update_apply] at hc
    split at hc
    · cases hc
      exact Nat.le_refl _
    · exact Nat.le_succ_of_le (H.known d c hc)
  · simp only
    rw [Function.update_of_ne hvalid.symm]
    exact H.invalid
  · simp only
    rw [Function.update_of_ne hevent.symm]
    exact H.null

theorem close (H : Inv σ) (hi : i < σ.EventTotal) (hclient : i ≠ 0)
    (hc : σ.owner (σ.Socket i) = some c) :
    Inv ((({ σ with live := σ.live - {c} } : Server).closesocket
      (σ.Socket i)).CompressArray i) := by
  obtain ⟨hpos, hlisten, hzero⟩ := H.listen
  have hbound : i < WSA_MAXIMUM_WAIT_EVENTS := hi.trans_le H.total
  have heq : (({ σ with live := σ.live - {c} } : Server).closesocket (σ.Socket i)).CompressArray i =
      { σ with
        Socket := remove σ.Socket σ.EventTotal i 0
        Event := remove σ.Event σ.EventTotal i 0
        owner := Function.update σ.owner (σ.Socket i) none
        selected := Function.update σ.selected (σ.Event i) none
        live := σ.live - {c}
        EventTotal := σ.EventTotal - 1 } := by
    have hlast : σ.EventTotal - 1 < WSA_MAXIMUM_WAIT_EVENTS := by
      have htotal := H.total
      omega
    rw [CompressArray, if_neg (by omega), touch_of_lt hbound]
    simp only [touch, closesocket, hlast, decide_true, Bool.and_true]
  rw [heq]
  -- an entry that stays is one of the others, with its own handles
  have hfrom : ∀ k < σ.EventTotal - 1, ∃ j < σ.EventTotal, j ≠ i ∧
      remove σ.Socket σ.EventTotal i 0 k = σ.Socket j ∧
      remove σ.Event σ.EventTotal i 0 k = σ.Event j := by
    intro k hk
    obtain ⟨j, hj, hji, -, hold⟩ := remove_from hi hk
    exact ⟨j, hj, hji, hold _ _, hold _ _⟩
  have hlive : σ.live = c ::ₘ (σ.live - {c}) := by
    rw [Multiset.sub_singleton, Multiset.cons_erase (H.mem_live hi hc)]
  refine ⟨⟨(Nat.sub_le _ 1).trans H.total, H.inBounds, ?_, ?_, ?_, ?_, ?_⟩, ?_, ?_, ?_, ?_, ?_⟩
  · intro k hk
    obtain ⟨j, hj, hji, hsock, hevent⟩ := hfrom k hk
    obtain ⟨d, hd, hsel⟩ := H.same j hj
    simp only
    rw [hsock, hevent, Function.update_of_ne fun h => hji (H.socket_inj hj hi h),
      Function.update_of_ne fun h => hji (H.event_inj hj hi h)]
    exact ⟨d, hd, hsel⟩
  · have hbag : bag (fun k => Function.update σ.owner (σ.Socket i) none
        (remove σ.Socket σ.EventTotal i 0 k)) (σ.EventTotal - 1) =
        bag (remove (fun k => σ.owner (σ.Socket k)) σ.EventTotal i none) (σ.EventTotal - 1) := by
      refine bag_congr fun k hk => ?_
      obtain ⟨j, hj, hji, hsock, -⟩ := hfrom k hk
      rw [hsock, Function.update_of_ne fun h => hji (H.socket_inj hj hi h)]
      rw [remove_apply hk] at hsock ⊢
      split at hsock <;> rename_i hki
      · rw [if_pos hki, ← hsock]
      · rw [if_neg hki, ← hsock]
    have hold := H.live
    rw [← bag_remove (z := none) hi, hlive, Multiset.map_cons, hc] at hold
    exact hbag.trans ((Multiset.cons_inj_right _).mp hold)
  · change 0 < σ.EventTotal - 1
    omega
  · have hlast : 0 < σ.EventTotal - 1 := by omega
    simp only
    rw [remove_apply hlast, if_neg hclient.symm]
    exact hlisten
  · simp only
    rw [Function.update_of_ne]
    · exact hzero
    · rw [← hlisten]
      exact fun h => hclient (H.socket_inj hi hpos h.symm)
  · exact Multiset.nodup_of_le (Multiset.sub_le_self _ _) H.once
  · exact fun d hd => H.old d (Multiset.mem_of_le (Multiset.sub_le_self _ _) hd)
  · intro d x hx
    simp only [Function.update_apply] at hx
    split at hx
    · cases hx
    · exact H.known d x hx
  · simp only [Function.update_apply]
    split
    · rfl
    · exact H.invalid
  · simp only [Function.update_apply]
    split
    · rfl
    · exact H.null

/-! What a round does to a table in order. -/

theorem lt_bound (H : Inv σ) (hi : i < σ.EventTotal) : i < WSA_MAXIMUM_WAIT_EVENTS :=
  hi.trans_le H.total

theorem note_eq (H : Inv σ) (hi : r.Index < σ.EventTotal)
    (hc : σ.owner (σ.Socket r.Index) = some c) (hclose : r.reports .FD_CLOSE = true) :
    (σ.touch r.Index).note r = { σ with live := σ.live - {c} } := by
  rw [touch_of_lt (H.lt_bound hi), note, if_pos hclose, hc]
  rfl

theorem note_of_not (H : Inv σ) (hi : r.Index < σ.EventTotal)
    (hclose : r.reports .FD_CLOSE = false) : (σ.touch r.Index).note r = σ := by
  rw [touch_of_lt (H.lt_bound hi), note, hclose]
  rfl

/-- The other rounds without an accept, and those in which the accept has failed. -/
theorem onAccept_of_not {σ : Server} (h : ¬ (r.reports .FD_ACCEPT = true ∧
    r.fails .FD_ACCEPT = false)) :
    σ.onAccept r = (σ, r.reports .FD_ACCEPT && r.fails .FD_ACCEPT) := by
  unfold onAccept
  cases haccept : r.reports .FD_ACCEPT with
  | false => rfl
  | true =>
      cases hfail : r.fails .FD_ACCEPT with
      | true => rfl
      | false => exact absurd ⟨haccept, hfail⟩ h

theorem onAccept_of_takes {σ : Server} (htotal : σ.EventTotal ≤ WSA_MAXIMUM_WAIT_EVENTS)
    (htakes : r.reports .FD_ACCEPT = true ∧ r.fails .FD_ACCEPT = false) :
    σ.onAccept r = ((σ.accept r.calls).add r.calls, false) := by
  have hsame : (σ.accept r.calls).EventTotal = σ.EventTotal := by
    unfold accept
    split <;> rfl
  unfold onAccept
  rw [if_pos htakes.1, htakes.2, if_neg Bool.false_ne_true, hsame, if_neg (Nat.not_lt.mpr htotal)]

theorem onRest_of_stays {p : Server × Bool} (h : p.2 = true ∨ r.readStops = true ∨
    r.reports .FD_CLOSE = false) : onRest p r = p.1 := by
  unfold onRest
  rcases h with h | h | h
  · rw [h]
    rfl
  · rw [h, Bool.or_true]
    rfl
  · rw [h, if_neg Bool.false_ne_true, ite_self]

theorem onRest_of_closes (hread : r.readStops = false) (hclose : r.reports .FD_CLOSE = true) :
    onRest (σ, false) r = (σ.closesocket (σ.Socket r.Index)).CompressArray r.Index := by
  rw [onRest, hread, Bool.or_self, if_neg Bool.false_ne_true, if_pos hclose]

theorem step_of_orderly (H : Inv σ) (hok : σ.Orderly r) (hstep : σ.step r = some τ) : Inv τ := by
  obtain ⟨⟨hi, hsock, hevent, -⟩, heq⟩ := Option.ite_none_right_eq_some.mp hstep
  cases heq
  obtain ⟨haccept, hcloseok⟩ := hok
  obtain ⟨c, hc, -⟩ := H.same r.Index hi
  cases hclose : r.reports .FD_CLOSE with
  | true =>
      obtain ⟨hclient, hread, hnofail⟩ := hcloseok hclose
      have hnot : ¬ (r.reports .FD_ACCEPT = true ∧ r.fails .FD_ACCEPT = false) := by
        rintro ⟨hrep, hfail⟩
        obtain ⟨-, hsome, -⟩ := haccept hrep hfail
        obtain ⟨s, hs⟩ := Option.ne_none_iff_exists'.mp hsome
        exact hclient (H.eq_zero hi (hsock s hs).1)
      have hstop : (r.reports .FD_ACCEPT && r.fails .FD_ACCEPT) = false := by
        rw [← Bool.not_eq_true, Bool.and_eq_true]
        exact hnofail
      rw [WorkerThread, H.note_eq hi hc hclose, onAccept_of_not hnot, hstop,
        onRest_of_closes hread hclose]
      exact H.close hi hclient hc
  | false =>
      by_cases htakes : r.reports .FD_ACCEPT = true ∧ r.fails .FD_ACCEPT = false
      · obtain ⟨hroom, hs, he, hselect⟩ := haccept htakes.1 htakes.2
        obtain ⟨s, hs⟩ := Option.ne_none_iff_exists'.mp hs
        obtain ⟨e, he⟩ := Option.ne_none_iff_exists'.mp he
        obtain ⟨-, hnew, hvalid⟩ := hsock s hs
        obtain ⟨hnull, hfresh⟩ := hevent e he
        rw [WorkerThread, H.note_of_not hi hclose, onAccept_of_takes H.total htakes,
          onRest_of_stays (.inr (.inr hclose))]
        exact H.add hroom hs hnew hvalid he hnull hfresh hselect
      · rw [WorkerThread, H.note_of_not hi hclose, onAccept_of_not htakes,
          onRest_of_stays (.inr (.inr hclose))]
        exact H

end Inv

/-! What shows in a table that is in order. -/

theorem Tied.not_entry (H : Tied τ) (hc : c ∉ τ.live) (hk : k < τ.EventTotal) :
    τ.owner (τ.Socket k) ≠ some c :=
  fun howner => hc (H.mem_live hk howner)

/-- After `CompressArray` the table is in order only if the accesses before it were, the
moved entry was one connection, and the listening socket was not closed. -/
theorem Tied.closed (hi : i ≤ WSA_MAXIMUM_WAIT_EVENTS)
    (H : Tied ((σ.closesocket (σ.Socket i)).CompressArray i)) :
    σ.inBounds = true ∧ (i + 1 < σ.EventTotal → ∃ c,
        σ.owner (σ.Socket (σ.EventTotal - 1)) = some c ∧
        σ.selected (σ.Event (σ.EventTotal - 1)) = some c) ∧
      (σ.Socket 0 = σ.Listen → i ≠ 0) := by
  rw [CompressArray, if_neg (Nat.not_lt.mpr hi)] at H
  have hsome : ∀ (f : Nat → Option Nat) x y d, Function.update f x none y = some d →
      f y = some d := by
    intro f x y d h
    rw [Function.update_apply] at h
    split at h
    · cases h
    · exact h
  refine ⟨?_, ?_, ?_⟩
  · have hbounds := H.inBounds
    simp only [touch, closesocket, Bool.and_eq_true] at hbounds
    exact hbounds.1.1
  · intro hlt
    have hplace : i < σ.EventTotal - 1 := by omega
    obtain ⟨c, hc, hsel⟩ := H.same i hplace
    simp only [touch, closesocket, remove_apply hplace, if_true] at hc hsel
    exact ⟨c, hsome _ _ _ _ hc, hsome _ _ _ _ hsel⟩
  · rintro hlisten rfl
    have hzero := H.listen.2.2
    simp only [touch, closesocket, hlisten, Function.update_self] at hzero
    cases hzero

theorem added_total : ((σ.accept r.calls).add r.calls).EventTotal = σ.EventTotal + 1 := by
  cases haccept : r.calls.accept <;> simp only [Server.add, Server.accept, haccept, touch]

theorem added_socket : ((σ.accept r.calls).add r.calls).Socket σ.EventTotal =
    r.calls.accept.getD INVALID_SOCKET := by
  cases haccept : r.calls.accept <;>
    simp only [Server.add, Server.accept, haccept, touch, Function.update_self]

theorem added_event : ((σ.accept r.calls).add r.calls).Event σ.EventTotal =
    r.calls.WSACreateEvent.getD NULL := by
  cases haccept : r.calls.accept <;>
    simp only [Server.add, Server.accept, haccept, touch, Function.update_self]

section
variable {L : Multiset Nat}

/-- The calls of the accept have all succeeded, if the new entry is one connection. -/
theorem Inv.calls_succeeded (H : Inv σ) (hpossible : σ.Possible r)
    (hentry : ∃ d, (((({ σ with live := L } : Server).accept r.calls).add r.calls).owner
        (r.calls.accept.getD INVALID_SOCKET)) = some d ∧
      ((({ σ with live := L } : Server).accept r.calls).add r.calls).selected
        (r.calls.WSACreateEvent.getD NULL) = some d) :
    r.calls.accept ≠ none ∧ r.calls.WSACreateEvent ≠ none ∧ r.calls.WSAEventSelect = true := by
  obtain ⟨-, -, -, hselects⟩ := hpossible
  obtain ⟨d, howner, hsel⟩ := hentry
  cases haccept : r.calls.accept with
  | none =>
      simp only [Server.add, Server.accept, haccept, touch, Option.getD_none] at howner
      rw [H.invalid] at howner
      cases howner
  | some s =>
      simp only [Server.add, Server.accept, haccept, touch, Option.getD_some,
        Function.update_self] at howner hsel
      cases howner
      cases hselect : r.calls.WSAEventSelect with
      | true => exact ⟨nofun, (hselects hselect).2, rfl⟩
      | false =>
          -- the new event reports nothing, or what was reported before
          simp only [hselect, Bool.false_eq_true, if_false] at hsel
          have hold := H.known _ _ hsel
          omega

theorem Inv.added_entry (H : Inv σ) (hpossible : σ.Possible r) (hk : k < σ.EventTotal) :
    ((({ σ with live := L } : Server).accept r.calls).add r.calls).owner
      (((({ σ with live := L } : Server).accept r.calls).add r.calls).Socket k) =
        σ.owner (σ.Socket k) := by
  obtain ⟨-, hsock, -, -⟩ := hpossible
  obtain ⟨c, hc, -⟩ := H.same k hk
  cases haccept : r.calls.accept with
  | none => simp only [Server.add, Server.accept, haccept, touch, Function.update_of_ne hk.ne]
  | some s =>
      have hne : σ.Socket k ≠ s := by
        rintro rfl
        rw [(hsock _ haccept).2.1] at hc
        cases hc
      simp only [Server.add, Server.accept, haccept, touch, Function.update_of_ne hk.ne,
        Function.update_of_ne hne]

end

theorem Inv.orderly_of_tied (H : Inv σ) (hstep : σ.step r = some τ) (hτ : Tied τ) :
    σ.Orderly r := by
  obtain ⟨hpossible, heq⟩ := Option.ite_none_right_eq_some.mp hstep
  cases heq
  have hi := hpossible.1
  obtain ⟨c, hc, -⟩ := H.same r.Index hi
  obtain ⟨L, hL, hlost⟩ : ∃ L, (σ.touch r.Index).note r = { σ with live := L } ∧
      (r.reports .FD_CLOSE = true → c ∉ L) := by
    cases hclose : r.reports .FD_CLOSE with
    | true =>
        refine ⟨_, H.note_eq hi hc hclose, fun _ => ?_⟩
        rw [Multiset.sub_singleton]
        exact fun hmem => (Multiset.Nodup.mem_erase_iff H.once).mp hmem |>.1 rfl
    | false => exact ⟨σ.live, H.note_of_not hi hclose, nofun⟩
  rw [WorkerThread, hL] at hτ
  by_cases htakes : r.reports .FD_ACCEPT = true ∧ r.fails .FD_ACCEPT = false
  · rw [onAccept_of_takes (σ := { σ with live := L }) H.total htakes] at hτ
    by_cases hends : r.readStops = false ∧ r.reports .FD_CLOSE = true
    · -- the listening socket itself is closed
      rw [onRest_of_closes hends.1 hends.2] at hτ
      obtain ⟨-, hmoved, hzero⟩ := hτ.closed (H.lt_bound hi).le
      have hcount := added_total (σ := { σ with live := L }) (r := r)
      rw [hcount, Nat.add_sub_cancel] at hmoved
      obtain ⟨d, hd, hsel⟩ := hmoved (Nat.succ_lt_succ hi)
      rw [added_socket] at hd
      rw [added_event] at hsel
      have hcalls := H.calls_succeeded hpossible ⟨d, hd, hsel⟩
      obtain ⟨s, hs⟩ := Option.ne_none_iff_exists'.mp hcalls.1
      have hlisten := H.listen
      refine absurd (H.eq_zero hi (hpossible.2.1 s hs).1) (hzero ?_)
      simp only [Server.add, Server.accept, hs, touch, Function.update_of_ne hlisten.1.ne]
      exact hlisten.2.1
    · have hstays : r.readStops = true ∨ r.reports .FD_CLOSE = false := by
        cases hread : r.readStops with
        | true => exact .inl rfl
        | false =>
            right
            rw [← Bool.not_eq_true]
            exact fun hclose => hends ⟨hread, hclose⟩
      rw [onRest_of_stays (.inr hstays)] at hτ
      have hcount := added_total (σ := { σ with live := L }) (r := r)
      refine ⟨fun _ _ => ⟨?_, ?_⟩, fun hclose => ?_⟩
      · have htotal := hτ.total
        rw [hcount] at htotal
        exact htotal
      · obtain ⟨d, hd, hsel⟩ := hτ.same σ.EventTotal (by rw [hcount]; exact Nat.lt_succ_self _)
        rw [added_socket] at hd
        rw [added_event] at hsel
        exact H.calls_succeeded hpossible ⟨d, hd, hsel⟩
      · refine absurd ((H.added_entry hpossible hi).trans hc)
          (hτ.not_entry ?_ (by rw [hcount]; exact Nat.lt_succ_of_lt hi))
        have hold := H.old c (H.mem_live hi hc)
        have hlost := hlost hclose
        cases haccept : r.calls.accept with
        | none => simpa [Server.add, Server.accept, haccept, touch, H.invalid] using hlost
        | some s =>
            simp only [Server.add, Server.accept, haccept, touch, Option.getD_some,
              Function.update_self, Option.elim_some, Multiset.singleton_add, Multiset.mem_cons]
            rintro (hnew | hmem)
            · omega
            · exact hlost hmem
  · rw [onAccept_of_not htakes] at hτ
    refine ⟨fun haccept hfail => absurd ⟨haccept, hfail⟩ htakes, fun hclose => ?_⟩
    cases hstop : r.reports .FD_ACCEPT && r.fails .FD_ACCEPT || r.readStops with
    | true =>
        rw [onRest_of_stays ((Bool.or_eq_true_iff.mp hstop).imp_right .inl)] at hτ
        exact absurd hc (hτ.not_entry (hlost hclose) hi)
    | false =>
        obtain ⟨hfail, hread⟩ := Bool.or_eq_false_iff.mp hstop
        rw [hfail, onRest_of_closes hread hclose] at hτ
        obtain ⟨-, -, hzero⟩ := hτ.closed (H.lt_bound hi).le
        refine ⟨hzero H.listen.2.1, hread, ?_⟩
        rw [← Bool.and_eq_true, hfail]
        exact Bool.false_ne_true

end

theorem start_inv {Listen NewEvent : Nat} (hsocket : Listen ≠ INVALID_SOCKET)
    (hevent : NewEvent ≠ NULL) : Inv (start Listen NewEvent) where
  total := (by decide : 1 ≤ WSA_MAXIMUM_WAIT_EVENTS)
  inBounds := rfl
  same k hk := by
    obtain rfl : k = 0 := Nat.lt_one_iff.mp hk
    exact ⟨0, by simp [start], by simp [start]⟩
  live := by simp [start, bag]
  listen := ⟨Nat.one_pos, by simp [start], by simp [start]⟩
  once := Multiset.nodup_singleton 0
  old c hc := (Multiset.mem_singleton.mp hc).le
  known e c hc := by
    simp only [start, Function.update_apply] at hc
    split at hc <;> cases hc
    exact Nat.le_refl 0
  invalid := by
    simp only [start]
    rw [Function.update_of_ne hsocket.symm]
  null := by
    simp only [start]
    rw [Function.update_of_ne hevent.symm]

end Server

/-- **The event table.**  From the start of the server, if every round meets the condition, the
table is in order; and the next round leaves it in order exactly if it does, too. -/
theorem event_table {Listen NewEvent : Nat} (hsocket : Listen ≠ INVALID_SOCKET)
    (hevent : NewEvent ≠ NULL) {σ : Server}
    (h : Via Server.step Server.Orderly (start Listen NewEvent) σ) :
    σ.Tied ∧ ∀ r τ, σ.step r = some τ → (τ.Tied ↔ σ.Orderly r) := by
  have H : σ.Inv := h.invariant (Server.start_inv hsocket hevent)
    fun _ _ _ H hok hstep => H.step_of_orderly hok hstep
  refine ⟨H.toTied, fun r τ hstep => ⟨H.orderly_of_tied hstep, fun hok => ?_⟩⟩
  exact (H.step_of_orderly hok hstep).toTied

/-- The listening socket reports a client, which gets the socket `s` and the event `e`. -/
def arrival (s e : Nat) : Round :=
  ⟨0, ⟨[.FD_ACCEPT], []⟩, ⟨some s, some e, true, true, true⟩⟩

/-- Two clients; the first one sends and is closed at once, and the second takes its place. -/
theorem event_table_twoClients : ∃ σ, Via Server.step Server.Orderly (start 3 7) σ ∧
    (σ.Socket 1 = 5 ∧ σ.live = {0, 2}) ∧ σ.Tied := by
  have hrun : ∃ σ, Via Server.step Server.Orderly (start 3 7) σ ∧
      σ.Socket 1 = 5 ∧ σ.live = {0, 2} :=
    exists_via_of_execIf [arrival 4 8, arrival 5 9,
      ⟨1, ⟨[.FD_READ, .FD_CLOSE], []⟩, ⟨none, none, false, true, true⟩⟩] (by decide +kernel)
  obtain ⟨σ, hσ, hend⟩ := hrun
  exact ⟨σ, hσ, hend, (event_table (by decide) (by decide) hσ).1⟩

/-- With 63 clients the table is full, and one more is let in. -/
theorem not_event_table : ∃ σ, Via Server.step (fun _ _ => True) (start 3 7) σ ∧
    σ.EventTotal = 65 ∧ σ.inBounds = false ∧ ¬ σ.Tied := by
  have hrun : ∃ σ, Via Server.step (fun _ _ => True) (start 3 7) σ ∧
      σ.EventTotal = 65 ∧ σ.inBounds = false :=
    exists_via_of_execIf ((List.range 64).map fun k => arrival (10 + k) (100 + k))
      (by decide +kernel)
  obtain ⟨σ, hσ, htotal, hbounds⟩ := hrun
  refine ⟨σ, hσ, htotal, hbounds, fun H => ?_⟩
  have hin := H.inBounds
  rw [hbounds] at hin
  cases hin

end CppWorkspace.EventSelectServer
