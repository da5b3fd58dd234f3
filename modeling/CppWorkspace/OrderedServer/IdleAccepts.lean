/-
# `CppWorkspace.OrderedServer.IdleAccepts` — `PendingAccepts` and the scan of `main`

`main` posts `gOverlappedCount` accepts on each of its listening sockets and writes their
buffers into `PendingAccepts`.  Nobody writes there again.  A completion thread serves the
client of an accept and posts the accept once more, with a new `sclient`; when the accept
has failed it frees the buffer.  Every twelfth timeout `main` walks through the arrays, the
newest listening socket first, one step at a time:

| step | |
| :-- | :-- |
| `read` | load `PendingAccepts[i]->sclient` |
| `look` | `getsockopt(SO_CONNECT_TIME)`; an error ends the program |
| `reread` | load `PendingAccepts[i]->sclient` again |
| `close` | `closesocket` |

A handle that is closed may be handed out again by `socket()`.

The set-up of the listening sockets themselves (`bind`, `WSAIoctl`, `listen`) is left out,
as is `SockCritSec`, which only forbids some of the orders of the completion threads.
`FreeSocketObj` on a listening socket is left out too: it comes after an accept that failed.
-/
import CppWorkspace.Lib.Runs
import Mathlib.Data.List.Nodup
import Mathlib.Logic.Function.Basic

namespace CppWorkspace.OrderedServer

open Runs

abbrev SOCKET := Nat

def invalidSocket : SOCKET := 0xFFFFFFFF

/-- Where `main` is.  The listening sockets are numbered in the order in which they are made,
and `o` is one of them. -/
inductive MainPc where
  /-- `PendingAccepts[i] = GetBufferObj(...)` -/
  | fill (o : Nat)
  /-- `PostAccept`, before `socket()` -/
  | socket (o b : Nat)
  /-- `PostAccept`, before `lpfnAcceptEx` -/
  | acceptEx (o b : Nat)
  | wait (interval : Nat)
  | read (o i : Nat)
  | look (o i : Nat) (s : SOCKET)
  | reread (o i : Nat)
  | close (o i : Nat) (s : SOCKET)
  | returned (rc : Int)
deriving DecidableEq, Repr

/-- The listening sockets with their accepts; an accept is a pair of the listening socket and
its buffer.  `stale` are the buffers whose `sclient` the scan has closed. -/
structure Accepts where
  main : MainPc
  PendingAccepts : Nat → List Nat
  heap : List Nat
  sclient : Nat → SOCKET
  /-- the handles that are open -/
  handles : List SOCKET
  inFlight : List (Nat × Nat)
  /-- completed, before `GetSocketObj(buf->sclient, ...)` -/
  completed : List (Nat × Nat)
  /-- in `PostAccept`, before `socket()` -/
  posting : List (Nat × Nat)
  /-- in `PostAccept`, before `lpfnAcceptEx` -/
  issuing : List (Nat × Nat)
  clients : List SOCKET
  stale : List Nat

/-- A step of `main` or of a completion thread. -/
inductive AcceptAction where
  /-- the next step of `main`: `b` is what `GetBufferObj` returns and `s` what `socket()`
  returns; `ok` says that `AcceptEx` is accepted, that the wait timed out, or that the client
  has been idle for too long -/
  | main (b : Nat) (s : Option SOCKET) (ok : Bool)
  /-- the completion of an accept is taken from the port -/
  | complete (e : Nat × Nat) (error : Bool)
  /-- its client gets a `SOCKET_OBJ`; `ok` is the result of `CreateIoCompletionPort` -/
  | serve (e : Nat × Nat) (ok : Bool)
  /-- `PostAccept(sock, buf)` up to `socket()`, which returns `s` -/
  | socket (e : Nat × Nat) (s : Option SOCKET)
  /-- the rest of `PostAccept(sock, buf)` -/
  | acceptEx (e : Nat × Nat) (ok : Bool)
  /-- a client's `SOCKET_OBJ` closes its socket -/
  | closeClient (s : SOCKET)
deriving DecidableEq, Repr

/-- `main` has done the sockets from `o` on, newest first. -/
def MainPc.scanFrom (gOverlappedCount : Nat) : Nat → MainPc
  | 0 => .wait 0
  | o + 1 => if 0 < gOverlappedCount then .read o 0 else .wait 0

/-- `i++`, and `listenptr = listenptr->next`. -/
def MainPc.scanNext (gOverlappedCount o i : Nat) : MainPc :=
  if i + 1 < gOverlappedCount then .read o (i + 1) else .scanFrom gOverlappedCount o

/-- The entry that the scan is at. -/
def MainPc.scanning : MainPc → Option (Nat × Nat)
  | .read o i | .look o i _ | .reread o i | .close o i _ => some (o, i)
  | _ => none

/-- The entry of which the scan has loaded the socket. -/
def MainPc.looking : MainPc → Option (Nat × Nat)
  | .look o i _ | .close o i _ => some (o, i)
  | _ => none

namespace Accepts

variable (gOverlappedCount n : Nat)

/-- `n` addresses, for none of which anything has been posted. -/
def init : Accepts where
  main := if 0 < n ∧ 0 < gOverlappedCount then .fill 0 else .wait 0
  PendingAccepts := fun _ => []
  heap := []
  sclient := fun _ => 0
  handles := []
  inFlight := []
  completed := []
  posting := []
  issuing := []
  clients := []
  stale := []

/-- `acceptobj->sclient = socket(...)`. -/
def setClient (σ : Accepts) (b : Nat) : Option SOCKET → Option Accepts
  | none => some { σ with
      sclient := Function.update σ.sclient b invalidSocket
      stale := σ.stale.filter (· ≠ b) }
  | some s =>
      if s ∈ σ.handles ∨ s = invalidSocket then none
      else some { σ with
        sclient := Function.update σ.sclient b s
        handles := s :: σ.handles
        stale := σ.stale.filter (· ≠ b) }

/-- After the accept of the last entry of socket `o`. -/
def filled (σ : Accepts) (o : Nat) : MainPc :=
  if (σ.PendingAccepts o).length < gOverlappedCount then .fill o
  else if o + 1 < n then .fill (o + 1) else .wait 0

/-- `listenptr->PendingAccepts[i]`. -/
def entry (σ : Accepts) (o i : Nat) : Option Nat := (σ.PendingAccepts o)[i]?

def mainStep (σ : Accepts) (b : Nat) (s : Option SOCKET) (ok : Bool) : Option Accepts :=
  match σ.main with
  | .fill o =>
      if b ∈ σ.heap then none
      else some { σ with
        main := .socket o b
        heap := b :: σ.heap
        PendingAccepts := Function.update σ.PendingAccepts o (σ.PendingAccepts o ++ [b]) }
  | .socket o b => (σ.setClient b s).map fun τ =>
      { τ with main := if s.isSome then .acceptEx o b else σ.filled gOverlappedCount n o }
  | .acceptEx o b => some { σ with
      main := σ.filled gOverlappedCount n o
      inFlight := if ok then (o, b) :: σ.inFlight else σ.inFlight }
  | .wait interval => some { σ with
      main :=
        if ok then
          if interval + 1 = 12 then .scanFrom gOverlappedCount n else .wait (interval + 1)
        else .returned 0 }
  | .read o i => (σ.entry o i).map fun b => { σ with main := .look o i (σ.sclient b) }
  | .look o i s => some { σ with
      main :=
        if s ∈ σ.handles then
          if ok then .reread o i else .scanNext gOverlappedCount o i
        else .returned (-1) }
  | .reread o i => (σ.entry o i).map fun b => { σ with main := .close o i (σ.sclient b) }
  | .close o i s => (σ.entry o i).map fun b => { σ with
      main := .scanNext gOverlappedCount o i
      handles := σ.handles.erase s
      stale := b :: σ.stale }
  | .returned _ => none

def step (σ : Accepts) : AcceptAction → Option Accepts
  | .main b s ok => σ.mainStep gOverlappedCount n b s ok
  | .complete e error =>
      if e ∈ σ.inFlight then
        some { σ with
          inFlight := σ.inFlight.erase e
          heap := if error then σ.heap.erase e.2 else σ.heap
          completed := if error then σ.completed else e :: σ.completed }
      else none
  | .serve e ok =>
      if e ∈ σ.completed then
        some { σ with
          completed := σ.completed.erase e
          posting := if ok then e :: σ.posting else σ.posting
          clients := if ok then σ.sclient e.2 :: σ.clients else σ.clients }
      else none
  | .socket e s =>
      if e ∈ σ.posting then
        (σ.setClient e.2 s).map fun τ => { τ with
          posting := σ.posting.erase e
          issuing := if s.isSome then e :: σ.issuing else σ.issuing }
      else none
  | .acceptEx e ok =>
      if e ∈ σ.issuing then
        some { σ with
          issuing := σ.issuing.erase e
          inFlight := if ok then e :: σ.inFlight else σ.inFlight }
      else none
  | .closeClient s =>
      if s ∈ σ.clients then
        some { σ with clients := σ.clients.erase s, handles := σ.handles.erase s }
      else none

/-- No completion thread has an accept of its own. -/
def Quiet (σ : Accepts) : Prop := σ.completed = [] ∧ σ.posting = [] ∧ σ.issuing = []

instance (σ : Accepts) : Decidable σ.Quiet := inferInstanceAs (Decidable (_ ∧ _ ∧ _))

/-- The buffer whose socket the scan has loaded. -/
def standing (σ : Accepts) : Option Nat := σ.main.looking.bind fun p => σ.entry p.1 p.2

/-- The steps of `main`: its accepts are accepted, and it scans while the completion threads
have nothing to do with accepts and does not come to a socket that it has closed. -/
def SmoothMain (σ : Accepts) (s : Option SOCKET) (ok : Bool) : MainPc → Prop
  | .socket .. => s.isSome
  | .acceptEx .. => ok
  | .read o i => σ.Quiet ∧ ∀ b ∈ σ.stale, σ.entry o i ≠ some b
  | .look .. | .reread .. | .close .. => σ.Quiet
  | .fill _ | .wait _ | .returned _ => True

/-- Accepts succeed and are posted again.  None completes whose socket `main` has closed, or has
loaded to look at it or to close it. -/
def Smooth (σ : Accepts) : AcceptAction → Prop
  | .main _ s ok => σ.SmoothMain s ok σ.main
  | .complete e error => error = false ∧ e.2 ∉ σ.stale ∧ σ.standing ≠ some e.2
  | .serve _ ok => ok
  | .socket _ s => s.isSome
  | .acceptEx _ ok => ok
  | .closeClient _ => True

instance (σ : Accepts) (s : Option SOCKET) (ok : Bool) : ∀ pc, Decidable (σ.SmoothMain s ok pc)
  | .socket .. => inferInstanceAs (Decidable (s.isSome = true))
  | .acceptEx .. => inferInstanceAs (Decidable (ok = true))
  | .read o i => inferInstanceAs (Decidable (_ ∧ ∀ b ∈ σ.stale, σ.entry o i ≠ some b))
  | .look .. | .reread .. | .close .. => inferInstanceAs (Decidable σ.Quiet)
  | .fill _ | .wait _ | .returned _ => isTrue trivial

instance (σ : Accepts) : ∀ act, Decidable (σ.Smooth act)
  | .main _ s ok => inferInstanceAs (Decidable (σ.SmoothMain s ok σ.main))
  | .complete e error =>
      inferInstanceAs (Decidable (error = false ∧ e.2 ∉ σ.stale ∧ σ.standing ≠ some e.2))
  | .serve _ ok => inferInstanceAs (Decidable (ok = true))
  | .socket _ s => inferInstanceAs (Decidable (s.isSome = true))
  | .acceptEx _ ok => inferInstanceAs (Decidable (ok = true))
  | .closeClient _ => isTrue trivial

end Accepts

/-- What a step of the scan may rely on. -/
structure Scanned (gOverlappedCount n : Nat) (σ : Accepts) : Prop where
  full : ∀ o < n, (σ.PendingAccepts o).length = gOverlappedCount ∧ (σ.PendingAccepts o).Nodup
  pending : ∀ o < n, ∀ b, b ∈ σ.PendingAccepts o ↔ (o, b) ∈ σ.inFlight
  live : ∀ o < n, ∀ b ∈ σ.PendingAccepts o, b ∈ σ.heap
  entry : ∀ o i, σ.main.scanning = some (o, i) → o < n ∧ i < gOverlappedCount
  closes : ∀ o i s, σ.main = .close o i s → s ∉ σ.clients

/-- A step of the scan is taken in such a state. -/
def ScansRight (gOverlappedCount n : Nat) (σ : Accepts) : AcceptAction → Prop
  | .main .. => σ.main.scanning ≠ none → Scanned gOverlappedCount n σ
  | _ => True

/-! ## Who has a buffer -/

/-- The accept that `main` has made a socket for. -/
def MainPc.issuing : MainPc → List (Nat × Nat)
  | .acceptEx o b => [(o, b)]
  | _ => []

def MainPc.posting : MainPc → List (Nat × Nat)
  | .socket o b => [(o, b)]
  | _ => []

namespace Accepts

/-- The accepts that have a socket. -/
def holders (σ : Accepts) : List (Nat × Nat) :=
  σ.inFlight ++ (σ.completed ++ (σ.issuing ++ σ.main.issuing))

/-- The accepts whose socket is still to be made. -/
def makers (σ : Accepts) : List (Nat × Nat) := σ.posting ++ σ.main.posting

/-- The socket of this buffer is open and its own. -/
def Holds (σ : Accepts) (b : Nat) : Prop := (∃ o, (o, b) ∈ σ.holders) ∧ b ∉ σ.stale

end Accepts

/-- Every buffer of the arrays is in one place, and it is live. -/
structure Placing (pend : Nat → List Nat) (heap : List Nat) (l : List (Nat × Nat)) : Prop where
  mem : ∀ o b, (o, b) ∈ l ↔ b ∈ pend o
  once : (l.map Prod.snd).Nodup
  arrays : ∀ o, (pend o).Nodup
  live : ∀ o, ∀ b ∈ pend o, b ∈ heap

/-- Nobody shares a socket. -/
structure Owned (holds : Nat → Prop) (sclient : Nat → SOCKET) (clients handles : List SOCKET) :
    Prop where
  inj : ∀ b c, holds b → holds c → sclient b = sclient c → b = c
  apart : ∀ b, holds b → sclient b ∉ clients
  once : clients.Nodup
  held : ∀ b, holds b → sclient b ∈ handles
  served : ∀ v ∈ clients, v ∈ handles

/-- The arrays when `main` is at socket `o`. -/
def Reached (gOverlappedCount : Nat) (pend : Nat → List Nat) (o : Nat) : Prop :=
  (∀ p < o, (pend p).length = gOverlappedCount) ∧ ∀ p, o < p → pend p = []

def Full (gOverlappedCount n : Nat) (pend : Nat → List Nat) : Prop :=
  ∀ o < n, (pend o).length = gOverlappedCount

/-- What `main` knows about the accept that it looks at. -/
def Accepts.Looking (σ : Accepts) (o i : Nat) (s : SOCKET) : Prop :=
  ∃ b, σ.entry o i = some b ∧ (o, b) ∈ σ.inFlight ∧ b ∉ σ.stale ∧ σ.sclient b = s

/-- What `main` knows where it is. -/
def Accepts.At (gOverlappedCount n : Nat) (σ : Accepts) : MainPc → Prop
  | .fill o => o < n ∧ (σ.PendingAccepts o).length < gOverlappedCount ∧
      Reached gOverlappedCount σ.PendingAccepts o
  | .socket o _ | .acceptEx o _ => o < n ∧ 0 < gOverlappedCount ∧
      (σ.PendingAccepts o).length ≤ gOverlappedCount ∧
      Reached gOverlappedCount σ.PendingAccepts o
  | .wait _ => Full gOverlappedCount n σ.PendingAccepts
  | .read o i => Full gOverlappedCount n σ.PendingAccepts ∧ o < n ∧ i < gOverlappedCount
  | .reread o i => (Full gOverlappedCount n σ.PendingAccepts ∧ o < n ∧ i < gOverlappedCount) ∧
      ∀ b, σ.entry o i = some b → b ∉ σ.stale
  | .look o i s | .close o i s =>
      (Full gOverlappedCount n σ.PendingAccepts ∧ o < n ∧ i < gOverlappedCount) ∧ σ.Looking o i s
  | .returned rc => rc ≠ -1

/-- What holds in every state. -/
structure AcceptsInv (gOverlappedCount n : Nat) (σ : Accepts) : Prop where
  placed : Placing σ.PendingAccepts σ.heap (σ.holders ++ σ.makers)
  owned : Owned σ.Holds σ.sclient σ.clients σ.handles
  stale : ∀ b ∈ σ.stale, ∃ o, (o, b) ∈ σ.inFlight
  main : σ.At gOverlappedCount n σ.main

section
variable {k n o b : Nat} {pend : Nat → List Nat} {heap : List Nat} {l l' : List (Nat × Nat)}
  {holds holds' : Nat → Prop} {sclient : Nat → SOCKET} {clients handles : List SOCKET} {s : SOCKET}

theorem Placing.perm (h : Placing pend heap l) (hl : l'.Perm l) : Placing pend heap l' where
  mem o b := hl.mem_iff.trans (h.mem o b)
  once := ((hl.map Prod.snd).nodup_iff).mpr h.once
  arrays := h.arrays
  live := h.live

theorem Placing.fill (h : Placing pend heap l) (hb : b ∉ heap) (o : Nat) :
    Placing (Function.update pend o (pend o ++ [b])) (b :: heap) ((o, b) :: l) where
  mem p c := by
    rw [List.mem_cons, h.mem]
    by_cases hp : p = o
    · subst hp
      rw [Function.update_self, List.mem_append, List.mem_singleton, Prod.mk.injEq]
      tauto
    · rw [Function.update_of_ne hp, Prod.mk.injEq]
      tauto
  once := by
    rw [List.map_cons, List.nodup_cons]
    refine ⟨fun hmem => ?_, h.once⟩
    obtain ⟨⟨p, c⟩, hp, rfl⟩ := List.mem_map.mp hmem
    exact hb (h.live p c ((h.mem p c).mp hp))
  arrays p := by
    by_cases hp : p = o
    · subst hp
      rw [Function.update_self]
      refine (h.arrays p).append (List.nodup_singleton b) ?_
      rw [List.disjoint_singleton]
      exact fun hmem => hb (h.live p b hmem)
    · rw [Function.update_of_ne hp]
      exact h.arrays p
  live p c hc := by
    by_cases hp : p = o
    · subst hp
      rw [Function.update_self, List.mem_append, List.mem_singleton] at hc
      rcases hc with hc | rfl
      · exact List.mem_cons_of_mem b (h.live p c hc)
      · exact List.mem_cons_self
    · rw [Function.update_of_ne hp] at hc
      exact List.mem_cons_of_mem b (h.live p c hc)

theorem Placing.apart (h : Placing pend heap (l ++ l')) {e e' : Nat × Nat} (he : e ∈ l)
    (he' : e' ∈ l') : e.2 ≠ e'.2 := by
  have honce := h.once
  rw [List.map_append] at honce
  exact fun heq => (List.disjoint_of_nodup_append honce) (List.mem_map_of_mem he)
    (heq ▸ List.mem_map_of_mem he')

/-! ## Who has a socket -/

namespace Owned

theorem mono (h : Owned holds sclient clients handles) (hmono : ∀ b, holds' b → holds b) :
    Owned holds' sclient clients handles where
  inj b c hb hc := h.inj b c (hmono b hb) (hmono c hc)
  apart b hb := h.apart b (hmono b hb)
  once := h.once
  held b hb := h.held b (hmono b hb)
  served := h.served

theorem serve (h : Owned holds sclient clients handles) (hb : holds b)
    (hmono : ∀ c, holds' c → holds c ∧ c ≠ b) :
    Owned holds' sclient (sclient b :: clients) handles where
  inj c d hc hd := h.inj c d (hmono c hc).1 (hmono d hd).1
  apart c hc hmem := by
    obtain ⟨hc, hne⟩ := hmono c hc
    rcases List.mem_cons.mp hmem with heq | hmem
    · exact hne (h.inj c b hc hb heq)
    · exact h.apart c hc hmem
  once := List.nodup_cons.mpr ⟨h.apart b hb, h.once⟩
  held c hc := h.held c (hmono c hc).1
  served v hv := by
    rcases List.mem_cons.mp hv with rfl | hv
    · exact h.held b hb
    · exact h.served v hv

theorem make (h : Owned holds sclient clients handles) (hs : s ∉ handles)
    (hmono : ∀ c, holds' c → c = b ∨ c ≠ b ∧ holds c) :
    Owned holds' (Function.update sclient b s) clients (s :: handles) := by
  have hcase : ∀ c, holds' c → c = b ∧ Function.update sclient b s c = s ∨
      c ≠ b ∧ holds c ∧ Function.update sclient b s c = sclient c := by
    intro c hc
    rcases hmono c hc with rfl | ⟨hne, hc⟩
    · exact .inl ⟨rfl, Function.update_self ..⟩
    · exact .inr ⟨hne, hc, Function.update_of_ne hne ..⟩
  refine ⟨fun c d hc hd heq => ?_, fun c hc hmem => ?_, h.once, fun c hc => ?_, fun v hv => ?_⟩
  · rcases hcase c hc with ⟨rfl, hc⟩ | ⟨-, hc, hcs⟩ <;>
      rcases hcase d hd with ⟨rfl, hd⟩ | ⟨-, hd, hds⟩
    · rfl
    · rw [hc, hds] at heq
      exact absurd (heq ▸ h.held d hd) hs
    · rw [hd, hcs] at heq
      exact absurd (heq ▸ h.held c hc) hs
    · rw [hcs, hds] at heq
      exact h.inj c d hc hd heq
  · rcases hcase c hc with ⟨-, hc⟩ | ⟨-, hc, hcs⟩
    · rw [hc] at hmem
      exact hs (h.served s hmem)
    · rw [hcs] at hmem
      exact h.apart c hc hmem
  · rcases hcase c hc with ⟨-, hc⟩ | ⟨-, hc, hcs⟩
    · rw [hc]
      exact List.mem_cons_self
    · rw [hcs]
      exact List.mem_cons_of_mem s (h.held c hc)
  · exact List.mem_cons_of_mem s (h.served v hv)

theorem close (h : Owned holds sclient clients handles) (hb : holds b)
    (hmono : ∀ c, holds' c → holds c ∧ c ≠ b) :
    Owned holds' sclient clients (handles.erase (sclient b)) where
  inj c d hc hd := h.inj c d (hmono c hc).1 (hmono d hd).1
  apart c hc := h.apart c (hmono c hc).1
  once := h.once
  held c hc := by
    obtain ⟨hc, hne⟩ := hmono c hc
    exact (List.mem_erase_of_ne fun heq => hne (h.inj c b hc hb heq)).mpr (h.held c hc)
  served v hv := by
    refine (List.mem_erase_of_ne fun heq => ?_).mpr (h.served v hv)
    exact h.apart b hb (heq ▸ hv)

theorem closeClient (h : Owned holds sclient clients handles) (hs : s ∈ clients) :
    Owned holds sclient (clients.erase s) (handles.erase s) where
  inj := h.inj
  apart b hb hmem := h.apart b hb (List.mem_of_mem_erase hmem)
  once := h.once.erase s
  held b hb := by
    refine (List.mem_erase_of_ne fun heq => ?_).mpr (h.held b hb)
    exact h.apart b hb (heq ▸ hs)
  served v hv := by
    obtain ⟨hne, hv⟩ := h.once.mem_erase_iff.mp hv
    exact (List.mem_erase_of_ne hne).mpr (h.served v hv)

end Owned

end

/-! ## Where `main` is -/

section
variable {k n o i b : Nat} {e : Nat × Nat} {s : SOCKET} {σ τ : Accepts} {pc : MainPc}

namespace Accepts

theorem At.mono (h : σ.At k n pc) (hpend : τ.PendingAccepts = σ.PendingAccepts)
    (hstale : ∀ b ∈ τ.stale, b ∈ σ.stale)
    (hlook : ∀ o i s, pc.looking = some (o, i) → σ.Looking o i s → τ.Looking o i s) :
    τ.At k n pc := by
  cases pc with
  | fill o | socket o b | acceptEx o b | wait interval | read o i =>
      simp only [At, hpend] at h ⊢
      exact h
  | returned rc => exact h
  | look o i s | close o i s =>
      simp only [At, hpend] at h ⊢
      exact ⟨h.1, hlook o i s rfl h.2⟩
  | reread o i =>
      simp only [At, entry, hpend] at h ⊢
      exact ⟨h.1, fun b hb hmem => h.2 b hb (hstale b hmem)⟩

theorem at_scanFrom (hfull : Full k n σ.PendingAccepts) (ho : o ≤ n) :
    σ.At k n (.scanFrom k o) := by
  cases o with
  | zero => exact hfull
  | succ o =>
      by_cases hk : 0 < k
      · rw [MainPc.scanFrom, if_pos hk]
        exact ⟨hfull, ho, hk⟩
      · rw [MainPc.scanFrom, if_neg hk]
        exact hfull

theorem at_scanNext (h : Full k n σ.PendingAccepts ∧ o < n ∧ i < k) :
    σ.At k n (.scanNext k o i) := by
  obtain ⟨hfull, ho, -⟩ := h
  by_cases hi : i + 1 < k
  · rw [MainPc.scanNext, if_pos hi]
    exact ⟨hfull, ho, hi⟩
  · rw [MainPc.scanNext, if_neg hi]
    exact at_scanFrom hfull (Nat.le_of_lt ho)

/-- `PostAccept` is done, whatever it has returned. -/
theorem at_filled (ho : o < n) (hk : 0 < k) (hle : (σ.PendingAccepts o).length ≤ k)
    (hreached : Reached k σ.PendingAccepts o) : σ.At k n (σ.filled k n o) := by
  unfold filled
  split
  next hlt => exact ⟨ho, hlt, hreached⟩
  next hge =>
    have hlen : (σ.PendingAccepts o).length = k := Nat.le_antisymm hle (Nat.le_of_not_lt hge)
    have hupto : ∀ p ≤ o, (σ.PendingAccepts p).length = k := fun p hp => by
      rcases Nat.lt_or_eq_of_le hp with hp | rfl
      · exact hreached.1 p hp
      · exact hlen
    split
    next hnext =>
      refine ⟨hnext, ?_, fun p hp => hupto p (Nat.le_of_lt_succ hp), fun p hp => ?_⟩
      · rw [hreached.2 (o + 1) (Nat.lt_succ_self o)]
        exact hk
      · exact hreached.2 p (Nat.lt_of_succ_lt hp)
    next hlast => exact fun p hp => hupto p (by omega)

end Accepts

namespace AcceptsInv

theorem holds_of_flight (he : e ∈ σ.inFlight) (hstale : e.2 ∉ σ.stale) : σ.Holds e.2 :=
  ⟨⟨e.1, List.mem_append_left _ he⟩, hstale⟩

theorem flight_apart (h : AcceptsInv k n σ) {e' : Nat × Nat} (he : e ∈ σ.inFlight)
    (he' : e' ∈ σ.completed ++ (σ.issuing ++ σ.main.issuing) ++ σ.makers) : e.2 ≠ e'.2 := by
  have hplaced := h.placed
  rw [Accepts.holders, List.append_assoc] at hplaced
  exact hplaced.apart he he'

theorem not_stale (h : AcceptsInv k n σ)
    (he : e ∈ σ.completed ++ (σ.issuing ++ σ.main.issuing) ++ σ.makers) : e.2 ∉ σ.stale := by
  intro hmem
  obtain ⟨o, ho⟩ := h.stale _ hmem
  exact h.flight_apart ho he rfl

theorem moved (h : AcceptsInv k n σ) (hholders : τ.holders.Perm σ.holders)
    (hmakers : τ.makers.Perm σ.makers) (hpend : τ.PendingAccepts = σ.PendingAccepts)
    (hheap : τ.heap = σ.heap) (hsclient : τ.sclient = σ.sclient) (hclients : τ.clients = σ.clients)
    (hhandles : τ.handles = σ.handles) (hstales : τ.stale = σ.stale)
    (hstale : ∀ b ∈ σ.stale, ∃ o, (o, b) ∈ τ.inFlight) (hmain : τ.At k n τ.main) :
    AcceptsInv k n τ where
  placed := by
    rw [hpend, hheap]
    exact h.placed.perm (hholders.append hmakers)
  owned := by
    rw [hsclient, hclients, hhandles]
    refine h.owned.mono fun b hb => ?_
    obtain ⟨⟨o, ho⟩, hb⟩ := hb
    rw [hstales] at hb
    exact ⟨⟨o, hholders.mem_iff.mp ho⟩, hb⟩
  stale b hb := hstale b (hstales ▸ hb)
  main := hmain

theorem made (h : AcceptsInv k n σ) (hs : s ∉ σ.handles)
    (hholders : τ.holders.Perm (e :: σ.holders)) (hmakers : σ.makers.Perm (e :: τ.makers))
    (hpend : τ.PendingAccepts = σ.PendingAccepts) (hheap : τ.heap = σ.heap)
    (hsclient : τ.sclient = Function.update σ.sclient e.2 s) (hclients : τ.clients = σ.clients)
    (hhandles : τ.handles = s :: σ.handles) (hstale : τ.stale = σ.stale.filter (· ≠ e.2))
    (hflight : τ.inFlight = σ.inFlight)
    (hmain : σ.At k n τ.main) : AcceptsInv k n τ := by
  have he : e ∈ σ.makers := hmakers.mem_iff.mpr List.mem_cons_self
  have hstays : ∀ b ∈ τ.stale, b ∈ σ.stale := fun b hb =>
    List.mem_of_mem_filter (hstale ▸ hb)
  refine ⟨?_, ?_, fun b hb => ?_, hmain.mono hpend hstays fun o i v _ hlook => ?_⟩
  · rw [hpend, hheap]
    refine h.placed.perm ((hholders.append_right _).trans ?_)
    exact List.perm_middle.symm.trans (hmakers.symm.append_left _)
  · rw [hsclient, hclients, hhandles]
    refine h.owned.make hs fun c hc => ?_
    obtain ⟨⟨o, ho⟩, hc⟩ := hc
    rw [hstale, List.mem_filter, decide_eq_true_eq] at hc
    by_cases hce : c = e.2
    · exact .inl hce
    · refine .inr ⟨hce, ⟨o, ?_⟩, fun hmem => hc ⟨hmem, hce⟩⟩
      exact (List.mem_cons.mp (hholders.mem_iff.mp ho)).resolve_left fun heq => hce (heq ▸ rfl)
  · rw [hflight]
    exact h.stale b (hstays b hb)
  · obtain ⟨b, hentry, hb, hnot, hv⟩ := hlook
    have hne : b ≠ e.2 := h.placed.apart (List.mem_append_left _ hb) he
    refine ⟨b, ?_, hflight ▸ hb, fun hmem => hnot (hstays b hmem), ?_⟩
    · rw [Accepts.entry, hpend]
      exact hentry
    · rw [hsclient, Function.update_of_ne hne]
      exact hv

end AcceptsInv

/-! ## The completion threads -/

namespace AcceptsInv

theorem at_worker (h : AcceptsInv k n σ) (hpend : τ.PendingAccepts = σ.PendingAccepts)
    (hsclient : τ.sclient = σ.sclient) (hstale : τ.stale = σ.stale)
    (hflight : ∀ o b, σ.standing = some b → (o, b) ∈ σ.inFlight → (o, b) ∈ τ.inFlight) :
    τ.At k n σ.main := by
  refine h.main.mono hpend (fun b hb => hstale ▸ hb) fun o i s hpc hlook => ?_
  obtain ⟨b, hentry, hb, hnot, hs⟩ := hlook
  refine ⟨b, ?_, hflight o b ?_ hb, hstale ▸ hnot, hsclient ▸ hs⟩
  · rw [Accepts.entry, hpend]
    exact hentry
  · rw [Accepts.standing, hpc]
    exact hentry

theorem complete (h : AcceptsInv k n σ) (he : e ∈ σ.inFlight) (hstale : e.2 ∉ σ.stale)
    (hstanding : σ.standing ≠ some e.2) :
    AcceptsInv k n { σ with inFlight := σ.inFlight.erase e, completed := e :: σ.completed } := by
  have hstays : ∀ o b, b ≠ e.2 → (o, b) ∈ σ.inFlight → (o, b) ∈ σ.inFlight.erase e :=
    fun o b hne hb => (List.mem_erase_of_ne fun heq => hne (congrArg Prod.snd heq)).mpr hb
  refine h.moved ?_ (List.Perm.refl _) rfl rfl rfl rfl rfl rfl (fun b hb => ?_)
    (h.at_worker rfl rfl rfl fun o b hat => hstays o b fun heq => hstanding (heq ▸ hat))
  · refine List.perm_iff_count.mpr fun c => ?_
    have hcount := (List.perm_cons_erase he).count_eq c
    unfold Accepts.holders
    simp only [List.count_append, List.count_cons] at hcount ⊢
    omega
  · obtain ⟨o, ho⟩ := h.stale b hb
    exact ⟨o, hstays o b (fun heq => hstale (heq ▸ hb)) ho⟩

theorem serve (h : AcceptsInv k n σ) (he : e ∈ σ.completed) :
    AcceptsInv k n { σ with
      completed := σ.completed.erase e
      posting := e :: σ.posting
      clients := σ.sclient e.2 :: σ.clients } := by
  have hholders : σ.holders.Perm (e :: Accepts.holders { σ with
      completed := σ.completed.erase e
      posting := e :: σ.posting
      clients := σ.sclient e.2 :: σ.clients }) := by
    refine List.perm_iff_count.mpr fun c => ?_
    have hcount := (List.perm_cons_erase he).count_eq c
    unfold Accepts.holders
    simp only [List.count_append, List.count_cons] at hcount ⊢
    omega
  have hmem : e ∈ σ.holders := hholders.mem_iff.mpr List.mem_cons_self
  have hplaced := h.placed.perm (List.perm_middle.trans (hholders.symm.append_right σ.makers))
  refine ⟨hplaced, ?_, h.stale, h.at_worker rfl rfl rfl fun _ _ _ hb => hb⟩
  refine h.owned.serve ⟨⟨e.1, hmem⟩, h.not_stale ?_⟩ fun c hc => ?_
  · exact List.mem_append_left _ (List.mem_append_left _ he)
  · obtain ⟨⟨o, ho⟩, hc⟩ := hc
    refine ⟨⟨⟨o, hholders.mem_iff.mpr (List.mem_cons_of_mem e ho)⟩, hc⟩, ?_⟩
    exact hplaced.apart (e := (o, c)) ho List.mem_cons_self

theorem worker_socket (h : AcceptsInv k n σ) (he : e ∈ σ.posting) (hs : s ∉ σ.handles) :
    AcceptsInv k n { σ with
      sclient := Function.update σ.sclient e.2 s
      handles := s :: σ.handles
      stale := σ.stale.filter (· ≠ e.2)
      posting := σ.posting.erase e
      issuing := e :: σ.issuing } := by
  refine h.made hs (e := e) ?_ ?_ rfl rfl rfl rfl rfl rfl rfl h.main
  · refine List.perm_iff_count.mpr fun c => ?_
    unfold Accepts.holders
    simp only [List.count_append, List.count_cons]
    omega
  · exact (List.perm_cons_erase he).append_right _

theorem worker_acceptEx (h : AcceptsInv k n σ) (he : e ∈ σ.issuing) :
    AcceptsInv k n { σ with issuing := σ.issuing.erase e, inFlight := e :: σ.inFlight } := by
  refine h.moved ?_ (List.Perm.refl _) rfl rfl rfl rfl rfl rfl (fun b hb => ?_)
    (h.at_worker rfl rfl rfl fun _ _ _ => List.mem_cons_of_mem e)
  · refine List.perm_iff_count.mpr fun c => ?_
    have hcount := (List.perm_cons_erase he).count_eq c
    unfold Accepts.holders
    simp only [List.count_append, List.count_cons] at hcount ⊢
    omega
  · obtain ⟨o, ho⟩ := h.stale b hb
    exact ⟨o, List.mem_cons_of_mem e ho⟩

theorem closeClient (h : AcceptsInv k n σ) (hs : s ∈ σ.clients) :
    AcceptsInv k n { σ with clients := σ.clients.erase s, handles := σ.handles.erase s } :=
  ⟨h.placed, h.owned.closeClient hs, h.stale, h.at_worker rfl rfl rfl fun _ _ _ hb => hb⟩

end AcceptsInv

/-! ## The steps of `main` -/

theorem Accepts.setClient_isSome {v : Option SOCKET} (hv : v.isSome)
    (h : σ.setClient b v = some τ) : ∃ s, v = some s ∧ s ∉ σ.handles ∧ τ = { σ with
      sclient := Function.update σ.sclient b s
      handles := s :: σ.handles
      stale := σ.stale.filter (· ≠ b) } := by
  obtain ⟨s, rfl⟩ := Option.isSome_iff_exists.mp hv
  obtain ⟨hs, h⟩ := Option.ite_none_left_eq_some.mp h
  cases h
  exact ⟨s, rfl, fun hmem => hs (.inl hmem), rfl⟩

/-- `main` has no accept of its own. -/
def MainPc.Alone (pc : MainPc) : Prop := pc.issuing = [] ∧ pc.posting = []

theorem scanFrom_alone (k o : Nat) : (MainPc.scanFrom k o).Alone := by
  cases o with
  | zero => exact ⟨rfl, rfl⟩
  | succ o =>
      by_cases hk : 0 < k
      · rw [MainPc.scanFrom, if_pos hk]
        exact ⟨rfl, rfl⟩
      · rw [MainPc.scanFrom, if_neg hk]
        exact ⟨rfl, rfl⟩

theorem scanNext_alone (k o i : Nat) : (MainPc.scanNext k o i).Alone := by
  by_cases hi : i + 1 < k
  · rw [MainPc.scanNext, if_pos hi]
    exact ⟨rfl, rfl⟩
  · rw [MainPc.scanNext, if_neg hi]
    exact scanFrom_alone k o

theorem filled_alone (σ : Accepts) (k n o : Nat) : (σ.filled k n o).Alone := by
  unfold Accepts.filled
  split
  next => exact ⟨rfl, rfl⟩
  next => split <;> exact ⟨rfl, rfl⟩

namespace AcceptsInv

theorem fill (h : AcceptsInv k n σ) (hmain : σ.main = .fill o) (hb : b ∉ σ.heap) :
    AcceptsInv k n { σ with
      main := .socket o b
      heap := b :: σ.heap
      PendingAccepts := Function.update σ.PendingAccepts o (σ.PendingAccepts o ++ [b]) } := by
  have hat := h.main
  rw [hmain] at hat
  obtain ⟨ho, hlt, hreached⟩ := hat
  have hrest : σ.main.issuing = [] ∧ σ.main.posting = [] := by
    rw [hmain]
    exact ⟨rfl, rfl⟩
  refine ⟨(h.placed.fill hb o).perm ?_, h.owned.mono fun c hc => ?_, h.stale, ?_⟩
  · unfold Accepts.holders Accepts.makers
    rw [hrest.1, hrest.2, List.append_nil σ.posting, ← List.append_assoc]
    exact List.perm_append_singleton ..
  · unfold Accepts.Holds Accepts.holders at hc ⊢
    rw [hrest.1]
    exact hc
  · refine ⟨ho, Nat.lt_of_le_of_lt (Nat.zero_le _) hlt, ?_, fun p hp => ?_, fun p hp => ?_⟩
    · change (Function.update σ.PendingAccepts o _ o).length ≤ k
      rw [Function.update_self, List.length_append]
      exact hlt
    · change (Function.update σ.PendingAccepts o _ p).length = k
      rw [Function.update_of_ne (Nat.ne_of_lt hp)]
      exact hreached.1 p hp
    · change Function.update σ.PendingAccepts o _ p = []
      rw [Function.update_of_ne (Nat.ne_of_gt hp)]
      exact hreached.2 p hp

theorem main_socket (h : AcceptsInv k n σ) (hmain : σ.main = .socket o b) (hs : s ∉ σ.handles) :
    AcceptsInv k n { σ with
      main := .acceptEx o b
      sclient := Function.update σ.sclient b s
      handles := s :: σ.handles
      stale := σ.stale.filter (· ≠ b) } := by
  have hat := h.main
  rw [hmain] at hat
  refine h.made hs (e := (o, b)) ?_ ?_ rfl rfl rfl rfl rfl rfl rfl hat
  · unfold Accepts.holders
    rw [hmain]
    change (σ.inFlight ++ (σ.completed ++ (σ.issuing ++ [(o, b)]))).Perm
      ((o, b) :: (σ.inFlight ++ (σ.completed ++ (σ.issuing ++ []))))
    rw [List.append_nil, ← List.append_assoc, ← List.append_assoc, ← List.append_assoc]
    exact List.perm_append_singleton ..
  · unfold Accepts.makers
    rw [hmain]
    change (σ.posting ++ [(o, b)]).Perm ((o, b) :: (σ.posting ++ []))
    rw [List.append_nil]
    exact List.perm_append_singleton ..

theorem main_acceptEx (h : AcceptsInv k n σ) (hmain : σ.main = .acceptEx o b) :
    AcceptsInv k n { σ with
      main := σ.filled k n o
      inFlight := (o, b) :: σ.inFlight } := by
  have hat := h.main
  rw [hmain] at hat
  obtain ⟨ho, hk, hle, hreached⟩ := hat
  have hnext := Accepts.at_filled ho hk hle hreached
  obtain ⟨hissuing, hposting⟩ := filled_alone σ k n o
  refine h.moved ?_ ?_ rfl rfl rfl rfl rfl rfl (fun c hc => ?_) ?_
  · unfold Accepts.holders
    rw [hmain]
    change ((o, b) :: σ.inFlight ++ (σ.completed ++ (σ.issuing ++ (σ.filled k n o).issuing))).Perm
      (σ.inFlight ++ (σ.completed ++ (σ.issuing ++ [(o, b)])))
    rw [hissuing, List.append_nil, ← List.append_assoc, ← List.append_assoc, ← List.append_assoc]
    exact (List.perm_append_singleton ..).symm
  · unfold Accepts.makers
    rw [hmain]
    change (σ.posting ++ (σ.filled k n o).posting).Perm (σ.posting ++ [])
    rw [hposting]
  · obtain ⟨p, hp⟩ := h.stale c hc
    exact ⟨p, List.mem_cons_of_mem _ hp⟩
  · exact hnext.mono rfl (fun _ hd => hd) fun _ _ _ _ ⟨c, hentry, hc, hlook⟩ =>
      ⟨c, hentry, List.mem_cons_of_mem _ hc, hlook⟩

theorem went (h : AcceptsInv k n σ) (hold : σ.main.Alone) (hnew : pc.Alone) (hpc : σ.At k n pc) :
    AcceptsInv k n { σ with main := pc } := by
  refine h.moved ?_ ?_ rfl rfl rfl rfl rfl rfl h.stale ?_
  · unfold Accepts.holders
    rw [hold.1, hnew.1]
  · unfold Accepts.makers
    rw [hold.2, hnew.2]
  · exact Accepts.At.mono hpc rfl (fun _ hb => hb) fun _ _ _ _ hlook => hlook

theorem close (h : AcceptsInv k n σ) (hmain : σ.main = .close o i s)
    (hentry : σ.entry o i = some b) :
    AcceptsInv k n { σ with
      main := .scanNext k o i
      handles := σ.handles.erase s
      stale := b :: σ.stale } := by
  have hat := h.main
  rw [hmain] at hat
  obtain ⟨hin, c, hc, hflight, hnot, rfl⟩ := hat
  obtain rfl : c = b := Option.some.inj (hc.symm.trans hentry)
  have hold : σ.main.Alone := by
    rw [hmain]
    exact ⟨rfl, rfl⟩
  have hnew := scanNext_alone k o i
  have hholders : Accepts.holders { σ with
      main := .scanNext k o i
      handles := σ.handles.erase (σ.sclient c)
      stale := c :: σ.stale } = σ.holders := by
    unfold Accepts.holders
    rw [hold.1, hnew.1]
  refine ⟨?_, ?_, fun d hd => ?_, ?_⟩
  · rw [hholders]
    unfold Accepts.makers
    rw [hnew.2, ← hold.2]
    exact h.placed
  · refine h.owned.close (holds_of_flight hflight hnot) fun d hd => ?_
    obtain ⟨⟨p, hp⟩, hd⟩ := hd
    rw [hholders] at hp
    rw [List.mem_cons, not_or] at hd
    exact ⟨⟨⟨p, hp⟩, hd.2⟩, hd.1⟩
  · rcases List.mem_cons.mp hd with rfl | hd
    · exact ⟨o, hflight⟩
    · exact h.stale d hd
  · exact Accepts.at_scanNext hin

/-- While nobody has an accept of its own, they are all in flight. -/
theorem pending_iff (h : AcceptsInv k n σ) (hquiet : σ.Quiet) (halone : σ.main.Alone) :
    b ∈ σ.PendingAccepts o ↔ (o, b) ∈ σ.inFlight := by
  obtain ⟨hcompleted, hposting, hissuing⟩ := hquiet
  have hmem := h.placed.mem o b
  unfold Accepts.holders Accepts.makers at hmem
  rw [hcompleted, hposting, hissuing, halone.1, halone.2] at hmem
  simpa using hmem.symm

theorem main_step (h : AcceptsInv k n σ) {v : Option SOCKET} {ok : Bool}
    (hok : σ.SmoothMain v ok σ.main) (hs : σ.mainStep k n b v ok = some τ) :
    AcceptsInv k n τ := by
  have hat := h.main
  unfold Accepts.mainStep at hs
  cases hmain : σ.main with
  | fill o =>
      rw [hmain] at hs
      obtain ⟨hb, hs⟩ := Option.ite_none_left_eq_some.mp hs
      cases hs
      exact h.fill hmain hb
  | socket o c =>
      rw [hmain] at hs hok
      obtain ⟨υ, hυ, rfl⟩ := Option.map_eq_some_iff.mp hs
      obtain ⟨s, rfl, hnew, rfl⟩ := Accepts.setClient_isSome hok hυ
      exact h.main_socket hmain hnew
  | acceptEx o c =>
      rw [hmain] at hs hok
      obtain rfl : ok = true := hok
      cases hs
      exact h.main_acceptEx hmain
  | wait interval =>
      rw [hmain] at hs hat
      cases hs
      refine h.went (by rw [hmain]; exact ⟨rfl, rfl⟩) ?_ ?_
      · split
        next =>
          split
          next => exact scanFrom_alone k n
          next => exact ⟨rfl, rfl⟩
        next => exact ⟨rfl, rfl⟩
      · split
        next =>
          split
          next => exact Accepts.at_scanFrom hat (Nat.le_refl n)
          next => exact hat
        next => exact (by decide : (0 : Int) ≠ -1)
  | read o i =>
      rw [hmain] at hs hat hok
      obtain ⟨c, hc, rfl⟩ := Option.map_eq_some_iff.mp hs
      refine h.went (by rw [hmain]; exact ⟨rfl, rfl⟩) ⟨rfl, rfl⟩ ⟨hat, c, hc, ?_, ?_, rfl⟩
      · exact (h.pending_iff hok.1 (by rw [hmain]; exact ⟨rfl, rfl⟩)).mp (List.mem_of_getElem? hc)
      · exact fun hmem => hok.2 c hmem hc
  | look o i s =>
      rw [hmain] at hs hat
      cases hs
      obtain ⟨hin, hlook⟩ := hat
      have hopen : s ∈ σ.handles := by
        obtain ⟨c, -, hc, hnot, rfl⟩ := hlook
        exact h.owned.held c (holds_of_flight hc hnot)
      rw [if_pos hopen]
      refine h.went (by rw [hmain]; exact ⟨rfl, rfl⟩) ?_ ?_
      · split
        next => exact ⟨rfl, rfl⟩
        next => exact scanNext_alone k o i
      · split
        next =>
          obtain ⟨c, hc, -, hnot, -⟩ := hlook
          exact ⟨hin, fun d hd => Option.some.inj (hc.symm.trans hd) ▸ hnot⟩
        next => exact Accepts.at_scanNext hin
  | reread o i =>
      rw [hmain] at hs hat hok
      obtain ⟨c, hc, rfl⟩ := Option.map_eq_some_iff.mp hs
      refine h.went (by rw [hmain]; exact ⟨rfl, rfl⟩) ⟨rfl, rfl⟩
        ⟨hat.1, c, hc, ?_, hat.2 c hc, rfl⟩
      exact (h.pending_iff hok (by rw [hmain]; exact ⟨rfl, rfl⟩)).mp (List.mem_of_getElem? hc)
  | close o i s =>
      rw [hmain] at hs
      obtain ⟨c, hc, rfl⟩ := Option.map_eq_some_iff.mp hs
      exact h.close hmain hc
  | returned rc =>
      rw [hmain] at hs
      cases hs

theorem step (h : AcceptsInv k n σ) {act : AcceptAction} (hok : σ.Smooth act)
    (hs : σ.step k n act = some τ) : AcceptsInv k n τ := by
  cases act with
  | main b v ok => exact h.main_step hok hs
  | complete e error =>
      obtain ⟨rfl, hstale, hstanding⟩ := hok
      obtain ⟨he, hs⟩ := Option.ite_none_right_eq_some.mp hs
      cases hs
      exact h.complete he hstale hstanding
  | serve e ok =>
      obtain rfl : ok = true := hok
      obtain ⟨he, hs⟩ := Option.ite_none_right_eq_some.mp hs
      cases hs
      exact h.serve he
  | socket e v =>
      obtain ⟨he, hs⟩ := Option.ite_none_right_eq_some.mp hs
      obtain ⟨υ, hυ, rfl⟩ := Option.map_eq_some_iff.mp hs
      obtain ⟨s, rfl, hnew, rfl⟩ := Accepts.setClient_isSome hok hυ
      exact h.worker_socket he hnew
  | acceptEx e ok =>
      obtain rfl : ok = true := hok
      obtain ⟨he, hs⟩ := Option.ite_none_right_eq_some.mp hs
      cases hs
      exact h.worker_acceptEx he
  | closeClient s =>
      obtain ⟨hc, hs⟩ := Option.ite_none_right_eq_some.mp hs
      cases hs
      exact h.closeClient hc

theorem init (k n : Nat) : AcceptsInv k n (.init k n) := by
  have halone : (Accepts.init k n).main.Alone := by
    unfold Accepts.init
    dsimp only
    split <;> exact ⟨rfl, rfl⟩
  have hholders : (Accepts.init k n).holders = [] := by
    unfold Accepts.holders
    rw [halone.1]
    rfl
  have hmakers : (Accepts.init k n).makers = [] := by
    unfold Accepts.makers
    rw [halone.2]
    rfl
  refine ⟨?_, ?_, nofun, ?_⟩
  · rw [hholders, hmakers]
    exact ⟨fun _ _ => ⟨nofun, nofun⟩, List.nodup_nil, fun _ => List.nodup_nil, nofun⟩
  · have hnone : ∀ b, ¬ (Accepts.init k n).Holds b := by
      rintro b ⟨⟨o, ho⟩, -⟩
      rw [hholders] at ho
      cases ho
    exact ⟨fun b _ hb => absurd hb (hnone b), fun b hb => absurd hb (hnone b), List.nodup_nil,
      fun b hb => absurd hb (hnone b), nofun⟩
  · by_cases hkn : 0 < n ∧ 0 < k
    · rw [show (Accepts.init k n).main = .fill 0 from if_pos hkn]
      exact ⟨hkn.1, hkn.2, fun p hp => absurd hp (Nat.not_lt_zero p), fun _ _ => rfl⟩
    · rw [show (Accepts.init k n).main = .wait 0 from if_neg hkn]
      intro o ho
      change 0 = k
      omega

theorem scanned (h : AcceptsInv k n σ) {v : Option SOCKET} {ok : Bool}
    (hok : σ.SmoothMain v ok σ.main) (hscan : σ.main.scanning ≠ none) : Scanned k n σ := by
  have hat := h.main
  have hknow : σ.Quiet ∧ σ.main.Alone ∧ Full k n σ.PendingAccepts ∧
      (∀ o i, σ.main.scanning = some (o, i) → o < n ∧ i < k) ∧
      ∀ o i s, σ.main = .close o i s → σ.Looking o i s := by
    cases hmain : σ.main with
    | fill o | socket o b | acceptEx o b | wait interval | returned rc =>
        rw [hmain] at hscan
        exact absurd rfl hscan
    | read o i =>
        rw [hmain] at hok hat
        refine ⟨hok.1, ⟨rfl, rfl⟩, hat.1, fun p j hp => ?_, nofun⟩
        cases hp
        exact hat.2
    | look o i s | reread o i =>
        rw [hmain] at hok hat
        refine ⟨hok, ⟨rfl, rfl⟩, hat.1.1, fun p j hp => ?_, nofun⟩
        cases hp
        exact hat.1.2
    | close o i s =>
        rw [hmain] at hok hat
        refine ⟨hok, ⟨rfl, rfl⟩, hat.1.1, fun p j hp => ?_, fun p j v hp => ?_⟩
        · cases hp
          exact hat.1.2
        · cases hp
          exact hat.2
  obtain ⟨hquiet, halone, hfull, hentry, hclose⟩ := hknow
  refine ⟨fun o ho => ⟨hfull o ho, h.placed.arrays o⟩, fun o _ b => h.pending_iff hquiet halone,
    fun o _ => h.placed.live o, hentry, fun o i s hmain => ?_⟩
  obtain ⟨b, -, hb, hnot, rfl⟩ := hclose o i s hmain
  exact h.owned.apart b (holds_of_flight hb hnot)

end AcceptsInv

end

/-! ## The scan over a whole run -/

/-- In a run in which no accept fails or is rejected, and in which `main` scans while no
completion thread has one and comes to no socket it has closed, every scan finds the accepts
in flight and `main` goes on. -/
theorem idle_accepts {gOverlappedCount n : Nat} {σ : Accepts}
    (hrun : Via (Accepts.step gOverlappedCount n) Accepts.Smooth (.init gOverlappedCount n) σ) :
    Via (Accepts.step gOverlappedCount n) (ScansRight gOverlappedCount n)
      (.init gOverlappedCount n) σ ∧ σ.main ≠ .returned (-1) := by
  have hinv : ∀ τ, Via (Accepts.step gOverlappedCount n) Accepts.Smooth
      (.init gOverlappedCount n) τ → AcceptsInv gOverlappedCount n τ := fun τ hτ =>
    hτ.invariant (P := AcceptsInv gOverlappedCount n) (.init _ _) fun _ _ _ h => h.step
  refine ⟨(hrun.strengthen hinv).mono fun τ act hτ => ?_, fun hmain => ?_⟩
  · cases act with
    | main b s ok => exact hτ.2.scanned hτ.1
    | _ => exact trivial
  · have hat := (hinv σ hrun).main
    rw [hmain] at hat
    exact hat rfl

/-- The set-up of one listening socket with one accept. -/
def onePosted : List AcceptAction := [.main 0 none true, .main 0 (some 10) true, .main 0 none true]

/-- A minute passes. -/
def aMinute : List AcceptAction := List.replicate 12 (.main 0 none true)

/-- One client is served, and its accept is posted again; the next client says nothing and is
closed by a scan. -/
theorem idle_accepts_served : ∃ σ, Via (Accepts.step 1 1) (ScansRight 1 1) (.init 1 1) σ ∧
    σ.main ≠ .returned (-1) ∧ σ.clients = [10] ∧ σ.stale = [0] ∧ σ.main = .wait 0 := by
  have hexec : ∃ σ, Via (Accepts.step 1 1) Accepts.Smooth (.init 1 1) σ ∧
      σ.clients = [10] ∧ σ.stale = [0] ∧ σ.main = .wait 0 :=
    exists_via_of_execIf (List.flatten [
      onePosted,
      [.complete (0, 0) false, .serve (0, 0) true, .socket (0, 0) (some 11),
        .acceptEx (0, 0) true],
      aMinute, List.replicate 4 (.main 0 none true)]) (by decide +kernel)
  obtain ⟨σ, hrun, hclients⟩ := hexec
  obtain ⟨hright, hmain⟩ := idle_accepts hrun
  exact ⟨σ, hright, hmain, hclients⟩

/-- One client says nothing: the first scan closes its socket, the accept fails and its buffer
is freed, and the second scan reads that buffer and ends the server. -/
theorem not_idle_accepts : ¬ ∀ (gOverlappedCount n : Nat) (σ : Accepts),
    Via (Accepts.step gOverlappedCount n) (fun _ _ => True) (.init gOverlappedCount n) σ →
      Via (Accepts.step gOverlappedCount n) (ScansRight gOverlappedCount n)
        (.init gOverlappedCount n) σ ∧ σ.main ≠ .returned (-1) := by
  have hexec : ∃ σ, Via (Accepts.step 1 1) (fun _ _ => True) (.init 1 1) σ ∧
      σ.main = .returned (-1) :=
    exists_via_of_execIf (List.flatten [
      onePosted, aMinute, List.replicate 4 (.main 0 none true), [.complete (0, 0) true], aMinute,
      List.replicate 2 (.main 0 none true)])
      (by decide +kernel)
  intro h
  obtain ⟨σ, hrun, hmain⟩ := hexec
  exact (h 1 1 σ hrun).2 hmain

end CppWorkspace.OrderedServer
