/-
# `CppWorkspace.SelectEcho` — the passes of `select_server`

One thread keeps the listening socket and the clients in `fdSocket`, and walks this array by
index in each pass, while it appends to it and removes from it:

* `FD_CLR` moves the sockets behind the closed one down, and the walk goes on to the next
  index: the socket that was behind the closed one is passed over;
* what `accept` returns goes into the set, `INVALID_SOCKET` as well, and then the next
  `select` fails and the loop ends;
* with 64 sockets in the set `accept` is not called.

In a pass in which nothing of this comes up the set stays in order and every socket that is
ready is served once, and in no other (`good_iff`).

Conventions: what the calls of a pass return is chosen with the pass (`Pass`), within what
Winsock promises (`Possible`); a handle that was closed may be given out again; `isOpen` (the
clients that were accepted and are open), `served` (the sockets of the last pass that were
accepted on or received from) and why the loop has ended are not in the source.  The
received bytes are left out.
-/
import Mathlib.Logic.Function.Basic
import CppWorkspace.SelectServer

namespace CppWorkspace.SelectEcho

open Runs
open SelectServer (FdSet FD_SETSIZE FD_SET FD_CLR)

def INVALID_SOCKET : Nat := 4294967295

/-! ## The loop -/

/-- Whether the loop goes on; `select` fails by itself, or because of a socket in the set. -/
inductive Loop where
  | running
  | selectFailed
  | invalidSocket
deriving DecidableEq, Repr

/-- The set of sockets, and the sockets. -/
structure Server where
  sListen : Nat
  fdSocket : FdSet
  isOpen : Nat → Bool
  served : List Nat
  loop : Loop

def start (sListen : Nat) : Server where
  sListen := sListen
  fdSocket := [sListen]
  isOpen _ := false
  served := []
  loop := .running

/-- What `select` returns. -/
inductive Select where
  | error
  | timeout
  | ready (fdRead : FdSet)
deriving DecidableEq, Repr

/-- What the calls of a pass return; `accept` returns `none` for `INVALID_SOCKET`, and `recv`
brings bytes or not. -/
structure Pass where
  select : Select
  accept : Option Nat
  recv : Nat → Bool

namespace Server

def valid (σ : Server) (s : Nat) : Bool := decide (s = σ.sListen) || σ.isOpen s

def serve (σ : Server) (s : Nat) : Server := { σ with served := σ.served ++ [s] }

/-- `FD_SET(sNew, &fdSocket)` -/
def accept (σ : Server) (sNew : Option Nat) : Server :=
  { σ with
    fdSocket := FD_SET (sNew.getD INVALID_SOCKET) σ.fdSocket
    isOpen := match sNew with
      | some s => Function.update σ.isOpen s true
      | none => σ.isOpen }

def closesocket (σ : Server) (s : Nat) : Server :=
  { σ with isOpen := Function.update σ.isOpen s false, fdSocket := FD_CLR s σ.fdSocket }

/-- The body of the loop over the array. -/
def visit (p : Pass) (fdRead : FdSet) (i : Nat) (σ : Server) : Server :=
  match σ.fdSocket[i]? with
  | none => σ
  | some s =>
      if s ∈ fdRead then
        if s = σ.sListen then
          if σ.fdSocket.length < FD_SETSIZE then (σ.serve s).accept p.accept else σ
        else if p.recv s then σ.serve s
        else (σ.serve s).closesocket s
      else σ

/-- `n` rounds of the loop from index `i` on; behind the last socket they do nothing. -/
def walk (p : Pass) (fdRead : FdSet) : Nat → Nat → Server → Server
  | 0, _, σ => σ
  | n + 1, i, σ => walk p fdRead n (i + 1) (visit p fdRead i σ)

/-- One pass of `while (TRUE)`. -/
def pass (σ : Server) (p : Pass) : Server :=
  match p.select with
  | .error =>
      { σ with
        served := []
        loop := if ∀ s ∈ σ.fdSocket, σ.valid s = true then .selectFailed else .invalidSocket }
  | .timeout => { σ with served := [] }
  | .ready fdRead => walk p fdRead FD_SETSIZE 0 { σ with served := [] }

/-- What Winsock promises: `select` fails on a set with an invalid socket, and leaves sockets
of the set in it; `accept` gives out a handle that is not in use. -/
structure Possible (σ : Server) (p : Pass) : Prop where
  select : p.select ≠ .error → ∀ s ∈ σ.fdSocket, σ.valid s = true
  ready : ∀ fdRead, p.select = .ready fdRead → fdRead.Sublist σ.fdSocket
  accept : ∀ s ∈ p.accept, σ.valid s = false ∧ s ≠ INVALID_SOCKET

end Server

def step (σ : Server) (p : Pass) : Option Server :=
  if σ.loop = .running then some (σ.pass p) else none

/-! ## What is asked for -/

/-- The listening socket is in the set (at its front), and with it the clients that are open,
each once; and no client and no `accept` has ended the loop. -/
structure InOrder (σ : Server) : Prop where
  listen : σ.fdSocket.head? = some σ.sListen
  same : ∀ s, s ∈ σ.fdSocket ↔ s = σ.sListen ∨ σ.isOpen s = true
  nodup : σ.fdSocket.Nodup
  size : σ.fdSocket.length ≤ FD_SETSIZE
  invalid : σ.valid INVALID_SOCKET = false
  loop : σ.loop ≠ .invalidSocket

/-- The pass serves each socket that is ready once, and leaves the set in order. -/
structure Good (σ : Server) (p : Pass) : Prop where
  served : ∀ fdRead, p.select = .ready fdRead →
    ∀ s ∈ fdRead, (σ.pass p).served.count s = 1
  inOrder : InOrder (σ.pass p)

/-- No socket that is ready is right behind one from which nothing is received. -/
def Apart (fdRead : FdSet) (recv : Nat → Bool) : List Nat → Prop
  | s :: t :: l => (s ∈ fdRead → recv s = false → t ∉ fdRead) ∧ Apart fdRead recv (t :: l)
  | _ => True

/-- The condition on a pass. -/
structure Meets (σ : Server) (p : Pass) : Prop where
  accept : ∀ fdRead, p.select = .ready fdRead → σ.sListen ∈ fdRead →
    σ.fdSocket.length < FD_SETSIZE ∧ p.accept ≠ none
  apart : ∀ fdRead, p.select = .ready fdRead → Apart fdRead p.recv σ.fdSocket.tail

/-! ## The walk -/

section
variable {σ : Server} {p : Pass} {fdRead : FdSet} {recv : Nat → Bool} {s i n : Nat}
  {pre l : List Nat}

/-- The sockets of `l` that a walk receives from; `passed` if the first one is passed over. -/
def visited (fdRead : FdSet) (recv : Nat → Bool) : Bool → List Nat → List Nat
  | _, [] => []
  | true, _ :: l => visited fdRead recv false l
  | false, s :: l =>
      if s ∈ fdRead then s :: visited fdRead recv (!recv s) l else visited fdRead recv false l

/-- What a walk leaves of `l`. -/
def kept (fdRead : FdSet) (recv : Nat → Bool) : Bool → List Nat → List Nat
  | _, [] => []
  | true, s :: l => s :: kept fdRead recv false l
  | false, s :: l =>
      if s ∈ fdRead then if recv s then s :: kept fdRead recv false l else kept fdRead recv true l
      else s :: kept fdRead recv false l

def closed (fdRead : FdSet) (recv : Nat → Bool) (passed : Bool) (l : List Nat) : List Nat :=
  (visited fdRead recv passed l).filter fun s => !recv s

/-- After the walk over `l`, with `pre` before it. -/
def Server.after (σ : Server) (fdRead : FdSet) (recv : Nat → Bool) (pre : List Nat)
    (passed : Bool) (l : List Nat) : Server :=
  { σ with
    fdSocket := pre ++ kept fdRead recv passed l
    isOpen := fun s => σ.isOpen s && !decide (s ∈ closed fdRead recv passed l)
    served := σ.served ++ visited fdRead recv passed l }

theorem visit_behind (h : σ.fdSocket.length ≤ i) : Server.visit p fdRead i σ = σ := by
  rw [Server.visit, List.getElem?_eq_none h]

theorem walk_behind (h : σ.fdSocket.length ≤ i) : Server.walk p fdRead n i σ = σ := by
  induction n generalizing i with
  | zero => rfl
  | succ n ih => rw [Server.walk, visit_behind h, ih (Nat.le_succ_of_le h)]

theorem visit_client (hfd : σ.fdSocket = pre ++ s :: l) (hs : s ≠ σ.sListen) :
    Server.visit p fdRead pre.length σ =
      if s ∈ fdRead then if p.recv s then σ.serve s else (σ.serve s).closesocket s else σ := by
  have hget : σ.fdSocket[pre.length]? = some s := by
    rw [hfd, List.getElem?_append_right (Nat.le_refl _), Nat.sub_self]
    rfl
  rw [Server.visit, hget]
  simp only [if_neg hs]

theorem closesocket_fdSocket (hfd : σ.fdSocket = pre ++ s :: l) (hnodup : σ.fdSocket.Nodup) :
    ((σ.serve s).closesocket s).fdSocket = pre ++ l := by
  have hnot : s ∉ pre := by
    rw [hfd] at hnodup
    exact fun h => (List.nodup_append.mp hnodup).2.2 s h s List.mem_cons_self rfl
  change σ.fdSocket.erase s = pre ++ l
  rw [hfd, List.erase_append_right _ hnot, List.erase_cons_head]

theorem nodup_closesocket (hnodup : σ.fdSocket.Nodup) :
    ((σ.serve s).closesocket s).fdSocket.Nodup := hnodup.erase s

/-- The walk over `l`; if its first socket is passed over, the index is already behind it. -/
theorem walk_eq {b : Bool} (hfd : σ.fdSocket = pre ++ l) (hnodup : σ.fdSocket.Nodup)
    (hlisten : σ.sListen ∉ l) (hn : l.length ≤ n) :
    Server.walk p fdRead n (pre.length + if b then 1 else 0) σ = σ.after fdRead p.recv pre b l := by
  induction l generalizing σ pre n b with
  | nil =>
      have hlen : σ.fdSocket.length ≤ pre.length + if b then 1 else 0 := by
        rw [hfd, List.append_nil]
        exact Nat.le_add_right ..
      rw [walk_behind hlen]
      cases b <;> simp [Server.after, kept, closed, visited, ← hfd]
  | cons s l ih =>
      have hlisten' : σ.sListen ∉ l := fun h => hlisten (List.mem_cons_of_mem s h)
      have hpre : σ.fdSocket = (pre ++ [s]) ++ l := by rw [hfd, List.append_assoc]; rfl
      have hlen : (pre ++ [s]).length = pre.length + 1 := List.length_append
      cases b with
      | true =>
          -- `s` is passed over
          have hwalk := ih (b := false) hpre hnodup hlisten' (Nat.le_of_succ_le hn)
          rw [hlen] at hwalk
          refine hwalk.trans ?_
          simp [Server.after, kept, closed, visited]
      | false =>
          cases n with
          | zero => exact absurd hn (Nat.not_succ_le_zero _)
          | succ n =>
          have hn : l.length ≤ n := Nat.le_of_succ_le_succ hn
          have hne : s ≠ σ.sListen := fun h => hlisten (h ▸ List.mem_cons_self)
          change Server.walk p fdRead n (pre.length + 1) (Server.visit p fdRead pre.length σ) = _
          rw [visit_client hfd hne]
          by_cases hs : s ∈ fdRead
          · cases hrecv : p.recv s with
            | true =>
                have hwalk := ih (σ := σ.serve s) (b := false) hpre hnodup hlisten' hn
                rw [hlen] at hwalk
                rw [if_pos hs, if_pos rfl]
                refine hwalk.trans ?_
                simp [Server.after, Server.serve, kept, closed, visited, hs, hrecv]
            | false =>
                have hwalk := ih (σ := (σ.serve s).closesocket s) (b := true)
                  (closesocket_fdSocket hfd hnodup) (nodup_closesocket hnodup) hlisten' hn
                rw [if_pos hs, if_neg Bool.false_ne_true]
                refine hwalk.trans ?_
                have hopen : (fun t => Function.update σ.isOpen s false t &&
                    !decide (t ∈ closed fdRead p.recv true l)) =
                    fun t => σ.isOpen t && !decide (t ∈ closed fdRead p.recv false (s :: l)) := by
                  funext t
                  by_cases hts : t = s
                  · subst hts
                    simp [closed, visited, hs, hrecv]
                  · simp [closed, visited, hs, hrecv, hts]
                simp only [Server.after, ← hopen]
                simp [Server.serve, Server.closesocket, kept, visited, hs, hrecv]
          · have hwalk := ih (b := false) hpre hnodup hlisten' hn
            rw [hlen] at hwalk
            rw [if_neg hs]
            refine hwalk.trans ?_
            simp [Server.after, kept, closed, visited, hs]

/-! ## Who is served -/

theorem sublist_visited (b : Bool) (l : List Nat) : (visited fdRead recv b l).Sublist l := by
  induction l generalizing b with
  | nil => cases b <;> exact .refl []
  | cons s l ih =>
      cases b with
      | true => exact (ih false).cons s
      | false =>
          unfold visited
          split
          · exact (ih _).cons_cons s
          · exact (ih _).cons s

theorem sublist_kept (b : Bool) (l : List Nat) : (kept fdRead recv b l).Sublist l := by
  induction l generalizing b with
  | nil => cases b <;> exact .refl []
  | cons s l ih =>
      cases b with
      | true => exact (ih false).cons_cons s
      | false =>
          unfold kept
          split
          · split
            · exact (ih false).cons_cons s
            · exact (ih true).cons s
          · exact (ih false).cons_cons s

theorem mem_of_mem_closed {b : Bool} (h : s ∈ closed fdRead recv b l) : s ∈ l :=
  (sublist_visited b l).subset (List.mem_of_mem_filter h)

theorem ready_of_mem_visited {b : Bool} (h : s ∈ visited fdRead recv b l) : s ∈ fdRead := by
  induction l generalizing b with
  | nil => cases b <;> exact absurd h List.not_mem_nil
  | cons t l ih =>
      cases b with
      | true => exact ih h
      | false =>
          unfold visited at h
          split at h
          next ht =>
            rcases List.mem_cons.mp h with rfl | h
            · exact ht
            · exact ih h
          next => exact ih h

theorem mem_kept {b : Bool} (h : l.Nodup) :
    s ∈ kept fdRead recv b l ↔ s ∈ l ∧ s ∉ closed fdRead recv b l := by
  induction l generalizing b with
  | nil => cases b <;> simp [kept]
  | cons t l ih =>
      obtain ⟨ht, h⟩ := List.nodup_cons.mp h
      -- the socket at the front stays, and `closed` is that of the rest
      have hstays : ∀ b', (s = t ∨ s ∈ kept fdRead recv b' l) ↔
          (s = t ∨ s ∈ l) ∧ s ∉ closed fdRead recv b' l := by
        intro b'
        rw [ih h]
        constructor
        · rintro (rfl | ⟨hl, hc⟩)
          · exact ⟨.inl rfl, fun hc => ht (mem_of_mem_closed hc)⟩
          · exact ⟨.inr hl, hc⟩
        · rintro ⟨rfl | hl, hc⟩
          · exact .inl rfl
          · exact .inr ⟨hl, hc⟩
      cases b with
      | true => simpa [kept, closed, visited] using hstays false
      | false =>
          by_cases hready : t ∈ fdRead
          · cases hrecv : recv t with
            | true => simpa [kept, closed, visited, hready, hrecv] using hstays false
            | false =>
                have hclosed : closed fdRead recv false (t :: l) =
                    t :: closed fdRead recv true l := by
                  simp [closed, visited, hready, hrecv]
                have hkept : kept fdRead recv false (t :: l) = kept fdRead recv true l := by
                  simp [kept, hready, hrecv]
                rw [hclosed, hkept, ih h, List.mem_cons, List.mem_cons, not_or]
                constructor
                · rintro ⟨hl, hc⟩
                  exact ⟨.inr hl, fun heq => ht (heq ▸ hl), hc⟩
                · rintro ⟨hl, hne, hc⟩
                  exact ⟨hl.resolve_left hne, hc⟩
          · simpa [kept, closed, visited, hready] using hstays false

theorem Apart_cons :
    Apart fdRead recv (s :: l) ↔
      (s ∈ fdRead → recv s = false → ∀ t ∈ l.head?, t ∉ fdRead) ∧ Apart fdRead recv l := by
  cases l with
  | nil => simp [Apart]
  | cons t l => simp [Apart]

/-- Every ready socket is received from exactly if none is passed over. -/
theorem all_visited_iff {b : Bool} (h : l.Nodup) :
    (∀ s ∈ l, s ∈ fdRead → s ∈ visited fdRead recv b l) ↔
      (b = true → ∀ t ∈ l.head?, t ∉ fdRead) ∧ Apart fdRead recv l := by
  induction l generalizing b with
  | nil => simp [Apart]
  | cons t l ih =>
      obtain ⟨ht, h⟩ := List.nodup_cons.mp h
      have hnot : ∀ b', t ∉ visited fdRead recv b' l := fun b' hmem =>
        ht ((sublist_visited b' l).subset hmem)
      rw [Apart_cons, List.forall_mem_cons]
      cases b with
      | true =>
          rw [visited, ih h]
          simp only [hnot, List.head?_cons, Option.mem_some]
          constructor
          · rintro ⟨hready, -, happart⟩
            exact ⟨fun _ u hu => hu ▸ hready, fun hmem => (hready hmem).elim, happart⟩
          · rintro ⟨hpassed, -, happart⟩
            exact ⟨hpassed trivial t rfl, fun h => (Bool.false_ne_true h).elim, happart⟩
      | false =>
          by_cases hready : t ∈ fdRead
          · have hvisited : visited fdRead recv false (t :: l) =
                t :: visited fdRead recv (!recv t) l := if_pos hready
            have hrest : (∀ s ∈ l, s ∈ fdRead → s ∈ t :: visited fdRead recv (!recv t) l) ↔
                ∀ s ∈ l, s ∈ fdRead → s ∈ visited fdRead recv (!recv t) l := by
              refine forall_congr' fun s => forall_congr' fun hs => ?_
              rw [List.mem_cons, or_iff_right fun heq : s = t => ht (heq ▸ hs)]
            rw [hvisited, hrest, ih h]
            simp [hready]
          · have hvisited : visited fdRead recv false (t :: l) = visited fdRead recv false l :=
              if_neg hready
            rw [hvisited, ih h]
            simp [hready]

theorem Apart_append {t : Nat} (ht : t ∉ fdRead) :
    Apart fdRead recv (l ++ [t]) ↔ Apart fdRead recv l := by
  induction l with
  | nil => simp [Apart]
  | cons s l ih =>
      rw [List.cons_append, Apart_cons, Apart_cons, ih]
      cases l with
      | nil => simp [ht]
      | cons u l => rfl

/-! ## A pass -/

theorem InOrder.valid (hσ : InOrder σ) : ∀ s ∈ σ.fdSocket, σ.valid s = true := by
  intro s hs
  simpa [Server.valid] using (hσ.same s).mp hs

theorem InOrder.not_invalid (hσ : InOrder σ) : INVALID_SOCKET ∉ σ.fdSocket := fun hmem =>
  Bool.false_ne_true (hσ.invalid.symm.trans (hσ.valid _ hmem))

theorem InOrder.fdSocket_eq (hσ : InOrder σ) : ∃ l, σ.fdSocket = σ.sListen :: l := by
  cases hfd : σ.fdSocket with
  | nil => exact absurd hσ.listen (by simp [hfd])
  | cons s l =>
      have hs : s = σ.sListen := by simpa [hfd] using hσ.listen
      exact ⟨l, by rw [hs]⟩

theorem InOrder.served (hσ : InOrder σ) (served : List Nat) :
    InOrder { σ with served := served } :=
  ⟨hσ.listen, hσ.same, hσ.nodup, hσ.size, hσ.invalid, hσ.loop⟩

/-- A walk over the clients keeps the set in order, whichever it passes over. -/
theorem InOrder.after (hσ : InOrder σ) (hfd : σ.fdSocket = σ.sListen :: l) (recv : Nat → Bool) :
    InOrder (σ.after fdRead recv [σ.sListen] false l) := by
  have hnodup := hσ.nodup
  rw [hfd] at hnodup
  obtain ⟨hlisten, hl⟩ := List.nodup_cons.mp hnodup
  refine ⟨rfl, fun s => ?_, ?_, ?_, ?_, hσ.loop⟩
  · have hsame := hσ.same s
    rw [hfd, List.mem_cons] at hsame
    change s ∈ σ.sListen :: kept fdRead recv false l ↔
      s = σ.sListen ∨ (σ.isOpen s && !decide (s ∈ closed fdRead recv false l)) = true
    rw [List.mem_cons, mem_kept hl, Bool.and_eq_true, Bool.not_eq_true', decide_eq_false_iff_not]
    by_cases hs : s = σ.sListen
    · exact iff_of_true (.inl hs) (.inl hs)
    · rw [or_iff_right hs, or_iff_right hs] at hsame ⊢
      rw [hsame]
  · refine List.nodup_cons.mpr ⟨fun h => hlisten ((sublist_kept _ _).subset h), ?_⟩
    exact hl.sublist (sublist_kept _ _)
  · have hsize := hσ.size
    rw [hfd, List.length_cons] at hsize
    exact Nat.le_trans (Nat.succ_le_succ (sublist_kept _ _).length_le) hsize
  · have hinvalid := hσ.invalid
    simp only [Server.valid, Bool.or_eq_false_iff] at hinvalid
    simp only [Server.valid, Server.after, hinvalid.2, Bool.false_and, Bool.or_false]
    exact hinvalid.1

theorem accept_fdSocket {sNew : Option Nat} (hsize : σ.fdSocket.length < FD_SETSIZE)
    (hnew : sNew.getD INVALID_SOCKET ∉ σ.fdSocket) :
    (σ.accept sNew).fdSocket = σ.fdSocket ++ [sNew.getD INVALID_SOCKET] := by
  change FD_SET _ _ = _
  rw [FD_SET, if_neg hnew, if_pos hsize]

theorem InOrder.accept (hσ : InOrder σ) (hsize : σ.fdSocket.length < FD_SETSIZE)
    (hs : σ.valid s = false) (hne : s ≠ INVALID_SOCKET) : InOrder (σ.accept (some s)) := by
  have hnew : s ∉ σ.fdSocket := fun hmem =>
    Bool.false_ne_true (hs.symm.trans (hσ.valid s hmem))
  have hfd : (σ.accept (some s)).fdSocket = σ.fdSocket ++ [s] := accept_fdSocket hsize hnew
  obtain ⟨l, hl⟩ := hσ.fdSocket_eq
  refine ⟨?_, fun t => ?_, ?_, ?_, ?_, hσ.loop⟩
  · rw [hfd, hl]
    rfl
  · rw [hfd, List.mem_append, hσ.same, List.mem_singleton]
    change _ ↔ t = σ.sListen ∨ Function.update σ.isOpen s true t = true
    by_cases ht : t = s
    · simp [ht]
    · simp [ht]
  · rw [hfd]
    exact List.nodup_append.mpr
      ⟨hσ.nodup, List.nodup_singleton s, fun a ha b hb hab =>
        hnew (List.mem_singleton.mp hb ▸ hab ▸ ha)⟩
  · rw [hfd, List.length_append]
    exact hsize
  · have hinvalid := hσ.invalid
    simp only [Server.valid] at hinvalid ⊢
    simp only [Server.accept, Function.update_of_ne hne.symm]
    exact hinvalid

/-- The walk behind the listening socket serves all that is ready exactly if it passes nothing
over. -/
theorem served_once_iff (hfd : σ.fdSocket = σ.sListen :: l) (hnodup : σ.fdSocket.Nodup)
    (hready : ∀ s ∈ fdRead, s ∈ σ.fdSocket)
    (hserved : σ.served = if σ.sListen ∈ fdRead then [σ.sListen] else []) :
    (∀ s ∈ fdRead, (σ.after fdRead recv [σ.sListen] false l).served.count s = 1) ↔
      Apart fdRead recv l := by
  rw [hfd] at hnodup
  obtain ⟨hlisten, hl⟩ := List.nodup_cons.mp hnodup
  have hvisited : (visited fdRead recv false l).Nodup := hl.sublist (sublist_visited false l)
  have hcount : ∀ s ∈ fdRead, (σ.after fdRead recv [σ.sListen] false l).served.count s = 1 ↔
      (s ∈ l → s ∈ visited fdRead recv false l) := by
    intro s hs
    change (σ.served ++ visited fdRead recv false l).count s = 1 ↔ _
    rw [List.count_append, hserved]
    by_cases hsl : s = σ.sListen
    · have hnot : s ∉ l := hsl ▸ hlisten
      have hzero : (visited fdRead recv false l).count s = 0 :=
        List.count_eq_zero_of_not_mem fun h => hnot ((sublist_visited _ _).subset h)
      rw [← hsl, if_pos hs, hzero, List.count_singleton_self]
      exact iff_of_true rfl fun h => (hnot h).elim
    · have hmem : s ∈ l := by
        have h := hready s hs
        rw [hfd] at h
        exact (List.mem_cons.mp h).resolve_left hsl
      have hzero : (if σ.sListen ∈ fdRead then [σ.sListen] else []).count s = 0 := by
        split
        · exact List.count_eq_zero_of_not_mem fun h => hsl (List.mem_singleton.mp h)
        · rfl
      rw [hzero, Nat.zero_add]
      constructor
      · intro hone _
        exact List.count_pos_iff.mp (hone ▸ Nat.one_pos)
      · intro h
        exact List.count_eq_one_of_mem hvisited (h hmem)
  have hall : (∀ s ∈ l, s ∈ fdRead → s ∈ visited fdRead recv false l) ↔ _ := all_visited_iff hl
  rw [and_iff_right fun h => (Bool.false_ne_true h).elim] at hall
  rw [← hall]
  exact ⟨fun h s hs hr => (hcount s hr).mp (h s hr) hs,
    fun h s hr => (hcount s hr).mpr fun hs => h s hs hr⟩

theorem visit_listen (hfd : σ.fdSocket = σ.sListen :: l) :
    Server.visit p fdRead 0 σ =
      if σ.sListen ∈ fdRead then
        if σ.fdSocket.length < FD_SETSIZE then (σ.serve σ.sListen).accept p.accept else σ
      else σ := by
  have hget : σ.fdSocket[0]? = some σ.sListen := by rw [hfd]; rfl
  rw [Server.visit, hget]
  simp only [if_pos]

/-- What a pass does after the body at the listening socket, which leaves `τ`. -/
theorem pass_ready {τ : Server} (hselect : p.select = .ready fdRead)
    (hvisit : Server.visit p fdRead 0 { σ with served := [] } = τ)
    (hfd : τ.fdSocket = τ.sListen :: l) (hnodup : τ.fdSocket.Nodup)
    (hsize : τ.fdSocket.length ≤ FD_SETSIZE) :
    σ.pass p = τ.after fdRead p.recv [τ.sListen] false l := by
  rw [Server.pass, hselect]
  change Server.walk p fdRead 63 1 (Server.visit p fdRead 0 { σ with served := [] }) = _
  have hlisten : τ.sListen ∉ l := by
    rw [hfd] at hnodup
    exact (List.nodup_cons.mp hnodup).1
  have hl : l.length ≤ 63 := by
    rw [hfd, List.length_cons] at hsize
    exact Nat.le_of_succ_le_succ hsize
  rw [hvisit]
  exact @walk_eq τ p fdRead 63 [τ.sListen] l false hfd hnodup hlisten hl

/-- The body at the listening socket leaves the set in order; the rest is up to the walk. -/
theorem good_iff_apart {τ : Server} (hselect : p.select = .ready fdRead)
    (hvisit : Server.visit p fdRead 0 { σ with served := [] } = τ) (hτ : InOrder τ)
    (hready : ∀ s ∈ fdRead, s ∈ τ.fdSocket)
    (hserved : τ.served = if τ.sListen ∈ fdRead then [τ.sListen] else []) :
    Good σ p ↔ Apart fdRead p.recv τ.fdSocket.tail := by
  obtain ⟨l, hfd⟩ := hτ.fdSocket_eq
  have hpass := pass_ready hselect hvisit hfd hτ.nodup hτ.size
  have honce : _ ↔ Apart fdRead p.recv l := served_once_iff hfd hτ.nodup hready hserved
  rw [hfd, List.tail_cons, ← honce, ← hpass]
  constructor
  · exact fun hgood => hgood.served fdRead hselect
  · intro honce
    refine ⟨fun fs hfs => ?_, ?_⟩
    · rw [hselect] at hfs
      cases hfs
      exact honce
    · rw [hpass]
      exact hτ.after hfd p.recv

theorem not_good_of_full (hσ : InOrder σ) (hselect : p.select = .ready fdRead)
    (hmem : σ.sListen ∈ fdRead) (hfull : ¬σ.fdSocket.length < FD_SETSIZE) : ¬Good σ p := by
  intro hgood
  obtain ⟨l, hfd⟩ := hσ.fdSocket_eq
  have hvisit : Server.visit p fdRead 0 { σ with served := [] } = { σ with served := [] } := by
    rw [visit_listen (σ := { σ with served := [] }) hfd, if_pos hmem, if_neg hfull]
  have hpass := pass_ready hselect hvisit hfd hσ.nodup hσ.size
  have hone := hgood.served fdRead hselect _ hmem
  rw [hpass] at hone
  have hnodup := hσ.nodup
  rw [hfd] at hnodup
  have hzero : (visited fdRead p.recv false l).count σ.sListen = 0 :=
    List.count_eq_zero_of_not_mem fun h =>
      (List.nodup_cons.mp hnodup).1 ((sublist_visited _ _).subset h)
  exact absurd (hzero.symm.trans hone) Nat.zero_ne_one

theorem not_good_of_invalid (hσ : InOrder σ) (hselect : p.select = .ready fdRead)
    (hsub : fdRead.Sublist σ.fdSocket) (hmem : σ.sListen ∈ fdRead)
    (hroom : σ.fdSocket.length < FD_SETSIZE) (hnone : p.accept = none) : ¬Good σ p := by
  intro hgood
  obtain ⟨l, hfd⟩ := hσ.fdSocket_eq
  have hvisit : Server.visit p fdRead 0 { σ with served := [] } =
      (Server.serve { σ with served := [] } σ.sListen).accept none := by
    rw [visit_listen (σ := { σ with served := [] }) hfd, if_pos hmem, if_pos hroom, hnone]
  have hset : ((Server.serve { σ with served := [] } σ.sListen).accept none).fdSocket =
      σ.fdSocket ++ [INVALID_SOCKET] := accept_fdSocket hroom hσ.not_invalid
  have hnodup : (σ.fdSocket ++ [INVALID_SOCKET]).Nodup :=
    List.nodup_append.mpr ⟨hσ.nodup, List.nodup_singleton _, fun a ha b hb hab =>
      hσ.not_invalid (List.mem_singleton.mp hb ▸ hab ▸ ha)⟩
  have hsize : (σ.fdSocket ++ [INVALID_SOCKET]).length ≤ FD_SETSIZE := by
    rw [List.length_append]
    exact hroom
  have hpass := pass_ready (l := l ++ [INVALID_SOCKET]) hselect hvisit
    (by rw [hset, hfd]; rfl) (hset ▸ hnodup) (hset ▸ hsize)
  -- it was not in the set that `select` was given, and so the walk does not close it
  have hclosed : INVALID_SOCKET ∉ closed fdRead p.recv false (l ++ [INVALID_SOCKET]) := fun h =>
    hσ.not_invalid (hsub.subset (ready_of_mem_visited (List.mem_of_mem_filter h)))
  rw [hfd, List.cons_append] at hnodup
  have hkept : INVALID_SOCKET ∈ kept fdRead p.recv false (l ++ [INVALID_SOCKET]) :=
    (mem_kept (List.nodup_cons.mp hnodup).2).mpr
      ⟨List.mem_append_right _ (List.mem_singleton_self _), hclosed⟩
  have hin : INVALID_SOCKET ∈ (σ.pass p).fdSocket := by
    rw [hpass]
    exact List.mem_append_right _ hkept
  exact hgood.inOrder.not_invalid hin

theorem good_iff_of_not_ready (hselect : ∀ fs, p.select ≠ .ready fs) (h : InOrder (σ.pass p)) :
    Good σ p ↔ Meets σ p :=
  iff_of_true ⟨fun fs hfs => absurd hfs (hselect fs), h⟩
    ⟨fun fs hfs => absurd hfs (hselect fs), fun fs hfs => absurd hfs (hselect fs)⟩

theorem meets_iff (hselect : p.select = .ready fdRead) :
    Meets σ p ↔ (σ.sListen ∈ fdRead → σ.fdSocket.length < FD_SETSIZE ∧ p.accept ≠ none) ∧
      Apart fdRead p.recv σ.fdSocket.tail := by
  constructor
  · exact fun h => ⟨h.accept fdRead hselect, h.apart fdRead hselect⟩
  · rintro ⟨haccept, happart⟩
    refine ⟨fun fs hfs => ?_, fun fs hfs => ?_⟩
    all_goals
      rw [hselect] at hfs
      cases hfs
      assumption

/-- With a set in order, the two defects and the full set are all that keeps a pass from its
purpose. -/
theorem good_iff_meets (hσ : InOrder σ) (hp : Server.Possible σ p) : Good σ p ↔ Meets σ p := by
  cases hselect : p.select with
  | error =>
      have hpass : σ.pass p = { σ with served := [], loop := .selectFailed } := by
        rw [Server.pass, hselect]
        exact congrArg (fun loop => { σ with served := [], loop := loop }) (if_pos hσ.valid)
      refine good_iff_of_not_ready (fun fs h => by cases hselect.symm.trans h) ?_
      rw [hpass]
      exact ⟨hσ.listen, hσ.same, hσ.nodup, hσ.size, hσ.invalid, fun h => by cases h⟩
  | timeout =>
      have hpass : σ.pass p = { σ with served := [] } := by rw [Server.pass, hselect]
      refine good_iff_of_not_ready (fun fs h => by cases hselect.symm.trans h) ?_
      rw [hpass]
      exact hσ.served []
  | ready fdRead =>
      have hsub := hp.ready fdRead hselect
      obtain ⟨l, hfd⟩ := hσ.fdSocket_eq
      have hvisit := @visit_listen { σ with served := [] } p fdRead l hfd
      rw [meets_iff hselect]
      by_cases hmem : σ.sListen ∈ fdRead
      · rw [if_pos hmem] at hvisit
        by_cases hroom : σ.fdSocket.length < FD_SETSIZE
        · rw [if_pos hroom] at hvisit
          cases hnew : p.accept with
          | none =>
              exact iff_of_false (not_good_of_invalid hσ hselect hsub hmem hroom hnew)
                fun h => (h.1 hmem).2 rfl
          | some s =>
              obtain ⟨hs, hne⟩ := hp.accept s hnew
              have hfresh : s ∉ σ.fdSocket := fun h =>
                Bool.false_ne_true (hs.symm.trans (hσ.valid s h))
              rw [hnew] at hvisit
              have hτ : InOrder ((Server.serve { σ with served := [] } σ.sListen).accept
                  (some s)) := (hσ.served [σ.sListen]).accept hroom hs hne
              have hset : ((Server.serve { σ with served := [] } σ.sListen).accept
                  (some s)).fdSocket = σ.fdSocket ++ [s] := accept_fdSocket hroom hfresh
              have hgood := good_iff_apart hselect hvisit hτ
                (fun t ht => by rw [hset]; exact List.mem_append_left _ (hsub.subset ht))
                (if_pos hmem).symm
              rw [hgood, hset, hfd, List.cons_append, List.tail_cons, List.tail_cons,
                Apart_append fun h => hfresh (hsub.subset h)]
              exact (and_iff_right fun _ => ⟨hfd ▸ hroom, Option.some_ne_none s⟩).symm
        · exact iff_of_false (not_good_of_full hσ hselect hmem hroom)
            fun h => hroom (h.1 hmem).1
      · rw [if_neg hmem] at hvisit
        have hgood := good_iff_apart hselect hvisit (hσ.served [])
          (fun s hs => hsub.subset hs) (if_neg hmem).symm
        rw [hgood]
        exact (and_iff_right fun h => (hmem h).elim).symm

end

/-! ## Runs -/

theorem inOrder_start {sListen : Nat} (hlisten : sListen ≠ INVALID_SOCKET) :
    InOrder (start sListen) where
  listen := rfl
  same s := by simp [start]
  nodup := List.nodup_singleton sListen
  size := Nat.le_of_ble_eq_true rfl
  invalid := by
    rw [Server.valid, Bool.or_eq_false_iff, decide_eq_false_iff_not]
    exact ⟨hlisten.symm, rfl⟩
  loop := fun h => by cases h

/-- In every run whose passes meet the condition the set is in order, and the next pass is good
exactly if it meets the condition as well. -/
theorem good_iff {sListen : Nat} {σ : Server} (hlisten : sListen ≠ INVALID_SOCKET)
    (h : Via step (fun σ p => Server.Possible σ p ∧ Meets σ p) (start sListen) σ) :
    InOrder σ ∧ ∀ p, Server.Possible σ p → (Good σ p ↔ Meets σ p) := by
  have hσ : InOrder σ := by
    refine h.invariant (inOrder_start hlisten) fun τ p u hτ hok hs => ?_
    obtain ⟨-, hu⟩ := Option.ite_none_right_eq_some.mp hs
    cases hu
    exact ((good_iff_meets hτ hok.1).mpr hok.2).inOrder
  exact ⟨hσ, fun p hp => good_iff_meets hσ hp⟩

section
variable {σ : Server} {p : Pass}

instance (select : Select) (P : FdSet → Prop) [DecidablePred P] :
    Decidable (∀ fdRead, select = .ready fdRead → P fdRead) :=
  match select with
  | .ready fdRead =>
      decidable_of_iff (P fdRead) ⟨fun h _ heq => by cases heq; exact h, fun h => h fdRead rfl⟩
  | .error => isTrue fun _ h => by cases h
  | .timeout => isTrue fun _ h => by cases h

instance decidableApart (fdRead : FdSet) (recv : Nat → Bool) :
    ∀ l, Decidable (Apart fdRead recv l)
  | [] => isTrue trivial
  | _ :: l =>
      have := decidableApart fdRead recv l
      decidable_of_iff _ Apart_cons.symm

instance : Decidable (Server.Possible σ p) :=
  decidable_of_iff
    ((p.select ≠ .error → ∀ s ∈ σ.fdSocket, σ.valid s = true) ∧
      (∀ fdRead, p.select = .ready fdRead → fdRead.Sublist σ.fdSocket) ∧
      ∀ s ∈ p.accept, σ.valid s = false ∧ s ≠ INVALID_SOCKET)
    ⟨fun h => ⟨h.1, h.2.1, h.2.2⟩, fun h => ⟨h.select, h.ready, h.accept⟩⟩

instance : Decidable (Meets σ p) :=
  decidable_of_iff
    ((∀ fdRead, p.select = .ready fdRead → σ.sListen ∈ fdRead →
        σ.fdSocket.length < FD_SETSIZE ∧ p.accept ≠ none) ∧
      ∀ fdRead, p.select = .ready fdRead → Apart fdRead p.recv σ.fdSocket.tail)
    ⟨fun h => ⟨h.1, h.2⟩, fun h => ⟨h.accept, h.apart⟩⟩

end

/-- A pass that accepts `s`. -/
def accepting (s : Nat) : Pass := ⟨.ready [1], some s, fun _ => true⟩

/-- Three clients come, and the one in the middle goes while the first one sends. -/
theorem good_iff_three :
    ∃ σ, (σ.fdSocket = [1, 2, 4] ∧ σ.served = [2, 3]) ∧ InOrder σ ∧
      ∀ p, Server.Possible σ p → (Good σ p ↔ Meets σ p) := by
  have hrun : ∃ σ, Via step (fun σ p => Server.Possible σ p ∧ Meets σ p) (start 1) σ ∧
      (σ.fdSocket = [1, 2, 4] ∧ σ.served = [2, 3]) :=
    exists_via_of_execIf
      [accepting 2, accepting 3, accepting 4, ⟨.ready [2, 3], none, fun s => s == 2⟩]
      (by decide +kernel)
  obtain ⟨σ, hσ, hset⟩ := hrun
  exact ⟨σ, hset, good_iff (by decide) hσ⟩

/-- Of two clients that are ready the first one is closed, and the second one is passed over;
and an `accept` that fails ends the loop. -/
theorem passed_over :
    (∃ σ, Via step Server.Possible (start 1) σ ∧
      ∃ p, Server.Possible σ p ∧ p.select = .ready [2, 3] ∧ (σ.pass p).served = [2] ∧
        ¬Good σ p) ∧
    ∃ σ, Via step Server.Possible (start 1) σ ∧ σ.loop = .invalidSocket := by
  constructor
  · have hrun : ∃ σ, Via step Server.Possible (start 1) σ ∧
        Server.Possible σ ⟨.ready [2, 3], none, fun _ => false⟩ ∧
        (σ.pass ⟨.ready [2, 3], none, fun _ => false⟩).served = [2] :=
      exists_via_of_execIf [accepting 2, accepting 3] (by decide +kernel)
    obtain ⟨σ, hσ, hp, hserved⟩ := hrun
    refine ⟨σ, hσ, _, hp, rfl, hserved, fun hgood => ?_⟩
    have hone := hgood.served [2, 3] rfl 3 (by decide)
    rw [hserved] at hone
    exact absurd hone (by decide)
  · exact exists_via_of_execIf
      [⟨.ready [1], none, fun _ => false⟩, ⟨.error, none, fun _ => false⟩] (by decide +kernel)

end CppWorkspace.SelectEcho
