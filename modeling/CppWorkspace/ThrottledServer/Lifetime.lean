/-
# `CppWorkspace.ThrottledServer.Lifetime` — the life of a socket object

`HandleIo` frees a socket object when it finds both of its counters at zero.  It does not
know of the threads that are still inside `HandleIo` with the same object: the handler of a
send posts the next receive, and looks at the counters afterwards, when that receive may
have completed on another thread, which has found them at zero, too.

`FreedOnce` holds in every run in which a thread that closes the socket of an object, or
frees it, is the last to use it (`freed_once`), and only in such runs can it be relied on
(`freed_twice`).
-/
import CppWorkspace.ThrottledServer.Events

namespace CppWorkspace.ThrottledServer

open Programs Runs LinkedList

/-- `FreeSocketObj` was called at most once for each connection, no thread is about to
touch an object that was freed, and the free list has no object twice. -/
structure FreedOnce (m : Machine) : Prop where
  once : (m.shared.frees.map SockPtr.conn).Nodup
  untouched : ∀ t c p, m.next t = some c → m.shared.touched c = some p → p ∉ m.shared.frees
  list : ∃ l, Chain m.shared.snext m.shared.gFreeSocketList l ∧ l.Nodup

/-- No accept completes with an error, and a socket object is only released by its last
user. -/
def Sole (m : Machine) : Action → Prop
  | .begin _ (.completion op error _ _) => error = true → op.operation ≠ .OP_ACCEPT
  | .run t _ => ∀ p ∈ (m.next t).bind Cmd.releases, LastUser m t p
  | _ => True

instance (m : Machine) (t : Nat) (p : SockPtr) : Decidable (LastUser m t p) :=
  inferInstanceAs (Decidable (_ ∧ _))

instance (m : Machine) : (a : Action) → Decidable (Sole m a)
  | .begin _ (.completion op error _ _) =>
      inferInstanceAs (Decidable (error = true → op.operation ≠ .OP_ACCEPT))
  | .begin _ (.initialAccepts _) => .isTrue trivial
  | .begin _ (.FD_ACCEPT _) => .isTrue trivial
  | .begin _ (.RepostAccept _) => .isTrue trivial
  | .run t _ => inferInstanceAs (Decidable (∀ p ∈ (m.next t).bind Cmd.releases, LastUser m t p))
  | .finish _ => .isTrue trivial

variable {cfg : Config} {threads : Nat} {m : Machine}

/-- The life of the socket objects, from what holds between any two commands. -/
theorem freedOnce_of_good {rs : List Res} (h : (rules cfg .sockets).Good m rs) : FreedOnce m := by
  have H : World cfg .sockets m.shared rs.sum.1 rs.sum.2.1 rs.sum.2.2.1 rs.sum.2.2.2 := h.inv
  obtain ⟨L, hL⟩ := H.listed rfl
  have hobjects := (hL.sockets rfl).objects
  refine ⟨hobjects.once, fun t c p hc htouched hfreed => ?_, ?_⟩
  · obtain ⟨e, r, -, -, hpre⟩ := h.before hc
    exact (hobjects.freed p hfreed).2 p (hpre.2.1 rfl p htouched) rfl
  · obtain ⟨l, hchain, hnodup, -⟩ := hobjects.free
    exact ⟨l, hchain, hnodup⟩

theorem sole_run (h : Via (system cfg).step Sole (start cfg threads) m) :
    ∃ rs, (rules cfg .sockets).Good m rs := by
  refine world_run (fun m rs t e _ hcond => ?_)
    (fun m rs t x c p hgood hcond hc hs _ hp t' r' ht' hr' => ?_)
    (fun m t x c _ _ => ⟨nofun, nofun⟩) h
  · cases e with
    | completion op error data rounds => exact ⟨fun _ herror haccept => absurd haccept (hcond herror), nofun⟩
    | _ => trivial
  · have hlast : LastUser m t p := hcond p (by rw [hc]; exact hp)
    exact users_others hgood hs hlast ht' hr'

/-- In every run in which only last users release. -/
theorem freed_once (h : Via (system cfg).step Sole (start cfg threads) m) : FreedOnce m := by
  obtain ⟨rs, hgood⟩ := sole_run h
  exact freedOnce_of_good hgood

/-! A connection: its accept completes with a byte, which is sent. -/

def lookaside : Config := ⟨4096, 1, 500, 1⟩

def firstSend : List Action := List.flatten [
  [.begin 0 (.initialAccepts 0), .run 0 .ok, .run 0 .ok, .run 0 (.handle 100), .run 0 .ok,
    .run 0 .ok, .finish 0,
    .begin 0 (.completion ⟨.OP_ACCEPT, .listen 0, 100, 0, 3808⟩ false [7] 2)],
  List.replicate 19 (.run 0 .ok), [.finish 0]]

/-- The send fails: its object is freed by the only thread that uses it. -/
def failedSend : List Action :=
  firstSend ++ .begin 0 (.completion ⟨.OP_WRITE, .sock ⟨0, 0⟩, 100, 0, 1⟩ true [] 2) ::
    (List.replicate 9 (.run 0 .ok) ++ [.finish 0])

/-- Thread 0 posts the receive.  It completes without data on thread 1, which sets
`bClosing`; now both find the counters at zero, and both free the object. -/
def bothFree : List Action := List.flatten [
  firstSend, [.begin 0 (.completion ⟨.OP_WRITE, .sock ⟨0, 0⟩, 100, 0, 1⟩ false [] 2)],
  List.replicate 12 (.run 0 .ok),
  [.begin 1 (.completion ⟨.OP_READ, .sock ⟨0, 0⟩, 100, 0, 4096⟩ false [] 2)],
  List.replicate 3 (.run 1 .ok), List.replicate 3 (.run 0 .ok), List.replicate 14 (.run 1 .ok),
  List.replicate 4 (.run 0 .ok)]

theorem freed_once_failedSend : ∃ m, Via (system lookaside).step Sole (start lookaside 2) m ∧
    m.shared.frees = [⟨0, 0⟩] ∧ FreedOnce m := by
  have hrun : ∃ m, Via (system lookaside).step Sole (start lookaside 2) m ∧
      m.shared.frees = [⟨0, 0⟩] := exists_via_of_execIf failedSend (by decide +kernel)
  obtain ⟨m, hm, hfrees⟩ := hrun
  exact ⟨m, hm, hfrees, freed_once hm⟩

theorem freed_twice : ∃ m, Reachable lookaside 2 m ∧ m.shared.frees = [⟨0, 0⟩, ⟨0, 0⟩] ∧
    m.shared.gFreeSocketList = some 0 ∧ m.shared.snext 0 = some 0 ∧ ¬ FreedOnce m := by
  have hrun : ∃ m, Reachable lookaside 2 m ∧ m.shared.frees = [⟨0, 0⟩, ⟨0, 0⟩] ∧
      m.shared.gFreeSocketList = some 0 ∧ m.shared.snext 0 = some 0 :=
    exists_via_of_execIf bothFree (by decide +kernel)
  obtain ⟨m, hm, hfrees, hfirst, hnext⟩ := hrun
  refine ⟨m, hm, hfrees, hfirst, hnext, fun h => ?_⟩
  have honce := h.once
  rw [hfrees] at honce
  revert honce
  decide

end CppWorkspace.ThrottledServer
