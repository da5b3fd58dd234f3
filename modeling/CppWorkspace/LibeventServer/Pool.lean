/-
# `CppWorkspace.LibeventServer.Pool` — the free `Conn`s of the workers

Each worker has `connnum + 1` `Conn`s, linked from `head` to `tail`.  The
listener's `DoAccept` takes the head, unless it is the tail; `CloseConn` appends.
No `Conn` carries a mark that it is in use, so a `Conn` may be closed only while
it has a client.

The callbacks of a bufferevent fire while it is enabled.  `StartServer` enables
them all and sets their timeouts, so a timeout can be reported for a `Conn` that
never had a client: `DoError` then puts a `Conn` back that is in the list
already, and cuts off all that follow it there (`timeout_of_free`).  If that does
not happen, each `Conn` is in the list or has a client of its own, whatever the
order of the callbacks (`conns_owned`).

Conventions:

* a callback is one step, and so is `DoAccept`;
* `client` is a ghost field: the socket that `DoAccept` gave to the `Conn`, until
  `CloseConn`; `fd` is the field that the code has, and keeps after `CloseConn`;
* a `Conn` without a socket has no input, so its `DoRead` does nothing.
-/
import Mathlib.Algebra.Group.Int.Defs
import CppWorkspace.Lib.LinkedList
import CppWorkspace.Lib.Runs

namespace CppWorkspace.LibeventServer

open LinkedList Runs

/-! ## Workers -/

/-- A socket handle. -/
abbrev evutil_socket_t := Nat

/-- A worker: its `ConnList`, and the fields of its `Conn`s. -/
structure Worker where
  head : Option Nat
  tail : Nat
  next : Nat → Option Nat
  fd : Nat → evutil_socket_t
  enabled : Nat → Bool
  client : Nat → Option evutil_socket_t

namespace Worker

/-- `GetFreeConn`; outer `none`: the head is the null pointer and is followed. -/
def GetFreeConn (w : Worker) : Option (Option Nat × Worker) :=
  if w.head = some w.tail then some (none, w)
  else w.head.map fun p => (some p, { w with head := w.next p })

/-- `PutFreeConn`. -/
def PutFreeConn (w : Worker) (p : Nat) : Worker :=
  { w with next := write w.next w.tail (some p), tail := p }

/-- `f` changed at one `Conn`. -/
def set {β : Type} (f : Nat → β) (p : Nat) (v : β) : Nat → β := fun x => if x = p then v else f x

@[simp] theorem set_self {β : Type} (f : Nat → β) (p : Nat) (v : β) : set f p v p = v := if_pos rfl

theorem set_of_ne {β : Type} {f : Nat → β} {p x : Nat} {v : β} (h : x ≠ p) : set f p v x = f x :=
  if_neg h

/-- The rest of `DoAccept`: `fd`, `bufferevent_setfd`, `bufferevent_enable`. -/
def attach (w : Worker) (p : Nat) (fd : evutil_socket_t) : Worker :=
  { w with fd := set w.fd p fd, enabled := set w.enabled p true,
           client := set w.client p (some fd) }

/-- `CloseConn`, but for the socket. -/
def release (w : Worker) (p : Nat) : Worker :=
  ({ w with
      enabled := set w.enabled p false
      client := set w.client p none } : Worker).PutFreeConn p

/-- The worker as `StartServer` makes it. -/
def start (connnum : Nat) : Worker where
  head := some 0
  tail := connnum
  next := fun p => if p < connnum then some (p + 1) else none
  fd := fun _ => 0
  enabled := fun p => decide (p ≤ connnum)
  client := fun _ => none

end Worker

/-! ## The server -/

/-- The workers with their `Conn`s. -/
structure Server where
  workernum : Nat
  connnum : Nat
  nCurrentWorker : Int
  pWorker : Nat → Worker
  /-- The accepted sockets that were not closed. -/
  opened : List evutil_socket_t

/-- A value of an `int`. -/
def toInt (n : Int) : Int := (n + 2 ^ 31) % 2 ^ 32 - 2 ^ 31

/-- The callbacks of libevent, on the listener and on the workers. -/
inductive Event
  /-- The listener has accepted `fd`. -/
  | accept (fd : evutil_socket_t)
  /-- `DoRead` of the `Conn` `p` of worker `w`; whether it comes to `CloseConn`. -/
  | read (w p : Nat) (closes : Bool)
  /-- `DoError`: end of file, error or timeout. -/
  | error (w p : Nat)
deriving DecidableEq

namespace Server

/-- `StartServer`. -/
def start (workernum connnum : Nat) : Server where
  workernum := workernum
  connnum := connnum
  nCurrentWorker := 0
  pWorker := fun _ => .start connnum
  opened := []

/-- Another worker `w`. -/
def setWorker (s : Server) (i : Nat) (w : Worker) : Server :=
  { s with pWorker := fun x => if x = i then w else s.pWorker x }

/-- `DoAccept`; `none` if an index lies outside `pWorker` or a null pointer is
followed.  The handle of a new socket is not that of an open one. -/
def DoAccept (s : Server) (fd : evutil_socket_t) : Option Server :=
  let nCurrent := s.nCurrentWorker.tmod s.workernum
  if fd ∈ s.opened ∨ s.workernum = 0 ∨ nCurrent < 0 then none
  else
    let i := nCurrent.toNat
    ((s.pWorker i).GetFreeConn).map fun r =>
      { (s.setWorker i
            (match r.1 with
            | none => r.2
            | some p => r.2.attach p fd)) with
        nCurrentWorker := toInt (s.nCurrentWorker + 1)
        opened := fd :: s.opened }

/-- `CloseConn`. -/
def CloseConn (s : Server) (i p : Nat) : Server :=
  { s.setWorker i ((s.pWorker i).release p) with
    opened := s.opened.erase ((s.pWorker i).fd p) }

def step (s : Server) : Event → Option Server
  | .accept fd => s.DoAccept fd
  | .read i p closes =>
      if i < s.workernum ∧ p ≤ s.connnum ∧ (s.pWorker i).enabled p = true then
        if closes = true then
          if (s.pWorker i).client p = none then none else some (s.CloseConn i p)
        else some s
      else none
  | .error i p =>
      if i < s.workernum ∧ p ≤ s.connnum ∧ (s.pWorker i).enabled p = true then
        some (s.CloseConn i p)
      else none

end Server

/-- `DoError` is for a `Conn` that has a client. -/
def OnClient (s : Server) : Event → Prop
  | .error i p => (s.pWorker i).client p ≠ none
  | _ => True

instance (s : Server) : ∀ e : Event, Decidable (OnClient s e)
  | .accept _ => inferInstanceAs (Decidable True)
  | .read _ _ _ => inferInstanceAs (Decidable True)
  | .error i p => inferInstanceAs (Decidable ((s.pWorker i).client p ≠ none))

/-! ## The free list -/

/-- The free list of a worker: from `head` to `tail`. -/
def Worker.FreeList (w : Worker) (free : List Nat) : Prop :=
  ∃ l, free = l ++ [w.tail] ∧ Segment w.next w.head (some w.tail) l

/-- Each `Conn` is once in the free list, or has a client. -/
structure Worker.Pooled (connnum : Nat) (w : Worker) (free : List Nat) : Prop where
  list : w.FreeList free
  nodup : free.Nodup
  mem : ∀ p, p ∈ free ↔ p ≤ connnum ∧ w.client p = none

section
variable {n : Nat} {w : Worker} {free : List Nat} {p : Nat} {fd : evutil_socket_t}

theorem Worker.start_segment (n : Nat) : ∀ k p, p + k = n →
    Segment (Worker.start n).next (some p) (some n) (List.range' p k)
  | 0, p, h => by
      obtain rfl : p = n := h
      rfl
  | k + 1, p, h => by
      have hnext : (Worker.start n).next p = some (p + 1) := if_pos (by omega)
      refine ⟨rfl, ?_⟩
      rw [hnext]
      exact Worker.start_segment n k (p + 1) (by omega)

theorem Worker.start_pooled (n : Nat) : (Worker.start n).Pooled n (List.range' 0 (n + 1)) where
  list := by
    refine ⟨List.range' 0 n, ?_, Worker.start_segment n n 0 (by omega)⟩
    rw [List.range'_concat]
    simp [Worker.start]
  nodup := List.nodup_range'
  mem := by
    intro p
    rw [List.mem_range'_1, Nat.zero_add]
    exact ⟨fun h => ⟨Nat.le_of_lt_succ h.2, rfl⟩,
      fun h => ⟨Nat.zero_le p, Nat.lt_succ_of_le h.1⟩⟩

/-- `GetFreeConn` fails, or hands out a `Conn` that has no client. -/
theorem Worker.Pooled.getFreeConn (h : w.Pooled n free) :
    w.GetFreeConn = some (none, w)
      ∨ ∃ q rest, w.GetFreeConn = some (some q, { w with head := w.next q }) ∧ free = q :: rest
        ∧ ∃ l, rest = l ++ [w.tail] ∧ Segment w.next (w.next q) (some w.tail) l := by
  obtain ⟨l, rfl, hl⟩ := h.list
  by_cases hhead : w.head = some w.tail
  · exact .inl (if_pos hhead)
  · cases l with
    | nil => exact absurd hl hhead
    | cons q l =>
        refine .inr ⟨q, l ++ [w.tail], ?_, rfl, l, rfl, hl.2⟩
        rw [Worker.GetFreeConn, if_neg hhead, hl.1]
        rfl

theorem Worker.Pooled.attach (h : w.Pooled n (p :: free)) (hl : ∃ l, free = l ++ [w.tail]
    ∧ Segment w.next (w.next p) (some w.tail) l) :
    (({ w with head := w.next p } : Worker).attach p fd).Pooled n free where
  list := hl
  nodup := (List.nodup_cons.mp h.nodup).2
  mem := by
    intro x
    have hx := h.mem x
    have hp := (List.nodup_cons.mp h.nodup).1
    by_cases he : x = p
    · subst he
      simp [Worker.attach, hp]
    · simpa [Worker.attach, Worker.set_of_ne he, he] using hx

theorem Worker.Pooled.release (h : w.Pooled n free) (hp : p ≤ n) (hc : w.client p ≠ none) :
    (w.release p).Pooled n (free ++ [p]) where
  list := by
    obtain ⟨l, rfl, hl⟩ := h.list
    refine ⟨l ++ [w.tail], rfl, hl.put ?_ p⟩
    intro hmem
    exact (List.nodup_append.mp h.nodup).2.2 _ hmem _ List.mem_cons_self rfl
  nodup := by
    have hfree : p ∉ free := fun hmem => hc ((h.mem p).mp hmem).2
    rw [List.nodup_append]
    refine ⟨h.nodup, List.nodup_singleton p, ?_⟩
    intro a ha b hb hab
    rw [List.mem_singleton.mp hb] at hab
    exact hfree (hab ▸ ha)
  mem := by
    intro x
    have hx := h.mem x
    by_cases he : x = p
    · subst he
      simp [Worker.release, Worker.PutFreeConn, hp]
    · simpa [Worker.release, Worker.PutFreeConn, Worker.set_of_ne he, he] using hx

end

/-! ## Clients -/

/-- The pools of all workers; and a client's socket is open, stands in `fd`, and
belongs to no other `Conn`. -/
structure Server.Inv (s : Server) : Prop where
  pooled : ∀ i < s.workernum, ∃ free, (s.pWorker i).Pooled s.connnum free
  client : ∀ i < s.workernum, ∀ p fd, (s.pWorker i).client p = some fd →
    (s.pWorker i).fd p = fd ∧ fd ∈ s.opened
  alone : ∀ i < s.workernum, ∀ j < s.workernum, ∀ p q fd, (s.pWorker i).client p = some fd →
    (s.pWorker j).client q = some fd → i = j ∧ p = q
  nodup : s.opened.Nodup

/-- Each `Conn` is in the free list of its worker, once; or it is not there, and
serves one open socket that no other `Conn` serves. -/
def Server.Owned (s : Server) : Prop :=
  ∀ i < s.workernum, ∃ free, (s.pWorker i).FreeList free ∧ ∀ p ≤ s.connnum,
    free.count p = 1 ∧ (s.pWorker i).client p = none
      ∨ free.count p = 0 ∧ ∃ fd ∈ s.opened, (s.pWorker i).client p = some fd
          ∧ ∀ j < s.workernum, ∀ q, (s.pWorker j).client q = some fd → j = i ∧ q = p

namespace Server

theorem Inv.owned {s : Server} (h : s.Inv) : s.Owned := by
  intro i hi
  obtain ⟨free, hfree⟩ := h.pooled i hi
  refine ⟨free, hfree.list, fun p hp => ?_⟩
  cases hc : (s.pWorker i).client p with
  | none => exact .inl ⟨List.count_eq_one_of_mem hfree.nodup ((hfree.mem p).mpr ⟨hp, hc⟩), rfl⟩
  | some fd =>
      refine .inr ⟨?_, fd, (h.client i hi p fd hc).2, rfl, ?_⟩
      · refine List.count_eq_zero.mpr fun hmem => ?_
        have hnone := ((hfree.mem p).mp hmem).2
        rw [hc] at hnone
        cases hnone
      · intro j hj q hq
        exact h.alone j hj i hi q p fd hq hc

theorem start_inv (workernum connnum : Nat) : (start workernum connnum).Inv where
  pooled := fun _ _ => ⟨_, Worker.start_pooled connnum⟩
  client := by
    intro i hi p fd h
    cases h
  alone := by
    intro i hi j hj p q fd h
    cases h
  nodup := List.nodup_nil

section
variable {s t : Server} {i p : Nat} {fd : evutil_socket_t}

@[simp] theorem setWorker_self (w : Worker) : (s.setWorker i w).pWorker i = w := if_pos rfl

@[simp] theorem setWorker_connnum (w : Worker) : (s.setWorker i w).connnum = s.connnum := rfl

theorem setWorker_of_ne {j : Nat} (w : Worker) (h : j ≠ i) :
    (s.setWorker i w).pWorker j = s.pWorker j := if_neg h

theorem Inv.closeConn (h : s.Inv) (hi : i < s.workernum) (hp : p ≤ s.connnum)
    (hc : (s.pWorker i).client p ≠ none) : (s.CloseConn i p).Inv := by
  obtain ⟨fd, hfd⟩ := Option.ne_none_iff_exists'.mp hc
  -- the clients that are left are those of the other `Conn`s
  have hleft : ∀ j q fd', ((s.CloseConn i p).pWorker j).client q = some fd' →
      (s.pWorker j).client q = some fd' ∧ ((s.CloseConn i p).pWorker j).fd q = (s.pWorker j).fd q
        ∧ ¬ (j = i ∧ q = p) := by
    intro j q fd' hq
    by_cases hj : j = i
    · subst hj
      simp only [CloseConn, setWorker_self, Worker.release, Worker.PutFreeConn] at hq ⊢
      by_cases hqp : q = p
      · rw [hqp, Worker.set_self] at hq
        cases hq
      · rw [Worker.set_of_ne hqp] at hq
        exact ⟨hq, trivial, fun he => hqp he.2⟩
    · simp only [CloseConn, setWorker_of_ne _ hj] at hq ⊢
      exact ⟨hq, trivial, fun he => hj he.1⟩
  constructor
  · intro j hj
    by_cases hji : j = i
    · subst hji
      obtain ⟨free, hfree⟩ := h.pooled j hj
      exact ⟨_, by simpa [CloseConn] using hfree.release hp hc⟩
    · obtain ⟨free, hfree⟩ := h.pooled j hj
      exact ⟨free, by simpa [CloseConn, setWorker_of_ne _ hji] using hfree⟩
  · intro j hj q fd' hq
    obtain ⟨hq', hfield, hne⟩ := hleft j q fd' hq
    obtain ⟨hval, hmem⟩ := h.client j hj q fd' hq'
    refine ⟨hfield.trans hval, ?_⟩
    have hclosed : (s.pWorker i).fd p = fd := (h.client i hi p fd hfd).1
    refine (List.mem_erase_of_ne ?_).mpr hmem
    rintro rfl
    rw [hclosed] at hq'
    exact hne (h.alone j hj i hi q p fd hq' hfd)
  · intro j hj k hk q q' fd' hq hq'
    exact h.alone j hj k hk q q' fd' (hleft j q fd' hq).1 (hleft k q' fd' hq').1
  · exact h.nodup.erase _

theorem DoAccept_spec (h : s.DoAccept fd = some t) :
    fd ∉ s.opened ∧ ∃ i r, i = (s.nCurrentWorker.tmod s.workernum).toNat ∧ i < s.workernum ∧
      (s.pWorker i).GetFreeConn = some r ∧
      t = { (s.setWorker i
              (match r.1 with
              | none => r.2
              | some p => r.2.attach p fd)) with
            nCurrentWorker := toInt (s.nCurrentWorker + 1)
            opened := fd :: s.opened } := by
  unfold DoAccept at h
  dsimp only at h
  split at h
  · cases h
  rename_i hguard
  simp only [not_or, Int.not_lt] at hguard
  obtain ⟨hnew, hnum, -⟩ := hguard
  obtain ⟨r, hr, rfl⟩ := Option.map_eq_some_iff.mp h
  have hmod := Int.tmod_lt_of_pos s.nCurrentWorker (b := s.workernum) (by omega)
  exact ⟨hnew, _, r, rfl, by omega, hr, rfl⟩

theorem Inv.doAccept (h : s.Inv) (hstep : s.DoAccept fd = some t) : t.Inv := by
  obtain ⟨hnew, i, r, -, hlt, hr, rfl⟩ := DoAccept_spec hstep
  -- an open socket has another handle than the new one
  have hother : ∀ j < s.workernum, ∀ q fd', (s.pWorker j).client q = some fd' → fd' ≠ fd := by
    rintro j hj q fd' hq rfl
    exact hnew (h.client j hj q fd' hq).2
  obtain ⟨free, hfree⟩ := h.pooled i hlt
  rcases hfree.getFreeConn with hnone | ⟨p, rest, hget, rfl, hrest⟩
  · rw [hnone] at hr
    cases hr
    have hsame : ∀ j, (s.setWorker i (s.pWorker i)).pWorker j = s.pWorker j := by
      intro j
      by_cases hj : j = i
      · rw [hj, setWorker_self]
      · exact setWorker_of_ne _ hj
    refine ⟨?_, ?_, ?_, List.nodup_cons.mpr ⟨hnew, h.nodup⟩⟩
    · intro j hj
      simpa only [hsame, setWorker_connnum] using h.pooled j hj
    · intro j hj q fd' hq
      simp only [hsame] at hq ⊢
      obtain ⟨hval, hmem⟩ := h.client j hj q fd' hq
      exact ⟨hval, List.mem_cons_of_mem fd hmem⟩
    · intro j hj k hk q q' fd' hq hq'
      simp only [hsame] at hq hq'
      exact h.alone j hj k hk q q' fd' hq hq'
  · rw [hget] at hr
    cases hr
    obtain ⟨w, hw⟩ : ∃ w,
        w = ({ s.pWorker i with head := (s.pWorker i).next p } : Worker).attach p fd := ⟨_, rfl⟩
    have hattached : w.Pooled s.connnum rest := hw ▸ hfree.attach hrest
    -- the clients are the old ones, and the new one
    have hclient : ∀ j q fd', ((s.setWorker i w).pWorker j).client q = some fd' →
        (j = i ∧ q = p ∧ fd' = fd ∧ ((s.setWorker i w).pWorker j).fd q = fd)
          ∨ ((s.pWorker j).client q = some fd'
            ∧ ((s.setWorker i w).pWorker j).fd q = (s.pWorker j).fd q) := by
      intro j q fd' hq
      by_cases hj : j = i
      · subst hj
        simp only [setWorker_self, hw, Worker.attach] at hq ⊢
        by_cases hqp : q = p
        · subst hqp
          rw [Worker.set_self] at hq
          exact .inl ⟨trivial, rfl, (Option.some.inj hq).symm, Worker.set_self _ _ _⟩
        · rw [Worker.set_of_ne hqp] at hq
          exact .inr ⟨hq, Worker.set_of_ne hqp⟩
      · rw [setWorker_of_ne _ hj] at hq ⊢
        exact .inr ⟨hq, rfl⟩
    refine ⟨?_, ?_, ?_, List.nodup_cons.mpr ⟨hnew, h.nodup⟩⟩
    · intro j hj
      by_cases hji : j = i
      · subst hji
        exact ⟨rest, by simpa [hw] using hattached⟩
      · obtain ⟨free', hfree'⟩ := h.pooled j hj
        exact ⟨free', by simpa only [setWorker_of_ne _ hji, setWorker_connnum] using hfree'⟩
    · intro j hj q fd' hq
      rcases hclient j q fd' (by simpa [hw] using hq) with ⟨rfl, rfl, rfl, hfield⟩ | ⟨hq', hfield⟩
      · exact ⟨by simpa [hw] using hfield, List.mem_cons_self⟩
      · obtain ⟨hval, hmem⟩ := h.client j hj q fd' hq'
        exact ⟨by simpa [hw] using hfield.trans hval, List.mem_cons_of_mem fd hmem⟩
    · intro j hj k hk q q' fd' hq hq'
      rcases hclient j q fd' (by simpa [hw] using hq) with ⟨rfl, rfl, rfl, -⟩ | ⟨hold, -⟩
      · rcases hclient k q' fd' (by simpa [hw] using hq') with ⟨rfl, rfl, -, -⟩ | ⟨hold', -⟩
        · exact ⟨rfl, rfl⟩
        · exact absurd rfl (hother k hk q' fd' hold')
      · rcases hclient k q' fd' (by simpa [hw] using hq') with ⟨rfl, rfl, rfl, -⟩ | ⟨hold', -⟩
        · exact absurd rfl (hother j hj q fd' hold)
        · exact h.alone j hj k hk q q' fd' hold hold'

end

theorem Inv.step {s t : Server} {e : Event} (h : s.Inv) (hok : OnClient s e)
    (hstep : s.step e = some t) : t.Inv := by
  cases e with
  | accept fd => exact h.doAccept hstep
  | read i p closes =>
      simp only [Server.step] at hstep
      split at hstep
      · rename_i hon
        split at hstep
        · split at hstep
          · cases hstep
          · rename_i hc
            cases hstep
            exact h.closeConn hon.1 hon.2.1 hc
        · cases hstep
          exact h
      · cases hstep
  | error i p =>
      simp only [Server.step] at hstep
      split at hstep
      · rename_i hon
        cases hstep
        exact h.closeConn hon.1 hon.2.1 hok
      · cases hstep

end Server

/-- **Pool ownership.**  In whatever order the callbacks come: if `DoError` is only
for `Conn`s that have a client, each `Conn` is free once or serves one socket. -/
theorem conns_owned (workernum connnum : Nat) (s : Server)
    (h : Via Server.step OnClient (Server.start workernum connnum) s) : s.Owned :=
  (h.invariant (Server.start_inv workernum connnum)
    fun _ _ _ hinv hok hstep => hinv.step hok hstep).owned

/-- Two clients, and the first of them closed by its handler, the other by an error. -/
theorem conns_owned_twoClients :
    ∃ s : Server, Via Server.step OnClient (Server.start 1 2) s
      ∧ ((s.pWorker 0).head = some 2 ∧ s.opened = []) ∧ s.Owned := by
  obtain ⟨s, hs, hend⟩ : ∃ s, Via Server.step OnClient (Server.start 1 2) s
      ∧ (s.pWorker 0).head = some 2 ∧ s.opened = [] := exists_via_of_execIf
    [.accept 5, .accept 6, .read 0 0 false, .read 0 0 true, .error 0 1] (by decide +kernel)
  exact ⟨s, hs, hend, conns_owned 1 2 s hs⟩

/-! ## A timeout without a client -/

theorem Worker.FreeList.eq_singleton {w : Worker} {free : List Nat} (h : w.FreeList free)
    (hhead : w.head = some w.tail) (honce : free.count w.tail ≤ 1) : free = [w.tail] := by
  obtain ⟨l, rfl, hl⟩ := h
  cases l with
  | nil => rfl
  | cons a l =>
      obtain rfl : a = w.tail := Option.some.inj (hl.1.symm.trans hhead)
      simp only [List.cons_append, List.count_cons_self, List.count_append] at honce
      omega

/-- The read timeout of the first `Conn` is reported before any client has come:
the second one is lost. -/
theorem timeout_of_free :
    ∃ s : Server, Via Server.step (fun _ _ => True) (Server.start 1 1) s ∧ ¬ s.Owned := by
  obtain ⟨s, hs, hw, hn, hhead, htail, hc₀, hc₁⟩ :
      ∃ s, Via Server.step (fun _ _ => True) (Server.start 1 1) s ∧ s.workernum = 1
        ∧ s.connnum = 1 ∧ (s.pWorker 0).head = some 0 ∧ (s.pWorker 0).tail = 0
        ∧ (s.pWorker 0).client 0 = none ∧ (s.pWorker 0).client 1 = none :=
    exists_via_of_execIf [.error 0 0] (by decide +kernel)
  refine ⟨s, hs, fun howned => ?_⟩
  obtain ⟨free, hfree, hcases⟩ := howned 0 (by omega)
  have hfirst : free.count 0 = 1 := by
    rcases hcases 0 (by omega) with ⟨h, -⟩ | ⟨-, fd, -, hfd, -⟩
    · exact h
    · rw [hc₀] at hfd
      cases hfd
  have hsingle : free = [0] := by
    have honce : free.count (s.pWorker 0).tail ≤ 1 := by
      rw [htail]
      exact Nat.le_of_eq hfirst
    have hends := hfree.eq_singleton (by rw [hhead, htail]) honce
    rwa [htail] at hends
  rcases hcases 1 (by omega) with ⟨h, -⟩ | ⟨-, fd, -, hfd, -⟩
  · rw [hsingle] at h
    exact absurd h (by decide)
  · rw [hc₁] at hfd
    cases hfd

end CppWorkspace.LibeventServer
