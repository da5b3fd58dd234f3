/-
# `CppWorkspace.Epoll2` — the event loop of `epoll2`

`epoll_loop` goes through the events of a batch.  A client is received from in a loop that
goes on while the buffer is filled, is answered, and is closed.  Two things are wrong:

* the receive takes the descriptor of `events[n]`, the entry behind the batch, and not that
  of `events[i]`; and it closes the descriptor if it fails, before it is closed anyway.  A
  batch is handled as it should be exactly if no receive matters (`safe_iff`);
* whether the client is answered is decided by the last `recv` alone.  With `events[i]` in
  place of `events[n]`, a request whose last full buffer is followed by nothing is read to
  its end and not answered (`answers_iff`).

Conventions:

* an iteration is the list of its calls; `events k` is an access to `events[k]`;
* the results of `recv` and `accept` are lists: a list that comes to its end goes on with
  `EAGAIN`.  Descriptor 0 is the standard input, and not given out by `accept`;
* what lies behind `events[1023]` is read as another entry;
* no other thread closes a descriptor: nothing is ever put into `sock_map`.
-/
import Mathlib.Data.List.Basic
import Mathlib.Tactic.ByContra
import CppWorkspace.Lib.Weights

namespace CppWorkspace.Epoll2

open Weights

/-! ## The loop -/

/-- An entry of the array that `epoll_wait` fills. -/
structure epoll_event where
  fd : Nat
  EPOLLIN : Bool
  EPOLLOUT : Bool
deriving DecidableEq, Repr

/-- The entries of `events`. -/
def MAXEVENTS : Nat := 1024

/-- `sizeof(recvBuf)` -/
def recvBuf : Nat := 1024

def response : String :=
  "HTTP/1.0 200 OK\r\nContent-type: text/plain\r\n\r\nHello world!\n"

/-- What `recv` returns. -/
inductive Recv where
  | count (n : Nat)
  | EAGAIN
  | error
deriving DecidableEq, Repr

/-- The system calls of an iteration, as they are logged. -/
inductive Call where
  | events (k : Nat)
  | accept (fd : Nat)
  | ctl_add (fd : Nat)
  | recv (fd : Nat) (r : Recv)
  | send (fd : Nat) (buf : String)
  | ctl_del (fd : Nat)
  | close (fd : Nat)
deriving DecidableEq, Repr

/-- The descriptor that a call reads from, writes to, deregisters or closes. -/
def Call.target : Call → Option Nat
  | .recv fd _ => some fd
  | .send fd _ => some fd
  | .ctl_del fd => some fd
  | .close fd => some fd
  | _ => none

/-- The loop over `accept`; an error that is not `EAGAIN` is tried again. -/
def acceptLoop : List (Option Nat) → List Call
  | [] => []
  | some fd :: as => .accept fd :: .ctl_add fd :: acceptLoop as
  | none :: as => acceptLoop as

/-- `while(rs)`, with the last `ret`: the descriptor of `events[k]` is received from, and
`fd`, that of `events[i]`, is closed. -/
def readLoop (events : Nat → epoll_event) (k fd : Nat) : List Recv → List Call × Int
  | [] => ([.events k, .recv (events k).fd .EAGAIN], -1)
  | .EAGAIN :: _ => ([.events k, .recv (events k).fd .EAGAIN], -1)
  | .error :: _ =>
      ([.events k, .recv (events k).fd .error, .ctl_del fd, .close fd], -1)
  | .count n :: rs =>
      if n = recvBuf then
        (.events k :: .recv (events k).fd (.count n) :: (readLoop events k fd rs).1,
          (readLoop events k fd rs).2)
      else ([.events k, .recv (events k).fd (.count n)], n)

/-- What `epoll_wait` and the calls of the iterations return, and what is in `events`. -/
structure Batch where
  listenfd : Nat
  events : Nat → epoll_event
  n : Nat
  recvs : Nat → List Recv
  accepts : Nat → List (Option Nat)

namespace Batch

/-- Iteration `i`, which receives from the descriptor of `events[k]`. -/
def iteration (b : Batch) (k i : Nat) : List Call :=
  .events i ::
    if (b.events i).fd = b.listenfd then acceptLoop (b.accepts i)
    else if (b.events i).EPOLLIN then
      (readLoop b.events k (b.events i).fd (b.recvs i)).1 ++
        (if 0 < (readLoop b.events k (b.events i).fd (b.recvs i)).2 then
          [.send (b.events i).fd response] else []) ++
        [.ctl_del (b.events i).fd, .close (b.events i).fd]
    else if (b.events i).EPOLLOUT then
      [.send (b.events i).fd response, .close (b.events i).fd]
    else [.close (b.events i).fd]

/-- The iterations of the code, which receive from the descriptor of `events[n]`. -/
def epoll_loop (b : Batch) : List (Nat × Call) :=
  (List.range b.n).flatMap fun i => (b.iteration b.n i).map fun c => (i, c)

/-- An event of a client. -/
def IsClient (b : Batch) (i : Nat) : Prop := i < b.n ∧ (b.events i).fd ≠ b.listenfd

/-- `epoll_wait` reports a client once. -/
def Distinct (b : Batch) : Prop :=
  ∀ i j, b.IsClient i → b.IsClient j → (b.events i).fd = (b.events j).fd → i = j

/-- How often a descriptor is closed. -/
def closes (b : Batch) (fd : Nat) : Nat := b.epoll_loop.countP fun x => x.2 = .close fd

/-- A batch that is handled as it should be. -/
structure Safe (b : Batch) : Prop where
  own : ∀ x ∈ b.epoll_loop, ∀ fd ∈ x.2.target, fd = (b.events x.1).fd
  inBounds : ∀ i k, (i, .events k) ∈ b.epoll_loop → k < MAXEVENTS
  once : ∀ i, b.IsClient i → b.closes (b.events i).fd = 1
  reused : ∀ i fd l₁ l₂, b.epoll_loop = l₁ ++ (i, .accept fd) :: l₂ →
    (∃ j, (j, .close fd) ∈ l₁) → ∀ j, (j, .close fd) ∉ l₂

end Batch

/-- Whether the read loop comes to an error. -/
def fails : List Recv → Bool
  | .error :: _ => true
  | .count n :: rs => decide (n = recvBuf) && fails rs
  | _ => false

/-- The batch is not longer than `events`, and whoever can be received from happens to be
what an earlier batch has left in `events[n]`, and is received from without error. -/
structure Batch.Meets (b : Batch) : Prop where
  fits : b.n ≤ MAXEVENTS
  left : ∀ i, b.IsClient i → (b.events i).EPOLLIN = true →
    b.n < MAXEVENTS ∧ (b.events b.n).fd = (b.events i).fd ∧ fails (b.recvs i) = false

/-! ## The calls of an iteration -/

theorem acceptLoop_calls {c : Call} {as : List (Option Nat)} (h : c ∈ acceptLoop as) :
    ∃ fd, c = .accept fd ∨ c = .ctl_add fd := by
  induction as with
  | nil => cases h
  | cons a as ih =>
      cases a with
      | none => exact ih h
      | some fd =>
          rcases List.mem_cons.mp h with rfl | h
          · exact ⟨fd, .inl rfl⟩
          · rcases List.mem_cons.mp h with rfl | h
            · exact ⟨fd, .inr rfl⟩
            · exact ih h

section
variable {events : Nat → epoll_event} {k fd : Nat}

theorem readLoop_calls {c : Call} {rs : List Recv} (h : c ∈ (readLoop events k fd rs).1) :
    c = .events k ∨ (∃ r, c = .recv (events k).fd r) ∨
      (fails rs = true ∧ (c = .ctl_del fd ∨ c = .close fd)) := by
  induction rs with
  | nil =>
      simp only [readLoop, List.mem_cons, List.not_mem_nil, or_false] at h
      exact h.imp_right fun h => .inl ⟨_, h⟩
  | cons r rs ih =>
      cases r with
      | EAGAIN =>
          simp only [readLoop, List.mem_cons, List.not_mem_nil, or_false] at h
          exact h.imp_right fun h => .inl ⟨_, h⟩
      | error =>
          simp only [readLoop, List.mem_cons, List.not_mem_nil, or_false] at h
          rcases h with h | h | h
          · exact .inl h
          · exact .inr (.inl ⟨_, h⟩)
          · exact .inr (.inr ⟨rfl, h⟩)
      | count n =>
          unfold readLoop at h
          split at h
          · rename_i hn
            rcases List.mem_cons.mp h with h | h
            · exact .inl h
            · rcases List.mem_cons.mp h with h | h
              · exact .inr (.inl ⟨_, h⟩)
              · have hfails : fails (.count n :: rs) = fails rs := by
                  simp only [fails, hn, decide_true, Bool.true_and]
                exact hfails ▸ ih h
          · simp only [List.mem_cons, List.not_mem_nil, or_false] at h
            exact h.imp_right fun h => .inl ⟨_, h⟩

theorem readLoop_first (rs : List Recv) :
    ∃ r cs, (readLoop events k fd rs).1 = .events k :: .recv (events k).fd r :: cs := by
  cases rs with
  | nil => exact ⟨_, _, rfl⟩
  | cons r rs =>
      cases r with
      | EAGAIN => exact ⟨_, _, rfl⟩
      | error => exact ⟨_, _, rfl⟩
      | count n =>
          unfold readLoop
          split
          · exact ⟨_, _, rfl⟩
          · exact ⟨_, _, rfl⟩

theorem readLoop_closes (rs : List Recv) (fd' : Nat) :
    (readLoop events k fd rs).1.countP (fun c => c = .close fd') =
      if fails rs = true ∧ fd = fd' then 1 else 0 := by
  induction rs with
  | nil => rfl
  | cons r rs ih =>
      cases r with
      | EAGAIN => rfl
      | error => simp [readLoop, fails, List.countP_cons]
      | count n =>
          unfold readLoop
          split
          · rename_i hn
            simp only [List.countP_cons, ih, fails, hn]
            simp
          · rename_i hn
            simp [fails, hn]

end

namespace Batch

variable {b : Batch} {i k fd : Nat} {c : Call}

theorem iteration_listen (h : (b.events i).fd = b.listenfd) :
    b.iteration k i = .events i :: acceptLoop (b.accepts i) := by
  rw [iteration, if_pos h]

theorem iteration_calls (h : (b.events i).fd ≠ b.listenfd) (hc : c ∈ b.iteration k i) :
    c = .events i ∨ c.target = some (b.events i).fd ∨
      ((b.events i).EPOLLIN = true ∧ (c = .events k ∨ ∃ r, c = .recv (b.events k).fd r)) := by
  rw [iteration, if_neg h] at hc
  rcases List.mem_cons.mp hc with hc | hc
  · exact .inl hc
  · refine .inr ?_
    split at hc
    · rename_i hin
      simp only [List.mem_append, List.mem_cons, List.not_mem_nil, or_false] at hc
      rcases hc with (hc | hc) | hc
      · rcases readLoop_calls hc with hc | hc | ⟨-, hc | hc⟩
        · exact .inr ⟨hin, .inl hc⟩
        · exact .inr ⟨hin, .inr hc⟩
        · exact .inl (hc ▸ rfl)
        · exact .inl (hc ▸ rfl)
      · split at hc
        · exact .inl (List.mem_singleton.mp hc ▸ rfl)
        · cases hc
      · rcases hc with hc | hc
        · exact .inl (hc ▸ rfl)
        · exact .inl (hc ▸ rfl)
    · split at hc
      · simp only [List.mem_cons, List.not_mem_nil, or_false] at hc
        rcases hc with hc | hc
        · exact .inl (hc ▸ rfl)
        · exact .inl (hc ▸ rfl)
      · exact .inl (List.mem_singleton.mp hc ▸ rfl)

/-- A client is closed once, and once more if its read loop comes to an error. -/
theorem iteration_closes : (b.iteration k i).countP (fun c => c = .close fd) =
    if (b.events i).fd ≠ b.listenfd ∧ (b.events i).fd = fd then
      (if (b.events i).EPOLLIN = true ∧ fails (b.recvs i) = true then 2 else 1)
    else 0 := by
  by_cases hlisten : (b.events i).fd = b.listenfd
  · rw [iteration_listen hlisten, if_neg fun h => h.1 hlisten, List.countP_cons_of_neg (by simp),
      List.countP_eq_zero]
    intro c hc
    obtain ⟨fd', rfl | rfl⟩ := acceptLoop_calls hc
    · simp
    · simp
  · rw [iteration, if_neg hlisten, List.countP_cons_of_neg (by simp)]
    by_cases hin : (b.events i).EPOLLIN = true
    · rw [if_pos hin, List.countP_append, List.countP_append, readLoop_closes]
      have hsend : ∀ p : Prop, [Decidable p] → (if p then [Call.send (b.events i).fd response]
          else []).countP (fun c => c = .close fd) = 0 := by
        intro p _
        split <;> simp
      rw [hsend]
      by_cases hfd : (b.events i).fd = fd
      · subst hfd
        by_cases hfails : fails (b.recvs i) = true
        · simp [hlisten, hin, hfails]
        · simp [hlisten, hfails]
      · simp [hfd]
    · rw [if_neg hin]
      by_cases hfd : (b.events i).fd = fd
      · subst hfd
        split <;> simp [hlisten, hin]
      · split <;> simp [hfd]

theorem mem_epoll_loop : (i, c) ∈ b.epoll_loop ↔ i < b.n ∧ c ∈ b.iteration b.n i := by
  simp only [epoll_loop, List.mem_flatMap, List.mem_range, List.mem_map, Prod.mk.injEq]
  constructor
  · rintro ⟨j, hj, d, hd, rfl, rfl⟩
    exact ⟨hj, hd⟩
  · rintro ⟨hi, hc⟩
    exact ⟨i, hi, c, hc, rfl, rfl⟩

theorem closes_eq (hb : b.Distinct) (hi : b.IsClient i) : b.closes (b.events i).fd =
    if (b.events i).EPOLLIN = true ∧ fails (b.recvs i) = true then 2 else 1 := by
  have hcount : ∀ j, (((b.iteration b.n j).map fun c => (j, c)).filter
      fun x => x.2 = .close (b.events i).fd).length =
      (b.iteration b.n j).countP (fun c => c = .close (b.events i).fd) := by
    intro j
    rw [← List.countP_eq_length_filter, List.countP_map]
    rfl
  rw [closes, List.countP_eq_length_filter, epoll_loop, List.filter_flatMap,
    flatMap_single (i := i) (List.getElem?_range hi.1)]
  · rw [hcount, iteration_closes, if_pos ⟨hi.2, rfl⟩]
  · intro j x hj hx
    obtain ⟨hjn, hget⟩ := List.getElem?_eq_some_iff.mp hx
    rw [List.getElem_range] at hget
    subst hget
    rw [List.length_range] at hjn
    rw [← List.length_eq_zero_iff, hcount, iteration_closes]
    exact if_neg fun h => hj (hb j i ⟨hjn, h.1⟩ hi h.2)

/-- A descriptor that is closed is that of a client of its iteration. -/
theorem closed_client (h : (i, .close fd) ∈ b.epoll_loop) :
    b.IsClient i ∧ (b.events i).fd = fd := by
  obtain ⟨hi, hc⟩ := mem_epoll_loop.mp h
  have hpos : 0 < (b.iteration b.n i).countP (fun c => c = .close fd) :=
    List.countP_pos_iff.mpr ⟨_, hc, decide_eq_true rfl⟩
  rw [iteration_closes] at hpos
  split at hpos
  · rename_i h
    exact ⟨⟨hi, h.1⟩, h.2⟩
  · exact absurd hpos (Nat.lt_irrefl 0)

theorem not_closed_again (honce : ∀ i, b.IsClient i → b.closes (b.events i).fd = 1)
    {x : Nat × Call} {l₁ l₂ : List (Nat × Call)} (hl : b.epoll_loop = l₁ ++ x :: l₂)
    (h₁ : ∃ j, (j, .close fd) ∈ l₁) (j : Nat) : (j, .close fd) ∉ l₂ := by
  intro h₂
  obtain ⟨j₁, h₁⟩ := h₁
  obtain ⟨hclient, rfl⟩ := closed_client (b := b) (hl ▸ List.mem_append_left _ h₁)
  have hcount := honce j₁ hclient
  have hp₁ : 0 < l₁.countP (fun x => x.2 = .close (b.events j₁).fd) :=
    List.countP_pos_iff.mpr ⟨_, h₁, decide_eq_true rfl⟩
  have hp₂ : 0 < l₂.countP (fun x => x.2 = .close (b.events j₁).fd) :=
    List.countP_pos_iff.mpr ⟨_, h₂, decide_eq_true rfl⟩
  rw [closes, hl, List.countP_append, List.countP_cons] at hcount
  omega

theorem mem_of_readLoop (hi : b.IsClient i) (hin : (b.events i).EPOLLIN = true)
    (hc : c ∈ (readLoop b.events b.n (b.events i).fd (b.recvs i)).1) : (i, c) ∈ b.epoll_loop := by
  refine mem_epoll_loop.mpr ⟨hi.1, ?_⟩
  rw [iteration, if_neg hi.2, if_pos hin]
  exact List.mem_cons_of_mem _ (List.mem_append_left _ (List.mem_append_left _ hc))

theorem meets_of_safe (hb : b.Distinct) (h : b.Safe) : b.Meets := by
  refine ⟨?_, fun i hi hin => ?_⟩
  · by_contra hn
    have hlast : (MAXEVENTS, .events MAXEVENTS) ∈ b.epoll_loop :=
      mem_epoll_loop.mpr ⟨Nat.lt_of_not_le hn, List.mem_cons_self⟩
    exact Nat.lt_irrefl _ (h.inBounds _ _ hlast)
  · obtain ⟨r, cs, hfirst⟩ : ∃ r cs, (readLoop b.events b.n (b.events i).fd (b.recvs i)).1 =
        .events b.n :: .recv (b.events b.n).fd r :: cs := readLoop_first (b.recvs i)
    have hmem : ∀ c ∈ [.events b.n, .recv (b.events b.n).fd r], (i, c) ∈ b.epoll_loop := by
      intro c hc
      refine mem_of_readLoop hi hin ?_
      rw [hfirst]
      exact List.mem_append_left cs hc
    refine ⟨h.inBounds i b.n (hmem _ List.mem_cons_self), ?_, ?_⟩
    · exact h.own _ (hmem _ (List.mem_cons_of_mem _ List.mem_cons_self)) _ rfl
    · have honce := h.once i hi
      rw [closes_eq hb hi] at honce
      by_contra hfails
      rw [if_pos ⟨hin, Bool.not_eq_false _ ▸ hfails⟩] at honce
      cases honce

/-- A client is received from and closed in its own round only. -/
theorem own_of_meets (h : b.Meets) {fd : Nat} (hx : (i, c) ∈ b.epoll_loop)
    (hfd : fd ∈ c.target) : fd = (b.events i).fd := by
  obtain ⟨hi, hc⟩ := mem_epoll_loop.mp hx
  by_cases hlisten : (b.events i).fd = b.listenfd
  · rw [iteration_listen hlisten] at hc
    rcases List.mem_cons.mp hc with rfl | hc
    · cases hfd
    · obtain ⟨fd', rfl | rfl⟩ := acceptLoop_calls hc
      · cases hfd
      · cases hfd
  · rcases iteration_calls hlisten hc with rfl | hc | ⟨hin, rfl | ⟨r, rfl⟩⟩
    · cases hfd
    · exact Option.some.inj (hfd.symm.trans hc)
    · cases hfd
    · cases hfd
      exact (h.left i ⟨hi, hlisten⟩ hin).2.1

theorem inBounds_of_meets (h : b.Meets) (hx : (i, .events k) ∈ b.epoll_loop) : k < MAXEVENTS := by
  obtain ⟨hi, hc⟩ := mem_epoll_loop.mp hx
  have hfirst : ∀ j, Call.events k = .events j → j < b.n → k < MAXEVENTS := by
    intro j hkj hj
    cases hkj
    exact Nat.lt_of_lt_of_le hj h.fits
  by_cases hlisten : (b.events i).fd = b.listenfd
  · rw [iteration_listen hlisten] at hc
    rcases List.mem_cons.mp hc with hc | hc
    · exact hfirst i hc hi
    · obtain ⟨fd', hc | hc⟩ := acceptLoop_calls hc
      · cases hc
      · cases hc
  · rcases iteration_calls hlisten hc with hc | hc | ⟨hin, hc | ⟨r, hc⟩⟩
    · exact hfirst i hc hi
    · cases hc
    · cases hc
      exact (h.left i ⟨hi, hlisten⟩ hin).1
    · cases hc

/-- A batch is handled as it should be exactly if it fits into `events` and each client that
is received from is the one in `events[n]`, and is received from without error. -/
theorem safe_iff (hb : b.Distinct) : b.Safe ↔ b.Meets := by
  refine ⟨meets_of_safe hb, fun h => ?_⟩
  have honce : ∀ i, b.IsClient i → b.closes (b.events i).fd = 1 := by
    intro i hi
    rw [closes_eq hb hi]
    refine if_neg fun hfails => ?_
    rw [(h.left i hi hfails.1).2.2] at hfails
    exact Bool.noConfusion hfails.2
  exact ⟨fun x hx fd hfd => own_of_meets h hx hfd, fun i k hx => inBounds_of_meets h hx, honce,
    fun i fd l₁ l₂ hl h₁ => not_closed_again honce hl h₁⟩

end Batch

/-- A connection and a client, whom an earlier batch has left in `events[2]`. -/
def leftBatch : Batch where
  listenfd := 3
  events k := if k = 0 then ⟨3, true, false⟩ else ⟨5, true, false⟩
  n := 2
  recvs _ := [.count 100]
  accepts _ := [some 6]

theorem distinct_leftBatch : leftBatch.Distinct := by
  have hclient : ∀ i, leftBatch.IsClient i → i = 1 := by
    rintro i ⟨hi, hne⟩
    have hi : i < 2 := hi
    by_contra h
    obtain rfl : i = 0 := by omega
    exact hne rfl
  exact fun i j hi hj _ => (hclient i hi).trans (hclient j hj).symm

theorem safe_leftBatch : leftBatch.Safe := by
  refine (Batch.safe_iff distinct_leftBatch).mpr ⟨by decide, ?_⟩
  rintro i ⟨hi, hne⟩ -
  have hi : i ≠ 0 := fun h => hne (by rw [h]; rfl)
  refine ⟨by decide, ?_, rfl⟩
  simp [leftBatch, hi]

/-- One client that can be received from; `events[1]` is as it was at the start. -/
def freshBatch : Batch where
  listenfd := 3
  events k := if k = 0 then ⟨5, true, false⟩ else ⟨0, false, false⟩
  n := 1
  recvs _ := [.count 100]
  accepts _ := []

/-- The server receives from its standard input. -/
theorem not_safe : ¬ ∀ b : Batch, b.n ≤ 4096 → b.Distinct → b.Safe := by
  intro h
  have hdistinct : freshBatch.Distinct := by
    rintro i j ⟨hi, -⟩ ⟨hj, -⟩ -
    have hi : i < 1 := hi
    have hj : j < 1 := hj
    omega
  have hrecv : (0, Call.recv 0 (.count 100)) ∈ freshBatch.epoll_loop := by decide
  exact absurd ((h freshBatch (by decide) hdistinct).own _ hrecv 0 rfl) (by decide)

/-! ## The answer

Here the receive takes the descriptor of `events[i]`. -/

/-- The bytes of a result, if there are any. -/
def Recv.bytes : Recv → List Nat
  | .count n => if n = 0 then [] else [n]
  | _ => []

/-- The results of a client's `recv`s: full or partial reads, and what comes at the end. -/
structure Request where
  counts : List Nat
  last : Recv
deriving DecidableEq, Repr

namespace Request

def results (r : Request) : List Recv := r.counts.map .count ++ [r.last]

/-- The reads that have brought bytes. -/
def reads (r : Request) : List Nat := r.counts ++ r.last.bytes

/-- No read brings more than the buffer holds; the last one fills it no longer, and is no
error. -/
structure Valid (r : Request) : Prop where
  counts : ∀ n ∈ r.counts, 0 < n ∧ n ≤ recvBuf
  last : ∀ n, r.last = .count n → n < recvBuf
  noError : r.last ≠ .error

end Request

/-- The bytes that a call has received. -/
def Call.received : Call → Nat
  | .recv _ (.count n) => n
  | _ => 0

def consumed (cs : List Call) : Nat := weight Call.received cs

/-- The client of `events[i]`, with these results of `recv`. -/
def Batch.serve (b : Batch) (i : Nat) (r : Request) : List Call :=
  { b with recvs := fun _ => r.results }.iteration i i

/-- All bytes are received, and they are answered once if there are any. -/
def Batch.Answers (b : Batch) (i : Nat) (r : Request) : Prop :=
  consumed (b.serve i r) = r.reads.sum ∧
    (b.serve i r).count (.send (b.events i).fd response) = if 0 < r.reads.sum then 1 else 0

/-- All reads but the last one fill the buffer, and the last one does not. -/
def LastShort : List Nat → Prop
  | [] => True
  | [n] => n < recvBuf
  | n :: m :: ns => n = recvBuf ∧ LastShort (m :: ns)

section
variable {events : Nat → epoll_event} {k fd : Nat} {last : Recv} {ns : List Nat}

theorem lastShort_cons_full (h : ns ≠ []) : LastShort (recvBuf :: ns) ↔ LastShort ns := by
  cases ns with
  | nil => exact absurd rfl h
  | cons m ns => exact and_iff_right rfl

theorem lastShort_cons_short {n : Nat} (hn : n < recvBuf) : LastShort (n :: ns) ↔ ns = [] := by
  cases ns with
  | nil => exact iff_of_true hn rfl
  | cons m ns => exact iff_of_false (fun h => Nat.ne_of_lt hn h.1) (List.cons_ne_nil m ns)

theorem sum_eq_zero_iff {l : List Nat} (h : ∀ n ∈ l, 0 < n) : l.sum = 0 ↔ l = [] := by
  cases l with
  | nil => exact iff_of_true rfl rfl
  | cons n l =>
      have hn := h n List.mem_cons_self
      refine iff_of_false (fun hsum => ?_) (List.cons_ne_nil n l)
      rw [List.sum_cons] at hsum
      omega

theorem bytes_pos (last : Recv) : ∀ n ∈ last.bytes, 0 < n := by
  intro n hn
  unfold Recv.bytes at hn
  split at hn
  · split at hn
    · cases hn
    · rw [List.mem_singleton.mp hn]
      omega
  · cases hn

/-- The loop receives all bytes and ends with some of them exactly if the last read is the
only short one. -/
theorem readLoop_answers (hns : ∀ n ∈ ns, 0 < n ∧ n ≤ recvBuf)
    (hlast : ∀ n, last = .count n → n < recvBuf) (herror : last ≠ .error) :
    (consumed (readLoop events k fd (ns.map .count ++ [last])).1 = (ns ++ last.bytes).sum ∧
      0 < (readLoop events k fd (ns.map .count ++ [last])).2) ↔
      LastShort (ns ++ last.bytes) ∧ ns ++ last.bytes ≠ [] := by
  induction ns with
  | nil =>
      cases last with
      | EAGAIN => simp [readLoop, Recv.bytes]
      | error => exact absurd rfl herror
      | count n =>
          have hn := hlast n rfl
          have hne : n ≠ recvBuf := Nat.ne_of_lt hn
          by_cases hzero : n = 0
          · simp [readLoop, Recv.bytes, hzero, recvBuf]
          · simp [readLoop, Recv.bytes, hzero, hne, consumed, Call.received, LastShort, hn]
            omega
  | cons n ns ih =>
      obtain ⟨⟨hpos, hle⟩, hns⟩ := List.forall_mem_cons.mp hns
      have hrest : (ns ++ last.bytes).sum = 0 ↔ ns ++ last.bytes = [] :=
        sum_eq_zero_iff fun m hm => (List.mem_append.mp hm).elim (fun h => (hns m h).1)
          (bytes_pos last m)
      simp only [List.map_cons, List.cons_append, List.sum_cons]
      unfold readLoop
      by_cases hfull : n = recvBuf
      · -- the loop goes on
        rw [if_pos hfull]
        have hconsumed : ∀ cs, consumed (.events k :: .recv (events k).fd (.count n) :: cs) =
            n + consumed cs := by
          intro cs
          simp [consumed, Call.received]
        rw [hconsumed, Nat.add_left_cancel_iff, ih hns]
        by_cases hnil : ns ++ last.bytes = []
        · rw [hnil]
          simp [LastShort, hfull]
        · rw [hfull, lastShort_cons_full hnil]
          simp [hnil]
      · -- what follows is not received
        have hlt : n < recvBuf := Nat.lt_of_le_of_ne hle hfull
        have hconsumed : consumed [.events k, .recv (events k).fd (.count n)] = n := by
          simp [consumed, Call.received]
        rw [if_neg hfull, lastShort_cons_short hlt, ← hrest, hconsumed]
        constructor
        · rintro ⟨hsum, -⟩
          exact ⟨by omega, List.cons_ne_nil n _⟩
        · rintro ⟨hsum, -⟩
          exact ⟨by omega, Int.natCast_pos.mpr hpos⟩

theorem readLoop_nothing (hlast : last.bytes = []) (herror : last ≠ .error) :
    consumed (readLoop events k fd [last]).1 = 0 ∧ ¬ 0 < (readLoop events k fd [last]).2 := by
  cases last with
  | EAGAIN => simp [readLoop, consumed, Call.received]
  | error => exact absurd rfl herror
  | count n =>
      have hn : n = 0 := by
        by_contra hn
        rw [Recv.bytes, if_neg hn] at hlast
        cases hlast
      simp [readLoop, consumed, Call.received, hn, recvBuf]

end

namespace Batch

variable {b : Batch} {i : Nat} {r : Request}

/-- What an iteration of a client receives and answers is decided in its read loop. -/
theorem answers_iff_readLoop (hclient : (b.events i).fd ≠ b.listenfd)
    (hin : (b.events i).EPOLLIN = true) :
    b.Answers i r ↔
      consumed (readLoop b.events i (b.events i).fd r.results).1 = r.reads.sum ∧
        (0 < (readLoop b.events i (b.events i).fd r.results).2 ↔ 0 < r.reads.sum) := by
  have hserve : b.serve i r = .events i ::
      ((readLoop b.events i (b.events i).fd r.results).1 ++
        (if 0 < (readLoop b.events i (b.events i).fd r.results).2 then
          [.send (b.events i).fd response] else []) ++
        [.ctl_del (b.events i).fd, .close (b.events i).fd]) := by
    rw [serve, iteration, if_neg hclient, if_pos hin]
  have hnot : (readLoop b.events i (b.events i).fd r.results).1.count
      (.send (b.events i).fd response) = 0 := by
    refine List.count_eq_zero.mpr fun hmem => ?_
    rcases readLoop_calls hmem with h | ⟨r, h⟩ | ⟨-, h | h⟩ <;> cases h
  unfold Answers
  rw [hserve]
  by_cases hret : 0 < (readLoop b.events i (b.events i).fd r.results).2
  · rw [if_pos hret]
    simp [consumed, Call.received, hnot, hret]
  · rw [if_neg hret]
    simp [consumed, Call.received, hnot, hret]

/-- A client that can be received from is answered as it should be exactly if its last read is
the only one that does not fill the buffer. -/
theorem answers_iff (hclient : (b.events i).fd ≠ b.listenfd)
    (hin : (b.events i).EPOLLIN = true) (hr : r.Valid) : b.Answers i r ↔ LastShort r.reads := by
  have hreads := @readLoop_answers b.events i (b.events i).fd _ _ hr.counts hr.last hr.noError
  have hsum : r.reads.sum = 0 ↔ r.reads = [] :=
    sum_eq_zero_iff fun m hm => (List.mem_append.mp hm).elim (fun h => (hr.counts m h).1)
      (bytes_pos r.last m)
  rw [answers_iff_readLoop hclient hin]
  by_cases hnil : r.reads = []
  · obtain ⟨hcounts, hbytes⟩ := List.append_eq_nil_iff.mp hnil
    have hresults : r.results = [r.last] := by rw [Request.results, hcounts]; rfl
    obtain ⟨hconsumed, hret⟩ :=
      @readLoop_nothing b.events i (b.events i).fd _ hbytes hr.noError
    rw [hresults, hnil, List.sum_nil, hconsumed]
    exact iff_of_true ⟨rfl, iff_of_false hret (Nat.lt_irrefl 0)⟩ trivial
  · have hpos : 0 < r.reads.sum := Nat.pos_of_ne_zero fun h => hnil (hsum.mp h)
    rw [iff_true_right hpos]
    exact hreads.trans (and_iff_left hnil)

end Batch

/-- A request of 1029 bytes. -/
theorem answers_short : leftBatch.Answers 1 ⟨[1024], .count 5⟩ := by
  refine (Batch.answers_iff (by decide) rfl ⟨?_, ?_, ?_⟩).mpr ⟨rfl, ?_⟩
  · decide
  · rintro n ⟨⟩
    decide
  · decide
  · change 5 < recvBuf
    decide

/-- A request of 1024 bytes is not answered. -/
theorem not_answers : ¬ ∀ (b : Batch) (i : Nat) (r : Request), (b.events i).fd ≠ b.listenfd →
    (b.events i).EPOLLIN = true → r.Valid → b.Answers i r := by
  intro h
  have hvalid : (⟨[1024], .EAGAIN⟩ : Request).Valid :=
    ⟨by decide, fun n hn => (by cases hn), by decide⟩
  exact absurd (h leftBatch 1 ⟨[1024], .EAGAIN⟩ (by decide) rfl hvalid).2 (by decide)

end CppWorkspace.Epoll2
