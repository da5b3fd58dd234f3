/-
# `CppWorkspace.PollServer` — the rounds of `poll_impl`

`clients[]` holds the listening socket in slot 0 and the clients behind it; `poll` looks at
the slots up to `maxi`.  A round accepts one client into the first free slot, and then
`handle` reads from the slots that are ready.  The table stays in order in every round
(`InOrder`); who is served is another matter.  `handle` stops

* before slot `maxi`, so a client there is not served;
* after as many answers as `nready` counts.  This is late enough after a `poll` that has
  counted, and too early after one that has failed and left the table as it was;

and it is not called at all in a round that finds the table full.  All ready clients are
served exactly if nothing of this matters (`round_serves_iff`).

Conventions: descriptors are numbers, and `none` is -1; `accept` gives out no descriptor
that is open (`isOpen` is not in the source); at the start `revents` is arbitrary; the field
`events` of a used slot is always `POLLIN`, and left out; a `write` sends what it is given.
-/
import Mathlib.Data.List.Basic
import Mathlib.Data.List.Range
import Mathlib.Logic.Function.Basic
import CppWorkspace.Lib.Runs

namespace CppWorkspace.PollServer

open Runs

def OPEN_MAX : Nat := 40960

abbrev Bytes := List UInt8

/-! ## The table -/

/-- `other` are `POLLHUP` and `POLLNVAL`. -/
structure Revents where
  POLLIN : Bool
  POLLERR : Bool
  other : Bool
deriving DecidableEq, Repr

def Revents.zero : Revents := ⟨false, false, false⟩

/-- Something is reported. -/
def Revents.any (r : Revents) : Bool := r.POLLIN || r.POLLERR || r.other

/-- An entry of the table. -/
structure pollfd where
  fd : Option Nat
  revents : Revents
deriving DecidableEq, Repr

/-- The table, and the open descriptors. -/
structure Server where
  listenfd : Nat
  clients : Nat → pollfd
  maxi : Nat
  isOpen : Nat → Bool

/-- As `main` enters its loop. -/
def start (listenfd : Nat) (revents : Nat → Revents) : Server where
  listenfd := listenfd
  clients i := ⟨if i = 0 then some listenfd else none, revents i⟩
  maxi := listenfd + 1
  isOpen fd := decide (fd = listenfd)

/-- The system calls of a round, as they are logged. -/
inductive Call where
  | read (slot fd : Nat) (buf : Option Bytes)
  | write (fd : Nat) (buf : Bytes)
  | close (fd : Nat)
deriving DecidableEq, Repr

/-- What the calls of a round return: `none` is an error.  `poll` reports on the slots up to
`maxi`; `reads` are the reads from the slots. -/
structure Round where
  poll : Option (Nat → Revents)
  connfd : Option Nat
  reads : Nat → Option Bytes

namespace Server

/-- A free slot is not polled, and reports nothing. -/
def poll (σ : Server) : Option (Nat → Revents) → Server
  | none => σ
  | some report =>
      { σ with clients := fun i =>
          if σ.maxi < i then σ.clients i
          else ⟨(σ.clients i).fd, if (σ.clients i).fd = none then .zero else report i⟩ }

/-- What `poll` returns. -/
def nready (σ : Server) : Option (Nat → Revents) → Int
  | none => -1
  | some _ => ((List.range (σ.maxi + 1)).countP fun i => (σ.clients i).revents.any : Nat)

/-- The first free slot of the `n` slots from `i` on. -/
def firstFree (clients : Nat → pollfd) : Nat → Nat → Option Nat
  | 0, _ => none
  | n + 1, i => if (clients i).fd = none then some i else firstFree clients n (i + 1)

def setFd (σ : Server) (i : Nat) (fd : Option Nat) : Server :=
  { σ with clients := Function.update σ.clients i { σ.clients i with fd := fd } }

/-- `connfd` is opened, and goes to slot `i`. -/
def place (σ : Server) (i : Nat) (connfd : Option Nat) : Server :=
  { σ.setFd i connfd with
    maxi := if σ.maxi < i then i else σ.maxi
    isOpen := match connfd with
      | some fd => Function.update σ.isOpen fd true
      | none => σ.isOpen }

/-- Slot `i` is given up, and its descriptor is closed. -/
def drop (σ : Server) (i connfd : Nat) : Server :=
  { σ.setFd i none with isOpen := Function.update σ.isOpen connfd false }

/-- A used slot whose `revents` has `POLLIN` or `POLLERR`. -/
def Ready (σ : Server) (i : Nat) : Bool :=
  (σ.clients i).fd.isSome && ((σ.clients i).revents.POLLIN || (σ.clients i).revents.POLLERR)

/-- The loop of `handle` over `n` slots from `i` on. -/
def handleLoop (reads : Nat → Option Bytes) : Server → Nat → Nat → Int → Server × List Call
  | σ, 0, _, _ => (σ, [])
  | σ, n + 1, i, nready =>
      match (σ.clients i).fd with
      | none => handleLoop reads σ n (i + 1) nready
      | some connfd =>
          if σ.Ready i then
            match reads i with
            | some (b :: bs) =>
                if nready - 1 ≤ 0 then (σ, [.read i connfd (reads i), .write connfd (b :: bs)])
                else
                  let r := handleLoop reads σ n (i + 1) (nready - 1)
                  (r.1, .read i connfd (reads i) :: .write connfd (b :: bs) :: r.2)
            | _ =>
                let r := handleLoop reads (σ.drop i connfd) n (i + 1) nready
                (r.1, .read i connfd (reads i) :: .close connfd :: r.2)
          else handleLoop reads σ n (i + 1) nready

def handle (σ : Server) (reads : Nat → Option Bytes) (maxClient : Nat) (nready : Int) :
    Server × List Call :=
  if nready = 0 then (σ, []) else handleLoop reads σ (maxClient - 1) 1 nready

/-- The table that is handed to `handle`, and what is left of `nready`; nothing if `handle` is
not called because the table is full. -/
def accept (σ : Server) (r : Round) : Server × Option Int :=
  let σ' := σ.poll r.poll
  if (σ'.clients 0).revents.POLLIN then
    match firstFree σ'.clients OPEN_MAX 0 with
    | some i => (σ'.place i r.connfd, some (σ'.nready r.poll - 1))
    | none => (σ', none)
  else (σ', some (σ'.nready r.poll))

/-- One round of `main`. -/
def main (σ : Server) (r : Round) : Server × List Call :=
  match σ.accept r with
  | (σ', some nready) => σ'.handle r.reads σ'.maxi nready
  | (σ', none) => (σ', [])

end Server

/-- `accept` gives out a descriptor that is not open. -/
def Possible (σ : Server) (r : Round) : Prop := ∀ fd ∈ r.connfd, σ.isOpen fd = false

instance (σ : Server) (r : Round) : Decidable (Possible σ r) :=
  inferInstanceAs (Decidable (∀ fd ∈ r.connfd, _))

/-- A step is a round. -/
def step (σ : Server) (r : Round) : Option Server := some (σ.main r).1

/-! ## What is asked for -/

/-- Slot 0 is the listening socket, the slots above `maxi` are free, and the used slots hold
different descriptors that are open; so a closed one is in no slot. -/
structure InOrder (σ : Server) : Prop where
  maxi : 0 < σ.maxi ∧ σ.maxi < OPEN_MAX
  listener : (σ.clients 0).fd = some σ.listenfd
  above : ∀ i, σ.maxi < i → (σ.clients i).fd = none
  distinct : ∀ i j fd, (σ.clients i).fd = some fd → (σ.clients j).fd = some fd → i = j
  opened : ∀ i fd, (σ.clients i).fd = some fd → σ.isOpen fd = true

namespace Server

def readySlots (σ : Server) : List Nat := (List.range' 1 σ.maxi).filter σ.Ready

/-- A slot is read from, and what was read is written back; without data it is closed. -/
def serve (σ : Server) (reads : Nat → Option Bytes) (i : Nat) : List Call :=
  match (σ.clients i).fd with
  | none => []
  | some connfd =>
      .read i connfd (reads i) ::
        match reads i with
        | some (b :: bs) => [.write connfd (b :: bs)]
        | _ => [.close connfd]

/-- The ready slots of the table are served in a round, each once, and no other slot. -/
def Serves (σ : Server) (r : Round) : Prop :=
  (σ.main r).2 = (σ.accept r).1.readySlots.flatMap ((σ.accept r).1.serve r.reads)

instance (σ : Server) (r : Round) : Decidable (σ.Serves r) := inferInstanceAs (Decidable (_ = _))

/-- A read that brings bytes. -/
def Gives (reads : Nat → Option Bytes) (i : Nat) : Prop := ∃ b bs, reads i = some (b :: bs)

/-- The condition on a round. -/
structure Meets (σ : Server) (r : Round) : Prop where
  /-- The table is not full, or no client is ready. -/
  room : (σ.accept r).2 = none → (σ.accept r).1.readySlots = []
  last : (σ.accept r).1.Ready (σ.accept r).1.maxi = false
  /-- If `poll` has failed, no ready slot comes behind one that brings bytes. -/
  counted : r.poll = none → ∀ i ∈ (σ.accept r).1.readySlots, ∀ j ∈ (σ.accept r).1.readySlots,
    i < j → ¬ Gives r.reads i

end Server

section
variable {σ : Server} {i j n connfd : Nat} {reads : Nat → Option Bytes} {k : Int}

/-! ## The table stays in order -/

theorem poll_fd (p : Option (Nat → Revents)) : ((σ.poll p).clients i).fd = (σ.clients i).fd := by
  cases p with
  | none => rfl
  | some report =>
      dsimp only [Server.poll]
      split <;> rfl

theorem poll_eq (p : Option (Nat → Revents)) :
    σ.poll p = { σ with clients := (σ.poll p).clients } := by
  cases p <;> rfl

theorem poll_free {report : Nat → Revents} (hi : i ≤ σ.maxi) (hfree : (σ.clients i).fd = none) :
    ((σ.poll (some report)).clients i).revents = .zero := by
  simp [Server.poll, Nat.not_lt.mpr hi, hfree]

theorem setFd_self (fd : Option Nat) : ((σ.setFd i fd).clients i).fd = fd := by
  simp [Server.setFd]

theorem setFd_of_ne {fd : Option Nat} (h : j ≠ i) : (σ.setFd i fd).clients j = σ.clients j :=
  Function.update_of_ne h ..

namespace InOrder

theorem poll (h : InOrder σ) (p : Option (Nat → Revents)) : InOrder (σ.poll p) := by
  rw [poll_eq]
  refine ⟨h.maxi, ?_, fun i hi => ?_, fun i j fd => ?_, fun i fd => ?_⟩
  · exact (poll_fd p).trans h.listener
  · exact (poll_fd p).trans (h.above i hi)
  · simp only [poll_fd]
    exact h.distinct i j fd
  · simp only [poll_fd]
    exact h.opened i fd

theorem ne_zero (h : InOrder σ) (hfree : (σ.clients i).fd = none) : i ≠ 0 := by
  rintro rfl
  cases hfree.symm.trans h.listener

theorem place (h : InOrder σ) (hfree : (σ.clients i).fd = none) (hi : i < OPEN_MAX)
    {fd : Option Nat} (hfd : ∀ a ∈ fd, σ.isOpen a = false) : InOrder (σ.place i fd) := by
  have hne := h.ne_zero hfree
  -- a slot with a descriptor: the new one, or one from before
  have hslot : ∀ j a, ((σ.setFd i fd).clients j).fd = some a →
      (j = i ∧ fd = some a) ∨ (j ≠ i ∧ (σ.clients j).fd = some a) := by
    intro j a ha
    by_cases hj : j = i
    · subst hj
      rw [setFd_self] at ha
      exact .inl ⟨rfl, ha⟩
    · rw [setFd_of_ne hj] at ha
      exact .inr ⟨hj, ha⟩
  have hmaxi := h.maxi
  refine ⟨?_, ?_, fun j hj => ?_, fun j j' a ha ha' => ?_, fun j a ha => ?_⟩
  · change 0 < (if σ.maxi < i then i else σ.maxi) ∧ (if σ.maxi < i then i else σ.maxi) < OPEN_MAX
    split <;> omega
  · exact (congrArg pollfd.fd (setFd_of_ne hne.symm)).trans h.listener
  · have hj : (if σ.maxi < i then i else σ.maxi) < j := hj
    have hji : j ≠ i := by split at hj <;> omega
    have hjm : σ.maxi < j := by split at hj <;> omega
    exact (congrArg pollfd.fd (setFd_of_ne hji)).trans (h.above j hjm)
  · rcases hslot j a ha with ⟨hj, hfda⟩ | ⟨hj, hold⟩ <;>
      rcases hslot j' a ha' with ⟨hj', hfda'⟩ | ⟨hj', hold'⟩
    · exact hj.trans hj'.symm
    · cases (hfd a hfda).symm.trans (h.opened j' a hold')
    · cases (hfd a hfda').symm.trans (h.opened j a hold)
    · exact h.distinct j j' a hold hold'
  · change (match fd with
      | some fd => Function.update σ.isOpen fd true
      | none => σ.isOpen) a = true
    rcases hslot j a ha with ⟨-, rfl⟩ | ⟨-, hold⟩
    · exact Function.update_self ..
    · have hopen := h.opened j a hold
      cases fd with
      | none => exact hopen
      | some fd =>
          by_cases hfd : a = fd
          · subst hfd
            exact Function.update_self ..
          · exact (Function.update_of_ne hfd ..).trans hopen

theorem drop (h : InOrder σ) (hfd : (σ.clients i).fd = some connfd) (hi : i ≠ 0) :
    InOrder (σ.drop i connfd) := by
  have hslot : ∀ j a, ((σ.setFd i none).clients j).fd = some a →
      j ≠ i ∧ (σ.clients j).fd = some a := by
    intro j a ha
    by_cases hj : j = i
    · subst hj
      rw [setFd_self] at ha
      cases ha
    · rw [setFd_of_ne hj] at ha
      exact ⟨hj, ha⟩
  refine ⟨h.maxi, ?_, fun j hj => ?_, fun j j' a ha ha' => ?_, fun j a ha => ?_⟩
  · exact (congrArg pollfd.fd (setFd_of_ne hi.symm)).trans h.listener
  · by_cases hji : j = i
    · subst hji
      exact setFd_self none
    · exact (congrArg pollfd.fd (setFd_of_ne hji)).trans (h.above j hj)
  · exact h.distinct j j' a (hslot j a ha).2 (hslot j' a ha').2
  · obtain ⟨hji, hold⟩ := hslot j a ha
    have hne : a ≠ connfd := fun heq => hji (h.distinct j i connfd (heq ▸ hold) hfd)
    exact (Function.update_of_ne hne ..).trans (h.opened j a hold)

theorem handleLoop (h : InOrder σ) (hi : i ≠ 0) :
    InOrder (σ.handleLoop reads n i k).1 := by
  induction n generalizing σ i k with
  | zero => exact h
  | succ n ih =>
      unfold Server.handleLoop
      split
      · exact ih h (Nat.succ_ne_zero i)
      · rename_i fd hfd
        split
        · split
          · split
            · exact h
            · exact ih h (Nat.succ_ne_zero i)
          · exact ih (h.drop hfd hi) (Nat.succ_ne_zero i)
        · exact ih h (Nat.succ_ne_zero i)

end InOrder

theorem firstFree_some {clients : Nat → pollfd} (h : Server.firstFree clients n i = some j) :
    (clients j).fd = none ∧ j < i + n ∧ ∀ j', i ≤ j' → j' < j → (clients j').fd ≠ none := by
  induction n generalizing i with
  | zero => cases h
  | succ n ih =>
      unfold Server.firstFree at h
      split at h
      · rename_i hfree
        cases h
        exact ⟨hfree, by omega, fun j' h₁ h₂ => absurd h₁ (Nat.not_le.mpr h₂)⟩
      · rename_i hused
        obtain ⟨hfree, hlt, hbefore⟩ := ih h
        refine ⟨hfree, by omega, fun j' h₁ h₂ => ?_⟩
        rcases Nat.eq_or_lt_of_le h₁ with rfl | hlt
        · exact hused
        · exact hbefore j' hlt h₂

/-- What is handed to `handle`. -/
inductive Accepted (σ : Server) (r : Round) : Server × Option Int → Prop
  | none : ((σ.poll r.poll).clients 0).revents.POLLIN = false →
      Accepted σ r (σ.poll r.poll, some ((σ.poll r.poll).nready r.poll))
  | placed (i : Nat) : ((σ.poll r.poll).clients 0).revents.POLLIN = true →
      ((σ.poll r.poll).clients i).fd = .none → i < OPEN_MAX →
      (∀ j < i, ((σ.poll r.poll).clients j).fd ≠ .none) →
      Accepted σ r ((σ.poll r.poll).place i r.connfd,
        some ((σ.poll r.poll).nready r.poll - 1))
  | full : Accepted σ r (σ.poll r.poll, .none)

theorem accepted (σ : Server) (r : Round) : Accepted σ r (σ.accept r) := by
  unfold Server.accept
  dsimp only
  split
  · rename_i hin
    split
    · rename_i i hi
      obtain ⟨hfree, hlt, hbefore⟩ := firstFree_some hi
      exact .placed i hin hfree (by omega) fun j hj => hbefore j (Nat.zero_le j) hj
    · exact .full
  · rename_i hin
    exact .none (Bool.not_eq_true _ ▸ hin)

theorem InOrder.accept {r : Round} (h : InOrder σ) (hr : Possible σ r) :
    InOrder (σ.accept r).1 := by
  have hp := h.poll r.poll
  have hopen : (σ.poll r.poll).isOpen = σ.isOpen := by rw [poll_eq]
  have hacc := accepted σ r
  generalize σ.accept r = q at hacc ⊢
  cases hacc with
  | none _ => exact hp
  | placed i _ hfree hlt _ => exact hp.place hfree hlt (hopen ▸ hr)
  | full => exact hp

theorem InOrder.main {r : Round} (h : InOrder σ) (hr : Possible σ r) :
    InOrder (σ.main r).1 := by
  have ha := h.accept hr
  unfold Server.main
  split
  · rename_i σ' nready heq
    rw [heq] at ha
    unfold Server.handle
    split
    · exact ha
    · exact ha.handleLoop Nat.one_ne_zero
  · rename_i σ' heq
    rw [heq] at ha
    exact ha

/-! ## Who is served -/

theorem drop_of_ne (h : j ≠ i) : (σ.drop i connfd).clients j = σ.clients j := setFd_of_ne h

theorem Ready_drop (h : j ≠ i) : (σ.drop i connfd).Ready j = σ.Ready j := by
  rw [Server.Ready, Server.Ready, drop_of_ne h]

theorem serve_drop (h : j ≠ i) : (σ.drop i connfd).serve reads j = σ.serve reads j := by
  rw [Server.serve, Server.serve, drop_of_ne h]

theorem fd_of_Ready (h : σ.Ready i = true) : ∃ fd, (σ.clients i).fd = some fd := by
  rw [Server.Ready, Bool.and_eq_true] at h
  exact Option.isSome_iff_exists.mp h.1

/-- Of these ready slots, the ones that the loop of `handle` comes to. -/
def served (reads : Nat → Option Bytes) : Int → List Nat → List Nat
  | _, [] => []
  | k, i :: is =>
      match reads i with
      | some (_ :: _) => if k - 1 ≤ 0 then [i] else i :: served reads (k - 1) is
      | _ => i :: served reads k is

theorem mem_of_mem_served {l : List Nat} (h : j ∈ served reads k l) : j ∈ l := by
  induction l generalizing k with
  | nil => exact h
  | cons i l ih =>
      unfold served at h
      split at h
      · split at h
        · exact List.mem_cons.mpr (.inl (List.mem_singleton.mp h))
        · exact (List.mem_cons.mp h).elim (· ▸ List.mem_cons_self)
            fun h => List.mem_cons_of_mem i (ih h)
      · exact (List.mem_cons.mp h).elim (· ▸ List.mem_cons_self)
          fun h => List.mem_cons_of_mem i (ih h)

theorem handleLoop_calls : (σ.handleLoop reads n i k).2 =
    (served reads k ((List.range' i n).filter σ.Ready)).flatMap (σ.serve reads) := by
  induction n generalizing σ i k with
  | zero => rfl
  | succ n ih =>
      have hrest : ∀ j ∈ List.range' (i + 1) n, j ≠ i := fun j hj => by
        have hle := (List.mem_range'_1.mp hj).1
        omega
      rw [List.range'_succ]
      unfold Server.handleLoop
      split
      · rename_i hfree
        have hready : ¬ σ.Ready i = true := fun h => by
          obtain ⟨fd, hfd⟩ := fd_of_Ready h
          cases hfree.symm.trans hfd
        rw [List.filter_cons_of_neg hready, ih]
      · rename_i connfd hfd
        split
        · rename_i hready
          rw [List.filter_cons_of_pos hready]
          split
          · rename_i b bs hreads
            have hserve : σ.serve reads i =
                [.read i connfd (reads i), .write connfd (b :: bs)] := by
              simp only [Server.serve, hfd, hreads]
            unfold served
            rw [hreads]
            dsimp only
            split
            · rw [List.flatMap_singleton, hserve, hreads]
            · rw [List.flatMap_cons, hserve, ih, hreads]
              rfl
          · rename_i hreads
            have hserve : σ.serve reads i = [.read i connfd (reads i), .close connfd] := by
              simp only [Server.serve, hfd]
            have hserved : served reads k (i :: (List.range' (i + 1) n).filter σ.Ready) =
                i :: served reads k ((List.range' (i + 1) n).filter σ.Ready) := by
              rw [served]
              split
              · rename_i b bs heq
                exact absurd heq (hreads b bs)
              · rfl
            have hfilter : (List.range' (i + 1) n).filter (σ.drop i connfd).Ready =
                (List.range' (i + 1) n).filter σ.Ready :=
              List.filter_congr fun j hj => Ready_drop (hrest j hj)
            have hflat : ∀ l : List Nat, (∀ j ∈ l, j ≠ i) →
                l.flatMap ((σ.drop i connfd).serve reads) = l.flatMap (σ.serve reads) :=
              fun l hl => List.flatMap_congr fun j hj => serve_drop (hl j hj)
            dsimp only
            rw [hserved, List.flatMap_cons, hserve, ih, hfilter, hflat]
            · rfl
            · exact fun j hj => hrest j (List.mem_of_mem_filter (mem_of_mem_served hj))
        · rename_i hready
          rw [List.filter_cons_of_neg hready, ih]

/-- The slots that are read from. -/
def Call.slot : Call → Option Nat
  | .read i _ _ => some i
  | _ => none

theorem slots_serve (h : σ.Ready i = true) : (σ.serve reads i).filterMap Call.slot = [i] := by
  obtain ⟨fd, hfd⟩ := fd_of_Ready h
  unfold Server.serve
  rw [hfd]
  dsimp only
  split <;> rfl

theorem slots_flatMap {l : List Nat} (h : ∀ i ∈ l, σ.Ready i = true) :
    (l.flatMap (σ.serve reads)).filterMap Call.slot = l := by
  induction l with
  | nil => rfl
  | cons i l ih =>
      obtain ⟨hi, hl⟩ := List.forall_mem_cons.mp h
      rw [List.flatMap_cons, List.filterMap_append, slots_serve hi, ih hl]
      rfl

theorem served_length_le (l : List Nat) : (served reads k l).length ≤ l.length := by
  induction l generalizing k with
  | nil => exact Nat.le_refl 0
  | cons i l ih =>
      unfold served
      split
      · split
        · exact Nat.succ_le_succ (Nat.zero_le _)
        · exact Nat.succ_le_succ ih
      · exact Nat.succ_le_succ ih

/-- With a count of all that are ready, nobody is left out. -/
theorem served_of_le {l : List Nat} (h : (l.length : Int) ≤ k) : served reads k l = l := by
  induction l generalizing k with
  | nil => rfl
  | cons i l ih =>
      rw [List.length_cons] at h
      unfold served
      split
      · split
        · have hnil : l = [] := List.length_eq_zero_iff.mp (by omega)
          rw [hnil]
        · rw [ih (by omega)]
      · rw [ih (by omega)]

/-- Without a count, the first slot that brings bytes is the last one. -/
theorem served_of_failed {l : List Nat} (hk : k ≤ 1) :
    served reads k l = l ↔ l.Pairwise fun i _ => ¬ Server.Gives reads i := by
  induction l with
  | nil => exact iff_of_true rfl .nil
  | cons i l ih =>
      rw [List.pairwise_cons]
      unfold served
      split
      · rename_i b bs hreads
        rw [if_pos (by omega)]
        constructor
        · intro h
          cases h
          exact ⟨fun j hj => absurd hj List.not_mem_nil, .nil⟩
        · rintro ⟨hfirst, -⟩
          cases l with
          | nil => rfl
          | cons j l => exact absurd ⟨b, bs, hreads⟩ (hfirst j List.mem_cons_self)
      · rename_i hreads
        rw [List.cons.injEq, ih]
        constructor
        · rintro ⟨-, h⟩
          exact ⟨fun _ _ ⟨b, bs, heq⟩ => hreads b bs heq, h⟩
        · rintro ⟨-, h⟩
          exact ⟨rfl, h⟩

/-! ## The count -/

theorem readySlots_eq (h : 0 < σ.maxi) : σ.readySlots =
    (List.range' 1 (σ.maxi - 1)).filter σ.Ready ++
      if σ.Ready σ.maxi = true then [σ.maxi] else [] := by
  obtain ⟨m, hm⟩ := Nat.exists_eq_succ_of_ne_zero (Nat.ne_of_gt h)
  have hlast : 1 + m = m + 1 := Nat.add_comm 1 m
  rw [Server.readySlots, hm, Nat.succ_sub_one, List.range'_concat, List.filter_append, Nat.one_mul,
    hlast]
  congr 1
  split
  · rename_i hready
    exact List.filter_cons_of_pos hready
  · rename_i hready
    exact List.filter_cons_of_neg hready

theorem length_ready_le (σ : Server) :
    ((List.range' 1 σ.maxi).filter σ.Ready).length +
        (if (σ.clients 0).revents.POLLIN = true then 1 else 0) ≤
      (List.range (σ.maxi + 1)).countP fun i => (σ.clients i).revents.any := by
  have hle : (List.range' 1 σ.maxi).countP σ.Ready ≤
      (List.range' 1 σ.maxi).countP fun i => (σ.clients i).revents.any := by
    refine List.countP_mono_left fun i _ hi => ?_
    rw [Server.Ready, Bool.and_eq_true] at hi
    rw [Revents.any, hi.2, Bool.true_or]
  have hfirst : (if (σ.clients 0).revents.POLLIN = true then 1 else 0) ≤
      if (σ.clients 0).revents.any = true then 1 else 0 := by
    split
    · rename_i hin
      rw [Revents.any, hin, Bool.true_or, Bool.true_or, if_pos rfl]
    · exact Nat.zero_le _
  rw [List.range_eq_range', List.range'_succ, List.countP_cons, ← List.countP_eq_length_filter]
  exact Nat.add_le_add hle hfirst

/-- A slot that was free when it was polled has nothing to report, also behind an `accept`. -/
theorem ready_of_placed {r : Round} {report : Nat → Revents} (hpoll : r.poll = some report)
    (hfree : ((σ.poll r.poll).clients i).fd = none) (hle : j = i → j ≤ σ.maxi)
    (hready : ((σ.poll r.poll).place i r.connfd).Ready j = true) :
    (σ.poll r.poll).Ready j = true := by
  by_cases hji : j = i
  · have hj := hle hji
    subst hji
    have hzero : ((σ.poll r.poll).clients j).revents = .zero := by
      rw [hpoll]
      exact poll_free hj ((poll_fd _).symm.trans hfree)
    have hrevents : (((σ.poll r.poll).place j r.connfd).clients j).revents = .zero := by
      simpa [Server.place, Server.setFd] using hzero
    rw [Server.Ready, hrevents, Bool.and_eq_true] at hready
    exact Bool.noConfusion hready.2
  · have hsame : ((σ.poll r.poll).place i r.connfd).clients j = (σ.poll r.poll).clients j :=
      setFd_of_ne hji
    rwa [Server.Ready, hsame] at hready

/-- After a `poll` that has counted, `handle` is given a count of all slots before `maxi` that
are ready. -/
theorem ready_le_left {r : Round} {q : Server × Option Int} (h : InOrder σ)
    (hq : Accepted σ r q) {report : Nat → Revents} (hpoll : r.poll = some report)
    (hk : q.2 = some k) :
    ((((List.range' 1 (q.1.maxi - 1)).filter q.1.Ready).length : Nat) : Int) ≤ k := by
  have hcount := length_ready_le (σ.poll r.poll)
  have hmaxi : (σ.poll r.poll).maxi = σ.maxi := by rw [poll_eq]
  have hnready : (σ.poll r.poll).nready r.poll = ((List.range ((σ.poll r.poll).maxi + 1)).countP
      fun i => ((σ.poll r.poll).clients i).revents.any : Nat) := by
    rw [hpoll]
    rfl
  have hmono : ∀ {τ : Server} {m : Nat}, m ≤ (σ.poll r.poll).maxi →
      (∀ i ∈ List.range' 1 m, τ.Ready i = true → (σ.poll r.poll).Ready i = true) →
      ((List.range' 1 m).filter τ.Ready).length ≤
        ((List.range' 1 (σ.poll r.poll).maxi).filter (σ.poll r.poll).Ready).length := by
    intro τ m hm hready
    rw [← List.countP_eq_length_filter, ← List.countP_eq_length_filter]
    exact Nat.le_trans (List.countP_mono_left hready)
      ((List.range'_sublist_right.mpr hm).countP_le)
  cases hq with
  | none hin =>
      cases hk
      rw [hin, if_neg Bool.false_ne_true] at hcount
      have hle := hmono (Nat.sub_le _ 1) fun i _ hi => hi
      rw [hnready]
      dsimp only
      omega
  | placed i hin hfree hlt hbefore =>
      cases hk
      rw [hin, if_pos rfl] at hcount
      have hi : i ≤ σ.maxi + 1 := by
        by_contra hlt
        exact hbefore (σ.maxi + 1) (Nat.lt_of_not_le hlt)
          ((poll_fd _).trans (h.above _ (Nat.lt_succ_self _)))
      have hmax : ((σ.poll r.poll).place i r.connfd).maxi =
          if σ.maxi < i then i else σ.maxi := by
        rw [← hmaxi]
        rfl
      have hle : ((σ.poll r.poll).place i r.connfd).maxi - 1 ≤ (σ.poll r.poll).maxi := by
        rw [hmax, hmaxi]
        split <;> omega
      have hready : ∀ j ∈ List.range' 1 (((σ.poll r.poll).place i r.connfd).maxi - 1),
          ((σ.poll r.poll).place i r.connfd).Ready j = true →
            (σ.poll r.poll).Ready j = true := by
        intro j hj hready
        have hj := List.mem_range'_1.mp hj
        rw [hmax] at hj
        refine ready_of_placed hpoll hfree (fun hji => ?_) hready
        split at hj <;> omega
      have hlen := hmono hle hready
      rw [hnready]
      dsimp only
      omega
  | full => cases hk

theorem left_of_failed {r : Round} {q : Server × Option Int} (hq : Accepted σ r q)
    (hpoll : r.poll = none) (hk : q.2 = some k) : k ≠ 0 ∧ k ≤ 1 := by
  have hnready : (σ.poll r.poll).nready r.poll = -1 := by
    rw [hpoll]
    rfl
  cases hq with
  | none _ =>
      cases hk
      rw [hnready]
      decide
  | placed i _ _ _ _ =>
      cases hk
      rw [hnready]
      decide
  | full => cases hk

/-- In a list that goes up, to be before another element is to be smaller than it. -/
theorem pairwise_iff {l : List Nat} {P : Nat → Prop} (h : l.Pairwise (· < ·)) :
    (l.Pairwise fun i _ => P i) ↔ ∀ i ∈ l, ∀ j ∈ l, i < j → P i := by
  constructor
  · intro hp
    induction l with
    | nil => exact fun i hi => absurd hi List.not_mem_nil
    | cons a l ih =>
        obtain ⟨hfirst, h⟩ := List.pairwise_cons.mp h
        obtain ⟨hpfirst, hp⟩ := List.pairwise_cons.mp hp
        intro i hi j hj hij
        rcases List.mem_cons.mp hi with hia | hil <;> rcases List.mem_cons.mp hj with hja | hjl
        · exact absurd hij (hia ▸ hja ▸ Nat.lt_irrefl _)
        · exact hia ▸ hpfirst j hjl
        · exact absurd (hfirst i hil) (hja ▸ Nat.lt_asymm hij)
        · exact ih h hp i hil j hjl hij
  · exact fun hall => h.imp_of_mem fun hi hj hij => hall _ hi _ hj hij

theorem ready_of_mem (h : i ∈ σ.readySlots) : σ.Ready i = true := (List.mem_filter.mp h).2

/-- Of a table that is handed to `handle`, the ready slots are served exactly if slot `maxi` is
not among them and the loop comes to the end. -/
theorem handle_serves_iff (hmaxi : 0 < σ.maxi) :
    (σ.handle reads σ.maxi k).2 = σ.readySlots.flatMap (σ.serve reads) ↔
      σ.Ready σ.maxi = false ∧ (k = 0 → σ.readySlots = []) ∧
        (k ≠ 0 → served reads k σ.readySlots = σ.readySlots) := by
  have hslots := readySlots_eq hmaxi
  have hcalls : (σ.handle reads σ.maxi k).2 = (if k = 0 then [] else
      served reads k ((List.range' 1 (σ.maxi - 1)).filter σ.Ready)).flatMap (σ.serve reads) := by
    unfold Server.handle
    split
    · rfl
    · exact handleLoop_calls
  have hready : ∀ j ∈ (if k = 0 then [] else
      served reads k ((List.range' 1 (σ.maxi - 1)).filter σ.Ready)), σ.Ready j = true := by
    intro j hj
    split at hj
    · cases hj
    · exact (List.mem_filter.mp (mem_of_mem_served hj)).2
  have hlist : (σ.handle reads σ.maxi k).2 = σ.readySlots.flatMap (σ.serve reads) ↔
      (if k = 0 then [] else served reads k ((List.range' 1 (σ.maxi - 1)).filter σ.Ready)) =
        σ.readySlots := by
    rw [hcalls]
    constructor
    · intro h
      rw [← @slots_flatMap σ reads _ hready, h,
        slots_flatMap fun i hi => ready_of_mem hi]
    · intro h
      rw [h]
  rw [hlist]
  cases hlast : σ.Ready σ.maxi with
  | true =>
      -- slot `maxi` is behind the last one that the loop looks at
      rw [hlast, if_pos rfl] at hslots
      refine iff_of_false (fun h => ?_) fun h => Bool.noConfusion h.1
      have hlen := congrArg List.length h
      rw [hslots, List.length_append, List.length_singleton] at hlen
      have hle : (if k = 0 then [] else served reads k
          ((List.range' 1 (σ.maxi - 1)).filter σ.Ready)).length ≤
          ((List.range' 1 (σ.maxi - 1)).filter σ.Ready).length := by
        split
        · exact Nat.zero_le _
        · exact served_length_le _
      omega
  | false =>
      rw [hlast, if_neg Bool.false_ne_true, List.append_nil] at hslots
      rw [← hslots]
      by_cases hk : k = 0
      · rw [if_pos hk]
        exact ⟨fun hnil => ⟨rfl, fun _ => hnil.symm, fun hne => absurd hk hne⟩,
          fun h => (h.2.1 hk).symm⟩
      · rw [if_neg hk]
        exact ⟨fun hall => ⟨rfl, fun heq => absurd heq hk, fun _ => hall⟩, fun h => h.2.2 hk⟩

theorem serves_iff_of_inOrder {r : Round} (h : InOrder σ) (hr : Possible σ r) :
    σ.Serves r ↔ σ.Meets r := by
  have hmaxi := (h.accept hr).maxi.1
  have hsorted : (σ.accept r).1.readySlots.Pairwise (· < ·) :=
    List.Pairwise.filter _ List.pairwise_lt_range'
  have hacc := accepted σ r
  have hmain : ∀ q, σ.accept r = q → (σ.main r).2 = match q with
      | (σ', some nready) => (σ'.handle r.reads σ'.maxi nready).2
      | (_, none) => [] := by
    rintro ⟨σ', left⟩ hq
    rw [Server.main, hq]
    cases left <;> rfl
  generalize hq : σ.accept r = q at hmaxi hsorted hacc
  have hserves : σ.Serves r ↔ (σ.main r).2 = q.1.readySlots.flatMap (q.1.serve r.reads) := by
    rw [Server.Serves, hq]
  have hmeets : σ.Meets r ↔ (q.2 = none → q.1.readySlots = []) ∧ q.1.Ready q.1.maxi = false ∧
      (r.poll = none → ∀ i ∈ q.1.readySlots, ∀ j ∈ q.1.readySlots, i < j →
        ¬ Server.Gives r.reads i) := by
    constructor
    · rintro ⟨hroom, hlast, hcounted⟩
      rw [hq] at hroom hlast hcounted
      exact ⟨hroom, hlast, hcounted⟩
    · rintro ⟨hroom, hlast, hcounted⟩
      refine ⟨?_, ?_, ?_⟩ <;> rw [hq] <;> assumption
  rw [hserves, hmeets, hmain q hq]
  obtain ⟨σ', left⟩ := q
  dsimp only at hmaxi hsorted
  cases left with
  | none =>
      dsimp only
      constructor
      · intro h
        have hnil : σ'.readySlots = [] := by
          rw [← @slots_flatMap σ' r.reads σ'.readySlots fun i hi => ready_of_mem hi,
            ← h]
          rfl
        refine ⟨fun _ => hnil, ?_, fun _ i hi => ?_⟩
        · have hslots := readySlots_eq hmaxi
          rw [hnil] at hslots
          by_contra hlast
          rw [if_pos (Bool.not_eq_false _ ▸ hlast)] at hslots
          exact List.append_ne_nil_of_right_ne_nil _ (List.cons_ne_nil _ _) hslots.symm
        · rw [hnil] at hi
          cases hi
      · rintro ⟨hroom, -, -⟩
        rw [hroom rfl]
        rfl
  | some k =>
      dsimp only
      rw [handle_serves_iff hmaxi]
      cases hpoll : r.poll with
      | none =>
          obtain ⟨hne, hle⟩ := left_of_failed hacc hpoll rfl
          rw [served_of_failed hle, pairwise_iff hsorted]
          exact ⟨fun hall =>
              ⟨fun heq => (Option.some_ne_none k heq).elim, hall.1, fun _ => hall.2.2 hne⟩,
            fun hall => ⟨hall.2.1, fun heq => absurd heq hne, fun _ => hall.2.2 rfl⟩⟩
      | some report =>
          have hlen := ready_le_left h hacc hpoll rfl
          refine ⟨fun hall => ⟨fun heq => (Option.some_ne_none k heq).elim, hall.1,
            fun heq => (Option.some_ne_none report heq).elim⟩, fun hall => ⟨hall.2.1, ?_, ?_⟩⟩
          all_goals
            have hslots := readySlots_eq hmaxi
            dsimp only at hlen
            rw [hall.2.1, if_neg Bool.false_ne_true, List.append_nil] at hslots
            rw [← hslots] at hlen
          · intro hk
            exact List.length_eq_zero_iff.mp (by omega)
          · exact fun _ => served_of_le hlen

end

theorem inOrder_start {listenfd : Nat} (h : listenfd + 1 < OPEN_MAX) (revents : Nat → Revents) :
    InOrder (start listenfd revents) := by
  have hslot : ∀ i fd, ((start listenfd revents).clients i).fd = some fd →
      i = 0 ∧ fd = listenfd := by
    intro i fd hfd
    obtain ⟨hi, heq⟩ := Option.ite_none_right_eq_some.mp hfd
    exact ⟨hi, (Option.some.inj heq).symm⟩
  refine ⟨⟨Nat.succ_pos _, h⟩, rfl, fun i hi => ?_, fun i j fd hi hj => ?_, fun i fd hfd => ?_⟩
  · have hi : listenfd + 1 < i := hi
    exact if_neg (by omega)
  · rw [(hslot i fd hi).1, (hslot j fd hj).1]
  · exact decide_eq_true (hslot i fd hfd).2

/-- In every state reached the table is in order, and a round serves the ready slots exactly if
slot `maxi` is not ready, the table has room, and `poll` has counted. -/
theorem round_serves_iff {listenfd : Nat} {revents : Nat → Revents} {σ : Server}
    (hlisten : listenfd + 1 < OPEN_MAX) (h : Via step Possible (start listenfd revents) σ) :
    InOrder σ ∧ ∀ r, Possible σ r → (σ.Serves r ↔ σ.Meets r) := by
  have hinv : InOrder σ := h.invariant (inOrder_start hlisten revents) fun σ r σ' hσ hr hs => by
    cases hs
    exact hσ.main hr
  exact ⟨hinv, fun r hr => serves_iff_of_inOrder hinv hr⟩

/-- A connection comes. -/
def connects (fd : Nat) : Round where
  poll := some fun i => if i = 0 then ⟨true, false, false⟩ else .zero
  connfd := some fd
  reads _ := none

/-- Bytes come on all slots from `a` to `b`. -/
def bytes (a b : Nat) : Round where
  poll := some fun i => if a ≤ i ∧ i ≤ b then ⟨true, false, false⟩ else .zero
  connfd := none
  reads _ := some [104, 105]

/-- Two clients are answered. -/
theorem serves_two : ∃ σ, Via step Possible (start 3 fun _ => .zero) σ ∧
    (σ.accept (bytes 1 2)).1.readySlots = [1, 2] ∧ σ.Serves (bytes 1 2) := by
  have hrun : ∃ σ, Via step Possible (start 3 fun _ => .zero) σ ∧
      (σ.accept (bytes 1 2)).1.readySlots = [1, 2] ∧ (σ.accept (bytes 1 2)).2.isSome = true ∧
      (σ.accept (bytes 1 2)).1.Ready (σ.accept (bytes 1 2)).1.maxi = false :=
    exists_via_of_execIf [connects 5, connects 6] (by decide +kernel)
  obtain ⟨σ, hσ, hready, hroom, hlast⟩ := hrun
  have hpossible : Possible σ (bytes 1 2) := fun fd hfd => by cases hfd
  refine ⟨σ, hσ, hready, ((round_serves_iff (by decide) hσ).2 _ hpossible).mpr ⟨?_, hlast, ?_⟩⟩
  · intro hnone
    rw [hnone] at hroom
    cases hroom
  · intro hfailed
    cases hfailed

/-- The fourth client is in slot `maxi`. -/
theorem not_serves : ¬ ∀ listenfd revents σ r, listenfd + 1 < OPEN_MAX →
    Via step Possible (start listenfd revents) σ → Possible σ r → σ.Serves r := by
  intro h
  have hrun : ∃ σ, Via step Possible (start 3 fun _ => .zero) σ ∧ ¬ σ.Serves (bytes 4 4) :=
    exists_via_of_execIf [connects 5, connects 6, connects 7, connects 8] (by decide +kernel)
  obtain ⟨σ, hσ, hnot⟩ := hrun
  exact hnot (h 3 _ σ (bytes 4 4) (by decide) hσ fun fd hfd => by cases hfd)

end CppWorkspace.PollServer
