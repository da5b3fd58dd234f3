/-
# `CppWorkspace.OrderedServer.SendList` — `OutOfOrderSends` after `DoSends`

`DoSends` posts the buffers at the head of the list that are due, and takes each off the list
when its post was accepted.  A buffer whose post is rejected is freed, and stays at the head:

    accepted   posted ++ waiting             OutOfOrderSends = waiting
    rejected   posted ++ [b] ++ waiting      OutOfOrderSends = b :: waiting,  b freed

`LastSendIssued` has been raised for `b`, too, so the next `DoSends` looks at `b` once more
and leaves it where it is.

Between the calls buffers are put into the list, and sends complete, whose buffers are freed.
A buffer is known by its number.
-/
import CppWorkspace.OrderedServer.Order

namespace CppWorkspace.OrderedServer

open Runs

/-! ## Calls of `DoSends` and what comes between them -/

/-- What happens to the list of pending sends. -/
inductive SendAction where
  /-- `InsertPendingSend` of a new buffer -/
  | insert (b : BufferObj)
  /-- a send completes, and its buffer is freed -/
  | sent (i : Nat)
  | doSends
deriving DecidableEq, Repr

/-- The buffer was passed to `PostSend`, or freed. -/
def Used (s : Socket) (b : BufferObj) : Prop :=
  b.no ∈ s.sent.map BufferObj.no ∨ b.no ∈ s.freedBuffers.map BufferObj.no

instance (s : Socket) (b : BufferObj) : Decidable (Used s b) := inferInstanceAs (Decidable (_ ∨ _))

/-- A buffer that is not in use, with a stamp that is not in the list. -/
def New (s : Socket) (b : BufferObj) : Prop :=
  ¬ Used s b ∧ ∀ x ∈ s.OutOfOrderSends, x.no ≠ b.no ∧ x.IoOrder ≠ b.IoOrder

instance (s : Socket) (b : BufferObj) : Decidable (New s b) := inferInstanceAs (Decidable (_ ∧ _))

def sendStep (net : Nat → Bool) (s : Socket) : SendAction → Option Socket
  | .insert b => if New s b then some (s.insertPendingSend b) else none
  | .sent i =>
      (s.inFlight[i]?).bind fun b =>
        if b.operation = .opWrite then
          some (Socket.freeBufferObj b { s with inFlight := s.inFlight.eraseIdx i })
        else none
  | .doSends => some (s.doSends net).2

/-- The number of buffers at the head of the list that are due, one after the other. -/
def due (last : ULONG) : List BufferObj → Nat
  | [] => 0
  | b :: rest => if b.IoOrder = last then due (last + 1) rest + 1 else 0

/-- The posts of all that is due will be accepted. -/
def DueAccepted (net : Nat → Bool) (s : Socket) : Prop :=
  ∀ i < due s.LastSendIssued s.OutOfOrderSends, s.isOpen = true ∧ net (s.posts + i) = true

instance (net : Nat → Bool) (s : Socket) : Decidable (DueAccepted net s) :=
  inferInstanceAs (Decidable (∀ _ < _, _ ∧ _))

/-- The condition on a run. -/
def Accepting (net : Nat → Bool) (s : Socket) : SendAction → Prop
  | .doSends => DueAccepted net s
  | _ => True

instance (net : Nat → Bool) (s : Socket) : (a : SendAction) → Decidable (Accepting net s a)
  | .doSends => inferInstanceAs (Decidable (DueAccepted net s))
  | .insert _ => .isTrue trivial
  | .sent _ => .isTrue trivial

/-- The buffers whose fields the loop of `DoSends` reads. -/
def looked (net : Nat → Bool) : List BufferObj → Socket → List BufferObj
  | [], _ => []
  | b :: rest, s =>
      b ::
        if b.IoOrder = s.LastSendIssued then
          match s.postSend net b with
          | (true, s) => looked net rest { s with OutOfOrderSends := rest }
          | (false, _) => []
        else []

/-- What is in the list can be sent: it is sorted, every buffer is in it once, and none has
been used.  The sends in flight have been posted. -/
structure Sendable (s : Socket) : Prop where
  sorted : SortedSends s.OutOfOrderSends
  once : (s.OutOfOrderSends.map BufferObj.no).Nodup
  unused : ∀ b ∈ s.OutOfOrderSends, ¬ Used s b
  posted : ∀ b ∈ s.inFlight, b.operation = .opWrite → b.no ∈ s.sent.map BufferObj.no

/-- The call posts some buffers, and has one more rejected or none; `waiting` is left over. -/
structure Posts (posted rejected waiting : List BufferObj) (s t : Socket) : Prop where
  list : s.OutOfOrderSends = posted ++ rejected ++ waiting
  sent : t.sent = s.sent ++ posted ++ rejected
  inFlight : t.inFlight = s.inFlight ++ posted.map fun b => { b with operation := .opWrite }
  freed : t.freedBuffers = rejected ++ s.freedBuffers
  refused : t.refused = s.refused + rejected.length

/-- What is asked of a call of `DoSends`. -/
structure SendsRight (net : Nat → Bool) (s : Socket) : Prop where
  /-- it looks at nothing that was posted or freed -/
  looks : ∀ b ∈ looked net s.OutOfOrderSends s, ¬ Used s b
  /-- it fails if a post was rejected -/
  error : (s.doSends net).1 = false ↔ s.refused < (s.doSends net).2.refused
  /-- what was rejected is freed once, and not in the list any more -/
  freed : ∃ posted rejected waiting, Posts posted rejected waiting s (s.doSends net).2 ∧
    ∀ b ∈ rejected, b ∉ (s.doSends net).2.OutOfOrderSends
  /-- the list is what was neither posted nor freed -/
  waiting : (s.doSends net).2.OutOfOrderSends =
    s.OutOfOrderSends.filter fun b => ¬ Used (s.doSends net).2 b
  sorted : SortedSends (s.doSends net).2.OutOfOrderSends

/-! ## One call -/

section
variable {net : Nat → Bool} {s t : Socket} {b : BufferObj}
  {l posted rejected waiting : List BufferObj}

theorem postSend_eq (net : Nat → Bool) (b : BufferObj) (s : Socket) : s.postSend net b =
    if s.isOpen = true ∧ net s.posts = true then
      (true, { s with
        LastSendIssued := s.LastSendIssued + 1
        sent := s.sent ++ [b]
        posts := s.posts + 1
        inFlight := s.inFlight ++ [{ b with operation := .opWrite }]
        OutstandingOps := s.OutstandingOps + 1 })
    else (false, { s with
      LastSendIssued := s.LastSendIssued + 1
      sent := s.sent ++ [b]
      posts := s.posts + 1
      refused := s.refused + 1 }) := rfl

/-- The posts of `n + 1` buffers: the first, and the others after it. -/
theorem accepted_succ {acc : Nat → Prop} {k n : Nat} :
    (∀ i < n + 1, acc (k + i)) ↔ acc k ∧ ∀ i < n, acc (k + 1 + i) := by
  constructor
  · refine fun h => ⟨h 0 (Nat.zero_lt_succ n), fun i hi => ?_⟩
    have hnext := h (i + 1) (Nat.succ_lt_succ hi)
    rwa [show k + (i + 1) = k + 1 + i by omega] at hnext
  · rintro ⟨hfirst, hrest⟩ i hi
    cases i with
    | zero => exact hfirst
    | succ i =>
        rw [show k + (i + 1) = k + 1 + i by omega]
        exact hrest i (Nat.lt_of_succ_lt_succ hi)

/-- The first buffer of the list was posted; `l` is the rest. -/
def takeOff (b : BufferObj) (l : List BufferObj) (s : Socket) : Socket :=
  { s with
    LastSendIssued := s.LastSendIssued + 1
    sent := s.sent ++ [b]
    posts := s.posts + 1
    inFlight := s.inFlight ++ [{ b with operation := .opWrite }]
    OutstandingOps := s.OutstandingOps + 1
    OutOfOrderSends := l }

theorem Posts.cons (hlist : s.OutOfOrderSends = b :: l)
    (h : Posts posted rejected waiting (takeOff b l s) t) :
    Posts (b :: posted) rejected waiting s t where
  list := by
    have hl : l = posted ++ rejected ++ waiting := h.list
    rw [hlist, hl]
    rfl
  sent := by
    rw [h.sent]
    simp [takeOff]
  inFlight := by
    rw [h.inFlight]
    simp [takeOff]
  freed := h.freed
  refused := h.refused

theorem dueAccepted_cons (hlist : s.OutOfOrderSends = b :: l)
    (hb : b.IoOrder = s.LastSendIssued) : DueAccepted net s ↔
      (s.isOpen = true ∧ net s.posts = true) ∧ DueAccepted net (takeOff b l s) := by
  rw [DueAccepted, hlist, due, if_pos hb]
  exact @accepted_succ (fun i => s.isOpen = true ∧ net i = true) _ _

/-- Where the loop ends: with the list of what is not due, or with the buffer whose post was
rejected at its head. -/
theorem doSendsFrom_cases (l : List BufferObj) (s : Socket) (hl : s.OutOfOrderSends = l) :
    (DueAccepted net s ∧ (s.doSendsFrom net l).1 = true ∧
      ∃ posted waiting, Posts posted [] waiting s (s.doSendsFrom net l).2 ∧
        (s.doSendsFrom net l).2.OutOfOrderSends = waiting) ∨
    (¬ DueAccepted net s ∧ (s.doSendsFrom net l).1 = false ∧
      ∃ posted b waiting, Posts posted [b] waiting s (s.doSendsFrom net l).2 ∧
        (s.doSendsFrom net l).2.OutOfOrderSends = b :: waiting) := by
  have hnone : ∀ s : Socket, Posts [] [] s.OutOfOrderSends s s := fun s =>
    ⟨rfl, by simp, by simp, rfl, rfl⟩
  induction l generalizing s with
  | nil =>
      refine .inl ⟨fun i hi => ?_, rfl, [], s.OutOfOrderSends, hnone s, rfl⟩
      rw [hl] at hi
      exact absurd hi (Nat.not_lt_zero i)
  | cons b rest ih =>
      rw [Socket.doSendsFrom, postSend_eq]
      by_cases hb : b.IoOrder = s.LastSendIssued
      · rw [if_pos hb]
        by_cases hacc : s.isOpen = true ∧ net s.posts = true
        · rw [if_pos hacc]
          have hiff : DueAccepted net s ↔
              (s.isOpen = true ∧ net s.posts = true) ∧ DueAccepted net (takeOff b rest s) :=
            dueAccepted_cons hl hb
          rcases ih (takeOff b rest s) rfl with ⟨hdue, herror, posted, waiting, hposts, hlist⟩ |
            ⟨hdue, herror, posted, b', waiting, hposts, hlist⟩
          · exact .inl ⟨hiff.mpr ⟨hacc, hdue⟩, herror, b :: posted, waiting, hposts.cons hl, hlist⟩
          · exact .inr ⟨fun h => hdue (hiff.mp h).2, herror, b :: posted, b', waiting,
              hposts.cons hl, hlist⟩
        · rw [if_neg hacc]
          refine .inr ⟨fun h => hacc ?_, rfl, [], b, rest, ⟨hl, ?_, ?_, rfl, rfl⟩, hl⟩
          · have hpos : 0 < due s.LastSendIssued s.OutOfOrderSends := by
              rw [hl, due, if_pos hb]
              exact Nat.succ_pos _
            exact h 0 hpos
          · simp [Socket.freeBufferObj]
          · simp [Socket.freeBufferObj]
      · rw [if_neg hb]
        refine .inl ⟨fun i hi => ?_, rfl, [], s.OutOfOrderSends, hnone s, rfl⟩
        rw [hl, due, if_neg hb] at hi
        exact absurd hi (Nat.not_lt_zero i)

theorem doSends_cases (net : Nat → Bool) (s : Socket) :
    (DueAccepted net s ∧ (s.doSends net).1 = true ∧
      ∃ posted waiting, Posts posted [] waiting s (s.doSends net).2 ∧
        (s.doSends net).2.OutOfOrderSends = waiting) ∨
    (¬ DueAccepted net s ∧ (s.doSends net).1 = false ∧
      ∃ posted b waiting, Posts posted [b] waiting s (s.doSends net).2 ∧
        (s.doSends net).2.OutOfOrderSends = b :: waiting) :=
  doSendsFrom_cases s.OutOfOrderSends s rfl

theorem looked_subset (l : List BufferObj) (s : Socket) : ∀ x ∈ looked net l s, x ∈ l := by
  induction l generalizing s with
  | nil => exact fun x hx => hx
  | cons b rest ih =>
      intro x hx
      rw [looked] at hx
      rcases List.mem_cons.mp hx with rfl | hx
      · exact List.mem_cons_self
      · split at hx
        · split at hx
          · exact List.mem_cons_of_mem b (ih _ x hx)
          · cases hx
        · cases hx

/-! ## What may be relied on -/

theorem Used.of_posts (h : Posts posted rejected waiting s t) :
    Used t b ↔ Used s b ∨ b.no ∈ (posted ++ rejected).map BufferObj.no := by
  rw [Used, Used, h.sent, h.freed]
  simp only [List.map_append, List.mem_append]
  tauto

theorem Sendable.apart (h : Sendable s) (hl : s.OutOfOrderSends = l ++ waiting)
    (hb : b ∈ waiting) : b.no ∉ l.map BufferObj.no := by
  have honce := h.once
  rw [hl, List.map_append] at honce
  exact fun hmem =>
    List.disjoint_of_nodup_append honce hmem (List.mem_map_of_mem hb)

/-- What waits behind the buffers that were posted or rejected is what is unused. -/
theorem Sendable.filter_waiting (h : Sendable s) (hposts : Posts posted rejected waiting s t) :
    s.OutOfOrderSends.filter (fun b => ¬ Used t b) = waiting := by
  have hused : ∀ b ∈ posted ++ rejected, Used t b := fun b hb =>
    (Used.of_posts hposts).mpr (.inr (List.mem_map_of_mem hb))
  have hunused : ∀ b ∈ waiting, ¬ Used t b := by
    intro b hb hu
    rcases (Used.of_posts hposts).mp hu with hu | hu
    · refine h.unused b ?_ hu
      rw [hposts.list]
      exact List.mem_append_right _ hb
    · exact h.apart hposts.list hb hu
  rw [hposts.list, List.filter_append, List.filter_eq_nil_iff.mpr, List.nil_append,
    List.filter_eq_self.mpr]
  · simpa using hunused
  · simpa using hused

theorem Sendable.looks (h : Sendable s) : ∀ b ∈ looked net s.OutOfOrderSends s, ¬ Used s b :=
  fun b hb => h.unused b (looked_subset _ s b hb)

/-- **One call.**  A list of unused buffers is sent as it should be exactly if all that is due
is accepted. -/
theorem Sendable.sendsRight_iff (h : Sendable s) : SendsRight net s ↔ DueAccepted net s := by
  rcases doSends_cases net s with
    ⟨hdue, herror, posted, waiting, hposts, hlist⟩ |
    ⟨hdue, herror, posted, b, waiting, hposts, hlist⟩
  · refine iff_of_true ⟨h.looks, ?_, ⟨posted, [], waiting, hposts, nofun⟩, ?_, ?_⟩ hdue
    · have hrefused : (s.doSends net).2.refused = s.refused := hposts.refused
      rw [herror, hrefused]
      exact iff_of_false (Bool.noConfusion) (Nat.lt_irrefl _)
    · exact hlist.trans (h.filter_waiting hposts).symm
    · have hsorted := h.sorted
      rw [hposts.list] at hsorted
      rw [hlist]
      exact (List.pairwise_append.mp hsorted).2.1
  · refine iff_of_false (fun hright => ?_) hdue
    have hwaiting := hright.waiting
    rw [h.filter_waiting hposts, hlist] at hwaiting
    exact List.cons_ne_self b waiting hwaiting

theorem Sendable.doSends (h : Sendable s) (hdue : DueAccepted net s) :
    Sendable (s.doSends net).2 := by
  rcases doSends_cases net s with
    ⟨-, -, posted, waiting, hposts, hlist⟩ | ⟨hnot, -⟩
  · have hsorted := h.sorted
    have honce := h.once
    rw [hposts.list] at hsorted honce
    rw [List.map_append] at honce
    have hrest : SortedSends waiting := (List.pairwise_append.mp hsorted).2.1
    refine ⟨hlist ▸ hrest, hlist ▸ (List.nodup_append.mp honce).2.1, fun b hb => ?_,
      fun b hb hop => ?_⟩
    · rw [hlist, ← h.filter_waiting hposts] at hb
      simpa using (List.mem_filter.mp hb).2
    · rw [hposts.inFlight] at hb
      rw [hposts.sent]
      simp only [List.map_append, List.append_nil, List.mem_append]
      rcases List.mem_append.mp hb with hb | hb
      · exact .inl (h.posted b hb hop)
      · obtain ⟨x, hx, rfl⟩ := List.mem_map.mp hb
        exact .inr (List.mem_map.mpr ⟨x, hx, rfl⟩)
  · exact absurd hdue hnot

theorem Sendable.insert (h : Sendable s) (hb : New s b) : Sendable (s.insertPendingSend b) where
  sorted := sortedSends_insertBefore h.sorted fun x hx => (hb.2 x hx).2
  once := by
    have hperm := (perm_insertBefore (b := b) (l := s.OutOfOrderSends)).map BufferObj.no
    refine hperm.nodup_iff.mpr (List.nodup_cons.mpr ⟨fun hmem => ?_, h.once⟩)
    obtain ⟨x, hx, heq⟩ := List.mem_map.mp hmem
    exact (hb.2 x hx).1 heq
  unused x hx := by
    rcases mem_insertBefore.mp hx with rfl | hx
    · exact hb.1
    · exact h.unused x hx
  posted := h.posted

theorem Sendable.sent {i : Nat} (h : Sendable s) (hi : s.inFlight[i]? = some b)
    (hop : b.operation = .opWrite) :
    Sendable (Socket.freeBufferObj b { s with inFlight := s.inFlight.eraseIdx i }) where
  sorted := h.sorted
  once := h.once
  unused x hx := by
    rintro (hmem | hmem)
    · exact h.unused x hx (.inl hmem)
    · rcases List.mem_cons.mp hmem with heq | hmem
      · refine h.unused x hx (.inl ?_)
        rw [heq]
        exact h.posted b (List.mem_of_getElem? hi) hop
      · exact h.unused x hx (.inr hmem)
  posted x hx := h.posted x (List.mem_of_mem_eraseIdx hx)

theorem Sendable.step {a : SendAction} (h : Sendable s) (hok : Accepting net s a)
    (hstep : sendStep net s a = some t) : Sendable t := by
  cases a with
  | insert b =>
      obtain ⟨hb, hsome⟩ := Option.ite_none_right_eq_some.mp hstep
      cases hsome
      exact h.insert hb
  | sent i =>
      obtain ⟨b, hi, hsome⟩ := Option.bind_eq_some_iff.mp hstep
      obtain ⟨hop, ht⟩ := Option.ite_none_right_eq_some.mp hsome
      cases ht
      exact h.sent hi hop
  | doSends =>
      cases hstep
      exact h.doSends hok

end

/-! ## Runs -/

/-- **The send list.**  From a list of unused buffers, whatever `LastSendIssued` is: in every
run in which no post of `DoSends` has been rejected, a call of `DoSends` does what is asked of
it exactly if none of its own posts is rejected. -/
theorem send_list {net : Nat → Bool} {s₀ s : Socket} (h₀ : Sendable s₀)
    (h : Via (sendStep net) (Accepting net) s₀ s) : SendsRight net s ↔ DueAccepted net s := by
  have hs : Sendable s :=
    h.invariant (P := Sendable) h₀ fun _ _ _ ht hok hstep => ht.step hok hstep
  exact hs.sendsRight_iff

/-- Two buffers that are due, and one that is not. -/
def threeWaiting : Socket := { Socket.getSocketObj .tcp with
  LastSendIssued := 5
  OutOfOrderSends := [
    { getBufferObj with IoOrder := 5, no := 5 },
    { getBufferObj with IoOrder := 6, no := 6 },
    { getBufferObj with IoOrder := 8, no := 8 }] }

theorem sendable_threeWaiting : Sendable threeWaiting where
  sorted := by unfold SortedSends; decide
  once := by decide
  unused := by decide
  posted := by decide

theorem send_list_accepted : ∃ s, Via (sendStep fun _ => true) (Accepting fun _ => true)
    threeWaiting s ∧ s.sent.map BufferObj.no = [5, 6] ∧ SendsRight (fun _ => true) s := by
  have hexec : ∃ s, Via (sendStep fun _ => true) (Accepting fun _ => true) threeWaiting s ∧
      s.sent.map BufferObj.no = [5, 6] ∧ DueAccepted (fun _ => true) s :=
    exists_via_of_execIf [.doSends, .insert { getBufferObj with IoOrder := 7, no := 7 }]
      (by decide +kernel)
  obtain ⟨s, hrun, hsent, hdue⟩ := hexec
  exact ⟨s, hrun, hsent, (send_list sendable_threeWaiting hrun).mpr hdue⟩

/-- The first post is rejected: its buffer is freed, and is what the next call looks at. -/
theorem not_send_list : Sendable threeWaiting ∧ ¬ SendsRight (fun _ => false) threeWaiting ∧
    ∃ b ∈ (threeWaiting.doSends fun _ => false).2.freedBuffers,
      b ∈ looked (fun _ => false) (threeWaiting.doSends fun _ => false).2.OutOfOrderSends
        (threeWaiting.doSends fun _ => false).2 := by
  refine ⟨sendable_threeWaiting, fun h => ?_, { getBufferObj with IoOrder := 5, no := 5 },
    by decide, by decide⟩
  have hdue : ¬ DueAccepted (fun _ => false) threeWaiting := by decide
  exact hdue (sendable_threeWaiting.sendsRight_iff.mp h)

end CppWorkspace.OrderedServer
