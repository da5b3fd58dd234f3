/-
# `CppWorkspace.OrderedServer.Order` — where the received data are

The numbers given to receives are in one of four places

    sent          passed to `PostSend`, in the order of the numbers
    waiting       in `OutOfOrderSends`
    in flight     posted, not completed
    failed        completed with an error

(`Ordered.places`), and the sent ones are the first `sent.length` numbers: this is
`LastSendIssued`.  The invariant `Ordered` holds inside `DoSends` as well, and is kept
as long as no receive completes `2^32` numbers or more ahead of the next one to be sent
(`Near`).

That nothing waits which could be sent (`CaughtUp`) needs more: `OutOfOrderSends` is
sorted by stamps, so when the next number comes in, no waiting buffer may have a
smaller stamp (`Unwrapped`).
-/
import Mathlib.Algebra.Order.Group.Multiset
import Mathlib.Data.Multiset.Range
import CppWorkspace.Lib.Stamps
import CppWorkspace.OrderedServer.Socket

namespace CppWorkspace.OrderedServer

open Stamps

/-- The numbers of some buffers. -/
def numbers (l : List BufferObj) : Multiset Nat := (l.map BufferObj.no : Multiset Nat)

@[simp] theorem numbers_nil : numbers [] = 0 := rfl

@[simp] theorem numbers_cons (b : BufferObj) (l : List BufferObj) :
    numbers (b :: l) = b.no ::ₘ numbers l := rfl

@[simp] theorem numbers_append (l m : List BufferObj) :
    numbers (l ++ m) = numbers l + numbers m := by
  rw [numbers, List.map_append, ← Multiset.coe_add, numbers, numbers]

theorem mem_numbers {k : Nat} {l : List BufferObj} : k ∈ numbers l ↔ ∃ b ∈ l, b.no = k := by
  rw [numbers, Multiset.mem_coe, List.mem_map]

theorem numbers_perm {l m : List BufferObj} (h : l.Perm m) : numbers l = numbers m :=
  Multiset.coe_eq_coe.mpr (h.map _)

/-- The receives among some operations. -/
def reads (l : List BufferObj) : List BufferObj := l.filter (·.operation = .opRead)

theorem reads_append_read {b : BufferObj} {l : List BufferObj} (h : b.operation = .opRead) :
    reads (l ++ [b]) = reads l ++ [b] := by
  rw [reads, List.filter_append, List.filter_cons_of_pos (by simp [h]), List.filter_nil, reads]

theorem reads_append_write {b : BufferObj} {l : List BufferObj} (h : b.operation = .opWrite) :
    reads (l ++ [b]) = reads l := by
  rw [reads, List.filter_append, List.filter_cons_of_neg (by simp [h]), List.filter_nil,
    List.append_nil, reads]

theorem perm_eraseIdx {b : BufferObj} {l : List BufferObj} {i : Nat} (hi : l[i]? = some b) :
    l.Perm (b :: l.eraseIdx i) := by
  obtain ⟨hlt, rfl⟩ := List.getElem?_eq_some_iff.mp hi
  exact (List.getElem_cons_eraseIdx_perm hlt).symm

theorem reads_eraseIdx_read {b : BufferObj} {l : List BufferObj} {i : Nat}
    (hi : l[i]? = some b) (hb : b.operation = .opRead) :
    (reads l).Perm (b :: reads (l.eraseIdx i)) := by
  have hperm := (perm_eraseIdx hi).filter (·.operation = .opRead)
  rwa [List.filter_cons_of_pos (by simp [hb])] at hperm

theorem reads_eraseIdx_write {b : BufferObj} {l : List BufferObj} {i : Nat}
    (hi : l[i]? = some b) (hb : b.operation = .opWrite) :
    (reads l).Perm (reads (l.eraseIdx i)) := by
  have hperm := (perm_eraseIdx hi).filter (·.operation = .opRead)
  rwa [List.filter_cons_of_neg (by simp [hb])] at hperm

/-! ## The insertion -/

section
variable {b x : BufferObj} {l : List BufferObj}

theorem perm_insertBefore : (Socket.insertBefore b l).Perm (b :: l) := by
  induction l with
  | nil => exact .refl _
  | cons p l ih =>
      rw [Socket.insertBefore]
      split
      · exact .refl _
      · exact (ih.cons p).trans (.swap b p l)

theorem mem_insertBefore : x ∈ Socket.insertBefore b l ↔ x = b ∨ x ∈ l := by
  rw [perm_insertBefore.mem_iff, List.mem_cons]

/-- Strictly increasing in `IoOrder`. -/
def SortedSends (l : List BufferObj) : Prop := l.Pairwise fun a b => a.IoOrder < b.IoOrder

theorem sortedSends_insertBefore (h : SortedSends l) (hb : ∀ x ∈ l, x.IoOrder ≠ b.IoOrder) :
    SortedSends (Socket.insertBefore b l) := by
  induction l with
  | nil => exact List.pairwise_singleton _ _
  | cons p l ih =>
      obtain ⟨hp, hl⟩ := List.pairwise_cons.mp h
      rw [Socket.insertBefore]
      split
      · rename_i hlt
        refine List.pairwise_cons.mpr ⟨?_, h⟩
        intro x hx
        rcases List.mem_cons.mp hx with rfl | hx
        · exact hlt
        · exact UInt32.lt_trans hlt (hp x hx)
      · rename_i hlt
        refine List.pairwise_cons.mpr ⟨?_, ih hl fun x hx => hb x (List.mem_cons_of_mem p hx)⟩
        intro x hx
        rcases mem_insertBefore.mp hx with rfl | hx
        · exact UInt32.lt_of_le_of_ne (UInt32.not_lt.mp hlt) (hb p List.mem_cons_self)
        · exact hp x hx

end

/-! ## The invariant -/

/-- Every number is in one place, and the sent ones are the first.  `H` are the numbers
a call of `HandleIo` has in its hands. -/
structure Ordered (H : Multiset Nat) (s : Socket) : Prop where
  lastSend : s.LastSendIssued = UInt32.ofNat s.sent.length
  next : s.IoCountIssued = UInt32.ofNat s.issued
  posted : ∀ b ∈ reads s.inFlight, b.IoOrder = UInt32.ofNat b.no
  stamped : ∀ b ∈ s.OutOfOrderSends, b.IoOrder = UInt32.ofNat b.no
  order : s.sent.map BufferObj.no = List.range s.sent.length
  places : numbers s.sent + numbers s.OutOfOrderSends + numbers (reads s.inFlight) +
    (s.failed : Multiset Nat) + H = Multiset.range s.issued
  window : ∀ b ∈ s.OutOfOrderSends, b.no < s.sent.length + 2 ^ 32
  sorted : SortedSends s.OutOfOrderSends
  contents : ∀ b ∈ s.sent ++ s.OutOfOrderSends, s.received b.no = some (b.buf, b.addr)
  known : ∀ k, s.received k ≠ none → k < s.sent.length ∨ k ∈ numbers s.OutOfOrderSends

/-- The next buffer to be sent does not wait. -/
def CaughtUp (s : Socket) : Prop := s.sent.length ∉ numbers s.OutOfOrderSends

/-- The next buffer to be sent does not wait, or the list is in the order of the
numbers. -/
def NextFirst (s : Socket) : Prop :=
  CaughtUp s ∨ s.OutOfOrderSends.Pairwise fun a b => a.no < b.no

namespace Ordered

variable {H : Multiset Nat} {s : Socket} {k : Nat} {b : BufferObj}

theorem nodup (h : Ordered H s) :
    (numbers s.sent + numbers s.OutOfOrderSends + numbers (reads s.inFlight) +
    (s.failed : Multiset Nat) + H).Nodup := by
  rw [h.places]
  exact Multiset.nodup_range _

theorem numbers_sent (h : Ordered H s) : numbers s.sent = Multiset.range s.sent.length := by
  rw [numbers, h.order]
  rfl

theorem sent_iff (h : Ordered H s) : k ∈ numbers s.sent ↔ k < s.sent.length := by
  rw [h.numbers_sent, Multiset.mem_range]

theorem le_of_mem (h : Ordered H s)
    (hk : k ∈ numbers s.OutOfOrderSends + numbers (reads s.inFlight)
      + (s.failed : Multiset Nat) + H) :
    s.sent.length ≤ k := by
  have hnodup := h.nodup
  rw [add_assoc, add_assoc, add_assoc, Multiset.nodup_add] at hnodup
  refine Nat.le_of_not_lt fun hlt => ?_
  refine Multiset.disjoint_left.mp hnodup.2.2 (h.sent_iff.mpr hlt) ?_
  rwa [← add_assoc, ← add_assoc]

theorem le_of_waiting (h : Ordered H s) (hb : b ∈ s.OutOfOrderSends) : s.sent.length ≤ b.no := by
  refine h.le_of_mem ?_
  rw [add_assoc, add_assoc]
  exact Multiset.mem_add.mpr (.inl (mem_numbers.mpr ⟨b, hb, rfl⟩))

theorem waiting_window (h : Ordered H s) (hb : b ∈ s.OutOfOrderSends) :
    s.sent.length ≤ b.no ∧ b.no < s.sent.length + 2 ^ 32 :=
  ⟨h.le_of_waiting hb, h.window b hb⟩

theorem no_eq (h : Ordered H s) (hb : b ∈ s.OutOfOrderSends)
    (heq : b.IoOrder = s.LastSendIssued) : b.no = s.sent.length := by
  rw [h.stamped b hb, h.lastSend] at heq
  refine eq_of_stamp_eq (h.waiting_window hb) ⟨Nat.le_refl _, ?_⟩ heq
  omega

theorem congr {H' : Multiset Nat} {t : Socket} (h : Ordered H s)
    (hlast : t.LastSendIssued = s.LastSendIssued) (hnext : t.IoCountIssued = s.IoCountIssued)
    (hissued : t.issued = s.issued) (hwaiting : t.OutOfOrderSends = s.OutOfOrderSends)
    (hsent : t.sent = s.sent) (hreceived : t.received = s.received)
    (hreads : ∀ b ∈ reads t.inFlight, b.IoOrder = UInt32.ofNat b.no)
    (hplaces : numbers (reads t.inFlight) + (t.failed : Multiset Nat) + H' =
      numbers (reads s.inFlight) + (s.failed : Multiset Nat) + H) : Ordered H' t where
  lastSend := by rw [hlast, hsent, h.lastSend]
  next := by rw [hnext, hissued, h.next]
  posted := hreads
  stamped := hwaiting ▸ h.stamped
  order := hsent ▸ h.order
  places := by
    rw [hsent, hwaiting, hissued, ← h.places, add_assoc, add_assoc, ← add_assoc _ _ H', hplaces]
    simp only [add_assoc]
  window := by
    rw [hsent, hwaiting]
    exact h.window
  sorted := hwaiting ▸ h.sorted
  contents := by
    rw [hsent, hwaiting, hreceived]
    exact h.contents
  known := by
    rw [hsent, hwaiting, hreceived]
    exact h.known

/-- Counters, flags and the record of what was freed do not matter. -/
theorem same {t : Socket} (h : Ordered H s)
    (hlast : t.LastSendIssued = s.LastSendIssued) (hnext : t.IoCountIssued = s.IoCountIssued)
    (hissued : t.issued = s.issued) (hwaiting : t.OutOfOrderSends = s.OutOfOrderSends)
    (hsent : t.sent = s.sent) (hreceived : t.received = s.received)
    (hflight : t.inFlight = s.inFlight) (hfailed : t.failed = s.failed) : Ordered H t := by
  refine h.congr hlast hnext hissued hwaiting hsent hreceived ?_ ?_
  · rw [hflight]
    exact h.posted
  · rw [hflight, hfailed]

end Ordered

/-! ## What posting does -/

/-- Refusals are counted and calls of `PostSend` recorded. -/
def Grows (s t : Socket) : Prop := s.refused ≤ t.refused ∧ s.sent <+: t.sent

namespace Grows

variable {s t u : Socket}

theorem refl (s : Socket) : Grows s s := ⟨Nat.le_refl _, List.prefix_rfl⟩

theorem trans (h₁ : Grows s t) (h₂ : Grows t u) : Grows s u :=
  ⟨Nat.le_trans h₁.1 h₂.1, h₁.2.trans h₂.2⟩

theorem between (h₁ : Grows s t) (h₂ : Grows t u) (h : u.refused = s.refused) :
    t.refused = s.refused ∧ u.refused = t.refused := by
  have hle := h₁.1
  have hle' := h₂.1
  omega

end Grows

namespace Socket

section
variable {net : Nat → Bool} {obj : BufferObj} {s : Socket}

theorem issue_cases (net : Nat → Bool) (obj : BufferObj) (s : Socket) :
    issue net obj s = (true, { s with
      posts := s.posts + 1
      inFlight := s.inFlight ++ [obj]
      OutstandingOps := s.OutstandingOps + 1 }) ∨
    issue net obj s = (false, { s with posts := s.posts + 1, refused := s.refused + 1 }) := by
  rw [issue]
  split
  · exact .inl rfl
  · exact .inr rfl

theorem grows_issue : Grows s (issue net obj s).2 := by
  rcases issue_cases net obj s with h | h <;> rw [h]
  · exact ⟨Nat.le_refl _, List.prefix_rfl⟩
  · exact ⟨Nat.le_succ _, List.prefix_rfl⟩

theorem issue_accepted (h : (issue net obj s).2.refused = s.refused) :
    issue net obj s = (true, { s with
      posts := s.posts + 1
      inFlight := s.inFlight ++ [obj]
      OutstandingOps := s.OutstandingOps + 1 }) := by
  rcases issue_cases net obj s with h' | h'
  · exact h'
  · rw [h'] at h
    exact absurd h (Nat.succ_ne_self _)

theorem grows_postRecv : Grows s (postRecv net obj s).2 :=
  grows_issue (s := { s with IoCountIssued := s.IoCountIssued + 1, issued := s.issued + 1 })

theorem grows_postSend : Grows s (postSend net obj s).2 := by
  have hsent : Grows s { s with
      LastSendIssued := s.LastSendIssued + 1, sent := s.sent ++ [obj] } :=
    ⟨Nat.le_refl _, List.prefix_append _ _⟩
  exact hsent.trans grows_issue

theorem postSend_true {t : Socket} (h : postSend net obj s = (true, t)) : t = { s with
    LastSendIssued := s.LastSendIssued + 1
    sent := s.sent ++ [obj]
    posts := s.posts + 1
    inFlight := s.inFlight ++ [{ obj with operation := .opWrite }]
    OutstandingOps := s.OutstandingOps + 1 } := by
  rw [postSend] at h
  rcases issue_cases net { obj with operation := .opWrite } _ with h' | h' <;> rw [h'] at h
  · exact (congrArg Prod.snd h).symm
  · cases h

theorem postSend_false {t : Socket} (h : postSend net obj s = (false, t)) :
    t.refused = s.refused + 1 := by
  rw [postSend] at h
  rcases issue_cases net { obj with operation := .opWrite } _ with h' | h' <;> rw [h'] at h
  · cases h
  · exact (congrArg (fun r => r.2.refused) h).symm

theorem grows_doSendsFrom (l : List BufferObj) : Grows s (doSendsFrom net l s).2 := by
  induction l generalizing s with
  | nil => exact .refl s
  | cons b l ih =>
      rw [doSendsFrom]
      split
      · have hpost : Grows s (postSend net b s).2 := grows_postSend
        split
        · rename_i t ht
          rw [ht] at hpost
          exact hpost.trans (ih (s := { t with OutOfOrderSends := l }))
        · rename_i t ht
          rw [ht] at hpost
          exact hpost
      · exact .refl s

end

end Socket

namespace Ordered

open Socket

variable {net : Nat → Bool} {H : Multiset Nat} {s : Socket} {b : BufferObj} {l : List BufferObj}

theorem postRecv (h : Ordered H s) (hr : (postRecv net b s).2.refused = s.refused) :
    (postRecv net b s).1 = true ∧ Ordered H (postRecv net b s).2 := by
  have heq := issue_accepted (s := { s with
    IoCountIssued := s.IoCountIssued + 1, issued := s.issued + 1 }) hr
  rw [Socket.postRecv, heq]
  refine ⟨rfl, ⟨h.lastSend, ?_, ?_, h.stamped, h.order, ?_, h.window, h.sorted, h.contents,
    h.known⟩⟩
  · rw [h.next, stamp_succ]
  · intro x hx
    rw [reads_append_read rfl] at hx
    rcases List.mem_append.mp hx with hx | hx
    · exact h.posted x hx
    · rw [List.mem_singleton.mp hx]
      exact h.next
  · rw [reads_append_read rfl, Multiset.range_succ, ← h.places, numbers_append, numbers_cons,
      numbers_nil, Multiset.cons_zero, ← Multiset.singleton_add]
    ac_rfl

/-- The head of the list is sent: it has the next number. -/
theorem sendHead {t : Socket} (h : Ordered H s) (hl : s.OutOfOrderSends = b :: l)
    (heq : b.IoOrder = s.LastSendIssued) (hlast : t.LastSendIssued = s.LastSendIssued + 1)
    (hnext : t.IoCountIssued = s.IoCountIssued) (hissued : t.issued = s.issued)
    (hwaiting : t.OutOfOrderSends = l) (hsent : t.sent = s.sent ++ [b])
    (hreceived : t.received = s.received) (hflight : reads t.inFlight = reads s.inFlight)
    (hfailed : t.failed = s.failed) : Ordered H t := by
  have hno : b.no = s.sent.length := h.no_eq (hl ▸ List.mem_cons_self) heq
  have hsub : ∀ x ∈ l, x ∈ s.OutOfOrderSends := fun x hx => hl ▸ List.mem_cons_of_mem b hx
  have hlen : t.sent.length = s.sent.length + 1 := by
    rw [hsent, List.length_append, List.length_singleton]
  constructor
  · rw [hlast, h.lastSend, hlen, stamp_succ]
  · rw [hnext, hissued, h.next]
  · rw [hflight]
    exact h.posted
  · rw [hwaiting]
    exact fun x hx => h.stamped x (hsub x hx)
  · rw [hlen, hsent, List.map_append, List.map_singleton, h.order, hno, List.range_succ]
  · rw [hsent, hwaiting, hflight, hfailed, hissued, ← h.places, hl, numbers_append, numbers_cons,
      numbers_nil, numbers_cons, Multiset.cons_zero, ← Multiset.singleton_add]
    ac_rfl
  · intro x hx
    rw [hwaiting] at hx
    have hwindow := h.window x (hsub x hx)
    omega
  · have hsorted := h.sorted
    rw [hl] at hsorted
    rw [hwaiting]
    exact (List.pairwise_cons.mp hsorted).2
  · intro x hx
    rw [hsent, hwaiting, List.append_assoc, List.singleton_append, ← hl] at hx
    rw [hreceived]
    exact h.contents x hx
  · intro k hk
    rw [hreceived] at hk
    rw [hlen, hwaiting]
    rcases h.known k hk with hlt | hmem
    · exact .inl (Nat.lt_succ_of_lt hlt)
    · rw [hl, numbers_cons, Multiset.mem_cons] at hmem
      rcases hmem with rfl | hmem
      · exact .inl (hno ▸ Nat.lt_succ_self _)
      · exact .inr hmem

/-- If the list is in the order of the numbers and does not begin with the next one,
the next one does not wait. -/
theorem caughtUp_of_head (h : Ordered H s) (hl : s.OutOfOrderSends = b :: l)
    (hne : b.IoOrder ≠ s.LastSendIssued) (hnext : NextFirst s) : CaughtUp s := by
  rcases hnext with hnext | hsorted
  · exact hnext
  · have hno : b.no ≠ s.sent.length := by
      intro hno
      rw [h.stamped b (hl ▸ List.mem_cons_self), hno, h.lastSend] at hne
      exact hne rfl
    intro hmem
    obtain ⟨x, hx, hxno⟩ := mem_numbers.mp hmem
    have hle := h.le_of_waiting (b := b) (hl ▸ List.mem_cons_self)
    rw [hl] at hx hsorted
    rcases List.mem_cons.mp hx with rfl | hx
    · exact hno hxno
    · have hlt := (List.pairwise_cons.mp hsorted).1 x hx
      omega

/-- After the head has been sent the rest is still in the order of the numbers. -/
theorem nextFirst_tail {t : Socket} (h : Ordered H s) (hl : s.OutOfOrderSends = b :: l)
    (heq : b.IoOrder = s.LastSendIssued) (hnext : NextFirst s) (ht : t.OutOfOrderSends = l) :
    NextFirst t := by
  rcases hnext with hcaught | hsorted
  · refine absurd (mem_numbers.mpr ⟨b, hl ▸ List.mem_cons_self, ?_⟩) hcaught
    exact h.no_eq (hl ▸ List.mem_cons_self) heq
  · rw [hl] at hsorted
    rw [← ht] at hsorted
    exact .inr (List.pairwise_cons.mp hsorted).2

theorem doSendsFrom (h : Ordered H s) (hl : s.OutOfOrderSends = l)
    (hr : (doSendsFrom net l s).2.refused = s.refused) :
    (doSendsFrom net l s).1 = true ∧ Ordered H (doSendsFrom net l s).2 ∧
      (NextFirst s → CaughtUp (doSendsFrom net l s).2) := by
  induction l generalizing s with
  | nil =>
      refine ⟨rfl, h, fun _ hmem => ?_⟩
      rw [Socket.doSendsFrom, hl] at hmem
      exact Multiset.notMem_zero _ hmem
  | cons b l ih =>
      rw [Socket.doSendsFrom] at hr ⊢
      split
      · rename_i heq
        rw [if_pos heq] at hr
        split
        · rename_i t ht
          rw [ht] at hr
          obtain rfl := postSend_true ht
          have hkept := h.sendHead (t := { s with
            LastSendIssued := s.LastSendIssued + 1
            sent := s.sent ++ [b]
            posts := s.posts + 1
            inFlight := s.inFlight ++ [{ b with operation := .opWrite }]
            OutstandingOps := s.OutstandingOps + 1
            OutOfOrderSends := l }) hl heq rfl rfl rfl rfl rfl rfl (reads_append_write rfl) rfl
          obtain ⟨hok, hordered, hcaught⟩ := ih hkept rfl hr
          exact ⟨hok, hordered, fun hnext => hcaught (h.nextFirst_tail hl heq hnext rfl)⟩
        · rename_i t ht
          rw [ht] at hr
          have hrefused := postSend_false ht
          exact absurd (hrefused.symm.trans hr) (Nat.succ_ne_self _)
      · rename_i hne
        exact ⟨rfl, h, h.caughtUp_of_head hl hne⟩

theorem doSends (h : Ordered H s) (hr : (doSends net s).2.refused = s.refused) :
    (doSends net s).1 = true ∧ Ordered H (doSends net s).2 ∧
      (NextFirst s → CaughtUp (doSends net s).2) :=
  h.doSendsFrom rfl hr

/-- The number of a receive that brought data joins those that wait. -/
theorem insertPendingSend {t : Socket} (h : Ordered (b.no ::ₘ H) s)
    (hb : b.IoOrder = UInt32.ofNat b.no) (hnear : b.no < s.sent.length + 2 ^ 32)
    (hlast : t.LastSendIssued = s.LastSendIssued) (hnext : t.IoCountIssued = s.IoCountIssued)
    (hissued : t.issued = s.issued)
    (hwaiting : t.OutOfOrderSends = insertBefore b s.OutOfOrderSends)
    (hsent : t.sent = s.sent) (hflight : t.inFlight = s.inFlight) (hfailed : t.failed = s.failed)
    (hreceived : ∀ k, t.received k = if k = b.no then some (b.buf, b.addr) else s.received k) :
    Ordered H t := by
  have hle : s.sent.length ≤ b.no :=
    h.le_of_mem (Multiset.mem_add.mpr (.inr (Multiset.mem_cons_self _ _)))
  have hfresh : ∀ x ∈ s.sent ++ s.OutOfOrderSends, x.no ≠ b.no := by
    intro x hx hno
    have hnodup := h.nodup
    rw [Multiset.nodup_add] at hnodup
    have hmem : b.no ∈ numbers s.sent + numbers s.OutOfOrderSends := by
      rw [← numbers_append]
      exact mem_numbers.mpr ⟨x, hx, hno⟩
    exact Multiset.disjoint_left.mp hnodup.2.2
      (Multiset.mem_add.mpr (.inl (Multiset.mem_add.mpr (.inl hmem)))) (Multiset.mem_cons_self _ _)
  have hwindow : ∀ x ∈ s.OutOfOrderSends, x.IoOrder ≠ b.IoOrder := by
    intro x hx heq
    rw [h.stamped x hx, hb] at heq
    exact hfresh x (List.mem_append_right _ hx)
      (eq_of_stamp_eq (h.waiting_window hx) ⟨hle, hnear⟩ heq)
  constructor
  · rw [hlast, hsent, h.lastSend]
  · rw [hnext, hissued, h.next]
  · rw [hflight]
    exact h.posted
  · intro x hx
    rw [hwaiting] at hx
    rcases mem_insertBefore.mp hx with rfl | hx
    · exact hb
    · exact h.stamped x hx
  · rw [hsent, h.order]
  · rw [hsent, hwaiting, hflight, hfailed, hissued, ← h.places, numbers_perm perm_insertBefore,
      numbers_cons, ← Multiset.singleton_add, ← Multiset.singleton_add]
    ac_rfl
  · intro x hx
    rw [hsent]
    rw [hwaiting] at hx
    rcases mem_insertBefore.mp hx with rfl | hx
    · exact hnear
    · exact h.window x hx
  · rw [hwaiting]
    exact sortedSends_insertBefore h.sorted hwindow
  · intro x hx
    rw [hsent, hwaiting] at hx
    rw [hreceived]
    by_cases hno : x.no = b.no
    · rw [if_pos hno]
      rcases List.mem_append.mp hx with hx | hx
      · exact absurd hno (hfresh x (List.mem_append_left _ hx))
      · rcases mem_insertBefore.mp hx with rfl | hx
        · rfl
        · exact absurd hno (hfresh x (List.mem_append_right _ hx))
    · rw [if_neg hno]
      refine h.contents x ?_
      rcases List.mem_append.mp hx with hx | hx
      · exact List.mem_append_left _ hx
      · rcases mem_insertBefore.mp hx with rfl | hx
        · exact absurd rfl hno
        · exact List.mem_append_right _ hx
  · intro k hk
    rw [hreceived] at hk
    rw [hsent, hwaiting, numbers_perm perm_insertBefore, numbers_cons]
    split at hk
    · rename_i hno
      exact .inr (hno ▸ Multiset.mem_cons_self _ _)
    · rcases h.known k hk with hlt | hmem
      · exact .inl hlt
      · exact .inr (Multiset.mem_cons_of_mem hmem)

/-- After the insertion the next number is not hidden behind another. -/
theorem nextFirst_insert {t : Socket} (h : Ordered H t) (hcaught : CaughtUp s)
    (hwaiting : t.OutOfOrderSends = insertBefore b s.OutOfOrderSends)
    (hsent : t.sent = s.sent)
    (hfirst : b.no = s.sent.length → ∀ x ∈ s.OutOfOrderSends, b.IoOrder ≤ x.IoOrder) :
    NextFirst t := by
  by_cases hno : b.no = s.sent.length
  · refine .inr (h.sorted.imp_of_mem ?_)
    intro x y hx hy hlt
    have hb : b ∈ t.OutOfOrderSends := hwaiting ▸ mem_insertBefore.mpr (.inl rfl)
    refine lt_of_stamp_lt (h.waiting_window hx) (h.waiting_window hy) ?_ ?_
    · rw [hsent, ← hno, ← h.stamped b hb, ← h.stamped x hx]
      rw [hwaiting] at hx
      rcases mem_insertBefore.mp hx with rfl | hx
      · exact UInt32.le_refl _
      · exact hfirst hno x hx
    · rwa [← h.stamped x hx, ← h.stamped y hy]
  · refine .inl ?_
    rw [CaughtUp, hsent, hwaiting, numbers_perm perm_insertBefore, numbers_cons, Multiset.mem_cons]
    rintro (heq | hmem)
    · exact hno heq.symm
    · exact hcaught hmem

end Ordered

end CppWorkspace.OrderedServer
