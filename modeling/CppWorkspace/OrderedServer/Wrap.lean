/-
# `CppWorkspace.OrderedServer.Wrap` — a run up to the wrap of `IoOrder`

Two receives are posted.  In each round the older one completes, its data are sent at
once and the send completes (`Round.next`); after `2^32 - 2` rounds the two receives
have the stamps `2^32 - 1` and `0`.  If the younger one now completes first, it is put
at the head of `OutOfOrderSends` and stays there: the data of the older one are put
behind it, and `DoSends` looks at the head only (`exists_wrapped`).
-/
import CppWorkspace.OrderedServer.Settled

namespace CppWorkspace.OrderedServer

open Runs Stamps Socket

section
variable {s : Socket} {i : Nat} {b : BufferObj} {bytes : List UInt8}

theorem step_in_turn (hopen : s.isOpen = true) (hclosing : s.bClosing = false)
    (hwaiting : s.OutOfOrderSends = []) (hi : s.inFlight[i]? = some b)
    (hread : b.operation = .opRead) (hturn : b.IoOrder = s.LastSendIssued) (hbytes : bytes ≠ []) :
    step .tcp (fun _ => true) s (.complete i bytes 0 false) = some { s with
      OutstandingOps := s.OutstandingOps + 1
      LastSendIssued := s.LastSendIssued + 1
      IoCountIssued := s.IoCountIssued + 1
      inFlight := s.inFlight.eraseIdx i ++ [{ echoOf .tcp b bytes 0 with operation := .opWrite },
        { b with operation := .opRead, IoOrder := s.IoCountIssued, no := s.issued }]
      issued := s.issued + 1
      received := fun k => if k = b.no then some (bytes, 0) else s.received k
      sent := s.sent ++ [echoOf .tcp b bytes 0]
      posts := s.posts + 2 } := by
  rcases s with ⟨⟨_, _, ops, _, _, _⟩, _, _, _, _, _, _, _, _, _, _⟩
  dsimp only at *
  subst hopen hclosing hwaiting
  simp [step, hi, handleIo, hread, hbytes, receiveCompleted, doSends, doSendsFrom, hturn, postSend,
    postRecv, issue, insertPendingSend, insertBefore, echoOf, leave, getBufferObj]

/-- A receive that comes too early waits, if it is not put in front of the next one. -/
theorem step_early (hopen : s.isOpen = true) (hclosing : s.bClosing = false)
    (hi : s.inFlight[i]? = some b) (hread : b.operation = .opRead)
    {l : List BufferObj} {x : BufferObj}
    (hl : insertBefore (echoOf .tcp b bytes 0) s.OutOfOrderSends = x :: l)
    (hturn : x.IoOrder ≠ s.LastSendIssued) (hbytes : bytes ≠ []) :
    step .tcp (fun _ => true) s (.complete i bytes 0 false) = some { s with
      IoCountIssued := s.IoCountIssued + 1
      OutOfOrderSends := x :: l
      inFlight := s.inFlight.eraseIdx i ++
        [{ b with operation := .opRead, IoOrder := s.IoCountIssued, no := s.issued }]
      issued := s.issued + 1
      received := fun k => if k = b.no then some (bytes, 0) else s.received k
      posts := s.posts + 1 } := by
  rcases s with ⟨⟨_, _, ops, _, _, _⟩, _, _, _, _, _, _, _, _, _, _⟩
  dsimp only at *
  subst hopen hclosing
  simp [step, hi, handleIo, hread, hbytes, receiveCompleted, doSends, insertPendingSend, hl,
    doSendsFrom, hturn, postRecv, issue, leave]
  simp [echoOf, getBufferObj]

theorem step_send (hclosing : s.bClosing = false) (hwaiting : s.OutOfOrderSends = [])
    (hi : s.inFlight[i]? = some b) (hwrite : b.operation = .opWrite) :
    step .tcp (fun _ => true) s (.complete i [] 0 false) = some { s with
      OutstandingOps := s.OutstandingOps - 1
      inFlight := s.inFlight.eraseIdx i
      freedBuffers := b :: s.freedBuffers } := by
  rcases s with ⟨⟨_, _, ops, _, _, _⟩, _, _, _, _, _, _, _, _, _, _⟩
  dsimp only at *
  subst hclosing hwaiting
  simp [step, hi, handleIo, hwrite, sendCompleted, freeBufferObj, doSends, doSendsFrom, leave]

end
/-! ## The rounds -/

/-- A receive in flight, under its number. -/
def receiveNo (k : Nat) : BufferObj := { getBufferObj with IoOrder := UInt32.ofNat k, no := k }

/-- After `k` rounds. -/
structure Round (k : Nat) (s : Socket) : Prop where
  isOpen : s.isOpen = true
  bClosing : s.bClosing = false
  lastSend : s.LastSendIssued = UInt32.ofNat (k + 1)
  next : s.IoCountIssued = UInt32.ofNat (k + 3)
  issued : s.issued = k + 3
  waiting : s.OutOfOrderSends = []
  flight : s.inFlight = [receiveNo (k + 1), receiveNo (k + 2)]
  posts : s.refused = 0
  sent : s.sent.length = k + 1
  received : ∀ j ≤ k, s.received j ≠ none

section
variable {k : Nat} {s : Socket}

theorem Round.next_round (h : Round k s) :
    ∃ t, Via (step .tcp fun _ => true) DataOnly s t ∧ Round (k + 1) t := by
  have hreceive := step_in_turn (i := 0) (b := receiveNo (k + 1)) h.isOpen h.bClosing
    h.waiting (by rw [h.flight]; rfl) rfl h.lastSend.symm (List.cons_ne_nil 0 [])
  rw [h.flight, h.lastSend, h.next, h.issued, stamp_succ, stamp_succ] at hreceive
  refine ⟨_, (Via.refl.tail _ ?_ hreceive).tail (.complete 1 [] 0 false) ?_
    (step_send h.bClosing h.waiting rfl rfl), ?_⟩
  · intro buf _ _
    exact ⟨rfl, List.cons_ne_nil _ _⟩
  · intro buf hbuf hread
    obtain rfl := Option.some.inj hbuf
    cases hread
  · refine ⟨h.isOpen, h.bClosing, rfl, rfl, rfl, h.waiting, rfl, h.posts, ?_, ?_⟩
    · rw [List.length_append, h.sent, List.length_singleton]
    · intro j hj
      dsimp only
      split
      · exact Option.some_ne_none _
      · rename_i hne
        exact h.received j (Nat.lt_succ_iff.mp (Nat.lt_of_le_of_ne hj hne))

theorem exists_round (k : Nat) : ∃ s, Via (step .tcp fun _ => true) DataOnly
    (accepted (fun _ => true) 2 [0]) s ∧ Round k s := by
  induction k with
  | zero =>
      refine exists_via_of_execIf [.post, .post, .complete 0 [] 0 false] ⟨_, rfl, ?_⟩
      refine ⟨rfl, rfl, rfl, rfl, rfl, rfl, rfl, rfl, rfl, ?_⟩
      intro j hj
      obtain rfl := Nat.le_zero.mp hj
      exact Option.some_ne_none _
  | succ k ih =>
      obtain ⟨s, hrun, hs⟩ := ih
      obtain ⟨t, hrun', ht⟩ := hs.next_round
      exact ⟨t, hrun.trans hrun', ht⟩

/-- The younger receive has the stamp `0` and completes first: neither is sent. -/
theorem Round.wrapped (h : Round k s) (hk : k + 2 = 2 ^ 32) :
    ∃ t, Via (step .tcp fun _ => true) DataOnly s t ∧ t.refused = 0 ∧ t.sent.length = k + 1 ∧
      ∀ j ≤ k + 2, t.received j ≠ none := by
  have hlast : UInt32.ofNat (k + 1) = 0xFFFFFFFF := by
    rw [show k + 1 = 0xFFFFFFFF by omega]
    rfl
  have hzero : UInt32.ofNat (k + 2) = 0 := by
    rw [hk]
    rfl
  have hne : UInt32.ofNat (k + 2) ≠ s.LastSendIssued := by
    rw [h.lastSend, hlast, hzero]
    decide
  have hnlt : ¬ UInt32.ofNat (k + 1) < UInt32.ofNat (k + 2) := by
    rw [hlast, hzero]
    decide
  have hyounger : step .tcp (fun _ => true) s (.complete 1 [0] 0 false) = some { s with
      IoCountIssued := s.IoCountIssued + 1
      OutOfOrderSends := [echoOf .tcp (receiveNo (k + 2)) [0] 0]
      inFlight := [receiveNo (k + 1),
        { receiveNo (k + 2) with IoOrder := s.IoCountIssued, no := s.issued }]
      issued := s.issued + 1
      received := fun j => if j = k + 2 then some ([0], 0) else s.received j
      posts := s.posts + 1 } := by
    have hearly := step_early (i := 1) (b := receiveNo (k + 2)) h.isOpen h.bClosing
      (by rw [h.flight]; rfl) rfl (by rw [h.waiting]; rfl) hne (List.cons_ne_nil 0 [])
    rw [hearly, h.flight]
    rfl
  have holder := step_early (s := { s with
      IoCountIssued := s.IoCountIssued + 1
      OutOfOrderSends := [echoOf .tcp (receiveNo (k + 2)) [0] 0]
      inFlight := [receiveNo (k + 1),
        { receiveNo (k + 2) with IoOrder := s.IoCountIssued, no := s.issued }]
      issued := s.issued + 1
      received := fun j => if j = k + 2 then some ([0], 0) else s.received j
      posts := s.posts + 1 }) (i := 0) (b := receiveNo (k + 1))
    (l := [echoOf .tcp (receiveNo (k + 1)) [0] 0]) (x := echoOf .tcp (receiveNo (k + 2)) [0] 0)
    h.isOpen h.bClosing rfl rfl ?_ hne (List.cons_ne_nil 0 [])
  · refine ⟨_, (Via.refl.tail _ ?_ hyounger).tail _ ?_ holder, h.posts, h.sent, ?_⟩
    · exact fun _ _ _ => ⟨rfl, List.cons_ne_nil _ _⟩
    · exact fun _ _ _ => ⟨rfl, List.cons_ne_nil _ _⟩
    · intro j hj
      dsimp only
      split
      · exact Option.some_ne_none _
      · rename_i hj₁
        split
        · exact Option.some_ne_none _
        · rename_i hj₂
          refine h.received j ?_
          have hj₁' : j ≠ k + 1 := hj₁
          omega
  · exact if_neg hnlt

theorem exists_wrapped : ∃ s, Via (step .tcp fun _ => true) DataOnly
    (accepted (fun _ => true) 2 [0]) s ∧ s.refused = 0 ∧ s.sent.length = 2 ^ 32 - 1 ∧
      ∀ j ≤ 2 ^ 32, s.received j ≠ none := by
  obtain ⟨s, hrun, hs⟩ := exists_round (2 ^ 32 - 2)
  obtain ⟨t, hrun', hposts, hsent, hreceived⟩ := hs.wrapped rfl
  exact ⟨t, hrun.trans hrun', hposts, hsent, hreceived⟩

end

end CppWorkspace.OrderedServer
