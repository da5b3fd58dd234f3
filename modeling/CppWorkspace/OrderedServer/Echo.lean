/-
# `CppWorkspace.OrderedServer.Echo` — what is echoed, and in which order

As long as no post is refused and stamps stay in the order of the numbers (`Unwrapped`)
nothing waits between two calls that could be sent (`Settled`), so:

* TCP, every receive brings data: the data of the accept and of the receives are sent in
  the order of the posts, each once and without delay (`Echoed`)
* UDP: a receive that fails keeps its number, and `LastSendIssued` waits for it for
  ever; a datagram whose turn has come is sent exactly if no earlier receive has
  failed (`passed_iff_no_failure`)

`IoOrder` is 32 bits wide and compared as it is.  Where it wraps, two receives that
complete in the other order end up in the wrong order in `OutOfOrderSends`, and nothing
is sent any more (`wrap_stalls_echo`).
-/
import CppWorkspace.OrderedServer.Wrap

namespace CppWorkspace.OrderedServer

open Runs Stamps

/-! ## What is echoed -/

/-- The calls of `PostSend` so far: the data of the accept, then what the receives
brought, in the order of their posts, each once; what waits is sorted, and nothing waits
whose predecessors have all come. -/
structure Echoed (bytes : List UInt8) (s : Socket) : Prop where
  first : (s.sent.map BufferObj.buf).head? = some bytes
  posted : s.sent.map (fun b => some (b.buf, b.addr)) =
    (List.range s.sent.length).map s.received
  sorted : SortedSends s.OutOfOrderSends
  prompt : ∀ k, (∀ j ≤ k, s.received j ≠ none) → k < s.sent.length

section
variable {gProtocol : Protocol} {net : Nat → Bool} {s t : Socket} {a : Action} {n k : Nat}
  {bytes : List UInt8}

theorem Settled.posted (h : Settled s) : s.sent.map (fun b => some (b.buf, b.addr)) =
    (List.range s.sent.length).map s.received := by
  rw [← h.ordered.order, List.map_map]
  refine List.map_congr_left fun b hb => ?_
  exact (h.ordered.contents b (List.mem_append_left _ hb)).symm

/-- A number whose predecessors and which itself brought data has been sent. -/
theorem Settled.sent_of_received (h : Settled s) (hk : ∀ j ≤ k, s.received j ≠ none) :
    k < s.sent.length := by
  refine Nat.lt_of_not_le fun hle => ?_
  rcases h.ordered.known _ (hk _ hle) with hlt | hmem
  · exact Nat.lt_irrefl _ hlt
  · exact h.caughtUp hmem

end

/-- Over TCP, if no post is refused, each receive brings data and no receive overtakes
another across the wrap of `IoOrder`, what comes is echoed in order. -/
theorem echoes_in_post_order {net : Nat → Bool} {n : Nat} {bytes : List UInt8} {s : Socket}
    (h : Via (step .tcp net) (fun s a => DataOnly s a ∧ Unwrapped s a)
      (Socket.accepted net n bytes) s) (hposts : s.refused = 0) : Echoed bytes s := by
  have hgrows := sent_run h
  have h₀ : (Socket.accepted net n bytes).refused = 0 := by
    have hle := hgrows.1
    omega
  have hs : Settled s := settled_run (fun _ _ hok _ => hok.1) (fun _ _ hok => hok.2)
    (fun hr => (settled_accepted hr).1) h hposts
  refine ⟨?_, hs.posted, hs.ordered.sorted, fun k hk => hs.sent_of_received hk⟩
  obtain ⟨l, hl⟩ := (settled_accepted h₀).2.trans hgrows.2
  rw [← hl]
  rfl

/-- Two receives that complete in the other order. -/
theorem echoes_in_post_order_swapped : ∃ s, Via (step .tcp fun _ => true)
    (fun s a => DataOnly s a ∧ Unwrapped s a) (Socket.accepted (fun _ => true) 2 [1]) s ∧
      Echoed [1] s ∧ s.sent.map BufferObj.buf = [[1], [2], [3]] := by
  have hexec : ∃ s, Via (step .tcp fun _ => true) (fun s a => DataOnly s a ∧ Unwrapped s a)
      (Socket.accepted (fun _ => true) 2 [1]) s ∧
      s.refused = 0 ∧ s.sent.map BufferObj.buf = [[1], [2], [3]] :=
    exists_via_of_execIf [.post, .post, .complete 2 [3] 0 false, .complete 1 [2] 0 false]
      (by decide)
  obtain ⟨s, hrun, hposts, hsent⟩ := hexec
  exact ⟨s, hrun, echoes_in_post_order hrun hposts, hsent⟩

/-- Two receives that complete in the other order across the wrap: the data of the older
one have come after all that was posted before, and are not echoed. -/
theorem wrap_stalls_echo : ∃ s, Via (step .tcp fun _ => true) DataOnly
    (Socket.accepted (fun _ => true) 2 [0]) s ∧ s.refused = 0 ∧ ¬ Echoed [0] s := by
  obtain ⟨s, hrun, hposts, hsent, hreceived⟩ := exists_wrapped
  refine ⟨s, hrun, hposts, fun h => ?_⟩
  have hprompt := h.prompt (2 ^ 32 - 1) fun j hj => hreceived j (by omega)
  omega

/-! ## Datagrams -/

/-- Receive `j` has completed, with data or with an error. -/
def Completed (s : Socket) (j : Nat) : Prop := s.received j ≠ none ∨ j ∈ s.failed

/-- The datagram of receive `k` has come, and all receives posted before have completed. -/
def Due (s : Socket) (k : Nat) : Prop := s.received k ≠ none ∧ ∀ j < k, Completed s j

/-- `PostSend` has been called once for receive `k`, with what it brought. -/
def PassedOnce (s : Socket) (k : Nat) : Prop :=
  (numbers s.sent).count k = 1 ∧ ∀ b ∈ s.sent, b.no = k → s.received k = some (b.buf, b.addr)

section
variable {s : Socket} {k : Nat}

theorem Settled.passedOnce_iff (h : Settled s) : PassedOnce s k ↔ k < s.sent.length := by
  rw [PassedOnce, h.ordered.numbers_sent]
  constructor
  · rintro ⟨hcount, -⟩
    refine Multiset.mem_range.mp (Multiset.count_pos.mp ?_)
    rw [hcount]
    exact Nat.one_pos
  · intro hlt
    refine ⟨Multiset.count_eq_one_of_mem (Multiset.nodup_range _) (Multiset.mem_range.mpr hlt), ?_⟩
    rintro b hb rfl
    exact h.ordered.contents b (List.mem_append_left _ hb)

/-- A failed receive is never sent, so nothing behind it is. -/
theorem Settled.sent_le_of_failed (h : Settled s) (hk : k ∈ s.failed) : s.sent.length ≤ k := by
  refine h.ordered.le_of_mem ?_
  rw [add_zero]
  exact Multiset.mem_add.mpr (.inr hk)

end

/-- Over UDP, if no post is refused and no receive overtakes another across the wrap of
`IoOrder`, the datagrams whose turn has come have all been echoed, once, exactly if no
receive has failed before one of them. -/
theorem passed_iff_no_failure {net : Nat → Bool} {n : Nat} {s : Socket}
    (h : Via (step .udp net) Unwrapped (Socket.opened n) s) (hposts : s.refused = 0) :
    (∀ k, Due s k → PassedOnce s k) ↔ ∀ k, Due s k → ∀ j < k, j ∉ s.failed := by
  have hs : Settled s := settled_run (fun _ _ _ htcp => by cases htcp) (fun _ _ hok => hok)
    (fun _ => settled_opened) h hposts
  constructor
  · intro hpassed k hk j hj hfailed
    have hlt := hs.passedOnce_iff.mp (hpassed k hk)
    have hle := hs.sent_le_of_failed hfailed
    omega
  · intro hfailed k hk
    refine hs.passedOnce_iff.mpr (hs.sent_of_received ?_)
    intro j hj
    rcases Nat.lt_or_eq_of_le hj with hlt | rfl
    · exact (hk.2 j hlt).resolve_right (hfailed k hk j hlt)
    · exact hk.1

/-- Two datagrams that come in the other order. -/
theorem passed_iff_no_failure_swapped : ∃ s, Via (step .udp fun _ => true) Unwrapped
    (Socket.opened 2) s ∧ ((∀ k, Due s k → PassedOnce s k) ↔
      ∀ k, Due s k → ∀ j < k, j ∉ s.failed) ∧ s.sent.map BufferObj.buf = [[1], [2]] := by
  have hexec : ∃ s, Via (step .udp fun _ => true) Unwrapped (Socket.opened 2) s ∧
      s.refused = 0 ∧ s.sent.map BufferObj.buf = [[1], [2]] :=
    exists_via_of_execIf [.post, .post, .complete 1 [2] 7 false, .complete 0 [1] 8 false]
      (by decide)
  obtain ⟨s, hrun, hposts, hsent⟩ := hexec
  exact ⟨s, hrun, passed_iff_no_failure hrun hposts, hsent⟩

/-- A receive fails; the datagram of the next one is never echoed. -/
theorem failed_receive_stalls : ∃ s, Via (step .udp fun _ => true) (fun _ _ => True)
    (Socket.opened 1) s ∧ s.refused = 0 ∧ ∃ k, Due s k ∧ ¬ PassedOnce s k := by
  have hexec : ∃ s, Via (step .udp fun _ => true) (fun _ _ => True) (Socket.opened 1) s ∧
      s.refused = 0 ∧ s.received 1 ≠ none ∧ 0 ∈ s.failed ∧ s.sent = [] :=
    exists_via_of_execIf [.post, .complete 0 [] 0 true, .complete 0 [5] 7 false] (by decide)
  obtain ⟨s, hrun, hposts, hreceived, hfailed, hsent⟩ := hexec
  refine ⟨s, hrun, hposts, 1, ⟨hreceived, ?_⟩, ?_⟩
  · intro j hj
    obtain rfl := Nat.lt_one_iff.mp hj
    exact .inr hfailed
  · rintro ⟨hcount, -⟩
    rw [hsent, numbers_nil, Multiset.count_zero] at hcount
    cases hcount

end CppWorkspace.OrderedServer
