/-
# `CppWorkspace.OrderedServer.Settled` — what one call of `HandleIo` keeps

`DoSends` is called after every insertion, after every completed send and at the end of
`HandleIo`, so between two calls nothing waits that could be sent (`Settled`), as long
as no post is refused and stamps stay in the order of the numbers (`Unwrapped`).

* `Settled.leave`, `Settled.receiveCompleted`, ...   the parts of `HandleIo`
* `Settled.step`                                     one action
* `settled_run`                                      a run in which nothing was refused
-/
import CppWorkspace.OrderedServer.Order

namespace CppWorkspace.OrderedServer

open Runs Stamps

/-- The receives that complete bring data. -/
def DataOnly (s : Socket) : Action → Prop
  | .post => True
  | .complete i bytes _ error =>
      ∀ buf ∈ s.inFlight[i]?, buf.operation = .opRead → error = false ∧ bytes ≠ []

/-- A receive that brings data is less than `2^32` numbers ahead, and if it is the next
one to be sent, nothing that waits has a smaller stamp. -/
def Unwrapped (s : Socket) : Action → Prop
  | .post => True
  | .complete i _ _ error =>
      ∀ buf ∈ s.inFlight[i]?, buf.operation = .opRead → error = false →
        buf.no < s.sent.length + 2 ^ 32 ∧
          (buf.no = s.sent.length → ∀ b ∈ s.OutOfOrderSends, buf.IoOrder ≤ b.IoOrder)

instance (s : Socket) : (a : Action) → Decidable (DataOnly s a)
  | .post => .isTrue trivial
  | .complete i bytes _ error =>
      inferInstanceAs (Decidable (∀ buf ∈ s.inFlight[i]?, buf.operation = .opRead →
        error = false ∧ bytes ≠ []))

instance (s : Socket) : (a : Action) → Decidable (Unwrapped s a)
  | .post => .isTrue trivial
  | .complete i _ _ error =>
      inferInstanceAs (Decidable (∀ buf ∈ s.inFlight[i]?, buf.operation = .opRead →
        error = false → buf.no < s.sent.length + 2 ^ 32 ∧
          (buf.no = s.sent.length → ∀ b ∈ s.OutOfOrderSends, buf.IoOrder ≤ b.IoOrder)))

/-! ## Between two calls -/

/-- Every number is in one place, and the next one does not wait. -/
structure Settled (s : Socket) : Prop where
  ordered : Ordered 0 s
  caughtUp : CaughtUp s

namespace Settled

open Socket

variable {gProtocol : Protocol} {net : Nat → Bool} {s t : Socket} {buf : BufferObj}

/-- Counters, flags and the record of what was freed do not matter. -/
theorem same (h : Settled s)
    (hlast : t.LastSendIssued = s.LastSendIssued) (hnext : t.IoCountIssued = s.IoCountIssued)
    (hissued : t.issued = s.issued) (hwaiting : t.OutOfOrderSends = s.OutOfOrderSends)
    (hsent : t.sent = s.sent) (hreceived : t.received = s.received)
    (hflight : t.inFlight = s.inFlight) (hfailed : t.failed = s.failed) : Settled t where
  ordered := h.ordered.same hlast hnext hissued hwaiting hsent hreceived hflight hfailed
  caughtUp := by
    rw [CaughtUp, hsent, hwaiting]
    exact h.caughtUp

theorem freeSocketObj (h : Settled s) : Settled s.freeSocketObj := by
  rw [Socket.freeSocketObj]
  split
  · exact h
  · exact h.same rfl rfl rfl rfl rfl rfl rfl rfl

theorem closesocket (h : Settled s) : Settled s.closesocket :=
  h.same rfl rfl rfl rfl rfl rfl rfl rfl

theorem doSends (h : Settled s) (hr : (doSends net s).2.refused = s.refused) :
    Settled (doSends net s).2 := by
  obtain ⟨-, hordered, hcaught⟩ := h.ordered.doSends hr
  exact ⟨hordered, hcaught (.inl h.caughtUp)⟩

end Settled
/-! ## One call of `HandleIo` -/

namespace Socket

section
variable {gProtocol : Protocol} {net : Nat → Bool} {s : Socket} {buf : BufferObj}
  {bytes : List UInt8} {sender : Nat} {error : Bool} {r : Bool × Bool × Socket}

@[simp] theorem refused_freeSocketObj : s.freeSocketObj.refused = s.refused := by
  rw [freeSocketObj]
  split <;> rfl

@[simp] theorem sent_freeSocketObj : s.freeSocketObj.sent = s.sent := by
  rw [freeSocketObj]
  split <;> rfl

@[simp] theorem refused_closesocket : s.closesocket.refused = s.refused := rfl

theorem grows_freeSocketObj : Grows s s.freeSocketObj :=
  ⟨Nat.le_of_eq refused_freeSocketObj.symm, sent_freeSocketObj ▸ List.prefix_rfl⟩

theorem grows_cleanup : Grows s s.closesocket.freeSocketObj :=
  grows_freeSocketObj (s := s.closesocket)

@[simp] theorem refused_abandon : s.abandon.refused = s.refused := by
  rw [abandon]
  split
  · rw [refused_freeSocketObj, refused_closesocket]
  · rfl

theorem grows_abandon : Grows s s.abandon := by
  rw [abandon]
  split
  · exact grows_cleanup
  · exact .refl s

theorem grows_doSends : Grows s (doSends net s).2 := grows_doSendsFrom _

theorem caughtUp_postRecv (h : CaughtUp s) : CaughtUp (postRecv net buf s).2 := by
  rw [postRecv]
  rcases issue_cases net
    { buf with operation := .opRead, IoOrder := s.IoCountIssued, no := s.issued }
    { s with IoCountIssued := s.IoCountIssued + 1, issued := s.issued + 1 } with h' | h' <;> rw [h']
  · exact h
  · exact h

theorem grows_leave : Grows r.2.2 (leave net r) := by
  rw [leave]
  dsimp only
  split
  · exact grows_cleanup (s := { r.2.2 with
      bClosing := r.1 || r.2.2.bClosing
      OutstandingOps := r.2.2.OutstandingOps - 1 })
  · have hsends : Grows _ (doSends net _).2 := grows_doSends (s := { r.2.2 with
      bClosing := r.1 || r.2.2.bClosing
      OutstandingOps := r.2.2.OutstandingOps - 1 })
    split
    · exact Grows.trans hsends grows_cleanup
    · exact hsends

/-- The data of a receive have been recorded and wait. -/
def arrived (gProtocol : Protocol) (buf : BufferObj) (bytes : List UInt8) (sender : Nat)
    (s : Socket) : Socket :=
  insertPendingSend (echoOf gProtocol buf bytes sender) { s with
    received := fun k =>
      if k = buf.no then
        some ((echoOf gProtocol buf bytes sender).buf, (echoOf gProtocol buf bytes sender).addr)
      else s.received k }

/-- The ways a receive with data can go: a send is refused, or the new receive is
posted, or refused. -/
theorem receiveCompleted_cases (gProtocol : Protocol) (net : Nat → Bool) (buf : BufferObj)
    (bytes : List UInt8) (sender : Nat) (s : Socket) :
    let d := doSends net (arrived gProtocol buf bytes sender s)
    let p := postRecv net buf d.2
    let r := receiveCompleted gProtocol net buf bytes sender s
    d.1 = false ∧ r.2.2 = d.2 ∨ d.1 = true ∧ p.1 = true ∧ r.2.2 = p.2 ∨
      d.1 = true ∧ p.1 = false ∧ r.2.2 = freeBufferObj buf p.2 := by
  intro d p r
  have hr : r = receiveCompleted gProtocol net buf bytes sender s := rfl
  rw [receiveCompleted] at hr
  split at hr
  next u hu =>
    have hd : d = (false, u) := hu
    exact .inl ⟨congrArg Prod.fst hd, by rw [hr, hd]⟩
  next u hu =>
    have hd : d = (true, u) := hu
    have hp : p = postRecv net buf u := by rw [show p = postRecv net buf d.2 from rfl, hd]
    split at hr
    next v hv => exact .inr (.inl ⟨congrArg Prod.fst hd, by rw [hp, hv], by rw [hr, hp, hv]⟩)
    next v hv => exact .inr (.inr ⟨congrArg Prod.fst hd, by rw [hp, hv], by rw [hr, hp, hv]⟩)

theorem grows_receiveCompleted :
    Grows s (receiveCompleted gProtocol net buf bytes sender s).2.2 := by
  have hsends : Grows _ (doSends net _).2 :=
    grows_doSends (s := arrived gProtocol buf bytes sender s)
  have hrecv : Grows _ (postRecv net buf _).2 := grows_postRecv
    (s := (doSends net (arrived gProtocol buf bytes sender s)).2)
  rcases receiveCompleted_cases gProtocol net buf bytes sender s with
    ⟨-, h⟩ | ⟨-, -, h⟩ | ⟨-, -, h⟩ <;> rw [h]
  · exact hsends
  · exact Grows.trans hsends hrecv
  · exact Grows.trans hsends hrecv

theorem grows_receiveFailed : Grows s (receiveFailed net buf s).2.2 :=
  grows_postRecv (s := { s with failed := buf.no :: s.failed })

theorem grows_receiveEnded : Grows s (receiveEnded net buf s).2.2 :=
  grows_doSends (s := freeBufferObj buf { s with bClosing := true })

theorem grows_sendCompleted : Grows s (sendCompleted net buf error s).2.2 :=
  grows_doSends (s := freeBufferObj buf s)

theorem grows_handleIo : Grows s (handleIo gProtocol net buf bytes sender error s) := by
  rw [handleIo]
  split
  · dsimp only
    split
    · exact grows_freeSocketObj (s := freeBufferObj buf { s with
        OutstandingOps := s.OutstandingOps - 1 })
    · exact .refl s
  · split
    · split
      · exact grows_receiveFailed.trans grows_leave
      · split
        · exact grows_receiveCompleted.trans grows_leave
        · exact grows_receiveEnded.trans grows_leave
    · exact grows_sendCompleted.trans grows_leave

end

end Socket

namespace Settled

open Socket

variable {gProtocol : Protocol} {net : Nat → Bool} {s t : Socket} {buf : BufferObj}
  {bytes : List UInt8} {sender : Nat} {error : Bool} {r : Bool × Bool × Socket}

theorem leave (h : Settled r.2.2) (hr : (leave net r).refused = r.2.2.refused) :
    Settled (leave net r) := by
  have hcounted : Settled { r.2.2 with
      bClosing := r.1 || r.2.2.bClosing
      OutstandingOps := r.2.2.OutstandingOps - 1 } := h.same rfl rfl rfl rfl rfl rfl rfl rfl
  rw [Socket.leave] at hr ⊢
  dsimp only at hr ⊢
  split
  · exact hcounted.closesocket.freeSocketObj
  · rename_i hnot
    rw [if_neg hnot] at hr
    have hsends := fun hr => hcounted.doSends (s := _) (hr : (Socket.doSends net _).2.refused = _)
    split
    · rename_i hclean
      rw [if_pos hclean, refused_freeSocketObj, refused_closesocket] at hr
      exact (hsends hr).closesocket.freeSocketObj
    · rename_i hclean
      rw [if_neg hclean] at hr
      exact hsends hr

/-- A receive has brought data: they wait, are sent if it is their turn, and the
receive is posted again. -/
theorem receiveCompleted (h : Ordered {buf.no} s) (hcaught : CaughtUp s)
    (hbuf : buf.IoOrder = UInt32.ofNat buf.no) (hnear : buf.no < s.sent.length + 2 ^ 32)
    (hfirst : buf.no = s.sent.length → ∀ b ∈ s.OutOfOrderSends, buf.IoOrder ≤ b.IoOrder)
    (hr : (receiveCompleted gProtocol net buf bytes sender s).2.2.refused = s.refused) :
    Settled (receiveCompleted gProtocol net buf bytes sender s).2.2 := by
  have hinserted : Ordered 0 (arrived gProtocol buf bytes sender s) :=
    h.insertPendingSend (b := echoOf gProtocol buf bytes sender)
      hbuf hnear rfl rfl rfl rfl rfl rfl rfl fun _ => rfl
  have hnext : NextFirst (arrived gProtocol buf bytes sender s) :=
    hinserted.nextFirst_insert hcaught (b := echoOf gProtocol buf bytes sender) rfl rfl hfirst
  have hgrows : Grows _ (Socket.doSends net _).2 :=
    grows_doSends (s := arrived gProtocol buf bytes sender s)
  have hgrows' : Grows _ (Socket.postRecv net buf _).2 := grows_postRecv
    (s := (Socket.doSends net (arrived gProtocol buf bytes sender s)).2)
  have hsends := fun hr => hinserted.doSends (hr : (Socket.doSends net _).2.refused = _)
  rcases receiveCompleted_cases gProtocol net buf bytes sender s with
    ⟨hfail, heq⟩ | ⟨-, -, heq⟩ | ⟨-, hfail, heq⟩ <;> rw [heq] at hr ⊢
  · exact absurd (hfail.symm.trans (hsends hr).1) Bool.false_ne_true
  · obtain ⟨hsent, hrecv⟩ := hgrows.between hgrows' hr
    obtain ⟨-, hordered, hcaught'⟩ := hsends hsent
    exact ⟨(hordered.postRecv hrecv).2, caughtUp_postRecv (hcaught' hnext)⟩
  · obtain ⟨hsent, hrecv⟩ := hgrows.between hgrows' hr
    obtain ⟨-, hordered, -⟩ := hsends hsent
    have hposted := (hordered.postRecv hrecv).1
    exact absurd (hfail.symm.trans hposted) Bool.false_ne_true

theorem takeRead (h : Settled s) {i : Nat} (hi : s.inFlight[i]? = some buf)
    (hbuf : buf.operation = .opRead) :
    Ordered {buf.no} { s with inFlight := s.inFlight.eraseIdx i } := by
  have hperm := reads_eraseIdx_read hi hbuf
  refine h.ordered.congr rfl rfl rfl rfl rfl rfl ?_ ?_
  · intro b hb
    exact h.ordered.posted b (hperm.mem_iff.mpr (List.mem_cons_of_mem buf hb))
  · rw [numbers_perm hperm, numbers_cons, ← Multiset.singleton_add]
    dsimp only
    rw [add_zero]
    ac_rfl

theorem takeWrite (h : Settled s) {i : Nat} (hi : s.inFlight[i]? = some buf)
    (hbuf : buf.operation = .opWrite) :
    Settled { s with inFlight := s.inFlight.eraseIdx i } := by
  have hperm := reads_eraseIdx_write hi hbuf
  refine ⟨h.ordered.congr rfl rfl rfl rfl rfl rfl ?_ ?_, h.caughtUp⟩
  · intro b hb
    exact h.ordered.posted b (hperm.mem_iff.mpr hb)
  · rw [numbers_perm hperm]

theorem receiveFailed (h : Ordered {buf.no} s) (hcaught : CaughtUp s)
    (hr : (receiveFailed net buf s).2.2.refused = s.refused) :
    Settled (receiveFailed net buf s).2.2 := by
  have hfailed : Ordered 0 { s with failed := buf.no :: s.failed } := by
    refine h.congr rfl rfl rfl rfl rfl rfl h.posted ?_
    dsimp only
    rw [← Multiset.cons_coe, ← Multiset.singleton_add, add_zero]
    ac_rfl
  have hposted := (hfailed.postRecv (b := buf) hr).2
  exact ⟨hposted, caughtUp_postRecv hcaught⟩

theorem handleIo (h : Settled s) {i : Nat} (hi : s.inFlight[i]? = some buf)
    (hdata : gProtocol = .tcp → DataOnly s (.complete i bytes sender error))
    (hwrap : Unwrapped s (.complete i bytes sender error))
    (hr : (handleIo gProtocol net buf bytes sender error
      { s with inFlight := s.inFlight.eraseIdx i }).refused = s.refused) :
    Settled (handleIo gProtocol net buf bytes sender error
      { s with inFlight := s.inFlight.eraseIdx i }) := by
  have hread : buf.operation = .opRead → gProtocol = .tcp → error = false ∧ bytes ≠ [] :=
    fun hbuf htcp => hdata htcp buf hi hbuf
  rw [Socket.handleIo] at hr ⊢
  split
  · rename_i herror
    have hwrite : buf.operation = .opWrite := by
      cases hbuf : buf.operation with
      | opRead =>
          have hfalse := (hread hbuf herror.2).1
          rw [herror.1] at hfalse
          cases hfalse
      | opWrite => rfl
    have htaken := h.takeWrite hi hwrite
    dsimp only
    split
    · exact Settled.freeSocketObj (htaken.same rfl rfl rfl rfl rfl rfl rfl rfl)
    · exact htaken.same rfl rfl rfl rfl rfl rfl rfl rfl
  · rename_i hnot
    rw [if_neg hnot] at hr
    cases hbuf : buf.operation with
    | opRead =>
        rw [hbuf] at hr
        dsimp only at hr ⊢
        have htaken := h.takeRead hi hbuf
        split
        · rename_i herror
          rw [if_pos herror] at hr
          obtain ⟨hfailed, hleave⟩ := (grows_receiveFailed (s := { s with
            inFlight := s.inFlight.eraseIdx i })).between grows_leave hr
          exact (receiveFailed htaken h.caughtUp hfailed).leave hleave
        · rename_i herror
          rw [if_neg herror] at hr
          have hok : error = false := Bool.eq_false_iff.mpr herror
          have hbytes : bytes ≠ [] ∨ gProtocol = .udp := by
            cases hp : gProtocol with
            | tcp => exact .inl (hread hbuf hp).2
            | udp => exact .inr rfl
          rw [if_pos hbytes] at hr ⊢
          obtain ⟨hnear, hfirst⟩ := hwrap buf hi hbuf hok
          have hstamp : buf.IoOrder = UInt32.ofNat buf.no := h.ordered.posted buf
            ((reads_eraseIdx_read hi hbuf).mem_iff.mpr List.mem_cons_self)
          obtain ⟨hcompleted, hleave⟩ := (grows_receiveCompleted (s := { s with
            inFlight := s.inFlight.eraseIdx i })).between grows_leave hr
          exact (receiveCompleted htaken h.caughtUp hstamp hnear hfirst hcompleted).leave hleave
    | opWrite =>
        rw [hbuf] at hr
        dsimp only at hr ⊢
        have hfreed : Settled (freeBufferObj buf { s with inFlight := s.inFlight.eraseIdx i }) :=
          (h.takeWrite hi hbuf).same rfl rfl rfl rfl rfl rfl rfl rfl
        obtain ⟨hcompleted, hleave⟩ := (grows_sendCompleted (s := { s with
          inFlight := s.inFlight.eraseIdx i })).between grows_leave hr
        exact Settled.leave (r := sendCompleted net buf error _) (hfreed.doSends hcompleted) hleave

end Settled

/-! ## Runs -/

section
variable {gProtocol : Protocol} {net : Nat → Bool} {s t : Socket} {a : Action} {n : Nat}
  {bytes : List UInt8}

theorem grows_postNext : Grows s (s.postNext gProtocol net) := by
  have hgrows : Grows _ (Socket.postRecv net getBufferObj _).2 := Socket.grows_postRecv
    (s := { s with toPost := s.toPost - 1 })
  rw [Socket.postNext]
  split
  · rename_i t ht
    rw [ht] at hgrows
    exact hgrows
  · rename_i t ht
    rw [ht] at hgrows
    split
    · exact Grows.trans hgrows
        (Socket.grows_abandon (s := Socket.freeBufferObj getBufferObj { t with toPost := 0 }))
    · exact hgrows

theorem grows_step (h : step gProtocol net s a = some t) : Grows s t := by
  cases a with
  | post =>
      obtain ⟨-, ht⟩ := Option.ite_none_left_eq_some.mp h
      exact Option.some.inj ht ▸ grows_postNext
  | complete i bytes sender error =>
      obtain ⟨buf, -, rfl⟩ := Option.map_eq_some_iff.mp h
      exact Socket.grows_handleIo (s := { s with inFlight := s.inFlight.eraseIdx i })

theorem Settled.postNext (h : Settled s)
    (hr : (s.postNext gProtocol net).refused = s.refused) : Settled (s.postNext gProtocol net) := by
  have htaken : Settled { s with toPost := s.toPost - 1 } := h.same rfl rfl rfl rfl rfl rfl rfl rfl
  have hrecv := fun hr =>
    htaken.ordered.postRecv (hr : (Socket.postRecv net getBufferObj _).2.refused = _)
  have hcaught : CaughtUp (Socket.postRecv net getBufferObj _).2 :=
    Socket.caughtUp_postRecv htaken.caughtUp
  rw [Socket.postNext] at hr ⊢
  split
  · rename_i t ht
    rw [ht] at hr hrecv hcaught
    exact ⟨(hrecv hr).2, hcaught⟩
  · rename_i t ht
    rw [ht] at hr hrecv
    have hrefused : t.refused = s.refused := by
      cases gProtocol with
      | tcp =>
          dsimp only at hr
          rwa [Socket.refused_abandon] at hr
      | udp => exact hr
    exact absurd (hrecv hrefused).1 Bool.false_ne_true

theorem Settled.step (h : Settled s) (hdata : gProtocol = .tcp → DataOnly s a)
    (hwrap : Unwrapped s a) (hs : step gProtocol net s a = some t) (hr : t.refused = s.refused) :
    Settled t := by
  cases a with
  | post =>
      obtain ⟨-, ht⟩ := Option.ite_none_left_eq_some.mp hs
      obtain rfl := Option.some.inj ht
      exact h.postNext hr
  | complete i bytes sender error =>
      obtain ⟨buf, hi, rfl⟩ := Option.map_eq_some_iff.mp hs
      exact h.handleIo hi hdata hwrap hr

/-- The run of the accept handler starts with the data of the accept. -/
theorem settled_accepted (hr : (Socket.accepted net n bytes).refused = 0) :
    Settled (Socket.accepted net n bytes) ∧
      [{ getBufferObj with buf := bytes }] <+: (Socket.accepted net n bytes).sent := by
  rw [Socket.accepted] at hr ⊢
  dsimp only at hr ⊢
  split
  · rename_i t ht
    obtain rfl := Socket.postSend_true ht
    refine ⟨⟨⟨rfl, rfl, ?_, ?_, rfl, rfl, ?_, .nil, ?_, ?_⟩, ?_⟩, List.prefix_rfl⟩
    · intro b hb
      cases hb
    · intro b hb
      cases hb
    · intro b hb
      cases hb
    · intro b hb
      obtain rfl := List.mem_singleton.mp hb
      rfl
    · intro k hk
      dsimp only at hk
      split at hk
      · rename_i hk0
        exact .inl (hk0 ▸ Nat.one_pos)
      · exact absurd rfl hk
    · exact Multiset.notMem_zero _
  · rename_i t ht
    rw [ht] at hr
    have hrefused := Socket.postSend_false ht
    rw [Socket.refused_abandon] at hr
    exact absurd (hrefused.symm.trans hr) (Nat.succ_ne_zero _)

theorem settled_opened : Settled (Socket.opened n) where
  ordered := {
    lastSend := rfl
    next := rfl
    posted := fun _ hb => by cases hb
    stamped := fun _ hb => by cases hb
    order := rfl
    places := rfl
    window := fun _ hb => by cases hb
    sorted := .nil
    contents := fun _ hb => by cases hb
    known := fun _ hk => absurd rfl hk }
  caughtUp := Multiset.notMem_zero _

theorem settled_run {s₀ : Socket} {ok : Socket → Action → Prop}
    (hdata : ∀ s a, ok s a → gProtocol = .tcp → DataOnly s a)
    (hwrap : ∀ s a, ok s a → Unwrapped s a) (h₀ : s₀.refused = 0 → Settled s₀)
    (h : Via (step gProtocol net) ok s₀ s) (hr : s.refused = 0) : Settled s := by
  refine h.invariant (P := fun s => s.refused = 0 → Settled s) h₀ ?_ hr
  intro t a u ht hok hs hu
  have hle := (grows_step hs).1
  have htr : t.refused = 0 := by omega
  exact (ht htr).step (hdata t a hok) (hwrap t a hok) hs (hu.trans htr.symm)

theorem sent_run {s₀ : Socket} {ok : Socket → Action → Prop}
    (h : Via (step gProtocol net) ok s₀ s) : Grows s₀ s := by
  refine h.invariant (P := Grows s₀) (.refl s₀) ?_
  intro t a u ht _ hs
  exact ht.trans (grows_step hs)

end

end CppWorkspace.OrderedServer
