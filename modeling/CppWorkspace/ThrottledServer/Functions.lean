/-
# `CppWorkspace.ThrottledServer.Functions` — what the functions of the server keep

A thread begins an event with the buffer of the operation that has completed, the use of
its socket object, and the decrement of its counter; when it ends, it owns nothing.

    PostAccept, PostRecv, PostSend   the buffer goes into flight, and what is owed is paid
    ProcessPendingOperations         the duty is done
    FreeSocketObj, cleanup           the use is given up
    HandleIo                         all of it
-/
import Mathlib.Algebra.Group.Pi.Lemmas
import CppWorkspace.ThrottledServer.Commands

namespace CppWorkspace.ThrottledServer

open Programs Runs LinkedList

/-- The use of a thread that has the object as its key. -/
def inUse (p : SockPtr) (ph : Phase) : Use := ⟨p, true, false, 0, ph⟩

section
variable {cfg : Config} {F : Regime} {t : Nat} {e : Event} {β γ : Type} {r : Res}
  {B : Multiset Hold} {U : Multiset Use} {O : Var → Int} {d : Nat} {p : SockPtr} {x : Hold}
  {u : Use} {σ : Server} {b l h n : Nat} {cs : List Chunk} {ph : Phase}

/-! ## Posting -/

theorem spec_postAccept (hfit : Fits e U) (hx : x.role = .linked l) :
    Spec cfg F t e (PostAccept l x.buf) (x ::ₘ B, U, O, d) fun _ r' => r' = (B, U, O, d) := by
  refine Spec.bind (spec_socket hfit hx) ?_
  rintro v _ (⟨rfl, rfl⟩ | ⟨rfl, h, rfl⟩)
  · exact Spec.cond nofun fun _ => Spec.pure rfl
  · refine Spec.cond (fun _ => ?_) nofun
    refine Spec.bind (spec_acceptEx
      (x := ⟨x.buf, { x.obj with operation := .OP_ACCEPT, sclient := some h }, .accept l h []⟩)
      hfit rfl rfl rfl) ?_
    rintro v _ (⟨rfl, rfl⟩ | ⟨rfl, rfl⟩)
    · exact Spec.cond nofun fun _ => Spec.pure rfl
    · refine Spec.cond (fun _ => ?_) nofun
      refine Spec.mono (spec_incrementAccepts hfit) ?_
      rintro _ _ rfl
      rw [add_sub_cancel_right]

theorem spec_postRecv (hfit : Fits e (inUse p ph ::ₘ U)) (hx : x.role = .seat p true []) :
    Spec cfg F t e (PostRecv p x.buf) (x ::ₘ B, inUse p ph ::ₘ U, O, d) fun _ r' =>
      r' = (B, inUse p ph ::ₘ U, O, d) := by
  refine Spec.bind (spec_enter (u := inUse p ph) hfit rfl) ?_
  rintro _ _ rfl
  refine Spec.bind (spec_wsaRecv (u := { inUse p ph with locked := true })
    (hfit.change rfl rfl) hx) ?_
  rintro v _ (⟨rfl, rfl⟩ | ⟨rfl, rfl⟩)
  · refine Spec.cond nofun fun _ => ?_
    refine Spec.bind (spec_leave (u := { inUse p ph with locked := true }) (hfit.change rfl rfl) rfl
      rfl rfl) ?_
    rintro _ _ rfl
    exact Spec.pure rfl
  · refine Spec.cond (fun _ => ?_) nofun
    refine Spec.bind (spec_incrementRecv ?_) ?_
    · exact hfit.change rfl rfl
    rintro _ _ rfl
    rw [add_sub_cancel_right]
    refine Spec.bind (spec_leave (u := { inUse p ph with locked := true }) (hfit.change rfl rfl) rfl
      rfl rfl) ?_
    rintro _ _ rfl
    exact Spec.pure rfl

theorem spec_postSend (hfit : Fits e U) (hx : x.role = .seat p true [x.obj.chunk]) :
    Spec cfg F t e (PostSend p x.buf) (x ::ₘ B, U, O, d) fun v r' =>
      v = false ∧ F ≠ .quiet ∧
        r' = (⟨x.buf, { x.obj with operation := .OP_WRITE }, x.role⟩ ::ₘ B, U, O, 0) ∨
      v = true ∧ r' = (B, U, O, d) := by
  have hinside : Fits e (⟨p, false, true, 0, .tail⟩ ::ₘ U) := fits_cons.mpr ⟨nofun, hfit⟩
  refine Spec.bind (spec_enterSeat hfit hx) ?_
  rintro _ _ rfl
  refine Spec.bind (spec_wsaSend (u := ⟨p, false, true, 0, .tail⟩) hinside hx) ?_
  rintro v _ (⟨rfl, hquiet, rfl⟩ | ⟨rfl, rfl⟩)
  · refine Spec.cond nofun fun _ => ?_
    refine Spec.bind (spec_leaveSeat (u := ⟨p, false, true, 0, .tail⟩) hinside rfl rfl) ?_
    rintro _ _ rfl
    exact Spec.pure (.inl ⟨rfl, hquiet, rfl⟩)
  · refine Spec.cond (fun _ => ?_) nofun
    refine Spec.bind (spec_incrementSend ?_) ?_
    · exact hinside.change rfl rfl
    rintro _ _ rfl
    rw [add_sub_cancel_right]
    refine Spec.bind (spec_incrementSends hinside) ?_
    rintro _ _ rfl
    rw [add_sub_cancel_right]
    refine Spec.bind (spec_leaveSeat (u := ⟨p, false, true, 0, .tail⟩) hinside rfl rfl) ?_
    rintro _ _ rfl
    exact Spec.pure (.inr ⟨rfl, rfl⟩)

theorem spec_never {post : Unit → Res → Prop} (hfit : Fits e U) :
    Spec cfg F t e (perform .never) (B, U, O, d) post := by
  refine Spec.simple rfl hfit nofun fun σ B' U' O' d' H y σ' v hexec => ?_
  cases y <;> cases hexec

/-- The queue is drained, or `gMaxSends` sends are outstanding, when it returns. -/
theorem spec_processPendingOperations (hfit : Fits e U) (rounds : Nat) :
    Spec cfg F t e (ProcessPendingOperations cfg rounds) (B, U, O, d) fun _ r' =>
      r' = (B, U, O, 0) := by
  induction rounds with
  | zero => exact spec_never hfit
  | succ rounds ih =>
      refine Spec.bind (spec_readSends hfit) ?_
      rintro n _ rfl
      refine Spec.ite (fun hlt => ?_) fun hfull => ?_
      · rw [if_pos hlt]
        refine Spec.bind (spec_dequeue hfit) ?_
        rintro v _ (⟨rfl, rfl⟩ | ⟨b, obj, p, rfl, hsock, rfl⟩)
        · exact Spec.pure rfl
        · refine Spec.bind (spec_sock (x := ⟨b, obj, _⟩) hfit rfl hsock) ?_
          rintro q _ ⟨obj', -, rfl⟩
          refine Spec.bind (spec_postSend (x := ⟨b, obj', _⟩) hfit rfl) ?_
          rintro v _ (⟨rfl, hquiet, rfl⟩ | ⟨rfl, rfl⟩)
          · exact Spec.cond nofun fun _ =>
              spec_freeBufferObj (x := ⟨b, _, _⟩) hfit rfl (absurd · hquiet)
          · exact Spec.cond (fun _ => ih) nofun
      · rw [if_neg hfull]
        exact Spec.pure rfl

/-! ## Releasing -/

theorem World.reuse {U' : Multiset Use} (H : World cfg F σ B U O d) (hs : F.hasSockets = false) :
    World cfg F σ B U' O d := by
  refine ⟨H.accepts, fun hlists => ?_⟩
  obtain ⟨L, hL⟩ := H.listed hlists
  exact ⟨L, hL.buffers, hL.sends, fun h => absurd h (by rw [hs]; exact nofun), hL.quiet,
    hL.drained⟩

theorem spec_sOf (hfit : Fits e (inUse p ph ::ₘ U)) (hph : ph = .dead ∨ ph = .invalid) :
    Spec cfg F t e (perform (.s p)) (B, inUse p ph ::ₘ U, O, d) fun v r' =>
      v = none ∧ r' = (B, inUse p ph ::ₘ U, O, d) ∨
      v ≠ none ∧ r' = (B, inUse p .dead ::ₘ U, O, d) := by
  refine Spec.simple rfl hfit (fun σ q hq => Option.some.inj hq ▸ keeps_use (u := inUse p ph))
    fun σ B' U' O' d' H y σ' v h => ?_
  cases y <;> cases h
  by_cases hnone : (σ.socket p.obj).s = none
  · exact ⟨_, _, _, _, H, .inl ⟨hnone, rfl⟩⟩
  · refine ⟨_, _, _, _, ?_, .inr ⟨hnone, rfl⟩⟩
    rcases hph with rfl | rfl
    · exact H
    · cases hs : F.hasSockets with
      | true =>
          obtain ⟨L, hL⟩ := H.listed (Regime.lists_of_sockets hs)
          have husers := (hL.sockets hs).users
          rw [Multiset.cons_add] at husers
          exact absurd husers.first.phase.1 hnone
      | false => exact H.reuse hs

theorem spec_freeSocketObj (hfit : Fits e (inUse p ph ::ₘ 0)) (hph : ph = .dead ∨ ph = .invalid)
    (hquiet : F ≠ .quiet) :
    Spec cfg F t e (FreeSocketObj p) (B, inUse p ph ::ₘ 0, O, d) fun _ r' => r' = (B, 0, O, d) := by
  refine Spec.bind (spec_sOf hfit hph) ?_
  rintro v _ (⟨rfl, rfl⟩ | ⟨hv, rfl⟩)
  · refine Spec.ite (fun _ => ?_) fun hne => absurd rfl hne
    refine spec_free (u := inUse p ph) hfit ?_ rfl hquiet
    rcases hph with rfl | rfl
    · exact nofun
    · exact nofun
  · refine Spec.ite (fun hnone => absurd hnone hv) fun _ => ?_
    refine Spec.bind (spec_closesocket (u := inUse p .dead) (hfit.change rfl rfl) rfl rfl rfl rfl
      hquiet) ?_
    rintro _ _ rfl
    refine Spec.bind (spec_setInvalid (u := inUse p .closed) (hfit.change rfl rfl) rfl) ?_
    rintro _ _ rfl
    exact spec_free (u := inUse p .invalid) (hfit.change rfl rfl) nofun rfl hquiet

theorem spec_cleanupSocket (hfit : Fits e (inUse p .dead ::ₘ 0)) (hquiet : F ≠ .quiet) :
    Spec cfg F t e (cleanupSocket p) (B, inUse p .dead ::ₘ 0, O, d) fun _ r' =>
      r' = (B, 0, O, d) := by
  refine Spec.bind (spec_closesocket (u := inUse p .dead) hfit rfl rfl rfl rfl hquiet) ?_
  rintro _ _ rfl
  refine Spec.bind (spec_setInvalid (u := inUse p .closed) (hfit.change rfl rfl) rfl) ?_
  rintro _ _ rfl
  exact spec_freeSocketObj (hfit.change rfl rfl) (.inr rfl) hquiet

theorem spec_noneOutstanding (hfit : Fits e U) (hkeep : Keeps B U p) :
    Spec cfg F t e (noneOutstanding p) (B, U, O, d) fun _ r' => r' = (B, U, O, d) := by
  refine Spec.bind (spec_read hfit hkeep (.inr rfl)) ?_
  rintro n _ rfl
  refine Spec.ite (fun _ => ?_) fun _ => Spec.pure rfl
  refine Spec.bind (spec_read hfit hkeep (.inl rfl)) ?_
  rintro m _ rfl
  exact Spec.pure rfl

theorem giveUp {R : Res} (H : (rules cfg F).Inv σ ((B, inUse p ph ::ₘ 0, O, d) + R)) :
    (rules cfg F).Inv σ ((B, 0, O, d) + R) := by
  change World cfg F σ (B + R.1) (inUse p ph ::ₘ 0 + R.2.1) (O + R.2.2.1) (d + R.2.2.2) at H
  change World cfg F σ (B + R.1) (0 + R.2.1) (O + R.2.2.1) (d + R.2.2.2)
  rw [Multiset.cons_add] at H
  exact H.dropUse rfl

/-- The last part of `HandleIo` gives up the use, with or without a release. -/
theorem spec_cleanup {bCleanupSocket : Bool} (hfit : Fits e (inUse p ph ::ₘ 0))
    (hph : ph = .tail ∧ bCleanupSocket = false ∨ ph = .dead ∧ F ≠ .quiet) :
    Spec cfg F t e (cleanup p bCleanupSocket) (B, inUse p ph ::ₘ 0, O, d) fun _ r' =>
      r' = (B, 0, O, d) := by
  have hused : Spec cfg F t e (cleanup p bCleanupSocket) (B, inUse p ph ::ₘ 0, O, d) fun _ r' =>
      r' = (B, 0, O, d) ∨ ∃ ph', r' = (B, inUse p ph' ::ₘ 0, O, d) := by
    refine Spec.bind (spec_noneOutstanding hfit (keeps_use (u := inUse p ph))) ?_
    rintro v _ rfl
    refine Spec.cond (fun _ => ?_) fun _ => ?_
    · rcases hph with ⟨rfl, rfl⟩ | ⟨rfl, hquiet⟩
      · refine Spec.bind (spec_bClosing (u := inUse p .tail) hfit rfl) ?_
        rintro w _ (⟨rfl, rfl⟩ | ⟨rfl, hquiet, rfl⟩)
        · exact Spec.cond nofun fun _ => Spec.pure (.inr ⟨_, rfl⟩)
        · refine Spec.cond (fun _ => ?_) nofun
          exact Spec.mono (spec_cleanupSocket (hfit.change rfl rfl) hquiet) fun _ _ => .inl
      · refine Spec.bind (spec_bClosingRead hfit (keeps_use (u := inUse p .dead))) ?_
        rintro w _ rfl
        refine Spec.cond (fun _ => ?_) fun _ => Spec.pure (.inr ⟨_, rfl⟩)
        exact Spec.mono (spec_cleanupSocket hfit hquiet) fun _ _ => .inl
    · refine Spec.cond (fun hb => ?_) fun _ => Spec.pure (.inr ⟨_, rfl⟩)
      rcases hph with ⟨-, hnot⟩ | ⟨rfl, hquiet⟩
      · rw [hb] at hnot
        cases hnot
      · exact Spec.mono (spec_cleanupSocket hfit hquiet) fun _ _ => .inl
  refine wp_drop hused ?_ (by exact nofun)
  rintro _ _ (rfl | ⟨ph', rfl⟩)
  · exact ⟨_, rfl, fun _ _ H => H⟩
  · exact ⟨_, rfl, fun _ _ => giveUp⟩

/-! ## `HandleIo` -/

theorem fits_zero : Fits e 0 := fun _ hu => absurd hu (Multiset.notMem_zero _)

theorem spec_freeBlank (hfit : Fits e U) (hx : x.role = .blank) :
    Spec cfg F t e (perform (.FreeBufferObj x.buf)) (x ::ₘ B, U, O, d) fun _ r' =>
      r' = (B, U, O, d) :=
  spec_freeBufferObj hfit (by rw [hx]; rfl) fun _ => by rw [hx]; exact Role.spent_blank

theorem spec_freeLast (hfit : Fits e (inUse p ph ::ₘ 0)) (hx : x.role = .blank) :
    Spec cfg F t e (perform (.FreeBufferObj x.buf)) (x ::ₘ 0, inUse p ph ::ₘ 0, 0, 0)
      fun _ r' => r' = 0 := by
  refine wp_drop (spec_freeBlank hfit hx) ?_ (by exact nofun)
  rintro _ _ rfl
  exact ⟨_, rfl, fun _ _ => giveUp⟩

/-- The socket object is freed if the other counter is zero, too. -/
theorem spec_freeIfNone {v : Var} (hfit : Fits e (inUse p .dead ::ₘ 0)) (hx : x.role = .blank)
    (hquiet : F ≠ .quiet) (hv : v = .OutstandingRecv p ∨ v = .OutstandingSend p) :
    Spec cfg F t e (do
      if (← perform (.read v)) = 0 then FreeSocketObj p else pure ()
      perform (.FreeBufferObj x.buf)) (x ::ₘ 0, inUse p .dead ::ₘ 0, 0, 0)
      fun _ r' => r' = 0 := by
  refine Spec.bind (spec_read hfit (keeps_use (u := inUse p .dead)) hv) ?_
  rintro n _ rfl
  refine Spec.ite (fun _ => ?_) fun _ => spec_freeLast hfit hx
  refine Spec.bind (spec_freeSocketObj hfit (.inl rfl) hquiet) ?_
  rintro _ _ rfl
  exact spec_freeBlank fits_zero hx

/-- An error on a connection: the buffer is freed, and perhaps the socket object. -/
theorem spec_handleError (hfit : Fits e (inUse p .dead ::ₘ 0)) (hx : x.role = .blank)
    (hquiet : F ≠ .quiet) :
    Spec cfg F t e (HandleError (.sock p) x.buf)
      (x ::ₘ 0, ⟨p, true, false, Pi.single x.obj.operation (-1), .dead⟩ ::ₘ 0, 0, 0)
      fun _ r' => r' = 0 := by
  refine Spec.bind (spec_operation (fun o =>
    (x ::ₘ 0, ⟨p, true, false, Pi.single o (-1), .dead⟩ ::ₘ 0, 0, 0)) (hfit.change rfl rfl) rfl
    fun _ _ => rfl) ?_
  rintro o _ ⟨-, rfl⟩
  cases o with
  | OP_READ =>
      refine Spec.bind (spec_decrementRecv
        (u := ⟨p, true, false, Pi.single .OP_READ (-1), .dead⟩) (hfit.change rfl rfl)) ?_
      rintro n _ rfl
      rw [sub_self]
      exact Spec.ite (fun _ => spec_freeIfNone hfit hx hquiet (.inr rfl))
        fun _ => spec_freeLast hfit hx
  | OP_WRITE =>
      refine Spec.bind (spec_decrementSend
        (u := ⟨p, true, false, Pi.single .OP_WRITE (-1), .dead⟩) (hfit.change rfl rfl)) ?_
      rintro n _ rfl
      rw [sub_self]
      exact Spec.ite (fun _ => spec_freeIfNone hfit hx hquiet (.inl rfl))
        fun _ => spec_freeLast hfit hx
  | OP_ACCEPT => exact spec_never (hfit.change rfl rfl)

/-- An error on a listener: the client socket is closed, and the buffer is freed. -/
theorem spec_handleAcceptError (hx : x.role = .guest h cs) (hclient : x.obj.sclient = some h)
    (hquiet : F ≠ .quiet) :
    Spec cfg F t e (HandleError (.listen l) x.buf) (x ::ₘ 0, 0, 0, 0) fun _ r' => r' = 0 := by
  refine Spec.bind (spec_operation (fun _ => (x ::ₘ 0, 0, 0, 0)) fits_zero rfl
    fun _ _ => rfl) ?_
  rintro o _ ⟨-, rfl⟩
  cases o with
  | OP_READ => exact spec_never fits_zero
  | OP_WRITE => exact spec_never fits_zero
  | OP_ACCEPT =>
      refine Spec.bind (spec_closeClient fits_zero hx hclient hquiet) ?_
      rintro _ _ rfl
      exact spec_freeBlank (x := ⟨x.buf, { x.obj with sclient := none }, .blank⟩) fits_zero rfl

/-- What a thread holds is left to nobody. -/
theorem leak {R : Res} (H : (rules cfg F).Inv σ ((x ::ₘ B, U, O, d) + R))
    (hx : x.role.list = none) (hspent : F = .quiet → x.role.Spent) :
    (rules cfg F).Inv σ ((B, U, O, d) + R) := by
  change World cfg F σ (x ::ₘ B + R.1) (U + R.2.1) (O + R.2.2.1) (d + R.2.2.2) at H
  rw [Multiset.cons_add] at H
  exact H.dropHold hx hspent

theorem spec_repost (rounds : Nat) :
    Spec cfg F t e (repost cfg l rounds) (0, 0, 0, d) fun _ r' => r' = 0 := by
  refine Spec.bind (spec_incrementRepost fits_zero) ?_
  rintro _ _ rfl
  exact spec_processPendingOperations fits_zero rounds

/-- A connection is made, and what came with the accept is queued. -/
theorem spec_handleAccept {rounds : Nat} (hx : x.role = .accept l h cs)
    (hclient : x.obj.sclient = some h) (hcs : cs = [{ x.obj with buflen := n }.chunk]) :
    Spec cfg F t e (HandleAccept cfg l x.buf n rounds)
      (x ::ₘ 0, 0, -Pi.single (.PendingAcceptCount l) 1, 0) fun _ r' => r' = 0 := by
  refine Spec.bind (spec_decrementAccepts fits_zero) ?_
  rintro _ _ rfl
  have hpaid : -Pi.single (Var.PendingAcceptCount l) 1 -
      Pi.single (Var.PendingAcceptCount l) (-1) = (0 : Var → Int) := by
    rw [Pi.single_neg, sub_neg_eq_add, neg_add_cancel]
  rw [hpaid]
  refine Spec.bind (spec_removePendingAccept fits_zero hx) ?_
  rintro _ _ rfl
  refine Spec.bind (spec_getSocketObj (x := ⟨x.buf, x.obj, .guest h cs⟩) fits_zero rfl hclient) ?_
  rintro v _ (⟨rfl, hquiet, rfl⟩ | ⟨p, rfl, rfl⟩)
  · refine Spec.bind (spec_closeClient (x := ⟨x.buf, x.obj, .guest h cs⟩) fits_zero rfl hclient
      hquiet) ?_
    rintro _ _ rfl
    refine Spec.bind (spec_freeBlank (x := ⟨x.buf, { x.obj with sclient := none }, .blank⟩)
      fits_zero rfl) ?_
    rintro _ _ rfl
    exact spec_repost rounds
  · refine wp_drop (Q := fun _ r' => r' = 0 ∨
      ∃ y : Hold, y.role.list = none ∧ F ≠ .quiet ∧ r' = (y ::ₘ 0, 0, 0, 0)) ?_ ?_ (by exact nofun)
    · refine Spec.bind (spec_setsockopt fits_zero) ?_
      rintro v _ ⟨hfail, rfl⟩
      refine Spec.cond (fun _ => ?_) fun hv => Spec.pure (.inr ⟨_, rfl, hfail hv, rfl⟩)
      refine Spec.bind (spec_createIoCompletionPort (x := ⟨x.buf, x.obj, .seat p false cs⟩)
        fits_zero rfl) ?_
      rintro v _ (⟨rfl, rfl⟩ | ⟨rfl, hquiet, rfl⟩)
      · refine Spec.cond (fun _ => ?_) nofun
        refine Spec.bind (spec_setBuflen (x := ⟨x.buf, x.obj, .seat p true cs⟩) fits_zero) ?_
        rintro _ _ rfl
        refine Spec.bind (spec_setSock
          (x := ⟨x.buf, { x.obj with buflen := n }, .seat p true cs⟩) fits_zero) ?_
        rintro _ _ rfl
        refine Spec.bind (spec_enqueue (p := p)
          (x := ⟨x.buf, { x.obj with buflen := n, sock := some p }, .seat p true cs⟩) fits_zero
          (by rw [hcs]; rfl) rfl) ?_
        rintro _ _ rfl
        exact Spec.mono (spec_repost rounds) fun _ _ => .inl
      · exact Spec.cond nofun fun _ => Spec.pure (.inr ⟨_, rfl, hquiet, rfl⟩)
    · rintro _ _ (rfl | ⟨y, hy, hquiet, rfl⟩)
      · exact ⟨0, rfl, fun _ _ H => H⟩
      · exact ⟨0, rfl, fun _ _ H => leak H hy (absurd · hquiet)⟩

/-- What has come in is queued; without data, the connection is closing. -/
theorem spec_handleRead {rounds : Nat} (hfit : Fits e (inUse p .tail ::ₘ 0))
    (hx : x.role = .seat p true cs) (hcs : 0 < n → cs = [{ x.obj with buflen := n }.chunk])
    (hquiet : n = 0 → F ≠ .quiet) :
    Spec cfg F t e (HandleRead cfg p x.buf n rounds)
      (x ::ₘ 0, ⟨p, true, false, Pi.single .OP_READ (-1), .tail⟩ ::ₘ 0, 0, 0)
      fun _ r' => r' = 0 := by
  refine Spec.bind (spec_decrementRecv
    (u := ⟨p, true, false, Pi.single .OP_READ (-1), .tail⟩) (hfit.change rfl rfl)) ?_
  rintro m _ rfl
  rw [sub_self]
  refine Spec.ite (fun hpos => ?_) fun hzero => ?_
  · refine Spec.bind (spec_setBuflen hfit) ?_
    rintro _ _ rfl
    refine Spec.bind (spec_setSock (p := p)
      (x := ⟨x.buf, { x.obj with buflen := n }, x.role⟩) hfit) ?_
    rintro _ _ rfl
    refine Spec.bind (spec_enqueue (p := p)
      (x := ⟨x.buf, { x.obj with buflen := n, sock := some p }, x.role⟩) hfit
      (by rw [hx, hcs hpos]; rfl) rfl) ?_
    rintro _ _ rfl
    refine Spec.bind (spec_processPendingOperations hfit rounds) ?_
    rintro _ _ rfl
    exact spec_cleanup hfit (.inl ⟨rfl, rfl⟩)
  · have hF := hquiet (Nat.eq_zero_of_not_pos hzero)
    have hdead : Fits e (inUse p .dead ::ₘ 0) := hfit.change rfl rfl
    refine Spec.bind (spec_setClosing (u := inUse p .tail) hfit hx rfl hF) ?_
    rintro _ _ rfl
    refine Spec.bind (spec_freeBlank (x := ⟨x.buf, x.obj, .blank⟩) hdead rfl) ?_
    rintro _ _ rfl
    refine Spec.bind (spec_enter (u := inUse p .dead) hdead rfl) ?_
    rintro _ _ rfl
    refine Spec.bind (spec_noneOutstanding (hfit.change rfl rfl)
      (keeps_use (u := { inUse p .dead with locked := true }))) ?_
    rintro bCleanupSocket _ rfl
    refine Spec.bind (spec_leave (u := { inUse p .dead with locked := true })
      (hfit.change rfl rfl) rfl rfl rfl) ?_
    rintro _ _ rfl
    refine Spec.bind (spec_processPendingOperations hdead rounds) ?_
    rintro _ _ rfl
    exact spec_cleanup hdead (.inr ⟨rfl, hF⟩)

/-- After a send the next receive is posted, if the connection is not closing. -/
theorem spec_handleWrite {rounds : Nat} (hfit : Fits e (inUse p .tail ::ₘ 0))
    (hx : x.role = .seat p true []) :
    Spec cfg F t e (HandleWrite cfg p x.buf rounds)
      (x ::ₘ 0, ⟨p, true, false, Pi.single .OP_WRITE (-1), .tail⟩ ::ₘ 0,
        -Pi.single .gOutstandingSends 1, 0) fun _ r' => r' = 0 := by
  have hpaid : -Pi.single Var.gOutstandingSends 1 -
      Pi.single Var.gOutstandingSends (-1) = (0 : Var → Int) := by
    rw [Pi.single_neg, sub_neg_eq_add, neg_add_cancel]
  refine Spec.bind (spec_decrementSend
    (u := ⟨p, true, false, Pi.single .OP_WRITE (-1), .tail⟩) (hfit.change rfl rfl)) ?_
  rintro m _ rfl
  rw [sub_self]
  refine Spec.bind (spec_decrementSends hfit) ?_
  rintro _ _ rfl
  rw [hpaid]
  refine Spec.bind (spec_setBuflen hfit) ?_
  rintro _ _ rfl
  refine Spec.bind (spec_bClosing (u := inUse p .tail) hfit rfl) ?_
  rintro v _ (⟨rfl, rfl⟩ | ⟨rfl, hquiet, rfl⟩)
  · refine Spec.cond nofun fun _ => ?_
    refine Spec.bind (spec_setSock (p := p)
      (x := ⟨x.buf, { x.obj with buflen := cfg.gBufferSize }, x.role⟩) hfit) ?_
    rintro _ _ rfl
    refine Spec.bind (spec_postRecv
      (x := ⟨x.buf, { x.obj with buflen := cfg.gBufferSize, sock := some p }, x.role⟩) hfit hx) ?_
    rintro _ _ rfl
    refine Spec.bind (spec_processPendingOperations hfit rounds) ?_
    rintro _ _ rfl
    exact spec_cleanup hfit (.inl ⟨rfl, rfl⟩)
  · refine Spec.cond (fun _ => ?_) nofun
    refine wp_drop (Q := fun _ r' => r' =
      (⟨x.buf, { x.obj with buflen := cfg.gBufferSize }, x.role⟩ ::ₘ 0, 0, 0, 0)) ?_ ?_ ?_
    · have hdead : Fits e (inUse p .dead ::ₘ 0) := hfit.change rfl rfl
      refine Spec.bind (spec_processPendingOperations hdead rounds) ?_
      rintro _ _ rfl
      exact spec_cleanup hdead (.inr ⟨rfl, hquiet⟩)
    · rintro _ _ rfl
      exact ⟨0, rfl, fun _ _ H => leak H (by rw [hx]; rfl) (absurd · hquiet)⟩
    · cases rounds <;> exact nofun

/-- What a thread begins with, for an operation of a connection. -/
def begins (b : Nat) (obj : BufferObj) (p : SockPtr) (n : Nat) : Operation → Res
  | .OP_READ =>
      (⟨b, obj, .seat p true (if 0 < n then [{ obj with buflen := n }.chunk] else [])⟩ ::ₘ 0,
      ⟨p, true, false, Pi.single .OP_READ (-1), .tail⟩ ::ₘ 0, 0, 0)
  | .OP_WRITE => (⟨b, obj, .seat p true []⟩ ::ₘ 0,
      ⟨p, true, false, Pi.single .OP_WRITE (-1), .tail⟩ ::ₘ 0, -Pi.single .gOutstandingSends 1, 0)
  | .OP_ACCEPT => 0

theorem begins_accepts (obj : BufferObj) (o : Operation) :
    (begins b obj p n o).2.2.1 (.PendingAcceptCount l) = 0 := by
  cases o with
  | OP_WRITE =>
      change (-Pi.single Var.gOutstandingSends 1 : Var → Int) _ = 0
      rw [Pi.neg_apply, Pi.single_eq_of_ne (by exact nofun), neg_zero]
  | OP_READ => rfl
  | OP_ACCEPT => rfl

theorem spec_handleIo {obj : BufferObj} {rounds : Nat} (hfit : Fits e (inUse p .tail ::ₘ 0))
    (hoperation : obj.operation ≠ .OP_ACCEPT)
    (hquiet : obj.operation = .OP_READ → n = 0 → F ≠ .quiet) :
    Spec cfg F t e (HandleIo cfg (.sock p) b n false rounds) (begins b obj p n obj.operation)
      fun _ r' => r' = 0 := by
  have hread : Spec cfg F t e (perform (.operation b)) (begins b obj p n obj.operation)
      fun o r' => (F.hasLists = true → o = obj.operation) ∧ r' = begins b obj p n o := by
    cases ho : obj.operation with
    | OP_ACCEPT => exact absurd ho hoperation
    | OP_READ =>
        refine Spec.mono (spec_operation (begins b obj p n) (x := ⟨b, obj, _⟩)
          (hfit.change rfl rfl) (by rw [ho]; rfl) fun o l => begins_accepts obj o) ?_
        rintro o r' ⟨hsame, hr'⟩
        exact ⟨fun hlists => (hsame hlists).trans ho, hr'⟩
    | OP_WRITE =>
        refine Spec.mono (spec_operation (begins b obj p n) (x := ⟨b, obj, _⟩)
          (hfit.change rfl rfl) (by rw [ho]; rfl) fun o l => (begins_accepts obj o).trans
            (begins_accepts (b := b) obj (p := p) (n := n) .OP_WRITE).symm) ?_
        rintro o r' ⟨hsame, hr'⟩
        exact ⟨fun hlists => (hsame hlists).trans ho, hr'⟩
  refine Spec.bind hread ?_
  rintro o _ ⟨ho, rfl⟩
  cases o with
  | OP_ACCEPT => exact spec_never fits_zero
  | OP_READ =>
      refine spec_handleRead (x := ⟨b, obj, _⟩) hfit rfl (fun hpos => if_pos hpos) ?_
      rintro hzero rfl
      exact hquiet (ho rfl).symm hzero rfl
  | OP_WRITE => exact spec_handleWrite (x := ⟨b, obj, _⟩) hfit rfl

theorem spec_handleIoAccept {rounds : Nat} (hx : x.role = .accept l h cs)
    (hclient : x.obj.sclient = some h) (hcs : cs = [{ x.obj with buflen := n }.chunk]) :
    Spec cfg F t e (HandleIo cfg (.listen l) x.buf n false rounds)
      (x ::ₘ 0, 0, -Pi.single (.PendingAcceptCount l) 1, 0) fun _ r' => r' = 0 := by
  refine Spec.bind (spec_operation (fun _ => (x ::ₘ 0, 0, -Pi.single (.PendingAcceptCount l) 1, 0))
    fits_zero rfl fun _ _ => rfl) ?_
  rintro o _ ⟨-, rfl⟩
  cases o with
  | OP_ACCEPT => exact spec_handleAccept hx hclient hcs
  | OP_READ => exact spec_never fits_zero
  | OP_WRITE => exact spec_never fits_zero

/-! ## Posting accepts -/

theorem spec_postInitialAccepts (n : Nat) :
    Spec cfg F t e (postInitialAccepts l n) (0, 0, 0, 0) fun _ r' => r' = 0 := by
  induction n with
  | zero => exact Spec.pure rfl
  | succ n ih =>
      refine Spec.bind (spec_getBufferObj fits_zero) ?_
      rintro v _ (⟨rfl, rfl⟩ | ⟨b, obj, rfl, rfl⟩)
      · exact Spec.pure rfl
      · refine Spec.bind (spec_insertPendingAccept (x := ⟨b, obj, .blank⟩) fits_zero rfl) ?_
        rintro _ _ rfl
        refine Spec.bind (spec_postAccept (x := ⟨b, obj, .linked l⟩) fits_zero rfl) ?_
        rintro _ _ rfl
        exact ih

theorem spec_postAccepts (n : Nat) :
    Spec cfg F t e (postAccepts cfg l n) (0, 0, 0, 0) fun _ r' => r' = 0 := by
  induction n with
  | zero => exact Spec.pure rfl
  | succ n ih =>
      refine Spec.bind (spec_readCount fits_zero) ?_
      rintro m _ rfl
      refine Spec.ite (fun _ => ?_) fun _ => Spec.pure rfl
      refine Spec.bind (spec_getBufferObj fits_zero) ?_
      rintro v _ (⟨rfl, rfl⟩ | ⟨b, obj, rfl, rfl⟩)
      · exact ih
      · refine Spec.bind (spec_insertPendingAccept (x := ⟨b, obj, .blank⟩) fits_zero rfl) ?_
        rintro _ _ rfl
        refine Spec.bind (spec_postAccept (x := ⟨b, obj, .linked l⟩) fits_zero rfl) ?_
        rintro _ _ rfl
        exact ih

end

end CppWorkspace.ThrottledServer
