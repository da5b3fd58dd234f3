/-
# `CppWorkspace.ThrottledServer.Commands` — what commands do to what a thread owns

Each command is proved once, for a thread that owns some buffers, uses, debts and
duties, and afterwards others:

    Spec p r post       `post v r'` holds of the reply `v` of `p` and of `r'`

A command asks for what it needs: to touch a socket object a thread uses it, or holds the
buffer of its connection (`Keeps`); to release one it is the only user.  The conditions of
a `Regime` on the choices of the system are in `rules`.
-/
import Mathlib.Algebra.Group.Prod
import CppWorkspace.ThrottledServer.Operations

namespace CppWorkspace.ThrottledServer

open Programs Runs LinkedList

/-! ## The rules -/

/-- What a thread owns: buffers, uses, what it owes, and its duties. -/
abbrev Res := Multiset Hold × Multiset Use × (Var → Int) × Nat

/-- The key of the operation that an event completes. -/
def Event.key : Event → Option Key
  | .completion op _ _ _ => some op.key
  | _ => none

/-- A thread is only inside `HandleIo` with the object that is its key. -/
def Fits (e : Event) (U : Multiset Use) : Prop :=
  ∀ u ∈ U, u.inside = true → e.key = some (.sock u.sock)

/-- The connection whose socket object a command reads or writes. -/
def Server.touched (σ : Server) : Cmd → Option SockPtr
  | .read v | .InterlockedIncrement v | .InterlockedDecrement v =>
      match v with
      | .OutstandingRecv p | .OutstandingSend p => some p
      | _ => none
  | .EnqueuePendingOperation b => (σ.buffer b).sock
  | .DequeuePendingOperation => σ.gPendingSendList.bind fun b => (σ.buffer b).sock
  | .FreeSocketObj p | .s p | .bClosing p | .setInvalid p | .setClosing p
  | .EnterCriticalSection p | .LeaveCriticalSection p | .CreateIoCompletionPort p | .WSARecv p _
  | .WSASend p _ | .closesocket p => some p
  | _ => none

/-- The connection whose socket is closed or whose object is freed. -/
def Cmd.releases : Cmd → Option SockPtr
  | .closesocket p | .FreeSocketObj p => some p
  | _ => none

/-- How often a socket object is used. -/
def users (p : SockPtr) (U : Multiset Use) : Nat := U.countP fun u => u.sock = p

theorem users_cons {u : Use} {U : Multiset Use} : users u.sock (u ::ₘ U) = users u.sock U + 1 :=
  Multiset.countP_cons_of_pos (p := fun v : Use => v.sock = u.sock) U rfl

theorem users_add {p : SockPtr} {U U' : Multiset Use} :
    users p (U + U') = users p U + users p U' :=
  Multiset.countP_add _ _ _

theorem users_pos {u : Use} {U : Multiset Use} (h : u ∈ U) : 0 < users u.sock U :=
  Multiset.countP_pos.mpr ⟨u, h, rfl⟩

/-- The calls that set up a connection, and those that post on it. -/
def Cmd.serves : Cmd → Bool
  | .GetSocketObj _ | .setsockopt _ | .CreateIoCompletionPort _ | .WSARecv _ _
  | .WSASend _ _ => true
  | _ => false

/-- What a regime asks of the system: if what is queued is to be posted, no send is refused
while another one waits; and if nothing is to be lost, nothing fails. -/
def Permits (F : Regime) (σ : Server) (c : Cmd) (x : Choice) : Prop :=
  (F = .drain → ∀ p b, c = .WSASend p b → x = .fail → σ.gPendingSendList = none) ∧
    (F = .quiet → c.serves = true → x = .ok)

/-- Only the last user may release a socket object. -/
def rules (cfg : Config) (F : Regime) :
    Logic Server Cmd Cmd.Reply Choice Event Unit Res where
  toSystem := system cfg
  Inv σ R := World cfg F σ R.1 R.2.1 R.2.2.1 R.2.2.2
  Pre _ e c σ r := Fits e r.2.1 ∧
    (F.hasSockets = true → ∀ p, σ.touched c = some p → σ.live p) ∧
    ∀ p, c.releases = some p → F ≠ .quiet ∧ users p r.2.1 = 1
  ok _ _ c σ R x :=
    (F.hasSockets = true → ∀ p, c.releases = some p → users p R.2.1 ≤ 1) ∧ Permits F σ c x

/-- A thread that owns `r` runs `p`, and then owns `r'` with `post b r'`. -/
def Spec (cfg : Config) (F : Regime) (t : Nat) (e : Event) {β : Type} (p : Program β)
    (r : Res) (post : β → Res → Prop) : Prop :=
  wp (rules cfg F) t e p post r

section
variable {cfg : Config} {F : Regime} {t : Nat} {e : Event} {β γ : Type} {r : Res}
  {B : Multiset Hold} {U : Multiset Use} {O : Var → Int} {d : Nat} {p : SockPtr} {x : Hold}
  {u : Use} {σ : Server} {b l h n : Nat} {cs : List Chunk}

theorem Spec.pure {b : β} {post : β → Res → Prop} (h : post b r) :
    Spec cfg F t e (pure b : Program β) r post :=
  wp_ret h

theorem Spec.bind {p : Program β} {f : β → Program γ} {Q : β → Res → Prop}
    {post : γ → Res → Prop} (h : Spec cfg F t e p r Q)
    (hf : ∀ b r', Q b r' → Spec cfg F t e (f b) r' post) :
    Spec cfg F t e (p >>= f) r post :=
  wp_after h hf

theorem Spec.mono {p : Program β} {post post' : β → Res → Prop} (h : Spec cfg F t e p r post)
    (hpost : ∀ b r', post b r' → post' b r') : Spec cfg F t e p r post' :=
  wp_mono h hpost

theorem Spec.cond {v : Bool} {p q : Program β} {post : β → Res → Prop}
    (hp : v = true → Spec cfg F t e p r post) (hq : v = false → Spec cfg F t e q r post) :
    Spec cfg F t e (if v then p else q) r post := by
  cases v with
  | true => exact hp rfl
  | false => exact hq rfl

theorem Spec.ite {P : Prop} [Decidable P] {p q : Program β} {post : β → Res → Prop}
    (hp : P → Spec cfg F t e p r post) (hq : ¬ P → Spec cfg F t e q r post) :
    Spec cfg F t e (if P then p else q) r post := by
  split
  · exact hp ‹_›
  · exact hq ‹_›

/-- What a thread owns keeps a connection alive. -/
def Keeps (B : Multiset Hold) (U : Multiset Use) (p : SockPtr) : Prop :=
  (∃ u ∈ U, u.sock = p) ∨ ∃ x ∈ B, ∃ known cs, x.role = .seat p known cs

theorem Regime.lists_of_sockets (h : F.hasSockets = true) : F.hasLists = true := by
  cases F <;> first | rfl | exact h

theorem Regime.drain_of_drains (h : F.drains = true) (hquiet : F ≠ .quiet) : F = .drain := by
  cases F <;> first | rfl | exact absurd rfl hquiet | cases h

theorem World.live {B' : Multiset Hold} {U' : Multiset Use}
    (H : World cfg F σ (B + B') (U + U') O d) (hs : F.hasSockets = true) (hp : Keeps B U p) :
    σ.live p := by
  obtain ⟨L, hL⟩ := H.listed (Regime.lists_of_sockets hs)
  have hsockets := hL.sockets hs
  rcases hp with ⟨u, hu, rfl⟩ | ⟨x, hx, known, cs, hrole⟩
  · exact (hsockets.users.each u (Multiset.mem_add.mpr (.inl hu))).live
  · obtain ⟨B₁, hB⟩ := Multiset.exists_cons_of_mem (Multiset.mem_add.mpr (.inl hx) : x ∈ B + B')
    rw [hB] at hsockets
    have hmem : ⟨p, known, cs⟩ ∈ seats σ (L .gPendingSendList) (x ::ₘ B₁) := by
      rw [seats_hold (by rw [hrole]; rfl)]
      exact Multiset.mem_cons_self _ _
    obtain ⟨h, hh⟩ := hsockets.seating.seated _ hmem
    exact hh.owner.1

theorem Spec.command {c : Cmd} {post : c.Reply → Res → Prop} (hc : c.releases = none)
    (hfit : Fits e U)
    (h : ∀ σ B' U' O' d', World cfg F σ (B + B') (U + U') (O + O') (d + d') →
      (F.hasSockets = true → ∀ p, σ.touched c = some p → σ.live p) ∧
      ∀ x σ' v, Permits F σ c x → exec cfg t e c σ x = some (σ', v) → ∃ B₁ U₁ O₁ d₁,
          World cfg F σ' (B₁ + B') (U₁ + U') (O₁ + O') (d₁ + d') ∧ post v (B₁, U₁, O₁, d₁)) :
    Spec cfg F t e (perform c) (B, U, O, d) post := by
  refine wp_perform ?_
  rintro σ ⟨B', U', O', d'⟩ H
  obtain ⟨hlive, hrun⟩ := h σ B' U' O' d' H
  refine ⟨⟨hfit, hlive, fun p hp => ?_⟩, fun x σ' v hok hexec => ?_⟩
  · rw [hc] at hp
    cases hp
  · obtain ⟨B₁, U₁, O₁, d₁, H', hpost⟩ := hrun x σ' v hok.2 hexec
    exact ⟨(B₁, U₁, O₁, d₁), H', hpost⟩

/-- A command on one connection, or on none, that changes what is owned in one way. -/
theorem Spec.simple {c : Cmd} {post : c.Reply → Res → Prop} (hc : c.releases = none)
    (hfit : Fits e U) (htouched : ∀ (σ : Server) p, σ.touched c = some p → Keeps B U p)
    (h : ∀ σ B' U' O' d', World cfg F σ (B + B') (U + U') (O + O') (d + d') →
      ∀ x σ' v, exec cfg t e c σ x = some (σ', v) → ∃ B₁ U₁ O₁ d₁,
          World cfg F σ' (B₁ + B') (U₁ + U') (O₁ + O') (d₁ + d') ∧ post v (B₁, U₁, O₁, d₁)) :
    Spec cfg F t e (perform c) (B, U, O, d) post :=
  Spec.command hc hfit fun σ B' U' O' d' H =>
    ⟨fun hs p hp => H.live hs (htouched σ p hp), fun x σ' v _ => h σ B' U' O' d' H x σ' v⟩

theorem Permits.fails {c : Cmd} {x : Choice} (h : Permits F σ c x) (hc : c.serves = true)
    (hx : x ≠ .ok) : F ≠ .quiet := fun hF => hx (h.2 hF hc)

theorem Spec.reads {c : Cmd} (hc : c.releases = none) (hfit : Fits e U)
    (htouched : ∀ (σ : Server) p, σ.touched c = some p → Keeps B U p)
    (hexec : ∀ σ x σ' v, exec cfg t e c σ x = some (σ', v) → σ' = σ) :
    Spec cfg F t e (perform c) (B, U, O, d) fun _ r' => r' = (B, U, O, d) := by
  refine Spec.simple hc hfit htouched fun σ B' U' O' d' H x σ' v h => ?_
  obtain rfl := hexec σ x σ' v h
  exact ⟨B, U, O, d, H, rfl⟩

/-! ## Reading -/

theorem keeps_use : Keeps B (u ::ₘ U) u.sock := .inl ⟨u, Multiset.mem_cons_self _ _, rfl⟩

theorem keeps_seat {known : Bool} (hx : x.role = .seat p known cs) : Keeps (x ::ₘ B) U p :=
  .inr ⟨x, Multiset.mem_cons_self _ _, known, cs, hx⟩

theorem spec_read {v : Var} (hfit : Fits e U) (hkeep : Keeps B U p)
    (hv : v = .OutstandingRecv p ∨ v = .OutstandingSend p) :
    Spec cfg F t e (perform (.read v)) (B, U, O, d) fun _ r' => r' = (B, U, O, d) := by
  refine Spec.reads rfl hfit (fun σ q hq => ?_) fun σ x σ' n h => ?_
  · rcases hv with rfl | rfl
    · exact Option.some.inj hq ▸ hkeep
    · exact Option.some.inj hq ▸ hkeep
  · cases x <;> cases h
    rfl

theorem spec_readCount (hfit : Fits e U) :
    Spec cfg F t e (perform (.read (.PendingAcceptCount l))) (B, U, O, d)
      fun _ r' => r' = (B, U, O, d) := by
  refine Spec.reads rfl hfit nofun fun σ x σ' n h => ?_
  cases x <;> cases h
  rfl

theorem spec_s (hfit : Fits e U) (hkeep : Keeps B U p) :
    Spec cfg F t e (perform (.s p)) (B, U, O, d) fun _ r' => r' = (B, U, O, d) := by
  refine Spec.reads rfl hfit (fun σ q hq => Option.some.inj hq ▸ hkeep) fun σ x σ' n h => ?_
  cases x <;> cases h
  rfl

theorem spec_bClosingRead (hfit : Fits e U) (hkeep : Keeps B U p) :
    Spec cfg F t e (perform (.bClosing p)) (B, U, O, d) fun _ r' => r' = (B, U, O, d) := by
  refine Spec.reads rfl hfit (fun σ q hq => Option.some.inj hq ▸ hkeep) fun σ x σ' n h => ?_
  cases x <;> cases h
  rfl

theorem spec_setsockopt (hfit : Fits e U) :
    Spec cfg F t e (perform (.setsockopt b)) (B, U, O, d) fun v r' =>
      (v = false → F ≠ .quiet) ∧ r' = (B, U, O, d) := by
  refine Spec.command rfl hfit fun σ B' U' O' d' H => ⟨fun _ => nofun, fun x σ' v hok h => ?_⟩
  cases h
  refine ⟨B, U, O, d, H, fun hfail => hok.fails rfl ?_, rfl⟩
  rintro rfl
  cases hfail

theorem spec_readSends (hfit : Fits e U) :
    Spec cfg F t e (perform (.read .gOutstandingSends)) (B, U, O, d)
      fun n r' => r' = (B, U, O, if n < cfg.gMaxSends then d else 0) := by
  refine Spec.simple rfl hfit nofun fun σ B' U' O' d' H x σ' n h => ?_
  cases x <;> cases h
  refine ⟨B, U, O, _, ?_, rfl⟩
  split
  · exact H
  · rename_i hfull
    exact H.duty fun _ => .inr (Int.not_lt.mp hfull)

theorem spec_bClosing (hfit : Fits e (u ::ₘ U)) (hphase : u.phase = .tail) :
    Spec cfg F t e (perform (.bClosing u.sock)) (B, u ::ₘ U, O, d) fun v r' =>
      v = false ∧ r' = (B, u ::ₘ U, O, d) ∨
      v = true ∧ F ≠ .quiet ∧ r' = (B, { u with phase := .dead } ::ₘ U, O, d) := by
  refine Spec.simple rfl hfit (fun σ q hq => Option.some.inj hq ▸ keeps_use)
    fun σ B' U' O' d' H x σ' v h => ?_
  cases x <;> cases h
  rw [Multiset.cons_add] at H
  cases hclosing : (σ.socket u.sock.obj).bClosing with
  | false =>
      refine ⟨B, _, O, d, ?_, .inl ⟨rfl, rfl⟩⟩
      rw [Multiset.cons_add]
      exact H
  | true =>
      refine ⟨B, _, O, d, ?_, .inr ⟨rfl, fun hquiet => ?_, rfl⟩⟩
      · rw [Multiset.cons_add]
        exact H.die hphase hclosing
      · obtain ⟨L, hL⟩ := H.listed (hquiet ▸ rfl)
        have hopen := hL.quiet hquiet u.sock.obj
        rw [hclosing] at hopen
        cases hopen

/-! ## Counters -/

theorem fits_cons : Fits e (u ::ₘ U) ↔
    (u.inside = true → e.key = some (.sock u.sock)) ∧ Fits e U :=
  Multiset.forall_mem_cons

theorem Fits.change {u' : Use} (h : Fits e (u ::ₘ U)) (hinside : u'.inside = u.inside)
    (hsock : u'.sock = u.sock) : Fits e (u' ::ₘ U) := by
  rw [fits_cons, hinside, hsock]
  exact fits_cons.mp h

theorem Spec.use {c : Cmd} {u' : Use} (hc : c.releases = none) (hfit : Fits e (u ::ₘ U))
    (htouched : ∀ (σ : Server) p, σ.touched c = some p → u.sock = p)
    (h : ∀ σ B' U' O' d', World cfg F σ B' (u ::ₘ U') O' d' → ∀ x σ' v,
      exec cfg t e c σ x = some (σ', v) → World cfg F σ' B' (u' ::ₘ U') O' d') :
    Spec cfg F t e (perform c) (B, u ::ₘ U, O, d) fun _ r' => r' = (B, u' ::ₘ U, O, d) := by
  refine Spec.simple hc hfit (fun σ p hp => htouched σ p hp ▸ keeps_use)
    fun σ B' U' O' d' H x σ' v hexec => ?_
  rw [Multiset.cons_add] at H
  refine ⟨B, u' ::ₘ U, O, d, ?_, rfl⟩
  rw [Multiset.cons_add]
  exact h σ _ _ _ _ H x σ' v hexec

theorem spec_incrementRecv (hfit : Fits e (u ::ₘ U)) :
    Spec cfg F t e (perform (.InterlockedIncrement (.OutstandingRecv u.sock)))
      (B, u ::ₘ U, O, d) fun _ r' =>
        r' = (B, { u with debt := u.debt - Pi.single .OP_READ 1 } ::ₘ U, O, d) := by
  refine Spec.use rfl hfit (fun _ _ => Option.some.inj) fun σ B' U' O' d' H x σ' v h => ?_
  cases x <;> cases h
  exact H.countRecv

theorem spec_decrementRecv (hfit : Fits e (u ::ₘ U)) :
    Spec cfg F t e (perform (.InterlockedDecrement (.OutstandingRecv u.sock)))
      (B, u ::ₘ U, O, d) fun _ r' =>
        r' = (B, { u with debt := u.debt - Pi.single .OP_READ (-1) } ::ₘ U, O, d) := by
  refine Spec.use rfl hfit (fun _ _ => Option.some.inj) fun σ B' U' O' d' H x σ' v h => ?_
  cases x <;> cases h
  exact H.countRecv

theorem spec_incrementSend (hfit : Fits e (u ::ₘ U)) :
    Spec cfg F t e (perform (.InterlockedIncrement (.OutstandingSend u.sock)))
      (B, u ::ₘ U, O, d) fun _ r' =>
        r' = (B, { u with debt := u.debt - Pi.single .OP_WRITE 1 } ::ₘ U, O, d) := by
  refine Spec.use rfl hfit (fun _ _ => Option.some.inj) fun σ B' U' O' d' H x σ' v h => ?_
  cases x <;> cases h
  exact H.countSend

theorem spec_decrementSend (hfit : Fits e (u ::ₘ U)) :
    Spec cfg F t e (perform (.InterlockedDecrement (.OutstandingSend u.sock)))
      (B, u ::ₘ U, O, d) fun _ r' =>
        r' = (B, { u with debt := u.debt - Pi.single .OP_WRITE (-1) } ::ₘ U, O, d) := by
  refine Spec.use rfl hfit (fun _ _ => Option.some.inj) fun σ B' U' O' d' H x σ' v h => ?_
  cases x <;> cases h
  exact H.countSend

theorem Spec.count {c : Cmd} {w : Var} {n : Int} {k : Nat} (hc : c.releases = none)
    (hfit : Fits e U) (htouched : ∀ (σ : Server) p, σ.touched c = some p → Keeps B U p)
    (h : ∀ σ B' U' O' d', World cfg F σ B' U' O' d' → ∀ x σ' v,
      exec cfg t e c σ x = some (σ', v) → World cfg F σ' B' U' (O' - Pi.single w n) (d' + k)) :
    Spec cfg F t e (perform c) (B, U, O, d)
      fun _ r' => r' = (B, U, O - Pi.single w n, d + k) := by
  refine Spec.simple hc hfit htouched fun σ B' U' O' d' H x σ' v hexec => ?_
  refine ⟨B, U, _, d + k, ?_, rfl⟩
  rw [sub_add_eq_add_sub, Nat.add_right_comm]
  exact h σ _ _ _ _ H x σ' v hexec

/-- `gOutstandingSends`; who lowers it has to look at the queue. -/
theorem spec_incrementSends (hfit : Fits e U) :
    Spec cfg F t e (perform (.InterlockedIncrement .gOutstandingSends)) (B, U, O, d)
      fun _ r' => r' = (B, U, O - Pi.single .gOutstandingSends 1, d) := by
  refine Spec.count (k := 0) rfl hfit nofun fun σ B' U' O' d' H x σ' v h => ?_
  cases x <;> cases h
  exact H.countSends le_rfl (.inl Int.one_nonneg)

theorem spec_decrementSends (hfit : Fits e U) :
    Spec cfg F t e (perform (.InterlockedDecrement .gOutstandingSends)) (B, U, O, d)
      fun _ r' => r' = (B, U, O - Pi.single .gOutstandingSends (-1), d + 1) := by
  refine Spec.count (k := 1) rfl hfit nofun fun σ B' U' O' d' H x σ' v h => ?_
  cases x <;> cases h
  exact H.countSends (by omega) (.inr (by omega))

theorem spec_incrementAccepts (hfit : Fits e U) :
    Spec cfg F t e (perform (.InterlockedIncrement (.PendingAcceptCount l))) (B, U, O, d)
      fun _ r' => r' = (B, U, O - Pi.single (.PendingAcceptCount l) 1, d) := by
  refine Spec.count (k := 0) rfl hfit nofun fun σ B' U' O' d' H x σ' v h => ?_
  cases x <;> cases h
  exact H.countAccepts

theorem spec_decrementAccepts (hfit : Fits e U) :
    Spec cfg F t e (perform (.InterlockedDecrement (.PendingAcceptCount l))) (B, U, O, d)
      fun _ r' => r' = (B, U, O - Pi.single (.PendingAcceptCount l) (-1), d) := by
  refine Spec.count (k := 0) rfl hfit nofun fun σ B' U' O' d' H x σ' v h => ?_
  cases x <;> cases h
  exact H.countAccepts

theorem World.setRepostCount {n : Int} (H : World cfg F σ B U O d) :
    World cfg F (σ.set n (.RepostCount l)) B U O d := by
  refine H.same ⟨fun k => ?_, head_set, rfl, rfl, rfl, rfl, rfl, rfl, rfl, rfl, rfl⟩
    ⟨rfl, rfl, rfl, rfl, rfl, rfl, rfl, rfl, rfl, rfl, rfl⟩
  exact pendingAcceptCount_setListen rfl

theorem spec_incrementRepost (hfit : Fits e U) :
    Spec cfg F t e (perform (.InterlockedIncrement (.RepostCount l))) (B, U, O, d)
      fun _ r' => r' = (B, U, O, d) := by
  refine Spec.simple rfl hfit nofun fun σ B' U' O' d' H x σ' v h => ?_
  cases x <;> cases h
  exact ⟨B, U, O, d, H.setRepostCount, rfl⟩

theorem spec_exchange (hfit : Fits e U) :
    Spec cfg F t e (perform (.InterlockedExchange l)) (B, U, O, d)
      fun _ r' => r' = (B, U, O, d) := by
  refine Spec.simple rfl hfit nofun fun σ B' U' O' d' H x σ' v h => ?_
  cases x <;> cases h
  exact ⟨B, U, O, d, H.setRepostCount, rfl⟩

/-! ## `SockCritSec` -/

theorem enter_spec {σ' : Server} {x : Choice} {v : Unit}
    (h : exec cfg t e (.EnterCriticalSection p) σ x = some (σ', v)) :
    (σ.socket p.obj).SockCritSec = none ∧
      σ' = σ.setSocket p.obj { σ.socket p.obj with SockCritSec := some t } := by
  cases x with
  | ok =>
      obtain ⟨hfree, heq⟩ := Option.ite_none_right_eq_some.mp h
      cases heq
      exact ⟨hfree, rfl⟩
  | fail => cases h
  | handle k => cases h

theorem spec_enterSeat {known : Bool} (hfit : Fits e U) (hx : x.role = .seat p known cs) :
    Spec cfg F t e (perform (.EnterCriticalSection p)) (x ::ₘ B, U, O, d) fun _ r' =>
      r' = (x ::ₘ B, ⟨p, false, true, 0, .tail⟩ ::ₘ U, O, d) := by
  refine Spec.simple rfl hfit (fun σ q hq => Option.some.inj hq ▸ keeps_seat hx)
    fun σ B' U' O' d' H y σ' v h => ?_
  obtain ⟨hfree, rfl⟩ := enter_spec h
  rw [Multiset.cons_add] at H
  refine ⟨_, _, O, d, ?_, rfl⟩
  rw [Multiset.cons_add, Multiset.cons_add]
  exact H.enterSeat hx hfree

theorem spec_leaveSeat (hfit : Fits e (u ::ₘ U)) (hlocked : u.locked = true) (hdebt : u.debt = 0) :
    Spec cfg F t e (perform (.LeaveCriticalSection u.sock)) (B, u ::ₘ U, O, d) fun _ r' =>
      r' = (B, U, O, d) := by
  refine Spec.simple rfl hfit (fun σ q hq => Option.some.inj hq ▸ keeps_use)
    fun σ B' U' O' d' H y σ' v h => ?_
  cases y <;> cases h
  rw [Multiset.cons_add] at H
  exact ⟨B, U, O, d, H.leave hlocked hdebt, rfl⟩

theorem spec_enter (hfit : Fits e (u ::ₘ U)) (hdebt : u.debt = 0) :
    Spec cfg F t e (perform (.EnterCriticalSection u.sock)) (B, u ::ₘ U, O, d) fun _ r' =>
      r' = (B, { u with locked := true } ::ₘ U, O, d) := by
  refine Spec.use rfl hfit (fun _ _ => Option.some.inj) fun σ B' U' O' d' H y σ' v h => ?_
  obtain ⟨hfree, rfl⟩ := enter_spec h
  exact H.enterUse hdebt hfree

theorem spec_leave (hfit : Fits e (u ::ₘ U)) (hlocked : u.locked = true)
    (hinside : u.inside = true) (hdebt : u.debt = 0) :
    Spec cfg F t e (perform (.LeaveCriticalSection u.sock)) (B, u ::ₘ U, O, d) fun _ r' =>
      r' = (B, { u with locked := false } ::ₘ U, O, d) := by
  refine Spec.use rfl hfit (fun _ _ => Option.some.inj) fun σ B' U' O' d' H y σ' v h => ?_
  cases y <;> cases h
  exact H.leaveUse hlocked hinside hdebt

/-! ## Lists -/

theorem spec_getBufferObj (hfit : Fits e U) :
    Spec cfg F t e (perform .GetBufferObj) (B, U, O, d) fun v r' =>
      v = none ∧ r' = (B, U, O, d) ∨
      ∃ b obj, v = some b ∧ r' = (⟨b, obj, .blank⟩ ::ₘ B, U, O, d) := by
  refine Spec.simple rfl hfit nofun fun σ B' U' O' d' H x σ' v h => ?_
  cases x with
  | ok =>
      have hget : σ.GetBufferObj cfg .ok = some (σ', v) := h
      cases v with
      | none =>
          unfold Server.GetBufferObj at hget
          cases hfree : σ.gFreeBufferList <;> simp [hfree] at hget
      | some b =>
          refine ⟨_, U, O, d, ?_, .inr ⟨b, σ'.buffer b, rfl, rfl⟩⟩
          rw [Multiset.cons_add]
          exact H.get hget
  | fail =>
      obtain ⟨-, heq⟩ := Option.ite_none_right_eq_some.mp h
      cases heq
      exact ⟨B, U, O, d, H, .inl ⟨rfl, rfl⟩⟩
  | handle k => cases h

theorem spec_freeBufferObj (hfit : Fits e U) (hx : x.role.list = none)
    (hspent : F = .quiet → x.role.Spent) :
    Spec cfg F t e (perform (.FreeBufferObj x.buf)) (x ::ₘ B, U, O, d) fun _ r' =>
      r' = (B, U, O, d) := by
  refine Spec.simple rfl hfit nofun fun σ B' U' O' d' H y σ' v h => ?_
  cases y <;> cases h
  rw [Multiset.cons_add] at H
  exact ⟨B, U, O, d, H.free hx hspent, rfl⟩

theorem spec_enqueue (hfit : Fits e U) (hx : x.role = .seat p true [x.obj.chunk])
    (hsock : x.obj.sock = some p) :
    Spec cfg F t e (perform (.EnqueuePendingOperation x.buf)) (x ::ₘ B, U, O, d) fun _ r' =>
      r' = (B, U, O, d + 1) := by
  refine Spec.command rfl hfit fun σ B' U' O' d' H => ⟨fun hs q hq => ?_, fun y σ' v _ h => ?_⟩
  · have hlive := H.live hs (keeps_seat hx)
    rw [Multiset.cons_add] at H
    have hq' : (σ.buffer x.buf).sock = some q := hq
    rw [H.contents (Regime.lists_of_sockets hs), hsock] at hq'
    exact Option.some.inj hq' ▸ hlive
  · cases y with
    | ok =>
        obtain ⟨σ₁, henqueue, heq⟩ := Option.map_eq_some_iff.mp h
        cases heq
        rw [Multiset.cons_add] at H
        refine ⟨B, U, O, d + 1, ?_, rfl⟩
        exact (H.more (by omega)).enqueue hx hsock (by omega) henqueue
    | fail => cases h
    | handle k => cases h

theorem spec_dequeue (hfit : Fits e U) :
    Spec cfg F t e (perform .DequeuePendingOperation) (B, U, O, d) fun v r' =>
      v = none ∧ r' = (B, U, O, 0) ∨ ∃ b obj p, v = some b ∧ obj.sock = some p ∧
        r' = (⟨b, obj, .seat p true [obj.chunk]⟩ ::ₘ B, U, O, d) := by
  refine Spec.command rfl hfit fun σ B' U' O' d' H => ⟨fun hs q hq => ?_, fun y σ' v _ h => ?_⟩
  · obtain ⟨b, hb, hq⟩ := Option.bind_eq_some_iff.mp hq
    obtain ⟨L, hL⟩ := H.listed (Regime.lists_of_sockets hs)
    have hhead : σ.head .gPendingSendList = some b := hb
    obtain ⟨l, hl, -⟩ := hL.buffers.lists.pop (i := .gPendingSendList) id hhead
    have hsockets := hL.sockets hs
    rw [hl] at hsockets
    have hseat : (σ.buffer b).toSeat = some ⟨q, true, [(σ.buffer b).chunk]⟩ := by
      rw [BufferObj.toSeat, hq]
      rfl
    obtain ⟨h, hh⟩ := hsockets.seating.seated ⟨q, true, [(σ.buffer b).chunk]⟩
      (by rw [seats_dequeue hseat]; exact Multiset.mem_cons_self _ _)
    exact hh.owner.1
  · cases y with
    | ok =>
        have hdequeue : σ.DequeuePendingOperation = some (σ', v) := h
        cases v with
        | none =>
            unfold Server.DequeuePendingOperation at hdequeue
            cases hqueue : σ.gPendingSendList with
            | none =>
                simp only [hqueue] at hdequeue
                cases hdequeue
                exact ⟨B, U, O, 0, H.duty fun _ => .inl hqueue, .inl ⟨rfl, rfl⟩⟩
            | some c =>
                simp only [hqueue] at hdequeue
                obtain ⟨q, -, heq⟩ := Option.map_eq_some_iff.mp hdequeue
                cases heq
        | some b =>
            obtain ⟨p, hp, hgone⟩ := H.dequeue hdequeue
            refine ⟨_, U, O, d, ?_, .inr ⟨b, σ'.buffer b, p, rfl, hp, rfl⟩⟩
            rw [Multiset.cons_add]
            exact hgone
    | fail => cases h
    | handle k => cases h

theorem spec_insertPendingAccept (hfit : Fits e U) (hx : x.role = .blank) :
    Spec cfg F t e (perform (.InsertPendingAccept l x.buf)) (x ::ₘ B, U, O, d) fun _ r' =>
      r' = (⟨x.buf, x.obj, .linked l⟩ ::ₘ B, U, O, d) := by
  refine Spec.simple rfl hfit nofun fun σ B' U' O' d' H y σ' v h => ?_
  cases y <;> cases h
  rw [Multiset.cons_add] at H
  refine ⟨_, U, O, d, ?_, rfl⟩
  rw [Multiset.cons_add]
  exact H.insert hx

theorem spec_removePendingAccept (hfit : Fits e U) (hx : x.role = .accept l h cs) :
    Spec cfg F t e (perform (.RemovePendingAccept l x.buf)) (x ::ₘ B, U, O, d) fun _ r' =>
      r' = (⟨x.buf, x.obj, .guest h cs⟩ ::ₘ B, U, O, d) := by
  refine Spec.simple rfl hfit nofun fun σ B' U' O' d' H y σ' v hexec => ?_
  cases y with
  | ok =>
      obtain ⟨σ₁, hremove, heq⟩ := Option.map_eq_some_iff.mp hexec
      cases heq
      rw [Multiset.cons_add] at H
      refine ⟨_, U, O, d, ?_, rfl⟩
      rw [Multiset.cons_add]
      exact H.remove hx hremove
  | fail => cases hexec
  | handle k => cases hexec

/-! ## Fields of a buffer -/

theorem spec_setBuflen (hfit : Fits e U) :
    Spec cfg F t e (perform (.setBuflen x.buf n)) (x ::ₘ B, U, O, d) fun _ r' =>
      r' = (⟨x.buf, { x.obj with buflen := n }, x.role⟩ ::ₘ B, U, O, d) := by
  refine Spec.simple rfl hfit nofun fun σ B' U' O' d' H y σ' v h => ?_
  cases y <;> cases h
  rw [Multiset.cons_add] at H
  refine ⟨_, U, O, d, ?_, rfl⟩
  rw [Multiset.cons_add]
  exact H.write fun z => { z with buflen := n }

theorem spec_setSock (hfit : Fits e U) :
    Spec cfg F t e (perform (.setSock x.buf p)) (x ::ₘ B, U, O, d) fun _ r' =>
      r' = (⟨x.buf, { x.obj with sock := some p }, x.role⟩ ::ₘ B, U, O, d) := by
  refine Spec.simple rfl hfit nofun fun σ B' U' O' d' H y σ' v h => ?_
  cases y <;> cases h
  rw [Multiset.cons_add] at H
  refine ⟨_, U, O, d, ?_, rfl⟩
  rw [Multiset.cons_add]
  exact H.write fun z => { z with sock := some p }

theorem spec_sock (hfit : Fits e U) (hx : x.role = .seat p true [x.obj.chunk])
    (hsock : x.obj.sock = some p) :
    Spec cfg F t e (perform (.sock x.buf)) (x ::ₘ B, U, O, d) fun q r' => ∃ obj,
      obj.sock = some q ∧ r' = (⟨x.buf, obj, .seat q true [obj.chunk]⟩ ::ₘ B, U, O, d) := by
  refine Spec.simple rfl hfit nofun fun σ B' U' O' d' H y σ' v h => ?_
  cases y with
  | ok =>
      obtain ⟨q, hq, heq⟩ := Option.map_eq_some_iff.mp h
      cases heq
      rw [Multiset.cons_add] at H
      cases hlists : F.hasLists with
      | true =>
          rw [H.contents hlists, hsock] at hq
          cases hq
          refine ⟨_, U, O, d, ?_, x.obj, hsock, rfl⟩
          rw [Multiset.cons_add, ← hx]
          exact H
      | false =>
          exact ⟨_, U, O, d, H.nothing hlists fun _ => rfl, { x.obj with sock := some v }, rfl, rfl⟩
  | fail => cases h
  | handle k => cases h

theorem spec_operation (start : Operation → Res) (hfit : Fits e U)
    (hstart : start x.obj.operation = (x ::ₘ B, U, O, d))
    (hO : ∀ o l, (start o).2.2.1 (.PendingAcceptCount l) = O (.PendingAcceptCount l)) :
    Spec cfg F t e (perform (.operation x.buf)) (x ::ₘ B, U, O, d) fun o r' =>
      (F.hasLists = true → o = x.obj.operation) ∧ r' = start o := by
  refine Spec.simple rfl hfit nofun fun σ B' U' O' d' H y σ' o h => ?_
  cases y <;> cases h
  rw [Multiset.cons_add] at H
  cases hlists : F.hasLists with
  | true =>
      refine ⟨x ::ₘ B, U, O, d, ?_, fun _ => ?_, ?_⟩
      · rw [Multiset.cons_add]
        exact H
      · rw [H.contents hlists]
      · rw [H.contents hlists, hstart]
  | false =>
      refine ⟨(start _).1, (start _).2.1, (start _).2.2.1, (start _).2.2.2, ?_, nofun, rfl⟩
      exact H.nothing hlists fun l => congrArg (· + O' _) (hO _ l)

/-! ## System calls -/

theorem spec_closeClient (hfit : Fits e U) (hx : x.role = .guest h cs)
    (hclient : x.obj.sclient = some h) (hquiet : F ≠ .quiet) :
    Spec cfg F t e (perform (.closeClient x.buf)) (x ::ₘ B, U, O, d) fun _ r' =>
      r' = (⟨x.buf, { x.obj with sclient := none }, .blank⟩ ::ₘ B, U, O, d) := by
  refine Spec.simple rfl hfit nofun fun σ B' U' O' d' H y σ' v hexec => ?_
  cases y <;> cases hexec
  rw [Multiset.cons_add] at H
  refine ⟨_, U, O, d, ?_, rfl⟩
  rw [Multiset.cons_add]
  exact H.closeClient hx hclient hquiet

theorem spec_getSocketObj (hfit : Fits e U) (hx : x.role = .guest h cs)
    (hclient : x.obj.sclient = some h) :
    Spec cfg F t e (perform (.GetSocketObj x.buf)) (x ::ₘ B, U, O, d) fun v r' =>
      v = none ∧ F ≠ .quiet ∧ r' = (x ::ₘ B, U, O, d) ∨
      ∃ p, v = some p ∧ r' = (⟨x.buf, x.obj, .seat p false cs⟩ ::ₘ B, U, O, d) := by
  refine Spec.command rfl hfit fun σ B' U' O' d' H =>
    ⟨fun _ => nofun, fun y σ' v hok hexec => ?_⟩
  cases y with
  | ok =>
      have hget : σ.GetSocketObj (σ.buffer x.buf).sclient .ok = some (σ', v) := hexec
      cases v with
      | none =>
          unfold Server.GetSocketObj at hget
          cases hfree : σ.gFreeSocketList <;> simp [hfree] at hget
      | some p =>
          rw [Multiset.cons_add] at H
          refine ⟨_, U, O, d, ?_, .inr ⟨p, rfl, rfl⟩⟩
          rw [Multiset.cons_add]
          exact H.connect hx hclient hget
  | fail =>
      obtain ⟨-, heq⟩ := Option.ite_none_right_eq_some.mp hexec
      cases heq
      exact ⟨x ::ₘ B, U, O, d, H, .inl ⟨rfl, hok.fails rfl nofun, rfl⟩⟩
  | handle k => cases hexec

theorem spec_createIoCompletionPort {known : Bool} (hfit : Fits e U)
    (hx : x.role = .seat p known cs) :
    Spec cfg F t e (perform (.CreateIoCompletionPort p)) (x ::ₘ B, U, O, d) fun v r' =>
      v = true ∧ r' = (⟨x.buf, x.obj, .seat p true cs⟩ ::ₘ B, U, O, d) ∨
      v = false ∧ F ≠ .quiet ∧ r' = (x ::ₘ B, U, O, d) := by
  refine Spec.command rfl hfit fun σ B' U' O' d' H =>
    ⟨fun hs q hq => H.live hs (Option.some.inj hq ▸ keeps_seat hx), fun y σ' v hok hexec => ?_⟩
  cases y with
  | ok =>
      obtain ⟨k, hk, heq⟩ := Option.map_eq_some_iff.mp hexec
      cases heq
      rw [Multiset.cons_add] at H
      refine ⟨_, U, O, d, ?_, .inl ⟨rfl, rfl⟩⟩
      rw [Multiset.cons_add]
      exact H.know hx hk
  | fail =>
      cases hexec
      exact ⟨x ::ₘ B, U, O, d, H, .inr ⟨rfl, hok.fails rfl nofun, rfl⟩⟩
  | handle k => cases hexec

theorem spec_socket (hfit : Fits e U) (hx : x.role = .linked l) :
    Spec cfg F t e (perform (.socket l x.buf)) (x ::ₘ B, U, O, d) fun v r' =>
      v = false ∧ r' = (B, U, O, d) ∨ v = true ∧ ∃ h, r' =
        (⟨x.buf, { x.obj with operation := .OP_ACCEPT, sclient := some h }, .accept l h []⟩ ::ₘ B,
          U,
          O, d) := by
  refine Spec.simple rfl hfit nofun fun σ B' U' O' d' H y σ' v hexec => ?_
  rw [Multiset.cons_add] at H
  cases y with
  | ok => cases hexec
  | fail =>
      obtain ⟨rfl, H'⟩ := H.refused hx hexec
      exact ⟨B, U, O, d, H', .inl ⟨rfl, rfl⟩⟩
  | handle k =>
      obtain ⟨rfl, H'⟩ := H.opened hx hexec
      refine ⟨_, U, O, d, ?_, .inr ⟨rfl, k, rfl⟩⟩
      rw [Multiset.cons_add]
      exact H'

theorem spec_acceptEx (hfit : Fits e U) (hx : x.role = .accept l h [])
    (hclient : x.obj.sclient = some h) (hoperation : x.obj.operation = .OP_ACCEPT) :
    Spec cfg F t e (perform (.AcceptEx l x.buf)) (x ::ₘ B, U, O, d) fun v r' =>
      v = false ∧ r' = (B, U, O, d) ∨
      v = true ∧ r' = (B, U, O + Pi.single (.PendingAcceptCount l) 1, d) := by
  refine Spec.simple rfl hfit nofun fun σ B' U' O' d' H y σ' v hexec => ?_
  rw [Multiset.cons_add] at H
  cases y with
  | ok =>
      obtain ⟨rfl, H'⟩ := H.acceptEx hx hclient hoperation hexec
      refine ⟨B, U, _, d, ?_, .inr ⟨rfl, rfl⟩⟩
      rwa [add_right_comm]
  | fail =>
      cases hexec
      exact ⟨B, U, O, d, H.abandon (by rw [hx]; rfl) (by rw [hx]; exact Role.spent_accept),
        .inl ⟨rfl, rfl⟩⟩
  | handle k => cases hexec

theorem spec_wsaRecv (hfit : Fits e (u ::ₘ U)) (hx : x.role = .seat u.sock true []) :
    Spec cfg F t e (perform (.WSARecv u.sock x.buf)) (x ::ₘ B, u ::ₘ U, O, d) fun v r' =>
      v = false ∧ r' = (B, u ::ₘ U, O, d) ∨
      v = true ∧ r' = (B, { u with debt := u.debt + Pi.single .OP_READ 1 } ::ₘ U, O, d) := by
  refine Spec.simple rfl hfit (fun σ q hq => Option.some.inj hq ▸ keeps_use)
    fun σ B' U' O' d' H y σ' v hexec => ?_
  rw [Multiset.cons_add] at H
  cases y with
  | ok =>
      rw [Multiset.cons_add] at H
      obtain ⟨rfl, H'⟩ := H.wsaRecv hx hexec
      refine ⟨B, _, O, d, ?_, .inr ⟨rfl, rfl⟩⟩
      rw [Multiset.cons_add]
      exact H'
  | fail =>
      obtain ⟨rfl, H'⟩ := H.wsaRecvFail hx hexec
      exact ⟨B, _, O, d, H', .inl ⟨rfl, rfl⟩⟩
  | handle k => cases hexec

/-- A send that is refused while nothing else waits ends the duty. -/
theorem spec_wsaSend (hfit : Fits e (u ::ₘ U)) (hx : x.role = .seat u.sock true [x.obj.chunk]) :
    Spec cfg F t e (perform (.WSASend u.sock x.buf)) (x ::ₘ B, u ::ₘ U, O, d) fun v r' =>
      v = false ∧ F ≠ .quiet ∧
        r' = (⟨x.buf, { x.obj with operation := .OP_WRITE }, x.role⟩ ::ₘ B, u ::ₘ U, O, 0) ∨
      v = true ∧ r' = (B, { u with debt := u.debt + Pi.single .OP_WRITE 1 } ::ₘ U,
        O + Pi.single .gOutstandingSends 1, d) := by
  refine Spec.command rfl hfit fun σ B' U' O' d' H =>
    ⟨fun hs q hq => H.live hs (Option.some.inj hq ▸ keeps_use), fun y σ' v hok hexec => ?_⟩
  rw [Multiset.cons_add] at H
  cases y with
  | ok =>
      rw [Multiset.cons_add] at H
      obtain ⟨rfl, H'⟩ := H.wsaSend hx hexec
      refine ⟨B, _, _, d, ?_, .inr ⟨rfl, rfl⟩⟩
      rw [Multiset.cons_add, add_right_comm]
      exact H'
  | fail =>
      obtain ⟨rfl, H'⟩ := H.wsaSendFail (p := u.sock) hexec
      have hqueue : σ'.gPendingSendList = σ.gPendingSendList := by
        cases hexec
        rfl
      have hquiet : F ≠ .quiet := hok.fails rfl nofun
      refine ⟨_, _, O, 0, ?_, .inl ⟨rfl, hquiet, rfl⟩⟩
      rw [Multiset.cons_add]
      refine H'.duty fun hd => .inl (hqueue.trans (hok.1 ?_ _ _ rfl rfl))
      exact Regime.drain_of_drains hd hquiet
  | handle k => cases hexec

/-! ## The end of a connection -/

theorem spec_setClosing {known : Bool} (hfit : Fits e (u ::ₘ U))
    (hx : x.role = .seat u.sock known cs) (hphase : u.phase = .tail) (hquiet : F ≠ .quiet) :
    Spec cfg F t e (perform (.setClosing u.sock)) (x ::ₘ B, u ::ₘ U, O, d) fun _ r' =>
      r' = (⟨x.buf, x.obj, .blank⟩ ::ₘ B, { u with phase := .dead } ::ₘ U, O, d) := by
  refine Spec.simple rfl hfit (fun σ q hq => Option.some.inj hq ▸ keeps_use)
    fun σ B' U' O' d' H y σ' v hexec => ?_
  cases y <;> cases hexec
  rw [Multiset.cons_add, Multiset.cons_add] at H
  refine ⟨_, _, O, d, ?_, rfl⟩
  rw [Multiset.cons_add, Multiset.cons_add]
  exact (H.vacate hx hphase hquiet).setClosing rfl hquiet

/-- The rule of the commands that release: a thread that is the only user. -/
theorem Spec.release {c : Cmd} {post : c.Reply → Res → Prop} (hc : c.releases = some u.sock)
    (hfit : Fits e (u ::ₘ 0)) (htouched : ∀ σ : Server, σ.touched c = some u.sock)
    (hquiet : F ≠ .quiet)
    (h : ∀ σ B' U' O' d', World cfg F σ (B + B') (u ::ₘ U') (O + O') (d + d') →
      (F.hasSockets = true → ∀ v ∈ U', v.sock ≠ u.sock) →
      ∀ x σ' v, exec cfg t e c σ x = some (σ', v) → ∃ B₁ U₁ O₁ d₁,
          World cfg F σ' (B₁ + B') (U₁ + U') (O₁ + O') (d₁ + d') ∧ post v (B₁, U₁, O₁, d₁)) :
    Spec cfg F t e (perform c) (B, u ::ₘ 0, O, d) post := by
  refine wp_perform ?_
  rintro σ ⟨B', U', O', d'⟩ H
  change World cfg F σ (B + B') (u ::ₘ 0 + U') (O + O') (d + d') at H
  refine ⟨⟨hfit, fun hs p hp => ?_, fun p hp => ⟨hquiet, ?_⟩⟩, fun x σ' v hok hexec => ?_⟩
  · rw [htouched] at hp
    exact Option.some.inj hp ▸ H.live hs keeps_use
  · obtain rfl : u.sock = p := Option.some.inj (hc.symm.trans hp)
    exact users_cons (U := 0)
  · rw [Multiset.cons_add, zero_add] at H
    have halone : F.hasSockets = true → ∀ v ∈ U', v.sock ≠ u.sock := by
      intro hs v hv hsock
      have hone := hok.1 hs u.sock hc
      change users u.sock (u ::ₘ 0 + U') ≤ 1 at hone
      rw [Multiset.cons_add, zero_add, users_cons] at hone
      have hpos := users_pos hv
      rw [hsock] at hpos
      omega
    obtain ⟨B₁, U₁, O₁, d₁, H', hpost⟩ := h σ B' U' O' d' H halone x σ' v hexec
    exact ⟨(B₁, U₁, O₁, d₁), H', hpost⟩

theorem spec_closesocket (hfit : Fits e (u ::ₘ 0)) (hphase : u.phase = .dead)
    (hinside : u.inside = true) (hlocked : u.locked = false) (hdebt : u.debt = 0)
    (hquiet : F ≠ .quiet) :
    Spec cfg F t e (perform (.closesocket u.sock)) (B, u ::ₘ 0, O, d) fun _ r' =>
      r' = (B, { u with phase := .closed } ::ₘ 0, O, d) := by
  refine Spec.release rfl hfit (fun _ => rfl) hquiet fun σ B' U' O' d' H hU y σ' v hexec => ?_
  cases y <;> cases hexec
  refine ⟨B, _, O, d, ?_, rfl⟩
  rw [Multiset.cons_add, zero_add]
  exact H.closesocket hphase hinside hlocked hdebt hU

theorem spec_setInvalid (hfit : Fits e (u ::ₘ U)) (hphase : u.phase = .closed) :
    Spec cfg F t e (perform (.setInvalid u.sock)) (B, u ::ₘ U, O, d) fun _ r' =>
      r' = (B, { u with phase := .invalid } ::ₘ U, O, d) := by
  refine Spec.simple rfl hfit (fun σ q hq => Option.some.inj hq ▸ keeps_use)
    fun σ B' U' O' d' H y σ' v hexec => ?_
  cases y <;> cases hexec
  rw [Multiset.cons_add] at H
  refine ⟨B, _, O, d, ?_, rfl⟩
  rw [Multiset.cons_add]
  exact H.setInvalid hphase

theorem spec_free (hfit : Fits e (u ::ₘ 0)) (hphase : u.phase ≠ .tail) (hdebt : u.debt = 0)
    (hquiet : F ≠ .quiet) :
    Spec cfg F t e (perform (.FreeSocketObj u.sock)) (B, u ::ₘ 0, O, d) fun _ r' =>
      r' = (B, 0, O, d) := by
  refine Spec.release rfl hfit (fun _ => rfl) hquiet fun σ B' U' O' d' H hU y σ' v hexec => ?_
  cases y <;> cases hexec
  refine ⟨B, 0, O, d, ?_, rfl⟩
  rw [zero_add]
  exact H.freeSocketObj hphase hdebt hU

end

end CppWorkspace.ThrottledServer
