/-
# `CppWorkspace.TcpServer.Functions` — what the functions of `CTcpServer` give back

Each command and each function is proved once, for a thread that owns the tokens
`r` and, when it is done, `r'`:

    Spec p r post       `post b r'` holds of the result `b` of `p` and of `r'`

The commands say what they need and what they give (`spec_getContext`,
`spec_acceptEx`, ...); the functions of the source give back what they were given
(`spec_issueAcceptOperation`, `spec_completeReceive`, ...), on every path.

Two propositions are parameters.  `N`: nothing is refused before the socket is
registered, so that no socket is lost.  `D`: no context is handed out while it is
still to be read, so that what is read is the socket of the thread's own operation.
-/
import Mathlib.Algebra.Group.Prod
import Mathlib.Algebra.Order.Group.Multiset
import CppWorkspace.TcpServer.Ownership

namespace CppWorkspace.TcpServer

open Programs Runs

/-! ## The logic -/

/-- `h` is the socket of the operation that the event completes; other events
complete none. -/
def Event.Names (e : Event) (h : SOCKET) : Prop :=
  match e with
  | .completion op _ _ => h = op.h
  | _ => True

/-- Calls whose failure leaves a socket that is not registered. -/
def Cmd.loses : Cmd → Bool
  | .call .ioctlsocket _ => true
  | .GetContext .accept _ => true
  | .AcceptEx _ => true
  | _ => false

/-- The context that a command gives away. -/
def Cmd.gives : Cmd → Option (Kind × Nat)
  | .ReleaseContext k c => some (k, c)
  | .AcceptEx c => some (.accept, c)
  | .WSARecv c => some (.receive, c)
  | .WSASend c => some (.send, c)
  | .TransmitFile c _ => some (.send, c)
  | _ => none

/-- A socket that the command would close, unregister or receive from. -/
def Cmd.takes (σ : Server) : Cmd → Option SOCKET
  | .erase h =>
      if σ.m_struCriSec = none ∧ h ∈ σ.m_mapAcceptSockQueue then some h else none
  | .closesocket h => some h
  | .WSARecv c => some (σ.context .receive c).m_hSocket
  | _ => none

/-- The rules of ownership.  `N` and `D` say which choices of the system are left
out: see the head of this file. -/
def ownership (cls : Class) (N D : Prop) :
    Logic Server Cmd Cmd.Reply Choice Event Unit (Multiset Token × Late) where
  toSystem := system cls
  Inv σ R := ContextsOwned D σ.pool σ.flight σ.held R.1 R.2 ∧
    SocketsOwned N σ.m_mapAcceptSockQueue σ.sockets σ.m_struCriSec σ.closed σ.flight R.1
  Pre t e c σ r := (∀ q ∈ r.2, c = .m_hSocket .receive q.1) ∧
    (∀ k i, c.gives = some (k, i) → ⟨t, k, i⟩ ∈ σ.held) ∧
    (D → ∀ h, c.takes σ = some h → e.Names h)
  ok _ _ c σ R x := (N → x = .fail → c.loses = false) ∧
    (D → x = .ok → ∀ h, c = .GetContext .receive h →
      ∀ q ∈ R.2, q.1 ≠ (σ.pool .receive).GetContext.1)

/-- A thread that owns `r` runs `p`, and then owns `r'` with `post b r'`. -/
def Spec (cls : Class) (N D : Prop) (t : Nat) (e : Event) {β : Type} (p : Program β)
    (r : Multiset Token) (post : β → Multiset Token → Prop) : Prop :=
  wp (ownership cls N D) t e p (fun b ρ => ∃ r', ρ = (r', 0) ∧ post b r') (r, 0)

section
variable {cls : Class} {N D : Prop} {t : Nat} {e : Event} {β γ : Type} {r : Multiset Token}

theorem Spec.pure {b : β} {post : β → Multiset Token → Prop} (h : post b r) :
    Spec cls N D t e (pure b : Program β) r post :=
  wp_ret ⟨r, rfl, h⟩

theorem Spec.bind {p : Program β} {f : β → Program γ} {Q : β → Multiset Token → Prop}
    {post : γ → Multiset Token → Prop} (h : Spec cls N D t e p r Q)
    (hf : ∀ b r', Q b r' → Spec cls N D t e (f b) r' post) :
    Spec cls N D t e (p >>= f) r post := by
  refine wp_after h ?_
  rintro b _ ⟨r', rfl, hmid⟩
  exact hf b r' hmid

theorem Spec.mono {p : Program β} {post post' : β → Multiset Token → Prop}
    (h : Spec cls N D t e p r post) (hpost : ∀ b r', post b r' → post' b r') :
    Spec cls N D t e p r post' := by
  refine wp_mono h ?_
  rintro b _ ⟨r', rfl, hb⟩
  exact ⟨r', rfl, hpost b r' hb⟩

theorem Spec.cond {v : Bool} {p q : Program β} {post : β → Multiset Token → Prop}
    (hp : v = true → Spec cls N D t e p r post) (hq : v = false → Spec cls N D t e q r post) :
    Spec cls N D t e (if v then p else q) r post := by
  cases v with
  | true => exact hp rfl
  | false => exact hq rfl

/-- One command, by what it does to the two halves of the invariant. -/
theorem Spec.command {c : Cmd} {post : c.Reply → Multiset Token → Prop}
    (h : ∀ σ F G, ContextsOwned D σ.pool σ.flight σ.held (r + F) G →
      SocketsOwned N σ.m_mapAcceptSockQueue σ.sockets σ.m_struCriSec σ.closed σ.flight (r + F) →
      (∀ k i, c.gives = some (k, i) → ⟨t, k, i⟩ ∈ σ.held) ∧
      (D → ∀ h, c.takes σ = some h → e.Names h) ∧
      ∀ x σ' v, (N → x = .fail → c.loses = false) →
        (D → x = .ok → ∀ h, c = .GetContext .receive h →
          ∀ q ∈ G, q.1 ≠ (σ.pool .receive).GetContext.1) →
        exec t e c σ x = some (σ', v) →
        ∃ r', ContextsOwned D σ'.pool σ'.flight σ'.held (r' + F) G ∧
          SocketsOwned N σ'.m_mapAcceptSockQueue σ'.sockets σ'.m_struCriSec σ'.closed σ'.flight
            (r' + F) ∧ post v r') :
    Spec cls N D t e (perform c) r post := by
  refine wp_perform ?_
  rintro σ ⟨F, G⟩ ⟨hC, hS⟩
  change ContextsOwned D σ.pool σ.flight σ.held (r + F) (0 + G) at hC
  rw [zero_add] at hC
  obtain ⟨hgives, htakes, hrun⟩ := h σ F G hC hS
  refine ⟨⟨fun q hq => absurd hq (Multiset.notMem_zero q), hgives, htakes⟩, ?_⟩
  rintro x σ' v ⟨hN, hD⟩ hexec
  change D → x = .ok → ∀ h, c = .GetContext .receive h →
    ∀ q ∈ 0 + G, q.1 ≠ (σ.pool .receive).GetContext.1 at hD
  rw [zero_add] at hD
  obtain ⟨r', hC', hS', hpost⟩ := hrun x σ' v hN hD hexec
  refine ⟨(r', 0), ⟨?_, hS'⟩, r', rfl, hpost⟩
  change ContextsOwned D σ'.pool σ'.flight σ'.held (r' + F) (0 + G)
  rwa [zero_add]

/-! ## Sockets -/

theorem spec_wsaSocket : Spec cls N D t e (perform .WSASocket) r fun v r' =>
    v = INVALID_SOCKET ∧ r' = r ∨ v ≠ INVALID_SOCKET ∧ r' = .socket v ::ₘ r := by
  refine Spec.command fun σ F G hC hS => ⟨by simp [Cmd.gives], by simp [Cmd.takes], ?_⟩
  intro x σ' v _ _ hexec
  cases x with
  | ok => cases hexec
  | fail =>
      cases hexec
      exact ⟨r, hC, hS, .inl ⟨rfl, rfl⟩⟩
  | handle h =>
      obtain ⟨⟨-, hvalid, -, hnone⟩, heq⟩ := Option.ite_none_right_eq_some.mp hexec
      cases heq
      refine ⟨.socket v ::ₘ r, ?_, ?_, .inr ⟨hvalid, rfl⟩⟩
      · rw [Multiset.cons_add, ContextsOwned.cons_socket]
        exact hC
      · rw [Multiset.cons_add]
        exact hS.create σ.created hnone hvalid

theorem spec_call (f : Call) (h : SOCKET) : Spec cls N D t e (perform (.call f h)) r fun v r' =>
    r' = r ∧ (v = false → f = .ioctlsocket → ¬ N) := by
  refine Spec.command fun σ F G hC hS => ⟨by simp [Cmd.gives], by simp [Cmd.takes], ?_⟩
  intro x σ' v hN _ hexec
  cases x with
  | ok =>
      cases hexec
      exact ⟨r, hC, hS, rfl, fun hv => absurd hv (by simp)⟩
  | fail =>
      cases hexec
      refine ⟨r, hC, hS, rfl, ?_⟩
      rintro - rfl n
      exact absurd (hN n rfl) (by simp [Cmd.loses])
  | handle => cases hexec

theorem spec_insert {h : SOCKET} :
    Spec cls N D t e (perform (.insert h)) (.socket h ::ₘ r) fun _ r' => r' = r := by
  refine Spec.command fun σ F G hC hS => ⟨by simp [Cmd.gives], by simp [Cmd.takes], ?_⟩
  rw [Multiset.cons_add] at hC hS
  rw [ContextsOwned.cons_socket] at hC
  intro x σ' v _ _ hexec
  cases x with
  | ok =>
      obtain ⟨hlock, heq⟩ := Option.ite_none_right_eq_some.mp hexec
      cases heq
      exact ⟨r, hC, hS.insert hlock, rfl⟩
  | fail => cases hexec
  | handle => cases hexec

theorem exec_erase {σ σ' : Server} {x : Choice} {h : SOCKET} {v : Bool}
    (hexec : exec t e (.erase h) σ x = some (σ', v)) :
    σ.m_struCriSec = none
      ∧ { σ with m_mapAcceptSockQueue := σ.m_mapAcceptSockQueue.erase h } = σ'
      ∧ decide (h ∈ σ.m_mapAcceptSockQueue) = v := by
  cases x with
  | ok =>
      obtain ⟨hlock, heq⟩ := Option.ite_none_right_eq_some.mp hexec
      cases heq
      exact ⟨hlock, rfl, rfl⟩
  | fail => cases hexec
  | handle => cases hexec

/-- `CloseClientSocket` looks for a socket that the thread may close. -/
theorem spec_erase {h : SOCKET} (hD : D → e.Names h) :
    Spec cls N D t e (perform (.erase h)) r fun v r' =>
      v = true ∧ r' = .socket h ::ₘ r ∨ v = false ∧ r' = r := by
  refine Spec.command fun σ F G hC hS => ⟨by simp [Cmd.gives], ?_, ?_⟩
  · intro d h' htakes
    simp only [Cmd.takes] at htakes
    split at htakes
    · cases htakes
      exact hD d
    · cases htakes
  intro x σ' v _ _ hexec
  obtain ⟨hlock, rfl, rfl⟩ := exec_erase hexec
  by_cases hmem : h ∈ σ.m_mapAcceptSockQueue
  · refine ⟨.socket h ::ₘ r, ?_, ?_, .inl ⟨decide_eq_true hmem, rfl⟩⟩
    · rw [Multiset.cons_add, ContextsOwned.cons_socket]
      exact hC
    · rw [Multiset.cons_add]
      exact hS.erase hmem hlock
  · refine ⟨r, hC, ?_, .inr ⟨decide_eq_false hmem, rfl⟩⟩
    simpa only [List.erase_of_not_mem hmem] using hS

/-- `CloseClientSocket` of a socket of the thread that is not registered: it is lost. -/
theorem spec_eraseLost {h : SOCKET} (hN : ¬ N) :
    Spec cls N D t e (perform (.erase h)) (.socket h ::ₘ r) fun v r' => v = false ∧ r' = r := by
  refine Spec.command fun σ F G hC hS => ?_
  rw [Multiset.cons_add] at hC hS
  rw [ContextsOwned.cons_socket] at hC
  refine ⟨by simp [Cmd.gives], ?_, ?_⟩
  · intro _ h' htakes
    simp only [Cmd.takes] at htakes
    split at htakes
    · rename_i hreg
      exact absurd hreg.2 (hS.notMem hreg.1)
    · cases htakes
  intro x σ' v _ _ hexec
  obtain ⟨hlock, rfl, rfl⟩ := exec_erase hexec
  have hmem := hS.notMem hlock
  refine ⟨r, hC, ?_, decide_eq_false hmem, rfl⟩
  simpa only [List.erase_of_not_mem hmem] using hS.lose hN

theorem spec_eraseInvalid : Spec cls N D t e (perform (.erase INVALID_SOCKET)) r fun v r' =>
    v = false ∧ r' = r := by
  refine Spec.command fun σ F G hC hS => ⟨by simp [Cmd.gives], ?_, ?_⟩
  · intro _ h' htakes
    simp only [Cmd.takes] at htakes
    split at htakes
    · rename_i hreg
      exact absurd hreg.2 (hS.invalid_notMem hreg.1)
    · cases htakes
  intro x σ' v _ _ hexec
  obtain ⟨hlock, rfl, rfl⟩ := exec_erase hexec
  have hmem := hS.invalid_notMem hlock
  refine ⟨r, hC, ?_, decide_eq_false hmem, rfl⟩
  simpa only [List.erase_of_not_mem hmem] using hS

theorem spec_find (h : SOCKET) : Spec cls N D t e (perform (.find h)) r fun _ r' => r' = r := by
  refine Spec.command fun σ F G hC hS => ⟨by simp [Cmd.gives], by simp [Cmd.takes], ?_⟩
  intro x σ' v _ _ hexec
  cases x with
  | ok =>
      obtain ⟨-, heq⟩ := Option.ite_none_right_eq_some.mp hexec
      cases heq
      exact ⟨r, hC, hS, rfl⟩
  | fail => cases hexec
  | handle => cases hexec

theorem spec_closesocket {h : SOCKET} (hD : D → e.Names h) :
    Spec cls N D t e (perform (.closesocket h)) (.socket h ::ₘ r) fun _ r' => r' = r := by
  refine Spec.command fun σ F G hC hS => ⟨by simp [Cmd.gives], ?_, ?_⟩
  · intro d h' htakes
    cases htakes
    exact hD d
  rw [Multiset.cons_add] at hC hS
  rw [ContextsOwned.cons_socket] at hC
  intro x σ' v _ _ hexec
  cases x with
  | ok =>
      cases hexec
      exact ⟨r, hC, hS.close, rfl⟩
  | fail => cases hexec
  | handle => cases hexec

/-! ## The critical section of `ConnectTimeOutCheck` -/

theorem spec_enter : Spec cls N D t e (perform .EnterCriticalSection) r fun sockets r' =>
    r' = .lock t sockets none ::ₘ r ∧ sockets.Nodup := by
  refine Spec.command fun σ F G hC hS => ⟨by simp [Cmd.gives], by simp [Cmd.takes], ?_⟩
  intro x σ' v _ _ hexec
  cases x with
  | ok =>
      obtain ⟨hlock, heq⟩ := Option.ite_none_right_eq_some.mp hexec
      cases heq
      refine ⟨.lock t σ.m_mapAcceptSockQueue none ::ₘ r, ?_, ?_, rfl, hS.nodup⟩
      · rw [Multiset.cons_add, ContextsOwned.cons_lock]
        exact hC
      · rw [Multiset.cons_add]
        exact hS.enter hlock
  | fail => cases hexec
  | handle => cases hexec

theorem spec_closePos {h : SOCKET} {m : List SOCKET} (hmem : h ∈ m) :
    Spec cls N D t e (perform (.closePos h)) (.lock t m none ::ₘ r) fun _ r' =>
      r' = .lock t m (some h) ::ₘ r := by
  refine Spec.command fun σ F G hC hS => ⟨by simp [Cmd.gives], by simp [Cmd.takes], ?_⟩
  rw [Multiset.cons_add] at hC hS
  rw [ContextsOwned.cons_lock] at hC
  intro x σ' v _ _ hexec
  cases x with
  | ok =>
      cases hexec
      refine ⟨.lock t m (some h) ::ₘ r, ?_, ?_, rfl⟩
      · rw [Multiset.cons_add, ContextsOwned.cons_lock]
        exact hC
      · rw [Multiset.cons_add]
        exact hS.closePos hmem
  | fail => cases hexec
  | handle => cases hexec

theorem spec_erasePos {h : SOCKET} {m : List SOCKET} :
    Spec cls N D t e (perform (.erasePos h)) (.lock t m (some h) ::ₘ r) fun _ r' =>
      r' = .lock t (m.erase h) none ::ₘ r := by
  refine Spec.command fun σ F G hC hS => ⟨by simp [Cmd.gives], by simp [Cmd.takes], ?_⟩
  rw [Multiset.cons_add] at hC hS
  rw [ContextsOwned.cons_lock] at hC
  intro x σ' v _ _ hexec
  cases x with
  | ok =>
      cases hexec
      refine ⟨.lock t (m.erase h) none ::ₘ r, ?_, ?_, rfl⟩
      · rw [Multiset.cons_add, ContextsOwned.cons_lock]
        exact hC
      · rw [Multiset.cons_add]
        exact hS.erasePos
  | fail => cases hexec
  | handle => cases hexec

theorem spec_leave {m : List SOCKET} :
    Spec cls N D t e (perform .LeaveCriticalSection) (.lock t m none ::ₘ r) fun _ r' =>
      r' = r := by
  refine Spec.command fun σ F G hC hS => ⟨by simp [Cmd.gives], by simp [Cmd.takes], ?_⟩
  rw [Multiset.cons_add] at hC hS
  rw [ContextsOwned.cons_lock] at hC
  intro x σ' v _ _ hexec
  cases x with
  | ok =>
      cases hexec
      exact ⟨r, hC, hS.leave, rfl⟩
  | fail => cases hexec
  | handle => cases hexec

/-! ## Contexts -/

theorem spec_getContext (k : Kind) (s : SOCKET) :
    Spec cls N D t e (perform (.GetContext k s)) r fun v r' =>
      v = none ∧ r' = r ∧ (k = .accept → ¬ N) ∨
      ∃ c h, v = some c ∧ r' = .context t k c h ::ₘ r ∧ (k = .receive → h = s) := by
  refine Spec.command fun σ F G hC hS => ⟨by simp [Cmd.gives], by simp [Cmd.takes], ?_⟩
  intro x σ' v hN hD hexec
  cases x with
  | ok =>
      cases hexec
      refine ⟨.context t k _ (σ.taken k s).m_hSocket ::ₘ r, ?_, ?_, .inr ⟨_, _, rfl, rfl, ?_⟩⟩
      · rw [Multiset.cons_add]
        refine hC.get (σ.taken k s) ?_ rfl
        rintro d rfl
        exact hD d rfl s rfl
      · rw [Multiset.cons_add, SocketsOwned.cons_context]
        exact hS
      · rintro rfl
        rfl
  | fail =>
      obtain ⟨-, heq⟩ := Option.ite_none_left_eq_some.mp hexec
      cases heq
      refine ⟨r, hC, hS, .inl ⟨rfl, rfl, ?_⟩⟩
      rintro rfl n
      exact absurd (hN n rfl) (by simp [Cmd.loses])
  | handle => cases hexec

theorem spec_releaseContext {k : Kind} {c : Nat} {h : SOCKET} :
    Spec cls N D t e (perform (.ReleaseContext k c)) (.context t k c h ::ₘ r) fun _ r' =>
      r' = r := by
  refine Spec.command fun σ F G hC hS => ?_
  rw [Multiset.cons_add] at hC hS
  rw [SocketsOwned.cons_context] at hS
  refine ⟨?_, by simp [Cmd.takes], ?_⟩
  · intro k' c' hgives
    cases hgives
    exact hC.mem_held (Multiset.mem_cons_self _ _)
  intro x σ' v _ _ hexec
  cases x with
  | ok =>
      cases hexec
      refine ⟨r, hC.release _ ?_, hS, rfl⟩
      rintro rfl
      rfl
  | fail => cases hexec
  | handle => cases hexec

theorem spec_m_hSocket {k : Kind} {c : Nat} {h : SOCKET} :
    Spec cls N D t e (perform (.m_hSocket k c)) (.context t k c h ::ₘ r) fun v r' =>
      v = h ∧ r' = .context t k c h ::ₘ r := by
  refine Spec.command fun σ F G hC hS => ⟨by simp [Cmd.gives], by simp [Cmd.takes], ?_⟩
  intro x σ' v _ _ hexec
  cases x with
  | ok =>
      cases hexec
      refine ⟨_, hC, hS, ?_, rfl⟩
      rw [Multiset.cons_add] at hC
      exact hC.value t k c h (Multiset.mem_cons_self _ _)
  | fail => cases hexec
  | handle => cases hexec

theorem spec_setAcceptParameters {c : Nat} {h h' : SOCKET} :
    Spec cls N D t e (perform (.SetAcceptParameters c h')) (.context t .accept c h ::ₘ r)
      fun _ r' => r' = .context t .accept c h' ::ₘ r := by
  refine Spec.command fun σ F G hC hS => ⟨by simp [Cmd.gives], by simp [Cmd.takes], ?_⟩
  rw [Multiset.cons_add] at hC hS
  rw [SocketsOwned.cons_context] at hS
  intro x σ' v _ _ hexec
  cases x with
  | ok =>
      cases hexec
      refine ⟨_, ?_, ?_, rfl⟩
      · rw [Multiset.cons_add]
        exact hC.set ((σ.context .accept c).setSocket h') (by simp)
      · rw [Multiset.cons_add, SocketsOwned.cons_context]
        exact hS
  | fail => cases hexec
  | handle => cases hexec

theorem spec_setSendParameters {c : Nat} {h s : SOCKET} {data : Option (List UInt8)} {n : Nat} :
    Spec cls N D t e (perform (.SetSendParameters c s data n)) (.context t .send c h ::ₘ r)
      fun _ r' => r' = .context t .send c s ::ₘ r := by
  refine Spec.command fun σ F G hC hS => ⟨by simp [Cmd.gives], by simp [Cmd.takes], ?_⟩
  rw [Multiset.cons_add] at hC hS
  rw [SocketsOwned.cons_context] at hS
  intro x σ' v _ _ hexec
  cases x with
  | ok =>
      cases hexec
      refine ⟨_, ?_, ?_, rfl⟩
      · have hset := hC.set ((σ.context .send c).SetSendParameters s data n).1 (by simp)
        rw [Context.setSendParameters_m_hSocket] at hset
        rwa [Multiset.cons_add]
      · rw [Multiset.cons_add, SocketsOwned.cons_context]
        exact hS
  | fail => cases hexec
  | handle => cases hexec

/-! ## Posting -/

theorem post_eq_some {σ σ' : Server} {k : Kind} {c : Nat} {h : SOCKET}
    (hpost : σ.post t k c h = some σ') : ∃ conn, σ.sockets h = some conn ∧
      σ' = { σ with flight := ⟨k, c, h, conn⟩ :: σ.flight, held := σ.held.erase ⟨t, k, c⟩ } := by
  obtain ⟨conn, hopen, rfl⟩ := Option.map_eq_some_iff.mp hpost
  exact ⟨conn, hopen, rfl⟩

theorem spec_acceptEx {c : Nat} {h : SOCKET} :
    Spec cls N D t e (perform (.AcceptEx c)) (.context t .accept c h ::ₘ .socket h ::ₘ r)
      fun v r' => v = true ∧ r' = r ∨
        v = false ∧ r' = .context t .accept c h ::ₘ .socket h ::ₘ r ∧ ¬ N := by
  refine Spec.command fun σ F G hC hS => ?_
  have hC' := hC
  rw [Multiset.cons_add] at hC hS
  rw [SocketsOwned.cons_context, Multiset.cons_add] at hS
  refine ⟨?_, by simp [Cmd.takes], ?_⟩
  · intro k' c' hgives
    cases hgives
    exact hC.mem_held (Multiset.mem_cons_self _ _)
  intro x σ' v hN _ hexec
  cases x with
  | ok =>
      obtain ⟨σ₁, hpost, heq⟩ := Option.map_eq_some_iff.mp hexec
      cases heq
      have hv := hC.value t .accept c h (Multiset.mem_cons_self _ _)
      change (σ.context .accept c).m_hSocket = h at hv
      rw [hv] at hpost
      obtain ⟨conn, -, rfl⟩ := post_eq_some hpost
      refine ⟨r, ?_, hS.offer rfl rfl, .inl ⟨rfl, rfl⟩⟩
      have hnext := hC.post conn
      rwa [Multiset.cons_add, ContextsOwned.cons_socket] at hnext
  | fail =>
      cases hexec
      refine ⟨_, hC', ?_, .inr ⟨rfl, rfl, fun n => absurd (hN n rfl) (by simp [Cmd.loses])⟩⟩
      rw [Multiset.cons_add, SocketsOwned.cons_context, Multiset.cons_add]
      exact hS
  | handle => cases hexec

/-- A command that posts with a context of the thread, or fails. -/
theorem Spec.post {cmd : Cmd} {yes no : cmd.Reply → Prop} {k : Kind} {c : Nat} {h : SOCKET}
    (hgives : cmd.gives = some (k, c)) (hk : k ≠ .accept)
    (htakes : ∀ σ : Server, (σ.context k c).m_hSocket = h → D → ∀ h',
      cmd.takes σ = some h' → e.Names h')
    (hposts : ∀ σ x σ' v, (σ.context k c).m_hSocket = h → exec t e cmd σ x = some (σ', v) →
      (yes v ∧ ∃ σ₁, σ.post t k c h = some σ₁ ∧ ∃ s, σ' = { σ₁ with sends := s })
        ∨ no v ∧ σ' = σ) :
    Spec cls N D t e (perform cmd) (.context t k c h ::ₘ r)
      fun v r' => yes v ∧ r' = r ∨ no v ∧ r' = .context t k c h ::ₘ r := by
  refine Spec.command fun σ F G hC hS => ?_
  have hC' := hC
  have hS' := hS
  rw [Multiset.cons_add] at hC hS
  rw [SocketsOwned.cons_context] at hS
  have hv : (σ.context k c).m_hSocket = h := hC.value t k c h (Multiset.mem_cons_self _ _)
  refine ⟨fun k' c' hgives' => ?_, htakes σ hv, fun x σ' v _ _ hexec => ?_⟩
  · cases hgives.symm.trans hgives'
    exact hC.mem_held (Multiset.mem_cons_self _ _)
  · rcases hposts σ x σ' v hv hexec with ⟨hyes, σ₁, hpost, s, rfl⟩ | ⟨hno, rfl⟩
    · obtain ⟨conn, -, rfl⟩ := post_eq_some hpost
      exact ⟨r, hC.post conn, hS.post hk, .inl ⟨hyes, rfl⟩⟩
    · exact ⟨_, hC', hS', .inr ⟨hno, rfl⟩⟩

theorem spec_wsaRecv {c : Nat} {h : SOCKET} (hD : D → e.Names h) :
    Spec cls N D t e (perform (.WSARecv c)) (.context t .receive c h ::ₘ r)
      fun v r' => v = true ∧ r' = r ∨ v = false ∧ r' = .context t .receive c h ::ₘ r := by
  refine Spec.post rfl nofun (fun σ hv d h' htakes => ?_) fun σ x σ' v hv hexec => ?_
  · cases htakes
    rw [hv]
    exact hD d
  · cases x with
    | ok =>
        obtain ⟨σ₁, hpost, heq⟩ := Option.map_eq_some_iff.mp hexec
        cases heq
        exact .inl ⟨rfl, σ', hv ▸ hpost, σ'.sends, rfl⟩
    | fail =>
        cases hexec
        exact .inr ⟨rfl, rfl⟩
    | handle => cases hexec

theorem spec_wsaSend {c : Nat} {h : SOCKET} :
    Spec cls N D t e (perform (.WSASend c)) (.context t .send c h ::ₘ r)
      fun v r' => v = true ∧ r' = r ∨ v = false ∧ r' = .context t .send c h ::ₘ r := by
  refine Spec.post rfl nofun (fun σ _ _ => nofun) fun σ x σ' v hv hexec => ?_
  cases x with
  | ok =>
      obtain ⟨σ₁, hpost, heq⟩ := Option.map_eq_some_iff.mp hexec
      cases heq
      exact .inl ⟨rfl, σ₁, hv ▸ hpost, _, rfl⟩
  | fail =>
      cases hexec
      exact .inr ⟨rfl, rfl⟩
  | handle => cases hexec

theorem spec_transmitFile {c : Nat} {h : SOCKET} :
    Spec cls N D t e (perform (.TransmitFile c h)) (.context t .send c h ::ₘ r)
      fun v r' => v = true ∧ r' = r ∨ v = false ∧ r' = .context t .send c h ::ₘ r := by
  refine Spec.post rfl nofun (fun σ _ _ => nofun) fun σ x σ' v hv hexec => ?_
  cases x with
  | ok =>
      obtain ⟨σ₁, hpost, heq⟩ := Option.map_eq_some_iff.mp hexec
      cases heq
      exact .inl ⟨rfl, σ', hpost, σ'.sends, rfl⟩
  | fail =>
      cases hexec
      exact .inr ⟨rfl, rfl⟩
  | handle => cases hexec

theorem spec_releaseSemaphore : Spec cls N D t e (perform .ReleaseSemaphore) r fun _ r' =>
    r' = r := by
  refine Spec.command fun σ F G hC hS => ⟨by simp [Cmd.gives], by simp [Cmd.takes], ?_⟩
  intro x σ' v _ _ hexec
  cases x with
  | ok =>
      simp only [exec] at hexec
      split at hexec <;> cases hexec
      · exact ⟨r, hC, hS, rfl⟩
      · exact ⟨r, hC, hS, rfl⟩
  | fail => cases hexec
  | handle => cases hexec

/-! ## The functions -/

theorem spec_closeClientSocket {h : SOCKET} (hD : D → e.Names h) :
    Spec cls N D t e (CloseClientSocket h) r fun _ r' => r' = r := by
  refine (spec_erase hD).bind ?_
  rintro _ _ (⟨rfl, rfl⟩ | ⟨rfl, rfl⟩)
  · exact spec_closesocket hD
  · exact .pure rfl

theorem spec_closeLost {h : SOCKET} (hN : ¬ N) :
    Spec cls N D t e (CloseClientSocket h) (.socket h ::ₘ r) fun _ r' => r' = r := by
  refine (spec_eraseLost hN).bind ?_
  rintro _ _ ⟨rfl, rfl⟩
  exact .pure rfl

theorem spec_closeInvalid :
    Spec cls N D t e (CloseClientSocket INVALID_SOCKET) r fun _ r' => r' = r := by
  refine Spec.bind spec_eraseInvalid ?_
  rintro _ _ ⟨rfl, rfl⟩
  exact .pure rfl

theorem spec_sweep {l m : List SOCKET} (hl : l.Nodup) (hsub : l ⊆ m) :
    Spec cls N D t e (sweep l) (.lock t m none ::ₘ r) fun _ r' =>
      ∃ m', r' = .lock t m' none ::ₘ r := by
  induction l generalizing m with
  | nil => exact .pure ⟨m, rfl⟩
  | cons h l ih =>
      obtain ⟨hh, hl⟩ := List.nodup_cons.mp hl
      have hmem : h ∈ m := hsub List.mem_cons_self
      have hrest : l ⊆ m := fun x hx => hsub (List.mem_cons_of_mem _ hx)
      refine (spec_call _ _).bind ?_
      rintro v _ ⟨rfl, -⟩
      refine .cond (fun _ => ?_) fun _ => ih hl hrest
      refine (spec_closePos hmem).bind ?_
      rintro _ _ rfl
      refine Spec.bind spec_erasePos ?_
      rintro _ _ rfl
      refine ih hl fun x hx => (List.mem_erase_of_ne ?_).mpr (hrest hx)
      rintro rfl
      exact hh hx

theorem spec_connectTimeOutCheck :
    Spec cls N D t e ConnectTimeOutCheck r fun _ r' => r' = r := by
  refine Spec.bind spec_enter ?_
  rintro sockets _ ⟨rfl, hnodup⟩
  refine (spec_sweep hnodup (List.Subset.refl _)).bind ?_
  rintro _ _ ⟨m, rfl⟩
  exact spec_leave

theorem spec_issueAcceptOperation :
    Spec cls N D t e IssueAcceptOperation r fun _ r' => r' = r := by
  refine Spec.bind spec_wsaSocket ?_
  rintro h _ (⟨rfl, rfl⟩ | ⟨hvalid, rfl⟩)
  · rw [if_pos rfl]
    refine Spec.bind spec_closeInvalid ?_
    rintro _ _ rfl
    exact .pure rfl
  rw [if_neg hvalid]
  refine (spec_call _ _).bind ?_
  rintro v _ ⟨rfl, hv⟩
  refine .cond (fun _ => ?_) fun hfail => ?_
  · refine (spec_getContext _ _).bind ?_
    rintro _ _ (⟨rfl, rfl, hN⟩ | ⟨c, h', rfl, rfl, -⟩)
    · refine (spec_closeLost (hN rfl)).bind ?_
      rintro _ _ rfl
      exact .pure rfl
    · refine Spec.bind spec_setAcceptParameters ?_
      rintro _ _ rfl
      refine Spec.bind spec_acceptEx ?_
      rintro _ _ (⟨rfl, rfl⟩ | ⟨rfl, rfl, hN⟩)
      · exact .pure rfl
      · rw [Multiset.cons_swap]
        refine (spec_closeLost hN).bind ?_
        rintro _ _ rfl
        refine Spec.bind spec_releaseContext ?_
        rintro _ _ rfl
        exact .pure rfl
  · refine (spec_closeLost (hv hfail rfl)).bind ?_
    rintro _ _ rfl
    exact .pure rfl

theorem spec_postAcceptOperation (n : Nat) :
    Spec cls N D t e (PostAcceptOperation n) r fun _ r' => r' = r := by
  induction n with
  | zero => exact .pure rfl
  | succ n ih =>
      refine Spec.bind spec_issueAcceptOperation ?_
      rintro b _ rfl
      refine ih.bind ?_
      rintro m _ rfl
      exact .pure rfl

theorem spec_issueReceiveOperation {h : SOCKET} (hD : D → e.Names h) :
    Spec cls N D t e (IssueReceiveOperation h) r fun _ r' => r' = r := by
  refine (spec_getContext _ _).bind ?_
  rintro _ _ (⟨rfl, rfl, -⟩ | ⟨c, h', rfl, rfl, hh⟩)
  · exact .pure rfl
  obtain rfl := hh rfl
  refine (spec_wsaRecv hD).bind ?_
  rintro _ _ (⟨rfl, rfl⟩ | ⟨rfl, rfl⟩)
  · exact .pure rfl
  · refine Spec.bind spec_releaseContext ?_
    rintro _ _ rfl
    exact .pure rfl

theorem spec_sendLoop {h : SOCKET} {data : List UInt8} (rounds leavingBytes : Nat) :
    Spec cls N D t e (sendLoop h data rounds leavingBytes) r fun _ r' => r' = r := by
  induction rounds generalizing leavingBytes with
  | zero => exact .pure rfl
  | succ rounds ih =>
      refine (spec_getContext _ _).bind ?_
      rintro _ _ (⟨rfl, rfl, -⟩ | ⟨c, h', rfl, rfl, -⟩)
      · exact .pure rfl
      refine Spec.bind spec_setSendParameters ?_
      rintro leaving _ rfl
      refine Spec.bind spec_wsaSend ?_
      rintro _ _ (⟨rfl, rfl⟩ | ⟨rfl, rfl⟩)
      · rw [if_pos rfl]
        split
        · exact ih leaving
        · exact .pure rfl
      · refine Spec.bind spec_releaseContext ?_
        rintro _ _ rfl
        exact .pure rfl

theorem spec_issueSendOperation {h : SOCKET} {data : List UInt8} {n : Nat} :
    Spec cls N D t e (IssueSendOperation h data n) r fun _ r' => r' = r := by
  unfold IssueSendOperation
  split
  · exact spec_sendLoop n n
  · exact .pure rfl

theorem spec_sendData {h : SOCKET} {pVoid : Option (List UInt8)} :
    Spec cls N D t e (SendData h pVoid) r fun _ r' => r' = r := by
  refine (spec_find _).bind ?_
  rintro v _ rfl
  refine .cond (fun _ => ?_) fun _ => .pure rfl
  cases pVoid with
  | some data => exact spec_issueSendOperation
  | none => exact .pure rfl

theorem spec_sendFile {h : SOCKET} : Spec cls N D t e (SendFile h) r fun _ r' => r' = r := by
  refine (spec_find _).bind ?_
  rintro v _ rfl
  refine .cond (fun _ => ?_) fun _ => .pure rfl
  refine (spec_call _ _).bind ?_
  rintro v _ ⟨rfl, -⟩
  refine .cond (fun _ => ?_) fun _ => .pure rfl
  refine (spec_getContext _ _).bind ?_
  rintro _ _ (⟨rfl, rfl, -⟩ | ⟨c, h', rfl, rfl, -⟩)
  · exact .pure rfl
  refine Spec.bind spec_setSendParameters ?_
  rintro _ _ rfl
  refine Spec.bind spec_transmitFile ?_
  rintro _ _ (⟨rfl, rfl⟩ | ⟨rfl, rfl⟩)
  · exact .pure rfl
  · exact spec_releaseContext

/-! ## The completions -/

theorem spec_callOn {k : Kind} {c : Nat} {h : SOCKET} {f : Call} :
    Spec cls N D t e (callOn k c f) (.context t k c h ::ₘ r) fun _ r' =>
      r' = .context t k c h ::ₘ r := by
  refine Spec.bind spec_m_hSocket ?_
  rintro _ _ ⟨rfl, rfl⟩
  exact (spec_call _ _).mono fun _ _ hpost => hpost.1

theorem spec_closeOf {k : Kind} {c : Nat} {h : SOCKET} (hD : D → e.Names h) :
    Spec cls N D t e (closeOf k c) (.context t k c h ::ₘ r) fun _ r' =>
      r' = .context t k c h ::ₘ r := by
  refine Spec.bind spec_m_hSocket ?_
  rintro _ _ ⟨rfl, rfl⟩
  exact spec_closeClientSocket hD

theorem spec_refuse {c : Nat} {h : SOCKET} (hD : D → e.Names h) :
    Spec cls N D t e (refuse c) (.context t .accept c h ::ₘ r) fun _ r' => r' = r := by
  refine (spec_closeOf hD).bind ?_
  rintro _ _ rfl
  refine Spec.bind spec_releaseContext ?_
  rintro _ _ rfl
  exact .pure rfl

/-- A call on the accepted socket; if it fails, the client is refused. -/
theorem spec_callOrRefuse {c : Nat} {h : SOCKET} {f : Call} {p : Program Bool}
    (hD : D → e.Names h)
    (hp : Spec cls N D t e p (.context t .accept c h ::ₘ r) fun _ r' => r' = r) :
    Spec cls N D t e (callOn .accept c f >>= fun v => if v then p else refuse c)
      (.context t .accept c h ::ₘ r) fun _ r' => r' = r := by
  refine Spec.bind spec_callOn ?_
  rintro _ _ rfl
  exact .cond (fun _ => hp) fun _ => spec_refuse hD

theorem spec_completeAccept {c : Nat} {h : SOCKET} (hD : D → e.Names h) :
    Spec cls N D t e (CompleteAccept c) (.context t .accept c h ::ₘ .socket h ::ₘ r)
      fun _ r' => r' = r := by
  refine Spec.bind spec_m_hSocket ?_
  rintro _ _ ⟨rfl, rfl⟩
  rw [Multiset.cons_swap]
  refine Spec.bind spec_insert ?_
  rintro _ _ rfl
  refine spec_callOrRefuse hD ?_
  refine spec_callOrRefuse hD ?_
  refine spec_callOrRefuse hD ?_
  refine spec_callOrRefuse hD ?_
  refine spec_callOrRefuse hD ?_
  refine Spec.bind spec_m_hSocket ?_
  rintro _ _ ⟨rfl, rfl⟩
  refine (spec_issueReceiveOperation hD).bind ?_
  rintro _ _ rfl
  refine .cond (fun _ => ?_) fun _ => spec_refuse hD
  refine Spec.bind spec_issueAcceptOperation ?_
  rintro _ _ rfl
  refine .cond (fun _ => ?_) fun _ => ?_
  · refine Spec.bind spec_releaseContext ?_
    rintro _ _ rfl
    exact .pure rfl
  · refine Spec.bind spec_releaseSemaphore ?_
    rintro _ _ rfl
    refine Spec.bind spec_releaseContext ?_
    rintro _ _ rfl
    exact .pure rfl

theorem does_releaseLate {c : Nat} {h : SOCKET} :
    Does (ownership cls N D) t e (.ReleaseContext .receive c) (.context t .receive c h ::ₘ r, 0)
      fun _ ρ => ρ = (r, {(c, h)}) := by
  rintro σ ⟨F, G⟩ ⟨hC, hS⟩
  change ContextsOwned D σ.pool σ.flight σ.held (.context t .receive c h ::ₘ r + F) (0 + G) at hC
  change SocketsOwned N _ _ _ _ _ (.context t .receive c h ::ₘ r + F) at hS
  rw [zero_add, Multiset.cons_add] at hC
  rw [Multiset.cons_add, SocketsOwned.cons_context] at hS
  refine ⟨⟨fun q hq => absurd hq (Multiset.notMem_zero q), ?_, ?_⟩, ?_⟩
  · intro k' c' hgives
    cases hgives
    exact hC.mem_held (Multiset.mem_cons_self _ _)
  · intro _ h' htakes
    cases htakes
  rintro x σ' v - hexec
  cases x with
  | ok =>
      cases hexec
      exact ⟨(r, {(c, h)}), ⟨hC.releaseLate, hS⟩, rfl⟩
  | fail => cases hexec
  | handle => cases hexec

theorem does_readLate {c : Nat} {h : SOCKET} :
    Does (ownership cls N D) t e (.m_hSocket .receive c) (r, {(c, h)})
      fun v ρ => ρ = (r, 0) ∧ (D → v = h) := by
  rintro σ ⟨F, G⟩ ⟨hC, hS⟩
  change ContextsOwned D σ.pool σ.flight σ.held (r + F) ((c, h) ::ₘ G) at hC
  refine ⟨⟨?_, ?_, ?_⟩, ?_⟩
  · intro q hq
    rw [Multiset.mem_singleton.mp hq]
  · intro k' c' hgives
    cases hgives
  · intro _ h' htakes
    cases htakes
  rintro x σ' v - hexec
  cases x with
  | ok =>
      cases hexec
      refine ⟨(r, 0), ⟨?_, hS⟩, rfl, fun d => hC.late d _ (Multiset.mem_cons_self _ _)⟩
      change ContextsOwned D σ.pool σ.flight σ.held (r + F) (0 + G)
      rw [zero_add]
      exact hC.forget
  | fail => cases hexec
  | handle => cases hexec

theorem spec_releaseAndClose {c : Nat} {h : SOCKET} (hD : D → e.Names h) :
    Spec cls N D t e (releaseAndClose c) (.context t .receive c h ::ₘ r) fun _ r' => r' = r := by
  refine wp_call does_releaseLate ?_
  rintro _ _ rfl
  refine wp_after (P := fun _ ρ => ρ = (r, 0)) (wp_call does_readLate ?_) ?_
  · rintro v _ ⟨rfl, hv⟩
    refine wp_mono (spec_closeClientSocket fun d => hv d ▸ hD d) ?_
    rintro _ _ ⟨r', rfl, rfl⟩
    rfl
  · rintro _ _ rfl
    exact wp_ret ⟨r, rfl, rfl⟩

theorem spec_saveReceivedData {h : SOCKET} {data : List UInt8} :
    Spec cls N D t e (SaveReceivedData cls h data) r fun _ r' => r' = r := by
  cases cls with
  | CTcpServer => exact .pure rfl
  | CWebServer =>
      refine Spec.bind spec_sendData ?_
      rintro _ _ rfl
      exact .pure rfl

theorem spec_completeReceive {c : Nat} {h : SOCKET} {data : List UInt8} (hD : D → e.Names h) :
    Spec cls N D t e (CompleteReceive cls c data) (.context t .receive c h ::ₘ r)
      fun _ r' => r' = r := by
  unfold CompleteReceive
  split
  · refine Spec.bind spec_callOn ?_
    rintro _ _ rfl
    refine .cond (fun _ => ?_) fun _ => spec_releaseAndClose hD
    refine Spec.bind spec_m_hSocket ?_
    rintro _ _ ⟨rfl, rfl⟩
    refine Spec.bind spec_saveReceivedData ?_
    rintro _ _ rfl
    refine Spec.bind spec_m_hSocket ?_
    rintro _ _ ⟨rfl, rfl⟩
    refine (spec_issueReceiveOperation hD).bind ?_
    rintro _ _ rfl
    refine .cond (fun _ => ?_) fun _ => spec_releaseAndClose hD
    refine Spec.bind spec_releaseContext ?_
    rintro _ _ rfl
    exact .pure rfl
  · refine (spec_closeOf hD).bind ?_
    rintro _ _ rfl
    refine Spec.bind spec_releaseContext ?_
    rintro _ _ rfl
    exact .pure rfl

theorem spec_completeSend {c : Nat} {h : SOCKET} :
    Spec cls N D t e (CompleteSend c) (.context t .send c h ::ₘ r) fun _ r' => r' = r := by
  refine Spec.bind spec_m_hSocket ?_
  rintro _ _ ⟨rfl, rfl⟩
  refine Spec.bind spec_issueSendOperation ?_
  rintro _ _ rfl
  refine Spec.bind spec_releaseContext ?_
  rintro _ _ rfl
  exact .pure rfl

/-- What a thread takes over from an operation that completes. -/
def Op.tokens (t : Nat) (op : Op) : Multiset Token :=
  .context t op.kind op.ctx op.h ::ₘ if op.kind = .accept then {.socket op.h} else 0

/-- The socket of an accept that failed is not registered, and is lost. -/
theorem spec_workThread {op : Op} {bResult : Bool} {data : List UInt8} (hD : D → e.Names op.h)
    (hN : N → op.kind = .accept → bResult = true) :
    Spec cls N D t e (WorkThread cls op bResult data) (op.tokens t) fun _ r' => r' = 0 := by
  unfold Op.tokens WorkThread
  split
  · split
    · rename_i haccept
      have hfail : ¬ N := fun n => absurd (hN n haccept) Bool.false_ne_true
      refine Spec.bind (Q := fun _ r' => r' = {.context t op.kind op.ctx op.h}) ?_ ?_
      · refine Spec.bind spec_m_hSocket ?_
        rintro _ _ ⟨rfl, rfl⟩
        rw [← Multiset.cons_zero (Token.socket op.h), Multiset.cons_swap]
        exact spec_closeLost hfail
      · rintro _ _ rfl
        exact spec_releaseContext
    · refine (spec_closeOf hD).bind ?_
      rintro _ _ rfl
      exact spec_releaseContext
  · rename_i hk
    rw [hk, if_pos rfl]
    refine (spec_completeAccept hD).bind ?_
    rintro _ _ rfl
    exact .pure rfl
  · rename_i hk
    rw [hk, if_neg (show ¬ Kind.receive = Kind.accept by simp)]
    split
    · refine (spec_closeOf hD).bind ?_
      rintro _ _ rfl
      exact spec_releaseContext
    · refine (spec_completeReceive hD).bind ?_
      rintro _ _ rfl
      exact .pure rfl
  · rename_i hk
    rw [hk, if_neg (show ¬ Kind.send = Kind.accept by simp)]
    refine Spec.bind spec_completeSend ?_
    rintro _ _ rfl
    exact .pure rfl

/-- What a thread takes over when an event begins. -/
def Event.tokens (t : Nat) : Event → Multiset Token
  | .completion op _ _ => op.tokens t
  | _ => 0

theorem spec_program (hN : N → ∀ op b data, e = .completion op b data →
    op.kind = .accept → b = true) :
    Spec cls N D t e (e.program cls) (e.tokens t) fun _ r' => r' = 0 := by
  cases e with
  | InitServer =>
      refine (spec_postAcceptOperation _).bind ?_
      rintro _ _ rfl
      exact .pure rfl
  | FD_ACCEPT =>
      refine (spec_postAcceptOperation _).bind ?_
      rintro _ _ rfl
      exact .pure rfl
  | semaphore =>
      refine (spec_postAcceptOperation _).bind ?_
      rintro _ _ rfl
      exact .pure rfl
  | completion op b data =>
      exact spec_workThread (fun _ => rfl) fun n hk => hN n op b data rfl hk
  | TimerProc => exact spec_connectTimeOutCheck
  | SendData sock pVoid =>
      refine Spec.bind spec_sendData ?_
      rintro _ _ rfl
      exact .pure rfl
  | SendFile sock => exact spec_sendFile

/-! ## Runs -/

theorem owned_start (n : SOCKET) : (ownership cls N D).Inv (.start n) 0 := by
  refine ⟨⟨?_, rfl, ?_, ?_, ?_⟩, ⟨?_, ?_, rfl, List.nodup_nil, rfl, fun _ => rfl, ?_⟩⟩
  · rintro (_ | _ | _)
    · exact Pool.whole_initContextPool _
    · exact Pool.whole_initContextPool _
    · exact Pool.whole_initContextPool _
  · intro t k c h hmem
    exact absurd hmem (Multiset.notMem_zero _)
  · intro op hop
    cases hop
  · intro _ q hq
    exact absurd hq (Multiset.notMem_zero _)
  · intro h
    exact Nat.le_of_eq rfl
  · intro _ h
    exact Nat.le_of_eq rfl
  · intro h hc
    cases hc

theorem owned_spawn {σ σ' : Server} {F : Multiset Token × Late} {p : Program Unit}
    (hN : N → ∀ op b data, e = .completion op b data → op.kind = .accept → b = true)
    (hinv : (ownership cls N D).Inv σ F) (hspawn : spawn cls t e σ = some (σ', p)) :
    ∃ r, (ownership cls N D).Inv σ' (r + F) ∧
      wp (ownership cls N D) t e p (fun _ r' => r' = 0) r := by
  obtain ⟨F, G⟩ := F
  obtain ⟨hC, hS⟩ := hinv
  refine ⟨(e.tokens t, 0), ?_, ?_⟩
  · change ContextsOwned D σ'.pool σ'.flight σ'.held (e.tokens t + F) (0 + G) ∧
      SocketsOwned N σ'.m_mapAcceptSockQueue σ'.sockets σ'.m_struCriSec σ'.closed σ'.flight
        (e.tokens t + F)
    rw [zero_add]
    cases e with
    | completion op b data =>
        simp only [spawn] at hspawn
        split at hspawn
        · rename_i hop
          cases hspawn
          simp only [Event.tokens, Op.tokens]
          split
          · rename_i hk
            rw [Multiset.cons_add, Multiset.singleton_add]
            refine ⟨?_, ?_⟩
            · exact (ContextsOwned.complete ((ContextsOwned.cons_socket (h := op.h)).mpr hC) hop)
            · rw [SocketsOwned.cons_context]
              exact hS.completeAccept hop hk
          · rename_i hk
            rw [Multiset.cons_add, zero_add, SocketsOwned.cons_context]
            exact ⟨hC.complete hop, hS.complete hop hk⟩
        · cases hspawn
    | semaphore =>
        simp only [spawn] at hspawn
        split at hspawn
        · cases hspawn
          exact ⟨(zero_add F).symm ▸ hC, (zero_add F).symm ▸ hS⟩
        · cases hspawn
    | InitServer => cases hspawn; exact ⟨(zero_add F).symm ▸ hC, (zero_add F).symm ▸ hS⟩
    | FD_ACCEPT => cases hspawn; exact ⟨(zero_add F).symm ▸ hC, (zero_add F).symm ▸ hS⟩
    | TimerProc => cases hspawn; exact ⟨(zero_add F).symm ▸ hC, (zero_add F).symm ▸ hS⟩
    | SendData => cases hspawn; exact ⟨(zero_add F).symm ▸ hC, (zero_add F).symm ▸ hS⟩
    | SendFile => cases hspawn; exact ⟨(zero_add F).symm ▸ hC, (zero_add F).symm ▸ hS⟩
  · have hp : p = e.program cls := by
      unfold spawn at hspawn
      split at hspawn
      · split at hspawn <;> cases hspawn
        rfl
      · split at hspawn <;> cases hspawn
        rfl
      · cases hspawn
        rfl
    subst hp
    refine wp_mono (spec_program hN) ?_
    rintro _ _ ⟨r', rfl, rfl⟩
    rfl

/-- Nothing is refused that leaves a socket unregistered. -/
def NothingRefused (m : Machine) : Action → Prop
  | .run t .fail =>
      match m.next t with
      | some c => c.loses = false
      | none => True
  | .begin _ (.completion op false _) => op.kind ≠ .accept
  | _ => True

/-- No receive context is handed out while a thread stands before reading it. -/
def NotReread (m : Machine) : Action → Prop
  | .run t .ok =>
      match m.next t with
      | some (.GetContext .receive _) => ∀ u < m.threads.length,
          m.next u ≠ some (.m_hSocket .receive (m.shared.pool .receive).GetContext.1)
      | _ => True
  | _ => True

instance (m : Machine) (a : Action) : Decidable (NothingRefused m a) := by
  unfold NothingRefused
  split
  · split <;> infer_instance
  · infer_instance
  · infer_instance

instance (m : Machine) (a : Action) : Decidable (NotReread m a) := by
  unfold NotReread
  split
  · split <;> infer_instance
  · infer_instance

theorem owned_run {cond : Machine → Action → Prop} {n : SOCKET} {threads : Nat} {m : Machine}
    (hN : N → ∀ m a, cond m a → NothingRefused m a) (hD : D → ∀ m a, cond m a → NotReread m a)
    (h : Via (system cls).step cond (idle n threads) m) :
    ∃ rs, (ownership cls N D).Good m rs := by
  refine (ownership cls N D).run ?_ ?_ ⟨_, (ownership cls N D).good_start (owned_start n)⟩ h
  · intro m rs hgood t x e c hcond _ hc
    refine ⟨?_, ?_⟩
    · rintro n rfl
      have hlose := hN n m _ hcond
      simpa only [NothingRefused, hc] using hlose
    · rintro d rfl s rfl q hq heq
      have hreread := hD d m _ hcond
      simp only [NotReread, hc] at hreread
      obtain ⟨u, hu, e', c', r, -, hc', hqr, hpre⟩ := hgood.owner
        (P := fun r => q ∈ r.2) (Multiset.notMem_zero q) (fun _ _ => Multiset.mem_add.mp) hq
      refine hreread u hu ?_
      rw [hc', hpre.1 q hqr, heq]
  · intro m t e σ p F hcond hinv hspawn
    refine owned_spawn ?_ hinv hspawn
    rintro n op b data rfl hk
    have hok := hN n m _ hcond
    cases b with
    | true => rfl
    | false => exact absurd hk hok

end

end CppWorkspace.TcpServer
