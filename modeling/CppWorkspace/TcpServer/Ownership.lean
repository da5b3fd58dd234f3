/-
# `CppWorkspace.TcpServer.Ownership` — what the threads of `CTcpServer` own

A thread owns tokens, each the right to use something that no other thread uses:

    context t k c h    context `c` of pool `k`, whose `m_hSocket` is `h`
    socket h           the open socket `h`, neither registered nor offered to `AcceptEx`
    lock t map closed  `m_struCriSec`, and what `ConnectTimeOutCheck` knows there

and, between `ReleaseContext` and the read that follows it in `CompleteReceive`,
the pair `(c, h)`: the receive context it gave back, and what it expects to read.

    ContextsOwned    idle stacks, operations in flight and tokens hold each context once
    SocketsOwned     the map, offered sockets and tokens hold each open socket once
-/
import Mathlib.Data.Multiset.Filter
import Mathlib.Data.Multiset.Count
import CppWorkspace.TcpServer.Server

namespace CppWorkspace.TcpServer

open Programs Runs

/-- What a thread may own. -/
inductive Token
  | context (t : Nat) (k : Kind) (c : Nat) (h : SOCKET)
  | socket (h : SOCKET)
  | lock (t : Nat) (map : List SOCKET) (closed : Option SOCKET)
  deriving DecidableEq

namespace Token

def holding : Token → Option Holding
  | context t k c _ => some ⟨t, k, c⟩
  | _ => none

@[simp] theorem filterMap_holding {t : Nat} {k : Kind} {c : Nat} {h : SOCKET}
    {R : Multiset Token} : (context t k c h ::ₘ R).filterMap holding =
      ⟨t, k, c⟩ ::ₘ R.filterMap holding :=
  Multiset.filterMap_cons_some _ _ _ rfl

def locking : Token → Option (Nat × List SOCKET × Option SOCKET)
  | lock t map closed => some (t, map, closed)
  | _ => none

@[simp] theorem filterMap_locking {t : Nat} {map : List SOCKET} {closed : Option SOCKET}
    {R : Multiset Token} : (lock t map closed ::ₘ R).filterMap locking =
      (t, map, closed) ::ₘ R.filterMap locking :=
  Multiset.filterMap_cons_some _ _ _ rfl

end Token

/-- Contexts that were given back and will be read again, with what is expected. -/
abbrev Late := Multiset (Nat × SOCKET)

/-! ## Contexts -/

/-- How often a context is attached to an operation or held. -/
def elsewhere (flight : List Op) (held : List Holding) (k : Kind) (c : Nat) : Nat :=
  flight.countP (fun op => op.kind = k ∧ op.ctx = c) +
    held.countP (fun x => x.kind = k ∧ x.ctx = c)

section
variable {flight : List Op} {held : List Holding} {op : Op} {x : Holding} {k : Kind} {c : Nat}

theorem elsewhere_cons_op : elsewhere (op :: flight) held k c =
    elsewhere flight held k c + if op.kind = k ∧ op.ctx = c then 1 else 0 := by
  simp only [elsewhere, List.countP_cons, decide_eq_true_eq]
  exact Nat.add_right_comm ..

theorem elsewhere_cons_holding : elsewhere flight (x :: held) k c =
    elsewhere flight held k c + if x.kind = k ∧ x.ctx = c then 1 else 0 := by
  simp only [elsewhere, List.countP_cons, decide_eq_true_eq]
  exact (Nat.add_assoc ..).symm

theorem elsewhere_erase_op (h : op ∈ flight) : elsewhere flight held k c =
    elsewhere (flight.erase op) held k c + if op.kind = k ∧ op.ctx = c then 1 else 0 := by
  rw [← elsewhere_cons_op, elsewhere, (List.perm_cons_erase h).countP_eq]
  rfl

theorem elsewhere_erase_holding (h : x ∈ held) : elsewhere flight held k c =
    elsewhere flight (held.erase x) k c + if x.kind = k ∧ x.ctx = c then 1 else 0 := by
  rw [← elsewhere_cons_holding, elsewhere, (List.perm_cons_erase h).countP_eq]
  rfl

theorem elsewhere_pos_of_op (h : op ∈ flight) : 0 < elsewhere flight held op.kind op.ctx := by
  rw [elsewhere_erase_op h, if_pos ⟨rfl, rfl⟩]
  exact Nat.succ_pos _

theorem elsewhere_pos_of_holding (h : x ∈ held) : 0 < elsewhere flight held x.kind x.ctx := by
  rw [elsewhere_erase_holding h, if_pos ⟨rfl, rfl⟩]
  exact Nat.succ_pos _

end

/-- Each context is idle, in flight or held, and contexts in use keep their socket. -/
structure ContextsOwned (D : Prop) (pool : Kind → Pool) (flight : List Op) (held : List Holding)
    (R : Multiset Token) (T : Late) : Prop where
  whole : ∀ k, (pool k).Whole (elsewhere flight held k)
  held : (held : Multiset Holding) = R.filterMap Token.holding
  value : ∀ t k c h, .context t k c h ∈ R → ((pool k).context c).m_hSocket = h
  flight : ∀ op ∈ flight, ((pool op.kind).context op.ctx).m_hSocket = op.h
  late : D → ∀ q ∈ T, ((pool .receive).context q.1).m_hSocket = q.2

namespace ContextsOwned

variable {D : Prop} {pool : Kind → Pool} {flight : List Op} {held : List Holding}
  {R : Multiset Token} {T : Late} {t : Nat} {k : Kind} {c : Nat} {h : SOCKET} {op : Op}

theorem cons_iff {q : Token} (hq : q.holding = none) :
    ContextsOwned D pool flight held (q ::ₘ R) T ↔ ContextsOwned D pool flight held R T := by
  have hmem : ∀ t k c h, Token.context t k c h ∈ q ::ₘ R ↔ Token.context t k c h ∈ R := by
    intro t k c h
    rw [Multiset.mem_cons]
    refine or_iff_right ?_
    rintro rfl
    cases hq
  constructor
  · intro H
    exact ⟨H.whole, by rw [H.held, Multiset.filterMap_cons_none _ _ hq],
      fun t k c h hc => H.value t k c h ((hmem t k c h).mpr hc), H.flight, H.late⟩
  · intro H
    exact ⟨H.whole, by rw [H.held, Multiset.filterMap_cons_none _ _ hq],
      fun t k c h hc => H.value t k c h ((hmem t k c h).mp hc), H.flight, H.late⟩

@[simp] theorem cons_socket :
    ContextsOwned D pool flight held (.socket h ::ₘ R) T ↔
      ContextsOwned D pool flight held R T :=
  cons_iff rfl

@[simp] theorem cons_lock {map : List SOCKET} {closed : Option SOCKET} :
    ContextsOwned D pool flight held (.lock t map closed ::ₘ R) T ↔
      ContextsOwned D pool flight held R T :=
  cons_iff rfl

theorem mem_held (H : ContextsOwned D pool flight held R T) (hc : .context t k c h ∈ R) :
    ⟨t, k, c⟩ ∈ held := by
  rw [← Multiset.mem_coe, H.held, Multiset.mem_filterMap]
  exact ⟨_, hc, rfl⟩

/-- What one thread holds is not in flight, and no other thread holds it. -/
theorem exclusive (H : ContextsOwned D pool flight held (.context t k c h ::ₘ R) T) :
    (∀ t' h', .context t' k c h' ∉ R) ∧ ∀ op ∈ flight, ¬ (op.kind = k ∧ op.ctx = c) := by
  have hheld : (held : Multiset Holding) = ⟨t, k, c⟩ ::ₘ R.filterMap Token.holding := by
    rw [H.held, Token.filterMap_holding]
  have honce := (H.whole k).once c
  rw [elsewhere] at honce
  have hcount : held.countP (fun x => x.kind = k ∧ x.ctx = c) =
      Multiset.countP (fun x => x.kind = k ∧ x.ctx = c) (held : Multiset Holding) := by
    rw [Multiset.coe_countP]
  rw [hcount, hheld, Multiset.countP_cons_of_pos _ ⟨rfl, rfl⟩] at honce
  constructor
  · intro t' h' hc'
    have hpos : 0 < Multiset.countP (fun x : Holding => x.kind = k ∧ x.ctx = c)
        (R.filterMap Token.holding) := by
      refine Multiset.countP_pos.mpr ⟨⟨t', k, c⟩, ?_, rfl, rfl⟩
      exact (Multiset.mem_filterMap _ _).mpr ⟨_, hc', rfl⟩
    omega
  · intro op hop hctx
    have hpos : 0 < flight.countP (fun op => op.kind = k ∧ op.ctx = c) :=
      List.countP_pos_iff.mpr ⟨op, hop, by simpa using hctx⟩
    omega

theorem held_erase (H : ContextsOwned D pool flight held (.context t k c h ::ₘ R) T) :
    ((held.erase ⟨t, k, c⟩ : List Holding) : Multiset Holding) =
      R.filterMap Token.holding := by
  rw [← Multiset.coe_erase, H.held, Token.filterMap_holding, Multiset.erase_cons_head]

theorem whole_setPool {p : Pool} {rest rest' : Kind → Nat → Nat} (h : ∀ k, (pool k).Whole (rest k))
    (hp : p.Whole (rest' k)) (hne : ∀ k', k' ≠ k → ∀ d, rest' k' d = rest k' d) (k' : Kind) :
    (Pool.setPool pool k p k').Whole (rest' k') := by
  by_cases hk : k' = k
  · subst hk
    rwa [Pool.setPool_self]
  · rw [Pool.setPool_of_ne hk]
    exact (h k').congr (hne k' hk)

/-- `GetContext`: a context that no operation and no thread has. -/
theorem get (H : ContextsOwned D pool flight held R T) (x : Context)
    (hlate : D → k = .receive → ∀ q ∈ T, q.1 ≠ (pool k).GetContext.1)
    (hc : (pool k).GetContext.1 = c) :
    ContextsOwned D (Pool.setPool pool k ((pool k).GetContext.2.set c x)) flight
      (⟨t, k, c⟩ :: held) (.context t k c x.m_hSocket ::ₘ R) T := by
  have hnew : elsewhere flight held k c = 0 := hc ▸ (H.whole k).rest_getContext
  have hctx : ∀ k' c', (Pool.setPool pool k ((pool k).GetContext.2.set c x) k').context c' =
      if k' = k ∧ c' = c then x else (pool k').context c' :=
    fun k' c' => Pool.setPool_context Pool.getContext_context
  refine ⟨?_, ?_, ?_, ?_, ?_⟩
  · refine whole_setPool H.whole (Pool.Whole.set ?_) ?_
    · refine (H.whole k).getContext fun d => ?_
      rw [elsewhere_cons_holding, hc]
      simp [eq_comm]
    · rintro k' hk d
      rw [elsewhere_cons_holding, if_neg fun h => hk h.1.symm, Nat.add_zero]
  · rw [Token.filterMap_holding, ← H.held, Multiset.cons_coe]
  · intro t' k' c' h' hmem
    rw [hctx]
    rcases Multiset.mem_cons.mp hmem with heq | hR
    · cases heq
      rw [if_pos ⟨rfl, rfl⟩]
    · rw [if_neg]
      · exact H.value t' k' c' h' hR
      · rintro ⟨rfl, rfl⟩
        exact absurd hnew (elsewhere_pos_of_holding (H.mem_held hR)).ne'
  · intro op hop
    rw [hctx, if_neg]
    · exact H.flight op hop
    · rintro ⟨rfl, rfl⟩
      exact absurd hnew (elsewhere_pos_of_op hop).ne'
  · intro hD q hq
    rw [hctx, if_neg]
    · exact H.late hD q hq
    · rintro ⟨rfl, rfl⟩
      exact hlate hD rfl q hq hc.symm

/-- `ReleaseContext`: the context is idle. -/
theorem release (H : ContextsOwned D pool flight held (.context t k c h ::ₘ R) T) (x : Context)
    (hx : k = .receive → x = (pool k).context c) :
    ContextsOwned D (Pool.setPool pool k (((pool k).ReleaseContext c).set c x)) flight
      (held.erase ⟨t, k, c⟩) R T := by
  obtain ⟨hothers, hflight⟩ := H.exclusive
  have hmem := H.mem_held (Multiset.mem_cons_self _ _)
  have hctx : ∀ k' c', (Pool.setPool pool k (((pool k).ReleaseContext c).set c x) k').context c' =
      if k' = k ∧ c' = c then x else (pool k').context c' :=
    fun k' c' => Pool.setPool_context Pool.releaseContext_context
  refine ⟨?_, H.held_erase, ?_, ?_, ?_⟩
  · refine whole_setPool H.whole (Pool.Whole.set ?_) ?_
    · refine (H.whole k).releaseContext fun d => ?_
      rw [elsewhere_erase_holding hmem]
      simp [eq_comm]
    · rintro k' hk d
      rw [elsewhere_erase_holding (k := k') hmem, if_neg fun h => hk h.1.symm, Nat.add_zero]
  · intro t' k' c' h' hmem'
    rw [hctx, if_neg]
    · exact H.value t' k' c' h' (Multiset.mem_cons_of_mem hmem')
    · rintro ⟨rfl, rfl⟩
      exact hothers t' h' hmem'
  · intro op hop
    rw [hctx, if_neg (hflight op hop)]
    exact H.flight op hop
  · intro hD q hq
    rw [hctx]
    split
    · rename_i heq
      obtain ⟨hk, hqc⟩ := heq
      rw [hx hk.symm, ← hk, ← hqc]
      exact H.late hD q hq
    · exact H.late hD q hq

/-- The release in the error branches of `CompleteReceive`: the context will be read again. -/
theorem releaseLate
    (H : ContextsOwned D pool flight held (.context t .receive c h ::ₘ R) T) :
    ContextsOwned D
      (Pool.setPool pool .receive
        (((pool .receive).ReleaseContext c).set c ((pool .receive).context c)))
      flight (held.erase ⟨t, .receive, c⟩) R ((c, h) ::ₘ T) := by
  have hrel := H.release ((pool .receive).context c) fun _ => rfl
  refine ⟨hrel.whole, hrel.held, hrel.value, hrel.flight, ?_⟩
  intro hD q hq
  rcases Multiset.mem_cons.mp hq with rfl | hq
  · rw [Pool.setPool_context Pool.releaseContext_context, if_pos ⟨rfl, rfl⟩]
    exact H.value t .receive c h (Multiset.mem_cons_self _ _)
  · exact hrel.late hD q hq

theorem forget {q : Nat × SOCKET} (H : ContextsOwned D pool flight held R (q ::ₘ T)) :
    ContextsOwned D pool flight held R T :=
  ⟨H.whole, H.held, H.value, H.flight,
    fun hD q' hq' => H.late hD q' (Multiset.mem_cons_of_mem hq')⟩

theorem set (H : ContextsOwned D pool flight held (.context t k c h ::ₘ R) T) (x : Context)
    (hk : k ≠ .receive) :
    ContextsOwned D (Pool.setPool pool k ((pool k).set c x)) flight held
      (.context t k c x.m_hSocket ::ₘ R) T := by
  obtain ⟨hothers, hflight⟩ := H.exclusive
  have hctx : ∀ k' c', (Pool.setPool pool k ((pool k).set c x) k').context c' =
      if k' = k ∧ c' = c then x else (pool k').context c' :=
    fun k' c' => Pool.setPool_context rfl
  refine ⟨?_, ?_, ?_, ?_, ?_⟩
  · exact whole_setPool H.whole (H.whole k).set fun _ _ _ => rfl
  · rw [H.held, Token.filterMap_holding, Token.filterMap_holding]
  · intro t' k' c' h' hmem
    rw [hctx]
    rcases Multiset.mem_cons.mp hmem with heq | hR
    · cases heq
      rw [if_pos ⟨rfl, rfl⟩]
    · rw [if_neg]
      · exact H.value t' k' c' h' (Multiset.mem_cons_of_mem hR)
      · rintro ⟨rfl, rfl⟩
        exact hothers t' h' hR
  · intro op hop
    rw [hctx, if_neg (hflight op hop)]
    exact H.flight op hop
  · intro hD q hq
    rw [hctx, if_neg fun heq => hk heq.1.symm]
    exact H.late hD q hq

/-- An operation is accepted: the context goes with it. -/
theorem post (H : ContextsOwned D pool flight held (.context t k c h ::ₘ R) T) (conn : Nat) :
    ContextsOwned D pool (⟨k, c, h, conn⟩ :: flight) (held.erase ⟨t, k, c⟩) R T := by
  have hmem := H.mem_held (Multiset.mem_cons_self _ _)
  refine ⟨?_, H.held_erase, ?_, ?_, H.late⟩
  · intro k'
    refine (H.whole k').congr fun d => ?_
    rw [elsewhere_cons_op, elsewhere_erase_holding hmem]
  · intro t' k' c' h' hmem'
    exact H.value t' k' c' h' (Multiset.mem_cons_of_mem hmem')
  · intro op hop
    rcases List.mem_cons.mp hop with rfl | hop
    · exact H.value t k c h (Multiset.mem_cons_self _ _)
    · exact H.flight op hop

/-- A completion: the thread takes the context of the operation. -/
theorem complete (H : ContextsOwned D pool flight held R T) (hop : op ∈ flight) :
    ContextsOwned D pool (flight.erase op) (⟨t, op.kind, op.ctx⟩ :: held)
      (.context t op.kind op.ctx op.h ::ₘ R) T := by
  refine ⟨?_, ?_, ?_, ?_, H.late⟩
  · intro k'
    refine (H.whole k').congr fun d => ?_
    rw [elsewhere_cons_holding, elsewhere_erase_op hop]
  · rw [Token.filterMap_holding, ← H.held, Multiset.cons_coe]
  · intro t' k' c' h' hmem
    rcases Multiset.mem_cons.mp hmem with heq | hmem
    · cases heq
      exact H.flight op hop
    · exact H.value t' k' c' h' hmem
  · intro op' hop'
    exact H.flight op' (List.mem_of_mem_erase hop')

end ContextsOwned

/-! ## Sockets -/

/-- How many operations in flight offer `h` to `AcceptEx`. -/
def offered (flight : List Op) (h : SOCKET) : Nat :=
  flight.countP fun op => op.kind = .accept ∧ op.h = h

/-- How many places a handle has: one if it is open, and one if it is closed and
still registered. -/
def due (sockets : SOCKET → Option Nat) (closed : Option SOCKET) (h : SOCKET) : Nat :=
  (if (sockets h).isSome then 1 else 0) + if closed = some h then 1 else 0

section
variable {flight : List Op} {op : Op} {h h' : SOCKET} {sockets : SOCKET → Option Nat}
  {closed : Option SOCKET}

theorem offered_cons : offered (op :: flight) h =
    offered flight h + if op.kind = .accept ∧ op.h = h then 1 else 0 := by
  simp only [offered, List.countP_cons, decide_eq_true_eq]

theorem offered_erase (hop : op ∈ flight) : offered flight h =
    offered (flight.erase op) h + if op.kind = .accept ∧ op.h = h then 1 else 0 := by
  rw [← offered_cons, offered, (List.perm_cons_erase hop).countP_eq]
  rfl

theorem due_open (n : Nat) (hopen : sockets h = none) :
    due (Pool.write sockets h (some n)) closed h' =
      due sockets closed h' + if h' = h then 1 else 0 := by
  by_cases heq : h' = h
  · subst heq
    simp [due, hopen, Nat.add_comm]
  · simp [due, Pool.write_of_ne heq, heq]

theorem due_close {n : Nat} (hopen : sockets h = some n) :
    due sockets closed h' =
      due (Pool.write sockets h none) closed h' + if h' = h then 1 else 0 := by
  by_cases heq : h' = h
  · subst heq
    simp [due, hopen, Nat.add_comm]
  · simp [due, Pool.write_of_ne heq, heq]

end

/-- Each open socket is registered, offered to `AcceptEx` or owned.  With `N`,
nothing but these is open. -/
structure SocketsOwned (N : Prop) (map : List SOCKET) (sockets : SOCKET → Option Nat)
    (lock : Option Nat) (closed : Option SOCKET) (flight : List Op) (R : Multiset Token) :
    Prop where
  atMost : ∀ h, map.count h + offered flight h + R.count (.socket h) ≤ due sockets closed h
  atLeast : N → ∀ h, due sockets closed h ≤ map.count h + offered flight h + R.count (.socket h)
  valid : sockets INVALID_SOCKET = none
  nodup : map.Nodup
  locked : R.filterMap Token.locking = match lock with
    | none => 0
    | some t => {(t, map, closed)}
  unlocked : lock = none → closed = none
  registered : ∀ h, closed = some h → h ∈ map

namespace SocketsOwned

variable {N : Prop} {map : List SOCKET} {sockets : SOCKET → Option Nat} {lock : Option Nat}
  {closed : Option SOCKET} {flight : List Op} {R : Multiset Token} {h : SOCKET} {t : Nat} {op : Op}

@[simp] theorem cons_context {k : Kind} {c : Nat} {h : SOCKET} :
    SocketsOwned N map sockets lock closed flight (.context t k c h ::ₘ R) ↔
      SocketsOwned N map sockets lock closed flight R := by
  have hcount : ∀ h', (Token.context t k c h ::ₘ R).count (.socket h') = R.count (.socket h') :=
    fun h' => Multiset.count_cons_of_ne (by simp) _
  have hlock : (Token.context t k c h ::ₘ R).filterMap Token.locking =
      R.filterMap Token.locking :=
    Multiset.filterMap_cons_none _ _ rfl
  constructor
  · intro H
    exact ⟨fun h' => hcount h' ▸ H.atMost h', fun hN h' => hcount h' ▸ H.atLeast hN h', H.valid,
      H.nodup, hlock ▸ H.locked, H.unlocked, H.registered⟩
  · intro H
    exact ⟨fun h' => (hcount h').symm ▸ H.atMost h',
      fun hN h' => (hcount h').symm ▸ H.atLeast hN h', H.valid,
      H.nodup, hlock.symm ▸ H.locked, H.unlocked, H.registered⟩

theorem count_cons_socket {h h' : SOCKET} : (Token.socket h ::ₘ R).count (.socket h') =
    R.count (.socket h') + if h' = h then 1 else 0 := by
  simp [Multiset.count_cons]

theorem filterMap_cons_socket : (Token.socket h ::ₘ R).filterMap Token.locking =
    R.filterMap Token.locking :=
  Multiset.filterMap_cons_none _ _ rfl

theorem count_cons_lock {m : List SOCKET} {s : Option SOCKET} :
    (Token.lock t m s ::ₘ R).count (.socket h) = R.count (.socket h) :=
  Multiset.count_cons_of_ne (by simp) _

theorem isOpen (H : SocketsOwned N map sockets lock closed flight (.socket h ::ₘ R)) :
    ∃ n, sockets h = some n := by
  have hle := H.atMost h
  rw [count_cons_socket, if_pos rfl] at hle
  cases ho : sockets h with
  | some n => exact ⟨n, rfl⟩
  | none =>
      by_cases hc : closed = some h
      · have hpos := List.count_pos_iff.mpr (H.registered h hc)
        simp [due, ho, hc] at hle
        omega
      · simp [due, ho, hc] at hle

theorem notMem (H : SocketsOwned N map sockets lock closed flight (.socket h ::ₘ R))
    (hlock : lock = none) : h ∉ map := by
  have hle := H.atMost h
  rw [count_cons_socket, if_pos rfl, H.unlocked hlock] at hle
  intro hmem
  have hpos := List.count_pos_iff.mpr hmem
  have hone : due sockets none h ≤ 1 := by
    simp only [due]
    split <;> simp
  omega

theorem invalid_notMem (H : SocketsOwned N map sockets lock closed flight R)
    (hlock : lock = none) : INVALID_SOCKET ∉ map := by
  have hle := H.atMost INVALID_SOCKET
  rw [H.unlocked hlock] at hle
  intro hmem
  have hpos := List.count_pos_iff.mpr hmem
  simp [due, H.valid] at hle
  omega

theorem isOpen_of_mem (H : SocketsOwned N map sockets lock closed flight R) (hmem : h ∈ map)
    (hclosed : closed ≠ some h) : ∃ n, sockets h = some n := by
  have hle := H.atMost h
  have hpos := List.count_pos_iff.mpr hmem
  cases ho : sockets h with
  | some n => exact ⟨n, rfl⟩
  | none =>
      simp [due, ho, hclosed] at hle
      exact absurd hle.1.1 hpos.ne'

theorem create (H : SocketsOwned N map sockets lock closed flight R) (n : Nat)
    (hfree : sockets h = none) (hvalid : h ≠ INVALID_SOCKET) :
    SocketsOwned N map (Pool.write sockets h (some n)) lock closed flight (.socket h ::ₘ R) := by
  refine ⟨?_, ?_, ?_, H.nodup, filterMap_cons_socket.trans H.locked, H.unlocked, H.registered⟩
  · intro h'
    rw [count_cons_socket, due_open n hfree, ← Nat.add_assoc]
    exact Nat.add_le_add_right (H.atMost h') _
  · intro hN h'
    rw [count_cons_socket, due_open n hfree, ← Nat.add_assoc]
    exact Nat.add_le_add_right (H.atLeast hN h') _
  · rw [Pool.write_of_ne hvalid.symm]
    exact H.valid

theorem insert (H : SocketsOwned N map sockets lock closed flight (.socket h ::ₘ R))
    (hlock : lock = none) :
    SocketsOwned N (map.insert h) sockets lock closed flight R := by
  have hmem := H.notMem hlock
  have hmap : map.insert h = h :: map := List.insert_of_not_mem hmem
  have hcount : ∀ h', (h :: map).count h' + offered flight h' + R.count (.socket h') =
      map.count h' + offered flight h' + (Token.socket h ::ₘ R).count (.socket h') := by
    intro h'
    rw [count_cons_socket, List.count_cons]
    simp only [beq_iff_eq, eq_comm (a := h)]
    omega
  subst hlock
  rw [hmap]
  refine ⟨?_, ?_, H.valid, List.nodup_cons.mpr ⟨hmem, H.nodup⟩,
    filterMap_cons_socket.symm.trans H.locked, H.unlocked, ?_⟩
  · intro h'
    exact hcount h' ▸ H.atMost h'
  · intro hN h'
    exact hcount h' ▸ H.atLeast hN h'
  · intro h' hc
    exact List.mem_cons_of_mem _ (H.registered h' hc)

theorem erase (H : SocketsOwned N map sockets lock closed flight R) (hmem : h ∈ map)
    (hlock : lock = none) :
    SocketsOwned N (map.erase h) sockets lock closed flight (.socket h ::ₘ R) := by
  have hcount : ∀ h', (map.erase h).count h' + offered flight h' +
      (Token.socket h ::ₘ R).count (.socket h') =
      map.count h' + offered flight h' + R.count (.socket h') := by
    intro h'
    rw [count_cons_socket, (List.perm_cons_erase hmem).count_eq, List.count_cons]
    simp only [beq_iff_eq, eq_comm (a := h)]
    omega
  subst hlock
  refine ⟨?_, ?_, H.valid, H.nodup.erase h, filterMap_cons_socket.trans H.locked, H.unlocked, ?_⟩
  · intro h'
    exact (hcount h').symm ▸ H.atMost h'
  · intro hN h'
    exact (hcount h').symm ▸ H.atLeast hN h'
  · intro h' hc
    rw [H.unlocked rfl] at hc
    cases hc

theorem close (H : SocketsOwned N map sockets lock closed flight (.socket h ::ₘ R)) :
    SocketsOwned N map (Pool.write sockets h none) lock closed flight R := by
  obtain ⟨n, hopen⟩ := H.isOpen
  refine ⟨?_, ?_, ?_, H.nodup, filterMap_cons_socket.symm.trans H.locked, H.unlocked,
    H.registered⟩
  · intro h'
    have hle := H.atMost h'
    rw [count_cons_socket, due_close hopen] at hle
    omega
  · intro hN h'
    have hle := H.atLeast hN h'
    rw [count_cons_socket, due_close hopen] at hle
    omega
  · by_cases heq : INVALID_SOCKET = h
    · rw [heq, Pool.write_self]
    · rw [Pool.write_of_ne heq]
      exact H.valid

theorem lose (H : SocketsOwned N map sockets lock closed flight (.socket h ::ₘ R)) (hN : ¬ N) :
    SocketsOwned N map sockets lock closed flight R := by
  refine ⟨?_, fun h => absurd h hN, H.valid, H.nodup, filterMap_cons_socket.symm.trans H.locked,
    H.unlocked, H.registered⟩
  intro h'
  have hle := H.atMost h'
  rw [count_cons_socket] at hle
  omega

theorem offer (H : SocketsOwned N map sockets lock closed flight (.socket h ::ₘ R))
    (hop : op.kind = .accept) (hh : op.h = h) :
    SocketsOwned N map sockets lock closed (op :: flight) R := by
  have hcount : ∀ h', map.count h' + offered (op :: flight) h' + R.count (.socket h') =
      map.count h' + offered flight h' + (Token.socket h ::ₘ R).count (.socket h') := by
    intro h'
    rw [count_cons_socket, offered_cons]
    simp only [hop, true_and, hh, eq_comm (a := h)]
    omega
  exact ⟨fun h' => hcount h' ▸ H.atMost h', fun hN h' => hcount h' ▸ H.atLeast hN h', H.valid,
    H.nodup, filterMap_cons_socket.symm.trans H.locked, H.unlocked, H.registered⟩

theorem post (H : SocketsOwned N map sockets lock closed flight R) (hop : op.kind ≠ .accept) :
    SocketsOwned N map sockets lock closed (op :: flight) R := by
  have hcount : ∀ h', offered (op :: flight) h' = offered flight h' := by
    intro h'
    rw [offered_cons, if_neg fun h => hop h.1, Nat.add_zero]
  exact ⟨fun h' => (hcount h').symm ▸ H.atMost h', fun hN h' => (hcount h').symm ▸ H.atLeast hN h',
    H.valid, H.nodup, H.locked, H.unlocked, H.registered⟩

theorem completeAccept (H : SocketsOwned N map sockets lock closed flight R) (hmem : op ∈ flight)
    (hop : op.kind = .accept) :
    SocketsOwned N map sockets lock closed (flight.erase op) (.socket op.h ::ₘ R) := by
  have hcount : ∀ h', map.count h' + offered (flight.erase op) h' +
      (Token.socket op.h ::ₘ R).count (.socket h') =
      map.count h' + offered flight h' + R.count (.socket h') := by
    intro h'
    rw [count_cons_socket, offered_erase hmem]
    simp only [hop, true_and, eq_comm (a := h')]
    omega
  exact ⟨fun h' => (hcount h').symm ▸ H.atMost h', fun hN h' => (hcount h').symm ▸ H.atLeast hN h',
    H.valid, H.nodup, filterMap_cons_socket.trans H.locked, H.unlocked, H.registered⟩

theorem complete (H : SocketsOwned N map sockets lock closed flight R) (hmem : op ∈ flight)
    (hop : op.kind ≠ .accept) :
    SocketsOwned N map sockets lock closed (flight.erase op) R := by
  have hcount : ∀ h', offered flight h' = offered (flight.erase op) h' := by
    intro h'
    rw [offered_erase hmem, if_neg fun h => hop h.1, Nat.add_zero]
  exact ⟨fun h' => hcount h' ▸ H.atMost h', fun hN h' => hcount h' ▸ H.atLeast hN h',
    H.valid, H.nodup, H.locked, H.unlocked, H.registered⟩

/-! The critical section of `ConnectTimeOutCheck`. -/

theorem enter (H : SocketsOwned N map sockets lock closed flight R) (hlock : lock = none) :
    SocketsOwned N map sockets (some t) closed flight (.lock t map none ::ₘ R) := by
  subst hlock
  have hclosed := H.unlocked rfl
  have hlocked : R.filterMap Token.locking = 0 := H.locked
  refine ⟨fun h => count_cons_lock.symm ▸ H.atMost h,
    fun hN h => count_cons_lock.symm ▸ H.atLeast hN h, H.valid, H.nodup, ?_,
    fun _ => hclosed, H.registered⟩
  rw [Token.filterMap_locking, hlocked, hclosed]
  rfl

theorem known {m : List SOCKET} {s : Option SOCKET}
    (H : SocketsOwned N map sockets lock closed flight (.lock t m s ::ₘ R)) :
    lock = some t ∧ map = m ∧ closed = s ∧ R.filterMap Token.locking = 0 := by
  have hlocked := H.locked
  rw [Token.filterMap_locking] at hlocked
  cases lock with
  | none => exact absurd hlocked (Multiset.cons_ne_zero)
  | some u =>
      obtain ⟨heq, hzero⟩ := (Multiset.singleton_eq_cons_iff _).mp hlocked.symm
      cases heq
      exact ⟨rfl, rfl, rfl, hzero⟩

theorem closePos {m : List SOCKET} (hmem : h ∈ m)
    (H : SocketsOwned N map sockets lock closed flight (.lock t m none ::ₘ R)) :
    SocketsOwned N map (Pool.write sockets h none) lock (some h) flight
      (.lock t m (some h) ::ₘ R) := by
  obtain ⟨rfl, rfl, rfl, hzero⟩ := H.known
  obtain ⟨n, hopen⟩ := H.isOpen_of_mem hmem (by simp)
  have hdue : ∀ h', due (Pool.write sockets h none) (some h) h' = due sockets none h' := by
    intro h'
    by_cases heq : h' = h
    · subst heq
      simp [due, hopen]
    · simp [due, Pool.write_of_ne heq, Ne.symm heq]
  refine ⟨?_, ?_, ?_, H.nodup, ?_, fun h => absurd h (by simp), ?_⟩
  · intro h'
    rw [hdue, count_cons_lock, ← count_cons_lock]
    exact H.atMost h'
  · intro hN h'
    rw [hdue, count_cons_lock, ← count_cons_lock]
    exact H.atLeast hN h'
  · by_cases heq : INVALID_SOCKET = h
    · rw [heq, Pool.write_self]
    · rw [Pool.write_of_ne heq]
      exact H.valid
  · rw [Token.filterMap_locking, hzero]
    rfl
  · intro h' hc
    cases hc
    exact hmem

theorem erasePos {m : List SOCKET}
    (H : SocketsOwned N map sockets lock closed flight (.lock t m (some h) ::ₘ R)) :
    SocketsOwned N (map.erase h) sockets lock none flight (.lock t (m.erase h) none ::ₘ R) := by
  obtain ⟨rfl, rfl, rfl, hzero⟩ := H.known
  have hmem := H.registered h rfl
  have hcount : ∀ h', map.count h' = (map.erase h).count h' + if h' = h then 1 else 0 := by
    intro h'
    rw [(List.perm_cons_erase hmem).count_eq, List.count_cons]
    simp only [beq_iff_eq, eq_comm (a := h)]
  have hdue : ∀ h', due sockets (some h) h' = due sockets none h' + if h' = h then 1 else 0 := by
    intro h'
    simp only [due, Option.some.injEq, eq_comm (a := h), reduceCtorEq, if_false, Nat.add_zero]
  refine ⟨?_, ?_, H.valid, H.nodup.erase h, ?_, fun h => absurd h (by simp), ?_⟩
  · intro h'
    have hle := H.atMost h'
    rw [count_cons_lock, hcount, hdue] at hle
    rw [count_cons_lock]
    omega
  · intro hN h'
    have hle := H.atLeast hN h'
    rw [count_cons_lock, hcount, hdue] at hle
    rw [count_cons_lock]
    omega
  · rw [Token.filterMap_locking, hzero]
    rfl
  · intro h' hc
    cases hc

theorem leave {m : List SOCKET}
    (H : SocketsOwned N map sockets lock closed flight (.lock t m none ::ₘ R)) :
    SocketsOwned N map sockets none closed flight R := by
  obtain ⟨rfl, rfl, rfl, hzero⟩ := H.known
  exact ⟨fun h => count_cons_lock (R := R) ▸ H.atMost h,
    fun hN h => count_cons_lock (R := R) ▸ H.atLeast hN h, H.valid, H.nodup, hzero, fun _ => rfl,
    H.registered⟩

end SocketsOwned

end CppWorkspace.TcpServer
