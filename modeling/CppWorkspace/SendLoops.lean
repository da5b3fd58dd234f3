/-
# `CppWorkspace.SendLoops` — the loops of the two `IssueSendOperation`s end

`CTcpServer::IssueSendOperation` and `CUdpServer::IssueSendOperation` have one
loop, whose count of what is left passes through the `long` that
`SetSendParameters` returns:

    do  pContext = GetContext(…)
        leavingBytes = pContext->SetSendParameters(…, leavingBytes)
        WSASend(…)
    while (leavingBytes != 0)

The loop is given here over any pool of contexts (`Pools`), one command a step,
and between any two of its steps the other threads may change the pool.  How
many rounds it makes depends on how much a round takes: a TCP context takes a
block (`tcp_takes`), whatever has become of it before, and a UDP context as much
as its buffer, whose length was last set by the send before.  That length only
shrinks, and stays positive (`udp_kept`).
-/
import Mathlib.Algebra.Order.Ring.Int
import CppWorkspace.TcpServer.Contexts
import CppWorkspace.UdpServer.Server

namespace CppWorkspace.SendLoops

open Runs

/-! ## The loop -/

/-- An `unsigned long` of 32 bits as a `long`. -/
def toLong (n : Nat) : Int := if n < 2 ^ 31 then n else n - 2 ^ 32

/-- A `long` as an `unsigned long`. -/
def toULong (n : Int) : Nat := (n % 2 ^ 32).toNat

theorem toULong_toLong {n : Nat} (h : n < 2 ^ 32) : toULong (toLong n) = n := by
  unfold toULong toLong
  split <;> omega

/-- The contexts of a server: what the other threads do with them, and the two
functions of the loop.  `SetSendParameters` leaves the count that it converts to
`long`. -/
structure Pools (S E : Type) where
  others : S → E → Option S
  GetContext : S → S × Nat
  SetSendParameters : S → Nat → Nat → S × Nat

/-- The next command of the loop. -/
inductive Pc
  | GetContext
  | SetSendParameters (c : Nat)
  | WSASend
  | done
deriving DecidableEq

/-- A loop of sends: its pool, what is left to send, and where it is. -/
structure Loop (S : Type) where
  pool : S
  leavingBytes : Nat
  /-- How many rounds were begun. -/
  rounds : Nat
  pc : Pc

/-- A step of the loop, or of any other thread. -/
inductive Act (E : Type)
  | others (e : E)
  | loop

variable {S E : Type}

/-- The loop is entered. -/
def enter (pool : S) (dwTransferBytes : Nat) : Loop S where
  pool := pool
  leavingBytes := dwTransferBytes
  rounds := 0
  pc := .GetContext

/-- One command, with every post accepted. -/
def Loop.next (P : Pools S E) (l : Loop S) : Option (Loop S) :=
  match l.pc with
  | .GetContext =>
      let r := P.GetContext l.pool
      some { l with pool := r.1, rounds := l.rounds + 1, pc := .SetSendParameters r.2 }
  | .SetSendParameters c =>
      let r := P.SetSendParameters l.pool c l.leavingBytes
      some { l with pool := r.1, leavingBytes := toULong (toLong r.2), pc := .WSASend }
  | .WSASend => some { l with pc := if l.leavingBytes ≠ 0 then .GetContext else .done }
  | .done => none

def step (P : Pools S E) (l : Loop S) : Act E → Option (Loop S)
  | .others e => (P.others l.pool e).map fun s => { l with pool := s }
  | .loop => l.next P

/-! ## How many rounds -/

/-- The rounds that are finished. -/
def Loop.finished (l : Loop S) : Nat :=
  match l.pc with
  | .SetSendParameters _ => l.rounds - 1
  | _ => l.rounds

/-- The loop is not over before nothing is left. -/
def Loop.Open (l : Loop S) : Prop :=
  match l.pc with
  | .GetContext => 0 < l.leavingBytes
  | .SetSendParameters _ => 0 < l.leavingBytes ∧ 0 < l.rounds
  | .WSASend => True
  | .done => l.leavingBytes = 0

/-- Nothing breaks `I`. -/
structure Pools.Keeps (P : Pools S E) (I : S → Prop) : Prop where
  others : ∀ s e t, I s → P.others s e = some t → I t
  getContext : ∀ s, I s → I (P.GetContext s).1
  setSendParameters : ∀ s c m, I s → I (P.SetSendParameters s c m).1

/-- In the pools that satisfy `I`, the rounds of `m` bytes are at most one more than
those of what a call leaves. -/
def Pools.Bounded (P : Pools S E) (I : S → Prop) (f : Nat → Nat) : Prop :=
  ∀ s c m, I s → 0 < m →
    (P.SetSendParameters s c m).2 ≤ m ∧ f (P.SetSendParameters s c m).2 + 1 ≤ f m

/-- A call with `n` bytes, in a run. -/
structure Loop.Inv (I : S → Prop) (f : Nat → Nat) (n : Nat) (l : Loop S) : Prop where
  pool : I l.pool
  le : l.leavingBytes ≤ n
  isOpen : l.Open
  bound : l.finished + f l.leavingBytes ≤ f n

section
variable {P : Pools S E} {I : S → Prop} {f : Nat → Nat} {n : Nat} {l l' : Loop S}

theorem enter_inv {pool : S} (hpool : I pool) (hn : 0 < n) : (enter pool n).Inv I f n where
  pool := hpool
  le := Nat.le_refl n
  isOpen := hn
  bound := by
    show 0 + f n ≤ f n
    omega

theorem Loop.Inv.next (hkeeps : P.Keeps I) (hround : P.Bounded I f) (hn : n < 2 ^ 32)
    (h : l.Inv I f n) (hstep : l.next P = some l') : l'.Inv I f n := by
  have hopen := h.isOpen
  have hbound := h.bound
  unfold Loop.next at hstep
  unfold Loop.Open at hopen
  unfold Loop.finished at hbound
  cases hpc : l.pc with
  | GetContext =>
      simp only [hpc] at hstep hopen hbound
      cases hstep
      exact ⟨hkeeps.getContext _ h.pool, h.le, ⟨hopen, Nat.succ_pos _⟩, hbound⟩
  | SetSendParameters c =>
      simp only [hpc] at hstep hopen hbound
      cases hstep
      obtain ⟨hle, hless⟩ := hround l.pool c l.leavingBytes h.pool hopen.1
      have hlong := toULong_toLong (Nat.lt_of_le_of_lt (hle.trans h.le) hn)
      refine ⟨hkeeps.setSendParameters _ _ _ h.pool, ?_, trivial, ?_⟩
      · show toULong (toLong _) ≤ n
        rw [hlong]
        exact hle.trans h.le
      · show l.rounds + f (toULong (toLong _)) ≤ f n
        rw [hlong]
        omega
  | WSASend =>
      simp only [hpc] at hstep hbound
      cases hstep
      by_cases hzero : l.leavingBytes = 0
      · rw [if_neg (not_not.mpr hzero)]
        exact ⟨h.pool, h.le, hzero, hbound⟩
      · rw [if_pos hzero]
        exact ⟨h.pool, h.le, Nat.pos_of_ne_zero hzero, hbound⟩
  | done =>
      simp only [hpc] at hstep
      cases hstep

theorem Loop.Inv.step (hkeeps : P.Keeps I) (hround : P.Bounded I f) (hn : n < 2 ^ 32)
    {a : Act E} (h : l.Inv I f n) (hstep : step P l a = some l') : l'.Inv I f n := by
  cases a with
  | loop => exact h.next hkeeps hround hn hstep
  | others e =>
      obtain ⟨s, hs, rfl⟩ := Option.map_eq_some_iff.mp hstep
      exact ⟨hkeeps.others _ _ _ h.pool hs, h.le, h.isOpen, h.bound⟩

theorem Loop.Inv.run (hkeeps : P.Keeps I) (hround : P.Bounded I f) (hn : n < 2 ^ 32) {pool : S}
    (hpool : I pool) (hpos : 0 < n)
    (h : Via (SendLoops.step P) (fun _ _ => True) (enter pool n) l) : l.Inv I f n :=
  h.invariant (enter_inv hpool hpos) fun _ _ _ hinv _ hstep => hinv.step hkeeps hround hn hstep

theorem Loop.Inv.rounds_le (hround : P.Bounded I f) (h : l.Inv I f n) : l.rounds ≤ f n := by
  have hopen := h.isOpen
  have hbound := h.bound
  unfold Loop.Open at hopen
  unfold Loop.finished at hbound
  cases hpc : l.pc with
  | SetSendParameters c =>
      simp only [hpc] at hopen hbound
      have hless := (hround l.pool c l.leavingBytes h.pool hopen.1).2
      omega
  | _ =>
      simp only [hpc] at hbound
      omega

/-! ## The loop ends -/

/-- The commands that are left, at most. -/
def Loop.todo (f : Nat → Nat) (l : Loop S) : Nat :=
  match l.pc with
  | .GetContext => 3 * f l.leavingBytes + 1
  | .SetSendParameters _ => 3 * f l.leavingBytes
  | .WSASend => 3 * f l.leavingBytes + 2
  | .done => 0

theorem Loop.Inv.progress (hround : P.Bounded I f) (hn : n < 2 ^ 32) (h : l.Inv I f n)
    (hpc : l.pc ≠ .done) : ∃ l', l.next P = some l' ∧ l'.todo f < l.todo f := by
  have hopen := h.isOpen
  unfold Loop.next Loop.todo
  unfold Loop.Open at hopen
  cases hcur : l.pc with
  | GetContext =>
      simp only [hcur] at hopen
      refine ⟨_, rfl, ?_⟩
      show 3 * f l.leavingBytes < 3 * f l.leavingBytes + 1
      omega
  | SetSendParameters c =>
      simp only [hcur] at hopen
      obtain ⟨hle, hless⟩ := hround l.pool c l.leavingBytes h.pool hopen.1
      refine ⟨_, rfl, ?_⟩
      show 3 * f (toULong (toLong _)) + 2 < 3 * f l.leavingBytes
      rw [toULong_toLong (Nat.lt_of_le_of_lt (hle.trans h.le) hn)]
      omega
  | WSASend =>
      refine ⟨_, rfl, ?_⟩
      by_cases hzero : l.leavingBytes = 0
      · simp only [hzero, ne_eq, not_true_eq_false, if_false]
        omega
      · simp only [hzero, ne_eq, not_false_eq_true, if_true]
        omega
  | done => exact absurd hcur hpc

theorem Loop.Inv.ends (hkeeps : P.Keeps I) (hround : P.Bounded I f) (hn : n < 2 ^ 32) (k : Nat) :
    ∀ {l : Loop S}, l.Inv I f n → l.todo f ≤ k →
      ∃ l', Via (SendLoops.step P) (fun _ a => a = .loop) l l' ∧ l'.pc = .done := by
  induction k with
  | zero =>
      intro l h hk
      by_cases hpc : l.pc = .done
      · exact ⟨l, .refl, hpc⟩
      · obtain ⟨l', -, hless⟩ := h.progress (P := P) hround hn hpc
        omega
  | succ k ih =>
      intro l h hk
      by_cases hpc : l.pc = .done
      · exact ⟨l, .refl, hpc⟩
      · obtain ⟨l₁, hstep, hless⟩ := h.progress hround hn hpc
        obtain ⟨l', hrun, hdone⟩ := ih (h.next hkeeps hround hn hstep) (by omega)
        have hfirst : Via (SendLoops.step P) (fun _ a => a = .loop) l l₁ :=
          .tail .loop .refl rfl hstep
        exact ⟨l', hfirst.trans hrun, hdone⟩

/-- A round takes one of the expected rounds away, not more: so does the loop. -/
theorem Loop.Inv.covered (hkeeps : P.Keeps I) (hround : P.Bounded I f) (hn : n < 2 ^ 32)
    (hexact : ∀ s c m, I s → 0 < m → f m ≤ f (P.SetSendParameters s c m).2 + 1) {pool : S}
    (hpool : I pool) (hpos : 0 < n)
    (h : Via (SendLoops.step P) (fun _ _ => True) (enter pool n) l) :
    f n ≤ l.finished + f l.leavingBytes := by
  have hinv : ∀ l', Via (SendLoops.step P) (fun _ _ => True) (enter pool n) l' → l'.Inv I f n :=
    fun _ h' => Loop.Inv.run hkeeps hround hn hpool hpos h'
  refine h.invariant₂ (P := fun l => f n ≤ l.finished + f l.leavingBytes) hinv ?_ ?_
  · show f n ≤ 0 + f n
    omega
  · intro l a l' hl hcov _ hstep
    cases a with
    | others e =>
        obtain ⟨s, hs, rfl⟩ := Option.map_eq_some_iff.mp hstep
        exact hcov
    | loop =>
        have hopen := hl.isOpen
        have hnext : l.next P = some l' := hstep
        unfold Loop.next at hnext
        unfold Loop.Open at hopen
        unfold Loop.finished at hcov
        cases hpc : l.pc with
        | GetContext =>
            simp only [hpc] at hnext hcov
            cases hnext
            exact hcov
        | SetSendParameters c =>
            simp only [hpc] at hnext hopen hcov
            cases hnext
            have hle := (hround l.pool c l.leavingBytes hl.pool hopen.1).1
            have hmore := hexact l.pool c l.leavingBytes hl.pool hopen.1
            show f n ≤ l.rounds + f (toULong (toLong _))
            rw [toULong_toLong (Nat.lt_of_le_of_lt (hle.trans hl.le) hn)]
            omega
        | WSASend =>
            simp only [hpc] at hnext hcov
            cases hnext
            by_cases hzero : l.leavingBytes = 0
            · rw [if_neg (not_not.mpr hzero)]
              exact hcov
            · rw [if_pos hzero]
              exact hcov
        | done =>
            simp only [hpc] at hnext
            cases hnext

end

/-! ## TCP -/

section
open TcpServer

/-- The send contexts of `CTcpServer`; the other threads may leave any pool. -/
def tcp (cliSock : SOCKET) (pData : List UInt8) : Pools Pool Pool where
  others _ p := some p
  GetContext p := (p.GetContext.2, p.GetContext.1)
  SetSendParameters p c m :=
    let r := (p.context c).SetSendParameters cliSock (some pData) m
    (p.set c r.1, r.2)

/-- The blocks of `n` bytes. -/
def blocks (n : Nat) : Nat :=
  (n + (DEFAULT_TCP_SEND_CONTEXT_SIZE - 1)) / DEFAULT_TCP_SEND_CONTEXT_SIZE

variable {h : SOCKET} {data : List UInt8}

theorem tcp_keeps : (tcp h data).Keeps fun _ => True :=
  ⟨fun _ _ _ _ _ => trivial, fun _ _ => trivial, fun _ _ _ _ => trivial⟩

theorem tcp_takes (p : Pool) (c : Nat) {m : Nat} (hm : 0 < m) :
    ((tcp h data).SetSendParameters p c m).2 = m - min m DEFAULT_TCP_SEND_CONTEXT_SIZE := by
  show ((p.context c).SetSendParameters h (some data) m).2 = _
  rw [Context.SetSendParameters]
  dsimp only
  rw [if_pos (Nat.pos_iff_ne_zero.mp hm)]

theorem tcp_blocks (p : Pool) (c : Nat) {m : Nat} (hm : 0 < m) :
    blocks ((tcp h data).SetSendParameters p c m).2 + 1 = blocks m := by
  rw [tcp_takes p c hm]
  simp only [blocks, DEFAULT_TCP_SEND_CONTEXT_SIZE]
  omega

theorem tcp_bounded : (tcp h data).Bounded (fun _ => True) blocks := by
  intro p c m _ hm
  refine ⟨?_, (tcp_blocks p c hm).le⟩
  rw [tcp_takes p c hm]
  omega

end

/-! ## UDP -/

section
open UdpServer

/-- What a thread does with the pool of the `CUdpContext`s. -/
inductive PoolAct
  | GetContext (operateMode : Mode)
  /-- `none`: a null pointer. -/
  | SetSendParameters (c : Nat) (addr : sockaddr_in) (dataAddr : Option (List UInt8))
      (transferByte : Nat)
  /-- A receive has completed. -/
  | receive (c : Nat) (addr : sockaddr_in) (data : List UInt8)
  | ReleaseContext (c : Nat)
  | ResetContext (c : Nat)

/-- One context is given new contents. -/
def setContext (σ : Server) (c : Nat) (x : Context) : Server :=
  { σ with context := Function.update σ.context c x }

/-- `ResetContext`. -/
def reset (x : Context) : Context where
  m_iOperateMode := .SC_WAIT_RECEIVE
  m_struRemoteAddr := 0
  buf := List.replicate x.buf.length 0
  len := MAX_UDP_CONTEXT_BUFSIZE

def poolStep (σ : Server) : PoolAct → Option Server
  | .GetContext operateMode => some (σ.GetContext operateMode).1
  | .SetSendParameters c addr none _ =>
      some (setContext σ c { σ.context c with m_struRemoteAddr := addr })
  | .SetSendParameters c addr (some dataAddr) transferByte =>
      some (setContext σ c ((σ.context c).SetSendParameters addr dataAddr transferByte).1)
  | .receive c addr data =>
      if data.length ≤ (σ.context c).len then some (setContext σ c ((σ.context c).fill addr data))
      else none
  | .ReleaseContext c => some (σ.ReleaseContext c)
  | .ResetContext c => some (setContext σ c (reset (σ.context c)))

/-- After `InitContextPool(poolSize)`. -/
def initContextPool (poolSize : Nat) : Server :=
  { Server.start with stack := (List.range poolSize).reverse, size := poolSize }

/-- The contexts of `CUdpServer`. -/
def udp (remoteAddr : sockaddr_in) (pData : List UInt8) : Pools Server PoolAct where
  others := poolStep
  GetContext σ := σ.GetContext .SC_WAIT_TRANSMIT
  SetSendParameters σ c m :=
    let r := (σ.context c).SetSendParameters remoteAddr pData m
    (setContext σ c r.1, r.2)

/-- `m_struRevBuf.len` of each context. -/
def Sized (σ : Server) : Prop :=
  ∀ c, 1 ≤ (σ.context c).len ∧ (σ.context c).len ≤ MAX_UDP_CONTEXT_BUFSIZE

variable {σ : Server} {c : Nat} {x : Context} {addr : sockaddr_in} {data : List UInt8}

theorem sized_new : 1 ≤ MAX_UDP_CONTEXT_BUFSIZE
    ∧ MAX_UDP_CONTEXT_BUFSIZE ≤ MAX_UDP_CONTEXT_BUFSIZE :=
  ⟨by decide, Nat.le_refl _⟩

theorem sized_initContextPool (poolSize : Nat) : Sized (initContextPool poolSize) :=
  fun _ => sized_new

theorem Sized.setContext (h : Sized σ) (hx : 1 ≤ x.len ∧ x.len ≤ MAX_UDP_CONTEXT_BUFSIZE) :
    Sized (setContext σ c x) := by
  intro d
  show 1 ≤ (Function.update σ.context c x d).len
    ∧ (Function.update σ.context c x d).len ≤ MAX_UDP_CONTEXT_BUFSIZE
  by_cases hd : d = c
  · subst hd
    rw [Function.update_self]
    exact hx
  · rw [Function.update_of_ne hd]
    exact h d

theorem Sized.getContext (h : Sized σ) (operateMode : Mode) :
    Sized (σ.GetContext operateMode).1 := by
  unfold Server.GetContext Server.top
  cases σ.stack with
  | nil => exact h.setContext sized_new
  | cons d stack => exact h.setContext (h d)

/-- A send shortens the buffer to what it copies, a byte at least. -/
theorem sized_setSendParameters (hx : 1 ≤ x.len ∧ x.len ≤ MAX_UDP_CONTEXT_BUFSIZE) (m : Nat) :
    1 ≤ (x.SetSendParameters addr data m).1.len
      ∧ (x.SetSendParameters addr data m).1.len ≤ MAX_UDP_CONTEXT_BUFSIZE := by
  unfold Context.SetSendParameters
  split
  · rename_i hm
    dsimp only
    omega
  · exact hx

theorem udp_keeps (remoteAddr : sockaddr_in) (pData : List UInt8) :
    (udp remoteAddr pData).Keeps Sized where
  getContext _ h := h.getContext _
  setSendParameters _ c m h := h.setContext (sized_setSendParameters (h c) m)
  others := by
    intro σ e τ h hstep
    cases e with
    | GetContext operateMode =>
        cases hstep
        exact h.getContext operateMode
    | SetSendParameters c addr dataAddr m =>
        cases dataAddr with
        | none =>
            cases hstep
            exact h.setContext (h c)
        | some dataAddr =>
            cases hstep
            exact h.setContext (sized_setSendParameters (h c) m)
    | receive c addr data =>
        obtain ⟨-, he⟩ := Option.ite_none_right_eq_some.mp hstep
        cases he
        exact h.setContext (h c)
    | ReleaseContext c =>
        cases hstep
        exact h
    | ResetContext c =>
        cases hstep
        exact h.setContext sized_new

theorem udp_bounded (remoteAddr : sockaddr_in) (pData : List UInt8) :
    (udp remoteAddr pData).Bounded Sized id := by
  intro σ c m h hm
  have hlen := (h c).1
  show ((σ.context c).SetSendParameters remoteAddr pData m).2 ≤ m
    ∧ ((σ.context c).SetSendParameters remoteAddr pData m).2 + 1 ≤ m
  rw [Context.SetSendParameters, if_pos (Nat.pos_iff_ne_zero.mp hm)]
  dsimp only
  omega

end

/-! ## The two loops -/

/-- **The send loops end.**  Whatever the other threads do in between, the loop of
`CTcpServer` makes a round for each block, and the loop of `CUdpServer` at most one
for each byte; each context of `CUdpServer` has a buffer of 1 to
`MAX_UDP_CONTEXT_BUFSIZE` bytes. -/
theorem send_loops_end (n : Nat) (hpos : 0 < n) (hn : n < 2 ^ 32) :
    (∀ (cliSock : TcpServer.SOCKET) (pData : List UInt8) (pool : TcpServer.Pool)
        (l : Loop TcpServer.Pool),
      Via (step (tcp cliSock pData)) (fun _ _ => True) (enter pool n) l →
        l.rounds ≤ blocks n ∧ (l.pc = .done → l.rounds = blocks n)
          ∧ ∃ l', Via (step (tcp cliSock pData)) (fun _ a => a = .loop) l l' ∧ l'.pc = .done)
    ∧ ∀ (poolSize : Nat) (remoteAddr : UdpServer.sockaddr_in) (pData : List UInt8)
        (l : Loop UdpServer.Server),
      Via (step (udp remoteAddr pData)) (fun _ _ => True) (enter (initContextPool poolSize) n) l →
        l.rounds ≤ n ∧ Sized l.pool
          ∧ ∃ l', Via (step (udp remoteAddr pData)) (fun _ a => a = .loop) l l'
            ∧ l'.pc = .done := by
  constructor
  · intro h data pool l hrun
    have hinv := Loop.Inv.run tcp_keeps tcp_bounded hn trivial hpos hrun
    have hle := hinv.rounds_le (P := tcp h data) tcp_bounded
    refine ⟨hle, ?_, hinv.ends tcp_keeps tcp_bounded hn _ le_rfl⟩
    intro hdone
    have hcov := Loop.Inv.covered tcp_keeps tcp_bounded hn
      (fun p c m _ hm => (tcp_blocks p c hm).ge) trivial hpos hrun
    have hzero := hinv.isOpen
    unfold Loop.Open at hzero
    unfold Loop.finished at hcov
    simp only [hdone] at hzero hcov
    rw [hzero] at hcov
    exact Nat.le_antisymm hle hcov
  · intro poolSize addr data l hrun
    have hinv := Loop.Inv.run (udp_keeps addr data) (udp_bounded addr data) hn
      (sized_initContextPool poolSize) hpos hrun
    exact ⟨hinv.rounds_le (udp_bounded addr data), hinv.pool,
      hinv.ends (udp_keeps addr data) (udp_bounded addr data) hn _ le_rfl⟩

/-- 5000 bytes are two blocks. -/
theorem send_loops_end_twoBlocks :
    ∃ l, Via (step (tcp 1 [7])) (fun _ a => a = .loop)
        (enter (TcpServer.Pool.InitContextPool 0) 5000) l
      ∧ l.pc = .done ∧ l.rounds = 2 := by
  have hends := (send_loops_end 5000 (by decide) (by decide)).1 1 [7]
    (TcpServer.Pool.InitContextPool 0)
  obtain ⟨-, -, l, hrun, hdone⟩ := hends _ .refl
  have hall : Via (step (tcp 1 [7])) (fun _ _ => True)
      (enter (TcpServer.Pool.InitContextPool 0) 5000) l := hrun.mono fun _ _ _ => trivial
  exact ⟨l, hrun, hdone, (hends l hall).2.1 hdone⟩

end CppWorkspace.SendLoops
