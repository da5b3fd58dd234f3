/-
# `CppWorkspace.CIOCPServer.IdleScan` — the check of `SO_CONNECT_TIME`

When a minute has passed without an event, `_ListenThreadProc` walks through
`m_pPendingAccepts` and closes the socket of every accept whose client has been silent for
too long.  It takes no lock.  Its steps, one at a time:

| step | |
| :-- | :-- |
| `head` | read `m_pPendingAccepts` |
| `look` | `getsockopt(pBuffer->sClient)`, and the test of the time |
| `load` | read `pBuffer->sClient` again |
| `close` | `closesocket` |
| `forget` | `pBuffer->sClient = INVALID_SOCKET` |
| `next` | read `pBuffer->pNext` |

Meanwhile the workers take completed accepts out of the list, close their sockets or hand
them to contexts, and give the buffers back.  The sockets of this model are never used
again, so that two of them are the same only if they are one socket.

What goes wrong begins with one step: a worker takes out the buffer at which the scan
stands.  From then on the scan reads a buffer that is not pending, and may close a socket
that belongs to a context.  `StandsUndisturbed` excludes this step, and nothing else
(`idle_scan`); the list may lose any other buffer.
-/
import CppWorkspace.CIOCPServer.Data
import CppWorkspace.CIOCPServer.PendingAccepts

namespace CppWorkspace.CIOCPServer

open LinkedList Runs

/-- The next step of the scan. -/
inductive ScanPc where
  | off
  | head
  | look (b : Nat)
  | load (b : Nat)
  | close (b : Nat) (s : SOCKET)
  | forget (b : Nat)
  | next (b : Nat)
deriving DecidableEq, Repr

/-- The accepts with their sockets.  `used` are the sockets there have been, `taken` the
buffers whose worker has not dealt with the socket, `clients` the sockets of contexts, and
`steps` counts the steps of the scan. -/
structure IdleScan extends Accepts where
  sClient : Nat → SOCKET
  scan : ScanPc
  steps : Nat
  used : List SOCKET
  taken : List Nat
  clients : List SOCKET
  closed : List SOCKET

/-- A step of the listener, of a worker or of the scan. -/
inductive IdleAction where
  /-- the listener; `s` is what `WSASocket` returns in `PostAccept` -/
  | listen (a : Option Nat) (acceptEx : Bool) (w : Wake) (s : Option SOCKET)
  /-- the next step of the scan; `idle` if the test of `getsockopt` passes -/
  | scan (idle : Bool)
  /-- the workers and the others, on the buffers -/
  | work (act : AcceptAction)
  /-- `AllocateContext(pBuffer->sClient)` -/
  | takeOver (b : Nat)
  /-- the worker closes `pBuffer->sClient` -/
  | refuse (b : Nat)
  /-- a connection closes its socket -/
  | closeClient (s : SOCKET)
deriving DecidableEq, Repr

/-- The buffer at which the scan stands. -/
def ScanPc.at : ScanPc → Option Nat
  | .off | .head => none
  | .look b | .load b | .close b _ | .forget b | .next b => some b

/-- `while(pBuffer != NULL)`. -/
def ScanPc.visit : Option Nat → ScanPc
  | none => .off
  | some b => .look b

namespace IdleScan

def init (cfg : Limits) : IdleScan where
  toAccepts := .init cfg
  sClient := fun _ => 0
  scan := .off
  steps := 0
  used := []
  taken := []
  clients := []
  closed := []

/-- `closesocket`; it does nothing for `INVALID_SOCKET`. -/
def closesocket (σ : IdleScan) (s : SOCKET) : IdleScan :=
  { σ with closed := if s = invalidSocket then σ.closed else s :: σ.closed }

def setSocket (σ : IdleScan) (b : Nat) (s : SOCKET) : IdleScan :=
  { σ with sClient := Function.update σ.sClient b s }

/-- The branch for `WSA_WAIT_TIMEOUT`, step by step. -/
def scanStep (σ : IdleScan) (idle : Bool) : Option IdleScan :=
  match σ.scan with
  | .off => none
  | .head => some { σ with scan := .visit σ.pPendingAccepts }
  | .look b => some { σ with scan := if idle then .load b else .next b }
  | .load b => some { σ with scan := .close b (σ.sClient b) }
  | .close b s => some { σ.closesocket s with scan := .forget b }
  | .forget b => some { σ.setSocket b invalidSocket with scan := .next b }
  | .next b => some { σ with scan := .visit (σ.pNext b) }

/-- What a step of the listener means for the sockets: `PostAccept` makes one, and the
timeout starts the scan. -/
def listened (σ : IdleScan) (t : Accepts) (w : Wake) (s : Option SOCKET) : Option IdleScan :=
  match σ.listener with
  | .post b _ =>
      match s with
      | none => some { σ.setSocket b invalidSocket with toAccepts := t }
      | some s =>
          if s ∈ σ.used ∨ s = invalidSocket then none
          else some { σ.setSocket b s with toAccepts := t, used := s :: σ.used }
  | .wait =>
      if w = .timeout then some { σ with toAccepts := t, scan := .head, steps := 0 }
      else some { σ with toAccepts := t }
  | _ => some { σ with toAccepts := t }

/-- A step on the buffers: `RemovePendingAccept` leaves the worker with the socket, and
`ReleaseBuffer` clears it. -/
def worked (cfg : Limits) (σ : IdleScan) (act : AcceptAction) : Option IdleScan :=
  match act with
  | .listen .. => none
  | .complete b =>
      (σ.toAccepts.step cfg (.complete b)).map fun t =>
        { σ with toAccepts := t, taken := b :: σ.taken }
  | .release b error =>
      if b ∈ σ.taken then none
      else (σ.toAccepts.step cfg (.release b error)).map fun t =>
        { σ.setSocket b 0 with toAccepts := t }
  | .free b =>
      (σ.toAccepts.step cfg (.free b)).map fun t => { σ.setSocket b 0 with toAccepts := t }
  | act => (σ.toAccepts.step cfg act).map fun t => { σ with toAccepts := t }

def step (cfg : Limits) (σ : IdleScan) : IdleAction → Option IdleScan
  | .listen a acceptEx w s =>
      if σ.scan = .off then
        (σ.toAccepts.step cfg (.listen a acceptEx w)).bind fun t => σ.listened t w s
      else none
  | .scan idle => (σ.scanStep idle).map fun τ => { τ with steps := σ.steps + 1 }
  | .work act => σ.worked cfg act
  | .takeOver b =>
      if b ∈ σ.taken then
        some { σ with taken := σ.taken.erase b, clients := σ.sClient b :: σ.clients }
      else none
  | .refuse b =>
      if b ∈ σ.taken then
        some { (σ.closesocket (σ.sClient b)).setSocket b invalidSocket with
          taken := σ.taken.erase b }
      else none
  | .closeClient s =>
      if s ∈ σ.clients ∧ s ≠ invalidSocket then
        some { σ.closesocket s with clients := σ.clients.erase s }
      else none

end IdleScan

/-- No worker takes out the buffer at which the scan stands. -/
def StandsUndisturbed (σ : IdleScan) : IdleAction → Prop
  | .work (.complete b) => σ.scan.at ≠ some b
  | _ => True

instance (σ : IdleScan) : ∀ act, Decidable (StandsUndisturbed σ act)
  | .work (.complete b) => inferInstanceAs (Decidable (σ.scan.at ≠ some b))
  | .work (.listen ..) | .work (.release ..) | .work .signal | .work (.allocate _)
  | .work (.link ..) | .work (.free _) => isTrue trivial
  | .listen .. | .scan _ | .takeOver _ | .refuse _ | .closeClient _ => isTrue trivial

/-- The scan between two of its steps. -/
structure IdleScanned (cfg : Limits) (σ : IdleScan) : Prop where
  /-- it stands at a buffer of the list, which is neither free nor back on the heap -/
  pending : ∃ l free, Chain σ.pNext σ.pPendingAccepts l ∧ l.Nodup ∧
    Chain σ.pNext σ.pFreeBufferList free ∧
    ∀ b, σ.scan.at = some b → b ∈ l ∧ b ∉ free ∧ b ∈ σ.heap
  /-- what it is about to close is the socket of that accept, and nobody else's -/
  closes : ∀ b s, σ.scan = .close b s →
    σ.sClient b = s ∧ (s ≠ invalidSocket → s ∉ σ.clients ∧ s ∉ σ.closed)
  once : σ.closed.Nodup
  /-- it goes on, and it ends -/
  runs : σ.scan ≠ .off → ∀ idle, ∃ τ, σ.step cfg (.scan idle) = some τ
  ends : σ.steps ≤ 5 * max cfg.nInitialAccepts cfg.nMaxAccepts + 1

/-! ## Who has a socket -/

namespace IdleScan

/-- The socket of an accept; the scan has closed it before it says so. -/
def view (σ : IdleScan) (b : Nat) : SOCKET :=
  if σ.scan = .forget b then invalidSocket else σ.sClient b

/-- The buffers whose socket is theirs. -/
def holders (σ : IdleScan) : List Nat := σ.posted ++ σ.failed ++ σ.taken

/-- How many have this socket, or have closed it. -/
def live (σ : IdleScan) (v : SOCKET) : Nat :=
  (σ.holders.map σ.view).count v + σ.clients.count v + σ.closed.count v

end IdleScan

/-- The steps that are left at this buffer. -/
def ScanPc.left : ScanPc → Nat
  | .off => 0
  | .head => 1
  | .look _ => 5
  | .load _ => 4
  | .close _ _ => 3
  | .forget _ => 2
  | .next _ => 1

/-- The scan stands in the list, and has at most `left` steps to go. -/
def Standing (pend : List Nat) (left : Nat) (pc : ScanPc) : Prop :=
  match pc.at with
  | some b => ∃ l₁ l₂, pend = l₁ ++ b :: l₂ ∧ pc.left + 5 * l₂.length ≤ left
  | none => pc = .off ∨ 1 + 5 * pend.length ≤ left

/-- What holds in every state. -/
structure ScanInv (cfg : Limits) (σ : IdleScan) (free pend : List Nat) : Prop where
  accepts : AcceptInv cfg σ.toAccepts free pend
  waits : σ.scan ≠ .off → σ.listener = .wait
  stands : ∃ left, σ.steps + left ≤ 5 * max cfg.nInitialAccepts cfg.nMaxAccepts + 1 ∧
    Standing pend left σ.scan
  taken : ∀ b, σ.taken.count b ≤ σ.handling.count b
  closing : ∀ b s, σ.scan = .close b s → σ.sClient b = s
  live : ∀ v, v ≠ invalidSocket → σ.live v ≤ 1
  seen : ∀ v, v ≠ invalidSocket → 0 < σ.live v → v ∈ σ.used
  valid : invalidSocket ∉ σ.closed

section
variable {cfg : Limits} {σ τ : IdleScan} {free pend free' pend' : List Nat} {b c : Nat}
  {v s : SOCKET} {pc : ScanPc} {left : Nat}

theorem Standing.at_mem (h : Standing pend left pc) (hat : pc.at = some b) : b ∈ pend := by
  unfold Standing at h
  rw [hat] at h
  obtain ⟨l₁, l₂, rfl, -⟩ := h
  exact List.mem_append_right _ List.mem_cons_self

theorem live_split (hb : b ∈ σ.holders) (v : SOCKET) :
    σ.live v = (if σ.view b = v then 1 else 0) + ((σ.holders.erase b).map σ.view).count v +
      σ.clients.count v + σ.closed.count v := by
  have hperm := ((List.perm_cons_erase hb).map σ.view).count_eq v
  unfold IdleScan.live
  rw [hperm, List.map_cons, List.count_cons]
  simp only [beq_iff_eq]
  omega

theorem view_congr (hscan : τ.scan = σ.scan) (hclient : τ.sClient b = σ.sClient b) :
    τ.view b = σ.view b := by
  rw [IdleScan.view, IdleScan.view, hscan, hclient]

theorem count_closesocket (hv : v ≠ invalidSocket) (s : SOCKET) :
    (σ.closesocket s).closed.count v = σ.closed.count v + if s = v then 1 else 0 := by
  unfold IdleScan.closesocket
  by_cases hs : s = invalidSocket
  · rw [if_pos hs, if_neg fun he : s = v => hv (he ▸ hs)]
    rfl
  · rw [if_neg hs, List.count_cons]
    simp only [beq_iff_eq]

theorem closesocket_valid (h : invalidSocket ∉ σ.closed) (s : SOCKET) :
    invalidSocket ∉ (σ.closesocket s).closed := by
  unfold IdleScan.closesocket
  by_cases hs : s = invalidSocket
  · rw [if_pos hs]
    exact h
  · rw [if_neg hs]
    exact List.not_mem_cons_of_ne_of_not_mem (Ne.symm hs) h

namespace ScanInv

theorem at_mem (h : ScanInv cfg σ free pend) (hat : σ.scan.at = some b) : b ∈ pend := by
  obtain ⟨left, -, hstand⟩ := h.stands
  exact hstand.at_mem hat

theorem once (h : ScanInv cfg σ free pend) (b : Nat) :
    σ.holders.count b ≤ 1 ∧ σ.holders.count b ≤ pend.count b + σ.handling.count b := by
  have howned := h.accepts.pool.owned b
  have honce := h.accepts.pool.once b
  have hlisted := h.accepts.listed b
  have htaken := h.taken b
  unfold IdleScan.holders
  simp only [List.count_append] at howned ⊢
  omega

theorem handling_not_pend (h : ScanInv cfg σ free pend) (hb : b ∈ σ.handling) : b ∉ pend :=
  h.accepts.pool.not_pend (.inr (List.mem_append_left _ (List.mem_append_right _ hb)))

theorem taken_handling (h : ScanInv cfg σ free pend) (hb : b ∈ σ.taken) : b ∈ σ.handling := by
  have hpos := List.count_pos_iff.mpr hb
  have hle := h.taken b
  exact List.count_pos_iff.mp (by omega)

theorem view_of_not_pend (h : ScanInv cfg σ free pend) (hb : b ∉ pend) :
    σ.view b = σ.sClient b := by
  refine if_neg fun hscan => hb (h.at_mem ?_)
  rw [hscan]
  rfl

theorem not_mem_erase (h : ScanInv cfg σ free pend) (b : Nat) : b ∉ σ.holders.erase b := by
  intro hmem
  have hpos := List.count_pos_iff.mpr hmem
  have honce := (h.once b).1
  rw [List.count_erase_self] at hpos
  omega

/-- What the scan is about to close belongs to the accept at which it stands. -/
theorem holder_of_at (h : ScanInv cfg σ free pend) (hat : σ.scan.at = some b) : b ∈ σ.holders := by
  have hne : σ.scan ≠ .off := by
    intro he
    rw [he] at hat
    cases hat
  have hpos := List.count_pos_iff.mpr (h.at_mem hat)
  have hlisted := h.accepts.listed b
  have hissuing : σ.issuing = [] := by simp [Accepts.issuing, h.waits hne]
  rw [hissuing, List.count_nil] at hlisted
  refine List.count_pos_iff.mp ?_
  unfold IdleScan.holders
  simp only [List.count_append]
  omega

theorem idleScanned (h : ScanInv cfg σ free pend) : IdleScanned cfg σ where
  pending := by
    refine ⟨pend, free, h.accepts.pool.pend_chain, h.accepts.pool.pend_nodup,
      h.accepts.pool.free_chain, fun b hat => ?_⟩
    have hb := h.at_mem hat
    have howned := h.accepts.pool.owned b
    have hpos := List.count_pos_iff.mpr hb
    exact ⟨hb, h.accepts.pool.not_free (.inl hb), List.count_pos_iff.mp (by omega)⟩
  closes := by
    intro b s hscan
    refine ⟨h.closing b s hscan, fun hs => ?_⟩
    have hat : σ.scan.at = some b := by rw [hscan]; rfl
    have hview : σ.view b = s := by
      rw [IdleScan.view, hscan]
      exact h.closing b s hscan
    have hlive := h.live s hs
    rw [live_split (h.holder_of_at hat), if_pos hview] at hlive
    exact ⟨List.count_eq_zero.mp (by omega), List.count_eq_zero.mp (by omega)⟩
  once := by
    refine List.nodup_iff_count_le_one.mpr fun s => ?_
    by_cases hs : s = invalidSocket
    · rw [hs, List.count_eq_zero.mpr h.valid]
      exact Nat.zero_le 1
    · have hlive := h.live s hs
      unfold IdleScan.live at hlive
      omega
  runs := by
    intro hne idle
    cases hscan : σ.scan with
    | off => exact absurd hscan hne
    | _ => exact ⟨_, by rw [IdleScan.step, IdleScan.scanStep, hscan]; rfl⟩
  ends := by
    obtain ⟨left, hle, -⟩ := h.stands
    omega

end ScanInv

/-! ## The steps of the scan -/

theorem Standing.visit {l : List Nat} {p : Option Nat} {next : Nat → Option Nat} {l₁ : List Nat}
    (hchain : Chain next p l) (hpend : pend = l₁ ++ l) (hleft : 5 * l.length ≤ left) :
    Standing pend left (.visit p) := by
  cases l with
  | nil =>
      obtain rfl : p = none := hchain
      exact .inl rfl
  | cons b l₂ =>
      obtain ⟨rfl, -⟩ := hchain
      refine ⟨l₁, l₂, hpend, ?_⟩
      rw [List.length_cons] at hleft
      change 5 + 5 * l₂.length ≤ left
      omega

theorem visit_ne_forget (p : Option Nat) : ∀ b, ScanPc.visit p ≠ .forget b := by
  cases p <;> nofun

theorem visit_ne_close (p : Option Nat) : ∀ b s, ScanPc.visit p ≠ .close b s := by
  cases p <;> nofun

theorem Standing.exists_succ (h : Standing pend left pc) (hon : pc ≠ .off) :
    ∃ n, left = n + 1 := by
  refine Nat.exists_eq_succ_of_ne_zero (Nat.ne_of_gt ?_)
  unfold Standing at h
  cases pc with
  | off => exact absurd rfl hon
  | head =>
      have hle : 1 + 5 * pend.length ≤ left := h.resolve_left nofun
      omega
  | look b | load b | close b s | forget b | next b =>
      obtain ⟨l₁, l₂, -, hle⟩ := h
      simp only [ScanPc.left] at hle
      omega

theorem Standing.move {pc' : ScanPc} (h : Standing pend (left + 1) pc) (hat : pc.at = some b)
    (hat' : pc'.at = some b) (hleft : pc'.left < pc.left) : Standing pend left pc' := by
  unfold Standing at h ⊢
  rw [hat] at h
  rw [hat']
  obtain ⟨l₁, l₂, hpend, hle⟩ := h
  exact ⟨l₁, l₂, hpend, by omega⟩

namespace ScanInv

theorem of_live (h : ScanInv cfg σ free pend) (haccepts : AcceptInv cfg τ.toAccepts free' pend')
    (hwaits : τ.scan ≠ .off → τ.listener = .wait)
    (hstands : ∃ left, τ.steps + left ≤ 5 * max cfg.nInitialAccepts cfg.nMaxAccepts + 1 ∧
      Standing pend' left τ.scan)
    (htaken : ∀ b, τ.taken.count b ≤ τ.handling.count b)
    (hclosing : ∀ b s, τ.scan = .close b s → τ.sClient b = s)
    (hused : τ.used = σ.used) (hlive : ∀ v, v ≠ invalidSocket → τ.live v = σ.live v)
    (hvalid : invalidSocket ∉ τ.closed) : ScanInv cfg τ free' pend' := by
  refine ⟨haccepts, hwaits, hstands, htaken, hclosing, fun v hv => ?_, fun v hv => ?_, hvalid⟩
  · rw [hlive v hv]
    exact h.live v hv
  · rw [hlive v hv, hused]
    exact h.seen v hv

theorem stands_step (h : ScanInv cfg σ free pend) (hon : σ.scan ≠ .off)
    (hstand : ∀ left, Standing pend (left + 1) σ.scan → Standing pend left pc) :
    ∃ left, σ.steps + 1 + left ≤ 5 * max cfg.nInitialAccepts cfg.nMaxAccepts + 1 ∧
      Standing pend left pc := by
  obtain ⟨left, hsteps, hleft⟩ := h.stands
  obtain ⟨n, rfl⟩ := hleft.exists_succ hon
  exact ⟨n, by omega, hstand n hleft⟩

theorem moved (h : ScanInv cfg σ free pend) (hon : σ.scan ≠ .off)
    (hstand : ∀ left, Standing pend (left + 1) σ.scan → Standing pend left pc)
    (hforget : ∀ b, σ.scan ≠ .forget b) (hforget' : ∀ b, pc ≠ .forget b)
    (hclosing : ∀ b s, pc = .close b s → σ.sClient b = s) :
    ScanInv cfg { σ with scan := pc, steps := σ.steps + 1 } free pend := by
  refine h.of_live h.accepts (fun _ => h.waits hon) (h.stands_step hon hstand) h.taken hclosing rfl
    (fun v _ => ?_) h.valid
  have hview : IdleScan.view { σ with scan := pc, steps := σ.steps + 1 } = σ.view := by
    funext b
    rw [IdleScan.view, IdleScan.view, if_neg (hforget b), if_neg (hforget' b)]
  unfold IdleScan.live
  rw [hview]
  rfl

theorem scanClose (h : ScanInv cfg σ free pend) (hscan : σ.scan = .close b s) :
    ScanInv cfg { σ.closesocket s with scan := .forget b, steps := σ.steps + 1 } free pend := by
  have hon : σ.scan ≠ .off := by
    rw [hscan]
    nofun
  have hat : σ.scan.at = some b := by
    rw [hscan]
    rfl
  have hb := h.holder_of_at hat
  have hs := h.closing b s hscan
  refine h.of_live h.accepts (fun _ => h.waits hon) (h.stands_step hon fun left hstand => ?_)
    h.taken nofun rfl (fun v hv => ?_) ?_
  · exact hstand.move hat rfl (by rw [hscan]; exact Nat.lt_succ_self 2)
  · have hafter := live_split
      (σ := { σ.closesocket s with scan := .forget b, steps := σ.steps + 1 }) hb v
    have hrest : (σ.holders.erase b).map
        (IdleScan.view { σ.closesocket s with scan := .forget b, steps := σ.steps + 1 })
        = (σ.holders.erase b).map σ.view := by
      refine List.map_congr_left fun c hc => ?_
      have hcb : b ≠ c := fun he => h.not_mem_erase b (he ▸ hc)
      rw [IdleScan.view, IdleScan.view, hscan, if_neg (by simpa using hcb), if_neg nofun]
      rfl
    have hnow : IdleScan.view { σ.closesocket s with scan := .forget b, steps := σ.steps + 1 } b
        = invalidSocket := if_pos rfl
    have hold : σ.view b = s := by
      rw [IdleScan.view, hscan]
      exact hs
    refine hafter.trans ?_
    rw [live_split hb v, hnow, if_neg (Ne.symm hv), hold]
    change 0 + ((σ.holders.erase b).map _).count v + σ.clients.count v +
      (σ.closesocket s).closed.count v = _
    rw [hrest, count_closesocket hv]
    omega
  · exact closesocket_valid h.valid s

theorem scanForget (h : ScanInv cfg σ free pend) (hscan : σ.scan = .forget b) :
    ScanInv cfg { σ.setSocket b invalidSocket with scan := .next b, steps := σ.steps + 1 }
      free pend := by
  have hon : σ.scan ≠ .off := by
    rw [hscan]
    nofun
  have hat : σ.scan.at = some b := by
    rw [hscan]
    rfl
  refine h.of_live h.accepts (fun _ => h.waits hon) (h.stands_step hon fun left hstand => ?_)
    h.taken nofun rfl (fun v hv => ?_) h.valid
  · exact hstand.move hat rfl (by rw [hscan]; exact Nat.lt_succ_self 1)
  · have hview : IdleScan.view
        { σ.setSocket b invalidSocket with scan := .next b, steps := σ.steps + 1 } = σ.view := by
      funext c
      rw [IdleScan.view, IdleScan.view, hscan, if_neg nofun]
      by_cases hcb : c = b
      · rw [hcb, if_pos rfl]
        exact Function.update_self ..
      · rw [if_neg (by simpa using Ne.symm hcb)]
        exact Function.update_of_ne hcb ..
    unfold IdleScan.live
    rw [hview]
    rfl

theorem scanned (h : ScanInv cfg σ free pend) {idle : Bool}
    (hs : σ.step cfg (.scan idle) = some τ) : ScanInv cfg τ free pend := by
  obtain ⟨υ, hυ, rfl⟩ := Option.map_eq_some_iff.mp hs
  cases hscan : σ.scan with
  | off =>
      rw [IdleScan.scanStep, hscan] at hυ
      cases hυ
  | head =>
      rw [IdleScan.scanStep, hscan] at hυ
      cases hυ
      refine h.moved (by rw [hscan]; nofun) (fun left hstand => ?_) (by rw [hscan]; nofun)
        (visit_ne_forget _) fun b s he => absurd he (visit_ne_close _ b s)
      rw [hscan] at hstand
      refine Standing.visit h.accepts.pool.pend_chain (List.nil_append pend).symm ?_
      have hleft : 1 + 5 * pend.length ≤ left + 1 := hstand.resolve_left nofun
      omega
  | look b =>
      rw [IdleScan.scanStep, hscan] at hυ
      cases hυ
      refine h.moved (by rw [hscan]; nofun) (fun left hstand => ?_) (by rw [hscan]; nofun) ?_ ?_
      · rw [hscan] at hstand
        cases idle with
        | true => exact hstand.move rfl rfl (Nat.lt_succ_self 4)
        | false => exact hstand.move rfl rfl (show 1 < 5 by decide)
      · cases idle <;> nofun
      · cases idle <;> nofun
  | load b =>
      rw [IdleScan.scanStep, hscan] at hυ
      cases hυ
      refine h.moved (by rw [hscan]; nofun) (fun left hstand => ?_) (by rw [hscan]; nofun) nofun ?_
      · rw [hscan] at hstand
        exact hstand.move rfl rfl (Nat.lt_succ_self 3)
      · intro c s he
        cases he
        rfl
  | close b s =>
      rw [IdleScan.scanStep, hscan] at hυ
      cases hυ
      exact h.scanClose hscan
  | forget b =>
      rw [IdleScan.scanStep, hscan] at hυ
      cases hυ
      exact h.scanForget hscan
  | next b =>
      rw [IdleScan.scanStep, hscan] at hυ
      cases hυ
      refine h.moved (by rw [hscan]; nofun) (fun left hstand => ?_) (by rw [hscan]; nofun)
        (visit_ne_forget _) fun b s he => absurd he (visit_ne_close _ b s)
      rw [hscan] at hstand
      obtain ⟨l₁, l₂, hpend, hle⟩ := hstand
      have hchain := h.accepts.pool.pend_chain
      rw [hpend] at hchain
      have hle' : 1 + 5 * l₂.length ≤ left + 1 := hle
      have hsplit : pend = (l₁ ++ [b]) ++ l₂ := by
        rw [hpend, List.append_assoc]
        rfl
      exact Standing.visit hchain.suffix hsplit (by omega)

end ScanInv

/-! ## The other steps -/

theorem Standing.erase (h : Standing pend left pc) (hne : pc.at ≠ some b) :
    Standing (pend.erase b) left pc := by
  unfold Standing at h ⊢
  cases hat : pc.at with
  | none =>
      rw [hat] at h
      have hle := (List.erase_sublist (a := b) (l := pend)).length_le
      exact h.imp_right fun h => by omega
  | some c =>
      rw [hat] at h hne
      have hcb : c ≠ b := fun he => hne (he ▸ rfl)
      obtain ⟨l₁, l₂, rfl, hle⟩ := h
      by_cases hb : b ∈ l₁
      · exact ⟨l₁.erase b, l₂, List.erase_append_left _ hb, hle⟩
      · have hle' := (List.erase_sublist (a := b) (l := l₂)).length_le
        refine ⟨l₁, l₂.erase b, ?_, by omega⟩
        rw [List.erase_append_right _ hb, List.erase_cons_tail (by simpa using hcb)]

namespace ScanInv

theorem stands_same (h : ScanInv cfg σ free pend)
    (hstand : ∀ left, Standing pend left σ.scan → Standing pend' left σ.scan) :
    ∃ left, σ.steps + left ≤ 5 * max cfg.nInitialAccepts cfg.nMaxAccepts + 1 ∧
      Standing pend' left σ.scan := by
  obtain ⟨left, hsteps, hleft⟩ := h.stands
  exact ⟨left, hsteps, hstand left hleft⟩

/-- A buffer that is in nobody's list has no socket of its own. -/
theorem not_holder (h : ScanInv cfg σ free pend) (hb : b ∈ σ.handling ++ σ.held)
    (htaken : b ∉ σ.taken) : b ∉ σ.holders := by
  have hpend : b ∉ pend := by
    refine h.accepts.pool.not_pend (.inr ?_)
    rw [List.append_assoc]
    exact List.mem_append_right _ hb
  have hlisted := h.accepts.listed b
  rw [List.count_eq_zero.mpr hpend] at hlisted
  refine List.count_eq_zero.mp ?_
  unfold IdleScan.holders
  simp only [List.count_append, List.count_eq_zero.mpr htaken]
  omega

/-- `ReleaseBuffer` clears a socket that is nobody's. -/
theorem cleared (h : ScanInv cfg σ free pend) {t : Accepts}
    (ht : AcceptInv cfg t free' pend) (hb : b ∈ σ.handling ++ σ.held) (hnot : b ∉ σ.taken)
    (hlistener : t.listener = σ.listener) (hposted : t.posted = σ.posted)
    (hfailed : t.failed = σ.failed) (htaken : ∀ c, σ.taken.count c ≤ t.handling.count c) :
    ScanInv cfg { σ.setSocket b 0 with toAccepts := t } free' pend := by
  have hpend : b ∉ pend := by
    refine h.accepts.pool.not_pend (.inr ?_)
    rw [List.append_assoc]
    exact List.mem_append_right _ hb
  have hholders : IdleScan.holders { σ.setSocket b 0 with toAccepts := t } = σ.holders := by
    unfold IdleScan.holders
    change t.posted ++ t.failed ++ σ.taken = _
    rw [hposted, hfailed]
  refine h.of_live ht (fun hon => hlistener.trans (h.waits hon)) (h.stands_same fun _ hs => hs)
    htaken (fun c s hscan => ?_) rfl (fun v _ => ?_) h.valid
  · have hcb : c ≠ b := by
      rintro rfl
      exact hpend (h.at_mem (by rw [show σ.scan = _ from hscan]; rfl))
    exact (Function.update_of_ne hcb ..).trans (h.closing c s hscan)
  · have hview : σ.holders.map (IdleScan.view { σ.setSocket b 0 with toAccepts := t })
        = σ.holders.map σ.view := by
      refine List.map_congr_left fun c hc => ?_
      have hcb : c ≠ b := fun he => h.not_holder hb hnot (he ▸ hc)
      exact view_congr rfl (Function.update_of_ne hcb ..)
    unfold IdleScan.live
    rw [hholders, hview]
    rfl

theorem same (h : ScanInv cfg σ free pend) {t : Accepts} (ht : AcceptInv cfg t free' pend)
    (hlistener : t.listener = σ.listener) (hposted : t.posted = σ.posted)
    (hfailed : t.failed = σ.failed) (hhandling : t.handling = σ.handling) :
    ScanInv cfg { σ with toAccepts := t } free' pend := by
  have hholders : IdleScan.holders { σ with toAccepts := t } = σ.holders := by
    unfold IdleScan.holders
    change t.posted ++ t.failed ++ σ.taken = _
    rw [hposted, hfailed]
  refine h.of_live ht (fun hon => hlistener.trans (h.waits hon)) (h.stands_same fun _ hs => hs)
    (fun c => ?_) h.closing rfl (fun v _ => ?_) h.valid
  · change σ.taken.count c ≤ t.handling.count c
    rw [hhandling]
    exact h.taken c
  · unfold IdleScan.live
    rw [hholders]
    rfl

theorem complete (h : ScanInv cfg σ free pend) {t : Accepts}
    (ht : AcceptInv cfg t free' (pend.erase b)) (hb : b ∈ σ.posted) (hok : σ.scan.at ≠ some b)
    (hlistener : t.listener = σ.listener) (hposted : t.posted = σ.posted.erase b)
    (hfailed : t.failed = σ.failed) (hhandling : t.handling = b :: σ.handling) :
    ScanInv cfg { σ with toAccepts := t, taken := b :: σ.taken } free' (pend.erase b) := by
  have hperm : (IdleScan.holders { σ with toAccepts := t, taken := b :: σ.taken }).Perm
      σ.holders := by
    refine List.perm_iff_count.mpr fun c => ?_
    have herase := (List.perm_cons_erase hb).count_eq c
    unfold IdleScan.holders
    change (t.posted ++ t.failed ++ (b :: σ.taken)).count c = _
    rw [hposted, hfailed]
    simp only [List.count_append, List.count_cons] at herase ⊢
    omega
  refine h.of_live ht (fun hon => hlistener.trans (h.waits hon))
    (h.stands_same fun _ hs => hs.erase hok) (fun c => ?_) h.closing rfl (fun v _ => ?_) h.valid
  · change (b :: σ.taken).count c ≤ t.handling.count c
    rw [hhandling, List.count_cons, List.count_cons]
    exact Nat.add_le_add_right (h.taken c) _
  · unfold IdleScan.live
    have hcount := (hperm.map σ.view).count_eq v
    change (List.map σ.view _).count v + σ.clients.count v + σ.closed.count v = _
    rw [hcount]

theorem worked (h : ScanInv cfg σ free pend) {act : AcceptAction}
    (hok : StandsUndisturbed σ (.work act)) (hs : σ.worked cfg act = some τ) :
    ∃ free' pend', ScanInv cfg τ free' pend' := by
  cases act with
  | listen a acceptEx w => cases hs
  | complete b =>
      obtain ⟨t, ht, rfl⟩ := Option.map_eq_some_iff.mp hs
      obtain ⟨free', ht'⟩ := h.accepts.work (by nofun) ht
      obtain ⟨hb, ht⟩ := Option.ite_none_right_eq_some.mp ht
      obtain ⟨u, -, rfl⟩ := Option.map_eq_some_iff.mp ht
      exact ⟨free', _, h.complete ht' hb hok rfl rfl rfl rfl⟩
  | release b error =>
      obtain ⟨hnot, hs⟩ := Option.ite_none_left_eq_some.mp hs
      obtain ⟨t, ht, rfl⟩ := Option.map_eq_some_iff.mp hs
      obtain ⟨free', ht'⟩ := h.accepts.work (by nofun) ht
      obtain ⟨hb, ht⟩ := Option.ite_none_right_eq_some.mp ht
      cases ht
      refine ⟨free', _, h.cleared ht' (List.mem_append_left _ hb) hnot rfl rfl rfl fun c => ?_⟩
      change σ.taken.count c ≤ (σ.handling.erase b).count c
      by_cases hcb : c = b
      · rw [hcb, List.count_eq_zero.mpr hnot]
        exact Nat.zero_le _
      · rw [List.count_erase_of_ne hcb]
        exact h.taken c
  | free b =>
      obtain ⟨t, ht, rfl⟩ := Option.map_eq_some_iff.mp hs
      obtain ⟨free', ht'⟩ := h.accepts.work (by nofun) ht
      obtain ⟨hb, ht⟩ := Option.ite_none_right_eq_some.mp ht
      cases ht
      have hnot : b ∉ σ.taken := by
        intro hmem
        have howned := h.accepts.pool.owned b
        have honce := h.accepts.pool.once b
        have hpos₁ := List.count_pos_iff.mpr (h.taken_handling hmem)
        have hpos₂ := List.count_pos_iff.mpr hb
        simp only [List.count_append] at howned
        omega
      exact ⟨free', _, h.cleared ht' (List.mem_append_right _ hb) hnot rfl rfl rfl h.taken⟩
  | signal =>
      obtain ⟨t, ht, rfl⟩ := Option.map_eq_some_iff.mp hs
      obtain ⟨free', ht'⟩ := h.accepts.work (by nofun) ht
      obtain ⟨-, ht⟩ := Option.ite_none_right_eq_some.mp ht
      cases ht
      exact ⟨free', _, h.same ht' rfl rfl rfl rfl⟩
  | allocate a =>
      obtain ⟨t, ht, rfl⟩ := Option.map_eq_some_iff.mp hs
      obtain ⟨free', ht'⟩ := h.accepts.work (by nofun) ht
      obtain ⟨u, -, rfl⟩ := Option.map_eq_some_iff.mp ht
      exact ⟨free', _, h.same ht' rfl rfl rfl rfl⟩
  | link b v =>
      obtain ⟨t, ht, rfl⟩ := Option.map_eq_some_iff.mp hs
      obtain ⟨free', ht'⟩ := h.accepts.work (by nofun) ht
      obtain ⟨-, ht⟩ := Option.ite_none_right_eq_some.mp ht
      cases ht
      exact ⟨free', _, h.same ht' rfl rfl rfl rfl⟩

theorem dealt (h : ScanInv cfg σ free pend) (hb : b ∈ σ.taken)
    (haccepts : τ.toAccepts = σ.toAccepts) (hscan : τ.scan = σ.scan) (hsteps : τ.steps = σ.steps)
    (htaken : τ.taken = σ.taken.erase b) (hused : τ.used = σ.used)
    (hclient : ∀ c, c ≠ b → τ.sClient c = σ.sClient c)
    (hlive : ∀ v, v ≠ invalidSocket → τ.clients.count v + τ.closed.count v
      = σ.clients.count v + σ.closed.count v + if σ.sClient b = v then 1 else 0)
    (hvalid : invalidSocket ∉ τ.closed) : ScanInv cfg τ free pend := by
  have hpend := h.handling_not_pend (h.taken_handling hb)
  have hmem : b ∈ σ.holders := List.mem_append_right _ hb
  have hperm : τ.holders.Perm (σ.holders.erase b) := by
    refine List.perm_iff_count.mpr fun c => ?_
    have hold := (List.perm_cons_erase hmem).count_eq c
    have htake := (List.perm_cons_erase hb).count_eq c
    unfold IdleScan.holders at hold ⊢
    rw [haccepts, htaken]
    simp only [List.count_append, List.count_cons] at hold htake ⊢
    omega
  refine h.of_live (haccepts ▸ h.accepts) ?_ ?_ (fun c => ?_) (fun c s hc => ?_) hused
    (fun v hv => ?_) hvalid
  · rw [hscan, haccepts]
    exact h.waits
  · rw [hscan, hsteps]
    exact h.stands
  · rw [htaken, haccepts]
    exact Nat.le_trans (List.erase_sublist.count_le c) (h.taken c)
  · rw [hscan] at hc
    have hcb : c ≠ b := by
      rintro rfl
      exact hpend (h.at_mem (by rw [hc]; rfl))
    rw [hclient c hcb]
    exact h.closing c s hc
  · have hview : (σ.holders.erase b).map τ.view = (σ.holders.erase b).map σ.view := by
      refine List.map_congr_left fun c hc => ?_
      have hcb : c ≠ b := fun he => h.not_mem_erase b (he ▸ hc)
      exact view_congr hscan (hclient c hcb)
    have hcount := (hperm.map τ.view).count_eq v
    rw [hview] at hcount
    have hdealt := hlive v hv
    rw [live_split hmem v, h.view_of_not_pend hpend]
    unfold IdleScan.live
    rw [hcount]
    omega

theorem off (h : ScanInv cfg σ free pend) (hoff : σ.scan = .off) {t : Accepts}
    (ht : AcceptInv cfg t free' pend')
    (hsame : t.posted = σ.posted ∧ t.failed = σ.failed ∧ t.handling = σ.handling) :
    ScanInv cfg { σ with toAccepts := t } free' pend' := by
  have hholders : IdleScan.holders { σ with toAccepts := t } = σ.holders := by
    unfold IdleScan.holders
    change t.posted ++ t.failed ++ σ.taken = _
    rw [hsame.1, hsame.2.1]
  refine h.of_live ht (fun hon => absurd hoff hon) (h.stands_same fun _ _ => ?_) (fun c => ?_)
    h.closing rfl (fun v _ => ?_) h.valid
  · rw [hoff]
    exact .inl rfl
  · change σ.taken.count c ≤ t.handling.count c
    rw [hsame.2.2]
    exact h.taken c
  · unfold IdleScan.live
    rw [hholders]
    rfl

/-- `PostAccept`: the buffer gets the socket `s`. -/
theorem posted (h : ScanInv cfg σ free pend) (hoff : σ.scan = .off) {t : Accepts}
    (ht : AcceptInv cfg t free' pend') (hb : b ∈ σ.issuing)
    (hperm : (t.posted ++ t.failed).Perm (b :: (σ.posted ++ σ.failed)))
    (hhandling : t.handling = σ.handling) {u : List SOCKET} (hused : ∀ v ∈ σ.used, v ∈ u)
    (hfresh : s ≠ invalidSocket → s ∉ σ.used ∧ s ∈ u) :
    ScanInv cfg { σ.setSocket b s with toAccepts := t, used := u } free' pend' := by
  have hb' : b ∉ σ.holders := by
    have hpos := List.count_pos_iff.mpr hb
    have hlisted := h.accepts.listed b
    have howned := h.accepts.pool.owned b
    have honce := h.accepts.pool.once b
    have htaken := h.taken b
    refine List.count_eq_zero.mp ?_
    unfold IdleScan.holders
    simp only [List.count_append] at howned ⊢
    omega
  have hlive : ∀ v, IdleScan.live { σ.setSocket b s with toAccepts := t, used := u } v
      = (if s = v then 1 else 0) + σ.live v := by
    intro v
    have hnow : IdleScan.view { σ.setSocket b s with toAccepts := t, used := u } b = s := by
      rw [IdleScan.view, if_neg]
      · exact Function.update_self ..
      · change ¬ σ.scan = _
        rw [hoff]
        nofun
    have hrest : σ.holders.map (IdleScan.view { σ.setSocket b s with toAccepts := t, used := u })
        = σ.holders.map σ.view := by
      refine List.map_congr_left fun c hc => ?_
      have hcb : c ≠ b := fun he => hb' (he ▸ hc)
      exact view_congr rfl (Function.update_of_ne hcb ..)
    have hholders : (IdleScan.holders { σ.setSocket b s with toAccepts := t, used := u }).Perm
        (b :: σ.holders) := hperm.append_right σ.taken
    have hcount := (hholders.map
      (IdleScan.view { σ.setSocket b s with toAccepts := t, used := u })).count_eq v
    rw [List.map_cons, hnow, hrest, List.count_cons] at hcount
    simp only [beq_iff_eq] at hcount
    unfold IdleScan.live
    rw [hcount]
    change _ + σ.clients.count v + σ.closed.count v = _
    omega
  have hzero : s ≠ invalidSocket → σ.live s = 0 := by
    intro hs
    by_contra hne
    exact (hfresh hs).1 (h.seen s hs (Nat.pos_of_ne_zero hne))
  refine ⟨ht, fun hon => absurd hoff hon, h.stands_same fun _ _ => ?_, fun c => ?_,
    fun c s hc => absurd (hoff.symm.trans hc) nofun,
    fun v hv => ?_, fun v hv hpos => ?_, h.valid⟩
  · rw [hoff]
    exact .inl rfl
  · change σ.taken.count c ≤ t.handling.count c
    rw [hhandling]
    exact h.taken c
  · rw [hlive]
    split
    · rename_i he
      rw [← he, hzero (he ▸ hv)]
    · rw [Nat.zero_add]
      exact h.live v hv
  · rw [hlive] at hpos
    split at hpos
    · rename_i he
      exact he ▸ (hfresh (he ▸ hv)).2
    · rw [Nat.zero_add] at hpos
      exact hused v (h.seen v hv hpos)

theorem start (h : ScanInv cfg σ free pend) (hoff : σ.scan = .off) (hwait : σ.listener = .wait) :
    ScanInv cfg { σ with scan := .head, steps := 0 } free pend := by
  refine h.of_live h.accepts (fun _ => hwait) ⟨1 + 5 * pend.length, ?_, .inr (Nat.le_refl _)⟩
    h.taken nofun rfl (fun v _ => ?_) h.valid
  · have hroom := h.accepts.room.le
    change 0 + (1 + 5 * pend.length) ≤ _
    omega
  · have hview : IdleScan.view { σ with scan := .head, steps := 0 } = σ.view := by
      funext c
      rw [IdleScan.view, IdleScan.view, hoff, if_neg nofun, if_neg nofun]
    unfold IdleScan.live
    rw [hview]
    rfl

theorem listened (h : ScanInv cfg σ free pend) {a : Option Nat} {acceptEx : Bool} {w : Wake}
    {r : Option SOCKET} (hs : σ.step cfg (.listen a acceptEx w r) = some τ) :
    ∃ free' pend', ScanInv cfg τ free' pend' := by
  obtain ⟨hoff, hs⟩ := Option.ite_none_right_eq_some.mp hs
  obtain ⟨t, ht, hs⟩ := Option.bind_eq_some_iff.mp hs
  obtain ⟨free', pend', ht'⟩ := h.accepts.listen ht
  refine ⟨free', pend', ?_⟩
  cases hpc : σ.listener with
  | post b k =>
      have hb : b ∈ σ.issuing := by
        rw [Accepts.issuing, hpc]
        exact List.mem_singleton_self b
      have hmade := ht
      rw [Accepts.step, Accepts.listen, hpc] at hmade
      have hperm : (t.posted ++ t.failed).Perm (b :: (σ.posted ++ σ.failed)) ∧
          t.handling = σ.handling := by
        cases acceptEx with
        | true => exact Option.some.inj hmade ▸ ⟨List.Perm.refl _, rfl⟩
        | false => exact Option.some.inj hmade ▸ ⟨List.perm_middle, rfl⟩
      rw [IdleScan.listened, hpc] at hs
      cases r with
      | none =>
          cases hs
          exact h.posted hoff ht' hb hperm.1 hperm.2 (fun _ hv => hv) fun hne => absurd rfl hne
      | some s =>
          obtain ⟨hfresh, hs⟩ := Option.ite_none_left_eq_some.mp hs
          cases hs
          exact h.posted hoff ht' hb hperm.1 hperm.2 (fun _ hv => List.mem_cons_of_mem s hv)
            fun _ => ⟨fun hmem => hfresh (.inl hmem), List.mem_cons_self⟩
  | wait =>
      have hsame := listen_posts ht (by rw [hpc]; intro b k he; cases he)
      have hnext := h.off hoff ht' hsame
      rw [IdleScan.listened, hpc] at hs
      by_cases hw : w = .timeout
      · rw [if_pos hw] at hs
        cases hs
        have hsame : t = σ.toAccepts := by
          have hwake := ht
          rw [Accepts.step, Accepts.listen, hpc, hw] at hwake
          exact (Option.some.inj hwake).symm
        subst hsame
        exact (h.off hoff ht' ⟨rfl, rfl, rfl⟩).start hoff hpc
      · rw [if_neg hw] at hs
        cases hs
        exact hnext
  | loop k | insert b k | exited =>
      have hsame := listen_posts ht (by rw [hpc]; intro b k he; cases he)
      rw [IdleScan.listened, hpc] at hs
      cases hs
      exact h.off hoff ht' hsame

theorem step (h : ScanInv cfg σ free pend) {act : IdleAction} (hok : StandsUndisturbed σ act)
    (hs : σ.step cfg act = some τ) : ∃ free' pend', ScanInv cfg τ free' pend' := by
  cases act with
  | listen a acceptEx w r => exact h.listened hs
  | scan idle => exact ⟨free, pend, h.scanned hs⟩
  | work act => exact h.worked hok hs
  | takeOver b =>
      obtain ⟨hb, hs⟩ := Option.ite_none_right_eq_some.mp hs
      cases hs
      refine ⟨free, pend, h.dealt hb rfl rfl rfl rfl rfl (fun _ _ => rfl) (fun v _ => ?_) h.valid⟩
      change (σ.sClient b :: σ.clients).count v + σ.closed.count v = _
      rw [List.count_cons]
      simp only [beq_iff_eq]
      omega
  | refuse b =>
      obtain ⟨hb, hs⟩ := Option.ite_none_right_eq_some.mp hs
      cases hs
      refine ⟨free, pend, h.dealt hb rfl rfl rfl rfl rfl
        (fun c hc => Function.update_of_ne hc ..) (fun v hv => ?_) (closesocket_valid h.valid _)⟩
      change σ.clients.count v + (σ.closesocket (σ.sClient b)).closed.count v = _
      rw [count_closesocket hv]
      omega
  | closeClient s =>
      obtain ⟨⟨hmem, hs'⟩, hs⟩ := Option.ite_none_right_eq_some.mp hs
      cases hs
      refine ⟨free, pend, h.of_live h.accepts h.waits h.stands h.taken h.closing rfl
        (fun v hv => ?_) (closesocket_valid h.valid s)⟩
      have hperm := (List.perm_cons_erase hmem).count_eq v
      change (σ.holders.map σ.view).count v + (σ.clients.erase s).count v +
        (σ.closesocket s).closed.count v = _
      rw [count_closesocket hv]
      unfold IdleScan.live
      rw [hperm, List.count_cons]
      simp only [beq_iff_eq]
      omega

theorem init (cfg : Limits) : ScanInv cfg (.init cfg) [] [] where
  accepts := .init cfg
  waits h := absurd rfl h
  stands := ⟨0, Nat.zero_le _, .inl rfl⟩
  taken _ := Nat.zero_le _
  closing _ _ h := by cases h
  live _ _ := Nat.zero_le 1
  seen _ _ h := absurd h (Nat.lt_irrefl 0)
  valid := List.not_mem_nil

end ScanInv

end

/-- Every run on which no worker takes out the buffer at which the scan stands. -/
theorem idle_scan {cfg : Limits} {σ : IdleScan}
    (hrun : Via (IdleScan.step cfg) StandsUndisturbed (.init cfg) σ) : IdleScanned cfg σ := by
  have hinv : ∃ free pend, ScanInv cfg σ free pend := by
    refine hrun.invariant (P := fun σ => ∃ free pend, ScanInv cfg σ free pend)
      ⟨[], [], .init cfg⟩ ?_
    rintro t act u ⟨free, pend, h⟩ hok hs
    exact h.step hok hs
  obtain ⟨free, pend, h⟩ := hinv
  exact h.idleScanned

/-- Two accepts are posted, with the sockets 1 and 2, and the minute is over. -/
def twoAccepts : List IdleAction :=
  [.listen (some 1) true .timeout none, .listen none true .timeout none,
   .listen none true .timeout (some 1), .listen (some 2) true .timeout none,
   .listen none true .timeout none, .listen none true .timeout (some 2),
   .listen none true .timeout none, .listen none true .timeout none]

/-- The scan closes the socket of the second accept, while the first one completes. -/
theorem idle_scan_two :
    ∃ σ, Via (IdleScan.step ⟨2, 2, 200⟩) StandsUndisturbed (.init ⟨2, 2, 200⟩) σ ∧
      σ.closed = [2] ∧ σ.clients = [1] ∧ σ.scan = .off ∧ IdleScanned ⟨2, 2, 200⟩ σ := by
  have hexec : ∃ σ, Via (IdleScan.step ⟨2, 2, 200⟩) StandsUndisturbed (.init ⟨2, 2, 200⟩) σ ∧
      σ.closed = [2] ∧ σ.clients = [1] ∧ σ.scan = .off :=
    exists_via_of_execIf (List.flatten [
      twoAccepts,
      [.scan true, .scan true, .work (.complete 1), .takeOver 1, .work (.release 1 false),
        .scan true, .scan true, .scan true, .scan true]])
      (by decide +kernel)
  obtain ⟨σ, hrun, hclosed, hclients, hscan⟩ := hexec
  exact ⟨σ, hrun, hclosed, hclients, hscan, idle_scan hrun⟩

/-- A worker takes the accept over while the scan looks at it. -/
theorem not_idle_scan :
    ¬ ∀ (cfg : Limits) (σ : IdleScan),
      Via (IdleScan.step cfg) (fun _ _ => True) (.init cfg) σ → IdleScanned cfg σ := by
  intro h
  have hexec : ∃ σ, Via (IdleScan.step ⟨2, 2, 200⟩) (fun _ _ => True) (.init ⟨2, 2, 200⟩) σ ∧
      σ.scan = .close 2 2 ∧ 2 ∈ σ.clients :=
    exists_via_of_execIf (List.flatten [
      twoAccepts, [.scan true, .scan true, .work (.complete 2), .takeOver 2, .scan true]])
      (by decide +kernel)
  obtain ⟨σ, hrun, hscan, hclient⟩ := hexec
  exact (((h ⟨2, 2, 200⟩ σ hrun).closes 2 2 hscan).2 (by decide)).1 hclient

end CppWorkspace.CIOCPServer
