/-
# `CppWorkspace.CIOCPServer.PendingAccepts` — the accepts that the listener has posted

The listening thread and any number of workers over the buffer pool: who calls
`AcceptEx`, what `m_pPendingAccepts` holds, and what its counter lets through.

**The listener** (`ListenPc` is the position BEFORE the step) posts
`m_nInitialAccepts` accepts, then waits; woken for a reason it posts up to 50 or
up to `m_nRepostCount` more, as long as the counter is below `m_nMaxAccepts`.
Each post is three steps: `AllocateBuffer`, `InsertPendingAccept`, `PostAccept`.

**A worker** with an accept completion calls `RemovePendingAccept` (`complete`),
later gives the buffer back (`release`) and, unless there was an error,
increments `m_nRepostCount` (`signal`).

**The other users of the pool** allocate, link and free their buffers
(`allocate`, `link`, `free`): reads, sends, and the writes of
`GetNextReadBuffer` to `pNext`.

An `AcceptEx` is in flight from its call until its completion is taken from the
list.  `PostAccept` returns `FALSE` when `AcceptEx` fails, and nobody looks:
the buffer stays in the list (`failed`), for ever.  So the list is what is in
flight exactly if no `AcceptEx` has failed (`pending_accepts_iff`).

The one-minute check of `SO_CONNECT_TIME` reads the list and changes nothing
here; `m_bShutDown` ends the listener.
-/
import CppWorkspace.CIOCPServer.BufferPool
import CppWorkspace.Lib.Runs

namespace CppWorkspace.CIOCPServer

open LinkedList Runs

/-- The members that bound the accepts and the pool. -/
structure Limits where
  nInitialAccepts : Nat
  nMaxAccepts : Nat
  nMaxFreeBuffers : Int

/-- The constructor's values. -/
def defaultLimits : Limits where
  nInitialAccepts := 10
  nMaxAccepts := 100
  nMaxFreeBuffers := 200

/-- The two loops that post accepts, with the number of rounds left. -/
inductive AcceptLoop where
  | initial (left : Nat)
  | repost (left : Nat)
deriving DecidableEq, Repr

/-- Where the listener is. -/
inductive ListenPc where
  | loop (k : AcceptLoop)
  | insert (b : Nat) (k : AcceptLoop)
  | post (b : Nat) (k : AcceptLoop)
  | wait
  | exited
deriving DecidableEq, Repr

/-- Why `WSAWaitForMultipleEvents` returned. -/
inductive Wake where
  | timeout
  | acceptEvent (fdAccept : Bool)
  | repostEvent
  | shutDown
deriving DecidableEq, Repr

/-- The pool, the listener, and the buffers in the hands of the kernel, of the
workers and of everybody else.  `failed` lists the buffers whose `AcceptEx`
failed. -/
structure Accepts extends Buffers where
  nRepostCount : Nat
  listener : ListenPc
  posted : List Nat
  failed : List Nat
  handling : List Nat
  signalling : Nat
  held : List Nat

/-- A step of the listener or of a worker. -/
inductive AcceptAction where
  /-- the listener takes its next step; the rest is what the system returns -/
  | listen (a : Option Nat) (acceptEx : Bool) (w : Wake)
  /-- a worker takes the completion of the accept with this buffer -/
  | complete (b : Nat)
  /-- it releases the buffer; `error` if the completion had one -/
  | release (b : Nat) (error : Bool)
  | signal
  /-- somebody allocates a buffer, writes its link, releases it -/
  | allocate (a : Option Nat)
  | link (b : Nat) (v : Option Nat)
  | free (b : Nat)
deriving DecidableEq, Repr

namespace Accepts

def init (cfg : Limits) : Accepts where
  toBuffers := .empty
  nRepostCount := 0
  listener := .loop (.initial cfg.nInitialAccepts)
  posted := []
  failed := []
  handling := []
  signalling := 0
  held := []

def withBuffers (s : Accepts) (t : Buffers) : Accepts := { s with toBuffers := t }

/-- `nLimit`, and what becomes of `m_nRepostCount`. -/
def wake (s : Accepts) : Wake → Accepts
  | .timeout => s
  | .acceptEvent fdAccept =>
      { s with listener := .loop (.repost (if fdAccept then 50 else 0)) }
  | .repostEvent => { s with listener := .loop (.repost s.nRepostCount), nRepostCount := 0 }
  | .shutDown => { s with listener := .exited }

/-- `AllocateBuffer` for a new accept.  The first loop gives up without a buffer,
the second goes on. -/
def listenAllocate (s : Accepts) (a : Option Nat) (k : AcceptLoop) : Option Accepts :=
  (s.allocateBuffer a).map fun (t, p) =>
    { s with
      toBuffers := t
      listener :=
        match p, k with
        | some b, k => .insert b k
        | none, .initial _ => .exited
        | none, .repost left => .loop (.repost left) }

/-- One step of `_ListenThreadProc`. -/
def listen (cfg : Limits) (s : Accepts) (a : Option Nat) (acceptEx : Bool) (w : Wake) :
    Option Accepts :=
  match s.listener with
  | .loop (.initial 0) | .loop (.repost 0) => some { s with listener := .wait }
  | .loop (.initial (left + 1)) => s.listenAllocate a (.initial left)
  | .loop (.repost (left + 1)) =>
      if s.nPendingAcceptCount < cfg.nMaxAccepts then s.listenAllocate a (.repost left)
      else some { s with listener := .wait }
  | .insert b k =>
      some (({ s with listener := .post b k } : Accepts).withBuffers
        (s.toBuffers.insertPendingAccept b))
  | .post b k =>
      some (if acceptEx then { s with posted := b :: s.posted, listener := .loop k }
        else { s with failed := b :: s.failed, listener := .loop k })
  | .wait => some (s.wake w)
  | .exited => none

def step (cfg : Limits) (s : Accepts) : AcceptAction → Option Accepts
  | .listen a acceptEx w => s.listen cfg a acceptEx w
  | .complete b =>
      if b ∈ s.posted then
        (s.toBuffers.removePendingAccept b).map fun t =>
          { s with toBuffers := t, posted := s.posted.erase b, handling := b :: s.handling }
      else none
  | .release b error =>
      if b ∈ s.handling then
        some (({ s with
          handling := s.handling.erase b
          signalling := if error then s.signalling else s.signalling + 1 } : Accepts).withBuffers
            (s.toBuffers.releaseBuffer cfg.nMaxFreeBuffers b))
      else none
  | .signal =>
      if 0 < s.signalling then
        some { s with nRepostCount := s.nRepostCount + 1, signalling := s.signalling - 1 }
      else none
  | .allocate a =>
      (s.toBuffers.allocateBuffer a).map fun (t, p) =>
        { s with toBuffers := t, held := p.toList ++ s.held }
  | .link b v =>
      if b ∈ s.held then
        some (s.withBuffers { s.toBuffers with pNext := write s.pNext b v })
      else none
  | .free b =>
      if b ∈ s.held then
        some (({ s with held := s.held.erase b } : Accepts).withBuffers
          (s.toBuffers.releaseBuffer cfg.nMaxFreeBuffers b))
      else none

/-- The buffer of the listener before `InsertPendingAccept`. -/
def allocated (s : Accepts) : List Nat :=
  match s.listener with
  | .insert b _ => [b]
  | _ => []

/-- The buffer whose `AcceptEx` is being called. -/
def issuing (s : Accepts) : List Nat :=
  match s.listener with
  | .post b _ => [b]
  | _ => []

/-- The accepts in flight. -/
def inFlight (s : Accepts) : List Nat := s.issuing ++ s.posted

end Accepts

/-- How many accepts there can be, by the position of the listener. -/
def Room (cfg : Limits) (n : Nat) : ListenPc → Prop
  | .loop (.initial left) | .post _ (.initial left) => n + left ≤ cfg.nInitialAccepts
  | .insert _ (.initial left) => n + left < cfg.nInitialAccepts
  | .insert _ (.repost _) => n < cfg.nMaxAccepts
  | _ => n ≤ max cfg.nInitialAccepts cfg.nMaxAccepts

theorem Room.le {cfg : Limits} {n : Nat} {pc : ListenPc} (h : Room cfg n pc) :
    n ≤ max cfg.nInitialAccepts cfg.nMaxAccepts := by
  cases pc with
  | loop k | insert b k | post b k =>
      cases k <;> simp only [Room] at h <;> omega
  | wait | exited => exact h

theorem Room.mono {cfg : Limits} {n m : Nat} {pc : ListenPc} (h : Room cfg n pc) (hm : m ≤ n) :
    Room cfg m pc := by
  cases pc with
  | loop k | insert b k | post b k =>
      cases k <;> simp only [Room] at h ⊢ <;> omega
  | wait | exited => exact Nat.le_trans hm h

/-- What holds in every state, with the two lists written out. -/
structure AcceptInv (cfg : Limits) (s : Accepts) (free pend : List Nat) : Prop where
  pool : Pool s.toBuffers free pend (s.allocated ++ s.handling ++ s.held)
  /-- the list is what is in flight and what has failed -/
  listed : ∀ b, pend.count b = s.issuing.count b + s.posted.count b + s.failed.count b
  cleared : ∀ b ∈ s.allocated, s.pNext b = none
  room : Room cfg pend.length s.listener

section
variable {cfg : Limits} {s t : Accepts} {free pend : List Nat}

/-! ## What a step of the listener keeps -/

theorem AcceptInv.listenAllocate (h : AcceptInv cfg s free pend) {k₀ k : AcceptLoop}
    (hpc : s.listener = .loop k₀) (hroom : ∀ b, Room cfg pend.length (.insert b k))
    {a : Option Nat} (hs : s.listenAllocate a k = some t) :
    ∃ free', AcceptInv cfg t free' pend := by
  obtain ⟨⟨u, p⟩, hu, rfl⟩ := Option.map_eq_some_iff.mp hs
  have hnone : s.allocated = [] := by simp [Accepts.allocated, hpc]
  have hpool := h.pool
  rw [hnone, List.nil_append] at hpool
  have hlisted := h.listed
  have hiss : s.issuing = [] := by simp [Accepts.issuing, hpc]
  rw [hiss] at hlisted
  cases p with
  | some b =>
      obtain ⟨⟨free', hpool'⟩, hcleared, -, -⟩ := hpool.allocate hu
      refine ⟨free', hpool', hlisted, fun x hx => ?_, hroom b⟩
      obtain rfl := List.mem_singleton.mp hx
      exact hcleared
  | none =>
      obtain rfl := Pool.allocate_none hu
      have hmax := h.room.le
      refine ⟨free, ?_⟩
      cases k with
      | initial left => exact ⟨hpool, hlisted, fun _ hx => absurd hx List.not_mem_nil, hmax⟩
      | repost left => exact ⟨hpool, hlisted, fun _ hx => absurd hx List.not_mem_nil, hmax⟩

theorem AcceptInv.insert (h : AcceptInv cfg s free pend) {b : Nat} {k : AcceptLoop}
    (hpc : s.listener = .insert b k) :
    AcceptInv cfg (({ s with listener := .post b k } : Accepts).withBuffers
      (s.toBuffers.insertPendingAccept b)) free (b :: pend) := by
  have hone : s.allocated = [b] := by simp [Accepts.allocated, hpc]
  have hmem : b ∈ s.allocated ++ s.handling ++ s.held := by simp [hone]
  obtain ⟨hpool, -⟩ := h.pool.insert hmem (h.cleared b (by simp [hone]))
  have hiss : s.issuing = [] := by simp [Accepts.issuing, hpc]
  refine ⟨hpool.perm fun x => ?_, fun x => ?_, fun _ hx => absurd hx List.not_mem_nil, ?_⟩
  · rw [hone]
    show (s.handling ++ s.held).count x = ((b :: (s.handling ++ s.held)).erase b).count x
    rw [List.erase_cons_head]
  · have hx := h.listed x
    rw [hiss] at hx
    show (b :: pend).count x = [b].count x + s.posted.count x + s.failed.count x
    simp only [List.count_cons, List.count_nil] at hx ⊢
    omega
  · have hroom := h.room
    rw [hpc] at hroom
    show Room cfg (pend.length + 1) (.post b k)
    cases k <;> simp only [Room] at hroom ⊢ <;> omega

theorem AcceptInv.post (h : AcceptInv cfg s free pend) {b : Nat} {k : AcceptLoop}
    (hpc : s.listener = .post b k) (acceptEx : Bool) :
    AcceptInv cfg (if acceptEx then { s with posted := b :: s.posted, listener := .loop k }
      else { s with failed := b :: s.failed, listener := .loop k }) free pend := by
  have hnone : s.allocated = [] := by simp [Accepts.allocated, hpc]
  have hpool := h.pool
  rw [hnone, List.nil_append] at hpool
  have hlisted := h.listed
  have hiss : s.issuing = [b] := by simp [Accepts.issuing, hpc]
  rw [hiss] at hlisted
  have hroom : Room cfg pend.length (.loop k) := by
    have hroom := h.room
    rw [hpc] at hroom
    cases k <;> exact hroom
  cases acceptEx with
  | true =>
      refine ⟨hpool, fun x => ?_, fun _ hx => absurd hx List.not_mem_nil, hroom⟩
      have hx := hlisted x
      show pend.count x = [].count x + (b :: s.posted).count x + s.failed.count x
      simp only [List.count_cons, List.count_nil] at hx ⊢
      omega
  | false =>
      refine ⟨hpool, fun x => ?_, fun _ hx => absurd hx List.not_mem_nil, hroom⟩
      have hx := hlisted x
      show pend.count x = [].count x + s.posted.count x + (b :: s.failed).count x
      simp only [List.count_cons, List.count_nil] at hx ⊢
      omega

theorem AcceptInv.move (h : AcceptInv cfg s free pend) (pc : ListenPc) (n : Nat)
    (hall : s.allocated = []) (hiss : s.issuing = [])
    (hall' : ({ s with listener := pc, nRepostCount := n } : Accepts).allocated = [])
    (hiss' : ({ s with listener := pc, nRepostCount := n } : Accepts).issuing = [])
    (hroom : Room cfg pend.length pc) :
    AcceptInv cfg { s with listener := pc, nRepostCount := n } free pend := by
  refine ⟨?_, fun x => ?_, fun x hx => ?_, hroom⟩
  · have hpool := h.pool
    rw [hall] at hpool
    rw [hall']
    exact hpool
  · have hx := h.listed x
    rw [hiss] at hx
    rw [hiss']
    exact hx
  · rw [hall'] at hx
    cases hx

theorem AcceptInv.listen (h : AcceptInv cfg s free pend) {a : Option Nat} {acceptEx : Bool}
    {w : Wake} (hs : s.listen cfg a acceptEx w = some t) :
    ∃ free' pend', AcceptInv cfg t free' pend' := by
  have hmax := h.room.le
  cases hpc : s.listener with
  | loop k =>
      have hall : s.allocated = [] := by simp [Accepts.allocated, hpc]
      have hiss : s.issuing = [] := by simp [Accepts.issuing, hpc]
      have hwait := h.move .wait s.nRepostCount hall hiss rfl rfl hmax
      have hroom := h.room
      rw [hpc] at hroom
      cases k with
      | initial left =>
          cases left with
          | zero =>
              simp only [Accepts.listen, hpc, Option.some.injEq] at hs
              exact ⟨free, pend, hs ▸ hwait⟩
          | succ left =>
              simp only [Accepts.listen, hpc] at hs
              obtain ⟨free', h'⟩ := h.listenAllocate hpc (fun b => by
                simp only [Room] at hroom ⊢
                omega) hs
              exact ⟨free', pend, h'⟩
      | repost left =>
          cases left with
          | zero =>
              simp only [Accepts.listen, hpc, Option.some.injEq] at hs
              exact ⟨free, pend, hs ▸ hwait⟩
          | succ left =>
              simp only [Accepts.listen, hpc] at hs
              split at hs
              · rename_i hgate
                have hlt : pend.length < cfg.nMaxAccepts := by
                  have hcount := h.pool.pend_count
                  omega
                obtain ⟨free', h'⟩ := h.listenAllocate hpc (k := .repost left) (fun b => hlt) hs
                exact ⟨free', pend, h'⟩
              · simp only [Option.some.injEq] at hs
                exact ⟨free, pend, hs ▸ hwait⟩
  | insert b k =>
      simp only [Accepts.listen, hpc, Option.some.injEq] at hs
      exact ⟨free, b :: pend, hs ▸ h.insert hpc⟩
  | post b k =>
      simp only [Accepts.listen, hpc, Option.some.injEq] at hs
      exact ⟨free, pend, hs ▸ h.post hpc acceptEx⟩
  | wait =>
      have hall : s.allocated = [] := by simp [Accepts.allocated, hpc]
      have hiss : s.issuing = [] := by simp [Accepts.issuing, hpc]
      simp only [Accepts.listen, hpc, Option.some.injEq] at hs
      subst hs
      refine ⟨free, pend, ?_⟩
      cases w with
      | timeout => exact h
      | acceptEvent fdAccept => exact h.move _ s.nRepostCount hall hiss rfl rfl hmax
      | repostEvent => exact h.move _ 0 hall hiss rfl rfl hmax
      | shutDown => exact h.move _ s.nRepostCount hall hiss rfl rfl hmax
  | exited =>
      simp only [Accepts.listen, hpc] at hs
      cases hs

/-! ## What the other steps keep -/

/-- `RemovePendingAccept`, by the worker that took the completion. -/
theorem AcceptInv.complete (h : AcceptInv cfg s free pend) {b : Nat} (hb : b ∈ s.posted) :
    ∃ u, s.toBuffers.removePendingAccept b = some u ∧
      AcceptInv cfg { s with
        toBuffers := u, posted := s.posted.erase b, handling := b :: s.handling }
        free (pend.erase b) := by
  have hmem : b ∈ pend := by
    have hpos := List.count_pos_iff.mpr hb
    have hlisted := h.listed b
    exact List.count_pos_iff.mp (by omega)
  obtain ⟨u, hu, hpool, hframe⟩ := h.pool.remove hmem
  refine ⟨u, hu, hpool.perm fun x => ?_, fun x => ?_, fun x hx => ?_, ?_⟩
  · show (s.allocated ++ (b :: s.handling) ++ s.held).count x = _
    simp only [List.count_append, List.count_cons]
    omega
  · have hx := h.listed x
    rw [(List.perm_cons_erase hmem).count_eq x, (List.perm_cons_erase hb).count_eq x] at hx
    show (pend.erase b).count x = s.issuing.count x + (s.posted.erase b).count x + _
    simp only [List.count_cons] at hx ⊢
    omega
  · have hne : x ∉ pend := h.pool.not_pend (.inr (by
      have hx' : x ∈ s.allocated := hx
      simp [hx']))
    exact (hframe x hne).trans (h.cleared x hx)
  · exact h.room.mono (List.erase_sublist.length_le)

theorem AcceptInv.released (h : AcceptInv cfg s free pend) {b : Nat}
    (hb : b ∈ s.handling ++ s.held) (handling held : List Nat) (n : Nat)
    (hrest : ∀ x, (b :: (handling ++ held)).count x = (s.handling ++ s.held).count x) :
    ∃ free', AcceptInv cfg (({ s with
      handling := handling, held := held, signalling := n } : Accepts).withBuffers
        (s.toBuffers.releaseBuffer cfg.nMaxFreeBuffers b)) free' pend := by
  have hmem : b ∈ s.allocated ++ s.handling ++ s.held := by
    rw [List.append_assoc]
    exact List.mem_append_right _ hb
  obtain ⟨⟨free', hpool⟩, hframe⟩ := h.pool.release hmem cfg.nMaxFreeBuffers
  refine ⟨free', hpool.perm fun x => ?_, h.listed, fun x hx => ?_, h.room⟩
  · have hx := hrest x
    have herase := (List.perm_cons_erase hmem).count_eq x
    show (s.allocated ++ handling ++ held).count x = _
    simp only [List.count_append, List.count_cons] at hx herase ⊢
    omega
  · -- the listener's own buffer is another one
    have hne : x ≠ b := by
      rintro rfl
      have howned := h.pool.owned x
      have honce := h.pool.once x
      have hpos₁ := List.count_pos_iff.mpr (show x ∈ s.allocated from hx)
      have hpos₂ := List.count_pos_iff.mpr hb
      simp only [List.count_append] at howned hpos₂
      omega
    exact (hframe x hne).trans (h.cleared x hx)

theorem AcceptInv.allocateOther (h : AcceptInv cfg s free pend) {a : Option Nat} {u : Buffers}
    {p : Option Nat} (hu : s.toBuffers.allocateBuffer a = some (u, p)) :
    ∃ free', AcceptInv cfg { s with toBuffers := u, held := p.toList ++ s.held } free' pend := by
  cases p with
  | none =>
      obtain rfl := Pool.allocate_none hu
      exact ⟨free, h⟩
  | some b =>
      obtain ⟨⟨free', hpool⟩, -, hframe, hnew⟩ := h.pool.allocate hu
      refine ⟨free', hpool.perm fun x => ?_, h.listed, fun x hx => ?_, h.room⟩
      · show (s.allocated ++ s.handling ++ (b :: s.held)).count x = _
        simp only [List.count_append, List.count_cons]
        omega
      · have hx' : x ∈ s.allocated := hx
        have hne : x ≠ b := by
          rintro rfl
          exact hnew (by simp [hx'])
        exact (hframe x hne).trans (h.cleared x hx)

theorem AcceptInv.link (h : AcceptInv cfg s free pend) {b : Nat} (hb : b ∈ s.held)
    (v : Option Nat) :
    AcceptInv cfg (s.withBuffers { s.toBuffers with pNext := write s.pNext b v }) free pend := by
  have hmem : b ∈ s.allocated ++ s.handling ++ s.held := List.mem_append_right _ hb
  refine ⟨h.pool.link hmem v, h.listed, fun x hx => ?_, h.room⟩
  have hne : x ≠ b := by
    rintro rfl
    have howned := h.pool.owned x
    have honce := h.pool.once x
    have hpos₁ := List.count_pos_iff.mpr (show x ∈ s.allocated from hx)
    have hpos₂ := List.count_pos_iff.mpr hb
    simp only [List.count_append] at howned
    omega
  exact (write_of_ne hne).trans (h.cleared x hx)

/-! ## Runs -/

theorem AcceptInv.init (cfg : Limits) : AcceptInv cfg (.init cfg) [] [] where
  pool := .empty
  listed := fun _ => rfl
  cleared := fun _ hx => absurd hx List.not_mem_nil
  room := Nat.le_of_eq (Nat.zero_add _)

/-- What a step of the others leaves of the list. -/
def AcceptAction.rest (act : AcceptAction) (pend : List Nat) : List Nat :=
  match act with
  | .complete b => pend.erase b
  | _ => pend

theorem AcceptInv.work (h : AcceptInv cfg s free pend) {act : AcceptAction}
    (hact : ∀ a acceptEx w, act ≠ .listen a acceptEx w) (hs : s.step cfg act = some t) :
    ∃ free', AcceptInv cfg t free' (act.rest pend) := by
  cases act with
  | listen a acceptEx w => exact absurd rfl (hact a acceptEx w)
  | complete b =>
      simp only [Accepts.step] at hs
      split at hs
      · rename_i hb
        obtain ⟨u, hu, h'⟩ := h.complete hb
        rw [hu] at hs
        exact ⟨free, Option.some.inj hs ▸ h'⟩
      · cases hs
  | release b error =>
      simp only [Accepts.step] at hs
      split at hs
      · rename_i hb
        obtain ⟨free', h'⟩ := h.released (List.mem_append_left _ hb) (s.handling.erase b)
          s.held (if error then s.signalling else s.signalling + 1) (fun x => by
            rw [← List.cons_append, List.count_append, List.count_append,
              ← (List.perm_cons_erase hb).count_eq x])
        exact ⟨free', Option.some.inj hs ▸ h'⟩
      · cases hs
  | signal =>
      simp only [Accepts.step] at hs
      split at hs
      · exact ⟨free, Option.some.inj hs ▸ ⟨h.pool, h.listed, h.cleared, h.room⟩⟩
      · cases hs
  | allocate a =>
      obtain ⟨⟨u, p⟩, hu, rfl⟩ := Option.map_eq_some_iff.mp hs
      exact h.allocateOther hu
  | link b v =>
      simp only [Accepts.step] at hs
      split at hs
      · rename_i hb
        exact ⟨free, Option.some.inj hs ▸ h.link hb v⟩
      · cases hs
  | free b =>
      simp only [Accepts.step] at hs
      split at hs
      · rename_i hb
        obtain ⟨free', h'⟩ := h.released (List.mem_append_right _ hb) s.handling
          (s.held.erase b) s.signalling (fun x => by
            have hx := (List.perm_cons_erase hb).count_eq x
            simp only [List.count_append, List.count_cons] at hx ⊢
            omega)
        exact ⟨free', Option.some.inj hs ▸ h'⟩
      · cases hs

theorem AcceptInv.step (h : AcceptInv cfg s free pend) {act : AcceptAction}
    (hs : s.step cfg act = some t) : ∃ free' pend', AcceptInv cfg t free' pend' := by
  by_cases hact : ∃ a acceptEx w, act = .listen a acceptEx w
  · obtain ⟨a, acceptEx, w, rfl⟩ := hact
    exact h.listen hs
  · obtain ⟨free', h'⟩ := h.work (fun a acceptEx w he => hact ⟨a, acceptEx, w, he⟩) hs
    exact ⟨free', _, h'⟩

theorem AcceptInv.of_via (hrun : Via (Accepts.step cfg) (fun _ _ => True) (.init cfg) s) :
    ∃ free pend, AcceptInv cfg s free pend := by
  refine hrun.invariant (P := fun s => ∃ free pend, AcceptInv cfg s free pend)
    ⟨[], [], .init cfg⟩ ?_
  rintro t act u ⟨free, pend, h⟩ - hs
  exact h.step hs

/-! ## When the list is what is in flight -/

/-- The step is not an `AcceptEx` that fails. -/
def AcceptExSucceeds (s : Accepts) : AcceptAction → Prop
  | .listen _ acceptEx _ => s.issuing ≠ [] → acceptEx = true
  | _ => True

instance (s : Accepts) : (act : AcceptAction) → Decidable (AcceptExSucceeds s act)
  | .listen _ acceptEx _ => inferInstanceAs (Decidable (s.issuing ≠ [] → acceptEx = true))
  | .complete _ | .release .. | .signal | .allocate _ | .link .. | .free _ =>
      inferInstanceAs (Decidable True)

theorem listenAllocate_failed {a : Option Nat} {k : AcceptLoop}
    (hs : s.listenAllocate a k = some t) : t.failed = s.failed := by
  obtain ⟨⟨u, p⟩, -, rfl⟩ := Option.map_eq_some_iff.mp hs
  rfl

/-- A failed `AcceptEx` adds its buffer to `failed`, and nothing else changes it. -/
theorem step_failed {act : AcceptAction} (hs : s.step cfg act = some t) :
    (AcceptExSucceeds s act ∧ t.failed = s.failed) ∨
      (¬ AcceptExSucceeds s act ∧ ∃ b, t.failed = b :: s.failed) := by
  cases act with
  | listen a acceptEx w =>
      simp only [Accepts.step] at hs
      cases hpc : s.listener with
      | post b k =>
          have hiss : s.issuing = [b] := by simp [Accepts.issuing, hpc]
          simp only [Accepts.listen, hpc, Option.some.injEq] at hs
          subst hs
          cases acceptEx with
          | true => exact .inl ⟨fun _ => rfl, rfl⟩
          | false =>
              refine .inr ⟨fun hok => ?_, b, rfl⟩
              have hfalse := hok (by simp [hiss])
              cases hfalse
      | loop k =>
          have hiss : s.issuing = [] := by simp [Accepts.issuing, hpc]
          refine .inl ⟨fun hne => absurd hiss hne, ?_⟩
          cases k with
          | initial left =>
              cases left with
              | zero =>
                  simp only [Accepts.listen, hpc, Option.some.injEq] at hs
                  exact hs ▸ rfl
              | succ left =>
                  simp only [Accepts.listen, hpc] at hs
                  exact listenAllocate_failed hs
          | repost left =>
              cases left with
              | zero =>
                  simp only [Accepts.listen, hpc, Option.some.injEq] at hs
                  exact hs ▸ rfl
              | succ left =>
                  simp only [Accepts.listen, hpc] at hs
                  split at hs
                  · exact listenAllocate_failed hs
                  · exact Option.some.inj hs ▸ rfl
      | insert b k =>
          have hiss : s.issuing = [] := by simp [Accepts.issuing, hpc]
          simp only [Accepts.listen, hpc, Option.some.injEq] at hs
          exact .inl ⟨fun hne => absurd hiss hne, hs ▸ rfl⟩
      | wait =>
          have hiss : s.issuing = [] := by simp [Accepts.issuing, hpc]
          simp only [Accepts.listen, hpc, Option.some.injEq] at hs
          subst hs
          refine .inl ⟨fun hne => absurd hiss hne, ?_⟩
          cases w <;> rfl
      | exited =>
          simp only [Accepts.listen, hpc] at hs
          cases hs
  | complete b =>
      simp only [Accepts.step] at hs
      split at hs
      · obtain ⟨u, -, rfl⟩ := Option.map_eq_some_iff.mp hs
        exact .inl ⟨trivial, rfl⟩
      · cases hs
  | allocate a =>
      obtain ⟨⟨u, p⟩, -, rfl⟩ := Option.map_eq_some_iff.mp hs
      exact .inl ⟨trivial, rfl⟩
  | release b error | signal | link b v | free b =>
      simp only [Accepts.step] at hs
      split at hs
      · exact .inl ⟨trivial, Option.some.inj hs ▸ rfl⟩
      · cases hs

theorem listen_posts {a : Option Nat} {acceptEx : Bool} {w : Wake}
    (hs : s.listen cfg a acceptEx w = some t) (hpost : ∀ b k, s.listener ≠ .post b k) :
    t.posted = s.posted ∧ t.failed = s.failed ∧ t.handling = s.handling := by
  have hallocate : ∀ k, s.listenAllocate a k = some t →
      t.posted = s.posted ∧ t.failed = s.failed ∧ t.handling = s.handling := by
    intro k hk
    obtain ⟨⟨u, p⟩, -, rfl⟩ := Option.map_eq_some_iff.mp hk
    exact ⟨rfl, rfl, rfl⟩
  cases hpc : s.listener with
  | post b k => exact absurd hpc (hpost b k)
  | loop k =>
      cases k with
      | initial left =>
          cases left with
          | zero =>
              simp only [Accepts.listen, hpc, Option.some.injEq] at hs
              exact hs ▸ ⟨rfl, rfl, rfl⟩
          | succ left =>
              simp only [Accepts.listen, hpc] at hs
              exact hallocate _ hs
      | repost left =>
          cases left with
          | zero =>
              simp only [Accepts.listen, hpc, Option.some.injEq] at hs
              exact hs ▸ ⟨rfl, rfl, rfl⟩
          | succ left =>
              simp only [Accepts.listen, hpc] at hs
              split at hs
              · exact hallocate _ hs
              · exact Option.some.inj hs ▸ ⟨rfl, rfl, rfl⟩
  | insert b k =>
      simp only [Accepts.listen, hpc, Option.some.injEq] at hs
      exact hs ▸ ⟨rfl, rfl, rfl⟩
  | wait =>
      simp only [Accepts.listen, hpc, Option.some.injEq] at hs
      subst hs
      cases w <;> exact ⟨rfl, rfl, rfl⟩
  | exited =>
      simp only [Accepts.listen, hpc] at hs
      cases hs

theorem failed_eq_nil_iff (hrun : Via (Accepts.step cfg) (fun _ _ => True) (.init cfg) s) :
    s.failed = [] ↔ Via (Accepts.step cfg) AcceptExSucceeds (.init cfg) s := by
  constructor
  · intro hnil
    induction hrun with
    | refl => exact .refl
    | @tail t u act _ _ hs ih =>
        rcases step_failed hs with ⟨hok, hf⟩ | ⟨-, b, hf⟩
        · exact (ih (hf ▸ hnil)).tail act hok hs
        · rw [hnil] at hf
          cases hf
  · intro hok
    refine hok.invariant (P := fun s => s.failed = []) rfl ?_
    intro t act u ht hact hs
    rcases step_failed hs with ⟨-, hf⟩ | ⟨hbad, -⟩
    · exact hf.trans ht
    · exact absurd hact hbad

end

/-- **The pending accepts.**  In every reachable state the list has no
duplicates, the counter is its length and within the bound, and the list is made
of the accepts in flight and of those whose `AcceptEx` has failed.  It is what is
in flight exactly if, on the run so far, every `AcceptEx` has succeeded. -/
theorem pending_accepts_iff {cfg : Limits} {s : Accepts}
    (hrun : Via (Accepts.step cfg) (fun _ _ => True) (.init cfg) s) :
    ∃ l, Chain s.pNext s.pPendingAccepts l ∧ l.Nodup ∧ s.nPendingAcceptCount = l.length ∧
      l.length ≤ max cfg.nInitialAccepts cfg.nMaxAccepts ∧ l.Perm (s.inFlight ++ s.failed) ∧
      (l.Perm s.inFlight ↔ Via (Accepts.step cfg) AcceptExSucceeds (.init cfg) s) := by
  obtain ⟨free, l, h⟩ := AcceptInv.of_via hrun
  have hall : l.Perm (s.inFlight ++ s.failed) := by
    refine List.perm_iff_count.mpr fun b => ?_
    rw [List.count_append, Accepts.inFlight, List.count_append]
    exact h.listed b
  refine ⟨l, h.pool.pend_chain, h.pool.pend_nodup, h.pool.pend_count, h.room.le, hall, ?_⟩
  rw [← failed_eq_nil_iff hrun]
  constructor
  · intro hflight
    have hlen := hall.length_eq
    rw [hflight.length_eq, List.length_append] at hlen
    exact List.length_eq_zero_iff.mp (by omega)
  · intro hnil
    rw [hnil, List.append_nil] at hall
    exact hall

/-! ## A failed `AcceptEx` -/

/-- The very first `AcceptEx` fails. -/
def firstFails : List AcceptAction :=
  [.listen (some 1) true .timeout, .listen none true .timeout, .listen none false .timeout]

/-- Its buffer stays in the list, and nothing is in flight. -/
theorem stays_pending :
    ∃ s, Via (Accepts.step defaultLimits) (fun _ _ => True) (.init defaultLimits) s ∧
      s.nPendingAcceptCount = 1 ∧
      ¬ ∃ l, Chain s.pNext s.pPendingAccepts l ∧ l.Perm s.inFlight := by
  have h : ∃ s, Via (Accepts.step defaultLimits) (fun _ _ => True) (.init defaultLimits) s ∧
      s.nPendingAcceptCount = 1 ∧ s.pPendingAccepts = some 1 ∧ s.inFlight = [] :=
    exists_via_of_execIf firstFails (by decide +kernel)
  obtain ⟨s, hrun, hcount, hhead, hnone⟩ := h
  refine ⟨s, hrun, hcount, ?_⟩
  rintro ⟨l, hchain, hperm⟩
  rw [hnone] at hperm
  obtain rfl := hperm.eq_nil
  rw [hhead] at hchain
  cases hchain

/-- Two initial accepts; the one that was posted first completes, is released to
the pool, and its buffer is posted again. -/
def acceptAndRepost : List AcceptAction :=
  [.listen (some 1) true .timeout, .listen none true .timeout, .listen none true .timeout,
   .listen (some 2) true .timeout, .listen none true .timeout, .listen none true .timeout,
   .listen none true .timeout, .complete 1, .release 1 false, .signal,
   .listen none true .repostEvent, .listen none true .timeout, .listen none true .timeout,
   .listen none true .timeout]

theorem pending_accepts_iff_repost :
    ∃ (s : Accepts) (l : List Nat),
      Chain s.pNext s.pPendingAccepts l ∧ l.Perm [1, 2] ∧ l.Perm s.inFlight := by
  have h : ∃ s, Via (Accepts.step ⟨2, 2, 200⟩) AcceptExSucceeds (.init ⟨2, 2, 200⟩) s ∧
      s.inFlight = [1, 2] := exists_via_of_execIf acceptAndRepost (by decide +kernel)
  obtain ⟨s, hrun, hflight⟩ := h
  obtain ⟨l, hchain, -, -, -, -, hiff⟩ :=
    pending_accepts_iff (hrun.mono fun _ _ _ => trivial)
  have hperm := hiff.mpr hrun
  exact ⟨s, l, hchain, hflight ▸ hperm, hperm⟩

end CppWorkspace.CIOCPServer
