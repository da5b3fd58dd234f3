/-
# `CppWorkspace.ThrottledServer.Reclaim` — what becomes of what has failed

A receive or a send that completes with an error is made good: its buffer is freed, its
socket closed and its object freed.  A call that fails is not: `ProcessPendingOperations`
frees the buffer of a refused send and leaves the connection as it is, `HandleIo` does not
look at the result of `PostRecv`, and returns at once if `setsockopt` or
`CreateIoCompletionPort` fails.  Then a connection stays open with nothing outstanding, or
a buffer is nowhere (`not_reclaimed_recvRefused`).

`Reclaimed` holds between any two calls of `HandleIo`, one after the other, if none of
these calls fails and no accept completes with an error (`failures_reclaimed`).
-/
import CppWorkspace.Lib.Turns
import CppWorkspace.ThrottledServer.Kept
import CppWorkspace.ThrottledServer.Throttle

namespace CppWorkspace.ThrottledServer

open Programs Runs LinkedList System

/-! ## What is to hold -/

/-- A buffer is in one place, and a socket object is in use or free. -/
structure Places (σ : Server) (free queue freeSockets : List Nat) : Prop where
  freeList : Chain σ.next σ.gFreeBufferList free
  pendingSends : Chain σ.next σ.gPendingSendList queue
  freeSocketList : Chain σ.snext σ.gFreeSocketList freeSockets
  /-- In `gFreeBufferList`, queued, in flight, or left in `PendingAccepts`; and once. -/
  buffer : ∀ b < σ.buffers, free.count b + queue.count b +
    (σ.flight.countP fun op => op.buf = b) + (σ.abandoned.countP fun a => a.2 = b) = 1
  pending : ∀ l, ∃ pending, Chain σ.next (σ.listen l).PendingAccepts pending ∧
    pending.Perm ((σ.flight.filter fun op => op.key.list = some l).map Op.buf ++
      (σ.abandoned.filter fun a => a.1 = l).map Prod.snd)
  /-- A connection that was not freed has an operation in flight or a queued send. -/
  connection : ∀ p, σ.live p → (∃ op ∈ σ.flight, op.key = .sock p) ∨
    ∃ b ∈ queue, (σ.buffer b).sock = some p
  /-- The other objects are free, and once. -/
  object : ∀ k < σ.sockets, freeSockets.count k = if (σ.socket k).conn = none then 1 else 0
  /-- What is open is the socket of an accept, or of a connection that was not freed. -/
  isOpen : ∀ h, σ.isOpen h = true → (∃ op ∈ σ.flight, (∃ l, op.key = .listen l) ∧ op.s = h) ∨
    (∃ a ∈ σ.abandoned, (σ.buffer a.2).sclient = some h) ∨
    ∃ p, σ.live p ∧ (σ.socket p.obj).s = some h

def Reclaimed (σ : Server) : Prop := ∃ free queue freeSockets, Places σ free queue freeSockets

/-- The calls whose failure is not made good. -/
def Cmd.strands : Cmd → Bool
  | .setsockopt _ | .CreateIoCompletionPort _ | .WSARecv _ _ | .WSASend _ _ => true
  | _ => false

/-- One event after the other; no accept completes with an error, and none of these calls
fails. -/
def Reclaiming (m : Machine) : Action → Prop
  | .begin _ (.completion op error _ _) =>
      m.Quiescent ∧ (error = true → op.operation ≠ .OP_ACCEPT)
  | .begin _ _ => m.Quiescent
  | .run t x => ∀ c ∈ m.next t, c.strands = true → x = .ok
  | .finish _ => True

instance (m : Machine) : (a : Action) → Decidable (Reclaiming m a)
  | .begin _ (.completion op error _ _) =>
      inferInstanceAs (Decidable (m.Quiescent ∧ (error = true → op.operation ≠ .OP_ACCEPT)))
  | .begin _ (.initialAccepts _) => inferInstanceAs (Decidable m.Quiescent)
  | .begin _ (.FD_ACCEPT _) => inferInstanceAs (Decidable m.Quiescent)
  | .begin _ (.RepostAccept _) => inferInstanceAs (Decidable m.Quiescent)
  | .run t x => inferInstanceAs (Decidable (∀ c ∈ m.next t, c.strands = true → x = .ok))
  | .finish _ => .isTrue trivial

variable {cfg : Config} {threads : Nat} {m : Machine} {σ σ' : Server} {L : Head → List Nat}
  {B : Multiset Hold} {C : Multiset SockPtr} {G : Multiset Nat} {x : Hold} {p q : SockPtr}
  {t b l n h rounds : Nat} {e : Event} {β γ : Type}

theorem reclaimed_of_kept (H : Kept σ L 0 0 0) (hfailed : σ.failedAccepts = fun _ => 0) :
    Reclaimed σ := by
  have hbuffers := H.stocked.buffers
  obtain ⟨l, hchain, hnodup, hl⟩ := H.tended.free
  refine ⟨L .gFreeBufferList, L .gPendingSendList, l, hbuffers.lists.chain .gFreeBufferList id,
    hbuffers.lists.chain .gPendingSendList id, hchain, fun b hb => ?_, fun l => ?_, fun p hp => ?_,
    fun k hk => ?_, fun h hh => ?_⟩
  · have hmem : b ∈ places σ L 0 := by
      have hsub : places σ L 0 ⊆ Multiset.range σ.buffers := fun c hc =>
        Multiset.mem_range.mpr (hbuffers.exist c hc)
      have hle := (Multiset.le_iff_subset hbuffers.nodup).mpr hsub
      have heq : places σ L 0 = Multiset.range σ.buffers := by
        refine Multiset.eq_of_le_of_card_le hle ?_
        rw [H.stocked.covered, Multiset.card_range]
      rw [heq]
      exact Multiset.mem_range.mpr hb
    have hone := Multiset.count_eq_one_of_mem hbuffers.nodup hmem
    simp only [places, Multiset.map_zero, add_zero, Multiset.count_add, Multiset.coe_count,
      List.count_eq_countP, List.countP_map] at hone
    exact hone
  · have hloose : ¬ σ.loose (.PendingAccepts l) := by
      simp [Server.loose, hfailed]
    refine ⟨L (.PendingAccepts l), hbuffers.lists.chain (.PendingAccepts l) hloose, ?_⟩
    have hpending := hbuffers.pending l
    rw [linkedTo, Multiset.filter_zero, Multiset.map_zero, add_zero, accepting, leftBehind,
      Multiset.coe_add, Multiset.coe_eq_coe] at hpending
    exact hpending
  · have hmem := (H.tended.live p).mp hp
    rw [add_zero, peers, Multiset.mem_add] at hmem
    rcases hmem with hmem | hmem
    · obtain ⟨op, hop, hpeer⟩ := List.mem_filterMap.mp hmem
      refine .inl ⟨op, hop, ?_⟩
      unfold Op.peer at hpeer
      split at hpeer
      · cases hpeer
        assumption
      · cases hpeer
    · obtain ⟨b, hb, hsock⟩ := List.mem_filterMap.mp hmem
      exact .inr ⟨b, hb, hsock⟩
  · have hk' := hl k
    split
    · rename_i hconn
      exact List.count_eq_one_of_mem hnodup (hk'.mpr ⟨hk, hconn⟩)
    · rename_i hconn
      exact List.count_eq_zero.mpr fun hmem => hconn (hk'.mp hmem).2
  · rcases H.guarded.owned h hh with hmem | hp
    · rw [add_zero, clients, Multiset.mem_add] at hmem
      rcases hmem with hmem | hmem
      · obtain ⟨op, hop, hclient⟩ := List.mem_filterMap.mp hmem
        unfold Op.client at hclient
        split at hclient
        · rename_i l hkey
          cases hclient
          exact .inl ⟨op, hop, ⟨l, hkey⟩, rfl⟩
        · cases hclient
      · obtain ⟨a, ha, hclient⟩ := List.mem_filterMap.mp hmem
        exact .inr (.inl ⟨a, ha, hclient⟩)
    · exact .inr (.inr hp)

/-! ## The functions -/

/-- If the program comes to its end, and none of the calls fails, `post` holds there. -/
abbrev Goes (cfg : Config) (t : Nat) (e : Event) (p : Program β) (σ : Server)
    (post : β → Server → Prop) : Prop :=
  Leads (system cfg) (fun c x => c.strands = true → x = .ok) t e post p σ

/-- The commands whose outcome the system chooses. -/
def Cmd.chosen : Cmd → Bool
  | .GetBufferObj | .GetSocketObj _ | .socket _ _ | .AcceptEx _ _ => true
  | c => c.strands

theorem ok_of_exec {c : Cmd} {x : Choice} {r : Server × c.Reply} (hc : c.chosen = false)
    (h : exec cfg t e c σ x = some r) : x = .ok := by
  cases x with
  | ok => rfl
  | fail => cases c <;> first | (cases hc; done) | cases h
  | handle k => cases c <;> first | (cases hc; done) | cases h

theorem goes_plain {c : Cmd} {f : c.Reply → Program γ} {post : γ → Server → Prop} {v : c.Reply}
    (hc : c.chosen = false) (hexec : exec cfg t e c σ .ok = some (σ', v))
    (hf : Goes cfg t e (f v) σ' post) : Goes cfg t e (perform c >>= f) σ post := by
  refine leads_call fun x σ₁ w _ h => ?_
  obtain rfl := ok_of_exec (e := e) hc h
  have heq := h.symm.trans hexec
  cases heq
  exact hf

theorem goes_end {c : Cmd} {post : c.Reply → Server → Prop} {v : c.Reply}
    (hc : c.chosen = false) (hexec : exec cfg t e c σ .ok = some (σ', v)) (hpost : post v σ') :
    Goes cfg t e (perform c) σ post :=
  goes_plain hc hexec (leads_ret hpost)

theorem goes_never {post : Unit → Server → Prop} : Goes cfg t e (perform .never) σ post := by
  refine leads_call fun y σ' v _ hexec => ?_
  cases y <;> cases hexec

theorem goes_noneOutstanding : Goes cfg t e (noneOutstanding p) σ fun v σ' =>
    σ' = σ ∧ (v = true ↔ Idle σ p) := by
  refine goes_plain rfl rfl ?_
  split
  · rename_i hsend
    refine goes_plain rfl rfl (leads_ret ⟨rfl, ?_⟩)
    rw [decide_eq_true_iff]
    exact ⟨fun hrecv => ⟨hsend, hrecv⟩, fun hidle => hidle.2⟩
  · rename_i hsend
    exact leads_ret ⟨rfl, ⟨nofun, fun hidle => absurd hidle.1 hsend⟩⟩

/-! Posting. -/

theorem goes_enter {f : Unit → Program γ} {post : γ → Server → Prop} (H : Kept σ L B C G)
    (hf : ∀ σ', Kept σ' L B C G → Calm σ σ' → (∀ q, Idle σ q → Idle σ' q) →
      Goes cfg t e (f ()) σ' post) :
    Goes cfg t e (perform (.EnterCriticalSection p) >>= f) σ post := by
  refine leads_call fun x σ₁ w _ h => ?_
  obtain ⟨-, rfl⟩ := enter_spec (e := e) h
  exact hf _ (H.setSocket rfl rfl rfl) (.setSocket rfl rfl rfl) fun _ hq => hq.setSocket rfl rfl

theorem goes_leave {f : Unit → Program γ} {post : γ → Server → Prop} (H : Kept σ L B C G)
    (hf : ∀ σ', Kept σ' L B C G → Calm σ σ' → (∀ q, Idle σ q → Idle σ' q) →
      Goes cfg t e (f ()) σ' post) :
    Goes cfg t e (perform (.LeaveCriticalSection p) >>= f) σ post :=
  goes_plain rfl rfl (hf _ (H.setSocket rfl rfl rfl) (.setSocket rfl rfl rfl)
    fun _ hq => hq.setSocket rfl rfl)

theorem goes_set {c : Cmd} {v : Var} {n : Int} {w : c.Reply} {f : c.Reply → Program γ}
    {post : γ → Server → Prop} (H : Kept σ L B C G) (hc : c.chosen = false)
    (hexec : exec cfg t e c σ .ok = some (σ.set n v, w))
    (hf : ∀ σ', Kept σ' L B C G → Calm σ σ' → Goes cfg t e (f w) σ' post) :
    Goes cfg t e (perform c >>= f) σ post :=
  goes_plain hc hexec (hf _ H.set .set)

theorem goes_write {c : Cmd} {obj : BufferObj} {w : c.Reply} {f : c.Reply → Program γ}
    {post : γ → Server → Prop} (H : Kept σ L (x ::ₘ B) C G) (hc : c.chosen = false)
    (hexec : exec cfg t e c σ .ok = some (σ.setBuffer x.buf obj, w))
    (hf : ∀ σ', Kept σ' L (⟨x.buf, obj, x.role⟩ ::ₘ B) C G → Calm σ σ' →
      Goes cfg t e (f w) σ' post) : Goes cfg t e (perform c >>= f) σ post :=
  goes_plain hc hexec (hf _ H.write (.of_eq rfl rfl rfl rfl rfl rfl))

theorem Kept.wsaPost {o : Operation} {len : Nat} (H : Kept σ L (x ::ₘ B) (p ::ₘ C) G)
    (hx : x.role.list = none) (hjoined : Joined σ p) (ho : o ≠ .OP_ACCEPT) :
    Kept ((σ.setBuffer x.buf { σ.buffer x.buf with operation := o }).post o (.sock p) h x.buf len)
      L B C G := by
  have hwritten := H.write (o := { σ.buffer x.buf with operation := o })
  refine hwritten.post hx ?_ rfl rfl rfl ho
  exact ⟨hjoined.notClosing, hjoined.attached⟩

theorem goes_wsaSend (H : Kept σ L (x ::ₘ B) (p ::ₘ C) G) (hx : x.role.list = none)
    (hjoined : Joined σ p) : Goes cfg t e (perform (.WSASend p x.buf)) σ fun v σ' =>
      v = true ∧ Kept σ' L B C G ∧ Calm σ σ' := by
  obtain ⟨-, h, hs, -, hport⟩ := id hjoined
  refine leads_call fun y σ' v hok hexec => ?_
  obtain rfl := hok rfl
  have hsend : σ.WSASend p x.buf .ok = some ({
      (σ.setBuffer x.buf { σ.buffer x.buf with operation := .OP_WRITE }).post .OP_WRITE
        (.sock p) h x.buf (σ.buffer x.buf).buflen with
      posted := Function.update σ.posted h (σ.posted h ++ [(σ.buffer x.buf).chunk]) }, true) := by
    simp only [Server.WSASend, hs, hport, Option.map_some]
  have heq := hexec.symm.trans hsend
  cases heq
  refine leads_ret ⟨rfl, ?_, .of_eq rfl rfl rfl rfl rfl rfl⟩
  exact (H.wsaPost (o := .OP_WRITE) hx hjoined (by decide)).same (.of_eq rfl rfl rfl rfl rfl rfl)
    rfl rfl rfl rfl rfl rfl rfl rfl

theorem goes_wsaRecv (H : Kept σ L (x ::ₘ B) (p ::ₘ C) G) (hx : x.role.list = none)
    (hjoined : Joined σ p) : Goes cfg t e (perform (.WSARecv p x.buf)) σ fun v σ' =>
      v = true ∧ Kept σ' L B C G ∧ Calm σ σ' := by
  obtain ⟨-, h, hs, -, hport⟩ := id hjoined
  refine leads_call fun y σ' v hok hexec => ?_
  obtain rfl := hok rfl
  have hrecv : σ.WSARecv p x.buf .ok = some (
      (σ.setBuffer x.buf { σ.buffer x.buf with operation := .OP_READ }).post .OP_READ
        (.sock p) h x.buf (σ.buffer x.buf).buflen, true) := by
    simp only [Server.WSARecv, hs, hport, Option.map_some]
  have heq := hexec.symm.trans hrecv
  cases heq
  exact leads_ret ⟨rfl, H.wsaPost hx hjoined (by decide), .of_eq rfl rfl rfl rfl rfl rfl⟩

theorem goes_postSend (H : Kept σ L (x ::ₘ B) (p ::ₘ C) G) (hx : x.role.list = none)
    (hjoined : Joined σ p) : Goes cfg t e (PostSend p x.buf) σ fun v σ' =>
      v = true ∧ Kept σ' L B C G ∧ Calm σ σ' := by
  refine goes_enter H fun σ₁ H₁ hcalm₁ _ => ?_
  refine leads_after (goes_wsaSend H₁ hx (hcalm₁.joined hjoined)) ?_
  rintro v σ₂ ⟨rfl, H₂, hcalm₂⟩
  refine goes_set H₂ rfl rfl fun σ₃ H₃ hcalm₃ => goes_set H₃ rfl rfl fun σ₄ H₄ hcalm₄ => ?_
  refine goes_leave H₄ fun σ₅ H₅ hcalm₅ _ => leads_ret ⟨rfl, H₅, ?_⟩
  exact hcalm₁.trans (hcalm₂.trans (hcalm₃.trans (hcalm₄.trans hcalm₅)))

theorem goes_postRecv (H : Kept σ L (x ::ₘ B) (p ::ₘ C) G) (hb : x.buf = b)
    (hx : x.role.list = none) (hjoined : Joined σ p) :
    Goes cfg t e (PostRecv p b) σ fun _ σ' => Kept σ' L B C G ∧ Calm σ σ' := by
  subst hb
  refine goes_enter H fun σ₁ H₁ hcalm₁ _ => ?_
  refine leads_after (goes_wsaRecv H₁ hx (hcalm₁.joined hjoined)) ?_
  rintro v σ₂ ⟨rfl, H₂, hcalm₂⟩
  refine goes_set H₂ rfl rfl fun σ₃ H₃ hcalm₃ => ?_
  refine goes_leave H₃ fun σ₄ H₄ hcalm₄ _ => leads_ret ⟨H₄, ?_⟩
  exact hcalm₁.trans (hcalm₂.trans (hcalm₃.trans hcalm₄))

/-- What the thread holds where a function ends. -/
def Holding (B : Multiset Hold) (C : Multiset SockPtr) (G : Multiset Nat) (σ : Server) : Prop :=
  ∃ L, Kept σ L B C G

theorem goes_processPendingOperations (H : Kept σ L B C G) :
    Goes cfg t e (ProcessPendingOperations cfg rounds) σ fun _ σ' =>
      Holding B C G σ' ∧ Calm σ σ' := by
  induction rounds generalizing σ L with
  | zero => exact goes_never
  | succ rounds ih =>
      refine goes_plain rfl rfl ?_
      split
      · refine leads_call fun y σ₁ v _ hexec => ?_
        obtain rfl := ok_of_exec (e := e) rfl hexec
        cases v with
        | none =>
            obtain rfl := dequeue_none hexec
            exact leads_ret ⟨⟨L, H⟩, .of_eq rfl rfl rfl rfl rfl rfl⟩
        | some b =>
            obtain ⟨L₁, p, hsock, hjoined, H₁, hcalm₁⟩ := H.dequeue hexec
            have hread : exec cfg t e (.sock b) σ₁ .ok = some (σ₁, p) := by
              rw [exec, hsock]
              rfl
            refine goes_plain rfl hread ?_
            refine leads_after (goes_postSend H₁ rfl hjoined) ?_
            rintro v σ₂ ⟨rfl, H₂, hcalm₂⟩
            refine (ih H₂).mono ?_
            rintro _ σ₃ ⟨hkept, hcalm₃⟩
            exact ⟨hkept, hcalm₁.trans (hcalm₂.trans hcalm₃)⟩
      · exact leads_ret ⟨⟨L, H⟩, .of_eq rfl rfl rfl rfl rfl rfl⟩

/-! Closing. -/

theorem goes_close {f : Unit → Program γ} {post : γ → Server → Prop}
    (H : Kept σ L B (p ::ₘ C) G) (hp : Attached σ p)
    (hf : ∀ σ', Kept σ' L B (p ::ₘ C) G → (σ'.socket p.obj).s = none →
      Goes cfg t e (f ()) σ' post) :
    Goes cfg t e (perform (.closesocket p) >>= fun _ => perform (.setInvalid p) >>= f) σ post := by
  refine goes_plain rfl rfl (goes_plain rfl rfl ?_)
  obtain ⟨hclose, hclosed⟩ := H.closesocket hp (f := { σ.socket p.obj with shut := true }) rfl rfl
  refine hf _ (hclose.object rfl fun h hs hopen => ?_) (congrArg _ Server.setSocket_self)
  rw [hclosed h hs] at hopen
  cases hopen

theorem goes_freeSocketObj (H : Kept σ L B (p ::ₘ C) G)
    (hp : (σ.socket p.obj).s = none ∨ Attached σ p) :
    Goes cfg t e (FreeSocketObj p) σ fun _ => Holding B C G := by
  refine goes_plain rfl rfl ?_
  split
  · rename_i hs
    exact goes_end rfl rfl ⟨L, H.freeSocketObj hs⟩
  · rename_i hs
    refine goes_close H (hp.resolve_left hs) fun σ' H' hs' => ?_
    exact goes_end rfl rfl ⟨L, H'.freeSocketObj hs'⟩

theorem goes_cleanupSocket (H : Kept σ L B (p ::ₘ C) G) (hp : Attached σ p) :
    Goes cfg t e (cleanupSocket p) σ fun _ => Holding B C G :=
  goes_close H hp fun _ H' hs' => goes_freeSocketObj H' (.inl hs')

theorem goes_cleanup (H : Kept σ L B C G) (hp : (σ.socket p.obj).bClosing = false) :
    Goes cfg t e (cleanup p false) σ fun _ => Holding B C G := by
  refine leads_after goes_noneOutstanding ?_
  rintro v σ₁ ⟨rfl, -⟩
  split
  · refine goes_plain rfl rfl ?_
    rw [hp]
    exact leads_ret ⟨L, H⟩
  · exact leads_ret ⟨L, H⟩

theorem goes_cleanup_idle (H : Kept σ L B (p ::ₘ C) G) (hp : Attached σ p) :
    Goes cfg t e (cleanup p true) σ fun _ => Holding B C G := by
  refine leads_after goes_noneOutstanding ?_
  rintro v σ₁ ⟨rfl, -⟩
  split
  · refine goes_plain rfl rfl ?_
    rw [Bool.or_true, if_pos rfl]
    exact goes_cleanupSocket H hp
  · exact goes_cleanupSocket H hp

/-! ## `HandleIo` -/

/-- A connection that is to be closed: nothing is outstanding. -/
structure Leaving (σ : Server) (p : SockPtr) : Prop where
  attached : Attached σ p
  idle : Idle σ p

theorem Leaving.calm (H : Leaving σ p) (hcalm : Calm σ σ') (hidle : ∀ q, Idle σ q → Idle σ' q) :
    Leaving σ' p :=
  ⟨hcalm.attached H.attached, hidle p H.idle⟩

theorem goes_setClosing {f : Unit → Program γ} {post : γ → Server → Prop}
    (H : Kept σ L B (p ::ₘ C) G) (hp : Leaving σ p)
    (hf : ∀ σ', Kept σ' L B (p ::ₘ C) G → Leaving σ' p → Goes cfg t e (f ()) σ' post) :
    Goes cfg t e (perform (.setClosing p) >>= f) σ post := by
  refine goes_plain rfl rfl (hf _ (H.object rfl fun _ hs _ => hs) ⟨?_, hp.idle.setSocket rfl rfl⟩)
  obtain ⟨h, hs, hopen, hport⟩ := hp.attached
  exact ⟨h, by rw [Server.setSocket_self, hs], hopen, hport⟩

theorem goes_freeBufferObj {f : Unit → Program γ} {post : γ → Server → Prop}
    (H : Kept σ L (x ::ₘ B) C G) (hb : x.buf = b) (hx : x.role.list = none)
    (hf : ∀ L' σ', Kept σ' L' B C G → (∀ p, Leaving σ p → Leaving σ' p) →
      Goes cfg t e (f ()) σ' post) :
    Goes cfg t e (perform (.FreeBufferObj b) >>= f) σ post := by
  subst hb
  exact goes_plain rfl rfl (hf _ _ (H.free hx) fun _ hp => ⟨hp.attached, hp.idle⟩)

/-- The counters, if the operation that has completed is the only one of its connection. -/
def Counted (σ : Server) (p : SockPtr) (o : Operation) : Prop :=
  (σ.socket p.obj).OutstandingSend = (if o = .OP_WRITE then 1 else 0) ∧
    (σ.socket p.obj).OutstandingRecv = if o = .OP_READ then 1 else 0

theorem Counted.recv (h : Counted σ p .OP_READ) (hp : Attached σ p) :
    Leaving (σ.set (σ.get (.OutstandingRecv p) - 1) (.OutstandingRecv p)) p ∧
      σ.get (.OutstandingRecv p) - 1 = 0 := by
  obtain ⟨hsend, hrecv⟩ := h
  have hzero : σ.get (.OutstandingRecv p) - 1 = 0 := by
    rw [Server.get, hrecv]
    rfl
  refine ⟨⟨Calm.set.attached hp, ?_⟩, hzero⟩
  rw [hzero, Idle, Server.set, Server.setSocket_self]
  exact ⟨hsend, rfl⟩

theorem Counted.send (h : Counted σ p .OP_WRITE) (hp : Attached σ p) :
    Leaving (σ.set (σ.get (.OutstandingSend p) - 1) (.OutstandingSend p)) p ∧
      σ.get (.OutstandingSend p) - 1 = 0 := by
  obtain ⟨hsend, hrecv⟩ := h
  have hzero : σ.get (.OutstandingSend p) - 1 = 0 := by
    rw [Server.get, hsend]
    rfl
  refine ⟨⟨Calm.set.attached hp, ?_⟩, hzero⟩
  rw [hzero, Idle, Server.set, Server.setSocket_self]
  exact ⟨rfl, hrecv⟩

theorem goes_enqueue {f : Unit → Program γ} {post : γ → Server → Prop}
    (H : Kept σ L (x ::ₘ B) (p ::ₘ C) G) (hb : x.buf = b) (hx : x.role.list = none)
    (hjoined : Joined σ p)
    (hf : ∀ L' σ', Kept σ' L' B C G → Calm σ σ' → Goes cfg t e (f ()) σ' post) :
    Goes cfg t e (perform (.setBuflen b n) >>= fun _ => perform (.setSock b p) >>= fun _ =>
      perform (.EnqueuePendingOperation b) >>= f) σ post := by
  subst hb
  refine goes_write H rfl rfl fun σ₁ H₁ hcalm₁ => goes_write H₁ rfl rfl fun σ₂ H₂ hcalm₂ => ?_
  refine leads_call fun y σ₃ v _ hexec => ?_
  obtain rfl := ok_of_exec (e := e) rfl hexec
  obtain ⟨σ', henqueue, heq⟩ := Option.map_eq_some_iff.mp hexec
  cases heq
  have hcalm := hcalm₁.trans hcalm₂
  obtain ⟨H₃, hcalm₃⟩ := H₂.enqueue hx rfl (hcalm.joined hjoined) henqueue
  exact hf _ _ H₃ (hcalm.trans hcalm₃)

theorem goes_handleRead (H : Kept σ L (x ::ₘ 0) (p ::ₘ 0) 0) (hx : x.role.list = none)
    (hjoined : Joined σ p) (hcounted : Counted σ p .OP_READ) :
    Goes cfg t e (HandleRead cfg p x.buf n rounds) σ fun _ => Holding 0 0 0 := by
  refine goes_plain rfl rfl ?_
  have H₁ := H.set (n := σ.get (.OutstandingRecv p) - 1) (v := .OutstandingRecv p)
  have hjoined₁ := Calm.joined (.set (n := σ.get (.OutstandingRecv p) - 1)
    (v := .OutstandingRecv p)) hjoined
  obtain ⟨hleaving₁, -⟩ := hcounted.recv hjoined.attached
  split
  · refine goes_enqueue H₁ rfl hx hjoined₁ fun L₂ σ₂ H₂ hcalm₂ => ?_
    refine leads_after (goes_processPendingOperations H₂) ?_
    rintro _ σ₃ ⟨⟨L₃, H₃⟩, hcalm₃⟩
    exact goes_cleanup H₃ ((hcalm₂.trans hcalm₃).joined hjoined₁).notClosing
  · refine goes_setClosing H₁ hleaving₁ fun σ₂ H₂ hleaving₂ => ?_
    refine goes_freeBufferObj H₂ rfl hx fun L₃ σ₃ H₃ hkeep => ?_
    refine goes_enter H₃ fun σ₄ H₄ hcalm₄ hidle₄ => leads_after goes_noneOutstanding ?_
    have hleaving₄ := (hkeep p hleaving₂).calm hcalm₄ hidle₄
    rintro v _ ⟨rfl, hnone⟩
    obtain rfl : v = true := hnone.mpr hleaving₄.idle
    refine goes_leave H₄ fun σ₅ H₅ hcalm₅ _ => leads_after (goes_processPendingOperations H₅) ?_
    rintro _ σ₆ ⟨⟨L₆, H₆⟩, hcalm₆⟩
    exact goes_cleanup_idle H₆ ((hcalm₅.trans hcalm₆).attached hleaving₄.attached)

theorem goes_handleWrite (H : Kept σ L (x ::ₘ 0) (p ::ₘ 0) 0) (hx : x.role.list = none)
    (hjoined : Joined σ p) : Goes cfg t e (HandleWrite cfg p x.buf rounds) σ fun _ =>
      Holding 0 0 0 := by
  refine goes_set H rfl rfl fun σ₁ H₁ hcalm₁ => goes_set H₁ rfl rfl fun σ₂ H₂ hcalm₂ => ?_
  refine goes_write H₂ rfl rfl fun σ₃ H₃ hcalm₃ => goes_plain rfl rfl ?_
  have hjoined₃ := (hcalm₁.trans (hcalm₂.trans hcalm₃)).joined hjoined
  rw [hjoined₃.notClosing]
  refine goes_write H₃ rfl rfl fun σ₄ H₄ hcalm₄ => ?_
  refine leads_after (goes_postRecv H₄ rfl hx (hcalm₄.joined hjoined₃)) ?_
  rintro _ σ₅ ⟨H₅, hcalm₅⟩
  refine leads_after (goes_processPendingOperations H₅) ?_
  rintro _ σ₆ ⟨⟨L₆, H₆⟩, hcalm₆⟩
  exact goes_cleanup H₆ ((hcalm₄.trans (hcalm₅.trans hcalm₆)).joined hjoined₃).notClosing

theorem goes_discard (H : Kept σ L (x ::ₘ B) (p ::ₘ C) G) (hx : x.role.list = none)
    (hp : Attached σ p) :
    Goes cfg t e (FreeSocketObj p >>= fun _ => perform (.FreeBufferObj x.buf)) σ fun _ =>
      Holding B C G := by
  refine leads_after (goes_freeSocketObj H (.inr hp)) ?_
  rintro _ σ₁ ⟨L₁, H₁⟩
  exact goes_end rfl rfl ⟨_, H₁.free hx⟩

theorem goes_handleError {o : Operation} (H : Kept σ L (x ::ₘ 0) (p ::ₘ 0) 0)
    (hx : x.role.list = none) (hp : Attached σ p) (hcounted : Counted σ p o)
    (ho : (σ.buffer x.buf).operation = o) :
    Goes cfg t e (HandleError (.sock p) x.buf) σ fun _ => Holding 0 0 0 := by
  refine goes_plain rfl rfl ?_
  rw [ho]
  cases o with
  | OP_READ =>
      obtain ⟨⟨hattached, hsend, -⟩, hzero⟩ := hcounted.recv hp
      refine goes_plain rfl rfl ?_
      rw [if_pos hzero]
      refine goes_plain rfl rfl ?_
      have hzero' : (σ.set (σ.get (.OutstandingRecv p) - 1) (.OutstandingRecv p)).get
        (.OutstandingSend p) = 0 := hsend
      rw [if_pos hzero']
      exact goes_discard H.set hx hattached
  | OP_WRITE =>
      obtain ⟨⟨hattached, -, hrecv⟩, hzero⟩ := hcounted.send hp
      refine goes_plain rfl rfl ?_
      rw [if_pos hzero]
      refine goes_plain rfl rfl ?_
      have hzero' : (σ.set (σ.get (.OutstandingSend p) - 1) (.OutstandingSend p)).get
        (.OutstandingRecv p) = 0 := hrecv
      rw [if_pos hzero']
      exact goes_discard H.set hx hattached
  | OP_ACCEPT => exact goes_never

/-! Accepts. -/

theorem goes_repost (H : Kept σ L B C G) :
    Goes cfg t e (repost cfg l rounds) σ fun _ => Holding B C G := by
  refine goes_set H rfl rfl fun σ₁ H₁ _ => (goes_processPendingOperations H₁).mono ?_
  rintro _ σ₂ ⟨hholding, -⟩
  exact hholding

theorem getSocketObj_none {s : SOCKET} {y : Choice}
    (h : σ.GetSocketObj s y = some (σ', none)) : σ' = σ := by
  cases y with
  | ok =>
      cases hfree : σ.gFreeSocketList <;> simp only [Server.GetSocketObj, hfree] at h <;> cases h
  | fail =>
      obtain ⟨-, heq⟩ := Option.ite_none_right_eq_some.mp h
      cases heq
      rfl
  | handle k => cases h

theorem getSocketObj_ok {s : SOCKET} {y : Choice}
    (h : σ.GetSocketObj s y = some (σ', some p)) : y = .ok := by
  cases y with
  | ok => rfl
  | fail =>
      obtain ⟨-, heq⟩ := Option.ite_none_right_eq_some.mp h
      cases heq
  | handle k => cases h

theorem goes_refuse (H : Kept σ L (x ::ₘ B) C (h ::ₘ G)) (hb : x.buf = b)
    (hx : x.role.list = none) (hclient : x.obj.sclient = some h) :
    Goes cfg t e (perform (.closeClient b) >>= fun _ => perform (.FreeBufferObj b) >>=
      fun _ => repost cfg l rounds) σ fun _ => Holding B C G := by
  subst hb
  have hself : (σ.buffer x.buf).sclient = some h := by
    rw [H.stocked.buffers.contents x (Multiset.mem_cons_self _ _)]
    exact hclient
  refine goes_plain rfl rfl ?_
  rw [hself]
  have H₁ := (H.closeClient).write (o := { σ.buffer x.buf with sclient := none })
  exact goes_freeBufferObj H₁ rfl hx fun L₂ σ₂ H₂ _ => goes_repost H₂

theorem goes_handleAccept (H : Kept σ L (x ::ₘ B) C (h ::ₘ G)) (hx : x.role.list = some l)
    (hclient : x.obj.sclient = some h) :
    Goes cfg t e (HandleAccept cfg l x.buf n rounds) σ fun _ => Holding B C G := by
  refine goes_set H rfl rfl fun σ₁ H₁ _ => leads_call fun y σ₂ _ _ hexec => ?_
  obtain rfl := ok_of_exec (e := e) rfl hexec
  obtain ⟨σ', hremove, heq⟩ := Option.map_eq_some_iff.mp hexec
  cases heq
  have H₂ := H₁.remove hx hremove
  have hself : (σ₂.buffer x.buf).sclient = some h := by
    have hcontents := H₂.stocked.buffers.contents _ (Multiset.mem_cons_self _ _)
    exact (congrArg BufferObj.sclient hcontents).trans hclient
  refine leads_call fun y σ₃ v _ hexec => ?_
  have hget : σ₂.GetSocketObj (some h) y = some (σ₃, v) := hself ▸ hexec
  cases v with
  | none =>
      obtain rfl := getSocketObj_none hget
      exact goes_refuse H₂ rfl rfl hclient
  | some p =>
      obtain rfl := getSocketObj_ok hget
      obtain ⟨H₃, hfresh, -⟩ := H₂.getSocketObj hget
      refine leads_call fun y σ₄ v hok hexec => ?_
      obtain rfl := hok rfl
      cases hexec
      refine leads_call fun y σ₅ v hok hexec => ?_
      obtain rfl := hok rfl
      have hassociate : exec cfg t e (.CreateIoCompletionPort p) σ₃ .ok =
          some ({ σ₃ with port := Function.update σ₃.port h (some p) }, true) := by
        rw [exec, Server.CreateIoCompletionPort, hfresh.s, Option.map_some]
      have heq := hexec.symm.trans hassociate
      cases heq
      obtain ⟨H₄, hjoined⟩ := H₃.associate hfresh
      exact goes_enqueue H₄ rfl rfl hjoined fun L₅ σ₅ H₅ _ => goes_repost H₅

theorem goes_acceptEx (H : Kept σ L (x ::ₘ B) C (h ::ₘ G)) (hb : x.buf = b)
    (hx : x.role = .linked l) (hclient : x.obj.sclient = some h)
    (hoperation : x.obj.operation = .OP_ACCEPT) :
    Goes cfg t e (perform (.AcceptEx l b)) σ fun _ => Holding B C G := by
  subst hb
  have hself : (σ.buffer x.buf).sclient = some h := by
    rw [H.stocked.buffers.contents x (Multiset.mem_cons_self _ _)]
    exact hclient
  have hlist : x.role.list = some l := by
    rw [hx]
    rfl
  refine leads_call fun y σ' v _ hexec => ?_
  cases y with
  | ok =>
      obtain ⟨k, hk, heq⟩ := Option.map_eq_some_iff.mp hexec
      obtain rfl : k = h := Option.some.inj (hk.symm.trans hself)
      cases heq
      exact leads_ret ⟨_, H.postAccept hlist rfl rfl rfl hoperation hclient⟩
  | fail =>
      cases hexec
      refine leads_ret ⟨_, H.abandon hlist ?_⟩
      rw [Kept.clients_abandon_some hself, Multiset.cons_add, Multiset.add_cons]
  | handle k => cases hexec

theorem goes_postAccept (H : Kept σ L (x ::ₘ B) C G) (hb : x.buf = b) (hx : x.role = .linked l) :
    Goes cfg t e (PostAccept l b) σ fun _ => Holding B C G := by
  subst hb
  have hlist : x.role.list = some l := by
    rw [hx]
    rfl
  refine leads_call fun y σ' v _ hexec => ?_
  cases y with
  | ok => cases hexec
  | fail =>
      cases hexec
      refine leads_ret ⟨_, Kept.abandon (H.write (o := { σ.buffer x.buf with
        operation := .OP_ACCEPT, sclient := none })) hlist ?_⟩
      rw [Kept.clients_abandon (congrArg _ Server.setBuffer_self)]
  | handle h =>
      obtain ⟨hclosed, heq⟩ := Option.ite_none_right_eq_some.mp hexec
      cases heq
      have H₁ : Kept { σ with
          isOpen := Function.update σ.isOpen h true, port := Function.update σ.port h none
          received := Function.update σ.received h []
          posted := Function.update σ.posted h [] } L (x ::ₘ B) C (h ::ₘ G) := by
        refine H.openClient hclosed ⟨rfl, fun k hk => Function.update_of_ne hk ..,
          fun k hk => Function.update_of_ne hk .., rfl, rfl, rfl⟩ (Function.update_self ..)
          (Function.update_self ..) ⟨H.stocked.buffers.same rfl rfl rfl rfl rfl rfl rfl rfl, ?_⟩
          rfl rfl rfl
        exact H.stocked.covered
      have H₂ := H₁.write (o := { σ.buffer x.buf with
        operation := .OP_ACCEPT, sclient := some h })
      refine leads_after (goes_acceptEx H₂ rfl hx rfl rfl) ?_
      rintro v σ₃ ⟨L₃, H₃⟩
      split
      · exact goes_end rfl rfl ⟨L₃, H₃.set⟩
      · exact leads_ret ⟨L₃, H₃⟩

theorem getBufferObj_none {y : Choice} (h : σ.GetBufferObj cfg y = some (σ', none)) : σ' = σ := by
  cases y with
  | ok =>
      cases hfree : σ.gFreeBufferList <;> simp only [Server.GetBufferObj, hfree] at h <;> cases h
  | fail =>
      obtain ⟨-, heq⟩ := Option.ite_none_right_eq_some.mp h
      cases heq
      rfl
  | handle k => cases h

theorem getBufferObj_ok {y : Choice} (h : σ.GetBufferObj cfg y = some (σ', some b)) : y = .ok := by
  cases y with
  | ok => rfl
  | fail =>
      obtain ⟨-, heq⟩ := Option.ite_none_right_eq_some.mp h
      cases heq
  | handle k => cases h

theorem goes_getBufferObj {f : Option Nat → Program Unit} (H : Kept σ L B C G)
    (hnone : Goes cfg t e (f none) σ fun _ => Holding B C G)
    (hsome : ∀ b L' σ' obj, Kept σ' L' (⟨b, obj, .blank⟩ ::ₘ B) C G →
      Goes cfg t e (f (some b)) σ' fun _ => Holding B C G) :
    Goes cfg t e (perform .GetBufferObj >>= f) σ fun _ => Holding B C G := by
  refine leads_call fun y σ' v _ hexec => ?_
  cases v with
  | none =>
      obtain rfl := getBufferObj_none hexec
      exact hnone
  | some b =>
      obtain rfl := getBufferObj_ok hexec
      obtain ⟨L', obj, H'⟩ := H.get hexec
      exact hsome b L' σ' obj H'

theorem goes_newAccept {obj : BufferObj} {f : Program Unit}
    (H : Kept σ L (⟨b, obj, .blank⟩ ::ₘ B) C G)
    (hf : ∀ L' σ', Kept σ' L' B C G → Goes cfg t e f σ' fun _ => Holding B C G) :
    Goes cfg t e (perform (.InsertPendingAccept l b) >>= fun _ => PostAccept l b >>= fun _ => f) σ
      fun _ => Holding B C G := by
  refine goes_plain rfl rfl (leads_after (goes_postAccept (H.insert rfl l) rfl rfl) ?_)
  rintro _ σ₁ ⟨L₁, H₁⟩
  exact hf L₁ σ₁ H₁

theorem goes_postInitialAccepts (H : Kept σ L B C G) :
    Goes cfg t e (postInitialAccepts l n) σ fun _ => Holding B C G := by
  induction n generalizing σ L with
  | zero => exact leads_ret ⟨L, H⟩
  | succ n ih =>
      exact goes_getBufferObj H (leads_ret ⟨L, H⟩) fun b L₁ σ₁ obj H₁ =>
        goes_newAccept H₁ fun L₂ σ₂ H₂ => ih H₂

theorem goes_postAccepts (H : Kept σ L B C G) :
    Goes cfg t e (postAccepts cfg l n) σ fun _ => Holding B C G := by
  induction n generalizing σ L with
  | zero => exact leads_ret ⟨L, H⟩
  | succ n ih =>
      refine goes_plain rfl rfl ?_
      split
      · exact goes_getBufferObj H (ih H) fun b L₁ σ₁ obj H₁ =>
          goes_newAccept H₁ fun L₂ σ₂ H₂ => ih H₂
      · exact leads_ret ⟨L, H⟩

/-! ## Events -/

theorem Kept.arrive {op : Op} {data : List UInt8} (H : Kept σ L (x ::ₘ B) C G)
    (hb : x.buf = op.buf) (harrive : σ.arrive op data = some σ') :
    ∃ obj : BufferObj, obj.sclient = x.obj.sclient ∧ obj.operation = x.obj.operation ∧
      Kept σ' L (⟨x.buf, obj, x.role⟩ ::ₘ B) C G ∧ Calm σ σ' ∧ σ'.socket = σ.socket := by
  have hself := H.stocked.buffers.contents x (Multiset.mem_cons_self _ _)
  have hfill : Kept { σ.setBuffer op.buf ((σ.buffer op.buf).fill op.s data) with
      received := Function.update σ.received op.s (σ.received op.s ++ [⟨some op.s, data⟩]) } L
      (⟨x.buf, x.obj.fill op.s data, x.role⟩ ::ₘ B) C G := by
    rw [← hb, hself]
    exact H.write.same (.of_eq rfl rfl rfl rfl rfl rfl) rfl rfl rfl rfl rfl rfl rfl rfl
  have hcalm : Calm σ σ := .of_eq rfl rfl rfl rfl rfl rfl
  unfold Server.arrive at harrive
  split at harrive
  · obtain ⟨-, heq⟩ := Option.ite_none_right_eq_some.mp harrive
    cases heq
    exact ⟨x.obj.fill op.s data, rfl, rfl, hfill, .of_eq rfl rfl rfl rfl rfl rfl, rfl⟩
  · split at harrive
    · cases harrive
      exact ⟨x.obj, rfl, rfl, H, hcalm, rfl⟩
    · obtain ⟨-, heq⟩ := Option.ite_none_right_eq_some.mp harrive
      cases heq
      exact ⟨x.obj.fill op.s data, rfl, rfl, hfill, .of_eq rfl rfl rfl rfl rfl rfl, rfl⟩
  · cases harrive
    exact ⟨x.obj, rfl, rfl, H, hcalm, rfl⟩

theorem fail_eq {op : Op} (hop : op.operation ≠ .OP_ACCEPT) :
    ∃ sends, σ.fail op = { σ with failedSends := sends } := by
  unfold Server.fail
  split
  · rename_i haccept _
    exact absurd haccept hop
  · exact ⟨_, rfl⟩
  · exact ⟨_, rfl⟩

theorem goes_handleIo (H : Kept σ L (x ::ₘ 0) (p ::ₘ 0) 0) (hb : x.buf = b)
    (hx : x.role.list = none) (hjoined : Joined σ p) (hcounted : Counted σ p x.obj.operation) :
    Goes cfg t e (HandleIo cfg (.sock p) b n false rounds) σ fun _ => Holding 0 0 0 := by
  subst hb
  have hself := H.stocked.buffers.contents x (Multiset.mem_cons_self _ _)
  refine goes_plain rfl rfl ?_
  rw [hself]
  cases ho : x.obj.operation with
  | OP_READ =>
      rw [ho] at hcounted
      exact goes_handleRead H hx hjoined hcounted
  | OP_WRITE => exact goes_handleWrite H hx hjoined
  | OP_ACCEPT => exact goes_never

theorem goes_handleIoAccept (H : Kept σ L (x ::ₘ 0) 0 (h ::ₘ 0)) (hb : x.buf = b)
    (hx : x.role.list = some l)
    (hclient : x.obj.operation = .OP_ACCEPT → x.obj.sclient = some h) :
    Goes cfg t e (HandleIo cfg (.listen l) b n false rounds) σ fun _ => Holding 0 0 0 := by
  subst hb
  have hself := H.stocked.buffers.contents x (Multiset.mem_cons_self _ _)
  refine goes_plain rfl rfl ?_
  rw [hself]
  cases ho : x.obj.operation with
  | OP_ACCEPT => exact goes_handleAccept H hx (hclient ho)
  | OP_READ => exact goes_never
  | OP_WRITE => exact goes_never

theorem goes_acceptError {post : Unit → Server → Prop}
    (ho : (σ.buffer b).operation ≠ .OP_ACCEPT) :
    Goes cfg t e (HandleError (.listen l) b) σ post := by
  refine goes_plain rfl rfl ?_
  cases hb : (σ.buffer b).operation with
  | OP_ACCEPT => exact absurd hb ho
  | OP_READ => exact goes_never
  | OP_WRITE => exact goes_never

theorem goes_completion {op : Op} {error : Bool} {data : List UInt8} {prog : Program Unit}
    (H : Kept σ L 0 0 0) (hcounted : ∀ p, op.key = .sock p → op ∈ σ.flight →
      Counted σ p op.operation)
    (herror : error = true → op.operation ≠ .OP_ACCEPT)
    (hspawn : spawn cfg t (.completion op error data rounds) σ = some (σ', prog)) :
    Goes cfg t (.completion op error data rounds) prog σ' fun _ => Holding 0 0 0 := by
  obtain ⟨hop, hspawn⟩ := Option.ite_none_right_eq_some.mp hspawn
  have hoperation := H.stocked.buffers.operation op hop
  cases hkey : op.key with
  | sock p =>
      have hmem : p ∈ peers σ (L .gPendingSendList) :=
        Multiset.mem_add.mpr (.inl (List.mem_filterMap.mpr ⟨op, hop, by rw [Op.peer, hkey]⟩))
      have hjoined := H.tended.joined p hmem
      have H₁ := H.complete hop hkey
      have hcount := hcounted p hkey hop
      cases error with
      | true =>
          cases hspawn
          obtain ⟨sends, hfail⟩ :=
            fail_eq (σ := { σ with flight := σ.flight.erase op }) (herror rfl)
          rw [hfail]
          simp only [Event.program, CompletionThread, hkey]
          have H₂ : Kept { σ with flight := σ.flight.erase op, failedSends := sends } L
              (⟨op.buf, σ.buffer op.buf, .blank⟩ ::ₘ 0) (p ::ₘ 0) 0 :=
            H₁.same (.of_eq rfl rfl rfl rfl rfl rfl) rfl rfl rfl rfl rfl rfl rfl rfl
          exact goes_plain rfl rfl (goes_handleError H₂ rfl hjoined.attached hcount hoperation)
      | false =>
          obtain ⟨σ₂, harrive, heq⟩ := Option.map_eq_some_iff.mp hspawn
          cases heq
          obtain ⟨obj, -, hobj, H₂, hcalm, hsocket⟩ := H₁.arrive rfl harrive
          simp only [Event.program, CompletionThread, hkey]
          refine goes_handleIo H₂ rfl rfl (hcalm.joined ⟨hjoined.notClosing, hjoined.attached⟩) ?_
          rw [Counted, hsocket, hobj, hoperation]
          exact hcount
  | listen l =>
      have H₁ := H.completeAccept hop hkey
      cases error with
      | true =>
          cases hspawn
          obtain ⟨sends, hfail⟩ :=
            fail_eq (σ := { σ with flight := σ.flight.erase op }) (herror rfl)
          rw [hfail]
          simp only [Event.program, CompletionThread, hkey]
          refine goes_acceptError ?_
          exact hoperation ▸ herror rfl
      | false =>
          obtain ⟨σ₂, harrive, heq⟩ := Option.map_eq_some_iff.mp hspawn
          cases heq
          obtain ⟨obj, hclient, hobj, H₂, -, -⟩ := H₁.arrive rfl harrive
          simp only [Event.program, CompletionThread, hkey]
          refine goes_handleIoAccept H₂ rfl rfl fun haccept => ?_
          rw [hclient]
          exact H.stocked.buffers.client op hop (hoperation.symm.trans (hobj.symm.trans haccept))

/-! ## Runs -/

/-- A connection has one operation, which its object has counted. -/
theorem counted_of_world {op : Op} (H : World cfg .sockets σ 0 0 0 0) (hkept : Kept σ L 0 0 0)
    (hop : op ∈ σ.flight) (hkey : op.key = .sock p) : Counted σ p op.operation := by
  obtain ⟨L', hL⟩ := H.listed rfl
  have hcount : ∀ o, o ≠ .OP_ACCEPT →
      (σ.socket p.obj).outstanding o = (busy o p.obj σ.flight : Int) := fun o ho =>
    (add_zero _).symm.trans ((hL.sockets rfl).users.count o ho p.obj)
  have hrest := (hkept.complete hop hkey).tended
  obtain ⟨hlive, hnot⟩ := hrest.first
  have hothers : ∀ o, busy o p.obj (σ.flight.erase op) = 0 := by
    refine fun o => List.countP_eq_zero.mpr fun op' hop' => ?_
    have hne : op'.key.obj ≠ some p.obj := by
      cases hkey' : op'.key with
      | listen l =>
          intro he
          cases he
      | sock q =>
          have hq : q ∈ peers { σ with flight := σ.flight.erase op } (L .gPendingSendList) :=
            Multiset.mem_add.mpr (.inl (List.mem_filterMap.mpr ⟨op', hop', by rw [Op.peer, hkey']⟩))
          have hq' : q ≠ p := fun he => hnot (he ▸ Multiset.mem_add.mpr (.inl hq))
          exact fun he => live_apart ((hrest.live q).mpr (Multiset.mem_add.mpr (.inl hq))) hlive hq'
            (Option.some.inj he)
    simp [hne]
  have hbusy : ∀ o, busy o p.obj σ.flight = if op.operation = o then 1 else 0 := by
    intro o
    have hperm : busy o p.obj σ.flight = busy o p.obj (op :: σ.flight.erase op) :=
      (List.perm_cons_erase hop).countP_eq _
    rw [hperm, busy_cons, hothers, hkey]
    simp [Key.obj]
  refine ⟨(hcount .OP_WRITE (by decide)).trans ?_, (hcount .OP_READ (by decide)).trans ?_⟩
  · rw [hbusy]
    split <;> rfl
  · rw [hbusy]
    split <;> rfl

theorem kept_start : Kept (.start cfg) (fun _ => []) 0 0 0 where
  stocked := ⟨buffers_start, rfl⟩
  tended :=
    { once := Multiset.nodup_zero
      live := fun _ => ⟨nofun, nofun⟩
      joined := nofun
      free := ⟨[], rfl, List.nodup_nil, fun k => ⟨nofun, fun h => absurd h.1 (Nat.not_lt_zero k)⟩⟩
      fresh := fun _ _ => rfl
      clear := fun _ _ => rfl }
  guarded := ⟨Multiset.nodup_zero, nofun, nofun⟩

theorem goes_event {prog : Program Unit} (H : Holding 0 0 0 σ)
    (hworld : World cfg .sockets σ 0 0 0 0)
    (hadmits : ∀ op data rounds, e = .completion op true data rounds → op.operation ≠ .OP_ACCEPT)
    (hspawn : spawn cfg t e σ = some (σ', prog)) :
    Goes cfg t e prog σ' fun _ => Holding 0 0 0 := by
  obtain ⟨L, H⟩ := H
  cases e with
  | initialAccepts l =>
      cases hspawn
      exact goes_postInitialAccepts H
  | FD_ACCEPT l =>
      cases hspawn
      exact goes_postAccepts H
  | RepostAccept l =>
      cases hspawn
      exact goes_set H rfl rfl fun σ₁ H₁ _ => goes_postAccepts H₁
  | completion op error data rounds =>
      exact goes_completion H (fun p hkey hop => counted_of_world hworld H hop hkey)
        (fun herror => hadmits op data rounds (herror ▸ rfl)) hspawn

theorem Reclaiming.quiescent (h : Reclaiming m (.begin t e)) : m.Quiescent := by
  cases e with
  | completion op error data rounds => exact h.1
  | _ => exact h

theorem Reclaiming.answers {op : Op} {data : List UInt8}
    (h : Reclaiming m (.begin t (.completion op true data rounds))) :
    op.operation ≠ .OP_ACCEPT :=
  h.2 rfl

theorem Reclaiming.admits (h : Reclaiming m (.begin t e)) : Admits .sockets σ 0 e := by
  cases e with
  | completion op error data rounds =>
      exact ⟨fun _ herror haccept => absurd haccept (h.2 herror), nofun⟩
  | _ => trivial

theorem reclaiming_run (h : Via (system cfg).step Reclaiming (start cfg threads) m) :
    ∃ rs, (rules cfg .sockets).Good m rs :=
  world_run_solo (fun _ _ _ hcond => hcond.quiescent) (fun _ _ _ hcond => hcond.admits)
    (fun _ _ _ _ _ _ => ⟨nofun, nofun⟩) h

/-- **Reclaiming.**  Between any two calls of `HandleIo`, if no accept completes with an error
and none of these calls fails. -/
theorem failures_reclaimed (h : Via (system cfg).step Reclaiming (start cfg threads) m)
    (hq : m.Quiescent) : Reclaimed m.shared := by
  have hturn : Turn (system cfg) (fun c x => c.strands = true → x = .ok) (Holding 0 0 0) m := turns
    (fun m t e hcond => hcond.1.quiescent) (fun m t x c hcond hc => hcond.1 c hc)
    (fun m t e σ p hcond hP hspawn => ?_) (fun o ho => List.eq_of_mem_replicate ho)
    ⟨_, kept_start⟩ (h.strengthen fun m hm => reclaiming_run hm)
  · obtain ⟨L, H⟩ := hturn.rest hq
    exact reclaimed_of_kept H (failedAccepts_run (fun _ _ _ _ _ hcond => hcond.answers) h)
  · obtain ⟨hbegin, rs, hgood⟩ := hcond
    refine goes_event hP (world_quiescent hgood hbegin.quiescent) ?_ hspawn
    rintro op data rounds rfl
    exact hbegin.answers

/-! Two clients, and one send at a time.  The first has sent a byte, which is sent back. -/

/-- The send has completed, and the next receive is refused. -/
def recvRefused : List Action := List.flatten [
  [.begin 0 (.completion ⟨.OP_WRITE, .sock ⟨0, 0⟩, 100, 0, 1⟩ false [] 2)],
  List.replicate 7 (.run 0 .ok), [.run 0 .fail], List.replicate 6 (.run 0 .ok), [.finish 0]]

/-- A send that completes with an error is made good. -/
theorem failures_reclaimed_firstFails : ∃ m,
    Via (system oneSend).step Reclaiming (start oneSend 1) m ∧
      m.shared.frees = [⟨0, 0⟩] ∧ m.shared.gFreeBufferList = some 0 ∧ Reclaimed m.shared := by
  have hrun : ∃ m, Via (system oneSend).step Reclaiming (start oneSend 1) m ∧ m.Quiescent ∧
      m.shared.frees = [⟨0, 0⟩] ∧ m.shared.gFreeBufferList = some 0 :=
    exists_via_of_execIf (firstSent ++ firstFails) (by decide +kernel)
  obtain ⟨m, hm, hq, hfrees, hfree⟩ := hrun
  exact ⟨m, hm, hfrees, hfree, failures_reclaimed hm hq⟩

/-- A refused receive is not: the connection has nothing outstanding, and its socket stays
open. -/
theorem not_reclaimed_recvRefused : ∃ m, Via (system oneSend).step InTurn (start oneSend 1) m ∧
    m.Quiescent ∧ m.shared.live ⟨0, 0⟩ ∧ m.shared.isOpen 100 = true ∧
    m.shared.gPendingSendList = none ∧ (∀ op ∈ m.shared.flight, op.key ≠ .sock ⟨0, 0⟩) ∧
    ¬ Reclaimed m.shared := by
  have hrun : ∃ m, Via (system oneSend).step InTurn (start oneSend 1) m ∧ m.Quiescent ∧
      m.shared.live ⟨0, 0⟩ ∧ m.shared.isOpen 100 = true ∧ m.shared.gPendingSendList = none ∧
      ∀ op ∈ m.shared.flight, op.key ≠ .sock ⟨0, 0⟩ :=
    exists_via_of_execIf (firstSent ++ recvRefused) (by decide +kernel)
  obtain ⟨m, hm, hq, hlive, hopen, hqueue, hflight⟩ := hrun
  refine ⟨m, hm, hq, hlive, hopen, hqueue, hflight, ?_⟩
  rintro ⟨free, queue, freeSockets, H⟩
  rcases H.connection ⟨0, 0⟩ hlive with ⟨op, hop, hkey⟩ | ⟨b, hb, -⟩
  · exact hflight op hop hkey
  · have hchain := H.pendingSends
    rw [hqueue] at hchain
    obtain rfl : queue = [] := by
      cases queue with
      | nil => rfl
      | cons c queue => cases hchain.1
    cases hb

end CppWorkspace.ThrottledServer
