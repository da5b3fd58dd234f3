/-
# `CppWorkspace.ThrottledServer.Buffers` — where the buffers are

Free buffers, queued sends and the pending accepts of each listener are lists through
one field, `next`.  A buffer is in one place: it is free, it is queued, an operation in
flight uses it, or a thread holds it.  (A buffer for which `PostAccept` has failed is in
none of them, and stays in `PendingAccepts`.)  So the lists have no node in common, and
each operation on one of them leaves the others alone.

`PendingAccepts` is not a place: it also holds the buffers of the accepts in flight, and
of threads that have inserted a buffer and not posted it, or not yet removed one that
has completed.

An accept that completes with an error is the exception: its buffer is freed, and nobody
takes it out of `PendingAccepts`.  If it is the oldest, it is the last of the list, which
then ends in a buffer of another list (`Buffers.forsake`).

`Buffers` says this of a state and of what the threads hold; there is one lemma for each
operation.  It needs that no other accept completes with an error.
-/
import Mathlib.Algebra.Order.Group.Multiset
import Mathlib.Data.Multiset.Filter
import CppWorkspace.ThrottledServer.Server

namespace CppWorkspace.ThrottledServer

open Programs Runs LinkedList

/-! ## Lists -/

/-- The pointers to the lists of buffers. -/
inductive Head
  | gFreeBufferList
  | gPendingSendList
  | PendingAccepts (l : Nat)
  deriving DecidableEq

def Server.head (σ : Server) : Head → Option Nat
  | .gFreeBufferList => σ.gFreeBufferList
  | .gPendingSendList => σ.gPendingSendList
  | .PendingAccepts l => (σ.listen l).PendingAccepts

/-- The lists whose last node may point to a buffer that is elsewhere. -/
def Server.loose (σ : Server) : Head → Prop
  | .PendingAccepts l => 0 < σ.failedAccepts l
  | _ => False

section
variable {σ σ' : Server} {v : Option Nat}

theorem head_same (hfree : σ'.gFreeBufferList = σ.gFreeBufferList)
    (hqueue : σ'.gPendingSendList = σ.gPendingSendList)
    (hlisten : ∀ l, (σ'.listen l).PendingAccepts = (σ.listen l).PendingAccepts) :
    σ'.head = σ.head := by
  funext i
  cases i with
  | gFreeBufferList => exact hfree
  | gPendingSendList => exact hqueue
  | PendingAccepts l => exact hlisten l

theorem head_free (hfree : σ'.gFreeBufferList = v)
    (hqueue : σ'.gPendingSendList = σ.gPendingSendList)
    (hlisten : ∀ l, (σ'.listen l).PendingAccepts = (σ.listen l).PendingAccepts) :
    σ'.head = Function.update σ.head .gFreeBufferList v := by
  refine Function.eq_update_iff.mpr ⟨hfree, fun i hi => ?_⟩
  cases i with
  | gFreeBufferList => exact absurd rfl hi
  | gPendingSendList => exact hqueue
  | PendingAccepts l => exact hlisten l

theorem head_queue (hfree : σ'.gFreeBufferList = σ.gFreeBufferList)
    (hqueue : σ'.gPendingSendList = v)
    (hlisten : ∀ l, (σ'.listen l).PendingAccepts = (σ.listen l).PendingAccepts) :
    σ'.head = Function.update σ.head .gPendingSendList v := by
  refine Function.eq_update_iff.mpr ⟨hqueue, fun i hi => ?_⟩
  cases i with
  | gFreeBufferList => exact hfree
  | gPendingSendList => exact absurd rfl hi
  | PendingAccepts l => exact hlisten l

theorem head_pending {l : Nat} (hfree : σ'.gFreeBufferList = σ.gFreeBufferList)
    (hqueue : σ'.gPendingSendList = σ.gPendingSendList)
    (hself : (σ'.listen l).PendingAccepts = v)
    (hlisten : ∀ k, k ≠ l → (σ'.listen k).PendingAccepts = (σ.listen k).PendingAccepts) :
    σ'.head = Function.update σ.head (.PendingAccepts l) v := by
  refine Function.eq_update_iff.mpr ⟨hself, fun i hi => ?_⟩
  cases i with
  | gFreeBufferList => exact hfree
  | gPendingSendList => exact hqueue
  | PendingAccepts k => exact hlisten k fun he => hi (he ▸ rfl)

theorem head_setListen {l : Nat} {x : ListenObj}
    (hx : x.PendingAccepts = (σ.listen l).PendingAccepts) : (σ.setListen l x).head = σ.head := by
  refine head_same rfl rfl fun k => ?_
  by_cases hk : k = l
  · subst hk
    rw [Server.setListen_self, hx]
  · rw [Server.setListen_of_ne hk]

theorem head_set {n : Int} {v : Var} : (σ.set n v).head = σ.head := by
  cases v with
  | PendingAcceptCount l => exact head_setListen rfl
  | RepostCount l => exact head_setListen rfl
  | _ => rfl

end

/-! ## What a thread holds -/

/-- What a buffer is held for.  `cs` is what has come in and was not posted. -/
inductive Role
  /-- For nothing. -/
  | blank
  /-- It is in `PendingAccepts`. -/
  | linked (l : Nat)
  /-- It is in `PendingAccepts`, and its client socket is `h`. -/
  | accept (l h : Nat) (cs : List Chunk)
  /-- Its client socket is `h`. -/
  | guest (h : Nat) (cs : List Chunk)
  /-- For the connection of `p`; `known` if the completion port knows the socket. -/
  | seat (p : SockPtr) (known : Bool) (cs : List Chunk)

/-- The pending list that the buffer is in. -/
def Role.list : Role → Option Nat
  | .linked l => some l
  | .accept l _ _ => some l
  | _ => none

/-- A buffer and its contents. -/
structure Hold where
  buf : Nat
  obj : BufferObj
  role : Role

/-- The held buffers that are in `PendingAccepts`. -/
def linkedTo (l : Nat) (B : Multiset Hold) : Multiset Nat :=
  (B.filter fun x => x.role.list = some l).map Hold.buf

/-- The pending list of an operation. -/
def Key.list : Key → Option Nat
  | .listen l => some l
  | .sock _ => none

theorem Key.list_eq_some {k : Key} {l : Nat} : k.list = some l ↔ k = .listen l := by
  cases k <;> simp [Key.list]

/-- The buffers of the accepts in flight. -/
def accepting (l : Nat) (flight : List Op) : Multiset Nat :=
  (flight.filter fun op => op.key.list = some l).map Op.buf

/-- The buffers in `PendingAccepts` for which `PostAccept` has failed. -/
def leftBehind (l : Nat) (abandoned : List (Nat × Nat)) : Multiset Nat :=
  (abandoned.filter fun a => a.1 = l).map Prod.snd

/-- The buffers before `b` in `PendingAccepts`, which were inserted after it. -/
def Server.newer (σ : Server) (l b : Nat) : List Nat :=
  upTo σ.next b σ.buffers (σ.listen l).PendingAccepts

/-- `b` is in an accept of the listener, and the oldest that is pending. -/
def Server.Oldest (σ : Server) : Key → Nat → Prop
  | .listen l, b => (∀ op ∈ σ.flight, op.key = .listen l → op.buf = b ∨ op.buf ∈ σ.newer l b) ∧
      ∀ a ∈ σ.abandoned, a.1 = l → a.2 = b ∨ a.2 ∈ σ.newer l b
  | .sock _, _ => False

instance (σ : Server) : (k : Key) → (b : Nat) → Decidable (σ.Oldest k b)
  | .listen l, b => inferInstanceAs (Decidable ((∀ op ∈ σ.flight, op.key = .listen l →
      op.buf = b ∨ op.buf ∈ σ.newer l b) ∧
      ∀ a ∈ σ.abandoned, a.1 = l → a.2 = b ∨ a.2 ∈ σ.newer l b))
  | .sock _, _ => .isFalse id

variable {σ σ' : Server} {L : Head → List Nat} {B B' : Multiset Hold} {x y : Hold} {b l : Nat}
  {op : Op} {flight flight' : List Op} {abandoned : List (Nat × Nat)}

theorem accepting_cons (h : op.key.list = some l) :
    accepting l (op :: flight) = op.buf ::ₘ accepting l flight := by
  rw [accepting, List.filter_cons_of_pos (by simpa using h), List.map_cons, ← Multiset.cons_coe,
    accepting]

theorem accepting_cons_ne (h : op.key.list ≠ some l) :
    accepting l (op :: flight) = accepting l flight := by
  rw [accepting, List.filter_cons_of_neg (by simpa using h), accepting]

theorem accepting_perm (h : flight.Perm flight') : accepting l flight = accepting l flight' :=
  Multiset.coe_eq_coe.mpr ((h.filter _).map Op.buf)

theorem leftBehind_cons : leftBehind l ((l, b) :: abandoned) = b ::ₘ leftBehind l abandoned := by
  rw [leftBehind, List.filter_cons_of_pos (by simp), List.map_cons, ← Multiset.cons_coe,
    leftBehind]

theorem leftBehind_cons_ne {k : Nat} (h : k ≠ l) :
    leftBehind l ((k, b) :: abandoned) = leftBehind l abandoned := by
  rw [leftBehind, List.filter_cons_of_neg (by simpa using h), leftBehind]

theorem linkedTo_cons (h : x.role.list ≠ some l) : linkedTo l (x ::ₘ B) = linkedTo l B := by
  rw [linkedTo, Multiset.filter_cons_of_neg B (p := fun x => x.role.list = some l) h, linkedTo]

theorem linkedTo_cons_none (h : x.role.list = none) : linkedTo l (x ::ₘ B) = linkedTo l B :=
  linkedTo_cons (by rw [h]; exact nofun)

theorem linkedTo_cons_self (h : x.role.list = some l) :
    linkedTo l (x ::ₘ B) = x.buf ::ₘ linkedTo l B := by
  rw [linkedTo, Multiset.filter_cons_of_pos B (p := fun x => x.role.list = some l) h,
    Multiset.map_cons, linkedTo]

theorem linkedTo_congr (hbuf : x.buf = y.buf) (hlist : x.role.list = y.role.list) :
    linkedTo l (x ::ₘ B) = linkedTo l (y ::ₘ B) := by
  by_cases hl : y.role.list = some l
  · rw [linkedTo_cons_self hl, linkedTo_cons_self (hlist.trans hl), hbuf]
  · rw [linkedTo_cons hl, linkedTo_cons fun hx => hl (hlist ▸ hx)]

/-! ## Places -/

def places (σ : Server) (L : Head → List Nat) (B : Multiset Hold) : Multiset Nat :=
  (L .gFreeBufferList : Multiset Nat) + (L .gPendingSendList : Multiset Nat) +
    (σ.flight.map Op.buf : Multiset Nat) + (σ.abandoned.map Prod.snd : Multiset Nat) +
    B.map Hold.buf

theorem places_cons : places σ L (x ::ₘ B) = x.buf ::ₘ places σ L B := by
  rw [places, Multiset.map_cons, Multiset.add_cons, places]

theorem mem_places : b ∈ places σ L B ↔ b ∈ L .gFreeBufferList ∨ b ∈ L .gPendingSendList ∨
    (∃ op ∈ σ.flight, op.buf = b) ∨ (∃ a ∈ σ.abandoned, a.2 = b) ∨ ∃ x ∈ B, x.buf = b := by
  simp only [places, Multiset.mem_add, Multiset.mem_coe, List.mem_map, Multiset.mem_map, or_assoc]

/-- Each buffer is in one place; the lists are what `next` and the heads say. -/
structure Buffers (σ : Server) (L : Head → List Nat) (B : Multiset Hold) : Prop where
  lists : Lists σ.next σ.head σ.loose L
  last : σ.gPendingSendListEnd = (L .gPendingSendList).getLast?
  nodup : (places σ L B).Nodup
  exist : ∀ b ∈ places σ L B, b < σ.buffers
  pending : ∀ l, (L (.PendingAccepts l) : Multiset Nat) =
    accepting l σ.flight + leftBehind l σ.abandoned + linkedTo l B
  contents : ∀ x ∈ B, σ.buffer x.buf = x.obj
  operation : ∀ op ∈ σ.flight, (σ.buffer op.buf).operation = op.operation
  client : ∀ op ∈ σ.flight, op.operation = .OP_ACCEPT → (σ.buffer op.buf).sclient = some op.s
  queued : ∀ b ∈ L .gPendingSendList, ∃ p, (σ.buffer b).sock = some p

namespace Buffers

theorem place_of_pending (H : Buffers σ L B) (hb : b ∈ L (.PendingAccepts l)) :
    (∃ op ∈ σ.flight, op.buf = b) ∨ (∃ a ∈ σ.abandoned, a.2 = b) ∨
      ∃ x ∈ B, x.buf = b ∧ x.role.list = some l := by
  have hmem : b ∈ (L (.PendingAccepts l) : Multiset Nat) := hb
  rw [H.pending, Multiset.mem_add, Multiset.mem_add] at hmem
  rcases hmem with (hmem | hmem) | hmem
  · obtain ⟨op, hop, rfl⟩ := List.mem_map.mp hmem
    exact .inl ⟨op, (List.mem_filter.mp hop).1, rfl⟩
  · obtain ⟨a, ha, rfl⟩ := List.mem_map.mp hmem
    exact .inr (.inl ⟨a, (List.mem_filter.mp ha).1, rfl⟩)
  · obtain ⟨x, hx, rfl⟩ := Multiset.mem_map.mp hmem
    obtain ⟨hx, hlist⟩ := Multiset.mem_filter.mp hx
    exact .inr (.inr ⟨x, hx, rfl, hlist⟩)

theorem mem_places_of_mem (H : Buffers σ L B) {i : Head} (hb : b ∈ L i) : b ∈ places σ L B := by
  rw [mem_places]
  cases i with
  | gFreeBufferList => exact .inl hb
  | gPendingSendList => exact .inr (.inl hb)
  | PendingAccepts l =>
      rcases H.place_of_pending hb with hop | ha | ⟨x, hx, hxb, -⟩
      · exact .inr (.inr (.inl hop))
      · exact .inr (.inr (.inr (.inl ha)))
      · exact .inr (.inr (.inr (.inr ⟨x, hx, hxb⟩)))

theorem exclusive (H : Buffers σ L (x ::ₘ B)) : x.buf ∉ places σ L B := by
  have hnodup := H.nodup
  rw [places_cons, Multiset.nodup_cons] at hnodup
  exact hnodup.1

theorem loose (H : Buffers σ L (x ::ₘ B)) {i : Head} (hi : x.buf ∈ L i) :
    ∃ l, i = .PendingAccepts l ∧ x.role.list = some l := by
  have hx := H.exclusive
  rw [mem_places] at hx
  cases i with
  | gFreeBufferList => exact absurd (.inl hi) hx
  | gPendingSendList => exact absurd (.inr (.inl hi)) hx
  | PendingAccepts l =>
      rcases H.place_of_pending hi with hop | ha | ⟨y, hy, hyx, hlist⟩
      · exact absurd (.inr (.inr (.inl hop))) hx
      · exact absurd (.inr (.inr (.inr (.inl ha)))) hx
      · rcases Multiset.mem_cons.mp hy with rfl | hy
        · exact ⟨l, rfl, hlist⟩
        · exact absurd (.inr (.inr (.inr (.inr ⟨y, hy, hyx⟩)))) hx

theorem loose_of_none (H : Buffers σ L (x ::ₘ B)) (hx : x.role.list = none) (i : Head) :
    x.buf ∉ L i := by
  intro hi
  obtain ⟨l, -, hl⟩ := H.loose hi
  rw [hx] at hl
  cases hl

theorem same (H : Buffers σ L B) (hbuffer : σ'.buffer = σ.buffer) (hnext : σ'.next = σ.next)
    (hbuffers : σ'.buffers = σ.buffers) (hhead : σ'.head = σ.head)
    (hend : σ'.gPendingSendListEnd = σ.gPendingSendListEnd) (hflight : σ'.flight = σ.flight)
    (habandoned : σ'.abandoned = σ.abandoned) (hfailed : σ'.failedAccepts = σ.failedAccepts) :
    Buffers σ' L B where
  lists := by
    have hloose : σ'.loose = σ.loose := by
      funext i
      cases i <;> simp only [Server.loose, hfailed]
    rw [hloose]
    exact H.lists.congr hnext hhead
  last := hend.trans H.last
  nodup := by
    rw [places, hflight, habandoned]
    exact H.nodup
  exist := by
    rw [places, hflight, habandoned, hbuffers]
    exact H.exist
  pending l := by
    rw [hflight, habandoned]
    exact H.pending l
  contents := hbuffer ▸ H.contents
  operation := by
    rw [hflight, hbuffer]
    exact H.operation
  client := by
    rw [hflight, hbuffer]
    exact H.client
  queued := hbuffer ▸ H.queued

theorem drop (H : Buffers σ L (x ::ₘ B)) (hx : x.role.list = none) : Buffers σ L B where
  lists := H.lists
  last := H.last
  nodup := by
    have hnodup := H.nodup
    rw [places_cons, Multiset.nodup_cons] at hnodup
    exact hnodup.2
  exist b hb := H.exist b (by rw [places_cons]; exact Multiset.mem_cons_of_mem hb)
  pending l := by
    rw [← linkedTo_cons_none hx]
    exact H.pending l
  contents y hy := H.contents y (Multiset.mem_cons_of_mem hy)
  operation := H.operation
  client := H.client
  queued := H.queued

theorem write (H : Buffers σ L (x ::ₘ B)) {obj : BufferObj} {role : Role}
    (hlist : role.list = x.role.list) :
    Buffers (σ.setBuffer x.buf obj) L (⟨x.buf, obj, role⟩ ::ₘ B) := by
  have hx := H.exclusive
  rw [mem_places] at hx
  have hplaces : places (σ.setBuffer x.buf obj) L (⟨x.buf, obj, role⟩ ::ₘ B) =
      places σ L (x ::ₘ B) := by
    rw [places_cons, places_cons]
    rfl
  have hflight : ∀ op ∈ σ.flight, (σ.setBuffer x.buf obj).buffer op.buf = σ.buffer op.buf := by
    intro op hop
    exact Server.setBuffer_of_ne fun he => hx (.inr (.inr (.inl ⟨op, hop, he⟩)))
  refine ⟨H.lists, H.last, hplaces ▸ H.nodup, hplaces ▸ H.exist, fun l => ?_, ?_, ?_, ?_, ?_⟩
  · refine (H.pending l).trans (congrArg _ ?_)
    exact linkedTo_congr rfl hlist.symm
  · intro y hy
    rcases Multiset.mem_cons.mp hy with rfl | hy
    · exact Server.setBuffer_self
    · refine (Server.setBuffer_of_ne ?_).trans (H.contents y (Multiset.mem_cons_of_mem hy))
      exact fun he => hx (.inr (.inr (.inr (.inr ⟨y, hy, he⟩))))
  · intro op hop
    rw [hflight op hop]
    exact H.operation op hop
  · intro op hop
    rw [hflight op hop]
    exact H.client op hop
  · intro c hc
    have hne : c ≠ x.buf := fun he => hx (.inr (.inl (he ▸ hc)))
    rw [Server.setBuffer_of_ne hne]
    exact H.queued c hc

theorem recast (H : Buffers σ L (x ::ₘ B)) {role : Role} (hlist : role.list = x.role.list) :
    Buffers σ L (⟨x.buf, x.obj, role⟩ ::ₘ B) := by
  have hself : σ.setBuffer x.buf x.obj = σ := by
    rw [← H.contents x (Multiset.mem_cons_self _ _), Server.setBuffer, Function.update_eq_self]
  have hwrite : Buffers (σ.setBuffer x.buf x.obj) L (⟨x.buf, x.obj, role⟩ ::ₘ B) := H.write hlist
  rwa [hself] at hwrite

/-! The lists. -/

/-- A buffer that is in no place, or in the free list only, is handed out. -/
theorem hold {L' : Head → List Nat} {obj : BufferObj} (H : Buffers σ L B)
    (hlists : Lists σ'.next σ'.head σ'.loose L')
    (hqueue : L' .gPendingSendList = L .gPendingSendList)
    (hpending : ∀ l, L' (.PendingAccepts l) = L (.PendingAccepts l))
    (hplaces : places σ' L' (⟨b, obj, .blank⟩ ::ₘ B) = places σ L B ∨
      b ∉ places σ L B ∧ places σ' L' (⟨b, obj, .blank⟩ ::ₘ B) = b ::ₘ places σ L B)
    (hexist : b < σ'.buffers ∧ σ.buffers ≤ σ'.buffers)
    (hbuffer : σ'.buffer = Function.update σ.buffer b obj)
    (hend : σ'.gPendingSendListEnd = σ.gPendingSendListEnd) (hflight : σ'.flight = σ.flight)
    (habandoned : σ'.abandoned = σ.abandoned) : Buffers σ' L' (⟨b, obj, .blank⟩ ::ₘ B) := by
  have hnodup : (places σ' L' (⟨b, obj, .blank⟩ ::ₘ B)).Nodup := by
    rcases hplaces with hsame | ⟨hb, hnew⟩
    · exact hsame ▸ H.nodup
    · exact hnew ▸ Multiset.nodup_cons.mpr ⟨hb, H.nodup⟩
  have hb := hnodup
  rw [places_cons, Multiset.nodup_cons, mem_places, hqueue, hflight, habandoned] at hb
  have hother : ∀ c, c ≠ b → σ'.buffer c = σ.buffer c := by
    intro c hc
    rw [hbuffer, Function.update_of_ne hc]
  refine ⟨hlists, ?_, hnodup, ?_, fun l => ?_, ?_, ?_, ?_, ?_⟩
  · rw [hend, hqueue]
    exact H.last
  · intro c hc
    rcases hplaces with hsame | ⟨-, hnew⟩
    · exact Nat.lt_of_lt_of_le (H.exist c (hsame ▸ hc)) hexist.2
    · rw [hnew] at hc
      rcases Multiset.mem_cons.mp hc with rfl | hc
      · exact hexist.1
      · exact Nat.lt_of_lt_of_le (H.exist c hc) hexist.2
  · rw [hpending, hflight, habandoned, linkedTo_cons_none rfl]
    exact H.pending l
  · intro y hy
    rcases Multiset.mem_cons.mp hy with rfl | hy
    · rw [hbuffer]
      exact Function.update_self ..
    · rw [hother _ fun he => hb.1 (.inr (.inr (.inr (.inr ⟨y, hy, he⟩))))]
      exact H.contents y hy
  · intro op hop
    rw [hflight] at hop
    rw [hother _ fun he => hb.1 (.inr (.inr (.inl ⟨op, hop, he⟩)))]
    exact H.operation op hop
  · intro op hop
    rw [hflight] at hop
    rw [hother _ fun he => hb.1 (.inr (.inr (.inl ⟨op, hop, he⟩)))]
    exact H.client op hop
  · intro c hc
    rw [hqueue] at hc
    rw [hother _ fun he => hb.1 (.inr (.inl (he ▸ hc)))]
    exact H.queued c hc

/-- `GetBufferObj`; if the buffer is new, there is one more place. -/
theorem get {cfg : Config} (H : Buffers σ L B)
    (hget : σ.GetBufferObj cfg .ok = some (σ', some b)) :
    ∃ L' obj, Buffers σ' L' (⟨b, obj, .blank⟩ ::ₘ B) ∧
      L' .gPendingSendList = L .gPendingSendList ∧
      Multiset.card (places σ' L' (⟨b, obj, .blank⟩ ::ₘ B)) + σ.buffers =
        Multiset.card (places σ L B) + σ'.buffers := by
  unfold Server.GetBufferObj at hget
  cases hfree : σ.gFreeBufferList with
  | some c =>
      simp only [hfree] at hget
      cases hget
      have hhead : σ.head .gFreeBufferList = some b := hfree
      obtain ⟨l, hl, hpop⟩ := H.lists.pop (i := .gFreeBufferList) id hhead
      have hnotMem : ∀ i, b ∉ Function.update L .gFreeBufferList l i := by
        intro i hi
        by_cases hfirst : i = .gFreeBufferList
        · subst hfirst
          rw [Function.update_self] at hi
          exact (List.nodup_cons.mp (hl ▸ H.lists.nodup .gFreeBufferList)).1 hi
        · rw [Function.update_of_ne hfirst] at hi
          exact hfirst (H.lists.disjoint i _ b hi (by rw [hl]; exact List.mem_cons_self))
      have hb : b ∈ places σ L B := H.mem_places_of_mem (by rw [hl]; exact List.mem_cons_self)
      have hplaces : b ::ₘ places σ (Function.update L .gFreeBufferList l) B = places σ L B := by
        rw [places, places, hl, ← Multiset.cons_coe, Function.update_self]
        simp only [Multiset.cons_add]
        rfl
      refine ⟨Function.update L .gFreeBufferList l, _, H.hold ?_ rfl (fun _ => rfl)
        (.inl (places_cons.trans hplaces)) ⟨H.exist b hb, Nat.le_refl _⟩ rfl rfl rfl rfl, rfl,
        congrArg (Multiset.card · + _) (places_cons.trans hplaces)⟩
      exact (hpop.write hnotMem none).congr rfl (head_free rfl rfl fun _ => rfl)
  | none =>
      simp only [hfree] at hget
      cases hget
      have hnotMem : σ.buffers ∉ places σ L B := fun hb => Nat.lt_irrefl _ (H.exist _ hb)
      refine ⟨L, _, H.hold ?_ rfl (fun _ => rfl) (.inr ⟨hnotMem, places_cons⟩)
        ⟨Nat.lt_succ_self _, Nat.le_succ _⟩ rfl rfl rfl rfl, rfl, ?_⟩
      · have hlists := H.lists.write (fun i hi => hnotMem (H.mem_places_of_mem hi)) none
        exact hlists.congr rfl (head_same hfree.symm rfl fun _ => rfl)
      · rw [places_cons, Multiset.card_cons, add_assoc, add_comm 1]
        rfl

theorem unlisted {L' : Head → List Nat} (H : Buffers σ L (x ::ₘ B)) (hx : x.role.list = none)
    (hlists : Lists σ'.next σ'.head σ'.loose L')
    (hlast : σ'.gPendingSendListEnd = (L' .gPendingSendList).getLast?)
    (hplaces : places σ' L' B = places σ L (x ::ₘ B)) (hbuffers : σ'.buffers = σ.buffers)
    (hpending : ∀ l, L' (.PendingAccepts l) = L (.PendingAccepts l))
    (hbuffer : ∀ c, c ≠ x.buf → σ'.buffer c = σ.buffer c)
    (hqueued : ∀ c ∈ L' .gPendingSendList, c ∈ L .gPendingSendList ∨
      ∃ p, (σ'.buffer c).sock = some p)
    (hflight : σ'.flight = σ.flight) (habandoned : σ'.abandoned = σ.abandoned) :
    Buffers σ' L' B := by
  have hb := H.exclusive
  rw [mem_places] at hb
  refine ⟨hlists, hlast, hplaces ▸ H.nodup, ?_, fun l => ?_, ?_, ?_, ?_, ?_⟩
  · rw [hplaces, hbuffers]
    exact H.exist
  · rw [hpending, hflight, habandoned,
      ← linkedTo_cons_none hx]
    exact H.pending l
  · intro y hy
    rw [hbuffer _ fun he => hb (.inr (.inr (.inr (.inr ⟨y, hy, he⟩))))]
    exact H.contents y (Multiset.mem_cons_of_mem hy)
  · intro op hop
    rw [hflight] at hop
    rw [hbuffer _ fun he => hb (.inr (.inr (.inl ⟨op, hop, he⟩)))]
    exact H.operation op hop
  · intro op hop
    rw [hflight] at hop
    rw [hbuffer _ fun he => hb (.inr (.inr (.inl ⟨op, hop, he⟩)))]
    exact H.client op hop
  · intro c hc
    rcases hqueued c hc with hold | hnew
    · rw [hbuffer _ fun he => hb (.inr (.inl (he ▸ hold)))]
      exact H.queued c hold
    · exact hnew

theorem free {cfg : Config} (H : Buffers σ L (x ::ₘ B)) (hx : x.role.list = none) :
    Buffers (σ.FreeBufferObj cfg x.buf)
      (Function.update L .gFreeBufferList (x.buf :: L .gFreeBufferList)) B := by
  refine H.unlisted hx ?_ H.last ?_ rfl (fun _ => rfl)
    (fun c hc => Server.setBuffer_of_ne hc) (fun c hc => .inl hc) rfl rfl
  · have hpush := H.lists.push (H.loose_of_none hx) .gFreeBufferList
    exact hpush.congr rfl (head_free rfl rfl fun _ => rfl)
  · rw [places_cons, places, places, Function.update_self, ← Multiset.cons_coe]
    simp only [Multiset.cons_add]
    rfl

theorem enqueue (H : Buffers σ L (x ::ₘ B)) (hx : x.role.list = none)
    (henqueue : σ.EnqueuePendingOperation x.buf = some σ') :
    Buffers σ' (Function.update L .gPendingSendList (L .gPendingSendList ++ [x.buf])) B := by
  have hplaces : ((L .gPendingSendList ++ [x.buf] : List Nat) : Multiset Nat) =
      x.buf ::ₘ (L .gPendingSendList : Multiset Nat) := by
    rw [← Multiset.coe_add, Multiset.coe_singleton, ← Multiset.singleton_add, add_comm]
  obtain ⟨p, hp, rfl⟩ := Option.map_eq_some_iff.mp henqueue
  have hqueued : ∀ c ∈ L .gPendingSendList ++ [x.buf],
      c ∈ L .gPendingSendList ∨ ∃ p, (σ.buffer c).sock = some p := by
    intro c hc
    rcases List.mem_append.mp hc with hc | hc
    · exact .inl hc
    · exact .inr ⟨p, List.mem_singleton.mp hc ▸ hp⟩
  have hlast := H.last
  cases hend : σ.gPendingSendListEnd with
  | some e =>
      simp only [Server.setSocket, hend]
      refine H.unlisted hx ?_ (by simp) ?_ rfl (fun _ => rfl) (fun _ _ => rfl) hqueued rfl rfl
      · have happend := H.lists.append (i := .gPendingSendList) id (H.loose_of_none hx)
          (hlast.symm.trans hend)
        exact happend.congr rfl (head_same rfl rfl fun _ => rfl)
      · rw [places_cons, places, places, Function.update_self, hplaces]
        simp only [Multiset.cons_add, Multiset.add_cons]
        rfl
  | none =>
      have hnil : L .gPendingSendList = [] :=
        List.getLast?_eq_none_iff.mp (hlast.symm.trans hend)
      have hhead : σ.head .gPendingSendList = none := by
        have hchain := H.lists.chain .gPendingSendList id
        rwa [hnil] at hchain
      simp only [Server.setSocket, hend]
      refine H.unlisted hx ?_ (by simp) ?_ rfl (fun _ => rfl) (fun _ _ => rfl) hqueued rfl rfl
      · have hpush := H.lists.push (H.loose_of_none hx) .gPendingSendList
        have hlist : L .gPendingSendList ++ [x.buf] = x.buf :: L .gPendingSendList := by
          rw [hnil]
          rfl
        rw [hhead] at hpush
        rw [hlist]
        exact hpush.congr rfl (head_queue rfl rfl fun _ => rfl)
      · rw [places_cons, places, places, Function.update_self, hplaces]
        simp only [Multiset.cons_add, Multiset.add_cons]
        rfl

theorem dequeue (H : Buffers σ L B) (hdequeue : σ.DequeuePendingOperation = some (σ', some b))
    {r : Role} (hrole : r.list = none) :
    ∃ l, L .gPendingSendList = b :: l ∧
      Buffers σ' (Function.update L .gPendingSendList l) (⟨b, σ.buffer b, r⟩ ::ₘ B) := by
  unfold Server.DequeuePendingOperation at hdequeue
  cases hqueue : σ.gPendingSendList with
  | none =>
      simp only [hqueue] at hdequeue
      cases hdequeue
  | some c =>
      simp only [hqueue] at hdequeue
      obtain ⟨p, hp, heq⟩ := Option.map_eq_some_iff.mp hdequeue
      cases heq
      have hhead : σ.head .gPendingSendList = some b := hqueue
      obtain ⟨l, hl, hpop⟩ := H.lists.pop (i := .gPendingSendList) id hhead
      have hplaces : places σ (Function.update L .gPendingSendList l) (⟨b, σ.buffer b, r⟩ ::ₘ B) =
          places σ L B := by
        rw [places_cons, places, places, hl, Function.update_self, ← Multiset.cons_coe]
        simp only [Multiset.cons_add, Multiset.add_cons]
        rfl
      refine ⟨l, hl, ⟨hpop.congr rfl (head_queue rfl rfl fun _ => rfl), ?_, hplaces ▸ H.nodup,
        hplaces ▸ H.exist, fun k => ?_, ?_, H.operation, H.client, ?_⟩⟩
      · have hchain := hpop.chain .gPendingSendList id
        rw [Function.update_self, Function.update_self] at hchain
        have hlast := H.last
        cases l with
        | nil =>
            have hnone : σ.next b = none := hchain
            simp [Server.setSocket, hnone]
        | cons d l =>
            rw [hl, List.getLast?_cons_cons] at hlast
            simp [Server.setSocket, hchain.1, hlast]
      · refine (H.pending k).trans (congrArg _ ?_)
        exact (linkedTo_cons_none hrole).symm
      · intro y hy
        rcases Multiset.mem_cons.mp hy with rfl | hy
        · rfl
        · exact H.contents y hy
      · intro c hc
        rw [Function.update_self] at hc
        exact H.queued c (by rw [hl]; exact List.mem_cons_of_mem b hc)

theorem insert (H : Buffers σ L (x ::ₘ B)) (hx : x.role.list = none) (l : Nat) :
    Buffers (σ.InsertPendingAccept l x.buf)
      (Function.update L (.PendingAccepts l) (x.buf :: L (.PendingAccepts l)))
      (⟨x.buf, x.obj, .linked l⟩ ::ₘ B) := by
  have hplaces : places σ (Function.update L (.PendingAccepts l) (x.buf :: L (.PendingAccepts l)))
      (⟨x.buf, x.obj, .linked l⟩ ::ₘ B) = places σ L (x ::ₘ B) := by
    rw [places_cons, places_cons]
    rfl
  refine ⟨?_, H.last, hplaces ▸ H.nodup, hplaces ▸ H.exist, fun k => ?_, ?_, H.operation,
    H.client, H.queued⟩
  · have hpush := H.lists.push (H.loose_of_none hx) (.PendingAccepts l)
    refine hpush.congr rfl (head_pending rfl rfl ?_ fun k hk => ?_)
    · exact congrArg _ Server.setListen_self
    · exact congrArg _ (Server.setListen_of_ne hk)
  · have hpending := H.pending k
    rw [linkedTo_cons_none hx] at hpending
    by_cases hk : k = l
    · subst hk
      rw [Function.update_self, linkedTo_cons_self rfl, ← Multiset.cons_coe, hpending,
        Multiset.add_cons]
      rfl
    · rw [Function.update_of_ne fun he => hk (Head.PendingAccepts.inj he),
        linkedTo_cons (x := ⟨x.buf, x.obj, .linked l⟩) fun he => hk (Option.some.inj he).symm,
        hpending]
      rfl
  · intro y hy
    rcases Multiset.mem_cons.mp hy with rfl | hy
    · exact H.contents x (Multiset.mem_cons_self _ _)
    · exact H.contents y (Multiset.mem_cons_of_mem hy)

theorem length_le (H : Buffers σ L B) (i : Head) : (L i).length ≤ σ.buffers := by
  have hsub : L i ⊆ List.range σ.buffers := fun b hb =>
    List.mem_range.mpr (H.exist b (H.mem_places_of_mem hb))
  have hle := ((H.lists.nodup i).subperm hsub).length_le
  rwa [List.length_range] at hle

theorem leave (H : Buffers σ L (x ::ₘ B)) (hx : x.role.list = some l) {role : Role}
    (hrole : role.list = none)
    (hlists : Lists σ'.next σ'.head σ'.loose
      (Function.update L (.PendingAccepts l) ((L (.PendingAccepts l)).erase x.buf)))
    (hbuffer : σ'.buffer = σ.buffer) (hbuffers : σ'.buffers = σ.buffers)
    (hend : σ'.gPendingSendListEnd = σ.gPendingSendListEnd) (hflight : σ'.flight = σ.flight)
    (habandoned : σ'.abandoned = σ.abandoned) : Buffers σ'
      (Function.update L (.PendingAccepts l) ((L (.PendingAccepts l)).erase x.buf))
      (⟨x.buf, x.obj, role⟩ ::ₘ B) := by
  have hplaces : places σ'
      (Function.update L (.PendingAccepts l) ((L (.PendingAccepts l)).erase x.buf))
      (⟨x.buf, x.obj, role⟩ ::ₘ B) = places σ L (x ::ₘ B) := by
    rw [places_cons, places_cons, places, places, hflight, habandoned]
    rfl
  refine ⟨hlists, ?_, hplaces ▸ H.nodup, ?_, fun k => ?_, ?_, ?_, ?_, ?_⟩
  · exact hend.trans H.last
  · rw [hplaces, hbuffers]
    exact H.exist
  · have hpending := H.pending k
    rw [hflight, habandoned, linkedTo_cons_none hrole]
    by_cases hk : k = l
    · subst hk
      rw [linkedTo_cons_self hx, Multiset.add_cons] at hpending
      rw [Function.update_self, ← Multiset.coe_erase, hpending, Multiset.erase_cons_head]
    · rw [linkedTo_cons fun he => hk (Option.some.inj (he.symm.trans hx))] at hpending
      rw [Function.update_of_ne fun he => hk (Head.PendingAccepts.inj he), hpending]
  · intro y hy
    rw [hbuffer]
    rcases Multiset.mem_cons.mp hy with rfl | hy
    · exact H.contents x (Multiset.mem_cons_self _ _)
    · exact H.contents y (Multiset.mem_cons_of_mem hy)
  · rw [hflight, hbuffer]
    exact H.operation
  · rw [hflight, hbuffer]
    exact H.client
  · rw [hbuffer]
    exact H.queued

theorem remove (H : Buffers σ L (x ::ₘ B)) (hx : x.role.list = some l) {r : Role}
    (hrole : r.list = none) (hremove : σ.RemovePendingAccept l x.buf = some σ') :
    Buffers σ' (Function.update L (.PendingAccepts l) ((L (.PendingAccepts l)).erase x.buf))
      (⟨x.buf, x.obj, r⟩ ::ₘ B) := by
  have hmem : x.buf ∈ L (.PendingAccepts l) := by
    have hself : x.buf ∈ (L (.PendingAccepts l) : Multiset Nat) := by
      rw [H.pending l, linkedTo_cons_self hx, Multiset.add_cons]
      exact Multiset.mem_cons_self _ _
    exact hself
  obtain ⟨prev, hbefore, hlists⟩ := H.lists.unlink hmem (H.length_le _)
  obtain ⟨prev', hbefore', rfl⟩ := Option.map_eq_some_iff.mp hremove
  obtain rfl : prev = prev' := Option.some.inj (hbefore.symm.trans hbefore')
  cases prev with
  | some a =>
      exact H.leave hx hrole (hlists.congr rfl (head_same rfl rfl fun _ => rfl)) rfl rfl rfl rfl rfl
  | none =>
      refine H.leave hx hrole (hlists.congr rfl (head_pending rfl rfl ?_ fun k hk => ?_))
        rfl rfl rfl rfl rfl
      · exact congrArg _ Server.setListen_self
      · exact congrArg _ (Server.setListen_of_ne hk)

/-- The only buffer that a thread holds is the last of its list if it is the oldest. -/
theorem last_of_oldest (H : Buffers { σ with flight := σ.flight.erase op } L (x ::ₘ 0))
    (hx : x.role.list = some l) (hold : σ.Oldest (.listen l) x.buf) :
    ∃ l₁, L (.PendingAccepts l) = l₁ ++ [x.buf] := by
  have hpending := H.pending l
  rw [linkedTo_cons_self hx, Multiset.add_cons] at hpending
  have hmem : x.buf ∈ (L (.PendingAccepts l) : Multiset Nat) := by
    rw [hpending]
    exact Multiset.mem_cons_self _ _
  obtain ⟨l₁, l₂, hL⟩ := List.append_of_mem (Multiset.mem_coe.mp hmem)
  have hnodup := hL ▸ H.lists.nodup (.PendingAccepts l)
  have hlength := hL ▸ H.length_le (.PendingAccepts l)
  rw [List.length_append] at hlength
  obtain ⟨-, hcons, hdisjoint⟩ := List.nodup_append.mp hnodup
  have hnewer : σ.newer l x.buf = l₁ := by
    obtain ⟨q, hq, -⟩ := H.lists.segment (.PendingAccepts l)
    refine (hL ▸ hq).upTo_eq (fun hmem => hdisjoint _ hmem _ List.mem_cons_self rfl) ?_
    exact Nat.le_trans (Nat.le_add_right _ _) hlength
  refine ⟨l₁, ?_⟩
  rw [hL]
  cases l₂ with
  | nil => rfl
  | cons c l₂ =>
      -- `c` would be older
      have hne : c ≠ x.buf := fun he => (List.nodup_cons.mp hcons).1 (he ▸ List.mem_cons_self)
      have hnot : c ∉ l₁ := fun hc => hdisjoint c hc c (by simp) rfl
      have hc : c ∈ (L (.PendingAccepts l) : Multiset Nat) := by simp [hL]
      rw [hpending, Multiset.mem_cons, linkedTo, Multiset.filter_zero, Multiset.map_zero,
        add_zero, Multiset.mem_add] at hc
      rcases hc.resolve_left hne with hc | hc
      · obtain ⟨op', hop', rfl⟩ := List.mem_map.mp hc
        obtain ⟨hop', hlist⟩ := List.mem_filter.mp hop'
        have hkey := Key.list_eq_some.mp (of_decide_eq_true hlist)
        rcases hold.1 op' (List.mem_of_mem_erase hop') hkey with he | hc
        · exact absurd he hne
        · exact absurd (hnewer ▸ hc) hnot
      · obtain ⟨a, ha, rfl⟩ := List.mem_map.mp hc
        obtain ⟨ha, hlist⟩ := List.mem_filter.mp ha
        rcases hold.2 a ha (of_decide_eq_true hlist) with he | hc
        · exact absurd he hne
        · exact absurd (hnewer ▸ hc) hnot

/-- The buffer is the last of its list, which from now on ends in it. -/
theorem forsake {l₁ : List Nat} {r : Role} (H : Buffers σ L (x ::ₘ B))
    (hx : x.role.list = some l) (hrole : r.list = none)
    (hlast : L (.PendingAccepts l) = l₁ ++ [x.buf]) :
    Buffers { σ with
      failedAccepts := Function.update σ.failedAccepts l (σ.failedAccepts l + 1) }
      (Function.update L (.PendingAccepts l) ((L (.PendingAccepts l)).erase x.buf))
      (⟨x.buf, x.obj, r⟩ ::ₘ B) := by
  refine H.leave hx hrole ?_ rfl rfl rfl rfl rfl
  have herase : (L (.PendingAccepts l)).erase x.buf = l₁ := by
    have hnodup := hlast ▸ H.lists.nodup (.PendingAccepts l)
    rw [hlast, erase_middle hnodup, List.append_nil]
  rw [herase]
  refine H.lists.cut hlast (fun i hi => ?_) ?_
  · cases i with
    | PendingAccepts k =>
        by_cases hk : k = l
        · subst hk
          simp [Server.loose]
        · simpa [Server.loose, Function.update_of_ne hk] using hi
    | _ => exact hi
  · simp [Server.loose]

/-! Operations in flight. -/

theorem abandon (H : Buffers σ L (x ::ₘ B)) (hx : x.role.list = some l) :
    Buffers { σ with abandoned := (l, x.buf) :: σ.abandoned } L B := by
  have hplaces : places { σ with abandoned := (l, x.buf) :: σ.abandoned } L B =
      places σ L (x ::ₘ B) := by
    rw [places_cons, places, places, List.map_cons, ← Multiset.cons_coe]
    simp only [Multiset.cons_add, Multiset.add_cons]
  refine ⟨H.lists, H.last, hplaces ▸ H.nodup, hplaces ▸ H.exist, fun k => ?_,
    fun y hy => H.contents y (Multiset.mem_cons_of_mem hy), H.operation, H.client, H.queued⟩
  have hpending := H.pending k
  by_cases hk : l = k
  · subst hk
    rw [hpending, linkedTo_cons_self hx, leftBehind_cons, Multiset.add_cons, Multiset.add_cons,
      Multiset.cons_add]
  · rw [hpending, linkedTo_cons fun he => hk (Option.some.inj (hx.symm.trans he)),
      leftBehind_cons_ne hk]

theorem post {op : Op} (H : Buffers σ L (x ::ₘ B)) (hbuf : op.buf = x.buf)
    (hlist : op.key.list = x.role.list) (hoperation : x.obj.operation = op.operation)
    (hclient : op.operation = .OP_ACCEPT → x.obj.sclient = some op.s) :
    Buffers { σ with flight := op :: σ.flight } L B := by
  have hx := H.contents x (Multiset.mem_cons_self _ _)
  have hplaces : places { σ with flight := op :: σ.flight } L B = places σ L (x ::ₘ B) := by
    rw [places_cons, places, places, List.map_cons, ← Multiset.cons_coe, hbuf]
    simp only [Multiset.cons_add, Multiset.add_cons]
  refine ⟨H.lists, H.last, hplaces ▸ H.nodup, hplaces ▸ H.exist, fun k => ?_,
    fun y hy => H.contents y (Multiset.mem_cons_of_mem hy), ?_, ?_, H.queued⟩
  · have hpending := H.pending k
    by_cases hk : op.key.list = some k
    · rw [hpending, linkedTo_cons_self (hlist.symm.trans hk), accepting_cons hk, hbuf,
        Multiset.add_cons, Multiset.cons_add, Multiset.cons_add]
    · rw [hpending, linkedTo_cons (hlist ▸ hk), accepting_cons_ne hk]
  · intro op' hop'
    rcases List.mem_cons.mp hop' with rfl | hop'
    · rw [hbuf, hx]
      exact hoperation
    · exact H.operation op' hop'
  · intro op' hop' haccept
    rcases List.mem_cons.mp hop' with rfl | hop'
    · rw [hbuf, hx]
      exact hclient haccept
    · exact H.client op' hop' haccept

/-- An operation completes: a thread holds its buffer. -/
theorem complete {op : Op} (H : Buffers σ L B) (hop : op ∈ σ.flight) {r : Role}
    (hlist : r.list = op.key.list) :
    Buffers { σ with flight := σ.flight.erase op } L
      (⟨op.buf, σ.buffer op.buf, r⟩ ::ₘ B) := by
  have hperm := List.perm_cons_erase hop
  have hplaces : places { σ with flight := σ.flight.erase op } L
      (⟨op.buf, σ.buffer op.buf, r⟩ ::ₘ B) = places σ L B := by
    have hflight : (σ.flight.map Op.buf : Multiset Nat) =
        op.buf ::ₘ ((σ.flight.erase op).map Op.buf : Multiset Nat) := by
      rw [Multiset.cons_coe, Multiset.coe_eq_coe]
      exact hperm.map Op.buf
    rw [places_cons, places, places, hflight]
    simp only [Multiset.cons_add, Multiset.add_cons]
  refine ⟨H.lists, H.last, hplaces ▸ H.nodup, hplaces ▸ H.exist, fun k => ?_, ?_,
    fun op' hop' => H.operation op' (List.mem_of_mem_erase hop'),
    fun op' hop' => H.client op' (List.mem_of_mem_erase hop'), H.queued⟩
  · rw [H.pending k, accepting_perm hperm]
    by_cases hk : op.key.list = some k
    · rw [accepting_cons hk, linkedTo_cons_self (hlist.trans hk), Multiset.add_cons,
        Multiset.cons_add, Multiset.cons_add]
    · rw [accepting_cons_ne hk, linkedTo_cons (x := ⟨op.buf, σ.buffer op.buf, r⟩)
        (hlist ▸ hk)]
  · intro y hy
    rcases Multiset.mem_cons.mp hy with rfl | hy
    · rfl
    · exact H.contents y hy

end Buffers

end CppWorkspace.ThrottledServer
