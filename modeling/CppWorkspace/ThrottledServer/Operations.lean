/-
# `CppWorkspace.ThrottledServer.Operations` — what operations on buffers do to the world

    get, free, enqueue, dequeue, insert, remove     the lists
    write                                           the fields of a buffer
    connect, newClient, closeClient                 client sockets and connections
    acceptEx, wsaRecv, wsaSend                      posting
    complete...                                     the beginning of an event

Each is stated for a thread that holds the buffer.  What comes in is put into the seat
or the guest of the operation, and leaves it in `wsaSend`.
-/
import CppWorkspace.ThrottledServer.World

namespace CppWorkspace.ThrottledServer

open Programs Runs LinkedList

variable {cfg : Config} {F : Regime} {σ σ' : Server} {L L' : Head → List Nat}
  {B B' : Multiset Hold} {U U' : Multiset Use} {O : Var → Int} {d d' : Nat} {x y : Hold} {u : Use}
  {queue queue' : List Nat} {b l h : Nat} {p : SockPtr} {cs : List Chunk} {role : Role}

namespace World

theorem more (H : World cfg F σ B U O d) (hd : d ≤ d') : World cfg F σ B U O d' := by
  refine ⟨H.accepts, fun hlists => ?_⟩
  obtain ⟨L, hL⟩ := H.listed hlists
  refine ⟨L, hL.buffers, hL.sends, hL.sockets, hL.quiet, fun hdrain => ?_⟩
  exact (hL.drained hdrain).imp_right (.imp_right fun hpos => Nat.lt_of_lt_of_le hpos hd)

theorem shuffle (H : World cfg F σ B U O d)
    (hcount : ∀ l, (σ'.listen l).PendingAcceptCount = (σ.listen l).PendingAcceptCount)
    (hfailed : σ'.failedAccepts = σ.failedAccepts)
    (houtstanding : σ'.gOutstandingSends = σ.gOutstandingSends)
    (hfailedSends : σ'.failedSends = σ.failedSends) (hsockets : SameSockets σ σ')
    (hlists : ∀ L, Buffers σ L B → ∃ L', Buffers σ' L' B' ∧
      Shed (F = .quiet) (seats σ (L .gPendingSendList) B) (seats σ' (L' .gPendingSendList) B')
        (guests σ B) (guests σ' B') ∧
      ((L .gPendingSendList = [] → L' .gPendingSendList = []) ∨ 0 < d)) :
    World cfg F σ' B' U O d := by
  have hflight := hsockets.2.1
  refine ⟨H.accepts.same hcount hflight hfailed, fun hl => ?_⟩
  obtain ⟨L, hL⟩ := H.listed hl
  obtain ⟨L', hbuffers, hshed, hqueue⟩ := hlists L hL.buffers
  refine ⟨L', hbuffers, hL.sends.same houtstanding hflight hfailedSends,
    fun hs => (hL.sockets hs).move hsockets hshed, fun hq => ?_, fun hd => ?_⟩
  · rw [hsockets.1]
    exact hL.quiet hq
  · rw [Drained, houtstanding]
    rcases hqueue with hqueue | hpos
    · exact (hL.drained hd).imp_left hqueue
    · exact .inr (.inr hpos)

/-! ## The lists -/

theorem get (H : World cfg F σ B U O d)
    (hget : σ.GetBufferObj cfg .ok = some (σ', some b)) :
    World cfg F σ' (⟨b, σ'.buffer b, .blank⟩ ::ₘ B) U O d := by
  have hframe : (∀ l, σ'.listen l = σ.listen l) ∧ σ'.failedAccepts = σ.failedAccepts ∧
      σ'.gOutstandingSends = σ.gOutstandingSends ∧ σ'.failedSends = σ.failedSends ∧
      SameSockets σ σ' ∧ ∀ c, c ≠ b → σ'.buffer c = σ.buffer c := by
    unfold Server.GetBufferObj at hget
    cases hfree : σ.gFreeBufferList with
    | some c =>
        simp only [hfree] at hget
        cases hget
        exact ⟨fun _ => rfl, rfl, rfl, rfl,
          ⟨rfl, rfl, rfl, rfl, rfl, rfl, rfl, rfl, rfl, rfl, rfl⟩,
          fun c hc => Server.setBuffer_of_ne hc⟩
    | none =>
        simp only [hfree] at hget
        cases hget
        exact ⟨fun _ => rfl, rfl, rfl, rfl,
          ⟨rfl, rfl, rfl, rfl, rfl, rfl, rfl, rfl, rfl, rfl, rfl⟩,
          fun c hc => Server.setBuffer_of_ne hc⟩
  obtain ⟨hlisten, hfailed, houtstanding, hfailedSends, hsockets, hbuffer⟩ := hframe
  refine H.shuffle (fun l => by rw [hlisten]) hfailed houtstanding hfailedSends hsockets
    fun L hL => ?_
  obtain ⟨L', obj, hbuffers, hqueue, -⟩ := hL.get hget
  have hobj : σ'.buffer b = obj := hbuffers.contents _ (Multiset.mem_cons_self _ _)
  refine ⟨L', hobj.symm ▸ hbuffers, Shed.of_eq ?_ ?_, .inl fun hnil => hqueue.trans hnil⟩
  · rw [seats_hold_none (x := ⟨b, σ'.buffer b, .blank⟩) rfl, hqueue]
    refine seats_same hsockets.2.1 fun c hc => hbuffer c ?_
    rintro rfl
    exact hbuffers.not_queued (hqueue ▸ hc)
  · rw [guests_hold_none (x := ⟨b, σ'.buffer b, .blank⟩) rfl, guests_same hsockets.2.1]

theorem free (H : World cfg F σ (x ::ₘ B) U O d) (hx : x.role.list = none)
    (hspent : F = .quiet → x.role.Spent) :
    World cfg F (σ.FreeBufferObj cfg x.buf) B U O d := by
  refine H.shuffle (fun _ => rfl) rfl rfl rfl
    ⟨rfl, rfl, rfl, rfl, rfl, rfl, rfl, rfl, rfl, rfl, rfl⟩ fun L hL => ?_
  refine ⟨_, hL.free hx, ?_, .inl fun hnil => hnil⟩
  have hsame : seats (σ.FreeBufferObj cfg x.buf) (L .gPendingSendList) B =
      seats σ (L .gPendingSendList) B := by
    refine seats_same rfl fun c hc => Server.setBuffer_of_ne ?_
    rintro rfl
    exact hL.not_queued hc
  change Shed _ _ (seats (σ.FreeBufferObj cfg x.buf) (L .gPendingSendList) B) _ (guests σ B)
  rw [hsame]
  exact Shed.hold hspent

theorem setPendingSend {n : Int} {k : Nat} (H : World cfg F σ B U O d) :
    World cfg F (σ.setSocket k { σ.socket k with PendingSend := n }) B U O d := by
  refine H.setSocket (fun _ hopen => hopen) fun queue hs => ?_
  have howners : SameOwners σ (σ.setSocket k { σ.socket k with PendingSend := n }) :=
    SameOwners.setSocket rfl rfl rfl
  refine hs.setSocket howners rfl (hs.users.relock howners (fun o => ?_) fun hmem => ?_)
  · cases o <;> rfl
  · obtain ⟨v, hv, hobj⟩ := Multiset.mem_map.mp hmem
    obtain ⟨hv, hlocked⟩ := Multiset.mem_filter.mp hv
    exact hobj ▸ (hs.users.each v hv).lock hlocked

end World

theorem pendingAcceptCount_setListen {f : ListenObj} {k : Nat}
    (hf : f.PendingAcceptCount = (σ.listen l).PendingAcceptCount) :
    ((σ.setListen l f).listen k).PendingAcceptCount = (σ.listen k).PendingAcceptCount := by
  by_cases hk : k = l
  · subst hk
    rw [Server.setListen_self, hf]
  · rw [Server.setListen_of_ne hk]

theorem enqueue_spec (h : σ.EnqueuePendingOperation b = some σ') :
    ∃ p next first last, (σ.buffer b).sock = some p ∧
      σ' = { σ with next := next, gPendingSendList := first, gPendingSendListEnd := last }.setSocket
        p.obj { σ.socket p.obj with PendingSend := (σ.socket p.obj).PendingSend + 1 } := by
  obtain ⟨p, hp, rfl⟩ := Option.map_eq_some_iff.mp h
  simp only [Server.setSocket]
  cases hend : σ.gPendingSendListEnd with
  | some e => exact ⟨p, _, _, _, hp, rfl⟩
  | none => exact ⟨p, _, _, _, hp, rfl⟩

theorem dequeue_spec (h : σ.DequeuePendingOperation = some (σ', some b)) :
    ∃ p first last, (σ.buffer b).sock = some p ∧
      σ' = { σ with gPendingSendList := first, gPendingSendListEnd := last }.setSocket
        p.obj { σ.socket p.obj with PendingSend := (σ.socket p.obj).PendingSend - 1 } := by
  unfold Server.DequeuePendingOperation at h
  cases hqueue : σ.gPendingSendList with
  | some c =>
      simp only [hqueue] at h
      obtain ⟨p, hp, heq⟩ := Option.map_eq_some_iff.mp h
      cases heq
      exact ⟨p, _, _, hp, rfl⟩
  | none =>
      simp only [hqueue] at h
      cases h

namespace World

theorem enqueue (H : World cfg F σ (x ::ₘ B) U O d) (hx : x.role = .seat p true [x.obj.chunk])
    (hsock : x.obj.sock = some p) (hd : 0 < d)
    (henqueue : σ.EnqueuePendingOperation x.buf = some σ') : World cfg F σ' B U O d := by
  obtain ⟨p', next, first, last, -, rfl⟩ := enqueue_spec henqueue
  refine setPendingSend (σ := { σ with
    next := next, gPendingSendList := first, gPendingSendListEnd := last }) ?_
  refine H.shuffle (fun _ => rfl) rfl rfl rfl
    ⟨rfl, rfl, rfl, rfl, rfl, rfl, rfl, rfl, rfl, rfl, rfl⟩ fun L hL => ?_
  have hseat : x.role.toSeat = some ⟨p, true, [x.obj.chunk]⟩ := by rw [hx]; rfl
  have hbuffer : (σ.buffer x.buf).toSeat = some ⟨p, true, [x.obj.chunk]⟩ := by
    rw [hL.contents x (Multiset.mem_cons_self _ _), BufferObj.toSeat, hsock]
    rfl
  have hwait := hL.enqueue (by rw [hx]; rfl) henqueue
  refine ⟨_, hwait.same rfl rfl rfl rfl rfl rfl rfl rfl, Shed.of_eq ?_ ?_, .inr hd⟩
  · rw [Function.update_self, seats_hold hseat]
    exact seats_enqueue hbuffer
  · exact (guests_hold_none (by rw [hx]; rfl)).symm

theorem dequeue (H : World cfg F σ B U O d)
    (hdequeue : σ.DequeuePendingOperation = some (σ', some b)) :
    ∃ p, (σ'.buffer b).sock = some p ∧
      World cfg F σ' (⟨b, σ'.buffer b, .seat p true [(σ'.buffer b).chunk]⟩ ::ₘ B) U O d := by
  obtain ⟨p, first, last, hp, rfl⟩ := dequeue_spec hdequeue
  refine ⟨p, hp, ?_⟩
  refine setPendingSend (σ := { σ with gPendingSendList := first, gPendingSendListEnd := last }) ?_
  refine H.shuffle (fun _ => rfl) rfl rfl rfl
    ⟨rfl, rfl, rfl, rfl, rfl, rfl, rfl, rfl, rfl, rfl, rfl⟩ fun L hL => ?_
  obtain ⟨queue, hqueue, hgone⟩ := hL.dequeue hdequeue
    (show (Role.seat p true [(σ.buffer b).chunk]).list = _ from rfl)
  refine ⟨_, hgone.same rfl rfl rfl rfl rfl rfl rfl rfl, Shed.of_eq ?_ ?_, .inl fun hnil => ?_⟩
  · rw [Function.update_self, hqueue, seats_dequeue (b := b) (q := ⟨p, true, [(σ.buffer b).chunk]⟩)
      (by rw [BufferObj.toSeat, hp]; rfl)]
    exact seats_hold rfl
  · exact guests_hold_none rfl
  · rw [hnil] at hqueue
    cases hqueue

theorem insert (H : World cfg F σ (x ::ₘ B) U O d) (hx : x.role = .blank) :
    World cfg F (σ.InsertPendingAccept l x.buf) (⟨x.buf, x.obj, .linked l⟩ ::ₘ B) U O d := by
  refine H.shuffle (fun k => ?_) rfl rfl rfl
    ⟨rfl, rfl, rfl, rfl, rfl, rfl, rfl, rfl, rfl, rfl, rfl⟩ fun L hL => ?_
  · exact pendingAcceptCount_setListen (σ := { σ with next := _ }) rfl
  · refine ⟨_, hL.insert (by rw [hx]; rfl) l, Shed.of_eq ?_ ?_, .inl fun hnil => hnil⟩
    · exact (seats_hold_none rfl).trans (seats_hold_none (by rw [hx]; rfl)).symm
    · exact (guests_hold_none rfl).trans (guests_hold_none (by rw [hx]; rfl)).symm

theorem remove (H : World cfg F σ (x ::ₘ B) U O d) (hx : x.role = .accept l h cs)
    (hremove : σ.RemovePendingAccept l x.buf = some σ') :
    World cfg F σ' (⟨x.buf, x.obj, .guest h cs⟩ ::ₘ B) U O d := by
  have hframe : (∀ l, (σ'.listen l).PendingAcceptCount = (σ.listen l).PendingAcceptCount) ∧
      σ'.failedAccepts = σ.failedAccepts ∧ σ'.gOutstandingSends = σ.gOutstandingSends ∧
      σ'.failedSends = σ.failedSends ∧ SameSockets σ σ' ∧ σ'.buffer = σ.buffer := by
    obtain ⟨prev, -, rfl⟩ := Option.map_eq_some_iff.mp hremove
    cases prev with
    | some a =>
        exact ⟨fun _ => rfl, rfl, rfl, rfl,
          ⟨rfl, rfl, rfl, rfl, rfl, rfl, rfl, rfl, rfl, rfl, rfl⟩, rfl⟩
    | none =>
        exact ⟨fun k => pendingAcceptCount_setListen rfl, rfl, rfl, rfl,
          ⟨rfl, rfl, rfl, rfl, rfl, rfl, rfl, rfl, rfl, rfl, rfl⟩, rfl⟩
  obtain ⟨hcount, hfailed, houtstanding, hfailedSends, hsockets, hbuffer⟩ := hframe
  refine H.shuffle hcount hfailed houtstanding hfailedSends hsockets fun L hL => ?_
  have hguest : x.role.toGuest = some (h, cs) := by rw [hx]; rfl
  refine ⟨_, hL.remove (by rw [hx]; rfl) rfl hremove, Shed.of_eq ?_ ?_,
    .inl fun hnil => hnil⟩
  · rw [seats_hold_none rfl, seats_hold_none (x := x) (by rw [hx]; rfl)]
    exact seats_same hsockets.2.1 fun _ _ => by rw [hbuffer]
  · rw [guests_hold hguest]
    exact (guests_hold rfl).trans (congrArg _ (guests_same hsockets.2.1))

/-! ## The fields of a buffer -/

theorem setBuffer {obj : BufferObj} (H : World cfg F σ (x ::ₘ B) U O d) :
    World cfg F (σ.setBuffer x.buf obj) (⟨x.buf, obj, x.role⟩ ::ₘ B) U O d := by
  refine H.shuffle (fun _ => rfl) rfl rfl rfl
    ⟨rfl, rfl, rfl, rfl, rfl, rfl, rfl, rfl, rfl, rfl, rfl⟩ fun L hL => ?_
  have hsame : seats (σ.setBuffer x.buf obj) (L .gPendingSendList) B =
      seats σ (L .gPendingSendList) B := by
    refine seats_same rfl fun c hc => Server.setBuffer_of_ne ?_
    rintro rfl
    exact hL.not_queued hc
  refine ⟨L, hL.write rfl, Shed.of_eq ?_ ?_, .inl fun hnil => hnil⟩
  · cases hseat : x.role.toSeat with
    | none => rw [seats_hold_none (x := ⟨x.buf, obj, x.role⟩) hseat, seats_hold_none hseat, hsame]
    | some q => rw [seats_hold (x := ⟨x.buf, obj, x.role⟩) hseat, seats_hold hseat, hsame]
  · cases hguest : x.role.toGuest with
    | none =>
        rw [guests_hold_none (x := ⟨x.buf, obj, x.role⟩) hguest, guests_hold_none hguest]
        rfl
    | some g =>
        rw [guests_hold (x := ⟨x.buf, obj, x.role⟩) hguest, guests_hold hguest]
        rfl

theorem write (H : World cfg F σ (x ::ₘ B) U O d) (f : BufferObj → BufferObj) :
    World cfg F (σ.setBuffer x.buf (f (σ.buffer x.buf))) (⟨x.buf, f x.obj, x.role⟩ ::ₘ B) U O
      d := by
  have hset : World cfg F (σ.setBuffer x.buf (f (σ.buffer x.buf)))
      (⟨x.buf, f (σ.buffer x.buf), x.role⟩ ::ₘ B) U O d := H.setBuffer
  refine ⟨hset.accepts, fun hlists => ?_⟩
  obtain ⟨L, hL⟩ := H.listed hlists
  rw [← hL.buffers.contents x (Multiset.mem_cons_self _ _)]
  exact hset.listed hlists

theorem contents (H : World cfg F σ (x ::ₘ B) U O d) (hlists : F.hasLists = true) :
    σ.buffer x.buf = x.obj := by
  obtain ⟨L, hL⟩ := H.listed hlists
  exact hL.buffers.contents x (Multiset.mem_cons_self _ _)

/-- The place of a held buffer is the same, but not what its socket is for. -/
theorem recast (H : World cfg F σ (x ::ₘ B) U O d) (hsame : SameLists σ σ')
    (hlist : role.list = x.role.list)
    (hclosing : F = .quiet → (∀ k, (σ.socket k).bClosing = false) →
      ∀ k, (σ'.socket k).bClosing = false)
    (hsockets : F.hasLists = true → F.hasSockets = true → ∀ queue,
      Sockets (F = .quiet) σ queue (x ::ₘ B) U →
      Sockets (F = .quiet) σ' queue (⟨x.buf, x.obj, role⟩ ::ₘ B) U') :
    World cfg F σ' (⟨x.buf, x.obj, role⟩ ::ₘ B) U' O d := by
  obtain ⟨hcount, hhead, hbuffer, hnext, hbuffers, hend, hflight, habandoned, houtstanding,
    hfailedSends, hfailed⟩ := hsame
  refine ⟨H.accepts.same hcount hflight hfailed, fun hlists => ?_⟩
  obtain ⟨L, hL⟩ := H.listed hlists
  refine ⟨L, ?_, hL.sends.same houtstanding hflight hfailedSends,
    fun hs => hsockets hlists hs _ (hL.sockets hs), fun hq => hclosing hq (hL.quiet hq),
    fun hd => ?_⟩
  · exact (hL.buffers.recast hlist).same hbuffer hnext hbuffers hhead hend hflight habandoned
      hfailed
  · rw [Drained, houtstanding]
    exact hL.drained hd

end World

/-! ## Client sockets and connections -/

theorem getSocketObj_same {s : SOCKET} (h : σ.GetSocketObj s .ok = some (σ', some p)) :
    SameLists σ σ' ∧
      ((∀ k, (σ.socket k).bClosing = false) → ∀ k, (σ'.socket k).bClosing = false) := by
  unfold Server.GetSocketObj at h
  cases hfree : σ.gFreeSocketList with
  | some k =>
      simp only [hfree] at h
      cases h
      refine ⟨⟨fun _ => rfl, rfl, rfl, rfl, rfl, rfl, rfl, rfl, rfl, rfl, rfl⟩,
        fun hopen j => ?_⟩
      by_cases hj : j = k
      · subst hj
        exact (congrArg SocketObj.bClosing Server.setSocket_self).trans (hopen j)
      · exact (congrArg SocketObj.bClosing (Server.setSocket_of_ne hj)).trans (hopen j)
  | none =>
      simp only [hfree] at h
      cases h
      refine ⟨⟨fun _ => rfl, rfl, rfl, rfl, rfl, rfl, rfl, rfl, rfl, rfl, rfl⟩,
        fun hopen j => ?_⟩
      by_cases hj : j = σ.sockets
      · subst hj
        exact congrArg SocketObj.bClosing Server.setSocket_self
      · exact (congrArg SocketObj.bClosing (Server.setSocket_of_ne hj)).trans (hopen j)

namespace World

theorem connect (H : World cfg F σ (x ::ₘ B) U O d) (hx : x.role = .guest h cs)
    (hclient : x.obj.sclient = some h)
    (hget : σ.GetSocketObj (σ.buffer x.buf).sclient .ok = some (σ', some p)) :
    World cfg F σ' (⟨x.buf, x.obj, .seat p false cs⟩ ::ₘ B) U O d := by
  obtain ⟨hsame, hclosing⟩ := getSocketObj_same hget
  refine H.recast hsame (by rw [hx]; rfl) (fun _ => hclosing) fun hlists hs queue hsockets => ?_
  rw [H.contents hlists, hclient] at hget
  exact hsockets.connect hx hget

theorem know {known : Bool} (H : World cfg F σ (x ::ₘ B) U O d) (hx : x.role = .seat p known cs)
    (hs : (σ.socket p.obj).s = some h) :
    World cfg F { σ with port := Function.update σ.port h (some p) }
      (⟨x.buf, x.obj, .seat p true cs⟩ ::ₘ B) U O d :=
  H.recast ⟨fun _ => rfl, rfl, rfl, rfl, rfl, rfl, rfl, rfl, rfl, rfl, rfl⟩ (by rw [hx]; rfl)
    (fun _ hopen => hopen) fun _ _ _ hsockets => hsockets.know hx hs

theorem opened {v : Bool} (H : World cfg F σ (x ::ₘ B) U O d) (hx : x.role = .linked l)
    (hexec : σ.newClient l x.buf (.handle h) = some (σ', v)) : v = true ∧
      World cfg F σ' (⟨x.buf, { x.obj with operation := .OP_ACCEPT, sclient := some h },
        .accept l h []⟩ ::ₘ B) U O d := by
  obtain ⟨hopen, heq⟩ := Option.ite_none_right_eq_some.mp hexec
  cases heq
  refine ⟨rfl, ?_⟩
  have hrecast : World cfg F { σ with
      isOpen := Function.update σ.isOpen h true, port := Function.update σ.port h none
      received := Function.update σ.received h []
      posted := Function.update σ.posted h [] } (⟨x.buf, x.obj, .accept l h []⟩ ::ₘ B) U O d :=
    H.recast ⟨fun _ => rfl, rfl, rfl, rfl, rfl, rfl, rfl, rfl, rfl, rfl, rfl⟩ (by rw [hx]; rfl)
      (fun _ hquiet => hquiet) fun _ _ _ hsockets => hsockets.opened hx hopen
  exact hrecast.write fun y => { y with operation := .OP_ACCEPT, sclient := some h }

/-- `PostAccept` fails: the buffer is left in the list. -/
theorem abandon (H : World cfg F σ (x ::ₘ B) U O d) (hx : x.role.list = some l)
    (hspent : x.role.Spent) :
    World cfg F { σ with abandoned := (l, x.buf) :: σ.abandoned } B U O d := by
  refine ⟨H.accepts.same (fun _ => rfl) rfl rfl, fun hlists => ?_⟩
  obtain ⟨L, hL⟩ := H.listed hlists
  refine ⟨L, hL.buffers.abandon hx, hL.sends, fun hs => ?_, hL.quiet, hL.drained⟩
  exact (hL.sockets hs).move ⟨rfl, rfl, rfl, rfl, rfl, rfl, rfl, rfl, rfl, rfl, rfl⟩
    (Shed.hold fun _ => hspent)

theorem refused {v : Bool} (H : World cfg F σ (x ::ₘ B) U O d) (hx : x.role = .linked l)
    (hexec : σ.newClient l x.buf .fail = some (σ', v)) : v = false ∧ World cfg F σ' B U O d := by
  cases hexec
  refine ⟨rfl, ?_⟩
  refine (H.write fun y => { y with operation := .OP_ACCEPT, sclient := none }).abandon ?_ ?_
  · rw [hx]
    rfl
  · rw [hx]
    exact Role.spent_linked

theorem closeClient (H : World cfg F σ (x ::ₘ B) U O d) (hx : x.role = .guest h cs)
    (hclient : x.obj.sclient = some h) (hquiet : F ≠ .quiet) :
    World cfg F ((σ.closesocket (σ.buffer x.buf).sclient).setBuffer x.buf
      { σ.buffer x.buf with sclient := none })
      (⟨x.buf, { x.obj with sclient := none }, .blank⟩ ::ₘ B) U O d := by
  have hsame : SameLists σ (σ.closesocket (σ.buffer x.buf).sclient) ∧
      (σ.closesocket (σ.buffer x.buf).sclient).socket = σ.socket := by
    cases (σ.buffer x.buf).sclient with
    | none => exact ⟨⟨fun _ => rfl, rfl, rfl, rfl, rfl, rfl, rfl, rfl, rfl, rfl, rfl⟩, rfl⟩
    | some k => exact ⟨⟨fun _ => rfl, rfl, rfl, rfl, rfl, rfl, rfl, rfl, rfl, rfl, rfl⟩, rfl⟩
  have hrecast : World cfg F (σ.closesocket (σ.buffer x.buf).sclient)
      (⟨x.buf, x.obj, .blank⟩ ::ₘ B) U O d := by
    refine H.recast hsame.1 (by rw [hx]; rfl) (fun _ hopen => ?_) fun hlists _ _ hsockets => ?_
    · rw [hsame.2]
      exact hopen
    · rw [H.contents hlists, hclient]
      exact hsockets.forsake hx hquiet
  have hbuffer : (σ.closesocket (σ.buffer x.buf).sclient).buffer = σ.buffer := hsame.1.2.2.1
  have hwrite := hrecast.write fun y => { y with sclient := none }
  rw [hbuffer] at hwrite
  exact hwrite

/-! ## Operations -/

end World

/-- What is to be added to the counters of the server for an operation. -/
def Op.owes (op : Op) : Var → Int :=
  match op.operation, op.key with
  | .OP_ACCEPT, .listen l => Pi.single (.PendingAcceptCount l) 1
  | .OP_WRITE, _ => Pi.single .gOutstandingSends 1
  | _, _ => 0

/-- Accepts, and nothing else, belong to a listener. -/
def Op.Kind (op : Op) : Prop := op.operation = .OP_ACCEPT ↔ ∃ l, op.key = .listen l

variable {op : Op}

theorem owes_accepts (h : op.Kind) :
    op.owes (.PendingAcceptCount l) = if op.key.list = some l then 1 else 0 := by
  obtain ⟨operation, key, s, buf, len⟩ := op
  cases key with
  | listen k =>
      obtain rfl : operation = .OP_ACCEPT := h.mpr ⟨k, rfl⟩
      simp [Op.owes, Key.list, Pi.single_apply, eq_comm]
  | sock p =>
      cases operation with
      | OP_ACCEPT => exact absurd (h.mp rfl) (by simp)
      | OP_READ => rfl
      | OP_WRITE => simp [Op.owes, Key.list]

theorem owes_sends :
    op.owes .gOutstandingSends = if op.operation = .OP_WRITE then 1 else 0 := by
  obtain ⟨operation, key, s, buf, len⟩ := op
  cases operation <;> cases key <;> simp [Op.owes]

theorem accepts_cons {flight : List Op} :
    Server.accepts { σ with flight := op :: flight } l =
      Server.accepts { σ with flight := flight } l + if op.key.list = some l then 1 else 0 := by
  rw [Server.accepts, List.countP_cons, Server.accepts]
  simp

theorem sends_cons {flight : List Op} :
    Server.sends { σ with flight := op :: flight } =
      Server.sends { σ with flight := flight } + if op.operation = .OP_WRITE then 1 else 0 := by
  rw [Server.sends, List.countP_cons, Server.sends]
  simp

theorem Accepts.post (H : Accepts σ O) (hkind : op.Kind) :
    Accepts { σ with flight := op :: σ.flight } (O + op.owes) where
  kind := by
    intro op' hop'
    rcases List.mem_cons.mp hop' with rfl | hop'
    · exact hkind
    · exact H.kind op' hop'
  count l := by
    have hcount := H.count l
    rw [accepts_cons, Pi.add_apply, owes_accepts hkind]
    change (σ.listen l).PendingAcceptCount + _ =
      (((σ.accepts l + _ : Nat)) : Int) + σ.failedAccepts l
    split <;> omega

theorem Accepts.complete (H : Accepts σ O) (hop : op ∈ σ.flight) :
    Accepts { σ with flight := σ.flight.erase op } (O - op.owes) where
  kind op' hop' := H.kind op' (List.mem_of_mem_erase hop')
  count l := by
    have hcount := H.count l
    have hperm : σ.accepts l = Server.accepts { σ with flight := op :: σ.flight.erase op } l :=
      (List.perm_cons_erase hop).countP_eq _
    rw [hperm, accepts_cons] at hcount
    rw [Pi.sub_apply, owes_accepts (H.kind op hop)]
    change (σ.listen l).PendingAcceptCount + _ = _ + ((σ.failedAccepts l : Nat) : Int)
    split at hcount <;> rename_i hlist <;> simp only [hlist, if_true, if_false] <;> omega

theorem Sends.post (H : Sends σ O) : Sends { σ with flight := op :: σ.flight } (O + op.owes) := by
  rw [Sends] at H ⊢
  rw [sends_cons, Pi.add_apply, owes_sends]
  change σ.gOutstandingSends + _ = (((σ.sends + _ : Nat)) : Int) + σ.failedSends
  split <;> omega

theorem Sends.complete (H : Sends σ O) (hop : op ∈ σ.flight) :
    Sends { σ with flight := σ.flight.erase op } (O - op.owes) := by
  have hperm : σ.sends = Server.sends { σ with flight := op :: σ.flight.erase op } :=
    (List.perm_cons_erase hop).countP_eq _
  rw [Sends, hperm, sends_cons] at H
  rw [Sends, Pi.sub_apply, owes_sends]
  change σ.gOutstandingSends + _ = _ + ((σ.failedSends : Nat) : Int)
  split at H <;> rename_i hwrite <;> simp only [hwrite, if_true, if_false] <;> omega

namespace World

theorem post (H : World cfg F σ (x ::ₘ B) U O d) (hkind : op.Kind) (hbuf : op.buf = x.buf)
    (hlist : op.key.list = x.role.list) (hoperation : x.obj.operation = op.operation)
    (hclient : F.hasLists = true → op.operation = .OP_ACCEPT → x.obj.sclient = some op.s)
    (hsockets : F.hasLists = true → ∀ queue, Sockets (F = .quiet) σ queue (x ::ₘ B) U →
      Sockets (F = .quiet) { σ with flight := op :: σ.flight } queue B U') :
    World cfg F { σ with flight := op :: σ.flight } B U' (O + op.owes) d := by
  refine ⟨H.accepts.post hkind, fun hlists => ?_⟩
  obtain ⟨L, hL⟩ := H.listed hlists
  exact ⟨L, hL.buffers.post hbuf hlist hoperation (hclient hlists), hL.sends.post,
    fun hs => hsockets hlists _ (hL.sockets hs), hL.quiet, hL.drained⟩

theorem complete (H : World cfg F σ B U O d) (hop : op ∈ σ.flight)
    (hlist : role.list = op.key.list)
    (hsockets : ∀ queue, Sockets (F = .quiet) σ queue B U →
      Sockets (F = .quiet) { σ with flight := σ.flight.erase op } queue
        (⟨op.buf, σ.buffer op.buf, role⟩ ::ₘ B) U') :
    World cfg F { σ with flight := σ.flight.erase op } (⟨op.buf, σ.buffer op.buf, role⟩ ::ₘ B) U'
      (O - op.owes) d := by
  refine ⟨H.accepts.complete hop, fun hlists => ?_⟩
  obtain ⟨L, hL⟩ := H.listed hlists
  exact ⟨L, hL.buffers.complete hop hlist, hL.sends.complete hop,
    fun hs => hsockets _ (hL.sockets hs), hL.quiet, hL.drained⟩

/-! What is posted. -/

theorem acceptEx {v : Bool} (H : World cfg F σ (x ::ₘ B) U O d) (hx : x.role = .accept l h [])
    (hclient : x.obj.sclient = some h) (hoperation : x.obj.operation = .OP_ACCEPT)
    (hexec : σ.AcceptEx l x.buf .ok = some (σ', v)) :
    v = true ∧ World cfg F σ' B U (O + Pi.single (.PendingAcceptCount l) 1) d := by
  obtain ⟨k, hk, heq⟩ := Option.map_eq_some_iff.mp hexec
  cases heq
  have hsame : F.hasLists = true → h = k := by
    intro hlists
    rw [H.contents hlists, hclient] at hk
    exact Option.some.inj hk
  refine ⟨rfl, H.post ⟨fun _ => ⟨l, rfl⟩, fun _ => rfl⟩ rfl ?_ hoperation
    (fun hlists _ => hsame hlists ▸ hclient) fun hlists queue hs => ?_⟩
  · rw [hx]
    rfl
  · exact hs.postAccept (hsame hlists ▸ hx) rfl

theorem postSeat {q : SockPtr} (H : World cfg F σ (x ::ₘ B) (u ::ₘ U) O d)
    (hx : x.role = .seat u.sock true []) (hkey : op.key = .sock q)
    (hnot : op.operation ≠ .OP_ACCEPT) (hbuf : op.buf = x.buf)
    (hoperation : x.obj.operation = op.operation)
    (hs : (σ.socket u.sock.obj).s = some op.s) (hport : σ.port op.s = some q) :
    World cfg F { σ with flight := op :: σ.flight } B
      ({ u with debt := u.debt + Pi.single op.operation 1 } ::ₘ U) (O + op.owes) d := by
  refine H.post ⟨fun ho => absurd ho hnot, ?_⟩ hbuf ?_ hoperation (fun _ ho => absurd ho hnot)
    fun _ queue hsockets => hsockets.post hx hs hkey hport
  · rintro ⟨l, hl⟩
    rw [hkey] at hl
    cases hl
  · rw [hkey, hx]
    rfl

theorem wsaRecv {v : Bool} (H : World cfg F σ (x ::ₘ B) (u ::ₘ U) O d)
    (hx : x.role = .seat u.sock true []) (hexec : σ.WSARecv u.sock x.buf .ok = some (σ', v)) :
    v = true ∧ World cfg F σ' B ({ u with debt := u.debt + Pi.single .OP_READ 1 } ::ₘ U) O d := by
  unfold Server.WSARecv at hexec
  cases hs : (σ.socket u.sock.obj).s with
  | none =>
      simp only [hs] at hexec
      cases hexec
  | some k =>
      simp only [hs] at hexec
      obtain ⟨q, hq, heq⟩ := Option.map_eq_some_iff.mp hexec
      cases heq
      have hwrite := H.write fun y => { y with operation := .OP_READ }
      have hpost := hwrite.postSeat hx
        (show Op.key ⟨.OP_READ, .sock q, k, x.buf, (σ.buffer x.buf).buflen⟩ = _ from rfl) nofun
        rfl rfl hs hq
      have hnothing : O + Op.owes ⟨.OP_READ, .sock q, k, x.buf, (σ.buffer x.buf).buflen⟩ = O :=
        add_zero O
      rw [hnothing] at hpost
      exact ⟨rfl, hpost⟩

theorem wsaRecvFail {v : Bool} (H : World cfg F σ (x ::ₘ B) U O d)
    (hx : x.role = .seat p true []) (hexec : σ.WSARecv p x.buf .fail = some (σ', v)) :
    v = false ∧ World cfg F σ' B U O d := by
  cases hexec
  refine ⟨rfl, (H.write fun y => { y with operation := .OP_READ }).dropHold ?_ fun _ => ?_⟩
  · rw [hx]
    rfl
  · rw [hx]
    exact Role.spent_seat

theorem wsaSend {v : Bool} (H : World cfg F σ (x ::ₘ B) (u ::ₘ U) O d)
    (hx : x.role = .seat u.sock true [x.obj.chunk])
    (hexec : σ.WSASend u.sock x.buf .ok = some (σ', v)) :
    v = true ∧ World cfg F σ' B ({ u with debt := u.debt + Pi.single .OP_WRITE 1 } ::ₘ U)
      (O + Pi.single .gOutstandingSends 1) d := by
  unfold Server.WSASend at hexec
  cases hs : (σ.socket u.sock.obj).s with
  | none =>
      simp only [hs] at hexec
      cases hexec
  | some k =>
      simp only [hs] at hexec
      obtain ⟨q, hq, heq⟩ := Option.map_eq_some_iff.mp hexec
      cases heq
      have hsent : World cfg F { σ with
          posted := Function.update σ.posted k (σ.posted k ++ [(σ.buffer x.buf).chunk]) }
          (⟨x.buf, x.obj, .seat u.sock true []⟩ ::ₘ B) (u ::ₘ U) O d := by
        refine H.recast ⟨fun _ => rfl, rfl, rfl, rfl, rfl, rfl, rfl, rfl, rfl, rfl, rfl⟩
          (by rw [hx]; rfl) (fun _ hopen => hopen) fun hlists _ queue hsockets => ?_
        rw [H.contents hlists]
        exact hsockets.sent hx hs
      have hwrite := hsent.write fun y => { y with operation := .OP_WRITE }
      exact ⟨rfl, hwrite.postSeat rfl rfl nofun rfl rfl hs hq⟩

theorem wsaSendFail {v : Bool} (H : World cfg F σ (x ::ₘ B) U O d)
    (hexec : σ.WSASend p x.buf .fail = some (σ', v)) :
    v = false ∧ World cfg F σ' (⟨x.buf, { x.obj with operation := .OP_WRITE }, x.role⟩ ::ₘ B) U O
      d := by
  cases hexec
  exact ⟨rfl, H.write fun y => { y with operation := .OP_WRITE }⟩

/-! What completes. -/

/-- Without the lists there is nothing to know, but how many accepts there are. -/
theorem nothing {O' : Var → Int} (H : World cfg F σ B U O d) (hlists : F.hasLists = false)
    (hO : ∀ l, O' (.PendingAcceptCount l) = O (.PendingAcceptCount l)) :
    World cfg F σ B' U' O' d' := by
  refine ⟨⟨H.accepts.kind, fun l => ?_⟩, fun h => absurd h (by rw [hlists]; exact nofun)⟩
  rw [hO]
  exact H.accepts.count l

theorem completeSeat (H : World cfg F σ B U O d) (hop : op ∈ σ.flight) (hkey : op.key = .sock p) :
    World cfg F { σ with flight := σ.flight.erase op }
      (⟨op.buf, σ.buffer op.buf, .seat p true []⟩ ::ₘ B)
      (⟨p, true, false, Pi.single op.operation (-1), .tail⟩ ::ₘ U) (O - op.owes) d :=
  H.complete hop (by rw [hkey]; rfl) fun _ hsockets => hsockets.complete hop hkey

theorem arrive (data : List UInt8) (H : World cfg F σ (x ::ₘ B) U O d)
    (hx : x.role = .seat p true [])
    (hs : F.hasLists = true → F.hasSockets = true → (σ.socket p.obj).s = some h) :
    World cfg F ({ σ with
        received :=
          Function.update σ.received h (σ.received h ++ [Chunk.mk (some h) data]) }.setBuffer
          x.buf ((σ.buffer x.buf).fill h data))
      (⟨x.buf, x.obj.fill h data, .seat p true [Chunk.mk (some h) data]⟩ ::ₘ B) U O d := by
  have hrecast : World cfg F { σ with
      received := Function.update σ.received h (σ.received h ++ [⟨some h, data⟩]) }
      (⟨x.buf, x.obj, .seat p true [⟨some h, data⟩]⟩ ::ₘ B) U O d :=
    H.recast ⟨fun _ => rfl, rfl, rfl, rfl, rfl, rfl, rfl, rfl, rfl, rfl, rfl⟩ (by rw [hx]; rfl)
      (fun _ hopen => hopen) fun hl hsock _ hsockets => hsockets.arrive hx (hs hl hsock) rfl
  exact hrecast.write fun y => y.fill h data

theorem arriveFirst (data : List UInt8) (H : World cfg F σ (x ::ₘ B) U O d)
    (hx : x.role = .accept l h []) :
    World cfg F ({ σ with
        received :=
          Function.update σ.received h (σ.received h ++ [Chunk.mk (some h) data]) }.setBuffer
          x.buf ((σ.buffer x.buf).fill h data))
      (⟨x.buf, x.obj.fill h data, .accept l h [Chunk.mk (some h) data]⟩ ::ₘ B) U O d := by
  have hrecast : World cfg F { σ with
      received := Function.update σ.received h (σ.received h ++ [⟨some h, data⟩]) }
      (⟨x.buf, x.obj, .accept l h [⟨some h, data⟩]⟩ ::ₘ B) U O d :=
    H.recast ⟨fun _ => rfl, rfl, rfl, rfl, rfl, rfl, rfl, rfl, rfl, rfl, rfl⟩ (by rw [hx]; rfl)
      (fun _ hopen => hopen) fun _ _ _ hsockets => hsockets.arriveFirst hx rfl
  exact hrecast.write fun y => y.fill h data

/-- A send has completed with an error: it is counted for ever. -/
theorem failSend (H : World cfg F σ B U (O - Pi.single .gOutstandingSends 1) d) :
    World cfg F { σ with failedSends := σ.failedSends + 1 } B U O d := by
  refine ⟨⟨H.accepts.kind, fun l => ?_⟩, fun hlists => ?_⟩
  · have hcount := H.accepts.count l
    rwa [Pi.sub_apply, Pi.single_eq_of_ne (by exact nofun), sub_zero] at hcount
  · obtain ⟨L, hL⟩ := H.listed hlists
    refine ⟨L, hL.buffers.same rfl rfl rfl rfl rfl rfl rfl rfl, ?_,
      fun hs => (hL.sockets hs).rearrange
        ⟨rfl, rfl, rfl, rfl, rfl, rfl, rfl, rfl, rfl, rfl, rfl⟩ rfl rfl, hL.quiet, hL.drained⟩
    have hsends := hL.sends
    simp only [Sends, Pi.sub_apply, Pi.single_eq_same] at hsends ⊢
    change σ.gOutstandingSends + _ = ((σ.sends : Nat) : Int) + ((σ.failedSends + 1 : Nat) : Int)
    omega

/-- An accept has completed with an error: it is counted for ever, and its buffer is left in
the list. -/
theorem failAccept (H : World cfg F σ (x ::ₘ B) U (O - Pi.single (.PendingAcceptCount l) 1) d)
    (hx : x.role = .accept l h [])
    (hlast : F.hasLists = true → ∀ L, Buffers σ L (x ::ₘ B) →
      ∃ l₁, L (.PendingAccepts l) = l₁ ++ [x.buf]) :
    World cfg F { σ with
      failedAccepts := Function.update σ.failedAccepts l (σ.failedAccepts l + 1) }
      (⟨x.buf, x.obj, .guest h []⟩ ::ₘ B) U O d := by
  refine ⟨⟨H.accepts.kind, fun k => ?_⟩, fun hlists => ?_⟩
  · have hcount := H.accepts.count k
    change (σ.listen k).PendingAcceptCount + _ = ((σ.accepts k : Nat) : Int) + _
    by_cases hk : k = l
    · subst hk
      simp only [Pi.sub_apply, Pi.single_eq_same, Function.update_self] at hcount ⊢
      omega
    · have hne : Var.PendingAcceptCount k ≠ .PendingAcceptCount l :=
        fun he => hk (Var.PendingAcceptCount.inj he)
      rw [Pi.sub_apply, Pi.single_eq_of_ne hne, sub_zero] at hcount
      simpa only [Function.update_of_ne hk] using hcount
  · obtain ⟨L, hL⟩ := H.listed hlists
    obtain ⟨l₁, hlast⟩ := hlast hlists L hL.buffers
    have hne : Var.gOutstandingSends ≠ .PendingAcceptCount l := by simp
    have hsends := hL.sends
    rw [Sends, Pi.sub_apply, Pi.single_eq_of_ne hne, sub_zero] at hsends
    have hguest : x.role.toGuest = some (h, []) := by rw [hx]; rfl
    refine ⟨_, hL.buffers.forsake (r := .guest h []) (by rw [hx]; rfl) rfl hlast, hsends,
      fun hs => (hL.sockets hs).move
        ⟨rfl, rfl, rfl, rfl, rfl, rfl, rfl, rfl, rfl, rfl, rfl⟩ (Shed.of_eq ?_ ?_),
      hL.quiet, hL.drained⟩
    · exact (seats_hold_none rfl).trans (seats_hold_none (by rw [hx]; rfl)).symm
    · exact (guests_hold rfl).trans (guests_hold hguest).symm

end World

end CppWorkspace.ThrottledServer
