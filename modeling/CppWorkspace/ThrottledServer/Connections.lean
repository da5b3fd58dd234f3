/-
# `CppWorkspace.ThrottledServer.Connections` — the life of a connection

`Sockets` is kept when a connection is made, used and given up:

    connect, know            a guest is given a socket object, and the port knows it
    open, forsake            a client socket is created, or closed
    arrive, sent             data comes in on a seat, and is given to `WSASend`
    post, complete           operations of a seat
    setClosing, closesocket, setInvalid, freeSocketObj
                             by the last user of the socket object
-/
import CppWorkspace.ThrottledServer.Sockets

namespace CppWorkspace.ThrottledServer

open Programs Runs LinkedList

variable {σ σ' : Server} {B B' : Multiset Hold} {U U' : Multiset Use} {x y : Hold} {u : Use}
  {queue queue' : List Nat} {b h : Nat} {p : SockPtr} {cs : List Chunk} {op : Op} {w : Prop}

/-- The state of the sockets is the same. -/
def SameSockets (σ σ' : Server) : Prop :=
  σ'.socket = σ.socket ∧ σ'.flight = σ.flight ∧ σ'.isOpen = σ.isOpen ∧ σ'.port = σ.port ∧
    σ'.received = σ.received ∧ σ'.posted = σ.posted ∧ σ'.sockets = σ.sockets ∧
    σ'.connections = σ.connections ∧ σ'.frees = σ.frees ∧ σ'.snext = σ.snext ∧
    σ'.gFreeSocketList = σ.gFreeSocketList

theorem Sockets.move (H : Sockets w σ queue B U) (hsame : SameSockets σ σ')
    (hshed : Shed w (seats σ queue B) (seats σ' queue' B') (guests σ B) (guests σ' B')) :
    Sockets w σ' queue' B' U := by
  obtain ⟨hsocket, hflight, hisOpen, hport, hreceived, hposted, hsockets, hconnections, hfrees,
    hsnext, hfree⟩ := hsame
  have howners := SameOwners.of_eq hsocket
  refine ⟨?_, ?_, ?_, ?_, fun hw => ?_⟩
  · refine (H.seating.shrink hshed.fewerSeats hshed.fewerGuests).same howners (fun q _ => ?_)
      hisOpen hport hreceived hposted
    rw [hsocket]
  · rw [hflight, hsocket]
    exact H.handle
  · refine H.users.same (fun q hq => ⟨q, Multiset.mem_of_le hshed.fewerSeats hq, rfl⟩) howners ?_ ?_
      ?_
    · exact fun k => by rw [hsocket]
    · exact fun o k => by rw [hsocket]
    · exact fun o k => by rw [hflight]
  · exact H.objects.same howners (fun k _ => by rw [hsocket]) hsockets hconnections hfrees hsnext
      hfree
  · exact (H.whole hw).same (hshed.fullSeats hw) (hshed.fullGuests hw)
      (fun q _ => (howners q.sock.obj).2.1) hreceived hposted

theorem Sockets.rearrange (H : Sockets w σ queue B U) (hsame : SameSockets σ σ')
    (hseats : seats σ' queue' B' = seats σ queue B) (hguests : guests σ' B' = guests σ B) :
    Sockets w σ' queue' B' U :=
  H.move hsame (Shed.of_eq hseats hguests)

theorem Sockets.setSocket {k : Nat} {f : SocketObj} (H : Sockets w σ queue B U)
    (howners : SameOwners σ (σ.setSocket k f)) (hclosing : f.bClosing = (σ.socket k).bClosing)
    (husers : Using (σ.setSocket k f) (seats σ queue B) U') :
    Sockets w (σ.setSocket k f) queue B U' := by
  have hsame : ∀ j, ((σ.setSocket k f).socket j).bClosing = (σ.socket j).bClosing := by
    intro j
    by_cases hj : j = k
    · subst hj
      rw [Server.setSocket_self, hclosing]
    · rw [Server.setSocket_of_ne hj]
  refine ⟨H.seating.same howners (fun q _ => hsame _) rfl rfl rfl rfl, fun op hop p hp => ?_,
    husers, H.objects.same howners (fun j _ => hsame j) rfl rfl rfl rfl rfl, fun hw => ?_⟩
  · rw [(howners p.obj).2.1]
    exact H.handle op hop p hp
  · exact (H.whole hw).same (fun _ hq _ => hq) (fun _ hg _ => hg)
      (fun q _ => (howners q.sock.obj).2.1) rfl rfl

theorem live_unique {p' : SockPtr} (hp : σ.live p) (hp' : σ.live p') (hobj : p'.obj = p.obj) :
    p' = p := by
  rw [Server.live, hobj] at hp'
  rw [Server.live] at hp
  obtain ⟨k, n⟩ := p
  obtain ⟨k', n'⟩ := p'
  obtain rfl : k' = k := hobj
  obtain rfl : n = n' := Option.some.inj (hp.symm.trans hp')
  rfl

namespace Sockets

/-- A connection without a seat has none by its socket object. -/
theorem seat_ne (H : Sockets w σ queue B U) (hlive : σ.live p)
    (hno : ∀ q ∈ seats σ queue B, q.sock ≠ p) : ∀ q ∈ seats σ queue B, q.sock.obj ≠ p.obj := by
  intro q hq hobj
  obtain ⟨h, hh⟩ := H.seating.seated q hq
  exact hno q hq (live_unique hlive hh.owner.1 hobj)

theorem seat_of_flight {op : Op} (hop : op ∈ σ.flight) (hkey : op.key = .sock p) :
    ⟨p, true, []⟩ ∈ seats σ queue B := by
  have hseat : op.toSeat = some ⟨p, true, []⟩ := by rw [Op.toSeat, hkey]
  rw [seats_complete hop hseat]
  exact Multiset.mem_cons_self _ _

theorem not_in_flight (H : Sockets w σ queue B U) (hlive : σ.live p)
    (hno : ∀ q ∈ seats σ queue B, q.sock ≠ p) {op : Op} (hop : op ∈ σ.flight) :
    op.key.obj ≠ some p.obj := by
  intro hobj
  cases hkey : op.key with
  | listen l =>
      rw [hkey] at hobj
      cases hobj
  | sock p' =>
      rw [hkey] at hobj
      exact H.seat_ne hlive hno _ (seat_of_flight hop hkey) (Option.some.inj hobj)

theorem not_busy (H : Sockets w σ queue B U) (hlive : σ.live p)
    (hno : ∀ q ∈ seats σ queue B, q.sock ≠ p) (o : Operation) : busy o p.obj σ.flight = 0 := by
  refine List.countP_eq_zero.mpr fun op hop => ?_
  have hne := H.not_in_flight hlive hno hop
  simp [hne]

/-- Something changes in a socket object without a seat. -/
theorem object {f : SocketObj} (H : Sockets w σ queue B U) (hlive : σ.live p)
    (hno : ∀ q ∈ seats σ queue B, q.sock ≠ p)
    (howner : ∀ p' h, Owner (σ.setSocket p.obj f) p' h → Owner σ p' h)
    (husers : Using (σ.setSocket p.obj f) (seats σ queue B) U')
    (hobjects : Objects (σ.setSocket p.obj f)) : Sockets w (σ.setSocket p.obj f) queue B U' := by
  refine ⟨H.seating.object (H.seat_ne hlive hno) howner, fun op hop p' hkey => ?_, husers,
    hobjects, fun hw => ?_⟩
  · have hne : p'.obj ≠ p.obj := by
      intro hobj
      exact H.not_in_flight hlive hno hop (by rw [hkey, ← hobj]; rfl)
    rw [Server.setSocket_of_ne hne]
    exact H.handle op hop p' hkey
  · exact (H.whole hw).same (fun _ hq _ => hq) (fun _ hg _ => hg)
      (fun q hq => congrArg _ (Server.setSocket_of_ne (H.seat_ne hlive hno q hq))) rfl rfl

theorem owner_of_ne {f : SocketObj} {p' : SockPtr} {h k : Nat} (hne : p'.obj ≠ k)
    (howner : Owner (σ.setSocket k f) p' h) : Owner σ p' h := by
  have hsame : (σ.setSocket k f).socket p'.obj = σ.socket p'.obj := Server.setSocket_of_ne hne
  obtain ⟨hlive, hs, hshut⟩ := howner
  rw [hsame] at hs hshut
  rw [Server.live, hsame] at hlive
  exact ⟨hlive, hs, hshut⟩

/-- What is not open belongs to nobody. -/
theorem owner_absurd {f : SocketObj} {k : Nat} (hf : ∀ h, f.s = some h → f.shut = true) {p' h}
    (howner : Owner (σ.setSocket k f) p' h) : p'.obj ≠ k := by
  rintro rfl
  obtain ⟨-, hs, hshut⟩ := howner
  rw [Server.setSocket_self] at hs hshut
  rw [hf h hs] at hshut
  cases hshut

theorem setClosing (H : Sockets w σ queue B (u ::ₘ U))
    (hno : ∀ q ∈ seats σ queue B, q.sock ≠ u.sock) :
    Sockets w (σ.setSocket u.sock.obj { σ.socket u.sock.obj with bClosing := true }) queue B
      (u ::ₘ U) := by
  have howners : SameOwners σ
      (σ.setSocket u.sock.obj { σ.socket u.sock.obj with bClosing := true }) :=
    SameOwners.setSocket rfl rfl rfl
  have hlive := H.users.first.live
  refine H.object hlive hno (fun p' h => howners.owner.mp) ?_ (H.objects.object hlive rfl)
  refine H.users.relock howners (fun o => ?_) fun hmem => ?_
  · cases o <;> rfl
  · obtain ⟨v, hv, hobj⟩ := Multiset.mem_map.mp hmem
    obtain ⟨hv, hlocked⟩ := Multiset.mem_filter.mp hv
    exact hobj ▸ (H.users.each v hv).lock hlocked

/-- The only user of a socket object closes its socket. -/
theorem closesocket (H : Sockets w σ queue B (u ::ₘ U)) (hphase : u.phase = .dead)
    (hinside : u.inside = true) (hlocked : u.locked = false) (hdebt : u.debt = 0)
    (hU : ∀ v ∈ U, v.sock ≠ u.sock) :
    Sockets w ((σ.closesocket (σ.socket u.sock.obj).s).setSocket u.sock.obj
      { σ.socket u.sock.obj with shut := true }) queue B ({ u with phase := .closed } ::ₘ U) := by
  have hlive := H.users.first.live
  have hfits := H.users.first.phase
  rw [hphase] at hfits
  obtain ⟨hshut, hno⟩ := hfits
  have hne : ∀ {p' h}, Owner (σ.setSocket u.sock.obj
      { σ.socket u.sock.obj with shut := true }) p' h → p'.obj ≠ u.sock.obj :=
    owner_absurd fun _ _ => rfl
  have hshutting : Sockets w
      (σ.setSocket u.sock.obj { σ.socket u.sock.obj with shut := true }) queue
      B ({ u with phase := .closed } ::ₘ U) := by
    refine H.object hlive hno (fun p' h hh => owner_of_ne (hne hh) hh) ?_
      (H.objects.object hlive rfl)
    refine H.users.close (fun v hv hobj => hU v hv ?_) hno hinside hlocked hdebt rfl fun o => ?_
    · exact live_unique hlive (H.users.rest v hv).live hobj
    · cases o <;> rfl
  cases hs : (σ.socket u.sock.obj).s with
  | none =>
      have hself : σ.closesocket (σ.socket u.sock.obj).s = σ := by
        rw [hs]
        rfl
      rw [← hs, hself]
      exact hshutting
  | some h =>
      have howner : Owner σ u.sock h := ⟨hlive, hs, hshut⟩
      refine ⟨?_, hshutting.handle, ?_, ?_, hshutting.whole⟩
      · refine hshutting.seating.unowned (h := h) (fun p' hp' => ?_)
          (H.seating.owner _ _ howner).2 rfl (fun k hk => Function.update_of_ne hk ..)
          (fun k hk => Function.update_of_ne hk ..) rfl rfl
        exact hne hp' (congrArg _ (H.seating.apart _ _ h (owner_of_ne (hne hp') hp') howner))
      · exact hshutting.users.same (fun q hq => ⟨q, hq, rfl⟩) (SameOwners.of_eq rfl)
          (fun _ => rfl) (fun _ _ => rfl) fun _ _ => rfl
      · exact hshutting.objects.same (SameOwners.of_eq rfl) (fun _ _ => rfl) rfl rfl rfl rfl rfl

theorem setInvalid (H : Sockets w σ queue B (u ::ₘ U)) (hphase : u.phase = .closed) :
    Sockets w (σ.setSocket u.sock.obj { σ.socket u.sock.obj with s := none }) queue B
      ({ u with phase := .invalid } ::ₘ U) := by
  have hlive := H.users.first.live
  have hno := H.users.first.phase
  rw [hphase] at hno
  refine H.object hlive hno (fun p' h hh => owner_of_ne (owner_absurd (by exact nofun) hh) hh) ?_
    (H.objects.object hlive rfl)
  refine H.users.invalidate hphase rfl rfl rfl rfl fun o => ?_
  cases o <;> rfl

/-- A socket object that nobody else uses has nothing outstanding. -/
theorem nothing_owed (hlive : σ.live p) (H : Sockets w σ queue B U) (hU : ∀ v ∈ U, v.sock ≠ p)
    (o : Operation) : owed o p.obj U = 0 := by
  have hnil : U.filter (fun v => v.sock.obj = p.obj) = 0 := by
    refine Multiset.filter_eq_nil.mpr fun v hv hobj => hU v hv ?_
    exact live_unique hlive (H.users.each v hv).live hobj
  rw [owed, hnil]
  rfl

/-- The only user of a socket object frees it. -/
theorem freeSocketObj (H : Sockets w σ queue B (u ::ₘ U))
    (hno : ∀ q ∈ seats σ queue B, q.sock ≠ u.sock) (hdebt : u.debt = 0)
    (hU : ∀ v ∈ U, v.sock ≠ u.sock) : Sockets w (σ.FreeSocketObj u.sock) queue B U := by
  have hlive := H.users.first.live
  have hdrop : Sockets w σ queue B U :=
    ⟨H.seating, H.handle, H.users.drop hdebt, H.objects, H.whole⟩
  have husers : Using (σ.setSocket u.sock.obj (.zero (σ.socket u.sock.obj).SockCritSec))
      (seats σ queue B) U := by
    refine hdrop.users.elsewhere (fun v hv hobj => hU v hv ?_) fun o ho => ?_
    · exact live_unique hlive (hdrop.users.each v hv).live hobj
    · have hcount := hdrop.users.count o ho u.sock.obj
      rw [nothing_owed hlive hdrop hU, hdrop.not_busy hlive hno] at hcount
      refine Eq.trans ?_ (hcount.symm.trans (add_zero _))
      cases o <;> rfl
  have hseating := H.seating.object (x := .zero (σ.socket u.sock.obj).SockCritSec)
    (H.seat_ne hlive hno) fun p' h hh => by
      refine owner_of_ne (fun hobj => ?_) hh
      have hconn := hh.1
      rw [Server.live, hobj, Server.setSocket_self] at hconn
      cases hconn
  refine ⟨?_, fun op hop p' hkey => ?_, ?_, H.objects.release hlive, fun hw => ?_⟩
  · exact hseating.same (SameOwners.of_eq rfl) (fun _ _ => rfl) rfl rfl rfl rfl
  · have hne : p'.obj ≠ u.sock.obj := by
      intro hobj
      exact H.not_in_flight hlive hno hop (by rw [hkey, ← hobj]; rfl)
    refine Eq.trans ?_ (H.handle op hop p' hkey)
    exact congrArg _ (Server.setSocket_of_ne hne)
  · exact husers.same (fun q hq => ⟨q, hq, rfl⟩) (SameOwners.of_eq rfl) (fun _ => rfl)
      (fun _ _ => rfl) fun _ _ => rfl
  · exact (H.whole hw).same (fun _ hq _ => hq) (fun _ hg _ => hg)
      (fun q hq => congrArg _ (Server.setSocket_of_ne (H.seat_ne hlive hno q hq))) rfl rfl

/-! Connections begin. -/

theorem grow {S : Multiset Seat} {q : Seat} (H : Using σ S U) (hnot : ∀ u ∈ U, u.sock ≠ q.sock) :
    Using σ (q ::ₘ S) U where
  each u hu := by
    refine (H.each u hu).same (fun q' hq' he => ?_) (SameOwners.of_eq rfl) fun hl => hl
    rcases Multiset.mem_cons.mp hq' with rfl | hq'
    · exact absurd he.symm (hnot u hu)
    · exact ⟨q', hq', he⟩
  locks := H.locks
  count := H.count

theorem revise (H : Sockets w σ queue B U) (hsocket : σ'.socket = σ.socket)
    (hflight : σ'.flight = σ.flight) (hsockets : σ'.sockets = σ.sockets)
    (hconnections : σ'.connections = σ.connections) (hfrees : σ'.frees = σ.frees)
    (hsnext : σ'.snext = σ.snext) (hfree : σ'.gFreeSocketList = σ.gFreeSocketList)
    (hseats : ∀ q ∈ seats σ' queue B', ∃ q' ∈ seats σ queue B, q'.sock = q.sock)
    (hseating : Seating σ' (seats σ' queue B') (guests σ' B'))
    (hwhole : w → Whole σ' (seats σ' queue B') (guests σ' B')) : Sockets w σ' queue B' U := by
  have howners := SameOwners.of_eq hsocket
  refine ⟨hseating, ?_, ?_, ?_, hwhole⟩
  · rw [hflight, hsocket]
    exact H.handle
  · refine H.users.same hseats howners ?_ ?_ ?_
    · exact fun k => by rw [hsocket]
    · exact fun o k => by rw [hsocket]
    · exact fun o k => by rw [hflight]
  · exact H.objects.same howners (fun k _ => by rw [hsocket]) hsockets hconnections hfrees hsnext
      hfree

theorem connect (H : Sockets w σ queue (x ::ₘ B) U) (hx : x.role = .guest h cs)
    (hget : σ.GetSocketObj (some h) .ok = some (σ', some p)) :
    Sockets w σ' queue (⟨x.buf, x.obj, .seat p false cs⟩ ::ₘ B) U := by
  obtain ⟨hobjects, hdead, f, snext, free, sockets, rfl, hconn, hs, hshut, hclosing, hcount⟩ :=
    getSocketObj_spec H.objects hget
  have hlive : ∀ p', σ.live p' → p'.obj ≠ p.obj := by
    intro p' hp' hobj
    rw [Server.live, hobj, hdead] at hp'
    cases hp'
  have hseats : seats σ queue (x ::ₘ B) = seats σ queue B := seats_hold_none (by rw [hx]; rfl)
  have hguests : guests σ (x ::ₘ B) = (h, cs) ::ₘ guests σ B := guests_hold (by rw [hx]; rfl)
  have hflight : ∀ op ∈ σ.flight, ∀ p', op.key = .sock p' → p'.obj ≠ p.obj := by
    intro op hop p' hkey
    obtain ⟨k, hk⟩ := H.seating.seated _ (seat_of_flight hop hkey)
    exact hlive p' hk.owner.1
  have hseating := H.seating
  rw [hseats, hguests] at hseating
  have husers := H.users
  rw [hseats] at husers
  have helsewhere : Using (σ.setSocket p.obj f) (seats σ queue B) U := by
    refine husers.elsewhere (fun u hu => hlive _ (husers.each u hu).live) fun o ho => ?_
    rcases hcount o with hsame | hzero
    · exact hsame
    · have hold := husers.count o ho p.obj
      have howed : owed o p.obj U = 0 := by
        have hnil : U.filter (fun v => v.sock.obj = p.obj) = 0 :=
          Multiset.filter_eq_nil.mpr fun v hv => hlive _ (husers.each v hv).live
        rw [owed, hnil]
        rfl
      have hbusy : busy o p.obj σ.flight = 0 := by
        refine List.countP_eq_zero.mpr fun op hop => ?_
        have hne : op.key.obj ≠ some p.obj := by
          cases hkey : op.key with
          | listen l =>
              intro he
              cases he
          | sock p' => exact fun he => hflight op hop p' hkey (Option.some.inj he)
        simp [hne]
      rw [howed, hbusy] at hold
      rw [hzero]
      exact hold.symm.trans (add_zero _)
  refine ⟨?_, fun op hop p' hkey => ?_, ?_, hobjects, fun hw => ?_⟩
  · have hseat := hseating.seat hdead hconn hs hshut hclosing
    rw [seats_hold (q := ⟨p, false, cs⟩) rfl, guests_hold_none rfl]
    exact hseat.same (SameOwners.of_eq rfl) (fun _ _ => rfl) rfl rfl rfl rfl
  · refine Eq.trans ?_ (H.handle op hop p' hkey)
    exact congrArg SocketObj.s (Server.setSocket_of_ne (hflight op hop p' hkey))
  · rw [seats_hold (q := ⟨p, false, cs⟩) rfl]
    refine grow ?_ fun u hu he => hlive _ (husers.each u hu).live (congrArg SockPtr.obj he)
    exact helsewhere.same (fun q hq => ⟨q, hq, rfl⟩) (SameOwners.of_eq rfl) (fun _ => rfl)
      (fun _ _ => rfl) fun _ _ => rfl
  · have hwhole := H.whole hw
    rw [hseats, hguests] at hwhole
    obtain ⟨-, hreceived, hposted⟩ := hseating.client _ (Multiset.mem_cons_self _ _)
    rw [seats_hold (q := ⟨p, false, cs⟩) rfl, guests_hold_none rfl]
    refine hwhole.elsewhere (h := h) (fun hne => .inl ⟨_, Multiset.mem_cons_self _ _, ?_, ?_⟩)
      (fun q hq _ => Multiset.mem_cons_of_mem hq) (fun g hg hgh => ?_) (fun q hq => ?_)
      (fun _ _ => rfl) fun _ _ => rfl
    · rintro rfl
      exact hne (hreceived.trans hposted.symm)
    · exact (congrArg SocketObj.s Server.setSocket_self).trans hs
    · rcases Multiset.mem_cons.mp hg with rfl | hg
      · exact absurd rfl hgh
      · exact hg
    · obtain ⟨k, hk⟩ := hseating.seated q hq
      exact congrArg SocketObj.s (Server.setSocket_of_ne (hlive _ hk.owner.1))

theorem seated {known : Bool} (H : Sockets w σ queue (x ::ₘ B) U) (hx : x.role = .seat p known cs)
    (hs : (σ.socket p.obj).s = some h) : Seated σ ⟨p, known, cs⟩ h := by
  have hseats : seats σ queue (x ::ₘ B) = ⟨p, known, cs⟩ ::ₘ seats σ queue B :=
    seats_hold (by rw [hx]; rfl)
  obtain ⟨k, hk⟩ := H.seating.seated ⟨p, known, cs⟩ (hseats ▸ Multiset.mem_cons_self _ _)
  obtain rfl : k = h := Option.some.inj (hk.owner.2.1.symm.trans hs)
  exact hk

theorem reseat {known known' : Bool} {cs' : List Chunk} (H : Sockets w σ queue (x ::ₘ B) U)
    (hx : x.role = .seat p known cs) (hsocket : σ'.socket = σ.socket)
    (hflight : σ'.flight = σ.flight) (hsockets : σ'.sockets = σ.sockets)
    (hconnections : σ'.connections = σ.connections) (hfrees : σ'.frees = σ.frees)
    (hsnext : σ'.snext = σ.snext) (hfree : σ'.gFreeSocketList = σ.gFreeSocketList)
    (hbuffer : σ'.buffer = σ.buffer)
    (hseating : Seating σ (⟨p, known, cs⟩ ::ₘ seats σ queue B) (guests σ B) →
      Seating σ' (⟨p, known', cs'⟩ ::ₘ seats σ queue B) (guests σ B))
    (hs : (σ.socket p.obj).s = some h) (hself : σ'.received h = σ'.posted h ++ cs')
    (hreceived : ∀ k, k ≠ h → σ'.received k = σ.received k)
    (hposted : ∀ k, k ≠ h → σ'.posted k = σ.posted k) :
    Sockets w σ' queue (⟨x.buf, x.obj, .seat p known' cs'⟩ ::ₘ B) U := by
  have hold := H.seating
  have hwhole := H.whole
  have hseats : seats σ queue (x ::ₘ B) = ⟨p, known, cs⟩ ::ₘ seats σ queue B :=
    seats_hold (by rw [hx]; rfl)
  have hseats' : seats σ' queue (⟨x.buf, x.obj, .seat p known' cs'⟩ ::ₘ B) =
      ⟨p, known', cs'⟩ ::ₘ seats σ queue B := by
    rw [seats_hold (q := ⟨p, known', cs'⟩) rfl, seats_same hflight fun _ _ => by rw [hbuffer]]
  rw [hseats, guests_hold_none (by rw [hx]; rfl)] at hold hwhole
  refine H.revise hsocket hflight hsockets hconnections hfrees hsnext hfree (fun q hq => ?_) ?_
    fun hw => ?_
  · rw [hseats'] at hq
    rw [hseats]
    rcases Multiset.mem_cons.mp hq with rfl | hq
    · exact ⟨_, Multiset.mem_cons_self _ _, rfl⟩
    · exact ⟨q, Multiset.mem_cons_of_mem hq, rfl⟩
  · rw [hseats', guests_hold_none rfl, guests_same hflight]
    exact hseating hold
  · rw [hseats', guests_hold_none rfl, guests_same hflight]
    exact (hwhole hw).reseat hs hself hsocket hreceived hposted

theorem know {known : Bool} (H : Sockets w σ queue (x ::ₘ B) U) (hx : x.role = .seat p known cs)
    (hs : (σ.socket p.obj).s = some h) :
    Sockets w { σ with port := Function.update σ.port h (some p) } queue
      (⟨x.buf, x.obj, .seat p true cs⟩ ::ₘ B) U :=
  H.reseat hx rfl rfl rfl rfl rfl rfl rfl rfl (fun hseating => hseating.know (H.seated hx hs)) hs
    (H.seated hx hs).stream (fun _ _ => rfl) fun _ _ => rfl

theorem arrive {known : Bool} {c : Chunk} (H : Sockets w σ queue (x ::ₘ B) U)
    (hx : x.role = .seat p known []) (hs : (σ.socket p.obj).s = some h)
    (hc : c.source = some h) :
    Sockets w { σ with received := Function.update σ.received h (σ.received h ++ [c]) } queue
      (⟨x.buf, x.obj, .seat p known [c]⟩ ::ₘ B) U := by
  have hseated := H.seated hx hs
  have hstream : σ.received h ++ [c] = σ.posted h ++ [c] := by
    rw [hseated.stream, List.append_nil]
  refine H.reseat hx rfl rfl rfl rfl rfl rfl rfl rfl (fun hseating => ?_) hs
    ((Function.update_self ..).trans hstream) (fun _ hk => Function.update_of_ne hk ..)
    fun _ _ => rfl
  refine hseating.stream hseated (R := σ.received h ++ [c]) (P := σ.posted h) hstream ?_ rfl rfl rfl
    rfl (Function.update_eq_self _ _).symm
  · intro c' hc'
    rcases List.mem_append.mp hc' with hc' | hc'
    · exact hseating.source h c' hc'
    · exact List.mem_singleton.mp hc' ▸ hc

theorem sent {known : Bool} {c : Chunk} (H : Sockets w σ queue (x ::ₘ B) U)
    (hx : x.role = .seat p known [c]) (hs : (σ.socket p.obj).s = some h) :
    Sockets w { σ with posted := Function.update σ.posted h (σ.posted h ++ [c]) } queue
      (⟨x.buf, x.obj, .seat p known []⟩ ::ₘ B) U := by
  have hseated := H.seated hx hs
  have hstream : σ.received h = σ.posted h ++ [c] ++ [] := by
    rw [hseated.stream, List.append_nil]
  refine H.reseat hx rfl rfl rfl rfl rfl rfl rfl rfl (fun hseating => ?_) hs
    (hstream.trans (congrArg (· ++ []) (Function.update_self h _ σ.posted).symm)) (fun _ _ => rfl)
    fun _ hk => Function.update_of_ne hk ..
  exact hseating.stream hseated (R := σ.received h) (P := σ.posted h ++ [c]) hstream
    (hseating.source h) rfl rfl rfl (Function.update_eq_self _ _).symm rfl

theorem opened {l : Nat} (H : Sockets w σ queue (x ::ₘ B) U) (hx : x.role = .linked l)
    (hopen : σ.isOpen h = false) :
    Sockets w { σ with
      isOpen := Function.update σ.isOpen h true, port := Function.update σ.port h none
      received := Function.update σ.received h []
      posted := Function.update σ.posted h [] } queue
      (⟨x.buf, x.obj, .accept l h []⟩ ::ₘ B) U := by
  have hseats : seats σ queue (x ::ₘ B) = seats σ queue B := seats_hold_none (by rw [hx]; rfl)
  have hseating := H.seating
  rw [hseats, guests_hold_none (by rw [hx]; rfl)] at hseating
  have howner : ∀ p, ¬ Owner σ p h := by
    intro p hp
    have hself := (hseating.owner p h hp).1
    rw [hopen] at hself
    cases hself
  have hguest : ∀ g ∈ guests σ B, g.1 ≠ h := by
    rintro g hg rfl
    have hself := (hseating.client g hg).1
    rw [hopen] at hself
    cases hself
  have hempty : Seating { σ with
      received := Function.update σ.received h []
      posted := Function.update σ.posted h [] } _ _ := hseating.history
    (fun q _ => howner q.sock) hguest (List.prefix_refl []) nofun rfl rfl rfl rfl rfl
  have hnew : Seating { σ with
      isOpen := Function.update σ.isOpen h true, port := Function.update σ.port h none
      received := Function.update σ.received h []
      posted := Function.update σ.posted h [] } _ _ := hempty.unowned howner hguest rfl
    (fun k hk => Function.update_of_ne hk ..) (fun k hk => Function.update_of_ne hk ..) rfl rfl
  refine H.revise rfl rfl rfl rfl rfl rfl rfl (fun q hq => ⟨q, ?_, rfl⟩) ?_ fun hw => ?_
  · rw [seats_hold_none (x := ⟨x.buf, x.obj, .accept l h []⟩) rfl] at hq
    exact hseats ▸ hq
  · rw [seats_hold_none (x := ⟨x.buf, x.obj, .accept l h []⟩) rfl, guests_hold (g := (h, [])) rfl]
    exact hnew.take (Function.update_self ..) (Function.update_self ..) (Function.update_self ..)
      hguest howner
  · have hwhole := H.whole hw
    rw [hseats, guests_hold_none (by rw [hx]; rfl)] at hwhole
    rw [seats_hold_none (x := ⟨x.buf, x.obj, .accept l h []⟩) rfl, guests_hold (g := (h, [])) rfl]
    refine hwhole.elsewhere (h := h) (fun hne => absurd ?_ hne) (fun _ hq _ => hq)
      (fun _ hg _ => Multiset.mem_cons_of_mem hg) (fun _ _ => rfl)
      (fun _ hk => Function.update_of_ne hk ..) fun _ hk => Function.update_of_ne hk ..
    exact (Function.update_self h [] σ.received).trans (Function.update_self h [] σ.posted).symm

theorem arriveFirst {l : Nat} {c : Chunk} (H : Sockets w σ queue (x ::ₘ B) U)
    (hx : x.role = .accept l h []) (hc : c.source = some h) :
    Sockets w { σ with received := Function.update σ.received h (σ.received h ++ [c]) } queue
      (⟨x.buf, x.obj, .accept l h [c]⟩ ::ₘ B) U := by
  have hseats : seats σ queue (x ::ₘ B) = seats σ queue B := seats_hold_none (by rw [hx]; rfl)
  have hseating := H.seating
  rw [hseats, guests_hold (g := (h, [])) (by rw [hx]; rfl)] at hseating
  have hnil : σ.received h = [] := (hseating.client _ (Multiset.mem_cons_self _ _)).2.1
  refine H.revise rfl rfl rfl rfl rfl rfl rfl (fun q hq => ⟨q, ?_, rfl⟩) ?_ fun hw => ?_
  · rw [seats_hold_none (x := ⟨x.buf, x.obj, .accept l h [c]⟩) rfl] at hq
    exact hseats ▸ hq
  · rw [seats_hold_none (x := ⟨x.buf, x.obj, .accept l h [c]⟩) rfl, guests_hold (g := (h, [c])) rfl]
    refine hseating.arrive (fun c' hc' => List.mem_singleton.mp hc' ▸ hc) rfl rfl rfl ?_ rfl
    rw [hnil, List.nil_append]
  · have hwhole := H.whole hw
    rw [hseats, guests_hold (g := (h, [])) (by rw [hx]; rfl)] at hwhole
    rw [seats_hold_none (x := ⟨x.buf, x.obj, .accept l h [c]⟩) rfl, guests_hold (g := (h, [c])) rfl]
    refine hwhole.elsewhere (h := h)
      (fun _ => .inr ⟨(h, [c]), Multiset.mem_cons_self _ _, List.cons_ne_nil _ _, rfl⟩)
      (fun _ hq _ => hq) (fun g hg hgh => ?_) (fun _ _ => rfl)
      (fun _ hk => Function.update_of_ne hk ..) fun _ _ => rfl
    rcases Multiset.mem_cons.mp hg with rfl | hg
    · exact absurd rfl hgh
    · exact Multiset.mem_cons_of_mem hg

theorem forsake (H : Sockets w σ queue (x ::ₘ B) U) (hx : x.role = .guest h cs) (hw : ¬ w) :
    Sockets w { σ with
      isOpen := Function.update σ.isOpen h false, port := Function.update σ.port h none } queue
      (⟨x.buf, x.obj, .blank⟩ ::ₘ B) U := by
  have hseats : seats σ queue (x ::ₘ B) = seats σ queue B := seats_hold_none (by rw [hx]; rfl)
  have hseating := H.seating
  rw [hseats, guests_hold (g := (h, cs)) (by rw [hx]; rfl)] at hseating
  refine H.revise rfl rfl rfl rfl rfl rfl rfl (fun q hq => ⟨q, ?_, rfl⟩) ?_ (absurd · hw)
  · rw [seats_hold_none (x := ⟨x.buf, x.obj, .blank⟩) rfl] at hq
    exact hseats ▸ hq
  · rw [seats_hold_none (x := ⟨x.buf, x.obj, .blank⟩) rfl,
      guests_hold_none (x := ⟨x.buf, x.obj, .blank⟩) rfl]
    refine hseating.dropGuest.unowned (fun p hp => ?_) hseating.guest_notMem rfl
      (fun k hk => Function.update_of_ne hk ..) (fun k hk => Function.update_of_ne hk ..) rfl rfl
    exact (hseating.owner p h hp).2 _ (Multiset.mem_cons_self _ _) rfl

/-! Operations. -/

theorem post {q : SockPtr} (H : Sockets w σ queue (x ::ₘ B) (u ::ₘ U))
    (hx : x.role = .seat u.sock true []) (hs : (σ.socket u.sock.obj).s = some op.s)
    (hkey : op.key = .sock q) (hport : σ.port op.s = some q) :
    Sockets w { σ with flight := op :: σ.flight } queue B
      ({ u with debt := u.debt + Pi.single op.operation 1 } ::ₘ U) := by
  obtain rfl : u.sock = q := Option.some.inj (((H.seated hx hs).port rfl).symm.trans hport)
  have hseats : seats σ queue (x ::ₘ B) = ⟨u.sock, true, []⟩ ::ₘ seats σ queue B :=
    seats_hold (by rw [hx]; rfl)
  have hseats' : seats { σ with flight := op :: σ.flight } queue B =
      ⟨u.sock, true, []⟩ ::ₘ seats σ queue B := seats_post (by rw [Op.toSeat, hkey])
  have hguests' : guests { σ with flight := op :: σ.flight } B = guests σ B :=
    guests_post_none (by rw [Op.toGuest, hkey])
  have hseating := H.seating
  have hwhole := H.whole
  rw [hseats, guests_hold_none (by rw [hx]; rfl)] at hseating hwhole
  refine ⟨?_, fun op' hop' p hp => ?_, ?_, H.objects.same (SameOwners.of_eq rfl) (fun _ _ => rfl)
    rfl rfl rfl rfl rfl, fun hw => ?_⟩
  · rw [hseats', hguests']
    exact hseating.same (SameOwners.of_eq rfl) (fun _ _ => rfl) rfl rfl rfl rfl
  · rcases List.mem_cons.mp hop' with rfl | hop'
    · obtain rfl : u.sock = p := Key.sock.inj (hkey.symm.trans hp)
      exact hs
    · exact H.handle op' hop' p hp
  · refine H.users.post hkey (fun q hq => ⟨q, ?_, rfl⟩) (SameOwners.of_eq rfl) (fun _ => rfl)
      (fun _ _ => rfl) rfl
    rw [hseats'] at hq
    exact hseats ▸ hq
  · rw [hseats', hguests']
    exact (hwhole hw).same (fun _ hq _ => hq) (fun _ hg _ => hg) (fun _ _ => rfl) rfl rfl

theorem postAccept {l : Nat} (H : Sockets w σ queue (x ::ₘ B) U) (hx : x.role = .accept l op.s [])
    (hkey : op.key = .listen l) : Sockets w { σ with flight := op :: σ.flight } queue B U := by
  have hseats : seats σ queue (x ::ₘ B) = seats σ queue B := seats_hold_none (by rw [hx]; rfl)
  have hseats' : seats { σ with flight := op :: σ.flight } queue B = seats σ queue B :=
    seats_post_none (by rw [Op.toSeat, hkey])
  have hguests' : guests { σ with flight := op :: σ.flight } B = (op.s, []) ::ₘ guests σ B :=
    guests_post (by rw [Op.toGuest, hkey])
  have hseating := H.seating
  have hwhole := H.whole
  rw [hseats, guests_hold (g := (op.s, [])) (by rw [hx]; rfl)] at hseating hwhole
  refine ⟨?_, fun op' hop' p hp => ?_, ?_, H.objects.same (SameOwners.of_eq rfl) (fun _ _ => rfl)
    rfl rfl rfl rfl rfl, fun hw => ?_⟩
  · rw [hseats', hguests']
    exact hseating.same (SameOwners.of_eq rfl) (fun _ _ => rfl) rfl rfl rfl rfl
  · rcases List.mem_cons.mp hop' with rfl | hop'
    · rw [hkey] at hp
      cases hp
    · exact H.handle op' hop' p hp
  · refine H.users.same (fun q hq => ⟨q, ?_, rfl⟩) (SameOwners.of_eq rfl) (fun _ => rfl)
      (fun _ _ => rfl) fun o k => ?_
    · rw [hseats'] at hq
      exact hseats ▸ hq
    · change busy o k (op :: σ.flight) = _
      rw [busy_cons, hkey]
      simp [Key.obj]
  · rw [hseats', hguests']
    exact (hwhole hw).same (fun _ hq _ => hq) (fun _ hg _ => hg) (fun _ _ => rfl) rfl rfl

theorem complete {obj : BufferObj} (H : Sockets w σ queue B U) (hop : op ∈ σ.flight)
    (hkey : op.key = .sock p) :
    Sockets w { σ with flight := σ.flight.erase op } queue (⟨b, obj, .seat p true []⟩ ::ₘ B)
      (⟨p, true, false, Pi.single op.operation (-1), .tail⟩ ::ₘ U) := by
  have hseats : seats σ queue B =
      ⟨p, true, []⟩ ::ₘ seats { σ with flight := σ.flight.erase op } queue B :=
    seats_complete hop (by rw [Op.toSeat, hkey])
  have hseats' : seats { σ with flight := σ.flight.erase op } queue
      (⟨b, obj, .seat p true []⟩ ::ₘ B) = seats σ queue B := by
    rw [seats_hold (q := ⟨p, true, []⟩) rfl, hseats]
  have hguests' : guests { σ with flight := σ.flight.erase op } (⟨b, obj, .seat p true []⟩ ::ₘ B) =
      guests σ B := by
    rw [guests_hold_none rfl, ← guests_complete_none hop (by rw [Op.toGuest, hkey])]
  obtain ⟨h, hh⟩ := H.seating.seated ⟨p, true, []⟩ (hseats ▸ Multiset.mem_cons_self _ _)
  refine ⟨?_, fun op' hop' => H.handle op' (List.mem_of_mem_erase hop'), ?_,
    H.objects.same (SameOwners.of_eq rfl) (fun _ _ => rfl) rfl rfl rfl rfl rfl, fun hw => ?_⟩
  · rw [hseats', hguests']
    exact H.seating.same (SameOwners.of_eq rfl) (fun _ _ => rfl) rfl rfl rfl rfl
  · refine H.users.complete hop hkey (fun q hq => ⟨q, hseats' ▸ hq, rfl⟩) (SameOwners.of_eq rfl)
      (fun _ => rfl) (fun _ _ => rfl) rfl hh.owner.1 hh.owner.2.2
  · rw [hseats', hguests']
    exact (H.whole hw).same (fun _ hq _ => hq) (fun _ hg _ => hg) (fun _ _ => rfl) rfl rfl

theorem completeAccept {l : Nat} {obj : BufferObj} (H : Sockets w σ queue B U) (hop : op ∈ σ.flight)
    (hkey : op.key = .listen l) :
    Sockets w { σ with flight := σ.flight.erase op } queue
      (⟨b, obj, .accept l op.s []⟩ ::ₘ B) U := by
  have hseats' : seats { σ with flight := σ.flight.erase op } queue
      (⟨b, obj, .accept l op.s []⟩ ::ₘ B) = seats σ queue B := by
    rw [seats_hold_none rfl, ← seats_complete_none hop (by rw [Op.toSeat, hkey])]
  have hguests' : guests { σ with flight := σ.flight.erase op }
      (⟨b, obj, .accept l op.s []⟩ ::ₘ B) = guests σ B := by
    rw [guests_hold (g := (op.s, [])) rfl, guests_complete hop (by rw [Op.toGuest, hkey])]
  refine ⟨?_, fun op' hop' => H.handle op' (List.mem_of_mem_erase hop'), ?_,
    H.objects.same (SameOwners.of_eq rfl) (fun _ _ => rfl) rfl rfl rfl rfl rfl, fun hw => ?_⟩
  · rw [hseats', hguests']
    exact H.seating.same (SameOwners.of_eq rfl) (fun _ _ => rfl) rfl rfl rfl rfl
  · refine H.users.same (fun q hq => ⟨q, hseats' ▸ hq, rfl⟩) (SameOwners.of_eq rfl)
      (fun _ => rfl) (fun _ _ => rfl) fun o k => ?_
    rw [busy_erase hop, busy_cons, hkey]
    simp [Key.obj]
  · rw [hseats', hguests']
    exact (H.whole hw).same (fun _ hq _ => hq) (fun _ hg _ => hg) (fun _ _ => rfl) rfl rfl

end Sockets

end CppWorkspace.ThrottledServer
