/-
# `CppWorkspace.ThrottledServer.World` — what holds between any two commands

`World` relates the state to all that the threads own together:

    holds   buffers that a thread holds              (`Buffers`)
    uses    socket objects that a thread goes on to use   (`Sockets`)
    owes    what a thread has still to add to `PendingAcceptCount` and
            `gOutstandingSends`                      (`Accepts`, `Sends`)
    duty    the threads that have still to go through `ProcessPendingOperations`
                                                     (`Drained`)

A `Regime` says how much of it is asked for.  Each part rests on the ones before:

    nothing    `PendingAcceptCount` counts the accepts in flight and the failed ones
    lists      an accept that completes with an error is the oldest of its listener: the
               lists are in order
    sockets    and a socket object is only released by its last user: so are connections
    quiet      and nothing fails or ends: no connection is closing, nothing is lost
    drain      and no send is refused while another one waits: none is stranded

There is one lemma for each command.
-/
import CppWorkspace.ThrottledServer.Connections

namespace CppWorkspace.ThrottledServer

open Programs Runs LinkedList

/-! ## The counters of the server -/

/-- The accepts of a listener in flight. -/
def Server.accepts (σ : Server) (l : Nat) : Nat := σ.flight.countP fun op => op.key.list = some l

/-- The sends in flight. -/
def Server.sends (σ : Server) : Nat := σ.flight.countP fun op => op.operation = .OP_WRITE

/-- The counts of pending accepts are those in flight and the failed ones. -/
structure Accepts (σ : Server) (O : Var → Int) : Prop where
  kind : ∀ op ∈ σ.flight, op.operation = .OP_ACCEPT ↔ ∃ l, op.key = .listen l
  count : ∀ l, (σ.listen l).PendingAcceptCount + O (.PendingAcceptCount l) =
    σ.accepts l + σ.failedAccepts l

def Sends (σ : Server) (O : Var → Int) : Prop :=
  σ.gOutstandingSends + O .gOutstandingSends = σ.sends + σ.failedSends

/-- What is queued waits for a send in flight, or for a thread. -/
def Drained (cfg : Config) (σ : Server) (queue : List Nat) (d : Nat) : Prop :=
  queue = [] ∨ cfg.gMaxSends ≤ σ.gOutstandingSends ∨ 0 < d

/-! ## The world -/

/-- How much is asked for. -/
inductive Regime
  | nothing
  | lists
  | sockets
  | quiet
  | drain
  deriving DecidableEq

namespace Regime

def hasLists : Regime → Bool
  | nothing => false
  | _ => true

def hasSockets : Regime → Bool
  | nothing | lists => false
  | _ => true

def drains : Regime → Bool
  | quiet | drain => true
  | _ => false

end Regime

/-- What is asked of the lists, in the regime. -/
structure Listed (cfg : Config) (F : Regime) (σ : Server) (L : Head → List Nat)
    (B : Multiset Hold) (U : Multiset Use) (O : Var → Int) (d : Nat) : Prop where
  buffers : Buffers σ L B
  sends : Sends σ O
  sockets : F.hasSockets = true → Sockets (F = .quiet) σ (L .gPendingSendList) B U
  quiet : F = .quiet → ∀ k, (σ.socket k).bClosing = false
  drained : F.drains = true → Drained cfg σ (L .gPendingSendList) d

/-- What holds of the state and of all that the threads own. -/
structure World (cfg : Config) (F : Regime) (σ : Server) (B : Multiset Hold) (U : Multiset Use)
    (O : Var → Int) (d : Nat) : Prop where
  accepts : Accepts σ O
  listed : F.hasLists = true → ∃ L, Listed cfg F σ L B U O d

variable {cfg : Config} {F : Regime} {σ σ' : Server} {L L' : Head → List Nat}
  {B B' : Multiset Hold} {U U' : Multiset Use} {O : Var → Int} {d d' : Nat} {x y : Hold} {u : Use}
  {queue queue' : List Nat} {b l h : Nat} {p : SockPtr} {cs : List Chunk} {role : Role}

theorem Accepts.same (H : Accepts σ O)
    (hcount : ∀ l, (σ'.listen l).PendingAcceptCount = (σ.listen l).PendingAcceptCount)
    (hflight : σ'.flight = σ.flight) (hfailed : σ'.failedAccepts = σ.failedAccepts) :
    Accepts σ' O where
  kind := hflight ▸ H.kind
  count l := by
    rw [hcount, Server.accepts, hflight, hfailed]
    exact H.count l

theorem Sends.same (H : Sends σ O) (hcount : σ'.gOutstandingSends = σ.gOutstandingSends)
    (hflight : σ'.flight = σ.flight) (hfailed : σ'.failedSends = σ.failedSends) :
    Sends σ' O := by
  rw [Sends, Server.sends, hcount, hflight, hfailed]
  exact H

/-- The state of the lists and of the counters of the server is the same. -/
def SameLists (σ σ' : Server) : Prop :=
  (∀ l, (σ'.listen l).PendingAcceptCount = (σ.listen l).PendingAcceptCount) ∧
    σ'.head = σ.head ∧ σ'.buffer = σ.buffer ∧ σ'.next = σ.next ∧ σ'.buffers = σ.buffers ∧
    σ'.gPendingSendListEnd = σ.gPendingSendListEnd ∧ σ'.flight = σ.flight ∧
    σ'.abandoned = σ.abandoned ∧ σ'.gOutstandingSends = σ.gOutstandingSends ∧
    σ'.failedSends = σ.failedSends ∧ σ'.failedAccepts = σ.failedAccepts

theorem Buffers.not_queued (H : Buffers σ L (x ::ₘ B)) : x.buf ∉ L .gPendingSendList := by
  intro hmem
  obtain ⟨l, he, -⟩ := H.loose hmem
  cases he

namespace World

theorem change (H : World cfg F σ B U O d) (hsame : SameLists σ σ')
    (hclosing : F = .quiet → (∀ k, (σ.socket k).bClosing = false) →
      ∀ k, (σ'.socket k).bClosing = false)
    (hsockets : F.hasSockets = true → ∀ queue, Sockets (F = .quiet) σ queue B U →
      Sockets (F = .quiet) σ' queue B U') :
    World cfg F σ' B U' O d := by
  obtain ⟨hcount, hhead, hbuffer, hnext, hbuffers, hend, hflight, habandoned, houtstanding,
    hfailedSends, hfailed⟩ := hsame
  refine ⟨H.accepts.same hcount hflight hfailed, fun hlists => ?_⟩
  obtain ⟨L, hL⟩ := H.listed hlists
  refine ⟨L, hL.buffers.same hbuffer hnext hbuffers hhead hend hflight habandoned hfailed,
    hL.sends.same houtstanding hflight hfailedSends, fun hs => hsockets hs _ (hL.sockets hs),
    fun hq => hclosing hq (hL.quiet hq), fun hd => ?_⟩
  rw [Drained, houtstanding]
  exact hL.drained hd

theorem same (H : World cfg F σ B U O d) (hsame : SameLists σ σ') (hsockets : SameSockets σ σ') :
    World cfg F σ' B U O d := by
  refine H.change hsame (fun _ hopen => ?_) fun _ queue hs => ?_
  · rw [hsockets.1]
    exact hopen
  · obtain ⟨-, -, hbuffer, -, -, -, hflight, -⟩ := hsame
    exact hs.rearrange hsockets (seats_same hflight fun b _ => by rw [hbuffer])
      (guests_same hflight)

theorem dropHold (H : World cfg F σ (x ::ₘ B) U O d) (hx : x.role.list = none)
    (hspent : F = .quiet → x.role.Spent) : World cfg F σ B U O d := by
  refine ⟨H.accepts, fun hlists => ?_⟩
  obtain ⟨L, hL⟩ := H.listed hlists
  refine ⟨L, hL.buffers.drop hx, hL.sends, fun hs => ?_, hL.quiet, hL.drained⟩
  exact (hL.sockets hs).move ⟨rfl, rfl, rfl, rfl, rfl, rfl, rfl, rfl, rfl, rfl, rfl⟩
    (Shed.hold hspent)

theorem dropUse (H : World cfg F σ B (u ::ₘ U) O d) (hdebt : u.debt = 0) :
    World cfg F σ B U O d := by
  refine ⟨H.accepts, fun hlists => ?_⟩
  obtain ⟨L, hL⟩ := H.listed hlists
  refine ⟨L, hL.buffers, hL.sends, fun hs => ?_, hL.quiet, hL.drained⟩
  have hsockets := hL.sockets hs
  exact ⟨hsockets.seating, hsockets.handle, hsockets.users.drop hdebt, hsockets.objects,
    hsockets.whole⟩

theorem duty (H : World cfg F σ B U O d)
    (hdone : F.drains = true → σ.gPendingSendList = none ∨ cfg.gMaxSends ≤ σ.gOutstandingSends) :
    World cfg F σ B U O d' := by
  refine ⟨H.accepts, fun hlists => ?_⟩
  obtain ⟨L, hL⟩ := H.listed hlists
  refine ⟨L, hL.buffers, hL.sends, hL.sockets, hL.quiet, fun hd => ?_⟩
  rcases hdone hd with hnone | hfull
  · have hchain := hL.buffers.lists.chain .gPendingSendList id
    rw [show σ.head .gPendingSendList = none from hnone] at hchain
    cases hqueue : L .gPendingSendList with
    | nil => exact .inl rfl
    | cons b queue =>
        rw [hqueue] at hchain
        exact absurd hchain.1 nofun
  · exact .inr (.inl hfull)

/-! Counters. -/

theorem countAccepts {n : Int} (H : World cfg F σ B U O d) :
    World cfg F (σ.set (σ.get (.PendingAcceptCount l) + n) (.PendingAcceptCount l)) B U
      (O - Pi.single (.PendingAcceptCount l) n) d := by
  refine ⟨⟨H.accepts.kind, fun k => ?_⟩, fun hlists => ?_⟩
  · have hcount := H.accepts.count k
    by_cases hk : k = l
    · subst hk
      simp only [Server.set, Server.get, Server.setListen_self, Pi.sub_apply, Pi.single_eq_same]
      change _ + _ + _ = ((σ.accepts k : Nat) : Int) + σ.failedAccepts k
      omega
    · have hne : Var.PendingAcceptCount k ≠ .PendingAcceptCount l :=
        fun he => hk (Var.PendingAcceptCount.inj he)
      rw [Pi.sub_apply, Pi.single_eq_of_ne hne, sub_zero]
      exact (congrArg (· + _) (congrArg _ (Server.setListen_of_ne hk))).trans hcount
  · obtain ⟨L, hL⟩ := H.listed hlists
    refine ⟨L, hL.buffers.same rfl rfl rfl head_set rfl rfl rfl rfl, ?_,
      fun hs => (hL.sockets hs).rearrange
        ⟨rfl, rfl, rfl, rfl, rfl, rfl, rfl, rfl, rfl, rfl, rfl⟩ rfl rfl, hL.quiet, hL.drained⟩
    have hsends := hL.sends
    rwa [Sends, Pi.sub_apply, Pi.single_eq_of_ne (by exact nofun), sub_zero]

/-- `gOutstandingSends` and what is owed to it; if it is lowered, there is a duty. -/
theorem countSends {n : Int} (H : World cfg F σ B U O d) (hd : d ≤ d') (hn : 0 ≤ n ∨ 0 < d') :
    World cfg F (σ.set (σ.get .gOutstandingSends + n) .gOutstandingSends) B U
      (O - Pi.single .gOutstandingSends n) d' := by
  refine ⟨⟨H.accepts.kind, fun k => ?_⟩, fun hlists => ?_⟩
  · rw [Pi.sub_apply, Pi.single_eq_of_ne (by exact nofun), sub_zero]
    exact H.accepts.count k
  · obtain ⟨L, hL⟩ := H.listed hlists
    refine ⟨L, hL.buffers.same rfl rfl rfl rfl rfl rfl rfl rfl, ?_,
      fun hs => (hL.sockets hs).rearrange
        ⟨rfl, rfl, rfl, rfl, rfl, rfl, rfl, rfl, rfl, rfl, rfl⟩ rfl rfl, hL.quiet, fun hdrain => ?_⟩
    · have hsends := hL.sends
      simp only [Sends, Server.set, Server.get, Pi.sub_apply, Pi.single_eq_same] at hsends ⊢
      change _ = ((σ.sends : Nat) : Int) + σ.failedSends
      omega
    · have hset : (σ.set (σ.get .gOutstandingSends + n) .gOutstandingSends).gOutstandingSends =
          σ.gOutstandingSends + n := rfl
      rcases hL.drained hdrain with hnil | hfull | hpos
      · exact .inl hnil
      · rcases hn with hn | hpos
        · refine .inr (.inl ?_)
          rw [hset]
          omega
        · exact .inr (.inr hpos)
      · exact .inr (.inr (Nat.lt_of_lt_of_le hpos hd))

theorem setSocket {k : Nat} {f : SocketObj} (H : World cfg F σ B U O d)
    (hclosing : F = .quiet → (σ.socket k).bClosing = false → f.bClosing = false)
    (hsockets : ∀ queue, Sockets (F = .quiet) σ queue B U →
      Sockets (F = .quiet) (σ.setSocket k f) queue B U') :
    World cfg F (σ.setSocket k f) B U' O d := by
  refine H.change ⟨fun _ => rfl, rfl, rfl, rfl, rfl, rfl, rfl, rfl, rfl, rfl, rfl⟩
    (fun hq hopen j => ?_) fun _ => hsockets
  by_cases hj : j = k
  · subst hj
    rw [Server.setSocket_self]
    exact hclosing hq (hopen j)
  · rw [Server.setSocket_of_ne hj]
    exact hopen j

theorem countSocket {n : Int} {o : Operation} {f : SocketObj} (H : World cfg F σ B (u ::ₘ U) O d)
    (howners : SameOwners σ (σ.setSocket u.sock.obj f))
    (hclosing : f.bClosing = (σ.socket u.sock.obj).bClosing)
    (hlock : f.SockCritSec = (σ.socket u.sock.obj).SockCritSec)
    (hcount : ∀ o', f.outstanding o' =
      (σ.socket u.sock.obj).outstanding o' + (Pi.single o n : Operation → Int) o') :
    World cfg F (σ.setSocket u.sock.obj f) B ({ u with debt := u.debt - Pi.single o n } ::ₘ U) O
      d :=
  H.setSocket (fun _ => hclosing.trans) fun _ hs =>
    hs.setSocket howners hclosing (hs.users.pay howners hlock hcount)

theorem countRecv {n : Int} (H : World cfg F σ B (u ::ₘ U) O d) :
    World cfg F (σ.set (σ.get (.OutstandingRecv u.sock) + n) (.OutstandingRecv u.sock)) B
      ({ u with debt := u.debt - Pi.single .OP_READ n } ::ₘ U) O d := by
  refine H.countSocket (SameOwners.setSocket rfl rfl rfl) rfl rfl fun o => ?_
  cases o with
  | OP_READ =>
      rw [Pi.single_eq_same]
      rfl
  | OP_WRITE =>
      rw [Pi.single_eq_of_ne (by exact nofun), add_zero]
      rfl
  | OP_ACCEPT =>
      rw [Pi.single_eq_of_ne (by exact nofun), add_zero]
      rfl

theorem countSend {n : Int} (H : World cfg F σ B (u ::ₘ U) O d) :
    World cfg F (σ.set (σ.get (.OutstandingSend u.sock) + n) (.OutstandingSend u.sock)) B
      ({ u with debt := u.debt - Pi.single .OP_WRITE n } ::ₘ U) O d := by
  refine H.countSocket (SameOwners.setSocket rfl rfl rfl) rfl rfl fun o => ?_
  cases o with
  | OP_WRITE =>
      rw [Pi.single_eq_same]
      rfl
  | OP_READ =>
      rw [Pi.single_eq_of_ne (by exact nofun), add_zero]
      rfl
  | OP_ACCEPT =>
      rw [Pi.single_eq_of_ne (by exact nofun), add_zero]
      rfl

/-! `SockCritSec`. -/

/-- `PostSend` enters, for the seat of the buffer that it is to post. -/
theorem enterSeat {t : Nat} {known : Bool} (H : World cfg F σ (x ::ₘ B) U O d)
    (hx : x.role = .seat p known cs) (hfree : (σ.socket p.obj).SockCritSec = none) :
    World cfg F (σ.setSocket p.obj { σ.socket p.obj with SockCritSec := some t }) (x ::ₘ B)
      (⟨p, false, true, 0, .tail⟩ ::ₘ U) O d := by
  refine H.setSocket (fun _ h => h) fun queue hs => ?_
  have howners : SameOwners σ
      (σ.setSocket p.obj { σ.socket p.obj with SockCritSec := some t }) :=
    SameOwners.setSocket rfl rfl rfl
  have hmem : ⟨p, known, cs⟩ ∈ seats σ queue (x ::ₘ B) := by
    rw [seats_hold (x := x) (q := ⟨p, known, cs⟩) (by rw [hx]; rfl)]
    exact Multiset.mem_cons_self _ _
  obtain ⟨h, hh⟩ := hs.seating.seated _ hmem
  refine hs.setSocket howners rfl (hs.users.enter (u := ⟨p, false, true, 0, .tail⟩) hfree howners
    nofun (fun o => ?_) hh.owner.1 hh.owner.2.2 rfl rfl)
  cases o <;> rfl

theorem enterUse {t : Nat} (H : World cfg F σ B (u ::ₘ U) O d) (hdebt : u.debt = 0)
    (hfree : (σ.socket u.sock.obj).SockCritSec = none) :
    World cfg F (σ.setSocket u.sock.obj { σ.socket u.sock.obj with SockCritSec := some t }) B
      ({ u with locked := true } ::ₘ U) O d := by
  refine H.setSocket (fun _ h => h) fun queue hs => ?_
  have howners : SameOwners σ
      (σ.setSocket u.sock.obj { σ.socket u.sock.obj with SockCritSec := some t }) :=
    SameOwners.setSocket rfl rfl rfl
  refine hs.setSocket howners rfl ((hs.users.drop hdebt).enter (u := { u with locked := true })
    hfree howners nofun (fun o => ?_) hs.users.first.live hs.users.first.phase rfl hdebt)
  cases o <;> rfl

theorem leave (H : World cfg F σ B (u ::ₘ U) O d) (hlocked : u.locked = true)
    (hdebt : u.debt = 0) :
    World cfg F (σ.setSocket u.sock.obj { σ.socket u.sock.obj with SockCritSec := none }) B U O
      d := by
  refine H.setSocket (fun _ h => h) fun queue hs => ?_
  have howners : SameOwners σ
      (σ.setSocket u.sock.obj { σ.socket u.sock.obj with SockCritSec := none }) :=
    SameOwners.setSocket rfl rfl rfl
  refine hs.setSocket howners rfl (hs.users.leave hlocked hdebt howners fun o => ?_)
  cases o <;> rfl

theorem leaveUse (H : World cfg F σ B (u ::ₘ U) O d) (hlocked : u.locked = true)
    (hinside : u.inside = true) (hdebt : u.debt = 0) :
    World cfg F (σ.setSocket u.sock.obj { σ.socket u.sock.obj with SockCritSec := none }) B
      ({ u with locked := false } ::ₘ U) O d := by
  refine H.setSocket (fun _ h => h) fun queue hs => ?_
  have howners : SameOwners σ
      (σ.setSocket u.sock.obj { σ.socket u.sock.obj with SockCritSec := none }) :=
    SameOwners.setSocket rfl rfl rfl
  refine hs.setSocket howners rfl (hs.users.leaveOwn hlocked hinside hdebt howners fun o => ?_)
  cases o <;> rfl

/-! The end of a connection. -/

theorem die (H : World cfg F σ B (u ::ₘ U) O d) (hphase : u.phase = .tail)
    (hclosing : (σ.socket u.sock.obj).bClosing = true) :
    World cfg F σ B ({ u with phase := .dead } ::ₘ U) O d := by
  refine ⟨H.accepts, fun hlists => ?_⟩
  obtain ⟨L, hL⟩ := H.listed hlists
  refine ⟨L, hL.buffers, hL.sends, fun hs => ?_, hL.quiet, hL.drained⟩
  have hsockets := hL.sockets hs
  have hfits := hsockets.users.first.phase
  rw [hphase] at hfits
  refine ⟨hsockets.seating, hsockets.handle, hsockets.users.rephase ⟨hfits, fun q hq he => ?_⟩,
    hsockets.objects, hsockets.whole⟩
  obtain ⟨h, hh⟩ := hsockets.seating.seated q hq
  have hopen := hh.notClosing
  rw [he, hclosing] at hopen
  cases hopen

theorem vacate {known : Bool} (H : World cfg F σ (x ::ₘ B) (u ::ₘ U) O d)
    (hx : x.role = .seat u.sock known cs) (hphase : u.phase = .tail) (hquiet : F ≠ .quiet) :
    World cfg F σ (⟨x.buf, x.obj, .blank⟩ ::ₘ B) ({ u with phase := .dead } ::ₘ U) O d := by
  refine ⟨H.accepts, fun hlists => ?_⟩
  obtain ⟨L, hL⟩ := H.listed hlists
  refine ⟨L, hL.buffers.recast (by rw [hx]; rfl), hL.sends, fun hs => ?_, hL.quiet, hL.drained⟩
  have hsockets := hL.sockets hs
  have hseat : x.role.toSeat = some ⟨u.sock, known, cs⟩ := by rw [hx]; rfl
  have hguest : x.role.toGuest = none := by rw [hx]; rfl
  have hseating := hsockets.seating
  rw [seats_hold hseat] at hseating
  have hfits := hsockets.users.first.phase
  rw [hphase] at hfits
  have hmove : Sockets (F = .quiet) σ (L .gPendingSendList) (⟨x.buf, x.obj, .blank⟩ ::ₘ B)
      (u ::ₘ U) := by
    refine hsockets.move ⟨rfl, rfl, rfl, rfl, rfl, rfl, rfl, rfl, rfl, rfl, rfl⟩
      ⟨?_, ?_, (absurd · hquiet), (absurd · hquiet)⟩
    · rw [seats_hold hseat, seats_hold_none (x := ⟨x.buf, x.obj, .blank⟩) rfl]
      exact Multiset.le_cons_self _ _
    · rw [guests_hold_none hguest, guests_hold_none (x := ⟨x.buf, x.obj, .blank⟩) rfl]
  refine ⟨hmove.seating, hmove.handle, hmove.users.rephase ⟨hfits, ?_⟩, hmove.objects,
    hmove.whole⟩
  rw [seats_hold_none (x := ⟨x.buf, x.obj, .blank⟩) rfl]
  exact hseating.notMem

theorem setClosing (H : World cfg F σ B (u ::ₘ U) O d) (hphase : u.phase = .dead)
    (hquiet : F ≠ .quiet) :
    World cfg F (σ.setSocket u.sock.obj { σ.socket u.sock.obj with bClosing := true }) B
      (u ::ₘ U) O d := by
  refine H.setSocket (fun hq => absurd hq hquiet) fun queue hs => ?_
  · have hfits := hs.users.first.phase
    rw [hphase] at hfits
    exact hs.setClosing hfits.2

theorem closesocket (H : World cfg F σ B (u ::ₘ U) O d) (hphase : u.phase = .dead)
    (hinside : u.inside = true) (hlocked : u.locked = false) (hdebt : u.debt = 0)
    (hU : F.hasSockets = true → ∀ v ∈ U, v.sock ≠ u.sock) :
    World cfg F ((σ.closesocket (σ.socket u.sock.obj).s).setSocket u.sock.obj
      { σ.socket u.sock.obj with shut := true }) B ({ u with phase := .closed } ::ₘ U) O d := by
  have hsame : SameLists σ ((σ.closesocket (σ.socket u.sock.obj).s).setSocket u.sock.obj
      { σ.socket u.sock.obj with shut := true }) := by
    cases (σ.socket u.sock.obj).s <;>
      exact ⟨fun _ => rfl, rfl, rfl, rfl, rfl, rfl, rfl, rfl, rfl, rfl, rfl⟩
  refine H.change hsame (fun _ hopen k => ?_) fun hsockets queue hs =>
    hs.closesocket hphase hinside hlocked hdebt (hU hsockets)
  have hsocket : (σ.closesocket (σ.socket u.sock.obj).s).socket = σ.socket := by
    cases (σ.socket u.sock.obj).s <;> rfl
  by_cases hk : k = u.sock.obj
  · subst hk
    rw [Server.setSocket_self]
    exact hopen _
  · rw [Server.setSocket_of_ne hk, hsocket]
    exact hopen k

theorem setInvalid (H : World cfg F σ B (u ::ₘ U) O d) (hphase : u.phase = .closed) :
    World cfg F (σ.setSocket u.sock.obj { σ.socket u.sock.obj with s := none }) B
      ({ u with phase := .invalid } ::ₘ U) O d :=
  H.setSocket (fun _ hopen => hopen) fun _ hs => hs.setInvalid hphase

/-- The only user of a socket object frees it. -/
theorem freeSocketObj (H : World cfg F σ B (u ::ₘ U) O d) (hphase : u.phase ≠ .tail)
    (hdebt : u.debt = 0) (hU : F.hasSockets = true → ∀ v ∈ U, v.sock ≠ u.sock) :
    World cfg F (σ.FreeSocketObj u.sock) B U O d := by
  refine H.change ⟨fun _ => rfl, rfl, rfl, rfl, rfl, rfl, rfl, rfl, rfl, rfl, rfl⟩
    (fun _ hopen k => ?_) fun hsockets queue hs => ?_
  · by_cases hk : k = u.sock.obj
    · subst hk
      exact congrArg SocketObj.bClosing Server.setSocket_self
    · exact (congrArg SocketObj.bClosing (Server.setSocket_of_ne hk)).trans (hopen k)
  · refine hs.freeSocketObj ?_ hdebt (hU hsockets)
    have hfits := hs.users.first.phase
    cases hph : u.phase with
    | tail => exact absurd hph hphase
    | dead =>
        rw [hph] at hfits
        exact hfits.2
    | closed =>
        rw [hph] at hfits
        exact hfits
    | invalid =>
        rw [hph] at hfits
        exact hfits.2

end World

end CppWorkspace.ThrottledServer
