/-
# `CppWorkspace.ThrottledServer.Events` — events, and all the runs of the server

A completion gives a thread the buffer of the operation, the use of the socket object and
the decrements (`world_spawn`).  With the functions proved, `World` holds in every state
of every run whose events and choices keep to a `Regime` (`world_run`); and where no thread
is inside an event, nothing is held, used or owed.
-/
import CppWorkspace.ThrottledServer.Functions

namespace CppWorkspace.ThrottledServer

open Programs Runs LinkedList

section
variable {cfg : Config} {F : Regime} {t : Nat} {e : Event} {B : Multiset Hold}
  {U : Multiset Use} {O : Var → Int} {d : Nat} {p : SockPtr} {x : Hold} {u : Use}
  {σ σ' : Server} {b l h n : Nat} {cs : List Chunk} {op : Op} {data : List UInt8} {rounds : Nat}

namespace World

/-- An operation of a connection completes; what its buffer says is known. -/
theorem completeKnown (H : World cfg F σ B U O d) (hop : op ∈ σ.flight) (hkey : op.key = .sock p) :
    ∃ obj : BufferObj, obj.operation = op.operation ∧
      World cfg F { σ with flight := σ.flight.erase op } (⟨op.buf, obj, .seat p true []⟩ ::ₘ B)
        (⟨p, true, false, Pi.single op.operation (-1), .tail⟩ ::ₘ U) (O - op.owes) d := by
  have hcomplete := H.completeSeat hop hkey
  cases hlists : F.hasLists with
  | true =>
      obtain ⟨L, hL⟩ := H.listed hlists
      exact ⟨σ.buffer op.buf, hL.buffers.operation op hop, hcomplete⟩
  | false =>
      exact ⟨{ σ.buffer op.buf with operation := op.operation }, rfl,
        hcomplete.nothing hlists fun _ => rfl⟩

theorem completeAccept (H : World cfg F σ B U O d) (hop : op ∈ σ.flight)
    (hkey : op.key = .listen l) : ∃ obj : BufferObj, obj.sclient = some op.s ∧
      World cfg F { σ with flight := σ.flight.erase op }
        (⟨op.buf, obj, .accept l op.s []⟩ ::ₘ B) U (O - op.owes) d := by
  have hcomplete := H.complete hop (by rw [hkey]; rfl)
    fun _ hs => hs.completeAccept hop hkey
  cases hlists : F.hasLists with
  | true =>
      obtain ⟨L, hL⟩ := H.listed hlists
      exact ⟨σ.buffer op.buf, hL.buffers.client op hop ((H.accepts.kind op hop).mpr ⟨l, hkey⟩),
        hcomplete⟩
  | false =>
      exact ⟨{ σ.buffer op.buf with sclient := some op.s }, rfl,
        hcomplete.nothing hlists fun _ => rfl⟩

end World

/-- The data that an operation has written is what its buffer is used for. -/
theorem fill_chunk {obj : BufferObj} :
    ({ obj.fill h data with buflen := data.length } : BufferObj).chunk = ⟨some h, data⟩ := by
  simp [BufferObj.chunk, BufferObj.fill]

/-- What a regime asks of the events: an accept that fails is the oldest of its listener, and
no other thread holds a buffer. -/
def Admits (F : Regime) (σ : Server) (B : Multiset Hold) : Event → Prop
  | .completion op error data _ =>
      (F.hasLists = true → error = true → op.operation = .OP_ACCEPT →
        B = 0 ∧ σ.Oldest op.key op.buf) ∧
      (F = .quiet → error = false ∧ (op.operation = .OP_READ → data ≠ []))
  | _ => True

/-- A thread begins `prog` with what it needs. -/
def Begins (cfg : Config) (F : Regime) (t : Nat) (e : Event) (R : Res) (σ' : Server)
    (prog : Program Unit) : Prop :=
  ∃ r, (rules cfg F).Inv σ' (r + R) ∧ Spec cfg F t e prog r fun _ r' => r' = 0

theorem fits_key (hkey : op.key = .sock p) {error : Bool} {ph : Phase} :
    Fits (.completion op error data rounds) (inUse p ph ::ₘ 0) :=
  fits_cons.mpr ⟨fun _ => congrArg some hkey, fits_zero⟩

theorem begins_read (H : World cfg F σ B U O d) (hop : op ∈ σ.flight) (hkey : op.key = .sock p)
    (hread : op.operation = .OP_READ) (hquiet : F = .quiet → data ≠ [])
    (harrive : ({ σ with flight := σ.flight.erase op } : Server).arrive op data = some σ') :
    Begins cfg F t (.completion op false data rounds) (B, U, O, d) σ'
      (HandleIo cfg (.sock p) op.buf data.length false rounds) := by
  obtain ⟨obj, hobj, hcomplete⟩ := H.completeKnown hop hkey
  have howes : O - op.owes = O := by
    rw [Op.owes, hread]
    exact sub_zero O
  rw [howes, hread] at hcomplete
  rw [hread] at hobj
  simp only [Server.arrive, hread] at harrive
  split at harrive
  · rename_i hnil
    cases harrive
    refine ⟨begins op.buf obj p data.length obj.operation, ?_, ?_⟩
    · rw [hobj, hnil]
      change World cfg F _ (⟨op.buf, obj, .seat p true []⟩ ::ₘ 0 + B)
        (⟨p, true, false, Pi.single .OP_READ (-1), .tail⟩ ::ₘ 0 + U) (0 + O) (0 + d)
      rw [Multiset.cons_add, zero_add, Multiset.cons_add, zero_add, zero_add, zero_add]
      exact hcomplete
    · refine spec_handleIo (fits_key hkey) ?_ fun _ _ hF => hquiet hF hnil
      rw [hobj]
      intro he
      cases he
  · rename_i hdata
    obtain ⟨-, heq⟩ := Option.ite_none_right_eq_some.mp harrive
    cases heq
    have hpos : 0 < data.length := List.length_pos_iff.mpr hdata
    have hs : F.hasLists = true → F.hasSockets = true → (σ.socket p.obj).s = some op.s := by
      intro hlists hsockets
      obtain ⟨L, hL⟩ := H.listed hlists
      exact (hL.sockets hsockets).handle op hop p hkey
    have harrived := hcomplete.arrive data (h := op.s) rfl hs
    have hfill : (obj.fill op.s data).operation = .OP_READ := hobj
    refine ⟨begins op.buf (obj.fill op.s data) p data.length (obj.fill op.s data).operation, ?_,
      ?_⟩
    · rw [hfill]
      change World cfg F _ (⟨op.buf, obj.fill op.s data, .seat p true (if 0 < data.length then
        [{ obj.fill op.s data with buflen := data.length }.chunk] else [])⟩ ::ₘ 0 + B)
        (⟨p, true, false, Pi.single .OP_READ (-1), .tail⟩ ::ₘ 0 + U) (0 + O) (0 + d)
      rw [if_pos hpos, fill_chunk, Multiset.cons_add, zero_add, Multiset.cons_add, zero_add,
        zero_add, zero_add]
      exact harrived
    · refine spec_handleIo (fits_key hkey) ?_ fun _ hzero => absurd hzero hpos.ne'
      rw [hfill]
      intro he
      cases he

theorem begins_write (H : World cfg F σ B U O d) (hop : op ∈ σ.flight) (hkey : op.key = .sock p)
    (hwrite : op.operation = .OP_WRITE) :
    Begins cfg F t (.completion op false data rounds) (B, U, O, d)
      { σ with flight := σ.flight.erase op }
      (HandleIo cfg (.sock p) op.buf data.length false rounds) := by
  obtain ⟨obj, hobj, hcomplete⟩ := H.completeKnown hop hkey
  have howes : O - op.owes = -Pi.single .gOutstandingSends 1 + O := by
    rw [Op.owes, hwrite, sub_eq_neg_add]
  rw [howes, hwrite] at hcomplete
  rw [hwrite] at hobj
  refine ⟨begins op.buf obj p data.length obj.operation, ?_, ?_⟩
  · rw [hobj]
    change World cfg F _ (⟨op.buf, obj, .seat p true []⟩ ::ₘ 0 + B)
      (⟨p, true, false, Pi.single .OP_WRITE (-1), .tail⟩ ::ₘ 0 + U)
      (-Pi.single .gOutstandingSends 1 + O) (0 + d)
    rw [Multiset.cons_add, zero_add, Multiset.cons_add, zero_add, zero_add]
    exact hcomplete
  · refine spec_handleIo (fits_key hkey) ?_ fun hread => ?_
    · rw [hobj]
      intro he
      cases he
    · rw [hobj] at hread
      cases hread

theorem begins_accept (H : World cfg F σ B U O d) (hop : op ∈ σ.flight) (hkey : op.key = .listen l)
    (haccept : op.operation = .OP_ACCEPT)
    (harrive : ({ σ with flight := σ.flight.erase op } : Server).arrive op data = some σ') :
    Begins cfg F t (.completion op false data rounds) (B, U, O, d) σ'
      (HandleIo cfg (.listen l) op.buf data.length false rounds) := by
  obtain ⟨obj, hobj, hcomplete⟩ := H.completeAccept hop hkey
  have howes : O - op.owes = -Pi.single (.PendingAcceptCount l) 1 + O := by
    rw [Op.owes, haccept, hkey, sub_eq_neg_add]
  rw [howes] at hcomplete
  simp only [Server.arrive, haccept] at harrive
  obtain ⟨-, heq⟩ := Option.ite_none_right_eq_some.mp harrive
  cases heq
  have harrived := hcomplete.arriveFirst data rfl
  refine ⟨(⟨op.buf, obj.fill op.s data, .accept l op.s [⟨some op.s, data⟩]⟩ ::ₘ 0, 0,
    -Pi.single (.PendingAcceptCount l) 1, 0), ?_, ?_⟩
  · change World cfg F _
      (⟨op.buf, obj.fill op.s data, .accept l op.s [Chunk.mk (some op.s) data]⟩ ::ₘ 0 + B) (0 + U)
      (-Pi.single (.PendingAcceptCount l) 1 + O) (0 + d)
    rw [Multiset.cons_add, zero_add, zero_add, zero_add]
    exact harrived
  · exact spec_handleIoAccept (x := ⟨op.buf, obj.fill op.s data, _⟩) rfl hobj
      (by rw [fill_chunk])

theorem begins_error (H : World cfg F σ B U O d) (hop : op ∈ σ.flight) (hkey : op.key = .sock p)
    (hquiet : F ≠ .quiet) :
    Begins cfg F t (.completion op true data rounds) (B, U, O, d)
      (({ σ with flight := σ.flight.erase op } : Server).fail op)
      (CompletionThread cfg (.sock p) op.buf data.length true rounds) := by
  obtain ⟨obj, hobj, hcomplete⟩ := H.completeKnown hop hkey
  have hdead := hcomplete.vacate (x := ⟨op.buf, obj, .seat p true []⟩) rfl rfl hquiet
  have hfail : World cfg F (({ σ with flight := σ.flight.erase op } : Server).fail op)
      (⟨op.buf, obj, .blank⟩ ::ₘ B)
      (⟨p, true, false, Pi.single op.operation (-1), .dead⟩ ::ₘ U) O d := by
    cases ho : op.operation with
    | OP_READ =>
        rw [ho, show O - op.owes = O by rw [Op.owes, ho]; exact sub_zero O] at hdead
        simpa only [Server.fail, ho, hkey] using hdead
    | OP_WRITE =>
        rw [ho, show O - op.owes = O - Pi.single .gOutstandingSends 1 by rw [Op.owes, ho]] at hdead
        simpa only [Server.fail, ho, hkey] using hdead.failSend
    | OP_ACCEPT =>
        obtain ⟨l, hl⟩ := (H.accepts.kind op hop).mp ho
        rw [hkey] at hl
        cases hl
  refine ⟨(⟨op.buf, obj, .blank⟩ ::ₘ 0,
    ⟨p, true, false, Pi.single op.operation (-1), .dead⟩ ::ₘ 0, 0, 0), ?_, ?_⟩
  · change World cfg F _ (⟨op.buf, obj, .blank⟩ ::ₘ 0 + B)
      (⟨p, true, false, Pi.single op.operation (-1), .dead⟩ ::ₘ 0 + U) (0 + O) (0 + d)
    rw [Multiset.cons_add, zero_add, Multiset.cons_add, zero_add, zero_add, zero_add]
    exact hfail
  · have hfit : Fits (.completion op true data rounds) (inUse p .dead ::ₘ 0) := fits_key hkey
    refine Spec.bind (spec_s (hfit.change rfl rfl) keeps_use) ?_
    rintro _ _ rfl
    rw [← hobj]
    exact spec_handleError (x := ⟨op.buf, obj, .blank⟩) hfit rfl hquiet

theorem begins_acceptError (H : World cfg F σ B U O d) (hop : op ∈ σ.flight)
    (hkey : op.key = .listen l) (hquiet : F ≠ .quiet)
    (hold : F.hasLists = true → B = 0 ∧ σ.Oldest (.listen l) op.buf) :
    Begins cfg F t (.completion op true data rounds) (B, U, O, d)
      (({ σ with flight := σ.flight.erase op } : Server).fail op)
      (HandleIo cfg (.listen l) op.buf data.length true rounds) := by
  have haccept := (H.accepts.kind op hop).mpr ⟨l, hkey⟩
  obtain ⟨obj, hobj, hcomplete⟩ := H.completeAccept hop hkey
  rw [show O - op.owes = O - Pi.single (.PendingAcceptCount l) 1 by rw [Op.owes, haccept, hkey]]
    at hcomplete
  have hfail := hcomplete.failAccept rfl fun hlists L hL => by
    obtain ⟨rfl, holdest⟩ := hold hlists
    exact hL.last_of_oldest rfl holdest
  refine ⟨(⟨op.buf, obj, .guest op.s []⟩ ::ₘ 0, 0, 0, 0), ?_, ?_⟩
  · change World cfg F _ (⟨op.buf, obj, .guest op.s []⟩ ::ₘ 0 + B) (0 + U) (0 + O) (0 + d)
    rw [Multiset.cons_add, zero_add, zero_add, zero_add, zero_add]
    simpa only [Server.fail, haccept, hkey] using hfail
  · exact spec_handleAcceptError (x := ⟨op.buf, obj, .guest op.s []⟩) rfl hobj hquiet

theorem begins_posts {prog : Program Unit} (H : World cfg F σ B U O d)
    (h : Spec cfg F t e prog (0, 0, 0, 0) fun _ r' => r' = 0) :
    Begins cfg F t e (B, U, O, d) σ prog := by
  refine ⟨0, ?_, h⟩
  rwa [zero_add]

theorem world_spawn {prog : Program Unit} (H : World cfg F σ B U O d)
    (hadmits : Admits F σ B e) (hspawn : spawn cfg t e σ = some (σ', prog)) : Begins cfg F t e (B, U, O, d) σ' prog := by
  cases e with
  | initialAccepts l =>
      cases hspawn
      exact begins_posts H (spec_postInitialAccepts _)
  | FD_ACCEPT l =>
      cases hspawn
      exact begins_posts H (spec_postAccepts _)
  | RepostAccept l =>
      cases hspawn
      refine begins_posts H (Spec.bind (spec_exchange fits_zero) ?_)
      rintro limit _ rfl
      exact spec_postAccepts _
  | completion op error data rounds =>
      obtain ⟨hop, hspawn⟩ := Option.ite_none_right_eq_some.mp hspawn
      obtain ⟨hlists, hquiet⟩ := hadmits
      have hkind := H.accepts.kind op hop
      cases error with
      | true =>
          cases hspawn
          cases hkey : op.key with
          | listen l =>
              have hbegins : Begins cfg F t (.completion op true data rounds) (B, U, O, d) _ _ :=
                begins_acceptError H hop hkey (fun hF => absurd (hquiet hF).1 nofun)
                  fun hF => hkey ▸ hlists hF rfl (hkind.mpr ⟨l, hkey⟩)
              simpa only [Event.program, CompletionThread, hkey] using hbegins
          | sock p =>
              have hbegins : Begins cfg F t (.completion op true data rounds) (B, U, O, d) _ _ :=
                begins_error H hop hkey fun hF => absurd (hquiet hF).1 nofun
              simpa only [Event.program, hkey] using hbegins
      | false =>
          obtain ⟨σ₁, harrive, heq⟩ := Option.map_eq_some_iff.mp hspawn
          cases heq
          cases hkey : op.key with
          | listen l =>
              have hbegins : Begins cfg F t (.completion op false data rounds) (B, U, O, d) _ _ :=
                begins_accept H hop hkey (hkind.mpr ⟨l, hkey⟩) harrive
              simpa only [Event.program, CompletionThread, hkey] using hbegins
          | sock p =>
              cases ho : op.operation with
              | OP_ACCEPT =>
                  obtain ⟨l, hl⟩ := hkind.mp ho
                  rw [hkey] at hl
                  cases hl
              | OP_READ =>
                  have hbegins : Begins cfg F t (.completion op false data rounds)
                      (B, U, O, d) _ _ :=
                    begins_read H hop hkey ho (fun hF => (hquiet hF).2 ho) harrive
                  simpa only [Event.program, CompletionThread, hkey] using hbegins
              | OP_WRITE =>
                  have hbegins : Begins cfg F t (.completion op false data rounds)
                      (B, U, O, d) _ _ := begins_write H hop hkey ho
                  simp only [Server.arrive, ho] at harrive
                  cases harrive
                  simpa only [Event.program, CompletionThread, hkey] using hbegins

/-! ## The start -/

theorem buffers_start : Buffers (.start cfg) (fun _ => []) 0 where
  lists := ⟨fun i => ⟨none, by cases i <;> rfl, .inl rfl⟩, fun _ => List.nodup_nil, nofun⟩
  last := rfl
  nodup := Multiset.nodup_zero
  exist := nofun
  pending _ := rfl
  contents := nofun
  operation := nofun
  client := nofun
  queued := nofun

theorem sockets_start {w : Prop} : Sockets w (.start cfg) [] 0 0 where
  seating :=
    { once := Multiset.nodup_zero
      seated := nofun
      owner := nofun
      apart := nofun
      clients := Multiset.nodup_zero
      client := nofun
      inOrder := fun _ => List.prefix_refl []
      source := nofun }
  handle := nofun
  users := ⟨nofun, Multiset.nodup_zero, fun o _ k => by cases o <;> rfl⟩
  objects := ⟨nofun, nofun, nofun, List.nodup_nil, [], rfl, List.nodup_nil, nofun⟩
  whole _ h hne := absurd rfl hne

theorem world_start : World cfg F (.start cfg) 0 0 0 0 where
  accepts := ⟨nofun, fun _ => rfl⟩
  listed _ := ⟨fun _ => [], buffers_start, rfl, fun _ => sockets_start, fun _ _ => rfl,
    fun _ => .inl rfl⟩

/-! ## Runs -/

/-- No other thread is inside `HandleIo` with the object, and nobody in its
`SockCritSec`. -/
def LastUser (m : Machine) (t : Nat) (p : SockPtr) : Prop :=
  (m.shared.socket p.obj).SockCritSec = none ∧
    ∀ t' < m.threads.length, t' ≠ t → ∀ e, m.event t' = some e → e.key ≠ some (.sock p)

variable {m : Machine} {rs : List Res}

/-- Who else has a use of the object is inside with it, or in its critical section. -/
theorem users_others (hgood : (rules cfg F).Good m rs) (hs : F.hasSockets = true)
    (hlast : LastUser m t p) {t' : Nat} {r' : Res} (ht' : t' ≠ t) (hr' : rs[t']? = some r') :
    users p r'.2.1 = 0 := by
  refine Multiset.countP_eq_zero.mpr ?_
  rintro u hu rfl
  have hne : r' ≠ 0 := by
    rintro rfl
    exact Multiset.notMem_zero _ hu
  obtain ⟨e, c, he, hc⟩ := hgood.busy hr' hne
  obtain ⟨hlt, -⟩ := List.getElem?_eq_some_iff.mp hr'
  cases hinside : u.inside with
  | true =>
      have hkey := (hgood.pre hr' he hc).1 u hu hinside
      exact hlast.2 t' (hgood.length ▸ hlt) ht' e he hkey
  | false =>
      obtain ⟨R, hsum, -⟩ := sum_split hr'
      have H : World cfg F m.shared rs.sum.1 rs.sum.2.1 rs.sum.2.2.1 rs.sum.2.2.2 := hgood.inv
      obtain ⟨L, hL⟩ := H.listed (Regime.lists_of_sockets hs)
      have hmem : u ∈ rs.sum.2.1 := by
        rw [hsum]
        exact Multiset.mem_add.mpr (.inl hu)
      have hfits := (hL.sockets hs).users.each u hmem
      exact hfits.lock (hfits.outside hinside) hlast.1

/-- What a command may rely on, if nobody else uses what it releases. -/
theorem ok_of_others {x : Choice} {c : Cmd} (hgood : (rules cfg F).Good m rs)
    (he : m.event t = some e) (hc : m.next t = some c)
    (hothers : F.hasSockets = true → F ≠ .quiet → ∀ p, c.releases = some p →
      ∀ t' r', t' ≠ t → rs[t']? = some r' → users p r'.2.1 = 0)
    (hpermits : Permits F m.shared c x) : (rules cfg F).ok t e c m.shared rs.sum x := by
  refine ⟨fun hs p hp => ?_, hpermits⟩
  obtain ⟨o, ht, -⟩ := Option.bind_eq_some_iff.mp hc
  obtain ⟨r, hr, -⟩ := hgood.get ht
  obtain ⟨hquiet, hone⟩ := (hgood.pre hr he hc).2.2 p hp
  have hsum : users p rs.sum.2.1 = users p r.2.1 :=
    sum_alone (f := fun r : Res => users p r.2.1) rfl (fun _ _ => users_add) hr
      (hothers hs hquiet p hp)
  rw [hsum, hone]

theorem world_run {cond : Machine → Action → Prop} {threads : Nat}
    (hbegin : ∀ m rs t e, (rules cfg F).Good m rs → cond m (.begin t e) →
      Admits F m.shared rs.sum.1 e)
    (hothers : ∀ m rs t x c p, (rules cfg F).Good m rs → cond m (.run t x) →
      m.next t = some c → F.hasSockets = true → F ≠ .quiet → c.releases = some p →
      ∀ t' r', t' ≠ t → rs[t']? = some r' → users p r'.2.1 = 0)
    (hpermits : ∀ m t x c, cond m (.run t x) → m.next t = some c → Permits F m.shared c x)
    (hvia : Via (system cfg).step cond (start cfg threads) m) :
    ∃ rs, (rules cfg F).Good m rs := by
  refine hvia.invariant (P := fun m => ∃ rs, (rules cfg F).Good m rs)
    ⟨_, (rules cfg F).good_start world_start⟩ ?_
  rintro m a m' ⟨rs, hgood⟩ hcond hstep
  refine hgood.step ?_ ?_ hstep
  · rintro t x e c rfl he hc
    exact ok_of_others hgood he hc (fun hs hquiet p hp =>
      hothers m rs t x c p hgood hcond hc hs hquiet hp) (hpermits m t x c hcond hc)
  · rintro t e σ prog rfl hspawn
    exact world_spawn hgood.inv (hbegin m rs t e hgood hcond) hspawn

/-- The runs of one event after the other: while one thread is inside an event, the others
own nothing. -/
theorem world_run_solo {cond : Machine → Action → Prop} {threads : Nat}
    (hquiet : ∀ m t e, cond m (.begin t e) → m.Quiescent)
    (hbegin : ∀ m t e, cond m (.begin t e) → Admits F m.shared 0 e)
    (hpermits : ∀ m t x c, cond m (.run t x) → m.next t = some c → Permits F m.shared c x)
    (hvia : Via (system cfg).step cond (start cfg threads) m) :
    ∃ rs, (rules cfg F).Good m rs := by
  have hsolo : ∀ m, Via (system cfg).step cond (start cfg threads) m → m.Solo := by
    refine fun m hm => solo_run hquiet ?_ hm
    exact Machine.Quiescent.solo fun o ho => List.eq_of_mem_replicate ho
  refine world_run (fun m rs t e hgood hcond => ?_)
    (fun m rs t x c p hgood hcond hc _ _ _ t' r' ht' hr' => ?_)
    (fun m t x c hcond hc => hpermits m t x c hcond.1 hc) (hvia.strengthen hsolo)
  · rw [hgood.sum_quiescent (hquiet m t e hcond.1)]
    exact hbegin m t e hcond.1
  · obtain ⟨o, ht, hnext⟩ := Option.bind_eq_some_iff.mp hc
    obtain ⟨q, rfl, -⟩ := Option.bind_eq_some_iff.mp hnext
    obtain ⟨hlt, -⟩ := List.getElem?_eq_some_iff.mp hr'
    obtain ⟨o, hother⟩ : ∃ o, m.threads[t']? = some o :=
      ⟨_, List.getElem?_eq_getElem (hgood.length ▸ hlt : t' < m.threads.length)⟩
    cases o with
    | some q' => exact absurd (hcond.2 t' t q' q hother ht) ht'
    | none =>
        obtain rfl : r' = 0 := hgood.owns t' none r' hother hr'
        rfl

/-- Where no thread is inside an event, nothing is held, used or owed. -/
theorem world_quiescent (hgood : (rules cfg F).Good m rs) (hq : m.Quiescent) :
    World cfg F m.shared 0 0 0 0 :=
  hgood.quiescent hq

/-! ## What has failed -/

/-- The failures so far. -/
def Server.failures (σ : Server) : (Nat → Nat) × Nat × List (Nat × Nat) :=
  (σ.failedAccepts, σ.failedSends, σ.abandoned)

/-- The buffers for which `PostAccept` fails in a command. -/
def Cmd.abandons : Cmd → Choice → List (Nat × Nat)
  | .socket l b, .fail | .AcceptEx l b, .fail => [(l, b)]
  | _, _ => []

theorem failures_set {v : Var} {n : Int} : (σ.set n v).failures = σ.failures := by
  cases v <;> rfl

theorem failures_closesocket {s : SOCKET} : (σ.closesocket s).failures = σ.failures := by
  cases s <;> rfl

theorem dequeue_none (h : σ.DequeuePendingOperation = some (σ', none)) : σ' = σ := by
  unfold Server.DequeuePendingOperation at h
  cases hqueue : σ.gPendingSendList with
  | none =>
      simp only [hqueue] at h
      cases h
      rfl
  | some c =>
      simp only [hqueue] at h
      obtain ⟨q, -, heq⟩ := Option.map_eq_some_iff.mp h
      cases heq

theorem failures_exec {c : Cmd} {x : Choice} {v : c.Reply}
    (h : exec cfg t e c σ x = some (σ', v)) :
    σ'.failures = (σ.failedAccepts, σ.failedSends, c.abandons x ++ σ.abandoned) := by
  cases c with
  | GetBufferObj =>
      cases x with
      | ok =>
          cases hfree : σ.gFreeBufferList <;> simp only [exec, Server.GetBufferObj, hfree] at h <;>
            cases h <;> rfl
      | fail =>
          obtain ⟨-, heq⟩ := Option.ite_none_right_eq_some.mp h
          cases heq
          rfl
      | handle k => cases h
  | GetSocketObj b =>
      cases x with
      | ok =>
          cases hfree : σ.gFreeSocketList <;> simp only [exec, Server.GetSocketObj, hfree] at h <;>
            cases h <;> rfl
      | fail =>
          obtain ⟨-, heq⟩ := Option.ite_none_right_eq_some.mp h
          cases heq
          rfl
      | handle k => cases h
  | socket l b =>
      cases x with
      | handle k =>
          obtain ⟨-, heq⟩ := Option.ite_none_right_eq_some.mp h
          cases heq
          rfl
      | fail =>
          cases h
          rfl
      | ok => cases h
  | AcceptEx l b | CreateIoCompletionPort p =>
      cases x with
      | ok =>
          obtain ⟨k, -, heq⟩ := Option.map_eq_some_iff.mp h
          cases heq
          rfl
      | fail =>
          cases h
          rfl
      | handle k => cases h
  | setsockopt b =>
      cases h
      rfl
  | WSARecv p b =>
      cases x with
      | ok =>
          cases hs : (σ.socket p.obj).s with
          | none =>
              simp only [exec, Server.WSARecv, hs] at h
              cases h
          | some k =>
              simp only [exec, Server.WSARecv, hs] at h
              obtain ⟨q, -, heq⟩ := Option.map_eq_some_iff.mp h
              cases heq
              rfl
      | fail =>
          cases h
          rfl
      | handle k => cases h
  | WSASend p b =>
      cases x with
      | ok =>
          cases hs : (σ.socket p.obj).s with
          | none =>
              simp only [exec, Server.WSASend, hs] at h
              cases h
          | some k =>
              simp only [exec, Server.WSASend, hs] at h
              obtain ⟨q, -, heq⟩ := Option.map_eq_some_iff.mp h
              cases heq
              rfl
      | fail =>
          cases h
          rfl
      | handle k => cases h
  | EnqueuePendingOperation b =>
      cases x with
      | ok =>
          obtain ⟨σ₁, henqueue, heq⟩ := Option.map_eq_some_iff.mp h
          cases heq
          obtain ⟨p, next, first, last, -, rfl⟩ := enqueue_spec henqueue
          rfl
      | fail => cases h
      | handle k => cases h
  | DequeuePendingOperation =>
      cases x with
      | ok =>
          cases v with
          | some b =>
              obtain ⟨p, first, last, -, rfl⟩ := dequeue_spec h
              rfl
          | none =>
              obtain rfl := dequeue_none h
              rfl
      | fail => cases h
      | handle k => cases h
  | RemovePendingAccept l b =>
      cases x with
      | ok =>
          obtain ⟨σ₁, hremove, heq⟩ := Option.map_eq_some_iff.mp h
          cases heq
          obtain ⟨prev, -, rfl⟩ := Option.map_eq_some_iff.mp hremove
          cases prev <;> rfl
      | fail => cases h
      | handle k => cases h
  | sock b =>
      cases x with
      | ok =>
          obtain ⟨p, -, heq⟩ := Option.map_eq_some_iff.mp h
          cases heq
          rfl
      | fail => cases h
      | handle k => cases h
  | EnterCriticalSection p =>
      obtain ⟨-, rfl⟩ := enter_spec h
      rfl
  | InterlockedIncrement v =>
      cases x <;> cases h
      exact failures_set
  | InterlockedDecrement v =>
      cases x <;> cases h
      exact failures_set
  | closeClient b =>
      cases x <;> cases h
      exact failures_closesocket
  | closesocket p =>
      cases x <;> cases h
      exact failures_closesocket
  | never => cases x <;> cases h
  | _ =>
      cases x <;> cases h
      rfl

theorem failures_arrive (h : σ.arrive op data = some σ') : σ'.failures = σ.failures := by
  cases ho : op.operation with
  | OP_ACCEPT =>
      simp only [Server.arrive, ho] at h
      obtain ⟨-, heq⟩ := Option.ite_none_right_eq_some.mp h
      cases heq
      rfl
  | OP_READ =>
      simp only [Server.arrive, ho] at h
      split at h
      · cases h
        rfl
      · obtain ⟨-, heq⟩ := Option.ite_none_right_eq_some.mp h
        cases heq
        rfl
  | OP_WRITE =>
      simp only [Server.arrive, ho] at h
      cases h
      rfl

/-- An event adds to them only if it is an error. -/
theorem failures_spawn {prog : Program Unit} (h : spawn cfg t e σ = some (σ', prog)) :
    (∀ op data rounds, e ≠ .completion op true data rounds) ∧ σ'.failures = σ.failures ∨
    ∃ op ∈ σ.flight, ∃ data rounds, e = .completion op true data rounds ∧
      σ'.failures = (({ σ with flight := σ.flight.erase op } : Server).fail op).failures := by
  cases e with
  | completion op error data rounds =>
      obtain ⟨hop, h⟩ := Option.ite_none_right_eq_some.mp h
      cases error with
      | true =>
          cases h
          exact .inr ⟨op, hop, data, rounds, rfl, rfl⟩
      | false =>
          obtain ⟨σ₁, harrive, heq⟩ := Option.map_eq_some_iff.mp h
          cases heq
          have hsame := failures_arrive harrive
          exact .inl ⟨by exact nofun, hsame⟩
  | _ =>
      cases h
      exact .inl ⟨by exact nofun, rfl⟩

theorem failedAccepts_run {cond : Machine → Action → Prop} {threads : Nat} {m : Machine}
    (hcond : ∀ m t op data rounds, cond m (.begin t (.completion op true data rounds)) →
      op.operation ≠ .OP_ACCEPT)
    (h : Via (system cfg).step cond (start cfg threads) m) :
    m.shared.failedAccepts = fun _ => 0 := by
  refine shared_invariant (P := fun σ => σ.failedAccepts = fun _ => 0)
    (fun t e c σ x σ' v hexec h₀ => ?_) (fun m t e σ' p hbegin hspawn h₀ => ?_) rfl h
  · exact (congrArg (·.1) (failures_exec (t := t) (e := e) hexec)).trans h₀
  · rcases failures_spawn (t := t) hspawn with ⟨-, hsame⟩ | ⟨op, -, data, rounds, rfl, hfail⟩
    · exact (congrArg (·.1) hsame).trans h₀
    · refine (congrArg (·.1) hfail).trans ?_
      have hop := hcond m t op data rounds hbegin
      unfold Server.fail
      split
      · rename_i haccept _
        exact absurd haccept hop
      · exact h₀
      · exact h₀

theorem failedSends_run {cond : Machine → Action → Prop} {threads : Nat} {m : Machine}
    (hcond : ∀ m t op data rounds, cond m (.begin t (.completion op true data rounds)) →
      op.operation ≠ .OP_WRITE)
    (h : Via (system cfg).step cond (start cfg threads) m) : m.shared.failedSends = 0 := by
  refine shared_invariant (P := fun σ => σ.failedSends = 0) (fun t e c σ x σ' v hexec h₀ => ?_)
    (fun m t e σ' p hbegin hspawn h₀ => ?_) rfl h
  · exact (congrArg (·.2.1) (failures_exec (t := t) (e := e) hexec)).trans h₀
  · rcases failures_spawn (t := t) hspawn with ⟨-, hsame⟩ | ⟨op, -, data, rounds, rfl, hfail⟩
    · exact (congrArg (·.2.1) hsame).trans h₀
    · refine (congrArg (·.2.1) hfail).trans ?_
      have hop := hcond m t op data rounds hbegin
      unfold Server.fail
      split
      · exact h₀
      · rename_i hwrite
        exact absurd hwrite hop
      · exact h₀

end

end CppWorkspace.ThrottledServer
