/-
# `CppWorkspace.TcpServer.StopReturns` — `StopServer` returns

In a fair run of `TcpServer.Shutdown`, with what `Orderly` asks:

    m_struCriSec    whoever is inside never waits there, so it is free again and again
    ListenThread    after the flag is cleared it returns from the round it is in, or at
                    the begin of the next one
    a worker        the same; `GetQueuedCompletionStatus` does not block it, since one
                    packet was posted for each worker and it has taken none
    StopServer      waits for these only

So thread 0 is never blocked for ever, and comes to the end of `StopServer`.
-/
import CppWorkspace.TcpServer.Shutdown

namespace CppWorkspace.TcpServer.Shutdown

open Programs Runs

/-! ## Commands and steps -/

section
variable {cls : Class} {workers : Nat} {started : Nat → Bool} {σ τ : State} {t : Nat} {e : Event}

/-- No thread function is left again, and `m_struCriSec` goes from a thread to nobody. -/
structure Keeps (σ τ : State) : Prop where
  exited : ∀ u, σ.exited u = true → τ.exited u = true
  lock : ∀ u, σ.core.m_struCriSec = some u →
    τ.core.m_struCriSec = some u ∨ τ.core.m_struCriSec = none

theorem keeps_same (hexited : τ.exited = σ.exited)
    (hlock : τ.core.m_struCriSec = σ.core.m_struCriSec) : Keeps σ τ :=
  ⟨fun _ hu => hexited ▸ hu, fun _ hu => .inl (hlock.trans hu)⟩

theorem use_exited (c : TcpServer.Cmd) : (σ.use c).exited = σ.exited := by
  cases c <;> rfl

theorem exec_keeps {c : Cmd} {x : Choice} {v : c.Reply} (h : exec t e c σ x = some (τ, v)) :
    Keeps σ τ := by
  by_cases hcore : ∃ c', c = .core c'
  · obtain ⟨c', rfl⟩ := hcore
    obtain ⟨x', core, hcore, rfl⟩ := exec_core h
    refine ⟨fun u hu => (congrFun (use_exited c') u).trans hu, fun u hu => ?_⟩
    by_cases hplain : Plain c'
    · exact .inl ((exec_lock hplain hcore).trans hu)
    · cases c' with
      | EnterCriticalSection =>
          cases x' with
          | ok =>
              obtain ⟨hfree, -⟩ := Option.ite_none_right_eq_some.mp hcore
              exact absurd (hfree.symm.trans hu) nofun
          | fail | handle _ => cases hcore
      | LeaveCriticalSection =>
          cases x' with
          | ok =>
              cases hcore
              exact .inr rfl
          | fail | handle _ => cases hcore
      | _ => exact absurd trivial hplain
  · unfold exec at h
    split at h
    -- a core command, refused, one result, one under a condition, or the thread returns
    all_goals first
      | exact absurd ⟨_, rfl⟩ hcore
      | cases h
        exact keeps_same rfl rfl
      | obtain ⟨-, h⟩ := Option.ite_none_right_eq_some.mp h
        cases h
        exact keeps_same rfl rfl
      | cases h
        refine ⟨fun u hu => ?_, fun _ hu => .inl hu⟩
        by_cases hut : u = t
        · exact hut ▸ Function.update_self ..
        · exact (Function.update_of_ne hut _ _).trans hu
      | cases h

theorem spawn_keeps {prog : Program Unit} (h : spawn cls workers started t e σ = some (τ, prog)) :
    Keeps σ τ := by
  unfold spawn at h
  split at h
  all_goals
    obtain ⟨-, h⟩ := Option.ite_none_right_eq_some.mp h
    cases h
    exact keeps_same rfl rfl

theorem step_keeps {m m' : Machine} {a : Action}
    (h : (system cls workers started).step m a = some m') : Keeps m.shared m'.shared := by
  cases a with
  | run t x =>
      obtain ⟨e, c, v, -, -, hexec⟩ := step_run h
      exact exec_keeps hexec
  | begin t e =>
      obtain ⟨-, prog, hspawn⟩ := step_begin h
      exact spawn_keeps hspawn
  | finish t =>
      have hsame := step_finish h
      exact keeps_same (congrArg State.exited hsame)
        (congrArg (fun σ => σ.core.m_struCriSec) hsame)

theorem exec_ready (c : Cmd) (hlock : Blocks c → σ.core.m_struCriSec = none)
    (hpacket : c = .GetQueuedCompletionStatus → 0 < σ.packets)
    (hwait : ∀ u, c = .WaitForSingleObject u → σ.exited u = true) :
    ∃ x, (exec t e c σ x).isSome := by
  cases c with
  | core c =>
      obtain ⟨x, hx⟩ := exec_enabled (t := t) (e := e.core) c hlock
      refine ⟨.core x, ?_⟩
      simp only [exec, Option.isSome_map]
      exact hx
  | DebugPrintf => exact ⟨.ok, by simp [exec, hlock trivial]⟩
  | WSAWaitForMultipleEvents => exact ⟨.wait .WSA_WAIT_TIMEOUT, rfl⟩
  | GetQueuedCompletionStatus => exact ⟨.packet .shutdown, by simp [exec, hpacket rfl]⟩
  | WaitForSingleObject u => exact ⟨.ok, by simp [exec, hwait u rfl]⟩
  | running | setRunning b | ioctlsocket | PostQueuedCompletionStatus | exits
  | closeListenSocket | sockets | clear | timeKillEvent | DestroyContextPool k
  | GetContextCounter k | GetIdleContextCounter k | size => exact ⟨.ok, rfl⟩

/-! ## What the loops come to -/

/-- The flag is false when it is read. -/
def Cleared : (c : Cmd) → c.Reply → Prop
  | .running, b => b = false
  | _, _ => True

theorem spawn_loop {prog : Program Unit} (ht : Loops workers started t)
    (h : spawn cls workers started t e σ = some (τ, prog)) :
    σ.exited t = false ∧ prog.Must (· = .exits) Cleared := by
  have hzero := ht.ne_zero
  have hlt : t < workers + 2 := by
    rcases ht with rfl | ht
    · omega
    · exact ht.2.1
  cases e with
  | InitServer | StopServer =>
      obtain ⟨⟨ht', -⟩, -⟩ := Option.ite_none_right_eq_some.mp h
      exact absurd ht' hzero
  | ListenThread | WorkThread =>
      obtain ⟨⟨-, hexited⟩, h⟩ := Option.ite_none_right_eq_some.mp h
      cases h
      refine ⟨hexited, .inr ?_⟩
      rintro (b : Bool) (rfl : b = false)
      exact .inl rfl
  | TimerProc =>
      obtain ⟨⟨ht', -⟩, -⟩ := Option.ite_none_right_eq_some.mp h
      exact absurd hlt (Nat.not_lt.mpr ht')
  | SendData sock pVoid | SendFile sock =>
      obtain ⟨ht', -⟩ := Option.ite_none_right_eq_some.mp h
      exact absurd hlt (Nat.not_lt.mpr ht')

theorem spawn_ready (ht : Loops workers started t) (hexited : σ.exited t = false) :
    ∃ e, (spawn cls workers started t e σ).isSome := by
  rcases ht with rfl | ht
  · exact ⟨.ListenThread, by simp [spawn, hexited]⟩
  · exact ⟨.WorkThread, by simp [spawn, ht, hexited]⟩

end

/-! ## Fair runs -/

section
variable {cls : Class} {workers : Nat} {started : Nat → Bool} {hs : SOCKET} {threads : Nat}
  {r : Run (system cls workers started) Orderly (idle hs threads)} {t i : Nat} {e : Event}

theorem before_at {c : Cmd} {k : c.Reply → Program Unit}
    (h : r.at? t i = some (some (e, .call c k))) :
    ∃ R, Before workers started t e c (r.machine i).shared R := by
  obtain ⟨rs, hgood⟩ := good_run (r.via i)
  have hthread : (r.machine i).threads[t]? = some (some (e, .call c k)) := h
  obtain ⟨R, hR, -⟩ := hgood.get hthread
  exact ⟨R, hgood.pre hR (by simp [Machine.event, hthread])
    (by simp [Machine.next, hthread, Prog.next])⟩

theorem global_at (i : Nat) : (r.machine i).shared.Global workers started := by
  obtain ⟨rs, hgood⟩ := good_run (r.via i)
  exact hgood.inv.all

theorem idle_at (h : r.at? t i = some none) : (r.machine i).shared.Idle t := by
  obtain ⟨rs, hgood⟩ := good_run (r.via i)
  exact hgood.inv.idle (idle_of hgood h)

theorem holder_at (h : (r.machine i).shared.core.m_struCriSec = some t) :
    ∃ e p, r.at? t i = some (some (e, p)) := by
  obtain ⟨rs, hgood⟩ := good_run (r.via i)
  cases hgood.inv.stage t with
  | idle _ hi => exact absurd h hi.lock
  | busy p hH _ =>
      obtain ⟨e, -, -, he, -⟩ := owner_of hgood (hH ▸ Multiset.mem_singleton_self p)
      obtain ⟨o, ho, hoe⟩ := Option.bind_eq_some_iff.mp he
      obtain ⟨q, rfl, -⟩ := Option.map_eq_some_iff.mp hoe
      exact ⟨q.1, q.2, ho⟩

/-- `m_struCriSec` is free again and again: a thread inside never waits. -/
theorem lock_free (hfair : r.Fair (Loops workers started)) (i : Nat) :
    ∃ j ≥ i, (r.machine j).shared.core.m_struCriSec = none := by
  by_contra hno
  have hheld : ∀ j ≥ i, (r.machine j).shared.core.m_struCriSec ≠ none :=
    fun j hj hfree => hno ⟨j, hj, hfree⟩
  obtain ⟨u, hu⟩ := Option.ne_none_iff_exists'.mp (hheld i (Nat.le_refl i))
  have hstays : ∀ j ≥ i, (r.machine j).shared.core.m_struCriSec = some u := by
    intro j hj
    refine r.lasts (P := fun σ => σ.core.m_struCriSec = some u) hu ?_ hj
    intro l hl a hstep hlock
    exact ((step_keeps hstep).lock u hlock).resolve_right (hheld (l + 1) (Nat.le_succ_of_le hl))
  obtain ⟨e, p, hp⟩ := holder_at hu
  have hfree : r.Free u i := by
    intro i' hi' e c k hc _ j _
    obtain ⟨R, hbefore⟩ := before_at hc
    have hblocks : ¬ Blocks c := fun hb => hbefore.lock hb (hstays i' hi')
    refine ⟨j, Nat.le_refl j, exec_ready c (fun hb => absurd hb hblocks) ?_ ?_⟩
    · rintro rfl
      exact absurd trivial hblocks
    · rintro v rfl
      exact absurd trivial hblocks
  obtain ⟨j, hj, hidle⟩ := hfree.finishes hfair hp
  exact (idle_at hidle).lock (hstays j hj)

theorem exited_lasts {u : Nat} (h : (r.machine i).shared.exited u = true) {j : Nat}
    (hj : i ≤ j) : (r.machine j).shared.exited u = true :=
  r.lasts (P := fun σ => σ.exited u = true) h (fun _ _ _ hstep hu => (step_keeps hstep).exited u hu)
    hj

/-- A thread is not blocked for ever if it gets its packet, and those it waits for return. -/
theorem free_of (hfair : r.Fair (Loops workers started))
    (hpacket : ∀ i' ≥ i, ∀ e k, r.at? t i' = some (some (e, .call .GetQueuedCompletionStatus k)) →
      0 < (r.machine i').shared.packets)
    (hwait : ∀ i' ≥ i, ∀ e u k, r.at? t i' = some (some (e, .call (.WaitForSingleObject u) k)) →
      r.Stands t i' → ∃ j ≥ i', (r.machine j).shared.exited u = true) : r.Free t i := by
  intro i' hi' e c k hc hstands j hj
  obtain ⟨n, hn⟩ : ∃ n, ∀ u, c = .WaitForSingleObject u → ∀ l ≥ n,
      (r.machine l).shared.exited u = true := by
    by_cases hw : ∃ u, c = .WaitForSingleObject u
    · obtain ⟨u, rfl⟩ := hw
      obtain ⟨n, -, hn⟩ := hwait i' hi' e u k hc hstands
      refine ⟨n, fun v hv l hl => ?_⟩
      cases hv
      exact exited_lasts hn hl
    · exact ⟨0, fun u hu => absurd ⟨u, hu⟩ hw⟩
  obtain ⟨l, hl, hfree⟩ := lock_free hfair (max j n)
  have hjl : j ≤ l := Nat.le_trans (Nat.le_max_left j n) hl
  refine ⟨l, hjl, exec_ready c (fun _ => hfree) ?_ fun u hu =>
    hn u hu l (Nat.le_trans (Nat.le_max_right j n) hl)⟩
  rintro rfl
  have hl' : i' ≤ l := Nat.le_trans hj hjl
  exact hpacket l (Nat.le_trans hi' hl') e k ((hstands l hl').trans hc)

/-- One packet was posted for each worker, and each worker takes one at most. -/
theorem State.Global.packets_pos {σ : State} (h : σ.Global workers started)
    (ht : IsWorker workers started t) (hnot : t ∉ σ.woken) (hposted : σ.posted = workers) :
    0 < σ.packets := by
  have hsub : t :: σ.woken ⊆ List.range' 2 workers := by
    intro u hu
    have hworker : IsWorker workers started u := by
      rcases List.mem_cons.mp hu with rfl | hu
      · exact ht
      · exact h.workers u hu
    rw [List.mem_range'_1, Nat.add_comm]
    exact ⟨hworker.1, hworker.2.1⟩
  have hlen := (List.subperm_of_subset (List.nodup_cons.mpr ⟨hnot, h.nodup⟩) hsub).length_le
  rw [List.length_cons, List.length_range'] at hlen
  have hcount := h.packets
  omega

theorem cleared_of {σ τ : State} {c : Cmd} {x : Choice} {v : c.Reply}
    (hflag : σ.m_bServerRunning = false) (h : exec t e c σ x = some (τ, v)) : Cleared c v := by
  cases c with
  | running =>
      cases x with
      | ok =>
          cases h
          exact hflag
      | core _ | wait _ | packet _ | fail => cases h
  | _ => exact trivial

/-- A loop ends once the flag is false, and a worker once the packets are posted. -/
theorem loop_exits (hfair : r.Fair (Loops workers started)) (ht : Loops workers started t)
    (hlt : t < threads) (hflag : ∀ j ≥ i, (r.machine j).shared.m_bServerRunning = false)
    (hposted : t ≠ 1 → ∀ j ≥ i, (r.machine j).shared.posted = workers) :
    ∃ j ≥ i, (r.machine j).shared.exited t = true := by
  by_contra hno
  have hexited : ∀ j ≥ i, (r.machine j).shared.exited t = false :=
    fun j hj => Bool.eq_false_iff.mpr fun h => hno ⟨j, hj, h⟩
  have hfree : r.Free t i := by
    refine free_of hfair (fun j hj e k hat => ?_) fun j hj e u k hat _ => ?_
    · obtain ⟨R, hbefore⟩ := before_at hat
      obtain ⟨hnot, hworker⟩ := hbefore.packet rfl
      have hne : t ≠ 1 := by
        rintro rfl
        exact Nat.not_succ_le_self 1 hworker.1
      exact (global_at j).packets_pos hworker hnot (hposted hne j hj)
    · obtain ⟨R, hbefore⟩ := before_at hat
      exact absurd (hbefore.wait u rfl).1 ht.ne_zero
  obtain ⟨j, hj, hidle⟩ : ∃ j ≥ i, r.at? t j = some none := by
    rcases hat : r.at? t i with _ | _ | ⟨e, p⟩
    · have hlen := List.getElem?_eq_none_iff.mp hat
      rw [r.length, idle, List.length_replicate] at hlen
      exact absurd hlt (Nat.not_lt.mpr hlen)
    · exact ⟨i, Nat.le_refl i, hat⟩
    · exact hfree.finishes hfair hat
  -- the next round reads the flag
  have hready : ∀ l ≥ j, ∃ e, (spawn cls workers started t e (r.machine l).shared).isSome :=
    fun l hl => spawn_ready ht (hexited l (Nat.le_trans hj hl))
  obtain ⟨l, hl, e, p, hspawn, hbegun⟩ := Run.begins hfair ht hidle hready
  have hil : i ≤ l + 1 := Nat.le_succ_of_le (Nat.le_trans hj hl)
  obtain ⟨n, hn, c, x, v, rfl, hexec⟩ := (hfree.later hil).reaches hfair
    (fun n hn e c x v hexec => cleared_of (hflag n (Nat.le_trans hil hn)) hexec) hbegun
    (spawn_loop ht hspawn).2
  have hend : (r.machine (n + 1)).shared.exited t = true := by
    cases x with
    | ok =>
        obtain ⟨hσ, -⟩ := Prod.mk.inj (Option.some.inj hexec)
        rw [← hσ]
        exact Function.update_self ..
    | core _ | wait _ | packet _ | fail => cases hexec
  exact Bool.false_ne_true
    ((hexited (n + 1) (Nat.le_succ_of_le (Nat.le_trans hil hn))).symm.trans hend)

/-- `StopServer` is never blocked for ever. -/
theorem free_stop (hfair : r.Fair (Loops workers started)) (hthreads : workers + 2 ≤ threads) :
    r.Free 0 i := by
  refine free_of hfair (fun j hj e k hat => ?_) fun j hj e u k hat hstands => ?_
  · obtain ⟨R, hbefore⟩ := before_at hat
    exact absurd (hbefore.packet rfl).2.1 (Nat.not_succ_le_zero 1)
  · have hknown : ∀ l ≥ j, (r.machine l).shared.m_bServerRunning = false ∧
        (u = 1 ∨ IsWorker workers started u ∧ (r.machine l).shared.posted = workers) := by
      intro l hl
      obtain ⟨R, hbefore⟩ := before_at ((hstands l hl).trans hat)
      exact (hbefore.wait u rfl).2
    have hu : Loops workers started u := (hknown j (Nat.le_refl j)).2.imp_right And.left
    refine loop_exits hfair hu ?_ (fun l hl => (hknown l hl).1) fun hne l hl =>
      ((hknown l hl).2.resolve_left hne).2
    rcases hu with rfl | hu
    · omega
    · exact Nat.lt_of_lt_of_le hu.2.1 hthreads

end

/-! ## `StopServer` -/

/-- **`StopServer` against all other threads.**  In every orderly run nothing that is gone is
used and no context is deleted while its operation is in flight; and if the run is fair,
`StopServer` returns. -/
theorem stopServer_orderly (cls : Class) (workers : Nat) (started : Nat → Bool) (hs : SOCKET)
    (others : Nat) :
    (∀ m, Via (system cls workers started).step Orderly (idle hs (workers + 2 + others)) m →
      Safe m) ∧
    ∀ r : Run (system cls workers started) Orderly (idle hs (workers + 2 + others)),
      r.Fair (Loops workers started) → ∀ i, (r.machine i).event 0 = some .StopServer →
        ∃ j ≥ i, r.at? 0 j = some none := by
  refine ⟨fun m hrun => safe_run hrun, fun r hfair i hstop => ?_⟩
  obtain ⟨o, ho, hevent⟩ := Option.bind_eq_some_iff.mp hstop
  obtain ⟨⟨e, p⟩, rfl, -⟩ := Option.map_eq_some_iff.mp hevent
  exact (free_stop hfair (Nat.le_add_right _ _)).finishes hfair ho

/-- When all threads are idle and the loops have ended, nobody has to act. -/
theorem not_ready_of_rest {cls : Class} {workers : Nat} {started : Nat → Bool} {m : Machine}
    {t : Nat} (hq : m.Quiescent) (hexited : ∀ u, Loops workers started u →
      m.shared.exited u = true) :
    ¬ (system cls workers started).Ready (Loops workers started) m t := by
  have hidle : ∀ q, m.threads[t]? ≠ some (some q) := fun q hq' =>
    absurd (hq _ (List.mem_of_getElem? hq')) nofun
  rintro (⟨x, hx⟩ | hfinish | ⟨ht, e, hbegin⟩)
  · obtain ⟨m', hm'⟩ := Option.isSome_iff_exists.mp hx
    obtain ⟨e, c, v, he, -⟩ := step_run hm'
    obtain ⟨o, ho, hoe⟩ := Option.bind_eq_some_iff.mp he
    obtain ⟨q, rfl, -⟩ := Option.map_eq_some_iff.mp hoe
    exact hidle q ho
  · simp only [System.step] at hfinish
    split at hfinish
    · rename_i hthread
      exact hidle _ hthread
    · cases hfinish
  · obtain ⟨m', hm'⟩ := Option.isSome_iff_exists.mp hbegin
    obtain ⟨-, p, hspawn⟩ := step_begin hm'
    exact Bool.false_ne_true ((spawn_loop ht hspawn).1.symm.trans (hexited t ht))

/-- `InitServer` posts one accept; the other sockets cannot be created. -/
def oneAccept : List Action := List.flatten [
  [.begin 0 .InitServer, .run 0 (.core (.handle 7))],
  List.replicate 4 (.run 0 (.core .ok)),
  List.flatten (List.replicate 31 [.run 0 (.core .fail), .run 0 (.core .ok)]),
  [.finish 0]]

/-- With one worker: the accept fails, and `StopServer` is called; a callback of the timer
is inside `m_struCriSec` when the map is cleared, and leaves it after the pools are gone. -/
def quiet : List Action := List.flatten [
  oneAccept,
  [.begin 2 .WorkThread, .run 2 .ok,
    .run 2 (.packet (.operation ⟨.accept, 63, 7, 0⟩ false [])),
    .run 2 (.core .ok), .run 2 (.core .ok), .run 2 (.core .ok), .finish 2,
    .begin 2 .WorkThread, .run 2 .ok,
    .begin 0 .StopServer, .run 0 .ok, .run 0 .ok, .run 0 .ok,
    .begin 1 .ListenThread, .run 1 .ok, .run 1 .ok, .finish 1, .run 0 .ok, .run 0 .ok,
    .run 2 (.packet .shutdown), .run 2 .ok, .run 2 .ok, .finish 2, .begin 3 .TimerProc],
  List.replicate 8 (.run 3 .ok),
  [.run 3 (.core .ok)],
  List.replicate 8 (.run 0 .ok),
  [.run 3 (.core .ok), .finish 3, .finish 0]]

theorem stopServer_orderly_quiet :
    ∃ r : Run (system .CTcpServer 1 fun _ => true) Orderly (idle 5 4),
      r.Fair (Loops 1 fun _ => true) ∧ ∃ i, (r.machine i).event 0 = some .StopServer
        ∧ ∃ j ≥ i, r.at? 0 j = some none ∧ Safe (r.machine j) := by
  have hend : ∃ m ∈ execIf (system .CTcpServer 1 fun _ => true).step Orderly (idle 5 4) quiet,
      m.Quiescent ∧ m.shared.exited 1 = true ∧ m.shared.exited 2 = true := by decide +kernel
  have hstop : ∃ m ∈ execIf (system .CTcpServer 1 fun _ => true).step Orderly (idle 5 4)
      (quiet.take 79), m.event 0 = some .StopServer := by decide +kernel
  obtain ⟨m, hm, hq, hlisten, hworker⟩ := hend
  obtain ⟨m', hm', hevent⟩ := hstop
  obtain ⟨r, hr, hrest⟩ := Run.exists_of_execIf hm
  have hexited : ∀ u, Loops 1 (fun _ => true) u → m.shared.exited u = true := by
    rintro u (rfl | ⟨hle, hlt, -⟩)
    · exact hlisten
    · obtain rfl : u = 2 := by omega
      exact hworker
  have hfair : r.Fair (Loops 1 fun _ => true) := by
    refine Run.fair_of_rest (i := quiet.length) fun j hj t => ?_
    rw [hrest j hj]
    exact not_ready_of_rest hq hexited
  have hat : (r.machine 79).event 0 = some .StopServer := (hr 79 m' hm') ▸ hevent
  obtain ⟨hsafe, hreturns⟩ := stopServer_orderly .CTcpServer 1 (fun _ => true) 5 1
  obtain ⟨j, hj, hidle⟩ := hreturns r hfair 79 hat
  exact ⟨r, hfair, 79, hat, j, hj, hidle, hsafe _ (r.via j)⟩

/-- `InitServer` has posted an accept, with the context that was created last, and a
callback of the timer is under way. -/
theorem not_stopServer_orderly :
    ∃ m, Via (system .CTcpServer 1 fun _ => true).step (fun _ _ => True) (idle 5 4) m ∧
      m.shared.early = true ∧ m.shared.misused = true := by
  have hrun : ∃ m, Via (system .CTcpServer 1 fun _ => true).step (fun _ _ => True) (idle 5 4) m ∧
      m.shared.early = true ∧ m.shared.misused = true := exists_via_of_execIf (List.flatten [
    oneAccept,
    [.begin 3 .TimerProc, .begin 0 .StopServer, .run 0 .ok, .run 0 .ok, .run 0 .ok,
      .begin 1 .ListenThread, .run 1 .ok, .run 1 .ok, .finish 1, .run 0 .ok, .run 0 .ok,
      .begin 2 .WorkThread, .run 2 .ok, .run 2 .ok, .finish 2],
    List.replicate 7 (.run 0 .ok),
    [.run 3 .ok]]) (by decide +kernel)
  exact hrun

end CppWorkspace.TcpServer.Shutdown
