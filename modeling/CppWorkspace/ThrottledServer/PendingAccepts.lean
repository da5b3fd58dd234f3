/-
# `CppWorkspace.ThrottledServer.PendingAccepts` — the list and the count of the accepts

A buffer is linked in `PendingAccepts` before `PostAccept`, whose result nobody looks at,
and unlinked by the handler of an accept without an error.  So three things leave it there:

    socket or AcceptEx fails    the buffer is linked, and in no operation
    an accept fails             the same, and `FreeBufferObj` overwrites its `next`; nor is
                                `PendingAcceptCount` lowered

`Accounted` holds where no thread is inside an event if and only if none of this has
happened on the way (`accounted_iff`).
-/
import CppWorkspace.ThrottledServer.Events

namespace CppWorkspace.ThrottledServer

open Programs Runs LinkedList

/-- `PendingAccepts` has the buffers of the accepts in flight, `PendingAcceptCount` is its
length, and none of its buffers is free. -/
def Accounted (σ : Server) (l : Nat) : Prop :=
  ∃ list free, Chain σ.next (σ.listen l).PendingAccepts list ∧
    Chain σ.next σ.gFreeBufferList free ∧ (list : Multiset Nat) = accepting l σ.flight ∧
    list.Disjoint free ∧ (σ.listen l).PendingAcceptCount = list.length

/-- No accept completes with an error. -/
def Answered (_ : Machine) : Action → Prop
  | .begin _ (.completion op error _ _) => error = true → op.operation ≠ .OP_ACCEPT
  | _ => True

/-- And `PostAccept` does not fail. -/
def Faultless (m : Machine) : Action → Prop
  | .begin _ (.completion op error _ _) => error = true → op.operation ≠ .OP_ACCEPT
  | .run t x => ∀ c ∈ m.next t, c.abandons x = []
  | _ => True

instance (m : Machine) : (a : Action) → Decidable (Faultless m a)
  | .begin _ (.completion op error _ _) =>
      inferInstanceAs (Decidable (error = true → op.operation ≠ .OP_ACCEPT))
  | .begin _ (.initialAccepts _) => .isTrue trivial
  | .begin _ (.FD_ACCEPT _) => .isTrue trivial
  | .begin _ (.RepostAccept _) => .isTrue trivial
  | .run t x => inferInstanceAs (Decidable (∀ c ∈ m.next t, c.abandons x = []))
  | .finish _ => .isTrue trivial

variable {cfg : Config} {threads : Nat} {m m' : Machine} {σ σ' : Server} {t l : Nat} {e : Event}

/-! ## What holds in all runs, and if no accept fails -/

theorem reachable_run (h : Reachable cfg threads m) : ∃ rs, (rules cfg .nothing).Good m rs := by
  refine world_run (fun m rs t e _ _ => ?_) (fun _ _ _ _ _ _ _ _ _ hs => ?_)
    (fun m t x c _ _ => ⟨nofun, nofun⟩) h
  · cases e with
    | completion op error data rounds => exact ⟨nofun, nofun⟩
    | _ => trivial
  · cases hs

theorem answered_run (h : Via (system cfg).step Answered (start cfg threads) m) :
    ∃ rs, (rules cfg .lists).Good m rs := by
  refine world_run (fun m rs t e _ hcond => ?_) (fun _ _ _ _ _ _ _ _ _ hs => ?_)
    (fun m t x c _ _ => ⟨nofun, nofun⟩) h
  · cases e with
    | completion op error data rounds => exact ⟨fun _ herror haccept => absurd haccept (hcond herror), nofun⟩
    | _ => trivial
  · cases hs

theorem count_of_reachable (h : Reachable cfg threads m) (hq : m.Quiescent) (l : Nat) :
    (m.shared.listen l).PendingAcceptCount = m.shared.accepts l + m.shared.failedAccepts l := by
  obtain ⟨rs, hgood⟩ := reachable_run h
  exact (add_zero _).symm.trans ((world_quiescent hgood hq).accepts.count l)

theorem card_accepting (flight : List Op) :
    (accepting l flight).card = flight.countP fun op => op.key.list = some l := by
  rw [accepting, Multiset.coe_card, List.length_map, List.countP_eq_length_filter]

/-- The list has the buffers that `PostAccept` has left behind, too. -/
theorem list_of_answered (h : Via (system cfg).step Answered (start cfg threads) m)
    (hq : m.Quiescent) (l : Nat) :
    ∃ list free, Chain m.shared.next (m.shared.listen l).PendingAccepts list ∧
      Chain m.shared.next m.shared.gFreeBufferList free ∧ list.Disjoint free ∧
      (list : Multiset Nat) = accepting l m.shared.flight + leftBehind l m.shared.abandoned := by
  obtain ⟨rs, hgood⟩ := answered_run h
  obtain ⟨L, hL⟩ := (world_quiescent hgood hq).listed rfl
  have hfailed := failedAccepts_run (fun _ _ _ _ _ hcond => hcond rfl) h
  have hloose : ¬ m.shared.loose (.PendingAccepts l) := by
    simp [Server.loose, hfailed]
  refine ⟨_, _, hL.buffers.lists.chain (.PendingAccepts l) hloose,
    hL.buffers.lists.chain .gFreeBufferList id, fun b hb hfree => ?_, ?_⟩
  · cases hL.buffers.lists.disjoint (.PendingAccepts l) .gFreeBufferList b hb hfree
  · exact (hL.buffers.pending l).trans (add_zero _)

/-! ## The failures of a run -/

/-- An accept that has failed is never forgotten. -/
theorem answered_step {a : Action}
    (hkind : ∀ op ∈ m.shared.flight, op.operation = .OP_ACCEPT ↔ ∃ l, op.key = .listen l)
    (hstep : (system cfg).step m a = some m') :
    (∀ l, m'.shared.failedAccepts l = 0) ↔
      (∀ l, m.shared.failedAccepts l = 0) ∧ Answered m a := by
  cases a with
  | run t x =>
      obtain ⟨e, c, v, -, -, hexec⟩ := step_run hstep
      have hsame : m'.shared.failedAccepts = m.shared.failedAccepts :=
        congrArg Prod.fst (failures_exec (t := t) (e := e) hexec)
      rw [hsame]
      exact (and_iff_left trivial).symm
  | finish t =>
      rw [step_finish hstep]
      exact (and_iff_left trivial).symm
  | begin t e =>
      obtain ⟨-, p, hspawn⟩ := step_begin hstep
      rcases failures_spawn (t := t) hspawn with ⟨hno, hfail⟩ | ⟨op, hop, data, rounds, rfl, hfail⟩
      · have hsame : m'.shared.failedAccepts = m.shared.failedAccepts := congrArg Prod.fst hfail
        rw [hsame]
        refine (and_iff_left ?_).symm
        cases e with
        | completion op error data rounds =>
            rintro rfl
            exact absurd rfl (hno op data rounds)
        | _ => trivial
      · have hfailed : m'.shared.failedAccepts = _ := congrArg Prod.fst hfail
        rw [hfailed]
        by_cases haccept : op.operation = .OP_ACCEPT
        · -- neither side holds
          obtain ⟨l, hkey⟩ := (hkind op hop).mp haccept
          refine iff_of_false (fun h => ?_) fun h => h.2 rfl haccept
          have hself := h l
          simp [Server.failures, Server.fail, haccept, hkey] at hself
        · have hsame : (({ m.shared with flight := m.shared.flight.erase op } : Server).fail
              op).failedAccepts = m.shared.failedAccepts := by
            unfold Server.fail
            split
            · rename_i hop' _
              exact absurd hop' haccept
            · rfl
            · rfl
          refine Iff.trans ?_ (and_iff_left fun _ => haccept).symm
          exact iff_of_eq (congrArg (fun f : Nat → Nat => ∀ l, f l = 0) hsame)

theorem answered_iff (h : Reachable cfg threads m) : (∀ l, m.shared.failedAccepts l = 0) ↔
    Via (system cfg).step Answered (start cfg threads) m := by
  constructor
  · intro hnone
    induction h with
    | refl => exact .refl
    | tail a hvia _ hstep ih =>
        obtain ⟨rs, hgood⟩ := reachable_run hvia
        obtain ⟨hbefore, hans⟩ := (answered_step hgood.inv.accepts.kind hstep).mp hnone
        exact .tail a (ih hbefore) hans hstep
  · intro hvia
    refine hvia.invariant₂ (P := fun m => ∀ l, m.shared.failedAccepts l = 0)
      (fun m hm => reachable_run (hm.mono fun _ _ _ => trivial)) (fun _ => rfl) ?_
    rintro m a m' ⟨rs, hgood⟩ hnone hans hstep
    exact (answered_step hgood.inv.accepts.kind hstep).mpr ⟨hnone, hans⟩

theorem faultless_step {a : Action} (hans : Answered m a)
    (hstep : (system cfg).step m a = some m') :
    m'.shared.abandoned = [] ↔ m.shared.abandoned = [] ∧ Faultless m a := by
  cases a with
  | run t x =>
      obtain ⟨e, c, v, -, hnext, hexec⟩ := step_run hstep
      have hgrow : m'.shared.abandoned = c.abandons x ++ m.shared.abandoned :=
        congrArg (·.2.2) (failures_exec (t := t) (e := e) hexec)
      have hself : Faultless m (.run t x) ↔ c.abandons x = [] := by
        simp [Faultless, hnext]
      rw [hgrow, List.append_eq_nil_iff, hself, and_comm]
  | finish t =>
      rw [step_finish hstep]
      exact (and_iff_left trivial).symm
  | begin t e =>
      obtain ⟨-, p, hspawn⟩ := step_begin hstep
      have hsame : m'.shared.abandoned = m.shared.abandoned := by
        rcases failures_spawn (t := t) hspawn with ⟨-, hfail⟩ | ⟨op, -, data, rounds, -, hfail⟩
        · exact congrArg (·.2.2) hfail
        · refine (congrArg (·.2.2) hfail).trans ?_
          simp only [Server.failures, Server.fail]
          split <;> rfl
      rw [hsame]
      exact (and_iff_left (by cases e <;> exact hans)).symm

theorem Faultless.answered {a : Action} (h : Faultless m a) : Answered m a := by
  cases a with
  | begin t e => cases e <;> exact h
  | _ => trivial

theorem faultless_iff (h : Via (system cfg).step Answered (start cfg threads) m) :
    m.shared.abandoned = [] ↔ Via (system cfg).step Faultless (start cfg threads) m := by
  constructor
  · intro hnone
    induction h with
    | refl => exact .refl
    | tail a _ hans hstep ih =>
        obtain ⟨hbefore, hfault⟩ := (faultless_step hans hstep).mp hnone
        exact .tail a (ih hbefore) hfault hstep
  · refine fun hvia => hvia.invariant (P := fun m => m.shared.abandoned = []) rfl ?_
    exact fun m a m' hnone hfault hstep =>
      (faultless_step hfault.answered hstep).mpr ⟨hnone, hfault⟩

/-! ## The accounts -/

theorem leftBehind_eq_zero {abandoned : List (Nat × Nat)} (h : ∀ l, leftBehind l abandoned = 0) :
    abandoned = [] := by
  cases abandoned with
  | nil => rfl
  | cons a abandoned =>
      have hself := h a.1
      rw [leftBehind_cons (l := a.1) (b := a.2)] at hself
      exact absurd hself (Multiset.cons_ne_zero)

/-- **Exactly the runs in which no accept fails keep the accounts.** -/
theorem accounted_iff (h : Reachable cfg threads m) (hq : m.Quiescent) :
    (∀ l, Accounted m.shared l) ↔ Via (system cfg).step Faultless (start cfg threads) m := by
  constructor
  · intro hall
    have hans : Via (system cfg).step Answered (start cfg threads) m := by
      refine (answered_iff h).mp fun l => ?_
      obtain ⟨list, free, -, -, hlist, -, hcount⟩ := hall l
      have hlength : list.length = m.shared.accepts l := by
        rw [← Multiset.coe_card, hlist, card_accepting, Server.accepts]
      have hlaw := count_of_reachable h hq l
      omega
    refine (faultless_iff hans).mp (leftBehind_eq_zero fun l => ?_)
    obtain ⟨list, free, hchain, -, hlist, -, -⟩ := hall l
    obtain ⟨list', free', hchain', -, -, hlist'⟩ := list_of_answered hans hq l
    rw [hchain'.unique hchain, hlist] at hlist'
    exact left_eq_add.mp hlist'
  · intro hfault l
    have hans := hfault.mono fun _ _ => Faultless.answered
    obtain ⟨list, free, hchain, hfree, hdisjoint, hlist⟩ := list_of_answered hans hq l
    rw [(faultless_iff hans).mpr hfault, show leftBehind l [] = 0 from rfl, add_zero] at hlist
    refine ⟨list, free, hchain, hfree, hlist, hdisjoint, ?_⟩
    have hlaw := count_of_reachable h hq l
    rw [(answered_iff h).mpr hans l] at hlaw
    rw [hlaw, ← Multiset.coe_card, hlist, card_accepting]
    exact add_zero _

/-! One accept is posted; it completes, or it fails. -/

def oneAccept : Config := ⟨4096, 1, 500, 1⟩

def posted : List Action :=
  .begin 0 (.initialAccepts 0) ::
    [.run 0 .ok, .run 0 .ok, .run 0 (.handle 100), .run 0 .ok, .run 0 .ok, .finish 0]

/-- The client hangs up before it is accepted. -/
def hungUp : List Action :=
  posted ++ .begin 0 (.completion ⟨.OP_ACCEPT, .listen 0, 100, 0, 3808⟩ true [] 0) ::
    [.run 0 .ok, .run 0 .ok, .run 0 .ok, .finish 0]

theorem accounted_posted : ∃ m, m.Quiescent ∧ m.shared.accepts 0 = 1 ∧
    (∀ l, Accounted m.shared l) ∧ Via (system oneAccept).step Faultless (start oneAccept 1) m := by
  have hrun : ∃ m, Via (system oneAccept).step Faultless (start oneAccept 1) m ∧
      m.Quiescent ∧ m.shared.accepts 0 = 1 := exists_via_of_execIf posted (by decide +kernel)
  obtain ⟨m, hm, hq, hone⟩ := hrun
  exact ⟨m, hq, hone, (accounted_iff (hm.mono fun _ _ _ => trivial) hq).mpr hm, hm⟩

theorem accounted_hungUp : ∃ m, Reachable oneAccept 1 m ∧ m.Quiescent ∧
    m.shared.flight = [] ∧ (m.shared.listen 0).PendingAcceptCount = 1 ∧
    (m.shared.listen 0).PendingAccepts = m.shared.gFreeBufferList ∧
    ¬ ∀ l, Accounted m.shared l := by
  have hrun : ∃ m, Reachable oneAccept 1 m ∧ m.Quiescent ∧ m.shared.flight = [] ∧
      (m.shared.listen 0).PendingAcceptCount = 1 ∧
      (m.shared.listen 0).PendingAccepts = m.shared.gFreeBufferList :=
    exists_via_of_execIf hungUp (by decide +kernel)
  obtain ⟨m, hm, hq, hflight, hcount, hfree⟩ := hrun
  refine ⟨m, hm, hq, hflight, hcount, hfree, fun hall => ?_⟩
  obtain ⟨list, free, -, -, hlist, -, hlength⟩ := hall 0
  rw [hflight] at hlist
  have hnil : list = [] := (Multiset.coe_eq_zero list).mp hlist
  rw [hcount, hnil] at hlength
  cases hlength

end CppWorkspace.ThrottledServer
