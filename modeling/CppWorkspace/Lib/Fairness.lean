/-
# `CppWorkspace.Lib.Fairness` — infinite runs, and what a fair scheduler brings about

In an infinite `Run` one action is taken at each time, or none.  It is `Fair` if a thread
that is ready again and again acts again and again.  Ready is a thread before a command
that can be executed, one that has returned, and an idle one that `loops`: it begins the
next event by itself.

A program has an end on every path, so a thread comes to the end of its program as soon as
it never stands for ever before a command that is blocked (`Run.Free.finishes`); and if every
path leads to a command of some kind (`Must`), it comes to one (`Run.Free.reaches`).  A list
of actions is made a run by doing nothing after them (`Run.exists_of_execIf`).
-/
import CppWorkspace.Lib.Programs

namespace CppWorkspace.Programs

open Runs

variable {S C X E α : Type} {R : C → Type}

/-- The thread that acts. -/
def Act.thread : Act X E → Nat
  | .run t _ => t
  | .begin t _ => t
  | .finish t => t

/-- One action, or none. -/
def System.Moves (Y : System S C R X E α) (cond : Machine S C R E α → Act X E → Prop)
    (m : Machine S C R E α) (o : Option (Act X E)) (m' : Machine S C R E α) : Prop :=
  match o with
  | none => m' = m
  | some a => cond m a ∧ Y.step m a = some m'

/-- An infinite run whose steps meet a condition. -/
structure Run (Y : System S C R X E α) (cond : Machine S C R E α → Act X E → Prop)
    (m₀ : Machine S C R E α) where
  machine : Nat → Machine S C R E α
  act : Nat → Option (Act X E)
  first : machine 0 = m₀
  moves : ∀ i, Y.Moves cond (machine i) (act i) (machine (i + 1))

def System.Ready (Y : System S C R X E α) (loops : Nat → Prop) (m : Machine S C R E α)
    (t : Nat) : Prop :=
  (∃ x, (Y.step m (.run t x)).isSome) ∨ (Y.step m (.finish t)).isSome
    ∨ loops t ∧ ∃ e, (Y.step m (.begin t e)).isSome

section
variable {Y : System S C R X E α} {cond : Machine S C R E α → Act X E → Prop}
  {m m' m₀ : Machine S C R E α} {t : Nat}

theorem step_others {a : Act X E} (h : Y.step m a = some m') (hne : a.thread ≠ t) :
    m'.threads[t]? = m.threads[t]? := by
  cases a with
  | run u x =>
      simp only [System.step] at h
      split at h
      · obtain ⟨r, -, rfl⟩ := Option.map_eq_some_iff.mp h
        exact List.getElem?_set_ne hne
      · cases h
  | begin u e =>
      simp only [System.step] at h
      split at h
      · obtain ⟨r, -, rfl⟩ := Option.map_eq_some_iff.mp h
        exact List.getElem?_set_ne hne
      · cases h
  | finish u =>
      simp only [System.step] at h
      split at h
      · cases h
        exact List.getElem?_set_ne hne
      · cases h

theorem getElem?_set_of_some {β : Type} {l : List β} {b b' : β} (h : l[t]? = some b) :
    (l.set t b')[t]? = some b' := by
  rw [List.getElem?_set_self', h]
  rfl

theorem step_length {a : Act X E} (h : Y.step m a = some m') :
    m'.threads.length = m.threads.length := by
  cases a with
  | run u x =>
      simp only [System.step] at h
      split at h
      · obtain ⟨r, -, rfl⟩ := Option.map_eq_some_iff.mp h
        exact List.length_set
      · cases h
  | begin u e =>
      simp only [System.step] at h
      split at h
      · obtain ⟨r, -, rfl⟩ := Option.map_eq_some_iff.mp h
        exact List.length_set
      · cases h
  | finish u =>
      simp only [System.step] at h
      split at h
      · cases h
        exact List.length_set
      · cases h

/-- A thread before a command can only execute it. -/
theorem step_at_call {a : Act X E} {e : E} {c : C} {k : R c → Prog C R α}
    (ht : m.threads[t]? = some (some (e, .call c k))) (h : Y.step m a = some m')
    (ha : a.thread = t) : ∃ x v, a = .run t x ∧ Y.exec t e c m.shared x = some (m'.shared, v)
      ∧ m'.threads[t]? = some (some (e, k v)) := by
  cases a with
  | run u x =>
      obtain rfl : u = t := ha
      simp only [System.step, ht] at h
      obtain ⟨⟨σ, v⟩, hexec, rfl⟩ := Option.map_eq_some_iff.mp h
      exact ⟨x, v, rfl, hexec, getElem?_set_of_some ht⟩
  | begin u e =>
      obtain rfl : u = t := ha
      simp only [System.step, ht] at h
      cases h
  | finish u =>
      obtain rfl : u = t := ha
      simp only [System.step, ht] at h
      cases h

/-- One that has returned can only become idle. -/
theorem step_at_ret {a : Act X E} {e : E} {b : α}
    (ht : m.threads[t]? = some (some (e, .ret b))) (h : Y.step m a = some m')
    (ha : a.thread = t) : m'.threads[t]? = some none := by
  cases a with
  | run u x =>
      obtain rfl : u = t := ha
      simp only [System.step, ht] at h
      cases h
  | begin u e =>
      obtain rfl : u = t := ha
      simp only [System.step, ht] at h
      cases h
  | finish u =>
      obtain rfl : u = t := ha
      simp only [System.step, ht] at h
      cases h
      exact getElem?_set_of_some ht

theorem step_at_idle {a : Act X E} (ht : m.threads[t]? = some none)
    (h : Y.step m a = some m') (ha : a.thread = t) :
    ∃ e p, a = .begin t e ∧ Y.spawn t e m.shared = some (m'.shared, p)
      ∧ m'.threads[t]? = some (some (e, p)) := by
  cases a with
  | run u x =>
      obtain rfl : u = t := ha
      simp only [System.step, ht] at h
      cases h
  | begin u e =>
      obtain rfl : u = t := ha
      simp only [System.step, ht] at h
      obtain ⟨⟨σ, p⟩, hspawn, rfl⟩ := Option.map_eq_some_iff.mp h
      exact ⟨e, p, rfl, hspawn, getElem?_set_of_some ht⟩
  | finish u =>
      obtain rfl : u = t := ha
      simp only [System.step, ht] at h
      cases h

end

namespace Run

variable {Y : System S C R X E α} {cond : Machine S C R E α → Act X E → Prop}
  {m₀ : Machine S C R E α} (r : Run Y cond m₀) {loops : Nat → Prop} {t i : Nat}

/-- What thread `t` is about at time `i`. -/
def at? (t i : Nat) : Option (Option (E × Prog C R α)) := (r.machine i).threads[t]?

/-- Thread `t` acts at time `i`. -/
def Acts (t i : Nat) : Prop := ∃ a, r.act i = some a ∧ a.thread = t

/-- A thread that is ready again and again acts again and again. -/
def Fair (loops : Nat → Prop) : Prop :=
  ∀ t, (∀ i, ∃ j ≥ i, Y.Ready loops (r.machine j) t) → ∀ i, ∃ j ≥ i, r.Acts t j

/-- Thread `t` stands where it stood at time `i`. -/
def Stands (t i : Nat) : Prop := ∀ j ≥ i, r.at? t j = r.at? t i

theorem via (i : Nat) : Via Y.step cond m₀ (r.machine i) := by
  induction i with
  | zero =>
      rw [r.first]
      exact .refl
  | succ i ih =>
      have hmoves := r.moves i
      unfold System.Moves at hmoves
      split at hmoves
      · rwa [hmoves]
      · exact .tail _ ih hmoves.1 hmoves.2

theorem lasts {P : S → Prop} (h : P (r.machine i).shared)
    (hstep : ∀ j ≥ i, ∀ a, Y.step (r.machine j) a = some (r.machine (j + 1)) →
      P (r.machine j).shared → P (r.machine (j + 1)).shared) {j : Nat} (hj : i ≤ j) :
    P (r.machine j).shared := by
  obtain ⟨d, rfl⟩ := Nat.exists_eq_add_of_le hj
  clear hj
  induction d with
  | zero => exact h
  | succ d ih =>
      have hmoves := r.moves (i + d)
      unfold System.Moves at hmoves
      split at hmoves
      · rwa [← Nat.add_assoc, hmoves]
      · exact hstep _ (Nat.le_add_right i d) _ hmoves.2 ih

theorem length (i : Nat) : (r.machine i).threads.length = m₀.threads.length :=
  (r.via i).invariant (P := fun m => m.threads.length = m₀.threads.length) rfl
    fun _ _ _ h _ hstep => (step_length hstep).trans h

theorem acts_step (h : r.Acts t i) : ∃ a, a.thread = t ∧ cond (r.machine i) a
    ∧ Y.step (r.machine i) a = some (r.machine (i + 1)) := by
  obtain ⟨a, ha, hthread⟩ := h
  have hmoves := r.moves i
  rw [ha] at hmoves
  exact ⟨a, hthread, hmoves.1, hmoves.2⟩

theorem at?_succ (h : ¬ r.Acts t i) : r.at? t (i + 1) = r.at? t i := by
  have hmoves := r.moves i
  unfold System.Moves at hmoves
  split at hmoves
  · rw [at?, hmoves, at?]
  · rename_i a ha
    exact step_others hmoves.2 fun hthread => h ⟨a, ha, hthread⟩

/-- A thread that would be ready again and again if it stood for ever, does not. -/
theorem acts (hfair : r.Fair loops)
    (hready : r.Stands t i → ∀ j ≥ i, ∃ l ≥ j, Y.Ready loops (r.machine l) t) :
    ∃ j ≥ i, r.at? t j = r.at? t i ∧ r.Acts t j := by
  by_contra hno
  have hstands : r.Stands t i := by
    intro j hj
    obtain ⟨d, rfl⟩ := Nat.exists_eq_add_of_le hj
    clear hj
    induction d with
    | zero => rfl
    | succ d ih =>
        rw [← Nat.add_assoc, r.at?_succ fun hacts => hno ⟨i + d, Nat.le_add_right i d, ih, hacts⟩,
          ih]
  have hagain : ∀ n, ∃ j ≥ n, Y.Ready loops (r.machine j) t := fun n => by
    obtain ⟨l, hl, hl'⟩ := hready hstands (max n i) (Nat.le_max_right n i)
    exact ⟨l, Nat.le_trans (Nat.le_max_left n i) hl, hl'⟩
  obtain ⟨j, hj, hacts⟩ := hfair t hagain i
  exact hno ⟨j, hj, hstands j hj, hacts⟩

/-- From time `i` on, thread `t` is not blocked for ever before a command. -/
def Free (t i : Nat) : Prop :=
  ∀ i' ≥ i, ∀ e c k, r.at? t i' = some (some (e, .call c k)) → r.Stands t i' →
    ∀ j ≥ i', ∃ l ≥ j, ∃ x, (Y.exec t e c (r.machine l).shared x).isSome

variable {r}

theorem Free.runs (h : r.Free t i) (hfair : r.Fair loops) {e : E} {c : C}
    {k : R c → Prog C R α} (ht : r.at? t i = some (some (e, .call c k))) :
    ∃ j ≥ i, r.at? t j = some (some (e, .call c k)) ∧ ∃ x v,
      cond (r.machine j) (.run t x)
        ∧ Y.exec t e c (r.machine j).shared x = some ((r.machine (j + 1)).shared, v)
        ∧ r.at? t (j + 1) = some (some (e, k v)) := by
  obtain ⟨j, hj, hsame, hacts⟩ := r.acts (t := t) (i := i) hfair fun hstands j hj => by
    obtain ⟨l, hl, x, hx⟩ := h i (Nat.le_refl i) e c k ht hstands j hj
    refine ⟨l, hl, .inl ⟨x, ?_⟩⟩
    have hl' : (r.machine l).threads[t]? = some (some (e, .call c k)) :=
      (hstands l (Nat.le_trans hj hl)).trans ht
    simp only [System.step, hl', Option.isSome_map]
    exact hx
  obtain ⟨a, ha, hcond, hstep⟩ := r.acts_step hacts
  obtain ⟨x, v, rfl, hexec, hnext⟩ := step_at_call (hsame.trans ht) hstep ha
  exact ⟨j, hj, hsame.trans ht, x, v, hcond, hexec, hnext⟩

theorem Free.later (h : r.Free t i) {j : Nat} (hj : i ≤ j) : r.Free t j :=
  fun i' hi' => h i' (Nat.le_trans hj hi')

/-- A thread that is never blocked for ever comes to the end of its event. -/
theorem Free.finishes (h : r.Free t i) (hfair : r.Fair loops) {e : E} {p : Prog C R α}
    (ht : r.at? t i = some (some (e, p))) : ∃ j ≥ i, r.at? t j = some none := by
  induction p generalizing i with
  | ret b =>
      obtain ⟨j, hj, hsame, hacts⟩ := r.acts (t := t) (i := i) hfair fun hstands j hj => by
        refine ⟨j, Nat.le_refl j, .inr (.inl ?_)⟩
        have hj' : (r.machine j).threads[t]? = some (some (e, .ret b)) := (hstands j hj).trans ht
        simp only [System.step, hj', Option.isSome_some]
      obtain ⟨a, ha, -, hstep⟩ := r.acts_step hacts
      exact ⟨j + 1, Nat.le_succ_of_le hj, step_at_ret (hsame.trans ht) hstep ha⟩
  | call c k ih =>
      obtain ⟨j, hj, -, x, v, -, -, hnext⟩ := h.runs hfair ht
      obtain ⟨l, hl, hidle⟩ := ih v (h.later (Nat.le_succ_of_le hj)) hnext
      exact ⟨l, by omega, hidle⟩

end Run

namespace Prog

/-- Every path whose replies are `ok` leads to a command of `P`. -/
def Must (P : C → Prop) (ok : (c : C) → R c → Prop) : Prog C R α → Prop
  | ret _ => False
  | call c k => P c ∨ ∀ v, ok c v → Must P ok (k v)

/-- Every command is one of `P`. -/
def All (P : C → Prop) : Prog C R α → Prop
  | ret _ => True
  | call c k => P c ∧ ∀ v, All P (k v)

theorem all_pure {P : C → Prop} {a : α} : (pure a : Prog C R α).All P := trivial

theorem all_perform {P : C → Prop} {c : C} (h : P c) : (perform c : Prog C R (R c)).All P :=
  ⟨h, fun _ => trivial⟩

theorem All.bind {P : C → Prop} {β : Type} {p : Prog C R β} {f : β → Prog C R α} (h : p.All P)
    (hf : ∀ b, (f b).All P) : (p >>= f).All P := by
  induction p with
  | ret b => exact hf b
  | call c k ih => exact ⟨h.1, fun v => ih v (h.2 v)⟩

theorem All.mono {P Q : C → Prop} {p : Prog C R α} (h : p.All P) (hPQ : ∀ c, P c → Q c) :
    p.All Q := by
  induction p with
  | ret b => exact trivial
  | call c k ih => exact ⟨hPQ c h.1, fun v => ih v (h.2 v)⟩

theorem all_call {P : C → Prop} {c : C} {f : R c → Prog C R α} (h : P c)
    (hf : ∀ v, (f v).All P) : (perform c >>= f).All P := (all_perform h).bind hf

end Prog

namespace Run

variable {Y : System S C R X E α} {cond : Machine S C R E α → Act X E → Prop}
  {m₀ : Machine S C R E α} {r : Run Y cond m₀} {loops : Nat → Prop} {t i : Nat}

/-- A thread that is never blocked for ever comes to what is on every path. -/
theorem Free.reaches {P : C → Prop} {ok : (c : C) → R c → Prop} (h : r.Free t i)
    (hfair : r.Fair loops)
    (hok : ∀ j ≥ i, ∀ e c x v, Y.exec t e c (r.machine j).shared x
      = some ((r.machine (j + 1)).shared, v) → ok c v)
    {e : E} {p : Prog C R α} (ht : r.at? t i = some (some (e, p))) (hp : p.Must P ok) :
    ∃ j ≥ i, ∃ c x v, P c
      ∧ Y.exec t e c (r.machine j).shared x = some ((r.machine (j + 1)).shared, v) := by
  induction p generalizing i with
  | ret b => exact hp.elim
  | call c k ih =>
      obtain ⟨j, hj, -, x, v, -, hexec, hnext⟩ := h.runs hfair ht
      rcases hp with hP | hall
      · exact ⟨j, hj, c, x, v, hP, hexec⟩
      · obtain ⟨l, hl, hend⟩ := ih v (h.later (Nat.le_succ_of_le hj))
          (fun n hn => hok n (by omega)) hnext (hall v (hok j hj e c x v hexec))
        exact ⟨l, by omega, hend⟩

theorem fair_of_rest (h : ∀ j ≥ i, ∀ t, ¬ Y.Ready loops (r.machine j) t) : r.Fair loops := by
  intro t hready
  obtain ⟨j, hj, hj'⟩ := hready i
  exact absurd hj' (h j hj t)

/-- An idle thread that loops begins its next event, unless it could not for ever. -/
theorem begins (hfair : r.Fair loops) (hloop : loops t) (ht : r.at? t i = some none)
    (hspawn : ∀ j ≥ i, ∃ e, (Y.spawn t e (r.machine j).shared).isSome) :
    ∃ j ≥ i, ∃ e p, Y.spawn t e (r.machine j).shared = some ((r.machine (j + 1)).shared, p)
      ∧ r.at? t (j + 1) = some (some (e, p)) := by
  obtain ⟨j, hj, hsame, hacts⟩ := r.acts (t := t) (i := i) hfair fun hstands j hj => by
    obtain ⟨e, he⟩ := hspawn j hj
    refine ⟨j, Nat.le_refl j, .inr (.inr ⟨hloop, e, ?_⟩)⟩
    have hj' : (r.machine j).threads[t]? = some none := (hstands j hj).trans ht
    simp only [System.step, hj', Option.isSome_map]
    exact he
  obtain ⟨a, ha, -, hstep⟩ := r.acts_step hacts
  obtain ⟨e, p, -, hbegin, hnext⟩ := step_at_idle (hsame.trans ht) hstep ha
  exact ⟨j, hj, e, p, hbegin, hnext⟩

/-- One action first. -/
def cons {m : Machine S C R E α} {a : Act X E} (hcond : cond m₀ a) (hstep : Y.step m₀ a = some m)
    (r : Run Y cond m) : Run Y cond m₀ where
  machine i := match i with
    | 0 => m₀
    | i + 1 => r.machine i
  act i := match i with
    | 0 => some a
    | i + 1 => r.act i
  first := rfl
  moves i := match i with
    | 0 => by
        show cond m₀ a ∧ Y.step m₀ a = some (r.machine 0)
        rw [r.first]
        exact ⟨hcond, hstep⟩
    | i + 1 => r.moves i

/-- Nothing happens. -/
def still (m₀ : Machine S C R E α) : Run Y cond m₀ where
  machine _ := m₀
  act _ := none
  first := rfl
  moves _ := rfl

theorem exists_of_execIf [∀ m a, Decidable (cond m a)] {acts : List (Act X E)}
    {m : Machine S C R E α} (h : execIf Y.step cond m₀ acts = some m) : ∃ r : Run Y cond m₀,
      (∀ i m', execIf Y.step cond m₀ (acts.take i) = some m' → r.machine i = m')
        ∧ ∀ i ≥ acts.length, r.machine i = m := by
  induction acts generalizing m₀ with
  | nil =>
      cases h
      refine ⟨still m, fun i m' h => ?_, fun _ _ => rfl⟩
      rw [List.take_nil] at h
      cases h
      rfl
  | cons a acts ih =>
      simp only [execIf] at h
      split at h
      · rename_i hcond
        obtain ⟨m₁, hm₁, hrest⟩ := Option.bind_eq_some_iff.mp h
        obtain ⟨r, hr, hend⟩ := ih hrest
        refine ⟨cons hcond hm₁ r, fun i m' h => ?_, fun i hi => ?_⟩
        · cases i with
          | zero =>
              cases h
              rfl
          | succ i =>
              rw [List.take_succ_cons, execIf, if_pos hcond, hm₁] at h
              exact hr i m' h
        · cases i with
          | zero => exact absurd hi (Nat.not_succ_le_zero _)
          | succ i => exact hend i (Nat.le_of_succ_le_succ hi)
      · cases h

end Run

end CppWorkspace.Programs
