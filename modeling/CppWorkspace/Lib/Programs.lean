/-
# `CppWorkspace.Lib.Programs` — programs of commands, threads, and what threads own

A function of a concurrent program is embedded as a `Prog`: it returns, or gives
one command to the shared state and goes on with the reply.  `Prog` is a monad,
so functions are written with `do` and call each other; a thread is what is left
of its program.

A `System` says what commands do (`exec`, with a choice of the environment), and
how an idle thread begins an event (`spawn`).  One action of a `Machine` is one
command of one thread: that is every interleaving.

What a thread may rely on is a RESOURCE `r : M` that it owns.  `Inv σ R` relates
the shared state to the sum of all resources, and a command is judged with an
arbitrary frame `F`, the sum of the others:

    Does L t e c r post   from `Inv σ (r + F)` each allowed execution of `c` leads
                          to `Inv σ' (r' + F)` for some `r'` with `post v r'`
    wp L t e p Q r        the same for each command of `p`, and `Q` at its end

`t` is the thread and `e` its event.  An idle thread owns nothing.

The rules (`wp_ret`, `wp_perform`, `wp_bind`, `wp_mono`) follow the program text.
`Logic.run` is the adequacy theorem: if the programs that events begin are proved
once, `Inv` holds in every state of every run, and each thread stands before a
command whose `Pre` holds (`Good.pre`).
-/
import Mathlib.Algebra.BigOperators.Group.List.Basic
import CppWorkspace.Lib.Runs

namespace CppWorkspace.Programs

open Runs

/-! ## Programs -/

/-- A program over commands `C` with replies `R`. -/
inductive Prog (C : Type) (R : C → Type) (α : Type) : Type
  | ret (a : α) : Prog C R α
  | call (c : C) (k : R c → Prog C R α) : Prog C R α

namespace Prog

variable {C : Type} {R : C → Type} {α β : Type}

/-- First `p`, then `f` of its result. -/
def bind : Prog C R α → (α → Prog C R β) → Prog C R β
  | ret a, f => f a
  | call c k, f => call c fun v => bind (k v) f

instance : Monad (Prog C R) where
  pure := ret
  bind := bind

/-- One command. -/
def perform (c : C) : Prog C R (R c) := call c ret

/-- The command that a program stands before. -/
def next : Prog C R α → Option C
  | ret _ => none
  | call c _ => some c

/-! Costs: on each path whose replies are all `ok`, `post` holds of the result and
of the sum of what the commands cost. -/

section Costs
variable (ok : (c : C) → R c → Prop) (cost : (c : C) → R c → Nat)

def Costs : Prog C R α → (α → Nat → Prop) → Prop
  | ret a, post => post a 0
  | call c k, post => ∀ v, ok c v → Costs (k v) fun a n => post a (cost c v + n)

/-- All paths cost nothing. -/
def Free (p : Prog C R α) : Prop := p.Costs ok cost fun _ n => n = 0

variable {ok cost}

theorem costs_pure {a : α} {post : α → Nat → Prop} (h : post a 0) :
    (pure a : Prog C R α).Costs ok cost post := h

theorem costs_perform {c : C} {P : R c → Nat → Prop} (h : ∀ v, ok c v → P v (cost c v)) :
    (perform c).Costs ok cost P := h

theorem costs_mono {p : Prog C R α} {post post' : α → Nat → Prop} (h : p.Costs ok cost post)
    (hpost : ∀ a n, post a n → post' a n) : p.Costs ok cost post' := by
  induction p generalizing post post' with
  | ret a => exact hpost a 0 h
  | call c k ih => exact fun v hv => ih v (h v hv) fun a n ha => hpost a _ ha

theorem costs_bind {p : Prog C R α} {f : α → Prog C R β} {Q : α → Nat → Prop}
    {post : β → Nat → Prop} (h : p.Costs ok cost Q)
    (hf : ∀ a n, Q a n → (f a).Costs ok cost fun b k => post b (n + k)) :
    (p >>= f).Costs ok cost post := by
  induction p generalizing Q post with
  | ret a => exact costs_mono (hf a 0 h) fun b k hb => Nat.zero_add k ▸ hb
  | call c k ih =>
      intro v hv
      refine ih v (h v hv) fun a n ha => costs_mono (hf a _ ha) fun b k hb => ?_
      rwa [Nat.add_assoc] at hb

theorem costs_call {c : C} {f : R c → Prog C R β} {post : β → Nat → Prop}
    (h : ∀ v, cost c v = 0) (hf : ∀ v, ok c v → (f v).Costs ok cost post) :
    (perform c >>= f).Costs ok cost post := by
  refine fun v hv => costs_mono (hf v hv) fun b n hb => ?_
  rwa [h, Nat.zero_add]

theorem costs_free {p : Prog C R α} {f : α → Prog C R β} {post : β → Nat → Prop}
    (h : p.Free ok cost) (hf : ∀ a, (f a).Costs ok cost post) : (p >>= f).Costs ok cost post := by
  refine costs_bind h fun a n hn => costs_mono (hf a) fun b k hb => ?_
  rwa [hn, Nat.zero_add]

theorem free_pure {a : α} : (pure a : Prog C R α).Free ok cost := rfl

theorem free_perform {c : C} (h : ∀ v, cost c v = 0) : (perform c).Free ok cost := fun v _ => h v

theorem free_bind {p : Prog C R α} {f : α → Prog C R β} (h : p.Free ok cost)
    (hf : ∀ a, (f a).Free ok cost) : (p >>= f).Free ok cost :=
  costs_free h hf

end Costs

end Prog

/-! ## Systems and machines -/

/-- What a command of a thread inside an event does to the shared state, and how
a thread begins an event.  `X` are the choices of the environment, `E` the events,
`α` what programs return. -/
structure System (S C : Type) (R : C → Type) (X E α : Type) where
  exec : Nat → E → (c : C) → S → X → Option (S × R c)
  spawn : Nat → E → S → Option (S × Prog C R α)

/-- The shared state, and for each thread its event and what is left of the
program; an idle thread has none. -/
structure Machine (S C : Type) (R : C → Type) (E α : Type) where
  shared : S
  threads : List (Option (E × Prog C R α))

/-- The actions of a machine. -/
inductive Act (X E : Type)
  /-- Thread `t` executes its next command. -/
  | run (t : Nat) (x : X)
  /-- The idle thread `t` begins an event. -/
  | begin (t : Nat) (e : E)
  /-- Thread `t` has returned, and is idle again. -/
  | finish (t : Nat)

section
variable {S C X E α β M : Type} {R : C → Type}

namespace System

variable (Y : System S C R X E α)

def step (m : Machine S C R E α) : Act X E → Option (Machine S C R E α)
  | .run t x =>
      match m.threads[t]? with
      | some (some (e, .call c k)) =>
          (Y.exec t e c m.shared x).map fun r => ⟨r.1, m.threads.set t (some (e, k r.2))⟩
      | _ => none
  | .begin t e =>
      match m.threads[t]? with
      | some none =>
          (Y.spawn t e m.shared).map fun r => ⟨r.1, m.threads.set t (some (e, r.2))⟩
      | _ => none
  | .finish t =>
      match m.threads[t]? with
      | some (some (_, .ret _)) => some ⟨m.shared, m.threads.set t none⟩
      | _ => none

/-- One thread alone: `p` with the choices `xs`, up to its result. -/
def alone (t : Nat) (e : E) : Prog C R β → List X → S → Option (S × β)
  | .ret b, _, σ => some (σ, b)
  | .call _ _, [], _ => none
  | .call c k, x :: xs, σ => (Y.exec t e c σ x).bind fun r => alone t e (k r.2) xs r.1

/-- The same system, with the events that were begun so far. -/
def recorded : System (S × List E) C R X E α where
  exec t e c σ x := (Y.exec t e c σ.1 x).map fun r => ((r.1, σ.2), r.2)
  spawn t e σ := (Y.spawn t e σ.1).map fun r => ((r.1, σ.2 ++ [e]), r.2)

end System

/-- The event that an action begins. -/
def Act.begun : Act X E → List E
  | .begin _ e => [e]
  | _ => []

/-- The event of thread `t`. -/
def Machine.event (m : Machine S C R E α) (t : Nat) : Option E :=
  (m.threads[t]?).bind fun o => o.map Prod.fst

/-- The next command of thread `t`. -/
def Machine.next (m : Machine S C R E α) (t : Nat) : Option C :=
  (m.threads[t]?).bind fun o => o.bind fun q => q.2.next

/-- No thread is inside an event. -/
def Machine.Quiescent (m : Machine S C R E α) : Prop := ∀ o ∈ m.threads, o = none

/-- At most one thread is inside an event. -/
def Machine.Solo (m : Machine S C R E α) : Prop :=
  ∀ (t u : Nat) (q q' : E × Prog C R α),
    m.threads[t]? = some (some q) → m.threads[u]? = some (some q') → t = u

section
variable {Y : System S C R X E α} {m m' : Machine S C R E α} {t : Nat}

/-! What an action does to the shared state. -/

theorem step_run {x : X} (h : Y.step m (.run t x) = some m') :
    ∃ e c v, m.event t = some e ∧ m.next t = some c ∧
      Y.exec t e c m.shared x = some (m'.shared, v) := by
  simp only [System.step] at h
  split at h
  · rename_i e c k ht
    obtain ⟨⟨σ, v⟩, hexec, rfl⟩ := Option.map_eq_some_iff.mp h
    exact ⟨e, c, v, by simp [Machine.event, ht], by simp [Machine.next, ht, Prog.next], hexec⟩
  · cases h

theorem step_begin {e : E} (h : Y.step m (.begin t e) = some m') :
    m.threads[t]? = some none ∧ ∃ p, Y.spawn t e m.shared = some (m'.shared, p) := by
  simp only [System.step] at h
  split at h
  · rename_i ht
    obtain ⟨⟨σ, p⟩, hspawn, rfl⟩ := Option.map_eq_some_iff.mp h
    exact ⟨ht, p, hspawn⟩
  · cases h

theorem step_finish (h : Y.step m (.finish t) = some m') : m'.shared = m.shared := by
  simp only [System.step] at h
  split at h
  · cases h
    rfl
  · cases h

/-- A property of the shared state that commands keep has to be looked at where events
begin. -/
theorem shared_invariant {cond : Machine S C R E α → Act X E → Prop} {P : S → Prop}
    (hexec : ∀ t e c σ x σ' v, Y.exec t e c σ x = some (σ', v) → P σ → P σ')
    (hspawn : ∀ m t e σ' p, cond m (.begin t e) → Y.spawn t e m.shared = some (σ', p) →
      P m.shared → P σ')
    (h₀ : P m.shared) (h : Via Y.step cond m m') : P m'.shared := by
  refine h.invariant (P := fun m => P m.shared) h₀ fun m a m' hP hcond hstep => ?_
  cases a with
  | run t x =>
      obtain ⟨e, c, v, -, -, hrun⟩ := step_run hstep
      exact hexec t e c _ x _ v hrun hP
  | begin t e =>
      obtain ⟨-, p, hbegin⟩ := step_begin hstep
      exact hspawn m t e _ p hcond hbegin hP
  | finish t => exact step_finish hstep ▸ hP

/-! One event after the other. -/

theorem Machine.Quiescent.solo (h : m.Quiescent) : m.Solo := by
  intro t u q q' ht
  cases h _ (List.mem_of_getElem? ht)

theorem solo_set {threads : List (Option (E × Prog C R α))} {o : Option (E × Prog C R α)} {σ : S}
    (h : ∀ u q, threads[u]? = some (some q) → u = t) :
    (⟨σ, threads.set t o⟩ : Machine S C R E α).Solo := by
  have hself : ∀ u q, (threads.set t o)[u]? = some (some q) → u = t := by
    intro u q hu
    by_contra hne
    rw [List.getElem?_set_ne (Ne.symm hne)] at hu
    exact hne (h u q hu)
  intro u u' q q' hu hu'
  rw [hself u q hu, hself u' q' hu']

/-- If events begin when all threads are idle, threads are never inside two at a time. -/
theorem solo_run {cond : Machine S C R E α → Act X E → Prop}
    (hcond : ∀ m t e, cond m (.begin t e) → m.Quiescent) (h₀ : m.Solo)
    (h : Via Y.step cond m m') : m'.Solo := by
  refine h.invariant (P := Machine.Solo) h₀ fun m a m' hsolo hok hstep => ?_
  cases a with
  | run t x =>
      simp only [System.step] at hstep
      split at hstep
      · rename_i ht
        obtain ⟨r, -, rfl⟩ := Option.map_eq_some_iff.mp hstep
        exact solo_set fun u q hu => hsolo u t q _ hu ht
      · cases hstep
  | begin t e =>
      simp only [System.step] at hstep
      split at hstep
      · obtain ⟨r, -, rfl⟩ := Option.map_eq_some_iff.mp hstep
        exact solo_set fun u q hu => absurd (hcond m t e hok _ (List.mem_of_getElem? hu)) nofun
      · cases hstep
  | finish t =>
      simp only [System.step] at hstep
      split at hstep
      · rename_i ht
        cases hstep
        exact solo_set fun u q hu => hsolo u t q _ hu ht
      · cases hstep

end

instance (m : Machine S C R E α) : Decidable m.Quiescent :=
  decidable_of_iff (∀ o ∈ m.threads, o.isNone = true) <| by
    simp only [Option.isNone_iff_eq_none, Machine.Quiescent]

/-- A machine with the events that were begun. -/
def Machine.since (m : Machine S C R E α) (es : List E) : Machine (S × List E) C R E α :=
  ⟨(m.shared, es), m.threads⟩

theorem recorded_step {Y : System S C R X E α} {m : Machine S C R E α} {es : List E}
    {a : Act X E} : Y.recorded.step (m.since es) a =
      (Y.step m a).map fun m' => m'.since (es ++ a.begun) := by
  cases a with
  | run t x =>
      simp only [System.step, Machine.since, Act.begun, List.append_nil]
      split
      · simp only [System.recorded, Option.map_map]
        rfl
      · rfl
  | begin t e =>
      simp only [System.step, Machine.since, Act.begun]
      split
      · simp only [System.recorded, Option.map_map]
        rfl
      · rfl
  | finish t =>
      simp only [System.step, Machine.since, Act.begun, List.append_nil]
      split
      · rfl
      · rfl

/-- An invariant of the runs of a list of actions, and of the events that they began. -/
theorem recorded_invariant {Y : System S C R X E α} {cond : Machine S C R E α → Act X E → Prop}
    [∀ m a, Decidable (cond m a)] {P : Machine S C R E α → List E → Prop}
    (hstep : ∀ m a m' es, P m es → cond m a → Y.step m a = some m' → P m' (es ++ a.begun))
    {acts : List (Act X E)} {m m' : Machine S C R E α} (es : List E) (h₀ : P m es)
    (h : execIf Y.step cond m acts = some m') : P m' (es ++ acts.flatMap Act.begun) := by
  induction acts generalizing m es with
  | nil =>
      cases h
      simpa using h₀
  | cons a acts ih =>
      simp only [execIf] at h
      split at h
      · rename_i hcond
        obtain ⟨m₁, hm₁, hrest⟩ := Option.bind_eq_some_iff.mp h
        have hend := ih _ (hstep m a m₁ es h₀ hcond hm₁) hrest
        rwa [List.append_assoc, ← List.flatMap_cons] at hend
      · cases h

/-! ## Resources -/

/-- What is assumed of commands (`ok`, with the sum of all resources), what is
shown before each (`Pre`, with the thread's own), and what holds in between. -/
structure Logic (S C : Type) (R : C → Type) (X E α M : Type) extends System S C R X E α where
  Inv : S → M → Prop
  Pre : Nat → E → C → S → M → Prop
  ok : Nat → E → C → S → M → X → Prop

variable [AddCommMonoid M]

/-- One command of thread `t` inside the event `e`, by a thread that owns `r`. -/
def Does (L : Logic S C R X E α M) (t : Nat) (e : E) (c : C) (r : M) (post : R c → M → Prop) :
    Prop :=
  ∀ σ F, L.Inv σ (r + F) → L.Pre t e c σ r ∧
    ∀ x σ' v, L.ok t e c σ (r + F) x → L.exec t e c σ x = some (σ', v) →
      ∃ r', L.Inv σ' (r' + F) ∧ post v r'

/-- All commands of a program, and `Q` of its result. -/
def wp (L : Logic S C R X E α M) (t : Nat) (e : E) : Prog C R β → (β → M → Prop) → M → Prop
  | .ret b, Q, r => Q b r
  | .call c k, Q, r => Does L t e c r fun v r' => wp L t e (k v) Q r'

section
variable {L : Logic S C R X E α M} {t : Nat} {e : E} {r : M}

theorem Does.mono {c : C} {post post' : R c → M → Prop} (h : Does L t e c r post)
    (hpost : ∀ v r', post v r' → post' v r') : Does L t e c r post' := by
  intro σ F hinv
  obtain ⟨hpre, hrun⟩ := h σ F hinv
  refine ⟨hpre, fun x σ' v hok hexec => ?_⟩
  obtain ⟨r', hinv', hv⟩ := hrun x σ' v hok hexec
  exact ⟨r', hinv', hpost v r' hv⟩

theorem wp_ret {b : β} {Q : β → M → Prop} (h : Q b r) : wp L t e (pure b) Q r := h

theorem wp_perform {c : C} {Q : R c → M → Prop} (h : Does L t e c r Q) :
    wp L t e (.perform c) Q r := h

theorem wp_mono {p : Prog C R β} {Q Q' : β → M → Prop} (h : wp L t e p Q r)
    (hQ : ∀ b r', Q b r' → Q' b r') : wp L t e p Q' r := by
  induction p generalizing r with
  | ret b => exact hQ b r h
  | call c k ih => exact Does.mono h fun v r' hv => ih v hv

theorem wp_bind {γ : Type} {p : Prog C R β} {f : β → Prog C R γ} {Q : γ → M → Prop}
    (h : wp L t e p (fun b r' => wp L t e (f b) Q r') r) : wp L t e (p >>= f) Q r := by
  induction p generalizing r with
  | ret b => exact h
  | call c k ih => exact Does.mono h fun v r' hv => ih v hv

theorem wp_call {γ : Type} {c : C} {f : R c → Prog C R γ} {Q : γ → M → Prop}
    {post : R c → M → Prop} (h : Does L t e c r post)
    (hf : ∀ v r', post v r' → wp L t e (f v) Q r') : wp L t e (Prog.perform c >>= f) Q r :=
  Does.mono h hf

theorem wp_after {γ : Type} {p : Prog C R β} {f : β → Prog C R γ} {Q : γ → M → Prop}
    {P : β → M → Prop} (h : wp L t e p P r)
    (hf : ∀ b r', P b r' → wp L t e (f b) Q r') : wp L t e (p >>= f) Q r :=
  wp_bind (wp_mono h hf)

/-- What is owned may be given up together with the last command. -/
theorem wp_drop {p : Prog C R β} {Q Q' : β → M → Prop} (h : wp L t e p Q r)
    (hQ : ∀ b r', Q b r' → ∃ r'', Q' b r'' ∧ ∀ σ F, L.Inv σ (r' + F) → L.Inv σ (r'' + F))
    (hp : p.next ≠ none) : wp L t e p Q' r := by
  induction p generalizing r with
  | ret b => exact absurd rfl hp
  | call c k ih =>
      intro σ F hinv
      obtain ⟨hpre, hrun⟩ := h σ F hinv
      refine ⟨hpre, fun x σ' v hok hexec => ?_⟩
      obtain ⟨r', hinv', hk⟩ := hrun x σ' v hok hexec
      cases hv : k v with
      | ret b =>
          rw [hv] at hk
          obtain ⟨r'', hb, hgive⟩ := hQ b r' hk
          refine ⟨r'', hgive σ' F hinv', ?_⟩
          change wp L t e (k v) Q' r''
          rw [hv]
          exact hb
      | call c' k' => exact ⟨r', hinv', ih v hk (by rw [hv]; exact nofun)⟩

end

/-! ## Adequacy -/

namespace Logic

variable (L : Logic S C R X E α M)

/-- Thread `t` owns `r`: nothing when it is idle, else what its program needs to
end with nothing. -/
def Owns (t : Nat) (o : Option (E × Prog C R α)) (r : M) : Prop :=
  match o with
  | none => r = 0
  | some (e, p) => wp L t e p (fun _ r' => r' = 0) r

/-- Each thread owns a resource, and the shared state is in order. -/
structure Good (m : Machine S C R E α) (rs : List M) : Prop where
  length : rs.length = m.threads.length
  inv : L.Inv m.shared rs.sum
  owns : ∀ t o r, m.threads[t]? = some o → rs[t]? = some r → L.Owns t o r

theorem good_start {σ : S} {n : Nat} (h : L.Inv σ 0) :
    L.Good ⟨σ, List.replicate n none⟩ (List.replicate n 0) where
  length := by simp
  inv := by simpa using h
  owns := by
    intro t o r ho hr
    obtain rfl := List.eq_of_mem_replicate (List.mem_of_getElem? ho)
    exact List.eq_of_mem_replicate (List.mem_of_getElem? hr)

end Logic

theorem sum_split {rs : List M} {t : Nat} {r : M} (h : rs[t]? = some r) :
    ∃ F, rs.sum = r + F ∧ ∀ r', (rs.set t r').sum = r' + F := by
  induction rs generalizing t with
  | nil => simp at h
  | cons s rs ih =>
      cases t with
      | zero =>
          obtain rfl : s = r := by simpa using h
          exact ⟨rs.sum, by simp, fun r' => by simp⟩
      | succ t =>
          obtain ⟨F, hsum, hset⟩ := ih (by simpa using h)
          refine ⟨s + F, ?_, fun r' => ?_⟩
          · rw [List.sum_cons, hsum, add_left_comm]
          · rw [List.set_cons_succ, List.sum_cons, hset, add_left_comm]

theorem sum_two {rs : List M} {t u : Nat} {r r' : M} (hne : t ≠ u) (ht : rs[t]? = some r)
    (hu : rs[u]? = some r') : ∃ F, rs.sum = r + (r' + F) := by
  obtain ⟨F, hsum, hset⟩ := sum_split ht
  have hu' : (rs.set t 0)[u]? = some r' := by rw [List.getElem?_set_ne hne, hu]
  obtain ⟨F', hsum', -⟩ := sum_split hu'
  rw [hset 0, zero_add] at hsum'
  exact ⟨F', hsum' ▸ hsum⟩

theorem sum_alone {N : Type} [AddCommMonoid N] {f : M → N} (hzero : f 0 = 0)
    (hadd : ∀ r r', f (r + r') = f r + f r') {rs : List M} {t : Nat} {r : M}
    (h : rs[t]? = some r) (hothers : ∀ t' r', t' ≠ t → rs[t']? = some r' → f r' = 0) :
    f rs.sum = f r := by
  induction rs generalizing t with
  | nil => simp at h
  | cons s rs ih =>
      rw [List.sum_cons, hadd]
      cases t with
      | zero =>
          obtain rfl : s = r := by simpa using h
          have hrest : ∀ l : List M, (∀ r' ∈ l, f r' = 0) → f l.sum = 0 := by
            intro l hl
            induction l with
            | nil => exact hzero
            | cons r' l ih' =>
                rw [List.sum_cons, hadd, hl r' List.mem_cons_self, zero_add]
                exact ih' fun q hq => hl q (List.mem_cons_of_mem r' hq)
          rw [hrest rs fun r' hr' => ?_, add_zero]
          obtain ⟨t', ht', rfl⟩ := List.mem_iff_getElem.mp hr'
          exact hothers (t' + 1) _ (Nat.succ_ne_zero t') (by simp [ht'])
      | succ t =>
          rw [hothers 0 s (Nat.succ_ne_zero t).symm rfl, zero_add]
          refine ih (by simpa using h) fun t' r' ht' hr' => ?_
          exact hothers (t' + 1) r' (fun he => ht' (Nat.succ.inj he)) (by simpa using hr')

variable {L : Logic S C R X E α M} {m m' : Machine S C R E α} {rs : List M} {t : Nat}

namespace Logic

theorem Good.get (h : L.Good m rs) {o : Option (E × Prog C R α)} (ht : m.threads[t]? = some o) :
    ∃ r, rs[t]? = some r ∧ L.Owns t o r := by
  obtain ⟨hlt, -⟩ := List.getElem?_eq_some_iff.mp ht
  have hr := List.getElem?_eq_getElem (h.length.symm ▸ hlt : t < rs.length)
  exact ⟨_, hr, h.owns t o _ ht hr⟩

theorem Good.pre (h : L.Good m rs) {e : E} {c : C} {r : M} (hr : rs[t]? = some r)
    (he : m.event t = some e) (hc : m.next t = some c) : L.Pre t e c m.shared r := by
  simp only [Machine.event, Option.bind_eq_some_iff, Option.map_eq_some_iff] at he
  obtain ⟨_, ht, ⟨e', p⟩, rfl, rfl⟩ := he
  simp only [Machine.next, ht, Option.bind_some] at hc
  cases p with
  | ret a => cases hc
  | call c' k =>
      cases hc
      have howns := h.owns t _ r ht hr
      obtain ⟨F, hsum, -⟩ := sum_split hr
      exact (howns m.shared F (hsum ▸ h.inv)).1

theorem Good.before (h : L.Good m rs) {c : C} (hc : m.next t = some c) :
    ∃ e r, m.event t = some e ∧ rs[t]? = some r ∧ L.Pre t e c m.shared r := by
  obtain ⟨_, ht, ⟨e, p⟩, rfl, -⟩ :
      ∃ o, m.threads[t]? = some o ∧ ∃ q, o = some q ∧ q.2.next = some c := by
    simpa only [Machine.next, Option.bind_eq_some_iff] using hc
  obtain ⟨r, hr, -⟩ := h.get ht
  have he : m.event t = some e := by simp [Machine.event, ht]
  exact ⟨e, r, he, hr, h.pre hr he hc⟩

theorem Good.busy (h : L.Good m rs) {r : M} (hr : rs[t]? = some r) (hne : r ≠ 0) :
    ∃ e c, m.event t = some e ∧ m.next t = some c := by
  obtain ⟨hlt, -⟩ := List.getElem?_eq_some_iff.mp hr
  obtain ⟨o, ht⟩ : ∃ o, m.threads[t]? = some o :=
    ⟨_, List.getElem?_eq_getElem (h.length ▸ hlt : t < m.threads.length)⟩
  have howns := h.owns t o r ht hr
  match o with
  | none => exact absurd howns hne
  | some (e, .ret a) => exact absurd howns hne
  | some (e, .call c k) =>
      exact ⟨e, c, by simp [Machine.event, ht], by simp [Machine.next, ht, Prog.next]⟩

/-- A property of what all threads own together, when it is a property of a part, is one
of what some thread owns; and that thread stands before a command. -/
theorem Good.owner (h : L.Good m rs) {P : M → Prop} (h₀ : ¬ P 0)
    (hadd : ∀ r r', P (r + r') → P r ∨ P r') (hP : P rs.sum) :
    ∃ t < m.threads.length, ∃ e c r, m.event t = some e ∧ m.next t = some c ∧ P r ∧
      L.Pre t e c m.shared r := by
  have hmem : ∀ l : List M, P l.sum → ∃ r ∈ l, P r := by
    intro l hl
    induction l with
    | nil => exact absurd hl h₀
    | cons r l ih =>
        rw [List.sum_cons] at hl
        rcases hadd r l.sum hl with hr | hrest
        · exact ⟨r, List.mem_cons_self, hr⟩
        · obtain ⟨r', hr', hP'⟩ := ih hrest
          exact ⟨r', List.mem_cons_of_mem r hr', hP'⟩
  obtain ⟨r, hr, hPr⟩ := hmem rs hP
  obtain ⟨t, ht, hget⟩ := List.mem_iff_getElem.mp hr
  have hrs : rs[t]? = some r := List.getElem?_eq_some_iff.mpr ⟨ht, hget⟩
  have hne : r ≠ 0 := fun hr => h₀ (hr ▸ hPr)
  obtain ⟨e, c, he, hc⟩ := h.busy hrs hne
  exact ⟨t, h.length ▸ ht, e, c, r, he, hc, hPr, h.pre hrs he hc⟩

theorem Good.update (h : L.Good m rs) {o : Option (E × Prog C R α)} {r : M} {σ : S}
    (howns : L.Owns t o r) (hinv : L.Inv σ (rs.set t r).sum) :
    L.Good ⟨σ, m.threads.set t o⟩ (rs.set t r) where
  length := by simp [h.length]
  inv := hinv
  owns := by
    intro u o' r' ho' hr'
    by_cases hu : t = u
    · subst hu
      rw [List.getElem?_set_self'] at ho' hr'
      obtain ⟨_, -, rfl⟩ := Option.map_eq_some_iff.mp ho'
      obtain ⟨_, -, rfl⟩ := Option.map_eq_some_iff.mp hr'
      exact howns
    · rw [List.getElem?_set_ne hu] at ho' hr'
      exact h.owns u o' r' ho' hr'

/-- One action: a command is allowed, or an event begins or ends. -/
theorem Good.step (h : L.Good m rs) {a : Act X E}
    (hrun : ∀ t x e c, a = .run t x → m.event t = some e → m.next t = some c →
      L.ok t e c m.shared rs.sum x)
    (hspawn : ∀ t e σ p, a = .begin t e → L.spawn t e m.shared = some (σ, p) →
      ∃ r, L.Inv σ (r + rs.sum) ∧ wp L t e p (fun _ r' => r' = 0) r)
    (hstep : L.step m a = some m') : ∃ rs', L.Good m' rs' := by
  cases a with
  | run t x =>
      simp only [System.step] at hstep
      split at hstep
      · rename_i e c k ht
        obtain ⟨⟨σ, v⟩, hexec, rfl⟩ := Option.map_eq_some_iff.mp hstep
        obtain ⟨r, hr, howns⟩ := h.get ht
        obtain ⟨F, hsum, hset⟩ := sum_split hr
        have hok := hrun t x e c rfl (by simp [Machine.event, ht])
          (by simp [Machine.next, ht, Prog.next])
        rw [hsum] at hok
        obtain ⟨r', hinv', hk⟩ := (howns m.shared F (hsum ▸ h.inv)).2 x σ v hok hexec
        exact ⟨rs.set t r', h.update (o := some (e, k v)) hk (hset r' ▸ hinv')⟩
      · cases hstep
  | begin t e =>
      simp only [System.step] at hstep
      split at hstep
      · rename_i ht
        obtain ⟨⟨σ, p⟩, hexec, rfl⟩ := Option.map_eq_some_iff.mp hstep
        obtain ⟨r, hr, rfl⟩ := h.get ht
        obtain ⟨F, hsum, hset⟩ := sum_split hr
        obtain ⟨r', hinv', hp⟩ := hspawn t e σ p rfl hexec
        rw [hsum, zero_add] at hinv'
        exact ⟨rs.set t r', h.update (o := some (e, p)) hp (hset r' ▸ hinv')⟩
      · cases hstep
  | finish t =>
      simp only [System.step] at hstep
      split at hstep
      · rename_i e a ht
        cases hstep
        obtain ⟨r, hr, rfl⟩ := h.get ht
        obtain ⟨F, hsum, hset⟩ := sum_split hr
        exact ⟨rs.set t 0, h.update (o := none) rfl (hset 0 ▸ hsum ▸ h.inv)⟩
      · cases hstep

/-- **Adequacy.**  If every action of a run keeps to the conditions of the logic,
a good machine is led to a good machine. -/
theorem run {cond : Machine S C R E α → Act X E → Prop} {m₀ : Machine S C R E α}
    (hrun : ∀ m rs, L.Good m rs → ∀ t x e c, cond m (.run t x) →
      m.event t = some e → m.next t = some c → L.ok t e c m.shared rs.sum x)
    (hspawn : ∀ m t e σ p F, cond m (.begin t e) → L.Inv m.shared F →
      L.spawn t e m.shared = some (σ, p) →
      ∃ r, L.Inv σ (r + F) ∧ wp L t e p (fun _ r' => r' = 0) r)
    (h₀ : ∃ rs, L.Good m₀ rs) (h : Via L.step cond m₀ m) : ∃ rs, L.Good m rs := by
  refine h.invariant (P := fun m => ∃ rs, L.Good m rs) h₀ ?_
  rintro m a m' ⟨rs, hgood⟩ hcond hstep
  refine hgood.step ?_ ?_ hstep
  · rintro t x e c rfl he hc
    exact hrun m rs hgood t x e c hcond he hc
  · rintro t e σ p rfl hexec
    exact hspawn m t e σ p rs.sum hcond hgood.inv hexec

theorem Good.sum_quiescent (h : L.Good m rs) (hq : m.Quiescent) : rs.sum = 0 := by
  have hrs : rs = List.replicate m.threads.length 0 := by
    refine List.eq_replicate_iff.mpr ⟨h.length, fun r hr => ?_⟩
    obtain ⟨t, ht, rfl⟩ := List.mem_iff_getElem.mp hr
    have ho := List.getElem?_eq_getElem (h.length ▸ ht)
    have howns := h.owns t _ _ ho (List.getElem?_eq_getElem ht)
    rw [hq _ (List.getElem_mem _)] at howns
    exact howns
  simp [hrs]

theorem Good.quiescent (h : L.Good m rs) (hq : m.Quiescent) : L.Inv m.shared 0 :=
  h.sum_quiescent hq ▸ h.inv

end Logic

end

end CppWorkspace.Programs
