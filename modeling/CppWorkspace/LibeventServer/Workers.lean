/-
# `CppWorkspace.LibeventServer.Workers` — which worker gets the next client

`DoAccept` takes the workers in turn:

    int nCurrent = pServer->nCurrentWorker++ % pServer->workernum;

The counter is an `int` that nobody resets, and `%` has the sign of the counter.
From the accept `2 ^ 31` on (counted from 0) the counter is negative, and the index
is negative too, unless the number of workers divides it (`nCurrent_inRange_iff`).

In a window of `workernum` accepts each worker has its turn as long as the window
ends before that accept.  It may end WITH it if the number of workers is a power of
two, since `- 2 ^ 31` is then the multiple that is due (`eachOnce_iff`).
-/
import Mathlib.Data.Fintype.EquivFin
import Mathlib.Data.Int.ModEq
import CppWorkspace.LibeventServer.Pool

namespace CppWorkspace.LibeventServer.Workers

open Runs

/-! ## The counter -/

/-- `nCurrentWorker` after `n` accepts. -/
def nCurrentWorker : Nat → Int
  | 0 => 0
  | n + 1 => toInt (nCurrentWorker n + 1)

/-- The index that `DoAccept` computes for accept `n`, counted from 0. -/
def nCurrent (workernum n : Nat) : Int := (nCurrentWorker n).tmod workernum

/-- The index is one of `pWorker`. -/
def InRange (workernum n : Nat) : Prop :=
  0 ≤ nCurrent workernum n ∧ nCurrent workernum n < workernum

/-- Each worker is chosen once by the `workernum` accepts from `n` on. -/
def EachOnce (workernum n : Nat) : Prop :=
  ∀ i < workernum, ∃! k, k < workernum ∧ nCurrent workernum (n + k) = i

instance (workernum n : Nat) : Decidable (InRange workernum n) :=
  inferInstanceAs (Decidable (_ ∧ _))

theorem nCurrentWorker_eq (n : Nat) : nCurrentWorker n = toInt n := by
  induction n with
  | zero => rfl
  | succ n ih =>
      rw [nCurrentWorker, ih]
      simp only [toInt]
      omega

theorem nCurrentWorker_of_lt {n : Nat} (h : n % 2 ^ 32 < 2 ^ 31) :
    nCurrentWorker n = (n % 2 ^ 32 : Nat) := by
  rw [nCurrentWorker_eq, toInt]
  omega

theorem nCurrentWorker_of_le {n : Nat} (h : 2 ^ 31 ≤ n % 2 ^ 32) :
    nCurrentWorker n = -((2 ^ 32 - n % 2 ^ 32 : Nat) : Int) := by
  rw [nCurrentWorker_eq, toInt]
  omega

section
variable {w n k : Nat}

theorem nCurrent_of_lt (h : n % 2 ^ 32 < 2 ^ 31) : nCurrent w n = (n % 2 ^ 32 % w : Nat) := by
  rw [nCurrent, nCurrentWorker_of_lt h, Int.tmod_eq_emod_of_nonneg (Int.natCast_nonneg _)]
  rfl

theorem nCurrent_of_le (h : 2 ^ 31 ≤ n % 2 ^ 32) :
    nCurrent w n = -((2 ^ 32 - n % 2 ^ 32) % w : Nat) := by
  rw [nCurrent, nCurrentWorker_of_le h, Int.neg_tmod,
    Int.tmod_eq_emod_of_nonneg (Int.natCast_nonneg _)]
  rfl

/-! ## One accept -/

/-- The index of an accept is in range if the counter is not negative, or a multiple of
the number of workers. -/
theorem nCurrent_inRange_iff (hw : 0 < w) :
    InRange w n ↔ n % 2 ^ 32 < 2 ^ 31 ∨ w ∣ 2 ^ 32 - n % 2 ^ 32 := by
  by_cases h : n % 2 ^ 32 < 2 ^ 31
  · have hlt : n % 2 ^ 32 % w < w := Nat.mod_lt _ hw
    rw [InRange, nCurrent_of_lt h]
    constructor
    · intro _
      exact .inl h
    · intro _
      omega
  · rw [InRange, nCurrent_of_le (Nat.not_lt.mp h), Nat.dvd_iff_mod_eq_zero]
    constructor
    · rintro ⟨hnonneg, -⟩
      right
      omega
    · intro hcases
      have hzero := hcases.resolve_left h
      rw [hzero]
      omega

/-! ## A window of accepts -/

theorem EachOnce.inRange (h : EachOnce w n) (hk : k < w) : InRange w (n + k) := by
  choose g hg _ using h
  -- the accept that chooses worker `i`
  let turn : Fin w → Fin w := fun i => ⟨g i i.isLt, (hg i i.isLt).1⟩
  have hinj : Function.Injective turn := by
    intro i j hij
    have hgij : g i i.isLt = g j j.isLt := congrArg Fin.val hij
    have hi := (hg i i.isLt).2
    rw [hgij, (hg j j.isLt).2] at hi
    exact Fin.ext (Int.ofNat.inj hi.symm)
  obtain ⟨i, hi⟩ := Finite.injective_iff_surjective.mp hinj ⟨k, hk⟩
  have hgk : g i i.isLt = k := congrArg Fin.val hi
  have hindex := (hg i i.isLt).2
  rw [hgk] at hindex
  have hlt := i.isLt
  rw [InRange, hindex]
  omega

/-- If the remainders go up one by one, every worker has its turn. -/
theorem eachOnce_of_mod {r : Nat} (hw : 0 < w)
    (h : ∀ k < w, nCurrent w (n + k) = ((r + k) % w : Nat)) : EachOnce w n := by
  let turn : Fin w → Fin w := fun k => ⟨(r + k) % w, Nat.mod_lt _ hw⟩
  have hinj : Function.Injective turn := by
    intro j k hjk
    have hmod : (r + j) % w = (r + k) % w := congrArg Fin.val hjk
    have hcancel : j.val ≡ k.val [MOD w] := Nat.ModEq.add_left_cancel' r hmod
    exact Fin.ext (hcancel.eq_of_lt_of_lt j.isLt k.isLt)
  intro i hi
  obtain ⟨k, hk⟩ := Finite.injective_iff_surjective.mp hinj ⟨i, hi⟩
  have hki : (r + k.val) % w = i := congrArg Fin.val hk
  refine ⟨k, ⟨k.isLt, by rw [h k k.isLt, hki]⟩, ?_⟩
  rintro j ⟨hj, hindex⟩
  rw [h j hj] at hindex
  have hji : (r + j) % w = (r + k.val) % w := (Int.ofNat.inj hindex).trans hki.symm
  have hturn : turn ⟨j, hj⟩ = turn k := Fin.ext hji
  exact congrArg Fin.val (hinj hturn)

/-- A number of workers that divides two counters next to each other. -/
theorem eq_one_of_dvd_succ {c : Nat} (h : w ∣ c) (hs : w ∣ c + 1) : w = 1 :=
  Nat.dvd_one.mp ((Nat.dvd_add_right h).mp hs)

theorem eachOnce_iff (hw : 0 < w) (hshort : w < 2 ^ 15) :
    EachOnce w n ↔ w = 1 ∨ n % 2 ^ 32 + w ≤ 2 ^ 31 ∨
      n % 2 ^ 32 + w = 2 ^ 31 + 1 ∧ w ∣ 2 ^ 31 := by
  constructor
  · intro h
    by_contra hnot
    obtain ⟨hone, hlong, hend⟩ : w ≠ 1 ∧ 2 ^ 31 < n % 2 ^ 32 + w ∧
        (n % 2 ^ 32 + w = 2 ^ 31 + 1 → ¬ w ∣ 2 ^ 31) := by
      refine ⟨fun hone => hnot (.inl hone), ?_, fun heq hdvd => hnot (.inr (.inr ⟨heq, hdvd⟩))⟩
      by_contra hle
      exact hnot (.inr (.inl (Nat.not_lt.mp hle)))
    have hchosen : ∀ k < w, (n + k) % 2 ^ 32 < 2 ^ 31 ∨ w ∣ 2 ^ 32 - (n + k) % 2 ^ 32 :=
      fun k hk => (nCurrent_inRange_iff hw).mp (h.inRange hk)
    by_cases hfirst : n % 2 ^ 32 < 2 ^ 31
    · -- the window crosses the end of the positive counters
      have hwrap : (n + (2 ^ 31 - n % 2 ^ 32)) % 2 ^ 32 = 2 ^ 31 := by omega
      have hdvd := (hchosen (2 ^ 31 - n % 2 ^ 32) (by omega)).resolve_left (by omega)
      rw [hwrap] at hdvd
      by_cases hlast : n % 2 ^ 32 + w = 2 ^ 31 + 1
      · exact hend hlast hdvd
      · have hnext : (n + (2 ^ 31 - n % 2 ^ 32 + 1)) % 2 ^ 32 = 2 ^ 31 + 1 := by omega
        have hdvd' := (hchosen (2 ^ 31 - n % 2 ^ 32 + 1) (by omega)).resolve_left (by omega)
        rw [hnext] at hdvd'
        exact hone (eq_one_of_dvd_succ hdvd' hdvd)
    · have hdvd := (hchosen 0 hw).resolve_left hfirst
      rw [Nat.add_zero] at hdvd
      by_cases hlast : n % 2 ^ 32 + 1 = 2 ^ 32
      · have hminus : 2 ^ 32 - n % 2 ^ 32 = 1 := by omega
        rw [hminus] at hdvd
        exact hone (Nat.dvd_one.mp hdvd)
      · have hnext : (n + 1) % 2 ^ 32 = n % 2 ^ 32 + 1 := by omega
        have hdvd' := (hchosen 1 (by omega)).resolve_left (by omega)
        have hsucc : 2 ^ 32 - (n + 1) % 2 ^ 32 + 1 = 2 ^ 32 - n % 2 ^ 32 := by omega
        rw [← hsucc] at hdvd
        exact hone (eq_one_of_dvd_succ hdvd' hdvd)
  · rintro (rfl | hle | ⟨hend, hdvd⟩)
    · refine eachOnce_of_mod (r := 0) hw fun k _ => ?_
      rw [nCurrent, Nat.mod_one]
      exact Int.tmod_one _
    · refine eachOnce_of_mod (r := n % 2 ^ 32) hw fun k hk => ?_
      have hmod : (n + k) % 2 ^ 32 = n % 2 ^ 32 + k := by omega
      rw [nCurrent_of_lt (by omega), hmod]
    · refine eachOnce_of_mod (r := n % 2 ^ 32) hw fun k hk => ?_
      have hmod : (n + k) % 2 ^ 32 = n % 2 ^ 32 + k := by omega
      by_cases hlast : n % 2 ^ 32 + k < 2 ^ 31
      · rw [nCurrent_of_lt (by omega), hmod]
      · have hwrap : n % 2 ^ 32 + k = 2 ^ 31 := by omega
        have hzero : 2 ^ 31 % w = 0 := Nat.mod_eq_zero_of_dvd hdvd
        rw [nCurrent_of_le (by omega), hmod, hwrap, hzero]
        change -((2 ^ 31 % w : Nat) : Int) = _
        rw [hzero]
        rfl

end

/-! ## The server -/

/-- Whether an event is an accept. -/
def accepts : Event → Bool
  | .accept _ => true
  | _ => false

section
variable {s t : Server} {e : Event}

theorem step_counter (h : s.step e = some t) : t.workernum = s.workernum ∧
    t.nCurrentWorker = if accepts e then toInt (s.nCurrentWorker + 1) else s.nCurrentWorker := by
  cases e with
  | accept fd =>
      simp only [Server.step, Server.DoAccept] at h
      split at h
      · cases h
      · obtain ⟨r, -, rfl⟩ := Option.map_eq_some_iff.mp h
        exact ⟨rfl, rfl⟩
  | read i p closes =>
      obtain ⟨-, h⟩ := Option.ite_none_right_eq_some.mp h
      split at h
      · split at h
        · cases h
        · cases h
          exact ⟨rfl, rfl⟩
      · cases h
        exact ⟨rfl, rfl⟩
  | error i p =>
      obtain ⟨-, h⟩ := Option.ite_none_right_eq_some.mp h
      cases h
      exact ⟨rfl, rfl⟩

variable {ok : Server → Event → Prop} [∀ s e, Decidable (ok s e)] {events : List Event}

theorem run_counter {n : Nat} (hn : s.nCurrentWorker = nCurrentWorker n)
    (h : execIf Server.step ok s events = some t) : t.workernum = s.workernum ∧
      t.nCurrentWorker = nCurrentWorker (n + events.countP accepts) := by
  induction events generalizing s n with
  | nil =>
      cases h
      exact ⟨rfl, hn⟩
  | cons e events ih =>
      simp only [execIf] at h
      split at h
      · obtain ⟨u, hu, hrest⟩ := Option.bind_eq_some_iff.mp h
        obtain ⟨hw, hcounter⟩ := step_counter hu
        rw [hn] at hcounter
        cases hacc : accepts e with
        | true =>
            rw [hacc, if_pos rfl] at hcounter
            obtain ⟨hwt, hnt⟩ := ih (n := n + 1) hcounter hrest
            rw [List.countP_cons_of_pos hacc]
            refine ⟨hwt.trans hw, ?_⟩
            rwa [Nat.add_assoc, Nat.add_comm 1] at hnt
        | false =>
            rw [hacc, if_neg Bool.false_ne_true] at hcounter
            obtain ⟨hwt, hnt⟩ := ih hcounter hrest
            rw [List.countP_cons_of_neg (by rw [hacc]; exact Bool.false_ne_true)]
            exact ⟨hwt.trans hw, hnt⟩
      · cases h

/-- In every run of the server the index is that of the number of accepts so far. -/
theorem nCurrent_run {workernum connnum : Nat}
    (h : execIf Server.step ok (Server.start workernum connnum) events = some s) :
    s.nCurrentWorker.tmod s.workernum = nCurrent workernum (events.countP accepts) := by
  obtain ⟨hw, hn⟩ := run_counter (n := 0) rfl h
  rw [hw, hn, Nat.zero_add]
  rfl

end

/-- **Worker selection.**  For every number of workers that a `short` can hold and every number
`n` of accepts: the index is in range if the counter is not negative or a multiple of
`workernum`, and `workernum` accepts in a row choose each worker once if they end before the
counter wraps, or with the wrap for a power of two, or if there is one worker. -/
theorem worker_selection_iff (workernum n : Nat) (hpos : 0 < workernum)
    (hshort : workernum < 2 ^ 15) :
    (InRange workernum n ↔ n % 2 ^ 32 < 2 ^ 31 ∨ workernum ∣ 2 ^ 32 - n % 2 ^ 32) ∧
      (EachOnce workernum n ↔ workernum = 1 ∨ n % 2 ^ 32 + workernum ≤ 2 ^ 31 ∨
        n % 2 ^ 32 + workernum = 2 ^ 31 + 1 ∧ workernum ∣ 2 ^ 31) :=
  ⟨nCurrent_inRange_iff hpos, eachOnce_iff hpos hshort⟩

/-- Four workers, up to the accept with which the counter wraps. -/
theorem worker_selection_iff_fourWorkers : InRange 4 (2 ^ 31) ∧ EachOnce 4 (2 ^ 31 - 3) :=
  ⟨(worker_selection_iff 4 (2 ^ 31) (by decide) (by decide)).1.mpr (.inr (by decide)),
    (worker_selection_iff 4 (2 ^ 31 - 3) (by decide) (by decide)).2.mpr
      (.inr (.inr (by decide)))⟩

/-- With two workers, the accept after that is given to worker `- 1`. -/
theorem not_worker_selection : ¬ ∀ workernum n : Nat, 0 < workernum → workernum < 2 ^ 15 →
    InRange workernum n ∧ EachOnce workernum n := by
  intro h
  have hcases := (nCurrent_inRange_iff (by decide)).mp (h 2 (2 ^ 31 + 1) (by decide) (by decide)).1
  exact absurd hcases (by decide)

end CppWorkspace.LibeventServer.Workers
