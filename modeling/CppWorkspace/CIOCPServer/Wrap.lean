/-
# `CppWorkspace.CIOCPServer.Wrap` — a window of reads at the wrap of the numbers

A window of `w` reads has the numbers `c, c + 1, .., c + w - 1` modulo `2^32`, where `c` is
the number of the next one.  Their completions come in any order, and each is handled to
its end before the next one (`completeRead`).

`pOutOfOrderReads` is sorted by the numbers as they are, so reads behind the wrap stand in
front of all reads before it, and while a read before the wrap is due, the head test does
not see past them.  A read that has to wait and would be woken by the head test is then
never found (`Stuck`).  This happens if and only if some read before the wrap completes
after a later one before the wrap and one behind it (`delivered_iff`).  A window that does
not reach the wrap is always delivered in order (`delivered_of_no_wrap`).
-/
import Mathlib.Data.List.Nodup
import Mathlib.Data.List.Perm.Basic
import CppWorkspace.CIOCPServer.Data

namespace CppWorkspace.CIOCPServer

/-- The loop of `HandleIO` from `OnReadCompleted(pContext, p)` on, and the buffers that it
passes on.  Each round takes a buffer out of `pOutOfOrderReads`, whose length is the fuel. -/
def deliverReads : Nat → CIOCPContext → CIOCPBuffer → CIOCPContext × List CIOCPBuffer
  | 0, c, p => (c.nextRead, [p])
  | fuel + 1, c, p =>
      match getNextReadBuffer c.nextRead none with
      | (c, none) => (c, [p])
      | (c, some q) => ((deliverReads fuel c q).1, p :: (deliverReads fuel c q).2)

/-- A completion with data. -/
def completeRead (c : CIOCPContext) (pBuffer : CIOCPBuffer) : CIOCPContext × List CIOCPBuffer :=
  match getNextReadBuffer c (some pBuffer) with
  | (c, none) => (c, [])
  | (c, some p) => deliverReads c.pOutOfOrderReads.length c p

/-- One completion after the other, and all that is passed on. -/
def completeReads (c : CIOCPContext) : List CIOCPBuffer → CIOCPContext × List CIOCPBuffer
  | [] => (c, [])
  | b :: bs =>
      let r := completeReads (completeRead c b).1 bs
      (r.1, (completeRead c b).2 ++ r.2)

/-- The `k`-th number from `c` on is reached without a wrap. -/
def BeforeWrap (c : ULONG) (k : Nat) : Prop := c.toNat + k < 2 ^ 32

instance (c : ULONG) (k : Nat) : Decidable (BeforeWrap c k) :=
  inferInstanceAs (Decidable (_ < _))

/-- No read before the wrap completes after both a later one before the wrap and one behind
it. -/
def NeverOvertaken (c : ULONG) (order : List Nat) : Prop :=
  ∀ l p l', order = l ++ p :: l' →
    ∀ n ∈ l, ∀ m ∈ l, p < n → BeforeWrap c n → BeforeWrap c m

/-- The reads of the window. -/
structure Window (c : ULONG) (b : Nat → CIOCPBuffer) (w : Nat) : Prop where
  small : w < 2 ^ 31
  stamp : ∀ k < w, (b k).nSequenceNumber = c + UInt32.ofNat k

section
variable {c : ULONG} {b : Nat → CIOCPBuffer} {w d k n m p : Nat} {ctx : CIOCPContext}
  {l : List Nat}

theorem toNat_stamp : (c + UInt32.ofNat k).toNat = (c.toNat + k) % 2 ^ 32 := by
  rw [UInt32.toNat_add, UInt32.toNat_ofNat']
  omega

theorem stamp_inj (hk : k < 2 ^ 31) (hn : n < 2 ^ 31) :
    c + UInt32.ofNat k = c + UInt32.ofNat n ↔ k = n := by
  refine ⟨fun h => ?_, fun h => h ▸ rfl⟩
  rw [← UInt32.toNat_inj, toNat_stamp, toNat_stamp] at h
  omega

/-- On one side of the wrap the stamps are in the order of the numbers. -/
theorem stamp_lt (hkn : k < n) (hn : n < 2 ^ 31) (hside : BeforeWrap c n ↔ BeforeWrap c k) :
    c + UInt32.ofNat k < c + UInt32.ofNat n := by
  rw [UInt32.lt_iff_toNat_lt, toNat_stamp, toNat_stamp]
  have hc := c.toNat_lt
  unfold BeforeWrap at hside
  omega

theorem stamp_wrapped (hk : BeforeWrap c k) (hn : n < 2 ^ 31) (hwrap : ¬ BeforeWrap c n) :
    c + UInt32.ofNat n < c + UInt32.ofNat k := by
  rw [UInt32.lt_iff_toNat_lt, toNat_stamp, toNat_stamp]
  have hc := c.toNat_lt
  unfold BeforeWrap at hk hwrap
  omega

theorem perm_insertRead (x : CIOCPBuffer) (L : List CIOCPBuffer) :
    (insertRead x L).Perm (x :: L) := by
  induction L with
  | nil => exact List.Perm.refl _
  | cons y L ih =>
      unfold insertRead
      split
      · exact List.Perm.refl _
      · exact (ih.cons y).trans (List.Perm.swap x y L)

theorem filter_succ (hnodup : l.Nodup) (hd : d ∈ l) :
    (l.filter (d ≤ ·)).Perm (d :: l.filter (d + 1 ≤ ·)) := by
  have hnot : d ∉ l.filter (d + 1 ≤ ·) := by
    intro hmem
    have hlt := of_decide_eq_true (List.mem_filter.mp hmem).2
    omega
  refine (List.perm_ext_iff_of_nodup (hnodup.filter _)
    (List.nodup_cons.mpr ⟨hnot, hnodup.filter _⟩)).mpr fun k => ?_
  rw [List.mem_cons, List.mem_filter, List.mem_filter, decide_eq_true_eq, decide_eq_true_eq]
  constructor
  · rintro ⟨hk, hdk⟩
    rcases Nat.eq_or_lt_of_le hdk with rfl | hlt
    · exact .inl rfl
    · exact .inr ⟨hk, hlt⟩
  · rintro (rfl | ⟨hk, hlt⟩)
    · exact ⟨hd, Nat.le_refl k⟩
    · exact ⟨hk, Nat.le_of_lt hlt⟩

/-- After the completions `l`: the reads before `d` were passed on, and those from `d` on
are in `pOutOfOrderReads`. -/
structure InStep (c : ULONG) (b : Nat → CIOCPBuffer) (l : List Nat) (d : Nat)
    (ctx : CIOCPContext) : Prop where
  current : ctx.nCurrentReadSequence = c + UInt32.ofNat d
  parked : ctx.pOutOfOrderReads.Perm ((l.filter (d ≤ ·)).map b)
  sorted : SortedReads ctx.pOutOfOrderReads
  passed : ∀ k < d, k ∈ l

namespace InStep

theorem mem (h : InStep c b l d ctx) {x : CIOCPBuffer} (hx : x ∈ ctx.pOutOfOrderReads) :
    ∃ k ∈ l, d ≤ k ∧ x = b k := by
  obtain ⟨k, hk, rfl⟩ := List.mem_map.mp (h.parked.mem_iff.mp hx)
  obtain ⟨hkl, hdk⟩ := List.mem_filter.mp hk
  exact ⟨k, hkl, of_decide_eq_true hdk, rfl⟩

theorem mem_parked (h : InStep c b l d ctx) (hk : k ∈ l) (hdk : d ≤ k) :
    b k ∈ ctx.pOutOfOrderReads :=
  h.parked.mem_iff.mpr (List.mem_map_of_mem
    (List.mem_filter.mpr ⟨hk, decide_eq_true hdk⟩))

/-- The due read has not completed: nothing is found. -/
theorem takeHead_none (h : InStep c b l d ctx) (hw : Window c b w) (hl : ∀ k ∈ l, k < w)
    (hd : d ∉ l) : takeHead ctx = (ctx, none) := by
  rcases takeHead_eq ctx with hnone | ⟨q, rest, hlist, hseq, -⟩
  · exact hnone
  · obtain ⟨k, hk, hdk, rfl⟩ := h.mem (x := q) (hlist ▸ List.mem_cons_self)
    have hkw := hl k hk
    rw [hw.stamp k hkw, h.current] at hseq
    have hsmall := hw.small
    have hkd : k = d := (stamp_inj (by omega) (by omega)).mp hseq
    exact absurd hk (hkd ▸ hd)

/-- The due read waits and all that wait are on one side of the wrap: it is the head. -/
theorem takeHead_some (h : InStep c b l d ctx) (hw : Window c b w) (hl : ∀ k ∈ l, k < w)
    (hnodup : l.Nodup) (hd : d ∈ l)
    (hside : ∀ k ∈ l, d < k → (BeforeWrap c k ↔ BeforeWrap c d)) :
    ∃ rest, takeHead ctx = ({ ctx with pOutOfOrderReads := rest }, some (b d)) ∧
      ctx.pOutOfOrderReads = b d :: rest ∧
      InStep c b l (d + 1) { ctx with pOutOfOrderReads := rest }.nextRead := by
  have hbd := h.mem_parked hd (Nat.le_refl d)
  obtain ⟨q, rest, hlist⟩ := List.exists_cons_of_ne_nil (List.ne_nil_of_mem hbd)
  have hsorted := h.sorted
  rw [hlist] at hsorted hbd
  obtain ⟨hhead, hrest⟩ := List.pairwise_cons.mp hsorted
  -- the head has the least stamp, and on one side that is the due read
  have hq : q = b d := by
    obtain ⟨k, hk, hdk, rfl⟩ := h.mem (x := q) (hlist ▸ List.mem_cons_self)
    rcases List.mem_cons.mp hbd with he | hmem
    · exact he.symm
    · rcases Nat.eq_or_lt_of_le hdk with rfl | hlt
      · rfl
      · have hle := hhead _ hmem
        rw [hw.stamp k (hl k hk), hw.stamp d (hl d hd)] at hle
        have hkw := hl k hk
        have hsmall := hw.small
        have hgt := stamp_lt hlt (by omega) (hside k hk hlt)
        rw [UInt32.lt_iff_toNat_lt] at hgt
        rw [UInt32.le_iff_toNat_le] at hle
        omega
  subst hq
  refine ⟨rest, ?_, hlist, ?_, ?_, hrest, fun k hk => ?_⟩
  · rw [takeHead, hlist]
    exact if_pos ((hw.stamp d (hl d hd)).trans h.current.symm)
  · change ctx.nCurrentReadSequence + 1 = c + UInt32.ofNat (d + 1)
    rw [h.current, UInt32.ofNat_add, UInt32.add_assoc]
    rfl
  · have hsplit := filter_succ hnodup hd
    have hperm := (hlist ▸ h.parked).trans (hsplit.map b)
    exact (List.perm_cons (b d)).mp hperm
  · rcases Nat.lt_succ_iff_lt_or_eq.mp hk with hlt | rfl
    · exact h.passed k hlt
    · exact hd

/-- The loop passes on everything up to the next read that has not completed. -/
theorem deliver {fuel : Nat} (h : InStep c b l (d + 1) ctx.nextRead) (hw : Window c b w)
    (hl : ∀ k ∈ l, k < w) (hnodup : l.Nodup) (hfuel : ctx.pOutOfOrderReads.length = fuel)
    (hside : ∀ n ∈ l, ∀ m ∈ l, d < n → d < m → (BeforeWrap c n ↔ BeforeWrap c m)) :
    ∃ d', d < d' ∧ d' ∉ l ∧ InStep c b l d' (deliverReads fuel ctx (b d)).1 ∧
      (deliverReads fuel ctx (b d)).2 = (List.range' d (d' - d)).map b := by
  induction fuel generalizing d ctx with
  | zero =>
      have hmem : d + 1 ∉ l := by
        intro hmem
        have hparked : b (d + 1) ∈ ctx.pOutOfOrderReads := h.mem_parked hmem (Nat.le_refl _)
        rw [List.length_eq_zero_iff.mp hfuel] at hparked
        cases hparked
      refine ⟨d + 1, Nat.lt_succ_self d, hmem, h, ?_⟩
      rw [Nat.add_sub_cancel_left]
      rfl
  | succ fuel ih =>
      by_cases hmem : d + 1 ∈ l
      · obtain ⟨rest, htake, hlist, hnext⟩ := h.takeHead_some hw hl hnodup hmem
          fun k hk hdk => hside k hk (d + 1) hmem (Nat.lt_of_succ_lt hdk) (Nat.lt_succ_self d)
        have hlength : rest.length = fuel := by
          have hlist' : ctx.pOutOfOrderReads = b (d + 1) :: rest := hlist
          rw [hlist', List.length_cons] at hfuel
          exact Nat.succ.inj hfuel
        obtain ⟨d', hlt, hnot, hin, hout⟩ := ih hnext hlength fun n hn m hm hdn hdm =>
          hside n hn m hm (Nat.lt_of_succ_lt hdn) (Nat.lt_of_succ_lt hdm)
        rw [deliverReads, getNextReadBuffer, htake]
        refine ⟨d', Nat.lt_of_succ_lt hlt, hnot, hin, ?_⟩
        have hrange : d' - d = d' - (d + 1) + 1 := by omega
        rw [hrange, List.range'_succ, List.map_cons]
        exact congrArg _ hout
      · rw [deliverReads, getNextReadBuffer, h.takeHead_none hw hl hmem]
        refine ⟨d + 1, Nat.lt_succ_self d, hmem, h, ?_⟩
        rw [Nat.add_sub_cancel_left]
        rfl

theorem park (h : InStep c b l d ctx) (hdp : d ≤ p) :
    InStep c b (l ++ [p]) d (ctx.park (b p)) := by
  refine ⟨h.current, ?_, sortedReads_insertRead h.sorted, fun k hk =>
    List.mem_append_left _ (h.passed k hk)⟩
  have hfilter : (l ++ [p]).filter (d ≤ ·) = l.filter (d ≤ ·) ++ [p] := by
    rw [List.filter_append, List.filter_singleton, decide_eq_true hdp, cond_true]
  rw [hfilter, List.map_append]
  exact (perm_insertRead _ _).trans ((h.parked.cons (b p)).trans
    (List.perm_append_singleton (b p) _).symm)

theorem arrive (h : InStep c b l d ctx) (hd : d ∉ l) :
    InStep c b (l ++ [d]) (d + 1) ctx.nextRead := by
  refine ⟨?_, ?_, h.sorted, fun k hk => ?_⟩
  · change ctx.nCurrentReadSequence + 1 = c + UInt32.ofNat (d + 1)
    rw [h.current, UInt32.ofNat_add, UInt32.add_assoc]
    rfl
  · have hfilter : (l ++ [d]).filter (d + 1 ≤ ·) = l.filter (d ≤ ·) := by
      rw [List.filter_append, List.filter_singleton, decide_eq_false (Nat.not_succ_le_self d),
        cond_false, List.append_nil]
      refine List.filter_congr fun k hk => decide_eq_decide.mpr ?_
      have hne : k ≠ d := fun he => hd (he ▸ hk)
      omega
    rw [hfilter]
    exact h.parked
  · rcases Nat.lt_succ_iff_lt_or_eq.mp hk with hlt | rfl
    · exact List.mem_append_left _ (h.passed k hlt)
    · exact List.mem_append_right _ (List.mem_singleton_self k)

/-- A read that is not the due one is parked, and the head test finds nothing. -/
theorem completeRead_early (h : ctx.nCurrentReadSequence = c + UInt32.ofNat d)
    (hw : Window c b w) (hp : p < w) (hd : d < w) (hne : p ≠ d)
    (htake : takeHead (ctx.park (b p)) = (ctx.park (b p), none)) :
    completeRead ctx (b p) = (ctx.park (b p), []) := by
  have hsmall := hw.small
  have hnext : isNextRead ctx (b p) = false := by
    refine beq_eq_false_iff_ne.mpr fun he => hne ?_
    rw [hw.stamp p hp, h] at he
    exact (stamp_inj (by omega) (by omega)).mp he
  rw [completeRead, getNextReadBuffer, hnext]
  simp only [htake, Bool.false_eq_true, if_false]

theorem completeRead_due (h : ctx.nCurrentReadSequence = c + UInt32.ofNat d)
    (hw : Window c b w) (hd : d < w) :
    completeRead ctx (b d) = deliverReads ctx.pOutOfOrderReads.length ctx (b d) := by
  have hnext : isNextRead ctx (b d) = true := beq_iff_eq.mpr ((hw.stamp d hd).trans h.symm)
  rw [completeRead, getNextReadBuffer, if_pos hnext]

/-- One completion, if the due read does not wake reads from both sides of the wrap. -/
theorem complete (h : InStep c b l d ctx) (hw : Window c b w) (hl : ∀ k ∈ l ++ [p], k < w)
    (hnodup : (l ++ [p]).Nodup) (hd : d ∉ l)
    (hside : p = d → ∀ n ∈ l, ∀ m ∈ l, d < n → BeforeWrap c n → BeforeWrap c m) :
    ∃ d', d ≤ d' ∧ d' ∉ l ++ [p] ∧ InStep c b (l ++ [p]) d' (completeRead ctx (b p)).1 ∧
      (completeRead ctx (b p)).2 = (List.range' d (d' - d)).map b := by
  have hp : p < w := hl p (List.mem_append_right _ (List.mem_singleton_self p))
  have hpl : p ∉ l := fun hmem =>
    (List.nodup_append.mp hnodup).2.2 p hmem p (List.mem_singleton_self p) rfl
  have hdp : d ≤ p := by
    by_contra hlt
    exact hpl (h.passed p (Nat.lt_of_not_le hlt))
  rcases Nat.eq_or_lt_of_le hdp with rfl | hlt
  · rw [completeRead_due h.current hw hp]
    have hold : ∀ k ∈ l ++ [d], d < k → k ∈ l := by
      intro k hk hdk
      rcases List.mem_append.mp hk with hk | hk
      · exact hk
      · exact absurd hdk (by rw [List.mem_singleton.mp hk]; exact Nat.lt_irrefl d)
    obtain ⟨d', hlt, hnot, hin, hout⟩ := (h.arrive hd).deliver hw hl hnodup rfl
      fun n hn m hm hdn hdm => ⟨hside rfl n (hold n hn hdn) m (hold m hm hdm) hdn,
        hside rfl m (hold m hm hdm) n (hold n hn hdn) hdm⟩
    exact ⟨d', Nat.le_of_lt hlt, hnot, hin, hout⟩
  · have hpark := h.park hdp
    have hnot : d ∉ l ++ [p] := by
      intro hmem
      rcases List.mem_append.mp hmem with hmem | hmem
      · exact hd hmem
      · exact absurd (List.mem_singleton.mp hmem) (Nat.ne_of_lt hlt)
    rw [completeRead_early h.current hw hp (Nat.lt_trans hlt hp) (Nat.ne_of_gt hlt)
      (hpark.takeHead_none hw hl hnot)]
    refine ⟨d, Nat.le_refl d, hnot, hpark, ?_⟩
    rw [Nat.sub_self]
    rfl

end InStep

/-! ## Behind the wrap -/

/-- The due read waits behind a read from beyond the wrap. -/
structure Stuck (c : ULONG) (b : Nat → CIOCPBuffer) (w : Nat) (l : List Nat) (d m : Nat)
    (ctx : CIOCPContext) : Prop where
  current : ctx.nCurrentReadSequence = c + UInt32.ofNat d
  sorted : SortedReads ctx.pOutOfOrderReads
  wrapped : b m ∈ ctx.pOutOfOrderReads
  came : d ∈ l
  before : BeforeWrap c d
  behind : ¬ BeforeWrap c m
  inside : d < w ∧ m < w

theorem takeHead_wrapped (hw : Window c b w) (hsorted : SortedReads ctx.pOutOfOrderReads)
    (hm : b m ∈ ctx.pOutOfOrderReads) (hcurrent : ctx.nCurrentReadSequence = c + UInt32.ofNat d)
    (hd : BeforeWrap c d) (hbehind : ¬ BeforeWrap c m) (hmw : m < w) :
    takeHead ctx = (ctx, none) := by
  rcases takeHead_eq ctx with hnone | ⟨q, rest, hlist, hseq, -⟩
  · exact hnone
  · have hle : q.nSequenceNumber ≤ (b m).nSequenceNumber := by
      rw [hlist] at hm hsorted
      rcases List.mem_cons.mp hm with rfl | hm
      · exact UInt32.le_refl _
      · exact (List.pairwise_cons.mp hsorted).1 _ hm
    have hsmall := hw.small
    have hlt := stamp_wrapped hd (by omega) hbehind
    rw [hseq, hcurrent, hw.stamp m hmw, UInt32.le_iff_toNat_le] at hle
    rw [UInt32.lt_iff_toNat_lt] at hlt
    omega

theorem Stuck.complete (h : Stuck c b w l d m ctx) (hw : Window c b w) (hp : p < w)
    (hpl : p ∉ l) : Stuck c b w (l ++ [p]) d m (completeRead ctx (b p)).1 := by
  have hne : p ≠ d := fun he => hpl (he ▸ h.came)
  have hsorted := sortedReads_insertRead (b := b p) h.sorted
  have hwrapped : b m ∈ (ctx.park (b p)).pOutOfOrderReads := mem_insertRead.mpr (.inr h.wrapped)
  have htake := takeHead_wrapped hw hsorted hwrapped h.current h.before
    h.behind h.inside.2
  rw [InStep.completeRead_early h.current hw hp h.inside.1 hne htake]
  exact ⟨h.current, hsorted, hwrapped, List.mem_append_left _ h.came, h.before, h.behind,
    h.inside⟩

/-- If reads from both sides of the wrap are waiting, the due one is found stuck, or they
still wait. -/
theorem InStep.mixed (h : InStep c b l d ctx) (hw : Window c b w) (hl : ∀ k ∈ l ++ [p], k < w)
    (hnodup : (l ++ [p]).Nodup) (hd : d ∉ l) (hn : n ∈ l) (hm : m ∈ l) (hdn : d < n)
    (hbefore : BeforeWrap c n) (hbehind : ¬ BeforeWrap c m) :
    (∃ d', d' ∉ l ++ [p] ∧ d' < n ∧ InStep c b (l ++ [p]) d' (completeRead ctx (b p)).1) ∨
      ∃ d', Stuck c b w (l ++ [p]) d' m (completeRead ctx (b p)).1 := by
  have hp : p < w := hl p (List.mem_append_right _ (List.mem_singleton_self p))
  have hpl : p ∉ l := fun hmem =>
    (List.nodup_append.mp hnodup).2.2 p hmem p (List.mem_singleton_self p) rfl
  have hdp : d ≤ p := by
    by_contra hlt
    exact hpl (h.passed p (Nat.lt_of_not_le hlt))
  have hnw : n < w := hl n (List.mem_append_left _ hn)
  have hmw : m < w := hl m (List.mem_append_left _ hm)
  have hnot : ∀ {k}, k ∉ l → k ≠ p → k ∉ l ++ [p] := by
    intro k hk hne hmem
    rcases List.mem_append.mp hmem with hmem | hmem
    · exact hk hmem
    · exact hne (List.mem_singleton.mp hmem)
  rcases Nat.eq_or_lt_of_le hdp with rfl | hlt
  · -- the due read: one round of the loop, and what it leaves
    have harrive := h.arrive hd
    have hnm : n < m := by
      unfold BeforeWrap at hbefore hbehind
      omega
    rw [InStep.completeRead_due h.current hw hp]
    have hparked : b n ∈ ctx.pOutOfOrderReads := h.mem_parked hn (Nat.le_of_lt hdn)
    obtain ⟨fuel, hfuel⟩ := Nat.exists_eq_succ_of_ne_zero
      (Nat.ne_of_gt (List.length_pos_of_mem hparked))
    rw [hfuel, deliverReads, getNextReadBuffer]
    by_cases hnext : d + 1 ∈ l
    · refine .inr ⟨d + 1, ?_⟩
      have hsucc : BeforeWrap c (d + 1) := by
        unfold BeforeWrap at hbefore ⊢
        omega
      have hbm : b m ∈ ctx.nextRead.pOutOfOrderReads :=
        h.mem_parked hm (Nat.le_of_lt (Nat.lt_trans hdn hnm))
      rw [takeHead_wrapped hw harrive.sorted hbm harrive.current hsucc hbehind hmw]
      exact ⟨harrive.current, harrive.sorted, hbm, List.mem_append_left _ hnext, hsucc, hbehind,
        hl _ (List.mem_append_left _ hnext), hmw⟩
    · refine .inl ⟨d + 1, hnot hnext (Nat.succ_ne_self d), ?_, ?_⟩
      · rcases Nat.eq_or_lt_of_le hdn with he | hlt
        · have heq : d + 1 = n := he
          exact absurd (heq ▸ hn) hnext
        · exact hlt
      · rw [harrive.takeHead_none hw hl (hnot hnext (Nat.succ_ne_self d))]
        exact harrive
  · have hstill : d ∉ l ++ [p] := hnot hd (Nat.ne_of_lt hlt)
    have hpark := h.park hdp
    rw [InStep.completeRead_early h.current hw hp (Nat.lt_trans hlt hp) (Nat.ne_of_gt hlt)
      (hpark.takeHead_none hw hl hstill)]
    exact .inl ⟨d, hstill, hdn, hpark⟩

/-! ## Whole windows -/

theorem completeReads_append (ctx : CIOCPContext) (L L' : List CIOCPBuffer) :
    (completeReads ctx (L ++ L')).1 = (completeReads (completeReads ctx L).1 L').1 := by
  induction L generalizing ctx with
  | nil => rfl
  | cons x L ih => exact ih _

theorem InStep.start (hcurrent : ctx.nCurrentReadSequence = c)
    (hempty : ctx.pOutOfOrderReads = []) : InStep c b [] 0 ctx := by
  refine ⟨hcurrent.trans (UInt32.add_zero c).symm, ?_, ?_,
    fun k hk => absurd hk (Nat.not_lt_zero k)⟩
  · rw [hempty]
    exact List.Perm.refl _
  · rw [hempty]
    exact List.Pairwise.nil

/-- As long as no read is overtaken, the window is passed on up to the first read that has
not completed. -/
theorem InStep.run (h : InStep c b l d ctx) (hw : Window c b w) (l' : List Nat)
    (hl : ∀ k ∈ l ++ l', k < w) (hnodup : (l ++ l').Nodup) (hd : d ∉ l)
    (hnever : ∀ l₁ p l₂, l' = l₁ ++ p :: l₂ → ∀ n ∈ l ++ l₁, ∀ m ∈ l ++ l₁, p < n →
      BeforeWrap c n → BeforeWrap c m) :
    ∃ d', d ≤ d' ∧ d' ∉ l ++ l' ∧ InStep c b (l ++ l') d' (completeReads ctx (l'.map b)).1 ∧
      (completeReads ctx (l'.map b)).2 = (List.range' d (d' - d)).map b := by
  induction l' generalizing l d ctx with
  | nil =>
      rw [List.append_nil]
      refine ⟨d, Nat.le_refl d, hd, h, ?_⟩
      rw [Nat.sub_self]
      rfl
  | cons p l' ih =>
      rw [List.append_cons] at hl hnodup ⊢
      obtain ⟨d₁, hle₁, hnot₁, hin₁, hout₁⟩ := h.complete hw
        (fun k hk => hl k (List.mem_append_left _ hk)) (List.nodup_append.mp hnodup).1 hd
        fun hpd n hn m hm hdn hbefore => hnever [] p l' rfl n (List.mem_append_left _ hn) m
          (List.mem_append_left _ hm) (hpd ▸ hdn) hbefore
      obtain ⟨d₂, hle₂, hnot₂, hin₂, hout₂⟩ := ih hin₁ hl hnodup hnot₁
        fun l₁ q l₂ hsplit n hn m hm => hnever (p :: l₁) q l₂ (by rw [hsplit, List.cons_append])
          n (by rwa [List.append_cons]) m (by rwa [List.append_cons])
      refine ⟨d₂, Nat.le_trans hle₁ hle₂, hnot₂, hin₂, ?_⟩
      rw [List.map_cons, completeReads, hout₁]
      change _ ++ (completeReads (completeRead ctx (b p)).1 (l'.map b)).2 = _
      have hrange : d₂ - d = d₁ - d + (d₂ - d₁) := by omega
      have hfrom : d + (d₁ - d) = d₁ := by omega
      rw [hout₂, hrange, ← List.range'_append_1, hfrom, List.map_append]

theorem Stuck.run (h : Stuck c b w l d m ctx) (hw : Window c b w) (l' : List Nat)
    (hl : ∀ k ∈ l ++ l', k < w) (hnodup : (l ++ l').Nodup) :
    Stuck c b w (l ++ l') d m (completeReads ctx (l'.map b)).1 := by
  induction l' generalizing l ctx with
  | nil => rwa [List.append_nil]
  | cons p l' ih =>
      have hp := hl p (List.mem_append_right _ List.mem_cons_self)
      have hpl : p ∉ l := fun hmem =>
        (List.nodup_append.mp hnodup).2.2 p hmem p List.mem_cons_self rfl
      rw [List.append_cons] at hl hnodup ⊢
      exact ih (h.complete hw hp hpl) hl hnodup

/-- Waiting reads on both sides of the wrap end up stuck, unless the due one stays out. -/
theorem InStep.mixed_run (h : InStep c b l d ctx) (hw : Window c b w) (l' : List Nat)
    (hl : ∀ k ∈ l ++ l', k < w) (hnodup : (l ++ l').Nodup) (hd : d ∉ l) (hn : n ∈ l) (hm : m ∈ l)
    (hdn : d < n) (hbefore : BeforeWrap c n) (hbehind : ¬ BeforeWrap c m) :
    (∃ d', d' ∉ l ++ l' ∧ d' < n ∧ InStep c b (l ++ l') d' (completeReads ctx (l'.map b)).1) ∨
      ∃ d', Stuck c b w (l ++ l') d' m (completeReads ctx (l'.map b)).1 := by
  induction l' generalizing l d ctx with
  | nil =>
      rw [List.append_nil]
      exact .inl ⟨d, hd, hdn, h⟩
  | cons p l' ih =>
      rw [List.append_cons] at hl hnodup ⊢
      rcases h.mixed hw (fun k hk => hl k (List.mem_append_left _ hk))
        (List.nodup_append.mp hnodup).1 hd hn hm hdn hbefore hbehind with
        ⟨d', hnot, hlt, hin⟩ | ⟨d', hstuck⟩
      · exact ih hin hl hnodup hnot (List.mem_append_left _ hn) (List.mem_append_left _ hm) hlt
      · exact .inr ⟨d', hstuck.run hw l' hl hnodup⟩

theorem InStep.either (h : InStep c b l d ctx) (hw : Window c b w) (l' : List Nat)
    (hl : ∀ k ∈ l ++ l', k < w) (hnodup : (l ++ l').Nodup) (hd : d ∉ l) :
    (∃ d', d' ∉ l ++ l' ∧ InStep c b (l ++ l') d' (completeReads ctx (l'.map b)).1) ∨
      ∃ d' m, Stuck c b w (l ++ l') d' m (completeReads ctx (l'.map b)).1 := by
  induction l' generalizing l d ctx with
  | nil =>
      rw [List.append_nil]
      exact .inl ⟨d, hd, h⟩
  | cons p l' ih =>
      by_cases hmixed : ∃ n ∈ l, d < n ∧ BeforeWrap c n ∧ ∃ m ∈ l, ¬ BeforeWrap c m
      · obtain ⟨n, hn, hdn, hbefore, m, hm, hbehind⟩ := hmixed
        rcases h.mixed_run hw (p :: l') hl hnodup hd hn hm hdn hbefore hbehind with
          ⟨d', hnot, -, hin⟩ | ⟨d', hstuck⟩
        · exact .inl ⟨d', hnot, hin⟩
        · exact .inr ⟨d', m, hstuck⟩
      · rw [List.append_cons] at hl hnodup ⊢
        obtain ⟨d', -, hnot, hin, -⟩ := h.complete hw
          (fun k hk => hl k (List.mem_append_left _ hk)) (List.nodup_append.mp hnodup).1 hd
          fun _ n hn m hm hdn hbefore => by
            by_contra hbehind
            exact hmixed ⟨n, hn, hdn, hbefore, m, hm, hbehind⟩
        exact ih hin hl hnodup hnot

end

theorem delivered_of_never {c : CIOCPContext} {b : Nat → CIOCPBuffer} {w : Nat}
    {order : List Nat} (hw : Window c.nCurrentReadSequence b w)
    (hempty : c.pOutOfOrderReads = []) (horder : order.Perm (List.range w))
    (hnever : NeverOvertaken c.nCurrentReadSequence order) :
    (completeReads c (order.map b)).2 = (List.range w).map b ∧
      (completeReads c (order.map b)).1.pOutOfOrderReads = [] := by
  have hl : ∀ k ∈ order, k < w := fun k hk => List.mem_range.mp (horder.mem_iff.mp hk)
  have hnodup : order.Nodup := horder.nodup_iff.mpr List.nodup_range
  obtain ⟨d, -, hd, hin, hout⟩ := (InStep.start rfl hempty).run hw order hl hnodup
    List.not_mem_nil hnever
  have hwd : w ≤ d := by
    by_contra hlt
    exact hd (horder.mem_iff.mpr (List.mem_range.mpr (Nat.lt_of_not_le hlt)))
  have hdw : d ≤ w := by
    by_contra hlt
    exact absurd (hl w (hin.passed w (Nat.lt_of_not_le hlt))) (Nat.lt_irrefl w)
  have heq : d = w := Nat.le_antisymm hdw hwd
  subst heq
  refine ⟨?_, ?_⟩
  · rw [hout, Nat.sub_zero, List.range_eq_range']
  · have hnone : order.filter (d ≤ ·) = [] := by
      refine List.filter_eq_nil_iff.mpr fun k hk => ?_
      rw [decide_eq_true_eq]
      exact Nat.not_le_of_lt (hl k hk)
    have hparked := hin.parked
    rw [List.nil_append, hnone] at hparked
    exact hparked.eq_nil

/-- A window that does not reach the wrap, in any order of completion. -/
theorem delivered_of_no_wrap {c : CIOCPContext} {b : Nat → CIOCPBuffer} {w : Nat}
    {order : List Nat} (hw : Window c.nCurrentReadSequence b w)
    (hempty : c.pOutOfOrderReads = []) (horder : order.Perm (List.range w))
    (hwrap : c.nCurrentReadSequence.toNat + w ≤ 2 ^ 32) :
    (completeReads c (order.map b)).2 = (List.range w).map b ∧
      (completeReads c (order.map b)).1.pOutOfOrderReads = [] := by
  refine delivered_of_never hw hempty horder fun l p l' hsplit n hn m hm _ _ => ?_
  have hmw := List.mem_range.mp (horder.mem_iff.mp (hsplit ▸ List.mem_append_left _ hm))
  unfold BeforeWrap
  omega

/-- The window is passed on in the order of its numbers and nothing is left, if and only if
no read is overtaken. -/
theorem delivered_iff {c : CIOCPContext} {b : Nat → CIOCPBuffer} {w : Nat} {order : List Nat}
    (hw : Window c.nCurrentReadSequence b w) (hempty : c.pOutOfOrderReads = [])
    (horder : order.Perm (List.range w)) :
    ((completeReads c (order.map b)).2 = (List.range w).map b ∧
        (completeReads c (order.map b)).1.pOutOfOrderReads = []) ↔
      NeverOvertaken c.nCurrentReadSequence order := by
  have hstart := InStep.start (b := b) rfl hempty
  have hl : ∀ k ∈ order, k < w := fun k hk => List.mem_range.mp (horder.mem_iff.mp hk)
  have hall : ∀ k < w, k ∈ order := fun k hk => horder.mem_iff.mpr (List.mem_range.mpr hk)
  have hnodup : order.Nodup := horder.nodup_iff.mpr List.nodup_range
  refine ⟨?_, delivered_of_never hw hempty horder⟩
  rintro ⟨-, hleft⟩ l p l' rfl n hn m hm hpn hbefore
  by_contra hbehind
  have hstate := completeReads_append c (l.map b) ((p :: l').map b)
  rw [← List.map_append] at hstate
  have hnl := List.nodup_append.mp hnodup
  have hpl : p ∉ l := fun hmem => hnl.2.2 p hmem p List.mem_cons_self rfl
  have hstuck : ∃ d m, Stuck c.nCurrentReadSequence b w (l ++ p :: l') d m
      (completeReads c ((l ++ p :: l').map b)).1 := by
    rw [hstate]
    rcases hstart.either hw l (fun k hk => hl k (List.mem_append_left _ hk)) hnl.1
      (List.not_mem_nil) with ⟨d, hd, hin⟩ | ⟨d, m, hstuck⟩
    · have hdp : d ≤ p := by
        by_contra hlt
        exact hpl (hin.passed p (Nat.lt_of_not_le hlt))
      rcases hin.mixed_run hw (p :: l') hl hnodup hd hn hm (Nat.lt_of_le_of_lt hdp hpn)
        hbefore hbehind with ⟨d', hd', hlt, -⟩ | ⟨d', hstuck⟩
      · exact absurd (hall d' (Nat.lt_trans hlt (hl n (List.mem_append_left _ hn)))) hd'
      · exact ⟨d', m, hstuck⟩
    · exact ⟨d, m, hstuck.run hw (p :: l') hl hnodup⟩
  obtain ⟨d, m', hstuck⟩ := hstuck
  have hmem := hstuck.wrapped
  rw [hleft] at hmem
  cases hmem

/-- The read with the number `c + k`. -/
def readFrom (c : ULONG) (k : Nat) : CIOCPBuffer where
  addr := k
  nOperation := .opRead
  nSequenceNumber := c + UInt32.ofNat k
  buff := []
  no := k

/-- A context whose next read has the number `c`. -/
def contextAt (c : ULONG) : CIOCPContext :=
  { CIOCPContext.allocated 1 with nCurrentReadSequence := c }

/-- Three reads across the wrap that complete in the order `0, 2, 1`. -/
theorem delivered_across_wrap :
    ((completeReads (contextAt 4294967294) ([0, 2, 1].map (readFrom 4294967294))).2 =
        (List.range 3).map (readFrom 4294967294) ∧
      (completeReads (contextAt 4294967294)
        ([0, 2, 1].map (readFrom 4294967294))).1.pOutOfOrderReads = []) ↔
      NeverOvertaken 4294967294 [0, 2, 1] :=
  delivered_iff (c := contextAt 4294967294) (w := 3)
    ⟨by decide, fun _ _ => rfl⟩ rfl (by decide)

/-- They complete in the order `1, 2, 0`. -/
theorem not_delivered :
    ¬ ∀ (c : CIOCPContext) (b : Nat → CIOCPBuffer) (w : Nat) (order : List Nat),
      Window c.nCurrentReadSequence b w → c.pOutOfOrderReads = [] →
      order.Perm (List.range w) →
      (completeReads c (order.map b)).2 = (List.range w).map b ∧
        (completeReads c (order.map b)).1.pOutOfOrderReads = [] := by
  intro h
  have hall := h (contextAt 4294967294) (readFrom 4294967294) 3 [1, 2, 0]
    ⟨by decide, fun _ _ => rfl⟩ rfl (by decide)
  exact absurd hall.1 (by decide)

end CppWorkspace.CIOCPServer
