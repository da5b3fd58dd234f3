/-
# `CppWorkspace.Libevent.Draining` — taking bytes out of an evbuffer

`evbuffer_drain` frees whole chains from the front and cuts the next one.  It keeps
`buf->first` as it is until the loop has ended, so `last_with_datap` may be reset to
`&buf->first` when that is already a chain no more; only its address is used.

    copyout   the first bytes                   `copyout_spec`
    drain     the first bytes are gone          `drain_spec`
    remove    both                              `remove_spec`
    free      all chains are gone               `free_spec`
-/
import CppWorkspace.Libevent.ChainOps

namespace CppWorkspace.Libevent

open LinkedList (Chain)

/-! ## The functions -/

def evbuffer_invoke_callbacks (w : World) (b : BufId) : World :=
  w.setCounts b (w.buf b).evbuffer_run_callbacks

def ZERO_CHAIN (w : World) (b : BufId) : World :=
  w.setBuf b
    { w.buf b with first := none, last := none, last_with_datap := .first b, total_len := 0 }

/-- `buf->last_with_datap = &buf->first`, if it leads to chain `a`, or is the link of `a`. -/
def resetLast (w : World) (b : BufId) (a : Addr) : Option World :=
  (w.load (w.buf b).last_with_datap).map fun p =>
    if p = some a ∨ (w.buf b).last_with_datap = .next a then
      w.setBuf b { w.buf b with last_with_datap := .first b }
    else w

/-- The chains that go, and the one in which the rest of `remaining` is. -/
def drainLoop : Nat → World → BufId → Option Addr → Nat → Option (World × Addr × Nat)
  | 0, _, _, _, _ => none
  | fuel + 1, w, b, p, remaining =>
      p.bind fun a => (w.chain a).bind fun c =>
        if c.off ≤ remaining then
          (resetLast w b a).bind fun w => (evbuffer_chain_free w a).bind fun w' =>
            drainLoop fuel w' b (w.next a) (remaining - c.off)
        else some (w, a, remaining)

/-- `evbuffer_drain`, where all chains go. -/
def drainAll (w : World) (b : BufId) : Option World :=
  (evbuffer_free_all_chains w.mallocs w (w.buf b).first).map fun w' =>
    (ZERO_CHAIN w' b).setCounts b ((w.buf b).deleted (w.buf b).total_len)

/-- `evbuffer_drain`, where some data stays. -/
def drainSome (w : World) (b : BufId) (len : Nat) : Option World :=
  (drainLoop w.mallocs w b (w.buf b).first len).bind fun (w, a, remaining) =>
    (w.chain a).bind fun c => (c.drop remaining).map fun c =>
      ((w.setBuf b { w.buf b with first := some a }).setChain a c).setCounts b
        ((w.buf b).deleted len)

def evbuffer_drain (w : World) (b : BufId) (len : Nat) : Option (World × Int) :=
  if (w.buf b).total_len = 0 then some (w, 0)
  else if (w.buf b).freeze_start then some (w, -1)
  else
    (if (w.buf b).total_len ≤ len then drainAll w b else drainSome w b len).map fun w =>
      (evbuffer_invoke_callbacks w b, 0)

def copyoutLoop (w : World) : Nat → Option Addr → Nat → Option (List UInt8)
  | _, _, 0 => some []
  | 0, _, _ + 1 => none
  | fuel + 1, p, n + 1 =>
      p.bind fun a => (w.chain a).bind fun c =>
        if c.off ≤ n + 1 then
          (copyoutLoop w fuel (w.next a) (n + 1 - c.off)).map fun rest => c.data ++ rest
        else some (c.data.take (n + 1))

/-- The bytes, or `none` for -1. -/
def evbuffer_copyout (w : World) (b : BufId) (datlen : Nat) : Option (Option (List UInt8)) :=
  let n := min datlen (w.buf b).total_len
  if n = 0 then some (some [])
  else if (w.buf b).freeze_start then some none
  else (copyoutLoop w w.mallocs (w.buf b).first n).map some

/-- The bytes are in `data_out` even if the result is -1. -/
def evbuffer_remove (w : World) (b : BufId) (datlen : Nat) :
    Option (World × Int × List UInt8) :=
  (evbuffer_copyout w b datlen).bind fun
    | none => some (w, -1, [])
    | some bs =>
        if bs = [] then some (w, 0, [])
        else (evbuffer_drain w b bs.length).map fun (w, r) =>
          (w, if r < 0 then -1 else bs.length, bs)

/-- `evbuffer_free`; what is left is an evbuffer that nobody may use. -/
def evbuffer_free (w : World) (b : BufId) : Option World :=
  (evbuffer_free_all_chains w.mallocs w (w.buf b).first).map fun w =>
    w.setBuf b { evbuffer_new b with told := (w.buf b).told }

/-! ## What an operation leaves behind -/

/-- `total_len` is right. -/
def Counted (w : World) (L : BufId → Chains) (b : BufId) : Prop :=
  (w.buf b).total_len = (w.bytes (L b).data).length

/-- There is nothing behind the last chain with data, so that `last` is that chain. -/
def Chains.Tight (s : Chains) : Prop := s.spare = [] ∨ s.data = [] ∧ s.spare.length = 1

/-- `b` holds `bs`, its counts are `k`, and the other buffers are as before. -/
structure Becomes (w : World) (L : BufId → Chains) (b : BufId) (w' : World) (L' : BufId → Chains)
    (bs : List UInt8) (k : Counts) : Prop where
  inv : w'.Inv L' []
  frame : Frame [b] w L w' L'
  bytes : w'.bytes (L' b).data = bs
  counts : (w'.buf b).toCounts = k

section
variable {w w' w₁ : World} {L L' : BufId → Chains} {X : List Addr} {b j : BufId} {s : Chains}
  {a z : Addr} {c : evbuffer_chain} {pre post mid spare l l₁ l₂ D : List Addr} {p : Option Addr}
  {bs : List UInt8} {k : Counts} {n fuel len remaining : Nat}

@[simp] theorem evbuffer_invoke_callbacks_self :
    (evbuffer_invoke_callbacks w b).buf b =
      { w.buf b with toCounts := (w.buf b).evbuffer_run_callbacks } := World.setCounts_self ..

@[simp] theorem evbuffer_invoke_callbacks_of_ne (h : j ≠ b) :
    (evbuffer_invoke_callbacks w b).buf j = w.buf j := World.setCounts_of_ne _ h

theorem Shape.setCounts (h : Shape w b s) (k : Counts) (j : BufId) :
    Shape (w.setCounts j k) b s := by
  obtain ⟨hchain, hlast, hlwd, hdata, hspare⟩ := h
  rcases eq_or_ne b j with rfl | hbj
  · exact ⟨by simpa using hchain, by simpa using hlast, by simpa using hlwd, hdata, hspare⟩
  · exact ⟨by simpa [hbj] using hchain, by simpa [hbj] using hlast, by simpa [hbj] using hlwd,
      hdata, hspare⟩

theorem World.Inv.setCounts (h : w.Inv L X) (k : Counts) (b : BufId) :
    (w.setCounts b k).Inv L X :=
  ⟨fun j => (h.shape j).setCounts k b, h.nodup, h.disjoint, h.loose, h.loose_nodup, h.owned⟩

theorem Frame.setCounts (h : Frame [b] w L w' L') (k : Counts) :
    Frame [b] w L (w'.setCounts b k) L' :=
  ⟨h.fails, h.mallocs, h.lists,
    fun j hj => (World.setCounts_of_ne _ (List.ne_of_not_mem_cons hj)).trans (h.buf j hj), h.chain⟩

theorem Becomes.setCounts (h : Becomes w L b w' L' bs k) (k' : Counts) :
    Becomes w L b (w'.setCounts b k') L' bs k' :=
  ⟨h.inv.setCounts k' b, h.frame.setCounts k', h.bytes, by simp⟩

theorem Becomes.invoke (h : Becomes w L b w' L' bs k) :
    Becomes w L b (evbuffer_invoke_callbacks w' b) L' bs k.evbuffer_run_callbacks := by
  have hset := h.setCounts (w'.buf b).evbuffer_run_callbacks
  rw [h.counts] at hset
  rwa [evbuffer_invoke_callbacks, h.counts]

theorem Becomes.refl (h : w.Inv L []) :
    Becomes w L b w L (w.bytes (L b).data) (w.buf b).toCounts :=
  ⟨h, .refl, rfl, rfl⟩

@[simp] theorem Counts.run_callbacks_total : k.evbuffer_run_callbacks.total_len = k.total_len := by
  simp only [Counts.evbuffer_run_callbacks]
  split
  · rfl
  · split <;> rfl

@[simp] theorem Counts.run_freeze_start :
    k.evbuffer_run_callbacks.freeze_start = k.freeze_start := by
  simp only [Counts.evbuffer_run_callbacks]
  split
  · rfl
  · split <;> rfl

@[simp] theorem Counts.run_freeze_end : k.evbuffer_run_callbacks.freeze_end = k.freeze_end := by
  simp only [Counts.evbuffer_run_callbacks]
  split
  · rfl
  · split <;> rfl

theorem Counts.run_run : k.evbuffer_run_callbacks.evbuffer_run_callbacks =
    k.evbuffer_run_callbacks := by
  cases hcb : k.callbacks with
  | false => simp [Counts.evbuffer_run_callbacks, hcb]
  | true =>
      by_cases h0 : k.n_add_for_cb = 0 ∧ k.n_del_for_cb = 0
      · simp [Counts.evbuffer_run_callbacks, hcb, h0]
      · simp [Counts.evbuffer_run_callbacks, hcb, h0]

/-! ## `evbuffer_copyout` -/

theorem exists_split (hdata : ∀ a ∈ l, ∃ c, w.chain a = some c) (hn : n < (w.bytes l).length) :
    ∃ pre z post c, l = pre ++ z :: post ∧ w.chain z = some c ∧ (w.bytes pre).length ≤ n ∧
      n < (w.bytes pre).length + c.off := by
  induction l generalizing n with
  | nil => cases hn
  | cons a l ih =>
      obtain ⟨c, hc⟩ := hdata a List.mem_cons_self
      rw [World.bytes_cons hc, List.length_append] at hn
      rcases Nat.lt_or_ge n c.off with hlt | hge
      · exact ⟨[], a, l, c, rfl, hc, Nat.zero_le _, by simpa using hlt⟩
      · have hn' : n - c.off < (w.bytes l).length := by
          simp only [evbuffer_chain.off] at hge ⊢
          omega
        obtain ⟨pre, z, post, d, rfl, hd, hle, hlt⟩ :=
          ih (fun x hx => hdata x (List.mem_cons_of_mem a hx)) hn'
        refine ⟨a :: pre, z, post, d, rfl, hd, ?_, ?_⟩ <;>
        · rw [World.bytes_cons hc, List.length_append]
          simp only [evbuffer_chain.off] at hge hlt hle ⊢
          omega

theorem copyoutLoop_eq (hlist : Chain w.next p l) (hlive : ∀ a ∈ l, ∃ c, w.chain a = some c)
    (hn : n ≤ (w.bytes l).length) (hfuel : l.length ≤ fuel) :
    copyoutLoop w fuel p n = some ((w.bytes l).take n) := by
  induction l generalizing p n fuel with
  | nil =>
      obtain rfl : n = 0 := Nat.le_zero.mp hn
      cases fuel <;> rfl
  | cons a l ih =>
      obtain ⟨rfl, hrest⟩ := hlist
      obtain ⟨c, hc⟩ := hlive a List.mem_cons_self
      rw [World.bytes_cons hc] at hn ⊢
      cases fuel with
      | zero => cases hfuel
      | succ fuel =>
          cases n with
          | zero => rfl
          | succ n =>
              rw [copyoutLoop, Option.bind_some, hc, Option.bind_some]
              rw [List.length_append] at hn
              split
              · rename_i hle
                simp only [evbuffer_chain.off] at hle hn ⊢
                rw [ih hrest (fun x hx => hlive x (List.mem_cons_of_mem a hx)) (by omega)
                  (Nat.le_of_succ_le_succ hfuel), Option.map_some, List.take_append,
                  List.take_of_length_le hle]
              · rename_i hgt
                simp only [evbuffer_chain.off] at hgt
                rw [List.take_append_of_le_length (by omega)]

theorem World.Inv.data_live (h : w.Inv L X) (b : BufId) :
    ∀ a ∈ (L b).data, ∃ c, w.chain a = some c := fun _ ha => h.live (Chains.mem_data ha)

theorem World.Inv.bytes_all (h : w.Inv L X) (b : BufId) :
    w.bytes (L b).all = w.bytes (L b).data := by
  rw [Chains.all, World.bytes_append, World.bytes_empty (l := (L b).spare), List.append_nil]
  intro a ha
  obtain ⟨c, hc, hspare⟩ := (h.shape b).spare a ha
  exact ⟨c, hc, hspare.data⟩

theorem copyout_spec (h : w.Inv L X) (hlen : Counted w L b) :
    evbuffer_copyout w b n =
      if min n (w.bytes (L b).data).length = 0 then some (some [])
      else if (w.buf b).freeze_start then some none
      else some (some ((w.bytes (L b).data).take n)) := by
  rw [evbuffer_copyout, hlen]
  split
  · rfl
  · split
    · rfl
    · rw [copyoutLoop_eq (h.shape b).chain (fun a ha => h.live ha)
        (by rw [h.bytes_all]; exact Nat.min_le_right ..) (h.length_le b), Option.map_some,
        h.bytes_all, List.take_eq_take_min]
      simp

/-! ## `evbuffer_drain` -/

theorem load_lwd_cons (hlast : (w.buf b).last_with_datap = linkAfter b (a :: l).dropLast)
    (hl : l ≠ []) (hlist : Chain w.next (some a) (a :: l ++ spare))
    (hlive : ∀ d ∈ a :: l, ∃ c, w.chain d = some c) :
    ∃ z ∈ l, w.load (w.buf b).last_with_datap = some (some z) := by
  obtain ⟨l, z, rfl⟩ := (List.eq_nil_or_concat' l).resolve_left hl
  rw [← List.cons_append, List.dropLast_concat] at hlast
  obtain ⟨m, e, hme⟩ := (List.eq_nil_or_concat' (a :: l)).resolve_left (List.cons_ne_nil a l)
  obtain ⟨c, hc⟩ := hlive e (by rw [← List.cons_append, hme]; simp)
  have hchain : Chain w.next (some a) (m ++ e :: (z :: spare)) := by
    have heq : a :: (l ++ [z]) ++ spare = m ++ e :: (z :: spare) := by
      rw [← List.cons_append, hme]
      simp
    exact heq ▸ hlist
  refine ⟨z, by simp, ?_⟩
  rw [hlast, hme, linkAfter_concat, World.load, hc, Option.map_some, hchain.suffix.head]
  rfl

/-- If `last_with_datap` is the link of the first chain, the next one is the last. -/
theorem lwd_after (hlast : (w.buf b).last_with_datap = linkAfter b (a :: l).dropLast)
    (hl : l ≠ []) (ha : a ∉ l) :
    (if (w.buf b).last_with_datap = .next a then
        w.setBuf b { w.buf b with last_with_datap := .first b }
      else w) = w.setBuf b { w.buf b with last_with_datap := linkAfter b l.dropLast } := by
  have hsame : w.setBuf b { w.buf b with last_with_datap := (w.buf b).last_with_datap } = w := by
    simp [World.setBuf]
  rw [List.dropLast_cons_of_ne_nil hl, linkAfter_cons] at hlast
  split at hlast
  · rename_i hfirst
    rw [if_pos hlast, hfirst]
  · have hne : (w.buf b).last_with_datap ≠ .next a := by
      rw [hlast]
      rcases List.eq_nil_or_concat' l.dropLast with hnil | ⟨m, e, hme⟩
      · simp [hnil]
      · rw [hme, linkAfter_concat]
        rintro he
        obtain rfl : e = a := Link.next.inj he
        exact ha ((List.dropLast_sublist l).subset (hme ▸ by simp))
    rw [if_neg hne, ← hlast, hsame]

/-- Before the first chain goes, `last_with_datap` is where it should be for the others. -/
theorem resetLast_eq (hlast : (w.buf b).last_with_datap = linkAfter b (a :: l).dropLast)
    (hl : l ≠ []) (hlist : Chain w.next (some a) (a :: l ++ spare))
    (hlive : ∀ d ∈ a :: l, ∃ c, w.chain d = some c) :
    resetLast w b a =
      some (w.setBuf b { w.buf b with last_with_datap := linkAfter b l.dropLast }) := by
  have ha : a ∉ l := fun hm =>
    (List.nodup_cons.mp hlist.nodup).1 (List.mem_append_left _ hm)
  obtain ⟨z, hz, hload⟩ := load_lwd_cons hlast hl hlist hlive
  have hne : z ≠ a := ne_of_mem_of_not_mem hz ha
  rw [resetLast, hload, Option.map_some, ← lwd_after hlast hl ha]
  simp [hne]

theorem drainLoop_eq (hlist : Chain w.next p (pre ++ z :: post ++ spare))
    (hlast : (w.buf b).last_with_datap = linkAfter b (pre ++ z :: post).dropLast)
    (hlive : ∀ d ∈ pre ++ z :: post, ∃ c, w.chain d = some c) (hz : w.chain z = some c)
    (hle : (w.bytes pre).length ≤ n) (hlt : n < (w.bytes pre).length + c.off)
    (hfuel : pre.length < fuel) :
    drainLoop fuel w b p n =
      some ((w.freeAll pre).setBuf b
        { w.buf b with last_with_datap := linkAfter b (z :: post).dropLast }, z,
        n - (w.bytes pre).length) := by
  induction pre generalizing w p n fuel with
  | nil =>
      obtain ⟨fuel, rfl⟩ := Nat.exists_eq_succ_of_ne_zero (Nat.ne_zero_of_lt hfuel)
      obtain ⟨rfl, -⟩ := hlist
      have hstop : ¬c.off ≤ n := by simpa using hlt
      have hsame : (w.freeAll []).setBuf b
          { w.buf b with last_with_datap := linkAfter b (z :: post).dropLast } = w := by
        rw [← List.nil_append (z :: post), ← hlast]
        simp [World.setBuf, World.freeAll]
      rw [drainLoop, Option.bind_some, hz, Option.bind_some, if_neg hstop, hsame]
      rfl
  | cons a pre ih =>
      obtain ⟨fuel, rfl⟩ := Nat.exists_eq_succ_of_ne_zero (Nat.ne_zero_of_lt hfuel)
      have hnodup := hlist.nodup
      obtain ⟨rfl, hrest⟩ := hlist
      obtain ⟨d, hd⟩ := hlive a List.mem_cons_self
      have hcons := World.bytes_cons (l := pre) hd
      rw [hcons, List.length_append] at hle hlt
      have hgo : d.off ≤ n := by
        simp only [evbuffer_chain.off]
        omega
      have hreset := resetLast_eq (l := pre ++ z :: post) hlast (by simp) ⟨rfl, hrest⟩ hlive
      obtain ⟨hane, -⟩ := List.nodup_cons.mp hnodup
      have hother : ∀ x ∈ pre ++ z :: post, x ≠ a := fun x hx hxa =>
        hane (hxa ▸ List.mem_append_left _ hx)
      let w₁ := (w.setBuf b
        { w.buf b with last_with_datap := linkAfter b (pre ++ z :: post).dropLast }).mm_free a
      have hchain₁ : ∀ x, x ≠ a → w₁.chain x = w.chain x := fun x hx => by simp [w₁, hx]
      have hbytes : w₁.bytes pre = w.bytes pre := World.bytes_congr fun x hx =>
        hchain₁ x (hother x (List.mem_append_left _ hx))
      have hlive₁ : ∀ x ∈ pre ++ z :: post, ∃ c, w₁.chain x = some c := by
        intro x hx
        obtain ⟨c, hc⟩ := hlive x (List.mem_cons_of_mem a hx)
        exact ⟨c, (hchain₁ x (hother x hx)).trans hc⟩
      have hih := ih (w := w₁) (p := w.next a) (n := n - d.off) hrest
        (by simp [w₁]) hlive₁ (by rw [hchain₁ z (hother z (by simp)), hz])
        (by
          rw [hbytes]
          simp only [evbuffer_chain.off]
          omega)
        (by
          rw [hbytes]
          simp only [evbuffer_chain.off] at hlt ⊢
          omega)
        (Nat.lt_of_succ_lt_succ hfuel)
      have hfree : evbuffer_chain_free (w.setBuf b
          { w.buf b with last_with_datap := linkAfter b (pre ++ z :: post).dropLast }) a =
            some w₁ := by
        simp [evbuffer_chain_free, hd, w₁]
      rw [drainLoop, Option.bind_some, hd, Option.bind_some, if_pos hgo, hreset, Option.bind_some,
        hfree, Option.bind_some]
      refine hih.trans ?_
      have hrem : n - d.off - (w₁.bytes pre).length = n - (w.bytes (a :: pre)).length := by
        rw [hbytes, hcons, List.length_append]
        simp only [evbuffer_chain.off]
        omega
      rw [hrem]
      have hworld : (w₁.freeAll pre).setBuf b
          { w₁.buf b with last_with_datap := linkAfter b (z :: post).dropLast } =
          (w.freeAll (a :: pre)).setBuf b
            { w.buf b with last_with_datap := linkAfter b (z :: post).dropLast } := by
        simp only [World.setBuf, World.freeAll, w₁, World.mm_free, Function.update_self,
          Function.update_idem, World.mk.injEq, and_true, true_and]
        funext x
        rcases eq_or_ne x a with rfl | hxa
        · simp
        · simp [hxa]
      rw [hworld]

theorem World.Inv.emptied {v : World} {s : Chains} (h : w.Inv L X)
    (hmallocs : v.toMalloc = w.toMalloc)
    (hbuf : ∀ j, j ≠ b → v.buf j = w.buf j) (hchain : v.chain = (w.freeAll (L b).all).chain)
    (hnext : v.next = w.next) (hs : s = ⟨[], []⟩) (hshape : Shape v b s) :
    v.Inv (Function.update L b s) X ∧ Frame [b] w L v (Function.update L b s) := by
  subst hs
  have hX : ∀ a ∈ X, a ∉ (L b).all := fun a ha => (h.loose a ha).2 b
  refine h.rearranged hmallocs hbuf (fun a ha => ⟨?_, congrFun hnext a⟩)
    (fun a ha => List.mem_append_right _ ha) h.loose_nodup (fun a ha hno => ?_)
    (fun a ha c hc => ?_) (fun a ha => ?_) hshape
  · rw [hchain, World.freeAll_of_not_mem fun hm => ha (List.mem_append_left _ hm)]
  · rw [hchain, World.freeAll_of_mem ((List.mem_append.mp ha).resolve_right hno)]
  · rw [hchain, World.freeAll_of_not_mem (hX a ha)] at hc
    exact (h.owned a c hc).2.1
  · rw [hchain, World.freeAll_of_not_mem (hX a ha)]
    exact (h.loose a ha).1

theorem World.Inv.free_all (h : w.Inv L X) (b : BufId) :
    evbuffer_free_all_chains w.mallocs w (w.buf b).first = some (w.freeAll (L b).all) :=
  free_all_chains_eq (h.shape b).chain (fun _ ha => h.live ha) (h.length_le b)

theorem Shape.empty (hfirst : (w.buf b).first = none) (hlast : (w.buf b).last = none)
    (hlwd : (w.buf b).last_with_datap = .first b) : Shape w b ⟨[], []⟩ :=
  ⟨hfirst, hlast, hlwd, by simp, by simp⟩

theorem drainAll_spec (h : w.Inv L []) :
    ∃ w' L', drainAll w b = some w' ∧
      Becomes w L b w' L' [] ((w.buf b).deleted (w.buf b).total_len) ∧ (L' b).Tight := by
  let w₁ := ZERO_CHAIN (w.freeAll (L b).all) b
  let k := (w.buf b).deleted (w.buf b).total_len
  obtain ⟨hinv, hframe⟩ := h.emptied (b := b) (v := w₁) rfl
    (fun j hj => by simp [w₁, ZERO_CHAIN, hj]) rfl rfl rfl
    (.empty (by simp [w₁, ZERO_CHAIN]) (by simp [w₁, ZERO_CHAIN]) (by simp [w₁, ZERO_CHAIN]))
  refine ⟨w₁.setCounts b k, _, ?_, ⟨hinv.setCounts k b, hframe.setCounts k, ?_, by simp [k]⟩, ?_⟩
  · rw [drainAll, h.free_all, Option.map_some]
  · simp
  · exact .inl (by simp)

theorem drainSome_spec (h : w.Inv L []) (hlt : n < (w.bytes (L b).data).length) :
    ∃ w' L', drainSome w b n = some w' ∧
      Becomes w L b w' L' ((w.bytes (L b).data).drop n) ((w.buf b).deleted n) ∧
      ((L b).Tight → (L' b).Tight) := by
  have hshape := h.shape b
  obtain ⟨pre, z, post, c, hD, hz, hle, hz_lt⟩ := exists_split (h.data_live b) hlt
  obtain ⟨S, hs⟩ : ∃ S, L b = ⟨pre ++ z :: post, S⟩ := ⟨(L b).spare, by rw [← hD]⟩
  have hnodup := h.nodup b
  rw [hs] at hshape hnodup hlt ⊢
  have hlist : Chain w.next (w.buf b).first (pre ++ z :: post ++ S) := hshape.chain
  have hpre : ∀ a ∈ pre, a ∉ z :: post ++ S := fun a ha hm => by
    rw [Chains.all_mk, List.append_assoc] at hnodup
    exact (List.nodup_append.mp hnodup).2.2 a ha a hm rfl
  have hzS : z ∉ S := fun hm => by
    rw [Chains.all_mk, List.append_assoc] at hnodup
    have hcons := (List.nodup_append.mp hnodup).2.1
    exact (List.nodup_cons.mp hcons).1 (List.mem_append_right _ hm)
  have hzpost : z ∉ post := fun hm => by
    rw [Chains.all_mk, List.append_assoc] at hnodup
    have hcons := (List.nodup_append.mp hnodup).2.1
    exact (List.nodup_cons.mp hcons).1 (List.mem_append_left _ hm)
  have hfuel : pre.length < w.mallocs := by
    have hlen := h.length_le b
    simp only [hs, Chains.all_mk, List.length_append, List.length_cons] at hlen
    omega
  have hloop := drainLoop_eq (b := b) hlist hshape.last_with_datap
    (fun d hd => by
      obtain ⟨c, hc, -⟩ := hshape.data d hd
      exact ⟨c, hc⟩) hz hle hz_lt hfuel
  have hdrop : n - (w.bytes pre).length ≤ c.off := by omega
  obtain ⟨c', hc', hdata, himm, hlen⟩ := evbuffer_chain.drop_of_le hdrop
  have hne : c'.data ≠ [] := by
    rw [hdata]
    intro hnil
    have hlen := List.drop_eq_nil_iff.mp hnil
    simp only [evbuffer_chain.off] at hz_lt
    omega
  have hzpre : z ∉ pre := fun hm => hpre z hm (by simp)
  let w₁ := ((w.freeAll pre).setBuf b
    { w.buf b with first := some z, last_with_datap := linkAfter b (z :: post).dropLast }).setChain z c'
  have hchain : ∀ a, a ≠ z → a ∉ pre → w₁.chain a = w.chain a := fun a haz hap => by
    simp [w₁, haz, World.freeAll_of_not_mem hap]
  have hfreed : ∀ a ∈ pre, w₁.chain a = none := fun a ha => by
    have haz : a ≠ z := fun haz => hzpre (haz ▸ ha)
    simp [w₁, haz, World.freeAll_of_mem ha]
  have hrest : ∀ a ∈ post ++ S, a ≠ z ∧ a ∉ pre := by
    intro a ha
    refine ⟨fun haz => ?_, fun hap => hpre a hap (List.mem_cons_of_mem z ha)⟩
    rcases List.mem_append.mp ha with hm | hm
    · exact hzpost (haz ▸ hm)
    · exact hzS (haz ▸ hm)
  have hlist₁ : Chain w.next (some z) (z :: post ++ S) := by
    have hsuf : Chain w.next (w.buf b).first (pre ++ z :: (post ++ S)) := by simpa using hlist
    exact ⟨rfl, hsuf.suffix⟩
  have hshape₁ : Shape w₁ b ⟨z :: post, S⟩ := by
    refine ⟨by simpa [w₁] using hlist₁, ?_, by simp [w₁], fun a ha => ?_, fun a ha => ?_⟩
    · have hlast := hshape.last
      simp only [w₁, World.setChain_buf, World.setBuf_self, hlast, Chains.all_mk, List.append_assoc,
        List.cons_append, List.getLast?_append, List.getLast?_cons]
      rfl
    · rcases List.mem_cons.mp ha with rfl | ha
      · exact ⟨c', by simp [w₁], hne⟩
      · obtain ⟨haz, hap⟩ := hrest a (List.mem_append_left _ ha)
        rw [hchain a haz hap]
        exact hshape.data a (List.mem_append_right _ (List.mem_cons_of_mem z ha))
    · obtain ⟨haz, hap⟩ := hrest a (List.mem_append_right _ ha)
      rw [hchain a haz hap]
      exact hshape.spare a ha
  obtain ⟨hinv, hframe⟩ := h.rearranged (b := b) (v := w₁) (Y := []) rfl
    (fun j hj => by simp [w₁, hj])
    (fun a ha => by
      rw [hs, List.append_nil] at ha
      refine ⟨hchain a (fun haz => ha ?_) fun hap => ha ?_, rfl⟩
      · simp [haz]
      · simp [hap])
    (fun a ha => by
      rw [hs]
      simp only [Chains.all_mk, List.append_nil, List.append_assoc] at ha ⊢
      exact List.mem_append_right _ ha)
    (by
      rw [Chains.all_mk, List.append_assoc] at hnodup
      simpa using (List.nodup_append.mp hnodup).2.1)
    (fun a ha hno => by
      rw [hs] at ha
      simp only [Chains.all_mk, List.append_nil, List.append_assoc] at ha hno
      exact hfreed a ((List.mem_append.mp ha).resolve_right hno))
    (fun a ha d hd => by
      simp only [Chains.all_mk, List.append_nil, List.cons_append] at ha
      rcases List.mem_cons.mp ha with rfl | ha
      · obtain rfl : c' = d := by simpa [w₁] using hd
        rw [hlen]
        exact (h.owned _ c hz).2.1
      · obtain ⟨haz, hap⟩ := hrest a ha
        rw [hchain a haz hap] at hd
        exact (h.owned a d hd).2.1)
    (by simp) hshape₁
  let k := (w.buf b).deleted n
  refine ⟨w₁.setCounts b k, _, ?_, ⟨hinv.setCounts k b, hframe.setCounts k, ?_, by simp [k]⟩, ?_⟩
  · rw [drainSome, hloop, Option.bind_some]
    have hz' : ((w.freeAll pre).setBuf b
        { w.buf b with last_with_datap := linkAfter b (z :: post).dropLast }).chain z = some c := by
      simp [World.freeAll_of_not_mem hzpre, hz]
    simp only [hz', Option.bind_some, hc', Option.map_some]
    simp [w₁, World.setBuf, World.setCounts, World.setChain, k]
  · rw [Function.update_self]
    show w₁.bytes (z :: post) = _
    have hz₁ : w₁.chain z = some c' := by simp [w₁]
    have hpost : w₁.bytes post = w.bytes post := World.bytes_congr fun a ha =>
      hchain a (hrest a (List.mem_append_left _ ha)).1 (hrest a (List.mem_append_left _ ha)).2
    rw [World.bytes_cons hz₁, hpost, hdata, World.bytes_append, World.bytes_cons hz,
      List.drop_append, List.drop_eq_nil_of_le hle, List.nil_append,
      List.drop_append_of_le_length (by simpa [evbuffer_chain.off] using hdrop)]
  · rw [Function.update_self]
    intro ht
    rcases ht with hS | ⟨hD, -⟩
    · exact .inl hS
    · simp at hD

/-- The bytes are gone, unless the start is frozen. -/
theorem drain_spec (h : w.Inv L []) (hlen : Counted w L b) :
    if (w.bytes (L b).data).length = 0 then evbuffer_drain w b n = some (w, 0)
    else if (w.buf b).freeze_start then evbuffer_drain w b n = some (w, -1)
    else ∃ w' L', evbuffer_drain w b n = some (w', 0) ∧
      Becomes w L b w' L' ((w.bytes (L b).data).drop n)
        ((w.buf b).deleted (min n (w.buf b).total_len)).evbuffer_run_callbacks ∧
      ((L b).Tight → (L' b).Tight) := by
  rw [← hlen]
  split
  · rename_i h0
    exact if_pos h0
  · rename_i h0
    split
    · rename_i hfreeze
      rw [evbuffer_drain, if_neg h0, if_pos hfreeze]
    · rename_i hfreeze
      rcases Nat.lt_or_ge n (w.buf b).total_len with hlt | hge
      · obtain ⟨w', L', hdrain, hbecomes, htight⟩ := drainSome_spec h (hlen ▸ hlt)
        refine ⟨evbuffer_invoke_callbacks w' b, L', ?_, ?_, htight⟩
        · rw [evbuffer_drain, if_neg h0, if_neg hfreeze, if_neg (Nat.not_le.mpr hlt), hdrain,
            Option.map_some]
        · rw [Nat.min_eq_left (Nat.le_of_lt hlt)]
          exact hbecomes.invoke
      · obtain ⟨w', L', hdrain, hbecomes, htight⟩ := drainAll_spec (b := b) h
        refine ⟨evbuffer_invoke_callbacks w' b, L', ?_, ?_, fun _ => htight⟩
        · rw [evbuffer_drain, if_neg h0, if_neg hfreeze, if_pos hge, hdrain, Option.map_some]
        · rw [Nat.min_eq_right hge, List.drop_eq_nil_of_le (hlen ▸ hge)]
          exact hbecomes.invoke

theorem remove_spec (h : w.Inv L []) (hlen : Counted w L b) :
    if min n (w.bytes (L b).data).length = 0 then evbuffer_remove w b n = some (w, 0, [])
    else if (w.buf b).freeze_start then evbuffer_remove w b n = some (w, -1, [])
    else ∃ w' L',
      evbuffer_remove w b n = some (w', ((min n (w.bytes (L b).data).length : Nat) : Int),
        (w.bytes (L b).data).take n) ∧
      Becomes w L b w' L' ((w.bytes (L b).data).drop n)
        ((w.buf b).deleted (min n (w.buf b).total_len)).evbuffer_run_callbacks ∧
      ((L b).Tight → (L' b).Tight) := by
  have hcopy := copyout_spec (n := n) h hlen
  have hdrain := drain_spec (n := min n (w.bytes (L b).data).length) h hlen
  split
  · rename_i h0
    rw [if_pos h0] at hcopy
    simp [evbuffer_remove, hcopy]
  · rename_i h0
    rw [if_neg h0] at hcopy
    split
    · rename_i hfreeze
      rw [if_pos hfreeze] at hcopy
      rw [evbuffer_remove, hcopy, Option.bind_some]
    · rename_i hfreeze
      rw [if_neg hfreeze] at hcopy
      rw [if_neg (by omega), if_neg hfreeze] at hdrain
      obtain ⟨w', L', hdrain, hbecomes, htight⟩ := hdrain
      have hne : (w.bytes (L b).data).take n ≠ [] := fun hnil => h0 (by
        rw [← List.length_take, hnil]
        rfl)
      refine ⟨w', L', ?_, ?_, htight⟩
      · simp only [evbuffer_remove, hcopy, Option.bind_some, if_neg hne, List.length_take, hdrain,
          Option.map_some]
        rfl
      · have hdrop : (w.bytes (L b).data).drop (min n (w.bytes (L b).data).length) =
            (w.bytes (L b).data).drop n := by
          rcases Nat.le_total n (w.bytes (L b).data).length with hle | hle
          · rw [Nat.min_eq_left hle]
          · rw [Nat.min_eq_right hle, List.drop_eq_nil_of_le hle,
              List.drop_eq_nil_of_le (Nat.le_refl _)]
        have hmin : min (min n (w.bytes (L b).data).length) (w.buf b).total_len =
            min n (w.buf b).total_len := by
          rw [hlen, Nat.min_assoc, Nat.min_self]
        rwa [hdrop, hmin] at hbecomes

/-! ## `evbuffer_free` -/

theorem free_spec (h : w.Inv L []) :
    ∃ w' L', evbuffer_free w b = some w' ∧
      Becomes w L b w' L' [] { (evbuffer_new b).toCounts with told := (w.buf b).told } ∧
      (L' b).Tight := by
  let w₁ := (w.freeAll (L b).all).setBuf b { evbuffer_new b with told := (w.buf b).told }
  obtain ⟨hinv, hframe⟩ := h.emptied (b := b) (v := w₁) rfl (fun j hj => by simp [w₁, hj]) rfl rfl
    rfl (.empty (by simp [w₁, evbuffer_new]) (by simp [w₁, evbuffer_new])
      (by simp [w₁, evbuffer_new]))
  refine ⟨w₁, _, ?_, ⟨hinv, hframe, by simp, by simp [w₁]⟩, .inl (by simp)⟩
  rw [evbuffer_free, h.free_all, Option.map_some]
  rfl

end

end CppWorkspace.Libevent
