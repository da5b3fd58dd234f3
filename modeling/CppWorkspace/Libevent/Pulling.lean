/-
# `CppWorkspace.Libevent.Pulling` — `evbuffer_pullup`

The first bytes are put into one chain, so that the caller can read them through a pointer.
They are copied behind those of the first chain if there is room, else into a new chain;
the chains that are empty then are freed.  `last_with_datap` may have been the link of a
chain that is gone.
-/
import CppWorkspace.Libevent.Writing

namespace CppWorkspace.Libevent

open LinkedList (Chain)

/-! ## The functions -/

/-- The variables of the loop of `evbuffer_pullup`; `copied` is what has been written to
`buffer`. -/
structure Pulled where
  w : World
  chain : Option Addr
  size : Nat
  copied : List UInt8
  removed_last_with_data : Bool
  removed_last_with_datap : Bool

def pullLoop (last_with_datap : Link) (last_with_data : Option Addr) :
    Nat → Pulled → Option Pulled
  | 0, _ => none
  | fuel + 1, s =>
      match s.chain with
      | none => some s
      | some a => (s.w.chain a).bind fun c =>
          if c.off ≤ s.size then
            (evbuffer_chain_free s.w a).bind fun w =>
              pullLoop last_with_datap last_with_data fuel
                { w
                  chain := s.w.next a
                  size := s.size - c.off
                  copied := s.copied ++ c.data
                  removed_last_with_data :=
                    s.removed_last_with_data || decide (last_with_data = some a)
                  removed_last_with_datap :=
                    s.removed_last_with_datap || decide (last_with_datap = .next a) }
          else some s

/-- The chain in which the loop has stopped gives some bytes, too. -/
def pullRest (s : Pulled) (b : BufId) (tmp : Addr) : Option (World × List UInt8) :=
  match s.chain with
  | none => some (s.w.setBuf b { s.w.buf b with last := some tmp }, s.copied)
  | some z => (s.w.chain z).bind fun c =>
      (c.drop s.size).map fun c' => (s.w.setChain z c', s.copied ++ c.data.take s.size)

def resetPulled (w : World) (b : BufId) (removed_last_with_data removed_last_with_datap : Bool) :
    Option World :=
  if removed_last_with_data then some (w.setBuf b { w.buf b with last_with_datap := .first b })
  else if removed_last_with_datap then
    (w.buf b).first.bind fun first => (w.load (.next first)).bind fun
      | none => some (w.setBuf b { w.buf b with last_with_datap := .first b })
      | some z => (w.chain z).map fun c =>
          w.setBuf b
            { w.buf b with last_with_datap := if c.off ≠ 0 then .next first else .first b }
  else some w

/-- From "Copy and free every chunk" on: `size` bytes from `chain` on are put into `tmp`. -/
def pull (w : World) (b : BufId) (tmp : Addr) (chain : Option Addr) (size : Nat) :
    Option (World × Option (List UInt8)) :=
  (w.load (w.buf b).last_with_datap).bind fun last_with_data =>
    (pullLoop (w.buf b).last_with_datap last_with_data (w.mallocs + 1)
      ⟨w, chain, size, [], false, false⟩).bind fun s =>
        (pullRest s b tmp).bind fun (w, copied) => (w.chain tmp).bind fun c =>
          (c.append copied).bind fun c =>
            (resetPulled ((w.setChain tmp c).setNext tmp s.chain) b s.removed_last_with_data
              s.removed_last_with_datap).map fun w => (w, some c.data)

/-- `if (size < 0) size = buf->total_len`. -/
def pullSize (total_len : Nat) (size : Int) : Nat := if size < 0 then total_len else size.toNat

/-- All bytes of the chain that the result points to, or `none` for `NULL`. -/
def evbuffer_pullup (w : World) (b : BufId) (size : Int) :
    Option (World × Option (List UInt8)) :=
  let n := pullSize (w.buf b).total_len size
  if n = 0 ∨ (w.buf b).total_len < n then some (w, none)
  else
    (w.buf b).first.bind fun a => (w.chain a).bind fun c =>
      if n ≤ c.off then some (w, some c.data)
      else if n ≤ c.buffer_len - c.misalign then pull w b a (w.next a) (n - c.off)
      else
        (evbuffer_chain_new w n).bind fun
          | (w, none) => some (w, none)
          | (w, some x) => pull (w.setBuf b { w.buf b with first := some x }) b x (some a) n

section
variable {w w' : World} {L L' : BufId → Chains} {X : List Addr} {b j : BufId} {s : Chains}
  {a x y z tmp : Addr} {c c' d : evbuffer_chain} {l gone rest D S : List Addr} {p lwd : Option Addr}
  {bs : List UInt8} {k : Counts} {n m fuel size : Nat} {link : Link}

/-! ## The loop -/

theorem pullLoop_eq {g r : List Addr} {p : Option Addr} {q : Link} {t : Pulled}
    (hlist : Chain t.w.next t.chain (g ++ r))
    (hlive : ∀ a ∈ g, ∃ c, t.w.chain a = some c) (hle : (t.w.bytes g).length ≤ t.size)
    (hrest : ∀ z ∈ r.head?, ∃ c, t.w.chain z = some c ∧
      t.size - (t.w.bytes g).length < c.off)
    (hfuel : g.length < fuel) :
    pullLoop q p fuel t = some
      { w := t.w.freeAll g
        chain := r.head?
        size := t.size - (t.w.bytes g).length
        copied := t.copied ++ t.w.bytes g
        removed_last_with_data :=
          t.removed_last_with_data || g.any fun a => decide (p = some a)
        removed_last_with_datap :=
          t.removed_last_with_datap || g.any fun a => decide (q = .next a) } := by
  induction g generalizing t fuel with
  | nil =>
      obtain ⟨fuel, rfl⟩ := Nat.exists_eq_succ_of_ne_zero (Nat.ne_zero_of_lt hfuel)
      obtain ⟨w, chain, size, copied, rm, rmp⟩ := t
      obtain rfl : chain = r.head? := hlist.head
      have hsame : w.freeAll [] = w := by simp [World.freeAll]
      cases hr : r.head? with
      | none => simp [pullLoop, hsame]
      | some z =>
          obtain ⟨c, hc, hlt⟩ := hrest z hr
          simp only [World.bytes_nil, List.length_nil, Nat.sub_zero] at hc hlt
          simp [pullLoop, hc, Nat.not_le.mpr hlt, hsame]
  | cons a g ih =>
      obtain ⟨fuel, rfl⟩ := Nat.exists_eq_succ_of_ne_zero (Nat.ne_zero_of_lt hfuel)
      have hnodup := hlist.nodup
      obtain ⟨hchain, hrestlist⟩ := hlist
      obtain ⟨hane, -⟩ := List.nodup_cons.mp hnodup
      obtain ⟨c, hc⟩ := hlive a List.mem_cons_self
      have hcons := World.bytes_cons (l := g) hc
      rw [hcons, List.length_append] at hle hrest
      have hother : ∀ x ∈ g ++ r, (t.w.mm_free a).chain x = t.w.chain x := fun x hx =>
        World.mm_free_of_ne _ (ne_of_mem_of_not_mem hx hane)
      have hbytes : (t.w.mm_free a).bytes g = t.w.bytes g := World.bytes_congr fun x hx =>
        hother x (List.mem_append_left _ hx)
      have hih := ih (t :=
        { w := t.w.mm_free a
          chain := t.w.next a
          size := t.size - c.off
          copied := t.copied ++ c.data
          removed_last_with_data := t.removed_last_with_data || decide (p = some a)
          removed_last_with_datap := t.removed_last_with_datap || decide (q = .next a) })
        hrestlist
        (fun x hx => by
          obtain ⟨d, hd⟩ := hlive x (List.mem_cons_of_mem a hx)
          exact ⟨d, (hother x (List.mem_append_left _ hx)).trans hd⟩)
        (by
          rw [hbytes]
          simp only [evbuffer_chain.off]
          omega)
        (fun z hz => by
          obtain ⟨d, hd, hlt⟩ := hrest z hz
          refine ⟨d, (hother z (List.mem_append_right _ (List.mem_of_mem_head? hz))).trans hd, ?_⟩
          rw [hbytes]
          simp only [evbuffer_chain.off] at hlt ⊢
          omega)
        (Nat.lt_of_succ_lt_succ hfuel)
      have hgo : c.off ≤ t.size := by
        simp only [evbuffer_chain.off]
        omega
      have hfree : evbuffer_chain_free t.w a = some (t.w.mm_free a) := by
        simp [evbuffer_chain_free, hc]
      rw [pullLoop, hchain]
      simp only [hc, Option.bind_some, if_pos hgo, hfree]
      refine hih.trans ?_
      simp only [hbytes, hcons, List.any_cons, Bool.or_assoc, List.append_assoc, List.length_append,
        Option.some.injEq, Pulled.mk.injEq, and_true, true_and, evbuffer_chain.off]
      refine ⟨?_, by omega⟩
      simp only [World.freeAll, World.mm_free, World.mk.injEq, and_true, true_and]
      funext x
      rcases eq_or_ne x a with rfl | hxa
      · simp
      · simp [hxa]

/-! ## Into one chain -/

/-- `tmp` is what is left of `kept` and the loose chains, and takes the place of `g`. -/
theorem World.Inv.pulled {v : World} {g kept r : List Addr} (h : w.Inv L X)
    (hkept : kept ++ X = [tmp])
    (hall : (L b).all = kept ++ (g ++ r)) (hs : s.all = tmp :: r)
    (hmallocs : v.toMalloc = w.toMalloc) (hbuf : ∀ j, j ≠ b → v.buf j = w.buf j)
    (hout : ∀ a, a ≠ tmp → a ∉ g → a ∉ r → v.chain a = w.chain a)
    (hnext : ∀ a, a ≠ tmp → v.next a = w.next a) (hgone : ∀ a ∈ g, v.chain a = none)
    (hlen : ∀ a ∈ tmp :: r, ∀ c, v.chain a = some c → c.buffer_len ≤ maxLen)
    (hshape : Shape v b s) :
    v.Inv (Function.update L b s) [] ∧ Frame [b] w L v (Function.update L b s) := by
  have hmem : ∀ a, a ∈ (L b).all ++ X ↔ a = tmp ∨ a ∈ g ∨ a ∈ r := by
    intro a
    have htmp : a ∈ kept ∨ a ∈ X ↔ a = tmp := by
      rw [← List.mem_append, hkept, List.mem_singleton]
    rw [hall, List.mem_append, List.mem_append, List.mem_append]
    tauto
  have hnodup : (kept ++ (g ++ r) ++ X).Nodup := by
    rw [← hall]
    exact List.nodup_append.mpr ⟨h.nodup b, h.loose_nodup, fun a ha d hd had =>
      (h.loose d hd).2 b (had ▸ ha)⟩
  have hnodup : (tmp :: (g ++ r)).Nodup := by
    have hperm : (kept ++ (g ++ r) ++ X).Perm (kept ++ X ++ (g ++ r)) := by
      rw [List.append_assoc, List.append_assoc kept]
      exact List.Perm.append_left kept List.perm_append_comm
    rw [hperm.nodup_iff, hkept] at hnodup
    exact hnodup
  obtain ⟨htmp, hgr⟩ := List.nodup_cons.mp hnodup
  refine h.rearranged hmallocs hbuf (fun a ha => ?_) (fun a ha => ?_) ?_ (fun a ha hno => ?_)
    (fun a ha => ?_) (by simp) hshape
  · rw [hmem, not_or, not_or] at ha
    exact ⟨hout a ha.1 ha.2.1 ha.2.2, hnext a ha.1⟩
  · rw [hs, List.append_nil] at ha
    rw [hmem]
    rcases List.mem_cons.mp ha with rfl | ha
    · exact .inl rfl
    · exact .inr (.inr ha)
  · rw [hs, List.append_nil]
    exact List.nodup_cons.mpr ⟨fun hm => htmp (List.mem_append_right _ hm),
      (List.nodup_append.mp hgr).2.1⟩
  · rw [hs, List.append_nil, List.mem_cons, not_or] at hno
    exact hgone a (((hmem a).mp ha).resolve_left hno.1 |>.resolve_right hno.2)
  · rw [hs, List.append_nil] at ha
    exact hlen a ha

/-- Before the loop: `kept` and the loose chains are `tmp`, and the loop begins with `D`. -/
structure Ready (w : World) (L : BufId → Chains) (X : List Addr) (b : BufId) (kept D : List Addr)
    (tmp : Addr) (c : evbuffer_chain) (p : Option Addr) : Prop where
  inv : w.Inv L X
  only : kept ++ X = [tmp]
  data : (L b).data = kept ++ D
  list : Chain w.next p (D ++ (L b).spare)
  chain : w.chain tmp = some c
  copied : c.data = w.bytes kept
  ne : D ≠ []
  two : (kept ++ D).dropLast ≠ []

namespace Ready

variable {kept : List Addr}

theorem live (h : Ready w L X b kept D tmp c p) : ∀ a ∈ D, ∃ c, w.chain a = some c := fun a ha =>
  h.inv.data_live b a (h.data ▸ List.mem_append_right _ ha)

/-- The link that leads to the last chain with data is in a chain. -/
theorem link_eq (h : Ready w L X b kept D tmp c p) :
    (w.buf b).last_with_datap = linkAfter b (kept ++ D).dropLast ∧
      linkAfter b (kept ++ D).dropLast ≠ .first b := by
  refine ⟨h.data ▸ (h.inv.shape b).last_with_datap, ?_⟩
  obtain ⟨l, e, hl⟩ := (List.eq_nil_or_concat' (kept ++ D).dropLast).resolve_left h.two
  rw [hl, linkAfter_concat]
  exact Link.noConfusion

theorem load (h : Ready w L X b kept D tmp c p) :
    (w.setBuf b { w.buf b with first := some tmp }).load (w.buf b).last_with_datap =
      some D.getLast? := by
  have hload := (h.inv.shape b).load_lwd
  obtain ⟨hlwd, hfirst⟩ := h.link_eq
  obtain ⟨l, e, hD⟩ := (List.eq_nil_or_concat' D).resolve_left h.ne
  rw [h.data, hD] at hload
  rw [hlwd] at hload ⊢
  cases hl : linkAfter b (kept ++ D).dropLast with
  | first j => exact absurd hl (by
      obtain ⟨l, e, hl⟩ := (List.eq_nil_or_concat' (kept ++ D).dropLast).resolve_left h.two
      rw [hl, linkAfter_concat]
      exact Link.noConfusion)
  | next a =>
      rw [hl] at hload
      rw [hD]
      simpa [World.load, ← List.append_assoc] using hload

theorem not_mem (h : Ready w L X b kept D tmp c p) : tmp ∉ D ++ (L b).spare := by
  intro hm
  have hmem : tmp ∈ kept ++ X := by simp [h.only]
  have hnodup := h.inv.nodup b
  rw [Chains.all, h.data, List.append_assoc] at hnodup
  rcases List.mem_append.mp hmem with hk | hx
  · exact (List.nodup_append.mp hnodup).2.2 tmp hk tmp hm rfl
  · refine (h.inv.loose tmp hx).2 b ?_
    rw [Chains.all, h.data, List.append_assoc]
    exact List.mem_append_right _ hm

theorem length_le (h : Ready w L X b kept D tmp c p) :
    (D ++ (L b).spare).length ≤ w.mallocs := by
  have hle := h.inv.length_le b
  rw [Chains.all, h.data, List.append_assoc, List.length_append] at hle
  omega

end Ready

theorem pull_all {kept : List Addr} (h : Ready w L X b kept D tmp c p)
    (hroom : (w.bytes D).length ≤ c.room) :
    ∃ w' L', pull (w.setBuf b { w.buf b with first := some tmp }) b tmp p (w.bytes D).length =
        some (w', some (c.data ++ w.bytes D)) ∧ w'.Inv L' [] ∧ Frame [b] w L w' L' ∧
      w'.bytes (L' b).data = w.bytes (L b).data ∧ (w'.buf b).toCounts = (w.buf b).toCounts ∧
      (L' b).spare = [] := by
  obtain ⟨c', hc', happend⟩ := evbuffer_chain.append_of_le hroom
  have htmp := h.not_mem
  let w₁ := w.setBuf b { w.buf b with first := some tmp }
  let w₂ := (w₁.freeAll (D ++ (L b).spare)).setBuf b { w₁.buf b with last := some tmp }
  let w₃ := (w₂.setChain tmp c').setNext tmp none
  let w₄ := w₃.setBuf b { w₃.buf b with last_with_datap := .first b }
  have hbytes : w.bytes (D ++ (L b).spare) = w.bytes D := by
    rw [World.bytes_append, World.bytes_empty (l := (L b).spare), List.append_nil]
    intro a ha
    obtain ⟨c, hc, hsp⟩ := (h.inv.shape b).spare a ha
    exact ⟨c, hc, hsp.data⟩
  have hloop := pullLoop_eq (g := D ++ (L b).spare) (r := []) (p := D.getLast?)
    (q := (w.buf b).last_with_datap)
    (t := ⟨w₁, p, (w.bytes D).length, [], false, false⟩) (by simpa [w₁] using h.list)
    (fun a ha => by
      rcases List.mem_append.mp ha with ha | ha
      · exact h.live a ha
      · obtain ⟨c, hc, -⟩ := (h.inv.shape b).spare a ha
        exact ⟨c, hc⟩)
    (Nat.le_of_eq (congrArg List.length hbytes)) (by simp) (Nat.lt_succ_of_le h.length_le)
  have hrm : ((D ++ (L b).spare).any fun a => decide (D.getLast? = some a)) = true := by
    obtain ⟨l, e, hD⟩ := (List.eq_nil_or_concat' D).resolve_left h.ne
    simp [hD]
  have hc₂ : w₂.chain tmp = some c := by
    simp only [w₂, World.setBuf_chain, World.freeAll_of_not_mem htmp]
    exact h.chain
  have hbytes' : c.data ++ w.bytes D = w.bytes (L b).data := by
    rw [h.data, World.bytes_append, h.copied]
  have hne : c.data ++ w.bytes D ≠ [] := by
    obtain ⟨l, e, hD⟩ := (List.eq_nil_or_concat' D).resolve_left h.ne
    obtain ⟨d, hd, hdata⟩ := (h.inv.shape b).data e (by simp [h.data, hD])
    rw [hD, World.bytes_append, World.bytes_cons hd]
    simp [hdata]
  have hc₄ : w₄.chain tmp = some c' := World.setChain_self ..
  obtain ⟨hinv, hframe⟩ := h.inv.pulled (b := b) (v := w₄) (s := ⟨[tmp], []⟩) (g := D ++ (L b).spare)
    (r := []) h.only (by simp [Chains.all, h.data]) (by simp) rfl
    (fun j hj => by simp [w₄, w₃, w₂, w₁, hj])
    (fun a hat hag _ => (World.setChain_of_ne _ hat).trans (World.freeAll_of_not_mem hag))
    (fun a hat => World.setNext_of_ne _ hat)
    (fun a ha => (World.setChain_of_ne _ (ne_of_mem_of_not_mem ha htmp)).trans
      (World.freeAll_of_mem ha))
    (fun a ha d hd => by
      obtain rfl := List.mem_singleton.mp ha
      obtain rfl : c' = d := Option.some.inj (hc₄.symm.trans hd)
      exact happend.len ▸ (h.inv.owned _ c h.chain).2.1)
    ⟨by simp [w₄, w₃, w₂, w₁, Chain], by simp [w₄, w₃, w₂], by simp [w₄], fun a ha => by
        obtain rfl := List.mem_singleton.mp ha
        exact ⟨c', hc₄, by rwa [happend.data]⟩, by simp⟩
  refine ⟨w₄, _, ?_, hinv, hframe, ?_, by simp [w₄, w₃, w₂, w₁], by simp⟩
  · have hload := h.load
    simp only [pull, World.setBuf_self, hload, Option.bind_some, World.setBuf_mallocs]
    rw [hloop, Option.bind_some]
    simp only [pullRest, List.head?_nil, Option.bind_some, Bool.false_or, hrm, resetPulled,
      List.nil_append]
    have hcopied : w₁.bytes (D ++ (L b).spare) = w.bytes D := hbytes
    have hw₂ : (w₁.freeAll (D ++ (L b).spare)).setBuf b
        { (w₁.freeAll (D ++ (L b).spare)).buf b with last := some tmp } = w₂ := rfl
    rw [hcopied, hw₂, hc₂, Option.bind_some, hc', Option.bind_some, if_true, Option.map_some,
      happend.data]
  · rw [Function.update_self, World.bytes_cons hc₄, happend.data, hbytes']
    simp

/-- The link that led to the last chain with data still does, or is made anew. -/
theorem resetPulled_eq {t : Addr} {P K k : List Addr} {rmp : Bool}
    (hfirst : (w.buf b).first = some t) (htmp : w.chain t = some d)
    (hnext : w.next t = some z) (hz : w.chain z = some c) (hdata : c.data ≠ [])
    (hlwd : (w.buf b).last_with_datap = linkAfter b (k ++ (P ++ z :: K)).dropLast)
    (hrmp : rmp = P.any fun a => decide ((w.buf b).last_with_datap = .next a))
    (hnodup : (P ++ z :: K).Nodup) (hkept : k = [t] ∨ k = [] ∧ P ≠ []) :
    resetPulled w b false rmp = some (w.setBuf b
      { w.buf b with last_with_datap := linkAfter b (t :: z :: K).dropLast }) := by
  have hoff : c.off ≠ 0 := fun h0 => hdata (List.length_eq_zero_iff.mp h0)
  have hkeep : rmp = false →
      (w.buf b).last_with_datap = linkAfter b (t :: z :: K).dropLast →
      resetPulled w b false rmp = some (w.setBuf b
        { w.buf b with last_with_datap := linkAfter b (t :: z :: K).dropLast }) := by
    rintro rfl hlink
    rw [← hlink]
    simp [resetPulled, World.setBuf]
  rcases List.eq_nil_or_concat' K with rfl | ⟨l, e, rfl⟩
  · rw [← List.append_assoc, List.dropLast_concat] at hlwd
    rcases List.eq_nil_or_concat' P with rfl | ⟨l, e, rfl⟩
    · -- it is the link of `t`
      obtain rfl : k = [t] := hkept.resolve_right fun h => h.2 rfl
      exact hkeep (by simpa using hrmp) (by simpa using hlwd)
    · -- it was the link of a chain that is gone
      have hlwd : (w.buf b).last_with_datap = .next e := by
        rw [hlwd, ← List.append_assoc, linkAfter_concat]
      have htrue : rmp = true := by simp [hrmp, hlwd]
      have hlink : linkAfter b [t] = .next t := linkAfter_concat (l := [])
      simp [resetPulled, htrue, hfirst, World.load, htmp, hnext, hz, hoff, hlink]
  · -- it is the link of a chain that stays
    obtain ⟨m, x, hm⟩ := (List.eq_nil_or_concat' (z :: l)).resolve_left (List.cons_ne_nil _ _)
    have hcut : k ++ (P ++ z :: (l ++ [e])) = k ++ P ++ m ++ [x] ++ [e] := by
      rw [← List.cons_append, hm]
      simp
    have hlwd : (w.buf b).last_with_datap = .next x := by
      rw [hlwd, hcut, List.dropLast_concat, linkAfter_concat]
    refine hkeep ?_ ?_
    · rw [hrmp, List.any_eq_false]
      intro a ha
      rw [hlwd]
      simp only [Link.next.injEq, decide_eq_true_eq]
      rintro rfl
      refine (List.nodup_append.mp hnodup).2.2 x ha x ?_ rfl
      rw [← List.cons_append, hm]
      simp
    · have hcut : t :: z :: (l ++ [e]) = t :: m ++ [x] ++ [e] := by
        rw [← List.cons_append, hm]
        simp
      rw [hlwd, hcut, List.dropLast_concat, linkAfter_concat]

/-- `tmp` before the rest of the chains: `g` is gone, and `z` keeps some of its bytes. -/
theorem Ready.pulled_some {v : World} {kept g r : List Addr} {cz cz' : evbuffer_chain}
    (h : Ready w L X b kept D tmp c p) (hD : D = g ++ z :: r) (hz : w.chain z = some cz)
    (hmallocs : v.toMalloc = w.toMalloc) (hbuf : ∀ j, j ≠ b → v.buf j = w.buf j)
    (hfirst : (v.buf b).first = some tmp) (hlast : (v.buf b).last = (w.buf b).last)
    (hlwd : (v.buf b).last_with_datap = linkAfter b (tmp :: z :: r).dropLast)
    (hother : ∀ a, a ≠ tmp → a ∉ g → a ≠ z → v.chain a = w.chain a)
    (hgone : ∀ a ∈ g, v.chain a = none) (hnext : ∀ a, a ≠ tmp → v.next a = w.next a)
    (hlink : v.next tmp = some z) (htmp : v.chain tmp = some c')
    (hlen : c'.buffer_len = c.buffer_len) (hne : c'.data ≠ []) (hz' : v.chain z = some cz')
    (hzlen : cz'.buffer_len = cz.buffer_len) (hzne : cz'.data ≠ []) :
    v.Inv (Function.update L b ⟨tmp :: z :: r, (L b).spare⟩) [] ∧
      Frame [b] w L v (Function.update L b ⟨tmp :: z :: r, (L b).spare⟩) ∧
      v.bytes (tmp :: z :: r) = c'.data ++ (cz'.data ++ w.bytes r) := by
  have hnot := h.not_mem
  have hnodup := h.list.nodup
  rw [hD, List.append_assoc, List.cons_append] at hnot hnodup
  obtain ⟨-, hzrest, hgz⟩ := List.nodup_append.mp hnodup
  have hztmp : z ≠ tmp := fun hzt => hnot (by simp [hzt])
  have hrest : ∀ a ∈ r ++ (L b).spare, v.chain a = w.chain a ∧ v.next a = w.next a := by
    intro a ha
    have hat : a ≠ tmp := fun hat =>
      hnot (hat ▸ List.mem_append_right _ (List.mem_cons_of_mem z ha))
    exact ⟨hother a hat (fun hag => hgz a hag a (List.mem_cons_of_mem z ha) rfl)
      fun haz => (List.nodup_cons.mp hzrest).1 (haz ▸ ha), hnext a hat⟩
  have hcut : (L b).all = kept ++ (g ++ (z :: r ++ (L b).spare)) := by
    rw [Chains.all, h.data, hD]
    simp
  have hlist : Chain w.next (w.next z) (r ++ (L b).spare) := by
    have hlist : Chain w.next p (g ++ z :: (r ++ (L b).spare)) := by simpa [hD] using h.list
    exact hlist.suffix
  have hshape : Shape v b ⟨tmp :: z :: r, (L b).spare⟩ :=
    { chain := ⟨hfirst, hlink, hnext z hztmp ▸ hlist.frame fun a ha => (hrest a ha).2⟩
      last := by
        rw [hlast, (h.inv.shape b).last, hcut, Chains.all_mk, List.cons_append, List.cons_append,
          List.cons_append]
        rw [List.getLast?_append_of_ne_nil _ (by simp), List.getLast?_append_of_ne_nil _ (by simp),
          List.getLast?_cons_cons]
      last_with_datap := hlwd
      data := fun a ha => by
        rcases List.mem_cons.mp ha with rfl | ha
        · exact ⟨c', htmp, hne⟩
        · rcases List.mem_cons.mp ha with rfl | ha
          · exact ⟨cz', hz', hzne⟩
          · rw [(hrest a (List.mem_append_left _ ha)).1]
            exact (h.inv.shape b).data a (by simp [h.data, hD, ha])
      spare := fun a ha => by
        rw [(hrest a (List.mem_append_right _ ha)).1]
        exact (h.inv.shape b).spare a ha }
  obtain ⟨hinv, hframe⟩ := h.inv.pulled (r := z :: r ++ (L b).spare) h.only hcut (by simp) hmallocs
    hbuf (fun a hat hag har => hother a hat hag fun haz => har (by simp [haz])) hnext hgone
    (fun a ha d hd => by
      rcases List.mem_cons.mp ha with rfl | ha
      · obtain rfl : c' = d := Option.some.inj (htmp.symm.trans hd)
        exact hlen ▸ (h.inv.owned _ c h.chain).2.1
      · rcases List.mem_cons.mp ha with rfl | ha
        · obtain rfl : cz' = d := Option.some.inj (hz'.symm.trans hd)
          exact hzlen ▸ (h.inv.owned _ cz hz).2.1
        · exact (h.inv.owned a d ((hrest a ha).1.symm.trans hd)).2.1) hshape
  refine ⟨hinv, hframe, ?_⟩
  have hbytes : v.bytes r = w.bytes r :=
    World.bytes_congr fun a ha => (hrest a (List.mem_append_left _ ha)).1
  rw [World.bytes_cons htmp, World.bytes_cons hz', hbytes]

/-- Some bytes are put into `tmp`, and the chains that are empty then go. -/
theorem pull_some {kept : List Addr} (h : Ready w L X b kept D tmp c p) (hroom : n ≤ c.room)
    (hlt : n < (w.bytes D).length)
    (hkept : kept = [tmp] ∨ kept = [] ∧ ∃ e d, D.head? = some e ∧ w.chain e = some d ∧ d.off ≤ n)
    (hne : 0 < n) :
    ∃ w' L', pull (w.setBuf b { w.buf b with first := some tmp }) b tmp p n =
        some (w', some (c.data ++ (w.bytes D).take n)) ∧ w'.Inv L' [] ∧ Frame [b] w L w' L' ∧
      w'.bytes (L' b).data = w.bytes (L b).data ∧ (w'.buf b).toCounts = (w.buf b).toCounts ∧
      (L' b).spare = (L b).spare := by
  obtain ⟨pre, z, post, cz, hD, hz, hle, hzlt⟩ := exists_split h.live hlt
  have htmp := h.not_mem
  have hnodup := h.list.nodup
  rw [hD, List.append_assoc, List.cons_append] at htmp hnodup
  obtain ⟨-, -, hprez⟩ := List.nodup_append.mp hnodup
  have hzpre : z ∉ pre := fun hm => hprez z hm z List.mem_cons_self rfl
  have hztmp : z ≠ tmp := fun hzt => htmp (by simp [hzt])
  have htmppre : tmp ∉ pre := fun hm => htmp (List.mem_append_left _ hm)
  simp only [evbuffer_chain.off] at hzlt
  obtain ⟨cz', hcz', hzdata, -, hzlen⟩ :=
    evbuffer_chain.drop_of_le (c := cz) (n := n - (w.bytes pre).length)
      (by simp only [evbuffer_chain.off]; omega)
  have hzne : cz'.data ≠ [] := by
    rw [hzdata]
    intro hnil
    have hlen := List.drop_eq_nil_iff.mp hnil
    omega
  have htake : (w.bytes D).take n = w.bytes pre ++ cz.data.take (n - (w.bytes pre).length) := by
    rw [hD, World.bytes_append, World.bytes_cons hz, List.take_append, List.take_of_length_le hle,
      List.take_append_of_le_length (by omega)]
  have hdrop : (w.bytes D).drop n = cz'.data ++ w.bytes post := by
    rw [hD, World.bytes_append, World.bytes_cons hz, List.drop_append,
      List.drop_eq_nil_of_le hle, List.nil_append, hzdata,
      List.drop_append_of_le_length (by omega)]
  have hfit : ((w.bytes D).take n).length ≤ c.room := by
    rw [List.length_take]
    omega
  obtain ⟨c', hc', happend⟩ := evbuffer_chain.append_of_le hfit
  have hne' : c'.data ≠ [] := by
    rw [happend.data]
    refine List.append_ne_nil_of_right_ne_nil _ fun hnil => ?_
    have hlen := congrArg List.length hnil
    rw [List.length_take, List.length_nil] at hlen
    omega
  let w₁ := w.setBuf b { w.buf b with first := some tmp }
  let w₂ := (w₁.freeAll pre).setChain z cz'
  let w₃ := (w₂.setChain tmp c').setNext tmp (some z)
  let w₄ := w₃.setBuf b
    { w₃.buf b with last_with_datap := linkAfter b (tmp :: z :: post).dropLast }
  have hzfree : (w₁.freeAll pre).chain z = some cz := (World.freeAll_of_not_mem hzpre).trans hz
  have hc₂ : w₂.chain tmp = some c :=
    (World.setChain_of_ne _ hztmp.symm).trans ((World.freeAll_of_not_mem htmppre).trans h.chain)
  have hc₄ : w₄.chain tmp = some c' := World.setChain_self ..
  have hz₃ : w₃.chain z = some cz' :=
    (World.setChain_of_ne _ hztmp).trans (World.setChain_self ..)
  obtain ⟨hinv, hframe, hbytes⟩ := h.pulled_some (v := w₄) hD hz rfl
    (fun j hj => by simp [w₄, w₃, w₂, w₁, hj]) (by simp [w₄, w₃, w₂, w₁])
    (by simp [w₄, w₃, w₂, w₁]) (by simp [w₄])
    (fun a hat hap haz => (World.setChain_of_ne _ hat).trans
      ((World.setChain_of_ne _ haz).trans (World.freeAll_of_not_mem hap)))
    (fun a ha => (World.setChain_of_ne _ (ne_of_mem_of_not_mem ha htmppre)).trans
      ((World.setChain_of_ne _ (ne_of_mem_of_not_mem ha hzpre)).trans (World.freeAll_of_mem ha)))
    (fun a hat => World.setNext_of_ne _ hat) (World.setNext_self ..) hc₄ happend.len hne' hz₃
    hzlen hzne
  refine ⟨w₄, _, ?_, hinv, hframe, ?_, by simp [w₄, w₃, w₂, w₁], by simp⟩
  · have hload := h.load
    have hloop := pullLoop_eq (g := pre) (r := z :: post ++ (L b).spare) (p := D.getLast?)
      (q := (w.buf b).last_with_datap)
      (t := ⟨w₁, p, n, [], false, false⟩) (by simpa [w₁, hD] using h.list)
      (fun a ha => h.live a (by simp [hD, ha])) hle
      (fun y hy => by
        obtain rfl : z = y := by simpa using hy
        refine ⟨cz, hz, ?_⟩
        show n - (w.bytes pre).length < cz.data.length
        omega)
      (show pre.length < w.mallocs + 1 by
        have hfuel := h.length_le
        rw [hD] at hfuel
        simp only [List.length_append, List.length_cons] at hfuel
        omega)
    have hrm : (pre.any fun a => decide (D.getLast? = some a)) = false := by
      rw [List.any_eq_false]
      intro a ha
      rw [hD, List.getLast?_append_of_ne_nil _ (List.cons_ne_nil _ _), decide_eq_true_eq]
      intro hlast
      exact hprez a ha a (List.mem_append_left _ (List.mem_of_getLast? hlast)) rfl
    simp only [pull, World.setBuf_self, hload, Option.bind_some, World.setBuf_mallocs]
    rw [hloop, Option.bind_some]
    have hnone : kept = [tmp] ∨ kept = [] ∧ pre ≠ [] := by
      rcases hkept with hk | ⟨hk, e, d, hhead, hed, hdn⟩
      · exact .inl hk
      · refine .inr ⟨hk, fun hnil => ?_⟩
        rw [hD, hnil] at hhead
        obtain rfl : z = e := by simpa using hhead
        obtain rfl : cz = d := Option.some.inj (hz.symm.trans hed)
        rw [hnil] at hzlt
        simp only [World.bytes_nil, List.length_nil, Nat.zero_add, evbuffer_chain.off] at hzlt hdn
        omega
    have hpre : w₁.bytes pre = w.bytes pre := rfl
    have hreset := resetPulled_eq (w := w₃) (b := b) (t := tmp) (d := c') (z := z) (c := cz')
      (P := pre) (K := post) (k := kept) (by simp [w₃, w₂, w₁]) hc₄ (World.setNext_self ..)
      hz₃ hzne (by simp [w₃, w₂, w₁, h.link_eq.1, hD]) rfl
      (by simpa using (List.nodup_append.mp (by simpa using hnodup :
        ((pre ++ z :: post) ++ (L b).spare).Nodup)).1)
      hnone
    simp only [pullRest, List.cons_append, List.head?_cons, hpre, hzfree, Option.bind_some, hcz',
      Option.map_some, List.nil_append, Bool.false_or, hrm]
    have hw₂ : (w₁.freeAll pre).setChain z cz' = w₂ := rfl
    have hw₃ : (w₂.setChain tmp c').setNext tmp (some z) = w₃ := rfl
    rw [hw₂, hc₂, Option.bind_some, ← htake, hc', Option.bind_some, hw₃]
    have hlwd₃ : (w₃.buf b).last_with_datap = (w.buf b).last_with_datap := by simp [w₃, w₂, w₁]
    rw [hlwd₃] at hreset
    rw [hreset, Option.map_some, happend.data]
  · rw [Function.update_self, hbytes, happend.data, ← hdrop, List.append_assoc,
      List.take_append_drop, h.data, World.bytes_append, h.copied]

/-! ## What is allocated -/

theorem pullLoop_malloc {q : Link} {t t' : Pulled} (h : pullLoop q p fuel t = some t') :
    t'.w.toMalloc = t.w.toMalloc := by
  induction fuel generalizing t with
  | zero => cases h
  | succ fuel ih =>
      rw [pullLoop] at h
      split at h
      · cases h
        rfl
      · obtain ⟨c, -, h⟩ := Option.bind_eq_some_iff.mp h
        split at h
        · obtain ⟨w₁, hfree, h⟩ := Option.bind_eq_some_iff.mp h
          obtain ⟨_, -, rfl⟩ := Option.map_eq_some_iff.mp hfree
          have hrest := ih h
          exact hrest
        · cases h
          rfl

theorem pullRest_malloc {t : Pulled} (h : pullRest t b tmp = some (w', bs)) :
    w'.toMalloc = t.w.toMalloc := by
  rw [pullRest] at h
  split at h
  · cases h
    rfl
  · obtain ⟨c, -, h⟩ := Option.bind_eq_some_iff.mp h
    obtain ⟨c', -, h⟩ := Option.map_eq_some_iff.mp h
    cases h
    rfl

theorem resetPulled_malloc {i j : Bool} (h : resetPulled w b i j = some w') :
    w'.toMalloc = w.toMalloc := by
  rw [resetPulled] at h
  split at h
  · cases h
    rfl
  · split at h
    · obtain ⟨first, -, h⟩ := Option.bind_eq_some_iff.mp h
      obtain ⟨q, -, h⟩ := Option.bind_eq_some_iff.mp h
      cases q with
      | none =>
          cases h
          rfl
      | some z =>
          obtain ⟨c, -, h⟩ := Option.map_eq_some_iff.mp h
          cases h
          rfl
    · cases h
      rfl

theorem pull_malloc {r : Option (List UInt8)} (h : pull w b tmp p n = some (w', r)) :
    w'.toMalloc = w.toMalloc := by
  obtain ⟨_, -, h⟩ := Option.bind_eq_some_iff.mp h
  obtain ⟨t, hloop, h⟩ := Option.bind_eq_some_iff.mp h
  obtain ⟨⟨w₁, copied⟩, hrest, h⟩ := Option.bind_eq_some_iff.mp h
  obtain ⟨c, -, h⟩ := Option.bind_eq_some_iff.mp h
  obtain ⟨c', -, h⟩ := Option.bind_eq_some_iff.mp h
  obtain ⟨w₂, hreset, h⟩ := Option.map_eq_some_iff.mp h
  cases h
  exact (resetPulled_malloc hreset).trans ((pullRest_malloc hrest).trans (pullLoop_malloc hloop))

theorem World.not_outOfMemory (h : w'.toMalloc = w.toMalloc) : ¬w.OutOfMemory w' := by
  rintro ⟨i, hge, hlt, -⟩
  rw [h] at hlt
  exact Nat.lt_irrefl i (Nat.lt_of_lt_of_le hlt hge)

theorem pullup_some {z : Int} (h : evbuffer_pullup w b z = some (w', some bs)) :
    ¬w.OutOfMemory w' := by
  rw [evbuffer_pullup] at h
  dsimp only at h
  split at h
  · cases h
  · obtain ⟨a, -, h⟩ := Option.bind_eq_some_iff.mp h
    obtain ⟨c, -, h⟩ := Option.bind_eq_some_iff.mp h
    split at h
    · cases h
      exact World.not_outOfMemory rfl
    · split at h
      · exact World.not_outOfMemory (pull_malloc h)
      · obtain ⟨⟨w₁, o⟩, hnew, h⟩ := Option.bind_eq_some_iff.mp h
        obtain ⟨to_alloc, -, hnew⟩ := Option.map_eq_some_iff.mp hnew
        split at hnew
        · cases hnew
          cases h
        · rename_i hfails
          cases hnew
          have hmalloc := pull_malloc h
          rintro ⟨i, hge, hlt, hi⟩
          rw [hmalloc] at hlt
          obtain rfl : i = w.mallocs := Nat.le_antisymm (Nat.le_of_lt_succ hlt) hge
          exact hfails hi

/-! ## `evbuffer_pullup` -/

theorem pull_spec {t : Addr} {k : List Addr} (h : Ready w L X b k D t c p) (hroom : n ≤ c.room)
    (hle : n ≤ (w.bytes D).length)
    (hkept : k = [t] ∨ k = [] ∧ ∃ e d, D.head? = some e ∧ w.chain e = some d ∧ d.off ≤ n)
    (hne : 0 < n) :
    ∃ w' L', pull (w.setBuf b { w.buf b with first := some t }) b t p n =
        some (w', some (c.data ++ (w.bytes D).take n)) ∧ w'.Inv L' [] ∧ Frame [b] w L w' L' ∧
      w'.bytes (L' b).data = w.bytes (L b).data ∧ (w'.buf b).toCounts = (w.buf b).toCounts ∧
      ((L b).spare = [] → (L' b).spare = []) := by
  rcases Nat.lt_or_eq_of_le hle with hlt | rfl
  · obtain ⟨w', L', hpull, hinv, hframe, hbytes, hcounts, hspare⟩ :=
      pull_some h hroom hlt hkept hne
    exact ⟨w', L', hpull, hinv, hframe, hbytes, hcounts, fun hS => hspare.trans hS⟩
  · obtain ⟨w', L', hpull, hinv, hframe, hbytes, hcounts, hspare⟩ := pull_all h hroom
    rw [List.take_length]
    exact ⟨w', L', hpull, hinv, hframe, hbytes, hcounts, fun _ => hspare⟩

/-- The first `size` bytes are in one chain then; nothing else changes. -/
theorem pullup_spec {z : Int} (h : w.Inv L []) (hcount : Counted w L b)
    (hlen : pullSize (w.bytes (L b).data).length z ≤ maxLen) :
    if pullSize (w.bytes (L b).data).length z = 0 ∨
        (w.bytes (L b).data).length < pullSize (w.bytes (L b).data).length z then
      evbuffer_pullup w b z = some (w, none)
    else
      (∃ w', evbuffer_pullup w b z = some (w', none) ∧
        Becomes w L b w' L (w.bytes (L b).data) (w.buf b).toCounts ∧ w.OutOfMemory w') ∨
      ∃ w' L' bs, evbuffer_pullup w b z = some (w', some bs) ∧
        Becomes w L b w' L' (w.bytes (L b).data) (w.buf b).toCounts ∧
        pullSize (w.bytes (L b).data).length z ≤ bs.length ∧ bs <+: w.bytes (L b).data ∧
        ((L b).Tight → (L' b).Tight) := by
  rw [evbuffer_pullup, hcount]
  generalize pullSize (w.bytes (L b).data).length z = n at hlen ⊢
  split
  · rfl
  · rename_i hn
    obtain ⟨hn0, hnT⟩ := not_or.mp hn
    have hpos : 0 < n := Nat.pos_of_ne_zero hn0
    have hT : n ≤ (w.bytes (L b).data).length := Nat.le_of_not_lt hnT
    have hdata : (L b).data ≠ [] := fun hnil => by simp [hnil] at hT; omega
    obtain ⟨a, D, hD⟩ := List.exists_cons_of_ne_nil hdata
    have htight : ∀ {L' : BufId → Chains}, ((L b).spare = [] → (L' b).spare = []) →
        (L b).Tight → (L' b).Tight := fun hspare ht =>
      .inl (hspare (ht.resolve_right fun h => hdata h.1))
    obtain ⟨c, hc, -⟩ := (h.shape b).data a (by simp [hD])
    have hlist : Chain w.next (w.buf b).first (a :: (D ++ (L b).spare)) := by
      simpa [Chains.all, hD] using (h.shape b).chain
    have hfirst : (w.buf b).first = some a := hlist.1
    have hbytes : w.bytes (L b).data = c.data ++ w.bytes D := by rw [hD, World.bytes_cons hc]
    simp only [hfirst, Option.bind_some, hc]
    split
    · -- there is nothing to do
      rename_i hfast
      refine .inr ⟨w, L, c.data, rfl, .refl h, hfast, ?_, id⟩
      rw [hbytes]
      exact List.prefix_append ..
    · rename_i hslow
      have hDne : D ≠ [] := fun hnil => by
        rw [hbytes, hnil] at hT
        simp only [evbuffer_chain.off] at hslow
        simp only [World.bytes_nil, List.append_nil] at hT
        omega
      have htwo : (a :: D).dropLast ≠ [] := by
        obtain ⟨l, e, rfl⟩ := (List.eq_nil_or_concat' D).resolve_left hDne
        rw [← List.cons_append, List.dropLast_concat]
        exact List.cons_ne_nil _ _
      have hDlen : n - c.off ≤ (w.bytes D).length := by
        rw [hbytes, List.length_append] at hT
        simp only [evbuffer_chain.off]
        omega
      split
      · -- behind the bytes of the first chain
        rename_i hfit
        obtain ⟨w', L', hpull, hinv, hframe, hb, hk, hspare⟩ := pull_spec (k := [a]) (X := [])
          (p := w.next a) ⟨h, rfl, hD, hlist.2, hc, by simp [World.bytes, hc], hDne, htwo⟩
          (n := n - c.off) (by simp only [evbuffer_chain.buffer_len] at hfit; omega) hDlen (.inl rfl)
          (by omega)
        have hself : w.setBuf b { w.buf b with first := some a } = w := by
          simp [World.setBuf, ← hfirst]
        rw [hself] at hpull
        refine .inr ⟨w', L', _, hpull, ⟨hinv, hframe, hb, hk⟩, ?_, ?_, htight hspare⟩
        · rw [List.length_append, List.length_take]
          simp only [evbuffer_chain.off] at hDlen ⊢
          omega
        · rw [hbytes]
          exact List.prefix_append_right_inj _ |>.mpr (List.take_prefix ..)
      · -- into a new chain
        rcases chain_new_spec h hlen with
          ⟨w₁, hnew, hinv₁, hext, hfail⟩ | ⟨w₁, x, d, hnew, hinv₁, hext, hx⟩
        · exact .inl ⟨w₁, by rw [hnew, Option.bind_some], hext.becomes h hinv₁, hfail⟩
        · have hsame : w₁.bytes (L b).data = w.bytes (L b).data := World.bytes_congr fun y hy => by
            obtain ⟨f, hf⟩ := h.data_live b y hy
            rw [hf, hext.chain y f hf]
          obtain ⟨w', L', hpull, hinv, hframe, hb, hk, hspare⟩ := pull_spec (k := [])
            (X := [x]) (p := some a) (D := (L b).data) (t := x) (c := d) (n := n)
            ⟨hinv₁, rfl, rfl, by
              have hlist₁ := (hinv₁.shape b).chain
              rwa [hext.buf, hfirst] at hlist₁, hx.chain, by simp [hx.spare.data], hdata,
              by simpa [hD] using htwo⟩ hx.room (hsame ▸ hT)
            (.inr ⟨rfl, a, c, by simp [hD], hext.chain a c hc, by omega⟩) hpos
          rw [hext.buf] at hpull
          refine .inr ⟨w', L', d.data ++ (w₁.bytes (L b).data).take n, ?_,
            ⟨hinv, (hext.frame h).trans hframe, hb.trans hsame, hk.trans (by rw [hext.buf])⟩, ?_, ?_,
            htight hspare⟩
          · simp only [hnew, Option.bind_some, hext.buf]
            exact hpull
          · rw [hx.spare.data, hsame, List.nil_append, List.length_take]
            omega
          · rw [hx.spare.data, hsame, List.nil_append]
            exact List.take_prefix ..

end

end CppWorkspace.Libevent
