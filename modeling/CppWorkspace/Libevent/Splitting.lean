/-
# `CppWorkspace.Libevent.Splitting` — `evbuffer_remove_buffer`

The whole chains at the front of `src` are relinked to `dst`, and of the next one a copy is
made with `evbuffer_add`, whose result is ignored: out of memory, what was to be copied is
gone.

    passChains     up to the chain in which the last byte is      `passChains_eq`
    linkChains     from `src` to `dst`                            `linkChains_spec`
    remove_buffer                                                 `remove_buffer_spec`
-/
import CppWorkspace.Libevent.Moving

namespace CppWorkspace.Libevent

open LinkedList (Chain)

/-! ## The functions -/

/-- `while ((*l)->next && (*l)->next->off) l = &(*l)->next`. -/
def advanceLoop (w : World) : Nat → Link → Option Link
  | 0, _ => none
  | fuel + 1, l =>
      (w.load l).bind fun p => p.bind fun a => (w.chain a).bind fun _ =>
        match w.next a with
        | none => some l
        | some n => (w.chain n).bind fun c =>
            if c.off ≠ 0 then advanceLoop w fuel (.next a) else some l

def advance_last_with_data (w : World) (b : BufId) : Option World :=
  (w.load (w.buf b).last_with_datap).bind fun
    | none => some w
    | some _ =>
        (advanceLoop w (w.mallocs + 1) (w.buf b).last_with_datap).map fun l =>
          w.setBuf b { w.buf b with last_with_datap := l }

/-- The loop of `evbuffer_remove_buffer`: the chain where it stops and the one before, the
bytes before it, and those still to be read. -/
def passChains : Nat → World → BufId → Addr → Addr → Nat → Nat →
    Option (World × Addr × Addr × Nat × Nat)
  | 0, _, _, _, _, _, _ => none
  | fuel + 1, w, src, chain, previous, nread, datlen =>
      (w.chain chain).bind fun c =>
        if c.off ≤ datlen then
          (w.load (w.buf src).last_with_datap).bind fun p =>
            if p = some chain then none
            else
              let w :=
                if (w.buf src).last_with_datap = .next chain then
                  w.setBuf src { w.buf src with last_with_datap := .first src }
                else w
              (w.next chain).bind fun next =>
                passChains fuel w src next chain (nread + c.off) (datlen - c.off)
        else some (w, chain, previous, nread, datlen)

/-- The chains of `src` up to `previous` go to `dst`; the next one is `chain`. -/
def linkChains (w : World) (src dst : BufId) (chain previous : Addr) (nread : Nat) :
    Option World :=
  if nread = 0 then some w
  else
    (evbuffer_free_trailing_empty_chains w dst).bind fun (w, chp) =>
      (if (w.buf dst).first = none then
          some (w.setBuf dst { w.buf dst with first := (w.buf src).first })
        else w.store (w.buf src).first chp).bind fun w =>
          let w := w.setBuf dst { w.buf dst with last := some previous }
          (w.store none (.next previous)).bind fun w =>
            let w := w.setBuf src { w.buf src with first := some chain }
            (advance_last_with_data w dst).map fun w =>
              w.setCounts dst ((w.buf dst).added nread)

/-- The end of `evbuffer_remove_buffer`: the first `datlen` bytes of `chain` are copied. -/
def copyPart (w : World) (src dst : BufId) (chain : Addr) (nread datlen : Nat) :
    Option (World × Int) :=
  (w.chain chain).bind fun c =>
    (evbuffer_add w dst (c.data.take datlen)).bind fun (w, _) =>
      (w.chain chain).bind fun c => (c.drop datlen).map fun c =>
        let w := w.setChain chain c
        let w := w.setCounts src ((w.buf src).deleted (nread + datlen))
        (if nread + datlen ≠ 0 then
            evbuffer_invoke_callbacks (evbuffer_invoke_callbacks w dst) src
          else w, ((nread + datlen : Nat) : Int))

/-- `evbuffer_remove_buffer`, where some data stays. -/
def removePart (w : World) (src dst : BufId) (datlen : Nat) : Option (World × Int) :=
  (w.buf src).first.bind fun first =>
    (passChains w.mallocs w src first first 0 datlen).bind
      fun (w, chain, previous, nread, datlen) =>
        (linkChains w src dst chain previous nread).bind fun w =>
          copyPart w src dst chain nread datlen

def evbuffer_remove_buffer (w : World) (src dst : BufId) (datlen : Nat) : Option (World × Int) :=
  if datlen = 0 ∨ dst = src then some (w, 0)
  else if (w.buf dst).freeze_end ∨ (w.buf src).freeze_start then some (w, -1)
  else if (w.buf src).total_len ≤ datlen then
    (evbuffer_add_buffer w dst src).map fun (w', _) => (w', ((w.buf src).total_len : Int))
  else removePart w src dst datlen

section
variable {w w' : World} {L L' : BufId → Chains} {X : List Addr} {b i j src dst : BufId}
  {s : Chains} {a x y z previous : Addr} {c c' d : evbuffer_chain}
  {l l₁ l₂ e D S pre post spare : List Addr} {p : Option Addr}
  {bs : List UInt8} {k : Counts} {n m fuel nread datlen : Nat}

/-! ## `advance_last_with_data` -/

theorem advanceLoop_eq {l : List Addr} (hlist : Chain w.next (w.buf b).first (l ++ y :: (e ++ l₂)))
    (hlive : ∀ a ∈ l ++ [y], ∃ c, w.chain a = some c)
    (he : ∀ a ∈ e, ∃ c, w.chain a = some c ∧ c.data ≠ [])
    (hstop : ∀ a ∈ l₂.head?, ∃ c, w.chain a = some c ∧ c.data = []) (hfuel : e.length < fuel) :
    advanceLoop w fuel (linkAfter b l) = some (linkAfter b (l ++ y :: e).dropLast) := by
  induction e generalizing l y fuel with
  | nil =>
      obtain ⟨fuel, rfl⟩ := Nat.exists_eq_succ_of_ne_zero (Nat.ne_zero_of_lt hfuel)
      have hload := load_linkAfter hlist fun a ha => hlive a (List.mem_append_left _ ha)
      obtain ⟨c, hc⟩ := hlive y (by simp)
      have hnext : w.next y = l₂.head? := hlist.suffix.head
      rw [advanceLoop, hload, List.dropLast_concat]
      simp only [List.head?_cons, Option.bind_some, hc, hnext]
      cases hhead : l₂.head? with
      | none => rfl
      | some a =>
          obtain ⟨d, hd, hempty⟩ := hstop a hhead
          simp [hd, evbuffer_chain.off, hempty]
  | cons a e ih =>
      obtain ⟨fuel, rfl⟩ := Nat.exists_eq_succ_of_ne_zero (Nat.ne_zero_of_lt hfuel)
      have hload := load_linkAfter hlist fun a ha => hlive a (List.mem_append_left _ ha)
      obtain ⟨c, hc⟩ := hlive y (by simp)
      obtain ⟨d, hd, hne⟩ := he a List.mem_cons_self
      have hoff : d.off ≠ 0 := fun h0 => hne (List.length_eq_zero_iff.mp h0)
      have hnext : w.next y = some a := by
        have hhead := hlist.suffix.head
        simpa using hhead
      have hih := ih (l := l ++ [y]) (y := a) (by simpa using hlist)
        (fun x hx => by
          rcases List.mem_append.mp hx with hx | hx
          · exact hlive x hx
          · obtain rfl := List.mem_singleton.mp hx
            exact ⟨d, hd⟩)
        (fun x hx => he x (List.mem_cons_of_mem a hx)) (Nat.lt_of_succ_lt_succ hfuel)
      rw [linkAfter_concat] at hih
      rw [advanceLoop, hload]
      simp only [List.head?_cons, Option.bind_some, hc, hnext, hd, if_pos hoff]
      rw [hih, List.append_assoc, List.singleton_append]

/-- `last_with_datap` moves on over the chains with data behind it. -/
theorem advance_eq {l m : List Addr} (hlist : Chain w.next (w.buf b).first (l ++ y :: (e ++ m)))
    (hlwd : (w.buf b).last_with_datap = linkAfter b l)
    (hlive : ∀ a ∈ l ++ [y], ∃ c, w.chain a = some c)
    (he : ∀ a ∈ e, ∃ c, w.chain a = some c ∧ c.data ≠ [])
    (hstop : ∀ a ∈ m.head?, ∃ c, w.chain a = some c ∧ c.data = [])
    (hfuel : e.length ≤ w.mallocs) :
    advance_last_with_data w b = some (w.setBuf b
      { w.buf b with last_with_datap := linkAfter b (l ++ y :: e).dropLast }) := by
  have hload := load_linkAfter hlist fun a ha => hlive a (List.mem_append_left _ ha)
  rw [advance_last_with_data, hlwd, hload, Option.bind_some]
  simp only [List.head?_cons]
  rw [advanceLoop_eq hlist hlive he hstop (Nat.lt_succ_of_le hfuel), Option.map_some]

/-! ## Passing whole chains -/

theorem passChains_eq {i : BufId} {t : Addr} {r : Nat}
    (hlist : Chain w.next (some a) (pre ++ z :: post ++ spare))
    (hlast : (w.buf i).last_with_datap = linkAfter i (pre ++ z :: post).dropLast)
    (hlive : ∀ d ∈ pre ++ z :: post, ∃ c, w.chain d = some c) (hz : w.chain z = some c)
    (hle : (w.bytes pre).length ≤ n) (hlt : n < (w.bytes pre).length + c.off)
    (hfuel : pre.length < fuel) :
    passChains fuel w i a t r n =
      some (w.setBuf i
        { w.buf i with last_with_datap := linkAfter i (z :: post).dropLast }, z,
        pre.getLast?.getD t, r + (w.bytes pre).length, n - (w.bytes pre).length) := by
  induction pre generalizing w a n r fuel t with
  | nil =>
      obtain ⟨fuel, rfl⟩ := Nat.exists_eq_succ_of_ne_zero (Nat.ne_zero_of_lt hfuel)
      obtain ⟨hza, -⟩ := hlist
      obtain rfl : a = z := Option.some.inj hza
      have hstop : ¬c.off ≤ n := by simpa using hlt
      have hsame : w.setBuf i
          { w.buf i with last_with_datap := linkAfter i (a :: post).dropLast } = w := by
        rw [← List.nil_append (a :: post), ← hlast]
        simp [World.setBuf]
      rw [passChains, hz, Option.bind_some, if_neg hstop, hsame]
      rfl
  | cons x pre ih =>
      obtain ⟨fuel, rfl⟩ := Nat.exists_eq_succ_of_ne_zero (Nat.ne_zero_of_lt hfuel)
      have hnodup := hlist.nodup
      obtain ⟨hax, hrest⟩ := hlist
      obtain rfl : a = x := Option.some.inj hax
      obtain ⟨d, hd⟩ := hlive a List.mem_cons_self
      have hcons := World.bytes_cons (l := pre) hd
      rw [hcons, List.length_append] at hle hlt
      have hgo : d.off ≤ n := by
        simp only [evbuffer_chain.off]
        omega
      obtain ⟨hane, -⟩ := List.nodup_cons.mp hnodup
      have ha : a ∉ pre ++ z :: post := fun hm => hane (List.mem_append_left _ hm)
      obtain ⟨q, hq, hload⟩ := load_lwd_cons hlast (by simp) ⟨rfl, hrest⟩ hlive
      have hqa : q ≠ a := ne_of_mem_of_not_mem hq ha
      have hset := lwd_after hlast (by simp) ha
      let w₁ := w.setBuf i
        { w.buf i with last_with_datap := linkAfter i (pre ++ z :: post).dropLast }
      obtain ⟨next, hnext⟩ : ∃ next, w.next a = some next := by
        cases pre with
        | nil => exact ⟨z, hrest.1⟩
        | cons y pre => exact ⟨y, hrest.1⟩
      have hih := ih (w := w₁) (a := next) (n := n - d.off) (r := r + d.off)
        (t := a) (hnext ▸ hrest) (by simp [w₁])
        (fun x hx => hlive x (List.mem_cons_of_mem a hx)) hz
        (by
          show (w.bytes pre).length ≤ _
          simp only [evbuffer_chain.off]
          omega)
        (by
          show _ < (w.bytes pre).length + c.off
          simp only [evbuffer_chain.off] at hlt ⊢
          omega)
        (Nat.lt_of_succ_lt_succ hfuel)
      have hbytes : w₁.bytes pre = w.bytes pre := rfl
      have hprev : pre.getLast?.getD a = (a :: pre).getLast?.getD t := by
        rw [List.getLast?_cons]
        rfl
      have hread : r + d.off + (w.bytes pre).length =
          r + (w.bytes (a :: pre)).length := by
        rw [hcons, List.length_append, evbuffer_chain.off, Nat.add_assoc]
      have hrem : n - d.off - (w.bytes pre).length = n - (w.bytes (a :: pre)).length := by
        rw [hcons, List.length_append, evbuffer_chain.off, Nat.sub_sub]
      have hworld : w₁.setBuf i
          { w₁.buf i with last_with_datap := linkAfter i (z :: post).dropLast } =
            w.setBuf i
              { w.buf i with last_with_datap := linkAfter i (z :: post).dropLast } := by
        simp [w₁, World.setBuf]
      rw [hbytes, hprev, hread, hrem, hworld] at hih
      rw [passChains, hd, Option.bind_some, if_pos hgo, hload, Option.bind_some,
        if_neg (by simpa using hqa)]
      simp only [hset]
      exact (congrArg (Option.bind · _) hnext).trans hih

/-! ## Linking them to the other buffer -/

/-- `evbuffer_remove_buffer`, where the pointers of `dst` end up. -/
theorem linkChains_eq (hne : dst ≠ src) (hshape : Shape w dst s)
    (hlen : (s.data ++ pre).length ≤ w.mallocs) (hall : s.all.length ≤ w.mallocs)
    (hnodup : s.all.Nodup) (hpre : pre.getLast? = some y)
    (hsrc : Chain w.next (w.buf src).first (pre ++ l)) (hn : n ≠ 0)
    (hkind : ∀ a ∈ pre, ∃ c, w.chain a = some c ∧ c.data ≠ [])
    (hdisjoint : ∀ a ∈ s.all, a ∉ pre ++ l) :
    ∃ w', linkChains w src dst z y n = some w' ∧ w'.toMalloc = w.toMalloc ∧
      w'.chain = (w.freeAll s.spare).chain ∧ (∀ a, a ∉ s.data ++ pre → w'.next a = w.next a) ∧
      (∀ j, j ∉ [src, dst] → w'.buf j = w.buf j) ∧
      w'.buf src = { w.buf src with first := some z } ∧
      Chain w'.next (w'.buf dst).first (s.data ++ pre) ∧ (w'.buf dst).last = some y ∧
      (w'.buf dst).last_with_datap = linkAfter dst (s.data ++ pre).dropLast ∧
      (w'.buf dst).toCounts = (w.buf dst).added n := by
  obtain ⟨w₁, hfree, hlist₁, hchain₁, hmallocs₁, hnext₁, hbuf₁, hcounts₁, hlwd₁⟩ :=
    free_trailing_spec hshape hall hnodup
  obtain ⟨pre, rfl⟩ : ∃ p, pre = p ++ [y] := List.getLast?_eq_some_iff.mp hpre
  have hfirst₁ : (w₁.buf src).first = (w.buf src).first := by rw [hbuf₁ src hne.symm]
  have hkeep₁ : ∀ a, a ∉ s.spare → w₁.chain a = w.chain a := fun a ha => by
    rw [hchain₁, World.freeAll_of_not_mem ha]
  have hout : ∀ a ∈ pre ++ [y] ++ l, a ∉ s.all := fun a ha hm => hdisjoint a hm ha
  have hlive₁ : ∀ a ∈ s.data, ∃ c, w₁.chain a = some c := fun a ha => by
    rw [hkeep₁ a fun hs => (List.nodup_append.mp hnodup).2.2 a ha a hs rfl]
    exact hshape.data_live a ha
  have hsrc₁ : Chain w₁.next (w.buf src).first (pre ++ [y] ++ l) :=
    hsrc.frame fun a ha => hnext₁ a fun hd => hout a ha (Chains.mem_data hd)
  have hlist₁' : Chain w₁.next (w₁.buf dst).first (s.data ++ []) := by
    rw [List.append_nil]
    exact hlist₁
  obtain ⟨w₂, hstore, hlist₂, hchain₂, hmallocs₂, hnext₂, hbuf₂, hcounts₂, -, hlwd₂⟩ :=
    store_linkAfter hlist₁' hlive₁ hsrc₁ fun a ha hm => hout a hm (Chains.mem_data ha)
  have hfirst : (if (w₁.buf dst).first = none then
      some (w₁.setBuf dst { w₁.buf dst with first := (w₁.buf src).first })
      else w₁.store (w₁.buf src).first (linkAfter dst s.data)) = some w₂ := by
    rw [hfirst₁]
    split
    · rename_i hnone
      have hD : s.data = [] := by
        have hhead := hlist₁.head
        rw [hnone] at hhead
        exact List.head?_eq_none_iff.mp hhead.symm
      rw [hD] at hstore
      exact hstore
    · exact hstore
  -- the chains behind `y` are those of `src`
  have hy : ∃ c, w₂.chain y = some c := by
    obtain ⟨c, hc, -⟩ := hkind y (by simp)
    rw [hchain₂, hkeep₁ y fun hs => hout y (by simp) (Chains.mem_spare hs)]
    exact ⟨c, hc⟩
  obtain ⟨c, hc⟩ := hy
  let e₃ : evbuffer := { w₂.buf dst with last := some y }
  let w₃ := (w₂.setBuf dst e₃).setNext y none
  let w₄ := w₃.setBuf src { w₃.buf src with first := some z }
  have hlist₂' : Chain w₂.next (w₂.buf dst).first ((s.data ++ pre) ++ y :: l) := by
    simpa using hlist₂
  have hlist₄ : Chain w₄.next (w₄.buf dst).first (s.data ++ (pre ++ [y])) := by
    have hrelink := hlist₂'.relink (v := none) (l := [])
      (by
        have hnd := hlist₂'.nodup
        rw [show s.data ++ pre ++ y :: l = (s.data ++ pre ++ [y]) ++ l by simp] at hnd
        exact (List.nodup_append.mp hnd).1) rfl (by simp)
    simpa [w₄, w₃, e₃, hne, World.setNext] using hrelink
  have hsrc₄ : w₄.buf src = { w.buf src with first := some z } := by
    simp [w₄, w₃, hne.symm, hbuf₂ src hne.symm, hbuf₁ src hne.symm]
  have hchain₄ : w₄.chain = (w.freeAll s.spare).chain := hchain₂.trans hchain₁
  have hlwd₄ : (w₄.buf dst).last_with_datap = linkAfter dst s.data.dropLast := by
    simp [w₄, w₃, e₃, hne, hlwd₂, hlwd₁, hshape.last_with_datap]
  have hkeep₄ : ∀ a ∈ s.data ++ (pre ++ [y]), w₄.chain a = w.chain a := by
    intro a ha
    rw [hchain₄, World.freeAll_of_not_mem]
    rcases List.mem_append.mp ha with hd | hp
    · exact fun hs => (List.nodup_append.mp hnodup).2.2 a hd a hs rfl
    · exact fun hs => hout a (List.mem_append_left _ hp) (Chains.mem_spare hs)
  have hdata₄ : ∀ a ∈ s.data ++ (pre ++ [y]), ∃ c, w₄.chain a = some c ∧ c.data ≠ [] := by
    intro a ha
    rw [hkeep₄ a ha]
    rcases List.mem_append.mp ha with hd | hp
    · exact hshape.data a hd
    · exact hkind a hp
  obtain ⟨l₁, u, e, hl₁, hsplit⟩ : ∃ l₁ u e, s.data.dropLast = l₁ ∧
      s.data ++ (pre ++ [y]) = l₁ ++ u :: e := by
    rcases List.eq_nil_or_concat' s.data with hD | ⟨D, u, hD⟩
    · obtain ⟨u, e, hue⟩ := List.exists_cons_of_ne_nil (List.append_ne_nil_of_right_ne_nil pre
        (List.cons_ne_nil y []))
      exact ⟨[], u, e, by simp [hD], by simp [hD, hue]⟩
    · exact ⟨D, u, pre ++ [y], by simp [hD], by simp [hD]⟩
  have hadvance := advance_eq (b := dst) (w := w₄) (l := l₁) (y := u) (e := e) (m := [])
    (by
      rw [List.append_nil, ← hsplit]
      exact hlist₄)
    (by rw [hlwd₄, hl₁])
    (fun a ha => by
      obtain ⟨c, hc, -⟩ := hdata₄ a (by
        rw [hsplit]
        simp only [List.mem_append, List.mem_cons] at ha ⊢
        tauto)
      exact ⟨c, hc⟩)
    (fun a ha => hdata₄ a (by
      rw [hsplit]
      exact List.mem_append_right _ (List.mem_cons_of_mem u ha)))
    (by simp)
    (by
      have hlen' : (s.data ++ (pre ++ [y])).length = l₁.length + (e.length + 1) := by
        rw [hsplit, List.length_append, List.length_cons]
      have hmallocs₄ : w₄.mallocs = w.mallocs :=
        congrArg Malloc.mallocs (hmallocs₂.trans hmallocs₁)
      omega)
  rw [← hsplit] at hadvance
  refine ⟨(w₄.setBuf dst { w₄.buf dst with
      last_with_datap := linkAfter dst (s.data ++ (pre ++ [y])).dropLast }).setCounts dst
      ((w₄.buf dst).added n), ?_, hmallocs₂.trans hmallocs₁, hchain₄, fun a ha => ?_,
      fun j hj => ?_, ?_, ?_, ?_, by simp, ?_⟩
  · have hstore₃ : (w₂.setBuf dst e₃).store none (.next y) = some w₃ := by
      simp [World.store, hc, w₃]
    rw [linkChains, if_neg hn, hfree, Option.bind_some]
    simp only [hfirst, Option.bind_some]
    refine (congrArg (Option.bind · _) hstore₃).trans ?_
    refine (congrArg (Option.map _) hadvance).trans ?_
    simp
  · have hay : a ≠ y := fun hay => ha (by simp [hay])
    have had : a ∉ s.data := fun hd => ha (List.mem_append_left _ hd)
    have hw₃ : w₃.next a = w₂.next a := World.setNext_of_ne _ hay
    exact hw₃.trans ((hnext₂ a had).trans (hnext₁ a had))
  · simp only [List.mem_cons, List.not_mem_nil, or_false, not_or] at hj
    simp [w₄, w₃, hj.1, hj.2, hbuf₂ j hj.2, hbuf₁ j hj.2]
  · simp only [World.setCounts_of_ne _ hne.symm, World.setBuf_of_ne _ hne.symm, hsrc₄]
  · simpa using hlist₄
  · simp [w₄, w₃, e₃, hne]
  · simp [w₄, w₃, e₃, hne, hcounts₂, hcounts₁]

/-- The first chains of `src` are in nobody's hands. -/
theorem World.Inv.detached (h : w.Inv L []) (hs : L src = ⟨pre ++ z :: post, S⟩) {v : World}
    (hv : v = w.setBuf src
      { w.buf src with
          first := some z, last_with_datap := linkAfter src (z :: post).dropLast })
    (hz : Chain w.next (some z) (z :: post ++ S)) :
    v.Inv (Function.update L src ⟨z :: post, S⟩) pre ∧
      Frame [src] w L v (Function.update L src ⟨z :: post, S⟩) := by
  have hshape := h.shape src
  have hnodup := h.nodup src
  rw [hs] at hshape hnodup
  have hsplit : ((pre ++ z :: post) ++ S) = pre ++ (z :: post ++ S) := by simp
  rw [Chains.all_mk, hsplit] at hnodup
  obtain ⟨hpre_nodup, hrest_nodup, hpre_rest⟩ := List.nodup_append.mp hnodup
  have hshape' : Shape v src ⟨z :: post, S⟩ := by
    subst hv
    refine ⟨by simpa using hz, ?_, by simp, fun a ha => ?_, fun a ha => hshape.spare a ha⟩
    · rw [World.setBuf_self, hshape.last, Chains.all_mk, hsplit,
        List.getLast?_append_of_ne_nil _ (by simp), Chains.all_mk]
    · exact hshape.data a (List.mem_append_right _ ha)
  refine h.rearranged (Y := pre) (by rw [hv]; rfl) (fun j hj => by simp [hv, hj])
    (fun _ _ => by rw [hv]; exact ⟨rfl, rfl⟩)
    (fun a ha => by
      rw [hs]
      simp only [Chains.all_mk, List.append_nil, List.mem_append, List.mem_cons] at ha ⊢
      tauto)
    (List.nodup_append.mpr ⟨hrest_nodup, hpre_nodup,
      fun a ha d hd had => hpre_rest d hd a ha had.symm⟩)
    (fun a ha hno => by
      rw [hs] at ha
      simp only [Chains.all_mk, List.append_nil, List.mem_append, List.mem_cons] at ha hno
      tauto)
    (fun a _ c hc => by
      rw [hv] at hc
      exact (h.owned a c hc).2.1)
    (fun a ha => by
      obtain ⟨c, hc, -⟩ := hshape.data a (List.mem_append_left _ ha)
      rw [hv]
      exact Option.isSome_iff_exists.mpr ⟨c, hc⟩)
    hshape'

theorem linkChains_spec (h : w.Inv L []) (hne : dst ≠ src)
    (hs : L src = ⟨pre ++ z :: post, S⟩) (hpre : pre.getLast? = some y) (hn : n ≠ 0) :
    ∃ w' L', linkChains (w.setBuf src
        { w.buf src with last_with_datap := linkAfter src (z :: post).dropLast }) src dst z y n =
        some w' ∧
      w'.Inv L' [] ∧ Frame [dst, src] w L w' L' ∧ L' src = ⟨z :: post, S⟩ ∧
      L' dst = ⟨(L dst).data ++ pre, []⟩ ∧ (∀ a, a ∉ (L dst).spare → w'.chain a = w.chain a) ∧
      (w'.buf dst).toCounts = (w.buf dst).added n ∧
      (w'.buf src).toCounts = (w.buf src).toCounts := by
  have hshape := h.shape src
  rw [hs] at hshape
  have hlist : Chain w.next (w.buf src).first (pre ++ (z :: post ++ S)) := by
    simpa [Chains.all] using hshape.chain
  have hdisjoint : ∀ a ∈ (L dst).all, a ∉ pre ++ (z :: post ++ S) := fun a ha hm =>
    hne (h.disjoint dst src a ha (by simpa [hs, Chains.all] using hm))
  have hrest : Chain w.next (some z) (z :: post ++ S) := by
    obtain ⟨p, hp⟩ : ∃ p, pre = p ++ [y] := List.getLast?_eq_some_iff.mp hpre
    rw [hp, List.append_assoc, List.singleton_append] at hlist
    have hnext : w.next y = some z := hlist.suffix.head
    exact hnext ▸ hlist.suffix
  have hpre_nodup : pre.Nodup := (List.nodup_append.mp hlist.nodup).1
  -- the chains that move are in nobody's hands in between
  let w₁ := w.setBuf src { w.buf src with last_with_datap := linkAfter src (z :: post).dropLast }
  let w₂ := w₁.setBuf src { w₁.buf src with first := some z }
  obtain ⟨hinv₂, hframe₂⟩ := h.detached (v := w₂) hs (by simp [w₂, w₁, World.setBuf]) hrest
  have hL₂ : Function.update L src ⟨z :: post, S⟩ dst = L dst := Function.update_of_ne hne ..
  have hshape_dst : Shape w₁ dst (L dst) :=
    (h.shape dst).of_same (by simp [w₁, hne]) (fun _ _ => rfl) fun _ _ => rfl
  have hlen : ((L dst).data ++ pre).length ≤ w₁.mallocs := by
    have hnd : ((L dst).data ++ pre).Nodup := List.nodup_append.mpr
      ⟨(List.nodup_append.mp (h.nodup dst)).1, hpre_nodup,
        fun a ha d hd had => hdisjoint a (Chains.mem_data ha)
          (had ▸ List.mem_append_left _ hd)⟩
    have hsub : (L dst).data ++ pre ⊆ List.range w.mallocs := fun a ha => by
      refine List.mem_range.mpr ?_
      rcases List.mem_append.mp ha with hd | hp
      · exact h.lt_mallocs (Chains.mem_data hd)
      · exact h.lt_mallocs (b := src) (by simp [hs, hp])
    have hle := (hnd.subperm hsub).length_le
    rwa [List.length_range] at hle
  obtain ⟨w₃, hlink, hmallocs₃, hchain₃, hnext₃, hbuf₃, hsrc₃, hlist₃, hlast₃, hlwd₃, hcounts₃⟩ :=
    linkChains_eq (w := w₁) (z := z) (n := n) hne hshape_dst hlen (h.length_le dst) (h.nodup dst)
      hpre (by simpa [w₁] using hlist) hn
      (fun a ha => hshape.data a (List.mem_append_left _ ha)) hdisjoint
  have hkeep : ∀ a, a ∉ (L dst).spare → w₃.chain a = w.chain a := fun a ha => by
    rw [hchain₃, World.freeAll_of_not_mem ha]
    rfl
  have hpre_dst : ∀ a ∈ pre, a ∉ (L dst).all := fun a ha hm =>
    hdisjoint a hm (List.mem_append_left _ ha)
  obtain ⟨hinv₃, hframe₃⟩ := hinv₂.rearranged (b := dst) (v := w₃)
    (s := ⟨(L dst).data ++ pre, []⟩) (Y := []) hmallocs₃
    (fun j hj => by
      rcases eq_or_ne j src with rfl | hjs
      · rw [hsrc₃]
        simp [w₂, w₁]
      · rw [hbuf₃ j (by simp [hj, hjs])]
        simp [w₂, hjs])
    (fun a ha => by
      rw [hL₂] at ha
      simp only [List.mem_append, not_or, Chains.all] at ha
      exact ⟨hkeep a ha.1.2, hnext₃ a (by simp [ha.1.1, ha.2])⟩)
    (fun a ha => by
      rw [hL₂]
      simp only [Chains.all, List.append_nil, List.mem_append] at ha ⊢
      tauto)
    (by
      simp only [Chains.all_mk, List.append_nil]
      exact List.nodup_append.mpr ⟨(List.nodup_append.mp (h.nodup dst)).1, hpre_nodup,
        fun a ha d hd had => hpre_dst d hd (had ▸ Chains.mem_data ha)⟩)
    (fun a ha hno => by
      rw [hL₂] at ha
      simp only [Chains.all, List.append_nil, List.mem_append, not_or] at ha hno
      have hs : a ∈ (L dst).spare := by tauto
      rw [hchain₃, World.freeAll_of_mem hs])
    (fun a ha c hc => by
      simp only [Chains.all_mk, List.append_nil] at ha
      have has : a ∉ (L dst).spare := by
        rcases List.mem_append.mp ha with hd | hp
        · exact fun hs => (List.nodup_append.mp (h.nodup dst)).2.2 a hd a hs rfl
        · exact fun hs => hpre_dst a hp (Chains.mem_spare hs)
      rw [hkeep a has] at hc
      exact (h.owned a c hc).2.1)
    (by simp)
    ⟨by simpa using hlist₃, by
      rw [hlast₃, Chains.all_mk, List.append_nil,
        List.getLast?_append_of_ne_nil _ (fun hnil => by simp [hnil] at hpre), hpre], hlwd₃,
      fun a ha => by
        rcases List.mem_append.mp ha with hd | hp
        · rw [hkeep a fun hs => (List.nodup_append.mp (h.nodup dst)).2.2 a hd a hs rfl]
          exact (h.shape dst).data a hd
        · rw [hkeep a fun hs => hpre_dst a hp (Chains.mem_spare hs)]
          exact hshape.data a (List.mem_append_left _ hp), by simp⟩
  refine ⟨w₃, _, hlink, hinv₃, (hframe₂.mono (by simp)).trans (hframe₃.mono (by simp)), ?_, ?_,
    hkeep, ?_, ?_⟩
  · rw [Function.update_of_ne hne.symm, Function.update_self]
  · rw [Function.update_self]
  · rw [hcounts₃]
    simp [w₁, hne]
  · rw [hsrc₃]
    simp [w₁]

/-! ## `evbuffer_remove_buffer` -/

theorem copyPart_spec {f : Nat} (h : w.Inv L []) (hne : dst ≠ src) (hs : L src = ⟨z :: post, S⟩)
    (hz : w.chain z = some c) (hn : n < c.off) (hpos : f + n ≠ 0)
    (htight : n = 0 ∨ (L dst).Tight) (hfreeze : (w.buf dst).freeze_end = false) :
    ∃ w' L' m, copyPart w src dst z f n = some (w', ((f + n : Nat) : Int)) ∧
      Moves w L dst src w' L' (w.bytes (L dst).data ++ (w.bytes (L src).data).take m)
        ((w.bytes (L src).data).drop n)
        ((w.buf dst).added m).evbuffer_run_callbacks
        ((w.buf src).deleted (f + n)).evbuffer_run_callbacks ∧
      (m = n ∨ m = 0 ∧ w.OutOfMemory w') := by
  have hlen_take : (c.data.take n).length = n := by
    rw [List.length_take]
    simp only [evbuffer_chain.off] at hn
    omega
  have hlen : (c.data.take n).length ≤ maxLen := by
    have hle := (h.owned z c hz).2.1
    simp only [evbuffer_chain.buffer_len] at hle
    omega
  have hbs : c.data.take n = [] ∨ (L dst).Tight := htight.imp_left fun h0 => by simp [h0]
  have hadd := add_spec (b := dst) h hlen hbs
  rw [hfreeze, if_neg Bool.false_ne_true] at hadd
  -- the bytes of `src` before and after
  have hsrc : w.bytes (L src).data = c.data ++ w.bytes post := by
    rw [hs]
    exact World.bytes_cons hz
  have htake : ∀ {m}, m ≤ n → (w.bytes (L src).data).take m = c.data.take m := fun hm => by
    rw [hsrc, List.take_append_of_le_length]
    simp only [evbuffer_chain.off] at hn
    omega
  have hdrop : (w.bytes (L src).data).drop n = c.data.drop n ++ w.bytes post := by
    rw [hsrc, List.drop_append_of_le_length]
    simp only [evbuffer_chain.off] at hn
    omega
  -- what is done to `src` after the call of `evbuffer_add`
  have hrest : ∀ {w₁ L₁ bs r m}, evbuffer_add w dst (c.data.take n) = some (w₁, r) →
      Becomes w L dst w₁ L₁ bs ((w.buf dst).added m).evbuffer_run_callbacks ∨
        Becomes w L dst w₁ L₁ bs (w.buf dst).toCounts ∧ m = 0 →
      ∃ w' L', copyPart w src dst z f n = some (w', ((f + n : Nat) : Int)) ∧
        Moves w L dst src w' L' bs ((w.bytes (L src).data).drop n)
          ((w.buf dst).added m).evbuffer_run_callbacks
          ((w.buf src).deleted (f + n)).evbuffer_run_callbacks ∧ w₁.mallocs ≤ w'.mallocs := by
    intro w₁ L₁ bs r m hw₁ hbecomes
    obtain ⟨k, hbecomes, hk⟩ : ∃ k, Becomes w L dst w₁ L₁ bs k ∧
        k.evbuffer_run_callbacks = ((w.buf dst).added m).evbuffer_run_callbacks := by
      rcases hbecomes with hb | ⟨hb, rfl⟩
      · exact ⟨_, hb, Counts.run_run⟩
      · exact ⟨_, hb, rfl⟩
    obtain ⟨hinv, hframe, hbytes, hcounts⟩ := hbecomes
    have hnd : src ∉ [dst] := by simpa using hne.symm
    have hL₁ : L₁ src = ⟨z :: post, S⟩ := (hframe.lists src hnd).trans hs
    have hkeep := hframe.chain src hnd
    have hz₁ : w₁.chain z = some c := by
      rw [hkeep z (by simp [hs]), hz]
    obtain ⟨c', hc', hdata', -, hlen'⟩ := evbuffer_chain.drop_of_le (Nat.le_of_lt hn)
    have hne' : c'.data ≠ [] := by
      rw [hdata']
      intro hnil
      have hle := List.drop_eq_nil_iff.mp hnil
      simp only [evbuffer_chain.off] at hn
      omega
    have hnodup := hinv.nodup src
    rw [hL₁, Chains.all_mk, List.cons_append] at hnodup
    have hzrest := (List.nodup_cons.mp hnodup).1
    have hother : ∀ d, d ≠ z → (w₁.setChain z c').chain d = w₁.chain d := fun d hd =>
      World.setChain_of_ne _ hd
    obtain ⟨hinv₂, hframe₂⟩ := hinv.setChain (b := src) (s := L₁ src) (f := c') hz₁
      (by simp [hL₁]) (hlen' ▸ (h.owned z c hz).2.1) rfl rfl
      (fun d hd => by
        rcases eq_or_ne d z with rfl | hdz
        · exact ⟨c', by simp, hne'⟩
        · rw [hother d hdz]
          exact (hinv.shape src).data d hd)
      (fun d hd => by
        have hdz : d ≠ z := fun hdz => hzrest (List.mem_append_right _ (by
          rw [hL₁] at hd
          exact hdz ▸ hd))
        rw [hother d hdz]
        exact (hinv.shape src).spare d hd)
    rw [Function.update_eq_self] at hinv₂ hframe₂
    have hsrc₂ : (w₁.setChain z c').bytes (L₁ src).data = (w.bytes (L src).data).drop n := by
      have hpost : (w₁.setChain z c').bytes post = w.bytes post := World.bytes_congr fun d hd => by
        have hdz : d ≠ z := fun hdz => hzrest (List.mem_append_left _ (hdz ▸ hd))
        rw [hother d hdz, hkeep d (by simp [hs, hd])]
      rw [hL₁, hdrop, World.bytes_cons (c := c') (by simp), hpost, hdata']
    have hdst₂ : (w₁.setChain z c').bytes (L₁ dst).data = bs := by
      rw [← hbytes]
      refine World.bytes_congr fun d hd => hother d fun hdz => hne ?_
      exact hinv.disjoint dst src d (Chains.mem_data hd) (by simp [hL₁, hdz])
    have hmoves : Moves w L dst src (w₁.setChain z c') L₁ bs ((w.bytes (L src).data).drop n) k
        (w.buf src).toCounts :=
      ⟨hinv₂, (hframe.mono (by simp)).trans (hframe₂.mono (by simp)), hdst₂, hsrc₂, hcounts, by
        rw [World.setChain_buf, hframe.buf src hnd]⟩
    have h₁ := hmoves.setIn hne ((w.buf src).deleted (f + n))
    have h₂ := h₁.setOut hne k.evbuffer_run_callbacks
    have h₃ := h₂.setIn hne ((w.buf src).deleted (f + n)).evbuffer_run_callbacks
    rw [hk] at h₂ h₃
    refine ⟨_, L₁, ?_, h₃, Nat.le_refl _⟩
    have hsrc₁ : (w₁.buf src).toCounts = (w.buf src).toCounts := by rw [hframe.buf src hnd]
    simp only [copyPart, hz, Option.bind_some, hw₁, hz₁, hc', Option.map_some, if_pos hpos,
      evbuffer_invoke_callbacks, World.setChain_buf, hsrc₁, World.setCounts_self,
      World.setCounts_of_ne _ hne, World.setCounts_of_ne _ hne.symm, hcounts, hk]
  rcases hadd with ⟨w₁, L₁, hw₁, hbecomes, -, hmem⟩ | ⟨w₁, L₁, hw₁, hbecomes, -⟩
  · obtain ⟨w', L', hcopy, hmoves, hmallocs⟩ := hrest (m := 0) hw₁ (.inr ⟨hbecomes, rfl⟩)
    exact ⟨w', L', 0, hcopy, by simpa using hmoves, .inr ⟨rfl, hmem.after hmallocs⟩⟩
  · rw [hlen_take] at hbecomes
    obtain ⟨w', L', hcopy, hmoves, -⟩ := hrest (m := n) hw₁ (.inl hbecomes)
    exact ⟨w', L', n, hcopy, by rwa [htake (Nat.le_refl n)], .inl rfl⟩

theorem Moves.trans {v : World} {M : BufId → Chains} {bo bi : List UInt8} {ko ki : Counts}
    (hframe : Frame [dst, src] w L v M) (h : Moves v M dst src w' L' bo bi ko ki) :
    Moves w L dst src w' L' bo bi ko ki :=
  ⟨h.inv, hframe.trans h.frame, h.bytes_out, h.bytes_in, h.counts_out, h.counts_in⟩

/-- Whole chains move, and part of the next one is copied. -/
theorem removePart_spec {k : Nat} (h : w.Inv L []) (hls : Counted w L src) (hne : dst ≠ src)
    (htight : (L dst).Tight) (hfe : (w.buf dst).freeze_end = false) (hpos : 0 < k)
    (hlt : k < (w.buf src).total_len) :
    ∃ w' L' m, removePart w src dst k = some (w', (k : Int)) ∧
      Moves w L dst src w' L' (w.bytes (L dst).data ++ (w.bytes (L src).data).take m)
        ((w.bytes (L src).data).drop k) ((w.buf dst).added m).evbuffer_run_callbacks
        ((w.buf src).deleted k).evbuffer_run_callbacks ∧
      (m = k ∨ m < k ∧ w.OutOfMemory w') := by
  obtain ⟨pre, z, post, c, hD, hz, hle, hz_lt⟩ :=
    exists_split (h.data_live src) (hls ▸ hlt)
  obtain ⟨S, hs⟩ : ∃ S, L src = ⟨pre ++ z :: post, S⟩ := ⟨(L src).spare, by rw [← hD]⟩
  have hshape := h.shape src
  rw [hs] at hshape
  have hfirst : (w.buf src).first = (pre ++ z :: post ++ S).head? := hshape.chain.head
  obtain ⟨a, ha⟩ : ∃ a, (pre ++ z :: post ++ S).head? = some a := by
    cases pre <;> exact ⟨_, rfl⟩
  have hfuel : pre.length < w.mallocs := by
    have hlen := h.length_le src
    simp only [hs, Chains.all_mk, List.length_append, List.length_cons] at hlen
    omega
  have hchain : Chain w.next (some a) (pre ++ z :: post ++ S) := by
    rw [← ha, ← hfirst]
    exact hshape.chain
  have hpass := passChains_eq (i := src) (t := a) (r := 0) hchain
    hshape.last_with_datap (fun d hd => by
      obtain ⟨c, hc, -⟩ := hshape.data d hd
      exact ⟨c, hc⟩) hz hle hz_lt hfuel
  have hgo : removePart w src dst k =
      (linkChains (w.setBuf src
        { w.buf src with last_with_datap := linkAfter src (z :: post).dropLast })
        src dst z (pre.getLast?.getD a) (w.bytes pre).length).bind fun w₁ =>
        copyPart w₁ src dst z (w.bytes pre).length (k - (w.bytes pre).length) := by
    rw [removePart, hfirst, ha]
    simp only [Option.bind_some, hpass, Nat.zero_add]
  have hsum : (w.bytes pre).length + (k - (w.bytes pre).length) = k := by omega
  have hn : k - (w.bytes pre).length < c.off := by omega
  have hsrc : w.bytes (L src).data = w.bytes pre ++ w.bytes (z :: post) := by
    rw [hD, World.bytes_append]
  rcases List.eq_nil_or_concat' pre with rfl | ⟨pre', y, hpre⟩
  · -- no chain moves
    have hlink : linkChains (w.setBuf src
        { w.buf src with last_with_datap := linkAfter src (z :: post).dropLast })
        src dst z a 0 = some w := by
      have hsame : w.setBuf src
          { w.buf src with last_with_datap := linkAfter src (z :: post).dropLast } = w := by
        have hlwd : (w.buf src).last_with_datap = linkAfter src (z :: post).dropLast :=
          hshape.last_with_datap
        rw [← hlwd]
        simp [World.setBuf]
      rw [hsame]
      exact if_pos rfl
    have hzero : (w.bytes []).length = 0 := rfl
    simp only [hzero, Nat.sub_zero, Nat.zero_add] at hgo hn hsum
    obtain ⟨w', L', m, hcopy, hmoves, hm⟩ := copyPart_spec (f := 0) h hne hs hz hn
      (by omega) (.inr htight) hfe
    simp only [Nat.zero_add] at hcopy hmoves
    refine ⟨w', L', m, ?_, hmoves, hm.imp_right fun hm => ⟨by omega, hm.2⟩⟩
    rw [hgo]
    exact (congrArg (Option.bind · _) hlink).trans hcopy
  · have hlast : pre.getLast? = some y := by simp [hpre]
    have hlen : (w.bytes pre).length ≠ 0 := by
      obtain ⟨d, hd, hdne⟩ := hshape.data y (by simp [hpre])
      have hcat : w.bytes pre = w.bytes pre' ++ (d.data ++ []) := by
        rw [hpre, World.bytes_append, World.bytes_cons hd, World.bytes_nil]
      have hdlen : d.data.length ≠ 0 := fun h0 => hdne (List.length_eq_zero_iff.mp h0)
      rw [hcat]
      simp only [List.length_append, List.length_nil]
      omega
    obtain ⟨w₁, L₁, hlink, hinv₁, hframe₁, hsrc₁, hdst₁, hkeep₁, hcd₁, hcs₁⟩ :=
      linkChains_spec h hne hs hlast hlen
    have hout : ∀ d ∈ pre ++ z :: post, d ∉ (L dst).spare := fun d hd hm =>
      hne (h.disjoint dst src d (Chains.mem_spare hm) (by
        rw [hs]
        exact List.mem_append_left _ hd))
    have hz₁ : w₁.chain z = some c := by
      rw [hkeep₁ z (hout z (by simp)), hz]
    have hbytes_pre : w₁.bytes pre = w.bytes pre := World.bytes_congr fun d hd =>
      hkeep₁ d (hout d (List.mem_append_left _ hd))
    have hbytes_rest : w₁.bytes (z :: post) = w.bytes (z :: post) :=
      World.bytes_congr fun d hd => hkeep₁ d (hout d (List.mem_append_right _ hd))
    have hbytes_dst : w₁.bytes (L dst).data = w.bytes (L dst).data :=
      World.bytes_congr fun d hd => hkeep₁ d fun hm =>
        (List.nodup_append.mp (h.nodup dst)).2.2 d hd d hm rfl
    obtain ⟨w', L', m, hcopy, hmoves, hm⟩ := copyPart_spec
      (f := (w.bytes pre).length) (n := k - (w.bytes pre).length) hinv₁ hne hsrc₁
      hz₁ hn (by omega) (.inr (.inl (by rw [hdst₁])))
      (by rw [hcd₁]; exact hfe)
    rw [hsum] at hcopy hmoves
    refine ⟨w', L', (w.bytes pre).length + m, ?_, Moves.trans hframe₁ ?_, ?_⟩
    · rw [hgo, hlast, Option.getD_some, hlink, Option.bind_some, hcopy]
    · rw [hdst₁, hsrc₁, hcd₁, Counts.added_added, hcs₁, World.bytes_append, hbytes_dst,
        hbytes_pre, hbytes_rest] at hmoves
      rw [hsrc, List.take_length_add_append, ← List.append_assoc]
      have hdrop : (w.bytes pre ++ w.bytes (z :: post)).drop k =
          (w.bytes (z :: post)).drop (k - (w.bytes pre).length) := by
        rw [List.drop_append, List.drop_eq_nil_of_le hle, List.nil_append]
      rw [hdrop]
      exact hmoves
    · rcases hm with rfl | ⟨rfl, hmem⟩
      · exact .inl hsum
      · rcases Nat.eq_or_lt_of_le hle with heq | hlt'
        · exact .inl (by omega)
        · exact .inr ⟨by omega, hmem.of_frame hframe₁⟩

/-- The bytes move to the other buffer.  Out of memory, some of them are lost. -/
theorem remove_buffer_spec {k : Nat} (h : w.Inv L []) (hld : Counted w L dst)
    (hls : Counted w L src)
    (htight : (L dst).Tight) :
    if k = 0 ∨ dst = src then evbuffer_remove_buffer w src dst k = some (w, 0)
    else if (w.buf dst).freeze_end ∨ (w.buf src).freeze_start then
      evbuffer_remove_buffer w src dst k = some (w, -1)
    else if w.bytes (L src).data = [] then evbuffer_remove_buffer w src dst k = some (w, 0)
    else ∃ w' L' m, evbuffer_remove_buffer w src dst k =
        some (w', ((min k (w.buf src).total_len : Nat) : Int)) ∧
      Moves w L dst src w' L' (w.bytes (L dst).data ++ (w.bytes (L src).data).take m)
        ((w.bytes (L src).data).drop k)
        ((w.buf dst).added m).evbuffer_run_callbacks
        ((w.buf src).deleted (min k (w.buf src).total_len)).evbuffer_run_callbacks ∧
      (m = min k (w.buf src).total_len ∨
        m < min k (w.buf src).total_len ∧ w.OutOfMemory w') := by
  have htight' : (L dst).data = [] ∨ (L dst).spare = [] := htight.symm.imp And.left id
  have hall := add_buffer_spec (o := dst) (i := src) h hld hls htight'
  split
  · rename_i h0
    exact if_pos h0
  · rename_i h0
    obtain ⟨hpos, hne⟩ := not_or.mp h0
    split
    · rename_i hfreeze
      rw [evbuffer_remove_buffer, if_neg h0, if_pos hfreeze]
    · rename_i hfreeze
      split
      · rename_i hempty
        have htotal : (w.buf src).total_len = 0 := by rw [hls, hempty]; rfl
        rw [if_pos (.inl hempty)] at hall
        rw [evbuffer_remove_buffer, if_neg h0, if_neg hfreeze, if_pos (by omega), hall, htotal]
        rfl
      · rename_i hempty
        rcases Nat.lt_or_ge k (w.buf src).total_len with hlt | hge
        · -- whole chains, and part of the next one
          rw [Nat.min_eq_left (Nat.le_of_lt hlt), evbuffer_remove_buffer, if_neg h0,
            if_neg hfreeze, if_neg (Nat.not_le.mpr hlt)]
          obtain ⟨hfe, -⟩ := not_or.mp hfreeze
          exact removePart_spec h hls hne htight (by simpa using hfe) (Nat.pos_of_ne_zero hpos) hlt
        · -- everything moves
          rw [if_neg (not_or.mpr ⟨hempty, hne⟩), if_neg hfreeze] at hall
          obtain ⟨w', L', hadd, hmoves, -⟩ := hall
          have htake : (w.bytes (L src).data).take (w.buf src).total_len = w.bytes (L src).data := by
            rw [hls, List.take_length]
          have hdrop : (w.bytes (L src).data).drop k = [] :=
            List.drop_eq_nil_of_le (hls ▸ hge)
          rw [Nat.min_eq_right hge]
          refine ⟨w', L', (w.buf src).total_len, ?_, by rwa [htake, hdrop], .inl rfl⟩
          rw [evbuffer_remove_buffer, if_neg h0, if_neg hfreeze, if_pos hge, hadd, Option.map_some]

end

end CppWorkspace.Libevent
