/-
# `CppWorkspace.Libevent.Moving` — moving chains from one evbuffer to another

    add_buffer       all chains, behind those of the other buffer        `add_buffer_spec`
    prepend_buffer   all chains, in front of them                        `prepend_buffer_spec`
    remove_buffer    whole chains, and a copy of part of the next one    `remove_buffer_spec`

A spare chain must not come to stand before one with data.  `evbuffer_add_buffer` frees
the chains of an empty `outbuf` and appends to `outbuf->last` otherwise, so a spare chain of
`outbuf` would be in the middle; `evbuffer_prepend_buffer` does that with one of `inbuf`.
-/
import CppWorkspace.Libevent.Writing

namespace CppWorkspace.Libevent

open LinkedList (Chain)

/-! ## The functions -/

def COPY_CHAIN (w : World) (dst src : BufId) : World :=
  w.setBuf dst
    { w.buf dst with
      first := (w.buf src).first
      last_with_datap :=
        if (w.buf src).last_with_datap = .first src then .first dst
        else (w.buf src).last_with_datap
      last := (w.buf src).last
      total_len := (w.buf src).total_len }

def APPEND_CHAIN (w : World) (dst src : BufId) : Option World :=
  (w.buf dst).last.bind fun last =>
    (w.store (w.buf src).first (.next last)).map fun w =>
      w.setBuf dst
        { w.buf dst with
          last_with_datap :=
            if (w.buf src).last_with_datap = .first src then .next last
            else (w.buf src).last_with_datap
          last := (w.buf src).last
          total_len := (w.buf dst).total_len + (w.buf src).total_len }

def PREPEND_CHAIN (w : World) (dst src : BufId) : Option World :=
  (w.buf src).last.bind fun last =>
    (w.store (w.buf dst).first (.next last)).bind fun w =>
      let w := w.setBuf dst
        { w.buf dst with
          first := (w.buf src).first
          total_len := (w.buf dst).total_len + (w.buf src).total_len }
      (w.load (w.buf dst).last_with_datap).map fun
        | none =>
            w.setBuf dst
              { w.buf dst with
                last_with_datap :=
                  if (w.buf src).last_with_datap = .first src then .first dst
                  else (w.buf src).last_with_datap }
        | some _ =>
            if (w.buf dst).last_with_datap = .first dst then
              w.setBuf dst { w.buf dst with last_with_datap := .next last }
            else w

/-- The chains of `outbuf`, which are empty, give way to those of `inbuf`. -/
def replaceChains (w : World) (outbuf inbuf : BufId) : Option World :=
  (evbuffer_free_all_chains w.mallocs w (w.buf outbuf).first).map fun w =>
    COPY_CHAIN w outbuf inbuf

/-- The end of both functions. -/
def moved (w : World) (outbuf inbuf : BufId) (n : Nat) : World :=
  let w := ZERO_CHAIN w inbuf
  let w := w.setCounts inbuf
    { (w.buf inbuf).toCounts with n_del_for_cb := (w.buf inbuf).n_del_for_cb + n }
  let w := w.setCounts outbuf
    { (w.buf outbuf).toCounts with n_add_for_cb := (w.buf outbuf).n_add_for_cb + n }
  evbuffer_invoke_callbacks (evbuffer_invoke_callbacks w inbuf) outbuf

def evbuffer_add_buffer (w : World) (outbuf inbuf : BufId) : Option (World × Int) :=
  if (w.buf inbuf).total_len = 0 ∨ outbuf = inbuf then some (w, 0)
  else if (w.buf outbuf).freeze_end ∨ (w.buf inbuf).freeze_start then some (w, -1)
  else
    (if (w.buf outbuf).total_len = 0 then replaceChains w outbuf inbuf
      else APPEND_CHAIN w outbuf inbuf).map fun w' =>
        (moved w' outbuf inbuf (w.buf inbuf).total_len, 0)

def evbuffer_prepend_buffer (w : World) (outbuf inbuf : BufId) : Option (World × Int) :=
  if (w.buf inbuf).total_len = 0 ∨ outbuf = inbuf then some (w, 0)
  else if (w.buf outbuf).freeze_start ∨ (w.buf inbuf).freeze_start then some (w, -1)
  else
    (if (w.buf outbuf).total_len = 0 then replaceChains w outbuf inbuf
      else PREPEND_CHAIN w outbuf inbuf).map fun w' =>
        (moved w' outbuf inbuf (w.buf inbuf).total_len, 0)

section
variable {w w' : World} {L L' : BufId → Chains} {X : List Addr} {b i j outbuf inbuf : BufId}
  {s : Chains} {a x z : Addr} {c c' d : evbuffer_chain} {l D S : List Addr} {p : Option Addr}
  {bs : List UInt8} {k : Counts} {n m datlen : Nat}

@[simp] theorem ZERO_CHAIN_self : (ZERO_CHAIN w b).buf b =
    { w.buf b with first := none, last := none, last_with_datap := .first b, total_len := 0 } :=
  World.setBuf_self ..

@[simp] theorem ZERO_CHAIN_of_ne (h : j ≠ b) : (ZERO_CHAIN w b).buf j = w.buf j :=
  World.setBuf_of_ne _ h

@[simp] theorem ZERO_CHAIN_chain : (ZERO_CHAIN w b).chain = w.chain := rfl

@[simp] theorem ZERO_CHAIN_next : (ZERO_CHAIN w b).next = w.next := rfl

/-! ## Chains that leave a buffer, and that come -/

/-- What `Shape` says of the chains alone. -/
structure Kinds (w : World) (s : Chains) : Prop where
  data : ∀ a ∈ s.data, ∃ c, w.chain a = some c ∧ c.data ≠ []
  spare : ∀ a ∈ s.spare, ∃ c, w.chain a = some c ∧ c.Spare

theorem Shape.kinds (h : Shape w b s) : Kinds w s := ⟨h.data, h.spare⟩

theorem Kinds.of_same (h : Kinds w s) (hchain : w'.chain = w.chain) : Kinds w' s :=
  ⟨fun a ha => hchain ▸ h.data a ha, fun a ha => hchain ▸ h.spare a ha⟩

theorem World.Inv.perm {Y : List Addr} (h : w.Inv L X) (hXY : X.Perm Y) : w.Inv L Y :=
  ⟨h.shape, h.nodup, h.disjoint, fun a ha => h.loose a (hXY.mem_iff.mpr ha),
    hXY.nodup_iff.mp h.loose_nodup, fun a c hc => by
      obtain ⟨hlt, hle, hplace⟩ := h.owned a c hc
      exact ⟨hlt, hle, hplace.imp_right hXY.mem_iff.mp⟩⟩

theorem World.Inv.detachAll (h : w.Inv L X) (b : BufId) :
    (ZERO_CHAIN w b).Inv (Function.update L b ⟨[], []⟩) ((L b).all ++ X) ∧
      Frame [b] w L (ZERO_CHAIN w b) (Function.update L b ⟨[], []⟩) := by
  refine h.rearranged rfl (fun j hj => by simp [hj]) (fun _ _ => ⟨rfl, rfl⟩)
    (fun a ha => ha) ?_ (fun a ha hno => absurd ha hno)
    (fun a ha c hc => (h.owned a c hc).2.1) (fun a ha => ?_)
    (.empty (by simp) (by simp) (by simp))
  · have hnodup : ((L b).all ++ X).Nodup := List.nodup_append.mpr ⟨h.nodup b, h.loose_nodup,
      fun a ha d hd had => (h.loose d hd).2 b (had ▸ ha)⟩
    exact hnodup
  · rcases List.mem_append.mp ha with ha | ha
    · obtain ⟨c, hc⟩ := h.live ha
      exact Option.isSome_iff_exists.mpr ⟨c, hc⟩
    · exact (h.loose a ha).1

theorem World.Inv.attach {v : World} (h : w.Inv L (s.all ++ X)) (hs : Kinds w s)
    (hL : L b = ⟨[], []⟩)
    (hmallocs : v.toMalloc = w.toMalloc) (hchain : v.chain = w.chain)
    (hnext : ∀ a, a ∉ s.all → v.next a = w.next a)
    (hbuf : ∀ j, j ≠ b → v.buf j = w.buf j)
    (hlist : Chain v.next (v.buf b).first s.all) (hlast : (v.buf b).last = s.all.getLast?)
    (hlwd : (v.buf b).last_with_datap = linkAfter b s.data.dropLast) :
    v.Inv (Function.update L b s) X ∧ Frame [b] w L v (Function.update L b s) := by
  have hK := hs.of_same hchain
  have hall : (L b).all = [] := by rw [hL]; rfl
  refine h.rearranged hmallocs hbuf
    (fun a ha => ⟨congrFun hchain a, hnext a fun hm => ha ?_⟩)
    (fun a ha => by rwa [hall]) h.loose_nodup (fun a ha hno => absurd (by rwa [hall] at ha) hno)
    (fun a _ c hc => (h.owned a c (hchain ▸ hc)).2.1) (fun a ha => ?_)
    ⟨hlist, hlast, hlwd, hK.data, hK.spare⟩
  · exact List.mem_append_right _ (List.mem_append_left _ hm)
  · rw [hchain]
    exact (h.loose a (List.mem_append_right _ ha)).1

theorem linkAfter_append (i j : BufId) (D l : List Addr) :
    linkAfter j (D ++ l) = if linkAfter i l = .first i then linkAfter j D else linkAfter i l := by
  rcases List.eq_nil_or_concat' l with rfl | ⟨l, e, rfl⟩
  · simp
  · rw [← List.append_assoc, linkAfter_concat, linkAfter_concat, if_neg Link.noConfusion]

/-! ## `evbuffer_add_buffer` -/

/-- What a function leaves in two buffers. -/
structure Moves (w : World) (L : BufId → Chains) (outbuf inbuf : BufId) (w' : World)
    (L' : BufId → Chains) (bo bi : List UInt8) (ko ki : Counts) : Prop where
  inv : w'.Inv L' []
  frame : Frame [outbuf, inbuf] w L w' L'
  bytes_out : w'.bytes (L' outbuf).data = bo
  bytes_in : w'.bytes (L' inbuf).data = bi
  counts_out : (w'.buf outbuf).toCounts = ko
  counts_in : (w'.buf inbuf).toCounts = ki

theorem World.Inv.detachBoth (h : w.Inv L []) (hne : i ≠ j) :
    (ZERO_CHAIN (ZERO_CHAIN w j) i).Inv
        (Function.update (Function.update L j ⟨[], []⟩) i ⟨[], []⟩) ((L i).all ++ (L j).all) ∧
      Frame [i, j] w L (ZERO_CHAIN (ZERO_CHAIN w j) i)
        (Function.update (Function.update L j ⟨[], []⟩) i ⟨[], []⟩) := by
  obtain ⟨hinv₁, hframe₁⟩ := h.detachAll j
  obtain ⟨hinv₂, hframe₂⟩ := hinv₁.detachAll i
  rw [Function.update_of_ne hne, List.append_nil] at hinv₂
  exact ⟨hinv₂, (hframe₁.mono (by simp)).trans (hframe₂.mono (by simp))⟩

theorem World.Inv.moveAll {v : World} (h : w.Inv L []) (hne : i ≠ j) (hs : Kinds w s)
    (hperm : (s.all).Perm ((L i).all ++ (L j).all))
    (hmallocs : v.toMalloc = w.toMalloc) (hchain : v.chain = w.chain)
    (hnext : ∀ a, a ∉ s.all → v.next a = w.next a)
    (hbuf : ∀ b, b ∉ [i, j] → v.buf b = w.buf b)
    (hlist : Chain v.next (v.buf i).first s.all) (hlast : (v.buf i).last = s.all.getLast?)
    (hlwd : (v.buf i).last_with_datap = linkAfter i s.data.dropLast)
    (hzero : v.buf j = (ZERO_CHAIN w j).buf j) :
    v.Inv (Function.update (Function.update L j ⟨[], []⟩) i s) [] ∧
      Frame [i, j] w L v (Function.update (Function.update L j ⟨[], []⟩) i s) := by
  obtain ⟨hinv, hframe⟩ := h.detachBoth hne
  have hinv : (ZERO_CHAIN (ZERO_CHAIN w j) i).Inv
      (Function.update (Function.update L j ⟨[], []⟩) i ⟨[], []⟩) (s.all ++ []) :=
    hinv.perm (by simpa using hperm.symm)
  obtain ⟨hinv', hframe'⟩ := hinv.attach (b := i) (v := v) (hs.of_same rfl) (by simp) hmallocs
    hchain hnext (fun b hb => by
      rw [ZERO_CHAIN_of_ne hb]
      rcases eq_or_ne b j with rfl | hbj
      · exact hzero
      · rw [ZERO_CHAIN_of_ne hbj]
        exact hbuf b (by simp [hb, hbj])) hlist hlast hlwd
  rw [Function.update_idem] at hinv' hframe'
  exact ⟨hinv', hframe.trans (hframe'.mono (by simp))⟩

theorem Moves.setOut {bo bi : List UInt8} {ko ki : Counts}
    (h : Moves w L outbuf inbuf w' L' bo bi ko ki) (hne : outbuf ≠ inbuf) (k : Counts) :
    Moves w L outbuf inbuf (w'.setCounts outbuf k) L' bo bi k ki := by
  refine ⟨h.inv.setCounts k _,
    ⟨h.frame.fails, h.frame.mallocs, h.frame.lists, fun j hj => ?_, h.frame.chain⟩, h.bytes_out,
    h.bytes_in, by simp, by rw [World.setCounts_of_ne _ hne.symm, h.counts_in]⟩
  rw [World.setCounts_of_ne _ (List.ne_of_not_mem_cons hj)]
  exact h.frame.buf j hj

theorem Moves.setIn {bo bi : List UInt8} {ko ki : Counts}
    (h : Moves w L outbuf inbuf w' L' bo bi ko ki) (hne : outbuf ≠ inbuf) (k : Counts) :
    Moves w L outbuf inbuf (w'.setCounts inbuf k) L' bo bi ko k := by
  refine ⟨h.inv.setCounts k _,
    ⟨h.frame.fails, h.frame.mallocs, h.frame.lists, fun j hj => ?_, h.frame.chain⟩, h.bytes_out,
    h.bytes_in, by rw [World.setCounts_of_ne _ hne, h.counts_out], by simp⟩
  rw [World.setCounts_of_ne _ fun hji => hj (by simp [hji])]
  exact h.frame.buf j hj

theorem moved_spec {bo : List UInt8} {ko ki : Counts} (hne : outbuf ≠ inbuf)
    (h : Moves w L outbuf inbuf (ZERO_CHAIN w' inbuf) L' bo [] ko ki) :
    Moves w L outbuf inbuf (moved w' outbuf inbuf n) L' bo []
      { ko with n_add_for_cb := ko.n_add_for_cb + n }.evbuffer_run_callbacks
      { ki with n_del_for_cb := ki.n_del_for_cb + n }.evbuffer_run_callbacks := by
  have h₁ := h.setIn hne { ki with n_del_for_cb := ki.n_del_for_cb + n }
  have h₂ := h₁.setOut hne { ko with n_add_for_cb := ko.n_add_for_cb + n }
  have h₃ := h₂.setIn hne { ki with n_del_for_cb := ki.n_del_for_cb + n }.evbuffer_run_callbacks
  have h₄ := h₃.setOut hne { ko with n_add_for_cb := ko.n_add_for_cb + n }.evbuffer_run_callbacks
  have heq : moved w' outbuf inbuf n = (((((ZERO_CHAIN w' inbuf).setCounts inbuf
      { ki with n_del_for_cb := ki.n_del_for_cb + n }).setCounts outbuf
      { ko with n_add_for_cb := ko.n_add_for_cb + n }).setCounts inbuf
      { ki with n_del_for_cb := ki.n_del_for_cb + n }.evbuffer_run_callbacks).setCounts outbuf
      { ko with n_add_for_cb := ko.n_add_for_cb + n }.evbuffer_run_callbacks) := by
    simp only [moved, evbuffer_invoke_callbacks, h.counts_in, h₁.counts_out, h₂.counts_in,
      h₃.counts_out]
  rw [heq]
  exact h₄

theorem Kinds.append {s' : Chains} (hs : Kinds w s) (hs' : Kinds w s') :
    Kinds w ⟨s.data ++ s'.data, s'.spare⟩ :=
  ⟨fun a ha => (List.mem_append.mp ha).elim (hs.data a) (hs'.data a), hs'.spare⟩

/-- The chains of `inbuf` take the place of the empty ones of `outbuf`. -/
theorem replaceChains_spec (h : w.Inv L []) (hne : outbuf ≠ inbuf) :
    ∃ w' L', replaceChains w outbuf inbuf = some w' ∧
      Moves w L outbuf inbuf (ZERO_CHAIN w' inbuf) L' (w.bytes (L inbuf).data) []
        { (w.buf outbuf).toCounts with total_len := (w.buf inbuf).total_len }
        { (w.buf inbuf).toCounts with total_len := 0 } ∧
      (L' inbuf).Tight ∧ ((L inbuf).Tight → (L' outbuf).Tight) := by
  let w₁ := ZERO_CHAIN (w.freeAll (L outbuf).all) outbuf
  obtain ⟨hinv₁, hframe₁⟩ := h.emptied (b := outbuf) (v := w₁) rfl
    (fun j hj => by simp [w₁, hj]) rfl rfl rfl
    (.empty (by simp [w₁]) (by simp [w₁]) (by simp [w₁]))
  have hL₁ : Function.update L outbuf ⟨[], []⟩ inbuf = L inbuf := Function.update_of_ne hne.symm ..
  have hshape := hinv₁.shape inbuf
  rw [hL₁] at hshape
  have hbuf₁ : w₁.buf inbuf = w.buf inbuf := by simp [w₁, hne.symm]
  let w₂ := COPY_CHAIN (w.freeAll (L outbuf).all) outbuf inbuf
  have hlwd : (w₂.buf outbuf).last_with_datap = linkAfter outbuf (L inbuf).data.dropLast := by
    have hin := (h.shape inbuf).last_with_datap
    have hcopy := linkAfter_append inbuf outbuf [] (L inbuf).data.dropLast
    simpa [w₂, COPY_CHAIN, hin] using hcopy.symm
  obtain ⟨hinv₂, hframe₂⟩ := hinv₁.moveAll (v := ZERO_CHAIN w₂ inbuf) hne hshape.kinds
    (by simp [hL₁]) rfl rfl (fun _ _ => rfl)
    (fun b hb => by
      simp only [List.mem_cons, List.not_mem_nil, or_false, not_or] at hb
      simp [w₂, w₁, COPY_CHAIN, hb.1, hb.2])
    (by
      rw [ZERO_CHAIN_of_ne hne]
      simpa [w₂, COPY_CHAIN] using (h.shape inbuf).chain)
    (by
      rw [ZERO_CHAIN_of_ne hne]
      simpa [w₂, COPY_CHAIN] using (h.shape inbuf).last)
    (by rw [ZERO_CHAIN_of_ne hne, hlwd])
    (by simp [w₂, COPY_CHAIN, hne.symm, hbuf₁])
  refine ⟨w₂, _, ?_, ⟨hinv₂, (hframe₁.mono (by simp)).trans hframe₂, ?_, ?_, ?_, ?_⟩,
    .inl (by simp [hne.symm]), by simp⟩
  · rw [replaceChains, h.free_all, Option.map_some]
  · rw [Function.update_self]
    refine World.bytes_congr fun a ha => World.freeAll_of_not_mem fun hm => ?_
    exact hne (h.disjoint _ _ a hm (Chains.mem_data ha))
  · simp [hne.symm]
  · simp [w₂, COPY_CHAIN, hne]
  · simp [w₂, COPY_CHAIN, hne.symm]

theorem append_chain_spec (h : w.Inv L []) (hne : outbuf ≠ inbuf) (hD : (L outbuf).data ≠ [])
    (hS : (L outbuf).spare = []) (hin : (L inbuf).data ≠ []) :
    ∃ w' L', APPEND_CHAIN w outbuf inbuf = some w' ∧
      Moves w L outbuf inbuf (ZERO_CHAIN w' inbuf) L'
        (w.bytes (L outbuf).data ++ w.bytes (L inbuf).data) []
        { (w.buf outbuf).toCounts with
          total_len := (w.buf outbuf).total_len + (w.buf inbuf).total_len }
        { (w.buf inbuf).toCounts with total_len := 0 } ∧
      (L' inbuf).Tight ∧ ((L inbuf).Tight → (L' outbuf).Tight) := by
  have hso := h.shape outbuf
  have hsi := h.shape inbuf
  obtain ⟨D, z, hDz⟩ := (List.eq_nil_or_concat' (L outbuf).data).resolve_left hD
  have hall : (L outbuf).all = D ++ [z] := by rw [Chains.all, hS, hDz, List.append_nil]
  have hlast : (w.buf outbuf).last = some z := by rw [hso.last, hall]; simp
  obtain ⟨c, hc⟩ := h.live (b := outbuf) (a := z) (by simp [hall])
  let e : evbuffer :=
    { w.buf outbuf with
      last_with_datap :=
        if (w.buf inbuf).last_with_datap = .first inbuf then .next z
        else (w.buf inbuf).last_with_datap
      last := (w.buf inbuf).last
      total_len := (w.buf outbuf).total_len + (w.buf inbuf).total_len }
  let w₂ := (w.setNext z (w.buf inbuf).first).setBuf outbuf e
  have hdisjoint : ∀ a ∈ (L outbuf).all, a ∉ (L inbuf).all := fun a ha hi =>
    hne (h.disjoint _ _ a ha hi)
  have hlist : Chain (LinkedList.write w.next z (w.buf inbuf).first) (w.buf outbuf).first
      (D ++ z :: (L inbuf).all) := by
    have hchain := hso.chain
    rw [hall] at hchain
    exact hchain.relink (hall ▸ h.nodup outbuf) hsi.chain (hdisjoint z (by simp [hall]))
  have hlwd : e.last_with_datap =
      linkAfter outbuf ((L outbuf).data ++ (L inbuf).data).dropLast := by
    rw [List.dropLast_append_of_ne_nil hin, linkAfter_append inbuf, hDz, linkAfter_concat]
    simp only [e, hsi.last_with_datap]
  obtain ⟨hinv, hframe⟩ := h.moveAll (v := ZERO_CHAIN w₂ inbuf)
    (s := ⟨(L outbuf).data ++ (L inbuf).data, (L inbuf).spare⟩) hne (hso.kinds.append hsi.kinds)
    (by simp [Chains.all, hS]) rfl rfl
    (fun a ha => LinkedList.write_of_ne fun haz => ha (by simp [Chains.all, hDz, haz]))
    (fun b hb => by
      simp only [List.mem_cons, List.not_mem_nil, or_false, not_or] at hb
      simp [w₂, hb.1, hb.2])
    (by
      rw [ZERO_CHAIN_of_ne hne]
      simpa [w₂, e, hDz, Chains.all, World.setNext] using hlist)
    (by
      rw [ZERO_CHAIN_of_ne hne]
      have hne' : (L inbuf).all ≠ [] := List.append_ne_nil_of_left_ne_nil hin _
      have hlast₂ : (w₂.buf outbuf).last = (L inbuf).all.getLast? := by simp [w₂, e, hsi.last]
      have hall' : Chains.all ⟨(L outbuf).data ++ (L inbuf).data, (L inbuf).spare⟩ =
          (L outbuf).data ++ (L inbuf).all := List.append_assoc ..
      rw [hlast₂, hall', List.getLast?_append_of_ne_nil _ hne'])
    (by
      rw [ZERO_CHAIN_of_ne hne]
      simpa [w₂] using hlwd)
    (by simp [w₂, hne.symm])
  refine ⟨w₂, _, ?_, ⟨hinv, hframe, ?_, ?_, ?_, ?_⟩, .inl (by simp [hne.symm]), fun ht => ?_⟩
  · simp only [APPEND_CHAIN, hlast, Option.bind_some, World.store, hc, Option.map_some]
    rfl
  · rw [Function.update_self, World.bytes_append]
    rfl
  · simp [hne.symm]
  · simp [w₂, e, hne]
  · simp [w₂, hne.symm]
  · rw [Function.update_self]
    exact ht.imp_right fun ht => absurd ht.1 hin

theorem prepend_chain_spec (h : w.Inv L []) (hne : outbuf ≠ inbuf) (hD : (L outbuf).data ≠ [])
    (hS : (L inbuf).spare = []) (hin : (L inbuf).data ≠ []) :
    ∃ w' L', PREPEND_CHAIN w outbuf inbuf = some w' ∧
      Moves w L outbuf inbuf (ZERO_CHAIN w' inbuf) L'
        (w.bytes (L inbuf).data ++ w.bytes (L outbuf).data) []
        { (w.buf outbuf).toCounts with
          total_len := (w.buf outbuf).total_len + (w.buf inbuf).total_len }
        { (w.buf inbuf).toCounts with total_len := 0 } := by
  have hso := h.shape outbuf
  have hsi := h.shape inbuf
  obtain ⟨D, z, hDz⟩ := (List.eq_nil_or_concat' (L inbuf).data).resolve_left hin
  have hall : (L inbuf).all = D ++ [z] := by rw [Chains.all, hS, hDz, List.append_nil]
  have hlast : (w.buf inbuf).last = some z := by rw [hsi.last, hall]; simp
  obtain ⟨c, hc⟩ := h.live (b := inbuf) (a := z) (by simp [hall])
  have hdisjoint : ∀ a ∈ (L inbuf).all, a ∉ (L outbuf).all := fun a ha ho =>
    hne (h.disjoint _ _ a ho ha)
  have hzout : z ∉ (L outbuf).all := hdisjoint z (by simp [hall])
  let w₁ := (w.setNext z (w.buf outbuf).first).setBuf outbuf
    { w.buf outbuf with
      first := (w.buf inbuf).first
      total_len := (w.buf outbuf).total_len + (w.buf inbuf).total_len }
  let w₂ := w₁.setBuf outbuf
    { w₁.buf outbuf with
      last_with_datap := linkAfter outbuf ((L inbuf).data ++ (L outbuf).data).dropLast }
  have hlist : Chain (LinkedList.write w.next z (w.buf outbuf).first) (w.buf inbuf).first
      (D ++ z :: (L outbuf).all) := by
    have hchain := hsi.chain
    rw [hall] at hchain
    exact hchain.relink (hall ▸ h.nodup inbuf) hso.chain hzout
  have hlwd : linkAfter outbuf ((L inbuf).data ++ (L outbuf).data).dropLast =
      if (w.buf outbuf).last_with_datap = .first outbuf then .next z
      else (w.buf outbuf).last_with_datap := by
    rw [List.dropLast_append_of_ne_nil hD, linkAfter_append outbuf, hDz, linkAfter_concat,
      hso.last_with_datap]
  have hprepend : PREPEND_CHAIN w outbuf inbuf = some w₂ := by
    -- the assignment to `first` does not show through `last_with_datap`, or it is still not null
    obtain ⟨a, ha⟩ : ∃ a, w₁.load (w.buf outbuf).last_with_datap = some (some a) := by
      obtain ⟨E, y, hEy⟩ := (List.eq_nil_or_concat' (L outbuf).data).resolve_left hD
      rw [hso.last_with_datap, hEy, List.dropLast_concat]
      rcases List.eq_nil_or_concat' E with rfl | ⟨E, x, rfl⟩
      · have hfirst : (w.buf inbuf).first = (D ++ [z]).head? := hall ▸ hsi.chain.head
        obtain ⟨a, ha⟩ : ∃ a, (D ++ [z]).head? = some a := by
          cases D <;> exact ⟨_, rfl⟩
        exact ⟨a, by simp [World.load, w₁, hfirst, ha]⟩
      · obtain ⟨d, hd⟩ := h.live (b := outbuf) (a := x) (by simp [Chains.all, hEy])
        have hxz : x ≠ z := fun hxz => hzout (by simp [Chains.all, hEy, ← hxz])
        have hchain : Chain w.next (w.buf outbuf).first (E ++ x :: (y :: (L outbuf).spare)) := by
          simpa [Chains.all, hEy] using hso.chain
        refine ⟨y, ?_⟩
        rw [linkAfter_concat, World.load]
        simp [w₁, hd, hxz, hchain.suffix.head]
    have hload : w₁.load (w₁.buf outbuf).last_with_datap = some (some a) := by simpa [w₁] using ha
    simp only [PREPEND_CHAIN, hlast, Option.bind_some, World.store, hc, Option.map_some]
    refine (congrArg (Option.map _) hload).trans ?_
    simp only [Option.map_some, Option.some.injEq]
    split
    · rename_i hfirst
      have hfirst : (w.buf outbuf).last_with_datap = .first outbuf := by simpa using hfirst
      simp [w₂, w₁, hlwd, hfirst]
    · rename_i hfirst
      have hfirst : (w.buf outbuf).last_with_datap ≠ .first outbuf := by simpa using hfirst
      simp [w₂, w₁, hlwd, hfirst, World.setBuf]
  obtain ⟨hinv, hframe⟩ := h.moveAll (v := ZERO_CHAIN w₂ inbuf)
    (s := ⟨(L inbuf).data ++ (L outbuf).data, (L outbuf).spare⟩) hne (hsi.kinds.append hso.kinds)
    (by
      simp only [Chains.all, hS, List.append_nil, List.append_assoc]
      rw [← List.append_assoc (L outbuf).data]
      exact List.perm_append_comm) rfl rfl
    (fun a ha => LinkedList.write_of_ne fun haz => ha (by simp [Chains.all, hDz, haz]))
    (fun b hb => by
      simp only [List.mem_cons, List.not_mem_nil, or_false, not_or] at hb
      simp [w₂, w₁, hb.1, hb.2])
    (by
      rw [ZERO_CHAIN_of_ne hne]
      simpa [w₂, w₁, hDz, Chains.all, World.setNext] using hlist)
    (by
      rw [ZERO_CHAIN_of_ne hne]
      have hne' : (L outbuf).all ≠ [] := List.append_ne_nil_of_left_ne_nil hD _
      have hlast₂ : (w₂.buf outbuf).last = (L outbuf).all.getLast? := by
        simp [w₂, w₁, hso.last]
      have hall' : Chains.all ⟨(L inbuf).data ++ (L outbuf).data, (L outbuf).spare⟩ =
          (L inbuf).data ++ (L outbuf).all := List.append_assoc ..
      rw [hlast₂, hall', List.getLast?_append_of_ne_nil _ hne'])
    (by simp [w₂, hne])
    (by simp [w₂, w₁, hne.symm])
  refine ⟨w₂, _, hprepend, hinv, hframe, ?_, ?_, ?_, ?_⟩
  · rw [Function.update_self, World.bytes_append]
    rfl
  · simp [hne.symm]
  · simp [w₂, w₁, hne]
  · simp [w₂, w₁, hne.symm]

theorem add_buffer_spec {i o : BufId} (h : w.Inv L []) (hlo : Counted w L o) (hli : Counted w L i)
    (htight : (L o).data = [] ∨ (L o).spare = []) :
    if w.bytes (L i).data = [] ∨ o = i then
      evbuffer_add_buffer w o i = some (w, 0)
    else if (w.buf o).freeze_end ∨ (w.buf i).freeze_start then
      evbuffer_add_buffer w o i = some (w, -1)
    else ∃ w' L', evbuffer_add_buffer w o i = some (w', 0) ∧
      Moves w L o i w' L' (w.bytes (L o).data ++ w.bytes (L i).data) []
        ((w.buf o).added (w.buf i).total_len).evbuffer_run_callbacks
        ((w.buf i).deleted (w.buf i).total_len).evbuffer_run_callbacks ∧
      (L' i).Tight ∧ ((L i).Tight → (L' o).Tight) := by
  have hnil : (w.buf i).total_len = 0 ↔ w.bytes (L i).data = [] := by
    rw [hli, List.length_eq_zero_iff]
  split
  · rename_i h0
    rw [evbuffer_add_buffer, if_pos (h0.imp_left hnil.mpr)]
  · rename_i h0
    obtain ⟨hnonempty, hne⟩ := not_or.mp h0
    rw [evbuffer_add_buffer, if_neg (mt (Or.imp_left hnil.mp) h0)]
    split
    · rfl
    · have hin : (L i).data ≠ [] := fun hin => hnonempty (by rw [hin]; rfl)
      have hki : { (w.buf i).toCounts with
          total_len := 0, n_del_for_cb := (w.buf i).n_del_for_cb + (w.buf i).total_len } =
            (w.buf i).deleted (w.buf i).total_len := by
        simp [Counts.deleted]
      by_cases hout : (w.buf o).total_len = 0
      · have hbytes : w.bytes (L o).data = [] := by
          rw [← List.length_eq_zero_iff, ← hlo, hout]
        obtain ⟨w', L', hrep, hmoves, htight', hkeep⟩ := replaceChains_spec h hne
        have hmoved := moved_spec (n := (w.buf i).total_len) hne hmoves
        rw [hki] at hmoved
        refine ⟨_, L', by rw [if_pos hout, hrep, Option.map_some], ?_, htight', hkeep⟩
        rw [hbytes, List.nil_append]
        have hko : (w.buf o).added (w.buf i).total_len =
            { (w.buf o).toCounts with
              total_len := (w.buf i).total_len
              n_add_for_cb := (w.buf o).n_add_for_cb + (w.buf i).total_len } := by
          simp [Counts.added, hout]
        rw [hko]
        exact hmoved
      · have hD : (L o).data ≠ [] := fun hD => hout (by rw [hlo, hD]; rfl)
        obtain ⟨w', L', happ, hmoves, htight', hkeep⟩ :=
          append_chain_spec h hne hD (htight.resolve_left hD) hin
        have hmoved := moved_spec (n := (w.buf i).total_len) hne hmoves
        rw [hki] at hmoved
        exact ⟨_, L', by rw [if_neg hout, happ, Option.map_some], hmoved, htight', hkeep⟩

theorem prepend_buffer_spec (h : w.Inv L []) (hlo : Counted w L outbuf) (hli : Counted w L inbuf)
    (htight : (L outbuf).data = [] ∨ (L inbuf).spare = []) :
    if w.bytes (L inbuf).data = [] ∨ outbuf = inbuf then
      evbuffer_prepend_buffer w outbuf inbuf = some (w, 0)
    else if (w.buf outbuf).freeze_start ∨ (w.buf inbuf).freeze_start then
      evbuffer_prepend_buffer w outbuf inbuf = some (w, -1)
    else ∃ w' L', evbuffer_prepend_buffer w outbuf inbuf = some (w', 0) ∧
      Moves w L outbuf inbuf w' L' (w.bytes (L inbuf).data ++ w.bytes (L outbuf).data) []
        ((w.buf outbuf).added (w.buf inbuf).total_len).evbuffer_run_callbacks
        ((w.buf inbuf).deleted (w.buf inbuf).total_len).evbuffer_run_callbacks := by
  have hnil : (w.buf inbuf).total_len = 0 ↔ w.bytes (L inbuf).data = [] := by
    rw [hli, List.length_eq_zero_iff]
  split
  · rename_i h0
    rw [evbuffer_prepend_buffer, if_pos (h0.imp_left hnil.mpr)]
  · rename_i h0
    obtain ⟨hnonempty, hne⟩ := not_or.mp h0
    rw [evbuffer_prepend_buffer, if_neg (mt (Or.imp_left hnil.mp) h0)]
    split
    · rfl
    · have hin : (L inbuf).data ≠ [] := fun hin => hnonempty (by rw [hin]; rfl)
      have hki : { (w.buf inbuf).toCounts with
          total_len := 0, n_del_for_cb := (w.buf inbuf).n_del_for_cb + (w.buf inbuf).total_len } =
            (w.buf inbuf).deleted (w.buf inbuf).total_len := by
        simp [Counts.deleted]
      by_cases hout : (w.buf outbuf).total_len = 0
      · have hbytes : w.bytes (L outbuf).data = [] := by
          rw [← List.length_eq_zero_iff, ← hlo, hout]
        obtain ⟨w', L', hrep, hmoves, -⟩ := replaceChains_spec h hne
        have hmoved := moved_spec (n := (w.buf inbuf).total_len) hne hmoves
        rw [hki] at hmoved
        refine ⟨_, L', by rw [if_pos hout, hrep, Option.map_some], ?_⟩
        rw [hbytes, List.append_nil]
        have hko : (w.buf outbuf).added (w.buf inbuf).total_len =
            { (w.buf outbuf).toCounts with
              total_len := (w.buf inbuf).total_len
              n_add_for_cb := (w.buf outbuf).n_add_for_cb + (w.buf inbuf).total_len } := by
          simp [Counts.added, hout]
        rw [hko]
        exact hmoved
      · have hD : (L outbuf).data ≠ [] := fun hD => hout (by rw [hlo, hD]; rfl)
        obtain ⟨w', L', hpre, hmoves⟩ :=
          prepend_chain_spec h hne hD (htight.resolve_left hD) hin
        have hmoved := moved_spec (n := (w.buf inbuf).total_len) hne hmoves
        rw [hki] at hmoved
        exact ⟨_, L', by rw [if_neg hout, hpre, Option.map_some], hmoved⟩

end

end CppWorkspace.Libevent
