/-
# `CppWorkspace.Libevent.Expanding` — room behind the bytes

`evbuffer_expand_singlechain` makes room in one chain: the last one with data if it has
room, or can be realigned, or is worth being copied to a larger one; else the first spare
chain, or a new one.  `evbuffer_add_vprintf` prints there, and prints again when the text was
too long.
-/
import CppWorkspace.Libevent.Splitting

namespace CppWorkspace.Libevent

open LinkedList (Chain)

/-! ## The functions -/

/-- The link of the first chain with room: `last_with_datap` or the next one. -/
def firstSpace (w : World) (b : BufId) : Option Link :=
  (w.load (w.buf b).last_with_datap).bind fun
    | none => some (w.buf b).last_with_datap
    | some a => (w.chain a).map fun c =>
        if c.CHAIN_SPACE_LEN = 0 then .next a else (w.buf b).last_with_datap

def evbuffer_chain_insert_new (w : World) (b : BufId) (datlen : Nat) :
    Option (World × Option Addr) :=
  (evbuffer_chain_new w datlen).bind fun
    | (w, none) => some (w, none)
    | (w, some x) => (evbuffer_chain_insert w b x).map fun w => (w, some x)

/-- `EVUTIL_ASSERT(CHAIN_SPACE_LEN(result) >= datlen)`. -/
def withSpace (datlen : Nat) : World × Option Addr → Option (World × Option Addr)
  | (w, none) => some (w, none)
  | (w, some a) => (w.chain a).bind fun c =>
      if datlen ≤ c.CHAIN_SPACE_LEN then some (w, some a) else none

/-- `c`, the chain at `a`, is copied to a larger one. -/
def resizeChain (w : World) (b : BufId) (chainp : Link) (a : Addr) (c : evbuffer_chain)
    (datlen : Nat) : Option (World × Option Addr) :=
  (evbuffer_chain_new w (c.off + datlen)).bind fun
    | (w, none) => some (w, none)
    | (w, some x) =>
        (w.chain x).bind fun d => (d.append c.data).bind fun d =>
          ((w.setChain x d).store (some x) chainp).bind fun w =>
            let w :=
              if (w.buf b).last = some a then w.setBuf b { w.buf b with last := some x } else w
            (evbuffer_chain_free (w.setNext x (w.next a)) a).map fun w => (w, some x)

/-- The chain of `evbuffer_expand_singlechain`, before the assertion at the end. -/
def expandChain (w : World) (b : BufId) (datlen : Nat) : Option (World × Option Addr) :=
  (firstSpace w b).bind fun chainp => (w.load chainp).bind fun
    | none => evbuffer_chain_insert_new w b datlen
    | some a => (w.chain a).bind fun c =>
        if c.immutable then evbuffer_chain_insert_new w b datlen
        else if datlen ≤ c.CHAIN_SPACE_LEN then some (w, some a)
        else if c.off = 0 then evbuffer_chain_insert_new w b datlen
        else if c.evbuffer_chain_should_realign datlen then
          some (w.setChain a c.evbuffer_chain_align, some a)
        else if c.CHAIN_SPACE_LEN < c.buffer_len / 8 ∨
            evbuffer_chain.MAX_TO_COPY_IN_EXPAND < c.off then
          match w.next a with
          | none => evbuffer_chain_insert_new w b datlen
          | some n => (w.chain n).bind fun d =>
              if datlen ≤ d.CHAIN_SPACE_LEN then some (w, some n)
              else evbuffer_chain_insert_new w b datlen
        else resizeChain w b chainp a c datlen

def evbuffer_expand_singlechain (w : World) (b : BufId) (datlen : Nat) :
    Option (World × Option Addr) :=
  (expandChain w b datlen).bind (withSpace datlen)

def evbuffer_expand (w : World) (b : BufId) (datlen : Nat) : Option (World × Int) :=
  (evbuffer_expand_singlechain w b datlen).map fun (w, a) => (w, if a.isSome then 0 else -1)

/-- The loop of `evbuffer_add_vprintf`; `bs` is the text. -/
def printLoop : Nat → World → BufId → Addr → List UInt8 → Option (World × Int)
  | 0, _, _, _, _ => none
  | fuel + 1, w, b, a, bs =>
      (w.chain a).bind fun c =>
        if bs.length < c.CHAIN_SPACE_LEN then
          (c.append bs).bind fun c =>
            (advance_last_with_data
              ((w.setChain a c).setCounts b ((w.buf b).added bs.length)) b).map fun w =>
                (evbuffer_invoke_callbacks w b, (bs.length : Int))
        else
          (evbuffer_expand_singlechain w b (bs.length + 1)).bind fun
            | (w, none) => some (w, -1)
            | (w, some a) => printLoop fuel w b a bs

def evbuffer_add_vprintf (w : World) (b : BufId) (bs : List UInt8) : Option (World × Int) :=
  if (w.buf b).freeze_end then some (w, -1)
  else
    (evbuffer_expand_singlechain w b 64).bind fun
      | (w, none) => some (w, -1)
      | (w, some a) => printLoop 2 w b a bs

section
variable {w w' : World} {L L' : BufId → Chains} {X : List Addr} {b j : BufId} {s : Chains}
  {a x y z : Addr} {c c' d : evbuffer_chain} {l D S s₁ s₂ : List Addr} {p : Option Addr}
  {bs : List UInt8} {k : Counts} {n m fuel datlen : Nat}

/-! ## `evbuffer_expand_singlechain` -/

/-- Where the room is: in the last chain with data, or in the first spare one. -/
def Chains.Next (s : Chains) (a : Addr) : Prop := s.data.getLast? = some a ∨ s.spare.head? = some a

/-- The chain at `a` has room for `datlen` bytes. -/
structure Room (w : World) (s : Chains) (a : Addr) (datlen : Nat) (c : evbuffer_chain) : Prop where
  chain : w.chain a = some c
  place : s.Next a
  mutable : c.immutable = false
  room : datlen ≤ c.room

theorem World.Inv.spare_data (h : w.Inv L X) (b : BufId) :
    ∀ a ∈ (L b).spare, ∃ c, w.chain a = some c ∧ c.data = [] := by
  intro a ha
  obtain ⟨c, hc, hsp⟩ := (h.shape b).spare a ha
  exact ⟨c, hc, hsp.data⟩

theorem World.Inv.mallocs_notMem_spare (h : w.Inv L X) : w.mallocs ∉ (L b).spare := fun hm =>
  Nat.lt_irrefl _ (h.lt_mallocs (Chains.mem_spare hm))

/-- The chains with data are not among those that are freed. -/
theorem Extends.freeAll_spare (hext : Extends w w') (h : w.Inv L X) :
    ∀ a ∈ (L b).data, (w'.freeAll (L b).spare).chain a = w.chain a := by
  intro a ha
  have has : a ∉ (L b).spare := fun hs => (List.nodup_append.mp (h.nodup b)).2.2 a ha a hs rfl
  obtain ⟨f, hf⟩ := h.data_live b a ha
  rw [World.freeAll_of_not_mem has, hext.chain a f hf, hf]

theorem insert_new_spec (h : w.Inv L []) (hlen : datlen ≤ maxLen) :
    (∃ w', evbuffer_chain_insert_new w b datlen = some (w', none) ∧
      Becomes w L b w' L (w.bytes (L b).data) (w.buf b).toCounts ∧ w.OutOfMemory w') ∨
    ∃ w' L' x c, evbuffer_chain_insert_new w b datlen = some (w', some x) ∧
      Becomes w L b w' L' (w.bytes (L b).data) (w.buf b).toCounts ∧
      Room w' (L' b) x datlen c := by
  rcases chain_new_spec h hlen with
    ⟨w₁, hnew, hinv₁, hext, hfail⟩ | ⟨w₁, x, c, hnew, hinv₁, hext, hx⟩
  · exact .inl ⟨w₁, by rw [evbuffer_chain_insert_new, hnew, Option.bind_some],
      hext.becomes h hinv₁, hfail⟩
  · obtain ⟨w₂, hins, hinv₂, hframe₂, hchain₂, hcounts₂⟩ := chain_insert_spec (b := b) hinv₁
      hx.chain hx.next (fun _ => hx.spare) (.inl hx.spare.data)
    have hput : (L b).put x c = ⟨(L b).data, [x]⟩ := if_pos hx.spare.data
    rw [hput] at hinv₂ hframe₂
    have hxb : x ∉ (L b).all := (hinv₁.loose x List.mem_cons_self).2 b
    have hx₂ : w₂.chain x = some c := by
      rw [hchain₂, World.freeAll_of_not_mem fun hs => hxb (Chains.mem_spare hs), hx.chain]
    refine .inr ⟨w₂, _, x, c, ?_, ⟨hinv₂, (hext.frame h).trans hframe₂, ?_, ?_⟩, hx₂, ?_,
      hx.spare.mutable, hx.room⟩
    · simp only [evbuffer_chain_insert_new, hnew, Option.bind_some, hins, Option.map_some]
    · rw [Function.update_self]
      refine World.bytes_congr fun d hd => ?_
      rw [hchain₂]
      exact hext.freeAll_spare h d hd
    · rw [hcounts₂, evbuffer_chain.off, hx.spare.data, hext.buf]
      rfl
    · exact .inr (by simp)

theorem align_spec (h : w.Inv L []) (hc : w.chain a = some c) (ha : (L b).data.getLast? = some a) :
    Becomes w L b (w.setChain a c.evbuffer_chain_align) L (w.bytes (L b).data)
      (w.buf b).toCounts := by
  have hmem : a ∈ (L b).data := List.mem_of_getLast? ha
  obtain ⟨d, hd, hne⟩ := (h.shape b).data a hmem
  obtain rfl : c = d := Option.some.inj (hc.symm.trans hd)
  have hle : c.evbuffer_chain_align.buffer_len ≤ maxLen := by
    simpa using (h.owned a c hc).2.1
  have hsp : ∀ d ∈ (L b).spare, d ≠ a := fun d hd hda =>
    (List.nodup_append.mp (h.nodup b)).2.2 a hmem d hd hda.symm
  obtain ⟨hinv, hframe⟩ := h.setChain (s := L b) hc (Chains.mem_data hmem) hle rfl rfl
    (fun d hd => by
      rcases eq_or_ne d a with rfl | hda
      · exact ⟨_, World.setChain_self .., by simpa using hne⟩
      · rw [World.setChain_of_ne _ hda]
        exact (h.shape b).data d hd)
    (fun d hd => by
      rw [World.setChain_of_ne _ (hsp d hd)]
      exact (h.shape b).spare d hd)
  rw [Function.update_eq_self] at hinv hframe
  refine ⟨hinv, hframe, ?_, rfl⟩
  refine List.flatMap_congr fun d hd => ?_
  rcases eq_or_ne d a with rfl | hda
  · simp [hc]
  · rw [World.setChain_of_ne _ hda]

/-- `x` comes in the place of `a`, which was the last chain or not. -/
theorem World.relast_eq (hlast : (w.buf b).last = (D ++ a :: S).getLast?) (ha : a ∉ S) :
    (if (w.buf b).last = some a then w.setBuf b { w.buf b with last := some x } else w) =
      w.setBuf b { w.buf b with last := (D ++ x :: S).getLast? } := by
  rcases List.eq_nil_or_concat' S with rfl | ⟨S, y, rfl⟩
  · rw [if_pos (by rw [hlast]; simp)]
    simp
  · have hya : y ≠ a := fun hya => ha (by simp [hya])
    have hsame : ∀ z, (D ++ z :: (S ++ [y])).getLast? = some y := fun z => by
      rw [← List.cons_append, ← List.append_assoc, List.getLast?_concat]
    rw [hsame] at hlast ⊢
    rw [if_neg (by rw [hlast]; simpa using hya), ← hlast]
    exact (congrArg (fun f => { w with buf := f }) (Function.update_eq_self b w.buf)).symm

/-- The loose chain `x` has come in the place of the last chain with data, which is freed. -/
theorem World.Inv.swapped {v : World} (h : w.Inv L [x]) (hL : L b = ⟨D ++ [a], S⟩)
    (hmallocs : v.toMalloc = w.toMalloc) (hbuf : ∀ j, j ≠ b → v.buf j = w.buf j)
    (hkeep : ∀ y, y ≠ x → y ≠ a → v.chain y = w.chain y)
    (hnext : ∀ y, y ∉ D → y ≠ x → v.next y = w.next y) (hfree : v.chain a = none)
    (hx : v.chain x = some c) (hlen : c.buffer_len ≤ maxLen) (hdata : c.data ≠ [])
    (hlist : Chain v.next (v.buf b).first (D ++ x :: S))
    (hlast : (v.buf b).last = (D ++ x :: S).getLast?)
    (hlwd : (v.buf b).last_with_datap = (w.buf b).last_with_datap) :
    v.Inv (Function.update L b ⟨D ++ [x], S⟩) [] ∧
      Frame [b] w L v (Function.update L b ⟨D ++ [x], S⟩) := by
  have hxb : x ∉ (L b).all := (h.loose x List.mem_cons_self).2 b
  have hshape := h.shape b
  have hnodup := h.nodup b
  rw [hL] at hxb hshape hnodup
  have hcut : D ++ [a] ++ S = D ++ a :: S := by simp
  rw [Chains.all_mk, hcut] at hxb hnodup
  obtain ⟨hDnodup, haS_nodup, hD_aS⟩ := List.nodup_append.mp hnodup
  obtain ⟨haS, hSnodup⟩ := List.nodup_cons.mp haS_nodup
  have hxS : x ∉ S := fun hm => hxb (List.mem_append_right _ (List.mem_cons_of_mem a hm))
  have hneD : ∀ y ∈ D, y ≠ x ∧ y ≠ a := fun y hy =>
    ⟨fun hyx => hxb (List.mem_append_left _ (hyx ▸ hy)), hD_aS y hy a List.mem_cons_self⟩
  have hneS : ∀ y ∈ S, y ≠ x ∧ y ≠ a := fun y hy =>
    ⟨fun hyx => hxS (hyx ▸ hy), fun hya => haS (hya ▸ hy)⟩
  refine h.rearranged (b := b) (v := v) (s := ⟨D ++ [x], S⟩) (Y := []) hmallocs hbuf
    (fun y hy => ?_) (fun y hy => ?_) ?_ (fun y hy hno => ?_) (fun y hy f hf => ?_) (by simp)
    ⟨by simpa [Chains.all] using hlist, by simp [hlast, Chains.all], ?_, fun y hy => ?_,
      fun y hy => ?_⟩
  · rw [hL] at hy
    simp only [Chains.all_mk, List.mem_append, List.mem_singleton, not_or] at hy
    exact ⟨hkeep y hy.2 hy.1.1.2, hnext y hy.1.1.1 hy.2⟩
  · rw [hL]
    simp only [Chains.all_mk, List.mem_append, List.mem_singleton, List.not_mem_nil,
      or_false] at hy ⊢
    tauto
  · simp only [Chains.all_mk, List.append_nil, List.append_assoc, List.singleton_append]
    refine List.nodup_append.mpr ⟨hDnodup, List.nodup_cons.mpr ⟨hxS, hSnodup⟩,
      fun y hy z hz => ?_⟩
    rcases List.mem_cons.mp hz with rfl | hz
    · exact (hneD y hy).1
    · exact hD_aS y hy z (List.mem_cons_of_mem a hz)
  · rw [hL] at hy
    simp only [Chains.all_mk, List.mem_append, List.mem_singleton, List.not_mem_nil, or_false,
      not_or] at hy hno
    obtain rfl : y = a := by tauto
    exact hfree
  · rcases eq_or_ne y x with rfl | hyx
    · obtain rfl : c = f := Option.some.inj (hx.symm.trans hf)
      exact hlen
    · have hya : y ≠ a := by
        rintro rfl
        rw [hfree] at hf
        cases hf
      rw [hkeep y hyx hya] at hf
      exact (h.owned y f hf).2.1
  · have hold := hshape.last_with_datap
    rw [hlwd]
    rw [List.dropLast_concat] at hold ⊢
    exact hold
  · rcases List.mem_append.mp hy with hy | hy
    · rw [hkeep y (hneD y hy).1 (hneD y hy).2]
      exact hshape.data y (List.mem_append_left _ hy)
    · obtain rfl := List.mem_singleton.mp hy
      exact ⟨c, hx, hdata⟩
  · rw [hkeep y (hneS y hy).1 (hneS y hy).2]
    exact hshape.spare y hy

theorem resizeChain_spec (h : w.Inv L []) (hL : L b = ⟨D ++ [a], S⟩) (hc : w.chain a = some c)
    (hlen : c.off + datlen ≤ maxLen) :
    (∃ w', resizeChain w b (linkAfter b D) a c datlen = some (w', none) ∧
      Becomes w L b w' L (w.bytes (L b).data) (w.buf b).toCounts ∧ w.OutOfMemory w') ∨
    ∃ w' L' x d, resizeChain w b (linkAfter b D) a c datlen = some (w', some x) ∧
      Becomes w L b w' L' (w.bytes (L b).data) (w.buf b).toCounts ∧
      Room w' (L' b) x datlen d := by
  rcases chain_new_spec h hlen with
    ⟨w₁, hnew, hinv₁, hext, hfail⟩ | ⟨w₁, x, d, hnew, hinv₁, hext, hx⟩
  · exact .inl ⟨w₁, by rw [resizeChain, hnew, Option.bind_some], hext.becomes h hinv₁, hfail⟩
  · have hroom : c.data.length ≤ d.room := by
      have hle := hx.room
      simp only [evbuffer_chain.off] at hle
      omega
    obtain ⟨d', hd', happend⟩ := evbuffer_chain.append_of_le hroom
    have hdata' : d'.data = c.data := by rw [happend.data, hx.spare.data, List.nil_append]
    have hxb : x ∉ (L b).all := (hinv₁.loose x List.mem_cons_self).2 b
    have hshape := hinv₁.shape b
    have hnodup := hinv₁.nodup b
    rw [hL] at hxb hshape hnodup
    have hcut : D ++ [a] ++ S = D ++ a :: S := by simp
    rw [Chains.all_mk, hcut] at hxb hnodup
    have hlist : Chain w₁.next (w₁.buf b).first (D ++ a :: S) := hcut ▸ hshape.chain
    obtain ⟨hDnodup, haS_nodup, hD_aS⟩ := List.nodup_append.mp hnodup
    obtain ⟨haS, hSnodup⟩ := List.nodup_cons.mp haS_nodup
    have hxD : x ∉ D := fun hm => hxb (List.mem_append_left _ hm)
    have hxa : x ≠ a := fun hxa => hxb (by simp [hxa])
    have hxS : x ∉ S := fun hm => hxb (List.mem_append_right _ (List.mem_cons_of_mem a hm))
    have haD : a ∉ D := fun hm => hD_aS a hm a List.mem_cons_self rfl
    obtain ⟨e, he, hne⟩ := hshape.data a (by simp)
    have hce : w₁.chain a = some c := hext.chain a c hc
    obtain rfl : c = e := Option.some.inj (hce.symm.trans he)
    let w₂ := w₁.setChain x d'
    have hlist₂ : Chain w₂.next (w₂.buf b).first (D ++ a :: S) := hlist
    have hlive₂ : ∀ y ∈ D, ∃ c, w₂.chain y = some c := fun y hy => by
      have hyx : y ≠ x := fun hyx => hxD (hyx ▸ hy)
      obtain ⟨f, hf, -⟩ := hshape.data y (List.mem_append_left _ hy)
      exact ⟨f, (World.setChain_of_ne _ hyx).trans hf⟩
    obtain ⟨w₃, hstore, hlist₃, hchain₃, hmallocs₃, hnext₃, hbuf₃, hcounts₃, hlast₃, hlwd₃⟩ :=
      store_linkAfter hlist₂ hlive₂ (p := some x) (l := [x]) ⟨rfl, hx.next⟩
        (fun y hy hm => hxD (List.mem_singleton.mp hm ▸ hy))
    let w₄ := w₃.setBuf b { w₃.buf b with last := (D ++ x :: S).getLast? }
    have hw₄ : (if (w₃.buf b).last = some a then w₃.setBuf b { w₃.buf b with last := some x }
        else w₃) = w₄ := by
      refine World.relast_eq ?_ haS
      rw [hlast₃, ← hcut]
      exact hshape.last
    have hchain₄ : w₄.chain = w₃.chain := rfl
    have hnext₄ : w₄.next = w₃.next := rfl
    have hnexta : w₄.next a = w₁.next a := by
      rw [hnext₄, hnext₃ a haD]
      rfl
    let w₅ := (w₄.setNext x (w₄.next a)).mm_free a
    have hlist₅ : Chain w₅.next (w₅.buf b).first (D ++ x :: S) := by
      have hS₄ : Chain w₄.next (w₄.next a) S := by
        rw [hnexta]
        refine hlist.suffix.frame fun y hy => ?_
        have hyD : y ∉ D := fun hm => hD_aS y hm y (List.mem_cons_of_mem a hy) rfl
        rw [hnext₄, hnext₃ y hyD]
        rfl
      have hbase : Chain w₄.next (w₄.buf b).first (D ++ x :: []) := by
        have hfirst₄ : (w₄.buf b).first = (w₃.buf b).first := by simp [w₄]
        rw [hnext₄, hfirst₄]
        exact hlist₃
      exact hbase.relink (by
        refine List.nodup_append.mpr ⟨hDnodup, List.nodup_singleton x, fun y hy z hz hyz => ?_⟩
        rw [List.mem_singleton.mp hz] at hyz
        exact hxD (hyz ▸ hy)) hS₄ hxS
    have hkeep : ∀ y, y ≠ x → y ≠ a → w₅.chain y = w₁.chain y := fun y hyx hya => by
      simp only [w₅, World.mm_free_of_ne _ hya, World.setNext_chain, hchain₄, hchain₃]
      exact World.setChain_of_ne _ hyx
    have hx₅ : w₅.chain x = some d' := by
      simp only [w₅, World.mm_free_of_ne _ hxa, World.setNext_chain, hchain₄, hchain₃]
      exact World.setChain_self ..
    obtain ⟨hinv, hframe⟩ := hinv₁.swapped (v := w₅) hL hmallocs₃
      (fun j hj => (Function.update_of_ne hj ..).trans (hbuf₃ j hj)) hkeep
      (fun y hyD hyx => by
        have hyw : w₅.next y = w₄.next y := World.setNext_of_ne _ hyx
        rw [hyw, hnext₄, hnext₃ y hyD]
        rfl)
      (by simp [w₅]) hx₅ (happend.len ▸ (hinv₁.owned _ d hx.chain).2.1) (hdata' ▸ hne) hlist₅
      (by simp [w₅, w₄]) (by simp [w₅, w₄, hlwd₃, w₂])
    refine .inr ⟨w₅, _, x, d', ?_, ⟨hinv, (hext.frame h).trans hframe, ?_, ?_⟩, hx₅, ?_, ?_, ?_⟩
    · have ha₄ : (w₄.setNext x (w₄.next a)).chain a = some c := by
        rw [World.setNext_chain, hchain₄, hchain₃]
        exact (World.setChain_of_ne _ (Ne.symm hxa)).trans hce
      have hfree : evbuffer_chain_free (w₄.setNext x (w₄.next a)) a = some w₅ := by
        rw [evbuffer_chain_free, ha₄, Option.map_some]
      simp only [resizeChain, hnew, Option.bind_some, hx.chain, hd']
      refine (congrArg (Option.bind · _) hstore).trans ?_
      simp only [Option.bind_some, hw₄]
      exact congrArg (Option.map fun w => (w, some x)) hfree
    · rw [Function.update_self, hL]
      have hD₅ : w₅.bytes D = w.bytes D := World.bytes_congr fun y hy => by
        obtain ⟨f, hf⟩ := h.data_live b y (by rw [hL]; exact List.mem_append_left _ hy)
        rw [hkeep y (fun hyx => hxD (hyx ▸ hy)) (fun hya => haD (hya ▸ hy)), hf,
          hext.chain y f hf]
      rw [World.bytes_append, World.bytes_append, hD₅, World.bytes_cons hx₅, World.bytes_cons hc,
        hdata']
      rfl
    · have hcounts₅ : (w₅.buf b).toCounts = (w₃.buf b).toCounts := by simp [w₅, w₄]
      rw [hcounts₅, hcounts₃, World.setChain_buf, hext.buf]
    · exact .inl (by simp)
    · exact happend.immutable.trans hx.spare.mutable
    · have hle := hx.room
      rw [happend.room]
      simp only [evbuffer_chain.off] at hle
      omega

/-- There is room for `datlen` bytes in one chain, or, out of memory, there is not. -/
theorem expand_singlechain_spec {n : Nat} (h : w.Inv L [])
    (hlen : n + evbuffer_chain.MAX_TO_COPY_IN_EXPAND ≤ maxLen) :
    (∃ w', evbuffer_expand_singlechain w b n = some (w', none) ∧
      Becomes w L b w' L (w.bytes (L b).data) (w.buf b).toCounts ∧ w.OutOfMemory w') ∨
    ∃ w' L' a c, evbuffer_expand_singlechain w b n = some (w', some a) ∧
      Becomes w L b w' L' (w.bytes (L b).data) (w.buf b).toCounts ∧
      Room w' (L' b) a n c := by
  have hshape := h.shape b
  have hload := hshape.load_lwd
  -- the assertion at the end holds where there is room
  have hdone : ∀ {r}, ((∃ w', r = some (w', none) ∧
        Becomes w L b w' L (w.bytes (L b).data) (w.buf b).toCounts ∧ w.OutOfMemory w') ∨
      ∃ w' L' a c, r = some (w', some a) ∧
        Becomes w L b w' L' (w.bytes (L b).data) (w.buf b).toCounts ∧
        Room w' (L' b) a n c) → expandChain w b n = r →
      (∃ w', evbuffer_expand_singlechain w b n = some (w', none) ∧
        Becomes w L b w' L (w.bytes (L b).data) (w.buf b).toCounts ∧ w.OutOfMemory w') ∨
      ∃ w' L' a c, evbuffer_expand_singlechain w b n = some (w', some a) ∧
        Becomes w L b w' L' (w.bytes (L b).data) (w.buf b).toCounts ∧
        Room w' (L' b) a n c := by
    rintro r (⟨w', rfl, hsame⟩ | ⟨w', L', a, c, rfl, hbecomes, hroom⟩) hr
    · exact .inl ⟨w', by rw [evbuffer_expand_singlechain, hr]; rfl, hsame⟩
    · refine .inr ⟨w', L', a, c, ?_, hbecomes, hroom⟩
      simp [evbuffer_expand_singlechain, hr, withSpace, hroom.chain, hroom.room]
  have hle : n ≤ maxLen := by omega
  have hnew := insert_new_spec (b := b) h hle
  have hspare : ∀ y ∈ (L b).spare.head?, ∃ c, w.chain y = some c ∧ c.Spare := fun y hy =>
    hshape.spare y (List.mem_of_mem_head? hy)
  rcases List.eq_nil_or_concat' (L b).data with hD | ⟨D, a, hD⟩
  · -- there is no data
    rw [hD, List.getLast?_nil, Option.none_or] at hload
    have hlwd : (w.buf b).last_with_datap = .first b := by
      rw [hshape.last_with_datap, hD]
      rfl
    cases hhead : (L b).spare.head? with
    | none =>
        rw [hhead] at hload
        refine hdone hnew ?_
        simp only [expandChain, firstSpace, hload, Option.bind_some]
    | some y =>
        obtain ⟨c, hc, hsp⟩ := hspare y hhead
        rw [hhead] at hload
        have hspace : firstSpace w b = some (w.buf b).last_with_datap := by
          simp [firstSpace, hload, hc, Nat.ne_of_gt hsp.room]
        by_cases hfit : n ≤ c.room
        · refine hdone (.inr ⟨w, L, y, c, rfl, .refl h, hc, .inr hhead, hsp.mutable, hfit⟩) ?_
          simp [expandChain, hspace, hload, hc, hsp.mutable, hfit]
        · refine hdone hnew ?_
          simp [expandChain, hspace, hload, hc, hsp.mutable, hfit, evbuffer_chain.off, hsp.data]
  · have hlast : (L b).data.getLast? = some a := by simp [hD]
    obtain ⟨c, hc, hne⟩ := hshape.data a (by simp [hD])
    have hoff : c.off ≠ 0 := fun h0 => hne (List.length_eq_zero_iff.mp h0)
    rw [hlast, Option.some_or] at hload
    have hlist : Chain w.next (w.buf b).first (D ++ a :: (L b).spare) := by
      have hchain := hshape.chain
      rw [Chains.all, hD] at hchain
      simpa using hchain
    have hnext : w.next a = (L b).spare.head? := hlist.suffix.head
    have hlwd : (w.buf b).last_with_datap = linkAfter b D := by
      rw [hshape.last_with_datap, hD, List.dropLast_concat]
    by_cases hroom0 : c.room = 0
    · -- the next chain, if any
      have hspace : firstSpace w b = some (.next a) := by
        simp [firstSpace, hload, hc, hroom0]
      have hload' : w.load (.next a) = some (L b).spare.head? := by
        rw [World.load, hc, Option.map_some, hnext]
      cases hhead : (L b).spare.head? with
      | none =>
          rw [hhead] at hload'
          refine hdone hnew ?_
          simp only [expandChain, hspace, hload', Option.bind_some]
      | some y =>
          obtain ⟨d, hd, hsp⟩ := hspare y hhead
          rw [hhead] at hload'
          by_cases hfit : n ≤ d.room
          · refine hdone (.inr ⟨w, L, y, d, rfl, .refl h, hd, .inr hhead, hsp.mutable, hfit⟩) ?_
            simp [expandChain, hspace, hload', hd, hsp.mutable, hfit]
          · refine hdone hnew ?_
            simp [expandChain, hspace, hload', hd, hsp.mutable, hfit, evbuffer_chain.off, hsp.data]
    · have hmut : c.immutable = false := by
        cases himm : c.immutable with
        | false => rfl
        | true => exact absurd (c.room_of_immutable himm) hroom0
      have hspace : firstSpace w b = some (w.buf b).last_with_datap := by
        simp [firstSpace, hload, hc, hroom0]
      by_cases hfit : n ≤ c.room
      · refine hdone (.inr ⟨w, L, a, c, rfl, .refl h, hc, .inl hlast, hmut, hfit⟩) ?_
        simp [expandChain, hspace, hload, hc, hmut, hfit]
      · by_cases hre : c.evbuffer_chain_should_realign n = true
        · refine hdone (.inr ⟨w.setChain a c.evbuffer_chain_align, L, a, _, rfl,
            align_spec h hc hlast, World.setChain_self .., .inl hlast, by simpa using hmut, ?_⟩) ?_
          · rw [c.align_room hmut]
            have hfit' := evbuffer_chain.le_of_should_realign hre
            simp only [evbuffer_chain.buffer_len] at hfit'
            omega
          · simp [expandChain, hspace, hload, hc, hmut, hfit, hoff, hre]
        · by_cases hbig : c.room < c.buffer_len / 8 ∨ evbuffer_chain.MAX_TO_COPY_IN_EXPAND < c.off
          · cases hhead : (L b).spare.head? with
            | none =>
                refine hdone hnew ?_
                simp [expandChain, hspace, hload, hc, hmut, hfit, hoff, hre, hbig, hnext, hhead]
            | some y =>
                obtain ⟨d, hd, hsp⟩ := hspare y hhead
                by_cases hfit' : n ≤ d.room
                · refine hdone
                    (.inr ⟨w, L, y, d, rfl, .refl h, hd, .inr hhead, hsp.mutable, hfit'⟩) ?_
                  simp [expandChain, hspace, hload, hc, hmut, hfit, hoff, hre, hbig, hnext, hhead,
                    hd, hfit']
                · refine hdone hnew ?_
                  simp [expandChain, hspace, hload, hc, hmut, hfit, hoff, hre, hbig, hnext, hhead,
                    hd, hfit']
          · have hL : L b = ⟨D ++ [a], (L b).spare⟩ := by rw [← hD]
            have hsmall : c.off + n ≤ maxLen := by omega
            refine hdone (resizeChain_spec h hL hc hsmall) ?_
            rw [hlwd] at hload hspace
            simp [expandChain, hspace, hload, hc, hmut, hfit, hoff, hre, hbig]

/-! ## Filling spare chains -/

/-- The last chain with data gets more, and the first spare chains get some. -/
theorem World.Inv.fill {v : World} {S T : List Addr} (h : w.Inv L []) (hL : L b = ⟨D, S ++ T⟩)
    (hmallocs : v.toMalloc = w.toMalloc) (hnext : v.next = w.next)
    (hbuf : ∀ j, j ≠ b → v.buf j = w.buf j) (hfirst : (v.buf b).first = (w.buf b).first)
    (hlast : (v.buf b).last = (w.buf b).last)
    (hlwd : (v.buf b).last_with_datap = linkAfter b (D ++ S).dropLast)
    (hout : ∀ a, a ∉ D ++ S → v.chain a = w.chain a)
    (hin : ∀ a ∈ D ++ S, ∃ c, v.chain a = some c ∧ c.data ≠ [] ∧ c.buffer_len ≤ maxLen) :
    v.Inv (Function.update L b ⟨D ++ S, T⟩) [] ∧
      Frame [b] w L v (Function.update L b ⟨D ++ S, T⟩) := by
  have hshape := h.shape b
  have hnodup := h.nodup b
  rw [hL] at hshape hnodup
  have hall : (Chains.mk (D ++ S) T).all = (Chains.mk D (S ++ T)).all := by simp
  have hs₂ : ∀ a ∈ T, a ∉ D ++ S := fun a ha hm => by
    rw [← hall, Chains.all_mk] at hnodup
    exact (List.nodup_append.mp hnodup).2.2 a hm a ha rfl
  refine h.rearranged hmallocs hbuf (fun a ha => ⟨hout a fun hm => ha ?_, congrFun hnext a⟩)
    (fun a ha => by rwa [hL, ← hall]) (by rwa [hall, List.append_nil])
    (fun a ha hno => absurd (by rwa [hL, ← hall] at ha) hno) (fun a ha c hc => ?_) (by simp)
    ⟨?_, ?_, hlwd, fun a ha => ?_, fun a ha => ?_⟩
  · rw [hL, List.append_nil, ← hall]
    exact List.mem_append_left _ hm
  · rw [hall, List.append_nil] at ha
    by_cases hm : a ∈ D ++ S
    · obtain ⟨d, hd, -, hle⟩ := hin a hm
      exact (Option.some.inj (hd.symm.trans hc)) ▸ hle
    · rw [hout a hm] at hc
      exact (h.owned a c hc).2.1
  · rw [hall, hnext, hfirst]
    exact hshape.chain
  · rw [hall, hlast]
    exact hshape.last
  · obtain ⟨c, hc, hne, -⟩ := hin a ha
    exact ⟨c, hc, hne⟩
  · rw [hout a (hs₂ a ha)]
    exact hshape.spare a (List.mem_append_right _ ha)

theorem advance_same (h : Shape w b s) : advance_last_with_data w b = some w := by
  have hsame : ∀ {l}, (w.buf b).last_with_datap = linkAfter b l →
      w.setBuf b { w.buf b with last_with_datap := linkAfter b l } = w := fun hl => by
    rw [← hl]
    simp [World.setBuf]
  have hlist := h.chain
  have hlwd := h.last_with_datap
  have hempty : ∀ {l : List Addr}, (∀ y ∈ l, y ∈ s.spare) →
      ∀ y ∈ l.head?, ∃ c, w.chain y = some c ∧ c.data = [] := by
    intro l hl y hy
    obtain ⟨c, hc, hsp⟩ := h.spare y (hl y (List.mem_of_mem_head? hy))
    exact ⟨c, hc, hsp.data⟩
  rcases List.eq_nil_or_concat' s.data with hD | ⟨D, y, hD⟩
  · rw [hD, List.dropLast_nil] at hlwd
    cases hS : s.spare with
    | nil =>
        have hload := h.load_lwd
        rw [hD, hS] at hload
        rw [advance_last_with_data, hload]
        rfl
    | cons y S =>
        obtain ⟨c, hc, -⟩ := h.spare y (by simp [hS])
        rw [advance_eq (l := []) (y := y) (e := []) (m := S) (by simpa [Chains.all, hD, hS] using hlist)
          hlwd (by simpa using ⟨c, hc⟩) (by simp) (hempty fun x hx => by simp [hS, hx])
          (Nat.zero_le _)]
        exact congrArg some (hsame hlwd)
  · rw [hD, List.dropLast_concat] at hlwd
    have hlive := h.data_live
    rw [hD] at hlive
    rw [advance_eq (l := D) (y := y) (e := []) (m := s.spare)
      (by simpa [Chains.all, hD] using hlist) hlwd hlive (by simp) (hempty fun _ hx => hx)
      (Nat.zero_le _), List.dropLast_concat]
    exact congrArg some (hsame hlwd)

/-- Bytes are written where there is room, and `last_with_datap` is moved. -/
theorem write_space (h : w.Inv L []) (hroom : Room w (L b) a bs.length c) :
    ∃ c' w' L', c.append bs = some c' ∧
      advance_last_with_data ((w.setChain a c').setCounts b ((w.buf b).added bs.length)) b =
        some w' ∧
      Becomes w L b w' L' (w.bytes (L b).data ++ bs) ((w.buf b).added bs.length) := by
  obtain ⟨hc, hplace, hmut, hle⟩ := hroom
  obtain ⟨c', hc', happend⟩ := evbuffer_chain.append_of_le hle
  have hshape := h.shape b
  have hlen' : c'.buffer_len ≤ maxLen := happend.len ▸ (h.owned a c hc).2.1
  let w₁ := (w.setChain a c').setCounts b ((w.buf b).added bs.length)
  have hother : ∀ y, y ≠ a → w₁.chain y = w.chain y := fun y hy => World.setChain_of_ne _ hy
  have ha₁ : w₁.chain a = some c' := World.setChain_self ..
  have hnodup := h.nodup b
  have hdone : ∀ {D S T}, L b = ⟨D, S ++ T⟩ → a ∈ D ++ S → c'.data ≠ [] →
      (∀ y ∈ D ++ S, y ≠ a → ∃ f, w.chain y = some f ∧ f.data ≠ []) →
      w₁.bytes (D ++ S) = w.bytes D ++ bs →
      ∀ w', advance_last_with_data w₁ b = some w' →
      w' = w₁.setBuf b { w₁.buf b with last_with_datap := linkAfter b (D ++ S).dropLast } →
      ∃ c' w' L', c.append bs = some c' ∧
        advance_last_with_data ((w.setChain a c').setCounts b ((w.buf b).added bs.length)) b =
          some w' ∧
        Becomes w L b w' L' (w.bytes (L b).data ++ bs) ((w.buf b).added bs.length) := by
    intro D S T hL hmem hne hdata hbytes w' hadv hw'
    obtain ⟨hinv, hframe⟩ := h.fill (v := w') hL (by rw [hw']; rfl) (by rw [hw']; rfl)
      (fun j hj => by rw [hw']; simp [w₁, hj]) (by rw [hw']; simp [w₁]) (by rw [hw']; simp [w₁])
      (by rw [hw']; simp)
      (fun y hy => by
        rw [hw']
        exact hother y fun hya => hy (hya ▸ hmem))
      (fun y hy => by
        rw [hw']
        rcases eq_or_ne y a with rfl | hya
        · exact ⟨c', ha₁, hne, hlen'⟩
        · obtain ⟨f, hf, hfne⟩ := hdata y hy hya
          exact ⟨f, (hother y hya).trans hf, hfne, (h.owned y f hf).2.1⟩)
    refine ⟨c', w', _, hc', hadv, hinv, hframe, ?_, ?_⟩
    · rw [Function.update_self, hw', hL]
      exact hbytes
    · rw [hw']
      simp [w₁]
  have hstop : ∀ {l : List Addr}, (∀ y ∈ l, y ≠ a ∧ ∃ c, w.chain y = some c ∧ c.Spare) →
      ∀ y ∈ l.head?, ∃ c, w₁.chain y = some c ∧ c.data = [] := by
    intro l hl y hy
    obtain ⟨hya, f, hf, hsp⟩ := hl y (List.mem_of_mem_head? hy)
    exact ⟨f, (hother y hya).trans hf, hsp.data⟩
  have hlwd₁ : (w₁.buf b).last_with_datap = linkAfter b (L b).data.dropLast := by
    simpa [w₁] using hshape.last_with_datap
  have hlist₁ : Chain w₁.next (w₁.buf b).first ((L b).data ++ (L b).spare) := by
    simpa [w₁, Chains.all] using hshape.chain
  have hmal : w₁.mallocs = w.mallocs := rfl
  by_cases hbs : bs = []
  · -- nothing is written
    subst hbs
    obtain rfl : c = c' := Option.some.inj (c.append_nil.symm.trans hc')
    have hself : w.setChain a c = w := by simp [World.setChain, ← hc]
    have hset : w₁ = w := by
      show (w.setChain a c).setCounts b _ = w
      rw [hself]
      simp [World.setCounts, World.setBuf]
    refine ⟨c, w, L, hc', ?_, ?_⟩
    · exact (congrArg (advance_last_with_data · b) hset).trans (advance_same hshape)
    · simpa using Becomes.refl h
  · have hne : c'.data ≠ [] := by
      rw [happend.data]
      exact List.append_ne_nil_of_right_ne_nil _ hbs
    rcases hplace with hlast | hhead
    · -- behind the last bytes
      obtain ⟨D, hD⟩ : ∃ D, (L b).data = D ++ [a] := List.getLast?_eq_some_iff.mp hlast
      rw [hD, List.dropLast_concat] at hlwd₁
      rw [Chains.all, hD] at hnodup
      have haD : a ∉ D := fun hm =>
        (List.nodup_append.mp (List.nodup_append.mp hnodup).1).2.2 a hm a (by simp) rfl
      have haS : a ∉ (L b).spare := fun hm =>
        (List.nodup_append.mp hnodup).2.2 a (by simp) a hm rfl
      have hdata : ∀ y ∈ D ++ [a], ∃ f, w.chain y = some f ∧ f.data ≠ [] := hD ▸ hshape.data
      refine hdone (D := D ++ [a]) (S := []) (T := (L b).spare) (by simp [← hD]) (by simp) hne
        (fun y hy _ => hdata y (by simpa using hy)) ?_ _ ?_ rfl
      · have hD₁ : w₁.bytes D = w.bytes D := World.bytes_congr fun y hy =>
          hother y fun hya => haD (hya ▸ hy)
        rw [List.append_nil, World.bytes_append, World.bytes_append, hD₁, World.bytes_cons ha₁,
          World.bytes_cons hc, happend.data]
        simp
      · have hadv := advance_eq (w := w₁) (b := b) (l := D) (y := a) (e := [])
          (m := (L b).spare) (by simpa [hD] using hlist₁) hlwd₁
          (fun y hy => by
            rcases eq_or_ne y a with rfl | hya
            · exact ⟨c', ha₁⟩
            · obtain ⟨f, hf, -⟩ := hdata y hy
              exact ⟨f, (hother y hya).trans hf⟩)
          (by simp) (hstop fun y hy => ⟨fun hya => haS (hya ▸ hy), hshape.spare y hy⟩)
          (Nat.zero_le _)
        simpa using hadv
    · -- into the first spare chain
      obtain ⟨S, hS⟩ : ∃ S, (L b).spare = a :: S := List.head?_eq_some_iff.mp hhead
      obtain ⟨f, hf, hsp⟩ := hshape.spare a (by simp [hS])
      obtain rfl : c = f := Option.some.inj (hc.symm.trans hf)
      rw [Chains.all, hS] at hnodup
      have haD : a ∉ (L b).data := fun hm =>
        (List.nodup_append.mp hnodup).2.2 a hm a List.mem_cons_self rfl
      have haS : a ∉ S := (List.nodup_cons.mp (List.nodup_append.mp hnodup).2.1).1
      have hSspare : ∀ y ∈ S, y ≠ a ∧ ∃ c, w.chain y = some c ∧ c.Spare := fun y hy =>
        ⟨fun hya => haS (hya ▸ hy), hshape.spare y (by simp [hS, hy])⟩
      have hD₁ : w₁.bytes (L b).data = w.bytes (L b).data := World.bytes_congr fun y hy =>
        hother y fun hya => haD (hya ▸ hy)
      refine hdone (D := (L b).data) (S := [a]) (T := S) (by simp [← hS]) (by simp) hne
        (fun y hy hya => ?_) ?_ _ ?_ rfl
      · rcases List.mem_append.mp hy with hy | hy
        · exact hshape.data y hy
        · exact absurd (List.mem_singleton.mp hy) hya
      · rw [World.bytes_append, hD₁, World.bytes_cons ha₁, happend.data, hsp.data]
        simp
      · rcases List.eq_nil_or_concat' (L b).data with hD | ⟨D, y, hD⟩
        · rw [hD] at hlwd₁ hlist₁ ⊢
          exact advance_eq (w := w₁) (b := b) (l := []) (y := a) (e := []) (m := S)
            (by simpa [hS] using hlist₁) hlwd₁ (by simpa using ⟨c', ha₁⟩) (by simp)
            (hstop hSspare) (Nat.zero_le _)
        · rw [hD, List.dropLast_concat] at hlwd₁
          have hlen : [a].length ≤ w₁.mallocs := by
            have hle := h.length_le b
            rw [Chains.all, hS, List.length_append, List.length_cons] at hle
            rw [hmal, List.length_singleton]
            omega
          have hadv := advance_eq (w := w₁) (b := b) (l := D) (y := y) (e := [a]) (m := S)
            (by simpa [hD, hS] using hlist₁) hlwd₁
            (fun u hu => by
              obtain ⟨f, hf, -⟩ := hshape.data u (hD ▸ hu)
              exact ⟨f, (hother u fun hua => haD (hua ▸ hD ▸ hu)).trans hf⟩)
            (by simpa using ⟨c', ha₁, hne⟩) (hstop hSspare) hlen
          rw [hD, List.append_assoc, List.singleton_append]
          exact hadv

theorem vprintf_spec (h : w.Inv L [])
    (hlen : max 64 (bs.length + 1) + evbuffer_chain.MAX_TO_COPY_IN_EXPAND ≤ maxLen) :
    if (w.buf b).freeze_end then evbuffer_add_vprintf w b bs = some (w, -1)
    else
      (∃ w' L', evbuffer_add_vprintf w b bs = some (w', -1) ∧
        Becomes w L b w' L' (w.bytes (L b).data) (w.buf b).toCounts ∧ w.OutOfMemory w') ∨
      ∃ w' L', evbuffer_add_vprintf w b bs = some (w', (bs.length : Int)) ∧
        Becomes w L b w' L' (w.bytes (L b).data ++ bs)
          ((w.buf b).added bs.length).evbuffer_run_callbacks := by
  split
  · rename_i hfreeze
    exact if_pos hfreeze
  · rename_i hfreeze
    rw [evbuffer_add_vprintf, if_neg hfreeze]
    -- one round of the loop, in a chain that is large enough
    have hprint : ∀ {fuel w₁ L₁ a c}, Becomes w L b w₁ L₁ (w.bytes (L b).data) (w.buf b).toCounts →
        Room w₁ (L₁ b) a (bs.length + 1) c →
        ∃ w' L', printLoop (fuel + 1) w₁ b a bs = some (w', (bs.length : Int)) ∧
          Becomes w L b w' L' (w.bytes (L b).data ++ bs)
            ((w.buf b).added bs.length).evbuffer_run_callbacks := by
      intro fuel w₁ L₁ a c hsame hroom
      obtain ⟨c', w₂, L₂, hc', hadv, hbecomes⟩ := write_space hsame.inv
        ⟨hroom.chain, hroom.place, hroom.mutable, Nat.le_of_succ_le hroom.room⟩
      rw [hsame.bytes, hsame.counts] at hbecomes
      refine ⟨_, L₂, ?_, (hsame.trans hbecomes).invoke⟩
      simp only [printLoop, hroom.chain, Option.bind_some, evbuffer_chain.space_eq,
        if_pos (Nat.lt_of_succ_le hroom.room), hc', hadv, Option.map_some]
    rcases expand_singlechain_spec (b := b) (n := 64) h (by omega) with
      ⟨w₁, hexp, hsame, hmem⟩ | ⟨w₁, L₁, a, c, hexp, hsame, hroom⟩
    · exact .inl ⟨w₁, L, by rw [hexp, Option.bind_some], hsame, hmem⟩
    · rw [hexp, Option.bind_some]
      by_cases hfit : bs.length < c.room
      · exact .inr (hprint hsame ⟨hroom.chain, hroom.place, hroom.mutable, hfit⟩)
      · -- the text is too long
        have hagain : printLoop 2 w₁ b a bs =
            (evbuffer_expand_singlechain w₁ b (bs.length + 1)).bind fun
              | (w, none) => some (w, -1)
              | (w, some a) => printLoop 1 w b a bs := by
          rw [printLoop, hroom.chain, Option.bind_some, evbuffer_chain.space_eq, if_neg hfit]
        simp only [hagain]
        rcases expand_singlechain_spec (b := b) (n := bs.length + 1) hsame.inv (by omega) with
          ⟨w₂, hexp₂, hsame₂, hmem⟩ | ⟨w₂, L₂, a₂, c₂, hexp₂, hsame₂, hroom₂⟩
        · rw [hsame.bytes, hsame.counts] at hsame₂
          exact .inl ⟨w₂, L₁, by rw [hexp₂, Option.bind_some], hsame.trans hsame₂,
            hmem.of_frame hsame.frame⟩
        · rw [hsame.bytes, hsame.counts] at hsame₂
          rw [hexp₂, Option.bind_some]
          exact .inr (hprint (hsame.trans hsame₂) hroom₂)

end

end CppWorkspace.Libevent
