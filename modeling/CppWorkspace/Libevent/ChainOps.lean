/-
# `CppWorkspace.Libevent.ChainOps` — allocating, freeing and linking chains

What the functions on chains do to the lists of `World.Inv`:

    evbuffer_chain_new         a loose chain, large enough, or nothing     `chain_new_spec`
    evbuffer_free_all_chains   a list is freed                             `free_all_chains_eq`
    skipData                   from `last_with_datap` to the first spare   `skipData_eq`
    evbuffer_chain_insert      the spare chains give way to the new one    `chain_insert_spec`

`evbuffer_chain_insert` moves `last_with_datap` only if there is no spare chain.  So a
chain with data must not be inserted where another one has data and a spare one follows.
-/
import CppWorkspace.Libevent.Chains

namespace CppWorkspace.Libevent

open LinkedList (Chain)

/-- The chains are freed. -/
def World.freeAll (w : World) (l : List Addr) : World :=
  { w with chain := fun a => if a ∈ l then none else w.chain a }

namespace World

variable {w : World} {l : List Addr} {a : Addr}

@[simp] theorem freeAll_buf : (w.freeAll l).buf = w.buf := rfl

@[simp] theorem freeAll_next : (w.freeAll l).next = w.next := rfl

@[simp] theorem freeAll_mallocs : (w.freeAll l).mallocs = w.mallocs := rfl

theorem freeAll_of_mem (h : a ∈ l) : (w.freeAll l).chain a = none := if_pos h

theorem freeAll_of_not_mem (h : a ∉ l) : (w.freeAll l).chain a = w.chain a := if_neg h

end World

section
variable {w w' : World} {L : BufId → Chains} {X : List Addr} {b : BufId} {s : Chains}
  {a x : Addr} {c : evbuffer_chain} {l l' l₁ l₂ d e : List Addr} {p : Option Addr}
  {n fuel size : Nat}

/-- A call of `mm_malloc` that was made from `w` to `w'` has failed. -/
def World.OutOfMemory (w w' : World) : Prop :=
  ∃ i, w.mallocs ≤ i ∧ i < w'.mallocs ∧ w.fails i = true

theorem World.OutOfMemory.before {v : World} (h : v.OutOfMemory w') (hfails : v.fails = w.fails)
    (hle : w.mallocs ≤ v.mallocs) : w.OutOfMemory w' := by
  obtain ⟨i, hge, hlt, hi⟩ := h
  exact ⟨i, Nat.le_trans hle hge, hlt, hfails ▸ hi⟩

theorem World.OutOfMemory.after {v : World} (h : w.OutOfMemory v) (hle : v.mallocs ≤ w'.mallocs) :
    w.OutOfMemory w' := by
  obtain ⟨i, hge, hlt, hi⟩ := h
  exact ⟨i, hge, Nat.lt_of_lt_of_le hlt hle, hi⟩

/-! ## `evbuffer_chain_new` -/

theorem allocSize_le {n : Nat} (hsize : n ≤ 2 ^ 31) :
    ∀ k, k ≤ 22 → ∀ fuel, k < fuel → ∃ m, allocSize n fuel (2 ^ (31 - k)) = some m ∧
      n ≤ m ∧ m ≤ 2 ^ 31 ∧ 2 ^ (31 - k) ≤ m := by
  intro k
  induction k with
  | zero =>
      intro _ fuel hfuel
      obtain ⟨fuel, rfl⟩ := Nat.exists_eq_succ_of_ne_zero (Nat.ne_zero_of_lt hfuel)
      exact ⟨2 ^ 31, if_neg (Nat.not_lt.mpr hsize), hsize, Nat.le_refl _, Nat.le_refl _⟩
  | succ k ih =>
      intro hk fuel hfuel
      obtain ⟨fuel, rfl⟩ := Nat.exists_eq_succ_of_ne_zero (Nat.ne_zero_of_lt hfuel)
      have hdouble : 2 ^ (31 - (k + 1)) * 2 = 2 ^ (31 - k) := by
        rw [← Nat.pow_succ]
        congr 1
        omega
      have hlt : 2 ^ (31 - k) < 2 ^ 32 := Nat.pow_lt_pow_right (by omega) (by omega)
      by_cases hstop : 2 ^ (31 - (k + 1)) < n
      · obtain ⟨m, hm, hsm, hm31, hkm⟩ := ih (by omega) fuel (by omega)
        refine ⟨m, ?_, hsm, hm31, by omega⟩
        rw [allocSize, if_pos hstop, hdouble, Nat.mod_eq_of_lt hlt, hm]
      · have hle : 2 ^ (31 - (k + 1)) ≤ 2 ^ 31 := Nat.pow_le_pow_right (by omega) (by omega)
        exact ⟨_, if_neg hstop, by omega, hle, Nat.le_refl _⟩

/-- The allocation is for a chain in which `size` bytes have room. -/
theorem allocSize_of_le (hsize : size ≤ maxLen) :
    ∃ m, allocSize ((size + EVBUFFER_CHAIN_SIZE) % 2 ^ 32) 32 MIN_BUFFER_SIZE = some m ∧
      size ≤ m - EVBUFFER_CHAIN_SIZE ∧ 0 < m - EVBUFFER_CHAIN_SIZE ∧
      m - EVBUFFER_CHAIN_SIZE ≤ maxLen := by
  simp only [maxLen, EVBUFFER_CHAIN_SIZE] at hsize ⊢
  rw [Nat.mod_eq_of_lt (by omega)]
  obtain ⟨m, hm, hsm, hm31, hmin⟩ :=
    allocSize_le (n := size + 32) (by omega) 22 (Nat.le_refl _) 32 (by omega)
  exact ⟨m, hm, by omega, by omega, by omega⟩

/-- `w'` has all chains of `w`, and the same buffers. -/
structure Extends (w w' : World) : Prop where
  fails : w'.fails = w.fails
  mallocs : w.mallocs ≤ w'.mallocs
  buf : w'.buf = w.buf
  chain : ∀ a c, w.chain a = some c → w'.chain a = some c

/-- The chain of `evbuffer_chain_new`. -/
structure Fresh (w w' : World) (size : Nat) (x : Addr) (c : evbuffer_chain) : Prop where
  chain : w'.chain x = some c
  next : w'.next x = none
  spare : c.Spare
  room : size ≤ c.room
  new : w.chain x = none

theorem World.Inv.not_chain (h : w.Inv L X) : w.chain w.mallocs = none := by
  cases hc : w.chain w.mallocs with
  | none => rfl
  | some c => exact absurd (h.owned _ c hc).1 (Nat.lt_irrefl _)

theorem Shape.of_same (h : Shape w b s) (hbuf : w'.buf b = w.buf b)
    (hchain : ∀ a ∈ s.all, w'.chain a = w.chain a) (hnext : ∀ a ∈ s.all, w'.next a = w.next a) :
    Shape w' b s := by
  obtain ⟨hlist, hlast, hlwd, hdata, hspare⟩ := h
  refine ⟨?_, hbuf ▸ hlast, hbuf ▸ hlwd, fun a ha => ?_, fun a ha => ?_⟩
  · rw [hbuf]
    exact hlist.frame hnext
  · rw [hchain a (Chains.mem_data ha)]
    exact hdata a ha
  · rw [hchain a (Chains.mem_spare ha)]
    exact hspare a ha

/-- `mm_malloc` has been called for something else, or has failed. -/
theorem World.Inv.next_malloc (h : w.Inv L X) :
    World.Inv { w with mallocs := w.mallocs + 1 } L X := by
  refine ⟨fun b => (h.shape b).of_same rfl (fun _ _ => rfl) fun _ _ => rfl, h.nodup,
    h.disjoint, h.loose, h.loose_nodup, fun a c hc => ?_⟩
  obtain ⟨hlt, hrest⟩ := h.owned a c hc
  exact ⟨Nat.lt_succ_of_lt hlt, hrest⟩

theorem chain_new_spec {n : Nat} (h : w.Inv L X) (hsize : n ≤ maxLen) :
    (∃ w', evbuffer_chain_new w n = some (w', none) ∧ w'.Inv L X ∧ Extends w w' ∧
      w.OutOfMemory w') ∨
    ∃ w' x c, evbuffer_chain_new w n = some (w', some x) ∧ w'.Inv L (x :: X) ∧
      Extends w w' ∧ Fresh w w' n x c := by
  obtain ⟨m, hm, hsm, hpos, hle⟩ := allocSize_of_le hsize
  cases hfail : w.fails w.mallocs with
  | true =>
      refine .inl ⟨{ w with mallocs := w.mallocs + 1 }, ?_, h.next_malloc,
        ⟨rfl, Nat.le_succ _, rfl, fun _ _ hc => hc⟩,
        ⟨w.mallocs, Nat.le_refl _, Nat.lt_succ_self _, hfail⟩⟩
      rw [evbuffer_chain_new, hm, Option.map_some, if_pos hfail]
  | false =>
      have hnew := h.not_chain
      have hother : ∀ a, a < w.mallocs → a ≠ w.mallocs := fun _ ha => Nat.ne_of_lt ha
      refine .inr ⟨{ (w.setChain w.mallocs (.empty (m - EVBUFFER_CHAIN_SIZE))).setNext w.mallocs none
        with mallocs := w.mallocs + 1 }, w.mallocs, .empty (m - EVBUFFER_CHAIN_SIZE), ?_, ?_, ?_, ?_⟩
      · rw [evbuffer_chain_new, hm, Option.map_some, if_neg (by simp [hfail])]
      · refine ⟨fun b => (h.shape b).of_same rfl (fun a ha => ?_) fun a ha => ?_, h.nodup,
          h.disjoint, fun a ha => ?_, ?_, fun a c hc => ?_⟩
        · exact Function.update_of_ne (hother a (h.lt_mallocs ha)) ..
        · exact LinkedList.write_of_ne (hother a (h.lt_mallocs ha))
        · rcases List.mem_cons.mp ha with rfl | ha
          · refine ⟨by simp [World.setNext, World.setChain], fun b hb => ?_⟩
            exact absurd (h.lt_mallocs hb) (Nat.lt_irrefl _)
          · obtain ⟨hlive, hfree⟩ := h.loose a ha
            obtain ⟨c, hc⟩ := Option.isSome_iff_exists.mp hlive
            refine ⟨?_, hfree⟩
            show (Function.update w.chain w.mallocs _ a).isSome
            rw [Function.update_of_ne (hother a (h.owned a c hc).1)]
            exact hlive
        · refine List.nodup_cons.mpr ⟨fun hx => ?_, h.loose_nodup⟩
          have hlive := (h.loose _ hx).1
          rw [hnew] at hlive
          cases hlive
        · rcases eq_or_ne a w.mallocs with rfl | ha
          · obtain rfl : evbuffer_chain.empty (m - EVBUFFER_CHAIN_SIZE) = c := by
              simpa [World.setNext, World.setChain] using hc
            exact ⟨Nat.lt_succ_self _, by simpa using hle, .inr List.mem_cons_self⟩
          · have hc : w.chain a = some c := by
              simpa [World.setNext, World.setChain, Function.update_of_ne ha] using hc
            obtain ⟨hlt, hlen, hplace⟩ := h.owned a c hc
            exact ⟨Nat.lt_succ_of_lt hlt, hlen, hplace.imp_right (List.mem_cons_of_mem _)⟩
      · refine ⟨rfl, Nat.le_succ _, rfl, fun a c hc => ?_⟩
        show Function.update w.chain w.mallocs _ a = some c
        rw [Function.update_of_ne (hother a (h.owned a c hc).1)]
        exact hc
      · exact ⟨by simp [World.setNext, World.setChain], LinkedList.write_self,
          ⟨rfl, rfl, rfl, hpos⟩, hsm, hnew⟩

/-! ## Loops over chains -/

theorem free_all_chains_eq (hchain : Chain w.next p l) (hlive : ∀ a ∈ l, ∃ c, w.chain a = some c)
    (hfuel : l.length ≤ fuel) : evbuffer_free_all_chains fuel w p = some (w.freeAll l) := by
  induction l generalizing w p fuel with
  | nil =>
      obtain rfl : p = none := hchain
      cases fuel <;> simp [evbuffer_free_all_chains, World.freeAll]
  | cons a l ih =>
      have hnodup := hchain.nodup
      obtain ⟨rfl, hrest⟩ := hchain
      obtain ⟨ha, -⟩ := List.nodup_cons.mp hnodup
      obtain ⟨c, hc⟩ := hlive a List.mem_cons_self
      cases fuel with
      | zero => cases hfuel
      | succ fuel =>
          have hfree : evbuffer_chain_free w a = some (w.mm_free a) := by
            simp [evbuffer_chain_free, hc]
          have hlive' : ∀ d ∈ l, ∃ c, (w.mm_free a).chain d = some c := by
            intro d hd
            obtain ⟨c, hc⟩ := hlive d (List.mem_cons_of_mem a hd)
            refine ⟨c, ?_⟩
            show Function.update w.chain a none d = some c
            have hda : d ≠ a := ne_of_mem_of_not_mem hd ha
            rw [Function.update_of_ne hda]
            exact hc
          have hih := ih (w := w.mm_free a) hrest hlive' (Nat.le_of_succ_le_succ hfuel)
          rw [evbuffer_free_all_chains, hfree, Option.bind_some, hih]
          simp only [World.freeAll, World.mm_free, Option.some.injEq, World.mk.injEq, and_true, true_and]
          funext d
          rcases eq_or_ne d a with rfl | hd
          · simp
          · simp [hd]

theorem chains_all_empty_eq (hchain : Chain w.next p l)
    (hempty : ∀ a ∈ l, ∃ c, w.chain a = some c ∧ c.data = []) (hfuel : l.length ≤ fuel) :
    evbuffer_chains_all_empty w fuel p = some true := by
  induction l generalizing p fuel with
  | nil =>
      obtain rfl : p = none := hchain
      cases fuel <;> rfl
  | cons a l ih =>
      obtain ⟨rfl, hrest⟩ := hchain
      obtain ⟨c, hc, hdata⟩ := hempty a List.mem_cons_self
      cases fuel with
      | zero => cases hfuel
      | succ fuel =>
          have hih := ih hrest (fun d hd => hempty d (List.mem_cons_of_mem a hd))
            (Nat.le_of_succ_le_succ hfuel)
          simp [evbuffer_chains_all_empty, hc, evbuffer_chain.off, hdata, hih]

theorem freeVictims_eq (hchain : Chain w.next p l)
    (hempty : ∀ a ∈ l, ∃ c, w.chain a = some c ∧ c.data = []) (hfuel : l.length ≤ w.mallocs) :
    freeVictims w p = some (w.freeAll l) := by
  have hlive : ∀ a ∈ l, ∃ c, w.chain a = some c := by
    intro a ha
    obtain ⟨c, hc, -⟩ := hempty a ha
    exact ⟨c, hc⟩
  rw [freeVictims, chains_all_empty_eq hchain hempty hfuel, Option.bind_some, if_pos rfl,
    free_all_chains_eq hchain hlive hfuel]

theorem load_linkAfter {l : List Addr} (hchain : Chain w.next (w.buf b).first (l ++ l₂))
    (hlive : ∀ a ∈ l, ∃ c, w.chain a = some c) :
    w.load (linkAfter b l) = some l₂.head? := by
  rcases List.eq_nil_or_concat' l with rfl | ⟨l₀, e, rfl⟩
  · exact congrArg some hchain.head
  · obtain ⟨c, hc⟩ := hlive e (by simp)
    rw [List.append_assoc, List.singleton_append] at hchain
    have hnext : w.next e = l₂.head? := hchain.suffix.head
    rw [linkAfter_concat, World.load, hc, Option.map_some, hnext]

theorem Chain.after (hchain : Chain w.next (w.buf b).first (l₁ ++ l₂)) :
    Chain w.next l₂.head? l₂ := by
  rcases List.eq_nil_or_concat' l₁ with rfl | ⟨l₀, e, rfl⟩
  · exact hchain.head ▸ hchain
  · rw [List.append_assoc, List.singleton_append] at hchain
    exact hchain.suffix.head ▸ hchain.suffix

/-- The search passes the chains with data and stops at an empty one, or at the end. -/
theorem skipData_eq {l : List Addr} (hchain : Chain w.next (w.buf b).first (l ++ (d ++ e)))
    (hlive : ∀ a ∈ l, ∃ c, w.chain a = some c)
    (hd : ∀ a ∈ d, ∃ c, w.chain a = some c ∧ c.data ≠ [])
    (he : ∀ a ∈ e.head?, ∃ c, w.chain a = some c ∧ c.data = []) (hfuel : d.length < fuel) :
    skipData w fuel (linkAfter b l) = some (linkAfter b (l ++ d)) := by
  induction d generalizing l fuel with
  | nil =>
      obtain ⟨fuel, rfl⟩ := Nat.exists_eq_succ_of_ne_zero (Nat.ne_zero_of_lt hfuel)
      rw [skipData, load_linkAfter hchain hlive, Option.bind_some, List.append_nil]
      cases hhead : e.head? with
      | none => simp [hhead]
      | some a =>
          obtain ⟨c, hc, hdata⟩ := he a hhead
          simp [hhead, hc, evbuffer_chain.off, hdata]
  | cons a d ih =>
      obtain ⟨fuel, rfl⟩ := Nat.exists_eq_succ_of_ne_zero (Nat.ne_zero_of_lt hfuel)
      obtain ⟨c, hc, hdata⟩ := hd a List.mem_cons_self
      have hoff : c.off ≠ 0 := fun h0 => hdata (List.length_eq_zero_iff.mp h0)
      have hih := ih (l := l ++ [a]) (by simpa using hchain) (by
          intro x hx
          rcases List.mem_append.mp hx with hx | hx
          · exact hlive x hx
          · obtain rfl := List.mem_singleton.mp hx
            exact ⟨c, hc⟩)
        (fun x hx => hd x (List.mem_cons_of_mem a hx)) (Nat.lt_of_succ_lt_succ hfuel)
      rw [linkAfter_concat, List.append_assoc, List.singleton_append] at hih
      rw [skipData, load_linkAfter hchain hlive]
      simp [hc, hoff, hih]

/-! ## Storing to a link -/

theorem store_linkAfter (hchain : Chain w.next (w.buf b).first (l₁ ++ l₂))
    (hlive : ∀ a ∈ l₁, ∃ c, w.chain a = some c) (hp : Chain w.next p l)
    (hdisjoint : ∀ a ∈ l₁, a ∉ l) :
    ∃ w', w.store p (linkAfter b l₁) = some w' ∧ Chain w'.next (w'.buf b).first (l₁ ++ l) ∧
      w'.chain = w.chain ∧ w'.toMalloc = w.toMalloc ∧ (∀ a, a ∉ l₁ → w'.next a = w.next a) ∧
      (∀ j, j ≠ b → w'.buf j = w.buf j) ∧
      (w'.buf b).toCounts = (w.buf b).toCounts ∧ (w'.buf b).last = (w.buf b).last ∧
      (w'.buf b).last_with_datap = (w.buf b).last_with_datap := by
  rcases List.eq_nil_or_concat' l₁ with rfl | ⟨l₀, e, rfl⟩
  · exact ⟨_, rfl, by simpa using hp, rfl, rfl, fun _ _ => rfl, fun j hj => by simp [hj],
      by simp, by simp, by simp⟩
  · obtain ⟨c, hc⟩ := hlive e (by simp)
    refine ⟨w.setNext e p, ?_, ?_, rfl, rfl, fun a ha => ?_, fun _ _ => rfl, rfl, rfl, rfl⟩
    · rw [linkAfter_concat, World.store, hc, Option.map_some]
    · have hnodup := hchain.nodup
      rw [List.append_assoc, List.singleton_append] at hchain ⊢
      exact hchain.relink (List.nodup_append.mp hnodup).1 hp (hdisjoint e (by simp))
    · exact LinkedList.write_of_ne fun hae => ha (by simp [hae])

/-! ## What an operation leaves alone -/

/-- The other buffers are as before. -/
structure Frame (B : List BufId) (w : World) (L : BufId → Chains) (w' : World)
    (L' : BufId → Chains) : Prop where
  fails : w'.fails = w.fails
  mallocs : w.mallocs ≤ w'.mallocs
  lists : ∀ j, j ∉ B → L' j = L j
  buf : ∀ j, j ∉ B → w'.buf j = w.buf j
  chain : ∀ j, j ∉ B → ∀ a ∈ (L j).all, w'.chain a = w.chain a

theorem Frame.refl {B : List BufId} : Frame B w L w L :=
  ⟨rfl, Nat.le_refl _, fun _ _ => rfl, fun _ _ => rfl, fun _ _ _ _ => rfl⟩

theorem Frame.trans {B : List BufId} {w'' : World} {L' L'' : BufId → Chains}
    (h : Frame B w L w' L') (h' : Frame B w' L' w'' L'') : Frame B w L w'' L'' := by
  refine ⟨h'.fails.trans h.fails, Nat.le_trans h.mallocs h'.mallocs, fun j hj => ?_, fun j hj => ?_, fun j hj a ha => ?_⟩
  · rw [h'.lists j hj, h.lists j hj]
  · rw [h'.buf j hj, h.buf j hj]
  · rw [h'.chain j hj a (h.lists j hj ▸ ha), h.chain j hj a ha]

theorem Frame.mono {B B' : List BufId} {L' : BufId → Chains} (h : Frame B w L w' L')
    (hsub : B ⊆ B') : Frame B' w L w' L' :=
  ⟨h.fails, h.mallocs, fun j hj => h.lists j fun hm => hj (hsub hm),
    fun j hj => h.buf j fun hm => hj (hsub hm), fun j hj => h.chain j fun hm => hj (hsub hm)⟩

theorem World.OutOfMemory.of_frame {B : List BufId} {L' : BufId → Chains} {v : World}
    (h : w'.OutOfMemory v) (hf : Frame B w L w' L') : w.OutOfMemory v :=
  h.before hf.fails hf.mallocs

theorem Frame.bytes {B : List BufId} {L' : BufId → Chains} (h : Frame B w L w' L') {j : BufId}
    (hj : j ∉ B) : w'.bytes (L' j).data = w.bytes (L j).data := by
  rw [h.lists j hj]
  exact World.bytes_congr fun a ha => h.chain j hj a (Chains.mem_data ha)

theorem Extends.frame (h : w.Inv L X) (he : Extends w w') {B : List BufId} : Frame B w L w' L := by
  refine ⟨he.fails, he.mallocs, fun _ _ => rfl, fun j _ => congrFun he.buf j, fun j _ a ha => ?_⟩
  obtain ⟨c, hc⟩ := h.live ha
  rw [hc, he.chain a c hc]

theorem World.Inv.rearranged {v : World} {Y : List Addr} (h : w.Inv L X)
    (hmallocs : v.toMalloc = w.toMalloc)
    (hbuf : ∀ j, j ≠ b → v.buf j = w.buf j)
    (hout : ∀ a, a ∉ (L b).all ++ X → v.chain a = w.chain a ∧ v.next a = w.next a)
    (hsub : ∀ a ∈ s.all ++ Y, a ∈ (L b).all ++ X) (hnodup : (s.all ++ Y).Nodup)
    (hfreed : ∀ a ∈ (L b).all ++ X, a ∉ s.all ++ Y → v.chain a = none)
    (hlen : ∀ a ∈ s.all ++ Y, ∀ c, v.chain a = some c → c.buffer_len ≤ maxLen)
    (hX : ∀ a ∈ Y, (v.chain a).isSome) (hs : Shape v b s) :
    v.Inv (Function.update L b s) Y ∧ Frame [b] w L v (Function.update L b s) := by
  refine ⟨h.rearrange hmallocs hbuf hout hsub hnodup hfreed hlen hX hs,
    congrArg Malloc.fails hmallocs, Nat.le_of_eq (congrArg Malloc.mallocs hmallocs).symm, fun j hj => ?_,
    fun j hj => hbuf j (List.ne_of_not_mem_cons hj), fun j hj a ha => (hout a fun hmem => ?_).1⟩
  · exact Function.update_of_ne (List.ne_of_not_mem_cons hj) ..
  · rcases List.mem_append.mp hmem with hb | hx
    · exact List.ne_of_not_mem_cons hj (h.disjoint j b a ha hb)
    · exact (h.loose a hx).2 j ha

/-! ## `evbuffer_chain_insert` -/

/-- Where a chain goes that is inserted. -/
def Chains.put (s : Chains) (x : Addr) (c : evbuffer_chain) : Chains :=
  if c.data = [] then ⟨s.data, [x]⟩ else ⟨s.data ++ [x], []⟩

theorem Chains.put_all (s : Chains) (x : Addr) (c : evbuffer_chain) :
    (s.put x c).all = s.data ++ [x] := by
  rw [Chains.put]
  split <;> simp

/-- The last chain with data does not have spare ones behind it. -/
theorem Chains.put_dropLast (htight : c.data = [] ∨ s.data = [] ∨ s.spare = [])
    (hs : s.spare ≠ []) :
    linkAfter b (s.put x c).data.dropLast = linkAfter b s.data.dropLast := by
  rw [Chains.put]
  split
  · rfl
  · rename_i hdata
    obtain hD : s.data = [] := (htight.resolve_left hdata).resolve_right hs
    simp [hD]

theorem World.Inv.put {v : World} (h : w.Inv L (x :: X)) (hc : w.chain x = some c)
    (hempty : c.data = [] → c.Spare)
    (hmallocs : v.toMalloc = w.toMalloc) (hbuf : ∀ j, j ≠ b → v.buf j = w.buf j)
    (hnext : ∀ a, a ∉ (L b).data → v.next a = w.next a)
    (hchain : v.chain = (w.freeAll (L b).spare).chain)
    (hlist : Chain v.next (v.buf b).first ((L b).data ++ [x]))
    (hlast : (v.buf b).last = some x)
    (hlwd : (v.buf b).last_with_datap = linkAfter b ((L b).put x c).data.dropLast) :
    v.Inv (Function.update L b ((L b).put x c)) X ∧
      Frame [b] w L v (Function.update L b ((L b).put x c)) := by
  have hxb : x ∉ (L b).all := (h.loose x List.mem_cons_self).2 b
  have hkeep : ∀ a, a ∉ (L b).spare → v.chain a = w.chain a := fun a ha => by
    rw [hchain]
    exact if_neg ha
  obtain ⟨hD, hS, hDS⟩ := List.nodup_append.mp (h.nodup b)
  obtain ⟨hxX, hXnodup⟩ := List.nodup_cons.mp h.loose_nodup
  have hspareX : ∀ a ∈ X, a ∉ (L b).spare := fun a ha hs =>
    (h.loose a (List.mem_cons_of_mem x ha)).2 b (Chains.mem_spare hs)
  have hxS : x ∉ (L b).spare := fun hs => hxb (Chains.mem_spare hs)
  have hx' : v.chain x = some c := (hkeep x hxS).trans hc
  have hdata : ∀ a ∈ (L b).data, v.chain a = w.chain a := fun a ha =>
    hkeep a fun hs => hDS a ha a hs rfl
  refine h.rearranged hmallocs hbuf (fun a ha => ⟨hkeep a fun hs => ha ?_, hnext a fun hd => ha ?_⟩)
    (fun a ha => ?_) ?_ (fun a ha hno => ?_) (fun a ha d hd => ?_) (fun a ha => ?_)
    ⟨?_, ?_, hlwd, fun a ha => ?_, fun a ha => ?_⟩
  · exact List.mem_append_left _ (Chains.mem_spare hs)
  · exact List.mem_append_left _ (Chains.mem_data hd)
  · rw [Chains.put_all, List.append_assoc, List.singleton_append] at ha
    rcases List.mem_append.mp ha with ha | ha
    · exact List.mem_append_left _ (Chains.mem_data ha)
    · exact List.mem_append_right _ ha
  · rw [Chains.put_all, List.append_assoc, List.singleton_append]
    refine List.nodup_append.mpr ⟨hD, h.loose_nodup, fun a ha d hd had => ?_⟩
    exact (h.loose d hd).2 b (had ▸ Chains.mem_data ha)
  · rw [Chains.put_all, List.append_assoc, List.singleton_append] at hno
    have hs : a ∈ (L b).spare := by
      rcases List.mem_append.mp ha with ha | ha
      · exact (List.mem_append.mp ha).resolve_left fun hd => hno (List.mem_append_left _ hd)
      · exact absurd (List.mem_append_right _ ha) hno
    rw [hchain]
    exact if_pos hs
  · rw [hchain] at hd
    have hd : w.chain a = some d := by
      by_contra hne
      simp only [World.freeAll] at hd
      split at hd
      · cases hd
      · exact hne hd
    exact (h.owned a d hd).2.1
  · rw [hkeep a (hspareX a ha)]
    exact (h.loose a (List.mem_cons_of_mem x ha)).1
  · rw [Chains.put_all]
    exact hlist
  · rw [Chains.put_all, hlast]
    simp
  · have ha' : a ∈ (L b).data ∨ a = x ∧ c.data ≠ [] := by
      rw [Chains.put] at ha
      split at ha
      · exact .inl ha
      · rename_i hne
        exact (List.mem_append.mp ha).imp_right fun ha => ⟨List.mem_singleton.mp ha, hne⟩
    rcases ha' with ha | ⟨rfl, hne⟩
    · rw [hdata a ha]
      exact (h.shape b).data a ha
    · exact ⟨c, hx', hne⟩
  · rw [Chains.put] at ha
    split at ha
    · rename_i hemp
      obtain rfl := List.mem_singleton.mp ha
      exact ⟨c, hx', hempty hemp⟩
    · cases ha

/-- From the last chain with data the search comes to the spare ones. -/
theorem Shape.skipData_lwd (h : Shape w b s) (hlen : s.all.length ≤ w.mallocs) :
    skipData w (w.mallocs + 1) (w.buf b).last_with_datap = some (linkAfter b s.data) := by
  obtain ⟨hlist, -, hlwd, hdata, hspare⟩ := h
  have hempty : ∀ a ∈ s.spare.head?, ∃ c, w.chain a = some c ∧ c.data = [] := by
    intro a ha
    obtain ⟨c, hc, hsp⟩ := hspare a (List.mem_of_mem_head? ha)
    exact ⟨c, hc, hsp.data⟩
  rw [Chains.all, List.length_append] at hlen
  rw [hlwd]
  rw [Chains.all] at hlist
  rcases List.eq_nil_or_concat' s.data with hD | ⟨D, e, hD⟩
  · rw [hD] at hlist ⊢
    exact skipData_eq (l := []) (d := []) hlist (by simp) (by simp) hempty (Nat.succ_pos _)
  · rw [hD] at hlist hdata hlen ⊢
    rw [List.dropLast_concat]
    have hlist : Chain w.next (w.buf b).first (D ++ ([e] ++ s.spare)) := by
      simpa using hlist
    refine skipData_eq hlist (fun a ha => ?_) (fun a ha => ?_) hempty ?_
    · obtain ⟨c, hc, -⟩ := hdata a (List.mem_append_left _ ha)
      exact ⟨c, hc⟩
    · exact hdata a (List.mem_append_right _ ha)
    · simp only [List.length_append, List.length_singleton] at hlen ⊢
      omega

theorem Shape.data_live (h : Shape w b s) : ∀ a ∈ s.data, ∃ c, w.chain a = some c := fun a ha => by
  obtain ⟨c, hc, -⟩ := h.data a ha
  exact ⟨c, hc⟩

theorem Shape.load_lwd (h : Shape w b s) :
    w.load (w.buf b).last_with_datap = some (s.data.getLast?.or s.spare.head?) := by
  have hlive := h.data_live
  obtain ⟨hlist, -, hlwd, -, -⟩ := h
  rw [hlwd]
  rw [Chains.all] at hlist
  rcases List.eq_nil_or_concat' s.data with hD | ⟨D, e, hD⟩
  · rw [hD] at hlist ⊢
    exact load_linkAfter (l := []) hlist (by simp)
  · rw [hD] at hlist hlive ⊢
    have hlist : Chain w.next (w.buf b).first (D ++ (e :: s.spare)) := by simpa using hlist
    rw [List.dropLast_concat, load_linkAfter hlist]
    · simp
    · exact fun a ha => hlive a (List.mem_append_left _ ha)

theorem Shape.freeVictims_spare (h : Shape w b s) (hlen : s.all.length ≤ w.mallocs) :
    freeVictims w s.spare.head? = some (w.freeAll s.spare) := by
  have hlist := h.chain
  rw [Chains.all] at hlist hlen
  refine freeVictims_eq (Chain.after hlist) (fun a ha => ?_) ?_
  · obtain ⟨c, hc, hspare⟩ := h.spare a ha
    exact ⟨c, hc, hspare.data⟩
  · rw [List.length_append] at hlen
    omega

theorem chain_insert_spec (h : w.Inv L (x :: X)) (hc : w.chain x = some c) (hnext : w.next x = none)
    (hempty : c.data = [] → c.Spare)
    (htight : c.data = [] ∨ (L b).data = [] ∨ (L b).spare = []) :
    ∃ w', evbuffer_chain_insert w b x = some w' ∧
      w'.Inv (Function.update L b ((L b).put x c)) X ∧
      Frame [b] w L w' (Function.update L b ((L b).put x c)) ∧
      w'.chain = (w.freeAll (L b).spare).chain ∧
      (w'.buf b).toCounts = { (w.buf b).toCounts with total_len := (w.buf b).total_len + c.off } := by
  have hlist := (h.shape b).chain
  have hload := (h.shape b).load_lwd
  have hskip := (h.shape b).skipData_lwd (h.length_le b)
  have hxb : x ∉ (L b).all := (h.loose x List.mem_cons_self).2 b
  have hxD : ∀ a ∈ (L b).data, a ∉ [x] := fun a ha hax =>
    hxb (List.mem_singleton.mp hax ▸ Chains.mem_data ha)
  have hlive := (h.shape b).data_live
  have hx : Chain w.next (some x) [x] := ⟨rfl, hnext⟩
  have hoff : c.off = 0 ↔ c.data = [] := List.length_eq_zero_iff
  have hstore := store_linkAfter (w := w) (p := some x) hlist hlive hx hxD
  simp only [evbuffer_chain_insert, hc, Option.bind_some, hload]
  cases hS : (L b).spare with
  | cons a S =>
      -- the spare chains are replaced, and `last_with_datap` stays
      obtain ⟨p, hp⟩ : ∃ p, (L b).data.getLast?.or (some a) = some p := by
        cases (L b).data.getLast? <;> exact ⟨_, rfl⟩
      have hload' : w.load (linkAfter b (L b).data) = some (some a) := by
        rw [load_linkAfter hlist hlive, hS]
        rfl
      have hfree : freeVictims w (some a) = some (w.freeAll (L b).spare) := by
        simpa [hS] using (h.shape b).freeVictims_spare (h.length_le b)
      have hlist' : Chain (w.freeAll (L b).spare).next ((w.freeAll (L b).spare).buf b).first
          ((L b).data ++ (L b).spare) := hlist
      have hDS : ∀ d ∈ (L b).data, d ∉ (L b).spare := fun d hd hs =>
        (List.nodup_append.mp (h.nodup b)).2.2 d hd d hs rfl
      have hlive' : ∀ d ∈ (L b).data, ∃ c, (w.freeAll (L b).spare).chain d = some c := by
        intro d hd
        obtain ⟨c, hc⟩ := hlive d hd
        exact ⟨c, (if_neg (hDS d hd)).trans hc⟩
      obtain ⟨w₁, hw₁, hlist₁, hchain₁, hmallocs₁, hnext₁, hbuf₁, hcounts₁,
        hlast₁, hlwd₁⟩ :=
        store_linkAfter hlist' hlive' (p := some x) hx hxD
      refine ⟨w₁.inserted b x c.off, ?_, ?_⟩
      · simp only [hp, List.head?_cons, hskip, Option.bind_some, hload']
        rw [hfree, Option.bind_some, hw₁, Option.map_some]
      · have hlwd : ((w₁.inserted b x c.off).buf b).last_with_datap =
            linkAfter b ((L b).put x c).data.dropLast := by
          rw [Chains.put_dropLast htight (by simp [hS]), ← (h.shape b).last_with_datap]
          simp [hlwd₁, World.freeAll]
        obtain ⟨hinv, hframe⟩ := h.put (v := w₁.inserted b x c.off) hc hempty hmallocs₁
          (fun j hj => (World.inserted_of_ne hj).trans (hbuf₁ j hj))
          (fun d hd => hnext₁ d hd) hchain₁ (by simpa using hlist₁) (by simp) hlwd
        refine ⟨hinv, hframe, hS ▸ hchain₁, ?_⟩
        simp only [World.inserted_self, hcounts₁]
        rfl
  | nil =>
      have hfreeAll : (w.freeAll (L b).spare).chain = w.chain := by
        funext d
        simp [World.freeAll, hS]
      rcases List.eq_nil_or_concat' (L b).data with hD | ⟨D, e, hD⟩
      · -- there are no chains
        have hlwd : (w.buf b).last_with_datap = .first b := by
          rw [(h.shape b).last_with_datap, hD]
          rfl
        refine ⟨(w.setBuf b { w.buf b with first := some x }).inserted b x c.off, ?_, ?_⟩
        · simp [hD, hlwd]
        · have hput : ((L b).put x c).data.dropLast = [] := by
            rw [Chains.put, hD]
            split <;> rfl
          obtain ⟨hinv, hframe⟩ := h.put
            (v := (w.setBuf b { w.buf b with first := some x }).inserted b x c.off) hc hempty rfl
            (fun j hj => by simp [hj]) (fun _ _ => rfl) hfreeAll.symm (by simpa [hD] using hx)
            (by simp) (by simp [hlwd, hput])
          exact ⟨hinv, hframe, hS ▸ hfreeAll.symm, by simp⟩
      · -- the chain goes behind the last one, which has data
        obtain ⟨d, hd⟩ := hlive e (by simp [hD])
        have hlast : (w.buf b).last = some e := by
          rw [(h.shape b).last, Chains.all, hS, hD]
          simp
        have hload' : w.load (linkAfter b (L b).data) = some none := by
          rw [load_linkAfter hlist hlive, hS]
          rfl
        rw [hD, linkAfter_concat, World.store, hd, Option.map_some] at hstore
        obtain ⟨w₁, hw₁, hlist₁, -⟩ := hstore
        cases hw₁
        have hgetLast : (L b).data.getLast? = some e := by simp [hD]
        have hnext₁ : ∀ a, a ∉ (L b).data → LinkedList.write w.next e (some x) a = w.next a :=
          fun a ha => LinkedList.write_of_ne fun hae => ha (by simp [hD, hae])
        have hlwd : (w.buf b).last_with_datap = linkAfter b D := by
          rw [(h.shape b).last_with_datap, hD, List.dropLast_concat]
        have hfreeAll' := hS ▸ hfreeAll.symm
        by_cases hdata : c.data = []
        · refine ⟨(w.setNext e (some x)).inserted b x c.off, ?_, ?_⟩
          · simp [hgetLast, hskip, hload', appendChain, hlast, World.store, hd, hoff, hdata]
          · have hput : ((L b).put x c).data.dropLast = D := by simp [Chains.put, hdata, hD]
            obtain ⟨hinv, hframe⟩ := h.put (v := (w.setNext e (some x)).inserted b x c.off) hc
              hempty rfl (fun j hj => by simp [hj]) hnext₁ hfreeAll.symm
              (by simpa [hD] using hlist₁) (by simp) (by simp [hlwd, hput])
            exact ⟨hinv, hframe, hfreeAll', by simp⟩
        · refine ⟨((w.setNext e (some x)).setBuf b
            { w.buf b with last_with_datap := .next e }).inserted b x c.off, ?_, ?_⟩
          · simp [hgetLast, hskip, hload', appendChain, hlast, World.store, hd, hoff, hdata]
          · have hput : ((L b).put x c).data.dropLast = D ++ [e] := by
              simp [Chains.put, hdata, hD]
            obtain ⟨hinv, hframe⟩ := h.put (v := ((w.setNext e (some x)).setBuf b
                { w.buf b with last_with_datap := .next e }).inserted b x c.off) hc hempty rfl
              (fun j hj => by simp [hj]) hnext₁ hfreeAll.symm
              (by simpa [hD] using hlist₁) (by simp) (by simp [hput])
            exact ⟨hinv, hframe, hfreeAll', by simp⟩

/-- The spare chains are freed, and there is nothing behind the link that is returned. -/
theorem free_trailing_spec (h : Shape w b s) (hlen : s.all.length ≤ w.mallocs)
    (hnodup : s.all.Nodup) :
    ∃ w', evbuffer_free_trailing_empty_chains w b = some (w', linkAfter b s.data) ∧
      Chain w'.next (w'.buf b).first s.data ∧ w'.chain = (w.freeAll s.spare).chain ∧
      w'.toMalloc = w.toMalloc ∧ (∀ a, a ∉ s.data → w'.next a = w.next a) ∧
      (∀ j, j ≠ b → w'.buf j = w.buf j) ∧ (w'.buf b).toCounts = (w.buf b).toCounts ∧
      (w'.buf b).last_with_datap = (w.buf b).last_with_datap := by
  have hskip := h.skipData_lwd hlen
  have hlist := h.chain
  have hload := load_linkAfter (w := w) hlist h.data_live
  have hfree := h.freeVictims_spare hlen
  rw [evbuffer_free_trailing_empty_chains, hskip, Option.bind_some, hload, Option.bind_some]
  cases hS : s.spare with
  | nil =>
      refine ⟨w, rfl, ?_, ?_, rfl, fun _ _ => rfl, fun _ _ => rfl, rfl, rfl⟩
      · simpa [Chains.all, hS] using hlist
      · funext a
        rw [World.freeAll_of_not_mem (by simp)]
  | cons a S =>
      rw [hS] at hfree
      have hDS : ∀ d ∈ s.data, d ∉ a :: S := fun d hd hs =>
        (List.nodup_append.mp hnodup).2.2 d hd d (hS ▸ hs) rfl
      have hlive : ∀ d ∈ s.data, ∃ c, (w.freeAll (a :: S)).chain d = some c := by
        intro d hd
        obtain ⟨c, hc⟩ := h.data_live d hd
        exact ⟨c, (World.freeAll_of_not_mem (hDS d hd)).trans hc⟩
      have hlist' : Chain (w.freeAll (a :: S)).next ((w.freeAll (a :: S)).buf b).first
          (s.data ++ s.spare) := hlist
      obtain ⟨w₁, hstore, hlist₁, hchain₁, hmallocs₁, hnext₁, hbuf₁, hcounts₁, -, hlwd₁⟩ :=
        store_linkAfter hlist' hlive (p := none) (l := []) rfl (by simp)
      refine ⟨w₁, ?_, by simpa using hlist₁, hchain₁, hmallocs₁, hnext₁, hbuf₁, hcounts₁, hlwd₁⟩
      simp only [List.head?_cons] at hfree ⊢
      rw [hfree, Option.bind_some, hstore, Option.map_some]

end

end CppWorkspace.Libevent
