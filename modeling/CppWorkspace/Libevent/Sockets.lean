/-
# `CppWorkspace.Libevent.Sockets` — `evbuffer_read` and `evbuffer_write_atmost`

`_evbuffer_expand_fast` never moves bytes: it looks for room in the last chain with data and
the spare ones, and adds a chain or replaces the spare ones.  Up to two of the chains with
room are given to `WSARecv`, which may be fewer than there is room in; `evbuffer_read` then
puts `last_with_datap` to the last chain that got bytes.

The socket is a function: `recv n` is what `WSARecv` does with `n` bytes of room (`none`: it
fails), `send bs` how many of the bytes `WSASend` takes.
-/
import CppWorkspace.Libevent.Expanding

namespace CppWorkspace.Libevent

open LinkedList (Chain)

/-! ## The functions -/

/-- The loop of `_evbuffer_expand_fast`: whether there is enough room, how much of it, and in
how many chains.  An empty chain is realigned. -/
def fastLoop (lwd : Option Addr) (datlen n : Nat) :
    Nat → World → Option Addr → Nat → Nat → Option (World × Bool × Nat × Nat)
  | _, w, none, avail, used => some (w, false, avail, used)
  | 0, _, some _, _, _ => none
  | fuel + 1, w, some a, avail, used =>
      (w.chain a).bind fun c =>
        (if c.off ≠ 0 then
          -- the assertion says which chain that is
          if lwd = some a then
            some (w, avail + c.CHAIN_SPACE_LEN, if c.CHAIN_SPACE_LEN ≠ 0 then used + 1 else used)
          else none
        else some (w.setChain a c.evbuffer_chain_align, avail + c.buffer_len, used + 1)).bind
          fun (w, avail, used) =>
            if datlen ≤ avail then some (w, true, avail, used)
            else if used = n then some (w, false, avail, used)
            else fastLoop lwd datlen n fuel w (w.next a) avail used

/-- The chains from `p` on are freed; they are empty. -/
def freeEmpty : Nat → World → Option Addr → Option World
  | _, w, none => some w
  | 0, _, some _ => none
  | fuel + 1, w, some a =>
      (w.chain a).bind fun c =>
        if c.off ≠ 0 then none else freeEmpty fuel (w.mm_free a) (w.next a)

/-- `buf->last->next = tmp; buf->last = tmp`. -/
def addTail (w : World) (b : BufId) (size : Nat) : Option (World × Int) :=
  (evbuffer_chain_new w size).bind fun
    | (w, none) => some (w, -1)
    | (w, some x) =>
        (w.buf b).last.bind fun last => (w.store (some x) (.next last)).map fun w =>
          (w.setBuf b { w.buf b with last := some x }, 0)

/-- All empty chains are replaced by one. -/
def replaceTail (w : World) (b : BufId) (datlen : Nat) : Option (World × Int) :=
  (w.load (w.buf b).last_with_datap).bind fun p => p.bind fun a => (w.chain a).bind fun c =>
    if c.off = 0 then
      if (w.buf b).first = some a then
        (freeEmpty w.mallocs w (some a)).bind fun w =>
          (evbuffer_chain_new w datlen).map fun
            | (w, none) => (ZERO_CHAIN w b, -1)
            | (w, some x) =>
                (w.setBuf b
                  { w.buf b with
                    first := some x, last := some x, last_with_datap := .first b }, 0)
      else none
    else
      (freeEmpty w.mallocs w (w.next a)).bind fun w =>
        (evbuffer_chain_new w (datlen - c.CHAIN_SPACE_LEN)).map fun
          | (w, none) => ((w.setBuf b { w.buf b with last := some a }).setNext a none, -1)
          | (w, some x) => ((w.setNext a (some x)).setBuf b { w.buf b with last := some x }, 0)

def evbuffer_expand_fast (w : World) (b : BufId) (datlen n : Nat) : Option (World × Int) :=
  let insertNew := (evbuffer_chain_new w datlen).bind fun
    | (w, none) => some (w, (-1 : Int))
    | (w, some x) => (evbuffer_chain_insert w b x).map fun w => (w, 0)
  match (w.buf b).last with
  | none => insertNew
  | some a => (w.chain a).bind fun c =>
      if c.immutable then insertNew
      else
        (w.load (w.buf b).last_with_datap).bind fun p =>
          (fastLoop p datlen n w.mallocs w p 0 0).bind fun (w, done, avail, used) =>
            if done then some (w, 0)
            else if used < n then addTail w b (datlen - avail)
            else replaceTail w b datlen

/-- How many bytes of each chain are given to `WSARecv`. -/
def vecsLoop (w : World) : Nat → Option Addr → Nat → Option (List Nat)
  | 0, _, _ => some []
  | _ + 1, _, 0 => some []
  | n + 1, p, howmuch + 1 =>
      p.bind fun a => (w.chain a).bind fun c =>
        let avail := min c.CHAIN_SPACE_LEN (howmuch + 1)
        (vecsLoop w n (w.next a) (howmuch + 1 - avail)).map fun vecs => avail :: vecs

/-- `_evbuffer_read_setup_vecs` with two `vecs`, and the link of the first chain. -/
def evbuffer_read_setup_vecs (w : World) (b : BufId) (howmuch : Nat) :
    Option (Link × List Nat) :=
  (w.load (w.buf b).last_with_datap).bind fun p => p.bind fun a => (w.chain a).bind fun c =>
    let chainp := if c.CHAIN_SPACE_LEN = 0 then .next a else (w.buf b).last_with_datap
    (w.load chainp).bind fun p => (vecsLoop w 2 p howmuch).map fun vecs => (chainp, vecs)

/-- The bytes that are read are in the chains from `*chainp` on. -/
def fillLoop : Nat → World → BufId → Link → List UInt8 → Option World
  | 0, w, _, _, _ => some w
  | n + 1, w, b, chainp, bs =>
      (w.load chainp).bind fun p => p.bind fun a => (w.chain a).bind fun c =>
        if c.CHAIN_SPACE_LEN < bs.length then
          (c.append (bs.take c.CHAIN_SPACE_LEN)).bind fun c' =>
            fillLoop n (w.setChain a c') b (.next a) (bs.drop c.CHAIN_SPACE_LEN)
        else
          (c.append bs).map fun c' =>
            (w.setChain a c').setBuf b { w.buf b with last_with_datap := chainp }

def NUM_READ_IOVEC : Nat := 4

def EVBUFFER_MAX_READ : Nat := 4096

/-- How much `evbuffer_read` reads: `readable` is what `ioctlsocket` says. -/
def readSize (readable howmuch : Int) : Nat :=
  let n := if readable ≤ 0 ∨ EVBUFFER_MAX_READ < readable then (EVBUFFER_MAX_READ : Int) else readable
  (if howmuch < 0 ∨ n < howmuch then n else howmuch).toNat

/-- `WSARecv` and what follows. -/
def receive (w : World) (b : BufId) (howmuch : Nat) (recv : Nat → Option (List UInt8)) :
    Option (World × Int) :=
  (evbuffer_read_setup_vecs w b howmuch).bind fun (chainp, vecs) =>
    match recv vecs.sum with
    | none => some (w, -1)
    | some [] => some (w, 0)
    | some bs =>
        if vecs.sum < bs.length then none
        else
          (fillLoop vecs.length w b chainp bs).map fun w =>
            (evbuffer_invoke_callbacks (w.setCounts b ((w.buf b).added bs.length)) b,
              (bs.length : Int))

def evbuffer_read (w : World) (b : BufId) (readable howmuch : Int)
    (recv : Nat → Option (List UInt8)) : Option (World × Int) :=
  if (w.buf b).freeze_end then some (w, -1)
  else
    (evbuffer_expand_fast w b (readSize readable howmuch) NUM_READ_IOVEC).bind fun (w, r) =>
      if r = -1 then some (w, -1) else receive w b (readSize readable howmuch) recv

def NUM_WRITE_IOVEC : Nat := 16

/-- The bytes given to `WSASend`, chain by chain. -/
def iovLoop (w : World) : Nat → Option Addr → Nat → Option (List (List UInt8))
  | 0, _, _ => some []
  | _ + 1, none, _ => some []
  | _ + 1, some _, 0 => some []
  | n + 1, some a, howmuch + 1 =>
      (w.chain a).bind fun c =>
        if c.off ≤ howmuch + 1 then
          (iovLoop w n (w.next a) (howmuch + 1 - c.off)).map fun iov => c.data :: iov
        else some [c.data.take (howmuch + 1)]

def evbuffer_write_iovec (w : World) (b : BufId) (howmuch : Nat)
    (send : List UInt8 → Option Nat) : Option Int :=
  (iovLoop w NUM_WRITE_IOVEC (w.buf b).first howmuch).map fun iov =>
    if iov.length = 0 then 0 else ((send iov.flatten).map Int.ofNat).getD (-1)

def evbuffer_write_atmost (w : World) (b : BufId) (howmuch : Int)
    (send : List UInt8 → Option Nat) : Option (World × Int) :=
  if (w.buf b).freeze_start then some (w, -1)
  else
    let howmuch :=
      if howmuch < 0 ∨ (w.buf b).total_len < howmuch then (w.buf b).total_len else howmuch.toNat
    (if 0 < howmuch then evbuffer_write_iovec w b howmuch send else some (-1)).bind fun n =>
      if 0 < n then (evbuffer_drain w b n.toNat).map fun (w, _) => (w, n) else some (w, n)

section
variable {w w' : World} {L L' : BufId → Chains} {X : List Addr} {b j : BufId} {s : Chains}
  {a x y z : Addr} {c c' d : evbuffer_chain} {l D S s₁ s₂ : List Addr} {p lwd : Option Addr}
  {bs : List UInt8} {k : Counts} {n m fuel datlen avail used howmuch : Nat}
  {recv : Nat → Option (List UInt8)} {send : List UInt8 → Option Nat}

/-! ## The room behind the bytes -/

/-- The room in some chains. -/
def World.room (w : World) (l : List Addr) : Nat :=
  (l.map fun a => ((w.chain a).map (·.room)).getD 0).sum

theorem World.room_cons (h : w.chain a = some c) : w.room (a :: l) = c.room + w.room l := by
  simp [World.room, h]

theorem World.room_of_mem (hc : w.chain a = some c) (ha : a ∈ l) : c.room ≤ w.room l := by
  obtain ⟨l₁, l₂, rfl⟩ := List.append_of_mem ha
  rw [World.room, List.map_append, List.sum_append, List.map_cons, List.sum_cons, hc]
  exact Nat.le_add_left_of_le (Nat.le_add_right ..)

theorem World.room_append : w.room (s₁ ++ s₂) = w.room s₁ + w.room s₂ := by
  simp [World.room]

theorem World.room_congr (h : ∀ a ∈ l, w'.chain a = w.chain a) : w'.room l = w.room l := by
  rw [World.room, List.map_congr_left fun a ha => by rw [h a ha]]
  rfl

/-- The last chain with data, if there is one, and the spare ones. -/
def Chains.tail (s : Chains) : List Addr := s.data.getLast?.toList ++ s.spare

theorem Chains.mem_tail (h : a ∈ s.tail) : a ∈ s.all :=
  (List.mem_append.mp h).elim
    (fun ha => Chains.mem_data (List.mem_of_getLast? (Option.mem_toList.mp ha))) Chains.mem_spare

theorem Chains.tail_ne (h : s.all ≠ []) : s.tail ≠ [] := by
  rcases List.eq_nil_or_concat' s.data with hD | ⟨D, e, hD⟩
  · simpa [Chains.tail, Chains.all, hD] using h
  · simp [Chains.tail, hD]

theorem Chains.Next.mem_tail (h : s.Next a) : a ∈ s.tail :=
  h.elim (fun ha => List.mem_append_left _ (Option.mem_toList.mpr ha))
    fun ha => List.mem_append_right _ (List.mem_of_mem_head? ha)

theorem evbuffer_chain.Spare.align_eq (h : c.Spare) : c.evbuffer_chain_align = c := by
  obtain ⟨misalign, data, room, immutable, hroom⟩ := c
  obtain ⟨-, hmut, hmis, -⟩ := h
  simp only at hmut hmis
  subst hmis
  simp [evbuffer_chain_align, hmut]

/-- What is behind `last_with_datap`: the last chain with data may be full, a spare one not. -/
theorem Shape.tail_eq (h : Shape w b s) :
    w.load (w.buf b).last_with_datap = some s.tail.head? ∧
      Chain w.next s.tail.head? s.tail := by
  have hload := h.load_lwd
  have hlist := h.chain
  rw [Chains.all] at hlist
  rcases List.eq_nil_or_concat' s.data with hD | ⟨D, e, hD⟩
  · rw [hD] at hload hlist
    simp only [Chains.tail, hD, List.getLast?_nil, Option.toList_none, List.nil_append] at hload ⊢
    exact ⟨by simpa using hload, hlist.head ▸ hlist⟩
  · rw [hD] at hload hlist
    rw [List.append_assoc, List.singleton_append] at hlist
    have htail : s.tail = e :: s.spare := by simp [Chains.tail, hD]
    rw [htail]
    exact ⟨by simpa using hload, rfl, hlist.suffix⟩

theorem fastLoop_spec {m r u : Nat} (hlist : Chain w.next p l)
    (hl : ∀ a ∈ l, ∃ c, w.chain a = some c ∧ (c.Spare ∨ c.data ≠ [] ∧ lwd = some a))
    (hfuel : l.length ≤ fuel) :
    ∃ done avail' used', fastLoop lwd m n fuel w p r u =
        some (w, done, avail', used') ∧
      if done then m ≤ avail' ∧ avail' ≤ r + w.room l
      else used' < n → avail' = r + w.room l := by
  induction l generalizing p fuel r u with
  | nil =>
      obtain rfl : p = none := hlist
      refine ⟨false, r, u, ?_, ?_⟩
      · cases fuel <;> rfl
      · rw [if_neg Bool.false_ne_true]
        exact fun _ => rfl
  | cons a l ih =>
      obtain ⟨rfl, hrest⟩ := hlist
      obtain ⟨c, hc, hkind⟩ := hl a List.mem_cons_self
      cases fuel with
      | zero => cases hfuel
      | succ fuel =>
          obtain ⟨used₁, hstep⟩ : ∃ used₁, (if c.off ≠ 0 then
              if lwd = some a then
                some (w, r + c.CHAIN_SPACE_LEN,
                  if c.CHAIN_SPACE_LEN ≠ 0 then u + 1 else u)
              else none
            else some (w.setChain a c.evbuffer_chain_align, r + c.buffer_len, u + 1)) =
              some (w, r + c.room, used₁) := by
            rcases hkind with hsp | ⟨hne, hlwd⟩
            · have hoff : c.off = 0 := List.length_eq_zero_iff.mpr hsp.data
              have hself : w.setChain a c = w := by simp [World.setChain, ← hc]
              exact ⟨u + 1, by simp [hoff, hsp.align_eq, hself, hsp.len_eq]⟩
            · have hoff : c.off ≠ 0 := fun h0 => hne (List.length_eq_zero_iff.mp h0)
              exact ⟨_, by rw [if_pos hoff, if_pos hlwd, c.space_eq]⟩
          rw [World.room_cons hc, ← Nat.add_assoc, fastLoop, hc, Option.bind_some, hstep,
            Option.bind_some]
          dsimp only
          split
          · rename_i hle
            refine ⟨true, _, _, rfl, ?_⟩
            rw [if_pos rfl]
            exact ⟨hle, Nat.le_add_right ..⟩
          · split
            · rename_i hused
              refine ⟨false, _, _, rfl, ?_⟩
              rw [if_neg Bool.false_ne_true]
              exact fun hlt => absurd hused (Nat.ne_of_lt hlt)
            · exact ih hrest (fun d hd => hl d (List.mem_cons_of_mem a hd))
                (Nat.le_of_succ_le_succ hfuel)

/-! ## `_evbuffer_expand_fast` -/

theorem freeEmpty_eq (hlist : Chain w.next p l)
    (hempty : ∀ a ∈ l, ∃ c, w.chain a = some c ∧ c.data = []) (hfuel : l.length ≤ fuel) :
    freeEmpty fuel w p = some (w.freeAll l) := by
  induction l generalizing w p fuel with
  | nil =>
      obtain rfl : p = none := hlist
      cases fuel <;> simp [freeEmpty, World.freeAll]
  | cons a l ih =>
      have hnodup := hlist.nodup
      obtain ⟨rfl, hrest⟩ := hlist
      obtain ⟨ha, -⟩ := List.nodup_cons.mp hnodup
      obtain ⟨c, hc, hdata⟩ := hempty a List.mem_cons_self
      cases fuel with
      | zero => cases hfuel
      | succ fuel =>
          have hempty' : ∀ d ∈ l, ∃ c, (w.mm_free a).chain d = some c ∧ c.data = [] := by
            intro d hd
            rw [World.mm_free_of_ne _ (ne_of_mem_of_not_mem hd ha)]
            exact hempty d (List.mem_cons_of_mem a hd)
          have hih := ih (w := w.mm_free a) hrest hempty' (Nat.le_of_succ_le_succ hfuel)
          have hoff : c.off = 0 := List.length_eq_zero_iff.mpr hdata
          rw [freeEmpty, hc, Option.bind_some, if_neg (not_not.mpr hoff), hih]
          simp only [World.freeAll, World.mm_free, Option.some.injEq, World.mk.injEq, and_true,
            true_and]
          funext d
          rcases eq_or_ne d a with rfl | hd
          · simp
          · simp [hd]

/-- It does not matter whether chains are freed before the allocation or after it. -/
theorem chain_new_freeAll (hl : w.mallocs ∉ l) :
    evbuffer_chain_new (w.freeAll l) n =
      (evbuffer_chain_new w n).map fun (w, x) => (w.freeAll l, x) := by
  rw [evbuffer_chain_new, evbuffer_chain_new, Option.map_map]
  congr 1
  funext m
  show (if w.fails w.mallocs then _ else _) = _
  cases hfail : w.fails w.mallocs with
  | true => simp [World.freeAll]
  | false =>
      simp only [Bool.false_eq_true, if_false, Function.comp, Prod.mk.injEq, and_true,
        World.freeAll, World.setNext, World.setChain, World.mk.injEq, true_and]
      funext a
      rcases eq_or_ne a w.mallocs with rfl | ha
      · simp [hl]
      · simp [ha]

theorem World.Inv.cut {v : World} (h : w.Inv L X) (hmallocs : v.toMalloc = w.toMalloc)
    (hbuf : ∀ j, j ≠ b → v.buf j = w.buf j)
    (hnext : ∀ a, a ∉ (L b).data → v.next a = w.next a)
    (hchain : v.chain = (w.freeAll (L b).spare).chain)
    (hlist : Chain v.next (v.buf b).first (L b).data)
    (hlast : (v.buf b).last = (L b).data.getLast?)
    (hlwd : (v.buf b).last_with_datap = linkAfter b (L b).data.dropLast) :
    v.Inv (Function.update L b ⟨(L b).data, []⟩) X ∧
      Frame [b] w L v (Function.update L b ⟨(L b).data, []⟩) := by
  obtain ⟨hD, -, hDS⟩ := List.nodup_append.mp (h.nodup b)
  have hkeep : ∀ a, a ∉ (L b).spare → v.chain a = w.chain a := fun a ha => by
    rw [hchain, World.freeAll_of_not_mem ha]
  have hout : ∀ a ∈ (L b).data ++ X, a ∉ (L b).spare := fun a ha hs =>
    (List.mem_append.mp ha).elim (fun hd => hDS a hd a hs rfl)
      fun hx => (h.loose a hx).2 b (Chains.mem_spare hs)
  refine h.rearranged hmallocs hbuf (fun a ha => ?_) (fun a ha => ?_) ?_ (fun a ha hno => ?_)
    (fun a ha c hc => ?_) (fun a ha => ?_) ⟨?_, ?_, hlwd, fun a ha => ?_, by simp⟩
  · exact ⟨hkeep a fun hs => ha (List.mem_append_left _ (Chains.mem_spare hs)),
      hnext a fun hd => ha (List.mem_append_left _ (Chains.mem_data hd))⟩
  · rw [Chains.all_mk, List.append_nil] at ha
    exact (List.mem_append.mp ha).elim (fun hd => List.mem_append_left _ (Chains.mem_data hd))
      fun hx => List.mem_append_right _ hx
  · rw [Chains.all_mk, List.append_nil]
    exact List.nodup_append.mpr ⟨hD, h.loose_nodup, fun a ha d hd had =>
      (h.loose d hd).2 b (had ▸ Chains.mem_data ha)⟩
  · rw [Chains.all_mk, List.append_nil, List.mem_append, not_or] at hno
    have hs : a ∈ (L b).spare := ((List.mem_append.mp ha).resolve_right hno.2 |>
      List.mem_append.mp).resolve_left hno.1
    rw [hchain, World.freeAll_of_mem hs]
  · rw [Chains.all_mk, List.append_nil] at ha
    rw [hkeep a (hout a ha)] at hc
    exact (h.owned a c hc).2.1
  · rw [hkeep a (hout a (List.mem_append_right _ ha))]
    exact (h.loose a ha).1
  · simpa using hlist
  · simpa using hlast
  · rw [hkeep a (hout a (List.mem_append_left _ ha))]
    exact (h.shape b).data a ha

theorem addTail_spec (h : w.Inv L []) (hne : (L b).all ≠ []) (hlen : n ≤ maxLen) :
    (∃ w', addTail w b n = some (w', -1) ∧
      Becomes w L b w' L (w.bytes (L b).data) (w.buf b).toCounts ∧ w.OutOfMemory w') ∨
    ∃ w' L', addTail w b n = some (w', 0) ∧
      Becomes w L b w' L' (w.bytes (L b).data) (w.buf b).toCounts ∧
      w.room (L b).tail + n ≤ w'.room (L' b).tail ∧ (L' b).tail ≠ [] := by
  rcases chain_new_spec h hlen with
    ⟨w₁, hnew, hinv₁, hext, hfail⟩ | ⟨w₁, x, c, hnew, hinv₁, hext, hx⟩
  · exact .inl ⟨w₁, by rw [addTail, hnew, Option.bind_some], hext.becomes h hinv₁, hfail⟩
  · obtain ⟨l, e, hall⟩ := (List.eq_nil_or_concat' (L b).all).resolve_left hne
    have hxb : x ∉ (L b).all := (hinv₁.loose x List.mem_cons_self).2 b
    have hshape := hinv₁.shape b
    have hnodup := hinv₁.nodup b
    have hlast : (w₁.buf b).last = some e := by
      rw [hshape.last, hall, List.getLast?_concat]
    obtain ⟨d, hd⟩ := hinv₁.live (b := b) (a := e) (by simp [hall])
    have hxe : x ≠ e := fun hxe => hxb (by simp [hall, hxe])
    let w₂ := (w₁.setNext e (some x)).setBuf b { w₁.buf b with last := some x }
    have hput : (Chains.mk (L b).data ((L b).spare ++ [x])).all = (L b).all ++ [x] := by
      simp [Chains.all]
    have hold : ∀ a ∈ (L b).all, a ∈ (L b).all ++ [x] := fun a ha => List.mem_append_left _ ha
    obtain ⟨hinv, hframe⟩ := hinv₁.rearranged (b := b) (v := w₂)
      (s := ⟨(L b).data, (L b).spare ++ [x]⟩) (Y := []) rfl (fun j hj => by simp [w₂, hj])
      (fun a ha => ⟨rfl, World.setNext_of_ne _ fun hae => ha (by simp [hall, hae])⟩)
      (fun a ha => by rwa [hput, List.append_nil] at ha)
      (by
        rw [hput, List.append_nil]
        exact List.nodup_append.mpr ⟨hnodup, List.nodup_singleton x, fun a ha z hz haz =>
          hxb (List.mem_singleton.mp hz ▸ haz ▸ ha)⟩)
      (fun a ha hno => absurd ha (by rwa [hput, List.append_nil] at hno))
      (fun a _ c hc => (hinv₁.owned a c hc).2.1) (by simp)
      ⟨by
          rw [hput, hall, List.append_assoc, List.singleton_append]
          have hlist : Chain w₁.next (w₁.buf b).first (l ++ e :: []) := hall ▸ hshape.chain
          have hx₁ : Chain w₁.next (some x) [x] := ⟨rfl, hx.next⟩
          have hrelink := hlist.relink (hall ▸ hnodup) hx₁ (by simpa using hxe.symm)
          simpa [w₂, World.setNext] using hrelink,
        by simp [w₂, Chains.all], by simpa [w₂] using hshape.last_with_datap, hshape.data,
        fun a ha => (List.mem_append.mp ha).elim (hshape.spare a) fun ha => by
          obtain rfl := List.mem_singleton.mp ha
          exact ⟨c, hx.chain, hx.spare⟩⟩
    have hsame : ∀ a ∈ (L b).all, w₂.chain a = w.chain a := fun a ha => by
      obtain ⟨f, hf⟩ := h.live ha
      exact (hext.chain a f hf).trans hf.symm
    refine .inr ⟨w₂, _, ?_, ⟨hinv, (hext.frame h).trans hframe, ?_, ?_⟩, ?_⟩
    · simp [addTail, hnew, hlast, World.store, hd, w₂]
    · rw [Function.update_self]
      exact World.bytes_congr fun a ha => hsame a (Chains.mem_data ha)
    · simp [w₂, hext.buf]
    · have htail : (Chains.mk (L b).data ((L b).spare ++ [x])).tail = (L b).tail ++ [x] := by
        simp [Chains.tail]
      have hx₂ : w₂.chain x = some c := hx.chain
      have hroom : w₂.room (L b).tail = w.room (L b).tail :=
        World.room_congr fun a ha => hsame a (Chains.mem_tail ha)
      rw [Function.update_self, htail, World.room_append, hroom, World.room_cons hx₂]
      exact ⟨Nat.add_le_add_left (Nat.le_add_right_of_le hx.room) _, by simp⟩

/-- What comes of expanding the end of a buffer: there is room for `datlen` bytes behind the
others, or, out of memory, there is not. -/
def Expands (w : World) (L : BufId → Chains) (b : BufId) (datlen : Nat)
    (o : Option (World × Int)) : Prop :=
  (∃ w' L', o = some (w', -1) ∧
    Becomes w L b w' L' (w.bytes (L b).data) (w.buf b).toCounts ∧ w.OutOfMemory w') ∨
  ∃ w' L', o = some (w', 0) ∧
    Becomes w L b w' L' (w.bytes (L b).data) (w.buf b).toCounts ∧
    datlen ≤ w'.room (L' b).tail ∧ (L' b).tail ≠ []

/-- All chains are spare. -/
theorem replaceTail_spare (h : w.Inv L []) (hcount : Counted w L b) (hne : (L b).all ≠ [])
    (hD : (L b).data = []) (hlen : datlen ≤ maxLen) :
    Expands w L b datlen (replaceTail w b datlen) := by
  obtain ⟨hload, -⟩ := (h.shape b).tail_eq
  obtain ⟨a, S, hS⟩ := List.exists_cons_of_ne_nil (l := (L b).spare) fun hS =>
    hne (by simp [Chains.all, hD, hS])
  have hlist : Chain w.next (w.buf b).first (L b).spare := by
    simpa [Chains.all, hD] using (h.shape b).chain
  have hfirst : (w.buf b).first = some a := by
    rw [hlist.head, hS]
    rfl
  have htotal : (w.buf b).total_len = 0 := by
    rw [hcount, hD]
    rfl
  obtain ⟨c, hc, hdata⟩ := h.spare_data b a (by simp [hS])
  have hfree : freeEmpty w.mallocs w (some a) = some (w.freeAll (L b).spare) :=
    freeEmpty_eq (hfirst ▸ hlist) (h.spare_data b) (by simpa [Chains.all, hD] using h.length_le b)
  have heq : replaceTail w b datlen = (evbuffer_chain_new w datlen).map fun
      | (w, none) => (ZERO_CHAIN (w.freeAll (L b).spare) b, -1)
      | (w, some x) =>
          ((w.freeAll (L b).spare).setBuf b
            { w.buf b with first := some x, last := some x, last_with_datap := .first b }, 0) := by
    have hoff : c.off = 0 := List.length_eq_zero_iff.mpr hdata
    rw [replaceTail, hload]
    simp only [Chains.tail, hD, List.getLast?_nil, Option.toList_none, List.nil_append, hS,
      List.head?_cons, Option.bind_some, hc, hoff, if_true, hfirst]
    rw [hfree, Option.bind_some, chain_new_freeAll h.mallocs_notMem_spare,
      Option.map_map, hS]
    congr 1
    funext p
    obtain ⟨w₁, x⟩ := p
    cases x <;> rfl
  rw [heq]
  rcases chain_new_spec h hlen with
    ⟨w₁, hnew₁, hinv₁, hext, hfail⟩ | ⟨w₁, x, c, hnew₁, hinv₁, hext, hx⟩
  · let w₂ := ZERO_CHAIN (w₁.freeAll (L b).spare) b
    obtain ⟨hinv, hframe⟩ := hinv₁.cut (b := b) (v := w₂) rfl
      (fun j hj => by simp [w₂, ZERO_CHAIN, hj]) (fun _ _ => rfl) rfl
      (by simp [w₂, ZERO_CHAIN, hD, LinkedList.Chain]) (by simp [w₂, ZERO_CHAIN, hD])
      (by simp [w₂, ZERO_CHAIN, hD])
    refine .inl ⟨w₂, _, by rw [hnew₁, Option.map_some], ⟨hinv, (hext.frame h).trans hframe, ?_,
      ?_⟩, hfail⟩
    · rw [Function.update_self]
      exact World.bytes_congr (hext.freeAll_spare h)
    · simp only [w₂, ZERO_CHAIN, World.setBuf_self, World.freeAll_buf, hext.buf, ← htotal]
  · let w₂ := (w₁.freeAll (L b).spare).setBuf b
      { w₁.buf b with first := some x, last := some x, last_with_datap := .first b }
    have hput : (L b).put x c = ⟨(L b).data, [x]⟩ := if_pos hx.spare.data
    obtain ⟨hinv, hframe⟩ := hinv₁.put (b := b) (v := w₂) hx.chain (fun _ => hx.spare) rfl
      (fun j hj => by simp [w₂, hj]) (fun _ _ => rfl) rfl
      (by
        have hx₁ : Chain w₁.next (some x) [x] := ⟨rfl, hx.next⟩
        simpa [w₂, hD] using hx₁)
      (by simp [w₂]) (by simp [w₂, hput, hD])
    rw [hput] at hinv hframe
    have hxb : x ∉ (L b).all := (hinv₁.loose x List.mem_cons_self).2 b
    refine .inr ⟨w₂, _, by rw [hnew₁, Option.map_some], ⟨hinv, (hext.frame h).trans hframe, ?_,
      ?_⟩, ?_⟩
    · rw [Function.update_self]
      exact World.bytes_congr (hext.freeAll_spare h)
    · simp [w₂, hext.buf]
    · have hx₂ : w₂.chain x = some c :=
        (World.freeAll_of_not_mem fun hs => hxb (Chains.mem_spare hs)).trans hx.chain
      have htail : (Chains.mk (L b).data [x]).tail = [x] := by simp [Chains.tail, hD]
      rw [Function.update_self, htail, World.room_cons hx₂]
      exact ⟨Nat.le_add_right_of_le hx.room, List.cons_ne_nil _ _⟩

/-- The spare chains are behind `e`. -/
theorem replaceTail_behind {e : Addr} (h : w.Inv L []) (hD : (L b).data = D ++ [e])
    (hlen : datlen ≤ maxLen) : Expands w L b datlen (replaceTail w b datlen) := by
  obtain ⟨hload, -⟩ := (h.shape b).tail_eq
  have hcut : (L b).all = D ++ e :: (L b).spare := by simp [Chains.all, hD]
  obtain ⟨c, hc, hdata⟩ := (h.shape b).data e (by simp [hD])
  have hlist : Chain w.next (w.buf b).first (D ++ e :: (L b).spare) := hcut ▸ (h.shape b).chain
  have hnodup : (D ++ e :: (L b).spare).Nodup := hcut ▸ h.nodup b
  have hDe : (D ++ [e]).Nodup := hD ▸ (List.nodup_append.mp (h.nodup b)).1
  have hfree : freeEmpty w.mallocs w (w.next e) = some (w.freeAll (L b).spare) :=
    freeEmpty_eq hlist.suffix (h.spare_data b) (by
      have hfuel := h.length_le b
      rw [hcut, List.length_append, List.length_cons] at hfuel
      omega)
  have heq : replaceTail w b datlen = (evbuffer_chain_new w (datlen - c.room)).map fun
      | (w, none) =>
          (((w.freeAll (L b).spare).setBuf b { w.buf b with last := some e }).setNext e none, -1)
      | (w, some x) =>
          (((w.freeAll (L b).spare).setNext e (some x)).setBuf b
            { w.buf b with last := some x }, 0) := by
    have hoff : c.off ≠ 0 := fun h0 => hdata (List.length_eq_zero_iff.mp h0)
    rw [replaceTail, hload]
    simp only [Chains.tail, hD, List.getLast?_concat, Option.toList_some, List.singleton_append,
      List.head?_cons, Option.bind_some, hc, hoff, if_false, evbuffer_chain.space_eq]
    rw [hfree, Option.bind_some, chain_new_freeAll h.mallocs_notMem_spare,
      Option.map_map]
    congr 1
    funext p
    obtain ⟨w₁, x⟩ := p
    cases x <;> rfl
  rw [heq]
  rcases chain_new_spec (n := datlen - c.room) h (by omega) with
    ⟨w₁, hnew₁, hinv₁, hext, hfail⟩ | ⟨w₁, x, d, hnew₁, hinv₁, hext, hx⟩
  · have hlist₁ : Chain w₁.next (w₁.buf b).first (D ++ e :: (L b).spare) :=
      hcut ▸ (hinv₁.shape b).chain
    let w₂ := ((w₁.freeAll (L b).spare).setBuf b { w₁.buf b with last := some e }).setNext e none
    have hlist₂ : Chain w₂.next (w₂.buf b).first (D ++ [e]) := by
      simpa [w₂, World.setNext] using hlist₁.relink hDe (v := none) (l := []) rfl (by simp)
    obtain ⟨hinv, hframe⟩ := hinv₁.cut (b := b) (v := w₂) rfl (fun j hj => by simp [w₂, hj])
      (fun a ha => World.setNext_of_ne _ fun hae => ha (by simp [hD, hae])) rfl (hD ▸ hlist₂)
      (by simp [w₂, hD]) (by simpa [w₂] using (hinv₁.shape b).last_with_datap)
    refine .inl ⟨w₂, _, by rw [hnew₁, Option.map_some], ⟨hinv, (hext.frame h).trans hframe, ?_,
      ?_⟩, hfail⟩
    · rw [Function.update_self]
      exact World.bytes_congr (hext.freeAll_spare h)
    · simp [w₂, hext.buf]
  · have hlist₁ : Chain w₁.next (w₁.buf b).first (D ++ e :: (L b).spare) :=
      hcut ▸ (hinv₁.shape b).chain
    have hxb : x ∉ (L b).all := (hinv₁.loose x List.mem_cons_self).2 b
    have hxe : x ≠ e := fun hxe => hxb (by simp [hcut, hxe])
    let w₂ := ((w₁.freeAll (L b).spare).setNext e (some x)).setBuf b
      { w₁.buf b with last := some x }
    have hx₁ : Chain w₁.next (some x) [x] := ⟨rfl, hx.next⟩
    have hlist₂ : Chain w₂.next (w₂.buf b).first (D ++ [e] ++ [x]) := by
      simpa [w₂, World.setNext] using hlist₁.relink hDe hx₁ (by simpa using hxe.symm)
    have hput : (L b).put x d = ⟨(L b).data, [x]⟩ := if_pos hx.spare.data
    obtain ⟨hinv, hframe⟩ := hinv₁.put (b := b) (v := w₂) hx.chain (fun _ => hx.spare) rfl
      (fun j hj => by simp [w₂, hj])
      (fun a ha => World.setNext_of_ne _ fun hae => ha (by simp [hD, hae])) rfl (hD ▸ hlist₂)
      (by simp [w₂]) (by simpa [w₂, hput] using (hinv₁.shape b).last_with_datap)
    rw [hput] at hinv hframe
    refine .inr ⟨w₂, _, by rw [hnew₁, Option.map_some], ⟨hinv, (hext.frame h).trans hframe, ?_,
      ?_⟩, ?_⟩
    · rw [Function.update_self]
      exact World.bytes_congr (hext.freeAll_spare h)
    · simp [w₂, hext.buf]
    · have hx₂ : w₂.chain x = some d :=
        (World.freeAll_of_not_mem fun hs => hxb (Chains.mem_spare hs)).trans hx.chain
      have he₂ : w₂.chain e = some c := (hext.freeAll_spare h e (by simp [hD])).trans hc
      have htail : (Chains.mk (L b).data [x]).tail = [e, x] := by simp [Chains.tail, hD]
      have hroom := hx.room
      rw [Function.update_self, htail, World.room_cons he₂, World.room_cons hx₂]
      exact ⟨by omega, List.cons_ne_nil _ _⟩

/-- There is one spare chain in the end, or, out of memory, none. -/
theorem replaceTail_spec (h : w.Inv L []) (hcount : Counted w L b) (hne : (L b).all ≠ [])
    (hlen : datlen ≤ maxLen) : Expands w L b datlen (replaceTail w b datlen) := by
  rcases List.eq_nil_or_concat' (L b).data with hD | ⟨D, e, hD⟩
  · exact replaceTail_spare h hcount hne hD hlen
  · exact replaceTail_behind h hD hlen

/-- There is room for `datlen` bytes behind the others; only the spare chains have changed. -/
theorem expand_fast_spec (h : w.Inv L []) (hcount : Counted w L b) (hlen : datlen ≤ maxLen) :
    Expands w L b datlen (evbuffer_expand_fast w b datlen n) := by
  have hinsert : ((evbuffer_chain_new w datlen).bind fun
      | (w, none) => some (w, (-1 : Int))
      | (w, some x) => (evbuffer_chain_insert w b x).map fun w => (w, 0)) =
      (evbuffer_chain_insert_new w b datlen).map fun (w, x) =>
        (w, if x.isSome then 0 else -1) := by
    rw [evbuffer_chain_insert_new, Option.map_bind]
    congr 1
    funext p
    obtain ⟨w₁, x⟩ := p
    cases x with
    | none => rfl
    | some x =>
        simp only [Function.comp, Option.map_map]
        rfl
  have hnew : Expands w L b datlen ((evbuffer_chain_insert_new w b datlen).map fun (w, x) =>
      (w, if x.isSome then (0 : Int) else -1)) := by
    rcases insert_new_spec (b := b) h hlen with
      ⟨w₁, hnew, hsame, hmem⟩ | ⟨w₁, L₁, x, c, hnew, hsame, hroom⟩
    · exact .inl ⟨w₁, L, by rw [hnew, Option.map_some]; rfl, hsame, hmem⟩
    · refine .inr ⟨w₁, L₁, by rw [hnew, Option.map_some]; rfl, hsame, ?_⟩
      have hmem := hroom.place.mem_tail
      exact ⟨Nat.le_trans hroom.room (World.room_of_mem hroom.chain hmem), List.ne_nil_of_mem hmem⟩
  simp only [evbuffer_expand_fast, hinsert]
  cases hlast : (w.buf b).last with
  | none => exact hnew
  | some e =>
      have hlast' : (L b).all.getLast? = some e := (h.shape b).last.symm.trans hlast
      have hne : (L b).all ≠ [] := fun hnil => by simp [hnil] at hlast'
      obtain ⟨c, hc⟩ := h.live (List.mem_of_getLast? hlast')
      by_cases himm : c.immutable = true
      · simpa only [hc, Option.bind_some, himm, if_true] using hnew
      · obtain ⟨hload, hlist⟩ := (h.shape b).tail_eq
        have hkinds : ∀ a ∈ (L b).tail, ∃ c, w.chain a = some c ∧
            (c.Spare ∨ c.data ≠ [] ∧ (L b).tail.head? = some a) := by
          intro a ha
          rcases List.mem_append.mp ha with ha | ha
          · have ha := Option.mem_toList.mp ha
            obtain ⟨d, hd, hdata⟩ := (h.shape b).data a (List.mem_of_getLast? ha)
            refine ⟨d, hd, .inr ⟨hdata, ?_⟩⟩
            rw [Chains.tail, Option.mem_def.mp ha]
            rfl
          · obtain ⟨d, hd, hsp⟩ := (h.shape b).spare a ha
            exact ⟨d, hd, .inl hsp⟩
        have hfuel : (L b).tail.length ≤ w.mallocs := by
          refine Nat.le_trans ?_ (h.length_le b)
          rw [Chains.tail, Chains.all, List.length_append, List.length_append]
          refine Nat.add_le_add_right ?_ _
          rcases List.eq_nil_or_concat' (L b).data with hD | ⟨D, d, hD⟩ <;> simp [hD]
        obtain ⟨done, avail, used, hloop, hpost⟩ :=
          fastLoop_spec (m := datlen) (n := n) (r := 0) (u := 0) hlist hkinds hfuel
        simp only [hc, Option.bind_some, himm, hload, hloop]
        cases done with
        | true =>
            obtain ⟨hle, havail⟩ := hpost
            exact .inr ⟨w, L, rfl, .refl h, by omega, Chains.tail_ne hne⟩
        | false =>
            simp only [Bool.false_eq_true, if_false]
            split
            · rename_i hused
              have havail := hpost hused
              rcases addTail_spec (b := b) (n := datlen - avail) h hne (by omega) with
                ⟨w', hadd, hsame, hmem⟩ | ⟨w', L', hadd, hsame, hroom⟩
              · exact .inl ⟨w', L, hadd, hsame, hmem⟩
              · exact .inr ⟨w', L', hadd, hsame, by omega, hroom.2⟩
            · exact replaceTail_spec h hcount hne hlen

/-! ## `evbuffer_read` -/

/-- `U` are the chains with room, all but the first without data; before them is `pre`. -/
structure Usable (w : World) (s : Chains) (pre U : List Addr) : Prop where
  all : s.all = pre ++ U
  data : pre = s.data ∨ ∃ e, s.data = pre ++ [e]
  room : ∀ a ∈ U, ∃ c, w.chain a = some c ∧ 0 < c.room
  empty : ∀ a ∈ U.tail, ∃ c, w.chain a = some c ∧ c.data = []

theorem vecsLoop_spec {q : Nat} (hlist : Chain w.next p l)
    (hl : ∀ a ∈ l, ∃ c, w.chain a = some c ∧ 0 < c.room) (hroom : q ≤ w.room l) :
    ∃ vecs, vecsLoop w n p q = some vecs ∧ vecs.sum ≤ q ∧
      vecs.sum ≤ w.room (l.take vecs.length) ∧ (0 < n → 0 < q → 0 < vecs.sum) := by
  induction n generalizing p l q with
  | zero => exact ⟨[], by simp [vecsLoop]⟩
  | succ n ih =>
      cases q with
      | zero => exact ⟨[], by simp [vecsLoop]⟩
      | succ q =>
          cases l with
          | nil => exact absurd hroom (by simp [World.room])
          | cons a l =>
              obtain ⟨rfl, hrest⟩ := hlist
              obtain ⟨c, hc, hpos⟩ := hl a List.mem_cons_self
              rw [World.room_cons hc] at hroom
              obtain ⟨vecs, hvecs, hsum, htake, -⟩ := ih
                (q := q + 1 - min c.room (q + 1)) hrest
                (fun d hd => hl d (List.mem_cons_of_mem a hd)) (by omega)
              refine ⟨min c.room (q + 1) :: vecs, ?_, ?_, ?_, fun _ _ => ?_⟩
              · simp [vecsLoop, hc, hvecs]
              · rw [List.sum_cons]
                omega
              · rw [List.length_cons, List.take_succ_cons, World.room_cons hc, List.sum_cons]
                omega
              · rw [List.sum_cons]
                omega

/-- What is read goes into the chains that have room, one after the other. -/
theorem fillLoop_spec {S : List Addr} {t : List UInt8}
    (hlist : Chain w.next (w.buf b).first (S ++ l))
    (hlive : ∀ a ∈ S, ∃ c, w.chain a = some c)
    (hl : ∀ a ∈ l, ∃ c, w.chain a = some c ∧ 0 < c.room)
    (hempty : ∀ a ∈ l.tail, ∃ c, w.chain a = some c ∧ c.data = [])
    (hbs : t ≠ []) (hfit : t.length ≤ w.room (l.take n)) :
    ∃ l₁ l₂ w', l = l₁ ++ l₂ ∧ l₁ ≠ [] ∧ fillLoop n w b (linkAfter b S) t = some w' ∧
      w'.toMalloc = w.toMalloc ∧ w'.next = w.next ∧ (∀ j, j ≠ b → w'.buf j = w.buf j) ∧
      w'.buf b = { w.buf b with last_with_datap := linkAfter b (S ++ l₁).dropLast } ∧
      (∀ a, a ∉ l₁ → w'.chain a = w.chain a) ∧
      (∀ a ∈ l₁, ∃ c c', w.chain a = some c ∧ w'.chain a = some c' ∧ c'.data ≠ [] ∧
        c'.buffer_len = c.buffer_len) ∧
      w'.bytes l₁ = w.bytes l₁ ++ t := by
  induction n generalizing w S l t with
  | zero => exact absurd (List.length_eq_zero_iff.mp (Nat.le_zero.mp hfit)) hbs
  | succ n ih =>
      cases l with
      | nil => exact absurd (List.length_eq_zero_iff.mp (Nat.le_zero.mp hfit)) hbs
      | cons a l =>
          obtain ⟨c, hc, hpos⟩ := hl a List.mem_cons_self
          have hload : w.load (linkAfter b S) = some (some a) := load_linkAfter hlist hlive
          rw [List.take_succ_cons, World.room_cons hc] at hfit
          simp only [fillLoop, hload, Option.bind_some, hc, evbuffer_chain.space_eq]
          split
          · -- the chain is full after this
            rename_i hlt
            have hlen : (t.take c.room).length = c.room := List.length_take_of_le (Nat.le_of_lt hlt)
            obtain ⟨c', hc', happend⟩ := evbuffer_chain.append_of_le (Nat.le_of_eq hlen)
            have hal : a ∉ l := by
              have hnodup := hlist.nodup
              exact (List.nodup_cons.mp (List.nodup_append.mp hnodup).2.1).1
            have hsame : ∀ d ∈ l, (w.setChain a c').chain d = w.chain d := fun d hd =>
              World.setChain_of_ne _ (ne_of_mem_of_not_mem hd hal)
            obtain ⟨l₁, l₂, w', rfl, hne, hfill, hmal, hnext, hbuf, hself, hout, hin, hbytes⟩ :=
              ih (w := w.setChain a c') (S := S ++ [a]) (l := l) (t := t.drop c.room)
                (by simpa using hlist)
                (fun d hd => by
                  rcases eq_or_ne d a with rfl | hda
                  · exact ⟨c', World.setChain_self ..⟩
                  · rw [World.setChain_of_ne _ hda]
                    exact hlive d ((List.mem_append.mp hd).resolve_right (by simpa using hda)))
                (fun d hd => hsame d hd ▸ hl d (List.mem_cons_of_mem a hd))
                (fun d hd => hsame d (List.mem_of_mem_tail hd) ▸ hempty d (List.mem_of_mem_tail hd))
                (fun hnil => by
                  have hle := List.drop_eq_nil_iff.mp hnil
                  omega)
                (by
                  rw [World.room_congr fun d hd => hsame d (List.mem_of_mem_take hd),
                    List.length_drop]
                  omega)
            have ha : a ∉ l₁ := fun hm => hal (List.mem_append_left _ hm)
            refine ⟨a :: l₁, l₂, w', rfl, List.cons_ne_nil _ _, ?_, hmal, hnext, hbuf, ?_,
              fun d hd => ?_, fun d hd => ?_, ?_⟩
            · rw [hc', Option.bind_some, ← linkAfter_concat (l := S), hfill]
            · simpa using hself
            · rw [hout d fun hm => hd (List.mem_cons_of_mem a hm),
                World.setChain_of_ne _ fun hda : d = a => hd (by simp [hda])]
            · rcases List.mem_cons.mp hd with rfl | hd
              · refine ⟨c, c', hc, (hout d ha).trans (World.setChain_self ..), ?_, happend.len⟩
                rw [happend.data]
                refine List.append_ne_nil_of_right_ne_nil _ fun hnil => ?_
                rw [hnil] at hlen
                exact Nat.ne_of_gt hpos hlen.symm
              · obtain ⟨f, f', hf, hrest⟩ := hin d hd
                exact ⟨f, f', (hsame d (List.mem_append_left _ hd)).symm.trans hf, hrest⟩
            · -- the chains behind `a` have no data yet
              have hnone : w.bytes l₁ = [] := World.bytes_empty fun d hd =>
                hempty d (List.mem_append_left _ hd)
              have hnone' : (w.setChain a c').bytes l₁ = [] :=
                (World.bytes_congr fun d hd => hsame d (List.mem_append_left _ hd)).trans hnone
              rw [World.bytes_cons ((hout a ha).trans (World.setChain_self ..)), hbytes,
                World.bytes_cons hc, hnone, hnone', happend.data]
              simp
          · rename_i hle
            obtain ⟨c', hc', happend⟩ := evbuffer_chain.append_of_le (Nat.le_of_not_lt hle)
            refine ⟨[a], l, (w.setChain a c').setBuf b
              { w.buf b with last_with_datap := linkAfter b S }, rfl, by simp, ?_, rfl, rfl,
              fun j hj => by simp [hj], by simp, fun d hd => ?_, fun d hd => ?_, ?_⟩
            · rw [hc', Option.map_some]
            · exact World.setChain_of_ne _ (by simpa using hd)
            · obtain rfl := List.mem_singleton.mp hd
              refine ⟨c, c', hc, World.setChain_self .., ?_, happend.len⟩
              rw [happend.data]
              exact List.append_ne_nil_of_right_ne_nil _ hbs
            · have ha : ((w.setChain a c').setBuf b
                  { w.buf b with last_with_datap := linkAfter b S }).chain a = some c' :=
                World.setChain_self ..
              rw [World.bytes_cons ha, World.bytes_cons hc, happend.data]
              simp

theorem setup_vecs_spec (h : Shape w b s) (hroom : n ≤ w.room s.tail) (hne : s.tail ≠ []) :
    ∃ pre U vecs, Usable w s pre U ∧
      evbuffer_read_setup_vecs w b n = some (linkAfter b pre, vecs) ∧ vecs.sum ≤ n ∧
      vecs.sum ≤ w.room (U.take vecs.length) ∧ (0 < n → 0 < vecs.sum) := by
  obtain ⟨hload, -⟩ := h.tail_eq
  have hlwd := h.last_with_datap
  have hspare : ∀ a ∈ s.spare, ∃ c, w.chain a = some c ∧ 0 < c.room := fun a ha => by
    obtain ⟨c, hc, hsp⟩ := h.spare a ha
    exact ⟨c, hc, hsp.room⟩
  have hempty : ∀ a ∈ s.spare, ∃ c, w.chain a = some c ∧ c.data = [] := fun a ha => by
    obtain ⟨c, hc, hsp⟩ := h.spare a ha
    exact ⟨c, hc, hsp.data⟩
  -- once it is known where the room begins
  have hdone : ∀ {P U : List Addr} {e : Addr} {c : evbuffer_chain}, Usable w s P U →
      s.tail.head? = some e → w.chain e = some c →
      (if c.CHAIN_SPACE_LEN = 0 then .next e else (w.buf b).last_with_datap) = linkAfter b P →
      n ≤ w.room U →
      ∃ pre U vecs, Usable w s pre U ∧
        evbuffer_read_setup_vecs w b n = some (linkAfter b pre, vecs) ∧ vecs.sum ≤ n ∧
        vecs.sum ≤ w.room (U.take vecs.length) ∧ (0 < n → 0 < vecs.sum) := by
    intro P U e c husable hhead hc hlink hle
    have hlist : Chain w.next (w.buf b).first (P ++ U) := husable.all ▸ h.chain
    have hpre : ∀ a ∈ P, ∃ c, w.chain a = some c := fun a ha => h.data_live a (by
      rcases husable.data with rfl | ⟨e, he⟩
      · exact ha
      · exact he ▸ List.mem_append_left _ ha)
    obtain ⟨vecs, hvecs, hsum, htake, hpos⟩ :=
      vecsLoop_spec (n := 2) (Chain.after hlist) husable.room hle
    refine ⟨P, U, vecs, husable, ?_, hsum, htake, hpos (by omega)⟩
    simp only [evbuffer_read_setup_vecs, hload, hhead, Option.bind_some, hc, hlink,
      load_linkAfter hlist hpre, hvecs, Option.map_some]
  rcases List.eq_nil_or_concat' s.data with hD | ⟨D, e, hD⟩
  · have htail : s.tail = s.spare := by simp [Chains.tail, hD]
    obtain ⟨e, S, hS⟩ := List.exists_cons_of_ne_nil (htail ▸ hne)
    obtain ⟨c, hc, hpos⟩ := hspare e (by simp [hS])
    refine hdone (P := []) (U := s.spare) (e := e) (c := c)
      ⟨by simp [Chains.all, hD], .inl hD.symm, hspare, fun a ha => hempty a (List.mem_of_mem_tail ha)⟩
      (by simp [htail, hS]) hc ?_ (htail ▸ hroom)
    rw [c.space_eq, if_neg (Nat.ne_of_gt hpos), hlwd, hD]
    rfl
  · have htail : s.tail = e :: s.spare := by simp [Chains.tail, hD]
    obtain ⟨c, hc, -⟩ := h.data e (by simp [hD])
    rw [htail, World.room_cons hc] at hroom
    rcases Nat.eq_zero_or_pos c.room with hfull | hpos
    · refine hdone (P := s.data) (U := s.spare) (e := e) (c := c)
        ⟨rfl, .inl rfl, hspare, fun a ha => hempty a (List.mem_of_mem_tail ha)⟩ (by simp [htail]) hc
        ?_ (by omega)
      rw [c.space_eq, if_pos hfull, hD, linkAfter_concat]
    · refine hdone (P := D) (U := e :: s.spare) (e := e) (c := c)
        ⟨by simp [Chains.all, hD], .inr ⟨e, hD⟩, fun a ha => ?_, hempty⟩ (by simp [htail]) hc ?_
        (by rwa [World.room_cons hc])
      · rcases List.mem_cons.mp ha with rfl | ha
        · exact ⟨c, hc, hpos⟩
        · exact hspare a ha
      · rw [c.space_eq, if_neg (Nat.ne_of_gt hpos), hlwd, hD, List.dropLast_concat]

/-- The chains that are filled are the last one with data and some spare ones. -/
theorem Usable.filled (h : Usable w s D (s₁ ++ s₂)) (hne : s₁ ≠ []) :
    ∃ l, s.spare = l ++ s₂ ∧ s.data ++ l = D ++ s₁ := by
  have hall := h.all
  rw [Chains.all] at hall
  rcases h.data with rfl | ⟨e, he⟩
  · exact ⟨s₁, List.append_cancel_left hall, rfl⟩
  · obtain ⟨a, l, rfl⟩ := List.exists_cons_of_ne_nil hne
    rw [he, List.append_assoc, List.singleton_append, List.cons_append] at hall
    obtain ⟨rfl, hspare⟩ := List.cons.inj (List.append_cancel_left hall)
    exact ⟨l, hspare, by simp [he]⟩

theorem receive_spec {r : Nat → Option (List UInt8)} (h : w.Inv L [])
    (hroom : n ≤ w.room (L b).tail) (hne : (L b).tail ≠ []) :
    ∃ cap, cap ≤ n ∧ (0 < n → 0 < cap) ∧
      match r cap with
      | none => receive w b n r = some (w, -1)
      | some bs => bs.length ≤ cap →
          if bs = [] then receive w b n r = some (w, 0)
          else ∃ w' L', receive w b n r = some (w', (bs.length : Int)) ∧
            Becomes w L b w' L' (w.bytes (L b).data ++ bs)
              ((w.buf b).added bs.length).evbuffer_run_callbacks := by
  obtain ⟨pre, U, vecs, husable, hsetup, hsum, htake, hpos⟩ := setup_vecs_spec (h.shape b) hroom hne
  refine ⟨vecs.sum, hsum, hpos, ?_⟩
  cases hrecv : r vecs.sum with
  | none => simp [receive, hsetup, hrecv]
  | some bs =>
      intro hle
      cases bs with
      | nil => simp [receive, hsetup, hrecv]
      | cons y ys =>
          rw [if_neg (List.cons_ne_nil y ys)]
          have hlist : Chain w.next (w.buf b).first (pre ++ U) := husable.all ▸ (h.shape b).chain
          have hall : ∀ a ∈ pre ++ U, ∃ c, w.chain a = some c := fun a ha =>
            h.live (husable.all ▸ ha)
          obtain ⟨l₁, l₂, w₁, hU, hl₁, hfill, hmal, hnext, hbuf, hself, hout, hin, hbytes⟩ :=
            fillLoop_spec hlist (fun a ha => hall a (List.mem_append_left _ ha)) husable.room
              husable.empty (List.cons_ne_nil y ys) (Nat.le_trans hle htake)
          rw [hU] at husable
          obtain ⟨s₁, hspare, hdata⟩ := husable.filled hl₁
          obtain ⟨hinv, hframe⟩ := h.fill (b := b) (D := (L b).data) (S := s₁) (T := l₂) (v := w₁)
            (by rw [← hspare]) hmal hnext hbuf (by rw [hself]) (by rw [hself])
            (by rw [hself, hdata])
            (fun a ha => hout a fun hm => ha (hdata ▸ List.mem_append_right _ hm))
            (fun a ha => by
              rw [hdata] at ha
              by_cases hm : a ∈ l₁
              · obtain ⟨c, c', hc, hc', hdata', hlen⟩ := hin a hm
                exact ⟨c', hc', hdata', hlen ▸ (h.owned a c hc).2.1⟩
              · have hpre := (List.mem_append.mp ha).resolve_right hm
                obtain ⟨c, hc, hcdata⟩ := (h.shape b).data a (by
                  rcases husable.data with rfl | ⟨e, he⟩
                  · exact hpre
                  · exact he ▸ List.mem_append_left _ hpre)
                exact ⟨c, (hout a hm).trans hc, hcdata, (h.owned a c hc).2.1⟩)
          have hpre : w₁.bytes pre = w.bytes pre := World.bytes_congr fun a ha => hout a fun hm =>
            (List.nodup_append.mp (hU ▸ hlist.nodup)).2.2 a ha a (List.mem_append_left _ hm) rfl
          have hs₁ : w.bytes s₁ = [] := World.bytes_empty fun a ha => by
            obtain ⟨c, hc, hsp⟩ := (h.shape b).spare a (hspare ▸ List.mem_append_left _ ha)
            exact ⟨c, hc, hsp.data⟩
          have hbecomes : Becomes w L b w₁ (Function.update L b ⟨(L b).data ++ s₁, l₂⟩)
              (w.bytes (L b).data ++ y :: ys) (w₁.buf b).toCounts := by
            refine ⟨hinv, hframe, ?_, rfl⟩
            rw [Function.update_self]
            have hold : w.bytes (L b).data = w.bytes pre ++ w.bytes l₁ := by
              rw [← World.bytes_append, ← hdata, World.bytes_append, hs₁, List.append_nil]
            rw [hdata, World.bytes_append, hpre, hbytes, hold, List.append_assoc]
          refine ⟨_, _, ?_, (hbecomes.setCounts ((w.buf b).added (y :: ys).length)).invoke⟩
          simp only [receive, hsetup, Option.bind_some, hrecv, if_neg (Nat.not_lt.mpr hle), hfill,
            Option.map_some, hself]

theorem readSize_le {readable size : Int} : readSize readable size ≤ EVBUFFER_MAX_READ := by
  have hn : (if readable ≤ 0 ∨ EVBUFFER_MAX_READ < readable then (EVBUFFER_MAX_READ : Int)
      else readable) ≤ EVBUFFER_MAX_READ := by
    split <;> omega
  simp only [readSize]
  split <;> omega

theorem read_spec {z p : Int} (h : w.Inv L []) (hcount : Counted w L b)
    (hrecv : ∀ n bs, recv n = some bs → bs.length ≤ n) :
    if (w.buf b).freeze_end then evbuffer_read w b z p recv = some (w, -1)
    else
      (∃ w' L', evbuffer_read w b z p recv = some (w', -1) ∧
        Becomes w L b w' L' (w.bytes (L b).data) (w.buf b).toCounts ∧ w.OutOfMemory w') ∨
      ∃ cap w' L', cap ≤ readSize z p ∧ (0 < readSize z p → 0 < cap) ∧
        evbuffer_read w b z p recv =
          some (w', ((recv cap).map fun bs => (bs.length : Int)).getD (-1)) ∧
        Becomes w L b w' L' (w.bytes (L b).data ++ (recv cap).getD [])
          (if (recv cap).getD [] = [] then (w.buf b).toCounts
          else ((w.buf b).added ((recv cap).getD []).length).evbuffer_run_callbacks) := by
  split
  · rename_i hfreeze
    exact if_pos hfreeze
  · rename_i hfreeze
    rw [evbuffer_read, if_neg hfreeze]
    have hsize : readSize z p ≤ maxLen := Nat.le_trans readSize_le (by decide)
    rcases expand_fast_spec (b := b) (n := NUM_READ_IOVEC) h hcount hsize with
      ⟨w₁, L₁, hexp, hsame, hmem⟩ | ⟨w₁, L₁, hexp, hsame, hroom, hne⟩
    · exact .inl ⟨w₁, L₁, by simp [hexp], hsame, hmem⟩
    · obtain ⟨cap, hcap, hpos, hreceive⟩ := receive_spec (r := recv) hsame.inv hroom hne
      refine .inr ⟨cap, ?_⟩
      simp only [hexp, Option.bind_some]
      rw [if_neg (by decide)]
      cases hr : recv cap with
      | none =>
          rw [hr] at hreceive
          refine ⟨w₁, L₁, hcap, hpos, hreceive, ?_⟩
          simpa using hsame
      | some bs =>
          rw [hr] at hreceive
          have hreceive := hreceive (hrecv cap bs hr)
          split at hreceive
          · rename_i hnil
            refine ⟨w₁, L₁, hcap, hpos, by simpa [hnil] using hreceive, ?_⟩
            simpa [hnil] using hsame
          · rename_i hcons
            obtain ⟨w₂, L₂, heq, hbecomes⟩ := hreceive
            rw [hsame.bytes, hsame.counts] at hbecomes
            refine ⟨w₂, L₂, hcap, hpos, heq, ?_⟩
            simpa [hcons] using hsame.trans hbecomes

/-! ## `evbuffer_write_atmost` -/

theorem iovLoop_spec {q : Nat} (hlist : Chain w.next p l)
    (hlive : ∀ a ∈ l, ∃ c, w.chain a = some c) :
    ∃ iov m, iovLoop w n p q = some iov ∧ m ≤ q ∧
      iov.flatten = (w.bytes l).take m := by
  induction n generalizing p l q with
  | zero => exact ⟨[], 0, rfl, Nat.zero_le _, rfl⟩
  | succ n ih =>
      cases l with
      | nil =>
          obtain rfl : p = none := hlist
          exact ⟨[], 0, rfl, Nat.zero_le _, rfl⟩
      | cons a l =>
          obtain ⟨rfl, hrest⟩ := hlist
          obtain ⟨c, hc⟩ := hlive a List.mem_cons_self
          cases q with
          | zero => exact ⟨[], 0, rfl, Nat.le_refl _, rfl⟩
          | succ q =>
              simp only [iovLoop, hc, Option.bind_some]
              rw [World.bytes_cons hc]
              split
              · rename_i hle
                obtain ⟨iov, m, hiov, hm, hflat⟩ := ih (q := q + 1 - c.off) hrest
                  fun d hd => hlive d (List.mem_cons_of_mem a hd)
                refine ⟨c.data :: iov, c.off + m, by rw [hiov, Option.map_some], by omega, ?_⟩
                rw [List.flatten_cons, hflat, evbuffer_chain.off, List.take_length_add_append]
              · rename_i hgt
                simp only [evbuffer_chain.off] at hgt
                refine ⟨_, q + 1, rfl, Nat.le_refl _, ?_⟩
                rw [List.take_append_of_le_length (by omega)]
                simp

theorem iovLoop_pos (hlist : Chain w.next p (a :: l)) (hc : w.chain a = some c)
    (hdata : c.data ≠ []) (hn : 0 < n) (hmuch : 0 < howmuch) {iov : List (List UInt8)}
    (hiov : iovLoop w n p howmuch = some iov) : iov.flatten ≠ [] := by
  obtain ⟨n, rfl⟩ := Nat.exists_eq_succ_of_ne_zero (Nat.ne_of_gt hn)
  obtain ⟨howmuch, rfl⟩ := Nat.exists_eq_succ_of_ne_zero (Nat.ne_of_gt hmuch)
  obtain ⟨rfl, -⟩ := hlist
  simp only [iovLoop, hc, Option.bind_some] at hiov
  split at hiov
  · obtain ⟨iov', -, rfl⟩ := Option.map_eq_some_iff.mp hiov
    simp [hdata]
  · cases hiov
    simpa using hdata

/-- How much `evbuffer_write_atmost` may write. -/
def writeSize (total : Nat) (howmuch : Int) : Nat :=
  if howmuch < 0 ∨ total < howmuch then total else howmuch.toNat

theorem writeSize_le {total : Nat} {howmuch : Int} : writeSize total howmuch ≤ total := by
  rw [writeSize]
  split <;> omega

theorem write_atmost_spec {z : Int} (h : w.Inv L []) (hcount : Counted w L b)
    (hsend : ∀ bs n, send bs = some n → n ≤ bs.length) :
    if (w.buf b).freeze_start ∨ writeSize (w.bytes (L b).data).length z = 0 then
      evbuffer_write_atmost w b z send = some (w, -1)
    else
      ∃ m, 0 < m ∧ m ≤ writeSize (w.bytes (L b).data).length z ∧
        match send ((w.bytes (L b).data).take m) with
        | none => evbuffer_write_atmost w b z send = some (w, -1)
        | some 0 => evbuffer_write_atmost w b z send = some (w, 0)
        | some (n + 1) => ∃ w' L', evbuffer_write_atmost w b z send = some (w', ((n + 1 : Nat) : Int)) ∧
            Becomes w L b w' L' ((w.bytes (L b).data).drop (n + 1))
              ((w.buf b).deleted (n + 1)).evbuffer_run_callbacks ∧ ((L b).Tight → (L' b).Tight) := by
  have hsize : (if z < 0 ∨ (w.buf b).total_len < z then (w.buf b).total_len
      else z.toNat) = writeSize (w.bytes (L b).data).length z := by
    rw [writeSize, hcount]
  by_cases hfreeze : (w.buf b).freeze_start = true
  · rw [if_pos (.inl hfreeze)]
    exact if_pos hfreeze
  · simp only [evbuffer_write_atmost, if_neg hfreeze, hsize]
    by_cases h0 : writeSize (w.bytes (L b).data).length z = 0
    · rw [if_pos (.inr h0)]
      simp [h0]
    · rw [if_neg (by simp [hfreeze, h0])]
      have hpos : 0 < writeSize (w.bytes (L b).data).length z := Nat.pos_of_ne_zero h0
      have hlt : 0 < (w.bytes (L b).data).length := Nat.lt_of_lt_of_le hpos writeSize_le
      have hdata : (L b).data ≠ [] := fun hnil => by simp [hnil] at hlt
      obtain ⟨a, l, hD⟩ := List.exists_cons_of_ne_nil hdata
      obtain ⟨c, hc, hcdata⟩ := (h.shape b).data a (by simp [hD])
      have hlist : Chain w.next (w.buf b).first (a :: (l ++ (L b).spare)) := by
        simpa [Chains.all, hD] using (h.shape b).chain
      have hall : w.bytes (a :: (l ++ (L b).spare)) = w.bytes (L b).data := by
        rw [← h.bytes_all, Chains.all, hD]
        rfl
      obtain ⟨iov, m, hiov, hm, hflat⟩ := iovLoop_spec (n := NUM_WRITE_IOVEC)
        (q := writeSize (w.bytes (L b).data).length z) hlist fun d hd => h.live (b := b) (by
          simpa [Chains.all, hD] using hd)
      have hne := iovLoop_pos hlist hc hcdata (by decide) hpos hiov
      rw [hall] at hflat
      have hm0 : 0 < m := Nat.pos_of_ne_zero fun h0 => hne (by rw [hflat, h0, List.take_zero])
      have hlen : iov.length ≠ 0 := fun h0 => hne (by rw [List.length_eq_zero_iff.mp h0]; rfl)
      have hwrite : evbuffer_write_iovec w b
          (writeSize (w.bytes (L b).data).length z) send =
            some (((send ((w.bytes (L b).data).take m)).map Int.ofNat).getD (-1)) := by
        rw [evbuffer_write_iovec, hiov, Option.map_some, if_neg hlen, hflat]
      refine ⟨m, hm0, hm, ?_⟩
      simp only [if_pos hpos, hwrite, Option.bind_some]
      have hdrain := fun n => drain_spec (n := n) h hcount
      cases hs : send ((w.bytes (L b).data).take m) with
      | none => simp
      | some n =>
          have hle := hsend _ n hs
          rw [List.length_take] at hle
          cases n with
          | zero => simp
          | succ n =>
              have hdrain := hdrain (n + 1)
              rw [if_neg (Nat.ne_of_gt hlt), if_neg hfreeze] at hdrain
              obtain ⟨w', L', hdrain, hbecomes, htight⟩ := hdrain
              refine ⟨w', L', ?_, ?_, htight⟩
              · simp [hdrain, Int.ofNat_eq_natCast]
              · rwa [Nat.min_eq_left (by rw [hcount]; omega)] at hbecomes

end

end CppWorkspace.Libevent
