/-
# `CppWorkspace.Libevent.Chains` — the memory of the evbuffers

An `evbuffer` keeps its bytes in a linked list of chains.  `last_with_datap` does not point
to a chain but to a LINK: the one through which the last chain with data is reached.

    first ──▶ a ──▶ b ──▶ c ──▶ d          `c` is the last chain with data, `d` is spare,
                       ╰── last_with_datap      so this is `&b->next`

The model keeps the pointers.  A `World` is the memory of all chains and the evbuffers in
it; whatever reads or writes a chain that is not allocated, writes past the end of a
chain, or fails an `EVUTIL_ASSERT`, has no result (`none`).

Conventions:

* the memory of a chain is cut in three: `misalign` bytes in front, the `data` (so `off` is
  its length) and `room` bytes behind; nobody reads the other two parts before writing them;
* a chain is named by the number of the call of `mm_malloc` that has returned it, and
  `fails` says which of these calls return `NULL`;
* `size_t` and `ev_ssize_t` have 32 bits.  The lengths in an evbuffer are numbers that are not
  reduced: as long as none is above `EV_SSIZE_MAX`, which the calls keep so if they have to
  (`World.Fits`), no sum of them wraps and no one is negative.  What does wrap is reduced: the
  size of a new chain (`evbuffer_chain_new`), and what the callbacks are told;
* `EVBUFFER_MEM_PINNED_ANY` is never set (only the overlapped bufferevents set it), and the
  only immutable chains are those of `evbuffer_add_reference`;
* no evbuffer defers its callbacks;
* `told` is not in the source: what the callbacks were called with.  They run at the end of
  a function, so what they do is a later call.
-/
import CppWorkspace.Lib.LinkedList
import Mathlib.Algebra.GroupWithZero.Nat
import Mathlib.Data.List.Flatten
import Mathlib.Data.List.Perm.Subperm

namespace CppWorkspace.Libevent

open LinkedList (Chain)

abbrev Addr := Nat

abbrev BufId := Nat

/-- The variables that hold a `struct evbuffer_chain *`. -/
inductive Link where
  | first (b : BufId)
  | next (a : Addr)
deriving DecidableEq, Repr

/-- All of a chain but `next`. -/
structure evbuffer_chain where
  misalign : Nat
  data : List UInt8
  room : Nat
  immutable : Bool
  room_of_immutable : immutable = true → room = 0

/-- Three numbers of type `size_t`. -/
structure evbuffer_cb_info where
  orig_size : UInt32
  n_added : UInt32
  n_deleted : UInt32
deriving DecidableEq, Repr

/-- The members of an evbuffer that are not pointers.  `callbacks` says whether the list of
callbacks is not empty. -/
structure Counts where
  total_len : Nat
  n_add_for_cb : Nat
  n_del_for_cb : Nat
  freeze_start : Bool
  freeze_end : Bool
  callbacks : Bool
  told : List evbuffer_cb_info
deriving DecidableEq, Repr

/-- An evbuffer: the ends of its list of chains, beside its counts. -/
structure evbuffer extends Counts where
  first : Option Addr
  last : Option Addr
  last_with_datap : Link

/-- How often `mm_malloc` has been called, and which calls fail. -/
structure Malloc where
  mallocs : Nat
  fails : Nat → Bool

/-- The chains in memory, and the evbuffers. -/
structure World extends Malloc where
  chain : Addr → Option evbuffer_chain
  next : Addr → Option Addr
  buf : BufId → evbuffer

def EV_SSIZE_MAX : Nat := 2147483647

def MIN_BUFFER_SIZE : Nat := 512

/-- `sizeof(struct evbuffer_chain)`. -/
def EVBUFFER_CHAIN_SIZE : Nat := 32

/-- The longest chain for which the loop of `evbuffer_chain_new` ends. -/
def maxLen : Nat := 2 ^ 31 - EVBUFFER_CHAIN_SIZE

/-! ## One chain -/

namespace evbuffer_chain

variable (c : evbuffer_chain) (bs : List UInt8)

def off : Nat := c.data.length

def buffer_len : Nat := c.misalign + c.off + c.room

/-- `CHAIN_SPACE_LEN`. -/
def CHAIN_SPACE_LEN : Nat := if c.immutable then 0 else c.room

/-- An empty chain, `n` bytes long. -/
def empty (n : Nat) : evbuffer_chain where
  misalign := 0
  data := []
  room := n
  immutable := false
  room_of_immutable := by simp

/-- The chain of `evbuffer_add_reference`. -/
def reference : evbuffer_chain where
  misalign := 0
  data := bs
  room := 0
  immutable := true
  room_of_immutable := fun _ => rfl

/-- `memcpy(buffer + misalign + off, bs, n); off += n`. -/
def append : Option evbuffer_chain :=
  if bs.length ≤ c.room then
    some
      { c with
        data := c.data ++ bs
        room := c.room - bs.length
        room_of_immutable := fun h => by rw [c.room_of_immutable h, Nat.zero_sub] }
  else none

/-- `memcpy(buffer + misalign - n, bs, n); misalign -= n; off += n`. -/
def prepend : Option evbuffer_chain :=
  if bs.length ≤ c.misalign then
    some { c with misalign := c.misalign - bs.length, data := bs ++ c.data }
  else none

/-- `misalign += n; off -= n`. -/
def drop (n : Nat) : Option evbuffer_chain :=
  if n ≤ c.off then some { c with misalign := c.misalign + n, data := c.data.drop n } else none

/-- `evbuffer_chain_align`: the data is moved to the start. -/
def evbuffer_chain_align : evbuffer_chain :=
  if h : c.immutable then c
  else
    { c with
      misalign := 0
      room := c.room + c.misalign
      room_of_immutable := fun hi => absurd hi h }

/-- `misalign = buffer_len`, for an empty chain. -/
def toEnd : evbuffer_chain :=
  { c with misalign := c.buffer_len, data := [], room := 0, room_of_immutable := fun _ => rfl }

def MAX_TO_COPY_IN_EXPAND : Nat := 4096

def MAX_TO_REALIGN_IN_EXPAND : Nat := 2048

def evbuffer_chain_should_realign (datlen : Nat) : Bool :=
  datlen ≤ c.buffer_len - c.off && c.off < c.buffer_len / 2 && c.off ≤ MAX_TO_REALIGN_IN_EXPAND

@[simp] theorem space_eq : c.CHAIN_SPACE_LEN = c.room := by
  show (if c.immutable then 0 else c.room) = c.room
  split
  · rename_i h
    exact (c.room_of_immutable h).symm
  · rfl

@[simp] theorem empty_data (n : Nat) : (empty n).data = [] := rfl

@[simp] theorem empty_buffer_len (n : Nat) : (empty n).buffer_len = n := by
  simp [empty, buffer_len, off]

@[simp] theorem reference_buffer_len : (reference bs).buffer_len = bs.length := by
  simp [reference, buffer_len, off]

@[simp] theorem align_data : c.evbuffer_chain_align.data = c.data := by
  simp only [evbuffer_chain_align]
  split <;> rfl

@[simp] theorem align_immutable : c.evbuffer_chain_align.immutable = c.immutable := by
  simp only [evbuffer_chain_align]
  split <;> rfl

@[simp] theorem align_buffer_len : c.evbuffer_chain_align.buffer_len = c.buffer_len := by
  simp only [evbuffer_chain_align]
  split
  · rfl
  · simp only [buffer_len, off]
    omega

theorem align_room (h : c.immutable = false) :
    c.evbuffer_chain_align.room = c.room + c.misalign := by
  simp [evbuffer_chain_align, h]

@[simp] theorem toEnd_buffer_len : c.toEnd.buffer_len = c.buffer_len := by
  simp [toEnd, buffer_len, off]

variable {c bs} {c' : evbuffer_chain} {n : Nat}

theorem append_nil : c.append [] = some c := by
  simp [append]

/-- A chain that is all room. -/
structure Spare (c : evbuffer_chain) : Prop where
  data : c.data = []
  mutable : c.immutable = false
  misalign : c.misalign = 0
  room : 0 < c.room

theorem Spare.len_eq (h : c.Spare) : c.buffer_len = c.room := by
  simp [buffer_len, off, h.data, h.misalign]

/-- `c'` has `bs` behind the data of `c`. -/
structure Appended (c : evbuffer_chain) (bs : List UInt8) (c' : evbuffer_chain) : Prop where
  data : c'.data = c.data ++ bs
  room : c'.room = c.room - bs.length
  misalign : c'.misalign = c.misalign
  immutable : c'.immutable = c.immutable
  len : c'.buffer_len = c.buffer_len

theorem append_of_le (h : bs.length ≤ c.room) : ∃ c', c.append bs = some c' ∧ c.Appended bs c' := by
  refine ⟨_, if_pos h, rfl, rfl, rfl, rfl, ?_⟩
  simp only [buffer_len, off, List.length_append]
  omega

theorem Appended.spare (h : c.Appended [] c') (hc : c.Spare) : c'.Spare :=
  ⟨by simp [h.data, hc.data], h.immutable.trans hc.mutable, h.misalign.trans hc.misalign,
    by simpa [h.room] using hc.room⟩

theorem prepend_of_le {t : List UInt8} (h : t.length ≤ c.misalign) :
    ∃ c', c.prepend t = some c' ∧ c'.data = t ++ c.data ∧ c'.misalign = c.misalign - t.length ∧
      c'.immutable = c.immutable ∧ c'.buffer_len = c.buffer_len := by
  refine ⟨_, if_pos h, rfl, rfl, rfl, ?_⟩
  simp only [buffer_len, off, List.length_append]
  omega

theorem drop_of_le (h : n ≤ c.off) :
    ∃ c', c.drop n = some c' ∧ c'.data = c.data.drop n ∧ c'.immutable = c.immutable ∧
      c'.buffer_len = c.buffer_len := by
  refine ⟨_, if_pos h, rfl, rfl, ?_⟩
  simp only [off] at h
  simp only [buffer_len, off, List.length_drop]
  omega

end evbuffer_chain

/-! ## The callbacks -/

namespace Counts

variable (k : Counts) (n : Nat)

/-- `total_len += n; n_add_for_cb += n`. -/
def added : Counts :=
  { k with total_len := k.total_len + n, n_add_for_cb := k.n_add_for_cb + n }

/-- `total_len -= n; n_del_for_cb += n`. -/
def deleted : Counts :=
  { k with total_len := k.total_len - n, n_del_for_cb := k.n_del_for_cb + n }

def evbuffer_run_callbacks : Counts :=
  if k.callbacks = false then { k with n_add_for_cb := 0, n_del_for_cb := 0 }
  else if k.n_add_for_cb = 0 ∧ k.n_del_for_cb = 0 then k
  else
    { k with
      n_add_for_cb := 0
      n_del_for_cb := 0
      told := k.told ++
        [⟨.ofNat k.total_len + .ofNat k.n_del_for_cb - .ofNat k.n_add_for_cb,
          .ofNat k.n_add_for_cb, .ofNat k.n_del_for_cb⟩] }

/-- What holds of the lengths between two calls. -/
structure Sized (k : Counts) : Prop where
  total_len : k.total_len ≤ EV_SSIZE_MAX
  n_add_for_cb : k.n_add_for_cb ≤ k.total_len
  n_del_for_cb : k.n_del_for_cb = 0

end Counts

/-! ## The memory -/

namespace World

variable (w : World)

def setBuf (b : BufId) (e : evbuffer) : World := { w with buf := Function.update w.buf b e }

def setChain (a : Addr) (c : evbuffer_chain) : World :=
  { w with chain := Function.update w.chain a (some c) }

def setNext (a : Addr) (p : Option Addr) : World :=
  { w with next := LinkedList.write w.next a p }

def mm_free (a : Addr) : World := { w with chain := Function.update w.chain a none }

/-- `*l`. -/
def load : Link → Option (Option Addr)
  | .first b => some (w.buf b).first
  | .next a => (w.chain a).map fun _ => w.next a

/-- `*l = p`. -/
def store (p : Option Addr) : Link → Option World
  | .first b => some (w.setBuf b { w.buf b with first := p })
  | .next a => (w.chain a).map fun _ => w.setNext a p

def setCounts (b : BufId) (k : Counts) : World := w.setBuf b { w.buf b with toCounts := k }

section
variable {b j : BufId} {a d : Addr} {e : evbuffer} {k : Counts} {c : evbuffer_chain}
  {p : Option Addr}

@[simp] theorem setBuf_self : (w.setBuf b e).buf b = e := Function.update_self ..

@[simp] theorem setBuf_of_ne (h : j ≠ b) : (w.setBuf b e).buf j = w.buf j :=
  Function.update_of_ne h ..

@[simp] theorem setBuf_chain : (w.setBuf b e).chain = w.chain := rfl

@[simp] theorem setBuf_next : (w.setBuf b e).next = w.next := rfl

@[simp] theorem setBuf_mallocs : (w.setBuf b e).mallocs = w.mallocs := rfl

@[simp] theorem setCounts_self : (w.setCounts b k).buf b = { w.buf b with toCounts := k } :=
  Function.update_self ..

@[simp] theorem setCounts_of_ne (h : j ≠ b) : (w.setCounts b k).buf j = w.buf j :=
  Function.update_of_ne h ..

@[simp] theorem setCounts_chain : (w.setCounts b k).chain = w.chain := rfl

@[simp] theorem setCounts_next : (w.setCounts b k).next = w.next := rfl

@[simp] theorem setCounts_mallocs : (w.setCounts b k).mallocs = w.mallocs := rfl

@[simp] theorem setChain_self : (w.setChain a c).chain a = some c := Function.update_self ..

@[simp] theorem setChain_of_ne (h : d ≠ a) : (w.setChain a c).chain d = w.chain d :=
  Function.update_of_ne h ..

@[simp] theorem setChain_buf : (w.setChain a c).buf = w.buf := rfl

@[simp] theorem setChain_next : (w.setChain a c).next = w.next := rfl

@[simp] theorem setChain_mallocs : (w.setChain a c).mallocs = w.mallocs := rfl

@[simp] theorem setNext_self : (w.setNext a p).next a = p := LinkedList.write_self

@[simp] theorem setNext_of_ne (h : d ≠ a) : (w.setNext a p).next d = w.next d :=
  LinkedList.write_of_ne h

@[simp] theorem setNext_buf : (w.setNext a p).buf = w.buf := rfl

@[simp] theorem setNext_chain : (w.setNext a p).chain = w.chain := rfl

@[simp] theorem setNext_mallocs : (w.setNext a p).mallocs = w.mallocs := rfl

@[simp] theorem mm_free_self : (w.mm_free a).chain a = none := Function.update_self ..

@[simp] theorem mm_free_of_ne (h : d ≠ a) : (w.mm_free a).chain d = w.chain d :=
  Function.update_of_ne h ..

@[simp] theorem mm_free_buf : (w.mm_free a).buf = w.buf := rfl

@[simp] theorem mm_free_next : (w.mm_free a).next = w.next := rfl

@[simp] theorem mm_free_mallocs : (w.mm_free a).mallocs = w.mallocs := rfl

end

/-- The bytes in some chains. -/
def bytes (l : List Addr) : List UInt8 := l.flatMap fun a => ((w.chain a).map (·.data)).getD []

end World

/-- `evbuffer_new`. -/
def evbuffer_new (b : BufId) : evbuffer where
  first := none
  last := none
  last_with_datap := .first b
  total_len := 0
  n_add_for_cb := 0
  n_del_for_cb := 0
  freeze_start := false
  freeze_end := false
  callbacks := false
  told := []

/-- `while (to_alloc < size) to_alloc <<= 1`; `none`: it never ends. -/
def allocSize (size : Nat) : Nat → Nat → Option Nat
  | 0, _ => none
  | fuel + 1, to_alloc =>
      if to_alloc < size then allocSize size fuel (to_alloc * 2 % 2 ^ 32) else some to_alloc

/-- The outer `none`: the loop does not end; the inner one: out of memory. -/
def evbuffer_chain_new (w : World) (size : Nat) : Option (World × Option Addr) :=
  (allocSize ((size + EVBUFFER_CHAIN_SIZE) % 2 ^ 32) 32 MIN_BUFFER_SIZE).map fun to_alloc =>
    if w.fails w.mallocs then ({ w with mallocs := w.mallocs + 1 }, none)
    else
      ({ (w.setChain w.mallocs (.empty (to_alloc - EVBUFFER_CHAIN_SIZE))).setNext w.mallocs none with
          mallocs := w.mallocs + 1 },
        some w.mallocs)

/-- The cleanup function of a reference is code of the caller, and is not run here. -/
def evbuffer_chain_free (w : World) (a : Addr) : Option World :=
  (w.chain a).map fun _ => w.mm_free a

def evbuffer_free_all_chains : Nat → World → Option Addr → Option World
  | _, w, none => some w
  | 0, _, some _ => none
  | fuel + 1, w, some a =>
      (evbuffer_chain_free w a).bind fun w' => evbuffer_free_all_chains fuel w' (w.next a)

/-- Whether all chains from `p` on are empty. -/
def evbuffer_chains_all_empty (w : World) : Nat → Option Addr → Option Bool
  | _, none => some true
  | 0, some _ => none
  | fuel + 1, some a =>
      (w.chain a).bind fun c =>
        if c.off ≠ 0 then some false else evbuffer_chains_all_empty w fuel (w.next a)

/-- `while (*ch && (*ch)->off != 0) ch = &(*ch)->next`. -/
def skipData (w : World) : Nat → Link → Option Link
  | 0, _ => none
  | fuel + 1, ch =>
      (w.load ch).bind fun
        | none => some ch
        | some a => (w.chain a).bind fun c =>
            if c.off ≠ 0 then skipData w fuel (.next a) else some ch

/-- `EVUTIL_ASSERT(evbuffer_chains_all_empty(*ch)); evbuffer_free_all_chains(*ch)`. -/
def freeVictims (w : World) (p : Option Addr) : Option World :=
  (evbuffer_chains_all_empty w w.mallocs p).bind fun allEmpty =>
    if allEmpty then evbuffer_free_all_chains w.mallocs w p else none

/-- The trailing empty chains are freed; the link where the next chain goes. -/
def evbuffer_free_trailing_empty_chains (w : World) (b : BufId) : Option (World × Link) :=
  (skipData w (w.mallocs + 1) (w.buf b).last_with_datap).bind fun ch =>
    (w.load ch).bind fun
      | none => some (w, ch)
      | some a => (freeVictims w (some a)).bind fun w =>
          (w.store none ch).map fun w => (w, ch)

/-- The end of `evbuffer_chain_insert`. -/
def World.inserted (w : World) (b : BufId) (chain : Addr) (off : Nat) : World :=
  w.setBuf b { w.buf b with last := some chain, total_len := (w.buf b).total_len + off }

namespace World

variable {w : World} {b j : BufId} {x : Addr} {n : Nat}

@[simp] theorem inserted_self : (w.inserted b x n).buf b =
    { w.buf b with last := some x, total_len := (w.buf b).total_len + n } := setBuf_self ..

@[simp] theorem inserted_of_ne (h : j ≠ b) : (w.inserted b x n).buf j = w.buf j :=
  setBuf_of_ne _ h

@[simp] theorem inserted_chain : (w.inserted b x n).chain = w.chain := rfl

@[simp] theorem inserted_next : (w.inserted b x n).next = w.next := rfl

@[simp] theorem inserted_mallocs : (w.inserted b x n).mallocs = w.mallocs := rfl

end World

/-- `buf->last->next = chain; if (chain->off) buf->last_with_datap = &buf->last->next`. -/
def appendChain (w : World) (b : BufId) (chain : Addr) (off : Nat) : Option World :=
  (w.buf b).last.bind fun last =>
    (w.store (some chain) (.next last)).map fun w =>
      if off ≠ 0 then w.setBuf b { w.buf b with last_with_datap := .next last } else w

def evbuffer_chain_insert (w : World) (b : BufId) (chain : Addr) : Option World :=
  (w.chain chain).bind fun c =>
    (w.load (w.buf b).last_with_datap).bind fun
      | none =>
          -- the assertion says that there are no chains
          if (w.buf b).last_with_datap = .first b then
            some ((w.setBuf b { w.buf b with first := some chain }).inserted b chain c.off)
          else none
      | some _ =>
          (skipData w (w.mallocs + 1) (w.buf b).last_with_datap).bind fun ch =>
            (w.load ch).bind fun
              | none => (appendChain w b chain c.off).map fun w => w.inserted b chain c.off
              | some a => (freeVictims w (some a)).bind fun w =>
                  (w.store (some chain) ch).map fun w => w.inserted b chain c.off

/-! ## Which chains belong to which buffer -/

/-- The link behind some chains of `b`. -/
def linkAfter (b : BufId) (l : List Addr) : Link :=
  match l.getLast? with
  | none => .first b
  | some a => .next a

/-- The chains of a buffer: those with data, and the spare ones behind them. -/
structure Chains where
  data : List Addr
  spare : List Addr

def Chains.all (s : Chains) : List Addr := s.data ++ s.spare

/-- What the pointers of `b` say. -/
structure Shape (w : World) (b : BufId) (s : Chains) : Prop where
  chain : Chain w.next (w.buf b).first s.all
  last : (w.buf b).last = s.all.getLast?
  last_with_datap : (w.buf b).last_with_datap = linkAfter b s.data.dropLast
  data : ∀ a ∈ s.data, ∃ c, w.chain a = some c ∧ c.data ≠ []
  spare : ∀ a ∈ s.spare, ∃ c, w.chain a = some c ∧ c.Spare

/-- Every chain that is allocated is in one place: in a buffer, or in the hands of a
function (`X`). -/
structure World.Inv (w : World) (L : BufId → Chains) (X : List Addr) : Prop where
  shape : ∀ b, Shape w b (L b)
  nodup : ∀ b, (L b).all.Nodup
  disjoint : ∀ i j a, a ∈ (L i).all → a ∈ (L j).all → i = j
  loose : ∀ a ∈ X, (w.chain a).isSome ∧ ∀ b, a ∉ (L b).all
  loose_nodup : X.Nodup
  owned : ∀ a c, w.chain a = some c → a < w.mallocs ∧ c.buffer_len ≤ maxLen ∧
    ((∃ b, a ∈ (L b).all) ∨ a ∈ X)

section
variable {w w' : World} {L : BufId → Chains} {X X' : List Addr} {b : BufId} {s : Chains}
  {a : Addr} {c : evbuffer_chain} {l l₁ l₂ : List Addr} {n size : Nat}

@[simp] theorem linkAfter_nil : linkAfter b [] = .first b := rfl

@[simp] theorem linkAfter_concat : linkAfter b (l ++ [a]) = .next a := by
  simp [linkAfter]

theorem linkAfter_cons (b : BufId) (a : Addr) (l : List Addr) :
    linkAfter b (a :: l) = if linkAfter b l = .first b then .next a else linkAfter b l := by
  rcases List.eq_nil_or_concat' l with rfl | ⟨l, e, rfl⟩
  · simp [linkAfter]
  · rw [← List.cons_append, linkAfter_concat, linkAfter_concat, if_neg Link.noConfusion]

@[simp] theorem Chains.all_mk : Chains.all ⟨l₁, l₂⟩ = l₁ ++ l₂ := rfl

theorem Chains.mem_data (h : a ∈ s.data) : a ∈ s.all := List.mem_append_left _ h

theorem Chains.mem_spare (h : a ∈ s.spare) : a ∈ s.all := List.mem_append_right _ h

namespace World

@[simp] theorem bytes_nil : w.bytes [] = [] := rfl

theorem bytes_append : w.bytes (l₁ ++ l₂) = w.bytes l₁ ++ w.bytes l₂ := List.flatMap_append

theorem bytes_cons (h : w.chain a = some c) : w.bytes (a :: l) = c.data ++ w.bytes l := by
  simp [bytes, h]

theorem bytes_congr (h : ∀ a ∈ l, w'.chain a = w.chain a) : w'.bytes l = w.bytes l :=
  List.flatMap_congr fun a ha => by rw [h a ha]

theorem bytes_empty (h : ∀ a ∈ l, ∃ c, w.chain a = some c ∧ c.data = []) : w.bytes l = [] := by
  refine List.flatMap_eq_nil_iff.mpr fun a ha => ?_
  obtain ⟨c, hc, hdata⟩ := h a ha
  simp [hc, hdata]

end World

namespace World.Inv

theorem live (h : w.Inv L X) (ha : a ∈ (L b).all) : ∃ c, w.chain a = some c := by
  rcases List.mem_append.mp ha with ha | ha
  · obtain ⟨c, hc, -⟩ := (h.shape b).data a ha
    exact ⟨c, hc⟩
  · obtain ⟨c, hc, -⟩ := (h.shape b).spare a ha
    exact ⟨c, hc⟩

theorem lt_mallocs (h : w.Inv L X) (ha : a ∈ (L b).all) : a < w.mallocs := by
  obtain ⟨c, hc⟩ := h.live ha
  exact (h.owned a c hc).1

theorem length_le (h : w.Inv L X) (b : BufId) : (L b).all.length ≤ w.mallocs := by
  have hsub : (L b).all ⊆ List.range w.mallocs := fun a ha =>
    List.mem_range.mpr (h.lt_mallocs ha)
  simpa using ((h.nodup b).subperm hsub).length_le

/-- The chains of one buffer and the loose ones are arranged anew, or freed. -/
theorem rearrange (h : w.Inv L X) (hmallocs : w'.toMalloc = w.toMalloc)
    (hbuf : ∀ j, j ≠ b → w'.buf j = w.buf j)
    (hout : ∀ a, a ∉ (L b).all ++ X → w'.chain a = w.chain a ∧ w'.next a = w.next a)
    (hsub : ∀ a ∈ s.all ++ X', a ∈ (L b).all ++ X) (hnodup : (s.all ++ X').Nodup)
    (hfreed : ∀ a ∈ (L b).all ++ X, a ∉ s.all ++ X' → w'.chain a = none)
    (hlen : ∀ a ∈ s.all ++ X', ∀ c, w'.chain a = some c → c.buffer_len ≤ maxLen)
    (hX : ∀ a ∈ X', (w'.chain a).isSome) (hs : Shape w' b s) :
    w'.Inv (Function.update L b s) X' := by
  have hother : ∀ j, j ≠ b → ∀ a ∈ (L j).all, a ∉ (L b).all ++ X := by
    intro j hj a ha hmem
    rcases List.mem_append.mp hmem with hb | hx
    · exact hj (h.disjoint j b a ha hb)
    · exact (h.loose a hx).2 j ha
  have hnew : ∀ a ∈ s.all, ∀ j, j ≠ b → a ∉ (L j).all := fun a ha j hj hmem =>
    hother j hj a hmem (hsub a (List.mem_append_left _ ha))
  obtain ⟨hsnodup, hXnodup, hsX⟩ := List.nodup_append.mp hnodup
  refine ⟨fun j => ?_, fun j => ?_, fun i j a hi hj => ?_, fun a ha => ⟨hX a ha, fun j hj => ?_⟩,
    hXnodup, fun a c hc => ?_⟩
  · rcases eq_or_ne j b with rfl | hj
    · rw [Function.update_self]
      exact hs
    · rw [Function.update_of_ne hj]
      have hsame := fun a ha => hout a (hother j hj a ha)
      obtain ⟨hchain, hlast, hlwd, hdata, hspare⟩ := h.shape j
      refine ⟨?_, ?_, ?_, fun a ha => ?_, fun a ha => ?_⟩
      · rw [hbuf j hj]
        exact hchain.frame fun a ha => (hsame a ha).2
      · rw [hbuf j hj, hlast]
      · rw [hbuf j hj, hlwd]
      · rw [(hsame a (Chains.mem_data ha)).1]
        exact hdata a ha
      · rw [(hsame a (Chains.mem_spare ha)).1]
        exact hspare a ha
  · rcases eq_or_ne j b with rfl | hj
    · rw [Function.update_self]
      exact hsnodup
    · rw [Function.update_of_ne hj]
      exact h.nodup j
  · rcases eq_or_ne i b with rfl | hib
    · rcases eq_or_ne j i with rfl | hjb
      · rfl
      · rw [Function.update_self] at hi
        rw [Function.update_of_ne hjb] at hj
        exact absurd hj (hnew a hi j hjb)
    · rw [Function.update_of_ne hib] at hi
      rcases eq_or_ne j b with rfl | hjb
      · rw [Function.update_self] at hj
        exact absurd hi (hnew a hj i hib)
      · rw [Function.update_of_ne hjb] at hj
        exact h.disjoint i j a hi hj
  · rcases eq_or_ne j b with rfl | hjb
    · rw [Function.update_self] at hj
      exact hsX a hj a ha rfl
    · rw [Function.update_of_ne hjb] at hj
      exact hother j hjb a hj (hsub a (List.mem_append_right _ ha))
  · by_cases hmem : a ∈ s.all ++ X'
    · have hlt : a < w.mallocs := by
        rcases List.mem_append.mp (hsub a hmem) with hb | hx
        · exact h.lt_mallocs hb
        · obtain ⟨d, hd⟩ := Option.isSome_iff_exists.mp (h.loose a hx).1
          exact (h.owned a d hd).1
      refine ⟨hmallocs ▸ hlt, hlen a hmem c hc, ?_⟩
      rcases List.mem_append.mp hmem with hs | hx
      · exact .inl ⟨b, by rw [Function.update_self]; exact hs⟩
      · exact .inr hx
    · by_cases hold : a ∈ (L b).all ++ X
      · rw [hfreed a hold hmem] at hc
        cases hc
      · rw [(hout a hold).1] at hc
        obtain ⟨hlt, hle, ⟨j, hj⟩ | hx⟩ := h.owned a c hc
        · have hjb : j ≠ b := by
            rintro rfl
            exact hold (List.mem_append_left _ hj)
          exact ⟨hmallocs ▸ hlt, hle, .inl ⟨j, by rw [Function.update_of_ne hjb]; exact hj⟩⟩
        · exact absurd (List.mem_append_right _ hx) hold

end World.Inv

end

end CppWorkspace.Libevent
