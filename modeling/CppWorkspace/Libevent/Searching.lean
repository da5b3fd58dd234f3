/-
# `CppWorkspace.Libevent.Searching` — places in an evbuffer, and lines

An `evbuffer_ptr` is a place in the bytes of an evbuffer, kept as a chain and an offset in
it.  The functions of this module walk along the chains, from one `memchr` to the next; what
they find is what stands first in the BYTES, wherever the chains are cut:

    strchr, find_eol_char    the first byte of a kind        `findLoop_spec`
    ptr_set                  the place some bytes on         `ptr_add_spec`
    ptr_memcmp               whether some bytes stand there  `memcmp_spec`
    search_range             where they stand first          `search_spec`
    search_eol               the first end of a line         `search_eol_spec`
    readln                   the first line is taken         `readln_spec`

`pos` is -1 where the source returns -1 or sets it so.  Reading behind the bytes of a chain
has no result.
-/
import CppWorkspace.Lib.Searching
import CppWorkspace.Libevent.Plenty

namespace CppWorkspace.Libevent

open LinkedList (Chain)
open Searching (place)

/-! ## The functions -/

/-- A place in an evbuffer; `pos` is -1 if there is none. -/
structure evbuffer_ptr where
  pos : Int
  chain : Option Addr
  pos_in_chain : Nat
deriving DecidableEq, Repr

/-- How `evbuffer_ptr_set` moves a pointer. -/
inductive evbuffer_ptr_how where
  | EVBUFFER_PTR_SET
  | EVBUFFER_PTR_ADD
deriving DecidableEq, Repr

/-- What ends a line. -/
inductive evbuffer_eol_style where
  | EVBUFFER_EOL_ANY
  | EVBUFFER_EOL_CRLF
  | EVBUFFER_EOL_CRLF_STRICT
  | EVBUFFER_EOL_LF
deriving DecidableEq, Repr

def CR : UInt8 := 13

def LF : UInt8 := 10

/-- Where `it` is if `buffer` is read from its start. -/
def World.startOf (w : World) (b : BufId) : evbuffer_ptr := ⟨0, (w.buf b).first, 0⟩

/-- The bytes of chain `a` from `i` on. -/
def rest (w : World) (a : Addr) (i : Nat) : Option (List UInt8) :=
  (w.chain a).bind fun c => if i ≤ c.off then some (c.data.drop i) else none

/-- The loop of `evbuffer_strchr` and `evbuffer_find_eol_char`: where `find` finds
something first, and whether it does. -/
def findLoop (w : World) (find : List UInt8 → Option Nat) :
    Nat → evbuffer_ptr → Option (evbuffer_ptr × Bool)
  | 0, _ => none
  | fuel + 1, it =>
      match it.chain with
      | none => some (it, false)
      | some a => (rest w a it.pos_in_chain).bind fun s =>
          match find s with
          | some k => some (⟨it.pos + k, some a, it.pos_in_chain + k⟩, true)
          | none => findLoop w find fuel ⟨it.pos + s.length, w.next a, 0⟩

/-- `it` is moved if something is found, else only its `pos` is changed. -/
def findWith (w : World) (find : List UInt8 → Option Nat) (it : evbuffer_ptr) :
    Option (evbuffer_ptr × Int) :=
  (findLoop w find (w.mallocs + 1) it).map fun (p, found) =>
    if found then (p, p.pos) else ({ it with pos := p.pos }, -1)

def evbuffer_strchr (w : World) (it : evbuffer_ptr) (chr : UInt8) : Option (evbuffer_ptr × Int) :=
  findWith w (fun s => s.findIdx? fun c => c = chr) it

def CHUNK_SZ : Nat := 128

/-- The loop of `find_eol_char`, one chunk after another. -/
def eolChunks : Nat → List UInt8 → Option Nat
  | 0, _ => none
  | fuel + 1, s =>
      match (s.take CHUNK_SZ).findIdx? (· = CR), (s.take CHUNK_SZ).findIdx? (· = LF) with
      | some cr, some lf => if lf < cr then some lf else some cr
      | some cr, none => some cr
      | none, some lf => some lf
      | none, none => (eolChunks fuel (s.drop CHUNK_SZ)).map fun k => CHUNK_SZ + k

def find_eol_char (s : List UInt8) : Option Nat := eolChunks s.length s

def evbuffer_find_eol_char (w : World) (it : evbuffer_ptr) : Option (evbuffer_ptr × Int) :=
  findWith w find_eol_char it

/-- The loop of `evbuffer_strspn`.  At the end of the last chain `pos_in_chain` is 0. -/
def spanLoop (w : World) (chrset : List UInt8) : Nat → Addr → Nat → Nat →
    Option (Addr × Nat × Nat)
  | 0, _, _, _ => none
  | fuel + 1, a, i, count =>
      (rest w a i).bind fun s =>
        let run := (s.takeWhile (· ∈ chrset)).length
        if run < s.length then some (a, i + run, count + run)
        else
          match w.next a with
          | none => some (a, 0, count + run)
          | some d => spanLoop w chrset fuel d 0 (count + run)

def evbuffer_strspn (w : World) (it : evbuffer_ptr) (chrset : List UInt8) :
    Option (evbuffer_ptr × Int) :=
  match it.chain with
  | none => some (it, -1)
  | some a => (spanLoop w chrset w.mallocs a it.pos_in_chain 0).map fun (d, i, count) =>
      (⟨it.pos + count, some d, i⟩, count)

def evbuffer_getchr (w : World) (it : evbuffer_ptr) : Option UInt8 :=
  it.chain.bind fun a => (w.chain a).bind fun c => c.data[it.pos_in_chain]?

/-- `while (chain && position + left >= chain->off)`. -/
def ptrLoop (w : World) : Nat → Option Addr → Nat → Option (Option (Addr × Nat))
  | _, none, _ => some none
  | 0, some _, _ => none
  | fuel + 1, some a, n =>
      (w.chain a).bind fun c =>
        if c.off ≤ n then ptrLoop w fuel (w.next a) (n - c.off) else some (some (a, n))

def evbuffer_ptr_set (w : World) (b : BufId) (it : evbuffer_ptr) (position : Nat)
    (how : evbuffer_ptr_how) : Option (evbuffer_ptr × Int) :=
  let (chain, pos, n) := match how with
    | .EVBUFFER_PTR_SET => ((w.buf b).first, (position : Int), position)
    | .EVBUFFER_PTR_ADD => (it.chain, it.pos + position, it.pos_in_chain + position)
  (ptrLoop w w.mallocs chain n).map fun
    | some (a, i) => (⟨pos, some a, i⟩, 0)
    | none => (⟨-1, none, it.pos_in_chain⟩, -1)

def memcmp : List UInt8 → List UInt8 → Int
  | x :: s, y :: t => if x < y then -1 else if y < x then 1 else memcmp s t
  | _, _ => 0

def memcmpLoop (w : World) : Nat → Option Addr → Nat → List UInt8 → Option Int
  | _, _, _, [] => some 0
  | _, none, _, _ => some 0
  | 0, some _, _, _ => none
  | fuel + 1, some a, i, m =>
      (rest w a i).bind fun s =>
        if memcmp s (m.take s.length) ≠ 0 then some (memcmp s (m.take s.length))
        else memcmpLoop w fuel (w.next a) 0 (m.drop s.length)

def evbuffer_ptr_memcmp (w : World) (b : BufId) (it : evbuffer_ptr) (mem : List UInt8) :
    Option Int :=
  if (w.buf b).total_len < it.pos + mem.length then some (-1)
  else memcmpLoop w w.mallocs it.chain it.pos_in_chain mem

/-- The end of `evbuffer_search_range` where nothing is found. -/
def not_found (it : evbuffer_ptr) : evbuffer_ptr := ⟨-1, none, it.pos_in_chain⟩

/-- The place one byte on, in the same chain or at the start of the next one. -/
def step (w : World) (it : evbuffer_ptr) (a : Addr) (off : Nat) : evbuffer_ptr :=
  if it.pos_in_chain + 1 = off then ⟨it.pos + 1, w.next a, 0⟩
  else ⟨it.pos + 1, some a, it.pos_in_chain + 1⟩

def searchLoop (w : World) (b : BufId) (what : List UInt8) (first : UInt8)
    (stop : Option evbuffer_ptr) : Nat → evbuffer_ptr → Option evbuffer_ptr
  | 0, _ => none
  | fuel + 1, it =>
      match it.chain with
      | none => some (not_found it)
      | some a => (rest w a it.pos_in_chain).bind fun s =>
          match s.findIdx? (· = first) with
          | some k =>
              let here : evbuffer_ptr := ⟨it.pos + k, some a, it.pos_in_chain + k⟩
              (evbuffer_ptr_memcmp w b here what).bind fun r =>
                if r = 0 then
                  if stop.any fun e => e.pos < here.pos + what.length then some (not_found here)
                  else some here
                else searchLoop w b what first stop fuel
                  (step w here a (it.pos_in_chain + s.length))
          | none =>
              if stop.bind (·.chain) = some a then some (not_found it)
              else searchLoop w b what first stop fuel ⟨it.pos + s.length, w.next a, 0⟩

def evbuffer_search_range (w : World) (b : BufId) (what : List UInt8)
    (start stop : Option evbuffer_ptr) : Option evbuffer_ptr :=
  let it := start.getD (w.startOf b)
  match what with
  | [] => some it
  | first :: _ =>
      if EV_SSIZE_MAX < what.length then some it
      else searchLoop w b what first stop ((w.buf b).total_len + w.mallocs + 1) it

def evbuffer_search (w : World) (b : BufId) (what : List UInt8) (start : Option evbuffer_ptr) :
    Option evbuffer_ptr := evbuffer_search_range w b what start none

/-- The end of `evbuffer_search_eol` where there is no end of a line. -/
def notOk (it : evbuffer_ptr) : evbuffer_ptr × Nat := ({ it with pos := -1 }, 0)

/-- The loop of `EVBUFFER_EOL_CRLF`. -/
def crlfLoop (w : World) (b : BufId) : Nat → evbuffer_ptr → Option (evbuffer_ptr × Nat)
  | 0, _ => none
  | fuel + 1, it =>
      (evbuffer_find_eol_char w it).bind fun (it, r) =>
        if r < 0 then some (notOk it)
        else (evbuffer_getchr w it).bind fun c =>
          if c = LF then some (it, 1)
          else (evbuffer_ptr_memcmp w b it [CR, LF]).bind fun r =>
            if r = 0 then some (it, 2)
            else (evbuffer_ptr_set w b it 1 .EVBUFFER_PTR_ADD).bind fun (it, r) =>
              if r < 0 then some (notOk it) else crlfLoop w b fuel it

/-- The end of a line, and its length. -/
def evbuffer_search_eol (w : World) (b : BufId) (start : Option evbuffer_ptr) :
    evbuffer_eol_style → Option (evbuffer_ptr × Nat)
  | .EVBUFFER_EOL_ANY =>
      (evbuffer_find_eol_char w (start.getD (w.startOf b))).bind fun (it, r) =>
        if r < 0 then some (notOk it)
        else (evbuffer_strspn w it [CR, LF]).map fun (_, extra_drain) => (it, extra_drain.toNat)
  | .EVBUFFER_EOL_CRLF_STRICT =>
      (evbuffer_search w b [CR, LF] (some (start.getD (w.startOf b)))).map fun it =>
        if it.pos < 0 then notOk it else (it, 2)
  | .EVBUFFER_EOL_CRLF => crlfLoop w b ((w.buf b).total_len + 1) (start.getD (w.startOf b))
  | .EVBUFFER_EOL_LF =>
      (evbuffer_strchr w (start.getD (w.startOf b)) LF).map fun (it, r) =>
        if r < 0 then notOk it else (it, 1)

/-- The end of `evbuffer_readln`: the line is copied, and goes with its end. -/
def takeLine (w : World) (b : BufId) (n_to_copy extra_drain : Nat) :
    Option (World × List UInt8) :=
  (evbuffer_remove w b n_to_copy).bind fun (w, _, line) =>
    (evbuffer_drain w b extra_drain).map fun (w, _) => (w, line)

/-- The line, or `none` for `NULL`. -/
def evbuffer_readln (w : World) (b : BufId) (eol_style : evbuffer_eol_style) :
    Option (World × Option (List UInt8)) :=
  if (w.buf b).freeze_start then some (w, none)
  else (evbuffer_search_eol w b none eol_style).bind fun (it, extra_drain) =>
    if it.pos < 0 then some (w, none)
    else if w.fails w.mallocs then some ({ w with mallocs := w.mallocs + 1 }, none)
    else (takeLine { w with mallocs := w.mallocs + 1 } b it.pos.toNat extra_drain).map
      fun (w, line) => (w, some line)

/-- The bytes from the place on where `what` stands first, or `none` for `NULL`. -/
def evbuffer_find (w : World) (b : BufId) (what : List UInt8) :
    Option (World × Option (List UInt8)) :=
  (evbuffer_search w b what none).bind fun it =>
    if it.pos < 0 then some (w, none)
    else (evbuffer_pullup w b (it.pos + what.length)).map fun (w, search) =>
      (w, search.map (·.drop it.pos.toNat))

/-! ## What they are for -/

/-- The first line feed, with a carriage return before it or not. -/
def crlf : List UInt8 → Option (Nat × Nat)
  | [] => none
  | c :: s =>
      if c = LF then some (0, 1)
      else if [CR, LF] <+: c :: s then some (0, 2)
      else (crlf s).map fun (k, n) => (k + 1, n)

def isEol (c : UInt8) : Bool := c = CR ∨ c = LF

/-- What the counts are when `n` bytes, if there are any, have been taken at once. -/
def Counts.took (k : Counts) (n : Nat) : Counts :=
  if n = 0 then k else (k.deleted n).evbuffer_run_callbacks

/-- Where the first line of some bytes ends, and how long its end is. -/
def eol : evbuffer_eol_style → List UInt8 → Option (Nat × Nat)
  | .EVBUFFER_EOL_ANY, s =>
      (s.findIdx? isEol).map fun k => (k, ((s.drop k).takeWhile isEol).length)
  | .EVBUFFER_EOL_CRLF, s => crlf s
  | .EVBUFFER_EOL_CRLF_STRICT, s => (place [CR, LF] s).map fun k => (k, 2)
  | .EVBUFFER_EOL_LF, s => (s.findIdx? (· = LF)).map fun k => (k, 1)

/-- The first line, and what is behind it. -/
def line (style : evbuffer_eol_style) (s : List UInt8) : Option (List UInt8 × List UInt8) :=
  (eol style s).map fun (k, n) => (s.take k, s.drop (k + n))

/-! ## Places -/

/-- `it` is the place `n` in the bytes of `l`; `r` are the chains from its own on. -/
structure At (w : World) (l r : List Addr) (it : evbuffer_ptr) (n : Nat) : Prop where
  suffix : ∃ f, l = f ++ r ∧ n = (w.bytes f).length + it.pos_in_chain
  pos : it.pos = n
  chain : it.chain = r.head?
  inside : it.pos_in_chain ≤ (w.bytes (r.take 1)).length

/-- The chains of a list are there, linked one behind the other. -/
structure Walk (w : World) (l : List Addr) : Prop where
  list : Chain w.next l.head? l
  live : ∀ a ∈ l, ∃ c, w.chain a = some c

section
variable {w : World} {L : BufId → Chains} {X l r : List Addr} {b : BufId} {it stop : evbuffer_ptr}
  {a : Addr} {c : evbuffer_chain} {m s t : List UInt8} {k n fuel : Nat}
  {find : List UInt8 → Option Nat} {q : UInt8 → Bool}

theorem World.Inv.walk (h : w.Inv L X) (b : BufId) : Walk w (L b).all :=
  ⟨(h.shape b).chain.head ▸ (h.shape b).chain, fun _ ha => h.live ha⟩

theorem Walk.start (h : w.Inv L X) (b : BufId) : At w (L b).all (L b).all (w.startOf b) 0 :=
  ⟨⟨[], rfl, rfl⟩, rfl, (h.shape b).chain.head, Nat.zero_le _⟩

namespace At

/-- In the first of the chains `a :: r` are the bytes `s`, from the place on. -/
theorem front (h : At w l (a :: r) it n) (hw : Walk w l) :
    ∃ s, rest w a it.pos_in_chain = some s ∧ (w.bytes l).drop n = s ++ w.bytes r ∧
      w.next a = r.head? ∧ At w l r ⟨it.pos + s.length, r.head?, 0⟩ (n + s.length) ∧
      (w.bytes (([a] : List Addr))).length = it.pos_in_chain + s.length := by
  obtain ⟨f, rfl, hn⟩ := h.suffix
  obtain ⟨c, hc⟩ := hw.live a (by simp)
  have hbytes : w.bytes [a] = c.data := by simp [World.bytes, hc]
  have hi : it.pos_in_chain ≤ c.off := by
    have hi := h.inside
    rwa [List.take_succ_cons, List.take_zero, hbytes] at hi
  have hnext : w.next a = r.head? := hw.list.suffix.head
  have hlen : (c.data.drop it.pos_in_chain).length = c.off - it.pos_in_chain := List.length_drop
  refine ⟨c.data.drop it.pos_in_chain, ?_, ?_, hnext, ⟨⟨f ++ [a], by simp, ?_⟩, ?_, rfl,
    Nat.zero_le _⟩, ?_⟩
  · simp only [rest, hc, Option.bind_some, if_pos hi]
  · rw [World.bytes_append, World.bytes_cons hc, hn, List.drop_length_add_append,
      List.drop_append_of_le_length hi]
  · rw [World.bytes_append, hbytes, List.length_append, hlen, hn]
    simp only [evbuffer_chain.off] at hi ⊢
    omega
  · rw [h.pos]
    push_cast
    rfl
  · rw [hbytes, hlen]
    simp only [evbuffer_chain.off] at hi ⊢
    omega

theorem forward (h : At w l (a :: r) it n) (hk : it.pos_in_chain + k ≤ (w.bytes [a]).length) :
    At w l (a :: r) ⟨it.pos + k, some a, it.pos_in_chain + k⟩ (n + k) := by
  obtain ⟨f, hf, hn⟩ := h.suffix
  refine ⟨⟨f, hf, ?_⟩, ?_, rfl, hk⟩
  · rw [hn, Nat.add_assoc]
  · rw [h.pos]
    push_cast
    rfl

theorem le (h : At w l r it n) : n ≤ (w.bytes l).length := by
  obtain ⟨f, rfl, hn⟩ := h.suffix
  have hi := h.inside
  have hle : (w.bytes (r.take 1)).length ≤ (w.bytes r).length := by
    conv_rhs => rw [← List.take_append_drop 1 r, World.bytes_append, List.length_append]
    exact Nat.le_add_right _ _
  rw [World.bytes_append, List.length_append]
  omega

end At

/-- `it` is the place of a byte. -/
def On (w : World) (l : List Addr) (it : evbuffer_ptr) (n : Nat) : Prop :=
  ∃ a r, At w l (a :: r) it n ∧ it.pos_in_chain < (w.bytes [a]).length

theorem On.at (h : On w l it n) : ∃ r, At w l r it n := by
  obtain ⟨a, r, h, -⟩ := h
  exact ⟨a :: r, h⟩

theorem On.getchr (h : On w l it n) (hw : Walk w l) :
    ∃ x, evbuffer_getchr w it = some x ∧ (w.bytes l).drop n = x :: (w.bytes l).drop (n + 1) := by
  obtain ⟨a, r, h, hlt⟩ := h
  obtain ⟨f, rfl, hn⟩ := h.suffix
  obtain ⟨c, hc⟩ := hw.live a (by simp)
  have hbytes : w.bytes [a] = c.data := by simp [World.bytes, hc]
  rw [hbytes] at hlt
  refine ⟨c.data[it.pos_in_chain], ?_, ?_⟩
  · have hchain : it.chain = some a := h.chain
    simp only [evbuffer_getchr, hchain, hc, Option.bind_some, List.getElem?_eq_getElem hlt]
  · rw [World.bytes_append, World.bytes_cons hc, hn, List.drop_length_add_append,
      Nat.add_assoc, List.drop_length_add_append, List.drop_append_of_le_length (Nat.le_of_lt hlt),
      List.drop_append_of_le_length hlt, List.drop_eq_getElem_cons hlt, List.cons_append]

/-! ## The first byte of a kind -/

theorem findLoop_spec (hw : Walk w l) (h : At w l r it n) (hfind : ∀ s, find s = s.findIdx? q)
    (hfuel : r.length < fuel) :
    (((w.bytes l).drop n).findIdx? q = none ∧ ∃ it', findLoop w find fuel it = some (it', false)) ∨
    ∃ k it', ((w.bytes l).drop n).findIdx? q = some k ∧
      findLoop w find fuel it = some (it', true) ∧ On w l it' (n + k) := by
  induction r generalizing it n fuel with
  | nil =>
      obtain ⟨f, rfl, hn⟩ := h.suffix
      have hi : it.pos_in_chain = 0 := Nat.le_zero.mp h.inside
      have hchain : it.chain = none := h.chain
      cases fuel with
      | zero => cases hfuel
      | succ fuel =>
          refine .inl ⟨?_, it, by rw [findLoop, hchain]⟩
          rw [hn, hi, List.append_nil, Nat.add_zero, List.drop_length]
          rfl
  | cons a r ih =>
      cases fuel with
      | zero => cases hfuel
      | succ fuel =>
          obtain ⟨s, hs, hdrop, hnext, hat, hlen⟩ := h.front hw
          have hchain : it.chain = some a := h.chain
          rw [hdrop, List.findIdx?_append]
          simp only [findLoop, hchain, hs, Option.bind_some, hfind, hnext]
          cases hk : s.findIdx? q with
          | some k =>
              have hlt : k < s.length := (List.findIdx?_eq_some_iff_getElem.mp hk).1
              refine .inr ⟨k, _, rfl, rfl, a, r, h.forward (by omega), ?_⟩
              show it.pos_in_chain + k < _
              omega
          | none =>
              have hbehind : (w.bytes l).drop (n + s.length) = w.bytes r := by
                rw [← List.drop_drop, hdrop, List.drop_left]
              rcases ih hat (Nat.lt_of_succ_lt_succ hfuel) with ⟨hnone, it', hgo⟩ |
                ⟨k, it', hsome, hgo, hon⟩
              · rw [hbehind] at hnone
                exact .inl ⟨by rw [hnone]; rfl, it', hgo⟩
              · rw [hbehind] at hsome
                refine .inr ⟨k + s.length, it', by rw [hsome]; rfl, hgo, ?_⟩
                rwa [Nat.add_assoc, Nat.add_comm s.length] at hon

theorem findWith_spec (hw : Walk w l) (h : At w l r it n) (hfind : ∀ s, find s = s.findIdx? q)
    (hfuel : r.length ≤ w.mallocs) :
    (((w.bytes l).drop n).findIdx? q = none ∧ ∃ it', findWith w find it = some (it', -1)) ∨
    ∃ k it', ((w.bytes l).drop n).findIdx? q = some k ∧
      findWith w find it = some (it', ((n + k : Nat) : Int)) ∧ On w l it' (n + k) := by
  rcases findLoop_spec hw h hfind (Nat.lt_succ_of_le hfuel) with
    ⟨hnone, it', hgo⟩ | ⟨k, it', hsome, hgo, hon⟩
  · exact .inl ⟨hnone, _, by rw [findWith, hgo]; rfl⟩
  · refine .inr ⟨k, it', hsome, ?_, hon⟩
    obtain ⟨_, hat⟩ := hon.at
    rw [findWith, hgo, ← hat.pos]
    rfl

theorem findIdx?_isEol (s : List UInt8) :
    s.findIdx? isEol =
      match s.findIdx? (· = CR), s.findIdx? (· = LF) with
      | some cr, some lf => if lf < cr then some lf else some cr
      | some cr, none => some cr
      | none, some lf => some lf
      | none, none => none := by
  induction s with
  | nil => rfl
  | cons x s ih =>
      have heol : isEol x = (decide (x = CR) || decide (x = LF)) := Bool.decide_or _ _
      simp only [List.findIdx?_cons, ih, heol]
      cases decide (x = CR) <;> cases decide (x = LF) <;>
        cases s.findIdx? (fun c => decide (c = CR)) <;>
        cases s.findIdx? (fun c => decide (c = LF)) <;> simp
      split <;> rfl

theorem eolChunks_eq (hfuel : s.length ≤ fuel) : eolChunks fuel s = s.findIdx? isEol := by
  induction fuel generalizing s with
  | zero =>
      obtain rfl : s = [] := List.length_eq_zero_iff.mp (Nat.le_zero.mp hfuel)
      rfl
  | succ fuel ih =>
      have hrest : eolChunks fuel (s.drop CHUNK_SZ) = (s.drop CHUNK_SZ).findIdx? isEol := by
        refine ih ?_
        rw [List.length_drop, CHUNK_SZ]
        omega
      have hsplit : s.findIdx? isEol = ((s.take CHUNK_SZ).findIdx? isEol).or
          (((s.drop CHUNK_SZ).findIdx? isEol).map (· + (s.take CHUNK_SZ).length)) := by
        rw [← List.findIdx?_append, List.take_append_drop]
      rw [eolChunks, hsplit, findIdx?_isEol, hrest]
      cases (s.take CHUNK_SZ).findIdx? (fun c => decide (c = CR)) <;>
        cases (s.take CHUNK_SZ).findIdx? (fun c => decide (c = LF))
      case none.none =>
        rcases Nat.le_total s.length CHUNK_SZ with hle | hge
        · simp [List.drop_eq_nil_of_le hle]
        · simp [Nat.min_eq_left hge, Nat.add_comm]
      case none.some => rfl
      case some.none => rfl
      case some.some =>
        simp only
        split <;> rfl

theorem find_eol_char_eq (s : List UInt8) : find_eol_char s = s.findIdx? isEol :=
  eolChunks_eq (Nat.le_refl _)

/-! ## A place some bytes on -/

theorem ptrLoop_spec (hw : Walk w l) {f : List Addr} (hl : l = f ++ r)
    (hfuel : r.length ≤ fuel) :
    ((w.bytes r).length ≤ k ∧ ptrLoop w fuel r.head? k = some none) ∨
    ∃ a i, k < (w.bytes r).length ∧ ptrLoop w fuel r.head? k = some (some (a, i)) ∧
      On w l ⟨((w.bytes f).length + k : Nat), some a, i⟩ ((w.bytes f).length + k) := by
  induction r generalizing f k fuel with
  | nil => exact .inl ⟨Nat.zero_le _, by cases fuel <;> rfl⟩
  | cons a r ih =>
      cases fuel with
      | zero => cases hfuel
      | succ fuel =>
          obtain ⟨c, hc⟩ := hw.live a (by simp [hl])
          have hbytes : w.bytes [a] = c.data := by simp [World.bytes, hc]
          have hnext : w.next a = r.head? := (hl ▸ hw.list).suffix.head
          simp only [List.head?_cons, ptrLoop, hc, Option.bind_some, hnext]
          rw [World.bytes_cons hc, List.length_append]
          split
          · rename_i hle
            simp only [evbuffer_chain.off] at hle
            rcases ih (f := f ++ [a]) (k := k - c.off) (by rw [hl]; simp)
              (Nat.le_of_succ_le_succ hfuel) with ⟨hlen, hgo⟩ | ⟨d, i, hlt, hgo, hon⟩
            · refine .inl ⟨?_, hgo⟩
              simp only [evbuffer_chain.off] at hlen
              omega
            · have hsum : (w.bytes (f ++ [a])).length + (k - c.off) = (w.bytes f).length + k := by
                rw [World.bytes_append, hbytes, List.length_append, evbuffer_chain.off]
                omega
              rw [hsum] at hon
              refine .inr ⟨d, i, ?_, hgo, hon⟩
              simp only [evbuffer_chain.off] at hlt
              omega
          · rename_i hgt
            simp only [evbuffer_chain.off] at hgt
            have hlt : k < (w.bytes [a]).length := by
              rw [hbytes]
              omega
            exact .inr ⟨a, k, by omega, rfl, a, r, ⟨⟨f, hl, rfl⟩, rfl, rfl, Nat.le_of_lt hlt⟩, hlt⟩

theorem ptr_add_spec (hw : Walk w l) (h : At w l r it n) (hfuel : r.length ≤ w.mallocs) :
    ((w.bytes l).length ≤ n + k ∧ evbuffer_ptr_set w b it k .EVBUFFER_PTR_ADD =
      some (⟨-1, none, it.pos_in_chain⟩, -1)) ∨
    ∃ it', n + k < (w.bytes l).length ∧
      evbuffer_ptr_set w b it k .EVBUFFER_PTR_ADD = some (it', 0) ∧ On w l it' (n + k) := by
  obtain ⟨f, hl, hn⟩ := h.suffix
  have hlen : (w.bytes l).length = (w.bytes f).length + (w.bytes r).length := by
    rw [hl, World.bytes_append, List.length_append]
  have hsum : (w.bytes f).length + (it.pos_in_chain + k) = n + k := by omega
  rcases ptrLoop_spec (k := it.pos_in_chain + k) hw hl hfuel with
    ⟨hle, hgo⟩ | ⟨a, i, hlt, hgo, hon⟩
  · refine .inl ⟨by omega, ?_⟩
    simp only [evbuffer_ptr_set, h.chain, hgo]
    rfl
  · rw [hsum] at hon
    refine .inr ⟨_, by omega, ?_, hon⟩
    simp only [evbuffer_ptr_set, h.chain, hgo, h.pos]
    rfl

theorem ptr_set_spec (h : w.Inv L X) (b : BufId) :
    ((w.bytes (L b).data).length ≤ k ∧ evbuffer_ptr_set w b it k .EVBUFFER_PTR_SET =
      some (⟨-1, none, it.pos_in_chain⟩, -1)) ∨
    ∃ it', k < (w.bytes (L b).data).length ∧
      evbuffer_ptr_set w b it k .EVBUFFER_PTR_SET = some (it', 0) ∧ On w (L b).all it' k := by
  have hfirst := (h.shape b).chain.head
  rw [← h.bytes_all]
  rcases ptrLoop_spec (r := (L b).all) (k := k) (f := []) (h.walk b) rfl (h.length_le b) with
    ⟨hle, hgo⟩ | ⟨a, i, hlt, hgo, hon⟩
  · refine .inl ⟨hle, ?_⟩
    simp only [evbuffer_ptr_set, hfirst, hgo]
    rfl
  · simp only [World.bytes_nil, List.length_nil, Nat.zero_add] at hon
    refine .inr ⟨_, hlt, ?_, hon⟩
    simp only [evbuffer_ptr_set, hfirst, hgo]
    rfl

/-! ## Some bytes at a place -/

theorem memcmp_eq_zero_iff (hle : m.length ≤ s.length) : memcmp s m = 0 ↔ m <+: s := by
  induction m generalizing s with
  | nil => cases s <;> simp [memcmp]
  | cons y m ih =>
      cases s with
      | nil => cases hle
      | cons x s =>
          rw [memcmp, List.cons_prefix_cons]
          split
          · rename_i hlt
            simp [(UInt8.ne_of_lt hlt).symm]
          · rename_i hle'
            split
            · rename_i hlt
              simp [UInt8.ne_of_lt hlt]
            · rename_i hge
              obtain rfl : x = y := UInt8.le_antisymm (UInt8.not_lt.mp hge) (UInt8.not_lt.mp hle')
              simp [ih (Nat.le_of_succ_le_succ hle)]

theorem prefix_append_iff : m <+: s ++ t ↔ m.take s.length <+: s ∧ m.drop s.length <+: t := by
  induction s generalizing m with
  | nil => simp
  | cons x s ih =>
      cases m with
      | nil => simp
      | cons y m => simp [List.cons_prefix_cons, ih, and_assoc]

theorem memcmpLoop_spec (hw : Walk w l) (h : At w l r it n)
    (hlen : n + m.length ≤ (w.bytes l).length) (hfuel : r.length ≤ fuel) :
    ∃ v, memcmpLoop w fuel it.chain it.pos_in_chain m = some v ∧
      (v = 0 ↔ m <+: (w.bytes l).drop n) := by
  induction r generalizing it n m fuel with
  | nil =>
      obtain ⟨f, rfl, hn⟩ := h.suffix
      rw [List.append_nil] at hlen
      obtain rfl : m = [] := List.length_eq_zero_iff.mp (by omega)
      exact ⟨0, by cases fuel <;> rfl, by simp⟩
  | cons a r ih =>
      cases m with
      | nil => exact ⟨0, by cases fuel <;> rfl, by simp⟩
      | cons x m =>
          cases fuel with
          | zero => cases hfuel
          | succ fuel =>
              obtain ⟨s, hs, hdrop, hnext, hat, -⟩ := h.front hw
              have hchain : it.chain = some a := h.chain
              have hmem : memcmp s ((x :: m).take s.length) = 0 ↔
                  (x :: m).take s.length <+: s :=
                memcmp_eq_zero_iff (by rw [List.length_take]; exact Nat.min_le_left ..)
              simp only [hchain, memcmpLoop, hs, Option.bind_some, hnext]
              rw [hdrop, prefix_append_iff, ← hmem]
              split
              · rename_i hne
                exact ⟨_, rfl, fun h0 => absurd h0 hne, fun h0 => absurd h0.1 hne⟩
              · rename_i heq
                have hbehind : (w.bytes l).drop (n + s.length) = w.bytes r := by
                  rw [← List.drop_drop, hdrop, List.drop_left]
                have hle : n + s.length ≤ (w.bytes l).length := hat.le
                obtain ⟨v, hv, hiff⟩ := ih (m := (x :: m).drop s.length) hat
                  (by rw [List.length_drop]; omega) (Nat.le_of_succ_le_succ hfuel)
                rw [hbehind] at hiff
                exact ⟨v, hv, by rw [hiff]; simp [not_not.mp heq]⟩

theorem memcmp_spec (hw : Walk w l) (hcount : (w.buf b).total_len = (w.bytes l).length)
    (h : At w l r it n) (hfuel : r.length ≤ w.mallocs) :
    ∃ v, evbuffer_ptr_memcmp w b it m = some v ∧ (v = 0 ↔ m <+: (w.bytes l).drop n) := by
  rw [evbuffer_ptr_memcmp, hcount, h.pos]
  split
  · rename_i hlt
    refine ⟨-1, rfl, fun h0 => absurd h0 (by simp), fun hp => ?_⟩
    have hle := hp.length_le
    have hn := h.le
    rw [List.length_drop] at hle
    omega
  · rename_i hge
    exact memcmpLoop_spec hw h (by omega) hfuel

/-! ## Where some bytes stand first -/

theorem At.same_chain {r' : List Addr} {e : evbuffer_ptr} {j : Nat} (h : At w l (a :: r) it n)
    (hw : Walk w l) (he : At w l r' e j) (hchain : e.chain = some a)
    (hs : rest w a it.pos_in_chain = some s) :
    j ≤ n + s.length := by
  obtain ⟨f, hl, hn⟩ := h.suffix
  obtain ⟨f', hl', hj⟩ := he.suffix
  obtain ⟨s', hs', -, -, -, hlen⟩ := h.front hw
  obtain rfl : s' = s := Option.some.inj (hs'.symm.trans hs)
  cases r' with
  | nil => cases hchain.symm.trans he.chain
  | cons d r' =>
      obtain rfl : a = d := Option.some.inj (hchain.symm.trans he.chain)
      obtain rfl : r = r' := (hl ▸ hw.list).suffix.unique (hl' ▸ hw.list).suffix
      obtain rfl : f = f' := List.append_cancel_right (hl.symm.trans hl')
      have hi : e.pos_in_chain ≤ (w.bytes [a]).length := he.inside
      omega

theorem not_prefix {x : UInt8} (hk : ∀ j < k, s[j]? ≠ some x) {j : Nat} (hj : j < k)
    (hlen : k ≤ s.length) : ¬ x :: m <+: (s ++ t).drop j := by
  intro hp
  rw [List.drop_append_of_le_length (by omega), List.drop_eq_getElem_cons (by omega),
    List.cons_append, List.cons_prefix_cons] at hp
  exact hk j hj (by rw [hp.1, List.getElem?_eq_getElem])

/-- What a search from the place `n` returns: the first place of `m`, if its end is not behind
`p`, or that there is none. -/
def Finds (w : World) (l : List Addr) (m : List UInt8) (p : Option evbuffer_ptr) (n : Nat)
    (o : Option evbuffer_ptr) : Prop :=
  ((∀ k, place m ((w.bytes l).drop n) = some k → ∃ e ∈ p, e.pos < (n + k + m.length : Nat)) ∧
    ∃ it, o = some (not_found it)) ∨
  ∃ k it, place m ((w.bytes l).drop n) = some k ∧
    (∀ e ∈ p, (n + k + m.length : Nat) ≤ e.pos) ∧ o = some it ∧ On w l it (n + k)

/-- The first `i` places are not it. -/
theorem Finds.behind {p o : Option evbuffer_ptr} {i : Nat} (h : Finds w l m p (n + i) o)
    (hle : n + i ≤ (w.bytes l).length)
    (hnot : ∀ j < i, ¬ m <+: ((w.bytes l).drop n).drop j) : Finds w l m p n o := by
  have hplace : place m ((w.bytes l).drop n) =
      (place m ((w.bytes l).drop (n + i))).map (· + i) := by
    rw [← List.drop_drop]
    refine Searching.place_drop ?_ hnot
    rw [List.length_drop]
    omega
  have hsum : ∀ k, n + (k + i) = n + i + k := fun k => by omega
  rcases h with ⟨hall, it, ho⟩ | ⟨k, it, hk, hall, ho, hon⟩
  · refine .inl ⟨fun j hj => ?_, it, ho⟩
    rw [hplace] at hj
    obtain ⟨k, hk, rfl⟩ := Option.map_eq_some_iff.mp hj
    rw [hsum]
    exact hall k hk
  · refine .inr ⟨k + i, it, by rw [hplace, hk]; rfl, ?_, ho, ?_⟩
    · rwa [hsum]
    · rwa [hsum]

/-- The bytes are here; whether they end behind `p` is still to be seen. -/
theorem Finds.here {p : Option evbuffer_ptr} (hon : On w l it n) (hm : m <+: (w.bytes l).drop n) :
    Finds w l m p n (if p.any fun e => e.pos < it.pos + m.length then some (not_found it)
      else some it) := by
  have hplace : place m ((w.bytes l).drop n) = some 0 := Searching.place_prefix hm
  have hpos : it.pos + m.length = ((n + 0 + m.length : Nat) : Int) := by
    obtain ⟨r, hat⟩ := hon.at
    rw [hat.pos]
    rfl
  rw [hpos]
  split
  · rename_i hany
    obtain ⟨e, he, hlt⟩ := (Option.any_eq_true _ _).mp hany
    refine .inl ⟨fun j hj => ⟨e, he, ?_⟩, it, rfl⟩
    obtain rfl : 0 = j := Option.some.inj (hplace.symm.trans hj)
    exact of_decide_eq_true hlt
  · rename_i hany
    refine .inr ⟨0, it, hplace, fun e he => Int.not_lt.mp fun hlt => hany ?_, rfl, hon⟩
    exact (Option.any_eq_true _ _).mpr ⟨e, he, decide_eq_true hlt⟩

/-- One byte on, in the same chain or in the next one. -/
theorem At.step {k : Nat} (h : At w l (a :: r) it n) (hw : Walk w l)
    (hs : rest w a it.pos_in_chain = some s) (hk : k < s.length) :
    ∃ r', r'.length ≤ r.length + 1 ∧
      At w l r' (step w ⟨it.pos + k, some a, it.pos_in_chain + k⟩ a
        (it.pos_in_chain + s.length)) (n + (k + 1)) := by
  obtain ⟨s', hs', -, hnext, hat, hlen⟩ := h.front hw
  obtain rfl : s' = s := Option.some.inj (hs'.symm.trans hs)
  rw [Libevent.step]
  split
  · rename_i heq
    have hs' : s'.length = k + 1 := by
      simp only at heq
      omega
    rw [hs'] at hat
    refine ⟨r, Nat.le_succ _, ?_⟩
    rw [hnext]
    simpa [Int.add_assoc] using hat
  · rename_i hneq
    refine ⟨a :: r, Nat.le_refl _, ?_⟩
    have hfwd := h.forward (k := k + 1) (by
      simp only at hneq
      omega)
    simpa [Int.add_assoc, Nat.add_assoc] using hfwd

theorem searchLoop_spec (hw : Walk w l) (hcount : (w.buf b).total_len = (w.bytes l).length)
    {x : UInt8} {p : Option evbuffer_ptr} (hstop : ∀ e ∈ p, ∃ r j, At w l r e j)
    (h : At w l r it n) (hle : r.length ≤ w.mallocs)
    (hfuel : (w.bytes l).length + r.length < fuel + n) :
    Finds w l (x :: m) p n (searchLoop w b (x :: m) x p fuel it) := by
  induction fuel generalizing it n r with
  | zero =>
      have hn := h.le
      omega
  | succ fuel ih =>
      cases r with
      | nil =>
          obtain ⟨f, rfl, hn⟩ := h.suffix
          have hi : it.pos_in_chain = 0 := Nat.le_zero.mp h.inside
          have hchain : it.chain = none := h.chain
          refine .inl ⟨fun k hk => ?_, it, by rw [searchLoop, hchain]⟩
          rw [List.append_nil, hn, hi, Nat.add_zero, List.drop_length] at hk
          simp [place] at hk
      | cons a r =>
          obtain ⟨s, hs, hdrop, hnext, hat, hlen⟩ := h.front hw
          have hchain : it.chain = some a := h.chain
          have hn : n + s.length ≤ (w.bytes l).length := hat.le
          rw [List.length_cons] at hfuel hle
          simp only [searchLoop, hchain, hs, Option.bind_some]
          cases hk : s.findIdx? (fun c => decide (c = x)) with
          | none =>
              have hnot : ∀ j < s.length, ¬ x :: m <+: ((w.bytes l).drop n).drop j := by
                intro j hj
                rw [hdrop]
                refine not_prefix (k := s.length) (fun i hi hx => ?_) hj (Nat.le_refl _)
                have hmem := List.findIdx?_eq_none_iff.mp hk x (List.mem_of_getElem? hx)
                simp at hmem
              simp only [hnext]
              split
              · -- the end is in this chain
                rename_i hlast
                obtain ⟨e, he, hea⟩ := Option.bind_eq_some_iff.mp hlast
                obtain ⟨r', j, hej⟩ := hstop e he
                have hjle := h.same_chain hw hej hea hs
                refine .inl ⟨fun k hk => ⟨e, he, ?_⟩, it, rfl⟩
                have hks : s.length ≤ k := by
                  by_contra hks
                  exact hnot k (by omega) (Searching.place_eq_some hk)
                rw [hej.pos, List.length_cons]
                omega
              · exact (ih hat (by omega) (by omega)).behind hn hnot
          | some k =>
              obtain ⟨hlt, -, hbefore⟩ := List.findIdx?_eq_some_iff_getElem.mp hk
              have hnot : ∀ j < k, ¬ x :: m <+: ((w.bytes l).drop n).drop j := by
                intro j hj
                rw [hdrop]
                refine not_prefix (k := k) (fun i hi hx => ?_) hj (Nat.le_of_lt hlt)
                obtain ⟨hil, hix⟩ := List.getElem?_eq_some_iff.mp hx
                exact hbefore i hi (decide_eq_true hix)
              have hhere : At w l (a :: r) ⟨it.pos + k, some a, it.pos_in_chain + k⟩ (n + k) :=
                h.forward (by omega)
              obtain ⟨v, hv, hiff⟩ := memcmp_spec (m := x :: m) hw hcount hhere
                (by rw [List.length_cons]; omega)
              simp only [hv, Option.bind_some]
              split
              · rename_i h0
                have hon : On w l ⟨it.pos + k, some a, it.pos_in_chain + k⟩ (n + k) := by
                  refine ⟨a, r, hhere, ?_⟩
                  show it.pos_in_chain + k < _
                  omega
                exact (Finds.here hon (hiff.mp h0)).behind (by omega) hnot
              · rename_i h0
                obtain ⟨r', hr', hat'⟩ := h.step hw hs hlt
                refine (ih hat' (by omega) (by omega)).behind (by omega) fun j hj => ?_
                rcases Nat.lt_succ_iff_lt_or_eq.mp hj with hj | rfl
                · exact hnot j hj
                · rw [List.drop_drop]
                  exact fun hp => h0 (hiff.mpr hp)

/-- `start` is the place `n` of `b`, or is `NULL`. -/
def Starts (w : World) (L : BufId → Chains) (b : BufId) (p : Option evbuffer_ptr) (n : Nat) :
    Prop := ∃ r, At w (L b).all r (p.getD (w.startOf b)) n

theorem Starts.none (h : w.Inv L X) (b : BufId) : Starts w L b none 0 := ⟨_, Walk.start h b⟩

theorem World.Inv.length_suffix (h : w.Inv L X) (hat : At w (L b).all r it n) :
    r.length ≤ w.mallocs := by
  obtain ⟨f, hf, -⟩ := hat.suffix
  have hle := h.length_le b
  rw [hf, List.length_append] at hle
  exact Nat.le_of_add_left_le hle

/-- The bytes in front of a place, all if it is `NULL`. -/
def window (s : List UInt8) : Option evbuffer_ptr → List UInt8
  | none => s
  | some e => s.take e.pos.toNat

theorem search_range_spec {p f : Option evbuffer_ptr} (h : w.Inv L []) (hcount : Counted w L b)
    (hstart : Starts w L b p n) (hstop : ∀ e ∈ f, ∃ r j, At w (L b).all r e j)
    (hne : m ≠ []) (hlen : m.length ≤ EV_SSIZE_MAX) :
    (place m ((window (w.bytes (L b).data) f).drop n) = none ∧
      ∃ it, evbuffer_search_range w b m p f = some (not_found it)) ∨
    ∃ k it, place m ((window (w.bytes (L b).data) f).drop n) = some k ∧
      evbuffer_search_range w b m p f = some it ∧ On w (L b).all it (n + k) := by
  obtain ⟨r, hat⟩ := hstart
  rw [← h.bytes_all]
  have hcount' : (w.buf b).total_len = (w.bytes (L b).all).length := by rw [hcount, h.bytes_all]
  obtain ⟨x, m, rfl⟩ := List.exists_cons_of_ne_nil hne
  have hr := h.length_suffix hat
  have hfuel : (w.bytes (L b).all).length + r.length <
      ((w.buf b).total_len + w.mallocs + 1) + n := by omega
  have hloop := searchLoop_spec (m := m) (x := x) (p := f) (h.walk b) hcount' hstop hat hr hfuel
  have hgo : evbuffer_search_range w b (x :: m) p f =
      searchLoop w b (x :: m) x f ((w.buf b).total_len + w.mallocs + 1) (p.getD (w.startOf b)) :=
    if_neg (Nat.not_lt.mpr hlen)
  rw [hgo]
  cases f with
  | none =>
      rcases hloop with ⟨hall, it', hgo⟩ | ⟨k, it', hk, -, hgo, hon⟩
      · refine .inl ⟨?_, it', hgo⟩
        cases hk : place (x :: m) ((w.bytes (L b).all).drop n) with
        | none => exact hk
        | some k =>
            obtain ⟨e, he, -⟩ := hall k hk
            cases he
      · exact .inr ⟨k, it', hk, hgo, hon⟩
  | some e =>
      obtain ⟨r', j, hej⟩ := hstop e rfl
      have hwindow : (window (w.bytes (L b).all) (some e)).drop n =
          ((w.bytes (L b).all).drop n).take (j - n) := by
        rw [window, hej.pos, Int.toNat_natCast, List.drop_take]
      rw [hwindow, Searching.place_take hne]
      rcases hloop with ⟨hall, it', hgo⟩ | ⟨k, it', hk, hall, hgo, hon⟩
      · refine .inl ⟨?_, it', hgo⟩
        cases hk : place (x :: m) ((w.bytes (L b).all).drop n) with
        | none => rfl
        | some k =>
            obtain ⟨d, hd, hlt⟩ := hall k hk
            obtain rfl : e = d := Option.some.inj hd
            rw [hej.pos, List.length_cons] at hlt
            rw [Option.filter_some, if_neg]
            rw [decide_eq_true_eq, List.length_cons]
            omega
      · refine .inr ⟨k, it', ?_, hgo, hon⟩
        have hle := hall e rfl
        rw [hej.pos] at hle
        rw [hk, Option.filter_some, if_pos]
        rw [decide_eq_true_eq]
        omega

/-- In whatever chains the bytes are, what is found is the first place, and a search may go
on from there. -/
theorem search_first {p f : Option evbuffer_ptr} {S : BufId → Contents} (h : Models w L S)
    (hstart : Starts w L b p n) (hstop : ∀ e ∈ f, ∃ r j, At w (L b).all r e j)
    (hne : m ≠ []) (hlen : m.length ≤ EV_SSIZE_MAX) :
    ∃ it, evbuffer_search_range w b m p f = some it ∧
      match place m ((window (S b).bytes f).drop n) with
      | none => it.pos = -1 ∧ it.chain = none
      | some k => it.pos = ((n + k : Nat) : Int) ∧ Starts w L b (some it) (n + k) := by
  rw [← h.bytes]
  rcases search_range_spec h.inv (h.counted b) hstart hstop hne hlen with
    ⟨hnone, it, hgo⟩ | ⟨k, it, hsome, hgo, hon⟩
  · exact ⟨_, hgo, by rw [hnone]; exact ⟨rfl, rfl⟩⟩
  · obtain ⟨r, hat⟩ := hon.at
    refine ⟨it, hgo, ?_⟩
    rw [hsome]
    exact ⟨hat.pos, r, hat⟩

/-- The place is in four chains. -/
theorem search_first_added :
    ∃ w L rs, Refinement.run World.call (World.start fun _ => false)
        [.add_reference 0 [5, 1], .add_reference 0 [2, 4, 1], .add_reference 0 [2],
          .add_reference 0 [3, 9]] = some (w, rs) ∧
      ∃ it, evbuffer_search_range w 0 [1, 2, 3] none none = some it ∧
        match place [1, 2, 3] ((window [5, 1, 2, 4, 1, 2, 3, 9] none).drop 0) with
        | none => it.pos = -1 ∧ it.chain = none
        | some k => it.pos = ((0 + k : Nat) : Int) ∧ Starts w L 0 (some it) (0 + k) := by
  obtain ⟨w, rs, hrun, ⟨L, h⟩, -⟩ := add_references_leave [[5, 1], [2, 4, 1], [2], [3, 9]]
    (b := 0) World.start_represents World.start_plenty rfl rfl
    (by simp [maxLen, EVBUFFER_CHAIN_SIZE]) (by simp [EV_SSIZE_MAX])
  exact ⟨w, L, rs, hrun, search_first h (Starts.none h.inv 0) (by simp) (List.cons_ne_nil _ _)
    (Nat.le_of_ble_eq_true rfl)⟩

/-! ## The end of a line -/

theorem crlf_drop (hk : ∀ c ∈ s.take k, isEol c = false) :
    crlf s = (crlf (s.drop k)).map fun (i, e) => (i + k, e) := by
  induction s generalizing k with
  | nil => simp [crlf]
  | cons c s ih =>
      cases k with
      | zero => simp
      | succ k =>
          rw [List.take_succ_cons] at hk
          have hc : isEol c = false := hk c List.mem_cons_self
          simp only [isEol, decide_eq_false_iff_not, not_or] at hc
          rw [crlf, if_neg hc.2, if_neg (fun hp => hc.1 (List.cons_prefix_cons.mp hp).1.symm),
            ih fun d hd => hk d (List.mem_cons_of_mem c hd), List.drop_succ_cons, Option.map_map]
          rfl

theorem isEol_take (hk : s.findIdx? isEol = some k) : ∀ c ∈ s.take k, isEol c = false := by
  intro c hc
  obtain ⟨hlt, -, hbefore⟩ := List.findIdx?_eq_some_iff_getElem.mp hk
  obtain ⟨j, hj, rfl⟩ := List.mem_take_iff_getElem.mp hc
  simpa using hbefore j (by omega)

theorem spanLoop_spec (hw : Walk w l) (h : At w l (a :: r) it n) (hfuel : r.length < fuel) :
    ∃ d i, spanLoop w m fuel a it.pos_in_chain k =
      some (d, i, k + (((w.bytes l).drop n).takeWhile (· ∈ m)).length) := by
  induction r generalizing a it n k fuel with
  | nil =>
      cases fuel with
      | zero => cases hfuel
      | succ fuel =>
          obtain ⟨s, hs, hdrop, hnext, -, -⟩ := h.front hw
          rw [hdrop, World.bytes_nil, List.append_nil]
          simp only [spanLoop, hs, Option.bind_some, hnext, List.head?_nil]
          split
          · exact ⟨_, _, rfl⟩
          · exact ⟨_, _, rfl⟩
  | cons d r ih =>
      cases fuel with
      | zero => cases hfuel
      | succ fuel =>
          obtain ⟨s, hs, hdrop, hnext, hat, -⟩ := h.front hw
          have hbehind : (w.bytes l).drop (n + s.length) = w.bytes (d :: r) := by
            rw [← List.drop_drop, hdrop, List.drop_left]
          rw [hdrop, List.takeWhile_append]
          simp only [spanLoop, hs, Option.bind_some, hnext, List.head?_cons]
          have hle : (s.takeWhile (· ∈ m)).length ≤ s.length := (List.takeWhile_prefix _).length_le
          split
          · rename_i hlt
            rw [if_neg (Nat.ne_of_lt hlt)]
            exact ⟨_, _, rfl⟩
          · rename_i hge
            have heq : (s.takeWhile (· ∈ m)).length = s.length := by omega
            rw [if_pos heq]
            obtain ⟨z, i, hgo⟩ := ih (k := k + s.length) hat (Nat.lt_of_succ_lt_succ hfuel)
            rw [hbehind] at hgo
            refine ⟨z, i, ?_⟩
            rw [heq, List.length_append, ← Nat.add_assoc]
            exact hgo

theorem crlfLoop_spec (h : w.Inv L []) (hcount : (w.buf b).total_len = (w.bytes (L b).all).length)
    (hat : At w (L b).all r it n) (hfuel : (w.bytes (L b).all).length < fuel + n) :
    (crlf ((w.bytes (L b).all).drop n) = none ∧
      ∃ it', crlfLoop w b fuel it = some (notOk it')) ∨
    ∃ k e it', crlf ((w.bytes (L b).all).drop n) = some (k, e) ∧
      crlfLoop w b fuel it = some (it', e) ∧ On w (L b).all it' (n + k) := by
  induction fuel generalizing it n r with
  | zero =>
      have hle := hat.le
      omega
  | succ fuel ih =>
      have hw := h.walk b
      rcases findWith_spec hw hat find_eol_char_eq (h.length_suffix hat) with
        ⟨hnone, it', hgo⟩ | ⟨k, it', hsome, hgo, hon⟩
      · have hall : ∀ c ∈ ((w.bytes (L b).all).drop n).take ((w.bytes (L b).all).drop n).length,
            isEol c = false := by
          rw [List.take_length]
          exact List.findIdx?_eq_none_iff.mp hnone
        refine .inl ⟨?_, it', ?_⟩
        · rw [crlf_drop hall, List.drop_length]
          rfl
        · rw [crlfLoop, evbuffer_find_eol_char, hgo]
          rfl
      · obtain ⟨x, hx, hdrop⟩ := hon.getchr hw
        obtain ⟨r', hat'⟩ := hon.at
        have hcrlf := crlf_drop (isEol_take hsome)
        rw [List.drop_drop, hdrop] at hcrlf
        have hgo' : crlfLoop w b (fuel + 1) it =
            if x = LF then some (it', 1)
            else (evbuffer_ptr_memcmp w b it' [CR, LF]).bind fun r =>
              if r = 0 then some (it', 2)
              else (evbuffer_ptr_set w b it' 1 .EVBUFFER_PTR_ADD).bind fun (it, r) =>
                if r < 0 then some (notOk it) else crlfLoop w b fuel it := by
          rw [crlfLoop, evbuffer_find_eol_char, hgo]
          simp only [Option.bind_some, hx]
          exact if_neg (by omega)
        rw [hcrlf, hgo']
        by_cases hlf : x = LF
        · rw [if_pos hlf, crlf, if_pos hlf]
          refine .inr ⟨k, 1, it', ?_, rfl, hon⟩
          simp
        · obtain ⟨v, hv, hiff⟩ := memcmp_spec (m := [CR, LF]) hw hcount hat' (h.length_suffix hat')
          rw [hdrop] at hiff
          rw [if_neg hlf, hv, Option.bind_some, crlf, if_neg hlf]
          by_cases hcr : v = 0
          · rw [if_pos hcr, if_pos (hiff.mp hcr)]
            refine .inr ⟨k, 2, it', ?_, rfl, hon⟩
            simp
          · rw [if_neg hcr, if_neg fun hp => hcr (hiff.mpr hp), Option.map_map]
            rcases ptr_add_spec (k := 1) hw hat' (h.length_suffix hat') with
              ⟨hend, hset⟩ | ⟨it'', hlt, hset, hon'⟩
            · refine .inl ⟨?_, ⟨-1, none, it'.pos_in_chain⟩, ?_⟩
              · rw [List.drop_eq_nil_of_le hend]
                rfl
              · rw [hset]
                rfl
            · obtain ⟨r'', hat''⟩ := hon'.at
              simp only [hset, Option.bind_some, Int.lt_irrefl, if_false]
              rcases ih hat'' (by omega) with ⟨hnone, it₁, hgo₁⟩ | ⟨i, e, it₁, hsome₁, hgo₁, hon₁⟩
              · exact .inl ⟨by rw [hnone]; rfl, it₁, hgo₁⟩
              · refine .inr ⟨i + 1 + k, e, it₁, by rw [hsome₁]; rfl, hgo₁, ?_⟩
                have hsum : n + (i + 1 + k) = n + k + 1 + i := by omega
                rwa [hsum]

theorem search_eol_spec {p : Option evbuffer_ptr} (h : w.Inv L []) (hcount : Counted w L b)
    (hstart : Starts w L b p n) (style : evbuffer_eol_style) :
    (eol style ((w.bytes (L b).data).drop n) = none ∧
      ∃ it, evbuffer_search_eol w b p style = some (notOk it)) ∨
    ∃ k e it, eol style ((w.bytes (L b).data).drop n) = some (k, e) ∧
      evbuffer_search_eol w b p style = some (it, e) ∧ On w (L b).all it (n + k) := by
  rw [← h.bytes_all]
  have hw := h.walk b
  obtain ⟨r, hat⟩ := hstart
  have hr := h.length_suffix hat
  cases style with
  | EVBUFFER_EOL_ANY =>
      rcases findWith_spec hw hat find_eol_char_eq hr with
        ⟨hnone, it', hgo⟩ | ⟨k, it', hsome, hgo, hon⟩
      · refine .inl ⟨by rw [eol, hnone]; rfl, it', ?_⟩
        rw [evbuffer_search_eol, evbuffer_find_eol_char, hgo]
        rfl
      · obtain ⟨a, r', hat', hlt⟩ := hon
        have hfuel := h.length_suffix hat'
        obtain ⟨d, i, hspan⟩ := spanLoop_spec (m := [CR, LF]) (k := 0) hw hat'
          (Nat.lt_of_succ_le hfuel)
        have hset : (fun c => decide (c ∈ [CR, LF])) = isEol := by
          funext c
          simp [isEol]
        rw [hset, Nat.zero_add, ← List.drop_drop] at hspan
        refine .inr ⟨k, _, it', by rw [eol, hsome]; rfl, ?_, a, r', hat', hlt⟩
        have hchain : it'.chain = some a := hat'.chain
        rw [evbuffer_search_eol, evbuffer_find_eol_char, hgo, Option.bind_some]
        simp only [evbuffer_strspn, hchain, hspan]
        exact if_neg (by omega)
  | EVBUFFER_EOL_CRLF =>
      have hcount' : (w.buf b).total_len = (w.bytes (L b).all).length := by rw [hcount, h.bytes_all]
      have hfuel : (w.bytes (L b).all).length < ((w.buf b).total_len + 1) + n := by omega
      rcases crlfLoop_spec h hcount' hat hfuel with
        ⟨hnone, it', hgo⟩ | ⟨k, e, it', hsome, hgo, hon⟩
      · exact .inl ⟨hnone, it', hgo⟩
      · exact .inr ⟨k, e, it', hsome, hgo, hon⟩
  | EVBUFFER_EOL_CRLF_STRICT =>
      have hstart : Starts w L b (some (p.getD (w.startOf b))) n := ⟨r, hat⟩
      rw [h.bytes_all]
      rcases search_range_spec (m := [CR, LF]) (f := none) h hcount hstart (by simp)
        (List.cons_ne_nil _ _) (Nat.le_of_ble_eq_true rfl) with
        ⟨hnone, it', hgo⟩ | ⟨k, it', hsome, hgo, hon⟩
      · rw [window] at hnone
        refine .inl ⟨by rw [eol, hnone]; rfl, not_found it', ?_⟩
        rw [evbuffer_search_eol, evbuffer_search, hgo]
        rfl
      · rw [window] at hsome
        obtain ⟨_, hat'⟩ := hon.at
        refine .inr ⟨k, 2, it', by rw [eol, hsome]; rfl, ?_, hon⟩
        rw [evbuffer_search_eol, evbuffer_search, hgo, Option.map_some, if_neg]
        rw [hat'.pos]
        omega
  | EVBUFFER_EOL_LF =>
      rcases findWith_spec (q := fun c => c = LF) hw hat (fun _ => rfl) hr with
        ⟨hnone, it', hgo⟩ | ⟨k, it', hsome, hgo, hon⟩
      · refine .inl ⟨by rw [eol, hnone]; rfl, it', ?_⟩
        rw [evbuffer_search_eol, evbuffer_strchr, hgo]
        rfl
      · refine .inr ⟨k, 1, it', by rw [eol, hsome]; rfl, ?_, hon⟩
        rw [evbuffer_search_eol, evbuffer_strchr, hgo]
        exact congrArg some (if_neg (by omega))

/-! ## Finding and reading -/

/-- The bytes that are found stand in one chain. -/
theorem find_spec {S : BufId → Contents} (h : Models w L S) (hne : m ≠ [])
    (hlen : m.length ≤ EV_SSIZE_MAX) (hmax : (S b).bytes.length ≤ maxLen) :
    ∃ w' r, evbuffer_find w b m = some (w', r) ∧ Represents w' S ∧
      (r = none ↔ place m (S b).bytes = none ∨ w.OutOfMemory w') ∧
      ∀ t ∈ r, ∃ k, place m (S b).bytes = some k ∧ m <+: t ∧ t <+: (S b).bytes.drop k := by
  rcases search_range_spec (f := none) h.inv (h.counted b) (Starts.none h.inv b) (by simp) hne
    hlen with ⟨hnone, it, hgo⟩ | ⟨k, it, hsome, hgo, hon⟩
  · rw [window, List.drop_zero, h.bytes] at hnone
    refine ⟨w, none, ?_, ⟨L, h⟩, by simp [hnone], by simp⟩
    rw [evbuffer_find, evbuffer_search, hgo]
    rfl
  · rw [window, List.drop_zero, h.bytes] at hsome
    rw [Nat.zero_add] at hon
    obtain ⟨r, hat⟩ := hon.at
    have hprefix := Searching.place_eq_some hsome
    have hfits : k + m.length ≤ (S b).bytes.length := by
      have hle := hprefix.length_le
      have hk := hat.le
      rw [h.inv.bytes_all, h.bytes] at hk
      rw [List.length_drop] at hle
      omega
    have hsize : ∀ n, pullSize n (k + m.length : Nat) = k + m.length := fun n => by
      rw [pullSize, if_neg (by omega), Int.toNat_natCast]
    have hmlen := List.length_pos_of_ne_nil hne
    have hgo' : evbuffer_find w b m = (evbuffer_pullup w b (k + m.length : Nat)).map
        fun (w, search) => (w, search.map (·.drop k)) := by
      rw [evbuffer_find, evbuffer_search, hgo]
      simp only [Option.bind_some, hat.pos, Int.toNat_natCast]
      exact if_neg (by omega)
    have hf : w.Fits (.pullup b (k + m.length : Nat)) := by
      show pullSize _ _ ≤ maxLen
      rw [hsize]
      omega
    obtain ⟨w', r, S', hcall, hallows, hout⟩ := h.call ⟨hf, trivial⟩
    simp only [Allows, hsize] at hallows
    obtain ⟨rfl, hallows⟩ := hallows
    rw [if_neg (by omega)] at hallows
    obtain ⟨⟨w₁, o⟩, hpull, hx⟩ := Option.map_eq_some_iff.mp hcall
    rw [hgo', hpull]
    cases o with
    | none =>
        cases hx
        refine ⟨w', none, rfl, hout.represents, ?_, by simp⟩
        rcases hallows with ⟨hmem, -⟩ | ⟨h0, -⟩
        · simp [hmem]
        · cases h0
    | some t =>
        cases hx
        have hmem := pullup_some hpull
        obtain ⟨-, hle, hp⟩ := hallows.resolve_left fun hfail => hmem hfail.1
        have hdrop : t.drop k <+: (S' b).bytes.drop k := by
          obtain ⟨u, hu⟩ := hp
          have hle : k ≤ t.length := Nat.le_trans (Nat.le_add_right ..) hle
          rw [← hu, List.drop_append_of_le_length hle]
          exact List.prefix_append _ _
        refine ⟨w', some (t.drop k), rfl, hout.represents, by simp [hsome, hmem], fun u hu => ?_⟩
        obtain rfl : t.drop k = u := Option.some.inj hu
        refine ⟨k, hsome, ?_, hdrop⟩
        have hle : k + m.length ≤ t.length := hle
        exact List.prefix_of_prefix_length_le hprefix hdrop (by rw [List.length_drop]; omega)

/-- The bytes that are found stand in four chains. -/
theorem find_spec_added :
    ∃ w rs, Refinement.run World.call (World.start fun _ => false)
        [.add_reference 0 [5, 1], .add_reference 0 [2, 4, 1], .add_reference 0 [2],
          .add_reference 0 [3, 9]] = some (w, rs) ∧
      ∃ w' r, evbuffer_find w 0 [1, 2, 3] = some (w', r) ∧
        Represents w' (Function.update (fun _ => ⟨[], false, false⟩) 0
          ⟨[5, 1, 2, 4, 1, 2, 3, 9], false, false⟩) ∧
        (r = none ↔ place [1, 2, 3] [5, 1, 2, 4, 1, 2, 3, 9] = none ∨ w.OutOfMemory w') ∧
        ∀ t ∈ r, ∃ k, place [1, 2, 3] [5, 1, 2, 4, 1, 2, 3, 9] = some k ∧ [1, 2, 3] <+: t ∧
          t <+: ([5, 1, 2, 4, 1, 2, 3, 9] : List UInt8).drop k := by
  obtain ⟨w, rs, hrun, ⟨L, h⟩, -⟩ := add_references_leave [[5, 1], [2, 4, 1], [2], [3, 9]]
    (b := 0) World.start_represents World.start_plenty rfl rfl
    (by simp [maxLen, EVBUFFER_CHAIN_SIZE]) (by simp [EV_SSIZE_MAX])
  exact ⟨w, rs, hrun, find_spec h (List.cons_ne_nil _ _) (Nat.le_of_ble_eq_true rfl) (by decide)⟩

theorem crlf_pos {e : Nat} (hs : crlf s = some (k, e)) : 0 < e ∧ k + e ≤ s.length := by
  induction s generalizing k with
  | nil => cases hs
  | cons c s ih =>
      rw [crlf] at hs
      split at hs
      · obtain ⟨rfl, rfl⟩ := Prod.mk.inj (Option.some.inj hs)
        simp
      · split at hs
        · rename_i hp
          obtain ⟨rfl, rfl⟩ := Prod.mk.inj (Option.some.inj hs)
          have hle := hp.length_le
          simp only [List.length_cons, List.length_nil] at hle ⊢
          omega
        · obtain ⟨⟨i, e'⟩, hi, heq⟩ := Option.map_eq_some_iff.mp hs
          obtain ⟨rfl, rfl⟩ := Prod.mk.inj heq
          obtain ⟨hpos, hle⟩ := ih hi
          rw [List.length_cons]
          omega

theorem eol_pos {style : evbuffer_eol_style} {e : Nat} (hs : eol style s = some (k, e)) :
    0 < e ∧ k + e ≤ s.length := by
  cases style with
  | EVBUFFER_EOL_ANY =>
      obtain ⟨i, hi, heq⟩ := Option.map_eq_some_iff.mp hs
      obtain ⟨rfl, rfl⟩ := Prod.mk.inj heq
      obtain ⟨hlt, hx, -⟩ := List.findIdx?_eq_some_iff_getElem.mp hi
      have hle := (List.takeWhile_prefix isEol (l := s.drop i)).length_le
      rw [List.drop_eq_getElem_cons hlt, List.takeWhile_cons, if_pos hx] at hle ⊢
      simp only [List.length_cons, List.length_drop] at hle ⊢
      omega
  | EVBUFFER_EOL_CRLF => exact crlf_pos hs
  | EVBUFFER_EOL_CRLF_STRICT =>
      obtain ⟨i, hi, heq⟩ := Option.map_eq_some_iff.mp hs
      obtain ⟨rfl, rfl⟩ := Prod.mk.inj heq
      have hle := (Searching.place_eq_some hi).length_le
      rw [List.length_drop, List.length_cons, List.length_singleton] at hle
      omega
  | EVBUFFER_EOL_LF =>
      obtain ⟨i, hi, heq⟩ := Option.map_eq_some_iff.mp hs
      obtain ⟨rfl, rfl⟩ := Prod.mk.inj heq
      obtain ⟨hlt, -⟩ := List.findIdx?_eq_some_iff_getElem.mp hi
      omega

theorem takeLine_spec {e : Nat} (h : w.Inv L []) (hcount : Counted w L b)
    (hfreeze : (w.buf b).freeze_start = false) (he : 0 < e)
    (hle : k + e ≤ (w.bytes (L b).data).length) :
    ∃ w' L', takeLine w b k e = some (w', (w.bytes (L b).data).take k) ∧
      Becomes w L b w' L' ((w.bytes (L b).data).drop (k + e)) (((w.buf b).took k).took e) ∧
      ((L b).Tight → (L' b).Tight) := by
  have hfirst : ∃ w₁ L₁ v, evbuffer_remove w b k = some (w₁, v, (w.bytes (L b).data).take k) ∧
      Becomes w L b w₁ L₁ ((w.bytes (L b).data).drop k) ((w.buf b).took k) ∧
      ((L b).Tight → (L₁ b).Tight) := by
    have hremove := remove_spec (n := k) h hcount
    rcases Nat.eq_zero_or_pos k with rfl | hk
    · rw [Nat.zero_min, if_pos rfl] at hremove
      exact ⟨w, L, 0, hremove, .refl h, id⟩
    · rw [if_neg (by omega), if_neg (Bool.eq_false_iff.mp hfreeze)] at hremove
      obtain ⟨w₁, L₁, hgo, hbecomes, htight⟩ := hremove
      rw [hcount, Nat.min_eq_left (by omega)] at hbecomes
      refine ⟨w₁, L₁, _, hgo, ?_, htight⟩
      rwa [Counts.took, if_neg (Nat.ne_of_gt hk)]
  obtain ⟨w₁, L₁, v, hgo, hbecomes, htight⟩ := hfirst
  have hrest : ((w.bytes (L b).data).drop k).length = (w.bytes (L b).data).length - k :=
    List.length_drop
  have htotal : (w₁.buf b).total_len = (w.bytes (L b).data).length - k := by
    rw [hbecomes.counts, Counts.took, ← hcount]
    split
    · rename_i h0
      rw [h0, Nat.sub_zero]
    · rw [Counts.run_callbacks_total]
      rfl
  have hfreeze₁ : (w₁.buf b).freeze_start = false := by
    rw [hbecomes.counts, Counts.took]
    split
    · exact hfreeze
    · rw [Counts.run_freeze_start]
      exact hfreeze
  have hdrain := drain_spec (n := e) hbecomes.inv (by rw [Counted, hbecomes.bytes, hrest, htotal])
  rw [hbecomes.bytes, hrest, if_neg (by omega), if_neg (Bool.eq_false_iff.mp hfreeze₁), htotal,
    Nat.min_eq_left (by omega), List.drop_drop, hbecomes.counts] at hdrain
  obtain ⟨w₂, L₂, hgo₂, hbecomes₂, htight₂⟩ := hdrain
  refine ⟨w₂, L₂, ?_, hbecomes.trans ?_, fun ht => htight₂ (htight ht)⟩
  · simp only [takeLine, hgo, Option.bind_some, hgo₂, Option.map_some]
  · rw [Counts.took, if_neg (Nat.ne_of_gt he)]
    exact hbecomes₂

/-- The first line is taken, with its end, if there is one, and memory for it. -/
theorem readln_spec (h : w.Inv L []) (hcount : Counted w L b) (style : evbuffer_eol_style) :
    if (w.buf b).freeze_start ∨ line style (w.bytes (L b).data) = none then
      evbuffer_readln w b style = some (w, none)
    else if w.fails w.mallocs then
      evbuffer_readln w b style = some ({ w with mallocs := w.mallocs + 1 }, none)
    else ∃ w' L' k e, eol style (w.bytes (L b).data) = some (k, e) ∧
      evbuffer_readln w b style = some (w', some ((w.bytes (L b).data).take k)) ∧
      Becomes w L b w' L' ((w.bytes (L b).data).drop (k + e)) (((w.buf b).took k).took e) ∧
      ((L b).Tight → (L' b).Tight) := by
  cases hfreeze : (w.buf b).freeze_start with
  | true =>
      rw [if_pos (.inl rfl), evbuffer_readln, if_pos hfreeze]
  | false =>
      rcases search_eol_spec h hcount (Starts.none h b) style with
        ⟨hnone, it, hsearch⟩ | ⟨k, e, it, hsome, hsearch, hon⟩
      · rw [List.drop_zero] at hnone
        rw [if_pos (.inr (by rw [line, hnone]; rfl)), evbuffer_readln,
          if_neg (Bool.eq_false_iff.mp hfreeze), hsearch]
        rfl
      · rw [List.drop_zero] at hsome
        rw [Nat.zero_add] at hon
        obtain ⟨r, hat⟩ := hon.at
        have hpos : ¬ it.pos < 0 := by
          rw [hat.pos]
          omega
        have hline : line style (w.bytes (L b).data) ≠ none := by
          rw [line, hsome]
          exact Option.some_ne_none _
        have hgo : evbuffer_readln w b style =
            if w.fails w.mallocs then some ({ w with mallocs := w.mallocs + 1 }, none)
            else (takeLine { w with mallocs := w.mallocs + 1 } b k e).map
              fun (w, line) => (w, some line) := by
          rw [evbuffer_readln, if_neg (Bool.eq_false_iff.mp hfreeze), hsearch]
          have hk : it.pos.toNat = k := by rw [hat.pos, Int.toNat_natCast]
          simp only [Option.bind_some, if_neg hpos, hk]
        rw [if_neg (by simp [hline]), hgo]
        split
        · rfl
        · obtain ⟨hepos, hle⟩ := eol_pos hsome
          obtain ⟨w', L', htake, hbecomes, htight⟩ :=
            takeLine_spec (k := k) h.next_malloc hcount hfreeze hepos hle
          refine ⟨w', L', k, e, hsome, ?_, ⟨hbecomes.inv, ?_, hbecomes.bytes, hbecomes.counts⟩,
            htight⟩
          · rw [htake]
            rfl
          · exact ⟨hbecomes.frame.fails, Nat.le_trans (Nat.le_succ _) hbecomes.frame.mallocs,
              hbecomes.frame.lists, hbecomes.frame.buf, hbecomes.frame.chain⟩

end

end CppWorkspace.Libevent
