/-
# `CppWorkspace.LibeventServer.ParseLoop` — the second loop of `DoRead`, access by access

`DoRead` embeds a connection that cannot be out of shape.  Here nothing relates
`in_buf_len` to the buffer: it is a `short`, the lengths are compared as the
source compares them, and a handler may be any function of the connection and
of the rest of the program.  What the loop does with `in_buf` is written down,
access by access, with the connection it finds:

    field lo hi      bytes `[lo, hi)` of the head are read
    dispatch h       the handler of a frame is called
    length           `in_buf_len` has been assigned
    send             `evbuffer_add` of the output buffer
    check            `assert(c->in_buf_len>0)`
    move p n         `memmove` of the `n` bytes behind the first `p`

Each entry carries the number of bytes that are held at `c->in_buf`: this is
`in_buf_len` at the top of the round, also between `in_buf_len -= h->pkglen`
and the `memmove`, where `h->pkglen` is read once more and the frame is still
in its place.

`parseLoop_safe` says that for a handler that leaves `in_buf` and `in_buf_len`
alone, unless it asks for the connection to be closed, no access leaves what is
held; `parseLoop_agrees` that `DoRead`'s loop is this one.
-/
import CppWorkspace.Lib.Framing
import CppWorkspace.LibeventServer.DoRead

namespace CppWorkspace.LibeventServer.ParseLoop

/-! ## The loop -/

/-- The members of a `_Conn` that the loop and the handlers use. -/
structure Item where
  in_buf : List UInt8
  in_buf_len : Int
  out : Out

/-- A handler, with the rest `W` of the program that it reads and writes. -/
abbrev Handler (W : Type) := W → Item → W × Item × Int

/-- The table of handlers, and the mark of a packet. -/
structure Table (W : Type) where
  m_FunPtrList : Int → Option (Handler W)
  m_stx : Int

/-- What the loop reads, calls or moves. -/
inductive Access
  | field (lo hi : Nat)
  | dispatch (h : Head)
  | length
  | send
  | check
  | move (p : Int) (n : Nat)
deriving DecidableEq, Repr

/-- An access, the connection it finds, and the bytes held at `c->in_buf`. -/
structure Entry where
  held : Int
  conn : Item
  access : Access

/-- The loop in a state of the program. -/
structure Loop (W : Type) where
  w : W
  conn : Item
  closed : Bool
  log : List Entry

variable {W : Type}

namespace Loop

def note (s : Loop W) (held : Int) (as : List Access) : Loop W :=
  { s with log := s.log ++ as.map fun a => ⟨held, s.conn, a⟩ }

/-- `c->in_buf_len = n`. -/
def setLen (s : Loop W) (held n : Int) : Loop W :=
  ({ s with conn := { s.conn with in_buf_len := n } } : Loop W).note held [.length]

/-- `DispatchFunction(nFunID, c)`; `0` if nothing is registered. -/
def dispatch (r : Table W) (s : Loop W) (nFunID : Int) : Loop W × Int :=
  match r.m_FunPtrList nFunID with
  | none => (s, 0)
  | some f =>
      ({ s with w := (f s.w s.conn).1, conn := (f s.w s.conn).2.1 }, (f s.w s.conn).2.2)

/-- `CloseConn`. -/
def close (r : Table W) (s : Loop W) : Loop W :=
  { ((s.setLen 0 0).dispatch r emFunClosed).1 with closed := true }

/-- The `switch` on the code of a handler that does not close. -/
def answer (s : Loop W) (code : Int) : Loop W :=
  if code = emFunReturnSend then s.note s.conn.in_buf_len [.send] else s

/-- `memmove(c->in_buf, c->in_buf + p, n)`. -/
def memmove (s : Loop W) (p : Int) (n : Nat) : Loop W :=
  { s with conn := { s.conn with
      in_buf := (s.conn.in_buf.drop p.toNat).take n ++ s.conn.in_buf.drop n } }

/-- The end of a round: `in_buf_len -= h->pkglen`, and the `memmove` if something is left. -/
def next (s : Loop W) : Loop W × Bool :=
  let held := s.conn.in_buf_len
  let h := Head.ofBytes s.conn.in_buf
  let t := (s.note held [.field 4 6]).setLen held (addShort held (-h.pkglen))
  if t.conn.in_buf_len = 0 then (t, false)
  else ((t.note held
    [.check, .field 4 6, .move h.pkglen (toUnsigned t.conn.in_buf_len)]).memmove h.pkglen
      (toUnsigned t.conn.in_buf_len), true)

/-- One round, and whether there is another one. -/
def round (r : Table W) (s : Loop W) : Loop W × Bool :=
  let held := s.conn.in_buf_len
  let h := Head.ofBytes s.conn.in_buf
  if toUnsigned held < sizeofHead then (s, false)
  else if emMaxBuffLen - sizeofHead < toUnsigned h.pkglen ∨ toUnsigned h.pkglen < sizeofHead then
    ((s.note held [.field 4 6]).close r, false)
  else if h.stx ≠ r.m_stx then ((s.note held [.field 4 6, .field 0 4]).close r, false)
  else if held < h.pkglen then (s.note held [.field 4 6, .field 0 4], false)
  else if emFunBase < h.nFunID ∧ (r.m_FunPtrList h.nFunID).isSome then
    let d := (s.note held [.field 4 6, .field 0 4, .field 6 8, .dispatch h]).dispatch r h.nFunID
    if d.2 = emFunReturClose then (d.1.close r, false) else (d.1.answer d.2).next
  else ((s.note held [.field 4 6, .field 0 4, .field 6 8]).close r, false)

/-- `while (true)`. -/
def parseLoop (r : Table W) : Nat → Loop W → Option (Loop W)
  | 0, _ => none
  | fuel + 1, s => if (s.round r).2 then parseLoop r fuel (s.round r).1 else some (s.round r).1

/-- The loop is entered with what `DoRead` has read. -/
def enter (w : W) (c : Item) : Loop W := { w := w, conn := c, closed := false, log := [] }

end Loop

/-! ## What is safe -/

/-- The handlers leave `in_buf` and `in_buf_len` alone, unless they ask for the
connection to be closed. -/
def Table.Keeps (r : Table W) : Prop :=
  ∀ id f, r.m_FunPtrList id = some f → ∀ w c, (f w c).2.2 ≠ emFunReturClose →
    (f w c).2.1.in_buf = c.in_buf ∧ (f w c).2.1.in_buf_len = c.in_buf_len

/-- `0 <= n <= emMaxBuffLen`. -/
def InRange (n : Int) : Prop := 0 ≤ n ∧ n ≤ emMaxBuffLen

/-- An access to what is held only. -/
def Access.Within (held : Int) (c : Item) : Access → Prop
  | .field _ hi => (hi : Int) ≤ held
  | .dispatch h =>
      h = Head.ofBytes c.in_buf ∧ (sizeofHead : Int) ≤ h.pkglen
        ∧ h.pkglen ≤ emMaxBuffLen - sizeofHead ∧ h.pkglen ≤ held
  | .length => True
  | .send => True
  | .check => 0 < c.in_buf_len
  | .move p n => 0 ≤ p ∧ p + n ≤ held

/-- The access is inside the buffer. -/
structure Entry.Safe (e : Entry) : Prop where
  len : InRange e.conn.in_buf_len
  held : InRange e.held
  within : e.access.Within e.held e.conn

/-- The frame that an entry dispatches. -/
def Entry.frame (e : Entry) : Option (List UInt8) :=
  match e.access with
  | .dispatch h => some (e.conn.in_buf.take h.pkglen.toNat)
  | _ => none

/-- The frames that were dispatched, in order. -/
def frames (log : List Entry) : List (List UInt8) := log.filterMap Entry.frame

/-- What is received and not yet handled. -/
def Item.unread (c : Item) : List UInt8 := c.in_buf.take c.in_buf_len.toNat

/-- A return of the loop that was entered with the connection `c`. -/
structure Safe (r : Table W) (c : Item) (t : Loop W) : Prop where
  accesses : ∀ e ∈ t.log, e.Safe
  /-- the frames follow each other in the old content -/
  consecutive : (frames t.log).flatten <+: c.unread
  head : ∀ f ∈ frames t.log, sizeofHead ≤ f.length
  count : (frames t.log).length ≤ c.in_buf_len.toNat / sizeofHead
  len : t.closed = false → InRange t.conn.in_buf_len
  suffix : t.closed = false → c.unread = (frames t.log).flatten ++ t.conn.unread
  cleared : t.closed = true →
    (∀ f, r.m_FunPtrList emFunClosed = some f →
      ∀ w c, (f w c).2.1.in_buf_len = c.in_buf_len) → t.conn.in_buf_len = 0

/-! ## Between two accesses -/

/-- What has been written down so far. -/
structure Logged (c : Item) (log : List Entry) : Prop where
  accesses : ∀ e ∈ log, e.Safe
  consecutive : (frames log).flatten <+: c.unread
  head : ∀ f ∈ frames log, sizeofHead ≤ f.length

/-- The loop is in a round in which the first `p` bytes have been dispatched. -/
structure Inv (c : Item) (p : Nat) (s : Loop W) : Prop where
  size : s.conn.in_buf.length = emMaxBuffLen
  len : InRange s.conn.in_buf_len
  isOpen : s.closed = false
  accesses : ∀ e ∈ s.log, e.Safe
  head : ∀ f ∈ frames s.log, sizeofHead ≤ f.length
  content : c.unread = (frames s.log).flatten ++ s.conn.unread.drop p

section
variable {r : Table W} {c : Item} {p : Nat} {s : Loop W}

theorem Inv.logged (h : Inv c p s) : Logged c s.log where
  accesses := h.accesses
  consecutive := h.content ▸ List.prefix_append _ _
  head := h.head

theorem inv_enter {w : W} (hsize : c.in_buf.length = emMaxBuffLen) (hlen : InRange c.in_buf_len) :
    Inv c 0 (Loop.enter w c) where
  size := hsize
  len := hlen
  isOpen := rfl
  accesses := by
    intro e he
    cases he
  head := by
    intro f hf
    cases hf
  content := rfl

theorem Logged.count {log : List Entry} (h : Logged c log) :
    (frames log).length ≤ c.in_buf_len.toNat / sizeofHead := by
  have hmul := Framing.mul_length_le_flatten h.head
  have hle := h.consecutive.length_le
  have hunread : c.unread.length ≤ c.in_buf_len.toNat := by
    rw [Item.unread, List.length_take]
    omega
  rw [Nat.le_div_iff_mul_le (by decide), Nat.mul_comm]
  omega

theorem frames_append (l l' : List Entry) : frames (l ++ l') = frames l ++ frames l' :=
  List.filterMap_append

theorem frames_note {held : Int} {as : List Access} (h : ∀ a ∈ as, ∀ d, a ≠ .dispatch d) :
    frames (s.note held as).log = frames s.log := by
  have hnone : frames (as.map fun a => ⟨held, s.conn, a⟩) = [] := by
    rw [frames, List.filterMap_eq_nil_iff]
    intro e he
    obtain ⟨a, ha, rfl⟩ := List.mem_map.mp he
    have hne := h a ha
    cases a with
    | dispatch d => exact absurd rfl (hne d)
    | _ => rfl
  rw [Loop.note, frames_append, hnone, List.append_nil]

theorem safe_note {held : Int} {as : List Access} (hsafe : ∀ e ∈ s.log, e.Safe)
    (hlen : InRange s.conn.in_buf_len) (hheld : InRange held)
    (hw : ∀ a ∈ as, a.Within held s.conn) : ∀ e ∈ (s.note held as).log, e.Safe := by
  intro e he
  rcases List.mem_append.mp he with he | he
  · exact hsafe e he
  · obtain ⟨a, ha, rfl⟩ := List.mem_map.mp he
    exact ⟨hlen, hheld, hw a ha⟩

theorem Inv.note {as : List Access} (h : Inv c p s)
    (hw : ∀ a ∈ as, a.Within s.conn.in_buf_len s.conn) (hd : ∀ a ∈ as, ∀ d, a ≠ .dispatch d) :
    Inv c p (s.note s.conn.in_buf_len as) where
  size := h.size
  len := h.len
  isOpen := h.isOpen
  accesses := safe_note h.accesses h.len h.len hw
  head := by
    rw [frames_note hd]
    exact h.head
  content := by
    rw [frames_note hd]
    exact h.content

@[simp] theorem frames_setLen (held n : Int) : frames (s.setLen held n).log = frames s.log :=
  frames_note (by simp)

@[simp] theorem note_conn (held : Int) (as : List Access) : (s.note held as).conn = s.conn := rfl

@[simp] theorem setLen_conn (held n : Int) :
    (s.setLen held n).conn = { s.conn with in_buf_len := n } := rfl

@[simp] theorem dispatch_log (id : Int) : (s.dispatch r id).1.log = s.log := by
  unfold Loop.dispatch
  split <;> rfl

/-- A closed connection: the handler of `emFunClosed` may do anything. -/
theorem Logged.close (h : Logged c s.log) : Safe r c (s.close r) := by
  have hlog : (s.close r).log = (s.setLen 0 0).log := dispatch_log emFunClosed
  have hframes : frames (s.close r).log = frames s.log := by
    rw [hlog, frames_setLen]
  have hin : InRange 0 := ⟨le_refl 0, by decide⟩
  refine ⟨?_, hframes ▸ h.consecutive, hframes ▸ h.head, hframes ▸ h.count, ?_, ?_, ?_⟩
  · rw [hlog]
    refine safe_note h.accesses hin hin ?_
    simp [Access.Within]
  · intro hopen
    cases hopen
  · intro hopen
    cases hopen
  · intro _ hkeep
    show ((s.setLen 0 0).dispatch r emFunClosed).1.conn.in_buf_len = 0
    unfold Loop.dispatch
    split
    · rfl
    · rename_i f hf
      exact hkeep f hf _ _

theorem Inv.returned (h : Inv c 0 s) : Safe r c s where
  accesses := h.accesses
  consecutive := h.logged.consecutive
  head := h.head
  count := h.logged.count
  len _ := h.len
  suffix _ := h.content
  cleared hclosed := absurd hclosed (by simp [h.isOpen])

theorem Inv.dispatched {as : List Access} {d : Head} (h : Inv c 0 s)
    (hw : ∀ a ∈ as, a.Within s.conn.in_buf_len s.conn) (hd : ∀ a ∈ as, ∀ d, a ≠ .dispatch d)
    (hdisp : (Access.dispatch d).Within s.conn.in_buf_len s.conn) :
    Inv c d.pkglen.toNat (s.note s.conn.in_buf_len (as ++ [.dispatch d])) := by
  have hlog : (s.note s.conn.in_buf_len (as ++ [.dispatch d])).log
      = (s.note s.conn.in_buf_len as).log ++ [⟨s.conn.in_buf_len, s.conn, .dispatch d⟩] := by
    simp [Loop.note]
  have hframes : frames (s.note s.conn.in_buf_len (as ++ [.dispatch d])).log
      = frames s.log ++ [s.conn.in_buf.take d.pkglen.toNat] := by
    rw [hlog, frames_append, frames_note hd]
    rfl
  have hsize := h.size
  have hlen := h.len.2
  obtain ⟨-, hmin, -, hfits⟩ := id hdisp
  refine ⟨hsize, h.len, h.isOpen, safe_note h.accesses h.len h.len ?_, ?_, ?_⟩
  · intro a ha
    rcases List.mem_append.mp ha with ha | ha
    · exact hw a ha
    · rw [List.mem_singleton.mp ha]
      exact hdisp
  · rw [hframes]
    intro f hf
    rcases List.mem_append.mp hf with hf | hf
    · exact h.head f hf
    · rw [List.mem_singleton.mp hf, List.length_take]
      omega
  · -- the frame is the beginning of what is unread
    have hsplit : s.conn.unread
        = s.conn.in_buf.take d.pkglen.toNat ++ s.conn.unread.drop d.pkglen.toNat := by
      conv_lhs => rw [← List.take_append_drop d.pkglen.toNat s.conn.unread]
      rw [Item.unread, List.take_take, Nat.min_eq_left (by omega)]
    rw [hframes, List.flatten_append, List.append_assoc, h.content, List.drop_zero]
    conv_lhs => rw [hsplit]
    simp [Loop.note, Item.unread]

/-- A handler that does not ask for the connection to be closed. -/
theorem Inv.handled (hkeeps : r.Keeps) (h : Inv c p s) {id : Int}
    (hcode : (s.dispatch r id).2 ≠ emFunReturClose) :
    Inv c p (s.dispatch r id).1
      ∧ (s.dispatch r id).1.conn.in_buf = s.conn.in_buf
      ∧ (s.dispatch r id).1.conn.in_buf_len = s.conn.in_buf_len := by
  cases hf : r.m_FunPtrList id with
  | none =>
      have hd : s.dispatch r id = (s, 0) := by simp only [Loop.dispatch, hf]
      rw [hd]
      exact ⟨h, rfl, rfl⟩
  | some f =>
      have hd : s.dispatch r id
          = ({ s with w := (f s.w s.conn).1, conn := (f s.w s.conn).2.1 }, (f s.w s.conn).2.2) := by
        simp only [Loop.dispatch, hf]
      rw [hd] at hcode ⊢
      obtain ⟨hbuf, hlen⟩ := hkeeps id f hf s.w s.conn hcode
      refine ⟨⟨?_, ?_, h.isOpen, h.accesses, h.head, ?_⟩, hbuf, hlen⟩
      · show (f s.w s.conn).2.1.in_buf.length = emMaxBuffLen
        rw [hbuf]
        exact h.size
      · show InRange (f s.w s.conn).2.1.in_buf_len
        rw [hlen]
        exact h.len
      · show c.unread = _
          ++ ((f s.w s.conn).2.1.in_buf.take (f s.w s.conn).2.1.in_buf_len.toNat).drop p
        rw [hbuf, hlen]
        exact h.content

theorem Inv.answered (h : Inv c p s) (code : Int) : Inv c p (s.answer code) := by
  unfold Loop.answer
  split
  · exact h.note (by simp [Access.Within]) (by simp)
  · exact h

@[simp] theorem answer_conn (code : Int) : (s.answer code).conn = s.conn := by
  unfold Loop.answer
  split <;> rfl

theorem addShort_of_range {a n : Int} (h : InRange (a + n)) : addShort a n = a + n := by
  obtain ⟨h₀, h₁⟩ := h
  simp only [emMaxBuffLen] at h₁
  simp only [addShort]
  omega

theorem InRange.toUnsigned {n : Int} (h : InRange n) : toUnsigned n = n.toNat := by
  obtain ⟨h₀, h₁⟩ := h
  simp only [emMaxBuffLen] at h₁
  exact toUnsigned_of_nonneg h₀ (by omega)

section
variable {buf : List UInt8} {m n : Nat}

theorem memmove_length (hsize : buf.length = emMaxBuffLen) (h : m + n ≤ emMaxBuffLen) :
    ((buf.drop m).take n ++ buf.drop n).length = emMaxBuffLen := by
  simp only [List.length_append, List.length_take, List.length_drop]
  omega

theorem memmove_unread (h : n ≤ buf.length) :
    ((buf.drop m).take (n - m) ++ buf.drop (n - m)).take (n - m) = (buf.take n).drop m := by
  rw [List.drop_take, List.take_append_of_le_length, List.take_of_length_le]
  · rw [List.length_take]
    omega
  · rw [List.length_take, List.length_drop]
    omega

end

/-- The end of a round: the frame is taken away. -/
theorem Inv.next {h : Head} (hinv : Inv c h.pkglen.toNat s) (hhead : h = Head.ofBytes s.conn.in_buf)
    (hmin : (sizeofHead : Int) ≤ h.pkglen) (hfits : h.pkglen ≤ s.conn.in_buf_len) :
    Inv c 0 s.next.1
      ∧ s.next.1.conn.in_buf_len = s.conn.in_buf_len - h.pkglen := by
  have hlen := hinv.len
  have hrest : InRange (s.conn.in_buf_len + -h.pkglen) := by
    constructor
    · omega
    · have h₁ := hlen.2
      simp only [sizeofHead] at hmin
      omega
  have hnote : Inv c h.pkglen.toNat (s.note s.conn.in_buf_len [.field 4 6]) :=
    hinv.note (by simp only [sizeofHead] at hmin; simp [Access.Within]; omega) (by simp)
  have hset := addShort_of_range hrest
  -- what is left, with the frame still in its place
  obtain ⟨t, ht⟩ : ∃ t, t = (s.note s.conn.in_buf_len [.field 4 6]).setLen s.conn.in_buf_len
      (addShort s.conn.in_buf_len (-h.pkglen)) := ⟨_, rfl⟩
  have htlen : t.conn.in_buf_len = s.conn.in_buf_len + -h.pkglen := by
    rw [ht, ← hset]
    rfl
  have htbuf : t.conn.in_buf = s.conn.in_buf := by
    rw [ht]
    rfl
  have htframes : frames t.log = frames s.log := by
    rw [ht, frames_setLen, frames_note (by simp)]
  have htsafe : ∀ e ∈ t.log, e.Safe := by
    rw [ht]
    refine safe_note hnote.accesses ?_ hlen (by simp [Access.Within])
    show InRange (addShort s.conn.in_buf_len (-h.pkglen))
    rw [hset]
    exact hrest
  have hnext : s.next = if t.conn.in_buf_len = 0 then (t, false)
      else ((t.note s.conn.in_buf_len
        [.check, .field 4 6, .move h.pkglen (toUnsigned t.conn.in_buf_len)]).memmove h.pkglen
          (toUnsigned t.conn.in_buf_len), true) := by
    rw [ht, hhead]
    rfl
  have hnat : t.conn.in_buf_len.toNat = s.conn.in_buf_len.toNat - h.pkglen.toNat := by
    omega
  rw [hnext]
  split
  · rename_i hzero
    refine ⟨⟨htbuf ▸ hinv.size, htlen ▸ hrest, ht ▸ hinv.isOpen, htsafe, htframes ▸ hinv.head, ?_⟩,
      by
        show t.conn.in_buf_len = _
        omega⟩
    have hnil : s.conn.unread.drop h.pkglen.toNat = [] := by
      apply List.drop_eq_nil_of_le
      rw [Item.unread, List.length_take]
      omega
    rw [htframes, hinv.content, hnil]
    simp [Item.unread, hzero]
  · rename_i hpos
    have hrest' : InRange t.conn.in_buf_len := htlen ▸ hrest
    refine ⟨⟨?_, hrest', ht ▸ hinv.isOpen, safe_note htsafe hrest' hlen ?_, ?_, ?_⟩, by
      show t.conn.in_buf_len = _
      omega⟩
    · show ((t.conn.in_buf.drop h.pkglen.toNat).take (toUnsigned t.conn.in_buf_len)
        ++ t.conn.in_buf.drop (toUnsigned t.conn.in_buf_len)).length = emMaxBuffLen
      rw [hrest'.toUnsigned]
      exact memmove_length (htbuf ▸ hinv.size) (by have h₁ := hlen.2; omega)
    · simp only [List.mem_cons, List.not_mem_nil, or_false, forall_eq_or_imp, forall_eq,
        Access.Within, hrest'.toUnsigned]
      simp only [sizeofHead] at hmin
      omega
    · show ∀ f ∈ frames (t.note _ _).log, sizeofHead ≤ f.length
      rw [frames_note (by simp), htframes]
      exact hinv.head
    · show c.unread = (frames (t.note _ _).log).flatten
        ++ List.drop 0 (List.take t.conn.in_buf_len.toNat
            ((t.conn.in_buf.drop h.pkglen.toNat).take (toUnsigned t.conn.in_buf_len)
          ++ t.conn.in_buf.drop (toUnsigned t.conn.in_buf_len)))
      rw [frames_note (by simp), htframes, hinv.content, List.drop_zero, hrest'.toUnsigned, htbuf,
        hnat, memmove_unread (by have h₁ := hlen.2; have h₂ := hinv.size; omega)]
      rfl

/-- A handler that does not close, its answer, and the end of the round. -/
theorem Inv.served {h : Head} (hkeeps : r.Keeps) (hinv : Inv c h.pkglen.toNat s)
    (hhead : h = Head.ofBytes s.conn.in_buf) (hmin : (sizeofHead : Int) ≤ h.pkglen)
    (hfits : h.pkglen ≤ s.conn.in_buf_len) {id : Int}
    (hcode : (s.dispatch r id).2 ≠ emFunReturClose) :
    Inv c 0 ((s.dispatch r id).1.answer (s.dispatch r id).2).next.1
      ∧ ((s.dispatch r id).1.answer (s.dispatch r id).2).next.1.conn.in_buf_len
        = s.conn.in_buf_len - h.pkglen := by
  obtain ⟨hinv', hbuf, hlen⟩ := hinv.handled hkeeps hcode
  have hconn : ((s.dispatch r id).1.answer (s.dispatch r id).2).conn = (s.dispatch r id).1.conn :=
    answer_conn _
  rw [← hconn] at hbuf hlen
  rw [← hbuf] at hhead
  rw [← hlen] at hfits ⊢
  exact (hinv'.answered _).next hhead hmin hfits

theorem pkglen_of_legal {buf : List UInt8}
    (h : ¬(emMaxBuffLen - sizeofHead < toUnsigned (Head.ofBytes buf).pkglen
      ∨ toUnsigned (Head.ofBytes buf).pkglen < sizeofHead)) :
    (sizeofHead : Int) ≤ (Head.ofBytes buf).pkglen
      ∧ (Head.ofBytes buf).pkglen ≤ emMaxBuffLen - sizeofHead := by
  have hbad : badHead ⟨fun _ => none, (Head.ofBytes buf).stx⟩ (Head.ofBytes buf) = false := by
    simpa [badHead, not_or] using h
  exact pkglen_of_not_bad hbad

/-- The end of a round that found `n` bytes: the next one finds less, and a
return is safe. -/
def Ends (r : Table W) (c : Item) (n : Int) (x : Loop W × Bool) : Prop :=
  (x.2 = true → Inv c 0 x.1 ∧ x.1.conn.in_buf_len < n) ∧ (x.2 = false → Safe r c x.1)

theorem Safe.ends {n : Int} (h : Safe r c s) : Ends r c n (s, false) := by
  refine ⟨?_, fun _ => h⟩
  intro hgo
  cases hgo

theorem Inv.round (hkeeps : r.Keeps) (h : Inv c 0 s) :
    Ends r c s.conn.in_buf_len (s.round r) := by
  have hlen := h.len
  unfold Loop.round
  dsimp only
  rw [hlen.toUnsigned]
  split
  · exact h.returned.ends
  rename_i hhead
  have hhead' : (sizeofHead : Int) ≤ s.conn.in_buf_len := by
    have hpos := hlen.1
    omega
  have hfield {as : List Access} (has : as ⊆ [.field 4 6, .field 0 4, .field 6 8]) :
      (∀ a ∈ as, a.Within s.conn.in_buf_len s.conn) ∧ ∀ a ∈ as, ∀ d, a ≠ .dispatch d := by
    simp only [sizeofHead] at hhead'
    constructor
    · intro a ha
      have hmem := has ha
      simp only [List.mem_cons, List.not_mem_nil, or_false] at hmem
      rcases hmem with rfl | rfl | rfl <;> simp only [Access.Within] <;> omega
    · rintro a ha d rfl
      simpa using has ha
  have hnote {as : List Access} (has : as ⊆ [.field 4 6, .field 0 4, .field 6 8]) :
      Inv c 0 (s.note s.conn.in_buf_len as) := h.note (hfield has).1 (hfield has).2
  split
  · exact (hnote (by simp)).logged.close.ends
  rename_i hlegal
  obtain ⟨hmin, hmax⟩ := pkglen_of_legal hlegal
  split
  · exact (hnote (by simp)).logged.close.ends
  split
  · exact (hnote (by simp)).returned.ends
  rename_i hfits
  rw [Int.not_lt] at hfits
  split
  · -- a whole frame, with a handler
    have hdisp := h.dispatched (hfield (List.Subset.refl _)).1 (hfield (List.Subset.refl _)).2
      ⟨rfl, hmin, hmax, hfits⟩
    split
    · rename_i hcode
      refine (Logged.close ?_).ends
      rw [dispatch_log]
      exact hdisp.logged
    · rename_i hcode
      obtain ⟨hnext, hless⟩ := hdisp.served hkeeps rfl hmin hfits hcode
      refine ⟨fun _ => ⟨hnext, lt_of_eq_of_lt hless ?_⟩, fun _ => hnext.returned⟩
      show s.conn.in_buf_len - (Head.ofBytes s.conn.in_buf).pkglen < s.conn.in_buf_len
      simp only [sizeofHead] at hmin
      omega
  · exact (hnote (by simp)).logged.close.ends

/-! ## Every run of the loop -/

theorem Inv.loop (hkeeps : r.Keeps) (fuel : Nat) :
    ∀ {s t : Loop W}, Inv c 0 s → Loop.parseLoop r fuel s = some t → Safe r c t := by
  induction fuel with
  | zero =>
      intro s t _ ht
      cases ht
  | succ fuel ih =>
      intro s t h ht
      obtain ⟨hgo, hstop⟩ := h.round hkeeps
      unfold Loop.parseLoop at ht
      split at ht
      · rename_i hr
        exact ih (hgo hr).1 ht
      · rename_i hr
        cases ht
        exact hstop (by simpa using hr)

theorem Inv.returns (hkeeps : r.Keeps) (fuel : Nat) :
    ∀ {s : Loop W}, Inv c 0 s → s.conn.in_buf_len < fuel →
      ∃ t, Loop.parseLoop r fuel s = some t := by
  induction fuel with
  | zero =>
      intro s h hlt
      have hpos := h.len.1
      omega
  | succ fuel ih =>
      intro s h hlt
      unfold Loop.parseLoop
      split
      · rename_i hr
        obtain ⟨hinv, hless⟩ := (h.round hkeeps).1 hr
        exact ih hinv (by omega)
      · exact ⟨_, rfl⟩

end

/-! ## The loop of `DoRead` -/

/-- The handlers of `DoRead`'s model. -/
def Table.of (r : CLibEventFunction) : Table Unit where
  m_FunPtrList id := (r.m_FunPtrList id).map fun f _ c =>
    ((), { c with out := (f c.in_buf c.out).1 }, (f c.in_buf c.out).2)
  m_stx := r.m_stx

theorem Table.of_keeps (r : CLibEventFunction) : (Table.of r).Keeps := by
  intro id f hf w c _
  obtain ⟨g, -, rfl⟩ := Option.map_eq_some_iff.mp hf
  exact ⟨rfl, rfl⟩

def Item.of (c : Conn) : Item := { in_buf := c.in_buf, in_buf_len := c.in_buf_len, out := c.out }

theorem Item.of_inRange (c : Conn) : InRange (Item.of c).in_buf_len := by
  have h := c.in_buf_bound
  constructor
  · show (0 : Int) ≤ c.in_buf_len
    omega
  · show (c.in_buf_len : Int) ≤ emMaxBuffLen
    omega

/-- The same connection, closed or not. -/
def Agrees (s : Session) (t : Loop Unit) : Prop :=
  t.conn = Item.of s.conn ∧ t.closed = s.closed

section
variable {r : CLibEventFunction} {s : Session} {t : Loop Unit}

theorem Agrees.note (h : Agrees s t) (held : Int) (as : List Access) : Agrees s (t.note held as) :=
  h

theorem Agrees.dispatch (h : Agrees s t) (id : Int) :
    Agrees (s.dispatch r id).1 (t.dispatch (Table.of r) id).1
      ∧ (t.dispatch (Table.of r) id).2 = (s.dispatch r id).2 := by
  obtain ⟨hconn, hclosed⟩ := h
  unfold Loop.dispatch Session.dispatch
  cases hf : r.m_FunPtrList id with
  | none =>
      simp only [Table.of, hf, Option.map_none]
      exact ⟨⟨hconn, hclosed⟩, trivial⟩
  | some f =>
      simp only [Table.of, hf, Option.map_some, hconn]
      exact ⟨⟨rfl, hclosed⟩, rfl⟩

theorem Agrees.close (h : Agrees s t) : Agrees (s.close r) (t.close (Table.of r)) := by
  have hclear : Agrees { s with conn := s.conn.clear } (t.setLen 0 0) := by
    refine ⟨?_, h.2⟩
    show ({ t.conn with in_buf_len := 0 } : Item) = _
    rw [h.1]
    rfl
  exact ⟨(hclear.dispatch emFunClosed).1.1, rfl⟩

theorem Agrees.answer (h : Agrees s t) (code : Int) : Agrees (s.answer code) (t.answer code) := by
  unfold Loop.answer Session.answer
  split
  · exact h
  · exact h

theorem dispatch_in_buf (id : Int) : (s.dispatch r id).1.conn.in_buf = s.conn.in_buf := by
  unfold Session.dispatch
  split <;> rfl

/-- With nothing left there is no `memmove`, and `advance` moves nothing. -/
theorem Agrees.next (h : Agrees s t) {d : Head} (hd : d = Head.ofBytes s.conn.in_buf)
    (hmin : (sizeofHead : Int) ≤ d.pkglen) (hfits : d.pkglen ≤ s.conn.in_buf_len) :
    Agrees (s.next d) t.next.1 ∧ t.next.2 = ((s.next d).conn.in_buf_len != 0) := by
  obtain ⟨hconn, hclosed⟩ := h
  have hrange := Item.of_inRange s.conn
  have hrest : InRange ((s.conn.in_buf_len : Int) + -d.pkglen) := by
    obtain ⟨h₀, h₁⟩ := hrange
    simp only [sizeofHead] at hmin
    simp only [Item.of] at h₁
    constructor <;> omega
  have hnat : ((s.conn.in_buf_len : Int) + -d.pkglen).toNat
      = s.conn.in_buf_len - d.pkglen.toNat := by
    omega
  have hnext : t.next = if (s.conn.in_buf_len : Int) + -d.pkglen = 0 then
        ((t.note s.conn.in_buf_len [.field 4 6]).setLen s.conn.in_buf_len
          (s.conn.in_buf_len + -d.pkglen), false)
      else (((((t.note s.conn.in_buf_len [.field 4 6]).setLen s.conn.in_buf_len
          (s.conn.in_buf_len + -d.pkglen)).note s.conn.in_buf_len
        [.check, .field 4 6, .move d.pkglen (s.conn.in_buf_len - d.pkglen.toNat)]).memmove d.pkglen
          (s.conn.in_buf_len - d.pkglen.toNat)), true) := by
    rw [← hnat, ← hrest.toUnsigned, ← addShort_of_range hrest]
    unfold Loop.next
    rw [hconn, hd]
    rfl
  rw [hnext]
  split
  · rename_i hzero
    have hz : s.conn.in_buf_len - d.pkglen.toNat = 0 := by omega
    refine ⟨⟨?_, hclosed⟩, by simp [hz]⟩
    show ({ t.conn with in_buf_len := _ } : Item) = _
    rw [hconn, hzero]
    simp [Item.of, Session.next, Conn.advance, hz]
  · rename_i hpos
    have hp : s.conn.in_buf_len - d.pkglen.toNat ≠ 0 := by omega
    refine ⟨⟨?_, hclosed⟩, by simp [hp]⟩
    have hcast : (s.conn.in_buf_len : Int) + -d.pkglen
        = ((s.conn.in_buf_len - d.pkglen.toNat : Nat) : Int) := by omega
    simp only [Loop.memmove, note_conn, setLen_conn, hconn, Item.of, Session.next, Conn.advance,
      hcast]

theorem Agrees.round (h : Agrees s t) :
    Agrees (parseStep r s).1 (t.round (Table.of r)).1
      ∧ (t.round (Table.of r)).2 = (parseStep r s).2 := by
  have hlen : toUnsigned t.conn.in_buf_len = s.conn.in_buf_len := by
    rw [h.1, (Item.of_inRange s.conn).toUnsigned]
    rfl
  have hbuf : t.conn.in_buf = s.conn.in_buf := by
    rw [h.1]
    rfl
  have hlen' : t.conn.in_buf_len = s.conn.in_buf_len := by
    rw [h.1]
    rfl
  unfold Loop.round parseStep
  simp only [hlen, hbuf]
  by_cases hhead : s.conn.in_buf_len < sizeofHead
  · rw [if_pos hhead, if_pos hhead]
    exact ⟨h, rfl⟩
  rw [if_neg hhead, if_neg hhead]
  by_cases hlegal : emMaxBuffLen - sizeofHead < toUnsigned (Head.ofBytes s.conn.in_buf).pkglen
      ∨ toUnsigned (Head.ofBytes s.conn.in_buf).pkglen < sizeofHead
  · have hbad : badHead r (Head.ofBytes s.conn.in_buf) = true := by
      simpa [badHead] using Or.inl hlegal
    rw [if_pos hlegal, if_pos hbad]
    exact ⟨(h.note _ _).close, rfl⟩
  rw [if_neg hlegal]
  by_cases hstx : (Head.ofBytes s.conn.in_buf).stx ≠ r.m_stx
  · have hbad : badHead r (Head.ofBytes s.conn.in_buf) = true := by
      simpa [badHead] using Or.inr hstx
    rw [if_pos hbad, if_pos (show (Head.ofBytes s.conn.in_buf).stx ≠ (Table.of r).m_stx from hstx)]
    exact ⟨(h.note _ _).close, rfl⟩
  have hgood : ¬badHead r (Head.ofBytes s.conn.in_buf) = true := by
    simp only [badHead, Bool.or_eq_true, decide_eq_true_eq, bne_iff_ne]
    tauto
  rw [if_neg hgood, if_neg (show ¬(Head.ofBytes s.conn.in_buf).stx ≠ (Table.of r).m_stx from hstx),
    hlen']
  by_cases hfits : (s.conn.in_buf_len : Int) < (Head.ofBytes s.conn.in_buf).pkglen
  · rw [if_pos hfits, if_pos hfits]
    exact ⟨h.note _ _, rfl⟩
  rw [if_neg hfits, if_neg hfits]
  have hfound : ((Table.of r).m_FunPtrList (Head.ofBytes s.conn.in_buf).nFunID).isSome
      = (r.m_FunPtrList (Head.ofBytes s.conn.in_buf).nFunID).isSome := by
    simp [Table.of]
  rw [hfound]
  by_cases hid : emFunBase < (Head.ofBytes s.conn.in_buf).nFunID
      ∧ (r.m_FunPtrList (Head.ofBytes s.conn.in_buf).nFunID).isSome
  · rw [if_pos hid, if_pos hid]
    obtain ⟨hd, hcode⟩ := (h.note s.conn.in_buf_len [.field 4 6, .field 0 4, .field 6 8,
      .dispatch (Head.ofBytes s.conn.in_buf)]).dispatch (r := r) (Head.ofBytes s.conn.in_buf).nFunID
    rw [hcode]
    split
    · exact ⟨hd.close, rfl⟩
    · refine (hd.answer _).next ?_ (pkglen_of_legal hlegal).1 ?_
      · rw [Session.answer_conn, dispatch_in_buf]
      · rw [Session.answer_conn, Session.dispatch_in_buf_len]
        omega
  · rw [if_neg hid, if_neg hid]
    exact ⟨(h.note _ _).close, rfl⟩

/-- `DoRead`'s loop ends with the same connection, closed or not, and as soon. -/
theorem parseLoop_agrees (fuel : Nat) :
    ∀ {s : Session} {t : Loop Unit}, Agrees s t →
      (Loop.parseLoop (Table.of r) fuel t).map (fun u => (u.conn, u.closed))
        = (parseLoop r fuel s).map fun u => (Item.of u.conn, u.closed) := by
  induction fuel with
  | zero =>
      intro s t _
      rfl
  | succ fuel ih =>
      intro s t h
      obtain ⟨hround, hgo⟩ := h.round (r := r)
      unfold Loop.parseLoop parseLoop
      rw [hgo]
      split
      · exact ih hround
      · rw [Option.map_some, Option.map_some, hround.1, hround.2]

end

/-! ## The safety of the loop -/

/-- **The parse loop is safe.**  For every content of `in_buf` and every length
in range it returns, and whatever it returns is safe. -/
theorem parseLoop_safe (r : Table W) (hkeeps : r.Keeps) (w : W) (c : Item)
    (hsize : c.in_buf.length = emMaxBuffLen) (hlen : InRange c.in_buf_len) :
    (∃ fuel t, Loop.parseLoop r fuel (Loop.enter w c) = some t)
      ∧ ∀ fuel t, Loop.parseLoop r fuel (Loop.enter w c) = some t → Safe r c t := by
  have henter : Inv c 0 (Loop.enter w c) := inv_enter hsize hlen
  constructor
  · refine ⟨emMaxBuffLen + 1, henter.returns hkeeps _ ?_⟩
    have hmax := hlen.2
    show c.in_buf_len < _
    omega
  · intro fuel t ht
    exact henter.loop hkeeps fuel ht

/-- Two login requests, and three bytes of a third one. -/
def twoLogins : Item where
  in_buf := [0x85, 0x22, 0x0D, 0x00, 10, 0, 0xE9, 0x03, 7, 0, 0x85, 0x22, 0x0D, 0x00, 10, 0, 0xE9,
    0x03, 7, 0, 0x85, 0x22, 0x0D] ++ List.replicate (emMaxBuffLen - 23) 0
  in_buf_len := 23
  out := { out_buf := List.replicate emMaxBuffLen 0, out_buf_len := 0 }

theorem parseLoop_safe_twoLogins :
    ∃ fuel t, Loop.parseLoop (Table.of registered) fuel (Loop.enter () twoLogins) = some t
      ∧ Safe (Table.of registered) twoLogins t := by
  have hsize : twoLogins.in_buf.length = emMaxBuffLen := by
    rw [twoLogins, List.length_append, List.length_replicate]
    rfl
  obtain ⟨⟨fuel, t, ht⟩, hsafe⟩ :=
    parseLoop_safe (Table.of registered) (Table.of_keeps registered) () twoLogins hsize
      ⟨by decide, by decide⟩
  exact ⟨fuel, t, ht, hsafe fuel t ht⟩

end CppWorkspace.LibeventServer.ParseLoop
