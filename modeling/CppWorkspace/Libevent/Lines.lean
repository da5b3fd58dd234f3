/-
# `CppWorkspace.Libevent.Lines` — a stream is read line by line

Bytes come from a socket into an evbuffer, so many at a time as the kernel likes, and
`evbuffer_readln` takes lines out, in any order of the two.  What it has returned are the
first lines of the bytes that have arrived, and the evbuffer is what is behind them:

    CRLF, CRLF_STRICT, LF    the lines                      `lines_run`
    ANY                      the lines that are not empty   `words_run`

After any run the next call returns `NULL` only for a reason: nothing may be taken, there is no
line, or no memory for it.

`EVBUFFER_EOL_ANY` takes all line ends that are there, however many; if the next call of
`recv` brings another one, this is an empty line.  So which empty lines there are depends
on the pieces in which the bytes arrive.

The length of an evbuffer and a place in it are an `ev_ssize_t`: with more than `EV_SSIZE_MAX`
bytes in the evbuffer and in the socket the source would not follow.
-/
import CppWorkspace.Libevent.Searching
import Mathlib.Data.List.DropRight

namespace CppWorkspace.Libevent

open Searching (Takes Steady)

/-! ## The runs -/

/-- `recv` of a socket with some bytes in it: at most `most` of them, or an error. -/
def recvFrom (pending : List UInt8) (most : Option Nat) (n : Nat) : Option (List UInt8) :=
  most.map fun m => pending.take (min m n)

/-- A read from the socket, or a line taken out. -/
inductive LineCall where
  | read (most : Option Nat) (readable howmuch : Int)
  | readln
deriving Repr

/-- The lines that have been returned, and the bytes that are still in the socket. -/
structure Reading where
  world : World
  pending : List UInt8
  lines : List (List UInt8)

def Reading.call (b : BufId) (style : evbuffer_eol_style) (s : Reading) :
    LineCall → Option Reading
  | .read most readable howmuch =>
      (evbuffer_read s.world b readable howmuch (recvFrom s.pending most)).map fun (w, r) =>
        { s with world := w, pending := s.pending.drop r.toNat }
  | .readln =>
      (evbuffer_readln s.world b style).map fun (w, line) =>
        { s with world := w, lines := s.lines ++ line.toList }

def Reading.run (b : BufId) (style : evbuffer_eol_style) (s : Reading) :
    List LineCall → Option Reading
  | [] => some s
  | c :: cs => (s.call b style c).bind fun s => s.run b style cs

section
variable {w : World} {L : BufId → Chains} {b : BufId} {style : evbuffer_eol_style}
  {p r s t x : List UInt8} {k e n : Nat} {m : Option Nat} {xs : List (List UInt8)}

/-! ## A line that is there stays there -/

theorem crlf_append (h : crlf s = some (k, e)) (t : List UInt8) : crlf (s ++ t) = some (k, e) := by
  induction s generalizing k with
  | nil => cases h
  | cons c s ih =>
      rw [crlf] at h
      rw [List.cons_append, crlf]
      split at h
      · rename_i hlf
        rw [if_pos hlf]
        exact h
      · rename_i hlf
        split at h
        · rename_i hp
          have hp' : [CR, LF] <+: c :: (s ++ t) := hp.trans (List.prefix_append (c :: s) t)
          rw [if_neg hlf, if_pos hp']
          exact h
        · rename_i hp
          obtain ⟨⟨i, e'⟩, hi, heq⟩ := Option.map_eq_some_iff.mp h
          obtain ⟨rfl, rfl⟩ := Prod.mk.inj heq
          have hlen := (crlf_pos hi).2
          have hpos := (crlf_pos hi).1
          have hp' : ¬ [CR, LF] <+: c :: (s ++ t) := fun hp' =>
            hp (List.prefix_of_prefix_length_le hp' (List.prefix_append (c :: s) t) (by
              simp only [List.length_cons, List.length_nil]
              omega))
          rw [if_neg hlf, if_neg hp', ih hi]
          rfl

theorem eol_append (hstyle : style ≠ .EVBUFFER_EOL_ANY) (h : eol style s = some (k, e))
    (t : List UInt8) : eol style (s ++ t) = some (k, e) := by
  cases style with
  | EVBUFFER_EOL_ANY => exact absurd rfl hstyle
  | EVBUFFER_EOL_CRLF => exact crlf_append h t
  | EVBUFFER_EOL_CRLF_STRICT =>
      obtain ⟨i, hi, heq⟩ := Option.map_eq_some_iff.mp h
      rw [eol, Searching.place_append hi, Option.map_some, heq]
  | EVBUFFER_EOL_LF =>
      obtain ⟨i, hi, heq⟩ := Option.map_eq_some_iff.mp h
      rw [eol, List.findIdx?_append, hi, Option.some_or, Option.map_some, heq]

theorem steady_line (hstyle : style ≠ .EVBUFFER_EOL_ANY) : Steady (line style) := by
  refine ⟨fun {s x r} h t => ?_⟩
  obtain ⟨⟨k, e⟩, hke, heq⟩ := Option.map_eq_some_iff.mp h
  obtain ⟨rfl, rfl⟩ := Prod.mk.inj heq
  have hle := (eol_pos hke).2
  simp only [line, eol_append hstyle hke, Option.map_some]
  rw [List.take_append_of_le_length (by omega), List.drop_append_of_le_length hle]

/-! ## One call -/

theorem recvFrom_le (p : List UInt8) (m : Option Nat) (n : Nat) (t : List UInt8)
    (ht : recvFrom p m n = some t) : t.length ≤ n := by
  obtain ⟨i, -, rfl⟩ := Option.map_eq_some_iff.mp ht
  rw [List.length_take]
  omega

theorem Reading.read_spec {z y : Int} (h : w.Inv L []) (hcount : Counted w L b) :
    ∃ w' L' n, Reading.call b style ⟨w, p, xs⟩ (.read m z y) = some ⟨w', p.drop n, xs⟩ ∧
      w'.Inv L' [] ∧ Counted w' L' b ∧
      w'.bytes (L' b).data = w.bytes (L b).data ++ p.take n := by
  have hread := Libevent.read_spec (z := z) (p := y) h hcount (recvFrom_le p m)
  split at hread
  · refine ⟨w, L, 0, ?_, h, hcount, by simp⟩
    rw [Reading.call, hread]
    rfl
  · rcases hread with ⟨w', L', hread, hsame, -⟩ | ⟨n, w', L', -, -, hread, hbecomes⟩
    · refine ⟨w', L', 0, ?_, hsame.inv, ?_, by rw [hsame.bytes]; simp⟩
      · rw [Reading.call, hread]
        rfl
      · rw [Counted, hsame.bytes, hsame.counts]
        exact hcount
    · cases m with
      | none =>
          refine ⟨w', L', 0, ?_, hbecomes.inv, ?_, by rw [hbecomes.bytes]; rfl⟩
          · rw [Reading.call, hread]
            rfl
          · rw [Counted, hbecomes.bytes, hbecomes.counts]
            simpa [recvFrom, Counted] using hcount
      | some i =>
          have hrecv : recvFrom p (some i) n = some (p.take (min i n)) := rfl
          rw [hrecv, Option.getD_some] at hbecomes
          refine ⟨w', L', (p.take (min i n)).length, ?_, hbecomes.inv, ?_, ?_⟩
          · rw [Reading.call, hread, hrecv]
            rfl
          · rw [Counted, hbecomes.bytes, hbecomes.counts]
            split
            · rename_i hnil
              rw [hnil, List.append_nil]
              exact hcount
            · rw [Counts.run_callbacks_total, List.length_append, ← hcount]
              rfl
          · rw [hbecomes.bytes]
            congr 1
            rw [List.length_take, List.take_eq_take_iff]
            omega

theorem Counts.took_total {j : Counts} : (j.took n).total_len = j.total_len - n := by
  rw [Counts.took]
  split
  · rename_i h0
    rw [h0, Nat.sub_zero]
  · rw [Counts.run_callbacks_total]
    rfl

/-- A line is returned, or nothing happens but that `mm_malloc` may have failed. -/
theorem Reading.readln_spec (h : w.Inv L []) (hcount : Counted w L b) :
    (∃ w', Reading.call b style ⟨w, p, xs⟩ .readln = some ⟨w', p, xs⟩ ∧ w'.Inv L [] ∧
      Counted w' L b ∧ w'.bytes (L b).data = w.bytes (L b).data) ∨
    ∃ w' L' x r, Reading.call b style ⟨w, p, xs⟩ .readln = some ⟨w', p, xs ++ [x]⟩ ∧
      w'.Inv L' [] ∧ Counted w' L' b ∧ line style (w.bytes (L b).data) = some (x, r) ∧
      w'.bytes (L' b).data = r := by
  have hreadln := Libevent.readln_spec h hcount style
  split at hreadln
  · refine .inl ⟨w, ?_, h, hcount, rfl⟩
    rw [Reading.call, hreadln]
    simp
  · split at hreadln
    · refine .inl ⟨_, ?_, h.next_malloc, hcount, rfl⟩
      rw [Reading.call, hreadln]
      simp
    · obtain ⟨w', L', k, e, heol, hreadln, hbecomes, -⟩ := hreadln
      have hle := (eol_pos heol).2
      refine .inr ⟨w', L', _, _, ?_, hbecomes.inv, ?_, by rw [line, heol]; rfl, hbecomes.bytes⟩
      · rw [Reading.call, hreadln]
        rfl
      · rw [Counted, hbecomes.bytes, hbecomes.counts, Counts.took_total, Counts.took_total,
          List.length_drop, ← hcount]
        exact Nat.sub_sub ..

/-! ## Every order of the calls -/

/-- What holds of the bytes that have arrived, the lines that have been returned and the
bytes that are left, when more bytes arrive and when a line is returned, holds in all runs. -/
theorem Reading.run_invariant {I : List UInt8 → List (List UInt8) → List UInt8 → Prop}
    (hread : ∀ s xs r t, I s xs r → I (s ++ t) xs (r ++ t))
    (hline : ∀ s xs r x t, I s xs r → line style r = some (x, t) → I s (xs ++ [x]) t)
    (h : w.Inv L []) (hcount : Counted w L b)
    (hI : I (w.bytes (L b).data) [] (w.bytes (L b).data)) (calls : List LineCall) :
    ∃ w' L' n xs, Reading.run b style ⟨w, p, []⟩ calls = some ⟨w', p.drop n, xs⟩ ∧
      w'.Inv L' [] ∧ Counted w' L' b ∧
      I (w.bytes (L b).data ++ p.take n) xs (w'.bytes (L' b).data) := by
  suffices hrun : ∀ (calls : List LineCall) (w' : World) (L' : BufId → Chains) (i : Nat)
      (xs : List (List UInt8)), w'.Inv L' [] → Counted w' L' b →
      I (w.bytes (L b).data ++ p.take i) xs (w'.bytes (L' b).data) →
      ∃ w'' L'' n ys, Reading.run b style ⟨w', p.drop i, xs⟩ calls = some ⟨w'', p.drop n, ys⟩ ∧
        w''.Inv L'' [] ∧ Counted w'' L'' b ∧
        I (w.bytes (L b).data ++ p.take n) ys (w''.bytes (L'' b).data) by
    refine hrun calls w L 0 [] h hcount ?_
    rwa [List.take_zero, List.append_nil]
  intro calls
  induction calls with
  | nil =>
      intro w' L' i xs hinv hcount' hI'
      exact ⟨w', L', i, xs, rfl, hinv, hcount', hI'⟩
  | cons c calls ih =>
      intro w' L' i xs hinv hcount' hI'
      cases c with
      | read m z y =>
          obtain ⟨w₁, L₁, n, hcall, hinv₁, hcount₁, hbytes⟩ := Reading.read_spec
            (b := b) (p := p.drop i) (m := m) (z := z) (y := y) hinv hcount'
          have hI₁ : I (w.bytes (L b).data ++ p.take (i + n)) xs (w₁.bytes (L₁ b).data) := by
            rw [hbytes, List.take_add, ← List.append_assoc]
            exact hread _ _ _ _ hI'
          obtain ⟨w'', L'', n', ys, hgo, hrest⟩ := ih w₁ L₁ (i + n) xs hinv₁ hcount₁ hI₁
          refine ⟨w'', L'', n', ys, ?_, hrest⟩
          rw [Reading.run, hcall, Option.bind_some, List.drop_drop]
          exact hgo
      | readln =>
          rcases Reading.readln_spec (b := b) (p := p.drop i) hinv hcount' with
            ⟨w₁, hcall, hinv₁, hcount₁, hbytes⟩ | ⟨w₁, L₁, x, r, hcall, hinv₁, hcount₁, hx, rfl⟩
          · obtain ⟨w'', L'', n', ys, hgo, hrest⟩ :=
              ih w₁ L' i xs hinv₁ hcount₁ (by rwa [hbytes])
            exact ⟨w'', L'', n', ys, by rw [Reading.run, hcall]; exact hgo, hrest⟩
          · obtain ⟨w'', L'', n', ys, hgo, hrest⟩ :=
              ih w₁ L₁ i (xs ++ [x]) hinv₁ hcount₁ (hline _ _ _ _ _ hI' hx)
            exact ⟨w'', L'', n', ys, by rw [Reading.run, hcall]; exact hgo, hrest⟩

/-- `NULL` is returned if nothing may be taken, if there is no line, and if there is no memory. -/
theorem readln_eq_none (h : w.Inv L []) (hcount : Counted w L b) (style : evbuffer_eol_style) :
    ∃ v x, evbuffer_readln w b style = some (v, x) ∧
      (x = none ↔ (w.buf b).freeze_start = true ∨ line style (w.bytes (L b).data) = none ∨
        w.fails w.mallocs = true) := by
  have hreadln := Libevent.readln_spec h hcount style
  split at hreadln
  · rename_i hno
    refine ⟨_, _, hreadln, ?_⟩
    simp only [true_iff]
    exact hno.imp_right .inl
  · rename_i hyes
    split at hreadln
    · rename_i hfails
      exact ⟨_, _, hreadln, by simp [hfails]⟩
    · rename_i hfails
      obtain ⟨v, _, k, e, -, hgo, -⟩ := hreadln
      refine ⟨_, _, hgo, ?_⟩
      rw [← or_assoc, iff_false_left (Option.some_ne_none _)]
      exact fun hor => hor.elim hyes hfails

/-- What has been returned are the first lines of what has arrived, and the rest is in the
evbuffer; if no line is left there, these are all lines.  The next call returns one, unless
there is a reason not to. -/
theorem lines_run (h : w.Inv L []) (hcount : Counted w L b)
    (hstyle : style ≠ .EVBUFFER_EOL_ANY) (calls : List LineCall) :
    ∃ w' L' n xs, Reading.run b style ⟨w, p, []⟩ calls = some ⟨w', p.drop n, xs⟩ ∧
      w'.Inv L' [] ∧ Counted w' L' b ∧
      Takes (line style) (w.bytes (L b).data ++ p.take n) xs (w'.bytes (L' b).data) ∧
      (line style (w'.bytes (L' b).data) = none → ∀ ys r,
        Takes (line style) (w.bytes (L b).data ++ p.take n) ys r → ys <+: xs) ∧
      ∃ v x, evbuffer_readln w' b style = some (v, x) ∧
        (x = none ↔ (w'.buf b).freeze_start = true ∨ line style (w'.bytes (L' b).data) = none ∨
          w'.fails w'.mallocs = true) := by
  obtain ⟨w', L', n, xs, hgo, hinv, hcount', htakes⟩ :=
    Reading.run_invariant (p := p) (I := Takes (line style))
      (fun _ _ _ t htakes => (steady_line hstyle).append htakes t)
      (fun _ _ _ _ _ htakes hx => htakes.snoc hx) h hcount .nil calls
  exact ⟨w', L', n, xs, hgo, hinv, hcount', htakes, fun hnone ys r hys => htakes.all hnone hys,
    readln_eq_none hinv hcount' style⟩

/-- Two reads, and the line end between them. -/
theorem lines_run_two :
    ∃ w' L' n xs, Reading.run 0 .EVBUFFER_EOL_CRLF
        ⟨World.start fun _ => false, [104, 105, 13, 10, 33], []⟩
        [.read (some 3) 0 (-1), .readln, .read (some 9) 0 (-1), .readln] =
          some ⟨w', [104, 105, 13, 10, 33].drop n, xs⟩ ∧
      w'.Inv L' [] ∧ Counted w' L' 0 ∧
      Takes (line .EVBUFFER_EOL_CRLF) ([] ++ [104, 105, 13, 10, 33].take n) xs
        (w'.bytes (L' 0).data) ∧
      (line .EVBUFFER_EOL_CRLF (w'.bytes (L' 0).data) = none → ∀ ys r,
        Takes (line .EVBUFFER_EOL_CRLF) ([] ++ [104, 105, 13, 10, 33].take n) ys r →
          ys <+: xs) ∧
      ∃ v x, evbuffer_readln w' 0 .EVBUFFER_EOL_CRLF = some (v, x) ∧
        (x = none ↔ (w'.buf 0).freeze_start = true ∨
          line .EVBUFFER_EOL_CRLF (w'.bytes (L' 0).data) = none ∨
          w'.fails w'.mallocs = true) :=
  lines_run World.start_models.inv (World.start_models.counted 0) evbuffer_eol_style.noConfusion _

/-! ## `EVBUFFER_EOL_ANY` -/

/-- The next line that is not empty. -/
def word (s : List UInt8) : Option (List UInt8 × List UInt8) :=
  ((s.dropWhile isEol).findIdx? isEol).map fun k =>
    ((s.dropWhile isEol).take k, (s.dropWhile isEol).drop k)

theorem word_congr (h : s.dropWhile isEol = t.dropWhile isEol) : word s = word t := by
  rw [word, word, h]

theorem dropWhile_congr (h : s.dropWhile isEol = t.dropWhile isEol) (u : List UInt8) :
    (s ++ u).dropWhile isEol = (t ++ u).dropWhile isEol := by
  rw [List.dropWhile_append, List.dropWhile_append, h]

theorem steady_word : Steady word := by
  refine ⟨fun {s x r} h t => ?_⟩
  obtain ⟨k, hk, heq⟩ := Option.map_eq_some_iff.mp h
  obtain ⟨rfl, rfl⟩ := Prod.mk.inj heq
  have hlt : k < (s.dropWhile isEol).length := (List.findIdx?_eq_some_iff_getElem.mp hk).1
  have hne : (s.dropWhile isEol).isEmpty = false :=
    List.isEmpty_eq_false_iff.mpr (List.ne_nil_of_length_pos (by omega))
  have happend : (s ++ t).dropWhile isEol = s.dropWhile isEol ++ t := by
    rw [List.dropWhile_append, hne]
    rfl
  rw [word, happend, List.findIdx?_append, hk, Option.some_or, Option.map_some,
    List.take_append_of_le_length (Nat.le_of_lt hlt),
    List.drop_append_of_le_length (Nat.le_of_lt hlt)]

theorem drop_takeWhile (s : List UInt8) :
    s.drop (s.takeWhile isEol).length = s.dropWhile isEol := by
  induction s with
  | nil => rfl
  | cons c s ih =>
      rw [List.takeWhile_cons, List.dropWhile_cons]
      split
      · exact ih
      · rfl

/-- A line is empty, or is the next word; what is left differs in ends of lines only. -/
theorem word_of_line (h : line .EVBUFFER_EOL_ANY s = some (x, r)) :
    x = [] ∧ r.dropWhile isEol = s.dropWhile isEol ∨
    x ≠ [] ∧ ∃ t, word s = some (x, t) ∧ t.dropWhile isEol = r.dropWhile isEol := by
  obtain ⟨⟨k, e⟩, hke, heq⟩ := Option.map_eq_some_iff.mp h
  obtain ⟨rfl, rfl⟩ := Prod.mk.inj heq
  obtain ⟨i, hi, heq'⟩ := Option.map_eq_some_iff.mp hke
  obtain ⟨rfl, rfl⟩ := Prod.mk.inj heq'
  obtain ⟨hlt, -, hbefore⟩ := List.findIdx?_eq_some_iff_getElem.mp hi
  have hrest : s.drop (i + ((s.drop i).takeWhile isEol).length) = (s.drop i).dropWhile isEol := by
    rw [← List.drop_drop, drop_takeWhile]
  rw [hrest, List.dropWhile_idempotent]
  cases i with
  | zero => exact .inl ⟨rfl, rfl⟩
  | succ i =>
      have hne : s ≠ [] := List.ne_nil_of_length_pos (by omega)
      obtain ⟨c, s, rfl⟩ := List.exists_cons_of_ne_nil hne
      have hc : ¬ isEol c = true := hbefore 0 (Nat.succ_pos i)
      have hsame : (c :: s).dropWhile isEol = c :: s := by rw [List.dropWhile_cons, if_neg hc]
      refine .inr ⟨by simp, (c :: s).drop (i + 1), ?_, rfl⟩
      rw [word, hsame, hi]
      rfl

/-- The lines in `xs` that are not empty are the first words of `s`, and the words of `t` are
the others. -/
def Words (s : List UInt8) (xs : List (List UInt8)) (t : List UInt8) : Prop :=
  ∃ r, Takes word s (xs.filter (· ≠ [])) r ∧ r.dropWhile isEol = t.dropWhile isEol

theorem Words.append (h : Words s xs t) (u : List UInt8) : Words (s ++ u) xs (t ++ u) := by
  obtain ⟨r, htakes, hsame⟩ := h
  exact ⟨r ++ u, steady_word.append htakes u, dropWhile_congr hsame u⟩

theorem Words.snoc {u : List UInt8} (h : Words s xs t)
    (hx : line .EVBUFFER_EOL_ANY t = some (x, u)) : Words s (xs ++ [x]) u := by
  obtain ⟨r, htakes, hsame⟩ := h
  rcases word_of_line hx with ⟨rfl, heq⟩ | ⟨hne, r', hword, heq⟩
  · exact ⟨r, by simpa using htakes, hsame.trans heq.symm⟩
  · refine ⟨r', ?_, heq⟩
    have hfilter : [x].filter (· ≠ []) = [x] := List.filter_eq_self.mpr (by simpa using hne)
    rw [List.filter_append, hfilter]
    exact htakes.snoc ((word_congr hsame).trans hword)

/-- The lines that are not empty are the first words of what has arrived; if no word is left
in the evbuffer, these are all words.  The next call returns a line, unless there is a reason
not to. -/
theorem words_run (h : w.Inv L []) (hcount : Counted w L b) (calls : List LineCall) :
    ∃ w' L' n xs, Reading.run b .EVBUFFER_EOL_ANY ⟨w, p, []⟩ calls = some ⟨w', p.drop n, xs⟩ ∧
      w'.Inv L' [] ∧ Counted w' L' b ∧
      (∃ r, Takes word (w.bytes (L b).data ++ p.take n) (xs.filter (· ≠ [])) r ∧
        r.dropWhile isEol = (w'.bytes (L' b).data).dropWhile isEol) ∧
      (word (w'.bytes (L' b).data) = none → ∀ ys r,
        Takes word (w.bytes (L b).data ++ p.take n) ys r → ys <+: xs.filter (· ≠ [])) ∧
      ∃ v x, evbuffer_readln w' b .EVBUFFER_EOL_ANY = some (v, x) ∧
        (x = none ↔ (w'.buf b).freeze_start = true ∨
          line .EVBUFFER_EOL_ANY (w'.bytes (L' b).data) = none ∨
          w'.fails w'.mallocs = true) := by
  obtain ⟨w', L', n, xs, hgo, hinv, hcount', r, htakes, hsame⟩ :=
    Reading.run_invariant (p := p) (I := Words)
      (fun _ _ _ t h => h.append t) (fun _ _ _ _ _ h hx => h.snoc hx) h hcount
      ⟨_, .nil, rfl⟩ calls
  exact ⟨w', L', n, xs, hgo, hinv, hcount', ⟨r, htakes, hsame⟩, fun hnone ys r hys =>
    htakes.all ((word_congr hsame).trans hnone) hys, readln_eq_none hinv hcount' _⟩

theorem words_run_two :
    ∃ w' L' n xs, Reading.run 0 .EVBUFFER_EOL_ANY
        ⟨World.start fun _ => false, [104, 105, 13, 10, 33], []⟩
        [.read (some 3) 0 (-1), .readln, .read (some 9) 0 (-1), .readln] =
          some ⟨w', [104, 105, 13, 10, 33].drop n, xs⟩ ∧
      w'.Inv L' [] ∧ Counted w' L' 0 ∧
      (∃ r, Takes word ([] ++ [104, 105, 13, 10, 33].take n) (xs.filter (· ≠ [])) r ∧
        r.dropWhile isEol = (w'.bytes (L' 0).data).dropWhile isEol) ∧
      (word (w'.bytes (L' 0).data) = none → ∀ ys r,
        Takes word ([] ++ [104, 105, 13, 10, 33].take n) ys r → ys <+: xs.filter (· ≠ [])) ∧
      ∃ v x, evbuffer_readln w' 0 .EVBUFFER_EOL_ANY = some (v, x) ∧
        (x = none ↔ (w'.buf 0).freeze_start = true ∨
          line .EVBUFFER_EOL_ANY (w'.bytes (L' 0).data) = none ∨
          w'.fails w'.mallocs = true) :=
  words_run World.start_models.inv (World.start_models.counted 0) _

end

end CppWorkspace.Libevent
