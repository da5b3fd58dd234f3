/-
# `CppWorkspace.LibeventServer.DoRead` — the read callback, and when it returns

`DoRead` has two loops: the first empties the input buffer into `in_buf`, the
second handles the packets in `in_buf`.  Both are embedded with fuel, so that
`none` means "still running", and a run that returns is one for which some
amount of fuel is enough.

The second loop takes a packet of at least `sizeof(Head)` bytes away in each
round and always returns.  The first loop runs WHILE THERE IS INPUT and reads
what there is room for, so it returns exactly if the input fits
(`doRead_returns_iff`).  When it does not, `evbuffer_remove` is called with
`n = 0` for ever (`doRead_hangs`): seven bytes of an unfinished head and then
the 4096 bytes that the high watermark lets through are enough.
-/
import CppWorkspace.LibeventServer.Conn

namespace CppWorkspace.LibeventServer

/-- A connection, and what an observer sees of it: whether `CloseConn` was
called, the handlers that were dispatched (id and `in_buf`), and the calls of
`evbuffer_add`. -/
structure Session where
  conn : Conn
  closed : Bool
  dispatched : List (Int × List UInt8)
  sent : List Out

namespace Session

/-- `DispatchFunction(nFunID, c)`; `0` if nothing is registered. -/
def dispatch (r : CLibEventFunction) (s : Session) (nFunID : Int) : Session × Int :=
  match r.m_FunPtrList nFunID with
  | none => (s, 0)
  | some f =>
      ({ s with
          conn := s.conn.setOut (f s.conn.in_buf s.conn.out).1
          dispatched := s.dispatched ++ [(nFunID, s.conn.in_buf)] },
        (f s.conn.in_buf s.conn.out).2)

/-- `CloseConn`. -/
def close (r : CLibEventFunction) (s : Session) : Session :=
  { (({ s with conn := s.conn.clear } : Session).dispatch r emFunClosed).1 with closed := true }

/-- The `switch` on the code of a handler that does not close: for `emFunReturnSend`
the call `evbuffer_add(output, c->out_buf, c->out_buf_len)`. -/
def answer (s : Session) (code : Int) : Session :=
  if code = emFunReturnSend then { s with sent := s.sent ++ [s.conn.out] } else s

/-- `in_buf_len -= h->pkglen`, and the `memmove`. -/
def next (s : Session) (h : Head) : Session := { s with conn := s.conn.advance h.pkglen.toNat }

end Session

/-- The packet is not legal. -/
def badHead (r : CLibEventFunction) (h : Head) : Bool :=
  emMaxBuffLen - sizeofHead < toUnsigned h.pkglen || toUnsigned h.pkglen < sizeofHead
    || h.stx != r.m_stx

/-- The first loop: `while (evbuffer_get_length(input))`. -/
def fillLoop : Nat → Conn → List UInt8 → Option Conn
  | _, c, [] => some c
  | 0, _, _ :: _ => none
  | fuel + 1, c, b :: bs =>
      fillLoop fuel (c.fill (b :: bs)) ((b :: bs).drop (emMaxBuffLen - c.in_buf_len))

/-- One round of the second loop, and whether there is another one: an
unfinished head, a packet that is not legal, an unfinished packet, a packet
without a handler; else the handler, its answer and the `memmove`. -/
def parseStep (r : CLibEventFunction) (s : Session) : Session × Bool :=
  let h := Head.ofBytes s.conn.in_buf
  if s.conn.in_buf_len < sizeofHead then (s, false)
  else if badHead r h then (s.close r, false)
  else if (s.conn.in_buf_len : Int) < h.pkglen then (s, false)
  else if emFunBase < h.nFunID ∧ (r.m_FunPtrList h.nFunID).isSome then
    let d := s.dispatch r h.nFunID
    if d.2 = emFunReturClose then (d.1.close r, false)
    else ((d.1.answer d.2).next h, ((d.1.answer d.2).next h).conn.in_buf_len != 0)
  else (s.close r, false)

/-- The second loop: `while (true)`. -/
def parseLoop (r : CLibEventFunction) : Nat → Session → Option Session
  | 0, _ => none
  | fuel + 1, s => if (parseStep r s).2 then parseLoop r fuel (parseStep r s).1
      else some (parseStep r s).1

/-- `DoRead` with the bytes `input` in the input buffer.  A closed connection
gets no callback. -/
def doRead (r : CLibEventFunction) (fuel : Nat) (s : Session) (input : List UInt8) :
    Option Session :=
  if s.closed ∨ input = [] then some s
  else (fillLoop fuel s.conn input).bind fun c => parseLoop r fuel { s with conn := c }

/-- Successive calls of `DoRead`. -/
def doReads (r : CLibEventFunction) (fuel : Nat) (s : Session) :
    List (List UInt8) → Option Session
  | [] => some s
  | x :: xs => (doRead r fuel s x).bind fun t => doReads r fuel t xs

/-! ## The second loop always returns -/

theorem toUnsigned_of_nonneg {n : Int} (h₀ : 0 ≤ n) (h₁ : n < 2 ^ 32) :
    toUnsigned n = n.toNat := by
  rw [toUnsigned, Int.emod_eq_of_lt h₀ h₁]

theorem signed_lt (w n : Nat) (hw : 0 < w) (hn : n < 2 ^ (8 * w)) :
    -2 ^ (8 * w - 1) ≤ signed w n ∧ signed w n < 2 ^ (8 * w - 1) := by
  have hpow : 2 ^ (8 * w) = 2 * 2 ^ (8 * w - 1) := by
    rw [← Nat.pow_succ']
    congr 1
    omega
  have hcast : ((2 ^ (8 * w) : Nat) : Int) = 2 * 2 ^ (8 * w - 1) := by exact_mod_cast hpow
  unfold signed
  split
  · have : ((n : Nat) : Int) < 2 ^ (8 * w - 1) := by exact_mod_cast ‹n < _›
    constructor <;> omega
  · have h₁ : (2 ^ (8 * w - 1) : Int) ≤ n := by exact_mod_cast Nat.le_of_not_lt ‹¬ n < _›
    have h₂ : ((n : Nat) : Int) < (2 : Int) ^ (8 * w) := by exact_mod_cast hn
    have h₃ : (2 : Int) ^ (8 * w) = 2 * 2 ^ (8 * w - 1) := by exact_mod_cast hpow
    constructor <;> omega

theorem leNat_lt (l : List UInt8) : leNat l < 256 ^ l.length := by
  induction l with
  | nil => exact Nat.one_pos
  | cons b l ih =>
      have hb := b.toNat_lt
      simp only [leNat, List.length_cons, Nat.pow_succ]
      omega

/-- A legal packet has a length between `sizeof(Head)` and 4088. -/
theorem pkglen_of_not_bad {r : CLibEventFunction} {buf : List UInt8}
    (h : badHead r (Head.ofBytes buf) = false) :
    8 ≤ (Head.ofBytes buf).pkglen ∧ (Head.ofBytes buf).pkglen ≤ 4088 := by
  have hshort : -2 ^ 15 ≤ (Head.ofBytes buf).pkglen ∧ (Head.ofBytes buf).pkglen < 2 ^ 15 := by
    have hlt := leNat_lt ((buf.drop 4).take 2)
    have hle : ((buf.drop 4).take 2).length ≤ 2 := by
      rw [List.length_take]
      omega
    have hpow : 256 ^ ((buf.drop 4).take 2).length ≤ 256 ^ 2 :=
      Nat.pow_le_pow_right (by omega) hle
    exact signed_lt 2 _ (by omega) (by omega)
  simp only [badHead, Bool.or_eq_false_iff, decide_eq_false_iff_not] at h
  simp only [toUnsigned, emMaxBuffLen, sizeofHead] at h
  omega

section
variable (r : CLibEventFunction) (s : Session) (nFunID code : Int) (h : Head)

@[simp] theorem Session.dispatch_in_buf_len :
    (s.dispatch r nFunID).1.conn.in_buf_len = s.conn.in_buf_len := by
  unfold Session.dispatch
  split <;> rfl

@[simp] theorem Session.answer_conn : (s.answer code).conn = s.conn := by
  unfold Session.answer
  split <;> rfl

@[simp] theorem Session.next_in_buf_len :
    (s.next h).conn.in_buf_len = s.conn.in_buf_len - h.pkglen.toNat := rfl

end

/-- A round after which there is another one has taken a packet away. -/
theorem parseStep_lt {r : CLibEventFunction} {s : Session} (h : (parseStep r s).2 = true) :
    (parseStep r s).1.conn.in_buf_len < s.conn.in_buf_len := by
  unfold parseStep at h ⊢
  by_cases hhead : s.conn.in_buf_len < sizeofHead
  · simp [hhead] at h
  by_cases hbad : badHead r (Head.ofBytes s.conn.in_buf) = true
  · simp [hhead, hbad] at h
  by_cases hlen : (s.conn.in_buf_len : Int) < (Head.ofBytes s.conn.in_buf).pkglen
  · simp [hhead, hbad, hlen] at h
  by_cases hid : emFunBase < (Head.ofBytes s.conn.in_buf).nFunID
      ∧ (r.m_FunPtrList (Head.ofBytes s.conn.in_buf).nFunID).isSome
  · by_cases hcode : (s.dispatch r (Head.ofBytes s.conn.in_buf).nFunID).2 = emFunReturClose
    · simp [hhead, hbad, hlen, hid, hcode] at h
    · obtain ⟨hpkg, -⟩ := pkglen_of_not_bad (by simpa using hbad)
      simp [hhead, hbad, hlen, hid, hcode]
      omega
  · simp [hhead, hbad, hlen, hid] at h

theorem parseLoop_returns (r : CLibEventFunction) (fuel : Nat) :
    ∀ s : Session, s.conn.in_buf_len < fuel → ∃ t, parseLoop r fuel s = some t := by
  induction fuel with
  | zero =>
      intro s h
      omega
  | succ fuel ih =>
      intro s hlt
      unfold parseLoop
      split
      · rename_i hgo
        have hdec := parseStep_lt hgo
        exact ih _ (by omega)
      · exact ⟨_, rfl⟩

/-! ## The first loop returns if the input fits -/

theorem fillLoop_fits {c : Conn} {input : List UInt8} (h₀ : input ≠ [])
    (h : c.in_buf_len + input.length ≤ emMaxBuffLen) (fuel : Nat) :
    fillLoop (fuel + 1) c input = some (c.fill input) := by
  cases input with
  | nil => exact absurd rfl h₀
  | cons b bs =>
      have hdrop : (b :: bs).drop (emMaxBuffLen - c.in_buf_len) = [] :=
        List.drop_eq_nil_of_le (by omega)
      show fillLoop fuel _ ((b :: bs).drop (emMaxBuffLen - c.in_buf_len)) = _
      rw [hdrop]
      unfold fillLoop
      rfl

theorem fillLoop_full {input : List UInt8} (h₀ : input ≠ []) (fuel : Nat) :
    ∀ {c : Conn}, c.in_buf_len = emMaxBuffLen → fillLoop fuel c input = none := by
  obtain ⟨b, bs, rfl⟩ := List.exists_cons_of_ne_nil h₀
  induction fuel with
  | zero =>
      intro c hc
      rfl
  | succ fuel ih =>
      intro c hc
      show fillLoop fuel _ ((b :: bs).drop (emMaxBuffLen - c.in_buf_len)) = none
      rw [hc, Nat.sub_self, List.drop_zero]
      exact ih (by simp [hc])

/-- Input that does not fit fills `in_buf`, and the rest is never read. -/
theorem fillLoop_overfull {c : Conn} {input : List UInt8} (h₀ : input ≠ [])
    (h : emMaxBuffLen < c.in_buf_len + input.length) (fuel : Nat) :
    fillLoop fuel c input = none := by
  obtain ⟨b, bs, rfl⟩ := List.exists_cons_of_ne_nil h₀
  have hbound := c.in_buf_bound
  cases fuel with
  | zero => rfl
  | succ fuel =>
      show fillLoop fuel _ ((b :: bs).drop (emMaxBuffLen - c.in_buf_len)) = none
      refine fillLoop_full ?_ fuel ?_
      · intro hnil
        have hlen := congrArg List.length hnil
        simp only [List.length_drop, List.length_nil] at hlen
        omega
      · simp only [Conn.fill_in_buf_len]
        omega

theorem fillLoop_mono {c c' : Conn} {input : List UInt8} {fuel fuel' : Nat} (hle : fuel ≤ fuel')
    (h : fillLoop fuel c input = some c') : fillLoop fuel' c input = some c' := by
  induction fuel generalizing fuel' c input with
  | zero =>
      cases input with
      | nil => cases fuel' <;> exact h
      | cons b bs => cases h
  | succ fuel ih =>
      cases input with
      | nil => cases fuel' <;> exact h
      | cons b bs =>
          cases fuel' with
          | zero => omega
          | succ fuel' =>
              unfold fillLoop at h ⊢
              exact ih (by omega) h

theorem parseLoop_mono {r : CLibEventFunction} {s t : Session} {fuel fuel' : Nat}
    (hle : fuel ≤ fuel') (h : parseLoop r fuel s = some t) : parseLoop r fuel' s = some t := by
  induction fuel generalizing fuel' s with
  | zero => cases h
  | succ fuel ih =>
      cases fuel' with
      | zero => omega
      | succ fuel' =>
          unfold parseLoop at h ⊢
          split at h
          · rename_i hgo
            rw [if_pos hgo]
            exact ih (by omega) h
          · rename_i hstop
            rw [if_neg hstop]
            exact h

/-! ## When `DoRead` returns -/

/-- There is no callback, or what is pending fits behind what was left. -/
def Fits (s : Session) (input : List UInt8) : Prop :=
  s.closed ∨ input = [] ∨ s.conn.in_buf_len + input.length ≤ emMaxBuffLen

theorem doRead_mono {r : CLibEventFunction} {s t : Session} {input : List UInt8}
    {fuel fuel' : Nat} (hle : fuel ≤ fuel') (h : doRead r fuel s input = some t) :
    doRead r fuel' s input = some t := by
  unfold doRead at h ⊢
  split at h
  · rename_i hskip
    rw [if_pos hskip]
    exact h
  · rename_i hskip
    obtain ⟨c, hc, ht⟩ := Option.bind_eq_some_iff.mp h
    rw [if_neg hskip, fillLoop_mono hle hc]
    exact parseLoop_mono hle ht

theorem doRead_unique {r : CLibEventFunction} {s t t' : Session} {input : List UInt8}
    {fuel fuel' : Nat} (h : doRead r fuel s input = some t)
    (h' : doRead r fuel' s input = some t') : t = t' := by
  have h₁ := doRead_mono (Nat.le_max_left fuel fuel') h
  have h₂ := doRead_mono (Nat.le_max_right fuel fuel') h'
  exact Option.some.inj (h₁.symm.trans h₂)

theorem doRead_returns (r : CLibEventFunction) (s : Session) (input : List UInt8) :
    (∃ fuel t, doRead r fuel s input = some t) ↔ Fits s input := by
  constructor
  · rintro ⟨fuel, t, h⟩
    by_contra hover
    simp only [Fits, not_or, Nat.not_le] at hover
    obtain ⟨hopen, h₀, hover⟩ := hover
    rw [doRead, if_neg (by simp [hopen, h₀]), fillLoop_overfull h₀ hover] at h
    cases h
  · intro hfits
    by_cases hskip : s.closed ∨ input = []
    · exact ⟨0, s, if_pos hskip⟩
    · have h₀ : input ≠ [] := fun h => hskip (.inr h)
      have hroom : s.conn.in_buf_len + input.length ≤ emMaxBuffLen := by
        rcases hfits with h | h | h
        · exact absurd (.inl h) hskip
        · exact absurd h h₀
        · exact h
      obtain ⟨t, ht⟩ := parseLoop_returns r (emMaxBuffLen + 1)
        { s with conn := s.conn.fill input } (Nat.lt_succ_of_le (s.conn.fill input).in_buf_bound)
      refine ⟨emMaxBuffLen + 1, t, ?_⟩
      rw [doRead, if_neg hskip, fillLoop_fits h₀ hroom]
      exact ht

/-- In each call of a run, the input fits. -/
def AllFit (r : CLibEventFunction) : Session → List (List UInt8) → Prop
  | _, [] => True
  | s, x :: xs => Fits s x ∧ ∀ fuel t, doRead r fuel s x = some t → AllFit r t xs

theorem doReads_mono {r : CLibEventFunction} {s t : Session} {chunks : List (List UInt8)}
    {fuel fuel' : Nat} (hle : fuel ≤ fuel') (h : doReads r fuel s chunks = some t) :
    doReads r fuel' s chunks = some t := by
  induction chunks generalizing s with
  | nil => exact h
  | cons x xs ih =>
      obtain ⟨u, hu, ht⟩ := Option.bind_eq_some_iff.mp h
      exact Option.bind_eq_some_iff.mpr ⟨u, doRead_mono hle hu, ih ht⟩

/-- **Termination of `DoRead`.**  Over any run of calls, from any state of a
connection, every call returns exactly if in every call the pending input is
empty or fits behind what the calls before it have left in `in_buf`. -/
theorem doReads_return_iff (r : CLibEventFunction) (s : Session) (chunks : List (List UInt8)) :
    (∃ fuel t, doReads r fuel s chunks = some t) ↔ AllFit r s chunks := by
  induction chunks generalizing s with
  | nil => exact ⟨fun _ => trivial, fun _ => ⟨0, s, rfl⟩⟩
  | cons x xs ih =>
      constructor
      · rintro ⟨fuel, t, h⟩
        obtain ⟨u, hu, ht⟩ := Option.bind_eq_some_iff.mp h
        refine ⟨(doRead_returns r s x).mp ⟨fuel, u, hu⟩, ?_⟩
        intro fuel' u' hu'
        obtain rfl := doRead_unique hu hu'
        exact (ih u).mp ⟨fuel, t, ht⟩
      · rintro ⟨hx, hxs⟩
        obtain ⟨fuel, u, hu⟩ := (doRead_returns r s x).mpr hx
        obtain ⟨fuel', t, ht⟩ := (ih u).mpr (hxs fuel u hu)
        refine ⟨max fuel fuel', t, Option.bind_eq_some_iff.mpr ⟨u, ?_, ?_⟩⟩
        · exact doRead_mono (Nat.le_max_left _ _) hu
        · exact doReads_mono (Nat.le_max_right _ _) ht

/-! ## An unfinished head and a full input buffer -/

theorem doRead_short {s : Session} {input : List UInt8} (hopen : s.closed = false)
    (h₀ : input ≠ []) (h : s.conn.in_buf_len + input.length < sizeofHead)
    (r : CLibEventFunction) (fuel : Nat) :
    doRead r (fuel + 1) s input = some { s with conn := s.conn.fill input } := by
  have hroom : s.conn.in_buf_len + input.length ≤ emMaxBuffLen := by
    simp only [sizeofHead, emMaxBuffLen] at h ⊢
    omega
  have hlen : (s.conn.fill input).in_buf_len < sizeofHead := by
    rw [Conn.fill_in_buf_len]
    omega
  have hstep : parseStep r { s with conn := s.conn.fill input }
      = ({ s with conn := s.conn.fill input }, false) := if_pos hlen
  rw [doRead, if_neg (by simp [hopen, h₀]), fillLoop_fits h₀ hroom, Option.bind_some, parseLoop,
    hstep]
  rfl

/-- A connection as `DoAccept` hands it out. -/
def fresh : Session where
  conn :=
    { in_buf := List.replicate emMaxBuffLen 0
      in_buf_len := 0
      out := { out_buf := List.replicate emMaxBuffLen 0, out_buf_len := 0 }
      in_buf_size := List.length_replicate
      in_buf_bound := Nat.zero_le _ }
  closed := false
  dispatched := []
  sent := []

/-- Seven bytes of a head, and then as much as the high watermark admits. -/
def unfinishedHead : List UInt8 := [0x85, 0x22, 0x0D, 0x00, 10, 0, 0xE9]

def pending : List UInt8 := List.replicate emMaxBuffLen 0

theorem doRead_hangs :
    (unfinishedHead.length ≤ emMaxBuffLen ∧ pending.length ≤ emMaxBuffLen)
      ∧ (∃ t, doReads registered 1 fresh [unfinishedHead] = some t)
      ∧ ∀ fuel, doReads registered fuel fresh [unfinishedHead, pending] = none := by
  have hfirst : ∀ fuel, doRead registered (fuel + 1) fresh unfinishedHead
      = some { fresh with conn := fresh.conn.fill unfinishedHead } :=
    doRead_short rfl (by decide) (by decide) registered
  have hpending : pending ≠ [] := by
    intro h
    have hlen : emMaxBuffLen = 0 := by simpa [pending] using congrArg List.length h
    cases hlen
  refine ⟨⟨by decide, by simp [pending]⟩, ⟨_, by rw [doReads, hfirst 0]; rfl⟩, ?_⟩
  intro fuel
  cases fuel with
  | zero => rfl
  | succ fuel =>
      rw [doReads, hfirst fuel, Option.bind_some, doReads, doRead,
        if_neg (by simp [hpending, fresh]), fillLoop_overfull hpending]
      · rfl
      · simp only [Conn.fill_in_buf_len, pending, List.length_replicate]
        decide

end CppWorkspace.LibeventServer
