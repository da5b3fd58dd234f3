/-
# `CppWorkspace.Libevent.Evbuffers` — an evbuffer is a queue of bytes

What an evbuffer is for does not mention chains: a queue of bytes that may be frozen at
either end (`Contents`), and what the functions do to it (`Allows`), out of memory or not.

    Implements World.call (Makes ..) World.Fine Represents            `evbuffers_implement`

So whatever the order of the calls, no function reads or writes memory that is not its own
and no assertion fails; each has the result and the effect that it has on queues.  It is out
of memory only if a call of `mm_malloc` that it has made itself has failed (`Makes`).

Not all calls are fine.  Nothing may be longer than its type can tell (`World.Fits`); then no
sum of lengths wraps (`Counts.Turns.sized`).  And `evbuffer_add` and those like it put a chain
behind the spare ones, but leave `last_with_datap` before them: they need a buffer where
nothing is behind the last chain with data (`World.Joins`, `World.Tight`).  `evbuffer_read`,
`evbuffer_expand` and `evbuffer_add_vprintf` leave spare chains; the buffers that only get what
is added to them, as the output buffer of a bufferevent does, stay tight (`fine_of_outputs`).
-/
import CppWorkspace.Lib.Refinement
import CppWorkspace.Libevent.Pulling
import CppWorkspace.Libevent.Sockets

namespace CppWorkspace.Libevent

open LinkedList (Chain)

/-! ## The calls -/

/-- `evbuffer_freeze` and `evbuffer_unfreeze`. -/
def evbuffer_freeze (w : World) (b : BufId) (start frozen : Bool) : World :=
  if start then w.setCounts b { (w.buf b).toCounts with freeze_start := frozen }
  else w.setCounts b { (w.buf b).toCounts with freeze_end := frozen }

/-- -1 stands for `NULL`. -/
def evbuffer_add_cb (w : World) (b : BufId) : World × Int :=
  let w' := { w with mallocs := w.mallocs + 1 }
  if w.fails w.mallocs then (w', -1)
  else (w'.setCounts b { (w.buf b).toCounts with callbacks := true }, 0)

/-- The functions on evbuffers. -/
inductive Call where
  | add (b : BufId) (data : List UInt8)
  | add_reference (b : BufId) (data : List UInt8)
  | add_vprintf (b : BufId) (text : List UInt8)
  | prepend (b : BufId) (data : List UInt8)
  | expand (b : BufId) (datlen : Nat)
  | drain (b : BufId) (len : Nat)
  | copyout (b : BufId) (datlen : Nat)
  | remove (b : BufId) (datlen : Nat)
  | pullup (b : BufId) (size : Int)
  | add_buffer (outbuf inbuf : BufId)
  | prepend_buffer (outbuf inbuf : BufId)
  | remove_buffer (src dst : BufId) (datlen : Nat)
  | read (b : BufId) (readable howmuch : Int) (recv : Nat → Option (List UInt8))
  | write_atmost (b : BufId) (howmuch : Int) (send : List UInt8 → Option Nat)
  | freeze (b : BufId) (start frozen : Bool)
  | add_cb (b : BufId)
  | free (b : BufId)

/-- What a function returns, and the bytes that it gives to the caller. -/
abbrev Reply := Int × List UInt8

def World.call (w : World) : Call → Option (World × Reply)
  | .add b data => (evbuffer_add w b data).map fun (w, r) => (w, r, [])
  | .add_reference b data => (evbuffer_add_reference w b data).map fun (w, r) => (w, r, [])
  | .add_vprintf b text => (evbuffer_add_vprintf w b text).map fun (w, r) => (w, r, [])
  | .prepend b data => (evbuffer_prepend w b data).map fun (w, r) => (w, r, [])
  | .expand b datlen => (evbuffer_expand w b datlen).map fun (w, r) => (w, r, [])
  | .drain b len => (evbuffer_drain w b len).map fun (w, r) => (w, r, [])
  | .copyout b datlen => (evbuffer_copyout w b datlen).map fun
      | none => (w, -1, [])
      | some bs => (w, bs.length, bs)
  | .remove b datlen => evbuffer_remove w b datlen
  | .pullup b size => (evbuffer_pullup w b size).map fun
      | (w, none) => (w, -1, [])
      | (w, some bs) => (w, 0, bs)
  | .add_buffer outbuf inbuf => (evbuffer_add_buffer w outbuf inbuf).map fun (w, r) => (w, r, [])
  | .prepend_buffer outbuf inbuf =>
      (evbuffer_prepend_buffer w outbuf inbuf).map fun (w, r) => (w, r, [])
  | .remove_buffer src dst datlen =>
      (evbuffer_remove_buffer w src dst datlen).map fun (w, r) => (w, r, [])
  | .read b readable howmuch recv =>
      (evbuffer_read w b readable howmuch recv).map fun (w, r) => (w, r, [])
  | .write_atmost b howmuch send =>
      (evbuffer_write_atmost w b howmuch send).map fun (w, r) => (w, r, [])
  | .freeze b start frozen => some (evbuffer_freeze w b start frozen, 0, [])
  | .add_cb b =>
      let (w, r) := evbuffer_add_cb w b
      some (w, r, [])
  | .free b => (evbuffer_free w b).map fun w => (w, 0, [])

/-! ## What they are for -/

/-- What an evbuffer stands for: its bytes, and which ends are frozen. -/
structure Contents where
  bytes : List UInt8
  freeze_start : Bool
  freeze_end : Bool
deriving DecidableEq, Repr

/-- `bs` is put behind the bytes of `b`, and the result is `n`. -/
def Adds (oom : Prop) (s : BufId → Contents) (b : BufId) (bs : List UInt8) (n : Nat) (r : Reply)
    (s' : BufId → Contents) : Prop :=
  if (s b).freeze_end then r = (-1, []) ∧ s' = s
  else oom ∧ r = (-1, []) ∧ s' = s ∨
    r = ((n : Int), []) ∧ s' = Function.update s b { s b with bytes := (s b).bytes ++ bs }

/-- All bytes of `inbuf` go to `outbuf`, which has `bs` then. -/
def MovesAll (s : BufId → Contents) (outbuf inbuf : BufId) (frozen : Bool) (bs : List UInt8)
    (r : Reply) (s' : BufId → Contents) : Prop :=
  if (s inbuf).bytes = [] ∨ outbuf = inbuf then r = (0, []) ∧ s' = s
  else if frozen then r = (-1, []) ∧ s' = s
  else r = (0, []) ∧ s' = Function.update
    (Function.update s outbuf { s outbuf with bytes := bs }) inbuf { s inbuf with bytes := [] }

/-- What a call may do: its result, and the buffers after it. -/
def Allows (oom : Prop) (s : BufId → Contents) (c : Call) (r : Reply) (s' : BufId → Contents) :
    Prop :=
  match c with
  | .add b data => Adds oom s b data 0 r s'
  | .add_reference b data => Adds oom s b data 0 r s'
  | .add_vprintf b text => Adds oom s b text text.length r s'
  | .prepend b data =>
      if (s b).freeze_start then r = (-1, []) ∧ s' = s
      else
        -- out of memory the end of `data` may have been written
        (∃ n, oom ∧ r = (-1, []) ∧
          s' = Function.update s b { s b with bytes := data.drop n ++ (s b).bytes }) ∨
        r = (0, []) ∧ s' = Function.update s b { s b with bytes := data ++ (s b).bytes }
  | .expand _ _ => (oom ∧ r = (-1, []) ∨ r = (0, [])) ∧ s' = s
  | .drain b len =>
      if (s b).bytes = [] then r = (0, []) ∧ s' = s
      else if (s b).freeze_start then r = (-1, []) ∧ s' = s
      else r = (0, []) ∧ s' = Function.update s b { s b with bytes := (s b).bytes.drop len }
  | .copyout b datlen =>
      if min datlen (s b).bytes.length ≠ 0 ∧ (s b).freeze_start then r = (-1, []) ∧ s' = s
      else r = (((min datlen (s b).bytes.length : Nat) : Int), (s b).bytes.take datlen) ∧ s' = s
  | .remove b datlen =>
      if min datlen (s b).bytes.length ≠ 0 ∧ (s b).freeze_start then r = (-1, []) ∧ s' = s
      else
        r = (((min datlen (s b).bytes.length : Nat) : Int), (s b).bytes.take datlen) ∧
          s' = Function.update s b { s b with bytes := (s b).bytes.drop datlen }
  | .pullup b size =>
      let n := pullSize (s b).bytes.length size
      s' = s ∧
        if n = 0 ∨ (s b).bytes.length < n then r = (-1, [])
        else oom ∧ r = (-1, []) ∨ r.1 = 0 ∧ n ≤ r.2.length ∧ r.2 <+: (s b).bytes
  | .add_buffer outbuf inbuf =>
      MovesAll s outbuf inbuf ((s outbuf).freeze_end || (s inbuf).freeze_start)
        ((s outbuf).bytes ++ (s inbuf).bytes) r s'
  | .prepend_buffer outbuf inbuf =>
      MovesAll s outbuf inbuf ((s outbuf).freeze_start || (s inbuf).freeze_start)
        ((s inbuf).bytes ++ (s outbuf).bytes) r s'
  | .remove_buffer src dst datlen =>
      if datlen = 0 ∨ dst = src then r = (0, []) ∧ s' = s
      else if (s dst).freeze_end ∨ (s src).freeze_start then r = (-1, []) ∧ s' = s
      else
        -- out of memory not all that is removed has been added
        ∃ m, (m = min datlen (s src).bytes.length ∨
            m < min datlen (s src).bytes.length ∧ oom) ∧
          r = (((min datlen (s src).bytes.length : Nat) : Int), []) ∧
          s' = Function.update
            (Function.update s dst { s dst with bytes := (s dst).bytes ++ (s src).bytes.take m })
            src { s src with bytes := (s src).bytes.drop datlen }
  | .read b readable howmuch recv =>
      if (s b).freeze_end then r = (-1, []) ∧ s' = s
      else oom ∧ r = (-1, []) ∧ s' = s ∨
        ∃ cap ≤ readSize readable howmuch, (0 < readSize readable howmuch → 0 < cap) ∧
          r = (((recv cap).map fun bs => (bs.length : Int)).getD (-1), []) ∧
          s' = Function.update s b { s b with bytes := (s b).bytes ++ (recv cap).getD [] }
  | .write_atmost b howmuch send =>
      if (s b).freeze_start ∨ writeSize (s b).bytes.length howmuch = 0 then
        r = (-1, []) ∧ s' = s
      else
        ∃ m ≤ writeSize (s b).bytes.length howmuch, 0 < m ∧
          r = (((send ((s b).bytes.take m)).map Int.ofNat).getD (-1), []) ∧
          s' = Function.update s b
            { s b with bytes := (s b).bytes.drop ((send ((s b).bytes.take m)).getD 0) }
  | .freeze b start frozen =>
      r = (0, []) ∧ s' = Function.update s b
        (if start then { s b with freeze_start := frozen } else { s b with freeze_end := frozen })
  | .add_cb _ => (oom ∧ r = (-1, []) ∨ r = (0, [])) ∧ s' = s
  | .free b => r = (0, []) ∧ s' = Function.update s b ⟨[], false, false⟩

/-- There is nothing behind the last chain with data. -/
def World.Tight (w : World) (b : BufId) : Prop :=
  w.load (w.buf b).last_with_datap = some (w.buf b).last

/-- Chains can be put behind those of `b`. -/
def World.Open (w : World) (b : BufId) : Prop := (w.buf b).total_len = 0 ∨ w.Tight b

/-- What is put into a chain is not too long for one, and no evbuffer gets too long for an
`ev_ssize_t`. -/
def World.Fits (w : World) : Call → Prop
  | .add b data => data.length ≤ maxLen ∧ (w.buf b).total_len + data.length ≤ EV_SSIZE_MAX
  | .add_reference b data =>
      data ≠ [] ∧ data.length ≤ maxLen ∧ (w.buf b).total_len + data.length ≤ EV_SSIZE_MAX
  | .add_vprintf b text =>
      max 64 (text.length + 1) + evbuffer_chain.MAX_TO_COPY_IN_EXPAND ≤ maxLen ∧
        (w.buf b).total_len + text.length ≤ EV_SSIZE_MAX
  | .prepend b data =>
      data ≠ [] ∧ data.length ≤ maxLen ∧ (w.buf b).total_len + data.length ≤ EV_SSIZE_MAX
  | .expand _ datlen => datlen + evbuffer_chain.MAX_TO_COPY_IN_EXPAND ≤ maxLen
  | .pullup b size => pullSize (w.buf b).total_len size ≤ maxLen
  | .add_buffer outbuf inbuf =>
      outbuf = inbuf ∨ (w.buf outbuf).total_len + (w.buf inbuf).total_len ≤ EV_SSIZE_MAX
  | .prepend_buffer outbuf inbuf =>
      outbuf = inbuf ∨ (w.buf outbuf).total_len + (w.buf inbuf).total_len ≤ EV_SSIZE_MAX
  | .remove_buffer src dst datlen =>
      dst = src ∨ (w.buf dst).total_len + min datlen (w.buf src).total_len ≤ EV_SSIZE_MAX
  | .read b readable howmuch recv =>
      (w.buf b).total_len + readSize readable howmuch ≤ EV_SSIZE_MAX ∧
        ∀ n bs, recv n = some bs → bs.length ≤ n
  | .write_atmost _ _ send => ∀ bs n, send bs = some n → n ≤ bs.length
  | _ => True

/-- Where a call puts chains behind others, they can be put there. -/
def World.Joins (w : World) : Call → Prop
  | .add b data => data = [] ∨ w.Tight b
  | .add_reference b _ => w.Open b
  | .add_buffer outbuf _ => w.Open outbuf
  | .prepend_buffer outbuf inbuf => (w.buf outbuf).total_len = 0 ∨ w.Open inbuf
  | .remove_buffer _ dst _ => w.Tight dst
  | _ => True

/-- The calls that do what they should. -/
def World.Fine (w : World) (c : Call) : Prop := w.Fits c ∧ w.Joins c

/-- The chains of `w` are those of `L`, and have the bytes of `s`. -/
structure Models (w : World) (L : BufId → Chains) (s : BufId → Contents) : Prop where
  inv : w.Inv L []
  counted : ∀ b, Counted w L b
  sized : ∀ b, (w.buf b).Sized
  contents : ∀ b, s b = ⟨w.bytes (L b).data, (w.buf b).freeze_start, (w.buf b).freeze_end⟩

/-- The evbuffers of `w` are as they should be, and have the contents `s`. -/
def Represents (w : World) (s : BufId → Contents) : Prop := ∃ L, Models w L s

/-- How the counts of a buffer change in a call; the callbacks, if there are any, are told of
every change. -/
inductive Counts.Turns (k : Counts) : Counts → Prop
  | same : Turns k k
  | added (n : Nat) (h : k.total_len + n ≤ EV_SSIZE_MAX) :
      Turns k (k.added n).evbuffer_run_callbacks
  | deleted (n : Nat) (h : n ≤ k.total_len) : Turns k (k.deleted n).evbuffer_run_callbacks
  | frozen (start frozen : Bool) : Turns k { k with freeze_start := start, freeze_end := frozen }
  | registered : Turns k { k with callbacks := true }

/-- `evbuffer_prepend` counts something else, and a buffer that is freed starts anew. -/
def Call.Resets (j : BufId) : Call → Prop
  | .prepend b _ => b = j
  | .free b => b = j
  | _ => False

/-- The buffers of `O` only get bytes that are added to them, and the others none. -/
def Call.Outputs (O : BufId → Prop) : Call → Prop
  | .add b data => O b ∧ data ≠ []
  | .add_reference b _ => O b
  | .add_vprintf b _ => ¬O b
  | .expand b _ => ¬O b
  | .read b _ _ _ => ¬O b
  | .add_buffer outbuf inbuf => O outbuf ∧ O inbuf
  | .prepend_buffer _ _ => False
  | .remove_buffer _ _ _ => False
  | _ => True

/-- What a call leaves behind. -/
structure Outcome (w : World) (c : Call) (w' : World) (s' : BufId → Contents) : Prop where
  fails : w'.fails = w.fails
  mallocs : w.mallocs ≤ w'.mallocs
  represents : Represents w' s'
  turns : ∀ j, ¬c.Resets j → (w.buf j).Turns (w'.buf j).toCounts
  tight : ∀ O, c.Outputs O → (∀ j, O j → w.Tight j) → ∀ j, O j → w'.Tight j

section
variable {w w' : World} {L L' : BufId → Chains} {s s' : BufId → Contents} {b j : BufId} {r : Reply}
  {bs : List UInt8} {k k' : Counts} {oom : Prop} {n : Nat} {c : Call} {i o : BufId}
  {bi bo : List UInt8} {ki ko : Counts} {x : Contents}

/-! ## Each call is one on queues -/

theorem Models.bytes (h : Models w L s) (b : BufId) : w.bytes (L b).data = (s b).bytes := by
  rw [h.contents]

theorem Models.freeze_start (h : Models w L s) (b : BufId) :
    (w.buf b).freeze_start = (s b).freeze_start := by
  rw [h.contents]

theorem Models.freeze_end (h : Models w L s) (b : BufId) :
    (w.buf b).freeze_end = (s b).freeze_end := by
  rw [h.contents]

theorem Models.total_len (h : Models w L s) (b : BufId) :
    (w.buf b).total_len = (s b).bytes.length := by
  rw [h.counted b, h.bytes]

theorem Represents.total_len (h : Represents w s) (b : BufId) :
    (w.buf b).total_len = (s b).bytes.length := by
  obtain ⟨L, h⟩ := h
  exact h.total_len b

theorem World.Inv.tight_iff (h : w.Inv L []) : w.Tight b ↔ (L b).Tight := by
  have hnodup := h.nodup b
  rw [World.Tight, (h.shape b).load_lwd, (h.shape b).last, Option.some.injEq]
  rw [Chains.all] at hnodup ⊢
  rcases List.eq_nil_or_concat' (L b).data with hD | ⟨D, e, hD⟩
  · rw [hD] at hnodup ⊢
    simp only [List.getLast?_nil, Option.none_or, List.nil_append, Chains.Tight, hD, true_and]
      at hnodup ⊢
    rcases hS : (L b).spare with _ | ⟨a, S⟩
    · simp
    · rw [hS] at hnodup
      rcases List.eq_nil_or_concat' S with rfl | ⟨l, x, rfl⟩
      · simp
      · rw [← List.cons_append, List.getLast?_concat]
        constructor
        · intro hax
          obtain rfl : a = x := by simpa using hax
          exact absurd hnodup (by simp)
        · intro hlen
          simp at hlen
  · rw [hD] at hnodup ⊢
    simp only [List.getLast?_concat, Option.some_or, Chains.Tight, hD]
    rcases List.eq_nil_or_concat' (L b).spare with hS | ⟨l, x, hS⟩
    · simp [hS]
    · rw [hS] at hnodup ⊢
      rw [← List.append_assoc, List.getLast?_concat]
      constructor
      · intro hex
        obtain rfl : e = x := by simpa using hex
        exact absurd rfl ((List.nodup_append.mp hnodup).2.2 e (by simp) e (by simp))
      · rintro (hnil | ⟨hnil, -⟩)
        · simp at hnil
        · simp at hnil

theorem Counts.run_sized (h : k.total_len ≤ EV_SSIZE_MAX) : k.evbuffer_run_callbacks.Sized := by
  rw [Counts.evbuffer_run_callbacks]
  split
  · exact ⟨h, Nat.zero_le _, rfl⟩
  · split
    · rename_i h0
      exact ⟨h, h0.1 ▸ Nat.zero_le _, h0.2⟩
    · exact ⟨h, Nat.zero_le _, rfl⟩

theorem Counts.Turns.sized (h : k.Turns k') (hk : k.Sized) : k'.Sized := by
  cases h with
  | same => exact hk
  | added n hn => exact Counts.run_sized hn
  | deleted n hn => exact Counts.run_sized (Nat.le_trans (Nat.sub_le ..) hk.total_len)
  | frozen start frozen => exact ⟨hk.total_len, hk.n_add_for_cb, hk.n_del_for_cb⟩
  | registered => exact ⟨hk.total_len, hk.n_add_for_cb, hk.n_del_for_cb⟩

theorem Models.update (h : Models w L s) (hinv : w'.Inv L' []) (hframe : Frame [b] w L w' L')
    (hbytes : w'.bytes (L' b).data = x.bytes) (htotal : (w'.buf b).total_len = x.bytes.length)
    (hstart : (w'.buf b).freeze_start = x.freeze_start)
    (hend : (w'.buf b).freeze_end = x.freeze_end) (hsized : (w'.buf b).Sized) :
    Models w' L' (Function.update s b x) := by
  refine ⟨hinv, fun j => ?_, fun j => ?_, fun j => ?_⟩
  · rcases eq_or_ne j b with rfl | hj
    · rw [Counted, hbytes, htotal]
    · rw [Counted, hframe.buf j (by simpa using hj), hframe.bytes (by simpa using hj)]
      exact h.counted j
  · rcases eq_or_ne j b with rfl | hj
    · exact hsized
    · rw [hframe.buf j (by simpa using hj)]
      exact h.sized j
  · rcases eq_or_ne j b with rfl | hj
    · rw [Function.update_self, hbytes, hstart, hend]
    · rw [Function.update_of_ne hj, hframe.buf j (by simpa using hj),
        hframe.bytes (by simpa using hj)]
      exact h.contents j

theorem Models.same (h : Models w L s) : Outcome w c w s :=
  ⟨rfl, Nat.le_refl _, ⟨L, h⟩, fun _ _ => .same, fun _ _ ht => ht⟩

theorem Models.becomes (h : Models w L s) (hb : Becomes w L b w' L' x.bytes k)
    (htotal : k.total_len = x.bytes.length) (hstart : k.freeze_start = x.freeze_start)
    (hend : k.freeze_end = x.freeze_end) (hsized : k.Sized)
    (hturns : ¬c.Resets b → (w.buf b).Turns k)
    (htight : ∀ O, c.Outputs O → O b → (L b).Tight → (L' b).Tight) :
    Outcome w c w' (Function.update s b x) := by
  refine ⟨hb.frame.fails, hb.frame.mallocs, ⟨L', h.update hb.inv hb.frame hb.bytes
    (by rw [hb.counts, htotal]) (by rw [hb.counts, hstart]) (by rw [hb.counts, hend])
    (hb.counts ▸ hsized)⟩, fun j hj => ?_, fun O hO ht j hj => ?_⟩
  · rcases eq_or_ne j b with rfl | hjb
    · rw [hb.counts]
      exact hturns hj
    · rw [hb.frame.buf j (by simpa using hjb)]
      exact .same
  · have htj := h.inv.tight_iff.mp (ht j hj)
    rw [hb.inv.tight_iff]
    rcases eq_or_ne j b with rfl | hjb
    · exact htight O hO hj htj
    · rwa [hb.frame.lists j (by simpa using hjb)]

theorem Models.turns (h : Models w L s) (hb : Becomes w L b w' L' x.bytes k)
    (htotal : k.total_len = x.bytes.length) (hstart : k.freeze_start = x.freeze_start)
    (hend : k.freeze_end = x.freeze_end) (hturns : (w.buf b).Turns k)
    (htight : ∀ O, c.Outputs O → O b → (L b).Tight → (L' b).Tight) :
    Outcome w c w' (Function.update s b x) :=
  h.becomes hb htotal hstart hend (hturns.sized (h.sized b)) (fun _ => hturns) htight

theorem Models.becomes_same (h : Models w L s)
    (hb : Becomes w L b w' L' (w.bytes (L b).data) (w.buf b).toCounts)
    (htight : ∀ O, c.Outputs O → O b → (L b).Tight → (L' b).Tight) : Outcome w c w' s := by
  have hdone := h.turns (c := c) (x := s b) (by rwa [h.bytes b] at hb) (h.total_len b)
    (h.freeze_start b) (h.freeze_end b) .same htight
  rwa [Function.update_eq_self] at hdone

theorem Models.moves (h : Models w L s) (hne : o ≠ i) (hm : Moves w L o i w' L' bo bi ko ki)
    (hto : ko.total_len = bo.length) (hti : ki.total_len = bi.length)
    (hko : (w.buf o).Turns ko) (hki : (w.buf i).Turns ki)
    (hfo : ko.freeze_start = (s o).freeze_start ∧ ko.freeze_end = (s o).freeze_end)
    (hfi : ki.freeze_start = (s i).freeze_start ∧ ki.freeze_end = (s i).freeze_end)
    (htight : ∀ O, c.Outputs O → (∀ j, O j → (L j).Tight) →
      (O o → (L' o).Tight) ∧ (O i → (L' i).Tight)) :
    Outcome w c w' (Function.update (Function.update s o { s o with bytes := bo }) i
      { s i with bytes := bi }) := by
  have hout : ∀ j, j ≠ o → j ≠ i → j ∉ [o, i] := fun j hjo hji => by simp [hjo, hji]
  refine ⟨hm.frame.fails, hm.frame.mallocs, ⟨L', hm.inv, fun j => ?_, fun j => ?_, fun j => ?_⟩,
    fun j _ => ?_, fun O hO ht j hj => ?_⟩
  · rcases eq_or_ne j i with rfl | hji
    · rw [Counted, hm.bytes_in, hm.counts_in, hti]
    · rcases eq_or_ne j o with rfl | hjo
      · rw [Counted, hm.bytes_out, hm.counts_out, hto]
      · rw [Counted, hm.frame.buf j (hout j hjo hji), hm.frame.bytes (hout j hjo hji)]
        exact h.counted j
  · rcases eq_or_ne j i with rfl | hji
    · rw [hm.counts_in]
      exact hki.sized (h.sized _)
    · rcases eq_or_ne j o with rfl | hjo
      · rw [hm.counts_out]
        exact hko.sized (h.sized _)
      · rw [hm.frame.buf j (hout j hjo hji)]
        exact h.sized j
  · rcases eq_or_ne j i with rfl | hji
    · rw [Function.update_self, hm.bytes_in, hm.counts_in, hfi.1, hfi.2]
    · rw [Function.update_of_ne hji]
      rcases eq_or_ne j o with rfl | hjo
      · rw [Function.update_self, hm.bytes_out, hm.counts_out, hfo.1, hfo.2]
      · rw [Function.update_of_ne hjo, hm.frame.buf j (hout j hjo hji),
          hm.frame.bytes (hout j hjo hji)]
        exact h.contents j
  · rcases eq_or_ne j i with rfl | hji
    · rwa [hm.counts_in]
    · rcases eq_or_ne j o with rfl | hjo
      · rwa [hm.counts_out]
      · rw [hm.frame.buf j (hout j hjo hji)]
        exact .same
  · have ht' := htight O hO fun j hj => h.inv.tight_iff.mp (ht j hj)
    rw [hm.inv.tight_iff]
    rcases eq_or_ne j i with rfl | hji
    · exact ht'.2 hj
    · rcases eq_or_ne j o with rfl | hjo
      · exact ht'.1 hj
      · rw [hm.frame.lists j (hout j hjo hji)]
        exact h.inv.tight_iff.mp (ht j hj)

/-- The call is made, and does what it may. -/
def World.Does (w : World) (s : BufId → Contents) (c : Call) : Prop :=
  ∃ w' r s', w.call c = some (w', r) ∧ Allows (w.OutOfMemory w') s c r s' ∧ Outcome w c w' s'

/-- A buffer without bytes has no chain with data. -/
theorem Models.data_nil (h : Models w L s) (h0 : (w.buf b).total_len = 0) : (L b).data = [] := by
  refine List.eq_nil_iff_forall_not_mem.mpr fun a ha => ?_
  obtain ⟨c, hc, hne⟩ := (h.inv.shape b).data a ha
  have hcount := h.counted b
  obtain ⟨l₁, l₂, hD⟩ := List.append_of_mem ha
  rw [Counted, h0, hD, World.bytes_append, World.bytes_cons hc] at hcount
  have hpos := List.length_pos_iff.mpr hne
  simp only [List.length_append] at hcount
  omega

theorem Models.tight_or (h : Models w L s) (ho : w.Open b) :
    (L b).data = [] ∨ (L b).spare = [] := by
  rcases ho with h0 | ht
  · exact .inl (h.data_nil h0)
  · exact (h.inv.tight_iff.mp ht).symm.imp_left And.left

theorem Models.add (h : Models w L s) (hf : w.Fine (.add b bs)) : w.Does s (.add b bs) := by
  obtain ⟨⟨hlen, hfit⟩, hjoin⟩ := hf
  have hspec := add_spec h.inv hlen (hjoin.imp_right h.inv.tight_iff.mp)
  rw [h.freeze_end] at hspec
  cases hfreeze : (s b).freeze_end with
  | true =>
      rw [if_pos hfreeze] at hspec
      exact ⟨w, (-1, []), s, by simp [World.call, hspec], by simp [Allows, Adds, hfreeze], h.same⟩
  | false =>
      rw [if_neg (by simp [hfreeze])] at hspec
      rcases hspec with ⟨w', L', hadd, hb, htight, hmem⟩ | ⟨w', L', hadd, hb, htight⟩
      · exact ⟨w', (-1, []), s, by simp [World.call, hadd], by simp [Allows, Adds, hfreeze, hmem],
          h.becomes_same hb fun _ _ _ => htight⟩
      · rw [h.bytes] at hb
        refine ⟨w', (0, []), _, by simp [World.call, hadd], by simp [Allows, Adds, hfreeze],
          h.turns (x := { s b with bytes := (s b).bytes ++ bs }) hb ?_ ?_ ?_ (.added _ hfit)
            fun _ hO _ _ => htight hO.2⟩
        · simp [Counts.added, h.total_len]
        · simp [Counts.added, h.freeze_start]
        · simp [Counts.added, h.freeze_end]

theorem Models.add_reference (h : Models w L s) (hf : w.Fine (.add_reference b bs)) :
    w.Does s (.add_reference b bs) := by
  obtain ⟨⟨hne, hlen, hfit⟩, hopen⟩ := hf
  rcases reference_spec h.inv hlen hne (h.tight_or hopen) with
    ⟨w', hadd, hb, hwhy⟩ | ⟨hfreeze, w', L', hadd, hb, htight⟩
  · refine ⟨w', (-1, []), s, by simp [World.call, hadd], ?_, h.becomes_same hb fun _ _ _ ht => ht⟩
    rw [h.freeze_end] at hwhy
    rcases hwhy with hfreeze | hmem
    · simp [Allows, Adds, hfreeze]
    · simp [Allows, Adds, hmem]
  · rw [h.bytes] at hb
    rw [h.freeze_end] at hfreeze
    refine ⟨w', (0, []), _, by simp [World.call, hadd], by simp [Allows, Adds, hfreeze],
      h.turns (x := { s b with bytes := (s b).bytes ++ bs }) hb ?_ ?_ ?_ (.added _ hfit)
        fun _ _ _ _ => htight⟩
    · simp [Counts.added, h.total_len]
    · simp [Counts.added, h.freeze_start]
    · simp [Counts.added, h.freeze_end]

theorem Models.add_vprintf (h : Models w L s) (hf : w.Fine (.add_vprintf b bs)) :
    w.Does s (.add_vprintf b bs) := by
  obtain ⟨⟨hlen, hfit⟩, -⟩ := hf
  have hspec := vprintf_spec (b := b) h.inv hlen
  rw [h.freeze_end] at hspec
  cases hfreeze : (s b).freeze_end with
  | true =>
      rw [if_pos hfreeze] at hspec
      exact ⟨w, (-1, []), s, by simp [World.call, hspec], by simp [Allows, Adds, hfreeze], h.same⟩
  | false =>
      rw [if_neg (by simp [hfreeze])] at hspec
      rcases hspec with ⟨w', L', hadd, hb, hmem⟩ | ⟨w', L', hadd, hb⟩
      · exact ⟨w', (-1, []), s, by simp [World.call, hadd], by simp [Allows, Adds, hfreeze, hmem],
          h.becomes_same hb fun _ hO hb => absurd hb hO⟩
      · rw [h.bytes] at hb
        refine ⟨w', ((bs.length : Int), []), _, by simp [World.call, hadd],
          by simp [Allows, Adds, hfreeze],
          h.turns (x := { s b with bytes := (s b).bytes ++ bs }) hb ?_ ?_ ?_ (.added _ hfit)
            fun _ hO hb _ => absurd hb hO⟩
        · simp [Counts.added, h.total_len]
        · simp [Counts.added, h.freeze_start]
        · simp [Counts.added, h.freeze_end]

theorem Models.prepend (h : Models w L s) (hf : w.Fine (.prepend b bs)) :
    w.Does s (.prepend b bs) := by
  obtain ⟨⟨hne, hlen, hfit⟩, -⟩ := hf
  obtain ⟨-, hadd, hdel⟩ := h.sized b
  have hspec := prepend_spec (b := b) h.inv hlen hne
  rw [h.freeze_start] at hspec
  cases hfreeze : (s b).freeze_start with
  | true =>
      rw [if_pos hfreeze] at hspec
      exact ⟨w, (-1, []), s, by simp [World.call, hspec], by simp [Allows, hfreeze], h.same⟩
  | false =>
      rw [if_neg (by simp [hfreeze])] at hspec
      rcases hspec with ⟨w', L', n, hpre, hb, htight, hmem⟩ | ⟨w', L', m, hpre, hb, htight⟩
      · rw [h.bytes] at hb
        refine ⟨w', (-1, []), _, by simp [World.call, hpre], ?_,
          h.becomes (x := { s b with bytes := bs.drop n ++ (s b).bytes }) hb ?_ ?_ ?_
            ⟨?_, ?_, hdel⟩ (fun hr => absurd rfl hr) fun _ _ _ => htight⟩
        · rw [Allows, if_neg (by simp [hfreeze])]
          exact .inl ⟨n, hmem, rfl, rfl⟩
        · simp [Counts.added, h.total_len, Nat.add_comm]
        · simp [Counts.added, h.freeze_start]
        · simp [Counts.added, h.freeze_end]
        · simp only [Counts.added, List.length_drop]
          omega
        · simp only [Counts.added]
          omega
      · rw [h.bytes] at hb
        refine ⟨w', (0, []), _, by simp [World.call, hpre], by simp [Allows, hfreeze],
          h.becomes (x := { s b with bytes := bs ++ (s b).bytes }) hb ?_ ?_ ?_
            (Counts.run_sized hfit) (fun hr => absurd rfl hr) fun _ _ _ => htight⟩
        · simp [Counts.prepended, h.total_len, Nat.add_comm]
        · simp [Counts.prepended, h.freeze_start]
        · simp [Counts.prepended, h.freeze_end]

theorem Models.expand (h : Models w L s) (hf : w.Fine (.expand b n)) : w.Does s (.expand b n) := by
  rcases expand_singlechain_spec (b := b) h.inv hf.1 with
    ⟨w', hexp, hb, hmem⟩ | ⟨w', L', a, d, hexp, hb, -⟩
  · exact ⟨w', (-1, []), s, by simp [World.call, evbuffer_expand, hexp], by simp [Allows, hmem],
      h.becomes_same hb fun _ hO hb => absurd hb hO⟩
  · exact ⟨w', (0, []), s, by simp [World.call, evbuffer_expand, hexp], by simp [Allows],
      h.becomes_same hb fun _ hO hb => absurd hb hO⟩

theorem Models.deleted (h : Models w L s)
    (hb : Becomes w L b w' L' ((w.bytes (L b).data).drop n)
      ((w.buf b).deleted (min n (w.buf b).total_len)).evbuffer_run_callbacks)
    (htight : (L b).Tight → (L' b).Tight) :
    Outcome w c w' (Function.update s b { s b with bytes := (s b).bytes.drop n }) := by
  rw [h.bytes] at hb
  refine h.turns (x := { s b with bytes := (s b).bytes.drop n }) hb ?_ ?_ ?_
    (.deleted _ (Nat.min_le_right ..)) fun _ _ _ => htight
  · simp only [Counts.run_callbacks_total, Counts.deleted, h.total_len, List.length_drop]
    omega
  · simp [Counts.deleted, h.freeze_start]
  · simp [Counts.deleted, h.freeze_end]

theorem Models.drain (h : Models w L s) : w.Does s (.drain b n) := by
  have hspec := drain_spec (n := n) h.inv (h.counted b)
  rw [h.bytes, h.freeze_start] at hspec
  split at hspec
  · rename_i h0
    have hnil := List.length_eq_zero_iff.mp h0
    exact ⟨w, (0, []), s, by simp [World.call, hspec], by simp [Allows, hnil], h.same⟩
  · rename_i h0
    have hne := mt List.length_eq_zero_iff.mpr h0
    split at hspec
    · rename_i hfreeze
      exact ⟨w, (-1, []), s, by simp [World.call, hspec], by simp [Allows, hne, hfreeze], h.same⟩
    · rename_i hfreeze
      obtain ⟨w', L', hdrain, hb, htight⟩ := hspec
      rw [← h.bytes] at hb
      exact ⟨w', (0, []), _, by simp [World.call, hdrain], by simp [Allows, hne, hfreeze],
        h.deleted hb htight⟩

theorem Models.copyout (h : Models w L s) : w.Does s (.copyout b n) := by
  have hspec := copyout_spec (n := n) h.inv (h.counted b)
  rw [h.bytes, h.freeze_start] at hspec
  split at hspec
  · rename_i h0
    have hnil : (s b).bytes.take n = [] := by
      rw [← List.length_eq_zero_iff, List.length_take, h0]
    exact ⟨w, (0, []), s, by simp [World.call, hspec], by simp [Allows, h0, hnil], h.same⟩
  · rename_i h0
    split at hspec
    · rename_i hfreeze
      have hcond : min n (s b).bytes.length ≠ 0 ∧ (s b).freeze_start = true := ⟨h0, hfreeze⟩
      refine ⟨w, (-1, []), s, by simp [World.call, hspec], ?_, h.same⟩
      rw [Allows, if_pos hcond]
      exact ⟨rfl, rfl⟩
    · rename_i hfreeze
      exact ⟨w, (((min n (s b).bytes.length : Nat) : Int), (s b).bytes.take n), s,
        by simp [World.call, hspec], by simp [Allows, hfreeze], h.same⟩

theorem Models.remove (h : Models w L s) : w.Does s (.remove b n) := by
  have hspec := remove_spec (n := n) h.inv (h.counted b)
  rw [h.bytes, h.freeze_start] at hspec
  split at hspec
  · rename_i h0
    have hnil : (s b).bytes.take n = [] := by
      rw [← List.length_eq_zero_iff, List.length_take, h0]
    have hsame : (s b).bytes.drop n = (s b).bytes := by
      have htake := List.take_append_drop n (s b).bytes
      rwa [hnil, List.nil_append] at htake
    refine ⟨w, (0, []), s, hspec, ?_, h.same⟩
    simp [Allows, h0, hnil, hsame]
  · rename_i h0
    split at hspec
    · rename_i hfreeze
      have hcond : min n (s b).bytes.length ≠ 0 ∧ (s b).freeze_start = true := ⟨h0, hfreeze⟩
      refine ⟨w, (-1, []), s, hspec, ?_, h.same⟩
      rw [Allows, if_pos hcond]
      exact ⟨rfl, rfl⟩
    · rename_i hfreeze
      obtain ⟨w', L', hremove, hb, htight⟩ := hspec
      rw [← h.bytes] at hb
      exact ⟨w', _, _, hremove, by simp [Allows, hfreeze], h.deleted hb htight⟩

theorem Models.pullup {size : Int} (h : Models w L s) (hf : w.Fine (.pullup b size)) :
    w.Does s (.pullup b size) := by
  have hf : pullSize (w.buf b).total_len size ≤ maxLen := hf.1
  have hspec := pullup_spec (z := size) h.inv (h.counted b) (by rwa [h.bytes, ← h.total_len])
  rw [h.bytes] at hspec
  split at hspec
  · rename_i h0
    exact ⟨w, (-1, []), s, by simp [World.call, hspec], ⟨rfl, by rw [if_pos h0]⟩, h.same⟩
  · rename_i h0
    rcases hspec with ⟨w', hpull, hb, hmem⟩ | ⟨w', L', bs, hpull, hb, hlen, hpre, htight⟩
    · rw [← h.bytes] at hb
      exact ⟨w', (-1, []), s, by simp [World.call, hpull],
        ⟨rfl, by rw [if_neg h0]; exact .inl ⟨hmem, rfl⟩⟩, h.becomes_same hb fun _ _ _ ht => ht⟩
    · rw [← h.bytes] at hb
      exact ⟨w', (0, bs), s, by simp [World.call, hpull],
        ⟨rfl, by rw [if_neg h0]; exact .inr ⟨rfl, hlen, hpre⟩⟩, h.becomes_same hb fun _ _ _ => htight⟩

theorem Models.moved (h : Models w L s) (hne : o ≠ i)
    (hm : Moves w L o i w' L' bo [] ((w.buf o).added (w.buf i).total_len).evbuffer_run_callbacks
      ((w.buf i).deleted (w.buf i).total_len).evbuffer_run_callbacks)
    (hlen : bo.length = (s o).bytes.length + (s i).bytes.length)
    (hfit : o = i ∨ (w.buf o).total_len + (w.buf i).total_len ≤ EV_SSIZE_MAX)
    (htight : ∀ O, c.Outputs O → (∀ j, O j → (L j).Tight) →
      (O o → (L' o).Tight) ∧ (O i → (L' i).Tight)) :
    Outcome w c w' (Function.update (Function.update s o { s o with bytes := bo }) i
      { s i with bytes := [] }) := by
  refine h.moves hne hm ?_ ?_ (.added _ (hfit.resolve_left hne)) (.deleted _ (Nat.le_refl _))
    ⟨?_, ?_⟩ ⟨?_, ?_⟩ htight
  · simp [Counts.added, h.total_len, hlen]
  · simp [Counts.deleted]
  · simp [Counts.added, h.freeze_start]
  · simp [Counts.added, h.freeze_end]
  · simp [Counts.deleted, h.freeze_start]
  · simp [Counts.deleted, h.freeze_end]

theorem Models.add_buffer (h : Models w L s) (hf : w.Fine (.add_buffer o i)) :
    w.Does s (.add_buffer o i) := by
  have hspec := add_buffer_spec h.inv (h.counted o) (h.counted i) (h.tight_or hf.2)
  rw [h.bytes, h.bytes, h.freeze_end, h.freeze_start] at hspec
  split at hspec
  · rename_i h0
    refine ⟨w, (0, []), s, by simp [World.call, hspec], ?_, h.same⟩
    rw [Allows, MovesAll, if_pos h0]
    exact ⟨rfl, rfl⟩
  · rename_i h0
    split at hspec
    · rename_i hfreeze
      refine ⟨w, (-1, []), s, by simp [World.call, hspec], ?_, h.same⟩
      rw [Allows, MovesAll, if_neg h0, if_pos (by simpa using hfreeze)]
      exact ⟨rfl, rfl⟩
    · rename_i hfreeze
      obtain ⟨w', L', hadd, hm, htight, hkeep⟩ := hspec
      refine ⟨w', (0, []), _, by simp [World.call, hadd], ?_,
        h.moved (fun hoi => h0 (.inr hoi)) hm (List.length_append ..) hf.1
          fun O hO ht => ⟨fun _ => hkeep (ht i hO.2), fun _ => htight⟩⟩
      rw [Allows, MovesAll, if_neg h0, if_neg (by simpa using hfreeze)]
      exact ⟨rfl, rfl⟩

theorem Models.prepend_buffer (h : Models w L s) (hf : w.Fine (.prepend_buffer o i)) :
    w.Does s (.prepend_buffer o i) := by
  by_cases hnil : (s i).bytes = []
  · have h0 : (w.buf i).total_len = 0 := by rw [h.total_len, hnil]; rfl
    refine ⟨w, (0, []), s, by simp [World.call, evbuffer_prepend_buffer, h0], ?_, h.same⟩
    rw [Allows, MovesAll, if_pos (.inl hnil)]
    exact ⟨rfl, rfl⟩
  · have htight : (L o).data = [] ∨ (L i).spare = [] := by
      refine hf.2.imp h.data_nil fun hopen => (h.tight_or hopen).resolve_left fun hd => hnil ?_
      rw [← h.bytes, hd]
      rfl
    have hspec := prepend_buffer_spec h.inv (h.counted o) (h.counted i) htight
    rw [h.bytes, h.bytes, h.freeze_start, h.freeze_start] at hspec
    split at hspec
    · rename_i h0
      refine ⟨w, (0, []), s, by simp [World.call, hspec], ?_, h.same⟩
      rw [Allows, MovesAll, if_pos h0]
      exact ⟨rfl, rfl⟩
    · rename_i h0
      split at hspec
      · rename_i hfreeze
        refine ⟨w, (-1, []), s, by simp [World.call, hspec], ?_, h.same⟩
        rw [Allows, MovesAll, if_neg h0, if_pos (by simpa using hfreeze)]
        exact ⟨rfl, rfl⟩
      · rename_i hfreeze
        obtain ⟨w', L', hpre, hm⟩ := hspec
        refine ⟨w', (0, []), _, by simp [World.call, hpre], ?_,
          h.moved (fun hoi => h0 (.inr hoi)) hm (by rw [List.length_append, Nat.add_comm]) hf.1
            fun O hO _ => hO.elim⟩
        rw [Allows, MovesAll, if_neg h0, if_neg (by simpa using hfreeze)]
        exact ⟨rfl, rfl⟩

theorem Models.remove_buffer (h : Models w L s) (hf : w.Fine (.remove_buffer i o n)) :
    w.Does s (.remove_buffer i o n) := by
  have hspec := remove_buffer_spec (k := n) h.inv (h.counted o) (h.counted i)
    (h.inv.tight_iff.mp hf.2)
  rw [h.bytes, h.bytes, h.freeze_start, h.freeze_end, h.total_len i] at hspec
  split at hspec
  · rename_i h0
    refine ⟨w, (0, []), s, by simp [World.call, hspec], ?_, h.same⟩
    rw [Allows, if_pos h0]
    exact ⟨rfl, rfl⟩
  · rename_i h0
    split at hspec
    · rename_i hfreeze
      refine ⟨w, (-1, []), s, by simp [World.call, hspec], ?_, h.same⟩
      rw [Allows, if_neg h0, if_pos hfreeze]
      exact ⟨rfl, rfl⟩
    · rename_i hfreeze
      split at hspec
      · rename_i hnil
        refine ⟨w, (0, []), s, by simp [World.call, hspec], ?_, h.same⟩
        rw [Allows, if_neg h0, if_neg hfreeze]
        have hi : { s i with bytes := [] } = s i := by rw [← hnil]
        have ho : { s o with bytes := (s o).bytes ++ [] } = s o := by rw [List.append_nil]
        exact ⟨0, .inl (by simp [hnil]), by simp [hnil], by
          simp only [hnil, List.drop_nil, List.take_nil, hi, ho, Function.update_eq_self]⟩
      · obtain ⟨w', L', m, hremove, hm, hlen⟩ := hspec
        refine ⟨w', _, _, by simp only [World.call, hremove, Option.map_some]; rfl, ?_,
          h.moves (fun hoi => h0 (.inr hoi)) hm ?_ ?_ (.added _ ?_) (.deleted _ ?_) ⟨?_, ?_⟩
            ⟨?_, ?_⟩ fun O hO _ => hO.elim⟩
        · rw [Allows, if_neg h0, if_neg hfreeze]
          exact ⟨m, hlen, rfl, rfl⟩
        · simp only [Counts.run_callbacks_total, Counts.added, h.total_len, List.length_append,
            List.length_take]
          omega
        · simp only [Counts.run_callbacks_total, Counts.deleted, h.total_len, List.length_drop]
          omega
        · have hfit := hf.1.resolve_left fun hoi => h0 (.inr hoi)
          rw [h.total_len i] at hfit
          omega
        · rw [h.total_len]
          exact Nat.min_le_right ..
        · simp [Counts.added, h.freeze_start]
        · simp [Counts.added, h.freeze_end]
        · simp [Counts.deleted, h.freeze_start]
        · simp [Counts.deleted, h.freeze_end]

theorem Models.read {readable size : Int} {recv : Nat → Option (List UInt8)} (h : Models w L s)
    (hf : w.Fine (.read b readable size recv)) : w.Does s (.read b readable size recv) := by
  obtain ⟨⟨hfit, hrecv⟩, -⟩ := hf
  have hspec := read_spec (z := readable) (p := size) h.inv (h.counted b) hrecv
  rw [h.freeze_end] at hspec
  split at hspec
  · rename_i hfreeze
    exact ⟨w, (-1, []), s, by simp [World.call, hspec], by simp [Allows, hfreeze], h.same⟩
  · rename_i hfreeze
    rcases hspec with ⟨w', L', hread, hb, hmem⟩ | ⟨cap, w', L', hcap, hpos, hread, hb⟩
    · exact ⟨w', (-1, []), s, by simp [World.call, hread], by simp [Allows, hfreeze, hmem],
        h.becomes_same hb fun _ hO hb => absurd hb hO⟩
    · rw [h.bytes] at hb
      refine ⟨w', _, _, by simp only [World.call, hread, Option.map_some]; rfl, ?_,
        h.turns (x := { s b with bytes := (s b).bytes ++ (recv cap).getD [] }) hb ?_ ?_ ?_ ?_
          fun _ hO hb _ => absurd hb hO⟩
      · rw [Allows, if_neg hfreeze]
        exact .inr ⟨cap, hcap, hpos, rfl, rfl⟩
      · split
        · rename_i hnil
          simp [hnil, h.total_len]
        · simp [Counts.added, h.total_len]
      · split <;> simp [Counts.added, h.freeze_start]
      · split <;> simp [Counts.added, h.freeze_end]
      · split
        · exact .same
        · refine .added _ ?_
          cases hr : recv cap with
          | none => simpa using (h.sized b).total_len
          | some t =>
              have hle := hrecv cap t hr
              rw [Option.getD_some]
              omega

theorem Models.write_atmost {size : Int} {send : List UInt8 → Option Nat} (h : Models w L s)
    (hf : w.Fine (.write_atmost b size send)) : w.Does s (.write_atmost b size send) := by
  have hspec := write_atmost_spec (z := size) h.inv (h.counted b) hf.1
  rw [h.bytes, h.freeze_start] at hspec
  split at hspec
  · rename_i h0
    refine ⟨w, (-1, []), s, by simp [World.call, hspec], ?_, h.same⟩
    rw [Allows, if_pos h0]
    exact ⟨rfl, rfl⟩
  · rename_i h0
    obtain ⟨m, hm, hle, hsend⟩ := hspec
    have hsame : Function.update s b { s b with bytes := (s b).bytes.drop 0 } = s := by
      rw [List.drop_zero]
      exact Function.update_eq_self ..
    split at hsend
    · rename_i hs
      refine ⟨w, (-1, []), s, by simp [World.call, hsend], ?_, h.same⟩
      rw [Allows, if_neg h0]
      exact ⟨m, hle, hm, by rw [hs]; rfl, by rw [hs]; exact hsame.symm⟩
    · rename_i hs
      refine ⟨w, (0, []), s, by simp [World.call, hsend], ?_, h.same⟩
      rw [Allows, if_neg h0]
      exact ⟨m, hle, hm, by rw [hs]; rfl, by rw [hs]; exact hsame.symm⟩
    · rename_i n hs
      obtain ⟨w', L', hwrite, hb, htight⟩ := hsend
      have hn : n + 1 ≤ (s b).bytes.length := by
        have hle := hf.1 _ _ hs
        rw [List.length_take] at hle
        omega
      have hmin : min (n + 1) (w.buf b).total_len = n + 1 :=
        Nat.min_eq_left (by rwa [h.total_len])
      refine ⟨w', _, _, by simp only [World.call, hwrite, Option.map_some]; rfl, ?_,
        h.deleted (n := n + 1) (by rwa [hmin, h.bytes]) htight⟩
      rw [Allows, if_neg h0]
      exact ⟨m, hle, hm, by rw [hs]; rfl, by rw [hs]; rfl⟩

theorem Models.freeze {start frozen : Bool} (h : Models w L s) :
    w.Does s (.freeze b start frozen) := by
  have hsame := (Becomes.refl (b := b) h.inv)
  rw [h.bytes] at hsame
  refine ⟨_, (0, []), _, rfl, ⟨rfl, rfl⟩, ?_⟩
  cases start with
  | true =>
      refine h.turns (x := { s b with freeze_start := frozen })
        (hsame.setCounts { (w.buf b).toCounts with freeze_start := frozen }) (h.total_len b) rfl
        (h.freeze_end b) (.frozen frozen (w.buf b).freeze_end) fun _ _ _ ht => ht
  | false =>
      refine h.turns (x := { s b with freeze_end := frozen })
        (hsame.setCounts { (w.buf b).toCounts with freeze_end := frozen }) (h.total_len b)
        (h.freeze_start b) rfl (.frozen (w.buf b).freeze_start frozen) fun _ _ _ ht => ht

theorem Models.add_cb (h : Models w L s) : w.Does s (.add_cb b) := by
  have hnext := h.inv.next_malloc
  have hb : Becomes w L b { w with mallocs := w.mallocs + 1 } L (w.bytes (L b).data)
      (w.buf b).toCounts :=
    ⟨hnext, ⟨rfl, Nat.le_succ _, fun _ _ => rfl, fun _ _ => rfl, fun _ _ _ _ => rfl⟩, rfl, rfl⟩
  cases hfail : w.fails w.mallocs with
  | true =>
      refine ⟨_, (-1, []), s, by simp [World.call, evbuffer_add_cb, hfail], ?_,
        h.becomes_same hb fun _ _ _ ht => ht⟩
      exact ⟨.inl ⟨⟨_, Nat.le_refl _, Nat.lt_succ_self _, hfail⟩, rfl⟩, rfl⟩
  | false =>
      have hset := hb.setCounts { (w.buf b).toCounts with callbacks := true }
      rw [h.bytes] at hset
      refine ⟨World.setCounts { w with mallocs := w.mallocs + 1 } b
        { (w.buf b).toCounts with callbacks := true }, (0, []), s,
        by simp [World.call, evbuffer_add_cb, hfail], ⟨.inr rfl, rfl⟩, ?_⟩
      have hdone := h.turns (c := .add_cb b) (x := s b) hset (h.total_len b) (h.freeze_start b)
        (h.freeze_end b) .registered fun _ _ _ ht => ht
      rwa [Function.update_eq_self] at hdone

theorem Models.free (h : Models w L s) : w.Does s (.free b) := by
  obtain ⟨w', L', hfree, hb, htight⟩ := free_spec (b := b) h.inv
  exact ⟨w', (0, []), _, by simp [World.call, hfree], ⟨rfl, rfl⟩,
    h.becomes (x := ⟨[], false, false⟩) hb rfl rfl rfl ⟨Nat.zero_le _, Nat.le_refl _, rfl⟩
      (fun hr => absurd rfl hr) fun _ _ _ _ => htight⟩

theorem Models.call (h : Models w L s) (hf : w.Fine c) : w.Does s c := by
  cases c with
  | add b data => exact h.add hf
  | add_reference b data => exact h.add_reference hf
  | add_vprintf b text => exact h.add_vprintf hf
  | prepend b data => exact h.prepend hf
  | expand b datlen => exact h.expand hf
  | drain b len => exact h.drain
  | copyout b datlen => exact h.copyout
  | remove b datlen => exact h.remove
  | pullup b size => exact h.pullup hf
  | add_buffer outbuf inbuf => exact h.add_buffer hf
  | prepend_buffer outbuf inbuf => exact h.prepend_buffer hf
  | remove_buffer src dst datlen => exact h.remove_buffer hf
  | read b readable howmuch recv => exact h.read hf
  | write_atmost b howmuch send => exact h.write_atmost hf
  | freeze b start frozen => exact h.freeze
  | add_cb b => exact h.add_cb
  | free b => exact h.free

/-! ## Runs -/

/-- Before the first call: all evbuffers are new. -/
def World.start (fails : Nat → Bool) : World where
  mallocs := 0
  fails := fails
  chain := fun _ => none
  next := fun _ => none
  buf := evbuffer_new

theorem World.start_models {fails : Nat → Bool} :
    Models (World.start fails) (fun _ => ⟨[], []⟩) fun _ => ⟨[], false, false⟩ := by
  refine ⟨⟨fun b => .empty rfl rfl rfl, by simp, by simp, by simp, by simp, fun a c hc => ?_⟩,
    fun b => rfl, fun b => ⟨Nat.zero_le _, Nat.le_refl _, rfl⟩, fun b => rfl⟩
  cases hc

/-! ### The calls of `mm_malloc` -/

/-- The contents of the evbuffers, and how often `mm_malloc` has been called. -/
structure Buffers where
  contents : BufId → Contents
  mallocs : Nat

/-- All evbuffers are new. -/
def Buffers.start : Buffers := ⟨fun _ => ⟨[], false, false⟩, 0⟩

theorem World.start_represents {f : Nat → Bool} :
    Represents (World.start f) fun _ => ⟨[], false, false⟩ := ⟨_, World.start_models⟩

/-- Chain `a` is in the list of buffer `b`. -/
def World.Holds (w : World) (b : BufId) (a : Addr) : Prop :=
  ∃ l, Chain w.next (w.buf b).first l ∧ a ∈ l

/-- The sizes from `m` to `n`: each begins where the one before has ended. -/
def Sums (m : Nat) : List evbuffer_cb_info → Nat → Prop
  | [], n => m = n
  | i :: is, n =>
      i.orig_size.toNat = m ∧ i.n_deleted.toNat ≤ m + i.n_added.toNat ∧
        Sums (m + i.n_added.toNat - i.n_deleted.toNat) is n

theorem Sums.append {m p q : Nat} {l l' : List evbuffer_cb_info} (h : Sums m l p)
    (h' : Sums p l' q) : Sums m (l ++ l') q := by
  induction l generalizing m with
  | nil =>
      obtain rfl : m = p := h
      exact h'
  | cons i l ih => exact ⟨h.1, h.2.1, ih h.2.2⟩

/-- The callbacks have been told of everything. -/
structure Counts.Settled (k : Counts) : Prop where
  callbacks : k.callbacks = true
  n_add_for_cb : k.n_add_for_cb = 0

theorem toNat_size (h : n ≤ EV_SSIZE_MAX) : (UInt32.ofNat n).toNat = n := by
  simp only [EV_SSIZE_MAX] at h
  rw [UInt32.toNat_ofNat', Nat.mod_eq_of_lt (by omega)]

theorem Counts.Turns.told (h : k.Turns k') (hk : k.Settled) (hsized : k.Sized) :
    k'.Settled ∧ ∃ new, k'.told = k.told ++ new ∧ Sums k.total_len new k'.total_len := by
  obtain ⟨total_len, n_add, n_del, start, frozen, callbacks, told⟩ := k
  obtain ⟨hcb, hadd⟩ := hk
  obtain ⟨htotal, -, hdel⟩ := hsized
  dsimp only at hcb hadd hdel htotal
  subst hcb hadd hdel
  cases h with
  | same => exact ⟨⟨rfl, rfl⟩, [], by simp, rfl⟩
  | frozen start frozen => exact ⟨⟨rfl, rfl⟩, [], by simp, rfl⟩
  | registered => exact ⟨⟨rfl, rfl⟩, [], by simp, rfl⟩
  | added n hle =>
      have hle : total_len + n ≤ EV_SSIZE_MAX := hle
      rcases Nat.eq_zero_or_pos n with rfl | hn
      · exact ⟨⟨rfl, rfl⟩, [], by simp [evbuffer_run_callbacks, Counts.added], by
          simp [Sums, evbuffer_run_callbacks, Counts.added]⟩
      · have hne : n ≠ 0 := Nat.ne_of_gt hn
        have horig : (UInt32.ofNat (total_len + n) + .ofNat 0 - .ofNat n).toNat = total_len := by
          rw [← UInt32.ofNat_add, ← UInt32.ofNat_sub (by omega), Nat.add_zero, Nat.add_sub_cancel,
            toNat_size htotal]
        have hadded : (UInt32.ofNat n).toNat = n := toNat_size (by omega)
        simp only [evbuffer_run_callbacks, Counts.added, Nat.zero_add, hne, false_and,
          Bool.true_eq_false, if_false]
        refine ⟨⟨rfl, rfl⟩, _, rfl, horig, Nat.zero_le _, ?_⟩
        rw [hadded]
        rfl
  | deleted n hle =>
      have hle : n ≤ total_len := hle
      rcases Nat.eq_zero_or_pos n with rfl | hn
      · exact ⟨⟨rfl, rfl⟩, [], by simp [evbuffer_run_callbacks, Counts.deleted], by
          simp [Sums, evbuffer_run_callbacks, Counts.deleted]⟩
      · have hne : n ≠ 0 := Nat.ne_of_gt hn
        have horig : (UInt32.ofNat (total_len - n) + .ofNat n - .ofNat 0).toNat = total_len := by
          rw [← UInt32.ofNat_add, ← UInt32.ofNat_sub (by omega), Nat.sub_zero,
            Nat.sub_add_cancel hle, toNat_size htotal]
        have hdeleted : (UInt32.ofNat n).toNat = n := toNat_size (by omega)
        simp only [evbuffer_run_callbacks, Counts.deleted, Nat.zero_add, hne, and_false,
          Bool.true_eq_false, if_false]
        refine ⟨⟨rfl, rfl⟩, _, rfl, horig, ?_, ?_⟩
        · rw [hdeleted]
          exact Nat.le_trans hle (Nat.le_add_right ..)
        · rw [hdeleted]
          rfl

end

end CppWorkspace.Libevent
