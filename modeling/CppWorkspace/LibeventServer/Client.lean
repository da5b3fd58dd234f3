/-
# `CppWorkspace.LibeventServer.Client` — frame lengths of the client and of the server

`send_cmd` writes a head in front of the data and gives `h->pkglen` bytes to `send`;
`recv_cmd` makes one `recv` and compares the length of the frame with what it got.

The length of a frame is `sizeof(Head) + data_len`, a `size_t`, and is stored in a
`short`.  Up to 4088 bytes the two sides agree.  Above, the server refuses the head,
unless the length WRAPS: `data_len = 65538` is sent as a frame of ten bytes
(`Wraps`).  A response is taken if the one `recv` returns exactly its bytes: of a part
of it `recv_cmd` makes nothing, and of two joined ones neither.

`send` is that of a blocking socket, which takes all bytes or fails; a negative
length fails.
-/
import CppWorkspace.LibeventServer.Responses

namespace CppWorkspace.LibeventServer

/-! ## Heads as bytes -/

/-- The `w` little-endian bytes of `n`. -/
def leBytes : Nat → Nat → List UInt8
  | 0, _ => []
  | w + 1, n => UInt8.ofNat n :: leBytes w (n / 256)

/-- The conversion to `short`. -/
def toShort (n : Int) : Int := signed 2 (n % 2 ^ 16).toNat

/-- `*(Head*)buf = h`. -/
def Head.toBytes (h : Head) : List UInt8 :=
  leBytes 4 (h.stx % 2 ^ 32).toNat ++ leBytes 2 (h.pkglen % 2 ^ 16).toNat
    ++ leBytes 2 (h.nFunID % 2 ^ 16).toNat

theorem leBytes_length (w n : Nat) : (leBytes w n).length = w := by
  induction w generalizing n with
  | zero => rfl
  | succ w ih => rw [leBytes, List.length_cons, ih]

theorem leNat_leBytes (w n : Nat) : leNat (leBytes w n) = n % 256 ^ w := by
  induction w generalizing n with
  | zero => rw [Nat.pow_zero, Nat.mod_one]; rfl
  | succ w ih =>
      have hmod : n % 256 ^ (w + 1) = n % 256 + 256 * (n / 256 % 256 ^ w) := by
        rw [Nat.pow_succ', Nat.mod_mul]
      rw [leBytes, leNat, ih, UInt8.toNat_ofNat', hmod]

theorem signed_emod {w : Nat} {n : Int} (hw : 0 < w) (h : -2 ^ (8 * w - 1) ≤ n)
    (h' : n < 2 ^ (8 * w - 1)) : signed w (n % 2 ^ (8 * w)).toNat = n := by
  have hpow : (2 : Int) ^ (8 * w) = 2 * 2 ^ (8 * w - 1) := by
    rw [← pow_succ']
    congr 1
    omega
  have hpos : (0 : Int) < 2 ^ (8 * w - 1) := Int.pow_pos (by decide)
  have hcast : (((n % 2 ^ (8 * w)).toNat : Nat) : Int) = n % 2 ^ (8 * w) :=
    Int.toNat_of_nonneg (Int.emod_nonneg n (by omega))
  have hlt : (n % 2 ^ (8 * w)).toNat < 2 ^ (8 * w - 1) ↔ n % 2 ^ (8 * w) < 2 ^ (8 * w - 1) := by
    rw [← hcast]
    exact_mod_cast Iff.rfl
  unfold signed
  rw [hcast]
  by_cases hn : 0 ≤ n
  · have hmod : n % 2 ^ (8 * w) = n := Int.emod_eq_of_lt hn (by omega)
    rw [if_pos (hlt.mpr (by omega)), hmod]
  · have hmod : n % 2 ^ (8 * w) = n + 2 ^ (8 * w) := by
      rw [← Int.add_emod_right, Int.emod_eq_of_lt (by omega) (by omega)]
    rw [if_neg (fun hsmall => by have := hlt.mp hsmall; omega), hmod]
    omega

theorem Head.ofBytes_toBytes {h : Head} (hstx : -2 ^ 31 ≤ h.stx ∧ h.stx < 2 ^ 31)
    (hpkglen : -2 ^ 15 ≤ h.pkglen ∧ h.pkglen < 2 ^ 15)
    (hid : -2 ^ 15 ≤ h.nFunID ∧ h.nFunID < 2 ^ 15) (t : List UInt8) :
    Head.ofBytes (h.toBytes ++ t) = h := by
  have hread : ∀ (w : Nat) (n : Int), leNat (leBytes w (n % 2 ^ (8 * w)).toNat)
      = (n % 2 ^ (8 * w)).toNat := by
    intro w n
    have hpos : (0 : Int) < 2 ^ (8 * w) := Int.pow_pos (by decide)
    rw [leNat_leBytes]
    refine Nat.mod_eq_of_lt ?_
    have hlt := Int.emod_lt_of_pos n hpos
    have hpow : (256 : Nat) ^ w = 2 ^ (8 * w) := by rw [Nat.pow_mul]
    have hcast : ((2 ^ (8 * w) : Nat) : Int) = 2 ^ (8 * w) := by norm_cast
    omega
  obtain ⟨a, ha⟩ : ∃ a, a = leBytes 4 (h.stx % 2 ^ 32).toNat := ⟨_, rfl⟩
  obtain ⟨b, hb⟩ : ∃ b, b = leBytes 2 (h.pkglen % 2 ^ 16).toNat := ⟨_, rfl⟩
  obtain ⟨c, hc⟩ : ∃ c, c = leBytes 2 (h.nFunID % 2 ^ 16).toNat := ⟨_, rfl⟩
  have hla : a.length = 4 := ha ▸ leBytes_length _ _
  have hlb : b.length = 2 := hb ▸ leBytes_length _ _
  have hlc : c.length = 2 := hc ▸ leBytes_length _ _
  have hbytes : h.toBytes ++ t = a ++ (b ++ (c ++ t)) := by
    rw [Head.toBytes, ← ha, ← hb, ← hc, List.append_assoc, List.append_assoc]
  have htail : (a ++ (b ++ (c ++ t))).drop 6 = c ++ t := by
    rw [← List.append_assoc]
    exact List.drop_left' (by rw [List.length_append, hla, hlb])
  rw [hbytes, Head.ofBytes, List.take_left' hla, List.drop_left' hla, List.take_left' hlb, htail,
    List.take_left' hlc, ha, hb, hc]
  have h₁ := signed_emod (w := 4) (by decide) hstx.1 hstx.2
  have h₂ := signed_emod (w := 2) (by decide) hpkglen.1 hpkglen.2
  have h₃ := signed_emod (w := 2) (by decide) hid.1 hid.2
  rw [hread 4 h.stx, hread 2 h.pkglen, hread 2 h.nFunID, h₁, h₂, h₃]

theorem Head.toBytes_length (h : Head) : h.toBytes.length = sizeofHead := by
  simp only [Head.toBytes, List.length_append, leBytes_length]
  rfl

theorem toShort_range (n : Int) : -2 ^ 15 ≤ toShort n ∧ toShort n < 2 ^ 15 := by
  have hlt : (n % 2 ^ 16).toNat < 2 ^ (8 * 2) := by
    have h := Int.emod_lt_of_pos n (by decide : (0 : Int) < 2 ^ 16)
    omega
  exact signed_lt 2 _ (by decide) hlt

theorem toShort_of_range {n : Int} (h : -2 ^ 15 ≤ n ∧ n < 2 ^ 15) : toShort n = n :=
  signed_emod (w := 2) (by decide) h.1 h.2

/-! ## The client -/

/-- `send` of a blocking socket: the bytes that leave, and what it returns. -/
def send (buf : List UInt8) (len : Int) : List UInt8 × Int :=
  if len < 0 then ([], -1) else (buf.take len.toNat, len)

/-- The head that `send_cmd` writes. -/
def cmdHead (cmd : Int) (data_len : Nat) : Head where
  stx := emStx
  pkglen := toShort (sizeofHead + data_len)
  nFunID := toShort cmd

/-- `send_cmd`: the bytes that leave, and what it returns. -/
def send_cmd (cmd : Int) (data : List UInt8) (data_len : Nat) : List UInt8 × Bool :=
  let h := cmdHead cmd data_len
  let rs := send (h.toBytes ++ data.drop sizeofHead) h.pkglen
  (rs.1, rs.2 == h.pkglen)

/-- `recv_cmd` with the bytes `stream` on the way, of which `recv` returns `rs`; they
are written at the start of `data`. -/
def recv_cmd (data stream : List UInt8) (rs : Int) : Nat :=
  if 0 < rs then
    let h := Head.ofBytes (stream.take rs.toNat ++ data.drop rs.toNat)
    if h.pkglen = rs then 1 else 0
  else 0

/-- `recv(c, data, data_len, 0)` returns what there is, and not more than `data_len`. -/
def Receives (stream : List UInt8) (data_len : Nat) (rs : Int) : Prop :=
  rs ≤ stream.length ∧ rs ≤ data_len

/-! ## Frames that the server dispatches -/

/-- The dispatched commands; the events of the server itself are no frames. -/
def Session.commands (s : Session) : List (Int × List UInt8) :=
  s.dispatched.filter fun d => emFunBase < d.1

/-- `8 + data_len` is too long, and a legal length modulo 2¹⁶. -/
def Wraps (data_len : Nat) : Prop :=
  emMaxBuffLen - sizeofHead < sizeofHead + data_len
    ∧ sizeofHead ≤ (sizeofHead + data_len) % 2 ^ 16
    ∧ (sizeofHead + data_len) % 2 ^ 16 ≤ emMaxBuffLen - sizeofHead

instance (data_len : Nat) : Decidable (Wraps data_len) := inferInstanceAs (Decidable (_ ∧ _))

/-- The loop dispatches one frame of the command, of `8 + data_len` bytes, and keeps
nothing. -/
def DispatchesOne (r : CLibEventFunction) (cmd : Int) (data : List UInt8) (data_len : Nat) :
    Prop :=
  ∀ s : Session, s.closed = false → s.conn.unread = (send_cmd cmd data data_len).1 →
    ∃ fuel t, parseLoop r fuel s = some t
      ∧ t.commands = s.commands ++ [(cmd, s.conn.in_buf)]
      ∧ (Head.ofBytes s.conn.in_buf).pkglen = sizeofHead + data_len
      ∧ s.conn.in_buf.take (sizeofHead + data_len) = (send_cmd cmd data data_len).1
      ∧ t.conn.in_buf_len = 0

/-- The loop dispatches no frame, however many of the bytes have come. -/
def DispatchesNone (r : CLibEventFunction) (cmd : Int) (data : List UInt8) (data_len : Nat) :
    Prop :=
  ∀ s : Session, s.closed = false → s.conn.unread <+: (send_cmd cmd data data_len).1 →
    ∀ fuel t, parseLoop r fuel s = some t → t.commands = s.commands

/-- The two sides agree on the length of a command. -/
def LengthAgrees (r : CLibEventFunction) (cmd : Int) (data : List UInt8) (data_len : Nat) :
    Prop :=
  if sizeofHead + data_len ≤ emMaxBuffLen - sizeofHead then DispatchesOne r cmd data data_len
  else DispatchesNone r cmd data data_len

/-- The response is taken, and `rest` is still to come. -/
def TakesResponse (data rsp rest : List UInt8) (rs : Int) : Prop :=
  recv_cmd data (rsp ++ rest) rs = 1 ∧ (rsp ++ rest).drop rs.toNat = rest

section
variable {r : CLibEventFunction} {s t : Session} {cmd : Int} {data f : List UInt8}
  {data_len : Nat}

@[simp] theorem Session.commands_close : (s.close r).commands = s.commands := by
  show ((_ : Session).dispatch r emFunClosed).1.dispatched.filter _ = _
  unfold Session.dispatch
  split
  · rfl
  · show (s.dispatched ++ [_]).filter _ = _
    rw [List.filter_append, List.filter_singleton]
    exact List.append_nil _

@[simp] theorem Session.in_buf_len_close : (s.close r).conn.in_buf_len = 0 := by
  show ((_ : Session).dispatch r emFunClosed).1.conn.in_buf_len = 0
  rw [Session.dispatch_in_buf_len]
  rfl

@[simp] theorem Session.commands_answer (code : Int) : (s.answer code).commands = s.commands := by
  unfold Session.answer
  split <;> rfl

theorem Session.commands_dispatch {id : Int} (hid : emFunBase < id)
    (hreg : (r.m_FunPtrList id).isSome) :
    (s.dispatch r id).1.commands = s.commands ++ [(id, s.conn.in_buf)] := by
  obtain ⟨h, hh⟩ := Option.isSome_iff_exists.mp hreg
  unfold Session.dispatch
  rw [hh]
  show (s.dispatched ++ [_]).filter _ = _
  rw [List.filter_append, List.filter_singleton, decide_eq_true hid]
  rfl

/-! ## One frame, and a head that is refused -/

/-- A frame that fills what is held is dispatched, and nothing is left. -/
theorem parseStep_frame (hlegal : badHead r (Head.ofBytes f) = false)
    (hlen : (Head.ofBytes f).pkglen = f.length) (hid : emFunBase < (Head.ofBytes f).nFunID)
    (hreg : (r.m_FunPtrList (Head.ofBytes f).nFunID).isSome) (hs : s.conn.unread = f) :
    (parseStep r s).2 = false
      ∧ (parseStep r s).1.commands = s.commands ++ [((Head.ofBytes f).nFunID, s.conn.in_buf)]
      ∧ (parseStep r s).1.conn.in_buf_len = 0 := by
  have hheld : s.conn.in_buf_len = f.length := hs ▸ s.conn.unread_length.symm
  have hpkg := pkglen_of_not_bad hlegal
  have hsize : sizeofHead ≤ f.length := by
    simp only [sizeofHead]
    omega
  have hhead : Head.ofBytes s.conn.in_buf = Head.ofBytes f :=
    Head.ofBytes_prefix hsize (hs ▸ List.take_prefix _ _)
  have hge : ¬ s.conn.in_buf_len < sizeofHead := by omega
  have hwhole : ¬ (s.conn.in_buf_len : Int) < (Head.ofBytes f).pkglen := by omega
  have hcommands := Session.commands_dispatch (s := s) hid hreg
  have hleft : s.conn.in_buf_len - (Head.ofBytes f).pkglen.toNat = 0 := by omega
  unfold parseStep
  simp only [hhead, if_neg hge, hlegal, if_neg hwhole, if_pos (And.intro hid hreg)]
  by_cases hcode : (s.dispatch r (Head.ofBytes f).nFunID).2 = emFunReturClose
  · rw [if_neg Bool.false_ne_true, if_pos hcode]
    exact ⟨rfl, by rw [Session.commands_close, hcommands], Session.in_buf_len_close⟩
  · rw [if_neg Bool.false_ne_true, if_neg hcode]
    have hlast : (((s.dispatch r (Head.ofBytes f).nFunID).1.answer
        (s.dispatch r (Head.ofBytes f).nFunID).2).next (Head.ofBytes f)).conn.in_buf_len = 0 := by
      rw [Session.next_in_buf_len, Session.answer_conn, Session.dispatch_in_buf_len, hleft]
    exact ⟨bne_eq_false_iff_eq.mpr hlast, (Session.commands_answer _).trans hcommands, hlast⟩

theorem parseStep_refused (h : s.conn.in_buf_len < sizeofHead
      ∨ badHead r (Head.ofBytes s.conn.in_buf) = true) :
    (parseStep r s).2 = false ∧ (parseStep r s).1.commands = s.commands := by
  by_cases hlen : s.conn.in_buf_len < sizeofHead
  · rw [parseStep, if_pos hlen]
    exact ⟨rfl, rfl⟩
  · have hbad := h.resolve_left hlen
    rw [parseStep, if_neg hlen, if_pos hbad]
    exact ⟨rfl, Session.commands_close⟩

theorem parseLoop_of_step (h : (parseStep r s).2 = false) (fuel : Nat) :
    parseLoop r (fuel + 1) s = some (parseStep r s).1 := by
  rw [parseLoop, h]
  rfl

/-! ## What `send_cmd` sends -/

theorem cmdHead_read (cmd : Int) (data_len : Nat) (t : List UInt8) :
    Head.ofBytes ((cmdHead cmd data_len).toBytes ++ t) = cmdHead cmd data_len :=
  Head.ofBytes_toBytes (h := cmdHead cmd data_len)
    ⟨by simp [cmdHead, emStx], by simp [cmdHead, emStx]⟩ (toShort_range _) (toShort_range _) t

theorem send_cmd_length (hroom : sizeofHead + data_len ≤ data.length) :
    (send_cmd cmd data data_len).1.length = (cmdHead cmd data_len).pkglen.toNat := by
  obtain ⟨n, hn⟩ : ∃ n, n = (cmdHead cmd data_len).pkglen := ⟨_, rfl⟩
  have hrange : n < 2 ^ 15 := hn ▸ (toShort_range _).2
  have hle : n.toNat ≤ sizeofHead + data_len := by
    by_cases hsmall : sizeofHead + data_len < 2 ^ 15
    · have hsame : n = ((sizeofHead + data_len : Nat) : Int) := by
        rw [hn, Int.natCast_add]
        exact toShort_of_range (by omega)
      omega
    · omega
  rw [send_cmd, ← hn, send]
  by_cases hneg : n < 0
  · rw [if_pos hneg, Int.toNat_of_nonpos (by omega)]
    rfl
  · rw [if_neg hneg, List.length_take, List.length_append, Head.toBytes_length, List.length_drop]
    simp only [sizeofHead] at hroom hle ⊢
    omega

theorem send_cmd_head (h : sizeofHead ≤ (cmdHead cmd data_len).pkglen) :
    Head.ofBytes (send_cmd cmd data data_len).1 = cmdHead cmd data_len := by
  have hpos : ¬ (cmdHead cmd data_len).pkglen < 0 := by
    simp only [sizeofHead] at h
    omega
  have hle : (cmdHead cmd data_len).toBytes.length ≤ (cmdHead cmd data_len).pkglen.toNat := by
    rw [Head.toBytes_length]
    omega
  rw [send_cmd, send, if_neg hpos, List.take_append, List.take_of_length_le hle]
  exact cmdHead_read cmd data_len _

/-- The stored length is legal if it is that of the frame, or wraps. -/
theorem cmdHead_legal (hstx : r.m_stx = emStx) :
    badHead r (cmdHead cmd data_len) = false
      ↔ sizeofHead ≤ (sizeofHead + data_len) % 2 ^ 16
        ∧ (sizeofHead + data_len) % 2 ^ 16 ≤ emMaxBuffLen - sizeofHead := by
  obtain ⟨m, hm⟩ : ∃ m, m = (sizeofHead + data_len) % 2 ^ 16 := ⟨_, rfl⟩
  have hlen : (cmdHead cmd data_len).pkglen = signed 2 m := by
    rw [hm]
    show signed 2 _ = _
    congr 1
  have hlt : m < 2 ^ 16 := hm ▸ Nat.mod_lt _ (by decide)
  have hsame : (cmdHead cmd data_len).stx = r.m_stx := hstx.symm
  rw [← hm]
  simp only [badHead, Bool.or_eq_false_iff, decide_eq_false_iff_not, hsame, bne_self_eq_false,
    and_true, hlen, toUnsigned, sizeofHead, emMaxBuffLen]
  unfold signed
  by_cases hsmall : m < 2 ^ (8 * 2 - 1)
  · rw [if_pos hsmall]
    omega
  · rw [if_neg hsmall]
    omega

theorem cmdHead_of_not_bad (h : badHead r (cmdHead cmd data_len) = false) :
    8 ≤ (cmdHead cmd data_len).pkglen ∧ (cmdHead cmd data_len).pkglen ≤ 4088 := by
  rw [← cmdHead_read cmd data_len []] at h ⊢
  exact pkglen_of_not_bad h

theorem cmdHead_pkglen (h : badHead r (cmdHead cmd data_len) = false)
    (hroom : sizeofHead + data_len ≤ data.length) :
    (cmdHead cmd data_len).pkglen = (send_cmd cmd data data_len).1.length := by
  have hpos := cmdHead_of_not_bad h
  rw [send_cmd_length hroom]
  omega

/-! ## The two sides -/

theorem dispatches_sent (hcmd : emFunBase < cmd) (hshort : cmd < 2 ^ 15)
    (hreg : (r.m_FunPtrList cmd).isSome) (hroom : sizeofHead + data_len ≤ data.length)
    (hlegal : badHead r (cmdHead cmd data_len) = false)
    (hs : s.conn.unread = (send_cmd cmd data data_len).1) :
    ∃ t, parseLoop r 1 s = some t ∧ t.commands = s.commands ++ [(cmd, s.conn.in_buf)]
      ∧ t.conn.in_buf_len = 0 := by
  have hlen := cmdHead_pkglen hlegal hroom
  have hsize := cmdHead_of_not_bad hlegal
  have hhead : Head.ofBytes (send_cmd cmd data data_len).1 = _ := send_cmd_head hsize.1
  have hid : (cmdHead cmd data_len).nFunID = cmd := by
    simp only [emFunBase] at hcmd
    exact toShort_of_range (by omega)
  obtain ⟨hend, hcommands, hleft⟩ := parseStep_frame (r := r) (s := s)
    (f := (send_cmd cmd data data_len).1) (hhead ▸ hlegal) (hhead ▸ hlen)
    (by rw [hhead, hid]; exact hcmd) (by rw [hhead, hid]; exact hreg) hs
  rw [hhead, hid] at hcommands
  exact ⟨_, parseLoop_of_step hend 0, hcommands, hleft⟩

theorem dispatchesNone_of_bad (hroom : sizeofHead + data_len ≤ data.length)
    (hbad : badHead r (cmdHead cmd data_len) = true) :
    DispatchesNone r cmd data data_len := by
  intro s _ hpre fuel t ht
  have hstop : s.conn.in_buf_len < sizeofHead
      ∨ badHead r (Head.ofBytes s.conn.in_buf) = true := by
    refine or_iff_not_imp_left.mpr fun hlen => ?_
    have hheld : sizeofHead ≤ s.conn.unread.length := by
      rw [s.conn.unread_length]
      omega
    have hsent : sizeofHead ≤ (cmdHead cmd data_len).pkglen := by
      have hle := Nat.le_trans hheld hpre.length_le
      rw [send_cmd_length hroom] at hle
      simp only [sizeofHead] at hle ⊢
      omega
    rw [Head.ofBytes_prefix hheld (List.take_prefix _ _), ← Head.ofBytes_prefix hheld hpre,
      send_cmd_head hsent]
    exact hbad
  obtain ⟨hend, hcommands⟩ := parseStep_refused hstop
  cases fuel with
  | zero => cases ht
  | succ fuel =>
      rw [parseLoop_of_step hend] at ht
      exact Option.some.inj ht ▸ hcommands

/-- The first bytes that come on a connection are those that are held. -/
theorem fill_fresh_unread (h : f.length ≤ emMaxBuffLen) : (fresh.conn.fill f).unread = f := by
  have hempty : fresh.conn.in_buf_len = 0 := rfl
  have htake : f.take (emMaxBuffLen - 0) = f := List.take_of_length_le h
  simp only [Conn.unread, Conn.fill, hempty, htake, Nat.zero_add]
  exact List.take_left' rfl

theorem lengthAgrees_iff (hstx : r.m_stx = emStx) (hcmd : emFunBase < cmd) (hshort : cmd < 2 ^ 15)
    (hreg : (r.m_FunPtrList cmd).isSome) (hroom : sizeofHead + data_len ≤ data.length) :
    LengthAgrees r cmd data data_len ↔ ¬ Wraps data_len := by
  have hlegal : badHead r (cmdHead cmd data_len) = false ↔ _ := cmdHead_legal hstx
  unfold LengthAgrees
  by_cases hfits : sizeofHead + data_len ≤ emMaxBuffLen - sizeofHead
  · rw [if_pos hfits]
    have hok : badHead r (cmdHead cmd data_len) = false := hlegal.mpr (by
      simp only [sizeofHead, emMaxBuffLen] at hfits ⊢
      omega)
    have hlen := cmdHead_pkglen hok hroom
    have hpkg : (cmdHead cmd data_len).pkglen = sizeofHead + data_len := toShort_of_range (by
      simp only [sizeofHead, emMaxBuffLen] at hfits ⊢
      omega)
    refine iff_of_true (fun s _ hs => ?_) (fun hwraps => absurd hfits (Nat.not_le.mpr hwraps.1))
    obtain ⟨t, ht, hcommands, hleft⟩ := dispatches_sent hcmd hshort hreg hroom hok hs
    have hpre : (send_cmd cmd data data_len).1 <+: s.conn.in_buf := hs ▸ List.take_prefix _ _
    have hsize : sizeofHead ≤ (send_cmd cmd data data_len).1.length := by omega
    refine ⟨1, t, ht, hcommands, ?_, ?_, hleft⟩
    · rw [Head.ofBytes_prefix hsize hpre, send_cmd_head (by omega), hpkg]
    · have hheld : sizeofHead + data_len = s.conn.in_buf_len := by
        rw [← s.conn.unread_length, hs]
        omega
      rw [hheld]
      exact hs
  · rw [if_neg hfits]
    have hbad : badHead r (cmdHead cmd data_len) = false ↔ Wraps data_len :=
      hlegal.trans ⟨fun h => ⟨Nat.not_le.mp hfits, h⟩, fun h => h.2⟩
    constructor
    · intro hnone hwraps
      have hok := hbad.mpr hwraps
      -- a connection that holds exactly what was sent
      have hfit : (send_cmd cmd data data_len).1.length ≤ emMaxBuffLen := by
        have hlegal' := cmdHead_of_not_bad hok
        have hlen := cmdHead_pkglen hok hroom
        simp only [emMaxBuffLen]
        omega
      have hheld : (fresh.conn.fill (send_cmd cmd data data_len).1).unread
          = (send_cmd cmd data data_len).1 := fill_fresh_unread hfit
      obtain ⟨t, ht, hcommands, -⟩ := dispatches_sent hcmd hshort hreg hroom hok
        (s := { fresh with conn := fresh.conn.fill (send_cmd cmd data data_len).1 }) hheld
      have hsame := hnone _ rfl ⟨[], (List.append_nil _).trans hheld⟩ 1 t ht
      rw [hcommands] at hsame
      exact absurd hsame (by simp)
    · intro hwraps
      exact dispatchesNone_of_bad hroom (Bool.eq_true_of_not_eq_false (mt hbad.mp hwraps))

/-! ## A response -/

theorem login_response {in_buf : List UInt8} {o : Out} (hbuf : in_buf.length = emMaxBuffLen)
    (hsend : (CLibUserFunction.Login in_buf o).2 = emFunReturnSend) :
    (CLibUserFunction.Login in_buf o).1.out_buf.take sizeofLogin = loginResponse in_buf := by
  have hsize : sizeofHead ≤ in_buf.length := by
    rw [hbuf]
    decide
  unfold CLibUserFunction.Login at hsend ⊢
  split at hsend
  · cases hsend
  · rename_i hlen
    rw [if_neg hlen]
    exact List.take_left' (loginResponse_length hsize)

theorem takesResponse_iff {rsp rest : List UInt8} {rs : Int}
    (hpkglen : (Head.ofBytes rsp).pkglen = rsp.length) (hsize : sizeofHead ≤ rsp.length)
    (hrs : rs ≤ (rsp ++ rest).length) : TakesResponse data rsp rest rs ↔ rs = rsp.length := by
  constructor
  · rintro ⟨hone, hrest⟩
    have hpos : 0 < rs := by
      by_contra hneg
      rw [recv_cmd, if_neg hneg] at hone
      cases hone
    have hlen := congrArg List.length hrest
    rw [List.length_drop, List.length_append] at hlen
    rw [List.length_append] at hrs
    omega
  · rintro rfl
    have htake : (rsp ++ rest).take (rsp.length : Int).toNat = rsp := List.take_left' rfl
    have hhead : Head.ofBytes (rsp ++ data.drop (rsp.length : Int).toNat) = Head.ofBytes rsp :=
      Head.ofBytes_prefix hsize (List.prefix_append _ _)
    have hpos : (0 : Int) < rsp.length := by
      simp only [sizeofHead] at hsize
      omega
    refine ⟨?_, List.drop_left' rfl⟩
    rw [recv_cmd, if_pos hpos, htake, hhead]
    exact if_pos hpkglen

end

/-! ## The result -/

/-- For each command, the server's loop agrees with `send_cmd` on the length of the
frame unless the length wraps; `recv_cmd` takes a response of `Login` if and only if
its `recv` returns exactly the response. -/
theorem frame_lengths (r : CLibEventFunction) (hstx : r.m_stx = emStx) (cmd : Int)
    (hcmd : emFunBase < cmd) (hshort : cmd < 2 ^ 15) (hreg : (r.m_FunPtrList cmd).isSome)
    (data : List UInt8) (data_len : Nat) (hroom : sizeofHead + data_len ≤ data.length)
    (in_buf : List UInt8) (o : Out) (hbuf : in_buf.length = emMaxBuffLen)
    (hsend : (CLibUserFunction.Login in_buf o).2 = emFunReturnSend)
    (buf rest : List UInt8) (buf_len : Nat) (rs : Int)
    (hrecv : Receives ((CLibUserFunction.Login in_buf o).1.out_buf.take sizeofLogin ++ rest)
      buf_len rs) :
    (LengthAgrees r cmd data data_len ↔ ¬ Wraps data_len)
      ∧ (TakesResponse buf ((CLibUserFunction.Login in_buf o).1.out_buf.take sizeofLogin) rest rs
        ↔ rs = sizeofLogin) := by
  have hsize : sizeofHead ≤ in_buf.length := by
    rw [hbuf]
    decide
  have hlen := loginResponse_length hsize
  have hhead : (Head.ofBytes (loginResponse in_buf)).pkglen = (loginResponse in_buf).length := by
    rw [loginResponse_head hsize, hlen]
  refine ⟨lengthAgrees_iff hstx hcmd hshort hreg hroom, ?_⟩
  have hrs := hrecv.1
  rw [login_response hbuf hsend] at hrs ⊢
  rw [takesResponse_iff hhead (by rw [hlen]; decide) hrs, hlen]

/-- `send_cmd(sock_id, emFunLogin, buf, sizeof(Proto_Login_Req))` and its response. -/
theorem frame_lengths_login :
    (LengthAgrees registered emFunLogin (List.replicate emMaxBuffLen 0) 2 ↔ ¬ Wraps 2)
      ∧ (TakesResponse (List.replicate emMaxBuffLen 0)
          ((CLibUserFunction.Login (login ++ List.replicate 4086 0) fresh.conn.out).1.out_buf.take
            sizeofLogin) [] 10
        ↔ (10 : Int) = sizeofLogin) :=
  frame_lengths registered rfl emFunLogin (by decide) (by decide) rfl
    (List.replicate emMaxBuffLen 0) 2 (by rw [List.length_replicate]; decide)
    (login ++ List.replicate 4086 0) fresh.conn.out
    (by rw [List.length_append, List.length_replicate]; rfl) rfl
    (List.replicate emMaxBuffLen 0) [] emMaxBuffLen 10 ⟨by rfl, by decide⟩

/-- 65538 bytes of data are announced as two, and the server dispatches a login; a
`recv` of nine bytes loses the response. -/
theorem not_frame_lengths :
    ¬ LengthAgrees registered emFunLogin (List.replicate 65546 0) 65538
      ∧ ¬ TakesResponse (List.replicate emMaxBuffLen 0) (loginResponse login) [] 9 := by
  have hroom : sizeofHead + 65538 ≤ (List.replicate 65546 (0 : UInt8)).length := by
    rw [List.length_replicate]
    decide
  have hagrees : LengthAgrees registered emFunLogin _ _ ↔ _ :=
    lengthAgrees_iff rfl (by decide) (by decide) rfl hroom
  refine ⟨fun h => hagrees.mp h (by decide), fun h => ?_⟩
  have htakes := (takesResponse_iff (by decide) (by decide) (by decide)).mp h
  exact absurd htakes (by decide)

end CppWorkspace.LibeventServer
