/-
# `CppWorkspace.LibeventServer.Stream` — packets in a stream of chunks

A client sends legal packets one after another, and the stream arrives in
chunks, one for each call of `DoRead`.  The handlers are called once for each
packet, in order, with the packet at the start of `in_buf` (`frames_in_order`),
PROVIDED that every chunk is `Joined` with what the call before has left.

`evbuffer_remove` writes at the start of `in_buf`, not behind the `in_buf_len`
bytes that wait there.  A chunk is therefore joined if nothing waits, in
particular if no packet is cut in two (`joinedRun_of_whole`); else only if the
bytes that are written happen to be those that are overwritten.  A `Login` that
is cut in its middle is taken for an illegal packet (`torn_login`).

The induction over the chunks keeps one fact: `unread` is the beginning of the
first packet that is left (`Framing.Short`).
-/
import Mathlib.Data.List.Forall2
import CppWorkspace.Lib.Framing
import CppWorkspace.LibeventServer.DoRead

namespace CppWorkspace.LibeventServer

open Framing

/-- A packet that the server is to handle: it is legal, its id is that of a
command of the protocol, and its handler does not ask to close. -/
structure ValidFrame (r : CLibEventFunction) (f : List UInt8) : Prop where
  stx : (Head.ofBytes f).stx = r.m_stx
  pkglen : (Head.ofBytes f).pkglen = f.length
  head : sizeofHead ≤ f.length
  bound : f.length ≤ emMaxBuffLen - sizeofHead
  command : emFunBase < (Head.ofBytes f).nFunID
  handler : ∃ h, r.m_FunPtrList (Head.ofBytes f).nFunID = some h
    ∧ ∀ in_buf o, in_buf.length = emMaxBuffLen → f <+: in_buf → (h in_buf o).2 ≠ emFunReturClose

/-- The handler of `f` was called with `f` at the start of `in_buf`. -/
def Served (d : Int × List UInt8) (f : List UInt8) : Prop :=
  d.1 = (Head.ofBytes f).nFunID ∧ f <+: d.2

/-- From `s` to `t`, the handlers of `frames` were called in order, and no other. -/
def Handled (s t : Session) (frames : List (List UInt8)) : Prop :=
  ∃ new, t.dispatched = s.dispatched ++ new ∧ List.Forall₂ Served new frames

section
variable {r : CLibEventFunction} {s t u : Session} {f : List UInt8} {fs gs : List (List UInt8)}

theorem Handled.refl (s : Session) : Handled s s [] :=
  ⟨[], (List.append_nil _).symm, .nil⟩

theorem Handled.trans (h₁ : Handled s t fs) (h₂ : Handled t u gs) : Handled s u (fs ++ gs) := by
  obtain ⟨n₁, h₁, hf⟩ := h₁
  obtain ⟨n₂, h₂, hg⟩ := h₂
  refine ⟨n₁ ++ n₂, ?_, List.rel_append hf hg⟩
  rw [h₂, h₁, List.append_assoc]

/-! ## One packet -/

theorem ValidFrame.legal (hv : ValidFrame r f) : badHead r (Head.ofBytes f) = false := by
  have hhead := hv.head
  have hbound := hv.bound
  simp only [sizeofHead, emMaxBuffLen] at hhead hbound
  have hlen : toUnsigned (Head.ofBytes f).pkglen = f.length := by
    rw [hv.pkglen, toUnsigned_of_nonneg (by omega) (by omega), Int.toNat_natCast]
  simp only [badHead, Bool.or_eq_false_iff, decide_eq_false_iff_not, hlen]
  refine ⟨⟨?_, ?_⟩, by simp [hv.stx]⟩
  · simp only [emMaxBuffLen, sizeofHead]
    omega
  · simp only [sizeofHead]
    omega

theorem parseStep_whole (hv : ValidFrame r f) (hf : f <+: s.conn.unread) :
    ∃ t, parseStep r s = (t, t.conn.in_buf_len != 0)
      ∧ t.conn.unread = s.conn.unread.drop f.length ∧ t.closed = s.closed ∧ Handled s t [f] := by
  have hbuf : f <+: s.conn.in_buf := hf.trans (List.take_prefix _ _)
  have hhead : Head.ofBytes s.conn.in_buf = Head.ofBytes f := Head.ofBytes_prefix hv.head hbuf
  obtain ⟨h, hreg, hopen⟩ := hv.handler
  have hlen : f.length ≤ s.conn.in_buf_len := s.conn.unread_length ▸ hf.length_le
  have hcode := hopen s.conn.in_buf s.conn.out s.conn.in_buf_size hbuf
  obtain ⟨d, hd⟩ : ∃ d : Session, d = { s with
      conn := s.conn.setOut (h s.conn.in_buf s.conn.out).1
      dispatched := s.dispatched ++ [((Head.ofBytes f).nFunID, s.conn.in_buf)] } := ⟨_, rfl⟩
  have hdisp : s.dispatch r (Head.ofBytes f).nFunID = (d, (h s.conn.in_buf s.conn.out).2) := by
    rw [Session.dispatch, hreg, hd]
  have hge : ¬ s.conn.in_buf_len < sizeofHead := Nat.not_lt.mpr (Nat.le_trans hv.head hlen)
  have hcomplete : ¬ (s.conn.in_buf_len : Int) < (Head.ofBytes f).pkglen := by
    rw [hv.pkglen]
    omega
  have hanswer : ∀ (s' : Session) (code : Int), (s'.answer code).closed = s'.closed
      ∧ (s'.answer code).dispatched = s'.dispatched := by
    intro s' code
    unfold Session.answer
    split <;> exact ⟨rfl, rfl⟩
  refine ⟨(d.answer (h s.conn.in_buf s.conn.out).2).next (Head.ofBytes f), ?_, ?_, ?_, ?_⟩
  · simp only [parseStep, hhead, if_neg hge, hv.legal, if_neg hcomplete, hv.command, hreg]
    simp only [hdisp, if_neg hcode]
    rfl
  · show ((d.answer _).conn.advance _).unread = _
    rw [Conn.advance_unread, Session.answer_conn, hv.pkglen, Int.toNat_natCast, hd]
    rfl
  · exact (hanswer d _).1.trans (hd ▸ rfl)
  · refine ⟨[((Head.ofBytes f).nFunID, s.conn.in_buf)], ?_, .cons ⟨rfl, hbuf⟩ .nil⟩
    exact (hanswer d _).2.trans (hd ▸ rfl)

theorem parseStep_part (hv : ∀ f ∈ fs, ValidFrame r f) (hp : s.conn.unread <+: fs.flatten)
    (hs : Short fs s.conn.unread) : parseStep r s = (s, false) := by
  have hlen := s.conn.unread_length
  by_cases hhead : s.conn.in_buf_len < sizeofHead
  · exact if_pos hhead
  cases fs with
  | nil =>
      rw [List.prefix_nil.mp hp, List.length_nil] at hlen
      exact absurd (hlen ▸ Nat.zero_lt_succ 7) hhead
  | cons f fs =>
      have hvf := hv f List.mem_cons_self
      have hlt : s.conn.unread.length < f.length := hs f rfl
      have hpre : s.conn.unread <+: f :=
        List.prefix_of_prefix_length_le hp (List.prefix_append _ _) (Nat.le_of_lt hlt)
      have hge : sizeofHead ≤ s.conn.unread.length := by omega
      have heq : Head.ofBytes s.conn.in_buf = Head.ofBytes f :=
        (Head.ofBytes_prefix hge (List.take_prefix _ _)).trans (Head.ofBytes_prefix hge hpre).symm
      have hwait : (s.conn.in_buf_len : Int) < (Head.ofBytes f).pkglen := by
        rw [hvf.pkglen]
        omega
      simp only [parseStep, if_neg hhead, heq, hvf.legal, if_pos hwait]
      rfl

/-! ## The packets of one call -/

/-- The second loop handles the packets that are complete, and keeps what follows. -/
theorem parseLoop_frames {done rest : List (List UInt8)} {left : List UInt8}
    (hdone : ∀ f ∈ done, ValidFrame r f) (hrest : ∀ f ∈ rest, ValidFrame r f)
    (hp : left <+: rest.flatten) (hs : Short rest left)
    (hunread : s.conn.unread = done.flatten ++ left) :
    ∃ fuel t, parseLoop r fuel s = some t ∧ t.conn.unread = left ∧ t.closed = s.closed
      ∧ Handled s t done := by
  induction done generalizing s with
  | nil =>
      obtain rfl : s.conn.unread = left := hunread
      have hstop := parseStep_part hrest hp hs
      refine ⟨1, s, ?_, rfl, rfl, .refl s⟩
      rw [parseLoop, hstop]
      rfl
  | cons f done ih =>
      rw [List.flatten_cons, List.append_assoc] at hunread
      have hf : f <+: s.conn.unread := hunread ▸ List.prefix_append _ _
      obtain ⟨t₁, hstep, hunread₁, hclosed₁, hhandled₁⟩ :=
        parseStep_whole (hdone f List.mem_cons_self) hf
      rw [hunread, List.drop_left] at hunread₁
      by_cases hempty : t₁.conn.in_buf_len = 0
      · have hnil : done.flatten ++ left = [] := by
          rw [← hunread₁]
          exact List.length_eq_zero_iff.mp (t₁.conn.unread_length.trans hempty)
        obtain ⟨hdone', rfl⟩ := List.append_eq_nil_iff.mp hnil
        have hnone : done = [] := by
          cases done with
          | nil => rfl
          | cons g done =>
              have hg := (hdone g (by simp)).head
              rw [(List.append_eq_nil_iff.mp hdone').1] at hg
              cases hg
        subst hnone
        refine ⟨1, t₁, ?_, hunread₁, hclosed₁, hhandled₁⟩
        simp only [parseLoop, hstep, hempty]
        rfl
      · obtain ⟨fuel, t, hloop, hunread', hclosed, hhandled⟩ :=
          ih (fun g hg => hdone g (List.mem_cons_of_mem f hg)) hunread₁
        refine ⟨fuel + 1, t, ?_, hunread', hclosed.trans hclosed₁, hhandled₁.trans hhandled⟩
        have hgo : (t₁.conn.in_buf_len != 0) = true := by simpa using hempty
        simp only [parseLoop, hstep, hgo, if_true]
        exact hloop

end

/-! ## Chunks -/

/-- Nothing arrives, or what arrives fits, and writing it at the start of
`in_buf` gives what writing it behind the waiting bytes would have given. -/
def Joined (c : Conn) (input : List UInt8) : Prop :=
  input = [] ∨ c.in_buf_len + input.length ≤ emMaxBuffLen
    ∧ (input ++ c.in_buf.drop input.length).take (c.in_buf_len + input.length)
        = c.unread ++ input

/-- Each chunk of a run is joined with what the call before has left. -/
def JoinedRun (r : CLibEventFunction) : Session → List (List UInt8) → Prop
  | _, [] => True
  | s, x :: xs => Joined s.conn x ∧ ∀ fuel t, doRead r fuel s x = some t → JoinedRun r t xs

section
variable {r : CLibEventFunction} {s t : Session} {fs : List (List UInt8)}

theorem joined_of_empty {c : Conn} {input : List UInt8} (h₀ : c.in_buf_len = 0)
    (hlen : input.length ≤ emMaxBuffLen) : Joined c input := by
  refine .inr ⟨by omega, ?_⟩
  rw [h₀, Nat.zero_add, List.take_left, Conn.unread, h₀]
  rfl

theorem Joined.fill_unread {c : Conn} {input : List UInt8} (h₀ : input ≠ [])
    (h : Joined c input) :
    c.in_buf_len + input.length ≤ emMaxBuffLen ∧ (c.fill input).unread = c.unread ++ input := by
  obtain ⟨hfit, heq⟩ := h.resolve_left h₀
  refine ⟨hfit, ?_⟩
  have htake : input.take (emMaxBuffLen - c.in_buf_len) = input :=
    List.take_of_length_le (by omega)
  simp only [Conn.unread, Conn.fill, htake] at heq ⊢
  exact heq

/-- **Framing.**  From a state in which `unread` is the beginning of the first
packet that is left, a run over the rest of the stream handles these packets. -/
theorem doReads_frames (chunks : List (List UInt8)) (hv : ∀ f ∈ fs, ValidFrame r f)
    (hopen : s.closed = false) (hs : Short fs s.conn.unread)
    (hflat : s.conn.unread ++ chunks.flatten = fs.flatten) (hj : JoinedRun r s chunks) :
    ∃ fuel t, doReads r fuel s chunks = some t ∧ t.closed = false ∧ t.conn.in_buf_len = 0
      ∧ Handled s t fs := by
  induction chunks generalizing s fs with
  | nil =>
      rw [List.flatten_nil, List.append_nil] at hflat
      obtain rfl := eq_nil_of_short hs hflat
      refine ⟨0, s, rfl, hopen, ?_, .refl s⟩
      rw [← s.conn.unread_length, hflat]
      rfl
  | cons x xs ih =>
      obtain ⟨hx, hxs⟩ := hj
      by_cases h₀ : x = []
      · -- an empty chunk is no callback
        subst h₀
        have hskip : doRead r 0 s [] = some s := if_pos (.inr rfl)
        obtain ⟨fuel, t, hruns, hclosed, hempty, hhandled⟩ := ih hv hopen hs hflat (hxs 0 s hskip)
        refine ⟨fuel, t, ?_, hclosed, hempty, hhandled⟩
        rw [doReads, doRead_mono (Nat.zero_le fuel) hskip]
        exact hruns
      · obtain ⟨hfit, hfill⟩ := hx.fill_unread h₀
        rw [List.flatten_cons, ← List.append_assoc] at hflat
        obtain ⟨done, rest, left, rfl, hsplit, hleft⟩ :=
          split_prefix (hflat ▸ List.prefix_append (s.conn.unread ++ x) xs.flatten)
        rw [hsplit, List.append_assoc, List.flatten_append] at hflat
        have hrest := List.append_cancel_left hflat
        obtain ⟨fuel₁, t₁, hloop, hunread, hclosed, hhandled⟩ :=
          parseLoop_frames (s := { s with conn := s.conn.fill x })
            (fun f hf => hv f (List.mem_append_left _ hf))
            (fun f hf => hv f (List.mem_append_right _ hf))
            (hrest ▸ List.prefix_append left xs.flatten) hleft (hfill.trans hsplit)
        have hread : doRead r (fuel₁ + 1) s x = some t₁ := by
          rw [doRead, if_neg (by simp [hopen, h₀]), fillLoop_fits h₀ hfit]
          exact parseLoop_mono (Nat.le_succ fuel₁) hloop
        obtain ⟨fuel, t, hruns, hclosed', hempty, hhandled'⟩ :=
          ih (fun f hf => hv f (List.mem_append_right _ hf)) (hclosed.trans hopen)
            (hunread.symm ▸ hleft) (hunread.symm ▸ hrest) (hxs _ _ hread)
        refine ⟨max (fuel₁ + 1) fuel, t, ?_, hclosed', hempty, ?_⟩
        · rw [doReads, doRead_mono (Nat.le_max_left _ _) hread]
          exact doReads_mono (Nat.le_max_right _ _) hruns
        · exact Handled.trans (s := s) hhandled hhandled'

theorem joinedRun_of_whole (groups : List (List (List UInt8)))
    (hv : ∀ g ∈ groups, ∀ f ∈ g, ValidFrame r f)
    (hlen : ∀ g ∈ groups, g.flatten.length ≤ emMaxBuffLen)
    (hopen : s.closed = false) (h₀ : s.conn.in_buf_len = 0) :
    JoinedRun r s (groups.map List.flatten) := by
  induction groups generalizing s with
  | nil => trivial
  | cons g gs ih =>
      have hjoin : Joined s.conn g.flatten := joined_of_empty h₀ (hlen g List.mem_cons_self)
      have hnil : s.conn.unread = [] := by
        rw [Conn.unread, h₀]
        rfl
      refine ⟨hjoin, fun fuel t ht => ?_⟩
      have hshort : Short g s.conn.unread := by
        intro f hf
        have hhead := (hv g List.mem_cons_self f (List.mem_of_mem_head? hf)).head
        rw [hnil]
        exact Nat.lt_of_lt_of_le (Nat.zero_lt_succ 7) hhead
      obtain ⟨fuel', u, hu, hclosed, hempty, -⟩ :=
        doReads_frames [g.flatten] (hv g List.mem_cons_self) hopen hshort
          (by simp [hnil]) ⟨hjoin, fun _ _ _ => trivial⟩
      obtain ⟨u', hu', hsome⟩ := Option.bind_eq_some_iff.mp hu
      obtain rfl : u' = u := Option.some.inj hsome
      obtain rfl := doRead_unique ht hu'
      exact ih (fun g' hg => hv g' (List.mem_cons_of_mem g hg))
        (fun g' hg => hlen g' (List.mem_cons_of_mem g hg)) hclosed hempty

end

/-- **Chunk-invariant framing.**  Legal packets, cut into chunks each of which is
joined, are handled once each and in order, as they are if each arrives in a
call of its own. -/
theorem frames_in_order (r : CLibEventFunction) (s : Session) (frames chunks : List (List UInt8))
    (hv : ∀ f ∈ frames, ValidFrame r f) (hflat : chunks.flatten = frames.flatten)
    (hopen : s.closed = false) (h₀ : s.conn.in_buf_len = 0) (hj : JoinedRun r s chunks) :
    (∃ fuel t, doReads r fuel s chunks = some t ∧ t.closed = false ∧ Handled s t frames)
      ∧ ∃ fuel t, doReads r fuel s frames = some t ∧ t.closed = false ∧ Handled s t frames := by
  have hnil : s.conn.unread = [] := by
    rw [Conn.unread, h₀]
    rfl
  have hshort : Short frames s.conn.unread := by
    intro f hf
    have hhead := (hv f (List.mem_of_mem_head? hf)).head
    rw [hnil]
    exact Nat.lt_of_lt_of_le (Nat.zero_lt_succ 7) hhead
  have hwhole : JoinedRun r s frames := by
    have hgroups : (frames.map fun f => [f]).map List.flatten = frames := by
      simp [Function.comp_def]
    rw [← hgroups]
    refine joinedRun_of_whole _ ?_ ?_ hopen h₀
    · simpa using hv
    · intro g hg
      obtain ⟨f, hf, rfl⟩ := List.mem_map.mp hg
      have hbound := (hv f hf).bound
      simp only [emMaxBuffLen, sizeofHead] at hbound
      simp only [List.flatten_cons, List.flatten_nil, List.append_nil, emMaxBuffLen]
      omega
  obtain ⟨fuel, t, hruns, hclosed, -, hhandled⟩ :=
    doReads_frames chunks hv hopen hshort (by rw [hnil, hflat, List.nil_append]) hj
  obtain ⟨fuel', t', hruns', hclosed', -, hhandled'⟩ :=
    doReads_frames frames hv hopen hshort (by rw [hnil, List.nil_append]) hwhole
  exact ⟨⟨fuel, t, hruns, hclosed, hhandled⟩, fuel', t', hruns', hclosed', hhandled'⟩

/-! ## A packet that is cut in two -/

/-- `Login`, with `uid = 7`. -/
def login : List UInt8 := [0x85, 0x22, 0x0D, 0x00, 10, 0, 0xE9, 0x03, 7, 0]

theorem login_valid : ValidFrame registered login where
  stx := by decide
  pkglen := by decide
  head := by decide
  bound := by decide
  command := by decide
  handler := by
    refine ⟨CLibUserFunction.Login, rfl, ?_⟩
    intro in_buf o _ hpre
    have hhead : Head.ofBytes in_buf = Head.ofBytes login := Head.ofBytes_prefix (by decide) hpre
    have hten : (Head.ofBytes in_buf).pkglen = 10 := by
      rw [hhead]
      decide
    have hsend : (CLibUserFunction.Login in_buf o).2 = emFunReturnSend := by
      rw [CLibUserFunction.Login, if_neg (by simp [hten])]
    rw [hsend]
    decide

/-- Two packets in one chunk, an empty one, and a packet. -/
theorem frames_in_order_logins :
    (∃ fuel t, doReads registered fuel fresh [login ++ login, [], login] = some t
        ∧ t.closed = false ∧ Handled fresh t [login, login, login])
      ∧ ∃ fuel t, doReads registered fuel fresh [login, login, login] = some t
        ∧ t.closed = false ∧ Handled fresh t [login, login, login] :=
  frames_in_order registered fresh [login, login, login] [login ++ login, [], login]
    (by simp [login_valid]) rfl rfl rfl
    (joinedRun_of_whole [[login, login], [], [login]] (by simp [login_valid])
      (by decide) rfl rfl)

/-- The second half of a `Login` is written over the first. -/
theorem torn_login :
    ValidFrame registered login ∧ [login.take 5, login.drop 5].flatten = [login].flatten
      ∧ (∃ fuel t, doReads registered fuel fresh [login.take 5, login.drop 5] = some t)
      ∧ ∀ fuel t, doReads registered fuel fresh [login.take 5, login.drop 5] = some t →
          t.closed = true ∧ ¬ Handled fresh t [login] := by
  have hrun : (doReads registered 2 fresh [login.take 5, login.drop 5]).map
      (fun t => (t.closed, t.dispatched.map Prod.fst)) = some (true, [emFunClosed]) := by
    decide +kernel
  obtain ⟨t, ht, hsee⟩ := Option.map_eq_some_iff.mp hrun
  obtain ⟨hclosed, hids⟩ := Prod.mk.inj hsee
  refine ⟨login_valid, rfl, ⟨2, t, ht⟩, fun fuel u hu => ?_⟩
  have h₁ := doReads_mono (Nat.le_max_left 2 fuel) ht
  have h₂ := doReads_mono (Nat.le_max_right 2 fuel) hu
  obtain rfl := Option.some.inj (h₁.symm.trans h₂)
  refine ⟨hclosed, ?_⟩
  rintro ⟨new, hnew, hserved⟩
  cases hserved with
  | cons hd hnil =>
      cases hnil
      rw [hnew] at hids
      have hid := hd.1
      simp only [fresh, List.nil_append, List.map_cons, List.map_nil, List.cons.injEq] at hids
      rw [hids.1] at hid
      exact absurd hid (by decide)

end CppWorkspace.LibeventServer
