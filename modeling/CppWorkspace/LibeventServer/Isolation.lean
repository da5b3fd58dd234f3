/-
# `CppWorkspace.LibeventServer.Isolation` — one client after another on a `Conn`

`CloseConn` sets `in_buf_len = 0` and gives the `Conn` back; `DoAccept` hands it
to the next client.  Four things pass from one to the other:

| | |
| :-- | :-- |
| `in_buf` | read only where a chunk is not joined |
| `out_buf` | `Login` writes its first ten bytes before they are sent |
| `out_buf_len` | `Login` adds to it, and nothing resets it |
| the output of the bufferevent | what was not sent yet goes to the new client |

So the new client sees its own input only, if the last two are the same whatever
the earlier clients did, and its chunks are joined (`isolated`).  One answered
login of an earlier client is enough to break it (`earlier_login_shows`).

The proof is a simulation between two sessions that are `Alike`: they agree on
all that is read later.
-/
import CppWorkspace.LibeventServer.Responses

namespace CppWorkspace.LibeventServer

/-! ## The life of a `Conn` -/

/-- `CloseConn` with the id that `DoError` has found. -/
def Session.closeWith (r : CLibEventFunction) (s : Session) (nFunID : Int) : Session :=
  { (({ s with conn := s.conn.clear } : Session).dispatch r nFunID).1 with closed := true }

/-- A `Conn` and its bufferevent: `output` is what waits to be sent, and `stream`
is what was sent to the present client or waits to be (`none`: undefined bytes). -/
structure Client where
  session : Session
  output : Option (List UInt8)
  stream : Option (List UInt8)

namespace Client

/-- What `evbuffer_add` appends. -/
def add (q : Option (List UInt8)) (sent : List Out) : Option (List UInt8) :=
  q.bind fun p => (queued sent).map fun bytes => p ++ bytes

/-- `DoAccept`: the output of the bufferevent is kept. -/
def accept (r : CLibEventFunction) (c : Client) : Client where
  session :=
    ((({ conn := c.session.conn, closed := false, dispatched := [], sent := [] } :
      Session)).dispatch r emFunConnected).1
  output := c.output
  stream := c.output

/-- After calls of `DoRead` have led to `t`. -/
def after (c : Client) (t : Session) : Client where
  session := t
  output := add c.output (t.sent.drop c.session.sent.length)
  stream := add c.stream (t.sent.drop c.session.sent.length)

/-- `DoError`. -/
def error (r : CLibEventFunction) (c : Client) (nFunID : Int) : Client where
  session := c.session.closeWith r nFunID
  output := c.output
  stream := c.stream

/-- `n` bytes are sent. -/
def flush (c : Client) (n : Nat) : Client where
  session := c.session
  output := c.output.map (List.drop n)
  stream := c.stream

end Client

/-- The states of a `Conn`, from `c₀` on.  A closed `Conn` waits for `DoAccept`;
the bufferevent of an open one reads, reports and sends. -/
inductive Life (r : CLibEventFunction) (c₀ : Client) : Client → Prop
  | start : Life r c₀ c₀
  | accept {c : Client} : Life r c₀ c → c.session.closed = true → Life r c₀ (c.accept r)
  | read {c : Client} {t : Session} {fuel : Nat} {input : List UInt8} : Life r c₀ c →
      c.session.closed = false → doRead r fuel c.session input = some t → Life r c₀ (c.after t)
  | error {c : Client} {nFunID : Int} : Life r c₀ c → c.session.closed = false →
      (nFunID = emFunTimeout ∨ nFunID = emFunClosed ∨ nFunID = emFunError) →
      Life r c₀ (c.error r nFunID)
  | flush {c : Client} (n : Nat) : Life r c₀ c → c.session.closed = false → Life r c₀ (c.flush n)

/-- The packets that were dispatched, each with its command. -/
def Session.frames (s : Session) : List (Int × List UInt8) :=
  (s.dispatched.filter fun d => emFunBase < d.1).map fun d =>
    (d.1, d.2.take (Head.ofBytes d.2).pkglen.toNat)

/-! ## What a life keeps -/

/-- The bytes of `out_buf` that `Login` does not write. -/
def Session.spare (s : Session) : List UInt8 := s.conn.out.out_buf.drop sizeofLogin

/-- No waiting bytes in a closed `Conn`, and the rest of `out_buf` is as it was. -/
structure Kept (spare : List UInt8) (s : Session) : Prop where
  idle : s.closed = true → s.conn.in_buf_len = 0
  spare : s.spare = spare

theorem registered_notify {id : Int} (hid : id ≤ emFunBase) :
    registered.m_FunPtrList id = none
      ∨ ∃ f, registered.m_FunPtrList id = some f ∧ ∀ buf o, (f buf o).1 = o := by
  have hlogin : id ≠ emFunLogin := by
    rintro rfl
    exact absurd hid (by decide)
  have hlogout : id ≠ emFunLogout := by
    rintro rfl
    exact absurd hid (by decide)
  simp only [registered, if_neg hlogin, if_neg hlogout]
  split
  · exact .inr ⟨_, rfl, fun _ _ => rfl⟩
  · split
    · exact .inr ⟨_, rfl, fun _ _ => rfl⟩
    · exact .inl rfl

theorem registered_command {id : Int} (hid : emFunBase < id)
    (h : (registered.m_FunPtrList id).isSome) :
    registered.m_FunPtrList id = some CLibUserFunction.Login
      ∨ registered.m_FunPtrList id = some CLibUserFunction.Logout := by
  have hnotify : id ≠ emFunConnected
      ∧ ¬ (id = emFunTimeout ∨ id = emFunClosed ∨ id = emFunError) := by
    simp only [emFunBase, emFunConnected, emFunTimeout, emFunClosed, emFunError] at hid ⊢
    omega
  simp only [registered, if_neg hnotify.1, if_neg hnotify.2] at h ⊢
  split
  · exact .inl rfl
  · split
    · exact .inr rfl
    · rename_i h₁ h₂
      simp [h₁, h₂] at h

theorem login_spare {buf : List UInt8} (hbuf : sizeofHead ≤ buf.length) (o : Out) :
    (CLibUserFunction.Login buf o).1.out_buf.drop sizeofLogin = o.out_buf.drop sizeofLogin := by
  unfold CLibUserFunction.Login
  split
  · rfl
  · exact List.drop_left' (loginResponse_length hbuf)

section
variable {s t : Session} {spare : List UInt8}

theorem dispatch_spare (s : Session) (id : Int) :
    (s.dispatch registered id).1.spare = s.spare := by
  unfold Session.dispatch
  cases hf : registered.m_FunPtrList id with
  | none => rfl
  | some f =>
      have hbuf : sizeofHead ≤ s.conn.in_buf.length := by
        rw [s.conn.in_buf_size]
        decide
      show ((f s.conn.in_buf s.conn.out).1).out_buf.drop sizeofLogin = s.spare
      rcases Int.lt_or_le emFunBase id with hid | hid
      · rcases registered_command hid (by rw [hf]; rfl) with h | h
        · obtain rfl := Option.some.inj (hf.symm.trans h)
          exact login_spare hbuf _
        · obtain rfl := Option.some.inj (hf.symm.trans h)
          rfl
      · rcases registered_notify hid with h | ⟨g, h, hg⟩
        · rw [hf] at h
          cases h
        · obtain rfl := Option.some.inj (hf.symm.trans h)
          rw [hg]
          rfl

theorem closeWith_kept (hs : s.spare = spare) (id : Int) :
    Kept spare (s.closeWith registered id) where
  idle := by
    intro _
    show (({ s with conn := s.conn.clear } : Session).dispatch registered id).1.conn.in_buf_len = 0
    rw [Session.dispatch_in_buf_len]
    rfl
  spare := (dispatch_spare { s with conn := s.conn.clear } id).trans hs

theorem answer_spare (s : Session) (code : Int) : (s.answer code).spare = s.spare := by
  unfold Session.answer
  split <;> rfl

theorem dispatch_closed (r : CLibEventFunction) (s : Session) (id : Int) :
    (s.dispatch r id).1.closed = s.closed := by
  unfold Session.dispatch
  split <;> rfl

theorem answer_closed (s : Session) (code : Int) : (s.answer code).closed = s.closed := by
  unfold Session.answer
  split <;> rfl

theorem parseStep_kept (hopen : s.closed = false) (hs : s.spare = spare) :
    Kept spare (parseStep registered s).1
      ∧ ((parseStep registered s).2 = true → (parseStep registered s).1.closed = false) := by
  have hsame : Kept spare s := ⟨fun h => absurd (hopen.symm.trans h) (by decide), hs⟩
  have hclose : ∀ u : Session, u.spare = spare → Kept spare (u.close registered) :=
    fun u hu => closeWith_kept hu emFunClosed
  unfold parseStep
  dsimp only
  split
  · exact ⟨hsame, fun h => absurd h Bool.false_ne_true⟩
  split
  · exact ⟨hclose s hs, fun h => absurd h Bool.false_ne_true⟩
  split
  · exact ⟨hsame, fun h => absurd h Bool.false_ne_true⟩
  split
  · have hd := dispatch_spare s (Head.ofBytes s.conn.in_buf).nFunID
    split
    · exact ⟨hclose _ (hd.trans hs), fun h => absurd h Bool.false_ne_true⟩
    · have hanswer := answer_closed (s.dispatch registered (Head.ofBytes s.conn.in_buf).nFunID).1
        (s.dispatch registered (Head.ofBytes s.conn.in_buf).nFunID).2
      rw [dispatch_closed, hopen] at hanswer
      refine ⟨⟨fun h => absurd (hanswer.symm.trans h) (by decide), ?_⟩, fun _ => hanswer⟩
      exact (answer_spare _ _).trans (hd.trans hs)
  · exact ⟨hclose s hs, fun h => absurd h Bool.false_ne_true⟩

theorem parseLoop_kept {fuel : Nat} (hopen : s.closed = false) (hs : s.spare = spare)
    (h : parseLoop registered fuel s = some t) : Kept spare t := by
  induction fuel generalizing s with
  | zero => cases h
  | succ fuel ih =>
      obtain ⟨hkept, hgo⟩ := parseStep_kept hopen hs
      unfold parseLoop at h
      split at h
      · rename_i hmore
        exact ih (hgo hmore) hkept.spare h
      · cases h
        exact hkept

theorem doRead_kept {fuel : Nat} {input : List UInt8} (hs : Kept spare s)
    (h : doRead registered fuel s input = some t) : Kept spare t := by
  unfold doRead at h
  split at h
  · cases h
    exact hs
  · rename_i hread
    obtain ⟨c, hc, ht⟩ := Option.bind_eq_some_iff.mp h
    have hopen : s.closed = false := by
      simp only [not_or, Bool.not_eq_true] at hread
      exact hread.1
    refine parseLoop_kept (s := { s with conn := c }) hopen ?_ ht
    rw [← hs.spare]
    show c.out.out_buf.drop sizeofLogin = s.spare
    rw [fillLoop_out hc]
    rfl

/-- Whatever happened on a `Conn`, no bytes wait in it when it is closed, and the
bytes of `out_buf` behind an answer are those of the beginning. -/
theorem Life.kept {c₀ c : Client} (h : Life registered c₀ c) (h₀ : c₀.session.conn.in_buf_len = 0) :
    Kept c₀.session.spare c.session := by
  induction h with
  | start => exact ⟨fun _ => h₀, rfl⟩
  | @accept c _ hclosed ih =>
      refine ⟨fun hc => ?_, ?_⟩
      · have hopen := dispatch_closed registered
          { conn := c.session.conn, closed := false, dispatched := [], sent := [] } emFunConnected
        exact absurd (hopen.symm.trans hc) Bool.false_ne_true
      · exact (dispatch_spare _ emFunConnected).trans ih.spare
  | read _ _ hread ih => exact doRead_kept ih hread
  | error _ _ _ ih => exact closeWith_kept ih.spare _
  | flush n _ _ ih => exact ih

end

/-! ## Two sessions that agree on what is read later -/

/-- The waiting bytes, the length that `Login` adds to, and the bytes of
`out_buf` behind an answer; and what an observer has seen. -/
structure Alike (s₁ s₂ : Session) : Prop where
  unread : s₁.conn.unread = s₂.conn.unread
  out_buf_len : s₁.conn.out.out_buf_len = s₂.conn.out.out_buf_len
  spare : s₁.spare = s₂.spare
  closed : s₁.closed = s₂.closed
  frames : s₁.frames = s₂.frames
  sent : s₁.sent = s₂.sent

section
variable {s₁ s₂ t₁ t₂ : Session}

theorem Alike.in_buf_len (h : Alike s₁ s₂) : s₁.conn.in_buf_len = s₂.conn.in_buf_len := by
  rw [← s₁.conn.unread_length, ← s₂.conn.unread_length, h.unread]

theorem Alike.head (h : Alike s₁ s₂) (hlen : sizeofHead ≤ s₁.conn.in_buf_len) :
    Head.ofBytes s₁.conn.in_buf = Head.ofBytes s₂.conn.in_buf := by
  have hge : sizeofHead ≤ s₁.conn.unread.length := by rwa [s₁.conn.unread_length]
  have h₁ : s₁.conn.unread <+: s₁.conn.in_buf := List.take_prefix _ _
  have h₂ : s₁.conn.unread <+: s₂.conn.in_buf := h.unread ▸ List.take_prefix _ _
  exact (Head.ofBytes_prefix hge h₁).trans (Head.ofBytes_prefix hge h₂).symm

theorem Alike.packet (h : Alike s₁ s₂) {n : Nat} (hlen : n ≤ s₁.conn.in_buf_len) :
    s₁.conn.in_buf.take n = s₂.conn.in_buf.take n := by
  have htake : ∀ c : Conn, n ≤ c.in_buf_len → c.in_buf.take n = c.unread.take n := by
    intro c hc
    rw [Conn.unread, List.take_take, Nat.min_eq_left hc]
  rw [htake _ hlen, htake _ (h.in_buf_len ▸ hlen), h.unread]

theorem Alike.notify (h : Alike s₁ s₂) {id : Int} (hid : id ≤ emFunBase) :
    Alike (s₁.dispatch registered id).1 (s₂.dispatch registered id).1 := by
  unfold Session.dispatch
  rcases registered_notify hid with hf | ⟨f, hf, hquiet⟩
  · simp only [hf]
    exact h
  · have hframes : ∀ s : Session, ∀ buf, (s.dispatched ++ [(id, buf)]).filter
        (fun d => emFunBase < d.1) = s.dispatched.filter fun d => emFunBase < d.1 := by
      intro s buf
      rw [List.filter_append, List.filter_cons_of_neg (by simp; omega), List.filter_nil,
        List.append_nil]
    simp only [hf]
    constructor
    · exact h.unread
    · simp only [Conn.setOut, hquiet]
      exact h.out_buf_len
    · simp only [Session.spare, Conn.setOut, hquiet]
      exact h.spare
    · exact h.closed
    · simp only [Session.frames, hframes]
      exact h.frames
    · exact h.sent

theorem Alike.clear (h : Alike s₁ s₂) :
    Alike { s₁ with conn := s₁.conn.clear } { s₂ with conn := s₂.conn.clear } :=
  ⟨rfl, h.out_buf_len, h.spare, h.closed, h.frames, h.sent⟩

theorem Alike.close (h : Alike s₁ s₂) : Alike (s₁.close registered) (s₂.close registered) := by
  have hnotify := h.clear.notify (by decide : emFunClosed ≤ emFunBase)
  exact ⟨hnotify.unread, hnotify.out_buf_len, hnotify.spare, rfl, hnotify.frames, hnotify.sent⟩

theorem Alike.next (h : Alike s₁ s₂) (hd : Head) : Alike (s₁.next hd) (s₂.next hd) := by
  refine ⟨?_, h.out_buf_len, h.spare, h.closed, h.frames, h.sent⟩
  simp only [Session.next, Conn.advance_unread, h.unread]

theorem frames_dispatch (s : Session) {id : Int} (hid : emFunBase < id) {f : lpFunPtr}
    (hf : registered.m_FunPtrList id = some f) :
    (s.dispatch registered id).1.frames
      = s.frames ++ [(id, s.conn.in_buf.take (Head.ofBytes s.conn.in_buf).pkglen.toNat)] := by
  simp only [Session.dispatch, hf, Session.frames, List.filter_append, List.map_append]
  rw [List.filter_cons_of_pos (by simpa using hid)]
  rfl

theorem Alike.dispatch (h : Alike s₁ s₂) (hhead : sizeofHead ≤ s₁.conn.in_buf_len)
    (hpkg : (Head.ofBytes s₁.conn.in_buf).pkglen ≤ s₁.conn.in_buf_len) {id : Int}
    (hid : emFunBase < id) {f : lpFunPtr} (hf : registered.m_FunPtrList id = some f)
    (hlen : (f s₁.conn.in_buf s₁.conn.out).1.out_buf_len
      = (f s₂.conn.in_buf s₂.conn.out).1.out_buf_len) :
    Alike (s₁.dispatch registered id).1 (s₂.dispatch registered id).1 where
  unread := by
    simp only [Session.dispatch, hf]
    exact h.unread
  out_buf_len := by
    simp only [Session.dispatch, hf]
    exact hlen
  spare := by rw [dispatch_spare, dispatch_spare, h.spare]
  closed := by rw [dispatch_closed, dispatch_closed, h.closed]
  frames := by
    have hpacket := h.packet (n := (Head.ofBytes s₁.conn.in_buf).pkglen.toNat) (by omega)
    rw [frames_dispatch s₁ hid hf, frames_dispatch s₂ hid hf, h.frames, ← h.head hhead, hpacket]
  sent := by
    simp only [Session.dispatch, hf]
    exact h.sent

theorem Alike.refusal (h : Alike s₁ s₂) (hhead : sizeofHead ≤ s₁.conn.in_buf_len)
    (hpkg : (Head.ofBytes s₁.conn.in_buf).pkglen ≤ s₁.conn.in_buf_len) {id : Int}
    (hid : emFunBase < id) {f : lpFunPtr} (hf : registered.m_FunPtrList id = some f)
    (h₁ : f s₁.conn.in_buf s₁.conn.out = (s₁.conn.out, emFunReturClose))
    (h₂ : f s₂.conn.in_buf s₂.conn.out = (s₂.conn.out, emFunReturClose)) :
    (s₁.dispatch registered id).2 = (s₂.dispatch registered id).2
      ∧ Alike (s₁.dispatch registered id).1 (s₂.dispatch registered id).1
      ∧ Alike ((s₁.dispatch registered id).1.answer (s₁.dispatch registered id).2)
          ((s₂.dispatch registered id).1.answer (s₂.dispatch registered id).2) := by
  have hcode : ∀ s : Session, f s.conn.in_buf s.conn.out = (s.conn.out, emFunReturClose) →
      (s.dispatch registered id).2 = emFunReturClose := by
    intro s hs
    simp only [Session.dispatch, hf, hs]
  have hquiet : ∀ s : Session, s.answer emFunReturClose = s := fun s => if_neg (by decide)
  have halike := h.dispatch hhead hpkg hid hf (by rw [h₁, h₂]; exact h.out_buf_len)
  refine ⟨(hcode s₁ h₁).trans (hcode s₂ h₂).symm, halike, ?_⟩
  rw [hcode s₁ h₁, hcode s₂ h₂, hquiet, hquiet]
  exact halike

theorem loginResponse_congr {buf₁ buf₂ : List UInt8} (h : buf₁.take 8 = buf₂.take 8) :
    loginResponse buf₁ = loginResponse buf₂ := by
  have htake : ∀ buf : List UInt8, buf.take 4 = (buf.take 8).take 4 := by
    intro buf
    rw [List.take_take]
    rfl
  have hdrop : ∀ buf : List UInt8, (buf.drop 6).take 2 = (buf.take 8).drop 6 := by
    intro buf
    rw [List.drop_take]
  simp only [loginResponse, hdrop]
  rw [htake buf₁, htake buf₂, h]

theorem Alike.login (h : Alike s₁ s₂) (hhead : sizeofHead ≤ s₁.conn.in_buf_len)
    (hten : (Head.ofBytes s₁.conn.in_buf).pkglen = 10) :
    CLibUserFunction.Login s₁.conn.in_buf s₁.conn.out
        = CLibUserFunction.Login s₂.conn.in_buf s₂.conn.out
      ∧ (CLibUserFunction.Login s₁.conn.in_buf s₁.conn.out).2 = emFunReturnSend := by
  have hten' : (Head.ofBytes s₂.conn.in_buf).pkglen = 10 := by rw [← h.head hhead, hten]
  have hlogin : ∀ buf o, (Head.ofBytes buf).pkglen = 10 → CLibUserFunction.Login buf o
      = ({ out_buf := loginResponse buf ++ o.out_buf.drop sizeofLogin,
           out_buf_len := addShort o.out_buf_len 10 }, emFunReturnSend) := by
    intro buf o hbuf
    rw [CLibUserFunction.Login, if_neg (by simp [hbuf])]
    rfl
  have hspare : s₁.conn.out.out_buf.drop sizeofLogin = s₂.conn.out.out_buf.drop sizeofLogin :=
    h.spare
  rw [hlogin _ _ hten, hlogin _ _ hten', loginResponse_congr (h.packet hhead), hspare,
    h.out_buf_len]
  exact ⟨rfl, rfl⟩

/-- A command: the same code, and sessions that are still alike. -/
theorem Alike.command (h : Alike s₁ s₂) (hhead : sizeofHead ≤ s₁.conn.in_buf_len)
    (hpkg : (Head.ofBytes s₁.conn.in_buf).pkglen ≤ s₁.conn.in_buf_len) {id : Int}
    (hid : emFunBase < id) (hreg : (registered.m_FunPtrList id).isSome) :
    (s₁.dispatch registered id).2 = (s₂.dispatch registered id).2
      ∧ Alike (s₁.dispatch registered id).1 (s₂.dispatch registered id).1
      ∧ Alike ((s₁.dispatch registered id).1.answer (s₁.dispatch registered id).2)
          ((s₂.dispatch registered id).1.answer (s₂.dispatch registered id).2) := by
  rcases registered_command hid hreg with hf | hf
  · by_cases hten : (Head.ofBytes s₁.conn.in_buf).pkglen = 10
    · obtain ⟨hsame, hsend⟩ := h.login hhead hten
      have halike := h.dispatch hhead hpkg hid hf (by rw [hsame])
      have hcode₁ : (s₁.dispatch registered id).2 = emFunReturnSend := by
        simp only [Session.dispatch, hf]
        exact hsend
      have hcode₂ : (s₂.dispatch registered id).2 = emFunReturnSend := by
        simp only [Session.dispatch, hf]
        exact hsame ▸ hsend
      have hout : (s₁.dispatch registered id).1.conn.out
          = (s₂.dispatch registered id).1.conn.out := by
        simp only [Session.dispatch, hf]
        exact congrArg Prod.fst hsame
      refine ⟨hcode₁.trans hcode₂.symm, halike, ?_⟩
      rw [hcode₁, hcode₂]
      refine ⟨halike.unread, halike.out_buf_len, halike.spare, halike.closed, halike.frames, ?_⟩
      show (s₁.dispatch registered id).1.sent ++ _ = (s₂.dispatch registered id).1.sent ++ _
      rw [halike.sent, hout]
    · have hten' : (Head.ofBytes s₂.conn.in_buf).pkglen ≠ 10 := by rwa [← h.head hhead]
      exact h.refusal hhead hpkg hid hf (if_pos hten) (if_pos hten')
  · exact h.refusal hhead hpkg hid hf rfl rfl

theorem parseStep_of_head {r : CLibEventFunction} {s : Session} {h : Head}
    (hhead : Head.ofBytes s.conn.in_buf = h) :
    parseStep r s =
      if s.conn.in_buf_len < sizeofHead then (s, false)
      else if badHead r h then (s.close r, false)
      else if (s.conn.in_buf_len : Int) < h.pkglen then (s, false)
      else if emFunBase < h.nFunID ∧ (r.m_FunPtrList h.nFunID).isSome then
        if (s.dispatch r h.nFunID).2 = emFunReturClose then
          ((s.dispatch r h.nFunID).1.close r, false)
        else
          ((((s.dispatch r h.nFunID).1.answer (s.dispatch r h.nFunID).2).next h),
            (((s.dispatch r h.nFunID).1.answer (s.dispatch r h.nFunID).2).next h).conn.in_buf_len
              != 0)
      else (s.close r, false) := by
  subst hhead
  rfl

theorem Alike.parseStep (h : Alike s₁ s₂) :
    (parseStep registered s₁).2 = (parseStep registered s₂).2
      ∧ Alike (parseStep registered s₁).1 (parseStep registered s₂).1 := by
  have hlen := h.in_buf_len
  by_cases hshort : s₁.conn.in_buf_len < sizeofHead
  · have hstop : ∀ s : Session, s.conn.in_buf_len < sizeofHead →
        LibeventServer.parseStep registered s = (s, false) := fun s hs => if_pos hs
    rw [hstop s₁ hshort, hstop s₂ (hlen ▸ hshort)]
    exact ⟨rfl, h⟩
  have hhead := h.head (Nat.not_lt.mp hshort)
  rw [parseStep_of_head (s := s₁) rfl, parseStep_of_head hhead.symm, ← hlen]
  simp only [if_neg hshort]
  by_cases hbad : badHead registered (Head.ofBytes s₁.conn.in_buf) = true
  · simp only [if_pos hbad]
    exact ⟨trivial, h.close⟩
  simp only [if_neg hbad]
  by_cases hwait : (s₁.conn.in_buf_len : Int) < (Head.ofBytes s₁.conn.in_buf).pkglen
  · simp only [if_pos hwait]
    exact ⟨trivial, h⟩
  simp only [if_neg hwait]
  by_cases hcmd : emFunBase < (Head.ofBytes s₁.conn.in_buf).nFunID
      ∧ (registered.m_FunPtrList (Head.ofBytes s₁.conn.in_buf).nFunID).isSome = true
  · obtain ⟨hcode, hdone, hanswer⟩ :=
      h.command (Nat.not_lt.mp hshort) (Int.not_lt.mp hwait) hcmd.1 hcmd.2
    simp only [if_pos hcmd, ← hcode]
    by_cases hclose : (s₁.dispatch registered (Head.ofBytes s₁.conn.in_buf).nFunID).2
        = emFunReturClose
    · simp only [if_pos hclose]
      exact ⟨trivial, hdone.close⟩
    · have hnext := hanswer.next (Head.ofBytes s₁.conn.in_buf)
      rw [← hcode] at hnext
      simp only [if_neg hclose]
      exact ⟨by rw [hnext.in_buf_len], hnext⟩
  · simp only [if_neg hcmd]
    exact ⟨trivial, h.close⟩

theorem Alike.parseLoop {fuel : Nat} (h : Alike s₁ s₂)
    (h₁ : parseLoop registered fuel s₁ = some t₁) (h₂ : parseLoop registered fuel s₂ = some t₂) :
    Alike t₁ t₂ := by
  induction fuel generalizing s₁ s₂ with
  | zero => cases h₁
  | succ fuel ih =>
      obtain ⟨hgo, hnext⟩ := h.parseStep
      unfold LibeventServer.parseLoop at h₁ h₂
      rw [← hgo] at h₂
      split at h₁
      · rename_i hmore
        rw [if_pos hmore] at h₂
        exact ih hnext h₁ h₂
      · rename_i hstop
        rw [if_neg hstop] at h₂
        cases h₁
        cases h₂
        exact hnext

theorem Alike.doRead {fuel : Nat} {input : List UInt8} (h : Alike s₁ s₂)
    (hj₁ : Joined s₁.conn input) (hj₂ : Joined s₂.conn input)
    (h₁ : doRead registered fuel s₁ input = some t₁)
    (h₂ : doRead registered fuel s₂ input = some t₂) : Alike t₁ t₂ := by
  unfold LibeventServer.doRead at h₁ h₂
  by_cases hskip : s₁.closed = true ∨ input = []
  · rw [if_pos hskip] at h₁
    rw [← h.closed, if_pos hskip] at h₂
    cases h₁
    cases h₂
    exact h
  · have h₀ : input ≠ [] := fun hnil => hskip (.inr hnil)
    obtain ⟨hfit₁, hfill₁⟩ := hj₁.fill_unread h₀
    obtain ⟨hfit₂, hfill₂⟩ := hj₂.fill_unread h₀
    have hskip₂ : ¬ (s₂.closed = true ∨ input = []) := h.closed ▸ hskip
    rw [if_neg hskip] at h₁
    rw [if_neg hskip₂] at h₂
    cases fuel with
    | zero =>
        obtain ⟨b, bs, rfl⟩ := List.exists_cons_of_ne_nil h₀
        cases h₁
    | succ fuel =>
        rw [fillLoop_fits h₀ hfit₁] at h₁
        rw [fillLoop_fits h₀ hfit₂] at h₂
        have hfilled : Alike { s₁ with conn := s₁.conn.fill input }
            { s₂ with conn := s₂.conn.fill input } :=
          ⟨by rw [hfill₁, hfill₂, h.unread], h.out_buf_len, h.spare, h.closed, h.frames, h.sent⟩
        exact hfilled.parseLoop h₁ h₂

end

/-! ## A new client -/

theorem doReads_joined {s : Session} {chunks : List (List UInt8)}
    (hj : JoinedRun registered s chunks) : ∃ fuel t, doReads registered fuel s chunks = some t := by
  refine (doReads_return_iff registered s chunks).mpr ?_
  induction chunks generalizing s with
  | nil => trivial
  | cons x xs ih =>
      obtain ⟨hx, hxs⟩ := hj
      refine ⟨?_, fun fuel t ht => ih (hxs fuel t ht)⟩
      rcases hx with hx | hx
      · exact .inr (.inl hx)
      · exact .inr (.inr hx.1)

theorem Alike.doReads {s₁ s₂ t₁ t₂ : Session} {fuel : Nat} {chunks : List (List UInt8)}
    (h : Alike s₁ s₂) (hj₁ : JoinedRun registered s₁ chunks) (hj₂ : JoinedRun registered s₂ chunks)
    (h₁ : doReads registered fuel s₁ chunks = some t₁)
    (h₂ : doReads registered fuel s₂ chunks = some t₂) : Alike t₁ t₂ := by
  induction chunks generalizing s₁ s₂ with
  | nil =>
      cases h₁
      cases h₂
      exact h
  | cons x xs ih =>
      obtain ⟨u₁, hu₁, hrest₁⟩ := Option.bind_eq_some_iff.mp h₁
      obtain ⟨u₂, hu₂, hrest₂⟩ := Option.bind_eq_some_iff.mp h₂
      exact ih (h.doRead hj₁.1 hj₂.1 hu₁ hu₂) (hj₁.2 _ _ hu₁) (hj₂.2 _ _ hu₂) hrest₁ hrest₂

/-- What the present client has seen: the packets that were dispatched for it, the
bytes that were queued to it, and whether it was closed. -/
def Client.view (c : Client) : List (Int × List UInt8) × Option (List UInt8) × Bool :=
  (c.session.frames, c.stream, c.session.closed)

/-- Two clients of a `Conn` that was not used before them see the same. -/
theorem accept_alike {c₀ c₁ c₂ : Client} (h₀ : c₀.session.conn.in_buf_len = 0)
    (h₁ : Life registered c₀ c₁) (h₂ : Life registered c₀ c₂)
    (hclosed₁ : c₁.session.closed = true) (hclosed₂ : c₂.session.closed = true)
    (hlen : c₁.session.conn.out.out_buf_len = c₂.session.conn.out.out_buf_len) :
    Alike (c₁.accept registered).session (c₂.accept registered).session := by
  have hkept₁ := h₁.kept h₀
  have hkept₂ := h₂.kept h₀
  have hempty : ∀ c : Client, c.session.conn.in_buf_len = 0 → c.session.conn.unread = [] := by
    intro c hc
    rw [Conn.unread, hc]
    rfl
  have hstart : Alike
      { conn := c₁.session.conn, closed := false, dispatched := [], sent := [] }
      { conn := c₂.session.conn, closed := false, dispatched := [], sent := [] } := by
    refine ⟨?_, hlen, hkept₁.spare.trans hkept₂.spare.symm, rfl, rfl, rfl⟩
    show c₁.session.conn.unread = c₂.session.conn.unread
    rw [hempty c₁ (hkept₁.idle hclosed₁), hempty c₂ (hkept₂.idle hclosed₂)]
  exact hstart.notify (by decide)

/-- **Isolation.**  Whatever happened on a `Conn` before: if `out_buf_len` and what
was not sent are the same when it is handed out, and the chunks of the new client
are joined, then the new client sees the same. -/
theorem isolated (c₀ c₁ c₂ : Client) (chunks : List (List UInt8))
    (h₀ : c₀.session.conn.in_buf_len = 0)
    (h₁ : Life registered c₀ c₁) (h₂ : Life registered c₀ c₂)
    (hclosed₁ : c₁.session.closed = true) (hclosed₂ : c₂.session.closed = true)
    (hlen : c₁.session.conn.out.out_buf_len = c₂.session.conn.out.out_buf_len)
    (hunsent : c₁.output = c₂.output)
    (hj₁ : JoinedRun registered (c₁.accept registered).session chunks)
    (hj₂ : JoinedRun registered (c₂.accept registered).session chunks) :
    ∃ fuel t₁ t₂, doReads registered fuel (c₁.accept registered).session chunks = some t₁
      ∧ doReads registered fuel (c₂.accept registered).session chunks = some t₂
      ∧ ((c₁.accept registered).after t₁).view = ((c₂.accept registered).after t₂).view := by
  obtain ⟨fuel₁, t₁, hrun₁⟩ := doReads_joined hj₁
  obtain ⟨fuel₂, t₂, hrun₂⟩ := doReads_joined hj₂
  have hmax₁ := doReads_mono (Nat.le_max_left fuel₁ fuel₂) hrun₁
  have hmax₂ := doReads_mono (Nat.le_max_right fuel₁ fuel₂) hrun₂
  have hstart := accept_alike h₀ h₁ h₂ hclosed₁ hclosed₂ hlen
  have hend := hstart.doReads hj₁ hj₂ hmax₁ hmax₂
  refine ⟨_, t₁, t₂, hmax₁, hmax₂, ?_⟩
  have hstream : (c₁.accept registered).stream = (c₂.accept registered).stream := hunsent
  simp only [Client.view, Client.after, hend.frames, hend.closed, hend.sent, hstart.sent, hstream]

/-! ## An answered login of the client before -/

/-- A `Conn` of `StartServer`. -/
def unusedClient : Client where
  session := { fresh with closed := true }
  output := some []
  stream := some []

/-- The first client sends a request, gets the answer, and leaves. -/
def answeredOnce (t : Session) : Client :=
  (((unusedClient.accept registered).after t).flush 10).error registered emFunClosed

/-- The first client leaves without a request. -/
def notAnswered : Client := (unusedClient.accept registered).error registered emFunClosed

theorem notAnswered_life : Life registered unusedClient notAnswered :=
  .error (.accept .start rfl) (dispatch_closed registered _ _) (.inr (.inl rfl))

/-- A whole request is joined, as the first thing that a client sends. -/
theorem joined_login {c₀ c : Client} (h : Life registered c₀ c)
    (h₀ : c₀.session.conn.in_buf_len = 0) (hclosed : c.session.closed = true) :
    JoinedRun registered (c.accept registered).session [login] := by
  have hempty : (c.accept registered).session.conn.in_buf_len = 0 :=
    (Session.dispatch_in_buf_len registered _ _).trans ((h.kept h₀).idle hclosed)
  exact ⟨joined_of_empty hempty (by decide), fun _ _ _ => trivial⟩

/-- The first client sends half a request and is timed out. -/
def brokenOff : Client :=
  ((unusedClient.accept registered).after
    { (unusedClient.accept registered).session with
      conn := (unusedClient.accept registered).session.conn.fill (login.take 5) }).error registered
    emFunTimeout

theorem brokenOff_life : Life registered unusedClient brokenOff :=
  .error (.read (.accept .start rfl) rfl (doRead_short rfl (by decide) (by decide) registered 0))
    rfl (.inl rfl)

theorem isolated_brokenOff :
    ∃ fuel t₁ t₂,
      doReads registered fuel (notAnswered.accept registered).session [login] = some t₁
        ∧ doReads registered fuel (brokenOff.accept registered).session [login] = some t₂
        ∧ ((notAnswered.accept registered).after t₁).view
            = ((brokenOff.accept registered).after t₂).view :=
  isolated unusedClient notAnswered brokenOff [login] rfl notAnswered_life brokenOff_life rfl rfl
    rfl rfl (joined_login notAnswered_life rfl rfl) (joined_login brokenOff_life rfl rfl)

/-- The same request of the next client is answered by ten bytes, or by twenty. -/
theorem earlier_login_shows :
    ∃ c₁ c₂ : Client, Life registered unusedClient c₁ ∧ Life registered unusedClient c₂
      ∧ c₁.session.closed = true ∧ c₂.session.closed = true
      ∧ JoinedRun registered (c₁.accept registered).session [login]
      ∧ JoinedRun registered (c₂.accept registered).session [login]
      ∧ ∀ fuel t₁ t₂, doReads registered fuel (c₁.accept registered).session [login] = some t₁ →
          doReads registered fuel (c₂.accept registered).session [login] = some t₂ →
          ((c₁.accept registered).after t₁).view ≠ ((c₂.accept registered).after t₂).view := by
  have hsecond : ((doRead registered 2 (unusedClient.accept registered).session login).bind
      fun t => (doReads registered 2 ((answeredOnce t).accept registered).session [login]).map
        fun u => (t.closed, (((answeredOnce t).accept registered).after u).stream.map List.length))
      = some (false, some 20) := by decide +kernel
  have hfirst : (doReads registered 2 (notAnswered.accept registered).session [login]).map
      (fun u => ((notAnswered.accept registered).after u).stream.map List.length)
      = some (some 10) := by decide +kernel
  obtain ⟨t, ht, hu⟩ := Option.bind_eq_some_iff.mp hsecond
  obtain ⟨u, hu, hsee⟩ := Option.map_eq_some_iff.mp hu
  obtain ⟨hopen, htwenty⟩ := Prod.mk.inj hsee
  obtain ⟨v, hv, hten⟩ := Option.map_eq_some_iff.mp hfirst
  have hlife : Life registered unusedClient (answeredOnce t) :=
    .error (.flush 10 (.read (.accept .start rfl) (dispatch_closed registered _ _) ht) hopen) hopen
      (.inr (.inl rfl))
  refine ⟨notAnswered, answeredOnce t, notAnswered_life, hlife, rfl, rfl,
    joined_login notAnswered_life rfl rfl, joined_login hlife rfl rfl, ?_⟩
  intro fuel t₁ t₂ h₁ h₂ hview
  have hv' := doReads_mono (Nat.le_max_left 2 fuel) hv
  have hu' := doReads_mono (Nat.le_max_left 2 fuel) hu
  obtain rfl := Option.some.inj (hv'.symm.trans (doReads_mono (Nat.le_max_right 2 fuel) h₁))
  obtain rfl := Option.some.inj (hu'.symm.trans (doReads_mono (Nat.le_max_right 2 fuel) h₂))
  have hstream : ((notAnswered.accept registered).after v).stream
      = (((answeredOnce t).accept registered).after u).stream :=
    congrArg (fun w => w.2.1) hview
  rw [hstream, htwenty] at hten
  exact absurd hten (by decide)

end CppWorkspace.LibeventServer
