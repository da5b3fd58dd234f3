/-
# `CppWorkspace.LibeventServer.Responses` — what is queued for the client

The output side of a connection is a function of the handlers that were
dispatched: replaying them on `out_buf` and `out_buf_len` gives the calls of
`evbuffer_add` (`doReads_replays`, for any run of `DoRead`).

For a stream of login requests, each chunk of which is joined, `n` handlers are
dispatched, and the `k`-th of them leaves `out_buf_len = 10 * k`: `Login` ADDS
the length of its answer, and nothing takes it away again.  The queue is what it
should be exactly if there is at most one request (`login_responses_iff`): the
second answer is followed by ten bytes of `out_buf` that nobody has written.
-/
import CppWorkspace.LibeventServer.Stream

namespace CppWorkspace.LibeventServer

/-! ## Replaying the dispatched handlers -/

/-- One dispatched handler, on the output buffer and the calls of `evbuffer_add`
so far.  Commands are answered, the notifications of `CloseConn` are not. -/
def serve (r : CLibEventFunction) (q : Out × List Out) (d : Int × List UInt8) : Out × List Out :=
  match r.m_FunPtrList d.1 with
  | none => q
  | some f =>
      ((f d.2 q.1).1,
        if emFunBase < d.1 ∧ (f d.2 q.1).2 = emFunReturnSend then q.2 ++ [(f d.2 q.1).1] else q.2)

/-- The output side of a session. -/
def Session.outgoing (s : Session) : Out × List Out := (s.conn.out, s.sent)

/-- From `s` to `t`, the output side is what the dispatched handlers made of it. -/
def Replays (r : CLibEventFunction) (s t : Session) : Prop :=
  ∃ new, t.dispatched = s.dispatched ++ new ∧ t.outgoing = new.foldl (serve r) s.outgoing

section
variable {r : CLibEventFunction} {s t u : Session}

theorem Replays.of_eq (h₁ : t.dispatched = s.dispatched) (h₂ : t.outgoing = s.outgoing) :
    Replays r s t := ⟨[], by rw [h₁, List.append_nil], h₂⟩

theorem Replays.trans (h₁ : Replays r s t) (h₂ : Replays r t u) : Replays r s u := by
  obtain ⟨n₁, hd₁, ho₁⟩ := h₁
  obtain ⟨n₂, hd₂, ho₂⟩ := h₂
  refine ⟨n₁ ++ n₂, ?_, ?_⟩
  · rw [hd₂, hd₁, List.append_assoc]
  · rw [ho₂, ho₁, List.foldl_append]

theorem replays_notify {id : Int} (hid : id ≤ emFunBase) : Replays r s (s.dispatch r id).1 := by
  unfold Session.dispatch
  cases hf : r.m_FunPtrList id with
  | none => exact .of_eq rfl rfl
  | some f =>
      refine ⟨[(id, s.conn.in_buf)], rfl, ?_⟩
      have hskip : ¬ (emFunBase < id ∧ (f s.conn.in_buf s.conn.out).2 = emFunReturnSend) :=
        fun h => absurd h.1 (Int.not_lt.mpr hid)
      simp only [List.foldl_cons, List.foldl_nil, serve, hf, Session.outgoing, if_neg hskip]
      rfl

theorem replays_close : Replays r s (s.close r) := by
  have hclear : Replays r s { s with conn := s.conn.clear } := .of_eq rfl rfl
  exact (hclear.trans (replays_notify (by decide : emFunClosed ≤ emFunBase))).trans (.of_eq rfl rfl)

theorem replays_answer {id : Int} (hid : emFunBase < id) :
    Replays r s ((s.dispatch r id).1.answer (s.dispatch r id).2) := by
  unfold Session.dispatch
  cases hf : r.m_FunPtrList id with
  | none => exact .of_eq rfl rfl
  | some f =>
      by_cases hsend : (f s.conn.in_buf s.conn.out).2 = emFunReturnSend
      · refine ⟨[(id, s.conn.in_buf)], ?_, ?_⟩
        · simp only [Session.answer, hsend, if_true]
        · simp only [List.foldl_cons, List.foldl_nil, serve, hf, Session.outgoing,
            Session.answer, hsend, hid, true_and, if_true]
          rfl
      · refine ⟨[(id, s.conn.in_buf)], ?_, ?_⟩
        · simp only [Session.answer, if_neg hsend]
        · simp only [List.foldl_cons, List.foldl_nil, serve, hf, Session.outgoing,
            Session.answer, hsend, and_false, if_false]
          rfl

theorem replays_closing {id : Int} (hid : emFunBase < id)
    (hclose : (s.dispatch r id).2 = emFunReturClose) : Replays r s (s.dispatch r id).1 := by
  have hquiet : (s.dispatch r id).1.answer (s.dispatch r id).2 = (s.dispatch r id).1 := by
    rw [Session.answer, hclose]
    exact if_neg (by decide)
  exact hquiet ▸ replays_answer hid

/-! ## Over a run -/

theorem replays_parseStep : Replays r s (parseStep r s).1 := by
  unfold parseStep
  dsimp only
  split
  · exact .of_eq rfl rfl
  · split
    · exact replays_close
    · split
      · exact .of_eq rfl rfl
      · split
        · rename_i hid
          split
          · rename_i hclose
            exact (replays_closing hid.1 hclose).trans replays_close
          · exact (replays_answer hid.1).trans (.of_eq rfl rfl)
        · exact replays_close

theorem replays_parseLoop {fuel : Nat} (h : parseLoop r fuel s = some t) : Replays r s t := by
  induction fuel generalizing s with
  | zero => cases h
  | succ fuel ih =>
      unfold parseLoop at h
      split at h
      · exact replays_parseStep.trans (ih h)
      · cases h
        exact replays_parseStep

/-- Reading touches only the input side. -/
theorem fillLoop_out {c c' : Conn} {input : List UInt8} {fuel : Nat}
    (h : fillLoop fuel c input = some c') : c'.out = c.out := by
  induction fuel generalizing c input with
  | zero =>
      cases input with
      | nil =>
          cases h
          rfl
      | cons b bs => cases h
  | succ fuel ih =>
      cases input with
      | nil =>
          cases h
          rfl
      | cons b bs => exact (ih h).trans rfl

theorem doRead_replays {fuel : Nat} {input : List UInt8} (h : doRead r fuel s input = some t) :
    Replays r s t := by
  unfold doRead at h
  split at h
  · cases h
    exact .of_eq rfl rfl
  · obtain ⟨c, hc, ht⟩ := Option.bind_eq_some_iff.mp h
    have hfill : Replays r s { s with conn := c } :=
      .of_eq rfl (by rw [Session.outgoing, fillLoop_out hc]; rfl)
    exact hfill.trans (replays_parseLoop ht)

/-- **Replay.**  After any run of `DoRead`, the output buffer and the calls of
`evbuffer_add` are what the dispatched handlers made of them, in order. -/
theorem doReads_replays {fuel : Nat} {chunks : List (List UInt8)}
    (h : doReads r fuel s chunks = some t) : Replays r s t := by
  induction chunks generalizing s with
  | nil =>
      cases h
      exact .of_eq rfl rfl
  | cons x xs ih =>
      obtain ⟨u, hu, ht⟩ := Option.bind_eq_some_iff.mp h
      exact (doRead_replays hu).trans (ih ht)

theorem serve_sent (r : CLibEventFunction) (new : List (Int × List UInt8)) (q : Out × List Out) :
    q.2 <+: (new.foldl (serve r) q).2 := by
  induction new generalizing q with
  | nil => exact List.prefix_rfl
  | cons d new ih =>
      refine List.IsPrefix.trans ?_ (ih (serve r q d))
      unfold serve
      split
      · exact List.prefix_rfl
      · dsimp only
        split
        · exact List.prefix_append _ _
        · exact List.prefix_rfl

theorem doReads_append {fuel : Nat} (xs ys : List (List UInt8)) :
    doReads r fuel s (xs ++ ys) = (doReads r fuel s xs).bind fun t => doReads r fuel t ys := by
  induction xs generalizing s with
  | nil => rfl
  | cons x xs ih =>
      simp only [List.cons_append, doReads, Option.bind_assoc]
      congr 1
      funext u
      exact ih

end

/-! ## Bytes of the output buffer -/

/-- `evbuffer_add(output, c->out_buf, c->out_buf_len)`: the bytes that are queued,
`none` if the length is negative or reads past the end of `out_buf`. -/
def payload (o : Out) : Option (List UInt8) :=
  if 0 ≤ o.out_buf_len ∧ o.out_buf_len ≤ emMaxBuffLen then
    some (o.out_buf.take o.out_buf_len.toNat)
  else none

/-- What a sequence of `evbuffer_add` calls has queued. -/
def queued : List Out → Option (List UInt8)
  | [] => some []
  | o :: os => (payload o).bind fun p => (queued os).map fun q => p ++ q

/-! ## Login requests and responses -/

/-- `sizeof(Head) + sizeof(Proto_Login_Req)`, and the same for the response. -/
def sizeofLogin : Nat := 10

/-- A request: a head of ten bytes for `emFunLogin`, and any `uid`. -/
structure LoginRequest (f : List UInt8) : Prop where
  length : f.length = sizeofLogin
  head : Head.ofBytes f = { stx := emStx, pkglen := sizeofLogin, nFunID := emFunLogin }

/-- The response to a request: `stx` and `nFunID` are those of the request,
`pkglen` is the length of the response. -/
structure LoginResponse (rsp req : List UInt8) : Prop where
  length : rsp.length = sizeofLogin
  stx : (Head.ofBytes rsp).stx = (Head.ofBytes req).stx
  nFunID : (Head.ofBytes rsp).nFunID = (Head.ofBytes req).nFunID
  pkglen : (Head.ofBytes rsp).pkglen = rsp.length

/-- The queue consists of one response for each request, in order. -/
def Responses (sent : List Out) (requests : List (List UInt8)) : Prop :=
  ∃ rsps, queued sent = some rsps.flatten ∧ List.Forall₂ LoginResponse rsps requests

/-- The requests are answered over the chunks, and `out_buf_len` is always a
length of `out_buf`. -/
def Answered (s : Session) (requests chunks : List (List UInt8)) : Prop :=
  (∃ fuel t, doReads registered fuel s chunks = some t ∧ Responses t.sent requests)
    ∧ ∀ pre post, chunks = pre ++ post → ∀ fuel t, doReads registered fuel s pre = some t →
        0 ≤ t.conn.out.out_buf_len ∧ t.conn.out.out_buf_len ≤ emMaxBuffLen

/-- A `Conn` that was never used: what the two buffers contain is arbitrary. -/
structure Unused (s : Session) : Prop where
  in_buf_len : s.conn.in_buf_len = 0
  out_buf : s.conn.out.out_buf.length = emMaxBuffLen
  out_buf_len : s.conn.out.out_buf_len = 0
  opened : s.closed = false
  sent : s.sent = []

section
variable {req buf : List UInt8} {o : Out}

theorem LoginRequest.valid (hf : LoginRequest req) : ValidFrame registered req where
  stx := by rw [hf.head]; rfl
  pkglen := by rw [hf.head, hf.length]
  head := by
    rw [hf.length]
    decide
  bound := by
    rw [hf.length]
    decide
  command := by
    rw [hf.head]
    decide
  handler := by
    refine ⟨CLibUserFunction.Login, by rw [hf.head]; rfl, ?_⟩
    intro in_buf o _ hpre
    have hlen : sizeofHead ≤ req.length := by
      rw [hf.length]
      decide
    have hten : (Head.ofBytes in_buf).pkglen = 10 := by
      rw [Head.ofBytes_prefix hlen hpre, hf.head]
      rfl
    have hsend : (CLibUserFunction.Login in_buf o).2 = emFunReturnSend := by
      rw [CLibUserFunction.Login, if_neg (by simp [hten])]
    rw [hsend]
    decide

/-- The answer in `out_buf`. -/
def loginResponse (buf : List UInt8) : List UInt8 :=
  buf.take 4 ++ [10, 0] ++ (buf.drop 6).take 2 ++ [1, 0]

theorem loginResponse_length (h : sizeofHead ≤ buf.length) :
    (loginResponse buf).length = sizeofLogin := by
  simp only [sizeofHead] at h
  simp only [loginResponse, sizeofLogin, List.length_append, List.length_take, List.length_drop,
    List.length_cons, List.length_nil]
  omega

theorem loginResponse_head (h : sizeofHead ≤ buf.length) :
    Head.ofBytes (loginResponse buf)
      = { Head.ofBytes buf with pkglen := (sizeofLogin : Int) } := by
  simp only [sizeofHead] at h
  have h₄ : (buf.take 4).length = 4 := by
    rw [List.length_take]
    omega
  have h₂ : ((buf.drop 6).take 2).length = 2 := by
    rw [List.length_take, List.length_drop]
    omega
  have hstx : (loginResponse buf).take 4 = buf.take 4 := by
    simp only [loginResponse, List.append_assoc]
    exact List.take_left' h₄
  have hlen : ((loginResponse buf).drop 4).take 2 = [10, 0] := by
    simp only [loginResponse, List.append_assoc]
    rw [List.drop_append_of_le_length (by omega), List.drop_eq_nil_of_le (by omega)]
    rfl
  have hid : ((loginResponse buf).drop 6).take 2 = (buf.drop 6).take 2 := by
    have hsplit : loginResponse buf
        = (buf.take 4 ++ [10, 0]) ++ ((buf.drop 6).take 2 ++ [1, 0]) := by
      simp only [loginResponse, List.append_assoc]
    have h₆ : (buf.take 4 ++ [10, 0]).length = 6 := by
      rw [List.length_append, h₄]
      rfl
    rw [hsplit, List.drop_left' h₆]
    exact List.take_left' h₂
  simp only [Head.ofBytes, hstx, hlen, hid]
  rfl

theorem loginResponse_of_prefix (hf : LoginRequest req) (hpre : req <+: buf) :
    LoginResponse (loginResponse buf) req := by
  have hlen : sizeofHead ≤ req.length := by
    rw [hf.length]
    decide
  have hbuf : sizeofHead ≤ buf.length := Nat.le_trans hlen hpre.length_le
  have hhead : Head.ofBytes buf = Head.ofBytes req := Head.ofBytes_prefix hlen hpre
  constructor
  · exact loginResponse_length hbuf
  · rw [loginResponse_head hbuf, hhead]
  · rw [loginResponse_head hbuf, hhead]
  · rw [loginResponse_head hbuf, loginResponse_length hbuf]

theorem serve_login (hf : LoginRequest req) {d : Int × List UInt8} (hd : Served d req)
    (q : Out × List Out) :
    ∃ o, serve registered q d = (o, q.2 ++ [o])
      ∧ o = { out_buf := loginResponse d.2 ++ q.1.out_buf.drop 10,
              out_buf_len := addShort q.1.out_buf_len 10 } := by
  obtain ⟨hid, hpre⟩ := hd
  have hlen : sizeofHead ≤ req.length := by
    rw [hf.length]
    decide
  have hten : (Head.ofBytes d.2).pkglen = 10 := by
    rw [Head.ofBytes_prefix hlen hpre, hf.head]
    rfl
  have hlogin : d.1 = emFunLogin := by rw [hid, hf.head]
  have hreg : registered.m_FunPtrList d.1 = some CLibUserFunction.Login := by
    rw [hlogin]
    rfl
  have hbase : emFunBase < d.1 := by
    rw [hlogin]
    decide
  refine ⟨_, ?_, rfl⟩
  simp only [serve, hreg, CLibUserFunction.Login, hten, hbase]
  simp [loginResponse]

end

/-! ## A stream of requests -/

section
variable {s : Session} {reqs chunks : List (List UInt8)}

/-- Over a joined run, the handlers of the requests are dispatched, and the
output side is what they made of it. -/
theorem logins_dispatched (hs : Unused s) (hreq : ∀ f ∈ reqs, LoginRequest f)
    (hflat : chunks.flatten = reqs.flatten) (hj : JoinedRun registered s chunks) :
    ∃ fuel t new, doReads registered fuel s chunks = some t
      ∧ t.dispatched = s.dispatched ++ new ∧ List.Forall₂ Served new reqs
      ∧ t.outgoing = new.foldl (serve registered) s.outgoing := by
  have hnil : s.conn.unread = [] := by
    rw [Conn.unread, hs.in_buf_len]
    rfl
  have hshort : Framing.Short reqs s.conn.unread := by
    intro f hf
    have hlen := (hreq f (List.mem_of_mem_head? hf)).length
    rw [hnil, hlen]
    decide
  obtain ⟨fuel, t, hrun, -, -, new, hnew, hserved⟩ :=
    doReads_frames chunks (fun f hf => (hreq f hf).valid) hs.opened hshort
      (by rw [hnil, hflat, List.nil_append]) hj
  obtain ⟨new', hnew', hout⟩ := doReads_replays hrun
  obtain rfl : new = new' := List.append_cancel_left (hnew.symm.trans hnew')
  exact ⟨fuel, t, new, hrun, hnew, hserved, hout⟩

theorem addShort_ten {n : Int} (h₀ : 0 ≤ n) (h : n ≤ emMaxBuffLen) : addShort n 10 = n + 10 := by
  simp only [emMaxBuffLen] at h
  simp only [addShort]
  omega

theorem payload_length {o : Out} {p : List UInt8} (hsize : o.out_buf.length = emMaxBuffLen)
    (h : payload o = some p) : (p.length : Int) = o.out_buf_len ∧ o.out_buf_len ≤ emMaxBuffLen := by
  unfold payload at h
  split at h
  · rename_i hrange
    cases h
    refine ⟨?_, hrange.2⟩
    rw [List.length_take]
    omega
  · cases h

/-- From a length `n`, each answer queues at least `n + 10` bytes. -/
theorem logins_queue {new : List (Int × List UInt8)} (hserved : List.Forall₂ Served new reqs)
    (hreq : ∀ f ∈ reqs, LoginRequest f) :
    ∀ q : Out × List Out, 0 ≤ q.1.out_buf_len → q.1.out_buf_len ≤ emMaxBuffLen →
      q.1.out_buf.length = emMaxBuffLen →
      ∃ more, (new.foldl (serve registered) q).2 = q.2 ++ more
        ∧ ∀ bytes, queued more = some bytes →
            reqs.length * (q.1.out_buf_len.toNat + 10) ≤ bytes.length := by
  induction hserved with
  | nil =>
      intro q _ _ _
      exact ⟨[], (List.append_nil _).symm, fun bytes _ => by simp⟩
  | @cons d f ds fs hd _ ih =>
      intro q h₀ h₁ hsize
      obtain ⟨o, hserve, ho⟩ := serve_login (hreq f List.mem_cons_self) hd q
      have hbuf : sizeofHead ≤ d.2.length := by
        have hlen := hd.2.length_le
        rw [(hreq f List.mem_cons_self).length] at hlen
        exact Nat.le_trans (by decide) hlen
      have hosize : o.out_buf.length = emMaxBuffLen := by
        have hrsp : (loginResponse d.2).length = 10 := loginResponse_length hbuf
        simp only [ho, List.length_append, List.length_drop, hrsp, hsize]
        decide
      have holen : o.out_buf_len = q.1.out_buf_len + 10 := by
        rw [ho]
        exact addShort_ten h₀ h₁
      have hpos : 0 ≤ o.out_buf_len := by omega
      rw [List.foldl_cons, hserve]
      by_cases hin : o.out_buf_len ≤ emMaxBuffLen
      · obtain ⟨more, hmore, hle⟩ := ih (fun g hg => hreq g (List.mem_cons_of_mem f hg))
          (o, q.2 ++ [o]) hpos hin hosize
        refine ⟨o :: more, by rw [hmore, List.append_assoc]; rfl, ?_⟩
        intro bytes hbytes
        obtain ⟨p, hp, hrest⟩ := Option.bind_eq_some_iff.mp hbytes
        obtain ⟨rest, hqueued, rfl⟩ := Option.map_eq_some_iff.mp hrest
        have hplen := (payload_length hosize hp).1
        have hrestlen : fs.length * (o.out_buf_len.toNat + 10) ≤ rest.length := hle rest hqueued
        have hmul : fs.length * (q.1.out_buf_len.toNat + 10)
            ≤ fs.length * (o.out_buf_len.toNat + 10) := Nat.mul_le_mul_left _ (by omega)
        rw [List.length_append, List.length_cons, Nat.succ_mul]
        omega
      · -- the answer is longer than `out_buf`
        obtain ⟨more, hmore⟩ := serve_sent registered ds (o, q.2 ++ [o])
        refine ⟨o :: more, by rw [← hmore, List.append_assoc]; rfl, ?_⟩
        intro bytes hbytes
        obtain ⟨p, hp, -⟩ := Option.bind_eq_some_iff.mp hbytes
        exact absurd (payload_length hosize hp).2 hin

theorem login_answered {req : List UInt8} (hreq : LoginRequest req) {d : Int × List UInt8}
    (hd : Served d req) {q : Out × List Out} (hlen : q.1.out_buf_len = 0) :
    ∃ o rsp, serve registered q d = (o, q.2 ++ [o]) ∧ o.out_buf_len = 10
      ∧ o.out_buf = rsp ++ q.1.out_buf.drop 10 ∧ LoginResponse rsp req
      ∧ payload o = some rsp := by
  obtain ⟨o, hserve, ho⟩ := serve_login hreq hd q
  have hrsp := loginResponse_of_prefix hreq hd.2
  have holen : o.out_buf_len = 10 := by
    rw [ho, hlen]
    rfl
  have hobuf : o.out_buf = loginResponse d.2 ++ q.1.out_buf.drop 10 := by rw [ho]
  refine ⟨o, loginResponse d.2, hserve, holen, hobuf, hrsp, ?_⟩
  rw [payload, holen, if_pos (by decide), hobuf]
  exact congrArg some (List.take_left' hrsp.length)

theorem responses_length {rsps : List (List UInt8)} (h : List.Forall₂ LoginResponse rsps reqs) :
    rsps.flatten.length = reqs.length * sizeofLogin := by
  induction h with
  | nil => rfl
  | cons hr _ ih =>
      rw [List.flatten_cons, List.length_append, ih, hr.length, List.length_cons, Nat.succ_mul]
      omega

theorem not_responses {q : Out × List Out} {req req' : List UInt8}
    (hsize : q.1.out_buf.length = emMaxBuffLen) (hlen : q.1.out_buf_len = 0) (hsent : q.2 = [])
    (hreq : ∀ f ∈ req :: req' :: reqs, LoginRequest f) {new : List (Int × List UInt8)}
    (hserved : List.Forall₂ Served new (req :: req' :: reqs)) :
    ¬ Responses (new.foldl (serve registered) q).2 (req :: req' :: reqs) := by
  rintro ⟨rsps, hqueued, hrsps⟩
  cases hserved with
  | @cons d _ ds _ hd hds =>
      obtain ⟨o, rsp, hserve, holen, hobuf, hrsp, hpay⟩ :=
        login_answered (hreq req List.mem_cons_self) hd hlen
      have hosize : o.out_buf.length = emMaxBuffLen := by
        rw [hobuf, List.length_append, List.length_drop, hrsp.length, hsize]
        decide
      obtain ⟨more, hmore, hle⟩ := logins_queue hds
        (fun g hg => hreq g (List.mem_cons_of_mem req hg)) (o, q.2 ++ [o])
        (by rw [holen]; decide) (by rw [holen]; decide) hosize
      rw [List.foldl_cons, hserve, hmore, hsent] at hqueued
      have hqueued' : queued (o :: more) = some rsps.flatten := hqueued
      obtain ⟨p, hp, hrest⟩ := Option.bind_eq_some_iff.mp hqueued'
      obtain ⟨rest, hrestq, hflat⟩ := Option.map_eq_some_iff.mp hrest
      obtain rfl : rsp = p := Option.some.inj (hpay.symm.trans hp)
      have hrestlen : (req' :: reqs).length * (o.out_buf_len.toNat + 10) ≤ rest.length :=
        hle rest hrestq
      have htotal := responses_length hrsps
      have htwenty : (10 : Int).toNat + 10 = 20 := rfl
      rw [← hflat, List.length_append, hrsp.length] at htotal
      simp only [List.length_cons, holen, htwenty, sizeofLogin] at htotal hrestlen
      omega

theorem responses_of_one {q : Out × List Out} (hlen : q.1.out_buf_len = 0) (hsent : q.2 = [])
    (hreq : ∀ f ∈ reqs, LoginRequest f) {new : List (Int × List UInt8)}
    (hserved : List.Forall₂ Served new reqs) (hfew : reqs.length ≤ 1) :
    Responses (new.foldl (serve registered) q).2 reqs := by
  cases hserved with
  | nil => exact ⟨[], by rw [List.foldl_nil, hsent]; rfl, .nil⟩
  | @cons d req ds reqs hd hds =>
      obtain rfl : reqs = [] :=
        List.length_eq_zero_iff.mp (Nat.le_zero.mp (Nat.le_of_succ_le_succ hfew))
      cases hds
      obtain ⟨o, rsp, hserve, -, -, hrsp, hpay⟩ :=
        login_answered (hreq req List.mem_cons_self) hd hlen
      refine ⟨[rsp], ?_, .cons hrsp .nil⟩
      rw [List.foldl_cons, hserve, hsent]
      simp [queued, hpay]

theorem out_buf_len_of_one {q : Out × List Out} (hlen : q.1.out_buf_len = 0)
    (hreq : ∀ f ∈ reqs, LoginRequest f) {new done : List (Int × List UInt8)}
    (hserved : List.Forall₂ Served new reqs) (hfew : reqs.length ≤ 1) (hpre : done <+: new) :
    0 ≤ (done.foldl (serve registered) q).1.out_buf_len
      ∧ (done.foldl (serve registered) q).1.out_buf_len ≤ emMaxBuffLen := by
  cases done with
  | nil =>
      rw [List.foldl_nil, hlen]
      decide
  | cons d done =>
      cases hserved with
      | nil => exact absurd (List.prefix_nil.mp hpre) (List.cons_ne_nil d done)
      | @cons d' req ds reqs hd hds =>
          obtain rfl : reqs = [] :=
            List.length_eq_zero_iff.mp (Nat.le_zero.mp (Nat.le_of_succ_le_succ hfew))
          cases hds
          obtain ⟨rfl, hnil⟩ := List.cons_prefix_cons.mp hpre
          obtain rfl := List.prefix_nil.mp hnil
          obtain ⟨o, rsp, hserve, holen, -, -, -⟩ :=
            login_answered (hreq req List.mem_cons_self) hd hlen
          rw [List.foldl_cons, hserve, List.foldl_nil, holen]
          decide

theorem few_of_answered (hs : Unused s) (hreq : ∀ f ∈ reqs, LoginRequest f)
    (hflat : chunks.flatten = reqs.flatten) (hj : JoinedRun registered s chunks)
    (hans : Answered s reqs chunks) : reqs.length ≤ 1 := by
  obtain ⟨fuel, t, new, hrun, -, hserved, hout⟩ := logins_dispatched hs hreq hflat hj
  obtain ⟨⟨fuel', t', hrun', hrsps⟩, -⟩ := hans
  have h₁ := doReads_mono (Nat.le_max_left fuel fuel') hrun
  have h₂ := doReads_mono (Nat.le_max_right fuel fuel') hrun'
  obtain rfl : t = t' := Option.some.inj (h₁.symm.trans h₂)
  have hsent : t.sent = (new.foldl (serve registered) s.outgoing).2 := congrArg Prod.snd hout
  by_contra hmany
  cases reqs with
  | nil => exact hmany (Nat.zero_le 1)
  | cons req reqs =>
      cases reqs with
      | nil => exact hmany (Nat.le_refl 1)
      | cons req' reqs =>
          rw [hsent] at hrsps
          exact not_responses hs.out_buf hs.out_buf_len hs.sent hreq hserved hrsps

theorem answered_of_few (hs : Unused s) (hreq : ∀ f ∈ reqs, LoginRequest f)
    (hflat : chunks.flatten = reqs.flatten) (hj : JoinedRun registered s chunks)
    (hfew : reqs.length ≤ 1) : Answered s reqs chunks := by
  obtain ⟨fuel, t, new, hrun, hnew, hserved, hout⟩ := logins_dispatched hs hreq hflat hj
  have hsent : t.sent = (new.foldl (serve registered) s.outgoing).2 := congrArg Prod.snd hout
  constructor
  · refine ⟨fuel, t, hrun, ?_⟩
    rw [hsent]
    exact responses_of_one hs.out_buf_len hs.sent hreq hserved hfew
  · intro pre post hsplit fuel' u hu
    -- what was dispatched before the cut is the beginning of what is dispatched
    have hrun' := doReads_mono (Nat.le_max_left fuel fuel') hrun
    rw [hsplit, doReads_append] at hrun'
    obtain ⟨u', hu', hpost⟩ := Option.bind_eq_some_iff.mp hrun'
    have hmax := doReads_mono (Nat.le_max_right fuel fuel') hu
    obtain rfl : u = u' := Option.some.inj (hmax.symm.trans hu')
    obtain ⟨done, hdone, houtu⟩ := doReads_replays hu
    obtain ⟨left, hleft, -⟩ := doReads_replays hpost
    have hpre : done <+: new := by
      rw [hdone, hnew, List.append_assoc] at hleft
      exact ⟨left, (List.append_cancel_left hleft).symm⟩
    have hulen : u.conn.out = (done.foldl (serve registered) s.outgoing).1 :=
      congrArg Prod.fst houtu
    rw [hulen]
    exact out_buf_len_of_one hs.out_buf_len hreq hserved hfew hpre

/-- **The response stream.**  Login requests on an unused connection, in chunks
each of which is joined, are answered as they should be exactly if there is at
most one of them. -/
theorem login_responses_iff (s : Session) (reqs chunks : List (List UInt8)) (hs : Unused s)
    (hreq : ∀ f ∈ reqs, LoginRequest f) (hflat : chunks.flatten = reqs.flatten)
    (hj : JoinedRun registered s chunks) : Answered s reqs chunks ↔ reqs.length ≤ 1 :=
  ⟨few_of_answered hs hreq hflat hj, answered_of_few hs hreq hflat hj⟩

end

/-! ## One login, and two -/

theorem unused_fresh : Unused fresh where
  in_buf_len := rfl
  out_buf := List.length_replicate
  out_buf_len := rfl
  opened := rfl
  sent := rfl

theorem login_request : LoginRequest login where
  length := rfl
  head := by decide

theorem joined_logins (n : Nat) : JoinedRun registered fresh (List.replicate n login) := by
  have hgroups : (List.replicate n [login]).map List.flatten = List.replicate n login := by
    rw [List.map_replicate]
    rfl
  rw [← hgroups]
  refine joinedRun_of_whole _ ?_ ?_ rfl rfl
  · intro g hg f hf
    obtain rfl := List.eq_of_mem_replicate hg
    obtain rfl := List.mem_singleton.mp hf
    exact login_valid
  · intro g hg
    obtain rfl := List.eq_of_mem_replicate hg
    decide

theorem login_responses_one : Answered fresh [login] [login] ↔ [login].length ≤ 1 :=
  login_responses_iff fresh [login] [login] unused_fresh (by simp [login_request]) rfl
    (joined_logins 1)

/-- The second answer has twenty bytes. -/
theorem second_login_padded :
    Unused fresh ∧ (∀ f ∈ [login, login], LoginRequest f)
      ∧ JoinedRun registered fresh [login, login]
      ∧ ¬ Answered fresh [login, login] [login, login] := by
  have hreq : ∀ f ∈ [login, login], LoginRequest f := by simp [login_request]
  refine ⟨unused_fresh, hreq, joined_logins 2, fun hans => ?_⟩
  exact absurd (few_of_answered unused_fresh hreq rfl (joined_logins 2) hans) (by decide)

end CppWorkspace.LibeventServer
