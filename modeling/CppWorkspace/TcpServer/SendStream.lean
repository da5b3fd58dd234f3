/-
# `CppWorkspace.TcpServer.SendStream` — what is sent on a connection

One call: `IssueSendOperation` splits the data into blocks of
`DEFAULT_TCP_SEND_CONTEXT_SIZE` bytes, but `SetSendParameters` sets the length of
the buffer to the whole count that is left, and `pData` does not move.  With more
than one block the rounds post more bytes than their blocks have (`posts_data_iff`).

Many calls: each completion of a send is answered with another send, a block of 512
bytes.  The payloads on a connection are the data of the calls in their order, with one
such answer for each completion somewhere in between (`streaming_quiescent`); they are
the data of the calls alone if no completion is handled (`send_stream_iff`).
-/
import CppWorkspace.TcpServer.Replenish

namespace CppWorkspace.TcpServer

open Programs Runs

/-- The bytes that are sent. -/
def Sent.payload (s : Sent) : List UInt8 := s.block.take s.len

/-! ## One call -/

/-- What the rounds post for `n` bytes: in each round the first block of the data,
with the length of all that is left. -/
inductive Rounds (h : SOCKET) (data : List UInt8) : Nat → List Sent → Prop
  | last {n : Nat} {block : List UInt8} : n ≤ DEFAULT_TCP_SEND_CONTEXT_SIZE →
      block.take n = data.take n → Rounds h data n [⟨h, block, n⟩]
  | more {n : Nat} {block : List UInt8} {posted : List Sent} :
      DEFAULT_TCP_SEND_CONTEXT_SIZE < n →
      block.take DEFAULT_TCP_SEND_CONTEXT_SIZE = data.take DEFAULT_TCP_SEND_CONTEXT_SIZE →
      Rounds h data (n - DEFAULT_TCP_SEND_CONTEXT_SIZE) posted →
      Rounds h data n (⟨h, block, n⟩ :: posted)

namespace Context

variable {x : Context} {h : SOCKET} {data : List UInt8} {n : Nat}

theorem setSendParameters_some (hn : n ≠ 0) : x.SetSendParameters h (some data) n =
    (⟨h, data.take (min n DEFAULT_TCP_SEND_CONTEXT_SIZE) ++
        x.m_pSendDataBuf.drop (min n DEFAULT_TCP_SEND_CONTEXT_SIZE), n⟩,
      n - min n DEFAULT_TCP_SEND_CONTEXT_SIZE) :=
  if_pos hn

end Context

section
variable {cls : Class} {t : Nat} {e : Event} {h : SOCKET} {conn : Nat} {data : List UInt8}

@[simp] theorem Server.setContext_context_self {σ : Server} {k : Kind} {c : Nat} {x : Context} :
    (σ.setContext k c x).context k c = x := by
  change (Pool.setPool σ.pool k ((σ.pool k).set c x) k).context c = x
  rw [Pool.setPool_self, Pool.set_context_self]

theorem exec_wsaSend {σ : Server} {c : Nat} {x : Context} (hx : σ.context .send c = x)
    (hopen : σ.sockets x.m_hSocket = some conn) :
    exec t e (.WSASend c) σ .ok = some ({ σ with
      flight := ⟨.send, c, x.m_hSocket, conn⟩ :: σ.flight
      held := σ.held.erase ⟨t, .send, c⟩
      sends := σ.sends ++ [⟨x.m_hSocket, x.m_pSendDataBuf, x.len⟩] }, true) := by
  subst hx
  simp only [exec, Server.post, hopen, Option.map_some]

theorem alone_sendLoop (cls : Class) (t : Nat) (e : Event) (data : List UInt8)
    (rounds n : Nat) {σ : Server} (hopen : σ.sockets h = some conn) :
    ∃ x : Context, ∃ σ₁ : Server, σ₁.sockets h = some conn ∧
      σ₁.sends = σ.sends ++ [⟨h, (x.SetSendParameters h (some data) n).1.m_pSendDataBuf,
        (x.SetSendParameters h (some data) n).1.len⟩] ∧ ∀ k,
      (system cls).alone t e (sendLoop h data (rounds + 1) n) (List.replicate (k + 3) .ok) σ =
        (system cls).alone t e
          (if (x.SetSendParameters h (some data) n).2 ≠ 0 then
            sendLoop h data rounds (x.SetSendParameters h (some data) n).2 else pure true)
          (List.replicate k .ok) σ₁ := by
  let c := (σ.GetContext t .send 0).2
  let x := (σ.GetContext t .send 0).1.context .send c
  let y := (x.SetSendParameters h (some data) n).1
  let σ₀ := (σ.GetContext t .send 0).1.setContext .send c y
  have hy : y.m_hSocket = h := Context.setSendParameters_m_hSocket ..
  have hopen₀ : σ₀.sockets y.m_hSocket = some conn := hy.symm ▸ hopen
  have hsend := exec_wsaSend (t := t) (e := e) Server.setContext_context_self hopen₀
  rw [hy] at hsend
  refine ⟨x, { σ₀ with
    flight := ⟨.send, c, h, conn⟩ :: σ₀.flight, held := σ₀.held.erase ⟨t, .send, c⟩
    sends := σ.sends ++ [⟨h, y.m_pSendDataBuf, y.len⟩] }, hopen, rfl, fun k => ?_⟩
  change (exec t e (.WSASend c) σ₀ .ok).bind _ = _
  rw [hsend]
  rfl

/-- The rounds for `n` bytes, in a state in which the socket is open. -/
theorem alone_rounds {rounds n : Nat} {σ : Server} (hopen : σ.sockets h = some conn)
    (hn : 0 < n) (hrounds : n ≤ rounds) (hlen : n ≤ data.length) :
    ∃ k σ' posted, (system cls).alone t e (sendLoop h data rounds n) (List.replicate k .ok) σ =
      some (σ', true) ∧ σ'.sends = σ.sends ++ posted ∧ Rounds h data n posted := by
  induction rounds generalizing n σ with
  | zero => exact absurd hrounds (Nat.not_le.mpr hn)
  | succ rounds ih =>
      obtain ⟨x, σ₁, hopen₁, hsends, hrun⟩ :=
        alone_sendLoop cls t e data rounds n hopen
      rw [Context.setSendParameters_some hn.ne'] at hrun hsends
      by_cases hsmall : n ≤ DEFAULT_TCP_SEND_CONTEXT_SIZE
      · rw [Nat.min_eq_left hsmall] at hrun hsends
        refine ⟨3, σ₁, _, (hrun 0).trans ?_, hsends, .last hsmall ?_⟩
        · rw [if_neg (by simp)]
          rfl
        · exact List.take_left' (by rw [List.length_take, Nat.min_eq_left hlen])
      · have hlarge := Nat.lt_of_not_le hsmall
        have hpos : 0 < DEFAULT_TCP_SEND_CONTEXT_SIZE := by decide
        rw [Nat.min_eq_right hlarge.le] at hrun hsends
        dsimp only at hrun hsends
        obtain ⟨k, σ', posted, hrest, hsends', hposted⟩ :=
          ih (n := n - DEFAULT_TCP_SEND_CONTEXT_SIZE) hopen₁ (Nat.sub_pos_of_lt hlarge)
            (by omega) (by omega)
        refine ⟨k + 3, σ', ⟨h, data.take DEFAULT_TCP_SEND_CONTEXT_SIZE ++
          x.m_pSendDataBuf.drop DEFAULT_TCP_SEND_CONTEXT_SIZE, n⟩ :: posted,
          (hrun k).trans ?_, ?_, .more hlarge ?_ hposted⟩
        · rw [if_pos (Nat.sub_pos_of_lt hlarge).ne']
          exact hrest
        · rw [hsends', hsends, List.append_assoc]
          rfl
        · exact List.take_left' (by rw [List.length_take]; omega)

/-- The buffers are of the size of their blocks, and hold the data, if there is one. -/
theorem Rounds.exact_iff {n : Nat} {posted : List Sent} (hposted : Rounds h data n posted) :
    (∀ s ∈ posted, s.len ≤ DEFAULT_TCP_SEND_CONTEXT_SIZE) ∧
      (posted.map Sent.payload).flatten = data.take n ↔ n ≤ DEFAULT_TCP_SEND_CONTEXT_SIZE := by
  cases hposted with
  | last hsmall hblock =>
      refine ⟨fun _ => hsmall, fun _ => ⟨?_, ?_⟩⟩
      · intro s hs
        rwa [List.mem_singleton.mp hs]
      · rw [List.map_singleton, List.flatten_singleton]
        exact hblock
  | more hlarge _ _ =>
      constructor
      · intro hall
        exact hall.1 _ List.mem_cons_self
      · intro hsmall
        exact absurd hsmall (Nat.not_le.mpr hlarge)

theorem alone_issueSendOperation {n : Nat} {σ : Server} (hopen : σ.sockets h = some conn)
    (hn : 0 < n) (hlen : n ≤ data.length) :
    ∃ k σ' posted, (system cls).alone t e (IssueSendOperation h data n) (List.replicate k .ok) σ =
      some (σ', true) ∧ σ'.sends = σ.sends ++ posted ∧ Rounds h data n posted := by
  unfold IssueSendOperation
  rw [if_pos hn.ne']
  exact alone_rounds hopen hn (Nat.le_refl n) hlen

end

/-- `IssueSendOperation` with every `WSASend` accepted: the buffers that it posts fit
into their blocks and hold the data, if and only if one block is enough. -/
theorem posts_data_iff {cls : Class} {t : Nat} {e : Event} {h : SOCKET} {conn n : Nat}
    {data : List UInt8} {σ : Server} (hopen : σ.sockets h = some conn) (hn : 0 < n)
    (hlen : n ≤ data.length) :
    ∃ k σ' posted, (system cls).alone t e (IssueSendOperation h data n) (List.replicate k .ok) σ =
      some (σ', true) ∧ σ'.sends = σ.sends ++ posted ∧
      ((∀ s ∈ posted, s.len ≤ DEFAULT_TCP_SEND_CONTEXT_SIZE) ∧
        (posted.map Sent.payload).flatten = data.take n ↔ n ≤ DEFAULT_TCP_SEND_CONTEXT_SIZE) := by
  obtain ⟨k, σ', posted, hrun, hsends, hposted⟩ := alone_issueSendOperation hopen hn hlen
  exact ⟨k, σ', posted, hrun, hsends, hposted.exact_iff⟩

/-- Socket 1 is open, and nothing else has happened. -/
def oneSocket : Server := { Server.start 9 with sockets := Pool.write (fun _ => none) 1 (some 0) }

theorem posts_data_iff_one : ∃ k σ' posted, (system .CTcpServer).alone 0 .TimerProc
    (IssueSendOperation 1 [7] 1) (List.replicate k .ok) oneSocket = some (σ', true) ∧
    σ'.sends = posted ∧ (∀ s ∈ posted, s.len ≤ DEFAULT_TCP_SEND_CONTEXT_SIZE) ∧
    (posted.map Sent.payload).flatten = [7] := by
  obtain ⟨k, σ', posted, hrun, hsends, hiff⟩ : ∃ k σ' posted,
      (system .CTcpServer).alone 0 .TimerProc (IssueSendOperation 1 [7] 1)
        (List.replicate k .ok) oneSocket = some (σ', true) ∧ _ :=
    posts_data_iff rfl (by decide) (by decide)
  exact ⟨k, σ', posted, hrun, hsends, hiff.mpr (by decide)⟩

/-- 4097 bytes: the first buffer is longer than its block. -/
theorem posts_beyond_block : ∃ k σ' s rest, (system .CTcpServer).alone 0 .TimerProc
    (IssueSendOperation 1 (List.replicate 4097 7) 4097) (List.replicate k .ok) oneSocket =
      some (σ', true) ∧ σ'.sends = s :: rest ∧ s.len = 4097 ∧
    ¬ s.len ≤ DEFAULT_TCP_SEND_CONTEXT_SIZE := by
  obtain ⟨k, σ', posted, hrun, hsends, hposted⟩ : ∃ k σ' posted,
      (system .CTcpServer).alone 0 .TimerProc (IssueSendOperation 1 (List.replicate 4097 7) 4097)
        (List.replicate k .ok) oneSocket = some (σ', true) ∧ _ :=
    alone_issueSendOperation rfl (by decide) (by rw [List.length_replicate])
  cases hposted with
  | last hsmall _ => exact absurd hsmall (by decide)
  | more hlarge _ _ => exact ⟨k, σ', _, _, hrun, hsends, rfl, Nat.not_le.mpr hlarge⟩

/-! ## Calls and completions -/

/-- The bytes that a call of `SendData` has to send. -/
def Event.data : Event → Option (List UInt8)
  | .SendData _ (some data) => if data.length ≠ 0 then some data else none
  | _ => none

def Event.calls : Event → Bool
  | .SendData _ _ => true
  | _ => false

def Event.completes : Event → Bool
  | .completion op _ _ => op.kind = .send
  | _ => false

/-- What was sent on a socket. -/
def Server.payloads (σ : Server) (h : SOCKET) : List (List UInt8) :=
  (σ.sends.filter fun s => s.h = h).map Sent.payload

/-- The sends in flight on a socket. -/
def Server.sending (σ : Server) (h : SOCKET) : Nat :=
  σ.flight.countP fun op => op.kind = .send ∧ op.h = h

/-- Nothing but calls of `SendData` with at most one block, one after the other, and
completions of sends, all on the socket `h`; everything succeeds. -/
def OnlySends (h : SOCKET) (m : Machine) : Action → Prop
  | .run _ x => x = .ok
  | .begin _ (.SendData sock pVoid) =>
      sock = h ∧ (pVoid.getD []).length ≤ DEFAULT_TCP_SEND_CONTEXT_SIZE ∧
        ∀ o ∈ m.threads, ∀ q ∈ o, q.1.calls = false
  | .begin _ (.completion op bResult _) => bResult = true ∧ op.kind = .send ∧ op.h = h
  | .begin _ _ => False
  | .finish _ => True

instance (h : SOCKET) (m : Machine) : (a : Action) → Decidable (OnlySends h m a)
  | .run _ x => inferInstanceAs (Decidable (x = .ok))
  | .begin _ (.SendData _ _) => inferInstanceAs (Decidable (_ ∧ _ ∧ ∀ o ∈ _, ∀ q ∈ o, _ = _))
  | .begin _ (.completion _ _ _) => inferInstanceAs (Decidable (_ ∧ _ ∧ _))
  | .begin _ .InitServer | .begin _ .FD_ACCEPT | .begin _ .semaphore | .begin _ .TimerProc
  | .begin _ (.SendFile _) => instDecidableFalse
  | .finish _ => instDecidableTrue

/-! ## What the threads know

A thread that holds a send context knows its contents (`Block`), and a thread that
has still to send owns that: the data of its call, or `none` for the answer to a
completion.  No other thread writes to a context that is held. -/

/-- A block that waits in a context, and who holds it. -/
structure Block where
  thread : Nat
  ctx : Nat
  contents : Context

def Block.holding (b : Block) : Holding := ⟨b.thread, .send, b.ctx⟩

/-- What goes out for a call, and for a completion. -/
def wire (o : Option (List UInt8)) : List UInt8 := o.getD testBuf

/-- The log `l` of what was sent on `h`, and what is still to be sent, are the calls and
the completions so far; `before` and `n` are the payloads and the sends at the start. -/
structure Streaming (h : SOCKET) (before : List (List UInt8)) (n : Nat) (σ : Server)
    (es : List Event) (B : Multiset Block) (O : Multiset (Option (List UInt8))) : Prop where
  registered : h ∈ σ.m_mapAcceptSockQueue
  held : B.map Block.holding ≤ (σ.held : Multiset Holding)
  contents : ∀ b ∈ B, σ.context .send b.ctx = b.contents
  stream : ∃ l : List (Option (List UInt8)), σ.payloads h = before ++ l.map wire ∧
    (∃ d : List (List UInt8), (d : Multiset (List UInt8)) = O.filterMap id ∧ d.length ≤ 1 ∧
      l.filterMap id ++ d = es.filterMap Event.data) ∧
    l.count none + O.count none = es.countP Event.completes ∧
    σ.sending h + es.countP Event.completes = n + l.length

namespace Streaming

variable {h : SOCKET} {before : List (List UInt8)} {n : Nat} {σ : Server} {es : List Event}
  {B : Multiset Block} {O : Multiset (Option (List UInt8))} {t c : Nat} {x y : Context}

theorem exclusive (H : Streaming h before n σ es (⟨t, c, x⟩ ::ₘ B) O)
    (hwhole : (σ.pool .send).Whole (elsewhere σ.flight σ.held .send)) : ∀ b ∈ B, b.ctx ≠ c := by
  intro b hb heq
  obtain ⟨B', rfl⟩ := Multiset.exists_cons_of_mem hb
  have honce := hwhole.once c
  have htwo : 2 ≤ σ.held.countP fun x => x.kind = .send ∧ x.ctx = c := by
    have hle := Multiset.countP_le_of_le (fun x : Holding => x.kind = .send ∧ x.ctx = c) H.held
    rw [Multiset.map_cons, Multiset.map_cons, Multiset.countP_cons_of_pos _ ⟨rfl, rfl⟩,
      Multiset.countP_cons_of_pos _ ⟨rfl, heq⟩, Multiset.coe_countP] at hle
    omega
  rw [elsewhere] at honce
  omega

theorem frame {σ' : Server} {B' : Multiset Block} (H : Streaming h before n σ es B O)
    (hmap : σ'.m_mapAcceptSockQueue = σ.m_mapAcceptSockQueue) (hsends : σ'.sends = σ.sends)
    (hflight : σ'.flight = σ.flight)
    (hheld : B'.map Block.holding ≤ (σ'.held : Multiset Holding))
    (hcontents : ∀ b ∈ B', σ'.context .send b.ctx = b.contents) :
    Streaming h before n σ' es B' O := by
  obtain ⟨l, hpayloads, hcalls, hcount, hsending⟩ := H.stream
  refine ⟨hmap ▸ H.registered, hheld, hcontents, l, ?_, hcalls, hcount, ?_⟩
  · rw [Server.payloads, hsends]
    exact hpayloads
  · rw [Server.sending, hflight]
    exact hsending

theorem get (H : Streaming h before n σ es B O) :
    Streaming h before n (σ.GetContext t .send 0).1 es
      (⟨t, (σ.GetContext t .send 0).2,
        (σ.GetContext t .send 0).1.context .send (σ.GetContext t .send 0).2⟩ ::ₘ B) O := by
  have hctx : ∀ c, (σ.GetContext t .send 0).1.context .send c = σ.context .send c := by
    intro c
    change (Pool.setPool σ.pool .send ((σ.pool .send).GetContext.2.set _ _) .send).context c = _
    rw [Pool.setPool_context Pool.getContext_context]
    split
    · rename_i heq
      obtain ⟨-, rfl⟩ := heq
      rfl
    · rfl
  refine H.frame rfl rfl rfl ?_ ?_
  · rw [Multiset.map_cons]
    exact Multiset.cons_le_cons _ H.held
  · intro b hb
    rcases Multiset.mem_cons.mp hb with rfl | hb
    · rfl
    · rw [hctx]
      exact H.contents b hb

theorem set (H : Streaming h before n σ es (⟨t, c, x⟩ ::ₘ B) O)
    (hwhole : (σ.pool .send).Whole (elsewhere σ.flight σ.held .send)) :
    Streaming h before n (σ.setContext .send c y) es (⟨t, c, y⟩ ::ₘ B) O := by
  refine H.frame rfl rfl rfl ?_ ?_
  · have hheld := H.held
    rwa [Multiset.map_cons] at hheld ⊢
  · intro b hb
    rcases Multiset.mem_cons.mp hb with rfl | hb
    · exact Server.setContext_context_self
    · change (Pool.setPool σ.pool .send ((σ.pool .send).set c y) .send).context b.ctx = _
      rw [Pool.setPool_context rfl, if_neg fun heq => H.exclusive hwhole b hb heq.2]
      exact H.contents b (Multiset.mem_cons_of_mem hb)

theorem held_erase (H : Streaming h before n σ es (⟨t, c, x⟩ ::ₘ B) O) :
    B.map Block.holding ≤ ((σ.held.erase ⟨t, .send, c⟩ : List Holding) : Multiset Holding) := by
  have hle := Multiset.erase_le_erase (⟨t, .send, c⟩ : Holding) H.held
  rw [Multiset.map_cons, Multiset.coe_erase] at hle
  rwa [show (⟨t, c, x⟩ : Block).holding = ⟨t, .send, c⟩ from rfl, Multiset.erase_cons_head] at hle

theorem release (H : Streaming h before n σ es (⟨t, c, x⟩ ::ₘ B) O)
    (hwhole : (σ.pool .send).Whole (elsewhere σ.flight σ.held .send)) :
    Streaming h before n (σ.ReleaseContext t .send c) es B O := by
  refine H.frame rfl rfl rfl H.held_erase ?_
  intro b hb
  change (Pool.setPool σ.pool .send (((σ.pool .send).ReleaseContext c).set c _) .send).context
    b.ctx = _
  rw [Pool.setPool_context Pool.releaseContext_context,
    if_neg fun heq => H.exclusive hwhole b hb heq.2]
  exact H.contents b (Multiset.mem_cons_of_mem hb)

theorem send {o : Option (List UInt8)} (H : Streaming h before n σ es (⟨t, c, x⟩ ::ₘ B) (o ::ₘ O))
    (hx : x.m_hSocket = h) (hpayload : x.m_pSendDataBuf.take x.len = wire o) (conn : Nat) :
    Streaming h before n { σ with
      flight := ⟨.send, c, x.m_hSocket, conn⟩ :: σ.flight, held := σ.held.erase ⟨t, .send, c⟩
      sends := σ.sends ++ [⟨x.m_hSocket, x.m_pSendDataBuf, x.len⟩] } es B O := by
  obtain ⟨l, hpayloads, ⟨d, hd, hone, hcalls⟩, hcount, hsending⟩ := H.stream
  refine ⟨H.registered, H.held_erase, fun b hb => H.contents b (Multiset.mem_cons_of_mem hb),
    l ++ [o], ?_, ?_, ?_, ?_⟩
  · have hnew : (⟨x.m_hSocket, x.m_pSendDataBuf, x.len⟩ : Sent).payload = wire o := hpayload
    rw [Server.payloads] at hpayloads
    simp only [Server.payloads, List.filter_append, List.map_append, hpayloads, hx,
      List.filter_cons, decide_true, if_true, List.filter_nil, List.map_cons, List.map_nil,
      List.append_assoc, ← hnew]
  · cases o with
    | none =>
        rw [Multiset.filterMap_cons_none _ _ rfl] at hd
        exact ⟨d, hd, hone, by simpa using hcalls⟩
    | some a =>
        rw [Multiset.filterMap_cons_some id (some a) O rfl] at hd
        have hcard := congrArg Multiset.card hd
        rw [Multiset.card_cons, Multiset.coe_card] at hcard
        have hzero : O.filterMap id = 0 := Multiset.card_eq_zero.mp (by omega)
        rw [hzero, Multiset.cons_zero, Multiset.coe_eq_singleton] at hd
        refine ⟨[], hzero.symm, Nat.zero_le 1, ?_⟩
        rw [← hcalls, hd]
        simp
  · rw [List.count_append, List.count_singleton, ← hcount, Multiset.count_cons]
    simp only [beq_iff_eq, eq_comm (a := o)]
    omega
  · have hsent : (⟨.send, c, x.m_hSocket, conn⟩ :: σ.flight).countP
        (fun op => op.kind = .send ∧ op.h = h) = σ.sending h + 1 :=
      List.countP_cons_of_pos (by simpa using hx)
    rw [List.length_append, List.length_singleton, Server.sending, hsent]
    omega

theorem call {e : Event} {answers : Nat → Nat} (H : Streaming h before n σ es B O)
    (he : e.completes = false) (hO : ∀ d, some d ∉ O) :
    Streaming h before n { σ with answers := answers } (es ++ [e]) B
      ((e.data.elim 0 fun d => {some d}) + O) := by
  obtain ⟨l, hpayloads, ⟨d, hd, -, hcalls⟩, hcount, hsending⟩ := H.stream
  have hzero : O.filterMap id = 0 := by
    refine Multiset.eq_zero_of_forall_notMem fun a ha => ?_
    obtain ⟨o, ho, rfl⟩ := (Multiset.mem_filterMap _ _).mp ha
    exact hO a ho
  rw [hzero, Multiset.coe_eq_zero] at hd
  rw [hd, List.append_nil] at hcalls
  have hcompletes : (es ++ [e]).countP Event.completes = es.countP Event.completes := by
    rw [List.countP_append, List.countP_singleton, if_neg (by simp [he]), Nat.add_zero]
  refine ⟨H.registered, H.held, H.contents, l, hpayloads, ?_, ?_, ?_⟩
  · rw [List.filterMap_append, hcalls]
    cases hdata : e.data with
    | none =>
        refine ⟨[], ?_, Nat.zero_le 1, ?_⟩
        · rw [Option.elim_none, zero_add, hzero]
          rfl
        · rw [List.filterMap_cons_none hdata]
          rfl
    | some a =>
        refine ⟨[a], ?_, Nat.le_refl 1, ?_⟩
        · rw [Option.elim_some, Multiset.singleton_add,
            Multiset.filterMap_cons_some id (some a) O rfl, hzero]
          rfl
        · rw [List.filterMap_cons_some hdata]
          rfl
  · rw [hcompletes, ← hcount]
    cases e.data with
    | none => rw [Option.elim_none, zero_add]
    | some a => rw [Option.elim_some, Multiset.singleton_add, Multiset.count_cons_of_ne (by simp)]
  · rw [hcompletes]
    exact hsending

theorem complete {op : Op} {b : Bool} {data : List UInt8} {answers : Nat → Nat}
    (H : Streaming h before n σ es B O) (hop : op ∈ σ.flight) (hk : op.kind = .send)
    (hh : op.h = h) :
    Streaming h before n { σ with
      flight := σ.flight.erase op, held := ⟨t, op.kind, op.ctx⟩ :: σ.held, answers := answers }
      (es ++ [.completion op b data]) (⟨t, op.ctx, σ.context .send op.ctx⟩ ::ₘ B) (none ::ₘ O) := by
  obtain ⟨l, hpayloads, ⟨d, hd, hone, hcalls⟩, hcount, hsending⟩ := H.stream
  have hcompletes : (es ++ [Event.completion op b data]).countP Event.completes =
      es.countP Event.completes + 1 := by
    rw [List.countP_append, List.countP_singleton, if_pos (by simpa [Event.completes] using hk)]
  refine ⟨H.registered, ?_, ?_, l, hpayloads, ⟨d, ?_, hone, ?_⟩, ?_, ?_⟩
  · rw [Multiset.map_cons, Block.holding, ← hk]
    exact Multiset.cons_le_cons _ H.held
  · intro b' hb
    rcases Multiset.mem_cons.mp hb with rfl | hb
    · rfl
    · exact H.contents b' hb
  · rw [Multiset.filterMap_cons_none _ _ rfl]
    exact hd
  · rw [List.filterMap_append, hcalls]
    exact (List.append_nil _).symm
  · rw [hcompletes, Multiset.count_cons_self, ← hcount, Nat.add_assoc]
  · have hsent : σ.sending h = (op :: σ.flight.erase op).countP
        (fun op => op.kind = .send ∧ op.h = h) := (List.perm_cons_erase hop).countP_eq _
    rw [List.countP_cons_of_pos (by simpa using ⟨hk, hh⟩)] at hsent
    rw [hcompletes]
    change List.countP _ (σ.flight.erase op) + _ = _
    omega

end Streaming

/-- The rules for runs in which everything succeeds.  Who owes the data of a call is
inside that call. -/
def streaming (cls : Class) (h : SOCKET) (before : List (List UInt8)) (n : Nat) :
    Logic (Server × List Event) Cmd Cmd.Reply Choice Event Unit
      (Multiset Block × Multiset (Option (List UInt8))) where
  toSystem := (system cls).recorded
  Inv σ R := Streaming h before n σ.1 σ.2 R.1 R.2
  Pre _ e _ _ r := ∀ d, some d ∈ r.2 → e.calls = true
  ok _ _ _ σ _ x := x = .ok ∧ (σ.1.pool .send).Whole (elsewhere σ.1.flight σ.1.held .send)

section
variable {cls : Class} {h : SOCKET} {before : List (List UInt8)} {n : Nat} {t : Nat} {e : Event}
  {B : Multiset Block} {O : Multiset (Option (List UInt8))}

theorem does_streaming {c : Cmd} {P : c.Reply → Multiset Block → Multiset _ → Prop}
    (hO : ∀ d, some d ∈ O → e.calls = true)
    (hrun : ∀ σ es F G, (σ.pool .send).Whole (elsewhere σ.flight σ.held .send) →
      Streaming h before n σ es (B + F) (O + G) → ∀ σ' v, exec t e c σ .ok = some (σ', v) →
      ∃ B' O', Streaming h before n σ' es (B' + F) (O' + G) ∧ P v B' O') :
    Does (streaming cls h before n) t e c (B, O) fun v r => P v r.1 r.2 := by
  rintro ⟨σ, es⟩ ⟨F, G⟩ hinv
  refine ⟨hO, ?_⟩
  rintro x ⟨σ', es'⟩ v ⟨rfl, hwhole⟩ hexec
  obtain ⟨⟨σ₁, v₁⟩, hexec₁, heq⟩ := Option.map_eq_some_iff.mp hexec
  obtain ⟨hσ, rfl⟩ := Prod.mk.inj heq
  obtain ⟨rfl, rfl⟩ := Prod.mk.inj hσ
  obtain ⟨B', O', hinv', hpost⟩ := hrun σ es F G hwhole hinv σ₁ v₁ hexec₁
  exact ⟨(B', O'), hinv', hpost⟩

theorem does_find (hO : ∀ d, some d ∈ O → e.calls = true) :
    Does (streaming cls h before n) t e (.find h) (B, O) fun v r => v = true ∧ r = (B, O) := by
  refine (does_streaming (P := fun v B' O' => v = true ∧ B' = B ∧ O' = O) hO ?_).mono ?_
  · intro σ es F G _ H σ' v hexec
    obtain ⟨-, heq⟩ := Option.ite_none_right_eq_some.mp hexec
    cases heq
    exact ⟨B, O, H, decide_eq_true H.registered, rfl, rfl⟩
  · rintro v ⟨_, _⟩ ⟨rfl, rfl, rfl⟩
    exact ⟨rfl, rfl⟩

theorem does_getContext (hO : ∀ d, some d ∈ O → e.calls = true) :
    Does (streaming cls h before n) t e (.GetContext .send 0) (B, O) fun v r =>
      ∃ c x, v = some c ∧ r = (⟨t, c, x⟩ ::ₘ B, O) := by
  refine (does_streaming (P := fun v B' O' => ∃ c x, v = some c ∧
    B' = ⟨t, c, x⟩ ::ₘ B ∧ O' = O) hO ?_).mono ?_
  · intro σ es F G _ H σ' v hexec
    cases hexec
    have hget := H.get (t := t)
    rw [← Multiset.cons_add] at hget
    exact ⟨_, O, hget, _, _, rfl, rfl, rfl⟩
  · rintro v ⟨_, _⟩ ⟨c, x, rfl, rfl, rfl⟩
    exact ⟨c, x, rfl, rfl⟩

theorem does_setSendParameters {c k : Nat} {x : Context} {s : SOCKET}
    {d : Option (List UInt8)} (hO : ∀ d, some d ∈ O → e.calls = true) :
    Does (streaming cls h before n) t e (.SetSendParameters c s d k) (⟨t, c, x⟩ ::ₘ B, O)
      fun v r => v = (x.SetSendParameters s d k).2 ∧
        r = (⟨t, c, (x.SetSendParameters s d k).1⟩ ::ₘ B, O) := by
  refine (does_streaming (P := fun v B' O' => v = (x.SetSendParameters s d k).2 ∧
    B' = ⟨t, c, (x.SetSendParameters s d k).1⟩ ::ₘ B ∧ O' = O) hO ?_).mono ?_
  · intro σ es F G hwhole H σ' v hexec
    rw [Multiset.cons_add] at H
    have hx := H.contents _ (Multiset.mem_cons_self _ _)
    cases hexec
    refine ⟨_, O, ?_, ?_, rfl, rfl⟩
    · rw [Multiset.cons_add, hx]
      exact H.set hwhole
    · rw [hx]
  · rintro v ⟨_, _⟩ ⟨rfl, rfl, rfl⟩
    exact ⟨rfl, rfl⟩

theorem does_wsaSend {c : Nat} {x : Context} {o : Option (List UInt8)}
    (hO : ∀ d, some d ∈ o ::ₘ O → e.calls = true) (hx : x.m_hSocket = h)
    (hpayload : x.m_pSendDataBuf.take x.len = wire o) :
    Does (streaming cls h before n) t e (.WSASend c) (⟨t, c, x⟩ ::ₘ B, o ::ₘ O)
      fun v r => v = true ∧ r = (B, O) := by
  refine (does_streaming (P := fun v B' O' => v = true ∧ B' = B ∧ O' = O) hO ?_).mono ?_
  · intro σ es F G _ H σ' v hexec
    rw [Multiset.cons_add, Multiset.cons_add] at H
    have hcontents := H.contents _ (Multiset.mem_cons_self _ _)
    obtain ⟨σ₁, hpost, heq⟩ := Option.map_eq_some_iff.mp hexec
    cases heq
    obtain ⟨conn, -, rfl⟩ := post_eq_some hpost
    rw [hcontents]
    exact ⟨B, O, H.send hx hpayload conn, rfl, rfl, rfl⟩
  · rintro v ⟨_, _⟩ ⟨rfl, rfl, rfl⟩
    exact ⟨rfl, rfl⟩

theorem does_releaseContext {c : Nat} {x : Context} (hO : ∀ d, some d ∈ O → e.calls = true) :
    Does (streaming cls h before n) t e (.ReleaseContext .send c) (⟨t, c, x⟩ ::ₘ B, O)
      fun _ r => r = (B, O) := by
  refine (does_streaming (P := fun _ B' O' => B' = B ∧ O' = O) hO ?_).mono ?_
  · intro σ es F G hwhole H σ' v hexec
    rw [Multiset.cons_add] at H
    cases hexec
    exact ⟨B, O, H.release hwhole, rfl, rfl⟩
  · rintro v ⟨_, _⟩ ⟨rfl, rfl⟩
    rfl

theorem does_m_hSocket {c : Nat} {x : Context} (hO : ∀ d, some d ∈ O → e.calls = true) :
    Does (streaming cls h before n) t e (.m_hSocket .send c) (⟨t, c, x⟩ ::ₘ B, O)
      fun v r => v = x.m_hSocket ∧ r = (⟨t, c, x⟩ ::ₘ B, O) := by
  refine (does_streaming (P := fun v B' O' => v = x.m_hSocket ∧ B' = ⟨t, c, x⟩ ::ₘ B ∧
    O' = O) hO ?_).mono ?_
  · intro σ es F G _ H σ' v hexec
    rw [Multiset.cons_add] at H
    cases hexec
    refine ⟨⟨t, c, x⟩ ::ₘ B, O, ?_, ?_, rfl, rfl⟩
    · rwa [Multiset.cons_add]
    · rw [H.contents _ (Multiset.mem_cons_self _ _)]
  · rintro v ⟨_, _⟩ ⟨rfl, rfl, rfl⟩
    exact ⟨rfl, rfl⟩

/-- `IssueSendOperation` of at most one block sends what is owed. -/
theorem wp_issueSendOperation {k : Nat} {data : List UInt8} {o : Option (List UInt8)}
    (hO : ∀ d, some d ∈ o ::ₘ O → e.calls = true) (hk : k ≠ 0)
    (hsmall : k ≤ DEFAULT_TCP_SEND_CONTEXT_SIZE) (hlen : data.length = k) (hwire : wire o = data) :
    wp (streaming cls h before n) t e (IssueSendOperation h data k) (fun _ r => r = (B, O))
      (B, o ::ₘ O) := by
  obtain ⟨rounds, rfl⟩ := Nat.exists_eq_succ_of_ne_zero hk
  unfold IssueSendOperation
  rw [if_pos hk]
  refine wp_call (does_getContext hO) ?_
  rintro _ _ ⟨c, x, rfl, rfl⟩
  refine wp_call (does_setSendParameters hO) ?_
  rintro _ _ ⟨rfl, rfl⟩
  have hset : x.SetSendParameters h (some data) (rounds + 1) = _ :=
    Context.setSendParameters_some hk
  rw [Nat.min_eq_left hsmall] at hset
  rw [hset]
  refine wp_call (does_wsaSend hO rfl ?_) ?_
  · rw [hwire]
    exact (List.take_left' (by rw [List.length_take, hlen, Nat.min_self])).trans
      (List.take_of_length_le hlen.le)
  · rintro _ _ ⟨rfl, rfl⟩
    rw [if_pos rfl, if_neg (by simp)]
    exact wp_ret rfl

theorem wp_sendData {pVoid : Option (List UInt8)} (he : e = .SendData h pVoid)
    (hlen : (pVoid.getD []).length ≤ DEFAULT_TCP_SEND_CONTEXT_SIZE) :
    wp (streaming cls h before n) t e (SendData h pVoid) (fun _ r => r = 0)
      (0, e.data.elim 0 fun d => {some d}) := by
  have hO : ∀ (O : Multiset (Option (List UInt8))), ∀ d, some d ∈ O → e.calls = true := by
    rintro _ _ -
    rw [he]
    rfl
  refine wp_call (does_find (hO _)) ?_
  rintro _ _ ⟨rfl, rfl⟩
  subst he
  rw [if_pos rfl]
  cases pVoid with
  | none => exact wp_ret rfl
  | some data =>
      by_cases hne : data.length = 0
      · have hzero : (Event.SendData h (some data)).data = none := if_neg (not_not.mpr hne)
        simp only [hzero, IssueSendOperation, if_neg (not_not.mpr hne)]
        exact wp_ret rfl
      · have hsome : (Event.SendData h (some data)).data = some data := if_pos hne
        simp only [hsome, Option.elim_some, ← Multiset.cons_zero]
        exact wp_issueSendOperation (hO _) hne hlen rfl rfl

theorem wp_completeSend {c : Nat} {x : Context} (hx : x.m_hSocket = h) :
    wp (streaming cls h before n) t e (CompleteSend c) (fun _ r => r = 0)
      ({⟨t, c, x⟩}, {none}) := by
  have hO : ∀ d, some d ∈ (none ::ₘ 0 : Multiset (Option (List UInt8))) → e.calls = true := by
    simp
  rw [← Multiset.cons_zero (none : Option (List UInt8)), ← Multiset.cons_zero]
  refine wp_call (does_m_hSocket hO) ?_
  rintro _ _ ⟨rfl, rfl⟩
  subst hx
  have hlen : testBuf.length = 512 := by
    rw [testBuf, List.length_append, List.length_replicate]
    rfl
  refine wp_after (wp_issueSendOperation hO (by decide) (by decide) hlen rfl) ?_
  rintro _ _ rfl
  refine wp_call (does_releaseContext (by simp)) ?_
  rintro _ _ rfl
  exact wp_ret rfl

theorem streaming_spawn {m : Machine} {es : List Event} {rs : List (Multiset Block × Multiset _)}
    {σ : Server × List Event} {p : Program Unit} {t : Nat} {e : Event}
    (hgood : (streaming cls h before n).Good (m.since es) rs)
    (hsocket : ∀ op ∈ m.shared.flight, (m.shared.context op.kind op.ctx).m_hSocket = op.h)
    (ha : OnlySends h m (.begin t e))
    (hspawn : (system cls).recorded.spawn t e (m.shared, es) = some (σ, p)) :
    ∃ r, (streaming cls h before n).Inv σ (r + rs.sum) ∧
      wp (streaming cls h before n) t e p (fun _ r' => r' = 0) r := by
  obtain ⟨⟨σ₁, p₁⟩, hspawn₁, heq⟩ := Option.map_eq_some_iff.mp hspawn
  obtain ⟨rfl, rfl⟩ := Prod.mk.inj heq
  have hinv : Streaming h before n m.shared es rs.sum.1 rs.sum.2 := hgood.inv
  cases e with
  | SendData sock pVoid =>
      obtain ⟨rfl, hlen, halone⟩ := ha
      cases hspawn₁
      have hO : ∀ d, some d ∉ rs.sum.2 := by
        intro d hd
        obtain ⟨u, -, e', c', r, he', -, hdr, hpre⟩ := hgood.owner
          (P := fun r => some d ∈ r.2) (Multiset.notMem_zero _) (fun _ _ => Multiset.mem_add.mp) hd
        have hcalls : e'.calls = true := hpre d hdr
        simp only [Machine.event, Option.bind_eq_some_iff, Option.map_eq_some_iff] at he'
        obtain ⟨o, ho, q, rfl, rfl⟩ := he'
        have hnone := halone _ (List.mem_of_getElem? ho) q rfl
        rw [hnone] at hcalls
        cases hcalls
      refine ⟨(0, (Event.SendData sock pVoid).data.elim 0 fun d => {some d}), ?_, ?_⟩
      · change Streaming sock before n _ _ (0 + rs.sum.1) _
        rw [zero_add]
        exact hinv.call rfl hO
      · refine wp_after (wp_sendData rfl hlen) ?_
        rintro _ _ rfl
        exact wp_ret rfl
  | completion op b data =>
      obtain ⟨rfl, hk, hh⟩ := ha
      simp only [system, spawn] at hspawn₁
      split at hspawn₁
      · rename_i hop
        cases hspawn₁
        refine ⟨({⟨t, op.ctx, m.shared.context .send op.ctx⟩}, {none}), ?_, ?_⟩
        · change Streaming h before n _ _ ({_} + rs.sum.1) ({none} + rs.sum.2)
          rw [Multiset.singleton_add, Multiset.singleton_add]
          exact hinv.complete hop hk hh
        · have hx := hsocket op hop
          rw [hk, hh] at hx
          simp only [Event.program, WorkThread, hk]
          refine wp_after (wp_completeSend hx) ?_
          rintro _ _ rfl
          exact wp_ret rfl
      · cases hspawn₁
  | InitServer => exact ha.elim
  | FD_ACCEPT => exact ha.elim
  | semaphore => exact ha.elim
  | TimerProc => exact ha.elim
  | SendFile => exact ha.elim

end

section
variable {cls : Class} {n h : SOCKET} {threads : Nat} {m₀ m : Machine} {acts : List Action}

theorem streaming_run (h₀ : Reachable cls n threads m₀) (hq₀ : m₀.Quiescent)
    (hreg : h ∈ m₀.shared.m_mapAcceptSockQueue)
    (hrun : execIf (system cls).step (OnlySends h) m₀ acts = some m) :
    (∃ rs, (streaming cls h (m₀.shared.payloads h) (m₀.shared.sending h)).Good
      (m.since (acts.flatMap Act.begun)) rs) ∧ Reachable cls n threads m := by
  refine recorded_invariant (P := fun m es =>
    (∃ rs, (streaming cls h (m₀.shared.payloads h) (m₀.shared.sending h)).Good (m.since es) rs) ∧
      Reachable cls n threads m) ?_ [] ⟨?_, h₀⟩ hrun
  · rintro m a m' es ⟨⟨rs, hgood⟩, hm⟩ ha hstep
    refine ⟨?_, hm.tail a trivial hstep⟩
    obtain ⟨rs₁, howned⟩ := owned_run (N := False) (D := False) (fun hN => hN.elim)
      (fun hD => hD.elim) hm
    have hrec : (system cls).recorded.step (m.since es) a = some (m'.since (es ++ a.begun)) := by
      rw [recorded_step, hstep]
      rfl
    refine hgood.step ?_ ?_ hrec
    · rintro t x e c rfl - -
      exact ⟨ha, howned.inv.1.whole .send⟩
    · rintro t e σ p rfl hspawn
      exact streaming_spawn hgood howned.inv.1.flight ha hspawn
  · have hthreads : m₀.threads = List.replicate m₀.threads.length none :=
      List.eq_replicate_iff.mpr ⟨rfl, hq₀⟩
    refine ⟨List.replicate m₀.threads.length 0, ?_⟩
    rw [Machine.since, hthreads, List.length_replicate]
    refine Logic.good_start (L := streaming cls h _ _) ⟨hreg, Multiset.zero_le _, ?_, [], ?_⟩
    · intro b hb
      exact absurd hb (Multiset.notMem_zero b)
    · exact ⟨(List.append_nil _).symm, ⟨[], rfl, Nat.zero_le 1, rfl⟩, rfl, rfl⟩

/-- When all calls have returned: the payloads are the data of the calls in order, with
one answer in between for each completion, and each call has left one send in flight. -/
theorem streaming_quiescent (h₀ : Reachable cls n threads m₀) (hq₀ : m₀.Quiescent)
    (hreg : h ∈ m₀.shared.m_mapAcceptSockQueue)
    (hrun : execIf (system cls).step (OnlySends h) m₀ acts = some m) (hq : m.Quiescent) :
    ∃ l : List (Option (List UInt8)),
      m.shared.payloads h = m₀.shared.payloads h ++ l.map wire ∧
      l.filterMap id = (acts.flatMap Act.begun).filterMap Event.data ∧
      l.count none = (acts.flatMap Act.begun).countP Event.completes ∧
      m.shared.sending h + l.count none = m₀.shared.sending h + l.length := by
  obtain ⟨⟨rs, hgood⟩, -⟩ := streaming_run h₀ hq₀ hreg hrun
  have hinv : Streaming h _ _ m.shared (acts.flatMap Act.begun) 0 0 := hgood.quiescent hq
  obtain ⟨l, hpayloads, ⟨d, hd, -, hcalls⟩, hcount, hsending⟩ := hinv.stream
  obtain rfl : d = [] := Multiset.coe_eq_zero _ |>.mp hd
  rw [List.append_nil] at hcalls
  rw [Multiset.count_zero, Nat.add_zero] at hcount
  exact ⟨l, hpayloads, hcalls, hcount, by rw [hcount]; exact hsending⟩

theorem map_wire {l : List (Option (List UInt8))} (h : l.count none = 0) :
    l.map wire = l.filterMap id := by
  induction l with
  | nil => rfl
  | cons o l ih =>
      cases o with
      | none => simp at h
      | some a =>
          rw [List.count_cons_of_ne (by simp)] at h
          rw [List.map_cons, ih h]
          rfl

theorem length_log (l : List (Option (List UInt8))) :
    l.length = (l.filterMap id).length + l.count none := by
  induction l with
  | nil => rfl
  | cons o l ih =>
      cases o with
      | none =>
          rw [List.filterMap_cons_none rfl, List.count_cons_self, List.length_cons, ih]
          rfl
      | some a =>
          rw [List.filterMap_cons_some (f := id) (b := a) rfl, List.count_cons_of_ne (by simp),
            List.length_cons, List.length_cons, ih, Nat.add_right_comm]

/-- The data of the calls, each once and nothing else; when as many sends have completed
as were posted for them, none is in flight, and the send contexts are idle. -/
structure Streamed (h : SOCKET) (σ₀ σ : Server) (es : List Event) : Prop where
  payloads : σ.payloads h = σ₀.payloads h ++ es.filterMap Event.data
  bounded : (σ.payloads h).length ≤ (σ₀.payloads h).length + (es.filterMap Event.data).length
  drained : es.countP Event.completes = σ₀.sending h + (es.filterMap Event.data).length →
    σ.sending h = 0 ∧ ((σ.pool .send).size ≤ MAX_STACK_CAPACITY →
      ∀ c, c < (σ.pool .send).size → σ.idling .send c = 1 ∨
        ∃ op ∈ σ.flight, op.kind = .send ∧ op.ctx = c ∧ op.h ≠ h)

theorem idle_or_attached (hm : Reachable cls n threads m) (hq : m.Quiescent)
    (hsize : (m.shared.pool .send).size ≤ MAX_STACK_CAPACITY) {c : Nat}
    (hc : c < (m.shared.pool .send).size) : m.shared.idling .send c = 1 ∨
      ∃ op ∈ m.shared.flight, op.kind = .send ∧ op.ctx = c := by
  obtain ⟨rs, howned⟩ := owned_run (N := False) (D := False) (fun hN => hN.elim)
    (fun hD => hD.elim) hm
  have hC := (howned.quiescent hq).1
  have hheld : m.shared.held = [] := by simpa using hC.held
  have hone := (hC.whole .send).present hsize c hc
  rw [elsewhere, hheld, List.countP_nil, Nat.add_zero] at hone
  by_cases hattached : m.shared.flight.countP (fun op => op.kind = .send ∧ op.ctx = c) = 0
  · refine .inl ?_
    rwa [hattached, Nat.add_zero] at hone
  · obtain ⟨op, hop, hsend⟩ := List.countP_pos_iff.mp (Nat.pos_of_ne_zero hattached)
    exact .inr ⟨op, hop, by simpa using hsend⟩

/-- Calls of `SendData` and completions of sends on one connection: what is sent is the
data of the calls, if and only if no completion is handled. -/
theorem send_stream_iff (h₀ : Reachable cls n threads m₀) (hq₀ : m₀.Quiescent)
    (hreg : h ∈ m₀.shared.m_mapAcceptSockQueue)
    (hrun : execIf (system cls).step (OnlySends h) m₀ acts = some m) :
    (m.Quiescent → (Streamed h m₀.shared m.shared (acts.flatMap Act.begun) ↔
      (acts.flatMap Act.begun).countP Event.completes = 0)) ∧
    ((acts.flatMap Act.begun).countP Event.completes = 0 → m.shared.payloads h <+:
      m₀.shared.payloads h ++ (acts.flatMap Act.begun).filterMap Event.data) := by
  refine ⟨fun hq => ?_, fun hnone => ?_⟩
  · obtain ⟨l, hpayloads, hcalls, hcount, hsending⟩ := streaming_quiescent h₀ hq₀ hreg hrun hq
    have hlength := length_log l
    constructor
    · intro hstreamed
      have heq := hstreamed.payloads
      rw [hpayloads, ← hcalls, List.append_cancel_left_eq] at heq
      have hlen := congrArg List.length heq
      rw [List.length_map] at hlen
      omega
    · intro hnone
      rw [hnone] at hcount
      rw [map_wire hcount, hcalls] at hpayloads
      refine ⟨hpayloads, ?_, ?_⟩
      · rw [hpayloads, List.length_append]
      · intro hdrained
        rw [hcalls] at hlength
        have hzero : m.shared.sending h = 0 := by omega
        refine ⟨hzero, fun hsize c hc => ?_⟩
        refine (idle_or_attached (streaming_run h₀ hq₀ hreg hrun).2 hq hsize hc).imp_right ?_
        rintro ⟨op, hop, hk, hctx⟩
        refine ⟨op, hop, hk, hctx, fun hh => ?_⟩
        exact absurd (by simpa using ⟨hk, hh⟩) (List.countP_eq_zero.mp hzero op hop)
  · obtain ⟨⟨rs, hgood⟩, -⟩ := streaming_run h₀ hq₀ hreg hrun
    obtain ⟨l, hpayloads, ⟨d, -, -, hcalls⟩, hcount, -⟩ := hgood.inv.stream
    change l.count none + _ = (acts.flatMap Act.begun).countP Event.completes at hcount
    rw [hnone] at hcount
    have hzero : l.count none = 0 := by omega
    refine ⟨d, ?_⟩
    change m.shared.payloads h = m₀.shared.payloads h ++ _ at hpayloads
    change _ = (acts.flatMap Act.begun).filterMap Event.data at hcalls
    rw [hpayloads, map_wire hzero, List.append_assoc, hcalls]

end

/-- Socket 1 is registered, and no thread is inside an event. -/
def registered : List Action := semaphoreReleased ++ [.finish 0]

/-- `SendData` of one byte. -/
def oneCall : List Action :=
  [.begin 0 (.SendData 1 (some [7]))] ++ List.replicate 4 (.run 0 .ok) ++ [.finish 0]

/-- It completes. -/
def oneCompletion : List Action :=
  [.begin 1 (.completion ⟨.send, 639, 1, 0⟩ true [])] ++ List.replicate 5 (.run 1 .ok) ++
    [.finish 1]

theorem send_stream_iff_oneCall : ∃ m₀ m, Reachable .CTcpServer 9 2 m₀ ∧
    execIf (system .CTcpServer).step (OnlySends 1) m₀ oneCall = some m ∧
    Streamed 1 m₀.shared m.shared [.SendData 1 (some [7])] := by
  have hrun : ∃ m₀, Reachable .CTcpServer 9 2 m₀ ∧ m₀.Quiescent ∧
      1 ∈ m₀.shared.m_mapAcceptSockQueue ∧
      ∃ m ∈ execIf (system .CTcpServer).step (OnlySends 1) m₀ oneCall, m.Quiescent :=
    exists_via_of_execIf registered (by decide +kernel)
  obtain ⟨m₀, h₀, hq₀, hreg, m, hm, hq⟩ := hrun
  exact ⟨m₀, m, h₀, hm, ((send_stream_iff h₀ hq₀ hreg hm).1 hq).mpr rfl⟩

/-- The completion of that call sends again, and leaves a send in flight. -/
theorem sends_again : ∃ m₀ m, Reachable .CTcpServer 9 2 m₀ ∧ m₀.Quiescent ∧
    1 ∈ m₀.shared.m_mapAcceptSockQueue ∧
    execIf (system .CTcpServer).step (OnlySends 1) m₀ (oneCall ++ oneCompletion) = some m ∧
    m.Quiescent ∧ m.shared.sending 1 = 1 ∧
    ¬ Streamed 1 m₀.shared m.shared ((oneCall ++ oneCompletion).flatMap Act.begun) := by
  have hrun : ∃ m₀, Reachable .CTcpServer 9 2 m₀ ∧ m₀.Quiescent ∧
      1 ∈ m₀.shared.m_mapAcceptSockQueue ∧
      ∃ m ∈ execIf (system .CTcpServer).step (OnlySends 1) m₀ (oneCall ++ oneCompletion),
        m.Quiescent ∧ m.shared.sending 1 = 1 ∧
        m.shared.payloads 1 ≠ m₀.shared.payloads 1 ++ [[7]] :=
    exists_via_of_execIf registered (by decide +kernel)
  obtain ⟨m₀, h₀, hq₀, hreg, m, hm, hq, hsending, hne⟩ := hrun
  exact ⟨m₀, m, h₀, hq₀, hreg, hm, hq, hsending, fun hstreamed => hne hstreamed.payloads⟩

end CppWorkspace.TcpServer
