/-
# `CppWorkspace.IocpClient.Reclaim` — the end of a connection

`HandleIo` frees the objects of a connection only `if (gTimeout == -1)`, and without a
rate limit `main` leaves `gTimeout` at 0; and a completion that fails never reaches
`HandleIo`.  So no `SOCKET_OBJ` is ever removed from `gConnectionList` or freed:

    the operations of a connection end    its object stays, linked and unfreed
    a post on a socket closed before      the connection is cleaned up again, and
                                          gCurrentConnections goes down twice

Everything is reclaimed as it should be as long as neither happens (`Fine`), and no
longer (`reclaimed_iff_fine`).
-/
import Mathlib.Data.List.Nodup
import CppWorkspace.IocpClient.Client

namespace CppWorkspace.IocpClient.Reclaim

open Runs SOCKET_OBJ Client

/-! ## What `HandleIo` posts -/

/-- `HandleIo` posts an operation on the connection. -/
def posts (o : SOCKET_OBJ) (buf : BUFFER_OBJ) (BytesTransfered : Nat) : Prop :=
  match buf.operation with
  | .OP_CONNECT => True
  | .OP_READ => 0 < BytesTransfered ∧ o.bClosing = false
  | .OP_WRITE | .OP_TRANSMIT => 0 < o.SendCount

instance (o : SOCKET_OBJ) (buf : BUFFER_OBJ) (bytes : Nat) : Decidable (posts o buf bytes) :=
  match h : buf.operation with
  | .OP_CONNECT => .isTrue (by simp [posts, h])
  | .OP_READ => decidable_of_iff (0 < bytes ∧ o.bClosing = false) (by simp [posts, h])
  | .OP_WRITE | .OP_TRANSMIT => decidable_of_iff (0 < o.SendCount) (by simp [posts, h])

/-- The posts so far: each adds an operation that is not a connect, and counts it. -/
structure Grown (o o' : SOCKET_OBJ) : Prop where
  socket : o'.s = o.s
  ops : o'.OutstandingOps - o'.flight.length = o.OutstandingOps - o.flight.length
  flight : ∃ l, o'.flight = l ++ o.flight ∧ ∀ op ∈ l, op.operation ≠ .OP_CONNECT

section
variable {cfg : Config} {fails : Option Nat} {o o' o'' : SOCKET_OBJ} {buf : BUFFER_OBJ}
  {bytes : Nat}

theorem Grown.refl : Grown o o := ⟨rfl, rfl, [], rfl, fun _ h => absurd h List.not_mem_nil⟩

theorem Grown.trans (h : Grown o o') (h' : Grown o' o'') : Grown o o'' := by
  obtain ⟨l, hl, hne⟩ := h.flight
  obtain ⟨l', hl', hne'⟩ := h'.flight
  refine ⟨h'.socket.trans h.socket, h'.ops.trans h.ops, l' ++ l, ?_, fun op hop => ?_⟩
  · rw [hl', hl, List.append_assoc]
  · exact (List.mem_append.mp hop).elim (hne' op) (hne op)

theorem Grown.of_eq (hs : o'.s = o.s) (hops : o'.OutstandingOps = o.OutstandingOps)
    (hf : o'.flight = o.flight) : Grown o o' :=
  ⟨hs, by rw [hops, hf], [], hf, fun _ h => absurd h List.not_mem_nil⟩

theorem Grown.of_start (h : Grown o' o'') (hs : o'.s = o.s)
    (hops : o'.OutstandingOps = o.OutstandingOps) (hf : o'.flight = o.flight) : Grown o o'' :=
  (of_eq hs hops hf).trans h

theorem Grown.post {b : Nat} {op : Operation} {ok : Bool} (hop : op ≠ .OP_CONNECT) :
    Grown o (o.post b op ok).1 := by
  unfold SOCKET_OBJ.post
  split
  · refine ⟨rfl, ?_, [⟨b, op⟩], rfl, fun op' h => ?_⟩
    · simp only [List.length_cons]
      omega
    · rwa [List.mem_singleton.mp h]
  · exact .refl

theorem Grown.count {r : SOCKET_OBJ × Bool} (h : Grown o r.1) : Grown o (SOCKET_OBJ.count r).1 := by
  unfold SOCKET_OBJ.count
  split
  · exact h.trans (.of_eq rfl rfl rfl)
  · exact h

theorem Grown.postData {b : Nat} {ok : Bool} : Grown o (postData cfg o b ok).1 := by
  unfold SOCKET_OBJ.postData
  split
  · exact (Grown.post (show Operation.OP_TRANSMIT ≠ .OP_CONNECT by decide)).count
  · exact (Grown.post (show Operation.OP_WRITE ≠ .OP_CONNECT by decide)).count

theorem Grown.postRecvs (n : Nat) : ∀ (o : SOCKET_OBJ) (i : Nat),
    Grown o (postRecvs fails n o i).1 := by
  induction n with
  | zero => exact fun o _ => .refl
  | succ n ih =>
      intro o i
      have hpost : Grown o (o.GetBufferObj.1.PostRecv o.made (fails ≠ some i)).1 :=
        (Grown.post (by decide)).of_start rfl rfl rfl
      unfold SOCKET_OBJ.postRecvs
      simp only
      split
      · exact hpost.trans (ih _ _)
      · exact hpost.trans (.of_eq rfl rfl rfl)

theorem Grown.postSends (n : Nat) : ∀ (o : SOCKET_OBJ) (i : Nat),
    Grown o (postSends cfg fails n o i).1 := by
  induction n with
  | zero => exact fun o _ => .refl
  | succ n ih =>
      intro o i
      have hpost : Grown o (SOCKET_OBJ.postData cfg
          { o.GetBufferObj.1 with senders := o.made :: o.senders } o.made (fails ≠ some i)).1 :=
        Grown.postData.of_start rfl rfl rfl
      unfold SOCKET_OBJ.postSends
      simp only
      split
      · split
        · exact hpost
        · exact hpost.trans (ih _ _)
      · exact hpost.trans (.of_eq rfl rfl rfl)

theorem Grown.sent {repost : SOCKET_OBJ × Bool} (h : Grown o repost.1) :
    Grown o (o.sent cfg buf repost).1 := by
  unfold SOCKET_OBJ.sent
  split
  · split
    · exact h
    · exact .of_eq rfl rfl rfl
  · exact .of_eq rfl rfl rfl

theorem Grown.completed : Grown o (o.completed cfg fails buf bytes).1 := by
  unfold SOCKET_OBJ.completed
  split
  · -- a connect
    have hrecvs : Grown o (SOCKET_OBJ.postRecvs fails cfg.gOverlappedCount
        { o with bConnected := true } 0).1 := (Grown.postRecvs _ _ _).of_start rfl rfl rfl
    unfold SOCKET_OBJ.connected
    simp only
    split
    · exact hrecvs.trans (.of_eq rfl rfl rfl)
    · exact (hrecvs.trans (.postSends _ _ _)).trans (.of_eq rfl rfl rfl)
  · -- a receive
    unfold SOCKET_OBJ.received
    split
    · have hpost : Grown o (o.PostRecv buf.buf (fails ≠ some 0)).1 := .post (by decide)
      simp only
      split
      · exact hpost
      · exact hpost.trans (.of_eq rfl rfl rfl)
    · exact .of_eq rfl rfl rfl
  · exact .sent (Grown.post (by decide)).count
  · exact .sent (Grown.post (by decide)).count

/-! The first post decides. -/

theorem posts_of_cleanup (h : (o.completed cfg fails buf bytes).2 = true) : posts o buf bytes := by
  cases hop : buf.operation with
  | OP_CONNECT => simp only [posts, hop]
  | OP_READ =>
      simp only [completed, posts, hop, SOCKET_OBJ.received] at h ⊢
      by_contra hn
      rw [if_neg hn] at h
      cases h
  | OP_WRITE | OP_TRANSMIT =>
      simp only [completed, posts, hop, SOCKET_OBJ.sent] at h ⊢
      by_contra hn
      rw [if_neg hn] at h
      cases h

theorem flight_of_not_posts (h : ¬ posts o buf bytes) :
    (o.completed cfg fails buf bytes).1.flight = o.flight := by
  cases hop : buf.operation with
  | OP_CONNECT => simp only [posts, hop, not_true_eq_false] at h
  | OP_READ =>
      simp only [posts, hop] at h
      simp only [completed, hop, SOCKET_OBJ.received, if_neg h, FreeBufferObj]
  | OP_WRITE | OP_TRANSMIT =>
      simp only [posts, hop] at h
      simp only [completed, hop, SOCKET_OBJ.sent, if_neg h, FreeBufferObj, shutdown]

/-- The first post is refused: the connection is cleaned up, with nothing new in
flight. -/
theorem refused (hk : 0 < cfg.gOverlappedCount) (hrate : cfg.gRateLimit = -1)
    (h : posts o buf bytes) (hno : ¬ (fails ≠ some 0 ∧ o.s ≠ none)) :
    (o.completed cfg fails buf bytes).2 = true
      ∧ (o.completed cfg fails buf bytes).1.flight = o.flight := by
  have hpost : ∀ (o' : SOCKET_OBJ) (b : Nat) (op : Operation), o'.s = o.s →
      o'.post b op (fails ≠ some 0) = (o', false) := by
    intro o' b op hs
    unfold SOCKET_OBJ.post
    rw [hs, if_neg (by simpa using hno)]
  cases hop : buf.operation with
  | OP_CONNECT =>
      obtain ⟨n, hn⟩ : ∃ n, cfg.gOverlappedCount = n + 1 := ⟨_, (Nat.succ_pred_eq_of_pos hk).symm⟩
      have := hpost { o with bConnected := true, made := o.made + 1 } o.made .OP_READ rfl
      simp only [completed, hop, SOCKET_OBJ.connected, hn, SOCKET_OBJ.postRecvs, PostRecv,
        GetBufferObj, this]
      simp [FreeBufferObj]
  | OP_READ =>
      simp only [posts, hop] at h
      simp only [completed, hop, SOCKET_OBJ.received, if_pos h, PostRecv, hpost o _ _ rfl]
      simp [FreeBufferObj]
  | OP_WRITE | OP_TRANSMIT =>
      simp only [posts, hop] at h
      simp only [completed, hop, SOCKET_OBJ.sent, if_pos h, if_pos hrate, PostSend,
        PostTransmitFile, hpost o _ _ rfl]
      simp [SOCKET_OBJ.count]

theorem Grown.flight_ne_nil (h : Grown o o') (hne : o.flight ≠ []) : o'.flight ≠ [] := by
  obtain ⟨l, hl, -⟩ := h.flight
  rw [hl]
  exact List.append_ne_nil_of_right_ne_nil l hne

/-- The first post is accepted: an operation is in flight. -/
theorem accepted (hk : 0 < cfg.gOverlappedCount) (hrate : cfg.gRateLimit = -1)
    (h : posts o buf bytes) (hfails : fails ≠ some 0) (hs : o.s ≠ none) :
    (o.completed cfg fails buf bytes).1.flight ≠ [] := by
  have hpost : ∀ (o' : SOCKET_OBJ) (b : Nat) (op : Operation), o'.s = o.s →
      o'.post b op (fails ≠ some 0) = ({ o' with
        flight := ⟨b, op⟩ :: o'.flight
        OutstandingOps := o'.OutstandingOps + 1 }, true) := by
    intro o' b op hs'
    unfold SOCKET_OBJ.post
    rw [hs', if_pos ⟨by simpa using hfails, hs⟩]
  cases hop : buf.operation with
  | OP_CONNECT =>
      obtain ⟨n, hn⟩ : ∃ n, cfg.gOverlappedCount = n + 1 := ⟨_, (Nat.succ_pred_eq_of_pos hk).symm⟩
      have hfirst := hpost { o with bConnected := true, made := o.made + 1 } o.made .OP_READ rfl
      -- what the other receives and the sends add leaves the first receive in flight
      have hrecvs : (postRecvs fails (n + 1) { o with bConnected := true } 0).1.flight ≠ [] := by
        simp only [SOCKET_OBJ.postRecvs, PostRecv, GetBufferObj, hfirst, if_true]
        exact (Grown.postRecvs _ _ _).flight_ne_nil (List.cons_ne_nil _ _)
      simp only [completed, hop, SOCKET_OBJ.connected, hn]
      split
      · exact hrecvs
      · exact (Grown.postSends _ _ _).flight_ne_nil hrecvs
  | OP_READ =>
      simp only [posts, hop] at h
      simp only [completed, hop, SOCKET_OBJ.received, if_pos h, PostRecv, hpost o _ _ rfl]
      simp
  | OP_WRITE | OP_TRANSMIT =>
      simp only [posts, hop] at h
      simp only [completed, hop, SOCKET_OBJ.sent, if_pos h, if_pos hrate, PostSend,
        PostTransmitFile, hpost o _ _ rfl]
      simp [SOCKET_OBJ.count]

end

/-! ## The property and its condition -/

/-- A connection with nothing in flight is gone, and the rest is counted. -/
def Reclaimed (σ : Client) : Prop :=
  (∀ c < σ.count, (σ.obj c).flight = [] →
      c ∉ σ.gConnectionList ∧ σ.freed.count c = 1 ∧ (σ.obj c).closed = 1)
    ∧ σ.dangling = false
    ∧ σ.gCurrentConnections = (σ.established.filter fun c => c ∉ σ.cleaned).length

/-- The connect is accepted; after a completion the connection has an operation in
flight, another one or one that `HandleIo` posts; and `HandleIo` posts on an open
socket. -/
def Fine (σ : Client) : Act → Prop
  | .connect ok => ok = true
  | .completion c buf error bytes fails =>
      let o := σ.obj c
      if error = .NO_ERROR then
        (posts o buf bytes → o.s ≠ none)
          ∧ (o.flight.erase buf ≠ [] ∨ (posts o buf bytes ∧ fails ≠ some 0))
      else o.flight.erase buf ≠ []

instance (σ : Client) : (a : Act) → Decidable (Fine σ a)
  | .connect _ => inferInstanceAs (Decidable (_ = _))
  | .completion _ _ error _ _ =>
      inferInstanceAs (Decidable (if error = .NO_ERROR then (_ → _) ∧ (_ ∨ (_ ∧ _)) else _))

/-! ## A connection with operations in flight -/

/-- A connection of a run of `Fine` steps. -/
structure Lives (o : SOCKET_OBJ) (established cleaned : Prop) : Prop where
  busy : o.flight ≠ []
  ops : (o.flight.length : Int) ≤ o.OutstandingOps
  stage : ((∃ b, o.flight = [⟨b, .OP_CONNECT⟩]) ∧ ¬ established)
    ∨ ((∀ op ∈ o.flight, op.operation ≠ .OP_CONNECT) ∧ established)
  socket : o.s = none ↔ cleaned
  order : cleaned → established

section
variable {cfg : Config} {fails : Option Nat} {o : SOCKET_OBJ} {buf : BUFFER_OBJ} {bytes : Nat}
  {p q : Prop}

/-- `o` while `HandleIo` has `buf` in hand. -/
def held (o : SOCKET_OBJ) (buf : BUFFER_OBJ) : SOCKET_OBJ := { o with flight := o.flight.erase buf }

/-- The connect comes first: with it in flight the socket is open, without it the
connection is established. -/
theorem Lives.operation (ho : Lives o p q) (hbuf : buf ∈ o.flight) :
    (buf.operation = .OP_CONNECT ∧ o.flight = [buf] ∧ ¬ p ∧ ¬ q ∧ o.s ≠ none)
      ∨ (buf.operation ≠ .OP_CONNECT ∧ p ∧ ∀ op ∈ o.flight, op.operation ≠ .OP_CONNECT) := by
  rcases ho.stage with ⟨⟨b, hb⟩, hp⟩ | ⟨hne, hp⟩
  · have hq : ¬ q := fun hq => hp (ho.order hq)
    rw [hb, List.mem_singleton] at hbuf
    subst hbuf
    exact .inl ⟨rfl, hb, hp, hq, fun hs => hq (ho.socket.mp hs)⟩
  · exact .inr ⟨hne buf hbuf, hp, hne⟩

theorem Lives.congr {p' q' : Prop} (ho : Lives o p q) (hp : p ↔ p') (hq : q ↔ q') :
    Lives o p' q' := by
  rwa [← propext hp, ← propext hq]

theorem Lives.forget (ho : Lives o p q) (hbuf : buf ∈ o.flight) (hne : o.flight.erase buf ≠ []) :
    Lives (held o buf) p q where
  busy := hne
  ops := by
    have := ho.ops
    have := (List.erase_sublist (a := buf) (l := o.flight)).length_le
    simp only [held]
    omega
  stage := by
    rcases ho.operation hbuf with ⟨-, hone, -⟩ | ⟨-, hp, hall⟩
    · rw [hone] at hne
      simp at hne
    · exact .inr ⟨fun op hop => hall op (List.mem_of_mem_erase hop), hp⟩
  socket := ho.socket
  order := ho.order

/-- With an operation left in flight, only a refused post cleans up. -/
theorem handled_of_flight (hops : (o.flight.length : Int) < o.OutstandingOps)
    (hne : (o.completed cfg fails buf bytes).1.flight ≠ []) :
    (handled cfg fails o buf bytes).2 = (o.completed cfg fails buf bytes).2 := by
  have hgrown : Grown o (o.completed cfg fails buf bytes).1 := .completed
  have hgrown_ops := hgrown.ops
  have hpos := List.length_pos_of_ne_nil hne
  have hops' : (o.completed cfg fails buf bytes).1.OutstandingOps - 1 ≠ 0 := by omega
  unfold handled
  simp only [hops', false_and, or_false]
  split
  next h => exact h.symm
  next h => exact (Bool.eq_false_iff.mpr h).symm

theorem handled_flight : (handled cfg fails o buf bytes).1.flight =
    (o.completed cfg fails buf bytes).1.flight := by
  unfold handled
  simp only
  split <;> rfl

theorem handled_of_cleanup (h : (o.completed cfg fails buf bytes).2 = true) :
    (handled cfg fails o buf bytes).2 = true := by
  unfold handled
  simp only [h, true_or, if_true]

/-- A completion with a `Fine` outcome: the connection lives on, and was not cleaned up
before if it is now. -/
theorem Lives.completion (hk : 0 < cfg.gOverlappedCount) (hrate : cfg.gRateLimit = -1)
    (ho : Lives o p q) (hbuf : buf ∈ o.flight) (hopen : posts o buf bytes → o.s ≠ none)
    (hnext : o.flight.erase buf ≠ [] ∨ (posts o buf bytes ∧ fails ≠ some 0)) :
    Lives (handled cfg fails (held o buf) buf bytes).1 True
        (q ∨ (handled cfg fails (held o buf) buf bytes).2 = true)
      ∧ ((handled cfg fails (held o buf) buf bytes).2 = true → ¬ q) := by
  have hgrown : Grown (held o buf) ((held o buf).completed cfg fails buf bytes).1 := .completed
  have hflight : ((held o buf).completed cfg fails buf bytes).1.flight ≠ [] := by
    rcases hnext with hne | ⟨hp, hf⟩
    · exact hgrown.flight_ne_nil hne
    · exact accepted hk hrate hp hf (hopen hp)
  have hlt : ((held o buf).flight.length : Int) < (held o buf).OutstandingOps := by
    have := ho.ops
    have := List.length_erase_of_mem hbuf
    have := List.length_pos_of_mem hbuf
    simp only [held]
    omega
  have hcleanup := handled_of_flight hlt hflight
  have hq : ((held o buf).completed cfg fails buf bytes).2 = true → ¬ q :=
    fun h hq => hopen (posts_of_cleanup (o := held o buf) h) (ho.socket.mpr hq)
  rw [hcleanup]
  refine ⟨⟨handled_flight ▸ hflight, ?_, .inr ⟨?_, trivial⟩, ?_, fun _ => trivial⟩, hq⟩
  · have hops := hgrown.ops
    rw [handled_flight]
    unfold handled
    simp only
    split
    · simp only [closesocket]
      omega
    · simp only
      omega
  · obtain ⟨l, hl, hne⟩ := hgrown.flight
    rw [handled_flight, hl]
    intro op hop
    rcases List.mem_append.mp hop with h | h
    · exact hne op h
    · rcases ho.operation hbuf with ⟨-, hone, -⟩ | ⟨-, -, hall⟩
      · simp [held, hone] at h
      · exact hall op (List.mem_of_mem_erase h)
  · have hs : ((held o buf).completed cfg fails buf bytes).1.s = o.s := hgrown.socket
    rw [← hcleanup]
    unfold handled
    simp only
    split
    · simp [closesocket]
    · simpa [hs] using ho.socket

/-- Any other outcome leaves nothing in flight, or cleans up a second time. -/
theorem Lives.not_fine (hk : 0 < cfg.gOverlappedCount) (hrate : cfg.gRateLimit = -1)
    (ho : Lives o p q)
    (hno : ¬ ((posts o buf bytes → o.s ≠ none)
      ∧ (o.flight.erase buf ≠ [] ∨ (posts o buf bytes ∧ fails ≠ some 0)))) :
    (handled cfg fails (held o buf) buf bytes).1.flight = []
      ∨ ((handled cfg fails (held o buf) buf bytes).2 = true ∧ q) := by
  by_cases hopen : posts o buf bytes → o.s ≠ none
  · have hempty : o.flight.erase buf = [] := by
      by_contra hne
      exact hno ⟨hopen, .inl hne⟩
    refine .inl (handled_flight.trans ?_)
    by_cases hp : posts o buf bytes
    · have hfails : ¬ (fails ≠ some 0 ∧ (held o buf).s ≠ none) :=
        fun h => hno ⟨hopen, .inr ⟨hp, h.1⟩⟩
      rw [(refused (o := held o buf) hk hrate hp hfails).2]
      exact hempty
    · rw [flight_of_not_posts (o := held o buf) hp]
      exact hempty
  · obtain ⟨hp, hs⟩ : posts o buf bytes ∧ o.s = none := by simpa using hopen
    refine .inr ⟨handled_of_cleanup ?_, ho.socket.mp hs⟩
    exact (refused (o := held o buf) hk hrate hp fun h => h.2 hs).1

end

/-! ## Every run -/

/-- The connections that are established and not cleaned up. -/
def current (established cleaned : List Nat) : List Nat :=
  established.filter fun c => c ∉ cleaned

/-- Every connection is established and reclaimed once at most, and the counts agree. -/
structure Inv (cfg : Config) (σ : Client) : Prop where
  lives : ∀ c < σ.count, Lives (σ.obj c) (c ∈ σ.established) (c ∈ σ.cleaned)
  known : ∀ c ∈ σ.established, c < σ.count
  order : ∀ c ∈ σ.cleaned, c ∈ σ.established
  nodup : σ.established.Nodup
  freed : σ.freed = []
  dangling : σ.dangling = false
  number : σ.gCurrentConnections = (current σ.established σ.cleaned).length

theorem current_cons {e cl : List Nat} {c : Nat} (hc : c ∉ cl) :
    (current (c :: e) cl).length = (current e cl).length + 1 := by
  simp [current, hc]

/-- A connection that is cleaned up for the first time leaves the current ones. -/
theorem current_cleaned {e cl : List Nat} {c : Nat} (hnd : e.Nodup) (hc : c ∈ e) (hcl : c ∉ cl) :
    (current e (c :: cl)).length + 1 = (current e cl).length := by
  have hmem : c ∈ current e cl := List.mem_filter.mpr ⟨hc, by simpa using hcl⟩
  have herase : current e (c :: cl) = (current e cl).erase c := by
    have hfilter : (current e cl).erase c = (current e cl).filter (· != c) :=
      List.Nodup.erase_eq_filter (hnd.filter _) c
    rw [hfilter, current, current, List.filter_filter]
    refine List.filter_congr fun d _ => ?_
    by_cases hd : d = c <;> simp [hd]
  rw [herase, List.length_erase_of_mem hmem]
  have := List.length_pos_of_mem hmem
  omega

theorem current_cleaned_again {e cl : List Nat} {c : Nat} (hcl : c ∈ cl) :
    current e (c :: cl) = current e cl := by
  refine List.filter_congr fun d _ => ?_
  simp only [List.mem_cons, not_or, decide_eq_decide, and_iff_right_iff_imp]
  rintro hd rfl
  exact hd hcl

section
variable {cfg : Config} {σ σ' : Client} {a : Act}

theorem Inv.reclaimed (hσ : Inv cfg σ) : Reclaimed σ :=
  ⟨fun c hc he => absurd he (hσ.lives c hc).busy, hσ.dangling, hσ.number⟩

theorem Inv.start (cfg : Config) : Inv cfg (Client.start cfg) where
  lives _ h := absurd h (Nat.not_lt_zero _)
  known _ h := absurd h List.not_mem_nil
  order _ h := absurd h List.not_mem_nil
  nodup := List.nodup_nil
  freed := rfl
  dangling := rfl
  number := rfl

theorem Inv.connect (hσ : Inv cfg σ) :
    Inv cfg { σ.set σ.count ((SOCKET_OBJ.new cfg σ.count).GetBufferObj.1.PostConnect 0 true).1
      with count := σ.count + 1, gConnectionList := σ.gConnectionList ++ [σ.count] } where
  lives c (hc : c < σ.count + 1) := by
    by_cases he : c = σ.count
    · subst he
      have hne : σ.count ∉ σ.established := fun h => Nat.lt_irrefl _ (hσ.known _ h)
      have hnc : σ.count ∉ σ.cleaned := fun h => hne (hσ.order _ h)
      simp only [Client.set, Function.update_self]
      exact
        { busy := by simp [PostConnect, post, new, GetBufferObj]
          ops := by simp [PostConnect, post, new, GetBufferObj]
          stage := .inl ⟨⟨0, by simp [PostConnect, post, new, GetBufferObj]⟩, hne⟩
          socket := iff_of_false (by simp [PostConnect, post, new, GetBufferObj]) hnc
          order := fun h => absurd h hnc }
    · simp only [Client.set, Function.update_of_ne he]
      exact hσ.lives c (by omega)
  known c hc := Nat.lt_succ_of_lt (hσ.known c hc)
  order := hσ.order
  nodup := hσ.nodup
  freed := hσ.freed
  dangling := hσ.dangling
  number := hσ.number

variable {c : Nat} {buf : BUFFER_OBJ} {bytes : Nat} {fails : Option Nat}

theorem taken_obj : (σ.taken c buf).obj c = held (σ.obj c) buf := Function.update_self _ _ _

theorem Inv.forget (hσ : Inv cfg σ) (hc : c < σ.count) (hbuf : buf ∈ (σ.obj c).flight)
    (hne : (σ.obj c).flight.erase buf ≠ []) : Inv cfg (σ.taken c buf) :=
  { hσ with
    lives := fun d hd => by
      by_cases he : d = c
      · subst he
        rw [taken_obj]
        exact (hσ.lives d hc).forget hbuf hne
      · simp only [taken, Client.set, Function.update_of_ne he]
        exact hσ.lives d hd }

/-- `HandleIo` establishes the connection, if its connect has completed. -/
def established' (σ : Client) (c : Nat) (buf : BUFFER_OBJ) : List Nat :=
  if buf.operation = .OP_CONNECT then c :: σ.established else σ.established

theorem Inv.established (hσ : Inv cfg σ) (hc : c < σ.count) (hbuf : buf ∈ (σ.obj c).flight) :
    (established' σ c buf).Nodup ∧ (∀ d, d ∈ established' σ c buf ↔ d = c ∨ d ∈ σ.established)
      ∧ ((current (established' σ c buf) σ.cleaned).length : Int)
        = σ.gCurrentConnections + if buf.operation = .OP_CONNECT then 1 else 0 := by
  rw [hσ.number]
  unfold established'
  rcases (hσ.lives c hc).operation hbuf with ⟨hop, -, hp, hq, -⟩ | ⟨hop, hp, -⟩
  · simp only [hop, if_true]
    refine ⟨List.nodup_cons.mpr ⟨hp, hσ.nodup⟩, fun d => List.mem_cons, ?_⟩
    rw [current_cons hq]
    rfl
  · simp only [hop, if_false]
    exact ⟨hσ.nodup, fun d => ⟨.inr, fun h => h.elim (fun he => he ▸ hp) id⟩, by omega⟩

/-- The number after `HandleIo`, which is right if the connection was not cleaned up
before. -/
theorem Inv.number_iff (hσ : Inv cfg σ) (hc : c < σ.count) (hbuf : buf ∈ (σ.obj c).flight)
    (cleanup : Bool) :
    (σ.gCurrentConnections + (if buf.operation = .OP_CONNECT then 1 else 0)
        - (if cleanup = true then 1 else 0)
      = (current (established' σ c buf)
          (if cleanup = true then c :: σ.cleaned else σ.cleaned)).length)
      ↔ (cleanup = true → c ∉ σ.cleaned) := by
  obtain ⟨hnd, hmem, hnum⟩ := hσ.established hc hbuf
  rw [← hnum]
  cases cleanup with
  | false => simp
  | true =>
      simp only [if_true, true_implies]
      by_cases hcl : c ∈ σ.cleaned
      · rw [current_cleaned_again hcl]
        exact iff_of_false (by omega) (fun h => h hcl)
      · have := current_cleaned hnd ((hmem c).mpr (.inl rfl)) hcl
        exact iff_of_true (by omega) hcl

theorem Inv.handle {left : Bool} (hσ : Inv cfg σ) (ht : cfg.gTimeout = 0)
    (hk : 0 < cfg.gOverlappedCount) (hrate : cfg.gRateLimit = -1) (hc : c < σ.count)
    (hbuf : buf ∈ (σ.obj c).flight)
    (hopen : posts (σ.obj c) buf bytes → (σ.obj c).s ≠ none)
    (hnext : (σ.obj c).flight.erase buf ≠ []
      ∨ (posts (σ.obj c) buf bytes ∧ fails ≠ some 0)) :
    Inv cfg { (HandleIo cfg fails (σ.taken c buf) c buf bytes .NO_ERROR).1 with left := left } := by
  obtain ⟨hlives, hfirst⟩ := (hσ.lives c hc).completion hk hrate hbuf hopen hnext
  obtain ⟨hnd, hmem, -⟩ := hσ.established hc hbuf
  rw [HandleIo_eq ht, taken_obj]
  generalize handled cfg fails (held (σ.obj c) buf) buf bytes = r at hlives hfirst ⊢
  have hcleaned : ∀ d, d ∈ (if r.2 = true then c :: σ.cleaned else σ.cleaned)
      ↔ (d = c ∧ r.2 = true) ∨ d ∈ σ.cleaned := by
    intro d
    cases r.2 <;> simp
  exact
    { lives := fun d hd => by
        by_cases he : d = c
        · subst he
          simp only [Client.set, Function.update_self]
          refine hlives.congr (iff_of_true trivial ((hmem d).mpr (.inl rfl))) ?_
          exact Iff.trans (by tauto) (hcleaned d).symm
        · simp only [Client.set, taken, Function.update_idem, Function.update_of_ne he]
          refine (hσ.lives d hd).congr ?_ ?_
          · exact ⟨fun h => (hmem d).mpr (.inr h), fun h => ((hmem d).mp h).resolve_left he⟩
          · exact Iff.trans (by tauto) (hcleaned d).symm
      known := fun d hd => ((hmem d).mp hd).elim (fun he => he ▸ hc) (hσ.known d)
      order := fun d hd => (hmem d).mpr
        (((hcleaned d).mp hd).elim (fun h => .inl h.1) fun h => .inr (hσ.order d h))
      nodup := hnd
      freed := hσ.freed
      dangling := by
        have hd := hσ.dangling
        have hf := hσ.freed
        simp only [taken, Client.set, hd, hf, List.not_mem_nil, decide_false, Bool.or_self]
      number := (hσ.number_iff hc hbuf r.2).mpr hfirst }

theorem Inv.step (hσ : Inv cfg σ) (ht : cfg.gTimeout = 0) (hk : 0 < cfg.gOverlappedCount)
    (hrate : cfg.gRateLimit = -1) (hok : Fine σ a) (h : Client.step cfg σ a = some σ') :
    Inv cfg σ' := by
  obtain ⟨ok, rfl, -, rfl⟩ | ⟨c, buf, error, bytes, fails, rfl, hc, hbuf, h⟩ := step_cases h
  · rw [show ok = true from hok]
    exact hσ.connect
  · obtain ⟨he, rfl⟩ | ⟨rfl, left, rfl⟩ := h
    · have hne : (σ.obj c).flight.erase buf ≠ [] := by simpa only [Fine, if_neg he] using hok
      exact hσ.forget hc hbuf hne
    · obtain ⟨hopen, hnext⟩ : _ ∧ _ := by simpa only [Fine, if_true] using hok
      exact hσ.handle ht hk hrate hc hbuf hopen hnext

/-- Nothing is freed, so a connection with nothing in flight is not reclaimed. -/
theorem not_reclaimed_of_idle {c : Nat} (hc : c < σ.count) (hf : σ.freed = [])
    (he : (σ.obj c).flight = []) : ¬ Reclaimed σ := by
  intro h
  have hcount := (h.1 c hc he).2.1
  rw [hf] at hcount
  cases hcount

theorem Inv.broken (hσ : Inv cfg σ) (ht : cfg.gTimeout = 0)
    (hk : 0 < cfg.gOverlappedCount) (hrate : cfg.gRateLimit = -1) (hno : ¬ Fine σ a)
    (h : Client.step cfg σ a = some σ') : ¬ Reclaimed σ' := by
  obtain ⟨ok, rfl, -, rfl⟩ | ⟨c, buf, error, bytes, fails, rfl, hc, hbuf, h⟩ := step_cases h
  · have hok : ok = false := Bool.eq_false_iff.mpr hno
    subst hok
    refine not_reclaimed_of_idle (Nat.lt_succ_self σ.count) hσ.freed ?_
    simp only [Client.set, Function.update_self]
    simp [PostConnect, post, new, GetBufferObj]
  · obtain ⟨he, rfl⟩ | ⟨rfl, left, rfl⟩ := h
    · have hempty : (σ.obj c).flight.erase buf = [] := by
        by_contra hne
        exact hno (by simpa only [Fine, if_neg he] using hne)
      exact not_reclaimed_of_idle hc hσ.freed (by rw [taken_obj]; exact hempty)
    · rw [HandleIo_eq ht, taken_obj]
      rcases (hσ.lives c hc).not_fine hk hrate (by simpa only [Fine, if_true] using hno)
        with hempty | ⟨hclean, hq⟩
      · refine not_reclaimed_of_idle (c := c) hc hσ.freed ?_
        simp only [Client.set, Function.update_self]
        exact hempty
      · intro hr
        exact (hσ.number_iff hc hbuf _).mp hr.2.2 hclean hq

end

/-- **Reclamation.**  As long as every step is `Fine` the property holds, and a step
keeps it exactly if it is `Fine`. -/
theorem reclaimed_iff_fine (k : Nat) (n : Int) (t : Bool) (hk : 0 < k) (σ : Client)
    (h : Via (Client.step (Config.unlimited k n t)) Fine
      (Client.start (Config.unlimited k n t)) σ) :
    Reclaimed σ ∧ ∀ a σ', Client.step (Config.unlimited k n t) σ a = some σ' →
      (Reclaimed σ' ↔ Fine σ a) := by
  have hk' : 0 < (Config.unlimited k n t).gOverlappedCount := by
    simp only [Config.unlimited]
    split <;> omega
  have hσ : Inv (Config.unlimited k n t) σ :=
    h.invariant (Inv.start _) fun _ _ _ hinv hok hstep => hinv.step rfl hk' rfl hok hstep
  refine ⟨hσ.reclaimed, fun a σ' hstep => ⟨fun hr => ?_, fun hok => ?_⟩⟩
  · by_contra hno
    exact hσ.broken rfl hk' rfl hno hstep hr
  · exact (hσ.step rfl hk' rfl hok hstep).reclaimed

/-- An echo of one connection, which still sends and receives. -/
theorem reclaimed_iff_fine_echo :
    ∃ σ, Via (Client.step (Config.unlimited 1 2 false)) Fine
        (Client.start (Config.unlimited 1 2 false)) σ
      ∧ (σ.established = [0] ∧ (σ.obj 0).flight = [⟨1, .OP_READ⟩, ⟨2, .OP_WRITE⟩])
      ∧ Reclaimed σ ∧ ∀ a σ', Client.step (Config.unlimited 1 2 false) σ a = some σ' →
        (Reclaimed σ' ↔ Fine σ a) := by
  obtain ⟨σ, hσ, hend⟩ : ∃ σ, Via (Client.step (Config.unlimited 1 2 false)) Fine
        (Client.start (Config.unlimited 1 2 false)) σ
      ∧ σ.established = [0] ∧ (σ.obj 0).flight = [⟨1, .OP_READ⟩, ⟨2, .OP_WRITE⟩] :=
    exists_via_of_execIf
      [.connect true, .completion 0 ⟨0, .OP_CONNECT⟩ .NO_ERROR 0 none,
        .completion 0 ⟨2, .OP_WRITE⟩ .NO_ERROR 9 none, .completion 0 ⟨1, .OP_READ⟩ .NO_ERROR 9 none]
      (by decide +kernel)
  exact ⟨σ, hσ, hend, reclaimed_iff_fine 1 2 false (by decide) σ hσ⟩

/-- Of two connections the first sends its data and is closed by the peer: `HandleIo`
closes the socket, and leaves the object in `gConnectionList`, unfreed. -/
theorem not_reclaimed :
    ¬ ∀ σ, Via (Client.step (Config.unlimited 1 1 false)) (fun _ _ => True)
      (Client.start (Config.unlimited 1 1 false)) σ → Reclaimed σ := by
  obtain ⟨σ, hσ, hcount, hflight, hfreed, -⟩ :
      ∃ σ, Via (Client.step (Config.unlimited 1 1 false)) (fun _ _ => True)
        (Client.start (Config.unlimited 1 1 false)) σ
      ∧ 0 < σ.count ∧ (σ.obj 0).flight = [] ∧ σ.freed = []
      ∧ σ.gConnectionList = [0, 1] ∧ (σ.obj 0).closed = 1 :=
    exists_via_of_execIf
      [.connect true, .connect true, .completion 0 ⟨0, .OP_CONNECT⟩ .NO_ERROR 0 none,
        .completion 1 ⟨0, .OP_CONNECT⟩ .NO_ERROR 0 none,
        .completion 0 ⟨2, .OP_WRITE⟩ .NO_ERROR 9 none,
        .completion 0 ⟨1, .OP_READ⟩ .NO_ERROR 0 none]
      (by decide +kernel)
  exact fun h => not_reclaimed_of_idle hcount hfreed hflight (h σ hσ)

end CppWorkspace.IocpClient.Reclaim
