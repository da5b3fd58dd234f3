/-
# `CppWorkspace.IocpClient.SendQuota` — the sends of a connection

A connection is given `gSendCount` sends.  The connect posts the first of them, up
to `gOverlappedCount`, each with a buffer of its own, and a send that completes
posts its buffer again:

    SendCount > 0     every buffer of a send is in flight
    SendCount = 0     a send that completes shuts the socket down, and frees its buffer

So the buffers are idle only once nothing is left to send (`Sending`).  The runs are
those in which nothing fails and the peer closes after the client.
-/
import Mathlib.Data.List.Nodup
import Mathlib.Data.List.Perm.Subperm
import CppWorkspace.IocpClient.Client

namespace CppWorkspace.IocpClient.SendQuota

open Runs SOCKET_OBJ Client

/-! ## The operations of a connection -/

def isSend (op : BUFFER_OBJ) : Bool :=
  op.operation == .OP_WRITE || op.operation == .OP_TRANSMIT

/-- The buffers of the sends in flight. -/
def sending (o : SOCKET_OBJ) : List Nat := (o.flight.filter isSend).map BUFFER_OBJ.buf

/-- `o` while `HandleIo` has `buf` in hand. -/
def holding (o : SOCKET_OBJ) (buf : BUFFER_OBJ) : SOCKET_OBJ :=
  { o with flight := o.flight.erase buf }

/-- The operation of `postData`. -/
def data (cfg : Config) : Operation := if cfg.gTransmitFile = true then .OP_TRANSMIT else .OP_WRITE

/-- The `n` operations with the buffers from `m` on, the last one first. -/
def burst (op : Operation) (m n : Nat) : List BUFFER_OBJ :=
  (List.range' m n).reverse.map (⟨·, op⟩)

section
variable {cfg : Config} {o : SOCKET_OBJ}

theorem post_true {b : Nat} {op : Operation} (hs : o.s ≠ none) :
    o.post b op true =
      ({ o with flight := ⟨b, op⟩ :: o.flight, OutstandingOps := o.OutstandingOps + 1 }, true) := by
  simp [post, hs]

theorem postData_true {b : Nat} (hs : o.s ≠ none) :
    postData cfg o b true =
      ({ o with
          flight := ⟨b, data cfg⟩ :: o.flight
          OutstandingOps := o.OutstandingOps + 1
          SendCount := o.SendCount - 1
          sends := o.sends + 1 }, true) := by
  unfold postData data
  split <;> simp [PostTransmitFile, PostSend, post_true hs, SOCKET_OBJ.count]

theorem burst_succ (op : Operation) (m n : Nat) :
    burst op m (n + 1) = burst op (m + 1) n ++ [⟨m, op⟩] := by
  simp [burst, List.range'_succ]

theorem postRecvs_none (n : Nat) : ∀ (o : SOCKET_OBJ) (i : Nat), o.s ≠ none →
    postRecvs none n o i =
      ({ o with
          made := o.made + n
          flight := burst .OP_READ o.made n ++ o.flight
          OutstandingOps := o.OutstandingOps + n }, false) := by
  induction n with
  | zero => intro o i _; simp [postRecvs, burst]
  | succ n ih =>
      intro o i hs
      have hpost : o.GetBufferObj.1.post o.made .OP_READ true = _ := post_true hs
      simp only [postRecvs, PostRecv, GetBufferObj] at hpost ⊢
      simp only [ne_eq, reduceCtorEq, not_false_eq_true, decide_true, hpost, if_true]
      refine (ih _ _ ?_).trans ?_
      · exact hs
      · simp [burst_succ]
        omega

/-- Of the first sends, as many are posted as the connection may have. -/
theorem postSends_none (n : Nat) : ∀ (o : SOCKET_OBJ) (i : Nat), o.s ≠ none → 0 < o.SendCount →
    postSends cfg none n o i =
      ({ o with
          made := o.made + min n o.SendCount.toNat
          senders := (List.range' o.made (min n o.SendCount.toNat)).reverse ++ o.senders
          flight := burst (data cfg) o.made (min n o.SendCount.toNat) ++ o.flight
          OutstandingOps := o.OutstandingOps + min n o.SendCount.toNat
          SendCount := o.SendCount - min n o.SendCount.toNat
          sends := o.sends + min n o.SendCount.toNat }, false) := by
  induction n with
  | zero => intro o i _ _; simp [postSends, burst]
  | succ n ih =>
      intro o i hs hq
      have hpost : postData cfg { o.GetBufferObj.1 with senders := o.made :: o.senders } o.made true
          = _ := postData_true hs
      simp only [postSends, GetBufferObj] at hpost ⊢
      simp only [ne_eq, reduceCtorEq, not_false_eq_true, decide_true, hpost, if_true]
      split
      next hz =>
        have hone : min (n + 1) o.SendCount.toNat = 1 := by omega
        simp [hone, burst]
      next hz =>
        have hq' : 0 < o.SendCount - 1 := by omega
        have hmin : min (n + 1) o.SendCount.toNat = min n (o.SendCount - 1).toNat + 1 := by omega
        refine (ih _ _ ?_ ?_).trans ?_
        · exact hs
        · exact hq'
        · simp [hmin, burst_succ, List.range'_succ]
          omega

end

/-! ## The invariant -/

/-- An object before `main` has made it. -/
def Fresh (cfg : Config) (c : Nat) (o : SOCKET_OBJ) : Prop := o = SOCKET_OBJ.new cfg c

/-- Its connect is in flight. -/
def Connecting (cfg : Config) (c : Nat) (o : SOCKET_OBJ) : Prop :=
  o = ((SOCKET_OBJ.new cfg c).GetBufferObj.1.PostConnect 0 true).1

/-- Its connect has completed.  `sendobj`s are the buffers of its sends. -/
structure Sending (cfg : Config) (o : SOCKET_OBJ) : Prop where
  ops : o.OutstandingOps = o.flight.length
  isOpen : o.s = none → o.flight = []
  kinds : ∀ op ∈ o.flight, op.operation ≠ .OP_CONNECT
  total : o.SendCount + o.sends = cfg.gSendCount
  nonneg : 0 ≤ o.SendCount
  some : o.senders ≠ []
  width : o.senders.length ≤ cfg.gOverlappedCount
  nodup : o.senders.Nodup
  owned : ∀ op ∈ o.flight, isSend op = true ↔ op.buf ∈ o.senders
  place : ∀ b ∈ o.senders, (sending o).count b + o.freed.count b = 1
  busy : 0 < o.SendCount → ∀ b ∈ o.senders, b ∉ o.freed
  idle : ∀ b ∈ o.senders, b ∈ o.freed → o.shut = true
  shut : o.shut = true → o.SendCount = 0
  closing : o.bClosing = true → o.shut = true

section
variable {cfg : Config} {o : SOCKET_OBJ} {buf : BUFFER_OBJ}

theorem count_sending (hmem : buf ∈ o.flight) (hs : isSend buf = true) (b : Nat) :
    (sending o).count b = (sending (holding o buf)).count b + if buf.buf = b then 1 else 0 := by
  have hp : (sending o).Perm (buf.buf :: sending (holding o buf)) := by
    have := ((List.perm_cons_erase hmem).filter isSend).map BUFFER_OBJ.buf
    rwa [List.filter_cons_of_pos hs, List.map_cons] at this
  rw [hp.count_eq, List.count_cons]
  simp only [beq_iff_eq]

theorem sending_holding (hs : isSend buf = false) : sending (holding o buf) = sending o := by
  have hn : buf ∉ o.flight.filter isSend := fun h => by simp [hs] at h
  simp only [sending, holding, ← List.erase_filter, List.erase_of_not_mem hn]

theorem Sending.length_le (ho : Sending cfg o) : (sending o).length ≤ cfg.gOverlappedCount := by
  have hsub : ∀ b ∈ sending o, b ∈ o.senders := by
    intro b hb
    obtain ⟨op, hop, rfl⟩ := List.mem_map.mp hb
    obtain ⟨hf, hs⟩ := List.mem_filter.mp hop
    exact (ho.owned op hf).mp hs
  have hnd : (sending o).Nodup := by
    refine List.nodup_iff_count_le_one.mpr fun b => ?_
    by_cases hb : b ∈ sending o
    · have := ho.place b (hsub b hb)
      omega
    · simp [List.count_eq_zero.mpr hb]
  exact Nat.le_trans (hnd.subperm hsub).length_le ho.width

theorem Sending.finished (ho : Sending cfg o) (hn : sending o = []) :
    (o.sends : Int) = cfg.gSendCount ∧ o.shut = true ∧ ∀ b ∈ o.senders, o.freed.count b = 1 := by
  have hfreed : ∀ b ∈ o.senders, o.freed.count b = 1 := by
    intro b hb
    have := ho.place b hb
    rwa [hn, List.count_nil, Nat.zero_add] at this
  obtain ⟨b, hb⟩ := List.exists_mem_of_ne_nil _ ho.some
  have hshut : o.shut = true :=
    ho.idle b hb (List.count_pos_iff.mp (by rw [hfreed b hb]; exact Nat.one_pos))
  have htotal := ho.total
  rw [ho.shut hshut, zero_add] at htotal
  exact ⟨htotal, hshut, hfreed⟩

/-! ## A completion -/

theorem Sending.isOpen_of_mem (ho : Sending cfg o) (hmem : buf ∈ o.flight) : o.s ≠ none :=
  fun hs => List.ne_nil_of_mem hmem (ho.isOpen hs)

theorem Sending.again (ho : Sending cfg o) (hmem : buf ∈ o.flight) :
    Sending cfg { o with flight := buf :: o.flight.erase buf } := by
  have hp := List.perm_cons_erase hmem
  exact
    { ho with
      ops := by rw [ho.ops, hp.length_eq]
      isOpen := fun hs => absurd hs (ho.isOpen_of_mem hmem)
      kinds := fun op hop => ho.kinds op (hp.mem_iff.mpr hop)
      owned := fun op hop => ho.owned op (hp.mem_iff.mpr hop)
      place := fun b hb => by
        have := ((hp.filter isSend).map BUFFER_OBJ.buf).count_eq b
        rw [← ho.place b hb, sending, ← this]
        rfl }

theorem Sending.handled {fails : Option Nat} {bytes : Nat} {x : SOCKET_OBJ}
    (hc : o.completed cfg fails buf bytes = (x, false))
    (hx : Sending cfg { x with OutstandingOps := x.OutstandingOps - 1 }) :
    Sending cfg (handled cfg fails o buf bytes).1 := by
  unfold Client.handled
  simp only [hc, Bool.false_eq_true, false_or]
  split
  next h =>
    have hempty : x.flight = [] := by
      have := hx.ops
      simp only [h.1] at this
      exact List.length_eq_zero_iff.mp (by omega)
    exact { hx with isOpen := fun _ => hempty }
  next => exact hx

theorem Sending.received (ho : Sending cfg o) (hmem : buf ∈ o.flight)
    (hop : buf.operation = .OP_READ) {bytes : Nat} (hpeer : bytes = 0 → o.shut = true) :
    Sending cfg (Client.handled cfg none (holding o buf) buf bytes).1 := by
  have hread : isSend buf = false := by simp [isSend, hop]
  by_cases hb : 0 < bytes ∧ o.bClosing = false
  · -- the receive is posted again
    have hc : (holding o buf).completed cfg none buf bytes =
        ({ o with
            flight := buf :: o.flight.erase buf
            OutstandingOps := o.OutstandingOps + 1 }, false) := by
      have hs : (holding o buf).s ≠ none := ho.isOpen_of_mem hmem
      have hbuf : (⟨buf.buf, .OP_READ⟩ : BUFFER_OBJ) = buf := by rw [← hop]
      have hb' : 0 < bytes ∧ (holding o buf).bClosing = false := hb
      simp [completed, hop, SOCKET_OBJ.received, if_pos hb', PostRecv, post_true hs, hbuf]
      simp [holding]
    refine Sending.handled hc ?_
    simpa using ho.again hmem
  · -- the receive is over, and its buffer is freed
    have hc : (holding o buf).completed cfg none buf bytes =
        ({ holding o buf with bClosing := true, freed := buf.buf :: o.freed }, false) := by
      simp only [completed, hop, SOCKET_OBJ.received]
      rw [if_neg (by simpa [holding] using hb)]
      rfl
    have hshut : o.shut = true := by
      by_cases hz : bytes = 0
      · exact hpeer hz
      · exact ho.closing (by simpa using fun h => hb ⟨by omega, h⟩)
    have hn : buf.buf ∉ o.senders := fun h => by simp [(ho.owned buf hmem).mpr h] at hread
    have hzero := ho.shut hshut
    refine Sending.handled hc ?_
    exact
      { ho with
        ops := by
          have := List.length_erase_of_mem hmem
          have hpos := List.length_pos_of_mem hmem
          simp only [ho.ops, holding]
          omega
        isOpen := fun hs => absurd hs (ho.isOpen_of_mem hmem)
        kinds := fun op hop => ho.kinds op (List.mem_of_mem_erase hop)
        owned := fun op hop => ho.owned op (List.mem_of_mem_erase hop)
        place := fun b hb => by
          have hne : buf.buf ≠ b := fun h => hn (h ▸ hb)
          have := sending_holding (o := o) hread
          rw [← ho.place b hb, ← this, List.count_cons_of_ne hne]
          rfl
        busy := fun hq => by
          have : 0 < o.SendCount := hq
          omega
        idle := fun _ _ _ => hshut
        closing := fun _ => hshut }

theorem Sending.sent (ho : Sending cfg o) (hmem : buf ∈ o.flight) (hsend : isSend buf = true)
    (hrate : cfg.gRateLimit = -1) {bytes : Nat} :
    Sending cfg (Client.handled cfg none (holding o buf) buf bytes).1 := by
  have hs : (holding o buf).s ≠ none := ho.isOpen_of_mem hmem
  have hc : (holding o buf).completed cfg none buf bytes =
      (holding o buf).sent cfg buf
        ({ o with
            flight := buf :: o.flight.erase buf
            OutstandingOps := o.OutstandingOps + 1
            SendCount := o.SendCount - 1
            sends := o.sends + 1 }, true) := by
    obtain ⟨b, op⟩ := buf
    cases op with
    | OP_WRITE =>
        simp [completed, PostSend, post_true hs, SOCKET_OBJ.count]
        simp [holding]
    | OP_TRANSMIT =>
        simp [completed, PostTransmitFile, post_true hs, SOCKET_OBJ.count]
        simp [holding]
    | _ => simp [isSend] at hsend
  have hin : buf.buf ∈ o.senders := (ho.owned buf hmem).mp hsend
  by_cases hq : 0 < o.SendCount
  · -- the buffer carries the next send
    have hq' : 0 < (holding o buf).SendCount := hq
    rw [SOCKET_OBJ.sent, if_pos hq', if_pos hrate] at hc
    refine Sending.handled hc ?_
    have hagain := ho.again hmem
    have hshut : o.shut ≠ true := fun h => by
      have := ho.shut h
      omega
    exact
      { hagain with
        ops := by
          have := hagain.ops
          simp only at this ⊢
          omega
        total := by
          have := ho.total
          simp only
          push_cast
          omega
        nonneg := by
          simp only
          omega
        busy := fun _ => ho.busy hq
        shut := fun h => absurd h hshut }
  · -- the quota is used up: the write side is shut down
    have hq' : ¬ 0 < (holding o buf).SendCount := hq
    have hzero : o.SendCount = 0 := by
      have := ho.nonneg
      omega
    rw [SOCKET_OBJ.sent, if_neg hq'] at hc
    have hshut : (holding o buf).shutdown.shut = true := by
      simp [shutdown, Option.isSome_iff_ne_none.mpr hs]
    refine Sending.handled hc ?_
    exact
      { ho with
        ops := by
          have := List.length_erase_of_mem hmem
          have hpos := List.length_pos_of_mem hmem
          simp only [ho.ops, holding, shutdown, FreeBufferObj]
          omega
        isOpen := fun h => absurd h hs
        kinds := fun op hop => ho.kinds op (List.mem_of_mem_erase hop)
        owned := fun op hop => ho.owned op (List.mem_of_mem_erase hop)
        place := fun b hb => by
          calc (sending (holding o buf)).count b + (buf.buf :: o.freed).count b
              = (sending (holding o buf)).count b
                  + (o.freed.count b + if buf.buf = b then 1 else 0) := by
                rw [List.count_cons]
                simp only [beq_iff_eq]
            _ = (sending o).count b + o.freed.count b := by
                rw [count_sending hmem hsend b]
                omega
            _ = 1 := ho.place b hb
        busy := fun h => absurd h hq
        idle := fun _ _ _ => hshut
        shut := fun _ => hzero
        closing := fun _ => hshut }

end

/-! ## The connect -/

section
variable {cfg : Config}

theorem mem_burst {op : BUFFER_OBJ} {o : Operation} {m n : Nat} :
    op ∈ burst o m n ↔ op.operation = o ∧ m ≤ op.buf ∧ op.buf < m + n := by
  obtain ⟨b, o'⟩ := op
  simp only [burst, List.mem_map, List.mem_reverse, List.mem_range'_1, BUFFER_OBJ.mk.injEq]
  constructor
  · rintro ⟨b', hb, rfl, rfl⟩
    exact ⟨rfl, hb⟩
  · rintro ⟨rfl, hb⟩
    exact ⟨b, hb, rfl, rfl⟩

theorem isSend_data (b : Nat) : isSend ⟨b, data cfg⟩ = true := by
  unfold data
  split <;> rfl

theorem sending_bursts (m n m' n' : Nat) :
    ((burst (data cfg) m n ++ burst .OP_READ m' n').filter isSend).map BUFFER_OBJ.buf
      = (List.range' m n).reverse := by
  have hsend : (burst (data cfg) m n).filter isSend = burst (data cfg) m n := by
    refine List.filter_eq_self.mpr fun op hop => ?_
    obtain ⟨b, o⟩ := op
    obtain ⟨rfl, -⟩ := mem_burst.mp hop
    exact isSend_data b
  have hread : (burst .OP_READ m' n').filter isSend = [] := by
    refine List.filter_eq_nil_iff.mpr fun op hop => ?_
    simp [isSend, (mem_burst.mp hop).1]
  rw [List.filter_append, hsend, hread, List.append_nil, burst, List.map_map]
  exact List.map_id _

/-- A connection that has just been established: the receives, and the first
sends. -/
theorem Connecting.connected {c : Nat} {o : SOCKET_OBJ} {bytes : Nat} (ho : Connecting cfg c o)
    (hk : 0 < cfg.gOverlappedCount) (hn : 0 < cfg.gSendCount) :
    Sending cfg (handled cfg none (holding o ⟨0, .OP_CONNECT⟩) ⟨0, .OP_CONNECT⟩ bytes).1 := by
  obtain ⟨j, hj, hj₀, hjk, hjn⟩ : ∃ j, min cfg.gOverlappedCount cfg.gSendCount.toNat = j ∧ 0 < j
      ∧ j ≤ cfg.gOverlappedCount ∧ (j : Int) ≤ cfg.gSendCount ∧
        (j < cfg.gOverlappedCount → (j : Int) = cfg.gSendCount) := by
    refine ⟨_, rfl, ?_, ?_, ?_, ?_⟩ <;> omega
  have hc : (holding o ⟨0, .OP_CONNECT⟩).completed cfg none ⟨0, .OP_CONNECT⟩ bytes =
      ({ SOCKET_OBJ.new cfg c with
          bConnected := true
          made := 1 + cfg.gOverlappedCount + j
          senders := (List.range' (1 + cfg.gOverlappedCount) j).reverse
          flight := burst (data cfg) (1 + cfg.gOverlappedCount) j
            ++ burst .OP_READ 1 cfg.gOverlappedCount
          OutstandingOps := 1 + cfg.gOverlappedCount + j
          SendCount := cfg.gSendCount - j
          sends := j
          freed := [0] }, false) := by
    rw [show o = _ from ho]
    simp only [completed, SOCKET_OBJ.connected]
    rw [postRecvs_none _ _ _ (by simp [holding, PostConnect, post, new, GetBufferObj])]
    simp only [Bool.false_eq_true, if_false]
    rw [postSends_none]
    · simp [holding, PostConnect, post, new, GetBufferObj, FreeBufferObj, hj]
    · simp [holding, PostConnect, post, new, GetBufferObj]
    · simpa [holding, PostConnect, post, new, GetBufferObj] using hn
  refine Sending.handled hc ?_
  exact
    { ops := by
        simp [burst]
        omega
      isOpen := fun h => by simp [new] at h
      kinds := fun op hop => by
        rcases List.mem_append.mp hop with h | h
        · have : isSend ⟨op.buf, data cfg⟩ = true := isSend_data op.buf
          rw [← (mem_burst.mp h).1] at this
          intro he
          simp [isSend, he] at this
        · simp [(mem_burst.mp h).1]
      total := by simp
      nonneg := by
        simp only
        omega
      some := by
        simp
        omega
      width := by simpa using hjk
      nodup := by simpa using List.nodup_range'
      owned := fun op hop => by
        rw [List.mem_reverse, List.mem_range'_1]
        rcases List.mem_append.mp hop with h | h
        · obtain ⟨ho, hb⟩ := mem_burst.mp h
          have hsend : isSend op = true := by
            rw [← isSend_data op.buf, ← ho]
          exact iff_of_true hsend hb
        · obtain ⟨ho, hb⟩ := mem_burst.mp h
          have hsend : ¬ isSend op = true := by simp [isSend, ho]
          exact iff_of_false hsend (by omega)
      place := fun b hb => by
        have hb' := List.mem_range'_1.mp (List.mem_reverse.mp hb)
        have hnd : (List.range' (1 + cfg.gOverlappedCount) j).reverse.Nodup := by
          simpa using List.nodup_range'
        have hne : b ∉ [0] := by
          rw [List.mem_singleton]
          omega
        rw [sending, sending_bursts, List.count_eq_one_of_mem hnd hb, List.count_eq_zero.mpr hne]
      busy := fun h b hb => by
        simp at hb ⊢
        omega
      idle := fun b hb hf => by
        simp at hb hf
        omega
      shut := fun h => by simp [new] at h
      closing := fun h => by simp [new] at h }

end

/-! ## Every run -/

/-- Nothing fails, and the peer closes after the client has shut down. -/
def Smooth (σ : Client) : Act → Prop
  | .connect ok => ok = true
  | .completion c buf error bytes fails =>
      error = .NO_ERROR ∧ fails = none
        ∧ (buf.operation = .OP_READ → bytes = 0 → (σ.obj c).shut = true)

instance (σ : Client) : (a : Act) → Decidable (Smooth σ a)
  | .connect _ => inferInstanceAs (Decidable (_ = _))
  | .completion _ _ _ _ _ => inferInstanceAs (Decidable (_ ∧ _ ∧ (_ → _ → _)))

/-- The stages of the connections. -/
structure Stages (cfg : Config) (σ : Client) : Prop where
  fresh : ∀ c, σ.count ≤ c → Fresh cfg c (σ.obj c)
  live : ∀ c, c < σ.count → (Connecting cfg c (σ.obj c) ∧ c ∉ σ.established)
    ∨ (Sending cfg (σ.obj c) ∧ c ∈ σ.established)
  known : ∀ c ∈ σ.established, c < σ.count

section
variable {k : Nat} {n : Int} {t : Bool} {σ σ' : Client} {a : Act}

theorem Stages.start (cfg : Config) : Stages cfg (Client.start cfg) :=
  ⟨fun _ _ => rfl, fun _ h => absurd h (Nat.not_lt_zero _), fun _ h => absurd h List.not_mem_nil⟩

theorem gOverlappedCount_pos (hk : 0 < k) : 0 < (Config.unlimited k n t).gOverlappedCount := by
  simp only [Config.unlimited]
  split <;> omega

theorem Stages.connect {cfg : Config} (hσ : Stages cfg σ) :
    Stages cfg { σ.set σ.count ((SOCKET_OBJ.new cfg σ.count).GetBufferObj.1.PostConnect 0 true).1
      with count := σ.count + 1, gConnectionList := σ.gConnectionList ++ [σ.count] } := by
  refine ⟨fun c (hc : σ.count + 1 ≤ c) => ?_, fun c (hc : c < σ.count + 1) => ?_, fun c hc => ?_⟩
  · simp only [Client.set, Function.update_of_ne (show c ≠ σ.count by omega)]
    exact hσ.fresh c (by omega)
  · by_cases he : c = σ.count
    · subst he
      refine .inl ⟨Function.update_self _ _ _, fun h => ?_⟩
      exact absurd (hσ.known _ h) (Nat.lt_irrefl _)
    · simp only [Client.set, Function.update_of_ne he]
      exact hσ.live c (by omega)
  · exact Nat.lt_succ_of_lt (hσ.known c hc)

theorem Stages.completion {c : Nat} {buf : BUFFER_OBJ} {bytes : Nat} {left : Bool} (hk : 0 < k)
    (hn : 0 < n) (hσ : Stages (Config.unlimited k n t) σ) (hc : c < σ.count)
    (hbuf : buf ∈ (σ.obj c).flight)
    (hpeer : buf.operation = .OP_READ → bytes = 0 → (σ.obj c).shut = true) :
    Stages (Config.unlimited k n t)
      { (HandleIo (Config.unlimited k n t) none (σ.taken c buf) c buf bytes .NO_ERROR).1 with
        left := left } := by
  have hown : (σ.taken c buf).obj c = holding (σ.obj c) buf := Function.update_self _ _ _
  have hstage : Sending (Config.unlimited k n t)
        (handled (Config.unlimited k n t) none (holding (σ.obj c) buf) buf bytes).1
      ∧ (buf.operation ≠ .OP_CONNECT → c ∈ σ.established) := by
    rcases hσ.live c hc with ⟨ho, -⟩ | ⟨ho, he⟩
    · have hb : buf = ⟨0, .OP_CONNECT⟩ := by
        rw [show σ.obj c = _ from ho] at hbuf
        simpa [PostConnect, post, new, GetBufferObj] using hbuf
      subst hb
      exact ⟨ho.connected (gOverlappedCount_pos hk) hn, fun h => absurd rfl h⟩
    · refine ⟨?_, fun _ => he⟩
      cases hop : buf.operation with
      | OP_CONNECT => exact absurd hop (ho.kinds buf hbuf)
      | OP_READ => exact ho.received hbuf hop (hpeer hop)
      | OP_WRITE => exact ho.sent hbuf (by simp [isSend, hop]) rfl
      | OP_TRANSMIT => exact ho.sent hbuf (by simp [isSend, hop]) rfl
  obtain ⟨hsending, hold⟩ := hstage
  rw [HandleIo_eq rfl, hown]
  have hest : ∀ d, d ∈ (if buf.operation = .OP_CONNECT then c :: σ.established else σ.established)
      ↔ d = c ∨ d ∈ σ.established := by
    intro d
    split
    · exact List.mem_cons
    · rename_i hop
      exact ⟨.inr, fun h => h.elim (fun he => he ▸ hold hop) id⟩
  refine ⟨fun d (hd : σ.count ≤ d) => ?_, fun d (hd : d < σ.count) => ?_, fun d hd => ?_⟩
  · simp only [Client.set, taken, Function.update_idem,
      Function.update_of_ne (show d ≠ c by omega)]
    exact hσ.fresh d hd
  · by_cases he : d = c
    · subst he
      refine .inr ⟨?_, (hest d).mpr (.inl rfl)⟩
      simp only [Client.set, Function.update_self]
      exact hsending
    · simp only [Client.set, taken, Function.update_idem, Function.update_of_ne he]
      refine (hσ.live d hd).imp (fun h => ⟨h.1, fun hd' => ?_⟩) fun h => ⟨h.1, ?_⟩
      · exact ((hest d).mp hd').elim he h.2
      · exact (hest d).mpr (.inr h.2)
  · exact ((hest d).mp hd).elim (fun he => he ▸ hc) (hσ.known d)

theorem Stages.step (hk : 0 < k) (hn : 0 < n) (hσ : Stages (Config.unlimited k n t) σ)
    (hok : Smooth σ a) (h : Client.step (Config.unlimited k n t) σ a = some σ') :
    Stages (Config.unlimited k n t) σ' := by
  obtain ⟨ok, rfl, -, rfl⟩ | ⟨c, buf, error, bytes, fails, rfl, hc, hbuf, h⟩ := step_cases h
  · rw [show ok = true from hok]
    exact hσ.connect
  · obtain ⟨he, rfl, hpeer⟩ := hok
    obtain ⟨hne, -⟩ | ⟨-, left, rfl⟩ := h
    · exact absurd he hne
    · exact hσ.completion hk hn hc hbuf hpeer

end

/-- The sends of one connection, wherever it stands. -/
structure Quota (cfg : Config) (established : Prop) (o : SOCKET_OBJ) : Prop where
  nonneg : 0 ≤ o.SendCount
  posted : (o.sends : Int) ≤ cfg.gSendCount
  overlapped : (sending o).length ≤ cfg.gOverlappedCount
  /-- `shutdown` is called after the last send has been posted. -/
  last : o.shut = true → (o.sends : Int) = cfg.gSendCount
  once : ∀ b ∈ o.senders, o.freed.count b ≤ 1
  /-- After the last completion everything is sent, shut down and freed. -/
  done : established → sending o = [] →
    (o.sends : Int) = cfg.gSendCount ∧ o.shut = true ∧ ∀ b ∈ o.senders, o.freed.count b = 1

theorem Sending.quota {cfg : Config} {o : SOCKET_OBJ} (ho : Sending cfg o) (p : Prop) :
    Quota cfg p o where
  nonneg := ho.nonneg
  posted := by
    have := ho.total
    have := ho.nonneg
    omega
  overlapped := ho.length_le
  last h := by
    have := ho.total
    rwa [ho.shut h, zero_add] at this
  once b hb := by
    have := ho.place b hb
    omega
  done _ := ho.finished

theorem quota_of_idle {cfg : Config} {o : SOCKET_OBJ} {p : Prop} (hn : 0 ≤ cfg.gSendCount)
    (hp : ¬ p) (hcount : o.SendCount = cfg.gSendCount) (hsends : o.sends = 0)
    (hsending : sending o = []) (hshut : o.shut = false) (hsenders : o.senders = []) :
    Quota cfg p o where
  nonneg := hcount ▸ hn
  posted := by rwa [hsends]
  overlapped := by simp [hsending]
  last h := by simp [hshut] at h
  once b hb := by simp [hsenders] at hb
  done h := absurd h hp

/-- **The send quota.**  Whatever the order of the completions, a connection posts
`gSendCount` sends, at most `gOverlappedCount` at a time, and shuts down after the
last; with no send left in flight every buffer of a send has been freed once. -/
theorem send_quota (k : Nat) (n : Int) (t : Bool) (hk : 0 < k) (hn : 0 < n) (σ : Client)
    (h : Via (Client.step (Config.unlimited k n t)) Smooth
      (Client.start (Config.unlimited k n t)) σ)
    (c : Nat) : Quota (Config.unlimited k n t) (c ∈ σ.established) (σ.obj c) := by
  have hσ : Stages (Config.unlimited k n t) σ :=
    h.invariant (Stages.start _) fun _ _ _ hinv hok hstep => hinv.step hk hn hok hstep
  have hpos : 0 ≤ (Config.unlimited k n t).gSendCount := Int.le_of_lt hn
  by_cases hc : c < σ.count
  · rcases hσ.live c hc with ⟨ho, he⟩ | ⟨ho, -⟩
    · rw [show σ.obj c = _ from ho]
      exact quota_of_idle hpos he rfl rfl rfl rfl rfl
    · exact ho.quota _
  · rw [show σ.obj c = _ from hσ.fresh c (by omega)]
    exact quota_of_idle hpos (fun he => hc (hσ.known c he)) rfl rfl rfl rfl rfl

/-- Three sends, two at a time: the first buffer is posted twice. -/
theorem send_quota_three :
    ∃ σ, Via (Client.step (Config.unlimited 2 3 false)) Smooth
        (Client.start (Config.unlimited 2 3 false)) σ
      ∧ (0 ∈ σ.established ∧ (σ.obj 0).sends = 3 ∧ (σ.obj 0).freed = [3, 4, 0])
      ∧ Quota (Config.unlimited 2 3 false) (0 ∈ σ.established) (σ.obj 0) := by
  obtain ⟨σ, hσ, hend⟩ : ∃ σ, Via (Client.step (Config.unlimited 2 3 false)) Smooth
        (Client.start (Config.unlimited 2 3 false)) σ
      ∧ 0 ∈ σ.established ∧ (σ.obj 0).sends = 3 ∧ (σ.obj 0).freed = [3, 4, 0] :=
    exists_via_of_execIf
      [.connect true, .completion 0 ⟨0, .OP_CONNECT⟩ .NO_ERROR 0 none,
        .completion 0 ⟨3, .OP_WRITE⟩ .NO_ERROR 9 none,
        .completion 0 ⟨1, .OP_READ⟩ .NO_ERROR 9 none,
        .completion 0 ⟨4, .OP_WRITE⟩ .NO_ERROR 9 none,
        .completion 0 ⟨3, .OP_WRITE⟩ .NO_ERROR 9 none]
      (by decide +kernel)
  exact ⟨σ, hσ, hend, send_quota 2 3 false (by decide) (by decide) σ hσ 0⟩

end CppWorkspace.IocpClient.SendQuota
