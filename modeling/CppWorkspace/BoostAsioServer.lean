/-
# `CppWorkspace.BoostAsioServer` — the echo of `boost_asio_server.cpp`

Every connection reads into the one global `buf` and is sent the bytes back from there.
The receive handler posts the write and the next read at once, so at any time a
connection has one read in flight and any number of writes.

The handlers run one at a time (`accept`, `receive`, `send`); between any two of them
the operations in flight use their buffer:

* `store`      the next byte of a read arrives in `buf`
* `transmit`   the next byte of a write is taken from `buf`; one socket sends its
               writes in the order they were posted

A read may be handled with any number of bytes, `0` for a read that has failed, and a
write may end with any number of its bytes sent: the handlers look at no error code.

`received` and `written` are not in the source: what each client has sent and what it
was sent back.  `link_mgr_map` keeps the sockets alive and is never read; a socket is
named by its `index` in it.
-/
import Mathlib.Data.List.Basic
import CppWorkspace.Lib.Runs

namespace CppWorkspace.BoostAsioServer

open Runs

/-- `int len = 512`, the room of `buf`. -/
def len : Nat := 512

/-- An `async_write_some` in flight, of the first `len` bytes of `buf`. -/
structure Write where
  len : Nat
  sent : Nat
deriving DecidableEq, Repr

/-- For each socket `reads` tells how many bytes each of its reads has stored. -/
structure Server where
  index : Nat
  accepting : Bool
  buf : Nat → UInt8
  reads : Nat → List Nat
  writes : Nat → List Write
  received : Nat → List UInt8
  written : Nat → List UInt8

/-- `_tmain` has called `start_accept`. -/
def start : Server where
  index := 0
  accepting := true
  buf _ := 0
  reads _ := []
  writes _ := []
  received _ := []
  written _ := []

namespace Server

def tcp_async_post_read (σ : Server) (sock : Nat) : Server :=
  { σ with reads := Function.update σ.reads sock (σ.reads sock ++ [0]) }

def tcp_async_post_write (σ : Server) (sock n : Nat) : Server :=
  { σ with writes := Function.update σ.writes sock (σ.writes sock ++ [⟨n, 0⟩]) }

def tcp_async_receive_handler (σ : Server) (sock bytes_transferred : Nat) : Server :=
  (σ.tcp_async_post_write sock bytes_transferred).tcp_async_post_read sock

def start_accept (σ : Server) : Server := { σ with accepting := true }

/-- After an error `start_accept` is not called again. -/
def handle_accept (σ : Server) (err : Bool) : Server :=
  if err then σ
  else ({ σ with index := σ.index + 1 }.tcp_async_post_read σ.index).start_accept

end Server

/-- The `i`-th read or write of a socket is named by `sock` and `i`. -/
inductive Action where
  | accept (err : Bool)
  | store (sock i : Nat) (byte : UInt8)
  | receive (sock i : Nat)
  | transmit (sock i : Nat)
  | send (sock i : Nat)
deriving DecidableEq, Repr

def step (σ : Server) : Action → Option Server
  | .accept err =>
      if σ.accepting then some ({ σ with accepting := false }.handle_accept err) else none
  | .store sock i byte => do
      let p ← (σ.reads sock)[i]?
      if p < len then
        some { σ with
          buf := Function.update σ.buf p byte
          reads := Function.update σ.reads sock ((σ.reads sock).set i (p + 1))
          received := Function.update σ.received sock (σ.received sock ++ [byte]) }
      else none
  | .receive sock i => do
      let p ← (σ.reads sock)[i]?
      some ({ σ with reads := Function.update σ.reads sock ((σ.reads sock).eraseIdx i) }
        |>.tcp_async_receive_handler sock p)
  | .transmit sock i => do
      let w ← (σ.writes sock)[i]?
      if w.sent < w.len ∧ ∀ w' ∈ (σ.writes sock).take i, w'.sent = w'.len then
        some { σ with
          writes := Function.update σ.writes sock
            ((σ.writes sock).set i { w with sent := w.sent + 1 })
          written := Function.update σ.written sock (σ.written sock ++ [σ.buf w.sent]) }
      else none
  | .send sock i => do
      let _ ← (σ.writes sock)[i]?
      some { σ with writes := Function.update σ.writes sock ((σ.writes sock).eraseIdx i) }

/-- Each client is sent its own bytes, in order; and all of them, once nothing of it is
in flight. -/
def Isolated (σ : Server) : Prop :=
  ∀ s, σ.written s <+: σ.received s ∧
    (σ.writes s = [] → (∀ p ∈ σ.reads s, p = 0) → σ.written s = σ.received s)

/-! ## The buffer is not shared by two clients at a time -/

/-- `buf[p]` holds no byte that is still to be handled or to be sent. -/
def Server.Free (σ : Server) (p : Nat) : Prop :=
  ∀ s < σ.index, (∀ q ∈ σ.reads s, q ≤ p) ∧ ∀ w ∈ σ.writes s, p < w.sent ∨ w.len ≤ p

instance (σ : Server) (p : Nat) : Decidable (σ.Free p) :=
  inferInstanceAs (Decidable (∀ s < σ.index, _ ∧ _))

/-- A byte is stored only where none is waiting, and a write sends all of its bytes. -/
def Undisturbed (σ : Server) : Action → Prop
  | .store sock i _ => ∀ p ∈ (σ.reads sock)[i]?, σ.Free p
  | .send sock i => ∀ w ∈ (σ.writes sock)[i]?, w.sent = w.len
  | _ => True

instance (σ : Server) : (a : Action) → Decidable (Undisturbed σ a)
  | .store .. => inferInstanceAs (Decidable (∀ p ∈ _, σ.Free p))
  | .send .. => inferInstanceAs (Decidable (∀ w ∈ _, _))
  | .accept _ => inferInstanceAs (Decidable True)
  | .receive .. => inferInstanceAs (Decidable True)
  | .transmit .. => inferInstanceAs (Decidable True)

/-- The bytes of a read that have arrived. -/
def stored (buf : Nat → UInt8) (p : Nat) : List UInt8 := (List.range p).map buf

/-- The bytes of a write that are still to be sent. -/
def unsent (buf : Nat → UInt8) (w : Write) : List UInt8 :=
  (List.range' w.sent (w.len - w.sent)).map buf

/-- What is on its way back to a client, as `buf` has it now. -/
def Server.pending (σ : Server) (s : Nat) : List UInt8 :=
  (σ.writes s).flatMap (unsent σ.buf) ++ (σ.reads s).flatMap (stored σ.buf)

/-- What has been received has been sent back, or is on its way. -/
structure Echoing (σ : Server) : Prop where
  unused : ∀ s, σ.index ≤ s → σ.reads s = [] ∧ σ.writes s = []
  one : ∀ s, (σ.reads s).length ≤ 1
  echoed : ∀ s, σ.received s = σ.written s ++ σ.pending s

section
variable {σ σ' : Server} {buf : Nat → UInt8} {p : Nat} {b : UInt8} {w : Write}

theorem unsent_done (h : w.sent = w.len) : unsent buf w = [] := by
  simp [unsent, h]

theorem unsent_cons (h : w.sent < w.len) :
    unsent buf w = buf w.sent :: unsent buf { w with sent := w.sent + 1 } := by
  obtain ⟨n, hn⟩ := Nat.exists_eq_add_of_lt h
  have hlen : w.len - w.sent = n + 1 := by omega
  have hrest : w.len - (w.sent + 1) = n := by omega
  rw [unsent, unsent, hlen, hrest, List.range'_succ, List.map_cons]

theorem unsent_update (h : p < w.sent ∨ w.len ≤ p) :
    unsent (Function.update buf p b) w = unsent buf w := by
  refine List.map_congr_left fun q hq => Function.update_of_ne ?_ _ _
  have hq' := List.mem_range'_1.mp hq
  omega

theorem stored_update {q : Nat} (h : q ≤ p) :
    stored (Function.update buf p b) q = stored buf q := by
  refine List.map_congr_left fun r hr => Function.update_of_ne ?_ _ _
  have hr' := List.mem_range.mp hr
  omega

theorem stored_succ : stored (Function.update buf p b) (p + 1) = stored buf p ++ [b] := by
  rw [stored, List.range_succ, List.map_append, ← stored, stored_update (Nat.le_refl p),
    List.map_singleton,
    Function.update_self]

/-- A write to a free place of the buffer takes nothing from what is on its way. -/
theorem Echoing.pending_update (h : Echoing σ) (hfree : σ.Free p) (s : Nat) :
    (σ.writes s).flatMap (unsent (Function.update σ.buf p b)) =
        (σ.writes s).flatMap (unsent σ.buf) ∧
      (σ.reads s).flatMap (stored (Function.update σ.buf p b)) =
        (σ.reads s).flatMap (stored σ.buf) := by
  by_cases hs : s < σ.index
  · obtain ⟨hreads, hwrites⟩ := hfree s hs
    refine ⟨?_, ?_⟩
    · exact List.flatMap_congr fun w hw => unsent_update (hwrites w hw)
    · exact List.flatMap_congr fun q hq => stored_update (hreads q hq)
  · obtain ⟨hreads, hwrites⟩ := h.unused s (Nat.le_of_not_lt hs)
    rw [hreads, hwrites]
    exact ⟨rfl, rfl⟩

/-- A socket that has a read is in use, and the read is its only one. -/
theorem Echoing.read (h : Echoing σ) {s i : Nat} (hp : (σ.reads s)[i]? = some p) :
    s < σ.index ∧ i = 0 ∧ σ.reads s = [p] := by
  have hs : s < σ.index := by
    by_contra hs
    rw [(h.unused s (Nat.le_of_not_lt hs)).1] at hp
    cases hp
  obtain ⟨q, hq⟩ : ∃ q, σ.reads s = [q] := by
    refine List.length_eq_one_iff.mp (Nat.le_antisymm (h.one s) ?_)
    exact Nat.lt_of_le_of_lt (Nat.zero_le i) (List.getElem?_eq_some_iff.mp hp).1
  rw [hq] at hp
  cases i with
  | zero => exact ⟨hs, rfl, by rw [hq, Option.some.inj hp]⟩
  | succ i => cases hp

theorem split_at {ws : List Write} {i : Nat} (hw : ws[i]? = some w) :
    ws = ws.take i ++ w :: ws.drop (i + 1) := by
  obtain ⟨hi, rfl⟩ := List.getElem?_eq_some_iff.mp hw
  rw [← List.drop_eq_getElem_cons hi, List.take_append_drop]

theorem Echoing.write (h : Echoing σ) {s i : Nat} (hw : (σ.writes s)[i]? = some w) :
    s < σ.index := by
  by_contra hs
  rw [(h.unused s (Nat.le_of_not_lt hs)).2] at hw
  cases hw

/-- One socket changes, and the buffer only where nothing is on its way. -/
theorem Echoing.change (h : Echoing σ) {s : Nat} (hs : s < σ'.index) (hindex : σ.index ≤ σ'.index)
    (hreads : ∀ s' ≠ s, σ'.reads s' = σ.reads s') (hwrites : ∀ s' ≠ s, σ'.writes s' = σ.writes s')
    (hreceived : ∀ s' ≠ s, σ'.received s' = σ.received s')
    (hwritten : ∀ s' ≠ s, σ'.written s' = σ.written s')
    (hpending : ∀ s' ≠ s, σ'.pending s' = σ.pending s') (hone : (σ'.reads s).length ≤ 1)
    (hechoed : σ'.received s = σ'.written s ++ σ'.pending s) : Echoing σ' where
  unused s' hs' := by
    have hne : s' ≠ s := by omega
    rw [hreads s' hne, hwrites s' hne]
    exact h.unused s' (Nat.le_trans hindex hs')
  one s' := by
    by_cases hne : s' = s
    · exact hne ▸ hone
    · exact hreads s' hne ▸ h.one s'
  echoed s' := by
    by_cases hne : s' = s
    · exact hne ▸ hechoed
    · rw [hreceived s' hne, hwritten s' hne, hpending s' hne]
      exact h.echoed s'

namespace Echoing

theorem accept (h : Echoing σ) (b : Bool) :
    Echoing ({ σ with accepting := b }.handle_accept false) := by
  obtain ⟨hreads, hwrites⟩ := h.unused σ.index (Nat.le_refl _)
  have hother : ∀ s ≠ σ.index, Function.update σ.reads σ.index (σ.reads σ.index ++ [0]) s =
      σ.reads s := fun s hs => Function.update_of_ne hs _ _
  have hself : Function.update σ.reads σ.index (σ.reads σ.index ++ [0]) σ.index = [0] := by
    rw [Function.update_self, hreads, List.nil_append]
  refine h.change (s := σ.index) (Nat.lt_succ_self _) (Nat.le_succ _) hother (fun _ _ => rfl)
    (fun _ _ => rfl) (fun _ _ => rfl) (fun s hs => ?_) ?_ ?_
  · exact congrArg (fun l => (σ.writes s).flatMap (unsent σ.buf) ++ l.flatMap (stored σ.buf))
      (hother s hs)
  · exact congrArg List.length hself ▸ Nat.le_refl 1
  · refine (h.echoed σ.index).trans (congrArg (σ.written σ.index ++ ·) ?_)
    change _ = (σ.writes σ.index).flatMap (unsent σ.buf) ++ List.flatMap (stored σ.buf)
      (Function.update σ.reads σ.index (σ.reads σ.index ++ [0]) σ.index)
    rw [hself, Server.pending, hreads]
    rfl

theorem store {s i : Nat} (h : Echoing σ) (hp : (σ.reads s)[i]? = some p) (hfree : σ.Free p) :
    Echoing { σ with
      buf := Function.update σ.buf p b
      reads := Function.update σ.reads s ((σ.reads s).set i (p + 1))
      received := Function.update σ.received s (σ.received s ++ [b]) } := by
  obtain ⟨hs, rfl, hreads⟩ := h.read hp
  refine h.change (s := s) hs (Nat.le_refl _) (fun s' hs' => Function.update_of_ne hs' _ _)
    (fun _ _ => rfl) (fun s' hs' => Function.update_of_ne hs' _ _) (fun _ _ => rfl)
    (fun s' hs' => ?_) ?_ ?_
  · obtain ⟨hwrites, hothers⟩ := h.pending_update (b := b) hfree s'
    simp only [Server.pending, Function.update_of_ne hs', hwrites, hothers]
  · simp only [Function.update_self, List.length_set]
    exact h.one s
  · obtain ⟨hwrites, -⟩ := h.pending_update (b := b) hfree s
    simp only [Server.pending, Function.update_self, hwrites]
    rw [h.echoed s, Server.pending, hreads, List.set_cons_zero, List.flatMap_singleton,
      List.flatMap_singleton, stored_succ]
    simp only [List.append_assoc]

theorem receive {s i : Nat} (h : Echoing σ) (hp : (σ.reads s)[i]? = some p) :
    Echoing ({ σ with reads := Function.update σ.reads s ((σ.reads s).eraseIdx i) }
      |>.tcp_async_receive_handler s p) := by
  obtain ⟨hs, rfl, hreads⟩ := h.read hp
  have hself : (Function.update (Function.update σ.reads s ((σ.reads s).eraseIdx 0)) s
      (Function.update σ.reads s ((σ.reads s).eraseIdx 0) s ++ [0])) =
        Function.update σ.reads s [0] := by
    rw [Function.update_idem, Function.update_self, hreads]
    rfl
  refine h.change (s := s) hs (Nat.le_refl _) (fun s' hs' => ?_)
    (fun s' hs' => Function.update_of_ne hs' _ _) (fun _ _ => rfl) (fun _ _ => rfl)
    (fun s' hs' => ?_) ?_ ?_
  · exact (congrFun hself s').trans (Function.update_of_ne hs' _ _)
  · simp only [Server.pending, Server.tcp_async_receive_handler, Server.tcp_async_post_read,
      Server.tcp_async_post_write, Function.update_of_ne hs']
  · exact congrArg List.length ((congrFun hself s).trans (Function.update_self _ _ _)) ▸
      Nat.le_refl 1
  · simp only [Server.pending, Server.tcp_async_receive_handler, Server.tcp_async_post_read,
      Server.tcp_async_post_write, Function.update_self]
    rw [h.echoed s, Server.pending, hreads]
    simp [stored, unsent, List.range_eq_range']

theorem transmit {s i : Nat} (h : Echoing σ) (hw : (σ.writes s)[i]? = some w)
    (hlt : w.sent < w.len) (hfirst : ∀ w' ∈ (σ.writes s).take i, w'.sent = w'.len) :
    Echoing { σ with
      writes := Function.update σ.writes s ((σ.writes s).set i { w with sent := w.sent + 1 })
      written := Function.update σ.written s (σ.written s ++ [σ.buf w.sent]) } := by
  refine h.change (s := s) (h.write hw) (Nat.le_refl _) (fun _ _ => rfl)
    (fun s' hs' => Function.update_of_ne hs' _ _) (fun _ _ => rfl)
    (fun s' hs' => Function.update_of_ne hs' _ _) (fun s' hs' => ?_) (h.one s) ?_
  · simp only [Server.pending, Function.update_of_ne hs']
  · have hsplit := split_at hw
    have hset : (σ.writes s).set i { w with sent := w.sent + 1 } =
        (σ.writes s).take i ++ { w with sent := w.sent + 1 } :: (σ.writes s).drop (i + 1) :=
      List.set_eq_take_append_cons_drop.trans (if_pos (List.getElem?_eq_some_iff.mp hw).1)
    have hdone : ((σ.writes s).take i).flatMap (unsent σ.buf) = [] :=
      List.flatMap_eq_nil_iff.mpr fun w' hw' => unsent_done (hfirst w' hw')
    have hpending : (σ.writes s).flatMap (unsent σ.buf) = σ.buf w.sent ::
        ((σ.writes s).set i { w with sent := w.sent + 1 }).flatMap (unsent σ.buf) := by
      rw [hset]
      conv => lhs; rw [hsplit]
      rw [List.flatMap_append, List.flatMap_append, hdone, List.flatMap_cons, List.flatMap_cons,
        unsent_cons hlt]
      rfl
    simp only [Server.pending, Function.update_self]
    rw [h.echoed s, Server.pending, hpending]
    simp only [List.append_assoc, List.cons_append, List.nil_append]

theorem send {s i : Nat} (h : Echoing σ) (hw : (σ.writes s)[i]? = some w)
    (hall : w.sent = w.len) :
    Echoing { σ with writes := Function.update σ.writes s ((σ.writes s).eraseIdx i) } := by
  refine h.change (s := s) (h.write hw) (Nat.le_refl _) (fun _ _ => rfl)
    (fun s' hs' => Function.update_of_ne hs' _ _) (fun _ _ => rfl) (fun _ _ => rfl)
    (fun s' hs' => ?_) (h.one s) ?_
  · simp only [Server.pending, Function.update_of_ne hs']
  · have hsplit := split_at hw
    have hpending : (σ.writes s).flatMap (unsent σ.buf) =
        ((σ.writes s).eraseIdx i).flatMap (unsent σ.buf) := by
      rw [List.eraseIdx_eq_take_drop_succ]
      conv => lhs; rw [hsplit]
      rw [List.flatMap_append, List.flatMap_append, List.flatMap_cons, unsent_done hall]
      rfl
    simp only [Server.pending, Function.update_self]
    rw [h.echoed s, Server.pending, hpending]

theorem step {a : Action} (h : Echoing σ) (ha : Undisturbed σ a)
    (hstep : BoostAsioServer.step σ a = some σ') : Echoing σ' := by
  cases a with
  | accept err =>
      obtain ⟨-, ht⟩ := Option.ite_none_right_eq_some.mp hstep
      cases ht
      cases err with
      | true => exact ⟨h.unused, h.one, h.echoed⟩
      | false => exact h.accept false
  | store s i byte =>
      obtain ⟨p, hp, ht⟩ := Option.bind_eq_some_iff.mp hstep
      obtain ⟨-, ht⟩ := Option.ite_none_right_eq_some.mp ht
      cases ht
      exact h.store hp (ha p hp)
  | receive s i =>
      obtain ⟨p, hp, ht⟩ := Option.bind_eq_some_iff.mp hstep
      cases ht
      exact h.receive hp
  | transmit s i =>
      obtain ⟨w, hw, ht⟩ := Option.bind_eq_some_iff.mp hstep
      obtain ⟨⟨hlt, hfirst⟩, ht⟩ := Option.ite_none_right_eq_some.mp ht
      cases ht
      exact h.transmit hw hlt hfirst
  | send s i =>
      obtain ⟨w, hw, ht⟩ := Option.bind_eq_some_iff.mp hstep
      cases ht
      exact h.send hw (ha w hw)

theorem toIsolated (h : Echoing σ) : Isolated σ := by
  intro s
  refine ⟨?_, fun hwrites hreads => ?_⟩
  · rw [h.echoed s]
    exact List.prefix_append _ _
  · have hnone : (σ.reads s).flatMap (stored σ.buf) = [] := by
      refine List.flatMap_eq_nil_iff.mpr fun p hp => ?_
      rw [hreads p hp]
      rfl
    rw [h.echoed s, Server.pending, hwrites, hnone]
    simp

end Echoing

end

theorem echoing_start : Echoing start :=
  ⟨fun _ _ => ⟨rfl, rfl⟩, fun _ => Nat.zero_le 1, fun _ => rfl⟩

/-- In a run in which no byte of `buf` is overwritten before it is sent, and each write
sends all of its bytes, every client gets back what it has sent and nothing else. -/
theorem users_isolated {σ : Server} (h : Via step Undisturbed start σ) : Isolated σ :=
  Echoing.toIsolated (h.invariant echoing_start fun _ _ _ ih ha hs => ih.step ha hs)

/-- Two clients one after the other; the second one sends two bytes. -/
theorem users_isolated_two : ∃ σ, Via step Undisturbed start σ ∧ σ.written 0 = [7] ∧
    σ.written 1 = [1, 2] ∧ Isolated σ := by
  have hrun : ∃ σ, Via step Undisturbed start σ ∧ σ.written 0 = [7] ∧ σ.written 1 = [1, 2] :=
    exists_via_of_execIf [.accept false, .accept false, .store 0 0 7, .receive 0 0,
      .transmit 0 0, .store 1 0 1, .store 1 0 2, .receive 1 0, .send 0 0, .transmit 1 0,
      .transmit 1 0, .send 1 0] (by decide +kernel)
  obtain ⟨σ, hσ, h₀, h₁⟩ := hrun
  exact ⟨σ, hσ, h₀, h₁, users_isolated hσ⟩

/-- A client is sent the byte of another one, which has come before its own was sent. -/
theorem not_users_isolated : ¬ ∀ σ, Via step (fun _ _ => True) start σ → Isolated σ := by
  intro h
  have hrun : ∃ σ, Via step (fun _ _ => True) start σ ∧ σ.received 0 = [7] ∧
      σ.received 1 = [9] ∧ σ.written 0 = [9] :=
    exists_via_of_execIf [.accept false, .accept false, .store 0 0 7, .receive 0 0,
      .store 1 0 9, .transmit 0 0] (by decide +kernel)
  obtain ⟨σ, hσ, h₀, -, hwritten⟩ := hrun
  have hprefix := (h σ hσ 0).1
  rw [h₀, hwritten] at hprefix
  exact absurd hprefix (by decide)

end CppWorkspace.BoostAsioServer
