/-
# `CppWorkspace.TcpServer.Replenish` — the number of accepts that are posted

When an accept has completed, `CompleteAccept` posts the next one, or releases the
semaphore on which `ListenThread` posts one: the event ANSWERS for an accept.  An
event that posts accepts of its own (at start, on `FD_ACCEPT`) adds to `posted`.

    in flight + semaphore + owed by the threads = posted

An accept that completes with an error is not answered for, nor is one whose
`CompleteAccept` fails before it comes to that (`accept_not_replenished`).  In a run
without these failures each completion is answered for once, and the sum above holds
(`accepts_replenished`).
-/
import Mathlib.Algebra.Order.Ring.Int
import CppWorkspace.TcpServer.Places

namespace CppWorkspace.TcpServer

open Programs Runs

/-! ## What an event answers for -/

/-- The accepts in flight. -/
def Server.accepting (σ : Server) : Nat := σ.flight.countP fun op => op.kind = .accept

/-- What a command answers for. -/
def Event.cost (e : Event) : (c : Cmd) → c.Reply → Nat
  | .AcceptEx _, v => if v ∧ e.posts = false then 1 else 0
  | .ReleaseSemaphore, _ => 1
  | _, _ => 0

/-- What an event has to answer for. -/
def Event.owes : Event → Nat
  | .completion op _ _ => if op.kind = .accept then 1 else 0
  | .semaphore => 1
  | _ => 0

/-- The calls of `CompleteAccept` before the next accept. -/
def Cmd.completes : Cmd → Bool
  | .call f _ => f ≠ .ioctlsocket
  | .GetContext .receive _ => true
  | .WSARecv _ => true
  | _ => false

/-- The calls of `IssueAcceptOperation`. -/
def Cmd.accepts : Cmd → Bool
  | .WSASocket => true
  | .call .ioctlsocket _ => true
  | .GetContext .accept _ => true
  | .AcceptEx _ => true
  | _ => false

/-- A command whose failure lets an event end without an answer. -/
def Event.vital (e : Event) (c : Cmd) : Bool :=
  match e with
  | .completion op _ _ => op.kind = .accept && c.completes
  | .semaphore => c.accepts
  | _ => false

/-- A reply that is no failure. -/
def Cmd.good : (c : Cmd) → c.Reply → Bool
  | .WSASocket, v => v ≠ INVALID_SOCKET
  | .call _ _, v => v
  | .GetContext _ _, v => v.isSome
  | .AcceptEx _, v => v
  | .WSARecv _, v => v
  | _, _ => true

/-- No vital command fails, the semaphore is not at its maximum when it is
released, and no accept completes with an error. -/
def Steady (m : Machine) : Action → Prop
  | .run t .fail =>
      match m.event t, m.next t with
      | some e, some c => e.vital c = false
      | _, _ => True
  | .run t .ok => m.next t = some .ReleaseSemaphore → m.shared.semaphore < m_iMaxPostAcceptNumbs
  | .begin _ (.completion op false _) => op.kind ≠ .accept
  | _ => True

theorem steady_fail {m : Machine} {t : Nat} :
    (∀ e ∈ m.event t, ∀ c ∈ m.next t, e.vital c = false) ↔ Steady m (.run t .fail) := by
  cases he : m.event t with
  | none => simp [Steady, he]
  | some e =>
      cases hc : m.next t with
      | none => simp [Steady, he, hc]
      | some c => simp [Steady, he, hc]

instance (m : Machine) : (a : Action) → Decidable (Steady m a)
  | .run _ .fail => decidable_of_iff _ steady_fail
  | .run _ .ok => inferInstanceAs (Decidable (_ → _ < _))
  | .run _ (.handle _) => instDecidableTrue
  | .begin _ (.completion op false _) => inferInstanceAs (Decidable (op.kind ≠ .accept))
  | .begin _ (.completion _ true _) => instDecidableTrue
  | .begin _ .InitServer | .begin _ .FD_ACCEPT | .begin _ .semaphore | .begin _ .TimerProc
  | .begin _ (.SendData _ _) | .begin _ (.SendFile _) => instDecidableTrue
  | .finish _ => instDecidableTrue

/-! ## The functions

`Answers e p post`: on each path of `p` on which no vital command fails, `post`
holds of the result and of what is answered for. -/

section
variable {β γ : Type} {e : Event}

/-- Vital commands do not fail. -/
def Event.Allows (e : Event) (c : Cmd) (v : c.Reply) : Prop := e.vital c = true → c.good v = true

abbrev Answers (e : Event) (p : Program β) (post : β → Nat → Prop) : Prop :=
  p.Costs e.Allows e.cost post

/-- Nothing is answered for. -/
abbrev Quiet (e : Event) (p : Program β) : Prop := p.Free e.Allows e.cost

open Prog

theorem quiet_closeClientSocket {h : SOCKET} : Quiet e (CloseClientSocket h) := by
  refine free_bind (free_perform fun _ => rfl) fun v => ?_
  cases v with
  | true => exact free_perform fun _ => rfl
  | false => exact free_pure

theorem quiet_sweep {l : List SOCKET} : Quiet e (sweep l) := by
  induction l with
  | nil => exact free_pure
  | cons h l ih =>
      refine free_bind (free_perform fun _ => rfl) fun v => ?_
      cases v with
      | true =>
          refine free_bind (free_perform fun _ => rfl) fun _ => ?_
          exact free_bind (free_perform fun _ => rfl) fun _ => ih
      | false => exact ih

theorem quiet_connectTimeOutCheck : Quiet e ConnectTimeOutCheck := by
  refine free_bind (free_perform fun _ => rfl) fun _ => ?_
  exact free_bind quiet_sweep fun _ => free_perform fun _ => rfl

theorem quiet_issueReceiveOperation {h : SOCKET} : Quiet e (IssueReceiveOperation h) := by
  refine free_bind (free_perform fun _ => rfl) fun v => ?_
  cases v with
  | none => exact free_pure
  | some c =>
      refine free_bind (free_perform fun _ => rfl) fun v => ?_
      cases v with
      | true => exact free_pure
      | false => exact free_bind (free_perform fun _ => rfl) fun _ => free_pure

theorem quiet_sendLoop {h : SOCKET} {data : List UInt8} {rounds leavingBytes : Nat} :
    Quiet e (sendLoop h data rounds leavingBytes) := by
  induction rounds generalizing leavingBytes with
  | zero => exact free_pure
  | succ rounds ih =>
      refine free_bind (free_perform fun _ => rfl) fun v => ?_
      cases v with
      | none => exact free_pure
      | some c =>
          refine free_bind (free_perform fun _ => rfl) fun leaving => ?_
          refine free_bind (free_perform fun _ => rfl) fun v => ?_
          cases v with
          | true =>
              rw [if_pos rfl]
              split
              · exact ih
              · exact free_pure
          | false => exact free_bind (free_perform fun _ => rfl) fun _ => free_pure

theorem quiet_issueSendOperation {h : SOCKET} {data : List UInt8} {n : Nat} :
    Quiet e (IssueSendOperation h data n) := by
  unfold IssueSendOperation
  split
  · exact quiet_sendLoop
  · exact free_pure

theorem quiet_sendData {h : SOCKET} {pVoid : Option (List UInt8)} :
    Quiet e (SendData h pVoid) := by
  refine free_bind (free_perform fun _ => rfl) fun v => ?_
  cases v with
  | true =>
      cases pVoid with
      | some data => exact quiet_issueSendOperation
      | none => exact free_pure
  | false => exact free_pure

theorem quiet_sendFile {h : SOCKET} : Quiet e (SendFile h) := by
  refine free_bind (free_perform fun _ => rfl) fun v => ?_
  cases v with
  | false => exact free_pure
  | true =>
      refine free_bind (free_perform fun _ => rfl) fun v => ?_
      cases v with
      | false => exact free_pure
      | true =>
          refine free_bind (free_perform fun _ => rfl) fun v => ?_
          cases v with
          | none => exact free_pure
          | some c =>
              refine free_bind (free_perform fun _ => rfl) fun _ => ?_
              refine free_bind (free_perform fun _ => rfl) fun v => ?_
              cases v with
              | true => exact free_pure
              | false => exact free_perform fun _ => rfl

theorem quiet_saveReceivedData {cls : Class} {h : SOCKET} {data : List UInt8} :
    Quiet e (SaveReceivedData cls h data) := by
  cases cls with
  | CTcpServer => exact free_pure
  | CWebServer => exact free_bind quiet_sendData fun _ => free_pure

theorem quiet_callOn {k : Kind} {c : Nat} {f : Call} : Quiet e (callOn k c f) :=
  free_bind (free_perform fun _ => rfl) fun _ => free_perform fun _ => rfl

theorem quiet_closeOf {k : Kind} {c : Nat} : Quiet e (closeOf k c) :=
  free_bind (free_perform fun _ => rfl) fun _ => quiet_closeClientSocket

theorem quiet_releaseAndClose {c : Nat} : Quiet e (releaseAndClose c) := by
  refine free_bind (free_perform fun _ => rfl) fun _ => ?_
  exact free_bind quiet_closeOf fun _ => free_pure

theorem quiet_completeReceive {cls : Class} {c : Nat} {data : List UInt8} :
    Quiet e (CompleteReceive cls c data) := by
  unfold CompleteReceive
  split
  · refine free_bind quiet_callOn fun v => ?_
    cases v with
    | false => exact quiet_releaseAndClose
    | true =>
        refine free_bind (free_perform fun _ => rfl) fun _ => ?_
        refine free_bind quiet_saveReceivedData fun _ => ?_
        refine free_bind (free_perform fun _ => rfl) fun _ => ?_
        refine free_bind quiet_issueReceiveOperation fun v => ?_
        cases v with
        | false => exact quiet_releaseAndClose
        | true => exact free_bind (free_perform fun _ => rfl) fun _ => free_pure
  · refine free_bind quiet_closeOf fun _ => ?_
    exact free_bind (free_perform fun _ => rfl) fun _ => free_pure

theorem quiet_completeSend {c : Nat} : Quiet e (CompleteSend c) := by
  refine free_bind (free_perform fun _ => rfl) fun _ => ?_
  refine free_bind quiet_issueSendOperation fun _ => ?_
  exact free_bind (free_perform fun _ => rfl) fun _ => free_pure

/-- `IssueAcceptOperation` answers for one accept if it returns `true`, unless the
event posts accepts of its own; it does so if none of its calls may fail. -/
theorem answers_issueAcceptOperation : Answers e IssueAcceptOperation fun b n =>
    (n = if b ∧ e.posts = false then 1 else 0) ∧
      ((∀ c, c.accepts = true → e.vital c = true) → b = true) := by
  refine costs_call (fun _ => rfl) fun h hvalid => ?_
  split
  · rename_i hinvalid
    refine costs_free quiet_closeClientSocket fun _ => costs_pure ⟨rfl, fun hvital => ?_⟩
    exact absurd (hvalid (hvital .WSASocket rfl)) (by simp [Cmd.good, hinvalid])
  refine costs_call (fun _ => rfl) fun v hcall => ?_
  cases v with
  | false =>
      refine costs_free quiet_closeClientSocket fun _ => costs_pure ⟨rfl, fun hvital => ?_⟩
      exact hcall (hvital _ rfl)
  | true =>
      refine costs_call (fun _ => rfl) fun v hget => ?_
      cases v with
      | none =>
          refine costs_free quiet_closeClientSocket fun _ => costs_pure ⟨rfl, fun hvital => ?_⟩
          exact hget (hvital _ rfl)
      | some c =>
          refine costs_call (fun _ => rfl) fun _ _ => ?_
          refine costs_bind (costs_perform
            (P := fun v n => (n = if v ∧ e.posts = false then 1 else 0) ∧
              e.Allows (.AcceptEx c) v) fun v hv => ⟨rfl, hv⟩) ?_
          rintro v n ⟨rfl, haccept⟩
          cases v with
          | true => exact costs_pure ⟨rfl, fun _ => rfl⟩
          | false =>
              refine costs_free quiet_closeClientSocket fun _ => ?_
              refine costs_call (fun _ => rfl) fun _ _ => costs_pure ⟨rfl, fun hvital => ?_⟩
              exact haccept (hvital _ rfl)

theorem answers_postAcceptOperation (n : Nat) (he : e.posts = true) :
    Quiet e (PostAcceptOperation n) := by
  induction n with
  | zero => exact free_pure
  | succ n ih =>
      refine free_bind ?_ fun _ => free_bind ih fun _ => free_pure
      refine costs_mono answers_issueAcceptOperation fun b n hn => ?_
      simpa [he] using hn.1

variable {op : Op} {b : Bool} {data : List UInt8}

theorem answers_callOn {k : Kind} {c : Nat} {f : Call} (hop : op.kind = .accept)
    (hf : f ≠ .ioctlsocket) : Answers (.completion op b data) (callOn k c f) fun v n =>
      n = 0 ∧ v = true := by
  refine costs_call (fun _ => rfl) fun h _ => ?_
  exact costs_perform fun v hv => ⟨rfl, hv (by simp [Event.vital, hop, Cmd.completes, hf])⟩

theorem answers_issueReceiveOperation {h : SOCKET} (hop : op.kind = .accept) :
    Answers (.completion op b data) (IssueReceiveOperation h) fun v n => n = 0 ∧ v = true := by
  refine costs_call (fun _ => rfl) fun v hget => ?_
  cases v with
  | none => exact absurd (hget (by simp [Event.vital, hop, Cmd.completes])) Bool.false_ne_true
  | some c =>
      refine costs_call (fun _ => rfl) fun v hrecv => ?_
      cases v with
      | true => exact costs_pure ⟨rfl, rfl⟩
      | false =>
          exact absurd (hrecv (by simp [Event.vital, hop, Cmd.completes])) Bool.false_ne_true

/-- `CompleteAccept` answers for one accept, if no call before that fails. -/
theorem answers_completeAccept {c : Nat} (hop : op.kind = .accept) :
    Answers (.completion op b data) (CompleteAccept c) fun _ n => n = 1 := by
  refine costs_call (fun _ => rfl) fun h _ => ?_
  refine costs_call (fun _ => rfl) fun _ _ => ?_
  refine costs_bind (answers_callOn hop (by simp)) ?_
  rintro v n ⟨rfl, rfl⟩
  refine costs_bind (answers_callOn hop (by simp)) ?_
  rintro v n ⟨rfl, rfl⟩
  refine costs_bind (answers_callOn hop (by simp)) ?_
  rintro v n ⟨rfl, rfl⟩
  refine costs_bind (answers_callOn hop (by simp)) ?_
  rintro v n ⟨rfl, rfl⟩
  refine costs_bind (answers_callOn hop (by simp)) ?_
  rintro v n ⟨rfl, rfl⟩
  refine costs_call (fun _ => rfl) fun h _ => ?_
  refine costs_bind (answers_issueReceiveOperation hop) ?_
  rintro v n ⟨rfl, rfl⟩
  refine costs_bind answers_issueAcceptOperation ?_
  rintro v n ⟨rfl, -⟩
  cases v with
  | true => exact costs_call (fun _ => rfl) fun _ _ => costs_pure rfl
  | false =>
      refine costs_bind (costs_perform (P := fun _ n => n = 1) fun _ _ => rfl) ?_
      rintro _ _ rfl
      exact costs_call (fun _ => rfl) fun _ _ => costs_pure rfl

theorem answers_workThread {cls : Class} (hb : b = false → op.kind ≠ .accept) :
    Answers (.completion op b data) (WorkThread cls op b data) fun _ n =>
      n = if op.kind = .accept then 1 else 0 := by
  unfold WorkThread
  split
  · rw [if_neg (hb rfl)]
    exact free_bind quiet_closeOf fun _ => free_perform fun _ => rfl
  · rename_i hop
    rw [if_pos hop]
    refine costs_bind (answers_completeAccept hop) ?_
    rintro _ _ rfl
    exact costs_pure rfl
  · rename_i hop
    rw [if_neg (show ¬ op.kind = .accept by simp [hop])]
    split
    · exact free_bind quiet_closeOf fun _ => free_perform fun _ => rfl
    · exact free_bind quiet_completeReceive fun _ => free_pure
  · rename_i hop
    rw [if_neg (show ¬ op.kind = .accept by simp [hop])]
    exact free_bind quiet_completeSend fun _ => free_pure

theorem answers_program {cls : Class}
    (hfail : ∀ op data, e = .completion op false data → op.kind ≠ .accept) :
    Answers e (e.program cls) fun _ n => n = e.owes := by
  cases e with
  | InitServer => exact free_bind (answers_postAcceptOperation _ rfl) fun _ => free_pure
  | FD_ACCEPT => exact free_bind (answers_postAcceptOperation _ rfl) fun _ => free_pure
  | semaphore =>
      refine costs_bind (Q := fun _ n => n = 1) ?_ ?_
      · refine costs_bind answers_issueAcceptOperation ?_
        rintro v n ⟨rfl, hv⟩
        obtain rfl := hv fun c hc => hc
        exact costs_free free_pure fun _ => costs_pure rfl
      · rintro _ _ rfl
        exact costs_pure rfl
  | completion op b data =>
      refine answers_workThread ?_
      rintro rfl
      exact hfail op data rfl
  | TimerProc => exact quiet_connectTimeOutCheck
  | SendData sock pVoid => exact free_bind quiet_sendData fun _ => free_pure
  | SendFile sock => exact quiet_sendFile

end

/-! ## What a command does to the sum -/

/-- The answers of thread `t`, and the sum, move by what the command costs. -/
structure Moves (e : Event) (t : Nat) (σ σ' : Server) (n : Nat) : Prop where
  answers : σ'.answers = Pool.write σ.answers t (σ.answers t + n)
  sum : σ'.accepting + σ'.semaphore + σ.posted = σ.accepting + σ.semaphore + σ'.posted + n

section
variable {e : Event} {t : Nat} {σ σ' : Server}

theorem moves_zero (hanswers : σ'.answers = σ.answers) (haccepting : σ'.accepting = σ.accepting)
    (hsemaphore : σ'.semaphore = σ.semaphore) (hposted : σ'.posted = σ.posted) :
    Moves e t σ σ' 0 := by
  refine ⟨?_, by rw [haccepting, hsemaphore, hposted, Nat.add_zero]⟩
  rw [hanswers, Nat.add_zero, Pool.write_eq_self]

theorem moves_post {σ₁ : Server} {k : Kind} {c : Nat} {h : SOCKET} (hk : k ≠ .accept)
    (hpost : σ.post t k c h = some σ₁) (hanswers : σ'.answers = σ₁.answers)
    (hflight : σ'.flight = σ₁.flight) (hsemaphore : σ'.semaphore = σ₁.semaphore)
    (hposted : σ'.posted = σ₁.posted) : Moves e t σ σ' 0 := by
  obtain ⟨conn, -, rfl⟩ := post_eq_some hpost
  refine moves_zero hanswers ?_ hsemaphore hposted
  rw [Server.accepting, hflight, List.countP_cons_of_neg (by simpa using hk)]
  rfl

theorem moves_accept {σ₁ : Server} {c : Nat} {h : SOCKET}
    (hpost : σ.post t .accept c h = some σ₁)
    (hanswers : σ'.answers = if e.posts then σ.answers else
      Pool.write σ.answers t (σ.answers t + 1))
    (hflight : σ'.flight = σ₁.flight) (hsemaphore : σ'.semaphore = σ₁.semaphore)
    (hposted : σ'.posted = if e.posts then σ.posted + 1 else σ.posted) :
    Moves e t σ σ' (e.cost (.AcceptEx c) true) := by
  obtain ⟨conn, -, rfl⟩ := post_eq_some hpost
  have haccepting : σ'.accepting = σ.accepting + 1 := by
    rw [Server.accepting, hflight]
    exact List.countP_cons_of_pos (by simp)
  change σ'.semaphore = σ.semaphore at hsemaphore
  cases hposts : e.posts with
  | true =>
      rw [hposts, if_pos rfl] at hanswers hposted
      have hcost : e.cost (.AcceptEx c) true = 0 := by simp [Event.cost, hposts]
      refine ⟨?_, ?_⟩
      · rw [hcost, hanswers, Nat.add_zero, Pool.write_eq_self]
      · rw [hcost, haccepting, hsemaphore, hposted]
        omega
  | false =>
      rw [hposts, if_neg Bool.false_ne_true] at hanswers hposted
      have hcost : e.cost (.AcceptEx c) true = 1 := by simp [Event.cost, hposts]
      refine ⟨?_, ?_⟩
      · rw [hcost, hanswers]
      · rw [hcost, haccepting, hsemaphore, hposted]
        omega

theorem exec_moves {c : Cmd} {x : Choice} {v : c.Reply}
    (hsem : x = .ok → c = .ReleaseSemaphore → σ.semaphore < m_iMaxPostAcceptNumbs)
    (hexec : exec t e c σ x = some (σ', v)) : Moves e t σ σ' (e.cost c v) := by
  cases c with
  | AcceptEx c =>
      cases x with
      | ok =>
          obtain ⟨σ₁, hpost, heq⟩ := Option.map_eq_some_iff.mp hexec
          cases heq
          exact moves_accept hpost rfl rfl rfl rfl
      | fail =>
          cases hexec
          exact moves_zero rfl rfl rfl rfl
      | handle => cases hexec
  | ReleaseSemaphore =>
      cases x with
      | ok =>
          simp only [exec, if_pos (hsem rfl rfl)] at hexec
          cases hexec
          refine ⟨rfl, ?_⟩
          show σ.accepting + (σ.semaphore + 1) + σ.posted = σ.accepting + σ.semaphore + σ.posted + 1
          omega
      | fail => cases hexec
      | handle => cases hexec
  | WSARecv c | WSASend c | TransmitFile c h =>
      cases x with
      | ok =>
          obtain ⟨σ₁, hpost, heq⟩ := Option.map_eq_some_iff.mp hexec
          cases heq
          exact moves_post (by simp) hpost rfl rfl rfl rfl
      | fail =>
          cases hexec
          exact moves_zero rfl rfl rfl rfl
      | handle => cases hexec
  -- the others post nothing and leave the semaphore alone
  | _ =>
      cases x <;> simp only [exec] at hexec <;> (try split at hexec) <;> cases hexec <;>
        exact moves_zero rfl rfl rfl rfl

theorem exec_allows {c : Cmd} {x : Choice} {v : c.Reply} (hx : x = .fail → e.vital c = false)
    (hexec : exec t e c σ x = some (σ', v)) : e.Allows c v := by
  intro hvital
  have hne : x ≠ .fail := fun h => by simp [hx h] at hvital
  cases c with
  | WSASocket =>
      cases x with
      | ok => cases hexec
      | fail => exact absurd rfl hne
      | handle h =>
          obtain ⟨hfree, heq⟩ := Option.ite_none_right_eq_some.mp hexec
          cases heq
          simpa [Cmd.good] using hfree.2.1
  | call f h =>
      cases x with
      | ok => cases hexec; rfl
      | fail => exact absurd rfl hne
      | handle => cases hexec
  | GetContext k h =>
      cases x with
      | ok => cases hexec; rfl
      | fail => exact absurd rfl hne
      | handle => cases hexec
  | AcceptEx c =>
      cases x with
      | ok =>
          obtain ⟨σ₁, -, heq⟩ := Option.map_eq_some_iff.mp hexec
          cases heq
          rfl
      | fail => exact absurd rfl hne
      | handle => cases hexec
  | WSARecv c =>
      cases x with
      | ok =>
          obtain ⟨σ₁, -, heq⟩ := Option.map_eq_some_iff.mp hexec
          cases heq
          rfl
      | fail => exact absurd rfl hne
      | handle => cases hexec
  | _ => rfl

/-- The beginning of an event takes out of the sum what the event owes. -/
theorem spawn_moves {cls : Class} {p : Program Unit} (hspawn : spawn cls t e σ = some (σ', p)) :
    p = e.program cls ∧ σ'.answers = Pool.write σ.answers t 0 ∧
      σ'.accepting + σ'.semaphore + e.owes = σ.accepting + σ.semaphore ∧
      σ'.posted = σ.posted := by
  unfold spawn at hspawn
  split at hspawn
  · rename_i op b data
    split at hspawn
    · rename_i hmem
      cases hspawn
      refine ⟨rfl, rfl, ?_, rfl⟩
      have hcount : σ.accepting =
          (op :: σ.flight.erase op).countP fun op => op.kind = .accept :=
        (List.perm_cons_erase hmem).countP_eq _
      rw [hcount, List.countP_cons]
      simp only [Server.accepting, Event.owes, decide_eq_true_eq]
      omega
    · cases hspawn
  · split at hspawn
    · rename_i hpos
      cases hspawn
      refine ⟨rfl, rfl, ?_, rfl⟩
      show σ.accepting + (σ.semaphore - 1) + 1 = σ.accepting + σ.semaphore
      omega
    · cases hspawn
  · rename_i hcompletion hsemaphore
    cases hspawn
    refine ⟨rfl, rfl, ?_, rfl⟩
    cases e with
    | completion op b data => exact absurd rfl (hcompletion op b data)
    | semaphore => exact absurd rfl hsemaphore
    | _ => rfl

end

/-! ## Runs -/

/-- A thread owns what it still owes. -/
def ledger (cls : Class) : Logic Server Cmd Cmd.Reply Choice Event Unit ℤ where
  toSystem := system cls
  Inv σ R := (σ.accepting + σ.semaphore : ℤ) + R = σ.posted
  Pre _ _ _ _ _ := True
  ok _ e c σ _ x := (x = .fail → e.vital c = false) ∧
    (x = .ok → c = .ReleaseSemaphore → σ.semaphore < m_iMaxPostAcceptNumbs)

section
variable {cls : Class} {t : Nat} {e : Event}

theorem does_ledger {c : Cmd} {r : ℤ} :
    Does (ledger cls) t e c r fun v r' => e.Allows c v ∧ r' = r - e.cost c v := by
  intro σ F hinv
  refine ⟨trivial, fun x σ' v hok hexec => ⟨r - e.cost c v, ?_, exec_allows hok.1 hexec, rfl⟩⟩
  have hsum := (exec_moves hok.2 hexec).sum
  change (σ.accepting + σ.semaphore : ℤ) + (r + F) = σ.posted at hinv
  change (σ'.accepting + σ'.semaphore : ℤ) + (r - e.cost c v + F) = σ'.posted
  omega

theorem wp_ledger {β : Type} {p : Program β} {post : β → Nat → Prop} {r : ℤ}
    (h : Answers e p post) :
    wp (ledger cls) t e p (fun b r' => ∃ n, post b n ∧ r' = r - n) r := by
  induction p generalizing post r with
  | ret b => exact ⟨0, h, by simp⟩
  | call c k ih =>
      refine Does.mono does_ledger ?_
      rintro v _ ⟨hv, rfl⟩
      refine wp_mono (ih v (h v hv)) ?_
      rintro b _ ⟨n, hb, rfl⟩
      exact ⟨e.cost c v + n, hb, by omega⟩

end

/-- What is left of the program of each event answers for what is left to answer. -/
def Answered (m : Machine) : Prop :=
  ∀ t e p, m.threads[t]? = some (some (e, p)) →
    Answers e p fun _ n => m.shared.answers t + n = e.owes

theorem steady_run {m : Machine} {t : Nat} {x : Choice} {e : Event} {c : Cmd}
    (ha : Steady m (.run t x)) (he : m.event t = some e) (hc : m.next t = some c) :
    (x = .fail → e.vital c = false) ∧
      (x = .ok → c = .ReleaseSemaphore → m.shared.semaphore < m_iMaxPostAcceptNumbs) := by
  refine ⟨?_, ?_⟩
  · rintro rfl
    simpa only [Steady, he, hc] using ha
  · rintro rfl rfl
    exact ha hc

theorem steady_begin {m : Machine} {t : Nat} {e : Event} (ha : Steady m (.begin t e)) (op : Op)
    (data : List UInt8) (he : e = .completion op false data) : op.kind ≠ .accept := by
  subst he
  exact ha

theorem answered_step {cls : Class} {m m' : Machine} {a : Action} (h : Answered m)
    (ha : Steady m a) (hstep : (system cls).step m a = some m') : Answered m' := by
  cases a with
  | run t x =>
      simp only [System.step] at hstep
      split at hstep
      · rename_i e c k ht
        obtain ⟨⟨σ', v⟩, hexec, rfl⟩ := Option.map_eq_some_iff.mp hstep
        obtain ⟨hfail, hsem⟩ := steady_run ha (e := e) (c := c) (by simp [Machine.event, ht])
          (by simp [Machine.next, ht, Prog.next])
        have hallows := exec_allows hfail hexec
        have hanswers := (exec_moves hsem hexec).answers
        intro u e' p hu
        change Answers e' p fun _ n => σ'.answers u + n = e'.owes
        rw [hanswers]
        by_cases hut : t = u
        · subst hut
          simp only [List.getElem?_set_self', ht] at hu
          obtain ⟨rfl, rfl⟩ := Prod.mk.inj (Option.some.inj (Option.some.inj hu))
          refine Prog.costs_mono (h t e (.call c k) ht v hallows) fun _ n hn => ?_
          rw [Pool.write_self, Nat.add_assoc]
          exact hn
        · rw [List.getElem?_set_ne hut] at hu
          rw [Pool.write_of_ne (Ne.symm hut)]
          exact h u e' p hu
      · cases hstep
  | begin t e =>
      simp only [System.step] at hstep
      split at hstep
      · rename_i ht
        obtain ⟨⟨σ', p⟩, hspawn, rfl⟩ := Option.map_eq_some_iff.mp hstep
        obtain ⟨rfl, hanswers, -, -⟩ := spawn_moves hspawn
        intro u e' p hu
        change Answers e' p fun _ n => σ'.answers u + n = e'.owes
        rw [hanswers]
        by_cases hut : t = u
        · subst hut
          simp only [List.getElem?_set_self', ht] at hu
          obtain ⟨rfl, rfl⟩ := Prod.mk.inj (Option.some.inj (Option.some.inj hu))
          refine Prog.costs_mono (answers_program (steady_begin ha)) fun _ n hn => ?_
          rw [Pool.write_self, Nat.zero_add]
          exact hn
        · rw [List.getElem?_set_ne hut] at hu
          rw [Pool.write_of_ne (Ne.symm hut)]
          exact h u e' p hu
      · cases hstep
  | finish t =>
      simp only [System.step] at hstep
      split at hstep
      · cases hstep
        intro u e' p hu
        by_cases hut : t = u
        · subst hut
          simp only [List.getElem?_set_self'] at hu
          obtain ⟨_, -, hnone⟩ := Option.map_eq_some_iff.mp hu
          cases hnone
        · rw [List.getElem?_set_ne hut] at hu
          exact h u e' p hu
      · cases hstep

theorem answered_start {n : SOCKET} {threads : Nat} : Answered (idle n threads) := by
  intro t e p ht
  have hnone := List.eq_of_mem_replicate (List.mem_of_getElem? ht)
  cases hnone

/-- In a run without failures before the next accept, a thread that has handled the
completion of an accept has posted one accept or released the semaphore once; and
when no thread is inside an event, the accepts in flight and the tokens of the
semaphore are as many as were posted at start and on `FD_ACCEPT`. -/
theorem accepts_replenished {cls : Class} {n : SOCKET} {threads : Nat} {m : Machine}
    (h : Via (system cls).step Steady (idle n threads) m) :
    (∀ t op b data, m.event t = some (.completion op b data) → m.next t = none →
      op.kind = .accept → m.shared.answers t = 1) ∧
    (m.Quiescent → m.shared.accepting + m.shared.semaphore = m.shared.posted) := by
  refine ⟨?_, ?_⟩
  · intro t op b data he hnext hop
    have hanswered : Answered m := h.invariant answered_start fun _ _ _ => answered_step
    simp only [Machine.event, Option.bind_eq_some_iff, Option.map_eq_some_iff] at he
    obtain ⟨_, ht, ⟨e, p⟩, rfl, rfl⟩ := he
    simp only [Machine.next, ht, Option.bind_some] at hnext
    cases p with
    | call c k => cases hnext
    | ret a =>
        have hsum : m.shared.answers t + 0 = _ := hanswered t _ _ ht
        simpa [Event.owes, hop] using hsum
  · intro hq
    have hgood : ∃ rs, (ledger cls).Good m rs := by
      have hstart : (ledger cls).Inv (.start n) 0 := rfl
      refine (ledger cls).run ?_ ?_ ⟨_, (ledger cls).good_start hstart⟩ h
      · intro m rs _ t x e c ha he hc
        exact steady_run ha he hc
      · intro m t e σ p F ha hinv hspawn
        obtain ⟨rfl, -, hsum, hposted⟩ := spawn_moves hspawn
        refine ⟨e.owes, ?_, ?_⟩
        · change (m.shared.accepting + m.shared.semaphore : ℤ) + F = m.shared.posted at hinv
          change (σ.accepting + σ.semaphore : ℤ) + (e.owes + F) = σ.posted
          omega
        · refine wp_mono (wp_ledger (answers_program (steady_begin ha))) ?_
          rintro _ _ ⟨k, rfl, rfl⟩
          exact sub_self _
    obtain ⟨rs, hrs⟩ := hgood
    have hinv := hrs.quiescent hq
    change (m.shared.accepting + m.shared.semaphore : ℤ) + 0 = m.shared.posted at hinv
    omega

/-- The accept of `onlyOneAccept` completes; no socket can be created for the next. -/
def semaphoreReleased : List Action := List.flatten [
  onlyOneAccept, [.begin 0 (.completion ⟨.accept, 63, 1, 0⟩ true [])],
  List.replicate 15 (.run 0 .ok), [.run 0 .fail], List.replicate 3 (.run 0 .ok)]

theorem accepts_replenished_semaphoreReleased : ∃ m,
    Via (system .CTcpServer).step Steady (idle 9 2) m ∧ m.shared.semaphore = 1 ∧
      m.next 0 = none ∧ m.shared.answers 0 = 1 := by
  have hrun : ∃ m, Via (system .CTcpServer).step Steady (idle 9 2) m ∧
      m.event 0 = some (.completion ⟨.accept, 63, 1, 0⟩ true []) ∧ m.next 0 = none ∧
      m.shared.semaphore = 1 := exists_via_of_execIf semaphoreReleased (by decide +kernel)
  obtain ⟨m, hm, he, hnext, hsem⟩ := hrun
  exact ⟨m, hm, hsem, hnext, (accepts_replenished hm).1 0 _ _ _ he hnext rfl⟩

/-- The accept of `onlyOneAccept` completes with an error. -/
def acceptFails : List Action :=
  onlyOneAccept ++ [.begin 0 (.completion ⟨.accept, 63, 1, 0⟩ false [])] ++
    List.replicate 3 (.run 0 .ok) ++ [.finish 0]

/-- Then no accept is posted and none is asked for: the server accepts no more. -/
theorem accept_not_replenished : ∃ m, Reachable .CTcpServer 9 2 m ∧ m.Quiescent ∧
    m.shared.posted = 1 ∧ m.shared.accepting = 0 ∧ m.shared.semaphore = 0 :=
  exists_via_of_execIf acceptFails (by decide +kernel)

end CppWorkspace.TcpServer
