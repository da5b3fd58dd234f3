/-
# `CppWorkspace.TcpServer.Isolation` — one connection and the sockets of the others

A worker that handles a completion may close, unregister or receive from a socket
only if it is that of the connection the operation was posted for.  The code finds
the socket by the handle in `pContext->m_hSocket`.  That can be another connection's:

* `CompleteReceive` reads `m_hSocket` in its error branches after `ReleaseContext`,
  when another thread may have been given the context (`other_connection_closed`);
* the handle may have been reused, before the completion begins or while it is
  handled.

If none of this happens, no worker takes the socket of another connection
(`own_socket_only`).
-/
import CppWorkspace.TcpServer.Functions

namespace CppWorkspace.TcpServer

open Programs Runs

/-- The operation that an event completes. -/
def Event.op : Event → Option Op
  | .completion op _ _ => some op
  | _ => none

/-- The operation whose completion thread `t` handles. -/
def handled (m : Machine) (t : Nat) : Option Op := (m.event t).bind Event.op

/-- No completion begins when its handle belongs to another connection, the handle
is not reused while it is handled, and no context is handed out while it is still
to be read. -/
def Apart (m : Machine) (a : Action) : Prop :=
  (match a with
    | .run _ (.handle h) => ∀ u < m.threads.length, ∀ op ∈ handled m u, op.h ≠ h
    | .begin _ (.completion op _ _) =>
        m.shared.sockets op.h = none ∨ m.shared.sockets op.h = some op.conn
    | _ => True) ∧ NotReread m a

instance (m : Machine) (a : Action) : Decidable (Apart m a) := by
  unfold Apart
  split <;> infer_instance

/-! ## Operations and connections -/

/-- From `σ` to `σ'` no socket is new but the one with the handle that was chosen. -/
def Keeps (σ σ' : Server) (x : Choice) : Prop :=
  ∀ s id, σ'.sockets s = some id → σ.sockets s = some id ∨ x = .handle s

theorem keeps_refl {σ σ' : Server} {x : Choice} (hsockets : σ'.sockets = σ.sockets) :
    Keeps σ σ' x :=
  fun _ _ h => .inl (hsockets ▸ h)

theorem keeps_close {σ σ' : Server} {x : Choice} {h : SOCKET}
    (hsockets : σ'.sockets = Pool.write σ.sockets h none) : Keeps σ σ' x := by
  refine fun s id hs => .inl ?_
  rw [hsockets] at hs
  by_cases heq : s = h
  · rw [heq, Pool.write_self] at hs
    cases hs
  · rwa [Pool.write_of_ne heq] at hs

theorem keeps_post {σ σ₁ σ' : Server} {x : Choice} {t : Nat} {k : Kind} {c : Nat} {h : SOCKET}
    (hpost : σ.post t k c h = some σ₁) (hsockets : σ'.sockets = σ₁.sockets) : Keeps σ σ' x := by
  obtain ⟨conn, -, rfl⟩ := post_eq_some hpost
  exact keeps_refl hsockets

theorem exec_keeps {t : Nat} {e : Event} {c : Cmd} {σ σ' : Server} {x : Choice} {v : c.Reply}
    (hexec : exec t e c σ x = some (σ', v)) : Keeps σ σ' x := by
  unfold exec at hexec
  split at hexec
  -- the commands that create and close no socket and post no operation
  all_goals try (cases hexec; exact keeps_refl rfl)
  all_goals try (split at hexec <;> cases hexec <;> exact keeps_refl rfl)
  · rename_i h
    split at hexec
    · obtain ⟨rfl, -⟩ := Prod.mk.inj (Option.some.inj hexec)
      intro s id hs
      by_cases heq : s = h
      · exact .inr (heq ▸ rfl)
      · exact .inl ((Pool.write_of_ne heq).symm.trans hs)
    · cases hexec
  · cases hexec
    exact keeps_close rfl
  · cases hexec
    exact keeps_close rfl
  · obtain ⟨σ₁, hpost, heq⟩ := Option.map_eq_some_iff.mp hexec
    cases heq
    exact keeps_post hpost rfl
  · obtain ⟨σ₁, hpost, heq⟩ := Option.map_eq_some_iff.mp hexec
    cases heq
    exact keeps_post hpost rfl
  · obtain ⟨σ₁, hpost, heq⟩ := Option.map_eq_some_iff.mp hexec
    cases heq
    exact keeps_post hpost rfl
  · obtain ⟨σ₁, hpost, heq⟩ := Option.map_eq_some_iff.mp hexec
    cases heq
    exact keeps_post hpost rfl
  · cases hexec

/-- The handle of an operation that is being handled is free or belongs to the
connection that the operation was posted for. -/
def Named (m : Machine) : Prop :=
  ∀ u op, handled m u = some op → ∀ id, m.shared.sockets op.h = some id → id = op.conn

theorem handled_lt {m : Machine} {u : Nat} {op : Op} (h : handled m u = some op) :
    u < m.threads.length := by
  by_contra hlt
  simp [handled, Machine.event, List.getElem?_eq_none (Nat.not_lt.mp hlt)] at h

/-- Which operation each thread handles, after thread `t` has moved. -/
theorem handled_set {m : Machine} {σ : Server} {t u : Nat} {op : Op}
    {o : Option (Event × Program Unit)}
    (h : handled ⟨σ, m.threads.set t o⟩ u = some op) :
    handled m u = some op ∨ u = t ∧ ∃ q, o = some q ∧ q.1.op = some op := by
  by_cases hu : t = u
  · subst hu
    simp only [handled, Machine.event, List.getElem?_set_self'] at h
    cases ht : m.threads[t]? with
    | none => simp [ht] at h
    | some o' =>
        cases o with
        | none => simp [ht] at h
        | some q => exact .inr ⟨rfl, q, rfl, by simpa [ht] using h⟩
  · simp only [handled, Machine.event, List.getElem?_set_ne hu] at h
    exact .inl h

theorem spawn_sockets {cls : Class} {t : Nat} {e : Event} {σ σ' : Server} {p : Program Unit}
    (hspawn : spawn cls t e σ = some (σ', p)) : σ'.sockets = σ.sockets := by
  unfold spawn at hspawn
  split at hspawn
  · split at hspawn <;> cases hspawn
    rfl
  · split at hspawn <;> cases hspawn
    rfl
  · cases hspawn
    rfl

theorem named_step {cls : Class} {m m' : Machine} {a : Action} (h : Named m) (ha : Apart m a)
    (hstep : (system cls).step m a = some m') : Named m' := by
  cases a with
  | run t x =>
      simp only [System.step] at hstep
      split at hstep
      · rename_i e c k ht
        obtain ⟨⟨σ', v⟩, hexec, rfl⟩ := Option.map_eq_some_iff.mp hstep
        intro u op hu id hid
        have hold : handled m u = some op := by
          rcases handled_set hu with hu | ⟨rfl, q, hq, hop⟩
          · exact hu
          · cases hq
            simpa [handled, Machine.event, ht] using hop
        rcases exec_keeps hexec op.h id hid with hs | rfl
        · exact h u op hold id hs
        · exact absurd rfl (ha.1 u (handled_lt hold) op hold)
      · cases hstep
  | begin t e =>
      simp only [System.step] at hstep
      split at hstep
      · obtain ⟨⟨σ', p⟩, hspawn, rfl⟩ := Option.map_eq_some_iff.mp hstep
        have hsame : σ'.sockets = m.shared.sockets := spawn_sockets hspawn
        intro u op hu id hid
        change σ'.sockets op.h = some id at hid
        rw [hsame] at hid
        rcases handled_set hu with hu | ⟨-, q, hq, hop⟩
        · exact h u op hu id hid
        · cases hq
          cases e with
          | completion op' b data =>
              cases hop
              rcases ha.1 with hnone | hsome
              · exact absurd (hid.symm.trans hnone) (by simp)
              · exact Option.some.inj (hid.symm.trans hsome)
          | _ => cases hop
      · cases hstep
  | finish t =>
      simp only [System.step] at hstep
      split at hstep
      · cases hstep
        intro u op hu id hid
        rcases handled_set hu with hu | ⟨-, q, hq, -⟩
        · exact h u op hu id hid
        · cases hq
      · cases hstep

theorem named_start {n : SOCKET} {threads : Nat} : Named (idle n threads) := by
  intro u op hu id hid
  cases hid

/-! ## The sockets that are taken -/

/-- Thread `t`, which handles a completion, is about to close, to unregister or to
receive from the open socket of a connection that is not the operation's. -/
def Harms (m : Machine) (t : Nat) : Prop :=
  ∃ op c s id, handled m t = some op ∧ m.next t = some c ∧ c.takes m.shared = some s ∧
    m.shared.sockets s = some id ∧ id ≠ op.conn

/-- If no handle is reused under a completion and no context is handed out too early,
every worker keeps to the socket of its own connection. -/
theorem own_socket_only {cls : Class} {n : SOCKET} {threads : Nat} {m : Machine}
    (h : Via (system cls).step Apart (idle n threads) m) (t : Nat) : ¬ Harms m t := by
  rintro ⟨op, c, s, id, hop, hc, htakes, hopen, hne⟩
  obtain ⟨rs, hgood⟩ := owned_run (N := False) (D := True)
    (fun hN => hN.elim) (fun _ _ _ ha => ha.2) h
  have hnamed : Named m := h.invariant named_start fun _ _ _ => named_step
  obtain ⟨e, r, he, -, -, -, hnames⟩ := hgood.before hc
  have hs : s = op.h := by
    have hname := hnames trivial s htakes
    simp only [handled, he, Option.bind_some] at hop
    cases e with
    | completion op' b data =>
        cases hop
        exact hname
    | _ => cases hop
  exact hne (hnamed t op hop id (hs ▸ hopen))

/-- `n` commands of thread `t` succeed. -/
def succeed (t n : Nat) : List Action := List.replicate n (.run t .ok)

/-- Two accepts are posted, and both complete; no more sockets can be created. -/
def twoConnections : List Action := List.flatten [
  [.begin 0 .InitServer, .run 0 (.handle 1)], succeed 0 4, [.run 0 (.handle 2)], succeed 0 4,
  List.flatten (List.replicate 30 [.run 0 .fail, .run 0 .ok]), [.finish 0],
  [.begin 0 (.completion ⟨.accept, 63, 1, 0⟩ true [])], succeed 0 15, [.run 0 .fail],
  succeed 0 3, [.finish 0],
  [.begin 0 (.completion ⟨.accept, 62, 2, 1⟩ true [])], succeed 0 15, [.run 0 .fail],
  succeed 0 3, [.finish 0]]

/-- The first connection receives, and `setsockopt` fails: its context is released. -/
def firstReleases : List Action :=
  [.begin 0 (.completion ⟨.receive, 63, 1, 0⟩ true [7]), .run 0 .ok, .run 0 .fail, .run 0 .ok]

theorem own_socket_only_firstReleases : ∃ m,
    Via (system .CTcpServer).step Apart (idle 9 2) m ∧ m.next 0 = some (.erase 1) ∧
      ¬ Harms m 0 := by
  have hrun : ∃ m, Via (system .CTcpServer).step Apart (idle 9 2) m ∧
      m.next 0 = some (.erase 1) :=
    exists_via_of_execIf (twoConnections ++ firstReleases ++ succeed 0 1) (by decide +kernel)
  obtain ⟨m, hm, hnext⟩ := hrun
  exact ⟨m, hm, hnext, own_socket_only hm 0⟩

/-- The second connection receives, and is given the context of the first. -/
def secondReceives : List Action :=
  [.begin 1 (.completion ⟨.receive, 62, 2, 1⟩ true [7])] ++ succeed 1 5

/-- Then the worker of the first connection closes the socket of the second. -/
theorem other_connection_closed : ∃ m, Reachable .CTcpServer 9 2 m ∧ Harms m 0 := by
  have hrun : ∃ m, Reachable .CTcpServer 9 2 m ∧ handled m 0 = some ⟨.receive, 63, 1, 0⟩ ∧
      m.next 0 = some (.erase 2) ∧ (Cmd.erase 2).takes m.shared = some 2 ∧
      m.shared.sockets 2 = some 1 :=
    exists_via_of_execIf (twoConnections ++ firstReleases ++ secondReceives ++ succeed 0 1)
      (by decide +kernel)
  obtain ⟨m, hm, hop, hnext, htakes, hopen⟩ := hrun
  exact ⟨m, hm, _, _, 2, 1, hop, hnext, htakes, hopen, by decide⟩

end CppWorkspace.TcpServer
