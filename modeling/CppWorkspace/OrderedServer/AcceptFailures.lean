/-
# `CppWorkspace.OrderedServer.AcceptFailures` — an accept completes, and something fails

`HandleIo` leaves the completion of an accept by four ways:

    the accept itself failed    the buffer is freed, the operation counted off
    the association failed      `HandleIo` returns from within the critical section
    a post on the client        the client is freed, or closed when its operations complete;
                                the accept is posted once more
    nothing failed              the accept is posted once more

On the first way the listening socket has one accept less, and on the second it keeps its
`SockCritSec`, too, and the client object is neither used nor freed; on the other two all is
in order (`accept_failures`).
-/
import CppWorkspace.Lib.Solo
import CppWorkspace.OrderedServer.Threads
import Mathlib.Data.List.Nodup

namespace CppWorkspace.OrderedServer.Threads

open Programs System

/-- What fails while the accept is handled: the association with the completion port, the send,
and the receives by their numbers. -/
structure Plan where
  associated : Bool
  send : Bool
  recv : Nat → Bool

/-- The answers to the commands.  `made` and `accepted` are those to `socket` and `AcceptEx`. -/
def Plan.answer (plan : Plan) (made accepted : Bool) (σ : Server) (c : Cmd) : Bool :=
  match c.access with
  | .CreateIoCompletionPort => plan.associated
  | .WSASend _ _ => plan.send
  | .WSARecv _ _ => plan.recv ((σ.obj c.sock).issued - 1)
  | .socket => made
  | .AcceptEx _ => accepted
  | _ => true

/-- `HandleIo` of an operation in flight, with nobody else. -/
def handled (cfg : Config) (t : Nat) (op : Op) (BytesTransfered : Nat) (error : Bool) (plan : Plan)
    (made accepted : Bool) (σ : Server) : Option Server :=
  (spawn cfg t (.completion op BytesTransfered error σ.next) σ).bind fun r =>
    ((system cfg).answered (plan.answer made accepted) t
      (.completion op BytesTransfered error σ.next) r.2 r.1).map Prod.fst

/-- A listening socket that nobody is inside, with an accept in flight; numbers that have not
been given away are new. -/
structure Listening (cfg : Config) (σ : Server) (op : Op) : Prop where
  protocol : cfg.gProtocol = .tcp
  operation : op.operation = .opAccept
  inFlight : op ∈ σ.flight
  opened : (σ.obj op.sock).isOpen = true
  entered : (σ.obj op.sock).SockCritSec = none
  waiting : (σ.obj op.sock).OutOfOrderSends = []
  client : σ.obj σ.next = getSocketObj cfg.gProtocol
  next : ∀ op' ∈ σ.flight, op'.sock < σ.next
  freed : σ.next ∉ σ.freed
  buffers : ∀ op' ∈ σ.flight, op'.buf < σ.buffers
  freedBuffers : ∀ b ∈ σ.freedBuffers, b < σ.buffers

/-- The accepts in flight on an object. -/
def Server.accepts (σ : Server) (s : Nat) : Nat :=
  σ.flight.countP fun op => op.sock = s ∧ op.operation = .opAccept

/-- A buffer is attached to one operation in flight, or was freed once. -/
def Server.Settles (σ : Server) (b : Nat) : Prop :=
  (σ.flight.countP (fun op => op.buf = b) = 1 ∧ b ∉ σ.freedBuffers) ∨
    (σ.freedBuffers.count b = 1 ∧ ∀ op ∈ σ.flight, op.buf ≠ b)

/-- What is asked of a call that began in `σ` and returned in `σ'`.  No object is made for a
client whose accept has failed. -/
structure AcceptsOn (σ σ' : Server) (op : Op) (error reposted : Bool) : Prop where
  lock : (σ'.obj op.sock).SockCritSec = (σ.obj op.sock).SockCritSec
  accepts : reposted = true → σ'.accepts op.sock = σ.accepts op.sock
  client : error = false →
    (σ.next ∉ σ'.freed ∧ 0 < (σ'.obj σ.next).OutstandingOps ∧
      ∃ op' ∈ σ'.flight, op'.sock = σ.next) ∨
      ((σ'.obj σ.next).isOpen = false ∧ σ'.freed.count σ.next = 1)
  buffers : ∀ b, σ.buffers ≤ b → b < σ'.buffers → σ'.Settles b

/-! ## Posting on the client -/

/-- The server while a client `s` is set up, from `σ₀` on: the operations `ops` were posted on
it, the buffers `freed` were freed, and `hand` are those at hand.  `l` is its `SockCritSec` and
`n` its `OutstandingOps`. -/
structure Serving (σ₀ : Server) (s : Nat) (l : Option (Nat × Nat)) (n : Int) (ops : List Op)
    (freed hand : List Nat) (σ : Server) : Prop where
  others : ∀ u, u ≠ s → σ.obj u = σ₀.obj u
  next : σ.next = σ₀.next
  objects : σ.freed = σ₀.freed
  flight : σ.flight = ops ++ σ₀.flight
  posted : ∀ op ∈ ops, op.sock = s ∧ op.operation ≠ .opAccept
  freedBuffers : σ.freedBuffers = freed ++ σ₀.freedBuffers
  fewer : σ₀.buffers ≤ σ.buffers
  taken : (ops.map Op.buf ++ freed ++ hand).Perm
    (List.range' σ₀.buffers (σ.buffers - σ₀.buffers))
  lock : (σ.obj s).SockCritSec = l
  count : (σ.obj s).OutstandingOps = n
  opened : (σ.obj s).isOpen = true

section
variable {cfg : Config} {plan : Plan} {made accepted : Bool} {t s b : Nat} {e : Event}
  {σ₀ σ σ' : Server} {l l' : Option (Nat × Nat)} {n n' : Int} {ops : List Op}
  {freed hand : List Nat} {β : Type} {Q : β → Server → Prop}

/-- The program ends when thread `t` is alone. -/
abbrev Returns (cfg : Config) (plan : Plan) (made accepted : Bool) (t : Nat) (e : Event)
    {β : Type} (post : β → Server → Prop) (p : Program β) (σ : Server) : Prop :=
  Ends (system cfg) (plan.answer made accepted) t e post p σ

theorem Serving.set {x : Obj} (h : Serving σ₀ s l n ops freed hand σ) (hl : x.SockCritSec = l')
    (hn : x.OutstandingOps = n') (hopen : x.isOpen = true) :
    Serving σ₀ s l' n' ops freed hand (σ.set s x) where
  others u hu := (σ.set_of_ne x hu).trans (h.others u hu)
  next := h.next
  objects := h.objects
  flight := h.flight
  posted := h.posted
  freedBuffers := h.freedBuffers
  fewer := h.fewer
  taken := h.taken
  lock := by rw [Server.set_self, hl]
  count := by rw [Server.set_self, hn]
  opened := by rw [Server.set_self, hopen]

theorem Serving.getBuffer (h : Serving σ₀ s l n ops freed [] σ) :
    Serving σ₀ s l n ops freed [σ.buffers] { σ with buffers := σ.buffers + 1 } :=
  { h with
    fewer := Nat.le_succ_of_le h.fewer
    taken := by
      have hle := h.fewer
      have htaken := h.taken
      rw [List.append_nil] at htaken
      change (ops.map Op.buf ++ freed ++ [σ.buffers]).Perm
        (List.range' σ₀.buffers (σ.buffers + 1 - σ₀.buffers))
      rw [show σ.buffers + 1 - σ₀.buffers = σ.buffers - σ₀.buffers + 1 by omega,
        List.range'_concat, Nat.one_mul, show σ₀.buffers + (σ.buffers - σ₀.buffers) = σ.buffers by
          omega]
      exact htaken.append_right _ }

theorem Serving.freeBuffer (h : Serving σ₀ s l n ops freed [b] σ) :
    Serving σ₀ s l n ops (b :: freed) [] { σ with freedBuffers := b :: σ.freedBuffers } :=
  { h with
    freedBuffers := by
      change b :: σ.freedBuffers = b :: freed ++ σ₀.freedBuffers
      rw [h.freedBuffers]
      rfl
    taken := by
      refine List.Perm.trans ?_ h.taken
      rw [List.append_nil, List.append_assoc]
      exact (List.perm_append_singleton b freed).symm.append_left _ }

theorem Serving.enter (h : Serving σ₀ s none n ops freed hand σ) :
    ∃ σ', (∀ ok, access t s σ ok .EnterCriticalSection = some (σ', ())) ∧
      Serving σ₀ s (some (t, 1)) n ops freed hand σ' := by
  refine ⟨σ.set s { σ.obj s with SockCritSec := some (t, 1) }, fun _ => ?_,
    h.set rfl h.count h.opened⟩
  simp only [access, Obj.enter, h.lock]
  rfl

theorem Serving.leave (h : Serving σ₀ s (some (t, 1)) n ops freed hand σ) :
    ∃ σ', (∀ ok, access t s σ ok .LeaveCriticalSection = some (σ', ())) ∧
      Serving σ₀ s none n ops freed hand σ' := by
  refine ⟨σ.set s (σ.obj s).left, fun _ => rfl, ?_⟩
  have hleft : (σ.obj s).left = { σ.obj s with SockCritSec := none } := by
    simp only [Obj.left, h.lock]
  rw [hleft]
  exact h.set rfl h.count h.opened

theorem Serving.increment (h : Serving σ₀ s l n ops freed hand σ) :
    ∃ σ', (∀ ok, access t s σ ok .InterlockedIncrement = some (σ', ())) ∧
      Serving σ₀ s l (n + 1) ops freed hand σ' := by
  refine ⟨_, fun _ => rfl, h.set h.lock ?_ h.opened⟩
  change (σ.obj s).OutstandingOps + 1 = n + 1
  rw [h.count]

theorem Serving.posting (h : Serving σ₀ s l n ops freed [b] σ) (op : Op) (hs : op.sock = s)
    (hop : op.operation ≠ .opAccept) (hb : op.buf = b) (ok : Bool) :
    ∃ σ', σ.post op ok = (σ', ok) ∧
      (if ok = true then Serving σ₀ s l n (op :: ops) freed [] σ'
        else Serving σ₀ s l n ops freed [b] σ') := by
  subst hs hb
  cases ok with
  | false => exact ⟨σ, rfl, h⟩
  | true =>
      have hset := h.set (x := { σ.obj op.sock with issued := (σ.obj op.sock).issued + 1 })
        h.lock h.count h.opened
      refine ⟨_, if_pos ⟨rfl, h.opened⟩, { hset with flight := ?_, posted := ?_, taken := ?_ }⟩
      · change op :: σ.flight = op :: ops ++ σ₀.flight
        rw [h.flight]
        rfl
      · exact List.forall_mem_cons.mpr ⟨⟨rfl, hop⟩, h.posted⟩
      · refine List.Perm.trans ?_ h.taken
        rw [List.append_nil, List.map_cons, List.cons_append]
        exact (List.perm_append_singleton op.buf _).symm

/-- What a post leaves behind. -/
def PostEnds (σ₀ : Server) (s : Nat) (ops : List Op) (freed : List Nat) (b : Nat) (ok : Bool)
    (σ : Server) : Prop :=
  if ok = true then ∃ op, Serving σ₀ s none (op :: ops).length (op :: ops) freed [] σ
  else Serving σ₀ s none ops.length ops freed [b] σ

theorem returns_perform {a : Access} {v : a.Reply} {f : a.Reply → Program β}
    (h : access t s σ (plan.answer made accepted σ ⟨s, a⟩) a = some (σ', v))
    (hf : Returns cfg plan made accepted t e Q (f v) σ') :
    Returns cfg plan made accepted t e Q (perform s a >>= f) σ :=
  ends_call h hf

theorem returns_countPost {op : Op} {ok : Bool}
    (h : if ok = true then Serving σ₀ s (some (t, 1)) ops.length (op :: ops) freed [] σ
      else Serving σ₀ s (some (t, 1)) ops.length ops freed [b] σ) :
    Returns cfg plan made accepted t e (PostEnds σ₀ s ops freed b)
      (do perform s .LeaveCriticalSection; countPost s ok) σ := by
  cases ok with
  | true =>
      have hposted : Serving σ₀ s (some (t, 1)) ops.length (op :: ops) freed [] σ := h
      obtain ⟨σ₁, hleave, h₁⟩ := hposted.leave
      obtain ⟨σ₂, hcount, h₂⟩ := h₁.increment
      rw [show (ops.length : Int) + 1 = (op :: ops).length by rw [List.length_cons]; rfl] at h₂
      exact returns_perform (hleave _) (returns_perform (hcount _) (ends_ret ⟨op, h₂⟩))
  | false =>
      have hrejected : Serving σ₀ s (some (t, 1)) ops.length ops freed [b] σ := h
      obtain ⟨σ₁, hleave, h₁⟩ := hrejected.leave
      exact returns_perform (hleave _) (ends_ret h₁)

theorem returns_postSend {sendobj : BufferObj} (hno : sendobj.no = b)
    (h : Serving σ₀ s none ops.length ops freed [b] σ) :
    Returns cfg plan made accepted t e (PostEnds σ₀ s ops freed b) (PostSend s sendobj) σ := by
  obtain ⟨σ₁, henter, h₁⟩ := h.enter
  refine returns_perform (henter _) (returns_perform rfl ?_)
  have h₂ := h₁.set (x := { σ₁.obj s with LastSendIssued := (σ₁.obj s).LastSendIssued + 1 })
    h₁.lock h₁.count h₁.opened
  obtain ⟨σ₃, hpost, h₃⟩ := h₂.posting ⟨s, .opWrite, sendobj.IoOrder, sendobj.no⟩
    rfl nofun hno plan.send
  exact returns_perform (congrArg some hpost) (returns_countPost h₃)

theorem returns_postRecv (h : Serving σ₀ s none ops.length ops freed [b] σ) :
    Returns cfg plan made accepted t e (PostEnds σ₀ s ops freed b) (PostRecv s b) σ := by
  obtain ⟨σ₁, henter, h₁⟩ := h.enter
  refine returns_perform (henter _) (returns_perform rfl ?_)
  have h₂ := h₁.set (x := { σ₁.obj s with IoCountIssued := (σ₁.obj s).IoCountIssued + 1 })
    h₁.lock h₁.count h₁.opened
  obtain ⟨σ₃, hpost, h₃⟩ := h₂.posting ⟨s, .opRead, (σ₁.obj s).IoCountIssued, b⟩
    rfl nofun rfl (plan.recv _)
  exact returns_perform (congrArg some hpost) (returns_countPost h₃)

/-- What is left of the attempt to serve a client: if all went well, an operation is in flight. -/
def Served (σ₀ : Server) (s : Nat) (served : Bool) (σ : Server) : Prop :=
  ∃ ops freed, Serving σ₀ s none (ops.length : Nat) ops freed [] σ ∧ (served = true → ops ≠ [])

theorem returns_postReceives (i : Nat) (h : Serving σ₀ s none ops.length ops freed [] σ)
    (hops : ops ≠ []) :
    Returns cfg plan made accepted t e (Served σ₀ s) (postReceives s i) σ := by
  induction i generalizing ops σ with
  | zero => exact ends_ret ⟨ops, freed, h, fun _ => hops⟩
  | succ i ih =>
      refine returns_perform rfl (ends_after (returns_postRecv h.getBuffer) fun posted σ' h' => ?_)
      cases posted with
      | true =>
          obtain ⟨op, h'⟩ := h'
          exact ih h' (List.cons_ne_nil op ops)
      | false =>
          have hrejected : Serving σ₀ s none ops.length ops freed [_] σ' := h'
          exact returns_perform rfl (ends_ret ⟨ops, _, hrejected.freeBuffer, nofun⟩)

theorem returns_serveClient (h : Serving σ₀ s none 0 [] [] [] σ) :
    Returns cfg plan made accepted t e (Served σ₀ s) (serveClient cfg s) σ := by
  have hbuf : Serving σ₀ s none (([] : List Op).length : Nat) [] [] [σ.buffers] _ := h.getBuffer
  refine returns_perform rfl (ends_after (returns_postSend rfl hbuf) fun sent σ' h' => ?_)
  cases sent with
  | true =>
      obtain ⟨op, h'⟩ := h'
      exact returns_postReceives _ h' (List.cons_ne_nil op [])
  | false =>
      have hrejected : Serving σ₀ s none (0 : Nat) [] [] [_] σ' := h'
      exact returns_perform rfl (ends_ret ⟨[], _, hrejected.freeBuffer, nofun⟩)

/-! ## The listening socket -/

/-- The end of the call: the client's object, the operations and the buffers stay as they are. -/
structure Aside (s : Nat) (σ σ' : Server) : Prop where
  others : ∀ u, u ≠ s → σ'.obj u = σ.obj u
  flight : σ'.flight = σ.flight
  freedBuffers : σ'.freedBuffers = σ.freedBuffers
  buffers : σ'.buffers = σ.buffers
  freed : ∀ u, u ≠ s → σ'.freed.count u = σ.freed.count u

namespace Aside

theorem refl (s : Nat) (σ : Server) : Aside s σ σ :=
  ⟨fun _ _ => rfl, rfl, rfl, rfl, fun _ _ => rfl⟩

theorem trans {σ₁ σ₂ σ₃ : Server} (h : Aside s σ₁ σ₂) (h' : Aside s σ₂ σ₃) : Aside s σ₁ σ₃ where
  others u hu := (h'.others u hu).trans (h.others u hu)
  flight := h'.flight.trans h.flight
  freedBuffers := h'.freedBuffers.trans h.freedBuffers
  buffers := h'.buffers.trans h.buffers
  freed u hu := (h'.freed u hu).trans (h.freed u hu)

theorem set (s : Nat) (σ : Server) (x : Obj) : Aside s σ (σ.set s x) :=
  ⟨fun _ hu => σ.set_of_ne x hu, rfl, rfl, rfl, fun _ _ => rfl⟩

theorem heapFree (s : Nat) (σ : Server) : Aside s σ { σ with freed := s :: σ.freed } :=
  ⟨fun _ _ => rfl, rfl, rfl, rfl, fun _ hu => List.count_cons_of_ne (Ne.symm hu)⟩

end Aside

theorem returns_heapFree :
    Returns cfg plan made accepted t e (fun _ σ' => Aside s σ σ' ∧
      (σ'.obj s).SockCritSec = none ∧ (σ'.obj s).isOpen = (σ.obj s).isOpen ∧
      σ'.freed = s :: σ.freed)
      (do perform s .DeleteCriticalSection; perform s .HeapFree) σ := by
  refine returns_perform rfl ⟨_, (), rfl, ?_⟩
  refine ⟨(Aside.set s σ _).trans (Aside.heapFree s _), ?_, ?_, rfl⟩
  · exact congrArg Obj.SockCritSec (σ.set_self s _)
  · change ((σ.set s { σ.obj s with SockCritSec := none }).obj s).isOpen = (σ.obj s).isOpen
    rw [Server.set_self]

theorem returns_freeSocketObj (h : (σ.obj s).SockCritSec = none) :
    Returns cfg plan made accepted t e (fun _ σ' => Aside s σ σ' ∧
      (σ'.obj s).SockCritSec = none ∧
      ((σ.obj s).OutstandingOps = 0 → (σ'.obj s).isOpen = false ∧ σ'.freed = s :: σ.freed))
      (FreeSocketObj s) σ := by
  refine returns_perform rfl ?_
  by_cases hops : (σ.obj s).OutstandingOps = 0
  · rw [if_neg (by simp [hops])]
    refine returns_perform rfl ?_
    split
    · refine returns_perform rfl (returns_heapFree.mono ?_)
      rintro _ σ' ⟨haside, hlock, hopen, hfreed⟩
      refine ⟨(Aside.set s σ _).trans haside, hlock, fun _ => ⟨?_, hfreed⟩⟩
      rw [hopen, Server.set_self]
    · rename_i hclosed
      refine returns_heapFree.mono ?_
      rintro _ σ' ⟨haside, hlock, hopen, hfreed⟩
      exact ⟨haside, hlock, fun _ => ⟨hopen.trans (by simpa using hclosed), hfreed⟩⟩
  · rw [if_pos (by simp [hops])]
    exact ends_ret ⟨.refl s σ, h, fun hzero => absurd hzero hops⟩

/-- Thread `t` has entered the socket once, and nothing waits to be sent. -/
structure Entered (t s : Nat) (σ : Server) : Prop where
  lock : (σ.obj s).SockCritSec = some (t, 1)
  waiting : (σ.obj s).OutOfOrderSends = []

theorem Entered.set {x : Obj} (hlock : x.SockCritSec = some (t, 1))
    (hwaiting : x.OutOfOrderSends = []) : Entered t s (σ.set s x) :=
  ⟨by rw [Server.set_self, hlock], by rw [Server.set_self, hwaiting]⟩

/-- The accept is posted once more. -/
structure Reposted (s buf : Nat) (reposted : Bool) (σ σ' : Server) : Prop where
  others : ∀ u, u ≠ s → σ'.obj u = σ.obj u
  flight : σ'.flight = if reposted = true then ⟨s, .opAccept, 0, buf⟩ :: σ.flight else σ.flight
  freedBuffers : σ'.freedBuffers = σ.freedBuffers
  buffers : σ'.buffers = σ.buffers
  freed : σ'.freed = σ.freed

theorem returns_postAccept (buf : Nat) (h : Entered t s σ) (hopen : (σ.obj s).isOpen = true) :
    Returns cfg plan made accepted t e
      (fun _ σ' => Reposted s buf (made && accepted) σ σ' ∧ Entered t s σ')
      (PostAccept s buf) σ := by
  have hnone : Reposted s buf false σ σ := ⟨fun _ _ => rfl, rfl, rfl, rfl, rfl⟩
  refine returns_perform rfl ?_
  change Returns cfg plan made accepted t e _ (if made = true then _ else _) σ
  cases made with
  | false => exact ends_ret ⟨hnone, h⟩
  | true =>
      cases accepted with
      | false => exact returns_perform rfl (ends_ret ⟨hnone, h⟩)
      | true =>
          have hpost : access t s σ true (.AcceptEx buf) = some _ :=
            congrArg some (if_pos ⟨rfl, hopen⟩)
          refine returns_perform hpost ⟨_, (), rfl, ?_⟩
          refine ⟨⟨fun u hu => ?_, rfl, rfl, rfl, rfl⟩, Entered.set ?_ ?_⟩
          · exact (Server.set_of_ne _ _ hu).trans (σ.set_of_ne _ hu)
          · exact (congrArg Obj.SockCritSec (σ.set_self s _)).trans h.lock
          · exact (congrArg (fun x : Obj => x.OutOfOrderSends) (σ.set_self s _)).trans h.waiting

theorem returns_checkClosing (h : Entered t s σ) :
    Returns cfg plan made accepted t e (fun _ σ' => Aside s σ σ' ∧ Entered t s σ')
      (checkClosing s) σ := by
  have hset : Entered t s (σ.set s { σ.obj s with
      OutstandingOps := (σ.obj s).OutstandingOps - 1
      finished := (σ.obj s).finished + 1 }) := Entered.set h.lock h.waiting
  refine returns_perform rfl ?_
  split
  · refine returns_perform rfl ?_
    split
    · exact returns_perform rfl (ends_ret ⟨.set s σ _, hset⟩)
    · exact ends_ret ⟨.set s σ _, hset⟩
  · exact ends_ret ⟨.set s σ _, hset⟩

theorem returns_doSends (h : Entered t s σ) :
    Returns cfg plan made accepted t e (fun _ σ' => Aside s σ σ' ∧ Entered t s σ')
      (DoSends s) σ := by
  have henter : (σ.obj s).enter t = some { σ.obj s with SockCritSec := some (t, 2) } := by
    simp only [Obj.enter, h.lock]
    rfl
  refine returns_perform (congrArg (Option.map _) henter) (returns_perform rfl ?_)
  have hwaiting : ((σ.set s { σ.obj s with SockCritSec := some (t, 2) }).obj s).OutOfOrderSends =
      [] := by rw [Server.set_self, h.waiting]
  change Returns cfg plan made accepted t e _ (do
    let ret ← doSendsFrom s
      ((σ.set s { σ.obj s with SockCritSec := some (t, 2) }).obj s).OutOfOrderSends
    perform s .LeaveCriticalSection
    return ret) (σ.set s { σ.obj s with SockCritSec := some (t, 2) })
  rw [hwaiting]
  refine returns_perform rfl (ends_ret ⟨(Aside.set s σ _).trans (.set s _ _), ?_⟩)
  rw [Server.set_self]
  exact Entered.set rfl h.waiting

theorem returns_leave {b : Bool} (h : Entered t s σ) :
    Returns cfg plan made accepted t e
      (fun _ σ' => Aside s σ σ' ∧ (σ'.obj s).SockCritSec = none) (leave s b) σ := by
  have hend : ∀ (c : Bool) (σ₁ : Server), Aside s σ σ₁ → Entered t s σ₁ →
      Returns cfg plan made accepted t e
        (fun _ σ' => Aside s σ σ' ∧ (σ'.obj s).SockCritSec = none)
        (do
          perform s .LeaveCriticalSection
          if c then
            perform s .closesocket
            FreeSocketObj s
          else
            return ()) σ₁ := by
    intro c σ₁ haside h₁
    have hleft : (σ₁.obj s).left = { σ₁.obj s with SockCritSec := none } := by
      simp only [Obj.left, h₁.lock]
    have hfree : ((σ₁.set s (σ₁.obj s).left).obj s).SockCritSec = none := by
      rw [Server.set_self, hleft]
    have haside₂ := haside.trans (Aside.set s σ₁ (σ₁.obj s).left)
    refine returns_perform rfl ?_
    split
    · refine returns_perform rfl ((returns_freeSocketObj ?_).mono ?_)
      · rw [Server.set_self]
        exact hfree
      · rintro _ σ' ⟨haside', hlock, -⟩
        exact ⟨haside₂.trans ((Aside.set s _ _).trans haside'), hlock⟩
    · exact ends_ret ⟨haside₂, hfree⟩
  refine ends_after (returns_checkClosing h) ?_
  rintro last σ₁ ⟨haside, h₁⟩
  cases last with
  | true => exact hend true σ₁ haside h₁
  | false =>
      refine ends_after (returns_doSends h₁) ?_
      rintro sent σ₂ ⟨haside', h₂⟩
      cases sent with
      | true => exact hend b σ₂ (haside.trans haside') h₂
      | false => exact hend true σ₂ (haside.trans haside') h₂

theorem returns_abandonClient (h : (σ.obj s).SockCritSec = none) :
    Returns cfg plan made accepted t e (fun _ σ' => Aside s σ σ' ∧
      ((σ.obj s).OutstandingOps = 0 → (σ'.obj s).isOpen = false ∧ σ'.freed = s :: σ.freed) ∧
      ((σ.obj s).OutstandingOps ≠ 0 →
        (σ'.obj s).OutstandingOps = (σ.obj s).OutstandingOps ∧ σ'.freed = σ.freed))
      (abandonClient s) σ := by
  refine returns_perform rfl ?_
  split
  · rename_i hops
    have hzero : (σ.obj s).OutstandingOps = 0 := hops
    refine returns_perform rfl ((returns_freeSocketObj ?_).mono ?_)
    · rw [Server.set_self]
      exact h
    · rintro _ σ' ⟨haside, -, hfreed⟩
      refine ⟨(Aside.set s σ _).trans haside, fun _ => hfreed ?_, fun hne => absurd hzero hne⟩
      rw [Server.set_self]
      exact hzero
  · rename_i hops
    have hne : (σ.obj s).OutstandingOps ≠ 0 := hops
    refine ⟨_, (), rfl, .set s σ _, fun hzero => absurd hzero hne, fun _ => ⟨?_, rfl⟩⟩
    rw [Server.set_self]

/-! ## All together -/

/-- The client is served or given up, and the handler has left the listening socket `s`: the
operations `ops` are in flight on the client, and the buffers `freed` were freed. -/
structure Left (σ₁ : Server) (s client buf : Nat) (reposted : Bool) (ops : List Op)
    (freed : List Nat) (σ' : Server) : Prop where
  lock : (σ'.obj s).SockCritSec = none
  flight : σ'.flight =
    (if reposted = true then [⟨s, .opAccept, 0, buf⟩] else []) ++ (ops ++ σ₁.flight)
  posted : ∀ op ∈ ops, op.sock = client ∧ op.operation ≠ .opAccept
  freedBuffers : σ'.freedBuffers = freed ++ σ₁.freedBuffers
  taken : (ops.map Op.buf ++ freed).Perm (List.range' σ₁.buffers (σ'.buffers - σ₁.buffers))
  closed : ops = [] → (σ'.obj client).isOpen = false ∧
    σ'.freed.count client = σ₁.freed.count client + 1
  live : ops ≠ [] → (σ'.obj client).OutstandingOps = ops.length ∧
    σ'.freed.count client = σ₁.freed.count client

theorem Left.of_serving {client buf : Nat} {reposted : Bool} {σ₁ σ₂ σ₃ σ₄ : Server}
    (hne : client ≠ s) (h : Serving σ₁ client none (ops.length : Nat) ops freed [] σ₂)
    (hrepost : Reposted s buf reposted σ₂ σ₃) (hclient : Aside client σ₃ σ₄)
    (hclosed : ops = [] → (σ₄.obj client).isOpen = false ∧ σ₄.freed = client :: σ₃.freed)
    (hlive : ops ≠ [] → (σ₄.obj client).OutstandingOps = ops.length ∧ σ₄.freed = σ₃.freed)
    (hend : Aside s σ₄ σ') (hlock : (σ'.obj s).SockCritSec = none) :
    Left σ₁ s client buf reposted ops freed σ' where
  lock := hlock
  flight := by
    rw [hend.flight, hclient.flight, hrepost.flight, h.flight]
    cases reposted <;> rfl
  posted := h.posted
  freedBuffers := by
    rw [hend.freedBuffers, hclient.freedBuffers, hrepost.freedBuffers, h.freedBuffers]
  taken := by
    have htaken := h.taken
    rw [List.append_nil] at htaken
    rw [hend.buffers, hclient.buffers, hrepost.buffers]
    exact htaken
  closed hops := by
    obtain ⟨hopen, hfreed⟩ := hclosed hops
    rw [hend.others client hne, hend.freed client hne, hfreed, hrepost.freed, h.objects]
    exact ⟨hopen, List.count_cons_self⟩
  live hops := by
    obtain ⟨hcount, hfreed⟩ := hlive hops
    rw [hend.others client hne, hend.freed client hne, hfreed, hrepost.freed, h.objects]
    exact ⟨hcount, rfl⟩

theorem returns_accept {client buf : Nat} (hne : client ≠ s) (hport : plan.associated = true)
    (h : Serving σ client none 0 [] [] [] σ) (hs : Entered t s σ)
    (hopen : (σ.obj s).isOpen = true) :
    Returns cfg plan made accepted t e
      (fun _ σ' => ∃ ops freed, Left σ s client buf (made && accepted) ops freed σ')
      (do if ← acceptCompleted cfg s buf client then finish s (false, false) else return ()) σ := by
  refine ends_after (P := fun goesOn σ₄ => goesOn = true ∧ Entered t s σ₄ ∧
    ∃ ops freed σ₂ σ₃, Serving σ client none (ops.length : Nat) ops freed [] σ₂ ∧
      Reposted s buf (made && accepted) σ₂ σ₃ ∧ Aside client σ₃ σ₄ ∧
      (ops = [] → (σ₄.obj client).isOpen = false ∧ σ₄.freed = client :: σ₃.freed) ∧
      (ops ≠ [] → (σ₄.obj client).OutstandingOps = ops.length ∧ σ₄.freed = σ₃.freed)) ?_ ?_
  · refine returns_perform rfl ?_
    change Returns cfg plan made accepted t e _ (if plan.associated = true then _ else _) σ
    rw [if_pos hport]
    refine ends_after (returns_serveClient h) ?_
    rintro served σ₂ ⟨ops, freed, h₂, hserved⟩
    have hs₂ : Entered t s σ₂ := by
      refine ⟨?_, ?_⟩
      · rw [h₂.others s (Ne.symm hne), hs.lock]
      · rw [h₂.others s (Ne.symm hne), hs.waiting]
    refine ends_after (returns_postAccept buf hs₂ ?_) ?_
    · rw [h₂.others s (Ne.symm hne), hopen]
    rintro _ σ₃ ⟨h₃, hs₃⟩
    have hcount : (σ₃.obj client).OutstandingOps = ops.length := by
      rw [h₃.others client hne, h₂.count]
    cases served with
    | true =>
        refine ends_ret ⟨rfl, hs₃, ops, freed, σ₂, σ₃, h₂, h₃, .refl client σ₃, ?_, ?_⟩
        · exact fun hops => absurd hops (hserved rfl)
        · exact fun _ => ⟨hcount, rfl⟩
    | false =>
        refine ends_after (returns_abandonClient ?_) ?_
        · rw [h₃.others client hne, h₂.lock]
        rintro _ σ₄ ⟨haside, hzero, hnonzero⟩
        rw [hcount] at hzero hnonzero
        refine ends_ret ⟨rfl, ?_, ops, freed, σ₂, σ₃, h₂, h₃, haside, fun hops => ?_,
          fun hops => ?_⟩
        · exact ⟨haside.others s (Ne.symm hne) ▸ hs₃.lock,
            haside.others s (Ne.symm hne) ▸ hs₃.waiting⟩
        · exact hzero (by rw [hops]; rfl)
        · refine hnonzero fun hlength => hops ?_
          exact List.length_eq_zero_iff.mp (Int.ofNat_eq_zero.mp hlength)
  · rintro _ σ₄ ⟨rfl, hs₄, ops, freed, σ₂, σ₃, h₂, h₃, haside, hclosed, hlive⟩
    refine (returns_leave hs₄).mono ?_
    rintro _ σ' ⟨hend, hlock⟩
    exact ⟨ops, freed, .of_serving hne h₂ h₃ haside hclosed hlive hend hlock⟩

/-- The server when the completion of `op` has been taken from the port. -/
def taken (σ : Server) (op : Op) : Server :=
  { σ.set op.sock { σ.obj op.sock with delivered := (σ.obj op.sock).delivered + 1 } with
    next := σ.next + 1
    flight := σ.flight.erase op }

theorem handled_of_returns {op : Op} {n : Nat} {error : Bool} {Q : Unit → Server → Prop}
    (ht : t ≠ 0) (hop : op ∈ σ.flight)
    (h : Returns cfg plan made accepted t (.completion op n error σ.next) Q
      (HandleIo cfg op n error σ.next) (taken σ op)) :
    ∃ σ', handled cfg t op n error plan made accepted σ = some σ' ∧ Q () σ' := by
  obtain ⟨σ', _, hrun, hQ⟩ := h.answered
  refine ⟨σ', ?_, hQ⟩
  have hspawn : spawn cfg t (.completion op n error σ.next) σ =
      some (taken σ op, HandleIo cfg op n error σ.next) := if_pos ⟨ht, hop, rfl⟩
  rw [handled, hspawn, Option.bind_some, hrun]
  rfl

section
variable {op : Op} {reposted error : Bool}

theorem Listening.ne (h : Listening cfg σ op) : σ.next ≠ op.sock :=
  Nat.ne_of_gt (h.next op h.inFlight)

theorem Listening.taken_obj (h : Listening cfg σ op) :
    (taken σ op).obj σ.next = getSocketObj .tcp := by
  rw [← h.protocol, ← h.client]
  exact σ.set_of_ne _ h.ne

theorem taken_sock : (taken σ op).obj op.sock =
    { σ.obj op.sock with delivered := (σ.obj op.sock).delivered + 1 } := σ.set_self _ _

theorem Listening.unlocked (h : Listening cfg σ op) :
    ((taken σ op).obj op.sock).SockCritSec = none := by
  rw [taken_sock]
  exact h.entered

theorem Listening.enter (h : Listening cfg σ op) : ((taken σ op).obj op.sock).enter t =
    some { (taken σ op).obj op.sock with SockCritSec := some (t, 1) } := by
  simp only [Obj.enter, h.unlocked]

theorem Listening.accepts_erase (h : Listening cfg σ op) :
    σ.accepts op.sock =
      (σ.flight.erase op).countP
        (fun op' => op'.sock = op.sock ∧ op'.operation = .opAccept) + 1 := by
  have hperm := (List.perm_cons_erase h.inFlight).countP_eq fun op' : Op =>
    decide (op'.sock = op.sock ∧ op'.operation = .opAccept)
  rw [List.countP_cons_of_pos (by simp [h.operation])] at hperm
  exact hperm

/-- What was taken while the call lasted is in flight, or was freed. -/
theorem Left.settles {σ₁ : Server} {ops : List Op} {freed : List Nat}
    (h : Left σ₁ s σ.next op.buf reposted ops freed σ') (hσ : Listening cfg σ op)
    (hbuffers : σ₁.buffers = σ.buffers) (hfreed : σ₁.freedBuffers = σ.freedBuffers)
    (hflight : σ₁.flight = σ.flight.erase op) (hle : σ.buffers ≤ b) (hlt : b < σ'.buffers) :
    σ'.Settles b := by
  have hmem : b ∈ ops.map Op.buf ++ freed := by
    rw [h.taken.mem_iff, List.mem_range'_1, hbuffers]
    omega
  have hnodup : (ops.map Op.buf ++ freed).Nodup := h.taken.nodup_iff.mpr List.nodup_range'
  obtain ⟨honce, hfreedOnce, hapart⟩ := List.nodup_append.mp hnodup
  have hold : ∀ op' ∈ σ.flight.erase op, op'.buf ≠ b := by
    intro op' hop' heq
    have hold := hσ.buffers op' (List.mem_of_mem_erase hop')
    omega
  have holdFreed : b ∉ σ.freedBuffers := fun hb => by
    have hold := hσ.freedBuffers b hb
    omega
  have haccept : ∀ op' ∈ (if reposted = true then [(⟨s, .opAccept, 0, op.buf⟩ : Op)] else []),
      op'.buf ≠ b := by
    intro op' hop' heq
    have hown := hσ.buffers op hσ.inFlight
    cases reposted with
    | false => cases hop'
    | true =>
        obtain rfl := List.mem_singleton.mp hop'
        have heq' : op.buf = b := heq
        omega
  rcases List.mem_append.mp hmem with hposted | hb
  · refine .inl ⟨?_, ?_⟩
    · have hcount := List.count_eq_one_of_mem honce hposted
      rw [List.count, List.countP_map] at hcount
      have hposts : ops.countP (fun op' => op'.buf = b) = 1 := by
        rw [← hcount]
        exact List.countP_congr fun op' _ => by simp
      have hothers : (σ.flight.erase op).countP (fun op' => op'.buf = b) = 0 :=
        List.countP_eq_zero.mpr (by simpa using hold)
      rw [h.flight, hflight, List.countP_append, List.countP_append, hposts, hothers,
        List.countP_eq_zero.mpr (by simpa using haccept)]
    · rw [h.freedBuffers, hfreed, List.mem_append]
      rintro (hb | hb)
      · exact hapart b hposted b hb rfl
      · exact holdFreed hb
  · refine .inr ⟨?_, fun op' hop' heq => ?_⟩
    · rw [h.freedBuffers, hfreed, List.count_append, List.count_eq_one_of_mem hfreedOnce hb,
        List.count_eq_zero.mpr holdFreed]
    · rw [h.flight, hflight] at hop'
      rcases List.mem_append.mp hop' with hop' | hop'
      · exact haccept op' hop' heq
      · rcases List.mem_append.mp hop' with hop' | hop'
        · exact hapart _ (List.mem_map_of_mem hop') b hb heq
        · exact hold op' hop' heq

theorem Left.acceptsOn {σ₁ : Server} {ops : List Op} {freed : List Nat}
    (h : Left σ₁ op.sock σ.next op.buf reposted ops freed σ') (hσ : Listening cfg σ op)
    (hbuffers : σ₁.buffers = σ.buffers) (hfreedBuffers : σ₁.freedBuffers = σ.freedBuffers)
    (hflight : σ₁.flight = σ.flight.erase op) (hfreed : σ₁.freed = σ.freed) :
    AcceptsOn σ σ' op error reposted where
  lock := h.lock.trans hσ.entered.symm
  accepts hreposted := by
    have hnone : ops.countP (fun op' => op'.sock = op.sock ∧ op'.operation = .opAccept) = 0 := by
      refine List.countP_eq_zero.mpr fun op' hop' => ?_
      simpa using fun _ => (h.posted op' hop').2
    rw [hσ.accepts_erase, Server.accepts, h.flight, hflight, if_pos hreposted, List.countP_append,
      List.countP_append, hnone, Nat.zero_add, List.countP_cons_of_pos (by simp), Nat.add_comm]
    rfl
  client _ := by
    have hnew : σ.freed.count σ.next = 0 := List.count_eq_zero.mpr hσ.freed
    by_cases hops : ops = []
    · obtain ⟨hopen, hcount⟩ := h.closed hops
      rw [hfreed, hnew] at hcount
      exact .inr ⟨hopen, hcount⟩
    · obtain ⟨hcount, hlive⟩ := h.live hops
      rw [hfreed, hnew] at hlive
      obtain ⟨op', hop'⟩ := List.exists_mem_of_ne_nil ops hops
      refine .inl ⟨List.count_eq_zero.mp hlive, ?_, op', ?_, (h.posted op' hop').1⟩
      · rw [hcount]
        exact Int.natCast_pos.mpr (List.length_pos_iff.mpr hops)
      · rw [h.flight]
        exact List.mem_append_right _ (List.mem_append_left _ hop')
  buffers b hle hlt := h.settles hσ hbuffers hfreedBuffers hflight hle hlt

theorem Listening.served (h : Listening cfg σ op) (n : Nat) (ht : t ≠ 0)
    (hport : plan.associated = true) :
    ∃ σ', handled cfg t op n false plan made accepted σ = some σ' ∧
      AcceptsOn σ σ' op false (made && accepted) := by
  refine handled_of_returns (Q := fun _ σ' => AcceptsOn σ σ' op false (made && accepted))
    ht h.inFlight ?_
  unfold HandleIo
  rw [if_neg (by simp), h.operation]
  refine returns_perform (congrArg (Option.map _) h.enter) ?_
  have hs : Entered t op.sock ((taken σ op).set op.sock
      { (taken σ op).obj op.sock with SockCritSec := some (t, 1) }) := by
    refine Entered.set rfl ?_
    rw [taken_sock]
    exact h.waiting
  have hobj : ((taken σ op).set op.sock
      { (taken σ op).obj op.sock with SockCritSec := some (t, 1) }).obj σ.next =
      getSocketObj .tcp := (Server.set_of_ne _ _ h.ne).trans h.taken_obj
  refine (returns_accept h.ne hport ?_ hs ?_).mono ?_
  · refine ⟨fun _ _ => rfl, rfl, rfl, rfl, nofun, rfl, Nat.le_refl _, ?_, ?_, ?_, ?_⟩
    · rw [Nat.sub_self]
      exact List.Perm.nil
    · rw [hobj]
      rfl
    · rw [hobj]
      rfl
    · rw [hobj]
      rfl
  · rw [Server.set_self, taken_sock]
    exact h.opened
  · rintro _ σ' ⟨ops, freed, hleft⟩
    exact hleft.acceptsOn h rfl rfl rfl rfl

/-- The association fails: `SockCritSec` is kept. -/
theorem Listening.notAssociated (h : Listening cfg σ op) (n : Nat) (ht : t ≠ 0)
    (hport : plan.associated = false) :
    ∃ σ', handled cfg t op n false plan made accepted σ = some σ' ∧
      (σ'.obj op.sock).SockCritSec = some (t, 1) := by
  refine handled_of_returns (Q := fun _ σ' => (σ'.obj op.sock).SockCritSec = some (t, 1))
    ht h.inFlight ?_
  unfold HandleIo
  rw [if_neg (by simp), h.operation]
  refine returns_perform (congrArg (Option.map _) h.enter) ?_
  refine ends_after (P := fun goesOn σ' => goesOn = false ∧
    (σ'.obj op.sock).SockCritSec = some (t, 1)) ?_ ?_
  · refine returns_perform rfl ?_
    change Returns cfg plan made accepted t _ _ (if plan.associated = true then _ else _) _
    rw [hport]
    exact ends_ret ⟨rfl, by rw [Server.set_self]⟩
  · rintro _ σ' ⟨rfl, hkept⟩
    exact ends_ret hkept

/-- The accept itself has failed: it is not posted again. -/
theorem Listening.failed (h : Listening cfg σ op) (n : Nat) (ht : t ≠ 0) :
    ∃ σ', handled cfg t op n true plan made accepted σ = some σ' ∧
      σ'.flight = σ.flight.erase op := by
  refine handled_of_returns (Q := fun _ σ' => σ'.flight = σ.flight.erase op) ht h.inFlight ?_
  unfold HandleIo
  rw [if_pos ⟨rfl, h.protocol⟩]
  refine returns_perform rfl (returns_perform rfl ?_)
  split
  · refine (returns_freeSocketObj ?_).mono ?_
    · rw [Server.set_self]
      exact h.unlocked
    · rintro _ σ' ⟨haside, -, -⟩
      exact haside.flight
  · exact ends_ret rfl

end

end

/-! ## The claim -/

/-- **Accepts under failures.**  Whatever becomes of the new accept, the call returns as it should
exactly if the accept itself has not failed and its client is associated with the port. -/
theorem accept_failures {cfg : Config} {σ : Server} {op : Op} {t : Nat} (h : Listening cfg σ op)
    (ht : t ≠ 0) (n : Nat) (error : Bool) (plan : Plan) :
    (∀ made accepted, ∃ σ', handled cfg t op n error plan made accepted σ = some σ' ∧
        AcceptsOn σ σ' op error (made && accepted)) ↔
      error = false ∧ plan.associated = true := by
  constructor
  · intro hright
    obtain ⟨σ', hrun, haccepts⟩ := hright true true
    cases error with
    | true =>
        obtain ⟨σ'', hrun', hflight⟩ := h.failed n ht
        cases hrun.symm.trans hrun'
        have hsame := haccepts.accepts rfl
        rw [h.accepts_erase, Server.accepts, hflight] at hsame
        omega
    | false =>
        refine ⟨rfl, ?_⟩
        by_contra hport
        obtain ⟨σ'', hrun', hkept⟩ := h.notAssociated n ht (Bool.eq_false_iff.mpr hport)
        cases hrun.symm.trans hrun'
        have hlock := haccepts.lock
        rw [hkept, h.entered] at hlock
        cases hlock
  · rintro ⟨rfl, hport⟩ made accepted
    exact h.served n ht hport

/-- A listening socket with one accept in flight. -/
def oneAccept : Server :=
  { start ⟨.tcp, 2⟩ with next := 1, flight := [⟨0, .opAccept, 0, 0⟩], buffers := 1 }

theorem listening_oneAccept : Listening ⟨.tcp, 2⟩ oneAccept ⟨0, .opAccept, 0, 0⟩ where
  protocol := rfl
  operation := rfl
  inFlight := by decide
  opened := rfl
  entered := rfl
  waiting := rfl
  client := rfl
  next := by decide
  freed := by decide
  buffers := by decide
  freedBuffers := by decide

/-- The second receive is rejected. -/
theorem accept_failures_recv : ∃ σ',
    handled ⟨.tcp, 2⟩ 1 ⟨0, .opAccept, 0, 0⟩ 5 false ⟨true, true, fun i => i = 0⟩ true true
        oneAccept = some σ' ∧
      AcceptsOn oneAccept σ' ⟨0, .opAccept, 0, 0⟩ false true :=
  (accept_failures listening_oneAccept (by decide) 5 false _).mpr ⟨rfl, rfl⟩ true true

/-- The association fails: the thread has returned, and is inside the critical section. -/
theorem not_accept_failures : ∃ σ',
    handled ⟨.tcp, 2⟩ 1 ⟨0, .opAccept, 0, 0⟩ 5 false ⟨false, true, fun _ => true⟩ true true
        oneAccept = some σ' ∧
      (σ'.obj 0).SockCritSec = some (1, 1) ∧ σ'.flight = [] ∧ (σ'.obj 1).isOpen = true ∧
      σ'.freed = [] ∧ ¬ AcceptsOn oneAccept σ' ⟨0, .opAccept, 0, 0⟩ false true := by
  have hrun : ∃ σ' ∈ handled ⟨.tcp, 2⟩ 1 ⟨0, .opAccept, 0, 0⟩ 5 false ⟨false, true, fun _ => true⟩
      true true oneAccept, (σ'.obj 0).SockCritSec = some (1, 1) ∧ σ'.flight = [] ∧
        (σ'.obj 1).isOpen = true ∧ σ'.freed = [] := by decide +kernel
  obtain ⟨σ', hσ', hlock, hflight, hopen, hfreed⟩ := hrun
  refine ⟨σ', hσ', hlock, hflight, hopen, hfreed, fun h => ?_⟩
  have hkept : (σ'.obj 0).SockCritSec = none := h.lock
  rw [hlock] at hkept
  cases hkept

end CppWorkspace.OrderedServer.Threads
