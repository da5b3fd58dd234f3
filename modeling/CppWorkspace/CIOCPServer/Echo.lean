/-
# `CppWorkspace.CIOCPServer.Echo` — what `CMyServer` sends back

`CMyServer` hands every piece of data it is told of to `SendText`: the data of
the accept from `OnConnectionEstablished`, the data of each read from
`OnReadCompleted`.  Each such call makes one attempt, with one of three ends:

    noBuffer    `AllocateBuffer` returned `NULL`
    throttled   `PostSend` found `nOutstandingSend > m_nMaxSends`
    admitted    `WSASend` is called

and neither of the first two leaves a trace: the callback ignores the result of
`SendText`.  The throttle is meant ("so that a client that only sends and never
receives does not make the server post a lot of sends"), so a slow receiver
loses data (`dropped_by_throttle`).

What holds is that the ATTEMPTS follow the data: in order, each piece once
(`echo_in_order`).  The proof is an account of the texts that are owed and of
the texts that are admitted and not yet sent.  At most one call at a time owes
anything, since deliveries exclude each other and the first read is posted
after the greeting.
-/
import CppWorkspace.CIOCPServer.Delivery
import CppWorkspace.CIOCPServer.Lifetime
import CppWorkspace.CIOCPServer.Window

namespace CppWorkspace.CIOCPServer

open Runs Weights

/-- `CMyServer` with any limits. -/
def echoServer (nMaxSends : Int) (nInitialReads : Nat) : Config :=
  { cMyServer with nMaxSends := nMaxSends, nInitialReads := nInitialReads }

/-! ## The texts in a trace -/

namespace Event

/-- The data that an event brings; `first` is what came with the accept. -/
def received? (first : Text) : Event → Option Text
  | .established => some first
  | .readCompleted p => some p.buff
  | _ => none

/-- The text whose fate is decided by an event. -/
def attempted? : Event → Option Text
  | .noBuffer t | .throttled t _ | .admitted t _ => some t
  | _ => none

def admitted? : Event → Option Text
  | .admitted t _ => some t
  | _ => none

def sent? : Event → Option Text
  | .sent t => some t
  | _ => none

/-- Nothing to do with the echo. -/
def silent : Event → Bool
  | .writeCompleted | .closing | .error _ => true
  | _ => false

end Event

/-- The data of the accept and of the delivered reads. -/
def received (first : Text) (tr : List Event) : List Text := tr.filterMap (Event.received? first)

/-- The texts for which `SendText` has made its attempt. -/
def attempted (tr : List Event) : List Text := tr.filterMap Event.attempted?

/-- Those of them that got a buffer and passed the throttle. -/
def admitted (tr : List Event) : List Text := tr.filterMap Event.admitted?

/-- The payloads passed to `WSASend`. -/
def sentTexts (tr : List Event) : List Text := tr.filterMap Event.sent?

/-- Every piece of data was attempted but `owed`, and every admitted one sent but `unsent`. -/
def Account (first : Text) (tr : List Event) (owed unsent : List Text) : Prop :=
  received first tr = attempted tr ++ owed ∧ admitted tr = sentTexts tr ++ unsent

theorem filterMap_snoc {α β : Type} (f : α → Option β) (l : List α) (a : α) :
    (l ++ [a]).filterMap f = l.filterMap f ++ (f a).toList := by
  rw [List.filterMap_append]
  cases h : f a <;> simp [h]

/-- One more event: what it brings and what it decides. -/
theorem Account.snoc {first : Text} {tr : List Event} {o u o' u' : List Text}
    (h : Account first tr o u) (e : Event)
    (ho : o ++ (e.received? first).toList = e.attempted?.toList ++ o')
    (hu : u ++ e.admitted?.toList = e.sent?.toList ++ u') : Account first (tr ++ [e]) o' u' := by
  obtain ⟨h₁, h₂⟩ := h
  constructor
  · simp only [received, attempted, filterMap_snoc] at h₁ ⊢
    rw [h₁, List.append_assoc, ho, List.append_assoc]
  · simp only [admitted, sentTexts, filterMap_snoc] at h₂ ⊢
    rw [h₂, List.append_assoc, hu, List.append_assoc]

theorem Account.silent {first : Text} {tr : List Event} {o u : List Text} {e : Event}
    (h : Account first tr o u) (he : e.silent = true) : Account first (tr ++ [e]) o u := by
  refine h.snoc e ?_ ?_ <;> cases e <;>
    simp_all [Event.silent, Event.received?, Event.attempted?, Event.admitted?, Event.sent?]

/-! ## The texts in the hands of a call -/

/-- Brought by an event, and no attempt made. -/
def Pc.owed : Pc → List Text
  | .send _ ts => ts
  | .throttle _ b ts => b.buff :: ts
  | .wsaSend _ _ ts => ts
  | .countSend _ ts => ts
  | _ => []

/-- Admitted, and not yet passed to `WSASend`. -/
def Pc.unsent : Pc → List Text
  | .wsaSend _ b _ => [b.buff]
  | _ => []

/-- In which `SendText` the call is. -/
def Pc.speaker : Pc → Option Sender
  | .send k _ | .throttle k _ _ | .wsaSend k _ _ | .countSend k _ => some k
  | _ => none

/-- The call has a text in its hands, or its next step brings one. -/
def Pc.active : Pc → Bool
  | .call _ | .ioctl => true
  | pc => !pc.owed.isEmpty || !pc.unsent.isEmpty

/-- The call is about to post a read or a send. -/
def Pc.posts : Pc → Bool
  | .recv .. | .wsaSend .. => true
  | _ => false

section
variable (s : Int) (r : Nat) (ch : Choice) (k : Core) (job : Job) {pc : Pc} {first : Text}

/-- A call without a text goes on without one, and its events are not about texts. -/
theorem stepCall_inactive (h : pc.active = false) {o u : List Text}
    (hA : Account first k.trace o u) :
    Account first (stepCall (echoServer s r) ch k job pc).1.trace o u ∧
      (stepCall (echoServer s r) ch k job pc).2.owed = [] ∧
      (stepCall (echoServer s r) ch k job pc).2.unsent = [] := by
  cases pc with
  | call p | ioctl => cases h
  | throttle a b ts | wsaSend a b ts => simp [Pc.active, Pc.owed, Pc.unsent] at h
  | send a ts =>
      cases ts with
      | nil => cases a <;> exact ⟨hA, rfl, rfl⟩
      | cons t ts => cases h
  | countSend a ts =>
      cases ts with
      | nil => exact ⟨hA, rfl, rfl⟩
      | cons t ts => cases h
  | testClosing =>
      simp only [stepCall]
      split
      · exact ⟨hA, rfl, rfl⟩
      · unfold dispatch
        repeat' split
        all_goals first
          | exact ⟨hA, rfl, rfl⟩
          | exact ⟨hA.silent rfl, rfl, rfl⟩
  | notify =>
      simp only [stepCall, Core.notify]
      split
      · exact ⟨hA, rfl, rfl⟩
      · refine ⟨hA.silent ?_, rfl, rfl⟩
        cases job with
        | io b t e =>
            simp only [notification]
            split <;> rfl
        | accept b | app => rfl
  | headTest =>
      simp only [stepCall]
      rcases takeHead_eq k.ctx with ht | ⟨p, rest, -, -, ht⟩ <;> rw [ht] <;> exact ⟨hA, rfl, rfl⟩
  | close a => cases a <;> cases job <;> exact ⟨hA, rfl, rfl⟩
  | enter | insert => cases job <;> exact ⟨hA, rfl, rfl⟩
  | reads left => cases left <;> exact ⟨hA, rfl, rfl⟩
  | alloc a =>
      simp only [stepCall]
      cases ch.addr <;> cases a <;> exact ⟨hA, rfl, rfl⟩
  | recv a addr =>
      simp only [stepCall]
      cases a <;> split <;> exact ⟨hA, rfl, rfl⟩
  | compare =>
      simp only [stepCall]
      repeat' split
      all_goals exact ⟨hA, rfl, rfl⟩
  | testCounters | add | keepAlive =>
      simp only [stepCall]
      split <;> exact ⟨hA, rfl, rfl⟩
  | unlink a | release | finish | increment p | drop p | returned => exact ⟨hA, rfl, rfl⟩

/-- A call with a text: every way of `SendText` keeps the account. -/
theorem stepCall_active (h : pc.active = true)
    (hjob : pc = .ioctl → ∃ b, job = .accept b ∧ b.buff = first)
    (hacc : pc.posts = true → k.accepts ch.ok = true)
    (hA : Account first k.trace pc.owed pc.unsent) :
    Account first (stepCall (echoServer s r) ch k job pc).1.trace
      (stepCall (echoServer s r) ch k job pc).2.owed
      (stepCall (echoServer s r) ch k job pc).2.unsent := by
  cases pc with
  | call p => exact hA.snoc _ rfl rfl
  | ioctl =>
      obtain ⟨b, rfl, rfl⟩ := hjob rfl
      simp only [stepCall]
      split
      · exact hA.snoc _ rfl rfl
      · exact hA
  | send a ts =>
      cases ts with
      | nil => cases h
      | cons t ts =>
          have hno : Account first (k.log (.noBuffer t)).trace ts [] :=
            hA.snoc _ (by simp [Pc.owed, Event.received?, Event.attempted?]) rfl
          simp only [stepCall]
          repeat' split
          · exact hA
          · exact hno
          · exact hno
  | throttle a b ts =>
      simp only [stepCall]
      split <;>
        exact hA.snoc _ (by simp [Pc.owed, Event.received?, Event.attempted?]) rfl
  | wsaSend a b ts =>
      simp only [stepCall, hacc rfl, if_true]
      exact hA.snoc _ (by simp [Pc.owed, Event.received?, Event.attempted?])
        (by simp [Pc.unsent, Event.admitted?, Event.sent?])
  | countSend a ts => exact hA
  | _ => cases h

end

/-! ## One speaker at a time -/

/-- The positions before `OnConnectionEstablished`. -/
def Pc.unknown : Pc → Bool
  | .add | .keepAlive | .ioctl => true
  | _ => false

/-- The connection from the greeting on, as long as it is open. -/
structure Greeted (first : Text) (c : Conn) : Prop where
  order : InOrder (fun _ => True) c
  apart : Separated c
  placed : WellPlaced c
  sock : c.ctx.s = c.sock
  isOpen : c.sockOpen = true
  /-- there is one accept, the call with number `0` -/
  accept : ∀ j x, c.calls[j]? = some x → x.job.isAccept = true → j = 0
  app : ∀ x ∈ c.calls, x.job.isApp = false
  reads : ∀ x ∈ c.calls, x.job.isRead = true → 0 < c.reads
  greeting : ∀ x ∈ c.calls, x.pc.speaker = some .established → c.reads = 0
  writes : ∀ x ∈ c.calls, x.pc.speaker = some .writeCompleted → x.pc = .send .writeCompleted []
  known : ∀ x ∈ c.calls, x.pc.unknown = false
  single : ∀ x ∈ c.calls, x.pc.owed.length + x.pc.unsent.length ≤ 1
  data : received first c.trace = first :: (readLog c.trace).map CIOCPBuffer.buff
  account : Account first c.trace
    (c.calls.flatMap fun x => x.pc.owed) (c.calls.flatMap fun x => x.pc.unsent)

theorem active_eq_false {pc : Pc} (h : pc.active = false) : pc.owed = [] ∧ pc.unsent = [] := by
  cases pc <;> simp_all [Pc.active, Pc.owed, Pc.unsent]

theorem speaker_of_text {pc : Pc} (h : ¬ (pc.owed = [] ∧ pc.unsent = [])) :
    ∃ k, pc.speaker = some k := by
  cases pc <;> simp_all [Pc.owed, Pc.unsent, Pc.speaker]

theorem belongs_speaker {job : Job} {pc : Pc} {k : Sender} (hb : pc.belongs job = true)
    (hk : pc.speaker = some k) : k.belongs job = true := by
  cases pc <;> simp_all [Pc.speaker, Pc.belongs]

theorem held_of_speaker {pc : Pc} {p : CIOCPBuffer}
    (h : pc.speaker = some (.readCompleted p)) : pc.held = some p := by
  cases pc <;> simp_all [Pc.speaker, Pc.held]

section
variable {first : Text} {c : Conn} {i j : Nat} {a x : Call}

theorem Greeted.speaker (h : Greeted first c) (hx : x ∈ c.calls)
    (ht : ¬ (x.pc.owed = [] ∧ x.pc.unsent = [])) :
    x.pc.speaker = some .established ∨ ∃ p, x.pc.speaker = some (.readCompleted p) := by
  obtain ⟨k, hk⟩ := speaker_of_text ht
  have hb := belongs_speaker (h.placed x hx) hk
  cases k with
  | readCompleted p => exact .inr ⟨p, hk⟩
  | established => exact .inl hk
  | writeCompleted =>
      have hpc := h.writes x hx hk
      rw [hpc] at ht
      exact absurd ⟨rfl, rfl⟩ ht
  | app =>
      have happ := h.app x hx
      simp only [Sender.belongs] at hb
      rw [happ] at hb
      cases hb

theorem Greeted.alone (h : Greeted first c) (ha : c.calls[i]? = some a) (hact : a.pc.active = true)
    (hij : j ≠ i) (hx : c.calls[j]? = some x) : x.pc.owed = [] ∧ x.pc.unsent = [] := by
  by_contra ht
  have hmem := mem_of_get ha
  have hxm := mem_of_get hx
  -- the active call has a read in its hands, or greets
  have hact' : (∃ p, a.pc.held = some p) ∨ a.pc.speaker = some .established := by
    by_cases htext : a.pc.owed = [] ∧ a.pc.unsent = []
    · have hk := h.known a hmem
      cases hpc : a.pc with
      | call p => exact .inl ⟨p, rfl⟩
      | ioctl => rw [hpc] at hk; cases hk
      | _ => rw [hpc] at hact htext; simp_all [Pc.active]
    · rcases h.speaker hmem htext with hs | ⟨p, hs⟩
      · exact .inr hs
      · exact .inl ⟨p, held_of_speaker hs⟩
  have hread : ∀ {y : Call} {p : CIOCPBuffer}, y ∈ c.calls → y.pc.held = some p → 0 < c.reads := by
    intro y p hy hp
    obtain ⟨hop, -, hB, -⟩ := (h.order.calls y hy).held p hp
    have := h.order.carried (n := p.no) hy hB
      (by simp [Call.carries, hp, heldNo, isNo_self hop])
    omega
  have haccept : ∀ {m : Nat} {y : Call}, c.calls[m]? = some y →
      y.pc.speaker = some .established → m = 0 := fun hm hs =>
    h.accept _ _ hm (belongs_speaker (h.placed _ (mem_of_get hm)) hs)
  rcases h.speaker hxm ht with hs | ⟨q, hs⟩
  · have hr := h.greeting x hxm hs
    rcases hact' with ⟨p, hp⟩ | hs'
    · have := hread hmem hp
      omega
    · exact hij ((haccept hx hs).trans (haccept ha hs').symm)
  · have hq := held_of_speaker hs
    rcases hact' with ⟨p, hp⟩ | hs'
    · rw [h.order.alone ha hp (fun e => hij e.symm) hx] at hq
      cases hq
    · have hr := h.greeting a hmem hs'
      have := hread hxm hq
      omega

end

/-! ## One step -/

/-- What a position can be followed by, as far as the echo is concerned. -/
structure EchoNext (pc pc' : Pc) : Prop where
  established : pc'.speaker = some .established → pc.speaker = some .established ∨ pc = .ioctl
  writes : pc'.speaker = some .writeCompleted → pc' = .send .writeCompleted [] ∨
    (pc.speaker = some .writeCompleted ∧ pc ≠ .send .writeCompleted [])
  unknown : pc'.unknown = true → pc.unknown = true
  single : pc.owed.length + pc.unsent.length ≤ 1 → pc'.owed.length + pc'.unsent.length ≤ 1

section
variable (s : Int) (r : Nat) (ch : Choice) (k : Core) (job : Job) {pc : Pc}

theorem stepCall_echoNext : EchoNext pc (stepCall (echoServer s r) ch k job pc).2 := by
  cases pc with
  | testClosing =>
      simp only [stepCall]
      split
      · constructor <;> simp [Pc.speaker, Pc.unknown, Pc.owed, Pc.unsent]
      · unfold dispatch
        repeat' split
        all_goals constructor <;>
          simp [Pc.speaker, Pc.unknown, Pc.owed, Pc.unsent, echoServer, cMyServer]
  | send a ts =>
      cases ts with
      | nil =>
          cases a <;> constructor <;>
            simp [stepCall, afterSend, Pc.speaker, Pc.unknown, Pc.owed, Pc.unsent]
      | cons t ts =>
          simp only [stepCall]
          repeat' split
          all_goals constructor <;> intro h <;>
            simp_all [Pc.speaker, Pc.unknown, Pc.owed, Pc.unsent]
  | close a =>
      cases a <;> cases job <;> constructor <;>
        simp [stepCall, afterClose, Pc.speaker, Pc.unknown, Pc.owed, Pc.unsent]
  | headTest =>
      simp only [stepCall]
      rcases takeHead_eq k.ctx with ht | ⟨p, rest, -, -, ht⟩ <;> rw [ht] <;> constructor <;>
        simp [Pc.speaker, Pc.unknown, Pc.owed, Pc.unsent]
  | alloc a =>
      simp only [stepCall]
      cases ch.addr <;> cases a <;> constructor <;>
        simp [afterNoBuffer, Pc.speaker, Pc.unknown, Pc.owed, Pc.unsent]
  | recv a addr =>
      simp only [stepCall]
      cases a <;> split <;> constructor <;>
        simp [afterRecv, Pc.speaker, Pc.unknown, Pc.owed, Pc.unsent]
  | reads left =>
      cases left <;> constructor <;> simp [stepCall, Pc.speaker, Pc.unknown, Pc.owed, Pc.unsent]
  | throttle a b ts | wsaSend a b ts | countSend a ts =>
      simp only [stepCall]
      repeat' split
      all_goals constructor <;> intro h <;>
        simp_all [Pc.speaker, Pc.unknown, Pc.owed, Pc.unsent]
  | enter | notify | unlink a | testCounters | release | finish | compare | insert | call p
  | increment p | drop p | add | keepAlive | ioctl | returned =>
      simp only [stepCall]
      repeat' split
      all_goals constructor <;>
        simp [Pc.speaker, Pc.unknown, Pc.owed, Pc.unsent, echoServer, cMyServer]

end

/-- What `CMyServer` is promised: every completion carries data and no error,
every `WSARecv` and `WSASend` is accepted, and nobody but the callbacks uses
the connection. -/
def EchoStep (c : Conn) : Action → Prop
  | .dequeue _ d e => d.length ≠ 0 ∧ e = noError
  | .step i ch => ∀ a ∈ c.calls[i]?, (a.pc.posts = true → c.accepts ch.ok = true) ∧
      (a.pc.allocates = true → FreshAddr c ch)
  | .sendText _ | .closeAConnection => False

instance (c : Conn) : (act : Action) → Decidable (EchoStep c act)
  | .dequeue _ d e => inferInstanceAs (Decidable (d.length ≠ 0 ∧ e = noError))
  | .step i ch => inferInstanceAs (Decidable (∀ a ∈ c.calls[i]?,
      (a.pc.posts = true → c.accepts ch.ok = true) ∧ (a.pc.allocates = true → FreshAddr c ch)))
  | .sendText _ | .closeAConnection => inferInstanceAs (Decidable False)

section
variable {s : Int} {r : Nat} {first : Text} {c d : Conn} {i : Nat} {a : Call} {ch : Choice}

theorem EchoStep.openStep {act : Action} (hok : EchoStep c act)
    (hopen : ∀ i ch a, act = .step i ch → c.calls[i]? = some a → a.pc.closes = false)
    (hw : c.reads ≤ c.delivered + 2 ^ 32) : OpenStep (fun _ => True) c act where
  data := fun i d e b hact hb hop => by
    subst hact
    exact ⟨fun _ => hok, fun _ => trivial⟩
  open_ := fun i ch a hact ha k hk => by
    have := hopen i ch a hact ha
    rw [hk] at this
    cases this
  window := hw

theorem EchoStep.fresh {act : Action} (hok : EchoStep c act) :
    ∀ i ch a, act = .step i ch → c.calls[i]? = some a → a.pc.allocates = true →
      FreshAddr c ch := by
  intro i ch a hact ha hal
  subst hact
  exact (hok a ha).2 hal

theorem received_snoc {tr : List Event} {e : Event} (he : e ≠ .established)
    (h : received first tr = first :: (readLog tr).map CIOCPBuffer.buff) :
    received first (tr ++ [e])
      = first :: (readLog (tr ++ [e])).map CIOCPBuffer.buff := by
  have hsnoc : received first (tr ++ [e]) = received first tr ++ (e.received? first).toList :=
    filterMap_snoc _ tr e
  rw [hsnoc, h, readLog_append, List.map_append, List.cons_append]
  cases e <;> first | exact absurd rfl he | simp [Event.received?, readLog]

/-- While the accept greets, nobody posts a read. -/
theorem Greeted.not_recv (h : Greeted first c) (ha : c.calls[i]? = some a) {k : Receiver}
    {addr : Nat} (hpc : a.pc = .recv k addr) {j : Nat} {x : Call} (hij : j ≠ i)
    (hx : c.calls[j]? = some x) : x.pc.speaker ≠ some .established := by
  intro hs
  have hbel := h.placed a (mem_of_get ha)
  rw [hpc] at hbel
  cases k with
  | repost =>
      have := h.reads a (mem_of_get ha) hbel
      have := h.greeting x (mem_of_get hx) hs
      omega
  | initial left =>
      have hj := h.accept j x hx (belongs_speaker (h.placed x (mem_of_get hx)) hs)
      exact hij (hj.trans (h.accept i a ha hbel).symm)

theorem Greeted.stepped (h : Greeted first c) (ha : c.calls[i]? = some a)
    (hok : EchoStep c (.step i ch)) (hclose : a.pc.closes = false)
    (hs : c.step (echoServer s r) (.step i ch)
      = some (c.become i a (stepCall (echoServer s r) ch c.toCore a.job a.pc))) :
    Greeted first (c.become i a (stepCall (echoServer s r) ch c.toCore a.job a.pc)) := by
  have hmem := mem_of_get ha
  have hn : EchoNext a.pc (stepCall (echoServer s r) ch c.toCore a.job a.pc).2 :=
    stepCall_echoNext s r ch c.toCore a.job
  have hopen : ∀ i' ch' a', Action.step i ch = .step i' ch' → c.calls[i']? = some a' →
      a'.pc.closes = false := by
    intro i' ch' a' hact ha'
    cases hact
    obtain rfl := Option.some.inj (ha.symm.trans ha')
    exact hclose
  have hsock := stepCall_socket (echoServer s r) ch c.toCore a.job hclose
    (CallOk.of_mem h.order ha).late.2
  have hget : (c.become i a (stepCall (echoServer s r) ch c.toCore a.job a.pc)).calls[i]?
      = some { a with pc := (stepCall (echoServer s r) ch c.toCore a.job a.pc).2 } := by
    have hlt := (List.getElem?_eq_some_iff.mp ha).1
    simp [Conn.become, List.getElem?_set_self hlt]
  have hother : ∀ j, j ≠ i →
      (c.become i a (stepCall (echoServer s r) ch c.toCore a.job a.pc)).calls[j]? = c.calls[j]? :=
    fun j hj => List.getElem?_set_ne (fun e => hj e.symm)
  have hindex : ∀ j x,
      (c.become i a (stepCall (echoServer s r) ch c.toCore a.job a.pc)).calls[j]? = some x →
      (j ≠ i ∧ c.calls[j]? = some x) ∨
        (j = i ∧ x = { a with pc := (stepCall (echoServer s r) ch c.toCore a.job a.pc).2 }) := by
    intro j x hx
    by_cases hj : j = i
    · subst hj
      rw [hget] at hx
      exact .inr ⟨rfl, (Option.some.inj hx).symm⟩
    · rw [hother j hj] at hx
      exact .inl ⟨hj, hx⟩
  have hmono := reads_mono (echoServer s r) hs
  refine ⟨h.order.step (hok.openStep hopen (h.apart.window h.order)) hs,
    h.apart.step hok.fresh hs, h.placed.step hs, ?_, ?_, fun j x hx hacc => ?_, fun x hx => ?_,
    fun x hx hr => ?_, fun x hx hsp => ?_, fun x hx hsp => ?_, fun x hx => ?_, fun x hx => ?_,
    ?_, ?_⟩
  · exact hsock.1.trans (h.sock.trans hsock.2.1.symm)
  · exact hsock.2.2.trans h.isOpen
  · rcases hindex j x hx with ⟨-, hx⟩ | ⟨rfl, rfl⟩
    · exact h.accept j x hx hacc
    · exact h.accept j a ha hacc
  · rcases Conn.mem_become hx with hx | rfl
    · exact h.app x hx
    · exact h.app a hmem
  · rcases Conn.mem_become hx with hx | rfl
    · exact Nat.lt_of_lt_of_le (h.reads x hx hr) hmono
    · exact Nat.lt_of_lt_of_le (h.reads a hmem hr) hmono
  · -- a read that is posted meanwhile would have to come from the greeting call itself
    obtain ⟨j, hj⟩ := List.mem_iff_getElem?.mp hx
    have hnew : (∀ k addr, a.pc ≠ .recv k addr) ∧ c.reads = 0 := by
      rcases hindex j x hj with ⟨hji, hx'⟩ | ⟨-, rfl⟩
      · exact ⟨fun k addr hpc => h.not_recv ha hpc hji hx' hsp,
          h.greeting x (mem_of_get hx') hsp⟩
      · rcases hn.established hsp with hsp' | hio
        · refine ⟨fun k addr hpc => ?_, h.greeting a hmem hsp'⟩
          rw [hpc] at hsp'
          cases hsp'
        · have := h.known a hmem
          rw [hio] at this
          cases this
    rcases stepCall_posted (echoServer s r) ch c.toCore a.job a.pc with
      ⟨-, hr⟩ | ⟨k, addr, hpc, -⟩ | ⟨-, b, -, -, hk⟩
    · exact hr.trans hnew.2
    · exact absurd hpc (hnew.1 k addr)
    · rw [Conn.become_toCore, hk]
      exact hnew.2
  · rcases Conn.mem_become hx with hx | rfl
    · exact h.writes x hx hsp
    · rcases hn.writes hsp with hpc | ⟨hsp', hne⟩
      · exact hpc
      · exact absurd (h.writes a hmem hsp') hne
  · rcases Conn.mem_become hx with hx | rfl
    · exact h.known x hx
    · by_contra hne
      have := hn.unknown (by simpa using hne)
      rw [h.known a hmem] at this
      cases this
  · rcases Conn.mem_become hx with hx | rfl
    · exact h.single x hx
    · exact hn.single (h.single a hmem)
  · rcases stepCall_trace (echoServer s r) ch c.toCore a.job a.pc with ht | ⟨e, ht, he⟩
    · rw [Conn.become_toCore, ht]
      exact h.data
    · rw [Conn.become_toCore, ht]
      refine received_snoc (fun hest => ?_) h.data
      have := h.known a hmem
      rw [he.established hest] at this
      cases this
  · by_cases hact : a.pc.active = true
    · -- the others have no text, before and after
      have hA := h.account
      rw [flatMap_single ha fun j x hj hx => (h.alone ha hact hj hx).1,
        flatMap_single ha fun j x hj hx => (h.alone ha hact hj hx).2] at hA
      rw [flatMap_single hget fun j x hj hx => (h.alone ha hact hj ((hother j hj).symm.trans hx)).1,
        flatMap_single hget fun j x hj hx => (h.alone ha hact hj ((hother j hj).symm.trans hx)).2]
      refine stepCall_active s r ch c.toCore a.job hact (fun hio => ?_) (hok a ha).1 hA
      have := h.known a hmem
      rw [hio] at this
      cases this
    · have hact' : a.pc.active = false := by simpa using hact
      obtain ⟨hA, ho, hu⟩ :=
        stepCall_inactive s r ch c.toCore a.job hact' h.account
      obtain ⟨ho', hu'⟩ := active_eq_false hact'
      simp only [Conn.become]
      rw [flatMap_set_same ha (ho.trans ho'.symm), flatMap_set_same ha (hu.trans hu'.symm)]
      exact hA

theorem Greeted.dequeue (h : Greeted first c) {data : List UInt8} {e : Nat}
    (hok : EchoStep c (.dequeue i data e))
    (hs : c.step (echoServer s r) (.dequeue i data e) = some d) : Greeted first d := by
  have horder := h.order.step (hok.openStep (by simp) (h.apart.window h.order)) hs
  have hapart := h.apart.step (by simp) hs
  have hplaced := h.placed.step hs
  obtain ⟨b, hb, -, rfl⟩ := Conn.dequeue_eq hs
  have hop : (completed b data).nOperation = b.nOperation := by
    unfold completed
    split <;> simp_all
  have hcalls : ∀ x, x ∈ c.calls ++ [⟨.io (completed b data) data.length e, .enter⟩] →
      x ∈ c.calls ∨ x = ⟨.io (completed b data) data.length e, .enter⟩ := fun x hx =>
    (List.mem_append.mp hx).imp id List.mem_singleton.mp
  refine ⟨horder, hapart, hplaced, h.sock, h.isOpen, fun j x hx hacc => ?_, fun x hx => ?_,
    fun x hx hr => ?_, fun x hx hsp => ?_, fun x hx hsp => ?_, fun x hx => ?_, fun x hx => ?_,
    h.data, ?_⟩
  · have hmem := hcalls x (List.mem_of_getElem? hx)
    by_cases hj : j < c.calls.length
    · exact h.accept j x ((List.getElem?_append_left hj).symm.trans hx) hacc
    · have hx' : [(⟨.io (completed b data) data.length e, .enter⟩ : Call)][j - c.calls.length]?
          = some x := (List.getElem?_append_right (by omega)).symm.trans hx
      obtain rfl := List.mem_singleton.mp (List.mem_of_getElem? hx')
      cases hacc
  · rcases hcalls x hx with hx | rfl
    · exact h.app x hx
    · rfl
  · rcases hcalls x hx with hx | rfl
    · exact h.reads x hx hr
    · -- a read in flight was posted
      have hread : b.nOperation = .opRead := by simpa [Job.isRead, hop] using hr
      have hpos := weight_pos (f := isNo b.no) (List.mem_of_getElem? hb)
      rw [isNo_self hread] at hpos
      have hrange : 0 < c.reads := by
        have := h.order.range_of_tally (n := b.no) trivial (by simp only [tally]; omega)
        omega
      exact hrange
  · rcases hcalls x hx with hx | rfl
    · exact h.greeting x hx hsp
    · cases hsp
  · rcases hcalls x hx with hx | rfl
    · exact h.writes x hx hsp
    · cases hsp
  · rcases hcalls x hx with hx | rfl
    · exact h.known x hx
    · rfl
  · rcases hcalls x hx with hx | rfl
    · exact h.single x hx
    · exact Nat.zero_le _
  · have hA := h.account
    simp only [Conn.start, List.flatMap_append]
    simpa [Pc.owed, Pc.unsent] using hA

theorem Greeted.few (h : Greeted first c) :
    (c.calls.flatMap fun x => x.pc.owed).length + (c.calls.flatMap fun x => x.pc.unsent).length
      ≤ 1 := by
  by_cases hall : ∀ x ∈ c.calls, x.pc.owed = [] ∧ x.pc.unsent = []
  · have ho : (c.calls.flatMap fun x => x.pc.owed) = [] :=
      List.flatMap_eq_nil_iff.mpr fun x hx => (hall x hx).1
    have hu : (c.calls.flatMap fun x => x.pc.unsent) = [] :=
      List.flatMap_eq_nil_iff.mpr fun x hx => (hall x hx).2
    simp [ho, hu]
  · simp only [not_forall] at hall
    obtain ⟨a, hmem, htext⟩ := hall
    obtain ⟨i, ha⟩ := List.mem_iff_getElem?.mp hmem
    have hact : a.pc.active = true := by
      by_contra hne
      exact htext (active_eq_false (by simpa using hne))
    rw [flatMap_single ha fun j x hj hx => (h.alone ha hact hj hx).1,
      flatMap_single ha fun j x hj hx => (h.alone ha hact hj hx).2]
    exact h.single a hmem

end

/-! ## Whole runs -/

/-- What a trace `tr` says about the echo: the reads are delivered in posting
order, `SendText` was called for all data but `o`, and `WSASend` for all of it
that had a buffer and passed the throttle, but `u`. -/
structure Echoed (first : Text) (tr : List Event) (o u : List Text) : Prop where
  order : ∃ m, (readLog tr).map CIOCPBuffer.no = List.range m
  data : tr = [] ∨ received first tr = first :: (readLog tr).map CIOCPBuffer.buff
  account : Account first tr o u
  few : o.length + u.length ≤ 1

/-- Before the greeting the shared state is as `AllocateContext` left it. -/
def Opening (sock : SOCKET) (b : CIOCPBuffer) (c : Conn) : Prop :=
  ∃ pc : Pc, (pc.unknown = true ∨ (∃ k, k ≠ .test ∧ (pc = .unlink k ∨ pc = .close k))) ∧
    c = { Conn.init sock b with calls := [⟨.accept b, pc⟩] }

/-- After the close nothing is sent any more. -/
def Shut (first : Text) (c : Conn) : Prop :=
  c.sockOpen = false ∧ ∃ tr o u, tr <+: c.trace ∧ sentTexts c.trace = sentTexts tr ∧
    Echoed first tr o u

section
variable {s : Int} {r : Nat} {sock : SOCKET} {b : CIOCPBuffer} {first : Text} {c d : Conn}
  {act : Action}

theorem Greeted.echoed (h : Greeted first c) : Echoed first c.trace
    (c.calls.flatMap fun x => x.pc.owed) (c.calls.flatMap fun x => x.pc.unsent) :=
  ⟨⟨_, h.order.log⟩, .inr h.data, h.account, h.few⟩

theorem echoed_nil : Echoed first [] [] [] :=
  ⟨⟨0, rfl⟩, .inl rfl, ⟨rfl, rfl⟩, Nat.zero_le 1⟩

theorem stepCall_shut (cfg : Config) (ch : Choice) (k : Core) (job : Job) {pc : Pc}
    (h : k.sockOpen = false) : (stepCall cfg ch k job pc).1.sockOpen = false := by
  by_cases hc : pc.closes = true
  · cases pc with
    | close a => cases a <;> simp [stepCall, Core.close, h]
    | _ => cases hc
  · by_cases hr : pc = .release
    · subst hr
      simp [stepCall, Core.release, h]
    · exact ((stepCall_socket cfg ch k job (by simpa using hc) hr).2.2).trans h

theorem Shut.step (h : Shut first c) {cfg : Config} (hs : c.step cfg act = some d) :
    Shut first d := by
  obtain ⟨hsock, tr, o, u, hpre, hsent, he⟩ := h
  refine ⟨?_, tr, o, u, ?_⟩
  · cases act with
    | dequeue i data e =>
        obtain ⟨b, -, -, rfl⟩ := Conn.dequeue_eq hs
        exact hsock
    | step i ch =>
        obtain ⟨a, -, -, rfl⟩ := Conn.step_eq hs
        exact stepCall_shut cfg ch c.toCore a.job hsock
    | sendText t =>
        obtain ⟨-, rfl⟩ := Conn.sendText_eq hs
        exact hsock
    | closeAConnection =>
        obtain ⟨-, rfl⟩ := Conn.closeAConnection_eq hs
        exact hsock
  · rcases Conn.step_trace hs with ht | ⟨e, ht, i, ch, a, -, -, hsrc⟩
    · rw [ht]
      exact ⟨hpre, hsent, he⟩
    · rw [ht]
      refine ⟨hpre.trans (List.prefix_append _ _), ?_, he⟩
      have hnone : e.sent? = none := by
        cases hcase : e <;> try rfl
        rename_i t
        have := hsrc.sent t hcase
        rw [hsock] at this
        cases this
      show (c.trace ++ [e]).filterMap Event.sent? = _
      rw [filterMap_snoc, hnone, Option.toList_none, List.append_nil]
      exact hsent

theorem Greeted.step (h : Greeted first c) (hok : EchoStep c act)
    (hs : c.step (echoServer s r) act = some d) : Greeted first d ∨ Shut first d := by
  cases act with
  | dequeue i data e => exact .inl (h.dequeue hok hs)
  | sendText t | closeAConnection => exact absurd hok (by simp [EchoStep])
  | step i ch =>
      obtain ⟨a, ha, -, rfl⟩ := Conn.step_eq hs
      by_cases hclose : a.pc.closes = true
      · refine .inr ⟨?_, c.trace, _, _, ?_, ?_, h.echoed⟩
        all_goals
          cases hpc : a.pc with
          | close k => cases k <;> simp [stepCall, Core.close, h.sock]
          | _ => rw [hpc] at hclose; cases hclose
      · exact .inl (h.stepped ha hok (by simpa using hclose) hs)

theorem greeted_of_ioctl : Greeted b.buff
    { Conn.init sock b with
      trace := [.established], calls := [⟨.accept b, .send .established [b.buff]⟩] } where
  order :=
    { closing := rfl
      current := rfl
      next := rfl
      bound := Nat.le_refl 0
      posted := fun b hb => by cases hb
      calls := fun x hx => by
        obtain rfl := List.mem_singleton.mp hx
        exact ⟨fun _ _ _ hj => (by cases hj), by simp, by simp [Pc.held], by simp⟩
      parked := fun p hp => by cases hp
      once := fun n _ => by
        simp [tally, Conn.init, Call.carries, Pc.early, Pc.held, heldNo, CIOCPContext.allocated]
      log := rfl
      logged := fun p hp => by cases hp }
  apart := fun x => by
    simp [live, Conn.init, CIOCPContext.allocated, Call.keepsAt, Call.buffers, Call.allotted,
      Pc.early, Pc.held]
  placed := fun x hx => by
    obtain rfl := List.mem_singleton.mp hx
    rfl
  sock := rfl
  isOpen := rfl
  accept := fun j x hx _ => by
    cases j with
    | zero => rfl
    | succ j => simp at hx
  app := fun x hx => by
    obtain rfl := List.mem_singleton.mp hx
    rfl
  reads := fun x hx hr => by
    obtain rfl := List.mem_singleton.mp hx
    cases hr
  greeting := fun _ _ _ => rfl
  writes := fun x hx hsp => by
    obtain rfl := List.mem_singleton.mp hx
    cases hsp
  known := fun x hx => by
    obtain rfl := List.mem_singleton.mp hx
    rfl
  single := fun x hx => by
    obtain rfl := List.mem_singleton.mp hx
    exact Nat.le_refl 1
  data := rfl
  account := ⟨rfl, rfl⟩

theorem Opening.step (h : Opening sock b c) (hok : EchoStep c act)
    (hs : c.step (echoServer s r) act = some d) :
    Opening sock b d ∨ Greeted b.buff d ∨ Shut b.buff d := by
  obtain ⟨pc, hpc, rfl⟩ := h
  cases act with
  | dequeue i data e => exact absurd hs (by simp [Conn.step, Conn.init])
  | sendText t | closeAConnection => exact absurd hok (by simp [EchoStep])
  | step i ch =>
      obtain ⟨a, ha, -, rfl⟩ := Conn.step_eq hs
      cases i with
      | succ i => cases ha
      | zero =>
          obtain rfl : ⟨.accept b, pc⟩ = a := Option.some.inj ha
          have hstay : ∀ pc' : Pc,
              (pc'.unknown = true ∨ (∃ k, k ≠ .test ∧ (pc' = .unlink k ∨ pc' = .close k))) →
              Opening sock b (({ Conn.init sock b with calls := [⟨.accept b, pc⟩] } : Conn).become 0
                ⟨.accept b, pc⟩ ((Conn.init sock b).toCore, pc')) :=
            fun pc' h' => ⟨pc', h', rfl⟩
          rcases hpc with hpc | ⟨k, hk, rfl | rfl⟩
          · cases pc with
            | add =>
                simp only [stepCall]
                split
                · exact .inl (hstay _ (.inl rfl))
                · exact .inl (hstay _ (.inr ⟨.release, by simp, .inl rfl⟩))
            | keepAlive =>
                simp only [stepCall]
                split
                · exact .inl (hstay _ (.inl rfl))
                · exact .inl (hstay _ (.inr ⟨.leave, by simp, .inl rfl⟩))
            | ioctl =>
                simp only [stepCall]
                split
                · exact .inr (.inl greeted_of_ioctl)
                · exact .inl (hstay _ (.inr ⟨.leave, by simp, .inl rfl⟩))
            | _ => cases hpc
          · exact .inl (hstay _ (.inr ⟨k, hk, .inr rfl⟩))
          · refine .inr (.inr ⟨?_, [], [], [], List.nil_prefix, ?_, echoed_nil⟩)
            all_goals cases k <;> simp_all [stepCall, Core.close, Conn.init, CIOCPContext.allocated]

theorem echo_phases (hrun : Via (Conn.step (echoServer s r)) EchoStep (Conn.init sock b) c) :
    Opening sock b c ∨ Greeted b.buff c ∨ Shut b.buff c := by
  refine hrun.invariant (P := fun c => Opening sock b c ∨ Greeted b.buff c ∨ Shut b.buff c)
    (.inl ⟨.add, .inl rfl, rfl⟩) fun t act u ih hok hs => ?_
  rcases ih with h | h | h
  · exact h.step hok hs
  · exact .inr (h.step hok hs)
  · exact .inr (.inr (h.step hs))

/-- A text is dropped by the throttle only when too many sends are outstanding. -/
theorem throttled_lt {cfg : Config} (hrun : Via (Conn.step cfg) EchoStep (Conn.init sock b) c) :
    ∀ t n, Event.throttled t n ∈ c.trace → cfg.nMaxSends < n := by
  refine hrun.invariant (P := fun c => ∀ t n, Event.throttled t n ∈ c.trace → cfg.nMaxSends < n)
    (fun t n h => by cases h) fun c act d ih _ hs t n ht => ?_
  rcases Conn.step_trace hs with h | ⟨e, h, i, ch, a, -, -, hsrc⟩ <;> rw [h] at ht
  · exact ih t n ht
  · rcases List.mem_append.mp ht with ht | ht
    · exact ih t n ht
    · exact hsrc.throttled t n (List.mem_singleton.mp ht).symm

/-- **Echo in order.**  On every run of `CMyServer` on which each `WSARecv` and
`WSASend` is accepted and each completion carries data, the payloads passed to
`WSASend` all lie in a part `tr` of the trace (all of it while the connection is
open) in which the reads are delivered in posting order and `SendText` is
called, in order and once each, for the data of the accept and of these reads;
`WSASend` gets, in the same order, those texts that had a buffer and passed the
throttle.  One text at most is still on its way, and none when no call is
inside `SendText`.  The throttle drops a text only when more than
`nMaxSends` sends are outstanding. -/
theorem echo_in_order
    (hrun : Via (Conn.step (echoServer s r)) EchoStep (Conn.init sock b) c) :
    (∃ tr o u, tr <+: c.trace ∧ sentTexts c.trace = sentTexts tr ∧ Echoed b.buff tr o u ∧
      (c.sockOpen = true → tr = c.trace ∧
        ((∀ a ∈ c.calls, a.pc.owed = [] ∧ a.pc.unsent = []) → o = [] ∧ u = []))) ∧
    ∀ t n, .throttled t n ∈ c.trace → s < n := by
  refine ⟨?_, throttled_lt hrun⟩
  rcases echo_phases hrun with ⟨pc, -, rfl⟩ | h | ⟨hshut, tr, o, u, hpre, hsent, he⟩
  · exact ⟨[], [], [], List.nil_prefix, rfl, echoed_nil, fun _ => ⟨rfl, fun _ => ⟨rfl, rfl⟩⟩⟩
  · refine ⟨c.trace, _, _, List.prefix_rfl, rfl, h.echoed, fun _ => ⟨rfl, fun hall => ⟨?_, ?_⟩⟩⟩
    · exact List.flatMap_eq_nil_iff.mpr fun x hx => (hall x hx).1
    · exact List.flatMap_eq_nil_iff.mpr fun x hx => (hall x hx).2
  · exact ⟨tr, o, u, hpre, hsent, he, fun hopen => by rw [hshut] at hopen; cases hopen⟩

end

/-! ## The dropped text -/

/-- One read at a time: the client sends 21 bytes after the first two, one by
one, and takes in nothing, so none of the sends completes. -/
def slowReceiver : List Action :=
  smooth 0 13 100 ++
  (List.range 20).flatMap
    (fun j => .dequeue (j + 1) [48] noError :: smooth (j + 1) 14 (200 + 20 * j))
  ++ [.dequeue 21 [49] noError] ++ smooth 21 6 800

/-- The last byte is delivered and never sent, and nobody will send it. -/
theorem dropped_by_throttle :
    ∃ c, Via (Conn.step (echoServer 20 1)) EchoStep (Conn.init 7 firstData) c ∧
      (∀ a ∈ c.calls, a.pc.owed = [] ∧ a.pc.unsent = []) ∧
      [49] ∈ (readLog c.trace).map CIOCPBuffer.buff ∧ [49] ∉ sentTexts c.trace :=
  exists_via_of_execIf slowReceiver (by decide +kernel)

/-- In that run everything else was sent. -/
theorem echo_in_order_slowReceiver :
    ∃ c, Via (Conn.step (echoServer 20 1)) EchoStep (Conn.init 7 firstData) c ∧
      ∃ t n, .throttled t n ∈ c.trace ∧ 20 < n := by
  have h : ∃ c, Via (Conn.step (echoServer 20 1)) EchoStep (Conn.init 7 firstData) c ∧
      .throttled [49] 21 ∈ c.trace :=
    exists_via_of_execIf slowReceiver (by decide +kernel)
  obtain ⟨c, hrun, ht⟩ := h
  exact ⟨c, hrun, [49], 21, ht, (echo_in_order hrun).2 _ _ ht⟩

end CppWorkspace.CIOCPServer
