/-
# `CppWorkspace.CIOCPServer.CloseNotification` — `OnConnectionClosing` and `OnConnectionError`

The callbacks that report the end of a connection, on every run of one worker.

`NotifyConnectionClosing` and `NotifyConnectionError` share a flag, so at most one of them
gets through; `HandleIO` calls them before `CloseAConnection`, and a completion that finds
`bClosing` set reports nothing.  But not every caller of `CloseAConnection` has notified:

| who closes | notified |
| :-- | :-- |
| an error, a read or a send of zero bytes | yes |
| `setsockopt` or `WSAIoctl` failed | no, and `OnConnectionEstablished` was not called |
| an initial read or the next read was not posted | no |

In the last case the completions that are left find `bClosing` set, the context is released,
and the application is never told (`not_close_notified`).  `Announced` excludes it.
-/
import CppWorkspace.CIOCPServer.Reclaim

namespace CppWorkspace.CIOCPServer

open Runs Weights

def Event.isNotice : Event → Bool
  | .closing | .error _ => true
  | _ => false

def Event.isData : Event → Bool
  | .readCompleted _ | .writeCompleted => true
  | _ => false

/-- How often the end of the connection was reported. -/
def notices (tr : List Event) : Nat := tr.countP Event.isNotice

/-- No data is reported after the end. -/
def Silent (tr : List Event) : Prop :=
  ∀ l₁ e l₂, tr = l₁ ++ e :: l₂ → e.isNotice = true → ∀ e' ∈ l₂, e'.isData = false

/-- `CloseAConnection` by a caller that has not notified: the connection was not established. -/
def Announced (c : Conn) : Action → Prop
  | .step i _ => ∀ a ∈ c.calls[i]?, a.pc = .close .leave → .established ∉ c.trace
  | _ => True

instance (c : Conn) : (act : Action) → Decidable (Announced c act)
  | .step i _ => inferInstanceAs (Decidable (∀ a ∈ c.calls[i]?, a.pc = .close .leave →
      .established ∉ c.trace))
  | .dequeue .. | .sendText _ | .closeAConnection => inferInstanceAs (Decidable True)

/-- What the application is told of the end of a connection. -/
structure CloseNotified (c : Conn) : Prop where
  once : notices c.trace ≤ 1
  released : 0 < c.released → .established ∈ c.trace → notices c.trace = 1
  never : .established ∉ c.trace → notices c.trace = 0
  silent : Silent c.trace
  /-- a context that was given back is handed out as a new one -/
  recycled : 0 < c.released → Settled c → ∀ s, c.ctx.recycle s = .allocated s

/-! ## The stages of a call -/

/-- What a position tells about the flags. -/
inductive Stage where
  | early
  | open_
  | leave
  | told
  | tested
  | free
deriving DecidableEq, Repr

def Pc.stage : Pc → Stage
  | .add | .keepAlive | .ioctl | .unlink .release | .close .release => .early
  | .unlink .leave | .close .leave => .leave
  | .unlink .test | .close .test => .told
  | .testCounters => .tested
  | .enter | .testClosing | .release | .finish | .returned => .free
  | .notify | .compare | .insert | .headTest | .call _ | .send .. | .throttle .. | .wsaSend ..
  | .countSend .. | .increment _ | .drop _ | .alloc _ | .recv .. | .reads _ => .open_

def Stage.holds (k : Core) : Stage → Prop
  | .early => .established ∉ k.trace ∧ k.ctx.bNotifyCloseOrError = false ∧ k.ctx.bClosing = false
  | .open_ => .established ∈ k.trace ∧ k.ctx.bNotifyCloseOrError = false ∧ k.ctx.bClosing = false
  | .leave => k.ctx.bNotifyCloseOrError = false ∧ k.ctx.bClosing = false
  | .told => k.ctx.bNotifyCloseOrError = true
  | .tested => k.ctx.bClosing = true
  | .free => True

/-- The positions whose step reports something, or changes a flag. -/
def Pc.talks : Pc → Bool
  | .testClosing | .notify | .close _ | .testCounters | .release | .call _ | .ioctl => true
  | _ => false

/-- Nothing was reported, and no flag was changed. -/
structure SameTalk (k k' : Core) : Prop where
  notified : k'.ctx.bNotifyCloseOrError = k.ctx.bNotifyCloseOrError
  bClosing : k'.ctx.bClosing = k.ctx.bClosing
  released : k'.released = k.released
  trace : ∃ es, k'.trace = k.trace ++ es ∧
    ∀ e ∈ es, e.isNotice = false ∧ e.isData = false ∧ e ≠ .established

section
variable {cfg : Config} {ch : Choice} {k k' : Core} {c d : Conn} {a : Call} {i : Nat}
  {tr es : List Event} {e : Event}

theorem SameTalk.same (h₁ : k'.ctx.bNotifyCloseOrError = k.ctx.bNotifyCloseOrError)
    (h₂ : k'.ctx.bClosing = k.ctx.bClosing) (h₃ : k'.released = k.released)
    (h₄ : k'.trace = k.trace) : SameTalk k k' :=
  ⟨h₁, h₂, h₃, [], by rw [h₄, List.append_nil], fun _ he => absurd he List.not_mem_nil⟩

theorem SameTalk.refl (k : Core) : SameTalk k k := .same rfl rfl rfl rfl

theorem SameTalk.log (h : e.isNotice = false ∧ e.isData = false ∧ e ≠ .established) :
    SameTalk k (k.log e) :=
  ⟨rfl, rfl, rfl, [e], rfl, fun _ hx => List.mem_singleton.mp hx ▸ h⟩

theorem stepCall_sameTalk (job : Job) {pc : Pc} (h : pc.talks = false) :
    SameTalk k (stepCall cfg ch k job pc).1 := by
  cases pc with
  | testClosing | notify | close s | testCounters | release | call p | ioctl => cases h
  | enter =>
      cases job with
      | io b t e => cases hop : b.nOperation <;> simp only [stepCall, hop] <;>
          exact .same rfl rfl rfl rfl
      | accept b | app => exact .refl k
  | insert =>
      cases job with
      | io b t e => exact .same rfl rfl rfl rfl
      | accept b | app => exact .refl k
  | headTest =>
      simp only [stepCall]
      rcases takeHead_eq k.ctx with ht | ⟨p, rest, -, -, ht⟩
      · rw [ht]
        exact .refl k
      · rw [ht]
        exact .same rfl rfl rfl rfl
  | send s ts =>
      cases ts with
      | nil => exact .refl k
      | cons t ts =>
          simp only [stepCall]
          repeat' split
          all_goals first | exact .refl k | exact .log ⟨rfl, rfl, by intro he; cases he⟩
  | throttle s b ts =>
      simp only [stepCall]
      split <;> exact .log ⟨rfl, rfl, by intro he; cases he⟩
  | wsaSend s b ts =>
      simp only [stepCall]
      split
      · refine ⟨rfl, rfl, rfl, [.sent b.buff], rfl, fun x hx => ?_⟩
        rw [List.mem_singleton.mp hx]
        exact ⟨rfl, rfl, by intro he; cases he⟩
      · exact .refl k
  | recv s addr =>
      simp only [stepCall]
      split
      · exact .same rfl rfl rfl rfl
      · exact .refl k
  | countSend s ts | increment p => exact .same rfl rfl rfl rfl
  | reads left => cases left <;> exact .refl k
  | unlink s | finish | drop p | returned => exact .refl k
  | compare | alloc s | add | keepAlive =>
      simp only [stepCall]
      repeat' split
      all_goals exact .refl k

/-- A step that reports nothing stays in its stage, or comes to a place where nothing is
known. -/
theorem stepCall_stage (job : Job) {pc : Pc} (h : pc.talks = false) :
    (stepCall cfg ch k job pc).2.stage = pc.stage ∨
      (stepCall cfg ch k job pc).2.stage = .free ∧ pc.stage ≠ .told ∨
      (stepCall cfg ch k job pc).2.stage = .leave ∧ (pc.stage = .open_ ∨ pc.stage = .early) := by
  cases pc with
  | testClosing | notify | close s | testCounters | release | call p | ioctl => cases h
  | headTest =>
      simp only [stepCall]
      rcases takeHead_eq k.ctx with ht | ⟨p, rest, -, -, ht⟩ <;> rw [ht] <;> exact .inl rfl
  | unlink s => cases s <;> exact .inl rfl
  | send s ts =>
      cases ts with
      | nil => cases s <;> first | exact .inl rfl | exact .inr (.inl ⟨rfl, by intro he; cases he⟩)
      | cons t ts =>
          simp only [stepCall]
          repeat' split
          all_goals exact .inl rfl
  | alloc s =>
      simp only [stepCall]
      split
      · exact .inl rfl
      · cases s
        · exact .inr (.inr ⟨rfl, .inl rfl⟩)
        · exact .inl rfl
  | recv s addr =>
      simp only [stepCall]
      split
      · cases s
        · exact .inr (.inl ⟨rfl, by intro he; cases he⟩)
        · exact .inl rfl
      · exact .inr (.inr ⟨rfl, .inl rfl⟩)
  | reads left =>
      cases left <;> first | exact .inl rfl | exact .inr (.inl ⟨rfl, by intro he; cases he⟩)
  | enter | finish | insert | increment p | drop p | countSend s ts | returned => exact .inl rfl
  | compare | throttle s b ts | wsaSend s b ts | add | keepAlive =>
      simp only [stepCall]
      repeat' split
      all_goals first
        | exact .inl rfl
        | exact .inr (.inl ⟨rfl, by intro he; cases he⟩)
        | exact .inr (.inr ⟨rfl, .inr rfl⟩)

/-! ## Traces -/

theorem notices_append : notices (tr ++ es) = notices tr + notices es := List.countP_append

theorem notices_quiet (h : ∀ e ∈ es, e.isNotice = false) : notices es = 0 :=
  List.countP_eq_zero.mpr fun e he => by rw [h e he]; exact Bool.false_ne_true

theorem established_append (h : ∀ e ∈ es, e ≠ .established) :
    .established ∈ tr ++ es ↔ .established ∈ tr :=
  ⟨fun hm => (List.mem_append.mp hm).resolve_right fun he => h _ he rfl,
    List.mem_append_left es⟩

theorem Silent.snoc (h : Silent tr) (hdata : e.isData = true → notices tr = 0) :
    Silent (tr ++ [e]) := by
  intro l₁ x l₂ hl hx y hy
  rcases List.eq_nil_or_concat l₂ with rfl | ⟨l₂, z, rfl⟩
  · cases hy
  · have hl' : tr ++ [e] = (l₁ ++ x :: l₂) ++ [z] := by simpa using hl
    obtain ⟨htr, hz⟩ := List.append_inj' hl' rfl
    rw [List.concat_eq_append] at hy
    rcases List.mem_append.mp hy with hy | hy
    · exact h l₁ x l₂ htr hx y hy
    · rw [List.mem_singleton.mp hy, ← (List.cons.inj hz).1]
      by_contra hne
      have hzero := hdata (by simpa using hne)
      have hmem : x ∈ tr := htr ▸ List.mem_append_right l₁ List.mem_cons_self
      exact List.countP_eq_zero.mp hzero x hmem hx

theorem Silent.append (h : Silent tr) (hes : ∀ e ∈ es, e.isData = false) : Silent (tr ++ es) := by
  induction es generalizing tr with
  | nil =>
      rw [List.append_nil]
      exact h
  | cons e es ih =>
      rw [List.append_cons]
      have he : e.isData = true → notices tr = 0 := by
        intro hd
        rw [hes e List.mem_cons_self] at hd
        cases hd
      exact ih (h.snoc he) fun x hx => hes x (List.mem_cons_of_mem e hx)

/-- The end is reported once at most, on an established connection, and last. -/
structure Tale (tr : List Event) : Prop where
  most : notices tr ≤ 1
  known : 0 < notices tr → .established ∈ tr
  silent : Silent tr

theorem Tale.append (h : Tale tr) (hes : ∀ e ∈ es, e.isNotice = false ∧ e.isData = false) :
    Tale (tr ++ es) := by
  have hsame : notices (tr ++ es) = notices tr := by
    rw [notices_append, notices_quiet fun e he => (hes e he).1, Nat.add_zero]
  refine ⟨?_, ?_, h.silent.append fun e he => (hes e he).2⟩
  · rw [hsame]
    exact h.most
  · rw [hsame]
    exact fun hpos => List.mem_append_left _ (h.known hpos)

theorem Tale.snoc (h : Tale tr) (hest : .established ∈ tr) (hzero : notices tr = 0) (e : Event) :
    Tale (tr ++ [e]) := by
  have hone : notices [e] ≤ 1 := List.countP_le_length
  refine ⟨?_, fun _ => List.mem_append_left _ hest, h.silent.snoc fun _ => hzero⟩
  rw [notices_append, hzero, Nat.zero_add]
  exact hone

namespace SameTalk

theorem notices (h : SameTalk k k') : notices k'.trace = CIOCPServer.notices k.trace := by
  obtain ⟨es, htr, hes⟩ := h.trace
  rw [htr, notices_append, notices_quiet fun e he => (hes e he).1, Nat.add_zero]

theorem established (h : SameTalk k k') : .established ∈ k'.trace ↔ .established ∈ k.trace := by
  obtain ⟨es, htr, hes⟩ := h.trace
  rw [htr, established_append fun e he => (hes e he).2.2]

theorem tale (h : SameTalk k k') (ht : Tale k.trace) : Tale k'.trace := by
  obtain ⟨es, htr, hes⟩ := h.trace
  rw [htr]
  exact ht.append fun e he => ⟨(hes e he).1, (hes e he).2.1⟩

theorem holds (h : SameTalk k k') {s : Stage} (hs : s.holds k) : s.holds k' := by
  cases s with
  | early => exact ⟨mt h.established.mp hs.1, h.notified.trans hs.2.1, h.bClosing.trans hs.2.2⟩
  | open_ => exact ⟨h.established.mpr hs.1, h.notified.trans hs.2.1, h.bClosing.trans hs.2.2⟩
  | leave => exact ⟨h.notified.trans hs.1, h.bClosing.trans hs.2⟩
  | told => exact h.notified.trans hs
  | tested => exact h.bClosing.trans hs
  | free => trivial

end SameTalk

/-! ## One worker -/

/-- Until the context is released. -/
structure Telling (k : Core) (calls : List Call) : Prop where
  counted : notices k.trace = if k.ctx.bNotifyCloseOrError then 1 else 0
  stage : ∀ a ∈ calls, a.pc.stage.holds k
  closed : k.ctx.bClosing = true → .established ∈ k.trace → k.ctx.bNotifyCloseOrError = true
  /-- who has notified goes on to close -/
  pending : k.ctx.bNotifyCloseOrError = true →
    k.ctx.bClosing = true ∨ ∃ a ∈ calls, a.pc.stage = .told

/-- What holds on every run of one worker that meets the condition. -/
structure Told (c : Conn) : Prop where
  telling : c.released = 0 → Telling c.toCore c.calls
  final : 0 < c.released → .established ∈ c.trace → notices c.trace = 1
  tale : Tale c.trace
  /-- completions there are on an established connection only -/
  inFlight : c.inFlight ≠ [] → .established ∈ c.trace
  jobs : ∀ a ∈ c.calls, a.job.isIo = true → .established ∈ c.trace
  zeroed : 0 < c.released → c.ctx = .zeroed ∨ ∃ a ∈ c.calls, a.pc = .release

theorem Told.init (sock : SOCKET) (b : CIOCPBuffer) : Told (Conn.init sock b) where
  telling := fun _ => by
    refine ⟨rfl, fun a ha => ?_, (fun h => by cases h), fun h => by cases h⟩
    obtain rfl := List.mem_singleton.mp ha
    exact ⟨List.not_mem_nil, rfl, rfl⟩
  final := fun h => absurd h (Nat.lt_irrefl 0)
  tale := ⟨Nat.zero_le 1, fun h => absurd h (Nat.lt_irrefl 0),
    fun l₁ e l₂ h => by cases l₁ <;> cases h⟩
  inFlight := fun h => absurd rfl h
  jobs := fun a ha hio => by
    obtain rfl := List.mem_singleton.mp ha
    cases hio
  zeroed := fun h => absurd h (Nat.lt_irrefl 0)

/-- The stages of the others do not matter: they have returned. -/
theorem stages_become (h : OneWorker c) (ha : c.calls[i]? = some a) (hret : a.pc ≠ .returned)
    {r : Core × Pc} (hstage : r.2.stage.holds r.1) :
    ∀ x ∈ (c.become i a r).calls, x.pc.stage.holds r.1 := by
  intro x hx
  rcases Conn.others_become hx with hx | rfl
  · rw [h.turn.others ha hret x hx]
    trivial
  · exact hstage

/-- If somebody has notified and not yet closed, it is the call at work. -/
theorem pending_self (h : OneWorker c) (ha : c.calls[i]? = some a) (hret : a.pc ≠ .returned)
    (ht : Telling c.toCore c.calls) (hn : c.ctx.bNotifyCloseOrError = true) :
    c.ctx.bClosing = true ∨ a.pc.stage = .told := by
  refine (ht.pending hn).imp_right ?_
  rintro ⟨x, hx, hstage⟩
  obtain ⟨j, hj⟩ := List.mem_iff_getElem?.mp hx
  have hxret : x.pc ≠ .returned := by
    intro he
    rw [he] at hstage
    cases hstage
  obtain ⟨n, hn⟩ := h.turn
  obtain rfl : j = i := (hn j x hj hxret).trans (hn i a ha hret).symm
  obtain rfl : a = x := Option.some.inj (ha.symm.trans hj)
  exact hstage

theorem telling_become (h : OneWorker c) (ha : c.calls[i]? = some a) (hret : a.pc ≠ .returned)
    {r : Core × Pc} (hnotices : notices r.1.trace = if r.1.ctx.bNotifyCloseOrError then 1 else 0)
    (hstage : r.2.stage.holds r.1)
    (hclosed : r.1.ctx.bClosing = true → .established ∈ r.1.trace →
      r.1.ctx.bNotifyCloseOrError = true)
    (hpending : r.1.ctx.bNotifyCloseOrError = true → r.1.ctx.bClosing = true ∨
      r.2.stage = .told) : Telling r.1 (c.become i a r).calls := by
  refine ⟨hnotices, stages_become h ha hret hstage, hclosed, fun hn => ?_⟩
  exact (hpending hn).imp_right fun htold => ⟨_, mem_become_self ha r, htold⟩

theorem Telling.quiet (ht : Telling c.toCore c.calls) (h : OneWorker c)
    (ha : c.calls[i]? = some a) (hret : a.pc ≠ .returned) {r : Core × Pc}
    (hs : SameTalk c.toCore r.1) (hstage : r.2.stage.holds r.1)
    (htold : a.pc.stage = .told → r.2.stage = .told) :
    Telling r.1 (c.become i a r).calls := by
  refine telling_become h ha hret ?_ hstage ?_ ?_
  · rw [hs.notices, hs.notified]
    exact ht.counted
  · rw [hs.notified, hs.bClosing, hs.established]
    exact ht.closed
  · rw [hs.notified, hs.bClosing]
    intro hn
    exact (pending_self h ha hret ht hn).imp_right htold

theorem Telling.data (ht : Telling c.toCore c.calls) (h : OneWorker c)
    (ha : c.calls[i]? = some a) (hret : a.pc ≠ .returned) (hopen : Stage.open_.holds c.toCore)
    (he : e.isData = true) {pc : Pc} (hpc : pc.stage = .open_) :
    Telling (c.toCore.log e) (c.become i a (c.toCore.log e, pc)).calls := by
  have hquiet : e.isNotice = false := by cases e <;> first | rfl | cases he
  have hnotices : notices (c.trace ++ [e]) = notices c.trace := by
    rw [notices_append, notices_quiet fun x hx => List.mem_singleton.mp hx ▸ hquiet, Nat.add_zero]
  obtain ⟨hest, hn, hb⟩ := hopen
  refine telling_become (r := (c.toCore.log e, pc)) h ha hret (hnotices.trans ht.counted) ?_ ?_ ?_
  · change pc.stage.holds _
    rw [hpc]
    exact ⟨List.mem_append_left _ hest, hn, hb⟩
  · exact fun hb' => absurd (hb.symm.trans hb') Bool.false_ne_true
  · exact fun hn' => absurd (hn.symm.trans hn') Bool.false_ne_true

theorem Telling.establish (ht : Telling c.toCore c.calls) (h : OneWorker c)
    (ha : c.calls[i]? = some a) (hret : a.pc ≠ .returned) (hearly : Stage.early.holds c.toCore)
    {pc : Pc} (hpc : pc.stage = .open_) :
    Telling (c.toCore.log .established) (c.become i a (c.toCore.log .established, pc)).calls := by
  obtain ⟨-, hn, hb⟩ := hearly
  have hnotices : notices (c.trace ++ [.established]) = notices c.trace := notices_append
  refine telling_become (r := (c.toCore.log .established, pc)) h ha hret
    (hnotices.trans ht.counted) ?_ ?_ ?_
  · change pc.stage.holds _
    rw [hpc]
    exact ⟨List.mem_append_right _ (List.mem_singleton_self _), hn, hb⟩
  · exact fun hb' => absurd (hb.symm.trans hb') Bool.false_ne_true
  · exact fun hn' => absurd (hn.symm.trans hn') Bool.false_ne_true

theorem notify_first (hn : k.ctx.bNotifyCloseOrError = false) :
    (k.notify e).ctx.bNotifyCloseOrError = true ∧ (k.notify e).trace = k.trace ++ [e] := by
  rw [Core.notify, hn, if_neg Bool.false_ne_true]
  exact ⟨rfl, rfl⟩

theorem Telling.notify (ht : Telling c.toCore c.calls) (h : OneWorker c)
    (ha : c.calls[i]? = some a) (hret : a.pc ≠ .returned) (hopen : Stage.open_.holds c.toCore)
    (he : e.isNotice = true) :
    Telling (c.toCore.notify e) (c.become i a (c.toCore.notify e, .unlink .test)).calls := by
  obtain ⟨hn, htrace⟩ := notify_first (e := e) hopen.2.1
  refine telling_become (r := (c.toCore.notify e, .unlink .test)) h ha hret ?_ hn
    (fun _ _ => hn) fun _ => .inr rfl
  have hzero : notices c.trace = 0 := by
    rw [ht.counted, hopen.2.1]
    rfl
  rw [hn, htrace, notices_append, hzero, Nat.zero_add]
  exact List.countP_cons_of_pos he

/-- The test of `bClosing`: a call that goes on does so on an open connection. -/
theorem Told.isOpen (ht : Told c) (h : OneWorker c) (hplaced : WellPlaced c)
    (hrel : c.released = 0) (ha : c.calls[i]? = some a) (hpc : a.pc = .testClosing)
    (hb : c.ctx.bClosing = false) : Stage.open_.holds c.toCore := by
  have hmem := List.mem_of_getElem? ha
  have hio : a.job.isIo = true := by
    have hbelongs := hplaced a hmem
    rwa [hpc] at hbelongs
  refine ⟨ht.jobs a hmem hio, ?_, hb⟩
  by_contra hn
  have hret : a.pc ≠ .returned := by
    rw [hpc]
    nofun
  rcases pending_self h ha hret (ht.telling hrel) (by simpa using hn) with hb' | htold
  · exact Bool.false_ne_true (hb.symm.trans hb')
  · rw [hpc] at htold
    cases htold

theorem Telling.stepped (h : OneWorker c) (hplaced : WellPlaced c) (ht : Told c)
    (hrel : c.released = 0) (ha : c.calls[i]? = some a) (hret : a.pc ≠ .returned)
    (hok : a.pc = .close .leave → .established ∉ c.trace)
    (hrel' : (stepCall cfg ch c.toCore a.job a.pc).1.released = 0) :
    Telling (stepCall cfg ch c.toCore a.job a.pc).1
      (c.become i a (stepCall cfg ch c.toCore a.job a.pc)).calls := by
  have hmem := List.mem_of_getElem? ha
  have htell := ht.telling hrel
  have hstage := htell.stage a hmem
  by_cases hquiet : a.pc.talks = false
  · have hs : SameTalk c.toCore (stepCall cfg ch c.toCore a.job a.pc).1 :=
      stepCall_sameTalk a.job hquiet
    have hnext := @stepCall_stage cfg ch c.toCore a.job a.pc hquiet
    refine htell.quiet h ha hret hs ?_ ?_
    · rcases hnext with he | ⟨he, -⟩ | ⟨he, hold⟩
      · rw [he]
        exact hs.holds hstage
      · rw [he]
        trivial
      · rw [he]
        refine hs.holds ?_
        rcases hold with hold | hold
        · rw [hold] at hstage
          exact hstage.2
        · rw [hold] at hstage
          exact hstage.2
    · intro htold
      rcases hnext with he | ⟨-, hold⟩ | ⟨-, hold⟩
      · rw [he, htold]
      · exact absurd htold hold
      · rcases hold with hold | hold <;> rw [htold] at hold <;> cases hold
  · have hnone : ∀ {s : Stage}, a.pc.stage = s → s ≠ .told → ∀ pc : Pc,
        a.pc.stage = .told → pc.stage = .told :=
      fun he hne pc htold => absurd (he.symm.trans htold) hne
    cases hpc : a.pc with
    | testClosing =>
        have hfree : a.pc.stage = .free := by rw [hpc]; rfl
        by_cases hb : c.ctx.bClosing = true
        · simp only [stepCall, if_pos hb]
          exact htell.quiet (r := (c.toCore, .testCounters)) h ha hret (.refl _) hb
            (hnone hfree (by decide) _)
        · have hb := Bool.eq_false_iff.mpr hb
          have hopen := ht.isOpen h hplaced hrel ha hpc hb
          simp only [stepCall, hb, Bool.false_eq_true, if_false]
          have hgo : ∀ pc : Pc, pc.stage = .open_ ∨ pc.stage = .free →
              Telling c.toCore (c.become i a (c.toCore, pc)).calls := by
            intro pc hstage'
            refine htell.quiet (r := (c.toCore, pc)) h ha hret (.refl _) ?_
              (hnone hfree (by decide) _)
            rcases hstage' with he | he
            · rw [he]
              exact hopen
            · rw [he]
              trivial
          cases a.job with
          | io b t e =>
              simp only [dispatch]
              split
              · exact hgo .notify (.inl rfl)
              · split
                · exact hgo .notify (.inl rfl)
                · cases b.nOperation with
                  | opRead => exact hgo .compare (.inl rfl)
                  | opWrite => exact htell.data h ha hret hopen rfl rfl
                  | opAccept => exact hgo .finish (.inr rfl)
          | accept b => exact hgo .finish (.inr rfl)
          | app => exact hgo .returned (.inr rfl)
    | notify =>
        rw [hpc] at hstage
        refine htell.notify h ha hret hstage ?_
        rcases notification_eq a.job with he | ⟨e, he⟩ <;> rw [he] <;> rfl
    | close k =>
        rw [hpc] at hstage
        cases k with
        | test =>
            exact telling_become (r := (c.toCore.close, .testCounters)) h ha hret htell.counted rfl
              (fun _ _ => hstage) fun _ => .inl rfl
        | leave =>
            have hfree : (afterClose a.job .leave).stage.holds c.toCore.close := by
              cases a.job <;> trivial
            exact telling_become h ha hret htell.counted hfree
              (fun _ hest => absurd hest (hok hpc)) fun _ => .inl rfl
        | release =>
            rw [hpc] at hrel'
            cases hrel'
    | testCounters =>
        rw [hpc] at hrel'
        simp only [stepCall] at hrel' ⊢
        split
        · rename_i hz
          rw [if_pos hz] at hrel'
          cases hrel'
        · exact htell.quiet (r := (c.toCore, .finish)) h ha hret (.refl _) trivial
            (hnone (s := .tested) (by rw [hpc]; rfl) (by decide) _)
    | release =>
        have hpos := (h.life.calls a hmem).release hpc
        rw [hrel] at hpos
        cases hpos
    | call p =>
        rw [hpc] at hstage
        exact htell.data h ha hret hstage rfl rfl
    | ioctl =>
        have hearly : a.pc.stage = .early := by rw [hpc]; rfl
        rw [hpc] at hstage
        have hgo : ∀ pc : Pc, pc.stage = .leave ∨ pc.stage = .free →
            Telling c.toCore (c.become i a (c.toCore, pc)).calls := by
          intro pc hstage'
          refine htell.quiet (r := (c.toCore, pc)) h ha hret (.refl _) ?_
            (hnone hearly (by decide) _)
          rcases hstage' with he | he
          · rw [he]
            exact hstage.2
          · rw [he]
            trivial
        cases a.job with
        | accept b =>
            simp only [stepCall]
            split
            · exact htell.establish h ha hret hstage rfl
            · exact hgo (.unlink .leave) (.inl rfl)
        | io b t e | app => exact hgo .returned (.inr rfl)
    | _ => exact absurd (by rw [hpc]; rfl) hquiet

theorem Told.tale_stepped (ht : Told c) (h : OneWorker c) (hplaced : WellPlaced c)
    (hrel : c.released = 0) (ha : c.calls[i]? = some a) :
    Tale (stepCall cfg ch c.toCore a.job a.pc).1.trace := by
  have htell := ht.telling hrel
  have hstage := htell.stage a (List.mem_of_getElem? ha)
  have hlog : Stage.open_.holds c.toCore → ∀ e, Tale (c.trace ++ [e]) := by
    intro hopen e
    refine ht.tale.snoc hopen.1 ?_ e
    rw [htell.counted, hopen.2.1]
    rfl
  by_cases hquiet : a.pc.talks = false
  · exact (stepCall_sameTalk a.job hquiet).tale ht.tale
  · cases hpc : a.pc with
    | testClosing =>
        simp only [stepCall]
        split
        · exact ht.tale
        · rename_i hb
          have hopen := ht.isOpen h hplaced hrel ha hpc (Bool.eq_false_iff.mpr hb)
          rcases dispatch_core cfg c.toCore a.job with he | he
          · rw [he]
            exact ht.tale
          · rw [he]
            exact hlog hopen _
    | notify =>
        rw [hpc] at hstage
        have hnotified : (c.toCore.notify (notification a.job)).trace = _ :=
          (notify_first hstage.2.1).2
        simp only [stepCall]
        rw [hnotified]
        exact hlog hstage _
    | close k => cases k <;> exact ht.tale
    | testCounters =>
        simp only [stepCall]
        split <;> exact ht.tale
    | release => exact ht.tale
    | call p =>
        rw [hpc] at hstage
        exact hlog hstage _
    | ioctl =>
        simp only [stepCall]
        repeat' split
        · exact ht.tale.append fun e he => List.mem_singleton.mp he ▸ ⟨rfl, rfl⟩
        · exact ht.tale
        · exact ht.tale
    | _ => exact absurd (by rw [hpc]; rfl) hquiet

theorem established_stepped (ch : Choice) (job : Job) (pc : Pc) (h : .established ∈ k.trace) :
    .established ∈ (stepCall cfg ch k job pc).1.trace := by
  rcases stepCall_trace cfg ch k job pc with he | ⟨e, he, -⟩
  · rwa [he]
  · rw [he]
    exact List.mem_append_left _ h

theorem Told.final_stepped (ht : Told c) (hrel : c.released = 0) (ha : c.calls[i]? = some a)
    (hrel' : 0 < (stepCall cfg ch c.toCore a.job a.pc).1.released) :
    (stepCall cfg ch c.toCore a.job a.pc).2 = .release ∧
      (.established ∈ (stepCall cfg ch c.toCore a.job a.pc).1.trace →
        notices (stepCall cfg ch c.toCore a.job a.pc).1.trace = 1) := by
  have htell := ht.telling hrel
  have hstage := htell.stage a (List.mem_of_getElem? ha)
  rcases stepCall_released cfg ch c.toCore a.job (hrel ▸ hrel') with hpc | ⟨hpc, hz⟩
  · rw [hpc] at hstage ⊢
    exact ⟨rfl, fun hest => absurd hest hstage.1⟩
  · rw [hpc] at hstage ⊢
    simp only [stepCall, if_pos hz]
    refine ⟨trivial, fun hest => ?_⟩
    rw [htell.counted, htell.closed hstage hest]
    rfl

/-- After the release the worker has its buffer to give back, and that is all. -/
theorem Told.rest (ht : Told c) (h : OneWorker c) (hrel : 0 < c.released)
    (ha : c.calls[i]? = some a) (hret : a.pc ≠ .returned) :
    (stepCall cfg ch c.toCore a.job a.pc).1.trace = c.trace ∧
      (stepCall cfg ch c.toCore a.job a.pc).1.inFlight = c.inFlight ∧
      (stepCall cfg ch c.toCore a.job a.pc).1.released = c.released ∧
      (stepCall cfg ch c.toCore a.job a.pc).1.ctx = .zeroed := by
  rcases h.gone hrel a (List.mem_of_getElem? ha) with hpc | hpc | hpc
  · rw [hpc]
    exact ⟨rfl, rfl, rfl, rfl⟩
  · rw [hpc]
    refine ⟨rfl, rfl, rfl, (ht.zeroed hrel).resolve_right ?_⟩
    rintro ⟨x, hx, hxr⟩
    obtain ⟨j, hj⟩ := List.mem_iff_getElem?.mp hx
    obtain ⟨n, hn⟩ := h.turn
    obtain rfl : j = i := (hn j x hj (by rw [hxr]; nofun)).trans (hn i a ha hret).symm
    obtain rfl : a = x := Option.some.inj (ha.symm.trans hj)
    rw [hpc] at hxr
    cases hxr
  · exact absurd hpc hret

theorem Told.stepped (ht : Told c) (h : OneWorker c) (hplaced : WellPlaced c)
    (ha : c.calls[i]? = some a) (hret : a.pc ≠ .returned)
    (hok : a.pc = .close .leave → .established ∉ c.trace) :
    Told (c.become i a (stepCall cfg ch c.toCore a.job a.pc)) := by
  have hkeep : .established ∈ c.trace →
      .established ∈ (stepCall cfg ch c.toCore a.job a.pc).1.trace :=
    established_stepped ch a.job a.pc
  have hjobs : ∀ x ∈ (c.become i a (stepCall cfg ch c.toCore a.job a.pc)).calls,
      x.job.isIo = true → .established ∈ (stepCall cfg ch c.toCore a.job a.pc).1.trace := by
    intro x hx hio
    rcases Conn.mem_become hx with hx | rfl
    · exact hkeep (ht.jobs x hx hio)
    · exact hkeep (ht.jobs a (List.mem_of_getElem? ha) hio)
  by_cases hrel : c.released = 0
  · refine ⟨fun hrel' => Telling.stepped h hplaced ht hrel ha hret hok hrel',
      fun hrel' => (ht.final_stepped hrel ha hrel').2, ht.tale_stepped h hplaced hrel ha, ?_, hjobs,
      fun hrel' => .inr ⟨_, mem_become_self ha _, (ht.final_stepped hrel ha hrel').1⟩⟩
    intro hne
    have hstage := (ht.telling hrel).stage a (List.mem_of_getElem? ha)
    rcases stepCall_posted cfg ch c.toCore a.job a.pc with ⟨hsame, -⟩ | ⟨s, addr, hpc, -⟩ |
      ⟨s, b, ts, hpc, -⟩
    · exact hkeep (ht.inFlight (hsame ▸ hne))
    · rw [hpc] at hstage
      exact hkeep hstage.1
    · rw [hpc] at hstage
      exact hkeep hstage.1
  · have hpos := Nat.pos_of_ne_zero hrel
    obtain ⟨htrace, hflight, hsame, hctx⟩ := ht.rest h hpos ha hret
    refine ⟨fun hrel' => absurd (hsame.symm.trans hrel') hrel, fun _ hest => ?_, ?_, fun hne => ?_,
      hjobs, fun _ => .inl hctx⟩
    · rw [Conn.become_toCore, htrace] at hest ⊢
      exact ht.final hpos hest
    · rw [Conn.become_toCore, htrace]
      exact ht.tale
    · exact hkeep (ht.inFlight (hflight ▸ hne))

theorem Told.step (ht : Told c) (h : OneWorker c) (hplaced : WellPlaced c) {act : Action}
    (hseq : Sequential c act) (hok : Announced c act) (hs : c.step cfg act = some d) :
    Told d := by
  cases act with
  | dequeue i data e =>
      obtain ⟨b, hb, -, rfl⟩ := Conn.dequeue_eq hs
      have hne : c.inFlight ≠ [] := List.ne_nil_of_mem (List.mem_of_getElem? hb)
      have hest := ht.inFlight hne
      have hrel : ¬ 0 < c.released := fun hrel => hne (h.life.gone hrel).1
      refine ⟨fun hrel' => ?_, fun hrel' => absurd hrel' hrel, ht.tale, fun _ => hest,
        fun _ _ _ => hest, fun hrel' => absurd hrel' hrel⟩
      obtain ⟨hcounted, hstage, hclosed, hpending⟩ := ht.telling hrel'
      refine ⟨hcounted, fun x hx => ?_, hclosed, fun hn => (hpending hn).imp_right ?_⟩
      · rcases List.mem_append.mp hx with hx | hx
        · exact hstage x hx
        · rw [List.mem_singleton.mp hx]
          trivial
      · rintro ⟨x, hx, htold⟩
        exact ⟨x, List.mem_append_left _ hx, htold⟩
  | step i ch =>
      obtain ⟨a, ha, hret, rfl⟩ := Conn.step_eq hs
      exact ht.stepped h hplaced ha hret (hok a ha)
  | sendText t | closeAConnection => exact hseq.elim

theorem Told.closeNotified (ht : Told c) : CloseNotified c where
  once := ht.tale.most
  released := ht.final
  never := fun hnone => Nat.eq_zero_of_not_pos fun hpos => hnone (ht.tale.known hpos)
  silent := ht.tale.silent
  recycled := by
    intro hrel hset s
    have hzero : c.ctx = .zeroed := by
      refine (ht.zeroed hrel).resolve_right ?_
      rintro ⟨a, ha, hpc⟩
      rw [hset a ha] at hpc
      cases hpc
    rw [hzero]
    rfl

end

/-- Every run of one worker on which nobody closes an established connection without a word. -/
theorem close_notified {cfg : Config} {sock : SOCKET} {b : CIOCPBuffer} {c : Conn}
    (hrun : Via (Conn.step cfg) (fun c act => Sequential c act ∧ Announced c act)
      (Conn.init sock b) c) : CloseNotified c := by
  have hall : OneWorker c ∧ WellPlaced c ∧ Told c := by
    refine hrun.invariant (P := fun c => OneWorker c ∧ WellPlaced c ∧ Told c)
      ⟨.init sock b, .init sock b, .init sock b⟩ ?_
    intro t act u ht hok hs
    exact ⟨ht.1.step hok.1 hs, ht.2.1.step hs, ht.2.2.step ht.1 ht.2.1 hok.1 hok.2 hs⟩
  exact hall.2.2.closeNotified

/-- The first read brings zero bytes; the echo and the other read find the socket closed. -/
def peerCloses : List Action :=
  smooth 0 16 100 ++ [.dequeue 1 [] noError] ++ smooth 1 7 0 ++
  [.dequeue 0 [104, 105] noError] ++ smooth 2 4 0 ++ [.dequeue 0 [] noError] ++ smooth 3 5 0

theorem close_notified_peerCloses :
    ∃ c, Via (Conn.step twoReads) (fun c act => Sequential c act ∧ Announced c act)
        (Conn.init 7 firstData) c ∧
      c.released = 1 ∧ .established ∈ c.trace ∧ CloseNotified c := by
  have hexec : ∃ c, Via (Conn.step twoReads) (fun c act => Sequential c act ∧ Announced c act)
      (Conn.init 7 firstData) c ∧ c.released = 1 ∧ .established ∈ c.trace :=
    exists_via_of_execIf peerCloses (by decide +kernel)
  obtain ⟨c, hrun, hrel, hest⟩ := hexec
  exact ⟨c, hrun, hrel, hest, close_notified hrun⟩

/-- The read that follows the data is refused: the context is released without a word. -/
theorem not_close_notified :
    ¬ ∀ (cfg : Config) (sock : SOCKET) (b : CIOCPBuffer) (c : Conn),
      Via (Conn.step cfg) Sequential (Conn.init sock b) c → CloseNotified c := by
  intro h
  have hexec : ∃ c, Via (Conn.step twoReads) Sequential (Conn.init 7 firstData) c ∧
      0 < c.released ∧ .established ∈ c.trace ∧ notices c.trace = 0 :=
    exists_via_of_execIf repostRefused (by decide +kernel)
  obtain ⟨c, hrun, hrel, hest, hnone⟩ := hexec
  have hone := (h twoReads 7 firstData c hrun).released hrel hest
  rw [hnone] at hone
  cases hone

end CppWorkspace.CIOCPServer
