/-
# `CppWorkspace.IocpEchoServer` — the completion port server with one buffer for all

All connections share the global `buffer`: every `WSARecv` lets the system write into it,
every `WSASend` lets the system read from it, an accept and an echo clear it.

    accepted d           the loop of `main`, for the new connection `d`
    completed d n        `WorkerThread`, for a packet of `d` with `dwIoSize = n`
    arrive d len bytes   the system: a read of `d` is filled, and its packet is queued
    take d i k           the system: `k` more bytes are taken of the `i`-th send of `d`
    sent d i             the system: all were taken, and the packet is queued
    fail d op            the system: an operation ends with nothing, as at a disconnect

Thread `0` is `main`, thread `1` stands for the system, the others are workers.  One
command is atomic, packets come in any order, and the bytes of a send are taken when the
system likes.

`unanswered` are the connections whose bytes lie in `buffer`: they have arrived and were
not taken for the echo.  The server is right if nobody else writes to `buffer` as long as
there is one, and if the length that `strlen` finds is that of the bytes (`echo_isolated`).

Left out: `Overlapped`, what a `delete` frees, and `IO_DATA` after it.
-/
import Mathlib.Algebra.Group.Pi.Basic
import Mathlib.Algebra.Order.Group.Multiset
import Mathlib.Data.List.Induction
import CppWorkspace.Lib.Programs

namespace CppWorkspace.IocpEchoServer

open Programs Runs

/-- The operation that the overlapped record is marked with. -/
inductive IO_OPERATION where
  | IO_READ
  | IO_WRITE
deriving DecidableEq, Repr

/-- `wsabuf.buf` is `buffer`, and `client` the connection. -/
structure IO_DATA where
  len : Nat
  nBytes : Nat
  opCode : IO_OPERATION
deriving DecidableEq, Repr

/-- The steps of `main` and of the workers. -/
inductive Cmd where
  /-- `CreateIoCompletionPort` for the connection. -/
  | bind (d : Nat)
  | opCode (d : Nat)
  | setOpCode (d : Nat) (op : IO_OPERATION)
  | setLen (d n : Nat)
  | setNBytes (d n : Nat)
  /-- `strlen(buffer)`. -/
  | strlen
  /-- `memset(buffer, NULL, sizeof(buffer))`. -/
  | memset
  | wsaRecv (d : Nat)
  | wsaSend (d : Nat)
  | closesocket (d : Nat)
  | delete (d : Nat)
  /-- `cout << wsabuf.buf`. -/
  | print
deriving DecidableEq, Repr

/-- What a command replies: `true` stands for success. -/
abbrev Cmd.Reply : Cmd → Type
  | .bind _ => Bool
  | .opCode _ => IO_OPERATION
  | .strlen => Nat
  | .wsaRecv _ => Bool
  | .wsaSend _ => Bool
  | _ => Unit

abbrev Program (α : Type) := Prog Cmd Cmd.Reply α

abbrev perform (c : Cmd) : Program c.Reply := Prog.perform c

/-! ## The threads -/

def WorkerThread (d dwIoSize : Nat) : Program Unit := do
  if dwIoSize = 0 then
    perform (.closesocket d)
    perform (.delete d)
  else
    match ← perform (.opCode d) with
    | .IO_READ =>
        let len ← perform .strlen
        perform (.setLen d (len + 1))
        perform (.setOpCode d .IO_WRITE)
        let n ← perform .strlen
        perform (.setNBytes d (n + 1))
        -- the third is for `nBytes`, which `WSASend` overwrites
        let _ ← perform .strlen
        if ← perform (.wsaSend d) then
          perform .memset
        else
          perform (.closesocket d)
          perform (.delete d)
    | .IO_WRITE =>
        perform (.setOpCode d .IO_READ)
        perform (.setLen d 1024)
        perform (.setNBytes d 1024)
        if ← perform (.wsaRecv d) then
          perform .print
        else
          perform (.closesocket d)
          perform (.delete d)

/-- The loop of `main`. -/
def accepted (d : Nat) : Program Unit := do
  if ← perform (.bind d) then
    perform .memset
    perform (.setOpCode d .IO_READ)
    perform (.setNBytes d 0)
    perform (.setLen d 1024)
    if ← perform (.wsaRecv d) then
      perform .print
    else
      perform (.closesocket d)
      perform (.delete d)
      perform .print
  else
    perform (.closesocket d)

/-! ## State -/

/-- An operation of a connection, or the packet of one that has ended. -/
inductive Io where
  | read (len : Nat)
  /-- The `i`-th send. -/
  | send (i : Nat)
  | packet (dwIoSize : Nat)
deriving DecidableEq, Repr

def Io.pending : Io → Bool
  | .packet _ => false
  | _ => true

/-- A `WSASend` that was posted: its length, the bytes taken so far, and how many reads of
the connection had completed before. -/
structure Send where
  len : Nat
  taken : List UInt8
  reads : Nat
deriving DecidableEq, Repr

/-- A connection, with its record and what has passed through it. -/
structure Connection where
  known : Bool
  data : IO_DATA
  io : Multiset Io
  arrived : List (List UInt8)
  sends : List Send

def Connection.new : Connection := ⟨false, ⟨0, 0, .IO_READ⟩, 0, [], []⟩

/-- The one buffer, and the connections. -/
structure Server where
  buffer : List UInt8
  conns : Nat → Connection
  unanswered : List Nat

def start : Server := ⟨List.replicate 1024 0, fun _ => .new, []⟩

namespace Server

def set (σ : Server) (d : Nat) (c : Connection) : Server :=
  { σ with conns := Function.update σ.conns d c }

/-- The bytes of `d` are taken, or will never be. -/
def answer (σ : Server) (d : Nat) : Server := { σ with unanswered := σ.unanswered.erase d }

/-- `buffer` and what lies behind it, up to a NUL. -/
def memory (beyond : List UInt8) (σ : Server) : List UInt8 := σ.buffer ++ (beyond ++ [0])

end Server

/-- `WSASend` is accepted. -/
def Connection.post (c : Connection) : Connection where
  known := c.known
  data := c.data
  io := .send c.sends.length ::ₘ c.io
  arrived := c.arrived
  sends := c.sends ++ [⟨c.data.len, [], c.arrived.length⟩]

/-! ## The system -/

/-- What the threads wait for, and what the clients do. -/
inductive Event where
  | accepted (d : Nat)
  | completed (d dwIoSize : Nat)
  | arrive (d len : Nat) (bytes : List UInt8)
  | take (d i k : Nat)
  | sent (d i : Nat)
  | fail (d : Nat) (op : Io)
deriving DecidableEq, Repr

section
variable (beyond : List UInt8)

/-- What a command does; `ok` is chosen for those that may fail. -/
def exec (_ : Nat) (_ : Event) : (cmd : Cmd) → Server → Bool → Option (Server × cmd.Reply)
  | .bind _, σ, ok => some (σ, ok)
  | .opCode d, σ, _ => some (σ, (σ.conns d).data.opCode)
  | .setOpCode d op, σ, _ =>
      let c := σ.conns d
      some (σ.set d { c with data := { c.data with opCode := op } }, ())
  | .setLen d n, σ, _ =>
      let c := σ.conns d
      some (σ.set d { c with data := { c.data with len := n } }, ())
  | .setNBytes d n, σ, _ =>
      let c := σ.conns d
      some (σ.set d { c with data := { c.data with nBytes := n } }, ())
  | .strlen, σ, _ => some (σ, (σ.memory beyond).idxOf 0)
  | .memset, σ, _ => some ({ σ with buffer := List.replicate 1024 0 }, ())
  | .wsaRecv d, σ, ok =>
      let c := σ.conns d
      some (if ok then σ.set d { c with io := .read c.data.len ::ₘ c.io } else σ, ok)
  | .wsaSend d, σ, ok =>
      some (if ok then σ.set d (σ.conns d).post else σ.answer d, ok)
  | .closesocket _, σ, _ => some (σ, ())
  | .delete _, σ, _ => some (σ, ())
  | .print, σ, _ => some (σ, ())

/-- `k` more bytes of a send. -/
def Server.take (σ : Server) (d i k : Nat) (s : Send) : Server :=
  let bytes := ((σ.memory beyond).drop s.taken.length).take k
  let c := σ.conns d
  let τ := σ.set d { c with sends := c.sends.set i { s with taken := s.taken ++ bytes } }
  if s.taken.length + k = s.len then τ.answer d else τ

/-- How the threads and the system begin. -/
def spawn (t : Nat) (e : Event) (σ : Server) : Option (Server × Program Unit) :=
  match e with
  | .accepted d =>
      let c := σ.conns d
      if t = 0 ∧ c.known = false then some (σ.set d { c with known := true }, accepted d)
      else none
  | .completed d n =>
      let c := σ.conns d
      if 2 ≤ t ∧ .packet n ∈ c.io then
        some (σ.set d { c with io := c.io.erase (.packet n) }, WorkerThread d n)
      else none
  | .arrive d len bytes =>
      let c := σ.conns d
      if t = 1 ∧ .read len ∈ c.io ∧ bytes ≠ [] ∧ bytes.length ≤ len then
        some ({ buffer := bytes ++ σ.buffer.drop bytes.length
                conns := Function.update σ.conns d { c with
                  io := .packet bytes.length ::ₘ c.io.erase (.read len)
                  arrived := c.arrived ++ [bytes] }
                unanswered := d :: σ.unanswered }, pure ())
      else none
  | .take d i k =>
      if t = 1 ∧ .send i ∈ (σ.conns d).io then
        (((σ.conns d).sends[i]?).filter fun s => s.taken.length + k ≤ s.len).map fun s =>
          (σ.take beyond d i k s, pure ())
      else none
  | .sent d i =>
      let c := σ.conns d
      if t = 1 ∧ .send i ∈ c.io then
        ((c.sends[i]?).filter fun s => s.taken.length = s.len).map fun s =>
          (σ.set d { c with io := .packet s.len ::ₘ c.io.erase (.send i) }, pure ())
      else none
  | .fail d op =>
      let c := σ.conns d
      if t = 1 ∧ op ∈ c.io ∧ op.pending = true then
        some ((σ.set d { c with io := .packet 0 ::ₘ c.io.erase op }).answer d, pure ())
      else none

def system : System Server Cmd Cmd.Reply Bool Event Unit where
  exec := exec beyond
  spawn := spawn beyond

end

abbrev Machine := Programs.Machine Server Cmd Cmd.Reply Event Unit

/-- `main`, the system and the workers. -/
def idle (workers : Nat) : Machine := ⟨start, List.replicate (workers + 2) none⟩

/-- The first NUL is the last byte. -/
def Terminated (bytes : List UInt8) : Prop := bytes.idxOf 0 + 1 = bytes.length

/-- `buffer` is written when no bytes in it are to be echoed, and by whole texts. -/
def Orderly (m : Machine) : Act Bool Event → Prop
  | .run t _ => m.next t = some .memset → m.shared.unanswered = []
  | .begin _ (.arrive _ _ bytes) => m.shared.unanswered = [] ∧ Terminated bytes
  | _ => True

instance : DecidablePred Terminated := fun _ => inferInstanceAs (Decidable (_ = _))

instance (m : Machine) : (a : Act Bool Event) → Decidable (Orderly m a)
  | .run _ _ => inferInstanceAs (Decidable (_ → _))
  | .begin _ (.arrive _ _ _) => inferInstanceAs (Decidable (_ ∧ _))
  | .begin _ (.accepted _) | .begin _ (.completed _ _) | .begin _ (.take _ _ _)
  | .begin _ (.sent _ _) | .begin _ (.fail _ _) | .finish _ => inferInstanceAs (Decidable True)

/-- A send carries the last read that had completed when it was posted. -/
def Connection.Carries (c : Connection) (s : Send) : Prop :=
  ∃ bytes, (c.arrived.take s.reads).getLast? = some bytes ∧ s.len = bytes.length
    ∧ s.taken <+: bytes

/-- The bytes that were sent to the client. -/
def Connection.echoed (c : Connection) : List UInt8 := (c.sends.map Send.taken).flatten

/-! ## The stages of a connection -/

/-- The sends that answer the reads `chunks`. -/
def answers (chunks : List (List UInt8)) : List Send :=
  chunks.mapIdx fun i bytes => ⟨bytes.length, bytes, i + 1⟩

@[simp] theorem length_answers (chunks : List (List UInt8)) :
    (answers chunks).length = chunks.length := List.length_mapIdx

theorem answers_concat (chunks : List (List UInt8)) (bytes : List UInt8) :
    answers (chunks ++ [bytes])
      = answers chunks ++ [⟨bytes.length, bytes, chunks.length + 1⟩] := List.mapIdx_concat

theorem map_taken_answers (chunks : List (List UInt8)) :
    (answers chunks).map Send.taken = chunks := by
  induction chunks using List.reverseRecOn with
  | nil => rfl
  | append_singleton chunks bytes ih =>
      rw [answers_concat, List.map_append, ih]
      rfl

namespace Connection

/-- All sends are answers, the last perhaps in part, and no read is passed over. -/
inductive Echo (c : Connection) : Prop
  | whole (chunks : List (List UInt8)) (ha : chunks <+: c.arrived) (hs : c.sends = answers chunks)
  | part (chunks : List (List UInt8)) (bytes : List UInt8) (k : Nat)
      (ha : chunks ++ [bytes] <+: c.arrived)
      (hs : c.sends = answers chunks ++ [⟨bytes.length, bytes.take k, chunks.length + 1⟩])

/-- Each read was answered. -/
structure Settled (c : Connection) : Prop where
  known : c.known = true
  sends : c.sends = answers c.arrived

/-- The last read was not answered; its bytes are in the buffer. -/
structure Waiting (c : Connection) (owed : Prop) (buffer bytes : List UInt8) : Prop where
  known : c.known = true
  owed : owed
  text : Terminated bytes
  buffer : bytes <+: buffer
  last : ∃ chunks, c.arrived = chunks ++ [bytes] ∧ c.sends = answers chunks

/-- A send is outstanding: how far it has come. -/
structure Sending (c : Connection) (owed : Prop) (buffer : List UInt8)
    (chunks : List (List UInt8)) (bytes : List UInt8) (k : Nat) : Prop where
  known : c.known = true
  arrived : c.arrived = chunks ++ [bytes]
  sends : c.sends = answers chunks ++ [⟨bytes.length, bytes.take k, chunks.length + 1⟩]
  io : c.io = {.send chunks.length}
  op : c.data.opCode = .IO_WRITE
  le : k ≤ bytes.length
  pos : 0 < bytes.length
  there : k < bytes.length → owed ∧ bytes <+: buffer

end Connection

/-- Where a connection is that no thread has in hand; `owed` says that its bytes are in
the buffer. -/
inductive Connection.Rest (c : Connection) (owed : Prop) (buffer : List UInt8) : Prop
  | new (h : c = .new)
  | reading (len : Nat) (hs : c.Settled) (hio : c.io = {.read len})
      (hop : c.data.opCode = .IO_READ)
  | arrived (bytes : List UInt8) (hw : c.Waiting owed buffer bytes)
      (hio : c.io = {.packet bytes.length}) (hop : c.data.opCode = .IO_READ)
  | sending (chunks : List (List UInt8)) (bytes : List UInt8) (k : Nat)
      (hs : c.Sending owed buffer chunks bytes k)
  | sent (n : Nat) (hs : c.Settled) (hio : c.io = {.packet n}) (hn : n ≠ 0)
      (hop : c.data.opCode = .IO_WRITE)
  | failed (hk : c.known = true) (he : c.Echo) (hio : c.io = {.packet 0})
  | gone (hk : c.known = true) (he : c.Echo) (hio : c.io = 0)

/-- What a thread knows of the connection in its hands. -/
inductive Phase where
  /-- All was answered; the next operation, if it is known. -/
  | settled (op : Option IO_OPERATION)
  /-- A read has completed. -/
  | got
  /-- `strlen` has replied. -/
  | measured (n : Nat)
  | sized
  | posting
deriving DecidableEq

def Phase.Holds (c : Connection) (owed : Prop) (buffer : List UInt8) : Phase → Prop
  | .settled op => c.Settled ∧ ∀ o, op = some o → c.data.opCode = o
  | .got => (∃ bytes, c.Waiting owed buffer bytes) ∧ c.data.opCode = .IO_READ
  | .measured n => ∃ bytes, c.Waiting owed buffer bytes ∧ n + 1 = bytes.length
  | .sized => ∃ bytes, c.Waiting owed buffer bytes ∧ c.data.len = bytes.length
  | .posting => (∃ bytes, c.Waiting owed buffer bytes ∧ c.data.len = bytes.length)
      ∧ c.data.opCode = .IO_WRITE

/-- A connection rests, or is in the hands of one thread. -/
inductive Connection.Stage (c : Connection) (owed : Prop) (buffer : List UInt8)
    (H : Multiset Phase) : Prop
  | rest (hH : H = 0) (h : c.Rest owed buffer)
  | hand (p : Phase) (hH : H = {p}) (hio : c.io = 0) (hp : p.Holds c owed buffer)

/-- The stages of all connections. -/
def Server.Staged (σ : Server) (R : Nat → Multiset Phase) : Prop :=
  ∀ d, (σ.conns d).Stage (d ∈ σ.unanswered) σ.buffer (R d)

/-- The buffer is written only when nothing in it is to be echoed. -/
def stages (beyond : List UInt8) :
    Logic Server Cmd Cmd.Reply Bool Event Unit (Nat → Multiset Phase) where
  toSystem := system beyond
  Inv := Server.Staged
  Pre _ _ _ _ _ := True
  ok _ _ cmd σ _ _ := cmd = .memset → σ.unanswered = []

namespace Connection

section
variable {c : Connection} {owed owed' : Prop} {buffer buffer' bytes : List UInt8}
  {H : Multiset Phase}

theorem Waiting.mono (h : c.Waiting owed buffer bytes)
    (hkeep : owed → owed' ∧ buffer' = buffer) : c.Waiting owed' buffer' bytes := by
  obtain ⟨howed, rfl⟩ := hkeep h.owed
  exact ⟨h.known, howed, h.text, h.buffer, h.last⟩

theorem Sending.mono {chunks : List (List UInt8)} {k : Nat}
    (h : c.Sending owed buffer chunks bytes k) (hkeep : owed → owed' ∧ buffer' = buffer) :
    c.Sending owed' buffer' chunks bytes k := by
  refine { h with there := fun hlt => ?_ }
  obtain ⟨howed, hbuffer⟩ := h.there hlt
  obtain ⟨howed', rfl⟩ := hkeep howed
  exact ⟨howed', hbuffer⟩

theorem Sending.get {chunks : List (List UInt8)} {k : Nat}
    (h : c.Sending owed buffer chunks bytes k) :
    c.sends[chunks.length]? = some ⟨bytes.length, bytes.take k, chunks.length + 1⟩ := by
  have hlast : (answers chunks ++ [(⟨bytes.length, bytes.take k, chunks.length + 1⟩ : Send)])[
      (answers chunks).length]? = some ⟨bytes.length, bytes.take k, chunks.length + 1⟩ :=
    List.getElem?_concat_length
  rwa [length_answers, ← h.sends] at hlast

theorem Waiting.setData (h : c.Waiting owed buffer bytes) (x : IO_DATA) :
    ({ c with data := x } : Connection).Waiting owed buffer bytes :=
  ⟨h.known, h.owed, h.text, h.buffer, h.last⟩

theorem Settled.setData (h : c.Settled) (x : IO_DATA) :
    ({ c with data := x } : Connection).Settled := ⟨h.known, h.sends⟩

theorem Echo.setIo (h : c.Echo) (io : Multiset Io) : ({ c with io := io } : Connection).Echo := by
  cases h with
  | whole chunks ha hs => exact .whole chunks ha hs
  | part chunks bytes k ha hs => exact .part chunks bytes k ha hs

/-- What is in the buffer matters to a connection as long as its bytes are there. -/
theorem Rest.mono (h : c.Rest owed buffer) (hkeep : owed → owed' ∧ buffer' = buffer) :
    c.Rest owed' buffer' := by
  cases h with
  | new h => exact .new h
  | reading len hs hio hop => exact .reading len hs hio hop
  | arrived bytes hw hio hop => exact .arrived bytes (hw.mono hkeep) hio hop
  | sending chunks bytes k hs => exact .sending chunks bytes k (hs.mono hkeep)
  | sent n hs hio hn hop => exact .sent n hs hio hn hop
  | failed hk he hio => exact .failed hk he hio
  | gone hk he hio => exact .gone hk he hio

theorem holds_mono {p : Phase} (h : p.Holds c owed buffer)
    (hkeep : owed → owed' ∧ buffer' = buffer) : p.Holds c owed' buffer' := by
  cases p with
  | settled op => exact h
  | got => exact ⟨h.1.imp fun _ hw => hw.mono hkeep, h.2⟩
  | measured n => exact h.imp fun _ hw => ⟨hw.1.mono hkeep, hw.2⟩
  | sized => exact h.imp fun _ hw => ⟨hw.1.mono hkeep, hw.2⟩
  | posting => exact ⟨h.1.imp fun _ hw => ⟨hw.1.mono hkeep, hw.2⟩, h.2⟩

theorem Stage.mono (h : c.Stage owed buffer H) (hkeep : owed → owed' ∧ buffer' = buffer) :
    c.Stage owed' buffer' H := by
  cases h with
  | rest hH h => exact .rest hH (h.mono hkeep)
  | hand p hH hio hp => exact .hand p hH hio (holds_mono hp hkeep)

theorem Rest.of_read {len : Nat} (h : c.Rest owed buffer) (hmem : .read len ∈ c.io) :
    c.Settled ∧ c.io = {.read len} ∧ c.data.opCode = .IO_READ := by
  cases h with
  | new hnew =>
      rw [hnew] at hmem
      exact absurd hmem (Multiset.notMem_zero _)
  | reading n hs hio hop =>
      rw [hio, Multiset.mem_singleton] at hmem
      exact ⟨hs, hmem ▸ hio, hop⟩
  | arrived _ _ hio | sent _ _ hio | failed _ _ hio =>
      rw [hio, Multiset.mem_singleton] at hmem
      cases hmem
  | sending _ _ _ hs =>
      rw [hs.io, Multiset.mem_singleton] at hmem
      cases hmem
  | gone _ _ hio =>
      rw [hio] at hmem
      exact absurd hmem (Multiset.notMem_zero _)

theorem Rest.of_send {i : Nat} (h : c.Rest owed buffer) (hmem : .send i ∈ c.io) :
    ∃ chunks bytes k, c.Sending owed buffer chunks bytes k ∧ i = chunks.length := by
  cases h with
  | new hnew =>
      rw [hnew] at hmem
      exact absurd hmem (Multiset.notMem_zero _)
  | sending chunks bytes k hs =>
      refine ⟨chunks, bytes, k, hs, ?_⟩
      rw [hs.io, Multiset.mem_singleton, Io.send.injEq] at hmem
      exact hmem
  | reading _ _ hio | arrived _ _ hio | sent _ _ hio | failed _ _ hio =>
      rw [hio, Multiset.mem_singleton] at hmem
      cases hmem
  | gone _ _ hio =>
      rw [hio] at hmem
      exact absurd hmem (Multiset.notMem_zero _)

theorem Stage.unknown (h : c.Stage owed buffer H) (hk : c.known = false) : c = .new ∧ H = 0 := by
  have hno : c.known ≠ true := fun ht => Bool.false_ne_true (hk.symm.trans ht)
  cases h with
  | rest hH h =>
      refine ⟨?_, hH⟩
      cases h with
      | new h => exact h
      | reading _ hs | sent _ hs => exact absurd hs.known hno
      | arrived _ hw => exact absurd hw.known hno
      | sending _ _ _ hs => exact absurd hs.known hno
      | failed ht | gone ht => exact absurd ht hno
  | hand p _ _ hp =>
      cases p with
      | settled op => exact absurd hp.1.known hno
      | got =>
          obtain ⟨⟨bytes, hw⟩, -⟩ := hp
          exact absurd hw.known hno
      | measured n =>
          obtain ⟨bytes, hw, -⟩ := hp
          exact absurd hw.known hno
      | sized =>
          obtain ⟨bytes, hw, -⟩ := hp
          exact absurd hw.known hno
      | posting =>
          obtain ⟨⟨bytes, hw, -⟩, -⟩ := hp
          exact absurd hw.known hno

theorem Stage.own {p : Phase} (h : c.Stage owed buffer ({p} + H)) :
    H = 0 ∧ c.io = 0 ∧ p.Holds c owed buffer := by
  cases h with
  | rest hH =>
      have hcard := congrArg Multiset.card hH
      simp at hcard
  | hand q hH hio hp =>
      have hcard := congrArg Multiset.card hH
      rw [Multiset.card_add, Multiset.card_singleton, Multiset.card_singleton] at hcard
      obtain rfl := Multiset.card_eq_zero.mp (show H.card = 0 by omega)
      rw [add_zero, Multiset.singleton_inj] at hH
      exact ⟨rfl, hio, hH ▸ hp⟩

end

end Connection

/-- One connection has moved; of the others, those with bytes in the buffer keep them. -/
theorem Server.Staged.update {σ τ : Server} {d : Nat} {F : Nat → Multiset Phase}
    {H P : Multiset Phase} (h : σ.Staged (Pi.single d H + F))
    (hd : (τ.conns d).Stage (d ∈ τ.unanswered) τ.buffer (P + F d))
    (hconns : ∀ b, b ≠ d → τ.conns b = σ.conns b)
    (hkeep : ∀ b, b ≠ d → b ∈ σ.unanswered → b ∈ τ.unanswered ∧ τ.buffer = σ.buffer) :
    τ.Staged (Pi.single d P + F) := by
  intro b
  by_cases hbd : b = d
  · subst hbd
    rw [Pi.add_apply, Pi.single_eq_same]
    exact hd
  · have hb := h b
    rw [Pi.add_apply, Pi.single_eq_of_ne hbd] at hb ⊢
    rw [hconns b hbd]
    exact hb.mono (hkeep b hbd)

theorem Server.Staged.own {σ : Server} {d : Nat} {F : Nat → Multiset Phase} {p : Phase}
    (h : σ.Staged (Pi.single d {p} + F)) :
    F d = 0 ∧ (σ.conns d).io = 0 ∧ p.Holds (σ.conns d) (d ∈ σ.unanswered) σ.buffer := by
  have hd := h d
  rw [Pi.add_apply, Pi.single_eq_same] at hd
  exact hd.own

/-- The thread has posted an operation, and has the connection no more in hand. -/
theorem Server.Staged.posted {σ : Server} {d : Nat} {F : Nat → Multiset Phase} {p : Phase}
    {c : Connection} (h : σ.Staged (Pi.single d {p} + F))
    (hrest : c.Rest (d ∈ σ.unanswered) σ.buffer) : (σ.set d c).Staged (0 + F) := by
  obtain ⟨hF, -, -⟩ := h.own
  rw [← Pi.single_zero d]
  refine Server.Staged.update h ?_ (fun b hb => Function.update_of_ne hb _ _)
    fun b _ hb => ⟨hb, rfl⟩
  rw [hF, add_zero]
  refine .rest rfl ?_
  show Connection.Rest (Function.update σ.conns d c d) _ _
  rw [Function.update_self]
  exact hrest

/-! ## Commands -/

section
variable {beyond : List UInt8} {t : Nat} {e : Event} {d : Nat} {p q : Phase}

theorem does_conn {cmd : Cmd} {v : Bool → cmd.Reply} {f : Connection → Connection}
    (hexec : ∀ σ ok, exec beyond t e cmd σ ok = some (σ.set d (f (σ.conns d)), v ok))
    (hio : ∀ c, (f c).io = c.io)
    (hstep : ∀ c owed buffer, p.Holds c owed buffer → q.Holds (f c) owed buffer) :
    Does (stages beyond) t e cmd (Pi.single d {p}) fun _ r => r = Pi.single d {q} := by
  intro σ F hinv
  refine ⟨trivial, fun ok σ' w _ hrun => ?_⟩
  cases (hexec σ ok).symm.trans hrun
  refine ⟨Pi.single d {q}, ?_, rfl⟩
  obtain ⟨hF, hnone, hp⟩ := hinv.own
  refine Server.Staged.update hinv ?_ (fun b hb => Function.update_of_ne hb _ _)
    fun b _ hb => ⟨hb, rfl⟩
  rw [hF, add_zero]
  simp only [Server.set, Function.update_self]
  exact .hand q rfl ((hio _).trans hnone) (hstep _ _ _ hp)

theorem does_nothing {cmd : Cmd} {v : Bool → cmd.Reply} {R : Nat → Multiset Phase}
    (hexec : ∀ σ ok, exec beyond t e cmd σ ok = some (σ, v ok)) :
    Does (stages beyond) t e cmd R fun w r => (∃ ok, w = v ok) ∧ r = R := by
  intro σ F hinv
  refine ⟨trivial, fun ok σ' w _ hrun => ?_⟩
  cases (hexec σ ok).symm.trans hrun
  exact ⟨R, hinv, ⟨ok, rfl⟩, rfl⟩

/-- The buffer is cleared when nobody needs it. -/
theorem does_memset {R : Nat → Multiset Phase} :
    Does (stages beyond) t e .memset R fun _ r => r = R := by
  intro σ F hinv
  refine ⟨trivial, fun ok σ' w hok hrun => ⟨R, ?_, rfl⟩⟩
  cases hrun
  have hnone : σ.unanswered = [] := hok rfl
  intro b
  refine (hinv b).mono fun hb => ?_
  rw [hnone] at hb
  cases hb

theorem does_opCode {op : IO_OPERATION}
    (hop : ∀ c owed buffer, p.Holds c owed buffer → c.data.opCode = op) :
    Does (stages beyond) t e (.opCode d) (Pi.single d {p}) fun w r =>
      w = op ∧ r = Pi.single d {p} := by
  intro σ F hinv
  refine ⟨trivial, fun ok σ' w _ hrun => ?_⟩
  cases hrun
  obtain ⟨-, -, hp⟩ := hinv.own
  exact ⟨_, hinv, hop _ _ _ hp, rfl⟩

theorem does_measure :
    Does (stages beyond) t e .strlen (Pi.single d {.got}) fun n r =>
      r = Pi.single d {.measured n} := by
  intro σ F hinv
  refine ⟨trivial, fun ok σ' n _ hrun => ?_⟩
  cases hrun
  refine ⟨_, ?_, rfl⟩
  obtain ⟨hF, hio, ⟨bytes, hw⟩, hop⟩ := hinv.own
  refine Server.Staged.update hinv ?_ (fun _ _ => rfl) fun b _ hb => ⟨hb, rfl⟩
  rw [hF, add_zero]
  refine .hand _ rfl hio ⟨bytes, hw, ?_⟩
  obtain ⟨rest, hrest⟩ := hw.buffer
  have hmem : (0 : UInt8) ∈ bytes := by
    have htext : bytes.idxOf 0 + 1 = bytes.length := hw.text
    exact List.idxOf_lt_length_iff.mp (by omega)
  rw [Server.memory, ← hrest, List.append_assoc, List.idxOf_append_of_mem hmem]
  exact hw.text

/-- A `strlen` that only `nBytes` is for. -/
theorem does_strlen {R : Nat → Multiset Phase} :
    Does (stages beyond) t e .strlen R fun _ r => r = R := by
  intro σ F hinv
  refine ⟨trivial, fun ok σ' n _ hrun => ?_⟩
  cases hrun
  exact ⟨R, hinv, rfl⟩

theorem does_setLen {n : Nat} :
    Does (stages beyond) t e (.setLen d (n + 1)) (Pi.single d {.measured n}) fun _ r =>
      r = Pi.single d {.sized} :=
  does_conn (f := fun c => { c with data := { c.data with len := n + 1 } }) (fun _ _ => rfl)
    (fun _ => rfl) fun _ _ _ ⟨bytes, hw, hn⟩ => ⟨bytes, hw.setData _, hn⟩

theorem does_setOpCode_write :
    Does (stages beyond) t e (.setOpCode d .IO_WRITE) (Pi.single d {.sized}) fun _ r =>
      r = Pi.single d {.posting} :=
  does_conn (f := fun c => { c with data := { c.data with opCode := .IO_WRITE } })
    (fun _ _ => rfl) (fun _ => rfl)
    fun _ _ _ ⟨bytes, hw, hn⟩ => ⟨⟨bytes, hw.setData _, hn⟩, rfl⟩

theorem does_setOpCode_read {op : Option IO_OPERATION} :
    Does (stages beyond) t e (.setOpCode d .IO_READ) (Pi.single d {.settled op}) fun _ r =>
      r = Pi.single d {.settled (some .IO_READ)} :=
  does_conn (f := fun c => { c with data := { c.data with opCode := .IO_READ } })
    (fun _ _ => rfl) (fun _ => rfl)
    fun _ _ _ ⟨hs, _⟩ => ⟨hs.setData _, fun _ ho => Option.some.inj ho⟩

theorem does_setLen_settled {n : Nat} {op : Option IO_OPERATION} :
    Does (stages beyond) t e (.setLen d n) (Pi.single d {.settled op}) fun _ r =>
      r = Pi.single d {.settled op} :=
  does_conn (f := fun c => { c with data := { c.data with len := n } })
    (fun _ _ => rfl) (fun _ => rfl) fun _ _ _ ⟨hs, hop⟩ => ⟨hs.setData _, hop⟩

theorem does_setNBytes {n : Nat} (hp : p = .posting ∨ ∃ op, p = .settled op) :
    Does (stages beyond) t e (.setNBytes d n) (Pi.single d {p}) fun _ r =>
      r = Pi.single d {p} := by
  refine does_conn (f := fun c => { c with data := { c.data with nBytes := n } })
    (fun _ _ => rfl) (fun _ => rfl) fun c owed buffer h => ?_
  rcases hp with rfl | ⟨op, rfl⟩
  · obtain ⟨⟨bytes, hw, hn⟩, hop⟩ := h
    exact ⟨⟨bytes, hw.setData _, hn⟩, hop⟩
  · exact ⟨h.1.setData _, h.2⟩

/-- The next read; nobody has to know that it was posted. -/
theorem does_wsaRecv :
    Does (stages beyond) t e (.wsaRecv d) (Pi.single d {.settled (some .IO_READ)}) fun _ r =>
      r = 0 := by
  intro σ F hinv
  refine ⟨trivial, fun ok σ' w _ hrun => ⟨0, ?_, rfl⟩⟩
  obtain ⟨hF, hio, hs, hop⟩ := hinv.own
  cases ok with
  | true =>
      cases hrun
      refine hinv.posted (.reading (σ.conns d).data.len ⟨hs.known, hs.sends⟩ ?_ (hop _ rfl))
      rw [hio]
      rfl
  | false =>
      cases hrun
      rw [← Pi.single_zero d]
      refine Server.Staged.update hinv ?_ (fun _ _ => rfl) fun b _ hb => ⟨hb, rfl⟩
      rw [hF, add_zero]
      exact .rest rfl (.gone hs.known (.whole _ List.prefix_rfl hs.sends) hio)

/-- The echo: it is posted with the length of the bytes, and they lie in the buffer. -/
theorem does_wsaSend :
    Does (stages beyond) t e (.wsaSend d) (Pi.single d {.posting}) fun _ r => r = 0 := by
  intro σ F hinv
  refine ⟨trivial, fun ok σ' w _ hrun => ⟨0, ?_, rfl⟩⟩
  obtain ⟨hF, hio, ⟨bytes, hw, hlen⟩, hop⟩ := hinv.own
  obtain ⟨chunks, ha, hs⟩ := hw.last
  cases ok with
  | true =>
      cases hrun
      refine hinv.posted (.sending chunks bytes 0 ⟨hw.known, ha, ?_, ?_, hop, Nat.zero_le _, ?_,
        fun _ => ⟨hw.owed, hw.buffer⟩⟩)
      · show (σ.conns d).sends ++ _ = _
        rw [hs, hlen, ha, List.length_append, List.take_zero]
        rfl
      · show Io.send (σ.conns d).sends.length ::ₘ (σ.conns d).io = _
        rw [hio, hs, length_answers]
        rfl
      · exact hw.text ▸ Nat.succ_pos _
  | false =>
      cases hrun
      rw [← Pi.single_zero d]
      refine Server.Staged.update hinv ?_ (fun _ _ => rfl)
        fun b hb hmem => ⟨(List.mem_erase_of_ne hb).mpr hmem, rfl⟩
      rw [hF, add_zero]
      have hahead : chunks <+: (σ.conns d).arrived := by
        rw [ha]
        exact List.prefix_append _ _
      exact .rest rfl (.gone hw.known (.whole chunks hahead hs) hio)

theorem does_abandon {op : Option IO_OPERATION} :
    Does (stages beyond) t e (.closesocket d) (Pi.single d {.settled op}) fun _ r => r = 0 := by
  intro σ F hinv
  refine ⟨trivial, fun ok σ' w _ hrun => ⟨0, ?_, rfl⟩⟩
  cases hrun
  obtain ⟨hF, hio, hs, -⟩ := hinv.own
  rw [← Pi.single_zero d]
  refine Server.Staged.update hinv ?_ (fun _ _ => rfl) fun b _ hb => ⟨hb, rfl⟩
  rw [hF, add_zero]
  exact .rest rfl (.gone hs.known (.whole _ List.prefix_rfl hs.sends) hio)

/-! ## The programs -/

theorem wp_close {Q : Unit → (Nat → Multiset Phase) → Prop} {R : Nat → Multiset Phase}
    (hQ : Q () R) : wp (stages beyond) t e
      (do perform (.closesocket d); perform (.delete d)) Q R := by
  refine wp_call (does_nothing (v := fun _ => ()) fun _ _ => rfl) ?_
  rintro _ _ ⟨-, rfl⟩
  exact wp_perform (Does.mono (does_nothing (v := fun _ => ()) fun _ _ => rfl)
    fun _ _ ⟨_, hr⟩ => hr ▸ hQ)

theorem wp_WorkerThread_zero :
    wp (stages beyond) t e (WorkerThread d 0) (fun _ r => r = 0) 0 := wp_close rfl

theorem wp_WorkerThread_read {n : Nat} (hn : n ≠ 0) :
    wp (stages beyond) t e (WorkerThread d n) (fun _ r => r = 0) (Pi.single d {.got}) := by
  unfold WorkerThread
  rw [if_neg hn]
  refine wp_call (does_opCode fun _ _ _ h => h.2) ?_
  rintro _ _ ⟨rfl, rfl⟩
  refine wp_call does_measure ?_
  rintro len _ rfl
  refine wp_call does_setLen ?_
  rintro _ _ rfl
  refine wp_call does_setOpCode_write ?_
  rintro _ _ rfl
  refine wp_call does_strlen ?_
  rintro _ _ rfl
  refine wp_call (does_setNBytes (.inl rfl)) ?_
  rintro _ _ rfl
  refine wp_call does_strlen ?_
  rintro _ _ rfl
  refine wp_call does_wsaSend ?_
  rintro (ok : Bool) _ rfl
  cases ok with
  | true => exact wp_perform does_memset
  | false => exact wp_close rfl

theorem wp_WorkerThread_write {n : Nat} (hn : n ≠ 0) :
    wp (stages beyond) t e (WorkerThread d n) (fun _ r => r = 0)
      (Pi.single d {.settled (some .IO_WRITE)}) := by
  unfold WorkerThread
  rw [if_neg hn]
  refine wp_call (does_opCode fun _ _ _ h => h.2 _ rfl) ?_
  rintro _ _ ⟨rfl, rfl⟩
  refine wp_call does_setOpCode_read ?_
  rintro _ _ rfl
  refine wp_call does_setLen_settled ?_
  rintro _ _ rfl
  refine wp_call (does_setNBytes (.inr ⟨_, rfl⟩)) ?_
  rintro _ _ rfl
  refine wp_call does_wsaRecv ?_
  rintro (ok : Bool) _ rfl
  cases ok with
  | true => exact wp_perform (Does.mono (does_nothing (v := fun _ => ()) fun _ _ => rfl)
      fun _ _ hr => hr.2)
  | false => exact wp_close rfl

theorem wp_accepted :
    wp (stages beyond) t e (accepted d) (fun _ r => r = 0) (Pi.single d {.settled none}) := by
  refine wp_call (does_nothing (v := fun ok => ok) fun _ _ => rfl) ?_
  rintro (ok : Bool) _ ⟨-, rfl⟩
  cases ok with
  | false => exact wp_perform does_abandon
  | true =>
      refine wp_call does_memset ?_
      rintro _ _ rfl
      refine wp_call does_setOpCode_read ?_
      rintro _ _ rfl
      refine wp_call (does_setNBytes (.inr ⟨_, rfl⟩)) ?_
      rintro _ _ rfl
      refine wp_call does_setLen_settled ?_
      rintro _ _ rfl
      refine wp_call does_wsaRecv ?_
      rintro (ok : Bool) _ rfl
      have hprint : wp (stages beyond) t e (perform .print) (fun _ r => r = 0) 0 :=
        wp_perform (Does.mono (does_nothing (v := fun _ => ()) fun _ _ => rfl) fun _ _ hr => hr.2)
      cases ok with
      | true => exact hprint
      | false =>
          refine wp_call (does_nothing (v := fun _ => ()) fun _ _ => rfl) ?_
          rintro _ _ ⟨-, rfl⟩
          refine wp_call (does_nothing (v := fun _ => ()) fun _ _ => rfl) ?_
          rintro _ _ ⟨-, rfl⟩
          exact hprint

end

/-! ## The system -/

section
variable {beyond : List UInt8} {t d : Nat} {σ τ : Server} {p : Program Unit}
  {F : Nat → Multiset Phase}

/-- The connection of an operation or a packet is in nobody's hands. -/
theorem Server.Staged.rest (h : σ.Staged F) {op : Io} (hmem : op ∈ (σ.conns d).io) :
    F d = 0 ∧ (σ.conns d).Rest (d ∈ σ.unanswered) σ.buffer := by
  cases h d with
  | rest hH h => exact ⟨hH, h⟩
  | hand q _ hio =>
      rw [hio] at hmem
      exact absurd hmem (Multiset.notMem_zero op)

theorem Server.Staged.begin {P : Multiset Phase} (h : σ.Staged F)
    (hd : (τ.conns d).Stage (d ∈ τ.unanswered) τ.buffer (P + F d))
    (hconns : ∀ b, b ≠ d → τ.conns b = σ.conns b)
    (hkeep : ∀ b, b ≠ d → b ∈ σ.unanswered → b ∈ τ.unanswered ∧ τ.buffer = σ.buffer) :
    τ.Staged (Pi.single d P + F) :=
  Server.Staged.update (H := 0) (by rwa [Pi.single_zero, zero_add]) hd hconns hkeep

theorem Server.Staged.set {c : Connection} {P : Multiset Phase} (h : σ.Staged F)
    (hd : c.Stage (d ∈ σ.unanswered) σ.buffer (P + F d)) :
    (σ.set d c).Staged (Pi.single d P + F) := by
  refine h.begin ?_ (fun b hb => Function.update_of_ne hb _ _) fun b _ hb => ⟨hb, rfl⟩
  simpa only [Server.set, Function.update_self] using hd

theorem completed_staged {n : Nat} (h : σ.Staged F)
    (hspawn : spawn beyond t (.completed d n) σ = some (τ, p)) :
    ∃ r, τ.Staged (r + F) ∧ wp (stages beyond) t (.completed d n) p (fun _ r' => r' = 0) r := by
  obtain ⟨⟨-, hmem⟩, hspawn⟩ := Option.ite_none_right_eq_some.mp hspawn
  cases hspawn
  obtain ⟨hF, hrest⟩ := h.rest hmem
  -- the packet is all that there is of its connection
  have hnow : ∀ {q}, (σ.conns d).io = {.packet q} →
      n = q ∧ (σ.conns d).io.erase (.packet n) = 0 := by
    intro q hio
    rw [hio, Multiset.mem_singleton, Io.packet.injEq] at hmem
    subst hmem
    exact ⟨rfl, by rw [hio, Multiset.erase_singleton]⟩
  cases hrest with
  | new hnew =>
      rw [hnew] at hmem
      exact absurd hmem (Multiset.notMem_zero _)
  | reading _ _ hio =>
      rw [hio, Multiset.mem_singleton] at hmem
      cases hmem
  | sending _ _ _ hs =>
      rw [hs.io, Multiset.mem_singleton] at hmem
      cases hmem
  | gone _ _ hio =>
      rw [hio] at hmem
      exact absurd hmem (Multiset.notMem_zero _)
  | arrived bytes hw hio hop =>
      obtain ⟨rfl, herase⟩ := hnow hio
      refine ⟨Pi.single d {.got}, h.set ?_, wp_WorkerThread_read ?_⟩
      · rw [hF, add_zero]
        exact .hand .got rfl herase ⟨⟨bytes, hw.known, hw.owed, hw.text, hw.buffer, hw.last⟩, hop⟩
      · exact hw.text ▸ Nat.succ_ne_zero _
  | sent q hs hio hn hop =>
      obtain ⟨rfl, herase⟩ := hnow hio
      refine ⟨Pi.single d {.settled (some .IO_WRITE)}, h.set ?_, wp_WorkerThread_write hn⟩
      rw [hF, add_zero]
      exact .hand _ rfl herase ⟨⟨hs.known, hs.sends⟩, fun _ ho => Option.some.inj ho ▸ hop⟩
  | failed hk he hio =>
      obtain ⟨rfl, herase⟩ := hnow hio
      refine ⟨0, ?_, wp_WorkerThread_zero⟩
      rw [← Pi.single_zero d]
      refine h.set ?_
      rw [hF, add_zero]
      exact .rest rfl (.gone hk (he.setIo _) herase)

theorem accepted_staged (h : σ.Staged F)
    (hspawn : spawn beyond t (.accepted d) σ = some (τ, p)) :
    ∃ r, τ.Staged (r + F) ∧ wp (stages beyond) t (.accepted d) p (fun _ r' => r' = 0) r := by
  obtain ⟨⟨-, hk⟩, hspawn⟩ := Option.ite_none_right_eq_some.mp hspawn
  cases hspawn
  obtain ⟨hnew, hF⟩ := (h d).unknown hk
  refine ⟨Pi.single d {.settled none}, h.set ?_, wp_accepted⟩
  rw [hF, hnew, add_zero]
  exact .hand _ rfl rfl ⟨⟨rfl, rfl⟩, fun _ ho => by cases ho⟩

/-- Bytes arrive when there are none in the buffer that are to be echoed. -/
theorem arrive_staged {len : Nat} {bytes : List UInt8} (h : σ.Staged F)
    (hnone : σ.unanswered = []) (htext : Terminated bytes)
    (hspawn : spawn beyond t (.arrive d len bytes) σ = some (τ, p)) :
    ∃ r, τ.Staged (r + F) ∧
      wp (stages beyond) t (.arrive d len bytes) p (fun _ r' => r' = 0) r := by
  obtain ⟨⟨-, hmem, -⟩, hspawn⟩ := Option.ite_none_right_eq_some.mp hspawn
  cases hspawn
  refine ⟨0, ?_, wp_ret rfl⟩
  obtain ⟨hF, hrest⟩ := h.rest hmem
  rw [← Pi.single_zero d]
  refine h.begin ?_ (fun b hb => Function.update_of_ne hb _ _) fun b _ hb => ?_
  · rw [hF, add_zero]
    simp only [Function.update_self]
    obtain ⟨hs, hio, hop⟩ := hrest.of_read hmem
    refine .rest rfl (.arrived bytes ⟨hs.known, List.mem_cons_self, htext, List.prefix_append _ _,
      (σ.conns d).arrived, rfl, hs.sends⟩ ?_ hop)
    show Io.packet bytes.length ::ₘ (σ.conns d).io.erase (.read len) = _
    rw [hio, Multiset.erase_singleton]
    rfl
  · rw [hnone] at hb
    cases hb

theorem take_memory {bytes memory : List UInt8} {j k : Nat} (h : j + k ≤ bytes.length)
    (hahead : 0 < k → bytes <+: memory) :
    bytes.take j ++ (memory.drop (bytes.take j).length).take k = bytes.take (j + k) := by
  rcases Nat.eq_zero_or_pos k with rfl | hpos
  · rw [List.take_zero, List.append_nil, Nat.add_zero]
  · obtain ⟨rest, rfl⟩ := hahead hpos
    have hj : j ≤ bytes.length := Nat.le_trans (Nat.le_add_right j k) h
    rw [List.length_take_of_le hj, List.drop_append_of_le_length hj,
      List.take_append_of_le_length (by rw [List.length_drop]; omega), List.take_add]

theorem take_buffer {i k : Nat} {s : Send} : (σ.take beyond d i k s).buffer = σ.buffer := by
  simp only [Server.take]
  split <;> rfl

theorem take_conns {i k : Nat} {s : Send} :
    (σ.take beyond d i k s).conns = Function.update σ.conns d { σ.conns d with
      sends := (σ.conns d).sends.set i { s with
        taken := s.taken ++ ((σ.memory beyond).drop s.taken.length).take k } } := by
  simp only [Server.take]
  split <;> rfl

theorem take_unanswered {b i k : Nat} {s : Send} (h : b ≠ d ∨ s.taken.length + k ≠ s.len)
    (hb : b ∈ σ.unanswered) : b ∈ (σ.take beyond d i k s).unanswered := by
  simp only [Server.take]
  split
  · rename_i hall
    exact (List.mem_erase_of_ne (h.resolve_right (not_not_intro hall))).mpr hb
  · exact hb

/-- The system takes bytes: they are in the buffer, as long as there are some to take. -/
theorem take_staged {i k : Nat} (h : σ.Staged F)
    (hspawn : spawn beyond t (.take d i k) σ = some (τ, p)) :
    ∃ r, τ.Staged (r + F) ∧ wp (stages beyond) t (.take d i k) p (fun _ r' => r' = 0) r := by
  obtain ⟨⟨-, hmem⟩, hspawn⟩ := Option.ite_none_right_eq_some.mp hspawn
  obtain ⟨s, hs, hspawn⟩ := Option.map_eq_some_iff.mp hspawn
  obtain ⟨hget, hle⟩ := Option.filter_eq_some_iff.mp hs
  cases hspawn
  refine ⟨0, ?_, wp_ret rfl⟩
  obtain ⟨hF, hrest⟩ := h.rest hmem
  obtain ⟨chunks, bytes, j, hsend, rfl⟩ := hrest.of_send hmem
  cases hget.symm.trans hsend.get
  have hlen : (bytes.take j).length = j := List.length_take_of_le hsend.le
  have hroom : j + k ≤ bytes.length := by
    simpa only [decide_eq_true_eq, hlen] using hle
  have htaken : bytes.take j ++ ((σ.memory beyond).drop (bytes.take j).length).take k
      = bytes.take (j + k) :=
    take_memory hroom fun hpos => (hsend.there (by omega)).2.trans (List.prefix_append _ _)
  -- the send, with these bytes
  have hnext : ∀ owed' : Prop, (j + k < bytes.length → owed') →
      Connection.Sending { σ.conns d with
        sends := (σ.conns d).sends.set chunks.length
          ⟨bytes.length, bytes.take (j + k), chunks.length + 1⟩ }
        owed' σ.buffer chunks bytes (j + k) := by
    intro owed' howed
    refine { hsend with sends := ?_, le := hroom, there := fun hlt => ?_ }
    · show (σ.conns d).sends.set _ _ = _
      rw [hsend.sends, List.set_append_right _ _ (length_answers chunks).le, length_answers,
        Nat.sub_self, List.set_cons_zero]
    · exact ⟨howed hlt, (hsend.there (by omega)).2⟩
  rw [← Pi.single_zero d]
  refine h.begin ?_ (fun b hb => ?_) fun b hb hmem' =>
    ⟨take_unanswered (.inl hb) hmem', take_buffer⟩
  · rw [hF, add_zero, take_buffer, take_conns, Function.update_self, htaken]
    refine .rest rfl (.sending chunks bytes (j + k) (hnext _ fun hlt => ?_))
    refine take_unanswered (.inr ?_) (hsend.there (by omega)).1
    show (bytes.take j).length + k ≠ bytes.length
    omega
  · rw [take_conns, Function.update_of_ne hb]

theorem sent_staged {i : Nat} (h : σ.Staged F)
    (hspawn : spawn beyond t (.sent d i) σ = some (τ, p)) :
    ∃ r, τ.Staged (r + F) ∧ wp (stages beyond) t (.sent d i) p (fun _ r' => r' = 0) r := by
  obtain ⟨⟨-, hmem⟩, hspawn⟩ := Option.ite_none_right_eq_some.mp hspawn
  obtain ⟨s, hs, hspawn⟩ := Option.map_eq_some_iff.mp hspawn
  obtain ⟨hget, hall⟩ := Option.filter_eq_some_iff.mp hs
  cases hspawn
  refine ⟨0, ?_, wp_ret rfl⟩
  obtain ⟨hF, hrest⟩ := h.rest hmem
  obtain ⟨chunks, bytes, j, hsend, rfl⟩ := hrest.of_send hmem
  cases hget.symm.trans hsend.get
  have hj : bytes.take j = bytes := by
    have hlen : (bytes.take j).length = bytes.length := by
      simpa only [decide_eq_true_eq] using hall
    exact List.take_eq_self_iff _ |>.mpr (by rw [List.length_take] at hlen; omega)
  rw [← Pi.single_zero d]
  refine h.set ?_
  rw [hF, add_zero]
  refine .rest rfl (.sent bytes.length ⟨hsend.known, ?_⟩ ?_ hsend.pos.ne' hsend.op)
  · show (σ.conns d).sends = answers (σ.conns d).arrived
    rw [hsend.sends, hsend.arrived, answers_concat, hj]
  · show Io.packet bytes.length ::ₘ (σ.conns d).io.erase _ = _
    rw [hsend.io, Multiset.erase_singleton]
    rfl

/-- An operation fails; what was sent stays. -/
theorem fail_staged {op : Io} (h : σ.Staged F)
    (hspawn : spawn beyond t (.fail d op) σ = some (τ, p)) :
    ∃ r, τ.Staged (r + F) ∧ wp (stages beyond) t (.fail d op) p (fun _ r' => r' = 0) r := by
  obtain ⟨⟨-, hmem, hpending⟩, hspawn⟩ := Option.ite_none_right_eq_some.mp hspawn
  cases hspawn
  refine ⟨0, ?_, wp_ret rfl⟩
  obtain ⟨hF, hrest⟩ := h.rest hmem
  have hecho : (σ.conns d).known = true ∧ (σ.conns d).Echo ∧ (σ.conns d).io = {op} := by
    cases op with
    | read len =>
        obtain ⟨hs, hio, -⟩ := hrest.of_read hmem
        exact ⟨hs.known, .whole _ List.prefix_rfl hs.sends, hio⟩
    | send i =>
        obtain ⟨chunks, bytes, k, hsend, rfl⟩ := hrest.of_send hmem
        exact ⟨hsend.known, .part chunks bytes k (hsend.arrived ▸ List.prefix_rfl) hsend.sends,
          hsend.io⟩
    | packet n => cases hpending
  obtain ⟨hk, he, hio⟩ := hecho
  rw [← Pi.single_zero d]
  refine h.begin ?_ (fun b hb => Function.update_of_ne hb _ _)
    fun b hb hmem' => ⟨(List.mem_erase_of_ne hb).mpr hmem', rfl⟩
  rw [hF, add_zero]
  refine .rest rfl ?_
  show Connection.Rest (Function.update σ.conns d _ d) _ _
  rw [Function.update_self]
  refine .failed hk (he.setIo _) ?_
  show Io.packet 0 ::ₘ (σ.conns d).io.erase op = _
  rw [hio, Multiset.erase_singleton]
  rfl

end

/-! ## Runs -/

theorem staged {beyond : List UInt8} {workers : Nat} {m : Machine}
    (h : Via (system beyond).step Orderly (idle workers) m) :
    ∃ rs, (stages beyond).Good m rs := by
  refine Logic.run (L := stages beyond) ?_ ?_
    ⟨_, (stages beyond).good_start fun _ => .rest rfl (.new rfl)⟩ h
  · rintro m rs - t x e c hcond - hnext rfl
    exact hcond hnext
  · intro m t e σ p F hcond hinv hspawn
    cases e with
    | accepted d => exact accepted_staged hinv hspawn
    | completed d n => exact completed_staged hinv hspawn
    | arrive d len bytes => exact arrive_staged hinv hcond.1 hcond.2 hspawn
    | take d i k => exact take_staged hinv hspawn
    | sent d i => exact sent_staged hinv hspawn
    | fail d op => exact fail_staged hinv hspawn

namespace Connection

variable {c : Connection}

theorem Stage.echo {owed : Prop} {buffer : List UInt8} {H : Multiset Phase}
    (h : c.Stage owed buffer H) : c.Echo := by
  have hsettled : c.Settled → c.Echo := fun hs => .whole _ List.prefix_rfl hs.sends
  have hwaiting : ∀ {bytes}, c.Waiting owed buffer bytes → c.Echo := fun hw => by
    obtain ⟨chunks, ha, hs⟩ := hw.last
    exact .whole chunks (ha ▸ List.prefix_append _ _) hs
  cases h with
  | rest _ h =>
      cases h with
      | new h => exact .whole [] List.nil_prefix (h ▸ rfl)
      | reading _ hs | sent _ hs => exact hsettled hs
      | arrived _ hw => exact hwaiting hw
      | sending chunks bytes k hs =>
          exact .part chunks bytes k (hs.arrived ▸ List.prefix_rfl) hs.sends
      | failed _ he | gone _ he => exact he
  | hand p _ _ hp =>
      cases p with
      | settled op => exact hsettled hp.1
      | got => exact hwaiting hp.1.choose_spec
      | measured n => exact hwaiting hp.choose_spec.1
      | sized => exact hwaiting hp.choose_spec.1
      | posting => exact hwaiting hp.1.choose_spec.1

/-- The send after `chunks` carries the read after them, as far as it has come. -/
theorem carries_next {chunks : List (List UInt8)} {bytes : List UInt8} {k : Nat}
    (ha : chunks ++ [bytes] <+: c.arrived) :
    c.Carries ⟨bytes.length, bytes.take k, chunks.length + 1⟩ := by
  obtain ⟨rest, hrest⟩ := ha
  refine ⟨bytes, ?_, rfl, List.take_prefix k bytes⟩
  have htake : c.arrived.take (chunks.length + 1) = chunks ++ [bytes] := by
    rw [← hrest]
    exact List.take_left' (by rw [List.length_append]; rfl)
  rw [htake, List.getLast?_concat]

theorem carries_answer {chunks : List (List UInt8)} {s : Send} (ha : chunks <+: c.arrived)
    (hs : s ∈ answers chunks) : c.Carries s := by
  induction chunks using List.reverseRecOn with
  | nil => cases hs
  | append_singleton chunks bytes ih =>
      rw [answers_concat, List.mem_append, List.mem_singleton] at hs
      rcases hs with hs | rfl
      · exact ih ((List.prefix_append _ _).trans ha) hs
      · have hnext := carries_next (k := bytes.length) ha
        rwa [List.take_length] at hnext

theorem Echo.carries (h : c.Echo) : ∀ s ∈ c.sends, c.Carries s := by
  cases h with
  | whole chunks ha hs => exact fun s hmem => carries_answer ha (hs ▸ hmem)
  | part chunks bytes k ha hs =>
      intro s hmem
      rw [hs, List.mem_append, List.mem_singleton] at hmem
      rcases hmem with hmem | rfl
      · exact carries_answer ((List.prefix_append _ _).trans ha) hmem
      · exact carries_next ha

theorem Echo.echoed (h : c.Echo) : c.echoed <+: c.arrived.flatten := by
  cases h with
  | whole chunks ha hs =>
      rw [Connection.echoed, hs, map_taken_answers]
      obtain ⟨rest, hrest⟩ := ha
      exact ⟨rest.flatten, by rw [← List.flatten_append, hrest]⟩
  | part chunks bytes k ha hs =>
      obtain ⟨rest, hrest⟩ := ha
      rw [Connection.echoed, hs, List.map_append, map_taken_answers, ← hrest]
      simp only [List.flatten_append, List.append_assoc, List.map_cons, List.map_nil,
        List.flatten_cons, List.flatten_nil, List.append_nil]
      exact (List.prefix_append_right_inj _).mpr
        ((List.take_prefix k bytes).trans (List.prefix_append _ _))

end Connection

/-- **Isolation of the echo.**  In orderly runs each send carries the last read of its
client; and in two of them, whatever lies behind the buffer, with any numbers of workers and
any other clients, a client that has sent the same, or more, is sent the same, up to some
byte. -/
theorem echo_isolated (beyond : List UInt8) (workers d : Nat) (m : Machine)
    (h : Via (system beyond).step Orderly (idle workers) m) :
    (∀ s ∈ (m.shared.conns d).sends, (m.shared.conns d).Carries s)
      ∧ ∀ (beyond' : List UInt8) (workers' : Nat) (m' : Machine),
        Via (system beyond').step Orderly (idle workers') m' →
        (m.shared.conns d).arrived <+: (m'.shared.conns d).arrived →
        (m.shared.conns d).echoed <+: (m'.shared.conns d).echoed
          ∨ (m'.shared.conns d).echoed <+: (m.shared.conns d).echoed := by
  obtain ⟨rs, hgood⟩ := staged h
  have hecho := (hgood.inv d).echo
  refine ⟨hecho.carries, fun beyond' workers' m' h' ⟨rest, hrest⟩ => ?_⟩
  obtain ⟨rs', hgood'⟩ := staged h'
  have hflatten : (m.shared.conns d).arrived.flatten <+: (m'.shared.conns d).arrived.flatten := by
    rw [← hrest, List.flatten_append]
    exact List.prefix_append _ _
  exact List.prefix_or_prefix_of_prefix (hecho.echoed.trans hflatten)
    (hgood'.inv d).echo.echoed

/-- One client is accepted. -/
def accepting (d : Nat) : List (Act Bool Event) :=
  [.begin 0 (.accepted d)] ++ List.replicate 7 (.run 0 true) ++ [.finish 0]

/-- A worker takes a packet of a read, and posts its echo. -/
def posting (d n : Nat) : List (Act Bool Event) :=
  [.begin 2 (.completed d n)] ++ List.replicate 8 (.run 2 true)

/-- The system does its part. -/
def kernel (e : Event) : List (Act Bool Event) := [.begin 1 e, .finish 1]

/-- A text is echoed, its bytes are taken in two parts, and the next read is posted. -/
theorem echo_isolated_echo :
    ∃ m, (Via (system []).step Orderly (idle 1) m
        ∧ (m.shared.conns 0).arrived = [[97, 0]] ∧ (m.shared.conns 0).echoed = [97, 0])
      ∧ (∀ s ∈ (m.shared.conns 0).sends, (m.shared.conns 0).Carries s)
      ∧ ∀ (beyond' : List UInt8) (workers' : Nat) (m' : Machine),
        Via (system beyond').step Orderly (idle workers') m' →
        (m.shared.conns 0).arrived <+: (m'.shared.conns 0).arrived →
        (m.shared.conns 0).echoed <+: (m'.shared.conns 0).echoed
          ∨ (m'.shared.conns 0).echoed <+: (m.shared.conns 0).echoed := by
  have hrun : ∃ m, Via (system []).step Orderly (idle 1) m
      ∧ (m.shared.conns 0).arrived = [[97, 0]] ∧ (m.shared.conns 0).echoed = [97, 0] :=
    exists_via_of_execIf (List.flatten [
      accepting 0, kernel (.arrive 0 1024 [97, 0]), posting 0 2, kernel (.take 0 0 1),
      kernel (.take 0 0 1), kernel (.sent 0 0),
      [.run 2 true, .finish 2, .begin 2 (.completed 0 2)], List.replicate 6 (.run 2 true),
      [.finish 2]]) (by decide +kernel)
  obtain ⟨m, hvia, hend⟩ := hrun
  exact ⟨m, ⟨hvia, hend⟩, echo_isolated [] 1 0 m hvia⟩

/-- A second client's text arrives before the first is echoed: the first is sent it. -/
theorem not_echo_isolated :
    ∃ m m', Via (system []).step (fun _ _ => True) (idle 1) m
      ∧ Via (system []).step (fun _ _ => True) (idle 1) m'
      ∧ (m.shared.conns 0).arrived = (m'.shared.conns 0).arrived
      ∧ (m.shared.conns 0).echoed = [97, 0] ∧ (m'.shared.conns 0).echoed = [98, 99, 0]
      ∧ ∃ s ∈ (m'.shared.conns 0).sends, ¬ (m'.shared.conns 0).Carries s := by
  have hrun : ∃ m, Via (system []).step (fun _ _ => True) (idle 1) m
      ∧ (m.shared.conns 0).arrived = [[97, 0]] ∧ (m.shared.conns 0).echoed = [97, 0] :=
    exists_via_of_execIf (List.flatten [
      accepting 0, accepting 1, kernel (.arrive 0 1024 [97, 0]), posting 0 2,
      kernel (.take 0 0 2)]) (by decide +kernel)
  have hrun' : ∃ m, Via (system []).step (fun _ _ => True) (idle 1) m
      ∧ (m.shared.conns 0).arrived = [[97, 0]] ∧ (m.shared.conns 0).echoed = [98, 99, 0]
      ∧ (⟨3, [98, 99, 0], 1⟩ : Send) ∈ (m.shared.conns 0).sends :=
    exists_via_of_execIf (List.flatten [
      accepting 0, accepting 1, kernel (.arrive 0 1024 [97, 0]),
      kernel (.arrive 1 1024 [98, 99, 0]), posting 0 2, kernel (.take 0 0 3)])
      (by decide +kernel)
  obtain ⟨m, hvia, ha, he⟩ := hrun
  obtain ⟨m', hvia', ha', he', hs⟩ := hrun'
  refine ⟨m, m', hvia, hvia', ha.trans ha'.symm, he, he', _, hs, ?_⟩
  rintro ⟨bytes, hlast, hlen, -⟩
  rw [ha'] at hlast
  cases hlast
  exact absurd hlen (by decide)

end CppWorkspace.IocpEchoServer
