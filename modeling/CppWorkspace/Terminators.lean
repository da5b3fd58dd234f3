/-
# `CppWorkspace.Terminators` — the zero behind received bytes

Four servers show what they have received as a C string.  Each gives a whole array to the
receive call, and stores the terminating zero behind the bytes that arrived:

    select_server           char buff[256]     recv of sizeof(buff)
    iocpdemo                char buf[1024]     WSARecv of BUFFER_SIZE
    the select model        char Buf[64]       recv of BUFFER_SIZE
    the overlapped model    char Buf[64]       WSARecv of BUFFER_SIZE, copied to Buf

So the zero is inside the array exactly if the bytes do not fill it (`inside_iff`).

An array is the list of its bytes; a store behind its end is the result `outside`, and what
it overwrites is not described.
-/
import Mathlib.Logic.Basic
import Mathlib.Tactic.ByContra

namespace CppWorkspace.Terminators

abbrev Bytes := List UInt8

/-- What a receive call or its completion delivers. -/
inductive Delivery where
  | error
  | bytes (data : Bytes)
deriving DecidableEq, Repr

/-- How many bytes are delivered. -/
def Delivery.count : Delivery → Nat
  | .error => 0
  | .bytes data => data.length

/-- What becomes of a delivery; `skipped` stores nothing. -/
inductive Result where
  | closed
  | skipped
  | stored (array : Bytes)
  | outside
deriving DecidableEq, Repr

/-! ## Stores -/

/-- `data` goes to the front of the array. -/
def CopyMemory (array data : Bytes) : Option Bytes :=
  if data.length ≤ array.length then some (data ++ array.drop data.length) else none

/-- `array[n] = '\0'` -/
def terminate (array : Bytes) (n : Nat) : Option Bytes :=
  if n < array.length then some (array.set n 0) else none

/-- The bytes are in the array, and the zero is stored behind them. -/
def store (array data : Bytes) : Result :=
  match (CopyMemory array data).bind fun array => terminate array data.length with
  | some array => .stored array
  | none => .outside

/-! ## The servers -/

namespace select_server

def size : Nat := 256

def len : Nat := size

/-- After `recv` in `_tmain`; the array is cleared before. -/
def _tmain (d : Delivery) : Result :=
  let buff := List.replicate size 0
  match d with
  | .error => .closed
  | .bytes data => if 0 < data.length then store buff data else .closed

end select_server

namespace iocpdemo

def BUFFER_SIZE : Nat := 1024

/-- The operation of an I/O object. -/
inductive OperationType where
  | OP_READ
  | OP_WRITE
  | OP_ACCEPT
deriving DecidableEq, Repr

/-- After `GetQueuedCompletionStatus` in `ServerThread`; the bytes are in `pPerIo->buf`. -/
def ServerThread (nOperationType : OperationType) (buf : Bytes) (d : Delivery) : Result :=
  match d with
  | .error => .closed
  | .bytes data =>
      if data.length = 0 ∧ (nOperationType = .OP_READ ∨ nOperationType = .OP_WRITE) then .closed
      else
        match nOperationType with
        | .OP_READ => store buf data
        | .OP_WRITE => .skipped
        | .OP_ACCEPT => .skipped

end iocpdemo

namespace selectModel

def BUFFER_SIZE : Nat := 64

/-- After `recv` in `ReadThread`.  The zero is stored also if the client has closed. -/
def ReadThread (Buf : Bytes) (d : Delivery) : Result :=
  match d with
  | .error => .closed
  | .bytes data => store Buf data

end selectModel

namespace overlappedEvent

def BUFFER_SIZE : Nat := 64

/-- What the demo posts next. -/
inductive IO_Flag where
  | NEXT_IO_READ
  | NEXT_IO_SEND
deriving DecidableEq, Repr

/-- After `WSAGetOverlappedResult` in `WorkerThread`; the bytes are copied to `Buf`, which
lasts as long as the thread. -/
def WorkerThread (flag : IO_Flag) (Buf : Bytes) (d : Delivery) : Result :=
  match d with
  | .error => .closed
  | .bytes data =>
      if data.length = 0 then .closed
      else
        match flag with
        | .NEXT_IO_SEND => store Buf data
        | .NEXT_IO_READ => .skipped

end overlappedEvent

/-! ## The zero is inside -/

/-- The four programs that write a terminator. -/
inductive Server where
  | select_server
  | iocpdemo
  | selectModel
  | overlappedEvent
deriving DecidableEq, Repr

namespace Server

/-- The size of the array the zero is stored into. -/
def size : Server → Nat
  | select_server => Terminators.select_server.size
  | iocpdemo => Terminators.iocpdemo.BUFFER_SIZE
  | selectModel => Terminators.selectModel.BUFFER_SIZE
  | overlappedEvent => Terminators.overlappedEvent.BUFFER_SIZE

/-- The length that the receive call is given. -/
def len : Server → Nat
  | select_server => Terminators.select_server.len
  | iocpdemo => Terminators.iocpdemo.BUFFER_SIZE
  | selectModel => Terminators.selectModel.BUFFER_SIZE
  | overlappedEvent => Terminators.overlappedEvent.BUFFER_SIZE

/-- What the server does with a delivery; the array is what earlier ones have left. -/
def receive (s : Server) (array : Bytes) (d : Delivery) : Result :=
  match s with
  | select_server => Terminators.select_server._tmain d
  | iocpdemo => Terminators.iocpdemo.ServerThread .OP_READ array d
  | selectModel => Terminators.selectModel.ReadThread array d
  | overlappedEvent => Terminators.overlappedEvent.WorkerThread .NEXT_IO_SEND array d

end Server

theorem store_of_lt {array data : Bytes} (h : data.length < array.length) :
    store array data = .stored (data ++ 0 :: array.drop (data.length + 1)) := by
  have hdrop : array.drop data.length = array[data.length] :: array.drop (data.length + 1) :=
    List.drop_eq_getElem_cons h
  have hlen : data.length < (data ++ array.drop data.length).length := by
    rw [List.length_append, List.length_drop]
    omega
  have hset : (data ++ array.drop data.length).set data.length 0 =
      data ++ 0 :: array.drop (data.length + 1) := by
    rw [hdrop, List.set_append_right _ _ (Nat.le_refl _), Nat.sub_self, List.set_cons_zero]
  simp only [store, CopyMemory, if_pos (Nat.le_of_lt h), Option.bind_some, terminate, if_pos hlen,
    hset]

theorem store_of_le {array data : Bytes} (h : array.length ≤ data.length) :
    store array data = .outside := by
  by_cases hle : data.length ≤ array.length
  · have hlen : ¬ data.length < (data ++ array.drop data.length).length := by
      rw [List.length_append, List.length_drop]
      omega
    simp only [store, CopyMemory, if_pos hle, Option.bind_some, terminate, if_neg hlen]
  · simp only [store, CopyMemory, if_neg hle, Option.bind_none]

theorem store_ne_outside_iff {array data : Bytes} :
    store array data ≠ .outside ↔ data.length < array.length := by
  constructor
  · intro h
    by_contra hle
    exact h (store_of_le (Nat.le_of_not_lt hle))
  · intro h
    rw [store_of_lt h]
    exact Result.noConfusion

/-- A delivery with bytes is stored into an array of the server's size. -/
theorem receive_eq_store {s : Server} {array data : Bytes} (harray : array.length = s.size)
    (hpos : 0 < data.length) :
    ∃ t : Bytes, t.length = s.size ∧ s.receive array (.bytes data) = store t data := by
  have hne : data.length ≠ 0 := Nat.ne_of_gt hpos
  cases s with
  | select_server => exact ⟨_, List.length_replicate .., if_pos hpos⟩
  | iocpdemo => exact ⟨array, harray, if_neg fun h => hne h.1⟩
  | selectModel => exact ⟨array, harray, rfl⟩
  | overlappedEvent => exact ⟨array, harray, if_neg hne⟩

theorem receive_bytes {s : Server} {array data : Bytes} (harray : array.length = s.size)
    (hpos : 0 < data.length) (hlt : data.length < s.size) :
    ∃ rest, s.receive array (.bytes data) = .stored (data ++ 0 :: rest) := by
  obtain ⟨t, ht, heq⟩ := receive_eq_store harray hpos
  exact ⟨_, heq.trans (store_of_lt (ht ▸ hlt))⟩

/-- Without bytes nothing is stored but the zero of the select model, at the front. -/
theorem receive_empty {s : Server} {array : Bytes} {d : Delivery} (harray : array.length = s.size)
    (hd : d.count = 0) : s.receive array d ≠ .outside := by
  cases d with
  | error => cases s <;> exact Result.noConfusion
  | bytes data =>
      obtain rfl := List.length_eq_zero_iff.mp hd
      cases s with
      | select_server => exact Result.noConfusion
      | iocpdemo => exact Result.noConfusion
      | selectModel => exact store_ne_outside_iff.mpr (harray ▸ by decide)
      | overlappedEvent => exact Result.noConfusion

/-- The zero is inside the array exactly if the bytes do not fill the buffer that was given
to the call. -/
theorem inside_iff {s : Server} {array : Bytes} {d : Delivery} (harray : array.length = s.size) :
    s.receive array d ≠ .outside ↔ d.count < s.len := by
  have hsize : s.len = s.size := by cases s <;> rfl
  have hlen : 0 < s.len := by cases s <;> decide
  rcases Nat.eq_zero_or_pos d.count with hzero | hpos
  · exact iff_of_true (receive_empty harray hzero) (hzero ▸ hlen)
  · cases d with
    | error => exact absurd hpos (Nat.lt_irrefl 0)
    | bytes data =>
        obtain ⟨t, ht, heq⟩ := receive_eq_store harray hpos
        rw [heq, store_ne_outside_iff, ht, hsize]
        exact Iff.rfl

/-- Two bytes in the buffer of `iocpdemo`. -/
theorem inside_two :
    Server.iocpdemo.receive (List.replicate 1024 0) (.bytes [104, 105]) ≠ .outside :=
  (inside_iff (List.length_replicate ..)).mpr (by decide)

/-- 64 bytes fill the array of the select model. -/
theorem not_inside : ¬ ∀ (s : Server) (array : Bytes) (d : Delivery), array.length = s.size →
    d.count ≤ s.len → s.receive array d ≠ .outside := by
  intro h
  exact h .selectModel (List.replicate 64 0) (.bytes (List.replicate 64 97))
    (List.length_replicate ..) (by decide) (by decide)

end CppWorkspace.Terminators
