/-
# `CppWorkspace.CIOCPServer.Data` — the per-I/O and per-handle records

`CIOCPBuffer` and `CIOCPContext` of `CIOCPServer.cpp`, and the critical
sections that touch one context only, each as a function on the record.

Conventions:

* `ULONG` is `UInt32`; the two outstanding counters are `int`, here `Int`
  (a send that completes before it is counted drives its counter to `-1`);
* a buffer is named by its address `addr`; `buff` is the part of its memory
  in use, so `nLen` is `buff.length`;
* `no` is not in the source: a read carries the number of reads that were
  posted on its context before it, which `nSequenceNumber` holds modulo `2^32`;
* `pOutOfOrderReads` is the list that the `pNext` links of the parked buffers
  spell, head first;
* the addresses `addrLocal`, `addrRemote` and the lock itself carry nothing
  that a modelled function reads and are left out.
-/
import CppWorkspace.Lib.Weights

namespace CppWorkspace.CIOCPServer

open Weights

abbrev ULONG := UInt32

/-- A socket handle as the code holds it. -/
abbrev SOCKET := Nat

def invalidSocket : SOCKET := 0xFFFFFFFF

/-- `BUFFER_SIZE`. -/
def bufferSize : Nat := 1024 * 4

/-- `NO_ERROR`; any other value of `nError` is an error code. -/
def noError : Nat := 0

/-- What a posted buffer is used for. -/
inductive Operation where
  | opAccept
  | opWrite
  | opRead
deriving DecidableEq, Repr

/-- A buffer, as far as reads and sends use it. -/
structure CIOCPBuffer where
  addr : Nat
  nOperation : Operation
  nSequenceNumber : ULONG
  buff : List UInt8
  no : Nat
deriving DecidableEq, Repr

/-- The record of a connection. -/
structure CIOCPContext where
  s : SOCKET
  bClosing : Bool
  nOutstandingRecv : Int
  nOutstandingSend : Int
  nReadSequence : ULONG
  nCurrentReadSequence : ULONG
  pOutOfOrderReads : List CIOCPBuffer
  bNotifyCloseOrError : Bool
deriving DecidableEq, Repr

namespace CIOCPContext

/-- A context as `AllocateContext` hands it out: every field is zero but `s`. -/
def allocated (s : SOCKET) : CIOCPContext where
  s := s
  bClosing := false
  nOutstandingRecv := 0
  nOutstandingSend := 0
  nReadSequence := 0
  nCurrentReadSequence := 0
  pOutOfOrderReads := []
  bNotifyCloseOrError := false

/-- What `ReleaseContext` leaves behind: `memset` to zero, the lock restored.
The socket field becomes `0`, not `INVALID_SOCKET`. -/
def zeroed : CIOCPContext := allocated 0

/-- `AllocateContext(s)`, with a context from the free list. -/
def recycle (c : CIOCPContext) (s : SOCKET) : CIOCPContext :=
  { c with s := s, bNotifyCloseOrError := false }

/-- The first critical section of `HandleIO`: one operation less outstanding. -/
def countDown (c : CIOCPContext) : Operation → CIOCPContext
  | .opRead => { c with nOutstandingRecv := c.nOutstandingRecv - 1 }
  | .opWrite => { c with nOutstandingSend := c.nOutstandingSend - 1 }
  | .opAccept => c

/-- The test that decides over `ReleaseContext`. -/
def nothingOutstanding (c : CIOCPContext) : Bool :=
  c.nOutstandingRecv == 0 && c.nOutstandingSend == 0

/-- The second critical section of `CloseAConnection`. -/
def close (c : CIOCPContext) : CIOCPContext :=
  { c with s := invalidSocket, bClosing := true }

/-- The end of a successful `PostRecv`: count the read, use up its number. -/
def countRecv (c : CIOCPContext) : CIOCPContext :=
  { c with
    nOutstandingRecv := c.nOutstandingRecv + 1
    nReadSequence := c.nReadSequence + 1 }

/-- The last critical section of a successful `PostSend`. -/
def countSend (c : CIOCPContext) : CIOCPContext :=
  { c with nOutstandingSend := c.nOutstandingSend + 1 }

/-- `InterlockedIncrement(&nCurrentReadSequence)`. -/
def nextRead (c : CIOCPContext) : CIOCPContext :=
  { c with nCurrentReadSequence := c.nCurrentReadSequence + 1 }

section
variable (c : CIOCPContext)

@[simp] theorem countDown_pOutOfOrderReads (op : Operation) :
    (c.countDown op).pOutOfOrderReads = c.pOutOfOrderReads := by
  cases op <;> rfl

@[simp] theorem countRecv_pOutOfOrderReads :
    c.countRecv.pOutOfOrderReads = c.pOutOfOrderReads := rfl

@[simp] theorem countSend_pOutOfOrderReads :
    c.countSend.pOutOfOrderReads = c.pOutOfOrderReads := rfl

@[simp] theorem nextRead_pOutOfOrderReads :
    c.nextRead.pOutOfOrderReads = c.pOutOfOrderReads := rfl

@[simp] theorem close_pOutOfOrderReads : c.close.pOutOfOrderReads = c.pOutOfOrderReads := rfl

end

end CIOCPContext

/-! ## `GetNextReadBuffer`, step by step

The function runs without any lock.  Its three accesses to the shared context
are the comparison, the sorted insertion and the test of the list head. -/

/-- The comparison: is `pBuffer` the read that the user gets next? -/
def isNextRead (c : CIOCPContext) (pBuffer : CIOCPBuffer) : Bool :=
  pBuffer.nSequenceNumber == c.nCurrentReadSequence

/-- The insertion loop: past every entry that is not larger. -/
def insertRead (pBuffer : CIOCPBuffer) : List CIOCPBuffer → List CIOCPBuffer
  | [] => [pBuffer]
  | ptr :: rest =>
      if pBuffer.nSequenceNumber < ptr.nSequenceNumber then pBuffer :: ptr :: rest
      else ptr :: insertRead pBuffer rest

def CIOCPContext.park (c : CIOCPContext) (pBuffer : CIOCPBuffer) : CIOCPContext :=
  { c with pOutOfOrderReads := insertRead pBuffer c.pOutOfOrderReads }

/-- The final test: remove the head if its number is the current one. -/
def takeHead (c : CIOCPContext) : CIOCPContext × Option CIOCPBuffer :=
  match c.pOutOfOrderReads with
  | [] => (c, none)
  | ptr :: rest =>
      if ptr.nSequenceNumber = c.nCurrentReadSequence then
        ({ c with pOutOfOrderReads := rest }, some ptr)
      else (c, none)

theorem takeHead_eq (c : CIOCPContext) :
    takeHead c = (c, none) ∨ ∃ p rest, c.pOutOfOrderReads = p :: rest ∧
      p.nSequenceNumber = c.nCurrentReadSequence ∧
      takeHead c = ({ c with pOutOfOrderReads := rest }, some p) := by
  unfold takeHead
  split
  · exact .inl rfl
  · rename_i p rest hl
    split
    · rename_i hseq
      exact .inr ⟨p, rest, hl, hseq, rfl⟩
    · exact .inl rfl

/-- `GetNextReadBuffer` as one call that nobody interrupts. -/
def getNextReadBuffer (c : CIOCPContext) : Option CIOCPBuffer → CIOCPContext × Option CIOCPBuffer
  | none => takeHead c
  | some pBuffer => if isNextRead c pBuffer then (c, some pBuffer) else takeHead (c.park pBuffer)

/-! ## The insertion keeps what an insertion has to keep -/

theorem mem_insertRead {b x : CIOCPBuffer} {l : List CIOCPBuffer} :
    x ∈ insertRead b l ↔ x = b ∨ x ∈ l := by
  induction l with
  | nil => simp [insertRead]
  | cons p l ih =>
      simp only [insertRead]
      split
      · simp
      · simp only [List.mem_cons, ih]
        tauto

theorem weight_insertRead (f : CIOCPBuffer → Nat) (b : CIOCPBuffer) (l : List CIOCPBuffer) :
    weight f (insertRead b l) = f b + weight f l := by
  induction l with
  | nil => simp [insertRead]
  | cons p l ih =>
      simp only [insertRead]
      split
      · simp
      · simp only [weight_cons, ih]
        omega

/-- Sorted by sequence number, smallest first. -/
def SortedReads (l : List CIOCPBuffer) : Prop :=
  l.Pairwise fun a b => a.nSequenceNumber ≤ b.nSequenceNumber

theorem sortedReads_insertRead {b : CIOCPBuffer} {l : List CIOCPBuffer} (h : SortedReads l) :
    SortedReads (insertRead b l) := by
  induction l with
  | nil => simp [insertRead, SortedReads]
  | cons p l ih =>
      obtain ⟨hp, hl⟩ := List.pairwise_cons.mp h
      simp only [insertRead]
      split
      · rename_i hlt
        refine List.pairwise_cons.mpr ⟨fun x hx => ?_, h⟩
        have hbp : b.nSequenceNumber ≤ p.nSequenceNumber := by
          rw [UInt32.le_iff_toNat_le]
          exact Nat.le_of_lt (UInt32.lt_iff_toNat_lt.mp hlt)
        rcases List.mem_cons.mp hx with rfl | hx
        · exact hbp
        · have hpx := hp x hx
          rw [UInt32.le_iff_toNat_le] at hbp hpx ⊢
          omega
      · rename_i hlt
        refine List.pairwise_cons.mpr ⟨fun x hx => ?_, ih hl⟩
        rcases mem_insertRead.mp hx with rfl | hx
        · rw [UInt32.lt_iff_toNat_lt] at hlt
          rw [UInt32.le_iff_toNat_le]
          omega
        · exact hp x hx

end CppWorkspace.CIOCPServer
