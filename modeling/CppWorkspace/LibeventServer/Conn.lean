/-
# `CppWorkspace.LibeventServer.Conn` — connections, packet heads, handlers

The records of `CProtocol.h` and `CLibEventData.h` that `DoRead` works on, the
handler table of `CLibEventFunction`, and the handlers of `CLibUserFunction`.

Conventions:

* a `Conn` is built with its two facts: `in_buf` has `emMaxBuffLen` bytes, and
  `in_buf_len` does not exceed them (it is a `short`, so nothing overflows);
* `in_buf` is never initialised by the code, so its first contents are arbitrary;
* `short` and `int` fields of `Head` are read little-endian and signed; the
  comparisons of `pkglen` with `sizeof` are made unsigned, as in the source;
* a handler reads `in_buf` and writes the output buffer: none of the registered
  ones writes `in_buf` or `in_buf_len`;
* `bufev`, `fd`, `index`, `owner` and `next` carry nothing that is read here.
-/
import Mathlib.Data.List.Basic
import Mathlib.Algebra.Order.Ring.Int

namespace CppWorkspace.LibeventServer

/-! ## The protocol -/

def emStx : Int := 860805

def emMaxBuffLen : Nat := 4096

def emFunClosed : Int := 0
def emFunTimeout : Int := 1
def emFunError : Int := 2
def emFunConnected : Int := 3
def emFunBase : Int := 1000
def emFunLogin : Int := 1001
def emFunLogout : Int := 1002

def emFunReturClose : Int := 1
def emFunReturnSend : Int := 2

/-- `sizeof(Head)`. -/
def sizeofHead : Nat := 8

/-- Little-endian bytes. -/
def leNat : List UInt8 → Nat
  | [] => 0
  | b :: bs => b.toNat + 256 * leNat bs

/-- Two's complement of `8 * w` bits. -/
def signed (w : Nat) (n : Nat) : Int := if n < 2 ^ (8 * w - 1) then n else n - 2 ^ (8 * w)

/-- The conversion of an `int` to `size_t`. -/
def toUnsigned (n : Int) : Nat := (n % 2 ^ 32).toNat

/-- The head of a packet. -/
structure Head where
  stx : Int
  pkglen : Int
  nFunID : Int
deriving DecidableEq, Repr

/-- `(Head*)buf`. -/
def Head.ofBytes (buf : List UInt8) : Head where
  stx := signed 4 (leNat (buf.take 4))
  pkglen := signed 2 (leNat ((buf.drop 4).take 2))
  nFunID := signed 2 (leNat ((buf.drop 6).take 2))

theorem Head.ofBytes_prefix {p q : List UInt8} (hp : sizeofHead ≤ p.length) (h : p <+: q) :
    Head.ofBytes q = Head.ofBytes p := by
  obtain ⟨t, rfl⟩ := h
  simp only [sizeofHead] at hp
  have h₁ : (p ++ t).take 4 = p.take 4 := List.take_append_of_le_length (by omega)
  have h₂ : ((p ++ t).drop 4).take 2 = (p.drop 4).take 2 := by
    rw [List.drop_append_of_le_length (by omega), List.take_append_of_le_length]
    rw [List.length_drop]
    omega
  have h₃ : ((p ++ t).drop 6).take 2 = (p.drop 6).take 2 := by
    rw [List.drop_append_of_le_length (by omega), List.take_append_of_le_length]
    rw [List.length_drop]
    omega
  simp only [Head.ofBytes, h₁, h₂, h₃]

/-! ## A connection -/

/-- `out_buf` and `out_buf_len`, the part of a `Conn` that handlers write. -/
structure Out where
  out_buf : List UInt8
  out_buf_len : Int
deriving DecidableEq, Repr

/-- A connection, with the facts that hold of its buffer. -/
structure Conn where
  in_buf : List UInt8
  in_buf_len : Nat
  out : Out
  in_buf_size : in_buf.length = emMaxBuffLen
  in_buf_bound : in_buf_len ≤ emMaxBuffLen

namespace Conn

/-- The bytes that were received and not yet handled. -/
def unread (c : Conn) : List UInt8 := c.in_buf.take c.in_buf_len

theorem unread_length (c : Conn) : c.unread.length = c.in_buf_len := by
  have h₁ := c.in_buf_size
  have h₂ := c.in_buf_bound
  simp only [unread, List.length_take]
  omega

/-- One `evbuffer_remove` into `in_buf`, which writes at its START, and the new
length. -/
def fill (c : Conn) (input : List UInt8) : Conn where
  in_buf := input.take (emMaxBuffLen - c.in_buf_len)
    ++ c.in_buf.drop (input.take (emMaxBuffLen - c.in_buf_len)).length
  in_buf_len := c.in_buf_len + (input.take (emMaxBuffLen - c.in_buf_len)).length
  out := c.out
  in_buf_size := by
    have h := c.in_buf_size
    simp only [List.length_append, List.length_take, List.length_drop]
    omega
  in_buf_bound := by
    have h := c.in_buf_bound
    simp only [List.length_take]
    omega

/-- `in_buf_len -= n`, and the `memmove` of what is left to the start. -/
def advance (c : Conn) (n : Nat) : Conn where
  in_buf := (c.in_buf.drop n).take (c.in_buf_len - n) ++ c.in_buf.drop (c.in_buf_len - n)
  in_buf_len := c.in_buf_len - n
  out := c.out
  in_buf_size := by
    have h₁ := c.in_buf_size
    have h₂ := c.in_buf_bound
    simp only [List.length_append, List.length_take, List.length_drop]
    omega
  in_buf_bound := by
    have h := c.in_buf_bound
    omega

/-- `in_buf_len = 0`. -/
def clear (c : Conn) : Conn where
  in_buf := c.in_buf
  in_buf_len := 0
  out := c.out
  in_buf_size := c.in_buf_size
  in_buf_bound := Nat.zero_le _

/-- What a handler has written. -/
def setOut (c : Conn) (o : Out) : Conn where
  in_buf := c.in_buf
  in_buf_len := c.in_buf_len
  out := o
  in_buf_size := c.in_buf_size
  in_buf_bound := c.in_buf_bound

section
variable (c : Conn) (n : Nat) (o : Out)

@[simp] theorem setOut_in_buf : (c.setOut o).in_buf = c.in_buf := rfl
@[simp] theorem setOut_in_buf_len : (c.setOut o).in_buf_len = c.in_buf_len := rfl
@[simp] theorem setOut_unread : (c.setOut o).unread = c.unread := rfl
@[simp] theorem advance_in_buf_len : (c.advance n).in_buf_len = c.in_buf_len - n := rfl
@[simp] theorem clear_in_buf_len : c.clear.in_buf_len = 0 := rfl

@[simp] theorem fill_in_buf_len (input : List UInt8) :
    (c.fill input).in_buf_len
      = c.in_buf_len + min (emMaxBuffLen - c.in_buf_len) input.length := by
  simp [fill]

theorem advance_unread : (c.advance n).unread = c.unread.drop n := by
  have h₁ := c.in_buf_size
  have h₂ := c.in_buf_bound
  simp only [unread, advance]
  rw [List.drop_take, List.take_append_of_le_length, List.take_of_length_le]
  · simp only [List.length_take]
    omega
  · simp only [List.length_take, List.length_drop]
    omega

end

end Conn

/-! ## The handler table -/

/-- A handler: it reads `in_buf`, writes the output buffer, and returns a code. -/
abbrev lpFunPtr := List UInt8 → Out → Out × Int

/-- The static members of `CLibEventFunction`. -/
structure CLibEventFunction where
  m_FunPtrList : Int → Option lpFunPtr
  m_stx : Int

/-- `c->out_buf_len += n`, a `short`. -/
def addShort (a n : Int) : Int := (a + n + 2 ^ 15) % 2 ^ 16 - 2 ^ 15

namespace CLibUserFunction

def Connect : lpFunPtr := fun _ o => (o, 0)

def DisConnect : lpFunPtr := fun _ o => (o, 0)

/-- The answer is a head of the same kind and `uid = 1`; its length is added to
`out_buf_len`. -/
def Login : lpFunPtr := fun in_buf o =>
  if (Head.ofBytes in_buf).pkglen ≠ 10 then (o, emFunReturClose)
  else
    ({ out_buf := in_buf.take 4 ++ [10, 0] ++ (in_buf.drop 6).take 2 ++ [1, 0] ++ o.out_buf.drop 10,
       out_buf_len := addShort o.out_buf_len 10 }, emFunReturnSend)

def Logout : lpFunPtr := fun _ o => (o, emFunReturClose)

end CLibUserFunction

/-- What `LoadFuns` and `StartServer` register. -/
def registered : CLibEventFunction where
  m_FunPtrList := fun id =>
    if id = emFunLogin then some CLibUserFunction.Login
    else if id = emFunLogout then some CLibUserFunction.Logout
    else if id = emFunConnected then some CLibUserFunction.Connect
    else if id = emFunTimeout ∨ id = emFunClosed ∨ id = emFunError then
      some CLibUserFunction.DisConnect
    else none
  m_stx := emStx

end CppWorkspace.LibeventServer
