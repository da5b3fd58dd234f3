/-
# `CppWorkspace.SelectServer` — the server of the select model

`ConnThread` accepts, `ReadThread` receives from the clients in `Client`, and puts those
it has data of into `fsWrite`; `SendThread` sends to the clients in `fsWrite` and takes
them out again.  Each critical section and each call of Winsock is one step of its
thread, and the steps of the three threads come in any order.

What a call returns is chosen with the step (`Outcome`), within what Winsock promises: a
closed socket can be neither received from nor sent to, and `select` fails if one of its
sockets is closed.  It then leaves the set as it is.

A socket is a number that is not used again; `INVALID_SOCKET`, which `ConnThread` takes
for a client if `accept` fails, is one that is never open.  `closes`, `taken` and `failed`
are not in the source: how often a socket was closed, whether `Add_Client` has taken it,
and whether a `recv` or `send` on it has failed.
-/
import Mathlib.Data.List.Nodup
import Mathlib.Data.List.Perm.Basic
import CppWorkspace.Lib.Runs

namespace CppWorkspace.SelectServer

open Runs

def FD_SETSIZE : Nat := 64

def MAX_CLIENT : Nat := FD_SETSIZE

def INVALID_SOCKET : Nat := 0

/-- `fd_set`: `fd_array[0 .. fd_count - 1]`. -/
abbrev FdSet := List Nat

def FD_SET (s : Nat) (fs : FdSet) : FdSet :=
  if s ∈ fs then fs else if fs.length < FD_SETSIZE then fs ++ [s] else fs

def FD_CLR (s : Nat) (fs : FdSet) : FdSet := fs.erase s

/-- What has become of a socket. -/
structure Socket where
  isOpen : Bool
  closes : Nat
  taken : Bool
  failed : Bool
deriving DecidableEq, Repr

/-- Where `ConnThread` is: before `select`, before `accept`, before `Add_Client`. -/
inductive ConnPc where
  | wait
  | accept
  | add (client : Nat)
deriving DecidableEq, Repr

/-- Where `ReadThread` is: before `Set_Read_SET`, before `select`, and for the socket
`fsRead.fd_array[i]` before `recv`, before `Set_Write_SET`, before `closesocket` and before
`Remove_Client`. -/
inductive ReadPc where
  | top
  | wait
  | recv (i : Nat)
  | received (i : Nat)
  | failed (i : Nat)
  | closed (i : Nat)
deriving DecidableEq, Repr

/-- Where `SendThread` is; `fs` are the sockets of its set that are still to come.  After
a failed `send` of `s` it is at `failed` and `closed`, after a failed `select` at
`dropping`, `dropped` and `removed`. -/
inductive SendPc where
  | top
  | wait (fs : FdSet)
  | send (fs : FdSet)
  | sent (s : Nat) (fs : FdSet)
  | failed (s : Nat) (fs : FdSet)
  | closed (s : Nat) (fs : FdSet)
  | dropping (fs : FdSet)
  | dropped (s : Nat) (fs : FdSet)
  | removed (s : Nat) (fs : FdSet)
deriving DecidableEq, Repr

/-- The table of clients, and the threads at their places. -/
structure Server where
  next : Nat
  sockets : Nat → Socket
  Client : List Nat
  fsRead : FdSet
  fsWrite : FdSet
  conn : ConnPc
  read : ReadPc
  send : SendPc

def start : Server where
  next := 1
  sockets _ := ⟨false, 0, false, false⟩
  Client := []
  fsRead := []
  fsWrite := []
  conn := .wait
  read := .top
  send := .top

namespace Server

def set (σ : Server) (s : Nat) (x : Socket) : Server :=
  { σ with sockets := Function.update σ.sockets s x }

def isOpen (σ : Server) (s : Nat) : Bool := (σ.sockets s).isOpen

def closesocket (σ : Server) (s : Nat) : Server :=
  σ.set s { σ.sockets s with isOpen := false, closes := (σ.sockets s).closes + 1 }

/-- `recv` or `send` has returned `SOCKET_ERROR`. -/
def fail (σ : Server) (s : Nat) : Server := σ.set s { σ.sockets s with failed := true }

def Add_Client (σ : Server) (ClientSocket : Nat) : Server :=
  if MAX_CLIENT ≤ σ.Client.length then σ.closesocket ClientSocket
  else { σ.set ClientSocket { σ.sockets ClientSocket with taken := true } with
    Client := σ.Client ++ [ClientSocket] }

/-- The last client takes the place of the one that is removed. -/
def Remove_Client (σ : Server) (ClientSocket : Nat) : Server :=
  match σ.Client.getLast? with
  | some last =>
      if ClientSocket ∈ σ.Client then
        { σ with Client := (σ.Client.set (σ.Client.idxOf ClientSocket) last).dropLast }
      else σ
  | none => σ

def Set_Read_SET (σ : Server) : Server :=
  { σ with fsRead := σ.Client.foldl (fun fs s => FD_SET s fs) [] }

def Set_Write_SET (σ : Server) (ClientSocket : Nat) : Server :=
  { σ with fsWrite := FD_SET ClientSocket σ.fsWrite }

def Remove_Client_From_Write_Set (σ : Server) (ClientSocket : Nat) : Server :=
  { σ with fsWrite := FD_CLR ClientSocket σ.fsWrite }

end Server

/-- What a call returns; `ready` are the sockets `select` has left in its set. -/
inductive Outcome where
  | ok
  | error
  | timeout
  | ready (fs : FdSet)
deriving DecidableEq, Repr

/-- `select` may leave `fs'` in the set `fs`. -/
def Server.Selects (σ : Server) (fs fs' : FdSet) : Prop :=
  (∀ s ∈ fs, σ.isOpen s = true) ∧ fs'.Sublist fs ∧ fs' ≠ []

instance (σ : Server) (fs fs' : FdSet) : Decidable (σ.Selects fs fs') :=
  inferInstanceAs (Decidable (_ ∧ _ ∧ _))

def ConnThread (σ : Server) (o : Outcome) : Option Server :=
  match σ.conn, o with
  | .wait, .error => some σ
  | .wait, .timeout => some σ
  | .wait, .ok => some { σ with conn := .accept }
  | .accept, .ok =>
      some { σ.set σ.next { σ.sockets σ.next with isOpen := true } with
        next := σ.next + 1, conn := .add σ.next }
  | .accept, .error => some { σ with conn := .add INVALID_SOCKET }
  | .add client, .ok => some { σ.Add_Client client with conn := .wait }
  | _, _ => none

/-- The branch of `ReadThread` after `recv` has failed ends with `FD_CLR`, which moves the
sockets behind `fd_array[i]` one place down. -/
def ReadThread (σ : Server) (o : Outcome) : Option Server :=
  match σ.read, o with
  | .top, .ok =>
      some (if σ.Set_Read_SET.fsRead = [] then σ.Set_Read_SET
        else { σ.Set_Read_SET with read := .wait })
  | .wait, .error => some { σ with read := .top }
  | .wait, .timeout =>
      if ∀ s ∈ σ.fsRead, σ.isOpen s = true then some { σ with read := .top } else none
  | .wait, .ready fs =>
      if σ.Selects σ.fsRead fs then some { σ with fsRead := fs, read := .recv 0 } else none
  | .recv i, .ok =>
      match σ.fsRead[i]? with
      | some s => if σ.isOpen s then some { σ with read := .received i } else none
      | none => some { σ with read := .top }
  | .recv i, .error =>
      match σ.fsRead[i]? with
      | some s => some { σ.fail s with read := .failed i }
      | none => none
  | .received i, .ok => do
      let s ← σ.fsRead[i]?
      some { σ.Set_Write_SET s with read := .recv (i + 1) }
  | .failed i, .ok => do
      let s ← σ.fsRead[i]?
      some { σ.closesocket s with read := .closed i }
  | .closed i, .ok => do
      let s ← σ.fsRead[i]?
      some { σ.Remove_Client s with fsRead := FD_CLR s σ.fsRead, read := .recv (i + 1) }
  | _, _ => none

def SendThread (σ : Server) (o : Outcome) : Option Server :=
  match σ.send, o with
  | .top, .ok => some (if σ.fsWrite = [] then σ else { σ with send := .wait σ.fsWrite })
  | .wait fs, .error => some { σ with send := .dropping fs }
  | .wait fs, .timeout =>
      if ∀ s ∈ fs, σ.isOpen s = true then some { σ with send := .top } else none
  | .wait fs, .ready fs' =>
      if σ.Selects fs fs' then some { σ with send := .send fs' } else none
  | .send [], .ok => some { σ with send := .top }
  | .send (s :: fs), .ok => if σ.isOpen s then some { σ with send := .sent s fs } else none
  | .send (s :: fs), .error => some { σ.fail s with send := .failed s fs }
  | .sent s fs, .ok => some { σ.Remove_Client_From_Write_Set s with send := .send fs }
  | .failed s fs, .ok => some { σ.closesocket s with send := .closed s fs }
  | .closed s fs, .ok => some { σ.Remove_Client s with send := .send fs }
  | .dropping [], .ok => some { σ with send := .top }
  | .dropping (s :: fs), .ok => some { σ.closesocket s with send := .dropped s fs }
  | .dropped s fs, .ok => some { σ.Remove_Client s with send := .removed s fs }
  | .removed s fs, .ok => some { σ.Remove_Client_From_Write_Set s with send := .dropping fs }
  | _, _ => none

/-- A step of one of the three threads. -/
inductive Action where
  | conn (o : Outcome)
  | read (o : Outcome)
  | send (o : Outcome)
deriving DecidableEq, Repr

def step (σ : Server) : Action → Option Server
  | .conn o => ConnThread σ o
  | .read o => ReadThread σ o
  | .send o => SendThread σ o

/-- An error on one client closes this client only. -/
structure Contained (σ : Server) : Prop where
  write : ∀ s ∈ σ.fsWrite, σ.isOpen s = true
  once : ∀ s, s ≠ INVALID_SOCKET → (σ.sockets s).closes ≤ 1
  others : ∀ s, s ≠ INVALID_SOCKET → (σ.sockets s).taken = true →
    (σ.sockets s).failed = false → σ.isOpen s = true ∧ s ∈ σ.Client
  closed : ∀ s, (σ.sockets s).failed = true → σ.read = .top →
    σ.isOpen s = false ∧ s ∉ σ.Client

/-- The socket `ReadThread` is about to receive from. -/
def Server.reading (σ : Server) : Option Nat :=
  match σ.read with
  | .recv i => σ.fsRead[i]?
  | _ => none

/-- `SendThread` meets no error, and `recv` fails only on a client that nothing is to be
sent to. -/
def Calm (σ : Server) : Action → Prop
  | .send .error => False
  | .read .error => ∀ s ∈ σ.reading, s ∉ σ.fsWrite
  | _ => True

instance (σ : Server) : (a : Action) → Decidable (Calm σ a)
  | .send .error => inferInstanceAs (Decidable False)
  | .read .error => inferInstanceAs (Decidable (∀ s ∈ σ.reading, s ∉ σ.fsWrite))
  | .conn _ => inferInstanceAs (Decidable True)
  | .send .ok => inferInstanceAs (Decidable True)
  | .send .timeout => inferInstanceAs (Decidable True)
  | .send (.ready _) => inferInstanceAs (Decidable True)
  | .read .ok => inferInstanceAs (Decidable True)
  | .read .timeout => inferInstanceAs (Decidable True)
  | .read (.ready _) => inferInstanceAs (Decidable True)

/-! ## The sets -/

theorem mem_FD_SET {s t : Nat} {fs : FdSet} (h : t ∈ FD_SET s fs) : t = s ∨ t ∈ fs := by
  unfold FD_SET at h
  split at h
  · exact .inr h
  · split at h
    · exact (List.mem_append.mp h).symm.imp List.mem_singleton.mp id
    · exact .inr h

theorem nodup_FD_SET {s : Nat} {fs : FdSet} (h : fs.Nodup) : (FD_SET s fs).Nodup := by
  unfold FD_SET
  split
  · exact h
  · rename_i hs
    split
    · exact List.nodup_append.mpr ⟨h, List.nodup_singleton s,
        fun a ha b hb hab => hs (by rwa [← List.mem_singleton.mp hb, ← hab])⟩
    · exact h

/-- `Set_Read_SET` takes clients only, and each of them once. -/
theorem foldl_FD_SET {l : List Nat} {fs : FdSet} (h : fs.Nodup) :
    (l.foldl (fun fs s => FD_SET s fs) fs).Nodup ∧
      ∀ s ∈ l.foldl (fun fs s => FD_SET s fs) fs, s ∈ fs ∨ s ∈ l := by
  induction l generalizing fs with
  | nil => exact ⟨h, fun _ => .inl⟩
  | cons a l ih =>
      obtain ⟨hnodup, hmem⟩ := ih (nodup_FD_SET (s := a) h)
      refine ⟨hnodup, fun s hs => ?_⟩
      rcases hmem s hs with hs | hs
      · rcases mem_FD_SET hs with rfl | hs
        · exact .inr List.mem_cons_self
        · exact .inl hs
      · exact .inr (List.mem_cons_of_mem a hs)

/-- After `FD_CLR` of `fd_array[i]` the next round takes the socket after the next. -/
theorem mem_drop_FD_CLR {s t i : Nat} {fs : FdSet} (h : fs.Nodup) (hs : fs[i]? = some s)
    (ht : t ∈ (FD_CLR s fs).drop (i + 1)) : t ∈ fs.drop (i + 1) := by
  obtain ⟨hi, rfl⟩ := List.getElem?_eq_some_iff.mp hs
  rw [FD_CLR, h.erase_getElem, List.eraseIdx_eq_take_drop_succ, List.drop_append] at ht
  rcases List.mem_append.mp ht with ht | ht
  · rw [List.drop_take] at ht
    simp at ht
  · exact List.mem_of_mem_drop ht

theorem perm_set_dropLast {s last : Nat} {l : List Nat} (hs : s ∈ l ++ [last]) :
    (((l ++ [last]).set ((l ++ [last]).idxOf s) last).dropLast).Perm ((l ++ [last]).erase s) := by
  by_cases hmem : s ∈ l
  · obtain ⟨l₁, l₂, rfl, hnot⟩ := List.eq_append_cons_of_mem hmem
    have hidx : (l₁ ++ s :: l₂ ++ [last]).idxOf s = l₁.length := by
      rw [List.append_assoc, List.idxOf_append_of_notMem hnot, List.cons_append,
        List.idxOf_cons_self, Nat.add_zero]
    have hset : (l₁ ++ s :: l₂ ++ [last]).set l₁.length last = l₁ ++ last :: l₂ ++ [last] := by
      simp
    have herase : (l₁ ++ s :: l₂ ++ [last]).erase s = l₁ ++ (l₂ ++ [last]) := by
      rw [List.append_assoc, List.erase_append_right _ hnot, List.cons_append,
        List.erase_cons_head]
    rw [hidx, hset, herase, List.dropLast_concat]
    exact (List.perm_append_singleton last l₂).symm.append_left l₁
  · obtain rfl := List.mem_singleton.mp ((List.mem_append.mp hs).resolve_left hmem)
    have hidx : (l ++ [s]).idxOf s = l.length := by
      rw [List.idxOf_append_of_notMem hmem, List.idxOf_cons_self, Nat.add_zero]
    have hset : (l ++ [s]).set l.length s = l ++ [s] := by simp
    rw [hidx, hset, List.dropLast_concat, List.erase_append_right _ hmem, List.erase_cons_head,
      List.append_nil]

/-- `Remove_Client` takes one entry with this socket out of the array. -/
theorem perm_Remove_Client {σ : Server} {s : Nat} :
    (σ.Remove_Client s).Client.Perm (σ.Client.erase s) := by
  rcases List.eq_nil_or_concat σ.Client with hnil | ⟨l, last, hl⟩
  · simp [Server.Remove_Client, hnil]
  · rw [List.concat_eq_append] at hl
    simp only [Server.Remove_Client, hl, List.getLast?_concat]
    split
    · rename_i hs
      exact perm_set_dropLast hs
    · rename_i hs
      rw [hl, List.erase_of_not_mem hs]

/-! ## The invariant -/

/-- The values of a socket, one after the other; `refused` follows on `arrived` if
`Add_Client` does not take it. -/
abbrev unused : Socket := ⟨false, 0, false, false⟩
abbrev arrived : Socket := ⟨true, 0, false, false⟩
abbrev refused : Socket := ⟨false, 1, false, false⟩
abbrev serving : Socket := ⟨true, 0, true, false⟩
abbrev failing : Socket := ⟨true, 0, true, true⟩
abbrev gone : Socket := ⟨false, 1, true, true⟩

/-- The client whose error `ReadThread` is handling. -/
def Server.handling (σ : Server) : Option Nat :=
  match σ.read with
  | .failed i => σ.fsRead[i]?
  | .closed i => σ.fsRead[i]?
  | _ => none

/-- The sockets that `ReadThread` has still to look at are served. -/
def Reading (σ : Server) : Prop :=
  match σ.read with
  | .top => True
  | .wait => ∀ s ∈ σ.fsRead, s ∈ σ.Client
  | .recv i => ∀ s ∈ σ.fsRead.drop i, σ.sockets s = serving
  | .received i => ∀ s ∈ σ.fsRead.drop i, σ.sockets s = serving
  | .failed i => (∀ s ∈ σ.fsRead.drop (i + 1), σ.sockets s = serving) ∧
      ∃ s, σ.fsRead[i]? = some s ∧ σ.sockets s = failing ∧ s ∉ σ.fsWrite
  | .closed i => (∀ s ∈ σ.fsRead.drop (i + 1), σ.sockets s = serving) ∧
      ∃ s, σ.fsRead[i]? = some s ∧ σ.sockets s = gone

/-- `SendThread` is handling no error. -/
def Sending (σ : Server) : Prop :=
  match σ.send with
  | .top | .wait _ | .send _ | .sent _ _ => True
  | _ => False

/-- The invariant of all runs. -/
structure Inv (σ : Server) : Prop where
  pos : 0 < σ.next
  invalid : σ.isOpen INVALID_SOCKET = false ∧ (σ.sockets INVALID_SOCKET).failed = false
  fresh : ∀ s, σ.next ≤ s → σ.sockets s = unused
  client : ∀ s ∈ σ.Client, s ≠ INVALID_SOCKET → σ.sockets s = serving ∨ σ.handling = some s
  outside : ∀ s, s ≠ INVALID_SOCKET → s ∉ σ.Client → σ.sockets s = unused ∨
    (σ.sockets s = arrived ∧ σ.conn = .add s) ∨ σ.sockets s = refused ∨ σ.sockets s = gone
  count : ∀ s, s ≠ INVALID_SOCKET → σ.Client.count s ≤ 1
  write : ∀ s ∈ σ.fsWrite, σ.sockets s = serving
  conn : ∀ s, σ.conn = .add s → s ≠ INVALID_SOCKET → σ.sockets s = arrived
  nodup : σ.fsRead.Nodup
  reading : Reading σ
  sending : Sending σ

/-- A socket that `ReadThread` and `SendThread` may know of. -/
def Known (x : Socket) : Prop := x = serving ∨ x = failing ∨ x = gone

theorem Reading.mono {σ σ' : Server} (h : Reading σ) (hread : σ'.read = σ.read)
    (hfsRead : σ'.fsRead = σ.fsRead) (hwrite : ∀ s ∈ σ'.fsWrite, s ∈ σ.fsWrite)
    (hclient : ∀ s ∈ σ.Client, s ∈ σ'.Client)
    (hsockets : ∀ s, Known (σ.sockets s) → σ'.sockets s = σ.sockets s) : Reading σ' := by
  have hserving : ∀ l : List Nat, (∀ s ∈ l, σ.sockets s = serving) →
      ∀ s ∈ l, σ'.sockets s = serving :=
    fun l hl s hs => (hsockets s (.inl (hl s hs))).trans (hl s hs)
  unfold Reading at h ⊢
  rw [hread, hfsRead]
  cases hpc : σ.read with
  | top => trivial
  | wait =>
      rw [hpc] at h
      exact fun s hs => hclient s (h s hs)
  | recv i =>
      rw [hpc] at h
      exact hserving _ h
  | received i =>
      rw [hpc] at h
      exact hserving _ h
  | failed i =>
      rw [hpc] at h
      obtain ⟨hrest, s, hs, hfailing, hnot⟩ := h
      exact ⟨hserving _ hrest, s, hs, (hsockets s (.inr (.inl hfailing))).trans hfailing,
        fun hmem => hnot (hwrite s hmem)⟩
  | closed i =>
      rw [hpc] at h
      obtain ⟨hrest, s, hs, hgone⟩ := h
      exact ⟨hserving _ hrest, s, hs, (hsockets s (.inr (.inr hgone))).trans hgone⟩

namespace Inv

variable {σ σ' : Server} {s : Nat}

theorem handled (h : Inv σ) (hs : σ.handling = some s) :
    σ.sockets s = failing ∨ σ.sockets s = gone := by
  have hreading := h.reading
  unfold Reading at hreading
  unfold Server.handling at hs
  cases hpc : σ.read with
  | failed i =>
      rw [hpc] at hs hreading
      obtain ⟨-, t, ht, hfailing, -⟩ := hreading
      cases hs.symm.trans ht
      exact .inl hfailing
  | closed i =>
      rw [hpc] at hs hreading
      obtain ⟨-, t, ht, hgone⟩ := hreading
      cases hs.symm.trans ht
      exact .inr hgone
  | top => rw [hpc] at hs; cases hs
  | wait => rw [hpc] at hs; cases hs
  | recv i => rw [hpc] at hs; cases hs
  | received i => rw [hpc] at hs; cases hs

theorem known (h : Inv σ) (hs : s ∈ σ.Client) (hne : s ≠ INVALID_SOCKET) :
    Known (σ.sockets s) := by
  rcases h.client s hs hne with hserving | hhandling
  · exact .inl hserving
  · exact .inr (h.handled hhandling)

/-- The invalid socket is never served. -/
theorem ne_invalid (h : Inv σ) (hs : Known (σ.sockets s)) : s ≠ INVALID_SOCKET := by
  rintro rfl
  obtain ⟨hopen, hfailed⟩ := h.invalid
  unfold Server.isOpen at hopen
  rcases hs with hs | hs | hs
  · rw [hs] at hopen
    cases hopen
  · rw [hs] at hopen
    cases hopen
  · rw [hs] at hfailed
    cases hfailed

theorem mem_client (h : Inv σ) (hs : σ.sockets s = serving) : s ∈ σ.Client := by
  by_contra hnot
  rcases h.outside s (h.ne_invalid (.inl hs)) hnot with he | ⟨he, -⟩ | he | he
  · cases hs.symm.trans he
  · cases hs.symm.trans he
  · cases hs.symm.trans he
  · cases hs.symm.trans he

theorem toContained (h : Inv σ) : Contained σ where
  write s hs := by
    rw [Server.isOpen, h.write s hs]
  once s hs := by
    by_cases hmem : s ∈ σ.Client
    · rcases h.known hmem hs with he | he | he <;> rw [he] <;> decide
    · rcases h.outside s hs hmem with he | ⟨he, -⟩ | he | he <;> rw [he] <;> decide
  others s hs htaken hfailed := by
    have hserving : σ.sockets s = serving := by
      by_cases hmem : s ∈ σ.Client
      · rcases h.known hmem hs with he | he | he
        · exact he
        · rw [he] at hfailed
          cases hfailed
        · rw [he] at hfailed
          cases hfailed
      · rcases h.outside s hs hmem with he | ⟨he, -⟩ | he | he
        · rw [he] at htaken
          cases htaken
        · rw [he] at htaken
          cases htaken
        · rw [he] at htaken
          cases htaken
        · rw [he] at hfailed
          cases hfailed
    exact ⟨by rw [Server.isOpen, hserving], h.mem_client hserving⟩
  closed s hfailed htop := by
    have hs : s ≠ INVALID_SOCKET := by
      rintro rfl
      rw [h.invalid.2] at hfailed
      cases hfailed
    have hhandling : σ.handling = none := by rw [Server.handling, htop]
    have hnot : s ∉ σ.Client := by
      intro hmem
      rcases h.client s hmem hs with he | he
      · rw [he] at hfailed
        cases hfailed
      · cases hhandling.symm.trans he
    refine ⟨?_, hnot⟩
    unfold Server.isOpen
    rcases h.outside s hs hnot with he | ⟨he, -⟩ | he | he
    · rw [he]
    · rw [he] at hfailed
      cases hfailed
    · rw [he]
    · rw [he]

/-- `ConnThread` changes the socket `c`, which no other thread knows. -/
theorem connect {c : Nat} (h : Inv σ) (hc : ¬ Known (σ.sockets c))
    (hpc : ∀ s, σ.conn = .add s → s = c) (hpc' : ∀ s, σ'.conn = .add s → s = c)
    (hnext : σ.next ≤ σ'.next) (hsockets : ∀ s ≠ c, σ'.sockets s = σ.sockets s)
    (hsub : σ.Client ⊆ σ'.Client)
    (hcount : ∀ s ≠ c, σ'.Client.count s = σ.Client.count s) (hfsRead : σ'.fsRead = σ.fsRead)
    (hfsWrite : σ'.fsWrite = σ.fsWrite) (hread : σ'.read = σ.read) (hsend : σ'.send = σ.send)
    (hinvalid : c = INVALID_SOCKET → σ'.isOpen c = false ∧ (σ'.sockets c).failed = false)
    (hself : c ≠ INVALID_SOCKET → c < σ'.next ∧
      ((c ∉ σ'.Client ∧ σ'.conn ≠ .add c ∧ σ'.sockets c = refused) ∨
        (c ∉ σ'.Client ∧ σ'.conn = .add c ∧ σ'.sockets c = arrived) ∨
        (σ'.Client.count c = 1 ∧ σ'.conn ≠ .add c ∧ σ'.sockets c = serving))) :
    Inv σ' := by
  have hmem : ∀ s ≠ c, (s ∈ σ'.Client ↔ s ∈ σ.Client) := by
    intro s hs
    rw [← List.count_pos_iff, ← List.count_pos_iff, hcount s hs]
  have hknown : ∀ s, Known (σ.sockets s) → σ'.sockets s = σ.sockets s :=
    fun s hs => hsockets s fun he => hc (he ▸ hs)
  have hhandling : σ'.handling = σ.handling := by
    rw [Server.handling, Server.handling, hread, hfsRead]
  refine ⟨Nat.lt_of_lt_of_le h.pos hnext, ?_, ?_, ?_, ?_, ?_, ?_, ?_, hfsRead ▸ h.nodup, ?_, ?_⟩
  · by_cases he : c = INVALID_SOCKET
    · exact he ▸ hinvalid he
    · rw [Server.isOpen, hsockets _ (Ne.symm he)]
      exact h.invalid
  · intro s hs
    have hne : s ≠ c := by
      rintro rfl
      have hpos : s ≠ INVALID_SOCKET := by
        have hpos := h.pos
        unfold INVALID_SOCKET
        omega
      have hlt := (hself hpos).1
      omega
    rw [hsockets s hne]
    exact h.fresh s (Nat.le_trans hnext hs)
  · intro s hs hne
    by_cases he : s = c
    · subst he
      obtain ⟨-, ⟨hnot, -⟩ | ⟨hnot, -⟩ | ⟨-, -, hserving⟩⟩ := hself hne
      · exact absurd hs hnot
      · exact absurd hs hnot
      · exact .inl hserving
    · rw [hsockets s he, hhandling]
      exact h.client s ((hmem s he).mp hs) hne
  · intro s hne hs
    by_cases he : s = c
    · subst he
      obtain ⟨-, ⟨-, -, hx⟩ | ⟨-, hadd, hx⟩ | ⟨hone, -⟩⟩ := hself hne
      · exact .inr (.inr (.inl hx))
      · exact .inr (.inl ⟨hx, hadd⟩)
      · rw [List.count_eq_zero_of_not_mem hs] at hone
        cases hone
    · rw [hsockets s he]
      rcases h.outside s hne (fun hs' => hs ((hmem s he).mpr hs')) with hx | ⟨-, hadd⟩ | hx
      · exact .inl hx
      · exact absurd (hpc s hadd) he
      · exact .inr (.inr hx)
  · intro s hne
    by_cases he : s = c
    · subst he
      obtain ⟨-, ⟨hnot, -⟩ | ⟨hnot, -⟩ | ⟨hone, -⟩⟩ := hself hne
      · rw [List.count_eq_zero_of_not_mem hnot]
        exact Nat.zero_le 1
      · rw [List.count_eq_zero_of_not_mem hnot]
        exact Nat.zero_le 1
      · exact Nat.le_of_eq hone
    · rw [hcount s he]
      exact h.count s hne
  · intro s hs
    rw [hfsWrite] at hs
    rw [hknown s (.inl (h.write s hs))]
    exact h.write s hs
  · intro s hadd hne
    obtain rfl := hpc' s hadd
    obtain ⟨-, ⟨-, hno, -⟩ | ⟨-, -, hx⟩ | ⟨-, hno, -⟩⟩ := hself hne
    · exact absurd hadd hno
    · exact hx
    · exact absurd hadd hno
  · exact h.reading.mono hread hfsRead (fun s hs => hfsWrite ▸ hs) hsub hknown
  · have hsending := h.sending
    unfold Sending at hsending ⊢
    rw [hsend]
    exact hsending

theorem connThread {o : Outcome} (h : Inv σ) (hstep : ConnThread σ o = some σ') : Inv σ' := by
  have hinvalid : ¬ Known (σ.sockets INVALID_SOCKET) := fun hknown => h.ne_invalid hknown rfl
  unfold ConnThread at hstep
  cases hpc : σ.conn with
  | wait =>
      rw [hpc] at hstep
      have hwait : Inv { σ with conn := .accept } :=
        h.connect hinvalid (by simp [hpc]) (by simp) (Nat.le_refl _) (fun _ _ => rfl)
          (List.Subset.refl _) (fun _ _ => rfl) rfl rfl rfl rfl (fun _ => h.invalid)
          fun he => absurd rfl he
      cases o with
      | ok => cases hstep; exact hwait
      | error => cases hstep; exact h
      | timeout => cases hstep; exact h
      | ready fs => cases hstep
  | accept =>
      rw [hpc] at hstep
      cases o with
      | ok =>
          cases hstep
          have hx := h.fresh σ.next (Nat.le_refl _)
          have hne : σ.next ≠ INVALID_SOCKET := Nat.ne_of_gt h.pos
          have hunknown : ¬ Known (σ.sockets σ.next) := by
            rw [hx]
            simp [Known]
          refine h.connect hunknown (by simp [hpc]) ?_ (Nat.le_succ _)
            (fun s hs => Function.update_of_ne hs _ _) (List.Subset.refl _) (fun _ _ => rfl)
            rfl rfl rfl rfl (fun he => absurd he hne) fun _ => ?_
          · intro s hs
            exact (ConnPc.add.inj hs).symm
          · refine ⟨Nat.lt_succ_self _, .inr (.inl ⟨?_, rfl, ?_⟩)⟩
            · exact fun hmem => hunknown (h.known hmem hne)
            · exact (Function.update_self ..).trans (by rw [hx])
      | error =>
          cases hstep
          refine h.connect hinvalid (by simp [hpc]) (fun s hs => (ConnPc.add.inj hs).symm)
            (Nat.le_refl _) (fun _ _ => rfl) (List.Subset.refl _) (fun _ _ => rfl) rfl rfl rfl rfl
            (fun _ => h.invalid) fun he => absurd rfl he
      | timeout => cases hstep
      | ready fs => cases hstep
  | add c =>
      rw [hpc] at hstep
      cases o with
      | ok =>
          cases hstep
          have hc : ¬ Known (σ.sockets c) := by
            by_cases he : c = INVALID_SOCKET
            · exact he ▸ hinvalid
            · rw [h.conn c hpc he]
              simp [Known]
          have hpc' : ∀ s, σ.conn = .add s → s = c := fun s hs =>
            (ConnPc.add.inj (hpc.symm.trans hs)).symm
          have hlt : c ≠ INVALID_SOCKET → c < σ.next := by
            intro hne
            by_contra hge
            have hx := (h.fresh c (Nat.le_of_not_lt hge)).symm.trans (h.conn c hpc hne)
            cases hx
          have hnot : c ≠ INVALID_SOCKET → c ∉ σ.Client := fun hne hmem => hc (h.known hmem hne)
          unfold Server.Add_Client
          split
          · refine h.connect hc hpc' (by simp) (Nat.le_refl _)
              (fun s hs => Function.update_of_ne hs _ _) (List.Subset.refl _) (fun _ _ => rfl)
              rfl rfl rfl rfl (fun he => ?_) fun hne => ⟨hlt hne, .inl ⟨hnot hne, by simp, ?_⟩⟩
            · subst he
              simp [Server.isOpen, Server.closesocket, Server.set, h.invalid.2]
            · refine (Function.update_self ..).trans ?_
              rw [h.conn c hpc hne]
          · refine h.connect hc hpc' (by simp) (Nat.le_refl _)
              (fun s hs => Function.update_of_ne hs _ _) (List.subset_append_left _ _)
              (fun s hs => ?_) rfl rfl rfl rfl (fun he => ?_)
              fun hne => ⟨hlt hne, .inr (.inr ⟨?_, by simp, ?_⟩)⟩
            · simp [List.count_append, Ne.symm hs]
            · subst he
              have hopen : (σ.sockets INVALID_SOCKET).isOpen = false := h.invalid.1
              simp [Server.isOpen, Server.set, h.invalid.2, hopen]
            · simp [List.count_append, List.count_eq_zero_of_not_mem (hnot hne)]
            · refine (Function.update_self ..).trans ?_
              rw [h.conn c hpc hne]
      | error => cases hstep
      | timeout => cases hstep
      | ready fs => cases hstep

/-- `SendThread` only takes sockets out of `fsWrite`. -/
theorem sendThread {o : Outcome} (h : Inv σ) (ho : o ≠ .error)
    (hstep : SendThread σ o = some σ') : Inv σ' := by
  have hkeep : ∀ pc, Sending { σ with send := pc } → Inv { σ with send := pc } :=
    fun pc hpc => ⟨h.pos, h.invalid, h.fresh, h.client, h.outside, h.count, h.write, h.conn,
      h.nodup, h.reading, hpc⟩
  have hsending := h.sending
  unfold SendThread at hstep
  unfold Sending at hsending
  cases hpc : σ.send with
  | top =>
      rw [hpc] at hstep
      cases o with
      | ok =>
          cases hstep
          split
          · exact h
          · exact hkeep _ trivial
      | error => exact absurd rfl ho
      | timeout => cases hstep
      | ready fs => cases hstep
  | wait fs =>
      rw [hpc] at hstep
      cases o with
      | ok => cases hstep
      | error => exact absurd rfl ho
      | timeout =>
          obtain ⟨-, ht⟩ := Option.ite_none_right_eq_some.mp hstep
          cases ht
          exact hkeep _ trivial
      | ready fs' =>
          obtain ⟨-, ht⟩ := Option.ite_none_right_eq_some.mp hstep
          cases ht
          exact hkeep _ trivial
  | send fs =>
      rw [hpc] at hstep
      cases fs with
      | nil =>
          cases o with
          | ok => cases hstep; exact hkeep _ trivial
          | error => exact absurd rfl ho
          | timeout => cases hstep
          | ready fs => cases hstep
      | cons s fs =>
          cases o with
          | ok =>
              obtain ⟨-, ht⟩ := Option.ite_none_right_eq_some.mp hstep
              cases ht
              exact hkeep _ trivial
          | error => exact absurd rfl ho
          | timeout => cases hstep
          | ready fs => cases hstep
  | sent s fs =>
      rw [hpc] at hstep
      cases o with
      | ok =>
          cases hstep
          have hsub : ∀ t ∈ FD_CLR s σ.fsWrite, t ∈ σ.fsWrite := fun t => List.mem_of_mem_erase
          exact ⟨h.pos, h.invalid, h.fresh, h.client, h.outside, h.count,
            fun t ht => h.write t (hsub t ht), h.conn, h.nodup,
            h.reading.mono rfl rfl hsub (fun _ => id) fun _ _ => rfl, trivial⟩
      | error => exact absurd rfl ho
      | timeout => cases hstep
      | ready fs => cases hstep
  | failed s fs => rw [hpc] at hsending; exact hsending.elim
  | closed s fs => rw [hpc] at hsending; exact hsending.elim
  | dropping fs => rw [hpc] at hsending; exact hsending.elim
  | dropped s fs => rw [hpc] at hsending; exact hsending.elim
  | removed s fs => rw [hpc] at hsending; exact hsending.elim

theorem look {p : ReadPc} {fs : FdSet} (h : Inv σ) (hnone : σ.handling = none)
    (hfs : fs.Nodup) (hreading : Reading { σ with read := p, fsRead := fs }) :
    Inv { σ with read := p, fsRead := fs } := by
  refine ⟨h.pos, h.invalid, h.fresh, fun s hs hne => ?_, h.outside, h.count, h.write, h.conn,
    hfs, hreading, h.sending⟩
  rcases h.client s hs hne with hserving | hhandling
  · exact .inl hserving
  · cases hnone.symm.trans hhandling

theorem handle {x : Socket} {pc : ReadPc} (h : Inv σ)
    (hs : σ.sockets s = serving ∨ σ.sockets s = failing) (hwrite : s ∉ σ.fsWrite)
    (hhandling : ∀ t, σ.handling = some t → t = s)
    (hhandling' : { σ.set s x with read := pc }.handling = some s)
    (hreading : Reading { σ.set s x with read := pc }) : Inv { σ.set s x with read := pc } := by
  have hne := h.ne_invalid (hs.imp_right .inl)
  have hvalue : ∀ y, σ.sockets s = y → y = serving ∨ y = failing := fun y hy => hy ▸ hs
  have hother : ∀ t ≠ s, (σ.set s x).sockets t = σ.sockets t :=
    fun t ht => Function.update_of_ne ht _ _
  have hself : (σ.set s x).sockets s = x := Function.update_self _ _ _
  refine ⟨h.pos, ?_, ?_, ?_, ?_, h.count, ?_, ?_, h.nodup, hreading, h.sending⟩
  · change ((σ.set s x).sockets INVALID_SOCKET).isOpen = false ∧
      ((σ.set s x).sockets INVALID_SOCKET).failed = false
    rw [hother _ (Ne.symm hne)]
    exact h.invalid
  · intro t ht
    have hts : t ≠ s := by
      rintro rfl
      exact absurd (hvalue _ (h.fresh t ht)) (by decide)
    exact (hother t hts).trans (h.fresh t ht)
  · intro t ht htne
    by_cases hts : t = s
    · exact .inr (hts ▸ hhandling')
    · rcases h.client t ht htne with hserving | ht'
      · exact .inl ((hother t hts).trans hserving)
      · exact absurd (hhandling t ht') hts
  · intro t htne ht
    by_cases hts : t = s
    · subst hts
      rcases h.outside t htne ht with he | ⟨he, -⟩ | he | he
      · exact absurd (hvalue _ he) (by decide)
      · exact absurd (hvalue _ he) (by decide)
      · exact absurd (hvalue _ he) (by decide)
      · exact absurd (hvalue _ he) (by decide)
    · exact (hother t hts).symm ▸ h.outside t htne ht
  · intro t ht
    have hts : t ≠ s := fun he => hwrite (he ▸ ht)
    exact (hother t hts).trans (h.write t ht)
  · intro t ht htne
    have hts : t ≠ s := by
      rintro rfl
      exact absurd (hvalue _ (h.conn t ht htne)) (by decide)
    exact (hother t hts).trans (h.conn t ht htne)

/-- `Remove_Client` and `FD_CLR` of the client `s`, whose error has been handled. -/
theorem remove {i : Nat} (h : Inv σ) (hs : σ.fsRead[i]? = some s) (hgone : σ.sockets s = gone)
    (hhandling : σ.handling = some s)
    (hrest : ∀ t ∈ σ.fsRead.drop (i + 1), σ.sockets t = serving) :
    Inv { σ.Remove_Client s with fsRead := FD_CLR s σ.fsRead, read := .recv (i + 1) } := by
  have hne := h.ne_invalid (.inr (.inr hgone))
  have hsockets : (σ.Remove_Client s) = { σ with Client := (σ.Remove_Client s).Client } := by
    unfold Server.Remove_Client
    split
    · split <;> rfl
    · rfl
  have hperm := perm_Remove_Client (σ := σ) (s := s)
  rw [hsockets]
  have hnot : s ∉ (σ.Remove_Client s).Client := by
    rw [hperm.mem_iff, ← List.count_pos_iff, List.count_erase_self]
    have hcount := h.count s hne
    omega
  have hmem : ∀ t ≠ s, (t ∈ (σ.Remove_Client s).Client ↔ t ∈ σ.Client) := by
    intro t ht
    rw [hperm.mem_iff, List.mem_erase_of_ne ht]
  refine ⟨h.pos, h.invalid, h.fresh, ?_, ?_, ?_, h.write, h.conn, ?_, ?_, h.sending⟩
  · intro t ht htne
    have hts : t ≠ s := fun he => hnot (he ▸ ht)
    rcases h.client t ((hmem t hts).mp ht) htne with hserving | ht'
    · exact .inl hserving
    · exact absurd (Option.some.inj (ht'.symm.trans hhandling)) hts
  · intro t htne ht
    by_cases hts : t = s
    · exact .inr (.inr (.inr (hts ▸ hgone)))
    · exact h.outside t htne fun ht' => ht ((hmem t hts).mpr ht')
  · intro t htne
    exact Nat.le_trans (hperm.count_eq t ▸ (List.erase_sublist.count_le t)) (h.count t htne)
  · exact h.nodup.erase s
  · exact fun t ht => hrest t (mem_drop_FD_CLR h.nodup hs ht)

theorem drop_eq {i : Nat} (h : Inv σ) (hs : σ.fsRead[i]? = some s) :
    σ.fsRead.drop i = s :: σ.fsRead.drop (i + 1) ∧ s ∉ σ.fsRead.drop (i + 1) := by
  obtain ⟨hi, hget⟩ := List.getElem?_eq_some_iff.mp hs
  have hdrop : σ.fsRead.drop i = s :: σ.fsRead.drop (i + 1) := by
    rw [← hget]
    exact List.drop_eq_getElem_cons hi
  have hnodup := hdrop ▸ h.nodup.sublist (List.drop_sublist i _)
  exact ⟨hdrop, (List.nodup_cons.mp hnodup).1⟩

theorem recv {i : Nat} {o : Outcome} (h : Inv σ) (hpc : σ.read = .recv i)
    (ho : o = .error → ∀ s ∈ σ.reading, s ∉ σ.fsWrite) (hstep : ReadThread σ o = some σ') :
    Inv σ' := by
  have hreading : ∀ s ∈ σ.fsRead.drop i, σ.sockets s = serving := by
    have hreading := h.reading
    rwa [Reading, hpc] at hreading
  have hnone : σ.handling = none := by rw [Server.handling, hpc]
  unfold ReadThread at hstep
  rw [hpc] at hstep
  cases hs : σ.fsRead[i]? with
  | none =>
      cases o with
      | ok =>
          simp only [hs] at hstep
          cases hstep
          exact h.look hnone h.nodup trivial
      | error => simp only [hs] at hstep; cases hstep
      | timeout => cases hstep
      | ready fs => cases hstep
  | some s =>
      obtain ⟨hdrop, hnot⟩ := h.drop_eq hs
      obtain ⟨hserving, hrest⟩ := List.forall_mem_cons.mp (hdrop ▸ hreading)
      cases o with
      | ok =>
          simp only [hs] at hstep
          obtain ⟨-, ht⟩ := Option.ite_none_right_eq_some.mp hstep
          cases ht
          exact h.look hnone h.nodup hreading
      | error =>
          simp only [hs] at hstep
          cases hstep
          have hwrite : s ∉ σ.fsWrite := ho rfl s (by rw [Server.reading, hpc]; exact hs)
          have hx : { σ.sockets s with failed := true } = failing := by rw [hserving]
          unfold Server.fail
          rw [hx]
          refine h.handle (.inl hserving) hwrite (fun t ht => ?_) hs
            ⟨fun t ht => ?_, s, hs, Function.update_self _ _ _, hwrite⟩
          · cases hnone.symm.trans ht
          · have hts : t ≠ s := fun he => hnot (he ▸ ht)
            exact (Function.update_of_ne hts _ _).trans (hrest t ht)
      | timeout => cases hstep
      | ready fs => cases hstep

theorem received {i : Nat} (h : Inv σ) (hpc : σ.read = .received i)
    (hs : σ.fsRead[i]? = some s) : Inv { σ.Set_Write_SET s with read := .recv (i + 1) } := by
  have hreading : ∀ s ∈ σ.fsRead.drop i, σ.sockets s = serving := by
    have hreading := h.reading
    rwa [Reading, hpc] at hreading
  obtain ⟨hdrop, -⟩ := h.drop_eq hs
  obtain ⟨hserving, hrest⟩ := List.forall_mem_cons.mp (hdrop ▸ hreading)
  have hnone : σ.handling = none := by rw [Server.handling, hpc]
  refine ⟨h.pos, h.invalid, h.fresh, fun t ht htne => ?_, h.outside, h.count, fun t ht => ?_,
    h.conn, h.nodup, hrest, h.sending⟩
  · rcases h.client t ht htne with hserving | ht'
    · exact .inl hserving
    · cases hnone.symm.trans ht'
  · rcases mem_FD_SET ht with rfl | ht
    · exact hserving
    · exact h.write t ht

theorem failed {i : Nat} (h : Inv σ) (hpc : σ.read = .failed i) (hs : σ.fsRead[i]? = some s) :
    Inv { σ.closesocket s with read := .closed i } := by
  obtain ⟨hrest, t, ht, hfailing, hwrite⟩ : (∀ s ∈ σ.fsRead.drop (i + 1), σ.sockets s = serving) ∧
      ∃ s, σ.fsRead[i]? = some s ∧ σ.sockets s = failing ∧ s ∉ σ.fsWrite := by
    have hreading := h.reading
    rwa [Reading, hpc] at hreading
  cases hs.symm.trans ht
  have hhandling : σ.handling = some s := by rw [Server.handling, hpc]; exact hs
  have hx : { σ.sockets s with
      isOpen := false, closes := (σ.sockets s).closes + 1 } = gone := by rw [hfailing]
  unfold Server.closesocket
  rw [hx]
  refine h.handle (.inr hfailing) hwrite (fun t ht => ?_) hs ⟨fun t ht => ?_, s, hs, ?_⟩
  · exact Option.some.inj (ht.symm.trans hhandling)
  · have hts : t ≠ s := fun he => (h.drop_eq hs).2 (he ▸ ht)
    exact (Function.update_of_ne hts _ _).trans (hrest t ht)
  · exact Function.update_self _ _ _

theorem readThread {o : Outcome} (h : Inv σ) (ho : o = .error → ∀ s ∈ σ.reading, s ∉ σ.fsWrite)
    (hstep : ReadThread σ o = some σ') : Inv σ' := by
  cases hpc : σ.read with
  | top =>
      unfold ReadThread at hstep
      rw [hpc] at hstep
      have hnone : σ.handling = none := by rw [Server.handling, hpc]
      cases o with
      | ok =>
          cases hstep
          obtain ⟨hnodup, hmem⟩ := foldl_FD_SET (l := σ.Client) List.nodup_nil
          split
          · refine h.look (p := σ.read) hnone hnodup ?_
            rw [Reading, hpc]
            trivial
          · refine h.look hnone hnodup fun s hs => ?_
            exact (hmem s hs).resolve_left List.not_mem_nil
      | error => cases hstep
      | timeout => cases hstep
      | ready fs => cases hstep
  | wait =>
      have hreading : ∀ s ∈ σ.fsRead, s ∈ σ.Client := by
        have hreading := h.reading
        rwa [Reading, hpc] at hreading
      unfold ReadThread at hstep
      rw [hpc] at hstep
      have hnone : σ.handling = none := by rw [Server.handling, hpc]
      have htop := h.look (p := .top) hnone h.nodup trivial
      cases o with
      | ok => cases hstep
      | error => cases hstep; exact htop
      | timeout =>
          obtain ⟨-, ht⟩ := Option.ite_none_right_eq_some.mp hstep
          cases ht
          exact htop
      | ready fs =>
          obtain ⟨⟨hopen, hsub, -⟩, ht⟩ := Option.ite_none_right_eq_some.mp hstep
          cases ht
          refine h.look hnone (h.nodup.sublist hsub) fun s hs => ?_
          have hs' := hsub.subset hs
          have hne : s ≠ INVALID_SOCKET := by
            rintro rfl
            cases h.invalid.1.symm.trans (hopen _ hs')
          rcases h.client s (hreading s hs') hne with hserving | hs''
          · exact hserving
          · cases hnone.symm.trans hs''
  | recv i => exact h.recv hpc ho hstep
  | received i =>
      unfold ReadThread at hstep
      rw [hpc] at hstep
      cases o with
      | ok =>
          obtain ⟨s, hs, ht⟩ := Option.bind_eq_some_iff.mp hstep
          cases ht
          exact h.received hpc hs
      | error => cases hstep
      | timeout => cases hstep
      | ready fs => cases hstep
  | failed i =>
      unfold ReadThread at hstep
      rw [hpc] at hstep
      cases o with
      | ok =>
          obtain ⟨s, hs, ht⟩ := Option.bind_eq_some_iff.mp hstep
          cases ht
          exact h.failed hpc hs
      | error => cases hstep
      | timeout => cases hstep
      | ready fs => cases hstep
  | closed i =>
      unfold ReadThread at hstep
      rw [hpc] at hstep
      cases o with
      | ok =>
          obtain ⟨s, hs, ht⟩ := Option.bind_eq_some_iff.mp hstep
          cases ht
          obtain ⟨hrest, t, ht, hgone⟩ : (∀ s ∈ σ.fsRead.drop (i + 1), σ.sockets s = serving) ∧
              ∃ s, σ.fsRead[i]? = some s ∧ σ.sockets s = gone := by
            have hreading := h.reading
            rwa [Reading, hpc] at hreading
          cases hs.symm.trans ht
          exact h.remove hs hgone (by rw [Server.handling, hpc]; exact hs) hrest
      | error => cases hstep
      | timeout => cases hstep
      | ready fs => cases hstep

theorem step {a : Action} (h : Inv σ) (ha : Calm σ a)
    (hstep : SelectServer.step σ a = some σ') : Inv σ' := by
  cases a with
  | conn o => exact h.connThread hstep
  | read o =>
      refine h.readThread ?_ hstep
      rintro rfl
      exact ha
  | send o =>
      refine h.sendThread ?_ hstep
      rintro rfl
      exact ha

end Inv

theorem inv_start : Inv start where
  pos := Nat.one_pos
  invalid := ⟨rfl, rfl⟩
  fresh _ _ := rfl
  client _ hs := by cases hs
  outside _ _ _ := .inl rfl
  count _ _ := Nat.zero_le 1
  write _ hs := by cases hs
  conn _ hs := by cases hs
  nodup := List.nodup_nil
  reading := trivial
  sending := trivial

/-- In a run in which neither `send` nor the `select` before it fails, and `recv` fails only
on clients that are not in `fsWrite`, an error on one client closes this client only. -/
theorem contained {σ : Server} (h : Via step Calm start σ) : Contained σ :=
  (h.invariant inv_start fun _ _ _ ih ha hs => ih.step ha hs).toContained

/-- `n` clients come. -/
def accepts (n : Nat) : List Action :=
  (List.replicate n [Action.conn .ok, .conn .ok, .conn .ok]).flatten

/-- The second of two clients fails. -/
theorem contained_two : ∃ σ, Via step Calm start σ ∧ σ.Client = [1] ∧
    (σ.sockets 2).failed = true ∧ Contained σ := by
  have hrun : ∃ σ, Via step Calm start σ ∧ σ.Client = [1] ∧ (σ.sockets 2).failed = true :=
    exists_via_of_execIf (List.flatten [
      accepts 2,
      [.read .ok, .read (.ready [1, 2]), .read .ok, .read .ok, .send .ok, .read .error,
        .send (.ready [1]), .send .ok, .read .ok, .read .ok, .send .ok]])
      (by decide +kernel)
  obtain ⟨σ, hσ, hclient, hfailed⟩ := hrun
  exact ⟨σ, hσ, hclient, hfailed, contained hσ⟩

/-- A client to which `send` has failed stays in `fsWrite`; when something is to be sent to
another one, `select` fails, and this one is closed as well. -/
theorem not_contained : ¬ ∀ σ, Via step (fun _ _ => True) start σ → Contained σ := by
  intro h
  have hrun : ∃ σ, Via step (fun _ _ => True) start σ ∧ (σ.sockets 2).taken = true ∧
      (σ.sockets 2).failed = false ∧ σ.isOpen 2 = false :=
    exists_via_of_execIf (List.flatten [
      accepts 2,
      [.read .ok, .read (.ready [1]), .read .ok, .read .ok, .read .ok, .send .ok,
        .send (.ready [1]), .send .error, .send .ok, .send .ok, .send .ok,
        .read .ok, .read (.ready [2]), .read .ok, .read .ok, .read .ok,
        .send .ok, .send .error, .send .ok, .send .ok, .send .ok, .send .ok]]) (by decide +kernel)
  obtain ⟨σ, hσ, htaken, hfailed, hclosed⟩ := hrun
  have hothers := (h σ hσ).others 2 (by decide) htaken hfailed
  rw [hclosed] at hothers
  cases hothers.1

end CppWorkspace.SelectServer
