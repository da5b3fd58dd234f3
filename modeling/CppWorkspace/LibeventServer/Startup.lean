/-
# `CppWorkspace.LibeventServer.Startup` — `StartServer` and `StopServer`, call by call

`StartServer` makes an event base, a listener, an array of workers, and for each
worker an event base, a list of `connnum + 1` `Conn`s with a bufferevent each, and
a thread; then the thread of the server.  Each of these calls may fail, and the
failures have exits of their own:

    the server's event base, the listener, a `ConnList`, a bufferevent,
    the server's thread                 `return false`
    the event base of a worker          `delete[] pWorker`, `return false`
    the thread of a worker              not checked

No exit releases anything else, and `bStart` stays `false`, so that `StopServer`
does nothing.  A failed start has left nothing behind if and only if nothing had
been made before (`failed_start_iff`).  When the base of the `k`-th worker fails,
the threads of the workers before it run on an array that is deleted
(`threads_on_deleted`).  A start that succeeds is undone by `StopServer`
(`stop_releases`).

What the functions do is written down as a list of actions.  `g` numbers the calls
of `StartServer`, and stands for the addresses that the call has got.

Left out: the parameters that are only stored (`nPort`, the timeouts) and what a
`Conn` contains; `connnum` is below 2³¹, so that `j` counts up to it.
-/
import Mathlib.Data.List.Perm.Basic
import Mathlib.Algebra.Order.Ring.Int

namespace CppWorkspace.LibeventServer.Startup

/-! ## Calls and what they make -/

/-- What `StartServer` allocates. -/
inductive Res
  | base
  | listener
  | workers
  | workerBase (i : Nat)
  | connList (i : Nat)
  | conns (i : Nat)
  | bufev (i j : Nat)
deriving DecidableEq, Repr

/-- `ThreadServer` and `ThreadWorkers`. -/
inductive Thread
  | server
  | worker (i : Nat)
deriving DecidableEq, Repr

/-- What a thread works on. -/
def Thread.uses : Thread → List Res
  | .server => [.base, .listener]
  | .worker i => [.workers, .workerBase i]

/-- What is done to a resource or a thread of the start `g`. -/
inductive Action
  | new (g : Nat) (r : Res)
  | free (g : Nat) (r : Res)
  | run (g : Nat) (t : Thread)
  | join (g : Nat) (t : Thread)
deriving DecidableEq, Repr

/-- Which calls succeed. -/
structure Calls where
  event_base_new : Bool
  evconnlistener_new_bind : Bool
  worker_event_base_new : Nat → Bool
  new_ConnList : Nat → Bool
  bufferevent_socket_new : Nat → Nat → Bool
  worker_CreateThread : Nat → Bool
  CreateThread : Bool

/-- A `_Worker`; a pointer is the call of `StartServer` that has set it. -/
structure Worker where
  pWokerbase : Option Nat
  hThread : Option Nat
  pListConn : Option Nat
deriving DecidableEq

/-- The members that `StartServer` and `StopServer` read. -/
structure Server where
  bStart : Bool
  nCurrentWorker : Nat
  workernum : Int
  connnum : Nat
  pListener : Option Nat
  pBase : Option Nat
  hThread : Option Nat
  pWorker : Option (Nat × List Worker)
deriving DecidableEq

/-- After `ZeroMemory`. -/
def Server.zero : Server where
  bStart := false
  nCurrentWorker := 0
  workernum := 0
  connnum := 0
  pListener := none
  pBase := none
  hThread := none
  pWorker := none

/-! ## `StartServer` -/

section
variable (g : Nat) (c : Calls)

/-- The loop over the `Conn`s of a worker. -/
def newBufevs (i : Nat) : List Nat → Bool × List Action
  | [] => (true, [])
  | j :: js =>
      if c.bufferevent_socket_new i j then
        ((newBufevs i js).1, .new g (.bufev i j) :: (newBufevs i js).2)
      else (false, [])

/-- `CreateThread(NULL,0,ThreadWorkers,…)`, whose result is not looked at. -/
def startThread (i : Nat) : List Action :=
  if c.worker_CreateThread i then [.run g (.worker i)] else []

/-- The loop over the workers. -/
def startWorkers (connnum : Nat) : List Nat → Bool × List Action
  | [] => (true, [])
  | i :: is =>
      if c.worker_event_base_new i = false then (false, [.free g .workers])
      else if c.new_ConnList i = false then (false, [.new g (.workerBase i)])
      else
        let made := [.new g (.workerBase i), .new g (.connList i), .new g (.conns i)]
          ++ (newBufevs g c i (List.range (connnum + 1))).2
        if (newBufevs g c i (List.range (connnum + 1))).1 then
          ((startWorkers connnum is).1, made ++ startThread g c i ++ (startWorkers connnum is).2)
        else (false, made)

/-- The array of workers, as far as `StopServer` reads it. -/
def workersMade (n : Nat) : List Worker :=
  (List.range n).map fun i =>
    { pWokerbase := some g, hThread := if c.worker_CreateThread i then some g else none,
      pListConn := some g }

/-- What a call of `StartServer` or `StopServer` returns, leaves, and has done. -/
structure Outcome where
  returns : Bool
  server : Server
  actions : List Action

/-- `StartServer`; `none` if `new` throws, for a negative number of workers. -/
def StartServer (workernum : Int) (connnum : Nat) (m : Server) : Option Outcome :=
  let m := { m with
    bStart := false, nCurrentWorker := 0, workernum := workernum, connnum := connnum }
  if c.event_base_new = false then some ⟨false, { m with pBase := none }, []⟩
  else
    let m := { m with pBase := some g }
    if c.evconnlistener_new_bind = false then
      some ⟨false, { m with pListener := none }, [.new g .base]⟩
    else
      let m := { m with pListener := some g }
      let made := [.new g .base, .new g .listener, .new g .workers]
      if workernum < 0 then none
      else
        -- after a failure the array is not read again
        let m := { m with pWorker := some (g, workersMade g c workernum.toNat) }
        let w := startWorkers g c connnum (List.range workernum.toNat)
        if w.1 = false then some ⟨false, m, made ++ w.2⟩
        else if c.CreateThread = false then
          some ⟨false, { m with hThread := none }, made ++ w.2⟩
        else
          some ⟨true, { m with hThread := some g, bStart := true },
            made ++ w.2 ++ [.run g .server]⟩

end

/-! ## `StopServer` -/

/-- `WaitForSingleObject`; it fails for a handle that is `NULL`. -/
def waitThread (h : Option Nat) (t : Thread) : List Action := (h.map fun g => .join g t).toList

/-- The release of a pointer that is not `NULL`. -/
def release (p : Option Nat) (r : Res) : List Action := (p.map fun g => .free g r).toList

/-- The second loop of `StopServer` at worker `i`; `delete[] plistConn` runs the destructors
of the `Conn`s. -/
def stopWorker (connnum : Nat) (w : Worker × Nat) : List Action :=
  (List.range (connnum + 1)).flatMap (fun j => release w.1.pListConn (.bufev w.2 j))
    ++ release w.1.pListConn (.conns w.2) ++ release w.1.pListConn (.connList w.2)
    ++ release w.1.pWokerbase (.workerBase w.2)

/-- The workers with their places. -/
def placed (ws : List Worker) : List (Worker × Nat) := ws.zipIdx

def StopServer (m : Server) : Outcome :=
  if m.bStart = false then ⟨true, m, []⟩
  else
    ⟨true, { m with bStart := false, pWorker := none },
      waitThread m.hThread .server
        ++ (match m.pWorker with
          | none => []
          | some (g, ws) =>
              (placed ws).flatMap (fun w => waitThread w.1.hThread (.worker w.2))
                ++ (placed ws).flatMap (stopWorker m.connnum) ++ [.free g .workers])
        ++ release m.pListener .listener ++ release m.pBase .base⟩

/-! ## What a failed start has to leave -/

/-- A call of `StartServer`, or of `StopServer`. -/
inductive Request
  | start (g : Nat) (c : Calls) (workernum : Int) (connnum : Nat)
  | stop

def Request.handle : Request → Server → Option Outcome
  | .start g c workernum connnum, m => StartServer g c workernum connnum m
  | .stop, m => some (StopServer m)

/-- What is returned and done on the requests; nothing is served after a throw. -/
def serve : Server → List Request → List (Option (Bool × List Action))
  | _, [] => []
  | m, q :: qs =>
      match q.handle m with
      | none => [none]
      | some o => some (o.returns, o.actions) :: serve o.server qs

/-- The object does on all requests what a new one does. -/
def AsFresh (m : Server) : Prop := ∀ qs : List Request, serve m qs = serve .zero qs

/-- A start that has failed leaves nothing behind. -/
structure CleanFailure (o : Outcome) : Prop where
  /-- A thread has ended, or `StopServer` will end it and what it uses is there. -/
  threads : ∀ g t, Action.run g t ∈ o.actions → Action.join g t ∈ o.actions
    ∨ o.server.bStart = true ∧ ∀ r ∈ t.uses, Action.free g r ∉ o.actions
  released : ∀ g r, Action.new g r ∈ o.actions → o.actions.count (.free g r) = 1
  fresh : AsFresh o.server

/-- The calls for worker `i` that are checked succeed. -/
structure Calls.Fills (c : Calls) (connnum i : Nat) : Prop where
  base : c.worker_event_base_new i = true
  list : c.new_ConnList i = true
  bufevs : ∀ j ≤ connnum, c.bufferevent_socket_new i j = true

/-- A call that is checked fails, after the server's event base was made. -/
def Calls.FailsLater (c : Calls) (workernum : Int) (connnum : Nat) : Prop :=
  c.evconnlistener_new_bind = false
    ∨ 0 ≤ workernum ∧ ((∃ i < workernum.toNat, ¬ c.Fills connnum i) ∨ c.CreateThread = false)

/-! ## The exits -/

section
variable (g : Nat) (c : Calls) (workernum : Int) (connnum : Nat) (m : Server)

/-- The parameters are stored. -/
def begun : Server :=
  { m with bStart := false, nCurrentWorker := 0, workernum := workernum, connnum := connnum }

/-- Event base, listener and array are there. -/
def filled : Server :=
  { begun workernum connnum m with
    pBase := some g
    pListener := some g
    pWorker := some (g, workersMade g c workernum.toNat) }

/-- What was done up to the end of the loop. -/
def filling : List Action :=
  [.new g .base, .new g .listener, .new g .workers]
    ++ (startWorkers g c connnum (List.range workernum.toNat)).2

/-- The exits of `StartServer`. -/
inductive Exits : Option Outcome → Prop
  | noBase (h : c.event_base_new = false) :
      Exits (some ⟨false, { begun workernum connnum m with pBase := none }, []⟩)
  | noListener (hb : c.event_base_new = true) (h : c.evconnlistener_new_bind = false) :
      Exits (some ⟨false, { begun workernum connnum m with pBase := some g, pListener := none },
        [.new g .base]⟩)
  | throws (hl : c.evconnlistener_new_bind = true) (h : workernum < 0) : Exits none
  | noWorker (hb : c.event_base_new = true) (hn : 0 ≤ workernum)
      (h : (startWorkers g c connnum (List.range workernum.toNat)).1 = false) :
      Exits (some ⟨false, filled g c workernum connnum m, filling g c workernum connnum⟩)
  | noThread (hb : c.event_base_new = true) (hn : 0 ≤ workernum)
      (hw : (startWorkers g c connnum (List.range workernum.toNat)).1 = true)
      (h : c.CreateThread = false) :
      Exits (some ⟨false, { filled g c workernum connnum m with hThread := none },
        filling g c workernum connnum⟩)
  | started (hb : c.event_base_new = true) (hl : c.evconnlistener_new_bind = true)
      (hw : (startWorkers g c connnum (List.range workernum.toNat)).1 = true)
      (h : c.CreateThread = true) :
      Exits (some ⟨true,
        { filled g c workernum connnum m with hThread := some g, bStart := true },
        filling g c workernum connnum ++ [.run g .server]⟩)

theorem startServer_exits :
    Exits g c workernum connnum m (StartServer g c workernum connnum m) := by
  unfold StartServer
  by_cases hbase : c.event_base_new = false
  · simp only [if_pos hbase]
    exact .noBase hbase
  simp only [if_neg hbase]
  have hb := Bool.eq_true_of_not_eq_false hbase
  by_cases hlistener : c.evconnlistener_new_bind = false
  · simp only [if_pos hlistener]
    exact .noListener hb hlistener
  simp only [if_neg hlistener]
  by_cases hneg : workernum < 0
  · simp only [if_pos hneg]
    exact .throws (Bool.eq_true_of_not_eq_false hlistener) hneg
  simp only [if_neg hneg]
  by_cases hworkers : (startWorkers g c connnum (List.range workernum.toNat)).1 = false
  · simp only [if_pos hworkers]
    exact .noWorker hb (Int.not_lt.mp hneg) hworkers
  simp only [if_neg hworkers]
  have hw := Bool.eq_true_of_not_eq_false hworkers
  by_cases hthread : c.CreateThread = false
  · simp only [if_pos hthread]
    exact .noThread hb (Int.not_lt.mp hneg) hw hthread
  · simp only [if_neg hthread]
    exact .started hb (Bool.eq_true_of_not_eq_false hlistener) hw
      (Bool.eq_true_of_not_eq_false hthread)

end

/-! ## An object that is not started is as good as new -/

/-- Nothing tells the two objects apart. -/
def Alike (m m' : Server) : Prop := m = m' ∨ m.bStart = false ∧ m'.bStart = false

section
variable {g i : Nat} {c : Calls} {workernum : Int} {connnum : Nat} {m m' : Server} {o : Outcome}

theorem startServer_alike (g : Nat) (c : Calls) (workernum : Int) (connnum : Nat)
    (m m' : Server) :
    StartServer g c workernum connnum m = none ∧ StartServer g c workernum connnum m' = none
      ∨ ∃ o o', StartServer g c workernum connnum m = some o
        ∧ StartServer g c workernum connnum m' = some o'
        ∧ o.returns = o'.returns ∧ o.actions = o'.actions ∧ Alike o.server o'.server := by
  unfold StartServer
  split
  · exact .inr ⟨_, _, rfl, rfl, rfl, rfl, .inr ⟨rfl, rfl⟩⟩
  simp only
  split
  · exact .inr ⟨_, _, rfl, rfl, rfl, rfl, .inr ⟨rfl, rfl⟩⟩
  split
  · exact .inl ⟨rfl, rfl⟩
  split
  · exact .inr ⟨_, _, rfl, rfl, rfl, rfl, .inr ⟨rfl, rfl⟩⟩
  split
  · exact .inr ⟨_, _, rfl, rfl, rfl, rfl, .inr ⟨rfl, rfl⟩⟩
  · exact .inr ⟨_, _, rfl, rfl, rfl, rfl, .inl rfl⟩

theorem stopServer_alike (h : Alike m m') :
    (StopServer m).returns = (StopServer m').returns
      ∧ (StopServer m).actions = (StopServer m').actions
      ∧ Alike (StopServer m).server (StopServer m').server := by
  rcases h with rfl | ⟨h, h'⟩
  · exact ⟨rfl, rfl, .inl rfl⟩
  · simp only [StopServer, if_pos h, if_pos h']
    exact ⟨trivial, trivial, .inr ⟨h, h'⟩⟩

theorem serve_alike (qs : List Request) : ∀ {m m' : Server}, Alike m m' →
    serve m qs = serve m' qs := by
  induction qs with
  | nil =>
      intro m m' _
      rfl
  | cons q qs ih =>
      intro m m' h
      cases q with
      | start g c workernum connnum =>
          rcases startServer_alike g c workernum connnum m m' with
            ⟨hn, hn'⟩ | ⟨o, o', ho, ho', hret, hact, hsrv⟩
          · simp only [serve, Request.handle, hn, hn']
          · simp only [serve, Request.handle, ho, ho', hret, hact, ih hsrv]
      | stop =>
          obtain ⟨hret, hact, hsrv⟩ := stopServer_alike h
          simp only [serve, Request.handle, hret, hact, ih hsrv]

theorem asFresh_of_not_started (h : m.bStart = false) : AsFresh m :=
  fun qs => serve_alike qs (.inr ⟨h, rfl⟩)

/-! ## When the loops end early -/

theorem newBufevs_ok (i : Nat) (js : List Nat) :
    (newBufevs g c i js).1 = true ↔ ∀ j ∈ js, c.bufferevent_socket_new i j = true := by
  induction js with
  | nil => exact iff_of_true rfl (fun j hj => absurd hj List.not_mem_nil)
  | cons j js ih =>
      unfold newBufevs
      by_cases hj : c.bufferevent_socket_new i j = true
      · rw [if_pos hj, List.forall_mem_cons]
        exact ih.trans ⟨fun h => ⟨hj, h⟩, fun h => h.2⟩
      · rw [if_neg hj, List.forall_mem_cons]
        exact iff_of_false Bool.false_ne_true (fun h => hj h.1)

/-- What is done for a worker for which nothing fails. -/
def startWorker (g : Nat) (c : Calls) (connnum i : Nat) : List Action :=
  [.new g (.workerBase i), .new g (.connList i), .new g (.conns i)]
    ++ (List.range (connnum + 1)).map (fun j => .new g (.bufev i j)) ++ startThread g c i

theorem newBufevs_all {i : Nat} {js : List Nat}
    (h : ∀ j ∈ js, c.bufferevent_socket_new i j = true) :
    newBufevs g c i js = (true, js.map fun j => .new g (.bufev i j)) := by
  induction js with
  | nil => rfl
  | cons j js ih =>
      obtain ⟨hj, hjs⟩ := List.forall_mem_cons.mp h
      rw [newBufevs, if_pos hj, ih hjs]
      rfl

theorem Calls.Fills.range (h : c.Fills connnum i) :
    ∀ j ∈ List.range (connnum + 1), c.bufferevent_socket_new i j = true :=
  fun j hj => h.bufevs j (Nat.lt_succ_iff.mp (List.mem_range.mp hj))

/-- The loop over workers for which nothing fails, and over others. -/
theorem startWorkers_append {is : List Nat} (js : List Nat) (h : ∀ i ∈ is, c.Fills connnum i) :
    startWorkers g c connnum (is ++ js) = ((startWorkers g c connnum js).1,
      is.flatMap (startWorker g c connnum) ++ (startWorkers g c connnum js).2) := by
  induction is with
  | nil => rfl
  | cons i is ih =>
      obtain ⟨hi, his⟩ := List.forall_mem_cons.mp h
      rw [List.cons_append, startWorkers, if_neg (by simp [hi.base]), if_neg (by simp [hi.list]),
        newBufevs_all hi.range, ih his]
      simp only [if_true, List.flatMap_cons, startWorker, List.append_assoc]

theorem startWorkers_ok (is : List Nat) :
    (startWorkers g c connnum is).1 = true ↔ ∀ i ∈ is, c.Fills connnum i := by
  induction is with
  | nil => exact iff_of_true rfl (fun i hi => absurd hi List.not_mem_nil)
  | cons i is ih =>
      rw [List.forall_mem_cons]
      by_cases hi : c.Fills connnum i
      · have happ := startWorkers_append (g := g) is (List.forall_mem_singleton.mpr hi)
        rw [List.singleton_append] at happ
        rw [happ]
        exact ih.trans ⟨fun h => ⟨hi, h⟩, fun h => h.2⟩
      · refine iff_of_false (fun h => hi ?_) (fun h => hi h.1)
        unfold startWorkers at h
        split at h
        · cases h
        split at h
        · cases h
        rename_i hbase hlist
        split at h
        · rename_i hbufevs
          have hall := (newBufevs_ok i _).mp hbufevs
          exact ⟨by simpa using hbase, by simpa using hlist,
            fun j hj => hall j (List.mem_range.mpr (Nat.lt_succ_of_le hj))⟩
        · cases h

theorem free_mem_startWorkers {g' : Nat} {r : Res} (is : List Nat)
    (h : Action.free g' r ∈ (startWorkers g c connnum is).2) : r = .workers := by
  have hbufevs : ∀ (i : Nat) (js : List Nat), Action.free g' r ∉ (newBufevs g c i js).2 := by
    intro i js
    induction js with
    | nil => exact List.not_mem_nil
    | cons j js ih =>
        unfold newBufevs
        split <;> simp [ih]
  have hthread : ∀ i : Nat, Action.free g' r ∉ startThread g c i := by
    intro i
    unfold startThread
    split <;> simp
  induction is with
  | nil => exact absurd h List.not_mem_nil
  | cons i is ih =>
      unfold startWorkers at h
      split at h
      · simpa using (Action.free.inj (List.mem_singleton.mp h)).2
      split at h
      · simp at h
      split at h
      · simp only [List.mem_append, hbufevs, hthread, or_false] at h
        exact ih (h.resolve_left (by simp))
      · simp [hbufevs] at h

/-! ## A failed start -/

/-- Once the server's event base is made, a later failure makes the start fail. -/
theorem startServer_fails (hbase : c.event_base_new = true)
    (hfails : c.FailsLater workernum connnum) :
    ∃ o, StartServer g c workernum connnum m = some o ∧ o.returns = false := by
  have hexit := startServer_exits g c workernum connnum m
  generalize StartServer g c workernum connnum m = r at hexit
  cases hexit with
  | noBase h => exact absurd hbase (by simp [h])
  | noListener | noWorker | noThread => exact ⟨_, rfl, rfl⟩
  | throws hl h =>
      obtain ⟨hpos, -⟩ := hfails.resolve_left (by simp [hl])
      omega
  | started _ hl hw h =>
      obtain ⟨-, hfails⟩ := hfails.resolve_left (by simp [hl])
      obtain ⟨i, hi, hnot⟩ := hfails.resolve_right (by simp [h])
      exact absurd ((startWorkers_ok _).mp hw i (List.mem_range.mpr hi)) hnot

/-- A start that fails then has made the event base, and keeps it. -/
theorem startServer_leaks (hbase : c.event_base_new = true)
    (hstart : StartServer g c workernum connnum m = some o) (hret : o.returns = false) :
    c.FailsLater workernum connnum ∧ Action.new g .base ∈ o.actions
      ∧ Action.free g .base ∉ o.actions := by
  have hfilling : Action.new g .base ∈ filling g c workernum connnum
      ∧ Action.free g .base ∉ filling g c workernum connnum := by
    have hloop : Action.free g .base ∉ (startWorkers g c connnum (List.range workernum.toNat)).2 :=
      fun hmem => Res.noConfusion (free_mem_startWorkers _ hmem)
    exact ⟨by simp [filling], by simpa [filling] using hloop⟩
  have hexit := startServer_exits g c workernum connnum m
  rw [hstart] at hexit
  cases hexit with
  | noBase h => exact absurd hbase (by simp [h])
  | noListener _ h => exact ⟨.inl h, List.mem_singleton.mpr rfl, by simp⟩
  | noWorker _ hn h =>
      refine ⟨.inr ⟨hn, .inl ?_⟩, hfilling⟩
      by_contra hnone
      have hall : ∀ i ∈ List.range workernum.toNat, c.Fills connnum i := by
        intro i hi
        by_contra hi'
        exact hnone ⟨i, List.mem_range.mp hi, hi'⟩
      rw [(startWorkers_ok _).mpr hall] at h
      cases h
  | noThread _ hn _ h => exact ⟨.inr ⟨hn, .inr h⟩, hfilling⟩
  | started => cases hret

theorem startServer_bStart (hstart : StartServer g c workernum connnum m = some o)
    (hret : o.returns = false) : o.server.bStart = false := by
  have hexit := startServer_exits g c workernum connnum m
  rw [hstart] at hexit
  cases hexit with
  | noBase | noListener | noWorker | noThread => rfl
  | started => cases hret

/-- A failed start has left nothing behind, and the object as new, if and only if the
first call has failed; unless it did not fail at all. -/
theorem failed_start_iff (g : Nat) (c : Calls) (workernum : Int) (connnum : Nat) (m : Server) :
    (∀ o, StartServer g c workernum connnum m = some o → o.returns = false → CleanFailure o)
      ↔ c.event_base_new = false ∨ ¬ c.FailsLater workernum connnum := by
  constructor
  · intro hclean
    refine or_iff_not_imp_left.mpr fun hbase hfails => ?_
    have hb := Bool.eq_true_of_not_eq_false hbase
    obtain ⟨o, hstart, hret⟩ := startServer_fails (g := g) (m := m) hb hfails
    obtain ⟨-, hnew, hfree⟩ := startServer_leaks hb hstart hret
    have hone := (hclean o hstart hret).released g .base hnew
    rw [List.count_eq_zero.mpr hfree] at hone
    cases hone
  · rintro hcond o hstart hret
    have hfresh := asFresh_of_not_started (startServer_bStart hstart hret)
    by_cases hbase : c.event_base_new = false
    · rw [StartServer] at hstart
      simp only [if_pos hbase] at hstart
      obtain rfl := Option.some.inj hstart
      exact ⟨fun _ _ h => absurd h List.not_mem_nil, fun _ _ h => absurd h List.not_mem_nil, hfresh⟩
    · have hleaks := startServer_leaks (Bool.eq_true_of_not_eq_false hbase) hstart hret
      exact absurd hleaks.1 (hcond.resolve_left hbase)

/-- Two workers, of which the second gets no event base: the thread of the first runs
on a deleted array. -/
def secondBaseFails : Calls where
  event_base_new := true
  evconnlistener_new_bind := true
  worker_event_base_new := fun i => i = 0
  new_ConnList := fun _ => true
  bufferevent_socket_new := fun _ _ => true
  worker_CreateThread := fun _ => true
  CreateThread := true

theorem not_failed_start :
    ∃ o, StartServer 0 secondBaseFails 2 1 .zero = some o ∧ o.returns = false
      ∧ Action.run 0 (.worker 0) ∈ o.actions ∧ Action.free 0 .workers ∈ o.actions
      ∧ ¬ CleanFailure o := by
  refine ⟨_, rfl, rfl, by decide, by decide, fun h => ?_⟩
  have hone := h.released 0 .base (by decide)
  exact absurd hone (by decide)

/-! ## Threads on a deleted array, and a start that succeeds -/

/-- If the event base of worker `k` fails, the array is deleted and the threads of the
workers before it go on. -/
theorem threads_on_deleted {k : Nat} (hbase : c.event_base_new = true)
    (hlistener : c.evconnlistener_new_bind = true) (hk : (k : Int) < workernum)
    (hfills : ∀ i < k, c.Fills connnum i) (hfail : c.worker_event_base_new k = false) :
    ∃ o, StartServer g c workernum connnum m = some o ∧ o.returns = false
      ∧ Action.free g .workers ∈ o.actions
      ∧ ∀ i < k, c.worker_CreateThread i = true → Action.run g (.worker i) ∈ o.actions := by
  obtain ⟨rest, hrange⟩ : ∃ rest, List.range workernum.toNat = List.range k ++ k :: rest := by
    obtain ⟨d, hd⟩ : ∃ d, workernum.toNat = k + (d + 1) := ⟨workernum.toNat - k - 1, by omega⟩
    refine ⟨(List.range d).map fun x => k + (x + 1), ?_⟩
    rw [hd, List.range_add, List.range_succ_eq_map]
    simp
  have hloop : startWorkers g c connnum _ = _ := startWorkers_append (k :: rest)
    fun i hi => hfills i (List.mem_range.mp hi)
  rw [← hrange, startWorkers, if_pos hfail] at hloop
  have hstop : ¬ (startWorkers g c connnum (List.range workernum.toNat)).1 = true := by
    rw [hloop]
    exact Bool.false_ne_true
  have hexit := startServer_exits g c workernum connnum m
  generalize StartServer g c workernum connnum m = r at hexit
  cases hexit with
  | noBase h => exact absurd hbase (by simp [h])
  | noListener _ h => exact absurd hlistener (by simp [h])
  | throws _ h => omega
  | noThread _ _ hw => exact absurd hw hstop
  | started _ _ hw => exact absurd hw hstop
  | noWorker =>
      refine ⟨_, rfl, rfl, by simp [filling, hloop], ?_⟩
      intro i hi hthread
      have hrun : Action.run g (.worker i) ∈ startWorker g c connnum i := by
        simp [startWorker, startThread, hthread]
      have hmem : Action.run g (.worker i) ∈ (List.range k).flatMap (startWorker g c connnum) :=
        List.mem_flatMap.mpr ⟨i, List.mem_range.mpr hi, hrun⟩
      simp only [filling, hloop]
      exact List.mem_append_right _ (List.mem_append_left _ hmem)

/-! ## A start that succeeds -/

def Action.created : Action → Option (Nat × Res)
  | .new g r => some (g, r)
  | _ => none

def Action.freed : Action → Option (Nat × Res)
  | .free g r => some (g, r)
  | _ => none

def Action.started : Action → Option (Nat × Thread)
  | .run g t => some (g, t)
  | _ => none

def Action.joined : Action → Option (Nat × Thread)
  | .join g t => some (g, t)
  | _ => none

/-- What belongs to worker `i`, in the order in which it is made. -/
def workerRes (g connnum i : Nat) : List (Nat × Res) :=
  [(g, .workerBase i), (g, .connList i), (g, .conns i)]
    ++ (List.range (connnum + 1)).map (fun j => (g, .bufev i j))

/-- Worker `i` after a successful start. -/
def madeWorker (g : Nat) (c : Calls) (i : Nat) : Worker × Nat :=
  ({ pWokerbase := some g
     hThread := if c.worker_CreateThread i then some g else none
     pListConn := some g }, i)

theorem placed_workersMade (n : Nat) :
    placed (workersMade g c n) = (List.range n).map (madeWorker g c) := by
  refine List.ext_getElem (by simp [placed, workersMade]) ?_
  intro k h₁ h₂
  simp [placed, workersMade, madeWorker]

theorem created_startWorker (i : Nat) :
    (startWorker g c connnum i).filterMap Action.created = workerRes g connnum i := by
  have hthread : (startThread g c i).filterMap Action.created = [] := by
    unfold startThread
    split <;> rfl
  rw [startWorker, List.filterMap_append, hthread, List.append_nil, List.filterMap_append,
    List.filterMap_map]
  refine congrArg _ ?_
  exact List.filterMap_eq_map ▸ rfl

theorem freed_stopWorker (i : Nat) :
    ((stopWorker connnum (madeWorker g c i)).filterMap Action.freed).Perm
      (workerRes g connnum i) := by
  have hbufevs : ((List.range (connnum + 1)).flatMap
        fun j => release (madeWorker g c i).1.pListConn (.bufev i j)).filterMap Action.freed
      = (List.range (connnum + 1)).map fun j => (g, .bufev i j) := by
    rw [List.filterMap_flatMap]
    exact List.flatMap_pure_eq_map _ _
  have hrest : ([.free g (.conns i), .free g (.connList i), .free g (.workerBase i)]
      : List Action).filterMap Action.freed
      = [(g, .workerBase i), (g, .connList i), (g, .conns i)].reverse := rfl
  have hsplit : stopWorker connnum (madeWorker g c i)
      = (List.range (connnum + 1)).flatMap
          (fun j => release (madeWorker g c i).1.pListConn (.bufev i j))
        ++ [.free g (.conns i), .free g (.connList i), .free g (.workerBase i)] := by
    simp only [stopWorker, List.append_assoc]
    rfl
  rw [hsplit, List.filterMap_append, hbufevs, hrest]
  exact List.perm_append_comm.trans ((List.reverse_perm _).append_right _)

theorem started_startWorker (i : Nat) :
    (startWorker g c connnum i).filterMap Action.started
      = (waitThread (madeWorker g c i).1.hThread (.worker i)).filterMap Action.joined := by
  have hbufevs : ((List.range (connnum + 1)).map
      fun j => Action.new g (.bufev i j)).filterMap Action.started = [] := by
    rw [List.filterMap_map]
    exact List.filterMap_eq_nil_iff.mpr fun _ _ => rfl
  rw [startWorker, List.filterMap_append, List.filterMap_append, hbufevs]
  simp only [madeWorker, startThread]
  split <;> rfl

theorem joined_stopWorker (w : Worker × Nat) :
    (stopWorker connnum w).filterMap Action.joined = [] := by
  have hrelease : ∀ (p : Option Nat) (r : Res), (release p r).filterMap Action.joined = [] := by
    intro p r
    cases p <;> rfl
  have hbufevs : ((List.range (connnum + 1)).flatMap
      fun j => release w.1.pListConn (.bufev w.2 j)).filterMap Action.joined = [] := by
    rw [List.filterMap_flatMap, List.flatMap_eq_nil_iff]
    exact fun j _ => hrelease _ _
  simp only [stopWorker, List.filterMap_append, hbufevs, hrelease, List.append_nil]

theorem stopServer_actions :
    (StopServer { filled g c workernum connnum m with hThread := some g, bStart := true }).actions
      = [.join g .server]
        ++ (((List.range workernum.toNat).map (madeWorker g c)).flatMap
              (fun w => waitThread w.1.hThread (.worker w.2))
            ++ ((List.range workernum.toNat).map (madeWorker g c)).flatMap (stopWorker connnum)
            ++ [.free g .workers])
        ++ [.free g .listener] ++ [.free g .base] := by
  have hplaced := placed_workersMade (g := g) (c := c) workernum.toNat
  show [Action.join g .server]
      ++ ((placed (workersMade g c workernum.toNat)).flatMap _
          ++ (placed (workersMade g c workernum.toNat)).flatMap _ ++ _) ++ _ ++ _ = _
  rw [hplaced]
  rfl

/-- `StopServer` ends the threads that a successful start has begun, and releases what it
has made. -/
theorem stop_releases (hstart : StartServer g c workernum connnum m = some o)
    (hret : o.returns = true) :
    (o.actions.filterMap Action.created).Perm
        ((StopServer o.server).actions.filterMap Action.freed)
      ∧ (o.actions.filterMap Action.started).Perm
        ((StopServer o.server).actions.filterMap Action.joined)
      ∧ (StopServer o.server).server.bStart = false := by
  have hexit := startServer_exits g c workernum connnum m
  rw [hstart] at hexit
  cases hexit with
  | noBase | noListener | noWorker | noThread => cases hret
  | started hb hl hw h =>
      have hall := (startWorkers_ok _).mp hw
      have hloop := startWorkers_append (g := g) [] hall
      rw [List.append_nil, startWorkers, List.append_nil] at hloop
      have hactions : (StopServer { filled g c workernum connnum m with
          hThread := some g
          bStart := true }).actions = _ := stopServer_actions
      refine ⟨?_, ?_, rfl⟩
      · have hcreated : ((List.range workernum.toNat).flatMap
            (startWorker g c connnum)).filterMap Action.created
            = (List.range workernum.toNat).flatMap (workerRes g connnum) := by
          rw [List.filterMap_flatMap]
          simp only [created_startWorker]
        have hwaits : (((List.range workernum.toNat).map (madeWorker g c)).flatMap
            fun w => waitThread w.1.hThread (.worker w.2)).filterMap Action.freed = [] := by
          rw [List.filterMap_flatMap, List.flatMap_eq_nil_iff]
          intro w _
          cases w.1.hThread <;> rfl
        have hfreed : ((((List.range workernum.toNat).map (madeWorker g c)).flatMap
            (stopWorker connnum)).filterMap Action.freed).Perm
            ((List.range workernum.toNat).flatMap (workerRes g connnum)) := by
          rw [List.filterMap_flatMap, List.flatMap_map]
          exact List.Perm.flatMap_left _ fun i _ => freed_stopWorker i
        rw [hactions]
        refine List.perm_iff_count.mpr fun x => ?_
        have hcount := hfreed.count_eq x
        simp only [filling, hloop, List.filterMap_append, hcreated, hwaits, List.count_append,
          hcount, Action.created, Action.freed, List.filterMap_cons, List.filterMap_nil,
          List.count_cons, List.count_nil]
        omega
      · have hstarted : ((List.range workernum.toNat).flatMap
            (startWorker g c connnum)).filterMap Action.started
            = (((List.range workernum.toNat).map (madeWorker g c)).flatMap
              fun w => waitThread w.1.hThread (.worker w.2)).filterMap Action.joined := by
          rw [List.filterMap_flatMap, List.filterMap_flatMap, List.flatMap_map]
          refine congrArg (fun f => (List.range workernum.toNat).flatMap f) (funext fun i => ?_)
          exact started_startWorker i
        have hstops : (((List.range workernum.toNat).map (madeWorker g c)).flatMap
            (stopWorker connnum)).filterMap Action.joined = [] := by
          rw [List.filterMap_flatMap, List.flatMap_eq_nil_iff]
          intro w hw
          exact joined_stopWorker w
        rw [hactions]
        refine List.perm_iff_count.mpr fun x => ?_
        simp only [filling, hloop, List.filterMap_append, hstarted, hstops, List.count_append,
          Action.started, Action.joined, List.filterMap_cons, List.filterMap_nil,
          List.count_cons, List.count_nil]
        omega

end

end CppWorkspace.LibeventServer.Startup
