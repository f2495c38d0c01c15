import AsioSamples.Machinery.LifeCycle

/-!
# LifeCycle/Objects — constructors, stopping and destructors of servers and clients

The threads that `AsyncServer`, `Server`, `HTTPClient` and `AsyncTCPClient` own, and what their
public methods and destructors do with them.  A `std::thread` ends the process if it is destroyed or
overwritten while joinable, and throws if it is joined while it is not; every running thread
finishes once it is told to stop, so `join()` returns.
-/

namespace AsioSamples

namespace LifeCycle

/-! ## `std::thread` and `io_context` -/

/-- What goes wrong. -/
inductive Fault
  /-- A null `unique_ptr` was dereferenced. -/
  | nullPointer
  /-- `join()` on a thread that is not joinable. -/
  | joinNotJoinable
  /-- A joinable thread was destroyed. -/
  | destroyJoinable
  /-- A joinable thread was assigned to. -/
  | assignJoinable
  deriving DecidableEq

/-- A `std::thread`. -/
structure Thread where
  joinable : Bool := false
  deriving DecidableEq

namespace Thread

/-- A thread that was constructed with a function. -/
def running : Thread := { joinable := true }

def join (t : Thread) : Except Fault Thread :=
  if t.joinable then .ok {} else .error .joinNotJoinable

/-- `if (thread.joinable()) thread.join();` -/
def joinIfJoinable (t : Thread) : Except Fault Thread := if t.joinable then t.join else .ok t

/-- Assignment from another thread. -/
def assign (t t' : Thread) : Except Fault Thread :=
  if t.joinable then .error .assignJoinable else .ok t'

/-- The destructor. -/
def destroy (t : Thread) : Except Fault Unit :=
  if t.joinable then .error .destroyJoinable else .ok ()

@[simp] theorem joinIfJoinable_eq (t : Thread) : t.joinIfJoinable = .ok {} := by
  obtain ⟨_ | _⟩ := t <;> rfl

@[simp] theorem destroy_empty : destroy {} = .ok () := rfl

/-- Every thread of a pool, joined if it is joinable. -/
def joinAll (pool : List Thread) : Except Fault (List Thread) := pool.mapM joinIfJoinable

/-- The destructors of a pool. -/
def destroyAll (pool : List Thread) : Except Fault Unit := forM pool destroy

@[simp] theorem joinAll_eq (pool : List Thread) :
    joinAll pool = .ok (List.replicate pool.length {}) := by
  induction pool with
  | nil => rfl
  | cons t pool ih =>
    have ih : pool.mapM joinIfJoinable = .ok (List.replicate pool.length {}) := ih
    rw [joinAll, List.mapM_cons, ih, joinIfJoinable_eq]
    rfl

@[simp] theorem destroyAll_replicate (n : ℕ) : destroyAll (List.replicate n {}) = .ok () := by
  induction n with
  | zero => rfl
  | succ n ih =>
    have ih : forM (List.replicate n ({} : Thread)) destroy = .ok () := ih
    rw [destroyAll, List.replicate_succ, List.forM_cons, ih]
    rfl

end Thread

/-- An `io_context`. -/
structure IoContext where
  stopped : Bool := false
  /-- A `work` object keeps it from running out of work. -/
  work : Bool := true

/-- `run()` returns at once. -/
def IoContext.returnsAtOnce (ioc : IoContext) : Bool := ioc.stopped || !ioc.work

/-! ## `AsyncServer` -/

/-- The fields of an `AsyncServer`; of its acceptor `stopFlag_` alone. -/
structure AsyncServer where
  ioc : IoContext := {}
  threadPool : List Thread := []
  acceptor : Option Bool := none

namespace AsyncServer

/-- `Start`: an acceptor in place of the old one, and as many threads more. -/
def start (s : AsyncServer) (threadPoolSize : UInt16) : AsyncServer :=
  let threadPoolSize := if threadPoolSize ≠ 0 then threadPoolSize else 2
  { s with
    acceptor := some false
    threadPool := s.threadPool ++ List.replicate threadPoolSize.toNat .running }

def stop (s : AsyncServer) : Except Fault AsyncServer :=
  match s.acceptor with
  | none => .error .nullPointer
  | some _ => do
    let threadPool ← Thread.joinAll s.threadPool
    return { s with acceptor := some true, ioc := { s.ioc with stopped := true }, threadPool }

inductive Call
  | start (threadPoolSize : UInt16)
  | stop

/-- The life of an `AsyncServer`, whose destructor stops it. -/
def cls : Class Fault AsyncServer Call where
  new := {}
  call s
    | .start threadPoolSize => .ok (s.start threadPoolSize)
    | .stop => s.stop
  destroy s := do
    let s ← s.stop
    Thread.destroyAll s.threadPool

/-- A stop of a server that has an acceptor. -/
theorem stop_of_acceptor {s : AsyncServer} (h : s.acceptor.isSome) : s.stop = .ok { s with
    acceptor := some true
    ioc := { s.ioc with stopped := true }
    threadPool := List.replicate s.threadPool.length {} } := by
  obtain ⟨stopFlag, hacceptor⟩ := Option.isSome_iff_exists.mp h
  rw [stop, hacceptor, Thread.joinAll_eq]
  rfl

theorem stop_of_none {s : AsyncServer} (h : s.acceptor = none) : s.stop = .error .nullPointer := by
  rw [stop, h]

end AsyncServer

/-! ## `Server` -/

/-- The fields of a `Server` that its stopping is about. -/
structure Server where
  thread : Thread := {}
  liveFlag : Bool := true

namespace Server

def start (s : Server) : Except Fault Server :=
  if !s.thread.joinable then do
    let thread ← s.thread.assign .running
    return { s with thread }
  else .ok s

def stop (s : Server) : Except Fault Server := do
  let thread ← s.thread.joinIfJoinable
  return { s with liveFlag := false, thread }

/-- How often `Run` calls `Accept` in its first `n` passes, if nobody changes the flag. -/
def run (s : Server) : ℕ → ℕ
  | 0 => 0
  | n + 1 => if s.liveFlag then s.run n + 1 else 0

inductive Call
  | start
  | stop
  deriving DecidableEq

/-- The life of a `Server`, whose destructor stops it. -/
def cls : Class Fault Server Call where
  new := {}
  call s
    | .start => s.start
    | .stop => s.stop
  destroy s := do
    let s ← s.stop
    s.thread.destroy

/-- A start leaves a thread that runs. -/
theorem start_eq (s : Server) : s.start = .ok { s with thread := .running } := by
  obtain ⟨⟨_ | _⟩, liveFlag⟩ := s <;> rfl

theorem stop_eq (s : Server) : s.stop = .ok { liveFlag := false } := by
  rw [stop, Thread.joinIfJoinable_eq]
  rfl

end Server

/-! ## `HTTPClient` -/

/-- The fields of an `HTTPClient`, as its constructor leaves them. -/
structure HTTPClient where
  work : Bool := true
  thread : Thread := .running

namespace HTTPClient

def close (s : HTTPClient) : Except Fault HTTPClient := do
  let thread ← s.thread.join
  return { s with work := false, thread }

inductive Call
  | createRequest (id : UInt32)
  | close
  deriving DecidableEq

/-- The life of an `HTTPClient`.  It has no destructor of its own: `m_work` and `m_thread` are
destroyed as they are. -/
def cls : Class Fault HTTPClient Call where
  new := {}
  call s
    | .createRequest _ => .ok s
    | .close => s.close
  destroy s := s.thread.destroy

end HTTPClient

/-! ## `AsyncTCPClient` -/

/-- The fields of an `AsyncTCPClient` that its closing is about. -/
structure AsyncTCPClient where
  work : Bool
  threads : List Thread

namespace AsyncTCPClient

/-- The constructor. -/
def create (hardwareConcurrency : UInt32) (numberOfThread : UInt8) : AsyncTCPClient :=
  let numberOfThread :=
    if numberOfThread = 0 then UInt8.ofNat hardwareConcurrency.toNat else numberOfThread
  { work := true, threads := List.replicate numberOfThread.toNat .running }

def close (s : AsyncTCPClient) : Except Fault AsyncTCPClient := do
  let threads ← Thread.joinAll s.threads
  return { work := false, threads }

inductive Call
  | close

/-- The life of an `AsyncTCPClient`, whose destructor closes it. -/
def cls (hardwareConcurrency : UInt32) (numberOfThread : UInt8) :
    Class Fault AsyncTCPClient Call where
  new := create hardwareConcurrency numberOfThread
  call s
    | .close => s.close
  destroy s := do
    let s ← s.close
    Thread.destroyAll s.threads

theorem close_eq (s : AsyncTCPClient) :
    s.close = .ok { work := false, threads := List.replicate s.threads.length {} } := by
  rw [close, Thread.joinAll_eq]
  rfl

end AsyncTCPClient

end LifeCycle

end AsioSamples
