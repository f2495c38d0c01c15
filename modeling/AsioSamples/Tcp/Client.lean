import AsioSamples.Machinery.Baton
import AsioSamples.Machinery.Mutex
import AsioSamples.Machinery.Transition
import AsioSamples.Tcp.Session

/-!
# Tcp/Client — `AsyncTCPClient` and the threads that call it or work for it

`EmulateLongComputationOp`, `CancelRequest`, the handlers of a session and `OnRequestComplete`, with
every lock, unlock, flag test, registry access and initiation a step of its own.  Threads are
elements of an arbitrary type; any thread may call a queued handler when it is idle, and may call
the client when it is idle or in a callback.  Sessions are numbered in the order of the calls that
submit them, so the fields of the sessions, their mutexes and their operations are families over
`ℕ`.

No call of asio throws.  `OnRequestComplete` starts with a socket shutdown whose outcome it ignores;
it is not a step here.
-/

namespace AsioSamples

namespace AsyncTCPClient

/-! ## Program points -/

/-- The mutexes: `m_active_sessions_guard`, and the `m_cancel_guard` of each session. -/
inductive Mutex
  | activeSessionsGuard
  | cancelGuard (i : ℕ)
  deriving DecidableEq

/-- How far a session has come. -/
inductive Stage
  | unregistered
  /-- Stored in `m_active_sessions`. -/
  | registered
  /-- `OnRequestComplete` has been entered. -/
  | entered
  /-- The erase of `OnRequestComplete` has been done. -/
  | erased
  deriving DecidableEq

/-- Where `EmulateLongComputationOp` or `CancelRequest` is called from. -/
inductive Caller
  | outside
  /-- The callback of session `i`, invoked with the session's `m_cancel_guard` held or not. -/
  | callback (i : ℕ) (guarded : Bool)
  deriving DecidableEq

/-- The caller holds the `m_cancel_guard` of session `i`. -/
def Caller.guards (i : ℕ) : Caller → Bool
  | outside => false
  | callback j guarded => guarded && j = i

/-- The session whose callback the call is made from. -/
def Caller.calledBack : Caller → Option ℕ
  | outside => none
  | callback i _ => some i

/-- Where a thread is in `EmulateLongComputationOp`. -/
inductive SubmitPc
  | locking
  | storing
  | unlocking
  | connecting
  deriving DecidableEq

/-- Where a thread is in `CancelRequest`. -/
inductive CancelPc
  | locking (id : UInt32)
  | finding (id : UInt32)
  /-- At the lock of the `m_cancel_guard` of the session it found. -/
  | guarding (i : ℕ)
  | marking (i : ℕ)
  | aborting (i : ℕ)
  | unguarding (i : ℕ)
  | unlocking
  deriving DecidableEq

/-- The points of `CancelRequest` that hold the `m_cancel_guard` of session `i`. -/
def CancelPc.guards (i : ℕ) : CancelPc → Bool
  | marking j | aborting j | unguarding j => j = i
  | _ => false

/-- Where a thread is in a handler. -/
inductive HandlerPc
  | called (op : SessionOp) (c : Completion)
  /-- At the lock of `m_cancel_guard`, with `op` to initiate. -/
  | locking (op : SessionOp)
  | testing (op : SessionOp)
  /-- The flag was clear. -/
  | unlocking (op : SessionOp)
  | initiating (op : SessionOp)
  deriving DecidableEq

/-- Where a thread is in `OnRequestComplete`, or in the handler's end after it. -/
inductive CompletePc
  | locking
  | erasing
  | unlocking
  | readingEc
  | readingFlag
  | callingBack (ec : ErrorCode)
  | inCallback
  /-- At the end of the scope of the handler's `cancel_lock`. -/
  | releasing
  deriving DecidableEq

/-- Where a thread is. -/
inductive Pc
  | idle
  | submitting (i : ℕ) (p : SubmitPc) (k : Caller)
  | cancelling (p : CancelPc) (k : Caller)
  | handling (i : ℕ) (p : HandlerPc)
  /-- In `OnRequestComplete`, called with the session's `m_cancel_guard` held or not. -/
  | completing (i : ℕ) (guarded : Bool) (p : CompletePc)
  deriving DecidableEq

namespace Pc

/-- Where a call of the client is made, and where it returns to. -/
def caller : Caller → Pc
  | .outside => idle
  | .callback i guarded => completing i guarded .inCallback

/-- The points that hold a mutex. -/
def holds : Mutex → Pc → Bool
  | .activeSessionsGuard, submitting _ .storing _ => true
  | .activeSessionsGuard, submitting _ .unlocking _ => true
  | .activeSessionsGuard, cancelling (.locking _) _ => false
  | .activeSessionsGuard, cancelling _ _ => true
  | .activeSessionsGuard, completing _ _ .erasing => true
  | .activeSessionsGuard, completing _ _ .unlocking => true
  | .cancelGuard i, submitting _ _ k => k.guards i
  | .cancelGuard i, cancelling p k => p.guards i || k.guards i
  | .cancelGuard i, handling j (.testing _) => j = i
  | .cancelGuard i, handling j (.unlocking _) => j = i
  | .cancelGuard i, completing j guarded _ => guarded && j = i
  | _, _ => false

/-- The mutex a thread is waiting for. -/
def wants : Pc → Option Mutex
  | submitting _ .locking _ | cancelling (.locking _) _ | completing _ _ .locking =>
    some .activeSessionsGuard
  | cancelling (.guarding i) _ | handling i (.locking _) => some (.cancelGuard i)
  | _ => none

/-- The session a thread still has to initiate an operation for, or to call back. -/
def session : Pc → Option ℕ
  | completing _ _ .inCallback | completing _ _ .releasing => none
  | submitting i _ _ | handling i _ | completing i _ _ => some i
  | _ => none

/-- The session that a thread has called back, from whose handler it has not returned. -/
def calledBack : Pc → Option ℕ
  | completing i _ .inCallback | completing i _ .releasing => some i
  | submitting _ _ k | cancelling _ k => k.calledBack
  | _ => none

/-- A thread is in the submission or in a handler of session `i`. -/
def busyWith (i : ℕ) (p : Pc) : Bool := p.session = some i || p.calledBack = some i

/-- How far the session has come that a thread works on. -/
def stage : Pc → Stage
  | submitting _ .locking _ | submitting _ .storing _ => .unregistered
  | completing _ _ .locking | completing _ _ .erasing => .entered
  | completing _ _ _ => .erased
  | _ => .registered

@[simp] theorem session_cancelling (p : CancelPc) (k : Caller) :
    (cancelling p k).session = none := rfl

@[simp] theorem session_caller : ∀ k : Caller, (caller k).session = none
  | .outside => rfl
  | .callback _ _ => rfl

@[simp] theorem calledBack_submitting (i : ℕ) (p : SubmitPc) (k : Caller) :
    (submitting i p k).calledBack = k.calledBack := rfl

@[simp] theorem calledBack_cancelling (p : CancelPc) (k : Caller) :
    (cancelling p k).calledBack = k.calledBack := rfl

@[simp] theorem calledBack_caller : ∀ k : Caller, (caller k).calledBack = k.calledBack
  | .outside => rfl
  | .callback _ _ => rfl

end Pc

/-! ## States and events -/

/-- The arguments of an `EmulateLongComputationOp`. -/
structure Call where
  durationSec : UInt32
  ep : Endpoint
  requestId : UInt32

/-- An invocation of a session's callback. -/
structure Callback where
  id : UInt32
  response : Bytes
  ec : ErrorCode
  deriving DecidableEq

/-- The client, its sessions and their operations, the threads, and what has happened. -/
structure State (τ : Type*) where
  session : ℕ → Session
  submitted : ℕ := 0
  activeSessions : StdMap Int32 ℕ := ∅
  owner : Mutex → Option τ := fun _ => none
  pc : τ → Pc := fun _ => .idle
  outstanding : ℕ → List (Pending SessionOp) := fun _ => []
  stage : ℕ → Stage := fun _ => .unregistered
  initiated : ℕ → List SessionOp := fun _ => []
  /-- The bytes read on the session's socket. -/
  received : ℕ → Bytes := fun _ => []
  callbacks : ℕ → List Callback := fun _ => []
  /-- Some `CancelRequest` has found the session. -/
  found : ℕ → Bool := fun _ => false
  /-- Some `CancelRequest` has called `m_sock.cancel()`. -/
  aborted : ℕ → Bool := fun _ => false

/-- The steps. -/
inductive Event (τ : Type*)
  | submit (t : τ) (k : Caller)
  | submitLock (t : τ) (i : ℕ) (k : Caller)
  | store (t : τ) (i : ℕ) (k : Caller)
  | submitUnlock (t : τ) (i : ℕ) (k : Caller)
  | connect (t : τ) (i : ℕ) (k : Caller)
  | cancelRequest (t : τ) (id : UInt32) (k : Caller)
  | cancelLock (t : τ) (id : UInt32) (k : Caller)
  | find (t : τ) (id : UInt32) (k : Caller)
  | guard (t : τ) (i : ℕ) (k : Caller)
  | mark (t : τ) (i : ℕ) (k : Caller)
  | abort (t : τ) (i : ℕ) (reached : Bool) (k : Caller)
  | unguard (t : τ) (i : ℕ) (k : Caller)
  | cancelUnlock (t : τ) (k : Caller)
  /-- An operation of session `i` completes. -/
  | complete (i : ℕ) (op : SessionOp) (c : Completion)
  /-- Its handler is called. -/
  | call (t : τ) (i : ℕ) (op : SessionOp) (c : Completion)
  /-- The handler's part before its lock. -/
  | handle (t : τ) (i : ℕ) (op : SessionOp) (c : Completion)
  | guardLock (t : τ) (i : ℕ) (op : SessionOp)
  | test (t : τ) (i : ℕ) (op : SessionOp)
  | guardUnlock (t : τ) (i : ℕ) (op : SessionOp)
  | initiate (t : τ) (i : ℕ) (op : SessionOp)
  | completeLock (t : τ) (i : ℕ) (guarded : Bool)
  | erase (t : τ) (i : ℕ) (guarded : Bool)
  | completeUnlock (t : τ) (i : ℕ) (guarded : Bool)
  | readEc (t : τ) (i : ℕ) (guarded : Bool)
  | readFlag (t : τ) (i : ℕ) (guarded : Bool)
  | callback (t : τ) (i : ℕ) (guarded : Bool) (ec : ErrorCode)
  | callbackReturns (t : τ) (i : ℕ) (guarded : Bool)
  | release (t : τ) (i : ℕ)

/-- `EmulateLongComputationOp` is called with `calls i` for the session `i`. -/
def State.start {τ : Type*} (calls : ℕ → Call) : State τ where
  session i := Session.create (calls i).durationSec (calls i).ep (calls i).requestId

/-- The key of a session in `m_active_sessions`, a map from `int`. -/
def State.key {τ : Type*} (s : State τ) (i : ℕ) : Int32 := (s.session i).id.toInt32

section Machine

variable {τ : Type*} [DecidableEq τ]

open Function (update)

/-- `s` with thread `t` at `p`. -/
def State.goto (s : State τ) (t : τ) (p : Pc) : State τ := { s with pc := update s.pc t p }

/-- When a step can be taken. -/
def Enabled (s : State τ) : Event τ → Prop
  | .submit t k => s.pc t = .caller k
  | .submitLock t i k =>
    s.pc t = .submitting i .locking k ∧ s.owner .activeSessionsGuard = none
  | .store t i k => s.pc t = .submitting i .storing k
  | .submitUnlock t i k => s.pc t = .submitting i .unlocking k
  | .connect t i k => s.pc t = .submitting i .connecting k
  | .cancelRequest t _ k => s.pc t = .caller k
  | .cancelLock t id k =>
    s.pc t = .cancelling (.locking id) k ∧ s.owner .activeSessionsGuard = none
  | .find t id k => s.pc t = .cancelling (.finding id) k
  | .guard t i k => s.pc t = .cancelling (.guarding i) k ∧ s.owner (.cancelGuard i) = none
  | .mark t i k => s.pc t = .cancelling (.marking i) k
  | .abort t i _ k => s.pc t = .cancelling (.aborting i) k
  | .unguard t i k => s.pc t = .cancelling (.unguarding i) k
  | .cancelUnlock t k => s.pc t = .cancelling .unlocking k
  | .complete i op _ => (⟨op, none⟩ : Pending SessionOp) ∈ s.outstanding i
  | .call t i op c => s.pc t = .idle ∧ ⟨op, some c⟩ ∈ s.outstanding i
  | .handle t i op c => s.pc t = .handling i (.called op c)
  | .guardLock t i op => s.pc t = .handling i (.locking op) ∧ s.owner (.cancelGuard i) = none
  | .test t i op => s.pc t = .handling i (.testing op)
  | .guardUnlock t i op => s.pc t = .handling i (.unlocking op)
  | .initiate t i op => s.pc t = .handling i (.initiating op)
  | .completeLock t i guarded =>
    s.pc t = .completing i guarded .locking ∧ s.owner .activeSessionsGuard = none
  | .erase t i guarded => s.pc t = .completing i guarded .erasing
  | .completeUnlock t i guarded => s.pc t = .completing i guarded .unlocking
  | .readEc t i guarded => s.pc t = .completing i guarded .readingEc
  | .readFlag t i guarded => s.pc t = .completing i guarded .readingFlag
  | .callback t i guarded ec => s.pc t = .completing i guarded (.callingBack ec)
  | .callbackReturns t i guarded => s.pc t = .completing i guarded .inCallback
  | .release t i => s.pc t = .completing i true .releasing

instance (s : State τ) (e : Event τ) : Decidable (Enabled s e) :=
  match e with
  | .submitLock .. | .cancelLock .. | .guard .. | .call .. | .guardLock .. | .completeLock .. =>
    inferInstanceAs (Decidable (_ ∧ _))
  | .complete .. => inferInstanceAs (Decidable (_ ∈ _))
  | .submit .. | .store .. | .submitUnlock .. | .connect .. | .cancelRequest .. | .find ..
  | .mark .. | .abort .. | .unguard .. | .cancelUnlock .. | .handle .. | .test .. | .guardUnlock ..
  | .initiate .. | .erase .. | .completeUnlock .. | .readEc .. | .readFlag .. | .callback ..
  | .callbackReturns .. | .release .. => inferInstanceAs (Decidable (_ = _))

/-- Where a step leads. -/
def next (s : State τ) : Event τ → State τ
  -- `EmulateLongComputationOp`
  | .submit t k =>
    { s with submitted := s.submitted + 1 }.goto t (.submitting s.submitted .locking k)
  | .submitLock t i k =>
    { s with owner := update s.owner .activeSessionsGuard (some t) }.goto t
      (.submitting i .storing k)
  | .store t i k =>
    { s with
      activeSessions := s.activeSessions.assign (s.key i) i
      stage := update s.stage i .registered }.goto t (.submitting i .unlocking k)
  | .submitUnlock t i k =>
    { s with owner := update s.owner .activeSessionsGuard none }.goto t
      (.submitting i .connecting k)
  | .connect t i k =>
    let op : SessionOp := .connect (s.session i).ep
    { s with
      outstanding := update s.outstanding i (Pending.initiate (s.outstanding i) op)
      initiated := update s.initiated i (s.initiated i ++ [op]) }.goto t (.caller k)
  -- `CancelRequest`
  | .cancelRequest t id k => s.goto t (.cancelling (.locking id) k)
  | .cancelLock t id k =>
    { s with owner := update s.owner .activeSessionsGuard (some t) }.goto t
      (.cancelling (.finding id) k)
  | .find t id k =>
    match s.activeSessions.find id.toInt32 with
    | some i => { s with found := update s.found i true }.goto t (.cancelling (.guarding i) k)
    | none => s.goto t (.cancelling .unlocking k)
  | .guard t i k =>
    { s with owner := update s.owner (.cancelGuard i) (some t) }.goto t
      (.cancelling (.marking i) k)
  | .mark t i k =>
    { s with session := update s.session i { s.session i with wasCancelled := true } }.goto t
      (.cancelling (.aborting i) k)
  | .abort t i reached k =>
    { s with
      outstanding := update s.outstanding i (Pending.cancel reached (s.outstanding i))
      aborted := update s.aborted i true }.goto t (.cancelling (.unguarding i) k)
  | .unguard t i k =>
    { s with owner := update s.owner (.cancelGuard i) none }.goto t (.cancelling .unlocking k)
  | .cancelUnlock t k =>
    { s with owner := update s.owner .activeSessionsGuard none }.goto t (.caller k)
  -- a handler
  | .complete i op c =>
    { s with outstanding := update s.outstanding i (Pending.complete (s.outstanding i) op c) }
  | .call t i op c =>
    { s with
      outstanding := update s.outstanding i (Pending.dequeue (s.outstanding i) op c) }.goto t
      (.handling i (.called op c))
  | .handle t i op c =>
    let s₁ := { s with
      session := update s.session i ((s.session i).handle op c).1
      received := update s.received i (s.received i ++ Session.received op c) }
    match ((s.session i).handle op c).2 with
    | .complete =>
      { s₁ with stage := update s.stage i .entered }.goto t (.completing i false .locking)
    | .testFlag op' => s₁.goto t (.handling i (.locking op'))
  | .guardLock t i op =>
    { s with owner := update s.owner (.cancelGuard i) (some t) }.goto t (.handling i (.testing op))
  | .test t i op =>
    if (s.session i).wasCancelled then
      { s with stage := update s.stage i .entered }.goto t (.completing i true .locking)
    else s.goto t (.handling i (.unlocking op))
  | .guardUnlock t i op =>
    { s with owner := update s.owner (.cancelGuard i) none }.goto t (.handling i (.initiating op))
  | .initiate t i op =>
    { s with
      outstanding := update s.outstanding i (Pending.initiate (s.outstanding i) op)
      initiated := update s.initiated i (s.initiated i ++ [op]) }.goto t .idle
  -- `OnRequestComplete`
  | .completeLock t i guarded =>
    { s with owner := update s.owner .activeSessionsGuard (some t) }.goto t
      (.completing i guarded .erasing)
  | .erase t i guarded =>
    { s with
      activeSessions := s.activeSessions.erase (s.key i)
      stage := update s.stage i .erased }.goto t (.completing i guarded .unlocking)
  | .completeUnlock t i guarded =>
    { s with owner := update s.owner .activeSessionsGuard none }.goto t
      (.completing i guarded .readingEc)
  | .readEc t i guarded =>
    s.goto t (.completing i guarded
      (if (s.session i).ec.value = 0 then .readingFlag else .callingBack (s.session i).ec))
  | .readFlag t i guarded =>
    s.goto t (.completing i guarded (.callingBack
      (if (s.session i).wasCancelled then .operationAborted else (s.session i).ec)))
  | .callback t i guarded ec =>
    { s with
      callbacks := update s.callbacks i
        (s.callbacks i ++ [Callback.mk (s.session i).id (s.session i).response ec]) }.goto t
      (.completing i guarded .inCallback)
  | .callbackReturns t i guarded =>
    s.goto t (if guarded then .completing i true .releasing else .idle)
  | .release t i => { s with owner := update s.owner (.cancelGuard i) none }.goto t .idle

/-- **What the first part of a handler does**: it completes, to `OnRequestComplete`, or goes on with
everything but its own place as it was. -/
theorem next_handle_cases (s : State τ) (t : τ) (i : ℕ) (op : SessionOp) (c : Completion) :
    (∃ σ : Session, σ.id = (s.session i).id ∧ σ.wasCancelled = (s.session i).wasCancelled ∧
        ((s.session i).Untouched →
          σ.response = [] ∨ σ.response = Session.firstLine (Session.received op c)) ∧
        next s (.handle t i op c) = { s with
          session := update s.session i σ
          received := update s.received i (s.received i ++ Session.received op c)
          stage := update s.stage i .entered }.goto t (.completing i false .locking)) ∨
      ∃ op', next s (.handle t i op c) = s.goto t (.handling i (.locking op')) := by
  cases h : (s.session i).handle op c with
  | mk σ ctl =>
    obtain ⟨hid, hflag, ⟨rfl, hline⟩ | ⟨op', rfl, rfl, hnone⟩⟩ := Session.handle_cases h
    · refine Or.inl ⟨σ, hid, hflag, hline, ?_⟩
      simp only [next, h]
    · refine Or.inr ⟨op', ?_⟩
      simp only [next, h, hnone, List.append_nil, Function.update_eq_self]

/-- The client among its threads. -/
def machine : Machine (State τ) (Event τ) := ⟨Enabled, next⟩

instance (s : State τ) (e : Event τ) : Decidable (machine.Enabled s e) :=
  inferInstanceAs (Decidable (Enabled s e))

end Machine

/-! ## Some runs -/

section Scenario

variable {τ : Type*} (t : τ) (i : ℕ)

/-- `EmulateLongComputationOp`, for session `i`. -/
def submitBy : List (Event τ) :=
  [.submit t .outside, .submitLock t i .outside, .store t i .outside, .submitUnlock t i .outside,
    .connect t i .outside]

/-- `op` completes, and the first part of its handler runs. -/
def handleBy (op : SessionOp) (c : Completion) : List (Event τ) :=
  [.complete i op c, .call t i op c, .handle t i op c]

/-- The rest of a handler that goes on to initiate `op`. -/
def goOnBy (op : SessionOp) : List (Event τ) :=
  [.guardLock t i op, .test t i op, .guardUnlock t i op, .initiate t i op]

/-- `OnRequestComplete`, up to its reads. -/
def completeBy (guarded : Bool) : List (Event τ) :=
  [.completeLock t i guarded, .erase t i guarded, .completeUnlock t i guarded,
    .readEc t i guarded]

/-- `CancelRequest(id)`, which finds session `i`. -/
def cancelBy (id : UInt32) : List (Event τ) :=
  [.cancelRequest t id .outside, .cancelLock t id .outside, .find t id .outside,
    .guard t i .outside, .mark t i .outside, .abort t i true .outside, .unguard t i .outside,
    .cancelUnlock t .outside]

/-- The calls of `TEST(TCP_ASYNC, tcp_client_server_async)`, made over and over. -/
def sampleCalls (_ : ℕ) : Call := ⟨12, ⟨bytes "127.0.0.1", 6969⟩, 1⟩

/-- Calls with ids and durations of their own. -/
def numberedCalls (i : ℕ) : Call :=
  { sampleCalls i with durationSec := UInt32.ofNat i, requestId := UInt32.ofNat i }

/-- The connect of a session of `sampleCalls`, or of `numberedCalls`. -/
def sampleConnect : SessionOp := .connect ⟨bytes "127.0.0.1", 6969⟩

/-- The write of a session of `sampleCalls`. -/
def sampleWrite : SessionOp := .write (bytes "EMULATE_LONG_CALC_OP 12\n")

/-- A session of `sampleCalls` up to the initiation of its read. -/
def toReadBy : List (Event τ) :=
  submitBy t i ++ handleBy t i sampleConnect ⟨.success, []⟩ ++ goOnBy t i sampleWrite
    ++ handleBy t i sampleWrite ⟨.success, []⟩ ++ goOnBy t i .readLine

end Scenario

end AsyncTCPClient

end AsioSamples
