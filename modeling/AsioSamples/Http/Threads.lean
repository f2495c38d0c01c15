import AsioSamples.Http.Request
import AsioSamples.Machinery.Baton
import AsioSamples.Machinery.Mutex
import AsioSamples.Machinery.Transition

/-!
# Http/Threads — an `HTTPRequest` between the threads that work on it

`execute`, the handlers and `cancel()` again, with every lock, flag test, initiation and unlock a
step of its own.  Threads are elements of an arbitrary type; any thread may call a queued handler,
and any thread may call `cancel()`, from outside or from inside `m_callback`.

* `guards` — a thread holds `m_cancel_mux` exactly at the points between its lock and its unlock.
* `clear_of_initiating` — a thread about to initiate holds it, and the flag is clear.
* `baton` — one thread is at work on the request, or one operation is outstanding, or the callback
  has been invoked, and never two of these.
-/

namespace AsioSamples

namespace HTTPRequest

/-! ## Program points -/

/-- Where a thread is in `cancel()`. -/
inductive CancelPc
  | locking
  /-- About to set `m_was_cancelled`. -/
  | setting
  /-- About to cancel the resolver and the socket. -/
  | aborting
  | unlocking
  deriving DecidableEq

/-- Where a thread is. -/
inductive Pc
  | idle
  /-- In `execute`, before its lock. -/
  | executing
  /-- In the handler of `op`, before its lock. -/
  | handling (op : AsyncOp) (c : Completion)
  /-- At the lock, with `op` to initiate. -/
  | locking (op : AsyncOp)
  /-- About to test `m_was_cancelled`. -/
  | testing (op : AsyncOp)
  | initiating (op : AsyncOp)
  /-- At the end of the scope of `cancel_lock`. -/
  | leaving
  /-- At the `cancel_lock.unlock()` of the cancelled exit. -/
  | unlocking
  /-- In `on_finish(ec)`, before `m_callback`. -/
  | finishing (ec : ErrorCode)
  | inCallback
  /-- In `cancel()`, called from `m_callback` or not. -/
  | cancelling (p : CancelPc) (fromCallback : Bool)
  /-- An exception has left the handler. -/
  | escaped (ec : ErrorCode)
  deriving DecidableEq

namespace Pc

/-- The points that hold `m_cancel_mux`. -/
def holdsMux : Pc → Bool
  | testing _ | initiating _ | leaving | unlocking => true
  | cancelling p _ => p ≠ .locking
  | _ => false

/-- The points from which `execute` or a handler still has to initiate or to finish. -/
def carries : Pc → Bool
  | executing | handling _ _ | locking _ | testing _ | initiating _ | unlocking | finishing _ =>
    true
  | _ => false

/-- The points outside `execute` and the handlers. -/
def outsideHandlers : Pc → Bool
  | idle | cancelling _ false => true
  | _ => false

/-- In `on_finish`, with a code that reports success. -/
def succeeds : Pc → Bool
  | finishing ec => ec.value = 0
  | _ => false

/-- Where the part of a handler that needs no lock leads. -/
def after : Control → Pc
  | .finish ec => finishing ec
  | .lock op => locking op
  | .throws ec => escaped ec

/-- Where `cancel()` was called from. -/
def caller (fromCallback : Bool) : Pc := if fromCallback then inCallback else idle

end Pc

/-! ## States and events -/

/-- An invocation of `m_callback`: its arguments, and whether a `cancel()` had returned. -/
structure Callback where
  ec : ErrorCode
  request : HTTPRequest
  cancelReturned : Bool

/-- The request, its mutex and its outstanding operations, the threads, and what has happened. -/
structure State (τ : Type*) where
  request : HTTPRequest
  cancelMux : Option τ := none
  pc : τ → Pc
  outstanding : List (Pending AsyncOp) := []
  initiated : List AsyncOp := []
  cancelsReturned : ℕ := 0
  callbacks : List Callback := []

/-- The steps. -/
inductive Event (τ : Type*)
  | execute (t : τ)
  /-- `op` completes. -/
  | complete (op : AsyncOp) (c : Completion)
  /-- The handler of `op` is called. -/
  | call (t : τ) (op : AsyncOp) (c : Completion)
  /-- The handler's part before its lock; `shutdown` is what a socket shutdown reports. -/
  | handle (t : τ) (op : AsyncOp) (c : Completion) (shutdown : ErrorCode)
  | lock (t : τ) (op : AsyncOp)
  | test (t : τ) (op : AsyncOp)
  | initiate (t : τ) (op : AsyncOp)
  | leave (t : τ)
  | unlock (t : τ)
  | callback (t : τ) (ec : ErrorCode)
  | callbackReturns (t : τ)
  | cancel (t : τ) (fromCallback : Bool)
  | cancelLock (t : τ) (fromCallback : Bool)
  | setFlag (t : τ) (fromCallback : Bool)
  | abort (t : τ) (fromCallback : Bool) (reached : Bool)
  /-- `m_sock.cancel()` throws. -/
  | abortThrows (t : τ) (fromCallback : Bool) (reached : Bool) (ec : ErrorCode)
  | cancelUnlock (t : τ) (fromCallback : Bool)

section Machine

variable {τ : Type*} [DecidableEq τ]

namespace State

/-- One call of `execute`, by `t₀`. -/
def start (r : HTTPRequest) (t₀ : τ) : State τ where
  request := r
  pc := Function.update (fun _ => .idle) t₀ .executing

/-- `s` with thread `t` at `p`. -/
def goto (s : State τ) (t : τ) (p : Pc) : State τ := { s with pc := Function.update s.pc t p }

end State

/-- When a step can be taken. -/
def Enabled (w : ULong) (s : State τ) : Event τ → Prop
  | .execute t => s.pc t = .executing ∧ s.request.execute.isSome
  | .complete op _ => (⟨op, none⟩ : Pending AsyncOp) ∈ s.outstanding
  | .call t op c => s.pc t = .idle ∧ ⟨op, some c⟩ ∈ s.outstanding
  | .handle t op c shutdown => s.pc t = .handling op c ∧ (s.request.handle w shutdown op c).isSome
  | .lock t op => s.pc t = .locking op ∧ s.cancelMux = none
  | .test t op => s.pc t = .testing op
  | .initiate t op => s.pc t = .initiating op
  | .leave t => s.pc t = .leaving
  | .unlock t => s.pc t = .unlocking
  | .callback t ec => s.pc t = .finishing ec
  | .callbackReturns t => s.pc t = .inCallback
  | .cancel t fromCallback => s.pc t = .caller fromCallback
  | .cancelLock t fromCallback => s.pc t = .cancelling .locking fromCallback ∧ s.cancelMux = none
  | .setFlag t fromCallback => s.pc t = .cancelling .setting fromCallback
  | .abort t fromCallback _ => s.pc t = .cancelling .aborting fromCallback
  | .abortThrows t fromCallback _ _ => s.pc t = .cancelling .aborting fromCallback
  | .cancelUnlock t fromCallback => s.pc t = .cancelling .unlocking fromCallback

instance (w : ULong) (s : State τ) (e : Event τ) : Decidable (Enabled w s e) :=
  match e with
  | .execute _ | .call .. | .handle .. | .lock .. | .cancelLock .. =>
    inferInstanceAs (Decidable (_ ∧ _))
  | .complete .. => inferInstanceAs (Decidable (_ ∈ _))
  | .test .. | .initiate .. | .leave _ | .unlock _ | .callback .. | .callbackReturns _ | .cancel ..
  | .setFlag .. | .abort .. | .abortThrows .. | .cancelUnlock .. =>
    inferInstanceAs (Decidable (_ = _))

/-- Where a step leads. -/
def next (w : ULong) (s : State τ) : Event τ → State τ
  | .execute t =>
    match s.request.execute with
    | some ctl => s.goto t (.after ctl)
    | none => s
  | .complete op c => { s with outstanding := Pending.complete s.outstanding op c }
  | .call t op c =>
    { s with outstanding := Pending.dequeue s.outstanding op c }.goto t (.handling op c)
  | .handle t op c shutdown =>
    match s.request.handle w shutdown op c with
    | some (r, ctl) => { s with request := r }.goto t (.after ctl)
    | none => s
  | .lock t op => { s with cancelMux := some t }.goto t (.testing op)
  | .test t op => s.goto t (if s.request.wasCancelled then .unlocking else .initiating op)
  | .initiate t op =>
    { s with
      outstanding := Pending.initiate s.outstanding op
      initiated := s.initiated ++ [op] }.goto t .leaving
  | .leave t => { s with cancelMux := none }.goto t .idle
  | .unlock t => { s with cancelMux := none }.goto t (.finishing .operationAborted)
  | .callback t ec =>
    { s with
      callbacks := s.callbacks ++ [Callback.mk ec s.request (0 < s.cancelsReturned)] }.goto t
      .inCallback
  | .callbackReturns t => s.goto t .idle
  | .cancel t fromCallback => s.goto t (.cancelling .locking fromCallback)
  | .cancelLock t fromCallback =>
    { s with cancelMux := some t }.goto t (.cancelling .setting fromCallback)
  | .setFlag t fromCallback =>
    { s with request := { s.request with wasCancelled := true } }.goto t
      (.cancelling .aborting fromCallback)
  | .abort t fromCallback reached =>
    { s with outstanding := Pending.cancel reached s.outstanding }.goto t
      (.cancelling .unlocking fromCallback)
  | .abortThrows t _ reached ec =>
    { s with
      cancelMux := none
      outstanding := Pending.cancel reached s.outstanding }.goto t (.escaped ec)
  | .cancelUnlock t fromCallback =>
    { s with
      cancelMux := none
      cancelsReturned := s.cancelsReturned + 1 }.goto t (.caller fromCallback)

/-- The request among its threads. -/
def machine (w : ULong) : Machine (State τ) (Event τ) := ⟨Enabled w, next w⟩

instance (w : ULong) (s : State τ) (e : Event τ) : Decidable ((machine w).Enabled s e) :=
  inferInstanceAs (Decidable (Enabled w s e))

/-! ## The mutex -/

/-- A thread holds `m_cancel_mux` exactly between its lock and its unlock. -/
def Guarded (s : State τ) : Prop := Guards (fun p => p.holdsMux) s.cancelMux s.pc

theorem guarded_start (r : HTTPRequest) (t₀ : τ) : Guarded (State.start r t₀) := by
  exact (Function.forall_update_iff (fun _ => Pc.idle) fun t q => none = some t ↔ q.holdsMux).mpr
    ⟨iff_of_false (by simp) Bool.noConfusion, fun t _ => iff_of_false (by simp) Bool.noConfusion⟩

@[simp] theorem holdsMux_after : ∀ ctl : Control, (Pc.after ctl).holdsMux = false
  | .finish _ => rfl
  | .lock _ => rfl
  | .throws _ => rfl

@[simp] theorem holdsMux_caller : ∀ fromCallback, (Pc.caller fromCallback).holdsMux = false
  | true => rfl
  | false => rfl

theorem guarded_next {w : ULong} {s : State τ} {e : Event τ} (h : Guarded s)
    (he : Enabled w s e) : Guarded (next w s e) := by
  cases e with
  | execute t =>
    obtain ⟨hpc, hexec⟩ := he
    obtain ⟨ctl, hctl⟩ := Option.isSome_iff_exists.mp hexec
    simp only [next, hctl]
    exact h.keep hpc (iff_of_false (by simp) Bool.noConfusion)
  | complete op c => exact h
  | call t op c => exact h.keep he.1 Iff.rfl
  | handle t op c shutdown =>
    obtain ⟨hpc, hsome⟩ := he
    obtain ⟨⟨r, ctl⟩, hctl⟩ := Option.isSome_iff_exists.mp hsome
    simp only [next, hctl]
    exact h.keep hpc (iff_of_false (by simp) Bool.noConfusion)
  | lock t op => exact h.acquire he.2 rfl
  | test t op =>
    refine h.keep he ?_
    split <;> exact Iff.rfl
  | leave t | unlock t => exact h.release he rfl Bool.noConfusion
  | cancel t fromCallback => exact h.keep he (by cases fromCallback <;> exact Iff.rfl)
  | cancelLock t fromCallback => exact h.acquire he.2 rfl
  | abortThrows t fromCallback reached ec => exact h.release he rfl Bool.noConfusion
  | cancelUnlock t fromCallback => exact h.release he rfl (by simp)
  | _ => exact h.keep he Iff.rfl

/-- **Who holds `m_cancel_mux` can be read off the program points**, in every state. -/
theorem guards {w : ULong} {r : HTTPRequest} {t₀ : τ} {s : State τ}
    (h : (machine w).Runs (.start r t₀) s) : Guarded s :=
  h.invariant (guarded_start r t₀) fun _ _ _ hs he => guarded_next hs he

/-! ## The flag -/

/-- A thread about to initiate an operation found the flag clear, and it still is. -/
def ClearOfInitiating (s : State τ) : Prop :=
  ∀ t op, s.pc t = .initiating op → s.request.wasCancelled = false

/-- A step of one thread, to a point that does not initiate and with the flag as it was. -/
theorem ClearOfInitiating.keep {s s' : State τ} (h : ClearOfInitiating s) {t : τ} {p : Pc}
    (hpc : s'.pc = Function.update s.pc t p) (hp : ∀ op, p ≠ .initiating op)
    (hflag : s'.request.wasCancelled = s.request.wasCancelled) : ClearOfInitiating s' := by
  rw [ClearOfInitiating, hpc, hflag]
  exact (Function.forall_update_iff s.pc fun _ q => ∀ op, q = .initiating op →
    s.request.wasCancelled = false).mpr ⟨fun op hx => absurd hx (hp op), fun u _ => h u⟩

theorem after_ne_initiating (ctl : Control) (op : AsyncOp) : Pc.after ctl ≠ .initiating op := by
  cases ctl <;> simp [Pc.after]

theorem clearOfInitiating_next {w : ULong} {s : State τ} {e : Event τ} (hg : Guarded s)
    (h : ClearOfInitiating s) (he : Enabled w s e) : ClearOfInitiating (next w s e) := by
  cases e with
  | execute t =>
    obtain ⟨ctl, hctl⟩ := Option.isSome_iff_exists.mp he.2
    simp only [next, hctl]
    exact h.keep rfl (after_ne_initiating ctl) rfl
  | complete op c => exact h
  | handle t op c shutdown =>
    obtain ⟨⟨r, ctl⟩, hctl⟩ := Option.isSome_iff_exists.mp he.2
    simp only [next, hctl]
    exact h.keep rfl (after_ne_initiating ctl) (handle_cases hctl).1
  | test t op =>
    by_cases hflag : s.request.wasCancelled
    · simp only [next, hflag, if_true]
      exact h.keep rfl (by simp) rfl
    · simp only [next, hflag]
      intro u op' _
      exact Bool.eq_false_iff.mpr hflag
  | setFlag t fromCallback =>
    -- the canceller holds the mutex, so no thread is between its test and its initiation
    have hset : s.pc t = .cancelling .setting fromCallback := he
    refine (Function.forall_update_iff s.pc fun _ q => ∀ op, q = .initiating op → _).mpr
      ⟨fun op hx => (nomatch hx), fun u hut op hu => absurd ?_ hut⟩
    exact hg.unique (by rw [hu]; rfl) (by rw [hset]; rfl)
  | cancelUnlock t fromCallback =>
    refine h.keep rfl ?_ rfl
    cases fromCallback <;> simp [Pc.caller]
  | _ => exact h.keep rfl (by simp) rfl

/-- **Between a clear test and the initiation the flag stays clear.** -/
theorem clear_of_initiating {w : ULong} {r : HTTPRequest} {t₀ : τ} {s : State τ}
    (h : (machine w).Runs (.start r t₀) s) : ClearOfInitiating s := by
  refine h.invariant ?_ fun s' e hs' hclear he => clearOfInitiating_next (guards hs') hclear he
  exact (Function.forall_update_iff (fun _ => Pc.idle) fun _ q => ∀ op, q = .initiating op → _).mpr
    ⟨fun op ht => (nomatch ht), fun t _ op ht => (nomatch ht)⟩

/-! ## The baton -/

/-- No call of asio throws. -/
def NoThrow (_ : State τ) : Event τ → Prop
  | .handle _ _ _ shutdown => shutdown.value = 0
  | .abortThrows .. => False
  | _ => True

instance (s : State τ) (e : Event τ) : Decidable (NoThrow s e) :=
  match e with
  | .handle .. => inferInstanceAs (Decidable (_ = _))
  | .abortThrows .. => inferInstanceAs (Decidable False)
  | .execute _ | .complete .. | .call .. | .lock .. | .test .. | .initiate .. | .leave _
  | .unlock _ | .callback .. | .callbackReturns _ | .cancel .. | .cancelLock .. | .setFlag ..
  | .abort .. | .cancelUnlock .. => inferInstanceAs (Decidable True)

/-- No call that a handler makes fails: the one there is shuts the socket down once the request has
been sent. -/
def CallsSucceed (_ : State τ) : Event τ → Prop
  | .handle _ (.write _) c shutdown => c.ec.value = 0 → shutdown.value = 0
  | _ => True

omit [DecidableEq τ] in
theorem NoThrow.callsSucceed {s : State τ} {e : Event τ} (h : NoThrow s e) : CallsSucceed s e := by
  unfold CallsSucceed
  split
  · exact fun _ => h
  · trivial

/-- One thread at work, or one operation outstanding, or one callback. -/
def Single (s : State τ) : Prop :=
  Baton (fun p => p.carries) s.pc true s.outstanding.length s.callbacks.length

theorem single_start (r : HTTPRequest) (t₀ : τ) : Single (State.start r t₀) := by
  refine .thread t₀ ?_
  exact (Function.forall_update_iff (fun _ => Pc.idle) fun t q => q.carries ↔ t = t₀).mpr
    ⟨iff_of_true rfl rfl, fun t ht => iff_of_false Bool.noConfusion ht⟩

theorem single_next {w : ULong} {s : State τ} {e : Event τ} (h : Single s) (he : Enabled w s e)
    (hcalls : CallsSucceed s e) : Single (next w s e) := by
  cases e with
  | execute t =>
    obtain ⟨hpc, hexec⟩ := he
    simp only [next, (execute_eq_of_isSome hexec).1]
    exact h.keep hpc Iff.rfl
  | complete op c => simpa [Single, next] using h
  | call t op c =>
    obtain ⟨hpc, hmem⟩ := he
    have hlen := Pending.length_dequeue hmem
    rw [Single, hlen] at h
    exact h.take rfl
  | handle t op c shutdown =>
    obtain ⟨hpc, hsome⟩ := he
    obtain ⟨⟨r, ctl⟩, hctl⟩ := Option.isSome_iff_exists.mp hsome
    simp only [next, hctl]
    cases ctl with
    | finish ec => exact h.keep hpc Iff.rfl
    | lock op' => exact h.keep hpc Iff.rfl
    | throws ec =>
      obtain ⟨⟨buffer, rfl⟩, hec, hshut⟩ := handle_throws_iff.mp ⟨r, ec, hctl⟩
      exact absurd (hcalls hec) hshut
  | test t op =>
    refine h.keep he ?_
    split <;> exact Iff.rfl
  | initiate t op =>
    have h' := h.initiate (x := .leaving) he rfl Bool.noConfusion
    simpa [Single, next, State.goto] using h'
  | callback t ec =>
    have h' := h.spend (x := .inCallback) he rfl Bool.noConfusion
    simpa [Single, next, State.goto] using h'
  | cancel t fromCallback => exact h.keep he (by cases fromCallback <;> exact Iff.rfl)
  | abort t fromCallback reached =>
    have h' := h.keep (x := .cancelling .unlocking fromCallback) he Iff.rfl
    simpa [Single, next, State.goto] using h'
  | abortThrows t fromCallback reached ec =>
    have h' := h.keep (x := .escaped ec) he Iff.rfl
    simpa [Single, next, State.goto] using h'
  | cancelUnlock t fromCallback => exact h.keep he (by cases fromCallback <;> exact Iff.rfl)
  | lock t op | cancelLock t fromCallback => exact h.keep he.1 Iff.rfl
  | _ => exact h.keep he Iff.rfl

/-- **The request is in one place at a time**, in every run in which no handler throws. -/
theorem baton {w : ULong} {r : HTTPRequest} {t₀ : τ} {s : State τ}
    (h : ((machine w).restrict CallsSucceed).Runs (.start r t₀) s) : Single s :=
  h.invariant (single_start r t₀) fun _ _ _ hs he => single_next hs he.1 he.2

end Machine

end HTTPRequest

end AsioSamples
