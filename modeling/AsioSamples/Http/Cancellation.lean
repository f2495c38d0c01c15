import AsioSamples.Http.Exchange
import AsioSamples.Http.Threads

/-!
# Http/Cancellation — what `cancel()` does to an `HTTPRequest`

The runs of `Http/Threads`, with any number of `cancel()` calls at any points.

* `exists_runs_of_run` — what `Http/Exchange` computes for a request that nobody cancels is what
  one of these runs comes to.
* `request_called_back_once` — the callback is invoked once, and never by a thread that holds the
  mutex.
* `initiated_eq_of_wasCancelled` — nothing is initiated once the flag is set.
* `cancelled_request_reports_error` — a cancelled request reports an error, unless the cancellation
  comes when the body has already been read: the body handler is the one handler that does not look
  at the flag (`exists_cancelled_success`).
-/

namespace AsioSamples

namespace HTTPRequest

variable {τ : Type*} [DecidableEq τ] {w : ULong}

/-! ## Runs without a cancellation -/

section Uncancelled

variable (shutdown : ErrorCode) (answer : Bytes → List Bytes) (t : τ)

/-- A request that nobody has cancelled: thread `t` is at `p`, and `ops` are outstanding. -/
structure Quiet (p : Pc) (ops : List (Pending AsyncOp)) (r : HTTPRequest) (s : State τ) : Prop where
  pc : s.pc t = p
  outstanding : s.outstanding = ops
  request : s.request = r
  cancelMux : s.cancelMux = none
  cancelsReturned : s.cancelsReturned = 0
  callbacks : s.callbacks = []

variable {t}

/-- From an outstanding operation to the end of the first part of its handler. -/
theorem Quiet.handled {s : State τ} {r r' : HTTPRequest} {op : AsyncOp}
    (h : Quiet t .idle [⟨op, none⟩] r s) {c : Completion} {ctl : Control}
    (hctl : r.handle w shutdown op c = some (r', ctl)) :
    ∃ s', (machine w).Runs s s' ∧ Quiet t (.after ctl) [] r' s' := by
  obtain ⟨hpc, hout, rfl, hmux, hret, hcb⟩ := h
  have h₁ := Machine.Runs.single (m := machine w) (s := s) (e := .complete op c) (by
    simp [machine, Enabled, hout])
  have h₂ := h₁.step (e := .call t op c) (by
    simp [machine, Enabled, next, hpc, hout, Pending.complete])
  have h₃ := h₂.step (e := .handle t op c shutdown) (by
    simp [machine, Enabled, next, State.goto, hctl])
  refine ⟨_, h₃, ?_⟩
  constructor <;>
    simp [machine, next, State.goto, hctl, hmux, hret, hcb, hout, Pending.complete, Pending.dequeue]

/-- From the lock to the end of its scope. -/
theorem Quiet.initiated {s : State τ} {r : HTTPRequest} {op : AsyncOp}
    (h : Quiet t (.locking op) [] r s) (hflag : r.wasCancelled = false) :
    ∃ s', (machine w).Runs s s' ∧ Quiet t .idle [⟨op, none⟩] r s' := by
  obtain ⟨hpc, hout, rfl, hmux, hret, hcb⟩ := h
  have h₁ := Machine.Runs.single (m := machine w) (s := s) (e := .lock t op) ⟨hpc, hmux⟩
  have h₂ := h₁.step (e := .test t op) (by simp [machine, Enabled, next, State.goto])
  have h₃ := h₂.step (e := .initiate t op) (by simp [machine, Enabled, next, State.goto, hflag])
  have h₄ := h₃.step (e := .leave t) (by simp [machine, Enabled, next, State.goto])
  refine ⟨_, h₄, ?_⟩
  constructor <;> simp [machine, next, State.goto, hout, hret, hcb, Pending.initiate]

theorem exists_runs_of_runFrom : ∀ (n : ℕ) {s : State τ} {r r' : HTTPRequest} {op : AsyncOp}
    {incoming : List Bytes} {ec : ErrorCode}, Quiet t .idle [⟨op, none⟩] r s →
      r.wasCancelled = false → runFrom w shutdown answer n r op incoming = some (ec, r') →
        ∃ s', (machine w).Runs s s' ∧ s'.callbacks = [⟨ec, r', false⟩] := by
  intro n
  induction n with
  | zero => intro s r r' op incoming ec _ _ h; cases h
  | succ n ih =>
    intro s r r' op incoming ec hs hflag h
    simp only [runFrom] at h
    split at h
    next r₁ op' hctl =>
      obtain ⟨s₁, hrun₁, hs₁⟩ := hs.handled shutdown hctl
      have hflag₁ : r₁.wasCancelled = false := (handle_cases hctl).1.trans hflag
      obtain ⟨s₂, hrun₂, hs₂⟩ := hs₁.initiated hflag₁
      obtain ⟨s₃, hrun₃, hend⟩ := ih hs₂ hflag₁ h
      exact ⟨s₃, hrun₁.trans (hrun₂.trans hrun₃), hend⟩
    next r₁ ec₁ hctl =>
      obtain ⟨s₁, hrun₁, hs₁⟩ := hs.handled shutdown hctl
      cases h
      have hpc : (machine w).Enabled s₁ (.callback t ec) := hs₁.pc
      refine ⟨_, hrun₁.step hpc, ?_⟩
      simp [machine, next, State.goto, hs₁.callbacks, hs₁.request, hs₁.cancelsReturned]
    next => cases h

/-- **A request that nobody cancels comes to what `run` computes for it.** -/
theorem exists_runs_of_run {r r' : HTTPRequest} {ec : ErrorCode} (hflag : r.wasCancelled = false)
    (h : r.run w shutdown answer = some (ec, r')) :
    ∃ s, (machine w).Runs (.start r t) s ∧ s.callbacks = [⟨ec, r', false⟩] := by
  rw [run] at h
  split at h
  next op hctl =>
    have h₁ := Machine.Runs.single (m := machine w) (s := .start r t) (e := .execute t) (by
      simp [machine, Enabled, State.start, hctl])
    have hs₁ : Quiet t (.locking op) [] r ((machine w).next (.start r t) (.execute t)) := by
      constructor <;> simp [machine, next, State.goto, State.start, hctl, Pc.after]
    obtain ⟨s₂, hrun₂, hs₂⟩ := hs₁.initiated hflag
    obtain ⟨s₃, hrun₃, hend⟩ := exists_runs_of_runFrom shutdown answer 6 hs₂ hflag h
    exact ⟨s₃, h₁.trans (hrun₂.trans hrun₃), hend⟩
  next => cases h

end Uncancelled

/-! ## Some runs -/

section Scenario

/-- `op` completes, and `t` runs the first part of its handler. -/
def handlingBy (t : τ) (op : AsyncOp) (c : Completion) : List (Event τ) :=
  [.complete op c, .call t op c, .handle t op c .success]

/-- `t` initiates `op`. -/
def initiatingBy (t : τ) (op : AsyncOp) : List (Event τ) :=
  [.lock t op, .test t op, .initiate t op, .leave t]

/-- `t` calls `cancel()`, from lock to return. -/
def cancellingBy (t : τ) : List (Event τ) :=
  [.cancel t false, .cancelLock t false, .setFlag t false, .abort t false true,
    .cancelUnlock t false]

/-- The first operation of `simpleScenario`. -/
def simpleScenarioResolve : AsyncOp := .resolve (bytes "localhost") (bytes "6969")

/-- `simpleScenario` up to the initiation of its last read, with thread `true` doing all of it. -/
def simpleScenarioToBody : List (Event Bool) :=
  [.execute true] ++ initiatingBy true simpleScenarioResolve
    ++ handlingBy true simpleScenarioResolve ⟨.success, []⟩ ++ initiatingBy true .connect
    ++ handlingBy true .connect ⟨.success, []⟩
    ++ initiatingBy true (.write simpleScenario.requestBytes)
    ++ handlingBy true (.write simpleScenario.requestBytes) ⟨.success, []⟩
    ++ initiatingBy true .readStatusLine
    ++ handlingBy true .readStatusLine ⟨.success, bytes "HTTP/1.1 200 OK\r\n"⟩
    ++ initiatingBy true .readHeaders
    ++ handlingBy true .readHeaders ⟨.success, bytes "content-length: 0\r\n\r\n"⟩
    ++ initiatingBy true .readBody

end Scenario

/-! ## One callback -/

theorem Pc.not_carries_of_outsideHandlers : ∀ {p : Pc}, p.outsideHandlers → p.carries = false
  | .idle, _ => rfl
  | .cancelling _ false, _ => rfl

/-- **Exactly one callback.**  Between handlers either one operation is outstanding and the callback
has not been invoked, or none is and it has been invoked once; and a thread that invokes the
callback, or is inside it, does not hold `m_cancel_mux`. -/
theorem request_called_back_once {r : HTTPRequest} {t₀ : τ} {s : State τ}
    (h : ((machine w).restrict NoThrow).Runs (.start r t₀) s) :
    ((∀ t, (s.pc t).outsideHandlers) →
      s.outstanding.length = 1 ∧ s.callbacks.length = 0 ∨
        s.outstanding.length = 0 ∧ s.callbacks.length = 1) ∧
    ∀ t, (s.pc t = .inCallback ∨ ∃ ec, s.pc t = .finishing ec) → s.cancelMux ≠ some t := by
  have hbaton := baton (h.restrict_mono fun _ _ => NoThrow.callsSucceed)
  refine ⟨fun hout => hbaton.of_idle fun t ht => ?_, ?_⟩
  · rw [Pc.not_carries_of_outsideHandlers (hout t)] at ht
    cases ht
  · rintro t hpc hown
    have hholds := (guards h.of_restrict t).mp hown
    rcases hpc with hpc | ⟨ec, hpc⟩ <;>
    · rw [hpc] at hholds
      cases hholds

theorem request_called_back_once_simpleScenario : ∃ s : State Bool,
    ((machine .bits64).restrict NoThrow).Runs (.start simpleScenario true) s ∧
      s.outstanding.length = 0 ∧ s.callbacks.length = 1 := by
  obtain ⟨s, hs, hout, hcb⟩ := Machine.exists_runs_of_exec
    (m := (machine .bits64).restrict NoThrow) (s := .start simpleScenario true)
    (Q := fun s => (∀ t, (s.pc t).outsideHandlers = true) ∧ s.callbacks ≠ [])
    (simpleScenarioToBody ++ handlingBy true .readBody ⟨.eof, []⟩
      ++ [.callback true .success, .callbackReturns true]) (by decide +kernel)
  refine ⟨s, hs, ?_⟩
  rcases (request_called_back_once hs).1 hout with ⟨-, hnone⟩ | hone
  · exact absurd (List.length_eq_zero_iff.mp hnone) hcb
  · exact hone

/-! ## A cancelled request initiates nothing -/

/-- The flag stays set. -/
theorem wasCancelled_next {s : State τ} {e : Event τ} (hflag : s.request.wasCancelled = true) :
    (next w s e).request.wasCancelled = true := by
  cases e with
  | execute t =>
    simp only [next]
    split <;> exact hflag
  | handle t op c shutdown =>
    simp only [next]
    split
    next r ctl hctl => exact (handle_cases hctl).1.trans hflag
    next => exact hflag
  | setFlag t fromCallback => rfl
  | _ => exact hflag

/-- Only `initiate` initiates. -/
theorem initiated_next {s : State τ} {e : Event τ} (he : ∀ t op, e ≠ .initiate t op) :
    (next w s e).initiated = s.initiated := by
  cases e with
  | execute t =>
    simp only [next]
    split <;> rfl
  | handle t op c shutdown =>
    simp only [next]
    split <;> rfl
  | initiate t op => exact absurd rfl (he t op)
  | _ => rfl

/-- **Cancelling stops the request**: once some `cancel()` has set the flag, no operation is ever
initiated. -/
theorem initiated_eq_of_wasCancelled {r : HTTPRequest} {t₀ : τ} {s s' : State τ}
    (h : (machine w).Runs (.start r t₀) s) (hflag : s.request.wasCancelled = true)
    (h' : (machine w).Runs s s') : s'.initiated = s.initiated := by
  refine (h'.invariant (I := fun s' => s'.request.wasCancelled = true ∧ s'.initiated = s.initiated)
    ⟨hflag, rfl⟩ fun s₁ e hs₁ ⟨hflag₁, hsame⟩ he => ⟨wasCancelled_next hflag₁, ?_⟩).2
  refine (initiated_next fun t op hinit => ?_).trans hsame
  subst hinit
  have hclear := clear_of_initiating (h.trans hs₁) t op he
  rw [hflag₁] at hclear
  cases hclear

theorem initiated_eq_of_wasCancelled_simpleScenario : ∃ s s' : State Bool,
    (machine .bits64).Runs (.start simpleScenario true) s ∧ s.request.wasCancelled = true ∧
      (machine .bits64).Runs s s' ∧ s'.callbacks.length = 1 ∧ s'.initiated = s.initiated := by
  obtain ⟨s, hs, hflag, hany⟩ := Machine.exists_runs_of_exec
    (m := machine .bits64) (s := .start simpleScenario true)
    (Q := fun s => s.request.wasCancelled = true ∧ ((machine .bits64).exec s
      ([.call true simpleScenarioResolve ⟨.operationAborted, []⟩,
        .handle true simpleScenarioResolve ⟨.operationAborted, []⟩ .success,
        .callback true .operationAborted])).any (fun s' => s'.callbacks.length == 1) = true)
    ([.execute true] ++ initiatingBy true simpleScenarioResolve ++ cancellingBy false)
    (by decide +kernel)
  obtain ⟨s', hs', hcb⟩ := (Option.any_eq_true _ _).mp hany
  have hrun := Machine.runs_of_exec hs'
  exact ⟨s, s', hs, hflag, hrun, by simpa using hcb, initiated_eq_of_wasCancelled hs hflag hrun⟩

/-! ## What a cancelled request reports -/

/-- No `cancel()` has returned when the body handler runs on a complete body, and none returns
between that and the callback. -/
def NoLateCancel (s : State τ) : Event τ → Prop
  | .handle _ op c _ => op = .readBody → c.ec.value = 0 ∨ c.ec = .eof → s.cancelsReturned = 0
  | .cancelUnlock _ _ => ∀ t, (s.pc t).succeeds = false
  | _ => True

instance [Fintype τ] (s : State τ) (e : Event τ) : Decidable (NoLateCancel s e) :=
  match e with
  | .handle .. => inferInstanceAs (Decidable (_ → _ → _))
  | .cancelUnlock .. => inferInstanceAs (Decidable (∀ _, _))
  | .execute _ | .complete .. | .call .. | .lock .. | .test .. | .initiate .. | .leave _
  | .unlock _ | .callback .. | .callbackReturns _ | .cancel .. | .cancelLock .. | .setFlag ..
  | .abort .. | .abortThrows .. => inferInstanceAs (Decidable True)

/-- A thread that is about to report success does so before any `cancel()` has returned, and a
callback that came after one was given an error. -/
structure Truthful (s : State τ) : Prop where
  succeeds : ∀ t, (s.pc t).succeeds → s.cancelsReturned = 0
  callbacks : ∀ cb ∈ s.callbacks, cb.cancelReturned → cb.ec.value ≠ 0

/-- A step of one thread to a point that does not report success. -/
theorem Truthful.keep {s s' : State τ} (h : Truthful s) {t : τ} {p : Pc}
    (hpc : s'.pc = Function.update s.pc t p) (hp : p.succeeds → s.cancelsReturned = 0)
    (hret : s'.cancelsReturned = s.cancelsReturned) (hcb : s'.callbacks = s.callbacks) :
    Truthful s' := by
  refine ⟨?_, hcb ▸ h.callbacks⟩
  rw [hpc, hret]
  exact (Function.forall_update_iff s.pc fun _ q => q.succeeds → s.cancelsReturned = 0).mpr
    ⟨hp, fun u _ => h.succeeds u⟩

theorem truthful_next {s : State τ} {e : Event τ} (h : Truthful s) (he : Enabled w s e)
    (hlate : NoLateCancel s e) : Truthful (next w s e) := by
  cases e with
  | execute t =>
    simp only [next, (execute_eq_of_isSome he.2).1]
    exact h.keep rfl Bool.noConfusion rfl rfl
  | complete op c => exact ⟨h.succeeds, h.callbacks⟩
  | handle t op c shutdown =>
    obtain ⟨⟨r, ctl⟩, hctl⟩ := Option.isSome_iff_exists.mp he.2
    simp only [next, hctl]
    refine h.keep rfl (fun hzero => ?_) rfl rfl
    cases (handle_cases hctl).2 with
    | failed hec => exact absurd (of_decide_eq_true hzero) hec
    | complete hop hec => exact hlate hop hec
    | goOn | threw => cases hzero
  | test t op =>
    refine h.keep rfl (fun hzero => ?_) rfl rfl
    split at hzero <;> cases hzero
  | callback t ec =>
    have hfin : s.pc t = .finishing ec := he
    have hmid : Truthful (s.goto t .inCallback) := h.keep rfl Bool.noConfusion rfl rfl
    refine ⟨hmid.succeeds, ?_⟩
    intro cb hcb hreturned
    rcases List.mem_append.mp hcb with hold | hnew
    · exact h.callbacks cb hold hreturned
    · obtain rfl := List.mem_singleton.mp hnew
      intro hzero
      have hnone := h.succeeds t (by rw [hfin]; exact decide_eq_true hzero)
      have hsome : 0 < s.cancelsReturned := of_decide_eq_true hreturned
      omega
  | cancelUnlock t fromCallback =>
    refine ⟨?_, h.callbacks⟩
    refine (Function.forall_update_iff s.pc fun _ q => q.succeeds → s.cancelsReturned + 1 = 0).mpr
      ⟨fun hu => ?_, fun u _ hu => ?_⟩
    · cases fromCallback <;> cases hu
    · rw [hlate u] at hu
      cases hu
  | _ => exact h.keep rfl Bool.noConfusion rfl rfl

/-- **A cancelled request is not reported as a success** — in every run in which no cancellation is
late. -/
theorem cancelled_request_reports_error {r : HTTPRequest} {t₀ : τ} {s : State τ}
    (h : ((machine w).restrict NoLateCancel).Runs (.start r t₀) s) :
    ∀ cb ∈ s.callbacks, cb.cancelReturned → cb.ec.value ≠ 0 := by
  refine (h.invariant (I := Truthful) ⟨fun t ht => rfl, fun cb hcb => ?_⟩
    fun s' e _ hs' he => truthful_next hs' he.1 he.2).callbacks
  cases hcb

theorem cancelled_request_reports_error_simpleScenario : ∃ s : State Bool,
    ((machine .bits64).restrict NoLateCancel).Runs (.start simpleScenario true) s ∧
      s.callbacks ≠ [] ∧ ∀ cb ∈ s.callbacks, cb.cancelReturned ∧ cb.ec.value ≠ 0 := by
  obtain ⟨s, hs, hne, hreturned⟩ := Machine.exists_runs_of_exec
    (m := (machine .bits64).restrict NoLateCancel) (s := .start simpleScenario true)
    (Q := fun s => s.callbacks ≠ [] ∧ ∀ cb ∈ s.callbacks, cb.cancelReturned = true)
    ([.execute true] ++ initiatingBy true simpleScenarioResolve ++ cancellingBy false
      ++ [.call true simpleScenarioResolve ⟨.operationAborted, []⟩,
        .handle true simpleScenarioResolve ⟨.operationAborted, []⟩ .success,
        .callback true .operationAborted]) (by decide +kernel)
  exact ⟨s, hs, hne, fun cb hcb => ⟨hreturned cb hcb, cancelled_request_reports_error hs cb hcb
    (hreturned cb hcb)⟩⟩

theorem Pc.of_succeeds : ∀ {p : Pc}, p.succeeds → ∃ ec, p = .finishing ec ∧ ec.value = 0
  | .finishing ec, h => ⟨ec, rfl, of_decide_eq_true h⟩

/-- A thread about to report success after a `cancel()` has returned goes on to do so. -/
theorem exists_cancelled_success_of_succeeds {s : State τ} {t : τ} (ht : (s.pc t).succeeds)
    (hret : 0 < s.cancelsReturned) : ∃ s', (machine w).Runs s s' ∧
      ∃ cb ∈ s'.callbacks, cb.cancelReturned = true ∧ cb.ec.value = 0 := by
  obtain ⟨ec, hpc, hzero⟩ := Pc.of_succeeds ht
  have hrun := Machine.Runs.single (m := machine w) (e := .callback t ec) hpc
  refine ⟨_, hrun, ⟨ec, s.request, true⟩, ?_, rfl, hzero⟩
  simp [machine, next, State.goto, hret]

/-- **A late cancellation is lost**: it leads to a thread that is about to report success. -/
theorem exists_cancelled_success_of_late {s : State τ} {e : Event τ} (he : Enabled w s e)
    (hlate : ¬ NoLateCancel s e) : ∃ s', (machine w).Runs (next w s e) s' ∧
      ∃ cb ∈ s'.callbacks, cb.cancelReturned = true ∧ cb.ec.value = 0 := by
  cases e with
  | handle t op c shutdown =>
    obtain ⟨rfl, hec, hret⟩ : op = .readBody ∧ (c.ec.value = 0 ∨ c.ec = .eof) ∧
        s.cancelsReturned ≠ 0 := by simpa [NoLateCancel] using hlate
    have hpos : 0 < (next w s (.handle t .readBody c shutdown)).cancelsReturned := by
      simp only [next]
      split <;> exact Nat.pos_of_ne_zero hret
    refine exists_cancelled_success_of_succeeds (t := t) ?_ hpos
    by_cases heof : c.ec = .eof
    · simp [next, handle, onResponseBodyReceived, heof, State.goto, Pc.after, Pc.succeeds]
    · have hzero : c.ec.value = 0 := hec.resolve_right heof
      simp [next, handle, onResponseBodyReceived, heof, hzero, State.goto, Pc.after, Pc.succeeds]
  | cancelUnlock t fromCallback =>
    have ht : s.pc t = .cancelling .unlocking fromCallback := he
    obtain ⟨u, hu⟩ : ∃ u, (s.pc u).succeeds = true := by simpa [NoLateCancel] using hlate
    have hut : u ≠ t := by
      rintro rfl
      rw [ht] at hu
      cases hu
    refine exists_cancelled_success_of_succeeds (t := u) ?_ (Nat.succ_pos _)
    simpa [next, State.goto, Function.update_of_ne hut] using hu
  | _ => exact absurd trivial hlate

/-- The body has been read and its handler is queued; `cancel()` sets the flag and returns; the
handler does not look, and the callback is told success. -/
theorem exists_cancelled_success : ∃ s : State Bool,
    (machine .bits64).Runs (.start simpleScenario true) s ∧
      s.request.wasCancelled = true ∧
      ∃ cb ∈ s.callbacks, cb.cancelReturned = true ∧ cb.ec.value = 0 :=
  Machine.exists_runs_of_exec (m := machine .bits64) (s := .start simpleScenario true)
    (Q := fun s => s.request.wasCancelled = true ∧
      ∃ cb ∈ s.callbacks, cb.cancelReturned = true ∧ cb.ec.value = 0)
    (simpleScenarioToBody ++ [.complete .readBody ⟨.eof, []⟩] ++ cancellingBy false
      ++ [.call true .readBody ⟨.eof, []⟩, .handle true .readBody ⟨.eof, []⟩ .success,
        .callback true .success]) (by decide +kernel)

end HTTPRequest

end AsioSamples
