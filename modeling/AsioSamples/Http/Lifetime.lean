import AsioSamples.Http.Cancellation
import AsioSamples.Machinery.Shared

/-!
# Http/Lifetime — who owns an `HTTPRequest`

`HTTPClient::create_request` hands its caller the one `shared_ptr` there is.  Each of the six
handlers captures `this`, so an operation in flight is no owner of the request whose handler it will
call, and the count is the caller's pointers and nothing else.

The caller may `execute()` and `cancel()` through a pointer, copy it, and drop it at any moment,
among the steps of the handlers that `Http/Threads` has.  `settled_of_ownerless` says when that is
safe: the last pointer to be dropped finds the request before `execute()` or behind its callback
(`settled_iff`).  `exists_handling_ownerless` is what a drop with an operation pending leads to.
-/

namespace AsioSamples

namespace HTTPRequest

variable {τ : Type*} [DecidableEq τ]

/-! ## The caller's calls -/

/-- The steps of a request, and the calls of `execute()` that begin a run. -/
inductive Call (τ : Type*)
  | execute (t : τ)
  | work (e : Event τ)

/-- The calls through a pointer to the request: a handler has `this`, and `m_callback` a reference
to `const`. -/
def Call.ByOwner : Call τ → Prop
  | .execute _ | .work (.cancel ..) => True
  | _ => False

instance : DecidablePred (Call.ByOwner (τ := τ)) := fun e =>
  match e with
  | .execute _ | .work (.cancel ..) => inferInstanceAs (Decidable True)
  | .work (.execute _) | .work (.complete ..) | .work (.call ..) | .work (.handle ..)
  | .work (.lock ..) | .work (.test ..) | .work (.initiate ..) | .work (.leave _)
  | .work (.unlock _) | .work (.callback ..) | .work (.callbackReturns _)
  | .work (.cancelLock ..) | .work (.setFlag ..) | .work (.abort ..) | .work (.abortThrows ..)
  | .work (.cancelUnlock ..) => inferInstanceAs (Decidable False)

/-- `machine`, and calls of `execute()` by any thread, the one in `m_callback` included. -/
def callable (w : ULong) : Machine (State τ) (Call τ) where
  Enabled s
    | .execute t => s.pc t = .idle ∨ s.pc t = .inCallback
    | .work e => Enabled w s e
  next s
    | .execute t => s.goto t .executing
    | .work e => next w s e

instance (w : ULong) (s : State τ) (e : Call τ) : Decidable ((callable w).Enabled s e) :=
  match e with
  | .execute _ => inferInstanceAs (Decidable (_ ∨ _))
  | .work e => inferInstanceAs (Decidable (Enabled w s e))

/-- The destructors of `m_sock` and `m_resolver` cancel what is outstanding, which does not take the
handlers back; an operation between two of its steps is not reached. -/
def destroyed (reached : Bool) (s : State τ) : State τ :=
  { s with outstanding := Pending.cancel reached s.outstanding }

/-- The request and its caller's pointers.  What is done to a destroyed request is done as if its
memory were still there. -/
def owned (w : ULong) : Machine (Shared (State τ)) (SharedEvent (Call τ) Bool) :=
  (callable w).shared Call.ByOwner destroyed

instance (w : ULong) (s : Shared (State τ)) (e : SharedEvent (Call τ) Bool) :
    Decidable ((owned w).Enabled s e) :=
  inferInstanceAs (Decidable (((callable w).shared _ _).Enabled s e))

/-- What `create_request` returns, with the fields the caller has set. -/
def createRequest (r : HTTPRequest) : Shared (State τ) where
  object := { request := r, pc := fun _ => .idle }

/-! ## Before and behind a run -/

/-- No operation is outstanding or queued, and no thread is in `execute()` or in a handler that has
not invoked `m_callback`. -/
structure Settled (s : State τ) : Prop where
  outstanding : s.outstanding = []
  pc : ∀ t, ¬ (s.pc t).carries

omit [DecidableEq τ] in
/-- A thread at work, or an operation, is no settled request's. -/
theorem Settled.ne {s : State τ} (h : Settled s) {t : τ} {p : Pc} (hp : p.carries) :
    s.pc t ≠ p := fun ht => h.pc t (ht ▸ hp)

omit [DecidableEq τ] in
theorem Settled.not_mem {s : State τ} (h : Settled s) (p : Pending AsyncOp) :
    p ∉ s.outstanding := by
  rw [h.outstanding]
  exact List.not_mem_nil

/-- A step of one thread to a point outside a run, with nothing initiated. -/
theorem Settled.keep {s s' : State τ} (h : Settled s) {t : τ} {p : Pc}
    (hpc : s'.pc = Function.update s.pc t p) (hp : ¬ p.carries)
    (hout : s'.outstanding = []) : Settled s' where
  outstanding := hout
  pc := by
    rw [hpc]
    exact (Function.forall_update_iff s.pc fun _ q => ¬ q.carries).mpr ⟨hp, fun u _ => h.pc u⟩

theorem not_carries_caller (fromCallback : Bool) : ¬ (Pc.caller fromCallback).carries := by
  cases fromCallback <;> exact Bool.noConfusion

/-- **A settled request stays so**, whatever is done to it short of `execute()`. -/
theorem settled_next {w : ULong} {s : State τ} {e : Event τ} (h : Settled s)
    (he : Enabled w s e) : Settled (next w s e) := by
  have hcancel (reached : Bool) : Pending.cancel reached s.outstanding = [] := by
    rw [← List.length_eq_zero_iff, Pending.length_cancel, h.outstanding]
    rfl
  cases e with
  | execute t => exact absurd he.1 (h.ne rfl)
  | complete op c => exact absurd he (h.not_mem _)
  | call t op c => exact absurd he.2 (h.not_mem _)
  | handle t op c shutdown => exact absurd he.1 (h.ne rfl)
  | lock t op => exact absurd he.1 (h.ne rfl)
  | test t op | initiate t op | callback t ec => exact absurd he (h.ne rfl)
  | unlock t => exact absurd he (h.ne rfl)
  | abort t fromCallback reached =>
    exact h.keep (p := .cancelling .unlocking fromCallback) rfl Bool.noConfusion (hcancel reached)
  | abortThrows t fromCallback reached ec =>
    exact h.keep (p := .escaped ec) rfl Bool.noConfusion (hcancel reached)
  | cancelUnlock t fromCallback =>
    exact h.keep rfl (not_carries_caller fromCallback) h.outstanding
  | leave t | callbackReturns t => exact h.keep (p := .idle) rfl Bool.noConfusion h.outstanding
  | cancel t fromCallback =>
    exact h.keep (p := .cancelling .locking fromCallback) rfl Bool.noConfusion h.outstanding
  | cancelLock t fromCallback =>
    exact h.keep (p := .cancelling .setting fromCallback) rfl Bool.noConfusion h.outstanding
  | setFlag t fromCallback =>
    exact h.keep (p := .cancelling .aborting fromCallback) rfl Bool.noConfusion h.outstanding

omit [DecidableEq τ] in
theorem settled_destroyed {s : State τ} (reached : Bool) (h : Settled s) :
    Settled (destroyed reached s) where
  outstanding := by
    rw [← List.length_eq_zero_iff, destroyed, Pending.length_cancel, h.outstanding]
    rfl
  pc := h.pc

/-- **A run is over when its callback has been invoked**, and not before. -/
theorem settled_iff {w : ULong} {r : HTTPRequest} {t₀ : τ} {s : State τ}
    (h : ((machine w).restrict CallsSucceed).Runs (.start r t₀) s) :
    Settled s ↔ s.callbacks ≠ [] := by
  have hbaton := baton h
  constructor
  · rintro ⟨hout, hpc⟩ hnone
    have hidle := hbaton.of_idle hpc
    rw [hout, hnone] at hidle
    rcases hidle with ⟨hone, -⟩ | ⟨-, hone⟩ <;> cases hone
  · intro hne
    obtain ⟨cb, callbacks, hcb⟩ := List.exists_cons_of_ne_nil hne
    rw [Single, hcb, List.length_cons] at hbaton
    obtain ⟨-, hout, -, hpc⟩ := hbaton.of_spent
    exact ⟨List.length_eq_zero_iff.mp hout, hpc⟩

/-! ## The owners -/

/-- **A destroyed request is settled**, if the last pointer to it was dropped before `execute()` or
behind the callback. -/
theorem settled_of_ownerless {w : ULong} {r : HTTPRequest} {s : Shared (State τ)}
    (h : ((owned w).restrict (Shared.LetsGoOf Settled)).Runs (createRequest r) s)
    (hnone : s.owners = 0) : Settled s.object := by
  refine Shared.quiet ?_ (fun s d => settled_destroyed d) h Nat.one_pos hnone
  intro s e hs he hfree
  cases e with
  | execute t => exact absurd trivial hfree
  | work e => exact settled_next hs he

/-- **A pending operation's request has an owner**, in every run in which the caller drops its last
pointer before `execute()` or behind the callback. -/
theorem pending_has_owner {w : ULong} {r : HTTPRequest} {s : Shared (State τ)}
    (h : ((owned w).restrict (Shared.LetsGoOf Settled)).Runs (createRequest r) s)
    (hpending : s.object.outstanding ≠ []) : 0 < s.owners := by
  refine Nat.pos_of_ne_zero fun hnone => hpending ?_
  exact (settled_of_ownerless h hnone).outstanding

/-- **A drop that comes too early**: with an operation outstanding or queued, the last drop leads to
its handler running on a request that is no more. -/
theorem exists_handling_ownerless {w : ULong} {s : Shared (State τ)} (hlast : s.owners = 1)
    {p : Pending AsyncOp} (hp : p ∈ s.object.outstanding) {t : τ} (ht : s.object.pc t = .idle) :
    ∃ s' c, (owned w).Runs s s' ∧ s'.owners = 0 ∧ s'.object.pc t = .handling p.op c := by
  have hdrop : (owned w).Runs s ⟨s.object, 0⟩ := by
    have hpos : 0 < s.owners := by omega
    have h := Machine.Runs.single (m := owned w) (e := .drop false) hpos
    simpa [owned, Machine.shared, destroyed, Pending.cancel, hlast] using h
  have hcall : ∀ {o : State τ} {c : Completion}, o.pc t = .idle → ⟨p.op, some c⟩ ∈ o.outstanding →
      ∃ s', (owned w).Runs ⟨o, 0⟩ s' ∧ s'.owners = 0 ∧ s'.object.pc t = .handling p.op c := by
    intro o c hidle hmem
    have he : (owned w).Enabled ⟨o, 0⟩ (.step (.work (.call t p.op c))) :=
      ⟨⟨hidle, hmem⟩, False.elim⟩
    exact ⟨_, Machine.Runs.single he, rfl, Function.update_self ..⟩
  obtain ⟨op, result⟩ := p
  cases result with
  | some c =>
    obtain ⟨s', hrun, h⟩ := hcall ht hp
    exact ⟨s', c, hdrop.trans hrun, h⟩
  | none =>
    -- the destructors have aborted it
    have he : (owned w).Enabled ⟨s.object, 0⟩
        (.step (.work (.complete op ⟨.operationAborted, []⟩))) := ⟨hp, False.elim⟩
    have hqueued := Pending.queued_complete ⟨.operationAborted, []⟩ hp
    obtain ⟨s', hrun, h⟩ := hcall
      (o := next w s.object (.complete op ⟨.operationAborted, []⟩)) ht hqueued
    exact ⟨s', _, (hdrop.step he).trans hrun, h⟩

/-- `execute()` from call to return, by thread `false`. -/
def simpleScenarioExecute : List (SharedEvent (Call Bool) Bool) :=
  .step (.execute false) ::
    (Event.execute false :: initiatingBy false simpleScenarioResolve).map fun e => .step (.work e)

/-- While the caller keeps its pointer. -/
theorem pending_has_owner_simpleScenario : ∃ s : Shared (State Bool),
    ((owned .bits64).restrict (Shared.LetsGoOf Settled)).Runs (createRequest simpleScenario) s ∧
      s.object.outstanding ≠ [] ∧ 0 < s.owners := by
  have hexec : ((owned .bits64).exec (createRequest simpleScenario) simpleScenarioExecute).any
      (fun s => s.object.outstanding ≠ []) = true := by decide +kernel
  obtain ⟨s, hs, hout⟩ := (Option.any_eq_true _ _).mp hexec
  have hkept : ∀ e ∈ simpleScenarioExecute, ∀ s : Shared (State Bool),
      Shared.LetsGoOf Settled s e := by
    simp [simpleScenarioExecute, Shared.LetsGoOf]
  have hrun := Machine.runs_restrict_of_exec hkept hs
  have hpending := of_decide_eq_true hout
  exact ⟨s, hrun, hpending, pending_has_owner hrun hpending⟩

/-- The caller drops its pointer as soon as `execute()` has returned: the resolver's destructor
aborts the operation, and its handler is queued for a request that is no more. -/
theorem exists_pending_ownerless : ∃ s : Shared (State Bool),
    (owned .bits64).Runs (createRequest simpleScenario) s ∧
      s.object.outstanding = [⟨simpleScenarioResolve, some ⟨.operationAborted, []⟩⟩] ∧
      s.owners = 0 :=
  Machine.exists_runs_of_exec (m := owned .bits64) (s := createRequest simpleScenario)
    (Q := fun s => s.object.outstanding
        = [⟨simpleScenarioResolve, some ⟨.operationAborted, []⟩⟩] ∧ s.owners = 0)
    (simpleScenarioExecute ++ [.drop true]) (by decide +kernel)

end HTTPRequest

end AsioSamples
