import AsioSamples.LifeCycle.Objects
import AsioSamples.Machinery.EventLoop
import AsioSamples.Tcp.Registry

/-!
# Tcp/Closing — `AsyncTCPClient::Close`, and the sessions it waits for

`Close` releases the work guard and joins the threads of the pool, each of which is inside
`io_context::run` until there is nothing more to do.  So once it has returned every session has been
called back, exactly once, and `m_active_sessions` is empty (`closed_called_back_iff`) — unless the
pool has no threads at all, which is what the conversion of `hardware_concurrency()` to eight bits
may come to; then nothing is ever called back.

That the threads do come out, unless they are deadlocked, is the subject of `Tcp/Draining`.
-/

namespace AsioSamples

namespace AsyncTCPClient

open Function (update)

/-! ## The client in its loop -/

namespace Pc

/-- The points inside a handler, or in a call that a callback makes. -/
def inHandler : Pc → Bool
  | handling _ _ | completing _ _ _ => true
  | submitting _ _ k | cancelling _ k => k ≠ .outside
  | idle => false

/-- The points of an `EmulateLongComputationOp` that no callback makes. -/
def submitsOutside : Pc → Bool
  | submitting _ _ .outside => true
  | _ => false

/-- A thread in no handler, and in no submission, is idle or in a `CancelRequest`. -/
theorem idle_or_cancelling : ∀ {p : Pc}, p.inHandler = false → p.submitsOutside = false →
    p = idle ∨ ∃ q, p = cancelling q .outside
  | idle, _, _ => Or.inl rfl
  | cancelling q .outside, _, _ => Or.inr ⟨q, rfl⟩
  | submitting _ _ .outside, _, h => by cases h
  | submitting _ _ (.callback _ _), h, _ => by simp [inHandler] at h
  | cancelling _ (.callback _ _), h, _ => by simp [inHandler] at h

end Pc

section Loop

variable {τ : Type*} [DecidableEq τ]

/-- The client, with the threads of its pool inside `m_ioc.run()`. -/
def eventLoop : EventLoop (State τ) (Event τ) τ where
  machine := machine
  taker
    | .call t _ _ _ => some t
    | _ => none
  Free s t := s.pc t = .idle
  Idle s := (∀ i, s.outstanding i = []) ∧ ∀ t, (s.pc t).inHandler = false

/-- Nobody but a callback submits a session once `Close` has been called. -/
def SubmittedBefore (s : EventLoop.State (State τ) τ) : EventLoop.Event (Event τ) τ → Prop
  | .inner (.submit _ .outside) => s.work = true
  | .release => ∀ t, (s.inner.pc t).submitsOutside = false
  | _ => True

variable {calls : ℕ → Call} {pool : τ → Bool} {s s' : EventLoop.State (State τ) τ}

omit [DecidableEq τ] in
/-- Before `Close` the client may do anything. -/
theorem submittedBefore_inner {work stopped : Bool} (c : State τ) (e : Event τ)
    (hwork : work = true) : SubmittedBefore ⟨c, work, stopped, pool⟩ (.inner e) := by
  cases e with
  | submit t k =>
    cases k with
    | outside => exact hwork
    | callback i guarded => trivial
  | _ => trivial

/-- A thread that goes anywhere but into a submission from outside. -/
theorem submitsOutside_update {pc : τ → Pc} (h : ∀ t, (pc t).submitsOutside = false) {t : τ}
    {x : Pc} (hx : x.submitsOutside = false) : ∀ u, (update pc t x u).submitsOutside = false :=
  (Function.forall_update_iff pc fun _ p => p.submitsOutside = false).mpr ⟨hx, fun u _ => h u⟩

@[simp] theorem submitsOutside_caller : ∀ k : Caller, (Pc.caller k).submitsOutside = false
  | .outside => rfl
  | .callback _ _ => rfl

/-- A step of the client, but for the submission itself. -/
theorem submitsOutside_next {c : State τ} {e : Event τ} (h : ∀ t, (c.pc t).submitsOutside = false)
    (he : Enabled c e) (hsubmit : ∀ t, e ≠ .submit t .outside) (t : τ) :
    ((next c e).pc t).submitsOutside = false := by
  have inside {t : τ} {i : ℕ} {p : SubmitPc} {k : Caller} (ht : c.pc t = .submitting i p k)
      (q : SubmitPc) : (Pc.submitting i q k).submitsOutside = false := by
    have hnot := h t
    rw [ht] at hnot
    cases k with
    | outside => cases hnot
    | callback j guarded => rfl
  revert t
  cases e with
  | submit t k =>
    cases k with
    | outside => exact absurd rfl (hsubmit t)
    | callback j guarded => exact submitsOutside_update h rfl
  | submitLock t i k => exact submitsOutside_update h (inside he.1 _)
  | store t i k | submitUnlock t i k => exact submitsOutside_update h (inside he _)
  | connect t i k | cancelUnlock t k => exact submitsOutside_update h (submitsOutside_caller k)
  | find t id k =>
    simp only [next]
    split <;> exact submitsOutside_update h rfl
  | complete i op r => exact h
  | handle t i op r =>
    simp only [next]
    split <;> exact submitsOutside_update h rfl
  | test t i op =>
    simp only [next]
    split <;> exact submitsOutside_update h rfl
  | callbackReturns t i guarded =>
    refine submitsOutside_update h ?_
    split <;> rfl
  | _ => exact submitsOutside_update h rfl

/-- **Nobody is submitting a session once `Close` has been called**, except from a callback. -/
theorem not_submitsOutside
    (h : ((eventLoop (τ := τ)).loop.restrict SubmittedBefore).Runs
      { inner := .start calls, inside := pool } s) (hreleased : s.work = false) (t : τ) :
    (s.inner.pc t).submitsOutside = false := by
  refine h.invariant (I := fun s => s.work = false → ∀ t, (s.inner.pc t).submitsOutside = false)
    (fun hnot => by cases hnot) (fun s e _ hs he => ?_) hreleased t
  obtain ⟨he, hbefore⟩ := he
  cases e with
  | inner e =>
    intro hreleased
    refine submitsOutside_next (hs hreleased) he.1 ?_
    rintro t rfl
    exact absurd (hreleased.symm.trans hbefore) (by decide)
  | release => exact fun _ => hbefore
  | runOut | stop => exact hs
  | leave u => exact hs

/-! ## No new work -/

omit [DecidableEq τ] in
/-- Only sessions that were submitted have operations. -/
theorem Batons.outstanding_eq_nil {c : State τ} (h : Batons c) {i : ℕ} (hi : ¬ i < c.submitted) :
    c.outstanding i = [] := by
  have hbaton := h i
  rw [decide_eq_false hi] at hbaton
  exact List.length_eq_zero_iff.mp hbaton.of_unborn.1

/-- **Handlers come from the queue**: a thread that is in one was in it before the step, unless it
takes one. -/
theorem inHandler_of_next {c : State τ} {e : Event τ} (he : Enabled c e) {t : τ}
    (ht : ((next c e).pc t).inHandler = true) :
    (c.pc t).inHandler = true ∨ (eventLoop (τ := τ)).taker e = some t := by
  have move {u : τ} {p x : Pc} (hin : (update c.pc u x t).inHandler = true) (hu : c.pc u = p)
      (hx : x.inHandler = true → p.inHandler = true) : (c.pc t).inHandler = true := by
    by_cases htu : t = u
    · subst htu
      rw [Function.update_self] at hin
      exact hu ▸ hx hin
    · rwa [Function.update_of_ne htu] at hin
  cases e with
  | call u i op r =>
    by_cases htu : t = u
    · exact Or.inr (congrArg some htu.symm)
    · simp only [next, State.goto, Function.update_of_ne htu] at ht
      exact Or.inl ht
  | complete i op r => exact Or.inl ht
  | submit u k | cancelRequest u rid k | connect u i k | cancelUnlock u k =>
    refine Or.inl (move ht he ?_)
    cases k <;> simp [Pc.inHandler, Pc.caller]
  | submitLock u i k | cancelLock u rid k | guard u i k | guardLock u i op
  | completeLock u i guarded => exact Or.inl (move ht he.1 fun hx => hx)
  | find u rid k =>
    simp only [next] at ht
    split at ht <;> exact Or.inl (move ht he fun hx => hx)
  | handle u i op r =>
    simp only [next] at ht
    split at ht <;> exact Or.inl (move ht he fun hx => hx)
  | test u i op =>
    simp only [next] at ht
    split at ht <;> exact Or.inl (move ht he fun hx => hx)
  | callbackReturns u i guarded => exact Or.inl (move ht he fun _ => rfl)
  | initiate u i op | release u i => exact Or.inl (move ht he fun _ => rfl)
  | _ => exact Or.inl (move ht he fun hx => hx)

/-- Where no handler is running none begins, but by a thread that takes one. -/
theorem inHandler_next {c : State τ} {e : Event τ} (h : ∀ t, (c.pc t).inHandler = false)
    (he : Enabled c e) (htaker : (eventLoop (τ := τ)).taker e = none) (t : τ) :
    ((next c e).pc t).inHandler = false := by
  refine eq_false_of_ne_true fun ht => ?_
  rcases inHandler_of_next he ht with hbefore | htook
  · exact absurd ((h t).symm.trans hbefore) (by decide)
  · rw [htaker] at htook
    cases htook

/-- Outside the handlers nothing is called back. -/
theorem callbacks_next {c : State τ} {e : Event τ} (h : ∀ t, (c.pc t).inHandler = false)
    (he : Enabled c e) : (next c e).callbacks = c.callbacks := by
  cases e with
  | callback t i guarded ec =>
    have ht := h t
    rw [show c.pc t = .completing i guarded (.callingBack ec) from he] at ht
    cases ht
  | find t id k => simp only [next]; split <;> rfl
  | handle t i op r => simp only [next]; split <;> rfl
  | test t i op => simp only [next]; split <;> rfl
  | _ => rfl

/-- **A client without work** has none until somebody submits a session: a `CancelRequest` from
outside finds nothing to abort. -/
theorem idle_next {c : State τ} {e : Event τ} (h : (eventLoop (τ := τ)).Idle c)
    (houtside : ∀ t, (c.pc t).submitsOutside = false) (he : Enabled c e)
    (htaker : (eventLoop (τ := τ)).taker e = none) : (eventLoop (τ := τ)).Idle (next c e) := by
  refine ⟨fun j => ?_, inHandler_next h.2 he htaker⟩
  have hwhere {t : τ} {p : Pc} (ht : c.pc t = p) : p = .idle ∨ ∃ q, p = .cancelling q .outside :=
    ht ▸ Pc.idle_or_cancelling (h.2 t) (houtside t)
  cases e with
  | connect t i k | initiate t i op => simpa using hwhere he
  | abort t i reached k =>
    rcases update_eq_or c.outstanding i (Pending.cancel reached (c.outstanding i)) j with hj | hj
    · exact hj.trans (h.1 j)
    · refine hj.trans ?_
      rw [h.1 i]
      cases reached <;> rfl
  | complete i op r => simp [Enabled, h.1 i] at he
  | call t i op r => cases htaker
  | find t id k | handle t i op r | test t i op =>
    simp only [next]
    split <;> exact h.1 j
  | _ => exact h.1 j

theorem noNewWork (calls : ℕ → Call) (pool : τ → Bool) :
    (eventLoop (τ := τ)).NoNewWork SubmittedBefore { inner := .start calls, inside := pool } :=
  fun _ _ h hreleased hidle he htaker _ =>
    idle_next hidle (not_submitsOutside h hreleased) he htaker

/-! ## `Close` has returned -/

/-- **Where there is no work every session has been called back**, and is not listed any more. -/
theorem called_back_of_idle {c : State τ} (hruns : machine.Runs (.start calls) c)
    (hidle : (eventLoop (τ := τ)).Idle c) (houtside : ∀ t, (c.pc t).submitsOutside = false)
    {i : ℕ} (hi : i < c.submitted) :
    (c.callbacks i).length = 1 ∧ ∀ k, c.activeSessions.find k ≠ some i := by
  have hnobody (t : τ) : (c.pc t).session ≠ some i := by
    rcases Pc.idle_or_cancelling (hidle.2 t) (houtside t) with ht | ⟨q, ht⟩ <;>
      simp [ht, Pc.session]
  have hbaton := batons hruns i
  rw [decide_eq_true hi] at hbaton
  have hone : (c.callbacks i).length = 1 := by
    rcases hbaton.of_idle hnobody with ⟨hout, -⟩ | ⟨-, hone⟩
    · rw [hidle.1 i] at hout
      cases hout
    · exact hone
  refine ⟨hone, not_listed_of_erased hruns ((staged hruns).callbacks i fun hnil => ?_)⟩
  rw [hnil] at hone
  cases hone

end Loop

/-- The threads of the pool, and those that call the client. -/
abbrev Thread (hardwareConcurrency : UInt32) (numberOfThread : UInt8) (o : Type*) :=
  Fin (LifeCycle.AsyncTCPClient.create hardwareConcurrency numberOfThread).threads.length ⊕ o

/-- The client as its constructor leaves it. -/
def constructed (hardwareConcurrency : UInt32) (numberOfThread : UInt8) (o : Type*)
    (calls : ℕ → Call) : EventLoop.State (State (Thread hardwareConcurrency numberOfThread o))
      (Thread hardwareConcurrency numberOfThread o) where
  inner := .start calls
  inside := Sum.isLeft

/-- `numberOfThread` was not given, and eight bits of `hardware_concurrency()` are zero. -/
def NoThreads (hardwareConcurrency : UInt32) (numberOfThread : UInt8) : Prop :=
  numberOfThread = 0 ∧ 256 ∣ hardwareConcurrency.toNat

/-- The size of the pool. -/
theorem length_threads_eq_zero_iff {hardwareConcurrency : UInt32} {numberOfThread : UInt8} :
    (LifeCycle.AsyncTCPClient.create hardwareConcurrency numberOfThread).threads.length = 0 ↔
      NoThreads hardwareConcurrency numberOfThread := by
  simp only [LifeCycle.AsyncTCPClient.create, List.length_replicate, NoThreads]
  split
  next h => simp [h, Nat.dvd_iff_mod_eq_zero]
  next h =>
    refine iff_of_false (fun h0 => h ?_) fun hboth => h hboth.1
    exact UInt8.toNat_inj.mp h0

section Close

variable {hardwareConcurrency : UInt32} {numberOfThread : UInt8} {o : Type*} [DecidableEq o]
  {calls : ℕ → Call}
  {s : EventLoop.State (State (Thread hardwareConcurrency numberOfThread o))
    (Thread hardwareConcurrency numberOfThread o)}

/-- Without threads nothing is ever called back. -/
theorem callbacks_of_noThreads (hpool : NoThreads hardwareConcurrency numberOfThread)
    (h : eventLoop.loop.Runs (constructed hardwareConcurrency numberOfThread o calls) s) (i : ℕ) :
    s.inner.callbacks i = [] := by
  have hempty (t : Thread hardwareConcurrency numberOfThread o) :
      (constructed hardwareConcurrency numberOfThread o calls).inside t = false := by
    cases t with
    | inl t =>
      have hlt := t.2.trans_eq (length_threads_eq_zero_iff.mpr hpool)
      exact absurd hlt (Nat.not_lt_zero _)
    | inr t => rfl
  have hall : (∀ t, (s.inner.pc t).inHandler = false) ∧ ∀ i, s.inner.callbacks i = [] := by
    refine h.invariant (I := fun s => (∀ t, (s.inner.pc t).inHandler = false) ∧
      ∀ i, s.inner.callbacks i = []) ⟨fun t => rfl, fun i => rfl⟩ fun s e hr hs he => ?_
    cases e with
    | inner e =>
      exact ⟨inHandler_next hs.1 he.1 (EventLoop.taker_eq_none hr hempty he),
        fun i => (congrFun (callbacks_next hs.1 he.1) i).trans (hs.2 i)⟩
    | release | runOut | stop | leave t => exact hs
  exact hall.2 i

/-- **`Close` returns when every session has been called back**, exactly once, and
`m_active_sessions` is empty — or when the pool has no threads, and then none has been. -/
theorem closed_called_back_iff
    (h : (eventLoop.loop.restrict SubmittedBefore).Runs
      (constructed hardwareConcurrency numberOfThread o calls) s) (hclosed : s.Joined) :
    ((∀ i < s.inner.submitted, (s.inner.callbacks i).length = 1) ∧
      ∀ k, s.inner.activeSessions.find k = none) ↔
    s.inner.submitted = 0 ∨ ¬ NoThreads hardwareConcurrency numberOfThread := by
  have hruns := EventLoop.runs_inner h.of_restrict
  constructor
  · rintro ⟨hall, -⟩
    refine or_iff_not_imp_right.mpr fun hpool => ?_
    by_contra hsome
    have hone := hall 0 (Nat.pos_of_ne_zero hsome)
    rw [callbacks_of_noThreads (not_not.mp hpool) h.of_restrict] at hone
    cases hone
  · intro hwhen
    have hall : ∀ i < s.inner.submitted,
        (s.inner.callbacks i).length = 1 ∧ ∀ k, s.inner.activeSessions.find k ≠ some i := by
      rcases hwhen with hnone | hpool
      · intro i hi
        exact absurd (hi.trans_eq hnone) (Nat.not_lt_zero i)
      · have hpos : 0 < (LifeCycle.AsyncTCPClient.create hardwareConcurrency
            numberOfThread).threads.length :=
          Nat.pos_of_ne_zero fun hzero => hpool (length_threads_eq_zero_iff.mp hzero)
        have hidle := EventLoop.idle_of_left rfl (noNewWork calls Sum.isLeft) h rfl
          (t := Sum.inl ⟨0, hpos⟩) rfl (hclosed.2 _)
        exact fun i => called_back_of_idle hruns hidle (not_submitsOutside h hclosed.1)
    refine ⟨fun i hi => (hall i hi).1, fun k => Option.eq_none_iff_forall_ne_some.mpr ?_⟩
    intro i hi
    by_cases hlt : i < s.inner.submitted
    · exact (hall i hlt).2 k hi
    · have hnever := (staged hruns).unsubmitted i (Nat.le_of_not_lt hlt)
      rcases (listed hruns k i hi).2 with hreg | hent
      · exact absurd (hnever.symm.trans hreg) (by decide)
      · exact absurd (hnever.symm.trans hent) (by decide)

/-- One thread, one session, whose connect is refused. -/
theorem closed_called_back_iff_sampleCalls :
    ∃ s : EventLoop.State (State (Thread 8 1 Unit)) (Thread 8 1 Unit),
      (eventLoop.loop.restrict SubmittedBefore).Runs (constructed 8 1 Unit sampleCalls) s ∧
        s.Joined ∧ s.inner.submitted = 1 ∧ (s.inner.callbacks 0).length = 1 := by
  let worker : Thread 8 1 Unit := Sum.inl ⟨0, by decide⟩
  let refused : ErrorCode := ⟨10061, "system"⟩
  obtain ⟨c, hc, hsub, hout, hpc⟩ := Machine.exists_runs_of_exec
    (m := machine.restrict fun _ e => ∀ t ∈ eventLoop.taker e, Sum.isLeft t = true)
    (s := State.start (τ := Thread 8 1 Unit) sampleCalls)
    (Q := fun c => c.submitted = 1 ∧ c.outstanding 0 = [] ∧ ∀ t, c.pc t = .idle)
    (submitBy (.inr ()) 0 ++ handleBy worker 0 sampleConnect ⟨refused, []⟩
      ++ completeBy worker 0 false ++ [.callback worker 0 false refused,
        .callbackReturns worker 0 false]) (by decide +kernel)
  have hidle : (eventLoop (τ := Thread 8 1 Unit)).Idle c := by
    refine ⟨fun i => ?_, fun t => by rw [hpc t]; rfl⟩
    by_cases hi : i < c.submitted
    · obtain rfl : i = 0 := by omega
      exact hout
    · exact (batons hc.of_restrict).outstanding_eq_nil hi
  have hworked : (eventLoop.loop.restrict SubmittedBefore).Runs
      (constructed 8 1 Unit sampleCalls) ⟨c, true, false, Sum.isLeft⟩ :=
    EventLoop.runs_of_inner (submittedBefore_inner · · rfl) hc
  have hreleased := hworked.step (e := EventLoop.Event.release)
    ⟨rfl, fun t => by rw [show _ = c.pc t from rfl, hpc t]; rfl⟩
  have hstopped := hreleased.step (e := EventLoop.Event.runOut) ⟨⟨rfl, rfl, hidle⟩, trivial⟩
  have hjoined := hstopped.step (e := EventLoop.Event.leave worker)
    ⟨⟨rfl, rfl, hpc worker⟩, trivial⟩
  have hall : ∀ t, update Sum.isLeft worker false t = false := by decide
  have hclosed : (⟨c, false, true, update Sum.isLeft worker false⟩ :
    EventLoop.State (State (Thread 8 1 Unit)) _).Joined := ⟨rfl, hall⟩
  refine ⟨_, hjoined, hclosed, hsub, ?_⟩
  have hpool : ¬ NoThreads 8 1 := fun hpool => absurd hpool.1 (by decide)
  exact ((closed_called_back_iff hjoined hclosed).mpr (Or.inr hpool)).1 0 (hsub ▸ Nat.one_pos)

end Close

end AsyncTCPClient

end AsioSamples
