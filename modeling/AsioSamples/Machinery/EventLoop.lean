import AsioSamples.Machinery.Transition

/-!
# Machinery/EventLoop — the threads that run the handlers of a machine

A machine has operations, whose handlers somebody has to call.  In an event loop only the threads
inside `run()` do; they stay there for as long as there is work, which is a guard that was not yet
released, an operation, or a handler that is running.  Once there is none, or somebody has called
`stop()`, the loop has stopped, and a thread that is in no handler may leave.

A run of the loop is a run of the machine (`runs_inner`), so what holds of the one holds of the
other.  If nobody calls `stop()`, and after the release nothing but a handler makes new work, there
is none in a loop that has stopped (`idle_of_stopped`), nor in one that a thread has left
(`idle_of_left`).  A loop that can do nothing more has no thread inside, if it has stopped or there
is no work (`left_of_stuck`), and where the machine comes to an end so does the loop (`terminates`).
-/

namespace AsioSamples

/-- What an event loop knows of the machine whose handlers it runs. -/
structure EventLoop (σ ε τ : Type*) where
  machine : Machine σ ε
  /-- The thread that takes a handler from the queue, if that is what the event is. -/
  taker : ε → Option τ
  /-- The thread is in no handler, and in no call that leads to one. -/
  Free : σ → τ → Prop
  /-- There is no operation, and no handler is running. -/
  Idle : σ → Prop
  /-- There is somebody who may call `stop()`. -/
  stoppable : Bool := false

namespace EventLoop

variable {σ ε τ : Type*}

/-- The machine, the guard, and which threads are inside `run()`. -/
structure State (σ τ : Type*) where
  inner : σ
  work : Bool := true
  stopped : Bool := false
  inside : τ → Bool

/-- The guard has been released, and everybody has left. -/
def State.Joined (s : State σ τ) : Prop := s.work = false ∧ ∀ t, s.inside t = false

/-- The steps. -/
inductive Event (ε τ : Type*)
  | inner (e : ε)
  /-- The guard is released. -/
  | release
  /-- There is no more work. -/
  | runOut
  /-- `stop()` is called. -/
  | stop
  /-- A thread returns from `run()`. -/
  | leave (t : τ)

variable [DecidableEq τ]

/-- When a step can be taken. -/
def Enabled (L : EventLoop σ ε τ) (s : State σ τ) : Event ε τ → Prop
  | .inner e => L.machine.Enabled s.inner e ∧
      ∀ t ∈ L.taker e, s.inside t = true ∧ s.stopped = false
  | .release => s.work = true
  | .runOut => s.work = false ∧ s.stopped = false ∧ L.Idle s.inner
  | .stop => L.stoppable = true ∧ s.stopped = false
  | .leave t => s.inside t = true ∧ s.stopped = true ∧ L.Free s.inner t

/-- Where a step leads. -/
def next (L : EventLoop σ ε τ) (s : State σ τ) : Event ε τ → State σ τ
  | .inner e => { s with inner := L.machine.next s.inner e }
  | .release => { s with work := false }
  | .runOut | .stop => { s with stopped := true }
  | .leave t => { s with inside := Function.update s.inside t false }

/-- The machine in its loop. -/
def loop (L : EventLoop σ ε τ) : Machine (State σ τ) (Event ε τ) := ⟨L.Enabled, L.next⟩

variable {L : EventLoop σ ε τ} {P : State σ τ → Event ε τ → Prop} {s s' : State σ τ}

/-- **A run of the loop is one of the machine.** -/
theorem runs_inner (h : L.loop.Runs s s') : L.machine.Runs s.inner s'.inner := by
  induction h with
  | start => exact .start
  | @step s' e _ he ih =>
    cases e with
    | inner e => exact ih.step he.1
    | release | runOut | stop | leave t => exact ih

/-- Nobody leaves before the loop has stopped. -/
theorem stopped_of_left (h : L.loop.Runs s s') {t : τ} (ht : s.inside t = true)
    (hleft : s'.inside t = false) : s'.stopped = true := by
  refine h.invariant (I := fun s' => s'.inside t = false → s'.stopped = true) ?_ ?_ hleft
  · exact fun hnot => absurd (ht.symm.trans hnot) (by decide)
  · intro s' e _ hs' he
    cases e with
    | inner e => exact hs'
    | release => exact hs'
    | runOut | stop => exact fun _ => rfl
    | leave u => exact fun _ => he.2.1

/-- A loop with a guard does not stop. -/
theorem released_of_stopped (hL : L.stoppable = false) (h : L.loop.Runs s s')
    (hs : s.stopped = false) (hstopped : s'.stopped = true) : s'.work = false := by
  refine h.invariant (I := fun s' => s'.stopped = true → s'.work = false) ?_ ?_ hstopped
  · exact fun hnot => absurd (hs.symm.trans hnot) (by decide)
  · intro s' e _ hs' he
    cases e with
    | inner e => exact hs'
    | release => exact fun _ => rfl
    | runOut => exact fun _ => he.1
    | stop => exact absurd (hL.symm.trans he.1) (by decide)
    | leave u => exact hs'

/-- Nobody comes inside. -/
theorem inside_of_inside (h : L.loop.Runs s s') {t : τ} (ht : s'.inside t = true) :
    s.inside t = true := by
  refine h.invariant (I := fun s' => s'.inside t = true → s.inside t = true) id ?_ ht
  intro s' e _ hs' _ hinside
  cases e with
  | inner e => exact hs' hinside
  | release => exact hs' hinside
  | runOut => exact hs' hinside
  | stop => exact hs' hinside
  | leave u => exact hs' (eq_of_update_eq hinside (by decide))

/-- After the release only a handler makes new work. -/
def NoNewWork (L : EventLoop σ ε τ) (P : State σ τ → Event ε τ → Prop) (s : State σ τ) : Prop :=
  ∀ s' e, (L.loop.restrict P).Runs s s' → s'.work = false → L.Idle s'.inner →
    L.machine.Enabled s'.inner e → L.taker e = none → P s' (.inner e) →
      L.Idle (L.machine.next s'.inner e)

/-- **A loop that has stopped has no work**, and gets none. -/
theorem idle_of_stopped (hL : L.stoppable = false) (hnew : NoNewWork L P s)
    (h : (L.loop.restrict P).Runs s s') (hs : s.stopped = false) (hstopped : s'.stopped = true) :
    L.Idle s'.inner := by
  refine h.invariant (I := fun s' => s'.stopped = true → L.Idle s'.inner) ?_ ?_ hstopped
  · exact fun hnot => absurd (hs.symm.trans hnot) (by decide)
  · intro s' e hr hs' ⟨he, hP⟩ hstopped'
    cases e with
    | inner e =>
      have hreleased := released_of_stopped hL hr.of_restrict hs hstopped'
      have htaker : L.taker e = none := by
        refine Option.eq_none_iff_forall_ne_some.mpr fun t ht => ?_
        exact absurd (hstopped'.symm.trans (he.2 t ht).2) (by decide)
      exact hnew s' e hr hreleased (hs' hstopped') he.1 htaker hP
    | release => exact hs' hstopped'
    | runOut => exact he.2.2
    | stop => exact absurd (hL.symm.trans he.1) (by decide)
    | leave u => exact hs' hstopped'

/-- **Where a thread has left there is no work.** -/
theorem idle_of_left (hL : L.stoppable = false) (hnew : NoNewWork L P s)
    (h : (L.loop.restrict P).Runs s s') (hs : s.stopped = false) {t : τ} (ht : s.inside t = true)
    (hleft : s'.inside t = false) : L.Idle s'.inner :=
  idle_of_stopped hL hnew h hs (stopped_of_left h.of_restrict ht hleft)

/-- **No handler is called without a thread inside.** -/
theorem taker_eq_none (h : L.loop.Runs s s') (hs : ∀ t, s.inside t = false) {e : ε}
    (he : L.loop.Enabled s' (.inner e)) : L.taker e = none := by
  refine Option.eq_none_iff_forall_ne_some.mpr fun t ht => ?_
  exact absurd ((hs t).symm.trans (inside_of_inside h (he.2 t ht).1)) (by decide)

/-- **Who is in a handler is inside**: that is where it was called, and nobody leaves from there. -/
theorem inside_of {B : σ → τ → Prop}
    (hstep : ∀ c e t, L.machine.Enabled c e → B (L.machine.next c e) t → B c t ∨ L.taker e = some t)
    (hfree : ∀ c t, L.Free c t → ¬ B c t) (h₀ : ∀ t, ¬ B s.inner t) (h : L.loop.Runs s s') {t : τ}
    (ht : B s'.inner t) : s'.inside t = true := by
  refine h.invariant (I := fun s' => ∀ t, B s'.inner t → s'.inside t = true)
    (fun t ht => absurd ht (h₀ t)) ?_ t ht
  intro s' e _ hs' he
  cases e with
  | inner e =>
    intro t ht
    rcases hstep s'.inner e t he.1 ht with hbefore | htaker
    · exact hs' t hbefore
    · exact (he.2 t htaker).1
  | release | runOut | stop => exact hs'
  | leave u =>
    refine (Function.forall_update_iff s'.inside fun t b => B s'.inner t → b = true).mpr
      ⟨fun hu => absurd hu (hfree _ _ he.2.2), fun t _ => hs' t⟩

/-! ## Runs that end -/

/-- How many steps of its own a loop has left. -/
noncomputable def ownSteps (s : State σ τ) : ℕ :=
  s.work.toNat + (!s.stopped).toNat + ∑ᶠ t, (s.inside t).toNat

omit [DecidableEq τ] in
theorem finite_inside [Finite τ] (s : State σ τ) :
    (fun t => (s.inside t).toNat).support.Finite := Set.toFinite _

/-- **Where the machine comes to an end, so does the loop.** -/
theorem terminates [Finite τ] (μ : σ → ℕ) (h : ∀ s' e, (L.loop.restrict P).Runs s s' →
    L.machine.Enabled s'.inner e → P s' (.inner e) → μ (L.machine.next s'.inner e) < μ s'.inner) :
    (L.loop.restrict P).Terminates s := by
  refine Machine.terminates_of_variant (fun s => μ s.inner + ownSteps s) ?_
  intro s' e hr ⟨he, hP⟩
  cases e with
  | inner e => exact Nat.add_lt_add_right (h s' e hr he.1 hP) _
  | release =>
    have hwork : s'.work = true := he
    simp [loop, next, Machine.restrict, ownSteps, hwork]
  | runOut =>
    obtain ⟨-, hgoing, -⟩ := he
    simp [loop, next, Machine.restrict, ownSteps, hgoing]
  | stop =>
    obtain ⟨-, hgoing⟩ := he
    simp [loop, next, Machine.restrict, ownSteps, hgoing]
  | leave t =>
    have hsum := finsum_rank_update Bool.toNat (finite_inside s') t false
    rw [he.1] at hsum
    simp only [loop, next, Machine.restrict, ownSteps, Bool.toNat_true, Bool.toNat_false] at hsum ⊢
    omega

/-! ## Runs of the machine -/

/-- **A run of the machine is one of the loop**, as long as the threads that take handlers are
inside. -/
theorem runs_of_inner {c c' : σ} {work : Bool} {inside : τ → Bool}
    (hP : ∀ c e, P ⟨c, work, false, inside⟩ (.inner e))
    (h : (L.machine.restrict fun _ e => ∀ t ∈ L.taker e, inside t = true).Runs c c') :
    (L.loop.restrict P).Runs ⟨c, work, false, inside⟩ ⟨c', work, false, inside⟩ := by
  induction h with
  | start => exact .start
  | @step c' e _ he ih =>
    exact ih.step (m := L.loop.restrict P) (e := .inner e)
      ⟨⟨he.1, fun t ht => ⟨he.2 t ht, rfl⟩⟩, hP c' e⟩

end EventLoop

end AsioSamples
