import AsioSamples.Tcp.Registry

/-!
# Tcp/Deadlock — who waits for whom in `AsyncTCPClient`

`CancelRequest` takes `m_active_sessions_guard` and then the `m_cancel_guard` of the session it
found.  The cancelled exits of the connect and write handlers take them the other way round: they
call `OnRequestComplete` with `m_cancel_guard` held.  The two orders meet when a `CancelRequest`
finds a session whose handler is in its cancelled exit, or the handler gets there while the
`CancelRequest` waits (`deadlocked_next`), and nowhere else (`not_deadlocked`).

The callback of a cancelled exit still runs with `m_cancel_guard` held, and may call the client.
That is a third way to wait for one mutex with the other one held, and it is harmless: the session
has been erased by then, so no canceller is after its `m_cancel_guard`.
-/

namespace AsioSamples

namespace AsyncTCPClient

variable {τ : Type*} [DecidableEq τ] {s s' : State τ} {e : Event τ} {calls : ℕ → Call}

open Function (update)

/-- There is a cycle of threads, each waiting for a mutex that the next one holds. -/
def State.Deadlocked (s : State τ) : Prop :=
  AsioSamples.Deadlocked (fun t => (s.pc t).wants) s.owner

/-! ## Waiting with a mutex held -/

namespace Pc

/-- The session whose `m_cancel_guard` a canceller is waiting for. -/
def guarding : Pc → Option ℕ
  | cancelling (.guarding i) _ => some i
  | _ => none

@[simp] theorem guarding_caller : ∀ k : Caller, (caller k).guarding = none
  | .outside => rfl
  | .callback _ _ => rfl

theorem calledBack_of_guards {i : ℕ} : ∀ {k : Caller}, k.guards i → k.calledBack = some i
  | .callback _ true, h => congrArg some (of_decide_eq_true h)

/-- Who waits with an `m_cancel_guard` held is in a cancelled exit, or has called the session
back. -/
theorem of_wants_of_holds_cancelGuard {i : ℕ} : ∀ {p : Pc} {m : Mutex}, p.wants = some m →
    p.holds (.cancelGuard i) → p = .completing i true .locking ∨ p.calledBack = some i
  | .submitting _ .locking _, _, rfl, hholds => Or.inr (calledBack_of_guards hholds)
  | .cancelling (.locking _) _, _, rfl, hholds => Or.inr (calledBack_of_guards hholds)
  | .cancelling (.guarding _) _, _, rfl, hholds => Or.inr (calledBack_of_guards hholds)
  | .completing _ true .locking, _, rfl, hholds =>
    Or.inl (congrArg (completing · true .locking) (of_decide_eq_true hholds))

/-- Who waits with `m_active_sessions_guard` held is a canceller at the session it found. -/
theorem of_wants_of_holds_activeSessionsGuard : ∀ {p : Pc} {m : Mutex}, p.wants = some m →
    p.holds .activeSessionsGuard → ∃ i, m = .cancelGuard i
  | .cancelling (.guarding i) _, _, rfl, _ => ⟨i, rfl⟩

/-- A canceller at the session it found waits for its `m_cancel_guard`, with
`m_active_sessions_guard` held. -/
theorem wants_and_holds_of_guarding : ∀ {p : Pc} {i : ℕ}, p.guarding = some i →
    p.wants = some (.cancelGuard i) ∧ p.holds .activeSessionsGuard
  | .cancelling (.guarding _) _, _, rfl => ⟨rfl, rfl⟩

/-- Who waits for an `m_cancel_guard` with a mutex held is a canceller. -/
theorem guarding_of_wants_of_holds : ∀ {p : Pc} {m : Mutex} {i : ℕ},
    p.wants = some (.cancelGuard i) → p.holds m → p.guarding = some i
  | .cancelling (.guarding _) _, _, _, rfl, _ => rfl

end Pc

/-! ## A callback that calls the client -/

/-- A session that a thread has called back has been called back. -/
def CalledBack (s : State τ) : Prop := ∀ t i, (s.pc t).calledBack = some i → s.callbacks i ≠ []

/-- A step of one thread to a point inside the callbacks it was in. -/
theorem CalledBack.keep (h : CalledBack s) {t : τ} {p x : Pc} (ht : s.pc t = p)
    (hpc : s'.pc = update s.pc t x) (hx : x.calledBack = none ∨ x.calledBack = p.calledBack)
    (hcb : s'.callbacks = s.callbacks) : CalledBack s' := by
  rw [CalledBack, hpc, hcb]
  refine (Function.forall_update_iff s.pc fun _ q => ∀ i, q.calledBack = some i →
    s.callbacks i ≠ []).mpr ⟨fun i hi => ?_, fun u _ => h u⟩
  rcases hx with hnone | hsame
  · rw [hnone] at hi
    cases hi
  · exact h t i (by rw [ht, ← hsame, hi])

theorem calledBack_next (h : CalledBack s) (he : Enabled s e) : CalledBack (next s e) := by
  cases e with
  | submit t k | cancelRequest t id k | connect t i k | cancelUnlock t k =>
    exact h.keep he rfl (Or.inr (by simp)) rfl
  | find t id k =>
    simp only [next]
    split <;> exact h.keep he rfl (Or.inr rfl) rfl
  | complete i op c => exact h
  | handle t i op c =>
    simp only [next]
    split <;> exact h.keep he rfl (Or.inl rfl) rfl
  | test t i op =>
    simp only [next]
    split <;> exact h.keep he rfl (Or.inl rfl) rfl
  | readEc t i guarded =>
    refine h.keep he rfl (Or.inl ?_) rfl
    split <;> rfl
  | callback t i guarded ec =>
    have hgrow : ∀ j, s.callbacks j ≠ [] →
        (next s (.callback t i guarded ec)).callbacks j ≠ [] := by
      intro j hj
      by_cases hji : j = i
      · subst hji
        simp [next, State.goto]
      · simpa [next, State.goto, Function.update_of_ne hji] using hj
    refine (Function.forall_update_iff s.pc fun _ q => ∀ j, q.calledBack = some j →
      (next s (.callback t i guarded ec)).callbacks j ≠ []).mpr
        ⟨fun j hj => ?_, fun u _ j hu => hgrow j (h u j hu)⟩
    obtain rfl := Option.some.inj hj
    simp [next, State.goto]
  | callbackReturns t i guarded =>
    cases guarded
    · exact h.keep he rfl (Or.inl rfl) rfl
    · exact h.keep he rfl (Or.inr rfl) rfl
  | submitLock t i k | cancelLock t id k | guard t i k => exact h.keep he.1 rfl (Or.inr rfl) rfl
  | call t i op c | guardLock t i op | completeLock t i guarded =>
    exact h.keep he.1 rfl (Or.inl rfl) rfl
  | store t i k | submitUnlock t i k | mark t i k | abort t i reached k | unguard t i k =>
    exact h.keep he rfl (Or.inr rfl) rfl
  | _ => exact h.keep he rfl (Or.inl rfl) rfl

/-- **A session is erased before it is called back**, in every state. -/
theorem erased_of_calledBack (h : machine.Runs (.start calls) s) {t : τ} {i : ℕ}
    (ht : (s.pc t).calledBack = some i) : s.stage i = .erased := by
  refine (staged h).callbacks i ?_
  refine h.invariant (I := CalledBack) (fun u j hu => ?_)
    (fun _ _ _ hs he => calledBack_next hs he) t i ht
  cases hu

/-! ## A canceller and the session it found -/

/-- A session whose `m_cancel_guard` a canceller is waiting for has not been erased. -/
def Alive (s : State τ) : Prop := ∀ t i, (s.pc t).guarding = some i → s.stage i ≠ .erased

/-- A step of one thread that erases nothing, to a point where it waits for no `m_cancel_guard`. -/
theorem Alive.keep (h : Alive s) {t : τ} {x : Pc} (hpc : s'.pc = update s.pc t x)
    (hx : x.guarding = none) (hstage : ∀ i, s'.stage i = .erased → s.stage i = .erased) :
    Alive s' := by
  rw [Alive, hpc]
  refine (Function.forall_update_iff s.pc fun _ q => ∀ i, q.guarding = some i →
    s'.stage i ≠ .erased).mpr ⟨fun i hi => ?_, fun u _ i hu herased => h u i hu (hstage i herased)⟩
  rw [hx] at hi
  cases hi

theorem alive_next (hg : Guarded s) (hl : Listed s) (h : Alive s) (he : Enabled s e) :
    Alive (next s e) := by
  cases e with
  | find t id k =>
    simp only [next]
    split
    next i hfind =>
      refine (Function.forall_update_iff s.pc fun _ q => ∀ j, q.guarding = some j →
        s.stage j ≠ .erased).mpr ⟨fun j hj => ?_, fun u _ => h u⟩
      obtain rfl := Option.some.inj hj
      exact hl.not_erased hfind
    next => exact h.keep rfl rfl fun _ hi => hi
  | erase t i guarded =>
    -- this thread holds the registry, so no other one waits with it held
    have ht : s.pc t = .completing i guarded .erasing := he
    refine (Function.forall_update_iff s.pc fun _ q => ∀ j, q.guarding = some j →
      update s.stage i .erased j ≠ .erased).mpr ⟨fun j hj => ?_, fun u hut j hu => ?_⟩
    · cases hj
    · have hreg := (Pc.wants_and_holds_of_guarding hu).2
      exact absurd ((hg.owner .activeSessionsGuard).unique hreg (by rw [ht]; rfl)) hut
  | submit t k | cancelRequest t id k => exact h.keep rfl rfl fun _ hi => hi
  | connect t i k | cancelUnlock t k => exact h.keep rfl (by simp) fun _ hi => hi
  | store t i k => exact h.keep rfl rfl fun _ hi => eq_of_update_eq hi (by decide)
  | handle t i op c =>
    simp only [next]
    split
    · exact h.keep rfl rfl fun _ hi => eq_of_update_eq hi (by decide)
    · exact h.keep rfl rfl fun _ hi => hi
  | test t i op =>
    simp only [next]
    split
    · exact h.keep rfl rfl fun _ hi => eq_of_update_eq hi (by decide)
    · exact h.keep rfl rfl fun _ hi => hi
  | readEc t i guarded =>
    refine h.keep rfl ?_ fun _ hi => hi
    split <;> rfl
  | callbackReturns t i guarded => cases guarded <;> exact h.keep rfl rfl fun _ hi => hi
  | complete i op c => exact h
  | _ => exact h.keep rfl rfl fun _ hi => hi

theorem alive (h : machine.Runs (.start calls) s) : Alive s := by
  refine h.invariant (fun t i ht => ?_) fun _ _ hr hs he =>
    alive_next (guards hr) (listed hr) hs he
  cases ht

/-! ## The clash -/

/-- No canceller finds a session whose handler is in its cancelled exit and does not have the
registry yet, and no handler enters that exit while a canceller waits for its session. -/
def OneOrder (s : State τ) : Event τ → Prop
  | .find _ id _ =>
    ∀ i ∈ s.activeSessions.find id.toInt32, ∀ u, s.pc u ≠ .completing i true .locking
  | .test _ i _ => (s.session i).wasCancelled → ∀ u, (s.pc u).guarding ≠ some i
  | _ => True

instance [Fintype τ] (s : State τ) (e : Event τ) : Decidable (OneOrder s e) :=
  match e with
  | .find .. => inferInstanceAs (Decidable (∀ _ ∈ _, _))
  | .test .. => inferInstanceAs (Decidable (_ → _))
  | .submit .. | .submitLock .. | .store .. | .submitUnlock .. | .connect .. | .cancelRequest ..
  | .cancelLock .. | .guard .. | .mark .. | .abort .. | .unguard .. | .cancelUnlock ..
  | .complete .. | .call .. | .handle .. | .guardLock .. | .guardUnlock .. | .initiate ..
  | .completeLock .. | .erase .. | .completeUnlock .. | .readEc .. | .readFlag .. | .callback ..
  | .callbackReturns .. | .release .. => inferInstanceAs (Decidable True)

/-- No canceller waits for a session whose handler holds it on the way to the registry. -/
def NoClash (s : State τ) : Prop :=
  ∀ t u i, (s.pc t).guarding = some i → s.pc u ≠ .completing i true .locking

/-- A step of one thread that leads to neither of the two points while another thread is at the
other one. -/
theorem NoClash.move (h : NoClash s) {t : τ} {x : Pc} (hpc : s'.pc = update s.pc t x)
    (hfind : ∀ i, x.guarding = some i → ∀ u, s.pc u ≠ .completing i true .locking)
    (hexit : ∀ i, x = .completing i true .locking → ∀ u, (s.pc u).guarding ≠ some i) :
    NoClash s' := by
  rw [NoClash, hpc]
  refine (Function.forall_update_iff s.pc fun _ q => ∀ v i, q.guarding = some i →
    update s.pc t x v ≠ .completing i true .locking).mpr ⟨fun v i hx => ?_, fun u _ v i hu => ?_⟩
  · revert v
    refine (Function.forall_update_iff s.pc fun _ q => q ≠ .completing i true .locking).mpr
      ⟨fun hx' => ?_, fun v _ => hfind i hx v⟩
    rw [hx'] at hx
    cases hx
  · revert v
    exact (Function.forall_update_iff s.pc fun _ q => q ≠ .completing i true .locking).mpr
      ⟨fun hx => hexit i hx u hu, fun v _ => h u v i hu⟩

/-- A step of one thread that leads to neither of the two points. -/
theorem NoClash.keep (h : NoClash s) {t : τ} {x : Pc} (hpc : s'.pc = update s.pc t x)
    (hfind : x.guarding = none) (hexit : ∀ i, x ≠ .completing i true .locking) : NoClash s' :=
  h.move hpc (fun i hx => by rw [hfind] at hx; cases hx) fun i hx => absurd hx (hexit i)

@[simp] theorem Pc.caller_ne_locking (k : Caller) (i : ℕ) (guarded : Bool) :
    Pc.caller k ≠ .completing i guarded .locking := by
  cases k <;> simp [Pc.caller]

theorem noClash_next (h : NoClash s) (hone : OneOrder s e) : NoClash (next s e) := by
  cases e with
  | find t id k =>
    simp only [next]
    split
    next i hfound =>
      refine h.move rfl (fun j hx => ?_) (by simp)
      obtain rfl := Option.some.inj hx
      exact hone i hfound
    next => exact h.keep rfl rfl (by simp)
  | test t i op =>
    simp only [next]
    split
    next hflag =>
      refine h.move rfl (fun j hx => by cases hx) fun j hx => ?_
      obtain rfl : i = j := by simpa using hx
      exact hone hflag
    next => exact h.keep rfl rfl (by simp)
  | connect t i k | cancelUnlock t k => exact h.keep rfl (by simp) (by simp)
  | handle t i op c =>
    simp only [next]
    split <;> exact h.keep rfl rfl (by simp)
  | readEc t i guarded =>
    refine h.keep rfl ?_ fun j hx => ?_
    · split <;> rfl
    · split at hx <;> simp at hx
  | callbackReturns t i guarded => cases guarded <;> exact h.keep rfl rfl (by simp)
  | complete i op c => exact h
  | _ => exact h.keep rfl rfl (by simp)

omit [DecidableEq τ] in
/-- **A clash is a deadlock**: the canceller and the cancelled exit wait for each other. -/
theorem deadlocked_of_clash (hg : Guarded s) {t u : τ} {i : ℕ} (ht : (s.pc t).guarding = some i)
    (hu : s.pc u = .completing i true .locking) : s.Deadlocked := by
  obtain ⟨hwants, hholds⟩ := Pc.wants_and_holds_of_guarding ht
  have hown : s.owner .activeSessionsGuard = some t := (hg.owner _).owner_eq hholds
  have hguard : s.owner (.cancelGuard i) = some u :=
    (hg.owner _).owner_eq (by rw [hu]; simp [Pc.holds])
  have hwants' : (s.pc u).wants = some .activeSessionsGuard := by
    rw [hu]
    rfl
  exact ⟨t, .tail (.single ⟨_, hwants, hguard⟩) ⟨_, hwants', hown⟩⟩

omit [DecidableEq τ] in
/-- **No deadlock without a clash.**  A thread that is waited for and waits for an `m_cancel_guard`
is a canceller; the holder of what it waits for could only wait in a cancelled exit or in a
callback. -/
theorem not_deadlocked_of_noClash (hg : Guarded s) (h : NoClash s)
    (halive : ∀ t u i, (s.pc t).guarding = some i → (s.pc u).calledBack ≠ some i) :
    ¬ s.Deadlocked := by
  refine not_deadlocked_of_rank
    (fun t => if (s.pc t).wants = some .activeSessionsGuard then 0 else 1) ?_
  rintro r t u v ⟨m₀, -, hm₀⟩ ⟨m, htwants, hm⟩ ⟨m₁, huwants, -⟩
  have htholds : (s.pc t).holds m₀ := (hg.owner m₀ t).mp hm₀
  have huholds : (s.pc u).holds m := (hg.owner m u).mp hm
  cases m with
  | activeSessionsGuard =>
    obtain ⟨i, rfl⟩ := Pc.of_wants_of_holds_activeSessionsGuard huwants huholds
    simp [htwants, huwants]
  | cancelGuard i =>
    have ht := Pc.guarding_of_wants_of_holds htwants htholds
    rcases Pc.of_wants_of_holds_cancelGuard huwants huholds with hu | hu
    · exact absurd hu (h t u i ht)
    · exact absurd hu (halive t u i ht)

/-- **The client does not deadlock** — in every run in which no canceller and no cancelled exit of
one session meet. -/
theorem not_deadlocked (h : (machine.restrict OneOrder).Runs (.start calls) s) :
    ¬ s.Deadlocked := by
  refine not_deadlocked_of_noClash (guards h.of_restrict) ?_ fun t u i ht hu => ?_
  · refine h.invariant (fun t u i ht => ?_) fun _ _ _ hs he => noClash_next hs he.2
    cases ht
  · exact alive h.of_restrict t i ht (erased_of_calledBack h.of_restrict hu)

theorem not_deadlocked_sampleCalls : ∃ s : State Bool,
    (machine.restrict OneOrder).Runs (.start sampleCalls) s ∧
      (s.pc true).wants = some .activeSessionsGuard ∧ s.owner .activeSessionsGuard = some false ∧
        ¬ s.Deadlocked := by
  obtain ⟨s, hs, hwants, howner⟩ := Machine.exists_runs_of_exec
    (m := machine.restrict OneOrder) (s := .start sampleCalls)
    (Q := fun s : State Bool => (s.pc true).wants = some .activeSessionsGuard ∧
      s.owner .activeSessionsGuard = some false)
    (submitBy true 0 ++ cancelBy false 0 1 ++ [.call true 0 sampleConnect ⟨.operationAborted, []⟩,
      .handle true 0 sampleConnect ⟨.operationAborted, []⟩, .cancelRequest false 1 .outside,
      .cancelLock false 1 .outside]) (by decide +kernel)
  exact ⟨s, hs, hwants, howner, not_deadlocked hs⟩

/-- **Every other step is a deadlock**: it leads to a clash. -/
theorem deadlocked_next (hg : Guarded s) (he : Enabled s e) (hone : ¬ OneOrder s e) :
    (next s e).Deadlocked := by
  have hg' := guarded_next hg he
  cases e with
  | find t id k =>
    have ht : s.pc t = .cancelling (.finding id) k := he
    obtain ⟨i, hfound, u, hu⟩ : ∃ i ∈ s.activeSessions.find id.toInt32, ∃ u,
        s.pc u = .completing i true .locking := by simpa [OneOrder] using hone
    have hut : u ≠ t := by
      rintro rfl
      rw [ht] at hu
      cases hu
    simp only [next, Option.mem_def.mp hfound] at hg' ⊢
    refine deadlocked_of_clash hg' (t := t) (u := u) (i := i) ?_ ?_
    · simp [State.goto, Pc.guarding]
    · simpa [State.goto, Function.update_of_ne hut] using hu
  | test t i op =>
    have ht : s.pc t = .handling i (.testing op) := he
    obtain ⟨hflag, u, hu⟩ : (s.session i).wasCancelled = true ∧
        ∃ u, (s.pc u).guarding = some i := by simpa [OneOrder] using hone
    have hut : u ≠ t := by
      rintro rfl
      rw [ht] at hu
      cases hu
    simp only [next, hflag, if_true] at hg' ⊢
    refine deadlocked_of_clash hg' (t := u) (u := t) (i := i) ?_ ?_
    · simpa [State.goto, Function.update_of_ne hut] using hu
    · simp [State.goto]
  | _ => exact absurd trivial hone

/-- The session has been cancelled once; its connect handler finds the flag set and holds
`m_cancel_guard` on the way to `m_active_sessions_guard`, which a second `CancelRequest` holds while
it waits for `m_cancel_guard`. -/
theorem exists_deadlocked : ∃ s : State Bool,
    machine.Runs (.start sampleCalls) s ∧ s.Deadlocked := by
  obtain ⟨s, hs, hcancel, hexit⟩ := Machine.exists_runs_of_exec
    (m := machine) (s := .start sampleCalls)
    (Q := fun s : State Bool => (s.pc false).guarding = some 0 ∧
      s.pc true = .completing 0 true .locking)
    (submitBy true 0 ++ [.complete 0 sampleConnect ⟨.success, []⟩] ++ cancelBy false 0 1
      ++ [.call true 0 sampleConnect ⟨.success, []⟩, .handle true 0 sampleConnect ⟨.success, []⟩,
        .guardLock true 0 sampleWrite, .test true 0 sampleWrite,
        .cancelRequest false 1 .outside, .cancelLock false 1 .outside, .find false 1 .outside])
    (by decide +kernel)
  exact ⟨s, hs, deadlocked_of_clash (guards hs) hcancel hexit⟩

end AsyncTCPClient

end AsioSamples
