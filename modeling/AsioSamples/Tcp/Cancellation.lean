import AsioSamples.Tcp.Registry

/-!
# Tcp/Cancellation — what `CancelRequest` does to the session it finds

* `found_session_reports_error` — the session's callback is told an error, whatever was read.
  `OnRequestComplete` looks at the flag without a lock, after its erase; but a canceller that finds
  the session holds `m_active_sessions_guard` until it has set the flag, so the erase comes later.
* `exchanges_eq_of_aborted` — no write or read is initiated any more, unless the cancellation falls
  between a handler's flag test and its initiation (`exists_initiated_after_abort`): the handlers
  let go of `m_cancel_guard` before they initiate.
-/

namespace AsioSamples

namespace AsyncTCPClient

variable {τ : Type*} [DecidableEq τ] {s s' : State τ} {e : Event τ} {calls : ℕ → Call}

open Function (update)

/-- **`m_was_cancelled` is never reset.** -/
theorem wasCancelled_next {i : ℕ} (hi : (s.session i).wasCancelled) :
    ((next s e).session i).wasCancelled := by
  cases e with
  | mark t j k =>
    by_cases hij : i = j
    · subst hij
      simp [next, State.goto]
    · simpa [next, State.goto, Function.update_of_ne hij] using hi
  | handle t j op c =>
    rcases next_handle_cases s t j op c with ⟨σ, -, hsame, -, heq⟩ | ⟨op', heq⟩
    · rw [heq]
      exact (apply_update_eq Session.wasCancelled hsame i).trans hi
    · rw [heq]
      exact hi
  | find t id k => simp only [next]; split <;> exact hi
  | test t j op => simp only [next]; split <;> exact hi
  | _ => exact hi

/-! ## A session that was found -/

/-- The session a canceller has found and is about to mark. -/
def Pc.marks : Pc → Option ℕ
  | cancelling (.guarding i) _ | cancelling (.marking i) _ => some i
  | _ => none

/-- A canceller marks with the registry held. -/
theorem Pc.holds_of_marks : ∀ {p : Pc} {i : ℕ}, p.marks = some i → p.holds .activeSessionsGuard
  | .cancelling (.guarding _) _, _, rfl => rfl
  | .cancelling (.marking _) _, _, rfl => rfl

@[simp] theorem Pc.marks_caller : ∀ k : Caller, (Pc.caller k).marks = none
  | .outside => rfl
  | .callback _ _ => rfl

@[simp] theorem Pc.caller_ne_callingBack (k : Caller) (i : ℕ) (guarded : Bool) (ec : ErrorCode) :
    Pc.caller k ≠ .completing i guarded (.callingBack ec) := by
  cases k <;> simp [Pc.caller]

/-- A session that was found is marked or about to be, is marked once it is erased, and is told an
error. -/
structure Flagged (s : State τ) : Prop where
  found : ∀ i, s.found i → (s.session i).wasCancelled ∨ ∃ t, (s.pc t).marks = some i
  erased : ∀ i, s.stage i = .erased → s.found i → (s.session i).wasCancelled
  callingBack : ∀ t i guarded ec, s.pc t = .completing i guarded (.callingBack ec) → s.found i →
    ec.value ≠ 0
  callbacks : ∀ i, s.found i → ∀ cb ∈ s.callbacks i, cb.ec.value ≠ 0

/-- A step of one thread that finds nothing and calls nothing back. -/
theorem Flagged.keep (h : Flagged s) {t : τ} {p x : Pc} (ht : s.pc t = p)
    (hpc : s'.pc = update s.pc t x)
    (hmarks : ∀ i, p.marks = some i → x.marks = some i ∨ (s'.session i).wasCancelled)
    (hcall : ∀ i guarded ec, x = .completing i guarded (.callingBack ec) → s.found i →
      ec.value ≠ 0)
    (herased : ∀ i, s'.stage i = .erased → s.found i → (s.session i).wasCancelled)
    (hflag : ∀ i, (s.session i).wasCancelled → (s'.session i).wasCancelled)
    (hfound : s'.found = s.found) (hcb : s'.callbacks = s.callbacks) : Flagged s' := by
  refine ⟨fun i hi => ?_, fun i hst hi => ?_, ?_, fun i hi => ?_⟩
  · rw [hfound] at hi
    rcases h.found i hi with hset | ⟨u, hu⟩
    · exact Or.inl (hflag i hset)
    · by_cases hut : u = t
      · subst hut
        rw [ht] at hu
        refine (hmarks i hu).symm.imp_right fun hx => ⟨u, ?_⟩
        rw [hpc, Function.update_self, hx]
      · refine Or.inr ⟨u, ?_⟩
        rw [hpc, Function.update_of_ne hut, hu]
  · rw [hfound] at hi
    exact hflag i (herased i hst hi)
  · rw [hpc, hfound]
    exact (Function.forall_update_iff s.pc fun _ q => ∀ i guarded ec,
      q = .completing i guarded (.callingBack ec) → s.found i → ec.value ≠ 0).mpr
        ⟨hcall, fun u _ => h.callingBack u⟩
  · rw [hfound] at hi
    rw [hcb]
    exact h.callbacks i hi

/-- A step of one thread that marks nothing, calls nothing back and erases nothing. -/
theorem Flagged.quiet (h : Flagged s) {t : τ} {p x : Pc} (ht : s.pc t = p)
    (hpc : s'.pc = update s.pc t x) (hmarks : p.marks = none)
    (hcall : ∀ i guarded ec, x ≠ .completing i guarded (.callingBack ec))
    (herased : ∀ i, s'.stage i = .erased → s.stage i = .erased)
    (hflag : ∀ i, (s.session i).wasCancelled → (s'.session i).wasCancelled)
    (hfound : s'.found = s.found) (hcb : s'.callbacks = s.callbacks) : Flagged s' :=
  h.keep ht hpc (fun i hi => by rw [hmarks] at hi; cases hi)
    (fun i guarded ec hx => absurd hx (hcall i guarded ec))
    (fun i hi => h.erased i (herased i hi)) hflag hfound hcb

/-- **A canceller finds a session.**  It is in the map, so it has not been erased and nobody is
calling it back. -/
theorem flagged_find (hs : Staged s) (hl : Listed s) (h : Flagged s) {t : τ} {id : UInt32}
    {k : Caller} (ht : s.pc t = .cancelling (.finding id) k) {i : ℕ}
    (hfind : s.activeSessions.find id.toInt32 = some i) :
    Flagged ({ s with found := update s.found i true }.goto t (.cancelling (.guarding i) k)) := by
  have hmid : Flagged (s.goto t (.cancelling (.guarding i) k)) :=
    h.quiet ht rfl rfl (by simp) (fun _ hi => hi) (fun _ hi => hi) rfl rfl
  have hold : ∀ {j : ℕ}, s.stage j = .erased → update s.found i true j = true →
      s.found j = true := by
    intro j hj hfound
    have hji : j ≠ i := by
      rintro rfl
      exact hl.not_erased hfind hj
    rwa [Function.update_of_ne hji] at hfound
  refine ⟨fun j hj => ?_, fun j hst hj => hmid.erased j hst (hold hst hj),
    fun u j guarded ec hu hj => hmid.callingBack u j guarded ec hu (hold ?_ hj),
    fun j hj cb hcb => hmid.callbacks j (hold (hs.callbacks j (List.ne_nil_of_mem hcb)) hj) cb hcb⟩
  · by_cases hji : j = i
    · subst hji
      exact Or.inr ⟨t, by simp [State.goto, Pc.marks]⟩
    · refine hmid.found j ?_
      simpa [State.goto, Function.update_of_ne hji] using hj
  · have hut : u ≠ t := by
      rintro rfl
      simp [State.goto] at hu
    have hu' : s.pc u = .completing j guarded (.callingBack ec) := by
      simpa [State.goto, Function.update_of_ne hut] using hu
    exact hs.of_pc hu' rfl

omit [DecidableEq τ] in
/-- **A session that was found is marked when it is erased.**  The thread that erases holds the
registry, so no canceller is between its find and its mark. -/
theorem wasCancelled_of_erasing (hg : Guarded s) (h : Flagged s) {t : τ} {i : ℕ} {guarded : Bool}
    (ht : s.pc t = .completing i guarded .erasing) (hi : s.found i) :
    (s.session i).wasCancelled := by
  rcases h.found i hi with hset | ⟨u, hu⟩
  · exact hset
  · have hut : u = t :=
      (hg.owner .activeSessionsGuard).unique (Pc.holds_of_marks hu) (by rw [ht]; rfl)
    rw [hut, ht] at hu
    cases hu

theorem flagged_next (hg : Guarded s) (hs : Staged s) (hl : Listed s) (h : Flagged s)
    (he : Enabled s e) : Flagged (next s e) := by
  cases e with
  | find t id k =>
    simp only [next]
    split
    next i hfind => exact flagged_find hs hl h he hfind
    next => exact h.quiet he rfl rfl (by simp) (fun _ hi => hi) (fun _ hi => hi) rfl rfl
  | guard t i k =>
    refine h.keep he.1 rfl (fun j hj => Or.inl hj) (by simp) h.erased (fun _ hi => hi) rfl rfl
  | mark t i k =>
    refine h.keep he rfl (fun j hj => Or.inr ?_) (by simp) h.erased (fun _ => wasCancelled_next)
      rfl rfl
    obtain rfl := Option.some.inj hj
    simp [next, State.goto]
  | handle t i op c =>
    have hflag : ∀ j, (s.session j).wasCancelled →
        ((next s (.handle t i op c)).session j).wasCancelled := fun _ => wasCancelled_next
    rcases next_handle_cases s t i op c with ⟨σ, -, -, -, heq⟩ | ⟨op', heq⟩
    · rw [heq] at hflag ⊢
      exact h.quiet he rfl rfl (by simp) (fun _ hi => eq_of_update_eq hi (by decide)) hflag rfl rfl
    · rw [heq]
      exact h.quiet he rfl rfl (by simp) (fun _ hi => hi) (fun _ hi => hi) rfl rfl
  | test t i op =>
    simp only [next]
    split
    · exact h.quiet he rfl rfl (by simp) (fun _ hi => eq_of_update_eq hi (by decide))
        (fun _ hi => hi) rfl rfl
    · exact h.quiet he rfl rfl (by simp) (fun _ hi => hi) (fun _ hi => hi) rfl rfl
  | store t i k =>
    exact h.quiet he rfl rfl (by simp) (fun _ hi => eq_of_update_eq hi (by decide))
      (fun _ hi => hi) rfl rfl
  | erase t i guarded =>
    have ht : s.pc t = .completing i guarded .erasing := he
    refine h.keep ht rfl (fun j hj => by cases hj) (by simp) (fun j hj hfound => ?_)
      (fun _ hi => hi) rfl rfl
    by_cases hji : j = i
    · exact hji ▸ wasCancelled_of_erasing hg h ht (hji ▸ hfound)
    · exact h.erased j (by simpa [next, State.goto, Function.update_of_ne hji] using hj) hfound
  | readEc t i guarded =>
    refine h.keep he rfl (fun j hj => by cases hj) (fun j g ec hx hj => ?_) h.erased
      (fun _ hi => hi) rfl rfl
    split at hx
    next => simp at hx
    next hne =>
      obtain ⟨-, -, rfl⟩ : i = j ∧ guarded = g ∧ (s.session i).ec = ec := by simpa using hx
      exact hne
  | readFlag t i guarded =>
    have ht : s.pc t = .completing i guarded .readingFlag := he
    refine h.keep ht rfl (fun j hj => by cases hj) (fun j g ec hx hj => ?_) h.erased
      (fun _ hi => hi) rfl rfl
    obtain ⟨rfl, -, rfl⟩ : i = j ∧ guarded = g ∧ _ = ec := by simpa using hx
    rw [if_pos (h.erased i (hs.of_pc ht rfl) hj)]
    decide
  | callback t i guarded ec =>
    have ht : s.pc t = .completing i guarded (.callingBack ec) := he
    have hmid : Flagged (s.goto t (.completing i guarded .inCallback)) :=
      h.quiet ht rfl rfl (by simp) (fun _ hi => hi) (fun _ hi => hi) rfl rfl
    refine ⟨hmid.found, hmid.erased, hmid.callingBack, fun j hj cb hcb => ?_⟩
    by_cases hji : j = i
    · subst hji
      simp only [next, State.goto, Function.update_self] at hcb
      rcases List.mem_append.mp hcb with hold | hnew
      · exact h.callbacks j hj cb hold
      · obtain rfl := List.mem_singleton.mp hnew
        exact h.callingBack t j guarded ec ht hj
    · simp only [next, State.goto, Function.update_of_ne hji] at hcb
      exact h.callbacks j hj cb hcb
  | callbackReturns t i guarded =>
    refine h.quiet he rfl rfl ?_ (fun _ hi => hi) (fun _ hi => hi) rfl rfl
    cases guarded <;> simp
  | complete i op c => exact ⟨h.found, h.erased, h.callingBack, h.callbacks⟩
  | submit t k | cancelRequest t id k =>
    exact h.quiet he rfl (by simp) (by simp) (fun _ hi => hi) (fun _ hi => hi) rfl rfl
  | submitLock t i k | cancelLock t id k | call t i op c | guardLock t i op
  | completeLock t i guarded =>
    exact h.quiet he.1 rfl rfl (by simp) (fun _ hi => hi) (fun _ hi => hi) rfl rfl
  | _ => exact h.quiet he rfl rfl (by simp) (fun _ hi => hi) (fun _ hi => hi) rfl rfl

/-- **A session that some `CancelRequest` found is never reported as a success**, even if its
response had been read completely. -/
theorem found_session_reports_error (h : machine.Runs (.start calls) s) {i : ℕ}
    (hi : s.found i = true) : ∀ cb ∈ s.callbacks i, cb.ec.value ≠ 0 := by
  refine (h.invariant (I := Flagged) ?_ fun _ _ hr hs he =>
    flagged_next (guards hr) (staged hr) (listed hr) hs he).callbacks i hi
  refine ⟨fun i hi => ?_, fun i hi => ?_, fun t i guarded ec ht => ?_, fun i hi => ?_⟩
  · cases hi
  · cases hi
  · cases ht
  · cases hi

theorem found_session_reports_error_sampleCalls : ∃ s : State Bool,
    machine.Runs (.start sampleCalls) s ∧ s.callbacks 0 ≠ [] ∧
      ∀ cb ∈ s.callbacks 0, cb.response = bytes "ok" ∧ cb.ec.value ≠ 0 := by
  obtain ⟨s, hs, hfound, hne, hresp⟩ := Machine.exists_runs_of_exec
    (m := machine) (s := .start sampleCalls)
    (Q := fun s : State Bool => s.found 0 = true ∧ s.callbacks 0 ≠ [] ∧
      ∀ cb ∈ s.callbacks 0, cb.response = bytes "ok")
    (toReadBy true 0 ++ handleBy true 0 .readLine ⟨.success, bytes "ok\n"⟩
      ++ cancelBy false 0 1 ++ completeBy true 0 false
      ++ [.readFlag true 0 false, .callback true 0 false .operationAborted]) (by decide +kernel)
  exact ⟨s, hs, hne, fun cb hcb => ⟨hresp cb hcb, found_session_reports_error hs hfound cb hcb⟩⟩

/-! ## A session that was aborted -/

/-- The session for which a handler has found the flag clear and still has to initiate. -/
def Pc.pastTest : Pc → Option ℕ
  | handling i (.unlocking _) | handling i (.initiating _) => some i
  | _ => none

theorem Pc.of_pastTest : ∀ {p : Pc} {i : ℕ}, p.pastTest = some i →
    (∃ op, p = .handling i (.unlocking op)) ∨ ∃ op, p = .handling i (.initiating op)
  | .handling _ (.unlocking op), _, rfl => Or.inl ⟨op, rfl⟩
  | .handling _ (.initiating op), _, rfl => Or.inr ⟨op, rfl⟩

/-- The session whose socket a canceller is about to cancel. -/
def Pc.aborts : Pc → Option ℕ
  | cancelling (.aborting i) _ => some i
  | _ => none

@[simp] theorem Pc.pastTest_caller : ∀ k : Caller, (Pc.caller k).pastTest = none
  | .outside => rfl
  | .callback _ _ => rfl

@[simp] theorem Pc.aborts_caller : ∀ k : Caller, (Pc.caller k).aborts = none
  | .outside => rfl
  | .callback _ _ => rfl

/-- The writes and reads initiated for a session. -/
def State.exchanges (s : State τ) (i : ℕ) : List SessionOp :=
  (s.initiated i).filter fun op => match op with
    | .connect _ => false
    | _ => true

/-- `m_sock.cancel()` is not called while a handler of the session stands between its flag test and
its initiation. -/
def NoneInitiating (s : State τ) : Event τ → Prop
  | .abort _ i _ _ => ∀ t, (s.pc t).pastTest ≠ some i
  | _ => True

instance [Fintype τ] (s : State τ) (e : Event τ) : Decidable (NoneInitiating s e) :=
  match e with
  | .abort .. => inferInstanceAs (Decidable (∀ _, _))
  | .submit .. | .submitLock .. | .store .. | .submitUnlock .. | .connect .. | .cancelRequest ..
  | .cancelLock .. | .find .. | .guard .. | .mark .. | .unguard .. | .cancelUnlock .. | .complete ..
  | .call .. | .handle .. | .guardLock .. | .test .. | .guardUnlock .. | .initiate ..
  | .completeLock .. | .erase .. | .completeUnlock .. | .readEc .. | .readFlag .. | .callback ..
  | .callbackReturns .. | .release .. => inferInstanceAs (Decidable True)

/-- An aborted session is marked, and no handler of it is past its test. -/
structure Stopped (s : State τ) : Prop where
  aborting : ∀ t i, (s.pc t).aborts = some i → (s.session i).wasCancelled
  marked : ∀ i, s.aborted i → (s.session i).wasCancelled
  pastTest : ∀ i, s.aborted i → ∀ t, (s.pc t).pastTest ≠ some i

/-- A step of one thread that aborts nothing. -/
theorem Stopped.keep (h : Stopped s) {t : τ} {p x : Pc} (ht : s.pc t = p)
    (hpc : s'.pc = update s.pc t x)
    (habort : ∀ i, x.aborts = some i → (s'.session i).wasCancelled)
    (hpast : ∀ i, x.pastTest = some i → p.pastTest = some i ∨ (s.session i).wasCancelled = false)
    (hflag : ∀ i, (s.session i).wasCancelled → (s'.session i).wasCancelled)
    (haborted : s'.aborted = s.aborted) : Stopped s' := by
  refine ⟨?_, fun i hi => ?_, fun i hi => ?_⟩
  · rw [hpc]
    exact (Function.forall_update_iff s.pc fun _ q => ∀ i, q.aborts = some i →
      (s'.session i).wasCancelled).mpr ⟨habort, fun u _ i hu => hflag i (h.aborting u i hu)⟩
  · rw [haborted] at hi
    exact hflag i (h.marked i hi)
  · rw [haborted] at hi
    rw [hpc]
    refine (Function.forall_update_iff s.pc fun _ q => q.pastTest ≠ some i).mpr
      ⟨fun hx => ?_, fun u _ => h.pastTest i hi u⟩
    rcases hpast i hx with hp | hclear
    · exact h.pastTest i hi t (ht ▸ hp)
    · rw [h.marked i hi] at hclear
      cases hclear

/-- A step of one thread that aborts nothing and takes no handler past its test. -/
theorem Stopped.quiet (h : Stopped s) {t : τ} {p x : Pc} (ht : s.pc t = p)
    (hpc : s'.pc = update s.pc t x) (habort : x.aborts = none)
    (hpast : x.pastTest = none ∨ x.pastTest = p.pastTest)
    (hflag : ∀ i, (s.session i).wasCancelled → (s'.session i).wasCancelled)
    (haborted : s'.aborted = s.aborted) : Stopped s' := by
  refine h.keep ht hpc (fun i hx => by rw [habort] at hx; cases hx) (fun i hx => Or.inl ?_)
    hflag haborted
  rcases hpast with hnone | hsame
  · rw [hnone] at hx
    cases hx
  · rw [← hsame, hx]

theorem stopped_next (h : Stopped s) (he : Enabled s e) (hnone : NoneInitiating s e) :
    Stopped (next s e) := by
  cases e with
  | mark t i k =>
    refine h.keep he rfl (fun j hx => ?_) (fun j hx => by cases hx) (fun _ => wasCancelled_next) rfl
    obtain rfl := Option.some.inj hx
    simp [next, State.goto]
  | abort t i reached k =>
    have ht : s.pc t = .cancelling (.aborting i) k := he
    have hmid : Stopped (s.goto t (.cancelling (.unguarding i) k)) :=
      h.quiet ht rfl rfl (Or.inl rfl) (fun _ hi => hi) rfl
    refine ⟨hmid.aborting, fun j hj => ?_, fun j hj u hu => ?_⟩
    · by_cases hji : j = i
      · subst hji
        exact h.aborting t j (by rw [ht]; rfl)
      · exact hmid.marked j (by simpa [next, State.goto, Function.update_of_ne hji] using hj)
    · by_cases hji : j = i
      · subst hji
        by_cases hut : u = t
        · subst hut
          simp [next, State.goto, Pc.pastTest] at hu
        · refine hnone u ?_
          simpa [next, State.goto, Function.update_of_ne hut] using hu
      · exact hmid.pastTest j (by simpa [next, State.goto, Function.update_of_ne hji] using hj) u hu
  | test t i op =>
    by_cases hflag : (s.session i).wasCancelled
    · simp only [next, hflag, if_true]
      exact h.quiet he rfl rfl (Or.inl rfl) (fun _ hi => hi) rfl
    · simp only [next, hflag]
      refine h.keep he rfl (fun j hx => by cases hx) (fun j hx => Or.inr ?_) (fun _ hi => hi) rfl
      obtain rfl := Option.some.inj hx
      exact Bool.eq_false_iff.mpr hflag
  | handle t i op c =>
    have hflag : ∀ j, (s.session j).wasCancelled →
        ((next s (.handle t i op c)).session j).wasCancelled := fun _ => wasCancelled_next
    rcases next_handle_cases s t i op c with ⟨σ, -, -, -, heq⟩ | ⟨op', heq⟩
    · rw [heq] at hflag ⊢
      exact h.quiet he rfl rfl (Or.inl rfl) hflag rfl
    · rw [heq]
      exact h.quiet he rfl rfl (Or.inl rfl) (fun _ hi => hi) rfl
  | find t id k =>
    simp only [next]
    split <;> exact h.quiet he rfl rfl (Or.inl rfl) (fun _ hi => hi) rfl
  | guardUnlock t i op => exact h.quiet he rfl rfl (Or.inr rfl) (fun _ hi => hi) rfl
  | callbackReturns t i guarded =>
    refine h.quiet he rfl ?_ (Or.inl ?_) (fun _ hi => hi) rfl
    · cases guarded <;> rfl
    · cases guarded <;> rfl
  | complete i op c => exact ⟨h.aborting, h.marked, h.pastTest⟩
  | connect t i k | cancelUnlock t k =>
    exact h.quiet he rfl (by simp) (Or.inl (by simp)) (fun _ hi => hi) rfl
  | submitLock t i k | cancelLock t id k | guard t i k | call t i op c | guardLock t i op
  | completeLock t i guarded =>
    exact h.quiet he.1 rfl rfl (Or.inl rfl) (fun _ hi => hi) rfl
  | _ => exact h.quiet he rfl rfl (Or.inl rfl) (fun _ hi => hi) rfl

theorem stopped (h : (machine.restrict NoneInitiating).Runs (.start calls) s) : Stopped s := by
  refine h.invariant ⟨fun t i ht => ?_, fun i hi => ?_, fun i hi => ?_⟩
    fun _ _ _ hs he => stopped_next hs he.1 he.2
  · cases ht
  · cases hi
  · cases hi

/-- A session that is aborted stays aborted, and only a handler past its test initiates a write or a
read. -/
theorem exchanges_next {i : ℕ} (hi : s.aborted i) (hpast : ∀ t, (s.pc t).pastTest ≠ some i)
    (he : Enabled s e) : (next s e).aborted i ∧ (next s e).exchanges i = s.exchanges i := by
  cases e with
  | abort t j reached k =>
    refine ⟨?_, rfl⟩
    by_cases hij : i = j
    · subst hij
      simp [next, State.goto]
    · simpa [next, State.goto, Function.update_of_ne hij] using hi
  | connect t j k =>
    refine ⟨hi, ?_⟩
    by_cases hij : i = j
    · subst hij
      simp [next, State.goto, State.exchanges]
    · simp [next, State.goto, State.exchanges, Function.update_of_ne hij]
  | initiate t j op =>
    have ht : s.pc t = .handling j (.initiating op) := he
    have hij : i ≠ j := by
      rintro rfl
      exact hpast t (by rw [ht]; rfl)
    exact ⟨hi, by simp [next, State.goto, State.exchanges, Function.update_of_ne hij]⟩
  | find t id k => simp only [next]; split <;> exact ⟨hi, rfl⟩
  | handle t j op c => simp only [next]; split <;> exact ⟨hi, rfl⟩
  | test t j op => simp only [next]; split <;> exact ⟨hi, rfl⟩
  | _ => exact ⟨hi, rfl⟩

/-- **Cancelling stops the session** — in every run in which no `m_sock.cancel()` falls between a
handler's flag test and its initiation: no write and no read is initiated after it. -/
theorem exchanges_eq_of_aborted (h : (machine.restrict NoneInitiating).Runs (.start calls) s)
    {i : ℕ} (hi : s.aborted i = true) (h' : (machine.restrict NoneInitiating).Runs s s') :
    s'.exchanges i = s.exchanges i := by
  refine (h'.invariant (I := fun s' => s'.aborted i = true ∧ s'.exchanges i = s.exchanges i)
    ⟨hi, rfl⟩ fun s₁ e hr ⟨hi₁, hsame⟩ he => ?_).2
  have hnext := exchanges_next hi₁ ((stopped (h.trans hr)).pastTest i hi₁) he.1
  exact ⟨hnext.1, hnext.2.trans hsame⟩

theorem exchanges_eq_of_aborted_sampleCalls : ∃ s s' : State Bool,
    (machine.restrict NoneInitiating).Runs (.start sampleCalls) s ∧ s.aborted 0 = true ∧
      (machine.restrict NoneInitiating).Runs s s' ∧ (s'.callbacks 0).length = 1 ∧
        s'.exchanges 0 = s.exchanges 0 := by
  obtain ⟨s, hs, haborted, hany⟩ := Machine.exists_runs_of_exec
    (m := machine.restrict NoneInitiating) (s := .start sampleCalls)
    (Q := fun s : State Bool => s.aborted 0 = true ∧ ((machine.restrict NoneInitiating).exec s
      ([.call true 0 .readLine ⟨.operationAborted, []⟩,
        .handle true 0 .readLine ⟨.operationAborted, []⟩] ++ completeBy true 0 false
        ++ [.callback true 0 false .operationAborted])).any
          (fun s' => (s'.callbacks 0).length == 1) = true)
    (toReadBy true 0 ++ cancelBy false 0 1) (by decide +kernel)
  obtain ⟨s', hs', hcb⟩ := (Option.any_eq_true _ _).mp hany
  have hrun := Machine.runs_of_exec hs'
  exact ⟨s, s', hs, haborted, hrun, by simpa using hcb, exchanges_eq_of_aborted hs haborted hrun⟩

/-- **Any other cancellation is lost**: the handler past its test goes on to initiate. -/
theorem exists_initiated_of_late (he : Enabled s e) (hlate : ¬ NoneInitiating s e) :
    ∃ s' i op, (next s e).aborted i = true ∧ machine.Runs (next s e) s' ∧
      s'.initiated i = (next s e).initiated i ++ [op] := by
  cases e with
  | abort t i reached k =>
    have ht : s.pc t = .cancelling (.aborting i) k := he
    obtain ⟨u, hu⟩ : ∃ u, (s.pc u).pastTest = some i := by simpa [NoneInitiating] using hlate
    have hut : u ≠ t := by
      rintro rfl
      rw [ht] at hu
      cases hu
    have hpc : (next s (.abort t i reached k)).pc u = s.pc u := Function.update_of_ne hut _ _
    have haborted : (next s (.abort t i reached k)).aborted i = true := Function.update_self ..
    rcases Pc.of_pastTest hu with ⟨op, hop⟩ | ⟨op, hop⟩
    · have h₁ := Machine.Runs.single (m := machine) (e := .guardUnlock u i op) (hpc.trans hop)
      have h₂ := h₁.step (e := .initiate u i op) (by simp [machine, Enabled, next, State.goto])
      refine ⟨_, i, op, haborted, h₂, ?_⟩
      simp [machine, next, State.goto]
    · have h₁ := Machine.Runs.single (m := machine) (e := .initiate u i op) (hpc.trans hop)
      refine ⟨_, i, op, haborted, h₁, ?_⟩
      simp [machine, next, State.goto]
  | _ => exact absurd trivial hlate

/-- The connect handler has found the flag clear and let go of `m_cancel_guard`; `CancelRequest`
finds the session, marks it, cancels its socket and returns; then the handler initiates its
write, and nothing aborts it. -/
theorem exists_initiated_after_abort : ∃ s s' : State Bool,
    machine.Runs (.start sampleCalls) s ∧ s.aborted 0 = true ∧ s.exchanges 0 = [] ∧
      machine.Runs s s' ∧ s'.exchanges 0 = [sampleWrite] ∧
        s'.outstanding 0 = [⟨sampleWrite, none⟩] := by
  obtain ⟨s, hs, haborted, hnone, hany⟩ := Machine.exists_runs_of_exec
    (m := machine) (s := .start sampleCalls)
    (Q := fun s : State Bool => s.aborted 0 = true ∧ s.exchanges 0 = [] ∧
      (machine.exec s [.initiate true 0 sampleWrite]).any (fun s' =>
        s'.exchanges 0 == [sampleWrite] && s'.outstanding 0 == [⟨sampleWrite, none⟩]) = true)
    (submitBy true 0 ++ handleBy true 0 sampleConnect ⟨.success, []⟩
      ++ [.guardLock true 0 sampleWrite, .test true 0 sampleWrite, .guardUnlock true 0 sampleWrite]
      ++ cancelBy false 0 1) (by decide +kernel)
  obtain ⟨s', hs', hex⟩ := (Option.any_eq_true _ _).mp hany
  obtain ⟨hwrite, hout⟩ : s'.exchanges 0 = [sampleWrite] ∧
      s'.outstanding 0 = [⟨sampleWrite, none⟩] := by simpa using hex
  exact ⟨s, s', hs, haborted, hnone, Machine.runs_of_exec hs', hwrite, hout⟩

end AsyncTCPClient

end AsioSamples
