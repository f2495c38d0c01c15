import AsioSamples.Tcp.Client

/-!
# Tcp/Threads — mutexes and batons of `AsyncTCPClient`

Three invariants of every run, on which everything else about the client rests.

* `guards` — who holds which mutex can be read off the program points.
* `batons` — a submitted session is with one thread, or has one outstanding operation, or has been
  called back once.
* `staged` — how far a session has come can be read off where it is.
-/

namespace AsioSamples

namespace AsyncTCPClient

variable {τ : Type*} [DecidableEq τ] {s : State τ} {e : Event τ} {calls : ℕ → Call}

open Function (update)

/-! ## Mutexes -/

/-- A canceller does not hold the `m_cancel_guard` it has taken through the callback it is in. -/
def Pc.TakenOnce : Pc → Prop
  | cancelling p k => ∀ i, p.guards i → k.guards i = false
  | _ => True

/-- A thread holds a mutex exactly between its lock and its unlock, and takes none twice. -/
structure Guarded (s : State τ) : Prop where
  owner : ∀ m, Guards (fun p => p.holds m) (s.owner m) s.pc
  once : ∀ t, (s.pc t).TakenOnce

namespace Guarded

variable {s' : State τ} {t : τ} {p x : Pc}

/-- A step of one thread that takes and releases nothing. -/
theorem keep (h : Guarded s) (ht : s.pc t = p) (hpc : s'.pc = update s.pc t x)
    (hx : ∀ m, x.holds m ↔ p.holds m) (honce : p.TakenOnce → x.TakenOnce)
    (howner : s'.owner = s.owner) : Guarded s' := by
  refine ⟨?_, ?_⟩
  · rw [hpc, howner]
    exact Guards.keepAll h.owner ht hx
  · rw [hpc]
    exact (Function.forall_update_iff s.pc fun _ q => q.TakenOnce).mpr
      ⟨honce (ht ▸ h.once t), fun u _ => h.once u⟩

/-- A step of one thread that takes a mutex. -/
theorem acquire (h : Guarded s) {m : Mutex} (he : s.pc t = p ∧ s.owner m = none)
    (hpc : s'.pc = update s.pc t x) (hx : ∀ m', x.holds m' ↔ m' = m ∨ p.holds m')
    (honce : p.TakenOnce → ¬ p.holds m → x.TakenOnce)
    (howner : s'.owner = update s.owner m (some t)) : Guarded s' := by
  obtain ⟨ht, hfree⟩ := he
  have hnot : ¬ p.holds m := by
    intro hp
    have hown := (h.owner m).owner_eq (t := t) (ht.symm ▸ hp)
    rw [hfree] at hown
    cases hown
  refine ⟨?_, ?_⟩
  · rw [hpc, howner]
    exact Guards.acquireOne h.owner ht hfree hx
  · rw [hpc]
    exact (Function.forall_update_iff s.pc fun _ q => q.TakenOnce).mpr
      ⟨honce (ht ▸ h.once t) hnot, fun u _ => h.once u⟩

/-- A step of one thread that releases a mutex. -/
theorem release (h : Guarded s) {m : Mutex} (ht : s.pc t = p) (hpc : s'.pc = update s.pc t x)
    (hp : p.holds m) (hx : p.TakenOnce → ∀ m', x.holds m' ↔ m' ≠ m ∧ p.holds m')
    (honce : x.TakenOnce) (howner : s'.owner = update s.owner m none) : Guarded s' := by
  refine ⟨?_, ?_⟩
  · rw [hpc, howner]
    exact Guards.releaseOne h.owner ht hp (hx (ht ▸ h.once t))
  · rw [hpc]
    exact (Function.forall_update_iff s.pc fun _ q => q.TakenOnce).mpr
      ⟨honce, fun u _ => h.once u⟩

end Guarded

@[simp] theorem Pc.takenOnce_caller : ∀ k : Caller, (Pc.caller k).TakenOnce
  | .outside => trivial
  | .callback _ _ => trivial

theorem guarded_next (h : Guarded s) (he : Enabled s e) : Guarded (next s e) := by
  cases e with
  | submit t k =>
    refine h.keep he rfl (fun m => ?_) (fun _ => trivial) rfl
    cases m <;> cases k <;> exact Iff.rfl
  | connect t i k =>
    refine h.keep he rfl (fun m => ?_) (fun _ => by simp) rfl
    cases m <;> cases k <;> exact Iff.rfl
  | cancelRequest t id k =>
    refine h.keep he rfl (fun m => ?_) (fun _ i hi => by cases hi) rfl
    cases m <;> cases k <;> exact Iff.rfl
  | submitLock t i k | completeLock t i guarded =>
    refine h.acquire he rfl (fun m => ?_) (fun _ _ => trivial) rfl
    cases m <;> simp [Pc.holds]
  | guardLock t i op =>
    refine h.acquire he rfl (fun m => ?_) (fun _ _ => trivial) rfl
    cases m <;> simp [Pc.holds, eq_comm]
  | cancelLock t id k =>
    refine h.acquire he rfl (fun m => ?_) (fun _ _ i hi => by cases hi) rfl
    cases m <;> simp [Pc.holds, CancelPc.guards]
  | guard t i k =>
    refine h.acquire he rfl (fun m => ?_) (fun _ hnot j hj => ?_) rfl
    · cases m <;> simp [Pc.holds, CancelPc.guards, eq_comm (a := i)]
    · -- the guard was free, so the callback does not hold it
      obtain rfl : i = j := of_decide_eq_true hj
      simpa [Pc.holds, CancelPc.guards] using hnot
  | submitUnlock t i k | completeUnlock t i guarded =>
    refine h.release he rfl rfl (fun _ m => ?_) trivial rfl
    cases m <;> simp [Pc.holds]
  | guardUnlock t i op | release t i =>
    refine h.release he rfl (by simp [Pc.holds]) (fun _ m => ?_) trivial rfl
    cases m <;> simp [Pc.holds, eq_comm]
  | unguard t i k =>
    refine h.release he rfl (by simp [Pc.holds, CancelPc.guards]) (fun honce m => ?_)
      (fun j hj => by cases hj) rfl
    have hk : k.guards i = false := honce i (decide_eq_true rfl)
    cases m with
    | activeSessionsGuard => simp [Pc.holds]
    | cancelGuard j =>
      by_cases hj : j = i
      · subst hj
        simp [Pc.holds, CancelPc.guards, hk]
      · simp [Pc.holds, CancelPc.guards, hj, Ne.symm hj]
  | cancelUnlock t k =>
    refine h.release he rfl rfl (fun _ m => ?_) (by simp) rfl
    cases m <;> cases k <;> simp [Pc.holds, Pc.caller, CancelPc.guards, Caller.guards]
  | find t id k =>
    simp only [next]
    split <;>
    · refine h.keep he rfl (fun m => ?_) (fun _ i hi => by cases hi) rfl
      cases m <;> exact Iff.rfl
  | handle t i op c =>
    simp only [next]
    split <;> exact h.keep he rfl (fun m => by cases m <;> exact Iff.rfl) id rfl
  | test t i op =>
    simp only [next]
    split <;> exact h.keep he rfl (fun m => by cases m <;> simp [Pc.holds]) id rfl
  | readEc t i guarded =>
    refine h.keep he rfl (fun m => ?_) (fun _ => ?_) rfl
    · cases m <;> simp only [apply_ite] <;> split <;> exact Iff.rfl
    · split <;> trivial
  | callbackReturns t i guarded =>
    refine h.keep he rfl (fun m => ?_) (fun _ => ?_) rfl
    · cases guarded <;> cases m <;> simp [Pc.holds]
    · cases guarded <;> trivial
  | complete i op c => exact ⟨h.owner, h.once⟩
  | call t i op c => exact h.keep he.1 rfl (fun m => by cases m <;> exact Iff.rfl) id rfl
  | _ => exact h.keep he rfl (fun m => by cases m <;> exact Iff.rfl) id rfl

/-- **Who holds which mutex can be read off the program points**, in every state. -/
theorem guards (h : machine.Runs (.start calls) s) : Guarded s := by
  refine h.invariant ⟨fun m t => ?_, fun t => trivial⟩ fun _ _ _ hs he => guarded_next hs he
  cases m <;> simp [State.start, Pc.holds]

/-! ## Batons -/

/-- A submitted session is with one thread, or has one operation, or has been called back once. -/
def Batons (s : State τ) : Prop :=
  ∀ i, Baton (fun p => p.session = some i) s.pc (decide (i < s.submitted))
    (s.outstanding i).length (s.callbacks i).length

namespace Batons

variable {s' : State τ} {t : τ} {p x : Pc} {i : ℕ}

/-- A step of one thread that takes up or lets go of no session. -/
theorem keep (h : Batons s) (ht : s.pc t = p) (hpc : s'.pc = update s.pc t x)
    (hx : x.session = p.session) (hsub : s'.submitted = s.submitted)
    (hout : ∀ i, (s'.outstanding i).length = (s.outstanding i).length)
    (hcb : s'.callbacks = s.callbacks) : Batons s' := by
  intro i
  rw [hpc, hsub, hout, hcb]
  exact Baton.keepAll h ht hx i

/-- A step of one thread that initiates an operation of its session. -/
theorem initiate (h : Batons s) (ht : s.pc t = p) (hp : p.session = some i)
    (hpc : s'.pc = update s.pc t x) (hx : x.session = none) (hsub : s'.submitted = s.submitted)
    {op : SessionOp}
    (hout : s'.outstanding = update s.outstanding i (Pending.initiate (s.outstanding i) op))
    (hcb : s'.callbacks = s.callbacks) : Batons s' := by
  intro j
  rw [hpc, hsub, hout, hcb, Function.apply_update (fun _ => List.length), Pending.length_initiate]
  exact Baton.initiateOne h ht hp hx j

omit [DecidableEq τ] in
/-- A session with a thread has no operation outstanding and has not been called back, and no other
thread has it. -/
theorem of_session (h : Batons s) (ht : (s.pc t).session = some i) :
    i < s.submitted ∧ s.outstanding i = [] ∧ s.callbacks i = [] ∧
      ∀ u, (s.pc u).session = some i → u = t := by
  obtain ⟨hborn, hout, hcb, hone⟩ := (h i).of_carries ht
  exact ⟨of_decide_eq_true hborn, List.length_eq_zero_iff.mp hout, List.length_eq_zero_iff.mp hcb,
    fun u hu => (hone u).mp hu⟩

end Batons

/-- The submission of session `n` makes one more submitted session. -/
theorem decide_lt_succ (n : ℕ) :
    (fun i => decide (i < n + 1)) = update (fun i => decide (i < n)) n true := by
  funext i
  by_cases hi : i = n
  · rw [hi, Function.update_self]
    simp
  · rw [Function.update_of_ne hi]
    exact decide_eq_decide.mpr (by omega)

theorem batons_next (h : Batons s) (he : Enabled s e) : Batons (next s e) := by
  cases e with
  | submit t k =>
    intro j
    have hborn := congrFun (decide_lt_succ s.submitted) j
    change Baton _ (update s.pc t _) (decide (j < s.submitted + 1)) _ _
    rw [hborn]
    exact Baton.createOne h he (by simp) rfl (by simp) j
  | connect t i k => exact h.initiate he rfl rfl (by simp) rfl rfl rfl
  | initiate t i op => exact h.initiate he rfl rfl rfl rfl rfl rfl
  | cancelRequest t id k | cancelUnlock t k =>
    exact h.keep he rfl (by simp) rfl (fun _ => rfl) rfl
  | find t id k =>
    simp only [next]
    split <;> exact h.keep he rfl rfl rfl (fun _ => rfl) rfl
  | abort t i reached k =>
    exact h.keep he rfl rfl rfl (apply_update_eq List.length (Pending.length_cancel _ _)) rfl
  | complete i op c =>
    intro j
    have hlen := apply_update_eq List.length (Pending.length_complete (s.outstanding i) op c) j
    change Baton _ s.pc _ (update s.outstanding i _ j).length _
    rw [hlen]
    exact h j
  | call t i op c =>
    obtain ⟨ht, hmem⟩ := he
    intro j
    change Baton _ (update s.pc t _) _ (update s.outstanding i _ j).length _
    rw [Function.apply_update (fun _ => List.length)]
    exact Baton.takeOne h ht rfl rfl (Pending.length_dequeue hmem) j
  | handle t i op c =>
    simp only [next]
    split <;> exact h.keep he rfl rfl rfl (fun _ => rfl) rfl
  | test t i op =>
    simp only [next]
    split <;> exact h.keep he rfl rfl rfl (fun _ => rfl) rfl
  | readEc t i guarded =>
    refine h.keep he rfl ?_ rfl (fun _ => rfl) rfl
    split <;> rfl
  | callback t i guarded ec =>
    intro j
    change Baton _ (update s.pc t _) _ _ (update s.callbacks i _ j).length
    rw [Function.apply_update (fun _ => List.length), List.length_append]
    exact Baton.spendOne h he rfl rfl j
  | callbackReturns t i guarded =>
    refine h.keep he rfl ?_ rfl (fun _ => rfl) rfl
    cases guarded <;> rfl
  | submitLock t i k | completeLock t i guarded | guardLock t i op | guard t i k
  | cancelLock t id k =>
    exact h.keep he.1 rfl rfl rfl (fun _ => rfl) rfl
  | _ => exact h.keep he rfl rfl rfl (fun _ => rfl) rfl

/-- **A submitted session is in one place at a time**, in every state. -/
theorem batons (h : machine.Runs (.start calls) s) : Batons s := by
  refine h.invariant (fun i => ?_) fun _ _ _ hs he => batons_next hs he
  exact .unborn fun u => by simp [State.start, Pc.session]

/-! ## Stages -/

/-- How far a session has come agrees with where it is. -/
structure Staged (s : State τ) : Prop where
  thread : ∀ t i, (s.pc t).session = some i → s.stage i = (s.pc t).stage
  outstanding : ∀ i, s.outstanding i ≠ [] → s.stage i = .registered
  callbacks : ∀ i, s.callbacks i ≠ [] → s.stage i = .erased
  unsubmitted : ∀ i, s.submitted ≤ i → s.stage i = .unregistered

namespace Staged

variable {s' : State τ} {t : τ} {p x : Pc} {i : ℕ}

/-- A step of one thread that brings no session further. -/
theorem keep (h : Staged s) (ht : s.pc t = p) (hpc : s'.pc = update s.pc t x)
    (hx : ∀ i, x.session = some i → p.session = some i ∧ x.stage = p.stage)
    (hsub : s'.submitted = s.submitted)
    (hout : ∀ i, s'.outstanding i ≠ [] → s.outstanding i ≠ [])
    (hcb : s'.callbacks = s.callbacks) (hstage : s'.stage = s.stage) : Staged s' := by
  refine ⟨?_, fun i hi => ?_, fun i hi => ?_, fun i hi => ?_⟩
  · rw [hpc, hstage]
    refine (Function.forall_update_iff s.pc fun _ q => ∀ i, q.session = some i →
      s.stage i = q.stage).mpr ⟨fun i hi => ?_, fun u _ => h.thread u⟩
    obtain ⟨hp, hsame⟩ := hx i hi
    rw [hsame, ← ht]
    exact h.thread t i (ht ▸ hp)
  · rw [hstage]
    exact h.outstanding i (hout i hi)
  · rw [hstage]
    exact h.callbacks i (hcb ▸ hi)
  · rw [hstage]
    exact h.unsubmitted i (hsub ▸ hi)

/-- A step of one thread that brings its session to the stage of its new point. -/
theorem move (h : Staged s) (hb : Batons s) (ht : s.pc t = p) (hp : p.session = some i)
    (hpc : s'.pc = update s.pc t x) (hx : x.session = some i) (hsub : s'.submitted = s.submitted)
    (hout : s'.outstanding = s.outstanding) (hcb : s'.callbacks = s.callbacks)
    (hstage : s'.stage = update s.stage i x.stage) : Staged s' := by
  obtain ⟨hlt, hnone, hnocb, hone⟩ := hb.of_session (ht.symm ▸ hp)
  have other : ∀ {j : ℕ} {st : Stage}, j ≠ i → s.stage j = st → s'.stage j = st := by
    intro j st hji hj
    rw [hstage, Function.update_of_ne hji, hj]
  refine ⟨?_, fun j hj => other ?_ (h.outstanding j (hout ▸ hj)), fun j hj => other ?_
    (h.callbacks j (hcb ▸ hj)), fun j hj => other ?_ (h.unsubmitted j (hsub ▸ hj))⟩
  · rw [hpc]
    refine (Function.forall_update_iff s.pc fun _ q => ∀ j, q.session = some j →
      s'.stage j = q.stage).mpr ⟨fun j hj => ?_, fun u hut j hu => other ?_ (h.thread u j hu)⟩
    · obtain rfl : i = j := Option.some.inj (hx.symm.trans hj)
      rw [hstage, Function.update_self]
    · rintro rfl
      exact hut (hone u hu)
  · rintro rfl
    exact hj (by rw [hout, hnone])
  · rintro rfl
    exact hj (by rw [hcb, hnocb])
  · rintro rfl
    omega

/-- A step of one thread that initiates an operation of its session, which is registered. -/
theorem initiate (h : Staged s) (ht : s.pc t = p) (hp : p.session = some i)
    (hreg : p.stage = .registered) (hpc : s'.pc = update s.pc t x) (hx : x.session = none)
    (hsub : s'.submitted = s.submitted) {ops : List (Pending SessionOp)}
    (hout : s'.outstanding = update s.outstanding i ops)
    (hcb : s'.callbacks = s.callbacks) (hstage : s'.stage = s.stage) : Staged s' := by
  have hi : s.stage i = .registered := by
    rw [h.thread t i (ht.symm ▸ hp), ht, hreg]
  have hmid : Staged { s with pc := s'.pc } :=
    h.keep ht hpc (by simp [hx]) rfl (fun _ hj => hj) rfl rfl
  refine ⟨fun u j hu => hstage ▸ hmid.thread u j hu, fun j hj => ?_, fun j hj => ?_, fun j hj => ?_⟩
  · rw [hstage]
    by_cases hji : j = i
    · subst hji
      exact hi
    · rw [hout, Function.update_of_ne hji] at hj
      exact h.outstanding j hj
  · rw [hstage]
    exact h.callbacks j (hcb ▸ hj)
  · rw [hstage]
    exact h.unsubmitted j (hsub ▸ hj)

end Staged

theorem staged_next (hb : Batons s) (h : Staged s) (he : Enabled s e) : Staged (next s e) := by
  have same : ∀ {p x : Pc}, x.session = p.session → x.stage = p.stage →
      ∀ i, x.session = some i → p.session = some i ∧ x.stage = p.stage :=
    fun hs hst i hi => ⟨hs ▸ hi, hst⟩
  cases e with
  | submit t k =>
    refine ⟨?_, h.outstanding, h.callbacks, fun i hi => h.unsubmitted i (Nat.le_of_succ_le hi)⟩
    refine (Function.forall_update_iff s.pc fun _ q => ∀ i, q.session = some i →
      s.stage i = q.stage).mpr ⟨fun i hi => ?_, fun u _ => h.thread u⟩
    obtain rfl := Option.some.inj hi
    exact h.unsubmitted _ le_rfl
  | store t i k => exact h.move hb he rfl rfl rfl rfl rfl rfl rfl
  | connect t i k => exact h.initiate he rfl rfl rfl (by simp) rfl rfl rfl rfl
  | initiate t i op => exact h.initiate he rfl rfl rfl rfl rfl rfl rfl rfl
  | find t id k =>
    simp only [next]
    split <;> exact h.keep he rfl (by simp [Pc.session]) rfl (fun _ hj => hj) rfl rfl
  | abort t i reached k =>
    refine h.keep he rfl (by simp) rfl (fun j hj hnil => hj ?_) rfl rfl
    have hlen := apply_update_eq List.length (Pending.length_cancel reached (s.outstanding i)) j
    exact List.length_eq_zero_iff.mp (hlen.trans (by rw [hnil, List.length_nil]))
  | complete i op c =>
    refine ⟨h.thread, fun j hj => h.outstanding j fun hnil => hj ?_, h.callbacks, h.unsubmitted⟩
    have hlen := apply_update_eq List.length (Pending.length_complete (s.outstanding i) op c) j
    exact List.length_eq_zero_iff.mp (hlen.trans (by rw [hnil, List.length_nil]))
  | call t i op c =>
    obtain ⟨ht, hmem⟩ := he
    have hreg := h.outstanding i (List.ne_nil_of_mem hmem)
    refine ⟨?_, fun j hj => h.outstanding j ?_, h.callbacks, h.unsubmitted⟩
    · refine (Function.forall_update_iff s.pc fun _ q => ∀ j, q.session = some j →
        s.stage j = q.stage).mpr ⟨fun j hj => ?_, fun u _ => h.thread u⟩
      obtain rfl := Option.some.inj hj
      exact hreg
    · by_cases hji : j = i
      · subst hji
        exact List.ne_nil_of_mem hmem
      · simpa [next, State.goto, Function.update_of_ne hji] using hj
  | handle t i op c =>
    simp only [next]
    split
    · exact h.move hb he rfl rfl rfl rfl rfl rfl rfl
    · exact h.keep he rfl (same rfl rfl) rfl (fun _ hj => hj) rfl rfl
  | test t i op =>
    simp only [next]
    split
    · exact h.move hb he rfl rfl rfl rfl rfl rfl rfl
    · exact h.keep he rfl (same rfl rfl) rfl (fun _ hj => hj) rfl rfl
  | erase t i guarded => exact h.move hb he rfl rfl rfl rfl rfl rfl rfl
  | readEc t i guarded =>
    refine h.keep he rfl (same ?_ ?_) rfl (fun _ hj => hj) rfl rfl <;> split <;> rfl
  | callback t i guarded ec =>
    have ht : s.pc t = .completing i guarded (.callingBack ec) := he
    have hi : s.stage i = .erased := by
      rw [h.thread t i (by rw [ht]; rfl), ht]
      rfl
    have hmid : Staged (s.goto t (.completing i guarded .inCallback)) :=
      h.keep ht rfl (by simp [Pc.session]) rfl (fun _ hj => hj) rfl rfl
    refine ⟨hmid.thread, h.outstanding, fun j hj => ?_, h.unsubmitted⟩
    by_cases hji : j = i
    · subst hji
      exact hi
    · exact h.callbacks j (by simpa [next, State.goto, Function.update_of_ne hji] using hj)
  | callbackReturns t i guarded =>
    refine h.keep he rfl ?_ rfl (fun _ hj => hj) rfl rfl
    cases guarded <;> simp [Pc.session]
  | cancelUnlock t k => exact h.keep he rfl (by simp) rfl (fun _ hj => hj) rfl rfl
  | cancelRequest t id k | mark t i k | unguard t i k | release t i =>
    exact h.keep he rfl (by simp [Pc.session]) rfl (fun _ hj => hj) rfl rfl
  | cancelLock t id k | guard t i k =>
    exact h.keep he.1 rfl (by simp [Pc.session]) rfl (fun _ hj => hj) rfl rfl
  | submitLock t i k | guardLock t i op | completeLock t i guarded =>
    exact h.keep he.1 rfl (same rfl rfl) rfl (fun _ hj => hj) rfl rfl
  | submitUnlock t i k | guardUnlock t i op | completeUnlock t i guarded | readFlag t i guarded =>
    exact h.keep he rfl (same rfl rfl) rfl (fun _ hj => hj) rfl rfl

/-- **How far a session has come can be read off where it is**, in every state. -/
theorem staged (h : machine.Runs (.start calls) s) : Staged s := by
  refine h.invariant ⟨fun t i ht => ?_, fun i hi => absurd rfl hi, fun i hi => absurd rfl hi,
    fun _ _ => rfl⟩ fun _ _ hr hs he => staged_next (batons hr) hs he
  simp [State.start, Pc.session] at ht

end AsyncTCPClient

end AsioSamples
