import AsioSamples.Http.Ownership
import AsioSamples.Http.Programs
import AsioSamples.Http.Threads

/-!
# Http/Draining — what is left to do for an `HTTPRequest`, and for an `HttpService`

A request has at most six operations before its callback, and between two of them a handler of a few
statements: every step but a new `cancel()` takes something off what is left (`remaining_next`).
Whoever is in the request can go on, or waits for `m_cancel_mux`, whose holder can go on — or is in
`on_headers_received`, whose loop need not end (`enabled_or_hung`).

A service has at most three operations, and every step takes something off what is left.
-/

namespace AsioSamples

namespace HTTPRequest

open Function (update)

/-! ## Ranks -/

/-- The steps from an operation to the end of its request, at most. -/
def opRank (op : AsyncOp) : ℕ := 10 * stages op + 3

def CancelPc.rank : CancelPc → ℕ
  | locking => 4
  | setting => 3
  | aborting => 2
  | unlocking => 1

/-- The steps from a point to the end of the request, at most. -/
def Pc.rank : Pc → ℕ
  | executing => 70
  | handling op _ => 10 * stages op + 2
  | locking op => 10 * stages op + 9
  | testing op => 10 * stages op + 8
  | initiating op => 10 * stages op + 7
  | unlocking => 3
  | finishing _ => 2
  | leaving | inCallback => 1
  | cancelling p fromCallback => p.rank + fromCallback.toNat
  | idle | escaped _ => 0

theorem Pc.rank_caller : ∀ fromCallback, (Pc.caller fromCallback).rank = fromCallback.toNat
  | true => rfl
  | false => rfl

theorem stages_pos (op : AsyncOp) : 0 < stages op := by cases op <;> simp [stages]

section Draining

variable {τ : Type*} [DecidableEq τ] {w : ULong} {c c' : State τ} {e : Event τ}

/-- The steps that are left, at most. -/
noncomputable def remaining (c : State τ) : ℕ :=
  ∑ᶠ t, (c.pc t).rank + Pending.loads opRank c.outstanding

/-- A step of one thread. -/
theorem remaining_lt (hfin : (fun t => (c.pc t).rank).support.Finite) {t : τ} {p x : Pc}
    (ht : c.pc t = p) (hpc : c'.pc = update c.pc t x)
    (hlt : x.rank + Pending.loads opRank c'.outstanding
      < p.rank + Pending.loads opRank c.outstanding) : remaining c' < remaining c := by
  subst ht
  have hthreads := finsum_rank_update _ hfin t x
  rw [remaining, remaining, hpc]
  omega

/-- A step of one thread that leaves the operations alone. -/
theorem remaining_lt_of_pc (hfin : (fun t => (c.pc t).rank).support.Finite) {t : τ} {p x : Pc}
    (ht : c.pc t = p) (hpc : c'.pc = update c.pc t x) (hout : c'.outstanding = c.outstanding)
    (hlt : x.rank < p.rank) : remaining c' < remaining c :=
  remaining_lt hfin ht hpc (by rw [hout]; omega)

/-- **Every step but a new `cancel()` takes something off what is left.** -/
theorem remaining_next (hfin : (fun t => (c.pc t).rank).support.Finite) (he : Enabled w c e)
    (hcancel : ∀ t fromCallback, e ≠ .cancel t fromCallback) :
    remaining (next w c e) < remaining c := by
  cases e with
  | execute t =>
    obtain ⟨hpc, hexec⟩ := he
    simp only [next, (execute_eq_of_isSome hexec).1]
    exact remaining_lt_of_pc hfin hpc rfl rfl (by simp [Pc.rank, Pc.after, stages])
  | complete op r =>
    have hload := Pending.loads_complete opRank (c := r) he
    simp only [remaining, next]
    omega
  | call t op r =>
    have hload := Pending.loads_dequeue opRank he.2
    refine remaining_lt hfin he.1 rfl ?_
    simp only [next, State.goto, Pc.rank, opRank] at hload ⊢
    omega
  | handle t op r shutdown =>
    obtain ⟨hpc, hsome⟩ := he
    obtain ⟨⟨r', ctl⟩, hhandle⟩ := Option.isSome_iff_exists.mp hsome
    have hpos := stages_pos op
    simp only [next, hhandle]
    refine remaining_lt_of_pc hfin hpc rfl rfl ?_
    cases ctl with
    | finish ec =>
      simp only [Pc.after, Pc.rank]
      omega
    | lock op' =>
      have hstages : stages op = stages op' + 1 := (handle_eq_some hhandle).2
      simp only [Pc.after, Pc.rank]
      omega
    | throws ec => simp [Pc.after, Pc.rank]
  | lock t op => exact remaining_lt_of_pc hfin he.1 rfl rfl (by simp [Pc.rank])
  | test t op =>
    refine remaining_lt_of_pc hfin he rfl rfl ?_
    split <;> simp only [Pc.rank] <;> omega
  | initiate t op =>
    refine remaining_lt hfin he rfl ?_
    simp only [next, State.goto, Pc.rank, Pending.loads_initiate, opRank]
    omega
  | cancel t fromCallback => exact absurd rfl (hcancel t fromCallback)
  | cancelLock t fromCallback =>
    exact remaining_lt_of_pc hfin he.1 rfl rfl (by simp [Pc.rank, CancelPc.rank])
  | abort t fromCallback reached =>
    have hle := Pending.loads_cancel_le opRank c.outstanding reached
    refine remaining_lt hfin he rfl ?_
    simp only [next, State.goto, Pc.rank, CancelPc.rank]
    omega
  | abortThrows t fromCallback reached ec =>
    have hle := Pending.loads_cancel_le opRank c.outstanding reached
    refine remaining_lt hfin he rfl ?_
    simp only [next, State.goto, Pc.rank, CancelPc.rank]
    omega
  | cancelUnlock t fromCallback =>
    refine remaining_lt_of_pc hfin he rfl rfl ?_
    rw [Pc.rank_caller]
    simp [Pc.rank, CancelPc.rank]
  | setFlag t fromCallback =>
    exact remaining_lt_of_pc hfin he rfl rfl (by simp [Pc.rank, CancelPc.rank])
  | _ => exact remaining_lt_of_pc hfin he rfl rfl (by simp [Pc.rank])

/-- At most one thread goes anywhere. -/
theorem pc_next (w : ULong) (c : State τ) (e : Event τ) :
    (next w c e).pc = c.pc ∨ ∃ t x, (next w c e).pc = update c.pc t x := by
  cases e with
  | complete op r => exact Or.inl rfl
  | execute t =>
    simp only [next]
    split
    · exact Or.inr ⟨t, _, rfl⟩
    · exact Or.inl rfl
  | handle t op r shutdown =>
    simp only [next]
    split
    · exact Or.inr ⟨t, _, rfl⟩
    · exact Or.inl rfl
  | _ => exact Or.inr ⟨_, _, rfl⟩

theorem finite_rank_start (r : HTTPRequest) (t₀ : τ) :
    (fun t => ((State.start r t₀).pc t).rank).support.Finite := by
  refine (Set.finite_singleton t₀).subset fun u hu => ?_
  by_contra hne
  exact hu (by simp [State.start, Function.update_of_ne hne, Pc.rank])

theorem finite_rank_next (hfin : (fun t => (c.pc t).rank).support.Finite) (e : Event τ) :
    (fun t => ((next w c e).pc t).rank).support.Finite := by
  rcases pc_next w c e with hsame | ⟨t, x, hupdate⟩
  · rw [hsame]
    exact hfin
  · rw [hupdate]
    exact finite_rank_update hfin t x

/-- **Only finitely many threads have anything to do**, in every state. -/
theorem finite_rank {r : HTTPRequest} {t₀ : τ} (h : (machine w).Runs (.start r t₀) c) :
    (fun t => (c.pc t).rank).support.Finite :=
  h.invariant (I := fun c => (fun t => (c.pc t).rank).support.Finite) (finite_rank_start r t₀)
    fun _ e _ hs _ => finite_rank_next hs e

/-! ## Going on -/

/-- The thread that takes a step. -/
def Event.thread : Event τ → Option τ
  | .complete _ _ => none
  | .execute t | .call t _ _ | .handle t _ _ _ | .lock t _ | .test t _ | .initiate t _ | .leave t
  | .unlock t | .callback t _ | .callbackReturns t | .cancel t _ | .cancelLock t _ | .setFlag t _
  | .abort t _ _ | .abortThrows t _ _ _ | .cancelUnlock t _ => some t

/-- The steps that begin a call of the request. -/
def Event.isCall : Event τ → Bool
  | .execute _ | .cancel _ _ => true
  | _ => false

/-- The thread that takes a handler from the queue, if that is what the step is. -/
def Event.taker : Event τ → Option τ
  | .call t _ _ => some t
  | _ => none

/-- The points that are not in the request's code; at `executing` the call has not begun. -/
def Pc.free : Pc → Bool
  | idle | executing | inCallback => true
  | _ => false

/-- `on_headers_received` is running, and will never leave its loop. -/
def State.Hung (c : State τ) : Prop :=
  ∃ t r, c.pc t = .handling .readHeaders r ∧ r.ec.value = 0 ∧ ¬ ∃ l, Leaves headerPass
    (c.request.withResponseBuf (c.request.response.responseBuf ++ r.received)).headerLoop l

/-- A thread can take its next step. -/
def CanGoOn (w : ULong) (c : State τ) (t : τ) : Prop :=
  ∃ e : Event τ, e.thread = some t ∧ e.isCall = false ∧ e.taker = none ∧ Enabled w c e ∧
    NoThrow c e

omit [DecidableEq τ] in
/-- **Who is in the request's code can go on**, unless it waits for `m_cancel_mux`, or hangs. -/
theorem canGoOn_or {t : τ} (hno : ∀ ec, c.pc t ≠ .escaped ec)
    (ht : (c.pc t).free = false ∨ c.pc t = .inCallback) :
    CanGoOn w c t ∨ (c.cancelMux ≠ none ∧ (c.pc t).holdsMux = false) ∨ c.Hung := by
  have go (e : Event τ) (he : e.thread = some t) (hcall : e.isCall = false ∧ e.taker = none)
      (henabled : Enabled w c e) (hthrow : NoThrow c e) : CanGoOn w c t :=
    ⟨e, he, hcall.1, hcall.2, henabled, hthrow⟩
  cases hpc : c.pc t with
  | idle | executing => simp [hpc, Pc.free] at ht
  | handling op r =>
    by_cases hsome : (c.request.handle w .success op r).isSome
    · exact Or.inl (go (.handle t op r .success) rfl ⟨rfl, rfl⟩ ⟨hpc, hsome⟩ rfl)
    · simp only [handle_isSome_iff, Classical.not_imp] at hsome
      obtain ⟨rfl, hec, hloop⟩ := hsome
      exact Or.inr (Or.inr ⟨t, r, hpc, hec, hloop⟩)
  | locking op =>
    by_cases hmux : c.cancelMux = none
    · exact Or.inl (go (.lock t op) rfl ⟨rfl, rfl⟩ ⟨hpc, hmux⟩ trivial)
    · exact Or.inr (Or.inl ⟨hmux, rfl⟩)
  | testing op => exact Or.inl (go (.test t op) rfl ⟨rfl, rfl⟩ hpc trivial)
  | initiating op => exact Or.inl (go (.initiate t op) rfl ⟨rfl, rfl⟩ hpc trivial)
  | leaving => exact Or.inl (go (.leave t) rfl ⟨rfl, rfl⟩ hpc trivial)
  | unlocking => exact Or.inl (go (.unlock t) rfl ⟨rfl, rfl⟩ hpc trivial)
  | finishing ec => exact Or.inl (go (.callback t ec) rfl ⟨rfl, rfl⟩ hpc trivial)
  | inCallback => exact Or.inl (go (.callbackReturns t) rfl ⟨rfl, rfl⟩ hpc trivial)
  | cancelling p fromCallback =>
    cases p with
    | locking =>
      by_cases hmux : c.cancelMux = none
      · exact Or.inl (go (.cancelLock t fromCallback) rfl ⟨rfl, rfl⟩ ⟨hpc, hmux⟩ trivial)
      · exact Or.inr (Or.inl ⟨hmux, rfl⟩)
    | setting => exact Or.inl (go (.setFlag t fromCallback) rfl ⟨rfl, rfl⟩ hpc trivial)
    | aborting => exact Or.inl (go (.abort t fromCallback true) rfl ⟨rfl, rfl⟩ hpc trivial)
    | unlocking => exact Or.inl (go (.cancelUnlock t fromCallback) rfl ⟨rfl, rfl⟩ hpc trivial)
  | escaped ec => exact absurd hpc (hno ec)

theorem Pc.not_free_of_holdsMux : ∀ {p : Pc}, p.holdsMux → p.free = false
  | testing _, _ | initiating _, _ | leaving, _ | unlocking, _ | cancelling _ _, _ => rfl

/-- Who has the request to carry on is in its code, or is about to call `execute`. -/
theorem Pc.of_carries : ∀ {p : Pc}, p.carries = true →
    p = executing ∨ p.free = false ∧ ∀ ec, p ≠ escaped ec
  | executing, _ => Or.inl rfl
  | handling _ _, _ | locking _, _ | testing _, _ | initiating _, _ | unlocking, _
  | finishing _, _ => Or.inr ⟨rfl, by simp⟩

omit [DecidableEq τ] in
/-- **While somebody is in the request's code, somebody can go on there**, or a handler hangs. -/
theorem exists_canGoOn (hg : Guarded c) {t : τ} (hno : ∀ ec, c.pc t ≠ .escaped ec)
    (ht : (c.pc t).free = false) : (∃ u, (c.pc u).free = false ∧ CanGoOn w c u) ∨ c.Hung := by
  rcases canGoOn_or (w := w) hno (Or.inl ht) with hgo | ⟨hmux, -⟩ | hhung
  · exact Or.inl ⟨t, ht, hgo⟩
  · obtain ⟨u, hu⟩ := Option.ne_none_iff_exists'.mp hmux
    have hholds := (hg u).mp hu
    have hfree := Pc.not_free_of_holdsMux hholds
    have hno' : ∀ ec, c.pc u ≠ .escaped ec := by
      intro ec hec
      rw [hec] at hholds
      cases hholds
    rcases canGoOn_or (w := w) hno' (Or.inl hfree) with hgo | ⟨-, hnot⟩ | hhung
    · exact Or.inl ⟨u, hfree, hgo⟩
    · exact absurd (hholds.symm.trans hnot) (by decide)
    · exact Or.inr hhung
  · exact Or.inr hhung

/-- No exception has left a handler. -/
def Contained (c : State τ) : Prop := ∀ t ec, c.pc t ≠ .escaped ec

/-- A step of one thread to a point that no exception has led to. -/
theorem Contained.keep (h : Contained c) {t : τ} {x : Pc} (hpc : c'.pc = update c.pc t x)
    (hx : ∀ ec, x ≠ .escaped ec) : Contained c' := by
  rw [Contained, hpc]
  exact (Function.forall_update_iff c.pc fun _ q => ∀ ec, q ≠ .escaped ec).mpr
    ⟨hx, fun u _ => h u⟩

theorem contained_next (h : Contained c) (he : Enabled w c e) (hthrow : NoThrow c e) :
    Contained (next w c e) := by
  cases e with
  | execute t =>
    simp only [next, (execute_eq_of_isSome he.2).1]
    exact h.keep rfl (by simp [Pc.after])
  | complete op r => exact h
  | handle t op r shutdown =>
    obtain ⟨⟨r', ctl⟩, hhandle⟩ := Option.isSome_iff_exists.mp he.2
    simp only [next, hhandle]
    refine h.keep rfl fun ec => ?_
    cases ctl with
    | finish ec' => simp [Pc.after]
    | lock op' => simp [Pc.after]
    | throws ec' => exact absurd hthrow (handle_throws_iff.mp ⟨r', ec', hhandle⟩).2.2
  | test t op =>
    refine h.keep rfl fun ec => ?_
    split <;> simp
  | abortThrows t fromCallback reached ec => exact hthrow.elim
  | cancelUnlock t fromCallback =>
    refine h.keep rfl fun ec => ?_
    cases fromCallback <;> simp [Pc.caller]
  | _ => exact h.keep rfl (by simp)

/-- **No exception leaves a handler** where no call of asio throws. -/
theorem contained {r : HTTPRequest} {t₀ : τ}
    (h : ((machine w).restrict NoThrow).Runs (.start r t₀) c) : Contained c := by
  refine h.invariant ?_ fun _ _ _ hs he => contained_next hs he.1 he.2
  exact (Function.forall_update_iff (fun _ => Pc.idle) fun _ q => ∀ ec, q ≠ .escaped ec).mpr
    ⟨fun ec hnot => (nomatch hnot), fun u _ ec hnot => (nomatch hnot)⟩

end Draining

end HTTPRequest

namespace HttpService

/-- The steps from an operation to the end of its service, at most. -/
def opRank (op : ServiceOp) : ℕ := 2 * reads op + 1

/-- The steps that are left, at most. -/
def remaining (s : State) : ℕ := Pending.loads opRank s.outstanding

/-- **Every step takes something off what is left.** -/
theorem remaining_next {s : State} {e : Event} (he : Enabled s e) :
    remaining (next s e) < remaining s := by
  cases e with
  | complete op c =>
    have hload := Pending.loads_complete opRank (c := c) he
    simp only [remaining, next]
    omega
  | handle op c os =>
    have hload := Pending.loads_dequeue opRank he
    simp only [remaining, next]
    cases hhandle : s.service.handle os op c.ec c.received with
    | error e =>
      simp only [State.after, opRank] at hload ⊢
      omega
    | ok o =>
      obtain ⟨svc, ctl⟩ := o
      cases ctl with
      | deleted =>
        simp only [State.after, opRank] at hload ⊢
        omega
      | await op' =>
        have hreads := reads_lt_of_handle hhandle
        simp only [State.after, Pending.loads_initiate, opRank] at hload ⊢
        omega

end HttpService

end AsioSamples
