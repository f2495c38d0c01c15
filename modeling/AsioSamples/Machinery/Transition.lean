import Mathlib

/-!
# Machinery/Transition — guarded transition systems and their runs

A `Machine` says which events a state allows and where each of them leads.  What holds in every
state a run reaches is shown once for a step and carried along the run (`Runs.invariant`).  A
condition on steps is a machine with fewer events (`restrict`), so the runs whose every step meets
it are runs like any others.
-/

namespace AsioSamples

/-- A guarded transition system. -/
structure Machine (σ ε : Type*) where
  Enabled : σ → ε → Prop
  next : σ → ε → σ

namespace Machine

variable {σ ε : Type*} {m : Machine σ ε}

/-- The states the runs from `s` reach. -/
inductive Runs (m : Machine σ ε) (s : σ) : σ → Prop
  | start : Runs m s s
  | step {s' : σ} {e : ε} (h : Runs m s s') (he : m.Enabled s' e) : Runs m s (m.next s' e)

/-- **The invariant rule.**  A step may use that its state was reached, and with that every
invariant shown before. -/
theorem Runs.invariant {I : σ → Prop} {s s' : σ} (h : m.Runs s s') (h₀ : I s)
    (hstep : ∀ s' e, m.Runs s s' → I s' → m.Enabled s' e → I (m.next s' e)) : I s' := by
  induction h with
  | start => exact h₀
  | step h he ih => exact hstep _ _ h ih he

theorem Runs.single {s : σ} {e : ε} (he : m.Enabled s e) : m.Runs s (m.next s e) := .step .start he

theorem Runs.trans {s s' s'' : σ} (h : m.Runs s s') (h' : m.Runs s' s'') : m.Runs s s'' := by
  induction h' with
  | start => exact h
  | step _ he ih => exact ih.step he

/-- **The simulation rule**: every step is matched by steps of the other machine, or by none. -/
theorem Runs.simulates {σ' ε' : Type*} {m' : Machine σ' ε'} {R : σ → σ' → Prop} {s s' : σ} {t : σ'}
    (h : m.Runs s s') (h₀ : R s t)
    (hstep : ∀ s' e t', m.Runs s s' → R s' t' → m.Enabled s' e →
      ∃ t'', m'.Runs t' t'' ∧ R (m.next s' e) t'') : ∃ t', m'.Runs t t' ∧ R s' t' := by
  induction h with
  | start => exact ⟨t, .start, h₀⟩
  | step h he ih =>
    obtain ⟨t', ht', hR⟩ := ih
    obtain ⟨t'', ht'', hR'⟩ := hstep _ _ t' h hR he
    exact ⟨t'', ht'.trans ht'', hR'⟩

/-- **The projection rule**: where every step is seen by the other machine as some of its own, or as
none, a run is seen as one of its runs. -/
theorem Runs.project {σ' ε' : Type*} {m' : Machine σ' ε'} {f : σ → σ'} {s s' : σ}
    (h : m.Runs s s') (hstep : ∀ s' e, m.Enabled s' e → m'.Runs (f s') (f (m.next s' e))) :
    m'.Runs (f s) (f s') := by
  induction h with
  | start => exact .start
  | step h he ih => exact ih.trans (hstep _ _ he)

/-! ## Runs whose every step meets a condition -/

/-- The machine with the steps that meet `P`. -/
def restrict (m : Machine σ ε) (P : σ → ε → Prop) : Machine σ ε where
  Enabled s e := m.Enabled s e ∧ P s e
  next := m.next

instance {P : σ → ε → Prop} [∀ s e, Decidable (m.Enabled s e)] [∀ s e, Decidable (P s e)] (s : σ)
    (e : ε) : Decidable ((m.restrict P).Enabled s e) :=
  inferInstanceAs (Decidable (_ ∧ _))

theorem Runs.of_restrict {P : σ → ε → Prop} {s s' : σ} (h : (m.restrict P).Runs s s') :
    m.Runs s s' := by
  induction h with
  | start => exact .start
  | step _ he ih => exact ih.step he.1

/-- A run whose steps meet a condition meets every weaker one. -/
theorem Runs.restrict_mono {P Q : σ → ε → Prop} {s s' : σ} (h : (m.restrict P).Runs s s')
    (hPQ : ∀ s e, P s e → Q s e) : (m.restrict Q).Runs s s' := by
  induction h with
  | start => exact .start
  | @step s' e _ he ih =>
    have he' : (m.restrict Q).Enabled s' e := ⟨he.1, hPQ s' e he.2⟩
    exact ih.step he'

/-! ## Runs that end -/

/-- No event is enabled. -/
def Stuck (m : Machine σ ε) (s : σ) : Prop := ∀ e, ¬ m.Enabled s e

/-- No run from `s` goes on for ever. -/
def Terminates (m : Machine σ ε) (s : σ) : Prop :=
  Acc (fun s₂ s₁ => ∃ e, m.Enabled s₁ e ∧ s₂ = m.next s₁ e) s

/-- **The variant rule**: every step a run can come to takes `μ` down. -/
theorem terminates_of_variant (μ : σ → ℕ) {s : σ}
    (h : ∀ s' e, m.Runs s s' → m.Enabled s' e → μ (m.next s' e) < μ s') : m.Terminates s := by
  have hall : ∀ n s', m.Runs s s' → μ s' ≤ n → m.Terminates s' := by
    intro n
    induction n with
    | zero =>
      intro s' hs' hle
      refine Acc.intro s' fun s'' ⟨e, he, _⟩ => ?_
      have hlt := h s' e hs' he
      omega
    | succ n ih =>
      intro s' hs' hle
      refine Acc.intro s' ?_
      rintro s'' ⟨e, he, rfl⟩
      have hlt := h s' e hs' he
      exact ih _ (hs'.step he) (by omega)
  exact hall (μ s) s .start le_rfl

/-- **The variant rule** again, for a variant in any well-founded order. -/
theorem terminates_of_wellFounded {α : Type*} {r : α → α → Prop} (hr : WellFounded r) (μ : σ → α)
    {s : σ} (h : ∀ s' e, m.Runs s s' → m.Enabled s' e → r (μ (m.next s' e)) (μ s')) :
    m.Terminates s := by
  have hall : ∀ a s', m.Runs s s' → μ s' = a → m.Terminates s' := by
    intro a
    induction a using hr.induction with
    | _ a ih =>
      rintro s' hs' rfl
      refine Acc.intro s' ?_
      rintro s'' ⟨e, he, rfl⟩
      exact ih _ (h s' e hs' he) _ (hs'.step he) rfl
  exact hall _ s .start rfl

/-- A run that has to end can be taken to its end. -/
theorem Terminates.exists_stuck {s : σ} (h : m.Terminates s) : ∃ s', m.Runs s s' ∧ m.Stuck s' := by
  induction h with
  | intro s _ ih =>
    by_cases hstuck : m.Stuck s
    · exact ⟨s, .start, hstuck⟩
    · simp only [Stuck, not_forall, not_not] at hstuck
      obtain ⟨e, he⟩ := hstuck
      obtain ⟨s', hs', hend⟩ := ih _ ⟨e, he, rfl⟩
      exact ⟨s', (Runs.single he).trans hs', hend⟩

/-! ## Machines side by side -/

section Family

variable {ι : Type*} [DecidableEq ι] {G : (ι → σ) → ι → ε → Prop}

/-- Machines side by side, of which one takes each step; `G` says whether the others let it. -/
def family (m : Machine σ ε) (G : (ι → σ) → ι → ε → Prop) : Machine (ι → σ) (ι × ε) where
  Enabled s e := m.Enabled (s e.1) e.2 ∧ G s e.1 e.2
  next s e := Function.update s e.1 (m.next (s e.1) e.2)

instance [∀ s e, Decidable (m.Enabled s e)] [∀ s i e, Decidable (G s i e)] (s : ι → σ)
    (e : ι × ε) : Decidable ((m.family G).Enabled s e) :=
  inferInstanceAs (Decidable (_ ∧ _))

/-- **A run of the family is one of each member.** -/
theorem Runs.member {s s' : ι → σ} (h : (m.family G).Runs s s') (i : ι) : m.Runs (s i) (s' i) := by
  induction h with
  | start => exact .start
  | @step s' e _ he ih =>
    by_cases hi : i = e.1
    · subst hi
      have hstep := ih.step he.1
      simpa [family] using hstep
    · simpa [family, Function.update_of_ne hi] using ih

end Family

/-! ## Runs that are computed -/

/-- The state after `events`, if each of them is enabled when its turn comes. -/
def exec (m : Machine σ ε) [∀ s e, Decidable (m.Enabled s e)] : σ → List ε → Option σ
  | s, [] => some s
  | s, e :: events => if m.Enabled s e then exec m (m.next s e) events else none

theorem runs_of_exec [∀ s e, Decidable (m.Enabled s e)] {events : List ε} {s s' : σ}
    (h : m.exec s events = some s') : m.Runs s s' := by
  induction events generalizing s with
  | nil =>
    obtain rfl := Option.some.inj h
    exact .start
  | cons e events ih =>
    unfold exec at h
    split at h
    next he => exact (Runs.step .start he).trans (ih h)
    next => cases h

/-- A computed run whose events meet the condition in every state is a run of the restriction. -/
theorem runs_restrict_of_exec [∀ s e, Decidable (m.Enabled s e)] {P : σ → ε → Prop}
    {events : List ε} {s s' : σ} (hP : ∀ e ∈ events, ∀ s, P s e)
    (h : m.exec s events = some s') : (m.restrict P).Runs s s' := by
  induction events generalizing s with
  | nil =>
    obtain rfl := Option.some.inj h
    exact .start
  | cons e events ih =>
    rw [List.forall_mem_cons] at hP
    unfold exec at h
    split at h
    next he =>
      have he' : (m.restrict P).Enabled s e := ⟨he, hP.1 s⟩
      exact (Runs.single he').trans (ih hP.2 h)
    next => cases h

/-- **A computed run is a run**, to a state with any property that can be decided of it. -/
theorem exists_runs_of_exec [∀ s e, Decidable (m.Enabled s e)] {Q : σ → Prop} [DecidablePred Q]
    {s : σ} (events : List ε) (h : (m.exec s events).any (fun s' => decide (Q s')) = true) :
    ∃ s', m.Runs s s' ∧ Q s' := by
  obtain ⟨s', hs', hQ⟩ := (Option.any_eq_true _ _).mp h
  exact ⟨s', runs_of_exec hs', of_decide_eq_true hQ⟩

end Machine

/-! ## Families -/

section Families

variable {ι α β : Type*} [DecidableEq ι] {f : ι → α} {i : ι} {a b : α}

/-- A member is as it was, or it is the one updated. -/
theorem update_eq_or (f : ι → α) (i : ι) (a : α) (j : ι) :
    Function.update f i a j = f j ∨ Function.update f i a j = a := by
  rw [Function.update_apply]
  exact (ite_eq_or_eq _ _ _).symm

/-- A value that the update does not give was there before. -/
theorem eq_of_update_eq {j : ι} (h : Function.update f i a j = b) (hab : a ≠ b) : f j = b :=
  (update_eq_or f i a j).elim (fun hf => hf.symm.trans h) fun ha => absurd (ha.symm.trans h) hab

/-- What the update keeps of its member is kept of every member. -/
theorem apply_update_eq (g : α → β) (h : g a = g (f i)) (j : ι) :
    g (Function.update f i a j) = g (f j) := by
  rw [Function.apply_update (fun _ => g), h, Function.update_eq_self]

/-- What one member of a family adds to a sum over it. -/
theorem finsum_update_add {f : ι → ℕ} (hf : f.support.Finite) (i : ι) (k : ℕ) :
    ∑ᶠ j, Function.update f i k j + f i = ∑ᶠ j, f j + k := by
  set S := insert i hf.toFinset with hS
  have hfS : f.support ⊆ S := fun j hj => by simp [hS, Function.mem_support.mp hj]
  have huS : (Function.update f i k).support ⊆ S := by
    intro j hj
    by_cases hji : j = i
    · simp [hS, hji]
    · rw [Function.mem_support, Function.update_of_ne hji] at hj
      exact hfS hj
  have hi : i ∈ S := Finset.mem_insert_self _ _
  rw [finsum_eq_sum_of_support_subset f hfS, finsum_eq_sum_of_support_subset _ huS,
    Finset.sum_update_of_mem hi, Finset.sum_eq_add_sum_sdiff_singleton_of_mem hi f]
  omega

/-- What a step of one member changes of the ranks of all of them. -/
theorem finsum_rank_update (rank : α → ℕ) (hf : (fun j => rank (f j)).support.Finite) (i : ι)
    (a : α) : ∑ᶠ j, rank (Function.update f i a j) + rank (f i) = ∑ᶠ j, rank (f j) + rank a := by
  have hadd := finsum_update_add hf i (rank a)
  have hcomp : Function.update (fun j => rank (f j)) i (rank a)
      = fun j => rank (Function.update f i a j) := (Function.comp_update rank f i a).symm
  rwa [hcomp] at hadd

/-- Only finitely many members are of any rank, still. -/
theorem finite_rank_update {rank : α → ℕ} (hf : (fun j => rank (f j)).support.Finite) (i : ι)
    (a : α) : (fun j => rank (Function.update f i a j)).support.Finite := by
  refine (hf.insert i).subset fun j hj => ?_
  by_cases hji : j = i
  · exact Set.mem_insert_iff.mpr (Or.inl hji)
  · refine Set.mem_insert_iff.mpr (Or.inr ?_)
    simpa only [Function.mem_support, Function.update_of_ne hji] using hj

end Families

end AsioSamples
