import AsioSamples.Machinery.Transition

/-!
# Machinery/Fairness — parties that get their turn

A party that polls never stops of itself: what it waits for comes about only if the others are let
go on.  So nothing can be said of all runs, but of the `Course`s in which a party that could take a
step all the time takes one (`Fair`).  The rule is that of a variant, with a party in turn in every
state: its steps take the variant down, and the others' steps take it down or leave it and the turn
alone (`Progress.exists_goal_of_fair`).
-/

namespace AsioSamples

namespace Machine

variable {σ ε π : Type*} {m : Machine σ ε}

/-! ## Courses -/

/-- A run for all time; at some times nothing happens. -/
structure Course (m : Machine σ ε) where
  state : ℕ → σ
  event : ℕ → Option ε
  next : ∀ n, event n = none ∧ state (n + 1) = state n ∨
    ∃ e, event n = some e ∧ m.Enabled (state n) e ∧ state (n + 1) = m.next (state n) e

namespace Course

variable (c : m.Course)

theorem runs (n : ℕ) : m.Runs (c.state 0) (c.state n) := by
  induction n with
  | zero => exact .start
  | succ n ih =>
    rcases c.next n with ⟨-, hsame⟩ | ⟨e, -, he, hnext⟩
    · rwa [hsame]
    · rw [hnext]
      exact ih.step he

/-- The party whose steps are `mine` is not left out: if from some time on it can always take a
step, then it takes one. -/
def Fair (mine : ε → Prop) : Prop :=
  ∀ n, (∀ k ≥ n, ∃ e, mine e ∧ m.Enabled (c.state k) e) → ∃ k ≥ n, ∃ e ∈ c.event k, mine e

/-- Nobody is left out once nobody can take a step. -/
theorem fair_of_stuck {n : ℕ} (hstuck : ∀ k ≥ n, m.Stuck (c.state k)) (mine : ε → Prop) :
    c.Fair mine := by
  intro k henabled
  obtain ⟨e, -, he⟩ := henabled (max n k) (le_max_right n k)
  exact absurd he (hstuck (max n k) (le_max_left n k) e)

/-- A course that stays where it has come. -/
def stay (m : Machine σ ε) (s : σ) : m.Course where
  state _ := s
  event _ := none
  next _ := .inl ⟨rfl, rfl⟩

/-- A step first. -/
def cons {s : σ} {e : ε} (he : m.Enabled s e) (h : c.state 0 = m.next s e) : m.Course where
  state
    | 0 => s
    | n + 1 => c.state n
  event
    | 0 => some e
    | n + 1 => c.event n
  next
    | 0 => .inr ⟨e, rfl, he, h⟩
    | n + 1 => c.next n

end Course

/-- A computed run is a course, which then stays in its last state. -/
theorem exists_course [∀ s e, Decidable (m.Enabled s e)] {events : List ε} {s s' : σ}
    (h : m.exec s events = some s') :
    ∃ c : m.Course, c.state 0 = s ∧ ∀ k ≥ events.length, c.state k = s' := by
  induction events generalizing s with
  | nil =>
    obtain rfl := Option.some.inj h
    exact ⟨.stay m s, rfl, fun _ _ => rfl⟩
  | cons e events ih =>
    unfold exec at h
    split at h
    next he =>
      obtain ⟨c, hstart, hend⟩ := ih h
      refine ⟨c.cons he hstart, rfl, fun k hk => ?_⟩
      obtain ⟨k, rfl⟩ := Nat.exists_eq_add_one_of_ne_zero (Nat.ne_zero_of_lt hk)
      exact hend k (Nat.le_of_succ_le_succ hk)
    next => cases h

/-- **A computed run is a course**, to a state with any property that can be decided of it. -/
theorem exists_course_of_exec [∀ s e, Decidable (m.Enabled s e)] {Q : σ → Prop} [DecidablePred Q]
    {s : σ} (events : List ε) (h : (m.exec s events).any (fun s' => decide (Q s')) = true) :
    ∃ c : m.Course, c.state 0 = s ∧ ∃ s', Q s' ∧ ∀ k ≥ events.length, c.state k = s' := by
  obtain ⟨s', hs', hQ⟩ := (Option.any_eq_true _ _).mp h
  obtain ⟨c, hstart, hend⟩ := exists_course hs'
  exact ⟨c, hstart, s', of_decide_eq_true hQ, hend⟩

/-! ## Progress -/

/-- In every state short of the goal some party is in turn.  It can take a step, and what it takes
goes on towards the goal; the steps of the others do, or leave the party in turn as it is. -/
structure Progress (m : Machine σ ε) (mine : π → ε → Prop) (Goal I : σ → Prop) where
  turn : σ → π
  variant : σ → ℕ
  exists_enabled : ∀ s, I s → ¬ Goal s → ∃ e, mine (turn s) e ∧ m.Enabled s e
  step : ∀ s e, I s → ¬ Goal s → m.Enabled s e → Goal (m.next s e) ∨
    variant (m.next s e) < variant s ∨
    variant (m.next s e) = variant s ∧ turn (m.next s e) = turn s ∧ ¬ mine (turn s) e

namespace Progress

variable {mine : π → ε → Prop} {Goal I : σ → Prop} (p : m.Progress mine Goal I) {c : m.Course}

/-- As long as the variant stays, the party in turn is the same, and takes no step. -/
theorem stays (hI : ∀ n, I (c.state n)) {n : ℕ} (hgoal : ∀ k ≥ n, ¬ Goal (c.state k))
    (hle : ∀ k ≥ n, p.variant (c.state n) ≤ p.variant (c.state k)) {k : ℕ} (hk : k ≥ n) :
    p.turn (c.state k) = p.turn (c.state n) ∧ ∀ e ∈ c.event k, ¬ mine (p.turn (c.state n)) e := by
  have hstep : ∀ k ≥ n, p.variant (c.state k) = p.variant (c.state n) →
      p.variant (c.state (k + 1)) = p.variant (c.state k) ∧
        p.turn (c.state (k + 1)) = p.turn (c.state k) ∧
        ∀ e ∈ c.event k, ¬ mine (p.turn (c.state k)) e := by
    intro k hk hsame
    rcases c.next k with ⟨hnone, hstate⟩ | ⟨e, hevent, he, hstate⟩
    · rw [hstate, hnone]
      exact ⟨rfl, rfl, fun e he => absurd he (Option.not_mem_none e)⟩
    · rw [hevent]
      have hnext := p.step (c.state k) e (hI k) (hgoal k hk) he
      rw [← hstate] at hnext
      rcases hnext with hdone | hlt | ⟨hvariant, hturn, hother⟩
      · exact absurd hdone (hgoal (k + 1) (by omega))
      · have hge := hle (k + 1) (by omega)
        omega
      · refine ⟨hvariant, hturn, fun e' he' => ?_⟩
        obtain rfl := Option.some.inj he'
        exact hother
  have hsame : p.variant (c.state k) = p.variant (c.state n) ∧
      p.turn (c.state k) = p.turn (c.state n) := by
    induction k, hk using Nat.le_induction with
    | base => exact ⟨rfl, rfl⟩
    | succ k hk ih =>
      obtain ⟨hvariant, hturn, -⟩ := hstep k hk ih.1
      exact ⟨hvariant.trans ih.1, hturn.trans ih.2⟩
  refine ⟨hsame.2, ?_⟩
  rw [← hsame.2]
  exact (hstep k hk hsame.1).2.2

include p in
/-- **The rule of fair progress**: a course that leaves nobody out comes to the goal. -/
theorem exists_goal_of_fair (hI : ∀ n, I (c.state n)) (hfair : ∀ i, c.Fair (mine i)) :
    ∃ n, Goal (c.state n) := by
  have hall : ∀ v n, p.variant (c.state n) = v → ∃ k ≥ n, Goal (c.state k) := by
    intro v
    induction v using Nat.strong_induction_on with
    | _ v ih =>
      intro n hv
      by_contra hnever
      have hgoal : ∀ k ≥ n, ¬ Goal (c.state k) := fun k hk hk' => hnever ⟨k, hk, hk'⟩
      have hle : ∀ k ≥ n, p.variant (c.state n) ≤ p.variant (c.state k) := by
        intro k hk
        by_contra hlt
        obtain ⟨j, hj, hj'⟩ := ih _ (hv ▸ not_le.mp hlt) k rfl
        exact hgoal j (hk.trans hj) hj'
      -- so the party in turn can always take a step, and never does
      obtain ⟨k, hk, e, hevent, hmine⟩ := hfair (p.turn (c.state n)) n fun k hk => by
        have henabled := p.exists_enabled (c.state k) (hI k) (hgoal k hk)
        rwa [(p.stays hI hgoal hle hk).1] at henabled
      exact (p.stays hI hgoal hle hk).2 e hevent hmine
  obtain ⟨k, -, hk⟩ := hall _ 0 rfl
  exact ⟨k, hk⟩

end Progress

end Machine

end AsioSamples
