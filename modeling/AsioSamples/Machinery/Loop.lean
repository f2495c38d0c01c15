import Mathlib

/-!
# Machinery/Loop — `while` loops under a bound on the number of passes

A loop body either goes round again or leaves with a result.  `loop body n` makes at most `n`
passes; a loop that leaves at all does so under every larger bound (`loop_mono`), with one result
(`loop_unique`), so `Leaves` is a partial function of the starting state.
-/

namespace AsioSamples

variable {σ ρ : Type*}

/-- At most `n` passes of a loop whose body goes round again (`inl`) or leaves (`inr`). -/
def loop (body : σ → σ ⊕ ρ) : ℕ → σ → Option ρ
  | 0, _ => none
  | n + 1, s =>
    match body s with
    | .inl s' => loop body n s'
    | .inr r => some r

/-- The loop leaves, after any number of passes, with `r`. -/
def Leaves (body : σ → σ ⊕ ρ) (s : σ) (r : ρ) : Prop := ∃ n, loop body n s = some r

theorem loop_again {body : σ → σ ⊕ ρ} {s s' : σ} (h : body s = .inl s') (n : ℕ) :
    loop body (n + 1) s = loop body n s' := by
  simp [loop, h]

theorem loop_leave {body : σ → σ ⊕ ρ} {s : σ} {r : ρ} (h : body s = .inr r) (n : ℕ) :
    loop body (n + 1) s = some r := by
  simp [loop, h]

theorem leaves_of_leave {body : σ → σ ⊕ ρ} {s : σ} {r : ρ} (h : body s = .inr r) :
    Leaves body s r := ⟨1, loop_leave h 0⟩

/-- **One pass more or less** is all the same to where a loop leaves. -/
theorem leaves_again_iff {body : σ → σ ⊕ ρ} {s s' : σ} (h : body s = .inl s') {r : ρ} :
    Leaves body s r ↔ Leaves body s' r := by
  constructor
  · rintro ⟨n, hn⟩
    cases n with
    | zero => cases hn
    | succ n => exact ⟨n, (loop_again h n).symm.trans hn⟩
  · rintro ⟨n, hn⟩
    exact ⟨n + 1, (loop_again h n).trans hn⟩

/-- **A loop that has left does not look at the bound.** -/
theorem loop_mono {body : σ → σ ⊕ ρ} {n m : ℕ} (hnm : n ≤ m) {s : σ} {r : ρ}
    (h : loop body n s = some r) : loop body m s = some r := by
  induction n generalizing s m with
  | zero => simp [loop] at h
  | succ n ih =>
    obtain ⟨m, rfl⟩ : ∃ k, m = k + 1 := ⟨m - 1, by omega⟩
    cases hb : body s with
    | inl s' => exact (loop_again hb m).trans (ih (by omega) ((loop_again hb n).symm.trans h))
    | inr r' => exact (loop_leave hb m).trans ((loop_leave hb n).symm.trans h)

theorem loop_unique {body : σ → σ ⊕ ρ} {s : σ} {r r' : ρ} (h : Leaves body s r)
    (h' : Leaves body s r') : r = r' := by
  obtain ⟨n, hn⟩ := h
  obtain ⟨m, hm⟩ := h'
  have hn' := loop_mono (Nat.le_max_left n m) hn
  have hm' := loop_mono (Nat.le_max_right n m) hm
  exact Option.some.inj (hn'.symm.trans hm')

/-- **The invariant rule.**  What a pass keeps and the last pass turns into `Q` holds of the result.
-/
theorem Leaves.invariant {body : σ → σ ⊕ ρ} {I : σ → Prop} {Q : ρ → Prop} {s : σ} {r : ρ}
    (h : Leaves body s r) (h₀ : I s) (hagain : ∀ s s', I s → body s = .inl s' → I s')
    (hleave : ∀ s r, I s → body s = .inr r → Q r) : Q r := by
  obtain ⟨n, hn⟩ := h
  induction n generalizing s with
  | zero => simp [loop] at hn
  | succ n ih =>
    cases hb : body s with
    | inl s' => exact ih (hagain s s' h₀ hb) ((loop_again hb n).symm.trans hn)
    | inr r' =>
      obtain rfl := Option.some.inj ((loop_leave hb n).symm.trans hn)
      exact hleave s r' h₀ hb

/-- `n` passes, all of which go round again, lead from the first state to the second. -/
inductive Rounds (body : σ → σ ⊕ ρ) : ℕ → σ → σ → Prop
  | start (s : σ) : Rounds body 0 s s
  | again {n : ℕ} {s s' s'' : σ} (h : body s = .inl s') (h' : Rounds body n s' s'') :
    Rounds body (n + 1) s s''

/-- **The invariant rule for rounds.** -/
theorem Rounds.invariant {body : σ → σ ⊕ ρ} {I : σ → Prop} {n : ℕ} {s s' : σ}
    (h : Rounds body n s s') (h₀ : I s) (hagain : ∀ s s', I s → body s = .inl s' → I s') :
    I s' := by
  induction h with
  | start => exact h₀
  | again hbody _ ih => exact ih (hagain _ _ h₀ hbody)

/-- **A loop that leaves** makes rounds until a pass leaves. -/
theorem exists_rounds_of_loop {body : σ → σ ⊕ ρ} {n : ℕ} {s : σ} {r : ρ}
    (h : loop body (n + 1) s = some r) :
    ∃ k ≤ n, ∃ s', Rounds body k s s' ∧ body s' = .inr r := by
  induction n generalizing s with
  | zero =>
    cases hb : body s with
    | inl s' => cases (loop_again hb 0).symm.trans h
    | inr r' =>
      obtain rfl := Option.some.inj ((loop_leave hb 0).symm.trans h)
      exact ⟨0, le_rfl, s, .start s, hb⟩
  | succ n ih =>
    cases hb : body s with
    | inl s' =>
      obtain ⟨k, hk, s'', hrounds, hleave⟩ := ih ((loop_again hb (n + 1)).symm.trans h)
      exact ⟨k + 1, Nat.succ_le_succ hk, s'', .again hb hrounds, hleave⟩
    | inr r' =>
      obtain rfl := Option.some.inj ((loop_leave hb (n + 1)).symm.trans h)
      exact ⟨0, Nat.zero_le _, s, .start s, hb⟩

/-- **A loop stuck in a set of states never leaves.** -/
theorem loop_eq_none_of_stuck {body : σ → σ ⊕ ρ} {stuck : σ → Prop}
    (hstep : ∀ s, stuck s → ∃ s', body s = .inl s' ∧ stuck s') {s : σ} (hs : stuck s) (n : ℕ) :
    loop body n s = none := by
  induction n generalizing s with
  | zero => rfl
  | succ n ih =>
    obtain ⟨s', hb, hs'⟩ := hstep s hs
    exact (loop_again hb n).trans (ih hs')

/-- **A variant bounds the passes.**  If every pass that goes round again either lowers the variant
or enters a set of states the loop never leaves, then a loop that leaves does so within one pass
more than the variant. -/
theorem leaves_iff_loop {body : σ → σ ⊕ ρ} (stuck : σ → Prop) (variant : σ → ℕ)
    (hstuck : ∀ s, stuck s → ∃ s', body s = .inl s' ∧ stuck s')
    (hvariant : ∀ s s', ¬ stuck s → body s = .inl s' → stuck s' ∨ variant s' < variant s)
    (s : σ) (r : ρ) : Leaves body s r ↔ loop body (variant s + 1) s = some r := by
  have key : ∀ n s, loop body n s = some r → loop body (variant s + 1) s = some r := by
    intro n
    induction n with
    | zero => intro s hn; simp [loop] at hn
    | succ n ih =>
      intro s hn
      by_cases hs : stuck s
      · simp [loop_eq_none_of_stuck hstuck hs] at hn
      cases hb : body s with
      | inr r' => exact (loop_leave hb _).trans ((loop_leave hb n).symm.trans hn)
      | inl s' =>
        have hn' : loop body n s' = some r := (loop_again hb n).symm.trans hn
        rcases hvariant s s' hs hb with hs' | hlt
        · simp [loop_eq_none_of_stuck hstuck hs'] at hn'
        · exact (loop_again hb _).trans (loop_mono (by omega) (ih s' hn'))
  exact ⟨fun ⟨n, hn⟩ => key n s hn, fun h => ⟨_, h⟩⟩

end AsioSamples
