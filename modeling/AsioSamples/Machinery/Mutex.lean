import Mathlib

/-!
# Machinery/Mutex — mutexes seen from the program points of the threads that hold them

A thread takes and releases a mutex at points of its code, so its program point says whether it
holds the mutex.  `Guards` is the invariant that ties the two together, with one rule for each thing
a step can do; that at most one thread holds a mutex (`Guards.unique`) is all that mutual exclusion
comes to here.

A thread that waits for a mutex waits for the thread that owns it.  The second half is about cycles
of such waits.
-/

namespace AsioSamples

/-! ## Ownership -/

section Guards

variable {τ π : Type*}

/-- The owner of a mutex is the one thread whose program point holds it. -/
def Guards (holds : π → Prop) (owner : Option τ) (pc : τ → π) : Prop :=
  ∀ t, owner = some t ↔ holds (pc t)

namespace Guards

variable {holds : π → Prop} {owner : Option τ} {pc : τ → π} {t : τ}

theorem owner_eq (h : Guards holds owner pc) (ht : holds (pc t)) : owner = some t := (h t).mpr ht

/-- **Mutual exclusion.** -/
theorem unique (h : Guards holds owner pc) {u : τ} (ht : holds (pc t)) (hu : holds (pc u)) :
    t = u :=
  Option.some.inj ((h.owner_eq ht).symm.trans (h.owner_eq hu))

theorem not_holds (h : Guards holds none pc) (t : τ) : ¬ holds (pc t) := fun ht => by
  cases h.owner_eq ht

variable [DecidableEq τ] {p x : π}

/-- A step that neither takes nor releases the mutex. -/
theorem keep (h : Guards holds owner pc) (ht : pc t = p) (hx : holds x ↔ holds p) :
    Guards holds owner (Function.update pc t x) := by
  refine (Function.forall_update_iff pc fun u q => owner = some u ↔ holds q).mpr
    ⟨?_, fun u _ => h u⟩
  rw [hx, ← ht]
  exact h t

/-- A step that takes the mutex, which is free. -/
theorem acquire (h : Guards holds owner pc) (hfree : owner = none) (hx : holds x) :
    Guards holds (some t) (Function.update pc t x) := by
  subst hfree
  refine (Function.forall_update_iff pc fun u q => some t = some u ↔ holds q).mpr
    ⟨iff_of_true rfl hx, fun u hut => ?_⟩
  exact iff_of_false (fun he => hut (Option.some.inj he).symm) (h.not_holds u)

/-- A step that releases the mutex. -/
theorem release (h : Guards holds owner pc) (ht : pc t = p) (hp : holds p) (hx : ¬ holds x) :
    Guards holds none (Function.update pc t x) := by
  subst ht
  refine (Function.forall_update_iff pc fun u q => none = some u ↔ holds q).mpr
    ⟨iff_of_false (by simp) hx, fun u hut => ?_⟩
  exact iff_of_false (by simp) fun hu => hut (h.unique hu hp)

/-! A family of mutexes, of which a step takes or releases one. -/

variable {μ : Type*} [DecidableEq μ] {holds : μ → π → Prop} {owner : μ → Option τ}

omit [DecidableEq μ] in
theorem keepAll (h : ∀ m, Guards (holds m) (owner m) pc) (ht : pc t = p)
    (hx : ∀ m, holds m x ↔ holds m p) (m : μ) :
    Guards (holds m) (owner m) (Function.update pc t x) :=
  (h m).keep ht (hx m)

theorem acquireOne (h : ∀ m, Guards (holds m) (owner m) pc) (ht : pc t = p) {m : μ}
    (hfree : owner m = none) (hx : ∀ m', holds m' x ↔ m' = m ∨ holds m' p) :
    ∀ m', Guards (holds m') (Function.update owner m (some t) m') (Function.update pc t x) :=
  (Function.forall_update_iff owner fun m' o => Guards (holds m') o (Function.update pc t x)).mpr
    ⟨(h m).acquire hfree ((hx m).mpr (Or.inl rfl)),
      fun m' hm => (h m').keep ht ((hx m').trans (or_iff_right hm))⟩

theorem releaseOne (h : ∀ m, Guards (holds m) (owner m) pc) (ht : pc t = p) {m : μ}
    (hp : holds m p) (hx : ∀ m', holds m' x ↔ m' ≠ m ∧ holds m' p) :
    ∀ m', Guards (holds m') (Function.update owner m none m') (Function.update pc t x) :=
  (Function.forall_update_iff owner fun m' o => Guards (holds m') o (Function.update pc t x)).mpr
    ⟨(h m).release ht hp fun hx' => ((hx m).mp hx').1 rfl,
      fun m' hm => (h m').keep ht ((hx m').trans (and_iff_right hm))⟩

end Guards

end Guards

/-! ## Waiting -/

section Waits

variable {τ μ : Type*} {wants : τ → Option μ} {owner : μ → Option τ}

/-- `t` is waiting for a mutex that `u` owns. -/
def WaitsFor (wants : τ → Option μ) (owner : μ → Option τ) (t u : τ) : Prop :=
  ∃ m, wants t = some m ∧ owner m = some u

/-- There is a cycle of threads, each waiting for the next one. -/
def Deadlocked (wants : τ → Option μ) (owner : μ → Option τ) : Prop :=
  ∃ t, Relation.TransGen (WaitsFor wants owner) t t

/-- **A rank that grows along every wait inside a chain of waits excludes cycles.**  Only waits
of threads that are themselves waited for, on threads that themselves wait, can lie on a cycle. -/
theorem not_deadlocked_of_rank (rank : τ → ℕ)
    (h : ∀ s t u v, WaitsFor wants owner s t → WaitsFor wants owner t u → WaitsFor wants owner u v →
      rank t < rank u) : ¬ Deadlocked wants owner := by
  rintro ⟨t, ht⟩
  have hpath : ∀ u, Relation.TransGen (WaitsFor wants owner) t u → ∀ s v,
      WaitsFor wants owner s t → WaitsFor wants owner u v → rank t < rank u := by
    intro u hu
    induction hu with
    | single htu => exact fun s v hst huv => h s t _ v hst htu huv
    | tail hty hyu ih =>
      intro s v hst huv
      obtain ⟨x, -, hxy⟩ := Relation.TransGen.tail'_iff.mp hty
      exact (ih s _ hst hyu).trans (h x _ _ v hxy hyu huv)
  obtain ⟨s, -, hst⟩ := Relation.TransGen.tail'_iff.mp ht
  obtain ⟨v, htv, -⟩ := Relation.TransGen.head'_iff.mp ht
  exact lt_irrefl _ (hpath t ht s v hst htv)

/-- **Where everyone concerned waits for somebody concerned, there is a cycle.** -/
theorem deadlocked_of_waits [Finite τ] (concerned : τ → Prop)
    (h : ∀ t, concerned t → ∃ u, WaitsFor wants owner t u ∧ concerned u) {t : τ}
    (ht : concerned t) : Deadlocked wants owner := by
  by_contra hno
  have : Std.Irrefl (Function.swap (Relation.TransGen (WaitsFor wants owner))) :=
    ⟨fun t ht => hno ⟨t, ht⟩⟩
  have hwf := Finite.wellFounded_of_trans_of_irrefl
    (Function.swap (Relation.TransGen (WaitsFor wants owner)))
  -- nobody is concerned, from the ends of the chains of waits backwards
  induction t using hwf.induction with
  | _ t ih =>
    obtain ⟨u, htu, hu⟩ := h t ht
    exact ih u (.single htu) hu

end Waits

end AsioSamples
