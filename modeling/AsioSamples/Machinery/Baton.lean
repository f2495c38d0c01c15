import Mathlib

/-!
# Machinery/Baton — a chain of asynchronous operations that ends once

A task runs as a chain: a thread either initiates the next operation, whose completion hands the
task to some other thread, or ends it.  The task is a baton: one thread carries it, or one operation
is outstanding on its behalf, or it has ended, and never two of these at a time.

`Baton carries pc born n d` is that invariant for `n` outstanding operations and `d` ends; a task
that is not born yet has none of them.  The rules are what a step can do with the baton; the second
half lifts them to a family of tasks, of which a thread carries at most one at a time.
-/

namespace AsioSamples

variable {τ π ι : Type*}

/-- Where the task is: not begun, with a thread, with an outstanding operation, or over. -/
inductive Baton (carries : π → Prop) (pc : τ → π) : Bool → ℕ → ℕ → Prop
  | unborn (h : ∀ u, ¬ carries (pc u)) : Baton carries pc false 0 0
  | thread (t : τ) (h : ∀ u, carries (pc u) ↔ u = t) : Baton carries pc true 0 0
  | queued (h : ∀ u, ¬ carries (pc u)) : Baton carries pc true 1 0
  | spent (h : ∀ u, ¬ carries (pc u)) : Baton carries pc true 0 1

namespace Baton

variable {carries : π → Prop} {pc : τ → π} {b : Bool} {n d : ℕ} {t : τ}

/-- **At most one of everything.** -/
theorem le_one (h : Baton carries pc b n d) : n + d ≤ 1 := by
  cases h <;> omega

/-- A thread with the baton is the only one, nothing is outstanding, and nothing has ended. -/
theorem of_carries : Baton carries pc b n d → carries (pc t) →
    b = true ∧ n = 0 ∧ d = 0 ∧ ∀ u, carries (pc u) ↔ u = t
  | .unborn hv, ht => absurd ht (hv t)
  | .thread v hv, ht => by
    obtain rfl := (hv t).mp ht
    exact ⟨rfl, rfl, rfl, hv⟩
  | .queued hv, ht => absurd ht (hv t)
  | .spent hv, ht => absurd ht (hv t)

/-- An outstanding operation is the only one, no thread carries the baton, and nothing has ended. -/
theorem of_queued (h : Baton carries pc b (n + 1) d) :
    b = true ∧ n = 0 ∧ d = 0 ∧ ∀ u, ¬ carries (pc u) := by
  generalize hm : n + 1 = m at h
  cases h with
  | queued hv => exact ⟨rfl, by omega, rfl, hv⟩
  | _ => omega

/-- After the end nobody carries the baton, and nothing is outstanding. -/
theorem of_spent (h : Baton carries pc b n (d + 1)) :
    b = true ∧ n = 0 ∧ d = 0 ∧ ∀ u, ¬ carries (pc u) := by
  generalize hm : d + 1 = m at h
  cases h with
  | spent hv => exact ⟨rfl, rfl, by omega, hv⟩
  | _ => omega

/-- Before the beginning there is nothing. -/
theorem of_unborn : Baton carries pc false n d → n = 0 ∧ d = 0 ∧ ∀ u, ¬ carries (pc u)
  | .unborn hv => ⟨rfl, rfl, hv⟩

/-- With no thread carrying it, the baton is with the one operation, or spent. -/
theorem of_idle : Baton carries pc true n d → (∀ u, ¬ carries (pc u)) →
    n = 1 ∧ d = 0 ∨ n = 0 ∧ d = 1
  | .thread v hv, hidle => absurd ((hv v).mpr rfl) (hidle v)
  | .queued _, _ => Or.inl ⟨rfl, rfl⟩
  | .spent _, _ => Or.inr ⟨rfl, rfl⟩

variable [DecidableEq τ] {p x : π}

/-- A step that leaves the baton where it is. -/
theorem keep (h : Baton carries pc b n d) (ht : pc t = p) (hx : carries x ↔ carries p) :
    Baton carries (Function.update pc t x) b n d := by
  subst ht
  have hsame : ∀ u, carries (Function.update pc t x u) ↔ carries (pc u) :=
    (Function.forall_update_iff pc fun u q => carries q ↔ carries (pc u)).mpr
      ⟨hx, fun _ _ => Iff.rfl⟩
  cases h with
  | unborn hv => exact .unborn fun u => (hsame u).not.mpr (hv u)
  | thread v hv => exact .thread v fun u => (hsame u).trans (hv u)
  | queued hv => exact .queued fun u => (hsame u).not.mpr (hv u)
  | spent hv => exact .spent fun u => (hsame u).not.mpr (hv u)

/-- After the carrier has let go nobody carries the baton. -/
theorem not_carries_update (h : Baton carries pc b n d) (ht : carries (pc t)) (hx : ¬ carries x) :
    ∀ u, ¬ carries (Function.update pc t x u) :=
  (Function.forall_update_iff pc fun _ q => ¬ carries q).mpr
    ⟨hx, fun u hut hu => hut (((h.of_carries ht).2.2.2 u).mp hu)⟩

/-- A thread that takes up what nobody carried is the carrier. -/
theorem carries_update (hidle : ∀ u, ¬ carries (pc u)) (hx : carries x) :
    ∀ u, carries (Function.update pc t x u) ↔ u = t :=
  (Function.forall_update_iff pc fun u q => carries q ↔ u = t).mpr
    ⟨iff_of_true hx rfl, fun u hut => iff_of_false (hidle u) hut⟩

/-- A step that begins the task. -/
theorem create (h : Baton carries pc false n d) (hx : carries x) :
    Baton carries (Function.update pc t x) true n d := by
  cases h with
  | unborn hv => exact .thread t (carries_update hv hx)

/-- A step that initiates an operation and lets go. -/
theorem initiate (h : Baton carries pc b n d) (ht : pc t = p) (hp : carries p)
    (hx : ¬ carries x) : Baton carries (Function.update pc t x) b (n + 1) d := by
  subst ht
  obtain ⟨rfl, rfl, rfl, -⟩ := h.of_carries hp
  exact .queued (h.not_carries_update hp hx)

/-- A step that ends the task. -/
theorem spend (h : Baton carries pc b n d) (ht : pc t = p) (hp : carries p) (hx : ¬ carries x) :
    Baton carries (Function.update pc t x) b n (d + 1) := by
  subst ht
  obtain ⟨rfl, rfl, rfl, -⟩ := h.of_carries hp
  exact .spent (h.not_carries_update hp hx)

/-- A step that takes the task up from a completed operation. -/
theorem take (h : Baton carries pc b (n + 1) d) (hx : carries x) :
    Baton carries (Function.update pc t x) b n d := by
  obtain ⟨rfl, rfl⟩ : n = 0 ∧ d = 0 := by
    have := h.le_one
    omega
  cases h with
  | queued hv => exact .thread t (carries_update hv hx)

/-! ## A family of tasks -/

variable {task : π → Option ι} {born : ι → Bool} {out ends : ι → ℕ} {i : ι}

/-- A step that leaves every baton where it is. -/
theorem keepAll (h : ∀ j, Baton (fun p => task p = some j) pc (born j) (out j) (ends j))
    (ht : pc t = p) (hx : task x = task p) (j : ι) :
    Baton (fun p => task p = some j) (Function.update pc t x) (born j) (out j) (ends j) :=
  (h j).keep ht (by simp only [hx])

/-- A step on one task leaves every other baton where it is. -/
theorem keepOthers (h : ∀ j, Baton (fun p => task p = some j) pc (born j) (out j) (ends j))
    (ht : pc t = p) (hp : ∀ j, task p = some j → j = i) (hx : ∀ j, task x = some j → j = i) {j : ι}
    (hj : j ≠ i) :
    Baton (fun p => task p = some j) (Function.update pc t x) (born j) (out j) (ends j) :=
  (h j).keep ht (iff_of_false (fun hx' => hj (hx j hx')) fun hp' => hj (hp j hp'))

variable [DecidableEq ι]

theorem createOne (h : ∀ j, Baton (fun p => task p = some j) pc (born j) (out j) (ends j))
    (ht : pc t = p) (hp : task p = none) (hx : task x = some i) (hborn : born i = false) :
    ∀ j, Baton (fun p => task p = some j) (Function.update pc t x)
      (Function.update born i true j) (out j) (ends j) := by
  have hi := h i
  rw [hborn] at hi
  exact (Function.forall_update_iff born fun j b => Baton (fun p => task p = some j)
    (Function.update pc t x) b (out j) (ends j)).mpr
      ⟨hi.create hx, fun _ => keepOthers h ht (by simp [hp]) (by simp [hx])⟩

theorem initiateOne (h : ∀ j, Baton (fun p => task p = some j) pc (born j) (out j) (ends j))
    (ht : pc t = p) (hp : task p = some i) (hx : task x = none) :
    ∀ j, Baton (fun p => task p = some j) (Function.update pc t x) (born j)
      (Function.update out i (out i + 1) j) (ends j) :=
  (Function.forall_update_iff out fun j n => Baton (fun p => task p = some j)
    (Function.update pc t x) (born j) n (ends j)).mpr
      ⟨(h i).initiate ht hp (by simp [hx]),
        fun _ => keepOthers h ht (by simp [hp]) (by simp [hx])⟩

theorem spendOne (h : ∀ j, Baton (fun p => task p = some j) pc (born j) (out j) (ends j))
    (ht : pc t = p) (hp : task p = some i) (hx : task x = none) :
    ∀ j, Baton (fun p => task p = some j) (Function.update pc t x) (born j) (out j)
      (Function.update ends i (ends i + 1) j) :=
  (Function.forall_update_iff ends fun j d => Baton (fun p => task p = some j)
    (Function.update pc t x) (born j) (out j) d).mpr
      ⟨(h i).spend ht hp (by simp [hx]),
        fun _ => keepOthers h ht (by simp [hp]) (by simp [hx])⟩

theorem takeOne (h : ∀ j, Baton (fun p => task p = some j) pc (born j) (out j) (ends j))
    (ht : pc t = p) (hp : task p = none) (hx : task x = some i) (hout : out i = n + 1) :
    ∀ j, Baton (fun p => task p = some j) (Function.update pc t x) (born j)
      (Function.update out i n j) (ends j) := by
  have hi := h i
  rw [hout] at hi
  exact (Function.forall_update_iff out fun j n => Baton (fun p => task p = some j)
    (Function.update pc t x) (born j) n (ends j)).mpr
      ⟨hi.take hx, fun _ => keepOthers h ht (by simp [hp]) (by simp [hx])⟩

end Baton

end AsioSamples
