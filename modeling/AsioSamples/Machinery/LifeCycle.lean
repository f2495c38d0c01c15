import Mathlib

/-!
# Machinery/LifeCycle — objects that are constructed, called and destroyed

A `Class` says what the methods of an object and its destructor do to its state, each of which may
fail.  `after` is the state behind a sequence of calls and `life` the same with the destruction; a
failure anywhere is the failure of the whole.  What every call keeps is shown once
(`Class.exists_afterFrom`, `Class.invariant_afterFrom`), as is what one method sets and none takes
back (`Class.set_afterFrom_iff`).  A life that ends well is a sequence of calls that does, with a
state that can be destroyed (`Class.lifeFrom_eq_ok_iff`).

An object in a scope is destroyed by an exception, too: a `Scoped` says what state a method leaves
that throws.  An exception from the destructor ends the process, so what counts is the state in
which the scope is left (`Scoped.scope_eq_terminated_iff`).
-/

namespace AsioSamples

/-- A class: the state a constructor leaves, the methods, and the destructor. -/
structure Class (ε σ κ : Type*) where
  new : σ
  call : σ → κ → Except ε σ
  destroy : σ → Except ε Unit

namespace Class

variable {ε σ κ : Type*} {c : Class ε σ κ}

/-- The state after `calls`, from `s` on. -/
def afterFrom (c : Class ε σ κ) : σ → List κ → Except ε σ
  | s, [] => .ok s
  | s, k :: calls =>
    match c.call s k with
    | .ok s' => afterFrom c s' calls
    | .error e => .error e

/-- The state after construction and `calls`. -/
def after (c : Class ε σ κ) (calls : List κ) : Except ε σ := c.afterFrom c.new calls

/-- `calls` from `s` on, and the destruction. -/
def lifeFrom (c : Class ε σ κ) (s : σ) (calls : List κ) : Except ε Unit :=
  match c.afterFrom s calls with
  | .ok s' => c.destroy s'
  | .error e => .error e

/-- Construction, `calls` and destruction. -/
def life (c : Class ε σ κ) (calls : List κ) : Except ε Unit := c.lifeFrom c.new calls

theorem afterFrom_of_ok {s s' : σ} {k : κ} (h : c.call s k = .ok s') (calls : List κ) :
    c.afterFrom s (k :: calls) = c.afterFrom s' calls := by
  rw [afterFrom, h]

theorem afterFrom_of_error {s : σ} {k : κ} {e : ε} (h : c.call s k = .error e) (calls : List κ) :
    c.afterFrom s (k :: calls) = .error e := by
  rw [afterFrom, h]

/-- Calls one after another. -/
theorem afterFrom_append {s s' : σ} {calls : List κ} (h : c.afterFrom s calls = .ok s')
    (calls' : List κ) : c.afterFrom s (calls ++ calls') = c.afterFrom s' calls' := by
  induction calls generalizing s with
  | nil =>
    obtain rfl := Except.ok.inj h
    rfl
  | cons k calls ih =>
    cases hk : c.call s k with
    | error e => cases (afterFrom_of_error hk calls).symm.trans h
    | ok t =>
      rw [List.cons_append, afterFrom_of_ok hk]
      exact ih ((afterFrom_of_ok hk calls).symm.trans h)

/-- **The invariant rule.**  Where every call succeeds and keeps `I`, so does every sequence. -/
theorem exists_afterFrom {I : σ → Prop} {s : σ} (hs : I s)
    (hcall : ∀ s k, I s → ∃ s', c.call s k = .ok s' ∧ I s') (calls : List κ) :
    ∃ s', c.afterFrom s calls = .ok s' ∧ I s' := by
  induction calls generalizing s with
  | nil => exact ⟨s, rfl, hs⟩
  | cons k calls ih =>
    obtain ⟨t, hk, ht⟩ := hcall s k hs
    rw [afterFrom_of_ok hk]
    exact ih ht

/-- What every call that succeeds keeps holds after every sequence that does. -/
theorem invariant_afterFrom {I : σ → Prop} {s s' : σ} (hs : I s)
    (hcall : ∀ s k s', I s → c.call s k = .ok s' → I s') {calls : List κ}
    (h : c.afterFrom s calls = .ok s') : I s' := by
  induction calls generalizing s with
  | nil =>
    obtain rfl := Except.ok.inj h
    exact hs
  | cons k calls ih =>
    cases hk : c.call s k with
    | error e => cases (afterFrom_of_error hk calls).symm.trans h
    | ok t => exact ih (hcall s k t hs hk) ((afterFrom_of_ok hk calls).symm.trans h)

/-- **What one method sets and none takes back** holds exactly if it was called. -/
theorem set_afterFrom_iff {P : σ → Prop} {k : κ} {s s' : σ}
    (hcall : ∀ s k' s', c.call s k' = .ok s' → (P s' ↔ P s ∨ k = k')) {calls : List κ}
    (h : c.afterFrom s calls = .ok s') : P s' ↔ P s ∨ k ∈ calls := by
  induction calls generalizing s with
  | nil =>
    obtain rfl := Except.ok.inj h
    simp
  | cons k' calls ih =>
    cases hk : c.call s k' with
    | error e => cases (afterFrom_of_error hk calls).symm.trans h
    | ok t =>
      rw [ih ((afterFrom_of_ok hk calls).symm.trans h), hcall s k' t hk, List.mem_cons, or_assoc]

/-- A life ends well if its calls do, and the state they leave can be destroyed. -/
theorem lifeFrom_eq_ok_iff {s : σ} {calls : List κ} :
    c.lifeFrom s calls = .ok () ↔
      ∃ s', c.afterFrom s calls = .ok s' ∧ c.destroy s' = .ok () := by
  unfold lifeFrom
  cases c.afterFrom s calls with
  | error e => simp
  | ok s' => simp

/-- **The invariant rule for lives.** -/
theorem lifeFrom_eq_ok {I : σ → Prop} {s : σ} (hs : I s)
    (hcall : ∀ s k, I s → ∃ s', c.call s k = .ok s' ∧ I s')
    (hdestroy : ∀ s, I s → c.destroy s = .ok ()) (calls : List κ) :
    c.lifeFrom s calls = .ok () := by
  obtain ⟨s', hafter, hs'⟩ := exists_afterFrom hs hcall calls
  exact lifeFrom_eq_ok_iff.mpr ⟨s', hafter, hdestroy s' hs'⟩

theorem lifeFrom_of_ok {s s' : σ} {k : κ} (h : c.call s k = .ok s') (calls : List κ) :
    c.lifeFrom s (k :: calls) = c.lifeFrom s' calls := by
  unfold lifeFrom
  rw [afterFrom_of_ok h]

theorem lifeFrom_of_error {s : σ} {k : κ} {e : ε} (h : c.call s k = .error e) (calls : List κ) :
    c.lifeFrom s (k :: calls) = .error e := by
  unfold lifeFrom
  rw [afterFrom_of_error h]

end Class

/-! ## Objects in a scope -/

/-- How a scope is left. -/
inductive Exit (ε : Type*)
  | ended
  | thrown (e : ε)
  /-- `std::terminate` has been called. -/
  | terminated
  deriving DecidableEq

/-- A class whose methods and destructor may throw. -/
structure Scoped (ε σ κ : Type*) where
  new : σ
  /-- What is thrown, and the state behind the call. -/
  call : σ → κ → Option ε × σ
  /-- What the destructor throws. -/
  destroy : σ → Option ε

namespace Scoped

variable {ε σ κ : Type*} {c : Scoped ε σ κ}

/-- The state in which the scope is left: behind the first call that throws, or behind the last. -/
def left (c : Scoped ε σ κ) : σ → List κ → σ
  | s, [] => s
  | s, k :: calls =>
    match (c.call s k).1 with
    | none => left c (c.call s k).2 calls
    | some _ => (c.call s k).2

/-- What is thrown out of the calls. -/
def thrown (c : Scoped ε σ κ) : σ → List κ → Option ε
  | _, [] => none
  | s, k :: calls =>
    match (c.call s k).1 with
    | none => thrown c (c.call s k).2 calls
    | some e => some e

/-- `{ C object; object.calls…; }`.  The destructor must not throw, neither in the end nor while an
exception passes. -/
def scope (c : Scoped ε σ κ) (calls : List κ) : Exit ε :=
  match c.destroy (c.left c.new calls), c.thrown c.new calls with
  | some _, _ => .terminated
  | none, some e => .thrown e
  | none, none => .ended

/-- **The process ends** exactly if the destructor throws in the state that is left. -/
theorem scope_eq_terminated_iff {calls : List κ} :
    c.scope calls = .terminated ↔ (c.destroy (c.left c.new calls)).isSome := by
  unfold scope
  cases c.destroy (c.left c.new calls) with
  | some e => simp
  | none => cases c.thrown c.new calls <;> simp

/-- All of `calls` return. -/
def Returns (c : Scoped ε σ κ) : σ → List κ → Prop
  | _, [] => True
  | s, k :: calls => (c.call s k).1 = none ∧ Returns c (c.call s k).2 calls

theorem left_of_none {s : σ} {k : κ} (h : (c.call s k).1 = none) (calls : List κ) :
    c.left s (k :: calls) = c.left (c.call s k).2 calls := by
  rw [left, h]

theorem left_of_ne_none {s : σ} {k : κ} (h : (c.call s k).1 ≠ none) (calls : List κ) :
    c.left s (k :: calls) = (c.call s k).2 := by
  obtain ⟨e, he⟩ := Option.ne_none_iff_exists'.mp h
  rw [left, he]

end Scoped

end AsioSamples
