import AsioSamples.Machinery.Transition

/-!
# Machinery/Shared — a machine and the pointers that own it

`Machine.shared` is a machine with an owner count beside it.  Some of its events are calls through
an owner's pointer; the others happen whether it has an owner or not.  Owners are copied and
dropped, and the last one to be dropped destroys the object, which does to its state what `destroy`
says.

`Shared.quiet` is the one rule: where every last drop finds the object quiet, it stays so without an
owner.
-/

namespace AsioSamples

/-- An object and the number of its owners. -/
structure Shared (σ : Type*) where
  object : σ
  owners : ℕ := 1

/-- The events of an object and its owners. -/
inductive SharedEvent (ε δ : Type*)
  | step (e : ε)
  | copy
  /-- An owner lets go; `d` is what a destruction leaves open. -/
  | drop (d : δ)

namespace Machine

variable {σ ε δ : Type*}

/-- `m`, with owners: `byOwner` says which events are calls through a pointer. -/
def shared (m : Machine σ ε) (byOwner : ε → Prop) (destroy : δ → σ → σ) :
    Machine (Shared σ) (SharedEvent ε δ) where
  Enabled s
    | .step e => m.Enabled s.object e ∧ (byOwner e → 0 < s.owners)
    | .copy => 0 < s.owners
    | .drop _ => 0 < s.owners
  next s
    | .step e => { s with object := m.next s.object e }
    | .copy => { s with owners := s.owners + 1 }
    | .drop d =>
      { object := if s.owners = 1 then destroy d s.object else s.object
        owners := s.owners - 1 }

instance {m : Machine σ ε} {byOwner : ε → Prop} {destroy : δ → σ → σ}
    [∀ s e, Decidable (m.Enabled s e)] [DecidablePred byOwner] (s : Shared σ)
    (e : SharedEvent ε δ) : Decidable ((m.shared byOwner destroy).Enabled s e) :=
  match e with
  | .step _ => inferInstanceAs (Decidable (_ ∧ (_ → _)))
  | .copy | .drop _ => inferInstanceAs (Decidable (_ < _))

end Machine

namespace Shared

variable {σ ε δ : Type*} {m : Machine σ ε} {byOwner : ε → Prop} {destroy : δ → σ → σ}
  {Quiet : σ → Prop}

/-- The last owner lets go of a quiet object only. -/
def LetsGoOf (Quiet : σ → Prop) (s : Shared σ) : SharedEvent ε δ → Prop
  | .drop _ => s.owners = 1 → Quiet s.object
  | _ => True

/-- A step keeps an object without owners quiet. -/
theorem quiet_next (hstep : ∀ s e, Quiet s → m.Enabled s e → ¬ byOwner e → Quiet (m.next s e))
    (hdestroy : ∀ s d, Quiet s → Quiet (destroy d s)) {s : Shared σ} {e : SharedEvent ε δ}
    (hs : s.owners = 0 → Quiet s.object) (he : (m.shared byOwner destroy).Enabled s e)
    (hgo : LetsGoOf Quiet s e) (h₀ : ((m.shared byOwner destroy).next s e).owners = 0) :
    Quiet ((m.shared byOwner destroy).next s e).object := by
  cases e with
  | step e =>
    have hnone : s.owners = 0 := h₀
    have hfree : ¬ byOwner e := fun hby => absurd (he.2 hby) (by omega)
    exact hstep s.object e (hs hnone) he.1 hfree
  | copy => cases h₀
  | drop d =>
    have hpos : 0 < s.owners := he
    have hlast : s.owners = 1 := by
      have hsub : s.owners - 1 = 0 := h₀
      omega
    have hquiet := hdestroy s.object d (hgo hlast)
    simpa only [Machine.shared, hlast, if_true] using hquiet

/-- **An object without owners is quiet**, in every run in which the last one let go of a quiet
object. -/
theorem quiet (hstep : ∀ s e, Quiet s → m.Enabled s e → ¬ byOwner e → Quiet (m.next s e))
    (hdestroy : ∀ s d, Quiet s → Quiet (destroy d s)) {s s' : Shared σ}
    (h : ((m.shared byOwner destroy).restrict (LetsGoOf Quiet)).Runs s s') (hs : 0 < s.owners)
    (h₀ : s'.owners = 0) : Quiet s'.object := by
  refine h.invariant (I := fun s => s.owners = 0 → Quiet s.object) ?_ ?_ h₀
  · exact fun hnone => absurd hnone (Nat.ne_of_gt hs)
  · intro s' e _ hs' he
    exact quiet_next hstep hdestroy hs' he.1 he.2

end Shared

end AsioSamples
