import AsioSamples.Asio.Delivery

/-!
# Asio/Operations — asynchronous operations between initiation and handler

An operation is in flight until it completes, and then queued until some thread calls its handler.
`cancel()` on the I/O object aborts operations in flight; one that is queued keeps its result.
-/

namespace AsioSamples

/-- What an operation completes with: its code, and what a read appended to its `streambuf`. -/
structure Completion where
  ec : ErrorCode
  received : Bytes := []
  deriving DecidableEq

/-- An operation whose handler has not been called: in flight without a result, queued with one. -/
structure Pending (ω : Type*) where
  op : ω
  result : Option Completion := none
  deriving DecidableEq

namespace Pending

variable {ω : Type*}

/-- The operation, reached by a `cancel()`. -/
def abort (p : Pending ω) : Pending ω :=
  match p.result with
  | none => { p with result := some ⟨.operationAborted, []⟩ }
  | some _ => p

/-- The operations of an I/O object after its `cancel()`.  A composed operation may be between two
of its steps, where the cancellation does not reach it. -/
def cancel (reached : Bool) (ops : List (Pending ω)) : List (Pending ω) :=
  if reached then ops.map abort else ops

/-- The operations after a new one was initiated. -/
def initiate (ops : List (Pending ω)) (op : ω) : List (Pending ω) := ops ++ [⟨op, none⟩]

variable [DecidableEq ω]

/-- The operations after `op`, in flight, completed with `c`. -/
def complete (ops : List (Pending ω)) (op : ω) (c : Completion) : List (Pending ω) :=
  ops.replace ⟨op, none⟩ ⟨op, some c⟩

/-- The operations after the handler of `op`, queued with `c`, was called. -/
def dequeue (ops : List (Pending ω)) (op : ω) (c : Completion) : List (Pending ω) :=
  ops.erase ⟨op, some c⟩

omit [DecidableEq ω] in
@[simp] theorem length_cancel (reached : Bool) (ops : List (Pending ω)) :
    (cancel reached ops).length = ops.length := by
  unfold cancel
  split <;> simp

omit [DecidableEq ω] in
@[simp] theorem length_initiate (ops : List (Pending ω)) (op : ω) :
    (initiate ops op).length = ops.length + 1 := by
  simp [initiate]

@[simp] theorem length_complete (ops : List (Pending ω)) (op : ω) (c : Completion) :
    (complete ops op c).length = ops.length := by
  simp [complete]

theorem length_dequeue {ops : List (Pending ω)} {op : ω} {c : Completion}
    (h : ⟨op, some c⟩ ∈ ops) : ops.length = (dequeue ops op c).length + 1 := by
  have hpos := List.length_pos_of_mem h
  rw [dequeue, List.length_erase_of_mem h]
  omega

theorem complete_singleton (op : ω) (c : Completion) :
    complete [⟨op, none⟩] op c = [⟨op, some c⟩] := by
  simp [complete]

theorem dequeue_singleton (op : ω) (c : Completion) : dequeue [⟨op, some c⟩] op c = [] := by
  simp [dequeue]

/-- An operation in flight that completes is queued. -/
theorem queued_complete {ops : List (Pending ω)} {op : ω} (c : Completion)
    (h : ⟨op, none⟩ ∈ ops) : ⟨op, some c⟩ ∈ complete ops op c := by
  induction ops with
  | nil => cases h
  | cons q ops ih =>
    rw [complete, List.replace_cons]
    split
    · exact List.mem_cons_self
    next hne =>
      rcases List.mem_cons.mp h with rfl | hmem
      · simp at hne
      · exact List.mem_cons_of_mem q (ih hmem)

/-- What is pending after a completion was so before, or is what has completed. -/
theorem mem_complete {ops : List (Pending ω)} {op : ω} {c : Completion} {p : Pending ω}
    (h : p ∈ complete ops op c) : p ∈ ops ∨ p = ⟨op, some c⟩ := by
  induction ops with
  | nil => cases h
  | cons q ops ih =>
    rw [complete, List.replace_cons] at h
    split at h
    · exact (List.mem_cons.mp h).symm.imp_left (List.mem_cons_of_mem q)
    · rcases List.mem_cons.mp h with rfl | hmem
      · exact Or.inl List.mem_cons_self
      · exact (ih hmem).imp_left (List.mem_cons_of_mem q)

/-! ## How much is left to do -/

/-- What an operation counts for: `weight`, and one more while it is in flight. -/
def load (weight : ω → ℕ) (p : Pending ω) : ℕ := weight p.op + p.result.isNone.toNat

/-- What operations count for together. -/
def loads (weight : ω → ℕ) (ops : List (Pending ω)) : ℕ := (ops.map (load weight)).sum

variable (weight : ω → ℕ) (ops : List (Pending ω))

omit [DecidableEq ω] in
theorem loads_initiate (op : ω) :
    loads weight (initiate ops op) = loads weight ops + (weight op + 1) := by
  simp [loads, initiate, load]

omit [DecidableEq ω] in
/-- A cancellation adds nothing. -/
theorem loads_cancel_le (reached : Bool) :
    loads weight (cancel reached ops) ≤ loads weight ops := by
  have habort (p : Pending ω) : load weight p.abort ≤ load weight p := by
    unfold abort
    split
    next h => simp [load, h]
    next => exact le_rfl
  unfold cancel
  split
  · rw [loads, List.map_map]
    exact List.sum_le_sum fun p _ => habort p
  · exact le_rfl

variable {ops} {op : ω} {c : Completion}

theorem loads_complete (h : ⟨op, none⟩ ∈ ops) :
    loads weight (complete ops op c) + 1 = loads weight ops := by
  induction ops with
  | nil => cases h
  | cons q ops ih =>
    rw [complete, List.replace_cons]
    split
    next heq =>
      obtain rfl := eq_of_beq heq
      simp only [loads, load, List.map_cons, List.sum_cons, Option.isNone_none, Option.isNone_some,
        Bool.toNat_true, Bool.toNat_false]
      omega
    next hne =>
      have hmem : ⟨op, none⟩ ∈ ops := by
        rcases List.mem_cons.mp h with rfl | hmem
        · simp at hne
        · exact hmem
      have hrest := ih hmem
      simp only [loads, complete, List.map_cons, List.sum_cons] at hrest ⊢
      omega

theorem loads_dequeue (h : ⟨op, some c⟩ ∈ ops) :
    loads weight (dequeue ops op c) + weight op = loads weight ops := by
  have herase := List.sum_map_erase (load weight) h
  simp only [loads, dequeue, load, Option.isNone_some, Bool.toNat_false] at herase ⊢
  omega

end Pending

end AsioSamples
