import AsioSamples.Asio.Operations
import AsioSamples.Machinery.Baton
import AsioSamples.Machinery.Transition

/-!
# Tcp/Acceptor — the accept chain of `AsyncAcceptor`

`Start` initiates an `async_accept`, whose handler hands the socket to a service and initiates the
next one, until it finds `stopFlag_` set and closes the acceptor.  The chain is a baton: a thread in
`Start` or `Accept` carries it, or an accept is outstanding, or it is spent on the one `close()`.

`Stop` may come between any two steps, and in particular between the test of the flag and the
re-arming; what a chain can still hand over after it is at most the socket of one more accept
(`created_le_of_stopFlag`).
-/

namespace AsioSamples

namespace AsyncAcceptor

/-! ## States and events -/

/-- What a thread is about to do. -/
inductive Pc
  /-- Neither in `Start` nor in `Accept`. -/
  | idle
  /-- Enter `Accept`. -/
  | accept (ec : ErrorCode) (socket : ℕ)
  /-- Call `HandleRequest` on the service that was created for the socket. -/
  | handleRequest (socket : ℕ)
  /-- Test `stopFlag_`. -/
  | test
  /-- `Init()`, from `Start` or from `Accept`. -/
  | init
  /-- `acceptor_.close()`. -/
  | close
  deriving DecidableEq

/-- An `AsyncAcceptor`, the threads that run it, and what has happened.  Sockets are numbered as
`Init` creates them. -/
structure State (τ : Type) where
  pc : τ → Pc := fun _ => .idle
  started : Bool := false
  stopFlag : Bool := false
  outstanding : List (Pending ℕ) := []
  /-- How many `async_accept` were initiated. -/
  initiated : ℕ := 0
  /-- The sockets whose accept completed with success. -/
  accepted : List ℕ := []
  /-- The sockets for which a `ServiceType` was created. -/
  created : List ℕ := []
  /-- The sockets on whose service `HandleRequest` was called. -/
  handled : List ℕ := []
  /-- How many times the acceptor was closed. -/
  closed : ℕ := 0

/-- The steps. -/
inductive Event (τ : Type)
  /-- A thread calls `Start`, which listens and comes to its `Init()`. -/
  | start (t : τ)
  /-- The accept for a socket completes. -/
  | complete (socket : ℕ) (ec : ErrorCode)
  /-- A thread calls the handler of a completed accept. -/
  | handle (t : τ) (socket : ℕ) (ec : ErrorCode)
  /-- The next statement of a thread in `Start` or `Accept`. -/
  | run (t : τ)
  /-- `Stop`, on any other thread. -/
  | stop

variable {τ : Type}

/-- When a step can be taken. -/
def Enabled (s : State τ) : Event τ → Prop
  | .start t => s.started = false ∧ s.pc t = .idle
  | .complete socket _ => (⟨socket, none⟩ : Pending ℕ) ∈ s.outstanding
  | .handle t socket ec => s.pc t = .idle ∧ ⟨socket, some ⟨ec, []⟩⟩ ∈ s.outstanding
  | .run t => s.pc t ≠ .idle
  | .stop => True

instance (s : State τ) (e : Event τ) : Decidable (Enabled s e) :=
  match e with
  | .start _ | .handle .. => inferInstanceAs (Decidable (_ ∧ _))
  | .complete .. => inferInstanceAs (Decidable (_ ∈ _))
  | .run _ => inferInstanceAs (Decidable (_ ≠ _))
  | .stop => inferInstanceAs (Decidable True)

variable [DecidableEq τ]

/-- The state with thread `t` there. -/
def State.goto (s : State τ) (t : τ) (p : Pc) : State τ := { s with pc := Function.update s.pc t p }

/-- One statement of `Accept`, or the `Init()` of `Start`. -/
def State.run (s : State τ) (t : τ) : State τ :=
  match s.pc t with
  | .idle => s
  | .accept ec socket =>
    if ec.value = 0 then
      { s with created := s.created ++ [socket] }.goto t (.handleRequest socket)
    else s.goto t .test
  | .handleRequest socket => { s with handled := s.handled ++ [socket] }.goto t .test
  | .test => s.goto t (if s.stopFlag then .close else .init)
  | .init =>
    { s with
      outstanding := Pending.initiate s.outstanding s.initiated
      initiated := s.initiated + 1 }.goto t .idle
  | .close => { s with closed := s.closed + 1 }.goto t .idle

section Statements

variable {s : State τ} {t : τ} {socket : ℕ} {ec : ErrorCode}

theorem run_success (ht : s.pc t = .accept ec socket) (hec : ec.value = 0) :
    s.run t = { s with created := s.created ++ [socket] }.goto t (.handleRequest socket) := by
  rw [State.run, ht]
  exact if_pos hec

theorem run_failure (ht : s.pc t = .accept ec socket) (hec : ec.value ≠ 0) :
    s.run t = s.goto t .test := by
  rw [State.run, ht]
  exact if_neg hec

theorem run_handleRequest (ht : s.pc t = .handleRequest socket) :
    s.run t = { s with handled := s.handled ++ [socket] }.goto t .test := by
  rw [State.run, ht]

theorem run_test (ht : s.pc t = .test) :
    s.run t = s.goto t (if s.stopFlag then .close else .init) := by
  rw [State.run, ht]

theorem run_init (ht : s.pc t = .init) : s.run t = { s with
    outstanding := Pending.initiate s.outstanding s.initiated
    initiated := s.initiated + 1 }.goto t .idle := by
  rw [State.run, ht]

theorem run_close (ht : s.pc t = .close) :
    s.run t = { s with closed := s.closed + 1 }.goto t .idle := by
  rw [State.run, ht]

end Statements

/-- Where a step leads. -/
def next (s : State τ) : Event τ → State τ
  | .start t => { s with started := true }.goto t .init
  | .complete socket ec =>
    { s with
      outstanding := Pending.complete s.outstanding socket ⟨ec, []⟩
      accepted := if ec.value = 0 then s.accepted ++ [socket] else s.accepted }
  | .handle t socket ec =>
    { s with outstanding := Pending.dequeue s.outstanding socket ⟨ec, []⟩ }.goto t
      (.accept ec socket)
  | .run t => s.run t
  | .stop => { s with stopFlag := true }

/-- The acceptor among its threads. -/
def machine (τ : Type) [DecidableEq τ] : Machine (State τ) (Event τ) := ⟨Enabled, next⟩

instance (s : State τ) (e : Event τ) : Decidable ((machine τ).Enabled s e) :=
  inferInstanceAs (Decidable (Enabled s e))

/-! ## The chain is a baton -/

/-- A thread in `Start` or `Accept` carries the chain. -/
def Pc.Busy (p : Pc) : Prop := p ≠ .idle

/-- The chain: begun by `Start`, with a thread or an outstanding accept, or spent on a `close()`. -/
def Chain (s : State τ) : Prop := Baton Pc.Busy s.pc s.started s.outstanding.length s.closed

/-- **One statement keeps the chain whole.** -/
theorem chain_run {s : State τ} (h : Chain s) (t : τ) : Chain (s.run t) := by
  unfold Chain at h ⊢
  cases ht : s.pc t with
  | idle =>
    rw [State.run, ht]
    exact h
  | accept ec socket =>
    by_cases hec : ec.value = 0
    · rw [run_success ht hec]
      exact h.keep ht (by simp [Pc.Busy])
    · rw [run_failure ht hec]
      exact h.keep ht (by simp [Pc.Busy])
  | handleRequest socket =>
    rw [run_handleRequest ht]
    exact h.keep ht (by simp [Pc.Busy])
  | test =>
    rw [run_test ht]
    exact h.keep ht (by split <;> simp [Pc.Busy])
  | init =>
    rw [run_init ht]
    simpa [State.goto] using h.initiate ht (by simp [Pc.Busy]) (by simp [Pc.Busy])
  | close =>
    rw [run_close ht]
    exact h.spend ht (by simp [Pc.Busy]) (by simp [Pc.Busy])

/-- **Every step keeps the chain whole.** -/
theorem chain_next {s : State τ} {e : Event τ} (h : Chain s) (he : Enabled s e) :
    Chain (next s e) := by
  cases e with
  | start t =>
    unfold Chain at h ⊢
    rw [he.1] at h
    exact h.create (by simp [Pc.Busy])
  | complete socket ec =>
    unfold Chain at h ⊢
    rw [next, Pending.length_complete]
    exact h
  | handle t socket ec =>
    unfold Chain at h ⊢
    rw [Pending.length_dequeue he.2] at h
    exact h.take (by simp [Pc.Busy])
  | run t => exact chain_run h t
  | stop => exact h

theorem chain {s : State τ} (h : (machine τ).Runs {} s) : Chain s :=
  h.invariant (.unborn fun _ hbusy => hbusy rfl) fun _ _ _ hs he => chain_next hs he

section Places

variable {s : State τ} {t : τ}

omit [DecidableEq τ]

/-- An accept that is outstanding is the only one, and no thread is in `Start` or `Accept`. -/
theorem Chain.outstanding_eq (h : Chain s) {p : Pending ℕ} (hp : p ∈ s.outstanding) :
    s.outstanding = [p] ∧ (∀ u, ¬ (s.pc u).Busy) ∧ s.started = true ∧ s.closed = 0 := by
  obtain ⟨ops, ops', hops⟩ := List.append_of_mem hp
  unfold Chain at h
  rw [hops, List.length_append, List.length_cons, ← Nat.add_assoc] at h
  obtain ⟨hstarted, hlen, hclosed, hidle⟩ := h.of_queued
  have hnil := List.eq_nil_of_length_eq_zero (show (ops ++ ops').length = 0 by simpa using hlen)
  obtain ⟨rfl, rfl⟩ := List.append_eq_nil_iff.mp hnil
  exact ⟨hops, hidle, hstarted, hclosed⟩

/-- A thread in `Start` or `Accept` is the only one, and no accept is outstanding. -/
theorem Chain.busy_eq (h : Chain s) (ht : (s.pc t).Busy) :
    s.outstanding = [] ∧ (∀ u, (s.pc u).Busy ↔ u = t) ∧ s.started = true ∧ s.closed = 0 := by
  obtain ⟨hstarted, hout, hclosed, hall⟩ := h.of_carries ht
  exact ⟨List.length_eq_zero_iff.mp hout, hall, hstarted, hclosed⟩

/-- Before `Start` there is nothing. -/
theorem Chain.unstarted (h : Chain s) (hstarted : s.started = false) :
    s.outstanding = [] ∧ ∀ u, ¬ (s.pc u).Busy := by
  unfold Chain at h
  rw [hstarted] at h
  obtain ⟨hout, -, hidle⟩ := h.of_unborn
  exact ⟨List.length_eq_zero_iff.mp hout, hidle⟩

/-- After `close()` there is nothing more. -/
theorem Chain.spent (h : Chain s) (hclosed : 0 < s.closed) :
    s.outstanding = [] ∧ (∀ u, ¬ (s.pc u).Busy) ∧ s.started = true := by
  unfold Chain at h
  rw [show s.closed = s.closed - 1 + 1 by omega] at h
  obtain ⟨hstarted, hout, -, hidle⟩ := h.of_spent
  exact ⟨List.length_eq_zero_iff.mp hout, hidle, hstarted⟩

end Places

/-! ## The ledger of sockets -/

/-- The socket a thread in `Accept` has still to hand over. -/
def Pc.underway : Pc → List ℕ
  | .accept ec socket => if ec.value = 0 then [socket] else []
  | _ => []

/-- The socket whose service has still to be called. -/
def Pc.unhandled : Pc → List ℕ
  | .handleRequest socket => [socket]
  | _ => []

/-- The sockets of accepts that have completed with success and wait for a thread. -/
def queued (outstanding : List (Pending ℕ)) : List ℕ :=
  outstanding.flatMap fun p =>
    match p.result with
    | some c => if c.ec.value = 0 then [p.op] else []
    | none => []

/-- Every accepted socket has had its service, in order, but the one that the carrier of the chain
is about to hand over. -/
structure Ledger (s : State τ) : Prop where
  busy : ∀ t, (s.pc t).Busy → s.accepted = s.created ++ (s.pc t).underway ∧
    s.created = s.handled ++ (s.pc t).unhandled
  idle : (∀ t, ¬ (s.pc t).Busy) → s.accepted = s.created ++ queued s.outstanding ∧
    s.created = s.handled

omit [DecidableEq τ] in
/-- A ledger is checked on the one thread that carries the chain. -/
theorem Ledger.of_busy {s : State τ} (h : Chain s) {t : τ} {p : Pc} (ht : s.pc t = p)
    (hp : p.Busy) (hunder : s.accepted = s.created ++ p.underway)
    (hunhandled : s.created = s.handled ++ p.unhandled) : Ledger s := by
  subst ht
  refine ⟨fun u hu => ?_, fun hidle => absurd hp (hidle t)⟩
  obtain rfl := ((h.busy_eq hp).2.1 u).mp hu
  exact ⟨hunder, hunhandled⟩

omit [DecidableEq τ] in
/-- …or on the outstanding accepts. -/
theorem Ledger.of_idle {s : State τ} (hidle : ∀ t, ¬ (s.pc t).Busy)
    (hqueued : s.accepted = s.created ++ queued s.outstanding) (hhandled : s.created = s.handled) :
    Ledger s :=
  ⟨fun t ht => absurd ht (hidle t), fun _ => ⟨hqueued, hhandled⟩⟩

@[simp] theorem State.goto_pc (s : State τ) (t : τ) (p : Pc) : (s.goto t p).pc t = p :=
  Function.update_self ..

/-- When the carrier lets go, nobody is busy. -/
theorem Chain.idle_goto {s : State τ} (h : Chain s) {t : τ} (ht : (s.pc t).Busy) :
    ∀ u, ¬ ((s.goto t .idle).pc u).Busy :=
  h.not_carries_update ht (by simp [Pc.Busy])

/-- **One statement keeps the ledger.** -/
theorem ledger_run {s : State τ} (h : Chain s) (hledger : Ledger s) {t : τ}
    (hbusy : (s.pc t).Busy) : Ledger (s.run t) := by
  have hnext := chain_run h t
  obtain ⟨hunder, hunhandled⟩ := hledger.busy t hbusy
  have hout := (h.busy_eq hbusy).1
  cases hpc : s.pc t with
  | idle => exact absurd hpc hbusy
  | accept ec socket =>
    rw [hpc] at hunder hunhandled
    by_cases hec : ec.value = 0
    · rw [run_success hpc hec] at hnext ⊢
      refine .of_busy hnext (State.goto_pc ..) (by simp [Pc.Busy]) ?_ ?_
      · simpa [State.goto, Pc.underway, hec] using hunder
      · simpa [State.goto, Pc.unhandled] using hunhandled
    · rw [run_failure hpc hec] at hnext ⊢
      refine .of_busy hnext (State.goto_pc ..) (by simp [Pc.Busy]) ?_ ?_
      · simpa [State.goto, Pc.underway, hec] using hunder
      · simpa [State.goto, Pc.unhandled] using hunhandled
  | handleRequest socket =>
    rw [hpc] at hunder hunhandled
    rw [run_handleRequest hpc] at hnext ⊢
    refine .of_busy hnext (State.goto_pc ..) (by simp [Pc.Busy]) ?_ ?_
    · simpa [State.goto, Pc.underway] using hunder
    · simpa [State.goto, Pc.unhandled] using hunhandled
  | test =>
    rw [hpc] at hunder hunhandled
    rw [run_test hpc] at hnext ⊢
    cases hflag : s.stopFlag with
    | true =>
      rw [hflag, if_pos rfl] at hnext
      rw [if_pos rfl]
      exact .of_busy hnext (State.goto_pc ..) (by simp [Pc.Busy]) hunder hunhandled
    | false =>
      rw [hflag, if_neg Bool.false_ne_true] at hnext
      rw [if_neg Bool.false_ne_true]
      exact .of_busy hnext (State.goto_pc ..) (by simp [Pc.Busy]) hunder hunhandled
  | init =>
    rw [hpc] at hunder hunhandled
    rw [run_init hpc]
    refine .of_idle (h.idle_goto hbusy) ?_ ?_
    · simpa [State.goto, hout, queued, Pending.initiate, Pc.underway] using hunder
    · simpa [State.goto, Pc.unhandled] using hunhandled
  | close =>
    rw [hpc] at hunder hunhandled
    rw [run_close hpc]
    refine .of_idle (h.idle_goto hbusy) ?_ ?_
    · simpa [State.goto, hout, queued, Pc.underway] using hunder
    · simpa [State.goto, Pc.unhandled] using hunhandled

/-- **Every step keeps the ledger.** -/
theorem ledger_next {s : State τ} {e : Event τ} (h : Chain s) (hledger : Ledger s)
    (he : Enabled s e) : Ledger (next s e) := by
  have hnext := chain_next h he
  cases e with
  | start t =>
    obtain ⟨hout, hidle⟩ := h.unstarted he.1
    obtain ⟨hqueued, hhandled⟩ := hledger.idle hidle
    rw [hout] at hqueued
    refine .of_busy hnext (State.goto_pc ..) (by simp [Pc.Busy]) ?_ ?_
    · simpa [next, State.goto, Pc.underway, queued] using hqueued
    · simpa [next, State.goto, Pc.unhandled] using hhandled
  | complete socket ec =>
    obtain ⟨hout, hidle, -⟩ := h.outstanding_eq he
    obtain ⟨hqueued, hhandled⟩ := hledger.idle hidle
    rw [hout] at hqueued
    refine .of_idle hidle ?_ hhandled
    simp only [next, hout, Pending.complete_singleton]
    by_cases hec : ec.value = 0
    · simpa [hec, queued] using hqueued
    · simpa [hec, queued] using hqueued
  | handle t socket ec =>
    obtain ⟨hout, hidle, -⟩ := h.outstanding_eq he.2
    obtain ⟨hqueued, hhandled⟩ := hledger.idle hidle
    rw [hout] at hqueued
    refine .of_busy hnext (State.goto_pc ..) (by simp [Pc.Busy]) ?_ ?_
    · simpa [next, State.goto, Pc.underway, queued] using hqueued
    · simpa [next, State.goto, Pc.unhandled] using hhandled
  | run t => exact ledger_run h hledger he
  | stop => exact ⟨hledger.busy, hledger.idle⟩

theorem ledger {s : State τ} (h : (machine τ).Runs {} s) : Ledger s :=
  h.invariant (.of_idle (fun _ hbusy => hbusy rfl) rfl rfl)
    fun _ _ hrun hs he => ledger_next (chain hrun) hs he

/-! ## The numbers of the sockets -/

/-- No socket is accepted twice, and one whose accept is in flight has not been accepted. -/
structure Numbered (s : State τ) : Prop where
  lt : ∀ i ∈ s.accepted, i < s.initiated
  nodup : s.accepted.Nodup
  outstanding : ∀ p ∈ s.outstanding, p.op < s.initiated ∧ (p.result = none → p.op ∉ s.accepted)

/-- A statement accepts no socket; `Init()` alone takes a number, for the accept it initiates. -/
theorem run_numbers (s : State τ) (t : τ) : (s.run t).accepted = s.accepted ∧
    ((s.run t).initiated = s.initiated ∧ (s.run t).outstanding = s.outstanding ∨
      (s.run t).initiated = s.initiated + 1 ∧
        (s.run t).outstanding = Pending.initiate s.outstanding s.initiated) := by
  unfold State.run
  split
  case h_2 => split <;> exact ⟨rfl, .inl ⟨rfl, rfl⟩⟩
  case h_5 => exact ⟨rfl, .inr ⟨rfl, rfl⟩⟩
  all_goals exact ⟨rfl, .inl ⟨rfl, rfl⟩⟩

/-- **Every step keeps the numbers.** -/
theorem numbered_next {s : State τ} {e : Event τ} (h : Chain s) (hs : Numbered s)
    (he : Enabled s e) : Numbered (next s e) := by
  cases e with
  | start t => exact ⟨hs.lt, hs.nodup, hs.outstanding⟩
  | complete socket ec =>
    obtain ⟨hout, -⟩ := h.outstanding_eq he
    obtain ⟨hlt, hnew⟩ := hs.outstanding _ he
    have hpending : ∀ p ∈ (next s (.complete socket ec)).outstanding,
        p = ⟨socket, some ⟨ec, []⟩⟩ := by
      simp [next, hout, Pending.complete_singleton]
    by_cases hec : ec.value = 0
    · have haccepted : (next s (.complete socket ec)).accepted = s.accepted ++ [socket] :=
        if_pos hec
      refine ⟨?_, ?_, fun p hp => by simpa [hpending p hp, next] using hlt⟩
      · rw [haccepted]
        exact List.forall_mem_append.mpr ⟨hs.lt, by simpa [next] using hlt⟩
      · rw [haccepted, List.nodup_append_comm, List.singleton_append]
        exact List.nodup_cons.mpr ⟨hnew rfl, hs.nodup⟩
    · have haccepted : (next s (.complete socket ec)).accepted = s.accepted := if_neg hec
      refine ⟨?_, ?_, fun p hp => by simpa [hpending p hp, next] using hlt⟩
      · rw [haccepted]
        exact hs.lt
      · rw [haccepted]
        exact hs.nodup
  | handle t socket ec =>
    exact ⟨hs.lt, hs.nodup, fun p hp => hs.outstanding p (List.mem_of_mem_erase hp)⟩
  | run t =>
    obtain ⟨haccepted, ⟨hinitiated, hout⟩ | ⟨hinitiated, hout⟩⟩ := run_numbers s t
    · refine ⟨?_, ?_, ?_⟩ <;> simp only [next, haccepted, hinitiated, hout]
      · exact hs.lt
      · exact hs.nodup
      · exact hs.outstanding
    · refine ⟨?_, ?_, ?_⟩ <;> simp only [next, haccepted, hinitiated, hout]
      · exact fun i hi => (hs.lt i hi).trans (Nat.lt_succ_self _)
      · exact hs.nodup
      · -- the number of the new accept is above those of all accepted sockets
        refine List.forall_mem_append.mpr ⟨fun p hp => ?_, ?_⟩
        · exact ⟨(hs.outstanding p hp).1.trans (Nat.lt_succ_self _), (hs.outstanding p hp).2⟩
        · simpa using fun hmem => lt_irrefl _ (hs.lt _ hmem)
  | stop => exact ⟨hs.lt, hs.nodup, hs.outstanding⟩

theorem numbered {s : State τ} (h : (machine τ).Runs {} s) : Numbered s :=
  h.invariant ⟨by simp, List.nodup_nil, by simp⟩ fun _ _ hrun hs he =>
    numbered_next (chain hrun) hs he

/-! ## What holds of the chain -/

/-- `Accept` has found `stopFlag_` set. -/
def Observed (s : State τ) : Prop := (∃ t, s.pc t = .close) ∨ 0 < s.closed

/-- **The chain does not break** before `Accept` has found the flag set. -/
theorem unbroken {s : State τ} (h : (machine τ).Runs {} s) (hstarted : s.started = true)
    (hobserved : ¬ Observed s) : s.outstanding ≠ [] ∨ ∃ t, (s.pc t).Busy := by
  by_contra hbroken
  simp only [not_or, not_not, not_exists] at hbroken
  have hchain := chain h
  unfold Chain at hchain
  rw [hstarted, hbroken.1] at hchain
  rcases hchain.of_idle hbroken.2 with ⟨hout, -⟩ | ⟨-, hclosed⟩
  · cases hout
  · exact hobserved (.inr (by omega))

/-- A thread there may come to create one more service, flag or not. -/
def Pc.mayCreate : Pc → Prop
  | .accept _ _ | .init => True
  | _ => False

/-- With the flag set, no more services will be created. -/
structure Exhausted (s : State τ) : Prop where
  started : s.started = true
  outstanding : s.outstanding = []
  pc : ∀ t, ¬ (s.pc t).mayCreate

/-- A thread that goes where no service is created leaves the acceptor exhausted. -/
theorem Exhausted.goto {s : State τ} (h : Exhausted s) (t : τ) {p : Pc} (hp : ¬ p.mayCreate) :
    Exhausted (s.goto t p) where
  started := h.started
  outstanding := h.outstanding
  pc := (Function.forall_update_iff s.pc fun _ q => ¬ q.mayCreate).mpr ⟨hp, fun u _ => h.pc u⟩

/-- **With the flag set, one statement** creates nothing, or the last service. -/
theorem created_run {s : State τ} (h : Chain s) (hflag : s.stopFlag = true) {t : τ}
    (hbusy : (s.pc t).Busy) :
    (s.run t).created = s.created ∧ (Exhausted s → Exhausted (s.run t)) ∨
      (s.run t).created.length = s.created.length + 1 ∧ ¬ Exhausted s ∧ Exhausted (s.run t) := by
  cases hpc : s.pc t with
  | idle => exact absurd hpc hbusy
  | accept ec socket =>
    have hmay : ¬ Exhausted s := fun hex => hex.pc t (by rw [hpc]; trivial)
    by_cases hec : ec.value = 0
    · rw [run_success hpc hec]
      obtain ⟨hout, hall, hstarted, -⟩ := h.busy_eq hbusy
      refine .inr ⟨by simp [State.goto], hmay, hstarted, hout, ?_⟩
      refine (Function.forall_update_iff s.pc fun _ q => ¬ q.mayCreate).mpr
        ⟨id, fun u hu hmay => ?_⟩
      have hidle : ¬ (s.pc u).Busy := fun hb => hu ((hall u).mp hb)
      rw [not_not.mp hidle] at hmay
      exact hmay
    · rw [run_failure hpc hec]
      exact .inl ⟨rfl, fun hex => absurd hex hmay⟩
  | handleRequest socket =>
    rw [run_handleRequest hpc]
    refine .inl ⟨rfl, fun hex => ?_⟩
    have hex' : Exhausted { s with handled := s.handled ++ [socket] } :=
      ⟨hex.started, hex.outstanding, hex.pc⟩
    exact hex'.goto t id
  | test =>
    rw [run_test hpc, hflag, if_pos rfl]
    exact .inl ⟨rfl, fun hex => hex.goto t id⟩
  | init =>
    rw [run_init hpc]
    exact .inl ⟨rfl, fun hex => absurd (show (s.pc t).mayCreate by rw [hpc]; trivial) (hex.pc t)⟩
  | close =>
    rw [run_close hpc]
    refine .inl ⟨rfl, fun hex => ?_⟩
    have hex' : Exhausted { s with closed := s.closed + 1 } :=
      ⟨hex.started, hex.outstanding, hex.pc⟩
    exact hex'.goto t id

/-- **With the flag set, one step** creates nothing, or the last service. -/
theorem created_next {s : State τ} {e : Event τ} (h : Chain s) (hflag : s.stopFlag = true)
    (he : Enabled s e) :
    (next s e).created = s.created ∧ (Exhausted s → Exhausted (next s e)) ∨
      (next s e).created.length = s.created.length + 1 ∧ ¬ Exhausted s ∧ Exhausted (next s e) := by
  cases e with
  | start t =>
    refine .inl ⟨rfl, fun hex => ?_⟩
    exact absurd (he.1.symm.trans hex.started) Bool.false_ne_true
  | complete socket ec =>
    refine .inl ⟨rfl, fun hex => ?_⟩
    rw [Enabled, hex.outstanding] at he
    cases he
  | handle t socket ec =>
    refine .inl ⟨rfl, fun hex => ?_⟩
    rw [Enabled, hex.outstanding] at he
    cases he.2
  | run t => exact created_run h hflag he
  | stop => exact .inl ⟨rfl, fun hex => ⟨hex.started, hex.outstanding, hex.pc⟩⟩

/-- No step clears the flag. -/
theorem stopFlag_next {s : State τ} (e : Event τ) (hflag : s.stopFlag = true) :
    (next s e).stopFlag = true := by
  cases e with
  | run t =>
    simp only [next, State.run]
    split
    case h_2 => split <;> exact hflag
    all_goals exact hflag
  | stop => rfl
  | _ => exact hflag

/-- **After `Stop` at most one more service is created.** -/
theorem created_le_of_stopFlag {s s' : State τ} (h : (machine τ).Runs {} s)
    (hflag : s.stopFlag = true) (h' : (machine τ).Runs s s') :
    s'.created.length ≤ s.created.length + 1 := by
  have hquota : s'.stopFlag = true ∧ (s'.created.length ≤ s.created.length ∨
      s'.created.length = s.created.length + 1 ∧ Exhausted s') := by
    refine h'.invariant (I := fun s' => s'.stopFlag = true ∧
      (s'.created.length ≤ s.created.length ∨ s'.created.length = s.created.length + 1 ∧
        Exhausted s')) ⟨hflag, .inl le_rfl⟩ fun s₁ e hrun hs₁ he => ?_
    obtain ⟨hflag₁, hlen⟩ := hs₁
    refine ⟨stopFlag_next e hflag₁, ?_⟩
    rcases created_next (chain (h.trans hrun)) hflag₁ he with ⟨hsame, hkeep⟩ | ⟨hone, hnot, hex⟩
    · rw [show ((machine τ).next s₁ e).created = s₁.created from hsame]
      exact hlen.imp_right fun hlast => ⟨hlast.1, hkeep hlast.2⟩
    · have hle := hlen.resolve_right fun hlast => hnot hlast.2
      have hone : ((machine τ).next s₁ e).created.length = s₁.created.length + 1 := hone
      by_cases heq : s₁.created.length = s.created.length
      · exact .inr ⟨by omega, hex⟩
      · exact .inl (by omega)
  omega

/-- **A closed acceptor initiates no accept.** -/
theorem initiated_eq_of_closed {s s' : State τ} (h : (machine τ).Runs {} s) (hclosed : 0 < s.closed)
    (h' : (machine τ).Runs s s') : s'.initiated = s.initiated := by
  have hclosed : 0 < s'.closed ∧ s'.initiated = s.initiated := by
    refine h'.invariant (I := fun s' => 0 < s'.closed ∧ s'.initiated = s.initiated)
      ⟨hclosed, rfl⟩ fun s₁ e hrun hs₁ he => ?_
    obtain ⟨hout, hidle, hstarted⟩ := (chain (h.trans hrun)).spent hs₁.1
    cases e with
    | start t => exact absurd (he.1.symm.trans hstarted) Bool.false_ne_true
    | complete socket ec =>
      have he : (⟨socket, none⟩ : Pending ℕ) ∈ s₁.outstanding := he
      rw [hout] at he
      cases he
    | handle t socket ec =>
      have he : (⟨socket, some ⟨ec, []⟩⟩ : Pending ℕ) ∈ s₁.outstanding := he.2
      rw [hout] at he
      cases he
    | run t => exact absurd he (hidle t)
    | stop => exact hs₁
  exact hclosed.2

/-- **The accept chain.**  At most one accept is outstanding; every accepted socket goes to one
service, on which `HandleRequest` is called once; the chain does not break before `Accept` has found
`stopFlag_` set; after `Stop` at most one more socket is handed over; and a closed acceptor
initiates no accept. -/
theorem accept_chain {s : State τ} (h : (machine τ).Runs {} s) :
    s.outstanding.length ≤ 1 ∧
    (s.accepted.Nodup ∧ s.created <+: s.accepted ∧ s.handled <+: s.created ∧
      ((∀ t, s.pc t = .idle) → (∀ p ∈ s.outstanding, p.result = none) →
        s.created = s.accepted ∧ s.handled = s.accepted)) ∧
    (s.started = true → ¬ Observed s → s.outstanding ≠ [] ∨ ∃ t, (s.pc t).Busy) ∧
    (s.stopFlag = true → ∀ s', (machine τ).Runs s s' →
      s'.created.length ≤ s.created.length + 1) ∧
    (0 < s.closed → ∀ s', (machine τ).Runs s s' → s'.initiated = s.initiated) := by
  have hle := (chain h).le_one
  have hledger := ledger h
  refine ⟨by omega, ⟨(numbered h).nodup, ?_, ?_, fun hidle hflight => ?_⟩, unbroken h,
    fun hflag s' h' => created_le_of_stopFlag h hflag h',
    fun hclosed s' h' => initiated_eq_of_closed h hclosed h'⟩
  · by_cases hbusy : ∃ t, (s.pc t).Busy
    · obtain ⟨t, ht⟩ := hbusy
      exact ⟨_, (hledger.busy t ht).1.symm⟩
    · exact ⟨_, (hledger.idle (not_exists.mp hbusy)).1.symm⟩
  · by_cases hbusy : ∃ t, (s.pc t).Busy
    · obtain ⟨t, ht⟩ := hbusy
      exact ⟨_, (hledger.busy t ht).2.symm⟩
    · rw [(hledger.idle (not_exists.mp hbusy)).2]
  · obtain ⟨haccepted, hcreated⟩ := hledger.idle fun t ht => ht (hidle t)
    have hqueued : queued s.outstanding = [] := by
      refine List.flatMap_eq_nil_iff.mpr fun p hp => ?_
      rw [hflight p hp]
    rw [hqueued, List.append_nil] at haccepted
    exact ⟨haccepted.symm, by rw [← hcreated, haccepted]⟩

/-- Two clients; `Stop` comes between the test of the flag for the first and the re-arming. -/
def twoClients : List (Event Unit) :=
  [.start (), .run (), .complete 0 .success, .handle () 0 .success, .run (), .run (), .run (),
    .stop, .run (), .complete 1 .success, .handle () 1 .success, .run (), .run (), .run (), .run ()]

theorem accept_chain_twoClients : ∃ s, (machine Unit).Runs {} s ∧
    s.handled = [0, 1] ∧ s.closed = 1 ∧ s.accepted.Nodup ∧
      ∀ s', (machine Unit).Runs s s' → s'.initiated = s.initiated := by
  obtain ⟨s, hrun, hhandled, hclosed⟩ := Machine.exists_runs_of_exec (m := machine Unit)
    (s := {}) (Q := fun s => s.handled = [0, 1] ∧ s.closed = 1) twoClients (by decide)
  obtain ⟨-, ⟨hnodup, -⟩, -, -, hinitiated⟩ := accept_chain hrun
  exact ⟨s, hrun, hhandled, hclosed, hnodup, hinitiated (by omega)⟩

end AsyncAcceptor

end AsioSamples
