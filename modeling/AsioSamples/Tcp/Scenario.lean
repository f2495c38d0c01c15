import AsioSamples.Machinery.Fairness
import AsioSamples.Tcp.Listener

/-!
# Tcp/Scenario — `ClientServerScenario::SetUp`

`SetUp` starts a thread in `GetSingleClientSocket` and polls its future; between two polls it tries
to connect, until it has.  Anyone else may connect to the port as well.

What `SetUp` comes to is what the thread came to, the text of its call that threw included; and if
nobody else connects the two sockets are the ends of the one connection there is (`sockets_paired`).
It polls without end if the thread is not let go on; but if both get their turn, it comes to its end
(`setUp_ends`).
-/

namespace AsioSamples

namespace ClientServerScenario

open Listener (ServerCall Texts getSingleClientSocket)

/-! ## States and events -/

def backlogSize : ℕ := 10

/-- Where `SetUp` is. -/
inductive Pc
  /-- At `future.wait_for`. -/
  | waitFor
  /-- At `GetConnectedSocket`. -/
  | getConnectedSocket
  /-- At `future.get`. -/
  | get
  /-- At the end of the block, where the thread is joined; `result` is what `future.get` has
  returned or thrown. -/
  | join (result : Except Bytes (Option ℕ))
  | ended (result : Except Bytes (Option ℕ))
  deriving DecidableEq

structure State where
  thread : Listener.State (Option ℕ) := .start getSingleClientSocket
  setUp : Pc := .waitFor
  clientSocket : Option ℕ := none
  deriving DecidableEq

/-- The steps. -/
inductive Event
  /-- A step of the thread; or someone else connects. -/
  | thread (e : Listener.Event)
  | waitFor
  /-- `GetConnectedSocket` returns. -/
  | connected
  /-- It throws, which is caught. -/
  | refused
  | get
  | join (result : Except Bytes (Option ℕ))
  deriving DecidableEq

/-- When a step can be taken. -/
def Enabled (s : State) : Event → Prop
  | .thread e => Listener.Enabled backlogSize s.thread e
  | .waitFor => s.setUp = .waitFor
  | .connected => s.setUp = .getConnectedSocket ∧ Listener.Enabled backlogSize s.thread .connect
  | .refused => s.setUp = .getConnectedSocket
  | .get => s.setUp = .get ∧ s.thread.promise.get ≠ none
  | .join result => s.setUp = .join result ∧ s.thread.pc = .returned

instance (s : State) (e : Event) : Decidable (Enabled s e) :=
  match e with
  | .thread _ => inferInstanceAs (Decidable (Listener.Enabled _ _ _))
  | .waitFor | .refused => inferInstanceAs (Decidable (_ = _))
  | .connected | .get | .join _ => inferInstanceAs (Decidable (_ ∧ _))

/-- Where a step leads. -/
def next (t : Texts) (s : State) : Event → State
  | .thread e => { s with thread := Listener.next t getSingleClientSocket s.thread e }
  | .waitFor =>
    if s.thread.promise.get ≠ none then { s with setUp := .get }
    else if s.clientSocket = none then { s with setUp := .getConnectedSocket }
    else s
  | .connected =>
    { thread := Listener.next t getSingleClientSocket s.thread .connect
      setUp := .waitFor
      clientSocket := some s.thread.made }
  | .refused => { s with setUp := .waitFor }
  | .get =>
    match s.thread.promise.get with
    | some result => { s with setUp := .join result }
    | none => s
  | .join result => { s with setUp := .ended result }

/-- `SetUp`, its thread, and others that connect. -/
def machine (t : Texts) : Machine State Event := ⟨Enabled, next t⟩

instance (t : Texts) (s : State) (e : Event) : Decidable ((machine t).Enabled s e) :=
  inferInstanceAs (Decidable (Enabled s e))

/-! ## What `SetUp` knows -/

variable {t : Texts} {s s' : State} {e : Event}

/-- What `SetUp` knows at each place. -/
def Told (s : State) : Pc → Prop
  | .waitFor => True
  | .getConnectedSocket => s.clientSocket = none
  | .get => s.thread.promise.get ≠ none
  | .join result => s.thread.promise.get = some result
  | .ended result => s.thread.promise.get = some result ∧ s.thread.pc = .returned

structure Inv (t : Texts) (s : State) : Prop where
  thread : Listener.Inv t getSingleClientSocket s.thread
  clientSocket : ∀ k ∈ s.clientSocket, k < s.thread.made
  told : Told s s.setUp

theorem inv_start (t : Texts) : Inv t {} where
  thread := Listener.inv_start t getSingleClientSocket
  clientSocket k hk := absurd hk (Option.not_mem_none k)
  told := trivial

/-- **The thread tells it once**, whatever it does then. -/
theorem told_thread (h : Inv t s) {e : Listener.Event}
    (he : Listener.Enabled backlogSize s.thread e) :
    Told { s with thread := Listener.next t getSingleClientSocket s.thread e } s.setUp := by
  have hstays (hget : s.thread.promise.get ≠ none) :
      (Listener.next t getSingleClientSocket s.thread e).promise = s.thread.promise :=
    Listener.promise_next h.thread he fun hpending => hget (by rw [hpending]; rfl)
  have htold := h.told
  cases hpc : s.setUp with
  | waitFor => trivial
  | getConnectedSocket =>
    rw [hpc] at htold
    exact htold
  | get =>
    rw [hpc] at htold
    simpa only [Told, hstays htold] using htold
  | join result =>
    rw [hpc] at htold
    have hsome : s.thread.promise.get = some result := htold
    have hsame := hstays (by rw [hsome]; exact Option.some_ne_none result)
    simpa only [Told, hsame] using hsome
  | ended result =>
    rw [hpc] at htold
    exact absurd he (Listener.not_enabled_of_returned h.thread htold.2)

theorem inv_next (h : Inv t s) (he : Enabled s e) : Inv t (next t s e) := by
  have htold := h.told
  cases e with
  | thread e =>
    refine ⟨Listener.inv_next h.thread he, fun k hk => ?_, told_thread h he⟩
    exact (h.clientSocket k hk).trans_le (Listener.made_le_next e)
  | waitFor =>
    simp only [next]
    split
    next hget => exact ⟨h.thread, h.clientSocket, hget⟩
    · split
      next hnone => exact ⟨h.thread, h.clientSocket, hnone⟩
      · exact h
  | connected =>
    refine ⟨Listener.inv_next h.thread he.2, fun k hk => ?_, trivial⟩
    obtain rfl := Option.some.inj hk
    exact Nat.lt_succ_self _
  | refused => exact ⟨h.thread, h.clientSocket, trivial⟩
  | get =>
    simp only [next]
    cases hget : s.thread.promise.get with
    | some result => exact ⟨h.thread, h.clientSocket, hget⟩
    | none => exact absurd hget he.2
  | join result =>
    rw [he.1] at htold
    exact ⟨h.thread, h.clientSocket, htold, he.2⟩

theorem inv (h : (machine t).Runs {} s) : Inv t s :=
  h.invariant (inv_start t) fun _ _ _ hs he => inv_next hs he

/-- **The run of the thread.** -/
theorem thread_runs (h : (machine t).Runs {} s) :
    (Listener.machine t getSingleClientSocket backlogSize).Runs (.start getSingleClientSocket)
      s.thread := by
  refine h.project (f := State.thread) fun s' e he => ?_
  cases e with
  | thread e => exact .single he
  | connected => exact .single (e := Listener.Event.connect) he.2
  | refused | join _ => exact .start
  | waitFor =>
    simp only [machine, next]
    split
    · exact .start
    · split <;> exact .start
  | get =>
    simp only [machine, next]
    split <;> exact .start

/-! ## The two sockets -/

/-- **No exception leaves the thread.** -/
theorem not_terminated (h : Inv t s) : s.thread.pc ≠ .terminated := by
  intro hpc
  have hplace := h.thread.place
  rw [hpc] at hplace
  obtain ⟨-, before, what, hset, c, after, ec, hcalls, -⟩ := hplace
  exact Listener.not_mem_of_getSingleClientSocket hcalls hset

/-- What `SetUp` may come to: an end of the first connection, or the text of the thread's call that
threw. -/
def Outcome (t : Texts) (s : State) (result : Except Bytes (Option ℕ)) : Prop :=
  result = .ok (some 0) ∧ s.thread.socket = some 0 ∧ 0 < s.thread.made ∨
    ∃ what before c, result = .error what ∧
      Listener.Threw t getSingleClientSocket backlogSize s.thread before c what

/-- **`SetUp` comes to what the thread came to.** -/
theorem outcome_of_ended (h : (machine t).Runs {} s) {result : Except Bytes (Option ℕ)}
    (hended : s.setUp = .ended result) : s.thread.pc = .returned ∧ Outcome t s result := by
  have htold := (inv h).told
  rw [hended] at htold
  obtain ⟨hget, hpc⟩ := htold
  refine ⟨hpc, ?_⟩
  have hplace := (inv h).thread.place
  rw [hpc] at hplace
  rcases hplace with ⟨hpromise, hsocket, hmade⟩ | ⟨_, what, -, -, hpromise⟩
  · rw [hpromise] at hget
    exact .inl ⟨(Option.some.inj hget).symm, hsocket, hmade⟩
  · obtain ⟨before, c, hthrew, -⟩ := (Listener.blamed (thread_runs h)).told what hpromise
    rw [hpromise] at hget
    exact .inr ⟨what, before, c, (Option.some.inj hget).symm, hthrew⟩

/-- Nobody else connects. -/
def Alone (_ : State) (e : Event) : Prop := e ≠ .thread .connect

instance (s : State) (e : Event) : Decidable (Alone s e) := inferInstanceAs (Decidable (¬ _))

/-- The connections are those of `SetUp`, which makes one. -/
def Single (s : State) : Prop :=
  s.clientSocket = none ∧ s.thread.made = 0 ∨ s.clientSocket = some 0 ∧ s.thread.made = 1

theorem single_next (h : Inv t s) (hsingle : Single s) (he : Enabled s e) (halone : Alone s e) :
    Single (next t s e) := by
  cases e with
  | thread e =>
    have hmade : (Listener.next t getSingleClientSocket s.thread e).made = s.thread.made :=
      Listener.made_next fun hconnect => halone (congrArg Event.thread hconnect)
    simpa only [Single, next, hmade] using hsingle
  | waitFor =>
    simp only [next]
    split
    · exact hsingle
    · split <;> exact hsingle
  | connected =>
    have htold := h.told
    rw [he.1] at htold
    have hnone : s.clientSocket = none := htold
    have hmade : s.thread.made = 0 := by simpa [Single, hnone] using hsingle
    exact .inr ⟨congrArg some hmade, congrArg (· + 1) hmade⟩
  | refused => exact hsingle
  | get =>
    simp only [next]
    cases s.thread.promise.get <;> exact hsingle
  | join result => exact hsingle

theorem single (h : ((machine t).restrict Alone).Runs {} s) : Single s :=
  h.invariant (.inl ⟨rfl, rfl⟩) fun _ _ hs' hsingle he =>
    single_next (inv hs'.of_restrict) hsingle he.1 he.2

/-- **The sockets are paired.**  Whatever fails and whoever connects, no exception leaves the thread,
and `SetUp` ends behind it: `serverSocket` is an end of the first connection, or it throws the text
of the call that threw in the thread.  If nobody else connects, then `SetUp` makes one connection at
most, and where it returns `clientSocket` is the other end. -/
theorem sockets_paired (h : (machine t).Runs {} s) :
    s.thread.pc ≠ .terminated ∧
    (∀ result, s.setUp = .ended result → s.thread.pc = .returned ∧ Outcome t s result) ∧
    (((machine t).restrict Alone).Runs {} s → s.thread.made ≤ 1 ∧
      ∀ serverSocket, s.setUp = .ended (.ok serverSocket) →
        serverSocket = some 0 ∧ s.clientSocket = some 0) := by
  refine ⟨not_terminated (inv h), fun _ => outcome_of_ended h, fun halone => ⟨?_, ?_⟩⟩
  · rcases single halone with ⟨-, hmade⟩ | ⟨-, hmade⟩ <;> omega
  · intro serverSocket hended
    obtain ⟨-, ⟨hresult, -, hmade⟩ | ⟨_, _, _, herror, -⟩⟩ := outcome_of_ended h hended
    · rcases single halone with ⟨-, hnone⟩ | ⟨hclient, -⟩
      · omega
      · exact ⟨Except.ok.inj hresult, hclient⟩
    · cases herror

/-- Texts with little in them. -/
def sampleTexts : Texts where
  message _ := bytes "in use"
  what _ _ := []

/-- `SetUp` is refused before the thread listens, connects when it does, and is accepted. -/
def sampleEvents : List Event :=
  [.waitFor, .refused] ++ List.replicate 4 (.thread (.call .success)) ++ [.waitFor, .connected]
    ++ List.replicate 2 (.thread (.call .success))
    ++ [.waitFor, .get, .thread .leave, .join (.ok (some 0))]

theorem sockets_paired_sampleEvents : ∃ s, ((machine sampleTexts).restrict Alone).Runs {} s ∧
    s.setUp = .ended (.ok (some 0)) ∧ Outcome sampleTexts s (.ok (some 0)) ∧
      s.clientSocket = some 0 := by
  obtain ⟨s, hruns, hended⟩ := Machine.exists_runs_of_exec
    (m := (machine sampleTexts).restrict Alone) (s := {})
    (Q := fun s => s.setUp = .ended (.ok (some 0))) sampleEvents (by decide +kernel)
  obtain ⟨-, hall, halone⟩ := sockets_paired hruns.of_restrict
  exact ⟨s, hruns, hended, (hall _ hended).2, ((halone hruns).2 _ hended).2⟩

/-- Someone else connects first: `SetUp` returns, and `clientSocket` is still null. -/
example : ((machine sampleTexts).exec {}
    (List.replicate 4 (.thread (.call .success)) ++ [.thread .connect]
      ++ List.replicate 2 (.thread (.call .success))
      ++ [.waitFor, .get, .thread .leave, .join (.ok (some 0))])).any (fun s =>
    decide (s.setUp = .ended (.ok (some 0)) ∧ s.clientSocket = none)) = true := by decide +kernel

/-! ## `SetUp` ends -/

/-- A connection to an acceptor that listens, with room in its line, is not refused. -/
def Loopback (s : State) (e : Event) : Prop :=
  e = .refused → ¬ Listener.Enabled backlogSize s.thread .connect

instance (s : State) (e : Event) : Decidable (Loopback s e) :=
  inferInstanceAs (Decidable (_ → _))

/-- The two threads. -/
inductive Party
  | setUp
  | thread
  deriving DecidableEq

/-- Whose step it is.  That a call throws is nobody's, nor that someone else connects. -/
def Event.party : Event → Option Party
  | .thread (.call ec) => if ec.value = 0 then some .thread else none
  | .thread .leave | .thread (.setException _) => some .thread
  | .thread .connect => none
  | .waitFor | .connected | .refused | .get | .join _ => some .setUp

/-- The step is one of `p`. -/
def Party.Mine (p : Party) (e : Event) : Prop := e.party = some p

/-- The steps to the end, once the thread has come to its own. -/
def Pc.steps : Pc → ℕ
  | getConnectedSocket => 4
  | waitFor => 3
  | get => 2
  | join _ => 1
  | ended _ => 0

/-- What `SetUp` has to do next: to connect as long as the thread waits for that, and to end once the
thread has. -/
def State.setUpSteps (s : State) : ℕ :=
  if s.thread.Waits then if s.setUp = .getConnectedSocket then 1 else 2
  else if s.thread.pc.steps = 0 then s.setUp.steps else 0

def State.turn (s : State) : Party :=
  if s.thread.Waits ∨ s.thread.pc.steps = 0 then .setUp else .thread

def State.variant (s : State) : ℕ := 5 * s.thread.pc.steps + s.setUpSteps

theorem setUpSteps_le (s : State) : s.setUpSteps ≤ 4 := by
  unfold State.setUpSteps
  split
  · split <;> omega
  · split
    · cases s.setUp <;> simp [Pc.steps]
    · omega

theorem turn_of_waiting (h : s.thread.Waits ∨ s.thread.pc.steps = 0) : s.turn = .setUp := if_pos h

theorem turn_of_not_waiting (h : ¬ (s.thread.Waits ∨ s.thread.pc.steps = 0)) :
    s.turn = .thread := if_neg h

section Waiting

variable (h : Inv t s)

include h

/-- **A thread that waits to be connected to has told nothing**, and `SetUp` is not connected. -/
theorem none_of_waits (hwaits : s.thread.Waits) :
    s.thread.promise.get = none ∧ s.clientSocket = none := by
  have hmade := (Listener.made_of_waits h.thread hwaits).2
  constructor
  · obtain ⟨before, after, htried⟩ := Listener.tried_of_waits h.thread hwaits
    have hnot := Listener.not_mem_of_getSingleClientSocket htried.calls
    rw [Listener.Promise.get_eq_none_iff, htried.promise]
    exact if_neg hnot
  · refine Option.eq_none_iff_forall_not_mem.mpr fun k hk => ?_
    have hlt := h.clientSocket k hk
    omega

/-- **A thread at its end has returned**, and told what there is to tell. -/
theorem returned_of_steps (hsteps : s.thread.pc.steps = 0) :
    s.thread.pc = .returned ∧ s.thread.promise.get ≠ none := by
  have hplace := h.thread.place
  cases hpc : s.thread.pc with
  | inTry left =>
    rw [hpc] at hsteps
    cases hsteps
  | inCatch what =>
    rw [hpc] at hsteps
    cases hsteps
  | terminated => exact absurd hpc (not_terminated h)
  | returned =>
    rw [hpc] at hplace
    refine ⟨rfl, ?_⟩
    rw [ne_eq, Listener.Promise.get_eq_none_iff]
    rcases hplace with ⟨hpromise, -⟩ | ⟨_, _, -, -, hpromise⟩ <;> simp [hpromise]

/-- The acceptor that a thread waits at has room in its line. -/
theorem connect_enabled_of_waits (hwaits : s.thread.Waits) :
    Listener.Enabled backlogSize s.thread .connect := by
  refine ⟨(Listener.made_of_waits h.thread hwaits).1, ?_⟩
  rw [hwaits.2]
  decide

/-- **Who is in turn can go on.** -/
theorem exists_mine (hended : ∀ result, s.setUp ≠ .ended result) :
    ∃ e, s.turn.Mine e ∧ ((machine t).restrict Loopback).Enabled s e := by
  have htold := h.told
  by_cases hwaiting : s.thread.Waits ∨ s.thread.pc.steps = 0
  · rw [turn_of_waiting hwaiting]
    cases hpc : s.setUp with
    | waitFor => exact ⟨.waitFor, rfl, hpc, fun heq => by cases heq⟩
    | getConnectedSocket =>
      by_cases hconnect : Listener.Enabled backlogSize s.thread .connect
      · exact ⟨.connected, rfl, ⟨hpc, hconnect⟩, fun heq => by cases heq⟩
      · exact ⟨.refused, rfl, hpc, fun _ => hconnect⟩
    | get =>
      rw [hpc] at htold
      exact ⟨.get, rfl, ⟨hpc, htold⟩, fun heq => by cases heq⟩
    | join result =>
      rw [hpc] at htold
      have hreturned : s.thread.pc = .returned := by
        rcases hwaiting with hwaits | hsteps
        · cases htold.symm.trans (none_of_waits h hwaits).1
        · exact (returned_of_steps h hsteps).1
      exact ⟨.join result, rfl, ⟨hpc, hreturned⟩, fun heq => by cases heq⟩
    | ended result => exact absurd hpc (hended result)
  · rw [turn_of_not_waiting hwaiting]
    rw [not_or] at hwaiting
    rcases Listener.exists_enabled backlogSize hwaiting.2 hwaiting.1 with he | he | ⟨what, he⟩
    · exact ⟨.thread (.call .success), rfl, he, fun heq => by cases heq⟩
    · exact ⟨.thread .leave, rfl, he, fun heq => by cases heq⟩
    · exact ⟨.thread (.setException what), rfl, he, fun heq => by cases heq⟩

/-- **To be connected to is what a thread waits for**; another one does not care. -/
theorem variant_connect (he : Listener.Enabled backlogSize s.thread .connect)
    (hthread : s'.thread = Listener.next t getSingleClientSocket s.thread .connect) :
    s'.variant < s.variant ∨ s'.variant = s.variant ∧ s'.turn = s.turn ∧ s.turn = .thread := by
  have hsteps := Listener.steps_of_listening h.thread he.1
  have hwaits : ¬ s'.thread.Waits := fun hwaits => by
    simpa [hthread, Listener.next] using hwaits.2
  have hsteps' : s'.thread.pc.steps = s.thread.pc.steps := by
    rw [hthread]
    rfl
  have hvariant : s'.variant = 5 * s.thread.pc.steps := by
    rw [State.variant, State.setUpSteps, if_neg hwaits, hsteps', if_neg hsteps, Nat.add_zero]
  by_cases hwaited : s.thread.Waits
  · left
    rw [hvariant, State.variant, State.setUpSteps, if_pos hwaited]
    split <;> omega
  · right
    have hturn := turn_of_not_waiting (not_or.mpr ⟨hwaited, hsteps⟩)
    refine ⟨?_, ?_, hturn⟩
    · rw [hvariant, State.variant, State.setUpSteps, if_neg hwaited, if_neg hsteps, Nat.add_zero]
    · rw [hturn, turn_of_not_waiting (not_or.mpr ⟨hwaits, hsteps' ▸ hsteps⟩)]

end Waiting

/-- **The thread goes on** with every step. -/
theorem variant_thread {e : Listener.Event} (he : Listener.Enabled backlogSize s.thread e)
    (hconnect : e ≠ .connect) : (next t s (.thread e)).variant < s.variant := by
  have hlt := Listener.steps_next (t := t) (b := getSingleClientSocket) he hconnect
  have hle := setUpSteps_le (next t s (.thread e))
  simp only [State.variant, next] at hle ⊢
  omega

/-- **A step of `SetUp` goes on** if it is in turn. -/
theorem variant_setUp {setUp : Pc} (hparty : e.party = some .setUp)
    (hwaits : s.thread.Waits → s.setUp ≠ .getConnectedSocket ∧ setUp = .getConnectedSocket)
    (hsteps : s.thread.pc.steps = 0 → setUp.steps < s.setUp.steps) :
    { s with setUp }.variant < s.variant ∨
      { s with setUp }.variant = s.variant ∧ { s with setUp }.turn = s.turn ∧
        ¬ s.turn.Mine e := by
  by_cases hwaiting : s.thread.Waits ∨ s.thread.pc.steps = 0
  · left
    simp only [State.variant, State.setUpSteps]
    split
    next hw => simp [hwaits hw]
    next hw =>
      have hzero := hwaiting.resolve_left hw
      have hlt := hsteps hzero
      rw [if_pos hzero, if_pos hzero]
      omega
  · right
    have hturn := turn_of_not_waiting hwaiting
    refine ⟨?_, hturn.symm ▸ turn_of_not_waiting hwaiting, by simp [hturn, Party.Mine, hparty]⟩
    rw [not_or] at hwaiting
    simp [State.variant, State.setUpSteps, hwaiting]

/-- **Every step goes on, or leaves the turn alone.** -/
theorem variant_next (h : Inv t s) (he : ((machine t).restrict Loopback).Enabled s e) :
    (∃ result, (next t s e).setUp = .ended result) ∨ (next t s e).variant < s.variant ∨
      (next t s e).variant = s.variant ∧ (next t s e).turn = s.turn ∧ ¬ s.turn.Mine e := by
  obtain ⟨he, hloopback⟩ := he
  cases e with
  | thread e =>
    right
    by_cases hconnect : e = .connect
    · subst hconnect
      refine (variant_connect h he rfl).imp_right fun ⟨hvariant, hturn, _⟩ => ?_
      exact ⟨hvariant, hturn, by simp [Party.Mine, Event.party]⟩
    · exact .inl (variant_thread he hconnect)
  | waitFor =>
    right
    have hpc : s.setUp = .waitFor := he
    have htold (hsteps : s.thread.pc.steps = 0) := (returned_of_steps h hsteps).2
    simp only [next]
    split
    next hget =>
      refine variant_setUp rfl (fun hwaits => ?_) fun _ => by simp [hpc, Pc.steps]
      exact absurd (none_of_waits h hwaits).1 hget
    next hget =>
      split
      next hnone =>
        exact variant_setUp rfl (fun _ => by simp [hpc]) fun hsteps => absurd (htold hsteps) hget
      next hsome =>
        refine variant_setUp (s := s) rfl (fun hwaits => ?_) fun hsteps => absurd (htold hsteps) hget
        exact absurd (none_of_waits h hwaits).2 hsome
  | connected =>
    right
    refine (variant_connect h he.2 rfl).imp_right fun ⟨hvariant, hturn, hthread⟩ => ?_
    exact ⟨hvariant, hturn, by simp [hthread, Party.Mine, Event.party]⟩
  | refused =>
    have hpc : s.setUp = .getConnectedSocket := he
    refine .inr (variant_setUp rfl (fun hwaits => ?_) fun _ => by simp [hpc, Pc.steps])
    exact absurd (connect_enabled_of_waits h hwaits) (hloopback rfl)
  | get =>
    right
    simp only [next]
    cases hget : s.thread.promise.get with
    | some result =>
      refine variant_setUp rfl (fun hwaits => ?_) fun _ => by simp [he.1, Pc.steps]
      exact absurd (none_of_waits h hwaits).1 he.2
    | none => exact absurd hget he.2
  | join result => exact .inl ⟨result, rfl⟩

/-- How `SetUp` comes to its end. -/
def progress (t : Texts) : ((machine t).restrict Loopback).Progress Party.Mine
    (fun s => ∃ result, s.setUp = .ended result) (Inv t) where
  turn := State.turn
  variant := State.variant
  exists_enabled _ h hended := exists_mine h fun result hresult => hended ⟨result, hresult⟩
  step _ _ h _ he := variant_next h he

/-- **`SetUp` ends**, whatever the thread's calls come to and whoever else connects, if both threads
get their turn and a connection that the acceptor has room for is not refused. -/
theorem setUp_ends {c : ((machine t).restrict Loopback).Course} (hstart : c.state 0 = {})
    (hfair : ∀ p : Party, c.Fair p.Mine) :
    ∃ n result, (c.state n).setUp = .ended result ∧ Outcome t (c.state n) result := by
  have hinv (n : ℕ) : Inv t (c.state n) := inv (hstart ▸ (c.runs n).of_restrict)
  obtain ⟨n, result, hended⟩ := (progress t).exists_goal_of_fair hinv hfair
  have hruns := hstart ▸ (c.runs n).of_restrict
  exact ⟨n, result, hended, (outcome_of_ended hruns hended).2⟩

/-- Behind its end there is nothing. -/
theorem stuck_of_ended (h : (machine t).Runs {} s) {result : Except Bytes (Option ℕ)}
    (hended : s.setUp = .ended result) : ((machine t).restrict Loopback).Stuck s := by
  rintro e ⟨he, -⟩
  cases e with
  | thread e =>
    exact Listener.not_enabled_of_returned (inv h).thread (outcome_of_ended h hended).1 he
  | waitFor | refused => cases hended.symm.trans he
  | connected | get | join _ => cases hended.symm.trans he.1

theorem setUp_ends_sampleEvents :
    ∃ c : ((machine sampleTexts).restrict Loopback).Course, c.state 0 = {} ∧
      (c.state 14).setUp = .ended (.ok (some 0)) ∧
      ∃ n result, (c.state n).setUp = .ended result ∧ Outcome sampleTexts (c.state n) result := by
  obtain ⟨c, hstart, s, hended, hstays⟩ := Machine.exists_course_of_exec
    (m := (machine sampleTexts).restrict Loopback) (s := {})
    (Q := fun s => s.setUp = .ended (.ok (some 0))) sampleEvents (by decide +kernel)
  have hstuck : ∀ k ≥ sampleEvents.length,
      ((machine sampleTexts).restrict Loopback).Stuck (c.state k) := fun k hk => by
    have hruns := hstart ▸ (c.runs k).of_restrict
    exact stuck_of_ended hruns (by rw [hstays k hk, hended])
  refine ⟨c, hstart, by rw [hstays 14 le_rfl, hended], ?_⟩
  exact setUp_ends hstart fun p => c.fair_of_stuck hstuck p.Mine

end ClientServerScenario

end AsioSamples
