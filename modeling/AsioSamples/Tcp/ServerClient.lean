import AsioSamples.Tcp.Listener

/-!
# Tcp/ServerClient — `RunServer` and `RunClient`

The test of the two waits for the promise of `RunServer` and then lets `RunClient` connect.  By then
the server listens, so if nobody else connects nothing but a failure of its `accept` can have the
client refused (`connect_enabled_or_failed`), and if no call of the server fails the test passes
(`test_passes`).  The value of the promise is no more than that, and what goes wrong behind it has
nobody to be told to: an `accept` that throws ends the process, and a client that does not connect
leaves the test waiting for the server (`test_ends`).
-/

namespace AsioSamples

namespace ServerClient

open Listener (ServerCall Texts runServer)

/-! ## States and events -/

def backlogSize : ℕ := 10

/-- Where the test is. -/
inductive Pc
  /-- At `future.get`. -/
  | get
  /-- `RunClient` is at `connect`, in a thread that the test joins. -/
  | runClient
  /-- At the end of the block, where the thread of `RunServer` is joined; `thrown` is what
  `future.get` has thrown. -/
  | join (thrown : Option Bytes)
  | ended (thrown : Option Bytes)
  deriving DecidableEq

structure State where
  thread : Listener.State Bool := .start runServer
  test : Pc := .get
  /-- The connection that `RunClient` has made. -/
  client : Option ℕ := none
  deriving DecidableEq

/-- The steps. -/
inductive Event
  /-- A step of the thread; or someone else connects. -/
  | thread (e : Listener.Event)
  | get
  | connected
  /-- The `connect` of `RunClient` throws, and the text is printed. -/
  | refused
  | join (thrown : Option Bytes)
  deriving DecidableEq

/-- Is there someone to take a step? -/
def Ready (s : State) : Event → Prop
  | .thread e => Listener.Enabled backlogSize s.thread e
  | .get => s.test = .get ∧ s.thread.promise.get ≠ none
  | .connected => s.test = .runClient ∧ Listener.Enabled backlogSize s.thread .connect
  | .refused => s.test = .runClient
  | .join thrown => s.test = .join thrown ∧ s.thread.pc = .returned

instance (s : State) (e : Event) : Decidable (Ready s e) :=
  match e with
  | .thread _ => inferInstanceAs (Decidable (Listener.Enabled _ _ _))
  | .get | .connected | .join _ => inferInstanceAs (Decidable (_ ∧ _))
  | .refused => inferInstanceAs (Decidable (_ = _))

/-- When a step can be taken: as long as the process lives. -/
def Enabled (s : State) (e : Event) : Prop := s.thread.pc ≠ .terminated ∧ Ready s e

instance (s : State) (e : Event) : Decidable (Enabled s e) := inferInstanceAs (Decidable (_ ∧ _))

/-- Where a step leads. -/
def next (t : Texts) (s : State) : Event → State
  | .thread e => { s with thread := Listener.next t runServer s.thread e }
  | .get =>
    match s.thread.promise.get with
    | some (.ok _) => { s with test := .runClient }
    | some (.error what) => { s with test := .join (some what) }
    | none => s
  | .connected =>
    { thread := Listener.next t runServer s.thread .connect
      test := .join none
      client := some s.thread.made }
  | .refused => { s with test := .join none }
  | .join thrown => { s with test := .ended thrown }

/-- The test, the thread of `RunServer`, and others that connect. -/
def machine (t : Texts) : Machine State Event := ⟨Enabled, next t⟩

instance (t : Texts) (s : State) (e : Event) : Decidable ((machine t).Enabled s e) :=
  inferInstanceAs (Decidable (Enabled s e))

/-! ## What the test knows -/

variable {t : Texts} {s s' : State} {e : Event}

/-- What `future.get` has come to. -/
def outcome : Option Bytes → Except Bytes Bool
  | none => .ok true
  | some what => .error what

theorem outcome_injective : Function.Injective outcome := by
  rintro (_ | what) (_ | what') h <;> cases h <;> rfl

/-- What the test knows at each place. -/
def Told (s : State) : Pc → Prop
  | .get => True
  | .runClient => s.thread.promise.get = some (outcome none)
  | .join thrown => s.thread.promise.get = some (outcome thrown)
  | .ended thrown => s.thread.promise.get = some (outcome thrown) ∧ s.thread.pc = .returned

structure Inv (t : Texts) (s : State) : Prop where
  thread : Listener.Inv t runServer s.thread
  told : Told s s.test
  client : ∀ k ∈ s.client, k < s.thread.made

theorem inv_start (t : Texts) : Inv t {} where
  thread := Listener.inv_start t runServer
  told := trivial
  client k hk := absurd hk (Option.not_mem_none k)

/-- The value of the promise is `true`. -/
theorem outcome_of_get (h : Inv t s) {b : Bool} (hget : s.thread.promise.get = some (.ok b)) :
    b = true := by
  cases hpromise : s.thread.promise with
  | pending | exception what =>
    rw [hpromise] at hget
    cases hget
  | value a =>
    rw [hpromise] at hget
    obtain rfl := Except.ok.inj (Option.some.inj hget)
    exact Listener.value_eq_set h.thread hpromise

theorem told_thread (h : Inv t s) {e : Listener.Event}
    (he : Listener.Enabled backlogSize s.thread e) :
    Told { s with thread := Listener.next t runServer s.thread e } s.test := by
  have hstays {result : Except Bytes Bool} (hget : s.thread.promise.get = some result) :
      (Listener.next t runServer s.thread e).promise.get = some result := by
    have hpending : s.thread.promise ≠ .pending := fun hp => by
      rw [hp] at hget
      cases hget
    rw [Listener.promise_next h.thread he hpending, hget]
  have htold := h.told
  cases hpc : s.test with
  | get => trivial
  | runClient | join thrown =>
    rw [hpc] at htold
    exact hstays htold
  | ended thrown =>
    rw [hpc] at htold
    exact absurd he (Listener.not_enabled_of_returned h.thread htold.2)

theorem inv_next (h : Inv t s) (he : Enabled s e) : Inv t (next t s e) := by
  obtain ⟨-, he⟩ := he
  have htold := h.told
  cases e with
  | thread e =>
    refine ⟨Listener.inv_next h.thread he, told_thread h he, fun k hk => ?_⟩
    exact (h.client k hk).trans_le (Listener.made_le_next e)
  | get =>
    simp only [next]
    split
    next b hget =>
      obtain rfl := outcome_of_get h hget
      exact ⟨h.thread, hget, h.client⟩
    next what hget => exact ⟨h.thread, hget, h.client⟩
    next hget => exact absurd hget he.2
  | connected =>
    rw [he.1] at htold
    refine ⟨Listener.inv_next h.thread he.2, htold, fun k hk => ?_⟩
    obtain rfl := Option.some.inj hk
    exact Nat.lt_succ_self _
  | refused =>
    rw [show s.test = .runClient from he] at htold
    exact ⟨h.thread, htold, h.client⟩
  | join thrown =>
    rw [he.1] at htold
    exact ⟨h.thread, ⟨htold, he.2⟩, h.client⟩

theorem inv (h : (machine t).Runs {} s) : Inv t s :=
  h.invariant (inv_start t) fun _ _ _ hs he => inv_next hs he

/-- **The run of the thread.** -/
theorem thread_runs (h : (machine t).Runs {} s) :
    (Listener.machine t runServer backlogSize).Runs (.start runServer) s.thread := by
  refine h.project (f := State.thread) fun s' e he => ?_
  cases e with
  | thread e => exact .single he.2
  | connected => exact .single (e := Listener.Event.connect) he.2.2
  | refused | join _ => exact .start
  | get =>
    simp only [machine, next]
    split <;> exact .start

/-! ## Nobody but `RunClient` connects -/

/-- Nobody else connects. -/
def Alone (_ : State) (e : Event) : Prop := e ≠ .thread .connect

instance (s : State) (e : Event) : Decidable (Alone s e) := inferInstanceAs (Decidable (¬ _))

/-- The connections are those of `RunClient`, which makes one. -/
def Single (s : State) : Prop :=
  s.client = none ∧ s.thread.made = 0 ∨
    s.client = some 0 ∧ s.thread.made = 1 ∧ s.test ≠ .get ∧ s.test ≠ .runClient

/-- Before `connect` there is no connection. -/
theorem Single.made_eq_zero (h : Single s) (htest : s.test = .get ∨ s.test = .runClient) :
    s.client = none ∧ s.thread.made = 0 := by
  rcases h with hnone | ⟨-, -, hget, hrun⟩
  · exact hnone
  · exact (htest.elim hget hrun).elim

theorem single_next (h : Single s) (he : Enabled s e) (halone : Alone s e) :
    Single (next t s e) := by
  obtain ⟨-, he⟩ := he
  cases e with
  | thread e =>
    have hmade : (Listener.next t runServer s.thread e).made = s.thread.made :=
      Listener.made_next fun hconnect => halone (congrArg Event.thread hconnect)
    simpa only [Single, next, hmade] using h
  | get =>
    have hnone := h.made_eq_zero (.inl he.1)
    simp only [next]
    split
    · exact .inl hnone
    · exact .inl hnone
    · exact h
  | connected =>
    obtain ⟨-, hmade⟩ := h.made_eq_zero (.inr he.1)
    exact .inr ⟨congrArg some hmade, congrArg (· + 1) hmade, by simp [next], by simp [next]⟩
  | refused => exact .inl (h.made_eq_zero (.inr he))
  | join thrown =>
    exact h.imp_right fun ⟨hclient, hmade, _⟩ => ⟨hclient, hmade, by simp [next], by simp [next]⟩

theorem single (h : ((machine t).restrict Alone).Runs {} s) : Single s :=
  h.invariant (.inl ⟨rfl, rfl⟩) fun _ _ _ hsingle he => single_next hsingle he.1 he.2

/-! ## The client finds the server listening -/

/-- `accept` has thrown. -/
def AcceptFailed (t : Texts) (s : State) : Prop :=
  s.thread.pc = .terminated ∨
    ∃ ec : ErrorCode, ec.value ≠ 0 ∧ s.thread.pc = .inCatch (t.what .accept ec)

/-- **The client is not refused**, except where the `accept` of the server has failed. -/
theorem connect_enabled_or_failed (h : Inv t s) (hsingle : Single s) (htest : s.test = .runClient) :
    Listener.Enabled backlogSize s.thread .connect ∨ AcceptFailed t s := by
  have hmade := (hsingle.made_eq_zero (.inr htest)).2
  have htold := h.told
  rw [htest] at htold
  have hset {before : List ServerCall} (hpromise : s.thread.promise = runServer.promise before) :
      .setValue ∈ before := by
    by_contra hnot
    rw [Told, hpromise, Listener.Body.promise, if_neg hnot] at htold
    cases htold
  have hplace := h.thread.place
  cases hpc : s.thread.pc with
  | inTry left =>
    rw [hpc] at hplace
    obtain ⟨before, htried⟩ := hplace
    have hlisten := Listener.listen_mem_of_runServer htried.calls (hset htried.promise)
    refine .inl ⟨htried.listening.mpr hlisten, ?_⟩
    have hbacklog := htried.backlog fun haccept => (htried.made haccept).ne' hmade
    rw [hbacklog, hmade]
    decide
  | inCatch what =>
    rw [hpc] at hplace
    obtain ⟨before, hthrows, hpromise⟩ := hplace
    obtain ⟨ec, hec, rfl⟩ := Listener.accept_of_runServer hthrows (hset hpromise)
    exact .inr (.inr ⟨ec, hec, hpc⟩)
  | returned =>
    rw [hpc] at hplace
    rcases hplace with ⟨-, -, hpos⟩ | ⟨_, _, -, -, hpromise⟩
    · exact absurd hmade hpos.ne'
    · rw [Told, hpromise] at htold
      cases htold
  | terminated => exact .inr (.inl hpc)

/-! ## The test ends -/

/-- The steps that the test has still to take. -/
def Pc.steps : Pc → ℕ
  | get => 3
  | runClient => 2
  | join _ => 1
  | ended _ => 0

theorem terminates (s : State) : (machine t).Terminates s := by
  refine Machine.terminates_of_variant
    (fun s => s.thread.variant backlogSize + s.test.steps) ?_
  rintro s e - ⟨-, he⟩
  cases e with
  | thread e =>
    have hlt := Listener.variant_next (t := t) (b := runServer) he
    simp only [machine, next]
    omega
  | get =>
    simp only [machine, next]
    split
    next => simp [he.1, Pc.steps]
    next => simp [he.1, Pc.steps]
    next hget => exact absurd hget he.2
  | connected =>
    have hlt := Listener.variant_next (t := t) (b := runServer) he.2
    simp only [machine, next, he.1, Pc.steps]
    omega
  | refused => simp [machine, next, show s.test = .runClient from he, Pc.steps]
  | join thrown => simp [machine, next, he.1, Pc.steps]

/-- A thread that cannot go on waits in `accept`, or has returned. -/
theorem waits_or_returned (hpc : s.thread.pc ≠ .terminated)
    (hstuck : ∀ e : Listener.Event, e ≠ .connect → (∀ ec, e = .call ec → ec.value = 0) →
      ¬ Listener.Enabled backlogSize s.thread e) :
    s.thread.Waits ∨ s.thread.pc = .returned := by
  by_contra hnot
  rw [not_or] at hnot
  have hsteps : s.thread.pc.steps ≠ 0 := fun hzero => by
    cases hplace : s.thread.pc with
    | returned => exact hnot.2 hplace
    | terminated => exact hpc hplace
    | inTry _ | inCatch _ =>
      rw [hplace] at hzero
      cases hzero
  rcases Listener.exists_enabled backlogSize hsteps hnot.1 with he | he | ⟨what, he⟩
  · exact hstuck (.call .success) (by simp) (fun ec hec => by cases hec; rfl) he
  · exact hstuck .leave (by simp) (fun ec hec => by cases hec) he
  · exact hstuck (.setException what) (by simp) (fun ec hec => by cases hec) he

section AtRest

variable (h : Inv t s)

include h

/-- When `RunServer` waits it has set the value, and nobody has connected. -/
theorem told_of_waits (hwaits : s.thread.Waits) :
    s.thread.promise.get = some (outcome none) ∧ s.client = none := by
  have hmade := (Listener.made_of_waits h.thread hwaits).2
  obtain ⟨before, after, htried⟩ := Listener.tried_of_waits h.thread hwaits
  constructor
  · rw [htried.promise, Listener.Body.promise,
      if_pos (Listener.setValue_mem_of_runServer htried.calls)]
    rfl
  · refine Option.eq_none_iff_forall_not_mem.mpr fun k hk => ?_
    have hlt := h.client k hk
    omega

/-- What `RunServer` has told when it has returned. -/
theorem told_of_returned (hreturned : s.thread.pc = .returned) :
    (s.thread.promise.get = some (outcome none) ∧ s.thread.socket = some 0 ∧ 0 < s.thread.made) ∨
      ∃ what, s.thread.promise = .exception what := by
  have hplace := h.thread.place
  rw [hreturned] at hplace
  rcases hplace with ⟨hpromise, hsocket, hmade⟩ | ⟨_, what, -, -, hpromise⟩
  · exact .inl ⟨by rw [hpromise]; rfl, hsocket, hmade⟩
  · exact .inr ⟨what, hpromise⟩

/-- Where the thread cannot go on, the promise has been set. -/
theorem get_ne_none (hthread : s.thread.Waits ∨ s.thread.pc = .returned) :
    s.thread.promise.get ≠ none := by
  rcases hthread with hwaits | hreturned
  · rw [(told_of_waits h hwaits).1]
    exact Option.some_ne_none _
  · rcases told_of_returned h hreturned with ⟨hget, -⟩ | ⟨_, hpromise⟩
    · rw [hget]
      exact Option.some_ne_none _
    · rw [hpromise]
      exact Option.some_ne_none _

end AtRest

/-- **What is told instead of the value** is the text of a call before `accept`. -/
theorem threw_of_exception (h : (machine t).Runs {} s) {what : Bytes}
    (hpromise : s.thread.promise = .exception what) : ∃ before c, c ≠ .accept ∧
      Listener.Threw t runServer backlogSize s.thread before c what := by
  obtain ⟨before, c, hthrew, hset⟩ := (Listener.blamed (thread_runs h)).told what hpromise
  refine ⟨before, c, fun haccept => hset ?_, hthrew⟩
  subst haccept
  obtain ⟨_, _, _, -, -, -, hcalls, -⟩ := hthrew
  exact Listener.setValue_mem_of_runServer hcalls

/-- **Every test ends, in one of four ways.**  It passes, and the server has accepted the first
connection, which is the client's if nobody else connects; or it throws the text of the server's
call that threw, of one before `accept`; or `accept` has thrown, and that ends the process; or the
client could not connect, and the test joins a server that waits for it. -/
theorem test_ends (h : (machine t).Runs {} s) :
    (machine t).Terminates s ∧
    ∀ s', (machine t).Runs s s' → ((machine t).restrict Alone).Stuck s' →
      (s'.test = .ended none ∧ s'.thread.socket = some 0 ∧
        (((machine t).restrict Alone).Runs {} s' → s'.client = some 0)) ∨
      (∃ what before c, s'.test = .ended (some what) ∧ c ≠ .accept ∧
        Listener.Threw t runServer backlogSize s'.thread before c what) ∨
      s'.thread.pc = .terminated ∨
      (s'.test = .join none ∧ s'.client = none ∧ s'.thread.Waits) := by
  refine ⟨terminates s, fun s' hs' hstuck => ?_⟩
  have hruns := h.trans hs'
  have hinv := inv hruns
  have htold := hinv.told
  by_cases hpc : s'.thread.pc = .terminated
  · exact .inr (.inr (.inl hpc))
  have hthread := waits_or_returned hpc fun e hconnect _ he =>
    hstuck (.thread e) ⟨⟨hpc, he⟩, fun heq => hconnect (Event.thread.inj heq)⟩
  cases htest : s'.test with
  | get =>
    have hget := get_ne_none hinv hthread
    exact absurd ⟨⟨hpc, htest, hget⟩, fun heq => by cases heq⟩ (hstuck .get)
  | runClient => exact absurd ⟨⟨hpc, htest⟩, fun heq => by cases heq⟩ (hstuck .refused)
  | join thrown =>
    have hwaits := hthread.resolve_right fun hreturned =>
      hstuck (.join thrown) ⟨⟨hpc, htest, hreturned⟩, fun heq => by cases heq⟩
    obtain ⟨hget, hclient⟩ := told_of_waits hinv hwaits
    rw [htest, Told, hget] at htold
    obtain rfl := outcome_injective (Option.some.inj htold)
    exact .inr (.inr (.inr ⟨rfl, hclient, hwaits⟩))
  | ended thrown =>
    rw [htest] at htold
    obtain ⟨hget, hreturned⟩ := htold
    rcases told_of_returned hinv hreturned with ⟨hvalue, hsocket, hmade⟩ | ⟨what, hpromise⟩
    · obtain rfl := outcome_injective (Option.some.inj (hvalue.symm.trans hget))
      refine .inl ⟨rfl, hsocket, fun halone => ?_⟩
      rcases single halone with ⟨-, hnone⟩ | ⟨hclient, -⟩
      · omega
      · exact hclient
    · obtain ⟨before, c, haccept, hthrew⟩ := threw_of_exception hruns hpromise
      rw [hpromise] at hget
      have hsome : outcome (some what) = outcome thrown := Option.some.inj hget
      obtain rfl := outcome_injective hsome
      exact .inr (.inl ⟨what, before, c, rfl, haccept, hthrew⟩)

/-- Behind its end there is nothing. -/
theorem stuck_of_ended (h : Inv t s) {thrown : Option Bytes} (hended : s.test = .ended thrown) :
    (machine t).Stuck s := by
  have htold := h.told
  rw [hended] at htold
  rintro e ⟨-, he⟩
  cases e with
  | thread e => exact Listener.not_enabled_of_returned h.thread htold.2 he
  | refused => cases hended.symm.trans he
  | get | connected | join _ => cases hended.symm.trans he.1

/-- Texts with little in them. -/
def sampleTexts : Texts where
  message _ := bytes "in use"
  what _ _ := []

/-- The server listens, the client connects, and is accepted. -/
def sampleEvents : List Event :=
  List.replicate 5 (.thread (.call .success)) ++ [.get, .connected, .thread (.call .success),
    .thread .leave, .join none]

theorem test_ends_sampleEvents : ∃ s, ((machine sampleTexts).restrict Alone).Runs {} s ∧
    s.test = .ended none ∧ s.thread.socket = some 0 ∧ s.client = some 0 := by
  obtain ⟨s, halone, hended⟩ := Machine.exists_runs_of_exec
    (m := (machine sampleTexts).restrict Alone) (s := {})
    (Q := fun s => s.test = .ended none) sampleEvents (by decide +kernel)
  have hruns := halone.of_restrict
  refine ⟨s, halone, hended, ?_⟩
  have hstuck : ((machine sampleTexts).restrict Alone).Stuck s := fun e he =>
    stuck_of_ended (inv hruns) hended e he.1
  rcases (test_ends .start).2 s hruns hstuck with
    ⟨-, hsocket, hclient⟩ | ⟨_, _, _, hthrown, -⟩ | hpc | ⟨hjoin, -⟩
  · exact ⟨hsocket, hclient halone⟩
  · cases hended.symm.trans hthrown
  · have htold := (inv hruns).told
    rw [hended] at htold
    cases htold.2.symm.trans hpc
  · cases hended.symm.trans hjoin

/-! ## The test passes -/

/-- No call of the server throws, nobody else connects, and the client is refused only where nobody
listens. -/
structure Succeeds (s : State) (e : Event) : Prop where
  calls : ∀ ec, e = .thread (.call ec) → ec.value = 0
  alone : Alone s e
  refused : e = .refused → ¬ Listener.Enabled backlogSize s.thread .connect

theorem succeeds_of_test (hthread : ∀ e', e ≠ .thread e') (hrefused : e ≠ .refused) :
    Succeeds s e :=
  ⟨fun _ heq => absurd heq (hthread _), hthread _, fun heq => absurd heq hrefused⟩

/-- Nothing has failed. -/
structure Passing (s : State) : Prop where
  pc : (∃ left, s.thread.pc = .inTry left) ∨ s.thread.pc = .returned
  promise : ∀ what, s.thread.promise ≠ .exception what
  client : s.test = .get ∨ s.test = .runClient ∨ s.client = some 0

theorem passing_start : Passing {} where
  pc := .inl ⟨_, rfl⟩
  promise what h := by cases h
  client := .inl rfl

theorem not_acceptFailed (h : Passing s) : ¬ AcceptFailed t s := by
  rintro (hpc | ⟨ec, -, hpc⟩) <;> simpa [hpc] using h.pc

theorem passing_next (hinv : Inv t s) (hsingle : Single s) (h : Passing s) (he : Enabled s e)
    (hsucceeds : Succeeds s e) : Passing (next t s e) := by
  obtain ⟨-, he⟩ := he
  cases e with
  | thread e =>
    cases e with
    | call ec =>
      have henabled : Listener.Enabled backlogSize s.thread (.call ec) := he
      obtain ⟨c, left, hpc⟩ := Listener.exists_left_of_enabled henabled
      have hresult : c.result t ec = .ok () :=
        Listener.result_eq_ok_iff.mpr (.inr (hsucceeds.calls ec rfl))
      refine ⟨.inl ⟨left, ?_⟩, fun what => ?_, h.client⟩
      · simp [next, Listener.next, hpc, hresult]
      · simp only [next, Listener.next, hpc, hresult]
        cases c <;> simp [Listener.State.after, h.promise]
    | leave => exact ⟨.inr rfl, h.promise, h.client⟩
    | setException what =>
      have hpc : s.thread.pc = .inCatch what := he
      simpa [hpc] using h.pc
    | connect => exact absurd rfl hsucceeds.alone
  | get =>
    simp only [next]
    split
    next => exact ⟨h.pc, h.promise, .inr (.inl rfl)⟩
    next what hget =>
      cases hpromise : s.thread.promise with
      | exception what' => exact absurd hpromise (h.promise what')
      | pending | value b =>
        rw [hpromise] at hget
        cases hget
    next hget => exact absurd hget he.2
  | connected =>
    have hmade := (hsingle.made_eq_zero (.inr he.1)).2
    exact ⟨h.pc, h.promise, .inr (.inr (congrArg some hmade))⟩
  | refused =>
    have hconnect := connect_enabled_or_failed hinv hsingle he
    exact absurd (hconnect.resolve_right (not_acceptFailed h)) (hsucceeds.refused rfl)
  | join thrown =>
    have hclient : s.client = some 0 := by simpa [he.1] using h.client
    exact ⟨h.pc, h.promise, .inr (.inr hclient)⟩

/-- **If nothing fails, and nobody else connects, the test passes.** -/
theorem test_passes (h : ((machine t).restrict Succeeds).Runs {} s)
    (hstuck : ((machine t).restrict Succeeds).Stuck s) :
    s.test = .ended none ∧ s.thread.socket = some 0 ∧ s.client = some 0 := by
  have hinv := inv h.of_restrict
  have hsingle {s : State} (h : ((machine t).restrict Succeeds).Runs {} s) : Single s :=
    single (h.restrict_mono fun _ _ => Succeeds.alone)
  have hpassing : Passing s := h.invariant passing_start fun s' e hs' hpassing he =>
    passing_next (inv hs'.of_restrict) (hsingle hs') hpassing he.1 he.2
  have hpc : s.thread.pc ≠ .terminated := fun hpc => not_acceptFailed (t := t) hpassing (.inl hpc)
  have htold := hinv.told
  have hthread := waits_or_returned hpc fun e hconnect hcall he =>
    hstuck (.thread e) ⟨⟨hpc, he⟩, fun ec hec => hcall ec (Event.thread.inj hec),
      fun heq => hconnect (Event.thread.inj heq), fun heq => by cases heq⟩
  cases htest : s.test with
  | get =>
    have hget := get_ne_none hinv hthread
    exact absurd ⟨⟨hpc, htest, hget⟩, succeeds_of_test (by simp) (by simp)⟩ (hstuck .get)
  | runClient =>
    have hfinds := connect_enabled_or_failed hinv (hsingle h) htest
    have hconnect := hfinds.resolve_right (not_acceptFailed hpassing)
    exact absurd ⟨⟨hpc, htest, hconnect⟩, succeeds_of_test (by simp) (by simp)⟩ (hstuck .connected)
  | join thrown =>
    rcases hthread with hwaits | hreturned
    · have hclient := hpassing.client
      simp [htest, (told_of_waits hinv hwaits).2] at hclient
    · have hjoin := hstuck (.join thrown)
      exact absurd ⟨⟨hpc, htest, hreturned⟩, succeeds_of_test (by simp) (by simp)⟩ hjoin
  | ended thrown =>
    rw [htest] at htold
    rcases told_of_returned hinv htold.2 with ⟨hvalue, hsocket, -⟩ | ⟨what, hpromise⟩
    · obtain rfl := outcome_injective (Option.some.inj (hvalue.symm.trans htold.1))
      have hclient : s.client = some 0 := by simpa [htest] using hpassing.client
      exact ⟨rfl, hsocket, hclient⟩
    · exact absurd hpromise (hpassing.promise what)

theorem test_passes_sampleEvents : ∃ s, ((machine sampleTexts).restrict Succeeds).Runs {} s ∧
    s.test = .ended none ∧ s.thread.socket = some 0 ∧ s.client = some 0 := by
  obtain ⟨s, hs, hended⟩ := (Option.any_eq_true _ _).mp
    (show ((machine sampleTexts).exec {} sampleEvents).any
      (fun s => decide (s.test = .ended none)) = true by decide +kernel)
  have hended : s.test = .ended none := of_decide_eq_true hended
  have hsucceeds : ∀ e ∈ sampleEvents, ∀ s, Succeeds s e := by
    intro e he s
    refine ⟨?_, ?_, ?_⟩
    · rintro ec rfl
      have hec : ec = .success := by simpa [sampleEvents, List.replicate] using he
      rw [hec]
      rfl
    · rintro rfl
      simp [sampleEvents, List.replicate] at he
    · rintro rfl
      simp [sampleEvents, List.replicate] at he
  have hruns := Machine.runs_restrict_of_exec hsucceeds hs
  have hstuck := stuck_of_ended (inv hruns.of_restrict) hended
  exact ⟨s, hruns, test_passes hruns fun e he => hstuck e he.1⟩

end ServerClient

end AsioSamples
