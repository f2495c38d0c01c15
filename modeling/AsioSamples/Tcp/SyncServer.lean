import AsioSamples.Asio.Delivery
import AsioSamples.Cpp.IStream
import AsioSamples.Machinery.Transition

/-!
# Tcp/SyncServer — `Server` and the clients it serves

`Server::Run` accepts one connection after the other.  `AcceptorCl` serves each of them on the
thread of `Run`; `ParallelAcceptor` gives each a `ServiceFake` and a detached thread of its own.
Either way `ServiceFake::HandleRequest` reads and writes with the calls that throw, and nothing
between them and the thread function catches: an exception ends the process.

`inv` says of every run which clients end it so, and `exists_runs_accept` that the others leave
`Run` on its way to the next connection.
-/

namespace AsioSamples

/-! ## Clients -/

/-- What a client does to its connection: the bytes that arrive from it and what a read meets behind
them, and what the write of the reply reports. -/
structure Client where
  chunks : List Bytes
  ending : Ending
  write : ErrorCode
  deriving DecidableEq

/-- The client's line arrives, and its reply can be written. -/
def Client.Completes (c : Client) : Prop := lf ∈ c.chunks.flatten ∧ c.write.value = 0

/-! ## `ServiceFake` -/

namespace ServiceFake

/-- Where a `HandleRequest` is. -/
inductive Phase
  /-- At `asio::read_until`. -/
  | readUntil
  /-- At `asio::write`. -/
  | write (reply : Bytes)
  deriving DecidableEq

/-- The next call of `HandleRequest`: it goes on, it returns, or it throws.  The overload that
`DetachHandle` runs differs in its `delete this` behind the write. -/
def handleRequest (task : Bytes) (c : Client) : Phase → Except ErrorCode (Option Phase)
  | .readUntil =>
    let r := AsioSamples.readUntil none [lf] [] c.chunks
    if r.ec = .eof then .error c.ending.ec
    else
      let (output, _) := ({ rest := r.received } : IStream).getline lf []
      .ok (some (.write (task ++ output ++ [lf])))
  | .write _ => if c.write.value ≠ 0 then .error c.write else .ok none

/-- The read goes on exactly if the line arrives. -/
theorem readUntil_ec_eq (c : Client) : (AsioSamples.readUntil none [lf] [] c.chunks).ec
    = if lf ∈ c.chunks.flatten then .success else .eof := by
  rw [readUntil_ec [lf] c.chunks (fits_none []), List.nil_append, capped, isFull]
  simp only [List.singleton_infix_iff, Bool.false_eq_true, if_false]

/-- A `HandleRequest` that writes has read the line. -/
def Sound (c : Client) : Phase → Prop
  | .readUntil => True
  | .write _ => lf ∈ c.chunks.flatten

/-- **What a call does**: it goes on; or it returns, and the client completes; or it throws, and the
client does not. -/
theorem handleRequest_cases (task : Bytes) {c : Client} {p : Phase} (h : Sound c p) :
    (∃ reply, p = .readUntil ∧ handleRequest task c p = .ok (some (.write reply)) ∧
      Sound c (.write reply)) ∨
    (handleRequest task c p = .ok none ∧ c.Completes) ∨
    (∃ ec, handleRequest task c p = .error ec ∧ ¬ c.Completes) := by
  cases p with
  | readUntil =>
    unfold handleRequest
    simp only [readUntil_ec_eq]
    by_cases hline : lf ∈ c.chunks.flatten
    · rw [if_pos hline, if_neg (by decide)]
      exact .inl ⟨_, trivial, rfl, hline⟩
    · rw [if_neg hline, if_pos rfl]
      exact .inr (.inr ⟨_, rfl, fun hc => hline hc.1⟩)
  | write reply =>
    unfold handleRequest
    by_cases hwrite : c.write.value = 0
    · rw [if_neg (not_not.mpr hwrite)]
      exact .inr (.inl ⟨rfl, h, hwrite⟩)
    · rw [if_pos hwrite]
      exact .inr (.inr ⟨_, rfl, fun hc => hwrite hc.2⟩)

end ServiceFake

open ServiceFake (Phase)

/-! ## `Server` -/

namespace Server

/-- The `T` of `Server<T>`. -/
inductive Acceptor
  /-- `AcceptorCl`, over a `ServiceFake` with that `task_`. -/
  | acceptorCl (task : Bytes)
  | parallelAcceptor

/-- The `task_` that `ParallelAcceptor` gives its services. -/
def parallelTask : Bytes := bytes "Task will be done: "

/-- Where the thread of `Run` is. -/
inductive RunPc
  /-- At `while (liveFlag)`. -/
  | test
  /-- At `acceptor_->accept`. -/
  | accept
  /-- In `service_.HandleRequest`, on `AcceptorCl`. -/
  | handleRequest (c : Client) (p : Phase)
  /-- `Run` has returned. -/
  | returned
  deriving DecidableEq

/-- A `Server` whose `Start` has created the thread of `Run`, and what has happened. -/
structure State where
  liveFlag : Bool := true
  run : RunPc := .test
  /-- The detached threads of `ParallelAcceptor`, each with its connection. -/
  detached : List (Client × Phase) := []
  accepted : List Client := []
  /-- The clients whose `HandleRequest` has returned or thrown. -/
  ended : List Client := []
  /-- What left a thread function; the first one ends the process. -/
  escaped : List ErrorCode := []

/-- The steps. -/
inductive Event
  /-- `Run` tests `liveFlag`. -/
  | test
  /-- `Accept` accepts the connection of a client and hands it on. -/
  | accept (c : Client)
  /-- The next call of the `HandleRequest` on the thread of `Run`. -/
  | serve
  /-- The next call of the `HandleRequest` on a detached thread. -/
  | serveDetached (i : ℕ)
  /-- `Stop` clears `liveFlag`. -/
  | stop

/-- When a step can be taken, in a process that has not been ended. -/
def Enabled (s : State) (e : Event) : Prop :=
  s.escaped = [] ∧
    match e with
    | .test => s.run = .test
    | .accept _ => s.run = .accept
    | .serve => s.run ≠ .test ∧ s.run ≠ .accept ∧ s.run ≠ .returned
    | .serveDetached i => i < s.detached.length
    | .stop => True

instance (s : State) (e : Event) : Decidable (Enabled s e) :=
  match e with
  | .test | .accept _ | .serve | .serveDetached _ | .stop =>
    inferInstanceAs (Decidable (_ = _ ∧ _))

/-- What the thread of `Run` does after a call of its `HandleRequest`. -/
def State.served (s : State) (c : Client) : Except ErrorCode (Option Phase) → State
  | .ok (some p) => { s with run := .handleRequest c p }
  | .ok none => { s with run := .test, ended := s.ended ++ [c] }
  | .error ec => { s with ended := s.ended ++ [c], escaped := s.escaped ++ [ec] }

/-- What detached thread `i` does after a call of its `HandleRequest`. -/
def State.servedDetached (s : State) (i : ℕ) (c : Client) :
    Except ErrorCode (Option Phase) → State
  | .ok (some p) => { s with detached := s.detached.set i (c, p) }
  | .ok none => { s with detached := s.detached.eraseIdx i, ended := s.ended ++ [c] }
  | .error ec => { s with
      detached := s.detached.eraseIdx i
      ended := s.ended ++ [c]
      escaped := s.escaped ++ [ec] }

/-- Where a step leads. -/
def next (acceptor : Acceptor) (s : State) : Event → State
  | .test => { s with run := if s.liveFlag then .accept else .returned }
  | .accept c =>
    match acceptor with
    | .acceptorCl _ => { s with
        run := .handleRequest c .readUntil
        accepted := s.accepted ++ [c] }
    | .parallelAcceptor => { s with
        run := .test
        detached := s.detached ++ [(c, .readUntil)]
        accepted := s.accepted ++ [c] }
  | .serve =>
    match acceptor, s.run with
    | .acceptorCl task, .handleRequest c p => s.served c (ServiceFake.handleRequest task c p)
    | _, _ => s
  | .serveDetached i =>
    match s.detached[i]? with
    | some (c, p) => s.servedDetached i c (ServiceFake.handleRequest parallelTask c p)
    | none => s
  | .stop => { s with liveFlag := false }

/-- A server and its clients. -/
def machine (acceptor : Acceptor) : Machine State Event := ⟨Enabled, next acceptor⟩

instance (acceptor : Acceptor) (s : State) (e : Event) :
    Decidable ((machine acceptor).Enabled s e) :=
  inferInstanceAs (Decidable (Enabled s e))

/-! ## Which clients end the process -/

/-- What holds between two steps. -/
structure Inv (s : State) : Prop where
  /-- A connection in service is sound, and has been accepted. -/
  run : ∀ c p, s.run = .handleRequest c p → ServiceFake.Sound c p ∧ c ∈ s.accepted
  detached : ∀ x ∈ s.detached, ServiceFake.Sound x.1 x.2 ∧ x.1 ∈ s.accepted
  ended : ∀ c ∈ s.ended, c ∈ s.accepted
  escaped : s.escaped = [] ↔ ∀ c ∈ s.ended, c.Completes
  returned : s.run = .returned → s.liveFlag = false

/-- A connection that ends keeps the account of the exceptions. -/
theorem Inv.escaped_append {s : State} (h : Inv s) {c : Client} {thrown : List ErrorCode}
    (hthrown : thrown = [] ↔ c.Completes) :
    s.escaped ++ thrown = [] ↔ ∀ c' ∈ s.ended ++ [c], c'.Completes := by
  rw [List.append_eq_nil_iff, List.forall_mem_append, ← h.escaped, hthrown]
  simp

theorem inv_served {s : State} (h : Inv s) (task : Bytes) {c : Client}
    {p : Phase} (hrun : s.run = .handleRequest c p) :
    Inv (s.served c (ServiceFake.handleRequest task c p)) := by
  obtain ⟨hsound, hc⟩ := h.run c p hrun
  rcases ServiceFake.handleRequest_cases task hsound with
    ⟨reply, -, hcall, hsound'⟩ | ⟨hcall, hcompletes⟩ | ⟨ec, hcall, hnot⟩ <;> rw [hcall]
  · refine ⟨fun c' p' hrun' => ?_, h.detached, h.ended, h.escaped, RunPc.noConfusion⟩
    obtain ⟨rfl, rfl⟩ := RunPc.handleRequest.inj hrun'
    exact ⟨hsound', hc⟩
  · refine ⟨fun _ _ hrun' => RunPc.noConfusion hrun', h.detached, ?_, ?_, RunPc.noConfusion⟩
    · exact List.forall_mem_append.mpr ⟨h.ended, by simpa [State.served] using hc⟩
    · simpa [State.served] using h.escaped_append (iff_of_true rfl hcompletes)
  · refine ⟨h.run, h.detached, ?_, h.escaped_append (iff_of_false (by simp) hnot),
      h.returned⟩
    exact List.forall_mem_append.mpr ⟨h.ended, by simpa [State.served] using hc⟩

theorem inv_servedDetached {s : State} (h : Inv s) (task : Bytes) {i : ℕ} {c : Client} {p : Phase}
    (hi : s.detached[i]? = some (c, p)) :
    Inv (s.servedDetached i c (ServiceFake.handleRequest task c p)) := by
  obtain ⟨hsound, hc⟩ := h.detached (c, p) (List.mem_of_getElem? hi)
  have herase : ∀ x ∈ s.detached.eraseIdx i, ServiceFake.Sound x.1 x.2 ∧ x.1 ∈ s.accepted :=
    fun x hx => h.detached x (List.mem_of_mem_eraseIdx hx)
  rcases ServiceFake.handleRequest_cases task hsound with
    ⟨reply, -, hcall, hsound'⟩ | ⟨hcall, hcompletes⟩ | ⟨ec, hcall, hnot⟩ <;> rw [hcall]
  · refine ⟨h.run, fun x hx => ?_, h.ended, h.escaped, h.returned⟩
    rcases List.mem_or_eq_of_mem_set hx with hx | rfl
    · exact h.detached x hx
    · exact ⟨hsound', hc⟩
  · refine ⟨h.run, herase, ?_, ?_, h.returned⟩
    · exact List.forall_mem_append.mpr ⟨h.ended, by simpa [State.servedDetached] using hc⟩
    · simpa [State.servedDetached] using h.escaped_append (iff_of_true rfl hcompletes)
  · refine ⟨h.run, herase, ?_, h.escaped_append (iff_of_false (by simp) hnot), h.returned⟩
    exact List.forall_mem_append.mpr ⟨h.ended, by simpa [State.servedDetached] using hc⟩

/-- **Every step keeps the invariant.** -/
theorem inv_next (acceptor : Acceptor) {s : State} (e : Event) (h : Inv s) :
    Inv (next acceptor s e) := by
  cases e with
  | test =>
    refine ⟨fun c p hrun => ?_, h.detached, h.ended, h.escaped, fun hrun => ?_⟩
    · simp only [next] at hrun
      split at hrun <;> cases hrun
    · simp only [next] at hrun
      split at hrun
      next => cases hrun
      next hflag => simpa [next] using hflag
  | accept c =>
    have hmem : ∀ c' ∈ s.accepted, c' ∈ s.accepted ++ [c] :=
      fun c' hc' => List.mem_append_left _ hc'
    have hdetached : ∀ x ∈ s.detached, ServiceFake.Sound x.1 x.2 ∧ x.1 ∈ s.accepted ++ [c] :=
      fun x hx => (h.detached x hx).imp_right (hmem _)
    cases acceptor with
    | acceptorCl task =>
      refine ⟨fun c' p' hrun => ?_, hdetached, fun c' hc' => hmem c' (h.ended c' hc'), h.escaped,
        RunPc.noConfusion⟩
      obtain ⟨rfl, rfl⟩ := RunPc.handleRequest.inj hrun
      exact ⟨trivial, by simp [next]⟩
    | parallelAcceptor =>
      refine ⟨fun _ _ hrun => RunPc.noConfusion hrun, ?_, fun c' hc' => hmem c' (h.ended c' hc'),
        h.escaped, RunPc.noConfusion⟩
      refine List.forall_mem_append.mpr ⟨hdetached, ?_⟩
      simp [ServiceFake.Sound, next]
  | serve =>
    simp only [next]
    split
    next task c p hrun => exact inv_served h task hrun
    next => exact h
  | serveDetached i =>
    simp only [next]
    split
    next c p hi => exact inv_servedDetached h parallelTask hi
    next => exact h
  | stop => exact ⟨h.run, h.detached, h.ended, h.escaped, fun _ => rfl⟩

theorem inv {acceptor : Acceptor} {s : State} (h : (machine acceptor).Runs {} s) : Inv s :=
  h.invariant ⟨by simp, by simp, by simp, by simp, by simp⟩ fun _ e _ hs _ => inv_next acceptor e hs

/-! ## On to the next connection -/

section Progress

variable {acceptor : Acceptor} {s : State}

/-- `Run` has come back to its flag, which is still set, with nothing thrown and nobody accepted on
the way. -/
def Returns (acceptor : Acceptor) (s : State) : Prop :=
  ∃ s', (machine acceptor).Runs s s' ∧ s'.run = .test ∧ s'.liveFlag = true ∧ s'.escaped = [] ∧
    s'.accepted = s.accepted

/-- What can be reached in one step more can be returned from. -/
theorem Returns.of_step {e : Event} (he : (machine acceptor).Enabled s e)
    (haccepted : ((machine acceptor).next s e).accepted = s.accepted)
    (h : Returns acceptor ((machine acceptor).next s e)) : Returns acceptor s := by
  obtain ⟨s', hrun, htest, hlive, hescaped, hsame⟩ := h
  exact ⟨s', (Machine.Runs.single he).trans hrun, htest, hlive, hescaped, hsame.trans haccepted⟩

/-- **`Run` returns from a client that completes**: from its write at once, and from its read by
way of the write. -/
theorem returns_of_completes (task : Bytes) {c : Client} (hc : c.Completes)
    (hlive : s.liveFlag = true) (hescaped : s.escaped = []) {p : Phase}
    (hsound : ServiceFake.Sound c p) (hrun : s.run = .handleRequest c p) :
    Returns (.acceptorCl task) s := by
  have he : (machine (.acceptorCl task)).Enabled s .serve := ⟨hescaped, by simp [hrun]⟩
  have hserve : ∀ {s : State} {p : Phase}, s.run = .handleRequest c p →
      (machine (.acceptorCl task)).next s .serve
        = s.served c (ServiceFake.handleRequest task c p) := by
    intro s p hrun
    simp [machine, next, hrun]
  -- a client that completes has its reply written
  have hwrite : ∀ {s : State} {reply : Bytes}, s.liveFlag = true → s.escaped = [] →
      s.run = .handleRequest c (.write reply) → Returns (.acceptorCl task) s := by
    intro s reply hlive hescaped hrun
    have hcall : ServiceFake.handleRequest task c (.write reply) = .ok none := by
      simp [ServiceFake.handleRequest, hc.2]
    refine ⟨_, .single (e := .serve) ⟨hescaped, by simp [hrun]⟩, ?_⟩
    rw [hserve hrun, hcall]
    exact ⟨rfl, hlive, hescaped, rfl⟩
  rcases ServiceFake.handleRequest_cases task hsound with
    ⟨reply, rfl, hcall, -⟩ | ⟨hcall, -⟩ | ⟨ec, -, hnot⟩
  · refine .of_step he ?_ ?_ <;> rw [hserve hrun, hcall]
    · rfl
    · exact hwrite hlive hescaped rfl
  · refine ⟨_, .single he, ?_⟩
    rw [hserve hrun, hcall]
    exact ⟨rfl, hlive, hescaped, rfl⟩
  · exact absurd hc hnot

/-- The thread of `Run` serves on `AcceptorCl` alone. -/
theorem acceptorCl_of_run (h : (machine acceptor).Runs {} s) {c : Client} {p : Phase}
    (hrun : s.run = .handleRequest c p) : ∃ task, acceptor = .acceptorCl task := by
  cases acceptor with
  | acceptorCl task => exact ⟨task, rfl⟩
  | parallelAcceptor =>
    have hnever : ∀ c p, s.run ≠ .handleRequest c p := by
      refine h.invariant (I := fun s => ∀ c p, s.run ≠ .handleRequest c p) (by simp)
        fun s' e _ hs' _ c p => ?_
      cases e with
      | test =>
        simp only [machine, next]
        split <;> exact RunPc.noConfusion
      | accept c => exact RunPc.noConfusion
      | serveDetached i =>
        simp only [machine, next]
        split
        next c' p' _ =>
          rcases ServiceFake.handleRequest parallelTask c' p' with ec | _ | p'' <;> exact hs' c p
        next => exact hs' c p
      | _ => exact hs' c p
    exact absurd hrun (hnever c p)

/-- **A server whose clients all complete goes on to the next connection.** -/
theorem exists_runs_accept (h : (machine acceptor).Runs {} s)
    (hcompletes : ∀ c ∈ s.accepted, c.Completes) (hlive : s.liveFlag = true) :
    ∃ s', (machine acceptor).Runs s s' ∧ s'.run = .accept ∧ s'.accepted = s.accepted := by
  have hinv := inv h
  have hescaped : s.escaped = [] :=
    hinv.escaped.mpr fun c hc => hcompletes c (hinv.ended c hc)
  have htested : Returns acceptor s → ∃ s', (machine acceptor).Runs s s' ∧ s'.run = .accept ∧
      s'.accepted = s.accepted := by
    rintro ⟨s', hrun, htest, hlive', hescaped', hsame⟩
    have he : (machine acceptor).Enabled s' .test := ⟨hescaped', htest⟩
    refine ⟨_, hrun.step he, ?_, hsame⟩
    simp [machine, next, hlive']
  cases hrun : s.run with
  | test => exact htested ⟨s, .start, hrun, hlive, hescaped, rfl⟩
  | accept => exact ⟨s, .start, hrun, rfl⟩
  | handleRequest c p =>
    obtain ⟨hsound, hc⟩ := hinv.run c p hrun
    obtain ⟨task, rfl⟩ := acceptorCl_of_run h hrun
    exact htested (returns_of_completes task (hcompletes c hc) hlive hescaped hsound hrun)
  | returned => exact absurd (hlive.symm.trans (hinv.returned hrun)) (by decide)

/-- **One client can stop the server, and which one.**  In every run nothing has left a thread
function exactly if every client whose service ended had sent its line and was written its reply;
and as long as all accepted clients do, `Run` goes on to the next connection. -/
theorem server_goes_on (h : (machine acceptor).Runs {} s) :
    (s.escaped = [] ↔ ∀ c ∈ s.ended, c.Completes) ∧
    ((∀ c ∈ s.accepted, c.Completes) → s.escaped = [] ∧ (s.liveFlag = true →
      ∃ s', (machine acceptor).Runs s s' ∧ s'.run = .accept ∧ s'.accepted = s.accepted)) := by
  have hinv := inv h
  refine ⟨hinv.escaped, fun hcompletes => ⟨?_, exists_runs_accept h hcompletes⟩⟩
  exact hinv.escaped.mpr fun c hc => hcompletes c (hinv.ended c hc)

end Progress

/-- The client of `TEST(TCP_SYNC, tcp_server_client_sync)`. -/
def echoClient : Client :=
  ⟨[bytes "EMULATE_LONG_COMP_OP 10\n"], .finished, .success⟩

theorem server_goes_on_echoClient : ∃ s,
    (machine (.acceptorCl (bytes "Task is done: "))).Runs {} s ∧
    s.accepted = [echoClient] ∧ s.run = .test ∧ s.escaped = [] ∧
    ∃ s', (machine (.acceptorCl (bytes "Task is done: "))).Runs s s' ∧ s'.run = .accept ∧
      s'.accepted = s.accepted := by
  obtain ⟨s, hrun, haccepted, htest, hlive⟩ := Machine.exists_runs_of_exec
    (m := machine (.acceptorCl (bytes "Task is done: "))) (s := {})
    (Q := fun s => s.accepted = [echoClient] ∧ s.run = .test ∧ s.liveFlag = true)
    [.test, .accept echoClient, .serve, .serve] (by decide +kernel)
  have hcompletes : ∀ c ∈ s.accepted, c.Completes := by
    rw [haccepted]
    simp only [List.mem_singleton, forall_eq]
    exact ⟨by decide, rfl⟩
  obtain ⟨hescaped, hon⟩ := (server_goes_on hrun).2 hcompletes
  exact ⟨s, hrun, haccepted, htest, hescaped, hon hlive⟩

/-- A client that closes its connection and sends nothing. -/
def silentClient : Client := ⟨[], .finished, .success⟩

/-- It ends the process, with either acceptor. -/
theorem exists_server_stopped :
    (∃ s, (machine (.acceptorCl (bytes "Task is done: "))).Runs {} s ∧
      s.accepted = [silentClient] ∧ s.liveFlag = true ∧ s.escaped = [.eof]) ∧
    ∃ s, (machine .parallelAcceptor).Runs {} s ∧
      s.accepted = [silentClient] ∧ s.liveFlag = true ∧ s.escaped = [.eof] :=
  ⟨Machine.exists_runs_of_exec [.test, .accept silentClient, .serve] (by decide +kernel),
    Machine.exists_runs_of_exec [.test, .accept silentClient, .serveDetached 0] (by decide +kernel)⟩

end Server

end AsioSamples
