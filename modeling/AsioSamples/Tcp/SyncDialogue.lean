import AsioSamples.Tcp.Conversation

/-!
# Tcp/SyncDialogue — `Server` and the `SyncTCPClient`s that connect to it

Any number of clients connect, in any order, and the listening socket keeps them in line; `Run`
accepts one after the other.  On `AcceptorCl` it then serves the client itself, on
`ParallelAcceptor` a detached thread does.  Nothing fails.

Every client that returns has the answer to its own request, and `AcceptorCl` has no two of them in
service (`answers`).  In the end everyone who has been accepted has been answered, and who has not
been is left waiting by a `Run` that has returned (`conversations_end`).  After `Stop` has cleared
the flag at most one more client is accepted, and if `Run` was in `accept` it returns only on
account of that one (`stop_returns_iff`).
-/

namespace AsioSamples

namespace SyncDialogue

open Conversation (Stage)
open Function (update)
open Server (Acceptor)
open ServiceFake (answer)

/-! ## States and events -/

/-- `backlogSize_`. -/
def backlogSize : ℕ := 10

/-- The `task_` of the services. -/
def task : Acceptor → Bytes
  | .acceptorCl task => task
  | .parallelAcceptor => Server.parallelTask

/-- Where the thread of `Run` is. -/
inductive RunPc (ι : Type*)
  /-- At `while (liveFlag)`. -/
  | test
  /-- At `acceptor_->accept`. -/
  | accept
  /-- In `service_.HandleRequest`, on `AcceptorCl`. -/
  | handleRequest (i : ι)
  /-- `Run` has returned. -/
  | returned
  deriving DecidableEq

/-- A `Server` whose `Start` has created the thread of `Run`, and its clients. -/
structure State (ι : Type*) where
  liveFlag : Bool := true
  run : RunPc ι := .test
  /-- The connections that wait to be accepted, the oldest first. -/
  backlog : List ι := []
  /-- Those that have been. -/
  accepted : List ι := []
  talk : ι → Conversation

/-- The steps. -/
inductive Event (ι : Type*)
  /-- The `Connect` of a client returns. -/
  | connect (i : ι)
  | talk (i : ι) (e : Conversation.Event)
  /-- `Run` tests `liveFlag`. -/
  | test
  /-- `accept` returns with the oldest connection, and it is handed on. -/
  | accept (i : ι)
  /-- The `HandleRequest` on the thread of `Run` has returned, and so does `Accept`. -/
  | handled (i : ι)
  /-- `Stop` clears `liveFlag`. -/
  | stop

variable {ι : Type*} [DecidableEq ι]

/-- No client has connected. -/
def State.start (durations : ι → UInt32) : State ι where
  talk i := { durationSec := durations i }

/-- When a step can be taken. -/
def Enabled (s : State ι) : Event ι → Prop
  | .connect i => (s.talk i).client = .connect ∧ s.backlog.length < backlogSize
  | .talk i e => (s.talk i).Enabled e
  | .test => s.run = .test
  | .accept i => s.run = .accept ∧ s.backlog.head? = some i
  | .handled i => s.run = .handleRequest i ∧ (s.talk i).session = .returned
  | .stop => s.liveFlag = true

instance (s : State ι) (e : Event ι) : Decidable (Enabled s e) :=
  match e with
  | .connect _ | .accept _ | .handled _ => inferInstanceAs (Decidable (_ ∧ _))
  | .talk .. => inferInstanceAs (Decidable (Conversation.Enabled _ _))
  | .test | .stop => inferInstanceAs (Decidable (_ = _))

/-- Where a step leads. -/
def next (acceptor : Acceptor) (s : State ι) : Event ι → State ι
  | .connect i => { s with
      talk := update s.talk i (s.talk i).connect
      backlog := s.backlog ++ [i] }
  | .talk i e => { s with talk := update s.talk i ((s.talk i).next (task acceptor) e) }
  | .test => { s with run := if s.liveFlag then .accept else .returned }
  | .accept i => { s with
      talk := update s.talk i (s.talk i).accept
      backlog := s.backlog.tail
      accepted := s.accepted ++ [i]
      run := match acceptor with
        | .acceptorCl _ => .handleRequest i
        | .parallelAcceptor => .test }
  | .handled _ => { s with run := .test }
  | .stop => { s with liveFlag := false }

/-- A server and its clients. -/
def machine (acceptor : Acceptor) : Machine (State ι) (Event ι) := ⟨Enabled, next acceptor⟩

instance (acceptor : Acceptor) (s : State ι) (e : Event ι) :
    Decidable ((machine acceptor).Enabled s e) :=
  inferInstanceAs (Decidable (Enabled s e))

/-! ## Who is where -/

variable {acceptor : Acceptor} {durations : ι → UInt32} {s s' : State ι} {e : Event ι}

/-- What holds between two steps. -/
structure Inv (acceptor : Acceptor) (durations : ι → UInt32) (s : State ι) : Prop where
  duration : ∀ i, (s.talk i).durationSec = durations i
  stage : ∀ i, (s.talk i).Stage (task acceptor)
  backlog : ∀ i, i ∈ s.backlog ↔
    (s.talk i).client ≠ .connect ∧ (s.talk i).session = .unaccepted
  accepted : ∀ i, i ∈ s.accepted ↔ (s.talk i).session ≠ .unaccepted
  nodup : s.backlog.Nodup
  /-- On `AcceptorCl` a client is served by the thread of `Run`… -/
  alone : acceptor ≠ .parallelAcceptor → ∀ i, (s.talk i).Serving → s.run = .handleRequest i
  /-- …which is nowhere else. -/
  serving : ∀ i, s.run = .handleRequest i →
    acceptor ≠ .parallelAcceptor ∧ (s.talk i).session ≠ .unaccepted
  returned : s.run = .returned → s.liveFlag = false

omit [DecidableEq ι] in
theorem inv_start (acceptor : Acceptor) (durations : ι → UInt32) :
    Inv acceptor durations (.start durations) where
  duration _ := rfl
  stage i := Conversation.stage_start _ _
  backlog i := by simp [State.start]
  accepted i := by simp [State.start]
  nodup := List.nodup_nil
  alone _ i h := absurd rfl h.1
  serving i h := by cases h
  returned h := by cases h

/-- A client that connects goes to the end of the line. -/
theorem inv_connect (h : Inv acceptor durations s) {i : ι}
    (hclient : (s.talk i).client = .connect) :
    Inv acceptor durations (next acceptor s (.connect i)) := by
  have hsession : (s.talk i).session = .unaccepted := (h.stage i).session_of_connect hclient
  have hdurations (j : ι) : ((next acceptor s (.connect i)).talk j).durationSec
      = (s.talk j).durationSec :=
    apply_update_eq (f := s.talk) (a := (s.talk i).connect) Conversation.durationSec rfl j
  have hsessions (j : ι) : ((next acceptor s (.connect i)).talk j).session
      = (s.talk j).session :=
    apply_update_eq (f := s.talk) (a := (s.talk i).connect) Conversation.session rfl j
  refine ⟨fun j => (hdurations j).trans (h.duration j), ?_, fun j => ?_, fun j => ?_, ?_,
    fun hcl j hj => ?_, fun j hj => ?_, h.returned⟩
  · exact (Function.forall_update_iff s.talk fun _ c => c.Stage (task acceptor)).mpr
      ⟨(h.stage i).connect hclient, fun j _ => h.stage j⟩
  · by_cases hji : j = i
    · subst hji
      simp [next, Conversation.connect, hsession]
    · simpa [next, hji] using h.backlog j
  · rw [hsessions j]
    exact h.accepted j
  · have hnew : i ∉ s.backlog := fun hi => ((h.backlog i).mp hi).1 hclient
    simpa [next] using h.nodup.concat hnew
  · rw [Conversation.Serving, hsessions j] at hj
    exact h.alone hcl j hj
  · rw [hsessions j]
    exact h.serving j hj

/-- A step of one conversation changes nothing for the server. -/
theorem inv_talk (h : Inv acceptor durations s) {i : ι} {e : Conversation.Event}
    (he : (s.talk i).Enabled e) : Inv acceptor durations (next acceptor s (.talk i e)) := by
  obtain ⟨hconnect, hunaccepted, hserving⟩ := Conversation.begun_next (task acceptor) he
  have hdurations (j : ι) : ((next acceptor s (.talk i e)).talk j).durationSec
      = (s.talk j).durationSec :=
    apply_update_eq (f := s.talk) Conversation.durationSec (Conversation.durationSec_next _ _ e) j
  have hclients (j : ι) : (((next acceptor s (.talk i e)).talk j).client = .connect)
      = ((s.talk j).client = .connect) :=
    apply_update_eq (f := s.talk) (fun c => c.client = .connect) (propext hconnect) j
  have hsessions (j : ι) : (((next acceptor s (.talk i e)).talk j).session = .unaccepted)
      = ((s.talk j).session = .unaccepted) :=
    apply_update_eq (f := s.talk) (fun c => c.session = .unaccepted) (propext hunaccepted) j
  refine ⟨fun j => (hdurations j).trans (h.duration j), ?_, fun j => ?_, fun j => ?_, h.nodup,
    fun hcl j hj => ?_, fun j hj => ?_, h.returned⟩
  · exact (Function.forall_update_iff s.talk fun _ c => c.Stage (task acceptor)).mpr
      ⟨(h.stage i).next he, fun j _ => h.stage j⟩
  · rw [ne_eq, hclients j, hsessions j]
    exact h.backlog j
  · rw [ne_eq, hsessions j]
    exact h.accepted j
  · refine h.alone hcl j ?_
    revert hj
    exact (Function.forall_update_iff s.talk fun j c => c.Serving → (s.talk j).Serving).mpr
      ⟨hserving, fun _ _ hj => hj⟩ j
  · refine ⟨(h.serving j hj).1, ?_⟩
    rw [ne_eq, hsessions j]
    exact (h.serving j hj).2

/-- `Run` takes the client at the head of the line. -/
theorem inv_accept (h : Inv acceptor durations s) {i : ι} (hrun : s.run = .accept)
    (hhead : s.backlog.head? = some i) :
    Inv acceptor durations (next acceptor s (.accept i)) := by
  obtain ⟨rest, hbacklog⟩ := List.head?_eq_some_iff.mp hhead
  obtain ⟨hclient, hsession⟩ := (h.backlog i).mp (hbacklog ▸ List.mem_cons_self)
  have hnodup := h.nodup
  rw [hbacklog, List.nodup_cons] at hnodup
  have hdurations (j : ι) : ((next acceptor s (.accept i)).talk j).durationSec
      = (s.talk j).durationSec :=
    apply_update_eq (f := s.talk) (a := (s.talk i).accept) Conversation.durationSec rfl j
  refine ⟨fun j => (hdurations j).trans (h.duration j), ?_, fun j => ?_, fun j => ?_, ?_,
    fun hcl j hj => ?_, fun j hj => ?_, fun hreturned => ?_⟩
  · exact (Function.forall_update_iff s.talk fun _ c => c.Stage (task acceptor)).mpr
      ⟨(h.stage i).accept hclient hsession, fun j _ => h.stage j⟩
  · have hj := h.backlog j
    by_cases hji : j = i
    · subst hji
      simp [next, Conversation.accept, hbacklog, hnodup.1]
    · simpa [next, hbacklog, hji] using hj
  · have hj := h.accepted j
    by_cases hji : j = i
    · subst hji
      simp [next, Conversation.accept]
    · simpa [next, hji] using hj
  · simpa [next, hbacklog] using hnodup.2
  · cases acceptor with
    | parallelAcceptor => exact absurd rfl hcl
    | acceptorCl =>
      by_cases hji : j = i
      · rw [hji]
        rfl
      · have hother := h.alone hcl j (by simpa [next, hji] using hj)
        cases hother.symm.trans hrun
  · cases acceptor with
    | parallelAcceptor => cases hj
    | acceptorCl =>
      cases hj
      refine ⟨by simp, ?_⟩
      simp [next, Conversation.accept]
  · cases acceptor <;> cases hreturned

/-- **Every step keeps the invariant.** -/
theorem inv_next (h : Inv acceptor durations s) (he : Enabled s e) :
    Inv acceptor durations (next acceptor s e) := by
  cases e with
  | connect i => exact inv_connect h he.1
  | talk i e => exact inv_talk h he
  | test =>
    refine ⟨h.duration, h.stage, h.backlog, h.accepted, h.nodup, fun hcl j hj => ?_, fun j hj => ?_,
      fun hreturned => ?_⟩
    · cases (h.alone hcl j hj).symm.trans he
    · simp only [next] at hj
      split at hj <;> cases hj
    · simpa [next] using hreturned
  | accept i => exact inv_accept h he.1 he.2
  | handled i =>
    refine ⟨h.duration, h.stage, h.backlog, h.accepted, h.nodup, fun hcl j hj => ?_, fun j hj => ?_,
      fun hreturned => ?_⟩
    · cases (h.alone hcl j hj).symm.trans he.1
      exact absurd he.2 hj.2
    · cases hj
    · cases hreturned
  | stop =>
    exact ⟨h.duration, h.stage, h.backlog, h.accepted, h.nodup, h.alone, h.serving, fun _ => rfl⟩

theorem inv (h : (machine acceptor).Runs (.start durations) s) : Inv acceptor durations s :=
  h.invariant (inv_start acceptor durations) fun _ _ _ hs he => inv_next hs he

/-- **Every answer is the right one**, and `AcceptorCl` serves one client at a time. -/
theorem answers (h : (machine acceptor).Runs (.start durations) s) :
    (∀ i line, (s.talk i).client = .returned line →
      line = answer (task acceptor) (durations i) ∧
      (lf ∉ task acceptor → line = task acceptor ++ SyncTCPClient.requestLine (durations i))) ∧
    (acceptor ≠ .parallelAcceptor →
      ∀ i j, (s.talk i).Serving → (s.talk j).Serving → i = j) := by
  have hinv := inv h
  refine ⟨fun i line hclient => ?_, fun hcl i j hi hj => ?_⟩
  · have hline := (hinv.stage i).response_eq hclient
    rw [hinv.duration i] at hline
    exact ⟨hline, fun htask => hline.trans (ServiceFake.answer_eq htask _)⟩
  · have hij := (hinv.alone hcl i hi).symm.trans (hinv.alone hcl j hj)
    exact RunPc.handleRequest.inj hij

/-! ## To the end -/

/-- `Stop` is not called. -/
def NotStop (_ : State ι) : Event ι → Prop
  | .stop => False
  | _ => True

/-- The steps that `Run` makes, up to its next `accept`. -/
def RunPc.left : RunPc ι → ℕ
  | handleRequest _ => 3
  | test => 2
  | accept => 1
  | returned => 0

/-- What is left to do. -/
noncomputable def remaining (acceptor : Acceptor) (s : State ι) : ℕ :=
  ∑ᶠ i, (s.talk i).remaining (task acceptor) + s.run.left

/-- **Every step leaves less to do.** -/
theorem remaining_next [Finite ι] (h : Inv acceptor durations s) (he : Enabled s e)
    (hstop : NotStop s e) : remaining acceptor (next acceptor s e) < remaining acceptor s := by
  have hsum (i : ι) (c : Conversation) :=
    finsum_rank_update (f := s.talk) (Conversation.remaining (task acceptor)) (Set.toFinite _) i c
  cases e with
  | connect i =>
    have hlt := Conversation.remaining_connect (task acceptor) he.1
    have hi := hsum i (s.talk i).connect
    simp only [remaining, next]
    omega
  | talk i e =>
    have hlt := Conversation.remaining_next (h.stage i) he
    have hi := hsum i ((s.talk i).next (task acceptor) e)
    simp only [remaining, next]
    omega
  | test =>
    simp only [remaining, next, show s.run = .test from he]
    split <;> simp only [RunPc.left] <;> omega
  | accept i =>
    obtain ⟨rest, hbacklog⟩ := List.head?_eq_some_iff.mp he.2
    have hsession := ((h.backlog i).mp (hbacklog ▸ List.mem_cons_self)).2
    have hlt := Conversation.remaining_accept (task acceptor) hsession
    have hi := hsum i (s.talk i).accept
    cases acceptor <;> simp only [remaining, next, he.1, RunPc.left] <;> omega
  | handled i =>
    simp only [remaining, next, he.1, RunPc.left]
    omega
  | stop => exact hstop.elim

theorem terminates [Finite ι] (h : (machine acceptor).Runs (.start durations) s) :
    ((machine acceptor).restrict NotStop).Terminates s :=
  Machine.terminates_of_variant (remaining acceptor) fun _ _ hs' he =>
    remaining_next (inv (h.trans hs'.of_restrict)) he.1 he.2

/-- The client has its answer, and its `HandleRequest` has returned. -/
def Answered (acceptor : Acceptor) (durations : ι → UInt32) (s : State ι) (i : ι) : Prop :=
  (s.talk i).client = .returned (answer (task acceptor) (durations i)) ∧
    (s.talk i).session = .returned

/-- A state in which nothing can be done but to call `Stop`. -/
def AtRest (acceptor : Acceptor) (s : State ι) : Prop :=
  ((machine acceptor).restrict NotStop).Stuck s

section AtRest

variable (h : Inv acceptor durations s) (hrest : AtRest acceptor s)

include h hrest

theorem answered_of_accepted {i : ι} (hi : i ∈ s.accepted) : Answered acceptor durations s i := by
  rcases Conversation.finished_or_exists_enabled (h.stage i) ((h.accepted i).mp hi) with
    ⟨hclient, hsession⟩ | ⟨e, he⟩
  · exact ⟨h.duration i ▸ hclient, hsession⟩
  · exact absurd ⟨he, trivial⟩ (hrest (.talk i e))

/-- `Run` waits for another client, or has returned. -/
theorem accept_or_returned_of_atRest : s.run = .accept ∨ s.run = .returned := by
  cases hrun : s.run with
  | test => exact absurd ⟨hrun, trivial⟩ (hrest .test)
  | accept => exact .inl rfl
  | handleRequest i =>
    have hanswered := answered_of_accepted h hrest ((h.accepted i).mpr (h.serving i hrun).2)
    exact absurd ⟨⟨hrun, hanswered.2⟩, trivial⟩ (hrest (.handled i))
  | returned => exact .inr rfl

/-- **A `Run` that waits has accepted everyone.** -/
theorem accepted_of_accept (hrun : s.run = .accept) (i : ι) : i ∈ s.accepted := by
  have hnone : s.backlog = [] := List.head?_eq_none_iff.mp <|
    Option.eq_none_iff_forall_ne_some.mpr fun k hk => hrest (.accept k) ⟨⟨hrun, hk⟩, trivial⟩
  rw [h.accepted i]
  intro hsession
  by_cases hclient : (s.talk i).client = .connect
  · refine hrest (.connect i) ⟨⟨hclient, ?_⟩, trivial⟩
    rw [hnone]
    exact Nat.zero_lt_succ _
  · have hi := (h.backlog i).mpr ⟨hclient, hsession⟩
    rw [hnone] at hi
    cases hi

/-- **Who has not been accepted** is in `Connect`, or waits for an answer. -/
theorem client_of_not_accepted {i : ι} (hi : i ∉ s.accepted) :
    (s.talk i).client = .connect ∨ (s.talk i).client = .receiveResponse := by
  rw [h.accepted i, not_not] at hi
  refine or_iff_not_imp_left.mpr fun hclient => ?_
  exact Conversation.receiveResponse_of_stuck (h.stage i) hclient hi
    fun e he => hrest (.talk i e) ⟨he, trivial⟩

end AtRest

/-- **Everyone who is accepted is answered.**  Every run ends, unless `Stop` is called for ever.  In
the end `Run` waits for more clients and has answered all there are; or it has returned, after a
`Stop`, and those that it has not accepted are still in `Connect` or wait for an answer. -/
theorem conversations_end [Finite ι] (h : (machine acceptor).Runs (.start durations) s) :
    ((machine acceptor).restrict NotStop).Terminates s ∧
    ∀ s', ((machine acceptor).restrict NotStop).Runs s s' → AtRest acceptor s' →
      (∀ i ∈ s'.accepted, Answered acceptor durations s' i) ∧
      (s'.run = .accept ∧ (∀ i, i ∈ s'.accepted) ∨
        s'.run = .returned ∧ s'.liveFlag = false ∧ ∀ i ∉ s'.accepted,
          (s'.talk i).client = .connect ∨ (s'.talk i).client = .receiveResponse) := by
  refine ⟨terminates h, fun s' hs' hrest => ?_⟩
  have hinv := inv (h.trans hs'.of_restrict)
  refine ⟨fun i => answered_of_accepted hinv hrest, ?_⟩
  rcases accept_or_returned_of_atRest hinv hrest with hrun | hrun
  · exact .inl ⟨hrun, accepted_of_accept hinv hrest hrun⟩
  · exact .inr ⟨hrun, hinv.returned hrun, fun i => client_of_not_accepted hinv hrest⟩

/-! ## `Stop` -/

/-- The clients that `Run` is waiting for. -/
def State.awaited (s : State ι) : ℕ := if s.run = .accept then 1 else 0

/-- **Without the flag `Run` tests it once more**: who is accepted has been awaited. -/
theorem accepted_of_stopped (hflag : s.liveFlag = false) (h : (machine acceptor).Runs s s') :
    s'.liveFlag = false ∧
      s'.accepted.length + s'.awaited = s.accepted.length + s.awaited := by
  refine h.invariant (I := fun s' => s'.liveFlag = false ∧
    s'.accepted.length + s'.awaited = s.accepted.length + s.awaited) ⟨hflag, rfl⟩ ?_
  rintro s₁ e - ⟨hflag₁, hsame⟩ he
  cases e with
  | connect i | talk i e => exact ⟨hflag₁, hsame⟩
  | test =>
    refine ⟨hflag₁, hsame ▸ ?_⟩
    simp [machine, next, State.awaited, hflag₁, show s₁.run = .test from he]
  | accept i =>
    refine ⟨hflag₁, hsame ▸ ?_⟩
    cases acceptor <;> simp [machine, next, State.awaited, he.1]
  | handled i =>
    refine ⟨hflag₁, hsame ▸ ?_⟩
    simp [machine, next, State.awaited, he.1]
  | stop => exact ⟨rfl, hsame⟩

/-- **When `Stop` returns.**  After it has cleared the flag at most one more client is accepted, the
one that `Run` was waiting for in `accept`; and in the end `Run` has returned exactly if it was not
waiting, or if that client has come. -/
theorem stop_returns_iff (h : (machine acceptor).Runs (.start durations) s)
    (hflag : s.liveFlag = false) (h' : (machine acceptor).Runs s s') :
    s'.accepted.length ≤ s.accepted.length + s.awaited ∧
      (AtRest acceptor s' →
        (s'.run = .returned ↔ s'.accepted.length = s.accepted.length + s.awaited)) := by
  have hlength := (accepted_of_stopped hflag h').2
  refine ⟨by omega, fun hrest => ?_⟩
  rcases accept_or_returned_of_atRest (inv (h.trans h')) hrest with hrun | hrun
  · have hawaited : s'.awaited = 1 := if_pos hrun
    simp only [hrun, reduceCtorEq, false_iff]
    omega
  · have hawaited : s'.awaited = 0 := if_neg (by simp [hrun])
    exact iff_of_true hrun (by omega)

/-! ## The clients of `TEST(TCP_SYNC, tcp_server_client_sync)` -/

/-- `ServiceFake fake("Task is done: "s); Server<AcceptorCl> server(fake, port);` -/
def fake : Acceptor := .acceptorCl (bytes "Task is done: ")

/-- The two calls, by two clients. -/
def sampleDurations (second : Bool) : UInt32 := if second then 20 else 10

/-- Both directions of a connection, each in one piece. -/
def inOnePiece (i : Bool) : List (Event Bool) :=
  let request := SyncTCPClient.request (sampleDurations i)
  let reply := ServiceFake.reply (task fake) request
  [.sendSome request request.length, .sent, .readSome request.length, .read,
    .writeSome reply reply.length, .written, .receiveSome reply.length, .received].map (.talk i)

/-- The string that the first of them expects. -/
def expected : Bytes := bytes "Task is done: EMULATE_LONG_COMP_OP 10"

theorem answers_sampleDurations : ∃ s : State Bool,
    (machine fake).Runs (.start sampleDurations) s ∧ s.run = .handleRequest true ∧
      (s.talk false).client = .returned expected ∧
      expected = task fake ++ SyncTCPClient.requestLine (sampleDurations false) := by
  obtain ⟨s, hruns, hrun, hclient⟩ := Machine.exists_runs_of_exec
    (m := machine fake) (s := State.start sampleDurations)
    (Q := fun s => s.run = .handleRequest true ∧ (s.talk false).client = .returned expected)
    ([.connect false, .test, .accept false, .connect true] ++ inOnePiece false
      ++ [.handled false, .test, .accept true]) (by decide +kernel)
  exact ⟨s, hruns, hrun, hclient, ((answers hruns).1 false expected hclient).2 (by decide)⟩

theorem conversations_end_sampleDurations : ∃ s : State Bool,
    ((machine fake).restrict NotStop).Runs (.start sampleDurations) s ∧ s.run = .accept ∧
      ∀ i, Answered fake sampleDurations s i := by
  have hstart : (machine fake).Runs (.start sampleDurations) (State.start sampleDurations) := .start
  obtain ⟨hends, hall⟩ := conversations_end hstart
  obtain ⟨s, hs, hrest⟩ := hends.exists_stuck
  obtain ⟨hanswered, ⟨hrun, haccepted⟩ | ⟨hrun, hflag, -⟩⟩ := hall s hs hrest
  · exact ⟨s, hs, hrun, fun i => hanswered i (haccepted i)⟩
  · -- nobody has cleared the flag
    have hlive : s.liveFlag = true := by
      refine hs.invariant (I := fun s => s.liveFlag = true) rfl fun s' e _ hs' he => ?_
      cases e with
      | stop => exact he.2.elim
      | _ => exact hs'
    exact absurd (hlive.symm.trans hflag) (by decide)

/-- `Stop` is called while `Run` waits for the second client. -/
theorem stop_returns_iff_sampleDurations : ∃ s s' : State Bool,
    (machine fake).Runs (.start sampleDurations) s ∧ s.run = .accept ∧ s.accepted = [false] ∧
    (machine fake).Runs s s' ∧ AtRest fake s' ∧ (s'.run = .returned ↔ s'.accepted.length = 2) := by
  obtain ⟨s, hruns, hrun, haccepted, hflag⟩ := Machine.exists_runs_of_exec
    (m := machine fake) (s := State.start sampleDurations)
    (Q := fun s => s.run = .accept ∧ s.accepted = [false] ∧ s.liveFlag = false)
    ([.connect false, .test, .accept false] ++ inOnePiece false ++ [.handled false, .test, .stop])
    (by decide +kernel)
  obtain ⟨s', hs', hrest⟩ := (terminates hruns).exists_stuck
  refine ⟨s, s', hruns, hrun, haccepted, hs'.of_restrict, hrest, ?_⟩
  have hiff := (stop_returns_iff hruns hflag hs'.of_restrict).2 hrest
  rwa [haccepted, State.awaited, if_pos hrun] at hiff

end SyncDialogue

end AsioSamples
