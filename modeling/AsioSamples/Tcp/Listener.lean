import AsioSamples.Udp.Client

/-!
# Tcp/Listener — `RunServer` and `GetSingleClientSocket`

Two functions for a thread that lets one client connect, and tells of it through a `std::promise`.
`RunServer` sets the promise when it listens, `GetSingleClientSocket` when it has accepted, to the
socket.  An exception is set in its place by the `catch` block; but there a promise that has its
value already throws again, out of the thread.  So it matters what comes behind `set_value`
(`inv`): of `GetSingleClientSocket` nothing does, of `RunServer` the `accept`.
-/

namespace AsioSamples

namespace Listener

/-! ## The calls, and the texts of their errors -/

/-- The calls in the `try` blocks. -/
inductive ServerCall
  | createAndOpenAcceptor
  | bind
  | listen
  | createSocket
  | setValue
  | accept
  deriving DecidableEq

/-- The texts that asio makes of an error. -/
structure Texts where
  /-- `ec.message()` -/
  message : ErrorCode → Bytes
  /-- `e.what()`, of the `system_error` that a call throws. -/
  what : ServerCall → ErrorCode → Bytes

/-- `if (ec.value() != 0) throw`, of what has this text. -/
def throwIf (ec : ErrorCode) (text : Bytes) : Except Bytes Unit :=
  if ec.value ≠ 0 then .error text else .ok ()

/-- `msg << ec.value() << ". Message: " << ec.message()`. -/
def Texts.describe (t : Texts) (ec : ErrorCode) : Bytes :=
  printInt ec.value ++ bytes ". Message: " ++ t.message ec

/-- `CreateAndOpenAcceptor(ios, protocol)`; `ec` is what `open` reports. -/
def createAndOpenAcceptor (t : Texts) (ec : ErrorCode) : Except Bytes Unit :=
  throwIf ec (bytes "Failed to open the acceptor socket!Error code = " ++ t.describe ec)

/-- `Bind`; `ec` is what `bind` reports. -/
def bind (t : Texts) (ec : ErrorCode) : Except Bytes Unit :=
  throwIf ec (bytes "Failed to bind the acceptor socket.Error code = " ++ t.describe ec)

/-- `CreateSocket`, whose `catch` block writes `e.code()` with its category. -/
def createSocket (t : Texts) (ec : ErrorCode) : Except Bytes Unit :=
  throwIf ec (bytes "Error occured! Error code = " ++ bytes ec.category ++ bytes ":"
    ++ printInt ec.value ++ bytes ". Message: " ++ t.what .createSocket ec)

/-- What a call comes to; `set_value` does not report anything. -/
def ServerCall.result (t : Texts) (ec : ErrorCode) : ServerCall → Except Bytes Unit
  | createAndOpenAcceptor => Listener.createAndOpenAcceptor t ec
  | bind => Listener.bind t ec
  | listen => throwIf ec (t.what .listen ec)
  | createSocket => Listener.createSocket t ec
  | setValue => .ok ()
  | accept => throwIf ec (t.what .accept ec)

theorem throwIf_eq_ok_iff {ec : ErrorCode} {text : Bytes} {u : Unit} :
    throwIf ec text = .ok u ↔ ec.value = 0 := by
  simp [throwIf]

/-- **A call returns** if asio reports no error, `set_value` in any case. -/
theorem result_eq_ok_iff {t : Texts} {ec : ErrorCode} {c : ServerCall} {u : Unit} :
    c.result t ec = .ok u ↔ c = .setValue ∨ ec.value = 0 := by
  cases c <;> simp [ServerCall.result, createAndOpenAcceptor, bind, createSocket,
    throwIf_eq_ok_iff]

/-! ## The functions -/

/-- A `std::promise`, as its future sees it. -/
inductive Promise (α : Type*)
  | pending
  | value (a : α)
  | exception (what : Bytes)
  deriving DecidableEq

/-- What `future.get` returns or throws; as long as there is nothing it waits. -/
def Promise.get {α : Type*} : Promise α → Option (Except Bytes α)
  | pending => none
  | value a => some (.ok a)
  | exception what => some (.error what)

theorem Promise.get_eq_none_iff {α : Type*} {p : Promise α} : p.get = none ↔ p = .pending := by
  cases p <;> simp [get]

/-- `set_exception`, which throws if the promise has been satisfied. -/
def Promise.setException {α : Type*} (what : Bytes) : Promise α → Option (Promise α)
  | pending => some (exception what)
  | value _ | exception _ => none

/-- A function with such a `try` block. -/
structure Body (α : Type*) where
  calls : List ServerCall
  nodup : calls.Nodup
  mem_calls : ∀ c, c ∈ calls
  listen_lt_accept : calls.idxOf .listen < calls.idxOf .accept
  /-- What the promise is set to, with `socket` an end of this connection. -/
  value : Option ℕ → α

/-- `RunServer`. -/
def runServer : Body Bool where
  calls := [.createAndOpenAcceptor, .bind, .listen, .createSocket, .setValue, .accept]
  nodup := by decide
  mem_calls c := by cases c <;> decide
  listen_lt_accept := by decide
  value _ := true

/-- `GetSingleClientSocket`. -/
def getSingleClientSocket : Body (Option ℕ) where
  calls := [.createAndOpenAcceptor, .bind, .listen, .createSocket, .accept, .setValue]
  nodup := by decide
  mem_calls c := by cases c <;> decide
  listen_lt_accept := by decide
  value socket := socket

/-! ## The thread -/

/-- Where the thread is. -/
inductive Pc
  /-- In the `try` block, before these calls. -/
  | inTry (left : List ServerCall)
  /-- In the `catch` block. -/
  | inCatch (what : Bytes)
  | returned
  /-- An exception has left the thread, which ends the process. -/
  | terminated
  deriving DecidableEq

/-- The thread, and what others see of it.  Connections are numbered as they are made. -/
structure State (α : Type*) where
  pc : Pc
  /-- Is there an acceptor that listens? -/
  listening : Bool := false
  /-- The connections that wait to be accepted, the oldest first. -/
  backlog : List ℕ := []
  /-- The connection that has been accepted. -/
  socket : Option ℕ := none
  promise : Promise α := .pending
  /-- How many connections have been made. -/
  made : ℕ := 0
  deriving DecidableEq

/-- The steps. -/
inductive Event
  /-- The next call of the `try` block; `ec` is what asio reports. -/
  | call (ec : ErrorCode)
  /-- The `try` block is left. -/
  | leave
  | setException (what : Bytes)
  /-- A client connects. -/
  | connect
  deriving DecidableEq

variable {α : Type*} {t : Texts} {b : Body α} {backlogSize : ℕ} {s s' : State α} {e : Event}

/-- The thread begins. -/
def State.start (b : Body α) : State α where
  pc := .inTry b.calls

/-- The calls that are left. -/
def Pc.left : Pc → List ServerCall
  | inTry left => left
  | inCatch _ | returned | terminated => []

/-- When a step can be taken: `accept` does not return before there is a connection. -/
def Enabled (backlogSize : ℕ) (s : State α) : Event → Prop
  | .call ec => s.pc.left ≠ [] ∧
      (s.pc.left.head? = some .accept → ec.value = 0 → s.backlog ≠ [])
  | .leave => s.pc = .inTry []
  | .setException what => s.pc = .inCatch what
  | .connect => s.listening ∧ s.backlog.length < backlogSize

instance (s : State α) (e : Event) : Decidable (Enabled backlogSize s e) :=
  match e with
  | .call _ | .connect => inferInstanceAs (Decidable (_ ∧ _))
  | .leave | .setException _ => inferInstanceAs (Decidable (_ = _))

/-- What a call does that returns. -/
def State.after (b : Body α) (s : State α) : ServerCall → State α
  | .listen => { s with listening := true }
  | .accept => { s with socket := s.backlog.head?, backlog := s.backlog.tail }
  | .setValue => { s with promise := .value (b.value s.socket) }
  | .createAndOpenAcceptor | .bind | .createSocket => s

/-- The acceptor is destroyed, with the connections that it has not accepted. -/
def State.close (s : State α) : State α := { s with listening := false, backlog := [] }

/-- Where a step leads. -/
def next (t : Texts) (b : Body α) (s : State α) : Event → State α
  | .call ec =>
    match s.pc with
    | .inTry (c :: left) =>
      match c.result t ec with
      | .ok () => { s.after b c with pc := .inTry left }
      | .error what => { s.close with pc := .inCatch what }
    | _ => s
  | .leave => { s.close with pc := .returned }
  | .setException what =>
    match s.promise.setException what with
    | some promise => { s with promise := promise, pc := .returned }
    | none => { s with pc := .terminated }
  | .connect => { s with backlog := s.backlog ++ [s.made], made := s.made + 1 }

/-- A thread, and clients that connect. -/
def machine (t : Texts) (b : Body α) (backlogSize : ℕ) : Machine (State α) Event :=
  ⟨Enabled backlogSize, next t b⟩

instance (s : State α) (e : Event) : Decidable ((machine t b backlogSize).Enabled s e) :=
  inferInstanceAs (Decidable (Enabled backlogSize s e))

/-! ## What the promise tells -/

/-- What `socket` is an end of, behind these calls: of the first connection there was. -/
def accepted (before : List ServerCall) : Option ℕ := if .accept ∈ before then some 0 else none

/-- What the promise is set to. -/
def Body.set (b : Body α) : α := b.value (accepted (b.calls.takeWhile (· ≠ .setValue)))

/-- The promise, behind these calls. -/
def Body.promise (b : Body α) (before : List ServerCall) : Promise α :=
  if .setValue ∈ before then .value b.set else .pending

/-- The next call behind `before` throws, and `what` is the text. -/
def Body.Throws (t : Texts) (b : Body α) (before : List ServerCall) (what : Bytes) : Prop :=
  ∃ c after ec, b.calls = before ++ c :: after ∧ c.result t ec = .error what

/-- In the `try` block, behind the calls `before`. -/
structure Tried (b : Body α) (s : State α) (before left : List ServerCall) : Prop where
  calls : b.calls = before ++ left
  listening : s.listening ↔ .listen ∈ before
  socket : s.socket = accepted before
  promise : s.promise = b.promise before
  /-- Until one is accepted, all connections wait. -/
  backlog : .accept ∉ before → s.backlog = List.range s.made
  made : .accept ∈ before → 0 < s.made

/-- What holds of a thread at each place. -/
def At (t : Texts) (b : Body α) (s : State α) : Pc → Prop
  | .inTry left => ∃ before, Tried b s before left
  | .inCatch what => ∃ before, b.Throws t before what ∧ s.promise = b.promise before
  | .returned => s.promise = .value b.set ∧ s.socket = some 0 ∧ 0 < s.made ∨
      ∃ before what, .setValue ∉ before ∧ b.Throws t before what ∧ s.promise = .exception what
  | .terminated => s.promise = .value b.set ∧
      ∃ before what, .setValue ∈ before ∧ b.Throws t before what

/-- The state fits the place, and outside of the `try` block there is no acceptor. -/
structure Inv (t : Texts) (b : Body α) (s : State α) : Prop where
  place : At t b s s.pc
  listening : s.listening → ∃ left, s.pc = .inTry left

theorem inv_start (t : Texts) (b : Body α) : Inv t b (.start b) where
  place := ⟨[], rfl, by simp [State.start], rfl, rfl, fun _ => rfl, fun h => by cases h⟩
  listening h := absurd h Bool.false_ne_true

/-- The call that the thread is before. -/
theorem exists_left_of_enabled {ec : ErrorCode} (he : Enabled backlogSize s (.call ec)) :
    ∃ c left, s.pc = .inTry (c :: left) := by
  obtain ⟨hleft, -⟩ := he
  cases hpc : s.pc with
  | inTry left =>
    rw [hpc] at hleft
    obtain ⟨c, left, rfl⟩ := List.exists_cons_of_ne_nil hleft
    exact ⟨c, left, rfl⟩
  | inCatch _ | returned | terminated => exact absurd (congrArg Pc.left hpc) hleft

/-- No call is made twice. -/
theorem not_mem_before {before after : List ServerCall} {c : ServerCall}
    (h : b.calls = before ++ c :: after) : c ∉ before := fun hmem =>
  (List.nodup_append.mp (h ▸ b.nodup)).2.2 c hmem c List.mem_cons_self rfl

/-- Behind `set_value` the calls before it are the ones before it. -/
theorem set_eq {before left : List ServerCall} (h : b.calls = before ++ .setValue :: left) :
    b.set = b.value (accepted before) := by
  have htake : b.calls.takeWhile (· ≠ .setValue) = before := by
    rw [h, List.takeWhile_append_of_pos fun c hc => ?_]
    · simp
    · simpa using ne_of_mem_of_not_mem hc (not_mem_before h)
  rw [Body.set, htake]

/-- **A call that returns** goes on to the next one. -/
theorem tried_after {before left : List ServerCall} {c : ServerCall}
    (h : Tried b s before (c :: left)) (haccept : c = .accept → s.backlog ≠ []) :
    Tried b { s.after b c with pc := .inTry left } (before ++ [c]) left := by
  have hnot := not_mem_before h.calls
  refine ⟨by rw [h.calls, List.append_assoc]; rfl, ?_, ?_, ?_, ?_, ?_⟩
  · have hlistening := h.listening
    cases c <;> simp [State.after, hlistening]
  · cases c with
    | accept =>
      -- the oldest of all there have been
      have hbacklog := h.backlog hnot
      have hne := haccept rfl
      rw [hbacklog] at hne
      cases hmade : s.made with
      | zero => exact absurd (by rw [hmade]; rfl) hne
      | succ n => simp [State.after, accepted, hbacklog, hmade, List.range_succ_eq_map]
    | _ => simpa [State.after, accepted] using h.socket
  · cases c with
    | setValue =>
      have hset := set_eq h.calls
      simp [State.after, Body.promise, hset, h.socket]
    | _ => simpa [State.after, Body.promise] using h.promise
  · intro hlater
    rw [List.mem_append, not_or] at hlater
    have hbacklog := h.backlog hlater.1
    cases c with
    | accept => exact absurd List.mem_cons_self hlater.2
    | _ => exact hbacklog
  · intro haccepted
    cases c with
    | accept =>
      have hne := haccept rfl
      rw [h.backlog hnot] at hne
      exact Nat.pos_of_ne_zero fun hmade => hne (by rw [show s.made = 0 from hmade]; rfl)
    | _ => exact h.made (by simpa using haccepted)

/-- Outside of the `try` block there is no acceptor. -/
theorem not_listening (h : Inv t b s) (hpc : ∀ left, s.pc ≠ .inTry left) : s.listening = false := by
  by_contra hlistening
  obtain ⟨left, hleft⟩ := h.listening (by simpa using hlistening)
  exact hpc left hleft

/-- **The exception is told**, unless the value has been. -/
theorem inv_setException {before : List ServerCall} {what : Bytes} (h : Inv t b s)
    (hpc : s.pc = .inCatch what) (hthrows : b.Throws t before what)
    (hpromise : s.promise = b.promise before) : Inv t b (next t b s (.setException what)) := by
  have hclosed := not_listening h fun left => by simp [hpc]
  by_cases hset : .setValue ∈ before
  · rw [Body.promise, if_pos hset] at hpromise
    simp only [next, hpromise, Promise.setException]
    exact ⟨⟨rfl, before, what, hset, hthrows⟩, fun h => by simp [hclosed] at h⟩
  · rw [Body.promise, if_neg hset] at hpromise
    simp only [next, hpromise, Promise.setException]
    exact ⟨.inr ⟨before, what, hset, hthrows, rfl⟩, fun h => by simp [hclosed] at h⟩

theorem inv_next (h : Inv t b s) (he : Enabled backlogSize s e) : Inv t b (next t b s e) := by
  have hplace := h.place
  cases e with
  | call ec =>
    obtain ⟨c, left, hpc⟩ := exists_left_of_enabled he
    rw [hpc] at hplace
    obtain ⟨before, htried⟩ := hplace
    cases hresult : c.result t ec with
    | ok u =>
      have haccept : c = .accept → s.backlog ≠ [] := fun hc => by
        refine he.2 (by rw [hpc, hc]; rfl) ?_
        simpa [hc] using result_eq_ok_iff.mp hresult
      simp only [next, hpc, hresult]
      exact ⟨⟨_, tried_after htried haccept⟩, fun _ => ⟨left, rfl⟩⟩
    | error what =>
      simp only [next, hpc, hresult]
      exact ⟨⟨before, ⟨c, left, ec, htried.calls, hresult⟩, htried.promise⟩,
        fun h => by simp [State.close] at h⟩
  | leave =>
    rw [show s.pc = .inTry [] from he] at hplace
    obtain ⟨before, htried⟩ := hplace
    -- all calls are done
    have hdone : ∀ c, c ∈ before := fun c => by simpa [htried.calls] using b.mem_calls c
    have hpromise := htried.promise
    rw [Body.promise, if_pos (hdone _)] at hpromise
    have hsocket := htried.socket
    rw [accepted, if_pos (hdone _)] at hsocket
    refine ⟨.inl ⟨hpromise, hsocket, htried.made (hdone _)⟩, fun h => ?_⟩
    simp [next, State.close] at h
  | setException what =>
    have hpc : s.pc = .inCatch what := he
    rw [hpc] at hplace
    obtain ⟨before, hthrows, hpromise⟩ := hplace
    exact inv_setException h hpc hthrows hpromise
  | connect =>
    refine ⟨?_, h.listening⟩
    obtain ⟨left, hpc⟩ := h.listening he.1
    rw [hpc] at hplace
    obtain ⟨before, htried⟩ := hplace
    change At t b _ s.pc
    rw [hpc]
    refine ⟨before, htried.calls, htried.listening, htried.socket, htried.promise, fun hnot => ?_,
      fun _ => Nat.succ_pos _⟩
    simp [next, htried.backlog hnot, List.range_succ]

theorem inv (h : (machine t b backlogSize).Runs (.start b) s) : Inv t b s :=
  h.invariant (inv_start t b) fun _ _ _ hs he => inv_next hs he

/-- **A promise is set once.** -/
theorem promise_next (h : Inv t b s) (he : Enabled backlogSize s e)
    (hpromise : s.promise ≠ .pending) : (next t b s e).promise = s.promise := by
  cases e with
  | call ec =>
    obtain ⟨c, left, hpc⟩ := exists_left_of_enabled he
    have hplace := h.place
    rw [hpc] at hplace
    obtain ⟨before, htried⟩ := hplace
    simp only [next, hpc]
    cases c.result t ec with
    | error what => rfl
    | ok u =>
      cases c with
      | setValue =>
        -- it would not be the first one
        have hset : .setValue ∈ before := by
          by_contra hnot
          exact hpromise (htried.promise.trans (if_neg hnot))
        exact absurd hset (not_mem_before htried.calls)
      | _ => rfl
  | leave | connect => rfl
  | setException what =>
    cases hp : s.promise with
    | pending => exact absurd hp hpromise
    | value a | exception what' => simp [next, hp, Promise.setException]

/-- **There is one value** that the promise may have. -/
theorem value_eq_set (h : Inv t b s) {a : α} (hvalue : s.promise = .value a) : a = b.set := by
  have hplace := h.place
  have hset {before : List ServerCall} (hpromise : s.promise = b.promise before) : a = b.set := by
    rw [hvalue, Body.promise] at hpromise
    split at hpromise
    · exact Promise.value.inj hpromise
    · cases hpromise
  cases hpc : s.pc with
  | inTry left =>
    rw [hpc] at hplace
    obtain ⟨before, htried⟩ := hplace
    exact hset htried.promise
  | inCatch what =>
    rw [hpc] at hplace
    obtain ⟨before, -, hpromise⟩ := hplace
    exact hset hpromise
  | returned =>
    rw [hpc] at hplace
    rcases hplace with ⟨hpromise, -⟩ | ⟨_, _, -, -, hpromise⟩
    · exact Promise.value.inj (hvalue.symm.trans hpromise)
    · cases hvalue.symm.trans hpromise
  | terminated =>
    rw [hpc] at hplace
    exact Promise.value.inj (hvalue.symm.trans hplace.1)

/-! ## What has been thrown -/

/-- On the way to `s` the call `c`, behind the calls `before`, has thrown what has this text. -/
def Threw (t : Texts) (b : Body α) (backlogSize : ℕ) (s : State α) (before : List ServerCall)
    (c : ServerCall) (what : Bytes) : Prop :=
  ∃ s' after ec, (machine t b backlogSize).Runs (.start b) s' ∧
    (machine t b backlogSize).Enabled s' (.call ec) ∧ s'.pc = .inTry (c :: after) ∧
    b.calls = before ++ c :: after ∧ c.result t ec = .error what ∧
    (machine t b backlogSize).Runs (next t b s' (.call ec)) s

theorem Threw.step {before : List ServerCall} {c : ServerCall} {what : Bytes}
    (h : Threw t b backlogSize s before c what) (he : Enabled backlogSize s e) :
    Threw t b backlogSize (next t b s e) before c what := by
  obtain ⟨s', after, ec, hs', hcall, hpc, hcalls, hresult, hrun⟩ := h
  exact ⟨s', after, ec, hs', hcall, hpc, hcalls, hresult, hrun.step he⟩

/-- What is caught has been thrown, and so has what is told. -/
structure Blamed (t : Texts) (b : Body α) (backlogSize : ℕ) (s : State α) : Prop where
  caught : ∀ what, s.pc = .inCatch what → ∃ before c,
    Threw t b backlogSize s before c what ∧ s.promise = b.promise before
  told : ∀ what, s.promise = .exception what → ∃ before c,
    Threw t b backlogSize s before c what ∧ .setValue ∉ before

/-- A step that neither throws nor tells. -/
theorem Blamed.keep (h : Blamed t b backlogSize s) (he : Enabled backlogSize s e)
    (hcaught : ∀ what, (next t b s e).pc = .inCatch what →
      s.pc = .inCatch what ∧ (next t b s e).promise = s.promise)
    (htold : ∀ what, (next t b s e).promise = .exception what → s.promise = .exception what) :
    Blamed t b backlogSize (next t b s e) where
  caught what hcatch := by
    obtain ⟨hpc, hsame⟩ := hcaught what hcatch
    obtain ⟨before, c, hthrew, hp⟩ := h.caught what hpc
    exact ⟨before, c, hthrew.step he, hsame.trans hp⟩
  told what hexception := by
    obtain ⟨before, c, hthrew, hset⟩ := h.told what (htold what hexception)
    exact ⟨before, c, hthrew.step he, hset⟩

theorem blamed_next (hruns : (machine t b backlogSize).Runs (.start b) s)
    (h : Blamed t b backlogSize s) (he : Enabled backlogSize s e) :
    Blamed t b backlogSize (next t b s e) := by
  cases e with
  | call ec =>
    obtain ⟨c, left, hpc⟩ := exists_left_of_enabled he
    cases hresult : c.result t ec with
    | ok u =>
      refine h.keep he (fun what hcatch => ?_) fun what htold => ?_
      · simp [next, hpc, hresult] at hcatch
      · simp only [next, hpc, hresult] at htold
        cases c with
        | setValue => cases htold
        | _ => exact htold
    | error what' =>
      have hplace := (inv hruns).place
      rw [hpc] at hplace
      obtain ⟨before, htried⟩ := hplace
      refine ⟨fun what hcatch => ?_, fun what htold => ?_⟩
      · have hwhat : what' = what := by simpa [next, hpc, hresult] using hcatch
        refine ⟨before, c, ⟨s, left, ec, hruns, he, hpc, htried.calls, hwhat ▸ hresult, .start⟩, ?_⟩
        simpa [next, hpc, hresult, State.close] using htried.promise
      · have hbefore : s.promise = .exception what := by
          simpa [next, hpc, hresult, State.close] using htold
        obtain ⟨before', c', hthrew, hset⟩ := h.told what hbefore
        exact ⟨before', c', hthrew.step he, hset⟩
  | leave => exact h.keep he (fun what hcatch => by cases hcatch) fun _ htold => htold
  | setException what =>
    have hpc : s.pc = .inCatch what := he
    obtain ⟨before, c, hthrew, hp⟩ := h.caught what hpc
    refine ⟨fun what' hcatch => ?_, fun what' htold => ?_⟩
    · simp only [next] at hcatch
      split at hcatch <;> cases hcatch
    · refine ⟨before, c, ?_, ?_⟩
      · by_cases hset : .setValue ∈ before
        · rw [Body.promise, if_pos hset] at hp
          simp [next, hp, Promise.setException] at htold
        · have hpending := hp.trans (if_neg hset)
          have hwhat : what = what' := by
            simpa [next, hpending, Promise.setException] using htold
          exact hwhat ▸ hthrew.step he
      · intro hset
        rw [Body.promise, if_pos hset] at hp
        simp [next, hp, Promise.setException] at htold
  | connect => exact h.keep he (fun what hcatch => ⟨hcatch, rfl⟩) fun _ htold => htold

/-- **What the thread throws, or tells, is what one of its calls has thrown**, and it tells of those
alone that come before `set_value`. -/
theorem blamed (h : (machine t b backlogSize).Runs (.start b) s) : Blamed t b backlogSize s := by
  refine h.invariant ⟨fun what hcatch => ?_, fun what htold => ?_⟩ fun s' e hs' hblamed he =>
    blamed_next hs' hblamed he
  · cases hcatch
  · cases htold

/-! ## The thread goes on -/

/-- The steps that the thread has still to make. -/
def Pc.steps : Pc → ℕ
  | inTry left => left.length + 2
  | inCatch _ => 1
  | returned | terminated => 0

/-- The thread is in `accept`, and nobody has connected. -/
def State.Waits (s : State α) : Prop := s.pc.left.head? = some .accept ∧ s.backlog = []

instance (s : State α) : Decidable s.Waits := inferInstanceAs (Decidable (_ ∧ _))

theorem steps_next (he : Enabled backlogSize s e) (hconnect : e ≠ .connect) :
    (next t b s e).pc.steps < s.pc.steps := by
  cases e with
  | call ec =>
    obtain ⟨c, left, hpc⟩ := exists_left_of_enabled he
    simp only [next, hpc]
    cases c.result t ec <;> simp [Pc.steps]
  | leave => simp [next, Pc.steps, State.close, show s.pc = .inTry [] from he]
  | setException what =>
    simp only [next]
    cases s.promise.setException what <;> simp [Pc.steps, show s.pc = .inCatch what from he]
  | connect => exact absurd rfl hconnect

/-- The steps of the thread, and of those who may still connect. -/
def State.variant (backlogSize : ℕ) (s : State α) : ℕ :=
  (backlogSize + 1) * s.pc.steps + (backlogSize - s.backlog.length)

/-- **No thread can be connected to for ever.** -/
theorem variant_next (he : Enabled backlogSize s e) :
    (next t b s e).variant backlogSize < s.variant backlogSize := by
  by_cases hconnect : e = .connect
  · subst hconnect
    have hroom := he.2
    simp only [State.variant, next, List.length_append, List.length_singleton]
    omega
  · have hlt := steps_next (t := t) (b := b) he hconnect
    have hmul := Nat.mul_le_mul_left (backlogSize + 1) hlt
    rw [Nat.mul_succ] at hmul
    simp only [State.variant]
    omega

/-- **There is nothing behind the end.** -/
theorem not_enabled_of_returned (h : Inv t b s) (hpc : s.pc = .returned) :
    ¬ Enabled backlogSize s e := by
  intro he
  cases e with
  | call ec => exact he.1 (by rw [hpc]; rfl)
  | leave => cases hpc.symm.trans he
  | setException what => cases hpc.symm.trans he
  | connect =>
    obtain ⟨left, hleft⟩ := h.listening he.1
    cases hpc.symm.trans hleft

theorem made_next (hconnect : e ≠ .connect) : (next t b s e).made = s.made := by
  cases e with
  | call ec =>
    simp only [next]
    split
    · split
      next c _ _ _ _ => cases c <;> rfl
      · rfl
    · rfl
  | leave => rfl
  | setException what =>
    simp only [next]
    cases s.promise.setException what <;> rfl
  | connect => exact absurd rfl hconnect

theorem made_le_next (e : Event) : s.made ≤ (next t b s e).made := by
  by_cases hconnect : e = .connect
  · subst hconnect
    exact Nat.le_succ _
  · rw [made_next hconnect]

/-- **The thread is held up by `accept` alone.** -/
theorem exists_enabled (backlogSize : ℕ) (hsteps : s.pc.steps ≠ 0) (hwaits : ¬ s.Waits) :
    Enabled backlogSize s (.call .success) ∨ Enabled backlogSize s .leave ∨
      ∃ what, Enabled backlogSize s (.setException what) := by
  cases hpc : s.pc with
  | inTry left =>
    cases left with
    | nil => exact .inr (.inl hpc)
    | cons c left =>
      refine .inl ⟨by simp [hpc, Pc.left], fun hhead _ hnone => hwaits ⟨hhead, hnone⟩⟩
  | inCatch what => exact .inr (.inr ⟨what, hpc⟩)
  | returned | terminated => exact absurd (by rw [hpc]; rfl) hsteps

/-- A thread that waits is before its `accept`. -/
theorem tried_of_waits (h : Inv t b s) (hwaits : s.Waits) :
    ∃ before after, Tried b s before (.accept :: after) := by
  have hhead := hwaits.1
  have hplace := h.place
  cases hpc : s.pc with
  | inTry left =>
    rw [hpc] at hhead hplace
    obtain ⟨after, rfl⟩ := List.head?_eq_some_iff.mp hhead
    obtain ⟨before, htried⟩ := hplace
    exact ⟨before, after, htried⟩
  | inCatch _ | returned | terminated =>
    rw [hpc] at hhead
    cases hhead

/-- Until a thread that waits is connected to, nobody has connected. -/
theorem made_of_waits (h : Inv t b s) (hwaits : s.Waits) : s.listening ∧ s.made = 0 := by
  obtain ⟨before, after, htried⟩ := tried_of_waits h hwaits
  have hnot := not_mem_before htried.calls
  have hrange := htried.backlog hnot
  rw [hwaits.2] at hrange
  refine ⟨htried.listening.mpr ?_, by simpa using hrange.symm⟩
  by_contra hlisten
  have hlt := b.listen_lt_accept
  rw [htried.calls, List.idxOf_append_of_notMem hlisten, List.idxOf_append_of_notMem hnot,
    List.idxOf_cons_self] at hlt
  omega

/-- Whoever finds the acceptor listening finds the thread in its `try` block. -/
theorem steps_of_listening (h : Inv t b s) (hlistening : s.listening) : s.pc.steps ≠ 0 := by
  obtain ⟨left, hpc⟩ := h.listening hlistening
  simp [hpc, Pc.steps]

/-! ## What comes behind `set_value` -/

/-- A call is behind `set_value` if `set_value` is before it. -/
theorem mem_of_calls_eq {before after left left' : List ServerCall} {c : ServerCall}
    (hcalls : b.calls = left ++ .setValue :: left') (heq : b.calls = before ++ c :: after)
    (hset : .setValue ∈ before) : c ∈ left' := by
  have hnot := not_mem_before hcalls
  rw [hcalls, List.append_eq_append_iff] at heq
  rcases heq with ⟨mid, rfl, hmid⟩ | ⟨mid, rfl, -⟩
  · cases mid with
    | nil =>
      rw [List.append_nil] at hset
      exact absurd hset hnot
    | cons c' mid =>
      rw [(List.cons.inj hmid).2]
      simp
  · exact absurd (List.mem_append_left mid hset) hnot

/-- **Behind its `set_value` `GetSingleClientSocket` calls nothing.** -/
theorem not_mem_of_getSingleClientSocket {before after : List ServerCall} {c : ServerCall}
    (h : getSingleClientSocket.calls = before ++ c :: after) : .setValue ∉ before := by
  intro hset
  have hcalls : getSingleClientSocket.calls
      = getSingleClientSocket.calls.dropLast ++ .setValue :: [] := rfl
  cases mem_of_calls_eq hcalls h hset

/-- `set_value` is behind the other calls of `RunServer`, but for `accept`. -/
theorem eq_accept_of_runServer {before after : List ServerCall} {c : ServerCall}
    (h : runServer.calls = before ++ c :: after) (hset : .setValue ∈ before) : c = .accept := by
  have hcalls : runServer.calls = runServer.calls.take 4 ++ .setValue :: [.accept] := rfl
  exact List.mem_singleton.mp (mem_of_calls_eq hcalls h hset)

/-- When `RunServer` has set the value, it listens. -/
theorem listen_mem_of_runServer {before left : List ServerCall}
    (h : runServer.calls = before ++ left) (hset : .setValue ∈ before) : .listen ∈ before := by
  by_contra hnot
  have hleft : .listen ∈ left := by
    have hmem := runServer.mem_calls .listen
    rw [h, List.mem_append] at hmem
    exact hmem.resolve_left hnot
  obtain ⟨mid, after, rfl⟩ := List.append_of_mem hleft
  rw [← List.append_assoc] at h
  cases eq_accept_of_runServer h (List.mem_append_left mid hset)

/-- When `RunServer` accepts, it has set the value. -/
theorem setValue_mem_of_runServer {before after : List ServerCall}
    (h : runServer.calls = before ++ .accept :: after) : .setValue ∈ before := by
  have hcalls : runServer.calls = runServer.calls.take 5 ++ .accept :: [] := rfl
  rw [hcalls, List.append_cons_inj_of_notMem (by decide) (by decide)] at h
  rw [← h.1]
  decide

/-- **Behind its `set_value` `RunServer` accepts.** -/
theorem accept_of_runServer {before : List ServerCall} {what : Bytes}
    (h : runServer.Throws t before what) (hset : .setValue ∈ before) :
    ∃ ec : ErrorCode, ec.value ≠ 0 ∧ what = t.what .accept ec := by
  obtain ⟨c, after, ec, heq, hresult⟩ := h
  obtain rfl := eq_accept_of_runServer heq hset
  refine ⟨ec, ?_⟩
  simp only [ServerCall.result, throwIf] at hresult
  split at hresult
  next hec => exact ⟨hec, (Except.error.inj hresult).symm⟩
  · cases hresult

end Listener

end AsioSamples
