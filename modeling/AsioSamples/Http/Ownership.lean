import AsioSamples.Http.Exchange
import AsioSamples.Machinery.Transition

/-!
# Http/Ownership — the life of an `HttpService`

A service owns itself: each of its handlers either initiates the next operation or deletes the
service, and nothing else does.  Every operation may complete with anything, and every handler may
find another file system.  `Life` says how far a service has come and what it has sent by then;
`service_answers_once` reads off it that a service is deleted once, and answers once at most.
-/

namespace AsioSamples

namespace HttpService

/-! ## States and events -/

/-- A service, its outstanding operations, and what has happened. -/
structure State where
  service : HttpService := {}
  outstanding : List (Pending ServiceOp)
  deleted : ℕ := 0
  /-- The buffers of every `async_write`, which `send_response` and nothing else initiates. -/
  writes : List (List Bytes) := []
  /-- What left a handler into `io_context::run`. -/
  escaped : List Exception := []

/-- The steps. -/
inductive Event
  /-- `op` completes. -/
  | complete (op : ServiceOp) (c : Completion)
  /-- Its handler runs; `os` is what the calls it makes report. -/
  | handle (op : ServiceOp) (c : Completion) (os : Os)

/-- `HandleRequest` has been called. -/
def State.start : State := { outstanding := Pending.initiate [] handleRequest }

/-- When a step can be taken. -/
def Enabled (s : State) : Event → Prop
  | .complete op _ => (⟨op, none⟩ : Pending ServiceOp) ∈ s.outstanding
  | .handle op c _ => ⟨op, some c⟩ ∈ s.outstanding

instance (s : State) (e : Event) : Decidable (Enabled s e) :=
  match e with
  | .complete .. | .handle .. => inferInstanceAs (Decidable (_ ∈ _))

/-- The state in which a handler has ended. -/
def State.after (s : State) : Except Exception (HttpService × ServiceControl) → State
  | .ok (service, .await op) =>
    { s with
      service := service
      outstanding := Pending.initiate s.outstanding op
      writes := match op with
        | .write buffers => s.writes ++ [buffers]
        | _ => s.writes }
  | .ok (service, .deleted) => { s with service := service, deleted := s.deleted + 1 }
  | .error e => { s with escaped := s.escaped ++ [e] }

/-- Where a step leads. -/
def next (s : State) : Event → State
  | .complete op c => { s with outstanding := Pending.complete s.outstanding op c }
  | .handle op c os =>
    { s with outstanding := Pending.dequeue s.outstanding op c }.after
      (s.service.handle os op c.ec c.received)

/-- The service among its operations. -/
def machine : Machine State Event := ⟨Enabled, next⟩

instance (s : State) (e : Event) : Decidable (machine.Enabled s e) :=
  inferInstanceAs (Decidable (Enabled s e))

/-! ## What is sent -/

/-- The line for the length. -/
def lengthLine (s : HttpService) : Bytes :=
  bytes "content-length: " ++ toString s.resourceSizeBytes.toNat ++ crlf

/-- The buffers of a write are a status line, at most one line for the length, an empty line and the
resource, of which there is none unless the status is 200. -/
def Response (s : HttpService) (buffers : List Bytes) : Prop :=
  ∃ text length body, httpStatusTable.lookup s.responseStatusCode = some text ∧
    (length = [] ∨ length = s.lengthLine) ∧ body.length = s.resourceSizeBytes.toNat ∧
    (s.responseStatusCode ≠ 200 → body = []) ∧
    buffers.flatten = bytes "HTTP/1.1 " ++ text ++ crlf ++ length ++ crlf ++ body

/-- Nothing has been decided but the status; or it is 200, and a resource is there with its length.
-/
def Decided (s : HttpService) : Prop :=
  s.Undecided ∨ s.responseStatusCode = 200 ∧ s.responseHeaders = s.lengthLine ∧
    s.resourceBuffer.length = s.resourceSizeBytes.toNat

/-- **`send_response` sends a response.** -/
theorem response_of_sendResponse {os : Os} {s s' : HttpService} {buffers : List Bytes}
    (hs : s.Decided) (h : sendResponse os s = .ok (s', .await (.write buffers))) :
    Response s' buffers := by
  obtain ⟨hcode, text, buffers', htext, hop, hflat⟩ := sendResponse_ok h
  cases hop
  obtain ⟨line, headers, rfl⟩ := sendResponse_eq h
  rcases hs with hs | ⟨h200, hheaders, hlen⟩
  · refine ⟨text, [], [], htext, Or.inl rfl, ?_, fun _ => rfl, ?_⟩
    · simp [hs.size]
    · rw [hflat, hs.headers, hs.size]
      simp
  · refine ⟨text, s.lengthLine, s.resourceBuffer, htext, Or.inr rfl, hlen,
      fun hne => absurd h200 hne, ?_⟩
    rw [hflat, hheaders, sentResource_eq hlen, ← List.append_assoc _ s.lengthLine]

/-- A read fills its buffer. -/
theorem length_read_newChars (os : Os) (f : OpenFile) (n : ℕ) :
    (f.read (os.newChars n) n).length = n := by
  simp only [OpenFile.read, List.length_append, List.length_drop, Os.length_newChars,
    List.length_take]
  omega

/-- **`process_request` decides the response.** -/
theorem decided_of_processRequest {os : Os} {s s' : HttpService} (hs : s.Undecided)
    (hcode : s.responseStatusCode = 200) (h : processRequest os s = .ok s') :
    s'.Decided ∧ (httpStatusTable.lookup s'.responseStatusCode).isSome := by
  unfold processRequest at h
  cases hfile : os.find s.resourceFilePath <;> simp only [hfile] at h
  case missing | unopenable =>
    cases h
    exact ⟨Or.inl ⟨hs.headers, hs.size⟩, rfl⟩
  case opened f =>
    split at h
    next =>
      cases h
      refine ⟨Or.inr ⟨hcode, ?_, length_read_newChars os f _⟩, ?_⟩
      · have h₁ : bytes "content-length" ++ bytes ": " = bytes "content-length: " := by decide
        have h₂ : bytes "\r\n" = crlf := by decide
        simp only [hs.headers, h₁, h₂, List.nil_append]
        rfl
      · rw [hcode]
        rfl
    next => cases h
  case statusError ec => cases h

/-! ## One handler -/

/-- No call that the handler of `op` makes fails. -/
structure CallsSucceed (os : Os) (s : HttpService) (op : ServiceOp) (ec : ErrorCode) : Prop where
  receive : os.shutdownReceive.value = 0
  both : os.shutdownBoth.value = 0
  provides : op = .readHeaders → ec.value = 0 → os.Provides s.resourceFilePath

/-- How a handler of a service that is still reading ends. -/
inductive ReadEnd : Except Exception (HttpService × ServiceControl) → Prop
  | deleted (s : HttpService) : ReadEnd (.ok (s, .deleted))
  | readOn {s : HttpService} (hs : s.Undecided) (hcode : s.responseStatusCode = 200) :
    ReadEnd (.ok (s, .await .readHeaders))
  | answer {s : HttpService} {buffers : List Bytes} (h : Response s buffers) :
    ReadEnd (.ok (s, .await (.write buffers)))

theorem readEnd_sendResponse {os : Os} {s : HttpService} (hs : s.Decided)
    (hok : ∀ e, sendResponse os s ≠ .error e) : ReadEnd (sendResponse os s) := by
  cases hsend : sendResponse os s with
  | error e => exact absurd hsend (hok e)
  | ok p =>
    obtain ⟨s', c⟩ := p
    obtain ⟨-, -, buffers, -, rfl, -⟩ := sendResponse_ok hsend
    exact .answer (response_of_sendResponse hs hsend)

/-- **A handler of a service that is reading** deletes it, reads on, or answers, unless it throws.
-/
theorem readEnd_handle {os : Os} {s : HttpService} (hs : s.Undecided)
    (hcode : s.responseStatusCode = 200) {op : ServiceOp} (hop : ∀ buffers, op ≠ .write buffers)
    {ec : ErrorCode} {received : Bytes} (hok : ∀ e, s.handle os op ec received ≠ .error e) :
    ReadEnd (s.handle os op ec received) := by
  set filled : HttpService := { s with request := s.request ++ received } with hfilled
  cases op with
  | readRequestLine =>
    change ∀ e, filled.onRequestLineReceived os ec ≠ .error e at hok
    change ReadEnd (filled.onRequestLineReceived os ec)
    rcases onRequestLineReceived_cases os filled ec with
      ⟨-, hend⟩ | ⟨_, _, _, -, hend⟩ | ⟨-, _, _, -, hend⟩ <;> rw [hend] at hok ⊢
    · exact .deleted _
    · exact readEnd_sendResponse (Or.inl ⟨hs.headers, hs.size⟩) hok
    · exact .readOn ⟨hs.headers, hs.size⟩ hcode
  | readHeaders =>
    change ∀ e, filled.onHeadersReceived os ec ≠ .error e at hok
    change ReadEnd (filled.onHeadersReceived os ec)
    rcases onHeadersReceived_cases os filled ec with
      ⟨-, hend⟩ | ⟨-, hend⟩ | ⟨-, hend⟩ <;> rw [hend] at hok ⊢
    · exact .deleted _
    · exact readEnd_sendResponse (Or.inl ⟨hs.headers, hs.size⟩) hok
    · cases hprocess : processRequest os (filled.withParsed
        filled.runHeaderLoop.requestStream.rest filled.runHeaderLoop.requestHeaders) with
      | error e => exact absurd (congrArg (· >>= sendResponse os) hprocess) (hok e)
      | ok s' =>
        have hparsed : Undecided (filled.withParsed filled.runHeaderLoop.requestStream.rest
          filled.runHeaderLoop.requestHeaders) := ⟨hs.headers, hs.size⟩
        rw [hprocess] at hok
        exact readEnd_sendResponse (decided_of_processRequest hparsed hcode hprocess).1 hok
  | write buffers => exact absurd rfl (hop buffers)

/-- **No handler of a service that is reading throws**, if its calls succeed. -/
theorem handle_ne_error {os : Os} {s : HttpService} (hs : s.Undecided)
    (hcode : s.responseStatusCode = 200) {op : ServiceOp} (hop : ∀ buffers, op ≠ .write buffers)
    {ec : ErrorCode} (hos : CallsSucceed os s op ec) (received : Bytes) (e : Exception) :
    s.handle os op ec received ≠ .error e := by
  have hsend {s' : HttpService} (htext : (httpStatusTable.lookup s'.responseStatusCode).isSome) :
      sendResponse os s' ≠ .error e := by
    obtain ⟨s'', buffers, h⟩ := exists_sendResponse hos.receive htext
    rw [h]
    exact fun h => by cases h
  set filled : HttpService := { s with request := s.request ++ received } with hfilled
  cases op with
  | readRequestLine =>
    change filled.onRequestLineReceived os ec ≠ .error e
    rcases onRequestLineReceived_cases os filled ec with
      ⟨-, hend⟩ | ⟨_, _, _, hstatus, hend⟩ | ⟨-, _, _, -, hend⟩ <;> rw [hend]
    · exact fun h => by cases h
    · exact hsend hstatus.1
    · exact fun h => by cases h
  | readHeaders =>
    change filled.onHeadersReceived os ec ≠ .error e
    rcases onHeadersReceived_cases os filled ec with
      ⟨-, hend⟩ | ⟨-, hend⟩ | ⟨hec, hend⟩ <;> rw [hend]
    · exact fun h => by cases h
    · exact hsend rfl
    · obtain ⟨s', hprocess⟩ : ∃ s', processRequest os (filled.withParsed
          filled.runHeaderLoop.requestStream.rest filled.runHeaderLoop.requestHeaders) = .ok s' :=
        processRequest_isOk_iff.mpr (hos.provides rfl hec)
      have hparsed : Undecided (filled.withParsed filled.runHeaderLoop.requestStream.rest
        filled.runHeaderLoop.requestHeaders) := ⟨hs.headers, hs.size⟩
      rw [hprocess]
      exact hsend (decided_of_processRequest hparsed hcode hprocess).2
  | write buffers => exact absurd rfl (hop buffers)

/-! ## A whole life -/

/-- No call that a handler makes fails. -/
def NoThrow (s : State) : Event → Prop
  | .handle op c os => CallsSucceed os s.service op c.ec
  | _ => True

/-- How far a service has come: it reads, or writes its one response, or has been deleted. -/
inductive Life : State → Prop
  | reading {s : State} {op : ServiceOp} {result : Option Completion}
    (hop : ∀ buffers, op ≠ .write buffers) (hs : s.service.Undecided)
    (hcode : s.service.responseStatusCode = 200) (hout : s.outstanding = [⟨op, result⟩])
    (hdeleted : s.deleted = 0) (hwrites : s.writes = []) (hescaped : s.escaped = []) : Life s
  | writing {s : State} {buffers : List Bytes} {result : Option Completion}
    (hresponse : Response s.service buffers) (hout : s.outstanding = [⟨.write buffers, result⟩])
    (hdeleted : s.deleted = 0) (hwrites : s.writes = [buffers]) (hescaped : s.escaped = []) : Life s
  | gone {s : State} (hresponse : ∀ buffers ∈ s.writes, Response s.service buffers)
    (hout : s.outstanding = []) (hdeleted : s.deleted = 1) (hwrites : s.writes.length ≤ 1)
    (hescaped : s.escaped = []) : Life s

theorem life_start : Life .start :=
  .reading (fun _ h => by cases h) ⟨rfl, rfl⟩ rfl rfl rfl rfl rfl

/-- A completion changes the one operation there is. -/
theorem life_complete {s : State} {op : ServiceOp} {c : Completion} (h : Life s)
    (he : Enabled s (.complete op c)) : Life (next s (.complete op c)) := by
  cases h with
  | reading hop hs hcode hout hdeleted hwrites hescaped =>
    simp only [Enabled, hout, List.mem_singleton] at he
    cases he
    exact .reading hop hs hcode (by rw [next, hout, Pending.complete_singleton]) hdeleted hwrites
      hescaped
  | writing hresponse hout hdeleted hwrites hescaped =>
    simp only [Enabled, hout, List.mem_singleton] at he
    cases he
    exact .writing hresponse (by rw [next, hout, Pending.complete_singleton]) hdeleted hwrites
      hescaped
  | gone hresponse hout =>
    rw [Enabled, hout] at he
    cases he

/-- **A handler goes on with the life of the service.** -/
theorem life_handle {s : State} {op : ServiceOp} {c : Completion} {os : Os} (h : Life s)
    (he : Enabled s (.handle op c os)) (hos : CallsSucceed os s.service op c.ec) :
    Life (next s (.handle op c os)) := by
  cases h with
  | reading hop hs hcode hout hdeleted hwrites hescaped =>
    simp only [Enabled, hout, List.mem_singleton] at he
    cases he
    have hend := readEnd_handle hs hcode hop (handle_ne_error hs hcode hop hos c.received)
    simp only [next, hout, Pending.dequeue_singleton]
    generalize s.service.handle os op c.ec c.received = ended at hend
    cases hend with
    | deleted svc =>
      refine .gone ?_ rfl (congrArg (· + 1) hdeleted) ?_ hescaped
      · simp [State.after, hwrites]
      · simp [State.after, hwrites]
    | readOn hs' hcode' =>
      exact .reading (fun _ h => by cases h) hs' hcode' rfl hdeleted hwrites hescaped
    | answer hresponse =>
      exact .writing hresponse rfl hdeleted (by simp [State.after, hwrites]) hescaped
  | writing hresponse hout hdeleted hwrites hescaped =>
    simp only [Enabled, hout, List.mem_singleton] at he
    cases he
    simp only [next, hout, Pending.dequeue_singleton, handle, onResponseSent]
    rw [if_neg (not_not.mpr hos.both)]
    refine .gone ?_ rfl (congrArg (· + 1) hdeleted) ?_ hescaped
    · simpa [State.after, hwrites] using hresponse
    · simp [State.after, hwrites]
  | gone hresponse hout =>
    rw [Enabled, hout] at he
    cases he

/-- **Every service lives such a life**, as long as nothing throws. -/
theorem life {s : State} (h : (machine.restrict NoThrow).Runs .start s) : Life s := by
  refine h.invariant life_start fun s' e _ hs he => ?_
  cases e with
  | complete op c => exact life_complete hs he.1
  | handle op c os => exact life_handle hs he.1 he.2

/-- **A service is deleted once and answers once at most.**  Between its handlers it either waits
for one operation or has been deleted, once; nothing has been thrown, by `http_status_table.at`
either; and all it ever wrote is one response. -/
theorem service_answers_once {s : State} (h : (machine.restrict NoThrow).Runs .start s) :
    (s.deleted = 0 ∧ s.outstanding.length = 1 ∨ s.deleted = 1 ∧ s.outstanding.length = 0) ∧
      s.escaped = [] ∧ s.writes.length ≤ 1 ∧ ∀ buffers ∈ s.writes, Response s.service buffers := by
  cases life h with
  | reading hop hs hcode hout hdeleted hwrites hescaped =>
    simp [hout, hdeleted, hwrites, hescaped]
  | writing hresponse hout hdeleted hwrites hescaped =>
    simpa [hout, hdeleted, hwrites, hescaped] using hresponse
  | gone hresponse hout hdeleted hwrites hescaped =>
    exact ⟨Or.inr ⟨hdeleted, by rw [hout]; rfl⟩, hescaped, hwrites, hresponse⟩

/-- `op` completes, and its handler runs. -/
def handleBy (op : ServiceOp) (c : Completion) (os : Os) : List Event :=
  [.complete op c, .handle op c os]

/-- The buffers of the answer to `TEST(Http, simpleScenario)`. -/
def simpleScenarioAnswer : List Bytes :=
  [bytes "HTTP/1.1 200 OK\r\n", bytes "content-length: 2\r\n\r\n", bytes "hi"]

/-- A connection with the request of `TEST(Http, simpleScenario)`, up to its deletion. -/
def simpleScenarioLife (os : Os) : List Event :=
  handleBy .readRequestLine ⟨.success, HTTPRequest.simpleScenario.requestBytes⟩ os
    ++ handleBy .readHeaders ⟨.success, []⟩ os
    ++ handleBy (.write simpleScenarioAnswer) ⟨.success, []⟩ os

/-- The operating system of the sample provides for every path. -/
theorem provides_manualHtml {contents : Bytes} (h : contents.length < 2 ^ 63) (path : Bytes) :
    (HTTPRequest.manualHtml contents).Provides path := by
  refine ⟨fun ec => ?_, fun f hf => ?_⟩ <;> simp only [Os.find, HTTPRequest.manualHtml] at *
  · split <;> simp
  · split at hf
    · cases hf
      obtain ⟨hsize, hlt⟩ := OpenFile.size_of_tellg
        (f := ⟨Int64.ofNat contents.length, contents⟩) (Int64.toInt_ofNat_of_lt h)
      exact ⟨by rw [hsize]; exact hlt, rfl⟩
    · cases hf

theorem callsSucceed_manualHtml {contents : Bytes} (h : contents.length < 2 ^ 63)
    (s : HttpService) (op : ServiceOp) (ec : ErrorCode) :
    CallsSucceed (HTTPRequest.manualHtml contents) s op ec :=
  ⟨rfl, rfl, fun _ _ => provides_manualHtml h _⟩

/-- That life is a run to a deleted service. -/
theorem exists_runs_simpleScenario : ∃ s, (machine.restrict NoThrow).Runs .start s ∧
    s.deleted = 1 ∧ s.writes = [simpleScenarioAnswer] := by
  obtain ⟨s, hs, hdeleted, hwrites⟩ : ∃ s,
      machine.exec .start (simpleScenarioLife (HTTPRequest.manualHtml (bytes "hi"))) = some s ∧
        s.deleted = 1 ∧ s.writes = [simpleScenarioAnswer] := ⟨_, rfl, rfl, by decide +kernel⟩
  have hno : ∀ e ∈ simpleScenarioLife (HTTPRequest.manualHtml (bytes "hi")), ∀ s, NoThrow s e := by
    intro e he s
    simp only [simpleScenarioLife, handleBy, List.cons_append, List.nil_append] at he
    fin_cases he <;> first | trivial | exact callsSucceed_manualHtml (by decide) _ _ _
  exact ⟨s, Machine.runs_restrict_of_exec hno hs, hdeleted, hwrites⟩

theorem service_answers_once_simpleScenario : ∃ s, (machine.restrict NoThrow).Runs .start s ∧
    s.deleted = 1 ∧ s.writes = [simpleScenarioAnswer] ∧
      ∀ buffers ∈ s.writes, Response s.service buffers := by
  obtain ⟨s, hrun, hdeleted, hwrites⟩ := exists_runs_simpleScenario
  exact ⟨s, hrun, hdeleted, hwrites, (service_answers_once hrun).2.2.2⟩

end HttpService

end AsioSamples
