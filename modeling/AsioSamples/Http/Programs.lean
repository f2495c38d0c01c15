import AsioSamples.Asio.Reading
import AsioSamples.Http.Exchange

/-!
# Http/Programs — `HTTPRequest` and `HttpService` as chains of reads

An uncancelled request and a service are each a `Program`: operations that are given what they read,
and handlers that go on to the next one.  On all the chunks at once they do what `Http/Exchange`
says (`run_eq_program`, `serve_eq_program`); between the steps of an interleaving they are the
subject of `Http/Dialogue`.
-/

namespace AsioSamples

/-! ## The request -/

namespace HTTPRequest

/-- What an operation reads. -/
def wait (r : HTTPRequest) : AsyncOp → Wait
  | .resolve _ _ | .connect | .write _ => .nothing
  | .readStatusLine => .upTo none crlf r.response.responseBuf
  | .readHeaders => .upTo none crlfcrlf r.response.responseBuf
  | .readBody => .all

/-- An uncancelled request, as a chain of operations. -/
def program (w : ULong) (shutdown : ErrorCode) :
    Program HTTPRequest AsyncOp (ErrorCode × HTTPRequest) where
  wait := wait
  handle r op c :=
    match r.handle w shutdown op c with
    | some (r', .lock op') => .await r' op'
    | some (r', .finish ec) => .stop (some (ec, r'))
    | _ => .stop none
  rank := stages
  rank_lt := by
    intro r op c r' op' h
    split at h
    next r' op' hlock =>
      cases h
      have hstages : stages op = stages op' + 1 := (handle_eq_some hlock).2
      omega
    all_goals cases h

section Program

variable {w : ULong} {shutdown : ErrorCode} {r r' : HTTPRequest} {op op' : AsyncOp} {c : Completion}

theorem program_await (h : r.handle w shutdown op c = some (r', .lock op')) :
    (program w shutdown).handle r op c = .await r' op' := by
  simp only [program, h]

theorem program_finish {ec : ErrorCode} (h : r.handle w shutdown op c = some (r', .finish ec)) :
    (program w shutdown).handle r op c = .stop (some (ec, r')) := by
  simp only [program, h]

/-- A read that is given all its chunks at once. -/
theorem complete_eq_resume (answer : Bytes → List Bytes) (hop : stages op ≤ 3)
    (incoming : List Bytes) : r.complete answer op incoming =
      (⟨((r.wait op).resume [] incoming).ec, ((r.wait op).resume [] incoming).received⟩,
        ((r.wait op).resume [] incoming).rest) := by
  cases op with
  | resolve host service | connect | write buffer => exact absurd hop (by simp [stages])
  | readStatusLine | readHeaders | readBody => simp [complete, wait, Wait.resume, readAll]

/-- **The reads of a request** are those of its program. -/
theorem runFrom_eq_program {answer : Bytes → List Bytes} {n : ℕ} (hop : stages op ≤ 3)
    (hn : stages op ≤ n) (incoming : List Bytes) :
    runFrom w shutdown answer n r op incoming = (program w shutdown).run r op incoming := by
  induction n generalizing r op incoming with
  | zero => cases op <;> exact absurd hn (by simp [stages])
  | succ n ih =>
    rw [runFrom, complete_eq_resume answer hop, Program.run_eq_resumed, Program.resumed,
      Program.after, program]
    simp only
    cases hhandle : r.handle w shutdown op ⟨((r.wait op).resume [] incoming).ec,
        ((r.wait op).resume [] incoming).received⟩ with
    | none => rfl
    | some o =>
      obtain ⟨r', ctl⟩ := o
      cases ctl with
      | finish ec => rfl
      | lock op' =>
        have hstages : stages op = stages op' + 1 := (handle_eq_some hhandle).2
        exact ih (by omega) (by omega) _
      | throws ec => rfl

/-- An operation that reads nothing. -/
theorem program_run_of_nothing (hwait : r.wait op = .nothing)
    (h : r.handle w shutdown op ⟨.success, []⟩ = some (r', .lock op')) :
    (program w shutdown).run r op = (program w shutdown).run r' op' := by
  funext chunks
  have hresume : ((program w shutdown).wait r op).resume [] chunks = ⟨.success, [], chunks⟩ := by
    change (r.wait op).resume [] chunks = _
    rw [hwait]
    rfl
  rw [Program.run_eq_resumed, Program.resumed, hresume, Program.after_of_await (program_await h)]

/-- **A run of a request** is one of its program, on what the peer answers. -/
theorem run_eq_program {answer : Bytes → List Bytes} (hexec : r.execute.isSome)
    (hbuf : r.requestBuf = []) (hshut : shutdown.value = 0) :
    r.run w shutdown answer = (program w shutdown).run r
      (.resolve r.host (toString r.port.toNat)) (answer r.requestBytes) := by
  have hresolve : (program w shutdown).run r (.resolve r.host (toString r.port.toNat))
      = (program w shutdown).run r .connect := program_run_of_nothing rfl rfl
  have hconnect : (program w shutdown).run r .connect = (program w shutdown).run
      { r with requestBuf := r.requestBytes } (.write r.requestBytes) := by
    refine program_run_of_nothing rfl ?_
    simp [handle, onConnectionEstablished, hbuf]
  have hwrite (r : HTTPRequest) (buffer : Bytes) : (program w shutdown).run r (.write buffer)
      = (program w shutdown).run r .readStatusLine :=
    program_run_of_nothing rfl (by simp [handle, onRequestSent, hshut])
  rw [run_eq_runFrom w shutdown answer hexec hbuf hshut,
    runFrom_eq_program (by simp [stages]) (by simp [stages]), hresolve, hconnect, hwrite]

end Program

end HTTPRequest

/-! ## The service -/

namespace HttpService

/-- What an operation reads. -/
def wait (s : HttpService) : ServiceOp → Wait
  | .readRequestLine => .upTo (some maxRequest) crlf s.request
  | .readHeaders => .upTo (some maxRequest) crlfcrlf s.request
  | .write _ => .nothing

/-- How many operations there are before the write. -/
def reads : ServiceOp → ℕ
  | .readRequestLine => 2
  | .readHeaders => 1
  | .write _ => 0

/-- A handler that reads on is one read nearer to the write. -/
theorem reads_lt_of_handle {os : Os} {s s' : HttpService} {op op' : ServiceOp} {ec : ErrorCode}
    {received : Bytes} (h : s.handle os op ec received = .ok (s', .await op')) :
    reads op' < reads op := by
  cases op with
  | readRequestLine =>
    rcases onRequestLineReceived_ok h with hc | hc | ⟨buffers, hc⟩ <;> cases hc <;> simp [reads]
  | readHeaders =>
    rcases onHeadersReceived_ok h with hc | ⟨buffers, hc⟩ <;> cases hc
    exact Nat.one_pos
  | write buffers =>
    simp only [handle, onResponseSent] at h
    split at h <;> cases h

/-- A service up to its write, as a chain of operations. -/
def program (os : Os) : Program HttpService ServiceOp Served where
  wait := wait
  handle s op c :=
    match op with
    | .write buffers => .stop (some (.answered s buffers.flatten))
    | .readRequestLine | .readHeaders =>
      match s.handle os op c.ec c.received with
      | .ok (s', .await op') => .await s' op'
      | .ok (_, .deleted) => .stop (some .dropped)
      | .error e => .stop (some (.escaped e))
  rank := reads
  rank_lt := by
    intro s op c s' op' h
    split at h
    · cases h
    all_goals
      split at h
      next hawait =>
        cases h
        exact reads_lt_of_handle hawait
      all_goals cases h

/-- **The service on all its chunks** is its program. -/
theorem serveFrom_eq_program {os : Os} {n : ℕ} {s : HttpService} {op : ServiceOp}
    (hn : reads op < n) (chunks : List Bytes) :
    serveFrom os n s op chunks = (program os).run s op chunks := by
  induction n generalizing s op chunks with
  | zero => exact absurd hn (Nat.not_lt_zero _)
  | succ n ih =>
    rw [Program.run_eq_resumed, Program.resumed, Program.after]
    cases op with
    | write buffers => rfl
    | readRequestLine | readHeaders =>
      simp only [serveFrom, program, wait, Wait.resume, List.append_nil, List.nil_append]
      cases hhandle : s.handle os _ (readUntil (some maxRequest) _ s.request chunks).ec
          (readUntil (some maxRequest) _ s.request chunks).received with
      | error e => rfl
      | ok o =>
        obtain ⟨s', ctl⟩ := o
        cases ctl with
        | deleted => rfl
        | await op' =>
          have hlt := reads_lt_of_handle hhandle
          exact ih (by omega) _

/-- A handler of a read that starts an operation goes on with it… -/
theorem program_of_await {os : Os} {s s' : HttpService} {op op' : ServiceOp} {c : Completion}
    (hop : ∀ buffers, op ≠ .write buffers)
    (h : s.handle os op c.ec c.received = .ok (s', .await op')) :
    (program os).handle s op c = .await s' op' := by
  cases op with
  | write buffers => exact absurd rfl (hop buffers)
  | readRequestLine | readHeaders => simp only [program, h]

/-- …and one that deletes the service drops the connection. -/
theorem program_of_deleted {os : Os} {s s' : HttpService} {op : ServiceOp} {c : Completion}
    (hop : ∀ buffers, op ≠ .write buffers)
    (h : s.handle os op c.ec c.received = .ok (s', .deleted)) :
    (program os).handle s op c = .stop (some .dropped) := by
  cases op with
  | write buffers => exact absurd rfl (hop buffers)
  | readRequestLine | readHeaders => simp only [program, h]

/-- A handler that throws ends the connection. -/
theorem program_of_error {os : Os} {s : HttpService} {op : ServiceOp} {c : Completion}
    {e : Exception} (hop : ∀ buffers, op ≠ .write buffers)
    (h : s.handle os op c.ec c.received = .error e) :
    (program os).handle s op c = .stop (some (.escaped e)) := by
  cases op with
  | write buffers => exact absurd rfl (hop buffers)
  | readRequestLine | readHeaders => simp only [program, h]

theorem serve_eq_program (os : Os) (chunks : List Bytes) :
    serve os chunks = (program os).run {} handleRequest chunks :=
  serveFrom_eq_program (by decide) chunks

end HttpService

end AsioSamples
