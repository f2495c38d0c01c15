import AsioSamples.Http.Exchange

/-!
# Http/Connection — an `HTTPRequest` on a connection that may fail

`Http/Exchange` has a network on which all goes well.  In an `Exchange` the resolver, the connect,
the write and the shutdown report what they like, and the connection breaks or ends after any bytes.
A success is a run in which nothing of that failed (`completes_of_success`), and such a run is the
one `Http/Exchange` is about (`exchange_callback_eq_run`).
-/

namespace AsioSamples

/-- What one run meets: what the resolver, the connect, the write and the shutdown report, what the
peer sends, and how the connection ends. -/
structure Exchange where
  resolved : ErrorCode := .success
  connected : ErrorCode := .success
  written : ErrorCode := .success
  shutdown : ErrorCode := .success
  incoming : List Bytes := []
  ending : Ending

/-- The run gets as far as `on_connection_established`, told success. -/
def Exchange.Connects (e : Exchange) : Prop := e.resolved.value = 0 ∧ e.connected.value = 0

/-- Every stage reports success, and the peer finishes. -/
structure Exchange.Completes (e : Exchange) : Prop where
  connects : e.Connects
  written : e.written.value = 0
  shutdown : e.shutdown.value = 0
  ending : e.ending.ec = .eof

/-- The completion of an operation on a connection that ends so. -/
def Completion.endedBy (c : Completion) (ending : Ending) : Completion :=
  if c.ec = .eof then { c with ec := ending.ec } else c

theorem Completion.endedBy_of_eof {ending : Ending} (heof : ending.ec = .eof) (c : Completion) :
    c.endedBy ending = c := by
  unfold endedBy
  split
  next h => rw [heof, ← h]
  next => rfl

/-- What a run shows: the buffer it gives to `async_write`, and what `m_callback` is given. -/
structure Outcome where
  written : Option Bytes := none
  callback : Option (ErrorCode × HTTPRequest) := none

/-- The buffer an operation is given to send. -/
def AsyncOp.buffer : AsyncOp → Option Bytes
  | .write buffer => some buffer
  | _ => none

namespace HTTPRequest

/-! ## One run -/

/-- How `op` completes, and what there is to read then. -/
def completeIn (e : Exchange) (r : HTTPRequest) (op : AsyncOp) (incoming : List Bytes) :
    Completion × List Bytes :=
  let (c, incoming) := r.complete (fun _ => e.incoming) op incoming
  match op with
  | .resolve _ _ => (⟨e.resolved, []⟩, incoming)
  | .connect => (⟨e.connected, []⟩, incoming)
  | .write _ => (⟨e.written, []⟩, incoming)
  | .readStatusLine | .readHeaders | .readBody => (c.endedBy e.ending, incoming)

/-- The request from the initiation of `op` on, for at most `n` operations and never cancelled. -/
def exchangeFrom (w : ULong) (e : Exchange) :
    ℕ → HTTPRequest → AsyncOp → List Bytes → Outcome
  | 0, _, _, _ => {}
  | n + 1, r, op, incoming =>
    let (c, incoming) := r.completeIn e op incoming
    let later : Outcome := match r.handle w e.shutdown op c with
      | some (r', .lock op') => exchangeFrom w e n r' op' incoming
      | some (r', .finish ec) => { callback := some (ec, r') }
      | _ => {}
    { written := op.buffer <|> later.written, callback := later.callback }

/-- `execute`, up to the callback. -/
def exchange (w : ULong) (e : Exchange) (r : HTTPRequest) : Outcome :=
  match r.execute with
  | some (.lock op) => exchangeFrom w e 6 r op []
  | _ => {}

section OneRun

variable {w : ULong} {e : Exchange} {r r' : HTTPRequest}

/-- **The bound on the operations is never what stops a run.** -/
theorem exchangeFrom_of_stages_le {n : ℕ} {op : AsyncOp} {incoming : List Bytes}
    (h : stages op ≤ n) :
    exchangeFrom w e n r op incoming = exchangeFrom w e (stages op) r op incoming := by
  induction n generalizing r op incoming with
  | zero => cases op <;> exact absurd h (by simp [stages])
  | succ n ih =>
    obtain ⟨m, hm⟩ : ∃ m, stages op = m + 1 := ⟨stages op - 1, by cases op <;> rfl⟩
    rw [hm, exchangeFrom, exchangeFrom]
    simp only
    split
    next r' op' hlock =>
      have hnext : stages op = stages op' + 1 := (handle_eq_some hlock).2
      rw [ih (by omega), show m = stages op' by omega]
    all_goals rfl

/-- Only `on_connection_established` writes to `m_request_buf`. -/
theorem handle_requestBuf {shutdown : ErrorCode} {op : AsyncOp} {c : Completion} {ctl : Control}
    (h : r.handle w shutdown op c = some (r', ctl)) (hop : op ≠ .connect) :
    r'.requestBuf = r.requestBuf := by
  cases op with
  | connect => exact absurd rfl hop
  | resolve host service =>
    simp only [handle, onHostNameResolved, Option.some.injEq] at h
    split at h <;> cases h <;> rfl
  | write buffer =>
    simp only [handle, onRequestSent, Option.some.injEq] at h
    split at h
    · cases h
      rfl
    · split at h <;> cases h <;> rfl
  | readStatusLine =>
    simp only [handle, onStatusLineReceived, Option.some.injEq] at h
    split at h
    · cases h
      rfl
    split at h
    · cases h
      rfl
    split at h <;> cases h <;> rfl
  | readHeaders =>
    simp only [handle, onHeadersReceived] at h
    split at h
    · cases h
      rfl
    · obtain ⟨l, -, hl⟩ := Option.map_eq_some_iff.mp h
      cases hl
      rfl
  | readBody =>
    simp only [handle, onResponseBodyReceived, Option.some.injEq] at h
    split at h <;> cases h <;> rfl

/-- From the write on `m_request_buf` stays as it is. -/
theorem exchangeFrom_requestBuf {n : ℕ} {op : AsyncOp} {incoming : List Bytes} {ec : ErrorCode}
    (hop : stages op ≤ 4) (h : (exchangeFrom w e n r op incoming).callback = some (ec, r')) :
    r'.requestBuf = r.requestBuf := by
  have hne : ∀ {op : AsyncOp}, stages op ≤ 4 → op ≠ .connect := by
    rintro _ hop rfl
    exact absurd hop (by decide)
  induction n generalizing r op incoming with
  | zero => cases h
  | succ n ih =>
    simp only [exchangeFrom] at h
    split at h
    next r₁ op' hlock =>
      have hstages : stages op = stages op' + 1 := (handle_eq_some hlock).2
      exact (ih (by omega) h).trans (handle_requestBuf hlock (hne hop))
    next r₁ ec₁ hfinish =>
      cases h
      exact handle_requestBuf hfinish (hne hop)
    next => cases h

/-- **A run that is not connected** leaves the request alone and calls back. -/
theorem exchange_of_not_connects (hexec : r.execute.isSome) (h : ¬ e.Connects) :
    ∃ ec, ec.value ≠ 0 ∧ r.exchange w e = { callback := some (ec, r) } := by
  rw [exchange, (execute_eq_of_isSome hexec).1]
  by_cases hresolved : e.resolved.value = 0
  · have hconnected : e.connected.value ≠ 0 := fun hconnected => h ⟨hresolved, hconnected⟩
    refine ⟨e.connected, hconnected, ?_⟩
    simp [exchangeFrom, completeIn, complete, handle, onHostNameResolved, onConnectionEstablished,
      hresolved, hconnected, AsyncOp.buffer]
  · refine ⟨e.resolved, hresolved, ?_⟩
    simp [exchangeFrom, completeIn, complete, handle, onHostNameResolved, hresolved,
      AsyncOp.buffer]

/-- An operation whose handler goes on. -/
theorem exchangeFrom_lock {n : ℕ} {op op' : AsyncOp} {incoming incoming' : List Bytes}
    {c : Completion} (hc : r.completeIn e op incoming = (c, incoming'))
    (h : r.handle w e.shutdown op c = some (r', .lock op')) :
    exchangeFrom w e (n + 1) r op incoming =
      { written := op.buffer <|> (exchangeFrom w e n r' op' incoming').written
        callback := (exchangeFrom w e n r' op' incoming').callback } := by
  simp only [exchangeFrom, hc, h]

/-- **A run that is connected** appends its request, and writes all there is. -/
theorem exchange_of_connects (hexec : r.execute.isSome) (h : e.Connects) :
    r.exchange w e = exchangeFrom w e 4 { r with requestBuf := r.requestBuf ++ r.requestBytes }
      (.write (r.requestBuf ++ r.requestBytes)) [] := by
  obtain ⟨hresolved, hconnected⟩ := h
  have hconnect (host service : Bytes) : r.handle w e.shutdown (.resolve host service)
      ⟨e.resolved, []⟩ = some (r, .lock .connect) := by
    simp [handle, onHostNameResolved, hresolved]
  have hwrite : r.handle w e.shutdown .connect ⟨e.connected, []⟩
      = some ({ r with requestBuf := r.requestBuf ++ r.requestBytes },
        .lock (.write (r.requestBuf ++ r.requestBytes))) := by
    simp [handle, onConnectionEstablished, hconnected]
  rw [exchange, (execute_eq_of_isSome hexec).1]
  exact (exchangeFrom_lock rfl (hconnect _ _)).trans (exchangeFrom_lock rfl hwrite)

theorem exchange_written (hexec : r.execute.isSome) (h : e.Connects) :
    (r.exchange w e).written = some (r.requestBuf ++ r.requestBytes) := by
  rw [exchange_of_connects hexec h]
  rfl

/-! ## A run on which nothing fails -/

/-- A request that was written and shut down is read for. -/
theorem exchangeFrom_write (hwritten : e.written.value = 0) (hshut : e.shutdown.value = 0) (n : ℕ)
    (buffer : Bytes) : (exchangeFrom w e (n + 1) r (.write buffer) []).callback
      = (exchangeFrom w e n r .readStatusLine e.incoming).callback := by
  have hhandle : r.handle w e.shutdown (.write buffer) ⟨e.written, []⟩
      = some (r, .lock .readStatusLine) := by
    simp [handle, onRequestSent, hwritten, hshut]
  rw [exchangeFrom_lock rfl hhandle]

/-- On a connection its peer finishes a read completes as in `complete`. -/
theorem completeIn_of_eof (heof : e.ending.ec = .eof) {op : AsyncOp} (hop : stages op ≤ 3)
    (incoming : List Bytes) :
    r.completeIn e op incoming = r.complete (fun _ => e.incoming) op incoming := by
  cases op with
  | resolve host service | connect | write buffer => exact absurd hop (by simp [stages])
  | readStatusLine | readHeaders | readBody =>
    simp only [completeIn, Completion.endedBy_of_eof heof]

/-- **The reads on a connection its peer finishes** are those of `runFrom`. -/
theorem exchangeFrom_callback (heof : e.ending.ec = .eof) (n : ℕ) {op : AsyncOp}
    (hop : stages op ≤ 3) (incoming : List Bytes) :
    (exchangeFrom w e n r op incoming).callback
      = runFrom w e.shutdown (fun _ => e.incoming) n r op incoming := by
  induction n generalizing r op incoming with
  | zero => rfl
  | succ n ih =>
    simp only [exchangeFrom, runFrom, completeIn_of_eof heof hop]
    cases hhandle : r.handle w e.shutdown op (r.complete (fun _ => e.incoming) op incoming).1 with
    | none => rfl
    | some o =>
      obtain ⟨r', ctl⟩ := o
      cases ctl with
      | finish ec => rfl
      | lock op' =>
        have hstages : stages op = stages op' + 1 := (handle_eq_some hhandle).2
        exact ih (by omega) _
      | throws ec => rfl

/-- **A run on which nothing fails** is one of `run`. -/
theorem exchange_callback_eq_run (hexec : r.execute.isSome) (hbuf : r.requestBuf = [])
    (h : e.Completes) :
    (r.exchange w e).callback = r.run w e.shutdown (fun _ => e.incoming) := by
  rw [exchange_of_connects hexec h.connects, exchangeFrom_write h.written h.shutdown,
    exchangeFrom_callback h.ending 3 le_rfl, run_eq_runFrom w _ _ hexec hbuf h.shutdown, hbuf,
    List.nil_append]

/-- **A connection that broke is no success.** -/
theorem value_ne_zero_of_broken (hbroken : e.ending.ec ≠ .eof) {n : ℕ} {op : AsyncOp}
    {incoming : List Bytes} {ec : ErrorCode}
    (h : (exchangeFrom w e n r op incoming).callback = some (ec, r')) : ec.value ≠ 0 := by
  induction n generalizing r op incoming with
  | zero => cases h
  | succ n ih =>
    simp only [exchangeFrom] at h
    split at h
    next => exact ih h
    next hfinish =>
      cases h
      rcases (handle_eq_some hfinish).2 with hne | ⟨rfl, hec⟩
      · exact hne
      · -- the body handler, and its read has met the end of the connection
        have hend : (r.completeIn e .readBody incoming).1 = ⟨e.ending.ec, incoming.flatten⟩ := rfl
        rw [hend] at hec
        exact (hec.elim e.ending.value_ne_zero hbroken).elim
    next => cases h

/-- **Where the callback is given success, nothing has failed.** -/
theorem completes_of_success (hexec : r.execute.isSome) {ec : ErrorCode}
    (h : (r.exchange w e).callback = some (ec, r')) (hec : ec.value = 0) : e.Completes := by
  by_cases hconnects : e.Connects
  case neg =>
    obtain ⟨ec', hne, hsame⟩ := exchange_of_not_connects (w := w) hexec hconnects
    rw [hsame] at h
    cases h
    exact absurd hec hne
  rw [exchange_of_connects hexec hconnects] at h
  by_cases hwritten : e.written.value = 0
  case neg =>
    simp only [exchangeFrom, completeIn, complete, handle, onRequestSent, ne_eq, hwritten,
      not_false_eq_true, if_true] at h
    cases h
    exact absurd hec hwritten
  by_cases hshut : e.shutdown.value = 0
  case neg =>
    simp [exchangeFrom, completeIn, complete, handle, onRequestSent, hwritten, hshut] at h
  rw [exchangeFrom_write hwritten hshut] at h
  refine ⟨hconnects, hwritten, hshut, ?_⟩
  by_contra hbroken
  exact value_ne_zero_of_broken hbroken h hec

end OneRun

end HTTPRequest

end AsioSamples
