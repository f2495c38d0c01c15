import AsioSamples.Http.Request
import AsioSamples.Http.Service

/-!
# Http/Exchange — an `HTTPRequest` against an `HttpService`, over any segmentation

The two ends meet through two byte streams: what the request writes is cut into chunks by one
`Segmentation` and read by the service; what the service writes is cut by another and read by the
request.  Each end stops reading at its own delimiters and parses what it has buffered, so a stage
may find bytes of the next one already there.

* `run_of_file` — a GET for a file that opens ends with status 200 and exactly its contents.
* `not_statusReaches_of_error` — any other status the service answers with is lost: its response has
  no header line, so the CRLF that ends the status line is gone when the request looks for
  `"\r\n\r\n"`.
-/

namespace AsioSamples

/-! ## The service, on the chunks it is sent -/

/-- What becomes of a connection. -/
inductive Served
  /-- The response was written; the service is as it was when it wrote it. -/
  | answered (s : HttpService) (sent : Bytes)
  /-- Deleted, with nothing sent. -/
  | dropped
  | escaped (e : Exception)

namespace HttpService

/-- The service from the initiation of `op` on, for at most `n` operations.  Its writes succeed. -/
def serveFrom (os : Os) : ℕ → HttpService → ServiceOp → List Bytes → Option Served
  | 0, _, _, _ => none
  | n + 1, s, op, chunks =>
    let goOn (r : ReadResult) : Option Served :=
      match s.handle os op r.ec r.received with
      | .ok (s', .await op') => serveFrom os n s' op' r.rest
      | .ok (_, .deleted) => some .dropped
      | .error e => some (.escaped e)
    match op with
    | .readRequestLine => goOn (readUntil (some maxRequest) crlf s.request chunks)
    | .readHeaders => goOn (readUntil (some maxRequest) crlfcrlf s.request chunks)
    | .write buffers => some (.answered s buffers.flatten)

/-- A connection on which `chunks` arrive, followed by the end of the stream. -/
def serve (os : Os) (chunks : List Bytes) : Option Served := serveFrom os 3 {} handleRequest chunks

/-- The chunks in which a client that sends `request` receives the answer. -/
def answers (os : Os) (up down : Segmentation) (request : Bytes) : List Bytes :=
  match serve os (up.cut request) with
  | some (.answered _ sent) => down.cut sent
  | _ => []

end HttpService

/-! ## The request, on the chunks it is answered with -/

namespace HTTPRequest

/-- As constructed, but for the fields a caller sets. -/
structure Fresh (r : HTTPRequest) : Prop where
  response : r.response = {}
  requestBuf : r.requestBuf = []

/-- How the network completes an operation: resolving, connecting and writing succeed, and `answer`
is what the peer makes of the bytes written. -/
def complete (answer : Bytes → List Bytes) (r : HTTPRequest) (op : AsyncOp)
    (incoming : List Bytes) : Completion × List Bytes :=
  let received (d : ReadResult) : Completion × List Bytes := (⟨d.ec, d.received⟩, d.rest)
  match op with
  | .resolve _ _ => (⟨.success, []⟩, incoming)
  | .connect => (⟨.success, []⟩, incoming)
  | .write buffer => (⟨.success, []⟩, answer buffer)
  | .readStatusLine => received (readUntil none crlf r.response.responseBuf incoming)
  | .readHeaders => received (readUntil none crlfcrlf r.response.responseBuf incoming)
  | .readBody => received (readAll incoming)

/-- The request from the initiation of `op` on, for at most `n` operations and never cancelled:
what `m_callback` is given. -/
def runFrom (w : ULong) (shutdown : ErrorCode) (answer : Bytes → List Bytes) :
    ℕ → HTTPRequest → AsyncOp → List Bytes → Option (ErrorCode × HTTPRequest)
  | 0, _, _, _ => none
  | n + 1, r, op, incoming =>
    let (c, incoming) := r.complete answer op incoming
    match r.handle w shutdown op c with
    | some (r', .lock op') => runFrom w shutdown answer n r' op' incoming
    | some (r', .finish ec) => some (ec, r')
    | _ => none

/-- `execute`, against a peer that answers the bytes written with `answer` and then finishes. -/
def run (w : ULong) (shutdown : ErrorCode) (answer : Bytes → List Bytes) (r : HTTPRequest) :
    Option (ErrorCode × HTTPRequest) :=
  match r.execute with
  | some (.lock op) => runFrom w shutdown answer 6 r op []
  | _ => none

/-- **The bound on the operations is never what stops a run.** -/
theorem runFrom_of_stages_le {w : ULong} {shutdown : ErrorCode} {answer : Bytes → List Bytes}
    {n : ℕ} {r : HTTPRequest} {op : AsyncOp} {incoming : List Bytes} (h : stages op ≤ n) :
    runFrom w shutdown answer n r op incoming
      = runFrom w shutdown answer (stages op) r op incoming := by
  induction n generalizing r op incoming with
  | zero => cases op <;> exact absurd h (by simp [stages])
  | succ n ih =>
    obtain ⟨m, hm⟩ : ∃ m, stages op = m + 1 := ⟨stages op - 1, by cases op <;> rfl⟩
    rw [hm, runFrom, runFrom]
    simp only
    split
    next r' op' hlock =>
      have hnext : stages op = stages op' + 1 := (handle_eq_some hlock).2
      rw [ih (by omega), show m = stages op' by omega]
    all_goals rfl

/-- The callback was given a success code and a response with that status. -/
def statusReaches (status : UInt32) (outcome : Option (ErrorCode × HTTPRequest)) : Bool :=
  outcome.any fun o => o.1.value == 0 && o.2.response.statusCode == status

/-! ## The request's four stages -/

section Stages

variable (w : ULong) (shutdown : ErrorCode) (answer : Bytes → List Bytes)

/-- **Up to the write** the network has no say: the request's bytes are sent, and the peer's answer
is what there is to read. -/
theorem run_eq_runFrom {r : HTTPRequest} (hexec : r.execute.isSome) (hbuf : r.requestBuf = [])
    (hshut : shutdown.value = 0) :
    r.run w shutdown answer = runFrom w shutdown answer 3 { r with requestBuf := r.requestBytes }
      .readStatusLine (answer r.requestBytes) := by
  have hresolve (n : ℕ) (host service : Bytes) : runFrom w shutdown answer (n + 1) r
      (.resolve host service) [] = runFrom w shutdown answer n r .connect [] := rfl
  have hconnect (n : ℕ) : runFrom w shutdown answer (n + 1) r .connect []
      = runFrom w shutdown answer n { r with requestBuf := r.requestBytes }
          (.write r.requestBytes) [] := by
    conv_rhs => rw [← List.nil_append r.requestBytes, ← hbuf]
    rfl
  have hwrite (n : ℕ) (r : HTTPRequest) (buffer : Bytes) :
      runFrom w shutdown answer (n + 1) r (.write buffer) []
        = runFrom w shutdown answer n r .readStatusLine (answer buffer) := by
    rw [runFrom]
    simp [complete, handle, onRequestSent, hshut]
  rw [run, (execute_eq_of_isSome hexec).1]
  simp only [hresolve, hconnect, hwrite]

/-- A shutdown that fails throws out of the handler, and the callback never runs. -/
theorem run_eq_none {r : HTTPRequest} (hexec : r.execute.isSome) (hshut : shutdown.value ≠ 0) :
    r.run w shutdown answer = none := by
  have hwrite (n : ℕ) (r : HTTPRequest) (buffer : Bytes) :
      runFrom w shutdown answer (n + 1) r (.write buffer) [] = none := by
    rw [runFrom]
    simp [complete, handle, onRequestSent, hshut]
  rw [run, (execute_eq_of_isSome hexec).1]
  exact hwrite 3 _ _

/-- **The status stage on a well-formed line**: what is left of the stream, buffered or not, is
what follows the line. -/
theorem runFrom_readStatusLine (n : ℕ) {r : HTTPRequest} (hbuf : r.response.responseBuf = [])
    {code : ℕ} (hcode : code ≤ w.max) {phrase : Bytes} (hphrase : cr ∉ phrase) {tail : Bytes}
    {incoming : List Bytes} (hstream : incoming.flatten
      = bytes "HTTP/1.1 " ++ (toString code ++ bytes " " ++ phrase) ++ crlf ++ tail) :
    ∃ ahead rest, ahead ++ rest.flatten = tail ∧
      runFrom w shutdown answer (n + 1) r .readStatusLine incoming
        = runFrom w shutdown answer n { r with response := { r.response with
            responseBuf := ahead, statusCode := UInt32.ofNat code,
            statusMessage := bytes " " ++ phrase } } .readHeaders rest := by
  set line := bytes "HTTP/1.1 " ++ (toString code ++ bytes " " ++ phrase) with hline
  have hcr : cr ∉ line := by
    simp only [hline, List.mem_append, not_or]
    refine ⟨by decide, ⟨fun h => ?_, by decide⟩, hphrase⟩
    exact absurd (isDigit_of_mem_toString h) (by decide)
  obtain ⟨ahead, hec, hahead, htail⟩ := (firstAt_crlf hcr tail).exists_readUntil
    (show [] ++ incoming.flatten = _ from hstream) (fits_none _) (fits_none _)
  set d := readUntil none crlf [] incoming with hd
  refine ⟨ahead, d.rest, htail, ?_⟩
  have hhandle := onStatusLineReceived_of_line w
    (r.withResponseBuf d.received) hcode hphrase ahead hahead
  simp only [runFrom, complete, hbuf, handle, List.nil_append, ← hd, hec, hhandle]
  rfl

/-- **The header stage on one header line.** -/
theorem runFrom_readHeaders (n : ℕ) {r : HTTPRequest} {line : Bytes} (hline : cr ∉ line)
    (hne : line ≠ []) {tail : Bytes} {incoming : List Bytes}
    (hstream : r.response.responseBuf ++ incoming.flatten = line ++ crlfcrlf ++ tail) :
    ∃ ahead rest, ahead ++ rest.flatten = tail ∧
      runFrom w shutdown answer (n + 1) r .readHeaders incoming
        = runFrom w shutdown answer n
            { r with response := { addHeaderLine r.response line with responseBuf := ahead } }
            .readBody rest := by
  obtain ⟨ahead, hec, hahead, htail⟩ := (firstAt_crlfcrlf hline tail).exists_readUntil hstream
    (fits_none _) (fits_none _)
  set d := readUntil none crlfcrlf r.response.responseBuf incoming with hd
  refine ⟨ahead, d.rest, htail, ?_⟩
  have hhandle := onHeadersReceived_of_line (r := r.withResponseBuf (r.response.responseBuf
    ++ d.received)) hline hne ahead hahead
  rw [runFrom]
  simp only [complete, handle, ← hd, hec, hhandle]
  rw [withResponseBuf, addHeaderLine_responseBuf]

/-- **The body stage** collects the rest of the stream and calls it a success. -/
theorem runFrom_readBody (n : ℕ) (r : HTTPRequest) (incoming : List Bytes) :
    runFrom w shutdown answer (n + 1) r .readBody incoming
      = some (.success, r.withResponseBuf (r.response.responseBuf ++ incoming.flatten)) := by
  simp [runFrom, complete, readAll, handle, onResponseBodyReceived]

/-- **The header stage on a stream without a blank line** ends the request with `eof`, and leaves
all of it in the buffer. -/
theorem runFrom_readHeaders_eof (n : ℕ) {r : HTTPRequest} {incoming : List Bytes}
    (hstream : ¬ crlfcrlf <:+: r.response.responseBuf ++ incoming.flatten) :
    runFrom w shutdown answer (n + 1) r .readHeaders incoming
      = some (.eof, r.withResponseBuf (r.response.responseBuf ++ incoming.flatten)) := by
  rw [runFrom]
  simp [complete, handle, onHeadersReceived, readUntil_none_of_missing hstream]

end Stages

end HTTPRequest

/-! ## What the service answers -/

namespace HttpService

/-- Nothing but the status has been decided: no header line and no resource. -/
structure Undecided (s : HttpService) : Prop where
  headers : s.responseHeaders = []
  size : s.resourceSizeBytes = 0

/-- Before the write the response is undecided; a write of a status other than 200 is of a status
line and an empty line. -/
def ErrorIsBare (s : HttpService) : ServiceOp → Prop
  | .write buffers => s.responseStatusCode ≠ 200 → ∃ text,
      httpStatusTable.lookup s.responseStatusCode = some text ∧
      buffers.flatten = bytes "HTTP/1.1 " ++ text ++ crlf ++ crlf
  | _ => s.Undecided ∧ s.responseStatusCode = 200

/-- A response with nothing decided but the status is a status line and an empty line. -/
theorem errorIsBare_sendResponse {os : Os} {s s' : HttpService} {op : ServiceOp}
    (hs : s.Undecided) (h : sendResponse os s = .ok (s', .await op)) : ErrorIsBare s' op := by
  obtain ⟨hcode, text, buffers, htext, hop, hflat⟩ := sendResponse_ok h
  obtain rfl := ServiceControl.await.inj hop
  refine fun _ => ⟨text, hcode ▸ htext, ?_⟩
  rw [hflat, hs.headers, hs.size]
  simp

/-- **One handler keeps the shape of the response.** -/
theorem errorIsBare_handle {os : Os} {s s' : HttpService} {op op' : ServiceOp} {ec : ErrorCode}
    {received : Bytes} (hs : ErrorIsBare s op)
    (h : s.handle os op ec received = .ok (s', .await op')) : ErrorIsBare s' op' := by
  cases continues_handle h with
  | readOn request resource => exact ⟨⟨hs.1.headers, hs.1.size⟩, hs.2⟩
  | refuse hop _ hsend =>
    have hundecided : s.Undecided := by
      cases op with
      | write buffers => exact absurd rfl (hop buffers)
      | _ => exact hs.1
    refine errorIsBare_sendResponse ?_ hsend
    exact ⟨hundecided.headers, hundecided.size⟩
  | respond hprocess hsend =>
    obtain ⟨hs, hcode⟩ := hs
    rcases processRequest_ok hprocess with hsame | ⟨hheaders, hsize⟩
    · -- a file that opened keeps the status at 200
      obtain ⟨hcode', -, buffers, -, hop, -⟩ := sendResponse_ok hsend
      obtain rfl := ServiceControl.await.inj hop
      exact fun hne => absurd (hcode'.trans (hsame.trans hcode)) hne
    · exact errorIsBare_sendResponse ⟨hheaders.trans hs.headers, hsize.trans hs.size⟩ hsend

/-- **What one handler keeps, a whole connection keeps**, up to the write that ends it. -/
theorem serveFrom_invariant {os : Os} {I : HttpService → ServiceOp → Prop}
    (hstep : ∀ s op ec received s' op', I s op →
      s.handle os op ec received = .ok (s', .await op') → I s' op') :
    ∀ (n : ℕ) {s : HttpService} {op : ServiceOp} {chunks : List Bytes} {svc : HttpService}
      {sent : Bytes}, I s op → serveFrom os n s op chunks = some (.answered svc sent) →
        ∃ buffers, I svc (.write buffers) ∧ sent = buffers.flatten := by
  intro n
  induction n with
  | zero => intro s op chunks svc sent _ h; cases h
  | succ n ih =>
    intro s op chunks svc sent hs h
    cases op with
    | write buffers =>
      obtain ⟨rfl, rfl⟩ := Served.answered.inj (Option.some.inj h)
      exact ⟨buffers, hs, rfl⟩
    | readRequestLine =>
      simp only [serveFrom] at h
      split at h
      next s' op' hh => exact ih (hstep _ _ _ _ _ _ hs hh) h
      all_goals cases h
    | readHeaders =>
      simp only [serveFrom] at h
      split at h
      next s' op' hh => exact ih (hstep _ _ _ _ _ _ hs hh) h
      all_goals cases h

/-- **An answer with a status other than 200** is a status line and an empty line. -/
theorem bare_of_serveFrom {os : Os} (n : ℕ) {s : HttpService} {op : ServiceOp}
    {chunks : List Bytes} {svc : HttpService} {sent : Bytes} (hs : ErrorIsBare s op)
    (h : serveFrom os n s op chunks = some (.answered svc sent))
    (hne : svc.responseStatusCode ≠ 200) :
    ∃ text, httpStatusTable.lookup svc.responseStatusCode = some text ∧
      sent = bytes "HTTP/1.1 " ++ text ++ crlf ++ crlf := by
  obtain ⟨buffers, hbare, rfl⟩ :=
    serveFrom_invariant (fun _ _ _ _ _ _ hs hh => errorIsBare_handle hs hh) n hs h
  exact hbare hne

/-- **The request-line stage** leaves what follows the line, buffered or not. -/
theorem serveFrom_readRequestLine (os : Os) (n : ℕ) {s : HttpService} (hreq : s.request = [])
    {target : Bytes} (htarget : ∀ b ∈ target, isSpace b = false) (hne : target ≠ [])
    {tail : Bytes} {chunks : List Bytes}
    (hstream : chunks.flatten = bytes "GET " ++ target ++ bytes " HTTP/1.1" ++ crlf ++ tail)
    (hfits : chunks.flatten.length ≤ maxRequest) :
    ∃ ahead rest, ahead ++ rest.flatten = tail ∧
      serveFrom os (n + 1) s .readRequestLine chunks = serveFrom os n
        { s with request := ahead, requestedResource := target } .readHeaders rest := by
  have hcr : cr ∉ bytes "GET " ++ target ++ bytes " HTTP/1.1" := by
    simp only [List.mem_append, not_or]
    exact ⟨⟨by decide, fun h => absurd (htarget cr h) (by decide)⟩, by decide⟩
  have hfits' : Fits (some maxRequest) chunks.flatten := by simpa [Fits] using hfits
  rw [hstream] at hfits'
  obtain ⟨ahead, hec, hahead, htail⟩ := (firstAt_crlf hcr tail).exists_readUntil
    (show [] ++ chunks.flatten = _ from hstream) (fits_nil _)
    (hfits'.of_prefix (List.prefix_append _ _))
  set d := readUntil (some maxRequest) crlf [] chunks with hd
  refine ⟨ahead, d.rest, htail, ?_⟩
  have hhandle := onRequestLineReceived_of_line os { s with request := s.request ++ d.received }
    htarget hne ahead (by rw [hreq]; exact hahead)
  simp only [serveFrom, handle, hreq, ← hd, hec] at hhandle ⊢
  rw [hhandle]

/-- **The header stage for a file that opens** answers with its length and its contents. -/
theorem serveFrom_readHeaders {os : Os} (hos : os.shutdownReceive.value = 0) (n : ℕ)
    {s : HttpService} (hs : s.Undecided) (hcode : s.responseStatusCode = 200) {contents : Bytes}
    (hfile : os.HasFile (bytes "sample" ++ s.requestedResource) contents) {chunks : List Bytes}
    (hblank : crlfcrlf <:+: s.request ++ chunks.flatten)
    (hfits : (s.request ++ chunks.flatten).length ≤ maxRequest) :
    ∃ svc, serveFrom os (n + 2) s .readHeaders chunks = some (.answered svc
      (bytes "HTTP/1.1 " ++ bytes "200 OK" ++ crlf
        ++ (bytes "content-length: " ++ toString contents.length ++ crlfcrlf ++ contents))) := by
  set d := readUntil (some maxRequest) crlfcrlf s.request chunks with hd
  have hec : d.ec = .success := by
    have hfit : Fits (some maxRequest) s.request := by
      simp only [List.length_append] at hfits
      simp only [Fits, Option.mem_def, Option.some.injEq, forall_eq']
      omega
    have hcap : capped (some maxRequest) (s.request ++ chunks.flatten)
        = s.request ++ chunks.flatten := capped_of_fits (by simpa [Fits] using hfits)
    rw [hd, readUntil_ec crlfcrlf chunks hfit, hcap, if_pos hblank]
  set s₁ : HttpService := { s with request := s.request ++ d.received } with hs₁
  set s₂ : HttpService := { s₁ with
    request := s₁.runHeaderLoop.requestStream.rest
    requestHeaders := s₁.runHeaderLoop.requestHeaders } with hs₂
  obtain ⟨size, hsize, hprocess⟩ := processRequest_of_hasFile (s := s₂) hfile
  have htext : httpStatusTable.lookup s.responseStatusCode = some (bytes "200 OK") := by
    rw [hcode]
    decide
  obtain ⟨svc, buffers, hsend, hflat⟩ := sendResponse_of_size hos (s := { s₂ with
      resourceSizeBytes := size, resourceBuffer := contents
      responseHeaders := s₂.responseHeaders
        ++ (bytes "content-length: " ++ toString contents.length ++ crlf) }) htext hsize
  have hhandle : s.handle os .readHeaders d.ec d.received = .ok (svc, .await (.write buffers)) := by
    rw [handle, onHeadersReceived, hec]
    simp only [ErrorCode.success_value, ne_eq, not_true_eq_false, if_false, ← hs₁]
    rw [hprocess]
    exact hsend
  refine ⟨svc, ?_⟩
  rw [serveFrom]
  simp only [← hd, hhandle]
  rw [serveFrom, hflat]
  simp [hs₂, hs₁, hs.headers, crlfcrlf, crlf]

/-- **A GET for a file that opens** is answered with status 200, its length and its contents,
however the request is cut. -/
theorem serve_of_file {os : Os} (hos : os.ShutdownsSucceed) {target host contents : Bytes}
    (htarget : ∀ b ∈ target, isSpace b = false) (hne : target ≠ [])
    (hfile : os.HasFile (bytes "sample" ++ target) contents) {chunks : List Bytes}
    (hstream : chunks.flatten = bytes "GET " ++ target ++ bytes " HTTP/1.1" ++ crlf
      ++ (bytes "Host: " ++ host ++ crlfcrlf))
    (hfits : chunks.flatten.length ≤ maxRequest) :
    ∃ svc, serve os chunks = some (.answered svc
      (bytes "HTTP/1.1 " ++ bytes "200 OK" ++ crlf
        ++ (bytes "content-length: " ++ toString contents.length ++ crlfcrlf ++ contents))) := by
  obtain ⟨ahead, rest, htail, hline⟩ :=
    serveFrom_readRequestLine os 2 (s := {}) rfl htarget hne hstream hfits
  have hlen : (ahead ++ rest.flatten).length ≤ maxRequest := by
    rw [hstream, List.length_append] at hfits
    rw [htail]
    omega
  have hblank : crlfcrlf <:+: ahead ++ rest.flatten := by
    rw [htail]
    exact (List.suffix_append _ _).isInfix
  obtain ⟨svc, hsvc⟩ := serveFrom_readHeaders hos.receive 0
    (s := { requestedResource := target, request := ahead }) ⟨rfl, rfl⟩ rfl hfile hblank hlen
  exact ⟨svc, hline.trans hsvc⟩

end HttpService

/-! ## End to end -/

namespace HTTPRequest

/-- The blank line that ends a request is all its bytes end with. -/
theorem requestBytes_eq (r : HTTPRequest) : r.requestBytes
    = bytes "GET " ++ r.uri ++ bytes " HTTP/1.1" ++ crlf
      ++ (bytes "Host: " ++ r.host ++ crlfcrlf) := by
  have h₁ : bytes " HTTP/1.1\r\n" = bytes " HTTP/1.1" ++ crlf := by decide
  have h₂ : bytes "\r\n" = crlf := by decide
  have h₃ : crlfcrlf = crlf ++ crlf := by decide
  simp only [requestBytes, h₁, h₂, h₃, List.append_assoc]

/-- **A GET for a file that opens ends with exactly the file.**  Whatever the two cuts, no byte of
the contents is lost, added or taken as a header. -/
theorem run_of_file (w : ULong) {os : Os} (hos : os.ShutdownsSucceed) (up down : Segmentation)
    {r : HTTPRequest} (hr : r.Fresh) (hexec : r.execute.isSome)
    (huri : ∀ b ∈ r.uri, isSpace b = false) (hfits : r.requestBytes.length ≤ maxRequest)
    {contents : Bytes} (hfile : os.HasFile (bytes "sample" ++ r.uri) contents) :
    ∃ r', r.run w os.shutdownSend (HttpService.answers os up down) = some (.success, r') ∧
      r'.response.statusCode = 200 ∧ r'.response.responseBuf = contents := by
  obtain ⟨-, -, huri_ne⟩ := execute_eq_of_isSome hexec
  have hup := up.flatten_cut r.requestBytes
  obtain ⟨svc, hsvc⟩ := HttpService.serve_of_file hos huri huri_ne hfile
    (hup.trans r.requestBytes_eq) (by rw [hup]; exact hfits)
  have hstream := down.flatten_cut (bytes "HTTP/1.1 " ++ bytes "200 OK" ++ crlf
    ++ (bytes "content-length: " ++ toString contents.length ++ crlfcrlf ++ contents))
  rw [run_eq_runFrom _ _ _ hexec hr.requestBuf hos.send]
  simp only [HttpService.answers, hsvc]
  -- the status stage stops at the first CRLF of the answer
  have hok : bytes "200 OK" = toString 200 ++ bytes " " ++ bytes "OK" := by decide
  rw [hok] at hstream
  obtain ⟨ahead, rest, htail, hstatus⟩ := runFrom_readStatusLine w os.shutdownSend
    (HttpService.answers os up down) 2 (r := { r with requestBuf := r.requestBytes })
    (by rw [hr.response]) (by cases w <;> decide) (by decide) hstream
  rw [hok, hstatus]
  -- the header stage stops at the blank line, and everything after it is the body's
  have hline : cr ∉ bytes "content-length: " ++ toString contents.length := by
    rw [List.mem_append, not_or]
    exact ⟨by decide, fun h => absurd (isDigit_of_mem_toString h) (by decide)⟩
  set r₁ : HTTPRequest := { r with
    requestBuf := r.requestBytes
    response := { r.response with
      responseBuf := ahead, statusCode := UInt32.ofNat 200
      statusMessage := bytes " " ++ bytes "OK" } }
  obtain ⟨ahead', rest', hbody, hheaders⟩ := runFrom_readHeaders w os.shutdownSend
    (HttpService.answers os up down) 1 (r := r₁) hline (by simp [toString_ne_nil]) htail
  refine ⟨_, hheaders.trans (runFrom_readBody _ _ _ 0 _ rest'), ?_, hbody⟩
  unfold addHeaderLine
  split <;> rfl

/-- The request of `TEST(Http, simpleScenario)`. -/
def simpleScenario : HTTPRequest :=
  ((((HTTPRequest.create 1).setHost (bytes "localhost")).setUri (bytes "/manual.html")).setPort
    6969).setCallback

/-- An operating system with one file, `contents`, at `sample/manual.html`. -/
def manualHtml (contents : Bytes) : Os :=
  { fs := fun path => if path = bytes "sample/manual.html" then
      .opened ⟨Int64.ofNat contents.length, contents⟩ else .missing }

theorem hasFile_manualHtml {contents : Bytes} (h : contents.length < 2 ^ 63) :
    (manualHtml contents).HasFile (bytes "sample/manual.html") contents := by
  have hpath : cStr (bytes "sample/manual.html") = bytes "sample/manual.html" := by decide +kernel
  refine ⟨⟨Int64.ofNat contents.length, contents⟩, ?_, Int64.toInt_ofNat_of_lt h, rfl, rfl⟩
  simp [Os.find, hpath, manualHtml]

theorem run_of_file_simpleScenario : ∃ r',
    simpleScenario.run .bits32 .success
      (HttpService.answers (manualHtml (bytes "a\r\n\r\nb")) .bytewise .bytewise)
        = some (.success, r') ∧
      r'.response.statusCode = 200 ∧ r'.response.responseBuf = bytes "a\r\n\r\nb" := by
  have hos : (manualHtml (bytes "a\r\n\r\nb")).ShutdownsSucceed := ⟨rfl, rfl, rfl⟩
  have hpath : bytes "sample" ++ simpleScenario.uri = bytes "sample/manual.html" := by
    decide +kernel
  exact run_of_file .bits32 hos .bytewise .bytewise ⟨rfl, rfl⟩ (by decide +kernel)
    (by decide +kernel) (by decide +kernel) (hpath ▸ hasFile_manualHtml (by decide +kernel))

/-- **A response without a header line ends the request with `eof`**: its status line takes the
first CRLF, and the one left is not the blank line that ends the headers. -/
theorem run_of_bare (w : ULong) {shutdown : ErrorCode} (hshut : shutdown.value = 0)
    {answer : Bytes → List Bytes} {r : HTTPRequest} (hr : r.Fresh) (hexec : r.execute.isSome)
    {status : UInt32} {text : Bytes} (htext : httpStatusTable.lookup status = some text)
    (hanswer : (answer r.requestBytes).flatten = bytes "HTTP/1.1 " ++ text ++ crlf ++ crlf) :
    ∃ r', r.run w shutdown answer = some (.eof, r') := by
  obtain ⟨phrase, rfl, hphrase, hle⟩ := HttpService.httpStatusTable_entry htext
  have hcode : status.toNat ≤ w.max := hle.trans (by cases w <;> decide)
  rw [run_eq_runFrom _ _ _ hexec hr.requestBuf hshut]
  obtain ⟨ahead, rest, htail, hstatus⟩ := runFrom_readStatusLine w shutdown answer 2
    (r := { r with requestBuf := r.requestBytes }) (by rw [hr.response])
    hcode hphrase hanswer
  rw [hstatus]
  refine ⟨_, runFrom_readHeaders_eof _ _ _ 1 ?_⟩
  simp only [htail]
  exact fun h => absurd h.length_le (by decide)

/-- **No error status reaches the client**, whatever the request, the resource and the two cuts. -/
theorem not_statusReaches_of_error (w : ULong) (os : Os) (up down : Segmentation) {r : HTTPRequest}
    (hr : r.Fresh) (hexec : r.execute.isSome) {svc : HttpService} {sent : Bytes}
    (hsvc : HttpService.serve os (up.cut r.requestBytes) = some (.answered svc sent))
    (hstatus : svc.responseStatusCode ≠ 200) :
    statusReaches svc.responseStatusCode
      (r.run w os.shutdownSend (HttpService.answers os up down)) = false := by
  by_cases hshut : os.shutdownSend.value = 0
  · have hfresh : HttpService.ErrorIsBare {} HttpService.handleRequest := ⟨⟨rfl, rfl⟩, rfl⟩
    obtain ⟨text, htext, hsent⟩ := HttpService.bare_of_serveFrom 3 hfresh hsvc hstatus
    have hanswer : (HttpService.answers os up down r.requestBytes).flatten
        = bytes "HTTP/1.1 " ++ text ++ crlf ++ crlf := by
      simp only [HttpService.answers, hsvc]
      rw [down.flatten_cut, hsent]
    obtain ⟨r', hr'⟩ := run_of_bare w hshut hr hexec htext hanswer
    rw [hr']
    rfl
  · rw [run_eq_none _ _ _ hexec hshut]
    rfl

/-- The file is missing: the service answers 404, and the callback is given `eof`. -/
theorem statusReaches_missing_file :
    ∃ svc sent, HttpService.serve { fs := fun _ => .missing }
        (Segmentation.whole.cut simpleScenario.requestBytes) = some (.answered svc sent) ∧
      svc.responseStatusCode = 404 ∧
      (simpleScenario.run .bits64 .success
        (HttpService.answers { fs := fun _ => .missing } .whole .whole)).map (·.1) = some .eof ∧
      statusReaches 404 (simpleScenario.run .bits64 .success
        (HttpService.answers { fs := fun _ => .missing } .whole .whole)) = false :=
  ⟨_, _, rfl, rfl, by decide +kernel, by decide +kernel⟩

theorem not_statusReaches_of_error_simpleScenario :
    statusReaches 404 (simpleScenario.run .bits64 .success
      (HttpService.answers { fs := fun _ => .missing } .bytewise .bytewise)) = false := by
  obtain ⟨svc, sent, hsvc, hstatus⟩ : ∃ svc sent,
      HttpService.serve { fs := fun _ => .missing }
        (Segmentation.bytewise.cut simpleScenario.requestBytes) = some (.answered svc sent) ∧
      svc.responseStatusCode = 404 := ⟨_, _, rfl, rfl⟩
  rw [← hstatus]
  exact not_statusReaches_of_error .bits64 { fs := fun _ => .missing } .bytewise .bytewise
    ⟨rfl, rfl⟩ (by decide +kernel) hsvc (by rw [hstatus]; decide)

end HTTPRequest

end AsioSamples
