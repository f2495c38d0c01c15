import AsioSamples.Asio.Operations
import AsioSamples.Cpp.IStream
import AsioSamples.Machinery.Loop

/-!
# Http/Request — `HTTPRequest` and `HTTPResponse`, handler by handler

`execute` and the six completion handlers of `http-client-async.hpp`.  Each of them works on the
fields of the request alone until it either calls `on_finish` or takes `m_cancel_mux`; `Control`
says which, and with which operation the code under the lock goes on.  What the lock protects is the
subject of `Http/Cancellation`.

The `while (true)` of `on_headers_received` need not end.  A handler that never returns is `none`,
and `leaves_headerPass_iff` is the reason a bound on the number of passes decides it.
-/

namespace AsioSamples

/-! ## `HTTPResponse` -/

/-- `HTTPResponse`; `m_response_stream` reads `m_response_buf`. -/
structure HTTPResponse where
  statusCode : UInt32 := 0
  statusMessage : Bytes := []
  responseBuf : Bytes := []
  headers : StdMap Bytes Bytes := ∅

namespace HTTPResponse

def setStatusCode (p : HTTPResponse) (statusCode : UInt32) : HTTPResponse :=
  { p with statusCode := statusCode }

def setStatusMessage (p : HTTPResponse) (statusMessage : Bytes) : HTTPResponse :=
  { p with statusMessage := statusMessage }

def addHeader (p : HTTPResponse) (name value : Bytes) : HTTPResponse :=
  { p with headers := p.headers.assign name value }

end HTTPResponse

/-- `http_errors::http_error_codes::invalid_response`. -/
def ErrorCode.invalidResponse : ErrorCode := ⟨1, "http_errors"⟩

@[simp] theorem ErrorCode.invalidResponse_value : ErrorCode.invalidResponse.value = 1 := rfl

/-! ## `HTTPRequest` -/

/-- The fields of an `HTTPRequest`.  `callback` is `m_callback != nullptr`. -/
structure HTTPRequest where
  uri : Bytes := []
  id : UInt32
  callback : Bool := false
  host : Bytes := []
  port : UInt32 := 80
  wasCancelled : Bool := false
  response : HTTPResponse := {}
  requestBuf : Bytes := []

/-- The asynchronous operations a request initiates. -/
inductive AsyncOp
  | resolve (host service : Bytes)
  | connect
  | write (buffer : Bytes)
  /-- `async_read_until` to `"\r\n"`. -/
  | readStatusLine
  /-- `async_read_until` to `"\r\n\r\n"`. -/
  | readHeaders
  /-- `async_read`, to the end of the stream. -/
  | readBody
  deriving DecidableEq

/-- How the part of a handler that needs no lock ends. -/
inductive Control
  /-- `on_finish(ec); return;` -/
  | finish (ec : ErrorCode)
  /-- Takes `m_cancel_mux`, tests `m_was_cancelled`, and initiates `op` if it is not set. -/
  | lock (op : AsyncOp)
  /-- A call without an `error_code` argument failed and threw. -/
  | throws (ec : ErrorCode)

namespace HTTPRequest

/-- The constructor, as `HTTPClient::create_request` calls it. -/
def create (id : UInt32) : HTTPRequest := { id := id }

def setHost (r : HTTPRequest) (host : Bytes) : HTTPRequest := { r with host := host }

def setPort (r : HTTPRequest) (port : UInt32) : HTTPRequest := { r with port := port }

def setUri (r : HTTPRequest) (uri : Bytes) : HTTPRequest := { r with uri := uri }

/-- `set_callback`, with a function. -/
def setCallback (r : HTTPRequest) : HTTPRequest := { r with callback := true }

/-- `execute`, up to its lock; a failed assertion ends the program. -/
def execute (r : HTTPRequest) : Option Control :=
  if 0 < r.port ∧ 0 < r.host.length ∧ 0 < r.uri.length ∧ r.callback then
    some (.lock (.resolve r.host (toString r.port.toNat)))
  else none

def onHostNameResolved (r : HTTPRequest) (ec : ErrorCode) : HTTPRequest × Control :=
  if ec.value ≠ 0 then (r, .finish ec) else (r, .lock .connect)

/-- What `on_connection_established` appends to `m_request_buf`. -/
def requestBytes (r : HTTPRequest) : Bytes :=
  (bytes "GET " ++ r.uri ++ bytes " HTTP/1.1\r\n") ++ (bytes "Host: " ++ r.host ++ bytes "\r\n")
    ++ bytes "\r\n"

def onConnectionEstablished (r : HTTPRequest) (ec : ErrorCode) : HTTPRequest × Control :=
  if ec.value ≠ 0 then (r, .finish ec)
  else
    let buf := r.requestBuf ++ r.requestBytes
    ({ r with requestBuf := buf }, .lock (.write buf))

/-- `shutdown` is what the operating system reports for `m_sock.shutdown(shutdown_send)`. -/
def onRequestSent (shutdown : ErrorCode) (r : HTTPRequest) (ec : ErrorCode) :
    HTTPRequest × Control :=
  if ec.value ≠ 0 then (r, .finish ec)
  else if shutdown.value ≠ 0 then (r, .throws shutdown)
  else (r, .lock .readStatusLine)

/-- The request with `buf` left in `m_response_buf`. -/
def withResponseBuf (r : HTTPRequest) (buf : Bytes) : HTTPRequest :=
  { r with response := { r.response with responseBuf := buf } }

def onStatusLineReceived (w : ULong) (r : HTTPRequest) (ec : ErrorCode) : HTTPRequest × Control :=
  if ec.value ≠ 0 then (r, .finish ec)
  else
    let responseStream : IStream := { rest := r.response.responseBuf }
    let (httpVersion, responseStream) := responseStream.extract []
    if httpVersion ≠ bytes "HTTP/1.1" then
      (r.withResponseBuf responseStream.rest, .finish .invalidResponse)
    else
      let (strStatusCode, responseStream) := responseStream.extract []
      match stoul w strStatusCode with
      | none => (r.withResponseBuf responseStream.rest, .finish .invalidResponse)
      | some statusCode =>
        let (statusMessage, responseStream) := responseStream.getline cr []
        let r := r.withResponseBuf responseStream.get.rest
        -- `unsigned int status_code` truncates the `unsigned long`
        let response := r.response.setStatusCode (UInt32.ofNat statusCode)
        ({ r with response := response.setStatusMessage statusMessage }, .lock .readHeaders)

/-- What one pass of the header loop works on; `header` keeps its value from pass to pass. -/
structure HeaderLoop where
  responseStream : IStream
  header : Bytes := []
  response : HTTPResponse

/-- The header line at hand, added to the response if it has a `':'`. -/
def addHeaderLine (response : HTTPResponse) (header : Bytes) : HTTPResponse :=
  match header.idxOf? colon with
  | none => response
  | some separatorPos =>
    response.addHeader (header.take separatorPos)
      (if separatorPos < header.length - 1 then header.drop (separatorPos + 1) else [])

/-- One pass of the `while (true)` of `on_headers_received`. -/
def headerPass (l : HeaderLoop) : HeaderLoop ⊕ HeaderLoop :=
  let (header, responseStream) := l.responseStream.getline cr l.header
  let responseStream := responseStream.get
  if header = [] then .inr { l with responseStream, header }
  else .inl { responseStream, header, response := addHeaderLine l.response header }

/-- The loop's state on entry. -/
def headerLoop (r : HTTPRequest) : HeaderLoop :=
  { responseStream := { rest := r.response.responseBuf }, response := r.response }

/-- `on_headers_received`; `none` if its loop never ends. -/
def onHeadersReceived (r : HTTPRequest) (ec : ErrorCode) : Option (HTTPRequest × Control) :=
  if ec.value ≠ 0 then some (r, .finish ec)
  else
    (loop headerPass (r.response.responseBuf.length + 1) r.headerLoop).map fun l =>
      ({ r with response := { l.response with responseBuf := l.responseStream.rest } },
        .lock .readBody)

def onResponseBodyReceived (r : HTTPRequest) (ec : ErrorCode) : HTTPRequest × Control :=
  if ec = .eof then (r, .finish .success) else (r, .finish ec)

/-- The handler of an operation, run on its completion; a read has appended what it received to
`m_response_buf`.  `none` if it never returns. -/
def handle (w : ULong) (shutdown : ErrorCode) (r : HTTPRequest) (op : AsyncOp) (c : Completion) :
    Option (HTTPRequest × Control) :=
  let filled := r.withResponseBuf (r.response.responseBuf ++ c.received)
  match op with
  | .resolve _ _ => some (r.onHostNameResolved c.ec)
  | .connect => some (r.onConnectionEstablished c.ec)
  | .write _ => some (r.onRequestSent shutdown c.ec)
  | .readStatusLine => some (filled.onStatusLineReceived w c.ec)
  | .readHeaders => filled.onHeadersReceived c.ec
  | .readBody => some (filled.onResponseBodyReceived c.ec)

/-! ## A well-formed status line -/

/-- **The status handler on a well-formed line**: version, a blank, a code, a blank, a phrase.  It
takes the line and its CRLF, and leaves the read-ahead for the header handler. -/
theorem onStatusLineReceived_of_line (w : ULong) (r : HTTPRequest) {code : ℕ} (hcode : code ≤ w.max)
    {phrase : Bytes} (hphrase : cr ∉ phrase) (ahead : Bytes)
    (hbuf : r.response.responseBuf
      = bytes "HTTP/1.1 " ++ (toString code ++ bytes " " ++ phrase) ++ crlf ++ ahead) :
    r.onStatusLineReceived w .success =
      ({ r with response := { r.response with
          responseBuf := ahead, statusCode := UInt32.ofNat code,
          statusMessage := bytes " " ++ phrase } }, .lock .readHeaders) := by
  have hversion : ∀ c ∈ bytes "HTTP/1.1", isSpace c = false := by decide +kernel
  have hdigits : ∀ c ∈ toString code, isSpace c = false := fun c hc =>
    (isDigit_not_isSpace (isDigit_of_mem_toString hc)).1
  have hb₁ : r.response.responseBuf = [] ++ bytes "HTTP/1.1"
      ++ 32 :: (toString code ++ 32 :: (phrase ++ cr :: lf :: ahead)) := by
    have hlit : bytes "HTTP/1.1 " = bytes "HTTP/1.1" ++ [32] := by decide
    have hblank : bytes " " = [32] := by decide
    rw [hbuf, hlit, hblank]
    simp [crlf]
  have h₁ := IStream.extract_append [] (bytes "HTTP/1.1") 32
    (toString code ++ 32 :: (phrase ++ cr :: lf :: ahead)) [] (by simp) hversion (by decide)
    (by decide)
  have h₂ := IStream.extract_append [32] (toString code) 32 (phrase ++ cr :: lf :: ahead) []
    (by decide +kernel) hdigits (toString_ne_nil code) (by decide +kernel)
  have hmessage : cr ∉ 32 :: phrase := by
    simp only [List.mem_cons, not_or]
    exact ⟨by decide, hphrase⟩
  have h₃ := IStream.getline_append (32 :: phrase) (lf :: ahead) [] hmessage
  simp only [List.cons_append, List.nil_append] at h₂ h₃
  rw [onStatusLineReceived]
  simp only [ErrorCode.success_value, ne_eq, not_true_eq_false, if_false, hb₁, h₁, h₂, h₃,
    stoul_toString w hcode]
  rfl

/-! ## The header loop -/

/-- The loop has run off the end of the buffer with a header in hand: `getline` will leave the
header alone, and so will every later pass. -/
def HeaderLoop.Stuck (l : HeaderLoop) : Prop := l.responseStream.good = false ∧ l.header ≠ []

theorem headerPass_of_stuck {l : HeaderLoop} (h : l.Stuck) :
    ∃ l', headerPass l = .inl l' ∧ l'.Stuck := by
  obtain ⟨hgood, hne⟩ := h
  have hgood' : ({ l.responseStream with failbit := true } : IStream).good = false := by
    simp [IStream.good]
  refine ⟨⟨{ l.responseStream with failbit := true }, l.header, addHeaderLine l.response l.header⟩,
    ?_, hgood', hne⟩
  simp [headerPass, IStream.getline_of_not_good hgood, IStream.get_of_not_good hgood', hne]

/-- A pass that goes round again has consumed a byte, or has run off the end. -/
theorem headerPass_variant {l l' : HeaderLoop} (hl : ¬ l.Stuck) (h : headerPass l = .inl l') :
    l'.Stuck ∨ l'.responseStream.rest.length < l.responseStream.rest.length := by
  by_cases hgood : l.responseStream.good
  · have hs := IStream.eq_mk_of_good hgood
    set buf := l.responseStream.rest with hbuf
    rcases IStream.getline_cases buf l.header cr with ⟨line, tail, hsplit, -, hget⟩ | ⟨-, hget⟩
    · rw [headerPass, hs, hget] at h
      by_cases hline : line = []
      · simp [hline] at h
      · simp only [hline, if_false, Sum.inl.injEq] at h
        subst h
        rw [hsplit]
        cases tail with
        | nil => exact Or.inl ⟨rfl, hline⟩
        | cons b tail =>
          refine Or.inr ?_
          simp only [IStream.get_cons, List.length_append, List.length_cons]
          omega
    · rw [headerPass, hs, hget] at h
      by_cases hline : buf = []
      · simp [hline] at h
      · simp only [hline, if_false, Sum.inl.injEq] at h
        subst h
        exact Or.inl ⟨rfl, hline⟩
  · have hempty : l.header = [] := by
      by_contra hne
      exact hl ⟨by simpa using hgood, hne⟩
    simp [headerPass, IStream.getline_of_not_good (by simpa using hgood), hempty] at h

/-- **The header loop ends within one pass per byte and one more, or never.** -/
theorem leaves_headerPass_iff (r : HTTPRequest) (l : HeaderLoop) :
    Leaves headerPass r.headerLoop l
      ↔ loop headerPass (r.response.responseBuf.length + 1) r.headerLoop = some l :=
  leaves_iff_loop HeaderLoop.Stuck (fun l => l.responseStream.rest.length)
    (fun _ => headerPass_of_stuck) (fun _ _ => headerPass_variant) r.headerLoop l

/-- **A handler returns on every completion on which its loop ends**, and only the header handler
has a loop. -/
theorem handle_isSome_iff (w : ULong) (shutdown : ErrorCode) (r : HTTPRequest) (op : AsyncOp)
    (c : Completion) :
    (handle w shutdown r op c).isSome ↔ (op = .readHeaders → c.ec.value = 0 →
      ∃ l, Leaves headerPass (r.withResponseBuf (r.response.responseBuf ++ c.received)).headerLoop
        l) := by
  cases op with
  | readHeaders =>
    by_cases hec : c.ec.value = 0
    · simp only [handle, onHeadersReceived, hec, ne_eq, not_true_eq_false, if_false,
        Option.isSome_map, Option.isSome_iff_exists, leaves_headerPass_iff, forall_const]
    · simp [handle, onHeadersReceived, hec]
  | _ => simp [handle]

/-! ## What a handler may do -/

/-- `execute` goes on to the lock, to resolve the host. -/
theorem execute_eq_of_isSome {r : HTTPRequest} (h : r.execute.isSome) :
    r.execute = some (.lock (.resolve r.host (toString r.port.toNat))) ∧
      r.host ≠ [] ∧ r.uri ≠ [] := by
  unfold execute at h ⊢
  split at h
  next hassert =>
    refine ⟨if_pos hassert, ?_, ?_⟩
    · exact List.ne_nil_of_length_pos hassert.2.1
    · exact List.ne_nil_of_length_pos hassert.2.2.1
  next => cases h

/-- How many operations there are from `op` on. -/
def stages : AsyncOp → ℕ
  | .resolve _ _ => 6
  | .connect => 5
  | .write _ => 4
  | .readStatusLine => 3
  | .readHeaders => 2
  | .readBody => 1

/-- **What a handler does**: it leaves `m_was_cancelled` alone; it finishes with an error, unless it
is the body handler; it goes on with the next operation; or it is `on_request_sent`, told success,
and the socket cannot be shut down. -/
theorem handle_eq_some {w : ULong} {shutdown : ErrorCode} {r r' : HTTPRequest} {op : AsyncOp}
    {c : Completion} {ctl : Control} (h : r.handle w shutdown op c = some (r', ctl)) :
    r'.wasCancelled = r.wasCancelled ∧ match ctl with
      | .finish ec => ec.value ≠ 0 ∨ op = .readBody ∧ (c.ec.value = 0 ∨ c.ec = .eof)
      | .lock op' => stages op = stages op' + 1
      | .throws _ => (∃ buffer, op = .write buffer) ∧ c.ec.value = 0 ∧ shutdown.value ≠ 0 := by
  cases op with
  | resolve host service =>
    simp only [handle, onHostNameResolved, Option.some.injEq] at h
    split at h
    next hec => cases h; exact ⟨rfl, .inl hec⟩
    next => cases h; exact ⟨rfl, rfl⟩
  | connect =>
    simp only [handle, onConnectionEstablished, Option.some.injEq] at h
    split at h
    next hec => cases h; exact ⟨rfl, .inl hec⟩
    next => cases h; exact ⟨rfl, rfl⟩
  | write buffer =>
    simp only [handle, onRequestSent, Option.some.injEq] at h
    split at h
    next hec => cases h; exact ⟨rfl, .inl hec⟩
    next hec =>
      split at h
      next hshut => cases h; exact ⟨rfl, ⟨buffer, rfl⟩, not_not.mp hec, hshut⟩
      next => cases h; exact ⟨rfl, rfl⟩
  | readStatusLine =>
    simp only [handle, onStatusLineReceived, Option.some.injEq] at h
    split at h
    next hec => cases h; exact ⟨rfl, .inl hec⟩
    next =>
      split at h
      next => cases h; exact ⟨rfl, .inl (by decide)⟩
      next =>
        split at h
        next => cases h; exact ⟨rfl, .inl (by decide)⟩
        next => cases h; exact ⟨rfl, rfl⟩
  | readHeaders =>
    simp only [handle, onHeadersReceived] at h
    split at h
    next hec => cases h; exact ⟨rfl, .inl hec⟩
    next =>
      obtain ⟨l, -, hl⟩ := Option.map_eq_some_iff.mp h
      cases hl
      exact ⟨rfl, rfl⟩
  | readBody =>
    simp only [handle, onResponseBodyReceived, Option.some.injEq] at h
    split at h
    next heof => cases h; exact ⟨rfl, .inr ⟨rfl, .inr heof⟩⟩
    next =>
      cases h
      by_cases hec : c.ec.value = 0
      · exact ⟨rfl, .inr ⟨rfl, .inl hec⟩⟩
      · exact ⟨rfl, .inl hec⟩

/-- How the first part of a handler may end. -/
inductive HandlerEnd (shutdown : ErrorCode) (op : AsyncOp) (c : Completion) : Control → Prop
  | failed {ec : ErrorCode} (hec : ec.value ≠ 0) : HandlerEnd shutdown op c (.finish ec)
  /-- Only the body handler may finish with a success code. -/
  | complete {ec : ErrorCode} (hop : op = .readBody) (hec : c.ec.value = 0 ∨ c.ec = .eof) :
    HandlerEnd shutdown op c (.finish ec)
  | goOn {op' : AsyncOp} : HandlerEnd shutdown op c (.lock op')
  | threw {ec : ErrorCode} (hshut : shutdown.value ≠ 0) : HandlerEnd shutdown op c (.throws ec)

/-- **What a handler may do**: it leaves `m_was_cancelled` alone, and ends in one of these ways. -/
theorem handle_cases {w : ULong} {shutdown : ErrorCode} {r r' : HTTPRequest} {op : AsyncOp}
    {c : Completion} {ctl : Control} (h : r.handle w shutdown op c = some (r', ctl)) :
    r'.wasCancelled = r.wasCancelled ∧ HandlerEnd shutdown op c ctl := by
  obtain ⟨hcancelled, hend⟩ := handle_eq_some h
  refine ⟨hcancelled, ?_⟩
  cases ctl with
  | finish ec =>
    rcases hend with hec | ⟨hop, hec⟩
    · exact .failed hec
    · exact .complete hop hec
  | lock op' => exact .goOn
  | throws ec => exact .threw hend.2.2

/-- **The one handler that may throw**: `on_request_sent`, told success, shuts the socket down. -/
theorem handle_throws_iff {w : ULong} {shutdown : ErrorCode} {r : HTTPRequest} {op : AsyncOp}
    {c : Completion} : (∃ r' ec, r.handle w shutdown op c = some (r', .throws ec)) ↔
      (∃ buffer, op = .write buffer) ∧ c.ec.value = 0 ∧ shutdown.value ≠ 0 := by
  constructor
  · rintro ⟨r', ec, h⟩
    exact (handle_eq_some h).2
  · rintro ⟨⟨buffer, rfl⟩, hec, hshut⟩
    exact ⟨r, shutdown, by simp [handle, onRequestSent, hec, hshut]⟩

/-! ## The header loop on one header line -/

/-- **A pass on a header line** takes it, with the byte after its `'\r'`. -/
theorem headerPass_line {line : Bytes} (hline : cr ∉ line) (hne : line ≠ []) (b : UInt8)
    (more header : Bytes) (response : HTTPResponse) :
    headerPass { responseStream := { rest := line ++ cr :: b :: more }, header, response }
      = .inl { responseStream := { rest := more }, header := line,
               response := addHeaderLine response line } := by
  rw [headerPass]
  simp only [IStream.getline_append _ _ _ hline, IStream.get_cons, hne, if_false]

/-- **A pass on a blank line** is the last one. -/
theorem headerPass_blank (b : UInt8) (more header : Bytes) (response : HTTPResponse) :
    headerPass { responseStream := { rest := cr :: b :: more }, header, response }
      = .inr { responseStream := { rest := more }, header := [], response } := by
  rw [headerPass]
  have hget := IStream.getline_append [] (b :: more) header
    (List.not_mem_nil (a := cr))
  rw [List.nil_append] at hget
  simp only [hget, IStream.get_cons, if_true]

/-- The loop on a header line, a blank line and any body: one line is added, and the body is what
stays in the buffer. -/
theorem loop_headerPass_line {line : Bytes} (hline : cr ∉ line) (hne : line ≠ []) (body : Bytes)
    (response : HTTPResponse) (n : ℕ) (hn : 2 ≤ n) :
    loop headerPass n { responseStream := { rest := line ++ crlfcrlf ++ body }, response }
      = some { responseStream := { rest := body }, header := [],
               response := addHeaderLine response line } := by
  obtain ⟨n, rfl⟩ : ∃ k, n = k + 2 := ⟨n - 2, by omega⟩
  have hbuf : line ++ crlfcrlf ++ body = line ++ cr :: lf :: (cr :: lf :: body) := by
    simp [crlfcrlf]
  rw [hbuf, loop_again (headerPass_line hline hne lf _ [] response),
    loop_leave (headerPass_blank lf body line _)]

/-- A header line goes to the headers alone. -/
theorem addHeaderLine_responseBuf (response : HTTPResponse) (buf buf' header : Bytes) :
    { addHeaderLine { response with responseBuf := buf } header with responseBuf := buf' }
      = { addHeaderLine response header with responseBuf := buf' } := by
  unfold addHeaderLine
  split <;> rfl

/-- **The header handler on one header line** takes it and the blank line, and leaves the body. -/
theorem onHeadersReceived_of_line {r : HTTPRequest} {line : Bytes} (hline : cr ∉ line)
    (hne : line ≠ []) (body : Bytes) (hbuf : r.response.responseBuf = line ++ crlfcrlf ++ body) :
    r.onHeadersReceived .success = some
      ({ r with response := { addHeaderLine r.response line with responseBuf := body } },
        .lock .readBody) := by
  have hloop := loop_headerPass_line hline hne body r.response
    ((line ++ crlfcrlf ++ body).length + 1) (by simp [crlfcrlf]; omega)
  simp only [onHeadersReceived, ErrorCode.success_value, ne_eq, not_true_eq_false, if_false,
    headerLoop, hbuf, hloop, Option.map_some]

end HTTPRequest

end AsioSamples
