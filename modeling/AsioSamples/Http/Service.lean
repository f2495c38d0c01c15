import AsioSamples.Asio.Delivery
import AsioSamples.Cpp.IStream
import AsioSamples.Machinery.Loop

/-!
# Http/Service — `HttpService`, handler by handler

The three completion handlers of `http-service-async.hpp` with `process_request` and
`send_response`.  A handler ends by initiating the next operation or by `delete this`
(`ServiceControl`); the calls that have no `error_code` argument may throw (`Exception`).  What the
operating system answers is a parameter, `Os`.

The `while (!request_stream.eof())` of `on_headers_received` always ends
(`exists_loop_headerPass`), so that handler is a total function.
-/

namespace AsioSamples

/-! ## What the operating system answers -/

/-- A file that `std::ifstream` has opened: the position `tellg` reports at its end, and what there
is to read from its start. -/
structure OpenFile where
  tellg : Int64
  content : Bytes

/-- `static_cast<std::size_t>` of the signed position. -/
def OpenFile.size (f : OpenFile) : UInt64 := f.tellg.toUInt64

/-- `read(buffer, n)`: the bytes read overwrite the start of `buffer`. -/
def OpenFile.read (f : OpenFile) (buffer : Bytes) (n : ℕ) : Bytes :=
  f.content.take n ++ buffer.drop (f.content.take n).length

/-- What there is under a path. -/
inductive Resource
  | missing
  /-- It exists, and opening it fails. -/
  | unopenable
  | opened (f : OpenFile)
  /-- `fs::exists` cannot tell. -/
  | statusError (ec : ErrorCode)

/-- The outcomes of the calls that handlers make directly. -/
structure Os where
  shutdownSend : ErrorCode := .success
  shutdownReceive : ErrorCode := .success
  shutdownBoth : ErrorCode := .success
  /-- What there is under a path, which has no NUL in it. -/
  fs : Bytes → Resource
  /-- Is there memory for so many bytes? -/
  memory : ℕ → Bool := fun _ => true
  /-- What freshly allocated memory holds. -/
  heap : ℕ → UInt8 := fun _ => 0

/-- `path.c_str()`, which ends at the first NUL. -/
def cStr (path : Bytes) : Bytes := path.takeWhile (· ≠ 0)

/-- What `fs::exists` and `std::ifstream` find under `path`: both hand it on as a C string. -/
def Os.find (os : Os) (path : Bytes) : Resource := os.fs (cStr path)

/-- `new char[n]` does not throw.  No array is larger than `PTRDIFF_MAX`. -/
def Os.Allocates (os : Os) (n : ℕ) : Prop := n < 2 ^ 63 ∧ os.memory n = true

instance (os : Os) (n : ℕ) : Decidable (os.Allocates n) := inferInstanceAs (Decidable (_ ∧ _))

/-- The memory that `new char[n]` gives, if it gives any. -/
def Os.newChars (os : Os) (n : ℕ) : Bytes := (List.range n).map os.heap

@[simp] theorem Os.length_newChars (os : Os) (n : ℕ) : (os.newChars n).length = n := by
  simp [newChars]

/-- The size of a position that is a length. -/
theorem OpenFile.size_of_tellg {f : OpenFile} {n : ℕ} (h : f.tellg.toInt = n) :
    f.size.toNat = n ∧ n < 2 ^ 63 := by
  have hpos : 0 ≤ f.tellg := Int64.le_iff_toInt_le.mpr (by simp [h])
  have hlt := f.tellg.toInt_lt
  refine ⟨?_, by omega⟩
  rw [OpenFile.size, Int64.toNat_toUInt64_of_le hpos, Int64.toNatClampNeg, h, Int.toNat_natCast]

/-- A file that has `n` bytes fills a buffer of `n` bytes. -/
theorem OpenFile.read_newChars (os : Os) {f : OpenFile} {n : ℕ} (h : n ≤ f.content.length) :
    f.read (os.newChars n) n = f.content.take n := by
  simp [read, h]

/-- No socket shutdown fails. -/
structure Os.ShutdownsSucceed (os : Os) : Prop where
  send : os.shutdownSend.value = 0
  receive : os.shutdownReceive.value = 0
  both : os.shutdownBoth.value = 0

/-- The file under `path` exists, opens, its contents are `contents`, and there is memory for
them. -/
def Os.HasFile (os : Os) (path contents : Bytes) : Prop :=
  ∃ f, os.find path = .opened f ∧ f.tellg.toInt = contents.length ∧ f.content = contents ∧
    os.memory contents.length = true

/-- Neither `fs::exists` nor the allocation of the buffer throws for what is under `path`. -/
structure Os.Provides (os : Os) (path : Bytes) : Prop where
  exists_ : ∀ ec, os.find path ≠ .statusError ec
  allocates : ∀ f, os.find path = .opened f → os.Allocates f.size.toNat

/-- What a handler may throw. -/
inductive Exception
  | systemError (ec : ErrorCode)
  | filesystemError (ec : ErrorCode)
  | outOfRange
  /-- `std::bad_alloc`, or the `std::bad_array_new_length` that is one. -/
  | badAlloc
  deriving DecidableEq

/-! ## `HttpService` -/

/-- `http_status_table`. -/
def httpStatusTable : List (UInt32 × Bytes) :=
  [(200, bytes "200 OK"),
   (404, bytes "404 Not Found"),
   (413, bytes "413 Request Entity Too Large"),
   (500, bytes "500 Server Error"),
   (501, bytes "501 Not Implemented"),
   (505, bytes "505 HTTP Version Not Supported")]

/-- The fields of an `HttpService`; `request` is what `m_request` holds. -/
structure HttpService where
  request : Bytes := []
  requestHeaders : StdMap Bytes Bytes := ∅
  requestedResource : Bytes := []
  resourceBuffer : Bytes := []
  responseStatusCode : UInt32 := 200
  resourceSizeBytes : UInt64 := 0
  responseHeaders : Bytes := []
  responseStatusLine : Bytes := []

/-- The `max_size` of `m_request`. -/
def maxRequest : ℕ := 4096

/-- The asynchronous operations the service initiates. -/
inductive ServiceOp
  /-- `async_read_until` to `"\r\n"`. -/
  | readRequestLine
  /-- `async_read_until` to `"\r\n\r\n"`. -/
  | readHeaders
  | write (buffers : List Bytes)
  deriving DecidableEq

/-- How a handler ends. -/
inductive ServiceControl
  | await (op : ServiceOp)
  /-- `delete this`. -/
  | deleted
  deriving DecidableEq

namespace HttpService

/-- `HandleRequest`. -/
def handleRequest : ServiceOp := .readRequestLine

/-- `send_response`. -/
def sendResponse (os : Os) (s : HttpService) : Except Exception (HttpService × ServiceControl) :=
  if os.shutdownReceive.value ≠ 0 then .error (.systemError os.shutdownReceive)
  else
    match httpStatusTable.lookup s.responseStatusCode with
    | none => .error .outOfRange
    | some statusLine =>
      let s := { s with
        responseStatusLine := bytes "HTTP/1.1 " ++ statusLine ++ bytes "\r\n"
        responseHeaders := s.responseHeaders ++ bytes "\r\n" }
      let headers := if 0 < s.responseHeaders.length then [s.responseHeaders] else []
      let resource :=
        if 0 < s.resourceSizeBytes then [s.resourceBuffer.take s.resourceSizeBytes.toNat] else []
      .ok (s, .await (.write ([s.responseStatusLine] ++ headers ++ resource)))

/-- The `resource_file_path` of `process_request`. -/
def resourceFilePath (s : HttpService) : Bytes := bytes "sample" ++ s.requestedResource

/-- `process_request`. -/
def processRequest (os : Os) (s : HttpService) : Except Exception HttpService :=
  match os.find s.resourceFilePath with
  | .statusError ec => .error (.filesystemError ec)
  | .missing => .ok { s with responseStatusCode := 404 }
  | .unopenable => .ok { s with responseStatusCode := 500 }
  | .opened f =>
    if os.Allocates f.size.toNat then
      .ok { s with
        resourceSizeBytes := f.size
        resourceBuffer := f.read (os.newChars f.size.toNat) f.size.toNat
        responseHeaders := s.responseHeaders
          ++ (bytes "content-length" ++ bytes ": " ++ toString f.size.toNat ++ bytes "\r\n") }
    else .error .badAlloc

def onRequestLineReceived (os : Os) (s : HttpService) (ec : ErrorCode) :
    Except Exception (HttpService × ServiceControl) :=
  if ec.value ≠ 0 then
    if ec = .notFound then sendResponse os { s with responseStatusCode := 413 }
    else .ok (s, .deleted)
  else
    let requestStream : IStream := { rest := s.request }
    let (requestLine, requestStream) := requestStream.getline cr []
    let s := { s with request := requestStream.get.rest }
    let requestLineStream : IStream := { rest := requestLine }
    let (requestMethod, requestLineStream) := requestLineStream.extract []
    if requestMethod ≠ bytes "GET" then sendResponse os { s with responseStatusCode := 501 }
    else
      let (requestedResource, requestLineStream) := requestLineStream.extract s.requestedResource
      let s := { s with requestedResource }
      let (requestHttpVersion, _) := requestLineStream.extract []
      if requestHttpVersion ≠ bytes "HTTP/1.1" then
        sendResponse os { s with responseStatusCode := 505 }
      else .ok (s, .await .readHeaders)

/-- What one pass of the header loop works on. -/
structure HeaderLoop where
  requestStream : IStream
  headerName : Bytes := []
  headerValue : Bytes := []
  requestHeaders : StdMap Bytes Bytes

/-- One pass of `while (!request_stream.eof())`. -/
def headerPass (l : HeaderLoop) : HeaderLoop ⊕ HeaderLoop :=
  if l.requestStream.eofbit then .inr l
  else
    let (headerName, requestStream) := l.requestStream.getline colon l.headerName
    if requestStream.eofbit then .inl { l with requestStream, headerName }
    else
      let (headerValue, requestStream) := requestStream.getline cr l.headerValue
      .inl { requestStream := requestStream.get, headerName, headerValue,
             requestHeaders := l.requestHeaders.assign headerName headerValue }

/-- The loop's state on entry. -/
def headerLoop (s : HttpService) : HeaderLoop :=
  { requestStream := { rest := s.request }, requestHeaders := s.requestHeaders }

/-- A stream the loop has run to its end. -/
def AtEnd (t : IStream) : Prop := t.eofbit = true ∧ t.rest = []

/-- **A pass on a header line** stores it, and goes on behind the byte after its `'\r'`. -/
theorem headerPass_line {name value : Bytes} (hname : colon ∉ name) (hvalue : cr ∉ value)
    (b : UInt8) (more headerName headerValue : Bytes) (requestHeaders : StdMap Bytes Bytes) :
    headerPass { requestStream := { rest := name ++ colon :: (value ++ cr :: b :: more) },
                 headerName, headerValue, requestHeaders }
      = .inl { requestStream := { rest := more }, headerName := name, headerValue := value,
               requestHeaders := requestHeaders.assign name value } := by
  simp only [headerPass, IStream.getline_append name _ _ hname, Bool.false_eq_true, if_false,
    IStream.getline_append value _ _ hvalue, IStream.get_cons]

/-- **A pass on a header line that the buffer ends** stores it, and the stream ends. -/
theorem headerPass_lastLine {name value more : Bytes} (hname : colon ∉ name) (hvalue : cr ∉ value)
    (hmore : more = [] ∨ more = [cr]) (headerName headerValue : Bytes)
    (requestHeaders : StdMap Bytes Bytes) : ∃ requestStream, AtEnd requestStream ∧
      headerPass { requestStream := { rest := name ++ colon :: (value ++ more) },
                   headerName, headerValue, requestHeaders }
        = .inl { requestStream, headerName := name, headerValue := value,
                 requestHeaders := requestHeaders.assign name value } := by
  rcases hmore with rfl | rfl
  · refine ⟨{ rest := [], eofbit := true, failbit := true }, ⟨rfl, rfl⟩, ?_⟩
    rw [List.append_nil]
    simp only [headerPass, IStream.getline_append name _ _ hname, Bool.false_eq_true, if_false,
      IStream.getline_of_notMem value _ hvalue]
    rfl
  · refine ⟨{ rest := [], eofbit := true, failbit := true }, ⟨rfl, rfl⟩, ?_⟩
    simp only [headerPass, IStream.getline_append name _ _ hname, Bool.false_eq_true, if_false,
      IStream.getline_append value _ _ hvalue]
    rfl

/-- **A pass without a `':'` ahead** stores nothing, and the stream ends. -/
theorem headerPass_noColon {buf : Bytes} (hbuf : colon ∉ buf) (headerName headerValue : Bytes)
    (requestHeaders : StdMap Bytes Bytes) :
    headerPass { requestStream := { rest := buf }, headerName, headerValue, requestHeaders }
      = .inl { requestStream := { rest := [], eofbit := true, failbit := buf.isEmpty },
               headerName := buf, headerValue, requestHeaders } := by
  simp only [headerPass, IStream.getline_of_notMem buf _ hbuf, Bool.false_eq_true, if_false,
    if_true]

/-- What a pass finds ahead of it. -/
inductive Ahead : Bytes → Prop
  | noColon {buf : Bytes} (h : colon ∉ buf) : Ahead buf
  | lastLine {name value more : Bytes} (hname : colon ∉ name) (hvalue : cr ∉ value)
    (hmore : more = [] ∨ more = [cr]) : Ahead (name ++ colon :: (value ++ more))
  | line {name value : Bytes} (hname : colon ∉ name) (hvalue : cr ∉ value) (b : UInt8)
    (more : Bytes) : Ahead (name ++ colon :: (value ++ cr :: b :: more))

theorem ahead (buf : Bytes) : Ahead buf := by
  by_cases hcolon : colon ∈ buf
  case neg => exact .noColon hcolon
  obtain ⟨name, tail, rfl, hname⟩ := List.eq_append_cons_of_mem hcolon
  by_cases hcr : cr ∈ tail
  case neg =>
    have h := Ahead.lastLine hname hcr (.inl rfl)
    rwa [List.append_nil] at h
  obtain ⟨value, more, rfl, hvalue⟩ := List.eq_append_cons_of_mem hcr
  cases more with
  | nil => exact .lastLine hname hvalue (.inr rfl)
  | cons b more => exact .line hname hvalue b more

/-- A pass on a good stream consumes a byte of it, or runs it to its end. -/
theorem headerPass_good (l : HeaderLoop) {buf : Bytes} (h : l.requestStream = { rest := buf }) :
    ∃ l', headerPass l = .inl l' ∧ (AtEnd l'.requestStream ∨
      ∃ buf', l'.requestStream = { rest := buf' } ∧ buf'.length < buf.length) := by
  obtain ⟨_, headerName, headerValue, requestHeaders⟩ := l
  subst h
  cases ahead buf with
  | noColon hcolon =>
    exact ⟨_, headerPass_noColon hcolon headerName headerValue requestHeaders, Or.inl ⟨rfl, rfl⟩⟩
  | lastLine hname hvalue hmore =>
    obtain ⟨_, hend, hpass⟩ :=
      headerPass_lastLine hname hvalue hmore headerName headerValue requestHeaders
    exact ⟨_, hpass, Or.inl hend⟩
  | line hname hvalue b more =>
    refine ⟨_, headerPass_line hname hvalue b more headerName headerValue requestHeaders,
      Or.inr ⟨more, rfl, ?_⟩⟩
    simp only [List.length_append, List.length_cons]
    omega

theorem headerPass_atEnd {l : HeaderLoop} (h : AtEnd l.requestStream) : headerPass l = .inr l := by
  simp [headerPass, h.1]

/-- **The header loop ends**, within one pass per byte and two more, and has then consumed the
whole buffer. -/
theorem exists_loop_headerPass : ∀ (n : ℕ) (l : HeaderLoop) (buf : Bytes),
    l.requestStream = { rest := buf } → buf.length ≤ n →
      ∃ l', loop headerPass (n + 2) l = some l' ∧ AtEnd l'.requestStream := by
  intro n
  induction n with
  | zero =>
    intro l buf h hlen
    obtain ⟨l', hl', hend | ⟨buf', -, hlt⟩⟩ := headerPass_good l h
    · exact ⟨l', (loop_again hl' 1).trans (loop_leave (headerPass_atEnd hend) 0), hend⟩
    · omega
  | succ n ih =>
    intro l buf h hlen
    obtain ⟨l', hl', hend | ⟨buf', hbuf', hlt⟩⟩ := headerPass_good l h
    · exact ⟨l', (loop_again hl' (n + 2)).trans (loop_leave (headerPass_atEnd hend) (n + 1)), hend⟩
    · obtain ⟨l'', hl'', hend⟩ := ih l' buf' hbuf' (by omega)
      exact ⟨l'', (loop_again hl' (n + 2)).trans hl'', hend⟩

theorem isSome_loop_headerPass (s : HttpService) :
    (loop headerPass (s.request.length + 2) s.headerLoop).isSome := by
  obtain ⟨l, hl, -⟩ := exists_loop_headerPass s.request.length s.headerLoop s.request rfl le_rfl
  exact Option.isSome_iff_exists.mpr ⟨l, hl⟩

/-- The header loop, run to its end. -/
def runHeaderLoop (s : HttpService) : HeaderLoop :=
  (loop headerPass (s.request.length + 2) s.headerLoop).get s.isSome_loop_headerPass

theorem leaves_runHeaderLoop (s : HttpService) : Leaves headerPass s.headerLoop s.runHeaderLoop :=
  ⟨_, (Option.some_get s.isSome_loop_headerPass).symm⟩

theorem runHeaderLoop_eq {s : HttpService} {l : HeaderLoop} (h : Leaves headerPass s.headerLoop l) :
    s.runHeaderLoop = l :=
  loop_unique s.leaves_runHeaderLoop h

def onHeadersReceived (os : Os) (s : HttpService) (ec : ErrorCode) :
    Except Exception (HttpService × ServiceControl) :=
  if ec.value ≠ 0 then
    if ec = .notFound then sendResponse os { s with responseStatusCode := 413 }
    else .ok (s, .deleted)
  else do
    let l := s.runHeaderLoop
    let s := { s with request := l.requestStream.rest, requestHeaders := l.requestHeaders }
    let s ← processRequest os s
    sendResponse os s

/-- `on_response_sent`, which goes on to `on_finish` whatever it is told. -/
def onResponseSent (os : Os) (s : HttpService) (_ec : ErrorCode) :
    Except Exception (HttpService × ServiceControl) :=
  if os.shutdownBoth.value ≠ 0 then .error (.systemError os.shutdownBoth) else .ok (s, .deleted)

/-- The handler of an operation, run on its completion; a read has appended what it received to
`m_request`. -/
def handle (os : Os) (s : HttpService) (op : ServiceOp) (ec : ErrorCode) (received : Bytes) :
    Except Exception (HttpService × ServiceControl) :=
  let filled := { s with request := s.request ++ received }
  match op with
  | .readRequestLine => filled.onRequestLineReceived os ec
  | .readHeaders => filled.onHeadersReceived os ec
  | .write _ => s.onResponseSent os ec

/-! ## How a handler ends -/

/-- Code after which something goes on has not thrown. -/
theorem of_bind_eq_ok {ε α β : Type} {x : Except ε α} {f : α → Except ε β} {b : β}
    (h : x >>= f = .ok b) : ∃ a, x = .ok a ∧ f a = .ok b := by
  cases x with
  | error e => cases h
  | ok a => exact ⟨a, rfl, h⟩

/-- The service with other bytes unread and other headers parsed. -/
def withParsed (s : HttpService) (request : Bytes) (headers : StdMap Bytes Bytes) : HttpService :=
  { s with request := request, requestHeaders := headers }

/-- **How the request-line handler ends**: the service is deleted, or an error status is sent, or it
goes on to the headers with a target free of white space. -/
theorem onRequestLineReceived_cases (os : Os) (s : HttpService) (ec : ErrorCode) :
    (ec.value ≠ 0 ∧ s.onRequestLineReceived os ec = .ok (s, .deleted)) ∨
    (∃ request resource code, ((httpStatusTable.lookup code).isSome ∧ code ≠ 200) ∧
      s.onRequestLineReceived os ec = sendResponse os { s with
        request := request, requestedResource := resource, responseStatusCode := code }) ∨
    (ec.value = 0 ∧ ∃ request resource,
      (resource = s.requestedResource ∨ ∀ b ∈ resource, isSpace b = false) ∧
      s.onRequestLineReceived os ec = .ok ({ s with
        request := request, requestedResource := resource }, .await .readHeaders)) := by
  unfold onRequestLineReceived
  split
  next hec =>
    split
    · exact Or.inr (Or.inl ⟨_, _, 413, by decide, rfl⟩)
    · exact Or.inl ⟨hec, rfl⟩
  next hec =>
    simp only
    split
    · exact Or.inr (Or.inl ⟨_, _, 501, by decide, rfl⟩)
    split
    · exact Or.inr (Or.inl ⟨_, _, 505, by decide, rfl⟩)
    · exact Or.inr (Or.inr ⟨not_not.mp hec, _, _, IStream.extract_cases _ _, rfl⟩)

/-- **How the header handler ends**: the service is deleted, or answers 413, or processes the
request it has parsed and answers. -/
theorem onHeadersReceived_cases (os : Os) (s : HttpService) (ec : ErrorCode) :
    (ec.value ≠ 0 ∧ s.onHeadersReceived os ec = .ok (s, .deleted)) ∨
    (ec = .notFound ∧
      s.onHeadersReceived os ec = sendResponse os { s with responseStatusCode := 413 }) ∨
    (ec.value = 0 ∧ s.onHeadersReceived os ec
      = processRequest os (s.withParsed s.runHeaderLoop.requestStream.rest
          s.runHeaderLoop.requestHeaders) >>= sendResponse os) := by
  unfold onHeadersReceived
  split
  next hec =>
    split
    next h => exact Or.inr (Or.inl ⟨h, rfl⟩)
    next => exact Or.inl ⟨hec, rfl⟩
  next hec => exact Or.inr (Or.inr ⟨not_not.mp hec, rfl⟩)

/-- `process_request` neither reads nor changes what was parsed but the target. -/
theorem processRequest_withParsed (os : Os) (s : HttpService) (request : Bytes)
    (headers : StdMap Bytes Bytes) : processRequest os (s.withParsed request headers)
      = (processRequest os s).map (·.withParsed request headers) := by
  unfold processRequest
  simp only [withParsed, resourceFilePath]
  split
  case h_4 => split <;> rfl
  all_goals rfl

/-- …and neither does `send_response`. -/
theorem sendResponse_withParsed (os : Os) (s : HttpService) (request : Bytes)
    (headers : StdMap Bytes Bytes) : sendResponse os (s.withParsed request headers)
      = (sendResponse os s).map fun p => (p.1.withParsed request headers, p.2) := by
  unfold sendResponse
  simp only [withParsed]
  split
  · rfl
  split <;> rfl

/-! ## A well-formed request -/

/-- **The request-line handler on a GET line** takes the line and its CRLF, and leaves the
read-ahead for the header handler. -/
theorem onRequestLineReceived_of_line (os : Os) (s : HttpService) {target : Bytes}
    (htarget : ∀ b ∈ target, isSpace b = false) (hne : target ≠ []) (ahead : Bytes)
    (hbuf : s.request = bytes "GET " ++ target ++ bytes " HTTP/1.1" ++ crlf ++ ahead) :
    s.onRequestLineReceived os .success
      = .ok ({ s with request := ahead, requestedResource := target }, .await .readHeaders) := by
  have hget : ∀ c ∈ bytes "GET", isSpace c = false := by decide +kernel
  have hversion : ∀ c ∈ bytes "HTTP/1.1", isSpace c = false := by decide +kernel
  have hline : cr ∉ bytes "GET" ++ 32 :: (target ++ 32 :: bytes "HTTP/1.1") := by
    simp only [List.mem_append, List.mem_cons, not_or]
    exact ⟨by decide, by decide, fun h => absurd (htarget cr h) (by decide), by decide, by decide⟩
  have hb : s.request = (bytes "GET" ++ 32 :: (target ++ 32 :: bytes "HTTP/1.1"))
      ++ cr :: (lf :: ahead) := by
    have h₁ : bytes "GET " = bytes "GET" ++ [32] := by decide
    have h₂ : bytes " HTTP/1.1" = 32 :: bytes "HTTP/1.1" := by decide
    rw [hbuf, h₁, h₂]
    simp [crlf]
  have h₀ := IStream.getline_append _ (lf :: ahead) [] hline
  have h₁ := IStream.extract_append [] (bytes "GET") 32 (target ++ 32 :: bytes "HTTP/1.1") []
    (by simp) hget (by decide) (by decide)
  have h₂ := IStream.extract_append [32] target 32 (bytes "HTTP/1.1") s.requestedResource
    (by decide +kernel) htarget hne (by decide)
  have h₃ := IStream.extract_last [32] (bytes "HTTP/1.1") [] (by decide +kernel) hversion
    (by decide)
  simp only [List.cons_append, List.nil_append] at h₁ h₂ h₃
  rw [onRequestLineReceived]
  simp only [ErrorCode.success_value, ne_eq, not_true_eq_false, if_false, hb, h₀, h₁, h₂, h₃,
    IStream.get_cons]

/-- **`process_request` on a file that opens**: the size, the buffer and the header line are those
of its contents. -/
theorem processRequest_of_hasFile {os : Os} {s : HttpService} {contents : Bytes}
    (h : os.HasFile (bytes "sample" ++ s.requestedResource) contents) :
    ∃ size : UInt64, size.toNat = contents.length ∧ processRequest os s = .ok { s with
      resourceSizeBytes := size, resourceBuffer := contents
      responseHeaders := s.responseHeaders
        ++ (bytes "content-length: " ++ toString contents.length ++ crlf) } := by
  obtain ⟨f, hf, htellg, rfl, hmemory⟩ := h
  obtain ⟨hsize, hlt⟩ := OpenFile.size_of_tellg htellg
  refine ⟨f.size, hsize, ?_⟩
  have hfound : os.find s.resourceFilePath = .opened f := hf
  have halloc : os.Allocates f.content.length := ⟨hlt, hmemory⟩
  have hlit : bytes "content-length" ++ bytes ": " = bytes "content-length: " := by decide
  have hcrlf : bytes "\r\n" = crlf := by decide
  have hread : f.read (os.newChars f.content.length) f.content.length = f.content := by
    rw [OpenFile.read_newChars os le_rfl, List.take_length]
  simp only [processRequest, hfound, hsize, halloc, if_true, hread, hlit, hcrlf]

/-- **`process_request` either keeps the status or decides nothing else.** -/
theorem processRequest_ok {os : Os} {s s' : HttpService} (h : processRequest os s = .ok s') :
    s'.responseStatusCode = s.responseStatusCode ∨
      s'.responseHeaders = s.responseHeaders ∧ s'.resourceSizeBytes = s.resourceSizeBytes := by
  simp only [processRequest] at h
  split at h
  · cases h
  · cases h
    exact Or.inr ⟨rfl, rfl⟩
  · cases h
    exact Or.inr ⟨rfl, rfl⟩
  · split at h
    · cases h
      exact Or.inl rfl
    · cases h

/-- **A status of 200 is kept for a file that opened.** -/
theorem opened_of_processRequest {os : Os} {s s' : HttpService} (h : processRequest os s = .ok s')
    (hcode : s'.responseStatusCode = 200) : s'.requestedResource = s.requestedResource ∧
      ∃ f, os.find s.resourceFilePath = .opened f := by
  simp only [processRequest] at h
  split at h
  next => cases h
  next =>
    cases h
    exact absurd (show (404 : UInt32) = 200 from hcode) (by decide)
  next =>
    cases h
    exact absurd (show (500 : UInt32) = 200 from hcode) (by decide)
  next f hf =>
    split at h
    · cases h
      exact ⟨rfl, f, hf⟩
    · cases h

/-- **`process_request` throws nothing** exactly where the system provides for the path. -/
theorem processRequest_isOk_iff {os : Os} {s : HttpService} :
    (∃ s', processRequest os s = .ok s') ↔ os.Provides s.resourceFilePath := by
  unfold processRequest
  constructor
  · rintro ⟨s', h⟩
    split at h
    next => cases h
    next hfile => exact ⟨by simp [hfile], by simp [hfile]⟩
    next hfile => exact ⟨by simp [hfile], by simp [hfile]⟩
    next f hfile =>
      split at h
      next halloc => exact ⟨by simp [hfile], by simpa [hfile] using halloc⟩
      next => cases h
  · intro h
    split
    next ec hfile => exact absurd hfile (h.exists_ ec)
    next => exact ⟨_, rfl⟩
    next => exact ⟨_, rfl⟩
    next f hfile => exact ⟨_, if_pos (h.allocates f hfile)⟩

/-! ## What `send_response` sends -/

/-- `send_response` changes nothing but the status line and the headers. -/
theorem sendResponse_eq {os : Os} {s s' : HttpService} {c : ServiceControl}
    (h : sendResponse os s = .ok (s', c)) :
    ∃ line headers, s' = { s with responseStatusLine := line, responseHeaders := headers } := by
  unfold sendResponse at h
  split at h
  · cases h
  split at h
  · cases h
  · cases h
    exact ⟨_, _, rfl⟩

/-- Every entry of the table is its code, a blank, and a phrase without `'\r'`. -/
theorem httpStatusTable_entry {code : UInt32} {text : Bytes}
    (h : httpStatusTable.lookup code = some text) :
    ∃ phrase, text = toString code.toNat ++ bytes " " ++ phrase ∧ cr ∉ phrase ∧
      code.toNat ≤ 505 := by
  have key : ∀ e ∈ httpStatusTable,
      e.2.take 4 = toString e.1.toNat ++ bytes " " ∧ cr ∉ e.2.drop 4 ∧ e.1.toNat ≤ 505 := by
    decide
  obtain ⟨l₁, l₂, htable, -⟩ := List.lookup_eq_some_iff.mp h
  obtain ⟨htake, hcr, hle⟩ := key (code, text) (by simp [htable])
  refine ⟨text.drop 4, ?_, hcr, hle⟩
  rw [← htake, List.take_append_drop]

/-- A buffer of its size is sent whole. -/
theorem sentResource_eq {buffer : Bytes} {size : UInt64} (h : buffer.length = size.toNat) :
    (if 0 < size then buffer.take size.toNat else []) = buffer := by
  split
  · rw [← h, List.take_length]
  next hzero =>
    have hz : size.toNat = 0 := by simpa [UInt64.lt_iff_toNat_lt] using hzero
    exact (List.length_eq_zero_iff.mp (h.trans hz)).symm

/-- **The bytes of a response**: a status line, the header lines so far, a blank line, and the
resource. -/
theorem sendResponse_ok {os : Os} {s s' : HttpService} {c : ServiceControl}
    (h : sendResponse os s = .ok (s', c)) :
    s'.responseStatusCode = s.responseStatusCode ∧ ∃ text buffers,
      httpStatusTable.lookup s.responseStatusCode = some text ∧ c = .await (.write buffers) ∧
      buffers.flatten = bytes "HTTP/1.1 " ++ text ++ crlf ++ (s.responseHeaders ++ crlf)
        ++ (if 0 < s.resourceSizeBytes then s.resourceBuffer.take s.resourceSizeBytes.toNat
            else []) := by
  unfold sendResponse at h
  split at h
  · cases h
  split at h
  · cases h
  next text htext =>
    obtain ⟨rfl, rfl⟩ := Prod.mk.inj (Except.ok.inj h)
    refine ⟨rfl, text, _, htext, rfl, ?_⟩
    have hcrlf : bytes "\r\n" = crlf := by decide
    have hpos : 0 < (s.responseHeaders ++ crlf).length := by simp [crlf]
    simp only [hcrlf]
    rw [if_pos hpos]
    by_cases hsize : 0 < s.resourceSizeBytes <;> simp [hsize]

/-- **`send_response` ends in a write**, with any status of the table. -/
theorem exists_sendResponse {os : Os} (hos : os.shutdownReceive.value = 0) {s : HttpService}
    (htext : (httpStatusTable.lookup s.responseStatusCode).isSome) :
    ∃ s' buffers, sendResponse os s = .ok (s', .await (.write buffers)) := by
  obtain ⟨text, htext⟩ := Option.isSome_iff_exists.mp htext
  simp [sendResponse, hos, htext]

/-- What a handler has done that goes on. -/
inductive Continues (os : Os) (s : HttpService) : ServiceOp → HttpService → ServiceOp → Prop
  /-- It has taken the request line. -/
  | readOn (request resource : Bytes) : Continues os s .readRequestLine
      { s with request := request, requestedResource := resource } .readHeaders
  /-- It answers with an error status. -/
  | refuse {op op' : ServiceOp} {s' : HttpService} {request resource : Bytes} {code : UInt32}
    (hop : ∀ buffers, op ≠ .write buffers) (hcode : code ≠ 200)
    (hsend : sendResponse os { s with
      request := request, requestedResource := resource, responseStatusCode := code }
        = .ok (s', .await op')) : Continues os s op s' op'
  /-- It has processed the request, and answers. -/
  | respond {op' : ServiceOp} {s₁ s' : HttpService} {request : Bytes}
    {headers : StdMap Bytes Bytes}
    (hprocess : processRequest os (s.withParsed request headers) = .ok s₁)
    (hsend : sendResponse os s₁ = .ok (s', .await op')) : Continues os s .readHeaders s' op'

/-- **A handler that goes on** has done one of these. -/
theorem continues_handle {os : Os} {s s' : HttpService} {op op' : ServiceOp} {ec : ErrorCode}
    {received : Bytes} (h : s.handle os op ec received = .ok (s', .await op')) :
    Continues os s op s' op' := by
  cases op with
  | readRequestLine =>
    rcases onRequestLineReceived_cases os { s with request := s.request ++ received } ec with
      ⟨-, hend⟩ | ⟨_, _, _, hcode, hend⟩ | ⟨-, _, _, -, hend⟩
    · cases hend.symm.trans h
    · exact .refuse (fun _ hop => by cases hop) hcode.2 (hend.symm.trans h)
    · cases hend.symm.trans h
      exact .readOn _ _
  | readHeaders =>
    rcases onHeadersReceived_cases os { s with request := s.request ++ received } ec with
      ⟨-, hend⟩ | ⟨-, hend⟩ | ⟨-, hend⟩
    · cases hend.symm.trans h
    · exact .refuse (fun _ hop => by cases hop) (by decide) (hend.symm.trans h)
    · obtain ⟨s₁, hprocess, hsend⟩ := of_bind_eq_ok (hend.symm.trans h)
      exact .respond hprocess hsend
  | write buffers =>
    simp only [handle, onResponseSent] at h
    split at h <;> cases h

/-- The request-line handler reads on to the headers, if it reads on. -/
theorem onRequestLineReceived_ok {os : Os} {s s' : HttpService} {ec : ErrorCode}
    {c : ServiceControl} (h : s.onRequestLineReceived os ec = .ok (s', c)) :
    c = .deleted ∨ c = .await .readHeaders ∨ ∃ buffers, c = .await (.write buffers) := by
  rcases onRequestLineReceived_cases os s ec with ⟨-, hend⟩ | ⟨_, _, _, -, hend⟩ |
    ⟨-, _, _, -, hend⟩ <;> rw [hend] at h
  · cases h
    exact Or.inl rfl
  · obtain ⟨-, -, buffers, -, hc, -⟩ := sendResponse_ok h
    exact Or.inr (Or.inr ⟨buffers, hc⟩)
  · cases h
    exact Or.inr (Or.inl rfl)

/-- The header handler does not read on. -/
theorem onHeadersReceived_ok {os : Os} {s s' : HttpService} {ec : ErrorCode} {c : ServiceControl}
    (h : s.onHeadersReceived os ec = .ok (s', c)) :
    c = .deleted ∨ ∃ buffers, c = .await (.write buffers) := by
  rcases onHeadersReceived_cases os s ec with ⟨-, hend⟩ | ⟨-, hend⟩ | ⟨-, hend⟩ <;> rw [hend] at h
  · cases h
    exact Or.inl rfl
  · obtain ⟨-, -, buffers, -, hc, -⟩ := sendResponse_ok h
    exact Or.inr ⟨buffers, hc⟩
  · obtain ⟨s₁, -, hsend⟩ := of_bind_eq_ok h
    obtain ⟨-, -, buffers, -, hc, -⟩ := sendResponse_ok hsend
    exact Or.inr ⟨buffers, hc⟩

/-- `send_response` on a resource that is to be sent whole. -/
theorem sendResponse_of_size {os : Os} (hos : os.shutdownReceive.value = 0) {s : HttpService}
    {text : Bytes} (htext : httpStatusTable.lookup s.responseStatusCode = some text)
    (hsize : s.resourceSizeBytes.toNat = s.resourceBuffer.length) :
    ∃ s' buffers, sendResponse os s = .ok (s', .await (.write buffers)) ∧
      buffers.flatten = bytes "HTTP/1.1 " ++ text ++ crlf ++ (s.responseHeaders ++ crlf)
        ++ s.resourceBuffer := by
  obtain ⟨s', buffers, hs'⟩ := exists_sendResponse hos (Option.isSome_iff_exists.mpr ⟨text, htext⟩)
  obtain ⟨-, text', buffers', htext', hop, hflat⟩ := sendResponse_ok hs'
  cases hop
  obtain rfl : text = text' := Option.some.inj (htext.symm.trans htext')
  exact ⟨s', buffers, hs', by rw [hflat, sentResource_eq hsize.symm]⟩

end HttpService

end AsioSamples
