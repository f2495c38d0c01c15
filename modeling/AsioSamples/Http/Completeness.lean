import AsioSamples.Http.HeaderBlock

/-!
# Http/Completeness — which complete requests an `HttpService` answers

The connection stays open here: a read that `serve` would end with `eof` is left waiting for the
client.  The request line's handler removes the line's own CRLF before the header handler's read
looks for `"\r\n\r\n"`; with no header line between, the CRLF that is left is too short for it
(`progress_getRequest`).
-/

namespace AsioSamples

namespace HttpService

/-! ## A connection that stays open -/

/-- Where a connection stands once everything was delivered and no handler is left to run. -/
inductive Progress
  /-- A read is outstanding. -/
  | waiting (s : HttpService) (op : ServiceOp)
  /-- `send_response` has initiated its write. -/
  | responding (s : HttpService) (buffers : List Bytes)
  | deleted
  | escaped (e : Exception)

/-- The service after a handler, for at most `n` reads more. -/
def progressFrom (os : Os) : ℕ → Except Exception (HttpService × ServiceControl) → List Bytes →
    Option Progress
  | _, .error e, _ => some (.escaped e)
  | _, .ok (_, .deleted), _ => some .deleted
  | _, .ok (s, .await (.write buffers)), _ => some (.responding s buffers)
  | 0, .ok (_, .await _), _ => none
  | n + 1, .ok (s, .await .readRequestLine), chunks =>
    let r := readUntil (some maxRequest) crlf s.request chunks
    -- the stream has not ended: a read that has run out of it is still outstanding
    if r.ec = .eof then
      some (.waiting { s with request := s.request ++ r.received } .readRequestLine)
    else progressFrom os n (s.handle os .readRequestLine r.ec r.received) r.rest
  | n + 1, .ok (s, .await .readHeaders), chunks =>
    let r := readUntil (some maxRequest) crlfcrlf s.request chunks
    if r.ec = .eof then some (.waiting { s with request := s.request ++ r.received } .readHeaders)
    else progressFrom os n (s.handle os .readHeaders r.ec r.received) r.rest

/-- A connection on which `chunks` have arrived so far. -/
def progress (os : Os) (chunks : List Bytes) : Option Progress :=
  progressFrom os 2 (.ok ({}, .await handleRequest)) chunks

/-- The service has initiated its response. -/
def Responding (outcome : Option Progress) : Prop :=
  ∃ s buffers, outcome = some (.responding s buffers)

/-- The service waits for more bytes from the client. -/
def Waiting (outcome : Option Progress) : Prop := ∃ s op, outcome = some (.waiting s op)

/-- A GET request with those header lines. -/
def getRequest (target : Bytes) (lines : List Bytes) : Bytes :=
  bytes "GET " ++ target ++ bytes " HTTP/1.1" ++ crlf ++ (HTTPRequest.headerBlock lines ++ crlf)

/-! ## When the client then finishes -/

/-- What becomes of a connection that the client finishes. -/
def Progress.finished : Progress → Served
  | .waiting _ _ => .dropped
  | .responding s buffers => .answered s buffers.flatten
  | .deleted => .dropped
  | .escaped e => .escaped e

/-- **A read left waiting is the one that the end of the stream would end**, and the service with
it. -/
theorem serveFrom_readHeaders_eq (os : Os) (s : HttpService) (chunks : List Bytes) :
    serveFrom os 2 s .readHeaders chunks
      = (progressFrom os 1 (.ok (s, .await .readHeaders)) chunks).map Progress.finished := by
  rw [serveFrom, progressFrom]
  simp only
  set d := readUntil (some maxRequest) crlfcrlf s.request chunks
  by_cases heof : d.ec = .eof
  · simp [heof, handle, onHeadersReceived, Progress.finished, ErrorCode.eof, ErrorCode.notFound]
  · rw [if_neg heof]
    cases h : s.handle os .readHeaders d.ec d.received with
    | error e => rfl
    | ok p =>
      obtain ⟨s', c⟩ := p
      rcases onHeadersReceived_ok h with rfl | ⟨buffers, rfl⟩ <;> rfl

theorem serve_eq_progress (os : Os) (chunks : List Bytes) :
    serve os chunks = (progress os chunks).map Progress.finished := by
  rw [serve, progress, handleRequest, serveFrom, progressFrom]
  simp only
  set d := readUntil (some maxRequest) crlf ({} : HttpService).request chunks
  by_cases heof : d.ec = .eof
  · simp [heof, handle, onRequestLineReceived, Progress.finished, ErrorCode.eof, ErrorCode.notFound]
  · rw [if_neg heof]
    cases h : ({} : HttpService).handle os .readRequestLine d.ec d.received with
    | error e => rfl
    | ok p =>
      obtain ⟨s', c⟩ := p
      rcases onRequestLineReceived_ok h with rfl | rfl | ⟨buffers, rfl⟩
      · rfl
      · exact serveFrom_readHeaders_eq os s' d.rest
      · rfl

/-! ## The header stage -/

variable {os : Os}

/-- **`process_request` and `send_response`** end in a write unless a call they make throws. -/
theorem exists_write_iff (os : Os) {s : HttpService} (hcode : s.responseStatusCode = 200) :
    (∃ s' buffers, processRequest os s >>= sendResponse os = .ok (s', .await (.write buffers))) ↔
      os.shutdownReceive.value = 0 ∧
        os.Provides s.resourceFilePath := by
  constructor
  · rintro ⟨s', buffers, h⟩
    obtain ⟨s₁, hprocess, hsend⟩ := of_bind_eq_ok h
    constructor
    · by_contra hne
      rw [sendResponse, if_pos hne] at hsend
      cases hsend
    · exact processRequest_isOk_iff.mp ⟨s₁, hprocess⟩
  · rintro ⟨hshut, hprovides⟩
    have h200 : (httpStatusTable.lookup 200).isSome := by decide
    have h404 : (httpStatusTable.lookup 404).isSome := by decide
    have h500 : (httpStatusTable.lookup 500).isSome := by decide
    obtain ⟨s₁, hprocess⟩ := processRequest_isOk_iff.mpr hprovides
    have hlookup : (httpStatusTable.lookup s₁.responseStatusCode).isSome := by
      simp only [processRequest] at hprocess
      split at hprocess
      · cases hprocess
      · cases hprocess
        exact h404
      · cases hprocess
        exact h500
      · split at hprocess
        · cases hprocess
          exact hcode ▸ h200
        · cases hprocess
    obtain ⟨s', buffers, hsend⟩ := exists_sendResponse hshut hlookup
    exact ⟨s', buffers, by rw [hprocess]; exact hsend⟩

/-- What comes of a handler that reads no more. -/
theorem responding_iff {n : ℕ} {chunks : List Bytes}
    {outcome : Except Exception (HttpService × ServiceControl)}
    (h : ∀ s c, outcome = .ok (s, c) → c = .deleted ∨ ∃ buffers, c = .await (.write buffers)) :
    (Responding (progressFrom os n outcome chunks) ↔
      ∃ s buffers, outcome = .ok (s, .await (.write buffers))) ∧
      ¬ Waiting (progressFrom os n outcome chunks) := by
  rcases outcome with e | ⟨s, c⟩
  · cases n <;> simp [progressFrom, Responding, Waiting]
  · rcases h s c rfl with rfl | ⟨buffers, rfl⟩
    · cases n <;> simp [progressFrom, Responding, Waiting]
    · cases n <;> simp [progressFrom, Responding, Waiting]

/-- `send_response` responds unless its shutdown throws. -/
theorem responding_sendResponse_iff (os : Os) (n : ℕ) (chunks : List Bytes) {s : HttpService}
    (hlookup : (httpStatusTable.lookup s.responseStatusCode).isSome) :
    (Responding (progressFrom os n (sendResponse os s) chunks) ↔ os.shutdownReceive.value = 0) ∧
      ¬ Waiting (progressFrom os n (sendResponse os s) chunks) := by
  have hends : ∀ s' c, sendResponse os s = .ok (s', c) →
      c = .deleted ∨ ∃ buffers, c = .await (.write buffers) := by
    intro s' c h
    obtain ⟨-, -, buffers, -, hc, -⟩ := sendResponse_ok h
    exact .inr ⟨buffers, hc⟩
  refine ⟨(responding_iff hends).1.trans ⟨?_, fun hshut => exists_sendResponse hshut hlookup⟩,
    (responding_iff hends).2⟩
  rintro ⟨s', buffers, h⟩
  by_contra hshut
  rw [sendResponse, if_pos hshut] at h
  cases h

/-- **The header read finds its delimiter exactly if there is a header line.** -/
theorem crlfcrlf_infix_iff {lines : List Bytes} :
    crlfcrlf <:+: HTTPRequest.headerBlock lines ++ crlf ↔ lines ≠ [] := by
  constructor
  · rintro h rfl
    exact absurd h.length_le (by decide)
  · intro hne
    obtain ⟨init, line, rfl⟩ := (List.eq_nil_or_concat lines).resolve_left hne
    refine ⟨HTTPRequest.headerBlock init ++ line, [], ?_⟩
    simp [HTTPRequest.headerBlock, crlf, crlfcrlf]

/-- **The header stage**: without a header line it waits; with one it responds unless a call
throws. -/
theorem progressFrom_readHeaders (os : Os) {s : HttpService} (hcode : s.responseStatusCode = 200)
    {lines : List Bytes} {ahead : Bytes} {rest : List Bytes}
    (hstream : ahead ++ rest.flatten = HTTPRequest.headerBlock lines ++ crlf)
    (hfit : Fits (some maxRequest) (HTTPRequest.headerBlock lines ++ crlf)) :
    (Responding (progressFrom os 1 (.ok ({ s with request := ahead }, .await .readHeaders)) rest) ↔
      lines ≠ [] ∧ os.shutdownReceive.value = 0 ∧
        os.Provides (bytes "sample" ++ s.requestedResource)) ∧
    (Waiting (progressFrom os 1 (.ok ({ s with request := ahead }, .await .readHeaders)) rest) ↔
      lines = []) := by
  have hec := (readsUntil crlfcrlf rest
    (hfit.of_prefix (hstream ▸ List.prefix_append ahead rest.flatten))).ec
  rw [hstream, readVerdict, capped_of_fits hfit] at hec
  rw [progressFrom]
  simp only
  set d := readUntil (some maxRequest) crlfcrlf ahead rest with hd
  by_cases hlines : lines = []
  · subst hlines
    have heof : d.ec = .eof := hec.trans (by decide)
    simp [heof, Responding, Waiting]
  · rw [if_pos (crlfcrlf_infix_iff.mpr hlines)] at hec
    rw [if_neg (by rw [hec]; decide)]
    set parsed := (({ s with request := ahead ++ d.received } : HttpService).withParsed
      ({ s with request := ahead ++ d.received } : HttpService).runHeaderLoop.requestStream.rest
      ({ s with request := ahead ++ d.received } : HttpService).runHeaderLoop.requestHeaders)
      with hparsed
    have hhandler : ({ s with request := ahead } : HttpService).handle os .readHeaders d.ec
        d.received = processRequest os parsed >>= sendResponse os := by
      rw [hec]
      rfl
    have hends : ∀ s' c, processRequest os parsed >>= sendResponse os = .ok (s', c) →
        c = .deleted ∨ ∃ buffers, c = .await (.write buffers) := fun s' c h =>
      onHeadersReceived_ok (hhandler.trans h)
    rw [hhandler]
    refine ⟨?_, ?_⟩
    · rw [(responding_iff hends).1, exists_write_iff os (s := parsed) hcode]
      exact (and_iff_right hlines).symm
    · exact iff_of_false (responding_iff hends).2 hlines

/-! ## The request-line stage -/

/-- **A request line without a target** has its version for a target, and is answered 505. -/
theorem onRequestLineReceived_noTarget (os : Os) (s : HttpService) (ahead : Bytes)
    (hbuf : s.request = bytes "GET " ++ [] ++ bytes " HTTP/1.1" ++ crlf ++ ahead) :
    s.onRequestLineReceived os .success = sendResponse os { s with
      request := ahead, requestedResource := bytes "HTTP/1.1", responseStatusCode := 505 } := by
  have hline : cr ∉ bytes "GET  HTTP/1.1" := by decide
  have hb : s.request = bytes "GET  HTTP/1.1" ++ cr :: lf :: ahead := by
    have hlit : bytes "GET " ++ [] ++ bytes " HTTP/1.1" = bytes "GET  HTTP/1.1" := by decide
    rw [hbuf, hlit]
    simp [crlf]
  have h₀ := IStream.getline_append _ (lf :: ahead) [] hline
  have h₁ : ({ rest := bytes "GET  HTTP/1.1" } : IStream).extract []
      = (bytes "GET", { rest := bytes "  HTTP/1.1" }) := by decide +kernel
  have h₂ : ({ rest := bytes "  HTTP/1.1" } : IStream).extract s.requestedResource
      = (bytes "HTTP/1.1", { rest := [], eofbit := true }) :=
    IStream.extract_last (bytes "  ") (bytes "HTTP/1.1") s.requestedResource (by decide +kernel)
      (by decide +kernel) (by decide)
  have h₃ : ({ rest := [], eofbit := true } : IStream).extract []
      = ([], { rest := [], eofbit := true, failbit := true }) := rfl
  have hne : ([] : Bytes) ≠ bytes "HTTP/1.1" := by decide
  rw [onRequestLineReceived]
  simp only [ErrorCode.success_value, ne_eq, not_true_eq_false, if_false, hb, h₀, h₁, h₂, h₃,
    IStream.get_cons, hne, not_false_eq_true, if_true]

/-- **The request-line stage** reads the line; some of what follows may come with it. -/
theorem progress_eq (os : Os) {target : Bytes} (htarget : ∀ b ∈ target, isSpace b = false)
    {tail : Bytes} {chunks : List Bytes}
    (hstream : chunks.flatten = bytes "GET " ++ target ++ bytes " HTTP/1.1" ++ crlf ++ tail)
    (hfit : Fits (some maxRequest) chunks.flatten) : ∃ ahead rest, ahead ++ rest.flatten = tail ∧
      progress os chunks = progressFrom os 1 (onRequestLineReceived os
        { request := bytes "GET " ++ target ++ bytes " HTTP/1.1" ++ crlf ++ ahead } .success)
        rest := by
  have hcr : cr ∉ bytes "GET " ++ target ++ bytes " HTTP/1.1" := by
    simp only [List.mem_append, not_or]
    exact ⟨⟨by decide, fun h => absurd (htarget cr h) (by decide)⟩, by decide⟩
  have hline : Fits (some maxRequest) (bytes "GET " ++ target ++ bytes " HTTP/1.1" ++ crlf) :=
    hfit.of_prefix (hstream ▸ List.prefix_append _ _)
  obtain ⟨ahead, hec, hahead, htail⟩ := (firstAt_crlf hcr tail).exists_readUntil
    (show [] ++ chunks.flatten = _ from hstream) (fits_nil _) hline
  refine ⟨ahead, _, htail, ?_⟩
  rw [List.nil_append] at hahead
  rw [progress, handleRequest, progressFrom]
  simp only
  rw [if_neg (by rw [hec]; decide), hec, handle, List.nil_append, hahead]

/-- The two stages: a request without a target is answered in the first one, and any other by the
header stage. -/
theorem progress_getRequest (os : Os) {target : Bytes} (htarget : ∀ b ∈ target, isSpace b = false)
    {lines : List Bytes} (hfit : (getRequest target lines).length ≤ maxRequest)
    {chunks : List Bytes} (hcut : IsCut (getRequest target lines) chunks) :
    (Responding (progress os chunks) ↔
      (lines ≠ [] ∨ target = []) ∧ os.shutdownReceive.value = 0 ∧
        (target ≠ [] → os.Provides (bytes "sample" ++ target))) ∧
    (Waiting (progress os chunks) ↔ lines = [] ∧ target ≠ []) := by
  have hfits : Fits (some maxRequest) (getRequest target lines) := by
    rintro m ⟨⟩
    exact hfit
  obtain ⟨ahead, rest, htail, hprogress⟩ := progress_eq os htarget hcut.flatten
    (hcut.flatten.symm ▸ hfits)
  rw [hprogress]
  by_cases hne : target = []
  · subst hne
    rw [onRequestLineReceived_noTarget os _ ahead rfl]
    obtain ⟨hresponding, hwaiting⟩ := responding_sendResponse_iff os 1 rest
      (s := { request := ahead, requestedResource := bytes "HTTP/1.1", responseStatusCode := 505 })
      (show (httpStatusTable.lookup 505).isSome by decide)
    refine ⟨hresponding.trans ?_, iff_of_false hwaiting (by simp)⟩
    simp
  · rw [onRequestLineReceived_of_line os _ htarget hne ahead rfl]
    have hstage := progressFrom_readHeaders os (s := { requestedResource := target }) rfl
      htail (hfits.of_suffix (List.suffix_append _ _))
    refine ⟨hstage.1.trans ?_, hstage.2.trans (by simp [hne])⟩
    simp [hne]

/-- **Which complete requests are answered**: those with a header line, or without a target, unless
the shutdown, the look for the file or the allocation for it throws. -/
theorem responding_getRequest_iff (os : Os) {target : Bytes}
    (htarget : ∀ b ∈ target, isSpace b = false) {lines : List Bytes}
    (hfit : (getRequest target lines).length ≤ maxRequest) {chunks : List Bytes}
    (hcut : IsCut (getRequest target lines) chunks) :
    (Responding (progress os chunks) ∧ ¬ Waiting (progress os chunks)) ↔
      (lines ≠ [] ∨ target = []) ∧ os.shutdownReceive.value = 0 ∧
        (target ≠ [] → os.Provides (bytes "sample" ++ target)) := by
  obtain ⟨hresponding, hwaiting⟩ := progress_getRequest os htarget hfit hcut
  rw [hresponding, hwaiting]
  exact and_iff_left_of_imp fun h hw => h.1.elim (· hw.1) hw.2

theorem responding_getRequest_iff_manualHtml :
    Responding (progress (HTTPRequest.manualHtml (bytes "hi"))
        (Segmentation.bytewise.cut (getRequest (bytes "/manual.html") [bytes "Host:localhost"]))) ∧
      ¬ Waiting (progress (HTTPRequest.manualHtml (bytes "hi"))
        (Segmentation.bytewise.cut (getRequest (bytes "/manual.html") [bytes "Host:localhost"]))) :=
  (responding_getRequest_iff _ (by decide +kernel) (by decide +kernel)
    (Segmentation.isCut _ _)).mpr ⟨Or.inl (by simp), rfl, fun _ =>
      ⟨fun ec h => (by cases h), fun f h => (by cases h; exact ⟨by decide, rfl⟩)⟩⟩

/-- Complete, and waited on: no system call fails here, and none is made. -/
theorem waiting_getRequest_bare :
    (getRequest (bytes "/manual.html") []).length ≤ maxRequest ∧
      getRequest (bytes "/manual.html") [] = bytes "GET /manual.html HTTP/1.1\r\n\r\n" ∧
      ¬ Responding (progress { fs := fun _ => .missing } [getRequest (bytes "/manual.html") []]) ∧
      Waiting (progress { fs := fun _ => .missing } [getRequest (bytes "/manual.html") []]) := by
  have hfit : (getRequest (bytes "/manual.html") []).length ≤ maxRequest := by decide +kernel
  have hcut : IsCut (getRequest (bytes "/manual.html") []) [getRequest (bytes "/manual.html") []] :=
    ⟨by simp, by simp [getRequest, crlf]⟩
  obtain ⟨hresponding, hwaiting⟩ := progress_getRequest { fs := fun _ => .missing }
    (by decide +kernel) hfit hcut
  refine ⟨hfit, by decide +kernel, ?_, hwaiting.mpr ⟨rfl, by decide⟩⟩
  rw [hresponding]
  simp only [ne_eq, not_true_eq_false, false_or]
  exact fun h => absurd h.1 (by decide)

end HttpService

end AsioSamples
