import AsioSamples.Http.Answer

/-!
# Http/Parsing — what `HttpService` makes of the bytes an `HTTPRequest` sends

`on_connection_established` puts `m_uri` and `m_host` between fixed pieces of text, unescaped; the
service takes them out again at white space, `':'` and `'\r'`.  What it takes out is a target
without white space and header values without `'\r'`, whatever it was sent
(`resource_of_parsed`, `header_of_parsed`); so the round trip holds for exactly those uris and hosts
(`parsed_requestBytes_iff`).
-/

namespace AsioSamples

namespace HttpService

/-- The service with the headers of its buffer parsed. -/
def parseHeaders (s : HttpService) : HttpService :=
  s.withParsed s.runHeaderLoop.requestStream.rest s.runHeaderLoop.requestHeaders

/-- The service as it goes on to `process_request`, on a connection on which `chunks` arrive; `none`
if it never does. -/
def parsed (os : Os) (chunks : List Bytes) : Option HttpService :=
  let line := readUntil (some maxRequest) crlf [] chunks
  match onRequestLineReceived os { request := line.received } line.ec with
  | .ok (s, .await .readHeaders) =>
    let headers := readUntil (some maxRequest) crlfcrlf s.request line.rest
    if headers.ec.value = 0 then some (s.withRequest (s.request ++ headers.received)).parseHeaders
    else none
  | _ => none

/-- The two stages of a request that is parsed: a target without white space, and headers. -/
theorem parsed_eq_some {os : Os} {chunks : List Bytes} {svc : HttpService}
    (h : parsed os chunks = some svc) : ∃ request resource d,
      (∀ b ∈ resource, isSpace b = false) ∧
      onRequestLineReceived os
          { request := (readUntil (some maxRequest) crlf [] chunks).received }
          (readUntil (some maxRequest) crlf [] chunks).ec
        = .ok ({ request := request, requestedResource := resource }, .await .readHeaders) ∧
      d = readUntil (some maxRequest) crlfcrlf request
        (readUntil (some maxRequest) crlf [] chunks).rest ∧
      d.ec.value = 0 ∧
      svc = parseHeaders { request := request ++ d.received, requestedResource := resource } := by
  unfold parsed at h
  simp only at h
  split at h
  next s hs =>
    split at h
    next hec =>
      rcases onRequestLineReceived_cases os
        { request := (readUntil (some maxRequest) crlf [] chunks).received }
        (readUntil (some maxRequest) crlf [] chunks).ec with
        ⟨-, hend⟩ | ⟨_, _, _, -, hend⟩ | ⟨-, request, resource, hres, hend⟩
      · cases hend.symm.trans hs
      · obtain ⟨-, -, _, -, hc, -⟩ := sendResponse_ok (hend.symm.trans hs)
        cases hc
      · cases hend.symm.trans hs
        refine ⟨request, resource, _, ?_, hs, rfl, hec, (Option.some.inj h).symm⟩
        rcases hres with rfl | hres
        · intro b hb
          cases hb
        · exact hres
    next => cases h
  next => cases h

/-- What becomes of a connection whose last handler before the write ends so. -/
def ended : Except Exception (HttpService × ServiceControl) → Option Served
  | .ok (s, .await (.write buffers)) => some (.answered s buffers.flatten)
  | .ok (_, .await _) => none
  | .ok (_, .deleted) => some .dropped
  | .error e => some (.escaped e)

/-- **The header stage** is the last one. -/
theorem serveFrom_readHeaders_ended (os : Os) (n : ℕ) (s : HttpService) (chunks : List Bytes) :
    serveFrom os (n + 2) s .readHeaders chunks = ended (onHeadersReceived os
      { s with request :=
          s.request ++ (readUntil (some maxRequest) crlfcrlf s.request chunks).received }
      (readUntil (some maxRequest) crlfcrlf s.request chunks).ec) := by
  rw [serveFrom]
  simp only [handle]
  cases h : onHeadersReceived os _ (readUntil (some maxRequest) crlfcrlf s.request chunks).ec with
  | error e => rfl
  | ok p =>
    obtain ⟨s', c⟩ := p
    rcases onHeadersReceived_ok h with rfl | ⟨buffers, rfl⟩ <;> rfl

/-- What `send_response` sends has the status it is given. -/
theorem code_of_ended {os : Os} {s svc : HttpService} {sent : Bytes}
    (h : ended (sendResponse os s) = some (.answered svc sent)) :
    svc.responseStatusCode = s.responseStatusCode := by
  cases hsend : sendResponse os s with
  | error e =>
    rw [hsend] at h
    cases h
  | ok p =>
    obtain ⟨s', c⟩ := p
    obtain ⟨hsame, -, buffers, -, rfl, -⟩ := sendResponse_ok hsend
    rw [hsend] at h
    obtain ⟨rfl, rfl⟩ := Served.answered.inj (Option.some.inj h)
    exact hsame

/-- **A request that is parsed ends** as `process_request` and `send_response` end. -/
theorem serve_of_parsed {os : Os} {chunks : List Bytes} {svc : HttpService}
    (h : parsed os chunks = some svc) :
    serve os chunks = ended (processRequest os svc >>= sendResponse os) := by
  obtain ⟨request, resource, d, -, hline, hd, hec, rfl⟩ := parsed_eq_some h
  rw [serve, handleRequest, serveFrom]
  simp only [handle, List.nil_append, hline]
  rw [serveFrom_readHeaders_ended, ← hd, onHeadersReceived, if_neg (not_not.mpr hec)]
  rfl

/-! ## What is parsed, whatever was sent -/

/-- **The target has no white space.** -/
theorem resource_of_parsed {os : Os} {chunks : List Bytes} {svc : HttpService}
    (h : parsed os chunks = some svc) : ∀ b ∈ svc.requestedResource, isSpace b = false := by
  obtain ⟨_, _, _, hres, -, -, -, rfl⟩ := parsed_eq_some h
  exact hres

/-- The values the header loop has at hand, or has stored, are free of `'\r'`. -/
def HeaderLoop.CrFree (l : HeaderLoop) : Prop :=
  cr ∉ l.headerValue ∧ ∀ name value, l.requestHeaders.find name = some value → cr ∉ value

theorem crFree_headerPass {l l' : HeaderLoop} (hl : l.CrFree) (h : headerPass l = .inl l') :
    l'.CrFree := by
  unfold headerPass at h
  split at h
  · cases h
  simp only at h
  split at h
  · cases h
    exact hl
  · cases h
    have hvalue := IStream.getline_notMem (l.requestStream.getline colon l.headerName).2 hl.1
    refine ⟨hvalue, fun name value hfind => ?_⟩
    rw [StdMap.find_assign] at hfind
    split at hfind
    · cases hfind
      exact hvalue
    · exact hl.2 name value hfind

/-- **A header value has no `'\r'`.** -/
theorem header_of_parsed {os : Os} {chunks : List Bytes} {svc : HttpService}
    (h : parsed os chunks = some svc) {name value : Bytes}
    (hvalue : svc.requestHeaders.find name = some value) : cr ∉ value := by
  obtain ⟨request, resource, d, -, -, -, -, rfl⟩ := parsed_eq_some h
  set filled : HttpService := { request := request ++ d.received, requestedResource := resource }
  have hstart : filled.headerLoop.CrFree := by
    refine ⟨List.not_mem_nil, fun name value hfind => ?_⟩
    cases hfind
  refine (filled.leaves_runHeaderLoop.invariant (Q := HeaderLoop.CrFree) hstart
    (fun _ _ => crFree_headerPass) fun l l' hl hleave => ?_).2 name value hvalue
  unfold headerPass at hleave
  split at hleave
  · cases hleave
    exact hl
  · simp only at hleave
    split at hleave <;> cases hleave

/-! ## One header line -/

/-- **The header loop on one header line** and a blank one stores that line alone. -/
theorem leaves_headerPass_line {name value : Bytes} (hname : colon ∉ name) (hvalue : cr ∉ value)
    (headers : StdMap Bytes Bytes) :
    ∃ l, Leaves headerPass { requestStream := { rest := name ++ colon :: (value ++ crlfcrlf) },
                             requestHeaders := headers } l ∧
      l.requestHeaders = headers.assign name value := by
  have hpass := headerPass_line hname hvalue lf crlf [] [] headers
  have hblank := headerPass_noColon (by decide : colon ∉ crlf) name value
    (headers.assign name value)
  exact ⟨_, ⟨3, (loop_again hpass 2).trans ((loop_again hblank 1).trans
    (loop_leave (headerPass_atEnd ⟨rfl, rfl⟩) 0))⟩, rfl⟩

end HttpService

/-! ## The round trip -/

namespace HTTPRequest

open HttpService (parsed)

/-- The service has parsed exactly what the request was made of. -/
structure Understood (r : HTTPRequest) (svc : HttpService) : Prop where
  resource : svc.requestedResource = r.uri
  headers : svc.requestHeaders
    = (∅ : StdMap Bytes Bytes).assign (bytes "Host") (bytes " " ++ r.host)

/-- **The headers of a request** are the one for its host. -/
theorem understood_parseHeaders {r : HTTPRequest} (hhost : cr ∉ r.host) :
    r.Understood (HttpService.parseHeaders
      { request := bytes "Host: " ++ r.host ++ crlfcrlf, requestedResource := r.uri }) := by
  refine ⟨rfl, ?_⟩
  have hname : colon ∉ bytes "Host" := by decide
  have hvalue : cr ∉ bytes " " ++ r.host := by
    rw [List.mem_append, not_or]
    exact ⟨by decide, hhost⟩
  obtain ⟨l, hl, hheaders⟩ := HttpService.leaves_headerPass_line hname hvalue ∅
  have hbuf : bytes "Host" ++ colon :: (bytes " " ++ r.host ++ crlfcrlf)
      = bytes "Host: " ++ r.host ++ crlfcrlf := by
    have hlit : bytes "Host: " = bytes "Host" ++ colon :: bytes " " := by decide
    rw [hlit]
    simp
  rw [hbuf] at hl
  set filled : HttpService :=
    { request := bytes "Host: " ++ r.host ++ crlfcrlf, requestedResource := r.uri }
  have hrun : filled.runHeaderLoop = l := HttpService.runHeaderLoop_eq hl
  exact (congrArg (·.requestHeaders) hrun).trans hheaders

/-- **A uri without white space and a host without `'\r'` are understood**, however the request is
cut. -/
theorem exists_parsed_understood (os : Os) {r : HTTPRequest} (hne : r.uri ≠ [])
    (hfits : r.requestBytes.length ≤ maxRequest) (huri : ∀ b ∈ r.uri, isSpace b = false)
    (hhost : cr ∉ r.host) {chunks : List Bytes} (hcut : IsCut r.requestBytes chunks) :
    ∃ svc, parsed os chunks = some svc ∧ r.Understood svc := by
  have hstream := hcut.flatten.trans r.requestBytes_eq
  have hfits' : Fits (some maxRequest) r.requestBytes := by simpa [Fits] using hfits
  rw [r.requestBytes_eq] at hfits'
  -- the request line
  have hcr : cr ∉ bytes "GET " ++ r.uri ++ bytes " HTTP/1.1" := by
    simp only [List.mem_append, not_or]
    exact ⟨⟨by decide, fun h => absurd (huri cr h) (by decide)⟩, by decide⟩
  obtain ⟨ahead, hec, hahead, htail⟩ := (firstAt_crlf hcr _).exists_readUntil
    (show [] ++ chunks.flatten = _ from hstream) (fits_nil _)
    (hfits'.of_prefix (List.prefix_append _ _))
  have hline := HttpService.onRequestLineReceived_of_line os
    { request := (readUntil (some maxRequest) crlf [] chunks).received } huri hne ahead hahead
  -- the headers
  have hcr' : cr ∉ bytes "Host: " ++ r.host := by
    rw [List.mem_append, not_or]
    exact ⟨by decide, hhost⟩
  have htail' : ahead ++ (readUntil (some maxRequest) crlf [] chunks).rest.flatten
      = (bytes "Host: " ++ r.host) ++ crlfcrlf ++ [] := by rw [htail, List.append_nil]
  have hsuffix := hfits'.of_suffix (List.suffix_append _ _)
  have hfit : Fits (some maxRequest) ahead :=
    hsuffix.of_prefix (htail ▸ List.prefix_append _ _)
  obtain ⟨ahead', hec', hahead', hnil⟩ := (firstAt_crlfcrlf hcr' []).exists_readUntil htail' hfit
    hsuffix
  obtain ⟨rfl, -⟩ := List.append_eq_nil_iff.mp hnil
  rw [List.append_nil] at hahead'
  refine ⟨HttpService.parseHeaders
    { request := bytes "Host: " ++ r.host ++ crlfcrlf, requestedResource := r.uri }, ?_,
    understood_parseHeaders hhost⟩
  simp only [parsed, hec, hline, hec', ErrorCode.success_value, if_true]
  rw [HttpService.withRequest, hahead']

/-- **The round trip holds for exactly these uris and hosts.**  The service takes a request to be a
GET of its uri, with one header for its host, under every cut if and only if the uri has no white
space and the host no `'\r'`. -/
theorem parsed_requestBytes_iff (os : Os) {r : HTTPRequest} (hexec : r.execute.isSome)
    (hfits : r.requestBytes.length ≤ maxRequest) :
    (∀ chunks, IsCut r.requestBytes chunks → ∃ svc, parsed os chunks = some svc ∧ r.Understood svc)
      ↔ (∀ b ∈ r.uri, isSpace b = false) ∧ cr ∉ r.host := by
  obtain ⟨-, -, hne⟩ := execute_eq_of_isSome hexec
  refine ⟨fun h => ?_, fun ⟨huri, hhost⟩ chunks hcut =>
    exists_parsed_understood os hne hfits huri hhost hcut⟩
  obtain ⟨svc, hsvc, hund⟩ := h _ (Segmentation.whole.isCut r.requestBytes)
  refine ⟨hund.resource ▸ HttpService.resource_of_parsed hsvc, fun hcr => ?_⟩
  have hfind : svc.requestHeaders.find (bytes "Host") = some (bytes " " ++ r.host) := by
    rw [hund.headers, StdMap.find_assign, if_pos rfl]
  exact HttpService.header_of_parsed hsvc hfind (List.mem_append_right _ hcr)

theorem parsed_requestBytes_iff_simpleScenario :
    ∃ svc, parsed { fs := fun _ => .missing }
        (Segmentation.bytewise.cut simpleScenario.requestBytes) = some svc ∧
      simpleScenario.Understood svc :=
  (parsed_requestBytes_iff _ (by decide +kernel) (by decide +kernel)).mpr
    ⟨by decide +kernel, by decide +kernel⟩ _ (Segmentation.bytewise.isCut _)

/-- The request of `TEST(Http, simpleScenario)`, to a host with a line end in it. -/
def twoHeaders : HTTPRequest :=
  simpleScenario.setHost (bytes "localhost\r\nX-Forwarded-For: 10.0.0.1")

/-- A host with a line end in it adds a header. -/
theorem exists_header_injected : twoHeaders.execute.isSome ∧
    twoHeaders.requestBytes.length ≤ maxRequest ∧
    ∃ svc, parsed { fs := fun _ => .missing } (Segmentation.whole.cut twoHeaders.requestBytes)
        = some svc ∧
      svc.requestHeaders.find (bytes "Host") = some (bytes " localhost") ∧
      svc.requestHeaders.find (bytes "X-Forwarded-For") = some (bytes " 10.0.0.1") := by
  refine ⟨by decide +kernel, by decide +kernel, _, rfl, ?_⟩
  decide +kernel

end HTTPRequest

end AsioSamples
