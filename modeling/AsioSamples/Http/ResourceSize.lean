import AsioSamples.Http.Ownership
import AsioSamples.Http.Target

/-!
# Http/ResourceSize — the size of a resource, and the bytes that were read

`process_request` converts the position that `tellg` reports to `std::size_t`, and from then on the
allocation, the header line and the response all go by it (`answered_ok_iff`).  How much `read` has
delivered is never asked for: a byte beyond that is one of the heap.

* `body_is_read_iff` — the size is the position, and what was read is what is sent, exactly if the
  position is one that the file has bytes up to.
* `answeredAlike_iff` — the answer to a stream depends on what memory held before exactly if it is a
  file that is shorter than that.
-/

namespace AsioSamples

/-- How many bytes `read(buffer, n)` delivers. -/
def OpenFile.gcount (f : OpenFile) (n : ℕ) : ℕ := (f.content.take n).length

/-- Two systems on which the calls of the service have the same outcomes.  What memory holds before
it is written to is no outcome of a call. -/
structure Os.Agree (os os' : Os) : Prop where
  shutdownReceive : os'.shutdownReceive = os.shutdownReceive
  fs : os'.fs = os.fs
  memory : os'.memory = os.memory

theorem Os.Agree.refl (os : Os) : os.Agree os := ⟨rfl, rfl, rfl⟩

/-- The system with other contents in every byte of its memory. -/
def Os.refilled (os : Os) : Os := { os with heap := fun n => os.heap n + 1 }

namespace HttpService

theorem sendResponse_agree {os os' : Os} (hos : os.Agree os') (s : HttpService) :
    sendResponse os' s = sendResponse os s := by
  simp only [sendResponse, hos.shutdownReceive]

theorem onRequestLineReceived_agree {os os' : Os} (hos : os.Agree os') (s : HttpService)
    (ec : ErrorCode) : onRequestLineReceived os' s ec = onRequestLineReceived os s ec := by
  unfold onRequestLineReceived
  simp only [sendResponse_agree hos]

theorem onHeadersReceived_agree {os os' : Os} (hos : os.Agree os') {ec : ErrorCode}
    (hec : ec.value ≠ 0) (s : HttpService) :
    onHeadersReceived os' s ec = onHeadersReceived os s ec := by
  rw [onHeadersReceived, onHeadersReceived, if_pos hec, if_pos hec, sendResponse_agree hos]

theorem parsed_agree {os os' : Os} (hos : os.Agree os') (chunks : List Bytes) :
    parsed os' chunks = parsed os chunks := by
  simp only [parsed, onRequestLineReceived_agree hos]

/-! ## What is answered with status 200 -/

/-- The body that is sent. -/
def sentBody (os : Os) (f : OpenFile) : Bytes := f.read (os.newChars f.size.toNat) f.size.toNat

@[simp] theorem length_sentBody (os : Os) (f : OpenFile) :
    (sentBody os f).length = f.size.toNat :=
  length_read_newChars os f _

/-- A response with status 200. -/
def okResponse (number : ℕ) (body : Bytes) : Bytes :=
  bytes "HTTP/1.1 200 OK" ++ crlf ++ (bytes "content-length: " ++ toString number ++ crlf) ++ crlf
    ++ body

/-- The number and the body can be read off a response. -/
theorem okResponse_inj {number number' : ℕ} {body body' : Bytes}
    (h : okResponse number body = okResponse number' body') : number = number' ∧ body = body' := by
  have hdigits : ∀ n : ℕ, cr ∉ toString n := fun n hcr =>
    absurd (isDigit_of_mem_toString hcr) (by decide)
  have hline : ∀ (n : ℕ) (more : Bytes), okResponse n more = (bytes "HTTP/1.1 200 OK" ++ crlf
      ++ bytes "content-length: ") ++ (toString n ++ cr :: (lf :: (crlf ++ more))) := by
    intro n more
    simp [okResponse, crlf]
  rw [hline, hline] at h
  have htail := congrArg (fun text => ({ rest := text } : IStream).getline cr [])
    (List.append_cancel_left h)
  simp only [IStream.getline_append _ _ _ (hdigits _)] at htail
  obtain ⟨hnumber, hmore⟩ := Prod.mk.inj htail
  constructor
  · rw [← decimalValue_toString number, hnumber, decimalValue_toString]
  · simpa [crlf] using hmore

/-- What has been parsed has no response yet. -/
theorem parsed_undecided {os : Os} {chunks : List Bytes} {svc : HttpService}
    (h : parsed os chunks = some svc) : svc.Undecided ∧ svc.responseStatusCode = 200 := by
  obtain ⟨_, _, _, -, -, -, -, rfl⟩ := parsed_eq_some h
  exact ⟨⟨rfl, rfl⟩, rfl⟩

/-- **`process_request` and `send_response` on a file that opens** answer with the bytes read, in
the size of the position. -/
theorem exists_write_of_opened {os : Os} (hshut : os.shutdownReceive.value = 0) {s : HttpService}
    (hs : s.Undecided) (hcode : s.responseStatusCode = 200) {f : OpenFile}
    (hf : os.find s.resourceFilePath = .opened f) (halloc : os.Allocates f.size.toNat) :
    ∃ svc buffers, processRequest os s >>= sendResponse os = .ok (svc, .await (.write buffers)) ∧
      buffers.flatten = okResponse f.size.toNat (sentBody os f) ∧
      svc.responseStatusCode = 200 ∧ svc.requestedResource = s.requestedResource := by
  have hprocess : processRequest os s = .ok { s with
      resourceSizeBytes := f.size
      resourceBuffer := sentBody os f
      responseHeaders := s.responseHeaders
        ++ (bytes "content-length" ++ bytes ": " ++ toString f.size.toNat ++ bytes "\r\n") } := by
    rw [processRequest, hf]
    exact if_pos halloc
  have htext : httpStatusTable.lookup s.responseStatusCode = some (bytes "200 OK") := by
    rw [hcode]
    decide
  obtain ⟨svc, buffers, hsend, hflat⟩ := sendResponse_of_size hshut (s := { s with
      resourceSizeBytes := f.size
      resourceBuffer := sentBody os f
      responseHeaders := s.responseHeaders
        ++ (bytes "content-length" ++ bytes ": " ++ toString f.size.toNat ++ bytes "\r\n") })
    htext (length_sentBody os f).symm
  obtain ⟨line, headers, rfl⟩ := sendResponse_eq hsend
  refine ⟨_, buffers, (congrArg (· >>= sendResponse os) hprocess).trans hsend, ?_, hcode, rfl⟩
  have hlit : bytes "HTTP/1.1 " ++ bytes "200 OK" = bytes "HTTP/1.1 200 OK" := by decide
  have hname : bytes "content-length" ++ bytes ": " = bytes "content-length: " := by decide
  have hcrlf : bytes "\r\n" = crlf := by decide
  rw [hflat, hs.headers, hlit, hname, hcrlf, List.nil_append, okResponse,
    ← List.append_assoc _ _ crlf]

/-- **What was not parsed is answered by the status alone**: with none that is 200, and whatever
memory holds. -/
theorem serve_of_not_parsed {os os' : Os} (hos : os.Agree os') {chunks : List Bytes}
    (h : parsed os chunks = none) : serve os' chunks = serve os chunks ∧
      ∀ svc sent, serve os chunks = some (.answered svc sent) → svc.responseStatusCode ≠ 200 := by
  rw [parsed] at h
  rw [serve, serve, handleRequest, serveFrom, serveFrom]
  simp only [handle, List.nil_append, onRequestLineReceived_agree hos]
  set d := readUntil (some maxRequest) crlf [] chunks
  rcases onRequestLineReceived_cases os { request := d.received } d.ec with
    ⟨-, hend⟩ | ⟨_, _, _, hstatus, hend⟩ | ⟨-, request, resource, -, hend⟩
  · simp [hend]
  · rw [hend]
    cases hsend : sendResponse os _ with
    | error e => simp
    | ok p =>
      obtain ⟨s', c⟩ := p
      obtain ⟨hsame, -, buffers, -, rfl, -⟩ := sendResponse_ok hsend
      refine ⟨rfl, fun svc sent hserve => ?_⟩
      obtain ⟨rfl, rfl⟩ := Served.answered.inj (Option.some.inj hserve)
      exact fun hcode => hstatus.2 (hsame.symm.trans hcode)
  · simp only [hend] at h ⊢
    have hfailed : (readUntil (some maxRequest) crlfcrlf request d.rest).ec.value ≠ 0 := by
      intro hzero
      rw [if_pos hzero] at h
      cases h
    rw [serveFrom_readHeaders_ended, serveFrom_readHeaders_ended,
      onHeadersReceived_agree hos hfailed]
    refine ⟨rfl, fun svc sent hserve hcode => ?_⟩
    rcases onHeadersReceived_cases os _ _ with ⟨-, hend'⟩ | ⟨-, hend'⟩ | ⟨hzero, -⟩
    · rw [hend'] at hserve
      cases hserve
    · rw [hend'] at hserve
      have h413 : (413 : UInt32) = 200 := (code_of_ended hserve).symm.trans hcode
      exact absurd h413 (by decide)
    · exact absurd hzero hfailed

/-- **Which streams are answered with status 200, and with what**: those that ask for a file that
opens, unless the allocation or the shutdown throws. -/
theorem answered_ok_iff (os : Os) {stream target sent : Bytes} {chunks : List Bytes}
    (hcut : IsCut stream chunks) :
    (∃ svc, serve os chunks = some (.answered svc sent) ∧ svc.responseStatusCode = 200 ∧
      svc.requestedResource = target) ↔
    AsksFor target stream ∧ os.shutdownReceive.value = 0 ∧
      ∃ f, os.find (bytes "sample" ++ target) = .opened f ∧ os.Allocates f.size.toNat ∧
        sent = okResponse f.size.toNat (sentBody os f) := by
  constructor
  · rintro ⟨svc, hserve, hcode, rfl⟩
    obtain ⟨s, hs⟩ := Option.ne_none_iff_exists'.mp fun hnone =>
      (serve_of_not_parsed (.refl os) hnone).2 _ _ hserve hcode
    obtain ⟨hundecided, hs200⟩ := parsed_undecided hs
    rw [serve_of_parsed hs] at hserve
    cases hended : processRequest os s >>= sendResponse os with
    | error e => simp [hended, ended] at hserve
    | ok p =>
      obtain ⟨s₁, hprocess, hsend⟩ := of_bind_eq_ok hended
      obtain ⟨svc', c⟩ := p
      obtain ⟨hsame, text, buffers, htext, rfl, hflat⟩ := sendResponse_ok hsend
      rw [hended, ended] at hserve
      obtain ⟨rfl, rfl⟩ := Served.answered.inj (Option.some.inj hserve)
      have hcode₁ := hsame.symm.trans hcode
      obtain ⟨hresource, f, hf⟩ := opened_of_processRequest hprocess hcode₁
      have halloc := (processRequest_isOk_iff.mp ⟨s₁, hprocess⟩).allocates f hf
      have hshut : os.shutdownReceive.value = 0 := by
        by_contra hne
        rw [sendResponse, if_pos hne] at hsend
        cases hsend
      obtain ⟨svc, buffers', hwrite, hflat', h200, hres⟩ :=
        exists_write_of_opened hshut hundecided hs200 hf halloc
      rw [hended] at hwrite
      cases hwrite
      refine ⟨(exists_parsed_iff os hcut).mp ⟨s, hs, hres.symm⟩, hshut, f, ?_, halloc, hflat'⟩
      rw [hres]
      exact hf
  · rintro ⟨hasks, hshut, f, hf, halloc, rfl⟩
    obtain ⟨s, hs, rfl⟩ := (exists_parsed_iff os hcut).mpr hasks
    obtain ⟨hundecided, hcode⟩ := parsed_undecided hs
    obtain ⟨svc, buffers, hwrite, hflat, h200, hresource⟩ :=
      exists_write_of_opened hshut hundecided hcode hf halloc
    refine ⟨svc, ?_, h200, hresource⟩
    rw [serve_of_parsed hs, hwrite, ended, hflat]

/-- A file that is not sent whole: the size goes beyond the bytes there are. -/
theorem gcount_size {f : OpenFile} : f.gcount f.size.toNat = f.size.toNat ↔
    f.size.toNat ≤ f.content.length := by
  rw [OpenFile.gcount, List.length_take]
  exact min_eq_left_iff

/-- A size is the position that it was made of, unless that is negative. -/
theorem size_eq_tellg_iff {f : OpenFile} :
    (f.size.toNat : ℤ) = f.tellg.toInt ↔ 0 ≤ f.tellg.toInt := by
  refine ⟨fun h => by omega, fun h => ?_⟩
  rw [(OpenFile.size_of_tellg (Int.toNat_of_nonneg h).symm).1, Int.toNat_of_nonneg h]

/-! ## The bytes that were read -/

/-- What is asked of a connection on which `f` is opened: the size that is allocated is the
position; and an answer with status 200 announces, and carries, as many bytes as were read. -/
structure BodyIsRead (os : Os) (chunks : List Bytes) (f : OpenFile) : Prop where
  allocated : (f.size.toNat : ℤ) = f.tellg.toInt
  answered : ∀ svc sent, serve os chunks = some (.answered svc sent) →
    svc.responseStatusCode = 200 →
      ∃ body, sent = okResponse (f.gcount f.size.toNat) body ∧ body.length = f.gcount f.size.toNat

/-- **Every body byte was read from the file** exactly if the position that `tellg` has reported is
not negative and, where the answer comes about, the file still has so many bytes.  The rest of the
body is the heap's. -/
theorem body_is_read_iff {os : Os} {stream target : Bytes} {chunks : List Bytes}
    (hcut : IsCut stream chunks) (hasks : AsksFor target stream) {f : OpenFile}
    (hf : os.find (bytes "sample" ++ target) = .opened f) :
    BodyIsRead os chunks f ↔ 0 ≤ f.tellg.toInt ∧
      (os.Allocates f.size.toNat → os.shutdownReceive.value = 0 →
        f.tellg.toInt ≤ f.content.length) := by
  constructor
  · rintro ⟨hallocated, hanswered⟩
    have hpos := size_eq_tellg_iff.mp hallocated
    refine ⟨hpos, fun halloc hshut => ?_⟩
    obtain ⟨svc, hserve, hcode, -⟩ :=
      (answered_ok_iff os hcut).mpr ⟨hasks, hshut, f, hf, halloc, rfl⟩
    obtain ⟨body, hsent, -⟩ := hanswered svc _ hserve hcode
    have hcount := (okResponse_inj hsent).1.symm
    have hle := gcount_size.mp hcount
    omega
  · rintro ⟨hpos, hle⟩
    have hsize := size_eq_tellg_iff.mpr hpos
    refine ⟨hsize, fun svc sent hserve hcode => ?_⟩
    obtain ⟨hasks', hshut, f', hf', halloc, rfl⟩ :=
      (answered_ok_iff os hcut).mp ⟨svc, hserve, hcode, rfl⟩
    obtain rfl := hasks.unique hasks'
    obtain rfl := Resource.opened.inj (hf.symm.trans hf')
    have hcount : f.gcount f.size.toNat = f.size.toNat := by
      have := hle halloc hshut
      exact gcount_size.mpr (by omega)
    exact ⟨sentBody os f, by rw [hcount], by rw [hcount, length_sentBody]⟩

/-- `sample/manual.html` with another position than it has bytes, and a heap full of `'*'`. -/
def truncatedHtml (tellg : Int64) (content : Bytes) : Os where
  fs path := if path = bytes "sample/manual.html" then .opened ⟨tellg, content⟩ else .missing
  heap _ := 42

/-- The request of `TEST(Http, simpleScenario)` asks for its uri. -/
theorem asksFor_simpleScenario :
    AsksFor (bytes "/manual.html") HTTPRequest.simpleScenario.requestBytes := by
  have hline : HTTPRequest.simpleScenario.requestBytes = bytes "GET /manual.html HTTP/1.1"
      ++ cr :: lf :: bytes "Host: localhost\r\n\r\n" := by decide +kernel
  rw [hline, asksFor_iff (by decide)]
  refine ⟨?_, ⟨bytes "GET /manual.html HTTP/1.1", bytes "Host: localhost\r\n\r\n", ?_⟩,
    ⟨bytes "Host: localhost", [], ?_⟩⟩
  case refine_2 => decide +kernel
  case refine_3 => decide +kernel
  unfold RequestWords
  decide +kernel

theorem body_is_read_iff_manualHtml :
    BodyIsRead (truncatedHtml 2 (bytes "hi"))
      (Segmentation.bytewise.cut HTTPRequest.simpleScenario.requestBytes) ⟨2, bytes "hi"⟩ :=
  (body_is_read_iff (Segmentation.isCut _ _) asksFor_simpleScenario rfl).mpr
    ⟨by decide, fun _ _ => by decide⟩

/-- A file that has shrunk since `tellg`: two bytes of the heap are sent. -/
theorem exists_heap_sent : (∃ svc sent,
    serve (truncatedHtml 3 (bytes "a"))
        (Segmentation.whole.cut HTTPRequest.simpleScenario.requestBytes)
      = some (.answered svc sent) ∧
    svc.responseStatusCode = 200 ∧ sent = okResponse 3 (bytes "a**") ∧
      OpenFile.gcount ⟨3, bytes "a"⟩ 3 = 1) ∧
    ¬ BodyIsRead (truncatedHtml 3 (bytes "a"))
      (Segmentation.whole.cut HTTPRequest.simpleScenario.requestBytes) ⟨3, bytes "a"⟩ := by
  obtain ⟨svc, sent, hserve, hcode, hsent, hcount⟩ : ∃ svc sent,
      serve (truncatedHtml 3 (bytes "a"))
          (Segmentation.whole.cut HTTPRequest.simpleScenario.requestBytes)
        = some (.answered svc sent) ∧
      svc.responseStatusCode = 200 ∧ sent = okResponse 3 (bytes "a**") ∧
        OpenFile.gcount ⟨3, bytes "a"⟩ 3 = 1 :=
    ⟨_, _, rfl, by decide +kernel, by decide +kernel, rfl⟩
  refine ⟨⟨svc, sent, hserve, hcode, hsent, hcount⟩, fun h => ?_⟩
  obtain ⟨body, hbody, -⟩ := h.answered svc sent hserve hcode
  have hnumber := (okResponse_inj (hsent.symm.trans hbody)).1
  cases hnumber.trans hcount

/-! ## What memory held before -/

/-- **A short read shows what memory held.** -/
theorem sentBody_refilled_ne (os : Os) {f : OpenFile} (h : f.content.length < f.size.toNat) :
    sentBody os f ≠ sentBody os.refilled f := by
  intro hsame
  have hall : f.content.take f.size.toNat = f.content := List.take_of_length_le h.le
  rw [sentBody, sentBody, OpenFile.read, OpenFile.read, hall] at hsame
  have hfirst := congrArg (·[0]?) (List.append_cancel_left hsame)
  simp only [Os.newChars, Os.refilled, List.getElem?_drop, List.getElem?_map, Nat.add_zero,
    List.getElem?_range h, Option.map_some, Option.some.injEq] at hfirst
  simp at hfirst

/-- `process_request` and `send_response` find the same in two systems that agree, unless a file is
sent that is shorter than its size. -/
theorem processed_agree {os os' : Os} (hos : os.Agree os') {s : HttpService}
    (h : ∀ f, os.find s.resourceFilePath = .opened f → os.Allocates f.size.toNat →
      os.shutdownReceive.value = 0 → f.size.toNat ≤ f.content.length) :
    sentBytes (ended (processRequest os' s >>= sendResponse os'))
      = sentBytes (ended (processRequest os s >>= sendResponse os)) := by
  have hsend : sendResponse os' = sendResponse os := funext (sendResponse_agree hos)
  have hfind : os'.find = os.find := by unfold Os.find; rw [hos.fs]
  have halloc : ∀ n, os'.Allocates n ↔ os.Allocates n := fun n => by
    rw [Os.Allocates, hos.memory, Os.Allocates]
  by_cases hshut : os.shutdownReceive.value = 0
  case neg =>
    have hfails : ∀ s, sendResponse os s = .error (.systemError os.shutdownReceive) := fun s =>
      if_pos hshut
    have hnone : ∀ x : Except Exception HttpService, sentBytes (ended (x >>= sendResponse os))
        = none := by
      rintro (e | s₁)
      · rfl
      · exact congrArg (sentBytes ∘ ended) (hfails s₁)
    rw [hsend, hnone, hnone]
  have hprocess : processRequest os' s = processRequest os s := by
    simp only [processRequest, hfind, halloc]
    cases hfile : os.find s.resourceFilePath with
    | opened f =>
      simp only
      split
      next hmemory =>
        have hle := h f hfile hmemory hshut
        rw [OpenFile.read_newChars os hle, OpenFile.read_newChars os' hle]
      next => rfl
    | _ => rfl
  rw [hprocess, hsend]

/-- However `stream` is cut, and whatever memory holds, the service comes to an end, and what it
sends, if it sends anything, is the same. -/
def AnsweredAlike (os : Os) (stream : Bytes) : Prop :=
  ∀ os' chunks chunks', os.Agree os' → IsCut stream chunks → IsCut stream chunks' →
    (serve os chunks).isSome ∧ (serve os' chunks').isSome ∧
      sentBytes (serve os' chunks') = sentBytes (serve os chunks)

/-- **The answer depends on the stream alone** exactly if it is not a file that is shorter than its
size: the rest of such an answer is what memory held before. -/
theorem answeredAlike_iff (os : Os) (stream : Bytes) :
    AnsweredAlike os stream ↔ ∀ target f, AsksFor target stream →
      os.find (bytes "sample" ++ target) = .opened f → os.Allocates f.size.toNat →
        os.shutdownReceive.value = 0 → f.size.toNat ≤ f.content.length := by
  constructor
  · intro h target f hasks hf halloc hshut
    by_contra hshort
    have hwhole := Segmentation.whole.isCut stream
    have hos : os.Agree os.refilled := ⟨rfl, rfl, rfl⟩
    obtain ⟨svc, hserve, -⟩ :=
      (answered_ok_iff os hwhole).mpr ⟨hasks, hshut, f, hf, halloc, rfl⟩
    obtain ⟨svc', hserve', -⟩ :=
      (answered_ok_iff os.refilled hwhole).mpr ⟨hasks, hshut, f, hf, halloc, rfl⟩
    obtain ⟨-, -, hsame⟩ := h _ _ _ hos hwhole hwhole
    rw [hserve, hserve'] at hsame
    exact sentBody_refilled_ne os (not_le.mp hshort)
      (okResponse_inj (Option.some.inj hsame)).2.symm
  · intro h os' chunks chunks' hos hcut hcut'
    refine ⟨(serve_eq os chunks).1, (serve_eq os' chunks').1, ?_⟩
    rw [← sent_serve_congr os hcut hcut']
    cases hparsed : parsed os chunks' with
    | none => rw [(serve_of_not_parsed hos hparsed).1]
    | some svc =>
      have hasks := (exists_parsed_iff os hcut').mp ⟨svc, hparsed, rfl⟩
      rw [serve_of_parsed hparsed, serve_of_parsed ((parsed_agree hos chunks').trans hparsed)]
      rw [processed_agree hos (h _ · hasks)]

/-- One request, one system, and two answers: the two bytes of the heap are not the same. -/
theorem exists_answers_differ :
    sentBytes (serve (truncatedHtml 3 (bytes "a"))
        (Segmentation.whole.cut HTTPRequest.simpleScenario.requestBytes))
      = some (okResponse 3 (bytes "a**")) ∧
    sentBytes (serve (truncatedHtml 3 (bytes "a")).refilled
        (Segmentation.whole.cut HTTPRequest.simpleScenario.requestBytes))
      = some (okResponse 3 (bytes "a++")) ∧
    ¬ AnsweredAlike (truncatedHtml 3 (bytes "a")) HTTPRequest.simpleScenario.requestBytes := by
  have hfirst : sentBytes (serve (truncatedHtml 3 (bytes "a"))
      (Segmentation.whole.cut HTTPRequest.simpleScenario.requestBytes))
        = some (okResponse 3 (bytes "a**")) := by decide +kernel
  have hsecond : sentBytes (serve (truncatedHtml 3 (bytes "a")).refilled
      (Segmentation.whole.cut HTTPRequest.simpleScenario.requestBytes))
        = some (okResponse 3 (bytes "a++")) := by decide +kernel
  refine ⟨hfirst, hsecond, fun h => ?_⟩
  have hwhole := Segmentation.whole.isCut HTTPRequest.simpleScenario.requestBytes
  have hsame := (h (truncatedHtml 3 (bytes "a")).refilled _ _ ⟨rfl, rfl, rfl⟩ hwhole hwhole).2.2
  rw [hfirst, hsecond] at hsame
  cases (okResponse_inj (Option.some.inj hsame)).2

end HttpService

end AsioSamples
