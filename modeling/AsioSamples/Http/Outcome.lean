import AsioSamples.Http.Answer
import AsioSamples.Http.ResourceSize
import AsioSamples.Http.Verdict

/-!
# Http/Outcome — what a request comes to, whatever the service answers

The service answers with a file, with a bare status line or not at all (`sent_of_serve`), and it
depends on nothing else how the request ends: with the file, or with `eof` (`run_outcome`).  It
never ends with another error, and it never hangs: the answers of `HttpService` are among those on
which the header loop of `HTTPRequest` leaves.
-/

namespace AsioSamples

/-- The bytes with which a connection is answered. -/
def Served.sent : Served → Bytes
  | .answered _ sent => sent
  | .dropped | .escaped _ => []

/-- …if it is. -/
def answerOf (served : Option Served) : Bytes := served.elim [] Served.sent

namespace HttpService

/-- What is sent is a file with status 200, or a status line and an empty line, or nothing. -/
inductive Sent (os : Os) : Served → Prop
  | file {svc : HttpService} {f : OpenFile} (hcode : svc.responseStatusCode = 200)
    (hfile : os.find svc.resourceFilePath = .opened f) :
    Sent os (.answered svc (okResponse f.size.toNat (sentBody os f)))
  | bare {svc : HttpService} {text : Bytes} (hcode : svc.responseStatusCode ≠ 200)
    (htext : httpStatusTable.lookup svc.responseStatusCode = some text) :
    Sent os (.answered svc (bytes "HTTP/1.1 " ++ text ++ crlf ++ crlf))
  | dropped : Sent os .dropped

/-- No call that the service makes fails on a connection that sends `stream`: the system provides
for what is asked for. -/
structure CallsSucceedOn (os : Os) (stream : Bytes) : Prop where
  receive : os.shutdownReceive.value = 0
  both : os.shutdownBoth.value = 0
  provides : ∀ target, AsksFor target stream → os.Provides (bytes "sample" ++ target)

/-- Where a connection escapes, a handler has thrown. -/
theorem eq_error_of_ended {result : Except Exception (HttpService × ServiceControl)}
    {e : Exception} (h : ended result = some (.escaped e)) : result = .error e := by
  rcases result with e' | ⟨s, op | _⟩
  · cases h
    rfl
  · cases op <;> cases h
  · cases h

/-- **Nothing is thrown** where no call fails. -/
theorem serve_ne_escaped {os : Os} {stream : Bytes} (hos : CallsSucceedOn os stream)
    {chunks : List Bytes} (hcut : IsCut stream chunks) {e : Exception} :
    serve os chunks ≠ some (.escaped e) := by
  intro h
  cases hparsed : parsed os chunks with
  | some svc =>
    obtain ⟨hundecided, hcode⟩ := parsed_undecided hparsed
    obtain ⟨s, hprocess⟩ := processRequest_isOk_iff.mpr
      (hos.provides _ ((exists_parsed_iff os hcut).mp ⟨svc, hparsed, rfl⟩))
    obtain ⟨s', buffers, hsend⟩ := exists_sendResponse hos.receive
      (decided_of_processRequest hundecided hcode hprocess).2
    rw [serve_of_parsed hparsed, hprocess] at h
    cases hsend.symm.trans (eq_error_of_ended h)
  | none =>
    -- nothing is looked up: either the first handler is the last, or the headers cannot be read
    rw [parsed] at hparsed
    rw [serve, handleRequest, serveFrom] at h
    simp only at hparsed h
    set d := readUntil (some maxRequest) crlf [] chunks
    have hfirst : ReadEnd (({} : HttpService).handle os .readRequestLine d.ec d.received) :=
      readEnd_handle ⟨rfl, rfl⟩ rfl (by simp) (handle_ne_error ⟨rfl, rfl⟩ rfl (by simp)
        ⟨hos.receive, hos.both, fun hop => by cases hop⟩ d.received)
    rw [handle, List.nil_append] at hfirst
    generalize hhandle : onRequestLineReceived os { request := d.received } d.ec = result at hfirst
    simp only [handle, List.nil_append, hhandle] at hparsed h
    cases hfirst with
    | deleted s => cases h
    | answer => cases h
    | @readOn s hs hcode =>
      simp only at hparsed h
      rw [serveFrom_readHeaders_ended] at h
      have hfailed : (readUntil (some maxRequest) crlfcrlf s.request d.rest).ec.value ≠ 0 :=
        fun hzero => by rw [if_pos hzero] at hparsed; cases hparsed
      have hcalls : CallsSucceed os s .readHeaders
          (readUntil (some maxRequest) crlfcrlf s.request d.rest).ec :=
        ⟨hos.receive, hos.both, fun _ hzero => absurd hzero hfailed⟩
      exact handle_ne_error hs hcode (by simp) hcalls _ e (eq_error_of_ended h)

/-- **A connection is sent one of these.** -/
theorem sent_of_serve {os : Os} {stream : Bytes} (hos : CallsSucceedOn os stream)
    {chunks : List Bytes} (hcut : IsCut stream chunks) {served : Served}
    (h : serve os chunks = some served) : Sent os served := by
  cases served with
  | answered svc sent =>
    by_cases hcode : svc.responseStatusCode = 200
    · obtain ⟨-, -, f, hfile, -, rfl⟩ := (answered_ok_iff os hcut).mp ⟨svc, h, hcode, rfl⟩
      exact .file hcode hfile
    · have hfresh : ErrorIsBare {} handleRequest := ⟨⟨rfl, rfl⟩, rfl⟩
      obtain ⟨text, htext, rfl⟩ := bare_of_serveFrom 3 hfresh h hcode
      exact .bare hcode htext
  | dropped => exact .dropped
  | escaped e => exact absurd h (serve_ne_escaped hos hcut)

/-- What the client receives is a cut of what the service has sent. -/
theorem flatten_answers (os : Os) (up down : Segmentation) (request : Bytes) :
    (answers os up down request).flatten = answerOf (serve os (up.cut request)) := by
  rw [answers]
  split
  next hserve =>
    rw [down.flatten_cut, hserve]
    rfl
  next hnone =>
    cases hserve : serve os (up.cut request) with
    | none => rfl
    | some served =>
      cases served with
      | answered svc sent => exact absurd hserve (hnone svc sent)
      | dropped | escaped e => rfl

end HttpService

namespace HTTPRequest

section Outcome

variable (w : ULong) {shutdown : ErrorCode} {answer : Bytes → List Bytes} {r : HTTPRequest}

/-- **A response with a file ends the request with the file.** -/
theorem run_of_okResponse (hshut : shutdown.value = 0) (hr : r.Fresh) (hexec : r.execute.isSome)
    {number : ℕ} {body : Bytes}
    (hanswer : (answer r.requestBytes).flatten = HttpService.okResponse number body) :
    ∃ r', r.run w shutdown answer = some (.success, r') ∧ r'.response.statusCode = 200 ∧
      r'.response.responseBuf = body := by
  have hok : bytes "HTTP/1.1 200 OK"
      = bytes "HTTP/1.1 " ++ (toString 200 ++ bytes " " ++ bytes "OK") := by decide
  have hblank : crlfcrlf = crlf ++ crlf := by decide
  have hstream : (answer r.requestBytes).flatten = bytes "HTTP/1.1 "
      ++ (toString 200 ++ bytes " " ++ bytes "OK") ++ crlf
      ++ (bytes "content-length: " ++ toString number ++ crlfcrlf ++ body) := by
    rw [hanswer, HttpService.okResponse, hok, hblank]
    simp only [List.append_assoc]
  obtain ⟨ahead, rest, htail, hstatus⟩ := runFrom_readStatusLine w shutdown answer 2
    (r := { r with requestBuf := r.requestBytes }) (by rw [hr.response]) (by cases w <;> decide)
    (by decide) hstream
  have hline : cr ∉ bytes "content-length: " ++ toString number := by
    rw [List.mem_append, not_or]
    exact ⟨by decide, fun h => absurd (isDigit_of_mem_toString h) (by decide)⟩
  set r₁ : HTTPRequest := { r with
    requestBuf := r.requestBytes
    response := { r.response with
      responseBuf := ahead, statusCode := UInt32.ofNat 200
      statusMessage := bytes " " ++ bytes "OK" } }
  obtain ⟨ahead', rest', hbody, hheaders⟩ := runFrom_readHeaders w shutdown answer 1 (r := r₁) hline
    (by simp [toString_ne_nil]) htail
  rw [run_eq_runFrom _ _ _ hexec hr.requestBuf hshut, hstatus]
  refine ⟨_, hheaders.trans (runFrom_readBody _ _ _ 0 _ rest'), ?_, hbody⟩
  unfold addHeaderLine
  split <;> rfl

/-- **A peer that sends nothing** ends the request with `eof`. -/
theorem run_of_nil (hshut : shutdown.value = 0) (hr : r.Fresh) (hexec : r.execute.isSome)
    (hanswer : (answer r.requestBytes).flatten = []) :
    ∃ r', r.run w shutdown answer = some (.eof, r') := by
  have hmissing : ¬ crlf <:+: (answer r.requestBytes).flatten := by
    rw [hanswer]
    exact fun h => absurd h.length_le (by decide)
  rw [run_eq_runFrom _ _ _ hexec hr.requestBuf hshut]
  exact ⟨_, runFrom_readStatusLine_eof w shutdown answer (r := { r with
    requestBuf := r.requestBytes }) (by rw [hr.response]) hmissing⟩

/-- How a request ends that is answered so: with the file, or with `eof`. -/
inductive Ends (os : Os) : Served → Option (ErrorCode × HTTPRequest) → Prop
  | file {svc : HttpService} {f : OpenFile} {sent : Bytes} {r : HTTPRequest}
    (hcode : svc.responseStatusCode = 200) (hfile : os.find svc.resourceFilePath = .opened f)
    (hstatus : r.response.statusCode = 200)
    (hbody : r.response.responseBuf = HttpService.sentBody os f) :
    Ends os (.answered svc sent) (some (.success, r))
  | lost {svc : HttpService} {sent : Bytes} {r : HTTPRequest}
    (hcode : svc.responseStatusCode ≠ 200) :
    Ends os (.answered svc sent) (some (.eof, r))
  | dropped {r : HTTPRequest} : Ends os .dropped (some (.eof, r))

/-- **How a request ends goes by what the service has sent it.** -/
theorem ends_of_sent (answer : Bytes → List Bytes) {os : Os} (hshut : shutdown.value = 0)
    (hr : r.Fresh) (hexec : r.execute.isSome) {served : Served}
    (hserved : HttpService.Sent os served)
    (hanswer : (answer r.requestBytes).flatten = served.sent) :
    Ends os served (r.run w shutdown answer) := by
  cases hserved with
  | @file svc f hcode hfile =>
    obtain ⟨r', hrun, hstatus, hbody⟩ := run_of_okResponse w hshut hr hexec hanswer
    rw [hrun]
    exact .file hcode hfile hstatus hbody
  | bare hcode htext =>
    obtain ⟨r', hrun⟩ := run_of_bare w hshut hr hexec htext hanswer
    rw [hrun]
    exact .lost hcode
  | dropped =>
    obtain ⟨r', hrun⟩ := run_of_nil w hshut hr hexec hanswer
    rw [hrun]
    exact .dropped

/-- **How a request ends**, over any two cuts: the service answers or drops it, and by that the
callback is given the file, or `eof`. -/
theorem run_outcome (w : ULong) {os : Os} {r : HTTPRequest}
    (hos : HttpService.CallsSucceedOn os r.requestBytes) (hshut : os.shutdownSend.value = 0)
    (up down : Segmentation) (hr : r.Fresh) (hexec : r.execute.isSome) : ∃ served,
      HttpService.serve os (up.cut r.requestBytes) = some served ∧
      Ends os served (r.run w os.shutdownSend (HttpService.answers os up down)) := by
  obtain ⟨served, hserved⟩ := Option.isSome_iff_exists.mp
    (HttpService.serve_eq os (up.cut r.requestBytes)).1
  have hsent := HttpService.sent_of_serve hos (up.isCut _) hserved
  refine ⟨served, hserved, ends_of_sent w _ hshut hr hexec hsent ?_⟩
  rw [HttpService.flatten_answers, hserved]
  rfl

theorem run_outcome_simpleScenario : ∃ served,
    HttpService.serve (manualHtml (bytes "hi"))
        (Segmentation.bytewise.cut simpleScenario.requestBytes) = some served ∧
      Ends (manualHtml (bytes "hi")) served (simpleScenario.run .bits32 .success
        (HttpService.answers (manualHtml (bytes "hi")) .bytewise .whole)) :=
  run_outcome .bits32 ⟨rfl, rfl, fun _ _ => HttpService.provides_manualHtml (by decide) _⟩ rfl
    .bytewise .whole ⟨rfl, rfl⟩ (by decide +kernel)

end Outcome

end HTTPRequest

end AsioSamples
