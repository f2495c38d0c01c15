import AsioSamples.Http.Exchange

/-!
# Http/Answer — what `HttpService` answers does not depend on the cut

A handler of the service finds in `m_request` what its delimiter stands for and whatever has been
received beyond it.  The request-line handler takes a line and one byte, which are there in every
run, and leaves the rest to the next stage; the header handler takes everything, but nothing of what
it parses goes into the answer.  So two runs on one stream stay `Alike` (`sent_readHeaders_congr`)
and send the same bytes (`sent_serve_congr`), on one system: what else the answer depends on is in
`Http/ResourceSize`.
-/

namespace AsioSamples

namespace HttpService

/-- The bytes a connection is sent, if it is sent any. -/
def sentBytes : Option Served → Option Bytes
  | some (.answered _ sent) => some sent
  | _ => none

/-- The bytes a handler answers with, if it answers. -/
def answer : Except Exception (HttpService × ServiceControl) → Option Bytes
  | .ok (_, .await (.write buffers)) => some buffers.flatten
  | _ => none

/-! ## What the answer depends on -/

/-- Two services that differ in nothing but the bytes still unread and the headers parsed. -/
def Alike (s s' : HttpService) : Prop := ∃ request headers, s' = s.withParsed request headers

theorem answer_sendResponse (os : Os) {s s' : HttpService} (hs : Alike s s') :
    answer (sendResponse os s') = answer (sendResponse os s) := by
  obtain ⟨request, headers, rfl⟩ := hs
  rw [sendResponse_withParsed]
  cases sendResponse os s with
  | error e => rfl
  | ok p =>
    obtain ⟨s', c⟩ := p
    cases c with
    | deleted => rfl
    | await op => cases op <;> rfl

/-- **The answer depends on the target, not on the headers**, nor on what is still unread. -/
theorem answer_processRequest (os : Os) {s s' : HttpService} (hs : Alike s s') :
    answer (processRequest os s' >>= sendResponse os)
      = answer (processRequest os s >>= sendResponse os) := by
  obtain ⟨request, headers, rfl⟩ := hs
  rw [processRequest_withParsed]
  cases processRequest os s with
  | error e => rfl
  | ok s' => exact answer_sendResponse os ⟨request, headers, rfl⟩

/-- **The header handler** answers by the target and by what it is told. -/
theorem answer_onHeadersReceived (os : Os) {s s' : HttpService} (hs : Alike s s')
    (ec : ErrorCode) : answer (onHeadersReceived os s' ec) = answer (onHeadersReceived os s ec) := by
  obtain ⟨request, headers, rfl⟩ := hs
  unfold onHeadersReceived
  by_cases hec : ec.value = 0
  · rw [if_neg (not_not.mpr hec), if_neg (not_not.mpr hec)]
    exact (answer_processRequest os ⟨_, _, rfl⟩).trans (answer_processRequest os ⟨_, _, rfl⟩)
  · rw [if_pos hec, if_pos hec]
    split
    · exact answer_sendResponse os ⟨request, headers, rfl⟩
    · rfl

/-- **The header stage** ends the connection, with what its handler answers. -/
theorem serveFrom_readHeaders_answer (os : Os) (n : ℕ) (s : HttpService) (chunks : List Bytes) :
    (serveFrom os (n + 2) s .readHeaders chunks).isSome ∧ ∃ request,
      sentBytes (serveFrom os (n + 2) s .readHeaders chunks)
        = answer (onHeadersReceived os { s with request := request }
          (readUntil (some maxRequest) crlfcrlf s.request chunks).ec) := by
  rw [serveFrom]
  simp only [handle]
  set d := readUntil (some maxRequest) crlfcrlf s.request chunks
  cases h : onHeadersReceived os { s with request := s.request ++ d.received } d.ec with
  | error e => exact ⟨rfl, s.request ++ d.received, by rw [h]; rfl⟩
  | ok p =>
    obtain ⟨s', c⟩ := p
    rcases onHeadersReceived_ok h with rfl | ⟨buffers, rfl⟩ <;>
    exact ⟨rfl, s.request ++ d.received, by rw [h]; rfl⟩

/-- **The header stage does not depend on the cut.** -/
theorem sent_readHeaders_congr (os : Os) (n : ℕ) {s s' : HttpService} (hs : Alike s s')
    {chunks chunks' : List Bytes}
    (hstream : s'.request ++ chunks'.flatten = s.request ++ chunks.flatten)
    (hfit : Fits (some maxRequest) s.request) (hfit' : Fits (some maxRequest) s'.request) :
    sentBytes (serveFrom os (n + 2) s' .readHeaders chunks')
      = sentBytes (serveFrom os (n + 2) s .readHeaders chunks) := by
  obtain ⟨-, q, hsent⟩ := serveFrom_readHeaders_answer os n s chunks
  obtain ⟨-, q', hsent'⟩ := serveFrom_readHeaders_answer os n s' chunks'
  have hec : (readUntil (some maxRequest) crlfcrlf s'.request chunks').ec
      = (readUntil (some maxRequest) crlfcrlf s.request chunks).ec := by
    rw [readUntil_ec crlfcrlf chunks hfit, readUntil_ec crlfcrlf chunks' hfit', hstream]
  obtain ⟨request, headers, rfl⟩ := hs
  have hs : Alike { s with request := q } { s.withParsed request headers with request := q' } :=
    ⟨q', headers, rfl⟩
  rw [hsent, hsent', hec]
  exact answer_onHeadersReceived os hs _

/-! ## The request line -/

/-- The service with other bytes unread. -/
def withRequest (s : HttpService) (request : Bytes) : HttpService := { s with request := request }

theorem sendResponse_withRequest (os : Os) (s : HttpService) (request : Bytes) :
    sendResponse os (s.withRequest request)
      = (sendResponse os s).map fun p => (p.1.withRequest request, p.2) := by
  unfold sendResponse
  simp only [withRequest]
  split
  · rfl
  split <;> rfl

/-- **The request-line handler takes a line and one byte**, and leaves what follows them as it is.
-/
theorem onRequestLineReceived_line (os : Os) (s : HttpService) {line : Bytes} (hline : cr ∉ line)
    (b : UInt8) (rest : Bytes) :
    (s.withRequest (line ++ cr :: b :: rest)).onRequestLineReceived os .success
      = ((s.withRequest (line ++ [cr, b])).onRequestLineReceived os .success).map
          fun p => (p.1.withRequest rest, p.2) := by
  have h₁ := IStream.getline_append line (b :: rest) [] hline
  have h₂ := IStream.getline_append line [b] [] hline
  unfold onRequestLineReceived
  simp only [withRequest, h₁, h₂, IStream.get_cons, ErrorCode.success_value, ne_eq,
    not_true_eq_false, if_false]
  split
  · exact sendResponse_withRequest os { s with request := [], responseStatusCode := 501 } rest
  split
  · exact sendResponse_withRequest os
      { s with request := [], requestedResource := _, responseStatusCode := 505 } rest
  · rfl

/-- A line that cannot be read is answered by the code alone. -/
theorem answer_onRequestLineReceived_failed (os : Os) {s s' : HttpService} (hs : Alike s s')
    {ec : ErrorCode} (hec : ec.value ≠ 0) :
    answer (onRequestLineReceived os s' ec) = answer (onRequestLineReceived os s ec) := by
  obtain ⟨request, headers, rfl⟩ := hs
  unfold onRequestLineReceived
  rw [if_pos hec, if_pos hec]
  split
  · exact answer_sendResponse os ⟨request, headers, rfl⟩
  · rfl

/-! ## Two runs -/

/-- What is sent after the request-line handler: its answer, or that of the header stage. -/
def sentAfterLine (os : Os) (rest : List Bytes) :
    Except Exception (HttpService × ServiceControl) → Option Bytes
  | .ok (s, .await .readHeaders) => sentBytes (serveFrom os 2 s .readHeaders rest)
  | ended => answer ended

/-- **Three operations are enough**, and what a connection is sent goes by how its first handler
ends. -/
theorem serve_eq (os : Os) (chunks : List Bytes) : (serve os chunks).isSome ∧
    sentBytes (serve os chunks) = sentAfterLine os (readUntil (some maxRequest) crlf [] chunks).rest
      (onRequestLineReceived os
        { request := (readUntil (some maxRequest) crlf [] chunks).received }
        (readUntil (some maxRequest) crlf [] chunks).ec) := by
  rw [serve, handleRequest, serveFrom]
  simp only [handle, List.nil_append]
  set d := readUntil (some maxRequest) crlf [] chunks
  cases h : onRequestLineReceived os { request := d.received } d.ec with
  | error e => exact ⟨rfl, rfl⟩
  | ok p =>
    obtain ⟨s, c⟩ := p
    rcases onRequestLineReceived_ok h with rfl | rfl | ⟨buffers, rfl⟩
    · exact ⟨rfl, rfl⟩
    · exact ⟨(serveFrom_readHeaders_answer os 0 s d.rest).1, rfl⟩
    · exact ⟨rfl, rfl⟩

/-- An answer is what is sent, whatever has not been read. -/
theorem sentAfterLine_of_failed (os : Os) (rest : List Bytes) (s : HttpService) {ec : ErrorCode}
    (hec : ec.value ≠ 0) : sentAfterLine os rest (onRequestLineReceived os s ec)
      = answer (onRequestLineReceived os s ec) := by
  cases h : onRequestLineReceived os s ec with
  | error e => rfl
  | ok p =>
    obtain ⟨s', c⟩ := p
    rcases onRequestLineReceived_ok h with rfl | rfl | ⟨buffers, rfl⟩
    · rfl
    · rcases onRequestLineReceived_cases os s ec with ⟨-, hend⟩ | ⟨_, _, _, -, hend⟩ | ⟨hz, -⟩
      · cases hend.symm.trans h
      · obtain ⟨-, -, _, -, hc, -⟩ := sendResponse_ok (hend.symm.trans h)
        cases hc
      · exact absurd hz hec
    · rfl

/-- **After the first CRLF it makes no difference how much was read with it**: both runs parse the
line up to the first `'\r'`, and leave the header stage what there is of the rest. -/
theorem sentAfterLine_congr (os : Os) {pre ahead ahead' : Bytes} {rest rest' : List Bytes}
    (hstream : ahead' ++ rest'.flatten = ahead ++ rest.flatten)
    (hfit : Fits (some maxRequest) (pre ++ crlf ++ ahead))
    (hfit' : Fits (some maxRequest) (pre ++ crlf ++ ahead')) :
    sentAfterLine os rest'
        (onRequestLineReceived os { request := pre ++ crlf ++ ahead' } .success)
      = sentAfterLine os rest
        (onRequestLineReceived os { request := pre ++ crlf ++ ahead } .success) := by
  obtain ⟨line, b, left, hline, hpre⟩ := exists_line pre
  have hreq (more : Bytes) : pre ++ crlf ++ more = line ++ cr :: b :: (left ++ more) := by
    rw [hpre, List.append_assoc, List.cons_append, List.cons_append]
  have hrun (more : Bytes) := onRequestLineReceived_line os {} hline b (left ++ more)
  simp only [withRequest, ← hreq] at hrun
  rw [hrun, hrun]
  cases onRequestLineReceived os { request := line ++ [cr, b] } .success with
  | error e => rfl
  | ok p =>
    obtain ⟨s, c⟩ := p
    cases c with
    | deleted => rfl
    | await op =>
      cases op with
      | readHeaders =>
        have hleft (more : Bytes) : left ++ more <:+ pre ++ crlf ++ more :=
          ⟨line ++ [cr, b], by simp [hreq]⟩
        have hsame : Alike { s with request := left ++ ahead }
            { s with request := left ++ ahead' } := ⟨_, _, rfl⟩
        refine sent_readHeaders_congr os 0 hsame ?_ (hfit.of_suffix (hleft ahead))
          (hfit'.of_suffix (hleft ahead'))
        simp only [List.append_assoc, hstream]
      | _ => rfl

/-- **The answer does not depend on the cut.**  However a stream is cut into chunks, the service
sends the same bytes in reply, or none in either run. -/
theorem sent_serve_congr (os : Os) {stream : Bytes} {chunks chunks' : List Bytes}
    (hcut : IsCut stream chunks) (hcut' : IsCut stream chunks') :
    sentBytes (serve os chunks') = sentBytes (serve os chunks) := by
  have hfit := fits_nil (some maxRequest)
  rw [(serve_eq os chunks).2, (serve_eq os chunks').2]
  have hd := hcut.flatten ▸ readsUntil crlf chunks hfit
  have hd' := hcut'.flatten ▸ readsUntil crlf chunks' hfit
  generalize readUntil (some maxRequest) crlf [] chunks = d at hd
  generalize readUntil (some maxRequest) crlf [] chunks' = d' at hd'
  have hec : d'.ec = d.ec := hd'.ec.trans hd.ec.symm
  rw [hec]
  by_cases hsucc : d.ec = .success
  · obtain ⟨pre, tail, hfirst⟩ := exists_firstAt
      ((hd.found hsucc).trans (hd.tile ▸ (List.prefix_append _ _).isInfix))
    obtain ⟨ahead, hahead, htail⟩ := hfirst.exists_readAhead hd.tile (hd.found hsucc)
    obtain ⟨ahead', hahead', htail'⟩ :=
      hfirst.exists_readAhead hd'.tile (hd'.found (hec.trans hsucc))
    rw [hsucc, hahead, hahead']
    exact sentAfterLine_congr os (htail'.trans htail.symm) (hahead ▸ hd.fits) (hahead' ▸ hd'.fits)
  · have hne : d.ec.value ≠ 0 := hd.ec ▸ readVerdict_value (hd.ec ▸ hsucc)
    rw [sentAfterLine_of_failed os _ _ hne, sentAfterLine_of_failed os _ _ hne]
    have hsame : Alike { request := d.received } { request := d'.received } := ⟨_, ∅, rfl⟩
    exact answer_onRequestLineReceived_failed os hsame hne

end HttpService

end AsioSamples
