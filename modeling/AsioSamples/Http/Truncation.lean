import AsioSamples.Http.Connection
import AsioSamples.Http.HeaderBlock

/-!
# Http/Truncation — when the body an `HTTPRequest` delivers has the announced length

Nothing in `http-client-async.hpp` reads the `content-length` that `HttpService` sends: the body is
whatever arrives before the end of the stream, and `on_response_body_received` turns that end into
success.  `Received` says which bytes of the stream are header lines and which are body
(`run_success`, `Received.run`), so a success delivers the announced number of bytes exactly when
the server has sent that number (`body_length_iff`).
-/

namespace AsioSamples

namespace HTTPRequest

/-! ## What a response consists of -/

/-- A status line's words, and what is behind the next `'\r'` and the byte after it. -/
inductive StatusTaken (w : ULong) : Bytes → Bytes → Prop
  | intro {words more : Bytes} {code : ℕ} (hwords : StatusWords w words code)
    (hmore : ∀ c ∈ more.head?, isSpace c) :
    StatusTaken w (words ++ more) ((more.dropWhile (· != cr)).drop 2)

/-- The header lines and the body of a response: the status line in what is read up to the first
CRLF, the header lines in what is then read up to `"\r\n\r\n"`, and the body up to the end. -/
inductive Received (w : ULong) (chunks : List Bytes) : List Bytes → Bytes → Prop
  | intro {received left received' more : Bytes} {rest rest' : List Bytes}
    {lines : List (Bytes × UInt8)}
    (hstatus : readUntil none crlf [] chunks = ⟨.success, received, rest⟩)
    (htaken : StatusTaken w received left)
    (hheaders : readUntil none crlfcrlf left rest = ⟨.success, received', rest'⟩)
    (hlines : HeaderLines lines) (hbuf : left ++ received' = headerText lines ++ more)
    (hend : ∀ b ∈ more.head?, b = cr) :
    Received w chunks (lines.map Prod.fst) (more.drop 2 ++ rest'.flatten)

variable {w : ULong}

/-- The rest of a line, its end, and what is left behind that. -/
theorem getline_get_rest (more : Bytes) :
    (({ rest := more, eofbit := more.isEmpty } : IStream).getline cr []).2.get.rest
      = (more.dropWhile (· != cr)).drop 2 := by
  by_cases hempty : more = []
  · subst hempty
    rfl
  have hopen : more.isEmpty = false := by simpa using hempty
  rw [hopen]
  rcases IStream.getline_cases more [] cr with ⟨line, tail, rfl, hline, hget⟩ | ⟨hmem, hget⟩
  · have hne : ∀ b ∈ line, (b != cr) = true := fun b hb => by
      simpa using fun h : b = cr => hline (h ▸ hb)
    rw [hget, List.dropWhile_append_of_pos hne, List.dropWhile_cons_of_neg (by simp)]
    cases tail with
    | nil => rfl
    | cons b tail => rfl
  · have hnil : more.dropWhile (· != cr) = [] :=
      List.dropWhile_eq_nil_iff.mpr fun b hb => by simpa using fun h : b = cr => hmem (h ▸ hb)
    rw [hget, hnil]
    rfl

/-- **The status handler goes on** where a status line was taken. -/
theorem StatusTaken.handler {buf left : Bytes} (h : StatusTaken w buf left) (r : HTTPRequest) :
    ∃ code message, (r.withResponseBuf buf).onStatusLineReceived w .success
      = ((r.withStatus code message).withResponseBuf left, .lock .readHeaders) := by
  cases h with
  | @intro words more code hwords hmore =>
    have hhandler := onStatusLineReceived_words r hwords hmore
    simp only [getline_get_rest] at hhandler
    exact ⟨code, _, hhandler⟩

/-- **The status handler either goes on or calls the response invalid.** -/
theorem statusTaken_or (w : ULong) (buf : Bytes) : (∃ left, StatusTaken w buf left) ∨
    ∀ r : HTTPRequest, ∃ left, (r.withResponseBuf buf).onStatusLineReceived w .success
      = (r.withResponseBuf left, .finish .invalidResponse) := by
  cases opening w buf with
  | unfinished h => exact .inr fun r => ⟨_, onStatusLineReceived_unfinished r h⟩
  | misread h => exact .inr fun r => ⟨_, onStatusLineReceived_misread r h⟩
  | @status words tail code b h heq hb =>
    subst heq
    exact .inl ⟨_, .intro h (by simpa using hb)⟩
  | @number words more code h heq hmore =>
    -- the word goes on to the end of the buffer, and may be a number or not
    subst heq
    cases h with
    | @intro ws ws' word code hws hws' hsep hword hcode =>
      have hword' : Solid (word ++ more) := List.forall_mem_append.mpr ⟨hword, hmore⟩
      rw [List.append_assoc _ word more]
      cases hcode' : stoul w (word ++ more) with
      | none => exact .inr fun r => ⟨_, onStatusLineReceived_lastWord r hws hws' hsep hword' hcode'⟩
      | some code' =>
        have hmore : ∀ c ∈ ([] : Bytes).head?, isSpace c := by simp
        have htaken := StatusTaken.intro (.intro hws hws' hsep hword' hcode') hmore
        rw [List.append_nil] at htaken
        exact .inl ⟨_, htaken⟩

/-! ## A success, taken apart -/

section Success

variable {shutdown : ErrorCode} {answer : Bytes → List Bytes} {r : HTTPRequest}

/-- **The header stage ends with success** on header lines that end, and delivers what is behind
them. -/
theorem runFrom_readHeaders_success_iff (r : HTTPRequest) {buf received : Bytes}
    {rest rest' : List Bytes}
    (hread : readUntil none crlfcrlf buf rest = ⟨.success, received, rest'⟩)
    {o : ErrorCode × HTTPRequest} :
    runFrom w shutdown answer 2 (r.withResponseBuf buf) .readHeaders rest = some o ↔
      ∃ l, Leaves headerPass (r.withResponseBuf (buf ++ received)).headerLoop l ∧
        r.delivered rest'.flatten l = o := by
  rw [runFrom_readHeaders_eq w shutdown answer r hread, Option.map_eq_some_iff]
  exact exists_congr fun l => and_congr_left' (leaves_headerPass_iff _ l).symm

/-- **What a success delivers** is the header lines and the body of the response. -/
theorem run_success (hr : r.Fresh) (hexec : r.execute.isSome) (hshut : shutdown.value = 0)
    {ec : ErrorCode} {r' : HTTPRequest} (hrun : r.run w shutdown answer = some (ec, r'))
    (hec : ec.value = 0) : ∃ lines,
      Received w (answer r.requestBytes) lines r'.response.responseBuf ∧
      r'.response.headers = (∅ : StdMap Bytes Bytes).assignAll (headerFields lines) := by
  rw [run_eq_runFrom w shutdown answer hexec hr.requestBuf hshut] at hrun
  have hbuf : r.sent.response.responseBuf = [] := hr.sent_responseBuf
  by_cases hcrlf : crlf <:+: (answer r.requestBytes).flatten
  case neg =>
    rw [← sent, runFrom_readStatusLine_eof w shutdown answer hbuf hcrlf] at hrun
    cases hrun
    cases hec
  obtain ⟨pre, tail, hfirst⟩ := exists_firstAt hcrlf
  obtain ⟨ahead, rest, hread, -⟩ := exists_readUntil_line hfirst rfl
  rw [← sent, runFrom_readStatusLine_eq w shutdown answer hbuf hread] at hrun
  rcases statusTaken_or w (pre ++ crlf ++ ahead) with ⟨left, htaken⟩ | hinvalid
  case inr =>
    obtain ⟨left, hhandler⟩ := hinvalid r.sent
    rw [hhandler] at hrun
    cases hrun
    cases hec
  obtain ⟨code, message, hhandler⟩ := htaken.handler r.sent
  rw [hhandler] at hrun
  change runFrom w shutdown answer 2 ((r.sent.withStatus code message).withResponseBuf left)
    .readHeaders rest = _ at hrun
  by_cases hblank : crlfcrlf <:+: left ++ rest.flatten
  case neg =>
    rw [runFrom_readHeaders_eof w shutdown answer 1 hblank] at hrun
    cases hrun
    cases hec
  obtain ⟨pre', tail', hfirst'⟩ := exists_firstAt hblank
  obtain ⟨ahead', hec', -, -⟩ := hfirst'.exists_readUntil rfl (fits_none _) (fits_none _)
  obtain ⟨received', rest', hread'⟩ : ∃ received' rest',
      readUntil none crlfcrlf left rest = ⟨.success, received', rest'⟩ :=
    ⟨_, _, by rw [← hec']⟩
  obtain ⟨l, hl, ho⟩ := (runFrom_readHeaders_success_iff _ hread').mp hrun
  obtain ⟨lines, more, hlines, hmore, hend⟩ := headersEnd_of_leaves hl
  obtain ⟨l', hl', hleft, hresponse⟩ := leaves_of_headersEnd hlines hend hmore
  obtain rfl := loop_unique hl hl'
  refine ⟨lines.map Prod.fst, ?_, ?_⟩
  · have hbody : r'.response.responseBuf = more.drop 2 ++ rest'.flatten := by
      rw [← hleft]
      exact congrArg (fun o => o.2.response.responseBuf) ho.symm
    rw [hbody]
    exact .intro hread htaken hread' hlines hmore hend
  · have hheaders : r'.response.headers = l.response.headers :=
      congrArg (fun o => o.2.response.headers) ho.symm
    rw [hheaders, hresponse, addHeaderLines_eq]
    change r.response.headers.assignAll _ = _
    rw [hr.response]

/-- **A response is delivered** with success. -/
theorem Received.run (answer : Bytes → List Bytes) (hr : r.Fresh) (hexec : r.execute.isSome)
    (hshut : shutdown.value = 0) {lines : List Bytes} {body : Bytes}
    (h : Received w (answer r.requestBytes) lines body) :
    ∃ r', r.run w shutdown answer = some (.success, r') ∧ r'.response.responseBuf = body ∧
      r'.response.headers = (∅ : StdMap Bytes Bytes).assignAll (headerFields lines) := by
  cases h with
  | @intro received left received' more rest rest' lines hstatus htaken hheaders hlines hmore
      hend =>
    obtain ⟨code, message, hhandler⟩ := htaken.handler r.sent
    obtain ⟨l, hl, hleft, hresponse⟩ := leaves_of_headersEnd
      (r := (r.sent.withStatus code message).withResponseBuf (left ++ received')) hlines hend hmore
    refine ⟨((r.sent.withStatus code message).delivered rest'.flatten l).2, ?_,
      congrArg (· ++ rest'.flatten) hleft, ?_⟩
    · rw [run_eq_runFrom w shutdown answer hexec hr.requestBuf hshut, ← sent,
        runFrom_readStatusLine_eq w shutdown answer hr.sent_responseBuf hstatus, hhandler]
      exact (runFrom_readHeaders_success_iff _ hheaders).mpr ⟨l, hl, rfl⟩
    · change l.response.headers = _
      rw [hresponse, addHeaderLines_eq]
      change r.response.headers.assignAll _ = _
      rw [hr.response]

end Success

/-! ## The announced length -/

/-- The name of the header `HttpService` announces the length of the body in. -/
def contentLength : Bytes := bytes "content-length"

/-- The value of a header is a decimal number, with any white space around it. -/
inductive DecimalField : Bytes → ℕ → Prop
  | intro {ws digits ws' : Bytes} (hws : Blank ws) (hdigits : ∀ c ∈ digits, isDigit c)
    (hne : digits ≠ []) (hws' : Blank ws') :
    DecimalField (ws ++ digits ++ ws') (decimalValue digits)

/-- What `HttpService` puts behind the `':'`. -/
theorem decimalField_toString (n : ℕ) : DecimalField (bytes " " ++ toString n) n := by
  have hblank : Blank (bytes " ") := by
    unfold Blank
    decide +kernel
  have hnone : Blank [] := by simp [Blank]
  have h := DecimalField.intro hblank (fun _ => isDigit_of_mem_toString) (toString_ne_nil n) hnone
  rwa [List.append_nil, decimalValue_toString] at h

/-- A header's decimal number is the one its digits make. -/
theorem DecimalField.eq_decimalValue {value : Bytes} {n : ℕ} (h : DecimalField value n) :
    n = decimalValue (value.filter isDigit) := by
  have hspace : ∀ c, isSpace c = true → isDigit c ≠ true := by decide +kernel
  have hnone {ws : Bytes} (hws : Blank ws) : ws.filter isDigit = [] :=
    List.filter_eq_nil_iff.mpr fun c hc => hspace c (hws c hc)
  cases h with
  | intro hws hdigits hne hws' =>
    rw [List.filter_append, List.filter_append, hnone hws, hnone hws',
      List.filter_eq_self.mpr hdigits, List.nil_append, List.append_nil]

/-- The headers of a fresh response are those that were added, the last one of a name. -/
theorem find_assignAll_empty (fields : List (Bytes × Bytes)) (name : Bytes) :
    ((∅ : StdMap Bytes Bytes).assignAll fields).find name = fields.reverse.lookup name := by
  rw [StdMap.find_assignAll]
  exact Option.or_none

/-- **A success delivers the announced number of bytes exactly when** a stage of the run failed, or
the server has sent that many bytes behind the header block before it finished. -/
theorem body_length_iff (w : ULong) (e : Exchange) {r : HTTPRequest} (hr : r.Fresh)
    (hexec : r.execute.isSome) :
    (∀ ec r' value n, (r.exchange w e).callback = some (ec, r') → ec.value = 0 →
        r'.response.headers.find contentLength = some value → DecimalField value n →
          r'.response.responseBuf.length = n) ↔
      (e.Completes → ∀ lines body value n, Received w e.incoming lines body →
        (headerFields lines).reverse.lookup contentLength = some value → DecimalField value n →
          body.length = n) := by
  constructor
  · intro h he lines body value n hreceived hvalue hn
    obtain ⟨r', hrun, hbody, hheaders⟩ := Received.run (fun _ => e.incoming) hr hexec
      he.shutdown hreceived
    rw [← hbody]
    refine h .success r' value n ?_ rfl ?_ hn
    · exact (exchange_callback_eq_run hexec hr.requestBuf he).trans hrun
    · rw [hheaders, find_assignAll_empty]
      exact hvalue
  · intro h ec r' value n hrun hec hvalue hn
    have he := completes_of_success hexec hrun hec
    rw [exchange_callback_eq_run hexec hr.requestBuf he] at hrun
    obtain ⟨lines, hreceived, hheaders⟩ := run_success hr hexec he.shutdown hrun hec
    refine h he lines _ value n hreceived ?_ hn
    rw [← find_assignAll_empty, ← hheaders]
    exact hvalue

/-- A server that announces four bytes, and sends them in two pieces. -/
def wholeBody : Exchange where
  incoming := [bytes "HTTP/1.1 200 OK\r\ncontent-length: 4\r\n\r\nbo", bytes "dy"]
  ending := .finished

/-- All four bytes. -/
theorem body_length_iff_simpleScenario : ∃ ec r',
    (simpleScenario.exchange .bits64 wholeBody).callback = some (ec, r') ∧ ec.value = 0 ∧
      r'.response.headers.find contentLength = some (bytes " 4") ∧
      r'.response.responseBuf.length = 4 := by
  have hexec : simpleScenario.execute.isSome := by decide +kernel
  have hrun : (simpleScenario.exchange .bits64 wholeBody).callback.any (fun o =>
      o.1.value == 0 && o.2.response.headers.find contentLength == some (bytes " 4")
        && o.2.response.responseBuf == bytes "body") := by decide +kernel
  obtain ⟨⟨ec, r'⟩, hrun, h⟩ := (Option.any_eq_true _ _).mp hrun
  simp only [Bool.and_eq_true, beq_iff_eq] at h
  obtain ⟨⟨hec, hvalue⟩, hbody⟩ := h
  have hfour : DecimalField (bytes " 4") 4 := by
    have hfield := decimalField_toString 4
    rwa [show bytes " " ++ toString 4 = bytes " 4" by decide] at hfield
  refine ⟨ec, r', hrun, hec, hvalue,
    (body_length_iff .bits64 wholeBody ⟨rfl, rfl⟩ hexec).mpr ?_ ec r' _ 4 hrun hec hvalue hfour⟩
  -- there is one way to read the stream, and it is the one of the run
  intro he lines body value n hreceived hlookup hn
  obtain ⟨r'', hrun', hbody', hheaders⟩ :=
    Received.run (fun _ => wholeBody.incoming) ⟨rfl, rfl⟩ hexec he.shutdown hreceived
  have hsame := (exchange_callback_eq_run hexec rfl he).symm.trans hrun
  obtain ⟨-, rfl⟩ := Prod.mk.inj (Option.some.inj (hrun'.symm.trans hsame))
  rw [hheaders, find_assignAll_empty, hlookup] at hvalue
  obtain rfl := Option.some.inj hvalue
  rw [hn.eq_decimalValue, ← hbody', hbody]
  decide

/-- A server that announces ten bytes, sends four and finishes. -/
def halfBody : Exchange where
  incoming := [bytes "HTTP/1.1 200 OK\r\ncontent-length: 10\r\n\r\nhalf"]
  ending := .finished

/-- Four bytes of ten, and a success. -/
theorem truncated_body_reported : ∃ ec r' value,
    (simpleScenario.exchange .bits64 halfBody).callback = some (ec, r') ∧ ec.value = 0 ∧
    r'.response.headers.find contentLength = some value ∧ DecimalField value 10 ∧
    r'.response.responseBuf.length ≠ 10 := by
  have hrun : (simpleScenario.exchange .bits64 halfBody).callback.any (fun o =>
      o.1.value == 0 && o.2.response.headers.find contentLength == some (bytes " 10")
        && o.2.response.responseBuf == bytes "half") := by decide +kernel
  obtain ⟨⟨ec, r'⟩, hrun, h⟩ := (Option.any_eq_true _ _).mp hrun
  simp only [Bool.and_eq_true, beq_iff_eq] at h
  obtain ⟨⟨hec, hvalue⟩, hbody⟩ := h
  have hten : bytes " " ++ toString 10 = bytes " 10" := by decide
  refine ⟨ec, r', _, hrun, hec, hvalue, hten ▸ decimalField_toString 10, ?_⟩
  rw [hbody]
  decide

end HTTPRequest

end AsioSamples
