import AsioSamples.Http.Truncation

/-!
# Http/Acceptance — the first lines that the two ends accept

Both ends read their first line with `>>`, so any white space separates its words.

* `statusLine_taken` — the request takes a version and a word that `std::stoul` takes for a number,
  with anything after them; what `std::stoul` leaves of the word is ignored.
* `requestLine_taken` — the service looks at three words of its line, and ignores the others.
-/

namespace AsioSamples

namespace HTTPRequest

/-! ## The status line -/

/-- A first line with a version, a code that fits in `unsigned int`, and anything behind it. -/
inductive FirstLine (w : ULong) : Bytes → ℕ → Prop
  | intro {words phrase : Bytes} {code : ℕ} (hwords : StatusWords w words code)
    (hend : ∀ c ∈ phrase.head?, isSpace c) (hline : cr ∉ words ++ phrase) (hfits : code < 2 ^ 32) :
    FirstLine w (words ++ phrase) code

/-- One blank, digits, and nothing or a blank and a reason phrase after them. -/
structure Strict (digits reason : Bytes) : Prop where
  digits_ne_nil : digits ≠ []
  isDigit_of_mem : ∀ d ∈ digits, isDigit d
  fits : decimalValue digits < 2 ^ 32
  blank_of_head : ∀ c ∈ reason.head?, c = 32
  cr_reason : cr ∉ reason

/-- The version, one blank, the digits and the reason. -/
def strictLine (digits reason : Bytes) : Bytes := bytes "HTTP/1.1 " ++ digits ++ reason

/-- `unsigned long` is at least as wide as `unsigned int`. -/
theorem le_max_of_lt (w : ULong) {n : ℕ} (h : n < 2 ^ 32) : n ≤ w.max := by
  cases w <;> simp only [ULong.max] <;> omega

/-- **A strict line is a first line**, with the value of its digits. -/
theorem Strict.firstLine {digits reason : Bytes} (h : Strict digits reason) (w : ULong) :
    FirstLine w (strictLine digits reason) (decimalValue digits) := by
  have hsolid : Solid digits := fun d hd => (isDigit_not_isSpace (h.isDigit_of_mem d hd)).1
  have hblank : Blank (bytes " ") := by unfold Blank; decide +kernel
  have hcode : stoul w digits = some (decimalValue digits) := by
    have hstoul := stoul_append w h.digits_ne_nil h.isDigit_of_mem (le_max_of_lt w h.fits) []
      (by simp)
    rwa [List.append_nil] at hstoul
  have hwords : StatusWords w ([] ++ bytes "HTTP/1.1" ++ bytes " " ++ digits)
      (decimalValue digits) := .intro (by simp [Blank]) hblank (by decide) hsolid hcode
  have hline : strictLine digits reason
      = [] ++ bytes "HTTP/1.1" ++ bytes " " ++ digits ++ reason := by
    have hlit : bytes "HTTP/1.1 " = [] ++ bytes "HTTP/1.1" ++ bytes " " := by decide
    rw [strictLine, hlit]
  have hcr : cr ∉ strictLine digits reason := by
    simp only [strictLine, List.mem_append, not_or]
    exact ⟨⟨by decide, fun hd => absurd (hsolid cr hd) (by decide)⟩, h.cr_reason⟩
  rw [hline] at hcr ⊢
  refine .intro hwords (fun c hc => ?_) hcr h.fits
  rw [h.blank_of_head c hc]
  decide

/-- The handler goes on to the headers, with that code, and leaves those bytes. -/
def GoesOn (out : HTTPRequest × Control) (code : ℕ) (left : Bytes) : Prop :=
  out.2 = .lock .readHeaders ∧ out.1.response.statusCode.toNat = code ∧
    out.1.response.responseBuf = left

/-- **The request goes on behind a first line.** -/
theorem FirstLine.goesOn {w : ULong} {line : Bytes} {code : ℕ} (h : FirstLine w line code)
    (r : HTTPRequest) (tail : Bytes) :
    GoesOn ((r.withResponseBuf (line ++ (crlf ++ tail))).onStatusLineReceived w .success) code
      tail := by
  cases h with
  | @intro words phrase code hwords hend hline hfits =>
    rw [List.mem_append, not_or] at hline
    have hstatus := StatusLine.intro lf tail hwords hline.2 hend
    have hbuf : words ++ phrase ++ (crlf ++ tail) = words ++ phrase ++ cr :: lf :: tail := rfl
    rw [hbuf, onStatusLineReceived_line r hstatus]
    exact ⟨rfl, UInt32.toNat_ofNat_of_lt' hfits, rfl⟩

/-- **Which status lines are taken.**  The request goes on only on a version and a number behind
it; it does so behind every first line, a strict one among them; and a response that it calls
invalid has kept its code and its message. -/
theorem statusLine_taken (w : ULong) (r : HTTPRequest) (buf : Bytes) :
    let out := (r.withResponseBuf buf).onStatusLineReceived w .success
    (out.2 = .lock .readHeaders ∧ (∃ left, StatusTaken w buf left) ∨
      out.2 = .finish .invalidResponse ∧ out.1.response.statusCode = r.response.statusCode ∧
        out.1.response.statusMessage = r.response.statusMessage) ∧
    (∀ line code tail, FirstLine w line code → buf = line ++ (crlf ++ tail) →
      GoesOn out code tail) ∧
    ∀ digits reason tail, Strict digits reason →
      buf = strictLine digits reason ++ (crlf ++ tail) → GoesOn out (decimalValue digits) tail := by
  refine ⟨?_, ?_, ?_⟩
  · rcases statusTaken_or w buf with ⟨left, htaken⟩ | hinvalid
    · obtain ⟨code, message, hhandler⟩ := htaken.handler r
      rw [hhandler]
      exact Or.inl ⟨rfl, left, htaken⟩
    · obtain ⟨left, hhandler⟩ := hinvalid r
      rw [hhandler]
      exact Or.inr ⟨rfl, rfl, rfl⟩
  · rintro line code tail hline rfl
    exact hline.goesOn r tail
  · rintro digits reason tail hstrict rfl
    exact (hstrict.firstLine w).goesOn r tail

theorem statusLine_taken_notFound :
    GoesOn (((create 1).withResponseBuf
      (bytes "HTTP/1.1 404 Not Found\r\nA: b")).onStatusLineReceived .bits32 .success)
      404 (bytes "A: b") := by
  have hstrict : Strict (bytes "404") (bytes " Not Found") :=
    ⟨by decide, by decide +kernel, by decide, by decide +kernel, by decide⟩
  have hvalue : decimalValue (bytes "404") = 404 := by decide
  rw [← hvalue]
  exact (statusLine_taken .bits32 (create 1) _).2.2 _ _ (bytes "A: b") hstrict (by decide +kernel)

/-- A tab will do where a blank is expected. -/
theorem statusLine_tab : GoesOn (((create 1).withResponseBuf
      (bytes "HTTP/1.1\t200 OK\r\n")).onStatusLineReceived .bits64 .success) 200 [] ∧
    ∀ digits reason, bytes "HTTP/1.1\t200 OK" ≠ strictLine digits reason := by
  have hblank : Blank (bytes "\t") := by unfold Blank; decide +kernel
  have hsolid : Solid (bytes "200") := by unfold Solid; decide +kernel
  have hwords : StatusWords .bits64 ([] ++ bytes "HTTP/1.1" ++ bytes "\t" ++ bytes "200") 200 :=
    .intro (by simp [Blank]) hblank (by decide) hsolid (by decide +kernel)
  have hline : FirstLine .bits64 ([] ++ bytes "HTTP/1.1" ++ bytes "\t" ++ bytes "200"
      ++ bytes " OK") 200 := .intro hwords (by decide +kernel) (by decide +kernel) (by decide)
  have hbuf : bytes "HTTP/1.1\t200 OK\r\n" = [] ++ bytes "HTTP/1.1" ++ bytes "\t" ++ bytes "200"
      ++ bytes " OK" ++ (crlf ++ []) := by decide +kernel
  rw [hbuf]
  refine ⟨hline.goesOn _ [], fun digits reason h => ?_⟩
  have htab : (bytes "HTTP/1.1\t200 OK").take 9 ≠ bytes "HTTP/1.1 " := by decide
  refine htab ((congrArg (List.take 9) h).trans ?_)
  rw [strictLine, List.append_assoc]
  exact List.take_left' (by decide)

end HTTPRequest

namespace HttpService

open IStream (words Yields)

/-! ## The request line -/

/-- The three words of a line that is taken. -/
def RequestWords (target line : Bytes) : Prop :=
  (words line).take 3 = [bytes "GET", target, bytes "HTTP/1.1"]

/-- A line is taken for its first word, its second, and its third. -/
theorem requestWords_iff {target line : Bytes} : RequestWords target line ↔
    (words line).head? = some (bytes "GET") ∧ (words line).tail.head? = some target ∧
      (words line).tail.tail.head? = some (bytes "HTTP/1.1") := by
  rw [RequestWords]
  rcases words line with _ | ⟨a, _ | ⟨b, _ | ⟨c, more⟩⟩⟩ <;> simp

/-- A default that is not looked for makes no difference. -/
theorem getD_ne_iff {word : Option Bytes} {text : Bytes} (htext : text ≠ []) :
    word.getD [] ≠ text ↔ word ≠ some text := by
  cases word with
  | none => simpa [eq_comm] using htext
  | some word => simp

/-- **The request-line handler, in terms of the words of its line.** -/
theorem onRequestLineReceived_words (os : Os) (s : HttpService) {line more : Bytes}
    (hline : cr ∉ line) (hbuf : s.request = line ++ cr :: more) :
    s.onRequestLineReceived os .success =
      let resource := (words line).tail.head?.getD s.requestedResource
      if (words line).head? ≠ some (bytes "GET") then
        sendResponse os { s with
          request := ({ rest := more } : IStream).get.rest, responseStatusCode := 501 }
      else if (words line).tail.tail.head? ≠ some (bytes "HTTP/1.1") then
        sendResponse os { s with
          request := ({ rest := more } : IStream).get.rest, requestedResource := resource
          responseStatusCode := 505 }
      else .ok ({ s with
        request := ({ rest := more } : IStream).get.rest, requestedResource := resource },
        .await .readHeaders) := by
  have h₁ := Yields.extract (s := { rest := line }) (.inr ⟨rfl, rfl⟩) []
  have h₂ := h₁.2.extract s.requestedResource
  have h₃ := h₂.2.extract []
  rw [onRequestLineReceived]
  simp only [ErrorCode.success_value, ne_eq, not_true_eq_false, if_false, hbuf,
    IStream.getline_append line more [] hline, h₁.1, h₂.1, h₃.1]
  have hget : ¬ (words line).head?.getD [] = bytes "GET" ↔
      ¬ (words line).head? = some (bytes "GET") := getD_ne_iff (by decide)
  have hversion : ¬ (words line).tail.tail.head?.getD [] = bytes "HTTP/1.1" ↔
      ¬ (words line).tail.tail.head? = some (bytes "HTTP/1.1") := getD_ne_iff (by decide)
  simp only [hget, hversion]

/-- A line with a third word has a second one. -/
theorem exists_target {line word : Bytes} (h : (words line).tail.tail.head? = some word) :
    ∃ target, (words line).tail.head? = some target := by
  cases htail : (words line).tail with
  | nil => simp [htail] at h
  | cons target more => exact ⟨target, rfl⟩

/-- The service goes on only with three words that it takes. -/
theorem requestWords_of_readHeaders {os : Os} {s s' : HttpService} {line more : Bytes}
    (hline : cr ∉ line) (hbuf : s.request = line ++ cr :: more)
    (h : s.onRequestLineReceived os .success = .ok (s', .await .readHeaders)) :
    RequestWords s'.requestedResource line := by
  have hsend : ∀ s₁, sendResponse os s₁ ≠ .ok (s', .await .readHeaders) := by
    intro s₁ hsent
    obtain ⟨-, _, _, -, hc, -⟩ := sendResponse_ok hsent
    cases hc
  rw [onRequestLineReceived_words os s hline hbuf] at h
  simp only at h
  split at h
  · exact absurd h (hsend _)
  split at h
  · exact absurd h (hsend _)
  next hget hversion =>
    cases h
    have hversion := not_not.mp hversion
    obtain ⟨target, htarget⟩ := exists_target hversion
    exact requestWords_iff.mpr ⟨not_not.mp hget, by rw [htarget]; rfl, hversion⟩

/-- With three words that it takes, the service goes on behind the byte after the `'\r'`. -/
theorem readHeaders_of_requestWords (os : Os) {s : HttpService} {line target tail : Bytes}
    {b : UInt8} (hline : cr ∉ line) (hbuf : s.request = line ++ cr :: b :: tail)
    (h : RequestWords target line) :
    s.onRequestLineReceived os .success
      = .ok ({ s with request := tail, requestedResource := target }, .await .readHeaders) := by
  obtain ⟨hget, htarget, hversion⟩ := requestWords_iff.mp h
  rw [onRequestLineReceived_words os s hline hbuf]
  simp only [hget, hversion, htarget, ne_eq, not_true_eq_false, if_false, Option.getD_some,
    IStream.get_cons]

/-- Any other line is answered at once. -/
theorem sendResponse_of_not_requestWords (os : Os) {s : HttpService} {line more : Bytes}
    (hline : cr ∉ line) (hbuf : s.request = line ++ cr :: more)
    (hno : ∀ target, ¬ RequestWords target line) :
    ∃ request resource, s.onRequestLineReceived os .success = sendResponse os { s with
      request := request, requestedResource := resource
      responseStatusCode := if (words line).head? = some (bytes "GET") then 505 else 501 } := by
  rw [onRequestLineReceived_words os s hline hbuf]
  by_cases hget : (words line).head? = some (bytes "GET")
  · have hversion : (words line).tail.tail.head? ≠ some (bytes "HTTP/1.1") := by
      intro hversion
      obtain ⟨target, htarget⟩ := exists_target hversion
      exact hno target (requestWords_iff.mpr ⟨hget, htarget, hversion⟩)
    simp only
    rw [if_neg (not_not.mpr hget), if_pos hversion, if_pos hget]
    exact ⟨_, _, rfl⟩
  · simp only
    rw [if_pos hget, if_neg hget]
    exact ⟨_, _, rfl⟩

/-- **Which request lines are taken.**  The line is what precedes the first `'\r'`.  The service
goes on only if its first three words are `GET`, the target and `HTTP/1.1`; if `'\n'` follows, it
goes on with every such line, and exactly the bytes behind the CRLF are left; and any other line is
answered with 505 if its first word is `GET`, and with 501 if not. -/
theorem requestLine_taken (os : Os) (s : HttpService) {line more : Bytes} (hline : cr ∉ line)
    (hbuf : s.request = line ++ cr :: more) :
    (∀ s', s.onRequestLineReceived os .success = .ok (s', .await .readHeaders) →
      RequestWords s'.requestedResource line) ∧
    (∀ target tail, more = lf :: tail → RequestWords target line →
      s.onRequestLineReceived os .success
        = .ok ({ s with request := tail, requestedResource := target }, .await .readHeaders)) ∧
    ((∀ target, ¬ RequestWords target line) → ∃ request resource,
      s.onRequestLineReceived os .success = sendResponse os { s with
        request := request, requestedResource := resource
        responseStatusCode := if (words line).head? = some (bytes "GET") then 505 else 501 }) := by
  refine ⟨fun s' h => ?_, ?_, fun hno => ?_⟩
  · exact requestWords_of_readHeaders hline hbuf h
  · rintro target tail rfl h
    exact readHeaders_of_requestWords os hline hbuf h
  · exact sendResponse_of_not_requestWords os hline hbuf hno

theorem requestLine_taken_manualHtml :
    ({ request := bytes "GET\t/manual.html  HTTP/1.1\r\nHost: a" } :
      HttpService).onRequestLineReceived (HTTPRequest.manualHtml []) .success
        = .ok ({ request := bytes "Host: a", requestedResource := bytes "/manual.html" },
            .await .readHeaders) := by
  have hline : cr ∉ bytes "GET\t/manual.html  HTTP/1.1" := by decide +kernel
  have hbuf : bytes "GET\t/manual.html  HTTP/1.1\r\nHost: a"
      = bytes "GET\t/manual.html  HTTP/1.1" ++ cr :: lf :: bytes "Host: a" := by decide +kernel
  have hwords : RequestWords (bytes "/manual.html") (bytes "GET\t/manual.html  HTTP/1.1") := by
    unfold RequestWords
    decide +kernel
  exact (requestLine_taken (HTTPRequest.manualHtml [])
    { request := bytes "GET\t/manual.html  HTTP/1.1\r\nHost: a" } hline hbuf).2.1 _ _ rfl hwords

/-- A line with a fourth word is taken. -/
theorem requestLine_four_words :
    words (bytes "GET /b HTTP/1.1 c") = [bytes "GET", bytes "/b", bytes "HTTP/1.1", bytes "c"] ∧
      ({ request := bytes "GET /b HTTP/1.1 c\r\n" } : HttpService).onRequestLineReceived
          (HTTPRequest.manualHtml []) .success
        = .ok ({ request := [], requestedResource := bytes "/b" }, .await .readHeaders) := by
  have hbuf : bytes "GET /b HTTP/1.1 c\r\n" = bytes "GET /b HTTP/1.1 c" ++ [cr, lf] := by
    decide +kernel
  refine ⟨by decide +kernel, ?_⟩
  rw [onRequestLineReceived_words (HTTPRequest.manualHtml [])
    { request := bytes "GET /b HTTP/1.1 c\r\n" } (by decide +kernel) hbuf]
  rfl

end HttpService

end AsioSamples
