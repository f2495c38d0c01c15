import AsioSamples.Http.Exchange

/-!
# Http/Verdict — which responses an `HTTPRequest` judges alike under every cut

`on_status_line_received` extracts from `m_response_buf` itself, where read-ahead follows the line
that was asked for, so a line without a version and a number is judged by what came with it.  The
header loop drops one byte after each `'\r'`; out of step with the line ends, it runs past the blank
line and into the read-ahead.  `verdict_congr_iff` says which streams are out of reach of both, and
`cutFree_response` that well-formed responses are.
-/

namespace AsioSamples

namespace HTTPRequest

/-! ## The words of a status line -/

/-- White space alone. -/
def Blank (ws : Bytes) : Prop := ∀ c ∈ ws, isSpace c

/-- A word, or a piece of one. -/
def Solid (word : Bytes) : Prop := ∀ c ∈ word, isSpace c = false

/-- The version and, last of all, a word that `stoul` takes for `code`. -/
inductive StatusWords (w : ULong) : Bytes → ℕ → Prop
  | intro {ws ws' word : Bytes} {code : ℕ} (hws : Blank ws) (hws' : Blank ws') (hsep : ws' ≠ [])
    (hword : Solid word) (hcode : stoul w word = some code) :
    StatusWords w (ws ++ bytes "HTTP/1.1" ++ ws' ++ word) code

/-- A status line up to its first `'\r'` after the number, one byte more, and what is left. -/
inductive StatusLine (w : ULong) : Bytes → ℕ → Bytes → Bytes → Prop
  | intro {words phrase : Bytes} {code : ℕ} (b : UInt8) (left : Bytes)
    (hwords : StatusWords w words code) (hphrase : cr ∉ phrase)
    (hend : ∀ c ∈ phrase.head?, isSpace c) :
    StatusLine w (words ++ phrase ++ cr :: b :: left) code phrase left

/-- The text ends before its words do: white space and one word at most, or the version and at most
one word more, no beginning of which is a number. -/
def Unfinished (w : ULong) (buf : Bytes) : Prop :=
  (∃ ws word, buf = ws ++ word ∧ Blank ws ∧ Solid word) ∨
    ∃ ws ws' word, buf = ws ++ bytes "HTTP/1.1" ++ ws' ++ word ∧ Blank ws ∧ Blank ws' ∧
      Solid word ∧ ∀ start, start <+: word → stoul w start = none

/-- A whole word is wrong, and `left` follows it. -/
inductive Misread (w : ULong) : Bytes → Bytes → Prop
  | version {ws word : Bytes} {b : UInt8} (tail : Bytes) (hws : Blank ws) (hword : Solid word)
    (hne : word ≠ []) (hwrong : word ≠ bytes "HTTP/1.1") (hb : isSpace b) :
    Misread w (ws ++ word ++ b :: tail) (b :: tail)
  | code {ws ws' word : Bytes} {b : UInt8} (tail : Bytes) (hws : Blank ws) (hws' : Blank ws')
    (hsep : ws' ≠ []) (hword : Solid word) (hne : word ≠ []) (hwrong : stoul w word = none)
    (hb : isSpace b) :
    Misread w (ws ++ bytes "HTTP/1.1" ++ ws' ++ word ++ b :: tail) (b :: tail)

/-- How a buffer may begin. -/
inductive Opening (w : ULong) (buf : Bytes) : Prop
  | unfinished (h : Unfinished w buf)
  | misread {left : Bytes} (h : Misread w buf left)
  | status {words tail : Bytes} {code : ℕ} {b : UInt8} (h : StatusWords w words code)
    (heq : buf = words ++ b :: tail) (hb : isSpace b)
  /-- A word starts with a number, and the buffer ends with that word. -/
  | number {words more : Bytes} {code : ℕ} (h : StatusWords w words code)
    (heq : buf = words ++ more) (hmore : Solid more)

variable {w : ULong}

theorem solid_version : Solid (bytes "HTTP/1.1") := by
  unfold Solid
  decide +kernel

/-- **Every buffer begins in one of these ways.** -/
theorem opening (w : ULong) (buf : Bytes) : Opening w buf := by
  rcases IStream.token_cases buf with ⟨ws, word, rfl, hws, hword⟩ |
    ⟨ws, word, b, tail, rfl, hws, hword, hne, hb⟩
  · exact .unfinished (.inl ⟨ws, word, rfl, hws, hword⟩)
  by_cases hversion : word = bytes "HTTP/1.1"
  case neg => exact .misread (.version tail hws hword hne hversion hb)
  subst hversion
  -- the white space after the version goes with that before the second word
  rcases IStream.token_cases tail with ⟨ws', word, rfl, hws', hword'⟩ |
    ⟨ws', word, b', tail, rfl, hws', hword', hne', hb'⟩
  · have hsep : Blank (b :: ws') := List.forall_mem_cons.mpr ⟨hb, hws'⟩
    by_cases hall : ∀ start, start <+: word → stoul w start = none
    · exact .unfinished (.inr ⟨ws, b :: ws', word, by simp, hws, hsep, hword', hall⟩)
    · push Not at hall
      obtain ⟨start, ⟨more, rfl⟩, hcode⟩ := hall
      obtain ⟨code, hcode⟩ := Option.ne_none_iff_exists'.mp hcode
      have hstart : Solid start := fun c hc => hword' c (List.mem_append_left _ hc)
      exact .number (.intro hws hsep (by simp) hstart hcode) (by simp)
        fun c hc => hword' c (List.mem_append_right _ hc)
  · have hsep : Blank (b :: ws') := List.forall_mem_cons.mpr ⟨hb, hws'⟩
    have hbuf : ws ++ bytes "HTTP/1.1" ++ b :: (ws' ++ word ++ b' :: tail)
        = ws ++ bytes "HTTP/1.1" ++ (b :: ws') ++ word ++ b' :: tail := by simp
    rw [hbuf]
    cases hcode : stoul w word with
    | none => exact .misread (.code tail hws hsep (by simp) hword' hne' hcode hb')
    | some code => exact .status (.intro hws hsep (by simp) hword' hcode) rfl hb'

/-- What is misread in a line is misread in every longer buffer. -/
theorem Misread.append {buf left : Bytes} (h : Misread w buf left) (more : Bytes) :
    Misread w (buf ++ more) (left ++ more) := by
  cases h with
  | version tail hws hword hne hwrong hb =>
    rw [List.append_assoc]
    exact .version (tail ++ more) hws hword hne hwrong hb
  | code tail hws hws' hsep hword hne hwrong hb =>
    rw [List.append_assoc]
    exact .code (tail ++ more) hws hws' hsep hword hne hwrong hb

theorem Misread.left_ne_nil {buf left : Bytes} (h : Misread w buf left) : left ≠ [] := by
  cases h <;> simp

theorem StatusLine.append {line phrase left : Bytes} {code : ℕ}
    (h : StatusLine w line code phrase left) (more : Bytes) :
    StatusLine w (line ++ more) code phrase (left ++ more) := by
  cases h with
  | intro b left hwords hphrase hend =>
    rw [List.append_assoc]
    exact .intro b (left ++ more) hwords hphrase hend

theorem StatusLine.suffix {line phrase left : Bytes} {code : ℕ}
    (h : StatusLine w line code phrase left) : left <:+ line := by
  cases h with
  | @intro words _ _ b _ _ _ _ => exact ⟨words ++ phrase ++ [cr, b], by simp⟩

/-- What starts two pieces starts the first, or is the first and a start of the second. -/
theorem start_of_append {buf u v : Bytes} (h : buf <+: u ++ v) :
    buf <+: u ∨ ∃ start, start <+: v ∧ buf = u ++ start := by
  obtain ⟨rest, hrest⟩ := h
  rcases List.append_eq_append_iff.mp hrest with ⟨more, hu, -⟩ | ⟨start, hbuf, hv⟩
  · exact Or.inl ⟨more, hu.symm⟩
  · exact Or.inr ⟨start, ⟨rest, hv.symm⟩, hbuf⟩

theorem Blank.of_prefix {ws ws' : Bytes} (h : Blank ws) (hws : ws' <+: ws) : Blank ws' :=
  fun c hc => h c (hws.subset hc)

theorem Solid.of_prefix {word word' : Bytes} (h : Solid word) (hword : word' <+: word) :
    Solid word' := fun c hc => h c (hword.subset hc)

/-- **What is unfinished was so all along.** -/
theorem Unfinished.of_prefix {buf buf' : Bytes} (h : Unfinished w buf) (hbuf : buf' <+: buf) :
    Unfinished w buf' := by
  rcases h with ⟨ws, word, rfl, hws, hword⟩ | ⟨ws, ws', word, rfl, hws, hws', hword, hall⟩
  · rcases start_of_append hbuf with hbuf | ⟨word', hword', rfl⟩
    · exact .inl ⟨buf', [], (List.append_nil _).symm, hws.of_prefix hbuf, by simp [Solid]⟩
    · exact .inl ⟨ws, word', rfl, hws, hword.of_prefix hword'⟩
  · rcases start_of_append hbuf with hbuf | ⟨word', hword', rfl⟩
    · rcases start_of_append hbuf with hbuf | ⟨sep, hsep, rfl⟩
      · rcases start_of_append hbuf with hbuf | ⟨version, hversion, rfl⟩
        · exact .inl ⟨buf', [], (List.append_nil _).symm, hws.of_prefix hbuf, by simp [Solid]⟩
        · exact .inl ⟨ws, version, rfl, hws, solid_version.of_prefix hversion⟩
      · refine .inr ⟨ws, sep, [], by simp, hws, hws'.of_prefix hsep, by simp [Solid], ?_⟩
        rintro start hstart
        rw [List.prefix_nil.mp hstart, stoul_nil]
    · exact .inr ⟨ws, ws', word', rfl, hws, hws', hword.of_prefix hword',
        fun start hstart => hall start (hstart.trans hword')⟩

/-! ## What the status handler makes of them -/

/-- The request with the code and the message of a status line. -/
def withStatus (r : HTTPRequest) (code : ℕ) (message : Bytes) : HTTPRequest :=
  { r with response := { r.response with
      statusCode := UInt32.ofNat code, statusMessage := message } }

/-- White space ends the version. -/
theorem extract_version {ws ws' : Bytes} (hws : Blank ws) (hws' : Blank ws') (hsep : ws' ≠ [])
    (rest : Bytes) : ({ rest := ws ++ bytes "HTTP/1.1" ++ ws' ++ rest } : IStream).extract []
      = (bytes "HTTP/1.1", { rest := ws' ++ rest }) := by
  obtain ⟨b, ws', rfl⟩ := List.exists_cons_of_ne_nil hsep
  have h := IStream.extract_append ws (bytes "HTTP/1.1") b (ws' ++ rest) [] hws solid_version
    (by decide) (hws' b (by simp))
  rw [← List.cons_append, ← List.append_assoc] at h
  exact h

/-- A word that the buffer ends with, if it is there at all. -/
theorem extract_rest {ws word : Bytes} (hws : Blank ws) (hword : Solid word) :
    ∃ failbit, ({ rest := ws ++ word } : IStream).extract []
      = (word, { rest := [], eofbit := true, failbit }) := by
  by_cases hne : word = []
  · subst hne
    exact ⟨true, by rw [List.append_nil]; exact IStream.extract_blank ws [] hws⟩
  · exact ⟨false, IStream.extract_last ws word [] hws hword hne⟩

/-- **A buffer that ends with a word that is no number** is an invalid response. -/
theorem onStatusLineReceived_lastWord (r : HTTPRequest) {ws ws' word : Bytes} (hws : Blank ws)
    (hws' : Blank ws') (hsep : ws' ≠ []) (hword : Solid word) (hcode : stoul w word = none) :
    (r.withResponseBuf (ws ++ bytes "HTTP/1.1" ++ ws' ++ word)).onStatusLineReceived w .success
      = (r.withResponseBuf [], .finish .invalidResponse) := by
  obtain ⟨failbit, hget⟩ := extract_rest hws' hword
  simp only [onStatusLineReceived, ErrorCode.success_value, ne_eq, not_true_eq_false, if_false,
    withResponseBuf, extract_version hws hws' hsep, hget, hcode]

/-- **An unfinished line is an invalid response**, and nothing is left of it. -/
theorem onStatusLineReceived_unfinished (r : HTTPRequest) {buf : Bytes} (h : Unfinished w buf) :
    (r.withResponseBuf buf).onStatusLineReceived w .success
      = (r.withResponseBuf [], .finish .invalidResponse) := by
  have hword : ∀ ws word, Blank ws → Solid word →
      (r.withResponseBuf (ws ++ word)).onStatusLineReceived w .success
        = (r.withResponseBuf [], .finish .invalidResponse) := by
    intro ws word hws hword
    obtain ⟨failbit, hget⟩ := extract_rest hws hword
    have hagain : ({ rest := [], eofbit := true, failbit } : IStream).good = false := rfl
    simp only [onStatusLineReceived, ErrorCode.success_value, ne_eq, not_true_eq_false, if_false,
      withResponseBuf, hget, IStream.extract_of_not_good hagain, stoul_nil, ite_self]
  rcases h with ⟨ws, word, rfl, hws, hsolid⟩ | ⟨ws, ws', word, rfl, hws, hws', hsolid, hall⟩
  · exact hword ws word hws hsolid
  · by_cases hsep : ws' = []
    · subst hsep
      rw [List.append_nil, List.append_assoc]
      exact hword ws _ hws (List.forall_mem_append.mpr ⟨solid_version, hsolid⟩)
    · exact onStatusLineReceived_lastWord r hws hws' hsep hsolid (hall word (List.prefix_refl word))

/-- **A misread line is an invalid response**, and what follows the wrong word stays. -/
theorem onStatusLineReceived_misread (r : HTTPRequest) {buf left : Bytes} (h : Misread w buf left) :
    (r.withResponseBuf buf).onStatusLineReceived w .success
      = (r.withResponseBuf left, .finish .invalidResponse) := by
  cases h with
  | version tail hws hword hne hwrong hb =>
    have hget := IStream.extract_append _ _ _ tail [] hws hword hne hb
    simp only [onStatusLineReceived, ErrorCode.success_value, ne_eq, not_true_eq_false, if_false,
      withResponseBuf, hget, hwrong, not_false_eq_true, if_true]
  | code tail hws hws' hsep hword hne hwrong hb =>
    have hget := IStream.extract_append _ _ _ tail [] hws' hword hne hb
    have hversion := extract_version hws hws' hsep
    simp only [List.append_assoc] at hget hversion ⊢
    simp only [onStatusLineReceived, ErrorCode.success_value, ne_eq, not_true_eq_false, if_false,
      withResponseBuf, hversion, hget, hwrong]

/-- **A version and a number are accepted**, and the message is what `getline` finds next. -/
theorem onStatusLineReceived_words (r : HTTPRequest) {words : Bytes} {code : ℕ}
    (h : StatusWords w words code) {more : Bytes} (hmore : ∀ c ∈ more.head?, isSpace c) :
    let line := ({ rest := more, eofbit := more.isEmpty } : IStream).getline cr []
    (r.withResponseBuf (words ++ more)).onStatusLineReceived w .success
      = ((r.withStatus code line.1).withResponseBuf line.2.get.rest, .lock .readHeaders) := by
  cases h with
  | @intro ws ws' word code hws hws' hsep hword hcode =>
    have hversion := extract_version hws hws' hsep (word ++ more)
    have hne : word ≠ [] := by
      rintro rfl
      cases hcode
    have hget : ({ rest := ws' ++ (word ++ more) } : IStream).extract []
        = (word, { rest := more, eofbit := more.isEmpty }) := by
      cases more with
      | nil =>
        rw [List.append_nil]
        exact IStream.extract_last ws' word [] hws' hword hne
      | cons b tail =>
        rw [← List.append_assoc]
        exact IStream.extract_append ws' word b tail [] hws' hword hne (hmore b rfl)
    simp only [List.append_assoc] at hversion ⊢
    simp only [onStatusLineReceived, ErrorCode.success_value, ne_eq, not_true_eq_false, if_false,
      withResponseBuf, hversion, hget, hcode]
    rfl

/-- **A status line is taken, with one byte more.** -/
theorem onStatusLineReceived_line (r : HTTPRequest) {line phrase left : Bytes} {code : ℕ}
    (h : StatusLine w line code phrase left) :
    (r.withResponseBuf line).onStatusLineReceived w .success
      = ((r.withStatus code phrase).withResponseBuf left, .lock .readHeaders) := by
  cases h with
  | @intro words phrase code b left hwords hphrase hend =>
    have hmore : ∀ c ∈ (phrase ++ cr :: b :: left).head?, isSpace c := by
      cases phrase with
      | nil => simp; decide
      | cons c phrase => simpa using hend
    have hempty : (phrase ++ cr :: b :: left).isEmpty = false := by simp
    have h := onStatusLineReceived_words r hwords hmore
    rw [hempty, IStream.getline_append phrase (b :: left) [] hphrase] at h
    rw [List.append_assoc]
    exact h

/-! ## The lines of a header block -/

/-- Header lines as the loop takes them: each up to its `'\r'`, with the byte after that. -/
def headerText (lines : List (Bytes × UInt8)) : Bytes :=
  lines.flatMap fun line => line.1 ++ [cr, line.2]

/-- None of them is blank. -/
def HeaderLines (lines : List (Bytes × UInt8)) : Prop := ∀ line ∈ lines, cr ∉ line.1 ∧ line.1 ≠ []

/-- The response with those lines added. -/
def addHeaderLines (response : HTTPResponse) (lines : List (Bytes × UInt8)) : HTTPResponse :=
  lines.foldl (fun response line => addHeaderLine response line.1) response

/-- There is a blank line where the loop looks for one. -/
def HasBlankLine (text : Bytes) : Prop :=
  ∃ lines b left, HeaderLines lines ∧ text = headerText lines ++ cr :: b :: left

/-- **The loop on header lines** adds them, and goes on after them. -/
theorem leaves_headerText_iff {lines : List (Bytes × UInt8)} (hlines : HeaderLines lines)
    (more header : Bytes) (response : HTTPResponse) : ∃ header', ∀ l,
      Leaves headerPass { responseStream := { rest := headerText lines ++ more },
                          header, response } l
        ↔ Leaves headerPass { responseStream := { rest := more }, header := header',
                              response := addHeaderLines response lines } l := by
  induction lines generalizing header response with
  | nil => exact ⟨header, fun l => Iff.rfl⟩
  | cons line lines ih =>
    obtain ⟨⟨hcr, hne⟩, hlines⟩ := List.forall_mem_cons.mp hlines
    obtain ⟨header', hrest⟩ := ih hlines line.1 (addHeaderLine response line.1)
    have htext : headerText (line :: lines) ++ more
        = line.1 ++ cr :: line.2 :: (headerText lines ++ more) := by simp [headerText]
    refine ⟨header', fun l => ?_⟩
    rw [htext, leaves_again_iff (headerPass_line hcr hne line.2 _ header response)]
    exact hrest l

/-- **The loop leaves at a blank line**, whatever follows it. -/
theorem HasBlankLine.leaves {text : Bytes} (h : HasBlankLine text) : ∃ lines left,
    ∀ more header response,
      Leaves headerPass { responseStream := { rest := text ++ more }, header, response }
        { responseStream := { rest := left ++ more }, header := [],
          response := addHeaderLines response lines } := by
  obtain ⟨lines, b, left, hlines, rfl⟩ := h
  refine ⟨lines, left, fun more header response => ?_⟩
  obtain ⟨header', hrest⟩ :=
    leaves_headerText_iff hlines (cr :: b :: (left ++ more)) header response
  rw [List.append_assoc]
  exact (hrest _).mpr (leaves_of_leave (headerPass_blank b (left ++ more) header' _))

/-- **A loop that finds bytes takes one.** -/
theorem length_lt_of_leaves {more header : Bytes} (hne : more ≠ []) {response : HTTPResponse}
    {l : HeaderLoop}
    (h : Leaves headerPass { responseStream := { rest := more }, header, response } l) :
    l.responseStream.rest.length < more.length := by
  have hpass : ∀ l l' : HeaderLoop, headerPass l = .inl l' ∨ headerPass l = .inr l' →
      l'.responseStream = (l.responseStream.getline cr l.header).2.get := by
    intro l l' hl
    unfold headerPass at hl
    simp only at hl
    split at hl <;> (rcases hl with hl | hl <;> cases hl; rfl)
  -- a loop that has made a pass has less to read than at first
  have hstep : ∀ s l' : HeaderLoop,
      (s = { responseStream := { rest := more }, header, response } ∨
        s.responseStream.rest.length < more.length) →
      headerPass s = .inl l' ∨ headerPass s = .inr l' →
        l'.responseStream.rest.length < more.length := by
    intro s l' hs hl
    rw [hpass s l' hl]
    refine (IStream.length_get_le _).trans_lt ?_
    rcases hs with rfl | hlt
    · exact (IStream.length_getline _ cr header).2 rfl hne
    · exact (IStream.length_getline _ cr s.header).1.trans_lt hlt
  exact h.invariant (Or.inl rfl) (fun s l' hs hl => Or.inr (hstep s l' hs (Or.inl hl)))
    fun s l' hs hl => hstep s l' hs (Or.inr hl)

/-- **Header lines alone** leave the buffer empty, and that is a blank line too. -/
theorem leaves_headerText {lines : List (Bytes × UInt8)} (hlines : HeaderLines lines)
    (header : Bytes) (response : HTTPResponse) : ∃ l,
      Leaves headerPass { responseStream := { rest := headerText lines }, header, response } l ∧
        l.responseStream.rest = [] := by
  obtain ⟨header', hlone⟩ := leaves_headerText_iff hlines [] header response
  rw [List.append_nil] at hlone
  exact ⟨{ responseStream := { rest := [], eofbit := true, failbit := true }, header := [],
           response := addHeaderLines response lines },
    (hlone _).mpr (leaves_of_leave rfl), rfl⟩

/-- **The loop in step with the end of a block, or past it**: a text that ends with an empty line is
header lines only, or it has a blank line. -/
theorem hasBlankLine_or (pre : Bytes) : HasBlankLine (pre ++ lf :: crlf) ∨
    ∃ lines, HeaderLines lines ∧ pre ++ lf :: crlf = headerText lines := by
  by_cases hcr : cr ∈ pre
  case neg =>
    refine .inr ⟨[(pre ++ [lf], lf)], ?_, by simp [headerText, crlf]⟩
    simp only [HeaderLines, List.mem_singleton, forall_eq, List.mem_append, not_or]
    exact ⟨⟨hcr, by decide⟩, by simp⟩
  obtain ⟨line, rest, hpre, hline⟩ := List.eq_append_cons_of_mem hcr
  by_cases hne : line = []
  · -- an empty line, and the byte after its `'\r'`
    obtain ⟨b, left, hleft⟩ := List.exists_cons_of_ne_nil (l := rest ++ lf :: crlf) (by simp)
    refine .inl ⟨[], b, left, by simp [HeaderLines], ?_⟩
    rw [hpre, hne, ← hleft]
    simp [headerText]
  cases rest with
  | nil =>
    refine .inl ⟨[(line, lf)], lf, [], by simpa [HeaderLines] using ⟨hline, hne⟩, ?_⟩
    rw [hpre]
    simp [headerText, crlf]
  | cons b rest =>
    have htext : pre ++ lf :: crlf = line ++ cr :: b :: (rest ++ lf :: crlf) := by simp [hpre]
    have hshort : rest.length < pre.length := by
      rw [hpre, List.length_append, List.length_cons, List.length_cons]
      omega
    rcases hasBlankLine_or rest with ⟨lines, b', left, hlines, h⟩ | ⟨lines, hlines, h⟩
    · refine .inl ⟨(line, b) :: lines, b', left,
        List.forall_mem_cons.mpr ⟨⟨hline, hne⟩, hlines⟩, ?_⟩
      rw [htext, h]
      simp [headerText]
    · refine .inr ⟨(line, b) :: lines, List.forall_mem_cons.mpr ⟨⟨hline, hne⟩, hlines⟩, ?_⟩
      rw [htext, h]
      simp [headerText]
termination_by pre.length

/-! ## The header stage -/

/-- What comes up to the first `"\r\n\r\n"` has a blank line for the loop, or is all there is. -/
def HeadersClosed (stream : Bytes) : Prop :=
  ∀ pre tail, FirstAt crlfcrlf stream pre tail → tail = [] ∨ HasBlankLine (pre ++ crlfcrlf)

theorem headersClosed_of_missing {stream : Bytes} (h : ¬ crlfcrlf <:+: stream) :
    HeadersClosed stream := fun _ _ hfirst => absurd hfirst.found h

theorem addHeaderLines_responseBuf (response : HTTPResponse) (lines : List (Bytes × UInt8))
    (buf buf' : Bytes) :
    { addHeaderLines { response with responseBuf := buf } lines with responseBuf := buf' }
      = { addHeaderLines response lines with responseBuf := buf' } := by
  induction lines generalizing response with
  | nil => rfl
  | cons line lines ih =>
    have hline : addHeaderLine { response with responseBuf := buf } line.1
        = { addHeaderLine response line.1 with responseBuf := buf } := by
      unfold addHeaderLine
      split <;> rfl
    have hcons : ∀ response, addHeaderLines response (line :: lines)
        = addHeaderLines (addHeaderLine response line.1) lines := fun _ => rfl
    rw [hcons, hcons, hline, ih]

/-- What the callback is given when the loop has left and `behind` is still to be received. -/
def delivered (r : HTTPRequest) (behind : Bytes) (l : HeaderLoop) : ErrorCode × HTTPRequest :=
  (.success, { r with response :=
    { l.response with responseBuf := l.responseStream.rest ++ behind } })

section Stages

variable (w : ULong) (shutdown : ErrorCode) (answer : Bytes → List Bytes)

/-- **The header stage, once its read has succeeded**: the loop ends and the rest is delivered, or
the loop does not end. -/
theorem runFrom_readHeaders_eq (r : HTTPRequest) {buf received : Bytes} {rest rest' : List Bytes}
    (hread : readUntil none crlfcrlf buf rest = ⟨.success, received, rest'⟩) :
    runFrom w shutdown answer 2 (r.withResponseBuf buf) .readHeaders rest
      = (loop headerPass ((buf ++ received).length + 1)
          (r.withResponseBuf (buf ++ received)).headerLoop).map (r.delivered rest'.flatten) := by
  have hbuf : (r.withResponseBuf buf).response.responseBuf = buf := rfl
  have hfill : (r.withResponseBuf buf).withResponseBuf (buf ++ received)
      = r.withResponseBuf (buf ++ received) := rfl
  have hfilled : (r.withResponseBuf (buf ++ received)).response.responseBuf = buf ++ received := rfl
  rw [runFrom]
  simp only [complete, handle, hbuf, hread, hfill, onHeadersReceived, hfilled,
    ErrorCode.success_value, ne_eq, not_true_eq_false, if_false]
  cases loop headerPass ((buf ++ received).length + 1)
      (r.withResponseBuf (buf ++ received)).headerLoop with
  | none => rfl
  | some l =>
    simp only [Option.map_some]
    rw [runFrom_readBody]
    rfl

/-- **A handler that never returns** is the one way to end with nothing. -/
theorem runFrom_readHeaders_eq_none_iff (r : HTTPRequest) {buf received : Bytes}
    {rest rest' : List Bytes}
    (hread : readUntil none crlfcrlf buf rest = ⟨.success, received, rest'⟩) :
    runFrom w shutdown answer 2 (r.withResponseBuf buf) .readHeaders rest = none
      ↔ ∀ l, ¬ Leaves headerPass (r.withResponseBuf (buf ++ received)).headerLoop l := by
  rw [runFrom_readHeaders_eq w shutdown answer r hread, Option.map_eq_none_iff,
    Option.eq_none_iff_forall_ne_some]
  exact forall_congr' fun l => not_congr (leaves_headerPass_iff _ l).symm

/-- The same for a stream cut anywhere after its first `"\r\n\r\n"`. -/
theorem runFrom_readHeaders_first {stream pre tail : Bytes}
    (hfirst : FirstAt crlfcrlf stream pre tail) (r : HTTPRequest) {buf : Bytes} {rest : List Bytes}
    (hstream : buf ++ rest.flatten = stream) : ∃ ahead behind, ahead ++ behind = tail ∧
      runFrom w shutdown answer 2 (r.withResponseBuf buf) .readHeaders rest
        = (loop headerPass ((pre ++ crlfcrlf ++ ahead).length + 1)
            (r.withResponseBuf (pre ++ crlfcrlf ++ ahead)).headerLoop).map
          (r.delivered behind) := by
  obtain ⟨ahead, hec, hahead, htail⟩ := hfirst.exists_readUntil hstream (fits_none _) (fits_none _)
  refine ⟨ahead, _, htail, ?_⟩
  rw [runFrom_readHeaders_eq w shutdown answer r
    (show readUntil none crlfcrlf buf rest = ⟨.success, _, _⟩ by rw [← hec]), hahead]

/-- The header stage does not call a response invalid. -/
theorem ne_invalidResponse_of_readHeaders {r : HTTPRequest} {rest : List Bytes}
    {o : ErrorCode × HTTPRequest}
    (h : runFrom w shutdown answer 2 r .readHeaders rest = some o) : o.1 ≠ .invalidResponse := by
  by_cases hmem : crlfcrlf <:+: r.response.responseBuf ++ rest.flatten
  · obtain ⟨pre, tail, hfirst⟩ := exists_firstAt hmem
    obtain ⟨ahead, behind, -, hrun⟩ := runFrom_readHeaders_first w shutdown answer hfirst r rfl
    obtain ⟨l, -, rfl⟩ := Option.map_eq_some_iff.mp (hrun.symm.trans h)
    exact (by decide : ErrorCode.success ≠ .invalidResponse)
  · rw [runFrom_readHeaders_eof w shutdown answer 1 hmem] at h
    cases h
    exact (by decide : ErrorCode.eof ≠ .invalidResponse)

/-- **A closed header block** ends the request in one way, whatever is in the buffer. -/
theorem HeadersClosed.exists_outcome {stream : Bytes} (h : HeadersClosed stream) (r : HTTPRequest) :
    ∃ outcome, ∀ answer buf rest, buf ++ rest.flatten = stream →
      runFrom w shutdown answer 2 (r.withResponseBuf buf) .readHeaders rest = outcome := by
  by_cases hmem : crlfcrlf <:+: stream
  case neg =>
    refine ⟨some (.eof, r.withResponseBuf stream), fun answer buf rest hstream => ?_⟩
    rw [runFrom_readHeaders_eof w shutdown answer 1 (by rw [← hstream] at hmem; exact hmem)]
    exact congrArg (fun b => some (ErrorCode.eof, r.withResponseBuf b)) hstream
  obtain ⟨pre, tail, hfirst⟩ := exists_firstAt hmem
  rcases h pre tail hfirst with rfl | hblank
  · refine ⟨(loop headerPass ((pre ++ crlfcrlf ++ []).length + 1)
      (r.withResponseBuf (pre ++ crlfcrlf ++ [])).headerLoop).map (r.delivered []),
      fun answer buf rest hstream => ?_⟩
    obtain ⟨ahead, behind, hnil, hrun⟩ :=
      runFrom_readHeaders_first w shutdown answer hfirst r hstream
    obtain ⟨rfl, rfl⟩ := List.append_eq_nil_iff.mp hnil
    exact hrun
  · obtain ⟨lines, left, hleaves⟩ := hblank.leaves
    refine ⟨some (.success, { r with response :=
      { addHeaderLines r.response lines with responseBuf := left ++ tail } }),
      fun answer buf rest hstream => ?_⟩
    obtain ⟨ahead, behind, rfl, hrun⟩ :=
      runFrom_readHeaders_first w shutdown answer hfirst r hstream
    have hloop := (leaves_headerPass_iff (r.withResponseBuf (pre ++ crlfcrlf ++ ahead)) _).mp
      (hleaves ahead [] _)
    rw [hrun]
    refine (congrArg (Option.map (r.delivered behind)) hloop).trans ?_
    simp only [Option.map_some, delivered, withResponseBuf, addHeaderLines_responseBuf,
      List.append_assoc]

/-- **An open header block** ends the request in two ways: with nothing beyond it in the buffer, and
with all the rest. -/
theorem headersClosed_of_eq {stream : Bytes} {r : HTTPRequest}
    (h : ∀ pre tail, FirstAt crlfcrlf stream pre tail → tail ≠ [] → ∃ answer answer',
      (runFrom w shutdown answer 2 (r.withResponseBuf (pre ++ crlfcrlf)) .readHeaders
          (Segmentation.whole.cut tail)).map (·.2.response.responseBuf)
        = (runFrom w shutdown answer' 2 (r.withResponseBuf stream) .readHeaders []).map
            (·.2.response.responseBuf)) : HeadersClosed stream := by
  intro pre tail hfirst
  by_contra hopen
  obtain ⟨hne, hblank⟩ := not_or.mp hopen
  have hpre : pre ++ crlfcrlf = (pre ++ [cr]) ++ lf :: crlf := by simp [crlfcrlf, crlf]
  obtain ⟨lines, hlines, htext⟩ := (hasBlankLine_or (pre ++ [cr])).resolve_left (hpre ▸ hblank)
  rw [← hpre] at htext
  have hdelim : crlfcrlf <:+: pre ++ crlfcrlf := (List.suffix_append _ _).isInfix
  obtain ⟨answer, answer', heq⟩ := h pre tail hfirst hne
  rw [runFrom_readHeaders_eq w shutdown answer r (readUntil_of_found none hdelim _),
    runFrom_readHeaders_eq w shutdown answer' r (readUntil_of_found none hfirst.found _),
    List.append_nil, List.append_nil, Segmentation.whole.flatten_cut, hfirst.eq, htext] at heq
  -- the lines alone: the loop finds the buffer empty, and leaves
  obtain ⟨l, hlone, hempty⟩ := leaves_headerText hlines []
    (r.withResponseBuf (headerText lines)).response
  have hlone := (leaves_headerPass_iff (r.withResponseBuf (headerText lines)) l).mp hlone
  have htail : some tail = Option.map (fun l => l.responseStream.rest)
      (loop headerPass ((headerText lines ++ tail).length + 1)
        (r.withResponseBuf (headerText lines ++ tail)).headerLoop) := by
    have hleft := congrArg (Option.map fun o => o.2.response.responseBuf)
      (congrArg (Option.map (r.delivered tail)) hlone)
    have heq := hleft.symm.trans heq
    simpa [delivered, hempty, Function.comp_def] using heq
  -- with the rest behind them it takes a byte of that
  obtain ⟨l', hl', htail⟩ := Option.map_eq_some_iff.mp htail.symm
  obtain ⟨header', hall⟩ := leaves_headerText_iff hlines tail []
    (r.withResponseBuf (headerText lines ++ tail)).response
  have hlt := length_lt_of_leaves hne ((hall l').mp ⟨_, hl'⟩)
  rw [htail] at hlt
  exact lt_irrefl _ hlt

/-! ## The status stage -/

/-- What becomes of a request after a handler. -/
def resume (n : ℕ) (rest : List Bytes) : HTTPRequest × Control → Option (ErrorCode × HTTPRequest)
  | (r, .lock op) => runFrom w shutdown answer n r op rest
  | (r, .finish ec) => some (ec, r)
  | (_, .throws _) => none

/-- **The status stage, once its read has succeeded.** -/
theorem runFrom_readStatusLine_eq {r : HTTPRequest} (hbuf : r.response.responseBuf = [])
    {received : Bytes} {chunks rest : List Bytes}
    (hread : readUntil none crlf [] chunks = ⟨.success, received, rest⟩) :
    runFrom w shutdown answer 3 r .readStatusLine chunks = resume w shutdown answer 2 rest
      ((r.withResponseBuf received).onStatusLineReceived w .success) := by
  rw [runFrom]
  simp only [complete, handle, hbuf, hread, List.nil_append]
  rcases (r.withResponseBuf received).onStatusLineReceived w .success with
    ⟨r', op | ec | ec⟩ <;> rfl

/-- **The status stage on a stream without a line end** leaves all of it in the buffer. -/
theorem runFrom_readStatusLine_eof {r : HTTPRequest} (hbuf : r.response.responseBuf = [])
    {chunks : List Bytes} (hmem : ¬ crlf <:+: chunks.flatten) :
    runFrom w shutdown answer 3 r .readStatusLine chunks
      = some (.eof, r.withResponseBuf chunks.flatten) := by
  have hread := @readUntil_none_of_missing crlf [] chunks (List.nil_append chunks.flatten ▸ hmem)
  rw [runFrom]
  simp only [complete, handle, hbuf, hread, List.nil_append, onStatusLineReceived]
  rfl

end Stages

/-! ## The first line -/

/-- A number is the last thing in the words before it. -/
theorem StatusWords.exists_last {words : Bytes} {code : ℕ} (h : StatusWords w words code) :
    ∃ init c, words = init ++ [c] ∧ isSpace c = false := by
  cases h with
  | @intro ws ws' word code hws hws' hsep hword hcode =>
    rcases List.eq_nil_or_concat word with rfl | ⟨init, c, rfl⟩
    · cases hcode
    · exact ⟨ws ++ bytes "HTTP/1.1" ++ ws' ++ init, c, by simp, hword c (by simp)⟩

/-- Words that a line end follows, with a blank between, are followed by all of it. -/
theorem StatusWords.exists_crlf {pre words tail : Bytes} {code : ℕ} {b : UInt8}
    (h : StatusWords w words code) (heq : pre ++ crlf = words ++ b :: tail) :
    ∃ x, b :: tail = x ++ crlf := by
  rcases List.append_eq_append_iff.mp heq with ⟨y, hwords, hcrlf⟩ | ⟨x, -, hx⟩
  · rcases y with _ | ⟨c, _ | ⟨c', y⟩⟩
    · exact ⟨[], hcrlf.symm⟩
    · -- the `'\r'` would be the last byte of the number
      obtain ⟨init, c', hlast, hsolid⟩ := h.exists_last
      have hc : c = c' := by
        simpa using List.append_inj_right' (hwords.symm.trans hlast) rfl
      have hcr : cr = c := by simpa [crlf] using congrArg List.head? hcrlf
      rw [← hc, ← hcr] at hsolid
      exact absurd hsolid (by decide)
    · simp [crlf] at hcrlf
  · exact ⟨x, hx⟩

/-- A line does not end with a word. -/
theorem StatusWords.ne_line {pre words more : Bytes} {code : ℕ} (h : StatusWords w words code)
    (hmore : Solid more) : pre ++ crlf ≠ words ++ more := by
  intro heq
  have hlast : ∃ init c, words ++ more = init ++ [c] ∧ isSpace c = false := by
    rcases List.eq_nil_or_concat more with rfl | ⟨init, c, rfl⟩
    · rw [List.append_nil]
      exact h.exists_last
    · exact ⟨words ++ init, c, by simp, hmore c (by simp)⟩
  obtain ⟨init, c, hlast, hsolid⟩ := hlast
  have hcrlf : pre ++ crlf = (pre ++ [cr]) ++ [lf] := by simp [crlf]
  have hc : lf = c := by
    simpa using List.append_inj_right' (hcrlf.symm.trans (heq.trans hlast)) rfl
  rw [← hc] at hsolid
  exact absurd hsolid (by decide)

/-- **The first line is one of three kinds**: it ends in white space, so its words are whole. -/
theorem line_cases (w : ULong) (pre : Bytes) : Unfinished w (pre ++ crlf) ∨
    (∃ left, Misread w (pre ++ crlf) left) ∨
      ∃ code phrase left, StatusLine w (pre ++ crlf) code phrase left := by
  cases opening w (pre ++ crlf) with
  | unfinished h => exact .inl h
  | misread h => exact .inr (.inl ⟨_, h⟩)
  | @status words tail code b h heq hb =>
    obtain ⟨x, hx⟩ := h.exists_crlf heq
    obtain ⟨phrase, b', left, hphrase, hsplit⟩ := exists_line x
    have hend : ∀ c ∈ phrase.head?, isSpace c := by
      intro c hc
      have hhead := congrArg List.head? (hx.trans hsplit)
      cases phrase with
      | nil => cases hc
      | cons c' phrase =>
        cases hc
        cases hhead
        exact hb
    refine .inr (.inr ⟨code, phrase, left, ?_⟩)
    rw [heq, hx, hsplit, ← List.append_assoc]
    exact .intro b' left h hphrase hend
  | number h heq hmore => exact absurd heq (h.ne_line hmore)

/-! ## The verdict -/

/-- What the callback is given: the error code and the response. -/
def told (o : ErrorCode × HTTPRequest) : ErrorCode × HTTPResponse := (o.1, o.2.response)

/-- **The verdict** on the chunks a server answers with: what `m_callback` is told, or `none` if a
handler never returns. -/
def verdict (w : ULong) (shutdown : ErrorCode) (r : HTTPRequest) (chunks : List Bytes) :
    Option (ErrorCode × HTTPResponse) :=
  (r.run w shutdown fun _ => chunks).map told

/-- The streams whose cut has no say.  If anything follows the first line, then either the words are
not finished by the end of the stream, or they are all in that line and the header block after it is
closed. -/
def CutFree (w : ULong) (stream : Bytes) : Prop :=
  ∀ pre tail, FirstAt crlf stream pre tail → tail = [] ∨ Unfinished w stream ∨
    ∃ code phrase left, StatusLine w (pre ++ crlf) code phrase left ∧ HeadersClosed (left ++ tail)

/-- **The status stage reads the first line**, and some of what follows. -/
theorem exists_readUntil_line {stream pre tail : Bytes} (hfirst : FirstAt crlf stream pre tail)
    {chunks : List Bytes} (hstream : chunks.flatten = stream) : ∃ ahead rest,
      readUntil none crlf [] chunks = ⟨.success, pre ++ crlf ++ ahead, rest⟩ ∧
        ahead ++ rest.flatten = tail := by
  obtain ⟨ahead, hec, hahead, htail⟩ := hfirst.exists_readUntil
    (show [] ++ chunks.flatten = stream from hstream) (fits_none _) (fits_none _)
  rw [List.nil_append] at hahead
  exact ⟨ahead, _, by rw [← hec, ← hahead], htail⟩

/-- **The kinds of cut-free stream** that have a first line. -/
theorem CutFree.cases {stream pre tail : Bytes} (h : CutFree w stream)
    (hfirst : FirstAt crlf stream pre tail) : Unfinished w stream ∨
      (tail = [] ∧ ∃ left, Misread w (pre ++ crlf) left) ∨
      ∃ code phrase left, StatusLine w (pre ++ crlf) code phrase left ∧
        HeadersClosed (left ++ tail) := by
  rcases h pre tail hfirst with rfl | hunfinished | hline
  · -- the first line is all there is
    rcases line_cases w pre with hunfinished | hmisread | ⟨code, phrase, left, hline⟩
    · rw [hfirst.eq, List.append_nil]
      exact .inl hunfinished
    · exact .inr (.inl ⟨rfl, hmisread⟩)
    · refine .inr (.inr ⟨code, phrase, left, hline, headersClosed_of_missing ?_⟩)
      rw [List.append_nil]
      exact fun hblank => hfirst.not_crlfcrlf (hblank.trans hline.suffix.isInfix)
  · exact .inl hunfinished
  · exact .inr (.inr hline)

/-- **A cut-free stream** ends the request in one way. -/
theorem CutFree.exists_outcome {stream : Bytes} (h : CutFree w stream) (shutdown : ErrorCode)
    {r : HTTPRequest} (hbuf : r.response.responseBuf = []) : ∃ outcome, ∀ answer chunks,
      chunks.flatten = stream → runFrom w shutdown answer 3 r .readStatusLine chunks = outcome := by
  by_cases hmem : crlf <:+: stream
  case neg =>
    refine ⟨some (.eof, r.withResponseBuf stream), fun answer chunks hstream => ?_⟩
    rw [runFrom_readStatusLine_eof w shutdown answer hbuf (hstream ▸ hmem), hstream]
  obtain ⟨pre, tail, hfirst⟩ := exists_firstAt hmem
  rcases h.cases hfirst with hunfinished | ⟨rfl, left, hmisread⟩ |
    ⟨code, phrase, left, hline, hclosed⟩
  · refine ⟨some (.invalidResponse, r.withResponseBuf []), fun answer chunks hstream => ?_⟩
    obtain ⟨ahead, rest, hread, htail⟩ := exists_readUntil_line hfirst hstream
    have hbegun : pre ++ crlf ++ ahead <+: stream := by
      rw [hfirst.eq, ← htail, ← List.append_assoc]
      exact List.prefix_append _ _
    rw [runFrom_readStatusLine_eq w shutdown answer hbuf hread,
      onStatusLineReceived_unfinished r (hunfinished.of_prefix hbegun)]
    rfl
  · refine ⟨some (.invalidResponse, r.withResponseBuf left), fun answer chunks hstream => ?_⟩
    obtain ⟨ahead, rest, hread, hnil⟩ := exists_readUntil_line hfirst hstream
    obtain ⟨rfl, -⟩ := List.append_eq_nil_iff.mp hnil
    rw [List.append_nil] at hread
    rw [runFrom_readStatusLine_eq w shutdown answer hbuf hread,
      onStatusLineReceived_misread r hmisread]
    rfl
  · obtain ⟨outcome, hall⟩ := hclosed.exists_outcome w shutdown (r.withStatus code phrase)
    refine ⟨outcome, fun answer chunks hstream => ?_⟩
    obtain ⟨ahead, rest, hread, htail⟩ := exists_readUntil_line hfirst hstream
    rw [runFrom_readStatusLine_eq w shutdown answer hbuf hread,
      onStatusLineReceived_line r (hline.append ahead)]
    exact hall answer (left ++ ahead) rest (by rw [List.append_assoc, htail])

/-- The request once its bytes are sent. -/
def sent (r : HTTPRequest) : HTTPRequest := { r with requestBuf := r.requestBytes }

section Cuts

variable {shutdown : ErrorCode} {r : HTTPRequest}

theorem verdict_eq (hr : r.Fresh) (hexec : r.execute.isSome) (hshut : shutdown.value = 0)
    (chunks : List Bytes) : verdict w shutdown r chunks
      = (runFrom w shutdown (fun _ => chunks) 3 r.sent .readStatusLine chunks).map told :=
  congrArg (Option.map told) (run_eq_runFrom w shutdown _ hexec hr.requestBuf hshut)

theorem Fresh.sent_responseBuf (hr : r.Fresh) : r.sent.response.responseBuf = [] :=
  congrArg HTTPResponse.responseBuf hr.response

/-- A chunk, and the rest of the stream in another. -/
theorem isCut_two {a : Bytes} (ha : crlf <:+: a) (b : Bytes) :
    IsCut (a ++ b) (a :: Segmentation.whole.cut b) where
  flatten := by rw [List.flatten_cons, Segmentation.whole.flatten_cut]
  ne_nil_of_mem := by
    refine List.forall_mem_cons.mpr ⟨?_, Segmentation.whole.ne_nil_of_mem b⟩
    rintro rfl
    exact absurd ha (by decide)

/-- **What the first chunk decides** when the line end is in it. -/
theorem verdict_two (hr : r.Fresh) (hexec : r.execute.isSome) (hshut : shutdown.value = 0)
    {a : Bytes} (ha : crlf <:+: a) (b : Bytes) :
    verdict w shutdown r (a :: Segmentation.whole.cut b)
      = (resume w shutdown (fun _ => a :: Segmentation.whole.cut b) 2 (Segmentation.whole.cut b)
          ((r.sent.withResponseBuf a).onStatusLineReceived w .success)).map told := by
  have hne : ¬ crlf <:+: ([] : Bytes) := by decide
  have hread : readUntil none crlf [] (a :: Segmentation.whole.cut b)
      = ⟨.success, a, Segmentation.whole.cut b⟩ := by
    rw [readUntil_none_cons hne, List.nil_append, readUntil_of_found none ha, List.append_nil]
  rw [verdict_eq hr hexec hshut, runFrom_readStatusLine_eq w shutdown _ hr.sent_responseBuf hread]

/-- **The verdict on two chunks, a status line in the first.** -/
theorem verdict_two_line (hr : r.Fresh) (hexec : r.execute.isSome) (hshut : shutdown.value = 0)
    {a phrase left : Bytes} {code : ℕ} (ha : crlf <:+: a) (h : StatusLine w a code phrase left)
    (b : Bytes) : verdict w shutdown r (a :: Segmentation.whole.cut b)
      = (runFrom w shutdown (fun _ => a :: Segmentation.whole.cut b) 2
          ((r.sent.withStatus code phrase).withResponseBuf left) .readHeaders
          (Segmentation.whole.cut b)).map told := by
  rw [verdict_two hr hexec hshut ha, onStatusLineReceived_line r.sent h]
  rfl

/-- **A version and a number in the first chunk** are not called invalid. -/
theorem ne_invalidResponse_of_words (hr : r.Fresh) (hexec : r.execute.isSome)
    (hshut : shutdown.value = 0) {words more : Bytes} {code : ℕ} (ha : crlf <:+: words ++ more)
    (h : StatusWords w words code) (hmore : ∀ c ∈ more.head?, isSpace c) (b : Bytes)
    (p : HTTPResponse) : verdict w shutdown r ((words ++ more) :: Segmentation.whole.cut b)
      ≠ some (.invalidResponse, p) := by
  rw [verdict_two hr hexec hshut ha, onStatusLineReceived_words r.sent h hmore]
  intro heq
  obtain ⟨o, ho, htold⟩ := Option.map_eq_some_iff.mp heq
  exact ne_invalidResponse_of_readHeaders w shutdown _ ho (congrArg Prod.fst htold)

/-- The first line and more in one chunk, and the rest in another, is judged as the whole is. -/
def JudgedAsWhole (w : ULong) (shutdown : ErrorCode) (r : HTTPRequest) (stream : Bytes) : Prop :=
  ∀ a b, crlf <:+: a → a ++ b = stream → verdict w shutdown r (a :: Segmentation.whole.cut b)
    = verdict w shutdown r (stream :: Segmentation.whole.cut [])

theorem infix_line (pre : Bytes) : crlf <:+: pre ++ crlf := (List.suffix_append _ _).isInfix

section Judged

variable {stream pre tail : Bytes}

/-- **A misread first line is all there is**: what follows the wrong word stays in the buffer, as
far as it has come. -/
theorem JudgedAsWhole.tail_eq_nil (h : JudgedAsWhole w shutdown r stream) (hr : r.Fresh)
    (hexec : r.execute.isSome) (hshut : shutdown.value = 0) (hfirst : FirstAt crlf stream pre tail)
    {left : Bytes} (hmisread : Misread w (pre ++ crlf) left) : tail = [] := by
  have hlonger := hmisread.append tail
  rw [← hfirst.eq] at hlonger
  have hline := h _ _ (infix_line pre) hfirst.eq.symm
  rw [verdict_two hr hexec hshut (infix_line pre), onStatusLineReceived_misread r.sent hmisread,
    verdict_two hr hexec hshut hfirst.found, onStatusLineReceived_misread r.sent hlonger] at hline
  have hbuf := congrArg (Option.map fun v => v.2.responseBuf) hline
  simp only [resume, told, withResponseBuf, Option.map_some, Option.some.injEq] at hbuf
  exact List.self_eq_append_right.mp hbuf

/-- **Where the first line is unfinished the stream is**: that line alone is invalid, and empties
the buffer. -/
theorem JudgedAsWhole.unfinished (h : JudgedAsWhole w shutdown r stream) (hr : r.Fresh)
    (hexec : r.execute.isSome) (hshut : shutdown.value = 0) (hfirst : FirstAt crlf stream pre tail)
    (hunfinished : Unfinished w (pre ++ crlf)) : Unfinished w stream := by
  have hline := h _ _ (infix_line pre) hfirst.eq.symm
  rw [verdict_two hr hexec hshut (infix_line pre), onStatusLineReceived_unfinished r.sent
    hunfinished] at hline
  cases opening w stream with
  | unfinished h => exact h
  | misread hmisread =>
    rw [verdict_two hr hexec hshut hfirst.found, onStatusLineReceived_misread r.sent hmisread]
      at hline
    have hbuf := congrArg (Option.map fun v => v.2.responseBuf) hline
    simp only [resume, told, withResponseBuf, Option.map_some, Option.some.injEq] at hbuf
    exact absurd hbuf.symm hmisread.left_ne_nil
  | @status words rest code b hwords heq hb =>
    have hmore : ∀ c ∈ (b :: rest).head?, isSpace c := by simpa using hb
    exact absurd (heq ▸ hline.symm)
      (ne_invalidResponse_of_words hr hexec hshut (heq ▸ hfirst.found) hwords hmore [] _)
  | @number words more code hwords heq hmore =>
    have hend : ∀ c ∈ ([] : Bytes).head?, isSpace c := by simp
    rcases List.append_eq_append_iff.mp (hfirst.eq.symm.trans heq) with
      ⟨ahead, hahead, -⟩ | ⟨ahead, hahead, -⟩
    · -- the chunk may end right after the number
      have hin : crlf <:+: words ++ [] := by
        rw [List.append_nil, hahead]
        exact (infix_line pre).trans (List.prefix_append _ _).isInfix
      have hcut := h (words ++ []) more hin (by rw [List.append_nil, heq])
      exact absurd (hcut.trans hline.symm)
        (ne_invalidResponse_of_words hr hexec hshut hin hwords hend more _)
    · -- the number is in the first line, which has none
      have hbegun := hunfinished.of_prefix ⟨ahead, hahead.symm⟩
      have hgoes := onStatusLineReceived_words r.sent hwords hend
      rw [List.append_nil, onStatusLineReceived_unfinished r.sent hbegun] at hgoes
      cases congrArg Prod.snd hgoes

/-- **After a status line the header block is closed**: a chunk can end with the first blank line,
which is beyond that line. -/
theorem JudgedAsWhole.headersClosed (h : JudgedAsWhole w shutdown r stream) (hr : r.Fresh)
    (hexec : r.execute.isSome) (hshut : shutdown.value = 0) (hfirst : FirstAt crlf stream pre tail)
    {code : ℕ} {phrase left : Bytes} (hstatus : StatusLine w (pre ++ crlf) code phrase left) :
    HeadersClosed (left ++ tail) := by
  refine headersClosed_of_eq w shutdown (r := r.sent.withStatus code phrase)
    fun pre' tail' hblank htail' => ?_
  have hnone : ¬ crlfcrlf <:+: left := fun hin =>
    hfirst.not_crlfcrlf (hin.trans hstatus.suffix.isInfix)
  obtain ⟨ahead, hahead, rfl⟩ : ∃ ahead, pre' ++ crlfcrlf = left ++ ahead ∧
      ahead ++ tail' = tail := by
    rcases List.append_eq_append_iff.mp hblank.eq.symm with ⟨ahead, hleft, -⟩ | ⟨ahead, h₁, h₂⟩
    · rw [hleft] at hnone
      exact absurd ((List.suffix_append _ _).isInfix.trans (List.prefix_append _ _).isInfix) hnone
    · exact ⟨ahead, h₁, h₂.symm⟩
  have hall := hstatus.append (ahead ++ tail')
  rw [← hfirst.eq] at hall
  have hin : crlf <:+: pre ++ crlf ++ ahead :=
    (infix_line pre).trans (List.prefix_append _ _).isInfix
  have hcut := h _ tail' hin (by rw [hfirst.eq, List.append_assoc])
  rw [verdict_two_line hr hexec hshut hin (hstatus.append ahead), ← hahead,
    verdict_two_line hr hexec hshut hfirst.found hall] at hcut
  have hbuf := congrArg (Option.map fun v => v.2.responseBuf) hcut
  rw [Option.map_map, Option.map_map] at hbuf
  exact ⟨_, _, hbuf⟩

end Judged

/-- **Every other stream is judged in two ways.** -/
theorem cutFree_of_verdict_eq (hr : r.Fresh) (hexec : r.execute.isSome) (hshut : shutdown.value = 0)
    {stream : Bytes} (h : ∀ chunks chunks', IsCut stream chunks → IsCut stream chunks' →
      verdict w shutdown r chunks = verdict w shutdown r chunks') : CutFree w stream := by
  intro pre tail hfirst
  have hwhole : JudgedAsWhole w shutdown r stream := by
    rintro a b ha rfl
    have hall := isCut_two hfirst.found []
    rw [List.append_nil] at hall
    exact h _ _ (isCut_two ha b) hall
  rcases line_cases w pre with hunfinished | ⟨left, hmisread⟩ | ⟨code, phrase, left, hstatus⟩
  · exact .inr (.inl (hwhole.unfinished hr hexec hshut hfirst hunfinished))
  · exact .inl (hwhole.tail_eq_nil hr hexec hshut hfirst hmisread)
  · exact .inr (.inr ⟨code, phrase, left, hstatus,
      hwhole.headersClosed hr hexec hshut hfirst hstatus⟩)

/-- **The verdict does not depend on the cut of a cut-free stream, and of no other.** -/
theorem verdict_congr_iff (hr : r.Fresh) (hexec : r.execute.isSome) (hshut : shutdown.value = 0)
    {stream : Bytes} : (∀ chunks chunks', IsCut stream chunks → IsCut stream chunks' →
      verdict w shutdown r chunks = verdict w shutdown r chunks') ↔ CutFree w stream := by
  refine ⟨cutFree_of_verdict_eq hr hexec hshut, fun h chunks chunks' hcut hcut' => ?_⟩
  obtain ⟨outcome, hall⟩ := h.exists_outcome shutdown hr.sent_responseBuf
  rw [verdict_eq hr hexec hshut, verdict_eq hr hexec hshut, hall _ _ hcut.flatten,
    hall _ _ hcut'.flatten]

end Cuts

/-! ## Well-formed responses -/

/-- A prefix that ends in an empty line, of header lines that end in CRLF, an empty line and a body,
has a blank line for the loop. -/
theorem hasBlankLine_of_start {headers : List Bytes} (hheaders : ∀ h ∈ headers, cr ∉ h ∧ h ≠ [])
    {pre body : Bytes}
    (hpre : pre ++ crlfcrlf <+: headers.flatMap (· ++ crlf) ++ (crlf ++ body)) :
    HasBlankLine (pre ++ crlfcrlf) := by
  induction headers generalizing pre with
  | nil =>
    obtain ⟨b, left, hleft⟩ : ∃ b left, pre ++ crlfcrlf = cr :: b :: left := by
      obtain ⟨more, hmore⟩ := hpre
      rcases pre with _ | ⟨c, _ | ⟨c', pre⟩⟩
      · exact ⟨_, _, rfl⟩
      all_goals
        obtain rfl : c = cr := (List.cons.inj hmore).1
        exact ⟨_, _, rfl⟩
    exact ⟨[], b, left, by simp [HeaderLines], hleft⟩
  | cons h headers ih =>
    obtain ⟨⟨hcr, hne⟩, hrest⟩ := List.forall_mem_cons.mp hheaders
    obtain ⟨more, hmore⟩ := hpre
    have hstream : (h :: headers).flatMap (· ++ crlf) ++ (crlf ++ body)
        = h ++ cr :: (lf :: (headers.flatMap (· ++ crlf) ++ (crlf ++ body))) := by simp [crlf]
    by_cases hpre : cr ∈ pre
    · obtain ⟨line, rest, rfl, hline⟩ := List.eq_append_cons_of_mem hpre
      have heq : line ++ cr :: (rest ++ crlfcrlf ++ more)
          = h ++ cr :: (lf :: (headers.flatMap (· ++ crlf) ++ (crlf ++ body))) := by
        rw [← hstream, ← hmore]
        simp
      obtain ⟨rfl, htail⟩ := IStream.eq_of_append_delim hline hcr heq
      cases rest with
      | nil => cases htail
      | cons b rest =>
        obtain ⟨rfl, hbehind⟩ := List.cons.inj htail
        obtain ⟨lines, b', left, hlines, hleft⟩ := ih hrest ⟨more, hbehind⟩
        refine ⟨(line, lf) :: lines, b', left,
          List.forall_mem_cons.mpr ⟨⟨hcr, hne⟩, hlines⟩, ?_⟩
        rw [List.append_assoc, List.cons_append, List.cons_append, hleft]
        simp [headerText]
    · have heq : pre ++ cr :: (lf :: crlf ++ more)
          = h ++ cr :: (lf :: (headers.flatMap (· ++ crlf) ++ (crlf ++ body))) := by
        rw [← hstream, ← hmore]
        simp [crlf, crlfcrlf]
      obtain ⟨rfl, -⟩ := IStream.eq_of_append_delim hpre hcr heq
      exact ⟨[(pre, lf)], lf, [], by simpa [HeaderLines] using ⟨hcr, hne⟩,
        by simp [headerText, crlfcrlf]⟩

/-- **A well-formed response is judged alike under every cut.** -/
theorem cutFree_response {code : ℕ} (hcode : code ≤ w.max) {phrase : Bytes} (hphrase : cr ∉ phrase)
    {headers : List Bytes} (hheaders : ∀ h ∈ headers, cr ∉ h ∧ h ≠ []) (body : Bytes) :
    CutFree w (bytes "HTTP/1.1 " ++ (toString code ++ bytes " " ++ phrase) ++ crlf
      ++ (headers.flatMap (· ++ crlf) ++ (crlf ++ body))) := by
  intro pre tail hfirst
  have hdigits : Solid (toString code) := fun c hc =>
    (isDigit_not_isSpace (isDigit_of_mem_toString hc)).1
  have hcr : cr ∉ bytes "HTTP/1.1 " ++ (toString code ++ bytes " " ++ phrase) := by
    simp only [List.mem_append, not_or]
    exact ⟨by decide, ⟨fun h => absurd (hdigits cr h) (by decide), by decide⟩, hphrase⟩
  obtain ⟨rfl, rfl⟩ := hfirst.unique (firstAt_crlf hcr _)
  have hblank : Blank (bytes " ") := by unfold Blank; decide +kernel
  have hwords : StatusWords w ([] ++ bytes "HTTP/1.1" ++ bytes " " ++ toString code) code :=
    .intro (by simp [Blank]) hblank (by decide) hdigits (stoul_toString w hcode)
  have hmessage : cr ∉ bytes " " ++ phrase := by
    rw [List.mem_append, not_or]
    exact ⟨by decide, hphrase⟩
  have hend : ∀ c ∈ (bytes " " ++ phrase).head?, isSpace c := by
    rintro c ⟨rfl⟩
    decide
  have hline := StatusLine.intro lf [] hwords hmessage hend
  have hlit : bytes "HTTP/1.1 " = bytes "HTTP/1.1" ++ bytes " " := by decide
  refine .inr (.inr ⟨code, bytes " " ++ phrase, [], ?_, fun pre' tail' hpre' => .inr ?_⟩)
  · rw [hlit]
    simpa [crlf] using hline
  · refine @hasBlankLine_of_start _ hheaders pre' body ⟨tail', ?_⟩
    rw [← hpre'.eq, List.nil_append]

theorem verdict_congr_iff_simpleScenario :
    verdict .bits32 .success simpleScenario
        (Segmentation.bytewise.cut (bytes "HTTP/1.1 200 OK\r\nA: b\r\nC: d\r\n\r\nhi"))
      = verdict .bits32 .success simpleScenario
        (Segmentation.whole.cut (bytes "HTTP/1.1 200 OK\r\nA: b\r\nC: d\r\n\r\nhi")) := by
  have hfree := @cutFree_response .bits32 200 (by decide) (bytes "OK") (by decide)
    [bytes "A: b", bytes "C: d"] (by decide) (bytes "hi")
  have hstream : bytes "HTTP/1.1 " ++ (toString 200 ++ bytes " " ++ bytes "OK") ++ crlf
      ++ ([bytes "A: b", bytes "C: d"].flatMap (· ++ crlf) ++ (crlf ++ bytes "hi"))
      = bytes "HTTP/1.1 200 OK\r\nA: b\r\nC: d\r\n\r\nhi" := by decide +kernel
  rw [hstream] at hfree
  exact (verdict_congr_iff ⟨rfl, rfl⟩ (by decide +kernel) rfl).mpr hfree _ _
    (Segmentation.bytewise.isCut _) (Segmentation.whole.isCut _)

/-- A number on the second line is found when it has come with the first, and not otherwise; a
header that ends in `'\r'` makes the loop run into the body when that has come too, and never end.
-/
theorem exists_verdict_ne :
    (∃ chunks chunks', IsCut (bytes "HTTP/1.1\r\n200 OK\r\n\r\n\r\n") chunks ∧
      IsCut (bytes "HTTP/1.1\r\n200 OK\r\n\r\n\r\n") chunks' ∧
      (verdict .bits64 .success simpleScenario chunks).map (·.1) = some .success ∧
      (verdict .bits64 .success simpleScenario chunks').map (·.1) = some .invalidResponse) ∧
    ∃ chunks chunks', IsCut (bytes "HTTP/1.1 200 OK\r\nA: b\r\r\n\r\nhi") chunks ∧
      IsCut (bytes "HTTP/1.1 200 OK\r\nA: b\r\r\n\r\nhi") chunks' ∧
      (verdict .bits64 .success simpleScenario chunks).map (·.2.responseBuf) = some (bytes "hi") ∧
      (verdict .bits64 .success simpleScenario chunks').map (·.1) = none := by
  refine ⟨⟨[bytes "HTTP/1.1\r\n200 OK\r\n\r\n\r\n"],
    [bytes "HTTP/1.1\r\n", bytes "200 OK\r\n\r\n\r\n"], ⟨by decide, by decide⟩,
    ⟨by decide, by decide⟩, by decide +kernel, by decide +kernel⟩,
    [bytes "HTTP/1.1 200 OK\r\nA: b\r\r\n\r\n", bytes "hi"],
    [bytes "HTTP/1.1 200 OK\r\nA: b\r\r\n\r\nhi"], ⟨by decide, by decide⟩,
    ⟨by decide, by decide⟩, by decide +kernel, by decide +kernel⟩

end HTTPRequest

end AsioSamples
