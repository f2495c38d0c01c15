import AsioSamples.Http.HeaderBlock

/-!
# Http/ServiceHeaders — the header loop of `HttpService`

`while (!request_stream.eof())` takes a name up to a `':'` and a value up to a `'\r'`, in turns,
until the stream has ended; it neither stops at an empty line nor looks at line ends inside a name.

* `headerLoop_ends` — it ends on every buffer, and stores nothing but what the pass at hand has
  extracted.
* `requestHeaders_block_iff` — it makes the right headers of a block exactly if nothing with a
  `':'` follows a line without one, an empty line included.  A name that runs across a line end
  contains a `'\r'`, and is never erased.
-/

namespace AsioSamples

namespace HttpService

open HTTPRequest (headerField headerFields headerBlock headerField_append)

/-! ## The loop ends -/

/-- What a pass from `l` to `l'` takes off the stream, and stores: nothing, without a `':'` ahead;
otherwise a name, and a value that a `'\r'` or the end of the buffer ends. -/
inductive Extracts (l l' : HeaderLoop) : Prop
  | nothing (hcolon : colon ∉ l.requestStream.rest) (hrest : l'.requestStream.rest = [])
    (hheaders : l'.requestHeaders = l.requestHeaders)
  | field (name value more : Bytes)
    (hbuf : l.requestStream.rest = name ++ colon :: (value ++ more)) (hname : colon ∉ name)
    (hvalue : cr ∉ value) (hmore : ∀ b ∈ more.head?, b = cr)
    (hrest : l'.requestStream.rest = more.drop 2)
    (hheaders : l'.requestHeaders = l.requestHeaders.assign name value)

/-- **A pass on a good stream stores what it has extracted itself.** -/
theorem extracts_headerPass {l l' : HeaderLoop} (hgood : l.requestStream.good)
    (h : headerPass l = .inl l') : Extracts l l' := by
  obtain ⟨stream, headerName, headerValue, requestHeaders⟩ := l
  obtain ⟨buf, rfl⟩ : ∃ buf, stream = { rest := buf } := ⟨_, IStream.eq_mk_of_good hgood⟩
  cases ahead buf with
  | noColon hcolon =>
    cases (headerPass_noColon hcolon headerName headerValue requestHeaders).symm.trans h
    exact .nothing hcolon rfl rfl
  | @lastLine name value more hname hvalue hmore =>
    obtain ⟨stream, hend, hpass⟩ :=
      headerPass_lastLine hname hvalue hmore headerName headerValue requestHeaders
    cases hpass.symm.trans h
    refine .field name value more rfl hname hvalue ?_ (hend.2.trans ?_) rfl
    · rcases hmore with rfl | rfl <;> simp
    · rcases hmore with rfl | rfl <;> rfl
  | @line name value hname hvalue b more =>
    cases (headerPass_line hname hvalue b more headerName headerValue requestHeaders).symm.trans h
    exact .field name value (cr :: b :: more) rfl hname hvalue (by simp) rfl rfl

/-- The stream is good as long as it has not ended. -/
theorem good_or_atEnd_of_rounds {s : HttpService} {n : ℕ} {l : HeaderLoop}
    (h : Rounds headerPass n s.headerLoop l) : l.requestStream.good ∨ AtEnd l.requestStream := by
  refine h.invariant (I := fun l => l.requestStream.good ∨ AtEnd l.requestStream) (Or.inl rfl)
    fun l l' hl hpass => ?_
  rcases hl with hgood | hend
  · obtain ⟨l'', hpass', hnext⟩ := headerPass_good l (IStream.eq_mk_of_good hgood)
    cases hpass'.symm.trans hpass
    rcases hnext with hend | ⟨buf, hbuf, -⟩
    · exact Or.inr hend
    · exact Or.inl (by rw [hbuf]; rfl)
  · cases (headerPass_atEnd hend).symm.trans hpass

/-- **The header loop ends on every buffer**, within one pass per byte and one more, with the buffer
consumed; the stream never fails without having ended; and no pass stores a name or a value that an
earlier one has extracted. -/
theorem headerLoop_ends (s : HttpService) :
    (∃ n ≤ s.request.length + 1, Rounds headerPass n s.headerLoop s.runHeaderLoop) ∧
      headerPass s.runHeaderLoop = .inr s.runHeaderLoop ∧
      s.runHeaderLoop.requestStream.rest = [] ∧
      ∀ n l, Rounds headerPass n s.headerLoop l →
        (l.requestStream.failbit → l.requestStream.eofbit) ∧
        ∀ l', headerPass l = .inl l' → Extracts l l' := by
  obtain ⟨r, hr, hend⟩ := exists_loop_headerPass s.request.length s.headerLoop s.request rfl le_rfl
  obtain rfl : s.runHeaderLoop = r := runHeaderLoop_eq ⟨_, hr⟩
  obtain ⟨n, hn, l, hrounds, hleave⟩ := exists_rounds_of_loop hr
  have hstays : headerPass l = .inr l := by
    rcases good_or_atEnd_of_rounds hrounds with hgood | hl
    · obtain ⟨l', hpass, -⟩ := headerPass_good l (IStream.eq_mk_of_good hgood)
      cases hpass.symm.trans hleave
    · exact headerPass_atEnd hl
  obtain rfl : l = s.runHeaderLoop := Sum.inr.inj (hstays.symm.trans hleave)
  refine ⟨⟨n, hn, hrounds⟩, hleave, hend.2, fun m l hl => ?_⟩
  rcases good_or_atEnd_of_rounds hl with hgood | hl
  · rw [IStream.eq_mk_of_good hgood]
    exact ⟨fun hfail => hfail, fun l' hpass => extracts_headerPass hgood hpass⟩
  · exact ⟨fun _ => hl.1, fun l' hpass => by cases (headerPass_atEnd hl).symm.trans hpass⟩

/-! ## Well-formed blocks -/

/-- Every header stays in the map. -/
theorem isSome_find_of_leaves {l r : HeaderLoop} (h : Leaves headerPass l r) {key : Bytes}
    (hkey : (l.requestHeaders.find key).isSome) : (r.requestHeaders.find key).isSome := by
  refine h.invariant (I := fun l => (l.requestHeaders.find key).isSome)
    (Q := fun r => (r.requestHeaders.find key).isSome) hkey (fun l l' hl hpass => ?_)
    fun l r hl hleave => ?_
  · unfold headerPass at hpass
    split at hpass
    · cases hpass
    simp only at hpass
    split at hpass
    · cases hpass
      exact hl
    · cases hpass
      rw [StdMap.find_assign]
      split
      · rfl
      · exact hl
  · unfold headerPass at hleave
    split at hleave
    · cases hleave
      exact hl
    · simp only at hleave
      split at hleave <;> cases hleave

/-- **A `':'` beyond a line end makes a name of both lines.** -/
theorem exists_key_of_leaves {text more : Bytes} (htext : colon ∉ text) (hcr : cr ∈ text)
    (hmore : colon ∈ more) {headerName headerValue : Bytes} {requestHeaders : StdMap Bytes Bytes}
    {r : HeaderLoop} (h : Leaves headerPass
      { requestStream := { rest := text ++ more }, headerName, headerValue, requestHeaders } r) :
    ∃ key, cr ∈ key ∧ (r.requestHeaders.find key).isSome := by
  obtain ⟨name, tail, rfl, hname⟩ := List.eq_append_cons_of_mem hmore
  have hcolon : colon ∉ text ++ name := by
    rw [List.mem_append, not_or]
    exact ⟨htext, hname⟩
  rw [← List.append_assoc] at h
  refine ⟨text ++ name, List.mem_append_left _ hcr, ?_⟩
  obtain ⟨l', hpass, -⟩ := headerPass_good
    ⟨{ rest := text ++ name ++ colon :: tail }, headerName, headerValue, requestHeaders⟩ rfl
  refine isSome_find_of_leaves ((leaves_again_iff hpass).mp h) ?_
  cases extracts_headerPass rfl hpass with
  | nothing hnone => exact absurd (by simp) hnone
  | field name' value' more' heq hname' _ _ _ hheaders =>
    obtain ⟨rfl, -⟩ := IStream.eq_of_append_delim hcolon hname' heq
    rw [hheaders, StdMap.find_assign, if_pos rfl]
    rfl

/-- Without a `':'` ahead nothing is stored. -/
theorem requestHeaders_of_noColon {buf : Bytes} (hbuf : colon ∉ buf)
    {headerName headerValue : Bytes} {requestHeaders : StdMap Bytes Bytes} {r : HeaderLoop}
    (h : Leaves headerPass
      { requestStream := { rest := buf }, headerName, headerValue, requestHeaders } r) :
    r.requestHeaders = requestHeaders := by
  have hpass := headerPass_noColon hbuf headerName headerValue requestHeaders
  have hend := loop_unique ((leaves_again_iff hpass).mp h)
    (leaves_of_leave (headerPass_atEnd ⟨rfl, rfl⟩))
  rw [hend]

/-- The loop on a text without a `':'` and what follows it: nothing is stored, or a name that runs
on beyond the text. -/
theorem requestHeaders_of_text {text more : Bytes} (htext : colon ∉ text) (hcr : cr ∈ text)
    {headerName headerValue : Bytes} {requestHeaders : StdMap Bytes Bytes} {r : HeaderLoop}
    (h : Leaves headerPass
      { requestStream := { rest := text ++ more }, headerName, headerValue, requestHeaders } r) :
    (colon ∉ more ∧ r.requestHeaders = requestHeaders) ∨
      (colon ∈ more ∧ ∃ key, cr ∈ key ∧ (r.requestHeaders.find key).isSome) := by
  by_cases hmore : colon ∈ more
  · exact Or.inr ⟨hmore, exists_key_of_leaves htext hcr hmore h⟩
  · refine Or.inl ⟨hmore, requestHeaders_of_noColon ?_ h⟩
    rw [List.mem_append, not_or]
    exact ⟨htext, hmore⟩

/-- Every line that a line with a `':'` follows has one too. -/
def ColonsFirst (lines : List Bytes) : Prop :=
  lines.Pairwise fun line later => colon ∈ later → colon ∈ line

theorem colonsFirst_cons_of_mem {line : Bytes} (hline : colon ∈ line) (lines : List Bytes) :
    ColonsFirst (line :: lines) ↔ ColonsFirst lines := by
  simp [ColonsFirst, hline]

/-- No line with a `':'` follows a line without one. -/
theorem colonsFirst_cons_of_notMem {line : Bytes} (hline : colon ∉ line) (lines : List Bytes) :
    ColonsFirst (line :: lines) ↔ ∀ later ∈ lines, colon ∉ later := by
  constructor
  · intro hfirst later hmem hlater
    exact hline ((List.pairwise_cons.mp hfirst).1 later hmem hlater)
  · intro hlines
    refine List.pairwise_cons.mpr ⟨fun later hmem hlater => absurd hlater (hlines later hmem), ?_⟩
    exact List.pairwise_of_forall_mem_list fun _ _ later hmem hlater =>
      absurd hlater (hlines later hmem)

theorem colon_notMem_crlf : colon ∉ crlf := by decide

/-- A `':'` in a block is in one of its lines. -/
theorem colon_notMem_block {lines : List Bytes} {behind : Bytes} :
    colon ∉ headerBlock lines ++ (crlf ++ behind) ↔
      (∀ line ∈ lines, colon ∉ line) ∧ colon ∉ behind := by
  simp [headerBlock, List.mem_flatMap, colon_notMem_crlf]

theorem headerFields_eq_nil {lines : List Bytes} (hlines : ∀ line ∈ lines, colon ∉ line) :
    headerFields lines = [] := by
  refine List.filterMap_eq_nil_iff.mpr fun line hmem => ?_
  rw [headerField, if_neg (hlines line hmem)]

/-- **The loop on a block and what follows it**: the fields of the block, or a name across a line
end, for good. -/
theorem requestHeaders_of_leaves {lines : List Bytes} (hlines : ∀ line ∈ lines, cr ∉ line)
    {behind headerName headerValue : Bytes} {requestHeaders : StdMap Bytes Bytes} {r : HeaderLoop}
    (h : Leaves headerPass { requestStream := { rest := headerBlock lines ++ (crlf ++ behind) },
                             headerName, headerValue, requestHeaders } r) :
    (ColonsFirst lines ∧ colon ∉ behind ∧
        r.requestHeaders = requestHeaders.assignAll (headerFields lines)) ∨
      (¬ (ColonsFirst lines ∧ colon ∉ behind) ∧
        ∃ key, cr ∈ key ∧ (r.requestHeaders.find key).isSome) := by
  induction lines generalizing headerName headerValue requestHeaders with
  | nil =>
    have hfirst : ColonsFirst [] := List.Pairwise.nil
    rcases requestHeaders_of_text colon_notMem_crlf (by decide) h with
      ⟨hbehind, hnone⟩ | ⟨hbehind, hkey⟩
    · exact Or.inl ⟨hfirst, hbehind, hnone⟩
    · exact Or.inr ⟨fun hno => hno.2 hbehind, hkey⟩
  | cons line lines ih =>
    obtain ⟨hline, hrest⟩ := List.forall_mem_cons.mp hlines
    have htext : headerBlock (line :: lines) ++ (crlf ++ behind)
        = line ++ crlf ++ (headerBlock lines ++ (crlf ++ behind)) := by simp [headerBlock]
    rw [htext] at h
    by_cases hcolon : colon ∈ line
    · -- the pass takes the line, and the loop goes on with the others
      obtain ⟨name, value, rfl, hname⟩ := List.eq_append_cons_of_mem hcolon
      have hvalue : cr ∉ value := fun hcr => hline (by simp [hcr])
      have hbuf : name ++ colon :: value ++ crlf ++ (headerBlock lines ++ (crlf ++ behind))
          = name ++ colon :: (value ++ cr :: lf :: (headerBlock lines ++ (crlf ++ behind))) := by
        simp [crlf]
      rw [hbuf, leaves_again_iff (headerPass_line hname hvalue lf _ _ _ _)] at h
      have hfields : headerFields ((name ++ colon :: value) :: lines)
          = (name, value) :: headerFields lines := by
        simp [headerFields, headerField_append hname]
      rw [hfields, colonsFirst_cons_of_mem hcolon]
      exact ih hrest h
    · -- the name starts with the line, and runs on to a `':'` if there is one
      have hhere : colon ∉ line ++ crlf := by
        rw [List.mem_append, not_or]
        exact ⟨hcolon, colon_notMem_crlf⟩
      have hcr : cr ∈ line ++ crlf := List.mem_append_right _ (by decide)
      rw [colonsFirst_cons_of_notMem hcolon, ← colon_notMem_block]
      rcases requestHeaders_of_text hhere hcr h with ⟨hmore, hnone⟩ | ⟨hmore, hkey⟩
      · obtain ⟨hlater, hbehind⟩ := colon_notMem_block.mp hmore
        refine Or.inl ⟨hlater, hbehind, ?_⟩
        rw [headerFields_eq_nil (List.forall_mem_cons.mpr ⟨hcolon, hlater⟩), hnone]
        rfl
      · exact Or.inr ⟨fun hno => hno hmore, hkey⟩

/-- The names of a block are parts of its lines. -/
theorem cr_notMem_name {lines : List Bytes} (hlines : ∀ line ∈ lines, cr ∉ line)
    {field : Bytes × Bytes} (hfield : field ∈ headerFields lines) : cr ∉ field.1 := by
  obtain ⟨line, hline, hfield⟩ := List.mem_filterMap.mp hfield
  unfold headerField at hfield
  split at hfield
  next =>
    cases hfield
    exact fun hcr => hlines line hline (List.takeWhile_sublist _ |>.subset hcr)
  next => cases hfield

/-- A name across a line end is none of a block's. -/
theorem find_assignAll_headerFields {lines : List Bytes} (hlines : ∀ line ∈ lines, cr ∉ line)
    {key : Bytes} (hkey : cr ∈ key) :
    ((∅ : StdMap Bytes Bytes).assignAll (headerFields lines)).find key = none := by
  have hlookup : (headerFields lines).reverse.lookup key = none := by
    refine List.lookup_eq_none_iff.mpr fun field hfield => ?_
    have hne : key ≠ field.1 := fun heq =>
      cr_notMem_name hlines (List.mem_reverse.mp hfield) (heq ▸ hkey)
    simpa using hne
  rw [StdMap.find_assignAll, hlookup]
  rfl

/-- The headers that the service makes of a buffer. -/
def headersOf (s : HttpService) (buf : Bytes) : StdMap Bytes Bytes :=
  (s.withParsed buf ∅).runHeaderLoop.requestHeaders

/-- **The headers of a block are right** exactly if no line without a `':'`, the empty one included,
comes before another `':'`. -/
theorem requestHeaders_block_iff (s : HttpService) {lines : List Bytes}
    (hlines : ∀ line ∈ lines, cr ∉ line) (behind : Bytes) :
    s.headersOf (headerBlock lines ++ (crlf ++ behind))
        = (∅ : StdMap Bytes Bytes).assignAll (headerFields lines) ↔
      ColonsFirst lines ∧ colon ∉ behind := by
  have hleaves :=
    (s.withParsed (headerBlock lines ++ (crlf ++ behind)) ∅).leaves_runHeaderLoop
  rcases requestHeaders_of_leaves hlines hleaves with ⟨hfirst, hbehind, heq⟩ | ⟨hno, key, hcr, hkey⟩
  · exact ⟨fun _ => ⟨hfirst, hbehind⟩, fun _ => heq⟩
  · refine ⟨fun heq => ?_, fun hyes => absurd hyes hno⟩
    rw [headersOf] at heq
    rw [heq, find_assignAll_headerFields hlines hcr] at hkey
    cases hkey

end HttpService

/-! ## Header fields -/

/-- A header whose name and value can be told apart, and whose end can be found. -/
structure HeaderField where
  name : Bytes
  value : Bytes
  colon_name : colon ∉ name
  cr_name : cr ∉ name
  cr_value : cr ∉ value

namespace HeaderField

/-- `name:value`. -/
def line (f : HeaderField) : Bytes := f.name ++ colon :: f.value

def entry (f : HeaderField) : Bytes × Bytes := (f.name, f.value)

theorem cr_line (f : HeaderField) : cr ∉ f.line := by
  have hcolon : cr ≠ colon := by decide
  simp [line, f.cr_name, f.cr_value, hcolon]

theorem headerFields_map_line (fields : List HeaderField) :
    HTTPRequest.headerFields (fields.map line) = fields.map entry := by
  rw [HTTPRequest.headerFields, List.filterMap_map]
  exact List.filterMap_eq_map_iff_forall_eq_some.mpr fun f _ =>
    HTTPRequest.headerField_append f.colon_name f.value

end HeaderField

namespace HttpService

open HTTPRequest (headerBlock)

/-- Every line of a list of fields has its `':'`. -/
theorem colonsFirst_map_line (fields : List HeaderField) :
    ColonsFirst (fields.map HeaderField.line) := by
  refine List.pairwise_of_forall_mem_list fun line hline _ _ _ => ?_
  obtain ⟨f, -, rfl⟩ := List.mem_map.mp hline
  simp [HeaderField.line]

/-- **The headers of a request are its header lines** exactly if there is no `':'` behind the empty
line. -/
theorem headersOf_request_iff (s : HttpService) (fields : List HeaderField) (behind : Bytes) :
    s.headersOf (headerBlock (fields.map HeaderField.line) ++ (crlf ++ behind))
        = (∅ : StdMap Bytes Bytes).assignAll (fields.map HeaderField.entry) ↔
      colon ∉ behind := by
  have hlines : ∀ line ∈ fields.map HeaderField.line, cr ∉ line := by
    intro line hline
    obtain ⟨f, -, rfl⟩ := List.mem_map.mp hline
    exact f.cr_line
  rw [← HeaderField.headerFields_map_line, requestHeaders_block_iff s hlines behind]
  exact and_iff_right (colonsFirst_map_line fields)

/-- The next request becomes part of the headers of this one. -/
theorem headersOf_pipelined :
    ({} : HttpService).headersOf (bytes "Host:a\r\n\r\nGET /b HTTP/1.1\r\nHost:b\r\n\r\n")
      ≠ (∅ : StdMap Bytes Bytes).assignAll [(bytes "Host", bytes "a")] := by
  intro h
  have hkey := congrArg (·.find (bytes "\r\nGET /b HTTP/1.1\r\nHost")) h
  revert hkey
  decide +kernel

end HttpService

end AsioSamples
