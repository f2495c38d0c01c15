import AsioSamples.Http.Verdict

/-!
# Http/HeaderBlock — what the header loop makes of a buffer

Every buffer is header lines, as the loop takes them, and a remainder with none left in it
(`headerText_cases`).  On a remainder that is empty or starts with `'\r'` the loop leaves; on any
other it is stuck with the last line in hand (`leaves_iff_headersEnd`).

In a well-formed block each line is followed by its CRLF, so the loop stays in step with the line
ends and stops at the empty line (`leaves_of_block`).
-/

namespace AsioSamples

/-! ## Assigning a list of entries -/

namespace StdMap

variable {α β : Type*} [DecidableEq α]

/-- `m[k] = v` for each entry in turn. -/
def assignAll (m : StdMap α β) (entries : List (α × β)) : StdMap α β :=
  entries.foldl (fun m entry => m.assign entry.1 entry.2) m

/-- **The last entry of a key wins**, and what has no entry is as before. -/
theorem find_assignAll [BEq α] [LawfulBEq α] (m : StdMap α β) (entries : List (α × β)) (k : α) :
    (m.assignAll entries).find k = (entries.reverse.lookup k).or (m.find k) := by
  induction entries generalizing m with
  | nil => rfl
  | cons entry entries ih =>
    have hcons : m.assignAll (entry :: entries)
        = (m.assign entry.1 entry.2).assignAll entries := rfl
    rw [hcons, ih, List.reverse_cons, List.lookup_append, Option.or_assoc, find_assign]
    by_cases hk : k = entry.1
    · simp [hk, List.lookup]
    · have hbeq : (k == entry.1) = false := by simpa using hk
      simp [hk, List.lookup, hbeq]

end StdMap

namespace HTTPRequest

/-! ## Where the loop ends -/

/-- Behind the last header line the buffer ends, or a `'\r'` makes an empty line. -/
def HeadersEnd (buf : Bytes) : Prop :=
  ∃ lines more, HeaderLines lines ∧ buf = headerText lines ++ more ∧ ∀ b ∈ more.head?, b = cr

/-- The buffer ends in the middle of a line: before its `'\r'`, or before the byte after that. -/
def CutShort (more : Bytes) : Prop :=
  ∃ line, line ≠ [] ∧ cr ∉ line ∧ (more = line ∨ more = line ++ [cr])

/-- **Every buffer is header lines and a remainder** that ends the loop or is cut short. -/
theorem headerText_cases (buf : Bytes) : ∃ lines more, HeaderLines lines ∧
    buf = headerText lines ++ more ∧ ((∀ b ∈ more.head?, b = cr) ∨ CutShort more) := by
  by_cases hbuf : buf = []
  · exact ⟨[], [], by simp [HeaderLines], hbuf, .inl (by simp)⟩
  by_cases hcr : cr ∈ buf
  case neg => exact ⟨[], buf, by simp [HeaderLines], rfl, .inr ⟨buf, hbuf, hcr, .inl rfl⟩⟩
  obtain ⟨line, rest, hsplit, hline⟩ := List.eq_append_cons_of_mem hcr
  by_cases hne : line = []
  · subst hne
    exact ⟨[], buf, by simp [HeaderLines], rfl, .inl (by simp [hsplit])⟩
  cases rest with
  | nil => exact ⟨[], buf, by simp [HeaderLines], rfl, .inr ⟨line, hne, hline, .inr hsplit⟩⟩
  | cons b rest =>
    have hshort : rest.length < buf.length := by
      rw [hsplit, List.length_append, List.length_cons, List.length_cons]
      omega
    obtain ⟨lines, more, hlines, rfl, hmore⟩ := headerText_cases rest
    refine ⟨(line, b) :: lines, more, List.forall_mem_cons.mpr ⟨⟨hline, hne⟩, hlines⟩, ?_, hmore⟩
    rw [hsplit]
    simp [headerText]
termination_by buf.length

/-- **An empty line ends the loop**, and so does the end of the buffer behind a header line. -/
theorem headerPass_of_head {more : Bytes} (h : ∀ b ∈ more.head?, b = cr) (header : Bytes)
    (response : HTTPResponse) : ∃ l,
      headerPass { responseStream := { rest := more }, header, response } = .inr l ∧
        l.responseStream.rest = more.drop 2 ∧ l.response = response := by
  rcases more with _ | ⟨b, _ | ⟨b', more⟩⟩
  · exact ⟨_, rfl, rfl, rfl⟩
  · obtain rfl : b = cr := h b rfl
    exact ⟨_, rfl, rfl, rfl⟩
  · obtain rfl : b = cr := h b rfl
    exact ⟨_, headerPass_blank b' more header response, rfl, rfl⟩

/-- **Where the header lines end, the loop leaves**, with all of them added. -/
theorem leaves_of_headersEnd {r : HTTPRequest} {lines : List (Bytes × UInt8)}
    (hlines : HeaderLines lines) {more : Bytes} (hend : ∀ b ∈ more.head?, b = cr)
    (hbuf : r.response.responseBuf = headerText lines ++ more) : ∃ l,
      Leaves headerPass r.headerLoop l ∧ l.responseStream.rest = more.drop 2 ∧
        l.response = addHeaderLines r.response lines := by
  obtain ⟨header', hrest⟩ := leaves_headerText_iff hlines more [] r.response
  obtain ⟨l, hpass, hl⟩ := headerPass_of_head hend header' (addHeaderLines r.response lines)
  refine ⟨l, ?_, hl⟩
  rw [headerLoop, hbuf]
  exact (hrest l).mpr (leaves_of_leave hpass)

/-- **A line cut short gets the loop stuck**: its stream has ended, and the line stays in hand. -/
theorem CutShort.stuck {more : Bytes} (h : CutShort more) (header : Bytes)
    (response : HTTPResponse) : ∃ l,
      headerPass { responseStream := { rest := more }, header, response } = .inl l ∧ l.Stuck := by
  obtain ⟨line, hne, hline, rfl | rfl⟩ := h
  · rw [headerPass, IStream.getline_of_notMem more header hline]
    simp only [hne, if_false]
    exact ⟨_, rfl, rfl, hne⟩
  · rw [headerPass, IStream.getline_append line [] header hline]
    simp only [hne, if_false]
    exact ⟨_, rfl, rfl, hne⟩

/-- A remainder does not both end the loop and get it stuck. -/
theorem CutShort.not_leaves {more : Bytes} (h : CutShort more) (header : Bytes)
    (response : HTTPResponse) (l : HeaderLoop) :
    ¬ Leaves headerPass { responseStream := { rest := more }, header, response } l := by
  obtain ⟨l', hpass, hstuck⟩ := h.stuck header response
  rw [leaves_again_iff hpass]
  rintro ⟨n, hn⟩
  rw [loop_eq_none_of_stuck (fun _ => headerPass_of_stuck) hstuck n] at hn
  cases hn

/-- **A loop that leaves has come to the end of the header lines.** -/
theorem headersEnd_of_leaves {r : HTTPRequest} {l : HeaderLoop}
    (hl : Leaves headerPass r.headerLoop l) : HeadersEnd r.response.responseBuf := by
  obtain ⟨lines, more, hlines, hbuf, hend | hcut⟩ := headerText_cases r.response.responseBuf
  · exact ⟨lines, more, hlines, hbuf, hend⟩
  · obtain ⟨header', hrest⟩ := leaves_headerText_iff hlines more [] r.response
    rw [headerLoop, hbuf] at hl
    exact absurd ((hrest l).mp hl) (hcut.not_leaves header' _ l)

/-- **The header loop leaves exactly where the header lines of its buffer end** with the buffer or
with an empty line. -/
theorem leaves_iff_headersEnd (r : HTTPRequest) :
    (∃ l, Leaves headerPass r.headerLoop l) ↔ HeadersEnd r.response.responseBuf := by
  constructor
  · rintro ⟨l, hl⟩
    exact headersEnd_of_leaves hl
  · rintro ⟨lines, more, hlines, hbuf, hend⟩
    obtain ⟨l, hl, -⟩ := leaves_of_headersEnd hlines hend hbuf
    exact ⟨l, hl⟩

/-- The loop itself, under its bound, decides where the header lines end. -/
theorem isSome_loop_iff_headersEnd (buf : Bytes) :
    (loop headerPass (buf.length + 1) ((create 1).withResponseBuf buf).headerLoop).isSome
      ↔ HeadersEnd buf := by
  rw [Option.isSome_iff_exists]
  have hleaves := leaves_iff_headersEnd ((create 1).withResponseBuf buf)
  simp only [leaves_headerPass_iff] at hleaves
  exact hleaves

instance : DecidablePred HeadersEnd := fun buf =>
  decidable_of_iff _ (isSome_loop_iff_headersEnd buf)

/-- The second `'\r'` is dropped as the byte after the first one; from there on the loop is out of
step, and `"hi"` is cut short. -/
theorem headerLoop_runs_on : crlfcrlf <:+: bytes "A: b\r\r\n\r\nhi" ∧ ∀ l, ¬ Leaves headerPass
    ((create 1).withResponseBuf (bytes "A: b\r\r\n\r\nhi")).headerLoop l := by
  refine ⟨by decide, fun l hl => ?_⟩
  have hnone : (loop headerPass
      (((create 1).withResponseBuf (bytes "A: b\r\r\n\r\nhi")).response.responseBuf.length + 1)
      ((create 1).withResponseBuf (bytes "A: b\r\r\n\r\nhi")).headerLoop).isNone := by
    decide +kernel
  rw [(leaves_headerPass_iff _ l).mp hl] at hnone
  cases hnone

/-! ## Well-formed blocks -/

/-- What a header line says: the text before its first `':'`, and the text after it. -/
def headerField (line : Bytes) : Option (Bytes × Bytes) :=
  if colon ∈ line then
    some (line.takeWhile (· != colon), (line.dropWhile (· != colon)).tail)
  else none

/-- A name, a `':'` and a value are that field. -/
theorem headerField_append {name : Bytes} (hname : colon ∉ name) (value : Bytes) :
    headerField (name ++ colon :: value) = some (name, value) := by
  have hne : ∀ b ∈ name, (b != colon) = true := fun b hb => by
    simpa using fun h : b = colon => hname (h ▸ hb)
  rw [headerField, if_pos (by simp), List.takeWhile_append_of_pos hne,
    List.dropWhile_append_of_pos hne]
  simp

/-- **The arithmetic at the `':'`** gives the text before it and the text after it, also if there
is none. -/
theorem addHeaderLine_append (response : HTTPResponse) {name : Bytes} (hname : colon ∉ name)
    (value : Bytes) :
    addHeaderLine response (name ++ colon :: value) = response.addHeader name value := by
  have hpos : (name ++ colon :: value).idxOf? colon = some name.length := by
    refine List.idxOf?_eq_some_iff.mpr ⟨by simp, by simp, fun j hj => ?_⟩
    rw [List.getElem_append_left hj]
    exact fun h => hname (h ▸ List.getElem_mem hj)
  have hvalue : (if name.length < (name ++ colon :: value).length - 1 then
      (name ++ colon :: value).drop (name.length + 1) else []) = value := by
    split
    next => simp
    next hlast =>
      rw [List.length_append, List.length_cons] at hlast
      exact (List.eq_nil_of_length_eq_zero (by omega)).symm
  rw [addHeaderLine, hpos]
  simp only [hvalue, List.take_left]

/-- What a header line adds. -/
theorem addHeaderLine_eq (response : HTTPResponse) (line : Bytes) :
    addHeaderLine response line
      = { response with headers := response.headers.assignAll (headerField line).toList } := by
  by_cases hcolon : colon ∈ line
  · obtain ⟨name, value, rfl, hname⟩ := List.eq_append_cons_of_mem hcolon
    rw [addHeaderLine_append response hname, headerField_append hname]
    rfl
  · rw [addHeaderLine, headerField, if_neg hcolon, List.idxOf?_eq_none_iff.mpr hcolon]
    rfl

/-- The fields of a header block, in order. -/
def headerFields (lines : List Bytes) : List (Bytes × Bytes) := lines.filterMap headerField

/-- Header lines, each with its CRLF. -/
def headerBlock (lines : List Bytes) : Bytes := lines.flatMap (· ++ crlf)

theorem headerText_crlf (lines : List Bytes) :
    headerText (lines.map fun line => (line, lf)) = headerBlock lines := by
  simp [headerText, headerBlock, crlf, List.flatMap_map]

/-- **What header lines add** is their fields. -/
theorem addHeaderLines_eq (response : HTTPResponse) (lines : List (Bytes × UInt8)) :
    addHeaderLines response lines = { response with
      headers := response.headers.assignAll (headerFields (lines.map Prod.fst)) } := by
  induction lines generalizing response with
  | nil => rfl
  | cons line lines ih =>
    have hcons : addHeaderLines response (line :: lines)
        = addHeaderLines (addHeaderLine response line.1) lines := rfl
    rw [hcons, ih, addHeaderLine_eq]
    cases hfield : headerField line.1 <;> simp [headerFields, hfield, StdMap.assignAll]

/-- **The header loop on a well-formed block** adds its fields and leaves the body, whatever that
is. -/
theorem leaves_of_block {r : HTTPRequest} {lines : List Bytes}
    (hlines : ∀ line ∈ lines, line ≠ [] ∧ cr ∉ line) {body : Bytes}
    (hbuf : r.response.responseBuf = headerBlock lines ++ crlf ++ body) :
    Leaves headerPass r.headerLoop
      { responseStream := { rest := body }, header := [], response := { r.response with
          headers := r.response.headers.assignAll (headerFields lines) } } := by
  have hlines' : HeaderLines (lines.map fun line => (line, lf)) := by
    simpa [HeaderLines, and_comm] using hlines
  obtain ⟨header', hrest⟩ :=
    leaves_headerText_iff hlines' (cr :: lf :: body) [] r.response
  have htext : headerBlock lines ++ crlf ++ body
      = headerText (lines.map fun line => (line, lf)) ++ cr :: lf :: body := by
    rw [headerText_crlf, List.append_assoc]
    rfl
  have hfields : addHeaderLines r.response (lines.map fun line => (line, lf)) = { r.response with
      headers := r.response.headers.assignAll (headerFields lines) } := by
    rw [addHeaderLines_eq, List.map_map]
    simp only [Function.comp_def, List.map_id']
  rw [headerLoop, hbuf, htext, ← hfields]
  exact (hrest _).mpr (leaves_of_leave (headerPass_blank lf body header' _))

/-- **A well-formed header block is parsed**: the loop ends, every field is in the headers under its
name, the last one of a name wins, what was there under other names stays, and the buffer is left
with the body. -/
theorem wellFormed_block_parsed {r : HTTPRequest} {lines : List Bytes}
    (hlines : ∀ line ∈ lines, line ≠ [] ∧ cr ∉ line) (body : Bytes)
    (hbuf : r.response.responseBuf = headerBlock lines ++ crlf ++ body) :
    (∃ l, Leaves headerPass r.headerLoop l) ∧
      ∃ response, r.onHeadersReceived .success = some ({ r with response }, .lock .readBody) ∧
        response.responseBuf = body ∧
        response.statusCode = r.response.statusCode ∧
        response.statusMessage = r.response.statusMessage ∧
        response.headers = r.response.headers.assignAll (headerFields lines) ∧
        ∀ name, response.headers.find name
          = ((headerFields lines).reverse.lookup name).or (r.response.headers.find name) := by
  have hleaves := leaves_of_block hlines hbuf
  have hloop := (leaves_headerPass_iff r _).mp hleaves
  refine ⟨⟨_, hleaves⟩, { r.response with
    responseBuf := body, headers := r.response.headers.assignAll (headerFields lines) },
    ?_, rfl, rfl, rfl, rfl, fun name => StdMap.find_assignAll _ _ _⟩
  simp only [onHeadersReceived, ErrorCode.success_value, ne_eq, not_true_eq_false, if_false, hloop,
    Option.map_some]

theorem wellFormed_block_parsed_two : (headerFields [bytes "a:1", bytes "b", bytes "a:"]).reverse
      = [(bytes "a", []), (bytes "a", bytes "1")] ∧
    ∃ response, ((create 1).withResponseBuf (bytes "a:1\r\nb\r\na:\r\n\r\n\r\n")).onHeadersReceived
        .success = some ({ (create 1).withResponseBuf
          (bytes "a:1\r\nb\r\na:\r\n\r\n\r\n") with response }, .lock .readBody) ∧
      response.responseBuf = crlf ∧ response.headers.find (bytes "a") = some [] := by
  obtain ⟨-, response, hhandler, hbody, -, -, -, hfind⟩ := wellFormed_block_parsed
    (r := (create 1).withResponseBuf (bytes "a:1\r\nb\r\na:\r\n\r\n\r\n"))
    (by decide : ∀ line ∈ [bytes "a:1", bytes "b", bytes "a:"], line ≠ [] ∧ cr ∉ line) crlf
    (by decide)
  exact ⟨by decide, response, hhandler, hbody, (hfind (bytes "a")).trans (by decide)⟩

end HTTPRequest

end AsioSamples
