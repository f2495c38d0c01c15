import AsioSamples.Http.ServiceHeaders

/-!
# Http/HeaderAgreement — the two header parsers side by side

`HTTPRequest` cuts its buffer into lines and looks for a `':'` in each; `HttpService` takes `':'`
and `'\r'` in turns.  They agree on a block unless a line without a `':'` comes before a line with
one (`headersOf_eq_iff`): the request skips that line, and the service makes it part of a name.

Both of them take all that follows the `':'` for the value, while both ends write a blank there
(`headersOf_encodeAll`); so no header comes back as it was written (`recovers_iff`).
-/

namespace AsioSamples

/-! ## The headers of a block -/

namespace HTTPRequest

/-- The request with a buffer to parse, and no headers yet. -/
def unparsed (r : HTTPRequest) (buf : Bytes) : HTTPRequest :=
  { r with response := { r.response with responseBuf := buf, headers := ∅ } }

/-- The headers that `on_headers_received` makes of a buffer, from none; `none` if it does not
return. -/
def headersOf (r : HTTPRequest) (buf : Bytes) : Option (StdMap Bytes Bytes) :=
  ((r.unparsed buf).onHeadersReceived .success).map (·.1.response.headers)

/-- **The request takes the fields of a block**, and skips the other lines. -/
theorem headersOf_block (r : HTTPRequest) {lines : List Bytes}
    (hlines : ∀ line ∈ lines, line ≠ [] ∧ cr ∉ line) :
    r.headersOf (headerBlock lines ++ crlf)
      = some ((∅ : StdMap Bytes Bytes).assignAll (headerFields lines)) := by
  obtain ⟨-, response, hhandler, -, -, -, hheaders, -⟩ := wellFormed_block_parsed
    (r := r.unparsed (headerBlock lines ++ crlf)) hlines [] (List.append_nil _).symm
  rw [headersOf, hhandler, Option.map_some, hheaders]
  rfl

end HTTPRequest

open HTTPRequest (headerBlock headerFields)

/-- **The two parsers agree on a block** exactly if each of its lines with a `':'` comes before all
of those without. -/
theorem headersOf_eq_iff (r : HTTPRequest) (s : HttpService) {lines : List Bytes}
    (hlines : ∀ line ∈ lines, line ≠ [] ∧ cr ∉ line) :
    r.headersOf (headerBlock lines ++ crlf) = some (s.headersOf (headerBlock lines ++ crlf)) ↔
      HttpService.ColonsFirst lines := by
  have hservice := s.requestHeaders_block_iff (fun line hline => (hlines line hline).2) []
  simp only [List.append_nil, List.not_mem_nil, not_false_eq_true, and_true] at hservice
  rw [r.headersOf_block hlines, Option.some.injEq, eq_comm, hservice]

theorem headersOf_eq_iff_two : (HTTPRequest.create 1).headersOf (bytes "a:1\r\nb\r\n\r\n")
    = some (({} : HttpService).headersOf (bytes "a:1\r\nb\r\n\r\n")) := by
  have hbuf : headerBlock [bytes "a:1", bytes "b"] ++ crlf = bytes "a:1\r\nb\r\n\r\n" := by decide
  rw [← hbuf]
  exact (headersOf_eq_iff _ _ (by decide)).mpr (by unfold HttpService.ColonsFirst; decide)

/-- After a line without a `':'` the request has `"a"`, and the service `"b\r\na"`. -/
theorem headersOf_ne_two : (HTTPRequest.create 1).headersOf (bytes "b\r\na:1\r\n\r\n")
    ≠ some (({} : HttpService).headersOf (bytes "b\r\na:1\r\n\r\n")) := by
  intro h
  have hname := congrArg (Option.map (·.find (bytes "a"))) h
  revert hname
  decide +kernel

/-! ## What both ends write -/

namespace HeaderField

/-- A header as `on_connection_established` and `process_request` write theirs. -/
def encode (f : HeaderField) : Bytes := f.name ++ bytes ": " ++ f.value ++ crlf

/-- The field that a parser finds in it. -/
def withBlank (f : HeaderField) : HeaderField where
  name := f.name
  value := bytes " " ++ f.value
  colon_name := f.colon_name
  cr_name := f.cr_name
  cr_value := by
    rw [List.mem_append, not_or]
    exact ⟨by decide, f.cr_value⟩

/-- The `Host` header of a request is one of these, and so is the one for the length. -/
theorem encode_host (r : HTTPRequest) (h : cr ∉ r.host) :
    bytes "Host: " ++ r.host ++ bytes "\r\n"
      = encode ⟨bytes "Host", r.host, by decide, by decide, h⟩ := by
  have hlit : bytes "Host: " = bytes "Host" ++ bytes ": " := by decide
  rw [hlit]
  rfl

theorem encode_eq (f : HeaderField) : f.encode = f.withBlank.line ++ crlf := by
  have hlit : bytes ": " = colon :: bytes " " := by decide
  simp [encode, withBlank, line, hlit]

/-- Headers, and the empty line after them. -/
def encodeAll (fields : List HeaderField) : Bytes := fields.flatMap encode ++ crlf

theorem encodeAll_eq (fields : List HeaderField) :
    encodeAll fields = headerBlock ((fields.map withBlank).map line) ++ crlf := by
  have hencode : encode = fun f => f.withBlank.line ++ crlf := funext encode_eq
  simp [encodeAll, headerBlock, List.flatMap_map, hencode]

/-- A map has the last value of every name. -/
def Recovers (fields : List HeaderField) (m : StdMap Bytes Bytes) : Prop :=
  ∀ f ∈ fields, m.find f.name = (fields.map entry).reverse.lookup f.name

end HeaderField

open HeaderField

/-- **Both parsers find every value with a blank before it.** -/
theorem headersOf_encodeAll (r : HTTPRequest) (s : HttpService) (fields : List HeaderField) :
    r.headersOf (encodeAll fields)
        = some ((∅ : StdMap Bytes Bytes).assignAll ((fields.map withBlank).map entry)) ∧
      s.headersOf (encodeAll fields)
        = (∅ : StdMap Bytes Bytes).assignAll ((fields.map withBlank).map entry) := by
  have hlines : ∀ l ∈ (fields.map withBlank).map line, l ≠ [] ∧ cr ∉ l := by
    intro l hl
    obtain ⟨f, -, rfl⟩ := List.mem_map.mp hl
    exact ⟨by simp [line], f.cr_line⟩
  constructor
  · rw [encodeAll_eq, r.headersOf_block hlines, headerFields_map_line]
  · have h := (s.headersOf_request_iff (fields.map withBlank) []).mpr List.not_mem_nil
    rwa [List.append_nil, ← encodeAll_eq] at h

/-- The last header does not come back. -/
theorem not_recovers_concat (fields : List HeaderField) (f : HeaderField) :
    ¬ Recovers (fields ++ [f])
      ((∅ : StdMap Bytes Bytes).assignAll (((fields ++ [f]).map withBlank).map entry)) := by
  intro h
  have hlast := h f (by simp)
  rw [StdMap.find_assignAll] at hlast
  have hblank : f.value ≠ bytes " " ++ f.value := fun heq => by
    have hlen := congrArg List.length heq
    rw [List.length_append] at hlen
    exact absurd hlen (by simp [bytes])
  exact hblank (by simpa [withBlank, entry, eq_comm] using hlast)

/-- **No header comes back as it was written.** -/
theorem recovers_iff (r : HTTPRequest) (s : HttpService) (fields : List HeaderField) :
    (∃ m, r.headersOf (encodeAll fields) = some m ∧ Recovers fields m) ∧
        Recovers fields (s.headersOf (encodeAll fields)) ↔
      fields = [] := by
  obtain ⟨-, hservice⟩ := headersOf_encodeAll r s fields
  constructor
  · rintro ⟨-, h⟩
    rw [hservice] at h
    rcases List.eq_nil_or_concat fields with hnil | ⟨init, f, rfl⟩
    · exact hnil
    · rw [List.concat_eq_append] at h
      exact absurd h (not_recovers_concat init f)
  · rintro rfl
    obtain ⟨hrequest, -⟩ := headersOf_encodeAll r s []
    exact ⟨⟨_, hrequest, fun f hf => absurd hf List.not_mem_nil⟩,
      fun f hf => absurd hf List.not_mem_nil⟩

/-- `Host: a`. -/
def hostField : HeaderField := ⟨bytes "Host", bytes "a", by decide, by decide, by decide⟩

/-- It comes back with the value `" a"`, from both parsers. -/
theorem not_recovers_hostField :
    (∀ m, (HTTPRequest.create 1).headersOf (encodeAll [hostField]) = some m →
      ¬ Recovers [hostField] m) ∧
      ¬ Recovers [hostField] (({} : HttpService).headersOf (encodeAll [hostField])) := by
  have hblank : ∀ m : StdMap Bytes Bytes, m.find (bytes "Host") = some (bytes " a") →
      ¬ Recovers [hostField] m := by
    intro m hm h
    have hvalue := h hostField (by simp)
    revert hvalue
    rw [show m.find hostField.name = some (bytes " a") from hm]
    decide
  constructor
  · rintro m hm
    refine hblank m ?_
    have hget : ((HTTPRequest.create 1).headersOf (encodeAll [hostField])).map
        (·.find (bytes "Host")) = some (some (bytes " a")) := by decide +kernel
    rw [hm] at hget
    exact Option.some.inj hget
  · exact hblank _ (by decide +kernel)

end AsioSamples
