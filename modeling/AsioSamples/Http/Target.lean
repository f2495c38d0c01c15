import AsioSamples.Http.Acceptance
import AsioSamples.Http.Parsing

/-!
# Http/Target — the target a byte stream asks for

Whether `HttpService` comes to `process_request`, and with what target, is a matter of the bytes it
is sent and of nothing else: not of their cut, and not of the system (`exists_parsed_iff`).
-/

namespace AsioSamples

namespace HttpService

/-- The stream asks for `target`: a CRLF and, behind the first line, a blank line come while they
fit in `m_request`; the line is what precedes the first `'\r'`, and one byte more goes with it. -/
inductive AsksFor (target : Bytes) : Bytes → Prop
  | intro {line rest : Bytes} {b : UInt8} (hline : cr ∉ line) (hwords : RequestWords target line)
    (hcrlf : crlf <:+: (line ++ cr :: b :: rest).take maxRequest)
    (hblank : crlfcrlf <:+: rest.take maxRequest) : AsksFor target (line ++ cr :: b :: rest)

/-- What is asked for on a stream whose first line is known. -/
theorem asksFor_iff {target line rest : Bytes} {b : UInt8} (hline : cr ∉ line) :
    AsksFor target (line ++ cr :: b :: rest) ↔ RequestWords target line ∧
      crlf <:+: (line ++ cr :: b :: rest).take maxRequest ∧
      crlfcrlf <:+: rest.take maxRequest := by
  constructor
  · intro h
    generalize hstream : line ++ cr :: b :: rest = stream at h
    cases h with
    | intro hline' hwords hcrlf hblank =>
      have hboth := congrArg (fun text => ({ rest := text } : IStream).getline cr []) hstream
      simp only [IStream.getline_append _ _ _ hline, IStream.getline_append _ _ _ hline'] at hboth
      cases hboth
      exact ⟨hwords, hcrlf, hblank⟩
  · rintro ⟨hwords, hcrlf, hblank⟩
    exact .intro hline hwords hcrlf hblank

/-- Nothing is asked for without a CRLF that fits. -/
theorem AsksFor.crlf_infix {target stream : Bytes} (h : AsksFor target stream) :
    crlf <:+: stream.take maxRequest := by
  cases h with
  | intro hline hwords hcrlf hblank => exact hcrlf

/-- **A stream asks for one target.** -/
theorem AsksFor.unique {target target' stream : Bytes} (h : AsksFor target stream)
    (h' : AsksFor target' stream) : target = target' := by
  cases h with
  | intro hline hwords hcrlf hblank =>
    have hboth := hwords.symm.trans ((asksFor_iff hline).mp h').1
    simpa using hboth

/-- A buffer with a CRLF in it is a line, two bytes and more. -/
theorem exists_line_of_infix {buf : Bytes} (h : crlf <:+: buf) :
    ∃ line b more, cr ∉ line ∧ buf = line ++ cr :: b :: more := by
  obtain ⟨pre, tail, rfl⟩ := h
  obtain ⟨line, b, left, hline, hpre⟩ := exists_line pre
  exact ⟨line, b, left ++ tail, hline, by rw [hpre]; simp⟩

/-- The request-line handler goes on to the headers with the three words of its line. -/
theorem onRequestLineReceived_readHeaders_iff (os : Os) {s s' : HttpService} {line more : Bytes}
    {b : UInt8} (hline : cr ∉ line) (hbuf : s.request = line ++ cr :: b :: more) :
    s.onRequestLineReceived os .success = .ok (s', .await .readHeaders) ↔
      ∃ target, RequestWords target line ∧
        s' = { s with request := more, requestedResource := target } := by
  constructor
  · intro h
    have hwords := requestWords_of_readHeaders hline hbuf h
    have hgoes := readHeaders_of_requestWords os hline hbuf hwords
    exact ⟨_, hwords, (Prod.mk.inj (Except.ok.inj (h.symm.trans hgoes))).1⟩
  · rintro ⟨target, hwords, rfl⟩
    exact readHeaders_of_requestWords os hline hbuf hwords

/-- A first line that cannot be read is not parsed. -/
theorem parsed_of_failed {os : Os} {chunks : List Bytes}
    (h : (readUntil (some maxRequest) crlf [] chunks).ec.value ≠ 0) : parsed os chunks = none := by
  rw [parsed]
  simp only
  split
  next s hs =>
    rcases onRequestLineReceived_cases os _ _ with ⟨-, hend⟩ | ⟨_, _, _, -, hend⟩ | ⟨hzero, -⟩
    · cases hend.symm.trans hs
    · obtain ⟨-, -, _, -, hc, -⟩ := sendResponse_ok (hend.symm.trans hs)
      cases hc
    · exact absurd hzero h
  next => rfl

/-- **The service comes to `process_request` with the target the stream asks for**, however it is
cut, and only with it. -/
theorem exists_parsed_iff (os : Os) {stream target : Bytes} {chunks : List Bytes}
    (hcut : IsCut stream chunks) :
    (∃ svc, parsed os chunks = some svc ∧ svc.requestedResource = target) ↔
      AsksFor target stream := by
  have hd := hcut.flatten ▸ readsUntil crlf chunks (fits_nil (some maxRequest))
  set d := readUntil (some maxRequest) crlf [] chunks with hdef
  have hverdict : d.ec = readVerdict (some maxRequest) crlf stream := hd.ec
  by_cases hcrlf : crlf <:+: stream.take maxRequest
  case neg =>
    have hfailed : d.ec.value ≠ 0 := by
      rw [hverdict]
      refine readVerdict_value ?_
      rw [readVerdict, capped, if_neg hcrlf]
      split <;> decide
    refine iff_of_false ?_ fun h => hcrlf h.crlf_infix
    rintro ⟨svc, hsvc, -⟩
    rw [parsed_of_failed (hdef ▸ hfailed)] at hsvc
    cases hsvc
  have hec : d.ec = .success := by rw [hverdict, readVerdict]; exact if_pos hcrlf
  obtain ⟨line, b, more, hline, hbuf⟩ := exists_line_of_infix (hd.found hec)
  rw [List.nil_append] at hbuf
  obtain rfl : line ++ cr :: b :: (more ++ d.rest.flatten) = stream := by
    rw [← hd.tile, hbuf]
    simp
  have hmore : Fits (some maxRequest) more :=
    (hbuf ▸ hd.fits : Fits (some maxRequest) ([] ++ (line ++ cr :: b :: more))).of_suffix
      ⟨line ++ [cr, b], by simp⟩
  have hd' := readsUntil crlfcrlf d.rest hmore
  rw [asksFor_iff hline, and_iff_right hcrlf]
  constructor
  · rintro ⟨svc, hsvc, rfl⟩
    obtain ⟨request, resource, d', -, hgoes, rfl, hzero, rfl⟩ := parsed_eq_some hsvc
    rw [← hdef, hec] at hgoes
    obtain ⟨target, hwords, hs⟩ := (onRequestLineReceived_readHeaders_iff os hline hbuf).mp hgoes
    cases hs
    refine ⟨hwords, ?_⟩
    by_contra hblank
    rw [← hdef, hd'.ec] at hzero
    refine readVerdict_value ?_ hzero
    rw [readVerdict, capped, if_neg hblank]
    split <;> decide
  · rintro ⟨hwords, hblank⟩
    have hgoes := (onRequestLineReceived_readHeaders_iff os (s := { request := d.received })
      hline hbuf).mpr ⟨target, hwords, rfl⟩
    have hzero : (readUntil (some maxRequest) crlfcrlf more d.rest).ec.value = 0 := by
      rw [hd'.ec, readVerdict, capped, if_pos hblank]
      rfl
    rw [parsed]
    simp only [← hdef, hec, hgoes]
    rw [if_pos hzero]
    exact ⟨_, rfl, rfl⟩

end HttpService

end AsioSamples
