import AsioSamples.Asio.Delivery
import AsioSamples.Cpp.IStream

/-!
# Buffers/Delimiter — `ReadFromSocketByDelimiter`

Each call reads into a `streambuf` of its own, takes the first record out of it, and drops the
`streambuf` with whatever else has arrived in it.  A sequence of calls therefore returns the records
of a stream when every chunk of it ends with the record it completes, and otherwise never does
(`calls_eq_iff`).  `HttpService` and `AsyncTCPClient` keep their `streambuf`s as members.
-/

namespace AsioSamples

namespace Delimiter

/-! ## One call and many -/

/-- `read_until` into a new `streambuf`, and `getline` from it, on the chunks still to come: the
line, and the chunks the next call finds. -/
def readLine (delimiter : UInt8) (chunks : List Bytes) : Except ErrorCode (Bytes × List Bytes) :=
  let d := readUntil none [delimiter] [] chunks
  if d.ec.value ≠ 0 then .error d.ec
  else .ok ((({ rest := d.received } : IStream).getline delimiter []).1, d.rest)

/-- `ReadFromSocketByDelimiter<Socket, delimiter>`, which may throw a `runtime_error`; `what` is the
text of the `system_error` for a code. -/
def readFromSocketByDelimiter (what : ErrorCode → Bytes) (delimiter : UInt8) (chunks : List Bytes) :
    Except Bytes (Bytes × List Bytes) :=
  (readLine delimiter chunks).mapError fun ec =>
    bytes "Failed to read to socket. Error code = " ++ (bytes ". Message: " ++ what ec)

/-- `SyncTCPClient::ReceiveResponse`, which may throw a `system_error`. -/
def receiveResponse (chunks : List Bytes) : Except ErrorCode (Bytes × List Bytes) :=
  readLine lf chunks

/-- `n` calls of `read` in succession. -/
def calls {ε : Type} (read : List Bytes → Except ε (Bytes × List Bytes)) :
    ℕ → List Bytes → Except ε (List Bytes)
  | 0, _ => .ok []
  | n + 1, chunks =>
    match read chunks with
    | .error e => .error e
    | .ok (line, rest) => (calls read n rest).map (line :: ·)

theorem map_eq_ok_iff {ε α β : Type} {x : Except ε α} {f : α → β} {b : β} :
    x.map f = .ok b ↔ ∃ a, x = .ok a ∧ f a = b := by
  cases x <;> simp [Except.map]

/-- Calls that throw something else return the same. -/
theorem calls_mapError {ε ε' : Type} (f : ε → ε')
    (read : List Bytes → Except ε (Bytes × List Bytes)) (n : ℕ) (chunks : List Bytes) :
    calls (fun chunks => (read chunks).mapError f) n chunks = (calls read n chunks).mapError f := by
  induction n generalizing chunks with
  | zero => rfl
  | succ n ih =>
    rw [calls, calls]
    cases read chunks with
    | error e => rfl
    | ok r =>
      change (calls (fun chunks => (read chunks).mapError f) n r.2).map (r.1 :: ·)
        = ((calls read n r.2).map (r.1 :: ·)).mapError f
      rw [ih]
      cases calls read n r.2 <;> rfl

/-- The records on the wire. -/
def encode (delimiter : UInt8) (records : List Bytes) : Bytes :=
  (records.map (· ++ [delimiter])).flatten

@[simp] theorem encode_nil (delimiter : UInt8) : encode delimiter [] = [] := rfl

@[simp] theorem encode_cons (delimiter : UInt8) (r : Bytes) (records : List Bytes) :
    encode delimiter (r :: records) = r ++ delimiter :: encode delimiter records := by
  simp [encode]

/-! ## What a call takes -/

variable {delimiter : UInt8}

/-- **A read stops in the first chunk with the delimiter.** -/
theorem exists_readUntil {buf : Bytes} {chunks : List Bytes} (hbuf : delimiter ∉ buf)
    (h : delimiter ∈ chunks.flatten) : ∃ before front back rest,
      chunks = before ++ (front ++ delimiter :: back) :: rest ∧
        delimiter ∉ before.flatten ++ front ∧
        readUntil none [delimiter] buf chunks
          = ⟨.success, before.flatten ++ front ++ delimiter :: back, rest⟩ := by
  induction chunks generalizing buf with
  | nil => cases h
  | cons chunk chunks ih =>
    have hmissing : ¬ [delimiter] <:+: buf := (List.singleton_infix_iff _ _).not.mpr hbuf
    by_cases hchunk : delimiter ∈ chunk
    · obtain ⟨front, back, rfl, hfront⟩ := List.eq_append_cons_of_mem hchunk
      refine ⟨[], front, back, chunks, rfl, hfront, ?_⟩
      have hnow : [delimiter] <:+: buf ++ (front ++ delimiter :: back) :=
        (List.singleton_infix_iff _ _).mpr (by simp)
      rw [readUntil_none_cons hmissing, readUntil_of_found _ hnow]
      simp
    · have hmem : delimiter ∈ chunks.flatten := by
        rw [List.flatten_cons, List.mem_append] at h
        exact h.resolve_left hchunk
      have hbuf' : delimiter ∉ buf ++ chunk := by simp [hbuf, hchunk]
      obtain ⟨before, front, back, rest, rfl, hnot, hread⟩ := ih hbuf' hmem
      refine ⟨chunk :: before, front, back, rest, rfl, ?_, ?_⟩
      · rw [List.flatten_cons, List.append_assoc, List.mem_append]
        exact not_or.mpr ⟨hchunk, hnot⟩
      · rw [readUntil_none_cons hmissing, hread]
        simp

/-- **A call returns the first record**, and drops what has arrived with the end of it. -/
theorem exists_readLine {chunks : List Bytes} (h : delimiter ∈ chunks.flatten) :
    ∃ before front back rest, chunks = before ++ (front ++ delimiter :: back) :: rest ∧
      delimiter ∉ before.flatten ++ front ∧
      readLine delimiter chunks = .ok (before.flatten ++ front, rest) := by
  obtain ⟨before, front, back, rest, hchunks, hnot, hread⟩ :=
    exists_readUntil (List.not_mem_nil (a := delimiter)) h
  refine ⟨before, front, back, rest, hchunks, hnot, ?_⟩
  simp only [readLine, hread, IStream.getline_append _ _ _ hnot]
  rfl

/-- What a call returns was in the stream, with the delimiter after it and what it drops. -/
theorem exists_flatten_of_readLine {chunks rest : List Bytes} {line : Bytes}
    (h : readLine delimiter chunks = .ok (line, rest)) :
    ∃ back, chunks.flatten = line ++ delimiter :: (back ++ rest.flatten) := by
  unfold readLine at h
  simp only at h
  split at h
  · cases h
  next hec =>
    have hd := readsUntil [delimiter] chunks (fits_nil none)
    have hsuccess : (readUntil none [delimiter] [] chunks).ec = .success := by
      by_contra hne
      rw [hd.ec] at hne hec
      exact hec (readVerdict_value hne)
    have hmem := (List.singleton_infix_iff _ _).mp (hd.found hsuccess)
    rw [List.nil_append] at hmem
    obtain ⟨front, back, hreceived, hfront⟩ := List.eq_append_cons_of_mem hmem
    rw [hreceived, IStream.getline_append _ _ _ hfront] at h
    cases h
    refine ⟨back, ?_⟩
    rw [← hd.tile, hreceived]
    simp

/-- As many bytes as a sequence of calls has returned, with a delimiter for each call, have been in
the stream. -/
theorem length_encode_le_of_calls : ∀ {n : ℕ} {chunks lines : List Bytes},
    calls (readLine delimiter) n chunks = .ok lines →
      (encode delimiter lines).length ≤ chunks.flatten.length
  | 0, _, _, h => by
    cases h
    exact Nat.zero_le _
  | n + 1, chunks, lines, h => by
    unfold calls at h
    split at h
    · cases h
    next line rest hread =>
      obtain ⟨lines', hcalls, rfl⟩ := map_eq_ok_iff.mp h
      obtain ⟨back, hflatten⟩ := exists_flatten_of_readLine hread
      have hle := length_encode_le_of_calls hcalls
      simp only [hflatten, encode_cons, List.length_append, List.length_cons]
      omega

/-! ## A sequence of calls -/

/-- **Records come through where every chunk ends with the record it completes.** -/
theorem calls_readLine_eq_iff {records chunks : List Bytes}
    (hrecords : ∀ r ∈ records, delimiter ∉ r) (hcut : IsCut (encode delimiter records) chunks) :
    calls (readLine delimiter) records.length chunks = .ok records
      ↔ ∀ chunk ∈ chunks, delimiter ∉ chunk.dropLast := by
  induction records generalizing chunks with
  | nil =>
    have hnone : chunks = [] := List.eq_nil_iff_forall_not_mem.mpr fun chunk hmem =>
      hcut.ne_nil_of_mem chunk hmem (List.flatten_eq_nil_iff.mp hcut.flatten chunk hmem)
    subst hnone
    exact iff_of_true rfl fun _ h => absurd h List.not_mem_nil
  | cons r records ih =>
    have hflatten := hcut.flatten
    rw [encode_cons] at hflatten
    obtain ⟨before, front, back, rest, rfl, hnot, hread⟩ :=
      @exists_readLine delimiter chunks (by simp [hflatten])
    have hsplit : (before.flatten ++ front) ++ delimiter :: (back ++ rest.flatten)
        = r ++ delimiter :: encode delimiter records := by
      rw [← hflatten]
      simp
    obtain ⟨hline, htail⟩ := IStream.eq_of_append_delim hnot (hrecords r (by simp)) hsplit
    simp only [List.length_cons, calls, hread, hline, map_eq_ok_iff, List.cons.injEq, true_and,
      exists_eq_right]
    cases back with
    | nil =>
      have hrest : IsCut (encode delimiter records) rest :=
        ⟨htail, fun chunk hmem => hcut.ne_nil_of_mem chunk (by simp [hmem])⟩
      rw [ih (fun r' hr' => hrecords r' (by simp [hr'])) hrest]
      have hbefore : ∀ chunk ∈ before, delimiter ∉ chunk.dropLast := fun chunk hmem hd =>
        hnot (List.mem_append_left _
          (List.mem_flatten_of_mem hmem (List.dropLast_subset chunk hd)))
      have hfront : delimiter ∉ front := fun hd => hnot (List.mem_append_right _ hd)
      simp only [List.forall_mem_append, List.forall_mem_cons, List.dropLast_concat, hfront,
        not_false_eq_true, true_and]
      exact ⟨fun hall => ⟨hbefore, hall⟩, And.right⟩
    | cons b bs =>
      refine iff_of_false (fun hcalls => ?_) fun hall => ?_
      · -- the bytes that the call has dropped are missing
        have hle := length_encode_le_of_calls hcalls
        rw [← htail] at hle
        simp only [List.length_append, List.length_cons] at hle
        omega
      · refine hall (front ++ delimiter :: b :: bs) (by simp) ?_
        rw [List.dropLast_append_of_ne_nil (by simp), List.dropLast_cons_cons]
        simp

/-- The synchronous client reads the responses of a server that way, too. -/
theorem calls_receiveResponse_eq_iff {responses chunks : List Bytes}
    (hresponses : ∀ r ∈ responses, lf ∉ r) (hcut : IsCut (encode lf responses) chunks) :
    calls receiveResponse responses.length chunks = .ok responses
      ↔ ∀ chunk ∈ chunks, lf ∉ chunk.dropLast :=
  calls_readLine_eq_iff hresponses hcut

/-- **No record is lost or torn exactly if no chunk goes on after a delimiter.** -/
theorem calls_eq_iff (what : ErrorCode → Bytes) {records chunks : List Bytes}
    (hrecords : ∀ r ∈ records, delimiter ∉ r) (hcut : IsCut (encode delimiter records) chunks) :
    calls (readFromSocketByDelimiter what delimiter) records.length chunks = .ok records
      ↔ ∀ chunk ∈ chunks, delimiter ∉ chunk.dropLast := by
  rw [← calls_readLine_eq_iff hrecords hcut]
  unfold readFromSocketByDelimiter
  rw [calls_mapError]
  cases calls (readLine delimiter) records.length chunks <;> simp [Except.mapError]

/-- The text of the `system_error` for the end of a stream. -/
def sampleWhat (_ : ErrorCode) : Bytes := bytes "read_until: End of file"

/-- Each record in a chunk of its own, the first one even in two. -/
theorem calls_eq_iff_sample :
    calls (readFromSocketByDelimiter sampleWhat 64) 2 [bytes "abc", bytes "def@", bytes "ghijk@"]
      = .ok [bytes "abcdef", bytes "ghijk"] := by
  have hcut : IsCut (encode 64 [bytes "abcdef", bytes "ghijk"])
      [bytes "abc", bytes "def@", bytes "ghijk@"] := ⟨by decide, by decide⟩
  exact (calls_eq_iff sampleWhat (by decide) hcut).mpr (by decide)

/-- Two records in one chunk: the second call never returns the second one. -/
theorem exists_calls_ne :
    IsCut (encode 64 [bytes "abcdef", bytes "ghijk"]) [bytes "abcdef@ghijk@"] ∧
      calls (readFromSocketByDelimiter sampleWhat 64) 1 [bytes "abcdef@ghijk@"]
        = .ok [bytes "abcdef"] ∧
      ∀ lines, calls (readFromSocketByDelimiter sampleWhat 64) 2 [bytes "abcdef@ghijk@"]
        ≠ .ok lines := by
  refine ⟨⟨by decide, by decide⟩, by decide, fun lines h => ?_⟩
  have hthrows : calls (readFromSocketByDelimiter sampleWhat 64) 2 [bytes "abcdef@ghijk@"]
      = .error
        (bytes "Failed to read to socket. Error code = . Message: read_until: End of file") := by
    decide
  rw [hthrows] at h
  cases h

end Delimiter

end AsioSamples
