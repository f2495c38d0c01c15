import AsioSamples.Cpp.Bytes

/-!
# Cpp/IStream — formatted and unformatted extraction from a `std::istream`

A stream is the bytes its buffer still holds and two state bits.  Every extraction first builds a
sentry: on a stream that is not `good` it sets `failbit`, extracts nothing and leaves its string
argument as it was.

The lemmas read each extraction off the shape of the remaining bytes: `getline_append` when the
delimiter is there, `getline_of_notMem` when it is not, `extract_append` for a token that white
space ends.  Extractions in a row take the words of a text, one by one (`Yields.extract`).
-/

namespace AsioSamples

/-- A `std::istream`: the unread bytes of its buffer and the state bits. -/
structure IStream where
  rest : Bytes
  eofbit : Bool := false
  failbit : Bool := false
  deriving DecidableEq, Repr

namespace IStream

/-- `good()`. -/
def good (s : IStream) : Bool := !s.eofbit && !s.failbit

/-- `std::getline(s, str, delim)`: the line goes to `str` and the delimiter is dropped.  At the end
of the buffer `eofbit` is set, and `failbit` too if not a single byte was extracted. -/
def getline (s : IStream) (delim : UInt8) (str : Bytes) : Bytes × IStream :=
  if s.good then
    match s.rest.dropWhile (· != delim) with
    | _ :: tail => (s.rest.takeWhile (· != delim), { s with rest := tail })
    | [] => (s.rest, { rest := [], eofbit := true, failbit := s.rest.isEmpty })
  else (str, { s with failbit := true })

/-- `s.get()`, whose result no caller here looks at: one byte is dropped. -/
def get (s : IStream) : IStream :=
  if s.good then
    match s.rest with
    | _ :: tail => { s with rest := tail }
    | [] => { s with eofbit := true, failbit := true }
  else { s with failbit := true }

/-- `s >> str`: skips white space and extracts up to the next white space, which stays.  Without a
byte to extract the sentry fails and `str` keeps its value. -/
def extract (s : IStream) (str : Bytes) : Bytes × IStream :=
  if s.good then
    match s.rest.dropWhile isSpace with
    | [] => (str, { rest := [], eofbit := true, failbit := true })
    | b :: bs =>
      let tail := (b :: bs).dropWhile (!isSpace ·)
      ((b :: bs).takeWhile (!isSpace ·), { s with rest := tail, eofbit := tail.isEmpty })
  else (str, { s with failbit := true })

@[simp] theorem good_mk (buf : Bytes) : ({ rest := buf } : IStream).good = true := rfl

/-- A stream that is `good` is no more than its bytes. -/
theorem eq_mk_of_good {s : IStream} (h : s.good) : s = { rest := s.rest } := by
  obtain ⟨rest, eofbit, failbit⟩ := s
  simp only [good, Bool.and_eq_true, Bool.not_eq_true'] at h
  obtain ⟨rfl, rfl⟩ := h
  rfl

/-! ## `getline` -/

/-- On a stream that is not `good` the string argument is left unchanged. -/
theorem getline_of_not_good {s : IStream} (h : s.good = false) (delim : UInt8) (str : Bytes) :
    s.getline delim str = (str, { s with failbit := true }) := by
  simp [getline, h]

/-- **`getline` up to the first delimiter.** -/
theorem getline_append (line tail str : Bytes) {delim : UInt8} (hline : delim ∉ line) :
    ({ rest := line ++ delim :: tail } : IStream).getline delim str
      = (line, { rest := tail }) := by
  have hne : ∀ b ∈ line, (b != delim) = true := fun b hb => by
    simpa using fun h : b = delim => hline (h ▸ hb)
  have hdrop : (line ++ delim :: tail).dropWhile (· != delim) = delim :: tail := by
    rw [List.dropWhile_append_of_pos hne, List.dropWhile_cons_of_neg (by simp)]
  have htake : (line ++ delim :: tail).takeWhile (· != delim) = line := by
    rw [List.takeWhile_append_of_pos hne, List.takeWhile_cons_of_neg (by simp), List.append_nil]
  simp only [getline, good_mk, if_true, hdrop, htake]

/-- The first line is determined by the bytes. -/
theorem eq_of_append_delim {line line' tail tail' : Bytes} {delim : UInt8} (hline : delim ∉ line)
    (hline' : delim ∉ line') (h : line ++ delim :: tail = line' ++ delim :: tail') :
    line = line' ∧ tail = tail' := by
  have hget := getline_append line tail [] hline
  rw [h, getline_append line' tail' [] hline'] at hget
  simpa [eq_comm] using hget

/-- Of a line and its delimiter only the whole has the delimiter in it. -/
theorem eq_of_prefix_of_mem {line buf : Bytes} {delim : UInt8} (hline : delim ∉ line)
    (hbuf : buf <+: line ++ [delim]) (hmem : delim ∈ buf) : buf = line ++ [delim] := by
  rcases List.prefix_concat_iff.mp hbuf with heq | hshort
  · exact heq
  · exact absurd (hshort.subset hmem) hline

/-- **`getline` without a delimiter takes all there is** and ends the stream. -/
theorem getline_of_notMem (buf str : Bytes) {delim : UInt8} (hbuf : delim ∉ buf) :
    ({ rest := buf } : IStream).getline delim str
      = (buf, { rest := [], eofbit := true, failbit := buf.isEmpty }) := by
  have hdrop : buf.dropWhile (· != delim) = [] :=
    List.dropWhile_eq_nil_iff.mpr fun b hb => by simpa using fun h : b = delim => hbuf (h ▸ hb)
  simp only [getline, good_mk, if_true, hdrop]

/-- The two ways a `getline` on a good stream can go. -/
theorem getline_cases (buf str : Bytes) (delim : UInt8) :
    (∃ line tail, buf = line ++ delim :: tail ∧ delim ∉ line ∧
        ({ rest := buf } : IStream).getline delim str = (line, { rest := tail })) ∨
      (delim ∉ buf ∧ ({ rest := buf } : IStream).getline delim str
        = (buf, { rest := [], eofbit := true, failbit := buf.isEmpty })) := by
  by_cases h : delim ∈ buf
  · obtain ⟨line, tail, rfl, hline⟩ := List.eq_append_cons_of_mem h
    exact Or.inl ⟨line, tail, rfl, hline, getline_append line tail str hline⟩
  · exact Or.inr ⟨h, getline_of_notMem buf str h⟩

/-- A line has no delimiter in it; without one the string argument is left unchanged. -/
theorem getline_notMem (s : IStream) {delim : UInt8} {str : Bytes} (hstr : delim ∉ str) :
    delim ∉ (s.getline delim str).1 := by
  by_cases hgood : s.good
  · rw [eq_mk_of_good hgood]
    rcases getline_cases s.rest str delim with ⟨line, tail, -, hline, hget⟩ | ⟨hbuf, hget⟩
    · rwa [hget]
    · rwa [hget]
  · rwa [getline_of_not_good (by simpa using hgood)]

/-- A `getline` puts nothing back, and takes a byte if there is one. -/
theorem length_getline (s : IStream) (delim : UInt8) (str : Bytes) :
    (s.getline delim str).2.rest.length ≤ s.rest.length ∧
      (s.good → s.rest ≠ [] → (s.getline delim str).2.rest.length < s.rest.length) := by
  by_cases hgood : s.good
  · rw [eq_mk_of_good hgood]
    rcases getline_cases s.rest str delim with ⟨line, tail, hsplit, -, hget⟩ | ⟨-, hget⟩
    · rw [hget, hsplit]
      simp only [List.length_append, List.length_cons]
      omega
    · rw [hget]
      exact ⟨Nat.zero_le _, fun _ hne => List.length_pos_of_ne_nil hne⟩
  · rw [getline_of_not_good (by simpa using hgood)]
    exact ⟨le_rfl, fun h => absurd h hgood⟩

/-! ## `get` -/

theorem length_get_le (s : IStream) : s.get.rest.length ≤ s.rest.length := by
  unfold get
  split
  · split <;> simp_all
  · exact le_rfl

@[simp] theorem get_cons (b : UInt8) (tail : Bytes) :
    ({ rest := b :: tail } : IStream).get = { rest := tail } := rfl

theorem get_of_not_good {s : IStream} (h : s.good = false) :
    s.get = { s with failbit := true } := by
  simp [get, h]

/-! ## `>>` -/

/-- **A token that white space ends**, after any white space before it. -/
theorem extract_append (ws token : Bytes) (b : UInt8) (tail str : Bytes)
    (hws : ∀ c ∈ ws, isSpace c) (htoken : ∀ c ∈ token, isSpace c = false) (hne : token ≠ [])
    (hb : isSpace b) :
    ({ rest := ws ++ token ++ b :: tail } : IStream).extract str
      = (token, { rest := b :: tail }) := by
  obtain ⟨t, ts, rfl⟩ := List.exists_cons_of_ne_nil hne
  have hskip : (ws ++ (t :: ts) ++ b :: tail).dropWhile isSpace = t :: (ts ++ b :: tail) := by
    rw [List.append_assoc, List.dropWhile_append_of_pos hws, List.cons_append,
      List.dropWhile_cons_of_neg (by simp [htoken t (by simp)])]
  have hall : ∀ c ∈ t :: ts, (!isSpace c) = true := fun c hc => by simp [htoken c hc]
  have htail : (t :: (ts ++ b :: tail)).dropWhile (!isSpace ·) = b :: tail := by
    rw [← List.cons_append, List.dropWhile_append_of_pos hall,
      List.dropWhile_cons_of_neg (by simp [hb])]
  have htake : (t :: (ts ++ b :: tail)).takeWhile (!isSpace ·) = t :: ts := by
    rw [← List.cons_append, List.takeWhile_append_of_pos hall,
      List.takeWhile_cons_of_neg (by simp [hb]), List.append_nil]
  simp only [extract, good_mk, if_true, hskip, htail, htake, List.isEmpty_cons]

/-- **A token that the end of the buffer ends.** -/
theorem extract_last (ws token str : Bytes) (hws : ∀ c ∈ ws, isSpace c)
    (htoken : ∀ c ∈ token, isSpace c = false) (hne : token ≠ []) :
    ({ rest := ws ++ token } : IStream).extract str
      = (token, { rest := [], eofbit := true }) := by
  obtain ⟨t, ts, rfl⟩ := List.exists_cons_of_ne_nil hne
  have hskip : (ws ++ (t :: ts)).dropWhile isSpace = t :: ts := by
    rw [List.dropWhile_append_of_pos hws,
      List.dropWhile_cons_of_neg (by simp [htoken t (by simp)])]
  have hall : ∀ c ∈ t :: ts, (!isSpace c) = true := fun c hc => by simp [htoken c hc]
  have htail : (t :: ts).dropWhile (!isSpace ·) = [] :=
    List.dropWhile_eq_nil_iff.mpr hall
  have htake : (t :: ts).takeWhile (!isSpace ·) = t :: ts :=
    List.takeWhile_eq_self_iff.mpr hall
  simp only [extract, good_mk, if_true, hskip, htail, htake, List.isEmpty_nil]

/-- **Without a token** the string argument keeps its value, and the stream ends. -/
theorem extract_blank (ws str : Bytes) (hws : ∀ c ∈ ws, isSpace c) :
    ({ rest := ws } : IStream).extract str
      = (str, { rest := [], eofbit := true, failbit := true }) := by
  have hskip : ws.dropWhile isSpace = [] := List.dropWhile_eq_nil_iff.mpr hws
  simp only [extract, good_mk, if_true, hskip]

theorem extract_of_not_good {s : IStream} (h : s.good = false) (str : Bytes) :
    s.extract str = (str, { s with failbit := true }) := by
  simp [extract, h]

/-- The bytes up to the first one that fails a test. -/
theorem all_or_first (p : UInt8 → Bool) : ∀ buf : Bytes,
    (∀ c ∈ buf, p c) ∨ ∃ u b v, buf = u ++ b :: v ∧ (∀ c ∈ u, p c) ∧ p b = false
  | [] => Or.inl (by simp)
  | c :: buf => by
    by_cases hc : p c
    · rcases all_or_first p buf with h | ⟨u, b, v, rfl, hu, hb⟩
      · exact Or.inl (List.forall_mem_cons.mpr ⟨hc, h⟩)
      · exact Or.inr ⟨c :: u, b, v, rfl, List.forall_mem_cons.mpr ⟨hc, hu⟩, hb⟩
    · exact Or.inr ⟨[], c, buf, rfl, by simp, by simpa using hc⟩

/-- What there is to extract: a token that white space ends, or one, maybe empty, that the end of
the buffer does. -/
theorem token_cases (buf : Bytes) :
    (∃ ws token, buf = ws ++ token ∧ (∀ c ∈ ws, isSpace c) ∧ ∀ c ∈ token, isSpace c = false) ∨
      ∃ ws token b tail, buf = ws ++ token ++ b :: tail ∧ (∀ c ∈ ws, isSpace c) ∧
        (∀ c ∈ token, isSpace c = false) ∧ token ≠ [] ∧ isSpace b := by
  rcases all_or_first isSpace buf with hws | ⟨ws, t, rest, rfl, hws, ht⟩
  · exact Or.inl ⟨buf, [], (List.append_nil buf).symm, hws, by simp⟩
  rcases all_or_first (!isSpace ·) rest with hrest | ⟨ts, b, tail, rfl, hts, hb⟩
  · exact Or.inl ⟨ws, t :: rest, rfl, hws, List.forall_mem_cons.mpr ⟨ht, by simpa using hrest⟩⟩
  · exact Or.inr ⟨ws, t :: ts, b, tail, by simp, hws,
      List.forall_mem_cons.mpr ⟨ht, by simpa using hts⟩, by simp, by simpa using hb⟩

/-- A token has no white space in it; without one the string argument is left unchanged. -/
theorem extract_cases (s : IStream) (str : Bytes) :
    (s.extract str).1 = str ∨ ∀ b ∈ (s.extract str).1, isSpace b = false := by
  unfold extract
  split
  · split
    · exact Or.inl rfl
    · exact Or.inr fun b hb => by simpa using List.mem_takeWhile_imp hb
  · exact Or.inl rfl

/-! ## The words of a text -/

/-- The words of a text: what is between its white space. -/
def words (buf : Bytes) : List Bytes := (buf.splitOnP isSpace).filter (· ≠ [])

@[simp] theorem words_nil : words [] = [] := rfl

/-- White space ends a word, if there is one. -/
theorem words_append_cons {token : Bytes} (htoken : ∀ c ∈ token, isSpace c = false) {b : UInt8}
    (hb : isSpace b) (tail : Bytes) :
    words (token ++ b :: tail) = if token = [] then words tail else token :: words tail := by
  rw [words, List.splitOnP_append_cons_of_forall_mem htoken b hb, List.filter_cons]
  by_cases htoken : token = [] <;> simp [htoken, words]

theorem words_cons {b : UInt8} (hb : isSpace b) (tail : Bytes) : words (b :: tail) = words tail :=
  (@words_append_cons [] (by simp) b hb tail).trans (if_pos rfl)

/-- The end of the text ends a word, too. -/
theorem words_of_solid {token : Bytes} (htoken : ∀ c ∈ token, isSpace c = false)
    (hne : token ≠ []) : words token = [token] := by
  simp [words, List.splitOnP_eq_singleton htoken, hne]

/-- White space before a word is skipped. -/
theorem words_blank_append {ws : Bytes} (hws : ∀ c ∈ ws, isSpace c) (buf : Bytes) :
    words (ws ++ buf) = words buf := by
  induction ws with
  | nil => rfl
  | cons b ws ih =>
    obtain ⟨hb, hws⟩ := List.forall_mem_cons.mp hws
    exact (words_cons hb (ws ++ buf)).trans (ih hws)

/-- A stream from which these words, and no more, can be extracted. -/
def Yields (s : IStream) (tokens : List Bytes) : Prop :=
  (s.good = false ∧ tokens = []) ∨ s.good ∧ words s.rest = tokens

/-- **`>>` extracts the next word**; without one its argument keeps its value. -/
theorem Yields.extract {s : IStream} {tokens : List Bytes} (h : s.Yields tokens) (str : Bytes) :
    (s.extract str).1 = tokens.head?.getD str ∧ (s.extract str).2.Yields tokens.tail := by
  rcases h with ⟨hgood, rfl⟩ | ⟨hgood, rfl⟩
  · rw [extract_of_not_good hgood]
    exact ⟨rfl, Or.inl ⟨by simp [good], rfl⟩⟩
  · rw [eq_mk_of_good hgood]
    set buf := s.rest
    rcases token_cases buf with ⟨ws, token, hbuf, hws, htoken⟩ |
      ⟨ws, token, b, tail, hbuf, hws, htoken, hne, hb⟩
    · rw [hbuf]
      by_cases hne : token = []
      · subst hne
        rw [List.append_nil, extract_blank ws str hws]
        have hwords : words ws = [] := by simpa using words_blank_append hws []
        rw [hwords]
        exact ⟨rfl, Or.inl ⟨rfl, rfl⟩⟩
      · rw [extract_last ws token str hws htoken hne, words_blank_append hws,
          words_of_solid htoken hne]
        exact ⟨rfl, Or.inl ⟨rfl, rfl⟩⟩
    · rw [hbuf, extract_append ws token b tail str hws htoken hne hb, List.append_assoc,
        words_blank_append hws, words_append_cons htoken hb, if_neg hne]
      exact ⟨rfl, Or.inr ⟨rfl, words_cons hb tail⟩⟩

end IStream

end AsioSamples
