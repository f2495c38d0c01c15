import AsioSamples.Cpp.Bytes

/-!
# Asio/Delivery — error codes, and what a read sees of a byte stream cut into chunks

TCP delivers a stream in pieces of its own choosing.  `readUntil` is `asio::async_read_until` on a
`streambuf` over such a sequence of pieces: it searches what is buffered, reads one more piece while
the delimiter is missing, and never lets the buffer outgrow its `max_size`.

Two facts carry every use of it.  What it reports depends on the stream alone and not on the cut
(`readUntil_ec`); and a buffer in which the delimiter was found holds everything up to its first
occurrence, plus some prefix of what follows (`FirstAt.exists_readAhead`).
-/

namespace AsioSamples

/-! ## `boost::system::error_code` -/

/-- A `boost::system::error_code`: a value and the name of its category. -/
structure ErrorCode where
  value : ℤ
  category : String
  deriving DecidableEq, Repr

namespace ErrorCode

/-- A default constructed `error_code`. -/
def success : ErrorCode := ⟨0, "system"⟩

/-- `asio::error::eof`. -/
def eof : ErrorCode := ⟨2, "asio.misc"⟩

/-- `asio::error::not_found`. -/
def notFound : ErrorCode := ⟨3, "asio.misc"⟩

/-- `asio::error::operation_aborted`, with the value it has on Windows. -/
def operationAborted : ErrorCode := ⟨995, "system"⟩

@[simp] theorem success_value : success.value = 0 := rfl

@[simp] theorem eof_value : eof.value = 2 := rfl

@[simp] theorem notFound_value : notFound.value = 3 := rfl

@[simp] theorem operationAborted_value : operationAborted.value = 995 := rfl

theorem eof_ne_success : eof ≠ success := by decide

theorem notFound_ne_success : notFound ≠ success := by decide

end ErrorCode

/-! ## Cutting a stream into chunks -/

/-- A way TCP may deliver each byte stream: in non-empty chunks, in order. -/
structure Segmentation where
  cut : Bytes → List Bytes
  flatten_cut : ∀ stream, (cut stream).flatten = stream
  ne_nil_of_mem : ∀ stream, ∀ chunk ∈ cut stream, chunk ≠ []

/-- One way to deliver `stream`. -/
structure IsCut (stream : Bytes) (chunks : List Bytes) : Prop where
  flatten : chunks.flatten = stream
  ne_nil_of_mem : ∀ chunk ∈ chunks, chunk ≠ []

theorem Segmentation.isCut (seg : Segmentation) (stream : Bytes) : IsCut stream (seg.cut stream) :=
  ⟨seg.flatten_cut stream, seg.ne_nil_of_mem stream⟩

/-- Every byte a chunk of its own. -/
def Segmentation.bytewise : Segmentation where
  cut stream := stream.map fun b => [b]
  flatten_cut stream := by induction stream with
    | nil => rfl
    | cons b bs ih => simpa using ih
  ne_nil_of_mem stream chunk h := by
    obtain ⟨b, -, rfl⟩ := List.mem_map.mp h
    simp

/-- The whole stream in one chunk. -/
def Segmentation.whole : Segmentation where
  cut stream := if stream = [] then [] else [stream]
  flatten_cut stream := by split <;> simp_all
  ne_nil_of_mem stream chunk h := by
    split at h <;> simp_all

/-! ## `async_read_until` -/

/-- The outcome of a read: the code it completes with, the bytes it appended to the `streambuf`,
and the chunks still to come. -/
structure ReadResult where
  ec : ErrorCode
  received : Bytes
  rest : List Bytes
  deriving DecidableEq

/-- Has a `streambuf` reached its `max_size`?  `none` is the default, which no stream reaches. -/
def isFull (maxSize : Option ℕ) (buf : Bytes) : Bool :=
  match maxSize with
  | none => false
  | some m => m ≤ buf.length

/-- How many bytes of a chunk still fit. -/
def room (maxSize : Option ℕ) (buf chunk : Bytes) : ℕ :=
  match maxSize with
  | none => chunk.length
  | some m => min chunk.length (m - buf.length)

/-- `async_read_until(sock, buf, delim)` on the chunks still to come, which the end of the stream
follows. -/
def readUntil (maxSize : Option ℕ) (delim : Bytes) : Bytes → List Bytes → ReadResult
  | buf, [] =>
    if delim <:+: buf then ⟨.success, [], []⟩
    else if isFull maxSize buf then ⟨.notFound, [], []⟩
    else ⟨.eof, [], []⟩
  | buf, chunk :: chunks =>
    if delim <:+: buf then ⟨.success, [], chunk :: chunks⟩
    else if isFull maxSize buf then ⟨.notFound, [], chunk :: chunks⟩
    else if room maxSize buf chunk = chunk.length then
      let r := readUntil maxSize delim (buf ++ chunk) chunks
      { r with received := chunk ++ r.received }
    -- the chunk fills the buffer: what does not fit stays for a later read
    else
      let taken := chunk.take (room maxSize buf chunk)
      let left := chunk.drop (room maxSize buf chunk) :: chunks
      if delim <:+: buf ++ taken then ⟨.success, taken, left⟩ else ⟨.notFound, taken, left⟩

/-- Nothing is read while the delimiter is buffered. -/
theorem readUntil_of_found (maxSize : Option ℕ) {delim buf : Bytes} (h : delim <:+: buf)
    (chunks : List Bytes) : readUntil maxSize delim buf chunks = ⟨.success, [], chunks⟩ := by
  cases chunks <;> rw [readUntil, if_pos h]

/-- Without a `max_size` whole chunks are read until it is. -/
theorem readUntil_none_cons {delim buf : Bytes} (h : ¬ delim <:+: buf) (chunk : Bytes)
    (chunks : List Bytes) : readUntil none delim buf (chunk :: chunks) =
      { readUntil none delim (buf ++ chunk) chunks with
        received := chunk ++ (readUntil none delim (buf ++ chunk) chunks).received } := by
  rw [readUntil, if_neg h, if_neg (by simp only [isFull]; exact Bool.false_ne_true), if_pos]
  rfl

/-- A stream without the delimiter is read to its end. -/
theorem readUntil_none_of_missing {delim : Bytes} : ∀ {buf : Bytes} {chunks : List Bytes},
    ¬ delim <:+: buf ++ chunks.flatten →
      readUntil none delim buf chunks = ⟨.eof, chunks.flatten, []⟩
  | buf, [], h => by
    rw [List.flatten_nil, List.append_nil] at h
    rw [readUntil, if_neg h, if_neg (by simp [isFull])]
    rfl
  | buf, chunk :: chunks, h => by
    rw [List.flatten_cons, ← List.append_assoc] at h
    have hbuf : ¬ delim <:+: buf := fun hd =>
      h (hd.trans ((List.prefix_append _ _).trans (List.prefix_append _ _)).isInfix)
    rw [readUntil_none_cons hbuf, readUntil_none_of_missing h]
    rfl

/-- `async_read(sock, buf)`, which reads until the peer has finished. -/
def readAll (chunks : List Bytes) : ReadResult := ⟨.eof, chunks.flatten, []⟩

/-- What a read reports at the end of the connection: `eof` once the peer has finished, another
error if the connection broke. -/
structure Ending where
  ec : ErrorCode
  value_ne_zero : ec.value ≠ 0
  deriving DecidableEq

/-- The peer has finished. -/
def Ending.finished : Ending := ⟨.eof, by decide⟩

/-- What fits of a stream in a buffer of that `max_size`. -/
def capped (maxSize : Option ℕ) (stream : Bytes) : Bytes :=
  match maxSize with
  | none => stream
  | some m => stream.take m

/-- A buffer no longer than its `max_size`. -/
def Fits (maxSize : Option ℕ) (buf : Bytes) : Prop := ∀ m ∈ maxSize, buf.length ≤ m

theorem fits_none (buf : Bytes) : Fits none buf := by simp [Fits]

theorem fits_nil (maxSize : Option ℕ) : Fits maxSize [] := fun _ _ => Nat.zero_le _

theorem Fits.of_suffix {maxSize : Option ℕ} {buf buf' : Bytes} (h : Fits maxSize buf')
    (hbuf : buf <:+ buf') : Fits maxSize buf := fun m hm => hbuf.length_le.trans (h m hm)

theorem Fits.of_prefix {maxSize : Option ℕ} {buf buf' : Bytes} (h : Fits maxSize buf')
    (hbuf : buf <+: buf') : Fits maxSize buf := fun m hm => hbuf.length_le.trans (h m hm)

theorem capped_of_fits : ∀ {maxSize : Option ℕ} {stream : Bytes}, Fits maxSize stream →
    capped maxSize stream = stream
  | none, _, _ => rfl
  | some m, _, h => List.take_of_length_le (h m rfl)

/-- A buffer that fits is a prefix of what fits of the stream it begins. -/
theorem prefix_capped : ∀ {maxSize : Option ℕ} {buf more : Bytes}, Fits maxSize buf →
    buf <+: capped maxSize (buf ++ more)
  | none, _, _, _ => List.prefix_append _ _
  | some m, _, _, h => by
    rw [capped, List.take_append, List.take_of_length_le (h m rfl)]
    exact List.prefix_append _ _

/-- A full buffer is all that fits. -/
theorem capped_of_isFull : ∀ {maxSize : Option ℕ} {buf : Bytes} (more : Bytes),
    Fits maxSize buf → isFull maxSize buf → capped maxSize (buf ++ more) = buf
  | some m, buf, _, hfit, hfull => by
    have hlen : buf.length = m := le_antisymm (hfit m rfl) (of_decide_eq_true hfull)
    rw [capped, ← hlen, List.take_left']
    rfl

theorem isFull_append : ∀ {maxSize : Option ℕ} {buf : Bytes} (more : Bytes),
    isFull maxSize buf → isFull maxSize (buf ++ more)
  | some m, _, _, hfull => by
    simp only [isFull, decide_eq_true_eq, List.length_append] at hfull ⊢
    omega

/-- A chunk that fits leaves a buffer that fits. -/
theorem fits_append_of_room {maxSize : Option ℕ} {buf chunk : Bytes}
    (hfit : Fits maxSize buf) (hroom : room maxSize buf chunk = chunk.length) :
    Fits maxSize (buf ++ chunk) := by
  intro m hm
  have hbuf := hfit m hm
  obtain rfl : maxSize = some m := hm
  simp only [room] at hroom
  rw [List.length_append]
  omega

/-- A chunk that does not fit fills the buffer. -/
theorem isFull_append_take : ∀ {maxSize : Option ℕ} {buf chunk : Bytes}, Fits maxSize buf →
    room maxSize buf chunk ≠ chunk.length →
      Fits maxSize (buf ++ chunk.take (room maxSize buf chunk)) ∧
        isFull maxSize (buf ++ chunk.take (room maxSize buf chunk))
  | none, _, _, _, hroom => absurd rfl hroom
  | some m, _, _, hfit, hroom => by
    have hbuf := hfit m rfl
    simp only [room] at hroom
    simp only [Fits, isFull, room, Option.mem_def, Option.some.injEq, List.length_append,
      List.length_take, decide_eq_true_eq]
    exact ⟨by rintro _ rfl; omega, by omega⟩

/-- **No byte is lost or added**: what was received and what is left are the stream. -/
theorem readUntil_received_append (maxSize : Option ℕ) (delim buf : Bytes) (chunks : List Bytes) :
    (readUntil maxSize delim buf chunks).received
      ++ (readUntil maxSize delim buf chunks).rest.flatten = chunks.flatten := by
  induction chunks generalizing buf with
  | nil => unfold readUntil; split <;> [rfl; (split <;> rfl)]
  | cons chunk chunks ih =>
    unfold readUntil
    split
    · rfl
    split
    · rfl
    split
    · simp only [List.append_assoc, ih, List.flatten_cons]
    · simp only
      split <;> simp only [List.flatten_cons, ← List.append_assoc, List.take_append_drop]

/-- **What a read reports depends on the stream, not on its cut**: success when the delimiter is
among the bytes that fit, else `not_found` when they fill the buffer, else `eof`. -/
theorem readUntil_ec {maxSize : Option ℕ} (delim : Bytes) {buf : Bytes} (chunks : List Bytes)
    (hfit : Fits maxSize buf) :
    (readUntil maxSize delim buf chunks).ec =
      if delim <:+: capped maxSize (buf ++ chunks.flatten) then .success
      else if isFull maxSize (buf ++ chunks.flatten) then .notFound
      else .eof := by
  have hfound : ∀ {b : Bytes} (more : Bytes), Fits maxSize b → delim <:+: b →
      delim <:+: capped maxSize (b ++ more) := fun more hb h =>
    h.trans (prefix_capped hb).isInfix
  induction chunks generalizing buf with
  | nil =>
    unfold readUntil
    rw [List.flatten_nil, List.append_nil, capped_of_fits hfit]
    split <;> [rfl; (split <;> rfl)]
  | cons chunk chunks ih =>
    unfold readUntil
    split
    next h => rw [if_pos (hfound _ hfit h)]
    next h =>
    split
    next hfull =>
      rw [capped_of_isFull _ hfit hfull, if_neg h, if_pos (isFull_append _ hfull)]
    next =>
    split
    next hroom =>
      simp only [ih (fits_append_of_room hfit hroom), List.append_assoc, List.flatten_cons]
    next hroom =>
      obtain ⟨hfit', hfull'⟩ := isFull_append_take hfit hroom
      have hstream : buf ++ (chunk :: chunks).flatten
          = (buf ++ chunk.take (room maxSize buf chunk))
            ++ (chunk.drop (room maxSize buf chunk) ++ chunks.flatten) := by
        simp only [List.flatten_cons, List.append_assoc]
        rw [← List.append_assoc (List.take _ _), List.take_append_drop]
      rw [hstream, capped_of_isFull _ hfit' hfull', if_pos (isFull_append _ hfull')]
      simp only
      split <;> rfl

/-- A successful read has the delimiter in its buffer. -/
theorem infix_of_readUntil_success {maxSize : Option ℕ} {delim buf : Bytes} {chunks : List Bytes}
    (h : (readUntil maxSize delim buf chunks).ec = .success) :
    delim <:+: buf ++ (readUntil maxSize delim buf chunks).received := by
  induction chunks generalizing buf with
  | nil =>
    unfold readUntil at h ⊢
    split at h
    next hd => simp [hd]
    next => split at h <;> [exact absurd h ErrorCode.notFound_ne_success;
        exact absurd h ErrorCode.eof_ne_success]
  | cons chunk chunks ih =>
    unfold readUntil at h ⊢
    split at h
    next hd => simp [hd]
    next hd =>
    rw [if_neg hd]
    split at h
    next => exact absurd h ErrorCode.notFound_ne_success
    next hfull =>
    rw [if_neg hfull]
    split at h
    next hroom =>
      rw [if_pos hroom]
      simpa [List.append_assoc] using ih h
    next hroom =>
      rw [if_neg hroom]
      simp only at h ⊢
      split at h
      next htake => simp [htake]
      next => exact absurd h ErrorCode.notFound_ne_success

/-- The buffer never outgrows its `max_size`. -/
theorem fits_readUntil {maxSize : Option ℕ} (delim : Bytes) {buf : Bytes} (chunks : List Bytes)
    (hfit : Fits maxSize buf) :
    Fits maxSize (buf ++ (readUntil maxSize delim buf chunks).received) := by
  induction chunks generalizing buf with
  | nil => unfold readUntil; split <;> [simpa; (split <;> simpa)]
  | cons chunk chunks ih =>
    unfold readUntil
    split
    · simpa
    split
    · simpa
    split
    next hroom => simpa [List.append_assoc] using ih (fits_append_of_room hfit hroom)
    next hroom =>
      simp only
      split <;> exact (isFull_append_take hfit hroom).1

/-- What a read of `stream` up to `delim` reports. -/
def readVerdict (maxSize : Option ℕ) (delim stream : Bytes) : ErrorCode :=
  if delim <:+: capped maxSize stream then .success
  else if isFull maxSize stream then .notFound
  else .eof

/-- Anything but success has a value. -/
theorem readVerdict_value {maxSize : Option ℕ} {delim stream : Bytes}
    (h : readVerdict maxSize delim stream ≠ .success) :
    (readVerdict maxSize delim stream).value ≠ 0 := by
  unfold readVerdict at h ⊢
  split at h
  next => exact absurd rfl h
  next hmem =>
    rw [if_neg hmem]
    split <;> simp

/-- What holds of a read that found `buf` in the buffer and `stream` to come, however `stream` is
cut. -/
structure ReadsUntil (maxSize : Option ℕ) (delim buf stream : Bytes) (d : ReadResult) : Prop where
  ec : d.ec = readVerdict maxSize delim (buf ++ stream)
  tile : d.received ++ d.rest.flatten = stream
  fits : Fits maxSize (buf ++ d.received)
  found : d.ec = .success → delim <:+: buf ++ d.received

theorem readsUntil {maxSize : Option ℕ} (delim : Bytes) {buf : Bytes} (chunks : List Bytes)
    (hfit : Fits maxSize buf) :
    ReadsUntil maxSize delim buf chunks.flatten (readUntil maxSize delim buf chunks) where
  ec := readUntil_ec delim chunks hfit
  tile := readUntil_received_append maxSize delim buf chunks
  fits := fits_readUntil delim chunks hfit
  found := infix_of_readUntil_success

/-! ## Read-ahead -/

/-- `pre ++ delim` is the shortest piece of the start of `stream` with `delim` in it, and `tail` is
what follows. -/
structure FirstAt (delim stream pre tail : Bytes) : Prop where
  eq : stream = pre ++ delim ++ tail
  first : ∀ buf, buf <+: pre ++ delim → delim <:+: buf → buf = pre ++ delim

theorem FirstAt.found {delim stream pre tail : Bytes} (h : FirstAt delim stream pre tail) :
    delim <:+: stream :=
  h.eq ▸ (List.suffix_append _ _).isInfix.trans (List.prefix_append _ _).isInfix

/-- What is in a stream is first in it somewhere. -/
theorem exists_firstAt {delim stream : Bytes} (h : delim <:+: stream) :
    ∃ pre tail, FirstAt delim stream pre tail := by
  have hex : ∃ n, delim <:+: stream.take n := ⟨stream.length, by rwa [List.take_length]⟩
  obtain ⟨pre, tail, htake⟩ := Nat.find_spec hex
  have hstream : stream = pre ++ delim ++ (tail ++ stream.drop (Nat.find hex)) := by
    rw [← List.append_assoc, htake, List.take_append_drop]
  refine ⟨pre, _, hstream, fun buf hbuf hmem => hbuf.eq_of_length_le ?_⟩
  have hstart : buf <+: stream := hbuf.trans (hstream ▸ List.prefix_append _ _)
  have hmin : Nat.find hex ≤ buf.length := Nat.find_min' hex (by
    rwa [← List.prefix_iff_eq_take.mp hstart])
  have hlen := congrArg List.length htake
  rw [List.length_append, List.length_take] at hlen
  omega

/-- **A buffer with the delimiter holds everything up to its first occurrence**, and the rest of it
is read-ahead. -/
theorem FirstAt.exists_readAhead {delim stream pre tail buf rest : Bytes}
    (h : FirstAt delim stream pre tail) (hstream : buf ++ rest = stream) (hbuf : delim <:+: buf) :
    ∃ ahead, buf = pre ++ delim ++ ahead ∧ ahead ++ rest = tail := by
  have hpre : pre ++ delim <+: stream := h.eq ▸ List.prefix_append _ _
  have hsplit : ∀ ahead, buf = pre ++ delim ++ ahead → ahead ++ rest = tail := by
    rintro ahead rfl
    rw [h.eq, List.append_assoc _ ahead] at hstream
    exact List.append_cancel_left hstream
  rcases List.prefix_or_prefix_of_prefix (hstream ▸ List.prefix_append buf rest) hpre with
    hshort | ⟨ahead, hahead⟩
  · have hbuf' : buf = pre ++ delim ++ [] := by rw [h.first buf hshort hbuf, List.append_nil]
    exact ⟨[], hbuf', hsplit [] hbuf'⟩
  · exact ⟨ahead, hahead.symm, hsplit ahead hahead.symm⟩

/-- **A read up to a delimiter that fits** succeeds, with a buffer that ends in read-ahead. -/
theorem FirstAt.exists_readUntil {maxSize : Option ℕ} {delim stream pre tail buf : Bytes}
    {chunks : List Bytes} (h : FirstAt delim stream pre tail)
    (hstream : buf ++ chunks.flatten = stream) (hfit : Fits maxSize buf)
    (hfits : Fits maxSize (pre ++ delim)) :
    ∃ ahead, (readUntil maxSize delim buf chunks).ec = .success ∧
      buf ++ (readUntil maxSize delim buf chunks).received = pre ++ delim ++ ahead ∧
      ahead ++ (readUntil maxSize delim buf chunks).rest.flatten = tail := by
  have hd := readsUntil delim chunks hfit
  have hec : (readUntil maxSize delim buf chunks).ec = .success := by
    rw [hd.ec, hstream, h.eq, readVerdict, if_pos]
    exact (List.suffix_append _ _).isInfix.trans (prefix_capped hfits).isInfix
  have htile : (buf ++ (readUntil maxSize delim buf chunks).received)
      ++ (readUntil maxSize delim buf chunks).rest.flatten = stream := by
    rw [List.append_assoc, hd.tile, hstream]
  obtain ⟨ahead, hahead, htail⟩ := h.exists_readAhead htile (hd.found hec)
  exact ⟨ahead, hec, hahead, htail⟩

/-- After bytes without its first byte a delimiter is first. -/
theorem firstAt_of_notMem {d : UInt8} {ds pre : Bytes} (hpre : d ∉ pre) (tail : Bytes) :
    FirstAt (d :: ds) (pre ++ (d :: ds) ++ tail) pre tail := by
  refine ⟨rfl, fun buf hbuf hmem => hbuf.eq_of_length_le ?_⟩
  obtain ⟨u, v, rfl⟩ := hmem
  have hu : ¬ u.length < pre.length := by
    intro hlt
    have hget : (pre ++ d :: ds)[u.length]? = some d := by
      obtain ⟨w, hw⟩ := hbuf
      rw [← hw]
      simp
    rw [List.getElem?_append_left hlt] at hget
    exact hpre (List.mem_of_getElem? hget)
  simp only [List.length_append, List.length_cons]
  omega

theorem firstAt_crlf {pre : Bytes} (hpre : cr ∉ pre) (tail : Bytes) :
    FirstAt crlf (pre ++ crlf ++ tail) pre tail := firstAt_of_notMem hpre tail

theorem firstAt_crlfcrlf {pre : Bytes} (hpre : cr ∉ pre) (tail : Bytes) :
    FirstAt crlfcrlf (pre ++ crlfcrlf ++ tail) pre tail := firstAt_of_notMem hpre tail

/-- Up to its first line end a stream has no blank line. -/
theorem FirstAt.not_crlfcrlf {stream pre tail : Bytes} (h : FirstAt crlf stream pre tail) :
    ¬ crlfcrlf <:+: pre ++ crlf := by
  rintro ⟨u, v, huv⟩
  have hsplit : u ++ crlf ++ (crlf ++ v) = pre ++ crlf := by rw [← huv]; simp [crlf, crlfcrlf]
  have hfirst := h.first (u ++ crlf) ⟨_, hsplit⟩ (List.suffix_append _ _).isInfix
  rw [hfirst] at hsplit
  simp [crlf] at hsplit

/-- The first occurrence is one place. -/
theorem FirstAt.unique {delim stream pre tail pre' tail' : Bytes}
    (h : FirstAt delim stream pre tail) (h' : FirstAt delim stream pre' tail') :
    pre = pre' ∧ tail = tail' := by
  have hmem (p : Bytes) : delim <:+: p ++ delim := (List.suffix_append _ _).isInfix
  have hpre : pre ++ delim = pre' ++ delim := by
    rcases List.prefix_or_prefix_of_prefix (h.eq ▸ List.prefix_append (pre ++ delim) tail)
      (h'.eq ▸ List.prefix_append (pre' ++ delim) tail') with hp | hp
    · exact h'.first _ hp (hmem pre)
    · exact (h.first _ hp (hmem pre')).symm
  obtain rfl := List.append_cancel_right hpre
  exact ⟨rfl, List.append_cancel_left (h.eq.symm.trans h'.eq)⟩

/-- A stream up to its first CRLF is a line and two bytes, and what is left of it. -/
theorem exists_line (pre : Bytes) :
    ∃ line b left, cr ∉ line ∧ pre ++ crlf = line ++ cr :: b :: left := by
  by_cases h : cr ∈ pre
  · obtain ⟨line, tail, rfl, hline⟩ := List.eq_append_cons_of_mem h
    cases tail with
    | nil => exact ⟨line, cr, [lf], hline, by simp [crlf]⟩
    | cons b left => exact ⟨line, b, left ++ crlf, hline, by simp⟩
  · exact ⟨pre, lf, [], h, rfl⟩

end AsioSamples
