import AsioSamples.Asio.Channel
import AsioSamples.Machinery.Transition

/-!
# Buffers/Transfer — `WriteToSocket` and `ReadFromSocket`

Two loops that count in `std::size_t`: each goes on while its count differs from the size of its
buffer, and asks the socket for the difference.  `Machine.Runs` interleaves a sequence of calls of
the one, on one end of a connection, with a sequence of calls of the other, on the other end; every
`write_some` and every `read_some` moves as many bytes as it likes.

The overloads for a socket and for a pointer to one differ in `.` and `->` and in nothing else.
-/

namespace AsioSamples

/-! ## The two loops -/

/-- A `std::string`, whose bytes a `size_t` can count. -/
structure Buffer where
  data : Bytes
  fits : data.length < 2 ^ 64

namespace Buffer

def size (b : Buffer) : UInt64 := UInt64.ofNat b.data.length

@[simp] theorem toNat_size (b : Buffer) : b.size.toNat = b.data.length :=
  UInt64.toNat_ofNat_of_lt' b.fits

end Buffer

/-- The size that `write_some` and `read_some` are asked for: a subtraction in `size_t`. -/
def remaining (size total : UInt64) : ℕ := (size - total).toNat

/-- Nothing wraps as long as the count has not passed the size. -/
theorem remaining_of_le {size total : UInt64} (h : total ≤ size) :
    remaining size total = size.toNat - total.toNat :=
  UInt64.toNat_sub_of_le _ _ h

/-- **One more transfer**: the count goes up by what was moved, and does not pass the size. -/
theorem toNat_add_of_le {size total : UInt64} (h : total ≤ size) {n : ℕ}
    (hn : n ≤ remaining size total) :
    (total + UInt64.ofNat n).toNat = total.toNat + n ∧ total + UInt64.ofNat n ≤ size := by
  rw [remaining_of_le h] at hn
  have hle := UInt64.le_iff_toNat_le.mp h
  have hlt : size.toNat < 2 ^ 64 := size.toNat_lt
  have hsum : (total + UInt64.ofNat n).toNat = total.toNat + n := by
    have hn' : n < UInt64.size := lt_of_le_of_lt (by omega) size.toNat_lt
    rw [UInt64.toNat_add, UInt64.toNat_ofNat_of_lt' hn']
    exact Nat.mod_eq_of_lt (by omega)
  refine ⟨hsum, ?_⟩
  rw [UInt64.le_iff_toNat_le, hsum]
  omega

/-- A loop that has not come to its end still asks for something. -/
theorem remaining_pos {size total : UInt64} (h : total ≤ size) (hne : total ≠ size) :
    0 < remaining size total := by
  have hlt := UInt64.lt_iff_toNat_lt.mp (UInt64.lt_of_le_of_ne h hne)
  rw [remaining_of_le h]
  omega

/-- A sequence of `WriteToSocket` calls; the first of `buffers` is that of the call at work. -/
structure Writer where
  buffers : List Buffer
  totalByteWritten : UInt64 := 0
  /-- The text of the `runtime_error` that a call has thrown. -/
  thrown : Option Bytes := none

namespace Writer

/-- The bytes that a `write_some` takes from the buffer, if it takes `n`. -/
def taken (w : Writer) (n : ℕ) : Bytes :=
  (w.buffers.head?.elim [] fun b => b.data.drop w.totalByteWritten.toNat).take n

def wrote (w : Writer) (n : ℕ) : Writer :=
  { w with totalByteWritten := w.totalByteWritten + UInt64.ofNat n }

/-- The loop has ended, and the next call begins. -/
def returned (w : Writer) : Writer := { w with buffers := w.buffers.tail, totalByteWritten := 0 }

/-- `write_some` throws a `system_error` that says `what`. -/
def failed (w : Writer) (what : Bytes) : Writer :=
  { w with thrown := some (bytes "Failed to write to socket. Error code = "
      ++ (bytes ". Message: " ++ what)) }

end Writer

/-- A sequence of `ReadFromSocket` calls; the first of `sizes` is the `BufferSize` of the call at
work. -/
structure Reader where
  sizes : List UInt64
  buffer : Bytes
  totalBytesRead : UInt64 := 0
  results : List Bytes := []
  thrown : Option Bytes := none

namespace Reader

/-- A call begins, with a buffer full of blanks. -/
def call (sizes : List UInt64) (results : List Bytes) : Reader where
  sizes := sizes
  buffer := List.replicate (sizes.head?.elim 0 UInt64.toNat) 32
  results := results

/-- `read_some` has put `data` where it was told to. -/
def read (r : Reader) (data : Bytes) : Reader :=
  { r with
    buffer := r.buffer.take r.totalBytesRead.toNat ++ data
      ++ r.buffer.drop (r.totalBytesRead.toNat + data.length)
    totalBytesRead := r.totalBytesRead + UInt64.ofNat data.length }

/-- The loop has ended, and the next call begins. -/
def returned (r : Reader) : Reader := call r.sizes.tail (r.results ++ [r.buffer])

/-- `read_some` throws a `system_error` that says `what`. -/
def failed (r : Reader) (what : Bytes) : Reader :=
  { r with thrown := some (bytes "Failed to read to socket. Error code = "
      ++ (bytes ". Message: " ++ what)) }

end Reader

/-! ## The two ends of a connection -/

namespace Transfer

structure State where
  writer : Writer
  channel : Channel := {}
  reader : Reader

/-- The steps. -/
inductive Event
  | writeSome (n : ℕ)
  | writeReturns
  | writeFails (what : Bytes)
  | readSome (n : ℕ)
  | readReturns
  | readFails (what : Bytes)

/-- The messages, about to be sent, and read in calls of their sizes. -/
def State.start (messages : List Buffer) : State where
  writer := { buffers := messages }
  reader := .call (messages.map Buffer.size) []

/-- When a step can be taken. -/
def Enabled (s : State) : Event → Prop
  | .writeSome n => s.writer.thrown = none ∧ ∃ b ∈ s.writer.buffers.head?,
      s.writer.totalByteWritten ≠ b.size ∧ 0 < n ∧ n ≤ remaining b.size s.writer.totalByteWritten
  | .writeReturns => s.writer.thrown = none ∧ ∃ b ∈ s.writer.buffers.head?,
      s.writer.totalByteWritten = b.size
  | .writeFails _ => s.writer.thrown = none ∧ ∃ b ∈ s.writer.buffers.head?,
      s.writer.totalByteWritten ≠ b.size
  | .readSome n => s.reader.thrown = none ∧ ∃ size ∈ s.reader.sizes.head?,
      s.reader.totalBytesRead ≠ size ∧ 0 < n ∧ n ≤ remaining size s.reader.totalBytesRead ∧
        n ≤ s.channel.inFlight.length
  | .readReturns => s.reader.thrown = none ∧ ∃ size ∈ s.reader.sizes.head?,
      s.reader.totalBytesRead = size
  | .readFails _ => s.reader.thrown = none ∧ ∃ size ∈ s.reader.sizes.head?,
      s.reader.totalBytesRead ≠ size

instance (s : State) (e : Event) : Decidable (Enabled s e) :=
  match e with
  | .writeSome _ | .writeReturns | .writeFails _ | .readSome _ | .readReturns | .readFails _ =>
    inferInstanceAs (Decidable (_ ∧ _))

/-- Where a step leads. -/
def next (s : State) : Event → State
  | .writeSome n =>
    { s with writer := s.writer.wrote n, channel := s.channel.send (s.writer.taken n) }
  | .writeReturns => { s with writer := s.writer.returned }
  | .writeFails what => { s with writer := s.writer.failed what }
  | .readSome n =>
    { s with
      reader := s.reader.read (s.channel.inFlight.take n)
      channel := s.channel.receive n }
  | .readReturns => { s with reader := s.reader.returned }
  | .readFails what => { s with reader := s.reader.failed what }

/-- The two loops at work on one connection. -/
def machine : Machine State Event := ⟨Enabled, next⟩

instance (s : State) (e : Event) : Decidable (machine.Enabled s e) :=
  inferInstanceAs (Decidable (Enabled s e))

/-! ## The writer -/

/-- The bytes of a list of messages. -/
def bytesOf (messages : List Buffer) : Bytes := (messages.map Buffer.data).flatten

@[simp] theorem bytesOf_append (l l' : List Buffer) :
    bytesOf (l ++ l') = bytesOf l ++ bytesOf l' := by
  simp [bytesOf]

@[simp] theorem bytesOf_cons (b : Buffer) (l : List Buffer) :
    bytesOf (b :: l) = b.data ++ bytesOf l := rfl

@[simp] theorem bytesOf_nil : bytesOf [] = [] := rfl

/-- What the call at work has written of its buffer. -/
def written (w : Writer) : Bytes :=
  (w.buffers.head?.elim [] Buffer.data).take w.totalByteWritten.toNat

/-- The writer has sent the messages of the calls that have returned and a part of the next one. -/
structure Sending (messages : List Buffer) (w : Writer) (sent : Bytes) : Prop where
  sent_eq : ∃ done, messages = done ++ w.buffers ∧ sent = bytesOf done ++ written w
  le_size : ∀ b ∈ w.buffers.head?, w.totalByteWritten ≤ b.size

/-- **What has been sent is a prefix of the messages.** -/
theorem Sending.sent_start {messages : List Buffer} {w : Writer} {sent : Bytes}
    (h : Sending messages w sent) : sent <+: bytesOf messages := by
  obtain ⟨done, hmessages, hsent⟩ := h.sent_eq
  rw [hmessages, hsent, bytesOf_append]
  refine (List.prefix_append_right_inj _).mpr ?_
  unfold written
  cases w.buffers with
  | nil => simp
  | cons b bs => exact (List.take_prefix _ _).trans (List.prefix_append _ _)

theorem Sending.wrote {messages : List Buffer} {w : Writer} {sent : Bytes}
    (h : Sending messages w sent) {b : Buffer} (hb : b ∈ w.buffers.head?) {n : ℕ}
    (hn : n ≤ remaining b.size w.totalByteWritten) :
    Sending messages (w.wrote n) (sent ++ w.taken n) := by
  obtain ⟨hsum, hle⟩ := toNat_add_of_le (h.le_size b hb) hn
  obtain ⟨done, hmessages, hsent⟩ := h.sent_eq
  refine ⟨⟨done, hmessages, ?_⟩, fun b' hb' => ?_⟩
  · have htake : written (w.wrote n) = written w ++ w.taken n := by
      simp only [written, Writer.wrote, Writer.taken, Option.mem_def.mp hb, Option.elim_some, hsum]
      exact List.take_add
    rw [htake, hsent, List.append_assoc]
  · obtain rfl : b' = b := Option.mem_unique hb' hb
    exact hle

theorem Sending.returned {messages : List Buffer} {w : Writer} {sent : Bytes}
    (h : Sending messages w sent) {b : Buffer} (hb : b ∈ w.buffers.head?)
    (htotal : w.totalByteWritten = b.size) : Sending messages w.returned sent := by
  obtain ⟨done, hmessages, hsent⟩ := h.sent_eq
  obtain ⟨bs, hbs⟩ : ∃ bs, w.buffers = b :: bs := List.head?_eq_some_iff.mp hb
  refine ⟨⟨done ++ [b], ?_, ?_⟩, fun b' _ => ?_⟩
  · rw [hmessages, hbs, Writer.returned, hbs]
    simp
  · simp [hsent, written, Writer.returned, hbs, htotal]
  · exact UInt64.le_iff_toNat_le.mpr (Nat.zero_le _)

/-! ## The reader -/

/-- The calls that have returned gave the messages they were for, and the one at work has received a
part of its own. -/
structure Receiving (messages : List Buffer) (r : Reader) (received : Bytes) : Prop where
  received_eq : ∃ done todo, messages = done ++ todo ∧ r.results = done.map Buffer.data ∧
    r.sizes = todo.map Buffer.size ∧
    received = bytesOf done ++ r.buffer.take r.totalBytesRead.toNat
  length_buffer : r.buffer.length = r.sizes.head?.elim 0 UInt64.toNat
  le_size : ∀ size ∈ r.sizes.head?, r.totalBytesRead ≤ size

theorem receiving_start (messages : List Buffer) :
    Receiving messages (.call (messages.map Buffer.size) []) [] where
  received_eq := ⟨[], messages, rfl, rfl, rfl, rfl⟩
  length_buffer := List.length_replicate
  le_size _ _ := UInt64.le_iff_toNat_le.mpr (Nat.zero_le _)

theorem Receiving.read {messages : List Buffer} {r : Reader} {received : Bytes}
    (h : Receiving messages r received) {size : UInt64} (hsize : size ∈ r.sizes.head?)
    {data : Bytes} (hn : data.length ≤ remaining size r.totalBytesRead) :
    Receiving messages (r.read data) (received ++ data) := by
  have hle := h.le_size size hsize
  obtain ⟨hsum, hle'⟩ := toNat_add_of_le hle hn
  obtain ⟨done, todo, hmessages, hresults, hsizes, hreceived⟩ := h.received_eq
  have hlen : r.buffer.length = size.toNat := by
    rw [h.length_buffer, Option.mem_def.mp hsize, Option.elim_some]
  rw [remaining_of_le hle] at hn
  have hroom : r.totalBytesRead.toNat + data.length ≤ r.buffer.length := by
    have := UInt64.le_iff_toNat_le.mp hle
    omega
  have hfront : (r.buffer.take r.totalBytesRead.toNat ++ data).length
      = r.totalBytesRead.toNat + data.length := by
    rw [List.length_append, List.length_take]
    omega
  refine ⟨⟨done, todo, hmessages, hresults, hsizes, ?_⟩, ?_, fun size' hsize' => ?_⟩
  · simp only [Reader.read, hsum]
    rw [List.take_left' hfront, hreceived, List.append_assoc]
  · simp only [Reader.read]
    rw [List.length_append, hfront, List.length_drop, ← h.length_buffer]
    omega
  · obtain rfl : size' = size := Option.mem_unique hsize' hsize
    exact hle'

/-- **A call that returns has the message it was for**: it has received as many bytes, and they are
the next ones that were sent. -/
theorem Receiving.returned {messages : List Buffer} {r : Reader} {received sent : Bytes}
    (h : Receiving messages r received) (hsent : received <+: sent)
    (hmessages : sent <+: bytesOf messages) {size : UInt64} (hsize : size ∈ r.sizes.head?)
    (htotal : r.totalBytesRead = size) : Receiving messages r.returned received := by
  obtain ⟨done, todo, rfl, hresults, hsizes, hreceived⟩ := h.received_eq
  have hlen : r.buffer.length = size.toNat := by
    rw [h.length_buffer, Option.mem_def.mp hsize, Option.elim_some]
  obtain ⟨b, bs, rfl⟩ : ∃ b bs, todo = b :: bs := by
    cases todo with
    | nil => simp [hsizes] at hsize
    | cons b bs => exact ⟨b, bs, rfl⟩
  obtain rfl : b.size = size := by simpa [hsizes] using hsize
  have hbuffer : r.buffer = b.data := by
    have hstart := hsent.trans hmessages
    rw [hreceived, htotal, ← hlen, List.take_length, bytesOf_append, bytesOf_cons] at hstart
    have hlen' : r.buffer.length = b.data.length := hlen.trans b.toNat_size
    have hnext := (List.prefix_append_right_inj _).mp hstart
    have hle := List.prefix_of_prefix_length_le hnext (List.prefix_append _ _) hlen'.le
    exact hle.eq_of_length hlen'
  refine ⟨⟨done ++ [b], bs, by simp, ?_, ?_, ?_⟩, List.length_replicate, fun _ _ => ?_⟩
  · simp [Reader.returned, Reader.call, hresults, hbuffer]
  · simp [Reader.returned, Reader.call, hsizes]
  · rw [hreceived, htotal, ← hlen, List.take_length, hbuffer]
    simp [Reader.returned, Reader.call]
  · exact UInt64.le_iff_toNat_le.mpr (Nat.zero_le _)

/-! ## The connection -/

/-- Both ends, and the bytes between them. -/
structure Lossless (messages : List Buffer) (s : State) : Prop where
  sending : Sending messages s.writer s.channel.sent
  receiving : Receiving messages s.reader s.channel.received

theorem lossless_next {messages : List Buffer} {s : State} {e : Event} (h : Lossless messages s)
    (he : Enabled s e) : Lossless messages (next s e) := by
  obtain ⟨hsending, hreceiving⟩ := h
  cases e with
  | writeSome n =>
    obtain ⟨-, b, hb, -, -, hn⟩ := he
    refine ⟨?_, hreceiving⟩
    simpa only [next, Channel.sent_send] using hsending.wrote hb hn
  | writeReturns =>
    obtain ⟨-, b, hb, htotal⟩ := he
    exact ⟨hsending.returned hb htotal, hreceiving⟩
  | writeFails what => exact ⟨⟨hsending.sent_eq, hsending.le_size⟩, hreceiving⟩
  | readSome n =>
    obtain ⟨-, size, hsize, -, -, hn, -⟩ := he
    refine ⟨by simpa only [next, Channel.sent_receive] using hsending, ?_⟩
    exact hreceiving.read hsize ((List.length_take_le _ _).trans hn)
  | readReturns =>
    obtain ⟨-, size, hsize, htotal⟩ := he
    refine ⟨hsending, ?_⟩
    exact hreceiving.returned s.channel.received_prefix_sent hsending.sent_start hsize htotal
  | readFails what =>
    exact ⟨hsending, ⟨hreceiving.received_eq, hreceiving.length_buffer, hreceiving.le_size⟩⟩

theorem lossless {messages : List Buffer} {s : State} (h : machine.Runs (.start messages) s) :
    Lossless messages s := by
  refine h.invariant ⟨⟨⟨[], rfl, rfl⟩, fun _ _ => ?_⟩, receiving_start messages⟩
    fun _ _ _ hs he => lossless_next hs he
  exact UInt64.le_iff_toNat_le.mpr (Nat.zero_le _)

/-! ## Both loops end -/

/-- At most so many transfers and returns are still to come on an end whose calls have these sizes,
and a throw. -/
def work (sizes : List ℕ) (total : UInt64) (thrown : Option Bytes) : ℕ :=
  if thrown.isSome then 0 else (sizes.map (· + 1)).sum + 1 - total.toNat

/-- A transfer is work done. -/
theorem work_transferred {size : ℕ} {sizes : List ℕ} {total : UInt64} {n : ℕ} (hn : 0 < n)
    (hsum : (total + UInt64.ofNat n).toNat = total.toNat + n) (hle : total.toNat + n ≤ size) :
    work (size :: sizes) (total + UInt64.ofNat n) none < work (size :: sizes) total none := by
  simp only [work, hsum, List.map_cons, List.sum_cons, Option.isSome_none, Bool.false_eq_true,
    if_false]
  omega

/-- So is the end of a call. -/
theorem work_returned {size : ℕ} {sizes : List ℕ} {total : UInt64} (htotal : total.toNat = size) :
    work sizes 0 none < work (size :: sizes) total none := by
  simp only [work, htotal, List.map_cons, List.sum_cons, Option.isSome_none, Bool.false_eq_true,
    if_false, UInt64.toNat_zero]
  omega

/-- So is an exception. -/
theorem work_thrown {size : ℕ} {sizes : List ℕ} {total : UInt64} (hle : total.toNat ≤ size)
    (what : Bytes) : work (size :: sizes) total (some what) < work (size :: sizes) total none := by
  simp only [work, List.map_cons, List.sum_cons, Option.isSome_some, if_true, Option.isSome_none,
    Bool.false_eq_true, if_false]
  omega

/-- What is left to do. -/
def variant (s : State) : ℕ :=
  work (s.writer.buffers.map fun b => b.data.length) s.writer.totalByteWritten s.writer.thrown
    + work (s.reader.sizes.map UInt64.toNat) s.reader.totalBytesRead s.reader.thrown

theorem variant_next {messages : List Buffer} {s : State} {e : Event} (h : Lossless messages s)
    (he : Enabled s e) : variant (next s e) < variant s := by
  obtain ⟨⟨-, hwriter⟩, ⟨-, -, hreader⟩⟩ := h
  cases e with
  | writeSome n =>
    obtain ⟨hthrown, b, hb, -, hpos, hn⟩ := he
    obtain ⟨bs, hbs⟩ := List.head?_eq_some_iff.mp hb
    have hle := UInt64.le_iff_toNat_le.mp (hwriter b hb)
    obtain ⟨hsum, -⟩ := toNat_add_of_le (hwriter b hb) hn
    rw [remaining_of_le (hwriter b hb), Buffer.toNat_size] at hn
    rw [Buffer.toNat_size] at hle
    refine Nat.add_lt_add_right ?_ _
    simp only [next, Writer.wrote, hthrown, hbs, List.map_cons]
    exact work_transferred hpos hsum (by omega)
  | writeReturns =>
    obtain ⟨hthrown, b, hb, htotal⟩ := he
    obtain ⟨bs, hbs⟩ := List.head?_eq_some_iff.mp hb
    refine Nat.add_lt_add_right ?_ _
    simp only [next, Writer.returned, hthrown, hbs, List.map_cons, List.tail_cons]
    exact work_returned (by rw [htotal, Buffer.toNat_size])
  | writeFails what =>
    obtain ⟨hthrown, b, hb, -⟩ := he
    obtain ⟨bs, hbs⟩ := List.head?_eq_some_iff.mp hb
    have hle := UInt64.le_iff_toNat_le.mp (hwriter b hb)
    rw [Buffer.toNat_size] at hle
    refine Nat.add_lt_add_right ?_ _
    simp only [next, Writer.failed, hthrown, hbs, List.map_cons]
    exact work_thrown hle _
  | readSome n =>
    obtain ⟨hthrown, size, hsize, -, hpos, hn, hflight⟩ := he
    obtain ⟨sizes, hsizes⟩ := List.head?_eq_some_iff.mp hsize
    have hle := UInt64.le_iff_toNat_le.mp (hreader size hsize)
    obtain ⟨hsum, -⟩ := toNat_add_of_le (hreader size hsize) hn
    rw [remaining_of_le (hreader size hsize)] at hn
    have hlen : (s.channel.inFlight.take n).length = n := List.length_take_of_le hflight
    refine Nat.add_lt_add_left ?_ _
    simp only [next, Reader.read, hthrown, hsizes, List.map_cons, hlen]
    exact work_transferred hpos hsum (by omega)
  | readReturns =>
    obtain ⟨hthrown, size, hsize, htotal⟩ := he
    obtain ⟨sizes, hsizes⟩ := List.head?_eq_some_iff.mp hsize
    refine Nat.add_lt_add_left ?_ _
    simp only [next, Reader.returned, Reader.call, hthrown, hsizes, List.map_cons, List.tail_cons]
    exact work_returned (by rw [htotal])
  | readFails what =>
    obtain ⟨hthrown, size, hsize, -⟩ := he
    obtain ⟨sizes, hsizes⟩ := List.head?_eq_some_iff.mp hsize
    refine Nat.add_lt_add_left ?_ _
    simp only [next, Reader.failed, hthrown, hsizes, List.map_cons]
    exact work_thrown (UInt64.le_iff_toNat_le.mp (hreader size hsize)) _

/-- **Both loops end**, from wherever they have come to. -/
theorem terminates {messages : List Buffer} {s : State} (h : machine.Runs (.start messages) s) :
    machine.Terminates s :=
  Machine.terminates_of_variant variant fun _ _ h' he => variant_next (lossless (h.trans h')) he

/-- A connection on which nothing more happens has delivered every message, unless one of the ends
has thrown. -/
theorem delivered_of_stuck {messages : List Buffer} {s : State} (h : Lossless messages s)
    (hstuck : machine.Stuck s) (hwrite : s.writer.thrown = none) (hread : s.reader.thrown = none) :
    s.writer.buffers = [] ∧ s.reader.results = messages.map Buffer.data := by
  obtain ⟨⟨⟨sentDone, hmessages, hsent⟩, hwriter⟩,
    ⟨done, todo, hmessages', hresults, hsizes, hreceived⟩, -, hreader⟩ := h
  have hbuffers : s.writer.buffers = [] := by
    cases hbs : s.writer.buffers with
    | nil => rfl
    | cons b bs =>
      have hb : b ∈ s.writer.buffers.head? := by rw [hbs]; rfl
      by_cases htotal : s.writer.totalByteWritten = b.size
      · exact absurd ⟨hwrite, b, hb, htotal⟩ (hstuck .writeReturns)
      · exact absurd ⟨hwrite, b, hb, htotal, Nat.one_pos, remaining_pos (hwriter b hb) htotal⟩
          (hstuck (.writeSome 1))
  refine ⟨hbuffers, ?_⟩
  cases todo with
  | nil => rw [hresults, hmessages', List.append_nil]
  | cons b bs =>
    have hsize : b.size ∈ s.reader.sizes.head? := by rw [hsizes]; rfl
    have hle := hreader b.size hsize
    by_cases htotal : s.reader.totalBytesRead = b.size
    · exact absurd ⟨hread, b.size, hsize, htotal⟩ (hstuck .readReturns)
    -- the reader waits, so everything sent has arrived, and that is too little
    have hnone : s.channel.inFlight = [] := by
      by_contra hne
      exact hstuck (.readSome 1) ⟨hread, b.size, hsize, htotal, Nat.one_pos,
        remaining_pos hle htotal, List.length_pos_of_ne_nil hne⟩
    have hall : bytesOf messages = bytesOf done
        ++ s.reader.buffer.take s.reader.totalBytesRead.toNat := by
      rw [← hreceived, ← Channel.sent_of_inFlight hnone, hsent, hmessages, hbuffers]
      simp [written, hbuffers]
    have hlen := congrArg List.length hall
    have hlt := UInt64.lt_iff_toNat_lt.mp (UInt64.lt_of_le_of_ne hle htotal)
    rw [Buffer.toNat_size] at hlt
    simp only [hmessages', bytesOf_append, bytesOf_cons, List.length_append,
      List.length_take] at hlen
    omega

/-- **A lossless channel.**  However the writes and the reads are split and interleaved: the calls
of `ReadFromSocket` that have returned gave the first messages; neither count ever passes its size,
so that no subtraction wraps; what has been sent is a prefix of the messages, a write that failed or
not; every run comes to an end; and there every message has been read, unless an end has thrown. -/
theorem transfer_lossless {messages : List Buffer} {s : State}
    (h : machine.Runs (.start messages) s) :
    s.reader.results <+: messages.map Buffer.data ∧
      (∀ b ∈ s.writer.buffers.head?, s.writer.totalByteWritten ≤ b.size) ∧
      (∀ size ∈ s.reader.sizes.head?, s.reader.totalBytesRead ≤ size) ∧
      s.channel.sent <+: bytesOf messages ∧
      machine.Terminates s ∧
      (machine.Stuck s → s.writer.thrown = none → s.reader.thrown = none →
        s.writer.buffers = [] ∧ s.reader.results = messages.map Buffer.data) := by
  have hlossless := lossless h
  refine ⟨?_, hlossless.sending.le_size, hlossless.receiving.le_size, hlossless.sending.sent_start,
    terminates h, delivered_of_stuck hlossless⟩
  obtain ⟨done, todo, rfl, hresults, -⟩ := hlossless.receiving.received_eq
  rw [hresults, List.map_append]
  exact List.prefix_append _ _

/-- Two messages; the first takes two writes, the second write arrives in two pieces. -/
def sampleMessages : List Buffer := [⟨bytes "abc", by decide⟩, ⟨bytes "de", by decide⟩]

theorem transfer_lossless_sampleMessages : ∃ s, machine.Runs (.start sampleMessages) s ∧
    s.reader.results = [bytes "abc"] ∧ s.reader.results <+: sampleMessages.map Buffer.data ∧
      s.channel.sent <+: bytesOf sampleMessages := by
  obtain ⟨s, hs, hresults⟩ := Machine.exists_runs_of_exec (m := machine)
    (s := .start sampleMessages) (Q := fun s => s.reader.results = [bytes "abc"])
    [.writeSome 1, .readSome 1, .writeSome 2, .writeReturns, .readSome 1, .writeSome 1, .readSome 1,
      .readReturns, .writeFails (bytes "write_some")] (by decide +kernel)
  obtain ⟨hstart, -, -, hsent, -⟩ := transfer_lossless hs
  exact ⟨s, hs, hresults, hstart, hsent⟩

end Transfer

end AsioSamples
