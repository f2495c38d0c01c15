import AsioSamples.Buffers.Transfer

/-!
# Buffers/Elements — `WriteToSocket` on a container of any elements

`WriteToSocket` compares `totalByteWritten` with `buffer.size()`, adds it to `buffer.data()`, and
subtracts it from `buffer.size()` for a number of bytes.  `write_some` reports bytes, and `size()`
and `data()` count elements, so the loop ends after as many bytes as there are elements
(`length_sent`).  `WriteToSocketInSingleCall` leaves the size to `asio::buffer`, and the two agree
on elements of one byte and on empty containers (`writeToSocket_iff`).
-/

namespace AsioSamples

/-- A contiguous container: `size()` elements of `width` bytes each. -/
structure Elements where
  width : ℕ
  size : UInt64
  data : Bytes
  width_pos : 0 < width
  length_data : data.length = size.toNat * width

namespace Elements

/-- `asio::buffer(data() + offset, n)`, cut to the `k` bytes of it that are written. -/
def bytesAt (c : Elements) (offset : UInt64) (k : ℕ) : Bytes :=
  (c.data.drop (offset.toNat * c.width)).take k

/-- `WriteToSocketInSingleCall`: all the bytes that `asio::buffer` finds in the container. -/
def writeToSocketInSingleCall (c : Elements) : Bytes := c.data

/-- The bytes asked for are inside the container, as an element has at least one. -/
theorem length_bytesAt (c : Elements) {offset : UInt64} (h : offset ≤ c.size) {k : ℕ}
    (hk : k ≤ remaining c.size offset) : (c.bytesAt offset k).length = k := by
  rw [remaining_of_le h] at hk
  have hle := UInt64.le_iff_toNat_le.mp h
  have hroom : offset.toNat * c.width + k ≤ c.size.toNat * c.width := by
    calc offset.toNat * c.width + k
        ≤ offset.toNat * c.width + (c.size.toNat - offset.toNat) * c.width := by
          refine Nat.add_le_add_left (hk.trans ?_) _
          exact Nat.le_mul_of_pos_right _ c.width_pos
      _ = c.size.toNat * c.width := by
          rw [← Nat.add_mul, Nat.add_sub_cancel' hle]
  rw [bytesAt, List.length_take, List.length_drop, c.length_data]
  omega

/-! ## The loop -/

/-- A call of `WriteToSocket`, and what it has put on the connection. -/
structure Call where
  totalByteWritten : UInt64 := 0
  sent : Bytes := []

/-- The loop goes on, and `write_some` writes `k` of the bytes it is asked for. -/
def Enabled (c : Elements) (s : Call) (k : ℕ) : Prop :=
  s.totalByteWritten ≠ c.size ∧ 0 < k ∧ k ≤ remaining c.size s.totalByteWritten

instance (c : Elements) (s : Call) (k : ℕ) : Decidable (c.Enabled s k) :=
  inferInstanceAs (Decidable (_ ∧ _))

/-- One pass. -/
def next (c : Elements) (s : Call) (k : ℕ) : Call where
  totalByteWritten := s.totalByteWritten + UInt64.ofNat k
  sent := s.sent ++ c.bytesAt s.totalByteWritten k

/-- `WriteToSocket`, under every schedule of `write_some` results. -/
def writeToSocket (c : Elements) : Machine Call ℕ := ⟨c.Enabled, c.next⟩

instance (c : Elements) (s : Call) (k : ℕ) : Decidable (c.writeToSocket.Enabled s k) :=
  inferInstanceAs (Decidable (c.Enabled s k))

/-- The count stays below the size, and is what has been sent. -/
structure Counts (c : Elements) (s : Call) : Prop where
  le_size : s.totalByteWritten ≤ c.size
  length_sent : s.sent.length = s.totalByteWritten.toNat

theorem counts_next {c : Elements} {s : Call} {k : ℕ} (h : c.Counts s) (hk : c.Enabled s k) :
    c.Counts (c.next s k) ∧
      (c.next s k).totalByteWritten.toNat = s.totalByteWritten.toNat + k := by
  obtain ⟨hsum, hle⟩ := toNat_add_of_le h.le_size hk.2.2
  refine ⟨⟨hle, ?_⟩, hsum⟩
  rw [next, hsum, List.length_append, h.length_sent, c.length_bytesAt h.le_size hk.2.2]

theorem counts {c : Elements} {s : Call} (h : c.writeToSocket.Runs {} s) : c.Counts s := by
  refine h.invariant ⟨UInt64.le_iff_toNat_le.mpr (Nat.zero_le _), rfl⟩ fun _ _ _ hs he => ?_
  exact (counts_next hs he).1

/-- **The loop ends under every schedule.** -/
theorem terminates (c : Elements) : c.writeToSocket.Terminates {} := by
  refine Machine.terminates_of_variant (fun s => c.size.toNat - s.totalByteWritten.toNat)
    fun s k hs hk => ?_
  obtain ⟨hnext, hsum⟩ := counts_next (counts hs) hk
  have hle := UInt64.le_iff_toNat_le.mp hnext.le_size
  have hpos := hk.2.1
  simp only [writeToSocket] at hsum hle ⊢
  omega

/-- It ends when the count has come to the size. -/
theorem eq_size_of_stuck {c : Elements} {s : Call} (h : c.writeToSocket.Runs {} s)
    (hstuck : c.writeToSocket.Stuck s) : s.totalByteWritten = c.size := by
  by_contra hne
  have hpos := remaining_pos (counts h).le_size hne
  exact hstuck 1 ⟨hne, Nat.one_pos, hpos⟩

/-- **As many bytes are sent as there are elements.** -/
theorem length_sent {c : Elements} {s : Call} (h : c.writeToSocket.Runs {} s)
    (hend : s.totalByteWritten = c.size) : s.sent.length = c.size.toNat := by
  rw [(counts h).length_sent, hend]

/-- Elements of one byte are sent in order. -/
theorem sent_of_width_one {c : Elements} (hwidth : c.width = 1) {s : Call}
    (h : c.writeToSocket.Runs {} s) : s.sent = c.data.take s.totalByteWritten.toNat := by
  refine h.invariant (I := fun s => s.sent = c.data.take s.totalByteWritten.toNat) rfl
    fun s' k hs' hsent hk => ?_
  obtain ⟨-, hsum⟩ := counts_next (counts hs') hk
  simp only [writeToSocket] at hsum ⊢
  rw [hsum, next, hsent, bytesAt, hwidth, Nat.mul_one, ← List.take_add]

/-- **The two writers agree** on elements of one byte and on empty containers, under every schedule,
and under none on others: the loop ends, and what it has sent by then is what the single call
sends. -/
theorem writeToSocket_iff (c : Elements) :
    c.writeToSocket.Terminates {} ∧
      ∀ s, c.writeToSocket.Runs {} s →
        (c.writeToSocket.Stuck s → s.totalByteWritten = c.size) ∧
        (s.totalByteWritten = c.size →
          (s.sent = c.writeToSocketInSingleCall ↔ c.width = 1 ∨ c.size = 0)) := by
  refine ⟨c.terminates, fun s hs => ⟨eq_size_of_stuck hs, fun hend => ⟨fun hsent => ?_, ?_⟩⟩⟩
  · have hlen := (length_sent hs hend).symm.trans (congrArg List.length hsent)
    rw [writeToSocketInSingleCall, c.length_data] at hlen
    by_cases hsize : c.size = 0
    · exact Or.inr hsize
    · have hpos : 0 < c.size.toNat := by
        refine Nat.pos_of_ne_zero fun hzero => hsize ?_
        exact UInt64.toNat_inj.mp hzero
      refine Or.inl (Nat.eq_of_mul_eq_mul_left hpos ?_)
      omega
  · rintro (hwidth | hsize)
    · rw [sent_of_width_one hwidth hs, hend, writeToSocketInSingleCall]
      refine List.take_of_length_le ?_
      rw [c.length_data, hwidth, Nat.mul_one]
    · have hsent := length_sent hs hend
      have hdata := c.length_data
      rw [hsize] at hsent hdata
      rw [writeToSocketInSingleCall, List.length_eq_zero_iff.mp hsent]
      exact (List.length_eq_zero_iff.mp (by simpa using hdata)).symm

/-- A `std::vector<int>` with the one element 1, on a little-endian machine. -/
def oneInt : Elements := ⟨4, 1, [1, 0, 0, 0], by decide, by decide⟩

/-- One of its four bytes is sent. -/
theorem exists_sent_ne : ∃ s, oneInt.writeToSocket.Runs {} s ∧
    (s.totalByteWritten = oneInt.size ∧ s.sent = [1] ∧
      s.sent ≠ oneInt.writeToSocketInSingleCall) := by
  refine Machine.exists_runs_of_exec (Q := fun s : Call => s.totalByteWritten = oneInt.size ∧
    s.sent = [1] ∧ s.sent ≠ oneInt.writeToSocketInSingleCall) [1] ?_
  decide +kernel

/-! ## A `std::string` -/

/-- The elements of a string are its bytes. -/
def ofBuffer (b : Buffer) : Elements where
  width := 1
  size := b.size
  data := b.data
  width_pos := Nat.one_pos
  length_data := by rw [Buffer.toNat_size, Nat.mul_one]

/-- **On a string this is the writer of `Buffers/Transfer`**: each pass takes the same bytes. -/
theorem bytesAt_ofBuffer (w : Writer) {b : Buffer} (hb : b ∈ w.buffers.head?) (k : ℕ) :
    (ofBuffer b).bytesAt w.totalByteWritten k = w.taken k := by
  rw [bytesAt, Writer.taken, Option.mem_def.mp hb, ofBuffer, Nat.mul_one, Option.elim_some]

end Elements

end AsioSamples
