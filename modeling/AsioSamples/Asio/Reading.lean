import AsioSamples.Asio.Channel
import AsioSamples.Asio.Operations

/-!
# Asio/Reading — chains of reads, while their stream is arriving

`Asio/Delivery` gives a read all the chunks there will ever be.  Over a `Channel` they arrive one by
one: an operation has `got` some bytes so far, and `Wait.resume got future` is what it comes to if
`future` is all that still arrives.

A `Program` is a chain of operations and their handlers.  `Program.run` evaluates it on the chunks
of a whole stream, with nothing else going on; `Predicts` is the invariant that relates a state in
the middle of an interleaving to that evaluation.  Each thing a step can do has a rule: bytes are
sent, or arrive (`Predicts.arrive`), an operation completes (`Predicts.complete`), its handler runs,
the next one is initiated (`Predicts.initiate`).  In the end the outcome of the interleaving is that
of the evaluation, on some cut of the stream (`Predicts.exists_cut`).
-/

namespace AsioSamples

/-! ## One operation -/

/-- What an operation reads before it completes. -/
inductive Wait
  /-- `async_read_until` to `delim`, into a `streambuf` of that `max_size` with `buf` in it. -/
  | upTo (maxSize : Option ℕ) (delim buf : Bytes)
  /-- `async_read`, to the end of the stream. -/
  | all
  | nothing

namespace Wait

/-- It needs no more bytes than `got`. -/
def Satisfied : Wait → Bytes → Prop
  | .upTo maxSize delim buf, got => delim <:+: buf ++ got ∨ isFull maxSize (buf ++ got) = true
  | .all, _ => False
  | .nothing, _ => True

instance (w : Wait) (got : Bytes) : Decidable (w.Satisfied got) :=
  match w with
  | .upTo .. => inferInstanceAs (Decidable (_ ∨ _))
  | .all => inferInstanceAs (Decidable False)
  | .nothing => inferInstanceAs (Decidable True)

/-- What it reports then. -/
def code : Wait → Bytes → ErrorCode
  | .upTo _ delim buf, got => if delim <:+: buf ++ got then .success else .notFound
  | .all, _ => .success
  | .nothing, _ => .success

/-- There is room for `n` bytes more. -/
def Admits : Wait → Bytes → ℕ → Prop
  | .upTo maxSize _ buf, got, n => ∀ m ∈ maxSize, (buf ++ got).length + n ≤ m
  | .all, _, _ => True
  | .nothing, _, _ => True

instance (w : Wait) (got : Bytes) (n : ℕ) : Decidable (w.Admits got n) :=
  match w with
  | .upTo .. => inferInstanceAs (Decidable (∀ _ ∈ _, _))
  | .all | .nothing => inferInstanceAs (Decidable True)

/-- The operation, having got so much, on the chunks that are still to come. -/
def resume : Wait → Bytes → List Bytes → ReadResult
  | .upTo maxSize delim buf, got, future =>
    let r := readUntil maxSize delim (buf ++ got) future
    { r with received := got ++ r.received }
  | .all, got, future => ⟨.eof, got ++ future.flatten, []⟩
  | .nothing, got, future => ⟨.success, got, future⟩

variable {w : Wait} {got : Bytes}

/-- **A chunk that arrives** has been got, and is no longer to come. -/
theorem resume_arrive (hmore : ¬ w.Satisfied got) {chunk : Bytes}
    (hroom : w.Admits got chunk.length) (future : List Bytes) :
    w.resume got (chunk :: future) = w.resume (got ++ chunk) future := by
  cases w with
  | upTo maxSize delim buf =>
    obtain ⟨hdelim, hfull⟩ := not_or.mp hmore
    have hfits : room maxSize (buf ++ got) chunk = chunk.length := by
      cases maxSize with
      | none => rfl
      | some m =>
        have hle : (buf ++ got).length + chunk.length ≤ m := hroom m rfl
        simp only [room]
        omega
    simp only [resume]
    rw [readUntil, if_neg hdelim, if_neg hfull, if_pos hfits]
    simp only [List.append_assoc]
  | all => simp [resume]
  | nothing => exact absurd trivial hmore

/-- An operation that needs no more leaves what is still to come. -/
theorem resume_of_satisfied (h : w.Satisfied got) (future : List Bytes) :
    w.resume got future = ⟨w.code got, got, future⟩ := by
  cases w with
  | upTo maxSize delim buf =>
    simp only [resume, code]
    by_cases hdelim : delim <:+: buf ++ got
    · cases future <;> simp [readUntil, hdelim]
    · have hfull : isFull maxSize (buf ++ got) = true := h.resolve_left hdelim
      cases future <;> simp [readUntil, hdelim, hfull]
  | all => exact h.elim
  | nothing => rfl

/-- An operation that needs more meets the end of the stream. -/
theorem resume_nil (h : ¬ w.Satisfied got) : w.resume got [] = ⟨.eof, got, []⟩ := by
  cases w with
  | upTo maxSize delim buf =>
    obtain ⟨hdelim, hfull⟩ := not_or.mp h
    simp [resume, readUntil, hdelim, hfull]
  | all => simp [resume]
  | nothing => exact absurd trivial h

/-- There is room for one byte, as long as more are needed. -/
theorem admits_one (h : ¬ w.Satisfied got) : w.Admits got 1 := by
  cases w with
  | upTo maxSize delim buf =>
    have hfull := (not_or.mp h).2
    rintro m rfl
    simp only [isFull, decide_eq_true_eq, not_le] at hfull
    omega
  | all | nothing => trivial

end Wait

/-! ## An operation on a channel -/

/-- What has arrived behind the first `taken` bytes. -/
def Channel.since (c : Channel) (taken : ℕ) : Bytes := c.received.drop taken

/-- `n` bytes in flight can arrive, for an operation that began with `taken` of them. -/
def Wait.Arrives (w : Wait) (c : Channel) (taken n : ℕ) : Prop :=
  ¬ w.Satisfied (c.since taken) ∧ 0 < n ∧ n ≤ c.inFlight.length ∧ w.Admits (c.since taken) n

instance (w : Wait) (c : Channel) (taken n : ℕ) : Decidable (w.Arrives c taken n) :=
  inferInstanceAs (Decidable (_ ∧ _))

/-- The operation can complete so: it needs no more, or the stream has ended. -/
def Wait.Completes (w : Wait) (c : Channel) (taken : ℕ) (r : Completion) : Prop :=
  if w.Satisfied (c.since taken) then r = ⟨w.code (c.since taken), c.since taken⟩
  else c.finished = true ∧ c.inFlight = [] ∧ r = ⟨.eof, c.since taken⟩

instance (w : Wait) (c : Channel) (taken : ℕ) (r : Completion) :
    Decidable (w.Completes c taken r) := by
  unfold Wait.Completes
  infer_instance

@[simp] theorem Channel.since_received_length (c : Channel) : c.since c.received.length = [] :=
  List.drop_length

theorem Channel.since_receive {c : Channel} {taken : ℕ} (h : taken ≤ c.received.length) (n : ℕ) :
    (c.receive n).since taken = c.since taken ++ c.inFlight.take n := by
  rw [since, received_receive, List.drop_append_of_le_length h, since]

/-- **An operation completes, or waits for bytes that are to arrive, or for its peer.** -/
theorem Wait.progress (w : Wait) (c : Channel) (taken : ℕ) :
    (∃ r, w.Completes c taken r) ∨ w.Arrives c taken 1 ∨
      (¬ w.Satisfied (c.since taken) ∧ c.inFlight = [] ∧ c.finished = false) := by
  by_cases h : w.Satisfied (c.since taken)
  · exact Or.inl ⟨⟨_, _⟩, by rw [Wait.Completes, if_pos h]⟩
  · cases hflight : c.inFlight with
    | nil =>
      cases hfinished : c.finished with
      | true =>
        refine Or.inl ⟨⟨.eof, c.since taken⟩, ?_⟩
        rw [Wait.Completes, if_neg h]
        exact ⟨hfinished, hflight, rfl⟩
      | false => exact Or.inr (Or.inr ⟨h, rfl, rfl⟩)
    | cons b bs =>
      refine Or.inr (Or.inl ⟨h, Nat.one_pos, ?_, Wait.admits_one h⟩)
      rw [hflight]
      exact Nat.succ_le_succ (Nat.zero_le _)

/-! ## The bytes of a write -/

/-- A write with `buffer` to send sends `n` bytes more of it. -/
def Channel.transmit (c : Channel) (buffer : Bytes) (n : ℕ) : Channel :=
  c.send ((buffer.drop c.sent.length).take n)

/-- The steps there are until all of `message` has been sent and has arrived. -/
def Channel.toGo (c : Channel) (message : Bytes) : ℕ :=
  2 * (message.length - c.sent.length) + c.inFlight.length

namespace Channel

variable {c : Channel} {message : Bytes} {n : ℕ}

theorem transmit_sent_prefix (h : c.sent <+: message) (n : ℕ) :
    (c.transmit message n).sent <+: message := by
  obtain ⟨rest, rfl⟩ := h
  rw [transmit, sent_send, List.drop_left]
  exact (List.prefix_append_right_inj _).mpr (List.take_prefix n rest)

theorem toGo_transmit_lt (hpos : 0 < n) (hle : c.sent.length + n ≤ message.length) :
    (c.transmit message n).toGo message < c.toGo message := by
  rw [toGo, toGo, transmit, sent_send]
  simp only [send, List.length_append, List.length_take, List.length_drop]
  omega

theorem toGo_receive_lt (hpos : 0 < n) (hn : n ≤ c.inFlight.length) (message : Bytes) :
    (c.receive n).toGo message < c.toGo message := by
  rw [toGo, toGo, sent_receive]
  simp only [receive, List.length_drop]
  omega

/-- A write that has not sent all there is can send more. -/
theorem length_lt_of_prefix (h : c.sent <+: message) (hne : c.sent ≠ message) :
    c.sent.length + 1 ≤ message.length := by
  have hle := h.length_le
  have hlen : c.sent.length ≠ message.length := fun hlen => hne (h.eq_of_length hlen)
  omega

end Channel

/-! ## A chain of operations -/

/-- What a handler leads to: the next operation, or the end, with a result unless it hangs. -/
inductive Act (σ ω ρ : Type*)
  | await (s : σ) (op : ω)
  | stop (result : Option ρ)

/-- A chain of operations and their handlers, which comes nearer to its end with each of them. -/
structure Program (σ ω ρ : Type*) where
  wait : σ → ω → Wait
  handle : σ → ω → Completion → Act σ ω ρ
  rank : ω → ℕ
  rank_lt : ∀ {s op c s' op'}, handle s op c = .await s' op' → rank op' < rank op

namespace Program

variable {σ ω ρ : Type*} (P : Program σ ω ρ)

/-- The chain from `op` on, for at most `n` operations. -/
def runFrom : ℕ → σ → ω → List Bytes → Option ρ
  | 0, _, _, _ => none
  | n + 1, s, op, chunks =>
    let r := (P.wait s op).resume [] chunks
    match P.handle s op ⟨r.ec, r.received⟩ with
    | .await s' op' => runFrom n s' op' r.rest
    | .stop result => result

/-- The chain from `op` on. -/
def run (s : σ) (op : ω) (chunks : List Bytes) : Option ρ := P.runFrom (P.rank op + 1) s op chunks

/-- The chain from the handler of `op` on, which is given `c`. -/
def after (s : σ) (op : ω) (c : Completion) (chunks : List Bytes) : Option ρ :=
  match P.handle s op c with
  | .await s' op' => P.run s' op' chunks
  | .stop result => result

/-- The chain from the middle of `op` on, which has got so much. -/
def resumed (s : σ) (op : ω) (got : Bytes) (future : List Bytes) : Option ρ :=
  let r := (P.wait s op).resume got future
  P.after s op ⟨r.ec, r.received⟩ r.rest

variable {P} {s s' : σ} {op op' : ω} {c : Completion}

theorem runFrom_of_rank_lt {n : ℕ} (h : P.rank op < n) (chunks : List Bytes) :
    P.runFrom n s op chunks = P.run s op chunks := by
  induction n using Nat.strong_induction_on generalizing s op chunks with
  | _ n ih =>
    obtain ⟨m, rfl⟩ : ∃ m, n = m + 1 := ⟨n - 1, by omega⟩
    rw [run, runFrom, runFrom]
    split
    next s' op' hnext =>
      have hlt := P.rank_lt hnext
      rw [ih m (by omega) (by omega)]
      rcases Nat.lt_or_ge (P.rank op) m with hrank | hrank
      · exact (ih _ (by omega) hlt _).symm
      · rw [show P.rank op = m by omega]
        exact (ih m (by omega) (by omega) _).symm
    next => rfl

/-- **The chain, operation by operation.** -/
theorem run_eq_resumed (s : σ) (op : ω) : P.run s op = P.resumed s op [] := by
  funext chunks
  rw [run, runFrom, resumed, after]
  split
  next s' op' hnext => exact runFrom_of_rank_lt (P.rank_lt hnext) _
  next => rfl

theorem after_of_await (h : P.handle s op c = .await s' op') : P.after s op c = P.run s' op' := by
  funext chunks
  rw [after, h]

theorem after_of_stop {result : Option ρ} (h : P.handle s op c = .stop result) :
    P.after s op c = fun _ => result := by
  funext chunks
  rw [after, h]

end Program

/-! ## Evaluation and interleaving -/

/-- What may still arrive: nothing, once the stream has ended. -/
def Channel.Allows (c : Channel) (future : List Bytes) : Prop :=
  c.finished = true → c.inFlight = [] → future = []

/-- Whatever still arrives of the stream, `run` makes of all of it what `rest` makes of that. -/
def Predicts {ρ : Type*} (run : List Bytes → Option ρ) (c : Channel)
    (rest : List Bytes → Option ρ) : Prop :=
  ∃ past, IsCut c.received past ∧
    ∀ future, c.Allows future → run (past ++ future) = rest future

namespace Predicts

variable {σ ω ρ : Type*} {run rest rest' : List Bytes → Option ρ} {c c' : Channel}

/-- Before anything has arrived everything is still to come. -/
theorem start (h : c.received = []) : Predicts run c run :=
  ⟨[], ⟨h.symm, by simp⟩, fun _ _ => rfl⟩

theorem congr (h : Predicts run c rest)
    (heq : ∀ future, c.Allows future → rest future = rest' future) : Predicts run c rest' := by
  obtain ⟨past, hpast, hrun⟩ := h
  exact ⟨past, hpast, fun future hf => (hrun future hf).trans (heq future hf)⟩

/-- A step after which less may arrive. -/
theorem mono (h : Predicts run c rest) (hreceived : c'.received = c.received)
    (hallows : ∀ future, c'.Allows future → c.Allows future) : Predicts run c' rest := by
  obtain ⟨past, hpast, hrun⟩ := h
  exact ⟨past, hreceived ▸ hpast, fun future hf => hrun future (hallows future hf)⟩

theorem send (h : Predicts run c rest) (hopen : c.finished = false) (data : Bytes) :
    Predicts run (c.send data) rest :=
  h.mono rfl fun _ _ hfinished => absurd (hopen.symm.trans hfinished) (by decide)

theorem finish (h : Predicts run c rest) : Predicts run c.finish rest :=
  h.mono rfl fun _ hf _ => hf rfl

/-- A piece arrives. -/
theorem receive (h : Predicts run c rest) {n : ℕ} (hpos : 0 < n) (hn : n ≤ c.inFlight.length) :
    Predicts run (c.receive n) fun future => rest (c.inFlight.take n :: future) := by
  obtain ⟨past, hpast, hrun⟩ := h
  have hflight : c.inFlight ≠ [] := List.ne_nil_of_length_pos (by omega)
  have hchunk : c.inFlight.take n ≠ [] := by
    rw [Ne, List.take_eq_nil_iff, not_or]
    exact ⟨by omega, hflight⟩
  refine ⟨past ++ [c.inFlight.take n], ⟨?_, ?_⟩, fun future _ => ?_⟩
  · rw [List.flatten_append, hpast.flatten, Channel.received_receive]
    simp
  · exact List.forall_mem_append.mpr ⟨hpast.ne_nil_of_mem, by simpa using hchunk⟩
  · rw [List.append_assoc]
    exact hrun _ fun _ hnone => absurd hnone hflight

variable {P : Program σ ω ρ} {s s' : σ} {op op' : ω} {taken : ℕ} {r : Completion}

/-- **A piece arrives for an operation.** -/
theorem arrive (h : Predicts run c (P.resumed s op (c.since taken))) {n : ℕ}
    (hn : (P.wait s op).Arrives c taken n) (htaken : taken ≤ c.received.length) :
    Predicts run (c.receive n) (P.resumed s op ((c.receive n).since taken)) := by
  obtain ⟨hmore, hpos, hle, hroom⟩ := hn
  refine (h.receive hpos hle).congr fun future _ => ?_
  have hlen : (c.inFlight.take n).length = n := List.length_take_of_le hle
  rw [Channel.since_receive htaken, Program.resumed, Program.resumed,
    Wait.resume_arrive hmore (hlen.symm ▸ hroom)]

/-- **An operation completes.** -/
theorem complete (h : Predicts run c (P.resumed s op (c.since taken)))
    (hr : (P.wait s op).Completes c taken r) : Predicts run c (P.after s op r) := by
  refine h.congr fun future hf => ?_
  rw [Program.resumed]
  unfold Wait.Completes at hr
  split at hr
  next hdone =>
    rw [hr, Wait.resume_of_satisfied hdone]
  next hmore =>
    obtain ⟨hfinished, hflight, rfl⟩ := hr
    rw [hf hfinished hflight, Wait.resume_nil hmore]

/-- **A handler goes on to the next operation.** -/
theorem await (h : Predicts run c (P.after s op r)) (hnext : P.handle s op r = .await s' op') :
    Predicts run c (P.run s' op') := by
  rwa [Program.after_of_await hnext] at h

/-- A handler ends the chain. -/
theorem stop (h : Predicts run c (P.after s op r)) {result : Option ρ}
    (hend : P.handle s op r = .stop result) : Predicts run c fun _ => result := by
  rwa [Program.after_of_stop hend] at h

/-- **An operation is initiated.** -/
theorem initiate (h : Predicts run c (P.run s op)) :
    Predicts run c (P.resumed s op (c.since c.received.length)) := by
  rwa [Channel.since_received_length, ← Program.run_eq_resumed]

/-- **In the end** the whole stream is cut somehow, and evaluated. -/
theorem exists_cut {result : Option ρ} (h : Predicts run c fun _ => result) (more : Bytes)
    (hmore : c.finished = true → c.inFlight = [] → more = []) :
    ∃ chunks, IsCut (c.received ++ more) chunks ∧ run chunks = result := by
  obtain ⟨past, hpast, hrun⟩ := h
  by_cases hnil : more = []
  · refine ⟨past, ?_, ?_⟩
    · rwa [hnil, List.append_nil]
    · have hpast' := hrun [] fun _ _ => rfl
      rwa [List.append_nil] at hpast'
  · refine ⟨past ++ [more], ⟨?_, ?_⟩, hrun [more] fun hf hi => absurd (hmore hf hi) hnil⟩
    · rw [List.flatten_append, hpast.flatten]
      simp
    · exact List.forall_mem_append.mpr ⟨hpast.ne_nil_of_mem, by simpa using hnil⟩

end Predicts

/-- One cut of one stream, as a segmentation. -/
def Segmentation.ofCut {stream : Bytes} {chunks : List Bytes} (h : IsCut stream chunks) :
    Segmentation where
  cut s := if s = stream then chunks else Segmentation.whole.cut s
  flatten_cut s := by
    split
    next heq => rw [h.flatten, heq]
    next => exact Segmentation.whole.flatten_cut s
  ne_nil_of_mem s chunk hchunk := by
    split at hchunk
    · exact h.ne_nil_of_mem chunk hchunk
    · exact Segmentation.whole.ne_nil_of_mem s chunk hchunk

theorem Segmentation.ofCut_cut {stream : Bytes} {chunks : List Bytes} (h : IsCut stream chunks) :
    (Segmentation.ofCut h).cut stream = chunks := if_pos rfl

end AsioSamples
