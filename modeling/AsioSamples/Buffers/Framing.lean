import AsioSamples.Asio.Channel
import AsioSamples.Cpp.IStream
import AsioSamples.Machinery.Transition

/-!
# Buffers/Framing — `SendRequestAndGetReplay` and `GetRequestAndSendReplay`

One exchange between two ends of a connection.  A message ends where its sender shuts its side down:
the receiver reads up to the end of the stream, and then takes a *line* out of what it has read.  So
a message comes through if it is a single line, and only then (`roundTrips_iff`): of any other one,
all that follows the first `'\n'` is received and dropped.
-/

namespace AsioSamples

namespace Framing

/-! ## States and events -/

/-- The ends: one calls `SendRequestAndGetReplay`, the other one `GetRequestAndSendReplay`. -/
inductive Side
  | client
  | server
  deriving DecidableEq

def Side.other : Side → Side
  | client => server
  | server => client

@[simp] theorem Side.other_other (d : Side) : d.other.other = d := by cases d <;> rfl

theorem Side.other_ne (d : Side) : d.other ≠ d := by cases d <;> simp [other]

/-- Where a function is. -/
inductive Pc
  /-- In `asio::write`, or about to shut its side down. -/
  | writing
  /-- In `asio::read`. -/
  | reading
  | returned (output : Bytes)
  deriving DecidableEq

/-- `std::getline(input, output)`, into a new string. -/
def line (streambuf : Bytes) : Bytes := (({ rest := streambuf } : IStream).getline lf []).1

/-- Where a function goes on after it has shut its side down; `streambuf` is what it has read. -/
def Side.afterShutdown : Side → Bytes → Pc
  | client, _ => .reading
  | server, streambuf => .returned (line streambuf)

/-- Where a function goes on after its `asio::read` has come to the end of the stream. -/
def Side.afterEof : Side → Bytes → Pc
  | client, streambuf => .returned (line streambuf)
  | server, _ => .writing

/-- What one end sends: its bytes that are still unwritten, and the stream.  The `streambuf` of the
other end holds what of it has been received. -/
structure Lane where
  unsent : Bytes
  channel : Channel := {}
  deriving DecidableEq

structure State where
  pc : Side → Pc
  lane : Side → Lane

/-- The steps. -/
inductive Event
  | writeSome (d : Side) (n : ℕ)
  | shutdown (d : Side)
  | readSome (d : Side) (n : ℕ)
  | eof (d : Side)

/-- The streambuf of an end. -/
def State.streambuf (s : State) (d : Side) : Bytes := (s.lane d.other).channel.received

/-- Both calls begin; `message` has the arguments of the two. -/
def State.start (message : Side → Bytes) : State where
  pc
    | .client => .writing
    | .server => .reading
  lane d := { unsent := message d }

/-- When a step can be taken. -/
def Enabled (s : State) : Event → Prop
  | .writeSome d n => s.pc d = .writing ∧ 0 < n ∧ n ≤ (s.lane d).unsent.length
  | .shutdown d => s.pc d = .writing ∧ (s.lane d).unsent = []
  | .readSome d n => s.pc d = .reading ∧ 0 < n ∧ n ≤ (s.lane d.other).channel.inFlight.length
  | .eof d => s.pc d = .reading ∧ (s.lane d.other).channel.inFlight = [] ∧
      (s.lane d.other).channel.finished

instance (s : State) (e : Event) : Decidable (Enabled s e) :=
  match e with
  | .writeSome .. | .shutdown _ | .readSome .. | .eof _ => inferInstanceAs (Decidable (_ ∧ _))

/-- Where a step leads. -/
def next (s : State) : Event → State
  | .writeSome d n =>
    { s with
      lane := Function.update s.lane d
        ⟨(s.lane d).unsent.drop n, (s.lane d).channel.send ((s.lane d).unsent.take n)⟩ }
  | .shutdown d =>
    { pc := Function.update s.pc d (d.afterShutdown (s.streambuf d))
      lane := Function.update s.lane d { s.lane d with channel := (s.lane d).channel.finish } }
  | .readSome d n =>
    { s with
      lane := Function.update s.lane d.other
        { s.lane d.other with channel := (s.lane d.other).channel.receive n } }
  | .eof d => { s with pc := Function.update s.pc d (d.afterEof (s.streambuf d)) }

/-- The two functions on one connection that does not fail. -/
def machine : Machine State Event := ⟨Enabled, next⟩

instance (s : State) (e : Event) : Decidable (machine.Enabled s e) :=
  inferInstanceAs (Decidable (Enabled s e))

/-! ## What is sent arrives -/

/-- Has a function shut its side down? -/
def Side.shutDown : Side → Pc → Bool
  | client, p => p ≠ .writing
  | server, .returned _ => true
  | server, _ => false

/-- Has a function come to the end of what it reads? -/
def Side.sawEof : Side → Pc → Bool
  | client, .returned _ => true
  | client, _ => false
  | server, p => p ≠ .reading

@[simp] theorem shutDown_writing (d : Side) : d.shutDown .writing = false := by cases d <;> rfl

@[simp] theorem sawEof_reading (d : Side) : d.sawEof .reading = false := by cases d <;> rfl

@[simp] theorem shutDown_afterShutdown (d : Side) (buf : Bytes) :
    d.shutDown (d.afterShutdown buf) = true := by cases d <;> rfl

@[simp] theorem sawEof_afterShutdown (d : Side) (buf : Bytes) :
    d.sawEof (d.afterShutdown buf) = d.sawEof .writing := by cases d <;> rfl

@[simp] theorem shutDown_afterEof (d : Side) (buf : Bytes) :
    d.shutDown (d.afterEof buf) = d.shutDown .reading := by cases d <;> rfl

@[simp] theorem sawEof_afterEof (d : Side) (buf : Bytes) : d.sawEof (d.afterEof buf) = true := by
  cases d <;> rfl

@[simp] theorem sawEof_returned (d : Side) (out : Bytes) : d.sawEof (.returned out) = true := by
  cases d <;> rfl

/-- What a lane has carried and has still to carry is the message; an end that has shut its side
down has sent all of it, and one that saw the end of the stream has received all of it. -/
structure Framed (message : Side → Bytes) (s : State) : Prop where
  tile : ∀ d, (s.lane d).channel.sent ++ (s.lane d).unsent = message d
  finished : ∀ d, (s.lane d).channel.finished = d.shutDown (s.pc d)
  unsent : ∀ d, d.shutDown (s.pc d) → (s.lane d).unsent = []
  streambuf : ∀ d, d.sawEof (s.pc d) → s.streambuf d = message d.other
  output : ∀ d out, s.pc d = .returned out → out = line (s.streambuf d)

theorem framed_start (message : Side → Bytes) : Framed message (.start message) where
  tile _ := rfl
  finished d := by cases d <;> rfl
  unsent d h := by cases d <;> cases h
  streambuf d h := by cases d <;> cases h
  output d out h := by cases d <;> cases h

/-- A step of an end that is writing or reading, to a point that fits what it has in its
`streambuf`. -/
theorem output_update {s : State} {d : Side} {p : Pc}
    (h : ∀ d out, s.pc d = .returned out → out = line (s.streambuf d))
    (hp : ∀ out, p = .returned out → out = line (s.streambuf d)) :
    ∀ d' out, Function.update s.pc d p d' = .returned out → out = line (s.streambuf d') :=
  (Function.forall_update_iff s.pc fun d' q => ∀ out, q = .returned out →
    out = line (s.streambuf d')).mpr ⟨hp, fun d' _ => h d'⟩

/-- A step that leaves alone what a lane has delivered leaves both `streambuf`s alone. -/
theorem streambuf_update {s : State} {d : Side} {l : Lane} (pc : Side → Pc)
    (hl : l.channel.received = (s.lane d).channel.received) (d' : Side) :
    State.streambuf ⟨pc, Function.update s.lane d l⟩ d' = s.streambuf d' :=
  apply_update_eq (fun l : Lane => l.channel.received) hl d'.other

/-- A step that moves bytes in one lane. -/
theorem Framed.moved {message : Side → Bytes} {s : State} (h : Framed message s) {d : Side}
    {l : Lane} (htile : l.channel.sent ++ l.unsent = message d)
    (hfinished : l.channel.finished = (s.lane d).channel.finished)
    (hunsent : d.shutDown (s.pc d) → l.unsent = [])
    (hbuf : ∀ d', d'.sawEof (s.pc d') →
      State.streambuf ⟨s.pc, Function.update s.lane d l⟩ d' = s.streambuf d') :
    Framed message ⟨s.pc, Function.update s.lane d l⟩ where
  tile := (Function.forall_update_iff s.lane fun d' l =>
    l.channel.sent ++ l.unsent = message d').mpr ⟨htile, fun d' _ => h.tile d'⟩
  finished := (Function.forall_update_iff s.lane fun d' l =>
    l.channel.finished = d'.shutDown (s.pc d')).mpr
      ⟨hfinished.trans (h.finished d), fun d' _ => h.finished d'⟩
  unsent := (Function.forall_update_iff s.lane fun d' l =>
    d'.shutDown (s.pc d') → l.unsent = []).mpr ⟨hunsent, fun d' _ => h.unsent d'⟩
  streambuf d' hsaw := (hbuf d' hsaw).trans (h.streambuf d' hsaw)
  output d' out hout := by
    rw [hbuf d' ((congrArg d'.sawEof hout).trans (sawEof_returned d' out))]
    exact h.output d' out hout

theorem framed_next {message : Side → Bytes} {s : State} {e : Event} (h : Framed message s)
    (he : Enabled s e) : Framed message (next s e) := by
  cases e with
  | writeSome d n =>
    obtain ⟨hpc, -, hn⟩ := he
    refine h.moved ?_ rfl (fun hdown => ?_) fun d' _ => ?_
    · rw [Channel.sent_send, List.append_assoc, List.take_append_drop, h.tile]
    · rw [hpc, shutDown_writing] at hdown
      cases hdown
    · refine streambuf_update s.pc ?_ d'
      rfl
  | shutdown d =>
    obtain ⟨hpc, hunsent⟩ := he
    have hbuf : ∀ d', (next s (.shutdown d)).streambuf d' = s.streambuf d' :=
      streambuf_update _ rfl
    refine ⟨?_, fun d' => ?_, fun d' => ?_, fun d' => ?_, fun d' => ?_⟩
    · exact (Function.forall_update_iff s.lane fun d' l =>
        l.channel.sent ++ l.unsent = message d').mpr ⟨h.tile d, fun d' _ => h.tile d'⟩
    · by_cases hd : d' = d
      · subst hd
        simp [next, Channel.finish]
      · simp [next, hd, h.finished]
    · by_cases hd : d' = d
      · subst hd
        simp [next, hunsent]
      · simpa [next, hd] using h.unsent d'
    · rw [hbuf]
      refine (Function.forall_update_iff s.pc fun (d' : Side) p => d'.sawEof p →
        s.streambuf d' = message d'.other).mpr ⟨fun hsaw => ?_, fun d' _ => h.streambuf d'⟩ d'
      exact h.streambuf d (by rwa [sawEof_afterShutdown, ← hpc] at hsaw)
    · rw [hbuf]
      refine output_update h.output (fun out hout => ?_) d'
      cases d <;> cases hout
      rfl
  | readSome d n =>
    obtain ⟨hpc, -, hn⟩ := he
    refine h.moved ?_ rfl (h.unsent d.other) fun d' hsaw => ?_
    · rw [Channel.sent_receive, h.tile]
    · -- an end that has come to the end of its stream is not the one that reads
      have hd : d'.other ≠ d.other := fun heq => by
        rw [← d'.other_other, heq, d.other_other, hpc, sawEof_reading] at hsaw
        cases hsaw
      simp [State.streambuf, hd]
  | eof d =>
    obtain ⟨hpc, hnone, hfinished⟩ := he
    have hdown : ∀ d' : Side, d'.shutDown ((next s (.eof d)).pc d') = d'.shutDown (s.pc d') :=
      (Function.forall_update_iff s.pc fun (d' : Side) p =>
        d'.shutDown p = d'.shutDown (s.pc d')).mpr ⟨by rw [shutDown_afterEof, hpc], fun _ _ => rfl⟩
    refine ⟨h.tile, fun d' => ?_, fun d' => ?_, ?_, ?_⟩
    · rw [hdown]
      exact h.finished d'
    · rw [hdown]
      exact h.unsent d'
    · refine (Function.forall_update_iff s.pc fun (d' : Side) p => d'.sawEof p →
        s.streambuf d' = message d'.other).mpr ⟨fun _ => ?_, fun d' _ => h.streambuf d'⟩
      -- all of the message has been sent, and nothing of it is in flight
      have hall := h.tile d.other
      rw [h.unsent d.other (h.finished d.other ▸ hfinished), List.append_nil,
        Channel.sent_of_inFlight hnone] at hall
      exact hall
    · refine output_update h.output fun out hout => ?_
      cases d <;> cases hout
      rfl

theorem framed {message : Side → Bytes} {s : State} (h : machine.Runs (.start message) s) :
    Framed message s :=
  h.invariant (framed_start message) fun _ _ _ hs he => framed_next hs he

/-! ## The exchange ends -/

/-- The bytes a lane has still to move. -/
def Lane.work (l : Lane) : ℕ := 2 * l.unsent.length + l.channel.inFlight.length

/-- The calls a function has still to make. -/
def Side.callsLeft : Side → Pc → ℕ
  | _, .returned _ => 0
  | client, .reading | server, .writing => 1
  | client, .writing | server, .reading => 2

/-- What is left to do. -/
def variant (s : State) : ℕ :=
  (s.lane .client).work + (s.lane .server).work + Side.callsLeft .client (s.pc .client)
    + Side.callsLeft .server (s.pc .server)

theorem callsLeft_afterShutdown (d : Side) (buf : Bytes) :
    d.callsLeft (d.afterShutdown buf) < d.callsLeft .writing := by
  cases d <;> simp [Side.afterShutdown, Side.callsLeft]

theorem callsLeft_afterEof (d : Side) (buf : Bytes) :
    d.callsLeft (d.afterEof buf) < d.callsLeft .reading := by
  cases d <;> simp [Side.afterEof, Side.callsLeft]

/-- A step that makes one lane's work less, or one function's calls fewer, and nothing more. -/
theorem variant_lt {s s' : State} (d : Side)
    (hlane : ∀ d', d' ≠ d → (s'.lane d').work = (s.lane d').work)
    (hpc : ∀ d', d' ≠ d → d'.callsLeft (s'.pc d') = d'.callsLeft (s.pc d'))
    (h : (s'.lane d).work + d.callsLeft (s'.pc d) < (s.lane d).work + d.callsLeft (s.pc d)) :
    variant s' < variant s := by
  have hlane' := hlane d.other d.other_ne
  have hpc' := hpc d.other d.other_ne
  unfold variant
  cases d <;> simp only [Side.other] at hlane' hpc' <;> omega

theorem variant_next {s : State} {e : Event} (he : Enabled s e) :
    variant (next s e) < variant s := by
  cases e with
  | writeSome d n =>
    obtain ⟨-, hpos, hn⟩ := he
    refine variant_lt d (fun d' hd => by simp [next, hd]) (fun d' _ => rfl) ?_
    simp only [next, Function.update_self, Lane.work, Channel.send, List.length_drop,
      List.length_append, List.length_take]
    omega
  | shutdown d =>
    obtain ⟨hpc, -⟩ := he
    refine variant_lt d (fun d' hd => by simp [next, hd]) (fun d' hd => by simp [next, hd]) ?_
    have hfewer := callsLeft_afterShutdown d (s.streambuf d)
    simp only [next, Function.update_self, Lane.work, Channel.finish, hpc]
    omega
  | readSome d n =>
    obtain ⟨-, hpos, hn⟩ := he
    refine variant_lt d.other (fun d' hd => by simp [next, hd]) (fun d' _ => rfl) ?_
    simp only [next, Function.update_self, Lane.work, Channel.receive, List.length_drop]
    omega
  | eof d =>
    obtain ⟨hpc, -⟩ := he
    refine variant_lt d (fun d' _ => rfl) (fun d' hd => by simp [next, hd]) ?_
    have hfewer := callsLeft_afterEof d (s.streambuf d)
    simp only [next, Function.update_self, hpc]
    omega

/-- **Every exchange comes to an end.** -/
theorem terminates (s : State) : machine.Terminates s :=
  Machine.terminates_of_variant variant fun _ _ _ he => variant_next he

/-- An end that waits for the other one waits for something to be sent. -/
theorem not_finished_of_stuck {s : State} (hstuck : machine.Stuck s) {d : Side}
    (hpc : s.pc d = .reading) : (s.lane d.other).channel.finished = false := by
  by_cases hnone : (s.lane d.other).channel.inFlight = []
  · by_contra hfinished
    exact hstuck (.eof d) ⟨hpc, hnone, by simpa using hfinished⟩
  · exact absurd ⟨hpc, Nat.one_pos, List.length_pos_of_ne_nil hnone⟩ (hstuck (.readSome d 1))

/-- Nobody waits to write. -/
theorem ne_writing_of_stuck {s : State} (hstuck : machine.Stuck s) (d : Side) :
    s.pc d ≠ .writing := by
  intro hpc
  by_cases hunsent : (s.lane d).unsent = []
  · exact hstuck (.shutdown d) ⟨hpc, hunsent⟩
  · exact hstuck (.writeSome d 1) ⟨hpc, Nat.one_pos, List.length_pos_of_ne_nil hunsent⟩

/-- **Both functions have returned when nothing more happens**, and each returns the first line of
what the other one was given. -/
theorem returned_of_stuck {message : Side → Bytes} {s : State} (h : Framed message s)
    (hstuck : machine.Stuck s) (d : Side) : s.pc d = .returned (line (message d.other)) := by
  have hreturned : ∀ d out, s.pc d = .returned out →
      s.pc d = .returned (line (message d.other)) := fun d out hpc => by
    rw [hpc, h.output d out hpc, h.streambuf d (by rw [hpc, sawEof_returned])]
  -- the server reads until the client has shut its side down, which it does before it reads
  have hserver : ∃ out, s.pc .server = .returned out := by
    cases hpc : s.pc .server with
    | writing => exact absurd hpc (ne_writing_of_stuck hstuck .server)
    | reading =>
      have hopen := not_finished_of_stuck hstuck hpc
      rw [Side.other, h.finished, Side.shutDown] at hopen
      exact absurd (by simpa using hopen) (ne_writing_of_stuck hstuck .client)
    | returned out => exact ⟨out, rfl⟩
  obtain ⟨out, hout⟩ := hserver
  cases d with
  | server => exact hreturned .server out hout
  | client =>
    cases hpc : s.pc .client with
    | writing => exact absurd hpc (ne_writing_of_stuck hstuck .client)
    | reading =>
      have hopen := not_finished_of_stuck hstuck hpc
      rw [Side.other, h.finished, hout, Side.shutDown] at hopen
      cases hopen
    | returned out' => rw [← hpc, hreturned .client out' hpc]

/-! ## What comes through -/

/-- A byte string is its own first line exactly when it is a single one. -/
theorem line_eq_iff (buf : Bytes) : line buf = buf ↔ lf ∉ buf := by
  unfold line
  rcases IStream.getline_cases buf [] lf with ⟨first, tail, rfl, -, hget⟩ | ⟨hbuf, hget⟩
  · rw [hget]
    simp
  · rw [hget]
    simpa using hbuf

/-- The arguments of the two calls. -/
def messages (request reply : Bytes) : Side → Bytes
  | .client => request
  | .server => reply

/-- However the exchange goes, it ends, and each end has then returned what the other one was
given. -/
def RoundTrips (request reply : Bytes) : Prop :=
  machine.Terminates (.start (messages request reply)) ∧
    ∀ s, machine.Runs (.start (messages request reply)) s → machine.Stuck s →
      s.pc .client = .returned reply ∧ s.pc .server = .returned request

/-- Some exchange ends, and in the first lines. -/
theorem exists_returned_line (request reply : Bytes) :
    ∃ s, machine.Runs (.start (messages request reply)) s ∧ machine.Stuck s ∧
      s.pc .client = .returned (line reply) ∧ s.pc .server = .returned (line request) := by
  obtain ⟨s, hs, hstuck⟩ := (terminates (.start (messages request reply))).exists_stuck
  exact ⟨s, hs, hstuck, returned_of_stuck (framed hs) hstuck .client,
    returned_of_stuck (framed hs) hstuck .server⟩

/-- **Only single lines come through.** -/
theorem roundTrips_iff (request reply : Bytes) :
    RoundTrips request reply ↔ lf ∉ request ∧ lf ∉ reply := by
  rw [← line_eq_iff, ← line_eq_iff]
  constructor
  · rintro ⟨-, hall⟩
    obtain ⟨s, hs, hstuck, hclient, hserver⟩ := exists_returned_line request reply
    obtain ⟨hclient', hserver'⟩ := hall s hs hstuck
    exact ⟨Pc.returned.inj (hserver.symm.trans hserver'),
      Pc.returned.inj (hclient.symm.trans hclient')⟩
  · rintro ⟨hrequest, hreply⟩
    refine ⟨terminates _, fun s hs hstuck => ⟨?_, ?_⟩⟩
    · exact (returned_of_stuck (framed hs) hstuck .client).trans (congrArg Pc.returned hreply)
    · exact (returned_of_stuck (framed hs) hstuck .server).trans (congrArg Pc.returned hrequest)

/-- A reply of two lines: the second one is lost. -/
theorem not_roundTrips_two_lines :
    ¬ RoundTrips (bytes "Hello Bob!") (bytes "Hi dear Alice!\nHow are you?") := by
  rintro ⟨-, hall⟩
  obtain ⟨s, hs, hstuck, hclient, -⟩ :=
    exists_returned_line (bytes "Hello Bob!") (bytes "Hi dear Alice!\nHow are you?")
  have hline := Pc.returned.inj (hclient.symm.trans (hall s hs hstuck).1)
  exact absurd hline (by decide)

end Framing

end AsioSamples
