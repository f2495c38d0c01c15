import AsioSamples.Asio.Delivery
import AsioSamples.Machinery.Transition

/-!
# Udp/Client — `SyncUDPClient` and the datagrams its socket may receive

`EmulateLongComputationOp` sends its request and returns what the next `receive_from` delivers.  The
socket is not connected, so that is the next datagram from anyone; `receive_from` stores the sender
in the endpoint the request was sent to, where nothing compares the two, and the array it fills has
room for six bytes.  Anyone may send a datagram to the socket at any time, and they arrive in any
order or not at all (`Machine.Runs`).
-/

namespace AsioSamples

/-! ## Datagrams -/

/-- `asio::ip::udp::endpoint`, with addresses of any type. -/
structure UdpEndpoint (α : Type*) where
  address : α
  port : UInt16
  deriving DecidableEq

/-- A datagram to the client's socket. -/
structure Datagram (α : Type*) where
  sender : UdpEndpoint α
  payload : Bytes
  deriving DecidableEq

variable {α : Type*}

/-- What asio makes of the text of an address, and the texts of its errors. -/
structure AddressParser (α : Type*) where
  fromString : Bytes → α × ErrorCode
  message : ErrorCode → Bytes

/-- `msg << n`, for an `int`. -/
def printInt (n : ℤ) : Bytes :=
  if n < 0 then bytes "-" ++ toString n.natAbs else toString n.natAbs

/-- `CreateEndpoint`; an error is the text of the `runtime_error`. -/
def createEndpoint (parser : AddressParser α) (ip : Bytes) (port : UInt16) :
    Except Bytes (UdpEndpoint α) :=
  let (ipAddress, ec) := parser.fromString ip
  if ec.value ≠ 0 then
    .error (bytes "Failed to parse the IP address. Error code = " ++ printInt ec.value
      ++ bytes ". Message: " ++ parser.message ec)
  else .ok ⟨ipAddress, port⟩

namespace SyncUDPClient

/-! ## One call -/

/-- Where the call is, and what its locals hold. -/
inductive Stage (α : Type*)
  | sendRequest (endPoint : UdpEndpoint α) (request : Bytes)
  /-- In `receive_from`. -/
  | receiveResponse (endPoint : UdpEndpoint α)
  /-- `received` is the part of `response` that was filled. -/
  | shutdown (endPoint : UdpEndpoint α) (received : Bytes)
  | returned (text : Bytes)
  | runtimeError (what : Bytes)
  | systemError (ec : ErrorCode)
  deriving DecidableEq

/-- `sizeof(response)`. -/
def responseSize : ℕ := 6

structure State (α : Type*) where
  stage : Stage α
  /-- The requests on their way, each with its destination. -/
  requests : List (UdpEndpoint α × Bytes) := []
  /-- The datagrams on their way to the socket. -/
  inFlight : List (Datagram α)
  /-- Those that have arrived and wait to be received. -/
  queue : List (Datagram α) := []
  /-- The datagram that `receive_from` has delivered. -/
  received : Option (Datagram α) := none
  deriving DecidableEq

/-- The call begins. -/
def State.start (parser : AddressParser α) (durationSec : UInt32) (ip : Bytes) (port : UInt16)
    (inFlight : List (Datagram α)) : State α where
  inFlight := inFlight
  stage :=
    match createEndpoint parser ip port with
    | .error what => .runtimeError what
    | .ok endPoint => .sendRequest endPoint
        (bytes "EMULATE_LONG_COMP_OP " ++ toString durationSec.toNat ++ [lf])

/-- The datagrams sent to the socket: the one received, those that wait, and those on their way. -/
def State.datagrams (s : State α) : List (Datagram α) := s.received.toList ++ s.queue ++ s.inFlight

/-- The steps. -/
inductive Event (α : Type*)
  /-- Someone sends a datagram to the socket. -/
  | send (d : Datagram α)
  | arrive (d : Datagram α)
  /-- `send_to` reports `ec`. -/
  | sendTo (ec : ErrorCode)
  | receiveFrom
  | receiveFails (ec : ErrorCode)
  /-- `shutdown(shutdown_both)` reports `ec`. -/
  | shutdownBoth (ec : ErrorCode)

/-- When a step can be taken. -/
def Enabled (s : State α) : Event α → Prop
  | .send _ => True
  | .arrive d => d ∈ s.inFlight
  | .sendTo _ => ∃ endPoint request, s.stage = .sendRequest endPoint request
  | .receiveFrom => (∃ endPoint, s.stage = .receiveResponse endPoint) ∧ s.queue ≠ []
  | .receiveFails ec => (∃ endPoint, s.stage = .receiveResponse endPoint) ∧ ec.value ≠ 0
  | .shutdownBoth _ => ∃ endPoint received, s.stage = .shutdown endPoint received

/-- `receive_from` delivers a datagram: its sender goes where the endpoint was, and what does not
fit is discarded. -/
def State.receive (s : State α) (d : Datagram α) : State α :=
  { s with
    queue := s.queue.tail
    received := some d
    stage := .shutdown d.sender (d.payload.take responseSize) }

/-- Where a step leads. -/
def next [DecidableEq α] (s : State α) : Event α → State α
  | .send d => { s with inFlight := s.inFlight ++ [d] }
  | .arrive d => { s with inFlight := s.inFlight.erase d, queue := s.queue ++ [d] }
  | .sendTo ec =>
    match s.stage with
    | .sendRequest endPoint request =>
      if ec.value ≠ 0 then { s with stage := .systemError ec }
      else
        { s with
          requests := s.requests ++ [(endPoint, request)]
          stage := .receiveResponse endPoint }
    | _ => s
  | .receiveFrom => s.queue.head?.elim s s.receive
  | .receiveFails ec => { s with stage := .systemError ec }
  | .shutdownBoth ec =>
    match s.stage with
    | .shutdown _ received =>
      if ec.value ≠ 0 then { s with stage := .systemError ec }
      else { s with stage := .returned received }
    | _ => s

/-- The client among the datagrams. -/
def machine [DecidableEq α] : Machine (State α) (Event α) := ⟨Enabled, next⟩

/-! ## What is received, and from whom -/

/-- A response that is at hand, or has been returned, is the beginning of the datagram that was
received. -/
def FromReceived (s : State α) : Prop :=
  match s.stage with
  | .shutdown _ text | .returned text =>
    ∃ d, s.received = some d ∧ text = d.payload.take responseSize
  | _ => True

theorem fromReceived_start (parser : AddressParser α) (durationSec : UInt32) (ip : Bytes)
    (port : UInt16) (inFlight : List (Datagram α)) :
    FromReceived (.start parser durationSec ip port inFlight) := by
  unfold FromReceived State.start
  cases createEndpoint parser ip port <;> trivial

/-- The text is the whole payload of a datagram from there. -/
def Genuine (server : UdpEndpoint α) (s : State α) (text : Bytes) : Prop :=
  ∃ d ∈ s.datagrams, d.sender = server ∧ d.payload = text

/-- The datagram that is received comes from there, and fits. -/
def Fitting (server : UdpEndpoint α) (d : Datagram α) : Prop :=
  d.sender = server ∧ d.payload.length ≤ responseSize

/-- `receive_from` delivers such a datagram. -/
def ReceivesFitting (server : UdpEndpoint α) (s : State α) : Event α → Prop
  | .receiveFrom => ∀ d ∈ s.queue.head?, Fitting server d
  | _ => True

/-- **A whole payload from the right sender** is a datagram that fits, from there. -/
theorem eq_payload_iff {server : UdpEndpoint α} {d : Datagram α} {text : Bytes}
    (htext : text = d.payload.take responseSize) :
    d.sender = server ∧ d.payload = text ↔ Fitting server d := by
  rw [htext, Fitting, eq_comm (a := d.payload), List.take_eq_self_iff]

/-! ## What is returned -/

variable [DecidableEq α]

theorem fromReceived_next {s : State α} {e : Event α} (h : FromReceived s) (he : Enabled s e) :
    FromReceived (next s e) := by
  cases e with
  | send d => exact h
  | arrive d => exact h
  | sendTo ec =>
    obtain ⟨endPoint, request, hstage⟩ := he
    simp only [next, hstage]
    by_cases hec : ec.value ≠ 0
    · rw [if_pos hec]
      trivial
    · rw [if_neg hec]
      trivial
  | receiveFrom =>
    obtain ⟨-, hqueue⟩ := he
    obtain ⟨d, queue, hqueue⟩ := List.exists_cons_of_ne_nil hqueue
    simp only [next, hqueue, List.head?_cons, Option.elim_some]
    exact ⟨d, rfl, rfl⟩
  | receiveFails ec => trivial
  | shutdownBoth ec =>
    obtain ⟨endPoint, received, hstage⟩ := he
    rw [FromReceived, hstage] at h
    simp only [next, hstage]
    by_cases hec : ec.value ≠ 0
    · rw [if_pos hec]
      trivial
    · rw [if_neg hec]
      exact h

/-- **What is returned is the beginning of a datagram**, anyone's. -/
theorem exists_received {s₀ s : State α} (h₀ : FromReceived s₀) (h : machine.Runs s₀ s)
    {text : Bytes} (hreturned : s.stage = .returned text) :
    ∃ d, s.received = some d ∧ text = d.payload.take responseSize := by
  have hs : FromReceived s := h.invariant h₀ fun _ _ _ hs he => fromReceived_next hs he
  rwa [FromReceived, hreturned] at hs

/-! ## Genuine replies -/

theorem received_next {server : UdpEndpoint α} {s : State α} {e : Event α}
    (h : ∀ d ∈ s.received, Fitting server d) (he : ReceivesFitting server s e) :
    ∀ d ∈ (next s e).received, Fitting server d := by
  cases e with
  | send d => exact h
  | arrive d => exact h
  | sendTo ec =>
    simp only [next]
    cases s.stage with
    | sendRequest endPoint request =>
      simp only
      split <;> exact h
    | _ => exact h
  | receiveFrom =>
    simp only [next]
    cases hhead : s.queue.head? with
    | none => exact h
    | some d =>
      rintro d' ⟨rfl⟩
      exact he d hhead
  | receiveFails ec => exact h
  | shutdownBoth ec =>
    simp only [next]
    cases s.stage with
    | shutdown endPoint received =>
      simp only
      split <;> exact h
    | _ => exact h

/-- **Which replies are genuine.**  In every run that receives a datagram from the endpoint, of six
bytes at most, the text that is returned is the whole payload of a datagram from there.  And in
every run that returns a text, the datagram it was received in is such a one exactly then. -/
theorem reply_genuine (parser : AddressParser α) (durationSec : UInt32) (ip : Bytes)
    (port : UInt16) (inFlight : List (Datagram α)) :
    let s₀ : State α := .start parser durationSec ip port inFlight
    let server : UdpEndpoint α := ⟨(parser.fromString ip).1, port⟩
    (∀ s text, (machine.restrict (ReceivesFitting server)).Runs s₀ s → s.stage = .returned text →
      Genuine server s text) ∧
    ∀ s text, machine.Runs s₀ s → s.stage = .returned text → ∃ d ∈ s.datagrams,
      s.received = some d ∧ (d.sender = server ∧ d.payload = text ↔ Fitting server d) := by
  intro s₀ server
  have hstart : FromReceived s₀ := fromReceived_start parser durationSec ip port inFlight
  refine ⟨fun s text h hreturned => ?_, fun s text h hreturned => ?_⟩
  · obtain ⟨d, hd, htext⟩ := exists_received hstart h.of_restrict hreturned
    have hall : ∀ d ∈ s.received, Fitting server d :=
      h.invariant (I := fun s => ∀ d ∈ s.received, Fitting server d) (fun d hd => by cases hd)
        fun _ _ _ hs he => received_next hs he.2
    exact ⟨d, by simp [State.datagrams, hd], (eq_payload_iff htext).mpr (hall d hd)⟩
  · obtain ⟨d, hd, htext⟩ := exists_received hstart h hreturned
    exact ⟨d, by simp [State.datagrams, hd], hd, eq_payload_iff htext⟩

/-! ## One datagram -/

/-- **A datagram that arrives is what the call returns**, whoever has sent it. -/
theorem exists_runs_of_one {P : State α → Event α → Prop} (parser : AddressParser α)
    (durationSec : UInt32) {ip : Bytes} (port : UInt16) (hip : (parser.fromString ip).2.value = 0)
    (d : Datagram α) (hP : ∀ s e, (e = .receiveFrom → s.queue = [d]) → P s e) :
    ∃ s, (machine.restrict P).Runs (.start parser durationSec ip port [d]) s ∧
      s.stage = .returned (d.payload.take responseSize) ∧ s.datagrams = [d] := by
  set request : Bytes := bytes "EMULATE_LONG_COMP_OP " ++ toString durationSec.toNat ++ [lf]
  set server : UdpEndpoint α := ⟨(parser.fromString ip).1, port⟩
  have hstart : State.start parser durationSec ip port [d]
      = { stage := .sendRequest server request, inFlight := [d] } := by
    simp only [State.start, createEndpoint, hip, ne_eq, not_true_eq_false, if_false]
    rfl
  have hstep {s s' : State α} (e : Event α) (he : Enabled s e)
      (hqueue : e = .receiveFrom → s.queue = [d]) (hnext : next s e = s') :
      (machine.restrict P).Runs s s' := by
    subst hnext
    exact Machine.Runs.single ⟨he, hP s e hqueue⟩
  have hsend : (machine.restrict P).Runs (.start parser durationSec ip port [d])
      { stage := .receiveResponse server, requests := [(server, request)], inFlight := [d] } := by
    rw [hstart]
    exact hstep (.sendTo .success) ⟨server, request, rfl⟩ (fun h => by cases h) rfl
  have harrive : (machine.restrict P).Runs
      { stage := .receiveResponse server, requests := [(server, request)], inFlight := [d] }
      { stage := .receiveResponse server, requests := [(server, request)], inFlight := [],
        queue := [d] } :=
    hstep (.arrive d) (List.mem_singleton_self d) (fun h => by cases h) (by simp [next])
  have hreceive := harrive.trans
    (hstep .receiveFrom ⟨⟨server, rfl⟩, List.cons_ne_nil _ _⟩ (fun _ => rfl) rfl)
  have hshutdown := hreceive.trans
    (hstep (.shutdownBoth .success) ⟨d.sender, _, rfl⟩ (fun h => by cases h) rfl)
  exact ⟨_, hsend.trans hshutdown, rfl, rfl⟩

/-- `"127.0.0.1"`, as the one address there is. -/
def localhost : AddressParser UInt32 where
  fromString ip := if ip = bytes "127.0.0.1" then (0x7F000001, .success) else (0, ⟨22, "system"⟩)
  message _ := bytes "Invalid argument"

/-- A short datagram from the server is a genuine reply. -/
theorem reply_genuine_ok : ∃ s,
    (machine.restrict (ReceivesFitting ⟨0x7F000001, 3333⟩)).Runs
      (.start localhost 12 (bytes "127.0.0.1") 3333 [⟨⟨0x7F000001, 3333⟩, bytes "OK\n"⟩]) s ∧
    s.stage = .returned (bytes "OK\n") ∧ Genuine ⟨0x7F000001, 3333⟩ s (bytes "OK\n") := by
  have hip : (localhost.fromString (bytes "127.0.0.1")).2.value = 0 := by decide
  obtain ⟨s, hrun, hreturned, -⟩ := exists_runs_of_one
    (P := ReceivesFitting ⟨0x7F000001, 3333⟩) localhost 12 3333 hip
    ⟨⟨0x7F000001, 3333⟩, bytes "OK\n"⟩ fun s e hqueue => by
      cases e with
      | receiveFrom =>
        rw [ReceivesFitting, hqueue rfl]
        rintro d ⟨rfl⟩
        exact ⟨rfl, by decide⟩
      | _ => trivial
  exact ⟨s, hrun, hreturned, (reply_genuine localhost 12 (bytes "127.0.0.1") 3333 _).1 s _ hrun
    hreturned⟩

/-- A datagram from another port is returned all the same, and one that is too long in part. -/
theorem exists_not_genuine :
    (∃ s text, machine.Runs
        (.start localhost 12 (bytes "127.0.0.1") 3333 [⟨⟨0x7F000001, 53⟩, bytes "stray"⟩]) s ∧
      s.stage = .returned text ∧ ¬ Genuine ⟨0x7F000001, 3333⟩ s text) ∧
    ∃ s text, machine.Runs
        (.start localhost 12 (bytes "127.0.0.1") 3333 [⟨⟨0x7F000001, 3333⟩, bytes "too long"⟩]) s ∧
      s.stage = .returned text ∧ ¬ Genuine ⟨0x7F000001, 3333⟩ s text := by
  have hone : ∀ d : Datagram UInt32, ∃ s,
      machine.Runs (.start localhost 12 (bytes "127.0.0.1") 3333 [d]) s ∧
        s.stage = .returned (d.payload.take responseSize) ∧ s.datagrams = [d] := by
    intro d
    have hip : (localhost.fromString (bytes "127.0.0.1")).2.value = 0 := by decide
    obtain ⟨s, hrun, hs⟩ := exists_runs_of_one (P := fun _ _ => True) localhost 12 3333 hip d
      fun _ _ _ => trivial
    exact ⟨s, hrun.of_restrict, hs⟩
  constructor
  · obtain ⟨s, hrun, hreturned, hd⟩ := hone ⟨⟨0x7F000001, 53⟩, bytes "stray"⟩
    refine ⟨s, _, hrun, hreturned, ?_⟩
    rw [Genuine, hd]
    decide
  · obtain ⟨s, hrun, hreturned, hd⟩ := hone ⟨⟨0x7F000001, 3333⟩, bytes "too long"⟩
    refine ⟨s, _, hrun, hreturned, ?_⟩
    rw [Genuine, hd]
    decide

end SyncUDPClient

end AsioSamples
