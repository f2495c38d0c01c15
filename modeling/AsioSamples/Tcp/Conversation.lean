import AsioSamples.Asio.Channel
import AsioSamples.Tcp.SyncServer

/-!
# Tcp/Conversation — a `SyncTCPClient` and the `HandleRequest` that answers it

One connection.  `EmulateLongComputationOp` writes a line and reads one; `HandleRequest` reads a
line and writes one.  Each call moves its bytes in as many pieces as the network likes, and nothing
fails.

A conversation goes through four stages (`Stage`).  Once it has been accepted it always goes on
(`finished_or_exists_enabled`), every step takes it further (`remaining_next`), and the client
returns the first line of what its own request is answered with.
-/

namespace AsioSamples

/-! ## What is said -/

namespace SyncTCPClient

/-- The line that `EmulateLongComputationOp` sends, without its end. -/
def requestLine (durationSec : UInt32) : Bytes :=
  bytes "EMULATE_LONG_COMP_OP " ++ toString durationSec.toNat

def request (durationSec : UInt32) : Bytes := requestLine durationSec ++ [lf]

/-- What `ReceiveResponse` returns of its `streambuf`. -/
def response (streambuf : Bytes) : Bytes := (({ rest := streambuf } : IStream).getline lf []).1

theorem lf_notMem_requestLine (durationSec : UInt32) : lf ∉ requestLine durationSec := by
  refine fun h => (List.mem_append.mp h).elim (by decide) fun hdigit => ?_
  exact absurd (isDigit_of_mem_toString hdigit) (by decide)

/-- The first line is there as soon as its end is. -/
theorem response_of_prefix {streambuf whole : Bytes} (h : streambuf <+: whole)
    (hmem : lf ∈ streambuf) : response streambuf = response whole := by
  obtain ⟨tail, rfl⟩ := h
  obtain ⟨line, rest, rfl, hline⟩ := List.eq_append_cons_of_mem hmem
  rw [response, response, List.append_assoc, List.cons_append,
    IStream.getline_append _ _ _ hline, IStream.getline_append _ _ _ hline]

end SyncTCPClient

namespace ServiceFake

/-- What `HandleRequest` writes, with that in its `streambuf`. -/
def reply (task streambuf : Bytes) : Bytes :=
  task ++ (({ rest := streambuf } : IStream).getline lf []).1 ++ [lf]

theorem reply_request (task : Bytes) (durationSec : UInt32) :
    reply task (SyncTCPClient.request durationSec)
      = task ++ SyncTCPClient.requestLine durationSec ++ [lf] := by
  rw [reply, SyncTCPClient.request,
    IStream.getline_append _ _ _ (SyncTCPClient.lf_notMem_requestLine durationSec)]

/-- What a client returns of that. -/
def answer (task : Bytes) (durationSec : UInt32) : Bytes :=
  SyncTCPClient.response (reply task (SyncTCPClient.request durationSec))

theorem answer_eq {task : Bytes} (htask : lf ∉ task) (durationSec : UInt32) :
    answer task durationSec = task ++ SyncTCPClient.requestLine durationSec := by
  rw [answer, reply_request, SyncTCPClient.response, IStream.getline_append]
  exact fun h => (List.mem_append.mp h).elim htask
    (SyncTCPClient.lf_notMem_requestLine durationSec)

end ServiceFake

/-! ## States and events -/

/-- Where the client is. -/
inductive ClientPc
  /-- In `Connect`. -/
  | connect
  /-- In `asio::write`. -/
  | sendRequest (unsent : Bytes)
  /-- In `asio::read_until`. -/
  | receiveResponse
  | returned (response : Bytes)
  deriving DecidableEq

/-- Where the `HandleRequest` is. -/
inductive SessionPc
  /-- Its connection has not been accepted. -/
  | unaccepted
  /-- In `asio::read_until`. -/
  | readUntil
  /-- In `asio::write`. -/
  | write (unsent : Bytes)
  | returned
  deriving DecidableEq

/-- A client on which `Connect` is called and then `EmulateLongComputationOp(durationSec)`, and the
`HandleRequest` at the other end.  The `streambuf` of each end holds what it has received. -/
structure Conversation where
  durationSec : UInt32
  client : ClientPc := .connect
  session : SessionPc := .unaccepted
  /-- What the client sends. -/
  up : Channel := {}
  /-- What the session sends. -/
  down : Channel := {}
  deriving DecidableEq

namespace Conversation

open SyncTCPClient (requestLine request response)
open ServiceFake (reply answer)

/-- The steps of the two functions. -/
inductive Event
  /-- The client sends `n` bytes of those it has not sent. -/
  | sendSome (unsent : Bytes) (n : ℕ)
  /-- `SendRequest` returns. -/
  | sent
  | receiveSome (n : ℕ)
  /-- `read_until` returns, and so does `ReceiveResponse`. -/
  | received
  | readSome (n : ℕ)
  /-- `read_until` returns, and `HandleRequest` goes on to write. -/
  | read
  /-- The session sends `n` bytes of those it has not sent. -/
  | writeSome (unsent : Bytes) (n : ℕ)
  /-- `write` returns, and so does `HandleRequest`. -/
  | written
  deriving DecidableEq

/-- When a step can be taken. -/
def Enabled (c : Conversation) : Event → Prop
  | .sendSome unsent n => c.client = .sendRequest unsent ∧ 0 < n ∧ n ≤ unsent.length
  | .sent => c.client = .sendRequest []
  | .receiveSome n => c.client = .receiveResponse ∧ lf ∉ c.down.received ∧
      0 < n ∧ n ≤ c.down.inFlight.length
  | .received => c.client = .receiveResponse ∧ lf ∈ c.down.received
  | .readSome n => c.session = .readUntil ∧ lf ∉ c.up.received ∧
      0 < n ∧ n ≤ c.up.inFlight.length
  | .read => c.session = .readUntil ∧ lf ∈ c.up.received
  | .writeSome unsent n => c.session = .write unsent ∧ 0 < n ∧ n ≤ unsent.length
  | .written => c.session = .write []

instance (c : Conversation) (e : Event) : Decidable (Enabled c e) :=
  match e with
  | .sendSome .. | .receiveSome _ | .received | .readSome _ | .read | .writeSome .. =>
    inferInstanceAs (Decidable (_ ∧ _))
  | .sent | .written => inferInstanceAs (Decidable (_ = _))

/-- Where a step leads, with that `task_` in the service. -/
def next (task : Bytes) (c : Conversation) : Event → Conversation
  | .sendSome unsent n =>
    { c with client := .sendRequest (unsent.drop n), up := c.up.send (unsent.take n) }
  | .sent => { c with client := .receiveResponse }
  | .receiveSome n => { c with down := c.down.receive n }
  | .received => { c with client := .returned (response c.down.received) }
  | .readSome n => { c with up := c.up.receive n }
  | .read => { c with session := .write (reply task c.up.received) }
  | .writeSome unsent n =>
    { c with session := .write (unsent.drop n), down := c.down.send (unsent.take n) }
  | .written => { c with session := .returned }

/-- `socket_.connect` returns, and the request is made. -/
def connect (c : Conversation) : Conversation :=
  { c with client := .sendRequest (request c.durationSec) }

/-- `acceptor_->accept` returns, and `HandleRequest` begins. -/
def accept (c : Conversation) : Conversation := { c with session := .readUntil }

@[simp] theorem durationSec_next (task : Bytes) (c : Conversation) (e : Event) :
    (next task c e).durationSec = c.durationSec := by
  cases e <;> rfl

/-- Its `HandleRequest` has begun and has not returned. -/
def Serving (c : Conversation) : Prop := c.session ≠ .unaccepted ∧ c.session ≠ .returned

/-- **Only `connect` and `accept` begin anything.** -/
theorem begun_next (task : Bytes) {c : Conversation} {e : Event} (he : Enabled c e) :
    ((next task c e).client = .connect ↔ c.client = .connect) ∧
      ((next task c e).session = .unaccepted ↔ c.session = .unaccepted) ∧
      ((next task c e).Serving → c.Serving) := by
  cases e with
  | sendSome v n => simp [next, he.1, Serving]
  | sent => simp [next, show c.client = _ from he, Serving]
  | receiveSome n => simp [next, Serving]
  | received => simp [next, he.1, Serving]
  | readSome n => simp [next, Serving]
  | read => simp [next, he.1, Serving]
  | writeSome v n => simp [next, he.1, Serving]
  | written => simp [next, show c.session = _ from he, Serving]

/-! ## The four stages -/

/-- The client has so much of its request to send. -/
def Asks (c : Conversation) (unsent : Bytes) : Prop :=
  c.client = .sendRequest unsent ∨ c.client = .receiveResponse ∧ unsent = []

/-- The session has so much of its reply to send. -/
def Replies (c : Conversation) (unsent : Bytes) : Prop :=
  c.session = .write unsent ∨ c.session = .returned ∧ unsent = []

/-- The whole request has been received. -/
def Asked (c : Conversation) : Prop := c.up.received = request c.durationSec ∧ c.up.inFlight = []

/-- What has been sent of the reply, and what has not. -/
def Tiles (task : Bytes) (c : Conversation) (unsent : Bytes) : Prop :=
  c.down.sent ++ unsent = reply task (request c.durationSec)

/-- Where a conversation is. -/
inductive Stage (task : Bytes) (c : Conversation) : Prop
  | connecting (hclient : c.client = .connect) (hsession : c.session = .unaccepted)
    (hup : c.up = {}) (hdown : c.down = {})
  | asking (unsent : Bytes) (hasks : c.Asks unsent)
    (hsession : c.session = .unaccepted ∨ c.session = .readUntil)
    (hup : c.up.sent ++ unsent = request c.durationSec) (hdown : c.down = {})
  | replying (unsent : Bytes) (hasks : c.Asks []) (hreplies : c.Replies unsent)
    (hup : c.Asked) (hdown : c.Tiles task unsent)
  | answered (unsent : Bytes) (hclient : c.client = .returned (answer task c.durationSec))
    (hreplies : c.Replies unsent) (hup : c.Asked) (hdown : c.Tiles task unsent)

variable {task unsent : Bytes} {c : Conversation} {e : Event}

theorem Asks.eq_of_sendRequest {v : Bytes} (h : c.Asks unsent) (hc : c.client = .sendRequest v) :
    unsent = v := by
  rcases h with h | ⟨h, -⟩
  · exact ClientPc.sendRequest.inj (h.symm.trans hc)
  · cases h.symm.trans hc

theorem Replies.eq_of_write {v : Bytes} (h : c.Replies unsent) (hc : c.session = .write v) :
    unsent = v := by
  rcases h with h | ⟨h, -⟩
  · exact SessionPc.write.inj (h.symm.trans hc)
  · cases h.symm.trans hc

theorem Replies.begun (h : c.Replies unsent) :
    c.session ≠ .unaccepted ∧ c.session ≠ .readUntil := by
  rcases h with h | ⟨h, -⟩ <;> simp [h]

/-- What has been sent of the reply begins it. -/
theorem Tiles.prefix (h : c.Tiles task unsent) :
    c.down.received <+: reply task (request c.durationSec) :=
  c.down.received_prefix_sent.trans ⟨unsent, h⟩

theorem stage_start (task : Bytes) (durationSec : UInt32) : Stage task { durationSec } :=
  .connecting rfl rfl rfl rfl

theorem Stage.session_of_connect (h : Stage task c) (hclient : c.client = .connect) :
    c.session = .unaccepted := by
  cases h with
  | connecting _ hsession => exact hsession
  | asking _ hasks | replying _ hasks =>
    rcases hasks with hasks | ⟨hasks, -⟩ <;> cases hasks.symm.trans hclient
  | answered _ hclient' => cases hclient'.symm.trans hclient

theorem Stage.connect (h : Stage task c) (hclient : c.client = .connect) :
    Stage task c.connect := by
  cases h with
  | connecting _ hsession hup hdown =>
    refine .asking (request c.durationSec) (.inl rfl) (.inl hsession) ?_ hdown
    simp [Conversation.connect, hup, Channel.sent]
  | asking _ hasks | replying _ hasks =>
    rcases hasks with hasks | ⟨hasks, -⟩ <;> cases hasks.symm.trans hclient
  | answered _ hclient' => cases hclient'.symm.trans hclient

theorem Stage.accept (h : Stage task c) (hclient : c.client ≠ .connect)
    (hsession : c.session = .unaccepted) : Stage task c.accept := by
  cases h with
  | connecting hclient' => exact absurd hclient' hclient
  | asking unsent hasks _ hup hdown => exact .asking unsent hasks (.inr rfl) hup hdown
  | replying _ _ hreplies | answered _ _ hreplies => exact absurd hsession hreplies.begun.1

/-- **Only the whole request** has the end of its line in it. -/
theorem received_eq_request (h : Stage task c) (hsession : c.session = .readUntil)
    (hmem : lf ∈ c.up.received) : c.up.received = request c.durationSec := by
  cases h with
  | connecting _ hsession' => cases hsession'.symm.trans hsession
  | asking u _ _ hup =>
    exact IStream.eq_of_prefix_of_mem (SyncTCPClient.lf_notMem_requestLine c.durationSec)
      (c.up.received_prefix_sent.trans ⟨u, hup⟩) hmem
  | replying _ _ hreplies | answered _ _ hreplies => exact absurd hsession hreplies.begun.2

/-- **Every step keeps to the stages.** -/
theorem Stage.next (h : Stage task c) (he : Enabled c e) :
    Stage task (c.next task e) := by
  cases e with
  | sendSome v n =>
    obtain ⟨hclient, hpos, hn⟩ := he
    cases h with
    | connecting hclient' | answered _ hclient' => cases hclient'.symm.trans hclient
    | asking _ hasks hsession hup hdown =>
      obtain rfl := hasks.eq_of_sendRequest hclient
      refine .asking _ (.inl rfl) hsession ?_ hdown
      simpa [Conversation.next] using hup
    | replying _ hasks =>
      obtain rfl := hasks.eq_of_sendRequest hclient
      exact absurd (hpos.trans_le hn) (Nat.lt_irrefl 0)
  | sent =>
    cases h with
    | connecting hclient | answered _ hclient => cases hclient.symm.trans he
    | asking _ hasks hsession hup hdown =>
      obtain rfl := hasks.eq_of_sendRequest he
      exact .asking [] (.inr ⟨rfl, rfl⟩) hsession hup hdown
    | replying u _ hreplies hup hdown => exact .replying u (.inr ⟨rfl, rfl⟩) hreplies hup hdown
  | receiveSome n =>
    obtain ⟨hclient, -, hpos, hn⟩ := he
    cases h with
    | connecting hclient' | answered _ hclient' => cases hclient'.symm.trans hclient
    | asking _ _ _ _ hdown =>
      rw [hdown] at hn
      exact absurd (hpos.trans_le hn) (Nat.lt_irrefl 0)
    | replying u hasks hreplies hup hdown =>
      refine .replying u hasks hreplies hup ?_
      simpa [Tiles, Conversation.next] using hdown
  | received =>
    obtain ⟨hclient, hmem⟩ := he
    cases h with
    | connecting hclient' | answered _ hclient' => cases hclient'.symm.trans hclient
    | asking _ _ _ _ hdown =>
      rw [hdown] at hmem
      cases hmem
    | replying u _ hreplies hup hdown =>
      have hanswer := SyncTCPClient.response_of_prefix hdown.prefix hmem
      exact .answered u (congrArg _ hanswer) hreplies hup hdown
  | readSome n =>
    obtain ⟨hsession, -⟩ := he
    cases h with
    | connecting _ hsession' => cases hsession'.symm.trans hsession
    | asking u hasks _ hup hdown =>
      refine .asking u hasks (.inr hsession) ?_ hdown
      simpa [Conversation.next] using hup
    | replying _ _ hreplies | answered _ _ hreplies => exact absurd hsession hreplies.begun.2
  | read =>
    obtain ⟨hsession, hmem⟩ := he
    have hreceived := received_eq_request h hsession hmem
    cases h with
    | connecting _ hsession' => cases hsession'.symm.trans hsession
    | asking u hasks _ hup hdown =>
      rw [Channel.sent, hreceived, List.append_assoc, List.append_right_eq_self,
        List.append_eq_nil_iff] at hup
      obtain ⟨hflight, rfl⟩ := hup
      refine .replying _ hasks (.inl rfl) ⟨hreceived, hflight⟩ ?_
      simp [Tiles, Conversation.next, hdown, hreceived, Channel.sent]
    | replying _ _ hreplies | answered _ _ hreplies => exact absurd hsession hreplies.begun.2
  | writeSome v n =>
    obtain ⟨hsession, hpos, hn⟩ := he
    cases h with
    | connecting _ hsession' => cases hsession'.symm.trans hsession
    | asking _ _ hsession' =>
      rcases hsession' with hsession' | hsession' <;> cases hsession'.symm.trans hsession
    | replying u hasks hreplies hup hdown =>
      obtain rfl := hreplies.eq_of_write hsession
      refine .replying _ hasks (.inl rfl) hup ?_
      simpa [Tiles, Conversation.next] using hdown
    | answered u hclient hreplies hup hdown =>
      obtain rfl := hreplies.eq_of_write hsession
      refine .answered _ hclient (.inl rfl) hup ?_
      simpa [Tiles, Conversation.next] using hdown
  | written =>
    cases h with
    | connecting _ hsession' => cases hsession'.symm.trans he
    | asking _ _ hsession' =>
      rcases hsession' with hsession' | hsession' <;> cases hsession'.symm.trans he
    | replying u hasks hreplies hup hdown =>
      obtain rfl := hreplies.eq_of_write he
      exact .replying [] hasks (.inr ⟨rfl, rfl⟩) hup hdown
    | answered u hclient hreplies hup hdown =>
      obtain rfl := hreplies.eq_of_write he
      exact .answered [] hclient (.inr ⟨rfl, rfl⟩) hup hdown

theorem Stage.response_eq (h : Stage task c) {line : Bytes} (hclient : c.client = .returned line) :
    line = answer task c.durationSec := by
  cases h with
  | connecting hclient' => cases hclient'.symm.trans hclient
  | asking _ hasks | replying _ hasks =>
    rcases hasks with hasks | ⟨hasks, -⟩ <;> cases hasks.symm.trans hclient
  | answered _ hclient' => exact ClientPc.returned.inj (hclient.symm.trans hclient')

/-! ## A conversation goes on to its end -/

/-- Both functions have returned. -/
def Finished (task : Bytes) (c : Conversation) : Prop :=
  c.client = .returned (answer task c.durationSec) ∧ c.session = .returned

/-- What can be sent, and then the return of the call. -/
theorem exists_enabled_of_sendRequest (h : c.client = .sendRequest unsent) :
    ∃ e, Enabled c e := by
  by_cases hnil : unsent = []
  · exact ⟨.sent, h.trans (by rw [hnil])⟩
  · exact ⟨.sendSome unsent unsent.length, h, List.length_pos_iff.mpr hnil, le_rfl⟩

theorem exists_enabled_of_write (h : c.session = .write unsent) : ∃ e, Enabled c e := by
  by_cases hnil : unsent = []
  · exact ⟨.written, h.trans (by rw [hnil])⟩
  · exact ⟨.writeSome unsent unsent.length, h, List.length_pos_iff.mpr hnil, le_rfl⟩

/-- The end of a line that has been sent is there, or something is in flight. -/
theorem inFlight_pos {ch : Channel} (hmem : lf ∈ ch.sent) (hnot : lf ∉ ch.received) :
    0 < ch.inFlight.length := by
  refine List.length_pos_iff.mpr fun hnil => hnot ?_
  rwa [Channel.sent_of_inFlight hnil] at hmem

/-- **An accepted conversation goes on**, or has been finished. -/
theorem finished_or_exists_enabled (h : Stage task c) (hsession : c.session ≠ .unaccepted) :
    c.Finished task ∨ ∃ e, Enabled c e := by
  cases h with
  | connecting _ hsession' => exact absurd hsession' hsession
  | asking u hasks hsession' hup =>
    refine .inr ?_
    rcases hasks with hclient | ⟨-, rfl⟩
    · exact exists_enabled_of_sendRequest hclient
    · have hread := hsession'.resolve_left hsession
      have hmem : lf ∈ c.up.sent := by
        rw [List.append_nil] at hup
        simp [hup, request]
      by_cases hline : lf ∈ c.up.received
      · exact ⟨.read, hread, hline⟩
      · exact ⟨.readSome _, hread, hline, inFlight_pos hmem hline, le_rfl⟩
  | replying u hasks hreplies _ hdown =>
    refine .inr ?_
    rcases hasks with hclient | ⟨hclient, -⟩
    · exact exists_enabled_of_sendRequest hclient
    · rcases hreplies with hwrite | ⟨-, rfl⟩
      · exact exists_enabled_of_write hwrite
      · have hmem : lf ∈ c.down.sent := by
          rw [Tiles, List.append_nil] at hdown
          simp [hdown, reply]
        by_cases hline : lf ∈ c.down.received
        · exact ⟨.received, hclient, hline⟩
        · exact ⟨.receiveSome _, hclient, hline, inFlight_pos hmem hline, le_rfl⟩
  | answered u hclient hreplies =>
    rcases hreplies with hwrite | ⟨hreturned, -⟩
    · exact .inr (exists_enabled_of_write hwrite)
    · exact .inl ⟨hclient, hreturned⟩

/-- **A conversation that has not been accepted** comes to wait for its answer. -/
theorem receiveResponse_of_stuck (h : Stage task c) (hclient : c.client ≠ .connect)
    (hsession : c.session = .unaccepted) (hstuck : ∀ e, ¬ Enabled c e) :
    c.client = .receiveResponse := by
  cases h with
  | connecting hclient' => exact absurd hclient' hclient
  | asking u hasks =>
    rcases hasks with hsend | ⟨hreceive, -⟩
    · obtain ⟨e, he⟩ := exists_enabled_of_sendRequest hsend
      exact absurd he (hstuck e)
    · exact hreceive
  | replying _ _ hreplies | answered _ _ hreplies => exact absurd hsession hreplies.begun.1

/-- What the client has still to do. -/
def clientLeft (c : Conversation) : ℕ :=
  match c.client with
  | .connect => 2 * (request c.durationSec).length + 3
  | .sendRequest unsent => 2 * unsent.length + 2
  | .receiveResponse => 1
  | .returned _ => 0

/-- What the session has still to do; its beginning lets `Run` make three steps. -/
def sessionLeft (task : Bytes) (c : Conversation) : ℕ :=
  match c.session with
  | .unaccepted => 2 * (reply task (request c.durationSec)).length + 5
  | .readUntil => 2 * (reply task (request c.durationSec)).length + 2
  | .write unsent => 2 * unsent.length + 1
  | .returned => 0

/-- What is left to do: calls, and bytes to send and to receive. -/
def remaining (task : Bytes) (c : Conversation) : ℕ :=
  c.clientLeft + c.sessionLeft task + c.up.inFlight.length + c.down.inFlight.length

theorem remaining_connect (task : Bytes) (hclient : c.client = .connect) :
    c.connect.remaining task < c.remaining task := by
  simp only [remaining, clientLeft, sessionLeft, connect, hclient]
  omega

theorem remaining_accept (task : Bytes) (hsession : c.session = .unaccepted) :
    c.accept.remaining task + 3 = c.remaining task := by
  simp only [remaining, clientLeft, sessionLeft, accept, hsession]
  omega

/-- **Every step leaves less to do.** -/
theorem remaining_next (h : Stage task c) (he : Enabled c e) :
    (next task c e).remaining task < c.remaining task := by
  cases e with
  | sendSome v n =>
    obtain ⟨hclient, hpos, hn⟩ := he
    simp only [remaining, clientLeft, sessionLeft, next, hclient, Channel.send,
      List.length_append, List.length_take, List.length_drop]
    omega
  | sent =>
    simp only [remaining, clientLeft, sessionLeft, next, show c.client = _ from he]
    omega
  | receiveSome n =>
    obtain ⟨hclient, -, hpos, hn⟩ := he
    simp only [remaining, clientLeft, sessionLeft, next, Channel.receive, List.length_drop]
    omega
  | received =>
    simp only [remaining, clientLeft, sessionLeft, next, he.1]
    omega
  | readSome n =>
    obtain ⟨hsession, -, hpos, hn⟩ := he
    simp only [remaining, clientLeft, sessionLeft, next, Channel.receive, List.length_drop]
    omega
  | read =>
    have hreceived := received_eq_request h he.1 he.2
    simp only [remaining, clientLeft, sessionLeft, next, he.1, hreceived]
    omega
  | writeSome v n =>
    obtain ⟨hsession, hpos, hn⟩ := he
    simp only [remaining, clientLeft, sessionLeft, next, hsession, Channel.send,
      List.length_append, List.length_take, List.length_drop]
    omega
  | written =>
    simp only [remaining, clientLeft, sessionLeft, next, show c.session = _ from he]
    omega

end Conversation

end AsioSamples
