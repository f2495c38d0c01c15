import AsioSamples.Cpp.Bytes

/-!
# Asio/Channel — one direction of a connection

An ordered stream of bytes that loses and repeats none: what has been received, and what is still in
flight, are together what has been sent (`sent`), however many bytes each write and each read moves.
-/

namespace AsioSamples

/-- One direction of a connection. -/
structure Channel where
  received : Bytes := []
  inFlight : Bytes := []
  /-- The sender has shut its side down. -/
  finished : Bool := false
  deriving DecidableEq

namespace Channel

/-- Everything the sender has sent so far. -/
def sent (c : Channel) : Bytes := c.received ++ c.inFlight

def send (c : Channel) (data : Bytes) : Channel := { c with inFlight := c.inFlight ++ data }

/-- The first `n` bytes in flight arrive. -/
def receive (c : Channel) (n : ℕ) : Channel :=
  { c with received := c.received ++ c.inFlight.take n, inFlight := c.inFlight.drop n }

def finish (c : Channel) : Channel := { c with finished := true }

@[simp] theorem sent_send (c : Channel) (data : Bytes) : (c.send data).sent = c.sent ++ data := by
  simp [sent, send]

@[simp] theorem sent_receive (c : Channel) (n : ℕ) : (c.receive n).sent = c.sent := by
  simp [sent, receive]

@[simp] theorem sent_finish (c : Channel) : c.finish.sent = c.sent := rfl

@[simp] theorem received_send (c : Channel) (data : Bytes) :
    (c.send data).received = c.received := rfl

@[simp] theorem received_receive (c : Channel) (n : ℕ) :
    (c.receive n).received = c.received ++ c.inFlight.take n := rfl

/-- **What arrives is a prefix of what was sent.** -/
theorem received_prefix_sent (c : Channel) : c.received <+: c.sent := List.prefix_append _ _

/-- What has arrived is all there was, once nothing is in flight. -/
theorem sent_of_inFlight {c : Channel} (h : c.inFlight = []) : c.sent = c.received := by
  rw [sent, h, List.append_nil]

end Channel

end AsioSamples
