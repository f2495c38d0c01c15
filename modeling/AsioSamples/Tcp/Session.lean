import AsioSamples.Asio.Operations
import AsioSamples.Cpp.IStream

/-!
# Tcp/Session — a `Session` of `AsyncTCPClient`, handler by handler

`EmulateLongComputationOp` gives its session three nested handlers: connect, write, read.  Each of
them works on the fields of the session alone until it either calls `OnRequestComplete` or takes
`m_cancel_guard` to test `m_was_cancelled`; `SessionControl` says which.
-/

namespace AsioSamples

/-- `asio::ip::tcp::endpoint`. -/
structure Endpoint where
  address : Bytes
  port : UInt16
  deriving DecidableEq

/-- The fields of a `Session`. -/
structure Session where
  ep : Endpoint
  request : Bytes
  response : Bytes := []
  responseBuf : Bytes := []
  ec : ErrorCode := .success
  id : UInt32
  wasCancelled : Bool := false
  deriving DecidableEq

/-- The asynchronous operations on a session's socket. -/
inductive SessionOp
  | connect (ep : Endpoint)
  | write (buffer : Bytes)
  /-- `async_read_until` to `'\n'`. -/
  | readLine
  deriving DecidableEq

/-- How the part of a handler that needs no lock ends. -/
inductive SessionControl
  /-- `OnRequestComplete(session); return;` -/
  | complete
  /-- Takes `m_cancel_guard`, tests `m_was_cancelled`, and goes on to initiate `op` if it is not
  set. -/
  | testFlag (op : SessionOp)
  deriving DecidableEq

namespace Session

/-- The session of `EmulateLongComputationOp(duration_sec, ip, port, callback, request_id)`. -/
def create (durationSec : UInt32) (ep : Endpoint) (requestId : UInt32) : Session :=
  { ep := ep
    request := bytes "EMULATE_LONG_CALC_OP " ++ toString durationSec.toNat ++ [lf]
    id := requestId }

/-- The handler of the connect. -/
def onConnected (s : Session) (ec : ErrorCode) : Session × SessionControl :=
  if ec.value ≠ 0 then ({ s with ec := ec }, .complete) else (s, .testFlag (.write s.request))

/-- The handler of the write. -/
def onRequestWritten (s : Session) (ec : ErrorCode) : Session × SessionControl :=
  if ec.value ≠ 0 then ({ s with ec := ec }, .complete) else (s, .testFlag .readLine)

/-- The handler of the read. -/
def onResponseRead (s : Session) (ec : ErrorCode) : Session × SessionControl :=
  if ec.value ≠ 0 then ({ s with ec := ec }, .complete)
  else
    let strm : IStream := { rest := s.responseBuf }
    let (response, strm) := strm.getline lf s.response
    ({ s with response := response, responseBuf := strm.rest }, .complete)

/-- The handler of an operation, run on its completion; a read has appended what it received to
`m_response_buf`. -/
def handle (s : Session) (op : SessionOp) (c : Completion) : Session × SessionControl :=
  match op with
  | .connect _ => s.onConnected c.ec
  | .write _ => s.onRequestWritten c.ec
  | .readLine => { s with responseBuf := s.responseBuf ++ c.received }.onResponseRead c.ec

/-- What a handler receives on the session's socket. -/
def received (op : SessionOp) (c : Completion) : Bytes :=
  match op with
  | .readLine => c.received
  | _ => []

/-- The first line of what was received. -/
def firstLine (received : Bytes) : Bytes := (({ rest := received } : IStream).getline lf []).1

/-- A session whose response has not been read. -/
structure Untouched (s : Session) : Prop where
  response : s.response = []
  responseBuf : s.responseBuf = []

/-- **A handler changes neither `m_id` nor `m_was_cancelled`**, and either goes on with the session
as it was, having received nothing, or completes with a response that is empty or the line it was
given. -/
theorem handle_cases {s s' : Session} {op : SessionOp} {c : Completion} {ctl : SessionControl}
    (h : s.handle op c = (s', ctl)) :
    s'.id = s.id ∧ s'.wasCancelled = s.wasCancelled ∧
      ((ctl = .complete ∧ (s.Untouched → s'.response = [] ∨
          s'.response = firstLine (received op c))) ∨
        ∃ op', ctl = .testFlag op' ∧ s' = s ∧ received op c = []) := by
  cases op with
  | connect ep =>
    simp only [handle, onConnected] at h
    split at h
    · cases h
      exact ⟨rfl, rfl, .inl ⟨rfl, fun hs => .inl hs.response⟩⟩
    · cases h
      exact ⟨rfl, rfl, .inr ⟨_, rfl, rfl, rfl⟩⟩
  | write buffer =>
    simp only [handle, onRequestWritten] at h
    split at h
    · cases h
      exact ⟨rfl, rfl, .inl ⟨rfl, fun hs => .inl hs.response⟩⟩
    · cases h
      exact ⟨rfl, rfl, .inr ⟨_, rfl, rfl, rfl⟩⟩
  | readLine =>
    simp only [handle, onResponseRead] at h
    split at h
    · cases h
      exact ⟨rfl, rfl, .inl ⟨rfl, fun hs => .inl hs.response⟩⟩
    · cases h
      refine ⟨rfl, rfl, .inl ⟨rfl, fun hs => .inr ?_⟩⟩
      simp only [hs.response, hs.responseBuf, List.nil_append]
      rfl

end Session

end AsioSamples
