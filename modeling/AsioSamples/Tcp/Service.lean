import AsioSamples.Asio.Operations
import AsioSamples.Cpp.IStream

/-!
# Tcp/Service — `ServiceFakeAsync`, handler by handler

The server's end of a connection.  A service reads one line, answers it with one line, and deletes
itself; an error on the way has it deleted at once.  The time that `ProcessRequest` takes is not
modelled.
-/

namespace AsioSamples

/-- The fields of a `ServiceFakeAsync`; `buffer` is what `buffer_` holds. -/
structure ServiceFakeAsync where
  response : Bytes := []
  buffer : Bytes := []
  deriving DecidableEq

/-- The asynchronous operations the service initiates. -/
inductive FakeOp
  /-- `async_read_until` to `'\n'`. -/
  | readLine
  | write (buffer : Bytes)
  deriving DecidableEq

/-- How a handler ends. -/
inductive FakeControl
  | await (op : FakeOp)
  /-- `Clean`, which is `delete this`. -/
  | clean
  deriving DecidableEq

namespace ServiceFakeAsync

/-- `HandleRequest`. -/
def handleRequest : FakeOp := .readLine

/-- `ProcessRequest`: the response to the line in the buffer. -/
def processRequest (s : ServiceFakeAsync) : Bytes × ServiceFakeAsync :=
  let input : IStream := { rest := s.buffer }
  let (output, input) := input.getline lf []
  (bytes "request is processed!: " ++ output ++ [lf], { s with buffer := input.rest })

def recieveRequest (s : ServiceFakeAsync) (ec : ErrorCode) : ServiceFakeAsync × FakeControl :=
  if ec.value ≠ 0 then (s, .clean)
  else
    let (response, s) := s.processRequest
    ({ s with response := response }, .await (.write response))

/-- `SendAnswer`, which does not look at what it is told. -/
def sendAnswer (s : ServiceFakeAsync) (_ec : ErrorCode) : ServiceFakeAsync × FakeControl :=
  (s, .clean)

/-- The handler of an operation, run on its completion; a read has appended what it received to
`buffer_`. -/
def handle (s : ServiceFakeAsync) (op : FakeOp) (c : Completion) : ServiceFakeAsync × FakeControl :=
  match op with
  | .readLine => { s with buffer := s.buffer ++ c.received }.recieveRequest c.ec
  | .write _ => s.sendAnswer c.ec

/-- **The response to a line** is that line, announced. -/
theorem recieveRequest_line {line : Bytes} (hline : lf ∉ line) :
    (({} : ServiceFakeAsync).handle .readLine ⟨.success, line ++ [lf]⟩).2
      = .await (.write (bytes "request is processed!: " ++ line ++ [lf])) := by
  have hget := IStream.getline_append line [] [] hline
  simp [handle, recieveRequest, processRequest, hget]

end ServiceFakeAsync

/-! ## A connection, served -/

/-- The server's end of a connection. -/
structure Serving where
  service : ServiceFakeAsync := {}
  accepted : Bool := false
  outstanding : List (Pending FakeOp) := []
  deleted : ℕ := 0
  deriving DecidableEq

namespace Serving

/-- The acceptor makes a service for the connection and calls its `HandleRequest`. -/
def accept (v : Serving) : Serving where
  service := {}
  accepted := true
  outstanding := Pending.initiate [] ServiceFakeAsync.handleRequest
  deleted := v.deleted

def complete (v : Serving) (op : FakeOp) (c : Completion) : Serving :=
  { v with outstanding := Pending.complete v.outstanding op c }

/-- The handler of `op` runs. -/
def handle (v : Serving) (op : FakeOp) (c : Completion) : Serving :=
  let outstanding := Pending.dequeue v.outstanding op c
  match v.service.handle op c with
  | (service, .await op') =>
    { v with service := service, outstanding := Pending.initiate outstanding op' }
  | (service, .clean) =>
    { v with service := service, outstanding := outstanding, deleted := v.deleted + 1 }

@[simp] theorem accepted_complete (v : Serving) (op : FakeOp) (c : Completion) :
    (v.complete op c).accepted = v.accepted := rfl

@[simp] theorem accepted_handle (v : Serving) (op : FakeOp) (c : Completion) :
    (v.handle op c).accepted = v.accepted := by
  unfold handle
  simp only
  split <;> rfl

/-- How far a service has come that is to answer `request` with `reply`, when it has sent so much.
-/
inductive Answers (request reply : Bytes) (v : Serving) : Bytes → Prop
  | unaccepted (haccepted : v.accepted = false) (hout : v.outstanding = []) :
    Answers request reply v []
  | reading (haccepted : v.accepted = true) (hservice : v.service = {})
    (hout : v.outstanding = [⟨.readLine, none⟩]) : Answers request reply v []
  | read (haccepted : v.accepted = true) (hservice : v.service = {})
    (hout : v.outstanding = [⟨.readLine, some ⟨.success, request⟩⟩]) : Answers request reply v []
  | writing {sent : Bytes} (haccepted : v.accepted = true)
    (hout : v.outstanding = [⟨.write reply, none⟩]) (hsent : sent <+: reply) :
    Answers request reply v sent
  | written (haccepted : v.accepted = true)
    (hout : v.outstanding = [⟨.write reply, some ⟨.success, []⟩⟩]) : Answers request reply v reply
  | gone (haccepted : v.accepted = true) (hout : v.outstanding = []) :
    Answers request reply v reply

/-- **What has been sent is a prefix of the reply.** -/
theorem Answers.sent_start {request reply sent : Bytes} {v : Serving}
    (h : Answers request reply v sent) : sent <+: reply := by
  cases h with
  | unaccepted | reading | read => exact List.nil_prefix
  | writing _ _ hsent => exact hsent
  | written | gone => exact List.prefix_rfl

/-- A service with an operation outstanding is there. -/
theorem Answers.accepted_of_mem {request reply sent : Bytes} {v : Serving}
    (h : Answers request reply v sent) {p : Pending FakeOp} (hp : p ∈ v.outstanding) :
    v.accepted = true := by
  cases h with
  | unaccepted _ hout => simp [hout] at hp
  | reading haccepted | read haccepted | writing haccepted | written haccepted | gone haccepted =>
    exact haccepted

namespace Answers

variable {line request reply sent : Bytes} {v : Serving}

theorem accept (h : Answers request reply v sent) (hno : v.accepted = false) :
    Answers request reply v.accept sent := by
  cases h with
  | unaccepted => exact .reading rfl rfl rfl
  | reading haccepted | read haccepted | writing haccepted | written haccepted | gone haccepted =>
    rw [hno] at haccepted
    cases haccepted

/-- Its read completes with the request. -/
theorem complete_read (h : Answers request reply v sent)
    (hmem : (⟨.readLine, none⟩ : Pending FakeOp) ∈ v.outstanding) :
    Answers request reply (v.complete .readLine ⟨.success, request⟩) sent := by
  cases h with
  | reading haccepted hservice hout =>
    exact .read haccepted hservice (by rw [complete, hout, Pending.complete_singleton])
  | unaccepted _ hout | read _ _ hout | writing _ hout | written _ hout | gone _ hout =>
    simp [hout] at hmem

/-- A service that writes, writes its reply, and may have sent any part of it. -/
theorem writing_of_mem {buffer : Bytes} (h : Answers request reply v sent)
    (hmem : (⟨.write buffer, none⟩ : Pending FakeOp) ∈ v.outstanding) :
    buffer = reply ∧ ∀ {sent'}, sent' <+: reply → Answers request reply v sent' := by
  cases h with
  | writing haccepted hout =>
    obtain ⟨rfl⟩ : buffer = reply := by simpa [hout] using hmem
    exact ⟨rfl, fun hsent' => .writing haccepted hout hsent'⟩
  | unaccepted _ hout | reading _ _ hout | read _ _ hout | written _ hout | gone _ hout =>
    simp [hout] at hmem

/-- Its write completes once all of the reply has been sent. -/
theorem complete_write {buffer : Bytes} (h : Answers request reply v sent)
    (hmem : (⟨.write buffer, none⟩ : Pending FakeOp) ∈ v.outstanding) (hsent : sent = buffer) :
    Answers request reply (v.complete (.write buffer) ⟨.success, []⟩) sent := by
  cases h with
  | writing haccepted hout =>
    obtain rfl : buffer = reply := by simpa [hout] using hmem
    subst hsent
    exact .written haccepted (by rw [complete, hout, Pending.complete_singleton])
  | unaccepted _ hout | reading _ _ hout | read _ _ hout | written _ hout | gone _ hout =>
    simp [hout] at hmem

/-- **A handler of the service** replies to the request it was given, or is the last one. -/
theorem handle (hline : lf ∉ line)
    (h : Answers (line ++ [lf]) (bytes "request is processed!: " ++ line ++ [lf]) v sent)
    {op : FakeOp} {c : Completion} (hmem : (⟨op, some c⟩ : Pending FakeOp) ∈ v.outstanding) :
    Answers (line ++ [lf]) (bytes "request is processed!: " ++ line ++ [lf]) (v.handle op c)
      sent := by
  cases h with
  | read haccepted hservice hout =>
    obtain ⟨rfl, rfl⟩ : op = .readLine ∧ c = ⟨.success, line ++ [lf]⟩ := by simpa [hout] using hmem
    have hresponse := ServiceFakeAsync.recieveRequest_line hline
    rw [← hservice] at hresponse
    refine .writing ?_ ?_ List.nil_prefix
    · rw [accepted_handle, haccepted]
    · unfold Serving.handle
      simp only [hout, Pending.dequeue_singleton]
      split
      next heq =>
        rw [heq] at hresponse
        cases hresponse
        rfl
      next heq =>
        rw [heq] at hresponse
        cases hresponse
  | written haccepted hout =>
    obtain ⟨rfl, rfl⟩ : op = .write (bytes "request is processed!: " ++ line ++ [lf]) ∧
        c = ⟨.success, []⟩ := by simpa [hout] using hmem
    exact .gone haccepted (by simp [Serving.handle, ServiceFakeAsync.handle,
      ServiceFakeAsync.sendAnswer, hout, Pending.dequeue_singleton])
  | unaccepted _ hout | reading _ _ hout | writing _ hout | gone _ hout => simp [hout] at hmem

end Answers

end Serving

end AsioSamples
