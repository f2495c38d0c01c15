import AsioSamples.Http.Connection
import AsioSamples.Http.Ownership
import AsioSamples.Http.Programs
import AsioSamples.Http.Threads

/-!
# Http/Dialogue — an `HTTPRequest` and an `HttpService` at the two ends of a connection

Both machines at once, the threads of `Http/Threads` at one end and the service of `Http/Ownership`
at the other, with a channel each way between them.  The network decides when an operation
completes, and with what: a write when the last of its bytes has been sent, a read when its
delimiter is there, its buffer is full, or the stream has ended.  Bytes are sent, arrive and are
read in pieces of any size, while the other end is still at work.  No call fails and nobody cancels.

`ClientOk` says where the request can be, and that its program predicts the rest of its run; each
step of its threads, its network and its peer keeps that.  The service is the subject of
`Http/Interleaving`, and both together of `Http/RoundTrip`.
-/

namespace AsioSamples

/-- The bytes an operation is given to send. -/
def ServiceOp.buffer : ServiceOp → Option Bytes
  | .write buffers => some buffers.flatten
  | .readRequestLine | .readHeaders => none

namespace HttpDialogue

/-! ## States and events -/

/-- The request and its threads, the service once its connection is accepted, and the connection;
of what has arrived, the first `upTaken` and `downTaken` bytes were given to completed reads. -/
structure State (τ : Type*) where
  client : HTTPRequest.State τ
  service : Option HttpService.State := none
  up : Channel := {}
  down : Channel := {}
  upTaken : ℕ := 0
  downTaken : ℕ := 0

/-- The steps. -/
inductive Event (τ : Type*)
  | client (e : HTTPRequest.Event τ)
  /-- The request's write sends `n` more bytes of its buffer. -/
  | transmit (buffer : Bytes) (n : ℕ)
  /-- `n` bytes arrive for a read of the request. -/
  | arrive (op : AsyncOp) (n : ℕ)
  | accept
  | service (e : HttpService.Event)
  | serviceArrive (op : ServiceOp) (n : ℕ)
  | serviceTransmit (buffers : List Bytes) (n : ℕ)

/-- What an operation is given to send, if anything, has been sent. -/
def Sent (c : Channel) : Option Bytes → Prop
  | none => True
  | some buffer => c.sent = buffer

instance (c : Channel) (buffer : Option Bytes) : Decidable (Sent c buffer) :=
  match buffer with
  | none => inferInstanceAs (Decidable True)
  | some _ => inferInstanceAs (Decidable (_ = _))

section Machine

variable {τ : Type*}

/-- The steps of a request that is not cancelled, on an operating system where `shutdown` is what
the socket shutdown reports. -/
def Proceeds (os : Os) (s : State τ) : HTTPRequest.Event τ → Prop
  | .complete op c => (s.client.request.wait op).Completes s.down s.downTaken c ∧
      Sent s.up op.buffer
  | .handle _ _ _ shutdown => shutdown = os.shutdownSend
  | .cancel .. => False
  | _ => True

instance (os : Os) (s : State τ) (e : HTTPRequest.Event τ) : Decidable (Proceeds os s e) :=
  match e with
  | .complete .. => inferInstanceAs (Decidable (_ ∧ _))
  | .handle .. => inferInstanceAs (Decidable (_ = _))
  | .cancel .. => inferInstanceAs (Decidable False)
  | .execute _ | .call .. | .lock .. | .test .. | .initiate .. | .leave _ | .unlock _ | .callback ..
  | .callbackReturns _ | .cancelLock .. | .setFlag .. | .abort .. | .abortThrows ..
  | .cancelUnlock .. => inferInstanceAs (Decidable True)

/-- The steps of the service on that operating system. -/
def ServiceProceeds (os : Os) (s : State τ) (v : HttpService.State) : HttpService.Event → Prop
  | .complete op c => (v.service.wait op).Completes s.up s.upTaken c ∧ Sent s.down op.buffer
  | .handle _ _ os' => os' = os

variable [DecidableEq τ]

/-- `execute` is called, by `t₀`. -/
def State.start (r : HTTPRequest) (t₀ : τ) : State τ := { client := .start r t₀ }

/-- When a step can be taken. -/
def Enabled (w : ULong) (os : Os) (s : State τ) : Event τ → Prop
  | .client e => HTTPRequest.Enabled w s.client e ∧ Proceeds os s e
  | .transmit buffer n => (⟨.write buffer, none⟩ : Pending AsyncOp) ∈ s.client.outstanding ∧
      0 < n ∧ s.up.sent.length + n ≤ buffer.length
  | .arrive op n => ⟨op, none⟩ ∈ s.client.outstanding ∧
      (s.client.request.wait op).Arrives s.down s.downTaken n
  | .accept => s.service = none ∧ .connect ∈ s.client.initiated
  | .service e => ∃ v ∈ s.service, HttpService.Enabled v e ∧ ServiceProceeds os s v e
  | .serviceArrive op n => ∃ v ∈ s.service, ⟨op, none⟩ ∈ v.outstanding ∧
      (v.service.wait op).Arrives s.up s.upTaken n
  | .serviceTransmit buffers n => ∃ v ∈ s.service,
      (⟨.write buffers, none⟩ : Pending ServiceOp) ∈ v.outstanding ∧
      0 < n ∧ s.down.sent.length + n ≤ buffers.flatten.length

/-- What a step of the request does to its end of the connection: `on_request_sent` shuts it down
for sending, and a completed operation has been given what had arrived. -/
def State.afterClient (s : State τ) : HTTPRequest.Event τ → State τ
  | .complete _ _ => { s with downTaken := s.down.received.length }
  | .handle _ (.write _) c _ => if c.ec.value = 0 then { s with up := s.up.finish } else s
  | _ => s

/-- A service that is deleted has shut its socket down, or closes it. -/
def closed (v : HttpService.State) (c : Channel) : Channel := if 0 < v.deleted then c.finish else c

/-- What a step of the service does to its end: a handler may delete the service, and a completed
operation has been given what had arrived. -/
def State.afterService (s : State τ) (v : HttpService.State) : HttpService.Event → State τ
  | .complete _ _ => { s with service := some v, upTaken := s.up.received.length }
  | .handle .. => { s with service := some v, down := closed v s.down }

/-- Where a step leads. -/
def next (w : ULong) (s : State τ) : Event τ → State τ
  | .client e => { s with client := HTTPRequest.next w s.client e }.afterClient e
  | .transmit buffer n => { s with up := s.up.transmit buffer n }
  | .arrive _ n => { s with down := s.down.receive n }
  | .accept => { s with service := some .start }
  | .service e => s.service.elim s fun v => s.afterService (HttpService.next v e) e
  | .serviceArrive _ n => { s with up := s.up.receive n }
  | .serviceTransmit buffers n => { s with down := s.down.transmit buffers.flatten n }

/-- The two ends of a connection. -/
def machine (w : ULong) (os : Os) : Machine (State τ) (Event τ) := ⟨Enabled w os, next w⟩

/-! ## The request's side -/

/-- The request, on all that it is going to read. -/
def clientRun (w : ULong) (os : Os) (r₀ : HTTPRequest) (chunks : List Bytes) :
    Option (ErrorCode × HTTPRequest) :=
  (HTTPRequest.program w os.shutdownSend).run r₀ (.resolve r₀.host (toString r₀.port.toNat)) chunks

/-- The request has been sent, and the sending side shut down. -/
def Asked (r₀ : HTTPRequest) (s : State τ) : Prop :=
  s.up.sent = r₀.requestBytes ∧ s.up.finished = true ∧ .connect ∈ s.client.initiated

/-- How far the connection has come when `op` is initiated. -/
def Ready (r₀ : HTTPRequest) (s : State τ) : AsyncOp → Prop
  | .resolve _ _ | .connect => s.client.request = r₀ ∧ s.up = {}
  | .write buffer => buffer = r₀.requestBytes ∧ s.up = {} ∧ .connect ∈ s.client.initiated
  | .readStatusLine | .readHeaders | .readBody => Asked r₀ s

/-- The rest of a run is that of its program, from the initiation of `op` on. -/
structure Going (w : ULong) (os : Os) (r₀ : HTTPRequest) (s : State τ) (op : AsyncOp) : Prop where
  ready : Ready r₀ s op
  taken : s.downTaken = s.down.received.length
  predicts : Predicts (clientRun w os r₀) s.down
    ((HTTPRequest.program w os.shutdownSend).run s.client.request op)

/-- …from the middle of `op` on, of whose bytes some have been sent, or some have arrived. -/
structure InFlight (w : ULong) (os : Os) (r₀ : HTTPRequest) (s : State τ) (op : AsyncOp) :
    Prop where
  ready : match op with
    | .write buffer => buffer = r₀.requestBytes ∧ s.up.sent <+: buffer ∧ s.up.finished = false ∧
        .connect ∈ s.client.initiated
    | op => Ready r₀ s op
  initiated : op ∈ s.client.initiated
  taken : s.downTaken ≤ s.down.received.length
  predicts : Predicts (clientRun w os r₀) s.down
    ((HTTPRequest.program w os.shutdownSend).resumed s.client.request op (s.down.since s.downTaken))

/-- …from the handler of `op` on, which is given `c`. -/
structure Completed (w : ULong) (os : Os) (r₀ : HTTPRequest) (s : State τ) (op : AsyncOp)
    (c : Completion) : Prop where
  succeeded : HTTPRequest.stages op ≤ 3 ∨ c.ec = .success
  ready : match op with
    | .write _ => s.up.sent = r₀.requestBytes ∧ s.up.finished = false ∧
        .connect ∈ s.client.initiated
    | op => Ready r₀ s op
  initiated : op ∈ s.client.initiated
  taken : s.downTaken = s.down.received.length
  predicts : Predicts (clientRun w os r₀) s.down
    ((HTTPRequest.program w os.shutdownSend).after s.client.request op c)

/-- What is known of the rest of a run while a thread is there. -/
def Working (w : ULong) (os : Os) (r₀ : HTTPRequest) (s : State τ) : HTTPRequest.Pc → Prop
  | .executing => s.client.request = r₀ ∧ s.up = {} ∧ s.down.received = [] ∧ s.downTaken = 0
  | .handling op c => Completed w os r₀ s op c
  | .locking op | .testing op | .initiating op => Going w os r₀ s op
  | .finishing ec => Asked r₀ s ∧
      Predicts (clientRun w os r₀) s.down fun _ => some (ec, s.client.request)
  | _ => False

/-- The points of a thread that does nothing for the run any more. -/
def Quiet : HTTPRequest.Pc → Prop
  | .idle | .inCallback | .leaving => True
  | _ => False

/-- **Where the request is**: a thread is at work on it, or one operation is outstanding, or the
callback has been invoked; and what its program makes of what is still to come. -/
inductive ClientOk (w : ULong) (os : Os) (r₀ : HTTPRequest) (s : State τ) : Prop
  | working (t : τ) (ht : Working w os r₀ s (s.client.pc t))
    (hquiet : ∀ u, u ≠ t → Quiet (s.client.pc u)) (hout : s.client.outstanding = [])
    (hcallbacks : s.client.callbacks = [])
  | inFlight (op : AsyncOp) (hop : InFlight w os r₀ s op) (hquiet : ∀ u, Quiet (s.client.pc u))
    (hout : s.client.outstanding = [⟨op, none⟩]) (hcallbacks : s.client.callbacks = [])
  | completed (op : AsyncOp) (c : Completion) (hop : Completed w os r₀ s op c)
    (hquiet : ∀ u, Quiet (s.client.pc u)) (hout : s.client.outstanding = [⟨op, some c⟩])
    (hcallbacks : s.client.callbacks = [])
  | calledBack (cb : HTTPRequest.Callback) (hasked : Asked r₀ s)
    (hcb : Predicts (clientRun w os r₀) s.down fun _ => some (cb.ec, cb.request))
    (hquiet : ∀ u, Quiet (s.client.pc u)) (hout : s.client.outstanding = [])
    (hcallbacks : s.client.callbacks = [cb])

variable {w : ULong} {os : Os} {r₀ : HTTPRequest} {s s' : State τ} {t : τ} {op : AsyncOp}
  {c : Completion}

omit [DecidableEq τ]

theorem not_working_of_quiet {p : HTTPRequest.Pc} (h : Quiet p) : ¬ Working w os r₀ s p := by
  cases p <;> first | exact h.elim | exact id

/-- A thread at work is the only one, and nothing is outstanding. -/
theorem ClientOk.of_not_quiet (h : ClientOk w os r₀ s) (ht : ¬ Quiet (s.client.pc t)) :
    Working w os r₀ s (s.client.pc t) ∧ (∀ u, u ≠ t → Quiet (s.client.pc u)) ∧
      s.client.outstanding = [] ∧ s.client.callbacks = [] := by
  cases h with
  | working t' ht' hquiet hout hcallbacks =>
    obtain rfl : t = t' := by
      by_contra hne
      exact ht (hquiet t hne)
    exact ⟨ht', hquiet, hout, hcallbacks⟩
  | inFlight op hop hquiet | completed op c hop hquiet | calledBack cb hasked hcb hquiet =>
    exact absurd (hquiet t) ht

/-- An operation in flight is the only one, and no thread is at work. -/
theorem ClientOk.of_inFlight (h : ClientOk w os r₀ s)
    (hmem : (⟨op, none⟩ : Pending AsyncOp) ∈ s.client.outstanding) :
    InFlight w os r₀ s op ∧ (∀ u, Quiet (s.client.pc u)) ∧
      s.client.outstanding = [⟨op, none⟩] ∧ s.client.callbacks = [] := by
  cases h with
  | inFlight op' hop hquiet hout hcallbacks =>
    rw [hout, List.mem_singleton] at hmem
    cases hmem
    exact ⟨hop, hquiet, hout, hcallbacks⟩
  | working _ _ _ hout | completed _ _ _ _ hout | calledBack _ _ _ _ hout =>
    simp [hout] at hmem

/-- …and so is a completed one. -/
theorem ClientOk.of_completed (h : ClientOk w os r₀ s)
    (hmem : (⟨op, some c⟩ : Pending AsyncOp) ∈ s.client.outstanding) :
    Completed w os r₀ s op c ∧ (∀ u, Quiet (s.client.pc u)) ∧
      s.client.outstanding = [⟨op, some c⟩] ∧ s.client.callbacks = [] := by
  cases h with
  | completed op' c' hop hquiet hout hcallbacks =>
    rw [hout, List.mem_singleton] at hmem
    cases hmem
    exact ⟨hop, hquiet, hout, hcallbacks⟩
  | working _ _ _ hout | inFlight _ _ _ hout | calledBack _ _ _ _ hout =>
    simp [hout] at hmem

/-! ## What the other end does -/

/-- The request is as it was, and so is what it has sent and what it has got; what may still arrive
is not more. -/
structure Framed (s s' : State τ) : Prop where
  request : s'.client.request = s.client.request
  initiated : s.client.initiated ⊆ s'.client.initiated
  upEmpty : s.up = {} → s'.up = {}
  upSent : s'.up.sent = s.up.sent
  upFinished : s'.up.finished = s.up.finished
  received : s'.down.received = s.down.received
  allows : ∀ future, s'.down.Allows future → s.down.Allows future
  taken : s'.downTaken = s.downTaken

theorem Asked.frame (h : Asked r₀ s) (hs : Framed s s') : Asked r₀ s' :=
  ⟨hs.upSent.trans h.1, hs.upFinished.trans h.2.1, hs.initiated h.2.2⟩

theorem Ready.frame (h : Ready r₀ s op) (hs : Framed s s') : Ready r₀ s' op := by
  cases op with
  | resolve host service | connect => exact ⟨hs.request.trans h.1, hs.upEmpty h.2⟩
  | write buffer => exact ⟨h.1, hs.upEmpty h.2.1, hs.initiated h.2.2⟩
  | readStatusLine | readHeaders | readBody => exact Asked.frame h hs

theorem Going.frame (h : Going w os r₀ s op) (hs : Framed s s') : Going w os r₀ s' op where
  ready := h.ready.frame hs
  taken := by rw [hs.taken, hs.received, h.taken]
  predicts := by
    rw [hs.request]
    exact h.predicts.mono hs.received hs.allows

theorem InFlight.frame (h : InFlight w os r₀ s op) (hs : Framed s s') :
    InFlight w os r₀ s' op where
  initiated := hs.initiated h.initiated
  ready := by
    have hready := h.ready
    cases op with
    | write buffer =>
      obtain ⟨hbuffer, hsent, hopen, hconnect⟩ := hready
      exact ⟨hbuffer, hs.upSent ▸ hsent, hs.upFinished.trans hopen, hs.initiated hconnect⟩
    | _ => exact Ready.frame hready hs
  taken := by
    rw [hs.taken, hs.received]
    exact h.taken
  predicts := by
    rw [hs.request, hs.taken, Channel.since, hs.received]
    exact h.predicts.mono hs.received hs.allows

theorem Completed.frame (h : Completed w os r₀ s op c) (hs : Framed s s') :
    Completed w os r₀ s' op c where
  succeeded := h.succeeded
  initiated := hs.initiated h.initiated
  ready := by
    have hready := h.ready
    cases op with
    | write buffer =>
      obtain ⟨hsent, hopen, hconnect⟩ := hready
      exact ⟨hs.upSent.trans hsent, hs.upFinished.trans hopen, hs.initiated hconnect⟩
    | _ => exact Ready.frame hready hs
  taken := by rw [hs.taken, hs.received, h.taken]
  predicts := by
    rw [hs.request]
    exact h.predicts.mono hs.received hs.allows

theorem Working.frame {p : HTTPRequest.Pc} (h : Working w os r₀ s p) (hs : Framed s s') :
    Working w os r₀ s' p := by
  cases p with
  | executing =>
    obtain ⟨hrequest, hup, hreceived, htaken⟩ := h
    exact ⟨hs.request.trans hrequest, hs.upEmpty hup, hs.received.trans hreceived,
      hs.taken.trans htaken⟩
  | handling op c => exact Completed.frame h hs
  | locking op | testing op | initiating op => exact Going.frame h hs
  | finishing ec =>
    rw [Working, hs.request]
    exact ⟨h.1.frame hs, h.2.mono hs.received hs.allows⟩
  | _ => exact h.elim

/-- **What the other end does** leaves the request where it is. -/
theorem ClientOk.frame (h : ClientOk w os r₀ s) (hs : Framed s s')
    (hclient : s'.client = s.client) : ClientOk w os r₀ s' := by
  cases h with
  | working t ht hquiet hout hcallbacks =>
    exact .working t (hclient ▸ ht.frame hs) (hclient ▸ hquiet) (hclient ▸ hout)
      (hclient ▸ hcallbacks)
  | inFlight op hop hquiet hout hcallbacks =>
    exact .inFlight op (hop.frame hs) (hclient ▸ hquiet) (hclient ▸ hout) (hclient ▸ hcallbacks)
  | completed op c hop hquiet hout hcallbacks =>
    exact .completed op c (hop.frame hs) (hclient ▸ hquiet) (hclient ▸ hout) (hclient ▸ hcallbacks)
  | calledBack cb hasked hcb hquiet hout hcallbacks =>
    exact .calledBack cb (hasked.frame hs) (hcb.mono hs.received hs.allows) (hclient ▸ hquiet)
      (hclient ▸ hout) (hclient ▸ hcallbacks)

/-! ## What the request does -/

variable [DecidableEq τ] {x : HTTPRequest.Pc}

omit [DecidableEq τ] in
/-- A step that changes nothing the rest of the run depends on. -/
theorem Framed.of_client {c' : HTTPRequest.State τ} (hrequest : c'.request = s.client.request)
    (hinitiated : s.client.initiated ⊆ c'.initiated) : Framed s { s with client := c' } :=
  ⟨hrequest, hinitiated, id, rfl, rfl, rfl, fun _ hf => hf, rfl⟩

/-- A thread that is done joins the others. -/
theorem quiet_update {pc : τ → HTTPRequest.Pc} (hquiet : ∀ u, u ≠ t → Quiet (pc u)) (hx : Quiet x) :
    ∀ u, Quiet (Function.update pc t x u) :=
  (Function.forall_update_iff pc fun _ p => Quiet p).mpr ⟨hx, hquiet⟩

/-- The thread at work goes on. -/
theorem ClientOk.goOn (hquiet : ∀ u, u ≠ t → Quiet (s.client.pc u))
    (hpc : s'.client.pc = Function.update s.client.pc t x) (hx : Working w os r₀ s' x)
    (hout : s'.client.outstanding = []) (hcallbacks : s'.client.callbacks = []) :
    ClientOk w os r₀ s' := by
  refine .working t ?_ (fun u hu => ?_) hout hcallbacks
  · rwa [hpc, Function.update_self]
  · rw [hpc, Function.update_of_ne hu]
    exact hquiet u hu

/-- A quiet thread goes on. -/
theorem ClientOk.quiet (h : ClientOk w os r₀ s) (ht : Quiet (s.client.pc t)) (hx : Quiet x)
    {c' : HTTPRequest.State τ} (hpc : c'.pc = Function.update s.client.pc t x)
    (hrequest : c'.request = s.client.request) (hinitiated : c'.initiated = s.client.initiated)
    (hout : c'.outstanding = s.client.outstanding)
    (hcallbacks : c'.callbacks = s.client.callbacks) :
    ClientOk w os r₀ { s with client := c' } := by
  have hs := Framed.of_client (s := s) hrequest (hinitiated ▸ List.Subset.refl _)
  have hall : (∀ u, Quiet (s.client.pc u)) → ∀ u, Quiet (c'.pc u) := fun hquiet =>
    hpc ▸ quiet_update (fun u _ => hquiet u) hx
  cases h with
  | working t' ht' hquiet hout' hcallbacks' =>
    have hne : t' ≠ t := by
      rintro rfl
      exact not_working_of_quiet ht ht'
    refine .working t' ?_ (fun u hu => ?_) (hout.trans hout') (hcallbacks.trans hcallbacks')
    · simpa only [hpc, Function.update_of_ne hne] using ht'.frame hs
    · simp only [hpc]
      rcases eq_or_ne u t with rfl | hut
      · simpa only [Function.update_self] using hx
      · simpa only [Function.update_of_ne hut] using hquiet u hu
  | inFlight op hop hquiet hout' hcallbacks' =>
    exact .inFlight op (hop.frame hs) (hall hquiet) (hout.trans hout')
      (hcallbacks.trans hcallbacks')
  | completed op c hop hquiet hout' hcallbacks' =>
    exact .completed op c (hop.frame hs) (hall hquiet) (hout.trans hout')
      (hcallbacks.trans hcallbacks')
  | calledBack cb hasked hcb hquiet hout' hcallbacks' =>
    exact .calledBack cb (hasked.frame hs) hcb (hall hquiet) (hout.trans hout')
      (hcallbacks.trans hcallbacks')

omit [DecidableEq τ] in
/-- **An operation completes** with what the network lets it. -/
theorem InFlight.complete (h : InFlight w os r₀ s op)
    (hc : (s.client.request.wait op).Completes s.down s.downTaken c) (hsent : Sent s.up op.buffer)
    {c' : HTTPRequest.State τ} (hrequest : c'.request = s.client.request)
    (hinitiated : c'.initiated = s.client.initiated) :
    Completed w os r₀ { s with client := c', downTaken := s.down.received.length } op c where
  initiated := hinitiated ▸ h.initiated
  succeeded := by
    have hnothing : s.client.request.wait op = .nothing → c.ec = .success := fun hwait => by
      unfold Wait.Completes at hc
      rw [hwait, if_pos (show Wait.nothing.Satisfied _ from trivial)] at hc
      rw [hc]
      rfl
    cases op with
    | resolve host service | connect | write buffer => exact Or.inr (hnothing rfl)
    | readStatusLine | readHeaders | readBody => exact Or.inl (by simp [HTTPRequest.stages])
  ready := by
    have hready := h.ready
    cases op with
    | resolve host service | connect => exact ⟨hrequest.trans hready.1, hready.2⟩
    | write buffer =>
      obtain ⟨hbuffer, -, hopen, hconnect⟩ := hready
      exact ⟨hsent.trans hbuffer, hopen, hinitiated ▸ hconnect⟩
    | readStatusLine | readHeaders | readBody =>
      obtain ⟨hall, hfinished, hconnect⟩ := hready
      exact ⟨hall, hfinished, hinitiated ▸ hconnect⟩
  taken := rfl
  predicts := by
    rw [hrequest]
    exact h.predicts.complete hc

/-- `execute` is called. -/
theorem ClientOk.execute (h : ClientOk w os r₀ s) (hexec : r₀.execute.isSome)
    (he : HTTPRequest.Enabled w s.client (.execute t)) :
    ClientOk w os r₀ (next w s (.client (.execute t))) := by
  obtain ⟨hpc, -⟩ := he
  obtain ⟨⟨rfl, hup, hreceived, htaken⟩, hquiet, hout, hcallbacks⟩ :=
    hpc ▸ h.of_not_quiet (t := t) (by rw [hpc]; exact id)
  simp only [next, State.afterClient, HTTPRequest.next, (HTTPRequest.execute_eq_of_isSome hexec).1]
  refine ClientOk.goOn (t := t) hquiet rfl ?_ hout hcallbacks
  exact ⟨⟨rfl, hup⟩, by simp [htaken, hreceived], Predicts.start hreceived⟩

/-- An operation completes. -/
theorem ClientOk.complete (h : ClientOk w os r₀ s)
    (he : HTTPRequest.Enabled w s.client (.complete op c)) (hp : Proceeds os s (.complete op c)) :
    ClientOk w os r₀ (next w s (.client (.complete op c))) := by
  obtain ⟨hop, hquiet, hout, hcallbacks⟩ := h.of_inFlight he
  refine .completed op c (hop.complete hp.1 hp.2 rfl rfl) hquiet ?_ hcallbacks
  simp only [next, State.afterClient, HTTPRequest.next, hout, Pending.complete_singleton]

/-- A handler is called. -/
theorem ClientOk.call (h : ClientOk w os r₀ s)
    (he : HTTPRequest.Enabled w s.client (.call t op c)) :
    ClientOk w os r₀ (next w s (.client (.call t op c))) := by
  obtain ⟨hop, hquiet, hout, hcallbacks⟩ := h.of_completed he.2
  refine ClientOk.goOn (fun u _ => hquiet u) rfl (hop.frame (Framed.of_client rfl ?_)) ?_ hcallbacks
  · exact List.Subset.refl _
  · simp only [next, State.afterClient, HTTPRequest.next, HTTPRequest.State.goto, hout,
      Pending.dequeue_singleton]

/-- What a handler does to its end of the connection. -/
theorem next_handle (w : ULong) (s : State τ) (t : τ) (op : AsyncOp) (c : Completion)
    (shutdown : ErrorCode) : ∃ up, next w s (.client (.handle t op c shutdown))
        = { s with client := HTTPRequest.next w s.client (.handle t op c shutdown), up } ∧
      up.sent = s.up.sent ∧ ((∀ buffer, op ≠ .write buffer) → up = s.up) ∧
        (∀ buffer, op = .write buffer → c.ec.value = 0 → up.finished = true) := by
  rw [next]
  unfold State.afterClient
  cases op with
  | write buffer =>
    simp only
    split
    next hec => exact ⟨_, rfl, rfl, fun hne => absurd rfl (hne buffer), fun _ _ _ => rfl⟩
    next hec => exact ⟨s.up, rfl, rfl, fun _ => rfl, fun _ _ h => absurd h hec⟩
  | _ => exact ⟨s.up, rfl, rfl, fun _ => rfl, fun _ h => by cases h⟩

omit [DecidableEq τ] in
/-- The reads leave the other direction of the connection as it is. -/
theorem Completed.asked (h : Completed w os r₀ s op c) (hop : HTTPRequest.stages op ≤ 3)
    (hinitiated : s'.client.initiated = s.client.initiated)
    (hup : (∀ buffer, op ≠ .write buffer) → s'.up = s.up) : Asked r₀ s' := by
  have hready := h.ready
  cases op with
  | resolve host service | connect | write buffer => exact absurd hop (by simp [HTTPRequest.stages])
  | readStatusLine | readHeaders | readBody =>
    have hsame : s'.up = s.up := hup fun _ hne => by cases hne
    obtain ⟨hall, hend, hconnect⟩ := hready
    exact ⟨hsame ▸ hall, hsame ▸ hend, hinitiated ▸ hconnect⟩

omit [DecidableEq τ] in
/-- Only a read may end the request. -/
theorem Completed.stages_le (h : Completed w os r₀ s op c) {shutdown : ErrorCode}
    {r' : HTTPRequest} {ec : ErrorCode}
    (hhandle : s.client.request.handle w shutdown op c = some (r', .finish ec)) :
    HTTPRequest.stages op ≤ 3 := by
  refine h.succeeded.elim id fun hec => ?_
  cases op with
  | resolve host service =>
    simp [HTTPRequest.handle, HTTPRequest.onHostNameResolved, hec] at hhandle
  | connect => simp [HTTPRequest.handle, HTTPRequest.onConnectionEstablished, hec] at hhandle
  | write buffer =>
    simp only [HTTPRequest.handle, HTTPRequest.onRequestSent, hec, ErrorCode.success_value, ne_eq,
      not_true_eq_false, if_false, Option.some.injEq] at hhandle
    split at hhandle <;> cases hhandle
  | readStatusLine | readHeaders | readBody => simp [HTTPRequest.stages]

omit [DecidableEq τ] in
/-- **A handler that goes on** finds the connection ready for its operation. -/
theorem Completed.ready_lock (h : Completed w os r₀ s op c) (hbuf : r₀.requestBuf = [])
    {shutdown : ErrorCode} {r' : HTTPRequest} {op' : AsyncOp}
    (hhandle : s.client.request.handle w shutdown op c = some (r', .lock op'))
    (hrequest : s'.client.request = r') (hinitiated : s'.client.initiated = s.client.initiated)
    (hsent : s'.up.sent = s.up.sent) (hup : (∀ buffer, op ≠ .write buffer) → s'.up = s.up)
    (hfinished : ∀ buffer, op = .write buffer → c.ec.value = 0 → s'.up.finished = true) :
    Ready r₀ s' op' := by
  have hready := h.ready
  cases op with
  | resolve host service =>
    simp only [HTTPRequest.handle, HTTPRequest.onHostNameResolved, Option.some.injEq] at hhandle
    split at hhandle
    · cases hhandle
    · cases hhandle
      exact ⟨hrequest.trans hready.1, (hup fun _ hne => by cases hne).trans hready.2⟩
  | connect =>
    simp only [HTTPRequest.handle, HTTPRequest.onConnectionEstablished,
      Option.some.injEq] at hhandle
    split at hhandle
    · cases hhandle
    · cases hhandle
      refine ⟨?_, (hup fun _ hne => by cases hne).trans hready.2, hinitiated ▸ h.initiated⟩
      rw [hready.1, hbuf, List.nil_append]
  | write buffer =>
    simp only [HTTPRequest.handle, HTTPRequest.onRequestSent, Option.some.injEq] at hhandle
    obtain ⟨hall, -, hconnect⟩ := hready
    split at hhandle
    · cases hhandle
    next hec =>
      split at hhandle
      · cases hhandle
      · cases hhandle
        exact ⟨hsent.trans hall, hfinished buffer rfl (not_not.mp hec), hinitiated ▸ hconnect⟩
  | readStatusLine | readHeaders | readBody =>
    have hstages := (HTTPRequest.handle_eq_some hhandle).2
    have hasked : Asked r₀ s' := h.asked (by simp [HTTPRequest.stages]) hinitiated hup
    cases op' <;> first | exact hasked | exact absurd hstages (by simp [HTTPRequest.stages])

/-- A handler runs. -/
theorem ClientOk.handle (h : ClientOk w os r₀ s) (hbuf : r₀.requestBuf = [])
    (hos : os.shutdownSend.value = 0) {shutdown : ErrorCode}
    (he : HTTPRequest.Enabled w s.client (.handle t op c shutdown))
    (hp : Proceeds os s (.handle t op c shutdown)) :
    ClientOk w os r₀ (next w s (.client (.handle t op c shutdown))) := by
  obtain ⟨hpc, hsome⟩ := he
  obtain rfl : shutdown = os.shutdownSend := hp
  obtain ⟨hop, hquiet, hout, hcallbacks⟩ :=
    hpc ▸ h.of_not_quiet (t := t) (by rw [hpc]; exact id)
  have hop : Completed w os r₀ s op c := hop
  obtain ⟨⟨r', ctl⟩, hhandle⟩ := Option.isSome_iff_exists.mp hsome
  obtain ⟨up, hnext, hsent, hup, hfinished⟩ := next_handle w s t op c os.shutdownSend
  rw [hnext]
  simp only [HTTPRequest.next, hhandle]
  cases ctl with
  | finish ec =>
    exact ClientOk.goOn (t := t) hquiet rfl ⟨hop.asked (hop.stages_le hhandle) rfl hup,
      hop.predicts.stop (HTTPRequest.program_finish hhandle)⟩ hout hcallbacks
  | lock op' =>
    refine ClientOk.goOn (t := t) hquiet rfl ⟨?_, hop.taken, ?_⟩ hout hcallbacks
    · exact hop.ready_lock hbuf hhandle rfl rfl hsent hup hfinished
    · exact hop.predicts.await (HTTPRequest.program_await hhandle)
  | throws ec =>
    exact absurd hos (HTTPRequest.handle_throws_iff.mp ⟨r', ec, hhandle⟩).2.2

/-- An operation is initiated. -/
theorem ClientOk.initiate (h : ClientOk w os r₀ s)
    (he : HTTPRequest.Enabled w s.client (.initiate t op)) :
    ClientOk w os r₀ (next w s (.client (.initiate t op))) := by
  have hpc : s.client.pc t = .initiating op := he
  obtain ⟨hop, hquiet, hout, hcallbacks⟩ := hpc ▸ h.of_not_quiet (t := t) (by rw [hpc]; exact id)
  have hop : Going w os r₀ s op := hop
  refine .inFlight op ⟨?_, List.mem_append_right _ (List.mem_singleton_self op), hop.taken.le, ?_⟩
    (quiet_update hquiet trivial) ?_ hcallbacks
  · have hready := hop.ready
    cases op with
    | write buffer =>
      obtain ⟨hbuffer, hup, hconnect⟩ := hready
      refine ⟨hbuffer, ?_, ?_, List.mem_append_left _ hconnect⟩
      · change s.up.sent <+: buffer
        rw [hup]
        exact List.nil_prefix
      · exact congrArg Channel.finished hup
    | _ => exact Ready.frame hready (Framed.of_client rfl (List.subset_append_left _ _))
  · have hpredicts := hop.predicts.initiate
    rwa [← hop.taken] at hpredicts
  · simp only [next, State.afterClient, HTTPRequest.next, HTTPRequest.State.goto, hout,
      Pending.initiate, List.nil_append]

/-- **A step of the request** that is not cancelled. -/
theorem ClientOk.client (h : ClientOk w os r₀ s) (hexec : r₀.execute.isSome)
    (hbuf : r₀.requestBuf = []) (hos : os.shutdownSend.value = 0)
    (hflag : s.client.request.wasCancelled = false) {e : HTTPRequest.Event τ}
    (he : HTTPRequest.Enabled w s.client e) (hp : Proceeds os s e) :
    ClientOk w os r₀ (next w s (.client e)) := by
  have hnone (t : τ) (hpc : ¬ Quiet (s.client.pc t)) : Working w os r₀ s (s.client.pc t) :=
    (h.of_not_quiet hpc).1
  cases e with
  | execute t => exact h.execute hexec he
  | complete op c => exact h.complete he hp
  | call t op c => exact h.call he
  | handle t op c shutdown => exact h.handle hbuf hos he hp
  | lock t op =>
    obtain ⟨hpc, -⟩ := he
    obtain ⟨hop, hquiet, hout, hcallbacks⟩ := hpc ▸ h.of_not_quiet (t := t) (by rw [hpc]; exact id)
    exact ClientOk.goOn hquiet rfl
      (Going.frame hop (Framed.of_client rfl (List.Subset.refl _))) hout hcallbacks
  | test t op =>
    have hpc : s.client.pc t = .testing op := he
    obtain ⟨hop, hquiet, hout, hcallbacks⟩ := hpc ▸ h.of_not_quiet (t := t) (by rw [hpc]; exact id)
    simp only [next, State.afterClient, HTTPRequest.next, hflag]
    exact ClientOk.goOn hquiet rfl
      (Going.frame hop (Framed.of_client rfl (List.Subset.refl _))) hout hcallbacks
  | initiate t op => exact h.initiate he
  | leave t =>
    have hpc : s.client.pc t = .leaving := he
    exact h.quiet (t := t) (x := .idle) (by rw [hpc]; trivial) trivial rfl rfl rfl rfl rfl
  | callback t ec =>
    have hpc : s.client.pc t = .finishing ec := he
    obtain ⟨hcb, hquiet, hout, hcallbacks⟩ := hpc ▸ h.of_not_quiet (t := t) (by rw [hpc]; exact id)
    refine .calledBack ⟨ec, s.client.request, 0 < s.client.cancelsReturned⟩ hcb.1 hcb.2
      (quiet_update hquiet trivial) hout ?_
    simp only [next, State.afterClient, HTTPRequest.next, HTTPRequest.State.goto, hcallbacks,
      List.nil_append]
  | callbackReturns t =>
    have hpc : s.client.pc t = .inCallback := he
    exact h.quiet (t := t) (x := .idle) (by rw [hpc]; trivial) trivial rfl rfl rfl rfl rfl
  | cancel t fromCallback => exact hp.elim
  | unlock t =>
    have hpc : s.client.pc t = .unlocking := he
    exact (hpc ▸ hnone t (by rw [hpc]; exact id)).elim
  | cancelLock t fromCallback =>
    exact (he.1 ▸ hnone t (by rw [he.1]; exact id)).elim
  | setFlag t fromCallback | abort t fromCallback reached | abortThrows t fromCallback reached ec
  | cancelUnlock t fromCallback =>
    have hpc : s.client.pc t = .cancelling _ fromCallback := he
    exact (hpc ▸ hnone t (by rw [hpc]; exact id)).elim

/-! ## What the network does for it -/

/-- The write of the request sends some of its bytes. -/
theorem ClientOk.transmit (h : ClientOk w os r₀ s) {buffer : Bytes} {n : ℕ}
    (hmem : (⟨.write buffer, none⟩ : Pending AsyncOp) ∈ s.client.outstanding) :
    ClientOk w os r₀ (next w s (.transmit buffer n)) := by
  obtain ⟨hop, hquiet, hout, hcallbacks⟩ := h.of_inFlight hmem
  obtain ⟨hbuffer, hsent, hopen, hconnect⟩ := hop.ready
  exact .inFlight (.write buffer) ⟨⟨hbuffer, Channel.transmit_sent_prefix hsent n, hopen, hconnect⟩,
    hop.initiated, hop.taken, hop.predicts⟩ hquiet hout hcallbacks

/-- Bytes arrive for a read of the request. -/
theorem ClientOk.arrive (h : ClientOk w os r₀ s) {n : ℕ}
    (hmem : (⟨op, none⟩ : Pending AsyncOp) ∈ s.client.outstanding)
    (hn : (s.client.request.wait op).Arrives s.down s.downTaken n) :
    ClientOk w os r₀ (next w s (.arrive op n)) := by
  obtain ⟨hop, hquiet, hout, hcallbacks⟩ := h.of_inFlight hmem
  refine .inFlight op ⟨?_, hop.initiated, ?_, hop.predicts.arrive hn hop.taken⟩ hquiet hout
    hcallbacks
  · have hready := hop.ready
    cases op <;> exact hready
  · exact hop.taken.trans (List.prefix_append _ _).length_le

end Machine

end HttpDialogue

end AsioSamples
