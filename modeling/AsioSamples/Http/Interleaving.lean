import AsioSamples.Http.Dialogue
import AsioSamples.Http.Outcome

/-!
# Http/Interleaving — what an interleaving of the two ends comes to

The service's side of the dialogue, and with it the whole: in every state its program, like that of
the request, predicts what the rest of the run comes to.  So whatever the interleaving, the callback
is given what `Http/Exchange` computes for one cut of each stream (`callback_eq_run`).
-/

namespace AsioSamples

namespace HttpDialogue

section Machine

variable {τ : Type*}

/-! ## The service's side -/

/-- **Where the service is**: it reads, writes its answer, or is deleted; and what its program makes
of what is still to come. -/
inductive Serving (os : Os) (s : State τ) (v : HttpService.State) : Prop
  | reading (op : ServiceOp) (hop : ∀ buffers, op ≠ .write buffers) (hs : v.service.Undecided)
    (hcode : v.service.responseStatusCode = 200) (hout : v.outstanding = [⟨op, none⟩])
    (hdeleted : v.deleted = 0) (hdown : s.down = {}) (htaken : s.upTaken ≤ s.up.received.length)
    (hpredicts : Predicts (HttpService.serve os) s.up
      ((HttpService.program os).resumed v.service op (s.up.since s.upTaken)))
  | read (op : ServiceOp) (c : Completion) (hop : ∀ buffers, op ≠ .write buffers)
    (hs : v.service.Undecided) (hcode : v.service.responseStatusCode = 200)
    (hout : v.outstanding = [⟨op, some c⟩]) (hdeleted : v.deleted = 0) (hdown : s.down = {})
    (htaken : s.upTaken = s.up.received.length)
    (hpredicts : Predicts (HttpService.serve os) s.up
      ((HttpService.program os).after v.service op c))
  | writing (buffers : List Bytes) (hout : v.outstanding = [⟨.write buffers, none⟩])
    (hdeleted : v.deleted = 0) (hopen : s.down.finished = false)
    (hsent : s.down.sent <+: buffers.flatten)
    (hpredicts : Predicts (HttpService.serve os) s.up fun _ =>
      some (.answered v.service buffers.flatten))
  | written (buffers : List Bytes) (c : Completion)
    (hout : v.outstanding = [⟨.write buffers, some c⟩]) (hdeleted : v.deleted = 0)
    (hopen : s.down.finished = false) (hsent : s.down.sent = buffers.flatten)
    (hpredicts : Predicts (HttpService.serve os) s.up fun _ =>
      some (.answered v.service buffers.flatten))
  | gone (served : Served) (hout : v.outstanding = []) (hdeleted : v.deleted = 1)
    (hfinished : s.down.finished = true) (hsent : s.down.sent = served.sent)
    (hescaped : ∀ e, served ≠ .escaped e)
    (hpredicts : Predicts (HttpService.serve os) s.up fun _ => some served)

/-- The connection has not been accepted, or its service is somewhere. -/
inductive ServiceOk (os : Os) (s : State τ) : Prop
  | unaccepted (hservice : s.service = none) (hreceived : s.up.received = [])
    (htaken : s.upTaken = 0) (hdown : s.down = {})
  | accepted (v : HttpService.State) (hservice : s.service = some v) (hv : Serving os s v)

variable {os : Os} {s s' : State τ} {v : HttpService.State} {op : ServiceOp} {c : Completion}

theorem ServiceOk.of_some (h : ServiceOk os s) (hv : s.service = some v) : Serving os s v := by
  cases h with
  | unaccepted hservice => cases hservice.symm.trans hv
  | accepted v' hservice hserving =>
    cases hservice.symm.trans hv
    exact hserving

/-! ## What the request does to it -/

/-- The service is as it was, and so is what it has sent and what it has got; what may still arrive
is not more. -/
structure ServiceFramed (s s' : State τ) : Prop where
  service : s'.service = s.service
  received : s'.up.received = s.up.received
  allows : ∀ future, s'.up.Allows future → s.up.Allows future
  taken : s'.upTaken = s.upTaken
  downEmpty : s.down = {} → s'.down = {}
  downSent : s'.down.sent = s.down.sent
  downFinished : s'.down.finished = s.down.finished

theorem Serving.frame (h : Serving os s v) (hs : ServiceFramed s s') : Serving os s' v := by
  cases h with
  | reading op hop hundecided hcode hout hdeleted hdown htaken hpredicts =>
    refine .reading op hop hundecided hcode hout hdeleted (hs.downEmpty hdown) ?_ ?_
    · rwa [hs.taken, hs.received]
    · rw [Channel.since, hs.taken, hs.received]
      exact hpredicts.mono hs.received hs.allows
  | read op c hop hundecided hcode hout hdeleted hdown htaken hpredicts =>
    refine .read op c hop hundecided hcode hout hdeleted (hs.downEmpty hdown) ?_
      (hpredicts.mono hs.received hs.allows)
    rwa [hs.taken, hs.received]
  | writing buffers hout hdeleted hopen hsent hpredicts =>
    exact .writing buffers hout hdeleted (hs.downFinished.trans hopen) (hs.downSent ▸ hsent)
      (hpredicts.mono hs.received hs.allows)
  | written buffers c hout hdeleted hopen hsent hpredicts =>
    exact .written buffers c hout hdeleted (hs.downFinished.trans hopen) (hs.downSent.trans hsent)
      (hpredicts.mono hs.received hs.allows)
  | gone served hout hdeleted hfinished hsent hescaped hpredicts =>
    exact .gone served hout hdeleted (hs.downFinished.trans hfinished) (hs.downSent.trans hsent)
      hescaped (hpredicts.mono hs.received hs.allows)

/-- **What the request does** leaves the service where it is. -/
theorem ServiceOk.frame (h : ServiceOk os s) (hs : ServiceFramed s s') : ServiceOk os s' := by
  cases h with
  | unaccepted hservice hreceived htaken hdown =>
    exact .unaccepted (hs.service.trans hservice) (hs.received.trans hreceived)
      (hs.taken.trans htaken) (hs.downEmpty hdown)
  | accepted v hservice hv => exact .accepted v (hs.service.trans hservice) (hv.frame hs)

/-- A step of the request leaves what the service has sent alone, and may end its own stream. -/
theorem ServiceFramed.client [DecidableEq τ] (w : ULong) (s : State τ) (e : HTTPRequest.Event τ) :
    ServiceFramed s (next w s (.client e)) := by
  have hkeep (client : HTTPRequest.State τ) (downTaken : ℕ) :
      ServiceFramed s { s with client, downTaken } :=
    ⟨rfl, rfl, fun _ hf => hf, rfl, id, rfl, rfl⟩
  rw [next]
  unfold State.afterClient
  split
  · exact hkeep _ _
  · split
    · exact ⟨rfl, rfl, fun _ hf _ => hf rfl, rfl, id, rfl, rfl⟩
    · exact hkeep _ _
  · exact hkeep _ _

/-- Nothing arrives on an empty channel. -/
theorem receive_empty {ch : Channel} (h : ch = {}) (n : ℕ) : ch.receive n = {} := by
  rw [h]
  simp [Channel.receive]

/-! ## What the service does -/

theorem program_write (os : Os) (svc : HttpService) (buffers : List Bytes) :
    (HttpService.program os).run svc (.write buffers) = fun _ =>
      some (.answered svc buffers.flatten) := by
  rw [Program.run_eq_resumed]
  rfl

/-- An operation of the service completes. -/
theorem Serving.complete (h : Serving os s v)
    (hmem : (⟨op, none⟩ : Pending ServiceOp) ∈ v.outstanding)
    (hc : (v.service.wait op).Completes s.up s.upTaken c) (hsent : Sent s.down op.buffer) :
    Serving os (s.afterService (HttpService.next v (.complete op c)) (.complete op c))
      (HttpService.next v (.complete op c)) := by
  cases h with
  | reading op' hop hs hcode hout hdeleted hdown htaken hpredicts =>
    rw [hout, List.mem_singleton] at hmem
    cases hmem
    exact .read op c hop hs hcode (by rw [HttpService.next, hout, Pending.complete_singleton])
      hdeleted hdown rfl (hpredicts.complete hc)
  | writing buffers hout hdeleted hopen hprefix hpredicts =>
    rw [hout, List.mem_singleton] at hmem
    cases hmem
    exact .written buffers c (by rw [HttpService.next, hout, Pending.complete_singleton]) hdeleted
      hopen hsent hpredicts
  | read _ _ _ _ _ hout | written _ _ hout | gone _ hout => simp [hout] at hmem

/-- **A handler of the service** that does not throw reads on, answers, or deletes it. -/
theorem Serving.handle (h : Serving os s v)
    (hok : ∀ e, v.service.handle os op c.ec c.received ≠ .error e)
    (hmem : (⟨op, some c⟩ : Pending ServiceOp) ∈ v.outstanding) :
    Serving os (s.afterService (HttpService.next v (.handle op c os)) (.handle op c os))
      (HttpService.next v (.handle op c os)) := by
  cases h with
  | read op' c' hop hs hcode hout hdeleted hdown htaken hpredicts =>
    rw [hout, List.mem_singleton] at hmem
    cases hmem
    have hend := HttpService.readEnd_handle hs hcode hop hok
    simp only [HttpService.next, State.afterService, hout, Pending.dequeue_singleton]
    generalize hhandle : v.service.handle os op c.ec c.received = ended at hend
    cases hend with
    | deleted svc =>
      refine .gone .dropped rfl (congrArg (· + 1) hdeleted) ?_ ?_ (fun e he => by cases he)
        (hpredicts.stop (HttpService.program_of_deleted hop hhandle))
      · simp [closed, HttpService.State.after, Channel.finish]
      · simp [closed, HttpService.State.after, hdown, Served.sent, Channel.sent, Channel.finish]
    | @readOn svc hs' hcode' =>
      refine .reading .readHeaders (fun _ hw => by cases hw) hs' hcode' rfl hdeleted ?_ htaken.le ?_
      · simpa [closed, HttpService.State.after, hdeleted] using hdown
      · have hnext := (hpredicts.await (HttpService.program_of_await hop hhandle)).initiate
        rwa [← htaken] at hnext
    | @answer svc buffers hresponse =>
      refine .writing buffers rfl hdeleted ?_ ?_ ?_
      · simp [closed, HttpService.State.after, hdeleted, hdown]
      · simp [closed, HttpService.State.after, hdeleted, hdown, Channel.sent]
      · have hnext := hpredicts.await (HttpService.program_of_await hop hhandle)
        rwa [program_write] at hnext
  | written buffers c' hout hdeleted hopen hsent hpredicts =>
    rw [hout, List.mem_singleton] at hmem
    cases hmem
    have hboth : ¬ os.shutdownBoth.value ≠ 0 := fun hfails => hok _ (if_pos hfails)
    simp only [HttpService.next, State.afterService, hout, Pending.dequeue_singleton,
      HttpService.handle, HttpService.onResponseSent]
    rw [if_neg hboth]
    refine .gone (.answered v.service buffers.flatten) rfl (congrArg (· + 1) hdeleted) ?_ ?_
      (fun e he => by cases he) hpredicts
    · simp [closed, HttpService.State.after, Channel.finish]
    · simp [closed, HttpService.State.after, Served.sent, hsent]
  | reading _ _ _ _ hout | writing _ hout | gone _ hout => simp [hout] at hmem

/-- Bytes arrive for a read of the service. -/
theorem Serving.arrive (h : Serving os s v)
    (hmem : (⟨op, none⟩ : Pending ServiceOp) ∈ v.outstanding) {n : ℕ}
    (hn : (v.service.wait op).Arrives s.up s.upTaken n) :
    Serving os { s with up := s.up.receive n } v := by
  cases h with
  | reading op' hop hs hcode hout hdeleted hdown htaken hpredicts =>
    rw [hout, List.mem_singleton] at hmem
    cases hmem
    exact .reading op hop hs hcode hout hdeleted hdown
      (htaken.trans (List.prefix_append _ _).length_le) (hpredicts.arrive hn htaken)
  | writing buffers hout =>
    rw [hout, List.mem_singleton] at hmem
    cases hmem
    exact absurd trivial hn.1
  | read _ _ _ _ _ hout | written _ _ hout | gone _ hout => simp [hout] at hmem

/-- The write of the service sends some of its bytes. -/
theorem Serving.transmit (h : Serving os s v) {buffers : List Bytes} (n : ℕ)
    (hmem : (⟨.write buffers, none⟩ : Pending ServiceOp) ∈ v.outstanding) :
    Serving os { s with down := s.down.transmit buffers.flatten n } v := by
  cases h with
  | writing buffers' hout hdeleted hopen hsent hpredicts =>
    rw [hout, List.mem_singleton] at hmem
    cases hmem
    exact .writing buffers hout hdeleted hopen (Channel.transmit_sent_prefix hsent n) hpredicts
  | reading op hop _ _ hout =>
    rw [hout, List.mem_singleton] at hmem
    cases hmem
    exact absurd rfl (hop buffers)
  | read _ _ _ _ _ hout | written _ _ hout | gone _ hout => simp [hout] at hmem

/-! ## Both -/

variable {w : ULong} {r₀ : HTTPRequest} {t₀ : τ}

/-- What is known of both ends; of its request the client has sent no more than there is, and all
of it before it ends its stream. -/
structure Ok (w : ULong) (os : Os) (r₀ : HTTPRequest) (s : State τ) : Prop where
  flag : s.client.request.wasCancelled = false
  client : ClientOk w os r₀ s
  sent : s.up.sent <+: r₀.requestBytes
  finished : s.up.finished = true → s.up.sent = r₀.requestBytes
  service : ServiceOk os s

/-- What the calls of both ends report, and how the request begins. -/
structure Sound (os : Os) (r₀ : HTTPRequest) : Prop where
  calls : HttpService.CallsSucceedOn os r₀.requestBytes
  send : os.shutdownSend.value = 0
  executes : r₀.execute.isSome
  fresh : r₀.Fresh
  notCancelled : r₀.wasCancelled = false

variable [DecidableEq τ]

theorem ok_start (h : Sound os r₀) (t₀ : τ) : Ok w os r₀ (.start r₀ t₀) where
  flag := h.notCancelled
  client := by
    refine .working t₀ ?_ (fun u hu => ?_) rfl rfl
    · simp [State.start, HTTPRequest.State.start, Working]
    · simp [State.start, HTTPRequest.State.start, hu, Quiet]
  sent := List.nil_prefix
  finished := fun hfinished => by cases hfinished
  service := .unaccepted rfl rfl rfl rfl

theorem client_next (w : ULong) (s : State τ) (e : HTTPRequest.Event τ) :
    (next w s (.client e)).client = HTTPRequest.next w s.client e := by
  rw [next]
  unfold State.afterClient
  split
  · rfl
  · split <;> rfl
  · rfl

/-- No thread of an uncancelled request is in `cancel()`. -/
theorem flag_client (h : Ok w os r₀ s) {e : HTTPRequest.Event τ}
    (he : HTTPRequest.Enabled w s.client e) :
    (next w s (.client e)).client.request.wasCancelled = false := by
  rw [client_next]
  cases e with
  | execute t =>
    simp only [HTTPRequest.next]
    split <;> exact h.flag
  | handle t op c shutdown =>
    obtain ⟨⟨r', ctl⟩, hhandle⟩ := Option.isSome_iff_exists.mp he.2
    simp only [HTTPRequest.next, hhandle]
    exact (HTTPRequest.handle_cases hhandle).1.trans h.flag
  | setFlag t fromCallback =>
    have hpc : s.client.pc t = .cancelling .setting fromCallback := he
    exact (hpc ▸ (h.client.of_not_quiet (t := t) (by rw [hpc]; exact id)).1).elim
  | _ => exact h.flag

/-- What the request has sent, after a step of its own. -/
theorem sent_client (h : Ok w os r₀ s) {e : HTTPRequest.Event τ}
    (he : HTTPRequest.Enabled w s.client e) :
    (next w s (.client e)).up.sent <+: r₀.requestBytes ∧
      ((next w s (.client e)).up.finished = true →
        (next w s (.client e)).up.sent = r₀.requestBytes) := by
  rw [next]
  unfold State.afterClient
  split
  next => exact ⟨h.sent, h.finished⟩
  next t buffer c shutdown =>
    split
    next hec =>
      have hpc : s.client.pc t = .handling (.write buffer) c := he.1
      have hworking := (h.client.of_not_quiet (t := t) (by rw [hpc]; exact id)).1
      rw [hpc] at hworking
      have hop : Completed w os r₀ s (.write buffer) c := hworking
      exact ⟨h.sent, fun _ => hop.ready.1⟩
    next => exact ⟨h.sent, h.finished⟩
  next => exact ⟨h.sent, h.finished⟩

/-- What the service does is no concern of the request, or ends what it reads. -/
theorem framed_service (w : ULong) (s : State τ) (e : HttpService.Event) :
    Framed s (next w s (.service e)) := by
  have hkeep (service : Option HttpService.State) (upTaken : ℕ) :
      Framed s { s with service, upTaken } :=
    ⟨rfl, fun _ h => h, id, rfl, rfl, rfl, fun _ hf => hf, rfl⟩
  rw [next]
  cases s.service with
  | none => exact hkeep s.service s.upTaken
  | some v =>
    cases e with
    | complete op c => exact hkeep _ _
    | handle op c os =>
      simp only [Option.elim_some, State.afterService, closed]
      split
      · exact ⟨rfl, fun _ h => h, id, rfl, rfl, rfl, fun _ hf _ => hf rfl, rfl⟩
      · exact hkeep _ s.upTaken

theorem client_service (w : ULong) (s : State τ) (e : HttpService.Event) :
    (next w s (.service e)).client = s.client ∧ (next w s (.service e)).up = s.up := by
  rw [next]
  cases s.service with
  | none => exact ⟨rfl, rfl⟩
  | some v => cases e <;> exact ⟨rfl, rfl⟩

omit [DecidableEq τ] in
/-- What may still arrive at the service, and the cut of the request that comes of it. -/
theorem exists_request {ρ : Type*} {run : List Bytes → Option ρ} {result : Option ρ}
    (h : Predicts run s.up fun _ => result) (hok : Ok w os r₀ s) :
    ∃ chunks, IsCut r₀.requestBytes chunks ∧ run chunks = result := by
  obtain ⟨rest, hrest⟩ := hok.sent
  have hmore : s.up.finished = true → s.up.inFlight = [] → s.up.inFlight ++ rest = [] := by
    intro hfinished hflight
    have hall : s.up.sent ++ rest = s.up.sent := hrest.trans (hok.finished hfinished).symm
    rw [hflight, List.nil_append]
    exact List.append_right_eq_self.mp hall
  obtain ⟨chunks, hcut, hrun⟩ := h.exists_cut _ hmore
  rw [← List.append_assoc, ← Channel.sent, hrest] at hcut
  exact ⟨chunks, hcut, hrun⟩

omit [DecidableEq τ] in
/-- **No handler of the service throws**: on some cut of the request its program would have. -/
theorem handle_ne_error (hsound : Sound os r₀) (h : Ok w os r₀ s) (hv : s.service = some v)
    (hmem : (⟨op, some c⟩ : Pending ServiceOp) ∈ v.outstanding) (e : Exception) :
    v.service.handle os op c.ec c.received ≠ .error e := by
  intro hthrows
  cases h.service.of_some hv with
  | read op' c' hop hs hcode hout hdeleted hdown htaken hpredicts =>
    rw [hout, List.mem_singleton] at hmem
    cases hmem
    have hstop := hpredicts.stop (HttpService.program_of_error hop hthrows)
    obtain ⟨chunks, hcut, hserve⟩ := exists_request hstop h
    exact HttpService.serve_ne_escaped hsound.calls hcut hserve
  | written buffers c' hout =>
    rw [hout, List.mem_singleton] at hmem
    cases hmem
    rw [HttpService.handle, HttpService.onResponseSent,
      if_neg (not_not.mpr hsound.calls.both)] at hthrows
    cases hthrows
  | reading _ _ _ _ hout | writing _ hout | gone _ hout => simp [hout] at hmem

/-- A step of the service. -/
theorem serviceOk_service (hsound : Sound os r₀) (h : Ok w os r₀ s) (hv : s.service = some v)
    {e : HttpService.Event} (he : HttpService.Enabled v e) (hp : ServiceProceeds os s v e) :
    ServiceOk os (next w s (.service e)) := by
  have hserving := h.service.of_some hv
  simp only [next, hv, Option.elim_some]
  cases e with
  | complete op c => exact .accepted _ rfl (hserving.complete he hp.1 hp.2)
  | handle op c os' =>
    obtain rfl : os' = os := hp
    exact .accepted _ rfl (hserving.handle (handle_ne_error hsound h hv he) he)

/-- **A step keeps all this.** -/
theorem ok_next (hsound : Sound os r₀) (h : Ok w os r₀ s) {e : Event τ}
    (he : Enabled w os s e) : Ok w os r₀ (next w s e) := by
  cases e with
  | client e =>
    exact ⟨flag_client h he.1, h.client.client hsound.executes hsound.fresh.requestBuf hsound.send
      h.flag he.1 he.2, (sent_client h he.1).1, (sent_client h he.1).2,
      h.service.frame (.client w s e)⟩
  | transmit buffer n =>
    obtain ⟨hmem, -, -⟩ := he
    obtain ⟨hbuffer, hsent, hopen, -⟩ := (h.client.of_inFlight hmem).1.ready
    refine ⟨h.flag, h.client.transmit hmem, hbuffer ▸ Channel.transmit_sent_prefix hsent n,
      fun hfinished => ?_, h.service.frame ⟨rfl, rfl, ?_, rfl, id, rfl, rfl⟩⟩
    · exact absurd (hopen.symm.trans hfinished) (by decide)
    · exact fun _ _ hfinished => absurd (hopen.symm.trans hfinished) (by decide)
  | arrive op n =>
    refine ⟨h.flag, h.client.arrive he.1 he.2, h.sent, h.finished,
      h.service.frame ⟨rfl, rfl, fun _ hf => hf, rfl, fun hdown => receive_empty hdown n,
        Channel.sent_receive _ n, rfl⟩⟩
  | accept =>
    obtain ⟨hnone, -⟩ := he
    have hframed : Framed s (next w s .accept) :=
      ⟨rfl, fun _ hm => hm, id, rfl, rfl, rfl, fun _ hf => hf, rfl⟩
    refine ⟨h.flag, h.client.frame hframed rfl, h.sent, h.finished, .accepted .start rfl ?_⟩
    cases h.service with
    | unaccepted _ hreceived htaken hdown =>
      refine .reading .readRequestLine (fun _ hw => by cases hw) ⟨rfl, rfl⟩ rfl rfl rfl hdown
        (by simp [next, htaken]) ?_
      have hstart : Predicts (HttpService.serve os) s.up (HttpService.serve os) :=
        .start hreceived
      have hnext := Predicts.initiate <| hstart.congr
        fun future _ => congrFun (funext (HttpService.serve_eq_program os)) future
      rw [hreceived, List.length_nil, ← htaken] at hnext
      exact hnext
    | accepted v hservice => cases hservice.symm.trans hnone
  | service e =>
    obtain ⟨v, hv, he, hp⟩ := he
    obtain ⟨hclient, hup⟩ := client_service w s e
    exact ⟨hclient ▸ h.flag, h.client.frame (framed_service w s e) hclient, hup ▸ h.sent,
      hup ▸ h.finished, serviceOk_service hsound h hv he hp⟩
  | serviceArrive op n =>
    obtain ⟨v, hv, hmem, hn⟩ := he
    have hframed : Framed s (next w s (.serviceArrive op n)) :=
      ⟨rfl, fun _ hm => hm, fun hup => receive_empty hup n, Channel.sent_receive _ n, rfl, rfl,
        fun _ hf => hf, rfl⟩
    refine ⟨h.flag, h.client.frame hframed rfl, hframed.upSent ▸ h.sent, fun hfinished => ?_,
      .accepted v hv ((h.service.of_some hv).arrive hmem hn)⟩
    exact hframed.upSent.trans (h.finished hfinished)
  | serviceTransmit buffers n =>
    obtain ⟨v, hv, hmem, -, -⟩ := he
    have hserving := h.service.of_some hv
    have hopen : s.down.finished = false := by
      cases hserving with
      | writing _ _ _ hopen => exact hopen
      | written _ _ _ _ hopen => exact hopen
      | reading _ _ _ _ _ _ hdown | read _ _ _ _ _ _ _ hdown => rw [hdown]
      | gone _ hout => simp [hout] at hmem
    have hframed : Framed s (next w s (.serviceTransmit buffers n)) :=
      ⟨rfl, fun _ hm => hm, id, rfl, rfl, rfl,
        fun _ _ hfinished => absurd (hopen.symm.trans hfinished) (by decide), rfl⟩
    exact ⟨h.flag, h.client.frame hframed rfl, h.sent, h.finished,
      .accepted v hv (hserving.transmit n hmem)⟩

theorem ok (hsound : Sound os r₀) (h : (machine w os).Runs (.start r₀ t₀) s) : Ok w os r₀ s :=
  h.invariant (ok_start hsound t₀) fun _ _ _ hs he => ok_next hsound hs he

/-! ## The whole -/

omit [DecidableEq τ] in
/-- **What the service has sent** is the beginning of its answer to some cut of the request, and all
of it once it has ended its stream. -/
theorem exists_answer (h : Ok w os r₀ s) : ∃ chunks, IsCut r₀.requestBytes chunks ∧
    ∃ more, answerOf (HttpService.serve os chunks) = s.down.sent ++ more ∧
      (s.down.finished = true → more = []) := by
  have hidle (hdown : s.down = {}) : ∃ chunks, IsCut r₀.requestBytes chunks ∧
      ∃ more, answerOf (HttpService.serve os chunks) = s.down.sent ++ more ∧
        (s.down.finished = true → more = []) := by
    set chunks := Segmentation.whole.cut r₀.requestBytes
    refine ⟨chunks, Segmentation.whole.isCut r₀.requestBytes,
      answerOf (HttpService.serve os chunks), ?_, fun hfinished => ?_⟩
    · rw [hdown]
      rfl
    · rw [hdown] at hfinished
      cases hfinished
  cases h.service with
  | unaccepted _ _ _ hdown => exact hidle hdown
  | accepted v _ hv =>
    cases hv with
    | reading _ _ _ _ _ _ hdown | read _ _ _ _ _ _ _ hdown => exact hidle hdown
    | writing buffers _ _ hopen hsent hpredicts =>
      obtain ⟨chunks, hcut, hrun⟩ := exists_request hpredicts h
      obtain ⟨more, hmore⟩ := hsent
      refine ⟨chunks, hcut, more, ?_, fun hfinished => ?_⟩
      · rw [hrun, hmore]
        rfl
      · exact absurd (hopen.symm.trans hfinished) (by decide)
    | written buffers c _ _ hopen hsent hpredicts =>
      obtain ⟨chunks, hcut, hrun⟩ := exists_request hpredicts h
      refine ⟨chunks, hcut, [], ?_, fun _ => rfl⟩
      rw [hrun, List.append_nil, hsent]
      rfl
    | gone served _ _ _ hsent _ hpredicts =>
      obtain ⟨chunks, hcut, hrun⟩ := exists_request hpredicts h
      refine ⟨chunks, hcut, [], ?_, fun _ => rfl⟩
      rw [hrun, List.append_nil, hsent]
      rfl

/-- One cut of the request and one of its answer, as segmentations. -/
theorem answers_ofCut {request : Bytes} {up down : List Bytes} (hup : IsCut request up)
    (hdown : IsCut (answerOf (HttpService.serve os up)) down) :
    HttpService.answers os (.ofCut hup) (.ofCut hdown) request = down := by
  have hnil : answerOf (HttpService.serve os up) = [] → down = [] := fun hanswer => by
    have hflatten := hdown.flatten
    rw [hanswer, List.flatten_eq_nil_iff] at hflatten
    exact List.eq_nil_iff_forall_not_mem.mpr fun chunk hchunk =>
      hdown.ne_nil_of_mem chunk hchunk (hflatten chunk hchunk)
  rw [HttpService.answers, Segmentation.ofCut_cut]
  split
  next svc sent hserve =>
    have hanswer : answerOf (HttpService.serve os up) = sent := by
      rw [hserve]
      rfl
    exact (congrArg _ hanswer.symm).trans (Segmentation.ofCut_cut hdown)
  next hnone =>
    refine (hnil ?_).symm
    cases hserve : HttpService.serve os up with
    | none => rfl
    | some served =>
      cases served with
      | answered svc sent => exact absurd hserve (hnone svc sent)
      | dropped | escaped e => rfl

/-- **The callback is given what the request's run comes to**, for one cut of what the service reads
and one of what it answers: the interleaving of the two ends and their threads makes no other
difference. -/
theorem callback_eq_run {t₀ : τ} (hsound : Sound os r₀)
    (h : (machine w os).Runs (.start r₀ t₀) s) {cb : HTTPRequest.Callback}
    (hcb : cb ∈ s.client.callbacks) : ∃ up down : Segmentation,
      r₀.run w os.shutdownSend (HttpService.answers os up down) = some (cb.ec, cb.request) := by
  have hok := ok hsound h
  obtain ⟨up, hup, more, hanswer, hmore⟩ := exists_answer hok
  have hpredicts : Predicts (clientRun w os r₀) s.down fun _ => some (cb.ec, cb.request) := by
    cases hok.client with
    | calledBack cb' _ hcb' _ _ hcallbacks =>
      rw [hcallbacks, List.mem_singleton] at hcb
      rwa [hcb]
    | working _ _ _ _ hcallbacks | inFlight _ _ _ _ hcallbacks | completed _ _ _ _ _ hcallbacks =>
      simp [hcallbacks] at hcb
  obtain ⟨down, hdown, hrun⟩ := hpredicts.exists_cut (s.down.inFlight ++ more)
    fun hfinished hflight => by rw [hflight, hmore hfinished, List.nil_append]
  rw [← List.append_assoc, ← Channel.sent, ← hanswer] at hdown
  refine ⟨.ofCut hup, .ofCut hdown, ?_⟩
  rw [HTTPRequest.run_eq_program hsound.executes hsound.fresh.requestBuf hsound.send,
    answers_ofCut hup hdown]
  exact hrun

end Machine

end HttpDialogue

end AsioSamples
