import AsioSamples.Http.Cancellation
import AsioSamples.Http.Draining
import AsioSamples.Http.HeaderBlock

/-!
# Http/Failures — calls that fail inside a handler

`on_request_sent`, `send_response` and `on_response_sent` shut a socket down, `process_request` asks
`fs::exists` and allocates a buffer, all five without an `error_code` argument.  A failure is then an
exception that nothing on the way to `io_context::run` catches, and it takes the callback, or the
`delete this`, with it.  As long as none of these calls fails, and the header loop of
`on_headers_received` is given nothing that it never leaves, every run ends, with the request called
back and the service deleted, once (`failures_end_request`).
-/

namespace AsioSamples

/-! ## What the two ends owe -/

namespace HTTPRequest

variable {τ : Type*} [DecidableEq τ] {w : ULong} {r : HTTPRequest} {t₀ t : τ} {s s' : State τ}

/-- **An exception leaves a handler of `HTTPRequest`** exactly when the call it makes fails. -/
theorem escapes_iff {op : AsyncOp} {c : Completion} {shutdown : ErrorCode}
    (he : Enabled w s (.handle t op c shutdown)) :
    (∃ ec, (next w s (.handle t op c shutdown)).pc t = .escaped ec)
      ↔ ¬ CallsSucceed s (.handle t op c shutdown) := by
  obtain ⟨-, hsome⟩ := he
  obtain ⟨⟨r, ctl⟩, hctl⟩ := Option.isSome_iff_exists.mp hsome
  have hthrows := @handle_throws_iff w shutdown s.request op c
  simp only [hctl, Option.some.injEq, Prod.mk.injEq] at hthrows
  constructor
  · rintro ⟨ec, hec⟩ hcalls
    cases ctl with
    | throws ec' =>
      obtain ⟨⟨buffer, rfl⟩, hzero, hshut⟩ := hthrows.mp ⟨r, ec', rfl, rfl⟩
      exact hshut (hcalls hzero)
    | finish ec' | lock op' => simp [next, hctl, State.goto, Pc.after] at hec
  · intro hcalls
    cases op with
    | write buffer =>
      obtain ⟨hzero, hshut⟩ := Classical.not_imp.mp hcalls
      obtain ⟨-, ec, -, rfl⟩ := hthrows.mpr ⟨⟨buffer, rfl⟩, hzero, hshut⟩
      exact ⟨ec, by simp [next, hctl, State.goto, Pc.after]⟩
    | _ => exact absurd trivial hcalls

/-- The headers that are received end where the header loop leaves. -/
def HeadersLeft (s : State τ) : Event τ → Prop
  | .complete .readHeaders c =>
    c.ec.value = 0 → HeadersEnd (s.request.response.responseBuf ++ c.received)
  | _ => True

instance (s : State τ) (e : Event τ) : Decidable (HeadersLeft s e) :=
  match e with
  | .complete .readHeaders _ => inferInstanceAs (Decidable (_ → _))
  | .complete (.resolve ..) _ | .complete .connect _ | .complete (.write _) _
  | .complete .readStatusLine _ | .complete .readBody _ | .execute _ | .call .. | .handle ..
  | .lock .. | .test .. | .initiate .. | .leave _ | .unlock _ | .callback .. | .callbackReturns _
  | .cancel .. | .cancelLock .. | .setFlag .. | .abort .. | .abortThrows .. | .cancelUnlock .. =>
    inferInstanceAs (Decidable True)

/-- No call that a handler makes fails, and no handler is made to run for ever. -/
def HandlersReturn (s : State τ) (e : Event τ) : Prop := CallsSucceed s e ∧ HeadersLeft s e

/-- …and no new `cancel()` begins. -/
def Onward (s : State τ) (e : Event τ) : Prop :=
  HandlersReturn s e ∧ ∀ t fromCallback, e ≠ .cancel t fromCallback

omit [DecidableEq τ] in
theorem Onward.handlersReturn {e : Event τ} (h : Onward s e) : HandlersReturn s e := h.1

/-- `execute` can begin, and `on_headers_received` can end. -/
structure Viable (s : State τ) : Prop where
  executes : ∀ t, s.pc t = .executing → s.request.execute.isSome
  queued : ∀ c, ⟨.readHeaders, some c⟩ ∈ s.outstanding → c.ec.value = 0 →
    HeadersEnd (s.request.response.responseBuf ++ c.received)
  handling : ∀ t c, s.pc t = .handling .readHeaders c → c.ec.value = 0 →
    HeadersEnd (s.request.response.responseBuf ++ c.received)

theorem viable_start (hexec : r.execute.isSome) (t₀ : τ) : Viable (State.start r t₀) := by
  refine ⟨fun _ _ => hexec, fun c hc => (by cases hc), fun t c ht => ?_⟩
  rcases update_eq_or (fun _ => Pc.idle) t₀ Pc.executing t with hidle | hexecuting
  · cases ht.symm.trans hidle
  · cases ht.symm.trans hexecuting

/-- A step of one thread, to a point at which it can go on, that changes nothing of this. -/
theorem Viable.keep (h : Viable s) {x : Pc} (hpc : s'.pc = Function.update s.pc t x)
    (hexecuting : x ≠ .executing) (hhandling : ∀ c, x ≠ .handling .readHeaders c)
    (hexec : s'.request.execute = s.request.execute)
    (hbuf : s'.request.response.responseBuf = s.request.response.responseBuf)
    (hqueued : ∀ c, ⟨.readHeaders, some c⟩ ∈ s'.outstanding → c.ec.value = 0 →
      (⟨.readHeaders, some c⟩ : Pending AsyncOp) ∈ s.outstanding) : Viable s' := by
  refine ⟨fun u hu => ?_, fun c hc hec => ?_, fun u c hu hec => ?_⟩
  · rw [hexec]
    rw [hpc] at hu
    exact h.executes u (eq_of_update_eq hu hexecuting)
  · rw [hbuf]
    exact h.queued c (hqueued c hc hec) hec
  · rw [hbuf]
    rw [hpc] at hu
    exact h.handling u c (eq_of_update_eq hu (hhandling c)) hec

/-- The handler of a thread is the only thing there is of the request. -/
theorem Viable.of_handle (hsingle : Single s) (ht : (s.pc t).carries = true) {x : Pc}
    (hpc : s'.pc = Function.update s.pc t x) (hx : x ≠ .executing)
    (hhandling : ∀ c, x ≠ .handling .readHeaders c) (hout : s'.outstanding = s.outstanding) :
    Viable s' := by
  obtain ⟨-, hnil, -, honly⟩ := hsingle.of_carries ht
  have hother {u : τ} {p : Pc} (hu : s'.pc u = p) (hp : p.carries = true) : p = x := by
    rw [hpc] at hu
    rcases update_eq_or s.pc t x u with hsame | hnew
    · obtain rfl := (honly u).mp (by rw [← hsame, hu]; exact hp)
      rw [Function.update_self] at hu
      exact hu.symm
    · exact hu.symm.trans hnew
  refine ⟨fun u hu => absurd (hother hu rfl).symm hx, fun c hc => ?_, fun u c hu =>
    absurd (hother hu rfl).symm (hhandling c)⟩
  rw [hout, List.length_eq_zero_iff.mp hnil] at hc
  cases hc

/-- A cancelled operation has no headers. -/
theorem queued_of_cancel {ops : List (Pending AsyncOp)} {reached : Bool} {c : Completion}
    (h : ⟨.readHeaders, some c⟩ ∈ Pending.cancel reached ops) (hec : c.ec.value = 0) :
    (⟨.readHeaders, some c⟩ : Pending AsyncOp) ∈ ops := by
  cases reached
  · exact h
  · obtain ⟨⟨op, result⟩, hp, habort⟩ := List.mem_map.mp h
    cases result with
    | none =>
      cases habort
      exact absurd hec (by decide)
    | some c' =>
      cases habort
      exact hp

theorem viable_next {e : Event τ} (h : Viable s) (hsingle : Single s) (he : Enabled w s e)
    (hheaders : HeadersLeft s e) : Viable (next w s e) := by
  cases e with
  | execute t =>
    simp only [next, (execute_eq_of_isSome he.2).1]
    exact h.keep rfl (by simp [Pc.after]) (by simp [Pc.after]) rfl rfl fun _ hc _ => hc
  | complete op c =>
    refine ⟨h.executes, fun c' hc' hec => ?_, h.handling⟩
    rcases Pending.mem_complete hc' with hmem | heq
    · exact h.queued c' hmem hec
    · cases heq
      exact hheaders hec
  | call t op c =>
    obtain ⟨-, hmem⟩ := he
    refine ⟨fun u hu => ?_, fun c' hc' => h.queued c' (List.mem_of_mem_erase hc'), fun u c' hu => ?_⟩
    · exact h.executes u (eq_of_update_eq hu (by simp))
    · rcases update_eq_or s.pc t (.handling op c) u with hsame | hnew
      · exact h.handling u c' (hsame.symm.trans hu)
      · cases hnew.symm.trans hu
        exact h.queued c hmem
  | handle t op c shutdown =>
    obtain ⟨hpc, hsome⟩ := he
    obtain ⟨⟨r, ctl⟩, hctl⟩ := Option.isSome_iff_exists.mp hsome
    simp only [next, hctl]
    refine .of_handle hsingle (by rw [hpc]; rfl) rfl ?_ ?_ rfl
    · cases ctl <;> simp [Pc.after]
    · cases ctl <;> simp [Pc.after]
  | test t op =>
    refine h.keep rfl ?_ ?_ rfl rfl fun _ hc _ => hc
    · split <;> simp
    · split <;> simp
  | initiate t op =>
    refine h.keep rfl (by simp) (by simp) rfl rfl fun c hc _ => ?_
    exact (List.mem_append.mp hc).resolve_right (by simp)
  | abort t fromCallback reached | abortThrows t fromCallback reached ec =>
    exact h.keep rfl (by simp) (by simp) rfl rfl fun c hc hec => queued_of_cancel hc hec
  | cancelUnlock t fromCallback =>
    refine h.keep rfl ?_ ?_ rfl rfl fun _ hc _ => hc
    · cases fromCallback <;> simp [Pc.caller]
    · cases fromCallback <;> simp [Pc.caller]
  | _ => exact h.keep rfl (by simp) (by simp) rfl rfl fun _ hc _ => hc

theorem single (h : ((machine w).restrict HandlersReturn).Runs (.start r t₀) s) : Single s :=
  baton (h.restrict_mono fun _ _ he => he.1)

theorem viable (hexec : r.execute.isSome)
    (h : ((machine w).restrict HandlersReturn).Runs (.start r t₀) s) : Viable s :=
  h.invariant (viable_start hexec t₀) fun _ _ hr hs he => viable_next hs (single hr) he.1 he.2.2

/-- **Every run ends** in which no new `cancel()` begins. -/
theorem terminates (h : ((machine w).restrict HandlersReturn).Runs (.start r t₀) s) :
    ((machine w).restrict Onward).Terminates s :=
  Machine.terminates_of_variant remaining fun _ _ hr he =>
    remaining_next (finite_rank (h.of_restrict.trans hr.of_restrict)) he.1 he.2.2

/-- **Where a run has ended the callback has been invoked**, if a thread is free to call handlers. -/
theorem calledBack_of_stuck (hexec : r.execute.isSome)
    (h : ((machine w).restrict HandlersReturn).Runs (.start r t₀) s)
    (hstuck : ((machine w).restrict Onward).Stuck s) (hidle : ∃ t, s.pc t = .idle) :
    s.callbacks.length = 1 := by
  have hviable := viable hexec h
  have hsingle := single h
  have hno (t : τ) : ¬ CanGoOn w s t := by
    rintro ⟨e, ht, hcall, -, he, hthrow⟩
    refine hstuck e ⟨he, ⟨hthrow.callsSucceed, ?_⟩, ?_⟩
    · cases e with
      | complete op c => cases ht
      | _ => trivial
    · rintro t fromCallback rfl
      cases hcall
  have hhung : ¬ s.Hung := by
    rintro ⟨t, c, ht, hec, hloop⟩
    obtain ⟨lines, more, hlines, hbuf, hend⟩ := hviable.handling t c ht hec
    obtain ⟨l, hl, -⟩ := leaves_of_headersEnd (r := s.request.withResponseBuf
      (s.request.response.responseBuf ++ c.received)) hlines hend hbuf
    exact hloop ⟨l, hl⟩
  by_cases hcarries : ∃ t, (s.pc t).carries = true
  · -- whoever is at work can go on, or waits for a thread that can
    exfalso
    obtain ⟨t, ht⟩ := hcarries
    rcases Pc.of_carries ht with hpc | ⟨hfree, hcontained⟩
    · exact hstuck (.execute t) ⟨⟨hpc, hviable.executes t hpc⟩, ⟨trivial, trivial⟩, by simp⟩
    · rcases exists_canGoOn (guards h.of_restrict) hcontained hfree with ⟨u, -, hgo⟩ | hhangs
      · exact hno u hgo
      · exact hhung hhangs
  · have hnone (t : τ) : ¬ (s.pc t).carries = true := fun ht => hcarries ⟨t, ht⟩
    rcases hsingle.of_idle hnone with ⟨hone, -⟩ | ⟨-, hcalled⟩
    · exfalso
      obtain ⟨⟨op, result⟩, hout⟩ := List.length_eq_one_iff.mp hone
      have hmem : (⟨op, result⟩ : Pending AsyncOp) ∈ s.outstanding := by simp [hout]
      cases result with
      | none =>
        refine hstuck (.complete op ⟨.eof, []⟩) ⟨hmem, ⟨trivial, ?_⟩, by simp⟩
        cases op with
        | readHeaders => exact fun hec => absurd hec (by decide)
        | _ => trivial
      | some c =>
        obtain ⟨t, ht⟩ := hidle
        exact hstuck (.call t op c) ⟨⟨ht, hmem⟩, ⟨trivial, trivial⟩, by simp⟩
    · exact hcalled

/-- The request calls back at most once; and every run on from here, as long as no new `cancel()`
begins, ends with its having done so. -/
structure Accounted (w : ULong) (s : State τ) : Prop where
  atMostOnce : s.callbacks.length ≤ 1
  terminates : ((machine w).restrict Onward).Terminates s
  calledBack : ∀ s', ((machine w).restrict Onward).Runs s s' →
    ((machine w).restrict Onward).Stuck s' → (∃ t, s'.pc t = .idle) → s'.callbacks.length = 1

theorem accounted (hexec : r.execute.isSome)
    (h : ((machine w).restrict HandlersReturn).Runs (.start r t₀) s) : Accounted w s where
  atMostOnce := by
    have hone := (single h).le_one
    omega
  terminates := terminates h
  calledBack s' hr hstuck hidle := by
    have hall := h.trans (hr.restrict_mono fun _ _ he => he.handlersReturn)
    exact calledBack_of_stuck hexec hall hstuck hidle

end HTTPRequest

namespace HttpService

/-- **Every run ends.** -/
theorem terminates (s : State) : (machine.restrict NoThrow).Terminates s :=
  Machine.terminates_of_variant remaining fun _ _ _ he => remaining_next he.1

/-- Nothing leaves a handler; the service is deleted at most once; and every run on from here ends
with its having been. -/
structure Accounted (s : State) : Prop where
  contained : s.escaped = []
  atMostOnce : s.deleted ≤ 1
  terminates : (machine.restrict NoThrow).Terminates s
  deleted : ∀ s', (machine.restrict NoThrow).Runs s s' → (machine.restrict NoThrow).Stuck s' →
    s'.deleted = 1

/-- A service that is not deleted has an operation to complete, or a handler to run. -/
theorem deleted_of_stuck {s : State} (h : (machine.restrict NoThrow).Runs .start s)
    (hstuck : (machine.restrict NoThrow).Stuck s) : s.deleted = 1 := by
  have hcalls : ∀ op ec, CallsSucceed (HTTPRequest.manualHtml []) s.service op ec :=
    callsSucceed_manualHtml (by decide) s.service
  have hnil : s.outstanding = [] := by
    refine List.eq_nil_iff_forall_not_mem.mpr fun p hp => ?_
    obtain ⟨op, result⟩ := p
    cases result with
    | none => exact hstuck (.complete op ⟨.success, []⟩) ⟨hp, trivial⟩
    | some c => exact hstuck (.handle op c (HTTPRequest.manualHtml [])) ⟨hp, hcalls op c.ec⟩
  cases life h with
  | reading hop hs hcode hout | writing hresponse hout =>
    rw [hout] at hnil
    cases hnil
  | gone hresponse hout hdeleted => exact hdeleted

theorem accounted {s : State} (h : (machine.restrict NoThrow).Runs .start s) : Accounted s := by
  obtain ⟨hone, hescaped⟩ : s.deleted ≤ 1 ∧ s.escaped = [] := by
    cases life h with
    | reading hop hs hcode hout hdeleted hwrites hescaped => exact ⟨by omega, hescaped⟩
    | writing hresponse hout hdeleted hwrites hescaped => exact ⟨by omega, hescaped⟩
    | gone hresponse hout hdeleted hwrites hescaped => exact ⟨by omega, hescaped⟩
  exact ⟨hescaped, hone, terminates s, fun s' hr hstuck => deleted_of_stuck (h.trans hr) hstuck⟩

end HttpService

/-! ## Where no call fails -/

/-- **Where no call fails and no handler runs for ever**, nothing escapes and both ends finish. -/
theorem failures_end_request {τ : Type*} [DecidableEq τ] {w : ULong} {r : HTTPRequest} {t₀ : τ}
    {s : HTTPRequest.State τ} {s' : HttpService.State} (hexec : r.execute.isSome)
    (h : ((HTTPRequest.machine w).restrict HTTPRequest.HandlersReturn).Runs (.start r t₀) s)
    (h' : (HttpService.machine.restrict HttpService.NoThrow).Runs .start s') :
    (∀ t op c shutdown, HTTPRequest.Enabled w s (.handle t op c shutdown) →
      ((∃ ec, (HTTPRequest.next w s (.handle t op c shutdown)).pc t = .escaped ec)
        ↔ ¬ HTTPRequest.CallsSucceed s (.handle t op c shutdown))) ∧
    HTTPRequest.Accounted w s ∧ HttpService.Accounted s' :=
  ⟨fun _ _ _ _ he => HTTPRequest.escapes_iff he, HTTPRequest.accounted hexec h,
    HttpService.accounted h'⟩

theorem failures_end_request_simpleScenario :
    ∃ (s : HTTPRequest.State Bool) (s' : HttpService.State),
      ((HTTPRequest.machine .bits64).restrict HTTPRequest.HandlersReturn).Runs
        (.start HTTPRequest.simpleScenario true) s ∧
      (HttpService.machine.restrict HttpService.NoThrow).Runs .start s' ∧
      HTTPRequest.Accounted .bits64 s ∧ s.callbacks.length = 1 ∧
      HttpService.Accounted s' ∧ s'.deleted = 1 := by
  obtain ⟨s, hs, hcalled⟩ := Machine.exists_runs_of_exec
    (m := (HTTPRequest.machine .bits64).restrict
      fun s e => HTTPRequest.NoThrow s e ∧ HTTPRequest.HeadersLeft s e)
    (s := .start HTTPRequest.simpleScenario true) (Q := fun s => s.callbacks.length = 1)
    (HTTPRequest.simpleScenarioToBody ++ HTTPRequest.handlingBy true .readBody ⟨.eof, []⟩
      ++ [.callback true .success]) (by decide +kernel)
  obtain ⟨s', hs', hdeleted, -⟩ := HttpService.exists_runs_simpleScenario
  have hreturn := hs.restrict_mono (Q := HTTPRequest.HandlersReturn) fun _ _ he =>
    ⟨he.1.callsSucceed, he.2⟩
  obtain ⟨-, hcalledBack, hgone⟩ := failures_end_request (by decide) hreturn hs'
  exact ⟨s, s', hreturn, hs', hcalledBack, hcalled, hgone, hdeleted⟩

/-! ## Where one does -/

/-- `ENOTCONN`, as the operating system reports it for a connection that the peer has reset. -/
def notConnected : ErrorCode := ⟨107, "system"⟩

/-- The operating system of a host where nothing is under any path and shutdowns fail. -/
def peerGone : Os where
  shutdownSend := notConnected
  shutdownReceive := notConnected
  shutdownBoth := notConnected
  fs _ := .missing

/-- The peer resets the connection right after the request has been sent, or right after it has
sent a request: the callback is not invoked, and the service is not deleted. -/
theorem exists_handlers_escape :
    (∃ s : HTTPRequest.State Bool,
      (HTTPRequest.machine .bits64).Runs (.start HTTPRequest.simpleScenario true) s ∧
        s.pc true = .escaped notConnected ∧ s.pc false = .idle ∧ s.outstanding = [] ∧
        s.callbacks.length = 0) ∧
    ∃ s, HttpService.machine.Runs .start s ∧ s.escaped = [.systemError notConnected] ∧
      s.outstanding = [] ∧ s.deleted = 0 := by
  refine ⟨Machine.exists_runs_of_exec (m := HTTPRequest.machine .bits64)
    (s := .start HTTPRequest.simpleScenario true)
    (Q := fun s => s.pc true = .escaped notConnected ∧ s.pc false = .idle ∧ s.outstanding = [] ∧
      s.callbacks.length = 0)
    ([.execute true] ++ HTTPRequest.initiatingBy true HTTPRequest.simpleScenarioResolve
      ++ HTTPRequest.handlingBy true HTTPRequest.simpleScenarioResolve ⟨.success, []⟩
      ++ HTTPRequest.initiatingBy true .connect
      ++ HTTPRequest.handlingBy true .connect ⟨.success, []⟩
      ++ HTTPRequest.initiatingBy true (.write HTTPRequest.simpleScenario.requestBytes)
      ++ [.complete (.write HTTPRequest.simpleScenario.requestBytes) ⟨.success, []⟩,
        .call true (.write HTTPRequest.simpleScenario.requestBytes) ⟨.success, []⟩,
        .handle true (.write HTTPRequest.simpleScenario.requestBytes) ⟨.success, []⟩ notConnected])
    (by decide +kernel), ?_⟩
  refine Machine.exists_runs_of_exec (m := HttpService.machine) (s := .start)
    (Q := fun s => s.escaped = [.systemError notConnected] ∧ s.outstanding = [] ∧ s.deleted = 0)
    (HttpService.handleBy .readRequestLine
        ⟨.success, HTTPRequest.simpleScenario.requestBytes⟩ peerGone
      ++ HttpService.handleBy .readHeaders ⟨.success, []⟩ peerGone) (by decide +kernel)

end AsioSamples
