import AsioSamples.Http.Draining
import AsioSamples.Http.Interleaving

/-!
# Http/RoundTrip — every dialogue ends, and how

The service's steps are few, and between two of them only so many bytes can move and so many threads
go on: every run ends (`terminates`).  When nothing more can happen the callback has been invoked,
once, the service has been deleted, once, and what `Http/Outcome` says of one run on one cut of each
stream is what has come of the interleaving (`dialogue_ends`).
-/

namespace AsioSamples

namespace HttpDialogue

section RoundTrip

variable {τ : Type*} {w : ULong} {os : Os} {r₀ : HTTPRequest} {s s' : State τ} {t t₀ : τ}
  {v : HttpService.State}

/-! ## How much is left to do -/

/-- What is left to do for the service; one that does not exist yet has to be accepted first. -/
def serviceRank (service : Option HttpService.State) : ℕ := service.elim 7 HttpService.remaining

/-- What the service is sending. -/
def outgoing (service : Option HttpService.State) : Bytes :=
  service.elim [] fun v => (v.outstanding.head?.bind fun p => p.op.buffer).getD []

/-- What is left to do: first of all for the service, which may come to have more to send. -/
noncomputable def variant (r₀ : HTTPRequest) (s : State τ) : ℕ × ℕ :=
  (serviceRank s.service,
    HTTPRequest.remaining s.client + s.up.toGo r₀.requestBytes + s.down.toGo (outgoing s.service))

/-- One step further. -/
abbrev Before : ℕ × ℕ → ℕ × ℕ → Prop := Prod.Lex (· < ·) (· < ·)

theorem before_of_work (hservice : s'.service = s.service)
    (h : HTTPRequest.remaining s'.client + s'.up.toGo r₀.requestBytes
        + s'.down.toGo (outgoing s.service)
      < HTTPRequest.remaining s.client + s.up.toGo r₀.requestBytes
        + s.down.toGo (outgoing s.service)) :
    Before (variant r₀ s') (variant r₀ s) := by
  rw [variant, variant, hservice]
  exact Prod.Lex.right _ h

/-! ## The request goes on -/

variable [DecidableEq τ]

/-- What is known of the two ends and of the threads. -/
structure Reached (w : ULong) (os : Os) (r₀ : HTTPRequest) (s : State τ) : Prop where
  ok : Ok w os r₀ s
  guarded : HTTPRequest.Guarded s.client
  finite : (fun t => HTTPRequest.Pc.rank (s.client.pc t)).support.Finite

/-- Only the request's own steps change it. -/
theorem client_of_ne (w : ULong) (s : State τ) {e : Event τ} (he : ∀ e', e ≠ .client e') :
    (next w s e).client = s.client := by
  cases e with
  | client e => exact absurd rfl (he e)
  | service e => exact (client_service w s e).1
  | _ => rfl

theorem reached (hsound : Sound os r₀) (h : (machine w os).Runs (.start r₀ t₀) s) :
    Reached w os r₀ s := by
  refine h.invariant ⟨ok_start hsound t₀, HTTPRequest.guarded_start r₀ t₀,
    HTTPRequest.finite_rank_start r₀ t₀⟩ fun s e _ hs he => ⟨ok_next hsound hs.ok he, ?_, ?_⟩
  · cases e with
    | client e =>
      change HTTPRequest.Guarded (next w s (.client e)).client
      rw [client_next]
      exact HTTPRequest.guarded_next hs.guarded he.1
    | _ =>
      change HTTPRequest.Guarded (next w s _).client
      rw [client_of_ne w s (by simp)]
      exact hs.guarded
  · cases e with
    | client e =>
      change (fun t => HTTPRequest.Pc.rank ((next w s (.client e)).client.pc t)).support.Finite
      rw [client_next]
      exact HTTPRequest.finite_rank_next hs.finite e
    | _ =>
      change (fun t => HTTPRequest.Pc.rank ((next w s _).client.pc t)).support.Finite
      rw [client_of_ne w s (by simp)]
      exact hs.finite

/-- **A step of the request** brings it further. -/
theorem remaining_client (h : Reached w os r₀ s) {e : HTTPRequest.Event τ}
    (he : HTTPRequest.Enabled w s.client e) (hp : Proceeds os s e) :
    HTTPRequest.remaining (HTTPRequest.next w s.client e) < HTTPRequest.remaining s.client := by
  refine HTTPRequest.remaining_next h.finite he ?_
  rintro t fromCallback rfl
  exact hp

/-- A step of the request moves no bytes. -/
theorem channels_client (w : ULong) (s : State τ) (e : HTTPRequest.Event τ) (message : Bytes) :
    (next w s (.client e)).up.toGo message = s.up.toGo message ∧
      (next w s (.client e)).down = s.down ∧ (next w s (.client e)).service = s.service := by
  rw [next]
  unfold State.afterClient
  split
  · exact ⟨rfl, rfl, rfl⟩
  · split
    · exact ⟨rfl, rfl, rfl⟩
    · exact ⟨rfl, rfl, rfl⟩
  · exact ⟨rfl, rfl, rfl⟩

/-! ## Every run ends -/

/-- **Every step brings the dialogue further.** -/
theorem variant_next (h : Reached w os r₀ s) {e : Event τ}
    (he : Enabled w os s e) : Before (variant r₀ (next w s e)) (variant r₀ s) := by
  cases e with
  | client e =>
    have hrank := remaining_client h he.1 he.2
    obtain ⟨hup, hdown, hservice⟩ := channels_client w s e r₀.requestBytes
    refine before_of_work hservice ?_
    rw [client_next, hup, hdown]
    omega
  | transmit buffer n =>
    obtain ⟨hmem, hpos, hle⟩ := he
    obtain ⟨hbuffer, -⟩ := (h.ok.client.of_inFlight hmem).1.ready
    subst hbuffer
    have hrank := Channel.toGo_transmit_lt hpos hle
    refine before_of_work rfl ?_
    simp only [next]
    omega
  | arrive op n =>
    obtain ⟨-, -, hpos, hle, -⟩ := he
    have hrank := Channel.toGo_receive_lt hpos hle (outgoing s.service)
    refine before_of_work rfl ?_
    simp only [next]
    omega
  | accept =>
    refine Prod.Lex.left _ _ ?_
    rw [he.1]
    exact show serviceRank (some .start) < serviceRank none by decide
  | service e =>
    obtain ⟨v, hv : s.service = some v, he, hp⟩ := he
    have hrank := HttpService.remaining_next he
    have hservice : (next w s (.service e)).service = some (HttpService.next v e) := by
      simp only [next, hv, Option.elim_some]
      cases e <;> rfl
    refine Prod.Lex.left _ _ ?_
    rwa [hservice, hv]
  | serviceArrive op n =>
    obtain ⟨v, -, -, -, hpos, hle, -⟩ := he
    have hrank := Channel.toGo_receive_lt hpos hle r₀.requestBytes
    refine before_of_work rfl ?_
    simp only [next]
    omega
  | serviceTransmit buffers n =>
    obtain ⟨v, hv, hmem, hpos, hle⟩ := he
    have hout : outgoing s.service = buffers.flatten := by
      cases h.ok.service.of_some hv with
      | writing buffers' hout =>
        rw [hout, List.mem_singleton] at hmem
        cases hmem
        rw [hv, outgoing, Option.elim_some, hout]
        rfl
      | reading op hop _ _ hout =>
        rw [hout, List.mem_singleton] at hmem
        cases hmem
        exact absurd rfl (hop buffers)
      | read _ _ _ _ _ hout | written _ _ hout | gone _ hout => simp [hout] at hmem
    have hrank := Channel.toGo_transmit_lt hpos hle
    refine before_of_work rfl ?_
    rw [hout]
    simp only [next]
    omega

/-- **Every run comes to an end.** -/
theorem terminates (hsound : Sound os r₀) (h : (machine w os).Runs (.start r₀ t₀) s) :
    (machine w os).Terminates s :=
  Machine.terminates_of_wellFounded (Prod.lex ⟨_, wellFounded_lt⟩ ⟨_, wellFounded_lt⟩).wf
    (variant r₀) fun _ _ h' he => variant_next (reached hsound (h.trans h')) he

/-! ## How a run ends -/

/-- **The service is deleted** when nothing more can happen, and has sent all of its answer. -/
theorem service_of_stuck (h : Ok w os r₀ s) (hstuck : (machine w os).Stuck s)
    (hasked : Asked r₀ s) : ∃ v served, s.service = some v ∧ v.outstanding = [] ∧ v.deleted = 1 ∧
      s.down.finished = true ∧ s.down.sent = served.sent ∧
      Predicts (HttpService.serve os) s.up fun _ => some served := by
  obtain ⟨-, hfinished, hconnect⟩ := hasked
  cases h.service with
  | unaccepted hservice => exact absurd ⟨hservice, hconnect⟩ (hstuck .accept)
  | accepted v hservice hv =>
    cases hv with
    | gone served hout hdeleted hend hsent hescaped hpredicts =>
      exact ⟨v, served, hservice, hout, hdeleted, hend, hsent, hpredicts⟩
    | read op c hop hs hcode hout | written buffers c hout =>
      exact absurd ⟨v, hservice, by rw [HttpService.Enabled, hout]; exact List.mem_singleton_self _,
        rfl⟩ (hstuck (.service (.handle _ c os)))
    | reading op hop hs hcode hout =>
      have hmem : (⟨op, none⟩ : Pending ServiceOp) ∈ v.outstanding := by simp [hout]
      have hnone : Sent s.down op.buffer := by
        cases op with
        | write buffers => exact absurd rfl (hop buffers)
        | readRequestLine | readHeaders => trivial
      rcases (v.service.wait op).progress s.up s.upTaken with ⟨c, hc⟩ | hn | ⟨-, -, hopen⟩
      · exact absurd ⟨v, hservice, hmem, hc, hnone⟩ (hstuck (.service (.complete op c)))
      · exact absurd ⟨v, hservice, hmem, hn⟩ (hstuck (.serviceArrive op 1))
      · exact absurd (hopen.symm.trans hfinished) (by decide)
    | writing buffers hout hdeleted hopen hsent =>
      have hmem : (⟨.write buffers, none⟩ : Pending ServiceOp) ∈ v.outstanding := by simp [hout]
      by_cases hall : s.down.sent = buffers.flatten
      · exact absurd ⟨v, hservice, hmem, rfl, hall⟩
          (hstuck (.service (.complete (.write buffers) ⟨.success, s.up.since s.upTaken⟩)))
      · exact absurd ⟨v, hservice, hmem, Nat.one_pos, Channel.length_lt_of_prefix hsent hall⟩
          (hstuck (.serviceTransmit buffers 1))

omit [DecidableEq τ] in
/-- **A header loop that a service has fed leaves**, so that a handler can always run. -/
theorem handle_isSome (hsound : Sound os r₀) (h : Ok w os r₀ s) {op : AsyncOp} {c : Completion}
    (hop : Completed w os r₀ s op c) :
    (s.client.request.handle w os.shutdownSend op c).isSome := by
  rw [Option.isSome_iff_ne_none]
  intro hnone
  have hstop : (HTTPRequest.program w os.shutdownSend).handle s.client.request op c
      = .stop none := by
    simp only [HTTPRequest.program, hnone]
  obtain ⟨up, hup, more, hanswer, hmore⟩ := exists_answer h
  obtain ⟨down, hdown, hrun⟩ := (hop.predicts.stop hstop).exists_cut
    (s.down.inFlight ++ more)
    fun hfinished hflight => by rw [hflight, hmore hfinished, List.nil_append]
  rw [← List.append_assoc, ← Channel.sent, ← hanswer] at hdown
  obtain ⟨served, hserved⟩ := Option.isSome_iff_exists.mp (HttpService.serve_eq os up).1
  have hends := HTTPRequest.ends_of_sent w (fun _ => down) hsound.send hsound.fresh
    hsound.executes (HttpService.sent_of_serve hsound.calls hup hserved)
    (hdown.flatten.trans (by rw [hserved]; rfl))
  rw [HTTPRequest.run_eq_program hsound.executes hsound.fresh.requestBuf hsound.send] at hends
  have hend : HTTPRequest.Ends os served none := hrun ▸ hends
  cases hend

/-- **The callback has been invoked** when nothing more can happen, and no thread is at work. -/
theorem client_of_stuck (hsound : Sound os r₀) (h : Reached w os r₀ s) (t₀ : τ)
    (hstuck : (machine w os).Stuck s) : ∃ cb, s.client.callbacks = [cb] ∧ Asked r₀ s ∧
      (∀ t, s.client.pc t = .idle) ∧ s.client.outstanding = [] ∧
      Predicts (clientRun w os r₀) s.down fun _ => some (cb.ec, cb.request) := by
  have go (e : HTTPRequest.Event τ) (he : HTTPRequest.Enabled w s.client e) : ¬ Proceeds os s e :=
    fun hp => hstuck (.client e) ⟨he, hp⟩
  have hidle {t : τ} (hquiet : Quiet (s.client.pc t)) : s.client.pc t = .idle := by
    cases hpc : s.client.pc t with
    | idle => rfl
    | leaving => exact absurd trivial (go (.leave t) hpc)
    | inCallback => exact absurd trivial (go (.callbackReturns t) hpc)
    | _ => exact (hpc ▸ hquiet).elim
  cases h.ok.client with
  | calledBack cb hasked hcb hquiet hout hcallbacks =>
    exact ⟨cb, hcallbacks, hasked, fun t => hidle (hquiet t), hout, hcb⟩
  | completed op c hop hquiet hout =>
    have hmem : (⟨op, some c⟩ : Pending AsyncOp) ∈ s.client.outstanding := by simp [hout]
    exact absurd trivial (go (.call t₀ op c) ⟨hidle (hquiet t₀), hmem⟩)
  | inFlight op hop hquiet hout =>
    have hmem : (⟨op, none⟩ : Pending AsyncOp) ∈ s.client.outstanding := by simp [hout]
    have hready := hop.ready
    cases op with
    | resolve host service =>
      exact absurd ⟨rfl, trivial⟩ (go (.complete _ ⟨.success, s.down.since s.downTaken⟩) hmem)
    | connect =>
      exact absurd ⟨rfl, trivial⟩ (go (.complete _ ⟨.success, s.down.since s.downTaken⟩) hmem)
    | write buffer =>
      obtain ⟨-, hsent, -⟩ := hready
      by_cases hall : s.up.sent = buffer
      · exact absurd ⟨rfl, hall⟩ (go (.complete _ ⟨.success, s.down.since s.downTaken⟩) hmem)
      · exact absurd ⟨hmem, Nat.one_pos, Channel.length_lt_of_prefix hsent hall⟩
          (hstuck (.transmit buffer 1))
    | readStatusLine | readHeaders | readBody =>
      obtain ⟨-, -, -, -, -, hfinished, -⟩ := service_of_stuck h.ok hstuck hready
      rcases (s.client.request.wait _).progress s.down s.downTaken with ⟨c, hc⟩ | hn | ⟨-, -, hopen⟩
      · exact absurd ⟨hc, trivial⟩ (go (.complete _ c) hmem)
      · exact absurd ⟨hmem, hn⟩ (hstuck (.arrive _ 1))
      · exact absurd (hopen.symm.trans hfinished) (by decide)
  | working t hworking hquiet hout hcallbacks =>
    exfalso
    cases hpc : s.client.pc t with
    | executing =>
      rw [hpc] at hworking
      exact go (.execute t) ⟨hpc, hworking.1 ▸ hsound.executes⟩ trivial
    | handling op c =>
      rw [hpc] at hworking
      exact go (.handle t op c os.shutdownSend) ⟨hpc, handle_isSome hsound h.ok hworking⟩ rfl
    | locking op =>
      -- whoever holds the mutex could go on
      refine go (.lock t op) ⟨hpc, ?_⟩ trivial
      cases howner : s.client.cancelMux with
      | none => rfl
      | some u =>
        have hholds := (h.guarded u).mp howner
        rcases eq_or_ne u t with rfl | hut
        · rw [hpc] at hholds
          cases hholds
        · rw [hidle (hquiet u hut)] at hholds
          cases hholds
    | testing op => exact go (.test t op) hpc trivial
    | initiating op => exact go (.initiate t op) hpc trivial
    | finishing ec => exact go (.callback t ec) hpc trivial
    | _ => exact (hpc ▸ hworking).elim

theorem sound_simpleScenario {contents : Bytes} (h : contents.length < 2 ^ 63) :
    Sound (HTTPRequest.manualHtml contents) HTTPRequest.simpleScenario where
  calls := ⟨rfl, rfl, fun _ _ => HttpService.provides_manualHtml h _⟩
  send := rfl
  executes := by decide +kernel
  fresh := ⟨rfl, rfl⟩
  notCancelled := rfl

theorem callback_eq_run_simpleScenario : ∃ s : State (Fin 3),
    (machine .bits64 (HTTPRequest.manualHtml (bytes "hi"))).Runs
      (.start HTTPRequest.simpleScenario 0) s ∧
    ∃ cb ∈ s.client.callbacks, ∃ up down : Segmentation,
      HTTPRequest.simpleScenario.run .bits64 .success
        (HttpService.answers (HTTPRequest.manualHtml (bytes "hi")) up down)
          = some (cb.ec, cb.request) := by
  have hsound : Sound (HTTPRequest.manualHtml (bytes "hi")) HTTPRequest.simpleScenario :=
    sound_simpleScenario (by decide)
  have hstart : (machine .bits64 (HTTPRequest.manualHtml (bytes "hi"))).Runs
      (.start HTTPRequest.simpleScenario (0 : Fin 3)) (.start HTTPRequest.simpleScenario 0) :=
    .start
  obtain ⟨s, hs, hstuck⟩ := (terminates hsound hstart).exists_stuck
  obtain ⟨cb, hcb, -⟩ := client_of_stuck hsound (reached hsound hs) 0 hstuck
  have hmem : cb ∈ s.client.callbacks := by simp [hcb]
  exact ⟨s, hs, cb, hmem, callback_eq_run hsound hs hmem⟩

end RoundTrip

end HttpDialogue

end AsioSamples
