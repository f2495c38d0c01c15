import AsioSamples.Http.Ownership
import AsioSamples.Machinery.EventLoop
import AsioSamples.Tcp.Acceptor
import AsioSamples.Tcp.Service

/-!
# Tcp/AsyncServer — `AsyncServer<ServiceType>`: the acceptor, its services, and `Stop`

The threads of the pool call the handlers of the acceptor and of the services it has made.  A
service deletes itself in one of its handlers, so as long as handlers are called it will be deleted,
once.  `Stop` sets the flag of the acceptor, stops the `io_context` and joins the pool; nothing
waits for the services.  `stopped_account` says what that leaves behind for good: every connection
either has been served to its end, or keeps its service, with an operation that nobody will hear of,
or was accepted and never got one; and the acceptor is closed only if its last accept came in time.
-/

namespace AsioSamples

/-! ## What a `ServiceType` is -/

/-- A service over its completions and its handlers, one of which deletes it. -/
structure ServiceType where
  State : Type
  Event : Type
  machine : Machine State Event
  /-- A service whose `HandleRequest` has been called. -/
  start : State
  /-- The step is a handler's. -/
  isHandler : Event → Bool
  outstanding : State → ℕ
  deleted : State → ℕ
  /-- A service waits for one operation, or has been deleted, once. -/
  once : ∀ {s}, machine.Runs start s → outstanding s + deleted s = 1
  /-- Only a handler deletes. -/
  deleted_next : ∀ {s e}, isHandler e = false → deleted (machine.next s e) = deleted s

/-- `HttpService`, in which no call throws. -/
def ServiceType.httpService : ServiceType where
  State := HttpService.State
  Event := HttpService.Event
  machine := HttpService.machine.restrict HttpService.NoThrow
  start := .start
  isHandler
    | .complete _ _ => false
    | .handle _ _ _ => true
  outstanding s := s.outstanding.length
  deleted s := s.deleted
  once h := by
    cases HttpService.life h with
    | reading _ _ _ hout hdeleted => simp [hout, hdeleted]
    | writing _ hout hdeleted => simp [hout, hdeleted]
    | gone _ hout hdeleted => simp [hout, hdeleted]
  deleted_next := by
    intro s e he
    cases e with
    | complete op c => rfl
    | handle op c os => cases he

namespace ServiceFakeAsync

/-- The steps of a service. -/
inductive Event
  | complete (op : FakeOp) (c : Completion)
  | handle (op : FakeOp) (c : Completion)

/-- The service among its operations. -/
def machine : Machine Serving Event where
  Enabled v
    | .complete op _ => (⟨op, none⟩ : Pending FakeOp) ∈ v.outstanding
    | .handle op c => (⟨op, some c⟩ : Pending FakeOp) ∈ v.outstanding
  next v
    | .complete op c => v.complete op c
    | .handle op c => v.handle op c

instance (v : Serving) (e : Event) : Decidable (machine.Enabled v e) :=
  match e with
  | .complete .. | .handle .. => inferInstanceAs (Decidable (_ ∈ _))

/-- **A service waits for one operation, or has been deleted.** -/
theorem once {v : Serving} (h : machine.Runs (Serving.accept {}) v) :
    v.outstanding.length + v.deleted = 1 := by
  refine h.invariant (I := fun v => v.outstanding.length + v.deleted = 1) rfl
    fun v e _ hv he => ?_
  cases e with
  | complete op c => simpa [machine, Serving.complete] using hv
  | handle op c =>
    have hlen := Pending.length_dequeue he
    simp only [machine, Serving.handle]
    split
    · simp only [Pending.length_initiate]
      omega
    · dsimp only
      omega

end ServiceFakeAsync

def ServiceType.serviceFakeAsync : ServiceType where
  State := Serving
  Event := ServiceFakeAsync.Event
  machine := ServiceFakeAsync.machine
  start := Serving.accept {}
  isHandler
    | .complete _ _ => false
    | .handle _ _ => true
  outstanding v := v.outstanding.length
  deleted v := v.deleted
  once := ServiceFakeAsync.once
  deleted_next := by
    intro v e he
    cases e with
    | complete op c => rfl
    | handle op c => cases he

/-! ## The server -/

namespace AsyncServer

variable {S : ServiceType} {τ : Type} [DecidableEq τ] {pool : τ → Bool}

/-- The acceptor, and the service of each socket it was handed. -/
structure State (S : ServiceType) (τ : Type) where
  acceptor : AsyncAcceptor.State τ := {}
  service : ℕ → S.State := fun _ => S.start

/-- The steps. -/
inductive Event (S : ServiceType) (τ : Type)
  | acceptor (e : AsyncAcceptor.Event τ)
  /-- A step of the service of a socket, on thread `t` if it is a handler's. -/
  | service (t : τ) (socket : ℕ) (e : S.Event)

/-- The thread that calls `Start`, if that is what the step is. -/
def starter : AsyncAcceptor.Event τ → Option τ
  | .start t => some t
  | _ => none

/-- When a step can be taken; the threads of the pool call handlers alone. -/
def Enabled (pool : τ → Bool) (s : State S τ) : Event S τ → Prop
  | .acceptor e => AsyncAcceptor.Enabled s.acceptor e ∧ ∀ t ∈ starter e, pool t = false
  | .service t socket e => socket ∈ s.acceptor.handled ∧
      S.machine.Enabled (s.service socket) e ∧ (S.isHandler e = true → s.acceptor.pc t = .idle)

instance [∀ v e, Decidable (S.machine.Enabled v e)] (pool : τ → Bool) (s : State S τ)
    (e : Event S τ) : Decidable (Enabled pool s e) :=
  match e with
  | .acceptor _ | .service .. => inferInstanceAs (Decidable (_ ∧ _))

/-- Where a step leads. -/
def next (s : State S τ) : Event S τ → State S τ
  | .acceptor e => { s with acceptor := AsyncAcceptor.next s.acceptor e }
  | .service _ socket e =>
    { s with service := Function.update s.service socket (S.machine.next (s.service socket) e) }

/-- The server, with the threads of its pool inside `ioc_.run()`. -/
def eventLoop (S : ServiceType) (pool : τ → Bool) : EventLoop (State S τ) (Event S τ) τ where
  machine := ⟨Enabled pool, next⟩
  taker
    | .acceptor (.handle t _ _) => some t
    | .service t _ e => if S.isHandler e then some t else none
    | .acceptor _ => none
  Free s t := s.acceptor.pc t = .idle
  Idle s := s.acceptor.outstanding = [] ∧ (∀ t, s.acceptor.pc t = .idle) ∧
    ∀ socket ∈ s.acceptor.handled, S.outstanding (s.service socket) = 0
  stoppable := true

instance [∀ v e, Decidable (S.machine.Enabled v e)] (s : State S τ) (e : Event S τ) :
    Decidable ((eventLoop S pool).machine.Enabled s e) :=
  inferInstanceAs (Decidable (Enabled pool s e))

/-- The order of `Start` and `Stop`, which nobody calls at the same time: `Stop` sets the flag of
the acceptor before it stops the `io_context`.  The work is released by the destructor alone. -/
def InOrder (pool : τ → Bool) (s : EventLoop.State (State S τ) τ) :
    EventLoop.Event (Event S τ) τ → Prop
  | .inner (.acceptor (.start _)) => s.stopped = false
  | .stop => s.inner.acceptor.stopFlag = true ∧ ∀ t, pool t = false → s.inner.acceptor.pc t = .idle
  | .release => False
  | _ => True

variable {s s' : EventLoop.State (State S τ) τ}

/-- The server as its constructor leaves it. -/
def constructed (S : ServiceType) (pool : τ → Bool) : EventLoop.State (State S τ) τ where
  inner := {}
  inside := pool

/-! ## The parts of the server -/

/-- **A run of the server is one of its acceptor, and of each of its services.** -/
theorem runs_parts {c c' : State S τ} (h : (eventLoop S pool).machine.Runs c c') :
    (AsyncAcceptor.machine τ).Runs c.acceptor c'.acceptor ∧
      ∀ socket, S.machine.Runs (c.service socket) (c'.service socket) := by
  induction h with
  | start => exact ⟨.start, fun _ => .start⟩
  | @step c' e _ he ih =>
    obtain ⟨hacceptor, hservice⟩ := ih
    cases e with
    | acceptor e => exact ⟨hacceptor.step he.1, hservice⟩
    | service t socket e =>
      refine ⟨hacceptor, fun n => ?_⟩
      by_cases hn : n = socket
      · subst hn
        have hstep := (hservice n).step he.2.1
        simpa [eventLoop, next] using hstep
      · simpa [eventLoop, next, Function.update_of_ne hn] using hservice n

/-! ## After `Stop` -/

/-- **A thread that is in the acceptor was there**, or is called in. -/
theorem pc_next {a : AsyncAcceptor.State τ} {e : AsyncAcceptor.Event τ}
    (he : AsyncAcceptor.Enabled a e) {t : τ} (ht : (AsyncAcceptor.next a e).pc t ≠ .idle) :
    a.pc t ≠ .idle ∨ e = .start t ∨ ∃ socket ec, e = .handle t socket ec := by
  have other {u : τ} {p : AsyncAcceptor.Pc} (htu : t ≠ u) :
      Function.update a.pc u p t = a.pc t := Function.update_of_ne htu _ _
  cases e with
  | start u =>
    by_cases htu : t = u
    · exact Or.inr (Or.inl (congrArg _ htu.symm))
    · exact Or.inl (other htu ▸ ht)
  | complete socket ec => exact Or.inl ht
  | handle u socket ec =>
    by_cases htu : t = u
    · exact Or.inr (Or.inr ⟨socket, ec, by rw [htu]⟩)
    · exact Or.inl (other htu ▸ ht)
  | run u =>
    by_cases htu : t = u
    · subst htu
      exact Or.inl he
    · refine Or.inl fun hidle => ht ?_
      simp only [AsyncAcceptor.next, AsyncAcceptor.State.run]
      split
      case h_2 => split <;> exact (other htu).trans hidle
      case h_1 => exact hidle
      all_goals exact (other htu).trans hidle
  | stop => exact Or.inl ht

/-- The server has work as long as it lives. -/
theorem working
    (h : ((eventLoop S pool).loop.restrict (InOrder pool)).Runs (constructed S pool) s) :
    s.work = true := by
  refine h.invariant (I := fun s => s.work = true) rfl fun s e _ hs he => ?_
  cases e with
  | release => exact he.2.elim
  | inner e | runOut | stop | leave t => exact hs

/-- **Nobody is in the acceptor** when the `io_context` has been stopped and the pool has left. -/
theorem idle_of_left
    (h : ((eventLoop S pool).loop.restrict (InOrder pool)).Runs (constructed S pool) s)
    (hstopped : s.stopped = true) (hleft : ∀ t, s.inside t = false) (t : τ) :
    s.inner.acceptor.pc t = .idle := by
  cases hpool : pool t with
  | true =>
    by_contra hbusy
    have hinside := EventLoop.inside_of (t := t)
      (B := fun c t => pool t = true ∧ c.acceptor.pc t ≠ .idle) ?_ (fun c t hfree hb => hb.2 hfree)
      (fun t hb => hb.2 rfl) h.of_restrict ⟨hpool, hbusy⟩
    · exact absurd ((hleft t).symm.trans hinside) (by decide)
    · rintro c e t he ⟨hpool, ht⟩
      cases e with
      | service u socket e => exact Or.inl ⟨hpool, ht⟩
      | acceptor e =>
        rcases pc_next he.1 ht with hbefore | rfl | ⟨socket, ec, rfl⟩
        · exact Or.inl ⟨hpool, hbefore⟩
        · exact absurd (hpool.symm.trans (he.2 t rfl)) (by decide)
        · exact Or.inr rfl
  | false =>
    refine h.invariant (I := fun s => s.stopped = true → ∀ t, pool t = false →
      s.inner.acceptor.pc t = .idle) (fun hnot => by cases hnot) ?_ hstopped t hpool
    intro s e hr hs ⟨he, horder⟩
    cases e with
    | inner e =>
      intro hstopped t hpool
      cases e with
      | service u socket e => exact hs hstopped t hpool
      | acceptor e =>
        by_contra hbusy
        rcases pc_next he.1.1 hbusy with hbefore | rfl | ⟨socket, ec, rfl⟩
        · exact hbefore (hs hstopped t hpool)
        · exact absurd (hstopped.symm.trans horder) (by decide)
        · exact absurd (hstopped.symm.trans (he.2 t rfl).2) (by decide)
    | release => exact horder.elim
    | runOut => exact absurd ((working hr).symm.trans he.1) (by decide)
    | stop => exact fun _ => horder.2
    | leave u => exact hs

/-- The `io_context` has been stopped, and nobody is left to call a handler. -/
structure Final (s : EventLoop.State (State S τ) τ) : Prop where
  stopped : s.stopped = true
  left : ∀ t, s.inside t = false
  idle : ∀ t, s.inner.acceptor.pc t = .idle

/-- What cannot change any more: what the acceptor has done, and who was deleted. -/
def SameAccount (c c' : State S τ) : Prop :=
  c'.acceptor.created = c.acceptor.created ∧ c'.acceptor.handled = c.acceptor.handled ∧
    c'.acceptor.closed = c.acceptor.closed ∧ c'.acceptor.initiated = c.acceptor.initiated ∧
    ∀ socket, S.deleted (c'.service socket) = S.deleted (c.service socket)

omit [DecidableEq τ] in
theorem SameAccount.trans {c c' c'' : State S τ} (h : SameAccount c c')
    (h' : SameAccount c' c'') : SameAccount c c'' :=
  ⟨h'.1.trans h.1, h'.2.1.trans h.2.1, h'.2.2.1.trans h.2.2.1, h'.2.2.2.1.trans h.2.2.2.1,
    fun socket => (h'.2.2.2.2 socket).trans (h.2.2.2.2 socket)⟩

/-- **Nothing more is done**: completions come in, and nobody is told of them. -/
theorem final_next {e : EventLoop.Event (Event S τ) τ} (h : Final s)
    (he : ((eventLoop S pool).loop.restrict (InOrder pool)).Enabled s e) :
    Final (((eventLoop S pool).loop.restrict (InOrder pool)).next s e) ∧
      SameAccount s.inner (((eventLoop S pool).loop.restrict (InOrder pool)).next s e).inner := by
  have same (c : State S τ) : SameAccount c c := ⟨rfl, rfl, rfl, rfl, fun _ => rfl⟩
  have hnobody {t : τ} (ht : s.inside t = true) : False :=
    absurd ((h.left t).symm.trans ht) (by decide)
  obtain ⟨he, horder⟩ := he
  cases e with
  | inner e =>
    cases e with
    | acceptor e =>
      cases e with
      | start t => exact absurd (h.stopped.symm.trans horder) (by decide)
      | complete socket ec => exact ⟨⟨h.stopped, h.left, h.idle⟩, rfl, rfl, rfl, rfl, fun _ => rfl⟩
      | handle t socket ec => exact (hnobody (he.2 t rfl).1).elim
      | run t => exact absurd (h.idle t) he.1.1
      | stop => exact ⟨⟨h.stopped, h.left, h.idle⟩, rfl, rfl, rfl, rfl, fun _ => rfl⟩
    | service t socket e =>
      have hcompletes : S.isHandler e = false := by
        refine eq_false_of_ne_true fun hhandler => ?_
        exact hnobody (he.2 t (if_pos hhandler)).1
      refine ⟨⟨h.stopped, h.left, h.idle⟩, rfl, rfl, rfl, rfl, fun n => ?_⟩
      by_cases hn : n = socket
      · subst hn
        have hdeleted := S.deleted_next (s := s.inner.service n) hcompletes
        simpa [EventLoop.loop, Machine.restrict, EventLoop.next, eventLoop, next] using hdeleted
      · simp [EventLoop.loop, Machine.restrict, EventLoop.next, eventLoop, next,
          Function.update_of_ne hn]
  | release => exact horder.elim
  | runOut | stop => exact ⟨⟨rfl, h.left, h.idle⟩, same _⟩
  | leave t => exact (hnobody he.1).elim

/-- At most the socket of each accept waits for a thread. -/
theorem length_queued_le (ops : List (Pending ℕ)) :
    (AsyncAcceptor.queued ops).length ≤ ops.length := by
  induction ops with
  | nil => exact le_rfl
  | cons p ops ih =>
    have hone : (AsyncAcceptor.queued [p]).length ≤ 1 := by
      simp only [AsyncAcceptor.queued, List.flatMap_cons, List.flatMap_nil, List.append_nil]
      split
      · split <;> simp
      · simp
    have hcons : AsyncAcceptor.queued (p :: ops)
        = AsyncAcceptor.queued [p] ++ AsyncAcceptor.queued ops := by
      simp [AsyncAcceptor.queued]
    rw [hcons, List.length_append, List.length_cons]
    omega

/-- **What `Stop` leaves behind.**  At any time every service waits for one operation, or has been
deleted, once.  When `Stop` has returned every accepted socket has its service, but at most one; the
acceptor has been closed, once, or an accept is outstanding; and so it stays: no service is created,
called or deleted any more, and the acceptor is not closed. -/
theorem stopped_account
    (h : ((eventLoop S pool).loop.restrict (InOrder pool)).Runs (constructed S pool) s) :
    (∀ socket, S.outstanding (s.inner.service socket) + S.deleted (s.inner.service socket) = 1) ∧
    (s.stopped = true → (∀ t, s.inside t = false) →
      s.inner.acceptor.created = s.inner.acceptor.handled ∧
      (∃ last, s.inner.acceptor.accepted = s.inner.acceptor.created ++ last ∧ last.length ≤ 1) ∧
      (s.inner.acceptor.started = true →
        s.inner.acceptor.outstanding.length + s.inner.acceptor.closed = 1) ∧
      ∀ s', ((eventLoop S pool).loop.restrict (InOrder pool)).Runs s s' →
        SameAccount s.inner s'.inner) := by
  obtain ⟨hacceptor, hservice⟩ := runs_parts (EventLoop.runs_inner h.of_restrict)
  refine ⟨fun socket => S.once (hservice socket), fun hstopped hleft => ?_⟩
  have hidle := idle_of_left h hstopped hleft
  have hchain := AsyncAcceptor.chain hacceptor
  have hnobody (t : τ) : ¬ (s.inner.acceptor.pc t).Busy := fun hbusy => hbusy (hidle t)
  obtain ⟨haccepted, hcreated⟩ := (AsyncAcceptor.ledger hacceptor).idle hnobody
  refine ⟨hcreated, ⟨_, haccepted, ?_⟩, fun hstarted => ?_, fun s' h' => ?_⟩
  · have hle := hchain.le_one
    have hqueued := length_queued_le s.inner.acceptor.outstanding
    omega
  · unfold AsyncAcceptor.Chain at hchain
    rw [hstarted] at hchain
    rcases hchain.of_idle hnobody with ⟨hout, hclosed⟩ | ⟨hout, hclosed⟩ <;> omega
  · have hfinal : Final s' ∧ SameAccount s.inner s'.inner := by
      refine h'.invariant (I := fun s' => Final s' ∧ SameAccount s.inner s'.inner)
        ⟨⟨hstopped, hleft, hidle⟩, rfl, rfl, rfl, rfl, fun _ => rfl⟩ ?_
      intro s₁ e _ hs₁ he
      obtain ⟨hnext, hsame⟩ := final_next hs₁.1 he
      exact ⟨hnext, hs₁.2.trans hsame⟩
    exact hfinal.2

/-! ## A service that is left behind -/

instance : ∀ v e, Decidable (ServiceType.serviceFakeAsync.machine.Enabled v e) :=
  fun (v : Serving) (e : ServiceFakeAsync.Event) =>
    inferInstanceAs (Decidable (ServiceFakeAsync.machine.Enabled v e))

/-- Thread `false` starts the server; thread `true`, of the pool, accepts a client; its line
arrives, and then the acceptor is stopped. -/
def oneClient : List (Event .serviceFakeAsync Bool) :=
  [.acceptor (.start false), .acceptor (.run false), .acceptor (.complete 0 .success),
    .acceptor (.handle true 0 .success), .acceptor (.run true), .acceptor (.run true),
    .acceptor (.run true), .acceptor (.run true),
    .service false 0 (.complete .readLine ⟨.success, bytes "x\n"⟩), .acceptor .stop]

theorem stopped_account_oneClient : ∃ s : EventLoop.State (State .serviceFakeAsync Bool) Bool,
    ((eventLoop .serviceFakeAsync id).loop.restrict (InOrder id)).Runs (constructed _ id) s ∧
      s.inner.acceptor.handled = [0] ∧ s.inner.acceptor.closed = 0 ∧
      ∀ s', ((eventLoop .serviceFakeAsync id).loop.restrict (InOrder id)).Runs s s' →
        (s'.inner.service 0).deleted = 0 ∧ s'.inner.acceptor.closed = 0 := by
  obtain ⟨c, hc, hhandled, hdeleted, hclosed, hflag, hidle⟩ := Machine.exists_runs_of_exec
    (m := (eventLoop .serviceFakeAsync id).machine.restrict fun _ e =>
      ∀ t ∈ (eventLoop .serviceFakeAsync id).taker e, id t = true)
    (s := ({} : State .serviceFakeAsync Bool))
    (Q := fun c => c.acceptor.handled = [0] ∧ (c.service 0 : Serving).deleted = 0 ∧
      c.acceptor.closed = 0 ∧ c.acceptor.stopFlag = true ∧ ∀ t, c.acceptor.pc t = .idle)
    oneClient (by decide +kernel)
  have hworked : ((eventLoop .serviceFakeAsync id).loop.restrict (InOrder id)).Runs
      (constructed _ id) ⟨c, true, false, id⟩ := by
    refine EventLoop.runs_of_inner (fun _ e => ?_) hc
    rcases e with (_ | _ | _ | _ | _) | _
    · rfl
    all_goals trivial
  have hstopped := hworked.step (e := EventLoop.Event.stop) ⟨⟨rfl, rfl⟩, hflag, fun t _ => hidle t⟩
  have hleft := hstopped.step (e := EventLoop.Event.leave true) ⟨⟨rfl, rfl, hidle true⟩, trivial⟩
  have hall : ∀ t, Function.update id true false t = false := by decide
  obtain ⟨-, -, -, hsame⟩ := (stopped_account hleft).2 rfl hall
  refine ⟨_, hleft, hhandled, hclosed, fun s' h' => ?_⟩
  obtain ⟨-, -, hclosed', -, hdeleted'⟩ := hsame s' h'
  exact ⟨(hdeleted' 0).trans hdeleted, hclosed'.trans hclosed⟩

end AsyncServer

end AsioSamples
