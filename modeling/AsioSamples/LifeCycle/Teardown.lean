import AsioSamples.LifeCycle.Objects

/-!
# LifeCycle/Teardown — which lives end well, and which servers serve again

`Server` and `AsyncTCPClient` join a thread only if it is joinable and stop themselves when they are
destroyed: every life of theirs ends well.  The destructor of `AsyncServer` stops it too, and `Stop`
does not ask whether there is an acceptor; `HTTPClient` has no destructor that would close it, and
`close()` joins without asking (`teardown_safe_iff`).

What `Stop` sets, `liveFlag` and the stopped state of `ioc_`, no `Start` sets back: a server serves
exactly if it has never been stopped (`serves_again_iff`).
-/

namespace AsioSamples

namespace LifeCycle

/-! ## Teardown -/

namespace AsyncServer

/-- A server that has an acceptor can be called and destroyed in any way. -/
theorem lifeFrom_of_acceptor {s : AsyncServer} (h : s.acceptor.isSome) (calls : List Call) :
    cls.lifeFrom s calls = .ok () := by
  refine Class.lifeFrom_eq_ok (I := fun s => s.acceptor.isSome) h ?_ ?_ calls
  · intro s call hs
    cases call with
    | start threadPoolSize => exact ⟨_, rfl, rfl⟩
    | stop => exact ⟨_, stop_of_acceptor hs, rfl⟩
  · intro s hs
    change (s.stop >>= fun s => Thread.destroyAll s.threadPool) = _
    rw [stop_of_acceptor hs]
    exact Thread.destroyAll_replicate _

/-- **The life of an `AsyncServer` ends well** exactly if it begins with a start. -/
theorem life_eq_ok_iff (calls : List Call) :
    cls.life calls = .ok () ↔ ∃ threadPoolSize rest, calls = .start threadPoolSize :: rest := by
  have hstop : stop {} = .error .nullPointer := stop_of_none rfl
  cases calls with
  | nil =>
    refine iff_of_false ?_ (by simp)
    change (stop {} >>= fun s => Thread.destroyAll s.threadPool) ≠ _
    rw [hstop]
    exact nofun
  | cons call rest =>
    cases call with
    | start threadPoolSize =>
      refine iff_of_true ?_ ⟨threadPoolSize, rest, rfl⟩
      exact (Class.lifeFrom_of_ok rfl rest).trans (lifeFrom_of_acceptor rfl rest)
    | stop =>
      refine iff_of_false ?_ (by simp)
      rw [Class.life, Class.lifeFrom_of_error hstop]
      exact nofun

end AsyncServer

/-- **Every life of a `Server` ends well.** -/
theorem Server.life_eq_ok (calls : List Call) : cls.life calls = .ok () := by
  refine Class.lifeFrom_eq_ok (I := fun _ => True) trivial ?_ ?_ calls
  · intro s call _
    cases call with
    | start => exact ⟨_, s.start_eq, trivial⟩
    | stop => exact ⟨_, s.stop_eq, trivial⟩
  · intro s _
    change (s.stop >>= fun s => s.thread.destroy) = _
    rw [s.stop_eq]
    rfl

namespace HTTPClient

/-- What is left to close: a client whose thread is joinable ends well if it is closed once more,
and one whose thread is not if it is not. -/
theorem lifeFrom_eq_ok_iff (s : HTTPClient) (calls : List Call) :
    cls.lifeFrom s calls = .ok () ↔ calls.count .close = if s.thread.joinable then 1 else 0 := by
  induction calls generalizing s with
  | nil =>
    change s.thread.destroy = .ok () ↔ _
    obtain ⟨work, ⟨_ | _⟩⟩ := s <;> simp [Thread.destroy]
  | cons call calls ih =>
    cases call with
    | createRequest id =>
      rw [Class.lifeFrom_of_ok (show cls.call s (.createRequest id) = .ok s from rfl), ih]
      simp
    | close =>
      by_cases hjoinable : s.thread.joinable = true
      · have hclose : cls.call s .close = .ok { work := false, thread := {} } := by
          change s.close = _
          rw [close, Thread.join, if_pos hjoinable]
          rfl
        rw [Class.lifeFrom_of_ok hclose, ih]
        simp [hjoinable]
      · have hclose : cls.call s .close = .error .joinNotJoinable := by
          change s.close = _
          rw [close, Thread.join, if_neg hjoinable]
          rfl
        rw [Class.lifeFrom_of_error hclose]
        simp [hjoinable]

/-- **The life of an `HTTPClient` ends well** exactly if it is closed once. -/
theorem life_eq_ok_iff (calls : List Call) :
    cls.life calls = .ok () ↔ calls.count .close = 1 :=
  lifeFrom_eq_ok_iff {} calls

end HTTPClient

/-- **Every life of an `AsyncTCPClient` ends well**, with any number of threads. -/
theorem AsyncTCPClient.life_eq_ok (hardwareConcurrency : UInt32) (numberOfThread : UInt8)
    (calls : List Call) : (cls hardwareConcurrency numberOfThread).life calls = .ok () := by
  refine Class.lifeFrom_eq_ok (I := fun _ => True) trivial ?_ ?_ calls
  · intro s call _
    cases call with
    | close => exact ⟨_, s.close_eq, trivial⟩
  · intro s _
    change (s.close >>= fun s => Thread.destroyAll s.threads) = _
    rw [s.close_eq]
    exact Thread.destroyAll_replicate _

/-- **Which lives end well**: of an `AsyncServer` those that begin with a start, of an `HTTPClient`
those with one `close()`, and all of the other two. -/
theorem teardown_safe_iff (asyncServer : List AsyncServer.Call) (server : List Server.Call)
    (httpClient : List HTTPClient.Call) (hardwareConcurrency : UInt32) (numberOfThread : UInt8)
    (tcpClient : List AsyncTCPClient.Call) :
    (AsyncServer.cls.life asyncServer = .ok () ↔
      ∃ threadPoolSize rest, asyncServer = .start threadPoolSize :: rest) ∧
    Server.cls.life server = .ok () ∧
    (HTTPClient.cls.life httpClient = .ok () ↔ httpClient.count .close = 1) ∧
    (AsyncTCPClient.cls hardwareConcurrency numberOfThread).life tcpClient = .ok () :=
  ⟨AsyncServer.life_eq_ok_iff asyncServer, Server.life_eq_ok server,
    HTTPClient.life_eq_ok_iff httpClient,
    AsyncTCPClient.life_eq_ok hardwareConcurrency numberOfThread tcpClient⟩

/-- A server that is never started, and a client that is never closed or closed twice. -/
theorem exists_life_faults :
    AsyncServer.cls.life [] = .error .nullPointer ∧
      HTTPClient.cls.life [.createRequest 1] = .error .destroyJoinable ∧
      HTTPClient.cls.life [.close, .close] = .error .joinNotJoinable :=
  ⟨rfl, rfl, rfl⟩

/-! ## Starting again -/

/-- The thread of a `Server` runs, and its `Run` calls `Accept`. -/
def Server.Serves (s : Server) : Prop := s.thread.joinable = true ∧ ∃ n, 0 < s.run n

/-- An `AsyncServer` has an acceptor, a worker, and an `ioc_` whose `run()` does not return at
once. -/
def AsyncServer.Serves (s : AsyncServer) : Prop :=
  s.acceptor = some false ∧ (∃ t ∈ s.threadPool, t.joinable = true) ∧ s.ioc.returnsAtOnce = false

/-- `Run` calls `Accept` exactly if the flag is set. -/
theorem Server.exists_run_pos_iff (s : Server) : (∃ n, 0 < s.run n) ↔ s.liveFlag = true := by
  constructor
  · rintro ⟨n, hn⟩
    by_contra hlive
    cases n with
    | zero => exact absurd hn (lt_irrefl 0)
    | succ n =>
      rw [run, if_neg hlive] at hn
      exact lt_irrefl 0 hn
  · intro hlive
    refine ⟨1, ?_⟩
    rw [run, if_pos hlive]
    exact Nat.succ_pos _

/-- **The flag of a `Server` is set until it is stopped.** -/
theorem Server.liveFlag_afterFrom {calls : List Call} {s s' : Server}
    (h : cls.afterFrom s calls = .ok s') :
    s'.liveFlag = false ↔ s.liveFlag = false ∨ Call.stop ∈ calls := by
  refine Class.set_afterFrom_iff (P := fun s => s.liveFlag = false) (fun s call s' hcall => ?_) h
  cases call with
  | start =>
    obtain rfl := Except.ok.inj (s.start_eq.symm.trans hcall)
    simp
  | stop =>
    obtain rfl := Except.ok.inj (s.stop_eq.symm.trans hcall)
    simp

/-- **A `Server` serves after its last start** exactly if it has not been stopped before. -/
theorem Server.serves_iff (calls : List Call) :
    (∃ s, cls.after (calls ++ [.start]) = .ok s ∧ s.Serves) ↔ Call.stop ∉ calls := by
  obtain ⟨s, hafter, -⟩ := Class.exists_afterFrom (c := cls) (I := fun _ => True) (s := cls.new)
    trivial (fun s call _ => by
      cases call with
      | start => exact ⟨_, s.start_eq, trivial⟩
      | stop => exact ⟨_, s.stop_eq, trivial⟩) calls
  have hstart : cls.after (calls ++ [.start]) = .ok { s with thread := .running } := by
    rw [Class.after, Class.afterFrom_append hafter,
      Class.afterFrom_of_ok (show cls.call s .start = _ from s.start_eq)]
    rfl
  have hlive := (liveFlag_afterFrom hafter).not
  rw [Bool.not_eq_false] at hlive
  simp only [hstart, Except.ok.injEq, exists_eq_left', Serves, exists_run_pos_iff, hlive]
  simp [Thread.running, cls]

namespace AsyncServer

/-- A call that succeeds leaves `work` alone, and a stop stops the `ioc_`. -/
theorem ioc_call {call : Call} {s s' : AsyncServer} (h : cls.call s call = .ok s') :
    s'.ioc.work = s.ioc.work ∧
      (s'.ioc.stopped = true ↔ s.ioc.stopped = true ∨ Call.stop = call) := by
  cases call with
  | start threadPoolSize =>
    obtain rfl := Except.ok.inj h
    exact ⟨rfl, by simp [start]⟩
  | stop =>
    by_cases hacceptor : s.acceptor.isSome = true
    · obtain rfl := Except.ok.inj ((stop_of_acceptor hacceptor).symm.trans h)
      simp
    · have hnone : s.acceptor = none := by simpa using hacceptor
      cases (stop_of_none hnone).symm.trans h

/-- **The `ioc_` of an `AsyncServer` is stopped from its first stop on.** -/
theorem ioc_afterFrom {calls : List Call} {s s' : AsyncServer}
    (h : cls.afterFrom s calls = .ok s') : s'.ioc.work = s.ioc.work ∧
      (s'.ioc.stopped = true ↔ s.ioc.stopped = true ∨ Call.stop ∈ calls) :=
  ⟨Class.invariant_afterFrom (I := fun s' => s'.ioc.work = s.ioc.work) rfl
      (fun _ _ _ hs hcall => (ioc_call hcall).1.trans hs) h,
    Class.set_afterFrom_iff (P := fun s => s.ioc.stopped = true)
      (fun _ _ _ hcall => (ioc_call hcall).2) h⟩

/-- Starts alone never fail. -/
theorem exists_afterFrom_of_notMem {calls : List Call} (h : Call.stop ∉ calls) (s : AsyncServer) :
    ∃ s', cls.afterFrom s calls = .ok s' := by
  induction calls generalizing s with
  | nil => exact ⟨s, rfl⟩
  | cons call calls ih =>
    rw [List.mem_cons, not_or] at h
    cases call with
    | start threadPoolSize =>
      rw [Class.afterFrom_of_ok (show cls.call s (.start threadPoolSize)
        = .ok (s.start threadPoolSize) from rfl)]
      exact ih h.2 _
    | stop => exact absurd rfl h.1

/-- A start adds a worker, whatever pool size it is given. -/
theorem exists_joinable_start (s : AsyncServer) (threadPoolSize : UInt16) :
    ∃ t ∈ (s.start threadPoolSize).threadPool, t.joinable = true := by
  have hpos : (if threadPoolSize ≠ 0 then threadPoolSize else 2).toNat ≠ 0 := by
    split
    next hne => exact fun hzero => hne (UInt16.toNat_inj.mp hzero)
    next => decide
  exact ⟨.running, List.mem_append_right _ (List.mem_replicate.mpr ⟨hpos, rfl⟩), rfl⟩

/-- **An `AsyncServer` serves after its last start** exactly if it has not been stopped before. -/
theorem serves_iff (calls : List Call) (threadPoolSize : UInt16) :
    (∃ s, cls.after (calls ++ [.start threadPoolSize]) = .ok s ∧ s.Serves)
      ↔ Call.stop ∉ calls := by
  constructor
  · rintro ⟨s, hafter, -, -, hruns⟩ hstop
    have hstopped : s.ioc.stopped = true :=
      (ioc_afterFrom hafter).2.mpr (.inr (List.mem_append_left _ hstop))
    rw [IoContext.returnsAtOnce, hstopped] at hruns
    cases hruns
  · intro hnever
    obtain ⟨s, hafter⟩ := exists_afterFrom_of_notMem hnever cls.new
    obtain ⟨hwork, hstopped⟩ := ioc_afterFrom hafter
    refine ⟨s.start threadPoolSize, ?_, rfl, s.exists_joinable_start threadPoolSize, ?_⟩
    · rw [Class.after, Class.afterFrom_append hafter]
      rfl
    · have hrunning : s.ioc.stopped = false := by
        rw [Bool.eq_false_iff, ne_eq, hstopped]
        simp [hnever, cls]
      have hwork : s.ioc.work = true := hwork
      simp [IoContext.returnsAtOnce, start, hrunning, hwork]

end AsyncServer

/-- **A server serves after a start exactly if it has never been stopped**, whatever calls there
were before. -/
theorem serves_again_iff (server : List Server.Call) (asyncServer : List AsyncServer.Call)
    (threadPoolSize : UInt16) :
    ((∃ s, Server.cls.after (server ++ [.start]) = .ok s ∧ s.Serves) ↔ .stop ∉ server) ∧
      ((∃ s, AsyncServer.cls.after (asyncServer ++ [.start threadPoolSize]) = .ok s ∧ s.Serves)
        ↔ .stop ∉ asyncServer) :=
  ⟨Server.serves_iff server, AsyncServer.serves_iff asyncServer threadPoolSize⟩

/-- Started, stopped and started again. -/
theorem exists_not_serves :
    (∃ s, Server.cls.after [.start, .stop, .start] = .ok s ∧ ¬ s.Serves) ∧
      ∃ s, AsyncServer.cls.after [.start 1, .stop, .start 1] = .ok s ∧ ¬ s.Serves := by
  refine ⟨⟨{ thread := .running, liveFlag := false }, rfl, fun h => ?_⟩, ⟨_, rfl, fun h => ?_⟩⟩
  · exact absurd ((Server.exists_run_pos_iff _).mp h.2) (by decide)
  · exact absurd h.2.2 (by decide)

end LifeCycle

end AsioSamples
