import AsioSamples.Http.Connection

/-!
# Http/Reuse — an `HTTPRequest` that is executed again

Nothing forbids a second `execute()` behind the first one's callback, and `async_connect` closes the
socket before it opens it again.  But `on_connection_established` appends to what `m_request_buf`
has, and `m_response` keeps its status, its headers and its buffer.  Each run is an `Exchange` of
its own, whose every stage may fail; `Executes` are the requests a sequence of runs comes to, and
`reused_like_fresh_iff` says which of them are `LikeFresh`.
-/

namespace AsioSamples

namespace HTTPRequest

/-! ## One run after another -/

/-- What a caller may set between two runs. -/
inductive Setter
  | setHost (host : Bytes)
  | setUri (uri : Bytes)
  | setPort (port : UInt32)

def Setter.apply (r : HTTPRequest) : Setter → HTTPRequest
  | .setHost host => r.setHost host
  | .setUri uri => r.setUri uri
  | .setPort port => r.setPort port

def setAll (setters : List Setter) (r : HTTPRequest) : HTTPRequest := setters.foldl Setter.apply r

/-- A run: what is set before it, what it meets, and how many bytes of its body are then taken out
of `get_response()`. -/
structure Use where
  setters : List Setter := []
  exchange : Exchange
  taken : ℕ := 0

/-- The request behind a run, if its callback was invoked. -/
def useOnce (w : ULong) (r : HTTPRequest) (u : Use) : Option HTTPRequest :=
  ((r.setAll u.setters).exchange w u.exchange).callback.map fun o =>
    o.2.withResponseBuf (o.2.response.responseBuf.drop u.taken)

/-- The `k`-th call of `execute()` is made on `r`, behind the callbacks of the runs before it, and
meets `e`. -/
inductive Executes (w : ULong) (r₀ : HTTPRequest) (uses : List Use) (k : ℕ) :
    HTTPRequest → Exchange → Prop
  | intro {u : Use} {r : HTTPRequest} (hu : uses[k]? = some u)
    (hbefore : (uses.take k).foldlM (useOnce w) r₀ = some r)
    (hexec : (r.setAll u.setters).execute.isSome) :
    Executes w r₀ uses k (r.setAll u.setters) u.exchange

/-- As constructed, but for the fields a caller sets. -/
def renewed (r : HTTPRequest) : HTTPRequest := { r with response := {}, requestBuf := [] }

/-- **The run of a fresh request**: what is written is one GET, and the callback sees the response
that a request just constructed would have made of the exchange. -/
def LikeFresh (w : ULong) (r : HTTPRequest) (e : Exchange) : Prop :=
  (∀ buffer, (r.exchange w e).written = some buffer → buffer = r.requestBytes) ∧
    ∀ o, (r.exchange w e).callback = some o →
      ∃ o', (r.renewed.exchange w e).callback = some o' ∧ o'.2.response = o.2.response

section Reuse

variable {w : ULong} {e : Exchange} {r r' r₀ : HTTPRequest}

theorem setAll_keeps (setters : List Setter) (r : HTTPRequest) :
    (r.setAll setters).response = r.response ∧ (r.setAll setters).requestBuf = r.requestBuf := by
  induction setters generalizing r with
  | nil => exact ⟨rfl, rfl⟩
  | cons setter setters ih =>
    rw [setAll, List.foldl_cons]
    cases setter <;> exact ih _

theorem Fresh.setAll (h : r.Fresh) (setters : List Setter) : (r.setAll setters).Fresh :=
  ⟨(setAll_keeps setters r).1.trans h.response, (setAll_keeps setters r).2.trans h.requestBuf⟩

theorem Fresh.renewed (h : r.Fresh) : r.renewed = r := by
  rw [HTTPRequest.renewed, ← h.response, ← h.requestBuf]

theorem execute_isSome_of_callback {o : ErrorCode × HTTPRequest}
    (h : (r.exchange w e).callback = some o) : r.execute.isSome := by
  unfold exchange at h
  split at h
  next hexec =>
    rw [hexec]
    rfl
  next => cases h

/-- **What a run leaves behind**: the request it found, or one with a request in its buffer. -/
theorem useOnce_cases {u : Use} (h : r.useOnce w u = some r') :
    ¬ u.exchange.Connects ∧ r' = (r.setAll u.setters).withResponseBuf
        ((r.setAll u.setters).response.responseBuf.drop u.taken) ∨
      u.exchange.Connects ∧
        r'.requestBuf = r.requestBuf ++ (r.setAll u.setters).requestBytes := by
  obtain ⟨⟨ec, r₁⟩, hcallback, rfl⟩ := Option.map_eq_some_iff.mp h
  have hexec := execute_isSome_of_callback hcallback
  by_cases hconnects : u.exchange.Connects
  · rw [exchange_of_connects hexec hconnects] at hcallback
    have hbuf := exchangeFrom_requestBuf le_rfl hcallback
    refine .inr ⟨hconnects, hbuf.trans ?_⟩
    simp only [(setAll_keeps u.setters r).2]
  · obtain ⟨ec', -, hsame⟩ := exchange_of_not_connects (w := w) hexec hconnects
    rw [hsame] at hcallback
    cases hcallback
    exact .inl ⟨hconnects, rfl⟩

theorem requestBytes_ne_nil (r : HTTPRequest) : r.requestBytes ≠ [] := by
  have hget : bytes "GET " ≠ [] := by decide
  simp [requestBytes, hget]

theorem Fresh.withResponseBuf_drop (h : r.Fresh) (n : ℕ) :
    r.withResponseBuf (r.response.responseBuf.drop n) = r := by
  rw [withResponseBuf, h.response, List.drop_nil, ← h.response]

theorem foldlM_useOnce_cons {u : Use} {uses : List Use} :
    (u :: uses).foldlM (useOnce w) r = some r' ↔
      ∃ r₁, r.useOnce w u = some r₁ ∧ uses.foldlM (useOnce w) r₁ = some r' := by
  rw [List.foldlM_cons]
  exact Option.bind_eq_some_iff

/-- **Runs that are not connected leave a fresh request fresh.** -/
theorem Fresh.foldlM_useOnce (h : r.Fresh) {uses : List Use}
    (huses : ∀ u ∈ uses, ¬ u.exchange.Connects) (hr' : uses.foldlM (useOnce w) r = some r') :
    r'.Fresh := by
  induction uses generalizing r with
  | nil =>
    cases hr'
    exact h
  | cons u uses ih =>
    rw [List.forall_mem_cons] at huses
    obtain ⟨r₁, hr₁, hr'⟩ := foldlM_useOnce_cons.mp hr'
    refine ih ?_ huses.2 hr'
    rcases useOnce_cases hr₁ with ⟨-, rfl⟩ | ⟨hconnects, -⟩
    · rw [(h.setAll u.setters).withResponseBuf_drop]
      exact h.setAll u.setters
    · exact absurd hconnects huses.1

/-- **A request once in the buffer stays there.** -/
theorem requestBuf_ne_nil_of_foldlM {uses : List Use}
    (huses : r.requestBuf ≠ [] ∨ ∃ u ∈ uses, u.exchange.Connects)
    (hr' : uses.foldlM (useOnce w) r = some r') : r'.requestBuf ≠ [] := by
  induction uses generalizing r with
  | nil =>
    cases hr'
    simpa using huses
  | cons u uses ih =>
    obtain ⟨r₁, hr₁, hr'⟩ := foldlM_useOnce_cons.mp hr'
    refine ih ?_ hr'
    rcases useOnce_cases hr₁ with ⟨hnot, rfl⟩ | ⟨-, hbuf⟩
    · rcases huses with hbuf | ⟨v, hv, hconnects⟩
      · exact .inl ((setAll_keeps u.setters r).2.trans_ne hbuf)
      · rcases List.mem_cons.mp hv with rfl | hv
        · exact absurd hconnects hnot
        · exact .inr ⟨v, hv, hconnects⟩
    · refine .inl ?_
      rw [hbuf]
      exact List.append_ne_nil_of_right_ne_nil _ (requestBytes_ne_nil _)

/-! ## Which runs are like a fresh request's -/

theorem Fresh.likeFresh (h : r.Fresh) (hexec : r.execute.isSome) : LikeFresh w r e := by
  constructor
  · intro buffer hwritten
    by_cases hconnects : e.Connects
    · rw [exchange_written hexec hconnects, h.requestBuf] at hwritten
      exact (Option.some.inj hwritten).symm
    · obtain ⟨ec, -, hsame⟩ := exchange_of_not_connects (w := w) hexec hconnects
      rw [hsame] at hwritten
      cases hwritten
  · intro o ho
    exact ⟨o, h.renewed.symm ▸ ho, rfl⟩

/-- A run that is not connected shows the response as it was left. -/
theorem likeFresh_iff_of_not_connects (hexec : r.execute.isSome) (h : ¬ e.Connects) :
    LikeFresh w r e ↔ r.response = {} := by
  obtain ⟨ec, -, hsame⟩ := exchange_of_not_connects (w := w) hexec h
  obtain ⟨ec', -, hfresh⟩ := exchange_of_not_connects (w := w) (r := r.renewed) hexec h
  constructor
  · rintro ⟨-, hcallback⟩
    obtain ⟨o', ho', hresponse⟩ := hcallback (ec, r) (by rw [hsame])
    rw [hfresh] at ho'
    cases ho'
    exact hresponse.symm
  · intro hresponse
    refine ⟨fun buffer hwritten => ?_, fun o ho => ⟨(ec', r.renewed), by rw [hfresh], ?_⟩⟩
    · rw [hsame] at hwritten
      cases hwritten
    · rw [hsame] at ho
      cases ho
      exact hresponse.symm

/-- A run that is connected writes what was left in `m_request_buf` as well. -/
theorem LikeFresh.requestBuf (h : LikeFresh w r e) (hexec : r.execute.isSome)
    (hconnects : e.Connects) : r.requestBuf = [] := by
  have hbuf := h.1 _ (exchange_written hexec hconnects)
  exact List.append_left_eq_self.mp hbuf

/-- **One run of a sequence** is like a fresh request's exactly when no earlier one was connected;
or it is not connected itself, and `m_response` is as constructed. -/
theorem likeFresh_iff (hr₀ : r₀.Fresh) {uses : List Use} {k : ℕ} (h : Executes w r₀ uses k r e) :
    LikeFresh w r e ↔ (∀ u ∈ uses.take k, ¬ u.exchange.Connects) ∨
      ¬ e.Connects ∧ r.response = {} := by
  cases h with
  | @intro u r _ hbefore hexec =>
    by_cases hfirst : ∀ u ∈ uses.take k, ¬ u.exchange.Connects
    · have hfresh := (hr₀.foldlM_useOnce hfirst hbefore).setAll u.setters
      exact iff_of_true (hfresh.likeFresh hexec) (.inl hfirst)
    · push Not at hfirst
      have hbuf := (setAll_keeps u.setters r).2.trans_ne
        (requestBuf_ne_nil_of_foldlM (.inr hfirst) hbefore)
      have hnot : ¬ ∀ u ∈ uses.take k, ¬ u.exchange.Connects := by
        push Not
        exact hfirst
      by_cases hconnects : u.exchange.Connects
      · refine iff_of_false (fun hlike => hbuf (hlike.requestBuf hexec hconnects)) ?_
        rintro (hall | ⟨hn, -⟩)
        · exact hnot hall
        · exact hn hconnects
      · rw [likeFresh_iff_of_not_connects hexec hconnects]
        constructor
        · exact fun hresponse => .inr ⟨hconnects, hresponse⟩
        · rintro (hall | ⟨-, hresponse⟩)
          · exact absurd hall hnot
          · exact hresponse

theorem fresh_create (id : UInt32) : (create id).setCallback.Fresh := ⟨rfl, rfl⟩

/-- **A reused request behaves like a fresh one exactly while no run has been connected**; after one
that was, it does so in runs that are not connected themselves and find `m_response` as
constructed. -/
theorem reused_like_fresh_iff (w : ULong) (id : UInt32) (uses : List Use) :
    (∀ k r e, Executes w (create id).setCallback uses k r e → LikeFresh w r e) ↔
      ∀ k r e, Executes w (create id).setCallback uses k r e →
        (∀ u ∈ uses.take k, ¬ u.exchange.Connects) ∨ ¬ e.Connects ∧ r.response = {} := by
  have hr₀ := fresh_create id
  constructor
  · intro h k r e hk
    exact (likeFresh_iff hr₀ hk).mp (h k r e hk)
  · intro h k r e hk
    exact (likeFresh_iff hr₀ hk).mpr (h k r e hk)

end Reuse

/-- `TEST(Http, simpleScenario)`, on a server that answers with an empty body. -/
def simpleScenarioUse : Use where
  setters := [.setHost (bytes "localhost"), .setUri (bytes "/manual.html"), .setPort 6969]
  exchange :=
    { incoming := [bytes "HTTP/1.1 200 OK\r\ncontent-length: 0\r\n\r\n"]
      ending := .finished }

/-- The second of two runs sends both requests. -/
theorem exists_reused_unlike_fresh : ∃ r,
    Executes .bits64 (create 1).setCallback [simpleScenarioUse, simpleScenarioUse] 1 r
      simpleScenarioUse.exchange ∧
    (r.exchange .bits64 simpleScenarioUse.exchange).written
      = some (r.requestBytes ++ r.requestBytes) ∧
    ¬ LikeFresh .bits64 r simpleScenarioUse.exchange := by
  have hfirst : ([simpleScenarioUse].foldlM (useOnce .bits64) (create 1).setCallback).any (fun r =>
      let r := r.setAll simpleScenarioUse.setters
      r.execute.isSome && r.requestBuf == r.requestBytes) := by decide +kernel
  obtain ⟨r, hbefore, hr⟩ := (Option.any_eq_true _ _).mp hfirst
  simp only [Bool.and_eq_true, beq_iff_eq] at hr
  obtain ⟨hexec, hbuf⟩ := hr
  have hconnects : simpleScenarioUse.exchange.Connects := ⟨rfl, rfl⟩
  refine ⟨_, .intro rfl hbefore hexec, ?_, fun hlike => ?_⟩
  · rw [exchange_written hexec hconnects, hbuf]
  · exact requestBytes_ne_nil _ (hbuf.symm.trans (hlike.requestBuf hexec hconnects))

end HTTPRequest

end AsioSamples
