import AsioSamples.Tcp.Threads

/-!
# Tcp/Registry — the sessions in `m_active_sessions`, and what their callbacks are told

`m_active_sessions` is overwritten on submission and erased by id on completion, and ids are the
caller's.  What survives any reuse of ids is that a session is only ever listed under its own id,
and never once its own erase has been done (`listed`); each session is called back once, with its
own id and its own response (`session_called_back_once`).

That a live session *is* listed needs more: `find_of_registered` holds as long as no registration
under its id finds an entry there, and `exists_replaced` is what happens otherwise.
-/

namespace AsioSamples

namespace AsyncTCPClient

variable {τ : Type*} [DecidableEq τ] {s s' : State τ} {e : Event τ} {calls : ℕ → Call}

open Function (update)

/-! ## What never changes, and what changes once -/

/-- **A session keeps its id.** -/
theorem id_next (s : State τ) (e : Event τ) :
    ∀ i, ((next s e).session i).id = (s.session i).id := by
  cases e with
  | mark t j k => exact apply_update_eq Session.id rfl
  | handle t j op c =>
    rcases next_handle_cases s t j op c with ⟨σ, hid, -, -, heq⟩ | ⟨op', heq⟩
    · rw [heq]
      exact apply_update_eq Session.id hid
    · rw [heq]
      exact fun _ => rfl
  | find t id k => simp only [next]; split <;> exact fun _ => rfl
  | test t j op => simp only [next]; split <;> exact fun _ => rfl
  | _ => exact fun _ => rfl

theorem key_next (s : State τ) (e : Event τ) (i : ℕ) : (next s e).key i = s.key i :=
  congrArg UInt32.toInt32 (id_next s e i)

theorem id_eq (h : machine.Runs (.start calls) s) (i : ℕ) :
    (s.session i).id = (calls i).requestId :=
  h.invariant (I := fun s => (s.session i).id = (calls i).requestId) rfl fun s' e _ hs' _ =>
    (id_next s' e i).trans hs'

omit [DecidableEq τ] in
/-- The stage of a thread's own session. -/
theorem Staged.of_pc (h : Staged s) {t : τ} {p : Pc} {i : ℕ} (ht : s.pc t = p)
    (hp : p.session = some i) : s.stage i = p.stage := by
  rw [h.thread t i (ht.symm ▸ hp), ht]

/-- **What is erased stays erased.** -/
theorem erased_next (hs : Staged s) (he : Enabled s e) {i : ℕ} (hi : s.stage i = .erased) :
    (next s e).stage i = .erased := by
  have other : ∀ {t : τ} {p : Pc} {j : ℕ} {st : Stage}, s.pc t = p → p.session = some j →
      p.stage ≠ .erased → update s.stage j st i = .erased := by
    intro t p j st ht hp hst
    have hij : i ≠ j := by
      rintro rfl
      exact hst ((hs.of_pc ht hp).symm.trans hi)
    rw [Function.update_of_ne hij, hi]
  cases e with
  | store t j k => exact other he rfl (by simp [Pc.stage])
  | handle t j op c =>
    simp only [next]
    split
    · exact other he rfl (by simp [Pc.stage])
    · exact hi
  | test t j op =>
    simp only [next]
    split
    · exact other he rfl (by simp [Pc.stage])
    · exact hi
  | erase t j guarded => exact other he rfl (by simp [Pc.stage])
  | find t id k => simp only [next]; split <;> exact hi
  | _ => exact hi

theorem erased_of_runs (h : machine.Runs (.start calls) s) {i : ℕ} (hi : s.stage i = .erased)
    (h' : machine.Runs s s') : s'.stage i = .erased :=
  h'.invariant (I := fun s' => s'.stage i = .erased) hi fun _ _ hr hs' he =>
    erased_next (staged (h.trans hr)) he hs'

/-! ## The registry -/

/-- A session is only listed under its own id, and only before its erase. -/
def Listed (s : State τ) : Prop :=
  ∀ k i, s.activeSessions.find k = some i →
    k = s.key i ∧ (s.stage i = .registered ∨ s.stage i = .entered)

omit [DecidableEq τ] in
/-- What is listed has not been erased. -/
theorem Listed.not_erased (h : Listed s) {k : Int32} {i : ℕ}
    (hk : s.activeSessions.find k = some i) : s.stage i ≠ .erased := by
  rcases (h k i hk).2 with hreg | hent
  · rw [hreg]
    decide
  · rw [hent]
    decide

omit [DecidableEq τ] in
/-- A step that lists nothing new and erases no session. -/
theorem Listed.keep (h : Listed s) (hmap : s'.activeSessions = s.activeSessions)
    (hkey : ∀ i, s'.key i = s.key i)
    (hstage : ∀ i, s'.stage i = s.stage i ∨ s'.stage i = .entered) : Listed s' := by
  intro k i hk
  rw [hmap] at hk
  obtain ⟨hki, hi⟩ := h k i hk
  refine ⟨hki.trans (hkey i).symm, ?_⟩
  rcases hstage i with hsame | hent
  · rwa [hsame]
  · exact Or.inr hent

theorem listed_next (h : Listed s) : Listed (next s e) := by
  cases e with
  | store t j k =>
    intro k i hk
    change (s.activeSessions.assign (s.key j) j).find k = some i at hk
    change k = s.key i ∧ (update s.stage j .registered i = _ ∨ update s.stage j .registered i = _)
    rw [StdMap.find_assign] at hk
    split at hk
    next hkj =>
      obtain rfl := Option.some.inj hk
      exact ⟨hkj, Or.inl (Function.update_self ..)⟩
    next hkj =>
      obtain ⟨hki, hi⟩ := h k i hk
      have hij : i ≠ j := by
        rintro rfl
        exact hkj hki
      exact ⟨hki, by rwa [Function.update_of_ne hij]⟩
  | erase t j guarded =>
    intro k i hk
    change (s.activeSessions.erase (s.key j)).find k = some i at hk
    change k = s.key i ∧ (update s.stage j .erased i = _ ∨ update s.stage j .erased i = _)
    rw [StdMap.find_erase] at hk
    split at hk
    next => cases hk
    next hkj =>
      obtain ⟨hki, hi⟩ := h k i hk
      have hij : i ≠ j := by
        rintro rfl
        exact hkj hki
      exact ⟨hki, by rwa [Function.update_of_ne hij]⟩
  | handle t j op c =>
    have hkey := key_next s (.handle t j op c)
    rcases next_handle_cases s t j op c with ⟨σ, -, -, -, heq⟩ | ⟨op', heq⟩
    · rw [heq] at hkey ⊢
      exact h.keep rfl hkey (update_eq_or s.stage j .entered)
    · rw [heq]
      exact h.keep rfl (fun _ => rfl) fun _ => Or.inl rfl
  | test t j op =>
    simp only [next]
    split
    · exact h.keep rfl (fun _ => rfl) (update_eq_or s.stage j .entered)
    · exact h.keep rfl (fun _ => rfl) fun _ => Or.inl rfl
  | find t id k =>
    simp only [next]
    split <;> exact h.keep rfl (fun _ => rfl) fun _ => Or.inl rfl
  | mark t j k => exact h.keep rfl (key_next s _) fun _ => Or.inl rfl
  | _ => exact h.keep rfl (fun _ => rfl) fun _ => Or.inl rfl

/-- **A session is only listed under its own id, and never after its erase**, in every state. -/
theorem listed (h : machine.Runs (.start calls) s) : Listed s := by
  refine h.invariant (fun k i hk => ?_) fun _ _ _ hs _ => listed_next hs
  cases hk

theorem not_listed_of_erased (h : machine.Runs (.start calls) s) {i : ℕ}
    (hi : s.stage i = .erased) (k : Int32) : s.activeSessions.find k ≠ some i :=
  fun hk => (listed h).not_erased hk hi

/-! ## What a callback is told -/

/-- A response is empty, or the line read on the session's own socket. -/
structure Answered (s : State τ) : Prop where
  untouched : ∀ i, s.stage i = .unregistered ∨ s.stage i = .registered →
    (s.session i).Untouched ∧ s.received i = []
  response : ∀ i, (s.session i).response = [] ∨
    (s.session i).response = Session.firstLine (s.received i)
  callbacks : ∀ i, ∀ cb ∈ s.callbacks i, cb.id = (s.session i).id ∧
    (cb.response = [] ∨ cb.response = Session.firstLine (s.received i))

omit [DecidableEq τ] in
/-- A step that reads nothing, calls nothing back and takes no session back. -/
theorem Answered.keep (h : Answered s) (hsession : s'.session = s.session)
    (hreceived : s'.received = s.received) (hcallbacks : s'.callbacks = s.callbacks)
    (hstage : ∀ i, s'.stage i = .unregistered ∨ s'.stage i = .registered →
      s.stage i = .unregistered ∨ s.stage i = .registered) : Answered s' := by
  constructor
  · rw [hsession, hreceived]
    exact fun i hi => h.untouched i (hstage i hi)
  · rw [hsession, hreceived]
    exact h.response
  · rw [hsession, hreceived, hcallbacks]
    exact h.callbacks

/-- **The handler of a session** reads for it, and for no other. -/
theorem answered_handle (hb : Batons s) (hs : Staged s) (h : Answered s) {t : τ} {j : ℕ}
    {op : SessionOp} {c : Completion} (ht : s.pc t = .handling j (.called op c)) :
    Answered (next s (.handle t j op c)) := by
  obtain ⟨hun, hrec⟩ := h.untouched j (Or.inr (hs.of_pc ht rfl))
  obtain ⟨-, -, hnocb, -⟩ := hb.of_session (i := j) (by rw [ht]; rfl)
  have hid := id_next s (.handle t j op c)
  rcases next_handle_cases s t j op c with ⟨σ, -, -, hline, heq⟩ | ⟨op', heq⟩
  · rw [heq] at hid ⊢
    refine ⟨fun i hi => ?_, fun i => ?_, fun i cb hmem => ?_⟩
    · have hij : i ≠ j := by
        rintro rfl
        simp [State.goto] at hi
      simp only [State.goto, Function.update_of_ne hij] at hi ⊢
      exact h.untouched i hi
    · by_cases hij : i = j
      · subst hij
        simp only [State.goto, Function.update_self, hrec, List.nil_append]
        exact hline hun
      · simp only [State.goto, Function.update_of_ne hij]
        exact h.response i
    · have hij : i ≠ j := by
        rintro rfl
        simp [State.goto, hnocb] at hmem
      rw [hid]
      simp only [State.goto, Function.update_of_ne hij]
      exact h.callbacks i cb hmem
  · rw [heq]
    exact ⟨h.untouched, h.response, h.callbacks⟩

theorem answered_next (hb : Batons s) (hs : Staged s) (h : Answered s) (he : Enabled s e) :
    Answered (next s e) := by
  -- a stage after the handler leaves the earlier ones as they were
  have late : ∀ {j : ℕ} {st : Stage}, st ≠ .unregistered → st ≠ .registered → ∀ i,
      update s.stage j st i = .unregistered ∨ update s.stage j st i = .registered →
        s.stage i = .unregistered ∨ s.stage i = .registered :=
    fun hun hreg _ hi => hi.imp (eq_of_update_eq · hun) (eq_of_update_eq · hreg)
  cases e with
  | store t j k =>
    refine h.keep rfl rfl rfl fun i hi => ?_
    change update s.stage j .registered i = _ ∨ update s.stage j .registered i = _ at hi
    by_cases hij : i = j
    · subst hij
      exact Or.inl (hs.of_pc he rfl)
    · rwa [Function.update_of_ne hij] at hi
  | mark t j k =>
    have hresponse : ∀ i, ((next s (.mark t j k)).session i).response = (s.session i).response :=
      apply_update_eq Session.response rfl
    have hbuf : ∀ i, ((next s (.mark t j k)).session i).responseBuf = (s.session i).responseBuf :=
      apply_update_eq Session.responseBuf rfl
    refine ⟨fun i hi => ?_, fun i => ?_, fun i cb hcb => ?_⟩
    · obtain ⟨hun, hrec⟩ := h.untouched i hi
      exact ⟨⟨(hresponse i).trans hun.response, (hbuf i).trans hun.responseBuf⟩, hrec⟩
    · rw [hresponse]
      exact h.response i
    · rw [id_next]
      exact h.callbacks i cb hcb
  | handle t j op c => exact answered_handle hb hs h he
  | test t j op =>
    simp only [next]
    split
    · exact h.keep rfl rfl rfl (late (by decide) (by decide))
    · exact ⟨h.untouched, h.response, h.callbacks⟩
  | erase t j guarded => exact h.keep rfl rfl rfl (late (by decide) (by decide))
  | find t id k =>
    simp only [next]
    split <;> exact ⟨h.untouched, h.response, h.callbacks⟩
  | callback t j guarded ec =>
    refine ⟨h.untouched, h.response, fun i cb hcb => ?_⟩
    by_cases hij : i = j
    · subst hij
      simp only [next, State.goto, Function.update_self] at hcb
      rcases List.mem_append.mp hcb with hold | hnew
      · exact h.callbacks i cb hold
      · obtain rfl := List.mem_singleton.mp hnew
        exact ⟨rfl, h.response i⟩
    · simp only [next, State.goto, Function.update_of_ne hij] at hcb
      exact h.callbacks i cb hcb
  | _ => exact ⟨h.untouched, h.response, h.callbacks⟩

/-- **A response is empty, or the line read on the session's own socket**, in every state. -/
theorem answered (h : machine.Runs (.start calls) s) : Answered s := by
  refine h.invariant ⟨fun i _ => ⟨⟨rfl, rfl⟩, rfl⟩, fun i => Or.inl rfl, fun i cb hcb => ?_⟩
    fun _ _ hr hs he => answered_next (batons hr) (staged hr) hs he
  cases hcb

/-! ## One callback -/

/-- **Exactly one callback per session.**  A session is called back at most once; between its
handlers it either waits for one operation and has not been called back, or waits for none and has
been; the callback carries the session's own id and its own response; and once its erase has been
done the session is never again in `m_active_sessions`. -/
theorem session_called_back_once (h : machine.Runs (.start calls) s) (i : ℕ) :
    (s.callbacks i).length ≤ 1 ∧
    (i < s.submitted → (∀ t, (s.pc t).busyWith i = false) →
      (s.outstanding i).length = 1 ∧ (s.callbacks i).length = 0 ∨
        (s.outstanding i).length = 0 ∧ (s.callbacks i).length = 1) ∧
    (∀ cb ∈ s.callbacks i, cb.id = (s.session i).id ∧
      (cb.response = [] ∨ cb.response = Session.firstLine (s.received i))) ∧
    (s.stage i = .erased → ∀ s', machine.Runs s s' → ∀ k, s'.activeSessions.find k ≠ some i) := by
  refine ⟨?_, fun hi hidle => ?_, (answered h).callbacks i, fun hi s' h' => ?_⟩
  · have hle := (batons h i).le_one
    omega
  · have hbaton := batons h i
    rw [decide_eq_true hi] at hbaton
    refine hbaton.of_idle fun t ht => ?_
    have hbusy := hidle t
    simp [Pc.busyWith, ht] at hbusy
  · exact not_listed_of_erased (h.trans h') (erased_of_runs h hi h')

theorem session_called_back_once_sampleCalls : ∃ s : State Bool,
    machine.Runs (.start sampleCalls) s ∧ (s.outstanding 0).length = 0 ∧
      (s.callbacks 0).length = 1 ∧ ∀ k, s.activeSessions.find k ≠ some 0 := by
  obtain ⟨s, hs, hsub, hidle, hcb, hstage⟩ := Machine.exists_runs_of_exec
    (m := machine) (s := .start sampleCalls)
    (Q := fun s : State Bool => 0 < s.submitted ∧ (∀ t, (s.pc t).busyWith 0 = false) ∧
      s.callbacks 0 ≠ [] ∧ s.stage 0 = .erased)
    (toReadBy true 0 ++ handleBy true 0 .readLine ⟨.success, bytes "request is processed!\n"⟩
      ++ completeBy true 0 false ++ [.readFlag true 0 false,
        .callback true 0 false .success, .callbackReturns true 0 false]) (by decide +kernel)
  obtain ⟨-, hone, -, hgone⟩ := session_called_back_once hs 0
  rcases hone hsub hidle with ⟨-, hnone⟩ | ⟨hout, hlen⟩
  · exact absurd (List.length_eq_zero_iff.mp hnone) hcb
  · exact ⟨s, hs, hout, hlen, hgone hstage s .start⟩

/-! ## Live sessions -/

/-- No registration under `key` finds an entry there. -/
def NoReuse (key : Int32) (s : State τ) : Event τ → Prop
  | .store _ i _ => s.key i = key → s.activeSessions.find key = none
  | _ => True

instance (key : Int32) (s : State τ) (e : Event τ) : Decidable (NoReuse key s e) :=
  match e with
  | .store .. => inferInstanceAs (Decidable (_ → _))
  | .submit .. | .submitLock .. | .submitUnlock .. | .connect .. | .cancelRequest ..
  | .cancelLock .. | .find .. | .guard .. | .mark .. | .abort .. | .unguard .. | .cancelUnlock ..
  | .complete .. | .call .. | .handle .. | .guardLock .. | .test .. | .guardUnlock ..
  | .initiate .. | .completeLock .. | .erase .. | .completeUnlock .. | .readEc .. | .readFlag ..
  | .callback .. | .callbackReturns .. | .release .. => inferInstanceAs (Decidable True)

/-- A session with that key is listed from its registration to its erase. -/
def Kept (key : Int32) (s : State τ) : Prop :=
  ∀ i, s.key i = key → s.stage i = .registered ∨ s.stage i = .entered →
    s.activeSessions.find key = some i

omit [DecidableEq τ] in
/-- A step that leaves the registry alone and brings no session into it. -/
theorem Kept.keep {key : Int32} (h : Kept key s) (hmap : s'.activeSessions = s.activeSessions)
    (hkey : ∀ i, s'.key i = s.key i)
    (hstage : ∀ i, s'.stage i = .registered ∨ s'.stage i = .entered →
      s.stage i = .registered ∨ s.stage i = .entered) : Kept key s' := by
  intro i hi hst
  rw [hmap]
  exact h i ((hkey i).symm.trans hi) (hstage i hst)

theorem kept_next {key : Int32} (hs : Staged s) (h : Kept key s) (he : Enabled s e)
    (hreuse : NoReuse key s e) : Kept key (next s e) := by
  have entered : ∀ {j : ℕ}, s.stage j = .registered → ∀ i,
      update s.stage j .entered i = .registered ∨ update s.stage j .entered i = .entered →
        s.stage i = .registered ∨ s.stage i = .entered := by
    intro j hj i hi
    by_cases hij : i = j
    · subst hij
      exact Or.inl hj
    · rwa [Function.update_of_ne hij] at hi
  cases e with
  | store t j k =>
    intro i hi hst
    change s.key i = key at hi
    change update s.stage j .registered i = _ ∨ update s.stage j .registered i = _ at hst
    change (s.activeSessions.assign (s.key j) j).find key = some i
    rw [StdMap.find_assign]
    by_cases hij : i = j
    · subst hij
      exact if_pos hi.symm
    · rw [Function.update_of_ne hij] at hst
      have hkey : key ≠ s.key j := by
        intro hkey
        have hfree : s.activeSessions.find key = none := hreuse hkey.symm
        rw [h i hi hst] at hfree
        cases hfree
      rw [if_neg hkey]
      exact h i hi hst
  | erase t j guarded =>
    intro i hi hst
    change s.key i = key at hi
    change update s.stage j .erased i = _ ∨ update s.stage j .erased i = _ at hst
    change (s.activeSessions.erase (s.key j)).find key = some i
    have hij : i ≠ j := by
      rintro rfl
      rw [Function.update_self] at hst
      rcases hst with hst | hst <;> cases hst
    rw [Function.update_of_ne hij] at hst
    have hj : s.stage j = .entered := hs.of_pc he rfl
    have hkey : key ≠ s.key j := by
      intro hkey
      have hsame := h i hi hst
      rw [h j hkey.symm (Or.inr hj)] at hsame
      exact hij (Option.some.inj hsame).symm
    rw [StdMap.find_erase, if_neg hkey]
    exact h i hi hst
  | handle t j op c =>
    have hkey := key_next s (.handle t j op c)
    rcases next_handle_cases s t j op c with ⟨σ, -, -, -, heq⟩ | ⟨op', heq⟩
    · rw [heq] at hkey ⊢
      exact h.keep rfl hkey (entered (hs.of_pc he rfl))
    · rw [heq]
      exact h.keep rfl (fun _ => rfl) fun _ hi => hi
  | test t j op =>
    simp only [next]
    split
    · exact h.keep rfl (fun _ => rfl) (entered (hs.of_pc he rfl))
    · exact h.keep rfl (fun _ => rfl) fun _ hi => hi
  | find t id k =>
    simp only [next]
    split <;> exact h.keep rfl (fun _ => rfl) fun _ hi => hi
  | mark t j k => exact h.keep rfl (key_next s _) fun _ hi => hi
  | _ => exact h.keep rfl (fun _ => rfl) fun _ hi => hi

/-- **Every live session stays cancellable**, in every run in which no registration under its id
finds an entry there: it is the one listed under its id, whatever happens under other ids. -/
theorem find_of_registered {key : Int32}
    (h : (machine.restrict (NoReuse key)).Runs (.start calls) s) {i : ℕ}
    (hkey : (s.session i).id.toInt32 = key) (hi : s.stage i = .registered) :
    s.activeSessions.find (s.session i).id.toInt32 = some i := by
  rw [hkey]
  refine h.invariant (I := Kept key) (fun j _ hj => ?_) (fun s' e hr hs' he => ?_) i hkey
    (Or.inl hi)
  · rcases hj with hj | hj <;> cases hj
  · exact kept_next (staged hr.of_restrict) hs' he.1 he.2

/-- While a session waits, another one comes, is refused, and goes. -/
theorem find_of_registered_numberedCalls : ∃ s : State Bool,
    (machine.restrict (NoReuse 0)).Runs (.start numberedCalls) s ∧ s.stage 1 = .erased ∧
      (s.callbacks 1).length = 1 ∧ s.activeSessions.find (s.session 0).id.toInt32 = some 0 := by
  let refused : ErrorCode := ⟨10061, "system"⟩
  obtain ⟨s, hs, hkey, hstage, herased, hcalled⟩ := Machine.exists_runs_of_exec
    (m := machine.restrict (NoReuse 0)) (s := .start numberedCalls)
    (Q := fun s : State Bool => (s.session 0).id.toInt32 = 0 ∧ s.stage 0 = .registered ∧
      s.stage 1 = .erased ∧ (s.callbacks 1).length = 1)
    (submitBy true 0 ++ submitBy true 1 ++ handleBy true 1 sampleConnect ⟨refused, []⟩
      ++ completeBy true 1 false ++ [.callback true 1 false refused,
        .callbackReturns true 1 false]) (by decide +kernel)
  exact ⟨s, hs, herased, hcalled, find_of_registered hs hkey hstage⟩

/-- Two submissions with one id: the second takes the place of the first, which is still waiting
for its connect. -/
theorem exists_replaced : ∃ s : State Bool, machine.Runs (.start sampleCalls) s ∧
    s.stage 0 = .registered ∧ (s.outstanding 0).length = 1 ∧
      s.activeSessions.find (s.session 0).id.toInt32 = some 1 :=
  Machine.exists_runs_of_exec (m := machine) (s := .start sampleCalls)
    (Q := fun s : State Bool => s.stage 0 = .registered ∧ (s.outstanding 0).length = 1 ∧
      s.activeSessions.find (s.session 0).id.toInt32 = some 1)
    (submitBy true 0 ++ submitBy true 1) (by decide +kernel)

end AsyncTCPClient

end AsioSamples
