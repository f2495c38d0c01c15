import AsioSamples.Tcp.Dialogue

/-!
# Tcp/RoundTrip — every request is answered

What `sound` says about a step, carried to the end of a run.  A run of the dialogue always comes to
an end, since every step brings one of the sessions or services further (`terminates`); it does not
come to an end before every session has been called back (`called_back_of_stuck`); and the callback
is then the one that answers the request (`dialogue_answers`).
-/

namespace AsioSamples

namespace Dialogue

open AsyncTCPClient (Call Caller Callback Pc)
open Function (update)

variable {τ : Type*} [DecidableEq τ] {calls : ℕ → Call} {n : ℕ} {s s' : State τ}

/-! ## Nobody waits -/

/-- A thread that could go on is where no mutex is held and none is waited for. -/
theorem wants_of_stuck (h : Sound calls n s) (hstuck : (machine n).Stuck s) (t : τ) :
    s.client.pc t = .idle ∨ (s.client.pc t).wants ≠ none := by
  have hok := h.client.thread t
  have go : ∀ e, AsyncTCPClient.Enabled s.client e → ¬ Proceeds n s e :=
    fun e he hp => hstuck (.client e) ⟨he, hp⟩
  cases hpc : s.client.pc t with
  | idle => exact Or.inl rfl
  | submitting i p k =>
    cases p with
    | locking => exact Or.inr (by simp [Pc.wants])
    | storing => exact absurd trivial (go (.store t i k) hpc)
    | unlocking => exact absurd trivial (go (.submitUnlock t i k) hpc)
    | connecting => exact absurd trivial (go (.connect t i k) hpc)
  | cancelling p k =>
    rw [hpc] at hok
    exact hok.elim
  | handling i p =>
    cases p with
    | called op r => exact absurd trivial (go (.handle t i op r) hpc)
    | locking op => exact Or.inr (by simp [Pc.wants])
    | testing op => exact absurd trivial (go (.test t i op) hpc)
    | unlocking op => exact absurd trivial (go (.guardUnlock t i op) hpc)
    | initiating op => exact absurd trivial (go (.initiate t i op) hpc)
  | completing i guarded p =>
    rw [hpc] at hok
    cases p with
    | locking => exact Or.inr (by simp [Pc.wants])
    | erasing => exact absurd trivial (go (.erase t i guarded) hpc)
    | unlocking => exact absurd trivial (go (.completeUnlock t i guarded) hpc)
    | readingEc => exact absurd trivial (go (.readEc t i guarded) hpc)
    | readingFlag => exact absurd trivial (go (.readFlag t i guarded) hpc)
    | callingBack ec => exact absurd trivial (go (.callback t i guarded ec) hpc)
    | inCallback => exact absurd trivial (go (.callbackReturns t i guarded) hpc)
    | releasing => exact hok.elim

/-- A thread that waits for a mutex holds none. -/
theorem not_holds_of_wants {sent : ℕ → Bytes} : ∀ {p : Pc}, PcOk calls sent p → p.wants ≠ none →
    ∀ m, p.holds m = false
  | .submitting _ .locking k, hok, _, m => by
    cases m <;> cases k <;> simp_all [Pc.holds, PcOk, Unguarded, Caller.guards]
  | .handling _ (.locking _), _, _, m => by cases m <;> rfl
  | .completing _ _ .locking, hok, _, m => by
    cases m <;> simp_all [Pc.holds, PcOk]

/-- **Every thread is idle when nothing more happens.** -/
theorem idle_of_stuck (h : Sound calls n s) (hstuck : (machine n).Stuck s) (t : τ) :
    s.client.pc t = .idle := by
  refine (wants_of_stuck h hstuck t).resolve_right fun hwants => ?_
  have hguards := AsyncTCPClient.guards h.runs
  -- whoever holds the mutex could go on, or waits for another one
  have hfree : ∀ m, s.client.owner m = none := by
    intro m
    cases hown : s.client.owner m with
    | none => rfl
    | some u =>
      have hholds : (s.client.pc u).holds m := (hguards.owner m u).mp hown
      rcases wants_of_stuck h hstuck u with hidle | hwants'
      · rw [hidle] at hholds
        cases m <;> cases hholds
      · rw [not_holds_of_wants (h.client.thread u) hwants' m] at hholds
        cases hholds
  cases hpc : s.client.pc t with
  | submitting i p k =>
    cases p with
    | locking => exact hstuck (.client (.submitLock t i k)) ⟨⟨hpc, hfree _⟩, trivial⟩
    | _ => simp [hpc, Pc.wants] at hwants
  | handling i p =>
    cases p with
    | locking op => exact hstuck (.client (.guardLock t i op)) ⟨⟨hpc, hfree _⟩, trivial⟩
    | _ => simp [hpc, Pc.wants] at hwants
  | completing i guarded p =>
    cases p with
    | locking => exact hstuck (.client (.completeLock t i guarded)) ⟨⟨hpc, hfree _⟩, trivial⟩
    | _ => simp [hpc, Pc.wants] at hwants
  | cancelling p k => exact absurd (h.client.thread t) (by rw [hpc]; exact id)
  | idle => simp [hpc, Pc.wants] at hwants

/-! ## Every session is called back -/

/-- A service that has the whole request to read sends the whole reply. -/
theorem sent_of_stuck (h : Sound calls n s) (hstuck : (machine n).Stuck s) {i : ℕ}
    (hdialled : s.client.initiated i ≠ []) (hup : (s.up i).sent = request (calls i)) :
    (s.down i).sent = reply (calls i) := by
  have hserving := h.serving i
  generalize hsent : (s.down i).sent = sent at hserving
  cases hserving with
  | unaccepted haccepted hout => exact absurd ⟨haccepted, hdialled⟩ (hstuck (.accept i))
  | reading haccepted hservice hout =>
    have hmem : (⟨.readLine, none⟩ : Pending FakeOp) ∈ (s.serving i).outstanding := by simp [hout]
    by_cases hlf : lf ∈ (s.up i).received
    · exact absurd ⟨hmem, rfl, rfl, hlf⟩
        (hstuck (.serverComplete i .readLine ⟨.success, (s.up i).received⟩))
    · have hflight : (s.up i).inFlight ≠ [] := by
        intro hnone
        rw [← Channel.sent_of_inFlight hnone, hup] at hlf
        exact hlf (by simp [request])
      exact absurd ⟨hmem, hlf, Nat.one_pos, List.length_pos_of_ne_nil hflight⟩
        (hstuck (.serverArrive i 1))
  | read haccepted hservice hout =>
    exact absurd (show _ ∈ (s.serving i).outstanding by rw [hout]; exact List.mem_singleton_self _)
      (hstuck (.serverHandle i .readLine ⟨.success, request (calls i)⟩))
  | writing haccepted hout hstart =>
    have hmem : (⟨.write (reply (calls i)), none⟩ : Pending FakeOp) ∈
        (s.serving i).outstanding := by
      simp [hout]
    by_contra hne
    have hlt : sent.length < (reply (calls i)).length :=
      lt_of_le_of_ne hstart.length_le fun hlen => hne (hstart.eq_of_length hlen)
    exact hstuck (.serverTransmit i (reply (calls i)) 1) ⟨hmem, Nat.one_pos, hsent ▸ hlt⟩
  | written haccepted hout => rfl
  | gone haccepted hout => rfl

/-- **A session that waits for an operation does not wait for ever.** -/
theorem outstanding_of_stuck (h : Sound calls n s) (hstuck : (machine n).Stuck s) [Nonempty τ]
    (i : ℕ) : s.client.outstanding i = [] := by
  by_contra hne
  obtain ⟨⟨op, result⟩, hmem⟩ := List.exists_mem_of_ne_nil _ hne
  obtain ⟨hop, -⟩ := h.client.pending i _ hmem
  cases result with
  | some r =>
    obtain ⟨t⟩ := ‹Nonempty τ›
    exact hstuck (.client (.call t i op r)) ⟨⟨idle_of_stuck h hstuck t, hmem⟩, trivial⟩
  | none =>
    cases op with
    | connect ep =>
      exact hstuck (.client (.complete i (.connect ep) ⟨.success, []⟩)) ⟨hmem, rfl, rfl⟩
    | write buffer =>
      obtain rfl : buffer = request (calls i) := hop
      by_cases hsent : (s.up i).sent = request (calls i)
      · exact hstuck (.client (.complete i (.write _) ⟨.success, []⟩)) ⟨hmem, rfl, rfl, hsent⟩
      · have hstart := h.up i
        have hlt : (s.up i).sent.length < (request (calls i)).length :=
          lt_of_le_of_ne hstart.length_le fun hlen => hsent (hstart.eq_of_length hlen)
        exact hstuck (.transmit i _ 1) ⟨hmem, Nat.one_pos, hlt⟩
    | readLine =>
      have hdown := sent_of_stuck h hstuck (h.client.dialled i hne) hop
      by_cases hlf : lf ∈ (s.down i).received
      · exact hstuck (.client (.complete i .readLine ⟨.success, (s.down i).received⟩))
          ⟨hmem, rfl, rfl, hlf⟩
      · have hflight : (s.down i).inFlight ≠ [] := by
          intro hnone
          rw [← Channel.sent_of_inFlight hnone, hdown] at hlf
          exact hlf (by simp [reply])
        exact hstuck (.arrive i 1) ⟨hmem, hlf, Nat.one_pos, List.length_pos_of_ne_nil hflight⟩

/-- **Every request has been submitted, and every session called back, when nothing more
happens.** -/
theorem called_back_of_stuck (h : Sound calls n s) (hstuck : (machine n).Stuck s) [Nonempty τ]
    {i : ℕ} (hi : i < n) : s.client.callbacks i = [answerTo (calls i)] := by
  have hidle := idle_of_stuck h hstuck
  have hsubmitted : s.client.submitted = n := by
    refine le_antisymm h.submitted (not_lt.mp fun hlt => ?_)
    obtain ⟨t⟩ := ‹Nonempty τ›
    exact hstuck (.client (.submit t .outside)) ⟨hidle t, hlt⟩
  have hbaton := AsyncTCPClient.batons h.runs i
  rw [hsubmitted, decide_eq_true hi] at hbaton
  have hnobody : ∀ t, ¬ (s.client.pc t).session = some i := fun t => by simp [hidle t, Pc.session]
  rcases hbaton.of_idle hnobody with ⟨hone, -⟩ | ⟨-, hone⟩
  · rw [outstanding_of_stuck h hstuck i] at hone
    cases hone
  · obtain ⟨cb, hcb⟩ := List.length_eq_one_iff.mp hone
    rw [hcb, h.client.callbacks i cb (by simp [hcb])]

/-! ## Every run ends -/

/-- How far an operation is from the end of its session. -/
def opRank : SessionOp → ℕ
  | .connect _ => 33
  | .write _ => 26
  | .readLine => 19

def pendingRank (p : Pending SessionOp) : ℕ := opRank p.op + if p.result.isSome then 1 else 2

def callerRank : Caller → ℕ
  | .outside => 0
  | .callback _ _ => 2

/-- The steps a thread can still take, at most, before it is idle or has initiated an operation. -/
def pcRank : Pc → ℕ
  | .idle | .cancelling _ _ => 0
  | .submitting _ .locking k => 39 + callerRank k
  | .submitting _ .storing k => 38 + callerRank k
  | .submitting _ .unlocking k => 37 + callerRank k
  | .submitting _ .connecting k => 36 + callerRank k
  | .handling _ (.locking op) => opRank op + 6
  | .handling _ (.testing op) => opRank op + 5
  | .handling _ (.unlocking op) => opRank op + 4
  | .handling _ (.initiating op) => opRank op + 3
  | .handling _ (.called op _) => opRank op
  | .completing _ _ .locking => 8
  | .completing _ _ .erasing => 7
  | .completing _ _ .unlocking => 6
  | .completing _ _ .readingEc => 5
  | .completing _ _ .readingFlag => 4
  | .completing _ _ (.callingBack _) => 3
  | .completing _ _ .inCallback => 2
  | .completing _ _ .releasing => 1

@[simp] theorem pcRank_caller (k : Caller) : pcRank (.caller k) = callerRank k := by cases k <;> rfl

def fakeRank (p : Pending FakeOp) : ℕ :=
  (match p.op with
    | .readLine => 3
    | .write _ => 1) + if p.result.isSome then 0 else 1

def servingRank (v : Serving) : ℕ := if v.accepted then (v.outstanding.map fakeRank).sum else 5

/-- The bytes that a channel has still to carry of `message`, each of them to be sent and to
arrive. -/
def channelRank (message : Bytes) (ch : Channel) : ℕ :=
  2 * (message.length - ch.sent.length) + ch.inFlight.length

/-- A session that has still to be submitted has everything to do. -/
def submissionRank (submitted i : ℕ) : ℕ := if i < submitted then 0 else 40

/-- What is left to do for session `i`, apart from what a thread is doing for it. -/
def sessionRank (calls : ℕ → Call) (s : State τ) (i : ℕ) : ℕ :=
  submissionRank s.client.submitted i + ((s.client.outstanding i).map pendingRank).sum
    + channelRank (request (calls i)) (s.up i) + channelRank (reply (calls i)) (s.down i)
    + servingRank (s.serving i)

omit [DecidableEq τ] in
theorem sessionRank_congr {j : ℕ} (hsub : j < s'.client.submitted ↔ j < s.client.submitted)
    (hout : s'.client.outstanding j = s.client.outstanding j) (hup : s'.up j = s.up j)
    (hdown : s'.down j = s.down j) (hserving : s'.serving j = s.serving j) :
    sessionRank calls s' j = sessionRank calls s j := by
  simp only [sessionRank, submissionRank, hsub, hout, hup, hdown, hserving]

/-- What is left to do. -/
noncomputable def variant (calls : ℕ → Call) (n : ℕ) (s : State τ) : ℕ :=
  ∑ᶠ t, pcRank (s.client.pc t) + ∑ i ∈ Finset.range n, sessionRank calls s i

omit [DecidableEq τ] in
/-- A step that brings session `i` further and leaves the other ones and all threads alone. -/
theorem variant_lt {i : ℕ} (hi : i < n) (hpc : s'.client.pc = s.client.pc)
    (hothers : ∀ j, j ≠ i → sessionRank calls s' j = sessionRank calls s j)
    (h : sessionRank calls s' i < sessionRank calls s i) :
    variant calls n s' < variant calls n s := by
  have hsum : ∑ j ∈ Finset.range n, sessionRank calls s' j
      < ∑ j ∈ Finset.range n, sessionRank calls s j := by
    refine Finset.sum_lt_sum (fun j _ => ?_) ⟨i, Finset.mem_range.mpr hi, h⟩
    by_cases hji : j = i
    · exact hji ▸ h.le
    · exact (hothers j hji).le
  unfold variant
  rw [hpc]
  omega

/-- A step of one thread, at work on session `i`. -/
theorem variant_lt_of_thread (hfin : (fun t => pcRank (s.client.pc t)).support.Finite) {t : τ}
    {x : Pc} (hpc : s'.client.pc = update s.client.pc t x) {i : ℕ} (hi : i < n)
    (hothers : ∀ j, j ≠ i → sessionRank calls s' j = sessionRank calls s j)
    (h : pcRank x + sessionRank calls s' i < pcRank (s.client.pc t) + sessionRank calls s i) :
    variant calls n s' < variant calls n s := by
  have hthreads := finsum_update_add hfin t (pcRank x)
  have hupdate : (fun u => pcRank (s'.client.pc u))
      = update (fun u => pcRank (s.client.pc u)) t (pcRank x) := by
    rw [hpc]
    exact Function.comp_update pcRank s.client.pc t x
  have hmem := Finset.mem_range.mpr hi
  have hsum : ∑ j ∈ (Finset.range n).erase i, sessionRank calls s' j
      = ∑ j ∈ (Finset.range n).erase i, sessionRank calls s j :=
    Finset.sum_congr rfl fun j hj => hothers j (Finset.ne_of_mem_erase hj)
  unfold variant
  rw [← Finset.add_sum_erase _ (fun j => sessionRank calls s j) hmem,
    ← Finset.add_sum_erase _ (fun j => sessionRank calls s' j) hmem, hsum]
  have hbefore : ∑ᶠ u, update (fun u => pcRank (s.client.pc u)) t (pcRank x) u
      = ∑ᶠ u, pcRank (s'.client.pc u) := finsum_congr fun u => (congrFun hupdate u).symm
  omega

/-- A step of one thread that leaves every session where it is. -/
theorem variant_lt_of_pc (hfin : (fun t => pcRank (s.client.pc t)).support.Finite) {t : τ}
    {p x : Pc} (ht : s.client.pc t = p) (hpc : s'.client.pc = update s.client.pc t x)
    (hsame : ∀ j, sessionRank calls s' j = sessionRank calls s j) (h : pcRank x < pcRank p) :
    variant calls n s' < variant calls n s := by
  subst ht
  have hthreads := finsum_update_add hfin t (pcRank x)
  have hafter : ∑ᶠ u, pcRank (s'.client.pc u)
      = ∑ᶠ u, update (fun u => pcRank (s.client.pc u)) t (pcRank x) u :=
    finsum_congr fun u => by
      rw [hpc]
      exact congrFun (Function.comp_update pcRank s.client.pc t x) u
  have hsum : ∑ j ∈ Finset.range n, sessionRank calls s' j
      = ∑ j ∈ Finset.range n, sessionRank calls s j := Finset.sum_congr rfl fun j _ => hsame j
  unfold variant
  rw [hafter, hsum]
  omega

/-- At most one thread goes anywhere. -/
theorem pc_next (c : AsyncTCPClient.State τ) (e : AsyncTCPClient.Event τ) :
    (AsyncTCPClient.next c e).pc = c.pc ∨
      ∃ t x, (AsyncTCPClient.next c e).pc = update c.pc t x := by
  cases e with
  | complete i op r => exact Or.inl rfl
  | find t id k =>
    simp only [AsyncTCPClient.next]
    split <;> exact Or.inr ⟨t, _, rfl⟩
  | handle t i op r =>
    simp only [AsyncTCPClient.next]
    split <;> exact Or.inr ⟨t, _, rfl⟩
  | test t i op =>
    simp only [AsyncTCPClient.next]
    split <;> exact Or.inr ⟨t, _, rfl⟩
  | _ => exact Or.inr ⟨_, _, rfl⟩

/-- Finitely many threads are at work. -/
theorem finite_support (h : AsyncTCPClient.machine.Runs (.start calls) s.client) :
    (fun t => pcRank (s.client.pc t)).support.Finite := by
  refine h.invariant (I := fun c => (fun t => pcRank (c.pc t)).support.Finite) ?_
    fun c e _ hfin _ => ?_
  · exact Set.finite_empty.subset fun t ht => ht rfl
  · rcases pc_next c e with hsame | ⟨t, x, hupdate⟩
    · exact hsame ▸ hfin
    · refine (hfin.insert t).subset fun u hu => ?_
      by_cases hut : u = t
      · exact Set.mem_insert_iff.mpr (Or.inl hut)
      · refine Set.mem_insert_iff.mpr (Or.inr ?_)
        simpa only [AsyncTCPClient.machine, hupdate, Function.mem_support,
          Function.update_of_ne hut] using hu

/-- The first part of a handler leads to an operation that is nearer to the end of the session. -/
theorem opRank_lt_of_handle {σ : Session} {op op' : SessionOp} {r : Completion}
    (h : (σ.handle op r).2 = .testFlag op') : opRank op' + 6 < opRank op := by
  cases op with
  | connect ep =>
    simp only [Session.handle, Session.onConnected] at h
    split at h <;> cases h
    simp [opRank]
  | write buffer =>
    simp only [Session.handle, Session.onRequestWritten] at h
    split at h <;> cases h
    simp [opRank]
  | readLine =>
    simp only [Session.handle, Session.onResponseRead] at h
    split at h <;> cases h

theorem le_opRank : ∀ op : SessionOp, 19 ≤ opRank op
  | .connect _ | .write _ | .readLine => by simp [opRank]

omit [DecidableEq τ] in
/-- A session with an operation outstanding has no other one, and has been submitted. -/
theorem outstanding_eq_of_mem {c : AsyncTCPClient.State τ} (hb : AsyncTCPClient.Batons c) {i : ℕ}
    {p : Pending SessionOp} (hp : p ∈ c.outstanding i) :
    i < c.submitted ∧ c.outstanding i = [p] := by
  have hbaton := hb i
  have hpos := List.length_pos_of_mem hp
  have hone : (c.outstanding i).length = 1 := by
    have := hbaton.le_one
    omega
  obtain ⟨q, hq⟩ := List.length_eq_one_iff.mp hone
  rw [hq, List.mem_singleton] at hp
  refine ⟨?_, hp ▸ hq⟩
  by_contra hlt
  rw [decide_eq_false hlt, hone] at hbaton
  cases hbaton

/-- **A step of the client** brings a session further. -/
theorem variant_client (h : Sound calls n s) {e : AsyncTCPClient.Event τ}
    (he : AsyncTCPClient.Enabled s.client e) (hproceeds : Proceeds n s e) :
    variant calls n (next s (.client e)) < variant calls n s := by
  have hfin := finite_support h.runs
  have hb := AsyncTCPClient.batons h.runs
  -- the session a thread works on
  have hlt : ∀ {t : τ} {p : Pc} {i : ℕ}, s.client.pc t = p → p.session = some i →
      i < n ∧ s.client.outstanding i = [] := fun ht hp => by
    obtain ⟨hsub, hnone, -⟩ := hb.of_session (ht.symm ▸ hp)
    exact ⟨hsub.trans_le h.submitted, hnone⟩
  have other : ∀ {i j : ℕ} (ops : List (Pending SessionOp)), j ≠ i →
      update s.client.outstanding i ops j = s.client.outstanding j := fun ops hji =>
    Function.update_of_ne hji ..
  cases e with
  | submit t k =>
    have hpc : s.client.pc t = .caller k := he
    refine variant_lt_of_thread hfin rfl hproceeds (fun j hj => ?_) ?_
    · have hiff : j < s.client.submitted + 1 ↔ j < s.client.submitted := by omega
      exact sessionRank_congr hiff rfl rfl rfl rfl
    · rw [hpc, pcRank_caller]
      simp only [sessionRank, submissionRank, next, AsyncTCPClient.next, AsyncTCPClient.State.goto,
        pcRank, Nat.lt_succ_self, if_true, lt_irrefl, if_false]
      omega
  | connect t i k =>
    have hpc : s.client.pc t = .submitting i .connecting k := he
    obtain ⟨hi, hnone⟩ := hlt hpc rfl
    refine variant_lt_of_thread hfin rfl hi (fun j hj => ?_) ?_
    · exact sessionRank_congr Iff.rfl (other _ hj) rfl rfl rfl
    · simp only [hpc, sessionRank, next, AsyncTCPClient.next, AsyncTCPClient.State.goto,
        Function.update_self, hnone, Pending.initiate, pcRank_caller]
      simp [pcRank, pendingRank, opRank]
      omega
  | initiate t i op =>
    have hpc : s.client.pc t = .handling i (.initiating op) := he
    obtain ⟨hi, hnone⟩ := hlt hpc rfl
    refine variant_lt_of_thread hfin rfl hi (fun j hj => ?_) ?_
    · exact sessionRank_congr Iff.rfl (other _ hj) rfl rfl rfl
    · simp only [hpc, sessionRank, next, AsyncTCPClient.next, AsyncTCPClient.State.goto,
        Function.update_self, hnone, Pending.initiate]
      simp [pcRank, pendingRank]
      omega
  | complete i op r =>
    obtain ⟨hsub, hone⟩ := outstanding_eq_of_mem hb (show _ ∈ _ from he)
    refine variant_lt (hsub.trans_le h.submitted) rfl (fun j hj => ?_) ?_
    · exact sessionRank_congr Iff.rfl (other _ hj) rfl rfl rfl
    · simp [sessionRank, next, AsyncTCPClient.next, hone, Pending.complete_singleton, pendingRank]
  | call t i op r =>
    obtain ⟨hpc, hmem⟩ := he
    obtain ⟨hsub, hone⟩ := outstanding_eq_of_mem hb hmem
    refine variant_lt_of_thread hfin rfl (hsub.trans_le h.submitted) (fun j hj => ?_) ?_
    · exact sessionRank_congr Iff.rfl (other _ hj) rfl rfl rfl
    · simp [hpc, sessionRank, next, AsyncTCPClient.next, AsyncTCPClient.State.goto, hone,
        Pending.dequeue_singleton, pcRank, pendingRank]
      omega
  | handle t i op r =>
    have hpc : s.client.pc t = .handling i (.called op r) := he
    simp only [next, AsyncTCPClient.next]
    split
    · refine variant_lt_of_pc hfin hpc rfl (fun _ => rfl) ?_
      have hle := le_opRank op
      simp only [pcRank]
      omega
    next op' hctl =>
      exact variant_lt_of_pc hfin hpc rfl (fun _ => rfl) (opRank_lt_of_handle hctl)
  | test t i op =>
    have hpc : s.client.pc t = .handling i (.testing op) := he
    simp only [next, AsyncTCPClient.next]
    split
    · refine variant_lt_of_pc hfin hpc rfl (fun _ => rfl) ?_
      have hle := le_opRank op
      simp only [pcRank]
      omega
    · exact variant_lt_of_pc hfin hpc rfl (fun _ => rfl) (by simp [pcRank])
  | find t id k =>
    have hok := h.client.thread t
    rw [show s.client.pc t = .cancelling (.finding id) k from he] at hok
    exact hok.elim
  | readEc t i guarded =>
    refine variant_lt_of_pc hfin (show s.client.pc t = .completing i guarded .readingEc from he)
      rfl (fun _ => rfl) ?_
    split <;> simp [pcRank]
  | callbackReturns t i guarded =>
    refine variant_lt_of_pc hfin (show s.client.pc t = .completing i guarded .inCallback from he)
      rfl (fun _ => rfl) ?_
    split <;> simp [pcRank]
  | submitLock t i k | guardLock t i op | completeLock t i guarded =>
    exact variant_lt_of_pc hfin he.1 rfl (fun _ => rfl) (by simp [pcRank])
  | cancelRequest t id k => exact hproceeds.elim
  | cancelLock t id k | guard t i k =>
    have hok := h.client.thread t
    rw [he.1] at hok
    exact hok.elim
  | mark t i k | abort t i reached k | unguard t i k | cancelUnlock t k =>
    have hok := h.client.thread t
    rw [show s.client.pc t = _ from he] at hok
    exact hok.elim
  | _ => exact variant_lt_of_pc hfin he rfl (fun _ => rfl) (by simp [pcRank])

/-- To send some bytes and to receive some are both steps to the end of a channel. -/
theorem channelRank_transmitted {message buffer : Bytes} {ch : Channel} {k : ℕ}
    (hbuffer : buffer = message) (hsent : ch.sent <+: message) (hpos : 0 < k)
    (hle : ch.sent.length + k ≤ message.length) :
    channelRank message (transmitted ch buffer k) < channelRank message ch := by
  subst hbuffer
  unfold channelRank
  rw [sent_transmitted hsent]
  simp only [transmitted, Channel.send, List.length_append, List.length_take, List.length_drop]
  omega

theorem channelRank_receive (message : Bytes) {ch : Channel} {k : ℕ} (hpos : 0 < k)
    (hle : k ≤ ch.inFlight.length) :
    channelRank message (ch.receive k) < channelRank message ch := by
  unfold channelRank
  rw [Channel.sent_receive]
  simp only [Channel.receive, List.length_drop]
  omega

/-- A step of a service brings it further. -/
theorem servingRank_complete {v : Serving} {request reply sent : Bytes}
    (h : v.Answers request reply sent) {op : FakeOp} {r : Completion}
    (hmem : (⟨op, none⟩ : Pending FakeOp) ∈ v.outstanding) :
    servingRank (v.complete op r) < servingRank v := by
  cases h with
  | reading haccepted _ hout | writing haccepted hout =>
    obtain rfl := by simpa [hout] using hmem
    simp [servingRank, haccepted, Serving.complete, hout, Pending.complete_singleton, fakeRank]
  | unaccepted _ hout | read _ _ hout | written _ hout | gone _ hout => simp [hout] at hmem

theorem servingRank_handle {v : Serving} {request reply sent : Bytes}
    (h : v.Answers request reply sent) {op : FakeOp} {r : Completion}
    (hmem : (⟨op, some r⟩ : Pending FakeOp) ∈ v.outstanding) :
    servingRank (v.handle op r) < servingRank v := by
  cases h with
  | read haccepted _ hout =>
    obtain ⟨rfl, rfl⟩ := by simpa [hout] using hmem
    simp [servingRank, haccepted, Serving.handle, hout, Pending.dequeue_singleton, fakeRank,
      ServiceFakeAsync.handle, ServiceFakeAsync.recieveRequest, Pending.initiate]
  | written haccepted hout =>
    obtain ⟨rfl, rfl⟩ := by simpa [hout] using hmem
    simp [servingRank, haccepted, Serving.handle, hout, Pending.dequeue_singleton, fakeRank,
      ServiceFakeAsync.handle, ServiceFakeAsync.sendAnswer]
  | unaccepted _ hout | reading _ _ hout | writing _ hout | gone _ hout => simp [hout] at hmem

/-- **Every step brings a session or a service further.** -/
theorem variant_next (h : Sound calls n s) {e : Event τ} (he : Enabled n s e) :
    variant calls n (next s e) < variant calls n s := by
  have hb := AsyncTCPClient.batons h.runs
  cases e with
  | client e => exact variant_client h he.1 he.2
  | transmit i buffer k =>
    obtain ⟨hmem, hpos, hle⟩ := he
    have hbuffer : buffer = request (calls i) := (h.client.pending i _ hmem).1
    have hi := (outstanding_eq_of_mem hb hmem).1.trans_le h.submitted
    refine variant_lt hi rfl (fun j hj => ?_) ?_
    · exact sessionRank_congr Iff.rfl rfl (Function.update_of_ne hj ..) rfl rfl
    · have hrank := channelRank_transmitted hbuffer (h.up i) hpos (hbuffer ▸ hle)
      simp only [sessionRank, next, Function.update_self]
      omega
  | arrive i k =>
    obtain ⟨hmem, -, hpos, hle⟩ := he
    have hi := (outstanding_eq_of_mem hb hmem).1.trans_le h.submitted
    refine variant_lt hi rfl (fun j hj => ?_) ?_
    · exact sessionRank_congr Iff.rfl rfl rfl (Function.update_of_ne hj ..) rfl
    · have hrank := channelRank_receive (reply (calls i)) hpos hle
      simp only [sessionRank, next, Function.update_self]
      omega
  | accept i =>
    obtain ⟨haccepted, hdialled⟩ := he
    refine variant_lt (h.initiated i hdialled) rfl (fun j hj => ?_) ?_
    · exact sessionRank_congr Iff.rfl rfl rfl rfl (Function.update_of_ne hj ..)
    · have hrank : servingRank (s.serving i).accept < servingRank (s.serving i) := by
        simp [servingRank, haccepted, Serving.accept, Pending.initiate, fakeRank,
          ServiceFakeAsync.handleRequest]
      simp only [sessionRank, next, Function.update_self]
      omega
  | serverArrive i k =>
    obtain ⟨hmem, -, hpos, hle⟩ := he
    refine variant_lt (h.accepted i ((h.serving i).accepted_of_mem hmem)) rfl (fun j hj => ?_) ?_
    · exact sessionRank_congr Iff.rfl rfl (Function.update_of_ne hj ..) rfl rfl
    · have hrank := channelRank_receive (request (calls i)) hpos hle
      simp only [sessionRank, next, Function.update_self]
      omega
  | serverTransmit i buffer k =>
    obtain ⟨hmem, hpos, hle⟩ := he
    obtain ⟨hbuffer, -⟩ := (h.serving i).writing_of_mem hmem
    refine variant_lt (h.accepted i ((h.serving i).accepted_of_mem hmem)) rfl (fun j hj => ?_) ?_
    · exact sessionRank_congr Iff.rfl rfl rfl (Function.update_of_ne hj ..) rfl
    · have hrank := channelRank_transmitted hbuffer (h.serving i).sent_start hpos (hbuffer ▸ hle)
      simp only [sessionRank, next, Function.update_self]
      omega
  | serverComplete i op r =>
    obtain ⟨hmem, -⟩ := he
    refine variant_lt (h.accepted i ((h.serving i).accepted_of_mem hmem)) rfl (fun j hj => ?_) ?_
    · exact sessionRank_congr Iff.rfl rfl rfl rfl (Function.update_of_ne hj ..)
    · have hrank := servingRank_complete (r := r) (h.serving i) hmem
      simp only [sessionRank, next, Function.update_self]
      omega
  | serverHandle i op r =>
    refine variant_lt (h.accepted i ((h.serving i).accepted_of_mem he)) rfl (fun j hj => ?_) ?_
    · exact sessionRank_congr Iff.rfl rfl rfl rfl (Function.update_of_ne hj ..)
    · have hrank := servingRank_handle (h.serving i) he
      simp only [sessionRank, next, Function.update_self]
      omega

/-- **Every run comes to an end.** -/
theorem terminates (h : (machine n).Runs (.start calls) s) : (machine n).Terminates s :=
  Machine.terminates_of_variant (variant calls n) fun _ _ h' he =>
    variant_next (sound (h.trans h')) he

/-! ## The round trip -/

/-- **Every request is answered, each with its own answer.**  Whatever has happened so far, a
session has not been called back, or has been once, with a success code and the response to the
duration it was submitted with; the run comes to an end; and in the end every session has been. -/
theorem dialogue_answers [Nonempty τ] (h : (machine n).Runs (.start calls) s) :
    (∀ i, s.client.callbacks i = [] ∨ s.client.callbacks i = [answerTo (calls i)]) ∧
      (machine n).Terminates s ∧
      ∀ s', (machine n).Runs s s' → (machine n).Stuck s' →
        ∀ i < n, s'.client.callbacks i = [answerTo (calls i)] := by
  have hs := sound h
  refine ⟨fun i => ?_, terminates h, fun s' h' hstuck i hi =>
    called_back_of_stuck (sound (h.trans h')) hstuck hi⟩
  have hle := (AsyncTCPClient.batons hs.runs i).le_one
  cases hcb : s.client.callbacks i with
  | nil => exact Or.inl rfl
  | cons cb cbs =>
    rw [hcb, List.length_cons] at hle
    have hnil : cbs = [] := List.length_eq_zero_iff.mp (by omega)
    rw [hnil, hs.client.callbacks i cb (by simp [hcb])]
    exact Or.inr rfl

/-- Two requests at a time, and to each its own answer. -/
theorem dialogue_answers_numberedCalls : ∃ s : State Bool,
    (machine 2).Runs (.start AsyncTCPClient.numberedCalls) s ∧
      s.client.callbacks 0 = [⟨0, bytes "request is processed!: EMULATE_LONG_CALC_OP 0", .success⟩] ∧
      s.client.callbacks 1
        = [⟨1, bytes "request is processed!: EMULATE_LONG_CALC_OP 1", .success⟩] := by
  have hstart : (machine 2).Runs (.start AsyncTCPClient.numberedCalls : State Bool)
      (.start AsyncTCPClient.numberedCalls) := .start
  obtain ⟨-, hends, hall⟩ := dialogue_answers hstart
  obtain ⟨s, hs, hstuck⟩ := hends.exists_stuck
  exact ⟨s, hs, (hall s hs hstuck 0 Nat.two_pos).trans (by decide),
    (hall s hs hstuck 1 Nat.one_lt_two).trans (by decide)⟩

end Dialogue

end AsioSamples
