import AsioSamples.Asio.Channel
import AsioSamples.Tcp.Registry
import AsioSamples.Tcp.Service

/-!
# Tcp/Dialogue — `AsyncTCPClient` and the services at the other end of its connections

The client of `Tcp/Client` with a `ServiceFakeAsync` for each of its sessions and two channels to
it.  Here the network decides when an operation completes, and with what: a write when the last of
its bytes has been sent, a read when there is a `'\n'` in what has arrived, each in as many pieces
as the network likes.  Nothing fails and nobody cancels, and `n` requests are submitted.

`sound` is what that comes to: the client is as it would be alone (`sound.runs`), and every session
is given, in the end, the answer to its own request.
-/

namespace AsioSamples

namespace Dialogue

open AsyncTCPClient (Call Caller Callback Pc)
open Function (update)

/-! ## What is said -/

/-- The line a session sends, without its end. -/
def requestLine (call : Call) : Bytes :=
  bytes "EMULATE_LONG_CALC_OP " ++ toString call.durationSec.toNat

def request (call : Call) : Bytes := requestLine call ++ [lf]

/-- The response its callback is given. -/
def response (call : Call) : Bytes := bytes "request is processed!: " ++ requestLine call

/-- What the service sends. -/
def reply (call : Call) : Bytes := response call ++ [lf]

/-- The callback of a session that has been answered. -/
def answerTo (call : Call) : Callback := ⟨call.requestId, response call, .success⟩

theorem lf_notMem_requestLine (call : Call) : lf ∉ requestLine call := by
  refine fun h => (List.mem_append.mp h).elim (by decide) fun hdigit => ?_
  exact absurd (isDigit_of_mem_toString hdigit) (by decide)

theorem lf_notMem_response (call : Call) : lf ∉ response call := fun h =>
  (List.mem_append.mp h).elim (by decide) (lf_notMem_requestLine call)

/-! ## States and events -/

/-- The client, its connections, and the other ends of them. -/
structure State (τ : Type*) where
  client : AsyncTCPClient.State τ
  up : ℕ → Channel := fun _ => {}
  down : ℕ → Channel := fun _ => {}
  serving : ℕ → Serving := fun _ => {}

/-- The steps. -/
inductive Event (τ : Type*)
  | client (e : AsyncTCPClient.Event τ)
  /-- The write of session `i` sends `n` more bytes of its buffer. -/
  | transmit (i : ℕ) (buffer : Bytes) (n : ℕ)
  /-- The read of session `i` takes `n` bytes that have arrived. -/
  | arrive (i n : ℕ)
  | accept (i : ℕ)
  | serverArrive (i n : ℕ)
  | serverTransmit (i : ℕ) (buffer : Bytes) (n : ℕ)
  /-- An operation of service `i` completes. -/
  | serverComplete (i : ℕ) (op : FakeOp) (c : Completion)
  /-- Its handler runs. -/
  | serverHandle (i : ℕ) (op : FakeOp) (c : Completion)

/-- Nothing has been submitted. -/
def State.start {τ : Type*} (calls : ℕ → Call) : State τ := { client := .start calls }

/-- What the network lets an operation of session `i` complete with. -/
def Completes (up down : Channel) (c : Completion) : SessionOp → Prop
  | .connect _ => c.received = []
  | .write buffer => c.received = [] ∧ up.sent = buffer
  | .readLine => c.received = down.received ∧ lf ∈ down.received

/-- What the network lets an operation of service `i` complete with. -/
def ServerCompletes (up down : Channel) (c : Completion) : FakeOp → Prop
  | .readLine => c.received = up.received ∧ lf ∈ up.received
  | .write buffer => c.received = [] ∧ down.sent = buffer

instance (up down : Channel) (c : Completion) (op : SessionOp) :
    Decidable (Completes up down c op) :=
  match op with
  | .connect _ => inferInstanceAs (Decidable (_ = _))
  | .write _ | .readLine => inferInstanceAs (Decidable (_ ∧ _))

instance (up down : Channel) (c : Completion) (op : FakeOp) :
    Decidable (ServerCompletes up down c op) :=
  match op with
  | .readLine | .write _ => inferInstanceAs (Decidable (_ ∧ _))

section Machine

variable {τ : Type*} [DecidableEq τ]

/-- The steps that the client takes when `n` requests are submitted and none is cancelled. -/
def Proceeds (n : ℕ) (s : State τ) : AsyncTCPClient.Event τ → Prop
  | .submit _ _ => s.client.submitted < n
  | .cancelRequest .. => False
  | .complete i op c => c.ec = .success ∧ Completes (s.up i) (s.down i) c op
  | _ => True

instance (n : ℕ) (s : State τ) (e : AsyncTCPClient.Event τ) : Decidable (Proceeds n s e) :=
  match e with
  | .submit .. => inferInstanceAs (Decidable (_ < _))
  | .cancelRequest .. => inferInstanceAs (Decidable False)
  | .complete .. => inferInstanceAs (Decidable (_ ∧ _))
  | .submitLock .. | .store .. | .submitUnlock .. | .connect .. | .cancelLock .. | .find ..
  | .guard .. | .mark .. | .abort .. | .unguard .. | .cancelUnlock .. | .call .. | .handle ..
  | .guardLock .. | .test .. | .guardUnlock .. | .initiate .. | .completeLock .. | .erase ..
  | .completeUnlock .. | .readEc .. | .readFlag .. | .callback .. | .callbackReturns ..
  | .release .. => inferInstanceAs (Decidable True)

/-- When a step can be taken. -/
def Enabled (n : ℕ) (s : State τ) : Event τ → Prop
  | .client e => AsyncTCPClient.Enabled s.client e ∧ Proceeds n s e
  | .transmit i buffer n => (⟨.write buffer, none⟩ : Pending SessionOp) ∈ s.client.outstanding i ∧
      0 < n ∧ (s.up i).sent.length + n ≤ buffer.length
  | .arrive i n => (⟨.readLine, none⟩ : Pending SessionOp) ∈ s.client.outstanding i ∧
      lf ∉ (s.down i).received ∧ 0 < n ∧ n ≤ (s.down i).inFlight.length
  | .accept i => (s.serving i).accepted = false ∧ s.client.initiated i ≠ []
  | .serverArrive i n => (⟨.readLine, none⟩ : Pending FakeOp) ∈ (s.serving i).outstanding ∧
      lf ∉ (s.up i).received ∧ 0 < n ∧ n ≤ (s.up i).inFlight.length
  | .serverTransmit i buffer n =>
      (⟨.write buffer, none⟩ : Pending FakeOp) ∈ (s.serving i).outstanding ∧
      0 < n ∧ (s.down i).sent.length + n ≤ buffer.length
  | .serverComplete i op c => (⟨op, none⟩ : Pending FakeOp) ∈ (s.serving i).outstanding ∧
      c.ec = .success ∧ ServerCompletes (s.up i) (s.down i) c op
  | .serverHandle i op c => (⟨op, some c⟩ : Pending FakeOp) ∈ (s.serving i).outstanding

instance (n : ℕ) (s : State τ) (e : Event τ) : Decidable (Enabled n s e) :=
  match e with
  | .client _ | .transmit .. | .arrive .. | .accept _ | .serverArrive .. | .serverTransmit ..
  | .serverComplete .. => inferInstanceAs (Decidable (_ ∧ _))
  | .serverHandle .. => inferInstanceAs (Decidable (_ ∈ _))

/-- `n` more bytes of a buffer. -/
def transmitted (c : Channel) (buffer : Bytes) (n : ℕ) : Channel :=
  c.send ((buffer.drop c.sent.length).take n)

/-- Where a step leads. -/
def next (s : State τ) : Event τ → State τ
  | .client e => { s with client := AsyncTCPClient.next s.client e }
  | .transmit i buffer n => { s with up := update s.up i (transmitted (s.up i) buffer n) }
  | .arrive i n => { s with down := update s.down i ((s.down i).receive n) }
  | .accept i => { s with serving := update s.serving i (s.serving i).accept }
  | .serverArrive i n => { s with up := update s.up i ((s.up i).receive n) }
  | .serverTransmit i buffer n =>
      { s with down := update s.down i (transmitted (s.down i) buffer n) }
  | .serverComplete i op c => { s with serving := update s.serving i ((s.serving i).complete op c) }
  | .serverHandle i op c => { s with serving := update s.serving i ((s.serving i).handle op c) }

/-- The client and its services. -/
def machine (n : ℕ) : Machine (State τ) (Event τ) := ⟨Enabled n, next⟩

/-! ## The client's side -/

variable {calls : ℕ → Call} {sent : ℕ → Bytes}

/-- An operation that a session whose socket has sent so much may initiate. -/
def OpOk (calls : ℕ → Call) (sent : ℕ → Bytes) (i : ℕ) : SessionOp → Prop
  | .connect _ => True
  | .write buffer => buffer = request (calls i)
  | .readLine => sent i = request (calls i)

/-- What its operations complete with. -/
def Genuine (calls : ℕ → Call) (sent : ℕ → Bytes) (i : ℕ) (op : SessionOp) (c : Completion) :
    Prop :=
  c.ec = .success ∧ match op with
    | .connect _ => True
    | .write _ => sent i = request (calls i)
    | .readLine => c.received = reply (calls i)

/-- A call that is not made with a `m_cancel_guard` held. -/
def Unguarded : Caller → Prop
  | .outside => True
  | .callback _ guarded => guarded = false

/-- Where a thread may be. -/
def PcOk (calls : ℕ → Call) (sent : ℕ → Bytes) : Pc → Prop
  | .idle => True
  | .submitting _ _ k => Unguarded k
  | .cancelling _ _ => False
  | .handling i (.called op c) => Genuine calls sent i op c
  | .handling i (.locking op) | .handling i (.testing op) | .handling i (.unlocking op)
  | .handling i (.initiating op) => OpOk calls sent i op
  | .completing _ guarded (.callingBack ec) => guarded = false ∧ ec = .success
  | .completing _ _ .releasing => False
  | .completing _ guarded _ => guarded = false

theorem pcOk_caller {k : Caller} : PcOk calls sent (.caller k) ↔ Unguarded k := by
  cases k <;> exact Iff.rfl

/-- The client has been told nothing but what its services say. -/
structure ClientOk (calls : ℕ → Call) (sent : ℕ → Bytes) (c : AsyncTCPClient.State τ) : Prop where
  session : ∀ i, (c.session i).request = request (calls i) ∧ (c.session i).ec = .success ∧
    (c.session i).wasCancelled = false
  pending : ∀ i, ∀ p ∈ c.outstanding i, OpOk calls sent i p.op ∧
    ∀ r ∈ p.result, Genuine calls sent i p.op r
  thread : ∀ t, PcOk calls sent (c.pc t)
  response : ∀ i, c.stage i = .entered ∨ c.stage i = .erased →
    (c.session i).response = response (calls i)
  callbacks : ∀ i, ∀ cb ∈ c.callbacks i, cb = answerTo (calls i)
  dialled : ∀ i, c.outstanding i ≠ [] → c.initiated i ≠ []

namespace ClientOk

variable {c c' : AsyncTCPClient.State τ} {t : τ} {x : Pc}

/-- A step of one thread that tells its session nothing. -/
theorem keep (h : ClientOk calls sent c) (hpc : c'.pc = update c.pc t x) (hx : PcOk calls sent x)
    (hsession : c'.session = c.session) (hout : c'.outstanding = c.outstanding)
    (hinit : c'.initiated = c.initiated) (hcb : c'.callbacks = c.callbacks)
    (hstage : ∀ i, c'.stage i = .entered ∨ c'.stage i = .erased →
      c.stage i = .entered ∨ c.stage i = .erased) : ClientOk calls sent c' := by
  refine ⟨?_, ?_, ?_, fun i hi => ?_, ?_, ?_⟩
  · rw [hsession]
    exact h.session
  · rw [hout]
    exact h.pending
  · rw [hpc]
    exact (Function.forall_update_iff c.pc fun _ q => PcOk calls sent q).mpr
      ⟨hx, fun u _ => h.thread u⟩
  · rw [hsession]
    exact h.response i (hstage i hi)
  · rw [hcb]
    exact h.callbacks
  · rw [hout, hinit]
    exact h.dialled

/-- A step that initiates an operation that is right for its session. -/
theorem initiate (h : ClientOk calls sent c) {i : ℕ} {op : SessionOp} (hop : OpOk calls sent i op)
    (hpc : c'.pc = update c.pc t x) (hx : PcOk calls sent x) (hsession : c'.session = c.session)
    (hout : c'.outstanding = update c.outstanding i (Pending.initiate (c.outstanding i) op))
    (hinit : c'.initiated = update c.initiated i (c.initiated i ++ [op]))
    (hcb : c'.callbacks = c.callbacks) (hstage : c'.stage = c.stage) : ClientOk calls sent c' := by
  have hmid : ClientOk calls sent { c with pc := c'.pc } :=
    h.keep hpc hx rfl rfl rfl rfl fun _ hi => hi
  refine ⟨?_, ?_, hmid.thread, ?_, ?_, ?_⟩
  · rw [hsession]
    exact h.session
  · rw [hout]
    refine (Function.forall_update_iff c.outstanding fun j ops => ∀ p ∈ ops,
      OpOk calls sent j p.op ∧ ∀ r ∈ p.result, Genuine calls sent j p.op r).mpr
        ⟨fun p hp => ?_, fun j _ => h.pending j⟩
    rcases List.mem_append.mp hp with hold | hnew
    · exact h.pending i p hold
    · obtain rfl := List.mem_singleton.mp hnew
      exact ⟨hop, fun r hr => by cases hr⟩
  · rw [hsession, hstage]
    exact h.response
  · rw [hcb]
    exact h.callbacks
  · rw [hinit, hout]
    intro j hj
    by_cases hji : j = i
    · subst hji
      simp
    · rw [Function.update_of_ne hji] at hj ⊢
      exact h.dialled j hj

end ClientOk

variable {c : AsyncTCPClient.State τ} {e : AsyncTCPClient.Event τ}

/-- A completion that is right for its operation. -/
theorem clientOk_complete (h : ClientOk calls sent c) {i : ℕ} {op : SessionOp} {r : Completion}
    (hmem : (⟨op, none⟩ : Pending SessionOp) ∈ c.outstanding i) (hr : Genuine calls sent i op r) :
    ClientOk calls sent (AsyncTCPClient.next c (.complete i op r)) := by
  refine ⟨h.session, ?_, h.thread, h.response, h.callbacks, fun j hj => h.dialled j ?_⟩
  · refine (Function.forall_update_iff c.outstanding fun j ops => ∀ p ∈ ops,
      OpOk calls sent j p.op ∧ ∀ r ∈ p.result, Genuine calls sent j p.op r).mpr
        ⟨fun p hp => ?_, fun j _ => h.pending j⟩
    rcases Pending.mem_complete hp with hold | rfl
    · exact h.pending i p hold
    · exact ⟨(h.pending i _ hmem).1, fun r' hr' => Option.some.inj hr' ▸ hr⟩
  · intro hnil
    have hlen := apply_update_eq List.length (Pending.length_complete (c.outstanding i) op r) j
    exact hj (List.length_eq_zero_iff.mp (hlen.trans (by rw [hnil, List.length_nil])))

/-- A handler that is called on what its operation has completed with. -/
theorem clientOk_call (h : ClientOk calls sent c) {t : τ} {i : ℕ} {op : SessionOp} {r : Completion}
    (hmem : (⟨op, some r⟩ : Pending SessionOp) ∈ c.outstanding i) :
    ClientOk calls sent (AsyncTCPClient.next c (.call t i op r)) := by
  have hsub : ∀ j, (AsyncTCPClient.next c (.call t i op r)).outstanding j ⊆ c.outstanding j :=
    (Function.forall_update_iff c.outstanding fun j ops => ops ⊆ c.outstanding j).mpr
      ⟨List.erase_subset, fun _ _ => List.Subset.refl _⟩
  refine ⟨h.session, fun j p hp => h.pending j p (hsub j hp), ?_, h.response, h.callbacks,
    fun j hj => h.dialled j fun hnil => hj ?_⟩
  · exact (Function.forall_update_iff c.pc fun _ q => PcOk calls sent q).mpr
      ⟨(h.pending i _ hmem).2 r rfl, fun u _ => h.thread u⟩
  · exact List.subset_nil.mp (hnil ▸ hsub j)

/-- The first part of a handler, on what its operation has completed with. -/
theorem clientOk_handle (ha : AsyncTCPClient.Answered c) (hs : AsyncTCPClient.Staged c)
    (h : ClientOk calls sent c) {t : τ} {i : ℕ} {op : SessionOp} {r : Completion}
    (hpc : c.pc t = .handling i (.called op r)) :
    ClientOk calls sent (AsyncTCPClient.next c (.handle t i op r)) := by
  have hgenuine : Genuine calls sent i op r := by
    have hok := h.thread t
    rwa [hpc] at hok
  obtain ⟨hsuccess, hreceived⟩ := hgenuine
  obtain ⟨hrequest, hec, hflag⟩ := h.session i
  obtain ⟨hun, -⟩ := ha.untouched i (Or.inr (hs.of_pc hpc rfl))
  have hzero : ¬ r.ec.value ≠ 0 := by simp [hsuccess]
  cases op with
  | connect ep =>
    have heq : (c.session i).handle (.connect ep) r
        = (c.session i, .testFlag (.write (c.session i).request)) := if_neg hzero
    simp only [AsyncTCPClient.next, heq, Function.update_eq_self]
    exact h.keep rfl hrequest rfl rfl rfl rfl fun _ hi => hi
  | write buffer =>
    have heq : (c.session i).handle (.write buffer) r = (c.session i, .testFlag .readLine) :=
      if_neg hzero
    simp only [AsyncTCPClient.next, heq, Function.update_eq_self]
    exact h.keep rfl hreceived rfl rfl rfl rfl fun _ hi => hi
  | readLine =>
    have heq : (c.session i).handle .readLine r
        = ({ c.session i with response := response (calls i), responseBuf := [] }, .complete) := by
      have hget := IStream.getline_append (response (calls i)) [] (c.session i).response
        (lf_notMem_response (calls i))
      simp only [Session.handle, Session.onResponseRead, hsuccess, hreceived, hun.responseBuf,
        List.nil_append, reply, hget]
      rfl
    simp only [AsyncTCPClient.next, heq]
    refine ⟨?_, h.pending, ?_, ?_, h.callbacks, h.dialled⟩
    · exact (Function.forall_update_iff c.session fun j σ => σ.request = request (calls j) ∧
        σ.ec = .success ∧ σ.wasCancelled = false).mpr ⟨h.session i, fun j _ => h.session j⟩
    · exact (Function.forall_update_iff c.pc fun _ q => PcOk calls sent q).mpr
        ⟨rfl, fun u _ => h.thread u⟩
    · intro j hj
      by_cases hji : j = i
      · subst hji
        simp [AsyncTCPClient.State.goto]
      · simp only [AsyncTCPClient.State.goto, Function.update_of_ne hji] at hj ⊢
        exact h.response j hj

theorem clientOk_next (hid : ∀ i, (c.session i).id = (calls i).requestId)
    (ha : AsyncTCPClient.Answered c) (hs : AsyncTCPClient.Staged c) (h : ClientOk calls sent c)
    (he : AsyncTCPClient.Enabled c e)
    (hcancel : ∀ t id k, e ≠ .cancelRequest t id k)
    (hcomplete : ∀ i op r, e = .complete i op r → Genuine calls sent i op r) :
    ClientOk calls sent (AsyncTCPClient.next c e) := by
  have hok : ∀ {t : τ} {p : Pc}, c.pc t = p → PcOk calls sent p := fun ht => ht ▸ h.thread _
  have same : ∀ i, c.stage i = .entered ∨ c.stage i = .erased →
      c.stage i = .entered ∨ c.stage i = .erased := fun _ hi => hi
  cases e with
  | submit t k => exact h.keep rfl (pcOk_caller.mp (hok he)) rfl rfl rfl rfl same
  | submitLock t i k =>
    exact h.keep rfl (hok (p := .submitting i .locking k) he.1) rfl rfl rfl rfl same
  | store t i k =>
    refine h.keep rfl (hok (p := .submitting i .storing k) he) rfl rfl rfl rfl fun j hj => ?_
    exact hj.imp (eq_of_update_eq · (by decide)) (eq_of_update_eq · (by decide))
  | submitUnlock t i k =>
    exact h.keep rfl (hok (p := .submitting i .unlocking k) he) rfl rfl rfl rfl same
  | connect t i k =>
    have hk : Unguarded k := hok (p := .submitting i .connecting k) he
    exact h.initiate (show OpOk calls sent i (.connect _) from trivial) rfl (pcOk_caller.mpr hk) rfl
      rfl rfl rfl rfl
  | cancelRequest t id k => exact absurd rfl (hcancel t id k)
  | cancelLock t id k => exact (hok he.1).elim
  | find t id k => exact (hok (p := .cancelling (.finding id) k) he).elim
  | guard t i k => exact (hok he.1).elim
  | mark t i k => exact (hok (p := .cancelling (.marking i) k) he).elim
  | abort t i reached k => exact (hok (p := .cancelling (.aborting i) k) he).elim
  | unguard t i k => exact (hok (p := .cancelling (.unguarding i) k) he).elim
  | cancelUnlock t k => exact (hok (p := .cancelling .unlocking k) he).elim
  | complete i op r => exact clientOk_complete h he (hcomplete i op r rfl)
  | call t i op r => exact clientOk_call h he.2
  | handle t i op r => exact clientOk_handle ha hs h he
  | guardLock t i op =>
    exact h.keep rfl (hok (p := .handling i (.locking op)) he.1) rfl rfl rfl rfl same
  | test t i op =>
    have hflag := (h.session i).2.2
    simp only [AsyncTCPClient.next, hflag, Bool.false_eq_true, if_false]
    exact h.keep rfl (hok (p := .handling i (.testing op)) he) rfl rfl rfl rfl same
  | guardUnlock t i op =>
    exact h.keep rfl (hok (p := .handling i (.unlocking op)) he) rfl rfl rfl rfl same
  | initiate t i op =>
    exact h.initiate (hok (p := .handling i (.initiating op)) he) rfl trivial rfl rfl rfl rfl rfl
  | completeLock t i guarded =>
    exact h.keep rfl (hok (p := .completing i guarded .locking) he.1) rfl rfl rfl rfl same
  | erase t i guarded =>
    refine h.keep rfl (hok (p := .completing i guarded .erasing) he) rfl rfl rfl rfl fun j hj => ?_
    by_cases hji : j = i
    · subst hji
      exact Or.inl (hs.of_pc he rfl)
    · simpa [AsyncTCPClient.next, AsyncTCPClient.State.goto, hji] using hj
  | completeUnlock t i guarded =>
    exact h.keep rfl (hok (p := .completing i guarded .unlocking) he) rfl rfl rfl rfl same
  | readEc t i guarded =>
    have hguarded : guarded = false := hok (p := .completing i guarded .readingEc) he
    refine h.keep rfl ?_ rfl rfl rfl rfl same
    rw [if_pos (by rw [(h.session i).2.1]; rfl)]
    exact hguarded
  | readFlag t i guarded =>
    have hguarded : guarded = false := hok (p := .completing i guarded .readingFlag) he
    obtain ⟨-, hec, hflag⟩ := h.session i
    refine h.keep rfl ?_ rfl rfl rfl rfl same
    rw [hflag, if_neg Bool.false_ne_true, hec]
    exact ⟨hguarded, rfl⟩
  | callback t i guarded ec =>
    have ht : c.pc t = .completing i guarded (.callingBack ec) := he
    obtain ⟨hguarded, rfl⟩ : guarded = false ∧ ec = .success := hok ht
    have hmid : ClientOk calls sent (c.goto t (.completing i guarded .inCallback)) :=
      h.keep rfl hguarded rfl rfl rfl rfl same
    refine ⟨hmid.session, hmid.pending, hmid.thread, hmid.response, ?_, hmid.dialled⟩
    refine (Function.forall_update_iff c.callbacks fun j cbs => ∀ cb ∈ cbs,
      cb = answerTo (calls j)).mpr ⟨fun cb hcb => ?_, fun j _ => h.callbacks j⟩
    rcases List.mem_append.mp hcb with hold | hnew
    · exact h.callbacks i cb hold
    · rw [List.mem_singleton.mp hnew, hid, h.response i (Or.inr (hs.of_pc ht rfl))]
      rfl
  | callbackReturns t i guarded =>
    obtain rfl : guarded = false := hok (p := .completing i guarded .inCallback) he
    exact h.keep rfl trivial rfl rfl rfl rfl same
  | release t i => exact (hok (p := .completing i true .releasing) he).elim

/-! ## Both sides -/

omit [DecidableEq τ] in
/-- A client that has sent more, and all of what it had to send before. -/
theorem ClientOk.mono {sent' : ℕ → Bytes} (h : ClientOk calls sent c)
    (hsent : ∀ i, sent i = request (calls i) → sent' i = request (calls i)) :
    ClientOk calls sent' c := by
  have hop : ∀ {i : ℕ} {op : SessionOp}, OpOk calls sent i op → OpOk calls sent' i op := by
    intro i op hok
    cases op with
    | readLine => exact hsent i hok
    | _ => exact hok
  have hgenuine : ∀ {i : ℕ} {op : SessionOp} {r : Completion},
      Genuine calls sent i op r → Genuine calls sent' i op r := by
    intro i op r hok
    cases op with
    | write buffer => exact ⟨hok.1, hsent i hok.2⟩
    | _ => exact hok
  refine ⟨h.session, fun i p hp => ?_, fun t => ?_, h.response, h.callbacks, h.dialled⟩
  · exact ⟨hop (h.pending i p hp).1, fun r hr => hgenuine ((h.pending i p hp).2 r hr)⟩
  · have hok := h.thread t
    cases hpc : c.pc t with
    | handling i q =>
      rw [hpc] at hok
      cases q with
      | called op r => exact hgenuine hok
      | locking op | testing op | unlocking op | initiating op => exact hop hok
    | completing i guarded q =>
      rw [hpc] at hok
      cases q <;> exact hok
    | idle | submitting i q k | cancelling q k =>
      rw [hpc] at hok
      exact hok

/-- The client and the network it works with. -/
structure Sound (calls : ℕ → Call) (n : ℕ) (s : State τ) : Prop where
  runs : AsyncTCPClient.machine.Runs (.start calls) s.client
  client : ClientOk calls (fun i => (s.up i).sent) s.client
  up : ∀ i, (s.up i).sent <+: request (calls i)
  serving : ∀ i, (s.serving i).Answers (request (calls i)) (reply (calls i)) (s.down i).sent
  submitted : s.client.submitted ≤ n
  initiated : ∀ i, s.client.initiated i ≠ [] → i < n
  accepted : ∀ i, (s.serving i).accepted → i < n

/-- **Nothing but the whole request** lets the read of a service complete. -/
theorem received_eq_request {s : State τ} {n : ℕ} (h : Sound calls n s) {i : ℕ}
    (hmem : lf ∈ (s.up i).received) : (s.up i).received = request (calls i) :=
  IStream.eq_of_prefix_of_mem (lf_notMem_requestLine (calls i))
    ((s.up i).received_prefix_sent.trans (h.up i)) hmem

/-- **Nothing but the whole reply** lets the read of a session complete. -/
theorem received_eq_reply {s : State τ} {n : ℕ} (h : Sound calls n s) {i : ℕ}
    (hmem : lf ∈ (s.down i).received) : (s.down i).received = reply (calls i) :=
  IStream.eq_of_prefix_of_mem (lf_notMem_response (calls i))
    ((s.down i).received_prefix_sent.trans (h.serving i).sent_start) hmem

/-- What a write sends of its buffer continues what it has sent. -/
theorem sent_transmitted {ch : Channel} {buffer : Bytes} (hsent : ch.sent <+: buffer) (k : ℕ) :
    (transmitted ch buffer k).sent = buffer.take (ch.sent.length + k) := by
  rw [transmitted, Channel.sent_send, List.take_add, ← List.prefix_iff_eq_take.mp hsent]

theorem sound_client {s : State τ} {n : ℕ} {e : AsyncTCPClient.Event τ} (h : Sound calls n s)
    (he : AsyncTCPClient.Enabled s.client e) (hproceeds : Proceeds n s e) :
    Sound calls n (next s (.client e)) := by
  have hbatons := AsyncTCPClient.batons h.runs
  refine ⟨h.runs.step he, ?_, h.up, h.serving, ?_, ?_, h.accepted⟩
  · refine clientOk_next (AsyncTCPClient.id_eq h.runs) (AsyncTCPClient.answered h.runs)
      (AsyncTCPClient.staged h.runs) h.client he ?_ ?_
    · rintro t id k rfl
      exact hproceeds
    · rintro i op r rfl
      obtain ⟨hsuccess, hcompletes⟩ := hproceeds
      refine ⟨hsuccess, ?_⟩
      cases op with
      | connect ep => trivial
      | write buffer =>
        have hbuffer : buffer = request (calls i) := (h.client.pending i _ he).1
        exact hcompletes.2.trans hbuffer
      | readLine => exact hcompletes.1.trans (received_eq_reply h hcompletes.2)
  · cases e with
    | submit t k => exact hproceeds
    | handle t i op r =>
      simp only [next, AsyncTCPClient.next]
      split <;> exact h.submitted
    | find t id k => simp only [next, AsyncTCPClient.next]; split <;> exact h.submitted
    | test t i op => simp only [next, AsyncTCPClient.next]; split <;> exact h.submitted
    | _ => exact h.submitted
  · cases e with
    | connect t i k =>
      have hpc : s.client.pc t = .submitting i .connecting k := he
      refine (Function.forall_update_iff s.client.initiated fun j ops => ops ≠ [] → j < n).mpr
        ⟨fun _ => ?_, fun j _ => h.initiated j⟩
      exact (hbatons.of_session (i := i) (by rw [hpc]; rfl)).1.trans_le h.submitted
    | initiate t i op =>
      have hpc : s.client.pc t = .handling i (.initiating op) := he
      refine (Function.forall_update_iff s.client.initiated fun j ops => ops ≠ [] → j < n).mpr
        ⟨fun _ => ?_, fun j _ => h.initiated j⟩
      exact (hbatons.of_session (i := i) (by rw [hpc]; rfl)).1.trans_le h.submitted
    | handle t i op r =>
      simp only [next, AsyncTCPClient.next]
      split <;> exact h.initiated
    | find t id k => simp only [next, AsyncTCPClient.next]; split <;> exact h.initiated
    | test t i op => simp only [next, AsyncTCPClient.next]; split <;> exact h.initiated
    | _ => exact h.initiated

/-- A step of one service. -/
theorem Sound.served {s : State τ} {n : ℕ} (h : Sound calls n s) {i : ℕ} {v : Serving}
    (hanswers : v.Answers (request (calls i)) (reply (calls i)) (s.down i).sent)
    (haccepted : v.accepted → i < n) :
    Sound calls n { s with serving := update s.serving i v } where
  runs := h.runs
  client := h.client
  up := h.up
  serving := (Function.forall_update_iff s.serving fun j v => v.Answers (request (calls j))
    (reply (calls j)) (s.down j).sent).mpr ⟨hanswers, fun j _ => h.serving j⟩
  submitted := h.submitted
  initiated := h.initiated
  accepted := (Function.forall_update_iff s.serving fun j v => v.accepted → j < n).mpr
    ⟨haccepted, fun j _ => h.accepted j⟩

/-- **Every step keeps both sides sound.** -/
theorem sound_next {s : State τ} {n : ℕ} {e : Event τ} (h : Sound calls n s) (he : Enabled n s e) :
    Sound calls n (next s e) := by
  cases e with
  | client e => exact sound_client h he.1 he.2
  | transmit i buffer k =>
    obtain ⟨hmem, hpos, hle⟩ := he
    obtain rfl : buffer = request (calls i) := (h.client.pending i _ hmem).1
    have hnew := sent_transmitted (h.up i) k
    have hup : ∀ j, (update s.up i (transmitted (s.up i) (request (calls i)) k) j).sent
        <+: request (calls j) :=
      (Function.forall_update_iff s.up fun j ch => ch.sent <+: request (calls j)).mpr
        ⟨hnew ▸ List.take_prefix _ _, fun j _ => h.up j⟩
    refine ⟨h.runs, h.client.mono fun j hj => ?_, hup, h.serving, h.submitted,
      h.initiated, h.accepted⟩
    have hji : j ≠ i := by
      rintro rfl
      rw [hj] at hle
      omega
    simpa [next, hji] using hj
  | arrive i k =>
    have hsent : ∀ j, (update s.down i ((s.down i).receive k) j).sent = (s.down j).sent :=
      apply_update_eq Channel.sent (Channel.sent_receive _ _)
    refine ⟨h.runs, h.client, h.up, fun j => ?_, h.submitted, h.initiated, h.accepted⟩
    simpa only [next, hsent] using h.serving j
  | accept i => exact h.served ((h.serving i).accept he.1) fun _ => h.initiated i he.2
  | serverArrive i k =>
    have hsent : ∀ j, (update s.up i ((s.up i).receive k) j).sent = (s.up j).sent :=
      apply_update_eq Channel.sent (Channel.sent_receive _ _)
    refine ⟨h.runs, h.client.mono fun j hj => (hsent j).trans hj, fun j => ?_, h.serving,
      h.submitted, h.initiated, h.accepted⟩
    simpa only [next, hsent] using h.up j
  | serverTransmit i buffer k =>
    obtain ⟨hmem, hpos, hle⟩ := he
    refine ⟨h.runs, h.client, h.up, ?_, h.submitted, h.initiated, h.accepted⟩
    refine (Function.forall_update_iff s.down fun j ch => (s.serving j).Answers
      (request (calls j)) (reply (calls j)) ch.sent).mpr ⟨?_, fun j _ => h.serving j⟩
    obtain ⟨rfl, hwriting⟩ := (h.serving i).writing_of_mem hmem
    refine hwriting ?_
    rw [sent_transmitted (h.serving i).sent_start]
    exact List.take_prefix _ _
  | serverComplete i op r =>
    obtain ⟨hmem, hsuccess, hcompletes⟩ := he
    have haccepted := (s.serving i).accepted_complete op r
    refine h.served ?_ fun hv => h.accepted i (haccepted.symm.trans hv)
    obtain ⟨ec, received⟩ := r
    obtain rfl : ec = .success := hsuccess
    cases op with
    | readLine =>
      obtain ⟨rfl, hlf⟩ := hcompletes
      simp only [received_eq_request h hlf]
      exact (h.serving i).complete_read hmem
    | write buffer =>
      obtain ⟨rfl, hsent⟩ := hcompletes
      exact (h.serving i).complete_write hmem hsent
  | serverHandle i op r =>
    have haccepted := (s.serving i).accepted_handle op r
    exact h.served ((h.serving i).handle (lf_notMem_requestLine (calls i)) he)
      fun hv => h.accepted i (haccepted.symm.trans hv)

/-- **The client is told what its services say**, in every run. -/
theorem sound {s : State τ} {n : ℕ} (h : (machine n).Runs (.start calls) s) : Sound calls n s := by
  refine h.invariant (I := Sound calls n) ⟨.start, ?_, fun i => List.nil_prefix,
    fun i => .unaccepted rfl rfl, Nat.zero_le n, fun i hi => absurd rfl hi, fun i hi => by cases hi⟩
    fun s' e _ hs he => sound_next hs he
  refine ⟨fun i => ⟨rfl, rfl, rfl⟩, fun i p hp => ?_, fun t => trivial, fun i hi => ?_,
    fun i cb hcb => ?_, fun i hi => absurd rfl hi⟩
  · cases hp
  · rcases hi with hi | hi <;> cases hi
  · cases hcb

end Machine

end Dialogue

end AsioSamples
