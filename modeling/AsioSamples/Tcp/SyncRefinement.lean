import AsioSamples.Buffers.Delimiter
import AsioSamples.Tcp.SyncDialogue

/-!
# Tcp/SyncRefinement — the dialogue is a run of `Server`, whatever the pieces

`Tcp/SyncServer` gives a `HandleRequest` all that its client will ever send, and lets it make each
call in one step.  Here a dialogue, in which every byte has its own time, is matched step by step by
a run of that server: a call that returns is the call of the server, and the bytes in between are
nothing to it (`matches_next`).  So what holds of the runs of the one holds of the other, for any
way to cut the requests into chunks (`refines`).
-/

namespace AsioSamples

namespace SyncDialogue

open Function (update)
open Server (Acceptor)
open ServiceFake (Phase reply answer)
open SyncTCPClient (request)

/-! ## Lists of connections -/

section Lists

variable {α β : Type*} [DecidableEq α] {l : List α} {f g : α → β} {a : α}

/-- What changes for one of a list changes in its place. -/
theorem set_idxOf_map (hl : l.Nodup) (hfg : ∀ b, b ≠ a → f b = g b) :
    (l.map f).set (l.idxOf a) (g a) = l.map g := by
  refine List.ext_getElem (by simp) fun n hn hn' => ?_
  rw [List.length_map] at hn'
  rw [List.getElem_set, List.getElem_map, List.getElem_map]
  split
  next heq =>
    subst heq
    rw [List.getElem_idxOf]
  next hne =>
    refine hfg _ fun heq => hne ?_
    rw [← heq, hl.idxOf_getElem]

/-- Who leaves a list leaves its place. -/
theorem eraseIdx_idxOf_map (hl : l.Nodup) (hfg : ∀ b, b ≠ a → f b = g b) :
    (l.map f).eraseIdx (l.idxOf a) = (l.erase a).map g := by
  rw [List.eraseIdx_map, List.eraseIdx_idxOf_eq_erase]
  exact List.map_congr_left fun b hb => hfg b (hl.mem_erase_iff.mp hb).1

end Lists

/-! ## Calls on whole streams -/

/-- The client sends its request, in these chunks, and receives what it is written. -/
structure Sends (durationSec : UInt32) (c : Client) : Prop where
  chunks : c.chunks.flatten = request durationSec
  write : c.write.value = 0

theorem Sends.completes {durationSec : UInt32} {c : Client} (h : Sends durationSec c) :
    c.Completes :=
  ⟨by simp [h.chunks, request], h.write⟩

/-- **`HandleRequest` goes on to write the reply**, however the request is cut. -/
theorem Sends.readUntil {durationSec : UInt32} {c : Client} (h : Sends durationSec c)
    (task : Bytes) : ServiceFake.handleRequest task c .readUntil
      = .ok (some (.write (reply task (request durationSec)))) := by
  obtain ⟨before, front, back, rest, hchunks, -, hread⟩ :=
    Delimiter.exists_readUntil (List.not_mem_nil (a := lf)) h.completes.1
  have hreceived : before.flatten ++ front ++ lf :: back = request durationSec := by
    have hline := SyncTCPClient.lf_notMem_requestLine durationSec
    refine IStream.eq_of_prefix_of_mem hline ⟨rest.flatten, ?_⟩ (by simp)
    rw [← request, ← h.chunks, hchunks]
    simp
  simp only [ServiceFake.handleRequest, hread, hreceived]
  rw [if_neg (by decide)]
  rfl

/-- …and returns when that is written. -/
theorem Sends.written {durationSec : UInt32} {c : Client} (h : Sends durationSec c)
    (task buffer : Bytes) : ServiceFake.handleRequest task c (.write buffer) = .ok none :=
  if_neg (not_not.mpr h.write)

/-- **`ReceiveResponse` returns the first line**, however the reply is cut. -/
theorem receiveResponse_eq {stream : Bytes} {chunks : List Bytes} (h : chunks.flatten = stream)
    (hline : lf ∈ stream) :
    ∃ rest, Delimiter.receiveResponse chunks = .ok (SyncTCPClient.response stream, rest) := by
  obtain ⟨before, front, back, rest, hchunks, hnot, hread⟩ :=
    Delimiter.exists_readLine (h ▸ hline : lf ∈ chunks.flatten)
  refine ⟨rest, hread.trans ?_⟩
  have hstream : stream = before.flatten ++ front ++ lf :: (back ++ rest.flatten) := by
    rw [← h, hchunks]
    simp
  rw [SyncTCPClient.response, hstream, IStream.getline_append _ _ _ hnot]

/-! ## What the server has of a dialogue -/

variable {ι : Type*} [DecidableEq ι] {acceptor : Acceptor} {durations : ι → UInt32}
  {clients : ι → Client} {s s' : State ι} {t : Server.State}

/-- Where the `HandleRequest` of a conversation is, for `Server`. -/
def phase (task : Bytes) (c : Conversation) : Phase :=
  match c.session with
  | .write _ => .write (reply task (request c.durationSec))
  | _ => .readUntil

/-- Where the thread of `Run` is. -/
def runOf (task : Bytes) (clients : ι → Client) (s : State ι) : Server.RunPc :=
  match s.run with
  | .test => .test
  | .accept => .accept
  | .handleRequest i =>
    if (s.talk i).session = .returned then .test
    else .handleRequest (clients i) (phase task (s.talk i))
  | .returned => .returned

/-- The server is where the dialogue is. -/
structure Matches (acceptor : Acceptor) (clients : ι → Client) (s : State ι) (t : Server.State) :
    Prop where
  liveFlag : t.liveFlag = s.liveFlag
  run : t.run = runOf (task acceptor) clients s
  detached : ∃ l : List ι, l.Nodup ∧
    (∀ i, i ∈ l ↔ acceptor = .parallelAcceptor ∧ (s.talk i).Serving) ∧
    t.detached = l.map fun i => (clients i, phase (task acceptor) (s.talk i))
  accepted : t.accepted = s.accepted.map clients
  ended : ∃ l : List ι, l.Nodup ∧ (∀ i, i ∈ l ↔ (s.talk i).session = .returned) ∧
    t.ended = l.map clients
  escaped : t.escaped = []

omit [DecidableEq ι] in
theorem matches_start (acceptor : Acceptor) (durations : ι → UInt32) (clients : ι → Client) :
    Matches acceptor clients (.start durations) {} where
  liveFlag := rfl
  run := rfl
  detached := ⟨[], List.nodup_nil, fun i => by simp [State.start, Conversation.Serving], rfl⟩
  accepted := rfl
  ended := ⟨[], List.nodup_nil, fun i => by simp [State.start], rfl⟩
  escaped := rfl

/-- The server sees no difference. -/
structure Same (task : Bytes) (c c' : Conversation) : Prop where
  phase : phase task c' = phase task c
  unaccepted : c'.session = .unaccepted ↔ c.session = .unaccepted
  returned : c'.session = .returned ↔ c.session = .returned

omit [DecidableEq ι] in
/-- **Where the server sees no difference** it stays where it is. -/
theorem Matches.keep (h : Matches acceptor clients s t) (hflag : s'.liveFlag = s.liveFlag)
    (hrun : s'.run = s.run) (haccepted : s'.accepted = s.accepted)
    (hsame : ∀ i, Same (task acceptor) (s.talk i) (s'.talk i)) :
    Matches acceptor clients s' t := by
  have hphase (i : ι) := (hsame i).phase
  have hreturned (i : ι) := (hsame i).returned
  have hserving (i : ι) : (s'.talk i).Serving ↔ (s.talk i).Serving :=
    and_congr (hsame i).unaccepted.not (hreturned i).not
  refine ⟨h.liveFlag.trans hflag.symm, ?_, ?_, ?_, ?_, h.escaped⟩
  · rw [h.run, runOf, runOf, hrun]
    simp only [hreturned, hphase]
  · obtain ⟨l, hl, hmem, hdetached⟩ := h.detached
    exact ⟨l, hl, fun i => by rw [hmem, hserving], by simp only [hphase, hdetached]⟩
  · rw [h.accepted, haccepted]
  · obtain ⟨l, hl, hmem, hended⟩ := h.ended
    exact ⟨l, hl, fun i => by rw [hmem, hreturned], hended⟩

/-- A step of one conversation that the server does not see. -/
theorem Matches.talk (h : Matches acceptor clients s t) {i : ι} {c : Conversation}
    (hsame : Same (task acceptor) (s.talk i) c) (backlog : List ι) :
    Matches acceptor clients { s with talk := update s.talk i c, backlog } t :=
  h.keep rfl rfl rfl <|
    (Function.forall_update_iff s.talk fun j c => Same (task acceptor) (s.talk j) c).mpr
      ⟨hsame, fun _ _ => ⟨rfl, Iff.rfl, Iff.rfl⟩⟩

/-- Only two steps of a conversation are calls that return to the server. -/
theorem same_next {c : Conversation} {e : Conversation.Event} (he : c.Enabled e)
    (hread : e ≠ .read) (hwritten : e ≠ .written) (task : Bytes) : Same task c (c.next task e) := by
  cases e with
  | read => exact absurd rfl hread
  | written => exact absurd rfl hwritten
  | writeSome v n => constructor <;> simp [phase, Conversation.next, he.1]
  | _ => exact ⟨rfl, Iff.rfl, Iff.rfl⟩

/-! ## The calls that the server makes -/

/-- The next call on the thread of `Run`. -/
theorem runs_served (hpar : acceptor ≠ .parallelAcceptor) (hescaped : t.escaped = []) {c : Client}
    {p : Phase} (hrun : t.run = .handleRequest c p) : (Server.machine acceptor).Runs t
      (t.served c (ServiceFake.handleRequest (task acceptor) c p)) := by
  have he : (Server.machine acceptor).Enabled t .serve := ⟨hescaped, by simp [hrun]⟩
  cases acceptor with
  | parallelAcceptor => exact absurd rfl hpar
  | acceptorCl task =>
    have hnext : (Server.machine (.acceptorCl task)).next t .serve
        = t.served c (ServiceFake.handleRequest task c p) := by
      simp [Server.machine, Server.next, hrun]
    exact hnext ▸ Machine.Runs.single he

/-- The next call on a detached thread. -/
theorem runs_servedDetached (hescaped : t.escaped = []) {k : ℕ} {c : Client} {p : Phase}
    (hk : t.detached[k]? = some (c, p)) : (Server.machine .parallelAcceptor).Runs t
      (t.servedDetached k c (ServiceFake.handleRequest (task .parallelAcceptor) c p)) := by
  have he : (Server.machine .parallelAcceptor).Enabled t (.serveDetached k) :=
    ⟨hescaped, (List.getElem?_eq_some_iff.mp hk).1⟩
  have hnext : (Server.machine .parallelAcceptor).next t (.serveDetached k)
      = t.servedDetached k c (ServiceFake.handleRequest (task .parallelAcceptor) c p) := by
    simp only [Server.machine, Server.next, hk, task]
  exact hnext ▸ Machine.Runs.single he

/-- The thread of a client, among those of a list. -/
theorem getElem?_idxOf_map {l : List ι} {i : ι} (hi : i ∈ l) (f : ι → Client × Phase) :
    (l.map f)[l.idxOf i]? = some (f i) := by
  rw [List.getElem?_map, List.getElem?_idxOf hi]
  rfl

section Calls

variable (h : Matches acceptor clients s t) (hinv : Inv acceptor durations s) {i : ι}
  {c : Conversation}

include h in
omit [DecidableEq ι] in
/-- `AcceptorCl` detaches no thread. -/
theorem Matches.detached_eq_nil (hpar : acceptor ≠ .parallelAcceptor) : t.detached = [] := by
  obtain ⟨l, -, hmem, hdetached⟩ := h.detached
  have hnil : l = [] :=
    List.eq_nil_iff_forall_not_mem.mpr fun i hi => hpar ((hmem i).mp hi).1
  rw [hdetached, hnil, List.map_nil]

include h hinv in
omit [DecidableEq ι] in
/-- On `AcceptorCl` a client in service is on the thread of `Run`. -/
theorem Matches.run_of_serving (hpar : acceptor ≠ .parallelAcceptor) (hi : (s.talk i).Serving) :
    s.run = .handleRequest i ∧
      t.run = .handleRequest (clients i) (phase (task acceptor) (s.talk i)) := by
  have hrun := hinv.alone hpar i hi
  refine ⟨hrun, ?_⟩
  rw [h.run, runOf, hrun]
  simp only [if_neg hi.2]

include hinv in
/-- On `ParallelAcceptor` the thread of `Run` serves nobody. -/
theorem runOf_talk (hpar : acceptor = .parallelAcceptor) :
    runOf (task acceptor) clients { s with talk := update s.talk i c }
      = runOf (task acceptor) clients s := by
  cases hrun : s.run with
  | handleRequest j => exact absurd hpar (hinv.serving j hrun).1
  | test | accept | returned => simp only [runOf, hrun]

/-- Who has been served, when a client is still to be. -/
theorem Matches.ended_serving (h : Matches acceptor clients s t)
    (hi : (s.talk i).session ≠ .returned) (hc : c.session ≠ .returned) : ∃ l : List ι, l.Nodup ∧
      (∀ j, j ∈ l ↔ (update s.talk i c j).session = .returned) ∧ t.ended = l.map clients := by
  obtain ⟨l, hl, hmem, hended⟩ := h.ended
  refine ⟨l, hl, fun j => ?_, hended⟩
  rw [hmem]
  by_cases hji : j = i
  · subst hji
    simp [hi, hc]
  · simp [hji]

/-- Who has been served, when a client has just been. -/
theorem Matches.ended_returned (h : Matches acceptor clients s t) (hi : (s.talk i).Serving)
    (hc : c.session = .returned) : ∃ l : List ι, l.Nodup ∧
      (∀ j, j ∈ l ↔ (update s.talk i c j).session = .returned) ∧
      t.ended ++ [clients i] = l.map clients := by
  obtain ⟨l, hl, hmem, hended⟩ := h.ended
  have hnew : i ∉ l := fun hmem' => hi.2 ((hmem i).mp hmem')
  refine ⟨l ++ [i], by simpa using hl.concat hnew, fun j => ?_, by simp [hended]⟩
  rw [List.mem_append, hmem, List.mem_singleton]
  by_cases hji : j = i
  · subst hji
    simp [hc]
  · simp [hji]

end Calls

/-- **`read_until` returns**, and the server goes on to the write of the reply. -/
theorem matches_read (h : Matches acceptor clients s t) (hinv : Inv acceptor durations s)
    (hclients : ∀ i, Sends (durations i) (clients i)) {i : ι}
    (he : (s.talk i).Enabled .read) : ∃ t', (Server.machine acceptor).Runs t t' ∧
      Matches acceptor clients (next acceptor s (.talk i .read)) t' := by
  set c := (s.talk i).next (task acceptor) .read with hc
  have hserving : (s.talk i).Serving := by simp [Conversation.Serving, he.1]
  have hserving' : c.Serving := by simp [hc, Conversation.Serving, Conversation.next]
  have hphase : phase (task acceptor) (s.talk i) = .readUntil := by simp [phase, he.1]
  have hcall : ServiceFake.handleRequest (task acceptor) (clients i) .readUntil
      = .ok (some (phase (task acceptor) c)) := by
    rw [(hclients i).readUntil (task acceptor), ← hinv.duration i]
    rfl
  have hended := h.ended_serving hserving.2 hserving'.2
  by_cases hpar : acceptor = .parallelAcceptor
  · have hrun : t.run = runOf (task acceptor) clients (next acceptor s (.talk i .read)) :=
      h.run.trans (runOf_talk hinv hpar).symm
    subst hpar
    obtain ⟨l, hl, hmem, hdetached⟩ := h.detached
    have hruns := runs_servedDetached h.escaped (k := l.idxOf i) (c := clients i) (p := .readUntil)
      (by rw [hdetached, getElem?_idxOf_map ((hmem i).mpr ⟨rfl, hserving⟩), hphase])
    rw [hcall] at hruns
    refine ⟨_, hruns, h.liveFlag, hrun, ⟨l, hl, fun j => ?_, ?_⟩, h.accepted, hended, h.escaped⟩
    · rw [hmem]
      refine and_congr_right fun _ => ?_
      exact (Function.forall_update_iff s.talk fun j c => (s.talk j).Serving ↔ c.Serving).mpr
        ⟨iff_of_true hserving hserving', fun _ _ => Iff.rfl⟩ j
    · have hset := set_idxOf_map (a := i) hl
        (f := fun j => (clients j, phase (task .parallelAcceptor) (s.talk j)))
        (g := fun j => (clients j, phase (task .parallelAcceptor) (update s.talk i c j)))
        fun j hji => by rw [Function.update_of_ne hji]
      rw [← hdetached, Function.update_self] at hset
      exact hset
  · obtain ⟨hrun, htrun⟩ := h.run_of_serving hinv hpar hserving
    rw [hphase] at htrun
    have hruns := runs_served hpar h.escaped htrun
    rw [hcall] at hruns
    refine ⟨_, hruns, h.liveFlag, ?_, ⟨[], List.nodup_nil, fun j => ?_, ?_⟩, h.accepted, hended,
      h.escaped⟩
    · simp [Server.State.served, runOf, next, hrun, ← hc, hserving'.2]
    · simp [hpar]
    · exact h.detached_eq_nil hpar

/-- **`write` returns**, and with it the call of the server. -/
theorem matches_written (h : Matches acceptor clients s t) (hinv : Inv acceptor durations s)
    (hclients : ∀ i, Sends (durations i) (clients i)) {i : ι}
    (he : (s.talk i).Enabled .written) : ∃ t', (Server.machine acceptor).Runs t t' ∧
      Matches acceptor clients (next acceptor s (.talk i .written)) t' := by
  set c := (s.talk i).next (task acceptor) .written with hc
  have hsession : (s.talk i).session = .write [] := he
  have hserving : (s.talk i).Serving := by simp [Conversation.Serving, hsession]
  have hreturned : c.session = .returned := rfl
  have hcall : ServiceFake.handleRequest (task acceptor) (clients i)
      (phase (task acceptor) (s.talk i)) = .ok none := by
    simp only [phase, hsession]
    exact (hclients i).written _ _
  have hended := h.ended_returned hserving hreturned
  by_cases hpar : acceptor = .parallelAcceptor
  · have hrun : t.run = runOf (task acceptor) clients (next acceptor s (.talk i .written)) :=
      h.run.trans (runOf_talk hinv hpar).symm
    subst hpar
    obtain ⟨l, hl, hmem, hdetached⟩ := h.detached
    have hruns := runs_servedDetached h.escaped (k := l.idxOf i)
      (by rw [hdetached, getElem?_idxOf_map ((hmem i).mpr ⟨rfl, hserving⟩)])
    rw [hcall] at hruns
    refine ⟨_, hruns, h.liveFlag, hrun, ⟨l.erase i, hl.erase i, fun j => ?_, ?_⟩, h.accepted,
      hended, h.escaped⟩
    · rw [hl.mem_erase_iff, hmem]
      by_cases hji : j = i
      · subst hji
        simp [next, ← hc, Conversation.Serving, hreturned]
      · simp [next, hji]
    · have herase := eraseIdx_idxOf_map (a := i) hl
        (f := fun j => (clients j, phase (task .parallelAcceptor) (s.talk j)))
        (g := fun j => (clients j, phase (task .parallelAcceptor) (update s.talk i c j)))
        fun j hji => by rw [Function.update_of_ne hji]
      rw [← hdetached] at herase
      exact herase
  · obtain ⟨hrun, htrun⟩ := h.run_of_serving hinv hpar hserving
    have hruns := runs_served hpar h.escaped htrun
    rw [hcall] at hruns
    refine ⟨_, hruns, h.liveFlag, ?_, ⟨[], List.nodup_nil, fun j => ?_, ?_⟩, h.accepted, hended,
      h.escaped⟩
    · simp [Server.State.served, runOf, next, hrun, ← hc, hreturned]
    · simp [hpar]
    · exact h.detached_eq_nil hpar

/-- **`accept` returns**, in both. -/
theorem matches_accept (h : Matches acceptor clients s t) (hinv : Inv acceptor durations s)
    {i : ι} (he : Enabled s (.accept i)) : ∃ t', (Server.machine acceptor).Runs t t' ∧
      Matches acceptor clients (next acceptor s (.accept i)) t' := by
  obtain ⟨hrun, hhead⟩ := he
  obtain ⟨rest, hbacklog⟩ := List.head?_eq_some_iff.mp hhead
  have hsession := ((hinv.backlog i).mp (hbacklog ▸ List.mem_cons_self)).2
  have htrun : t.run = .accept := by rw [h.run, runOf, hrun]
  have hruns := Machine.Runs.single (m := Server.machine acceptor) (e := .accept (clients i))
    ⟨h.escaped, htrun⟩
  have haccepted : t.accepted ++ [clients i] = (s.accepted ++ [i]).map clients := by
    simp [h.accepted]
  have hended := h.ended_serving (i := i) (c := (s.talk i).accept) (by simp [hsession])
    (by simp [Conversation.accept])
  cases acceptor with
  | acceptorCl =>
    refine ⟨_, hruns, h.liveFlag, ?_, ⟨[], List.nodup_nil, fun j => by simp, ?_⟩, haccepted,
      hended, h.escaped⟩
    · simp [Server.machine, Server.next, runOf, next, phase, Conversation.accept]
    · exact h.detached_eq_nil (by simp)
  | parallelAcceptor =>
    obtain ⟨l, hl, hmem, hdetached⟩ := h.detached
    have hnew : i ∉ l := fun hi => ((hmem i).mp hi).2.1 hsession
    refine ⟨_, hruns, h.liveFlag, rfl, ⟨l ++ [i], by simpa using hl.concat hnew, fun j => ?_, ?_⟩,
      haccepted, hended, h.escaped⟩
    · rw [List.mem_append, hmem, List.mem_singleton]
      by_cases hji : j = i
      · subst hji
        simp [next, Conversation.accept, Conversation.Serving]
      · simp [next, hji]
    · have hold : ∀ j ∈ l, j ≠ i := fun j hj hji => hnew (hji ▸ hj)
      simp only [Server.machine, Server.next, next, hdetached, List.map_append, List.map_cons,
        List.map_nil, Function.update_self]
      refine congrArg₂ _ (List.map_congr_left fun j hj => ?_) rfl
      rw [Function.update_of_ne (hold j hj)]

/-- **Every step of the dialogue is one of the server**, or none. -/
theorem matches_next (h : Matches acceptor clients s t) (hinv : Inv acceptor durations s)
    (hclients : ∀ i, Sends (durations i) (clients i)) {e : Event ι} (he : Enabled s e) :
    ∃ t', (Server.machine acceptor).Runs t t' ∧
      Matches acceptor clients (next acceptor s e) t' := by
  cases e with
  | connect i =>
    exact ⟨t, .start, h.talk (c := (s.talk i).connect) ⟨rfl, Iff.rfl, Iff.rfl⟩ (s.backlog ++ [i])⟩
  | talk i e =>
    by_cases hread : e = .read
    · subst hread
      exact matches_read h hinv hclients he
    · by_cases hwritten : e = .written
      · subst hwritten
        exact matches_written h hinv hclients he
      · exact ⟨t, .start, h.talk (same_next he hread hwritten _) s.backlog⟩
  | test =>
    have hrun : t.run = .test := by rw [h.run, runOf, show s.run = .test from he]
    have hruns := Machine.Runs.single (m := Server.machine acceptor) (e := .test) ⟨h.escaped, hrun⟩
    refine ⟨_, hruns, h.liveFlag, ?_, h.detached, h.accepted, h.ended, h.escaped⟩
    simp only [Server.machine, Server.next, runOf, next, h.liveFlag]
    split <;> rfl
  | accept i => exact matches_accept h hinv he
  | handled i =>
    refine ⟨t, .start, h.liveFlag, ?_, h.detached, h.accepted, h.ended, h.escaped⟩
    rw [h.run, runOf, he.1]
    simp only [if_pos he.2]
    rfl
  | stop =>
    have hruns := Machine.Runs.single (m := Server.machine acceptor) (e := .stop)
      ⟨h.escaped, trivial⟩
    exact ⟨_, hruns, rfl, h.run, h.detached, h.accepted, h.ended, h.escaped⟩

/-- **The dialogue refines the server.**  Every run of it is matched by a run of `Server`, over any
clients that send these requests in chunks of whatever size; and what its clients have returned is
what `ReceiveResponse` returns of the reply, in chunks of whatever size. -/
theorem refines (h : (machine acceptor).Runs (.start durations) s)
    (hclients : ∀ i, Sends (durations i) (clients i)) :
    (∃ t, (Server.machine acceptor).Runs {} t ∧ Matches acceptor clients s t) ∧
    ∀ i line, (s.talk i).client = .returned line →
      ∀ chunks : List Bytes,
        chunks.flatten = reply (task acceptor) (request (durations i)) →
        ∃ rest, Delimiter.receiveResponse chunks = .ok (line, rest) := by
  refine ⟨h.simulates (matches_start acceptor durations clients) fun s' e t' hs' ht' he =>
    matches_next ht' (inv hs') hclients he, fun i line hclient chunks hchunks => ?_⟩
  have hline := ((inv h).stage i).response_eq hclient
  rw [(inv h).duration i] at hline
  obtain ⟨rest, hrest⟩ := receiveResponse_eq hchunks (by simp [reply])
  exact ⟨rest, hline ▸ hrest⟩

/-- The first request arrives in two chunks, the second one byte by byte. -/
def sampleClients (second : Bool) : Client where
  chunks := if second then Segmentation.bytewise.cut (request 20)
    else [bytes "EMULATE_LONG_", bytes "COMP_OP 10\n"]
  ending := .finished
  write := .success

theorem refines_sampleDurations : ∃ (s : State Bool) (t : Server.State),
    (machine fake).Runs (.start sampleDurations) s ∧ s.run = .handleRequest true ∧
      (Server.machine fake).Runs {} t ∧ t.accepted = [sampleClients false, sampleClients true] ∧
      t.run = .handleRequest (sampleClients true) .readUntil := by
  obtain ⟨s, hruns, hrun, hsession, haccepted⟩ := Machine.exists_runs_of_exec
    (m := machine fake) (s := State.start sampleDurations)
    (Q := fun s => s.run = .handleRequest true ∧ (s.talk true).session = .readUntil ∧
      s.accepted = [false, true])
    ([.connect false, .test, .accept false, .connect true] ++ inOnePiece false
      ++ [.handled false, .test, .accept true]) (by decide +kernel)
  have hclients : ∀ i, Sends (sampleDurations i) (sampleClients i) := by
    rintro (_ | _) <;> exact ⟨by decide +kernel, rfl⟩
  obtain ⟨t, ht, hmatches⟩ := (refines hruns hclients).1
  refine ⟨s, t, hruns, hrun, ht, ?_, ?_⟩
  · rw [hmatches.accepted, haccepted]
    rfl
  · rw [hmatches.run, runOf, hrun]
    simp [phase, hsession]

end SyncDialogue

end AsioSamples
