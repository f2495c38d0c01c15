import AsioSamples.Asio.Delivery
import AsioSamples.Machinery.LifeCycle

/-!
# LifeCycle/SyncClient — scopes with a `SyncTCPClient` in them

The destructor of `SyncTCPClient` calls `Close`, and `Close` shuts the socket down before it closes
it.  The shutdown throws unless the socket is connected, and out of a destructor that is the end of
the process.  So a scope with a client in it can be left only while the client is connected: its
first call must be a `Connect` that succeeds, a `Close` must be followed by another one, and the
connection must not be lost, in a call or between two of them (`scope_survives_iff`).  Neither a
`Connect` that fails can be caught nor a connection that is reset.
-/

namespace AsioSamples

namespace LifeCycle

/-! ## `socket_` -/

/-- `asio::error::bad_descriptor`, as the following ones with the value it has on Windows. -/
def badDescriptor : ErrorCode := ⟨10009, "system"⟩

/-- `asio::error::connection_reset`. -/
def connectionReset : ErrorCode := ⟨10054, "system"⟩

/-- `asio::error::already_connected`. -/
def alreadyConnected : ErrorCode := ⟨10056, "system"⟩

/-- `asio::error::not_connected`. -/
def notConnected : ErrorCode := ⟨10057, "system"⟩

/-- An `asio::ip::tcp::socket`. -/
inductive Socket
  | closed
  | opened
  | connected
  /-- It was connected, and there is no connection any more. -/
  | lost
  deriving DecidableEq

namespace Socket

/-- `connect`, which opens a socket that is closed; `ec` is what connecting comes to.  A socket that
has lost its connection does not get another one. -/
def connect (ec : ErrorCode) : Socket → Option ErrorCode × Socket
  | .connected => (some alreadyConnected, .connected)
  | .lost => (some alreadyConnected, .lost)
  | .closed | .opened => if ec.value ≠ 0 then (some ec, .opened) else (none, .connected)

/-- `shutdown(shutdown_both)`. -/
def shutdown : Socket → Option ErrorCode
  | .closed => some badDescriptor
  | .opened | .lost => some notConnected
  | .connected => none

/-- The writes and reads of a call; `ec` is what they come to on a connection. -/
def transfer (ec : ErrorCode) : Socket → Option ErrorCode × Socket
  | .closed => (some badDescriptor, .closed)
  | .opened => (some notConnected, .opened)
  | .lost => (some connectionReset, .lost)
  | .connected => (if ec.value ≠ 0 then some ec else none, .connected)

/-- The connection is lost, if there is one. -/
def lose : Socket → Socket
  | .connected => .lost
  | s => s

end Socket

/-! ## `SyncTCPClient` -/

namespace SyncTCPClient

/-- `Close`. -/
def close (s : Socket) : Option ErrorCode × Socket :=
  match s.shutdown with
  | some ec => (some ec, s)
  | none => (none, .closed)

/-- The public methods, with what the network lets them come to. -/
inductive Call
  | connect (ec : ErrorCode)
  | emulateLongComputationOp (durationSec : UInt32) (ec : ErrorCode)
  | close
  deriving DecidableEq

/-- What a call throws, and the socket behind it. -/
def Call.run (s : Socket) : Call → Option ErrorCode × Socket
  | .connect ec => s.connect ec
  | .emulateLongComputationOp _ ec => s.transfer ec
  | .close => SyncTCPClient.close s

/-- A call, and whether the connection is lost before the client comes to what is next, a call or
the destructor.  A call that fails may have lost it, and behind any call the peer may reset it. -/
structure Turn where
  call : Call
  lost : Bool
  deriving DecidableEq

/-- The socket as the network leaves it. -/
def Turn.leaves (t : Turn) (s : Socket) : Socket := if t.lost then s.lose else s

/-- A `SyncTCPClient`, whose constructor has opened the socket. -/
def cls : Scoped ErrorCode Socket Turn where
  new := .opened
  call s t := ((t.call.run s).1, t.leaves (t.call.run s).2)
  destroy s := (close s).1

/-- A `Connect` that the network lets succeed. -/
def Call.Connects : Call → Prop
  | .connect ec => ec.value = 0
  | _ => False

/-- The connection is lost, in the call or behind it.  Behind a `Close` there is none to lose. -/
def Turn.Loses (t : Turn) : Prop := t.call ≠ .close ∧ t.lost = true

/-- The next call is a `Connect` that succeeds. -/
def Begins (turns : List Turn) : Prop := ∃ t ∈ turns.head?, t.call.Connects

/-- No turn that is reached loses the connection, and every `Close` that is reached is followed by a
`Connect` that succeeds. -/
def Reconnects (s : Socket) (turns : List Turn) : Prop :=
  ∀ before t after, turns = before ++ t :: after → cls.Returns s before →
    ¬ t.Loses ∧ (t.call = .close → Begins after)

/-- A turn first. -/
theorem reconnects_cons (s : Socket) (t : Turn) (turns : List Turn) :
    Reconnects s (t :: turns) ↔ (¬ t.Loses ∧ (t.call = .close → Begins turns)) ∧
      ((cls.call s t).1 = none → Reconnects (cls.call s t).2 turns) := by
  constructor
  · intro h
    refine ⟨h [] t turns rfl trivial, fun hreturns before t' after heq hb => ?_⟩
    exact h (t :: before) t' after (by rw [heq]; rfl) ⟨hreturns, hb⟩
  · rintro ⟨hfirst, hrest⟩ before t' after heq hb
    cases before with
    | nil =>
      obtain ⟨rfl, rfl⟩ := List.cons.inj heq
      exact hfirst
    | cons t' before =>
      obtain ⟨rfl, rfl⟩ := List.cons.inj heq
      exact hrest hb.1 before _ after rfl hb.2

/-- What the network leaves of a connection. -/
theorem leaves_connected_iff (t : Turn) : t.leaves .connected = .connected ↔ t.lost = false := by
  rw [Turn.leaves]
  cases t.lost <;> simp [Socket.lose]

/-- Where there is no connection, there is none to lose. -/
theorem leaves_of_ne_connected (t : Turn) {s : Socket} (h : s ≠ .connected) : t.leaves s = s := by
  rw [Turn.leaves]
  cases s with
  | connected => exact absurd rfl h
  | closed | opened | lost => exact ite_self _

/-- **A client that has lost its connection** keeps throwing. -/
theorem left_lost (turns : List Turn) : cls.left .lost turns = .lost := by
  cases turns with
  | nil => rfl
  | cons t turns =>
    have hcall : (t.call.run .lost).1 ≠ none ∧ (t.call.run .lost).2 = .lost := by
      cases t.call <;> exact ⟨by simp [Call.run, close, Socket.connect, Socket.transfer,
        Socket.shutdown], rfl⟩
    rw [Scoped.left_of_ne_none hcall.1]
    exact (congrArg t.leaves hcall.2).trans (leaves_of_ne_connected t (by decide))

/-- **A call that returns** connects the client, or closes it, or finds it connected. -/
theorem run_returned {s s' : Socket} {k : Call} (h : k.run s = (none, s')) :
    (s = .connected ∧ k = .close ∧ s' = .closed) ∨
      ((s = .connected ∨ k.Connects) ∧ k ≠ .close ∧ s' = .connected) := by
  cases k with
  | connect ec =>
    cases s with
    | connected | lost => cases h
    | closed | opened =>
      simp only [Call.run, Socket.connect] at h
      split at h
      · cases h
      next hec =>
        cases h
        exact .inr ⟨.inr (not_not.mp hec), by simp, rfl⟩
  | emulateLongComputationOp durationSec ec =>
    cases s with
    | connected => exact .inr ⟨.inl rfl, by simp, (congrArg Prod.snd h).symm⟩
    | closed | opened | lost => cases h
  | close =>
    cases s with
    | connected => exact .inl ⟨rfl, rfl, (congrArg Prod.snd h).symm⟩
    | closed | opened | lost => cases h

/-- **A call that throws** leaves the client as connected as it was. -/
theorem run_thrown {s s' : Socket} {k : Call} {ec : ErrorCode} (hlost : s ≠ .lost)
    (h : k.run s = (some ec, s')) :
    (s = .connected ∧ k ≠ .close ∧ s' = .connected) ∨
      (s ≠ .connected ∧ ¬ k.Connects ∧ s' ≠ .connected) := by
  cases k with
  | connect ec' =>
    cases s with
    | connected => exact .inl ⟨rfl, by simp, (congrArg Prod.snd h).symm⟩
    | lost => exact absurd rfl hlost
    | closed | opened =>
      simp only [Call.run, Socket.connect] at h
      split at h
      next hec =>
        cases h
        exact .inr ⟨by decide, hec, by decide⟩
      · cases h
  | emulateLongComputationOp durationSec ec' =>
    cases s with
    | connected => exact .inl ⟨rfl, by simp, (congrArg Prod.snd h).symm⟩
    | lost => exact absurd rfl hlost
    | closed | opened =>
      cases h
      exact .inr ⟨by decide, not_false, by decide⟩
  | close =>
    cases s with
    | connected => cases h
    | lost => exact absurd rfl hlost
    | closed | opened =>
      cases h
      exact .inr ⟨by decide, not_false, by decide⟩

/-- **Which scopes are left connected**, from a client that has lost no connection. -/
theorem left_eq_connected_iff {s : Socket} (hlost : s ≠ .lost) (turns : List Turn) :
    cls.left s turns = .connected ↔ (s = .connected ∨ Begins turns) ∧ Reconnects s turns := by
  induction turns generalizing s with
  | nil =>
    have hnone : Reconnects s [] := fun before t after h => by simp at h
    simp [Scoped.left, Begins, hnone]
  | cons t turns ih =>
    have hbegins : Begins (t :: turns) ↔ t.call.Connects := by simp [Begins]
    rw [reconnects_cons, hbegins]
    cases hrun : t.call.run s with
    | mk thrown s' =>
      have hcall : cls.call s t = (thrown, t.leaves s') := by simp only [cls, hrun]
      cases thrown with
      | some ec =>
        rw [Scoped.left_of_ne_none (by rw [hcall]; exact Option.some_ne_none ec), hcall]
        rcases run_thrown hlost hrun with ⟨hs, hk, rfl⟩ | ⟨hs, hk, hs'⟩
        · simp [hs, hk, Turn.Loses, leaves_connected_iff]
        · simp [hs, hk, hs', leaves_of_ne_connected t hs']
      | none =>
        rw [Scoped.left_of_none (by rw [hcall]), hcall]
        rcases run_returned hrun with ⟨hs, hk, rfl⟩ | ⟨hs, hk, rfl⟩
        · rw [leaves_of_ne_connected t (by decide), ih (by decide)]
          simp [hs, hk, Turn.Loses]
        · cases hgone : t.lost with
          | false =>
            rw [(leaves_connected_iff t).mpr hgone, ih (by decide)]
            simp [hs, hk, Turn.Loses, hgone]
          | true =>
            have hleaves : t.leaves .connected = .lost := by simp [Turn.leaves, hgone, Socket.lose]
            rw [hleaves, left_lost]
            simp [hk, Turn.Loses, hgone]

/-- The destructor throws unless the client is connected. -/
theorem destroy_isSome_iff (s : Socket) : (cls.destroy s).isSome ↔ s ≠ .connected := by
  cases s <;> simp [cls, close, Socket.shutdown]

/-- **Which scopes do not end the process**: those whose first call is a `Connect` that succeeds,
in which every `Close` that is reached is followed by another one, and the connection is not lost in
or behind any call that is reached. -/
theorem scope_survives_iff (turns : List Turn) :
    cls.scope turns ≠ .terminated ↔ Begins turns ∧ Reconnects .opened turns := by
  rw [ne_eq, Scoped.scope_eq_terminated_iff, destroy_isSome_iff, not_not]
  exact (left_eq_connected_iff (s := .opened) (by decide) turns).trans (by simp)

/-- A client of `TEST(TCP_SYNC, tcp_server_client_sync)`, and what becomes of it where its server
resets the connection once it has answered. -/
example (lost : Bool) : cls.scope
    [⟨.connect .success, false⟩, ⟨.emulateLongComputationOp 10 .success, lost⟩]
      = if lost then .terminated else .ended := by
  cases lost <;> rfl

end SyncTCPClient

end LifeCycle

end AsioSamples
