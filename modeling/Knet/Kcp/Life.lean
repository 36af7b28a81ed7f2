import Knet.Kcp.Handshake
import Knet.Kcp.Listener

/-!
# The life of a KCP connection

A connection object is told `EVT_CONNECT` when a handshake message takes it out of `CONN_OPEN`,
which happens once. `EVT_DISCONNECT` comes from three places: the heartbeat timer of an end that
listens or does not reconnect, which releases the object, that of a client that reconnects, which
leaves everything as it is, and the completion of the send that `disconnect` starts. None of them
asks whether there was a session, nor whether the object was told before.
-/

namespace Knet.Kcp

/-! ## Events of a session -/

/-- `EVT_CONNECT` and `EVT_DISCONNECT`. -/
def Entry.isSession : Entry → Bool
  | .connect | .disconnect => true
  | _ => false

/-- `EVT_CONNECT` and `EVT_DISCONNECT` alternate. `up` says whether a session is up before. -/
def Entry.Alternate : Bool → List Entry → Prop
  | _, [] => True
  | up, .connect :: l => up = false ∧ Entry.Alternate true l
  | up, .disconnect :: l => up = true ∧ Entry.Alternate false l
  | up, _ :: l => Entry.Alternate up l

theorem Entry.alternate_filter (up : Bool) (l : List Entry) :
    Entry.Alternate up (l.filter isSession) ↔ Entry.Alternate up l := by
  induction l generalizing up with
  | nil => exact Iff.rfl
  | cons x l ih =>
    cases x with
    | connect => exact and_congr_right fun _ ↦ ih true
    | disconnect => exact and_congr_right fun _ ↦ ih false
    | recv => exact ih up
    | receive data => exact ih up
    | package data => exact ih up

namespace KcpConnection

variable {κ : Type*} (lib : Ikcp κ)

/-- The events of its sessions that the connection was told. -/
def events (c : KcpConnection κ) : List Entry := c.log.filter Entry.isSession

/-- `EVT_CONNECT` and `EVT_DISCONNECT` alternate, starting with `EVT_CONNECT`. -/
def Alternates (c : KcpConnection κ) : Prop := Entry.Alternate false c.log

theorem alternates_iff {c : KcpConnection κ} :
    c.Alternates ↔ Entry.Alternate false c.events :=
  (Entry.alternate_filter false c.log).symm

theorem disconnect_mem_iff {c : KcpConnection κ} :
    Entry.disconnect ∈ c.log ↔ Entry.disconnect ∈ c.events := by
  rw [events, List.mem_filter]
  exact (and_iff_left rfl).symm

/-! ## What the handlers do to a session -/

/-- The connection has neither become ready nor been told anything of a session. -/
structure Undisturbed (c c' : KcpConnection κ) : Prop where
  status : c'.connStatus = c.connStatus
  kcp : c'.kcp.isSome = c.kcp.isSome
  events : c'.events = c.events

theorem Undisturbed.trans {c c' c'' : KcpConnection κ} (h : Undisturbed c c')
    (h' : Undisturbed c' c'') : Undisturbed c c'' :=
  ⟨h'.status.trans h.status, h'.kcp.trans h.kcp, h'.events.trans h.events⟩

/-- A handshake message has started a session, at an open connection. -/
structure Starts (c c' : KcpConnection κ) : Prop where
  opened : c.connStatus = .opened
  ready : c'.connStatus = .kcpReady
  kcp : c'.kcp.isSome = true
  events : c'.events = c.events ++ [.connect]

/-- A handshake message has created the `kcp` object of a ready connection anew. -/
structure Restarts (c c' : KcpConnection κ) : Prop where
  before : c.connStatus = .kcpReady
  ready : c'.connStatus = .kcpReady
  kcp : c'.kcp.isSome = true
  events : c'.events = c.events

theorem events_connected (c : KcpConnection κ) : c.connected.events = c.events ++ [.connect] :=
  List.filter_append _ _

theorem events_disconnected (c : KcpConnection κ) :
    c.disconnected.events = c.events ++ [.disconnect] :=
  List.filter_append _ _

theorem events_release (c : KcpConnection κ) : c.release.events = c.events := by
  rw [release]
  split_ifs <;> rfl

theorem starts_initKcp {c c' : KcpConnection κ} (hopen : c.connStatus = .opened)
    (hlog : c'.log = c.log) : Starts c (c'.initKcp lib).connected := by
  refine ⟨hopen, rfl, rfl, ?_⟩
  rw [events_connected, events, events]
  exact congrArg (fun l ↦ l.filter Entry.isSession ++ [Entry.connect]) hlog

theorem checkControlMessage_cases (c : KcpConnection κ) (serverConvIndex : UInt32)
    (head : KcpMsgHead) :
    Starts c (c.checkControlMessage lib serverConvIndex head).conn
      ∨ Restarts c (c.checkControlMessage lib serverConvIndex head).conn
      ∨ Undisturbed c (c.checkControlMessage lib serverConvIndex head).conn := by
  rw [checkControlMessage]
  split
  · split
    · obtain ⟨index, heq⟩ := requestOnOpen_eq lib c serverConvIndex head.conv
      rw [heq]
      dsimp only
      split_ifs
      · exact .inl (starts_initKcp lib ‹_› rfl)
      · exact .inr (.inr ⟨rfl, rfl, rfl⟩)
    · dsimp only
      split_ifs
      · exact .inl (starts_initKcp lib ‹_› rfl)
      · exact .inl (starts_initKcp lib ‹_› rfl)
    · exact .inr (.inr ⟨rfl, rfl, rfl⟩)
    · exact .inr (.inr ⟨rfl, rfl, rfl⟩)
  · split
    · dsimp only
      split_ifs <;> exact .inr (.inl ⟨‹_›, rfl, rfl, rfl⟩)
    · dsimp only
      split_ifs <;> exact .inr (.inl ⟨‹_›, rfl, rfl, rfl⟩)
    · exact .inr (.inr ⟨rfl, rfl, rfl⟩)
    · exact .inr (.inr ⟨rfl, rfl, rfl⟩)
  · split <;> exact .inr (.inr ⟨rfl, rfl, rfl⟩)

theorem events_append_of_data {c : KcpConnection κ} {l : List Entry}
    (h : ∀ x ∈ l, x.isSession = false) : (c.log ++ l).filter Entry.isSession = c.events := by
  have hl : l.filter Entry.isSession = [] := List.filter_eq_nil_iff.mpr (by simpa using h)
  rw [List.filter_append, hl, List.append_nil, events]

theorem drain_undisturbed (dataLen fuel recvLen : ℕ) {c : KcpConnection κ} (k : κ)
    (hc : c.kcp.isSome = true) : Undisturbed c (drain lib dataLen fuel recvLen c k) := by
  induction fuel generalizing recvLen c k with
  | zero => exact ⟨rfl, hc.symm, rfl⟩
  | succ fuel ih =>
    rw [drain]
    split_ifs
    · split
      · rename_i k' msg _
        split_ifs
        · have hlog : Undisturbed c { c with log := c.log ++ [.package msg, .recv] } :=
            ⟨rfl, rfl, events_append_of_data (by simp [Entry.isSession])⟩
          apply hlog.trans
          apply ih
          exact hc
        · exact ⟨rfl, hc.symm, rfl⟩
      · exact ⟨rfl, hc.symm, rfl⟩
    · exact ⟨rfl, hc.symm, rfl⟩

theorem handleReceive_undisturbed (c : KcpConnection κ) (data : List UInt8) :
    Undisturbed c (c.handleReceive lib data) := by
  have hlog : Undisturbed c { c with log := c.log ++ [.receive data] } :=
    ⟨rfl, rfl, events_append_of_data (by simp [Entry.isSession])⟩
  rw [handleReceive]
  split
  · exact hlog
  · rename_i k hk
    have hsome : c.kcp.isSome = true := congrArg Option.isSome hk
    dsimp only
    split_ifs
    · exact ⟨rfl, hsome.symm, hlog.events⟩
    · exact hlog.trans (drain_undisturbed lib _ _ _ _ hsome)

theorem receive_cases (c : KcpConnection κ) (serverConvIndex : UInt32) (head : KcpMsgHead)
    (data : List UInt8) :
    Starts c (c.receive lib serverConvIndex head data).conn
      ∨ Restarts c (c.receive lib serverConvIndex head data).conn
      ∨ Undisturbed c (c.receive lib serverConvIndex head data).conn := by
  have h := checkControlMessage_cases lib c serverConvIndex head
  rw [receive]
  split_ifs
  · exact h
  · have hdata := handleReceive_undisturbed lib
      (c.checkControlMessage lib serverConvIndex head).conn data
    dsimp only
    rcases h with h | h | h
    · exact .inl ⟨h.opened, hdata.status.trans h.ready, hdata.kcp.trans h.kcp,
        hdata.events.trans h.events⟩
    · exact .inr (.inl ⟨h.before, hdata.status.trans h.ready, hdata.kcp.trans h.kcp,
        hdata.events.trans h.events⟩)
    · exact .inr (.inr (h.trans hdata))

theorem send_undisturbed (c : KcpConnection κ) (data : List UInt8) :
    Undisturbed c (c.send lib data).1 := by
  rw [send]
  split_ifs
  · cases hk : c.kcp with
    | none => exact ⟨rfl, rfl, rfl⟩
    | some k => exact ⟨rfl, (congrArg Option.isSome hk).symm, rfl⟩
  · exact ⟨rfl, rfl, rfl⟩

theorem tick_undisturbed (c : KcpConnection κ) (now : UInt32) :
    Undisturbed c (c.tick lib now).1 := by
  rw [tick]
  split
  · rename_i k hk
    have hsome : c.kcp.isSome = true := congrArg Option.isSome hk
    by_cases hready : c.connStatus = .kcpReady
    · rw [if_pos hready]
      exact ⟨rfl, hsome.symm, rfl⟩
    · rw [if_neg hready]
      exact ⟨rfl, rfl, rfl⟩
  · exact ⟨rfl, rfl, rfl⟩

/-! ## Runs -/

/-- What can happen to a connection. -/
inductive Action
  /-- The socket receives a datagram. -/
  | receive (serverConvIndex : UInt32) (head : KcpMsgHead) (data : List UInt8)
  /-- The user calls `send`. -/
  | send (data : List UInt8)
  /-- The timer of the `kcp` object fires. -/
  | tick (now : UInt32)
  /-- The heartbeat timer fires. -/
  | heartbeat (elapseTime : ℤ)
  /-- The user calls `disconnect`. -/
  | disconnect
  /-- The send of the goodbye message completes. -/
  | disconnectDone
  deriving DecidableEq, Repr

/-- One step, or `none` when the action is not possible. -/
def step (c : KcpConnection κ) : Action → Option (KcpConnection κ)
  | .receive serverConvIndex head data =>
    if c.kcpSock then some (c.receive lib serverConvIndex head data).conn else none
  | .send data => some (c.send lib data).1
  | .tick now => if c.kcpTimer then some (c.tick lib now).1 else none
  | .heartbeat elapseTime =>
    if c.heartbeatTimer then some (c.heartbeatFires elapseTime).1 else none
  | .disconnect => some c.disconnect.1
  | .disconnectDone => if 0 < c.goodbyes then some c.disconnectDone else none

/-- The step system of a connection. -/
def system : StepSystem (KcpConnection κ) Action := ⟨step lib⟩

/-- A time-out of the heartbeat, or the completion of `disconnect`. -/
def Action.tells : Action → Bool
  | .heartbeat elapseTime => decide (3000 < elapseTime)
  | .disconnectDone => true
  | _ => false

/-- The connection is told that it is disconnected while it has its `kcp` object and was not told
before. -/
def Timely (c : KcpConnection κ) (a : Action) : Prop :=
  a.tells = true → c.kcp.isSome = true ∧ Entry.disconnect ∉ c.log

instance decidableTimely (c : KcpConnection κ) (a : Action) : Decidable (c.Timely a) :=
  inferInstanceAs (Decidable (_ → _))

/-- Where a connection is in its life. -/
inductive Stage (c : KcpConnection κ) : Prop
  | fresh : c.events = [] → c.kcp.isSome = false → c.connStatus ≠ .kcpReady → Stage c
  | up : c.events = [.connect] → c.kcp.isSome = true → c.connStatus ≠ .opened → Stage c
  | down : c.events = [.connect, .disconnect] → c.connStatus ≠ .opened → Stage c

variable {lib} {c c' : KcpConnection κ}

theorem Stage.undisturbed (h : Stage c) (hu : Undisturbed c c') : Stage c' := by
  rcases h with ⟨he, hk, hs⟩ | ⟨he, hk, hs⟩ | ⟨he, hs⟩
  · exact .fresh (hu.events.trans he) (hu.kcp.trans hk) (hu.status ▸ hs)
  · exact .up (hu.events.trans he) (hu.kcp.trans hk) (hu.status ▸ hs)
  · exact .down (hu.events.trans he) (hu.status ▸ hs)

theorem Stage.receive (h : Stage c) (serverConvIndex : UInt32) (head : KcpMsgHead)
    (data : List UInt8) : Stage (c.receive lib serverConvIndex head data).conn := by
  rcases receive_cases lib c serverConvIndex head data with hr | hr | hr
  · rcases h with ⟨he, -, -⟩ | ⟨-, -, hs⟩ | ⟨-, hs⟩
    · refine .up (hr.events.trans (by rw [he]; rfl)) hr.kcp (by rw [hr.ready]; decide)
    · exact absurd hr.opened hs
    · exact absurd hr.opened hs
  · rcases h with ⟨-, -, hs⟩ | ⟨he, -, -⟩ | ⟨he, -⟩
    · exact absurd hr.before hs
    · exact .up (hr.events.trans he) hr.kcp (by rw [hr.ready]; decide)
    · exact .down (hr.events.trans he) (by rw [hr.ready]; decide)
  · exact h.undisturbed hr

theorem Stage.disconnect (h : Stage c) : Stage c.disconnect.1 := by
  rw [KcpConnection.disconnect]
  split_ifs
  · rcases h with ⟨he, hk, -⟩ | ⟨he, hk, -⟩ | ⟨he, -⟩
    · exact .fresh he hk (by simp)
    · exact .up he hk (by simp)
    · exact .down he (by simp)
  · exact h

/-- Being told of the end: it comes in its place exactly when there is a `kcp` object and the
connection was not told before. -/
theorem Stage.tell (h : Stage c) (he : c'.events = c.events ++ [.disconnect])
    (hs : c'.connStatus = .closed ∨ c'.connStatus = c.connStatus) :
    (c.kcp.isSome = true ∧ Entry.disconnect ∉ c.log → Stage c')
      ∧ (c'.Alternates → c.kcp.isSome = true ∧ Entry.disconnect ∉ c.log) := by
  rw [disconnect_mem_iff, alternates_iff, he]
  rcases h with ⟨hev, hk, -⟩ | ⟨hev, hk, hst⟩ | ⟨hev, -⟩
  · simp [hev, hk, Entry.Alternate]
  · have hopen : c'.connStatus ≠ .opened := by
      rcases hs with hs | hs
      · rw [hs]
        decide
      · rwa [hs]
    exact ⟨fun _ ↦ .down (he.trans (by rw [hev]; rfl)) hopen, fun _ ↦ by simp [hev, hk]⟩
  · simp [hev, Entry.Alternate]

/-- **A step and the stage.** A step that is timely leads to another stage, and a step after which
the events alternate was timely. -/
theorem Stage.step (h : Stage c) {a : Action} (hstep : (system lib).step c a = some c') :
    (c.Timely a → Stage c') ∧ (c'.Alternates → c.Timely a) := by
  have hquiet : ∀ {d : KcpConnection κ} {b : Action}, Stage d → b.tells = false →
      (c.Timely b → Stage d) ∧ (d.Alternates → c.Timely b) := fun hd hb ↦
    ⟨fun _ ↦ hd, fun _ hb' ↦ absurd (hb.symm.trans hb') (by decide)⟩
  have htold : ∀ {d : KcpConnection κ} {b : Action}, d.events = c.events ++ [.disconnect] →
      (d.connStatus = .closed ∨ d.connStatus = c.connStatus) → b.tells = true →
      (c.Timely b → Stage d) ∧ (d.Alternates → c.Timely b) := fun he hs hb ↦
    ⟨fun ht ↦ (h.tell he hs).1 (ht hb), fun ha _ ↦ (h.tell he hs).2 ha⟩
  cases a with
  | receive serverConvIndex head data =>
    obtain ⟨-, hsome⟩ := Option.ite_none_right_eq_some.mp hstep
    obtain rfl := Option.some.inj hsome
    exact hquiet (h.receive serverConvIndex head data) rfl
  | send data =>
    obtain rfl := Option.some.inj hstep
    exact hquiet (h.undisturbed (send_undisturbed lib c data)) rfl
  | tick now =>
    obtain ⟨-, hsome⟩ := Option.ite_none_right_eq_some.mp hstep
    obtain rfl := Option.some.inj hsome
    exact hquiet (h.undisturbed (tick_undisturbed lib c now)) rfl
  | heartbeat elapseTime =>
    obtain ⟨-, hsome⟩ := Option.ite_none_right_eq_some.mp hstep
    obtain rfl := Option.some.inj hsome
    rw [heartbeatFires]
    split_ifs with hlate hflag
    · exact htold (by rw [events_release, events_disconnected]) (.inl (connStatus_release _))
        (decide_eq_true hlate)
    · exact htold (events_disconnected c) (.inr rfl) (decide_eq_true hlate)
    · exact hquiet h (decide_eq_false hlate)
  | disconnect =>
    obtain rfl := Option.some.inj hstep
    exact hquiet h.disconnect rfl
  | disconnectDone =>
    obtain ⟨-, hsome⟩ := Option.ite_none_right_eq_some.mp hstep
    obtain rfl := Option.some.inj hsome
    refine htold ?_ (.inl (connStatus_release _)) rfl
    rw [disconnectDone, events_release, events_disconnected]
    rfl

/-- A ready connection has its `kcp` object, and keeps it as long as it is ready. -/
theorem kcp_step {a : Action} (hc : c.connStatus = .kcpReady → c.kcp.isSome = true)
    (hstep : (system lib).step c a = some c') (hready : c'.connStatus = .kcpReady) :
    c'.kcp.isSome = true := by
  have hundisturbed : ∀ {d : KcpConnection κ}, Undisturbed c d → d.connStatus = .kcpReady →
      d.kcp.isSome = true := fun hd hr ↦ hd.kcp.trans (hc (hd.status.symm.trans hr))
  cases a with
  | receive serverConvIndex head data =>
    obtain ⟨-, hsome⟩ := Option.ite_none_right_eq_some.mp hstep
    obtain rfl := Option.some.inj hsome
    rcases receive_cases lib c serverConvIndex head data with hr | hr | hr
    · exact hr.kcp
    · exact hr.kcp
    · exact hundisturbed hr hready
  | send data =>
    obtain rfl := Option.some.inj hstep
    exact hundisturbed (send_undisturbed lib c data) hready
  | tick now =>
    obtain ⟨-, hsome⟩ := Option.ite_none_right_eq_some.mp hstep
    obtain rfl := Option.some.inj hsome
    exact hundisturbed (tick_undisturbed lib c now) hready
  | heartbeat elapseTime =>
    obtain ⟨-, hsome⟩ := Option.ite_none_right_eq_some.mp hstep
    obtain rfl := Option.some.inj hsome
    rw [heartbeatFires] at hready ⊢
    split_ifs at hready ⊢
    · exact absurd hready (release_not_ready _)
    · exact hc hready
    · exact hc hready
  | disconnect =>
    obtain rfl := Option.some.inj hstep
    rw [disconnect] at hready ⊢
    split_ifs at hready ⊢
    exact hc hready
  | disconnectDone =>
    obtain ⟨-, hsome⟩ := Option.ite_none_right_eq_some.mp hstep
    obtain rfl := Option.some.inj hsome
    exact absurd hready (release_not_ready _)

/-- A connection that `KcpListener` has called `listen` on, or one on which `connect` was called. -/
def begun (e : Side) (cid : UInt32) (reconn : Bool) : KcpConnection κ :=
  match e with
  | .server => listening cid
  | .client => connecting cid reconn

end KcpConnection

end Knet.Kcp
