import Knet.Kcp.Ikcp
import Knet.Kcp.Receive
import Knet.Lib.StepSystem

/-!
# The connections of a KCP listener over time

`KcpListener` creates a connection at the first datagram from an endpoint and keeps it under the
endpoint from then on: `destroy_connection` looks for the connection's id among addresses and is
called from nowhere. A connection that was disconnected or released therefore stays where it is, and
ignores what its endpoint sends.
-/

namespace Knet.Kcp

namespace KcpConnection

variable {κ : Type*} (lib : Ikcp κ)

/-- Handling a message makes a connection ready or leaves its status alone. -/
theorem connStatus_checkControlMessage (c : KcpConnection κ) (serverConvIndex : UInt32)
    (head : KcpMsgHead) :
    (c.checkControlMessage lib serverConvIndex head).conn.connStatus = .kcpReady
      ∨ (c.checkControlMessage lib serverConvIndex head).conn.connStatus = c.connStatus := by
  rw [checkControlMessage]
  split
  · split
    · obtain ⟨index, heq⟩ := requestOnOpen_eq lib c serverConvIndex head.conv
      rw [heq]
      dsimp only
      split_ifs
      · exact .inl rfl
      · exact .inr rfl
    · exact .inl rfl
    · exact .inr rfl
    · exact .inr rfl
  · split
    · exact .inl rfl
    · exact .inl rfl
    · exact .inr rfl
    · exact .inr rfl
  · split <;> exact .inr rfl

theorem connStatus_receive (c : KcpConnection κ) (serverConvIndex : UInt32) (head : KcpMsgHead)
    (data : List UInt8) :
    (c.receive lib serverConvIndex head data).conn.connStatus = .kcpReady
      ∨ (c.receive lib serverConvIndex head data).conn.connStatus = c.connStatus := by
  have h := connStatus_checkControlMessage lib c serverConvIndex head
  rw [receive]
  split_ifs
  · exact h
  · dsimp only
    rwa [(handleReceive_frame lib _ data).1]

theorem connStatus_release (c : KcpConnection κ) : c.release.connStatus = .closed := by
  rw [release]
  split_ifs with h
  · exact h
  · rfl

theorem connStatus_tick (c : KcpConnection κ) (now : UInt32) :
    (c.tick lib now).1.connStatus = c.connStatus := by
  rw [tick]
  split
  · split_ifs <;> rfl
  · rfl

theorem connStatus_send (c : KcpConnection κ) (data : List UInt8) :
    (c.send lib data).1.connStatus = c.connStatus := by
  rw [send]
  split_ifs
  · split <;> rfl
  · rfl

theorem connStatus_heartbeatFires (c : KcpConnection κ) (elapseTime : ℤ) :
    (c.heartbeatFires elapseTime).1.connStatus = .closed
      ∨ (c.heartbeatFires elapseTime).1.connStatus = c.connStatus := by
  rw [heartbeatFires]
  split_ifs
  · exact .inl (connStatus_release _)
  · exact .inr rfl
  · exact .inr rfl

theorem connStatus_disconnect (c : KcpConnection κ) :
    c.disconnect.1.connStatus = .closing ∨ c.disconnect.1.connStatus = c.connStatus := by
  rw [disconnect]
  split_ifs
  · exact .inl rfl
  · exact .inr rfl

/-- A request with an id at a ready connection: the `kcp` object is created anew, with the id the
connection has, or with that of the request if it has none. -/
theorem receive_request_of_ready {c : KcpConnection κ} {head : KcpMsgHead}
    (hready : c.connStatus = .kcpReady) (serverConvIndex : UInt32)
    (htype : head.type = some .shakehandRequest) (hconv : head.conv ≠ 0) (data : List UInt8) :
    (c.receive lib serverConvIndex head data).conn.connStatus = .kcpReady
      ∧ (c.receive lib serverConvIndex head data).conn.kcp.map lib.conv
        = some (if c.cid = 0 then head.conv else c.cid) := by
  rw [receive, checkControlMessage]
  split
  · exact absurd (hready.symm.trans ‹_›) (by decide)
  · simp only [htype, if_true]
    refine ⟨rfl, ?_⟩
    by_cases hcid : c.cid = 0
    · simp [initKcp, lib.conv_create, hcid, hconv]
    · simp [initKcp, lib.conv_create, hcid]
  · exact absurd hready ‹_›

/-- **A request with an id.** It makes an open connection ready with this id, and a ready one too
unless that has another id already; a connection that was closed ignores it. -/
theorem receive_request {c : KcpConnection κ} {head : KcpMsgHead} (serverConvIndex : UInt32)
    (htype : head.type = some .shakehandRequest) (hconv : head.conv ≠ 0) (data : List UInt8)
    (hidle : c.connStatus ≠ .idle) :
    ((c.receive lib serverConvIndex head data).conn.connStatus = .kcpReady
        ∧ (c.receive lib serverConvIndex head data).conn.kcp.map lib.conv = some head.conv)
      ↔ c.connStatus ≠ .closing ∧ c.connStatus ≠ .closed
        ∧ (c.connStatus = .kcpReady → c.cid = 0 ∨ c.cid = head.conv) := by
  have hinactive : c.connStatus ≠ .opened → c.connStatus ≠ .kcpReady →
      (c.receive lib serverConvIndex head data).conn.connStatus = c.connStatus := fun hopen hready ↦
    (receive_of_inactive lib hopen hready serverConvIndex head data).status
  cases hstatus : c.connStatus with
  | idle => exact absurd hstatus hidle
  | opened =>
    have hid : c.requestedId serverConvIndex head.conv = head.conv := if_pos hconv
    have hready : ReadyWith lib (c.requestOnOpen lib serverConvIndex head.conv)
        (c.requestedId serverConvIndex head.conv) := requestOnOpen_readyWith (by rwa [hid])
    rw [receive_of_open lib hstatus, htype]
    simp [hready.ready, hready.conv, hid]
  | kcpReady =>
    obtain ⟨hready, hkcp⟩ := receive_request_of_ready lib hstatus serverConvIndex htype hconv data
    rw [hready, hkcp]
    by_cases hcid : c.cid = 0
    · simp [hcid]
    · simp [hcid]
  | closing =>
    rw [hstatus] at hinactive
    simp [hinactive]
  | closed =>
    rw [hstatus] at hinactive
    simp [hinactive]

end KcpConnection

namespace KcpListener

variable {κ ε : Type*} (lib : Ikcp κ) [DecidableEq ε]

/-- What can happen next. -/
inductive Action (ε : Type*)
  /-- A datagram reaches the socket. -/
  | arrive (pt : ε) (d : List UInt8)
  /-- The heartbeat timer of the connection fires. -/
  | heartbeat (pt : ε) (elapseTime : ℤ)
  /-- The timer of its `kcp` object fires. -/
  | tick (pt : ε) (now : UInt32)
  /-- The user calls `send`. -/
  | send (pt : ε) (data : List UInt8)
  /-- The user calls `disconnect`. -/
  | disconnect (pt : ε)
  /-- The send of the goodbye message completes. -/
  | disconnectDone (pt : ε)
  /-- A connection is constructed elsewhere in the program. -/
  | construct
  /-- An id is allocated elsewhere in the program. -/
  | allocate

/-- The connection of the endpoint is now `c` and has sent `sent`. -/
def act (l : KcpListener κ ε) (pt : ε) (c : KcpConnection κ) (sent : List (List UInt8)) :
    KcpListener κ ε :=
  { l with
    connections := Function.update l.connections pt (some c)
    sent := l.sent ++ sent.map fun x ↦ (pt, x) }

/-- One step of a listener, which waits for a datagram or not. -/
def step (s : KcpListener κ ε × Bool) : Action ε → Option (KcpListener κ ε × Bool)
  | .arrive pt d => some ((loop lib).arrive s (pt, d))
  | .heartbeat pt elapseTime =>
    (s.1.connections pt).bind fun c ↦
      if c.heartbeatTimer then
        some (s.1.act pt (c.heartbeatFires elapseTime).1 (c.heartbeatFires elapseTime).2, s.2)
      else none
  | .tick pt now =>
    (s.1.connections pt).bind fun c ↦
      if c.kcpTimer then some (s.1.act pt (c.tick lib now).1 (c.tick lib now).2, s.2) else none
  | .send pt data =>
    (s.1.connections pt).map fun c ↦ (s.1.act pt (c.send lib data).1 (c.send lib data).2.1, s.2)
  | .disconnect pt =>
    (s.1.connections pt).map fun c ↦ (s.1.act pt c.disconnect.1 c.disconnect.2, s.2)
  | .disconnectDone pt =>
    (s.1.connections pt).bind fun c ↦
      if 0 < c.goodbyes then some (s.1.act pt c.disconnectDone [], s.2) else none
  | .construct => some ({ s.1 with index := s.1.index + 1 }, s.2)
  | .allocate => some ({ s.1 with serverConvIndex := s.1.serverConvIndex + 1 }, s.2)

/-- The step system of a listener. -/
def system : StepSystem (KcpListener κ ε × Bool) (Action ε) := ⟨step lib⟩

/-- A listener that was just started. -/
def started (index : ℕ) (serverConvIndex : UInt32) (cells : Memory UInt8) :
    KcpListener κ ε × Bool :=
  ({ connections := fun _ ↦ none, serverConvIndex := serverConvIndex, index := index,
     recvBuffer := cells }, true)

/-- The endpoint has a ready connection whose `kcp` object was created with the id `conv`. -/
def Ready (l : KcpListener κ ε) (pt : ε) (conv : UInt32) : Prop :=
  ∃ c, l.connections pt = some c ∧ c.connStatus = .kcpReady ∧ c.kcp.map lib.conv = some conv

/-- No registered connection is as `init` left it: `listen` follows at once. -/
def Awake (s : KcpListener κ ε × Bool) : Prop :=
  ∀ pt c, s.1.connections pt = some c → c.connStatus ≠ .idle

variable {lib}

theorem Awake.act {s : KcpListener κ ε × Bool} (h : Awake s) {pt : ε} {c : KcpConnection κ}
    (hc : c.connStatus ≠ .idle) (sent : List (List UInt8)) (armed : Bool) :
    Awake (s.1.act pt c sent, armed) := by
  intro pt' c' hc'
  by_cases hpt : pt' = pt
  · subst hpt
    simp only [KcpListener.act, Function.update_self] at hc'
    exact Option.some.inj hc' ▸ hc
  · simp only [KcpListener.act, Function.update_of_ne hpt] at hc'
    exact h pt' c' hc'

omit [DecidableEq ε] in
theorem Awake.contact {s : KcpListener κ ε × Bool} (h : Awake s) (pt : ε) :
    (s.1.contact pt).connStatus ≠ .idle := by
  rw [KcpListener.contact]
  split
  · exact h pt _ ‹_›
  · exact (by decide : ConnectionStatus.opened ≠ .idle)

theorem ne_of_or {x y z w : ConnectionStatus} (h : x = y ∨ x = z) (hy : y ≠ w) (hz : z ≠ w) :
    x ≠ w := by
  rcases h with rfl | rfl
  · exact hy
  · exact hz

/-- A datagram leaves its connection in a status that `receive` sets, or as it was. -/
theorem Awake.handle {s : KcpListener κ ε × Bool} (h : Awake s) (pt : ε) (d : List UInt8)
    (armed : Bool) : Awake ((loop lib).handle s.1 pt d, armed) := by
  intro pt' c' hc'
  by_cases hpt : pt' = pt
  · subst hpt
    simp only [loop, KcpListener.handle, Function.update_self, Option.some.injEq] at hc'
    subst hc'
    exact ne_of_or (KcpConnection.connStatus_receive lib (s.1.contact pt') _ _ _) (by decide)
      (h.contact pt')
  · simp only [loop, KcpListener.handle, Function.update_of_ne hpt] at hc'
    exact h pt' c' hc'

theorem Awake.step {s t : KcpListener κ ε × Bool} (h : Awake s) {a : Action ε}
    (hstep : (system lib).step s a = some t) : Awake t := by
  simp only [system, KcpListener.step] at hstep
  cases a with
  | arrive pt d =>
    obtain rfl := Option.some.inj hstep
    rw [ReceiveLoop.arrive]
    split_ifs
    · exact h
    · exact h.handle pt d true
    · exact h
  | heartbeat pt elapseTime =>
    obtain ⟨c, hc, hsome⟩ := Option.bind_eq_some_iff.mp hstep
    split_ifs at hsome
    obtain rfl := Option.some.inj hsome
    exact h.act (ne_of_or (c.connStatus_heartbeatFires elapseTime) (by decide) (h pt c hc)) _ _
  | tick pt now =>
    obtain ⟨c, hc, hsome⟩ := Option.bind_eq_some_iff.mp hstep
    split_ifs at hsome
    obtain rfl := Option.some.inj hsome
    exact h.act (by rw [KcpConnection.connStatus_tick]; exact h pt c hc) _ _
  | send pt data =>
    obtain ⟨c, hc, rfl⟩ := Option.map_eq_some_iff.mp hstep
    exact h.act (by rw [KcpConnection.connStatus_send]; exact h pt c hc) _ _
  | disconnect pt =>
    obtain ⟨c, hc, rfl⟩ := Option.map_eq_some_iff.mp hstep
    exact h.act (ne_of_or c.connStatus_disconnect (by decide) (h pt c hc)) _ _
  | disconnectDone pt =>
    obtain ⟨c, hc, hsome⟩ := Option.bind_eq_some_iff.mp hstep
    split_ifs at hsome
    obtain rfl := Option.some.inj hsome
    refine h.act ?_ _ _
    rw [KcpConnection.disconnectDone, KcpConnection.connStatus_release]
    decide
  | construct => exact Option.some.inj hstep ▸ h
  | allocate => exact Option.some.inj hstep ▸ h

omit [DecidableEq ε] in
theorem headSeen_bytes (l : KcpListener κ ε) (head : KcpMsgHead) :
    l.headSeen head.bytes = head := by
  have hlen : head.bytes.length = 8 := by simp [KcpMsgHead.bytes]
  rw [headSeen, ← hlen, Memory.read_write, KcpMsgHead.ofBytes_bytes]

/-- **A request is answered unless the endpoint's connection was closed or has another id.** In
every state that a listener reaches, by any datagrams from any endpoints, time-outs, calls and
completions: a handshake request with an id leaves the endpoint with a ready connection whose `kcp`
object has this id exactly when the connection registered for the endpoint, if there is one, was
neither disconnected nor released and is not ready with another id. -/
theorem ready_iff_not_closed (lib : Ikcp κ) {index : ℕ} {serverConvIndex : UInt32}
    {cells : Memory UInt8} {as : List (Action ε)} {l : KcpListener κ ε}
    (hrun : (system lib).run (started index serverConvIndex cells) as = some (l, true))
    (pt : ε) {head : KcpMsgHead} (htype : head.type = some .shakehandRequest)
    (hconv : head.conv ≠ 0) {t : KcpListener κ ε × Bool}
    (hstep : (system lib).step (l, true) (.arrive pt head.bytes) = some t) :
    Ready lib t.1 pt head.conv
      ↔ ∀ c ∈ l.connections pt, c.connStatus ≠ .closing ∧ c.connStatus ≠ .closed
        ∧ (c.connStatus = .kcpReady → c.cid = 0 ∨ c.cid = head.conv) := by
  have hawake : Awake (l, true) :=
    StepSystem.invariant_of_run (C := fun _ _ ↦ True) (by simp [Awake, started])
      (fun s a t hs hst _ ↦ hs.step hst) (StepSystem.along_of_forall (fun _ _ ↦ trivial) _ _) hrun
  have hne : head.bytes ≠ [] := by
    intro h
    have : head.bytes.length = 8 := by simp [KcpMsgHead.bytes]
    rw [h] at this
    exact absurd this (by decide)
  obtain rfl := Option.some.inj hstep
  have hreq := KcpConnection.receive_request lib l.serverConvIndex htype hconv
    ((l.recvBuffer.write 0 head.bytes).read 0 head.bytes.length) (hawake.contact pt)
  have hready : Ready lib ((loop lib).arrive (l, true) (pt, head.bytes)).1 pt head.conv
      ↔ ((l.contact pt).receive lib l.serverConvIndex head
          ((l.recvBuffer.write 0 head.bytes).read 0 head.bytes.length)).conn.connStatus = .kcpReady
        ∧ ((l.contact pt).receive lib l.serverConvIndex head
          ((l.recvBuffer.write 0 head.bytes).read 0 head.bytes.length)).conn.kcp.map lib.conv
          = some head.conv := by
    rw [ReceiveLoop.arrive_of_ne_nil rfl hne]
    simp [Ready, loop, handle, headSeen_bytes]
  rw [hready, hreq, contact]
  cases hc : l.connections pt with
  | none => simp [KcpConnection.listening]
  | some c => simp

/-- Two endpoints; the second one's connection times out, and the first asks again. -/
theorem ready_other_endpoint :
    ∃ l t, (system IkcpIo.silent.lib).run (started 1024 0x1000 fun _ ↦ 0)
        [.arrive 0 (KcpMsgHead.control .shakehandRequest 7).bytes,
          .arrive 1 (KcpMsgHead.control .shakehandRequest 9).bytes, .heartbeat 1 3001]
          = some (l, true)
      ∧ (system IkcpIo.silent.lib).step (l, true)
        (.arrive (0 : ℕ) (KcpMsgHead.control .shakehandRequest 7).bytes) = some t
      ∧ Ready IkcpIo.silent.lib t.1 0 7 := by
  have hiff := @ready_iff_not_closed _ _ _ IkcpIo.silent.lib 1024 0x1000 (fun _ ↦ 0)
    [.arrive (0 : ℕ) (KcpMsgHead.control .shakehandRequest 7).bytes,
      .arrive 1 (KcpMsgHead.control .shakehandRequest 9).bytes, .heartbeat 1 3001] _ rfl 0
    (.control .shakehandRequest 7) rfl (by decide) _ rfl
  refine ⟨_, _, rfl, rfl, hiff.mpr fun c hc ↦ ?_⟩
  obtain rfl := Option.some.inj hc
  decide

/-- The connection of the endpoint times out, and the endpoint asks again: its connection stays
closed. -/
theorem released_connection_blocks :
    ∃ l t, (system IkcpIo.silent.lib).run (started 1024 0x1000 fun _ ↦ 0)
        [.arrive 0 (KcpMsgHead.control .shakehandRequest 7).bytes, .heartbeat 0 3001]
          = some (l, true)
      ∧ (system IkcpIo.silent.lib).step (l, true)
        (.arrive (0 : ℕ) (KcpMsgHead.control .shakehandRequest 7).bytes) = some t
      ∧ ¬Ready IkcpIo.silent.lib t.1 0 7 := by
  refine ⟨_, _, rfl, rfl, ?_⟩
  rintro ⟨c, hc, hready, -⟩
  obtain rfl := Option.some.inj hc
  exact absurd hready (by decide)

end KcpListener

end Knet.Kcp
