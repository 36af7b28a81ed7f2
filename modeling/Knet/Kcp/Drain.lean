import Knet.Kcp.Life

/-!
# What a datagram leaves in the receive queue

`handle_receive` passes a datagram to `ikcp_input` and then takes complete messages out of the
receive queue. Three things end the loop early: the messages taken add up to the size of the
datagram, the next message is empty, or it is longer than the buffer of 4096 bytes; and after an
acknowledgement the loop is not entered at all. A message that is left behind waits for the next
datagram, and one that is empty or too long stays at the front for good.

The receive queue is a list of complete messages (`ReceiveQueue`). A datagram completes any number
of them, since it may fill the gap before segments that came out of order.
-/

namespace Knet.Kcp

/-- The receive queue of a `kcp` object as a queue of complete messages. An `Ikcpcb` has none in
every state: a peer may count the pieces of a message (`frg`) as it likes, so that a segment of the
queue need not belong to a message whose last piece ever comes. -/
structure ReceiveQueue {κ : Type*} (lib : Ikcp κ) where
  queue : κ → List (List UInt8)
  /-- The messages that a datagram completes. -/
  completed : κ → List UInt8 → List (List UInt8)
  create : ∀ id, queue (lib.create id) = []
  send : ∀ k data, queue (lib.send k data).1 = queue k
  update : ∀ k now, queue (lib.update k now).1 = queue k
  input : ∀ k data, queue (lib.input k data).1 = queue k ++ completed k data
  peeksize_nil : ∀ {k}, queue k = [] → lib.peeksize k < 0
  peeksize_cons : ∀ {k msg q}, queue k = msg :: q → lib.peeksize k = msg.length
  recv_of_le : ∀ {k msg q} {len : ℕ}, queue k = msg :: q → msg.length ≤ len →
    (lib.recv k len).2 = some msg ∧ queue (lib.recv k len).1 = q
  recv_of_lt : ∀ {k msg q} {len : ℕ}, queue k = msg :: q → len < msg.length →
    lib.recv k len = (k, none)

/-- The messages passed to `handle_package`. -/
def packages (log : List Entry) : List (List UInt8) :=
  log.filterMap fun x ↦ match x with
    | .package msg => some msg
    | _ => none

/-! ## The loop -/

/-- A message that the loop takes. -/
def Takes (dataLen recvLen : ℕ) (msg : List UInt8) : Prop :=
  recvLen < dataLen ∧ 0 < msg.length ∧ msg.length ≤ kMaxMessageLength

instance decidableTakes (dataLen recvLen : ℕ) (msg : List UInt8) :
    Decidable (Takes dataLen recvLen msg) := inferInstanceAs (Decidable (_ ∧ _))

/-- What the loop takes out of a queue, and what it leaves. -/
def drained (dataLen : ℕ) : ℕ → List (List UInt8) → List (List UInt8) × List (List UInt8)
  | _, [] => ([], [])
  | recvLen, msg :: q =>
    if Takes dataLen recvLen msg then
      (msg :: (drained dataLen (recvLen + msg.length) q).1,
        (drained dataLen (recvLen + msg.length) q).2)
    else ([], msg :: q)

theorem drained_append (dataLen recvLen : ℕ) (q : List (List UInt8)) :
    (drained dataLen recvLen q).1 ++ (drained dataLen recvLen q).2 = q := by
  induction q generalizing recvLen with
  | nil => rfl
  | cons msg q ih =>
    rw [drained]
    split_ifs
    · exact congrArg (msg :: ·) (ih _)
    · rfl

/-- The bytes of a list of messages. -/
def size (q : List (List UInt8)) : ℕ := q.flatten.length

/-- **Nothing is left** exactly when every message has a size that the loop takes and those before
the last do not use up the size of the datagram. -/
theorem drained_left_eq_nil_iff (dataLen recvLen : ℕ) (q : List (List UInt8)) :
    (drained dataLen recvLen q).2 = [] ↔
      q = [] ∨ (∀ msg ∈ q, 0 < msg.length ∧ msg.length ≤ kMaxMessageLength)
        ∧ recvLen + size q.dropLast < dataLen := by
  induction q generalizing recvLen with
  | nil => simp [drained]
  | cons msg q ih =>
    rw [drained, List.forall_mem_cons]
    by_cases htakes : Takes dataLen recvLen msg
    · rw [if_pos htakes]
      dsimp only
      rw [ih]
      cases q with
      | nil =>
        exact ⟨fun _ ↦ .inr ⟨⟨htakes.2, by simp⟩, htakes.1⟩, fun _ ↦ .inl rfl⟩
      | cons msg' q =>
        have hsum : size (msg :: msg' :: q).dropLast
            = msg.length + size (msg' :: q).dropLast := by
          rw [List.dropLast_cons_cons, size, List.flatten_cons, List.length_append, size]
        rw [hsum, ← Nat.add_assoc]
        simp only [List.cons_ne_nil, false_or]
        exact ⟨fun h ↦ ⟨⟨htakes.2, h.1⟩, h.2⟩, fun h ↦ ⟨h.1.2, h.2⟩⟩
    · rw [if_neg htakes]
      refine ⟨fun h ↦ absurd h (by simp), ?_⟩
      rintro (h | ⟨⟨hmsg, -⟩, hsum⟩)
      · exact absurd h (by simp)
      · exact absurd ⟨by omega, hmsg⟩ htakes

namespace KcpConnection

variable {κ : Type*} {lib : Ikcp κ} (Q : ReceiveQueue lib)

/-- **What the loop does**: it delivers what it takes, in order, and leaves the rest. -/
theorem drain_spec {dataLen fuel recvLen : ℕ} (hfuel : dataLen ≤ recvLen + fuel)
    (c : KcpConnection κ) (k : κ) :
    packages (drain lib dataLen fuel recvLen c k).log
        = packages c.log ++ (drained dataLen recvLen (Q.queue k)).1
      ∧ ∃ k', (drain lib dataLen fuel recvLen c k).kcp = some k'
        ∧ Q.queue k' = (drained dataLen recvLen (Q.queue k)).2 := by
  induction fuel generalizing recvLen c k with
  | zero =>
    have hnone : drained dataLen recvLen (Q.queue k) = ([], Q.queue k) := by
      cases Q.queue k with
      | nil => rfl
      | cons msg q => exact if_neg fun h ↦ absurd h.1 (by omega)
    rw [drain, hnone]
    exact ⟨(List.append_nil _).symm, k, rfl, rfl⟩
  | succ fuel ih =>
    cases hq : Q.queue k with
    | nil =>
      have hpeek := Q.peeksize_nil hq
      rw [drain, if_neg fun h ↦ absurd h.2 (by omega)]
      exact ⟨(List.append_nil _).symm, k, rfl, hq⟩
    | cons msg q =>
      have hpeek := Q.peeksize_cons hq
      by_cases htakes : Takes dataLen recvLen msg
      · obtain ⟨hlt, hpos, hle⟩ := htakes
        obtain ⟨hmsg, hrest⟩ := Q.recv_of_le hq hle
        have hrecv : lib.recv k kMaxMessageLength
            = ((lib.recv k kMaxMessageLength).1, some msg) := Prod.ext rfl hmsg
        have hlen : recvLen + (lib.peeksize k).toNat = recvLen + msg.length := by
          rw [hpeek, Int.toNat_natCast]
        rw [drain, if_pos ⟨hlt, by omega⟩, hrecv]
        dsimp only
        rw [if_pos hpos, drained, if_pos ⟨hlt, hpos, hle⟩, hlen]
        have hfuel' : dataLen ≤ recvLen + msg.length + fuel := by omega
        obtain ⟨hlog, k', hk', hleft⟩ := ih hfuel'
          { c with log := c.log ++ [.package msg, .recv] } (lib.recv k kMaxMessageLength).1
        rw [hrest] at hlog hleft
        refine ⟨hlog.trans ?_, k', hk', hleft⟩
        simp [packages]
      · have hstop : drain lib dataLen (fuel + 1) recvLen c k = { c with kcp := some k } := by
          rw [drain]
          split_ifs with hgo
          · have hlong : kMaxMessageLength < msg.length := by
              by_contra hle
              exact htakes ⟨hgo.1, by omega, by omega⟩
            rw [Q.recv_of_lt hq hlong]
          · rfl
        rw [hstop, drained, if_neg htakes]
        exact ⟨(List.append_nil _).symm, k, rfl, hq⟩

/-- The receive queue is empty, or there is none. -/
def QueueEmpty (c : KcpConnection κ) : Prop := ∀ k ∈ c.kcp, Q.queue k = []

/-- The handler has delivered nothing and left an empty receive queue empty. -/
structure Silent (c c' : KcpConnection κ) : Prop where
  queue : c.QueueEmpty Q → c'.QueueEmpty Q
  packages : packages c'.log = packages c.log

variable {Q}

theorem silent_of_eq {c c' : KcpConnection κ} (hk : c'.kcp = c.kcp)
    (hlog : packages c'.log = packages c.log) : Silent Q c c' :=
  ⟨fun h ↦ by rwa [QueueEmpty, hk], hlog⟩

theorem silent_of_queue {c c' : KcpConnection κ} {k : κ} (hk : c'.kcp = some k)
    (hq : c.QueueEmpty Q → Q.queue k = []) (hlog : packages c'.log = packages c.log) :
    Silent Q c c' := by
  refine ⟨fun h k' hk' ↦ ?_, hlog⟩
  obtain rfl := Option.some.inj (hk.symm.trans hk')
  exact hq h

theorem silent_initKcp {c c' : KcpConnection κ} (hlog : packages c'.log = packages c.log) :
    Silent Q c (c'.initKcp lib) :=
  silent_of_queue rfl (fun _ ↦ Q.create _) hlog

theorem packages_connected (c : KcpConnection κ) :
    packages c.connected.log = packages c.log := by
  simp [connected, packages]

theorem packages_disconnected (c : KcpConnection κ) :
    packages c.disconnected.log = packages c.log := by
  simp [disconnected, packages]

theorem silent_connected {c c' : KcpConnection κ} (h : Silent Q c c') : Silent Q c c'.connected :=
  ⟨h.queue, (packages_connected c').trans h.packages⟩

theorem silent_release {c c' : KcpConnection κ} (h : Silent Q c c') : Silent Q c c'.release := by
  rw [release]
  split_ifs
  · exact h
  · exact ⟨fun _ ↦ by simp [QueueEmpty], h.packages⟩

theorem checkControlMessage_silent (c : KcpConnection κ) (serverConvIndex : UInt32)
    (head : KcpMsgHead) : Silent Q c (c.checkControlMessage lib serverConvIndex head).conn := by
  rw [checkControlMessage]
  split
  · split
    · obtain ⟨index, heq⟩ := requestOnOpen_eq lib c serverConvIndex head.conv
      rw [heq]
      dsimp only
      split_ifs
      · exact silent_connected (silent_initKcp rfl)
      · exact silent_of_eq rfl rfl
    · dsimp only
      split_ifs <;> exact silent_connected (silent_initKcp rfl)
    · exact silent_of_eq rfl rfl
    · exact silent_of_eq rfl rfl
  · split
    · dsimp only
      split_ifs <;> exact silent_initKcp rfl
    · dsimp only
      split_ifs <;> exact silent_initKcp rfl
    · exact silent_of_eq rfl rfl
    · exact silent_of_eq rfl rfl
  · split <;> exact silent_of_eq rfl rfl

theorem conn_of_not_control {c : KcpConnection κ} {serverConvIndex : UInt32} {head : KcpMsgHead}
    (h : (c.checkControlMessage lib serverConvIndex head).control = false) :
    (c.checkControlMessage lib serverConvIndex head).conn = c := by
  rw [checkControlMessage] at h ⊢
  split at h
  · split at h
    · obtain ⟨index, heq⟩ := requestOnOpen_eq lib c serverConvIndex head.conv
      rw [heq] at h
      dsimp only at h
      split_ifs at h
    all_goals exact absurd h (by simp)
  · split at h
    · exact absurd h (by simp)
    · exact absurd h (by simp)
    · exact absurd h (by simp)
    · rfl
  · split <;> rfl

theorem send_silent (c : KcpConnection κ) (data : List UInt8) :
    Silent Q c (c.send lib data).1 := by
  rw [send]
  split_ifs
  · split
    · rename_i k hk
      exact silent_of_queue rfl (fun h ↦ (Q.send k data).trans (h k hk)) rfl
    · exact silent_of_eq rfl rfl
  · exact silent_of_eq rfl rfl

theorem tick_silent (c : KcpConnection κ) (now : UInt32) : Silent Q c (c.tick lib now).1 := by
  rw [tick]
  split
  · rename_i k hk
    by_cases hready : c.connStatus = .kcpReady
    · rw [if_pos hready]
      exact silent_of_queue rfl (fun h ↦ (Q.update k now).trans (h k hk)) rfl
    · rw [if_neg hready]
      exact silent_of_eq rfl rfl
  · exact silent_of_eq rfl rfl

theorem heartbeatFires_silent (c : KcpConnection κ) (elapseTime : ℤ) :
    Silent Q c (c.heartbeatFires elapseTime).1 := by
  have hdisc : Silent Q c c.disconnected := silent_of_eq rfl (packages_disconnected c)
  rw [heartbeatFires]
  split_ifs
  · exact silent_release hdisc
  · exact hdisc
  · exact silent_of_eq rfl rfl

theorem disconnect_silent (c : KcpConnection κ) : Silent Q c c.disconnect.1 := by
  rw [disconnect]
  split_ifs <;> exact silent_of_eq rfl rfl

variable (Q)

/-- The messages that a datagram completes can all be taken at once: the datagram does not end with
an acknowledgement, every message has between 1 and 4096 bytes, and the messages before the last
have fewer bytes than the datagram. -/
def Takeable (k : κ) (data : List UInt8) : Prop :=
  Q.completed k data = [] ∨ (lib.input k data).2 ≠ ikcpCmdAck
    ∧ (∀ msg ∈ Q.completed k data, 0 < msg.length ∧ msg.length ≤ kMaxMessageLength)
    ∧ size (Q.completed k data).dropLast < data.length

variable {Q}

/-- **One datagram at an empty receive queue.** What was delivered and what is left are together
what the datagram completed, and nothing is left exactly when everything could be taken at once. -/
theorem handleReceive_spec {c : KcpConnection κ} {k : κ} (hk : c.kcp = some k)
    (hq : Q.queue k = []) (data : List UInt8) :
    ∃ taken left k', packages (c.handleReceive lib data).log = packages c.log ++ taken
      ∧ (c.handleReceive lib data).kcp = some k' ∧ Q.queue k' = left
      ∧ taken ++ left = Q.completed k data ∧ (left = [] ↔ Takeable Q k data) := by
  have hinput : Q.queue (lib.input k data).1 = Q.completed k data := by
    rw [Q.input, hq, List.nil_append]
  have hlog : packages (c.log ++ [Entry.receive data]) = packages c.log := by
    simp [packages]
  rw [handleReceive]
  simp only [hk]
  by_cases hack : (lib.input k data).2 = ikcpCmdAck
  · rw [if_pos hack]
    refine ⟨[], Q.completed k data, _, ?_, rfl, hinput, rfl, ?_⟩
    · rw [List.append_nil]
      exact hlog
    · exact ⟨.inl, fun h ↦ h.resolve_right fun h' ↦ h'.1 hack⟩
  · rw [if_neg hack]
    have hfuel : data.length ≤ 0 + data.length := by omega
    obtain ⟨hpack, k', hk', hleft⟩ := drain_spec Q hfuel
      { c with kcp := some k, log := c.log ++ [.receive data] } (lib.input k data).1
    rw [hinput] at hpack hleft
    refine ⟨_, _, k', hpack.trans (by rw [hlog]), hk', hleft, drained_append _ _ _, ?_⟩
    rw [drained_left_eq_nil_iff, Takeable, Nat.zero_add]
    exact or_congr_right (iff_and_self.mpr fun _ ↦ hack)

end KcpConnection

/-! ## Runs -/

/-- A connection, and all the messages that datagrams have completed. -/
structure Inbox (κ : Type*) where
  conn : KcpConnection κ
  completed : List (List UInt8) := []

namespace Inbox

variable {κ : Type*} {lib : Ikcp κ} (Q : ReceiveQueue lib)

/-- The messages that an action completes. -/
def completes (c : KcpConnection κ) : KcpConnection.Action → List (List UInt8)
  | .receive serverConvIndex head data =>
    if (c.checkControlMessage lib serverConvIndex head).control then []
    else c.kcp.elim [] fun k ↦ Q.completed k data
  | _ => []

/-- One step. -/
def step (s : Inbox κ) (a : KcpConnection.Action) : Option (Inbox κ) :=
  ((KcpConnection.system lib).step s.conn a).map fun c ↦
    ⟨c, s.completed ++ completes Q s.conn a⟩

/-- The step system of a connection and its messages. -/
def system : StepSystem (Inbox κ) KcpConnection.Action := ⟨step Q⟩

/-- The receive queue holds no message, and every message was passed to `handle_package` once, in
order. -/
def Delivered (s : Inbox κ) : Prop :=
  s.conn.QueueEmpty Q ∧ packages s.conn.log = s.completed

/-- A datagram that reaches `handle_receive` completes messages that can be taken at once. -/
def Whole (s : Inbox κ) : KcpConnection.Action → Prop
  | .receive serverConvIndex head data =>
    (s.conn.checkControlMessage lib serverConvIndex head).control = false →
      ∀ k ∈ s.conn.kcp, KcpConnection.Takeable Q k data
  | _ => True

variable {Q} {s t : Inbox κ}

theorem Delivered.silent (h : Delivered Q s) {c : KcpConnection κ}
    (hc : KcpConnection.Silent Q s.conn c) : Delivered Q ⟨c, s.completed ++ []⟩ := by
  refine ⟨hc.queue h.1, hc.packages.trans (h.2.trans ?_)⟩
  rw [List.append_nil]

theorem Delivered.receive (h : Delivered Q s) (serverConvIndex : UInt32) (head : KcpMsgHead)
    (data : List UInt8) :
    Delivered Q ⟨(s.conn.receive lib serverConvIndex head data).conn,
        s.completed ++ completes Q s.conn (.receive serverConvIndex head data)⟩
      ↔ Whole Q s (.receive serverConvIndex head data) := by
  rw [KcpConnection.receive, completes, Whole]
  cases hcontrol : (s.conn.checkControlMessage lib serverConvIndex head).control with
  | true =>
    simp only [if_true]
    exact ⟨fun _ h ↦ absurd h (by decide),
      fun _ ↦ h.silent (KcpConnection.checkControlMessage_silent _ _ _)⟩
  | false =>
    simp only [Bool.false_eq_true, if_false, forall_const,
      KcpConnection.conn_of_not_control hcontrol]
    cases hk : s.conn.kcp with
    | none =>
      have hrest : s.conn.handleReceive lib data
          = { s.conn with log := s.conn.log ++ [.receive data] } := by
        rw [KcpConnection.handleReceive]
        simp only [hk]
      rw [hrest]
      refine ⟨fun _ ↦ by simp, fun _ ↦ h.silent (KcpConnection.silent_of_eq rfl ?_)⟩
      simp [packages]
    | some k =>
      obtain ⟨taken, left, k', hlog, hk', hleft, happ, hiff⟩ :=
        KcpConnection.handleReceive_spec hk (h.1 k hk) data
      simp only [Option.mem_some_iff, forall_eq', Option.elim_some]
      rw [← hiff, ← happ, Delivered, KcpConnection.QueueEmpty, hk', hlog, h.2]
      simp only [Option.mem_some_iff, forall_eq', hleft, List.append_cancel_left_eq,
        List.self_eq_append_right, and_self]

theorem delivered_step (h : Delivered Q s) {a : KcpConnection.Action}
    (hstep : (system Q).step s a = some t) : Delivered Q t ↔ Whole Q s a := by
  obtain ⟨c, hc, rfl⟩ := Option.map_eq_some_iff.mp hstep
  have hquiet : ∀ {d : KcpConnection κ}, KcpConnection.Silent Q s.conn d →
      (Delivered Q ⟨d, s.completed ++ []⟩ ↔ True) := fun hd ↦ iff_true_intro (h.silent hd)
  cases a with
  | receive serverConvIndex head data =>
    obtain ⟨-, hsome⟩ := Option.ite_none_right_eq_some.mp hc
    obtain rfl := Option.some.inj hsome
    exact h.receive serverConvIndex head data
  | send data =>
    obtain rfl := Option.some.inj hc
    exact hquiet (KcpConnection.send_silent _ data)
  | tick now =>
    obtain ⟨-, hsome⟩ := Option.ite_none_right_eq_some.mp hc
    obtain rfl := Option.some.inj hsome
    exact hquiet (KcpConnection.tick_silent _ now)
  | heartbeat elapseTime =>
    obtain ⟨-, hsome⟩ := Option.ite_none_right_eq_some.mp hc
    obtain rfl := Option.some.inj hsome
    exact hquiet (KcpConnection.heartbeatFires_silent _ elapseTime)
  | disconnect =>
    obtain rfl := Option.some.inj hc
    exact hquiet (KcpConnection.disconnect_silent _)
  | disconnectDone =>
    obtain ⟨-, hsome⟩ := Option.ite_none_right_eq_some.mp hc
    obtain rfl := Option.some.inj hsome
    exact hquiet (KcpConnection.silent_release
      (KcpConnection.silent_of_eq rfl (KcpConnection.packages_disconnected _)))

/-- **Reception leaves nothing behind exactly when every datagram completes messages that can be
taken at once.** In every run of a connection, with any datagrams, and any number of messages
completed by each: the receive queue is empty after every step and every message was passed to
`handle_package` exactly once, in order and with its bytes, exactly when the messages that each
datagram completes have between 1 and 4096 bytes, those before the last are together shorter than
the datagram, and the datagram does not end with an acknowledgement. -/
theorem delivered_iff_whole (Q : ReceiveQueue lib) (e : Side) (cid : UInt32) (reconn : Bool)
    (as : List KcpConnection.Action) :
    (system Q).Throughout (Delivered Q) ⟨.begun e cid reconn, []⟩ as
      ↔ (system Q).Along (Whole Q) ⟨.begun e cid reconn, []⟩ as := by
  refine StepSystem.throughout_iff_along ?_ ?_
  · cases e <;> exact ⟨by simp [KcpConnection.QueueEmpty, KcpConnection.begun,
      KcpConnection.connecting, KcpConnection.listening], rfl⟩
  · intro s a t h hstep
    exact delivered_step h hstep

/-- An object that has its id and a receive queue, to which a datagram adds what `script` says. -/
def queueIkcp (script : List UInt8 → List (List UInt8)) : Ikcp (UInt32 × List (List UInt8)) where
  create id := (id, [])
  conv k := k.1
  send k _ := (k, 0)
  input k data := ((k.1, k.2 ++ script data), 81)
  update k _ := (k, [])
  peeksize k := match k.2 with
    | [] => -1
    | msg :: _ => msg.length
  recv k len := match k.2 with
    | [] => (k, none)
    | msg :: q => if msg.length ≤ len then ((k.1, q), some msg) else (k, none)
  conv_create _ := rfl
  conv_send _ _ := rfl
  conv_input _ _ := rfl
  conv_update _ _ := rfl
  conv_recv k len := by
    split
    · rfl
    · split_ifs <;> rfl
  type_update _ _ _ hd := absurd hd List.not_mem_nil

/-- Its receive queue. -/
def queueIkcpQueue (script : List UInt8 → List (List UInt8)) : ReceiveQueue (queueIkcp script) where
  queue k := k.2
  completed _ data := script data
  create _ := rfl
  send _ _ := rfl
  update _ _ := rfl
  input _ _ := rfl
  peeksize_nil {k} h := by
    simp only [queueIkcp, h]
    decide
  peeksize_cons {k msg q} h := by simp only [queueIkcp, h]
  recv_of_le {k msg q len} h hle := by simp [queueIkcp, h, hle]
  recv_of_lt {k msg q len} h hlt := by
    simp only [queueIkcp, h]
    exact if_neg (by omega)

/-- The first segment of a conversation, with one byte of data. -/
def firstSegment : List UInt8 :=
  (KcpMsgHead.mk 7 81 0 128).bytes ++ List.replicate 12 0 ++ [1, 0, 0, 0, 9]

/-- The second and the third message came before the first: the datagram that brings the first
completes all three, and the third is left behind. -/
theorem third_message_left :
    let script := fun d ↦ if d = firstSegment then [[9], List.replicate 24 8, [7]] else []
    ∃ s, (system (queueIkcpQueue script)).run ⟨.begun .client 7 true, []⟩
        [.receive 0x1000 (.control .shakehandResponse 7)
            (KcpMsgHead.control .shakehandResponse 7).bytes,
          .receive 0x1000 (.ofBytes firstSegment) firstSegment] = some s
      ∧ (∀ msg ∈ s.completed, ((IkcpIo.silent.lib.create 7).send msg).2 = 0)
      ∧ packages s.conn.log = [[9], List.replicate 24 8]
      ∧ ¬Delivered (queueIkcpQueue script) s := by
  refine ⟨_, rfl, by decide, by decide, fun h ↦ ?_⟩
  exact absurd h.2 (by decide)

end Inbox

end Knet.Kcp
