import Knet.Kcp.Datagrams
import Knet.Kcp.Drain
import Knet.Kcp.Stale

/-!
# A session of two connections

`KcpConnection` with the objects of `ikcp.c` in it. Two connections that have become ready with the
same id exchange messages over a network that loses, repeats and reorders datagrams, and nobody
connects anew or disconnects. What the connections and their objects do is then what two objects do
by themselves (`Session`), so that **`handle_package` gets a beginning of what the other end has
sent** (`packages_prefix_sent`).

It gets nothing more behind a message that is empty or longer than the buffer of `handle_receive`,
though `ikcp_send` takes such messages: they stay at the head of the receive queue.
-/

namespace Knet.Kcp

/-! ## The objects of `ikcp.c` -/

/-- An object that carries what `ikcp.c` relies on: messages are kept apart, and what is to be sent
are segments of the conversation. -/
structure KcpObject where
  cb : Ikcpcb
  stream : cb.stream = 0
  holds : ∃ n, cb.Holds n

/-- A call that leaves the settings alone. -/
def KcpObject.next (k : KcpObject) (cb : Ikcpcb) (hsettings : cb.settings = k.cb.settings)
    (hholds : ∀ n, k.cb.Holds n → ∃ n', cb.Holds n') : KcpObject where
  cb := cb
  stream := (congrArg Settings.stream hsettings).trans k.stream
  holds := k.holds.elim hholds

/-- `ikcp.c` as a connection uses it, with the settings that `init_kcp` makes. -/
def ikcp : Ikcp KcpObject where
  create id :=
    { cb := (Setting.nodelay 1 10 1 1).apply (Ikcpcb.create id)
      stream := rfl
      holds := ⟨0, (Ikcpcb.holds_create id 0).apply _⟩ }
  conv k := k.cb.conv
  send k data :=
    (k.next (k.cb.send data).1 (Ikcpcb.settings_send _ _) fun n h ↦
      ⟨max n k.cb.mss.toNat, (h.mono (Nat.le_max_left _ _)).send k.stream
        ((Nat.min_le_left _ _).trans (Nat.le_max_right _ _))⟩, (k.cb.send data).2)
  input k data :=
    (k.next (k.cb.input data).1 (Ikcpcb.settings_input _ _) fun n h ↦ ⟨n, h.input data⟩,
      (k.cb.input data).2)
  update k now :=
    (k.next (k.cb.update now).1 (Ikcpcb.settings_update _ _) fun n h ↦ ⟨n, (h.update now).1⟩,
      (k.cb.update now).2)
  peeksize k := k.cb.peeksize
  recv k len :=
    (k.next (k.cb.recv len).1 (Ikcpcb.settings_recv _ _) fun n h ↦ ⟨n, h.recv len⟩,
      (k.cb.recv len).2)
  conv_create _ := rfl
  conv_send k data := Ikcpcb.conv_send k.cb data
  conv_input k data := Ikcpcb.conv_input k.cb data
  conv_update k now := congrArg Settings.conv (Ikcpcb.settings_update k.cb now)
  conv_recv k len := Ikcpcb.conv_recv k.cb len
  type_update k now d hd := k.holds.elim fun _ h ↦ type_of_isDatagram ((h.update now).2.1 d hd)

/-! ## Runs of one end -/

namespace Peers

/-- The end `e` can become `q` by what it does itself. -/
def Leads (p : Peers) (e : Side) (q : Peer) : Prop :=
  ∃ as, system.run p as = some (Function.update p e q)

variable {p : Peers} {e : Side} {q q' : Peer}

theorem leads_self (p : Peers) (e : Side) : p.Leads e (p e) :=
  ⟨[], by rw [Function.update_eq_self]; rfl⟩

theorem Leads.step {a : Action} (h : p.Leads e q) (hside : a.side = e)
    (hact : act q (p e.other) a = some q') : p.Leads e q' := by
  obtain ⟨as, hrun⟩ := h
  subst hside
  have hstep : system.step (Function.update p a.side q) a
      = some (Function.update p a.side q') := by
    refine step_eq_some.mpr ⟨q', ?_, Function.update_idem _ _ _⟩
    rwa [Function.update_self, Function.update_of_ne a.side.other_ne]
  exact ⟨as ++ [a], StepSystem.run_append hrun (StepSystem.run_cons_eq_some.mpr ⟨_, hstep, rfl⟩)⟩

end Peers

/-! ## A connection and its object -/

/-- `handle_receive` can hand on this message. -/
def Fits (msg : List UInt8) : Prop := 0 < msg.length ∧ msg.length ≤ kMaxMessageLength

instance decidableFits (msg : List UInt8) : Decidable (Fits msg) :=
  inferInstanceAs (Decidable (_ ∧ _))

/-- A ready connection whose object is that of the end. -/
structure KcpConnection.Runs (c : KcpConnection KcpObject) (q : Peer) : Prop where
  ready : c.connStatus = .kcpReady
  kcp : ∃ k, c.kcp = some k ∧ k.cb = q.kcp
  packages : packages c.log = q.received
  fits : ∀ msg ∈ q.received, Fits msg

namespace KcpConnection

variable {c : KcpConnection KcpObject} {p : Peers} {e : Side} {q : Peer}

theorem fits_of_recv {k : Ikcpcb} {msg : List UInt8} (hpeek : 0 < k.peeksize)
    (hrecv : (k.recv kMaxMessageLength).2 = some msg) : Fits msg := by
  obtain ⟨-, hlen⟩ := Ikcpcb.length_message hpeek
  rw [Ikcpcb.recv] at hrecv
  split_ifs at hrecv with hstop
  obtain rfl := Option.some.inj hrecv
  rw [not_or, not_or] at hstop
  rw [Fits]
  omega

/-- **The loop of `handle_receive`** takes messages out of the queue, one after the other. -/
theorem drain_leads {dataLen fuel recvLen : ℕ} {k : KcpObject} (hready : c.connStatus = .kcpReady)
    (hlead : p.Leads e q) (hk : k.cb = q.kcp) (hlog : packages c.log = q.received)
    (hfits : ∀ msg ∈ q.received, Fits msg) :
    ∃ q', p.Leads e q' ∧ (drain ikcp dataLen fuel recvLen c k).Runs q'
      ∧ q'.out = q.out ∧ q'.sent = q.sent := by
  induction fuel generalizing recvLen c k q with
  | zero => exact ⟨q, hlead, ⟨hready, ⟨k, rfl, hk⟩, hlog, hfits⟩, rfl, rfl⟩
  | succ fuel ih =>
    rw [drain]
    split_ifs with hgo
    · have hstep : p.Leads e (q.recv kMaxMessageLength) :=
        @Peers.Leads.step p e q _ (.recv e kMaxMessageLength) hlead rfl rfl
      obtain ⟨k', hk'⟩ : ∃ k', k' = (ikcp.recv k kMaxMessageLength).1 := ⟨_, rfl⟩
      have hcb : k'.cb = (q.recv kMaxMessageLength).kcp := by
        rw [hk', Peer.kcp_recv, ← hk]
        rfl
      cases hmsg : (ikcp.recv k kMaxMessageLength).2 with
      | none =>
        have hsplit : ikcp.recv k kMaxMessageLength = (k', none) := Prod.ext hk'.symm hmsg
        have hnone : (q.kcp.recv kMaxMessageLength).2 = none := by rw [← hk]; exact hmsg
        obtain ⟨hreceived, hsent⟩ := Peer.recv_none hnone
        rw [hsplit]
        exact ⟨_, hstep, ⟨hready, ⟨k', rfl, hcb⟩, hlog.trans hreceived.symm, hreceived ▸ hfits⟩,
          Peer.out_recv _ _, hsent⟩
      | some msg =>
        have hsplit : ikcp.recv k kMaxMessageLength = (k', some msg) := Prod.ext hk'.symm hmsg
        have hsome : (q.kcp.recv kMaxMessageLength).2 = some msg := by rw [← hk]; exact hmsg
        obtain ⟨hreceived, hsent⟩ := Peer.recv_some hsome
        have hfit : Fits msg := fits_of_recv hgo.2 hmsg
        have hfits' : ∀ msg' ∈ (q.recv kMaxMessageLength).received, Fits msg' := by
          rw [hreceived]
          exact List.forall_mem_append.mpr ⟨hfits, List.forall_mem_singleton.mpr hfit⟩
        rw [hsplit]
        dsimp only
        rw [if_pos hfit.1]
        have hready' : ({ c with log := c.log ++ [.package msg, .recv] } : KcpConnection
            KcpObject).connStatus = .kcpReady := hready
        obtain ⟨q', hlead', hruns, hout, hsent'⟩ := ih hready' hstep hcb
          (by rw [hreceived, ← hlog]; simp [packages]) hfits'
        exact ⟨q', hlead', hruns, hout.trans (Peer.out_recv _ _), hsent'.trans hsent⟩
    · exact ⟨q, hlead, ⟨hready, ⟨k, rfl, hk⟩, hlog, hfits⟩, rfl, rfl⟩

theorem receive_leads {d : List UInt8} (hruns : c.Runs (p e)) (index : UInt32)
    (hd : d ∈ (p e.other).out ∧ (KcpMsgHead.ofBytes d).type = none
      ∨ (KcpMsgHead.ofBytes d).type = some .heartbeat) :
    ∃ q, p.Leads e q ∧ (c.receive ikcp index (.ofBytes d) d).conn.Runs q
      ∧ (c.receive ikcp index (.ofBytes d) d).sent = []
      ∧ q.out = (p e).out ∧ q.sent = (p e).sent := by
  obtain ⟨hready, ⟨k, hkcp, hk⟩, hlog, hfits⟩ := hruns
  rcases hd with ⟨hmem, htype⟩ | htype
  · have hcheck : c.checkControlMessage ikcp index (.ofBytes d) = ⟨c, index, [], false⟩ := by
      rw [checkControlMessage, hready, htype]
    obtain ⟨i, hi⟩ := List.mem_iff_getElem?.mp hmem
    have hinput : p.Leads e { p e with kcp := ((p e).kcp.input d).1 } := by
      refine @Peers.Leads.step p e (p e) _ (.input e i) (Peers.leads_self p e) rfl ?_
      exact Option.map_eq_some_iff.mpr ⟨d, hi, rfl⟩
    have hcb : (ikcp.input k d).1.cb = ((p e).kcp.input d).1 := by
      rw [← hk]
      rfl
    have hlog' : packages (c.log ++ [Entry.receive d]) = (p e).received := by
      rw [← hlog]
      simp [packages]
    rw [receive, hcheck]
    dsimp only
    rw [if_neg (by decide), handleReceive, hkcp]
    dsimp only
    split_ifs
    · exact ⟨_, hinput, ⟨hready, ⟨_, rfl, hcb⟩, hlog', hfits⟩, rfl, rfl, rfl⟩
    · have hready' : ({ c with kcp := some k, log := c.log ++ [.receive d] } : KcpConnection
          KcpObject).connStatus = .kcpReady := hready
      obtain ⟨q, hlead, hruns, hout, hsent⟩ :=
        @drain_leads _ p e _ d.length d.length 0 _ hready' hinput hcb hlog' hfits
      exact ⟨q, hlead, hruns, rfl, hout, hsent⟩
  · have hcheck : c.checkControlMessage ikcp index (.ofBytes d) = ⟨c, index, [], true⟩ := by
      rw [checkControlMessage, hready, htype]
    rw [receive, hcheck]
    exact ⟨p e, Peers.leads_self p e, ⟨hready, ⟨k, hkcp, hk⟩, hlog, hfits⟩, rfl, rfl, rfl⟩

theorem send_leads {data : List UInt8} (hruns : c.Runs (p e)) (hlen : data.length < 2 ^ 31) :
    p.Leads e ((p e).send data) ∧ (c.send ikcp data).1.Runs ((p e).send data)
      ∧ (c.send ikcp data).2.1 = []
      ∧ ((p e).send data).sent
        = if (c.send ikcp data).2.2 < 0 then (p e).sent else (p e).sent ++ [data] := by
  obtain ⟨hready, ⟨k, hkcp, hk⟩, hlog, hfits⟩ := hruns
  have hstep : p.Leads e ((p e).send data) :=
    @Peers.Leads.step p e (p e) _ (.send e data) (Peers.leads_self p e) rfl (if_pos hlen)
  have hreceived : ((p e).send data).received = (p e).received := by
    rw [Peer.send]
    dsimp only
    split_ifs <;> rfl
  have hresult : (c.send ikcp data).2.2 = ((p e).kcp.send data).2 := by
    rw [KcpConnection.send, if_pos hready, hkcp, ← hk]
    rfl
  have hsent : ((p e).send data).sent
      = if ((p e).kcp.send data).2 < 0 then (p e).sent else (p e).sent ++ [data] := by
    rw [Peer.send]
    dsimp only
    split_ifs <;> rfl
  rw [hresult]
  refine ⟨hstep, ?_, ?_, hsent⟩
  · rw [KcpConnection.send, if_pos hready, hkcp]
    refine ⟨hready, ⟨_, rfl, ?_⟩, hlog.trans hreceived.symm, hreceived ▸ hfits⟩
    rw [Peer.kcp_send, ← hk]
    rfl
  · rw [KcpConnection.send, if_pos hready, hkcp]

theorem tick_leads (hruns : c.Runs (p e)) (now : UInt32) :
    p.Leads e ((p e).emit ((p e).kcp.update now))
      ∧ (c.tick ikcp now).1.Runs ((p e).emit ((p e).kcp.update now))
      ∧ ∀ d ∈ (c.tick ikcp now).2, d ∈ ((p e).emit ((p e).kcp.update now)).out
        ∧ (KcpMsgHead.ofBytes d).type = none := by
  obtain ⟨hready, ⟨k, hkcp, hk⟩, hlog, hfits⟩ := hruns
  have hupdate : (ikcp.update k now).1.cb = ((p e).kcp.update now).1
      ∧ (ikcp.update k now).2 = ((p e).kcp.update now).2 := by
    rw [← hk]
    exact ⟨rfl, rfl⟩
  refine ⟨@Peers.Leads.step p e (p e) _ (.update e now) (Peers.leads_self p e) rfl rfl, ?_, ?_⟩
  · rw [KcpConnection.tick, hkcp]
    dsimp only
    rw [if_pos hready]
    exact ⟨hready, ⟨_, rfl, hupdate.1⟩, hlog, hfits⟩
  · intro d hd
    rw [KcpConnection.tick, hkcp] at hd
    dsimp only at hd
    rw [if_pos hready] at hd
    split_ifs at hd
    · refine ⟨List.mem_append_right _ (hupdate.2 ▸ hd), ikcp.type_update k now d hd⟩
    · exact absurd hd List.not_mem_nil

end KcpConnection

/-! ## Both connections -/

namespace World

/-- Something that happens while nobody connects anew or disconnects. The arguments are `int`s. -/
def Action.InSession : Action → Prop
  | .deliver _ _ _ | .lose _ _ | .duplicate _ _ | .tick _ _ | .allocate => True
  | .send _ data => data.length < 2 ^ 31
  | .heartbeat _ elapseTime => elapseTime ≤ 3000
  | _ => False

instance decidableInSession : ∀ a : Action, Decidable a.InSession
  | .deliver _ _ _ | .lose _ _ | .duplicate _ _ | .tick _ _ | .allocate => isTrue trivial
  | .send _ data => inferInstanceAs (Decidable (data.length < 2 ^ 31))
  | .heartbeat _ elapseTime => inferInstanceAs (Decidable (elapseTime ≤ 3000))
  | .disconnect _ | .disconnectDone _ | .restartClient _ _ | .restartServer => isFalse id

/-- The messages that `send` has taken, at either end. -/
def noteSent (w : World KcpObject) (a : Action) (sent : Side → List (List UInt8)) :
    Side → List (List UInt8) :=
  match a with
  | .send e data =>
    match w.conn e with
    | some c =>
      if (c.send ikcp data).2.2 < 0 then sent else Function.update sent e (sent e ++ [data])
    | none => sent
  | _ => sent

/-- Both ends have just become ready with the same id, and no message of the handshake is left. -/
structure Begun (conv : UInt32) (w : World KcpObject) : Prop where
  ready : ∀ e, ∃ c, w.conn e = some c ∧ c.connStatus = .kcpReady
    ∧ c.kcp = some (ikcp.create conv) ∧ packages c.log = []
  net : ∀ e, ∀ d ∈ w.net e, (KcpMsgHead.ofBytes d).type = some .heartbeat

/-- **The two connections do what two objects do by themselves.** -/
structure Session (w : World KcpObject) (p : Peers) : Prop where
  runs : ∀ e, ∃ c, w.conn e = some c ∧ c.Runs (p e)
  net : ∀ e, ∀ d ∈ w.net e, d ∈ (p e.other).out ∧ (KcpMsgHead.ofBytes d).type = none
    ∨ (KcpMsgHead.ofBytes d).type = some .heartbeat

variable {w t : World KcpObject} {p : Peers}

theorem Session.update_net (h : Session w p) {e : Side} {ds : List (List UInt8)}
    (hds : ∀ d ∈ ds, d ∈ w.net e) (index : UInt32) :
    Session ⟨w.conn, Function.update w.net e ds, index⟩ p where
  runs := h.runs
  net e' d hd := by
    refine h.net e' d ?_
    dsimp only at hd
    rcases e.eq_or_eq_other e' with rfl | rfl
    · rw [Function.update_self] at hd
      exact hds d hd
    · rwa [Function.update_of_ne e.other_ne] at hd

theorem Session.act (h : Session w p) {e : Side} {c : KcpConnection KcpObject} {q : Peer}
    {sent : List (List UInt8)} (hruns : c.Runs q) (hout : ∀ d ∈ (p e).out, d ∈ q.out)
    (hsent : ∀ d ∈ sent, d ∈ q.out ∧ (KcpMsgHead.ofBytes d).type = none
      ∨ (KcpMsgHead.ofBytes d).type = some .heartbeat) :
    Session (w.act e c sent) (Function.update p e q) where
  runs e' := by
    rcases e.eq_or_eq_other e' with rfl | rfl
    · rw [Function.update_self]
      exact ⟨c, conn_act_self, hruns⟩
    · rw [Function.update_of_ne e.other_ne, conn_act_other]
      exact h.runs e.other
  net e' d hd := by
    rcases e.eq_or_eq_other e' with rfl | rfl
    · rw [Function.update_of_ne e'.other_ne]
      rcases mem_net_act_cases hd with hd | ⟨heq, -⟩
      · exact h.net e' d hd
      · exact absurd heq.symm e'.other_ne
    · rw [Side.other_other, Function.update_self]
      rcases mem_net_act hd with hd | hd
      · refine (h.net e.other d hd).imp_left fun ⟨hmem, htype⟩ ↦ ?_
        rw [Side.other_other] at hmem
        exact ⟨hout d hmem, htype⟩
      · exact hsent d hd

/-- **A step of the connections is a run of the objects.** -/
theorem Session.step (h : Session w p) {a : Action} (ha : a.InSession)
    (hstep : (system ikcp).step w a = some t) :
    ∃ e q, p.Leads e q ∧ Session t (Function.update p e q)
      ∧ ∀ e', (Function.update p e q e').sent = noteSent w a (fun e ↦ (p e).sent) e' := by
  have hstay : Session t p → (∀ e', (p e').sent = noteSent w a (fun e ↦ (p e).sent) e') →
      ∃ e q, p.Leads e q ∧ Session t (Function.update p e q)
        ∧ ∀ e', (Function.update p e q e').sent = noteSent w a (fun e ↦ (p e).sent) e' := by
    intro ht hnote
    refine ⟨.client, p .client, Peers.leads_self p .client, ?_, ?_⟩
    · rwa [Function.update_eq_self]
    · rwa [Function.update_eq_self]
  have hmove : ∀ {e q}, p.Leads e q → Session t (Function.update p e q) →
      q.sent = noteSent w a (fun e ↦ (p e).sent) e →
      (p e.other).sent = noteSent w a (fun e ↦ (p e).sent) e.other →
      ∃ e q, p.Leads e q ∧ Session t (Function.update p e q)
        ∧ ∀ e', (Function.update p e q e').sent = noteSent w a (fun e ↦ (p e).sent) e' := by
    intro e q hlead ht hself hother
    refine ⟨e, q, hlead, ht, fun e' ↦ ?_⟩
    rcases e.eq_or_eq_other e' with rfl | rfl
    · rwa [Function.update_self]
    · rwa [Function.update_of_ne e.other_ne]
  cases a with
  | deliver e i cid =>
    obtain ⟨d, c, hd, hc, rfl⟩ := step_deliver hstep
    obtain ⟨c', hc', hruns⟩ := h.runs e
    obtain rfl : c' = c := by
      simp only [receiver, hc'] at hc
      split_ifs at hc
      exact Option.some.inj hc
    obtain ⟨q, hlead, hq, hsent, hout, hsame⟩ :=
      KcpConnection.receive_leads hruns w.serverConvIndex (h.net e d (List.mem_of_getElem? hd))
    refine hmove hlead ?_ hsame rfl
    refine (h.update_net (fun x hx ↦ List.mem_of_mem_eraseIdx hx) _).act hq (fun x hx ↦ ?_) ?_
    · rwa [hout]
    · rw [hsent]
      exact fun x hx ↦ absurd hx List.not_mem_nil
  | lose e i =>
    obtain rfl := Option.some.inj hstep
    exact hstay (h.update_net (fun x hx ↦ List.mem_of_mem_eraseIdx hx) _) fun _ ↦ rfl
  | duplicate e i =>
    obtain ⟨d, hd, rfl⟩ := Option.map_eq_some_iff.mp hstep
    exact hstay (h.update_net (fun x hx ↦ mem_of_mem_repeated hd hx) _) fun _ ↦ rfl
  | send e data =>
    obtain ⟨c, hc, hruns⟩ := h.runs e
    obtain ⟨hlead, hq, hnone, hsent⟩ := KcpConnection.send_leads hruns ha
    obtain rfl : w.act e (c.send ikcp data).1 (c.send ikcp data).2.1 = t := by
      have hmap : (w.conn e).map (fun c ↦ w.act e (c.send ikcp data).1 (c.send ikcp data).2.1)
          = some t := hstep
      rw [hc] at hmap
      exact Option.some.inj hmap
    have hnote : noteSent w (.send e data) (fun e ↦ (p e).sent)
        = if (c.send ikcp data).2.2 < 0 then fun e ↦ (p e).sent
          else Function.update (fun e ↦ (p e).sent) e ((p e).sent ++ [data]) := by
      rw [noteSent, hc]
    refine hmove hlead (h.act hq (fun x hx ↦ ?_) ?_) ?_ ?_
    · rwa [Peer.out_send]
    · rw [hnone]
      exact fun x hx ↦ absurd hx List.not_mem_nil
    · rw [hsent, hnote]
      split_ifs
      · rfl
      · rw [Function.update_self]
    · rw [hnote]
      split_ifs
      · rfl
      · rw [Function.update_of_ne e.other_ne]
  | tick e now =>
    obtain ⟨c, hc, hruns⟩ := h.runs e
    obtain ⟨hlead, hq, hout⟩ := KcpConnection.tick_leads hruns now
    have hbind : (w.conn e).bind (fun c ↦
        if c.kcpTimer then some (w.act e (c.tick ikcp now).1 (c.tick ikcp now).2) else none)
          = some t := hstep
    rw [hc, Option.bind_some] at hbind
    obtain ⟨-, ht⟩ := Option.ite_none_right_eq_some.mp hbind
    obtain rfl := Option.some.inj ht
    exact hmove hlead (h.act hq (fun x hx ↦ List.mem_append_left _ hx) fun d hd ↦ .inl (hout d hd))
      rfl rfl
  | heartbeat e elapseTime =>
    obtain ⟨c, hc, hruns⟩ := h.runs e
    have hbind : (w.conn e).bind (fun c ↦
        if c.heartbeatTimer then
          some (w.act e (c.heartbeatFires elapseTime).1 (c.heartbeatFires elapseTime).2)
        else none) = some t := hstep
    rw [hc, Option.bind_some] at hbind
    obtain ⟨-, ht⟩ := Option.ite_none_right_eq_some.mp hbind
    have hfires : c.heartbeatFires elapseTime = (c, c.sendHeartbeat) :=
      if_neg (Int.not_lt.mpr ha)
    rw [hfires] at ht
    obtain rfl := Option.some.inj ht
    refine hmove (Peers.leads_self p e) (h.act hruns (fun x hx ↦ hx) fun d hd ↦ .inr ?_) rfl rfl
    rw [KcpConnection.sendHeartbeat, KcpConnection.sendControl] at hd
    split_ifs at hd
    · rw [List.mem_singleton.mp hd, KcpMsgHead.ofBytes_bytes, KcpMsgHead.type_control]
    · exact absurd hd List.not_mem_nil
  | allocate =>
    obtain rfl := Option.some.inj hstep
    exact hstay ⟨h.runs, h.net⟩ fun _ ↦ rfl
  | disconnect e => exact absurd ha id
  | disconnectDone e => exact absurd ha id
  | restartClient cid reconn => exact absurd ha id
  | restartServer => exact absurd ha id

/-- **A run of the connections is a run of the objects.** -/
theorem Session.of_run {conv : UInt32} {as : List Action} {sent : Side → List (List UInt8)}
    (h : Session w p) (hreach : ∃ as, Peers.system.run (Peers.start conv) as = some p)
    (has : ∀ a ∈ as, a.InSession)
    (hrun : ((system ikcp).observe noteSent).run (w, fun e ↦ (p e).sent) as = some (t, sent)) :
    ∃ p' as', Peers.system.run (Peers.start conv) as' = some p' ∧ Session t p'
      ∧ ∀ e, (p' e).sent = sent e := by
  induction as generalizing w p with
  | nil =>
    obtain ⟨rfl, rfl⟩ := Prod.mk.inj (Option.some.inj hrun)
    obtain ⟨as, hreach⟩ := hreach
    exact ⟨p, as, hreach, h, fun _ ↦ rfl⟩
  | cons a as ih =>
    obtain ⟨ha, has⟩ := List.forall_mem_cons.mp has
    obtain ⟨⟨u, mid⟩, hstep, hrest⟩ := StepSystem.run_cons_eq_some.mp hrun
    obtain ⟨hu, rfl⟩ := StepSystem.observe_step_eq_some.mp hstep
    obtain ⟨e, q, ⟨bs, hlead⟩, hsession, hsent⟩ := h.step ha hu
    obtain ⟨cs, hcs⟩ := hreach
    refine ih hsession ⟨cs ++ bs, StepSystem.run_append hcs hlead⟩ has ?_
    have hnote : noteSent w a (fun e ↦ (p e).sent) = fun e' ↦ (Function.update p e q e').sent :=
      (funext hsent).symm
    rwa [hnote] at hrest

theorem prefix_takeWhile {α : Type*} {P : α → Bool} {xs ys : List α} (h : xs <+: ys)
    (hall : ∀ x ∈ xs, P x) : xs <+: ys.takeWhile P := by
  obtain ⟨zs, rfl⟩ := h
  rw [List.takeWhile_append_of_pos hall]
  exact List.prefix_append _ _

/-- **What `handle_package` gets is a beginning of what the other end has sent**: in order, each
message once and unchanged, whatever the network loses, repeats and reorders. It ends before the
first message that does not fit. -/
theorem packages_prefix_sent {conv : UInt32} {as : List Action} {sent : Side → List (List UInt8)}
    (hbegun : Begun conv w) (has : ∀ a ∈ as, a.InSession)
    (hrun : ((system ikcp).observe noteSent).run (w, fun _ ↦ []) as = some (t, sent))
    (hsmall : ∀ e, ((sent e).map (·.length + 1)).sum < 2 ^ 31) (e : Side)
    {c : KcpConnection KcpObject} (hc : t.conn e = some c) :
    packages c.log <+: (sent e.other).takeWhile fun msg ↦ Fits msg := by
  obtain ⟨p₀, hstart, hcreate⟩ : ∃ p₀, Peers.system.run (Peers.start conv)
      [.set .client (.nodelay 1 10 1 1), .set .server (.nodelay 1 10 1 1)] = some p₀
        ∧ ∀ e, p₀ e = { kcp := (ikcp.create conv).cb } :=
    ⟨_, rfl, fun e ↦ by cases e <;> rfl⟩
  have hsession : Session w p₀ := by
    refine ⟨fun e ↦ ?_, fun e d hd ↦ .inr (hbegun.net e d hd)⟩
    obtain ⟨c, hc, hready, hkcp, hlog⟩ := hbegun.ready e
    refine ⟨c, hc, hready, ⟨_, hkcp, ?_⟩, ?_, ?_⟩
    · rw [hcreate]
    · rw [hcreate, hlog]
    · rw [hcreate]
      exact fun msg hmsg ↦ absurd hmsg List.not_mem_nil
  have hnothing : (fun _ ↦ []) = fun e ↦ (p₀ e).sent := by
    funext e
    rw [hcreate]
  rw [hnothing] at hrun
  obtain ⟨p, bs, hreach, ht, hsent⟩ := hsession.of_run ⟨_, hstart⟩ has hrun
  have hfew : p.Small := fun e ↦
    Nat.lt_of_le_of_lt (Peers.length_cut hreach e) (by rw [hsent]; exact hsmall e)
  obtain ⟨c', hc', hruns⟩ := ht.runs e
  obtain rfl : c = c' := Option.some.inj (hc.symm.trans hc')
  rw [hruns.packages, ← hsent]
  exact prefix_takeWhile ((Peers.inv_of_run hreach hfew).talk e).received
    fun msg hmsg ↦ decide_eq_true (hruns.fits msg hmsg)

/-- Both ends are ready. -/
def established : World KcpObject :=
  ((system ikcp).run (start 7 true) [.deliver .server 0 1025, .deliver .client 0 0]).getD
    ⟨fun _ ↦ none, fun _ ↦ [], 0⟩

theorem begun_established : Begun 7 established where
  ready e := by
    cases e
    · exact ⟨_, rfl, rfl, rfl, rfl⟩
    · exact ⟨_, rfl, rfl, rfl, rfl⟩
  net e := by
    cases e
    · exact fun d hd ↦ absurd hd List.not_mem_nil
    · exact fun d hd ↦ absurd hd List.not_mem_nil

/-- All three messages arrive, and the empty one is in the way of the last one. -/
def hello : List Action :=
  [.send .client [1, 2, 3], .send .client [], .send .client [4], .tick .client 0,
    .deliver .server 0 0]

theorem packages_prefix_sent_hello :
    ∃ t sent c, ((system ikcp).observe noteSent).run (established, fun _ ↦ []) hello
        = some (t, sent) ∧ t.conn .server = some c ∧ packages c.log = [[1, 2, 3]]
      ∧ packages c.log <+: (sent .client).takeWhile fun msg ↦ Fits msg :=
  ⟨_, _, _, rfl, rfl, rfl, @packages_prefix_sent _ _ 7 hello _ begun_established
    (by decide) rfl (fun e ↦ by cases e <;> decide) .server _ rfl⟩

end World

end Knet.Kcp
