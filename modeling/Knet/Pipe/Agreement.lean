import Knet.Pipe.World

/-!
# Agreement of a client and the server

When a session of a client is ready, its peer on the server should be the session with the same id,
and the server should find it under this id. This fails for every session that got its id from the
server, which makes a session without an id and registers it nowhere. It fails, too, when the server
hears late of the end of an old connection, after it has bound the session to a new one: the flag of
the session is cleared.

The invariant behind the other direction follows one connection from the handshake on. All
handshakes on it carry the id that the client's connection holds; the server answers once, when it
binds its session, and the session stays bound as long as the server's end is open.
-/

namespace Knet.Pipe

open Knet.Tcp

/-- An answer to a handshake, with an id. -/
def PipeMsg.IsReply (msg : PipeMsg) : Prop :=
  msg.type = PipeMsgType.shakeHand.code ∧ msg.body ≠ []

instance (msg : PipeMsg) : Decidable msg.IsReply := inferInstanceAs (Decidable (_ ∧ _))

namespace World

variable {ι : Type*} [DecidableEq ι]

/-- **Agreement.** Whenever a session of a client is ready over a connection that is open at both
ends, the server's end is bound to a session with the same id, which the server finds under this id.
-/
def Agreed (w : World ι) : Prop :=
  ∀ i s c peer, ((w.client i).factory.sessions s).readyFlag = true →
    ((w.client i).factory.sessions s).connection = some c →
    ((w.client i).factory.connections c).phase = .opened → w.link i c = some peer →
    (w.server.factory.connections peer).phase = .opened →
    ∃ t, w.server.factory.Bound t peer
      ∧ (w.server.factory.sessions t).pipeId = ((w.client i).factory.sessions s).pipeId
      ∧ w.server.factory.bindPipes ((w.client i).factory.sessions s).pipeId = some t

/-- The server answers no handshake without an id, registers no id again while its session is ready,
and delivers `EVT_DISCONNECT` on a connection only as long as its session, if ready, uses it. -/
def Orderly (w : World ι) : Action ι → Prop
  | .server (.attachPipe pipe _) =>
    ∀ t ∈ w.server.factory.bindPipes (w.server.factory.sessions pipe).pipeId,
      t = pipe ∨ w.server.factory.isReady t = false
  | .server (.disconnect peer) =>
    ∀ t ∈ (w.server.factory.connections peer).session,
      (w.server.factory.sessions t).readyFlag = true →
        (w.server.factory.sessions t).connection = some peer
  | .deliverServer peer =>
    ∀ msg ∈ (w.toServer peer).head?, msg.type = PipeMsgType.shakeHand.code → msg.body ≠ []
  | _ => True

instance (w : World ι) : ∀ a, Decidable (w.Orderly a)
  | .server a => match a with
    | .attachPipe pipe _ => inferInstanceAs (Decidable (∀ t ∈ w.server.factory.bindPipes
        (w.server.factory.sessions pipe).pipeId, t = pipe ∨ w.server.factory.isReady t = false))
    | .disconnect peer => inferInstanceAs (Decidable (∀ t ∈
        (w.server.factory.connections peer).session, (w.server.factory.sessions t).readyFlag = true →
          (w.server.factory.sessions t).connection = some peer))
    | .construct _ => isTrue trivial
    | .attach _ => isTrue trivial
    | .startClient _ _ => isTrue trivial
    | .accept _ => isTrue trivial
    | .connected _ => isTrue trivial
    | .leave _ => isTrue trivial
    | .data _ _ => isTrue trivial
    | .heartbeat _ => isTrue trivial
    | .generate => isTrue trivial
  | .deliverServer peer => inferInstanceAs (Decidable (∀ msg ∈ (w.toServer peer).head?,
      msg.type = PipeMsgType.shakeHand.code → msg.body ≠ []))
  | .client _ _ => isTrue trivial
  | .connect _ _ _ => isTrue trivial
  | .deliverClient _ _ => isTrue trivial
  | .sendServer _ _ _ => isTrue trivial
  | .sendClient _ _ _ _ => isTrue trivial

/-! ## What a message does -/

theorem mem_msend {f : PipeFactory} {c cid : ℕ} {m msg : PipeMsg}
    (h : .send c m ∈ f.msend cid msg) : c = cid ∧ m = msg := by
  rw [PipeFactory.msend] at h
  split_ifs at h
  · simpa using h
  · simp at h

/-- What other messages than handshakes are answered with: heartbeats, and the challenge of a
server. -/
theorem send_of_ne {f : PipeFactory} {c cid : ℕ} {m msg : PipeMsg}
    (htype : msg.type ≠ PipeMsgType.shakeHand.code)
    (h : .send c m ∈ (f.handleMessage cid msg).2) :
    c = cid ∧ (m = .heartBeat []
      ∨ m = .shakeHand [] ∧ (f.connections cid).passive = true) := by
  rw [PipeFactory.handleMessage, if_neg htype] at h
  by_cases hheart : msg.type = PipeMsgType.heartBeat.code
  · rw [if_pos hheart] at h
    split_ifs at h
    · simp at h
    · obtain ⟨hc, hm⟩ := mem_msend h
      exact ⟨hc, .inl hm⟩
  · rw [if_neg hheart] at h
    cases hsession : (f.connections cid).session with
    | some session =>
      rw [hsession] at h
      simp at h
    | none =>
      rw [hsession] at h
      dsimp only at h
      split_ifs at h with hpassive
      · obtain ⟨hc, hm⟩ := mem_msend h
        exact ⟨hc, .inr ⟨hm, hpassive⟩⟩
      · simp at h

/-- A message to the server, unless it is a handshake without an id, binds the session under its id
and is answered, or changes nothing and is not answered. -/
theorem server_cases {f : PipeFactory} {peer : ℕ} {msg : PipeMsg}
    (hpassive : (f.connections peer).passive = true)
    (hid : msg.type = PipeMsgType.shakeHand.code → msg.body ≠ []) :
    ((f.handleMessage peer msg).1 = f
        ∧ ∀ c m, .send c m ∈ (f.handleMessage peer msg).2 → ¬m.IsReply)
      ∨ ∃ t, msg.type = PipeMsgType.shakeHand.code ∧ f.bindPipes msg.body = some t
        ∧ f.isReady t = false ∧ (f.handleMessage peer msg).1 = f.bind t peer
        ∧ ∀ c, sent (f.handleMessage peer msg).2 c
          = if c = peer ∧ f.isConnected peer = true then [.shakeHand msg.body] else [] := by
  by_cases htype : msg.type = PipeMsgType.shakeHand.code
  · rw [PipeFactory.handleMessage_server htype hpassive]
    rcases f.processServerHandshake_cases peer msg.body with ⟨pipe, -, -, -, heq⟩
      | ⟨pipe, -, hfound, hready, heq⟩ | ⟨-, -, heq⟩ | ⟨session, hbody, -⟩ | ⟨hbody, -⟩
    · exact .inl (by simp [heq])
    · refine .inr ⟨pipe, htype, hfound, hready, by rw [heq], fun c ↦ ?_⟩
      have hsame : (f.bind pipe peer).isConnected peer = f.isConnected peer :=
        PipeFactory.isConnected_of_sameSockets (f.sameSockets_bind pipe peer) peer
      rw [heq, PipeFactory.msend, hsame]
      cases f.isConnected peer with
      | false => simp [sent]
      | true => by_cases hc : c = peer <;> simp [sent, hc, Ne.symm]
    · exact .inl (by simp [heq])
    · exact absurd hbody (hid htype)
    · exact absurd hbody (hid htype)
  · refine .inl ⟨PipeFactory.handleMessage_of_ne htype, fun c m hm ↦ ?_⟩
    obtain ⟨-, rfl | ⟨rfl, -⟩⟩ := send_of_ne htype hm
    · simp [PipeMsg.IsReply, PipeMsg.heartBeat, PipeMsgType.code]
    · simp [PipeMsg.IsReply, PipeMsg.shakeHand]

/-- A message to a client on an open connection repeats its handshake, or is no handshake; it binds
the session under its id, or the one that waits; or it changes nothing. -/
theorem client_cases {f : PipeFactory} {cid : ℕ} (msg : PipeMsg)
    (hactive : (f.connections cid).passive = false) :
    ((f.handleMessage cid msg).1 = f
        ∧ ∀ c m, .send c m ∈ (f.handleMessage cid msg).2 → c = cid
          ∧ (m.type = PipeMsgType.shakeHand.code → m.body = (f.connections cid).pipeid))
      ∨ ∃ s, msg.IsReply ∧ (∀ c m, .send c m ∉ (f.handleMessage cid msg).2)
        ∧ (f.bindPipes msg.body = some s
            ∧ (f.handleMessage cid msg).1 = (f.bind s cid).updatePipeid s msg.body
          ∨ f.unbindPipes cid = some s) := by
  by_cases htype : msg.type = PipeMsgType.shakeHand.code
  · rw [PipeFactory.handleMessage_client htype hactive]
    rcases f.processClientHandshake_cases cid msg.body with ⟨session, -, -, -, heq⟩
      | ⟨session, hbody, hfound, -, heq⟩ | ⟨session, hbody, -, hunbind, heq⟩ | ⟨-, -, -, heq⟩
      | ⟨-, heq⟩
    · exact .inl (by simp [heq])
    · exact .inr ⟨session, ⟨htype, hbody⟩, by simp [heq], .inl ⟨hfound, by rw [heq]⟩⟩
    · exact .inr ⟨session, ⟨htype, hbody⟩, by simp [heq], .inr hunbind⟩
    · exact .inl (by simp [heq])
    · refine .inl ⟨by rw [heq], fun c m hm ↦ ?_⟩
      rw [heq] at hm
      obtain ⟨hc, rfl⟩ := mem_msend hm
      exact ⟨hc, fun _ ↦ rfl⟩
  · refine .inl ⟨PipeFactory.handleMessage_of_ne htype, fun c m hm ↦ ?_⟩
    obtain ⟨hc, rfl | ⟨-, hpassive⟩⟩ := send_of_ne htype hm
    · exact ⟨hc, by simp [PipeMsg.heartBeat, PipeMsgType.code]⟩
    · exact absurd (hpassive.symm.trans hactive) (by decide)

/-! ## The invariant -/

/-- A ready session of the client uses the connection. -/
def Held (k : KPipe) (c : ℕ) : Prop :=
  ∃ s, (k.factory.sessions s).readyFlag = true ∧ (k.factory.sessions s).connection = some c

/-- What holds of a client by itself. -/
structure ClientInv (k : KPipe) : Prop where
  registered : k.factory.Registered k.attached
  active : ∀ c, (k.factory.connections c).phase ≠ .absent →
    (k.factory.connections c).passive = false
  /-- A ready session and its connection belong together. -/
  own : ∀ s c, (k.factory.sessions s).readyFlag = true →
    (k.factory.sessions s).connection = some c →
      k.Receiving c ∧ (k.factory.connections c).session = some s
        ∧ (k.factory.sessions s).pipeId = (k.factory.connections c).pipeid
  /-- A connection that a session waits for has no id. -/
  waiting : ∀ c s, k.factory.unbindPipes c = some s → (k.factory.connections c).pipeid = []

/-- What holds of the server by itself. -/
structure ServerInv (k : KPipe) : Prop where
  registered : k.factory.Registered k.attached
  passive : ∀ c, (k.factory.connections c).phase ≠ .absent →
    (k.factory.connections c).passive = true

/-- What holds of a connection between a client `k` and the end `peer` of the server `l`, with the
messages in flight. -/
structure Linked (l k : KPipe) (c peer : ℕ) (toServer toClient : List PipeMsg) : Prop where
  presentServer : (l.factory.connections peer).phase ≠ .absent
  presentClient : (k.factory.connections c).phase ≠ .absent
  requests : ∀ msg ∈ toServer, msg.type = PipeMsgType.shakeHand.code →
    msg.body = (k.factory.connections c).pipeid
  replies : ∀ msg ∈ toClient, msg.IsReply → msg.body = (k.factory.connections c).pipeid
  /-- There is one answer at most, -/
  single : (toClient.filter fun msg ↦ decide msg.IsReply).length ≤ 1
  /-- which is in flight before a session is bound on the client, -/
  fresh : ∀ msg ∈ toClient, msg.IsReply → ¬Held k c
  /-- after one was bound on the server, -/
  settled : (l.factory.connections peer).phase = .opened →
    ((∃ msg ∈ toClient, msg.IsReply) ∨ Held k c) → (l.factory.connections peer).session ≠ none
  /-- and that is the one under the id of the connection. -/
  bound : (l.factory.connections peer).phase = .opened →
    ∀ t, (l.factory.connections peer).session = some t →
      (l.factory.sessions t).readyFlag = true ∧ (l.factory.sessions t).connection = some peer
        ∧ l.factory.bindPipes (k.factory.connections c).pipeid = some t

/-- The invariant. -/
structure Inv (w : World ι) : Prop where
  server : ServerInv w.server
  client : ∀ i, ClientInv (w.client i)
  linked : ∀ i c peer, w.link i c = some peer →
    Linked w.server (w.client i) c peer (w.toServer peer) (w.toClient peer)
  unique : ∀ i j c d peer, w.link i c = some peer → w.link j d = some peer → i = j ∧ c = d

omit [DecidableEq ι] in
theorem Inv.agreed {w : World ι} (h : w.Inv) : w.Agreed := by
  intro i s c peer hready hconn _ hlink hopen
  have hlinked := h.linked i c peer hlink
  obtain ⟨-, -, hid⟩ := (h.client i).own s c hready hconn
  obtain ⟨t, ht⟩ := Option.ne_none_iff_exists'.mp
    (hlinked.settled hopen (.inr ⟨s, hready, hconn⟩))
  obtain ⟨htready, htconn, htbind⟩ := hlinked.bound hopen t ht
  rw [← hid] at htbind
  exact ⟨t, ⟨htready, htconn, ht⟩, (h.server.registered.named _ t htbind).1, htbind⟩

/-! ## What the invariant looks at -/

namespace Linked

variable {l l' k k' : KPipe} {c peer : ℕ} {toServer toClient : List PipeMsg}

/-- The server moves, and keeps what is bound to the end as long as this stays open. -/
theorem serverMoves (h : Linked l k c peer toServer toClient)
    (hpresent : (l'.factory.connections peer).phase ≠ .absent)
    (hkeep : (l'.factory.connections peer).phase = .opened →
      (l.factory.connections peer).phase = .opened
        ∧ (l'.factory.connections peer).session = (l.factory.connections peer).session
        ∧ ∀ t, (l.factory.connections peer).session = some t →
          (l.factory.sessions t).readyFlag = true → (l.factory.sessions t).connection = some peer →
          l.factory.bindPipes (k.factory.connections c).pipeid = some t →
            l'.factory.sessions t = l.factory.sessions t
              ∧ l'.factory.bindPipes (k.factory.connections c).pipeid = some t) :
    Linked l' k c peer toServer toClient := by
  refine { h with presentServer := hpresent, settled := ?_, bound := ?_ }
  · intro hopen hready
    obtain ⟨hwas, hsession, -⟩ := hkeep hopen
    rw [hsession]
    exact h.settled hwas hready
  · intro hopen t ht
    obtain ⟨hwas, hsession, hsame⟩ := hkeep hopen
    rw [hsession] at ht
    obtain ⟨hready, hconn, hbind⟩ := h.bound hwas t ht
    obtain ⟨hsessions, hbind'⟩ := hsame t ht hready hconn hbind
    rw [hsessions]
    exact ⟨hready, hconn, hbind'⟩

theorem clientMoves (h : Linked l k c peer toServer toClient)
    (hpresent : (k'.factory.connections c).phase ≠ .absent)
    (hpipeid : (k'.factory.connections c).pipeid = (k.factory.connections c).pipeid)
    (hheld : Held k' c → Held k c) : Linked l k' c peer toServer toClient := by
  refine ⟨h.presentServer, hpresent, ?_, ?_, h.single, fun msg hmsg hreply hk' ↦ ?_, ?_, ?_⟩
  · rw [hpipeid]
    exact h.requests
  · rw [hpipeid]
    exact h.replies
  · exact h.fresh msg hmsg hreply (hheld hk')
  · exact fun hopen hready ↦ h.settled hopen (hready.imp_right hheld)
  · rw [hpipeid]
    exact h.bound

/-- Messages come and go: handshakes to the server with the id of the connection, and no new answers
to the client. -/
theorem messagesMove (h : Linked l k c peer toServer toClient) {toServer' toClient' : List PipeMsg}
    (hserver : ∀ msg ∈ toServer', msg.type = PipeMsgType.shakeHand.code →
      msg ∈ toServer ∨ msg.body = (k.factory.connections c).pipeid)
    (hclient : (toClient'.filter fun msg ↦ decide msg.IsReply).Sublist
      (toClient.filter fun msg ↦ decide msg.IsReply)) :
    Linked l k c peer toServer' toClient' := by
  have hreply : ∀ msg ∈ toClient', msg.IsReply → msg ∈ toClient := by
    intro msg hmsg hreply
    have hmem := hclient.subset (List.mem_filter.mpr ⟨hmsg, decide_eq_true hreply⟩)
    exact (List.mem_filter.mp hmem).1
  refine ⟨h.presentServer, h.presentClient, fun msg hmsg htype ↦ ?_, ?_, ?_, ?_, ?_, h.bound⟩
  · rcases hserver msg hmsg htype with hold | hnew
    · exact h.requests msg hold htype
    · exact hnew
  · exact fun msg hmsg hr ↦ h.replies msg (hreply msg hmsg hr) hr
  · exact Nat.le_trans hclient.length_le h.single
  · exact fun msg hmsg hr ↦ h.fresh msg (hreply msg hmsg hr) hr
  · intro hopen hready
    refine h.settled hopen (hready.imp_left ?_)
    rintro ⟨msg, hmsg, hr⟩
    exact ⟨msg, hreply msg hmsg hr, hr⟩

theorem sendToClient (h : Linked l k c peer toServer toClient) {msgs : List PipeMsg}
    (hmsgs : ∀ msg ∈ msgs, ¬msg.IsReply) : Linked l k c peer toServer (toClient ++ msgs) := by
  refine h.messagesMove (fun msg hmsg _ ↦ .inl hmsg) ?_
  have hnone : (msgs.filter fun msg ↦ decide msg.IsReply) = [] := by
    rw [List.filter_eq_nil_iff]
    exact fun msg hmsg ↦ by simpa using hmsgs msg hmsg
  rw [List.filter_append, hnone, List.append_nil]

/-- Messages to the server, whose handshakes have the id of the connection. -/
theorem sendToServer (h : Linked l k c peer toServer toClient) {msgs : List PipeMsg}
    (hmsgs : ∀ msg ∈ msgs, msg.type = PipeMsgType.shakeHand.code →
      msg.body = (k.factory.connections c).pipeid) :
    Linked l k c peer (toServer ++ msgs) toClient := by
  refine h.messagesMove (fun msg hmsg htype ↦ ?_) (List.Sublist.refl _)
  rcases List.mem_append.mp hmsg with hold | hnew
  · exact .inl hold
  · exact .inr (hmsgs msg hnew htype)

end Linked

/-! ## The server by itself -/

section Server

variable {l : KPipe} {a : KPipe.Action}

theorem ofServer_ne_data (h : a.ofServer = true) (cid : ℕ) (d : List UInt8) : a ≠ .data cid d := by
  rintro rfl
  simp [KPipe.Action.ofServer] at h

theorem made_ofServer (h : a.ofServer = true) : a.made = none := by
  cases a with
  | attachPipe pipe opens =>
    cases opens with
    | none => rfl
    | some cid => simp [KPipe.Action.ofServer] at h
  | construct => rfl
  | leave => rfl
  | disconnect => rfl
  | heartbeat => rfl
  | generate => rfl
  | _ => simp [KPipe.Action.ofServer] at h

theorem ServerInv.act (h : ServerInv l) (hof : a.ofServer = true) (henabled : l.Enabled a) :
    ServerInv (l.act a) := by
  refine ⟨KPipe.registered_act h.registered henabled, fun c hc ↦ ?_⟩
  have hwas : (l.factory.connections c).phase ≠ .absent := fun habsent ↦
    hc (KPipe.absent_act (ofServer_ne_data hof) henabled (by simp [made_ofServer hof]) habsent)
  rw [(KPipe.present_act henabled hwas).2]
  exact h.passive c hwas

theorem ofServer_not_isReply (hof : a.ofServer = true) {c : ℕ} {m : PipeMsg}
    (h : .send c m ∈ (l.react a).2) : ¬m.IsReply := by
  cases a with
  | heartbeat session =>
    simp only [KPipe.react] at h
    cases hconn : (l.factory.sessions session).connection with
    | none =>
      rw [hconn] at h
      simp at h
    | some cid =>
      rw [hconn] at h
      obtain ⟨-, rfl⟩ := mem_msend h
      simp [PipeMsg.IsReply, PipeMsg.heartBeat, PipeMsgType.code]
  | disconnect cid =>
    simp only [KPipe.react, PipeFactory.handleDisconnect] at h
    cases hsession : (l.factory.connections cid).session <;>
      simp [hsession] at h
  | attachPipe pipe opens => simp [KPipe.react] at h
  | construct pipeId => simp [KPipe.react] at h
  | leave cid => simp [KPipe.react] at h
  | generate => simp [KPipe.react] at h
  | _ => simp [KPipe.Action.ofServer] at hof

theorem opened_of_phaseAfter (hof : a.ofServer = true) {c : ℕ} {phase : Phase}
    (h : a.phaseAfter c phase = .opened) : phase = .opened := by
  cases a with
  | leave cid =>
    simp only [KPipe.Action.phaseAfter] at h
    split_ifs at h
    exact h
  | disconnect cid =>
    simp only [KPipe.Action.phaseAfter] at h
    split_ifs at h
    exact h
  | connected cid => simp [KPipe.Action.ofServer] at hof
  | _ => exact h

end Server

omit [DecidableEq ι] in
/-- A session that is bound to an open end stays so in an orderly action of the server. -/
theorem server_keeps {w : World ι} (h : ServerInv w.server) {a : KPipe.Action}
    (hof : a.ofServer = true) (henabled : w.server.Enabled a) (horderly : w.Orderly (.server a))
    {peer t : ℕ} {pid : List UInt8} (hopen : (w.server.factory.connections peer).phase = .opened)
    (hready : (w.server.factory.sessions t).readyFlag = true)
    (hconn : (w.server.factory.sessions t).connection = some peer)
    (hbind : w.server.factory.bindPipes pid = some t) :
    (w.server.act a).factory.sessions t = w.server.factory.sessions t
      ∧ (w.server.act a).factory.bindPipes pid = some t := by
  obtain ⟨hid, -, hcount⟩ := h.registered.named pid t hbind
  cases a with
  | construct pipeId =>
    refine ⟨?_, hbind⟩
    simp [KPipe.act, KPipe.react, Nat.ne_of_lt hcount]
  | attachPipe pipe opens =>
    cases opens with
    | some cid => simp [KPipe.Action.ofServer] at hof
    | none =>
      by_cases hpipe : (w.server.factory.sessions pipe).pipeId = []
      · simp [KPipe.act, KPipe.react, PipeFactory.registerPipe, hpipe, hbind]
      · refine ⟨by simp [KPipe.act, KPipe.react, PipeFactory.registerPipe, hpipe], ?_⟩
        simp only [KPipe.act, KPipe.react, PipeFactory.registerPipe, hpipe, if_false,
          Option.elim_none, PipeFactory.bindPipes_addBindPipe]
        split_ifs with hsame
        · -- the id is registered again: in an orderly run not while its session is ready
          have hisReady : w.server.factory.isReady t = true := by
            simp [PipeFactory.isReady, PipeFactory.isConnected, PipeConnection.isConnected, hready,
              hconn, hopen]
          rcases horderly t (hsame ▸ hbind) with rfl | hnot
          · rfl
          · exact absurd (hisReady.symm.trans hnot) (by decide)
        · exact hbind
  | disconnect cid =>
    simp only [KPipe.act, KPipe.react, PipeFactory.handleDisconnect]
    cases hsession : (w.server.factory.connections cid).session with
    | none => exact ⟨rfl, hbind⟩
    | some t' =>
      -- the late disconnect of an old end leaves the session alone that has a new one
      have hne : t ≠ t' := by
        rintro rfl
        obtain rfl := Option.some.inj (hconn.symm.trans (horderly t hsession hready))
        exact absurd (hopen.symm.trans henabled) (by decide)
      refine ⟨?_, hbind⟩
      simp [PipeFactory.setPhase, hne]
  | leave cid => exact ⟨rfl, hbind⟩
  | heartbeat session => exact ⟨rfl, hbind⟩
  | generate => exact ⟨rfl, hbind⟩
  | _ => simp [KPipe.Action.ofServer] at hof

theorem Inv.serverAct {w : World ι} (h : w.Inv) {a : KPipe.Action}
    (henabled : w.Enabled (.server a)) (horderly : w.Orderly (.server a)) :
    (w.act (.server a)).Inv := by
  obtain ⟨hof, henabled⟩ := henabled
  refine ⟨h.server.act hof henabled, h.client, fun i c peer hlink ↦ ?_, h.unique⟩
  have hlinked := h.linked i c peer hlink
  have hconn := KPipe.connections_act (ofServer_ne_data hof) henabled hlinked.presentServer
  refine Linked.sendToClient (hlinked.serverMoves ?_ fun hopen ↦ ?_)
    fun msg hmsg ↦ ofServer_not_isReply hof (mem_sent.mp hmsg)
  · exact (KPipe.present_act henabled hlinked.presentServer).1
  · have hwas := opened_of_phaseAfter hof ((congrArg PipeConnection.phase hconn).symm.trans hopen)
    have hsession : ((w.server.act a).factory.connections peer).session
        = (w.server.factory.connections peer).session := by rw [hconn]
    exact ⟨hwas, hsession, fun t _ hready huses hbind ↦
      server_keeps h.server hof henabled horderly hwas hready huses hbind⟩

/-! ## A client by itself -/

section Client

variable {k : KPipe} {a : KPipe.Action}

theorem ofClient_ne_data (h : a.ofClient = true) (cid : ℕ) (d : List UInt8) : a ≠ .data cid d := by
  rintro rfl
  simp [KPipe.Action.ofClient] at h

theorem active_of_made (hof : a.ofClient = true) (henabled : k.Enabled a) {c : ℕ}
    (hmade : a.made = some c) : ((k.act a).factory.connections c).passive = false := by
  cases a with
  | attachPipe pipe opens =>
    obtain rfl : opens = some c := hmade
    simp [KPipe.act, KPipe.react, PipeFactory.addConnection]
  | attach cid =>
    obtain rfl := Option.some.inj hmade
    simp [KPipe.act, KPipe.react, PipeFactory.addConnection]
  | startClient pipeId cid =>
    obtain rfl := Option.some.inj hmade
    obtain ⟨pipe, hpipe⟩ := Option.ne_none_iff_exists'.mp henabled.2
    simp [KPipe.act, KPipe.react, PipeFactory.addConnection, hpipe]
  | accept cid => simp [KPipe.Action.ofClient] at hof
  | _ => simp [KPipe.Action.made] at hmade

theorem receiving_phaseAfter (hof : a.ofClient = true) {c : ℕ} (hne : a ≠ .disconnect c)
    {phase : Phase} (h : phase = .opened ∨ phase = .closing) :
    a.phaseAfter c phase = .opened ∨ a.phaseAfter c phase = .closing := by
  cases a with
  | leave cid => by_cases hc : c = cid <;> simp [KPipe.Action.phaseAfter, hc, h]
  | disconnect cid =>
    have hc : c ≠ cid := by
      rintro rfl
      exact hne rfl
    simpa [KPipe.Action.phaseAfter, hc] using h
  | connected cid => simp [KPipe.Action.ofClient] at hof
  | _ => exact h

theorem ClientInv.act (h : ClientInv k) (hof : a.ofClient = true) (henabled : k.Enabled a) :
    ClientInv (k.act a) := by
  have hdata := ofClient_ne_data hof
  refine ⟨KPipe.registered_act h.registered henabled, fun c hc ↦ ?_, fun s c hready hconn ↦ ?_,
    fun c s hc ↦ ?_⟩
  · by_cases hwas : (k.factory.connections c).phase = .absent
    · refine active_of_made hof henabled ?_
      by_contra hmade
      exact hc (KPipe.absent_act hdata henabled hmade hwas)
    · rw [(KPipe.present_act henabled hwas).2]
      exact h.active c hwas
  · have hafter := hready
    have hsame := KPipe.sessions_act hdata hready
    rw [hsame] at hready hconn
    obtain ⟨hreceiving, hsession, hid⟩ := h.own s c hready hconn
    have hpresent : (k.factory.connections c).phase ≠ .absent := by
      rcases hreceiving with hphase | hphase <;> simp [hphase]
    have hne : a ≠ .disconnect c := by
      rintro rfl
      simp [KPipe.act, KPipe.react, PipeFactory.handleDisconnect, hsession, PipeFactory.setPhase]
        at hafter
    rw [KPipe.Receiving, hsame, KPipe.connections_act hdata henabled hpresent]
    exact ⟨receiving_phaseAfter hof hne hreceiving, hsession, hid⟩
  · by_cases hattach : a = .attach c
    · subst hattach
      simp [KPipe.act, KPipe.react, PipeFactory.addConnection]
    · have hactive : (∃ cid d, a = .data cid d) → (k.factory.connections c).passive = false := by
        rintro ⟨cid, d, ha⟩
        exact absurd ha (hdata cid d)
      have hwas := KPipe.unbindPipes_of_act henabled hattach hactive hc
      have hpresent : (k.factory.connections c).phase ≠ .absent := fun habsent ↦
        absurd (hwas.symm.trans (h.registered.absent c habsent)) (by simp)
      rw [KPipe.connections_act hdata henabled hpresent]
      exact h.waiting c s hwas

theorem held_of_act (hof : a.ofClient = true) {c : ℕ} (h : Held (k.act a) c) : Held k c := by
  obtain ⟨s, hready, hconn⟩ := h
  have hsame := KPipe.sessions_act (ofClient_ne_data hof) hready
  rw [hsame] at hready hconn
  exact ⟨s, hready, hconn⟩

theorem ofClient_silent (hof : a.ofClient = true) (c : ℕ) (m : PipeMsg) :
    .send c m ∉ (k.react a).2 := by
  cases a with
  | disconnect cid =>
    simp only [KPipe.react, PipeFactory.handleDisconnect]
    cases (k.factory.connections cid).session <;> simp
  | construct pipeId => simp [KPipe.react]
  | attachPipe pipe opens => simp [KPipe.react]
  | attach cid => simp [KPipe.react]
  | startClient pipeId cid => simp [KPipe.react]
  | leave cid => simp [KPipe.react]
  | _ => simp [KPipe.Action.ofClient] at hof

end Client

/-- A client moves: what its messages reach are the ends of its own connections. -/
theorem Inv.clientDoes {w : World ι} (h : w.Inv) {i : ι} {k : KPipe} {effects : List Effect}
    (hk : ClientInv k)
    (hlinked : ∀ c peer, w.link i c = some peer → Linked w.server k c peer
      (w.toServer peer ++ w.clientSent i effects peer) (w.toClient peer)) :
    (w.clientDoes i k effects).Inv := by
  refine ⟨h.server, fun j ↦ ?_, fun j c peer hlink ↦ ?_, h.unique⟩
  · by_cases hj : j = i
    · subst hj
      simpa [World.clientDoes] using hk
    · simpa [World.clientDoes, hj] using h.client j
  · by_cases hj : j = i
    · subst hj
      simpa [World.clientDoes] using hlinked c peer hlink
    · have hsilent : w.clientSent i effects peer = [] := by
        rw [List.eq_nil_iff_forall_not_mem]
        intro msg hmsg
        obtain ⟨d, -, hd⟩ := mem_clientSent.mp hmsg
        exact hj (h.unique j i c d peer hlink hd).1
      simpa [World.clientDoes, hj, hsilent] using h.linked j c peer hlink

theorem Inv.clientAct {w : World ι} (h : w.Inv) {i : ι} {a : KPipe.Action}
    (henabled : w.Enabled (.client i a)) : (w.act (.client i a)).Inv := by
  obtain ⟨hof, henabled⟩ := henabled
  refine h.clientDoes ((h.client i).act hof henabled) fun c peer hlink ↦ ?_
  have hold := h.linked i c peer hlink
  have hconn := KPipe.connections_act (ofClient_ne_data hof) henabled hold.presentClient
  refine Linked.sendToServer (hold.clientMoves ?_ (by rw [hconn]) (held_of_act hof))
    fun msg hmsg ↦ ?_
  · exact (KPipe.present_act henabled hold.presentClient).1
  · obtain ⟨d, hd, -⟩ := mem_clientSent.mp hmsg
    exact absurd hd (ofClient_silent hof d msg)

/-! ## The users send -/

theorem mem_send {k : KPipe} {session c : ℕ} {body : List UInt8} {obdata : ℕ} {m : PipeMsg}
    (h : .send c m ∈ k.send session body obdata) : m.type = PipeMsgType.data.code := by
  rw [KPipe.send] at h
  split_ifs at h
  · cases hconn : (k.factory.sessions session).connection with
    | none =>
      rw [hconn] at h
      simp at h
    | some cid =>
      rw [hconn] at h
      obtain ⟨-, rfl⟩ := mem_msend h
      rfl
  · simp at h

omit [DecidableEq ι] in
theorem Inv.sendServer {w : World ι} (h : w.Inv) (session : ℕ) (body : List UInt8) (obdata : ℕ) :
    (w.serverDoes w.server (w.server.send session body obdata)).Inv := by
  refine ⟨h.server, h.client, fun i c peer hlink ↦ ?_, h.unique⟩
  refine (h.linked i c peer hlink).sendToClient fun msg hmsg hreply ↦ ?_
  exact absurd ((mem_send (mem_sent.mp hmsg)).symm.trans hreply.1) (by decide)

theorem Inv.sendClient {w : World ι} (h : w.Inv) (i : ι) (session : ℕ) (body : List UInt8)
    (obdata : ℕ) :
    (w.clientDoes i (w.client i) ((w.client i).send session body obdata)).Inv := by
  refine h.clientDoes (h.client i) fun c peer hlink ↦ ?_
  refine (h.linked i c peer hlink).sendToServer fun msg hmsg htype ↦ ?_
  obtain ⟨d, hd, -⟩ := mem_clientSent.mp hmsg
  exact absurd ((mem_send hd).symm.trans htype) (by decide)

/-! ## A message arrives at the server -/

theorem isReady_of_uses {f : PipeFactory} {t peer : ℕ} (hready : (f.sessions t).readyFlag = true)
    (hconn : (f.sessions t).connection = some peer) (hopen : (f.connections peer).phase = .opened) :
    f.isReady t = true := by
  simp [PipeFactory.isReady, PipeFactory.isConnected, PipeConnection.isConnected, hready, hconn,
    hopen]

section Bind

variable {l k : KPipe} {c q peer t : ℕ} {toServer toClient : List PipeMsg}

theorem Linked.bindElsewhere (h : Linked l k c q toServer toClient) (hne : q ≠ peer)
    (hready : l.factory.isReady t = false) :
    Linked { l with factory := l.factory.bind t peer } k c q toServer toClient := by
  have hsame : (l.factory.bind t peer).connections q = l.factory.connections q := by simp [hne]
  refine h.serverMoves (hsame ▸ h.presentServer) fun hopen ↦ ?_
  rw [hsame] at hopen ⊢
  refine ⟨hopen, rfl, fun t' _ hready' hconn hbind ↦ ⟨?_, hbind⟩⟩
  have ht : t' ≠ t := by
    rintro rfl
    exact absurd ((isReady_of_uses hready' hconn hopen).symm.trans hready) (by decide)
  simp [ht]

/-- The server binds the session under the id of the connection to its end, and answers. -/
theorem Linked.bindHere (h : Linked l k c peer toServer toClient)
    (hopen : (l.factory.connections peer).phase = .opened)
    (hbind : l.factory.bindPipes (k.factory.connections c).pipeid = some t)
    (hready : l.factory.isReady t = false) :
    Linked { l with factory := l.factory.bind t peer } k c peer toServer
      (toClient ++ [.shakeHand (k.factory.connections c).pipeid]) := by
  -- A session that was bound here before would be the one under the id, and ready.
  have hfree : (l.factory.connections peer).session = none := by
    by_contra hsome
    obtain ⟨t', ht'⟩ := Option.ne_none_iff_exists'.mp hsome
    obtain ⟨hready', hconn, hbind'⟩ := h.bound hopen t' ht'
    obtain rfl := Option.some.inj (hbind.symm.trans hbind')
    exact absurd ((isReady_of_uses hready' hconn hopen).symm.trans hready) (by decide)
  have hnoReply : ∀ msg ∈ toClient, ¬msg.IsReply := fun msg hmsg hreply ↦
    h.settled hopen (.inl ⟨msg, hmsg, hreply⟩) hfree
  have hnotHeld : ¬Held k c := fun hheld ↦ h.settled hopen (.inr hheld) hfree
  refine ⟨?_, h.presentClient, h.requests, fun msg hmsg hreply ↦ ?_, ?_, fun _ _ _ ↦ hnotHeld,
    ?_, ?_⟩
  · simpa using h.presentServer
  · rcases List.mem_append.mp hmsg with hold | hnew
    · exact h.replies msg hold hreply
    · rw [List.mem_singleton.mp hnew]
      rfl
  · have hnone : (toClient.filter fun msg ↦ decide msg.IsReply) = [] := by
      rw [List.filter_eq_nil_iff]
      exact fun msg hmsg ↦ by simpa using hnoReply msg hmsg
    rw [List.filter_append, hnone, List.nil_append]
    exact List.length_filter_le _ _
  · simp
  · intro _ t' ht'
    obtain rfl : t = t' := by simpa using ht'
    simpa using hbind

end Bind

theorem ServerInv.deliver {l : KPipe} (h : ServerInv l) {peer : ℕ} (msg : PipeMsg)
    (hpresent : (l.factory.connections peer).phase ≠ .absent) : ServerInv (l.deliver peer msg) := by
  refine ⟨h.registered.handleMessage msg hpresent, fun q hq ↦ ?_⟩
  obtain ⟨hphase, hpassive⟩ := l.factory.sameSockets_handleMessage peer msg q
  exact hpassive.trans (h.passive q (hphase ▸ hq))

omit [DecidableEq ι] in
theorem Inv.popServer {w : World ι} (h : w.Inv) {peer : ℕ} {msg : PipeMsg} {rest : List PipeMsg}
    (hqueue : w.toServer peer = msg :: rest) :
    ({ w with toServer := Function.update w.toServer peer rest } : World ι).Inv := by
  refine ⟨h.server, h.client, fun i c q hlink ↦ ?_, h.unique⟩
  refine (h.linked i c q hlink).messagesMove (fun m hm _ ↦ .inl ?_) (List.Sublist.refl _)
  dsimp only at hm
  by_cases hq : q = peer
  · subst hq
    rw [Function.update_self] at hm
    exact hqueue ▸ List.mem_cons_of_mem _ hm
  · rwa [Function.update_of_ne hq] at hm

omit [DecidableEq ι] in
/-- The first message in flight from an end of the server is taken out. -/
theorem Inv.popClient {w : World ι} (h : w.Inv) {peer : ℕ} {msg : PipeMsg} {rest : List PipeMsg}
    (hqueue : w.toClient peer = msg :: rest) :
    ({ w with toClient := Function.update w.toClient peer rest } : World ι).Inv := by
  refine ⟨h.server, h.client, fun i c q hlink ↦ ?_, h.unique⟩
  refine (h.linked i c q hlink).messagesMove (fun m hm _ ↦ .inl hm) ?_
  dsimp only
  by_cases hq : q = peer
  · subst hq
    rw [Function.update_self, hqueue]
    exact (List.sublist_cons_self msg rest).filter _
  · rw [Function.update_of_ne hq]

/-- The server binds the session under the id of a handshake to the end it came from. -/
theorem Linked.bindFound {l k : KPipe} {c q peer t : ℕ} {toServer toClient : List PipeMsg}
    {body : List UInt8} (h : Linked l k c q toServer toClient) (hreceiving : l.Receiving peer)
    (hbind : l.factory.bindPipes body = some t) (hready : l.factory.isReady t = false)
    (hbody : q = peer → body = (k.factory.connections c).pipeid) :
    Linked { l with factory := l.factory.bind t peer } k c q toServer
      (toClient ++ if q = peer ∧ l.factory.isConnected peer = true then [.shakeHand body]
        else []) := by
  by_cases hq : q = peer
  · subst hq
    rw [hbody rfl] at hbind ⊢
    rcases hreceiving with hopen | hclosing
    · have hconnected : l.factory.isConnected q = true := by
        simp [PipeFactory.isConnected, PipeConnection.isConnected, hopen]
      rw [if_pos ⟨rfl, hconnected⟩]
      exact h.bindHere hopen hbind hready
    · -- the socket has left OPEN: the answer is not sent, and the end counts no more
      have hconnected : ¬l.factory.isConnected q = true := by
        simp [PipeFactory.isConnected, PipeConnection.isConnected, hclosing]
      rw [if_neg fun hboth ↦ hconnected hboth.2, List.append_nil]
      refine h.serverMoves (by simpa using h.presentServer) fun hopen ↦ ?_
      exact absurd (hopen.symm.trans (by simpa using hclosing)) (by decide)
  · rw [if_neg fun hboth ↦ hq hboth.1, List.append_nil]
    exact h.bindElsewhere hq hready

theorem Inv.deliverServer {w : World ι} (h : w.Inv) {peer : ℕ}
    (henabled : w.Enabled (.deliverServer peer)) (horderly : w.Orderly (.deliverServer peer)) :
    (w.act (.deliverServer peer)).Inv := by
  obtain ⟨hreceiving, hne⟩ := henabled
  obtain ⟨msg, rest, hqueue⟩ := List.exists_cons_of_ne_nil hne
  have hact : w.act (.deliverServer peer)
      = { w with toServer := Function.update w.toServer peer rest }.serverDoes
        (w.server.deliver peer msg) (w.server.factory.handleMessage peer msg).2 := by
    simp only [act, hqueue]
  rw [hact]
  have hpresent : (w.server.factory.connections peer).phase ≠ .absent := by
    rcases hreceiving with hphase | hphase <;> simp [hphase]
  have hpassive := h.server.passive peer hpresent
  refine ⟨h.server.deliver msg hpresent, h.client, fun i c q hlink ↦ ?_, h.unique⟩
  have hold := (h.popServer hqueue).linked i c q hlink
  rcases server_cases hpassive (horderly msg (by rw [hqueue]; rfl)) with
    ⟨hsame, hsilent⟩ | ⟨t, htype, hbind, hready, hbound, hsent⟩
  · -- nothing is bound, and no answer goes out
    have hstay : w.server.deliver peer msg = w.server := by
      rw [KPipe.deliver, hsame]
    rw [World.serverDoes, hstay]
    exact hold.sendToClient fun m hm ↦ hsilent q m (mem_sent.mp hm)
  · have hmove : w.server.deliver peer msg
        = { w.server with factory := w.server.factory.bind t peer } := by
      rw [KPipe.deliver, hbound]
    simp only [World.serverDoes, hmove, hsent]
    refine hold.bindFound hreceiving hbind hready ?_
    rintro rfl
    exact (h.linked i c q hlink).requests msg (hqueue ▸ List.mem_cons_self) htype

/-! ## A message arrives at a client -/

/-- The only answer on a connection arrives: whatever the client binds, the server is bound. -/
theorem Linked.receive {l k k' : KPipe} {c peer : ℕ} {toServer rest : List PipeMsg} {msg : PipeMsg}
    (h : Linked l k c peer toServer (msg :: rest)) (hreply : msg.IsReply)
    (hpresent : (k'.factory.connections c).phase ≠ .absent)
    (hpipeid : (k'.factory.connections c).pipeid = (k.factory.connections c).pipeid) :
    Linked l k' c peer toServer rest := by
  have hlast : ∀ m ∈ rest, ¬m.IsReply := by
    have hsingle := h.single
    rw [List.filter_cons_of_pos (by simpa using hreply), List.length_cons] at hsingle
    have hnone := List.length_eq_zero_iff.mp (Nat.le_zero.mp (Nat.le_of_succ_le_succ hsingle))
    rw [List.filter_eq_nil_iff] at hnone
    exact fun m hm ↦ by simpa using hnone m hm
  refine ⟨h.presentServer, hpresent, ?_, fun m hm hr ↦ absurd hr (hlast m hm), ?_,
    fun m hm hr ↦ absurd hr (hlast m hm), fun hopen _ ↦ ?_, ?_⟩
  · rw [hpipeid]
    exact h.requests
  · exact Nat.le_trans (((List.sublist_cons_self msg rest).filter _).length_le) h.single
  · exact h.settled hopen (.inl ⟨msg, List.mem_cons_self, hreply⟩)
  · rw [hpipeid]
    exact h.bound

section ClientBinds

variable {k : KPipe} {c s : ℕ} {msg : PipeMsg}

/-- What a client looks like that has bound the session under the id of an answer. -/
structure Binds (k k' : KPipe) (s c : ℕ) : Prop where
  session : k'.factory.sessions s
    = { k.factory.sessions s with connection := some c, readyFlag := true }
  sessions : ∀ s', s' ≠ s → k'.factory.sessions s' = k.factory.sessions s'
  connection : k'.factory.connections c = { k.factory.connections c with session := some s }
  connections : ∀ d, d ≠ c → k'.factory.connections d = k.factory.connections d
  pipeid : (k.factory.sessions s).pipeId = (k.factory.connections c).pipeid
  unbindPipes : k'.factory.unbindPipes = k.factory.unbindPipes

theorem Binds.held {k' : KPipe} (h : Binds k k' s c) {d : ℕ} (hd : d ≠ c) (hheld : Held k' d) :
    Held k d := by
  obtain ⟨s', hready, hconn⟩ := hheld
  by_cases hs : s' = s
  · subst hs
    rw [h.session] at hconn
    exact absurd (Option.some.inj hconn).symm hd
  · rw [h.sessions s' hs] at hready hconn
    exact ⟨s', hready, hconn⟩

/-- A session is bound to a connection with an id that no ready session uses. -/
theorem Binds.clientInv {k' : KPipe} (h : Binds k k' s c) (hk : ClientInv k)
    (hregistered : k'.factory.Registered k'.attached) (hreceiving : k.Receiving c)
    (hfree : ¬Held k c) (hid : (k.factory.connections c).pipeid ≠ []) : ClientInv k' := by
  refine ⟨hregistered, fun d hd ↦ ?_, fun s' d hready hconn ↦ ?_, fun d s' hd ↦ ?_⟩
  · by_cases hdc : d = c
    · subst hdc
      rw [h.connection] at hd ⊢
      exact hk.active d hd
    · rw [h.connections d hdc] at hd ⊢
      exact hk.active d hd
  · by_cases hs : s' = s
    · subst hs
      rw [h.session] at hconn ⊢
      obtain rfl := Option.some.inj hconn
      rw [KPipe.Receiving, h.connection]
      exact ⟨hreceiving, rfl, h.pipeid⟩
    · rw [h.sessions s' hs] at hready hconn ⊢
      have hdc : d ≠ c := by
        rintro rfl
        exact hfree ⟨s', hready, hconn⟩
      rw [KPipe.Receiving, h.connections d hdc]
      exact hk.own s' d hready hconn
  · rw [h.unbindPipes] at hd
    by_cases hdc : d = c
    · subst hdc
      exact absurd (hk.waiting d s' hd) hid
    · rw [h.connections d hdc]
      exact hk.waiting d s' hd

theorem binds_deliver (hk : ClientInv k) (hbind : k.factory.bindPipes msg.body = some s)
    (hbody : msg.body = (k.factory.connections c).pipeid)
    (hdeliver : (k.factory.handleMessage c msg).1 = (k.factory.bind s c).updatePipeid s msg.body) :
    Binds k (k.deliver c msg) s c := by
  obtain ⟨hid, hne, -⟩ := hk.registered.named _ s hbind
  have hsessions : ∀ s', (k.deliver c msg).factory.sessions s'
      = (k.factory.bind s c).sessions s' := by
    intro s'
    rw [KPipe.deliver, hdeliver, PipeFactory.sessions_updatePipeid, if_neg]
    rintro ⟨rfl, hnil⟩
    rw [PipeFactory.sessions_bind, if_pos rfl] at hnil
    exact hne (hid.symm.trans hnil)
  have hconnections : ∀ d, (k.deliver c msg).factory.connections d
      = (k.factory.bind s c).connections d := by
    intro d
    rw [KPipe.deliver, hdeliver, PipeFactory.updatePipeid_connections]
  refine ⟨?_, fun s' hs ↦ ?_, ?_, fun d hd ↦ ?_, hid.trans hbody, ?_⟩
  · rw [hsessions, PipeFactory.sessions_bind, if_pos rfl]
  · rw [hsessions, PipeFactory.sessions_bind, if_neg hs]
  · rw [hconnections, PipeFactory.connections_bind, if_pos rfl, hid, hbody]
  · rw [hconnections, PipeFactory.connections_bind, if_neg hd]
  · rw [KPipe.deliver, hdeliver]
    rfl

end ClientBinds

/-- A client binds the session under the id of the answer that it takes from the queue. -/
theorem Inv.clientBinds {w : World ι} (h : w.Inv) {i : ι} {k : KPipe} {c peer s : ℕ} {msg : PipeMsg}
    {rest : List PipeMsg} {effects : List Effect} (hlink : w.link i c = some peer)
    (hqueue : w.toClient peer = msg :: rest) (hreply : msg.IsReply)
    (hbinds : Binds (w.client i) k s c) (hk : ClientInv k)
    (hsilent : ∀ d m, .send d m ∉ effects) :
    ({ w with toClient := Function.update w.toClient peer rest }.clientDoes i k effects).Inv := by
  have hpop := h.popClient hqueue
  have hhere := h.linked i c peer hlink
  rw [hqueue] at hhere
  refine hpop.clientDoes hk fun d q hq ↦ ?_
  have hquiet : ({ w with toClient := Function.update w.toClient peer rest } : World ι).clientSent i
      effects q = [] := by
    rw [List.eq_nil_iff_forall_not_mem]
    intro m hm
    obtain ⟨c', hm, -⟩ := mem_clientSent.mp hm
    exact hsilent c' m hm
  rw [hquiet, List.append_nil]
  by_cases hdc : d = c
  · subst hdc
    obtain rfl := Option.some.inj (hlink.symm.trans hq)
    simp only [Function.update_self]
    refine hhere.receive hreply ?_ (by rw [hbinds.connection])
    rw [hbinds.connection]
    exact hhere.presentClient
  · have hold := hpop.linked i d q hq
    refine hold.clientMoves ?_ (by rw [hbinds.connections d hdc]) (hbinds.held hdc)
    rw [hbinds.connections d hdc]
    exact hold.presentClient

theorem Inv.deliverClient {w : World ι} (h : w.Inv) {i : ι} {c : ℕ}
    (henabled : w.Enabled (.deliverClient i c)) : (w.act (.deliverClient i c)).Inv := by
  obtain ⟨hreceiving, peer, hlink, hne⟩ := henabled
  obtain ⟨msg, rest, hqueue⟩ := List.exists_cons_of_ne_nil hne
  have hact : w.act (.deliverClient i c)
      = { w with toClient := Function.update w.toClient peer rest }.clientDoes i
        ((w.client i).deliver c msg) ((w.client i).factory.handleMessage c msg).2 := by
    simp only [act, Option.mem_def.mp hlink, hqueue]
  rw [hact]
  have hhere := h.linked i c peer hlink
  have hmem : msg ∈ w.toClient peer := hqueue ▸ List.mem_cons_self
  rcases client_cases msg ((h.client i).active c hhere.presentClient) with
    ⟨hsame, hsends⟩ | ⟨s, hreply, hsilent, hfound⟩
  · -- nothing is bound, and a handshake that goes out has the id of the connection
    have hstay : (w.client i).deliver c msg = w.client i := by
      rw [KPipe.deliver, hsame]
    have hpop := h.popClient hqueue
    rw [hstay]
    refine hpop.clientDoes (h.client i) fun d q hq ↦ ?_
    refine (hpop.linked i d q hq).sendToServer fun m hm htype ↦ ?_
    obtain ⟨c', hm, hc'⟩ := mem_clientSent.mp hm
    obtain ⟨rfl, hbody⟩ := hsends c' m hm
    obtain ⟨-, rfl⟩ := h.unique i i d c' q hq hc'
    exact hbody htype
  · -- the id of the answer is that of the connection, so that no session waits for it
    have hbody := hhere.replies msg hmem hreply
    have hbinds : Binds (w.client i) ((w.client i).deliver c msg) s c := by
      rcases hfound with ⟨hbind, hdeliver⟩ | hunbind
      · exact binds_deliver (h.client i) hbind hbody hdeliver
      · exact absurd (hbody.trans ((h.client i).waiting c s hunbind)) hreply.2
    have hclient : ClientInv ((w.client i).deliver c msg) :=
      hbinds.clientInv (h.client i)
        ((h.client i).registered.handleMessage msg hhere.presentClient) hreceiving
        (hhere.fresh msg hmem hreply) (hbody ▸ hreply.2)
    exact h.clientBinds hlink hqueue hreply hbinds hclient hsilent

/-! ## A connection is opened -/

section Connected

variable {k : KPipe} {c : ℕ}

theorem connections_connected (k : KPipe) (c d : ℕ) :
    (k.act (.connected c)).factory.connections d
      = if d = c then { k.factory.connections d with phase := .opened }
        else k.factory.connections d := by
  simp [KPipe.act, KPipe.react, PipeFactory.handleConnect, PipeFactory.setPhase]

theorem ClientInv.not_held (h : ClientInv k) (hidle : (k.factory.connections c).phase = .idle) :
    ¬Held k c := by
  rintro ⟨s, hready, hconn⟩
  obtain ⟨hreceiving, -⟩ := h.own s c hready hconn
  rw [KPipe.Receiving, hidle] at hreceiving
  exact absurd hreceiving (by decide)

theorem ClientInv.connected (h : ClientInv k) (henabled : k.Enabled (.connected c)) :
    ClientInv (k.act (.connected c)) := by
  refine ⟨KPipe.registered_act h.registered henabled, fun d hd ↦ ?_, fun s d hready hconn ↦ ?_,
    fun d s hd ↦ ?_⟩
  · rw [connections_connected] at hd ⊢
    split_ifs at hd ⊢ with hdc
    · subst hdc
      exact henabled.2
    · exact h.active d hd
  · have hdc : d ≠ c := by
      rintro rfl
      exact h.not_held henabled.1 ⟨s, hready, hconn⟩
    rw [KPipe.Receiving, connections_connected, if_neg hdc]
    exact h.own s d hready hconn
  · rw [connections_connected]
    split_ifs <;> exact h.waiting d s hd

theorem held_of_connected {d : ℕ} (h : Held (k.act (.connected c)) d) : Held k d := h

theorem mem_connected {d : ℕ} {m : PipeMsg} (h : .send d m ∈ (k.react (.connected c)).2) :
    d = c ∧ m = .shakeHand (k.factory.connections c).pipeid := by
  simp only [KPipe.react, PipeFactory.handleConnect, List.mem_append] at h
  rcases h with h | h
  · split_ifs at h
    · simp at h
    · obtain ⟨hd, hm⟩ := mem_msend h
      exact ⟨hd, by simpa [PipeFactory.setPhase] using hm⟩
  · simp at h

end Connected

theorem link_relink (w : World ι) (i j : ι) (c d peer : ℕ) :
    (w.relink i c peer).link j d = if j = i ∧ d = c then some peer else w.link j d := by
  by_cases hj : j = i
  · subst hj
    by_cases hd : d = c <;> simp [World.relink, hd]
  · simp [World.relink, hj]

theorem connections_accept (l : KPipe) (peer q : ℕ) :
    (l.act (.accept peer)).factory.connections q
      = if q = peer then ⟨true, .opened, none, []⟩ else l.factory.connections q := by
  simp [KPipe.act, KPipe.react, PipeFactory.acceptConnection]

theorem ServerInv.accept {l : KPipe} (h : ServerInv l) {peer : ℕ} (hfresh : l.Fresh peer) :
    ServerInv (l.act (.accept peer)) := by
  refine ⟨KPipe.registered_act h.registered hfresh, fun q hq ↦ ?_⟩
  rw [connections_accept] at hq ⊢
  split_ifs at hq ⊢
  · rfl
  · exact h.passive q hq

theorem Inv.relink {w : World ι} (h : w.Inv) {i : ι} {c peer : ℕ}
    (hidle : ((w.client i).factory.connections c).phase = .idle) (hfresh : w.server.Fresh peer) :
    (w.relink i c peer).Inv := by
  have hunused : ∀ j d, w.link j d ≠ some peer := fun j d hlink ↦
    (h.linked j d peer hlink).presentServer hfresh.1
  refine ⟨h.server.accept hfresh, h.client, fun j d q hlink ↦ ?_, fun j j' d d' q hq hq' ↦ ?_⟩
  · rw [link_relink] at hlink
    split_ifs at hlink with hnew
    · -- the new link: nothing is under way, and neither end has a session
      obtain ⟨rfl, rfl⟩ := hnew
      obtain rfl := Option.some.inj hlink
      have hconn := connections_accept w.server peer peer
      rw [if_pos rfl] at hconn
      simp only [World.relink, Function.update_self]
      refine ⟨by simp [hconn], by simp [hidle], by simp, by simp, by simp, by simp, ?_, ?_⟩
      · rintro - (⟨msg, hmsg, -⟩ | hheld)
        · exact absurd hmsg (by simp)
        · exact absurd hheld ((h.client j).not_held hidle)
      · simp [hconn]
    · -- every other link has another end, which the server leaves as it was
      have hq : q ≠ peer := by
        rintro rfl
        exact hunused j d hlink
      have hold := h.linked j d q hlink
      have hconn := connections_accept w.server peer q
      rw [if_neg hq] at hconn
      simp only [World.relink, Function.update_of_ne hq]
      refine hold.serverMoves (hconn ▸ hold.presentServer) fun hopen ↦ ?_
      rw [hconn] at hopen ⊢
      exact ⟨hopen, rfl, fun t _ _ _ hbind ↦ ⟨rfl, hbind⟩⟩
  · rw [link_relink] at hq hq'
    split_ifs at hq hq' with hnew hnew' hnew'
    · exact ⟨hnew.1.trans hnew'.1.symm, hnew.2.trans hnew'.2.symm⟩
    · exact absurd (hq'.trans hq.symm) (hunused j' d')
    · exact absurd (hq.trans hq'.symm) (hunused j d)
    · exact h.unique j j' d d' q hq hq'

theorem Inv.connect {w : World ι} (h : w.Inv) {i : ι} {c peer : ℕ}
    (henabled : w.Enabled (.connect i c peer)) : (w.act (.connect i c peer)).Inv := by
  obtain ⟨hclient, hfresh⟩ := henabled
  have hrelink := h.relink hclient.1 hfresh
  refine hrelink.clientDoes ((h.client i).connected hclient) fun d q hq ↦ ?_
  have hold := hrelink.linked i d q hq
  refine Linked.sendToServer (hold.clientMoves ?_ ?_ held_of_connected) fun m hm _ ↦ ?_
  · exact (KPipe.present_act hclient hold.presentClient).1
  · rw [connections_connected]
    split_ifs <;> rfl
  · obtain ⟨c', hm, hc'⟩ := mem_clientSent.mp hm
    obtain ⟨rfl, rfl⟩ := mem_connected hm
    obtain ⟨-, rfl⟩ := hrelink.unique i i d c' q hq hc'
    rw [connections_connected, if_pos rfl]
    rfl

theorem Inv.act {w : World ι} (h : w.Inv) {a : Action ι} (henabled : w.Enabled a)
    (horderly : w.Orderly a) : (w.act a).Inv := by
  cases a with
  | server a => exact h.serverAct henabled horderly
  | client i a => exact h.clientAct henabled
  | connect i c peer => exact h.connect henabled
  | deliverServer peer => exact h.deliverServer henabled horderly
  | deliverClient i c => exact h.deliverClient henabled
  | sendServer session body obdata => exact h.sendServer session body obdata
  | sendClient i session body obdata => exact h.sendClient i session body obdata

omit [DecidableEq ι] in
theorem inv_start : ({} : World ι).Inv := by
  have hregistered : ({} : KPipe).factory.Registered ({} : KPipe).attached := KPipe.registered_start
  exact ⟨⟨hregistered, by simp⟩, fun _ ↦ ⟨hregistered, by simp, by simp, by simp⟩, by simp, by simp⟩

/-- **A client and the server agree as long as the server is orderly.** In every run of a server and
its clients over reliable connections, whatever is registered, connected, disconnected and sent, and
in whatever order the messages arrive: if the server never answers a handshake without an id, never
registers an id again while its session is ready, and never hears of the end of a connection after
its session has moved to another one, then in every state every session of a client that is ready
over an open connection has its counterpart on the server, under its own id. -/
theorem agreed_of_orderly {as : List (Action ι)} (h : system.Along Orderly {} as) :
    system.Throughout Agreed ({} : World ι) as := by
  refine StepSystem.throughout_of_invariant (I := Inv) inv_start (fun w a t hw hstep hord ↦ ?_)
    (fun w ↦ Inv.agreed) h
  obtain ⟨henabled, rfl⟩ := step_eq_some.mp hstep
  exact hw.act henabled hord

/-- A pipe registered as `a` on both sides loses its connection, and the server hears of it before
the client is back. -/
theorem agreed_reconnect :
    system.Throughout Agreed ({} : World Unit)
      [.server (.construct [97]), .server (.attachPipe 0 none), .client () (.construct [97]),
        .client () (.attachPipe 0 (some 1025)), .connect () 1025 2001, .deliverServer 2001,
        .deliverClient () 1025, .client () (.leave 1025), .client () (.disconnect 1025),
        .server (.leave 2001), .server (.disconnect 2001), .connect () 1025 2002,
        .deliverServer 2002, .deliverClient () 1025] :=
  agreed_of_orderly (by decide)

/-- The server finds no session under an id that it has handed out. And of a pipe registered as `a`
on both sides, the server hears late of the end of its first connection. -/
theorem generated_id_not_found :
    (∃ w, system.run ({} : World Unit) [.client () (.attach 1025), .connect () 1025 2001,
        .deliverServer 2001, .deliverClient () 1025] = some w ∧ ¬w.Agreed)
    ∧ ∃ w, system.run ({} : World Unit)
        [.server (.construct [97]), .server (.attachPipe 0 none), .client () (.construct [97]),
          .client () (.attachPipe 0 (some 1025)), .connect () 1025 2001, .deliverServer 2001,
          .deliverClient () 1025, .client () (.leave 1025), .client () (.disconnect 1025),
          .server (.leave 2001), .connect () 1025 2002, .deliverServer 2002,
          .deliverClient () 1025, .server (.disconnect 2001)] = some w ∧ ¬w.Agreed := by
  refine ⟨⟨_, rfl, fun h ↦ ?_⟩, _, rfl, fun h ↦ ?_⟩
  · obtain ⟨t, -, -, hbind⟩ := h () 0 1025 2001 (by decide) (by decide) (by decide) (by decide)
      (by decide)
    exact absurd (Option.ne_none_iff_exists'.mpr ⟨t, hbind⟩) (by decide)
  · obtain ⟨t, hbound, -, hbind⟩ := h () 0 1025 2002 (by decide) (by decide) (by decide) (by decide)
      (by decide)
    obtain rfl : t = 0 := Option.some.inj (hbind.symm.trans (by decide))
    exact absurd hbound.1 (by decide)

end World

end Knet.Pipe
