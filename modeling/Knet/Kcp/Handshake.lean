import Knet.Kcp.Connection
import Knet.Lib.StepSystem
import Mathlib.Logic.Function.Basic

/-!
# Agreement on the conversation id

A client, the connection that the listener keeps for the client's endpoint, and the datagrams in
flight between them. The network may lose, duplicate and reorder datagrams, either end may be
recreated at any time, and timers and calls of the user may come at any moment.

An end that is ready never changes its id (`checkControlMessage_of_ready`). So everything is decided
when an end in `CONN_OPEN` handles a handshake message while the other one is ready: a request
overwrites its id, unless it carries none, and a response does not, unless it has none. `Suits` says
when this brings it to the id of the other end.
-/

namespace Knet.Kcp

/-- The two ends. -/
inductive Side
  | client
  | server
  deriving DecidableEq, Repr

/-- The other end. -/
def Side.other : Side → Side
  | .client => .server
  | .server => .client

@[simp] theorem Side.other_other (e : Side) : e.other.other = e := by cases e <;> rfl

theorem Side.other_ne (e : Side) : e.other ≠ e := by cases e <;> decide

theorem Side.eq_or_eq_other (e e' : Side) : e' = e ∨ e' = e.other := by
  cases e <;> cases e' <;> decide

/-- Both ends and the network between them. -/
structure World (κ : Type*) where
  /-- The connection object of an end. The server has none before the first contact. -/
  conn : Side → Option (KcpConnection κ)
  /-- The datagrams on their way to an end. -/
  net : Side → List (List UInt8)
  serverConvIndex : UInt32

namespace World

variable {κ : Type*} (lib : Ikcp κ)

/-- The end `e` is now `c` and has sent `sent`. -/
def act (w : World κ) (e : Side) (c : KcpConnection κ) (sent : List (List UInt8)) : World κ :=
  { w with
    conn := Function.update w.conn e (some c)
    net := Function.update w.net e.other (w.net e.other ++ sent) }

/-- The connection that handles a datagram at the end `e`. The listener creates one, with the id
`cid`, for an endpoint that it does not know. -/
def receiver (w : World κ) (e : Side) (cid : UInt32) : Option (KcpConnection κ) :=
  match e, w.conn e with
  | _, some c => if c.kcpSock then some c else none
  | .server, none => some (.listening cid)
  | .client, none => none

/-- What can happen next. -/
inductive Action
  /-- The datagram `i` on its way to `e` arrives. A connection created for it gets the id `cid`. -/
  | deliver (e : Side) (i : ℕ) (cid : UInt32)
  /-- It is lost. -/
  | lose (e : Side) (i : ℕ)
  /-- It is duplicated. -/
  | duplicate (e : Side) (i : ℕ)
  /-- The user calls `send`. -/
  | send (e : Side) (data : List UInt8)
  /-- The timer of the `kcp` object fires. -/
  | tick (e : Side) (now : UInt32)
  /-- The heartbeat timer fires. -/
  | heartbeat (e : Side) (elapseTime : ℤ)
  /-- The user calls `disconnect`. -/
  | disconnect (e : Side)
  /-- The send of the goodbye message completes. -/
  | disconnectDone (e : Side)
  /-- A new client at the same endpoint calls `connect`. -/
  | restartClient (cid : UInt32) (reconn : Bool)
  /-- The server is started anew. -/
  | restartServer
  /-- The server allocates an id for another client. -/
  | allocate
  deriving DecidableEq, Repr

/-- The client's first request is under way. -/
def connect (w : World κ) (cid : UInt32) (reconn : Bool) : World κ :=
  let c : KcpConnection κ := .connecting cid reconn
  w.act .client c c.shakehandRequest

/-- One step, or `none` when the action is not possible. -/
def step (w : World κ) : Action → Option (World κ)
  | .deliver e i cid =>
    match (w.net e)[i]?, w.receiver e cid with
    | some d, some c =>
      let r := c.receive lib w.serverConvIndex (.ofBytes d) d
      let w := { w with
        net := Function.update w.net e ((w.net e).eraseIdx i)
        serverConvIndex := r.serverConvIndex }
      some (w.act e r.conn r.sent)
    | _, _ => none
  | .lose e i => some { w with net := Function.update w.net e ((w.net e).eraseIdx i) }
  | .duplicate e i =>
    (w.net e)[i]?.map fun d ↦ { w with net := Function.update w.net e (w.net e ++ [d]) }
  | .send e data => (w.conn e).map fun c ↦ w.act e (c.send lib data).1 (c.send lib data).2.1
  | .tick e now =>
    (w.conn e).bind fun c ↦
      if c.kcpTimer then some (w.act e (c.tick lib now).1 (c.tick lib now).2) else none
  | .heartbeat e elapseTime =>
    (w.conn e).bind fun c ↦
      if c.heartbeatTimer then
        some (w.act e (c.heartbeatFires elapseTime).1 (c.heartbeatFires elapseTime).2)
      else none
  | .disconnect e => (w.conn e).map fun c ↦ w.act e c.disconnect.1 c.disconnect.2
  | .disconnectDone e =>
    (w.conn e).bind fun c ↦ if 0 < c.goodbyes then some (w.act e c.disconnectDone []) else none
  | .restartClient cid reconn => some (w.connect cid reconn)
  | .restartServer =>
    some { w with conn := Function.update w.conn .server none, serverConvIndex := 0x1000 }
  | .allocate => some { w with serverConvIndex := w.serverConvIndex + 1 }

/-- The step system of the two ends. -/
def system : StepSystem (World κ) Action := ⟨step lib⟩

/-- The client has just called `connect`, and the server does not know it yet. -/
def start (cid : UInt32) (reconn : Bool) : World κ :=
  connect ⟨fun _ ↦ none, fun _ ↦ [], 0x1000⟩ cid reconn

/-! ## Agreement -/

/-- A datagram is a handshake message. -/
def isShakehand (d : List UInt8) : Bool :=
  (KcpMsgHead.ofBytes d).type = some .shakehandRequest
    || (KcpMsgHead.ofBytes d).type = some .shakehandResponse

/-- When both ends are ready and no handshake message is in flight, the two `kcp` objects were
created with the same id. -/
def Agreed (w : World κ) : Prop :=
  ∀ c s, w.conn .client = some c → w.conn .server = some s →
    c.connStatus = .kcpReady → s.connStatus = .kcpReady →
    (∀ e, ∀ d ∈ w.net e, isShakehand d = false) →
      ∃ conv, c.kcp.map lib.conv = some conv ∧ s.kcp.map lib.conv = some conv

/-- The ends agree, whichever of the datagrams in flight are lost. -/
def AgreedUnderLoss (w : World κ) : Prop :=
  ∀ net, (∀ e, (net e).Sublist (w.net e)) → Agreed lib { w with net := net }

end World

/-- The handshake message brings a connection in `CONN_OPEN` to the id `q`, if it makes it ready. A
request that carries an id overwrites the id of the connection; a request that carries none, and a
response, leave it alone unless it is zero. -/
def KcpConnection.Suits {κ : Type*} (c : KcpConnection κ) (serverConvIndex : UInt32)
    (head : KcpMsgHead) (q : UInt32) : Prop :=
  match head.type with
  | some .shakehandRequest =>
    if head.conv ≠ 0 then head.conv = q
    else if c.cid ≠ 0 then c.cid = q
    else c.isPassive = true → serverConvIndex = 0 ∨ serverConvIndex = q
  | some .shakehandResponse => if c.cid ≠ 0 then c.cid = q else head.conv = q
  | _ => True

variable {κ : Type*} {lib : Ikcp κ}

theorem KcpConnection.suits_request {c : KcpConnection κ} {serverConvIndex q : UInt32}
    {head : KcpMsgHead} (htype : head.type = some .shakehandRequest) :
    c.Suits serverConvIndex head q ↔ c.requestedId serverConvIndex head.conv = 0
      ∨ c.requestedId serverConvIndex head.conv = q := by
  rw [Suits, htype, requestedId]
  by_cases hconv : head.conv = 0
  · by_cases hcid : c.cid = 0
    · by_cases hp : c.isPassive = true
      · simp [hconv, hcid, hp]
      · simp [hconv, hcid, hp]
    · simp [hconv, hcid]
  · simp [hconv]

theorem KcpConnection.suits_response {c : KcpConnection κ} {serverConvIndex q : UInt32}
    {head : KcpMsgHead} (htype : head.type = some .shakehandResponse) :
    c.Suits serverConvIndex head q ↔ (if c.cid = 0 then head.conv else c.cid) = q := by
  rw [Suits, htype]
  by_cases hcid : c.cid = 0
  · simp [hcid]
  · simp [hcid]

theorem KcpConnection.suits_other {c : KcpConnection κ} {serverConvIndex q : UInt32}
    {head : KcpMsgHead} (hreq : head.type ≠ some .shakehandRequest)
    (hrsp : head.type ≠ some .shakehandResponse) : c.Suits serverConvIndex head q := by
  rw [Suits]
  split
  · exact absurd ‹_› hreq
  · exact absurd ‹_› hrsp
  · trivial

theorem KcpConnection.suits_iff {c : KcpConnection κ} {serverConvIndex q : UInt32}
    {head : KcpMsgHead} : c.Suits serverConvIndex head q ↔
      (head.type = some .shakehandRequest → c.requestedId serverConvIndex head.conv = 0
        ∨ c.requestedId serverConvIndex head.conv = q)
      ∧ (head.type = some .shakehandResponse →
        (if c.cid = 0 then head.conv else c.cid) = q) := by
  by_cases hreq : head.type = some .shakehandRequest
  · simp [suits_request hreq, hreq]
  · by_cases hrsp : head.type = some .shakehandResponse
    · simp [suits_response hrsp, hrsp]
    · simp [suits_other hreq hrsp, hreq, hrsp]

instance KcpConnection.decidableSuits (c : KcpConnection κ) (serverConvIndex : UInt32)
    (head : KcpMsgHead) (q : UInt32) : Decidable (c.Suits serverConvIndex head q) :=
  decidable_of_iff _ suits_iff.symm

/-- **A handshake message at an open end.** Either it makes the end ready with an id, and suits the
ids equal to it, or it does not make it ready. -/
theorem KcpConnection.receive_suits (lib : Ikcp κ) {c : KcpConnection κ}
    (serverConvIndex q : UInt32) {d : List UInt8} (hopen : c.connStatus = .opened)
    (hd : Harmless d) :
    (∃ id, id ≠ 0 ∧ ReadyWith lib (c.receive lib serverConvIndex (.ofBytes d) d) id
        ∧ (c.Suits serverConvIndex (.ofBytes d) q ↔ id = q))
      ∨ Unready c (c.receive lib serverConvIndex (.ofBytes d) d)
        ∧ c.Suits serverConvIndex (.ofBytes d) q := by
  rw [receive_of_open lib hopen]
  rcases htype : (KcpMsgHead.ofBytes d).type with _ | t
  · exact .inr ⟨⟨rfl, harmless_shakehandRequest c 0⟩,
      suits_other (by simp [htype]) (by simp [htype])⟩
  cases t with
  | shakehandRequest =>
    rw [suits_request htype]
    by_cases hid : c.requestedId serverConvIndex (KcpMsgHead.ofBytes d).conv = 0
    · exact .inr ⟨requestOnOpen_unready hid, .inl hid⟩
    · refine .inl ⟨_, hid, requestOnOpen_readyWith hid, ?_⟩
      exact ⟨fun h ↦ h.resolve_left hid, .inr⟩
  | shakehandResponse =>
    refine .inl ⟨if c.cid = 0 then (KcpMsgHead.ofBytes d).conv else c.cid, ?_, ?_,
      suits_response htype⟩
    · split_ifs with hcid
      · exact hd htype
      · exact hcid
    · dsimp only
      split_ifs
      · exact ⟨rfl, rfl, congrArg some (lib.conv_create _), by simp⟩
      · exact ⟨rfl, rfl, congrArg some (lib.conv_create _), by simp⟩
  | heartbeat =>
    exact .inr ⟨⟨rfl, by simp⟩, suits_other (by simp [htype]) (by simp [htype])⟩
  | goodbye =>
    exact .inr ⟨⟨rfl, harmless_shakehandRequest c 0⟩,
      suits_other (by simp [htype]) (by simp [htype])⟩

namespace World

/-- A datagram that reaches an end in `CONN_OPEN` while the other end is ready suits the id of the
other end. -/
def Orderly (w : World κ) : Action → Prop
  | .deliver e i cid =>
    ∀ d ∈ (w.net e)[i]?, ∀ c ∈ w.receiver e cid, ∀ p ∈ w.conn e.other,
      c.connStatus = .opened → p.connStatus = .kcpReady →
        c.Suits w.serverConvIndex (.ofBytes d) p.cid
  | _ => True

instance decidableOrderly (w : World κ) : ∀ a, Decidable (Orderly w a)
  | .deliver e i cid => inferInstanceAs (Decidable (∀ d ∈ (w.net e)[i]?, ∀ c ∈ w.receiver e cid,
      ∀ p ∈ w.conn e.other, c.connStatus = .opened → p.connStatus = .kcpReady →
        c.Suits w.serverConvIndex (.ofBytes d) p.cid))
  | .lose _ _ | .duplicate _ _ | .send _ _ | .tick _ _ | .heartbeat _ _ | .disconnect _
  | .disconnectDone _ | .restartClient _ _ | .restartServer | .allocate => isTrue trivial

/-- The invariant of orderly runs. -/
structure Inv (lib : Ikcp κ) (w : World κ) : Prop where
  sound : ∀ e c, w.conn e = some c → c.Sound lib
  harmless : ∀ e, ∀ d ∈ w.net e, KcpConnection.Harmless d
  agree : ∀ e c p, w.conn e = some c → w.conn e.other = some p →
    c.connStatus = .kcpReady → p.connStatus = .kcpReady → c.cid = p.cid

variable {w : World κ} {e : Side} {c p : KcpConnection κ} {sent : List (List UInt8)}

theorem conn_act_self : (w.act e c sent).conn e = some c := Function.update_self _ _ _

theorem conn_act_other : (w.act e c sent).conn e.other = w.conn e.other :=
  Function.update_of_ne e.other_ne _ _

theorem mem_net_act_cases {e' : Side} {d : List UInt8} (h : d ∈ (w.act e c sent).net e') :
    d ∈ w.net e' ∨ e' = e.other ∧ d ∈ sent := by
  rcases e.eq_or_eq_other e' with rfl | rfl
  · have hnet : (w.act e' c sent).net e' = w.net e' := Function.update_of_ne e'.other_ne.symm _ _
    exact .inl (hnet ▸ h)
  · have hnet : (w.act e c sent).net e.other = w.net e.other ++ sent := Function.update_self _ _ _
    exact (List.mem_append.mp (hnet ▸ h)).imp id fun hsent ↦ ⟨rfl, hsent⟩

theorem mem_net_act {e' : Side} {d : List UInt8} (h : d ∈ (w.act e c sent).net e') :
    d ∈ w.net e' ∨ d ∈ sent :=
  (mem_net_act_cases h).imp id And.right

theorem Inv.act (h : Inv lib w) (hs : c.Sound lib) (hsent : ∀ d ∈ sent, KcpConnection.Harmless d)
    (hagree : ∀ p, w.conn e.other = some p → c.connStatus = .kcpReady →
      p.connStatus = .kcpReady → c.cid = p.cid) : Inv lib (w.act e c sent) := by
  refine ⟨?_, ?_, ?_⟩
  · intro e' c' hc'
    rcases e.eq_or_eq_other e' with rfl | rfl
    · rw [conn_act_self] at hc'
      exact Option.some.inj hc' ▸ hs
    · rw [conn_act_other] at hc'
      exact h.sound _ c' hc'
  · intro e' d hd
    rcases mem_net_act hd with hd | hd
    · exact h.harmless _ d hd
    · exact hsent d hd
  · intro e' c' p hc' hp hrc hrp
    rcases e.eq_or_eq_other e' with rfl | rfl
    · rw [conn_act_self] at hc'
      rw [conn_act_other] at hp
      obtain rfl := Option.some.inj hc'
      exact hagree p hp hrc hrp
    · rw [conn_act_other] at hc'
      rw [Side.other_other, conn_act_self] at hp
      obtain rfl := Option.some.inj hp
      exact (hagree c' hc' hrp hrc).symm

theorem Inv.act_keeps (h : Inv lib w) (hc : w.conn e = some p) (hkeeps : p.Keeps lib c)
    (hsent : ∀ d ∈ sent, KcpConnection.Harmless d) : Inv lib (w.act e c sent) := by
  refine h.act (hkeeps.sound (h.sound e p hc)) hsent fun q hq hrc hrq ↦ ?_
  obtain ⟨hrp, hcid, -⟩ := hkeeps hrc
  exact hcid.trans (h.agree e p q hc hq hrp hrq)

theorem mem_of_mem_repeated {l : List (List UInt8)} {i : ℕ} {d x : List UInt8}
    (hd : l[i]? = some d) (hx : x ∈ l ++ [d]) : x ∈ l := by
  rcases List.mem_append.mp hx with hx | hx
  · exact hx
  · exact List.mem_singleton.mp hx ▸ List.mem_of_getElem? hd

theorem Inv.update_net (h : Inv lib w) {l : List (List UInt8)} (hl : ∀ d ∈ l, d ∈ w.net e)
    (serverConvIndex : UInt32) :
    Inv lib ⟨w.conn, Function.update w.net e l, serverConvIndex⟩ := by
  refine ⟨h.sound, fun e' d hd ↦ ?_, h.agree⟩
  replace hd : d ∈ Function.update w.net e l e' := hd
  by_cases he : e' = e
  · subst he
    rw [Function.update_self] at hd
    exact h.harmless _ d (hl d hd)
  · rw [Function.update_of_ne he] at hd
    exact h.harmless _ d hd

theorem Inv.agreed (h : Inv lib w) : AgreedUnderLoss lib w := by
  intro net _ c s hc hs hrc hrs _
  have hcid := h.agree .client c s hc hs hrc hrs
  exact ⟨c.cid, (h.sound _ c hc hrc).2, hcid ▸ (h.sound _ s hs hrs).2⟩

/-- When everything in flight is lost, two ready ends have the same conversation. -/
theorem AgreedUnderLoss.conv_eq (h : AgreedUnderLoss lib w) (hc : w.conn e = some c)
    (hp : w.conn e.other = some p) (hrc : c.connStatus = .kcpReady)
    (hrp : p.connStatus = .kcpReady) : c.kcp.map lib.conv = p.kcp.map lib.conv := by
  have hlost := h (fun _ ↦ []) fun _ ↦ List.nil_sublist _
  cases e with
  | client =>
    obtain ⟨conv, hcc, hpc⟩ := hlost c p hc hp hrc hrp (by simp)
    rw [hcc, hpc]
  | server =>
    obtain ⟨conv, hpc, hcc⟩ := hlost p c hp hc hrp hrc (by simp)
    rw [hcc, hpc]

theorem Inv.receiver (h : Inv lib w) {cid : UInt32} (hc : w.receiver e cid = some c) :
    c.Sound lib ∧ (c.connStatus = .kcpReady → w.conn e = some c) := by
  rw [World.receiver.eq_def] at hc
  split at hc
  · split_ifs at hc
    obtain rfl := Option.some.inj hc
    exact ⟨h.sound _ _ ‹_›, fun _ ↦ ‹_›⟩
  · obtain rfl := Option.some.inj hc
    have hopen : (KcpConnection.listening cid : KcpConnection κ).connStatus ≠ .kcpReady := by
      simp [KcpConnection.listening]
    exact ⟨fun hr ↦ absurd hr hopen, fun hr ↦ absurd hr hopen⟩
  · exact absurd hc (by simp)

theorem Inv.connect (h : Inv lib w) (cid : UInt32) (reconn : Bool) :
    Inv lib (w.connect cid reconn) := by
  have hopen : (KcpConnection.connecting cid reconn : KcpConnection κ).connStatus ≠ .kcpReady := by
    simp [KcpConnection.connecting]
  exact h.act (fun hr ↦ absurd hr hopen) (KcpConnection.harmless_shakehandRequest _ 0)
    fun _ _ hr _ ↦ absurd hr hopen

theorem Inv.restartServer (h : Inv lib w) (serverConvIndex : UInt32) :
    Inv lib ⟨Function.update w.conn .server none, w.net, serverConvIndex⟩ := by
  have hconn : ∀ e c, Function.update w.conn .server none e = some c → w.conn e = some c := by
    intro e c hc
    cases e with
    | client => rwa [Function.update_of_ne (by decide)] at hc
    | server =>
      rw [Function.update_self] at hc
      exact absurd hc (by simp)
  exact ⟨fun e c hc ↦ h.sound e c (hconn e c hc), h.harmless,
    fun e c p hc hp ↦ h.agree e c p (hconn e c hc) (hconn _ p hp)⟩

theorem inv_start (lib : Ikcp κ) (cid : UInt32) (reconn : Bool) : Inv lib (start cid reconn) :=
  Inv.connect ⟨by simp, by simp, by simp⟩ cid reconn

theorem receive_sound (serverConvIndex : UInt32) {d : List UInt8} (hs : c.Sound lib)
    (hd : KcpConnection.Harmless d) :
    (c.receive lib serverConvIndex (.ofBytes d) d).conn.Sound lib
      ∧ ∀ x ∈ (c.receive lib serverConvIndex (.ofBytes d) d).sent, KcpConnection.Harmless x := by
  have hwith : ∀ {r : KcpConnection.Checked κ} {id : UInt32}, id ≠ 0 →
      KcpConnection.ReadyWith lib r id →
        r.conn.Sound lib ∧ ∀ x ∈ r.sent, KcpConnection.Harmless x := by
    intro r id hid h
    exact ⟨fun _ ↦ by rw [h.cid]; exact ⟨hid, h.conv⟩, h.sent hid⟩
  have hwithout : ∀ {r : KcpConnection.Checked κ}, c.connStatus ≠ .kcpReady → c.Unready r →
      r.conn.Sound lib ∧ ∀ x ∈ r.sent, KcpConnection.Harmless x := by
    intro r hr h
    exact ⟨fun hready ↦ absurd (h.status.symm.trans hready) hr, h.sent⟩
  by_cases hready : c.connStatus = .kcpReady
  · exact hwith (hs hready).1 (KcpConnection.receive_of_ready hready hs _ _ _)
  · by_cases hopen : c.connStatus = .opened
    · rcases KcpConnection.receive_suits lib serverConvIndex 0 hopen hd with
        ⟨id, hid, h, -⟩ | ⟨h, -⟩
      · exact hwith hid h
      · exact hwithout hready h
    · exact hwithout hready (KcpConnection.receive_of_inactive lib hopen hready _ _ _)

theorem step_deliver {e : Side} {i : ℕ} {cid : UInt32} {t : World κ}
    (hstep : (system lib).step w (.deliver e i cid) = some t) :
    ∃ d c, (w.net e)[i]? = some d ∧ w.receiver e cid = some c
      ∧ t = (World.mk w.conn (Function.update w.net e ((w.net e).eraseIdx i))
          (c.receive lib w.serverConvIndex (.ofBytes d) d).serverConvIndex).act e
        (c.receive lib w.serverConvIndex (.ofBytes d) d).conn
        (c.receive lib w.serverConvIndex (.ofBytes d) d).sent := by
  simp only [system, step] at hstep
  split at hstep
  · exact ⟨_, _, ‹_›, ‹_›, (Option.some.inj hstep).symm⟩
  · exact absurd hstep (by simp)

/-- **A datagram arrives.** The invariant is kept when it suits, and only then do the ends agree. -/
theorem Inv.deliver (h : Inv lib w) {i : ℕ} {cid : UInt32} {t : World κ}
    (hstep : (system lib).step w (.deliver e i cid) = some t) :
    (Orderly w (.deliver e i cid) → Inv lib t)
      ∧ (AgreedUnderLoss lib t → Orderly w (.deliver e i cid)) := by
  obtain ⟨d, c, hd, hc, rfl⟩ := step_deliver hstep
  obtain ⟨hsound, hold⟩ := h.receiver hc
  have hharm := h.harmless e d (List.mem_of_getElem? hd)
  constructor
  · intro horderly
    obtain ⟨hsound', hsent⟩ := receive_sound w.serverConvIndex hsound hharm
    refine (h.update_net (fun x hx ↦ List.mem_of_mem_eraseIdx hx) _).act hsound' hsent ?_
    intro p hp hr hrp
    by_cases hready : c.connStatus = .kcpReady
    · rw [(KcpConnection.receive_of_ready hready hsound _ _ _).cid]
      exact h.agree e c p (hold hready) hp hready hrp
    · by_cases hopen : c.connStatus = .opened
      · have hsuit := horderly d hd c hc p hp hopen hrp
        rcases KcpConnection.receive_suits lib w.serverConvIndex p.cid hopen hharm with
          ⟨id, -, hw, hiff⟩ | ⟨hu, -⟩
        · rw [hw.cid]
          exact hiff.mp hsuit
        · exact absurd (hu.status.symm.trans hr) hready
      · have hu := KcpConnection.receive_of_inactive lib hopen hready w.serverConvIndex
          (.ofBytes d) d
        exact absurd (hu.status.symm.trans hr) hready
  · intro hagreed d' hd' c' hc' p hp hopen hrp
    obtain rfl := Option.some.inj (hd.symm.trans hd')
    obtain rfl := Option.some.inj (hc.symm.trans hc')
    rcases KcpConnection.receive_suits lib w.serverConvIndex p.cid hopen hharm with
      ⟨id, -, hw, hiff⟩ | ⟨-, hsuit⟩
    · have hconv := hagreed.conv_eq conn_act_self (conn_act_other.trans hp) hw.ready hrp
      rw [hw.conv, (h.sound _ p hp hrp).2] at hconv
      exact hiff.mpr (Option.some.inj hconv)
    · exact hsuit

theorem Inv.step_of_not_deliver (h : Inv lib w) {a : Action} {t : World κ}
    (ha : ∀ e i cid, a ≠ .deliver e i cid) (hstep : (system lib).step w a = some t) :
    Inv lib t := by
  simp only [system, step] at hstep
  cases a with
  | deliver e i cid => exact absurd rfl (ha e i cid)
  | lose e i =>
    obtain rfl := Option.some.inj hstep
    exact h.update_net (fun x hx ↦ List.mem_of_mem_eraseIdx hx) _
  | duplicate e i =>
    obtain ⟨d, hd, rfl⟩ := Option.map_eq_some_iff.mp hstep
    exact h.update_net (fun x hx ↦ mem_of_mem_repeated hd hx) _
  | send e data =>
    obtain ⟨c, hc, rfl⟩ := Option.map_eq_some_iff.mp hstep
    obtain ⟨hkeeps, hsent⟩ := KcpConnection.keeps_send lib c data
    exact h.act_keeps hc hkeeps hsent
  | tick e now =>
    obtain ⟨c, hc, hsome⟩ := Option.bind_eq_some_iff.mp hstep
    split_ifs at hsome
    obtain rfl := Option.some.inj hsome
    obtain ⟨hkeeps, hsent⟩ := KcpConnection.keeps_tick lib c now
    exact h.act_keeps hc hkeeps hsent
  | heartbeat e elapseTime =>
    obtain ⟨c, hc, hsome⟩ := Option.bind_eq_some_iff.mp hstep
    split_ifs at hsome
    obtain rfl := Option.some.inj hsome
    obtain ⟨hkeeps, hsent⟩ := KcpConnection.keeps_heartbeatFires lib c elapseTime
    exact h.act_keeps hc hkeeps hsent
  | disconnect e =>
    obtain ⟨c, hc, rfl⟩ := Option.map_eq_some_iff.mp hstep
    obtain ⟨hkeeps, hsent⟩ := KcpConnection.keeps_disconnect lib c
    exact h.act_keeps hc hkeeps hsent
  | disconnectDone e =>
    obtain ⟨c, hc, hsome⟩ := Option.bind_eq_some_iff.mp hstep
    split_ifs at hsome
    obtain rfl := Option.some.inj hsome
    exact h.act_keeps hc (KcpConnection.keeps_release lib c _) (by simp)
  | restartClient cid reconn =>
    obtain rfl := Option.some.inj hstep
    exact h.connect cid reconn
  | restartServer =>
    obtain rfl := Option.some.inj hstep
    exact h.restartServer _
  | allocate =>
    obtain rfl := Option.some.inj hstep
    exact ⟨h.sound, h.harmless, h.agree⟩

/-- **Agreement.** In a run of the two ends over a network that loses, duplicates and reorders, the
ends agree in every state, whatever is lost of what is in flight, exactly when every datagram that
reaches an open end while the other is ready suits the id of the other. -/
theorem agreed_iff_orderly (lib : Ikcp κ) (cid : UInt32) (reconn : Bool) (as : List Action) :
    (system lib).Throughout (AgreedUnderLoss lib) (start cid reconn) as
      ↔ (system lib).Along Orderly (start cid reconn) as := by
  refine StepSystem.throughout_iff_along_of_invariant (inv_start lib cid reconn)
    (fun w h ↦ h.agreed) ?_ (StepSystem.along_of_forall (fun _ _ ↦ trivial) _ _)
  intro w a t _ h hstep _
  cases a with
  | deliver e i cid => exact h.deliver hstep
  | _ => exact ⟨fun _ ↦ h.step_of_not_deliver (by simp) hstep, fun _ ↦ trivial⟩

/-- An object that has its id and nothing to send or deliver. -/
def bareIkcp : Ikcp UInt32 where
  create id := id
  conv k := k
  send k _ := (k, 0)
  input k _ := (k, -1)
  update k _ := (k, [])
  peeksize _ := -1
  recv k _ := (k, none)
  conv_create _ := rfl
  conv_send _ _ := rfl
  conv_input _ _ := rfl
  conv_update _ _ := rfl
  conv_recv _ _ := rfl
  type_update _ _ _ hd := absurd hd List.not_mem_nil

/-- A client without an id; its request is duplicated, and the copy arrives last. -/
theorem agreed_duplicated_request :
    ∃ w, (system bareIkcp).run (start 0 true)
        [.duplicate .server 0, .deliver .server 0 0, .deliver .client 0 0, .deliver .server 0 0,
          .lose .client 0] = some w
      ∧ (w.conn .client).map (·.connStatus) = some .kcpReady
      ∧ (w.conn .server).map (·.connStatus) = some .kcpReady
      ∧ AgreedUnderLoss bareIkcp w := by
  have hiff := agreed_iff_orderly bareIkcp 0 true
    [.duplicate .server 0, .deliver .server 0 0, .deliver .client 0 0, .deliver .server 0 0,
      .lose .client 0]
  exact ⟨_, rfl, rfl, rfl, (hiff.mpr (by decide)).last rfl⟩

/-- The client is started anew with another id: the server answers with the old one, and the client
takes no notice of it. -/
theorem restarted_client_disagrees :
    ∃ w, (system bareIkcp).run (start 7 true)
        [.deliver .server 0 1025, .deliver .client 0 0, .restartClient 8 true,
          .deliver .server 0 1026, .deliver .client 0 0] = some w
      ∧ ¬Agreed bareIkcp w := by
  refine ⟨_, rfl, fun h ↦ ?_⟩
  obtain ⟨conv, hc, hs⟩ := h _ _ rfl rfl rfl rfl (by intro e; cases e <;> decide)
  have hconv : (8 : UInt32) = 7 := (Option.some.inj hc).trans (Option.some.inj hs).symm
  exact absurd hconv (by decide)

end World

end Knet.Kcp
