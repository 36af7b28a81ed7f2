import Knet.Pipe.Handshake

/-!
# A pipe server and its clients

One server and any number of clients, each with a factory of its own, over connections that lose and
reorder nothing. A connection of a client that is opened again after a disconnect gets a new end on
the server, under a new `cid`; the two queues of messages in flight belong to that end. The server's
old end may still have messages to read, and its answers to them reach nobody.

The parties take the actions of `KPipe`; those that concern the network (a connection is opened, a
message arrives) are taken by the world.
-/

namespace Knet.Pipe

open Knet.Tcp

namespace KPipe

/-- A message arrives. -/
def deliver (k : KPipe) (cid : ℕ) (msg : PipeMsg) : KPipe :=
  { k with factory := (k.factory.handleMessage cid msg).1 }

/-- The connection has not delivered `EVT_DISCONNECT`. -/
def Receiving (k : KPipe) (cid : ℕ) : Prop :=
  (k.factory.connections cid).phase = .opened ∨ (k.factory.connections cid).phase = .closing

instance (k : KPipe) (cid : ℕ) : Decidable (k.Receiving cid) := inferInstanceAs (Decidable (_ ∨ _))

/-- `PipeSession::send`. -/
def send (k : KPipe) (session : ℕ) (body : List UInt8) (obdata : ℕ) : List Effect :=
  if k.factory.isReady session then
    (k.factory.sessions session).connection.elim [] fun cid ↦
      k.factory.msend cid ⟨PipeMsgType.data.code, body, obdata⟩
  else []

/-- What a server does on its own. -/
def Action.ofServer : Action → Bool
  | .construct _ => true
  | .attachPipe _ none => true
  | .leave _ => true
  | .disconnect _ => true
  | .heartbeat _ => true
  | .generate => true
  | _ => false

/-- What a client does on its own. -/
def Action.ofClient : Action → Bool
  | .construct _ => true
  | .attachPipe _ _ => true
  | .attach _ => true
  | .startClient _ _ => true
  | .leave _ => true
  | .disconnect _ => true
  | _ => false

end KPipe

/-- The messages that go out on a connection. -/
def sent (effects : List Effect) (cid : ℕ) : List PipeMsg :=
  effects.filterMap fun
    | .send c msg => if c = cid then some msg else none
    | _ => none

theorem mem_sent {effects : List Effect} {cid : ℕ} {msg : PipeMsg} :
    msg ∈ sent effects cid ↔ .send cid msg ∈ effects := by
  rw [sent, List.mem_filterMap]
  constructor
  · rintro ⟨e, he, hmsg⟩
    cases e with
    | send c m =>
      dsimp only at hmsg
      split_ifs at hmsg with hc
      subst hc
      exact Option.some.inj hmsg ▸ he
    | _ => exact absurd hmsg (by simp)
  · exact fun h ↦ ⟨_, h, if_pos rfl⟩

/-- A server, its clients, and the messages in flight. -/
structure World (ι : Type*) where
  server : KPipe := {}
  client : ι → KPipe := fun _ ↦ {}
  /-- The server's end of the connection of a client. -/
  link : ι → ℕ → Option ℕ := fun _ _ ↦ none
  /-- What is in flight to an end of the server. -/
  toServer : ℕ → List PipeMsg := fun _ ↦ []
  /-- What is in flight from an end of the server. -/
  toClient : ℕ → List PipeMsg := fun _ ↦ []

namespace World

variable {ι : Type*} [DecidableEq ι]

/-- What can happen. -/
inductive Action (ι : Type*)
  | server (a : KPipe.Action)
  | client (i : ι) (a : KPipe.Action)
  /-- A connection of a client is opened, and the server accepts it as `peer`. -/
  | connect (i : ι) (cid peer : ℕ)
  /-- The first message in flight to an end of the server arrives. -/
  | deliverServer (peer : ℕ)
  /-- The first message in flight to a connection of a client arrives. -/
  | deliverClient (i : ι) (cid : ℕ)
  /-- The user of the server sends on a session. -/
  | sendServer (session : ℕ) (body : List UInt8) (obdata : ℕ)
  /-- The user of a client sends on a session. -/
  | sendClient (i : ι) (session : ℕ) (body : List UInt8) (obdata : ℕ)

variable (w : World ι)

/-- When an action can happen. -/
def Enabled : Action ι → Prop
  | .server a => a.ofServer = true ∧ w.server.Enabled a
  | .client i a => a.ofClient = true ∧ (w.client i).Enabled a
  | .connect i cid peer => (w.client i).Enabled (.connected cid) ∧ w.server.Fresh peer
  | .deliverServer peer => w.server.Receiving peer ∧ w.toServer peer ≠ []
  | .deliverClient i cid =>
    (w.client i).Receiving cid ∧ ∃ peer ∈ w.link i cid, w.toClient peer ≠ []
  | _ => True

instance : ∀ a : Action ι, Decidable (w.Enabled a)
  | .server _ => inferInstanceAs (Decidable (_ ∧ _))
  | .client _ _ => inferInstanceAs (Decidable (_ ∧ _))
  | .connect _ _ _ => inferInstanceAs (Decidable (_ ∧ _))
  | .deliverServer _ => inferInstanceAs (Decidable (_ ∧ _))
  | .deliverClient i cid => inferInstanceAs (Decidable ((w.client i).Receiving cid
      ∧ ∃ peer ∈ w.link i cid, w.toClient peer ≠ []))
  | .sendServer _ _ _ => isTrue trivial
  | .sendClient _ _ _ _ => isTrue trivial

/-- The server moves, and its messages go to the clients. -/
def serverDoes (k : KPipe) (effects : List Effect) : World ι :=
  { w with server := k, toClient := fun peer ↦ w.toClient peer ++ sent effects peer }

/-- The messages of a client that go to an end of the server. -/
def clientSent (i : ι) (effects : List Effect) (peer : ℕ) : List PipeMsg :=
  effects.filterMap fun
    | .send c msg => if w.link i c = some peer then some msg else none
    | _ => none

variable {w} in
omit [DecidableEq ι] in
theorem mem_clientSent {i : ι} {effects : List Effect} {peer : ℕ} {msg : PipeMsg} :
    msg ∈ w.clientSent i effects peer ↔ ∃ c, .send c msg ∈ effects ∧ w.link i c = some peer := by
  rw [clientSent, List.mem_filterMap]
  constructor
  · rintro ⟨e, he, hmsg⟩
    cases e with
    | send c m =>
      dsimp only at hmsg
      split_ifs at hmsg with hc
      exact ⟨c, Option.some.inj hmsg ▸ he, hc⟩
    | _ => exact absurd hmsg (by simp)
  · rintro ⟨c, hc, hlink⟩
    exact ⟨_, hc, if_pos hlink⟩

/-- A client moves, and its messages go to the server. -/
def clientDoes (i : ι) (k : KPipe) (effects : List Effect) : World ι :=
  { w with client := Function.update w.client i k,
           toServer := fun peer ↦ w.toServer peer ++ w.clientSent i effects peer }

/-- A connection of a client gets a new end on the server. -/
def relink (i : ι) (cid peer : ℕ) : World ι :=
  { w with server := w.server.act (.accept peer),
           link := Function.update w.link i (Function.update (w.link i) cid (some peer)),
           toServer := Function.update w.toServer peer [],
           toClient := Function.update w.toClient peer [] }

/-- What an action does. -/
def act : Action ι → World ι
  | .server a => w.serverDoes (w.server.act a) (w.server.react a).2
  | .client i a => w.clientDoes i ((w.client i).act a) ((w.client i).react a).2
  | .connect i cid peer =>
    (w.relink i cid peer).clientDoes i ((w.client i).act (.connected cid))
      ((w.client i).react (.connected cid)).2
  | .deliverServer peer =>
    match w.toServer peer with
    | msg :: rest =>
      { w with toServer := Function.update w.toServer peer rest }.serverDoes
        (w.server.deliver peer msg) (w.server.factory.handleMessage peer msg).2
    | [] => w
  | .deliverClient i cid =>
    match w.link i cid with
    | some peer =>
      match w.toClient peer with
      | msg :: rest =>
        { w with toClient := Function.update w.toClient peer rest }.clientDoes i
          ((w.client i).deliver cid msg) ((w.client i).factory.handleMessage cid msg).2
      | [] => w
    | none => w
  | .sendServer session body obdata =>
    w.serverDoes w.server (w.server.send session body obdata)
  | .sendClient i session body obdata =>
    w.clientDoes i (w.client i) ((w.client i).send session body obdata)

/-- A server, its clients and their runs. -/
def system : StepSystem (World ι) (Action ι) :=
  ⟨fun w a ↦ if w.Enabled a then some (w.act a) else none⟩

variable {w} in
theorem step_eq_some {t : World ι} {a : Action ι} :
    system.step w a = some t ↔ w.Enabled a ∧ w.act a = t := by
  simp [system]

end World

end Knet.Pipe
