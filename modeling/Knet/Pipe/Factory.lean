import Knet.Lib.StepSystem
import Knet.Pipe.Protocol
import Mathlib.Logic.Function.Basic
import Mathlib.Tactic.Simps.Basic

/-!
# Pipe factories

A `PipeFactory` ties pipe sessions to connections. A session knows its connection and a connection
its session; `bind` writes both pointers and sets the flag of the session, and the flag is all that
`unbind` clears. Sessions are found by their id in `bind_pipes` and, as long as they have none, by
their connection in `unbind_pipes`.

The objects are kept in two heaps, the sessions under the number of their construction and the
connections under their `cid`. A handler returns the factory after it and what it did to the
outside, in order.
-/

namespace Knet.Pipe

open Knet.Tcp

/-! ## Messages -/

/-- A package as `handle_data` sees it: type, body and the number for the user. -/
structure PipeMsg where
  type : ℕ
  body : List UInt8
  data : ℕ := 0
  deriving DecidableEq, Repr

namespace PipeMsg

/-- The message in a package, unless the package is too short for what its head says. -/
def read (d : List UInt8) : Option PipeMsg :=
  let msg := PipeMsgHead.read d
  if d.length < msg.length + PipeMsgHead.size then none
  else some ⟨msg.type, (d.drop PipeMsgHead.size).take msg.length, msg.data⟩

/-- The package that a message is sent as. -/
def bytes (msg : PipeMsg) : List UInt8 :=
  (PipeMsgHead.mk msg.body.length msg.type msg.data).bytes ++ msg.body

/-- The message of `send_shakehand`, and of the answers to it. -/
def shakeHand (pipeId : List UInt8) : PipeMsg := ⟨PipeMsgType.shakeHand.code, pipeId, 0⟩

/-- The message of `send_heartbeat`. -/
def heartBeat (msg : List UInt8) : PipeMsg := ⟨PipeMsgType.heartBeat.code, msg, 0⟩

end PipeMsg

/-! ## Objects -/

/-- `PipeSession`, less its handlers and its peer's address. -/
structure PipeSession where
  pipeId : List UInt8 := []
  readyFlag : Bool := false
  /-- The `cid` of the connection. -/
  connection : Option ℕ := none
  deriving DecidableEq, Repr

/-- What the factory can tell of the socket of a connection. -/
inductive Phase
  /-- There is no connection with this `cid`. -/
  | absent
  /-- Not open, and nothing to report. -/
  | idle
  | opened
  /-- Not open, with `EVT_DISCONNECT` still to be delivered. -/
  | closing
  deriving DecidableEq, Repr

/-- `PipeConnection`. -/
structure PipeConnection where
  passive : Bool := true
  phase : Phase := .absent
  /-- The number of the session. -/
  session : Option ℕ := none
  pipeid : List UInt8 := []
  deriving DecidableEq, Repr

/-- `is_connected`. -/
def PipeConnection.isConnected (conn : PipeConnection) : Bool := decide (conn.phase = .opened)

/-- `PipeFactory` with the objects it knows. -/
structure PipeFactory where
  sessions : ℕ → PipeSession := fun _ ↦ {}
  /-- How many sessions were constructed. -/
  sessionCount : ℕ := 0
  connections : ℕ → PipeConnection := fun _ ↦ {}
  bindPipes : List UInt8 → Option ℕ := fun _ ↦ none
  unbindPipes : ℕ → Option ℕ := fun _ ↦ none
  /-- `pid_index`, a static variable of `generate_id`. -/
  pidIndex : UInt64 := 0

/-- What a handler does to the outside. -/
inductive Effect
  /-- A message goes out on a connection. -/
  | send (cid : ℕ) (msg : PipeMsg)
  /-- `close` of a connection is called. -/
  | close (cid : ℕ)
  /-- `bind` of a session is called with a connection. -/
  | bind (session cid : ℕ)
  /-- `handle_event` of a session is called. -/
  | event (session : ℕ) (evt : NetEvent)
  /-- `handle_message` of a session is called. -/
  | message (session : ℕ) (body : List UInt8) (obdata : ℕ)
  /-- `on_ready` of a session is called: it starts the timer for the heartbeats. -/
  | onReady (session : ℕ)
  deriving DecidableEq, Repr

namespace PipeFactory

/-! ## What handlers write -/

section Writes

variable (f : PipeFactory)

/-- Changes a session. -/
@[simps sessionCount connections bindPipes unbindPipes pidIndex]
def modifySession (session : ℕ) (change : PipeSession → PipeSession) : PipeFactory :=
  { f with sessions := Function.update f.sessions session (change (f.sessions session)) }

/-- Changes a connection. -/
@[simps sessions sessionCount bindPipes unbindPipes pidIndex]
def modifyConnection (cid : ℕ) (change : PipeConnection → PipeConnection) : PipeFactory :=
  { f with connections := Function.update f.connections cid (change (f.connections cid)) }

/-- `add_connection` of the connector constructs a connection. -/
def addConnection (cid : ℕ) (pipeId : List UInt8) : PipeFactory :=
  f.modifyConnection cid fun _ ↦ ⟨false, .idle, none, pipeId⟩

/-- The listener constructs a connection for a socket that is open. -/
def acceptConnection (cid : ℕ) : PipeFactory :=
  f.modifyConnection cid fun _ ↦ ⟨true, .opened, none, []⟩

/-- The socket of a connection moves. -/
def setPhase (cid : ℕ) (phase : Phase) : PipeFactory :=
  f.modifyConnection cid fun conn ↦ { conn with phase := phase }

/-- `std::make_shared<PipeSession>(pipeId)`; the number of the session is the old count. -/
@[simps sessionCount connections bindPipes unbindPipes pidIndex]
def newSession (pipeId : List UInt8) : PipeFactory :=
  { f with sessions := Function.update f.sessions f.sessionCount ⟨pipeId, false, none⟩,
           sessionCount := f.sessionCount + 1 }

/-- `PipeSession::bind`. -/
@[simps! sessionCount bindPipes unbindPipes pidIndex]
def bind (session cid : ℕ) : PipeFactory :=
  (f.modifySession session fun s ↦ { s with connection := some cid, readyFlag := true })
    |>.modifyConnection cid fun conn ↦
      { conn with pipeid := (f.sessions session).pipeId, session := some session }

/-- `PipeSession::unbind`. -/
@[simps! sessionCount connections bindPipes unbindPipes pidIndex]
def unbind (session : ℕ) : PipeFactory :=
  f.modifySession session fun s ↦ { s with readyFlag := false }

/-- `PipeSession::update_pipeid`. -/
@[simps! sessionCount connections bindPipes unbindPipes pidIndex]
def updatePipeid (session : ℕ) (pid : List UInt8) : PipeFactory :=
  f.modifySession session fun s ↦ if s.pipeId = [] then { s with pipeId := pid } else s

/-- `add_unbind_pipe`. -/
@[simps sessions sessionCount connections bindPipes pidIndex]
def addUnbindPipe (cid session : ℕ) : PipeFactory :=
  { f with unbindPipes := Function.update f.unbindPipes cid (some session) }

/-- `remove_unbind_pipe`. -/
@[simps sessions sessionCount connections bindPipes pidIndex]
def removeUnbindPipe (cid : ℕ) : PipeFactory :=
  { f with unbindPipes := Function.update f.unbindPipes cid none }

/-- `add_bind_pipe`. -/
@[simps sessions sessionCount connections unbindPipes pidIndex]
def addBindPipe (pipeId : List UInt8) (session : ℕ) : PipeFactory :=
  { f with bindPipes := Function.update f.bindPipes pipeId (some session) }

/-- `register_pipe`. -/
def registerPipe (pipe cid : ℕ) : PipeFactory :=
  if (f.sessions pipe).pipeId = [] then
    if cid ≠ 0 then f.addUnbindPipe cid pipe else f
  else f.addBindPipe (f.sessions pipe).pipeId pipe

/-- The id that `generate_id` returns. -/
def generatedId (index : UInt64) : List UInt8 :=
  [112, 105, 100] ++ (Nat.toDigits 10 index.toNat).map fun c ↦ c.toNat.toUInt8

/-- `generate_id` counts up. -/
@[simps sessions sessionCount connections bindPipes unbindPipes pidIndex]
def countId : PipeFactory := { f with pidIndex := f.pidIndex + 1 }

end Writes

/-! ## What handlers read -/

section Reads

variable (f : PipeFactory)

/-- `is_connected` of a connection. -/
def isConnected (cid : ℕ) : Bool := (f.connections cid).isConnected

/-- `PipeSession::is_ready`. -/
def isReady (session : ℕ) : Bool :=
  (f.sessions session).readyFlag && (f.sessions session).connection.any f.isConnected

/-- `msend` of a connection: nothing goes out unless it is open. -/
def msend (cid : ℕ) (msg : PipeMsg) : List Effect :=
  if f.isConnected cid then [.send cid msg] else []

end Reads

/-! ## Handlers -/

/-- `process_server_handshake`. -/
def processServerHandshake (f : PipeFactory) (cid : ℕ) (body : List UInt8) :
    PipeFactory × List Effect :=
  if body ≠ [] then
    match f.bindPipes body with
    | some pipe =>
      if f.isReady pipe then (f, [])
      else
        let g := f.bind pipe cid
        (g, .bind pipe cid :: g.msend cid (.shakeHand body)
          ++ [.onReady pipe, .event pipe .connect])
    | none => (f, [.close cid])
  else
    let pipeId := generatedId f.pidIndex
    match f.unbindPipes cid with
    | some session =>
      let g := f.countId.updatePipeid session pipeId
      (g, g.msend cid (.shakeHand pipeId) ++ [.event session .connect])
    | none =>
      let session := f.sessionCount
      let g := ((f.countId.newSession []).bind session cid).addUnbindPipe cid session
      (g, .bind session cid :: g.msend cid (.shakeHand pipeId) ++ [.event session .connect])

/-- `process_client_handshake`. -/
def processClientHandshake (f : PipeFactory) (cid : ℕ) (body : List UInt8) :
    PipeFactory × List Effect :=
  if body ≠ [] then
    match f.bindPipes body with
    | some session =>
      if f.isReady session then (f, [])
      else
        ((f.bind session cid).updatePipeid session body,
          [.bind session cid, .event session .connect])
    | none =>
      match f.unbindPipes cid with
      | some session =>
        (((f.bind session cid).updatePipeid session body).addBindPipe body session
            |>.removeUnbindPipe cid,
          [.bind session cid, .event session .connect, .onReady session])
      | none => (f, [.close cid])
  else (f, f.msend cid (.shakeHand (f.connections cid).pipeid))

/-- The part of `handle_data` behind the check of the length. -/
def handleMessage (f : PipeFactory) (cid : ℕ) (msg : PipeMsg) : PipeFactory × List Effect :=
  if msg.type = PipeMsgType.shakeHand.code then
    if (f.connections cid).passive then f.processServerHandshake cid msg.body
    else f.processClientHandshake cid msg.body
  else if msg.type = PipeMsgType.heartBeat.code then
    (f, if (f.connections cid).passive then [] else f.msend cid (.heartBeat []))
  else
    match (f.connections cid).session with
    | some session => (f, [.message session msg.body msg.data])
    | none => (f, if (f.connections cid).passive then f.msend cid (.shakeHand []) else [])

/-- `handle_data`. -/
def handleData (f : PipeFactory) (cid : ℕ) (d : List UInt8) : PipeFactory × List Effect :=
  match PipeMsg.read d with
  | none => (f, [])
  | some msg => f.handleMessage cid msg

/-- The `EVT_CONNECT` branch of `handle_event`, and the session's own. -/
def handleConnect (f : PipeFactory) (cid : ℕ) : PipeFactory × List Effect :=
  (f, (if (f.connections cid).passive then []
      else f.msend cid (.shakeHand (f.connections cid).pipeid))
    ++ (f.connections cid).session.toList.map fun session ↦ .event session .connect)

/-- The `EVT_DISCONNECT` branch of `handle_event`. -/
def handleDisconnect (f : PipeFactory) (cid : ℕ) : PipeFactory × List Effect :=
  match (f.connections cid).session with
  | some session =>
    ((f.unbind session).removeUnbindPipe cid, [.event session .disconnect])
  | none => (f.removeUnbindPipe cid, [])

/-! ## Cases of the handshakes -/

/-- The branches of `process_server_handshake`: the session is taken, it is bound, there is none;
without an id, the connection has a session, or gets one. -/
theorem processServerHandshake_cases (f : PipeFactory) (cid : ℕ) (body : List UInt8) :
    (∃ pipe, body ≠ [] ∧ f.bindPipes body = some pipe ∧ f.isReady pipe = true
      ∧ f.processServerHandshake cid body = (f, []))
    ∨ (∃ pipe, body ≠ [] ∧ f.bindPipes body = some pipe ∧ f.isReady pipe = false
      ∧ f.processServerHandshake cid body
        = (f.bind pipe cid, .bind pipe cid :: (f.bind pipe cid).msend cid (.shakeHand body)
          ++ [.onReady pipe, .event pipe .connect]))
    ∨ (body ≠ [] ∧ f.bindPipes body = none
      ∧ f.processServerHandshake cid body = (f, [.close cid]))
    ∨ (∃ session, body = [] ∧ f.unbindPipes cid = some session
      ∧ f.processServerHandshake cid body
        = (f.countId.updatePipeid session (generatedId f.pidIndex),
          (f.countId.updatePipeid session (generatedId f.pidIndex)).msend cid
            (.shakeHand (generatedId f.pidIndex)) ++ [.event session .connect]))
    ∨ (body = [] ∧ f.unbindPipes cid = none
      ∧ f.processServerHandshake cid body
        = (((f.countId.newSession []).bind f.sessionCount cid).addUnbindPipe cid f.sessionCount,
          .bind f.sessionCount cid
            :: (((f.countId.newSession []).bind f.sessionCount cid).addUnbindPipe cid
              f.sessionCount).msend cid (.shakeHand (generatedId f.pidIndex))
            ++ [.event f.sessionCount .connect])) := by
  by_cases hbody : body = []
  · cases hunbind : f.unbindPipes cid with
    | some session => simp [processServerHandshake, hbody, hunbind]
    | none => simp [processServerHandshake, hbody, hunbind]
  · cases hfound : f.bindPipes body with
    | some pipe =>
      cases hready : f.isReady pipe with
      | true => simp [processServerHandshake, hbody, hfound, hready]
      | false => simp [processServerHandshake, hbody, hfound, hready]
    | none => simp [processServerHandshake, hbody, hfound]

/-- The branches of `process_client_handshake`: the session is taken, it is bound, a session waits
for the connection, there is none; and a handshake without an id. -/
theorem processClientHandshake_cases (f : PipeFactory) (cid : ℕ) (body : List UInt8) :
    (∃ session, body ≠ [] ∧ f.bindPipes body = some session ∧ f.isReady session = true
      ∧ f.processClientHandshake cid body = (f, []))
    ∨ (∃ session, body ≠ [] ∧ f.bindPipes body = some session ∧ f.isReady session = false
      ∧ f.processClientHandshake cid body
        = ((f.bind session cid).updatePipeid session body,
          [.bind session cid, .event session .connect]))
    ∨ (∃ session, body ≠ [] ∧ f.bindPipes body = none ∧ f.unbindPipes cid = some session
      ∧ f.processClientHandshake cid body
        = ((((f.bind session cid).updatePipeid session body).addBindPipe body
            session).removeUnbindPipe cid,
          [.bind session cid, .event session .connect, .onReady session]))
    ∨ (body ≠ [] ∧ f.bindPipes body = none ∧ f.unbindPipes cid = none
      ∧ f.processClientHandshake cid body = (f, [.close cid]))
    ∨ (body = [] ∧ f.processClientHandshake cid body
        = (f, f.msend cid (.shakeHand (f.connections cid).pipeid))) := by
  by_cases hbody : body = []
  · simp [processClientHandshake, hbody]
  · cases hfound : f.bindPipes body with
    | some session =>
      cases hready : f.isReady session with
      | true => simp [processClientHandshake, hbody, hfound, hready]
      | false => simp [processClientHandshake, hbody, hfound, hready]
    | none =>
      cases hunbind : f.unbindPipes cid with
      | some session => simp [processClientHandshake, hbody, hfound, hunbind]
      | none => simp [processClientHandshake, hbody, hfound, hunbind]

theorem handleMessage_server {f : PipeFactory} {cid : ℕ} {msg : PipeMsg}
    (htype : msg.type = PipeMsgType.shakeHand.code)
    (hpassive : (f.connections cid).passive = true) :
    f.handleMessage cid msg = f.processServerHandshake cid msg.body := by
  rw [handleMessage, if_pos htype, if_pos hpassive]

theorem handleMessage_client {f : PipeFactory} {cid : ℕ} {msg : PipeMsg}
    (htype : msg.type = PipeMsgType.shakeHand.code)
    (hactive : (f.connections cid).passive = false) :
    f.handleMessage cid msg = f.processClientHandshake cid msg.body := by
  rw [handleMessage, if_pos htype, if_neg (by simp [hactive])]

theorem handleMessage_of_ne {f : PipeFactory} {cid : ℕ} {msg : PipeMsg}
    (htype : msg.type ≠ PipeMsgType.shakeHand.code) : (f.handleMessage cid msg).1 = f := by
  rw [handleMessage, if_neg htype]
  by_cases hheart : msg.type = PipeMsgType.heartBeat.code
  · rw [if_pos hheart]
  · rw [if_neg hheart]
    cases (f.connections cid).session <;> rfl

/-! ## Fields after a write -/

section Fields

variable (f : PipeFactory) (session cid : ℕ) (pid : List UInt8)

@[simp] theorem sessions_bind (s : ℕ) : (f.bind session cid).sessions s
    = if s = session then { f.sessions s with connection := some cid, readyFlag := true }
      else f.sessions s := by
  by_cases h : s = session
  · subst h
    simp [bind, modifySession, modifyConnection]
  · simp [bind, modifySession, modifyConnection, h]

@[simp] theorem connections_bind (c : ℕ) : (f.bind session cid).connections c
    = if c = cid then
        { f.connections c with pipeid := (f.sessions session).pipeId, session := some session }
      else f.connections c := by
  by_cases h : c = cid
  · subst h
    simp [bind, modifySession, modifyConnection]
  · simp [bind, modifySession, modifyConnection, h]

@[simp] theorem sessions_unbind (s : ℕ) : (f.unbind session).sessions s
    = if s = session then { f.sessions s with readyFlag := false } else f.sessions s := by
  by_cases h : s = session
  · subst h
    simp [unbind, modifySession]
  · simp [unbind, modifySession, h]

@[simp] theorem sessions_updatePipeid (s : ℕ) : (f.updatePipeid session pid).sessions s
    = if s = session ∧ (f.sessions s).pipeId = [] then { f.sessions s with pipeId := pid }
      else f.sessions s := by
  by_cases h : s = session
  · subst h
    simp [updatePipeid, modifySession]
  · simp [updatePipeid, modifySession, h]

@[simp] theorem sessions_newSession (s : ℕ) : (f.newSession pid).sessions s
    = if s = f.sessionCount then ⟨pid, false, none⟩ else f.sessions s := by
  simp [newSession, Function.update_apply]

@[simp] theorem connections_modifyConnection (change : PipeConnection → PipeConnection) (c : ℕ) :
    (f.modifyConnection cid change).connections c
      = if c = cid then change (f.connections c) else f.connections c := by
  by_cases h : c = cid
  · subst h
    simp [modifyConnection]
  · simp [modifyConnection, h]

@[simp] theorem unbindPipes_addUnbindPipe (c : ℕ) : (f.addUnbindPipe cid session).unbindPipes c
    = if c = cid then some session else f.unbindPipes c := by
  simp [addUnbindPipe, Function.update_apply]

@[simp] theorem unbindPipes_removeUnbindPipe (c : ℕ) : (f.removeUnbindPipe cid).unbindPipes c
    = if c = cid then none else f.unbindPipes c := by
  simp [removeUnbindPipe, Function.update_apply]

@[simp] theorem bindPipes_addBindPipe (p : List UInt8) : (f.addBindPipe pid session).bindPipes p
    = if p = pid then some session else f.bindPipes p := by
  simp [addBindPipe, Function.update_apply]

end Fields

/-! ## What handlers leave alone -/

@[simp] theorem registerPipe_connections (f : PipeFactory) (pipe cid : ℕ) :
    (f.registerPipe pipe cid).connections = f.connections := by
  rw [registerPipe]
  split_ifs <;> rfl

/-- Two factories whose sockets are in the same state. -/
def SameSockets (f g : PipeFactory) : Prop :=
  ∀ c, (g.connections c).phase = (f.connections c).phase
    ∧ (g.connections c).passive = (f.connections c).passive

theorem sameSockets_bind (f : PipeFactory) (session cid : ℕ) :
    f.SameSockets (f.bind session cid) := by
  intro c
  by_cases h : c = cid
  · simp [h]
  · simp [h]

theorem sameSockets_handleMessage (f : PipeFactory) (cid : ℕ) (msg : PipeMsg) :
    f.SameSockets (f.handleMessage cid msg).1 := by
  by_cases htype : msg.type = PipeMsgType.shakeHand.code
  · cases hpassive : (f.connections cid).passive with
    | true =>
      rw [handleMessage_server htype hpassive]
      rcases f.processServerHandshake_cases cid msg.body with ⟨pipe, -, -, -, heq⟩
        | ⟨pipe, -, -, -, heq⟩ | ⟨-, -, heq⟩ | ⟨session, -, -, heq⟩ | ⟨-, -, heq⟩
      · exact fun c ↦ by simp [heq]
      · rw [heq]
        exact f.sameSockets_bind pipe cid
      · exact fun c ↦ by simp [heq]
      · exact fun c ↦ by simp [heq]
      · rw [heq]
        exact (f.countId.newSession []).sameSockets_bind f.sessionCount cid
    | false =>
      rw [handleMessage_client htype hpassive]
      rcases f.processClientHandshake_cases cid msg.body with ⟨session, -, -, -, heq⟩
        | ⟨session, -, -, -, heq⟩ | ⟨session, -, -, -, heq⟩ | ⟨-, -, -, heq⟩ | ⟨-, heq⟩
      · exact fun c ↦ by simp [heq]
      · rw [heq]
        exact f.sameSockets_bind session cid
      · rw [heq]
        exact f.sameSockets_bind session cid
      · exact fun c ↦ by simp [heq]
      · exact fun c ↦ by simp [heq]
  · exact fun c ↦ by simp [handleMessage_of_ne htype]

theorem handleDisconnect_connections (f : PipeFactory) (cid c : ℕ) :
    (f.handleDisconnect cid).1.connections c = f.connections c := by
  rw [handleDisconnect]
  cases (f.connections cid).session <;> rfl

end PipeFactory

end Knet.Pipe
