import Knet.Lib.ReceiveLoop
import Mathlib.Logic.Function.Basic

/-!
# The receive loops of UDP

`UdpListener::do_receive` sorts the datagrams of its socket to connections, by their source, and
`UdpConnection::do_receive` passes everything that reaches its own socket to itself.

What the user hooks into the connections and the listener is a parameter (`Hooks`); an answer may
depend on what the connection has seen so far.
-/

namespace Knet.Udp

/-- `PackageType`. -/
inductive PackageType
  | ping
  | pong
  | user
  deriving DecidableEq, Repr

/-- The events of `NetEvent` that the receive loops deliver. -/
inductive NetEvent
  | create
  | connect
  | recv
  | disconnect
  deriving DecidableEq, Repr

/-- One entry of the history of a connection. -/
inductive Entry
  /-- `handle_event` of the connection was called. -/
  | event (evt : NetEvent)
  /-- `handle_data` of the connection was called. -/
  | data (bytes : List UInt8)
  /-- `process_data` of the connection was called. -/
  | process (bytes : List UInt8)
  /-- `handle_event` of the listener or connector was called for the connection. -/
  | userEvent (evt : NetEvent)
  /-- `handle_data` of the listener or connector was called for the connection. -/
  | userData (bytes : List UInt8)
  deriving DecidableEq, Repr

/-- The virtual functions of a connection and of its owner. The owner's answer is that of its chain
of handlers. -/
structure Hooks where
  handlePackage : List Entry → List UInt8 → PackageType := fun _ _ ↦ .user
  handleEvent : List Entry → NetEvent → Bool := fun _ _ ↦ true
  handleData : List Entry → List UInt8 → Bool := fun _ _ ↦ true
  userEvent : List Entry → NetEvent → Bool := fun _ _ ↦ true
  userData : List Entry → List UInt8 → Bool := fun _ _ ↦ true

/-- A connection, by its history. -/
structure UdpConnection where
  log : List Entry := []
  deriving DecidableEq, Repr

namespace UdpConnection

variable (hooks : Hooks)

/-- `process_event`: the owner first, and the connection if the owner lets it. -/
def processEvent (c : UdpConnection) (evt : NetEvent) : UdpConnection :=
  let log := c.log ++ [.userEvent evt]
  if hooks.userEvent c.log evt then ⟨log ++ [.event evt]⟩ else ⟨log⟩

/-- `process_data`. -/
def processData (c : UdpConnection) (data : List UInt8) : UdpConnection :=
  let log := c.log ++ [.process data, .userData data]
  if hooks.userData c.log data then ⟨log ++ [.data data]⟩ else ⟨log⟩

/-- How the listener delivers an event: to the connection first, and then to itself. -/
def notify (c : UdpConnection) (evt : NetEvent) : UdpConnection :=
  let log := c.log ++ [.event evt]
  if hooks.handleEvent c.log evt then ⟨log ++ [.userEvent evt]⟩ else ⟨log⟩

/-- How the listener delivers data. -/
def deliver (c : UdpConnection) (data : List UInt8) : UdpConnection :=
  let log := c.log ++ [.data data]
  if hooks.handleData c.log data then ⟨log ++ [.userData data]⟩ else ⟨log⟩

/-- The datagrams with which `handle_data` was called. -/
def handed (c : UdpConnection) : List (List UInt8) :=
  c.log.filterMap fun | .data bytes => some bytes | _ => none

/-- The datagrams with which `process_data` was called. -/
def processed (c : UdpConnection) : List (List UInt8) :=
  c.log.filterMap fun | .process bytes => some bytes | _ => none

variable {hooks}

@[simp] theorem handed_notify (c : UdpConnection) (evt : NetEvent) :
    (c.notify hooks evt).handed = c.handed := by
  rw [notify]
  split_ifs <;> simp [handed]

@[simp] theorem handed_processEvent (c : UdpConnection) (evt : NetEvent) :
    (c.processEvent hooks evt).handed = c.handed := by
  rw [processEvent]
  split_ifs <;> simp [handed]

@[simp] theorem handed_deliver (c : UdpConnection) (data : List UInt8) :
    (c.deliver hooks data).handed = c.handed ++ [data] := by
  rw [deliver]
  split_ifs <;> simp [handed]

@[simp] theorem processed_processData (c : UdpConnection) (data : List UInt8) :
    (c.processData hooks data).processed = c.processed ++ [data] := by
  rw [processData]
  split_ifs <;> simp [processed]

/-- `do_receive` of a connected `UdpConnection`. Datagrams from any endpoint are its own. -/
def loop (hooks : Hooks) : ReceiveLoop UdpConnection Unit UInt8 where
  handle c _ d :=
    if hooks.handlePackage c.log d = .user then c.processData hooks d else c
  reject c _ := c
  isUser c _ d := hooks.handlePackage c.log d = .user
  registered _ _ := true
  inbox c _ := c.processed

theorem sorts_loop (hooks : Hooks) : (loop hooks).Sorts := by
  refine ⟨fun c i d j ↦ rfl, fun c i d j ↦ ?_⟩
  by_cases huser : hooks.handlePackage c.log d = .user
  · simp [loop, huser]
  · simp [loop, huser]

end UdpConnection

/-- A listener: the connections by their endpoint. -/
structure UdpListener (ε : Type*) where
  connections : ε → Option UdpConnection

namespace UdpListener

variable {ε : Type*} (hooks : Hooks)

/-- `find_connection`, or the connection that is created and told so at the first contact. -/
def contact (l : UdpListener ε) (pt : ε) : UdpConnection :=
  match l.connections pt with
  | some conn => conn
  | none => (({} : UdpConnection).processEvent hooks .create).notify hooks .connect

/-- What the handler does with a datagram once it has the connection. -/
def handlePackage (conn : UdpConnection) (d : List UInt8) : UdpConnection :=
  if hooks.handlePackage conn.log d = .user then
    (conn.deliver hooks d).notify hooks .recv
  else conn

/-- The datagrams handed to the connection registered for the endpoint. -/
def handed (l : UdpListener ε) (pt : ε) : List (List UInt8) :=
  match l.connections pt with
  | some conn => conn.handed
  | none => []

variable {hooks}

theorem handed_contact (l : UdpListener ε) (pt : ε) :
    (l.contact hooks pt).handed = l.handed pt := by
  rw [contact, handed]
  cases l.connections pt with
  | some conn => rfl
  | none =>
    rw [UdpConnection.handed_notify, UdpConnection.handed_processEvent]
    rfl

theorem handed_handlePackage (conn : UdpConnection) (d : List UInt8) :
    (handlePackage hooks conn d).handed
      = conn.handed ++ if hooks.handlePackage conn.log d = .user then [d] else [] := by
  rw [handlePackage]
  split_ifs
  · simp
  · simp

variable [DecidableEq ε] (hooks)

/-- `do_receive` of a `UdpListener`. -/
def loop : ReceiveLoop (UdpListener ε) ε UInt8 where
  handle l pt d :=
    ⟨Function.update l.connections pt (some (handlePackage hooks (l.contact hooks pt) d))⟩
  reject l pt :=
    match l.connections pt with
    | some conn => ⟨Function.update l.connections pt (some (conn.notify hooks .disconnect))⟩
    | none => l
  isUser l pt d := hooks.handlePackage (l.contact hooks pt).log d = .user
  registered l pt := (l.connections pt).isSome
  inbox l pt := l.handed pt

theorem sorts_loop (hooks : Hooks) : (loop hooks : ReceiveLoop (UdpListener ε) ε UInt8).Sorts := by
  refine ⟨fun l i d j ↦ ?_, fun l i d j ↦ ?_⟩
  · by_cases hj : j = i
    · subst hj
      simp [loop]
    · simp [loop, hj]
  · by_cases hj : j = i
    · subst hj
      simp only [loop, handed, Function.update_self]
      rw [handed_handlePackage, handed_contact, handed]
      simp
    · simp [loop, handed, hj]

end UdpListener

end Knet.Udp
