import Knet.Pipe.Factory

/-!
# Pipes over time

`KPipe` owns a pipe factory, a listener and a connector. What happens to the factory is a sequence
of actions: the user makes sessions and attaches them, connections are opened, leave the status
open, report this by `EVT_DISCONNECT`, and receive packages. Leaving the status open and the
delivery of `EVT_DISCONNECT` are two actions, since `is_ready` of a session can be asked between
them by a handler of another connection.

Two history variables record what a connection was opened for: the id that `add_connection` was
given, and the session that `attach` made for it.
-/

namespace Knet.Pipe

open Knet.Tcp

/-- A `KPipe`, with what its connections were opened for. -/
structure KPipe where
  factory : PipeFactory := {}
  /-- The id that the connection was constructed with. -/
  openedWith : ℕ → List UInt8 := fun _ ↦ []
  /-- The session that `attach(host, port)` made together with the connection. -/
  attached : ℕ → Option ℕ := fun _ ↦ none

namespace KPipe

/-- What can happen. -/
inductive Action
  /-- The user makes a session. -/
  | construct (pipeId : List UInt8)
  /-- `attach(pipe, host, port)`; it opens a connection when there is a port and the pipes were
  started. -/
  | attachPipe (pipe : ℕ) (opens : Option ℕ)
  /-- `attach(host, port)`. -/
  | attach (cid : ℕ)
  /-- `start` opens a connection for a registered session with an address. -/
  | startClient (pipeId : List UInt8) (cid : ℕ)
  /-- The listener has accepted a connection. -/
  | accept (cid : ℕ)
  /-- The connector's connection, new or to be reconnected, is open: `EVT_CONNECT`. -/
  | connected (cid : ℕ)
  /-- The socket of a connection is open no longer. -/
  | leave (cid : ℕ)
  /-- `EVT_DISCONNECT` is delivered. -/
  | disconnect (cid : ℕ)
  /-- A package has arrived. -/
  | data (cid : ℕ) (d : List UInt8)
  /-- The timer of a session fires. -/
  | heartbeat (session : ℕ)
  /-- Another factory of the process generates an id. -/
  | generate
  deriving DecidableEq, Repr

/-- There is no connection with this `cid` yet; `cid`s count up from 1025. -/
def Fresh (k : KPipe) (cid : ℕ) : Prop := (k.factory.connections cid).phase = .absent ∧ cid ≠ 0

instance (k : KPipe) (cid : ℕ) : Decidable (k.Fresh cid) := inferInstanceAs (Decidable (_ ∧ _))

/-- When an action can happen. -/
def Enabled (k : KPipe) : Action → Prop
  | .attachPipe pipe opens => pipe < k.factory.sessionCount ∧ ∀ cid ∈ opens, k.Fresh cid
  | .attach cid => k.Fresh cid
  | .startClient pipeId cid => k.Fresh cid ∧ k.factory.bindPipes pipeId ≠ none
  | .accept cid => k.Fresh cid
  | .connected cid =>
    (k.factory.connections cid).phase = .idle ∧ (k.factory.connections cid).passive = false
  | .leave cid => (k.factory.connections cid).phase ≠ .absent
  | .disconnect cid => (k.factory.connections cid).phase = .closing
  | .data cid _ => (k.factory.connections cid).phase ≠ .absent
  | .heartbeat session => (k.factory.sessions session).connection ≠ none
  | _ => True

instance (k : KPipe) : ∀ a, Decidable (k.Enabled a)
  | .construct _ => isTrue trivial
  | .attachPipe _ _ => inferInstanceAs (Decidable (_ ∧ ∀ cid ∈ _, k.Fresh cid))
  | .attach cid => inferInstanceAs (Decidable (k.Fresh cid))
  | .startClient _ _ => inferInstanceAs (Decidable (_ ∧ _ ≠ _))
  | .accept cid => inferInstanceAs (Decidable (k.Fresh cid))
  | .connected _ => inferInstanceAs (Decidable (_ ∧ _))
  | .leave _ => inferInstanceAs (Decidable (_ ≠ _))
  | .disconnect _ => inferInstanceAs (Decidable (_ = _))
  | .data _ _ => inferInstanceAs (Decidable (_ ≠ _))
  | .heartbeat _ => inferInstanceAs (Decidable (_ ≠ _))
  | .generate => isTrue trivial

/-- What an action does to the factory. -/
def react (k : KPipe) : Action → PipeFactory × List Effect
  | .construct pipeId => (k.factory.newSession pipeId, [])
  | .attachPipe pipe opens =>
    (opens.elim (k.factory.registerPipe pipe 0) fun cid ↦
      (k.factory.registerPipe pipe 0).addConnection cid (k.factory.sessions pipe).pipeId, [])
  | .attach cid =>
    (((k.factory.newSession []).addConnection cid []).registerPipe k.factory.sessionCount cid, [])
  | .startClient pipeId cid =>
    ((k.factory.bindPipes pipeId).elim k.factory fun pipe ↦
      k.factory.addConnection cid (k.factory.sessions pipe).pipeId, [])
  | .accept cid => (k.factory.acceptConnection cid, [])
  | .connected cid => (k.factory.setPhase cid .opened).handleConnect cid
  | .leave cid => (k.factory.setPhase cid .closing, [])
  | .disconnect cid =>
    let r := k.factory.handleDisconnect cid
    (r.1.setPhase cid .idle, r.2)
  | .data cid d => k.factory.handleData cid d
  | .heartbeat session =>
    (k.factory, (k.factory.sessions session).connection.elim [] fun cid ↦
      k.factory.msend cid (.heartBeat (k.factory.sessions session).pipeId))
  | .generate => (k.factory.countId, [])

/-- What an action records of the connection that it opens. -/
def record (k : KPipe) : Action → (ℕ → List UInt8) × (ℕ → Option ℕ)
  | .attachPipe pipe (some cid) =>
    (Function.update k.openedWith cid (k.factory.sessions pipe).pipeId, k.attached)
  | .attach cid =>
    (Function.update k.openedWith cid [],
      Function.update k.attached cid (some k.factory.sessionCount))
  | .startClient pipeId cid =>
    (Function.update k.openedWith cid
      ((k.factory.bindPipes pipeId).elim [] fun pipe ↦ (k.factory.sessions pipe).pipeId), k.attached)
  | _ => (k.openedWith, k.attached)

/-- The state after an action. -/
def act (k : KPipe) (a : Action) : KPipe := ⟨(k.react a).1, (k.record a).1, (k.record a).2⟩

/-- A `KPipe` and its runs. -/
def system : StepSystem KPipe Action := ⟨fun k a ↦ if k.Enabled a then some (k.act a) else none⟩

theorem step_eq_some {k t : KPipe} {a : Action} :
    system.step k a = some t ↔ k.Enabled a ∧ k.act a = t := by
  simp [system]

theorem Fresh.ne {k : KPipe} {cid c : ℕ} (h : k.Fresh cid)
    (hc : (k.factory.connections c).phase ≠ .absent) : c ≠ cid := by
  rintro rfl
  exact hc h.1

/-- Where an action leaves a socket. -/
def Action.phaseAfter (c : ℕ) (phase : Phase) : Action → Phase
  | .connected cid => if c = cid then .opened else phase
  | .leave cid => if c = cid then .closing else phase
  | .disconnect cid => if c = cid then .idle else phase
  | _ => phase

theorem Action.phaseAfter_ne_absent (a : Action) (c : ℕ) {phase : Phase} (h : phase ≠ .absent) :
    a.phaseAfter c phase ≠ .absent := by
  cases a with
  | connected cid => by_cases hc : c = cid <;> simp [phaseAfter, hc, h]
  | leave cid => by_cases hc : c = cid <;> simp [phaseAfter, hc, h]
  | disconnect cid => by_cases hc : c = cid <;> simp [phaseAfter, hc, h]
  | _ => exact h

theorem connections_act {k : KPipe} {a : Action} (hdata : ∀ cid d, a ≠ .data cid d)
    (h : k.Enabled a) {c : ℕ} (hc : (k.factory.connections c).phase ≠ .absent) :
    (k.act a).factory.connections c = { k.factory.connections c with
      phase := a.phaseAfter c (k.factory.connections c).phase } := by
  cases a with
  | construct pipeId => rfl
  | attachPipe pipe opens =>
    cases opens with
    | none => simp [act, react, Action.phaseAfter]
    | some cid =>
      simp [act, react, Action.phaseAfter, PipeFactory.addConnection, (h.2 cid rfl).ne hc]
  | attach cid => simp [act, react, Action.phaseAfter, PipeFactory.addConnection, Fresh.ne h hc]
  | startClient pipeId cid =>
    obtain ⟨pipe, hpipe⟩ := Option.ne_none_iff_exists'.mp h.2
    simp [act, react, Action.phaseAfter, PipeFactory.addConnection, hpipe, h.1.ne hc]
  | accept cid => simp [act, react, Action.phaseAfter, PipeFactory.acceptConnection, Fresh.ne h hc]
  | connected cid =>
    by_cases hcid : c = cid
    · simp [act, react, Action.phaseAfter, PipeFactory.handleConnect, PipeFactory.setPhase, hcid]
    · simp [act, react, Action.phaseAfter, PipeFactory.handleConnect, PipeFactory.setPhase, hcid]
  | leave cid =>
    by_cases hcid : c = cid
    · simp [act, react, Action.phaseAfter, PipeFactory.setPhase, hcid]
    · simp [act, react, Action.phaseAfter, PipeFactory.setPhase, hcid]
  | disconnect cid =>
    have hsame := k.factory.handleDisconnect_connections cid
    by_cases hcid : c = cid
    · simp [act, react, Action.phaseAfter, PipeFactory.setPhase, hcid, hsame]
    · simp [act, react, Action.phaseAfter, PipeFactory.setPhase, hcid, hsame]
  | data cid d => exact absurd rfl (hdata cid d)
  | heartbeat session => rfl
  | generate => rfl

theorem present_act {k : KPipe} {a : Action} (h : k.Enabled a) {c : ℕ}
    (hc : (k.factory.connections c).phase ≠ .absent) :
    ((k.act a).factory.connections c).phase ≠ .absent
      ∧ ((k.act a).factory.connections c).passive = (k.factory.connections c).passive := by
  by_cases hdata : ∃ cid d, a = .data cid d
  · obtain ⟨cid, d, rfl⟩ := hdata
    simp only [act, react, PipeFactory.handleData]
    cases PipeMsg.read d with
    | none => exact ⟨hc, rfl⟩
    | some msg =>
      obtain ⟨hphase, hpassive⟩ := k.factory.sameSockets_handleMessage cid msg c
      exact ⟨hphase ▸ hc, hpassive⟩
  · rw [connections_act (fun cid d ha ↦ hdata ⟨cid, d, ha⟩) h hc]
    exact ⟨a.phaseAfter_ne_absent c hc, rfl⟩

/-- The connection that an action makes. -/
def Action.made : Action → Option ℕ
  | .attachPipe _ opens => opens
  | .attach cid => some cid
  | .startClient _ cid => some cid
  | .accept cid => some cid
  | _ => none

/-- No other action makes one, unless a package does. -/
theorem absent_act {k : KPipe} {a : Action} (hdata : ∀ cid d, a ≠ .data cid d) (h : k.Enabled a)
    {c : ℕ} (hmade : a.made ≠ some c) (hc : (k.factory.connections c).phase = .absent) :
    ((k.act a).factory.connections c).phase = .absent := by
  have hne : ∀ {cid}, some cid ≠ some c → c ≠ cid := fun hcid heq ↦ hcid (congrArg some heq.symm)
  cases a with
  | construct pipeId => exact hc
  | attachPipe pipe opens =>
    cases opens with
    | none => simpa [act, react] using hc
    | some cid => simpa [act, react, PipeFactory.addConnection, hne hmade] using hc
  | attach cid => simpa [act, react, PipeFactory.addConnection, hne hmade] using hc
  | startClient pipeId cid =>
    obtain ⟨pipe, hpipe⟩ := Option.ne_none_iff_exists'.mp h.2
    simpa [act, react, PipeFactory.addConnection, hpipe, hne hmade] using hc
  | accept cid => simpa [act, react, PipeFactory.acceptConnection, hne hmade] using hc
  | connected cid =>
    have hcid : c ≠ cid := by
      rintro rfl
      exact absurd (h.1.symm.trans hc) (by decide)
    simpa [act, react, PipeFactory.handleConnect, PipeFactory.setPhase, hcid] using hc
  | leave cid =>
    have hcid : c ≠ cid := by
      rintro rfl
      exact h hc
    simpa [act, react, PipeFactory.setPhase, hcid] using hc
  | disconnect cid =>
    have hcid : c ≠ cid := by
      rintro rfl
      exact absurd (h.symm.trans hc) (by decide)
    simpa [act, react, PipeFactory.setPhase, PipeFactory.handleDisconnect_connections, hcid]
      using hc
  | data cid d => exact absurd rfl (hdata cid d)
  | heartbeat session => exact hc
  | generate => exact hc

/-- A session that is ready after anything but a package was so before, and is unchanged. -/
theorem sessions_act {k : KPipe} {a : Action} (hdata : ∀ cid d, a ≠ .data cid d) {s : ℕ}
    (hready : ((k.act a).factory.sessions s).readyFlag = true) :
    (k.act a).factory.sessions s = k.factory.sessions s := by
  have hnew : ∀ pid, ((k.factory.newSession pid).sessions s).readyFlag = true →
      (k.factory.newSession pid).sessions s = k.factory.sessions s := by
    intro pid hnew
    rw [PipeFactory.sessions_newSession] at hnew ⊢
    split_ifs at hnew ⊢
    rfl
  have hregister : ∀ (f : PipeFactory) pipe cid,
      (f.registerPipe pipe cid).sessions = f.sessions := by
    intro f pipe cid
    rw [PipeFactory.registerPipe]
    split_ifs <;> rfl
  cases a with
  | construct pipeId => exact hnew pipeId hready
  | attachPipe pipe opens => cases opens <;> exact congrFun (hregister _ _ _) s
  | attach cid =>
    simp only [act, react, hregister] at hready ⊢
    exact hnew [] hready
  | startClient pipeId cid =>
    simp only [act, react]
    cases k.factory.bindPipes pipeId <;> rfl
  | disconnect cid =>
    simp only [act, react, PipeFactory.handleDisconnect] at hready ⊢
    cases hsession : (k.factory.connections cid).session with
    | none => rfl
    | some session =>
      simp only [hsession, PipeFactory.setPhase, PipeFactory.modifyConnection_sessions,
        PipeFactory.removeUnbindPipe_sessions, PipeFactory.sessions_unbind] at hready ⊢
      split_ifs at hready ⊢
      rfl
  | data cid d => exact absurd rfl (hdata cid d)
  | _ => rfl

end KPipe

end Knet.Pipe
