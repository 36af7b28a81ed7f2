import Knet.Lib.Pairing
import Knet.Pipe.KPipe

/-!
# Sessions and their connections

`bind` of a session overwrites the session pointer of the connection and leaves the session that was
there alone: it stays ready and keeps the connection. `EVT_DISCONNECT` on a connection clears the
flag of the session that the connection points to, without asking whether that session has moved to
another connection. These are the two ways in which the pointers of the two sides come apart, and
there is no other: the factory is a pairing on which handshakes act by `bind`, and `EVT_DISCONNECT`
by `release`.
-/

namespace Knet.Pipe

open Knet.Tcp

namespace PipeFactory

variable (f : PipeFactory)

/-- The pointers between sessions and connections. -/
def pairing : Pairing ℕ ℕ :=
  ⟨fun s ↦ (f.sessions s).readyFlag, fun s ↦ (f.sessions s).connection,
    fun c ↦ (f.connections c).session⟩

/-- The session that a handshake will bind on a server: the one registered under the id unless it is
ready, or a new one when there is neither an id nor a session for the connection. -/
def serverTarget (cid : ℕ) (body : List UInt8) : Option ℕ :=
  if body ≠ [] then
    match f.bindPipes body with
    | some pipe => if f.isReady pipe then none else some pipe
    | none => none
  else if f.unbindPipes cid = none then some f.sessionCount else none

/-- The session that a handshake will bind on a client: the one registered under the id unless it is
ready, or else the one that waits for the connection. -/
def clientTarget (cid : ℕ) (body : List UInt8) : Option ℕ :=
  if body ≠ [] then
    match f.bindPipes body with
    | some session => if f.isReady session then none else some session
    | none => f.unbindPipes cid
  else none

/-- The session that a message will bind. -/
def target (cid : ℕ) (msg : PipeMsg) : Option ℕ :=
  if msg.type = PipeMsgType.shakeHand.code then
    if (f.connections cid).passive then f.serverTarget cid msg.body
    else f.clientTarget cid msg.body
  else none

/-! ## Writes as operations on the pairing -/

theorem pairing_bind (s c : ℕ) : (f.bind s c).pairing = f.pairing.bind s c := by
  simp only [pairing, Pairing.bind, Pairing.mk.injEq]
  refine ⟨funext fun s' ↦ ?_, funext fun s' ↦ ?_, funext fun c' ↦ ?_⟩
  · by_cases h : s' = s <;> simp [h]
  · by_cases h : s' = s <;> simp [h]
  · by_cases h : c' = c <;> simp [h]

theorem pairing_unbind (s : ℕ) : (f.unbind s).pairing = f.pairing.release s := by
  simp only [pairing, Pairing.release, Pairing.mk.injEq]
  refine ⟨funext fun s' ↦ ?_, funext fun s' ↦ ?_, rfl⟩
  · by_cases h : s' = s <;> simp [h]
  · by_cases h : s' = s <;> simp [h]

theorem pairing_updatePipeid (s : ℕ) (pid : List UInt8) :
    (f.updatePipeid s pid).pairing = f.pairing := by
  simp only [pairing, Pairing.mk.injEq]
  refine ⟨funext fun s' ↦ ?_, funext fun s' ↦ ?_, rfl⟩
  · rw [sessions_updatePipeid]
    split_ifs <;> rfl
  · rw [sessions_updatePipeid]
    split_ifs <;> rfl

theorem pairing_newSession (pid : List UInt8) :
    (f.newSession pid).pairing = f.pairing.clear f.sessionCount := by
  simp only [pairing, Pairing.clear, Pairing.mk.injEq]
  refine ⟨funext fun s' ↦ ?_, funext fun s' ↦ ?_, rfl⟩
  · by_cases h : s' = f.sessionCount <;> simp [h]
  · by_cases h : s' = f.sessionCount <;> simp [h]

theorem pairing_registerPipe (pipe cid : ℕ) : (f.registerPipe pipe cid).pairing = f.pairing := by
  rw [registerPipe]
  split_ifs <;> rfl

theorem pairing_modifyConnection (cid : ℕ) {change : PipeConnection → PipeConnection}
    (h : (change (f.connections cid)).session = (f.connections cid).session) :
    (f.modifyConnection cid change).pairing = f.pairing := by
  simp only [pairing, Pairing.mk.injEq]
  refine ⟨rfl, rfl, funext fun c ↦ ?_⟩
  by_cases hc : c = cid
  · simp [hc, h]
  · simp [hc]

theorem pairing_setPhase (cid : ℕ) (phase : Phase) :
    (f.setPhase cid phase).pairing = f.pairing := by
  apply pairing_modifyConnection
  rfl

theorem pairing_addConnection {cid : ℕ} (h : (f.connections cid).session = none)
    (pipeId : List UInt8) : (f.addConnection cid pipeId).pairing = f.pairing := by
  apply pairing_modifyConnection
  exact h.symm

theorem pairing_acceptConnection {cid : ℕ} (h : (f.connections cid).session = none) :
    (f.acceptConnection cid).pairing = f.pairing := by
  apply pairing_modifyConnection
  exact h.symm

theorem pairing_processServerHandshake (cid : ℕ) (body : List UInt8) :
    (f.processServerHandshake cid body).1.pairing
      = f.pairing.tryBind (f.serverTarget cid body) cid := by
  rcases f.processServerHandshake_cases cid body with ⟨pipe, hbody, hfound, hready, heq⟩
    | ⟨pipe, hbody, hfound, hready, heq⟩ | ⟨hbody, hfound, heq⟩ | ⟨session, hbody, hunbind, heq⟩
    | ⟨hbody, hunbind, heq⟩
  · have htarget : f.serverTarget cid body = none := by simp [serverTarget, hbody, hfound, hready]
    rw [heq, htarget]
    rfl
  · have htarget : f.serverTarget cid body = some pipe := by
      simp [serverTarget, hbody, hfound, hready]
    rw [heq, htarget]
    exact f.pairing_bind pipe cid
  · have htarget : f.serverTarget cid body = none := by simp [serverTarget, hbody, hfound]
    rw [heq, htarget]
    rfl
  · have htarget : f.serverTarget cid body = none := by simp [serverTarget, hbody, hunbind]
    rw [heq, htarget]
    exact pairing_updatePipeid f.countId session _
  · have htarget : f.serverTarget cid body = some f.sessionCount := by
      simp [serverTarget, hbody, hunbind]
    rw [heq, htarget]
    calc (((f.countId.newSession []).bind f.sessionCount cid).addUnbindPipe cid
          f.sessionCount).pairing
        = ((f.countId.newSession []).bind f.sessionCount cid).pairing := rfl
      _ = (f.pairing.clear f.sessionCount).bind f.sessionCount cid := by
        rw [pairing_bind, pairing_newSession]
        rfl
      _ = f.pairing.bind f.sessionCount cid := Pairing.bind_clear _ _ _

theorem pairing_processClientHandshake (cid : ℕ) (body : List UInt8) :
    (f.processClientHandshake cid body).1.pairing
      = f.pairing.tryBind (f.clientTarget cid body) cid := by
  rcases f.processClientHandshake_cases cid body with ⟨session, hbody, hfound, hready, heq⟩
    | ⟨session, hbody, hfound, hready, heq⟩ | ⟨session, hbody, hfound, hunbind, heq⟩
    | ⟨hbody, hfound, hunbind, heq⟩ | ⟨hbody, heq⟩
  · have htarget : f.clientTarget cid body = none := by simp [clientTarget, hbody, hfound, hready]
    rw [heq, htarget]
    rfl
  · have htarget : f.clientTarget cid body = some session := by
      simp [clientTarget, hbody, hfound, hready]
    rw [heq, htarget]
    exact (pairing_updatePipeid _ _ _).trans (f.pairing_bind session cid)
  · have htarget : f.clientTarget cid body = some session := by
      simp [clientTarget, hbody, hfound, hunbind]
    rw [heq, htarget]
    calc ((((f.bind session cid).updatePipeid session body).addBindPipe body
          session).removeUnbindPipe cid).pairing
        = ((f.bind session cid).updatePipeid session body).pairing := rfl
      _ = f.pairing.bind session cid := by rw [pairing_updatePipeid, pairing_bind]
  · have htarget : f.clientTarget cid body = none := by simp [clientTarget, hbody, hfound, hunbind]
    rw [heq, htarget]
    rfl
  · have htarget : f.clientTarget cid body = none := by simp [clientTarget, hbody]
    rw [heq, htarget]
    rfl

/-- A message acts on the pointers by binding its target, and in no other way. -/
theorem pairing_handleMessage (cid : ℕ) (msg : PipeMsg) :
    (f.handleMessage cid msg).1.pairing = f.pairing.tryBind (f.target cid msg) cid := by
  by_cases htype : msg.type = PipeMsgType.shakeHand.code
  · cases hpassive : (f.connections cid).passive with
    | true =>
      rw [handleMessage_server htype hpassive, target, if_pos htype, if_pos hpassive]
      exact f.pairing_processServerHandshake cid msg.body
    | false =>
      rw [handleMessage_client htype hpassive, target, if_pos htype, if_neg (by simp [hpassive])]
      exact f.pairing_processClientHandshake cid msg.body
  · rw [handleMessage_of_ne htype, target, if_neg htype]
    rfl

theorem pairing_handleDisconnect (cid : ℕ) :
    (f.handleDisconnect cid).1.pairing
      = (f.connections cid).session.elim f.pairing f.pairing.release := by
  rw [handleDisconnect]
  cases (f.connections cid).session with
  | some session => exact f.pairing_unbind session
  | none => rfl

end PipeFactory

namespace KPipe

/-- The connections that do not exist have no session. -/
def Blank (k : KPipe) : Prop :=
  ∀ c, (k.factory.connections c).phase = .absent → (k.factory.connections c).session = none

/-- The pointers after an action: a package binds its target, `EVT_DISCONNECT` releases the session
of the connection, a new session is cleared. -/
def relink (k : KPipe) : Action → Pairing ℕ ℕ
  | .construct _ => k.factory.pairing.clear k.factory.sessionCount
  | .attach _ => k.factory.pairing.clear k.factory.sessionCount
  | .data cid d => k.factory.pairing.tryBind ((PipeMsg.read d).bind (k.factory.target cid)) cid
  | .disconnect cid =>
    (k.factory.connections cid).session.elim k.factory.pairing k.factory.pairing.release
  | _ => k.factory.pairing

theorem pairing_act {k : KPipe} {a : Action} (hk : k.Blank) (h : k.Enabled a) :
    (k.act a).factory.pairing = k.relink a := by
  cases a with
  | construct pipeId => exact k.factory.pairing_newSession pipeId
  | attachPipe pipe opens =>
    cases opens with
    | none => exact k.factory.pairing_registerPipe pipe 0
    | some cid =>
      have hregister := k.factory.pairing_registerPipe pipe 0
      refine (PipeFactory.pairing_addConnection _ ?_ _).trans hregister
      exact (congrFun (congrArg Pairing.owner hregister) cid).trans (hk cid (h.2 cid rfl).1)
  | attach cid =>
    calc (k.act (.attach cid)).factory.pairing
        = ((k.factory.newSession []).addConnection cid []).pairing :=
          PipeFactory.pairing_registerPipe _ _ _
      _ = (k.factory.newSession []).pairing :=
        (k.factory.newSession []).pairing_addConnection (hk cid h.1) _
      _ = k.factory.pairing.clear k.factory.sessionCount := k.factory.pairing_newSession []
  | startClient pipeId cid =>
    simp only [act, react]
    cases k.factory.bindPipes pipeId with
    | none => rfl
    | some pipe => exact k.factory.pairing_addConnection (hk cid h.1.1) _
  | accept cid => exact k.factory.pairing_acceptConnection (hk cid h.1)
  | connected cid => exact k.factory.pairing_setPhase cid .opened
  | leave cid => exact k.factory.pairing_setPhase cid .closing
  | disconnect cid =>
    exact (PipeFactory.pairing_setPhase _ cid .idle).trans (k.factory.pairing_handleDisconnect cid)
  | data cid d =>
    simp only [act, react, PipeFactory.handleData, relink]
    cases PipeMsg.read d with
    | none => rfl
    | some msg => exact k.factory.pairing_handleMessage cid msg
  | heartbeat session => rfl
  | generate => rfl

theorem Blank.act {k : KPipe} {a : Action} (hk : k.Blank) (h : k.Enabled a) : (k.act a).Blank := by
  intro c habsent
  have hwas : (k.factory.connections c).phase = .absent := by
    by_contra hc
    exact (present_act h hc).1 habsent
  have hbefore := hk c hwas
  have howner := congrFun (congrArg Pairing.owner (pairing_act hk h)) c
  refine howner.trans ?_
  cases a with
  | data cid d =>
    have hne : c ≠ cid := by
      rintro rfl
      exact h hwas
    simp only [relink, Pairing.tryBind]
    cases (PipeMsg.read d).bind (k.factory.target cid) with
    | none => exact hbefore
    | some s =>
      exact (Function.update_of_ne hne _ _).trans hbefore
  | disconnect cid =>
    simp only [relink]
    cases (k.factory.connections cid).session <;> exact hbefore
  | _ => exact hbefore

/-! ## One session for a connection -/

/-- A package binds a session only to a connection that no other ready session uses, and
`EVT_DISCONNECT` is delivered on a connection whose session, if ready, uses it. -/
def Exclusive (k : KPipe) : Action → Prop
  | .data cid d => ∀ msg ∈ PipeMsg.read d, ∀ s ∈ k.factory.target cid msg,
    ∀ s' ∈ (k.factory.connections cid).session, (k.factory.sessions s').readyFlag = true →
      (k.factory.sessions s').connection = some cid → s' = s
  | .disconnect cid => ∀ s ∈ (k.factory.connections cid).session,
    (k.factory.sessions s).readyFlag = true → (k.factory.sessions s).connection = some cid
  | _ => True

instance (k : KPipe) : ∀ a, Decidable (k.Exclusive a)
  | .data cid d => inferInstanceAs (Decidable (∀ msg ∈ PipeMsg.read d,
      ∀ s ∈ k.factory.target cid msg, ∀ s' ∈ (k.factory.connections cid).session,
        (k.factory.sessions s').readyFlag = true →
          (k.factory.sessions s').connection = some cid → s' = s))
  | .disconnect cid => inferInstanceAs (Decidable (∀ s ∈ (k.factory.connections cid).session,
      (k.factory.sessions s).readyFlag = true → (k.factory.sessions s).connection = some cid))
  | .construct _ => isTrue trivial
  | .attachPipe _ _ => isTrue trivial
  | .attach _ => isTrue trivial
  | .startClient _ _ => isTrue trivial
  | .accept _ => isTrue trivial
  | .connected _ => isTrue trivial
  | .leave _ => isTrue trivial
  | .heartbeat _ => isTrue trivial
  | .generate => isTrue trivial

/-- `EVT_DISCONNECT` on a connection clears only the flag of a session that uses this connection. -/
def ClearsOwn (k : KPipe) (a : Action) : Prop :=
  ∀ cid, a = .disconnect cid → ∀ s, (k.factory.sessions s).readyFlag = true →
    ((k.act a).factory.sessions s).readyFlag = false → (k.factory.sessions s).connection = some cid

theorem clearsOwn_of_exclusive {k : KPipe} {a : Action} (h : k.Exclusive a) : k.ClearsOwn a := by
  rintro cid rfl s hready hcleared
  cases hsession : (k.factory.connections cid).session with
  | none =>
    simp only [act, react, PipeFactory.handleDisconnect, hsession] at hcleared
    exact absurd (hready.symm.trans hcleared) (by decide)
  | some s' =>
    simp only [act, react, PipeFactory.handleDisconnect, hsession] at hcleared
    by_cases hs : s = s'
    · subst hs
      exact h s hsession hready
    · simp [PipeFactory.setPhase, hs, hready] at hcleared

/-- One step: as long as `EVT_DISCONNECT` clears only flags of sessions that use the connection, the
pairing stays one-to-one exactly through exclusive actions. -/
theorem oneToOne_act_iff {k : KPipe} {a : Action} (hblank : k.Blank)
    (hone : k.factory.pairing.OneToOne) (h : k.Enabled a) (hown : k.ClearsOwn a) :
    (k.act a).factory.pairing.OneToOne ↔ k.Exclusive a := by
  rw [pairing_act hblank h]
  cases a with
  | construct pipeId => exact ⟨fun _ ↦ trivial, fun _ ↦ hone.clear _⟩
  | attach cid => exact ⟨fun _ ↦ trivial, fun _ ↦ hone.clear _⟩
  | data cid d =>
    simp only [relink, Exclusive]
    cases PipeMsg.read d with
    | none => simpa [Pairing.tryBind] using hone
    | some msg =>
      simp only [Option.bind_some, Option.mem_def, Option.some.injEq, forall_eq']
      cases k.factory.target cid msg with
      | none => simpa [Pairing.tryBind] using hone
      | some s =>
        simp only [Option.some.injEq, forall_eq']
        exact hone.bind_iff
  | disconnect cid =>
    simp only [relink, Exclusive]
    cases hsession : (k.factory.connections cid).session with
    | none => simpa using hone
    | some s =>
      refine ⟨fun _ s' hs' hready ↦ ?_, fun _ ↦ hone.release s⟩
      obtain rfl := Option.some.inj hs'
      refine hown cid rfl s hready ?_
      simp [act, react, PipeFactory.handleDisconnect, hsession, PipeFactory.setPhase]
  | _ => exact ⟨fun _ ↦ trivial, fun _ ↦ hone⟩

/-- **The binding of sessions is one-to-one exactly as long as no connection is taken over.** In
every run of a factory, over any packages, connects and disconnects: in all states every ready
session is the session of its connection, and no `EVT_DISCONNECT` clears the flag of a session that
uses another connection, exactly when no package binds a session to a connection that another ready
session uses, and no `EVT_DISCONNECT` is delivered on a connection whose session has moved to
another one. -/
theorem oneToOne_iff_exclusive (as : List Action) :
    (system.Throughout (fun k ↦ k.factory.pairing.OneToOne) {} as ∧ system.Along ClearsOwn {} as)
      ↔ system.Along Exclusive {} as := by
  have hexact (hclears : system.Along ClearsOwn {} as) :
      system.Throughout (fun k ↦ k.factory.pairing.OneToOne) {} as
        ↔ system.Along Exclusive {} as := by
    refine StepSystem.throughout_iff_along_of_invariant
      (I := fun k ↦ k.Blank ∧ k.factory.pairing.OneToOne)
      ⟨fun c _ ↦ rfl, .of_back (by simp [PipeFactory.pairing])⟩ (fun k hk ↦ hk.2)
      (fun k a t _ hk hstep hown ↦ ?_) hclears
    obtain ⟨henabled, rfl⟩ := step_eq_some.mp hstep
    have hiff := oneToOne_act_iff hk.1 hk.2 henabled hown
    exact ⟨fun hexcl ↦ ⟨hk.1.act henabled, hiff.mpr hexcl⟩, hiff.mp⟩
  constructor
  · rintro ⟨hone, hclears⟩
    exact (hexact hclears).mp hone
  · intro hexcl
    have hclears := hexcl.mono fun k a ↦ clearsOwn_of_exclusive
    exact ⟨(hexact hclears).mpr hexcl, hclears⟩

/-- A peer shakes hands with the id of a registered session, and then without an id: two ready
sessions share the connection. And `EVT_DISCONNECT` of a connection clears the flag of the session
that has been bound to the next one. -/
theorem handshake_takes_over :
    (∃ k, system.run {} [.construct [97], .attachPipe 0 none, .accept 1025,
        .data 1025 (PipeMsg.shakeHand [97]).bytes, .data 1025 (PipeMsg.shakeHand []).bytes] = some k
      ∧ ¬k.factory.pairing.OneToOne)
    ∧ ∃ k, system.run {} [.construct [97], .attachPipe 0 none, .accept 1025,
        .data 1025 (PipeMsg.shakeHand [97]).bytes, .leave 1025, .accept 1026,
        .data 1026 (PipeMsg.shakeHand [97]).bytes] = some k
      ∧ k.Enabled (.disconnect 1025) ∧ ¬k.ClearsOwn (.disconnect 1025) := by
  refine ⟨⟨_, rfl, fun hone ↦ ?_⟩, _, rfl, rfl, fun hown ↦ ?_⟩
  · have hsame := hone.unshared 0 1 1025 (by decide) (by decide) (by decide) (by decide)
    exact absurd hsame (by decide)
  · have hconn := hown 1025 rfl 0 (by decide) (by decide)
    exact absurd hconn (by decide)

end KPipe

end Knet.Pipe
