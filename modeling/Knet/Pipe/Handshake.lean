import Knet.Pipe.KPipe

/-!
# The handshakes of a pipe factory

What a peer learns from its handshake with a server, and which session a client binds when the
answer arrives. A server does not answer a handshake with the id of a session that is ready. A
client looks up the id of the answer among the sessions of all its connections before it looks for
the session that waits for this connection, and the waiting session is found only once: after that
the session can be bound again only by an answer that repeats its id.
-/

namespace Knet.Pipe

open Knet.Tcp

namespace PipeFactory

/-! ## Answers of a server -/

/-- A handshake on a connection was answered: by a message or by closing the connection; and a
message with an id tells that the session of the connection is connected. -/
def Answered (cid : ℕ) (r : PipeFactory × List Effect) : Prop :=
  ((∃ p, .send cid (.shakeHand p) ∈ r.2) ∨ .close cid ∈ r.2)
    ∧ ∀ p, p ≠ [] → .send cid (.shakeHand p) ∈ r.2 →
      ∃ s, .event s .connect ∈ r.2 ∧ (r.1.connections cid).session = some s

theorem isConnected_of_sameSockets {f g : PipeFactory} (h : f.SameSockets g) (cid : ℕ) :
    g.isConnected cid = f.isConnected cid := by
  rw [isConnected, isConnected, PipeConnection.isConnected, PipeConnection.isConnected, (h cid).1]

/-- The session and the connection point to each other, and the session is ready. -/
def Bound (f : PipeFactory) (s c : ℕ) : Prop :=
  (f.sessions s).readyFlag = true ∧ (f.sessions s).connection = some c
    ∧ (f.connections c).session = some s

instance (f : PipeFactory) (s c : ℕ) : Decidable (f.Bound s c) :=
  inferInstanceAs (Decidable (_ ∧ _))

theorem bound_bind_updatePipeid (f : PipeFactory) (s c : ℕ) (pid : List UInt8) :
    ((f.bind s c).updatePipeid s pid).Bound s c := by
  refine ⟨?_, ?_, by simp⟩
  · rw [sessions_updatePipeid]
    split_ifs <;> simp
  · rw [sessions_updatePipeid]
    split_ifs <;> simp

theorem Bound.eq {f : PipeFactory} {s s' c : ℕ} (h : f.Bound s c) (h' : f.Bound s' c) : s = s' :=
  Option.some.inj (h.2.2.symm.trans h'.2.2)

/-! ## Who is registered where -/

/-- The two maps of a factory and the sessions in them, beside the record of the sessions that were
attached without an id. -/
structure Registered (f : PipeFactory) (attached : ℕ → Option ℕ) : Prop where
  /-- `bind_pipes` holds sessions under their own ids. -/
  named : ∀ p s, f.bindPipes p = some s → (f.sessions s).pipeId = p ∧ p ≠ [] ∧ s < f.sessionCount
  /-- A session waits for one connection at most. -/
  unique : ∀ c c' s, f.unbindPipes c = some s → f.unbindPipes c' = some s → c = c'
  counted : ∀ c s, f.unbindPipes c = some s → s < f.sessionCount
  /-- On a client, the session that waits for a connection was attached with it, and has not been
  bound. -/
  waiting : ∀ c s, f.unbindPipes c = some s → (f.connections c).passive = false →
    attached c = some s ∧ (f.sessions s).pipeId = [] ∧ (f.sessions s).readyFlag = false
  absent : ∀ c, (f.connections c).phase = .absent → f.unbindPipes c = none

namespace Registered

variable {f : PipeFactory} {attached : ℕ → Option ℕ}

theorem ne_of_waiting (h : f.Registered attached) {p : List UInt8} {c s s' : ℕ}
    (hp : f.bindPipes p = some s) (hc : f.unbindPipes c = some s')
    (hactive : (f.connections c).passive = false) : s' ≠ s := by
  rintro rfl
  obtain ⟨hid, hne, -⟩ := h.named p s' hp
  exact hne (hid.symm.trans (h.waiting c s' hc hactive).2.1)

/-! One lemma for each write. -/

theorem bind (h : f.Registered attached) {s : ℕ}
    (hs : ∀ c, f.unbindPipes c = some s → (f.connections c).passive = true) (cid : ℕ) :
    (f.bind s cid).Registered attached := by
  have hsame := f.sameSockets_bind s cid
  refine ⟨fun p s' hp ↦ ?_, h.unique, h.counted, fun c s' hc hactive ↦ ?_, fun c hc ↦ ?_⟩
  · obtain ⟨hid, hrest⟩ := h.named p s' hp
    refine ⟨?_, hrest⟩
    rw [sessions_bind]
    split_ifs <;> exact hid
  · rw [(hsame c).2] at hactive
    have hne : s' ≠ s := by
      rintro rfl
      exact absurd ((hs c hc).symm.trans hactive) (by decide)
    rw [sessions_bind, if_neg hne]
    exact h.waiting c s' hc hactive
  · exact h.absent c ((hsame c).1.symm.trans hc)

theorem updatePipeid (h : f.Registered attached) {s : ℕ}
    (hs : ∀ c, f.unbindPipes c = some s → (f.connections c).passive = true) (pid : List UInt8) :
    (f.updatePipeid s pid).Registered attached := by
  refine ⟨fun p s' hp ↦ ?_, h.unique, h.counted, fun c s' hc hactive ↦ ?_, h.absent⟩
  · obtain ⟨hid, hne, hcount⟩ := h.named p s' hp
    rw [sessions_updatePipeid, if_neg fun hnil ↦ hne (hid.symm.trans hnil.2)]
    exact ⟨hid, hne, hcount⟩
  · have hne : s' ≠ s := by
      rintro rfl
      exact absurd ((hs c hc).symm.trans hactive) (by decide)
    rw [sessions_updatePipeid, if_neg fun heq ↦ hne heq.1]
    exact h.waiting c s' hc hactive

theorem unbind (h : f.Registered attached) (s : ℕ) : (f.unbind s).Registered attached := by
  refine ⟨fun p s' hp ↦ ?_, h.unique, h.counted, fun c s' hc hactive ↦ ?_, h.absent⟩
  · rw [sessions_unbind]
    split_ifs <;> exact h.named p s' hp
  · obtain ⟨hattached, hid, hready⟩ := h.waiting c s' hc hactive
    rw [sessions_unbind]
    split_ifs
    · exact ⟨hattached, hid, rfl⟩
    · exact ⟨hattached, hid, hready⟩

theorem newSession (h : f.Registered attached) (pid : List UInt8) :
    (f.newSession pid).Registered attached := by
  refine ⟨fun p s hp ↦ ?_, h.unique, fun c s hc ↦ ?_, fun c s hc hactive ↦ ?_, h.absent⟩
  · obtain ⟨hid, hne, hcount⟩ := h.named p s hp
    rw [sessions_newSession, if_neg (Nat.ne_of_lt hcount)]
    exact ⟨hid, hne, Nat.lt_succ_of_lt hcount⟩
  · exact Nat.lt_succ_of_lt (h.counted c s hc)
  · rw [sessions_newSession, if_neg (Nat.ne_of_lt (h.counted c s hc))]
    exact h.waiting c s hc hactive

theorem addUnbindPipe (h : f.Registered attached) {cid s : ℕ}
    (hnew : ∀ c, f.unbindPipes c ≠ some s) (hcount : s < f.sessionCount)
    (hpresent : (f.connections cid).phase ≠ .absent)
    (hwait : (f.connections cid).passive = false →
      attached cid = some s ∧ (f.sessions s).pipeId = [] ∧ (f.sessions s).readyFlag = false) :
    (f.addUnbindPipe cid s).Registered attached := by
  refine ⟨h.named, fun c c' s' hc hc' ↦ ?_, fun c s' hc ↦ ?_, fun c s' hc hactive ↦ ?_,
    fun c hc ↦ ?_⟩
  · simp only [unbindPipes_addUnbindPipe] at hc hc'
    split_ifs at hc hc' with hcid hcid' hcid'
    · rw [hcid, hcid']
    · exact absurd (hc'.trans hc.symm) (hnew c')
    · exact absurd (hc.trans hc'.symm) (hnew c)
    · exact h.unique c c' s' hc hc'
  · simp only [unbindPipes_addUnbindPipe] at hc
    split_ifs at hc with hcid
    · exact Option.some.inj hc ▸ hcount
    · exact h.counted c s' hc
  · simp only [unbindPipes_addUnbindPipe] at hc
    split_ifs at hc with hcid
    · subst hcid
      obtain rfl := Option.some.inj hc
      exact hwait hactive
    · exact h.waiting c s' hc hactive
  · have hcid : c ≠ cid := by
      rintro rfl
      exact hpresent hc
    rw [unbindPipes_addUnbindPipe, if_neg hcid]
    exact h.absent c hc

theorem removeUnbindPipe (h : f.Registered attached) (cid : ℕ) :
    (f.removeUnbindPipe cid).Registered attached := by
  have hwas : ∀ c s, (f.removeUnbindPipe cid).unbindPipes c = some s →
      f.unbindPipes c = some s := by
    intro c s hc
    rw [unbindPipes_removeUnbindPipe] at hc
    split_ifs at hc
    exact hc
  refine ⟨h.named, fun c c' s hc hc' ↦ h.unique c c' s (hwas c s hc) (hwas c' s hc'),
    fun c s hc ↦ h.counted c s (hwas c s hc), fun c s hc ↦ h.waiting c s (hwas c s hc),
    fun c hc ↦ ?_⟩
  rw [unbindPipes_removeUnbindPipe, h.absent c hc, ite_self]

theorem addBindPipe (h : f.Registered attached) {p : List UInt8} {s : ℕ}
    (hid : (f.sessions s).pipeId = p) (hne : p ≠ []) (hcount : s < f.sessionCount) :
    (f.addBindPipe p s).Registered attached := by
  refine { h with named := fun p' s' hp ↦ ?_ }
  rw [bindPipes_addBindPipe] at hp
  split_ifs at hp with hpp
  · subst hpp
    obtain rfl := Option.some.inj hp
    exact ⟨hid, hne, hcount⟩
  · exact h.named p' s' hp

/-- A connection changes that no session waits for, or only its socket moves. -/
theorem modifyConnection (h : f.Registered attached) {cid : ℕ}
    {change : PipeConnection → PipeConnection}
    (hfree : f.unbindPipes cid = none ∨ (change (f.connections cid)).passive
      = (f.connections cid).passive ∧ (change (f.connections cid)).phase ≠ .absent) :
    (f.modifyConnection cid change).Registered attached := by
  refine { h with waiting := fun c s hc hactive ↦ ?_, absent := fun c hc ↦ ?_ }
  · rw [connections_modifyConnection] at hactive
    split_ifs at hactive with hcid
    · subst hcid
      rcases hfree with hnone | ⟨hpassive, -⟩
      · exact absurd (hc.symm.trans hnone) (by simp)
      · exact h.waiting c s hc (hpassive.symm.trans hactive)
    · exact h.waiting c s hc hactive
  · rw [connections_modifyConnection] at hc
    split_ifs at hc with hcid
    · subst hcid
      rcases hfree with hnone | ⟨-, hphase⟩
      · exact hnone
      · exact absurd hc hphase
    · exact h.absent c hc

theorem addConnection (h : f.Registered attached) {cid : ℕ} (hfree : f.unbindPipes cid = none)
    (pipeId : List UInt8) : (f.addConnection cid pipeId).Registered attached :=
  h.modifyConnection (.inl hfree)

theorem acceptConnection (h : f.Registered attached) {cid : ℕ} (hfree : f.unbindPipes cid = none) :
    (f.acceptConnection cid).Registered attached :=
  h.modifyConnection (.inl hfree)

theorem setPhase (h : f.Registered attached) (cid : ℕ) {phase : Phase} (hphase : phase ≠ .absent) :
    (f.setPhase cid phase).Registered attached :=
  h.modifyConnection (.inr ⟨rfl, hphase⟩)

theorem registerPipe (h : f.Registered attached) {pipe : ℕ} (hcount : pipe < f.sessionCount) :
    (f.registerPipe pipe 0).Registered attached := by
  by_cases hid : (f.sessions pipe).pipeId = []
  · rw [PipeFactory.registerPipe, if_pos hid, if_neg (not_not_intro rfl)]
    exact h
  · rw [PipeFactory.registerPipe, if_neg hid]
    exact h.addBindPipe rfl hid hcount

theorem update_attached (h : f.Registered attached) {cid : ℕ} (hfree : f.unbindPipes cid = none)
    (s : Option ℕ) : f.Registered (Function.update attached cid s) := by
  refine { h with waiting := fun c s' hc hactive ↦ ?_ }
  have hne : c ≠ cid := by
    rintro rfl
    exact absurd (hc.symm.trans hfree) (by simp)
  rw [Function.update_of_ne hne]
  exact h.waiting c s' hc hactive

theorem countId (h : f.Registered attached) : f.countId.Registered attached :=
  { h with }

/-! The handlers are made of these writes. -/

theorem processServerHandshake (h : f.Registered attached) {cid : ℕ} (body : List UInt8)
    (hpassive : (f.connections cid).passive = true)
    (hpresent : (f.connections cid).phase ≠ .absent) :
    (f.processServerHandshake cid body).1.Registered attached := by
  rcases f.processServerHandshake_cases cid body with ⟨pipe, -, -, -, heq⟩
    | ⟨pipe, -, hfound, -, heq⟩ | ⟨-, -, heq⟩ | ⟨session, -, hunbind, heq⟩ | ⟨-, hunbind, heq⟩
  · exact heq ▸ h
  · rw [heq]
    refine h.bind (fun c hc ↦ ?_) cid
    by_contra hactive
    exact h.ne_of_waiting hfound hc (by simpa using hactive) rfl
  · exact heq ▸ h
  · rw [heq]
    refine h.countId.updatePipeid (fun c hc ↦ ?_) _
    obtain rfl := h.unique c cid session hc hunbind
    exact hpassive
  · rw [heq]
    have hnew : ∀ c, f.unbindPipes c ≠ some f.sessionCount :=
      fun c hc ↦ absurd (h.counted c _ hc) (Nat.lt_irrefl _)
    have hmade := h.countId.newSession []
    have hbound := hmade.bind (fun c hc ↦ absurd hc (hnew c)) cid
    refine hbound.addUnbindPipe hnew (Nat.lt_succ_self _) ?_ ?_
    · simpa using hpresent
    · simp [hpassive]

theorem processClientHandshake (h : f.Registered attached) {cid : ℕ} (body : List UInt8)
    (hactive : (f.connections cid).passive = false) :
    (f.processClientHandshake cid body).1.Registered attached := by
  rcases f.processClientHandshake_cases cid body with ⟨session, -, -, -, heq⟩
    | ⟨session, -, hfound, -, heq⟩ | ⟨session, hbody, hfound, hunbind, heq⟩ | ⟨-, -, -, heq⟩
    | ⟨-, heq⟩
  · exact heq ▸ h
  · rw [heq]
    have hfree : ∀ c, f.unbindPipes c = some session → (f.connections c).passive = true := by
      intro c hc
      by_contra hpassive
      exact h.ne_of_waiting hfound hc (by simpa using hpassive) rfl
    refine (h.bind hfree cid).updatePipeid (fun c hc ↦ ?_) body
    rw [((f.sameSockets_bind session cid) c).2]
    exact hfree c hc
  · rw [heq]
    obtain ⟨-, hid, -⟩ := h.waiting cid session hunbind hactive
    -- The entry of the connection goes first: nobody waits for the session from then on.
    have hremoved := h.removeUnbindPipe cid
    have hfree : ∀ c, (f.removeUnbindPipe cid).unbindPipes c ≠ some session := by
      intro c hc
      rw [unbindPipes_removeUnbindPipe] at hc
      split_ifs at hc with hcid
      exact hcid (h.unique c cid session hc hunbind)
    have hbound := hremoved.bind (fun c hc ↦ absurd hc (hfree c)) cid
    have hnamed := hbound.updatePipeid (fun c hc ↦ absurd hc (hfree c)) body
    exact hnamed.addBindPipe (by simp [hid]) hbody (h.counted cid session hunbind)
  · exact heq ▸ h
  · exact heq ▸ h

theorem handleDisconnect (h : f.Registered attached) (cid : ℕ) :
    (f.handleDisconnect cid).1.Registered attached := by
  rw [PipeFactory.handleDisconnect]
  cases (f.connections cid).session with
  | none => exact h.removeUnbindPipe cid
  | some session => exact (h.unbind session).removeUnbindPipe cid

theorem handleMessage (h : f.Registered attached) {cid : ℕ} (msg : PipeMsg)
    (hpresent : (f.connections cid).phase ≠ .absent) :
    (f.handleMessage cid msg).1.Registered attached := by
  by_cases htype : msg.type = PipeMsgType.shakeHand.code
  · cases hpassive : (f.connections cid).passive with
    | true =>
      rw [handleMessage_server htype hpassive]
      exact h.processServerHandshake msg.body hpassive hpresent
    | false =>
      rw [handleMessage_client htype hpassive]
      exact h.processClientHandshake msg.body hpassive
  · rw [handleMessage_of_ne htype]
    exact h

end Registered

theorem unbindPipes_handleMessage {f : PipeFactory} {c s : ℕ}
    (hactive : (f.connections c).passive = false) (cid : ℕ) (msg : PipeMsg)
    (h : (f.handleMessage cid msg).1.unbindPipes c = some s) : f.unbindPipes c = some s := by
  by_cases htype : msg.type = PipeMsgType.shakeHand.code
  · cases hpassive : (f.connections cid).passive with
    | true =>
      have hne : c ≠ cid := by
        rintro rfl
        exact absurd (hpassive.symm.trans hactive) (by decide)
      rw [handleMessage_server htype hpassive] at h
      rcases f.processServerHandshake_cases cid msg.body with ⟨pipe, -, -, -, heq⟩
        | ⟨pipe, -, -, -, heq⟩ | ⟨-, -, heq⟩ | ⟨session, -, -, heq⟩ | ⟨-, -, heq⟩
      · rw [heq] at h
        exact h
      · simpa [heq] using h
      · rw [heq] at h
        exact h
      · simpa [heq] using h
      · simpa [heq, hne] using h
    | false =>
      rw [handleMessage_client htype hpassive] at h
      rcases f.processClientHandshake_cases cid msg.body with ⟨session, -, -, -, heq⟩
        | ⟨session, -, -, -, heq⟩ | ⟨session, -, -, -, heq⟩ | ⟨-, -, -, heq⟩ | ⟨-, heq⟩
      · rw [heq] at h
        exact h
      · simpa [heq] using h
      · rw [heq, unbindPipes_removeUnbindPipe] at h
        split_ifs at h
        exact h
      · rw [heq] at h
        exact h
      · rw [heq] at h
        exact h
  · rw [handleMessage_of_ne htype] at h
    exact h

end PipeFactory

namespace KPipe

open PipeFactory

theorem registered_act {k : KPipe} {a : Action} (h : k.factory.Registered k.attached)
    (henabled : k.Enabled a) : (k.act a).factory.Registered (k.act a).attached := by
  cases a with
  | construct pipeId => exact h.newSession pipeId
  | attachPipe pipe opens =>
    have hregister := h.registerPipe henabled.1
    cases opens with
    | none => exact hregister
    | some cid =>
      refine hregister.addConnection (hregister.absent cid ?_) _
      rw [registerPipe_connections]
      exact (henabled.2 cid rfl).1
  | attach cid =>
    -- the new session waits for the new connection, so each is ready for the other
    have hfree := h.absent cid henabled.1
    have hmade := ((h.newSession []).addConnection hfree []).update_attached hfree
      (some k.factory.sessionCount)
    have hwaits : (((k.factory.newSession []).addConnection cid []).addUnbindPipe cid
        k.factory.sessionCount).Registered (k.act (.attach cid)).attached :=
      hmade.addUnbindPipe (fun c hc ↦ absurd (h.counted c _ hc) (Nat.lt_irrefl _))
        (Nat.lt_succ_self _) (by simp [PipeFactory.addConnection])
        (by simp [PipeFactory.addConnection])
    have hregister : (k.act (.attach cid)).factory
        = ((k.factory.newSession []).addConnection cid []).addUnbindPipe cid
          k.factory.sessionCount := by
      simp [act, react, PipeFactory.registerPipe, PipeFactory.addConnection, henabled.2]
    rw [hregister]
    exact hwaits
  | startClient pipeId cid =>
    obtain ⟨pipe, hpipe⟩ := Option.ne_none_iff_exists'.mp henabled.2
    simp only [act, react, hpipe, record]
    exact h.addConnection (h.absent cid henabled.1.1) _
  | accept cid => exact h.acceptConnection (h.absent cid henabled.1)
  | connected cid => exact h.setPhase cid (by decide)
  | leave cid => exact h.setPhase cid (by decide)
  | disconnect cid => exact (h.handleDisconnect cid).setPhase cid (by decide)
  | data cid d =>
    simp only [act, react, PipeFactory.handleData, record]
    cases PipeMsg.read d with
    | none => exact h
    | some msg => exact h.handleMessage msg henabled
  | heartbeat session => exact h
  | generate => exact h.countId

theorem registered_start : ({} : KPipe).factory.Registered ({} : KPipe).attached :=
  ⟨by simp, by simp, by simp, by simp, by simp⟩

/-- A fact that every action keeps holds in every state that is reached. -/
theorem invariant_of_run {I : KPipe → Prop} (hstart : I {})
    (hact : ∀ k a, I k → k.Enabled a → I (k.act a)) {k : KPipe} {as : List Action}
    (hrun : system.run {} as = some k) : I k := by
  refine StepSystem.invariant_of_run (C := fun _ _ ↦ True) hstart (fun k a t hk hstep _ ↦ ?_)
    (StepSystem.along_of_forall (fun _ _ ↦ trivial) _ _) hrun
  obtain ⟨henabled, rfl⟩ := step_eq_some.mp hstep
  exact hact k a hk henabled

theorem registered_of_run {k : KPipe} {as : List Action} (hrun : system.run {} as = some k) :
    k.factory.Registered k.attached := by
  exact invariant_of_run (I := fun k ↦ k.factory.Registered k.attached) registered_start
    (fun k a ↦ registered_act) hrun

/-! ## Answers to a client -/

/-- The connection and the id of an answer with an id that arrives on a client's connection. -/
def reply (k : KPipe) : Action → Option (ℕ × List UInt8)
  | .data cid d => (PipeMsg.read d).bind fun msg ↦
    if msg.type = PipeMsgType.shakeHand.code ∧ msg.body ≠ []
        ∧ (k.factory.connections cid).passive = false then some (cid, msg.body)
    else none
  | _ => none

theorem react_of_reply {k : KPipe} {a : Action} {cid : ℕ} {p : List UInt8}
    (h : k.reply a = some (cid, p)) :
    k.react a = k.factory.processClientHandshake cid p ∧ p ≠ []
      ∧ (k.factory.connections cid).passive = false := by
  cases a with
  | data cid' d =>
    obtain ⟨msg, hread, hmsg⟩ := Option.bind_eq_some_iff.mp h
    split_ifs at hmsg with hcond
    obtain ⟨rfl, rfl⟩ := Prod.mk.inj (Option.some.inj hmsg)
    obtain ⟨htype, hbody, hactive⟩ := hcond
    refine ⟨?_, hbody, hactive⟩
    simp only [react, PipeFactory.handleData, hread]
    exact handleMessage_client htype hactive
  | _ => exact absurd h (by simp [reply])

theorem act_of_reply {k : KPipe} {a : Action} {cid : ℕ} {p : List UInt8}
    (h : k.reply a = some (cid, p)) :
    (k.act a).factory = (k.factory.processClientHandshake cid p).1 := by
  rw [act, (react_of_reply h).1]

/-- The session that a connection was opened for: the one that was attached with it, or else the one
registered under the id that the connection was opened with. -/
def OpenedFor (k : KPipe) (cid s : ℕ) : Prop :=
  match k.attached cid with
  | some s' => s = s'
  | none => k.openedWith cid ≠ [] ∧ k.factory.bindPipes (k.openedWith cid) = some s

/-- An answer binds no session but the one that the connection was opened for, and if this one was
attached without an id it is bound to the connection then. -/
def BindsOwn (k : KPipe) (a : Action) : Prop :=
  ∀ r ∈ k.reply a, (∀ s, .bind s r.1 ∈ (k.react a).2 → k.OpenedFor r.1 s)
    ∧ ∀ s ∈ k.attached r.1, (k.act a).factory.Bound s r.1

/-- The session found under the id of an answer is the one that the connection was opened for; if it
is ready, or if there is none and no session waits for the connection, then the session attached
with the connection, if there is one, is already bound to it. -/
def FindsOwn (k : KPipe) (a : Action) : Prop :=
  ∀ r ∈ k.reply a,
    match k.factory.bindPipes r.2 with
    | some s => if k.factory.isReady s then ∀ s' ∈ k.attached r.1, k.factory.Bound s' r.1
      else k.OpenedFor r.1 s
    | none => k.factory.unbindPipes r.1 = none → ∀ s ∈ k.attached r.1, k.factory.Bound s r.1

theorem bindsOwn_iff {k : KPipe} (h : k.factory.Registered k.attached) (a : Action) :
    k.BindsOwn a ↔ k.FindsOwn a := by
  refine forall_congr' fun ⟨cid, p⟩ ↦ forall_congr' fun hr ↦ ?_
  obtain ⟨hreact, hp, hactive⟩ := react_of_reply hr
  rw [act_of_reply hr, hreact]
  rcases k.factory.processClientHandshake_cases cid p with ⟨session, -, hfound, hready, heq⟩
    | ⟨session, -, hfound, hready, heq⟩ | ⟨session, -, hfound, hunbind, heq⟩
    | ⟨-, hfound, hunbind, heq⟩ | ⟨hbody, -⟩
  · simp [heq, hfound, hready]
  · -- the session found under the id is bound, whatever connection it was opened with
    have hbound := k.factory.bound_bind_updatePipeid session cid p
    simp only [heq, hfound, hready, Bool.false_eq_true, if_false]
    constructor
    · exact fun hown ↦ hown.1 session List.mem_cons_self
    · intro hopened
      refine ⟨fun s hs ↦ ?_, fun s hs ↦ ?_⟩
      · obtain rfl : s = session := by simpa using hs
        exact hopened
      · rw [OpenedFor, hs] at hopened
        exact hopened ▸ hbound
  · -- the session that waits for the connection is the one attached with it
    have hbound : (k.factory.processClientHandshake cid p).1.Bound session cid := by
      rw [heq]
      exact k.factory.bound_bind_updatePipeid session cid p
    have hattached := (h.waiting cid session hunbind hactive).1
    simp only [hfound, hunbind, reduceCtorEq, false_implies, iff_true]
    refine ⟨fun s hs ↦ ?_, fun s hs ↦ ?_⟩
    · obtain rfl : s = session := by simpa [heq] using hs
      rw [OpenedFor, hattached]
    · obtain rfl := Option.some.inj (hs.symm.trans hattached)
      exact hbound
  · simp [heq, hfound, hunbind]
  · exact absurd hbody hp

/-- **Answers bind the right sessions exactly when their ids find no other session.** An answer is
to bind the session that the factory attached to its connection, under the id it names, and it does
so exactly if that is the session the lookup ends at. -/
theorem bindsOwn_iff_findsOwn (as : List Action) :
    system.Along BindsOwn {} as ↔ system.Along FindsOwn {} as := by
  refine StepSystem.along_iff_of_invariant (I := fun k ↦ k.factory.Registered k.attached)
    registered_start (fun k a t hk hstep ↦ ?_) fun k a t hk _ ↦ bindsOwn_iff hk a
  obtain ⟨henabled, rfl⟩ := step_eq_some.mp hstep
  exact registered_act hk henabled

/-- On a client, a session waits for a connection from the time it was attached with it, or not at
all. -/
theorem unbindPipes_of_act {k : KPipe} {a : Action} (henabled : k.Enabled a) {c s : ℕ}
    (hattach : a ≠ .attach c)
    (hactive : (∃ cid d, a = .data cid d) → (k.factory.connections c).passive = false)
    (h : (k.act a).factory.unbindPipes c = some s) : k.factory.unbindPipes c = some s := by
  cases a with
  | construct pipeId => exact h
  | attachPipe pipe opens =>
    have hregister : (k.factory.registerPipe pipe 0).unbindPipes = k.factory.unbindPipes := by
      rw [PipeFactory.registerPipe, if_neg (not_not_intro rfl)]
      split_ifs <;> rfl
    rw [← hregister]
    cases opens <;> exact h
  | attach cid =>
    have hne : c ≠ cid := by
      rintro rfl
      exact hattach rfl
    simpa [act, react, PipeFactory.registerPipe, PipeFactory.addConnection, henabled.2, hne] using h
  | startClient pipeId cid =>
    obtain ⟨pipe, hpipe⟩ := Option.ne_none_iff_exists'.mp henabled.2
    simpa [act, react, hpipe, PipeFactory.addConnection] using h
  | accept cid => exact h
  | connected cid => exact h
  | leave cid => exact h
  | disconnect cid =>
    simp only [act, react, PipeFactory.handleDisconnect] at h
    cases hsession : (k.factory.connections cid).session <;>
      simp only [hsession, PipeFactory.setPhase, modifyConnection_unbindPipes,
        unbindPipes_removeUnbindPipe, unbind_unbindPipes] at h <;>
      split_ifs at h <;> exact h
  | data cid d =>
    simp only [act, react, PipeFactory.handleData] at h
    cases hread : PipeMsg.read d with
    | none =>
      rw [hread] at h
      exact h
    | some msg =>
      rw [hread] at h
      exact unbindPipes_handleMessage (hactive ⟨cid, d, rfl⟩) cid msg h
  | heartbeat session => exact h
  | generate => exact h

/-- The connections that sessions were attached with are there, and on the client's side. -/
def Opened (k : KPipe) : Prop :=
  ∀ c s, k.attached c = some s →
    (k.factory.connections c).phase ≠ .absent ∧ (k.factory.connections c).passive = false

theorem Opened.act {k : KPipe} {a : Action} (h : k.Opened) (henabled : k.Enabled a) :
    (k.act a).Opened := by
  intro c s hattached
  have hold : k.attached c = some s → ((k.act a).factory.connections c).phase ≠ .absent
      ∧ ((k.act a).factory.connections c).passive = false := by
    intro hwas
    obtain ⟨hpresent, hactive⟩ := h c s hwas
    obtain ⟨hphase, hpassive⟩ := present_act henabled hpresent
    exact ⟨hphase, hpassive.trans hactive⟩
  cases a with
  | attach cid =>
    by_cases hc : c = cid
    · subst hc
      simp [KPipe.act, react, PipeFactory.addConnection]
    · refine hold ?_
      simpa [KPipe.act, record, hc] using hattached
  | attachPipe pipe opens => cases opens <;> exact hold hattached
  | _ => exact hold hattached

theorem opened_of_run {k : KPipe} {as : List Action} (hrun : system.run {} as = some k) :
    k.Opened :=
  invariant_of_run (by simp [Opened]) (fun _ _ ↦ Opened.act) hrun

/-- After an answer on the connection the session is bound to it, and the connection was not
closed. -/
def Rebinds (cid s : ℕ) (k : KPipe) (a : Action) : Prop :=
  ∀ r ∈ k.reply a, r.1 = cid → (k.act a).factory.Bound s cid ∧ .close cid ∉ (k.react a).2

/-- An answer on the connection repeats an id under which the session is registered, while the
session is not ready, or finds another session in use while this one is bound to the connection. -/
def Repeats (cid s : ℕ) (k : KPipe) (a : Action) : Prop :=
  ∀ r ∈ k.reply a, r.1 = cid → ∃ s' ∈ k.factory.bindPipes r.2,
    if k.factory.isReady s' then k.factory.Bound s cid else s' = s

instance (cid s : ℕ) (k : KPipe) (a : Action) : Decidable (Repeats cid s k a) :=
  inferInstanceAs (Decidable (∀ r ∈ k.reply a, r.1 = cid → ∃ s' ∈ k.factory.bindPipes r.2,
    if k.factory.isReady s' then k.factory.Bound s cid else s' = s))

theorem rebinds_iff {k : KPipe} {cid : ℕ} (s : ℕ) (hwait : k.factory.unbindPipes cid = none)
    (a : Action) : Rebinds cid s k a ↔ Repeats cid s k a := by
  refine forall_congr' fun ⟨c, p⟩ ↦ forall_congr' fun hr ↦ forall_congr' fun hc ↦ ?_
  obtain rfl : cid = c := hc.symm
  obtain ⟨hreact, hp, hactive⟩ := react_of_reply hr
  rw [act_of_reply hr, hreact]
  rcases k.factory.processClientHandshake_cases cid p with ⟨session, -, hfound, hready, heq⟩
    | ⟨session, -, hfound, hready, heq⟩ | ⟨session, -, hfound, hunbind, heq⟩
    | ⟨-, hfound, hunbind, heq⟩ | ⟨hbody, -⟩
  · simp [heq, hfound, hready]
  · have hbound := k.factory.bound_bind_updatePipeid session cid p
    simp only [heq, hfound, Option.mem_def, Option.some.injEq, exists_eq_left', hready,
      Bool.false_eq_true, if_false]
    constructor
    · exact fun h ↦ hbound.eq h.1
    · rintro rfl
      exact ⟨hbound, by simp⟩
  · exact absurd (hunbind.symm.trans hwait) (by simp)
  · simp [heq, hfound]
  · exact absurd hbody hp

/-- **A pipe that got its id from the server survives a reconnect exactly when the server repeats
the id.** From every state in which a session attached without an id is bound to its connection, in
every continuation: all answers on the connection leave the session bound to it, and the connection
is not closed, exactly when every answer finds the session under its id, or finds nothing to do. -/
theorem rebinds_iff_repeats {k : KPipe} {as : List Action} (hrun : system.run {} as = some k)
    {cid s : ℕ} (hattached : k.attached cid = some s) (hbound : k.factory.Bound s cid)
    (bs : List Action) :
    system.Along (Rebinds cid s) k bs ↔ system.Along (Repeats cid s) k bs := by
  have hregistered := registered_of_run hrun
  obtain ⟨hpresent, hactive⟩ := opened_of_run hrun cid s hattached
  have hwait : k.factory.unbindPipes cid = none := by
    by_contra hsome
    obtain ⟨s', hs'⟩ := Option.ne_none_iff_exists'.mp hsome
    obtain ⟨hown, -, hready⟩ := hregistered.waiting cid s' hs' hactive
    obtain rfl := Option.some.inj (hown.symm.trans hattached)
    exact absurd (hbound.1.symm.trans hready) (by decide)
  -- The session is not waiting any more, and will not be again.
  refine StepSystem.along_iff_of_invariant
    (I := fun k ↦ (k.factory.connections cid).phase ≠ .absent
      ∧ (k.factory.connections cid).passive = false ∧ k.factory.unbindPipes cid = none)
    ⟨hpresent, hactive, hwait⟩ (fun k a t hk hstep ↦ ?_) fun k a t hk _ ↦ rebinds_iff s hk.2.2 a
  obtain ⟨henabled, rfl⟩ := step_eq_some.mp hstep
  obtain ⟨hpresent, hactive, hwait⟩ := hk
  obtain ⟨hpresent', hpassive⟩ := present_act henabled hpresent
  refine ⟨hpresent', hpassive.trans hactive, ?_⟩
  have hattach : a ≠ .attach cid := by
    rintro rfl
    exact hpresent henabled.1
  by_contra hsome
  obtain ⟨s', hs'⟩ := Option.ne_none_iff_exists'.mp hsome
  exact absurd ((unbindPipes_of_act henabled hattach (fun _ ↦ hactive) hs').symm.trans hwait)
    (by simp)

/-- The server was restarted and hands out the same id again. -/
theorem rebinds_same_id :
    ∃ k, system.run {} [.attach 1025, .connected 1025,
        .data 1025 (PipeMsg.shakeHand (generatedId 0)).bytes] = some k
      ∧ system.Along (Rebinds 1025 0) k [.leave 1025, .disconnect 1025, .connected 1025,
        .data 1025 (PipeMsg.shakeHand (generatedId 0)).bytes] := by
  have hiff := @rebinds_iff_repeats _ [.attach 1025, .connected 1025,
    .data 1025 (PipeMsg.shakeHand (generatedId 0)).bytes] rfl 1025 0 rfl (by decide)
  exact ⟨_, rfl, (hiff _).mpr (by decide)⟩

/-- The connection of the pipe is lost, and the client reconnects without naming an id: the server
hands out the next one, and the client closes the connection. -/
theorem next_id_not_found :
    ∃ k, system.run {} [.attach 1025, .connected 1025,
        .data 1025 (PipeMsg.shakeHand (generatedId 0)).bytes] = some k
      ∧ k.attached 1025 = some 0 ∧ k.factory.Bound 0 1025
      ∧ ∃ t, system.run k [.leave 1025, .disconnect 1025] = some t
        ∧ .send 1025 (.shakeHand []) ∈ (t.react (.connected 1025)).2
        ∧ ¬Rebinds 1025 0 (t.act (.connected 1025))
          (.data 1025 (PipeMsg.shakeHand (generatedId 1)).bytes) := by
  refine ⟨_, rfl, rfl, by decide, _, rfl, by decide, fun h ↦ ?_⟩
  exact absurd (h (1025, generatedId 1) (by decide) rfl).2 (by decide)

/-- Two servers hand out the same id: the second session is not bound. -/
theorem same_id_not_bound :
    ∃ k, system.run {} [.attach 1025, .attach 1026, .connected 1025, .connected 1026,
        .data 1025 (PipeMsg.shakeHand (generatedId 0)).bytes] = some k
      ∧ k.Enabled (.data 1026 (PipeMsg.shakeHand (generatedId 0)).bytes)
      ∧ ¬k.BindsOwn (.data 1026 (PipeMsg.shakeHand (generatedId 0)).bytes) := by
  refine ⟨_, rfl, by decide, fun h ↦ ?_⟩
  exact absurd ((h (1026, generatedId 0) (by decide)).2 1 rfl) (by decide)

end KPipe

end Knet.Pipe
