import Knet.Kcp.Life

/-!
# The end of a session and the other end

`disconnect` sends a goodbye message, and the other end has no case for it: in `CONN_KCP_READY` it
is handed to `ikcp_input` as if it were a segment, in `CONN_OPEN` it is answered with a handshake
request, and a connection that is closing ignores it. So the other end learns nothing from it, and
the two ends agree on the end of the session only when the other had ended it already.

The two connection objects are followed with a record of who has called `disconnect` and who has
processed the goodbye message of the other.
-/

namespace Knet.Kcp

/-- The datagram is a goodbye message. -/
def isGoodbye (d : List UInt8) : Bool := (KcpMsgHead.ofBytes d).type = some .goodbye

namespace KcpConnection

variable {κ : Type*} (lib : Ikcp κ)

/-! ## What a connection sends -/

theorem isGoodbye_sendControl {c : KcpConnection κ} {t : KcpMsgType} {id : UInt32}
    (ht : t ≠ .goodbye) : ∀ d ∈ c.sendControl t id, isGoodbye d = false := by
  intro d hd
  rw [sendControl] at hd
  split_ifs at hd
  · rw [List.mem_singleton.mp hd, isGoodbye, KcpMsgHead.ofBytes_bytes, KcpMsgHead.type_control]
    simpa using ht
  · exact absurd hd List.not_mem_nil

theorem isGoodbye_requestOnOpen (c : KcpConnection κ) (serverConvIndex conv : UInt32) :
    ∀ d ∈ (c.requestOnOpen lib serverConvIndex conv).sent, isGoodbye d = false := by
  obtain ⟨index, heq⟩ := requestOnOpen_eq lib c serverConvIndex conv
  rw [heq]
  dsimp only
  split_ifs
  · exact isGoodbye_sendControl (by decide)
  · simp

theorem isGoodbye_receive (c : KcpConnection κ) (serverConvIndex : UInt32) (head : KcpMsgHead)
    (data : List UInt8) :
    ∀ d ∈ (c.receive lib serverConvIndex head data).sent, isGoodbye d = false := by
  have hcheck : ∀ d ∈ (c.checkControlMessage lib serverConvIndex head).sent,
      isGoodbye d = false := by
    rw [checkControlMessage]
    split
    · split
      · exact isGoodbye_requestOnOpen lib c serverConvIndex head.conv
      · simp
      · simp
      · exact isGoodbye_sendControl (by decide)
    · split
      · exact isGoodbye_sendControl (by decide)
      · simp
      · simp
      · simp
    · split <;> simp
  rw [receive]
  split_ifs <;> exact hcheck

theorem isGoodbye_send (c : KcpConnection κ) (data : List UInt8) :
    ∀ d ∈ (c.send lib data).2.1, isGoodbye d = false := by
  rw [send]
  split_ifs
  · split <;> simp
  · exact isGoodbye_sendControl (by decide)

theorem isGoodbye_tick (c : KcpConnection κ) (now : UInt32) :
    ∀ d ∈ (c.tick lib now).2, isGoodbye d = false := by
  have hsegment : ∀ k, ∀ d ∈ (lib.update k now).2, isGoodbye d = false := by
    intro k d hd
    rw [isGoodbye, lib.type_update k now d hd]
    rfl
  rw [tick]
  split
  · rename_i k _
    by_cases hready : c.connStatus = .kcpReady
    · rw [if_pos hready]
      dsimp only
      split_ifs
      · exact hsegment k
      · simp
    · rw [if_neg hready]
      simp
  · simp

theorem isGoodbye_heartbeatFires (c : KcpConnection κ) (elapseTime : ℤ) :
    ∀ d ∈ (c.heartbeatFires elapseTime).2, isGoodbye d = false := by
  rw [heartbeatFires]
  split_ifs
  · simp
  · simp
  · exact isGoodbye_sendControl (by decide)

/-! ## A session that is over stays over -/

/-- The connection does not become open or ready, and does not forget that it was told of a
disconnect. -/
structure Ages (c c' : KcpConnection κ) : Prop where
  opened : c'.connStatus = .opened → c.connStatus = .opened
  ready : c'.connStatus = .kcpReady → c.connStatus = .kcpReady
  told : Entry.disconnect ∈ c.log → Entry.disconnect ∈ c'.log

theorem Undisturbed.ages {c c' : KcpConnection κ} (h : Undisturbed c c') : Ages c c' := by
  refine ⟨fun ho ↦ h.status.symm.trans ho, fun hr ↦ h.status.symm.trans hr, fun ht ↦ ?_⟩
  rw [disconnect_mem_iff] at ht ⊢
  exact h.events ▸ ht

theorem ages_receive {c : KcpConnection κ} (hopen : c.connStatus ≠ .opened)
    (serverConvIndex : UInt32) (head : KcpMsgHead) (data : List UInt8) :
    Ages c (c.receive lib serverConvIndex head data).conn := by
  rcases receive_cases lib c serverConvIndex head data with h | h | h
  · exact absurd h.opened hopen
  · refine ⟨fun ho ↦ absurd (h.ready.symm.trans ho) (by decide), fun _ ↦ h.before, fun ht ↦ ?_⟩
    rw [disconnect_mem_iff] at ht ⊢
    exact h.events ▸ ht
  · exact h.ages

theorem ages_release {c c' : KcpConnection κ} (hlog : Entry.disconnect ∈ c.log →
    Entry.disconnect ∈ c'.log) : Ages c c'.release := by
  have hclosed := connStatus_release c'
  refine ⟨fun ho ↦ absurd (hclosed.symm.trans ho) (by decide),
    fun hr ↦ absurd (hclosed.symm.trans hr) (by decide), fun ht ↦ ?_⟩
  rw [disconnect_mem_iff, events_release, ← disconnect_mem_iff]
  exact hlog ht

theorem ages_heartbeatFires (c : KcpConnection κ) (elapseTime : ℤ) :
    Ages c (c.heartbeatFires elapseTime).1 := by
  rw [heartbeatFires]
  split_ifs
  · exact ages_release fun h ↦ List.mem_append_left _ h
  · exact ⟨id, id, fun h ↦ List.mem_append_left _ h⟩
  · exact ⟨id, id, id⟩

theorem ages_disconnect (c : KcpConnection κ) : Ages c c.disconnect.1 := by
  rw [disconnect]
  split_ifs
  · exact ⟨by simp, by simp, id⟩
  · exact ⟨id, id, id⟩

/-- **A goodbye message has no effect on the session**, in any status. -/
theorem receive_goodbye (c : KcpConnection κ) (serverConvIndex : UInt32) {head : KcpMsgHead}
    (htype : head.type = some .goodbye) (data : List UInt8) :
    Undisturbed c (c.receive lib serverConvIndex head data).conn := by
  have hcheck : (c.checkControlMessage lib serverConvIndex head).conn = c := by
    rw [checkControlMessage, htype]
    split <;> rfl
  rw [receive]
  split_ifs
  · rw [hcheck]
    exact ⟨rfl, rfl, rfl⟩
  · dsimp only
    rw [hcheck]
    exact handleReceive_undisturbed lib c data

/-- The connection has left its session and knows it. -/
def HasLeft (c : KcpConnection κ) : Prop := c.connStatus ≠ .kcpReady ∧ Entry.disconnect ∈ c.log

instance decidableHasLeft (c : KcpConnection κ) : Decidable c.HasLeft :=
  inferInstanceAs (Decidable (_ ∧ _))

theorem HasLeft.ages {c c' : KcpConnection κ} (h : c.HasLeft) (ha : Ages c c') : c'.HasLeft :=
  ⟨fun hr ↦ h.1 (ha.ready hr), ha.told h.2⟩

end KcpConnection

/-! ## The two ends -/

namespace World

variable {κ : Type*} {lib : Ikcp κ} {w t : World κ}

/-- The action replaces one of the two connection objects. -/
def Action.isRestart : Action → Bool
  | .restartClient .. | .restartServer => true
  | _ => false

/-- The end that processes a goodbye message with this action. -/
def parted (w : World κ) : Action → Option Side
  | .deliver e i _ => if ((w.net e)[i]?).any isGoodbye then some e else none
  | _ => none

/-- The end that calls `disconnect` with this action. -/
def Action.parting : Action → Option Side
  | .disconnect e => some e
  | _ => none

theorem mem_net_update {e e' : Side} {l : List (List UInt8)} (hl : ∀ d ∈ l, d ∈ w.net e)
    {d : List UInt8} (h : d ∈ Function.update w.net e l e') : d ∈ w.net e' := by
  by_cases he : e' = e
  · subst he
    rw [Function.update_self] at h
    exact hl d h
  · rwa [Function.update_of_ne he] at h

/-- What one action does to two connections that have left `CONN_OPEN`: at most one of them moves
on, and only `disconnect` puts a goodbye message on the way. -/
structure MovesOn (w : World κ) (a : Action) (t : World κ) : Prop where
  conn : ∀ e c, w.conn e = some c → ∃ c', t.conn e = some c' ∧ c.Ages c'
  net : ∀ e, ∀ d ∈ t.net e, isGoodbye d = true → d ∈ w.net e ∨ a.parting = some e.other

theorem movesOn_of_conn {a : Action} (hconn : t.conn = w.conn)
    (hnet : ∀ e, ∀ d ∈ t.net e, d ∈ w.net e) : MovesOn w a t := by
  refine ⟨fun e c hc ↦ ⟨c, ?_, id, id, id⟩, fun e d hd _ ↦ .inl (hnet e d hd)⟩
  rw [hconn, hc]

theorem movesOn_act {a : Action} {w' : World κ} {e : Side} {c c' : KcpConnection κ}
    {sent : List (List UInt8)} (hconn : w'.conn = w.conn)
    (hnet : ∀ e, ∀ d ∈ w'.net e, d ∈ w.net e) (hc : w.conn e = some c) (hages : c.Ages c')
    (hsent : ∀ d ∈ sent, isGoodbye d = true → a.parting = some e) :
    MovesOn w a (w'.act e c' sent) := by
  refine ⟨fun e' b hb ↦ ?_, fun e' d hd hbye ↦ ?_⟩
  · rcases e.eq_or_eq_other e' with rfl | rfl
    · obtain rfl := Option.some.inj (hc.symm.trans hb)
      exact ⟨c', conn_act_self, hages⟩
    · refine ⟨b, ?_, id, id, id⟩
      rw [conn_act_other, hconn, hb]
  · rcases mem_net_act_cases hd with hold | ⟨rfl, hnew⟩
    · exact .inl (hnet e' d hold)
    · rw [Side.other_other]
      exact .inr (hsent d hnew hbye)

theorem not_goodbye {sent : List (List UInt8)} {p : Prop} (h : ∀ d ∈ sent, isGoodbye d = false) :
    ∀ d ∈ sent, isGoodbye d = true → p :=
  fun d hd hbye ↦ absurd ((h d hd).symm.trans hbye) (by decide)

theorem receiver_eq {e : Side} {cid : UInt32} {c c' : KcpConnection κ} (hc : w.conn e = some c)
    (hr : w.receiver e cid = some c') : c' = c := by
  rw [receiver.eq_def, hc] at hr
  cases e <;> exact (Option.some.inj (Option.ite_none_right_eq_some.mp hr).2).symm

theorem movesOn_step {a : Action} (hopen : ∀ e, ∃ c, w.conn e = some c ∧ c.connStatus ≠ .opened)
    (ha : a.isRestart = false) (hstep : (system lib).step w a = some t) : MovesOn w a t := by
  have hsame : ∀ e, ∀ d ∈ w.net e, d ∈ w.net e := fun _ _ h ↦ h
  cases a with
  | deliver e i cid =>
    obtain ⟨d, c', hd, hr, rfl⟩ := step_deliver hstep
    obtain ⟨c, hc, hne⟩ := hopen e
    obtain rfl := receiver_eq hc hr
    exact movesOn_act (by rfl) (fun e' x hx ↦ mem_net_update (fun y hy ↦
      List.mem_of_mem_eraseIdx hy) hx) hc (KcpConnection.ages_receive lib hne _ _ _)
      (not_goodbye (KcpConnection.isGoodbye_receive lib _ _ _ _))
  | lose e i =>
    obtain rfl := Option.some.inj hstep
    exact movesOn_of_conn rfl fun e' x hx ↦ mem_net_update (fun y hy ↦
      List.mem_of_mem_eraseIdx hy) hx
  | duplicate e i =>
    obtain ⟨d, hd, rfl⟩ := Option.map_eq_some_iff.mp hstep
    exact movesOn_of_conn rfl fun e' x hx ↦ mem_net_update (fun y hy ↦
      mem_of_mem_repeated hd hy) hx
  | send e data =>
    obtain ⟨c, hc, rfl⟩ := Option.map_eq_some_iff.mp hstep
    exact movesOn_act rfl hsame hc (KcpConnection.send_undisturbed lib c data).ages
      (not_goodbye (KcpConnection.isGoodbye_send lib c data))
  | tick e now =>
    obtain ⟨c, hc, hsome⟩ := Option.bind_eq_some_iff.mp hstep
    obtain ⟨-, hsome⟩ := Option.ite_none_right_eq_some.mp hsome
    obtain rfl := Option.some.inj hsome
    exact movesOn_act rfl hsame hc (KcpConnection.tick_undisturbed lib c now).ages
      (not_goodbye (KcpConnection.isGoodbye_tick lib c now))
  | heartbeat e elapseTime =>
    obtain ⟨c, hc, hsome⟩ := Option.bind_eq_some_iff.mp hstep
    obtain ⟨-, hsome⟩ := Option.ite_none_right_eq_some.mp hsome
    obtain rfl := Option.some.inj hsome
    exact movesOn_act rfl hsame hc (KcpConnection.ages_heartbeatFires c elapseTime)
      (not_goodbye (KcpConnection.isGoodbye_heartbeatFires c elapseTime))
  | disconnect e =>
    obtain ⟨c, hc, rfl⟩ := Option.map_eq_some_iff.mp hstep
    exact movesOn_act rfl hsame hc (KcpConnection.ages_disconnect c) fun _ _ _ ↦ rfl
  | disconnectDone e =>
    obtain ⟨c, hc, hsome⟩ := Option.bind_eq_some_iff.mp hstep
    obtain ⟨-, hsome⟩ := Option.ite_none_right_eq_some.mp hsome
    obtain rfl := Option.some.inj hsome
    exact movesOn_act rfl hsame hc
      (KcpConnection.ages_release fun h ↦ List.mem_append_left _ h) (by simp)
  | restartClient cid reconn => exact Bool.noConfusion ha
  | restartServer => exact Bool.noConfusion ha
  | allocate =>
    obtain rfl := Option.some.inj hstep
    exact movesOn_of_conn rfl hsame

end World

/-- Two connection objects, with a record of their parting. -/
structure Parting (κ : Type*) where
  world : World κ
  /-- The end has called `disconnect`. -/
  left : Side → Bool := fun _ ↦ false
  /-- The end has processed a goodbye message. -/
  told : Side → Bool := fun _ ↦ false

namespace Parting

variable {κ : Type*} (lib : Ikcp κ)

/-- The mark is set for the end, if there is one. -/
def mark (f : Side → Bool) : Option Side → Side → Bool
  | some e => Function.update f e true
  | none => f

/-- One step of the two objects. They are no longer the same two when one is replaced. -/
def step (p : Parting κ) (a : World.Action) : Option (Parting κ) :=
  if a.isRestart then none
  else ((World.system lib).step p.world a).map fun w ↦
    ⟨w, mark p.left a.parting, mark p.told (p.world.parted a)⟩

/-- The step system of the two objects. -/
def system : StepSystem (Parting κ) World.Action := ⟨step lib⟩

/-- Two connections, both ready, with the same conversation, and nobody has said goodbye. -/
structure Connected (w : World κ) : Prop where
  ready : ∀ e, ∃ c, w.conn e = some c ∧ c.connStatus = .kcpReady
  conv : ∃ conv, ∀ e, ∀ c ∈ w.conn e, c.kcp.map lib.conv = some conv
  quiet : ∀ e, ∀ d ∈ w.net e, isGoodbye d = false

/-- **Teardown agreement.** Once an end has called `disconnect` and its goodbye message was
processed by the other, the other has left the session and was told `EVT_DISCONNECT`. -/
def Agreed (p : Parting κ) : Prop :=
  ∀ e, p.left e.other = true → p.told e = true → ∀ c ∈ p.world.conn e, c.HasLeft

/-- A goodbye message comes to an end that has left the session by itself. -/
def Late (p : Parting κ) (a : World.Action) : Prop :=
  ∀ e ∈ p.world.parted a, ∀ c ∈ p.world.conn e, c.HasLeft

instance decidableLate (p : Parting κ) (a : World.Action) : Decidable (Late p a) :=
  inferInstanceAs (Decidable (∀ e ∈ p.world.parted a, ∀ c ∈ p.world.conn e, c.HasLeft))

/-- The invariant of two objects that part. -/
structure Inv (p : Parting κ) : Prop where
  conn : ∀ e, ∃ c, p.world.conn e = some c ∧ c.connStatus ≠ .opened
  /-- Who has said goodbye has called `disconnect`. -/
  announced : ∀ e, ∀ d ∈ p.world.net e, isGoodbye d = true → p.left e.other = true
  announced_told : ∀ e, p.told e = true → p.left e.other = true
  hasLeft : ∀ e, p.told e = true → ∀ c ∈ p.world.conn e, c.HasLeft

variable {lib} {p q : Parting κ}

theorem mark_eq_true {f : Side → Bool} {o : Option Side} {e : Side} :
    mark f o e = true ↔ f e = true ∨ o = some e := by
  cases o with
  | none => simp [mark]
  | some e' =>
    by_cases he : e = e'
    · simp [mark, he]
    · simp [mark, Function.update_of_ne he, Ne.symm he]

theorem inv_of_connected {w : World κ} (h : Connected lib w) :
    Inv ({ world := w } : Parting κ) := by
  refine ⟨fun e ↦ ?_, fun e d hd hbye ↦ ?_, by simp, by simp⟩
  · obtain ⟨c, hc, hready⟩ := h.ready e
    exact ⟨c, hc, by rw [hready]; decide⟩
  · exact absurd ((h.quiet e d hd).symm.trans hbye) (by decide)

theorem step_eq_some {a : World.Action} (hstep : (system lib).step p a = some q) :
    a.isRestart = false ∧ ∃ w, (World.system lib).step p.world a = some w
      ∧ q = ⟨w, mark p.left a.parting, mark p.told (p.world.parted a)⟩ := by
  simp only [system, step] at hstep
  split_ifs at hstep with ha
  obtain ⟨w, hw, hq⟩ := Option.map_eq_some_iff.mp hstep
  exact ⟨Bool.eq_false_iff.mpr ha, w, hw, hq.symm⟩

theorem parted_eq_some {w : World κ} {a : World.Action} {e : Side} (h : w.parted a = some e) :
    ∃ i cid d, a = .deliver e i cid ∧ (w.net e)[i]? = some d ∧ isGoodbye d = true := by
  cases a with
  | deliver e' i cid =>
    simp only [World.parted] at h
    split_ifs at h with hany
    obtain rfl := Option.some.inj h
    obtain ⟨d, hd, hbye⟩ := (Option.any_eq_true _ _).mp hany
    exact ⟨i, cid, d, rfl, hd, hbye⟩
  | _ => exact absurd h (by simp [World.parted])

/-- The end that processes a goodbye message has left the session after it exactly when it had
before. -/
theorem hasLeft_parted (hconn : ∀ e, ∃ c, p.world.conn e = some c) {a : World.Action} {e : Side}
    {t : World κ} (he : p.world.parted a = some e)
    (hstep : (World.system lib).step p.world a = some t) :
    (∀ c ∈ t.conn e, c.HasLeft) ↔ ∀ c ∈ p.world.conn e, c.HasLeft := by
  obtain ⟨i, cid, d, rfl, hd, hbye⟩ := parted_eq_some he
  obtain ⟨d', c', hd', hr, rfl⟩ := World.step_deliver hstep
  obtain ⟨c, hc⟩ := hconn e
  obtain rfl := World.receiver_eq hc hr
  obtain rfl := Option.some.inj (hd.symm.trans hd')
  have hsame := KcpConnection.receive_goodbye lib c' p.world.serverConvIndex
    (of_decide_eq_true hbye) d
  rw [World.conn_act_self, hc]
  simp only [Option.mem_some_iff, forall_eq', KcpConnection.HasLeft,
    KcpConnection.disconnect_mem_iff, hsame.status, hsame.events]

/-- **A step and the parting.** -/
theorem Inv.step (h : Inv p) {a : World.Action} (hstep : (system lib).step p a = some q) :
    (Late p a → Inv q) ∧ (Agreed q → Late p a) := by
  obtain ⟨ha, t, ht, rfl⟩ := step_eq_some hstep
  have hmoves := World.movesOn_step h.conn ha ht
  have hconn : ∀ e, ∃ c, p.world.conn e = some c := fun e ↦ (h.conn e).imp fun _ hc ↦ hc.1
  have hannounced : ∀ e, p.world.parted a = some e → p.left e.other = true := by
    intro e he
    obtain ⟨i, cid, d, rfl, hd, hbye⟩ := parted_eq_some he
    exact h.announced e d (List.mem_of_getElem? hd) hbye
  constructor
  · intro hlate
    refine ⟨fun e ↦ ?_, fun e d hd hbye ↦ ?_, fun e he ↦ ?_, fun e he c' hc' ↦ ?_⟩
    · obtain ⟨c, hc, hopen⟩ := h.conn e
      obtain ⟨c', hc', hages⟩ := hmoves.conn e c hc
      exact ⟨c', hc', fun ho ↦ hopen (hages.opened ho)⟩
    · rw [mark_eq_true]
      rcases hmoves.net e d hd hbye with hold | hnew
      · exact .inl (h.announced e d hold hbye)
      · exact .inr hnew
    · rw [mark_eq_true] at he ⊢
      rcases he with he | he
      · exact .inl (h.announced_told e he)
      · exact .inl (hannounced e he)
    · rw [mark_eq_true] at he
      obtain ⟨c, hc⟩ := hconn e
      obtain ⟨c'', hc'', hages⟩ := hmoves.conn e c hc
      obtain rfl := Option.some.inj (hc''.symm.trans hc')
      rcases he with he | he
      · exact (h.hasLeft e he c hc).ages hages
      · exact (hlate e he c hc).ages hages
  · intro hagreed e he
    have htold := hagreed e (mark_eq_true.mpr (.inl (hannounced e he)))
      (mark_eq_true.mpr (.inr he))
    exact (hasLeft_parted hconn he ht).mp htold

/-- **The ends agree on the end of a session exactly when every goodbye message comes late.** From
any two connections that are ready with the same conversation, by any interleaving of datagrams
lost, duplicated and reordered, calls, time-outs and completions: an end that has processed the
goodbye message of the other has left the session and was told so, in every state, exactly when each
goodbye message that is processed finds an end that has left the session and was told so before. -/
theorem agreed_iff_late {w : World κ} (h : Connected lib w) (as : List World.Action) :
    (system lib).Throughout Agreed { world := w } as
      ↔ (system lib).Along Late { world := w } as := by
  refine StepSystem.throughout_iff_along_of_invariant (inv_of_connected h) ?_ ?_
    (StepSystem.along_of_forall (fun _ _ ↦ trivial) _ _)
  · intro p hp e _ htold
    exact hp.hasLeft e htold
  · intro p a q _ hp hstep _
    exact hp.step hstep

/-- Two ends that have just agreed on the conversation `conv`. -/
def joined (lib : Ikcp κ) (conv : UInt32) : World κ where
  conn e := some ((KcpConnection.begun e conv true).initKcp lib).connected
  net _ := []
  serverConvIndex := 0x1000

theorem connected_joined (lib : Ikcp κ) (conv : UInt32) : Connected lib (joined lib conv) := by
  refine ⟨fun e ↦ ⟨_, rfl, rfl⟩, ⟨conv, fun e c hc ↦ ?_⟩, by simp [joined]⟩
  obtain rfl := Option.some.inj hc
  cases e <;> exact congrArg some (lib.conv_create conv)

/-- Both ends disconnect, and the client's goodbye message comes when the server is through. -/
theorem agreed_both_disconnect :
    ∃ p, (system World.bareIkcp).run { world := joined World.bareIkcp 7 }
        [.disconnect .server, .disconnectDone .server, .disconnect .client,
          .deliver .server 0 0] = some p
      ∧ p.left .client = true ∧ p.told .server = true ∧ Agreed p := by
  have hiff := agreed_iff_late (connected_joined World.bareIkcp 7)
    [.disconnect .server, .disconnectDone .server, .disconnect .client, .deliver .server 0 0]
  exact ⟨_, rfl, rfl, rfl, (hiff.mpr (by decide)).last rfl⟩

/-- The client disconnects, and the server processes its goodbye message: it stays ready. -/
theorem goodbye_ignored :
    ∃ p, (system World.bareIkcp).run { world := joined World.bareIkcp 7 }
        [.disconnect .client, .deliver .server 0 0] = some p
      ∧ p.left .client = true ∧ p.told .server = true
      ∧ (p.world.conn .server).map (·.connStatus) = some .kcpReady ∧ ¬Agreed p := by
  refine ⟨_, rfl, rfl, rfl, rfl, fun h ↦ ?_⟩
  have hleft := h .server rfl rfl _ rfl
  exact absurd hleft (by decide)

end Parting

end Knet.Kcp
