import Knet.Kcp.Handshake
import Knet.Kcp.Ikcp

/-!
# An established session and handshake messages that come late

Every `send` before the handshake is over repeats the request, and the network may duplicate and
delay it, so handshake messages reach ends that are ready and in the middle of a conversation. An
end answers with `init_kcp`, which releases the `kcp` object and creates a new one with the same id:
what was queued, in flight or reassembled is gone, and the numbering starts again, while the other
end knows nothing of it. The session survives only where there was nothing to lose.
-/

namespace Knet.Kcp

namespace World

variable (io : IkcpIo)

/-- What the `kcp` object of the end `e` has to send and has received, if there is one. -/
def transport (w : World Ikcpcb) (e : Side) : Option Transport :=
  (w.conn e).bind fun c ↦ c.kcp.map Ikcpcb.toTransport

/-- Both ends are ready with the id `conv`, and what is in flight are handshake messages that carry
this id. -/
structure Established (conv : UInt32) (w : World Ikcpcb) : Prop where
  ready : ∀ e, ∃ c k, w.conn e = some c ∧ c.connStatus = .kcpReady ∧ c.cid = conv
    ∧ c.kcp = some k ∧ k.conv = conv
  shakehand : ∀ e, ∀ d ∈ w.net e, isShakehand d = true
  carries : ∀ e, ∀ d ∈ w.net e, (KcpMsgHead.ofBytes d).conv = conv

/-- Something the network does with a datagram in flight. -/
def Action.isNetwork : Action → Bool
  | .deliver .. | .lose .. | .duplicate .. => true
  | _ => false

/-- The end that a datagram reaches. -/
def Action.target : Action → Option Side
  | .deliver e _ _ => some e
  | _ => none

/-- A datagram that arrives reaches an end whose `kcp` object has sent and received nothing. -/
def Blank (w : World Ikcpcb) (a : Action) : Prop := ∀ e ∈ a.target, w.transport e = some {}

instance decidableBlank (w : World Ikcpcb) (a : Action) : Decidable (Blank w a) :=
  inferInstanceAs (Decidable (∀ e ∈ a.target, w.transport e = some {}))

variable {io} {conv : UInt32} {w : World Ikcpcb}

theorem transport_act_self {e : Side} {c : KcpConnection Ikcpcb} {sent : List (List UInt8)} :
    (w.act e c sent).transport e = c.kcp.map Ikcpcb.toTransport := by
  rw [transport, conn_act_self, Option.bind_some]

theorem transport_act_other {e : Side} {c : KcpConnection Ikcpcb} {sent : List (List UInt8)} :
    (w.act e c sent).transport e.other = w.transport e.other := by
  rw [transport, conn_act_other, transport]

theorem Established.update_net (h : Established conv w) {e : Side} {ds : List (List UInt8)}
    (hds : ∀ d ∈ ds, d ∈ w.net e) (index : UInt32) :
    Established conv ⟨w.conn, Function.update w.net e ds, index⟩ := by
  have hmem : ∀ e', ∀ d ∈ Function.update w.net e ds e', d ∈ w.net e' := by
    intro e' d hd
    by_cases he : e' = e
    · subst he
      rw [Function.update_self] at hd
      exact hds d hd
    · rwa [Function.update_of_ne he] at hd
  exact ⟨h.ready, fun e' d hd ↦ h.shakehand e' d (hmem e' d hd),
    fun e' d hd ↦ h.carries e' d (hmem e' d hd)⟩

/-- An end that stays ready with the id and answers with a handshake message. -/
theorem Established.act (h : Established conv w) {e : Side} {c : KcpConnection Ikcpcb}
    {k : Ikcpcb} (hready : c.connStatus = .kcpReady) (hcid : c.cid = conv) (hkcp : c.kcp = some k)
    (hconv : k.conv = conv) {sent : List (List UInt8)}
    (hsent : ∀ d ∈ sent, d = (KcpMsgHead.control .shakehandResponse conv).bytes) :
    Established conv (w.act e c sent) := by
  refine ⟨fun e' ↦ ?_, fun e' d hd ↦ ?_, fun e' d hd ↦ ?_⟩
  · rcases e.eq_or_eq_other e' with rfl | rfl
    · exact ⟨c, k, conn_act_self, hready, hcid, hkcp, hconv⟩
    · rw [conn_act_other]
      exact h.ready e.other
  · rcases mem_net_act hd with hold | hnew
    · exact h.shakehand e' d hold
    · rw [hsent d hnew, isShakehand, KcpMsgHead.ofBytes_bytes, KcpMsgHead.type_control]
      rfl
  · rcases mem_net_act hd with hold | hnew
    · exact h.carries e' d hold
    · rw [hsent d hnew, KcpMsgHead.ofBytes_bytes]
      rfl

theorem mem_shakehandResponse {c : KcpConnection Ikcpcb} {d : List UInt8}
    (hd : d ∈ c.shakehandResponse c.cid) :
    d = (KcpMsgHead.control .shakehandResponse c.cid).bytes := by
  rw [KcpConnection.shakehandResponse, ite_self, KcpConnection.sendControl] at hd
  split_ifs at hd
  · exact List.mem_singleton.mp hd
  · exact absurd hd List.not_mem_nil

/-- **A handshake message at a ready end starts the conversation anew**, under the same id. -/
theorem receive_shakehand (io : IkcpIo) {c : KcpConnection Ikcpcb}
    (hready : c.connStatus = .kcpReady) {d : List UInt8} (hshake : isShakehand d = true)
    (hcarries : (KcpMsgHead.ofBytes d).conv = c.cid) (index : UInt32) :
    let r := c.receive io.lib index (.ofBytes d) d
    r.conn.connStatus = .kcpReady ∧ r.conn.cid = c.cid
      ∧ r.conn.kcp = some (io.lib.create c.cid)
      ∧ ∀ x ∈ r.sent, x = (KcpMsgHead.control .shakehandResponse c.cid).bytes := by
  -- the id in the message is the one the end has, so that taking it over changes nothing
  have hid : ∀ P : Prop, ∀ _ : Decidable P,
      (if P then { c with cid := (KcpMsgHead.ofBytes d).conv } else c) = c := by
    intro P _
    rw [hcarries]
    exact ite_self c
  rw [isShakehand, Bool.or_eq_true, decide_eq_true_iff, decide_eq_true_iff] at hshake
  dsimp only
  rw [KcpConnection.receive, KcpConnection.checkControlMessage]
  split
  · exact absurd (hready.symm.trans ‹_›) (by decide)
  · rcases hshake with htype | htype
    · simp only [htype, hid, if_true]
      exact ⟨rfl, rfl, rfl, fun x hx ↦ mem_shakehandResponse hx⟩
    · simp only [htype, hid, if_true]
      exact ⟨rfl, rfl, rfl, by simp⟩
  · exact absurd hready ‹_›

/-- **One step of the network.** The session stays established, and a datagram that arrives leaves
the end with nothing sent and nothing received; the rest is untouched. -/
theorem Established.step (h : Established conv w) {a : Action} {t : World Ikcpcb}
    (ha : a.isNetwork = true) (hstep : (system io.lib).step w a = some t) :
    Established conv t
      ∧ ∀ e, t.transport e = if a.target = some e then some {} else w.transport e := by
  cases a with
  | deliver e i cid =>
    obtain ⟨c, k, hc, hready, rfl, hkcp, hconv⟩ := h.ready e
    obtain ⟨d, c', hd, hc', rfl⟩ := step_deliver hstep
    obtain rfl : c = c' := by
      simp only [receiver, hc] at hc'
      split_ifs at hc'
      exact Option.some.inj hc'
    have hmem := List.mem_of_getElem? hd
    -- `init_kcp` has released the object and made a new one
    obtain ⟨hready', hcid, hkcp', hsent⟩ := receive_shakehand io hready
      (h.shakehand e d hmem) (h.carries e d hmem) w.serverConvIndex
    refine ⟨(h.update_net (fun x hx ↦ List.mem_of_mem_eraseIdx hx) _).act hready' hcid hkcp' rfl
      hsent, fun e' ↦ ?_⟩
    have htarget : (Action.deliver e i cid).target = some e := rfl
    rcases e.eq_or_eq_other e' with rfl | rfl
    · rw [htarget, if_pos rfl, transport_act_self, hkcp']
      rfl
    · rw [htarget, if_neg fun heq ↦ e.other_ne (Option.some.inj heq).symm, transport_act_other]
      rfl
  | lose e i =>
    obtain rfl := Option.some.inj hstep
    exact ⟨h.update_net (fun x hx ↦ List.mem_of_mem_eraseIdx hx) _, fun e' ↦ rfl⟩
  | duplicate e i =>
    obtain ⟨d, hd, rfl⟩ := Option.map_eq_some_iff.mp hstep
    exact ⟨h.update_net (fun x hx ↦ mem_of_mem_repeated hd hx) _, fun e' ↦ rfl⟩
  | _ => exact absurd ha (by simp [Action.isNetwork])

/-- **A session survives late handshake messages exactly where it has nothing to lose.** From a
state in which both ends are ready with the same id and only handshake messages with this id are in
flight, whatever the network does with these and with the answers to them: what the two `kcp`
objects have to send and have received stays untouched throughout exactly when every datagram that
arrives reaches an end whose object has sent and received nothing. -/
theorem untouched_iff_blank (h : Established conv w) {as : List Action}
    (has : ∀ a ∈ as, a.isNetwork = true) :
    (system io.lib).Throughout (fun t ↦ ∀ e, t.transport e = w.transport e) w as
      ↔ (system io.lib).Along Blank w as := by
  refine StepSystem.throughout_iff_along_of_invariant
    (I := fun t ↦ Established conv t ∧ ∀ e, t.transport e = w.transport e) ⟨h, fun _ ↦ rfl⟩
    (fun t ht ↦ ht.2) ?_ (StepSystem.along_of_forall (fun _ _ ↦ trivial) _ _)
  rintro s a t ha ⟨hs, hsame⟩ hstep -
  obtain ⟨ht, htransport⟩ := hs.step (has a ha) hstep
  constructor
  · intro hblank
    refine ⟨ht, fun e ↦ ?_⟩
    rw [htransport e]
    split_ifs with htarget
    · rw [← hsame e]
      exact (hblank e htarget).symm
    · exact hsame e
  · intro huntouched e htarget
    rw [hsame e, ← huntouched e, htransport e]
    exact if_pos htarget

/-- The request was duplicated, and the copy arrives before anything was sent. -/
theorem untouched_early_duplicate :
    ∃ w, (system IkcpIo.silent.lib).run (start 7 true)
        [.duplicate .server 0, .deliver .server 0 1025, .deliver .client 0 0] = some w
      ∧ (system IkcpIo.silent.lib).Throughout (fun t ↦ ∀ e, t.transport e = w.transport e) w
        [.deliver .server 0 0, .deliver .client 0 0] := by
  refine ⟨_, rfl, (@untouched_iff_blank _ 7 _ ⟨?_, ?_, ?_⟩ _ (by decide)).mpr (by decide)⟩
  · intro e
    cases e <;> exact ⟨_, _, rfl, rfl, rfl, rfl, rfl⟩
  · intro e
    cases e <;> decide
  · intro e
    cases e <;> decide

/-- The server has accepted a message of two bytes, and then the copy of the request arrives: the
message is gone. -/
theorem message_lost_to_duplicate :
    ∃ w, (system IkcpIo.silent.lib).run (start 7 true)
        [.duplicate .server 0, .deliver .server 0 1025, .deliver .client 0 0,
          .send .server [104, 105]] = some w
      ∧ Established 7 w
      ∧ (w.transport .server).map (·.sndQueue.map (·.data)) = some [[104, 105]]
      ∧ ¬(system IkcpIo.silent.lib).Throughout (fun t ↦ ∀ e, t.transport e = w.transport e) w
        [.deliver .server 0 0] := by
  refine ⟨_, rfl, ⟨?_, ?_, ?_⟩, rfl, ?_⟩
  · intro e
    cases e <;> exact ⟨_, _, rfl, rfl, rfl, rfl, rfl⟩
  · intro e
    cases e <;> decide
  · intro e
    cases e <;> decide
  · intro h
    have hserver := h.last rfl .server
    exact absurd hserver (by decide)

end World

end Knet.Kcp
