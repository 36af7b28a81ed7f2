import Knet.Kcp.Buffer

/-!
# What a conversation is for

Two objects, an unreliable network, and users who may change any setting at any time as long as an
MTU that they set leaves room for what waits (`Setting.LeavesRoom`). Then no flush runs past the end
of its buffer, and

* **what an end has received is a beginning of what the other one has sent**
  (`received_prefix_sent`);
* **when an end waits for nothing, what is missing stands in the queues of the other one**
  (`complete_of_waitsnd`);
* **an end takes everything that the other one has put out without an error** (`input_out`).

Who does not lower the MTU leaves room, and what is put out is not longer than it (`length_le_mtu`).
-/

namespace Knet.Kcp

namespace Peers

variable {w : Peers} {conv : UInt32} {as : List Action}

/-- The setting that is made leaves room for what waits. -/
def LeavesRoom (p : Peer) : Action → Prop
  | .set _ s => s.LeavesRoom p.kcp
  | _ => True

instance decidablePeerLeavesRoom (p : Peer) : ∀ a, Decidable (LeavesRoom p a)
  | .set _ s => decidableLeavesRoom p.kcp s
  | .send .. | .recv .. | .update .. | .flush _ | .input .. | .stray .. => isTrue trivial

theorem intact_act {p p' q : Peer} {a : Action} (h : p.kcp.Intact) (hroom : LeavesRoom p a)
    (hact : act p p' a = some q) : q.kcp.Intact := by
  cases a with
  | send e data =>
    obtain ⟨-, hq⟩ := Option.ite_none_right_eq_some.mp hact
    obtain rfl := Option.some.inj hq
    rw [Peer.kcp_send]
    exact h.send data
  | recv e len =>
    obtain rfl := Option.some.inj hact
    rw [Peer.kcp_recv]
    exact h.recv len
  | update e now =>
    obtain rfl := Option.some.inj hact
    exact h.update now
  | flush e =>
    obtain rfl := Option.some.inj hact
    exact h.flush
  | input e i =>
    obtain ⟨d, -, rfl⟩ := Option.map_eq_some_iff.mp hact
    exact h.input d
  | stray e d =>
    obtain ⟨-, hq⟩ := Option.ite_none_right_eq_some.mp hact
    obtain rfl := Option.some.inj hq
    exact h.input d
  | set e s =>
    obtain ⟨-, hq⟩ := Option.ite_none_right_eq_some.mp hact
    obtain rfl := Option.some.inj hq
    exact h.apply hroom

/-- **No flush runs past the end of its buffer.** -/
theorem intact_of_run (hrun : system.run (start conv) as = some w)
    (hroom : system.Along (fun w a ↦ LeavesRoom (w a.side) a) (start conv) as) (e : Side) :
    (w e).kcp.Intact :=
  each_of_run (P := fun p ↦ p.kcp.Intact) (Ikcpcb.intact_create conv)
    (fun _ _ _ _ h hroom hact ↦ intact_act h hroom hact) hroom hrun e

-- The segment has 223 bytes, and the block for an MTU of 50 has 222.
example : (system.run (start 7)
    [.send .client (List.replicate 199 0), .set .client (.setMtu 50), .update .client 0,
      .update .client 100]).map (fun w ↦ (w .client).kcp.overrun) = some true := by
  decide +kernel

/-! ## The MTU -/

/-- The block for an MTU that is set is smaller than `2 ^ 32` bytes. -/
def SizesBlock : Action → Prop
  | .set _ (.setMtu mtu) => (mtu + overhead) * 3 < 2 ^ 32
  | _ => True

instance decidableSizesBlock : ∀ a, Decidable (SizesBlock a)
  | .set _ (.setMtu mtu) => inferInstanceAs (Decidable ((mtu + overhead) * 3 < 2 ^ 32))
  | .set _ (.nodelay ..) | .set _ (.wndsize ..) | .set _ (.setInterval _) => isTrue trivial
  | .send .. | .recv .. | .update .. | .flush _ | .input .. | .stray .. => isTrue trivial

/-- Who does not lower the MTU leaves room: what waits was cut for a smaller one. -/
theorem leavesRoom_of_keepsMtu {p : Peer} {a : Action} (h : p.kcp.Intact) (hkeep : KeepsMtu p a)
    (hsize : SizesBlock a) : LeavesRoom p a := by
  cases a with
  | set e s =>
    cases s with
    | setMtu mtu =>
      rcases hkeep with hlow | hup
      · exact .inl hlow
      · refine .inr ⟨fun seg hseg ↦ ?_, hsize⟩
        have hlen : seg.data.length ≤ p.kcp.mss.toNat := by
          rcases List.mem_append.mp hseg with hqueue | hbuf
          · exact h.holds.sndQueue seg hqueue
          · exact (h.holds.sndBuf seg hbuf).2.2
        have hmatch := h.matching
        omega
    | nodelay | wndsize | setInterval => trivial
  | send | recv | update | flush | input | stray => trivial

theorem intact_of_keepsMtu (hrun : system.run (start conv) as = some w)
    (hkeep : system.Along (fun w a ↦ KeepsMtu (w a.side) a) (start conv) as)
    (hsize : system.Along (fun _ a ↦ SizesBlock a) (start conv) as) (e : Side) :
    (w e).kcp.Intact :=
  each_of_run (P := fun p ↦ p.kcp.Intact) (C := fun p a ↦ KeepsMtu p a ∧ SizesBlock a)
    (Ikcpcb.intact_create conv)
    (fun _ _ _ _ h hc hact ↦ intact_act h (leavesRoom_of_keepsMtu h hc.1 hc.2) hact)
    (hkeep.and hsize) hrun e

/-- **No datagram is empty, and none is longer than the MTU**, as long as the MTU is not lowered.
Unless the size of a block is too large for 32 bits, they are written within the block. -/
theorem length_le_mtu (hrun : system.run (start conv) as = some w)
    (hkeep : system.Along (fun w a ↦ KeepsMtu (w a.side) a) (start conv) as) {e : Side}
    {d : List UInt8} (hd : d ∈ (w e).out) :
    d ≠ [] ∧ d.length ≤ (w e).kcp.mtu.toNat
      ∧ (system.Along (fun _ a ↦ SizesBlock a) (start conv) as → (w e).kcp.overrun = false) := by
  obtain ⟨hne, hlen⟩ := (framed_of_keepsMtu hrun hkeep e).out d hd
  exact ⟨hne, hlen, fun hsize ↦ (intact_of_keepsMtu hrun hkeep hsize e).overrun⟩

/-- The network loses the first datagram and repeats the second one. -/
def lossy : List Action :=
  [.send .client [104, 105], .update .client 0, .update .client 100, .update .client 400,
    .input .server 1, .input .server 1, .recv .server 2]

theorem length_le_mtu_lossy :
    ∃ w, system.run (start 7) lossy = some w
      ∧ ∀ d ∈ (w .client).out, d ≠ [] ∧ d.length ≤ (w .client).kcp.mtu.toNat
        ∧ (w .client).kcp.overrun = false :=
  ⟨_, rfl, fun _ hd ↦
    have h := @length_le_mtu _ 7 lossy rfl (by decide) .client _ hd
    ⟨h.1, h.2.1, h.2.2 (by decide)⟩⟩

/-! ## Messages -/

/-- **What an end has received is a beginning of what the other one has sent**: no message is lost
in between, none comes twice, none is changed and none comes out of order. -/
theorem received_prefix_sent (hrun : system.run (start conv) as = some w)
    (hroom : system.Along (fun w a ↦ LeavesRoom (w a.side) a) (start conv) as) (hsmall : w.Small) :
    ∀ e, (w e).kcp.overrun = false ∧ (w e).received <+: (w e.other).sent :=
  fun e ↦ ⟨(intact_of_run hrun hroom e).overrun, ((inv_of_run hrun hsmall).talk e).received⟩

/-- The MTU is lowered before anything waits. The network loses the first datagram and repeats the
second one. -/
def lowered : List Action := .set .client (.setMtu 60) :: lossy

theorem received_prefix_sent_lowered :
    ∃ w, system.run (start 7) lowered = some w ∧ (w .server).received = [[104, 105]]
      ∧ (w .server).received <+: (w .client).sent :=
  ⟨_, rfl, rfl,
    (@received_prefix_sent _ 7 lowered rfl (by decide) (fun e ↦ by cases e <;> decide) .server).2⟩

/-- **When an end waits for nothing, nothing is missing at the other one**: what has not been
received stands in the queues there, in order. -/
theorem complete_of_waitsnd (hrun : system.run (start conv) as = some w)
    (hroom : system.Along (fun w a ↦ LeavesRoom (w a.side) a) (start conv) as) (hsmall : w.Small)
    (e : Side) (hwait : (w e).kcp.waitsnd = 0) :
    (w e).kcp.overrun = false
      ∧ (w e).sent.flatten = (w e.other).received.flatten
        ++ ((w e.other).kcp.rcvQueue ++ (w e.other).kcp.rcvBuf).flatMap (·.data) := by
  have hinv := inv_of_run hrun hsmall
  have htalk := hinv.talk e
  obtain ⟨rest, hrest⟩ := htalk.received'
  have hmissing := htalk.conversation.forth.complete hwait
  have hdata : ((w e.other).kcp.rcvQueue ++ (w e.other).kcp.rcvBuf).flatMap (·.data)
      = joined (((w e).cut.drop (w e.other).received.length).flatten) := by
    rw [← hmissing, joined, List.flatMap_map]
    rfl
  have hjoined : ∀ bs : List (List Piece), joined bs.flatten = (bs.map joined).flatten := by
    intro bs
    induction bs with
    | nil => rfl
    | cons b bs ih =>
      rw [List.flatten_cons, joined, List.flatMap_append, ← joined, ← joined, ih, List.map_cons,
        List.flatten_cons]
  refine ⟨(intact_of_run hrun hroom e).overrun, ?_⟩
  rw [hdata, hjoined, List.map_drop, (hinv.own e).sent, ← hrest, List.drop_left,
    List.flatten_append]

/-- The message arrives, and so does its acknowledgement. -/
def acknowledged : List Action :=
  [.set .client (.setMtu 60), .send .client [104, 105], .update .client 0, .update .client 100,
    .input .server 0, .update .server 50, .input .client 0]

theorem complete_of_waitsnd_acknowledged :
    ∃ w, system.run (start 7) acknowledged = some w
      ∧ (w .client).sent.flatten = (w .server).received.flatten
        ++ ((w .server).kcp.rcvQueue ++ (w .server).kcp.rcvBuf).flatMap (·.data) :=
  ⟨_, rfl, (@complete_of_waitsnd _ 7 acknowledged rfl (by decide)
    (fun e ↦ by cases e <;> decide) .client rfl).2⟩

/-- **An end takes everything that the other end has put out without an error**, in every state that
such a run can reach. -/
theorem input_out (hrun : system.run (start conv) as = some w)
    (hroom : system.Along (fun w a ↦ LeavesRoom (w a.side) a) (start conv) as) {e : Side}
    {d : List UInt8} (hd : d ∈ (w e.other).out) :
    (w e.other).kcp.overrun = false ∧ 0 ≤ ((w e).kcp.input d).2 := by
  obtain ⟨hconv, hall⟩ := isDatagram_of_run hrun e.other
  obtain ⟨segs, hne, rfl, hsegs⟩ := hall d hd
  refine ⟨(intact_of_run hrun hroom e.other).overrun, Ikcpcb.input_datagram hne fun seg hseg ↦ ?_⟩
  obtain ⟨hseg, hcmd, hlen⟩ := hsegs seg hseg
  rw [hseg, hconv, (isDatagram_of_run hrun e).1]
  exact ⟨rfl, hcmd, Nat.lt_of_le_sub_one (by decide) hlen⟩

theorem input_out_lowered :
    ∃ w, system.run (start 7) lowered = some w
      ∧ ∀ d ∈ (w .client).out, 0 ≤ ((w .server).kcp.input d).2 :=
  ⟨_, rfl, fun _ hd ↦ (@input_out _ 7 lowered rfl (by decide) .server _ hd).2⟩

end Peers

end Knet.Kcp
