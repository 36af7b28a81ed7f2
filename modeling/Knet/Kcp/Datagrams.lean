import Knet.Kcp.Peers

/-!
# The datagrams of a conversation

What an object puts out are datagrams of whole segments of its conversation (`isDatagram_of_run`),
none empty and, unless the MTU is lowered, **none longer than the MTU** (`framed_of_keepsMtu`).
-/

namespace Knet.Kcp

/-- A datagram of segments of the conversation, at least one, with at most `n` bytes of data
each. -/
def IsDatagram (conv : UInt32) (n : ℕ) (d : List UInt8) : Prop :=
  ∃ segs, segs ≠ [] ∧ d = datagram segs
    ∧ ∀ seg ∈ segs, seg.conv = conv ∧ IsCommand seg.cmd ∧ seg.data.length ≤ n

namespace Ikcpcb

/-- The segments that an object has to send are of its conversation, and have at most `n` bytes of
data each. -/
structure Holds (k : Ikcpcb) (n : ℕ) : Prop where
  sndQueue : ∀ seg ∈ k.sndQueue, seg.data.length ≤ n
  sndBuf : ∀ seg ∈ k.sndBuf, seg.conv = k.conv ∧ seg.cmd = cmdPush ∧ seg.data.length ≤ n

variable {k : Ikcpcb} {n : ℕ}

theorem holds_create (conv : UInt32) (n : ℕ) : (create conv).Holds n :=
  ⟨fun _ h ↦ absurd h List.not_mem_nil, fun _ h ↦ absurd h List.not_mem_nil⟩

theorem Holds.mono {n' : ℕ} (h : k.Holds n) (hle : n ≤ n') : k.Holds n' :=
  ⟨fun seg hseg ↦ (h.sndQueue seg hseg).trans hle, fun seg hseg ↦ by
    obtain ⟨hconv, hcmd, hlen⟩ := h.sndBuf seg hseg
    exact ⟨hconv, hcmd, hlen.trans hle⟩⟩

theorem Holds.shrink {k' : Ikcpcb} (h : k.Holds n) (hconv : k'.conv = k.conv)
    (hqueue : k'.sndQueue = k.sndQueue) (hbuf : ∀ seg ∈ k'.sndBuf, seg ∈ k.sndBuf) :
    k'.Holds n where
  sndQueue := by rw [hqueue]; exact h.sndQueue
  sndBuf seg hseg := by rw [hconv]; exact h.sndBuf seg (hbuf seg hseg)

theorem length_of_mem_fragments {mss count : ℕ} {data : List UInt8} {seg : Ikcpseg}
    (h : seg ∈ fragments mss false count data) : seg.data.length ≤ min mss data.length := by
  induction count generalizing data with
  | zero => exact absurd h List.not_mem_nil
  | succ count ih =>
    rw [fragments] at h
    rcases List.mem_cons.mp h with rfl | h
    · exact Nat.le_of_eq (List.length_take ..)
    · refine (ih h).trans (Nat.le_min.mpr ⟨Nat.min_le_left _ _, ?_⟩)
      rw [List.length_drop]
      exact (Nat.min_le_right _ _).trans (Nat.sub_le _ _)

/-- **Pieces of a message are not longer than the segment size**, nor than the message. -/
theorem Holds.send {data : List UInt8} (h : k.Holds n) (hstream : k.stream = 0)
    (hlen : min k.mss.toNat data.length ≤ n) : (k.send data).1.Holds n := by
  have hno : ¬k.stream ≠ 0 := not_not.mpr hstream
  rw [Ikcpcb.send]
  simp only [hno, false_and, if_false, decide_false]
  generalize (if data.length ≤ k.mss.toNat then 1
    else (data.length + k.mss.toNat - 1) / k.mss.toNat) = count
  split_ifs
  · exact h
  · refine ⟨fun seg hseg ↦ ?_, h.sndBuf⟩
    rcases List.mem_append.mp hseg with hseg | hseg
    · exact h.sndQueue seg hseg
    · exact (length_of_mem_fragments hseg).trans hlen

theorem Holds.recv (h : k.Holds n) (len : ℕ) : (k.recv len).1.Holds n := by
  obtain ⟨-, hqueue, hbuf, -⟩ := recv_sender k len
  exact h.shrink (conv_recv k len) hqueue fun seg hseg ↦ hbuf ▸ hseg

theorem Holds.inputSegment (h : k.Holds n) (seg : Ikcpseg) : (k.inputSegment seg).Holds n := by
  obtain ⟨k₁, hsame, hrel, heq⟩ := inputSegment_spec k seg
  have h₁ : k₁.Holds n := h.shrink hsame.conv hsame.sndQueue fun s hs ↦ hrel.sublist.subset hs
  rw [heq]
  split_ifs
  · obtain ⟨-, hqueue, hbuf, -⟩ := inputPush_sender k₁ seg
    exact h₁.shrink (conv_inputPush k₁ seg) hqueue fun s hs ↦ hbuf ▸ hs
  · exact h₁

theorem Holds.input (h : k.Holds n) (d : List UInt8) : (k.input d).1.Holds n := by
  refine input_induction (P := fun k ↦ k.Holds n) h (fun seg _ k _ _ hk ↦ hk.inputSegment seg)
    (fun k sn hk ↦ ?_) fun k prevUna hk ↦ ?_
  · rw [parseFastack]
    split_ifs
    · refine ⟨hk.sndQueue, fun s hs ↦ ?_⟩
      rcases mem_countSkipped hs with hs | ⟨s₀, hs₀, rfl⟩
      · exact hk.sndBuf s hs
      · exact hk.sndBuf s₀ hs₀
    · exact hk
  · obtain ⟨hsame, hbuf⟩ := growWindow_spec k prevUna
    exact hk.shrink hsame.conv hsame.sndQueue fun s hs ↦ hbuf ▸ hs

/-! ## What a flush puts out -/

theorem conv_moved (k : Ikcpcb) : k.moved.conv = k.conv :=
  congrArg Settings.conv (settings_moved k)

theorem Holds.moved (h : k.Holds n) : k.moved.Holds n := by
  have hconv := conv_moved k
  obtain ⟨hsame, hbuf, -⟩ := probeWindow_spec k
  obtain ⟨segs, rest, hsplit, heq, -⟩ := moveQueued_eq k.probeWindow.sendWindow
    { k.probeWindow with acklist := [], probe := 0 } k.probeWindow.sndQueue
  have hqueue : ∀ seg ∈ segs ++ rest, seg.data.length ≤ n := by
    rw [← hsplit, hsame.sndQueue]
    exact h.sndQueue
  rw [Ikcpcb.moved, heq] at hconv ⊢
  refine ⟨fun seg hseg ↦ hqueue seg (List.mem_append_right _ hseg), fun seg hseg ↦ ?_⟩
  dsimp only at hconv hseg ⊢
  rcases List.mem_append.mp hseg with hseg | hseg
  · rw [hconv]
    exact h.sndBuf seg (hbuf ▸ hseg)
  · rw [numberedAll] at hseg
    obtain ⟨i, hi, rfl⟩ := List.mem_mapIdx.mp hseg
    have hlen : segs[i].data.length ≤ n :=
      hqueue _ (List.mem_append_left _ (List.getElem_mem hi))
    exact ⟨rfl, rfl, hlen⟩

/-- **A flush keeps the segments, and puts out datagrams of them.** When the segments fit into the
MTU, so do the datagrams, and the buffer is large enough. -/
theorem Holds.flush (h : k.Holds n) : k.flush.1.Holds n ∧ (∀ d ∈ k.flush.2, IsDatagram k.conv n d)
    ∧ (overhead + n ≤ k.mtu.toNat → (∀ d ∈ k.flush.2, d.length ≤ k.mtu.toNat)
      ∧ (Roomy k.mtu → k.flush.1.overrun = k.overrun)) := by
  by_cases hupd : k.updated = 0
  · rw [Ikcpcb.flush, if_pos hupd]
    exact ⟨h, fun _ hd ↦ absurd hd List.not_mem_nil, fun _ ↦
      ⟨fun _ hd ↦ absurd hd List.not_mem_nil, fun _ ↦ rfl⟩⟩
  obtain ⟨hsame, hbuf, -⟩ := flush_state hupd
  obtain ⟨packs, hout, hsegs, hne, hle⟩ := flush_output hupd
  have hmoved := h.moved
  have hall : ∀ seg ∈ packs.flatten, seg.conv = k.conv ∧ IsCommand seg.cmd
      ∧ seg.data.length ≤ n := by
    intro seg hseg
    rw [hsegs] at hseg
    rcases List.mem_append.mp hseg with hseg | hseg
    · obtain ⟨hdata, hconv, -, hcmd, -, -⟩ := mem_controlSegs hseg
      refine ⟨hconv, hcmd, ?_⟩
      rw [hdata]
      exact Nat.zero_le n
    · obtain ⟨s₀, hs₀, r, rfl⟩ := mem_due hseg
      obtain ⟨-, hcmd, hconv, -, hdata, -⟩ := stamped_spec k.moved s₀ r
      obtain ⟨hconv₀, hcmd₀, hlen⟩ := hmoved.sndBuf s₀ hs₀
      rw [hconv, hcmd, hdata]
      exact ⟨hconv₀.trans (conv_moved k), .inl hcmd₀, hlen⟩
  refine ⟨⟨?_, fun seg hseg ↦ ?_⟩, fun d hd ↦ ?_, fun hroom ↦ hle fun seg hseg ↦ ?_⟩
  · rw [hsame.sndQueue]
    exact hmoved.sndQueue
  · rw [hbuf] at hseg
    obtain ⟨s₀, hs₀, rfl⟩ := List.mem_map.mp hseg
    obtain ⟨-, hcmd, hconv, -, hdata⟩ := swept_spec k.moved s₀
    rw [hconv, hcmd, hdata, hsame.conv]
    exact hmoved.sndBuf s₀ hs₀
  · rw [hout] at hd
    obtain ⟨pack, hpack, rfl⟩ := List.mem_map.mp hd
    exact ⟨pack, hne pack hpack, rfl, fun seg hseg ↦ hall seg (List.mem_flatten_of_mem hpack hseg)⟩
  · exact (Nat.add_le_add_left (hall seg hseg).2.2 _).trans hroom

theorem Holds.update (h : k.Holds n) (now : UInt32) :
    (k.update now).1.Holds n ∧ (∀ d ∈ (k.update now).2, IsDatagram k.conv n d)
      ∧ (overhead + n ≤ k.mtu.toNat → (∀ d ∈ (k.update now).2, d.length ≤ k.mtu.toNat)
        ∧ (Roomy k.mtu → (k.update now).1.overrun = k.overrun)) := by
  obtain ⟨updated, tsFlush, heq | heq⟩ := k.update_cases now
  · rw [heq]
    exact Holds.flush (k := { k with current := now, updated := updated, tsFlush := tsFlush })
      ⟨h.sndQueue, h.sndBuf⟩
  · rw [heq]
    exact ⟨⟨h.sndQueue, h.sndBuf⟩, fun _ hd ↦ absurd hd List.not_mem_nil,
      fun _ ↦ ⟨fun _ hd ↦ absurd hd List.not_mem_nil, fun _ ↦ rfl⟩⟩

theorem conv_apply (s : Setting) (k : Ikcpcb) : (s.apply k).conv = k.conv := by
  cases s with
  | nodelay nd interval resend nc =>
    rw [Setting.apply, setNodelay]
    split_ifs <;> rfl
  | wndsize sndwnd rcvwnd =>
    rw [Setting.apply, wndsize]
    split_ifs <;> rfl
  | setInterval interval => rfl
  | setMtu mtu =>
    rw [Setting.apply, setMtu]
    split_ifs <;> rfl

theorem Holds.apply (h : k.Holds n) (s : Setting) : (s.apply k).Holds n := by
  obtain ⟨htransport, -⟩ := toTransport_apply s k
  exact h.shrink (conv_apply s k) (congrArg Transport.sndQueue htransport) fun seg hseg ↦
    congrArg Transport.sndBuf htransport ▸ hseg

end Ikcpcb

/-- **A segment is no control message**: the byte behind the conversation id is one of the commands
of the protocol. -/
theorem type_of_isDatagram {conv : UInt32} {n : ℕ} {d : List UInt8} (h : IsDatagram conv n d) :
    (KcpMsgHead.ofBytes d).type = none := by
  obtain ⟨segs, hne, rfl, hsegs⟩ := h
  obtain ⟨seg, segs, rfl⟩ := List.exists_cons_of_ne_nil hne
  have hbyte : (datagram (seg :: segs)).getD 4 0 = UInt8.ofNat seg.cmd.toNat := by
    have hconv : (encodeu 4 seg.conv).length = 4 := length_encodeu 4 seg.conv
    rw [datagram, List.map_cons, List.flatten_cons, Ikcpseg.bytes, List.append_assoc,
      List.getD_eq_getElem?_getD, List.getElem?_append_right (Nat.le_of_eq hconv), hconv]
    rfl
  have htype : (KcpMsgHead.ofBytes (datagram (seg :: segs))).type
      = KcpMsgType.ofCode (UInt8.ofNat seg.cmd.toNat) := by
    rw [← hbyte]
    rfl
  rw [htype]
  rcases (hsegs seg List.mem_cons_self).2.1 with hcmd | hcmd | hcmd | hcmd <;> rw [hcmd] <;> decide

/-! ## What the ends have put out -/

/-- What an end keeps to send, and what it has put out, with bounds that may depend on its
settings. -/
structure Peer.Framed (b : Settings → ℕ) (R : Settings → List UInt8 → Prop) (p : Peer) : Prop where
  stream : p.kcp.stream = 0
  holds : p.kcp.Holds (b p.kcp.settings)
  out : ∀ d ∈ p.out, R p.kcp.settings d

namespace Peers

variable {w : Peers} {conv : UInt32} {a : Action} {p p' q : Peer}

/-- **Only the user changes settings.** -/
theorem settings_act (hact : act p p' a = some q) : q.kcp.settings = p.kcp.settings
    ∨ ∃ e s, a = .set e s ∧ s.InRange ∧ q = { p with kcp := s.apply p.kcp } := by
  cases a with
  | send e data =>
    obtain ⟨-, hq⟩ := Option.ite_none_right_eq_some.mp hact
    obtain rfl := Option.some.inj hq
    rw [Peer.kcp_send]
    exact .inl (Ikcpcb.settings_send _ _)
  | recv e len =>
    obtain rfl := Option.some.inj hact
    rw [Peer.kcp_recv]
    exact .inl (Ikcpcb.settings_recv _ _)
  | update e now =>
    obtain rfl := Option.some.inj hact
    exact .inl (Ikcpcb.settings_update _ _)
  | flush e =>
    obtain rfl := Option.some.inj hact
    exact .inl (Ikcpcb.settings_flush _)
  | input e i =>
    obtain ⟨d, -, rfl⟩ := Option.map_eq_some_iff.mp hact
    exact .inl (Ikcpcb.settings_input _ _)
  | stray e d =>
    obtain ⟨-, hq⟩ := Option.ite_none_right_eq_some.mp hact
    obtain rfl := Option.some.inj hq
    exact .inl (Ikcpcb.settings_input _ _)
  | set e s =>
    obtain ⟨hrange, hq⟩ := Option.ite_none_right_eq_some.mp hact
    obtain rfl := Option.some.inj hq
    exact .inr ⟨e, s, rfl, hrange, rfl⟩

theorem history_act (hact : act p p' a = some q) : q.cut = p.cut ∧ q.sent = p.sent
    ∨ ∃ e data, a = .send e data ∧ data.length < 2 ^ 31 ∧ q = p.send data := by
  cases a with
  | send e data =>
    obtain ⟨hlen, hq⟩ := Option.ite_none_right_eq_some.mp hact
    exact .inr ⟨e, data, rfl, hlen, (Option.some.inj hq).symm⟩
  | recv e len =>
    obtain rfl := Option.some.inj hact
    refine .inl ?_
    rw [Peer.recv]
    split <;> exact ⟨rfl, rfl⟩
  | update e now =>
    obtain rfl := Option.some.inj hact
    exact .inl ⟨rfl, rfl⟩
  | flush e =>
    obtain rfl := Option.some.inj hact
    exact .inl ⟨rfl, rfl⟩
  | input e i =>
    obtain ⟨d, -, rfl⟩ := Option.map_eq_some_iff.mp hact
    exact .inl ⟨rfl, rfl⟩
  | stray e d =>
    obtain ⟨-, hq⟩ := Option.ite_none_right_eq_some.mp hact
    obtain rfl := Option.some.inj hq
    exact .inl ⟨rfl, rfl⟩
  | set e s =>
    obtain ⟨-, hq⟩ := Option.ite_none_right_eq_some.mp hact
    obtain rfl := Option.some.inj hq
    exact .inl ⟨rfl, rfl⟩

theorem conv_act (hact : act p p' a = some q) : q.kcp.conv = p.kcp.conv := by
  rcases settings_act hact with hsettings | ⟨e, s, -, -, rfl⟩
  · exact congrArg Settings.conv hsettings
  · exact Ikcpcb.conv_apply s p.kcp

/-- The bounds are kept when `ikcp_send` keeps the first one, the datagrams of the conversation keep
the second one, and no setting narrows them. -/
theorem act_framed {b : Settings → ℕ} {R : Settings → List UInt8 → Prop} (h : p.Framed b R)
    (hsend : ∀ data : List UInt8, data.length < 2 ^ 31 →
      min p.kcp.mss.toNat data.length ≤ b p.kcp.settings)
    (hout : ∀ d, IsDatagram p.kcp.conv (b p.kcp.settings) d →
      (overhead + b p.kcp.settings ≤ p.kcp.mtu.toNat → d.length ≤ p.kcp.mtu.toNat) →
      R p.kcp.settings d)
    (hset : ∀ e s, a = .set e s → s.InRange → b p.kcp.settings ≤ b (s.apply p.kcp).settings
      ∧ ∀ d, R p.kcp.settings d → R (s.apply p.kcp).settings d)
    (hact : act p p' a = some q) : q.Framed b R := by
  have hsame : ∀ {q : Peer}, q.kcp.settings = p.kcp.settings → q.kcp.Holds (b p.kcp.settings) →
      (∀ d ∈ q.out, R p.kcp.settings d) → q.Framed b R := by
    intro q hsettings hholds hall
    refine ⟨(congrArg Settings.stream hsettings).trans h.stream, ?_, ?_⟩
    · rwa [hsettings]
    · rwa [hsettings]
  have hemit : ∀ {ds : List (List UInt8)},
      (∀ d ∈ ds, IsDatagram p.kcp.conv (b p.kcp.settings) d) →
      (overhead + b p.kcp.settings ≤ p.kcp.mtu.toNat → ∀ d ∈ ds, d.length ≤ p.kcp.mtu.toNat) →
      ∀ d ∈ p.out ++ ds, R p.kcp.settings d := by
    intro ds hds hlen
    exact List.forall_mem_append.mpr
      ⟨h.out, fun d hd ↦ hout d (hds d hd) fun hroom ↦ hlen hroom d hd⟩
  cases a with
  | send e data =>
    obtain ⟨hlen, hq⟩ := Option.ite_none_right_eq_some.mp hact
    obtain rfl := Option.some.inj hq
    refine hsame ?_ ?_ ?_
    · rw [Peer.kcp_send, Ikcpcb.settings_send]
    · rw [Peer.kcp_send]
      exact h.holds.send h.stream (hsend data hlen)
    · rw [Peer.out_send]
      exact h.out
  | recv e len =>
    obtain rfl := Option.some.inj hact
    refine hsame ?_ ?_ ?_
    · rw [Peer.kcp_recv, Ikcpcb.settings_recv]
    · rw [Peer.kcp_recv]
      exact h.holds.recv len
    · rw [Peer.out_recv]
      exact h.out
  | update e now =>
    obtain rfl := Option.some.inj hact
    obtain ⟨hholds, hall, hlen⟩ := h.holds.update now
    exact hsame (Ikcpcb.settings_update _ _) hholds (hemit hall fun hroom ↦ (hlen hroom).1)
  | flush e =>
    obtain rfl := Option.some.inj hact
    obtain ⟨hholds, hall, hlen⟩ := h.holds.flush
    exact hsame (Ikcpcb.settings_flush _) hholds (hemit hall fun hroom ↦ (hlen hroom).1)
  | input e i =>
    obtain ⟨d, -, rfl⟩ := Option.map_eq_some_iff.mp hact
    exact hsame (Ikcpcb.settings_input _ _) (h.holds.input d) h.out
  | stray e d =>
    obtain ⟨-, hq⟩ := Option.ite_none_right_eq_some.mp hact
    obtain rfl := Option.some.inj hq
    exact hsame (Ikcpcb.settings_input _ _) (h.holds.input d) h.out
  | set e s =>
    obtain ⟨hrange, hq⟩ := Option.ite_none_right_eq_some.mp hact
    obtain rfl := Option.some.inj hq
    obtain ⟨hle, hR⟩ := hset e s rfl hrange
    exact ⟨(Ikcpcb.stream_apply s p.kcp).trans h.stream, (h.holds.apply s).mono hle,
      fun d hd ↦ hR d (h.out d hd)⟩

theorem isDatagram_of_run {as : List Action} (hrun : system.run (start conv) as = some w)
    (e : Side) : (w e).kcp.conv = conv
      ∧ ∀ d ∈ (w e).out, IsDatagram (w e).kcp.conv (2 ^ 31 - 1) d := by
  have hall : (w e).kcp.conv = conv ∧ (w e).Framed (fun _ ↦ 2 ^ 31 - 1)
      fun s d ↦ IsDatagram s.conv (2 ^ 31 - 1) d := by
    refine each_of_run (P := fun p ↦ p.kcp.conv = conv ∧ p.Framed _ _) (C := fun _ _ ↦ True)
      ⟨rfl, rfl, Ikcpcb.holds_create conv _, fun _ hd ↦ absurd hd List.not_mem_nil⟩ ?_
      (StepSystem.along_of_forall (fun _ _ ↦ trivial) _ _) hrun e
    rintro p p' q a ⟨hconv, hp⟩ - hact
    refine ⟨(conv_act hact).trans hconv, act_framed hp (fun data hlen ↦ ?_) (fun d hd _ ↦ hd)
      (fun e s _ _ ↦ ⟨Nat.le_refl _, fun d hd ↦ ?_⟩) hact⟩
    · exact (Nat.min_le_right _ _).trans (Nat.le_sub_one_of_lt hlen)
    · have hsame : (s.apply p.kcp).settings.conv = p.kcp.settings.conv :=
        Ikcpcb.conv_apply s p.kcp
      rwa [hsame]
  exact ⟨hall.1, hall.2.out⟩

/-! ## The MTU -/

/-- The MTU is not lowered by this setting. A value below 50 is refused. -/
def Keeps (k : Ikcpcb) : Setting → Prop
  | .setMtu mtu => mtu < 50 ∨ (k.mtu.toNat : ℤ) ≤ mtu
  | _ => True

/-- The MTU is not lowered. -/
def KeepsMtu (p : Peer) : Action → Prop
  | .set _ s => Keeps p.kcp s
  | _ => True

instance decidableKeeps (k : Ikcpcb) : ∀ s, Decidable (Keeps k s)
  | .setMtu _ => inferInstanceAs (Decidable (_ ∨ _))
  | .nodelay .. | .wndsize .. | .setInterval _ => isTrue trivial

instance decidableKeepsMtu (p : Peer) : ∀ a, Decidable (KeepsMtu p a)
  | .set _ s => decidableKeeps p.kcp s
  | .send .. | .recv .. | .update .. | .flush _ | .input .. | .stray .. => isTrue trivial

/-- The segment size goes with the MTU. -/
def Matching (k : Ikcpcb) : Prop := overhead + k.mss.toNat = k.mtu.toNat

theorem apply_spec {k : Ikcpcb} {s : Setting} (h : Matching k) (hrange : s.InRange)
    (hkeep : Keeps k s) :
    Matching (s.apply k) ∧ k.mtu.toNat ≤ (s.apply k).mtu.toNat := by
  cases s with
  | nodelay nd interval resend nc =>
    rw [Setting.apply, Ikcpcb.setNodelay]
    split_ifs <;> exact ⟨h, Nat.le_refl _⟩
  | wndsize sndwnd rcvwnd =>
    rw [Setting.apply, Ikcpcb.wndsize]
    split_ifs <;> exact ⟨h, Nat.le_refl _⟩
  | setInterval interval => exact ⟨h, Nat.le_refl _⟩
  | setMtu mtu =>
    rw [Setting.apply, Ikcpcb.setMtu]
    split_ifs with hsmall
    · exact ⟨h, Nat.le_refl _⟩
    · obtain ⟨h50, -⟩ := not_or.mp hsmall
      obtain ⟨hmtu, hmss⟩ := Ikcpcb.toNat_mtu (Int.not_lt.mp h50) hrange
      have hup := hkeep.resolve_left h50
      rw [Matching]
      dsimp only
      rw [hmss, overhead]
      omega

/-- Segments are not longer than the segment size, and datagrams not longer than the MTU. -/
theorem framed_of_keepsMtu {as : List Action} (hrun : system.run (start conv) as = some w)
    (hkeep : system.Along (fun w a ↦ KeepsMtu (w a.side) a) (start conv) as) (e : Side) :
    (w e).Framed (fun s ↦ s.mss.toNat) fun s d ↦ d ≠ [] ∧ d.length ≤ s.mtu.toNat := by
  have hall : Matching (w e).kcp ∧ (w e).Framed (fun s ↦ s.mss.toNat)
      fun s d ↦ d ≠ [] ∧ d.length ≤ s.mtu.toNat := by
    refine each_of_run (P := fun p ↦ Matching p.kcp ∧ p.Framed _ _)
      ⟨rfl, rfl, Ikcpcb.holds_create conv _, fun _ hd ↦ absurd hd List.not_mem_nil⟩ ?_ hkeep hrun e
    rintro p p' q a ⟨hmatch, hp⟩ hkeep hact
    have hframed := act_framed hp (fun data _ ↦ Nat.min_le_left _ _) (fun d hd hlen ↦ ?_)
      (fun e s heq hrange ↦ ?_) hact
    · refine ⟨?_, hframed⟩
      rcases settings_act hact with hsettings | ⟨e, s, rfl, hrange, rfl⟩
      · have hmss : q.kcp.mss = p.kcp.mss := congrArg Settings.mss hsettings
        have hmtu : q.kcp.mtu = p.kcp.mtu := congrArg Settings.mtu hsettings
        rw [Matching, hmss, hmtu]
        exact hmatch
      · exact (apply_spec hmatch hrange hkeep).1
    · obtain ⟨segs, hne, rfl, -⟩ := hd
      refine ⟨fun hnil ↦ ?_, hlen (Nat.le_of_eq hmatch)⟩
      obtain ⟨seg, segs, rfl⟩ := List.exists_cons_of_ne_nil hne
      have hpos := congrArg List.length hnil
      rw [datagram, List.map_cons, List.flatten_cons, List.length_append, length_bytes,
        overhead] at hpos
      exact absurd hpos (by rw [List.length_nil]; omega)
    · subst heq
      obtain ⟨hmatch', hle⟩ := apply_spec hmatch hrange hkeep
      refine ⟨?_, fun d hd ↦ ⟨hd.1, hd.2.trans hle⟩⟩
      have hmss : p.kcp.mss.toNat ≤ (s.apply p.kcp).mss.toNat := by
        rw [Matching] at hmatch hmatch'
        omega
      exact hmss
  exact hall.2

/-! ## How many segments there are -/

theorem length_fragments (mss count : ℕ) (data : List UInt8) :
    (Ikcpcb.fragments mss false count data).length = count := by
  induction count generalizing data with
  | zero => rfl
  | succ count ih => rw [Ikcpcb.fragments, List.length_cons, ih]

theorem length_send {k : Ikcpcb} (hstream : k.stream = 0) (hmss : 0 < k.mss.toNat)
    (data : List UInt8) :
    ((k.send data).1.sndQueue.drop k.sndQueue.length).length ≤ data.length + 1 := by
  have hno : ¬k.stream ≠ 0 := not_not.mpr hstream
  have hcount : (if data.length ≤ k.mss.toNat then 1
      else (data.length + k.mss.toNat - 1) / k.mss.toNat) ≤ data.length + 1 := by
    split_ifs with hone
    · exact Nat.le_add_left _ _
    · refine Nat.div_le_of_le_mul ?_
      have hmul := Nat.mul_le_mul_right data.length hmss
      rw [Nat.mul_succ]
      omega
  rw [Ikcpcb.send]
  simp only [hno, false_and, if_false, decide_false]
  generalize (if data.length ≤ k.mss.toNat then 1
    else (data.length + k.mss.toNat - 1) / k.mss.toNat) = count at hcount
  split_ifs
  · rw [List.drop_length]
    exact Nat.zero_le _
  · rw [List.drop_left, length_fragments]
    exact hcount

/-- **An end has made at most one segment more than bytes for each message.** -/
theorem length_cut {as : List Action} (hrun : system.run (start conv) as = some w) (e : Side) :
    (w e).cut.flatten.length ≤ ((w e).sent.map (·.length + 1)).sum := by
  have hall : (w e).kcp.stream = 0 ∧ 0 < (w e).kcp.mss.toNat
      ∧ (w e).cut.flatten.length ≤ ((w e).sent.map (·.length + 1)).sum := by
    refine each_of_run (P := fun p ↦ p.kcp.stream = 0 ∧ 0 < p.kcp.mss.toNat
        ∧ p.cut.flatten.length ≤ (p.sent.map (·.length + 1)).sum) (C := fun _ _ ↦ True)
      ⟨rfl, (by decide : 0 < (1400 - 24 : UInt32).toNat), Nat.le_refl 0⟩ ?_
      (StepSystem.along_of_forall (fun _ _ ↦ trivial) _ _) hrun e
    rintro p p' q a ⟨hstream, hmss, hlen⟩ - hact
    refine ⟨?_, ?_, ?_⟩
    · rcases settings_act hact with hsettings | ⟨e, s, -, -, rfl⟩
      · exact (congrArg Settings.stream hsettings).trans hstream
      · exact (Ikcpcb.stream_apply s p.kcp).trans hstream
    · rcases settings_act hact with hsettings | ⟨e, s, -, hrange, rfl⟩
      · have hsame : q.kcp.mss = p.kcp.mss := congrArg Settings.mss hsettings
        rwa [hsame]
      · exact Ikcpcb.mss_apply hrange hmss
    · rcases history_act hact with ⟨hcut, hsent⟩ | ⟨e, data, rfl, -, rfl⟩
      · rwa [hcut, hsent]
      · rw [Peer.send]
        dsimp only
        split_ifs
        · exact hlen
        · dsimp only
          rw [List.flatten_append, List.length_append, List.map_append, List.sum_append,
            List.flatten_singleton, List.length_map, List.map_singleton, List.sum_singleton]
          exact Nat.add_le_add hlen (length_send hstream hmss data)
  exact hall.2.2

end Peers

end Knet.Kcp
