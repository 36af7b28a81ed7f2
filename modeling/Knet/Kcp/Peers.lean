import Knet.Kcp.Direction
import Knet.Kcp.Handshake
import Knet.Kcp.Settings

/-!
# Two objects and an unreliable network

Two `kcp` objects of one conversation. The network keeps every datagram that was ever put out, and
an end may be given any of them at any time, as often as it likes and in any order, or never: so the
network loses, repeats and reorders. The users send and receive, the clocks may show any time, and
the settings may change.

**What an end has received is a beginning of what the other one has sent** (`inv_of_run`). It keeps
to that even when a flush has run past the end of its buffer, which is the subject of another
module.
-/

namespace Knet.Kcp

/-- An object and what happened to it so far. -/
structure Peer where
  kcp : Ikcpcb
  /-- Every datagram that it has put out. -/
  out : List (List UInt8) := []
  /-- The messages that `ikcp_send` took. -/
  sent : List (List UInt8) := []
  /-- The pieces that it cut them into. -/
  cut : List (List Piece) := []
  /-- The messages that `ikcp_recv` gave out. -/
  received : List (List UInt8) := []

namespace Peer

/-- `ikcp_send`. -/
def send (p : Peer) (data : List UInt8) : Peer :=
  let (k, result) := p.kcp.send data
  if result < 0 then { p with kcp := k }
  else { p with
    kcp := k
    sent := p.sent ++ [data]
    cut := p.cut ++ [(k.sndQueue.drop p.kcp.sndQueue.length).map Ikcpseg.piece] }

/-- `ikcp_recv`. -/
def recv (p : Peer) (len : ℕ) : Peer :=
  match p.kcp.recv len with
  | (k, none) => { p with kcp := k }
  | (k, some data) => { p with kcp := k, received := p.received ++ [data] }

/-- A function that puts out datagrams. -/
def emit (p : Peer) (r : Ikcpcb × List (List UInt8)) : Peer :=
  { p with kcp := r.1, out := p.out ++ r.2 }

theorem kcp_send (p : Peer) (data : List UInt8) : (p.send data).kcp = (p.kcp.send data).1 := by
  rw [send]
  dsimp only
  split_ifs <;> rfl

theorem out_send (p : Peer) (data : List UInt8) : (p.send data).out = p.out := by
  rw [send]
  dsimp only
  split_ifs <;> rfl

theorem kcp_recv (p : Peer) (len : ℕ) : (p.recv len).kcp = (p.kcp.recv len).1 := by
  rw [recv]
  split <;> rename_i heq <;> rw [heq]

theorem out_recv (p : Peer) (len : ℕ) : (p.recv len).out = p.out := by
  rw [recv]
  split <;> rfl

theorem recv_none {p : Peer} {len : ℕ} (h : (p.kcp.recv len).2 = none) :
    (p.recv len).received = p.received ∧ (p.recv len).sent = p.sent := by
  rw [recv]
  split
  · exact ⟨rfl, rfl⟩
  · rename_i heq
    exact absurd (h.symm.trans (congrArg Prod.snd heq)) (by simp)

theorem recv_some {p : Peer} {len : ℕ} {data : List UInt8} (h : (p.kcp.recv len).2 = some data) :
    (p.recv len).received = p.received ++ [data] ∧ (p.recv len).sent = p.sent := by
  rw [recv]
  split
  · rename_i heq
    exact absurd (h.symm.trans (congrArg Prod.snd heq)) (by simp)
  · rename_i heq
    obtain rfl := Option.some.inj (h.symm.trans (congrArg Prod.snd heq))
    exact ⟨rfl, rfl⟩

end Peer

/-- The two ends. -/
abbrev Peers := Side → Peer

namespace Peers

/-- What can happen. -/
inductive Action
  | send (e : Side) (data : List UInt8)
  | recv (e : Side) (len : ℕ)
  | update (e : Side) (now : UInt32)
  | flush (e : Side)
  /-- The end gets the datagram at place `i` of those that the other end has put out. -/
  | input (e : Side) (i : ℕ)
  /-- The end gets something that belongs to another conversation. -/
  | stray (e : Side) (d : List UInt8)
  | set (e : Side) (s : Setting)
  deriving DecidableEq, Repr

/-- What becomes of the end that acts, with `p'` at the other end. A length is an `int`. -/
def act (p p' : Peer) : Action → Option Peer
  | .send _ data => if data.length < 2 ^ 31 then some (p.send data) else none
  | .recv _ len => some (p.recv len)
  | .update _ now => some (p.emit (p.kcp.update now))
  | .flush _ => some (p.emit p.kcp.flush)
  | .input _ i => p'.out[i]?.map fun d ↦ { p with kcp := (p.kcp.input d).1 }
  | .stray _ d =>
    if ∀ seg ∈ segmentsOf d, seg.conv ≠ p.kcp.conv then
      some { p with kcp := (p.kcp.input d).1 }
    else none
  | .set _ s => if s.InRange then some { p with kcp := s.apply p.kcp } else none

/-- The end that acts. -/
def Action.side : Action → Side
  | .send e _ | .recv e _ | .update e _ | .flush e | .input e _ | .stray e _ | .set e _ => e

/-- The two objects and what happens to them. -/
def system : StepSystem Peers Action :=
  ⟨fun w a ↦ (act (w a.side) (w a.side.other) a).map (Function.update w a.side)⟩

/-- Two objects as they are created. -/
def start (conv : UInt32) : Peers := fun _ ↦ { kcp := Ikcpcb.create conv }

/-- Fewer than `2 ^ 31` segments were made at either end, so that no counter has wrapped. -/
def Small (w : Peers) : Prop := ∀ e, (w e).cut.flatten.length < 2 ^ 31

end Peers

/-! ## The invariant -/

/-- What holds of an end by itself. -/
structure Peer.Own (p : Peer) : Prop where
  stream : p.kcp.stream = 0
  mss : 0 < p.kcp.mss.toNat
  sent : p.cut.map joined = p.sent

/-- What holds between the ends. -/
structure Peer.Talk (p p' : Peer) : Prop where
  conversation : Conversation p.kcp p'.kcp p.cut p'.cut p'.received.length p.received.length
    p.out p'.out
  received : p.received <+: p'.sent
  received' : p'.received <+: p.sent

/-- **The invariant of a conversation.** -/
structure Peers.Inv (w : Peers) : Prop where
  own : ∀ e, (w e).Own
  talk : ∀ e, (w e).Talk (w e.other)

namespace Peer

variable {p p' : Peer}

theorem Talk.symm (h : p.Talk p') : p'.Talk p := ⟨h.conversation.symm, h.received', h.received⟩

theorem own_create (conv : UInt32) : Own { kcp := Ikcpcb.create conv } where
  stream := rfl
  mss := (by decide : 0 < (1400 - 24 : UInt32).toNat)
  sent := rfl

theorem talk_create (conv : UInt32) :
    Talk { kcp := Ikcpcb.create conv } { kcp := Ikcpcb.create conv } := by
  have hlink : link [] [] (Ikcpcb.create conv).acklist = ⟨∅, ∅, ∅⟩ := by
    simp [link, carried, Ikcpcb.create]
  have hdir : Direction (Ikcpcb.create conv) (Ikcpcb.create conv) [] 0 [] [] := by
    refine ⟨?_, fun b hb ↦ absurd hb List.not_mem_nil, Nat.le_refl 0, rfl,
      fun seg hseg ↦ absurd hseg List.not_mem_nil, rfl, List.Pairwise.nil,
      fun seg hseg ↦ absurd hseg List.not_mem_nil⟩
    rw [hlink]
    exact Arq.sound_start
  exact ⟨⟨hdir, hdir⟩, List.prefix_refl [], List.prefix_refl []⟩

/-! ## Steps -/

theorem Own.same {q : Peer} (h : p.Own) (hsettings : q.kcp.settings = p.kcp.settings)
    (hcut : q.cut = p.cut) (hsent : q.sent = p.sent) : q.Own where
  stream := (congrArg Settings.stream hsettings).trans h.stream
  mss := by
    have hmss : q.kcp.mss = p.kcp.mss := congrArg Settings.mss hsettings
    rw [hmss]
    exact h.mss
  sent := by rw [hcut, hsent, h.sent]

theorem Talk.send {data : List UInt8} (hown : p.Own) (h : p.Talk p') (hlen : data.length < 2 ^ 31) :
    (p.send data).Own ∧ (p.send data).Talk p' := by
  rw [Peer.send]
  rcases send_spec hown.stream hown.mss hlen with ⟨segs, heq, hcut, hjoined⟩ | heq
  · have hdrop : (p.kcp.sndQueue ++ segs).drop p.kcp.sndQueue.length = segs := List.drop_left
    rw [heq]
    dsimp only
    rw [if_neg (by decide), hdrop]
    refine ⟨⟨hown.stream, hown.mss, ?_⟩, h.conversation.send hcut, h.received,
      h.received'.trans (List.prefix_append _ _)⟩
    rw [List.map_append, hown.sent, List.map_singleton, hjoined]
  · rw [heq]
    dsimp only
    rw [if_pos (by decide)]
    exact ⟨hown, h⟩

theorem Talk.recv (hown : p.Own) (hown' : p'.Own) (h : p.Talk p')
    (hsmall : p'.cut.flatten.length < 2 ^ 31) (len : ℕ) :
    (p.recv len).Own ∧ (p.recv len).Talk p' := by
  have hsettings := Ikcpcb.settings_recv p.kcp len
  rw [Peer.recv]
  rcases h.conversation.recv hsmall len with heq | ⟨k, b, heq, hget, hconv⟩
  · rw [heq]
    exact ⟨hown, h⟩
  · rw [heq] at hsettings ⊢
    have hsent : p'.sent[p.received.length]? = some (joined b) := by
      rw [← hown'.sent, List.getElem?_map, hget, Option.map_some]
    have hprefix : p.received ++ [joined b] <+: p'.sent := by
      obtain ⟨rest, hrest⟩ := h.received
      rw [← hrest, List.getElem?_append_right (Nat.le_refl _), Nat.sub_self] at hsent
      rw [← hrest]
      obtain ⟨rest, rfl⟩ := List.head?_eq_some_iff.mp (List.head?_eq_getElem? ▸ hsent)
      exact ⟨rest, List.append_cons _ _ _ ▸ rfl⟩
    refine ⟨hown.same hsettings rfl rfl, ?_, hprefix, h.received'⟩
    dsimp only
    rw [List.length_append]
    exact hconv

end Peer

namespace Peers

variable {w w' : Peers} {a : Action}

theorem inv_start (conv : UInt32) : (start conv).Inv where
  own _ := Peer.own_create conv
  talk _ := Peer.talk_create conv

theorem Inv.update {e : Side} {p : Peer} (h : w.Inv) (hown : p.Own) (htalk : p.Talk (w e.other)) :
    Inv (Function.update w e p) where
  own e' := by
    rcases e.eq_or_eq_other e' with rfl | rfl
    · rwa [Function.update_self]
    · rw [Function.update_of_ne e.other_ne]
      exact h.own e.other
  talk e' := by
    rcases e.eq_or_eq_other e' with rfl | rfl
    · rwa [Function.update_self, Function.update_of_ne e'.other_ne]
    · rw [Side.other_other, Function.update_self, Function.update_of_ne e.other_ne]
      exact htalk.symm

theorem act_talk {p p' q : Peer} (hown : p.Own) (hown' : p'.Own) (h : p.Talk p')
    (hsmall : p.cut.flatten.length < 2 ^ 31) (hsmall' : p'.cut.flatten.length < 2 ^ 31)
    (hact : act p p' a = some q) : q.Own ∧ q.Talk p' := by
  obtain ⟨hconv, hreceived, hreceived'⟩ := h
  cases a with
  | send e data =>
    obtain ⟨hlen, hq⟩ := Option.ite_none_right_eq_some.mp hact
    obtain rfl := Option.some.inj hq
    exact Peer.Talk.send hown ⟨hconv, hreceived, hreceived'⟩ hlen
  | recv e len =>
    obtain rfl := Option.some.inj hact
    exact Peer.Talk.recv hown hown' ⟨hconv, hreceived, hreceived'⟩ hsmall' len
  | update e now =>
    obtain rfl := Option.some.inj hact
    exact ⟨hown.same (Ikcpcb.settings_update _ _) rfl rfl, hconv.update hsmall now, hreceived,
      hreceived'⟩
  | flush e =>
    obtain rfl := Option.some.inj hact
    exact ⟨hown.same (Ikcpcb.settings_flush _) rfl rfl, hconv.flush hsmall, hreceived, hreceived'⟩
  | input e i =>
    obtain ⟨d, hd, rfl⟩ := Option.map_eq_some_iff.mp hact
    have hmem : d ∈ p'.out := List.mem_of_getElem? hd
    refine ⟨hown.same (Ikcpcb.settings_input _ _) rfl rfl, ?_, hreceived, hreceived'⟩
    exact hconv.input hsmall hsmall' fun seg hseg _ ↦ ⟨d, hmem, hseg⟩
  | stray e d =>
    obtain ⟨hstray, hq⟩ := Option.ite_none_right_eq_some.mp hact
    obtain rfl := Option.some.inj hq
    refine ⟨hown.same (Ikcpcb.settings_input _ _) rfl rfl, ?_, hreceived, hreceived'⟩
    exact hconv.input hsmall hsmall' fun seg hseg heq ↦ absurd heq (hstray seg hseg)
  | set e s =>
    obtain ⟨hrange, hq⟩ := Option.ite_none_right_eq_some.mp hact
    obtain rfl := Option.some.inj hq
    obtain ⟨htransport, hlist⟩ := Ikcpcb.toTransport_apply s p.kcp
    exact ⟨⟨(Ikcpcb.stream_apply s p.kcp).trans hown.stream, Ikcpcb.mss_apply hrange hown.mss,
      hown.sent⟩, hconv.same htransport hlist, hreceived, hreceived'⟩

theorem step_eq_some :
    system.step w a = some w' ↔ ∃ q, act (w a.side) (w a.side.other) a = some q
      ∧ Function.update w a.side q = w' :=
  Option.map_eq_some_iff

/-- **The rule for what holds of each end by itself.** -/
theorem each_of_run {P : Peer → Prop} {C : Peer → Action → Prop} {conv : UInt32} {as : List Action}
    (hfirst : P { kcp := Ikcpcb.create conv })
    (hact : ∀ p p' q a, P p → C p a → act p p' a = some q → P q)
    (halong : system.Along (fun w a ↦ C (w a.side) a) (start conv) as)
    (hrun : system.run (start conv) as = some w) (e : Side) : P (w e) := by
  refine StepSystem.invariant_of_run (I := fun w ↦ ∀ e, P (w e)) (fun _ ↦ hfirst) ?_ halong hrun e
  intro w a w' h hstep hc e
  obtain ⟨q, hq, rfl⟩ := step_eq_some.mp hstep
  rcases a.side.eq_or_eq_other e with rfl | rfl
  · rw [Function.update_self]
    exact hact _ _ _ _ (h a.side) hc hq
  · rw [Function.update_of_ne a.side.other_ne]
    exact h a.side.other

/-- Segments are made and never unmade. -/
theorem cut_act {p p' q : Peer} (hact : act p p' a = some q) : p.cut <+: q.cut := by
  cases a with
  | send e data =>
    obtain ⟨-, hq⟩ := Option.ite_none_right_eq_some.mp hact
    obtain rfl := Option.some.inj hq
    rw [Peer.send]
    dsimp only
    split_ifs
    · exact List.prefix_refl _
    · exact List.prefix_append _ _
  | recv e len =>
    obtain rfl := Option.some.inj hact
    rw [Peer.recv]
    split <;> exact List.prefix_refl _
  | update e now =>
    obtain rfl := Option.some.inj hact
    exact List.prefix_refl _
  | flush e =>
    obtain rfl := Option.some.inj hact
    exact List.prefix_refl _
  | input e i =>
    obtain ⟨d, -, rfl⟩ := Option.map_eq_some_iff.mp hact
    exact List.prefix_refl _
  | stray e d =>
    obtain ⟨-, hq⟩ := Option.ite_none_right_eq_some.mp hact
    obtain rfl := Option.some.inj hq
    exact List.prefix_refl _
  | set e s =>
    obtain ⟨-, hq⟩ := Option.ite_none_right_eq_some.mp hact
    obtain rfl := Option.some.inj hq
    exact List.prefix_refl _

theorem small_of_step (hstep : system.step w a = some w') (h : w'.Small) : w.Small := by
  obtain ⟨q, hact, rfl⟩ := step_eq_some.mp hstep
  intro e
  rcases a.side.eq_or_eq_other e with rfl | rfl
  · obtain ⟨rest, hrest⟩ := cut_act hact
    have hq := h a.side
    rw [Function.update_self, ← hrest, List.flatten_append, List.length_append] at hq
    exact Nat.lt_of_le_of_lt (Nat.le_add_right _ _) hq
  · have hq := h a.side.other
    rwa [Function.update_of_ne a.side.other_ne] at hq

/-- **The invariant holds in every run.** -/
theorem inv_of_run {conv : UInt32} {as : List Action}
    (hrun : system.run (start conv) as = some w) (hsmall : w.Small) : w.Inv := by
  refine StepSystem.invariant_of_run (I := fun w ↦ w.Small → w.Inv) (C := fun _ _ ↦ True)
    (fun _ ↦ inv_start conv) ?_ (StepSystem.along_of_forall (fun _ _ ↦ trivial) _ _) hrun hsmall
  rintro w a w' h hstep - hsmall'
  have hsmall := small_of_step hstep hsmall'
  have hinv := h hsmall
  obtain ⟨q, hact, rfl⟩ := step_eq_some.mp hstep
  obtain ⟨hown, htalk⟩ := act_talk (hinv.own _) (hinv.own _) (hinv.talk _) (hsmall _) (hsmall _)
    hact
  exact hinv.update hown htalk

end Peers

end Knet.Kcp
