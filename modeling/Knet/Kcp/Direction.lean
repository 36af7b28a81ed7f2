import Knet.Kcp.Flush
import Knet.Lib.Arq

/-!
# One direction of a conversation

What one object sends to the other is selective repeat: `Arq` describes it in natural numbers, and
`Direction` ties the two objects and the datagrams between them to such a description. The counters
of 32 bits stand for natural numbers as long as fewer than `2 ^ 31` segments were sent, since then
all numbers compare the right way round.

An object is the sender of one direction and the receiver of the other. For each function of
`ikcp.c` there is a lemma for either part.
-/

namespace Knet.Kcp

/-- What a segment carries: the fragment number and the data. -/
abbrev Piece := UInt32 × List UInt8

/-- What a segment carries. -/
def Ikcpseg.piece (seg : Ikcpseg) : Piece := (seg.frg, seg.data)

/-- The bytes of the message that was cut into these pieces. -/
def joined (pieces : List Piece) : List UInt8 := pieces.flatMap (·.2)

/-- The pieces of a message count down to zero, and each fits a segment. -/
def CountsDown : List Piece → Prop
  | [] => True
  | p :: ps => p.1 = UInt32.ofNat ps.length ∧ ps.length < 128 ∧ p.2.length < 2 ^ 31 ∧ CountsDown ps

/-- A message as it was cut. -/
def IsCut (pieces : List Piece) : Prop := pieces ≠ [] ∧ CountsDown pieces

/-! ## Cutting a message -/

theorem countsDown_fragments (mss count : ℕ) (data : List UInt8) (hcount : count ≤ 128)
    (hlen : data.length < 2 ^ 31) :
    CountsDown ((Ikcpcb.fragments mss false count data).map Ikcpseg.piece) := by
  induction count generalizing data with
  | zero => trivial
  | succ count ih =>
    have hrest := ih (data.drop mss) (by omega) (by rw [List.length_drop]; omega)
    have hnum : ((Ikcpcb.fragments mss false count (data.drop mss)).map Ikcpseg.piece).length
        = count := by
      clear hrest ih hcount hlen
      rw [List.length_map]
      generalize data.drop mss = rest
      induction count generalizing rest with
      | zero => rfl
      | succ count ih => rw [Ikcpcb.fragments, List.length_cons, ih]
    rw [Ikcpcb.fragments, List.map_cons, CountsDown, hnum]
    refine ⟨rfl, by omega, ?_, hrest⟩
    show (data.take mss).length < 2 ^ 31
    rw [List.length_take]
    omega

theorem joined_fragments {mss count : ℕ} {data : List UInt8} (h : data.length ≤ count * mss) :
    joined ((Ikcpcb.fragments mss false count data).map Ikcpseg.piece) = data := by
  induction count generalizing data with
  | zero =>
    rw [Nat.zero_mul] at h
    exact (List.length_eq_zero_iff.mp (Nat.le_zero.mp h)).symm
  | succ count ih =>
    have hrest : (data.drop mss).length ≤ count * mss := by
      rw [List.length_drop]
      rw [Nat.succ_mul] at h
      omega
    rw [Ikcpcb.fragments, List.map_cons, joined, List.flatMap_cons, ← joined, ih hrest]
    exact List.take_append_drop mss data

/-- **What `ikcp_send` does** outside the stream mode: the message is queued, cut into pieces, or it
is too long and nothing happens. -/
theorem send_spec {k : Ikcpcb} {data : List UInt8} (hstream : k.stream = 0) (hmss : 0 < k.mss.toNat)
    (hlen : data.length < 2 ^ 31) :
    (∃ segs, k.send data = ({ k with sndQueue := k.sndQueue ++ segs }, 0)
        ∧ IsCut (segs.map Ikcpseg.piece) ∧ joined (segs.map Ikcpseg.piece) = data)
      ∨ k.send data = (k, -2) := by
  have hcover : data.length ≤ (if data.length ≤ k.mss.toNat then 1
      else (data.length + k.mss.toNat - 1) / k.mss.toNat) * k.mss.toNat := by
    split_ifs with hone
    · rwa [Nat.one_mul]
    · have := Nat.lt_div_mul_add (a := data.length + k.mss.toNat - 1) hmss
      omega
  have hpos : 0 < (if data.length ≤ k.mss.toNat then 1
      else (data.length + k.mss.toNat - 1) / k.mss.toNat) := by
    split_ifs with hone
    · exact Nat.one_pos
    · exact Nat.div_pos (by omega) hmss
  have hno : ¬k.stream ≠ 0 := not_not.mpr hstream
  rw [Ikcpcb.send]
  simp only [hno, false_and, if_false, decide_false]
  generalize (if data.length ≤ k.mss.toNat then 1
    else (data.length + k.mss.toNat - 1) / k.mss.toNat) = count at hcover hpos
  split_ifs with hlong
  · exact .inr rfl
  · rw [Ikcpcb.wndRcv, Nat.not_le] at hlong
    refine .inl ⟨_, rfl, ⟨?_, countsDown_fragments _ _ _ (Nat.le_of_lt hlong) hlen⟩,
      joined_fragments hcover⟩
    obtain ⟨count, rfl⟩ := Nat.exists_eq_succ_of_ne_zero (Nat.pos_iff_ne_zero.mp hpos)
    exact List.cons_ne_nil _ _

/-! ## Putting it together again -/

theorem frg_eq_zero_iff {seg : Ikcpseg} {ps : List Piece} (h : CountsDown (seg.piece :: ps)) :
    seg.frg = 0 ↔ ps = [] := by
  obtain ⟨hfrg, hlt, -, -⟩ := h
  have hnat : seg.frg.toNat = ps.length := by
    show seg.piece.1.toNat = ps.length
    rw [hfrg]
    exact UInt32.toNat_ofNat_of_lt' (Nat.lt_trans hlt (by decide))
  rw [← List.length_eq_zero_iff, ← hnat]
  exact ⟨fun h ↦ congrArg UInt32.toNat h, fun h ↦ UInt32.toNat_inj.mp h⟩

theorem splitMessage_append {front back : List Ikcpseg} (h : IsCut (front.map Ikcpseg.piece)) :
    Ikcpcb.splitMessage (front ++ back) = (front, back) := by
  obtain ⟨hne, hdown⟩ := h
  induction front with
  | nil => exact absurd rfl hne
  | cons seg front ih =>
    rw [List.map_cons] at hdown
    have hzero := frg_eq_zero_iff hdown
    rw [List.cons_append, Ikcpcb.splitMessage]
    by_cases hlast : front.map Ikcpseg.piece = []
    · rw [if_pos (hzero.mpr hlast), List.map_eq_nil_iff.mp hlast]
      rfl
    · rw [if_neg fun h ↦ hlast (hzero.mp h), ih hlast hdown.2.2.2]

/-- **What `ikcp_peeksize` tells**: a queue that goes on with whole messages has the first of them
in it when the size is not negative. -/
theorem exists_message {k : Ikcpcb} {rest : List Piece} {todo : List (List Piece)}
    (hqueue : k.rcvQueue.map Ikcpseg.piece ++ rest = todo.flatten) (htodo : ∀ b ∈ todo, IsCut b)
    (hlen : k.rcvQueue.length < 2 ^ 31) (hpeek : 0 ≤ k.peeksize) :
    ∃ front back b todo', k.rcvQueue = front ++ back ∧ todo = b :: todo'
      ∧ front.map Ikcpseg.piece = b := by
  rw [Ikcpcb.peeksize] at hpeek
  cases hq : k.rcvQueue with
  | nil =>
    rw [hq] at hpeek
    exact absurd hpeek (by simp)
  | cons seg segs =>
    rw [hq] at hpeek hqueue hlen
    cases todo with
    | nil => exact absurd hqueue (by simp)
    | cons b todo' =>
      obtain ⟨hne, hdown⟩ := htodo b List.mem_cons_self
      cases b with
      | nil => exact absurd rfl hne
      | cons p ps =>
        rw [List.map_cons, List.flatten_cons, List.cons_append, List.cons_append] at hqueue
        obtain ⟨rfl, hsegs⟩ := List.cons.inj hqueue
        have henough : ps.length ≤ segs.length := by
          by_cases hfrg : seg.frg = 0
          · rw [(frg_eq_zero_iff hdown).mp hfrg]
            exact Nat.zero_le _
          · have hnat : (seg.frg + 1).toNat = ps.length + 1 := by
              have hlt := hdown.2.1
              have heq : seg.frg = UInt32.ofNat ps.length := hdown.1
              rw [heq, UInt32.toNat_add, UInt32.toNat_ofNat_of_lt' (Nat.lt_trans hlt (by decide))]
              exact Nat.mod_eq_of_lt (by show ps.length + 1 < 4294967296; omega)
            have hlength : (UInt32.ofNat (seg :: segs).length).toNat = segs.length + 1 :=
              UInt32.toNat_ofNat_of_lt' (Nat.lt_trans hlen (by decide))
            simp only [if_neg hfrg] at hpeek
            by_contra hfew
            rw [if_pos (UInt32.lt_iff_toNat_lt.mpr (by omega))] at hpeek
            omega
        have hprefix : ps <+: segs.map Ikcpseg.piece :=
          List.prefix_of_prefix_length_le (hsegs ▸ List.prefix_append _ _)
            (List.prefix_append _ rest) (by rwa [List.length_map])
        obtain ⟨back, hback⟩ := hprefix
        obtain ⟨front, back', rfl, hfront, -⟩ := List.map_eq_append_iff.mp hback.symm
        exact ⟨seg :: front, back', seg.piece :: ps, todo', rfl, rfl, by rw [List.map_cons, hfront]⟩

/-- **What `ikcp_recv` does**: it takes the first message out of the queue, when the whole of it is
there and fits the buffer, and what is next in order moves up. -/
theorem recv_spec {k : Ikcpcb} {len : ℕ} {rest : List Piece} {todo : List (List Piece)}
    (hqueue : k.rcvQueue.map Ikcpseg.piece ++ rest = todo.flatten) (htodo : ∀ b ∈ todo, IsCut b)
    (hlen : k.rcvQueue.length < 2 ^ 31) :
    k.recv len = (k, none) ∨ ∃ front back b todo', k.rcvQueue = front ++ back
      ∧ todo = b :: todo' ∧ front.map Ikcpseg.piece = b
      ∧ ∃ probe, k.recv len = ({ ({ k with rcvQueue := back } : Ikcpcb).moveAvailable k.rcvBuf with
          probe := probe }, some (joined b)) := by
  by_cases hstop : k.rcvQueue = [] ∨ k.peeksize < 0 ∨ (len : ℤ) < k.peeksize
  · exact .inl (by rw [Ikcpcb.recv, if_pos hstop])
  · have hpeek : 0 ≤ k.peeksize := by
      by_contra hneg
      exact hstop (.inr (.inl (by omega)))
    obtain ⟨front, back, b, todo', hq, rfl, hfront⟩ := exists_message hqueue htodo hlen hpeek
    have hsplit : Ikcpcb.splitMessage (front ++ back) = (front, back) :=
      splitMessage_append (hfront ▸ htodo b List.mem_cons_self)
    have hmsg : Ikcpcb.message (front ++ back) = joined b := by
      rw [Ikcpcb.message, hsplit, joined, ← hfront, List.flatMap_map]
      rfl
    refine .inr ⟨front, back, b, todo', hq, rfl, hfront, ?_⟩
    rw [Ikcpcb.recv, if_neg hstop, hq, hmsg, hsplit]
    dsimp only
    split_ifs
    · exact ⟨_, rfl⟩
    · exact ⟨(({ k with rcvQueue := back } : Ikcpcb).moveAvailable k.rcvBuf).probe, rfl⟩

/-! ## The two objects and the datagrams between them -/

/-- The segments that some datagrams carry. -/
def carried (net : List (List UInt8)) : Set Ikcpseg := {seg | ∃ d ∈ net, seg ∈ segmentsOf d}

/-- What stands on the link of a direction: the data that the sender has put out into `net`, and
what the receiver has acknowledged in `net'` or will acknowledge. -/
def link (net net' : List (List UInt8)) (acklist : List (UInt32 × UInt32)) : Arq.Link Piece where
  data := {p | ∃ seg ∈ carried net, seg.cmd = cmdPush ∧ p = (seg.sn.toNat, seg.piece)}
  ack := {n | (∃ seg ∈ carried net', seg.cmd = cmdAck ∧ n = seg.sn.toNat)
    ∨ ∃ p ∈ acklist, n = p.1.toNat}
  upTo := {n | ∃ seg ∈ carried net', n = seg.una.toNat}

namespace Ikcpcb

/-- An object as the sender of the pieces given to it. -/
def sender (k : Ikcpcb) (items : List Piece) : Arq.Sender Piece :=
  ⟨items, k.sndNxt.toNat, k.sndBuf.map (·.sn.toNat)⟩

/-- An object as a receiver, of which the user has taken some pieces. -/
def receiver (k : Ikcpcb) (taken : List Piece) : Arq.Receiver Piece :=
  ⟨taken ++ k.rcvQueue.map Ikcpseg.piece, k.rcvBuf.map fun seg ↦ (seg.sn.toNat, seg.piece)⟩

end Ikcpcb

/-- The direction from `k` to `k'`: the messages of `cut` were given to `k`, and the user has taken
the first `m` of them from `k'`. -/
structure Direction (k k' : Ikcpcb) (cut : List (List Piece)) (m : ℕ)
    (net net' : List (List UInt8)) : Prop where
  sound : Arq.Sound (k.sender cut.flatten) (k'.receiver (cut.take m).flatten)
    (link net net' k'.acklist)
  isCut : ∀ b ∈ cut, IsCut b
  taken_le : m ≤ cut.length
  sndQueue : k.sndQueue.map Ikcpseg.piece = cut.flatten.drop k.sndNxt.toNat
  sndBuf : ∀ seg ∈ k.sndBuf,
    (k.sender cut.flatten).Numbered seg.sn.toNat seg.piece ∧ seg.cmd = cmdPush
  rcvNxt : k'.rcvNxt.toNat = (k'.receiver (cut.take m).flatten).out.length
  sorted : (k'.rcvBuf.map (·.sn.toNat)).Pairwise (· < ·)
  ahead : ∀ seg ∈ k'.rcvBuf, k'.rcvNxt.toNat ≤ seg.sn.toNat

namespace Direction

variable {k k' : Ikcpcb} {cut : List (List Piece)} {m : ℕ} {net net' : List (List UInt8)}

/-! ### The sender -/

/-- The sender may let go of what was acknowledged, and change nothing else about its segments. -/
theorem sender_step {k₁ : Ikcpcb} (h : Direction k k' cut m net net')
    (hnxt : k₁.sndNxt = k.sndNxt) (hqueue : k₁.sndQueue = k.sndQueue)
    (hbuf : ∀ s ∈ k₁.sndBuf, ∃ s₀ ∈ k.sndBuf, s.sn = s₀.sn ∧ s.piece = s₀.piece ∧ s.cmd = s₀.cmd)
    (hgone : ∀ s ∈ k.sndBuf, (∃ s₁ ∈ k₁.sndBuf, s₁.sn = s.sn)
      ∨ s.sn.toNat ∈ (link net net' k'.acklist).ack
      ∨ ∃ n ∈ (link net net' k'.acklist).upTo, s.sn.toNat < n) :
    Direction k₁ k' cut m net net' where
  sound := by
    have hsound := h.sound
    rw [Ikcpcb.sender] at hsound ⊢
    rw [hnxt]
    refine hsound.release fun n hn ↦ ?_
    obtain ⟨s, hs, rfl⟩ := List.mem_map.mp hn
    refine (hgone s hs).imp_left fun ⟨s₁, hs₁, heq⟩ ↦ ?_
    exact List.mem_map.mpr ⟨s₁, hs₁, by rw [heq]⟩
  isCut := h.isCut
  taken_le := h.taken_le
  sndQueue := by rw [hqueue, hnxt, h.sndQueue]
  sndBuf s hs := by
    obtain ⟨s₀, hs₀, hsn, hpiece, hcmd⟩ := hbuf s hs
    obtain ⟨⟨hlt, hget⟩, hpush⟩ := h.sndBuf s₀ hs₀
    rw [hsn, hpiece, hcmd]
    refine ⟨⟨?_, hget⟩, hpush⟩
    rw [Ikcpcb.sender, hnxt]
    exact hlt
  rcvNxt := h.rcvNxt
  sorted := h.sorted
  ahead := h.ahead

theorem sender_same {k₁ : Ikcpcb} (h : Direction k k' cut m net net')
    (hnxt : k₁.sndNxt = k.sndNxt) (hqueue : k₁.sndQueue = k.sndQueue)
    (hbuf : k₁.sndBuf = k.sndBuf) : Direction k₁ k' cut m net net' := by
  refine h.sender_step hnxt hqueue ?_ ?_
  · rw [hbuf]
    exact fun s hs ↦ ⟨s, hs, rfl, rfl, rfl⟩
  · rw [hbuf]
    exact fun s hs ↦ .inl ⟨s, hs, rfl⟩

theorem send {segs : List Ikcpseg} (h : Direction k k' cut m net net')
    (hsegs : IsCut (segs.map Ikcpseg.piece)) :
    Direction { k with sndQueue := k.sndQueue ++ segs } k' (cut ++ [segs.map Ikcpseg.piece]) m
      net net' where
  sound := by
    rw [List.take_append_of_le_length h.taken_le, List.flatten_append, List.flatten_singleton]
    exact h.sound.give _
  isCut := List.forall_mem_append.mpr ⟨h.isCut, List.forall_mem_singleton.mpr hsegs⟩
  taken_le := by
    rw [List.length_append]
    exact Nat.le_add_right_of_le h.taken_le
  sndQueue := by
    have hle : k.sndNxt.toNat ≤ cut.flatten.length := h.sound.next_le
    rw [List.map_append, h.sndQueue, List.flatten_append, List.flatten_singleton,
      List.drop_append_of_le_length hle]
  sndBuf seg hseg := by
    obtain ⟨hnum, hpush⟩ := h.sndBuf seg hseg
    rw [List.flatten_append]
    exact ⟨hnum.append _ _, hpush⟩
  rcvNxt := by
    rw [List.take_append_of_le_length h.taken_le]
    exact h.rcvNxt
  sorted := h.sorted
  ahead := h.ahead

/-! ### The receiver -/

theorem receiver_step {k₁ : Ikcpcb} (h : Direction k k' cut m net net')
    (hnxt : k₁.rcvNxt = k'.rcvNxt) (hqueue : k₁.rcvQueue = k'.rcvQueue)
    (hbuf : k₁.rcvBuf = k'.rcvBuf) (hack : ∀ p ∈ k₁.acklist, p ∈ k'.acklist
      ∨ (k'.receiver (cut.take m).flatten).Arrived p.1.toNat) :
    Direction k k₁ cut m net net' where
  sound := by
    have hrcv : k₁.receiver (cut.take m).flatten = k'.receiver (cut.take m).flatten := by
      rw [Ikcpcb.receiver, Ikcpcb.receiver, hqueue, hbuf]
    rw [hrcv]
    refine h.sound.relink (fun p hp ↦ .inl hp) ?_ fun n hn ↦ .inl hn
    rintro n (hn | ⟨p, hp, rfl⟩)
    · exact .inl (.inl hn)
    · exact (hack p hp).imp_left fun hp ↦ .inr ⟨p, hp, rfl⟩
  isCut := h.isCut
  taken_le := h.taken_le
  sndQueue := h.sndQueue
  sndBuf := h.sndBuf
  rcvNxt := by
    rw [hnxt, h.rcvNxt, Ikcpcb.receiver, Ikcpcb.receiver, hqueue]
  sorted := by rw [hbuf]; exact h.sorted
  ahead := by rw [hbuf, hnxt]; exact h.ahead

/-- **What is next in order moves up.** -/
theorem moveAvailable {segs : List Ikcpseg}
    (h : Direction k { k' with rcvBuf := segs } cut m net net') :
    Direction k (k'.moveAvailable segs) cut m net net' := by
  induction segs generalizing k' with
  | nil => exact h
  | cons seg segs ih =>
    rw [Ikcpcb.moveAvailable]
    split_ifs with hnext
    · refine ih ?_
      obtain ⟨hfirst, hsorted⟩ := List.pairwise_cons.mp h.sorted
      have hlt : k'.rcvNxt.toNat < k.sndNxt.toNat := by
        rw [← hnext.1]
        exact (h.sound.early (seg.sn.toNat, seg.piece) List.mem_cons_self).1
      have hsucc : (k'.rcvNxt + 1).toNat = k'.rcvNxt.toNat + 1 := by
        have := k.sndNxt.toNat_lt
        rw [UInt32.toNat_add]
        exact Nat.mod_eq_of_lt (by show k'.rcvNxt.toNat + 1 < 4294967296; omega)
      have hnxt : k'.rcvNxt.toNat
          = ((cut.take m).flatten ++ k'.rcvQueue.map Ikcpseg.piece).length := h.rcvNxt
      refine ⟨?_, h.isCut, h.taken_le, h.sndQueue, h.sndBuf, ?_, hsorted, ?_⟩
      · have hsound := h.sound
        simp only [Ikcpcb.receiver, List.map_cons, hnext.1, hnxt] at hsound
        have := hsound.handOn
        rwa [List.append_assoc, ← List.map_singleton (f := Ikcpseg.piece), ← List.map_append]
          at this
      · show (k'.rcvNxt + 1).toNat = _
        rw [hsucc, hnxt]
        simp [Ikcpcb.receiver, Nat.add_assoc]
      · intro s hs
        have hless : seg.sn.toNat < s.sn.toNat := hfirst s.sn.toNat (List.mem_map_of_mem hs)
        show (k'.rcvNxt + 1).toNat ≤ s.sn.toNat
        rw [hsucc, ← hnext.1]
        exact hless
    · exact h

theorem take {front back : List Ikcpseg} {b : List Piece} (h : Direction k k' cut m net net')
    (hqueue : k'.rcvQueue = front ++ back) (hget : cut[m]? = some b)
    (hfront : front.map Ikcpseg.piece = b) :
    Direction k { k' with rcvQueue := back } cut (m + 1) net net' := by
  have hrcv : Ikcpcb.receiver { k' with rcvQueue := back } (cut.take (m + 1)).flatten
      = k'.receiver (cut.take m).flatten := by
    rw [Ikcpcb.receiver, Ikcpcb.receiver, List.take_add_one, hget, Option.toList_some,
      List.flatten_append, List.flatten_singleton, hqueue, List.map_append, hfront,
      List.append_assoc]
  refine ⟨?_, h.isCut, (List.getElem?_eq_some_iff.mp hget).1, h.sndQueue, h.sndBuf, ?_, h.sorted,
    h.ahead⟩
  · rw [hrcv]
    exact h.sound
  · rw [hrcv]
    exact h.rcvNxt

theorem insert {newseg : Ikcpseg} (h : Direction k k' cut m net net')
    (hsmall : cut.flatten.length < 2 ^ 31)
    (hnew : (newseg.sn.toNat, newseg.piece) ∈ (link net net' k'.acklist).data)
    (hahead : k'.rcvNxt.toNat ≤ newseg.sn.toNat) :
    Direction k { k' with rcvBuf := (Ikcpcb.insertFromBack newseg k'.rcvBuf.reverse).reverse }
        cut m net net'
      ∧ ∃ s ∈ (Ikcpcb.insertFromBack newseg k'.rcvBuf.reverse).reverse, s.sn = newseg.sn := by
  have hbelow : ∀ {n a}, (k.sender cut.flatten).Numbered n a → n < 2 ^ 31 := by
    intro n a hnum
    have hlt : n < k.sndNxt.toNat := hnum.1
    have hle : k.sndNxt.toNat ≤ cut.flatten.length := h.sound.next_le
    omega
  have hold : ∀ s ∈ k'.rcvBuf.reverse, s.sn.toNat < 2 ^ 31 := by
    intro s hs
    exact hbelow (h.sound.early (s.sn.toNat, s.piece)
      (List.mem_map.mpr ⟨s, List.mem_reverse.mp hs, rfl⟩))
  have hdesc : k'.rcvBuf.reverse.Pairwise fun a b ↦ b.sn.toNat < a.sn.toNat :=
    List.pairwise_reverse.mpr (List.pairwise_map.mp h.sorted)
  obtain ⟨hkeep, hfrom, ⟨s₀, hs₀, hsn⟩, hpair⟩ :=
    @Ikcpcb.insertFromBack_spec UInt32.toNat newseg _
      (fun s hs ↦ itimediff_eq (hbelow (h.sound.data _ hnew)) (hold s hs))
      (fun s _ heq ↦ UInt32.toNat_inj.mp heq) hdesc
  refine ⟨⟨?_, h.isCut, h.taken_le, h.sndQueue, h.sndBuf, h.rcvNxt, ?_, ?_⟩,
    s₀, List.mem_reverse.mpr hs₀, hsn⟩
  · refine h.sound.arrive (fun p hp ↦ ?_) fun p hp ↦ ?_
    · obtain ⟨s, hs, rfl⟩ := List.mem_map.mp hp
      exact List.mem_map.mpr
        ⟨s, List.mem_reverse.mpr (hkeep s (List.mem_reverse.mpr hs)), rfl⟩
    · obtain ⟨s, hs, rfl⟩ := List.mem_map.mp hp
      rcases hfrom s (List.mem_reverse.mp hs) with hs | rfl
      · exact .inl (List.mem_map.mpr ⟨s, List.mem_reverse.mp hs, rfl⟩)
      · exact .inr hnew
  · exact List.pairwise_map.mpr (List.pairwise_reverse.mpr hpair)
  · intro s hs
    rcases hfrom s (List.mem_reverse.mp hs) with hs | rfl
    · exact h.ahead s (List.mem_reverse.mp hs)
    · exact hahead

theorem inputPush {seg : Ikcpseg} (h : Direction k k' cut m net net')
    (hsmall : cut.flatten.length < 2 ^ 31) (hseg : seg ∈ carried net) (hcmd : seg.cmd = cmdPush) :
    Direction k (k'.inputPush seg) cut m net net' := by
  have hdata : (seg.sn.toNat, seg.piece) ∈ (link net net' k'.acklist).data := ⟨seg, hseg, hcmd, rfl⟩
  have hnext : k.sndNxt.toNat ≤ cut.flatten.length := h.sound.next_le
  have hsn : seg.sn.toNat < k.sndNxt.toNat := (h.sound.data _ hdata).1
  have hrcv : k'.rcvNxt.toNat ≤ k.sndNxt.toNat := h.rcvNxt ▸ h.sound.out_le
  have hdiff : itimediff seg.sn k'.rcvNxt = (seg.sn.toNat : ℤ) - k'.rcvNxt.toNat :=
    itimediff_eq (by omega) (by omega)
  rw [Ikcpcb.inputPush]
  split_ifs with hwnd hnew
  · obtain ⟨hins, s₀, hs₀, hsame⟩ := h.insert hsmall hdata (by omega)
    rw [Ikcpcb.parseData, if_neg]
    · refine moveAvailable (hins.receiver_step rfl rfl rfl fun p hp ↦ ?_)
      rcases List.mem_append.mp hp with hp | hp
      · exact .inl hp
      · rw [List.mem_singleton.mp hp]
        exact .inr (.inr ⟨s₀.piece, List.mem_map.mpr ⟨s₀, hs₀, by rw [hsame]⟩⟩)
    · rintro (hout | hold)
      · exact absurd hwnd (Int.not_lt.mpr hout)
      · exact absurd hnew (Int.not_le.mpr hold)
  · refine h.receiver_step rfl rfl rfl fun p hp ↦ ?_
    rcases List.mem_append.mp hp with hp | hp
    · exact .inl hp
    · rw [List.mem_singleton.mp hp]
      have hlen := h.rcvNxt
      exact .inr (.inl (show seg.sn.toNat < _ by omega))
  · exact h

/-! ### Datagrams that come in -/

theorem releases {seg : Ikcpseg} {k₁ : Ikcpcb} (h : Direction k k' cut m net net')
    (hsmall : cut.flatten.length < 2 ^ 31) (hseg : seg ∈ carried net') (hsame : Ikcpcb.SameBut k k₁)
    (hrel : Ikcpcb.Releases seg k.sndBuf k₁.sndBuf) : Direction k₁ k' cut m net net' := by
  have hnext : k.sndNxt.toNat ≤ cut.flatten.length := h.sound.next_le
  refine h.sender_step hsame.sndNxt
    hsame.sndQueue
    (fun s hs ↦ ⟨s, hrel.sublist.subset hs, rfl, rfl, rfl⟩) fun s hs ↦ ?_
  have hsn : s.sn.toNat < k.sndNxt.toNat := (h.sndBuf s hs).1.1
  have hupTo : seg.una.toNat ∈ (link net net' k'.acklist).upTo := ⟨seg, hseg, rfl⟩
  have huna : seg.una.toNat ≤ k.sndNxt.toNat := (h.sound.upTo _ hupTo).trans h.sound.out_le
  rcases hrel.gone s hs with hs | hlt | ⟨hack, heq⟩
  · exact .inl ⟨s, hs, rfl⟩
  · rw [itimediff_eq (by omega) (by omega)] at hlt
    exact .inr (.inr ⟨_, hupTo, by omega⟩)
  · exact .inr (.inl (.inl ⟨seg, hseg, hack, by rw [heq]⟩))

theorem receiver_same {k₁ : Ikcpcb} (h : Direction k k' cut m net net')
    (hsame : Ikcpcb.SameBut k' k₁) : Direction k k₁ cut m net net' := by
  refine h.receiver_step hsame.rcvNxt
    hsame.rcvQueue hsame.rcvBuf ?_
  rw [hsame.acklist]
  exact fun p hp ↦ .inl hp

end Direction

/-- Both directions between two objects. -/
structure Conversation (k k' : Ikcpcb) (cut cut' : List (List Piece)) (m m' : ℕ)
    (net net' : List (List UInt8)) : Prop where
  forth : Direction k k' cut m net net'
  back : Direction k' k cut' m' net' net

namespace Conversation

variable {k k' : Ikcpcb} {cut cut' : List (List Piece)} {m m' : ℕ} {net net' : List (List UInt8)}

theorem inputSegment {seg : Ikcpseg} (h : Conversation k k' cut cut' m m' net net')
    (hsmall : cut.flatten.length < 2 ^ 31) (hsmall' : cut'.flatten.length < 2 ^ 31)
    (hseg : seg ∈ carried net') : Conversation (k.inputSegment seg) k' cut cut' m m' net net' := by
  obtain ⟨k₁, hsame, hrel, heq⟩ := Ikcpcb.inputSegment_spec k seg
  have hforth := h.forth.releases hsmall hseg hsame hrel
  have hback := h.back.receiver_same hsame
  rw [heq]
  split_ifs with hpush
  · obtain ⟨hnxt, hqueue, hbuf, -⟩ := Ikcpcb.inputPush_sender k₁ seg
    exact ⟨hforth.sender_same hnxt hqueue hbuf, hback.inputPush hsmall' hseg hpush⟩
  · exact ⟨hforth, hback⟩

theorem parseFastack (h : Conversation k k' cut cut' m m' net net') (sn : UInt32) :
    Conversation (k.parseFastack sn) k' cut cut' m m' net net' := by
  refine ⟨?_, h.back.receiver_same (Ikcpcb.sameBut_parseFastack k sn)⟩
  rw [Ikcpcb.parseFastack]
  split_ifs
  · refine h.forth.sender_step rfl rfl (fun s hs ↦ ?_)
      fun s hs ↦ .inl (Ikcpcb.exists_mem_countSkipped hs)
    rcases Ikcpcb.mem_countSkipped hs with hs | ⟨s₀, hs₀, rfl⟩
    · exact ⟨s, hs, rfl, rfl, rfl⟩
    · exact ⟨s₀, hs₀, rfl, rfl, rfl⟩
  · exact h.forth

theorem growWindow (h : Conversation k k' cut cut' m m' net net') (prevUna : UInt32) :
    Conversation (k.growWindow prevUna) k' cut cut' m m' net net' := by
  obtain ⟨hsame, hbuf⟩ := Ikcpcb.growWindow_spec k prevUna
  exact ⟨h.forth.sender_same hsame.sndNxt
    hsame.sndQueue hbuf, h.back.receiver_same hsame⟩

/-- **A datagram from the other end.** -/
theorem input {d : List UInt8} (h : Conversation k k' cut cut' m m' net net')
    (hsmall : cut.flatten.length < 2 ^ 31) (hsmall' : cut'.flatten.length < 2 ^ 31)
    (hd : ∀ seg ∈ segmentsOf d, seg.conv = k.conv → seg ∈ carried net') :
    Conversation (k.input d).1 k' cut cut' m m' net net' := by
  have hall : Conversation (k.input d).1 k' cut cut' m m' net net'
      ∧ (k.input d).1.conv = k.conv := by
    refine Ikcpcb.input_induction
      (P := fun k₁ ↦ Conversation k₁ k' cut cut' m m' net net' ∧ k₁.conv = k.conv) ⟨h, rfl⟩ ?_ ?_ ?_
    · rintro seg hseg k₁ hconv - ⟨h₁, hk₁⟩
      exact ⟨h₁.inputSegment hsmall hsmall' (hd seg hseg (hconv.trans hk₁)),
        (Ikcpcb.conv_inputSegment k₁ seg).trans hk₁⟩
    · rintro k₁ sn ⟨h₁, hk₁⟩
      exact ⟨h₁.parseFastack sn, (Ikcpcb.sameBut_parseFastack k₁ sn).conv.trans hk₁⟩
    · rintro k₁ una ⟨h₁, hk₁⟩
      exact ⟨h₁.growWindow una, (Ikcpcb.growWindow_spec k₁ una).1.conv.trans hk₁⟩
  exact hall.1

end Conversation

/-! ### Datagrams that go out -/

namespace Direction

variable {k k' : Ikcpcb} {cut : List (List Piece)} {m : ℕ} {net net' : List (List UInt8)}

/-- **Segments get their numbers.** -/
theorem moveQueued {cwnd : UInt32} {segs : List Ikcpseg}
    (h : Direction { k with sndQueue := segs } k' cut m net net')
    (hsmall : cut.flatten.length < 2 ^ 31) :
    Direction (Ikcpcb.moveQueued cwnd k segs) k' cut m net net' := by
  induction segs generalizing k with
  | nil => exact h
  | cons seg segs ih =>
    rw [Ikcpcb.moveQueued]
    split_ifs with hroom
    · refine ih ?_
      have hqueue : seg.piece :: segs.map Ikcpseg.piece = cut.flatten.drop k.sndNxt.toNat :=
        h.sndQueue
      have hlt : k.sndNxt.toNat < cut.flatten.length := by
        by_contra hge
        rw [List.drop_of_length_le (Nat.le_of_not_lt hge)] at hqueue
        exact absurd hqueue (List.cons_ne_nil _ _)
      obtain ⟨hget, hrest⟩ := List.cons.inj (hqueue.trans (List.drop_eq_getElem_cons hlt))
      have hsucc : (k.sndNxt + 1).toNat = k.sndNxt.toNat + 1 := by
        rw [UInt32.toNat_add]
        exact Nat.mod_eq_of_lt (by show k.sndNxt.toNat + 1 < 4294967296; omega)
      refine ⟨?_, h.isCut, h.taken_le, ?_, ?_, h.rcvNxt, h.sorted, h.ahead⟩
      · have hsound := h.sound.number hlt
        simp only [Ikcpcb.sender, hsucc, List.map_append, List.map_singleton]
        exact hsound
      · show segs.map Ikcpseg.piece = cut.flatten.drop (k.sndNxt + 1).toNat
        rw [hsucc, hrest]
      · intro s hs
        rcases List.mem_append.mp hs with hs | hs
        · obtain ⟨⟨hold, hpiece⟩, hpush⟩ := h.sndBuf s hs
          refine ⟨⟨?_, hpiece⟩, hpush⟩
          show s.sn.toNat < (k.sndNxt + 1).toNat
          rw [hsucc]
          exact Nat.lt_succ_of_lt hold
        · rw [List.mem_singleton.mp hs]
          refine ⟨⟨?_, ?_⟩, rfl⟩
          · show k.sndNxt.toNat < (k.sndNxt + 1).toNat
            rw [hsucc]
            exact Nat.lt_succ_self _
          · show cut.flatten[k.sndNxt.toNat]? = some seg.piece
            rw [List.getElem?_eq_getElem hlt, hget]
    · exact h

theorem small_of_mem {b : List Piece} {p : Piece} (h : CountsDown b) (hp : p ∈ b) :
    p.1.toNat < 2 ^ 8 ∧ p.2.length < 2 ^ 31 := by
  induction b with
  | nil => exact absurd hp List.not_mem_nil
  | cons q b ih =>
    obtain ⟨hfrg, hlt, hdata, hrest⟩ := h
    rcases List.mem_cons.mp hp with rfl | hp
    · refine ⟨?_, hdata⟩
      rw [hfrg, UInt32.toNat_ofNat_of_lt' (Nat.lt_trans hlt (by decide))]
      exact Nat.lt_trans hlt (by decide)
    · exact ih hrest hp

theorem small (h : Direction k k' cut m net net') {n : ℕ} {p : Piece}
    (hnum : (k.sender cut.flatten).Numbered n p) : p.1.toNat < 2 ^ 8 ∧ p.2.length < 2 ^ 31 := by
  obtain ⟨b, hb, hp⟩ := List.mem_flatten.mp (List.mem_of_getElem? hnum.2)
  exact small_of_mem (h.isCut b hb).2 hp

theorem piece_onWire {seg : Ikcpseg} (h : seg.frg.toNat < 2 ^ 8) :
    seg.onWire.piece = seg.piece := by
  rw [Ikcpseg.piece, Ikcpseg.onWire, Nat.mod_eq_of_lt h, UInt32.ofNat_toNat, Ikcpseg.piece]

theorem mem_carried_append {packs : List (List Ikcpseg)} {seg : Ikcpseg}
    (hlen : ∀ s ∈ packs.flatten, s.data.length < 2 ^ 31)
    (hseg : seg ∈ carried (net ++ packs.map datagram)) :
    seg ∈ carried net ∨ ∃ s ∈ packs.flatten, seg = s.onWire := by
  obtain ⟨d, hd, hmem⟩ := hseg
  rcases List.mem_append.mp hd with hd | hd
  · exact .inl ⟨d, hd, hmem⟩
  · obtain ⟨pack, hpack, rfl⟩ := List.mem_map.mp hd
    rw [segmentsOf_datagram fun s hs ↦ hlen s (List.mem_flatten_of_mem hpack hs)] at hmem
    obtain ⟨s, hs, rfl⟩ := List.mem_map.mp hmem
    exact .inr ⟨s, List.mem_flatten_of_mem hpack hs, rfl⟩

theorem put_data {packs : List (List Ikcpseg)} (h : Direction k k' cut m net net')
    (hlen : ∀ s ∈ packs.flatten, s.data.length < 2 ^ 31)
    (hnum : ∀ s ∈ packs.flatten, IsCommand s.cmd
      ∧ (s.cmd = cmdPush → (k.sender cut.flatten).Numbered s.sn.toNat s.piece)) :
    Direction k k' cut m (net ++ packs.map datagram) net' where
  sound := by
    refine h.sound.relink ?_ (fun n hn ↦ .inl hn) fun n hn ↦ .inl hn
    rintro p ⟨seg, hseg, hpush, rfl⟩
    rcases mem_carried_append hlen hseg with hseg | ⟨s, hs, rfl⟩
    · exact .inl ⟨seg, hseg, hpush, rfl⟩
    · obtain ⟨hcmd, hdata⟩ := hnum s hs
      rw [cmd_onWire hcmd] at hpush
      have hs' := hdata hpush
      rw [piece_onWire (h.small hs').1]
      exact .inr hs'
  isCut := h.isCut
  taken_le := h.taken_le
  sndQueue := h.sndQueue
  sndBuf := h.sndBuf
  rcvNxt := h.rcvNxt
  sorted := h.sorted
  ahead := h.ahead

theorem put_acks {packs : List (List Ikcpseg)} (h : Direction k k' cut m net net')
    (hlen : ∀ s ∈ packs.flatten, s.data.length < 2 ^ 31)
    (hack : ∀ s ∈ packs.flatten, IsCommand s.cmd ∧ s.una = k'.rcvNxt
      ∧ (s.cmd = cmdAck → ∃ p ∈ k'.acklist, s.sn = p.1)) :
    Direction k k' cut m net (net' ++ packs.map datagram) where
  sound := by
    refine h.sound.relink (fun p hp ↦ .inl hp) ?_ ?_
    · rintro n (⟨seg, hseg, hcmd, rfl⟩ | hn)
      · rcases mem_carried_append hlen hseg with hseg | ⟨s, hs, rfl⟩
        · exact .inl (.inl ⟨seg, hseg, hcmd, rfl⟩)
        · obtain ⟨hcommand, -, hlist⟩ := hack s hs
          rw [cmd_onWire hcommand] at hcmd
          obtain ⟨p, hp, hsn⟩ := hlist hcmd
          exact .inl (.inr ⟨p, hp, congrArg UInt32.toNat hsn⟩)
      · exact .inl (.inr hn)
    · rintro n ⟨seg, hseg, rfl⟩
      rcases mem_carried_append hlen hseg with hseg | ⟨s, hs, rfl⟩
      · exact .inl ⟨seg, hseg, rfl⟩
      · refine .inr ?_
        show s.una.toNat ≤ _
        rw [(hack s hs).2.1, h.rcvNxt]
        exact Nat.le_refl _
  isCut := h.isCut
  taken_le := h.taken_le
  sndQueue := h.sndQueue
  sndBuf := h.sndBuf
  rcvNxt := h.rcvNxt
  sorted := h.sorted
  ahead := h.ahead

/-- **When the sender waits for nothing, the receiver has everything.** -/
theorem complete (h : Direction k k' cut m net net') (hwait : k.waitsnd = 0) :
    (k'.rcvQueue ++ k'.rcvBuf).map Ikcpseg.piece = (cut.drop m).flatten := by
  obtain ⟨hbuf, hqueue⟩ := Nat.add_eq_zero_iff.mp hwait
  have hall : k.sndNxt.toNat = cut.flatten.length := by
    refine Nat.le_antisymm h.sound.next_le ?_
    have hdrop := h.sndQueue
    rw [List.length_eq_zero_iff.mp hqueue] at hdrop
    exact List.drop_eq_nil_iff.mp hdrop.symm
  have hsound := h.sound
  rw [Ikcpcb.sender, hall, List.length_eq_zero_iff.mp hbuf, List.map_nil] at hsound
  have hsorted : ((k'.rcvBuf.map fun seg ↦ (seg.sn.toNat, seg.piece)).map (·.1)).Pairwise
      (· < ·) := by
    rw [List.map_map]
    exact h.sorted
  have hahead : ∀ p ∈ k'.rcvBuf.map fun seg ↦ (seg.sn.toNat, seg.piece),
      ((cut.take m).flatten ++ k'.rcvQueue.map Ikcpseg.piece).length ≤ p.1 := by
    intro p hp
    obtain ⟨seg, hseg, rfl⟩ := List.mem_map.mp hp
    exact h.rcvNxt ▸ h.ahead seg hseg
  have heq := hsound.complete hsorted hahead
  have hsplit : (cut.take m).flatten ++ (cut.drop m).flatten = cut.flatten := by
    rw [← List.flatten_append, List.take_append_drop]
  rw [← hsplit, List.append_assoc, List.map_map] at heq
  rw [List.map_append]
  exact List.append_cancel_left heq

end Direction

/-! ### A flush -/

namespace Conversation

variable {k k' : Ikcpcb} {cut cut' : List (List Piece)} {m m' : ℕ} {net net' : List (List UInt8)}

theorem moved (h : Direction k k' cut m net net') (hsmall : cut.flatten.length < 2 ^ 31) :
    Direction k.moved k' cut m net net' := by
  obtain ⟨hsame, hbuf, -⟩ := Ikcpcb.probeWindow_spec k
  rw [Ikcpcb.moved]
  refine Direction.moveQueued ?_ hsmall
  exact h.sender_same hsame.sndNxt hsame.sndQueue hbuf

/-- **A flush keeps both directions.** -/
theorem flush (h : Conversation k k' cut cut' m m' net net')
    (hsmall : cut.flatten.length < 2 ^ 31) :
    Conversation k.flush.1 k' cut cut' m m' (net ++ k.flush.2) net' := by
  by_cases hupd : k.updated = 0
  · rw [Ikcpcb.flush, if_pos hupd]
    simpa using h
  obtain ⟨hsame, hbuf, -⟩ := Ikcpcb.flush_state hupd
  obtain ⟨packs, hout, hsegs, -, -⟩ := Ikcpcb.flush_output hupd
  obtain ⟨hnxt, hqueue, hrbuf, hlist⟩ := k.moved_receiver
  have hmoved := moved h.forth hsmall
  have hdue : ∀ s ∈ k.moved.due, (k.moved.sender cut.flatten).Numbered s.sn.toNat s.piece
      ∧ s.cmd = cmdPush ∧ s.una = k.rcvNxt := by
    intro s hs
    obtain ⟨s₀, hs₀, r, rfl⟩ := Ikcpcb.mem_due hs
    obtain ⟨hsn, hcmd, -, hfrg, hdata, huna⟩ := Ikcpcb.stamped_spec k.moved s₀ r
    obtain ⟨hnum, hpush⟩ := hmoved.sndBuf s₀ hs₀
    rw [hsn, Ikcpseg.piece, hfrg, hdata, hcmd, huna]
    exact ⟨hnum, hpush, hnxt⟩
  have hlen : ∀ s ∈ packs.flatten, s.data.length < 2 ^ 31 := by
    intro s hs
    rw [hsegs] at hs
    rcases List.mem_append.mp hs with hs | hs
    · rw [(Ikcpcb.mem_controlSegs hs).1]
      exact Nat.two_pow_pos 31
    · exact (hmoved.small (hdue s hs).1).2
  rw [hout]
  refine ⟨?_, ?_⟩
  · refine (hmoved.put_data hlen fun s hs ↦ ?_).sender_step hsame.sndNxt hsame.sndQueue ?_ ?_
    · rw [hsegs] at hs
      rcases List.mem_append.mp hs with hs | hs
      · obtain ⟨-, -, -, hcmd, hne, -⟩ := Ikcpcb.mem_controlSegs hs
        exact ⟨hcmd, fun h ↦ absurd h hne⟩
      · exact ⟨.inl (hdue s hs).2.1, fun _ ↦ (hdue s hs).1⟩
    · intro s hs
      rw [hbuf] at hs
      obtain ⟨s₀, hs₀, rfl⟩ := List.mem_map.mp hs
      obtain ⟨hsn, hcmd, -, hfrg, hdata⟩ := Ikcpcb.swept_spec k.moved s₀
      exact ⟨s₀, hs₀, hsn, by rw [Ikcpseg.piece, hfrg, hdata, Ikcpseg.piece], hcmd⟩
    · intro s hs
      rw [hbuf]
      exact .inl ⟨_, List.mem_map_of_mem hs, (Ikcpcb.swept_spec _ s).1⟩
  · refine (h.back.put_acks hlen fun s hs ↦ ?_).receiver_step (hsame.rcvNxt.trans hnxt)
      (hsame.rcvQueue.trans hqueue) (hsame.rcvBuf.trans hrbuf) fun p hp ↦ ?_
    · rw [hsegs] at hs
      rcases List.mem_append.mp hs with hs | hs
      · obtain ⟨-, -, huna, hcmd, -, hack⟩ := Ikcpcb.mem_controlSegs hs
        exact ⟨hcmd, huna, hack⟩
      · obtain ⟨-, hpush, huna⟩ := hdue s hs
        exact ⟨.inl hpush, huna, fun h ↦ absurd (hpush.symm.trans h) (by decide)⟩
    · rw [hsame.acklist, hlist] at hp
      exact absurd hp List.not_mem_nil

/-! ### Calls of the user -/

theorem symm (h : Conversation k k' cut cut' m m' net net') :
    Conversation k' k cut' cut m' m net' net := ⟨h.back, h.forth⟩

theorem same {k₁ : Ikcpcb} (h : Conversation k k' cut cut' m m' net net')
    (hsame : k₁.toTransport = k.toTransport) (hlist : k₁.acklist = k.acklist) :
    Conversation k₁ k' cut cut' m m' net net' := by
  have hfield : ∀ {β : Type} (f : Transport → β), f k₁.toTransport = f k.toTransport :=
    fun f ↦ congrArg f hsame
  refine ⟨h.forth.sender_same (hfield (·.sndNxt)) (hfield (·.sndQueue)) (hfield (·.sndBuf)),
    h.back.receiver_step (hfield (·.rcvNxt)) (hfield (·.rcvQueue)) (hfield (·.rcvBuf)) ?_⟩
  rw [hlist]
  exact fun _ hp ↦ .inl hp

theorem send {segs : List Ikcpseg} (h : Conversation k k' cut cut' m m' net net')
    (hsegs : IsCut (segs.map Ikcpseg.piece)) :
    Conversation { k with sndQueue := k.sndQueue ++ segs } k' (cut ++ [segs.map Ikcpseg.piece]) cut'
      m m' net net' :=
  ⟨h.forth.send hsegs, h.back.receiver_step rfl rfl rfl fun _ hp ↦ .inl hp⟩

/-- **A flush at its time.** -/
theorem update (h : Conversation k k' cut cut' m m' net net')
    (hsmall : cut.flatten.length < 2 ^ 31) (now : UInt32) :
    Conversation (k.update now).1 k' cut cut' m m' (net ++ (k.update now).2) net' := by
  obtain ⟨updated, tsFlush, heq | heq⟩ := k.update_cases now
  · rw [heq]
    exact Conversation.flush (h.same rfl rfl) hsmall
  · rw [heq, List.append_nil]
    exact h.same rfl rfl

/-- **The user takes a message**: it is the next one of those that were given to the other end. -/
theorem recv (h : Conversation k k' cut cut' m m' net net') (hsmall' : cut'.flatten.length < 2 ^ 31)
    (len : ℕ) :
    k.recv len = (k, none) ∨ ∃ k₁ b, k.recv len = (k₁, some (joined b)) ∧ cut'[m']? = some b
      ∧ Conversation k₁ k' cut cut' m (m' + 1) net net' := by
  have hout : (cut'.take m').flatten ++ k.rcvQueue.map Ikcpseg.piece <+: cut'.flatten :=
    h.back.sound.out_prefix
  obtain ⟨rest, hrest⟩ := hout
  have hqueue : k.rcvQueue.map Ikcpseg.piece ++ rest = (cut'.drop m').flatten := by
    have hsplit : (cut'.take m').flatten ++ (cut'.drop m').flatten = cut'.flatten := by
      rw [← List.flatten_append, List.take_append_drop]
    rw [← hsplit, List.append_assoc] at hrest
    exact List.append_cancel_left hrest
  have hlen : k.rcvQueue.length < 2 ^ 31 := by
    have hnum := congrArg List.length hrest
    rw [List.length_append, List.length_append, List.length_map] at hnum
    omega
  have htodo : ∀ b ∈ cut'.drop m', IsCut b := fun b hb ↦ h.back.isCut b (List.mem_of_mem_drop hb)
  refine (recv_spec hqueue htodo hlen).imp_right ?_
  rintro ⟨front, back, b, todo', hfront, hdrop, hb, probe, heq⟩
  have hget : cut'[m']? = some b := by rw [← List.head?_drop, hdrop, List.head?_cons]
  refine ⟨_, b, heq, hget, ?_, ?_⟩
  · obtain ⟨moved, kept, -, hmoved, -⟩ :=
      Ikcpcb.moveAvailable_eq { k with rcvQueue := back } k.rcvBuf
    rw [hmoved]
    exact h.forth.sender_same rfl rfl rfl
  · refine Direction.receiver_step (Direction.moveAvailable ?_) rfl rfl rfl fun p hp ↦ .inl hp
    exact h.back.take hfront hget hb

end Conversation

end Knet.Kcp
