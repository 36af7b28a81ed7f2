import Knet.Kcp.Settings

/-!
# The windows

How much an object keeps is bounded by the windows that the user has set, whatever comes in: the
other end need not follow the protocol, and the bytes may be anything. The sequence numbers wrap
around, so that their order is that of their places behind the first number of a window
(`Serial.Ordered`).

**The receive buffer and the receive queue stay within the receive window, and the send buffer
within the send window** (`within_windows`).
-/

namespace Knet.Kcp

namespace Ikcpcb

/-- The numbers of some segments. -/
def numbers (segs : List Ikcpseg) : List (BitVec 32) := segs.map (·.sn.toBitVec)

/-- How many segments are under way: the numbers from `snd_una` to `snd_nxt`. -/
def inFlight (k : Ikcpcb) : ℕ := Serial.offset k.sndUna.toBitVec k.sndNxt.toBitVec

/-- The receiving half. -/
structure Receiving (k : Ikcpcb) : Prop where
  queue : k.rcvQueue.length ≤ k.rcvWnd.toNat
  ordered : Serial.Ordered k.rcvNxt.toBitVec (min k.rcvWnd.toNat (2 ^ 31)) (numbers k.rcvBuf)
  /-- What is next in order has moved to the queue, unless that is full. -/
  next : ∀ seg ∈ k.rcvBuf.head?, seg.sn = k.rcvNxt → k.rcvWnd.toNat ≤ k.rcvQueue.length

/-- The sending half. -/
structure Sending (k : Ikcpcb) : Prop where
  ordered : Serial.Ordered k.sndUna.toBitVec k.inFlight (numbers k.sndBuf)
  window : k.inFlight ≤ k.sndWnd.toNat
  sndWnd : k.sndWnd.toNat < 2 ^ 31

/-! ## The receiver -/

variable {k k' : Ikcpcb}

theorem Receiving.same (h : k.Receiving) (hnxt : k'.rcvNxt = k.rcvNxt)
    (hqueue : k'.rcvQueue = k.rcvQueue) (hbuf : k'.rcvBuf = k.rcvBuf) (hwnd : k'.rcvWnd = k.rcvWnd) :
    k'.Receiving where
  queue := by rw [hqueue, hwnd]; exact h.queue
  ordered := by rw [hnxt, hwnd, hbuf]; exact h.ordered
  next := by rw [hnxt, hwnd, hbuf, hqueue]; exact h.next

/-- **What is next in order moves up**, as long as the queue has room. -/
theorem receiving_moveAvailable {segs : List Ikcpseg} (hqueue : k.rcvQueue.length ≤ k.rcvWnd.toNat)
    (hord : Serial.Ordered k.rcvNxt.toBitVec (min k.rcvWnd.toNat (2 ^ 31)) (numbers segs)) :
    (k.moveAvailable segs).Receiving := by
  have hnat : (UInt32.ofNat k.rcvQueue.length).toNat = k.rcvQueue.length :=
    UInt32.toNat_ofNat_of_lt' (Nat.lt_of_le_of_lt hqueue k.rcvWnd.toNat_lt)
  induction segs generalizing k with
  | nil => exact ⟨hqueue, Serial.Ordered.nil, fun seg hseg ↦ absurd hseg (by simp [moveAvailable])⟩
  | cons seg segs ih =>
    rw [moveAvailable]
    split_ifs with hnext
    · have hroom : k.rcvQueue.length < k.rcvWnd.toNat := by
        have hlt := UInt32.lt_iff_toNat_lt.mp hnext.2
        rwa [hnat] at hlt
      have hlen : (k.rcvQueue ++ [seg]).length ≤ k.rcvWnd.toNat := by
        rw [List.length_append]
        exact hroom
      rw [numbers, List.map_cons, hnext.1] at hord
      refine ih hlen ((hord.next (by decide)).mono (Nat.sub_le _ _)) ?_
      exact UInt32.toNat_ofNat_of_lt' (Nat.lt_of_le_of_lt hlen k.rcvWnd.toNat_lt)
    · refine ⟨hqueue, hord, fun s hs heq ↦ ?_⟩
      obtain rfl := Option.some.inj hs
      have hfull := not_and.mp hnext heq
      rw [UInt32.lt_iff_toNat_lt, hnat] at hfull
      exact Nat.le_of_not_lt hfull

/-- **A data segment at the receiver**: it is put in its place when the window has one for it. -/
theorem Receiving.parseData (h : k.Receiving) (seg : Ikcpseg) : (k.parseData seg).Receiving := by
  rw [Ikcpcb.parseData]
  split_ifs with hout
  · exact h
  refine receiving_moveAvailable h.queue ?_
  obtain ⟨hwnd, hnew⟩ := not_or.mp hout
  have hnear : Serial.offset k.rcvNxt.toBitVec seg.sn.toBitVec < min k.rcvWnd.toNat (2 ^ 31) := by
    refine Nat.lt_min.mpr
      ⟨Serial.offset_lt_of_window (Int.not_lt.mp hnew) (Int.not_le.mp hwnd), ?_⟩
    have := (Serial.diff_nonneg_iff _ _).mp (Int.not_lt.mp hnew)
    omega
  have hhalf : ∀ {s : UInt32},
      Serial.offset k.rcvNxt.toBitVec s.toBitVec < min k.rcvWnd.toNat (2 ^ 31) →
      2 * Serial.offset k.rcvNxt.toBitVec s.toBitVec < 2 ^ 32 := by
    intro s hs
    have := (Nat.lt_min.mp hs).2
    omega
  have hold : ∀ s ∈ k.rcvBuf.reverse,
      Serial.offset k.rcvNxt.toBitVec s.sn.toBitVec < min k.rcvWnd.toNat (2 ^ 31) := fun s hs ↦
    h.ordered.lt _ (List.mem_map_of_mem (List.mem_reverse.mp hs))
  have hdesc : k.rcvBuf.reverse.Pairwise fun a b ↦
      Serial.offset k.rcvNxt.toBitVec b.sn.toBitVec
        < Serial.offset k.rcvNxt.toBitVec a.sn.toBitVec := by
    have hsorted := h.ordered.sorted
    rw [numbers, List.map_map] at hsorted
    exact List.pairwise_reverse.mpr (List.pairwise_map.mp hsorted)
  obtain ⟨-, hfrom, -, hpair⟩ :=
    @insertFromBack_spec (fun s ↦ Serial.offset k.rcvNxt.toBitVec s.toBitVec) seg _
      (fun s hs ↦ Serial.diff_eq_offset_sub (hhalf hnear) (hhalf (hold s hs)))
      (fun s _ heq ↦ UInt32.toBitVec_inj.mp (Serial.offset_inj heq)) hdesc
  refine ⟨?_, fun n hn ↦ ?_⟩
  · rw [numbers, List.map_map]
    exact List.pairwise_map.mpr (List.pairwise_reverse.mpr hpair)
  · obtain ⟨s, hs, rfl⟩ := List.mem_map.mp hn
    rcases hfrom s (List.mem_reverse.mp hs) with hs | rfl
    · exact hold s hs
    · exact hnear

theorem Receiving.inputPush (h : k.Receiving) (seg : Ikcpseg) : (k.inputPush seg).Receiving := by
  have hack : (k.ackPush seg.sn seg.ts).Receiving := h.same rfl rfl rfl rfl
  rw [Ikcpcb.inputPush]
  split_ifs
  · exact hack.parseData seg
  · exact hack
  · exact h

theorem Receiving.inputSegment (h : k.Receiving) (seg : Ikcpseg) :
    (k.inputSegment seg).Receiving := by
  obtain ⟨k₁, hsame, -, heq⟩ := inputSegment_spec k seg
  have h₁ := h.same hsame.rcvNxt hsame.rcvQueue hsame.rcvBuf hsame.rcvWnd
  rw [heq]
  split_ifs
  · exact h₁.inputPush seg
  · exact h₁

theorem Receiving.input (h : k.Receiving) (d : List UInt8) : (k.input d).1.Receiving := by
  refine input_induction h (fun seg _ k _ _ hk ↦ hk.inputSegment seg) (fun k sn hk ↦ ?_)
    fun k prevUna hk ↦ ?_
  · have hsame := sameBut_parseFastack k sn
    exact hk.same hsame.rcvNxt hsame.rcvQueue hsame.rcvBuf hsame.rcvWnd
  · obtain ⟨hsame, -⟩ := growWindow_spec k prevUna
    exact hk.same hsame.rcvNxt hsame.rcvQueue hsame.rcvBuf hsame.rcvWnd

theorem length_splitMessage (queue : List Ikcpseg) :
    (splitMessage queue).2.length ≤ queue.length := by
  induction queue with
  | nil => exact Nat.le_refl _
  | cons seg segs ih =>
    rw [splitMessage]
    split_ifs
    · exact Nat.le_succ _
    · exact ih.trans (Nat.le_succ _)

theorem Receiving.recv (h : k.Receiving) (len : ℕ) : (k.recv len).1.Receiving := by
  have hmove : (({ k with rcvQueue := (splitMessage k.rcvQueue).2 } : Ikcpcb).moveAvailable
      k.rcvBuf).Receiving :=
    receiving_moveAvailable ((length_splitMessage _).trans h.queue) h.ordered
  rw [Ikcpcb.recv]
  split_ifs
  · exact h
  · dsimp only
    split_ifs
    · exact hmove.same rfl rfl rfl rfl
    · exact hmove

/-! ## The sender -/

theorem Sending.same (h : k.Sending) (huna : k'.sndUna = k.sndUna) (hnxt : k'.sndNxt = k.sndNxt)
    (hbuf : numbers k'.sndBuf = numbers k.sndBuf) (hwnd : k'.sndWnd = k.sndWnd) : k'.Sending where
  ordered := by rw [inFlight, huna, hnxt, hbuf]; exact h.ordered
  window := by rw [inFlight, huna, hnxt, hwnd]; exact h.window
  sndWnd := by rw [hwnd]; exact h.sndWnd

/-- **Segments leave the send buffer**, and the window moves up to the first one left. -/
theorem Sending.shrink {segs : List Ikcpseg} (h : k.Sending) (hsub : segs.Sublist k.sndBuf) :
    (({ k with sndBuf := segs } : Ikcpcb).shrinkBuf).Sending := by
  have hord : Serial.Ordered k.sndUna.toBitVec k.inFlight (numbers segs) :=
    h.ordered.sublist (hsub.map _)
  have hwindow : k.inFlight ≤ k.sndWnd.toNat := h.window
  cases segs with
  | nil =>
    have hzero : Serial.offset k.sndNxt.toBitVec k.sndNxt.toBitVec = 0 :=
      Serial.offset_eq_zero_iff.mpr rfl
    refine ⟨Serial.Ordered.nil, ?_, h.sndWnd⟩
    show Serial.offset k.sndNxt.toBitVec k.sndNxt.toBitVec ≤ k.sndWnd.toNat
    rw [hzero]
    exact Nat.zero_le _
  | cons seg segs =>
    have hlt : Serial.offset k.sndUna.toBitVec seg.sn.toBitVec < k.inFlight :=
      hord.lt _ List.mem_cons_self
    have hflight : Serial.offset seg.sn.toBitVec k.sndNxt.toBitVec
        = k.inFlight - Serial.offset k.sndUna.toBitVec seg.sn.toBitVec :=
      Serial.offset_eq_sub (Nat.le_of_lt hlt)
    refine ⟨?_, ?_, h.sndWnd⟩
    · show Serial.Ordered seg.sn.toBitVec (Serial.offset seg.sn.toBitVec k.sndNxt.toBitVec) _
      rw [hflight]
      exact hord.rebase_head
    · show Serial.offset seg.sn.toBitVec k.sndNxt.toBitVec ≤ k.sndWnd.toNat
      rw [hflight]
      exact (Nat.sub_le _ _).trans hwindow

theorem updateAck_sender (k : Ikcpcb) (rtt : Int32) : (k.updateAck rtt).sndUna = k.sndUna := by
  rw [updateAck]
  split_ifs <;> rfl

theorem Sending.parseAck (h : k.Sending) (sn : UInt32) : (k.parseAck sn).shrinkBuf.Sending := by
  rw [Ikcpcb.parseAck]
  split_ifs
  · exact h.shrink (removeAcked_sublist sn k.sndBuf)
  · exact h.shrink (List.Sublist.refl _)

theorem Sending.inputSegment (h : k.Sending) (seg : Ikcpseg) : (k.inputSegment seg).Sending := by
  have hune : (k.inputUna seg).Sending := by
    have hsame : ({ k with rmtWnd := seg.wnd } : Ikcpcb).Sending := h.same rfl rfl rfl rfl
    exact hsame.shrink (List.dropWhile_sublist _)
  rw [inputSegment_eq]
  generalize k.inputUna seg = k₁ at hune
  split_ifs
  · rw [inputAck]
    split_ifs
    · obtain ⟨hsame, hbuf⟩ := updateAck_spec k₁ (.ofInt (itimediff k₁.current seg.ts))
      refine Sending.parseAck ?_ seg.sn
      exact hune.same (updateAck_sender k₁ _) hsame.sndNxt (congrArg numbers hbuf)
        (congrArg Settings.sndWnd (settings_updateAck k₁ _))
    · exact hune.parseAck seg.sn
  · obtain ⟨hnxt, -, hbuf, huna⟩ := inputPush_sender k₁ seg
    exact hune.same huna hnxt (congrArg numbers hbuf)
      (congrArg Settings.sndWnd (settings_inputPush k₁ seg))
  · exact hune.same rfl rfl rfl rfl
  · exact hune

theorem numbers_countSkipped (sn : UInt32) (segs : List Ikcpseg) :
    numbers (countSkipped sn segs) = numbers segs := by
  induction segs with
  | nil => rfl
  | cons seg segs ih =>
    rw [countSkipped]
    split_ifs
    · rfl
    · rw [numbers, numbers, List.map_cons, List.map_cons, ← numbers, ih, numbers]
    · rw [numbers, numbers, List.map_cons, List.map_cons, ← numbers, ih, numbers]

theorem growWindow_sender (k : Ikcpcb) (prevUna : UInt32) :
    (k.growWindow prevUna).sndUna = k.sndUna ∧ (k.growWindow prevUna).sndWnd = k.sndWnd := by
  rw [growWindow]
  dsimp only
  split_ifs <;> exact ⟨rfl, rfl⟩

theorem Sending.input (h : k.Sending) (d : List UInt8) : (k.input d).1.Sending := by
  refine input_induction h (fun seg _ k _ _ hk ↦ hk.inputSegment seg) (fun k sn hk ↦ ?_)
    fun k prevUna hk ↦ ?_
  · rw [parseFastack]
    split_ifs
    · exact hk.same rfl rfl (numbers_countSkipped sn k.sndBuf) rfl
    · exact hk
  · obtain ⟨hsame, hbuf⟩ := growWindow_spec k prevUna
    obtain ⟨huna, hwnd⟩ := growWindow_sender k prevUna
    exact hk.same huna hsame.sndNxt (congrArg numbers hbuf) hwnd

/-! ### A flush -/

theorem toNat_imin_le (a b : UInt32) : (imin a b).toNat ≤ a.toNat ∧ (imin a b).toNat ≤ b.toNat := by
  rw [imin]
  split_ifs with h
  · exact ⟨Nat.le_refl _, UInt32.le_iff_toNat_le.mp h⟩
  · exact ⟨Nat.le_of_lt (UInt32.lt_iff_toNat_lt.mp (UInt32.not_le.mp h)), Nat.le_refl _⟩

theorem sendWindow_le (k : Ikcpcb) : k.sendWindow.toNat ≤ k.sndWnd.toNat := by
  rw [sendWindow]
  split_ifs
  · exact (toNat_imin_le _ _).2.trans (toNat_imin_le _ _).1
  · exact (toNat_imin_le _ _).1

/-- **A segment is numbered only when there is room in the window.** -/
theorem Sending.moveQueued {cwnd : UInt32} {segs : List Ikcpseg} (h : k.Sending)
    (hcwnd : cwnd.toNat ≤ k.sndWnd.toNat) : (moveQueued cwnd k segs).Sending := by
  induction segs generalizing k with
  | nil => exact h.same rfl rfl rfl rfl
  | cons seg segs ih =>
    rw [Ikcpcb.moveQueued]
    split_ifs with hroom
    · refine ih ?_ hcwnd
      have hwnd := h.sndWnd
      have hflight := h.window
      have hsize : Serial.offset k.sndUna.toBitVec (k.sndUna + cwnd).toBitVec = cwnd.toNat :=
        Serial.offset_add_self _ _
      have hless : k.inFlight < cwnd.toNat := by
        have hdiff : itimediff k.sndNxt (k.sndUna + cwnd)
            = (k.inFlight : ℤ) - Serial.offset k.sndUna.toBitVec (k.sndUna + cwnd).toBitVec :=
          Serial.diff_eq_offset_sub (by rw [← inFlight]; omega) (by rw [hsize]; omega)
        rw [hdiff, hsize] at hroom
        omega
      have hnext : Serial.offset k.sndUna.toBitVec (k.sndNxt + 1).toBitVec = k.inFlight + 1 :=
        Serial.offset_succ (by rw [← inFlight]; omega)
      refine ⟨?_, ?_, hwnd⟩
      · show Serial.Ordered k.sndUna.toBitVec
          (Serial.offset k.sndUna.toBitVec (k.sndNxt + 1).toBitVec)
          (numbers (k.sndBuf ++ [k.numbered seg]))
        rw [hnext, numbers, List.map_append]
        exact h.ordered.concat
      · show Serial.offset k.sndUna.toBitVec (k.sndNxt + 1).toBitVec ≤ k.sndWnd.toNat
        rw [hnext]
        omega
    · exact h.same rfl rfl rfl rfl

theorem Sending.flush (h : k.Sending) : k.flush.1.Sending := by
  have hflush := settings_flush k
  by_cases hupd : k.updated = 0
  · rw [Ikcpcb.flush, if_pos hupd]
    exact h
  obtain ⟨hsame, hbuf, huna⟩ := flush_state hupd
  obtain ⟨hprobe, hpbuf, hpuna⟩ := probeWindow_spec k
  have hwnd : k.probeWindow.sndWnd = k.sndWnd := by
    rw [probeWindow]
    dsimp only
    split_ifs <;> rfl
  have hready : ({ k.probeWindow with acklist := [], probe := 0 } : Ikcpcb).Sending :=
    h.same hpuna hprobe.sndNxt (congrArg numbers hpbuf) hwnd
  have hmoved : k.moved.Sending := hready.moveQueued (sendWindow_le k.probeWindow)
  have hswept : numbers (k.moved.sndBuf.map k.moved.swept) = numbers k.moved.sndBuf := by
    rw [numbers, List.map_map]
    refine List.map_congr_left fun seg _ ↦ ?_
    show (k.moved.swept seg).sn.toBitVec = seg.sn.toBitVec
    rw [(swept_spec _ seg).1]
  have hset : k.flush.1.settings = k.moved.settings := hflush.trans (settings_moved k).symm
  exact hmoved.same huna hsame.sndNxt (by rw [hbuf, hswept]) (congrArg Settings.sndWnd hset)

theorem Receiving.flush (h : k.Receiving) : k.flush.1.Receiving := by
  by_cases hupd : k.updated = 0
  · rw [Ikcpcb.flush, if_pos hupd]
    exact h
  obtain ⟨hsame, -⟩ := flush_state hupd
  obtain ⟨hnxt, hqueue, hbuf, -⟩ := moved_receiver k
  exact h.same (hsame.rcvNxt.trans hnxt) (hsame.rcvQueue.trans hqueue) (hsame.rcvBuf.trans hbuf)
    (congrArg Settings.rcvWnd (settings_flush k))

/-! ## Calls -/

/-- A call of the user or of the network. -/
inductive Call
  | send (data : List UInt8)
  | recv (len : ℕ)
  | input (d : List UInt8)
  | update (now : UInt32)
  | flush
  deriving DecidableEq, Repr

/-- The object after a call. -/
def call (k : Ikcpcb) : Call → Ikcpcb
  | .send data => (k.send data).1
  | .recv len => (k.recv len).1
  | .input d => (k.input d).1
  | .update now => (k.update now).1
  | .flush => k.flush.1

/-- An object that is set up and then called. -/
def after (conv : UInt32) (settings : List Setting) (calls : List Call) : Ikcpcb :=
  calls.foldl call (settings.foldl (fun k s ↦ s.apply k) (create conv))

/-- Both halves. -/
structure Within (k : Ikcpcb) : Prop where
  receiving : k.Receiving
  sending : k.Sending

theorem Within.call (h : k.Within) (c : Call) : (k.call c).Within := by
  obtain ⟨hreceiving, hsending⟩ := h
  cases c with
  | send data =>
    have htransport : (k.send data).1.rcvNxt = k.rcvNxt ∧ (k.send data).1.rcvQueue = k.rcvQueue
        ∧ (k.send data).1.rcvBuf = k.rcvBuf ∧ (k.send data).1.sndUna = k.sndUna
        ∧ (k.send data).1.sndNxt = k.sndNxt ∧ (k.send data).1.sndBuf = k.sndBuf := by
      rw [Ikcpcb.send]
      dsimp only
      split_ifs <;> exact ⟨rfl, rfl, rfl, rfl, rfl, rfl⟩
    obtain ⟨hnxt, hqueue, hbuf, huna, hsnxt, hsbuf⟩ := htransport
    have hset := settings_send k data
    exact ⟨hreceiving.same hnxt hqueue hbuf (congrArg Settings.rcvWnd hset),
      hsending.same huna hsnxt (congrArg numbers hsbuf) (congrArg Settings.sndWnd hset)⟩
  | recv len =>
    obtain ⟨hnxt, -, hbuf, huna⟩ := recv_sender k len
    exact ⟨hreceiving.recv len, hsending.same huna hnxt (congrArg numbers hbuf)
      (congrArg Settings.sndWnd (settings_recv k len))⟩
  | input d => exact ⟨hreceiving.input d, hsending.input d⟩
  | update now =>
    obtain ⟨updated, tsFlush, heq | heq⟩ := k.update_cases now
    · rw [Ikcpcb.call, heq]
      exact ⟨Receiving.flush (hreceiving.same rfl rfl rfl rfl),
        Sending.flush (hsending.same rfl rfl rfl rfl)⟩
    · rw [Ikcpcb.call, heq]
      exact ⟨hreceiving.same rfl rfl rfl rfl, hsending.same rfl rfl rfl rfl⟩
  | flush => exact ⟨hreceiving.flush, hsending.flush⟩

theorem within_of_idle (htransport : k.toTransport = {}) (hwnd : k.sndWnd.toNat < 2 ^ 31) :
    k.Within := by
  have hfield : ∀ {β : Type} (f : Transport → β), f k.toTransport = f {} :=
    fun f ↦ congrArg f htransport
  have hflight : k.inFlight = 0 := by
    rw [inFlight, hfield (·.sndUna), hfield (·.sndNxt)]
    rfl
  refine ⟨⟨?_, ?_, ?_⟩, ⟨?_, ?_, hwnd⟩⟩
  · rw [hfield (·.rcvQueue)]
    exact Nat.zero_le _
  · rw [hfield (·.rcvBuf)]
    exact Serial.Ordered.nil
  · rw [hfield (·.rcvBuf)]
    exact fun seg hseg ↦ absurd hseg (by simp)
  · rw [hfield (·.sndBuf)]
    exact Serial.Ordered.nil
  · rw [hflight]
    exact Nat.zero_le _

/-- **The windows bound what an object keeps**, and no number stands there twice, whatever calls are
made and whatever bytes come in. What is next in order does not wait while there is room for it. -/
theorem within_windows {conv : UInt32} {settings : List Setting} (calls : List Call)
    (hrange : ∀ s ∈ settings, s.InRange) :
    let k := after conv settings calls
    k.rcvQueue.length ≤ k.rcvWnd.toNat ∧ k.rcvBuf.length ≤ k.rcvWnd.toNat
      ∧ k.sndBuf.length ≤ k.inFlight ∧ k.inFlight ≤ k.sndWnd.toNat
      ∧ (numbers k.rcvBuf).Nodup ∧ (numbers k.sndBuf).Nodup
      ∧ ∀ seg ∈ k.rcvBuf.head?, seg.sn = k.rcvNxt → k.rcvQueue.length = k.rcvWnd.toNat := by
  have hstart : (settings.foldl (fun k s ↦ s.apply k) (create conv)).toTransport = {}
      ∧ (settings.foldl (fun k s ↦ s.apply k) (create conv)).sndWnd.toNat < 2 ^ 31 := by
    have hcreate : (create conv).toTransport = {} ∧ (create conv).sndWnd.toNat < 2 ^ 31 :=
      ⟨rfl, (by decide : (32 : UInt32).toNat < 2 ^ 31)⟩
    generalize create conv = k at hcreate
    induction settings generalizing k with
    | nil => exact hcreate
    | cons s settings ih =>
      obtain ⟨hs, hsettings⟩ := List.forall_mem_cons.mp hrange
      refine ih hsettings _ ⟨(toTransport_apply s k).1.trans hcreate.1, ?_⟩
      exact sndWnd_apply hs hcreate.2
  have hall : (after conv settings calls).Within := by
    rw [after]
    have hfirst := within_of_idle hstart.1 hstart.2
    generalize settings.foldl (fun k s ↦ s.apply k) (create conv) = k at hfirst
    induction calls generalizing k with
    | nil => exact hfirst
    | cons c calls ih => exact ih _ (hfirst.call c)
  obtain ⟨⟨hqueue, hrord, hnext⟩, hsord, hwindow, -⟩ := hall
  obtain ⟨hrnodup, hrlen⟩ := hrord.length_le
  obtain ⟨hsnodup, hslen⟩ := hsord.length_le
  rw [numbers, List.length_map] at hrlen hslen
  exact ⟨hqueue, hrlen.trans (Nat.min_le_left _ _), hslen, hwindow, hrnodup, hsnodup,
    fun seg hseg heq ↦ Nat.le_antisymm hqueue (hnext seg hseg heq)⟩

theorem within_windows_two :
    let k := after 7 [.wndsize 2 2] [.send [1], .send [2], .send [3], .update 0, .update 100]
    k.rcvQueue.length ≤ k.rcvWnd.toNat ∧ k.rcvBuf.length ≤ k.rcvWnd.toNat
      ∧ k.sndBuf.length ≤ k.inFlight ∧ k.inFlight ≤ k.sndWnd.toNat
      ∧ (numbers k.rcvBuf).Nodup ∧ (numbers k.sndBuf).Nodup
      ∧ ∀ seg ∈ k.rcvBuf.head?, seg.sn = k.rcvNxt → k.rcvQueue.length = k.rcvWnd.toNat :=
  within_windows _ (by decide)

end Ikcpcb

end Knet.Kcp
