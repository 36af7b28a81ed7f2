import Knet.Kcp.Input

/-!
# What goes out

`ikcp_flush` with the window probes and the retransmissions, `ikcp_update`, which calls it when the
time has come, and `ikcp_check`, which tells when that will be.

The buffer of `ikcp_flush` takes segments until the next one would make it longer than the MTU
(`Output.put`). A segment that is longer than the MTU by itself may run over the end of the block
that was allocated for it; the object notes that (`overrun`), and what happens afterwards means
nothing. `flush_output` says what a reader of the datagrams finds.
-/

namespace Knet.Kcp

/-! ## The buffer -/

/-- The size of the block that `ikcp_create` and `ikcp_setmtu` allocate for `buffer`. -/
def blockSize (mtu : UInt32) : UInt32 := (mtu + UInt32.ofNat overhead) * 3

/-- The buffer that `ikcp_flush` writes into, and the datagrams put out so far. -/
structure Output where
  buffer : List UInt8 := []
  sent : List (List UInt8) := []
  /-- Something was written past the end of the block. -/
  overrun : Bool := false
  deriving DecidableEq, Repr

namespace Output

/-- `ikcp_output`, after which writing starts at the front of the buffer again. Nothing is put out
when the buffer is empty. -/
def output (o : Output) : Output :=
  if o.buffer = [] then o else { o with buffer := [], sent := o.sent ++ [o.buffer] }

/-- A segment is encoded into the buffer, which is put out first when the segment would make it
longer than the MTU. -/
def put (mtu : UInt32) (o : Output) (seg : Ikcpseg) : Output :=
  let o := if mtu.toNat < o.buffer.length + (overhead + seg.data.length) then o.output else o
  let buffer := o.buffer ++ seg.bytes
  { o with buffer := buffer, overrun := o.overrun || (blockSize mtu).toNat < buffer.length }

end Output

namespace Ikcpcb

/-- `IKCP_ASK_SEND`. -/
def askSend : UInt32 := 1

/-- `IKCP_THRESH_MIN`. -/
def threshMin : UInt32 := 2

/-- `IKCP_PROBE_INIT`. -/
def probeInit : UInt32 := 7000

/-- `IKCP_PROBE_LIMIT`. -/
def probeLimit : UInt32 := 120000

/-- `ikcp_wnd_unused`. -/
def wndUnused (k : Ikcpcb) : UInt32 :=
  if UInt32.ofNat k.rcvQueue.length < k.rcvWnd then k.rcvWnd - UInt32.ofNat k.rcvQueue.length
  else 0

/-- The segment that `ikcp_flush` uses for everything but data, with an acknowledgement in it. -/
def ackSeg (k : Ikcpcb) (ack : UInt32 × UInt32) : Ikcpseg :=
  { conv := k.conv, cmd := cmdAck, wnd := k.wndUnused, una := k.rcvNxt, sn := ack.1, ts := ack.2,
    data := [] }

/-- The segment that is left in it after the last acknowledgement. -/
def lastSeg (k : Ikcpcb) : Ikcpseg := k.ackSeg (k.acklist.getLastD (0, 0))

/-- Whether the window of the other end has to be asked for, when it is closed. -/
def probeWindow (k : Ikcpcb) : Ikcpcb :=
  if k.rmtWnd = 0 then
    if k.probeWait = 0 then
      { k with probeWait := probeInit, tsProbe := k.current + probeInit }
    else if 0 ≤ itimediff k.current k.tsProbe then
      let probeWait := imax k.probeWait probeInit
      let probeWait := imin (probeWait + probeWait / 2) probeLimit
      { k with
        probeWait := probeWait
        tsProbe := k.current + probeWait
        probe := k.probe ||| askSend }
    else k
  else { k with tsProbe := 0, probeWait := 0 }

/-- The control segments of a flush: the acknowledgements, and the questions and answers about the
window. -/
def controlSegs (k : Ikcpcb) (probe : UInt32) : List Ikcpseg :=
  k.acklist.map k.ackSeg
    ++ (if probe &&& askSend ≠ 0 then [{ k.lastSeg with cmd := cmdWask }] else [])
    ++ (if probe &&& askTell ≠ 0 then [{ k.lastSeg with cmd := cmdWins }] else [])

/-- How many segments may be under way. -/
def sendWindow (k : Ikcpcb) : UInt32 :=
  let cwnd := imin k.sndWnd k.rmtWnd
  if k.nocwnd = 0 then imin k.cwnd cwnd else cwnd

/-- A segment of the send queue on its way into the send buffer. -/
def numbered (k : Ikcpcb) (seg : Ikcpseg) : Ikcpseg :=
  { seg with
    conv := k.conv
    cmd := cmdPush
    wnd := k.wndUnused
    ts := k.current
    sn := k.sndNxt
    una := k.rcvNxt
    resendts := k.current
    rto := toUInt32 k.rxRto
    fastack := 0
    xmit := 0 }

/-- The segments that the window has room for move from the send queue to the send buffer. -/
def moveQueued (cwnd : UInt32) (k : Ikcpcb) : List Ikcpseg → Ikcpcb
  | [] => { k with sndQueue := [] }
  | seg :: segs =>
    if itimediff k.sndNxt (k.sndUna + cwnd) < 0 then
      moveQueued cwnd { k with sndBuf := k.sndBuf ++ [k.numbered seg], sndNxt := k.sndNxt + 1 } segs
    else { k with sndQueue := seg :: segs }

/-! ## Data segments -/

/-- Why a segment of the send buffer is sent. -/
inductive Reason
  | first
  | timeout
  | skipped
  deriving DecidableEq, Repr

/-- `resent`: how often a segment must have been passed over. -/
def resent (k : Ikcpcb) : UInt32 := if 0 < k.fastresend then toUInt32 k.fastresend else 0xffffffff

/-- Whether a segment is to be sent now. -/
def reason (k : Ikcpcb) (seg : Ikcpseg) : Option Reason :=
  if seg.xmit = 0 then some .first
  else if 0 ≤ itimediff k.current seg.resendts then some .timeout
  else if k.resent ≤ seg.fastack ∧ (seg.xmit.toBitVec.toInt ≤ k.fastlimit ∨ k.fastlimit ≤ 0) then
    some .skipped
  else none

/-- The segment with the times of its transmission. -/
def retimed (k : Ikcpcb) (seg : Ikcpseg) : Reason → Ikcpseg
  | .first =>
    let rtomin := if k.nodelay = 0 then toUInt32 k.rxRto >>> 3 else 0
    { seg with
      xmit := seg.xmit + 1
      rto := toUInt32 k.rxRto
      resendts := k.current + toUInt32 k.rxRto + rtomin }
  | .timeout =>
    let rto := seg.rto + (if k.nodelay = 0 then toUInt32 k.rxRto else toUInt32 (k.rxRto.tdiv 2))
    { seg with xmit := seg.xmit + 1, rto := rto, resendts := k.current + rto }
  | .skipped =>
    { seg with xmit := seg.xmit + 1, fastack := 0, resendts := k.current + seg.rto }

/-- The segment as it is sent and stays in the send buffer. -/
def stamped (k : Ikcpcb) (seg : Ikcpseg) (r : Reason) : Ikcpseg :=
  { k.retimed seg r with ts := k.current, wnd := k.wndUnused, una := k.rcvNxt }

/-- What the loop over the send buffer has done so far. -/
structure Sweep where
  out : Output
  sndBuf : List Ikcpseg := []
  /-- `kcp->xmit`. -/
  xmit : UInt32
  /-- `kcp->state`. -/
  state : UInt32
  lost : Bool := false
  change : Bool := false

/-- The loop over the send buffer, at one segment. -/
def sweepOne (k : Ikcpcb) (s : Sweep) (seg : Ikcpseg) : Sweep :=
  match k.reason seg with
  | none => { s with sndBuf := s.sndBuf ++ [seg] }
  | some r =>
    let seg := k.stamped seg r
    { out := s.out.put k.mtu seg
      sndBuf := s.sndBuf ++ [seg]
      xmit := if r = .timeout then s.xmit + 1 else s.xmit
      state := if k.deadLink ≤ seg.xmit then 0xffffffff else s.state
      lost := s.lost || r = .timeout
      change := s.change || r = .skipped }

/-- The loop over the send buffer. -/
def sweep (k : Ikcpcb) (out : Output) : Sweep :=
  k.sndBuf.foldl k.sweepOne { out := out, xmit := k.xmit, state := k.state }

/-- The slow start threshold and the congestion window after a flush with the window `cwnd`. -/
def adjustWindow (k : Ikcpcb) (cwnd : UInt32) (lost change : Bool) : Ikcpcb :=
  let k :=
    if change then
      let ssthresh := imax ((k.sndNxt - k.sndUna) / 2) threshMin
      let cwnd := ssthresh + k.resent
      { k with ssthresh := ssthresh, cwnd := cwnd, incr := cwnd * k.mss }
    else k
  let k :=
    if lost then { k with ssthresh := imax (cwnd / 2) threshMin, cwnd := 1, incr := k.mss } else k
  if k.cwnd < 1 then { k with cwnd := 1, incr := k.mss } else k

/-- The buffer of `ikcp_flush` behind the control segments. -/
def controlOutput (k : Ikcpcb) : Output :=
  (k.controlSegs k.probeWindow.probe).foldl (Output.put k.mtu) {}

/-- The object when the loop over the send buffer begins. -/
def moved (k : Ikcpcb) : Ikcpcb :=
  let k' := k.probeWindow
  moveQueued k'.sendWindow { k' with acklist := [], probe := 0 } k'.sndQueue

/-- `ikcp_flush`, with the datagrams put out. -/
def flush (k : Ikcpcb) : Ikcpcb × List (List UInt8) :=
  if k.updated = 0 then (k, [])
  else
    let s := k.moved.sweep k.controlOutput
    let k' := { k.moved with
      sndBuf := s.sndBuf
      xmit := s.xmit
      state := s.state
      overrun := k.overrun || s.out.overrun }
    (k'.adjustWindow k.probeWindow.sendWindow s.lost s.change, s.out.output.sent)

/-! ## Time -/

/-- `ikcp_update`, with the datagrams put out. -/
def update (k : Ikcpcb) (current : UInt32) : Ikcpcb × List (List UInt8) :=
  let k := { k with current := current }
  let k := if k.updated = 0 then { k with updated := 1, tsFlush := current } else k
  let slap := itimediff current k.tsFlush
  let far := 10000 ≤ slap ∨ slap < -10000
  let k := if far then { k with tsFlush := current } else k
  if far ∨ 0 ≤ slap then
    let tsFlush := k.tsFlush + k.interval
    flush { k with
      tsFlush := if 0 ≤ itimediff current tsFlush then current + k.interval else tsFlush }
  else (k, [])

/-- The loop of `ikcp_check` over the send buffer: `none` when a segment is due, or how long the
first one still waits, at most `tmPacket`. -/
def nextResend (current : UInt32) (tmPacket : ℤ) : List Ikcpseg → Option ℤ
  | [] => some tmPacket
  | seg :: segs =>
    let diff := itimediff seg.resendts current
    if diff ≤ 0 then none
    else nextResend current (if diff < tmPacket then diff else tmPacket) segs

/-- `ikcp_check`. -/
def check (k : Ikcpcb) (current : UInt32) : UInt32 :=
  if k.updated = 0 then current
  else
    let slap := itimediff current k.tsFlush
    let tsFlush := if 10000 ≤ slap ∨ slap < -10000 then current else k.tsFlush
    if 0 ≤ itimediff current tsFlush then current
    else
      let tmFlush := itimediff tsFlush current
      match nextResend current 0x7fffffff k.sndBuf with
      | none => current
      | some tmPacket =>
        let minimal := toUInt32 (if tmPacket < tmFlush then tmPacket else tmFlush)
        current + (if k.interval ≤ minimal then k.interval else minimal)

/-- `ikcp_waitsnd`. -/
def waitsnd (k : Ikcpcb) : ℕ := k.sndBuf.length + k.sndQueue.length

end Ikcpcb

/-! ## What is put out -/

/-- The block is not smaller than the MTU. -/
def Roomy (mtu : UInt32) : Prop := mtu.toNat ≤ (blockSize mtu).toNat

/-- The buffer carries these segments, in this order, behind those already put out. Nothing put out
is empty. When no segment is longer than the MTU by itself, nothing put out is, and nothing is
written past the end of the block. -/
structure Output.Carries (mtu : UInt32) (o : Output) (segs : List Ikcpseg) : Prop where
  exists_packs : ∃ (packs : List (List Ikcpseg)) (last : List Ikcpseg),
    o.sent = packs.map datagram ∧ o.buffer = datagram last ∧ packs.flatten ++ last = segs
  ne_nil : ∀ d ∈ o.sent, d ≠ []
  length_le : (∀ seg ∈ segs, overhead + seg.data.length ≤ mtu.toNat) →
    (∀ d ∈ o.sent, d.length ≤ mtu.toNat) ∧ o.buffer.length ≤ mtu.toNat
      ∧ (Roomy mtu → o.overrun = false)

namespace Output

variable {mtu : UInt32} {o : Output} {segs : List Ikcpseg}

theorem carries_nil : Carries mtu {} [] where
  exists_packs := ⟨[], [], rfl, rfl, rfl⟩
  ne_nil _ h := absurd h List.not_mem_nil
  length_le _ := ⟨fun _ h ↦ absurd h List.not_mem_nil, Nat.zero_le _, fun _ ↦ rfl⟩

theorem Carries.output (h : Carries mtu o segs) :
    Carries mtu o.output segs ∧ o.output.buffer = [] := by
  rw [Output.output]
  split_ifs with hnil
  · exact ⟨h, hnil⟩
  · obtain ⟨packs, last, hsent, hbuffer, hsegs⟩ := h.exists_packs
    refine ⟨⟨⟨packs ++ [last], [], ?_, rfl, ?_⟩, ?_, fun hle ↦ ?_⟩, rfl⟩
    · rw [hsent, hbuffer, List.map_append, List.map_singleton]
    · rw [← hsegs, List.flatten_append, List.flatten_singleton, List.append_nil]
    · exact List.forall_mem_append.mpr ⟨h.ne_nil, List.forall_mem_singleton.mpr hnil⟩
    · obtain ⟨hall, hbuf, hover⟩ := h.length_le hle
      exact ⟨List.forall_mem_append.mpr ⟨hall, List.forall_mem_singleton.mpr hbuf⟩, Nat.zero_le _,
        hover⟩

theorem Carries.write (h : Carries mtu o segs) {seg : Ikcpseg}
    (hroom : o.buffer.length + (overhead + seg.data.length) ≤ mtu.toNat ∨ o.buffer = []) :
    Carries mtu
      { o with
        buffer := o.buffer ++ seg.bytes
        overrun := o.overrun || (blockSize mtu).toNat < (o.buffer ++ seg.bytes).length }
      (segs ++ [seg]) := by
  obtain ⟨packs, last, hsent, hbuffer, hsegs⟩ := h.exists_packs
  refine ⟨⟨packs, last ++ [seg], hsent, ?_, ?_⟩, h.ne_nil, fun hle ↦ ?_⟩
  · simp [datagram, hbuffer]
  · rw [← hsegs, List.append_assoc]
  · obtain ⟨hall, -, hover⟩ := h.length_le fun s hs ↦ hle s (List.mem_append_left [seg] hs)
    have hlen : (o.buffer ++ seg.bytes).length ≤ mtu.toNat := by
      rw [List.length_append, length_bytes]
      rcases hroom with hroom | hnil
      · exact hroom
      · rw [hnil, List.length_nil, Nat.zero_add]
        exact hle seg (List.mem_append_right _ (List.mem_singleton_self seg))
    refine ⟨hall, hlen, fun hblock ↦ ?_⟩
    rw [hover hblock, Bool.false_or]
    exact decide_eq_false (Nat.not_lt.mpr (hlen.trans hblock))

theorem Carries.put (h : Carries mtu o segs) (seg : Ikcpseg) :
    Carries mtu (o.put mtu seg) (segs ++ [seg]) := by
  rw [Output.put]
  split_ifs with hfull
  · exact h.output.1.write (.inr h.output.2)
  · exact h.write (.inl (Nat.le_of_not_lt hfull))

theorem Carries.foldl_put (h : Carries mtu o segs) (more : List Ikcpseg) :
    Carries mtu (more.foldl (Output.put mtu) o) (segs ++ more) := by
  induction more generalizing o segs with
  | nil => rwa [List.append_nil]
  | cons seg more ih =>
    rw [List.foldl_cons, List.append_cons]
    exact ih (h.put seg)

end Output

namespace Ikcpcb

/-! ## What a flush does -/

/-- The segment as it stays in the send buffer. -/
def swept (k : Ikcpcb) (seg : Ikcpseg) : Ikcpseg :=
  match k.reason seg with
  | none => seg
  | some r => k.stamped seg r

/-- The segments of the send buffer that are sent. -/
def due (k : Ikcpcb) : List Ikcpseg :=
  k.sndBuf.filterMap fun seg ↦ (k.reason seg).map (k.stamped seg)

theorem foldl_sweepOne (k : Ikcpcb) (segs : List Ikcpseg) (s : Sweep) :
    (segs.foldl k.sweepOne s).sndBuf = s.sndBuf ++ segs.map k.swept
      ∧ (segs.foldl k.sweepOne s).out
        = (segs.filterMap fun seg ↦ (k.reason seg).map (k.stamped seg)).foldl
            (Output.put k.mtu) s.out := by
  induction segs generalizing s with
  | nil => exact ⟨(List.append_nil _).symm, rfl⟩
  | cons seg segs ih =>
    obtain ⟨hbuf, hout⟩ := ih (k.sweepOne s seg)
    rw [List.foldl_cons, hbuf, hout, List.map_cons, List.append_cons]
    cases hreason : k.reason seg with
    | none => simp [sweepOne, swept, hreason]
    | some r => simp [sweepOne, swept, hreason]

theorem sweep_spec (k : Ikcpcb) (out : Output) :
    (k.sweep out).sndBuf = k.sndBuf.map k.swept
      ∧ (k.sweep out).out = k.due.foldl (Output.put k.mtu) out :=
  foldl_sweepOne k k.sndBuf _

theorem stamped_spec (k : Ikcpcb) (seg : Ikcpseg) (r : Reason) :
    (k.stamped seg r).sn = seg.sn ∧ (k.stamped seg r).cmd = seg.cmd
      ∧ (k.stamped seg r).conv = seg.conv ∧ (k.stamped seg r).frg = seg.frg
      ∧ (k.stamped seg r).data = seg.data ∧ (k.stamped seg r).una = k.rcvNxt := by
  cases r <;> exact ⟨rfl, rfl, rfl, rfl, rfl, rfl⟩

/-- The segments that move, as they stand in the send buffer. -/
def numberedAll (k : Ikcpcb) (segs : List Ikcpseg) : List Ikcpseg :=
  segs.mapIdx fun i seg ↦ { k.numbered seg with sn := k.sndNxt + UInt32.ofNat i }

theorem numberedAll_cons (k : Ikcpcb) (sndBuf : List Ikcpseg) (seg : Ikcpseg)
    (segs : List Ikcpseg) :
    k.numberedAll (seg :: segs) = k.numbered seg
      :: ({ k with sndBuf := sndBuf, sndNxt := k.sndNxt + 1 } : Ikcpcb).numberedAll segs := by
  have hzero : k.sndNxt + UInt32.ofNat 0 = k.sndNxt := UInt32.add_zero _
  have hadd : ∀ n : ℕ, k.sndNxt + UInt32.ofNat (n + 1) = k.sndNxt + 1 + UInt32.ofNat n := by
    intro n
    rw [UInt32.ofNat_add, UInt32.add_assoc, UInt32.add_comm (UInt32.ofNat n)]
    rfl
  rw [numberedAll, List.mapIdx_cons, hzero]
  simp only [hadd]
  rfl

/-- **What `moveQueued` does**: segments move one after the other and get the next numbers, as long
as the window has room. -/
theorem moveQueued_eq (cwnd : UInt32) (k : Ikcpcb) (segs : List Ikcpseg) :
    ∃ moved rest, segs = moved ++ rest
      ∧ moveQueued cwnd k segs = { k with
          sndBuf := k.sndBuf ++ k.numberedAll moved
          sndNxt := k.sndNxt + UInt32.ofNat moved.length
          sndQueue := rest }
      ∧ ∀ i < moved.length, itimediff (k.sndNxt + UInt32.ofNat i) (k.sndUna + cwnd) < 0 := by
  induction segs generalizing k with
  | nil => exact ⟨[], [], rfl, by simp [moveQueued, numberedAll], by simp⟩
  | cons seg segs ih =>
    rw [moveQueued]
    split_ifs with hroom
    · obtain ⟨moved, rest, rfl, heq, hwnd⟩ :=
        ih { k with sndBuf := k.sndBuf ++ [k.numbered seg], sndNxt := k.sndNxt + 1 }
      have hadd : ∀ n : ℕ, k.sndNxt + 1 + UInt32.ofNat n = k.sndNxt + UInt32.ofNat (n + 1) := by
        intro n
        rw [UInt32.ofNat_add, UInt32.add_assoc, UInt32.add_comm (UInt32.ofNat n)]
        rfl
      have hzero : k.sndNxt + UInt32.ofNat 0 = k.sndNxt := UInt32.add_zero _
      refine ⟨seg :: moved, rest, rfl, ?_, ?_⟩
      · rw [heq, numberedAll_cons k (k.sndBuf ++ [k.numbered seg])]
        simp only [hadd, List.length_cons, List.append_assoc, List.singleton_append]
      · intro i hi
        cases i with
        | zero =>
          rw [hzero]
          exact hroom
        | succ i =>
          rw [← hadd]
          exact hwnd i (Nat.lt_of_succ_lt_succ hi)
    · exact ⟨[], seg :: segs, rfl, by simp [numberedAll], by simp⟩

theorem probeWindow_spec (k : Ikcpcb) : SameBut k k.probeWindow ∧ k.probeWindow.sndBuf = k.sndBuf
    ∧ k.probeWindow.sndUna = k.sndUna := by
  rw [probeWindow]
  dsimp only
  split_ifs <;> exact ⟨⟨rfl, rfl, rfl, rfl, rfl, rfl, rfl, rfl⟩, rfl, rfl⟩

theorem adjustWindow_spec (k : Ikcpcb) (cwnd : UInt32) (lost change : Bool) :
    SameBut k (k.adjustWindow cwnd lost change)
      ∧ (k.adjustWindow cwnd lost change).sndBuf = k.sndBuf
      ∧ (k.adjustWindow cwnd lost change).sndUna = k.sndUna := by
  rw [adjustWindow]
  dsimp only
  split_ifs <;> exact ⟨⟨rfl, rfl, rfl, rfl, rfl, rfl, rfl, rfl⟩, rfl, rfl⟩

theorem flush_state {k : Ikcpcb} (h : k.updated ≠ 0) :
    SameBut k.moved k.flush.1 ∧ k.flush.1.sndBuf = k.moved.sndBuf.map k.moved.swept
      ∧ k.flush.1.sndUna = k.moved.sndUna := by
  rw [flush, if_neg h]
  dsimp only
  obtain ⟨hbut, hbuf, huna⟩ := adjustWindow_spec
    { k.moved with
      sndBuf := (k.moved.sweep k.controlOutput).sndBuf
      xmit := (k.moved.sweep k.controlOutput).xmit
      state := (k.moved.sweep k.controlOutput).state
      overrun := k.overrun || (k.moved.sweep k.controlOutput).out.overrun }
    k.probeWindow.sendWindow (k.moved.sweep k.controlOutput).lost
    (k.moved.sweep k.controlOutput).change
  exact ⟨⟨hbut.sndNxt, hbut.sndQueue, hbut.rcvNxt, hbut.rcvQueue, hbut.rcvBuf, hbut.acklist,
    hbut.conv, hbut.rcvWnd⟩,
    hbuf.trans (sweep_spec _ _).1, huna⟩

theorem swept_spec (k : Ikcpcb) (seg : Ikcpseg) : (k.swept seg).sn = seg.sn
    ∧ (k.swept seg).cmd = seg.cmd ∧ (k.swept seg).conv = seg.conv ∧ (k.swept seg).frg = seg.frg
    ∧ (k.swept seg).data = seg.data := by
  rw [swept]
  split
  · exact ⟨rfl, rfl, rfl, rfl, rfl⟩
  · obtain ⟨hsn, hcmd, hconv, hfrg, hdata, -⟩ := stamped_spec k seg _
    exact ⟨hsn, hcmd, hconv, hfrg, hdata⟩

theorem mem_due {k : Ikcpcb} {s : Ikcpseg} (hs : s ∈ k.due) :
    ∃ s₀ ∈ k.sndBuf, ∃ r, s = k.stamped s₀ r := by
  obtain ⟨s₀, hs₀, hsome⟩ := List.mem_filterMap.mp hs
  obtain ⟨r, -, rfl⟩ := Option.map_eq_some_iff.mp hsome
  exact ⟨s₀, hs₀, r, rfl⟩

/-- The control segments acknowledge what the list says, and carry no data. -/
theorem mem_controlSegs {k : Ikcpcb} {probe : UInt32} {s : Ikcpseg} (hs : s ∈ k.controlSegs probe) :
    s.data = [] ∧ s.conv = k.conv ∧ s.una = k.rcvNxt ∧ IsCommand s.cmd ∧ s.cmd ≠ cmdPush
      ∧ (s.cmd = cmdAck → ∃ p ∈ k.acklist, s.sn = p.1) := by
  rw [controlSegs] at hs
  rcases List.mem_append.mp hs with hs | hs
  · rcases List.mem_append.mp hs with hs | hs
    · obtain ⟨p, hp, rfl⟩ := List.mem_map.mp hs
      exact ⟨rfl, rfl, rfl, .inr (.inl rfl), (by decide : cmdAck ≠ cmdPush), fun _ ↦ ⟨p, hp, rfl⟩⟩
    · split_ifs at hs
      · rw [List.mem_singleton.mp hs]
        exact ⟨rfl, rfl, rfl, .inr (.inr (.inl rfl)), (by decide : cmdWask ≠ cmdPush),
          fun h ↦ absurd h (by decide : cmdWask ≠ cmdAck)⟩
      · exact absurd hs List.not_mem_nil
  · split_ifs at hs
    · rw [List.mem_singleton.mp hs]
      exact ⟨rfl, rfl, rfl, .inr (.inr (.inr rfl)), (by decide : cmdWins ≠ cmdPush),
        fun h ↦ absurd h (by decide : cmdWins ≠ cmdAck)⟩
    · exact absurd hs List.not_mem_nil

theorem moved_receiver (k : Ikcpcb) : k.moved.rcvNxt = k.rcvNxt ∧ k.moved.rcvQueue = k.rcvQueue
    ∧ k.moved.rcvBuf = k.rcvBuf ∧ k.moved.acklist = [] := by
  obtain ⟨hsame, -⟩ := probeWindow_spec k
  obtain ⟨_, _, -, heq, -⟩ := moveQueued_eq k.probeWindow.sendWindow
    { k.probeWindow with acklist := [], probe := 0 } k.probeWindow.sndQueue
  rw [moved, heq]
  exact ⟨hsame.rcvNxt, hsame.rcvQueue, hsame.rcvBuf, rfl⟩

theorem mtu_moved (k : Ikcpcb) : k.moved.mtu = k.mtu := by
  obtain ⟨_, _, _, heq, -⟩ := moveQueued_eq k.probeWindow.sendWindow
    { k.probeWindow with acklist := [], probe := 0 } k.probeWindow.sndQueue
  rw [moved, heq, probeWindow]
  dsimp only
  split_ifs <;> rfl

theorem overrun_adjustWindow (k : Ikcpcb) (cwnd : UInt32) (lost change : Bool) :
    (k.adjustWindow cwnd lost change).overrun = k.overrun := by
  rw [adjustWindow]
  dsimp only
  split_ifs <;> rfl

/-- **What a flush puts out**: the control segments and the data segments that are due, in datagrams
that are not empty. When no segment is longer than the MTU by itself, no datagram is, and nothing is
written past the end of the block. -/
theorem flush_output {k : Ikcpcb} (h : k.updated ≠ 0) :
    ∃ packs : List (List Ikcpseg), k.flush.2 = packs.map datagram
      ∧ packs.flatten = k.controlSegs k.probeWindow.probe ++ k.moved.due
      ∧ (∀ pack ∈ packs, pack ≠ [])
      ∧ ((∀ seg ∈ packs.flatten, overhead + seg.data.length ≤ k.mtu.toNat) →
        (∀ d ∈ k.flush.2, d.length ≤ k.mtu.toNat)
          ∧ (Roomy k.mtu → k.flush.1.overrun = k.overrun)) := by
  have hcontrol : Output.Carries k.mtu k.controlOutput (k.controlSegs k.probeWindow.probe) :=
    Output.carries_nil.foldl_put _
  have hcarries := hcontrol.foldl_put k.moved.due
  obtain ⟨hall, hempty⟩ := hcarries.output
  have hout : k.flush.2 = (k.moved.due.foldl (Output.put k.mtu) k.controlOutput).output.sent := by
    rw [flush, if_neg h, ← mtu_moved k, ← (sweep_spec _ _).2]
  have hover : k.flush.1.overrun
      = (k.overrun || (k.moved.due.foldl (Output.put k.mtu) k.controlOutput).overrun) := by
    rw [flush, if_neg h, overrun_adjustWindow, (sweep_spec _ _).2, mtu_moved]
  obtain ⟨packs, last, hsent, hbuffer, hsegs⟩ := hall.exists_packs
  have hlast : last = [] := by
    cases last with
    | nil => rfl
    | cons seg segs =>
      have hlen := congrArg List.length (hempty.symm.trans hbuffer)
      rw [datagram, List.map_cons, List.flatten_cons, List.length_append, length_bytes,
        overhead] at hlen
      exact absurd hlen (by rw [List.length_nil]; omega)
  rw [hlast, List.append_nil] at hsegs
  rw [hout]
  refine ⟨packs, hsent, hsegs, fun pack hpack hnil ↦ ?_, fun hle ↦ ⟨?_, fun hroom ↦ ?_⟩⟩
  · exact hall.ne_nil (datagram pack) (hsent ▸ List.mem_map_of_mem hpack) (by rw [hnil]; rfl)
  · exact (hall.length_le (hsegs ▸ hle)).1
  · rw [hover, (hcarries.length_le (hsegs ▸ hle)).2.2 hroom, Bool.or_false]

/-- **What `ikcp_update` does**: it notes the time, and flushes when that has come. -/
theorem update_cases (k : Ikcpcb) (now : UInt32) : ∃ updated tsFlush,
    k.update now
        = ({ k with current := now, updated := updated, tsFlush := tsFlush } : Ikcpcb).flush
      ∨ k.update now = ({ k with current := now, updated := updated, tsFlush := tsFlush }, []) := by
  rw [update]
  dsimp only
  split_ifs
  all_goals first | exact ⟨_, _, .inl rfl⟩ | exact ⟨_, _, .inr rfl⟩

end Ikcpcb

end Knet.Kcp
