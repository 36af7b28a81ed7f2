import Knet.Kcp.Segment
import Mathlib.Algebra.Order.Group.Unbundled.Abs
import Mathlib.Algebra.Order.Ring.Int

/-!
# What comes in

`ikcp_input` with the functions it calls: the acknowledgements that let segments out of the send
buffer, the segments that enter the receive buffer, the estimate of the round-trip time and the
congestion window.

An error ends `ikcp_input` at once. What the segments in front of it did stays done, but the two
steps behind the loop are left out.
-/

namespace Knet.Kcp

/-- A signed number as the `IUINT32` it is converted to. -/
def toUInt32 (x : ℤ) : UInt32 := UInt32.ofBitVec (BitVec.ofInt 32 x)

theorem toNat_toUInt32 {n : ℕ} (h : n < 2 ^ 31) : (toUInt32 n).toNat = n := by
  have hcast : toUInt32 n = UInt32.ofNat n := by
    rw [toUInt32, BitVec.ofInt_natCast]
    rfl
  rw [hcast]
  exact UInt32.toNat_ofNat_of_lt' (Nat.lt_trans h (by decide))

/-- `_imin_`. -/
def imin (a b : UInt32) : UInt32 := if a ≤ b then a else b

/-- `_imax_`. -/
def imax (a b : UInt32) : UInt32 := if b ≤ a then a else b

/-- `_ibound_`. -/
def ibound (lower middle upper : UInt32) : UInt32 := imin (imax lower middle) upper

/-- `IKCP_RTO_MAX`. -/
def rtoMax : UInt32 := 60000

namespace Ikcpcb

/-! ## Acknowledgements -/

/-- `ikcp_update_ack`. The estimates are `int`s, and what is computed from them wraps round; only
`delta` is a `long`. -/
def updateAck (k : Ikcpcb) (rtt : Int32) : Ikcpcb :=
  let k :=
    if k.rxSrtt = 0 then { k with rxSrtt := rtt, rxRttval := rtt / 2 }
    else
      let delta := |(rtt - k.rxSrtt).toInt|
      let srtt := (7 * k.rxSrtt + rtt) / 8
      { k with
        rxRttval := .ofInt (((3 * k.rxRttval).toInt + delta).tdiv 4)
        rxSrtt := if srtt < 1 then 1 else srtt }
  let rto := k.rxSrtt.toUInt32 + imax k.interval (4 * k.rxRttval).toUInt32
  { k with rxRto := (ibound (toUInt32 k.rxMinrto) rto rtoMax).toNat }

/-- `ikcp_shrink_buf`. -/
def shrinkBuf (k : Ikcpcb) : Ikcpcb :=
  { k with sndUna := match k.sndBuf with | seg :: _ => seg.sn | [] => k.sndNxt }

/-- The send buffer without the segment that is acknowledged. -/
def removeAcked (sn : UInt32) : List Ikcpseg → List Ikcpseg
  | [] => []
  | seg :: segs =>
    if sn = seg.sn then segs
    else if itimediff sn seg.sn < 0 then seg :: segs
    else seg :: removeAcked sn segs

/-- The test in front of `ikcp_parse_ack` and `ikcp_parse_fastack`. -/
def InFlight (k : Ikcpcb) (sn : UInt32) : Prop :=
  ¬(itimediff sn k.sndUna < 0 ∨ 0 ≤ itimediff sn k.sndNxt)

instance decidableInFlight (k : Ikcpcb) (sn : UInt32) : Decidable (k.InFlight sn) :=
  inferInstanceAs (Decidable (¬(_ ∨ _)))

/-- `ikcp_parse_ack`. -/
def parseAck (k : Ikcpcb) (sn : UInt32) : Ikcpcb :=
  if k.InFlight sn then { k with sndBuf := removeAcked sn k.sndBuf } else k

/-- `ikcp_parse_una`. -/
def parseUna (k : Ikcpcb) (una : UInt32) : Ikcpcb :=
  { k with sndBuf := k.sndBuf.dropWhile fun seg ↦ 0 < itimediff una seg.sn }

/-- The send buffer, with the segments counted that were passed over. -/
def countSkipped (sn : UInt32) : List Ikcpseg → List Ikcpseg
  | [] => []
  | seg :: segs =>
    if itimediff sn seg.sn < 0 then seg :: segs
    else if sn ≠ seg.sn then { seg with fastack := seg.fastack + 1 } :: countSkipped sn segs
    else seg :: countSkipped sn segs

/-- `ikcp_parse_fastack`. The time stamp is not looked at. -/
def parseFastack (k : Ikcpcb) (sn : UInt32) : Ikcpcb :=
  if k.InFlight sn then { k with sndBuf := countSkipped sn k.sndBuf } else k

/-! ## Data -/

/-- `ikcp_ack_push`. -/
def ackPush (k : Ikcpcb) (sn ts : UInt32) : Ikcpcb := { k with acklist := k.acklist ++ [(sn, ts)] }

/-- The receive buffer, last segment first, with a segment put in its place. -/
def insertFromBack (newseg : Ikcpseg) : List Ikcpseg → List Ikcpseg
  | [] => [newseg]
  | seg :: segs =>
    if seg.sn = newseg.sn then seg :: segs
    else if 0 < itimediff newseg.sn seg.sn then newseg :: seg :: segs
    else seg :: insertFromBack newseg segs

/-- `ikcp_parse_data`. -/
def parseData (k : Ikcpcb) (newseg : Ikcpseg) : Ikcpcb :=
  if 0 ≤ itimediff newseg.sn (k.rcvNxt + k.rcvWnd) ∨ itimediff newseg.sn k.rcvNxt < 0 then k
  else
    let rcvBuf := (insertFromBack newseg k.rcvBuf.reverse).reverse
    k.moveAvailable rcvBuf

/-! ## Segments -/

/-- What `ikcp_input` does with a segment whose command was checked. -/
def inputSegment (k : Ikcpcb) (seg : Ikcpseg) : Ikcpcb :=
  let k := { k with rmtWnd := seg.wnd }
  let k := (k.parseUna seg.una).shrinkBuf
  if seg.cmd = cmdAck then
    let rtt := itimediff k.current seg.ts
    let k := if 0 ≤ rtt then k.updateAck (.ofInt rtt) else k
    (k.parseAck seg.sn).shrinkBuf
  else if seg.cmd = cmdPush then
    if itimediff seg.sn (k.rcvNxt + k.rcvWnd) < 0 then
      let k := k.ackPush seg.sn seg.ts
      if 0 ≤ itimediff seg.sn k.rcvNxt then k.parseData seg else k
    else k
  else if seg.cmd = cmdWask then { k with probe := k.probe ||| askTell }
  else k

/-- `maxack`, once `flag` is set, after a segment. -/
def nextMaxack (maxack : Option UInt32) (seg : Ikcpseg) : Option UInt32 :=
  if seg.cmd = cmdAck then
    match maxack with
    | none => some seg.sn
    | some sn => if 0 < itimediff seg.sn sn then some seg.sn else some sn
  else maxack

/-- How the loop of `ikcp_input` ends. -/
structure InputLoop where
  kcp : Ikcpcb
  maxack : Option UInt32 := none
  /-- The value returned: an error, or the command of the last segment. -/
  result : ℤ

/-- The loop of `ikcp_input`. Every round takes a header, so that as many rounds as there are bytes
are enough. -/
def inputLoop : ℕ → Ikcpcb → Option UInt32 → ℤ → List UInt8 → InputLoop
  | 0, k, maxack, cmd, _ => ⟨k, maxack, cmd⟩
  | fuel + 1, k, maxack, cmd, d =>
    if d.length < overhead then ⟨k, maxack, cmd⟩
    else
      let h := decodeHead d
      if h.seg.conv ≠ k.conv then ⟨k, maxack, -1⟩
      else if ¬h.Fits then ⟨k, maxack, -2⟩
      else if ¬IsCommand h.seg.cmd then ⟨k, maxack, -3⟩
      else inputLoop fuel (k.inputSegment h.segment) (nextMaxack maxack h.segment)
        h.seg.cmd.toNat h.next

/-- The congestion window grows when something new was acknowledged. -/
def growWindow (k : Ikcpcb) (prevUna : UInt32) : Ikcpcb :=
  if 0 < itimediff k.sndUna prevUna ∧ k.cwnd < k.rmtWnd then
    let mss := k.mss
    let k : Ikcpcb :=
      if k.cwnd < k.ssthresh then { k with cwnd := k.cwnd + 1, incr := k.incr + mss }
      else
        let incr := if k.incr < mss then mss else k.incr
        let incr := incr + (mss * mss / incr + mss / 16)
        { k with
          incr := incr
          cwnd := if (k.cwnd + 1) * mss ≤ incr then
              (incr + mss - 1) / (if 0 < mss then mss else 1)
            else k.cwnd }
    if k.rmtWnd < k.cwnd then { k with cwnd := k.rmtWnd, incr := k.rmtWnd * mss } else k
  else k

/-- `ikcp_input`, with its result. -/
def input (k : Ikcpcb) (data : List UInt8) : Ikcpcb × ℤ :=
  if data.length < overhead then (k, -1)
  else
    let r := inputLoop data.length k none 0 data
    if r.result < 0 then (r.kcp, r.result)
    else
      let kcp := match r.maxack with
        | some sn => r.kcp.parseFastack sn
        | none => r.kcp
      (kcp.growWindow k.sndUna, r.result)

/-! ## What the steps leave alone -/

/-- The same object, as far as data goes, but for the send buffer. Estimates, windows and times may
differ. -/
structure SameBut (k k' : Ikcpcb) : Prop where
  sndNxt : k'.sndNxt = k.sndNxt
  sndQueue : k'.sndQueue = k.sndQueue
  rcvNxt : k'.rcvNxt = k.rcvNxt
  rcvQueue : k'.rcvQueue = k.rcvQueue
  rcvBuf : k'.rcvBuf = k.rcvBuf
  acklist : k'.acklist = k.acklist
  conv : k'.conv = k.conv
  rcvWnd : k'.rcvWnd = k.rcvWnd

theorem sameBut_refl (k : Ikcpcb) : SameBut k k := ⟨rfl, rfl, rfl, rfl, rfl, rfl, rfl, rfl⟩

theorem SameBut.trans {k k' k'' : Ikcpcb} (h : SameBut k k') (h' : SameBut k' k'') :
    SameBut k k'' where
  sndNxt := h'.sndNxt.trans h.sndNxt
  sndQueue := h'.sndQueue.trans h.sndQueue
  rcvNxt := h'.rcvNxt.trans h.rcvNxt
  rcvQueue := h'.rcvQueue.trans h.rcvQueue
  rcvBuf := h'.rcvBuf.trans h.rcvBuf
  acklist := h'.acklist.trans h.acklist
  conv := h'.conv.trans h.conv
  rcvWnd := h'.rcvWnd.trans h.rcvWnd

theorem updateAck_spec (k : Ikcpcb) (rtt : Int32) :
    SameBut k (k.updateAck rtt) ∧ (k.updateAck rtt).sndBuf = k.sndBuf := by
  rw [updateAck]
  split_ifs <;> exact ⟨⟨rfl, rfl, rfl, rfl, rfl, rfl, rfl, rfl⟩, rfl⟩

theorem growWindow_spec (k : Ikcpcb) (prevUna : UInt32) :
    SameBut k (k.growWindow prevUna) ∧ (k.growWindow prevUna).sndBuf = k.sndBuf := by
  rw [growWindow]
  dsimp only
  split_ifs <;> exact ⟨⟨rfl, rfl, rfl, rfl, rfl, rfl, rfl, rfl⟩, rfl⟩

theorem sameBut_shrinkBuf (k : Ikcpcb) : SameBut k k.shrinkBuf :=
  ⟨rfl, rfl, rfl, rfl, rfl, rfl, rfl, rfl⟩

theorem sameBut_parseAck (k : Ikcpcb) (sn : UInt32) : SameBut k (k.parseAck sn) := by
  rw [parseAck]
  split_ifs <;> exact ⟨rfl, rfl, rfl, rfl, rfl, rfl, rfl, rfl⟩

theorem sameBut_parseFastack (k : Ikcpcb) (sn : UInt32) : SameBut k (k.parseFastack sn) := by
  rw [parseFastack]
  split_ifs <;> exact ⟨rfl, rfl, rfl, rfl, rfl, rfl, rfl, rfl⟩

/-- A segment that was passed over is counted, and no other one comes in. -/
theorem mem_countSkipped {sn : UInt32} {segs : List Ikcpseg} {s : Ikcpseg}
    (hs : s ∈ countSkipped sn segs) :
    s ∈ segs ∨ ∃ s₀ ∈ segs, s = { s₀ with fastack := s₀.fastack + 1 } := by
  induction segs with
  | nil => exact absurd hs List.not_mem_nil
  | cons seg segs ih =>
    rw [countSkipped] at hs
    split_ifs at hs with hbefore hskip
    · exact .inl hs
    · rcases List.mem_cons.mp hs with rfl | hs
      · exact .inr ⟨seg, List.mem_cons_self, rfl⟩
      · exact (ih hs).imp (List.mem_cons_of_mem _) fun ⟨s₀, hs₀, heq⟩ ↦
          ⟨s₀, List.mem_cons_of_mem _ hs₀, heq⟩
    · rcases List.mem_cons.mp hs with rfl | hs
      · exact .inl List.mem_cons_self
      · exact (ih hs).imp (List.mem_cons_of_mem _) fun ⟨s₀, hs₀, heq⟩ ↦
          ⟨s₀, List.mem_cons_of_mem _ hs₀, heq⟩

theorem exists_mem_countSkipped {sn : UInt32} {segs : List Ikcpseg} {s : Ikcpseg} (hs : s ∈ segs) :
    ∃ s₁ ∈ Ikcpcb.countSkipped sn segs, s₁.sn = s.sn := by
  induction segs with
  | nil => exact absurd hs List.not_mem_nil
  | cons seg segs ih =>
    rw [Ikcpcb.countSkipped]
    split_ifs with hbefore hskip
    · exact ⟨s, hs, rfl⟩
    all_goals
      rcases List.mem_cons.mp hs with rfl | hs
      · exact ⟨_, List.mem_cons_self, rfl⟩
      · obtain ⟨s₁, hs₁, hsn⟩ := ih hs
        exact ⟨s₁, List.mem_cons_of_mem _ hs₁, hsn⟩

/-- **Putting a segment into the receive buffer**, which is kept in order. The numbers are compared
by way of any `f` that agrees with the comparison. -/
theorem insertFromBack_spec {f : UInt32 → ℕ} {newseg : Ikcpseg} {segs : List Ikcpseg}
    (hdiff : ∀ seg ∈ segs, itimediff newseg.sn seg.sn = (f newseg.sn : ℤ) - f seg.sn)
    (hinj : ∀ seg ∈ segs, f seg.sn = f newseg.sn → seg.sn = newseg.sn)
    (hsorted : segs.Pairwise fun a b ↦ f b.sn < f a.sn) :
    (∀ s ∈ segs, s ∈ insertFromBack newseg segs)
      ∧ (∀ s ∈ insertFromBack newseg segs, s ∈ segs ∨ s = newseg)
      ∧ (∃ s ∈ insertFromBack newseg segs, s.sn = newseg.sn)
      ∧ (insertFromBack newseg segs).Pairwise fun a b ↦ f b.sn < f a.sn := by
  induction segs with
  | nil => simp [insertFromBack]
  | cons seg segs ih =>
    obtain ⟨hseg, hrest⟩ := List.forall_mem_cons.mp hdiff
    obtain ⟨hsegInj, hrestInj⟩ := List.forall_mem_cons.mp hinj
    obtain ⟨hfirst, htail⟩ := List.pairwise_cons.mp hsorted
    rw [insertFromBack]
    split_ifs with hsame hahead
    · exact ⟨fun s hs ↦ hs, fun s hs ↦ .inl hs, ⟨seg, List.mem_cons_self, hsame⟩, hsorted⟩
    · rw [hseg] at hahead
      refine ⟨fun s hs ↦ List.mem_cons_of_mem _ hs, fun s hs ↦ (List.mem_cons.mp hs).symm,
        ⟨newseg, List.mem_cons_self, rfl⟩, List.pairwise_cons.mpr ⟨fun s hs ↦ ?_, hsorted⟩⟩
      rcases List.mem_cons.mp hs with rfl | hs
      · omega
      · have := hfirst s hs
        omega
    · rw [hseg] at hahead
      obtain ⟨hold, hfrom, ⟨s₀, hs₀, hsn⟩, hpair⟩ := ih hrest hrestInj htail
      have hne : f seg.sn ≠ f newseg.sn := fun h ↦ hsame (hsegInj h)
      refine ⟨fun s hs ↦ ?_, fun s hs ↦ ?_, ⟨s₀, List.mem_cons_of_mem _ hs₀, hsn⟩,
        List.pairwise_cons.mpr ⟨fun s hs ↦ ?_, hpair⟩⟩
      · exact (List.mem_cons.mp hs).elim (fun h ↦ h ▸ List.mem_cons_self)
          fun h ↦ List.mem_cons_of_mem _ (hold s h)
      · rcases List.mem_cons.mp hs with rfl | hs
        · exact .inl List.mem_cons_self
        · exact (hfrom s hs).imp_left (List.mem_cons_of_mem _)
      · rcases hfrom s hs with hs | rfl
        · exact hfirst s hs
        · omega

/-! ## What moves to the receive queue -/

/-- **What `moveAvailable` does**: the segments that are next in order move, one after the other. -/
theorem moveAvailable_eq (k : Ikcpcb) (segs : List Ikcpseg) :
    ∃ moved rest, segs = moved ++ rest
      ∧ k.moveAvailable segs = { k with
          rcvQueue := k.rcvQueue ++ moved
          rcvNxt := k.rcvNxt + UInt32.ofNat moved.length
          rcvBuf := rest }
      ∧ ∀ i seg, moved[i]? = some seg → seg.sn = k.rcvNxt + UInt32.ofNat i := by
  induction segs generalizing k with
  | nil => exact ⟨[], [], rfl, by simp [moveAvailable], by simp⟩
  | cons seg segs ih =>
    rw [moveAvailable]
    split_ifs with hnext
    · obtain ⟨moved, rest, rfl, heq, hsn⟩ :=
        ih { k with rcvQueue := k.rcvQueue ++ [seg], rcvNxt := k.rcvNxt + 1 }
      have hadd : ∀ n : ℕ, k.rcvNxt + 1 + UInt32.ofNat n = k.rcvNxt + UInt32.ofNat (n + 1) := by
        intro n
        rw [UInt32.ofNat_add, UInt32.add_assoc, UInt32.add_comm (UInt32.ofNat n)]
        rfl
      refine ⟨seg :: moved, rest, rfl, ?_, ?_⟩
      · rw [heq, List.append_assoc, List.singleton_append, hadd, List.length_cons]
      · intro i seg' hget
        cases i with
        | zero =>
          obtain rfl := Option.some.inj hget
          rw [hnext.1]
          exact (UInt32.add_zero _).symm
        | succ i => rw [hsn i seg' hget, hadd]
    · exact ⟨[], seg :: segs, rfl, by simp, by simp⟩

/-! ## What a segment does -/

/-- The acknowledgements that a segment carries let segments out of the send buffer, and only
those. -/
structure Releases (seg : Ikcpseg) (segs segs' : List Ikcpseg) : Prop where
  sublist : segs'.Sublist segs
  gone : ∀ s ∈ segs, s ∈ segs' ∨ 0 < itimediff seg.una s.sn ∨ seg.cmd = cmdAck ∧ seg.sn = s.sn

theorem removeAcked_sublist (sn : UInt32) (segs : List Ikcpseg) :
    (removeAcked sn segs).Sublist segs := by
  induction segs with
  | nil => exact List.Sublist.slnil
  | cons seg segs ih =>
    rw [removeAcked]
    split_ifs
    · exact List.sublist_cons_self _ _
    · exact List.Sublist.refl _
    · exact ih.cons_cons seg

theorem mem_removeAcked {sn : UInt32} {segs : List Ikcpseg} {s : Ikcpseg} (hs : s ∈ segs) :
    s ∈ removeAcked sn segs ∨ sn = s.sn := by
  induction segs with
  | nil => exact absurd hs List.not_mem_nil
  | cons seg segs ih =>
    rw [removeAcked]
    split_ifs with heq
    · rcases List.mem_cons.mp hs with rfl | hs
      · exact .inr heq
      · exact .inl hs
    · exact .inl hs
    · rcases List.mem_cons.mp hs with rfl | hs
      · exact .inl List.mem_cons_self
      · exact (ih hs).imp_left (List.mem_cons_of_mem _)

theorem mem_dropWhile {p : Ikcpseg → Bool} {segs : List Ikcpseg} {s : Ikcpseg} (hs : s ∈ segs) :
    s ∈ segs.dropWhile p ∨ p s := by
  rw [← List.takeWhile_append_dropWhile (p := p) (l := segs)] at hs
  exact (List.mem_append.mp hs).symm.imp_right
    (List.all_takeWhile (p := p) |> List.all_eq_true.mp <| s)

theorem releases_parseUna (k : Ikcpcb) (seg : Ikcpseg) :
    Releases seg k.sndBuf (k.parseUna seg.una).sndBuf where
  sublist := List.dropWhile_sublist _
  gone _ hs := (mem_dropWhile hs).imp_right fun h ↦ .inl (of_decide_eq_true h)

theorem releases_parseAck (k : Ikcpcb) {seg : Ikcpseg} (h : seg.cmd = cmdAck) :
    Releases seg k.sndBuf (k.parseAck seg.sn).sndBuf := by
  rw [parseAck]
  split_ifs
  · exact ⟨removeAcked_sublist _ _, fun s hs ↦ (mem_removeAcked hs).imp_right fun h' ↦ .inr ⟨h, h'⟩⟩
  · exact ⟨List.Sublist.refl _, fun s hs ↦ .inl hs⟩

theorem Releases.trans {seg : Ikcpseg} {segs segs' segs'' : List Ikcpseg}
    (h : Releases seg segs segs') (h' : Releases seg segs' segs'') : Releases seg segs segs'' where
  sublist := h'.sublist.trans h.sublist
  gone s hs := by
    rcases h.gone s hs with hs' | hgone
    · exact h'.gone s hs'
    · exact .inr hgone

/-- The part that is common to all segments. -/
def inputUna (k : Ikcpcb) (seg : Ikcpseg) : Ikcpcb :=
  (({ k with rmtWnd := seg.wnd } : Ikcpcb).parseUna seg.una).shrinkBuf

/-- What `ikcp_input` does with an acknowledgement behind that. -/
def inputAck (k : Ikcpcb) (seg : Ikcpseg) : Ikcpcb :=
  let rtt := itimediff k.current seg.ts
  let k := if 0 ≤ rtt then k.updateAck (.ofInt rtt) else k
  (k.parseAck seg.sn).shrinkBuf

/-- What it does with data. -/
def inputPush (k : Ikcpcb) (seg : Ikcpseg) : Ikcpcb :=
  if itimediff seg.sn (k.rcvNxt + k.rcvWnd) < 0 then
    if 0 ≤ itimediff seg.sn k.rcvNxt then (k.ackPush seg.sn seg.ts).parseData seg
    else k.ackPush seg.sn seg.ts
  else k

/-- **What a segment does**, in parts. -/
theorem inputSegment_eq (k : Ikcpcb) (seg : Ikcpseg) :
    k.inputSegment seg =
      if seg.cmd = cmdAck then (k.inputUna seg).inputAck seg
      else if seg.cmd = cmdPush then (k.inputUna seg).inputPush seg
      else if seg.cmd = cmdWask then
        { k.inputUna seg with probe := (k.inputUna seg).probe ||| askTell }
      else k.inputUna seg := rfl

/-- **What a segment does to an object**: first to what it has to send, and, when the segment
carries data, then to what it has received. -/
theorem inputSegment_spec (k : Ikcpcb) (seg : Ikcpseg) :
    ∃ k', SameBut k k' ∧ Releases seg k.sndBuf k'.sndBuf
      ∧ k.inputSegment seg = if seg.cmd = cmdPush then k'.inputPush seg else k' := by
  have hcommon : SameBut k (k.inputUna seg) := ⟨rfl, rfl, rfl, rfl, rfl, rfl, rfl, rfl⟩
  have hune : Releases seg k.sndBuf (k.inputUna seg).sndBuf := releases_parseUna k seg
  rw [inputSegment_eq]
  generalize k.inputUna seg = k₁ at hcommon hune
  by_cases hack : seg.cmd = cmdAck
  · have hpush : seg.cmd ≠ cmdPush := by
      rw [hack]
      decide
    obtain ⟨k₂, hk₂, hsame, hbuf⟩ : ∃ k₂, k₁.inputAck seg = (k₂.parseAck seg.sn).shrinkBuf
        ∧ SameBut k₁ k₂ ∧ k₂.sndBuf = k₁.sndBuf := by
      refine ⟨_, rfl, ?_⟩
      split_ifs
      · exact updateAck_spec _ _
      · exact ⟨sameBut_refl _, rfl⟩
    rw [if_pos hack, hk₂]
    refine ⟨_, ((hcommon.trans hsame).trans (sameBut_parseAck _ _)).trans (sameBut_shrinkBuf _),
      hune.trans ?_, (if_neg hpush).symm⟩
    rw [← hbuf]
    exact releases_parseAck k₂ hack
  · rw [if_neg hack]
    by_cases hpush : seg.cmd = cmdPush
    · rw [if_pos hpush]
      exact ⟨k₁, hcommon, hune, (if_pos hpush).symm⟩
    · rw [if_neg hpush]
      split_ifs
      · exact ⟨{ k₁ with probe := k₁.probe ||| askTell },
          hcommon.trans ⟨rfl, rfl, rfl, rfl, rfl, rfl, rfl, rfl⟩, hune, rfl⟩
      · exact ⟨k₁, hcommon, hune, rfl⟩

theorem inputPush_sender (k : Ikcpcb) (seg : Ikcpseg) : (k.inputPush seg).sndNxt = k.sndNxt
    ∧ (k.inputPush seg).sndQueue = k.sndQueue ∧ (k.inputPush seg).sndBuf = k.sndBuf
    ∧ (k.inputPush seg).sndUna = k.sndUna := by
  rw [inputPush]
  split_ifs
  · rw [parseData]
    split_ifs
    · exact ⟨rfl, rfl, rfl, rfl⟩
    · obtain ⟨_, _, -, heq, -⟩ := moveAvailable_eq (k.ackPush seg.sn seg.ts)
        (insertFromBack seg (k.ackPush seg.sn seg.ts).rcvBuf.reverse).reverse
      dsimp only
      rw [heq]
      exact ⟨rfl, rfl, rfl, rfl⟩
  · exact ⟨rfl, rfl, rfl, rfl⟩
  · exact ⟨rfl, rfl, rfl, rfl⟩

theorem recv_sender (k : Ikcpcb) (len : ℕ) : (k.recv len).1.sndNxt = k.sndNxt
    ∧ (k.recv len).1.sndQueue = k.sndQueue ∧ (k.recv len).1.sndBuf = k.sndBuf
    ∧ (k.recv len).1.sndUna = k.sndUna := by
  obtain ⟨_, _, -, heq, -⟩ :=
    moveAvailable_eq { k with rcvQueue := (splitMessage k.rcvQueue).2 } k.rcvBuf
  rw [recv]
  split_ifs
  · exact ⟨rfl, rfl, rfl, rfl⟩
  · dsimp only
    rw [heq]
    split_ifs <;> exact ⟨rfl, rfl, rfl, rfl⟩

/-! ## What a datagram does -/

/-- **The induction rule of the loop**: it keeps what every segment of the datagram keeps, of those
that carry the id of the conversation and a command of the protocol. -/
theorem inputLoop_induction {P : Ikcpcb → Prop} {fuel : ℕ} {k : Ikcpcb} {maxack : Option UInt32}
    {cmd : ℤ} {d : List UInt8} (h : P k)
    (hstep : ∀ seg ∈ segmentsIn fuel d, ∀ k, seg.conv = k.conv → IsCommand seg.cmd → P k →
      P (k.inputSegment seg)) : P (inputLoop fuel k maxack cmd d).kcp := by
  induction fuel generalizing k maxack cmd d with
  | zero => exact h
  | succ fuel ih =>
    rw [inputLoop]
    dsimp only
    by_cases hshort : d.length < overhead
    · rwa [if_pos hshort]
    rw [if_neg hshort]
    by_cases hconv : (decodeHead d).seg.conv ≠ k.conv
    · rwa [if_pos hconv]
    rw [if_neg hconv]
    by_cases hfits : (decodeHead d).Fits
    · by_cases hcmd : IsCommand (decodeHead d).seg.cmd
      · rw [if_neg (not_not.mpr hfits), if_neg (not_not.mpr hcmd)]
        rw [segmentsIn, if_neg hshort, if_pos hfits] at hstep
        refine ih (hstep _ List.mem_cons_self k (not_not.mp hconv) hcmd h) ?_
        exact fun seg hseg ↦ hstep seg (List.mem_cons_of_mem _ hseg)
      · rwa [if_neg (not_not.mpr hfits), if_pos hcmd]
    · rwa [if_pos hfits]

theorem conv_inputPush (k : Ikcpcb) (seg : Ikcpseg) : (k.inputPush seg).conv = k.conv := by
  rw [inputPush]
  split_ifs
  · rw [parseData]
    split_ifs
    · rfl
    · exact conv_moveAvailable _ _
  · rfl
  · rfl

theorem conv_inputSegment (k : Ikcpcb) (seg : Ikcpseg) : (k.inputSegment seg).conv = k.conv := by
  obtain ⟨k', hsame, -, heq⟩ := inputSegment_spec k seg
  rw [heq]
  split_ifs
  · exact (conv_inputPush k' seg).trans hsame.conv
  · exact hsame.conv

/-- **The induction rule of `ikcp_input`.** -/
theorem input_induction {P : Ikcpcb → Prop} {k : Ikcpcb} {d : List UInt8} (h : P k)
    (hsegment : ∀ seg ∈ segmentsOf d, ∀ k, seg.conv = k.conv → IsCommand seg.cmd → P k →
      P (k.inputSegment seg))
    (hfastack : ∀ k sn, P k → P (k.parseFastack sn))
    (hgrow : ∀ k prevUna, P k → P (k.growWindow prevUna)) : P (k.input d).1 := by
  rw [input]
  split_ifs with hshort
  · exact h
  · have hloop : P (inputLoop d.length k none 0 d).kcp := inputLoop_induction h hsegment
    dsimp only
    split_ifs
    · exact hloop
    · refine hgrow _ _ ?_
      split
      · exact hfastack _ _ hloop
      · exact hloop

theorem conv_input (k : Ikcpcb) (data : List UInt8) : (k.input data).1.conv = k.conv :=
  input_induction (P := fun k' ↦ k'.conv = k.conv) rfl
    (fun seg _ k' _ _ h ↦ (conv_inputSegment k' seg).trans h)
    (fun k' sn h ↦ (sameBut_parseFastack k' sn).conv.trans h)
    (fun k' una h ↦ (growWindow_spec k' una).1.conv.trans h)

/-- **The loop takes every segment of a datagram** that was made of segments of the conversation. -/
theorem inputLoop_datagram {segs : List Ikcpseg} {fuel : ℕ} {k : Ikcpcb} {maxack : Option UInt32}
    {cmd : ℤ} (hfuel : (datagram segs).length ≤ fuel) (hcmd : 0 ≤ cmd)
    (h : ∀ seg ∈ segs, seg.conv = k.conv ∧ IsCommand seg.cmd ∧ seg.data.length < 2 ^ 31) :
    0 ≤ (inputLoop fuel k maxack cmd (datagram segs)).result
      ∧ (inputLoop fuel k maxack cmd (datagram segs)).kcp
        = (segs.map Ikcpseg.onWire).foldl inputSegment k := by
  induction segs generalizing fuel k maxack cmd with
  | nil => cases fuel <;> exact ⟨hcmd, rfl⟩
  | cons seg segs ih =>
    obtain ⟨⟨hconv, hcommand, hlen⟩, hsegs⟩ := List.forall_mem_cons.mp h
    have hsplit : datagram (seg :: segs) = seg.bytes ++ datagram segs := rfl
    have hlong : overhead ≤ (seg.bytes ++ datagram segs).length := by
      rw [List.length_append, length_bytes, Nat.add_assoc]
      exact Nat.le_add_right _ _
    rw [hsplit] at hfuel ⊢
    obtain ⟨fuel, rfl⟩ := Nat.exists_eq_succ_of_ne_zero
      (Nat.ne_of_gt (Nat.lt_of_lt_of_le (by decide : 0 < overhead) (hlong.trans hfuel)))
    have hnat : (UInt32.ofNat seg.data.length).toNat = seg.data.length :=
      UInt32.toNat_ofNat_of_lt' (Nat.lt_trans hlen (by decide))
    have hfits : (decodeHead (seg.bytes ++ datagram segs)).Fits := by
      rw [decodeHead_bytes, Head.Fits, hnat]
      exact ⟨by rw [List.length_append]; exact Nat.le_add_right _ _, hlen⟩
    have hsegment : (decodeHead (seg.bytes ++ datagram segs)).segment = seg.onWire := by
      rw [decodeHead_bytes, Head.segment]
      dsimp only
      rw [hnat, List.take_left]
      rfl
    have hnext : (decodeHead (seg.bytes ++ datagram segs)).next = datagram segs := by
      rw [decodeHead_bytes, Head.next, hnat, List.drop_left]
    have hheadConv : (decodeHead (seg.bytes ++ datagram segs)).seg.conv = k.conv := by
      rw [decodeHead_bytes]
      exact hconv
    have hheadCmd : (decodeHead (seg.bytes ++ datagram segs)).seg.cmd = seg.cmd := by
      rw [decodeHead_bytes]
      exact cmd_onWire hcommand
    rw [inputLoop, if_neg (Nat.not_lt.mpr hlong), if_neg (not_not.mpr hheadConv),
      if_neg (not_not.mpr hfits), hheadCmd, if_neg (not_not.mpr hcommand), hsegment, hnext]
    refine ih ?_ (Int.natCast_nonneg _) fun s hs ↦ ?_
    · rw [List.length_append, length_bytes, overhead] at hfuel
      omega
    · rw [conv_inputSegment]
      exact hsegs s hs

/-- **Such a datagram is taken without an error.** -/
theorem input_datagram {segs : List Ikcpseg} {k : Ikcpcb} (hne : segs ≠ [])
    (h : ∀ seg ∈ segs, seg.conv = k.conv ∧ IsCommand seg.cmd ∧ seg.data.length < 2 ^ 31) :
    0 ≤ (k.input (datagram segs)).2 := by
  obtain ⟨seg, segs, rfl⟩ := List.exists_cons_of_ne_nil hne
  have hlong : ¬(datagram (seg :: segs)).length < overhead := by
    rw [datagram, List.map_cons, List.flatten_cons, List.length_append, length_bytes]
    omega
  obtain ⟨hresult, -⟩ :=
    @inputLoop_datagram (seg :: segs) _ k none 0 (Nat.le_refl _) (Int.le_refl 0) h
  rw [input, if_neg hlong]
  dsimp only
  rw [if_neg (Int.not_lt.mpr hresult)]
  exact hresult

end Ikcpcb

end Knet.Kcp
