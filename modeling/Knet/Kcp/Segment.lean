import Knet.Kcp.Ikcp
import Knet.Lib.Serial

/-!
# KCP segments on the wire

`ikcp_encode_seg` writes the header of a segment, and `ikcp_input` reads one header after the other
out of a datagram. Both go field by field, with the least significant byte first.

A datagram that `ikcp_flush` puts out is the segments of a list, one behind the other
(`datagram`). `segmentsOf` is what a reader finds in any bytes. It finds the segments of the list
again, as far as their fields fit the header (`segmentsOf_datagram`).
-/

namespace Knet.Kcp

/-- `IKCP_OVERHEAD`. -/
def overhead : ℕ := 24

/-- `IKCP_CMD_PUSH`. -/
def cmdPush : UInt32 := 81

/-- `IKCP_CMD_ACK`. -/
def cmdAck : UInt32 := 82

/-- `IKCP_CMD_WASK`. -/
def cmdWask : UInt32 := 83

/-- `IKCP_CMD_WINS`. -/
def cmdWins : UInt32 := 84

/-- The commands of the protocol. -/
def IsCommand (cmd : UInt32) : Prop :=
  cmd = cmdPush ∨ cmd = cmdAck ∨ cmd = cmdWask ∨ cmd = cmdWins

instance decidableIsCommand (cmd : UInt32) : Decidable (IsCommand cmd) :=
  inferInstanceAs (Decidable (_ ∨ _ ∨ _ ∨ _))

/-- `_itimediff`. -/
def itimediff (later earlier : UInt32) : ℤ := Serial.diff later.toBitVec earlier.toBitVec

/-- Numbers below `2 ^ 31` compare as numbers. -/
theorem itimediff_eq {a b : UInt32} (ha : a.toNat < 2 ^ 31) (hb : b.toNat < 2 ^ 31) :
    itimediff a b = (a.toNat : ℤ) - b.toNat := by
  refine Serial.diff_eq_sub ?_ ?_
  · show (-4294967296 : ℤ) ≤ ((a.toNat : ℤ) - b.toNat) * 2
    omega
  · show ((a.toNat : ℤ) - b.toNat) * 2 < (4294967296 : ℤ)
    omega

/-! ## Encoding -/

/-- `ikcp_encode8u`, `ikcp_encode16u` and `ikcp_encode32u`: the low `width` bytes. -/
def encodeu (width : ℕ) (value : UInt32) : List UInt8 := Bytes.toLittle width value.toNat

/-- `ikcp_decode8u`, `ikcp_decode16u` and `ikcp_decode32u`, with the bytes behind the number. -/
def decodeu (width : ℕ) (d : List UInt8) : UInt32 × List UInt8 :=
  (UInt32.ofNat (Bytes.ofLittle (d.take width)), d.drop width)

namespace Ikcpseg

/-- `ikcp_encode_seg`, with the data that `ikcp_flush` puts behind the header. -/
def bytes (seg : Ikcpseg) : List UInt8 :=
  encodeu 4 seg.conv ++ (encodeu 1 seg.cmd ++ (encodeu 1 seg.frg ++ (encodeu 2 seg.wnd ++
    (encodeu 4 seg.ts ++ (encodeu 4 seg.sn ++ (encodeu 4 seg.una ++
      (encodeu 4 (UInt32.ofNat seg.data.length) ++ seg.data)))))))

/-- What the other end reads: the fields of the header that are narrower are cut. -/
def onWire (seg : Ikcpseg) : Ikcpseg where
  conv := seg.conv
  cmd := UInt32.ofNat (seg.cmd.toNat % 2 ^ 8)
  frg := UInt32.ofNat (seg.frg.toNat % 2 ^ 8)
  wnd := UInt32.ofNat (seg.wnd.toNat % 2 ^ 16)
  ts := seg.ts
  sn := seg.sn
  una := seg.una
  data := seg.data

end Ikcpseg

/-- A header as `ikcp_input` decodes it. -/
structure Head where
  /-- The fields, without data. -/
  seg : Ikcpseg
  len : UInt32
  /-- What stands behind the header. -/
  rest : List UInt8

/-- The header at the front of some bytes. -/
def decodeHead (d : List UInt8) : Head :=
  let conv := decodeu 4 d
  let cmd := decodeu 1 conv.2
  let frg := decodeu 1 cmd.2
  let wnd := decodeu 2 frg.2
  let ts := decodeu 4 wnd.2
  let sn := decodeu 4 ts.2
  let una := decodeu 4 sn.2
  let len := decodeu 4 una.2
  { seg :=
      { conv := conv.1, cmd := cmd.1, frg := frg.1, wnd := wnd.1, ts := ts.1, sn := sn.1,
        una := una.1, data := [] }
    len := len.1
    rest := len.2 }

namespace Head

/-- `ikcp_input` refuses a length that reaches behind the datagram, or that is negative as an
`int`. -/
def Fits (h : Head) : Prop := h.len.toNat ≤ h.rest.length ∧ h.len.toNat < 2 ^ 31

instance decidableFits (h : Head) : Decidable h.Fits := inferInstanceAs (Decidable (_ ∧ _))

/-- The segment, with its data. -/
def segment (h : Head) : Ikcpseg := { h.seg with data := h.rest.take h.len.toNat }

/-- What stands behind the segment. -/
def next (h : Head) : List UInt8 := h.rest.drop h.len.toNat

end Head

theorem length_encodeu (width : ℕ) (value : UInt32) : (encodeu width value).length = width :=
  Bytes.length_toLittle _ _

theorem decodeu_encodeu (width : ℕ) (value : UInt32) (rest : List UInt8) :
    decodeu width (encodeu width value ++ rest)
      = (UInt32.ofNat (value.toNat % 256 ^ width), rest) := by
  have hlen : (encodeu width value).length = width := length_encodeu _ _
  rw [decodeu, List.take_left' hlen, List.drop_left' hlen, encodeu, Bytes.ofLittle_toLittle]

theorem decodeu_encodeu_four (value : UInt32) (rest : List UInt8) :
    decodeu 4 (encodeu 4 value ++ rest) = (value, rest) := by
  have hmod : value.toNat % 256 ^ 4 = value.toNat := Nat.mod_eq_of_lt value.toNat_lt
  rw [decodeu_encodeu, hmod, UInt32.ofNat_toNat]

/-- **The header comes back.** -/
theorem decodeHead_bytes (seg : Ikcpseg) (rest : List UInt8) :
    decodeHead (seg.bytes ++ rest)
      = ⟨{ seg.onWire with data := [] }, UInt32.ofNat seg.data.length, seg.data ++ rest⟩ := by
  simp only [Ikcpseg.bytes, List.append_assoc, decodeHead, decodeu_encodeu_four,
    decodeu_encodeu 1, decodeu_encodeu 2]
  rfl

theorem length_bytes (seg : Ikcpseg) : seg.bytes.length = overhead + seg.data.length := by
  simp only [Ikcpseg.bytes, List.length_append, length_encodeu, overhead]
  omega

theorem cmd_onWire {seg : Ikcpseg} (h : IsCommand seg.cmd) : seg.onWire.cmd = seg.cmd := by
  rcases h with h | h | h | h <;> rw [Ikcpseg.onWire, h] <;> rfl

/-! ## Datagrams -/

/-- The bytes of a list of segments. -/
def datagram (segs : List Ikcpseg) : List UInt8 := (segs.map Ikcpseg.bytes).flatten

/-- The segments found in some bytes, up to one that does not fit. Every round takes a header, so
that as many rounds as there are bytes are enough. -/
def segmentsIn : ℕ → List UInt8 → List Ikcpseg
  | 0, _ => []
  | fuel + 1, d =>
    if d.length < overhead then []
    else if (decodeHead d).Fits then
      (decodeHead d).segment :: segmentsIn fuel (decodeHead d).next
    else []

/-- The segments found in a datagram. -/
def segmentsOf (d : List UInt8) : List Ikcpseg := segmentsIn d.length d

theorem length_rest (d : List UInt8) : (decodeHead d).rest.length = d.length - overhead := by
  simp only [decodeHead, decodeu, List.length_drop, overhead]
  omega

theorem length_next_lt {d : List UInt8} (h : ¬d.length < overhead) :
    (decodeHead d).next.length + overhead ≤ d.length := by
  rw [Head.next, List.length_drop, length_rest]
  omega

theorem segmentsIn_eq {fuel fuel' : ℕ} {d : List UInt8} (h : d.length ≤ fuel)
    (h' : d.length ≤ fuel') : segmentsIn fuel d = segmentsIn fuel' d := by
  induction fuel generalizing fuel' d with
  | zero =>
    obtain rfl : d = [] := List.length_eq_zero_iff.mp (Nat.le_zero.mp h)
    cases fuel' <;> rfl
  | succ fuel ih =>
    cases fuel' with
    | zero =>
      obtain rfl : d = [] := List.length_eq_zero_iff.mp (Nat.le_zero.mp h')
      rfl
    | succ fuel' =>
      rw [segmentsIn, segmentsIn]
      split_ifs with hshort hfits
      · rfl
      · have hlen := length_next_lt hshort
        rw [overhead] at hlen
        have hstep : segmentsIn fuel (decodeHead d).next = segmentsIn fuel' (decodeHead d).next :=
          ih (by omega) (by omega)
        rw [hstep]
      · rfl

theorem segmentsOf_cons {seg : Ikcpseg} (hlen : seg.data.length < 2 ^ 31) (rest : List UInt8) :
    segmentsOf (seg.bytes ++ rest) = seg.onWire :: segmentsOf rest := by
  have hlong : ¬(seg.bytes ++ rest).length < overhead := by
    rw [List.length_append, length_bytes]
    omega
  have hnat : (UInt32.ofNat seg.data.length).toNat = seg.data.length :=
    UInt32.toNat_ofNat_of_lt' (Nat.lt_trans hlen (by decide))
  obtain ⟨fuel, hfuel⟩ : ∃ fuel, (seg.bytes ++ rest).length = fuel + 1 :=
    ⟨(seg.bytes ++ rest).length - 1, by rw [overhead] at hlong; omega⟩
  have hrest : rest.length ≤ fuel := by
    rw [List.length_append, length_bytes, overhead] at hfuel
    omega
  rw [segmentsOf, hfuel, segmentsIn, if_neg hlong, decodeHead_bytes, if_pos, Head.segment,
    Head.next]
  · simp only [hnat, List.take_left', List.drop_left']
    rw [segmentsOf, segmentsIn_eq hrest (Nat.le_refl _)]
    rfl
  · rw [Head.Fits, hnat]
    exact ⟨by simp, hlen⟩

/-- **A datagram is read back as its segments.** -/
theorem segmentsOf_datagram {segs : List Ikcpseg} (h : ∀ seg ∈ segs, seg.data.length < 2 ^ 31) :
    segmentsOf (datagram segs) = segs.map Ikcpseg.onWire := by
  induction segs with
  | nil => rfl
  | cons seg segs ih =>
    obtain ⟨hseg, hsegs⟩ := List.forall_mem_cons.mp h
    rw [datagram, List.map_cons, List.flatten_cons, segmentsOf_cons hseg, List.map_cons, ← datagram,
      ih hsegs]

end Knet.Kcp
