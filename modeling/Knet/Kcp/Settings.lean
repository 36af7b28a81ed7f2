import Knet.Kcp.Flush

/-!
# Settings

The functions by which a user sets up a `kcp` object: `ikcp_nodelay`, `ikcp_wndsize`,
`ikcp_interval` and `ikcp_setmtu`. What they set is read everywhere, and **no other function changes
it** (`Settings`).
-/

namespace Knet.Kcp

namespace Ikcpcb

/-- `ikcp_wndsize`. -/
def wndsize (k : Ikcpcb) (sndwnd rcvwnd : ℤ) : Ikcpcb :=
  let k := if 0 < sndwnd then { k with sndWnd := toUInt32 sndwnd } else k
  if 0 < rcvwnd then { k with rcvWnd := imax (toUInt32 rcvwnd) 128 } else k

/-- `ikcp_interval`. -/
def setInterval (k : Ikcpcb) (interval : ℤ) : Ikcpcb :=
  { k with interval := UInt32.ofNat (max 10 (min 5000 interval)).toNat }

/-- `ikcp_setmtu`, when there is memory for the new buffer (`blockSize`), which takes the place of
the old one. -/
def setMtu (k : Ikcpcb) (mtu : ℤ) : Ikcpcb :=
  if mtu < 50 ∨ mtu < overhead then k
  else { k with mtu := toUInt32 mtu, mss := toUInt32 mtu - UInt32.ofNat overhead }

end Ikcpcb

/-- A setting that the user changes, with the arguments of the function. -/
inductive Setting
  | nodelay (nd interval resend nc : ℤ)
  | wndsize (sndwnd rcvwnd : ℤ)
  | setInterval (interval : ℤ)
  | setMtu (mtu : ℤ)
  deriving DecidableEq, Repr

/-- The function that makes a setting. -/
def Setting.apply : Setting → Ikcpcb → Ikcpcb
  | .nodelay nd interval resend nc, k => k.setNodelay nd interval resend nc
  | .wndsize sndwnd rcvwnd, k => k.wndsize sndwnd rcvwnd
  | .setInterval interval, k => k.setInterval interval
  | .setMtu mtu, k => k.setMtu mtu

/-- An `int` is not larger than this. -/
def Setting.InRange : Setting → Prop
  | .nodelay nd interval resend nc =>
    nd < 2 ^ 31 ∧ interval < 2 ^ 31 ∧ resend < 2 ^ 31 ∧ nc < 2 ^ 31
  | .wndsize sndwnd rcvwnd => sndwnd < 2 ^ 31 ∧ rcvwnd < 2 ^ 31
  | .setInterval interval => interval < 2 ^ 31
  | .setMtu mtu => mtu < 2 ^ 31

instance decidableInRange : ∀ s : Setting, Decidable s.InRange
  | .nodelay _ _ _ _ => inferInstanceAs (Decidable (_ ∧ _ ∧ _ ∧ _))
  | .wndsize _ _ => inferInstanceAs (Decidable (_ ∧ _))
  | .setInterval _ => inferInstanceAs (Decidable (_ < _))
  | .setMtu _ => inferInstanceAs (Decidable (_ < _))

/-- What is set. -/
structure Settings where
  conv : UInt32
  mtu : UInt32
  mss : UInt32
  sndWnd : UInt32
  rcvWnd : UInt32
  nodelay : UInt32
  interval : UInt32
  rxMinrto : ℤ
  fastresend : ℤ
  fastlimit : ℤ
  nocwnd : ℤ
  stream : ℤ
  deadLink : UInt32

namespace Ikcpcb

/-- The settings of an object. -/
def settings (k : Ikcpcb) : Settings :=
  ⟨k.conv, k.mtu, k.mss, k.sndWnd, k.rcvWnd, k.nodelay, k.interval, k.rxMinrto, k.fastresend,
    k.fastlimit, k.nocwnd, k.stream, k.deadLink⟩

/-! ## Functions that leave the settings alone -/

theorem settings_send (k : Ikcpcb) (data : List UInt8) : (k.send data).1.settings = k.settings := by
  rw [send]
  dsimp only
  split_ifs <;> rfl

theorem settings_moveAvailable (k : Ikcpcb) (segs : List Ikcpseg) :
    (k.moveAvailable segs).settings = k.settings := by
  obtain ⟨_, _, -, heq, -⟩ := moveAvailable_eq k segs
  rw [heq]
  rfl

theorem settings_recv (k : Ikcpcb) (len : ℕ) : (k.recv len).1.settings = k.settings := by
  rw [recv]
  dsimp only
  split_ifs
  · rfl
  · exact settings_moveAvailable _ _
  · exact settings_moveAvailable _ _

theorem settings_updateAck (k : Ikcpcb) (rtt : Int32) :
    (k.updateAck rtt).settings = k.settings := by
  rw [updateAck]
  split_ifs <;> rfl

theorem settings_parseAck (k : Ikcpcb) (sn : UInt32) : (k.parseAck sn).settings = k.settings := by
  rw [parseAck]
  split_ifs <;> rfl

theorem settings_inputPush (k : Ikcpcb) (seg : Ikcpseg) :
    (k.inputPush seg).settings = k.settings := by
  rw [inputPush]
  split_ifs
  · rw [parseData]
    split_ifs
    · rfl
    · exact settings_moveAvailable _ _
  · rfl
  · rfl

theorem settings_inputSegment (k : Ikcpcb) (seg : Ikcpseg) :
    (k.inputSegment seg).settings = k.settings := by
  rw [inputSegment_eq]
  split_ifs
  · rw [inputAck]
    split_ifs
    · exact (settings_parseAck _ _).trans (settings_updateAck _ _)
    · exact settings_parseAck (k.inputUna seg) seg.sn
  · exact settings_inputPush (k.inputUna seg) seg
  · rfl
  · rfl

theorem settings_input (k : Ikcpcb) (d : List UInt8) : (k.input d).1.settings = k.settings := by
  refine input_induction (P := fun k' ↦ k'.settings = k.settings) rfl ?_ ?_ ?_
  · exact fun seg _ k' _ _ h ↦ (settings_inputSegment k' seg).trans h
  · intro k' sn h
    rw [parseFastack]
    split_ifs <;> exact h
  · intro k' una h
    rw [growWindow]
    dsimp only
    split_ifs <;> exact h

theorem settings_moved (k : Ikcpcb) : k.moved.settings = k.settings := by
  obtain ⟨_, _, _, heq, -⟩ := moveQueued_eq k.probeWindow.sendWindow
    { k.probeWindow with acklist := [], probe := 0 } k.probeWindow.sndQueue
  rw [moved, heq, probeWindow]
  dsimp only
  split_ifs <;> rfl

theorem settings_adjustWindow (k : Ikcpcb) (cwnd : UInt32) (lost change : Bool) :
    (k.adjustWindow cwnd lost change).settings = k.settings := by
  rw [adjustWindow]
  dsimp only
  split_ifs <;> rfl

theorem settings_flush (k : Ikcpcb) : k.flush.1.settings = k.settings := by
  rw [flush]
  split_ifs
  · rfl
  · exact (settings_adjustWindow _ _ _ _).trans (settings_moved k)

theorem settings_update (k : Ikcpcb) (now : UInt32) : (k.update now).1.settings = k.settings := by
  rw [update]
  dsimp only
  split_ifs <;> first | rfl | exact settings_flush _

/-! ## Functions that leave everything else alone -/

/-- A setting does not touch what an object has to send and has received. -/
theorem toTransport_apply (s : Setting) (k : Ikcpcb) :
    (s.apply k).toTransport = k.toTransport ∧ (s.apply k).acklist = k.acklist := by
  cases s with
  | nodelay nd interval resend nc =>
    rw [Setting.apply, setNodelay]
    split_ifs <;> exact ⟨rfl, rfl⟩
  | wndsize sndwnd rcvwnd =>
    rw [Setting.apply, wndsize]
    split_ifs <;> exact ⟨rfl, rfl⟩
  | setInterval interval => exact ⟨rfl, rfl⟩
  | setMtu mtu =>
    rw [Setting.apply, setMtu]
    split_ifs <;> exact ⟨rfl, rfl⟩

theorem sndWnd_apply {s : Setting} {k : Ikcpcb} (hrange : s.InRange)
    (h : k.sndWnd.toNat < 2 ^ 31) : (s.apply k).sndWnd.toNat < 2 ^ 31 := by
  cases s with
  | nodelay nd interval resend nc =>
    rw [Setting.apply, setNodelay]
    split_ifs <;> exact h
  | wndsize sndwnd rcvwnd =>
    have hnat : 0 < sndwnd → (toUInt32 sndwnd).toNat < 2 ^ 31 := by
      intro hpos
      obtain ⟨n, rfl⟩ := Int.eq_ofNat_of_zero_le (Int.le_of_lt hpos)
      have hn : n < 2 ^ 31 := Int.ofNat_lt.mp hrange.1
      rwa [toNat_toUInt32 hn]
    rw [Setting.apply, wndsize]
    by_cases hpos : 0 < sndwnd
    · rw [if_pos hpos]
      split_ifs <;> exact hnat hpos
    · rw [if_neg hpos]
      split_ifs <;> exact h
  | setInterval interval => exact h
  | setMtu mtu =>
    rw [Setting.apply, setMtu]
    split_ifs <;> exact h

theorem stream_apply (s : Setting) (k : Ikcpcb) : (s.apply k).stream = k.stream := by
  cases s with
  | nodelay nd interval resend nc =>
    rw [Setting.apply, setNodelay]
    split_ifs <;> rfl
  | wndsize sndwnd rcvwnd =>
    rw [Setting.apply, wndsize]
    split_ifs <;> rfl
  | setInterval interval => rfl
  | setMtu mtu =>
    rw [Setting.apply, setMtu]
    split_ifs <;> rfl

theorem toNat_mtu {mtu : ℤ} (hlow : 50 ≤ mtu) (hhigh : mtu < 2 ^ 31) :
    ((toUInt32 mtu).toNat : ℤ) = mtu
      ∧ (toUInt32 mtu - UInt32.ofNat overhead).toNat = (toUInt32 mtu).toNat - overhead := by
  obtain ⟨n, rfl⟩ := Int.eq_ofNat_of_zero_le (Int.le_trans (by decide) hlow)
  have hle : 50 ≤ n := Int.ofNat_le.mp hlow
  have hnat : (toUInt32 n).toNat = n := toNat_toUInt32 (Int.ofNat_lt.mp hhigh)
  rw [hnat]
  refine ⟨rfl, ?_⟩
  rw [UInt32.toNat_sub_of_le _ _ (UInt32.le_iff_toNat_le.mpr ?_), hnat]
  · rfl
  · rw [hnat]
    exact Nat.le_trans (by decide) hle

/-- **There is room for data in a segment**, whatever MTU is set. -/
theorem mss_apply {s : Setting} {k : Ikcpcb} (hrange : s.InRange) (h : 0 < k.mss.toNat) :
    0 < (s.apply k).mss.toNat := by
  cases s with
  | nodelay nd interval resend nc =>
    rw [Setting.apply, setNodelay]
    split_ifs <;> exact h
  | wndsize sndwnd rcvwnd =>
    rw [Setting.apply, wndsize]
    split_ifs <;> exact h
  | setInterval interval => exact h
  | setMtu mtu =>
    rw [Setting.apply, setMtu]
    split_ifs with hsmall
    · exact h
    · obtain ⟨h50, -⟩ := not_or.mp hsmall
      obtain ⟨hmtu, hmss⟩ := toNat_mtu (Int.not_lt.mp h50) hrange
      show 0 < (toUInt32 mtu - UInt32.ofNat overhead).toNat
      rw [hmss, overhead]
      omega

end Ikcpcb

end Knet.Kcp
