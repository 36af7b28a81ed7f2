import Knet.Kcp.Datagrams

/-!
# The buffer of a flush

`ikcp_flush` copies segments into a block of memory that was allocated for the MTU, and asks only
whether the segments in it make a datagram that is longer than the MTU. It runs past the end of the
block when an MTU is set that is too small for a segment which waits already, or so large an MTU
that the size of the block is computed modulo `2 ^ 32`.

**An object whose user leaves room for what waits never does that** (`Intact`), whatever comes in.
-/

namespace Knet.Kcp

/-- An MTU that is set has room for every segment that waits, and its block is smaller than `2 ^ 32`
bytes. A value below 50 is refused. -/
def Setting.LeavesRoom (k : Ikcpcb) : Setting → Prop
  | .setMtu mtu => mtu < 50
    ∨ (∀ seg ∈ k.sndQueue ++ k.sndBuf, (overhead : ℤ) + seg.data.length ≤ mtu)
      ∧ (mtu + overhead) * 3 < 2 ^ 32
  | _ => True

instance decidableLeavesRoom (k : Ikcpcb) : ∀ s : Setting, Decidable (s.LeavesRoom k)
  | .setMtu _ => inferInstanceAs (Decidable (_ ∨ _ ∧ _))
  | .nodelay .. | .wndsize .. | .setInterval _ => isTrue trivial

namespace Ikcpcb

/-- The block is large enough for the MTU, the segments are not longer than that, and nothing was
written past the end. -/
structure Intact (k : Ikcpcb) : Prop where
  stream : k.stream = 0
  matching : overhead + k.mss.toNat = k.mtu.toNat
  roomy : Roomy k.mtu
  holds : k.Holds k.mss.toNat
  overrun : k.overrun = false

variable {k k' : Ikcpcb}

theorem intact_create (conv : UInt32) : (create conv).Intact where
  stream := rfl
  matching := rfl
  roomy := (by decide : (1400 : UInt32).toNat ≤ (blockSize 1400).toNat)
  holds := holds_create conv _
  overrun := rfl

theorem Intact.same (h : k.Intact) (hsettings : k'.settings = k.settings)
    (hholds : k'.Holds k.mss.toNat) (hover : k'.overrun = k.overrun) : k'.Intact where
  stream := (congrArg Settings.stream hsettings).trans h.stream
  matching := by
    have hmss : k'.mss = k.mss := congrArg Settings.mss hsettings
    have hmtu : k'.mtu = k.mtu := congrArg Settings.mtu hsettings
    rw [hmss, hmtu]
    exact h.matching
  roomy := by
    have hmtu : k'.mtu = k.mtu := congrArg Settings.mtu hsettings
    rw [hmtu]
    exact h.roomy
  holds := by
    have hmss : k'.mss = k.mss := congrArg Settings.mss hsettings
    rwa [hmss]
  overrun := hover.trans h.overrun

/-! ## Functions that do not touch the buffer -/

theorem overrun_send (k : Ikcpcb) (data : List UInt8) : (k.send data).1.overrun = k.overrun := by
  rw [Ikcpcb.send]
  dsimp only
  split_ifs <;> rfl

theorem overrun_moveAvailable (k : Ikcpcb) (segs : List Ikcpseg) :
    (k.moveAvailable segs).overrun = k.overrun := by
  obtain ⟨_, _, -, heq, -⟩ := moveAvailable_eq k segs
  rw [heq]

theorem overrun_recv (k : Ikcpcb) (len : ℕ) : (k.recv len).1.overrun = k.overrun := by
  rw [Ikcpcb.recv]
  dsimp only
  split_ifs
  · rfl
  · exact overrun_moveAvailable _ _
  · exact overrun_moveAvailable _ _

theorem overrun_inputPush (k : Ikcpcb) (seg : Ikcpseg) :
    (k.inputPush seg).overrun = k.overrun := by
  rw [inputPush]
  split_ifs
  · rw [parseData]
    split_ifs
    · rfl
    · exact overrun_moveAvailable _ _
  · rfl
  · rfl

theorem overrun_inputAck (k : Ikcpcb) (seg : Ikcpseg) : (k.inputAck seg).overrun = k.overrun := by
  have hparse : ∀ k : Ikcpcb, (k.parseAck seg.sn).shrinkBuf.overrun = k.overrun := by
    intro k
    rw [parseAck]
    split_ifs <;> rfl
  have hupdate : ∀ rtt : Int32, (k.updateAck rtt).overrun = k.overrun := by
    intro rtt
    rw [updateAck]
    split_ifs <;> rfl
  rw [inputAck]
  split_ifs
  · exact (hparse _).trans (hupdate _)
  · exact hparse k

theorem overrun_input (k : Ikcpcb) (d : List UInt8) : (k.input d).1.overrun = k.overrun := by
  refine input_induction (P := fun k' ↦ k'.overrun = k.overrun) rfl ?_ ?_ ?_
  · rintro seg - k' - - h
    have hune : (k'.inputUna seg).overrun = k.overrun := h
    rw [inputSegment_eq]
    split_ifs
    · exact (overrun_inputAck _ _).trans hune
    · exact (overrun_inputPush _ _).trans hune
    · exact hune
    · exact hune
  · intro k' sn h
    rw [parseFastack]
    split_ifs <;> exact h
  · intro k' una h
    rw [growWindow]
    dsimp only
    split_ifs <;> exact h

/-! ## The invariant -/

theorem Intact.send (h : k.Intact) (data : List UInt8) : (k.send data).1.Intact :=
  h.same (settings_send k data) (h.holds.send h.stream (Nat.min_le_left _ _)) (overrun_send k data)

theorem Intact.recv (h : k.Intact) (len : ℕ) : (k.recv len).1.Intact :=
  h.same (settings_recv k len) (h.holds.recv len) (overrun_recv k len)

/-- The other end may send anything: what it sends is not put out again. -/
theorem Intact.input (h : k.Intact) (d : List UInt8) : (k.input d).1.Intact :=
  h.same (settings_input k d) (h.holds.input d) (overrun_input k d)

theorem Intact.flush (h : k.Intact) : k.flush.1.Intact := by
  obtain ⟨hholds, -, hroom⟩ := h.holds.flush
  exact h.same (settings_flush k) hholds ((hroom (Nat.le_of_eq h.matching)).2 h.roomy)

theorem Intact.update (h : k.Intact) (now : UInt32) : (k.update now).1.Intact := by
  obtain ⟨hholds, -, hroom⟩ := h.holds.update now
  exact h.same (settings_update k now) hholds ((hroom (Nat.le_of_eq h.matching)).2 h.roomy)

/-- **The block that is allocated for an MTU** is three times as large. -/
theorem roomy_of_lt {mtu : ℤ} (hlow : 50 ≤ mtu) (hhigh : (mtu + overhead) * 3 < 2 ^ 32) :
    Roomy (toUInt32 mtu) := by
  obtain ⟨n, rfl⟩ := Int.eq_ofNat_of_zero_le (Int.le_trans (by decide) hlow)
  rw [overhead] at hhigh
  have hnat : (toUInt32 n).toNat = n := toNat_toUInt32 (by omega)
  have hsize : (blockSize (toUInt32 n)).toNat = (n + overhead) * 3 := by
    rw [blockSize, UInt32.toNat_mul, UInt32.toNat_add, hnat, overhead]
    show (n + 24) % 4294967296 * 3 % 4294967296 = (n + 24) * 3
    omega
  rw [Roomy, hnat, hsize]
  omega

theorem Intact.apply {s : Setting} (h : k.Intact) (hroom : s.LeavesRoom k) :
    (s.apply k).Intact := by
  have hholds := h.holds.apply s
  cases s with
  | nodelay nd interval resend nc =>
    revert hholds
    rw [Setting.apply, setNodelay]
    split_ifs <;> exact fun hholds ↦ ⟨h.stream, h.matching, h.roomy, hholds, h.overrun⟩
  | wndsize sndwnd rcvwnd =>
    revert hholds
    rw [Setting.apply, wndsize]
    split_ifs <;> exact fun hholds ↦ ⟨h.stream, h.matching, h.roomy, hholds, h.overrun⟩
  | setInterval interval => exact ⟨h.stream, h.matching, h.roomy, hholds, h.overrun⟩
  | setMtu mtu =>
    rw [Setting.apply, setMtu]
    split_ifs with hsmall
    · exact h
    · obtain ⟨h50, -⟩ := not_or.mp hsmall
      obtain ⟨hfits, hsize⟩ := hroom.resolve_left h50
      have hlow := Int.not_lt.mp h50
      obtain ⟨hmtu, hmss⟩ := toNat_mtu hlow (by rw [overhead] at hsize; omega)
      have hlen : ∀ seg ∈ k.sndQueue ++ k.sndBuf,
          seg.data.length ≤ (toUInt32 mtu - UInt32.ofNat overhead).toNat := by
        intro seg hseg
        have := hfits seg hseg
        rw [hmss]
        omega
      refine ⟨h.stream, ?_, roomy_of_lt hlow hsize, ⟨fun seg hseg ↦ ?_, fun seg hseg ↦ ?_⟩,
        h.overrun⟩
      · show overhead + (toUInt32 mtu - UInt32.ofNat overhead).toNat = (toUInt32 mtu).toNat
        rw [hmss, overhead]
        omega
      · exact hlen seg (List.mem_append_left _ hseg)
      · obtain ⟨hconv, hcmd, -⟩ := h.holds.sndBuf seg hseg
        exact ⟨hconv, hcmd, hlen seg (List.mem_append_right _ hseg)⟩

end Ikcpcb

end Knet.Kcp
