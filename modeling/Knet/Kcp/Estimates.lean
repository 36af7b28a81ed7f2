import Knet.Kcp.Buffer
import Knet.Kcp.Windows

/-!
# Timers and thresholds

The values that steer the retransmission: the time-out, which follows the measured round trips, the
slow start threshold and the waiting time between window probes. **They stay within fixed bounds**
(`bounds_of_events`) whatever the other end acknowledges and claims, whatever round trips are
measured, and whenever the user changes a setting, so that an object neither floods the network nor
falls silent.
-/

namespace Knet.Kcp

namespace Ikcpcb

/-- The bounds. -/
structure Steered (k : Ikcpcb) : Prop where
  rto : 30 ≤ k.rxRto ∧ k.rxRto ≤ 60000
  minrto : k.rxMinrto = 30 ∨ k.rxMinrto = 100
  ssthresh : 2 ≤ k.ssthresh.toNat
  probeWait : k.probeWait = 0 ∨ 7000 ≤ k.probeWait.toNat ∧ k.probeWait.toNat ≤ 120000
  interval : 10 ≤ k.interval.toNat ∧ k.interval.toNat ≤ 5000

variable {k k' : Ikcpcb}

/-- The values that steer. -/
def steering (k : Ikcpcb) : ℤ × ℤ × UInt32 × UInt32 × UInt32 :=
  (k.rxRto, k.rxMinrto, k.ssthresh, k.probeWait, k.interval)

theorem Steered.alike (h : k.Steered) (hsame : k'.steering = k.steering) : k'.Steered := by
  obtain ⟨hrto, hrest⟩ := Prod.mk.inj hsame
  obtain ⟨hminrto, hrest⟩ := Prod.mk.inj hrest
  obtain ⟨hthresh, hrest⟩ := Prod.mk.inj hrest
  obtain ⟨hwait, hinterval⟩ := Prod.mk.inj hrest
  exact ⟨hrto ▸ h.rto, hminrto ▸ h.minrto, hthresh ▸ h.ssthresh, hwait ▸ h.probeWait,
    hinterval ▸ h.interval⟩

theorem steered_create (conv : UInt32) : (create conv).Steered where
  rto := ⟨(by decide : (30 : ℤ) ≤ 200), (by decide : (200 : ℤ) ≤ 60000)⟩
  minrto := .inr rfl
  ssthresh := Nat.le_refl 2
  probeWait := .inl rfl
  interval := ⟨(by decide : 10 ≤ (100 : UInt32).toNat), (by decide : (100 : UInt32).toNat ≤ 5000)⟩

/-! ## Bounds -/

theorem le_toNat_imax (a b : UInt32) : a.toNat ≤ (imax a b).toNat ∧ b.toNat ≤ (imax a b).toNat := by
  rw [imax]
  split_ifs with h
  · exact ⟨Nat.le_refl _, UInt32.le_iff_toNat_le.mp h⟩
  · exact ⟨Nat.le_of_lt (UInt32.lt_iff_toNat_lt.mp (UInt32.not_le.mp h)), Nat.le_refl _⟩

theorem toNat_imin (a b : UInt32) : (imin a b).toNat = min a.toNat b.toNat := by
  rw [imin]
  split_ifs with h
  · rw [Nat.min_eq_left (UInt32.le_iff_toNat_le.mp h)]
  · rw [Nat.min_eq_right (Nat.le_of_lt (UInt32.lt_iff_toNat_lt.mp (UInt32.not_le.mp h)))]

theorem toNat_ibound {lower middle upper : UInt32} (h : lower.toNat ≤ upper.toNat) :
    lower.toNat ≤ (ibound lower middle upper).toNat
      ∧ (ibound lower middle upper).toNat ≤ upper.toNat := by
  rw [ibound, toNat_imin]
  exact ⟨Nat.le_min.mpr ⟨(le_toNat_imax lower middle).1, h⟩, Nat.min_le_right _ _⟩

/-- **A measurement keeps the time-out within its bounds**, whatever was measured. -/
theorem Steered.updateAck (h : k.Steered) (rtt : Int32) : (k.updateAck rtt).Steered := by
  have hrto : ∀ middle, 30 ≤ ((ibound (toUInt32 k.rxMinrto) middle rtoMax).toNat : ℤ)
      ∧ ((ibound (toUInt32 k.rxMinrto) middle rtoMax).toNat : ℤ) ≤ 60000 := by
    intro middle
    have hmax : rtoMax.toNat = 60000 := rfl
    have hmin : 30 ≤ (toUInt32 k.rxMinrto).toNat ∧ (toUInt32 k.rxMinrto).toNat ≤ rtoMax.toNat := by
      rcases h.minrto with heq | heq <;> rw [heq] <;> decide
    have hbound := @toNat_ibound (toUInt32 k.rxMinrto) middle rtoMax hmin.2
    omega
  rw [Ikcpcb.updateAck]
  split_ifs
  · exact ⟨hrto _, h.minrto, h.ssthresh, h.probeWait, h.interval⟩
  · exact ⟨hrto _, h.minrto, h.ssthresh, h.probeWait, h.interval⟩

theorem steering_parseAck (k : Ikcpcb) (sn : UInt32) :
    (k.parseAck sn).shrinkBuf.steering = k.steering := by
  rw [Ikcpcb.parseAck]
  split_ifs <;> rfl

theorem steering_moveAvailable (k : Ikcpcb) (segs : List Ikcpseg) :
    (k.moveAvailable segs).steering = k.steering := by
  obtain ⟨_, _, -, heq, -⟩ := moveAvailable_eq k segs
  rw [heq]
  rfl

theorem steering_inputPush (k : Ikcpcb) (seg : Ikcpseg) :
    (k.inputPush seg).steering = k.steering := by
  rw [Ikcpcb.inputPush]
  split_ifs
  · rw [Ikcpcb.parseData]
    split_ifs
    · rfl
    · exact steering_moveAvailable _ _
  · rfl
  · rfl

theorem Steered.inputSegment (h : k.Steered) (seg : Ikcpseg) : (k.inputSegment seg).Steered := by
  have hune : (k.inputUna seg).Steered := h.alike rfl
  rw [inputSegment_eq]
  generalize k.inputUna seg = k₁ at hune
  split_ifs
  · rw [inputAck]
    split_ifs
    · exact (hune.updateAck _).alike (steering_parseAck _ _)
    · exact hune.alike (steering_parseAck _ _)
  · exact hune.alike (steering_inputPush _ _)
  · exact hune.alike rfl
  · exact hune

theorem Steered.input (h : k.Steered) (d : List UInt8) : (k.input d).1.Steered := by
  refine input_induction h (fun seg _ k _ _ hk ↦ hk.inputSegment seg) (fun k sn hk ↦ ?_)
    fun k prevUna hk ↦ ?_
  · rw [Ikcpcb.parseFastack]
    split_ifs
    · exact hk.alike rfl
    · exact hk
  · rw [Ikcpcb.growWindow]
    dsimp only
    split_ifs <;> exact hk.alike rfl

/-- **The waiting time between probes** grows, but not without bound. -/
theorem Steered.probeWindow (h : k.Steered) : k.probeWindow.Steered := by
  rw [Ikcpcb.probeWindow]
  dsimp only
  split_ifs
  · exact ⟨h.rto, h.minrto, h.ssthresh,
      .inr ⟨(by decide : 7000 ≤ probeInit.toNat), (by decide : probeInit.toNat ≤ 120000)⟩,
      h.interval⟩
  · refine ⟨h.rto, h.minrto, h.ssthresh, .inr ?_, h.interval⟩
    have hinit : probeInit.toNat = 7000 := rfl
    have hlimit : probeLimit.toNat = 120000 := rfl
    have hwait : (imax k.probeWait probeInit).toNat ≤ 120000 := by
      rw [imax]
      split_ifs
      · rcases h.probeWait with hzero | ⟨-, hle⟩
        · rw [hzero]
          decide
        · exact hle
      · exact Nat.le_of_lt (by rw [hinit]; decide)
    have hlow := (le_toNat_imax k.probeWait probeInit).2
    show 7000 ≤ (imin (imax k.probeWait probeInit + imax k.probeWait probeInit / 2)
        probeLimit).toNat
      ∧ (imin (imax k.probeWait probeInit + imax k.probeWait probeInit / 2) probeLimit).toNat
        ≤ 120000
    generalize imax k.probeWait probeInit = wait at hwait hlow
    have hsum : (wait + wait / 2).toNat = wait.toNat + wait.toNat / 2 := by
      rw [UInt32.toNat_add, UInt32.toNat_div]
      exact Nat.mod_eq_of_lt (by show wait.toNat + wait.toNat / 2 < 4294967296; omega)
    rw [toNat_imin, hsum, hlimit]
    omega
  · exact h
  · exact ⟨h.rto, h.minrto, h.ssthresh, .inl rfl, h.interval⟩

theorem Steered.moved (h : k.Steered) : k.moved.Steered := by
  obtain ⟨_, _, _, heq, -⟩ := moveQueued_eq k.probeWindow.sendWindow
    { k.probeWindow with acklist := [], probe := 0 } k.probeWindow.sndQueue
  rw [Ikcpcb.moved, heq]
  exact h.probeWindow.alike rfl

/-- **The slow start threshold is at least two segments.** -/
theorem Steered.adjustWindow (h : k.Steered) (cwnd : UInt32) (lost change : Bool) :
    (k.adjustWindow cwnd lost change).Steered := by
  have hthresh : ∀ x : UInt32, 2 ≤ (imax x threshMin).toNat := fun x ↦ (le_toNat_imax x threshMin).2
  rw [Ikcpcb.adjustWindow]
  dsimp only
  split_ifs <;>
    first
    | exact h.alike rfl
    | exact ⟨h.rto, h.minrto, hthresh _, h.probeWait, h.interval⟩

theorem Steered.flush (h : k.Steered) : k.flush.1.Steered := by
  rw [Ikcpcb.flush]
  split_ifs
  · exact h
  · refine Steered.adjustWindow ?_ _ _ _
    exact h.moved.alike rfl

theorem Steered.call (h : k.Steered) (c : Call) : (k.call c).Steered := by
  cases c with
  | send data =>
    refine h.alike ?_
    rw [Ikcpcb.call, Ikcpcb.send]
    dsimp only
    split_ifs <;> rfl
  | recv len =>
    refine h.alike ?_
    rw [Ikcpcb.call, Ikcpcb.recv]
    split_ifs
    · rfl
    · have hmove :=
        steering_moveAvailable { k with rcvQueue := (splitMessage k.rcvQueue).2 } k.rcvBuf
      dsimp only
      split_ifs <;> exact hmove
  | input d => exact h.input d
  | update now =>
    obtain ⟨updated, tsFlush, heq | heq⟩ := k.update_cases now
    · rw [Ikcpcb.call, heq]
      exact Steered.flush (h.alike rfl)
    · rw [Ikcpcb.call, heq]
      exact h.alike rfl
  | flush => exact h.flush

theorem Steered.ite {p : Prop} [Decidable p] (h : k.Steered) (hstep : k.Steered → k'.Steered) :
    (if p then k' else k).Steered := by
  split_ifs
  · exact hstep h
  · exact h

/-- **No setting leads out of the bounds.** -/
theorem Steered.apply (h : k.Steered) (s : Setting) : (s.apply k).Steered := by
  have hinterval : ∀ n : ℕ, 10 ≤ n → n ≤ 5000 →
      10 ≤ (UInt32.ofNat n).toNat ∧ (UInt32.ofNat n).toNat ≤ 5000 := by
    intro n hlow hhigh
    rw [UInt32.toNat_ofNat_of_lt' (Nat.lt_of_le_of_lt hhigh (by decide))]
    exact ⟨hlow, hhigh⟩
  cases s with
  | nodelay nd interval resend nc =>
    have hbound := hinterval (max 10 (min 5000 interval.toNat)) (Nat.le_max_left _ _)
      (Nat.max_le.mpr ⟨by decide, Nat.min_le_left _ _⟩)
    have hmin : (if nd ≠ 0 then (30 : ℤ) else 100) = 30
        ∨ (if nd ≠ 0 then (30 : ℤ) else 100) = 100 := by
      split_ifs
      · exact .inl rfl
      · exact .inr rfl
    refine Steered.ite (Steered.ite (Steered.ite (Steered.ite h ?_) ?_) ?_) ?_
    · exact fun h ↦ ⟨h.rto, hmin, h.ssthresh, h.probeWait, h.interval⟩
    · exact fun h ↦ ⟨h.rto, h.minrto, h.ssthresh, h.probeWait, hbound⟩
    · exact fun h ↦ h.alike rfl
    · exact fun h ↦ h.alike rfl
  | wndsize sndwnd rcvwnd =>
    rw [Setting.apply, wndsize]
    split_ifs <;> exact h.alike rfl
  | setInterval interval =>
    exact ⟨h.rto, h.minrto, h.ssthresh, h.probeWait, hinterval _ (by omega) (by omega)⟩
  | setMtu mtu =>
    rw [Setting.apply, setMtu]
    split_ifs
    · exact h
    · exact h.alike rfl

/-! ## Runs -/

/-- A call, or a setting that the user changes. -/
inductive Event
  | call (c : Call)
  | set (s : Setting)
  deriving DecidableEq, Repr

/-- The object and what happens to it. -/
def machine : StepSystem Ikcpcb Event where
  step
    | k, .call c => some (k.call c)
    | k, .set s => some (s.apply k)

/-- A setting leaves room for what waits. -/
def Event.LeavesRoom (k : Ikcpcb) : Event → Prop
  | .set s => s.LeavesRoom k
  | .call _ => True

instance decidableEventLeavesRoom (k : Ikcpcb) : ∀ x, Decidable (Event.LeavesRoom k x)
  | .set s => decidableLeavesRoom k s
  | .call _ => isTrue trivial

theorem Intact.call (h : k.Intact) (c : Call) : (k.call c).Intact := by
  cases c with
  | send data => exact h.send data
  | recv len => exact h.recv len
  | input d => exact h.input d
  | update now => exact h.update now
  | flush => exact h.flush

/-- **The time-out lies between 30 and 60000 milliseconds, the slow start threshold is at least two
segments, window probes are between 7 and 120 seconds apart, and flushes between 10 and 5000
milliseconds**, after any events that leave room for what waits and whatever bytes came in. The
buffer is as large as it has to be then. -/
theorem bounds_of_events {conv : UInt32} {events : List Event}
    (hrun : machine.run (create conv) events = some k)
    (hroom : machine.Along (fun k x ↦ x.LeavesRoom k) (create conv) events) :
    (30 ≤ k.rxRto ∧ k.rxRto ≤ 60000) ∧ 2 ≤ k.ssthresh.toNat
      ∧ (k.probeWait = 0 ∨ 7000 ≤ k.probeWait.toNat ∧ k.probeWait.toNat ≤ 120000)
      ∧ (10 ≤ k.interval.toNat ∧ k.interval.toNat ≤ 5000) ∧ k.overrun = false := by
  have hall : k.Steered ∧ k.Intact := by
    refine StepSystem.invariant_of_run (I := fun k ↦ k.Steered ∧ k.Intact)
      ⟨steered_create conv, intact_create conv⟩ ?_ hroom hrun
    rintro k x k' ⟨hsteered, hintact⟩ hstep hroom
    cases x with
    | call c =>
      obtain rfl := Option.some.inj hstep
      exact ⟨hsteered.call c, hintact.call c⟩
    | set s =>
      obtain rfl := Option.some.inj hstep
      exact ⟨hsteered.apply s, hintact.apply hroom⟩
  exact ⟨hall.1.rto, hall.1.ssthresh, hall.1.probeWait, hall.1.interval, hall.2.overrun⟩

/-- The MTU is lowered, and two acknowledgements come in with the longest round trip that an `int`
can hold. -/
def longTrip : List Event :=
  [.set (.nodelay 1 10 2 1), .set (.setMtu 60), .call (.send [1]), .call (.update 0),
    .call (.update 100),
    .call (.input (datagram
      [{ conv := 7, cmd := cmdAck, ts := 0x80000065, data := [] },
        { conv := 7, cmd := cmdAck, ts := 0x80000065, data := [] }]))]

theorem bounds_of_events_longTrip :
    ∃ k, machine.run (create 7) longTrip = some k ∧ k.rxRto = 60000
      ∧ (30 ≤ k.rxRto ∧ k.rxRto ≤ 60000) :=
  ⟨_, rfl, rfl, (@bounds_of_events _ 7 longTrip rfl (by decide)).1⟩

end Ikcpcb

end Knet.Kcp
