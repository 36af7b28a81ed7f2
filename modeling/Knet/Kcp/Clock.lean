import Knet.Kcp.Settings

/-!
# When to call `ikcp_update`

`ikcp_update` may be called as often as one likes, and `ikcp_check` tells when the next call is
needed. **Before that time `ikcp_update` does nothing**, and the time of the next flush is not
missed (`update_before_check`). **Between two flushes lies the interval** (`update_again`).

The time is a counter of 32 bits that wraps around.
-/

namespace Knet.Kcp

namespace Ikcpcb

variable {k : Ikcpcb} {now t : UInt32}

/-- How far `t` lies behind `now`. -/
def ahead (now t : UInt32) : ℕ := Serial.offset now.toBitVec t.toBitVec

theorem itimediff_self (t : UInt32) : itimediff t t = 0 := by
  rw [itimediff, Serial.diff, sub_self]
  exact BitVec.toInt_zero

theorem ahead_self (t : UInt32) : ahead t t = 0 := Serial.offset_eq_zero_iff.mpr rfl

theorem ahead_add (t d : UInt32) : ahead t (t + d) = d.toNat := Serial.offset_add_self _ _

theorem itimediff_ahead {s t : UInt32} (hs : ahead now s < 2 ^ 31) (ht : ahead now t < 2 ^ 31) :
    itimediff s t = (ahead now s : ℤ) - ahead now t :=
  Serial.diff_eq_offset_sub (by rw [← ahead]; omega) (by rw [← ahead]; omega)

theorem ahead_of_itimediff {t : UInt32} (hlow : -10000 ≤ itimediff now t)
    (hhigh : itimediff now t < 0) : (ahead now t : ℤ) = -itimediff now t := by
  have hsub : t.toBitVec - now.toBitVec = -(now.toBitVec - t.toBitVec) := (neg_sub _ _).symm
  have hneg : itimediff t now = -itimediff now t := by
    rw [itimediff, itimediff, Serial.diff, Serial.diff, hsub, BitVec.toInt_neg]
    rw [itimediff, Serial.diff] at hlow hhigh
    exact Int.bmod_eq_of_le_mul_two (by push_cast; omega) (by push_cast; omega)
  have hahead : itimediff t now = ahead now t := Serial.diff_eq_offset (by
    rw [← itimediff, hneg]
    omega)
  rw [← hahead, hneg]

/-! ## What `ikcp_update` decides -/

/-- The object with the time noted. The first call starts the clock. -/
def noted (k : Ikcpcb) (now : UInt32) : Ikcpcb :=
  if k.updated = 0 then { k with current := now, updated := 1, tsFlush := now }
  else { k with current := now }

/-- The time of the flush behind the one that is due now, if one is. -/
def afterFlush (k : Ikcpcb) (now : UInt32) : Option UInt32 :=
  let slap := itimediff now k.tsFlush
  let far := 10000 ≤ slap ∨ slap < -10000
  let start := if far then now else k.tsFlush
  if far ∨ 0 ≤ slap then
    some (if 0 ≤ itimediff now (start + k.interval) then now + k.interval else start + k.interval)
  else none

theorem update_eq (k : Ikcpcb) (now : UInt32) :
    k.update now = match (k.noted now).afterFlush now with
      | some tsFlush => ({ k.noted now with tsFlush := tsFlush } : Ikcpcb).flush
      | none => (k.noted now, []) := by
  have hnoted : (if ({ k with current := now } : Ikcpcb).updated = 0 then
      { k with current := now, updated := 1, tsFlush := now } else { k with current := now })
        = k.noted now := rfl
  rw [update]
  dsimp only at hnoted ⊢
  rw [hnoted, afterFlush]
  generalize itimediff now (k.noted now).tsFlush = slap
  by_cases hfar : 10000 ≤ slap ∨ slap < -10000
  · have hgo : (10000 ≤ slap ∨ slap < -10000) ∨ 0 ≤ slap := .inl hfar
    rw [if_pos hfar, if_pos hfar, if_pos hgo, if_pos hgo]
  · rw [if_neg hfar, if_neg hfar]
    by_cases hdue : 0 ≤ slap
    · have hgo : (10000 ≤ slap ∨ slap < -10000) ∨ 0 ≤ slap := .inr hdue
      rw [if_pos hgo, if_pos hgo]
    · have hno : ¬((10000 ≤ slap ∨ slap < -10000) ∨ 0 ≤ slap) := not_or.mpr ⟨hfar, hdue⟩
      rw [if_neg hno, if_neg hno]

/-- **Nothing happens before the time of the next flush.** -/
theorem update_early (hupd : k.updated ≠ 0) (hlow : -10000 ≤ itimediff t k.tsFlush)
    (hhigh : itimediff t k.tsFlush < 0) : k.update t = ({ k with current := t }, []) := by
  have hnoted : k.noted t = { k with current := t } := if_neg hupd
  have hnot : ¬((10000 ≤ itimediff t k.tsFlush ∨ itimediff t k.tsFlush < -10000)
      ∨ 0 ≤ itimediff t k.tsFlush) := by omega
  have hnone : ({ k with current := t } : Ikcpcb).afterFlush t = none := if_neg hnot
  rw [update_eq, hnoted, hnone]

/-! ## What `ikcp_check` tells -/

theorem nextResend_pos {tmPacket : ℤ} {segs : List Ikcpseg} {d : ℤ} (hpos : 0 < tmPacket)
    (h : nextResend now tmPacket segs = some d) : 0 < d := by
  induction segs generalizing tmPacket with
  | nil => exact Option.some.inj h ▸ hpos
  | cons seg segs ih =>
    rw [nextResend] at h
    split_ifs at h with hdue hmin
    · exact ih (by omega) h
    · exact ih hpos h

/-- **What `ikcp_check` tells**: the present time, or a later one up to the time of the next
flush. -/
theorem check_cases (k : Ikcpcb) (now : UInt32) :
    k.check now = now ∨ k.updated ≠ 0 ∧ -10000 ≤ itimediff now k.tsFlush
      ∧ itimediff now k.tsFlush < 0 ∧ ahead now (k.check now) ≤ ahead now k.tsFlush := by
  by_cases hupd : k.updated = 0
  · exact .inl (if_pos hupd)
  rw [check, if_neg hupd]
  dsimp only
  by_cases hfar : 10000 ≤ itimediff now k.tsFlush ∨ itimediff now k.tsFlush < -10000
  · rw [if_pos hfar, itimediff_self]
    exact .inl (if_pos (Int.le_refl 0))
  rw [if_neg hfar]
  by_cases hslap : 0 ≤ itimediff now k.tsFlush
  · exact .inl (if_pos hslap)
  rw [if_neg hslap]
  have hflush := @ahead_of_itimediff now k.tsFlush (by omega) (by omega)
  cases hnext : nextResend now 0x7fffffff k.sndBuf with
  | none => exact .inl rfl
  | some tmPacket =>
    refine .inr ⟨hupd, by omega, by omega, ?_⟩
    have hpos := nextResend_pos (by decide) hnext
    have hfuture : itimediff k.tsFlush now = ahead now k.tsFlush := by
      have hzero : ahead now now = 0 := ahead_self now
      rw [@itimediff_ahead now _ _ (by omega) (by omega), hzero]
      omega
    obtain ⟨n, hn, hle⟩ : ∃ n : ℕ, (if tmPacket < itimediff k.tsFlush now then tmPacket
        else itimediff k.tsFlush now) = n ∧ n ≤ ahead now k.tsFlush := by
      refine ⟨(if tmPacket < itimediff k.tsFlush now then tmPacket
        else itimediff k.tsFlush now).toNat, ?_, ?_⟩
      · split_ifs <;> omega
      · split_ifs <;> omega
    have hnat : (toUInt32 n).toNat = n := toNat_toUInt32 (by omega)
    dsimp only
    rw [hn, ahead_add]
    split_ifs with hinterval
    · exact (UInt32.le_iff_toNat_le.mp hinterval).trans (hnat.trans_le hle)
    · exact hnat.trans_le hle

/-- **Before the time that `ikcp_check` tells, `ikcp_update` does nothing** but note the time: no
datagram goes out, and no segment is numbered or counted. The time told is not later than that of
the next flush, which is therefore not missed. -/
theorem update_before_check (k : Ikcpcb) (now : UInt32) :
    (∀ t, ahead now t < ahead now (k.check now) → k.update t = ({ k with current := t }, []))
      ∧ (k.check now ≠ now → ahead now (k.check now) ≤ ahead now k.tsFlush) := by
  rcases k.check_cases now with heq | ⟨hupd, hlow, hhigh, hle⟩
  · rw [heq, ahead_self]
    exact ⟨fun t ht ↦ absurd ht (Nat.not_lt_zero _), fun h ↦ absurd rfl h⟩
  · refine ⟨fun t ht ↦ ?_, fun _ ↦ hle⟩
    have hflush := ahead_of_itimediff hlow hhigh
    have hdiff : itimediff t k.tsFlush = (ahead now t : ℤ) - ahead now k.tsFlush :=
      itimediff_ahead (by omega) (by omega)
    exact update_early hupd (by omega) (by omega)

/-- A flush is due at 100, and 70 is before it, so nothing happens. -/
theorem update_before_check_early :
    ((create 7).update 0).1.check 30 = 100
      ∧ ((create 7).update 0).1.update 70 = ({ ((create 7).update 0).1 with current := 70 }, []) :=
  ⟨rfl, (update_before_check ((create 7).update 0).1 30).1 70 (by decide)⟩

/-! ## The interval -/

theorem clock_flush (k : Ikcpcb) : k.flush.1.tsFlush = k.tsFlush ∧ k.flush.1.updated = k.updated
    ∧ k.flush.1.current = k.current := by
  have hmoved : k.moved.tsFlush = k.tsFlush ∧ k.moved.updated = k.updated
      ∧ k.moved.current = k.current := by
    obtain ⟨_, _, _, heq, -⟩ := moveQueued_eq k.probeWindow.sendWindow
      { k.probeWindow with acklist := [], probe := 0 } k.probeWindow.sndQueue
    rw [moved, heq, probeWindow]
    dsimp only
    split_ifs <;> exact ⟨rfl, rfl, rfl⟩
  have hadjust : ∀ (k : Ikcpcb) (cwnd : UInt32) (lost change : Bool),
      (k.adjustWindow cwnd lost change).tsFlush = k.tsFlush
        ∧ (k.adjustWindow cwnd lost change).updated = k.updated
        ∧ (k.adjustWindow cwnd lost change).current = k.current := by
    intro k cwnd lost change
    rw [adjustWindow]
    dsimp only
    split_ifs <;> exact ⟨rfl, rfl, rfl⟩
  rw [flush]
  split_ifs
  · exact ⟨rfl, rfl, rfl⟩
  · exact ⟨(hadjust _ _ _ _).1.trans hmoved.1, (hadjust _ _ _ _).2.1.trans hmoved.2.1,
      (hadjust _ _ _ _).2.2.trans hmoved.2.2⟩

/-- **The next flush is still to come, and near.** -/
theorem afterFlush_spec (hpos : 0 < k.interval.toNat) (hinterval : k.interval.toNat ≤ 10000) :
    ∃ tsFlush, (k.afterFlush now).getD k.tsFlush = tsFlush
      ∧ itimediff now tsFlush < 0 ∧ -10000 ≤ itimediff now tsFlush := by
  have hnext : itimediff now (now + k.interval) = -(k.interval.toNat : ℤ) := by
    have hdiff := @itimediff_ahead now now (now + k.interval)
      (by rw [ahead_self]; decide) (by rw [ahead_add]; omega)
    rw [ahead_self, ahead_add] at hdiff
    omega
  rw [afterFlush]
  by_cases hfar : 10000 ≤ itimediff now k.tsFlush ∨ itimediff now k.tsFlush < -10000
  · have hgo : (10000 ≤ itimediff now k.tsFlush ∨ itimediff now k.tsFlush < -10000)
        ∨ 0 ≤ itimediff now k.tsFlush := .inl hfar
    rw [if_pos hfar, if_pos hgo, ite_self, Option.getD_some]
    exact ⟨_, rfl, by omega, by omega⟩
  · rw [if_neg hfar]
    by_cases hdue : 0 ≤ itimediff now k.tsFlush
    · have hgo : (10000 ≤ itimediff now k.tsFlush ∨ itimediff now k.tsFlush < -10000)
          ∨ 0 ≤ itimediff now k.tsFlush := .inr hdue
      have hshift : itimediff now (k.tsFlush + k.interval)
          = itimediff now k.tsFlush - k.interval.toNat := by
        have hself := ahead_self k.tsFlush
        have hnow : itimediff now k.tsFlush = ahead k.tsFlush now := Serial.diff_eq_offset hdue
        have hdiff := @itimediff_ahead k.tsFlush now (k.tsFlush + k.interval)
          (by omega) (by rw [ahead_add]; omega)
        rw [hdiff, ahead_add, hnow]
      rw [if_pos hgo, Option.getD_some]
      split_ifs with hlate
      · exact ⟨_, rfl, by omega, by omega⟩
      · exact ⟨_, rfl, by omega, by omega⟩
    · have hno : ¬((10000 ≤ itimediff now k.tsFlush ∨ itimediff now k.tsFlush < -10000)
          ∨ 0 ≤ itimediff now k.tsFlush) := not_or.mpr ⟨hfar, hdue⟩
      rw [if_neg hno, Option.getD_none]
      exact ⟨_, rfl, by omega, by omega⟩

/-- **A second call at the same time does nothing**: two flushes by `ikcp_update` are never at the
same time. -/
theorem update_again (k : Ikcpcb) (now : UInt32) (hpos : 0 < k.interval.toNat)
    (hinterval : k.interval.toNat ≤ 10000) :
    (k.update now).1.update now = ((k.update now).1, []) := by
  have hnoted : (k.noted now).updated ≠ 0 ∧ (k.noted now).interval = k.interval
      ∧ (k.noted now).current = now := by
    rw [noted]
    split_ifs with hupd
    · exact ⟨(by decide : (1 : UInt32) ≠ 0), rfl, rfl⟩
    · exact ⟨hupd, rfl, rfl⟩
  obtain ⟨hupd, hsame, hcurrent⟩ := hnoted
  obtain ⟨tsFlush, heq, hhigh, hlow⟩ :=
    @afterFlush_spec (k.noted now) now (by rwa [hsame]) (by rwa [hsame])
  have hclock : (k.update now).1.tsFlush = tsFlush ∧ (k.update now).1.updated ≠ 0
      ∧ (k.update now).1.current = now := by
    rw [update_eq]
    cases hafter : (k.noted now).afterFlush now with
    | none =>
      rw [hafter] at heq
      exact ⟨heq, hupd, hcurrent⟩
    | some ts =>
      obtain ⟨hflush, hupd', hcur⟩ := clock_flush { k.noted now with tsFlush := ts }
      rw [hafter] at heq
      dsimp only
      rw [hflush, hupd', hcur]
      exact ⟨heq, hupd, hcurrent⟩
  generalize (k.update now).1 = k' at hclock
  obtain ⟨rfl, hupd', hcur⟩ := hclock
  rw [update_early hupd' hlow hhigh, ← hcur]

theorem update_again_create :
    ((create 7).update 5).1.update 5 = (((create 7).update 5).1, []) :=
  update_again (create 7) 5 (by decide) (by decide)

end Ikcpcb

end Knet.Kcp
