import Knet.Lib.FrameFormat
import Knet.WebSocket.Upgrade

/-!
# Framing against the frame format

`get_message_length` computes the length of a frame from its head, in 64 bits. Compared with what
the frame format says: it wants to see sixteen bytes first, although a whole frame may have as few
as two; and the sum of the head and a length close to `2 ^ 64` wraps around, so that a frame that
can never arrive is taken for one of a few bytes.
-/

namespace Knet.WebSocket

open Knet.Tcp Knet.Http
open FrameFormat (Frame declared)

/-- The length found in sixteen bytes or more is the declared one in 64 bits. -/
theorem getMessageLength_declared {d : List UInt8} {n : ℕ} (h : 16 ≤ d.length)
    (hd : declared d = some n) : getMessageLength d = n % 2 ^ 64 := by
  match d, h with
  | a :: b :: rest, h =>
    have hrest : 14 ≤ rest.length := by simpa using h
    rw [getMessageLength_cons h]
    simp only [declared, Option.ite_none_right_eq_some, Option.some.injEq] at hd
    obtain ⟨-, rfl⟩ := hd
    have hmark : payloadMark b = FrameFormat.markOf b := rfl
    have hmask : maskSize b = if FrameFormat.maskedOf b then 4 else 0 := rfl
    have hmask4 : maskSize b ≤ 4 := by rw [maskSize]; split_ifs <;> omega
    rw [FrameFormat.headOf, FrameFormat.lengthOf, FrameFormat.formOf, ← hmark, ← hmask]
    split_ifs with hs hm
    · simp only [FrameFormat.Form.size]
      omega
    · have hlt := Bytes.ofBig_lt (rest.take 2)
      rw [List.length_take_of_le (by omega)] at hlt
      simp only [FrameFormat.Form.size]
      omega
    · simp only [FrameFormat.Form.size]
      omega

theorem handlePackage_declared {d : List UInt8} {n : ℕ} (h : 16 ≤ d.length)
    (hd : declared d = some n) :
    handlePackage d = if d.length < n % 2 ^ 64 then 0 else toInt32 (n % 2 ^ 64) := by
  rw [handlePackage, getMessageLength_declared h hd]

/-- A frame is found whole, and no part of it is taken for it. -/
def FramedBy (handle : List UInt8 → ℤ) (f : Frame) (tail : List UInt8) : Prop :=
  handle (f.bytes ++ tail) = f.bytes.length
    ∧ ∀ part, part <+: f.bytes → part ≠ f.bytes → handle part = 0

/-- A strict part of a frame is never taken for it. -/
theorem handlePackage_strict {f : Frame} (hfit : f.bytes.length ≤ kReadBufferSize)
    {part : List UInt8} (hpart : part <+: f.bytes) (hne : part ≠ f.bytes) :
    handlePackage part = 0 := by
  rcases Nat.lt_or_ge part.length 16 with hfew | hlen
  · exact handlePackage_few hfew
  · have hlt : part.length < f.bytes.length :=
      Nat.lt_of_le_of_ne hpart.length_le fun heq ↦ hne (hpart.eq_of_length heq)
    rw [handlePackage_declared hlen (f.declared_prefix hpart (by omega)),
      Nat.mod_eq_of_lt (Nat.lt_of_le_of_lt hfit (by decide)), if_pos hlt]

theorem framedBy_handlePackage_iff {f : Frame} (hfit : f.bytes.length ≤ kReadBufferSize)
    (tail : List UInt8) :
    FramedBy handlePackage f tail ↔ 16 ≤ (f.bytes ++ tail).length := by
  have hsmall : f.bytes.length < 2 ^ 31 := Nat.lt_of_le_of_lt hfit (by decide)
  constructor
  · rintro ⟨hfound, -⟩
    by_contra hfew
    rw [handlePackage_few (by omega), f.length_bytes, FrameFormat.length_head] at hfound
    omega
  · intro hlen
    refine ⟨?_, fun part hpart hne ↦ handlePackage_strict hfit hpart hne⟩
    rw [handlePackage_declared hlen (f.declared_append tail), Nat.mod_eq_of_lt (by omega),
      if_neg (by rw [List.length_append]; omega), toInt32_of_lt hsmall]

theorem handlePackage_eq_zero_iff {d : List UInt8} {n : ℕ} (hd : declared d = some n)
    (hlt : d.length < n) : handlePackage d = 0 ↔ d.length < 16 ∨ n ≤ 2 ^ 64 := by
  rcases Nat.lt_or_ge d.length 16 with hfew | hlen
  · exact iff_of_true (handlePackage_few hfew) (.inl hfew)
  · have hbound := FrameFormat.declared_lt hd
    rw [handlePackage_declared hlen hd, or_iff_right (by omega)]
    rcases Nat.lt_or_ge n (2 ^ 64) with hn | hn
    · rw [Nat.mod_eq_of_lt hn, if_pos hlt]
      exact iff_of_true rfl (Nat.le_of_lt hn)
    · obtain ⟨k, rfl⟩ := Nat.exists_eq_add_of_le hn
      rw [Nat.add_mod_left, Nat.mod_eq_of_lt (by omega), if_neg (by omega),
        toInt32_of_lt (by omega)]
      omega

variable {p : HttpParser} {c : WSock} {handle : List UInt8 → ℤ}

theorem handle_upgraded (hweb : c.isWebsocket = true)
    (hclass : handle = WSockConnection.handlePackage c
      ∨ handle = WSockSslConnection.handlePackage p c) : handle = handlePackage := by
  rcases hclass with rfl | rfl
  · rfl
  · funext d
    rw [WSockSslConnection.handlePackage, if_pos hweb, handlePackage]

/-- **When the framing is exact.** On an upgraded connection, with or without TLS: a frame of any
form that fits the buffer is found, and no part of it, exactly when it stands in a window of sixteen
bytes or more; and a frame that reaches behind the given bytes is waited for exactly when there are
fewer than sixteen of them or its length with the head does not exceed `2 ^ 64`. -/
theorem framing_iff (hweb : c.isWebsocket = true) (hclass : handle = WSockConnection.handlePackage c
      ∨ handle = WSockSslConnection.handlePackage p c) :
    (∀ (f : Frame) (tail : List UInt8), f.bytes.length ≤ kReadBufferSize →
        (FramedBy handle f tail ↔ 16 ≤ (f.bytes ++ tail).length))
      ∧ ∀ d n, declared d = some n → d.length < n →
        (handle d = 0 ↔ d.length < 16 ∨ n ≤ 2 ^ 64) := by
  obtain rfl := handle_upgraded hweb hclass
  exact ⟨fun f tail hfit ↦ framedBy_handlePackage_iff hfit tail,
    fun d n hd hlt ↦ handlePackage_eq_zero_iff hd hlt⟩

/-- A client that has been upgraded. -/
def upgraded : WSock := { isWebsocket := true, isPassive := false }

/-- A frame of two bytes, the next frame behind it. -/
theorem framing_short_frames :
    FramedBy (WSockConnection.handlePackage upgraded) ⟨0x89, .bits7, none, [], by decide⟩
      (List.replicate 14 0) :=
  ((framing_iff (p := ⟨fun _ _ ↦ ([], 0), fun _ ↦ none⟩) rfl (.inl rfl)).1 _ _ (by decide)).mpr
    (by decide)

/-- A frame of four bytes that stands alone is not found, and one with a payload of `2 ^ 64 - 1`
bytes is taken for a frame of nine. -/
theorem missed_and_wrapped :
    FrameFormat.declared [0x81, 2, 104, 105] = some 4
      ∧ WSockConnection.handlePackage upgraded [0x81, 2, 104, 105] = 0
      ∧ FrameFormat.declared ([0x82, 127] ++ List.replicate 14 255) = some (2 ^ 64 + 9)
      ∧ WSockConnection.handlePackage upgraded ([0x82, 127] ++ List.replicate 14 255) = 9 := by
  decide

end Knet.WebSocket
