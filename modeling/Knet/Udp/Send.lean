import Knet.Tcp.Msend
import Mathlib.Algebra.Ring.Int.Defs

/-!
# Sending over UDP

`UdpConnection::msend` gathers its arguments in a buffer of its own and sends them as one datagram.
Each level of the recursion in `mpush` adds the size of its argument to what the levels below it
return, and the last of them, which sends, returns the size of the whole datagram already.

The additions are those of `int32_t`, with no result where they overflow, and a null pointer has no
`std::string` made of it.
-/

namespace Knet.Udp

open Knet.Tcp (Arg payload toInt32)

/-- What sending reads and writes of a connection. -/
structure Outlet where
  /-- Whether `udp_socket` is set. -/
  udpSocket : Bool
  /-- The datagrams passed to `async_send_to`. -/
  sent : List (List UInt8) := []
  deriving DecidableEq, Repr

/-- `ret + rst`, where it does not overflow. -/
def addInt32 (ret rst : ℤ) : Option ℤ :=
  if -2 ^ 31 ≤ ret + rst ∧ ret + rst < 2 ^ 31 then some (ret + rst) else none

/-- `write_data`: the buffer after the append, and the size of the argument. -/
def writeData (sndBuf : List UInt8) : Arg → Option (List UInt8 × ℤ)
  | .cstr none => none
  | arg => some (sndBuf ++ arg.bytes, toInt32 arg.bytes.length)

theorem writeData_of_ne {arg : Arg} (hnull : arg ≠ .cstr none) (sndBuf : List UInt8) :
    writeData sndBuf arg = some (sndBuf ++ arg.bytes, toInt32 arg.bytes.length) := by
  unfold writeData
  split
  · exact absurd rfl hnull
  · rfl

theorem writeData_eq_some {arg : Arg} {sndBuf buf : List UInt8} {ret : ℤ}
    (h : writeData sndBuf arg = some (buf, ret)) :
    arg ≠ .cstr none ∧ buf = sndBuf ++ arg.bytes ∧ ret = toInt32 arg.bytes.length := by
  by_cases hnull : arg = .cstr none
  · subst hnull
    exact absurd h (Option.some_ne_none _).symm
  · rw [writeData_of_ne hnull, Option.some.injEq, Prod.mk.injEq] at h
    exact ⟨hnull, h.1.symm, h.2.symm⟩

theorem addInt32_eq_some {ret rst answer : ℤ} (h : addInt32 ret rst = some answer) :
    answer = ret + rst ∧ answer < 2 ^ 31 := by
  rw [addInt32] at h
  split_ifs at h with hrange
  obtain rfl := Option.some.inj h
  exact ⟨rfl, hrange.2⟩

namespace Outlet

/-- `mpush` without arguments: the datagram is sent. -/
def flush (c : Outlet) (sndBuf : List UInt8) : Outlet × ℤ :=
  if c.udpSocket then
    if sndBuf ≠ [] then ({ c with sent := c.sent ++ [sndBuf] }, toInt32 sndBuf.length) else (c, 0)
  else (c, -1)

/-- `mpush`. -/
def mpush (c : Outlet) (sndBuf : List UInt8) : List Arg → Option (Outlet × ℤ)
  | [] => some (c.flush sndBuf)
  | data :: rest => do
    let (sndBuf, ret) ← writeData sndBuf data
    let (c, rst) ← c.mpush sndBuf rest
    if rst < 0 then some (c, -1) else some (c, ← addInt32 ret rst)

/-- `msend`. -/
def msend (c : Outlet) (args : List Arg) : Option (Outlet × ℤ) := c.mpush [] args

/-- `msend` reports what it did: one datagram of all the arguments is on its way, or none when they
are empty, and the answer is its length. -/
def Reports (c : Outlet) (args : List Arg) : Prop :=
  ∃ answer : ℤ, c.msend args
      = some ({ c with sent := c.sent ++ if payload args = [] then [] else [payload args] }, answer)
    ∧ answer = (payload args).length ∧ (answer < 0 → payload args = [])

variable {c : Outlet}

theorem mpush_cons_eq_some {sndBuf : List UInt8} {data : Arg} {rest : List Arg} {c' : Outlet}
    {answer : ℤ} (h : c.mpush sndBuf (data :: rest) = some (c', answer)) :
    data ≠ .cstr none ∧ ∃ rst, c.mpush (sndBuf ++ data.bytes) rest = some (c', rst)
      ∧ (rst < 0 ∧ answer = -1
        ∨ 0 ≤ rst ∧ answer = toInt32 data.bytes.length + rst ∧ answer < 2 ^ 31) := by
  simp only [mpush, Option.bind_eq_bind, Option.bind_eq_some_iff, Prod.exists] at h
  obtain ⟨buf, ret, hwrite, d, rst, hrest, h⟩ := h
  obtain ⟨hnull, rfl, hret⟩ := writeData_eq_some hwrite
  rw [← hret]
  split_ifs at h with hneg
  · obtain ⟨rfl, rfl⟩ := Prod.mk.inj (Option.some.inj h)
    exact ⟨hnull, rst, hrest, .inl ⟨hneg, rfl⟩⟩
  · obtain ⟨sum, hsum, h⟩ := Option.bind_eq_some_iff.mp h
    obtain ⟨rfl, rfl⟩ := Prod.mk.inj (Option.some.inj h)
    obtain ⟨hadd, hlt⟩ := addInt32_eq_some hsum
    exact ⟨hnull, rst, hrest, .inr ⟨by omega, hadd, hlt⟩⟩

/-- What the answer of `mpush` is in 32 bits, when it is not `-1`: the size of the datagram, and
the sizes of the arguments on top of it. -/
theorem mpush_answer (hsock : c.udpSocket = true) {sndBuf : List UInt8} {args : List Arg}
    {c' : Outlet} {answer : ℤ} (h : c.mpush sndBuf args = some (c', answer)) :
    answer < 2 ^ 31 ∧ (answer < 0 ∨ answer % 2 ^ 32
      = ((sndBuf ++ payload args).length + (payload args).length : ℤ) % 2 ^ 32) := by
  induction args generalizing sndBuf c' answer with
  | nil =>
    rw [mpush, flush, if_pos hsock, Option.some.injEq] at h
    split_ifs at h with hne
    · obtain ⟨-, rfl⟩ := Prod.mk.inj h
      refine ⟨Tcp.toInt32_lt _, .inr ?_⟩
      rw [Tcp.toInt32_emod]
      simp
    · obtain ⟨-, rfl⟩ := Prod.mk.inj h
      rw [not_not] at hne
      exact ⟨by omega, .inr (by simp [hne])⟩
  | cons data rest ih =>
    obtain ⟨-, rst, hrest, ⟨-, rfl⟩ | ⟨hpos, hadd, hlt⟩⟩ := mpush_cons_eq_some h
    · exact ⟨by omega, .inl (by omega)⟩
    · obtain ⟨-, hneg | hrst⟩ := ih hrest
      · exact absurd hpos (by omega)
      · have hret := Tcp.toInt32_emod data.bytes.length
        refine ⟨hlt, .inr ?_⟩
        simp only [Tcp.payload_cons, List.length_append, Int.natCast_add] at hrst ⊢
        omega

/-- A call that comes to an end has been given no null pointer. -/
theorem ne_null_of_mpush {sndBuf : List UInt8} {args : List Arg} {r : Outlet × ℤ}
    (h : c.mpush sndBuf args = some r) : ∀ a ∈ args, a ≠ .cstr none := by
  induction args generalizing sndBuf r with
  | nil => simp
  | cons data rest ih =>
    obtain ⟨c', answer⟩ := r
    obtain ⟨hnull, rst, hrest, -⟩ := mpush_cons_eq_some h
    rw [List.forall_mem_cons]
    exact ⟨hnull, ih hrest⟩

/-- Empty arguments leave the buffer as it is, and only its own size is returned. -/
theorem mpush_of_empty {sndBuf : List UInt8} {args : List Arg}
    (hnull : ∀ a ∈ args, a ≠ .cstr none) (hempty : payload args = [])
    (hrange : 0 ≤ (c.flush sndBuf).2 ∧ (c.flush sndBuf).2 < 2 ^ 31) :
    c.mpush sndBuf args = some (c.flush sndBuf) := by
  induction args with
  | nil => rfl
  | cons data rest ih =>
    rw [Tcp.payload_cons, List.append_eq_nil_iff] at hempty
    rw [List.forall_mem_cons] at hnull
    rw [mpush, writeData_of_ne hnull.1, hempty.1, List.append_nil]
    have hsum : addInt32 (toInt32 0) (c.flush sndBuf).2 = some (c.flush sndBuf).2 := by
      rw [addInt32, Tcp.toInt32_of_lt (by omega)]
      rw [Int.natCast_zero, Int.zero_add]
      exact if_pos ⟨by omega, hrange.2⟩
    simp only [Option.bind_eq_bind, Option.bind_some, ih hnull.2 hempty.2, List.length_nil, hsum]
    exact if_neg (by omega)

/-- **`msend` over UDP reports what it sends exactly when it has nothing to send.** -/
theorem reports_iff (hsock : c.udpSocket = true) (args : List Arg) :
    c.Reports args ↔ (∀ a ∈ args, a ≠ .cstr none) ∧ payload args = [] := by
  constructor
  · rintro ⟨answer, hcall, hlen, -⟩
    refine ⟨ne_null_of_mpush hcall, ?_⟩
    obtain ⟨hlt, hneg | hmod⟩ := mpush_answer hsock hcall
    · omega
    · rw [List.nil_append] at hmod
      exact List.length_eq_zero_iff.mp (by omega)
  · rintro ⟨hnull, hempty⟩
    have hflush : c.flush [] = (c, 0) := by simp [flush, hsock]
    refine ⟨0, ?_, ?_, fun h ↦ absurd h (by omega)⟩
    · rw [msend, mpush_of_empty hnull hempty (by simp [hflush]), hflush]
      simp [hempty]
    · simp [hempty]

end Outlet

end Knet.Udp
