import Knet.Tcp.Socket
import Mathlib.Algebra.Ring.Int.Defs

/-!
# What `msend` accepts and what it answers

`mpush` walks through the arguments of `msend`. Each call of `write_data` appends one argument and
returns the size of the whole buffer in 32 bits; the walk ends where that is `0`, and the answer of
`msend` is the sum of the sizes. The arguments behind the end of the walk are dropped, and what an
argument finds in the buffer is counted again with it.
-/

namespace Knet.Tcp

/-- The bytes of some arguments, one after the other. -/
def payload (args : List Arg) : List UInt8 := (args.map Arg.bytes).flatten

@[simp] theorem payload_nil : payload [] = [] := rfl

@[simp] theorem payload_cons (arg : Arg) (rest : List Arg) :
    payload (arg :: rest) = arg.bytes ++ payload rest := rfl

/-- The arguments that a buffer of `n` bytes gets. A null pointer ends the walk, and so does an
argument that brings the size of the buffer to a multiple of `2 ^ 32`. -/
def written (n : ℕ) : List Arg → List Arg
  | [] => []
  | .cstr none :: _ => []
  | arg :: rest =>
    arg :: if 2 ^ 32 ∣ n + arg.bytes.length then [] else written (n + arg.bytes.length) rest

/-- The sizes at which the arguments find the buffer, summed up, when the first finds `n` bytes. -/
def found (n : ℕ) : List Arg → ℕ
  | [] => 0
  | arg :: rest => n + found (n + arg.bytes.length) rest

theorem written_cons {arg : Arg} (hnull : arg ≠ .cstr none) (n : ℕ) (rest : List Arg) :
    written n (arg :: rest)
      = arg :: if 2 ^ 32 ∣ n + arg.bytes.length then []
        else written (n + arg.bytes.length) rest := by
  rw [written]
  exact hnull

theorem writeData_of_ne {arg : Arg} (hnull : arg ≠ .cstr none) (sendBuffer : List UInt8) :
    writeData sendBuffer arg
      = (sendBuffer ++ arg.bytes, (sendBuffer ++ arg.bytes).length % 2 ^ 32) := by
  unfold writeData
  split
  · exact absurd rfl hnull
  · rfl

theorem enqueued_eq_payload (n : ℕ) (args : List Arg) :
    enqueued n args = payload (written n args) := by
  induction args generalizing n with
  | nil => rfl
  | cons arg rest ih =>
    by_cases hnull : arg = .cstr none
    · subst hnull
      rfl
    · rw [enqueued_cons hnull, written_cons hnull, payload_cons, List.append_right_inj]
      by_cases hdvd : 2 ^ 32 ∣ n + arg.bytes.length
      · rw [if_pos hdvd, if_neg (by omega), payload_nil]
      · rw [if_neg hdvd, if_pos (by omega), ih]

/-- The sum that `mpush` returns: the bytes of the arguments, and for each argument the bytes that
were there before it. -/
theorem mpush_snd (sendBuffer : List UInt8) (args : List Arg) :
    (mpush sendBuffer args).2
      = (found sendBuffer.length (written sendBuffer.length args)
        + (payload (written sendBuffer.length args)).length) % 2 ^ 32 := by
  induction args generalizing sendBuffer with
  | nil => rfl
  | cons arg rest ih =>
    by_cases hnull : arg = .cstr none
    · subst hnull
      rfl
    · rw [mpush, writeData_of_ne hnull, written_cons hnull, found, payload_cons]
      simp only [List.length_append]
      by_cases hdvd : 2 ^ 32 ∣ sendBuffer.length + arg.bytes.length
      · rw [if_pos hdvd, if_neg (by omega), found, payload_nil, List.length_nil]
        dsimp only
        omega
      · rw [if_neg hdvd, if_pos (by omega), ih, List.length_append]
        dsimp only
        omega

theorem toInt32_lt (n : ℕ) : toInt32 n < 2 ^ 31 := by
  have h := @Int.bmod_lt n (2 ^ 32) (by omega)
  unfold toInt32
  omega

theorem toInt32_emod (n : ℕ) : toInt32 n % 2 ^ 32 = n % 2 ^ 32 := by
  unfold toInt32
  exact Int.bmod_emod

/-- A sum read as `int32_t` is one of its terms exactly when the other vanishes in 32 bits and the
term is in range. -/
theorem toInt32_add_eq_iff {f e : ℕ} :
    toInt32 ((f + e) % 2 ^ 32) = e ↔ 2 ^ 32 ∣ f ∧ e < 2 ^ 31 := by
  constructor
  · intro h
    have hrange := toInt32_lt ((f + e) % 2 ^ 32)
    have hmod := toInt32_emod ((f + e) % 2 ^ 32)
    rw [h] at hrange hmod
    omega
  · rintro ⟨⟨k, rfl⟩, he⟩
    rw [show (2 ^ 32 * k + e) % 2 ^ 32 = e by omega]
    exact toInt32_of_lt he

namespace TcpSocket

/-- `msend` reports what it did: its answer is the number of bytes it has appended, and no negative
answer is given when there are any. -/
def Reports (s : TcpSocket) (args : List Arg) : Prop :=
  ∃ (bytes : List UInt8) (answer : ℤ),
    (s.msend args).sendBuffer = s.sendBuffer ++ bytes
      ∧ (s.msend args).results = s.results ++ [answer]
      ∧ answer = bytes.length ∧ (answer < 0 → bytes = [])

/-- When the sum of the sizes is the number of bytes: what the arguments find in the buffer vanishes
in 32 bits, and their bytes can be counted in 31. -/
def CountsOnce (n : ℕ) (args : List Arg) : Prop :=
  2 ^ 32 ∣ found n (written n args) ∧ (payload (written n args)).length < 2 ^ 31

instance (n : ℕ) (args : List Arg) : Decidable (CountsOnce n args) :=
  inferInstanceAs (Decidable (_ ∧ _))

variable {s : TcpSocket}

theorem sendBuffer_msend (hopen : s.isOpen = true) (args : List Arg) :
    (s.msend args).sendBuffer = s.sendBuffer ++ enqueued s.sendBuffer.length args := by
  rw [msend, if_pos hopen]
  exact mpush_fst s.sendBuffer args

theorem results_msend (hopen : s.isOpen = true) (args : List Arg) :
    (s.msend args).results = s.results ++ [toInt32 (mpush s.sendBuffer args).2] := by
  rw [msend, if_pos hopen]

/-- `msend` keeps all of its arguments exactly when no append brings the buffer to a multiple of
`2 ^ 32` bytes before the last byte is in it. -/
theorem keepsAll_iff {args : List Arg} (hopen : s.isOpen = true)
    (hnull : ∀ a ∈ args, a ≠ .cstr none) :
    (s.msend args).sendBuffer = s.sendBuffer ++ payload args
      ↔ Uncut s.sendBuffer.length args := by
  rw [sendBuffer_msend hopen, List.append_right_inj]
  exact enqueued_eq_iff hnull _

theorem reports_iff (hopen : s.isOpen = true) (args : List Arg) :
    s.Reports args ↔ CountsOnce s.sendBuffer.length args := by
  have hbuf := sendBuffer_msend hopen args
  have hres := results_msend hopen args
  rw [enqueued_eq_payload] at hbuf
  rw [mpush_snd] at hres
  rw [CountsOnce, ← toInt32_add_eq_iff]
  constructor
  · rintro ⟨bytes, answer, hbytes, hanswer, hcount, -⟩
    obtain rfl := List.append_cancel_left (hbuf.symm.trans hbytes)
    obtain rfl := List.singleton_inj.mp (List.append_cancel_left (hres.symm.trans hanswer))
    exact hcount
  · intro hcount
    refine ⟨_, _, hbuf, hres, hcount, fun hneg ↦ ?_⟩
    rw [hcount] at hneg
    omega

theorem found_eq_zero_iff {n : ℕ} (hn : 0 < n) {args : List Arg} :
    found n args = 0 ↔ args = [] := by
  cases args with
  | nil => exact iff_of_true rfl rfl
  | cons arg rest =>
    rw [found]
    exact iff_of_false (by omega) (List.cons_ne_nil arg rest)

/-- Within 32 bits the count is right for one argument on an empty buffer only, or when nothing is
appended. -/
theorem countsOnce_iff_of_lt {n : ℕ} {args : List Arg} (hfound : found n (written n args) < 2 ^ 32)
    (hsize : n + (payload (written n args)).length < 2 ^ 31) :
    CountsOnce n args ↔ written n args = [] ∨ n = 0 ∧ (written n args).length = 1 := by
  have hzero : CountsOnce n args ↔ found n (written n args) = 0 := by
    rw [CountsOnce]
    omega
  rw [hzero]
  cases args with
  | nil => simp [written, found]
  | cons arg rest =>
    by_cases hnull : arg = .cstr none
    · subst hnull
      simp [written, found]
    · rw [written_cons hnull] at hfound hsize ⊢
      rw [found, Nat.add_eq_zero_iff]
      simp only [reduceCtorEq, List.length_cons, false_or, Nat.add_eq_right,
        List.length_eq_zero_iff]
      refine and_congr_right fun hn ↦ ?_
      by_cases hdvd : 2 ^ 32 ∣ n + arg.bytes.length
      · rw [if_pos hdvd]
        exact iff_of_true rfl rfl
      · -- an argument that is followed by another has brought the buffer to a positive size
        rw [if_neg hdvd]
        exact found_eq_zero_iff (by omega)

end TcpSocket

end Knet.Tcp
