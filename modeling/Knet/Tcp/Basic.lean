import Knet.Lib.Memory
import Mathlib.Algebra.Group.Nat.Defs
import Mathlib.Data.Int.Basic

/-!
# Events, statuses and the arguments of `msend`

The vocabulary shared by the TCP and TLS sockets: the events a connection is told about, the status
of a socket, what a connection observes over its life, and the overload set `write_data` through
which `msend` copies its arguments into `send_buffer`.
-/

namespace Knet.Tcp

/-- The events of `NetEvent` that a socket delivers to its connection. -/
inductive NetEvent
  | connect
  | send
  | disconnect
  | release
  deriving DecidableEq, Repr

/-- `SocketStatus`, in the order of the enumeration. -/
inductive SocketStatus
  | idle
  | init
  | connecting
  | opened
  | closing
  | reconnect
  | closed
  deriving DecidableEq, Repr

/-- The value of the enumerator; `do_close` compares statuses by it. -/
def SocketStatus.code : SocketStatus → ℕ
  | .idle => 0
  | .init => 1
  | .connecting => 2
  | .opened => 3
  | .closing => 4
  | .reconnect => 5
  | .closed => 6

/-- One entry of the history of a connection object, in the order in which things happened. -/
inductive Entry
  /-- `async_read_some` completed with these bytes. -/
  | received (bytes : List UInt8)
  /-- `process_package` was called, and these are the `len` bytes it was given. -/
  | package (given : List UInt8)
  /-- `connection->process_data` was called with this package. -/
  | data (bytes : List UInt8)
  /-- `connection->process_event` was called. -/
  | event (evt : NetEvent)
  /-- `connection->handle_event` was called directly, past the user's event handler. -/
  | handled (evt : NetEvent)
  deriving DecidableEq, Repr

/-- The packages delivered in a history. -/
def delivered : List Entry → List (List UInt8)
  | [] => []
  | .data bytes :: log => bytes :: delivered log
  | _ :: log => delivered log

/-- The bytes received in a history. -/
def receivedBytes : List Entry → List UInt8
  | [] => []
  | .received bytes :: log => bytes ++ receivedBytes log
  | _ :: log => receivedBytes log

@[simp] theorem delivered_append (log log' : List Entry) :
    delivered (log ++ log') = delivered log ++ delivered log' := by
  induction log with
  | nil => rfl
  | cons e log ih => cases e <;> simp [delivered, ih]

@[simp] theorem receivedBytes_append (log log' : List Entry) :
    receivedBytes (log ++ log') = receivedBytes log ++ receivedBytes log' := by
  induction log with
  | nil => rfl
  | cons e log ih => cases e <;> simp [receivedBytes, ih]

/-! ## The arguments of `msend` -/

/-- One argument of `msend`, by the overload of `write_data` that it selects. -/
inductive Arg
  /-- A trivially copyable value, as its object representation. -/
  | value (bytes : List UInt8)
  /-- A `std::string_view`. -/
  | view (bytes : List UInt8)
  /-- A `std::string`. -/
  | str (bytes : List UInt8)
  /-- A `const char *`: null, or the characters from the pointer on. -/
  | cstr (chars : Option (List UInt8))
  deriving DecidableEq, Repr

/-- The characters before the terminator, as `strlen` and `std::string_view(data)` see them. -/
def cstring (chars : List UInt8) : List UInt8 := chars.takeWhile (· ≠ 0)

/-- The bytes an argument stands for. -/
def Arg.bytes : Arg → List UInt8
  | .value bytes => bytes
  | .view bytes => bytes
  | .str bytes => bytes
  | .cstr none => []
  | .cstr (some chars) => cstring chars

/-- `write_data`: the buffer after the append, and the `uint32_t` returned. The result is the size
of the whole buffer, not of the argument; a null pointer appends nothing and returns `0`. -/
def writeData (sendBuffer : List UInt8) : Arg → List UInt8 × ℕ
  | .cstr none => (sendBuffer, 0)
  | arg => (sendBuffer ++ arg.bytes, (sendBuffer ++ arg.bytes).length % 2 ^ 32)

/-- `mpush`: the buffer after the appends, and the result as a residue modulo `2 ^ 32`. An append
that returns `0` ends the call, whatever arguments are left. -/
def mpush (sendBuffer : List UInt8) : List Arg → List UInt8 × ℕ
  | [] => (sendBuffer, 0)
  | arg :: rest =>
    let w := writeData sendBuffer arg
    if 0 < w.2 then
      let r := mpush w.1 rest
      (r.1, (w.2 + r.2) % 2 ^ 32)
    else (w.1, 0)

/-- A `uint32_t` value read as `int32_t`. -/
def toInt32 (n : ℕ) : ℤ := Int.bmod n (2 ^ 32)

theorem toInt32_of_lt {n : ℕ} (h : n < 2 ^ 31) : toInt32 n = n := by
  unfold toInt32
  apply Int.bmod_eq_of_le_mul_two
  · omega
  · omega

/-- The bytes `mpush` adds to a buffer that already holds `n` bytes. -/
def enqueued (n : ℕ) : List Arg → List UInt8
  | [] => []
  | .cstr none :: _ => []
  | arg :: rest =>
    arg.bytes ++ if 0 < (n + arg.bytes.length) % 2 ^ 32 then
      enqueued (n + arg.bytes.length) rest else []

theorem enqueued_cons {arg : Arg} (hnull : arg ≠ .cstr none) (n : ℕ) (rest : List Arg) :
    enqueued n (arg :: rest)
      = arg.bytes ++ if 0 < (n + arg.bytes.length) % 2 ^ 32 then
          enqueued (n + arg.bytes.length) rest else [] := by
  rw [enqueued]
  exact hnull

theorem mpush_fst (sendBuffer : List UInt8) (args : List Arg) :
    (mpush sendBuffer args).1 = sendBuffer ++ enqueued sendBuffer.length args := by
  induction args generalizing sendBuffer with
  | nil => rw [mpush, enqueued, List.append_nil]
  | cons arg rest ih =>
    by_cases hnull : arg = .cstr none
    · subst hnull
      simp [mpush, writeData, enqueued]
    · have hw : writeData sendBuffer arg
          = (sendBuffer ++ arg.bytes, (sendBuffer ++ arg.bytes).length % 2 ^ 32) := by
        unfold writeData
        split
        · exact absurd rfl hnull
        · rfl
      rw [mpush, hw, enqueued_cons hnull]
      simp only [List.length_append]
      split
      · rw [ih, List.length_append, List.append_assoc]
      · rw [List.append_nil]

/-- No append brings the size of the buffer to a multiple of `2 ^ 32` while there is something left
to append. -/
def Uncut (n : ℕ) : List Arg → Prop
  | [] => True
  | arg :: rest => (2 ^ 32 ∣ n + arg.bytes.length → (rest.map Arg.bytes).flatten = [])
      ∧ Uncut (n + arg.bytes.length) rest

instance decidableUncut : ∀ n args, Decidable (Uncut n args)
  | _, [] => isTrue trivial
  | n, arg :: rest =>
    have := decidableUncut (n + arg.bytes.length) rest
    inferInstanceAs (Decidable (_ ∧ _))

theorem uncut_of_empty {n : ℕ} {args : List Arg} (h : (args.map Arg.bytes).flatten = []) :
    Uncut n args := by
  induction args generalizing n with
  | nil => trivial
  | cons arg rest ih =>
    rw [List.map_cons, List.flatten_cons, List.append_eq_nil_iff] at h
    exact ⟨fun _ ↦ h.2, ih h.2⟩

/-- `mpush` never appends anything but the arguments, in order. -/
theorem enqueued_prefix {args : List Arg} (hnull : ∀ a ∈ args, a ≠ .cstr none) (n : ℕ) :
    enqueued n args <+: (args.map Arg.bytes).flatten := by
  induction args generalizing n with
  | nil => exact List.nil_prefix
  | cons arg rest ih =>
    rw [enqueued_cons (hnull arg List.mem_cons_self), List.map_cons, List.flatten_cons,
      List.prefix_append_right_inj]
    split
    · exact ih (fun a ha ↦ hnull a (List.mem_cons_of_mem _ ha)) _
    · exact List.nil_prefix

/-- All of the arguments are appended exactly when the appends are uncut. -/
theorem enqueued_eq_iff {args : List Arg} (hnull : ∀ a ∈ args, a ≠ .cstr none) (n : ℕ) :
    enqueued n args = (args.map Arg.bytes).flatten ↔ Uncut n args := by
  induction args generalizing n with
  | nil => exact ⟨fun _ ↦ trivial, fun _ ↦ rfl⟩
  | cons arg rest ih =>
    have hrest := ih (fun a ha ↦ hnull a (List.mem_cons_of_mem _ ha)) (n + arg.bytes.length)
    rw [enqueued_cons (hnull arg List.mem_cons_self), List.map_cons, List.flatten_cons,
      List.append_right_inj, Uncut]
    split
    · rename_i hpos
      rw [hrest]
      refine ⟨fun h ↦ ⟨fun hdvd ↦ ?_, h⟩, fun h ↦ h.2⟩
      rw [Nat.mod_eq_zero_of_dvd hdvd] at hpos
      exact absurd hpos (Nat.lt_irrefl 0)
    · rename_i hzero
      have hdvd : 2 ^ 32 ∣ n + arg.bytes.length := Nat.dvd_of_mod_eq_zero (by omega)
      refine ⟨fun h ↦ ⟨fun _ ↦ h.symm, uncut_of_empty h.symm⟩, fun h ↦ (h.1 hdvd).symm⟩

end Knet.Tcp
