import Knet.Kcp.Life
import Knet.Tcp.Basic
import Knet.Utils.LoopBuffer

/-!
# Messages from several arguments

`KcpConnection::msend` copies its arguments one by one into a loop buffer and passes what the buffer
presents to `ikcp_send`. The buffer is never committed, so that the bytes of a call stay in it and
are presented again by every later call; an argument that finds no room is left out, and the others
are sent without it.

What the buffer holds before a call therefore decides what the call sends (`queue_mpush`): the first
non-empty call of a connection is the only one that sends its arguments and nothing else, unless the
bytes happen to be the same.
-/

namespace Knet.Kcp

open Knet.Tcp (Arg)
open Knet.Utils (LoopBuffer bufferSize)

/-- A connection with its `send_buffer`. -/
structure KcpSender (κ : Type*) where
  conn : KcpConnection κ
  sendBuffer : LoopBuffer 8192

namespace KcpSender

variable {κ : Type*} (lib : Ikcp κ)

/-- The memory from the data pointer of an argument on. Nothing behind its bytes is read. -/
def pointed (bytes : List UInt8) : Memory UInt8 :=
  let cells : Memory UInt8 := fun _ ↦ 0
  cells.write 0 bytes

/-- `write_data`. A null pointer writes nothing. -/
def writeData (b : LoopBuffer 8192) : Arg → LoopBuffer 8192 × UInt32
  | .cstr none => (b, 0)
  | arg => b.push (pointed arg.bytes) (UInt32.ofNat arg.bytes.length)

/-- The outcome of `msend`. -/
structure Sent (κ : Type*) where
  sender : KcpSender κ
  /-- The messages passed to `ikcp_send`. -/
  messages : List (List UInt8) := []
  /-- The datagrams sent to the other end. -/
  datagrams : List (List UInt8) := []
  /-- The value returned. -/
  result : ℤ

/-- `mpush()`. The result is the length that was presented, whatever `ikcp_send` returns. -/
def flush (s : KcpSender κ) : Sent κ :=
  if s.conn.connStatus = .kcpReady then
    match s.conn.kcp with
    | some k =>
      match s.sendBuffer.read with
      | (some data, len) =>
        { sender := { s with conn := { s.conn with kcp := some (lib.send k data).1 } },
          messages := [data], result := len.toInt }
      | (none, len) => { sender := s, result := len.toInt }
    | none => { sender := s, result := -1 }
  else { sender := s, datagrams := s.conn.shakehandRequest, result := -1 }

/-- `mpush`. -/
def mpush (s : KcpSender κ) : List Arg → Sent κ
  | [] => s.flush lib
  | arg :: rest => mpush { s with sendBuffer := (writeData s.sendBuffer arg).1 } rest

/-- `msend`. The string it starts with is always empty. -/
def msend (s : KcpSender κ) (args : List Arg) : Sent κ := s.mpush lib (.str [] :: args)

/-- What can happen to a connection with its buffer. -/
inductive Action
  /-- The user calls `msend`. -/
  | msend (args : List Arg)
  /-- Anything that does not touch the buffer. -/
  | conn (a : KcpConnection.Action)
  deriving DecidableEq, Repr

/-- One step. -/
def step (s : KcpSender κ) : Action → Option (KcpSender κ)
  | .msend args => some (s.msend lib args).sender
  | .conn a => ((KcpConnection.system lib).step s.conn a).map fun c ↦ { s with conn := c }

/-- The step system of a connection with its buffer. -/
def system : StepSystem (KcpSender κ) Action := ⟨step lib⟩

/-- A connection that has begun, with a new buffer. -/
def begun (e : Side) (cid : UInt32) (reconn : Bool) (cells : Memory UInt8) : KcpSender κ :=
  { conn := .begun e cid reconn, sendBuffer := { buffer := cells } }

/-! ## One call, one message -/

/-- The arguments one behind the other. -/
def payload (args : List Arg) : List UInt8 := args.flatMap Arg.bytes

/-- The call makes one message of its arguments; a list that no buffer could hold is rejected as a
whole. -/
def OneMessage (s : KcpSender κ) : Action → Prop
  | .msend args =>
    s.conn.connStatus = .kcpReady →
      if (payload args).length ≤ 8192 then
        (s.msend lib args).messages = [payload args]
          ∧ (s.msend lib args).result = (payload args).length
      else (s.msend lib args).messages = [] ∧ (s.msend lib args).result ≤ 0
        ∧ (s.msend lib args).sender.sendBuffer.queue = s.sendBuffer.queue
  | .conn _ => True

/-- The bytes of an argument that `push` copies: its length is a `uint32_t`. -/
def copied (arg : Arg) : List UInt8 := arg.bytes.take (arg.bytes.length % 2 ^ 32)

/-- Of the arguments, those that find room one after the other. -/
def stored (room : ℕ) : List Arg → List UInt8
  | [] => []
  | arg :: rest =>
    if (copied arg).length ≤ room then copied arg ++ stored (room - (copied arg).length) rest
    else stored room rest

/-- The buffer is empty before the call, or its bytes and the arguments that find room behind them
are those of the call all the same; there is something to send; and of a list that is too long no
argument finds room. -/
def Clear (s : KcpSender κ) : Action → Prop
  | .msend args =>
    s.conn.connStatus = .kcpReady →
      if (payload args).length ≤ 8192 then
        payload args ≠ [] ∧ (s.sendBuffer.queue = []
          ∨ s.sendBuffer.queue ++ stored (8192 - s.sendBuffer.queue.length) args = payload args)
      else s.sendBuffer.queue = [] ∧ ∀ arg ∈ args, copied arg = [] ∨ 8192 < (copied arg).length
  | .conn _ => True

/-! ## What a call does -/

theorem toNat_bufferSize : (bufferSize 8192).toNat = 8192 := rfl

theorem length_copied (arg : Arg) : (copied arg).length = arg.bytes.length % 2 ^ 32 := by
  rw [copied, List.length_take]
  exact Nat.min_eq_left (Nat.mod_le _ _)

theorem toNat_ofNat_length (arg : Arg) :
    (UInt32.ofNat arg.bytes.length).toNat = (copied arg).length := by
  rw [length_copied, UInt32.toNat_ofNat']

theorem read_pointed (arg : Arg) :
    (pointed arg.bytes).read 0 (copied arg).length = copied arg := by
  rw [length_copied, ← Memory.take_read _ _ (Nat.mod_le _ _)]
  exact congrArg (List.take _) (Memory.read_write _ 0 arg.bytes)

theorem push_spec {b : LoopBuffer 8192} (hb : b.Sound) (arg : Arg) :
    let r := (b.push (pointed arg.bytes) (UInt32.ofNat arg.bytes.length)).1
    r.Sound ∧ r.head = b.head
      ∧ r.queue = b.queue ++ if (copied arg).length ≤ 8192 - b.queue.length
          then copied arg else [] := by
  have hlen := toNat_ofNat_length arg
  rw [LoopBuffer.length_queue]
  by_cases hfit : (copied arg).length ≤ 8192 - b.size.toNat
  · obtain ⟨hqueue, hsound, hhead, -⟩ := LoopBuffer.push_of_le (i := 13) (by decide) rfl hb
      (pointed arg.bytes) (by rw [hlen]; exact hfit)
    rw [hlen, read_pointed] at hqueue
    rw [if_pos hfit]
    exact ⟨hsound, hhead, hqueue⟩
  · have hfull : (bufferSize 8192).toNat - b.size.toNat
        < (UInt32.ofNat arg.bytes.length).toNat := by
      rw [hlen, toNat_bufferSize]
      omega
    rw [LoopBuffer.push_of_lt hb _ hfull, if_neg hfit, List.append_nil]
    exact ⟨hb, rfl, rfl⟩

theorem writeData_spec {b : LoopBuffer 8192} (hb : b.Sound) (arg : Arg) :
    (writeData b arg).1.Sound ∧ (writeData b arg).1.head = b.head
      ∧ (writeData b arg).1.queue
        = b.queue ++ if (copied arg).length ≤ 8192 - b.queue.length then copied arg else [] := by
  rcases arg with bytes | bytes | bytes | (_ | chars)
  · exact push_spec hb (.value bytes)
  · exact push_spec hb (.view bytes)
  · exact push_spec hb (.str bytes)
  · refine ⟨hb, rfl, ?_⟩
    simp [writeData, copied, Arg.bytes]
  · exact push_spec hb (.cstr (some chars))

/-- The sender after the arguments were written. -/
def filled (s : KcpSender κ) (args : List Arg) : KcpSender κ :=
  { s with sendBuffer := args.foldl (fun b arg ↦ (writeData b arg).1) s.sendBuffer }

theorem mpush_eq_flush (s : KcpSender κ) (args : List Arg) :
    s.mpush lib args = (s.filled args).flush lib := by
  induction args generalizing s with
  | nil => rfl
  | cons arg rest ih =>
    rw [mpush, ih]
    rfl

/-- **The buffer after the arguments were written**: those that found room stand behind what it
held. -/
theorem filled_spec {s : KcpSender κ} (hs : s.sendBuffer.Sound) (args : List Arg) :
    (s.filled args).sendBuffer.Sound ∧ (s.filled args).sendBuffer.head = s.sendBuffer.head
      ∧ (s.filled args).sendBuffer.queue
        = s.sendBuffer.queue ++ stored (8192 - s.sendBuffer.queue.length) args := by
  induction args generalizing s with
  | nil => exact ⟨hs, rfl, (List.append_nil _).symm⟩
  | cons arg rest ih =>
    obtain ⟨hsound, hhead, hqueue⟩ := writeData_spec hs arg
    obtain ⟨hsound', hhead', hqueue'⟩ :=
      ih (s := { s with sendBuffer := (writeData s.sendBuffer arg).1 }) hsound
    refine ⟨hsound', hhead'.trans hhead, hqueue'.trans ?_⟩
    dsimp only
    rw [hqueue, stored]
    split_ifs
    · rw [List.append_assoc, List.length_append, Nat.sub_add_eq]
    · rw [List.append_nil]

theorem read_of_head_eq_zero {b : LoopBuffer 8192} (hb : b.Sound) (hhead : b.head = 0) :
    b.read.1 = (if b.queue = [] then none else some b.queue)
      ∧ b.read.2.toInt = b.queue.length := by
  have hlen : b.queue.length ≤ 8192 := by
    rw [LoopBuffer.length_queue]
    exact hb
  have hlead : b.lead = b.queue := by
    rw [LoopBuffer.lead, hhead]
    exact List.take_of_length_le hlen
  obtain ⟨hfront, hcount⟩ := b.front_eq (i := 13) rfl
  rw [hlead] at hfront hcount
  refine ⟨hfront, ?_⟩
  have hsmall : 2 * b.front.2.toNat < 2 ^ 32 := by omega
  rw [← hcount]
  exact BitVec.toInt_eq_toNat_of_lt hsmall

/-! ## Runs -/

/-- Nothing was ever taken from the buffer, and a ready connection has its `kcp` object. -/
structure Inv (s : KcpSender κ) : Prop where
  sound : s.sendBuffer.Sound
  head : s.sendBuffer.head = 0
  kcp : s.conn.connStatus = .kcpReady → s.conn.kcp.isSome = true

variable {lib} {s t : KcpSender κ}

theorem inv_begun (e : Side) (cid : UInt32) (reconn : Bool) (cells : Memory UInt8) :
    Inv (begun e cid reconn cells : KcpSender κ) := by
  have hsound := (LoopBuffer.queue_clear ({ buffer := cells } : LoopBuffer 8192)).2
  refine ⟨hsound, rfl, ?_⟩
  cases e <;> simp [begun, KcpConnection.begun, KcpConnection.connecting, KcpConnection.listening]

variable (lib) in
theorem flush_sender (s : KcpSender κ) :
    (s.flush lib).sender.sendBuffer = s.sendBuffer
      ∧ (s.flush lib).sender.conn.connStatus = s.conn.connStatus
      ∧ (s.flush lib).sender.conn.kcp.isSome = s.conn.kcp.isSome := by
  rw [flush]
  split_ifs
  · split
    · rename_i k hk
      split
      · exact ⟨rfl, rfl, (congrArg Option.isSome hk).symm⟩
      · exact ⟨rfl, rfl, rfl⟩
    · exact ⟨rfl, rfl, rfl⟩
  · exact ⟨rfl, rfl, rfl⟩

variable (lib) in
/-- **What `mpush()` sends** in the status `CONN_KCP_READY`: all that the buffer holds. -/
theorem flush_spec (hs : Inv s) (hready : s.conn.connStatus = .kcpReady) :
    (s.flush lib).messages = (if s.sendBuffer.queue = [] then [] else [s.sendBuffer.queue])
      ∧ (s.flush lib).result = s.sendBuffer.queue.length := by
  obtain ⟨k, hk⟩ := Option.isSome_iff_exists.mp (hs.kcp hready)
  obtain ⟨hdata, hlen⟩ := read_of_head_eq_zero hs.sound hs.head
  rw [flush, if_pos hready, hk]
  rcases hread : s.sendBuffer.read with ⟨data, len⟩
  rw [hread] at hdata hlen
  dsimp only at hdata hlen ⊢
  subst hdata
  split_ifs
  · exact ⟨rfl, hlen⟩
  · exact ⟨rfl, hlen⟩

theorem Inv.filled (hs : Inv s) (args : List Arg) : Inv (s.filled args) := by
  obtain ⟨hsound, hhead, -⟩ := filled_spec hs.sound args
  exact ⟨hsound, hhead.trans hs.head, hs.kcp⟩

theorem Inv.flush (hs : Inv s) : Inv (s.flush lib).sender := by
  obtain ⟨hbuf, hst, hk⟩ := flush_sender lib s
  refine ⟨hbuf ▸ hs.sound, hbuf ▸ hs.head, fun hready ↦ ?_⟩
  rw [hk]
  exact hs.kcp (hst.symm.trans hready)

theorem msend_eq_flush (s : KcpSender κ) (args : List Arg) :
    s.msend lib args = (s.filled (.str [] :: args)).flush lib :=
  mpush_eq_flush lib s _

theorem stored_cons_empty (room : ℕ) (args : List Arg) :
    stored room (.str [] :: args) = stored room args :=
  if_pos (Nat.zero_le room)

variable (lib) in
/-- **What a call sends**: what the buffer held and, behind it, the arguments that found room. -/
theorem msend_spec (hs : Inv s) (hready : s.conn.connStatus = .kcpReady) (args : List Arg) :
    let held := s.sendBuffer.queue ++ stored (8192 - s.sendBuffer.queue.length) args
    (s.msend lib args).messages = (if held = [] then [] else [held])
      ∧ (s.msend lib args).result = held.length
      ∧ (s.msend lib args).sender.sendBuffer.queue = held := by
  obtain ⟨-, -, hqueue⟩ := filled_spec hs.sound (.str [] :: args)
  rw [stored_cons_empty] at hqueue
  obtain ⟨hmessages, hresult⟩ := flush_spec lib (hs.filled (.str [] :: args)) hready
  rw [hqueue] at hmessages hresult
  have hbuf := (flush_sender lib (s.filled (.str [] :: args))).1
  rw [msend_eq_flush, hbuf]
  exact ⟨hmessages, hresult, hqueue⟩

theorem stored_of_le {room : ℕ} (hroom : room < 2 ^ 32) {args : List Arg}
    (h : (payload args).length ≤ room) : stored room args = payload args := by
  induction args generalizing room with
  | nil => rfl
  | cons arg rest ih =>
    rw [payload, List.flatMap_cons, List.length_append] at h
    have hcopied : copied arg = arg.bytes := by
      rw [copied, Nat.mod_eq_of_lt (by omega), List.take_length]
    have hrest : (payload rest).length ≤ room - arg.bytes.length := by
      rw [payload]
      omega
    rw [stored, hcopied, if_pos (by omega), ih (by omega) hrest]
    rfl

theorem stored_eq_nil_iff {room : ℕ} {args : List Arg} :
    stored room args = [] ↔ ∀ arg ∈ args, copied arg = [] ∨ room < (copied arg).length := by
  induction args with
  | nil => simp [stored]
  | cons arg rest ih =>
    rw [stored, List.forall_mem_cons, ← ih]
    by_cases hfit : (copied arg).length ≤ room
    · rw [if_pos hfit, List.append_eq_nil_iff]
      constructor
      · rintro ⟨hnil, hrest⟩
        rw [hnil] at hrest
        exact ⟨.inl hnil, hrest⟩
      · rintro ⟨harg, hrest⟩
        have hnil := harg.resolve_right (by omega)
        rw [hnil]
        exact ⟨rfl, hrest⟩
    · rw [if_neg hfit]
      exact ⟨fun h ↦ ⟨.inr (by omega), h⟩, fun h ↦ h.2⟩

/-- **One call.** It makes one message of its arguments exactly when it is clear. -/
theorem oneMessage_iff_clear (hs : Inv s) (a : Action) : OneMessage lib s a ↔ Clear s a := by
  cases a with
  | conn a => exact Iff.rfl
  | msend args =>
    refine forall_congr' fun hready ↦ ?_
    obtain ⟨hmessages, hresult, hqueue⟩ := msend_spec lib hs hready args
    generalize hheld : s.sendBuffer.queue ++ stored (8192 - s.sendBuffer.queue.length) args = held
      at hmessages hresult hqueue
    rw [hmessages, hresult, hqueue]
    by_cases hsize : (payload args).length ≤ 8192
    · rw [if_pos hsize, if_pos hsize]
      have hempty : s.sendBuffer.queue = [] → held = payload args := by
        intro hq
        rw [← hheld, hq]
        exact stored_of_le (by decide) hsize
      constructor
      · rintro ⟨hone, -⟩
        split_ifs at hone with hnil
        obtain rfl := List.singleton_inj.mp hone
        exact ⟨hnil, .inr rfl⟩
      · rintro ⟨hne, h⟩
        obtain rfl : held = payload args := h.elim hempty id
        exact ⟨if_neg hne, rfl⟩
    · rw [if_neg hsize, if_neg hsize, ← stored_eq_nil_iff]
      constructor
      · rintro ⟨hnone, -, -⟩
        split_ifs at hnone with hnil
        obtain ⟨hq, hstored⟩ := List.append_eq_nil_iff.mp (hheld.trans hnil)
        rw [hq] at hstored
        exact ⟨hq, hstored⟩
      · rintro ⟨hq, hstored⟩
        have hnil : held = [] := by
          rw [← hheld, hq]
          exact hstored
        rw [hnil, hq]
        exact ⟨if_pos rfl, Int.le_refl 0, rfl⟩

theorem Inv.step (hs : Inv s) {a : Action} (hstep : (system lib).step s a = some t) : Inv t := by
  cases a with
  | msend args =>
    obtain rfl := Option.some.inj hstep
    rw [msend_eq_flush]
    exact (hs.filled _).flush
  | conn a =>
    obtain ⟨c, hc, rfl⟩ := Option.map_eq_some_iff.mp hstep
    exact ⟨hs.sound, hs.head, KcpConnection.kcp_step hs.kcp hc⟩

/-- **Each `msend` is one message exactly when the buffer is empty before it.** In every run of a
connection, whatever else happens to it in between: every call of `msend` on a ready connection
makes exactly one message of its arguments, and rejects as a whole a list that is too long, exactly
when every such call is clear. -/
theorem oneMessage_along_iff_clear (lib : Ikcp κ) (e : Side) (cid : UInt32) (reconn : Bool)
    (cells : Memory UInt8) (as : List Action) :
    (system lib).Along (OneMessage lib) (begun e cid reconn cells) as
      ↔ (system lib).Along Clear (begun e cid reconn cells) as := by
  refine StepSystem.along_iff_of_invariant (inv_begun e cid reconn cells) ?_ ?_
  · intro s a t hs hstep
    exact hs.step hstep
  · intro s a t hs _
    exact oneMessage_iff_clear hs a

/-- Two calls on a ready connection: the second sends the bytes of the first again. -/
theorem second_msend_repeats_first :
    ∃ s, (system World.bareIkcp).run (begun .client 7 true fun _ ↦ 0)
        [.conn (.receive 0x1000 (.control .shakehandResponse 7)
            (KcpMsgHead.control .shakehandResponse 7).bytes),
          .msend [.str [97]]] = some s
      ∧ s.conn.connStatus = .kcpReady
      ∧ (s.msend World.bareIkcp [.str [98]]).messages = [[97, 98]]
      ∧ ¬OneMessage World.bareIkcp s (.msend [.str [98]]) := by
  refine ⟨_, rfl, rfl, by decide, fun h ↦ ?_⟩
  exact absurd (h rfl).1 (by decide)

end KcpSender

end Knet.Kcp
