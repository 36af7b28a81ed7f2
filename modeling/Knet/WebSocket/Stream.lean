import Knet.Tcp.Reading
import Knet.WebSocket.Frame
import Mathlib.Data.List.TakeDrop

/-!
# Receiving a stream of frames

The frames of any number of `send_text` calls, cut into reads at any place, at the receiving socket.

A frame that is complete in a buffer of fewer than sixteen bytes has to wait for more (`Prompt`).
The window that `process_data` passes reaches behind the received bytes. When it starts at the only
received byte of a frame, the length is read from stale bytes; the 64-bit sum of the head and a
length close to `2 ^ 64` may then come out as one, and the byte is taken for a frame (`Clear`).
-/

namespace Knet.WebSocket

open Knet.Tcp

/-! ## The stream of frames at the receiver -/

section Stream

variable {s₀ s t : TcpSocket} {texts done todo : List Text} {u c : List UInt8}

/-- The bytes received since the state `s₀`. -/
def arrived (s₀ s : TcpSocket) : ℕ := (receivedBytes s.log).length - (receivedBytes s₀.log).length

/-- How many of the frames are in the first `n` bytes of the stream. -/
def complete (texts : List Text) (n : ℕ) : ℕ := Segments.whole (texts.map Text.frame) n

/-- Since `s₀`, the handler was called once for each message whose last byte has been received, in
order, with exactly the message. -/
def HandedOn (s₀ : TcpSocket) (texts : List Text) (s : TcpSocket) : Prop :=
  messages s.log = messages s₀.log ++ (texts.map Text.msg).take (complete texts (arrived s₀ s))

/-- A read that completes a frame finds sixteen bytes or more in the buffer. -/
def Prompt (s₀ : TcpSocket) (texts : List Text) (s : TcpSocket) :
    TcpSocket.Action → Prop
  | .readDone _ (some chunk) =>
    complete texts (arrived s₀ s) < complete texts (arrived s₀ s + chunk.length) →
      16 ≤ s.readBufferPos + chunk.length
  | _ => True

/-- A read that leaves the first byte of a frame alone in the buffer does not find a stale length
behind it that wraps around to one. -/
def Clear (s₀ : TcpSocket) (texts : List Text) (s : TcpSocket) :
    TcpSocket.Action → Prop
  | .readDone _ (some chunk) =>
    let n := arrived s₀ s + chunk.length
    let pos := s.readBufferPos + chunk.length
    n = ((texts.take (complete texts n)).map Text.frame).flatten.length + 1 →
      handlePackage ((s.readBuffer.write s.readBufferPos chunk).read (pos - 1) pos) ≠ 1
  | _ => True

instance decidableClear (s₀ : TcpSocket) (texts : List Text) (s : TcpSocket) :
    ∀ a, Decidable (Clear s₀ texts s a)
  | .readDone _ (some _) => inferInstanceAs (Decidable (_ → _))
  | .readDone _ none | .initRead | .connect _ | .connectDone _ | .msend _ | .post | .runTask _
  | .take _ _ | .writeDone _ _ _ | .close | .enableReconnect | .disableReconnect | .timer _ =>
    isTrue trivial

instance decidablePrompt (s₀ : TcpSocket) (texts : List Text) (s : TcpSocket) :
    ∀ a, Decidable (Prompt s₀ texts s a)
  | .readDone _ (some _) => inferInstanceAs (Decidable (_ → _))
  | .readDone _ none | .initRead | .connect _ | .connectDone _ | .msend _ | .post | .runTask _
  | .take _ _ | .writeDone _ _ _ | .close | .enableReconnect | .disableReconnect | .timer _ =>
    isTrue trivial

/-- Where the receiver stands in the stream: the frames of `done` have been delivered, and it holds
the part `u` of the next one. -/
structure Standing (s₀ : TcpSocket) (texts : List Text) (s : TcpSocket) (done todo : List Text)
    (u : List UInt8) : Prop where
  split : texts = done ++ todo
  holding : TcpSocket.Holding receiver s u
  received : receivedBytes s.log = receivedBytes s₀.log ++ ((done.map Text.frame).flatten ++ u)
  part : Segments.Partial (todo.map Text.frame) u
  deliv : delivered s.log = delivered s₀.log ++ done.map Text.frame

theorem Standing.arrived_eq (h : Standing s₀ texts s done todo u) :
    arrived s₀ s = ((done.map Text.frame).flatten ++ u).length := by
  rw [arrived, h.received, List.length_append, Nat.add_sub_cancel_left]

theorem Standing.complete_eq (h : Standing s₀ texts s done todo u) :
    complete texts (arrived s₀ s) = done.length := by
  rw [h.arrived_eq, complete, h.split, List.map_append, Segments.whole_split h.part,
    List.length_map]

/-- The messages handed on are those of `done`, as far as the reader hands them on. -/
theorem Standing.messages_eq (h : Standing s₀ texts s done todo u) (hfit : ∀ t ∈ texts, t.Fits) :
    messages s.log = messages s₀.log ++ done.map fun t ↦ t.msg.take 4092 := by
  rw [messages, h.deliv, List.filterMap_append, filterMap_messageOf fun t ht ↦
    hfit t (h.split ▸ List.mem_append_left _ ht)]
  rfl

theorem Standing.handedOn_iff (h : Standing s₀ texts s done todo u) (hfit : ∀ t ∈ texts, t.Fits) :
    HandedOn s₀ texts s ↔ ∀ t ∈ done, t.msg.length ≤ 4092 := by
  have htake : (texts.map Text.msg).take done.length = done.map Text.msg := by
    rw [h.split, List.map_append, List.take_left' (List.length_map _)]
  rw [HandedOn, h.messages_eq hfit, h.complete_eq, htake, List.append_right_inj,
    List.map_inj_left]
  refine forall_congr' fun t ↦ forall_congr' fun _ ↦ ?_
  exact List.take_eq_self_iff _

theorem Standing.split_next (h : Standing s₀ texts s done todo u)
    (hstream : receivedBytes s.log ++ c
      <+: receivedBytes s₀.log ++ (texts.map Text.frame).flatten) :
    ∃ more todo' rest, todo = more ++ todo' ∧ u ++ c = (more.map Text.frame).flatten ++ rest
      ∧ Segments.Partial (todo'.map Text.frame) rest
      ∧ (rest ≠ [] → ∃ x ∈ todo', rest <+: x.frame ∧ rest.length < x.frame.length) := by
  rw [h.received, h.split, List.map_append, List.flatten_append, List.append_assoc,
    List.append_assoc, List.prefix_append_right_inj, List.prefix_append_right_inj] at hstream
  obtain ⟨later, hlater⟩ := hstream
  obtain ⟨more, todo', rest, hsplit, hfront, hrest, hpart⟩ :=
    Segments.exists_split (hlater.trans (List.append_nil _).symm)
  obtain ⟨more, todo', rfl, rfl, rfl⟩ := List.map_eq_append_iff.mp hsplit
  refine ⟨more, todo', rest, rfl, hfront, hpart, fun hne ↦ ?_⟩
  rw [List.append_nil] at hrest
  obtain ⟨p, hp, hpre, hlt⟩ := Segments.partial_prefix hpart hrest hne
  obtain ⟨x, hx, rfl⟩ := List.mem_map.mp hp
  exact ⟨x, hx, hpre, hlt⟩

/-- A read after which there are fewer than sixteen bytes in the buffer delivers nothing. -/
theorem Standing.readNext_few (h : Standing s₀ texts s done todo u) (hc : 0 < c.length)
    (hfew : (u ++ c).length < 16) :
    TcpSocket.Holding receiver (TcpSocket.readNext receiver s u c) (u ++ c)
      ∧ delivered (TcpSocket.readNext receiver s u c).log = delivered s.log := by
  have hscan := h.holding.readScan_stop hc (handlePackage_few hfew) (.inl (Int.le_refl _))
  obtain ⟨hhold, hlog⟩ := h.holding.readNext (hscan.trans (by rfl)) (Nat.zero_le _)
    (Nat.lt_trans hfew (by decide))
  rw [List.drop_zero] at hhold
  exact ⟨hhold, by rw [hlog]; simp [delivered]⟩

section Next

variable {more todo' : List Text} {rest : List UInt8}

theorem Standing.complete_next (h : Standing s₀ texts s done (more ++ todo') u)
    (hfront : u ++ c = (more.map Text.frame).flatten ++ rest)
    (hpart : Segments.Partial (todo'.map Text.frame) rest) :
    arrived s₀ s + c.length = (((done ++ more).map Text.frame).flatten ++ rest).length
      ∧ complete texts (arrived s₀ s + c.length) = (done ++ more).length := by
  have harr : arrived s₀ s + c.length
      = (((done ++ more).map Text.frame).flatten ++ rest).length := by
    rw [h.arrived_eq, List.map_append, List.flatten_append, List.append_assoc, ← hfront,
      ← List.length_append, List.append_assoc]
  refine ⟨harr, ?_⟩
  rw [harr, complete, h.split, ← List.append_assoc, List.map_append, Segments.whole_split hpart,
    List.length_map]

/-- A read after which there are sixteen bytes or more in the buffer delivers the frames that it
completes. -/
theorem Standing.readNext_enough (h : Standing s₀ texts s done (more ++ todo') u)
    (hfit : ∀ t ∈ texts, t.Fits) (henough : 16 ≤ (u ++ c).length)
    (hroom : (u ++ c).length ≤ kReadBufferSize)
    (hfront : u ++ c = (more.map Text.frame).flatten ++ rest)
    (hpart : Segments.Partial (todo'.map Text.frame) rest)
    (hnext : rest ≠ [] → ∃ x ∈ todo', rest <+: x.frame ∧ rest.length < x.frame.length)
    (hclear : Clear s₀ texts s (.readDone 0 (some c))) :
    TcpSocket.Holding receiver (TcpSocket.readNext receiver s u c) rest
      ∧ delivered (TcpSocket.readNext receiver s u c).log
        = delivered s.log ++ more.map Text.frame := by
  have hmore : ∀ t ∈ more, t.Fits := fun t ht ↦
    hfit t (h.split ▸ List.mem_append_right _ (List.mem_append_left _ ht))
  have htodo : ∀ t ∈ todo', t.Fits := fun t ht ↦
    hfit t (h.split ▸ List.mem_append_right _ (List.mem_append_right _ ht))
  have hlt : rest.length < kReadBufferSize := by
    by_cases hne : rest = []
    · rw [hne]
      decide
    · obtain ⟨x, hx, -, hlt⟩ := hnext hne
      exact Nat.lt_of_lt_of_le hlt (htodo x hx)
  obtain ⟨stale, hwin⟩ := h.holding.last_window hfront
  have hwinlen : (rest ++ stale).length = (u ++ c).length := by rw [← hwin, Memory.length_read]
  have hone : rest.length = 1 → handlePackage (rest ++ stale) ≠ 1 := by
    intro hone
    obtain ⟨harr, hcomplete⟩ := h.complete_next hfront hpart
    rw [← hwin, hone, List.length_append, ← h.holding.pos]
    refine hclear ?_
    rw [hcomplete, h.split, ← List.append_assoc, List.take_left, harr, List.length_append, hone]
  obtain ⟨hhold, hdel, -⟩ := h.holding.readNext_packages hfront
    (fun p hp ↦ by
      obtain ⟨x, hx, rfl⟩ := List.mem_map.mp hp
      refine ⟨Nat.lt_of_lt_of_le (by decide) (Text.length_frame_pos (hmore x hx)), ?_⟩
      intro log tail hlen
      exact handlePackage_frame (hmore x hx) (hlen ▸ henough))
    (fun hne log ↦ by
      obtain ⟨x, hx, hpre, hlt⟩ := hnext hne
      rw [hwin]
      refine ⟨handlePackage_part (htodo x hx) hne hpre hlt (hwinlen ▸ hroom) hone, ?_⟩
      have hle := handlePackage_le (Nat.lt_of_le_of_lt (hwinlen ▸ hroom) (by decide))
      exact Int.le_trans hle (by exact_mod_cast hwinlen ▸ hroom)) hlt
  exact ⟨hhold, hdel⟩

end Next

/-- The receiver stands somewhere in the stream. -/
def Reading (s₀ : TcpSocket) (texts : List Text) (s : TcpSocket) : Prop :=
  ∃ done todo u, Standing s₀ texts s done todo u

/-- As many messages were handed on as frames were received. -/
def Counted (s₀ : TcpSocket) (texts : List Text) (s : TcpSocket) : Prop :=
  (messages s.log).length = (messages s₀.log).length + complete texts (arrived s₀ s)

theorem Reading.counted (hfit : ∀ t ∈ texts, t.Fits) (h : Reading s₀ texts s) :
    Counted s₀ texts s := by
  obtain ⟨done, todo, u, h⟩ := h
  rw [Counted, h.messages_eq hfit, h.complete_eq, List.length_append, List.length_map]

theorem HandedOn.counted (h : HandedOn s₀ texts s) : Counted s₀ texts s := by
  have hle : complete texts (arrived s₀ s) ≤ (texts.map Text.msg).length := by
    have := Segments.whole_le_length (texts.map Text.frame) (arrived s₀ s)
    rwa [List.length_map] at this ⊢
  rw [Counted, h, List.length_append, List.length_take_of_le hle]

/-- A read brings the next piece of the stream, and meets no stale length that wraps around. -/
def Next (s₀ : TcpSocket) (texts : List Text) (s : TcpSocket) (a : TcpSocket.Action) : Prop :=
  (∀ i c, a = .readDone i (some c) →
    receivedBytes s.log ++ c <+: receivedBytes s₀.log ++ (texts.map Text.frame).flatten)
  ∧ Clear s₀ texts s a

/-- **One read.** The receiver goes on reading the stream when the read is prompt, and only then are
as many messages handed on as frames are complete. -/
theorem Reading.step (h : Reading s₀ texts s) (hfit : ∀ t ∈ texts, t.Fits)
    (hstep : (TcpSocket.system receiver).step s (.readDone 0 (some c)) = some t)
    (hnext : Next s₀ texts s (.readDone 0 (some c))) :
    (Prompt s₀ texts s (.readDone 0 (some c)) → Reading s₀ texts t)
      ∧ (Counted s₀ texts t → Prompt s₀ texts s (.readDone 0 (some c))) := by
  obtain ⟨done, todo, u, h⟩ := h
  obtain ⟨more, todo, rest, rfl, hfront, hpart, hrest⟩ := h.split_next (hnext.1 0 c rfl)
  obtain ⟨hc, hroom, rfl⟩ := h.holding.step_iff.mp hstep
  obtain ⟨harr, hcomplete⟩ := h.complete_next hfront hpart
  have hprompt : Prompt s₀ texts s (.readDone 0 (some c)) ↔ (more ≠ [] → 16 ≤ (u ++ c).length) := by
    rw [Prompt, hcomplete, h.complete_eq, h.holding.pos, List.length_append, List.length_append,
      ← List.length_pos_iff]
    omega
  have hrec : receivedBytes (TcpSocket.readNext receiver s u c).log
      = receivedBytes s₀.log ++ (((done ++ more).map Text.frame).flatten ++ rest) := by
    rw [TcpSocket.receivedBytes_step hstep, h.received, List.append_assoc, List.append_assoc,
      hfront, List.map_append, List.flatten_append, List.append_assoc]
  rcases Nat.lt_or_ge (u ++ c).length 16 with hfew | henough
  · -- with fewer than 16 bytes the loop waits, even when a frame is complete
    obtain ⟨hhold, hdel⟩ := h.readNext_few hc hfew
    constructor
    · intro hp
      obtain rfl : more = [] := by
        by_contra hne
        have := hprompt.mp hp hne
        omega
      obtain rfl : u ++ c = rest := hfront
      exact ⟨done, todo, u ++ c, h.split, hhold, by rw [hrec, List.append_nil], hpart,
        by rw [hdel, h.deliv]⟩
    · intro hcount
      rw [hprompt]
      intro hne
      have hmsg : messages (TcpSocket.readNext receiver s u c).log = messages s.log := by
        rw [messages, hdel, messages]
      have harr' : arrived s₀ (TcpSocket.readNext receiver s u c) = arrived s₀ s + c.length := by
        rw [arrived, hrec, List.length_append, Nat.add_sub_cancel_left, harr]
      have hbefore := Reading.counted hfit ⟨_, _, _, h⟩
      rw [Counted, h.complete_eq] at hbefore
      rw [Counted, hmsg, hbefore, harr', hcomplete, List.length_append] at hcount
      have := List.length_pos_iff.mpr hne
      omega
  · -- with 16 bytes or more every complete frame is taken
    refine ⟨fun _ ↦ ?_, fun _ ↦ hprompt.mpr fun _ ↦ henough⟩
    obtain ⟨hhold, hdel⟩ := h.readNext_enough hfit henough hroom hfront hpart hrest hnext.2
    exact ⟨done ++ more, todo, rest, by rw [h.split, List.append_assoc], hhold, hrec, hpart,
      by rw [hdel, h.deliv, List.map_append, List.append_assoc]⟩

theorem exists_of_mem_readsOf {cs : List (List UInt8)} {a : TcpSocket.Action}
    (h : a ∈ TcpSocket.readsOf cs) : ∃ c, a = .readDone 0 (some c) := by
  obtain ⟨c, -, rfl⟩ := List.mem_map.mp h
  exact ⟨c, rfl⟩

/-- A property of the states of the stream that tells the number of messages handed on holds
throughout a run of reads exactly when they are all prompt. -/
theorem throughout_iff_prompt {cs : List (List UInt8)} {P : TcpSocket → Prop}
    (hgive : ∀ s, Reading s₀ texts s → P s) (htell : ∀ s, P s → Counted s₀ texts s)
    (hfit : ∀ t ∈ texts, t.Fits) (hfirst : Reading s₀ texts s)
    (hnext : (TcpSocket.system receiver).Along (Next s₀ texts) s (TcpSocket.readsOf cs)) :
    (TcpSocket.system receiver).Throughout P s (TcpSocket.readsOf cs)
      ↔ (TcpSocket.system receiver).Along (Prompt s₀ texts) s (TcpSocket.readsOf cs) := by
  refine StepSystem.throughout_iff_along_of_invariant hfirst hgive ?_ hnext
  intro s a t ha h hstep hD
  obtain ⟨c, rfl⟩ := exists_of_mem_readsOf ha
  obtain ⟨hkeep, hprompt⟩ := h.step hfit hstep hD
  exact ⟨hkeep, fun hP ↦ hprompt (htell t hP)⟩

theorem reading_first (hopen : TcpSocket.Holding receiver s₀ []) (hfit : ∀ t ∈ texts, t.Fits) :
    Reading s₀ texts s₀ := by
  refine ⟨[], texts, [], rfl, hopen, by simp, ?_, by simp⟩
  intro p rest hp
  obtain ⟨x, hx, rfl⟩ := List.mem_map.mp (hp ▸ List.mem_cons_self : p ∈ texts.map Text.frame)
  exact Nat.lt_of_lt_of_le (by decide) (Text.length_frame_pos (hfit x hx))

theorem Reading.end_of_stream (h : Reading s₀ texts s)
    (hall : receivedBytes s.log = receivedBytes s₀.log ++ (texts.map Text.frame).flatten) :
    ∃ u, Standing s₀ texts s texts [] u := by
  obtain ⟨done, todo, u, h⟩ := h
  have hu : u = (todo.map Text.frame).flatten := by
    rw [h.received, h.split, List.map_append, List.flatten_append, List.append_right_inj,
      List.append_right_inj] at hall
    exact hall
  have hpart := h.part
  obtain rfl : todo = [] := by
    cases todo with
    | nil => rfl
    | cons x todo =>
      rw [List.map_cons] at hpart hu
      have hlt := Segments.partial_cons.mp hpart
      rw [hu, List.flatten_cons, List.length_append] at hlt
      omega
  obtain rfl : texts = done := by rw [h.split, List.append_nil]
  exact ⟨u, h⟩

end Stream

/-! ## Round trip -/

/-- No append of the call is cut. -/
def Sent.Uncut (x : Sent) : Prop := ∀ args ∈ x.text.args, Tcp.Uncut x.pending args

instance decidableSentUncut (x : Sent) : Decidable x.Uncut :=
  inferInstanceAs (Decidable (∀ args ∈ x.text.args, Tcp.Uncut x.pending args))

theorem Sent.bytes_eq {x : Sent} (hfit : x.text.Fits) (huncut : x.Uncut) :
    x.bytes = some x.text.frame := by
  obtain ⟨header, hheader⟩ : ∃ header, x.text.header = some header := by
    rcases Nat.lt_or_ge x.text.msg.length 126 with hs | hl
    · exact ⟨_, Text.header_short hs⟩
    · exact ⟨_, Text.header_long hl hfit.length_lt⟩
  have hargs : x.text.args = some [.str header, .str x.text.sendMsg] := by
    rw [Text.args, hheader]
    rfl
  have hall := (enqueued_eq_iff (by simp) x.pending).mpr (huncut _ hargs)
  rw [Sent.bytes, hargs, Option.map_some, hall, Text.frame, hheader]
  simp [Arg.bytes]

/-- The bytes a list of calls adds to the stream. -/
def stream : List Sent → Option (List UInt8)
  | [] => some []
  | x :: xs => x.bytes.bind fun bytes ↦ (stream xs).map (bytes ++ ·)

theorem stream_eq {xs : List Sent} (hfit : ∀ x ∈ xs, x.text.Fits) (huncut : ∀ x ∈ xs, x.Uncut) :
    stream xs = some ((xs.map Sent.text).map Text.frame).flatten := by
  induction xs with
  | nil => rfl
  | cons x xs ih =>
    rw [stream, Sent.bytes_eq (hfit x List.mem_cons_self) (huncut x List.mem_cons_self),
      Option.bind_some, ih (fun y hy ↦ hfit y (List.mem_cons_of_mem _ hy))
        fun y hy ↦ huncut y (List.mem_cons_of_mem _ hy)]
    rfl

/-- **The text round trip.** For messages whose frames fit the buffer, in every chunking of the
stream that meets no stale length that wraps around: each message is handed on exactly once, in
order, as soon as its last byte has been received, exactly when no message is longer than `4092`
bytes and every read that completes a frame finds at least sixteen bytes in the buffer. -/
theorem handedOn_iff_prompt (xs : List Sent) {s₀ s' : TcpSocket} {chunks : List (List UInt8)}
    (hfit : ∀ x ∈ xs, x.text.Fits) (huncut : ∀ x ∈ xs, x.Uncut)
    (hopen : TcpSocket.Holding receiver s₀ []) (hstream : stream xs = some chunks.flatten)
    (hrun : (TcpSocket.system receiver).run s₀ (TcpSocket.readsOf chunks) = some s')
    (hclear : (TcpSocket.system receiver).Along (Clear s₀ (xs.map Sent.text)) s₀
      (TcpSocket.readsOf chunks)) :
    (TcpSocket.system receiver).Throughout (HandedOn s₀ (xs.map Sent.text)) s₀
        (TcpSocket.readsOf chunks)
      ↔ (∀ x ∈ xs, x.text.msg.length ≤ 4092)
        ∧ (TcpSocket.system receiver).Along (Prompt s₀ (xs.map Sent.text)) s₀
          (TcpSocket.readsOf chunks) := by
  have hfits : ∀ t ∈ xs.map Sent.text, t.Fits := List.forall_mem_map.mpr hfit
  have hfirst := reading_first hopen hfits
  have hbytes : chunks.flatten = ((xs.map Sent.text).map Text.frame).flatten :=
    Option.some.inj (hstream.symm.trans (stream_eq hfit huncut))
  have hnext : (TcpSocket.system receiver).Along (Next s₀ (xs.map Sent.text)) s₀
      (TcpSocket.readsOf chunks) :=
    (TcpSocket.along_stream (hbytes ▸ List.prefix_refl _)).and hclear
  constructor
  · intro hthrough
    have hprompt := (throughout_iff_prompt (fun s h ↦ h.counted hfits) (fun s h ↦ h) hfits hfirst
      hnext).mp (hthrough.mono fun s h ↦ h.counted)
    refine ⟨?_, hprompt⟩
    have hread := ((throughout_iff_prompt (fun s h ↦ h) (fun s h ↦ h.counted hfits) hfits hfirst
      hnext).mpr hprompt).last hrun
    obtain ⟨u, hend⟩ := hread.end_of_stream
      (by rw [TcpSocket.receivedBytes_run hrun, hbytes])
    exact List.forall_mem_map.mp ((hend.handedOn_iff hfits).mp (hthrough.last hrun))
  · rintro ⟨hlen, hprompt⟩
    refine (throughout_iff_prompt (fun s h ↦ ?_) (fun s h ↦ h.counted) hfits hfirst
      hnext).mpr hprompt
    obtain ⟨done, todo, u, h⟩ := h
    refine (h.handedOn_iff hfits).mpr fun t ht ↦ ?_
    obtain ⟨x, hx, rfl⟩ := List.mem_map.mp (h.split ▸ List.mem_append_left _ ht :
      t ∈ xs.map Sent.text)
    exact hlen x hx

/-- Two messages, the second one masked, in two reads. -/
theorem handedOn_two_reads :
    ∃ s', (TcpSocket.system receiver).run (accepted.initRead receiver) (TcpSocket.readsOf
        [[0x81, 2, 104], [105, 0x82, 0x87, 1, 2, 3, 4, 98, 123, 102, 36, 99, 123, 102]]) = some s'
      ∧ messages s'.log = [[104, 105], [99, 121, 101, 32, 98, 121, 101]] := by
  have hiff := handedOn_iff_prompt
    [⟨0, ⟨[104, 105], .textFrame, none⟩⟩,
      ⟨4, ⟨[99, 121, 101, 32, 98, 121, 101], .binaryFrame, some #v[1, 2, 3, 4]⟩⟩]
    (by decide) (by decide) (TcpSocket.holding_accepted (Nat.succ_pos _))
    (show _ = some [[0x81, 2, 104],
      [105, 0x82, 0x87, 1, 2, 3, 4, 98, 123, 102, 36, 99, 123, 102]].flatten by decide) rfl
    (by decide)
  exact ⟨_, rfl, (hiff.mpr ⟨by decide, by decide⟩).last rfl⟩

/-- The frame of `"hi"` is all there after four bytes, and nothing is handed on. -/
theorem short_frame_waits :
    Text.Fits ⟨[104, 105], .textFrame, none⟩
      ∧ stream [⟨0, ⟨[104, 105], .textFrame, none⟩⟩] = some [0x81, 2, 104, 105]
      ∧ TcpSocket.Holding receiver (accepted.initRead receiver) []
      ∧ ∃ s', (TcpSocket.system receiver).run (accepted.initRead receiver)
          (TcpSocket.readsOf [[0x81, 2, 104, 105]]) = some s'
        ∧ messages s'.log = []
        ∧ ¬HandedOn (accepted.initRead receiver) [⟨[104, 105], .textFrame, none⟩] s' := by
  refine ⟨by decide, by decide, TcpSocket.holding_accepted (Nat.succ_pos _), _, rfl, by decide, ?_⟩
  rw [HandedOn]
  decide

end Knet.WebSocket
