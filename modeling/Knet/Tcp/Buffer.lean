import Knet.Tcp.Reading

/-!
# The receive buffer

A *session* lasts from a connect to the next time the handler of `close` runs or `do_close` is
called. In a session the packages delivered, followed by the buffer, are what was received. The end
of a session empties the buffer and leaves the outstanding read as it was: when that read completes
all the same, its bytes go into the buffer of no session, and stay there for the next one, since
connecting does not empty the buffer. `InPlace` is what a step has to find for the sessions to stay
apart.
-/

namespace Knet.Tcp

namespace TcpSocket

variable {cfg : Config}

/-! ## Sessions -/

/-- The sessions of a connection. -/
structure Sessions where
  /-- What was seen in each session that is over, up to its end. -/
  past : List (List Entry) := []
  /-- The length of the history when the present session began. -/
  since : Option ℕ := none

/-- The present session ends, with this history. -/
def Sessions.over (h : Sessions) (log : List Entry) : Sessions :=
  ⟨h.past ++ (h.since.map log.drop).toList, none⟩

/-- A session begins: the next entry of the history is the connect. -/
def Sessions.begin (h : Sessions) (log : List Entry) : Sessions :=
  { h.over log with since := some (log.length + 1) }

/-- The present session ends if `do_close` is called, with this history. -/
def Sessions.upTo (h : Sessions) : Option (List Entry) → Sessions
  | none => h
  | some log => h.over log

/-- The history when `do_read` calls `do_close`, if it does: the buffer is full, and no package or
too long a one is in it. -/
def doReadCloses (cfg : Config) (s : TcpSocket) : Option (List Entry) :=
  if s.tcpSockOpen = true ∧ cfg.kReadBufferSize ≤ s.readBufferPos then
    if (s.scanned cfg 0).overlong = true
        ∨ cfg.kReadBufferSize ≤ (s.processData cfg 0).readBufferPos then
      some (s.scanned cfg 0).log
    else none
  else none

/-- The history when the handler of a read with these bytes calls `do_close`, if it does. -/
def readOkCloses (cfg : Config) (s : TcpSocket) (off : ℕ) (chunk : List UInt8) :
    Option (List Entry) :=
  let s : TcpSocket := { s with
    readBuffer := s.readBuffer.write off chunk
    log := s.log ++ [.received chunk] }
  if (s.scanned cfg chunk.length).overlong then some (s.scanned cfg chunk.length).log
  else (s.processData cfg chunk.length).doReadCloses cfg

/-- The history when a step ends the session, by `do_close` or by the handler of `close`, if it
does. -/
def closes (cfg : Config) (s : TcpSocket) : Action → Option (List Entry)
  | .readDone i chunk =>
    match s.reads[i]?, chunk with
    | some op, some chunk =>
      ({ s with reads := s.reads.eraseIdx i } : TcpSocket).readOkCloses cfg op.off chunk
    | _, _ => some s.log
  | .writeDone _ ok _ => if ok then none else some s.log
  | .runTask _ => if s.posted.head? = some .close then some s.log else none
  | _ => none

/-- The state in which `init_read` calls `do_read`. -/
def connected (s : TcpSocket) : TcpSocket :=
  ({ s with socketStatus := .opened }).processEvent .connect

/-- The sessions after `init_read`. -/
def initReadBegins (cfg : Config) (s : TcpSocket) (h : Sessions) : Sessions :=
  if s.connection then (h.begin s.log).upTo (s.connected.doReadCloses cfg) else h

/-- The sessions after a step. -/
def watch (cfg : Config) (s : TcpSocket) (a : Action) (h : Sessions) : Sessions :=
  match a with
  | .initRead => s.initReadBegins cfg h
  | .connectDone true =>
    ({ s with connects := s.connects - 1 } : TcpSocket).initReadBegins cfg h
  | a => h.upTo (s.closes cfg a)

/-- The socket, with an observer who keeps its sessions. -/
def watched (cfg : Config) : StepSystem (TcpSocket × Sessions) Action :=
  (system cfg).observe (watch cfg)

/-- The packages delivered in `log`, and then `rest`, are what was received in it. -/
def Balanced (log : List Entry) (rest : List UInt8) : Prop :=
  (delivered log).flatten ++ rest = receivedBytes log

/-- The buffer is not overrun, and no byte of a session was delivered twice or skipped: what its
packages leave is in the buffer, or was when it ended. -/
structure Intact (cfg : Config) (s : TcpSocket) (h : Sessions) : Prop where
  bounded : s.readBufferPos ≤ cfg.kReadBufferSize
  present : ∀ n ∈ h.since, Balanced (s.log.drop n) (s.readBuffer.read 0 s.readBufferPos)
  past : ∀ log ∈ h.past, ∃ rest, Balanced log rest

/-- What a step needs. A connect finds the buffer empty. A read that completes with bytes has put
them, in a session, where the buffer ends; out of one, they fit behind what is in the buffer. -/
def InPlace (cfg : Config) (w : TcpSocket × Sessions) : Action → Prop
  | .initRead | .connectDone true => w.1.connection = true → w.1.readBufferPos = 0
  | .readDone i (some chunk) => ∀ op ∈ w.1.reads[i]?,
    if w.2.since.isSome then op.off = w.1.readBufferPos
    else w.1.readBufferPos + chunk.length ≤ cfg.kReadBufferSize
  | _ => True

instance decidableInPlace (cfg : Config) :
    ∀ (w : TcpSocket × Sessions) (a : Action), Decidable (InPlace cfg w a)
  | w, .initRead | w, .connectDone true =>
    inferInstanceAs (Decidable (w.1.connection = true → w.1.readBufferPos = 0))
  | w, .readDone i (some chunk) => inferInstanceAs (Decidable (∀ op ∈ w.1.reads[i]?,
    if w.2.since.isSome then op.off = w.1.readBufferPos
    else w.1.readBufferPos + chunk.length ≤ cfg.kReadBufferSize))
  | _, .readDone _ none | _, .connectDone false | _, .connect _ | _, .msend _ | _, .post
  | _, .runTask _ | _, .take _ _ | _, .writeDone _ _ _ | _, .close | _, .enableReconnect
  | _, .disableReconnect | _, .timer _ => isTrue trivial

/-! ## What keeps the sessions apart -/

section Kept

variable {s t : TcpSocket} {h : Sessions} {nread n : ℕ} {log : List Entry}

@[simp] theorem Sessions.over_over (h : Sessions) (log log' : List Entry) :
    (h.over log).over log' = h.over log := by
  simp [Sessions.over]

@[simp] theorem Sessions.upTo_over (h : Sessions) (log : List Entry)
    (closing : Option (List Entry)) : (h.over log).upTo closing = h.over log := by
  cases closing with
  | none => rfl
  | some log' => exact h.over_over log log'

theorem mem_past_over {l : List Entry} :
    l ∈ (h.over log).past ↔ l ∈ h.past ∨ ∃ n ∈ h.since, log.drop n = l := by
  simp [Sessions.over]

/-- The invariant, when `nread` bytes behind the buffer still wait for `process_data`: besides, no
outstanding read reaches behind the end of `read_buffer`. -/
structure Kept (cfg : Config) (s : TcpSocket) (h : Sessions) (nread : ℕ) : Prop where
  bounded : s.readBufferPos + nread ≤ cfg.kReadBufferSize
  begun : ∀ n ∈ h.since, n ≤ s.log.length
  present : ∀ n ∈ h.since,
    Balanced (s.log.drop n) (s.readBuffer.read 0 (s.readBufferPos + nread))
  past : ∀ log ∈ h.past, ∃ rest, Balanced log rest
  reads : ∀ op ∈ s.reads, op.off + op.room ≤ cfg.kReadBufferSize

theorem Kept.intact (hk : Kept cfg s h 0) : Intact cfg s h := ⟨hk.bounded, hk.present, hk.past⟩

theorem Balanced.append {seen : List Entry} {rest : List UInt8} (hb : Balanced log rest)
    (hdel : delivered seen = []) (hrec : receivedBytes seen = []) :
    Balanced (log ++ seen) rest := by
  rw [Balanced, delivered_append, receivedBytes_append, hdel, hrec, List.append_nil,
    List.append_nil]
  exact hb

theorem Kept.quiet (hk : Kept cfg s h nread) {seen : List Entry} (hlog : t.log = s.log ++ seen)
    (hdel : delivered seen = []) (hrec : receivedBytes seen = [])
    (hbuf : t.readBuffer = s.readBuffer) (hpos : t.readBufferPos = s.readBufferPos)
    (hreads : ∀ op ∈ t.reads, op ∈ s.reads) : Kept cfg t h nread := by
  refine ⟨hpos ▸ hk.bounded, fun n hn ↦ ?_, fun n hn ↦ ?_, hk.past,
    fun op hop ↦ hk.reads op (hreads op hop)⟩
  · rw [hlog, List.length_append]
    exact Nat.le_trans (hk.begun n hn) (Nat.le_add_right _ _)
  · rw [hlog, hbuf, hpos, List.drop_append_of_le_length (hk.begun n hn)]
    exact (hk.present n hn).append hdel hrec

theorem Kept.frame (hk : Kept cfg s h nread) (hlog : t.log = s.log)
    (hbuf : t.readBuffer = s.readBuffer) (hpos : t.readBufferPos = s.readBufferPos)
    (hreads : t.reads = s.reads) : Kept cfg t h nread :=
  hk.quiet (hlog.trans (List.append_nil _).symm) rfl rfl hbuf hpos fun _ hop ↦ hreads ▸ hop

theorem Kept.over (hk : Kept cfg s h nread)
    (hend : ∀ n ∈ h.since, ∃ rest, Balanced (log.drop n) rest)
    (hpos : t.readBufferPos ≤ cfg.kReadBufferSize)
    (hreads : ∀ op ∈ t.reads, op ∈ s.reads) : Kept cfg t (h.over log) 0 := by
  refine ⟨hpos, by simp [Sessions.over], by simp [Sessions.over], fun l hl ↦ ?_,
    fun op hop ↦ hk.reads op (hreads op hop)⟩
  rcases mem_past_over.mp hl with hold | ⟨n, hn, rfl⟩
  · exact hk.past l hold
  · exact hend n hn

theorem Kept.over_log (hk : Kept cfg s h nread) (hpos : t.readBufferPos ≤ cfg.kReadBufferSize)
    (hreads : ∀ op ∈ t.reads, op ∈ s.reads) : Kept cfg t (h.over s.log) 0 :=
  hk.over (fun n hn ↦ ⟨_, hk.present n hn⟩) hpos hreads

theorem Kept.begin (hk : Kept cfg s h 0) (hpos : s.readBufferPos = 0) {evt : Entry}
    (hlog : t.log = s.log ++ [evt]) (hpos' : t.readBufferPos = s.readBufferPos)
    (hreads : t.reads = s.reads) : Kept cfg t (h.begin s.log) 0 := by
  have hlen : t.log.length = s.log.length + 1 := by rw [hlog, List.length_append]; rfl
  refine ⟨by rw [hpos', hpos]; exact Nat.zero_le _, ?_, ?_, ?_, by rw [hreads]; exact hk.reads⟩
  · rintro n ⟨⟩
    exact Nat.le_of_eq hlen.symm
  · rintro n ⟨⟩
    rw [List.drop_eq_nil_of_le (Nat.le_of_eq hlen), hpos', hpos]
    rfl
  · intro l hl
    rcases mem_past_over.mp hl with hold | ⟨n, hn, rfl⟩
    · exact hk.past l hold
    · exact ⟨_, hk.present n hn⟩

/-! ### `process_data` -/

theorem readBufferPos_doClose_le (s : TcpSocket) : s.doClose.readBufferPos ≤ s.readBufferPos := by
  rw [doClose_eq]
  split_ifs
  · exact Nat.le_refl _
  · exact Nat.zero_le _
  · exact Nat.zero_le _
  · exact Nat.zero_le _

theorem readBufferPos_processData_le (cfg : Config) (s : TcpSocket) (nread : ℕ) :
    (s.processData cfg nread).readBufferPos ≤ s.readBufferPos + nread := by
  cases hover : (s.scanned cfg nread).overlong with
  | true =>
    rw [processData_overlong hover]
    exact readBufferPos_doClose_le _
  | false =>
    rw [processData_fits hover]
    exact Nat.sub_le _ _

/-- What the loop has seen in the session, and what it left behind the last package. -/
theorem Kept.scanned (hk : Kept cfg s h nread) : ∀ n ∈ h.since,
    Balanced ((s.scanned cfg nread).log.drop n) (s.readBuffer.read (s.scanned cfg nread).readPos
      (s.readBufferPos + nread - (s.scanned cfg nread).readPos)) := by
  intro n hn
  obtain ⟨hle, seen, hlog, hrec, hdel⟩ := s.scanned_delivers cfg nread
  have hb := hk.present n hn
  rw [← Nat.add_sub_cancel' hle, Memory.read_add, Nat.zero_add] at hb
  rw [hlog, List.drop_append_of_le_length (hk.begun n hn), Balanced, delivered_append,
    List.flatten_append, hdel, receivedBytes_append, hrec, List.append_nil, List.append_assoc]
  exact hb

theorem Kept.processData (hk : Kept cfg s h nread)
    (hfits : (s.scanned cfg nread).overlong = false) :
    Kept cfg (s.processData cfg nread) h 0 := by
  have hlen : s.log.length ≤ (s.scanned cfg nread).log.length :=
    (prefix_log_scanned nread (List.prefix_refl _)).length_le
  have hpos := Nat.le_trans (readBufferPos_processData_le cfg s nread) hk.bounded
  refine ⟨hpos, ?_, ?_, hk.past, by rw [reads_processData]; exact hk.reads⟩
  · intro n hn
    rw [processData_fits hfits]
    exact Nat.le_trans (hk.begun n hn) hlen
  · intro n hn
    have hb := hk.scanned n hn
    rw [Nat.add_zero, read_processData hfits, processData_fits hfits]
    exact hb

theorem Kept.over_scanned (hk : Kept cfg s h nread)
    (hpos : t.readBufferPos ≤ (s.processData cfg nread).readBufferPos)
    (hreads : t.reads = s.reads) : Kept cfg t (h.over (s.scanned cfg nread).log) 0 := by
  refine hk.over (fun n hn ↦ ⟨_, hk.scanned n hn⟩) ?_ fun op hop ↦ hreads ▸ hop
  exact Nat.le_trans hpos
    (Nat.le_trans (readBufferPos_processData_le cfg s nread) hk.bounded)

/-! ### Reading -/

theorem Kept.doRead (hk : Kept cfg s h 0) :
    Kept cfg (s.doRead cfg) (h.upTo (s.doReadCloses cfg)) 0 := by
  simp only [TcpSocket.doRead]
  split_ifs with hopen hroom hfull
  · -- a read is issued for the room behind the buffer
    rw [doReadCloses, if_neg (fun hc ↦ Nat.not_le_of_lt hroom hc.2)]
    refine ⟨hk.bounded, hk.begun, hk.present, hk.past, fun op hop ↦ ?_⟩
    rcases List.mem_append.mp hop with hop | hop
    · exact hk.reads op hop
    · obtain rfl := List.mem_singleton.mp hop
      exact Nat.le_of_eq (Nat.add_sub_cancel' (Nat.le_of_lt hroom))
  · rw [doReadCloses, if_pos ⟨hopen, Nat.le_of_not_lt hroom⟩, if_pos (.inr hfull)]
    refine hk.over_scanned (readBufferPos_doClose_le _) ?_
    rw [reads_doClose, reads_processData]
  · rw [doReadCloses, if_pos ⟨hopen, Nat.le_of_not_lt hroom⟩]
    cases hover : (s.scanned cfg 0).overlong with
    | true =>
      rw [if_pos (.inl rfl)]
      exact hk.over_scanned (Nat.le_refl _) (reads_processData s 0)
    | false =>
      rw [if_neg (by simpa using hfull)]
      exact hk.processData hover
  · rw [doReadCloses, if_neg (fun hc ↦ hopen hc.1)]
    exact hk

theorem Kept.store (hk : Kept cfg s h 0) {off : ℕ} {chunk : List UInt8}
    (hfit : s.readBufferPos + chunk.length ≤ cfg.kReadBufferSize)
    (hoff : h.since.isSome → off = s.readBufferPos) :
    Kept cfg { s with
      readBuffer := s.readBuffer.write off chunk
      log := s.log ++ [.received chunk] } h chunk.length := by
  refine ⟨hfit, fun n hn ↦ ?_, fun n hn ↦ ?_, hk.past, hk.reads⟩
  · rw [List.length_append]
    exact Nat.le_trans (hk.begun n hn) (Nat.le_add_right _ _)
  · have hb : Balanced (s.log.drop n) (s.readBuffer.read 0 s.readBufferPos) := hk.present n hn
    rw [hoff (by rw [Option.mem_def.mp hn]; rfl), Memory.read_write_append,
      List.drop_append_of_le_length (hk.begun n hn), Balanced, ← List.append_assoc,
      delivered_append, receivedBytes_append, ← hb]
    simp [delivered, receivedBytes]

theorem Kept.readOk (hk : Kept cfg s h 0) {off : ℕ} {chunk : List UInt8}
    (hfit : s.readBufferPos + chunk.length ≤ cfg.kReadBufferSize)
    (hoff : h.since.isSome → off = s.readBufferPos) :
    Kept cfg (s.readOk cfg off chunk) (h.upTo (s.readOkCloses cfg off chunk)) 0 := by
  have hstored := hk.store hfit hoff
  simp only [TcpSocket.readOk, readOkCloses]
  split_ifs with hover
  · -- the session is over, whatever `do_read` does after it
    have hover' := (hstored.over_scanned (Nat.le_refl _) (reads_processData _ _)).doRead
    rwa [Sessions.upTo_over] at hover'
  · exact (hstored.processData (Bool.eq_false_iff.mpr hover)).doRead

theorem Kept.connected (hk : Kept cfg s h 0) (hpos : s.readBufferPos = 0) {evt : Entry}
    (hlog : t.log = s.log ++ [evt]) (hpos' : t.readBufferPos = s.readBufferPos)
    (hreads : t.reads = s.reads) :
    Kept cfg (t.doRead cfg) ((h.begin s.log).upTo (t.doReadCloses cfg)) 0 :=
  (hk.begin hpos hlog hpos' hreads).doRead

theorem Kept.initRead (hk : Kept cfg s h 0)
    (hpos : s.connection = true → s.readBufferPos = 0) :
    Kept cfg (s.initRead cfg) (s.initReadBegins cfg h) 0 := by
  rw [TcpSocket.initRead, initReadBegins]
  split_ifs with hconn
  · exact hk.connected (hpos hconn) rfl rfl rfl
  · exact hk

theorem Kept.readDone (hk : Kept cfg s h 0) {i : ℕ} {op : ReadOp} {chunk : List UInt8}
    (hop : s.reads[i]? = some op) (hroom : chunk.length ≤ op.room)
    (hplace : InPlace cfg (s, h) (.readDone i (some chunk))) :
    Kept cfg (({ s with reads := s.reads.eraseIdx i }).readOk cfg op.off chunk)
      (s.watch cfg (.readDone i (some chunk)) h) 0 := by
  have hk' : Kept cfg { s with reads := s.reads.eraseIdx i } h 0 :=
    hk.quiet (List.append_nil _).symm rfl rfl rfl rfl fun _ ↦ List.mem_of_mem_eraseIdx
  have hwatch : s.watch cfg (.readDone i (some chunk)) h
      = h.upTo (({ s with reads := s.reads.eraseIdx i } : TcpSocket).readOkCloses cfg op.off
        chunk) := by
    simp only [watch, closes, hop]
  have hin := hplace op hop
  rw [hwatch]
  cases hsince : h.since.isSome with
  | true =>
    rw [if_pos hsince] at hin
    have hend := hk.reads op (List.mem_of_getElem? hop)
    exact hk'.readOk (by rw [← hin]; omega) fun _ ↦ hin
  | false =>
    rw [if_neg (by rw [hsince]; exact Bool.false_ne_true)] at hin
    exact hk'.readOk hin fun hs ↦ absurd (hsince.symm.trans hs) Bool.false_ne_true

/-! ### Closing -/

theorem Kept.doClose (hk : Kept cfg s h 0) (hpos : t.readBufferPos = s.readBufferPos)
    (hreads : ∀ op ∈ t.reads, op ∈ s.reads) : Kept cfg t.doClose (h.over s.log) 0 := by
  apply hk.over_log
  · exact Nat.le_trans (readBufferPos_doClose_le t) (hpos ▸ hk.bounded)
  · rw [reads_doClose]
    exact hreads

theorem readBufferPos_closeTask (s : TcpSocket) (now : ℕ) :
    (s.closeTask now).readBufferPos = 0 := by
  rw [closeTask_eq]
  split_ifs <;> rfl

theorem reads_closeTask (s : TcpSocket) (now : ℕ) : (s.closeTask now).reads = s.reads := by
  obtain ⟨_, _, _, _, _, _, hw⟩ := s.doAsyncWrite_frame now
  have hreads : (s.doAsyncWrite now).reads = s.reads := by rw [hw]
  rw [closeTask_eq]
  split_ifs
  · exact hreads
  · exact hreads
  · rfl
  · rfl
  · rfl

theorem Kept.closeTask (hk : Kept cfg s h 0) (now : ℕ) :
    Kept cfg (s.closeTask now) (h.over s.log) 0 := by
  apply hk.over_log
  · rw [readBufferPos_closeTask]
    exact Nat.zero_le _
  · rw [reads_closeTask]
    exact fun _ hop ↦ hop

/-! ### Steps and runs -/

theorem Kept.doAsyncWrite (hk : Kept cfg s h nread) (now : ℕ) :
    Kept cfg (s.doAsyncWrite now) h nread := by
  obtain ⟨_, _, _, _, _, _, heq⟩ := s.doAsyncWrite_frame now
  rw [heq]
  exact hk.frame rfl rfl rfl rfl

theorem Kept.connect (hk : Kept cfg s h nread) (resolved : Bool) :
    Kept cfg (s.connect resolved) h nread := by
  simp only [TcpSocket.connect]
  split_ifs
  · exact hk.frame rfl rfl rfl rfl
  · exact hk.frame rfl rfl rfl rfl

/-- **One step.** A step that finds what it needs keeps the sessions apart. -/
theorem Kept.step {a : Action} (hk : Kept cfg s h 0) (hstep : (system cfg).step s a = some t)
    (hplace : InPlace cfg (s, h) a) : Kept cfg t (s.watch cfg a h) 0 := by
  cases fires_of_step hstep with
  | initRead hinit hopen => exact hk.initRead hplace
  | connect resolved => exact hk.connect resolved
  | connectDone ok hpending =>
    have hk' : Kept cfg { s with connects := s.connects - 1 } h 0 := hk.frame rfl rfl rfl rfl
    cases ok with
    | true => exact hk'.initRead hplace
    | false => exact hk'.frame rfl rfl rfl rfl
  | readOk i op chunk hop hchunk hroom => exact hk.readDone hop hroom hplace
  | readError i op hop =>
    have hwatch : s.watch cfg (.readDone i none) h = h.over s.log := by
      simp only [watch, closes, hop]
      rfl
    rw [hwatch]
    exact hk.doClose rfl fun _ ↦ List.mem_of_mem_eraseIdx
  | msend args =>
    rw [msend]
    split_ifs
    · exact hk.frame rfl rfl rfl rfl
    · exact hk.frame rfl rfl rfl rfl
  | post => exact hk.frame rfl rfl rfl rfl
  | doSend now rest hposted =>
    have hwatch : s.watch cfg (.runTask now) h = h := by
      simp [watch, closes, hposted, Sessions.upTo]
    rw [hwatch, doSendTask]
    have hk' : Kept cfg { s with posted := rest } h 0 := hk.frame rfl rfl rfl rfl
    split_ifs
    · exact hk'
    · exact hk'.doAsyncWrite now
  | closeTask now rest hposted =>
    have hwatch : s.watch cfg (.runTask now) h = h.over s.log := by
      simp [watch, closes, hposted, Sessions.upTo]
    have hk' : Kept cfg { s with posted := rest } h 0 := hk.frame rfl rfl rfl rfl
    rw [hwatch]
    exact hk'.closeTask now
  | take => exact hk.frame rfl rfl rfl rfl
  | writeOk i now w hw hrest =>
    rw [writeOk]
    refine Kept.doAsyncWrite ?_ now
    split_ifs
    · exact hk.quiet rfl rfl rfl rfl rfl fun _ hop ↦ hop
    · exact hk.frame rfl rfl rfl rfl
  | writeError i now w hw => exact hk.doClose rfl fun _ hop ↦ hop
  | close =>
    rw [close]
    split_ifs
    · exact hk
    · exact hk.frame rfl rfl rfl rfl
  | enableReconnect =>
    rw [enableReconnect]
    split_ifs
    · exact hk
    · exact hk.frame rfl rfl rfl rfl
  | disableReconnect => exact hk.frame rfl rfl rfl rfl
  | timer resolved hrun =>
    rw [timerFires]
    split_ifs
    · exact hk
    · exact hk.connect resolved

theorem kept_new (cfg : Config) (isOpen : Bool) : Kept cfg { tcpSockOpen := isOpen } {} 0 :=
  ⟨Nat.zero_le _, by simp, by simp, by simp, by simp⟩

/-- **Every run.** When all steps of a run find what they need, the state it reaches is intact. -/
theorem Kept.run {as : List Action} (hk : Kept cfg s h 0) (hrun : (system cfg).run s as = some t)
    (halong : (watched cfg).Along (InPlace cfg) (s, h) as) :
    ∃ k, (watched cfg).run (s, h) as = some (t, k) ∧ Intact cfg t k := by
  obtain ⟨k, hwatched, hlast⟩ := StepSystem.observe_invariant_of_run
    (I := fun s h ↦ Kept cfg s h 0) hk
    (fun _ _ _ _ hk' hstep hplace ↦ hk'.step hstep hplace) hrun halong
  exact ⟨k, hwatched, hlast.intact⟩

end Kept

end TcpSocket

end Knet.Tcp
