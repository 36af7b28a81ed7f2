import Knet.Lib.Segments
import Knet.Tcp.Loop

/-!
# Reading from a socket

The invariant of an open socket between two reads, and what one completed read does to it. A socket
*holds* the bytes `u` when they are the contents of `read_buffer[0 .. read_buffer_pos)` and exactly
one read is outstanding, for the room behind them.

The loop of `process_data` passes a window to `process_package` that reaches behind the unconsumed
bytes into stale ones. `scan_packages` is what survives of the framing: a `handle_package` whose
answer does not depend on what stands behind a complete package still cuts the buffer into packages.
-/

namespace Knet.Tcp

namespace TcpSocket

variable {cfg : Config}

/-- The socket is open and waits for bytes behind the unconsumed bytes `u`. -/
structure Holding (cfg : Config) (s : TcpSocket) (u : List UInt8) : Prop where
  status : s.socketStatus = .opened
  connection : s.connection = true
  isOpen : s.tcpSockOpen = true
  pos : s.readBufferPos = u.length
  bytes : s.readBuffer.read 0 u.length = u
  room : u.length < cfg.kReadBufferSize
  reads : s.reads = [⟨u.length, cfg.kReadBufferSize - u.length⟩]

theorem holding_initRead {s : TcpSocket} (hconn : s.connection = true)
    (hopen : s.tcpSockOpen = true) (hpos : s.readBufferPos = 0) (hreads : s.reads = [])
    (hK : 0 < cfg.kReadBufferSize) : Holding cfg (s.initRead cfg) [] := by
  have hinit : s.initRead cfg = { s with
      socketStatus := .opened
      log := s.log ++ [.event .connect]
      reads := [⟨0, cfg.kReadBufferSize⟩] } := by
    simp [initRead, processEvent, doRead, hconn, hopen, hpos, hreads, hK]
  rw [hinit]
  exact ⟨rfl, hconn, hopen, hpos, rfl, hK, rfl⟩

theorem holding_accepted (hK : 0 < cfg.kReadBufferSize) :
    Holding cfg (accepted.initRead cfg) [] :=
  holding_initRead rfl rfl rfl rfl hK

/-- The completed reads `chunks`, one after the other. -/
def readsOf (chunks : List (List UInt8)) : List Action := chunks.map fun c ↦ .readDone 0 (some c)

@[simp] theorem readsOf_cons (c : List UInt8) (cs : List (List UInt8)) :
    readsOf (c :: cs) = .readDone 0 (some c) :: readsOf cs := rfl

/-- The completion handler of the one outstanding read. -/
def readNext (cfg : Config) (s : TcpSocket) (u chunk : List UInt8) : TcpSocket :=
  ({ s with reads := [] }).readOk cfg u.length chunk

/-- The one outstanding read can complete with any non-empty chunk for which there is room. -/
theorem Holding.step_iff {s t : TcpSocket} {u chunk : List UInt8} (h : Holding cfg s u) :
    (system cfg).step s (.readDone 0 (some chunk)) = some t ↔
      0 < chunk.length ∧ (u ++ chunk).length ≤ cfg.kReadBufferSize
        ∧ t = readNext cfg s u chunk := by
  have hroom := h.room
  simp only [system_step, step, h.reads, List.getElem?_cons_zero, List.eraseIdx_cons_zero,
    List.length_append]
  by_cases hc : 0 < chunk.length ∧ chunk.length ≤ cfg.kReadBufferSize - u.length
  · rw [if_pos hc, Option.some.injEq, eq_comm (b := t)]
    constructor
    · rintro rfl
      exact ⟨hc.1, by omega, rfl⟩
    · rintro ⟨-, -, rfl⟩
      rfl
  · rw [if_neg hc]
    constructor
    · intro hnone
      exact absurd hnone (by simp)
    · rintro ⟨h1, h2, -⟩
      exact absurd ⟨h1, by omega⟩ hc

theorem Holding.read_write {s : TcpSocket} {u : List UInt8} (h : Holding cfg s u)
    (chunk : List UInt8) :
    (s.readBuffer.write u.length chunk).read 0 (u ++ chunk).length = u ++ chunk := by
  rw [List.length_append, Memory.read_write_append, h.bytes]

/-- The loop that the handler of a completed read runs. -/
def readScan (cfg : Config) (s : TcpSocket) (u chunk : List UInt8) : Scan :=
  scan cfg (s.readBuffer.write u.length chunk) (u ++ chunk).length (u ++ chunk).length
    (s.log ++ [.received chunk]) 0

/-- The first call of `process_package` after a read is given exactly the unconsumed bytes; here it
finds no complete package. -/
theorem Holding.readScan_stop {s : TcpSocket} {u chunk : List UInt8} {pkgLen : ℤ}
    (h : Holding cfg s u) (hchunk : 0 < chunk.length)
    (hlen : cfg.handlePackage (s.log ++ [.received chunk]) (u ++ chunk) = pkgLen)
    (hstop : pkgLen ≤ 0 ∨ ((u ++ chunk).length : ℤ) < pkgLen) :
    readScan cfg s u chunk = ⟨s.log ++ [.received chunk, .package (u ++ chunk)], 0,
      decide ((cfg.kReadBufferSize : ℤ) < pkgLen)⟩ := by
  have hpos : 0 < (u ++ chunk).length := by rw [List.length_append]; omega
  obtain ⟨n, hn⟩ : ∃ n, (u ++ chunk).length = n + 1 := ⟨(u ++ chunk).length - 1, by omega⟩
  have hwin := h.read_write chunk
  have hcall : cfg.handlePackage (s.log ++ [.received chunk])
      ((s.readBuffer.write u.length chunk).read 0 (u ++ chunk).length) = pkgLen := by
    rw [hwin, hlen]
  rw [readScan]
  nth_rewrite 2 [hn]
  rw [scan_stop hpos hcall (by simpa using hstop), hwin, List.append_assoc]
  rfl

theorem Holding.readScan_take {s : TcpSocket} {u chunk : List UInt8} {n : ℕ}
    (h : Holding cfg s u)
    (hlen : cfg.handlePackage (s.log ++ [.received chunk]) (u ++ chunk) = n) (hpos : 0 < n)
    (hfit : n ≤ (u ++ chunk).length) :
    readScan cfg s u chunk = scan cfg (s.readBuffer.write u.length chunk) (u ++ chunk).length
      ((u ++ chunk).length - 1)
      (s.log ++ [.received chunk, .package (u ++ chunk), .data ((u ++ chunk).take n)]) n := by
  obtain ⟨k, hk⟩ : ∃ k, (u ++ chunk).length = k + 1 := ⟨(u ++ chunk).length - 1, by omega⟩
  have hwin := h.read_write chunk
  have hdata : (s.readBuffer.write u.length chunk).read 0 n = (u ++ chunk).take n := by
    rw [← Memory.take_read _ _ hfit, hwin]
  rw [readScan]
  nth_rewrite 2 [hk]
  rw [scan_take (by omega) (by rw [hwin]; exact hlen) hpos (by omega), hwin, hdata,
    List.append_assoc, Nat.zero_add, hk, Nat.add_sub_cancel]
  rfl

/-- The state in which the handler of a completed read enters `process_data`. -/
theorem Holding.scanned_eq {s : TcpSocket} {u : List UInt8} (h : Holding cfg s u)
    (chunk : List UInt8) :
    ({ s with
      reads := []
      readBuffer := s.readBuffer.write u.length chunk
      log := s.log ++ [.received chunk] } : TcpSocket).scanned cfg chunk.length
      = readScan cfg s u chunk := by
  rw [scanned, if_pos (by exact h.connection), readScan, List.length_append, ← h.pos]

/-- A completed read after which the loop stops at `readPos`: the socket holds what is behind it. -/
theorem Holding.readNext {s : TcpSocket} {u chunk : List UInt8} {log : List Entry} {readPos : ℕ}
    (h : Holding cfg s u) (hscan : readScan cfg s u chunk = ⟨log, readPos, false⟩)
    (hle : readPos ≤ (u ++ chunk).length)
    (hroom : (u ++ chunk).length - readPos < cfg.kReadBufferSize) :
    Holding cfg (readNext cfg s u chunk) ((u ++ chunk).drop readPos)
      ∧ (TcpSocket.readNext cfg s u chunk).log = log := by
  set s₁ : TcpSocket := { s with
    reads := []
    readBuffer := s.readBuffer.write u.length chunk
    log := s.log ++ [.received chunk] } with hs₁
  have hpos : s₁.readBufferPos + chunk.length = (u ++ chunk).length := by
    rw [List.length_append, ← h.pos]
  have hscanned : s₁.scanned cfg chunk.length = ⟨log, readPos, false⟩ :=
    (h.scanned_eq chunk).trans hscan
  have hfits : (s₁.scanned cfg chunk.length).overlong = false := by rw [hscanned]
  have hdata := processData_fits hfits
  simp only [hscanned, hpos] at hdata
  have hlen : ((u ++ chunk).drop readPos).length = (u ++ chunk).length - readPos :=
    List.length_drop
  -- what the buffer starts with after the compaction
  have hbytes : (if readPos < (u ++ chunk).length then
      s₁.readBuffer.move 0 readPos ((u ++ chunk).length - readPos) else s₁.readBuffer).read 0
        ((u ++ chunk).drop readPos).length = (u ++ chunk).drop readPos := by
    rw [hlen]
    split_ifs with hlt
    · rw [Memory.read_move]
      have hdrop := Memory.drop_read s₁.readBuffer 0 (u ++ chunk).length readPos
      rw [h.read_write chunk, Nat.zero_add] at hdrop
      exact hdrop.symm
    · have hzero : (u ++ chunk).length - readPos = 0 := by omega
      rw [hzero, Memory.read_zero, List.drop_eq_nil_of_le (by omega)]
  have hnext : TcpSocket.readNext cfg s u chunk
      = (s₁.processData cfg chunk.length).doRead cfg := rfl
  rw [hnext, hdata, doRead, if_pos (show s₁.tcpSockOpen = true from h.isOpen), if_pos hroom]
  refine ⟨⟨h.status, h.connection, h.isOpen, hlen.symm, hbytes, hlen ▸ hroom, ?_⟩, rfl⟩
  rw [hlen]
  rfl

theorem Holding.log_readScan_prefix {s : TcpSocket} {u : List UInt8} (h : Holding cfg s u)
    (chunk : List UInt8) :
    (readScan cfg s u chunk).log <+: (TcpSocket.readNext cfg s u chunk).log := by
  refine prefix_log_doRead (prefix_log_processData _ ?_)
  exact ⟨[], (List.append_nil _).trans (congrArg Scan.log (h.scanned_eq chunk).symm)⟩

/-- A window of the loop is the unconsumed bytes followed by stale ones. -/
theorem read_window (m : Memory UInt8) {readPos pos : ℕ} (h : readPos ≤ pos) :
    m.read readPos pos = m.read readPos (pos - readPos) ++ m.read pos readPos := by
  have hsplit := m.read_add readPos (pos - readPos) readPos
  rw [Nat.sub_add_cancel h, Nat.add_sub_cancel' h] at hsplit
  exact hsplit

theorem Holding.last_window {s : TcpSocket} {u chunk front rest : List UInt8} (h : Holding cfg s u)
    (hsplit : u ++ chunk = front ++ rest) :
    ∃ stale, (s.readBuffer.write u.length chunk).read ((u ++ chunk).length - rest.length)
      (u ++ chunk).length = rest ++ stale := by
  have hwin := h.read_write chunk
  rw [hsplit] at hwin
  obtain ⟨-, hrest⟩ := Memory.read_eq_append _ hwin
  have hfront : (front ++ rest).length - rest.length = front.length := by
    rw [List.length_append, Nat.add_sub_cancel]
  rw [hsplit, hfront, read_window _ (by rw [List.length_append]; omega)]
  rw [Nat.zero_add] at hrest
  exact ⟨_, congrArg (· ++ _) hrest⟩

/-- **The loop cuts the buffer into packages.** When `handle_package` tells the length of a complete
package whatever stands behind it, and does not take the incomplete rest for complete in the window
in which it comes to stand, the loop delivers the packages in the buffer and stops at the rest. -/
theorem scan_packages {m : Memory UInt8} {pos fuel readPos : ℕ} {log : List Entry}
    {ps : List (List UInt8)} {rest : List UInt8}
    (hbuf : m.read readPos (pos - readPos) = ps.flatten ++ rest) (hpos : readPos ≤ pos)
    (hfuel : pos - readPos ≤ fuel)
    (hpkg : ∀ p ∈ ps, 0 < p.length ∧
      ∀ log tail, (p ++ tail).length = pos → cfg.handlePackage log (p ++ tail) = p.length)
    (hrest : rest ≠ [] → ∀ log,
      (cfg.handlePackage log (m.read (pos - rest.length) pos) ≤ 0
        ∨ (rest.length : ℤ) < cfg.handlePackage log (m.read (pos - rest.length) pos))
      ∧ cfg.handlePackage log (m.read (pos - rest.length) pos) ≤ cfg.kReadBufferSize) :
    ∃ log', scan cfg m pos fuel log readPos = ⟨log', pos - rest.length, false⟩
      ∧ delivered log' = delivered log ++ ps ∧ receivedBytes log' = receivedBytes log := by
  have hlen : pos - readPos = ps.flatten.length + rest.length := by
    rw [← List.length_append, ← hbuf, Memory.length_read]
  induction ps generalizing readPos log fuel with
  | nil =>
    rw [List.flatten_nil, List.length_nil, Nat.zero_add] at hlen
    rw [List.flatten_nil, List.nil_append] at hbuf
    rcases Nat.lt_or_ge readPos pos with hlt | hge
    · -- an incomplete package is left: one more call, and the loop ends
      obtain ⟨fuel, rfl⟩ : ∃ n, fuel = n + 1 := ⟨fuel - 1, by omega⟩
      have hne : rest ≠ [] := List.length_pos_iff.mp (by omega)
      have hans := hrest hne log
      rw [show pos - rest.length = readPos by omega] at hans
      have hstop : cfg.handlePackage log (m.read readPos pos) ≤ 0
          ∨ (pos : ℤ) - readPos < cfg.handlePackage log (m.read readPos pos) := by
        rcases hans.1 with h0 | hbig
        · exact .inl h0
        · exact .inr (by omega)
      rw [scan_stop hlt rfl hstop, decide_eq_false (by omega)]
      refine ⟨log ++ [.package (m.read readPos pos)], ?_, by simp [delivered],
        by simp [receivedBytes]⟩
      rw [show readPos = pos - rest.length by omega]
    · rw [scan_exit hge]
      exact ⟨log, by rw [show readPos = pos - rest.length by omega], by simp, rfl⟩
  | cons p ps ih =>
    obtain ⟨hp, hans⟩ := hpkg p List.mem_cons_self
    rw [List.flatten_cons, List.length_append] at hlen
    obtain ⟨fuel, rfl⟩ : ∃ n, fuel = n + 1 := ⟨fuel - 1, by omega⟩
    rw [List.flatten_cons, List.append_assoc] at hbuf
    obtain ⟨hread, hbuf'⟩ := m.read_eq_append hbuf
    rw [Nat.sub_sub] at hbuf'
    -- the window starts with the package, so its length is what the call answers
    have hwin := read_window m hpos
    rw [hbuf, List.append_assoc] at hwin
    have hcall := hans log _ (by rw [← hwin, Memory.length_read])
    rw [← hwin] at hcall
    rw [scan_take (by omega) hcall hp (by omega), hread]
    obtain ⟨log', hscan, hdel, hrec⟩ : ∃ log',
        scan cfg m pos fuel (log ++ [.package (m.read readPos pos), .data p]) (readPos + p.length)
          = ⟨log', pos - rest.length, false⟩
        ∧ delivered log' = delivered (log ++ [.package (m.read readPos pos), .data p]) ++ ps
        ∧ receivedBytes log' = receivedBytes (log ++ [.package (m.read readPos pos), .data p]) :=
      ih hbuf' (by omega) (by omega) (fun q hq ↦ hpkg q (List.mem_cons_of_mem _ hq)) (by omega)
    refine ⟨log', hscan, ?_, ?_⟩
    · rw [hdel, delivered_append]
      simp [delivered]
    · rw [hrec, receivedBytes_append]
      simp [receivedBytes]

/-- **One read that completes the packages `done`**, and after which the socket holds `rest`. -/
theorem Holding.readNext_packages {s : TcpSocket} {u chunk rest : List UInt8}
    {done : List (List UInt8)} (h : Holding cfg s u) (hsplit : u ++ chunk = done.flatten ++ rest)
    (hpkg : ∀ p ∈ done, 0 < p.length ∧ ∀ log tail, (p ++ tail).length = (u ++ chunk).length →
      cfg.handlePackage log (p ++ tail) = p.length)
    (hrest : rest ≠ [] → ∀ log, (cfg.handlePackage log ((s.readBuffer.write u.length chunk).read
        ((u ++ chunk).length - rest.length) (u ++ chunk).length) ≤ 0
      ∨ (rest.length : ℤ) < cfg.handlePackage log ((s.readBuffer.write u.length chunk).read
        ((u ++ chunk).length - rest.length) (u ++ chunk).length))
      ∧ cfg.handlePackage log ((s.readBuffer.write u.length chunk).read
        ((u ++ chunk).length - rest.length) (u ++ chunk).length) ≤ cfg.kReadBufferSize)
    (hlt : rest.length < cfg.kReadBufferSize) :
    Holding cfg (TcpSocket.readNext cfg s u chunk) rest
      ∧ delivered (TcpSocket.readNext cfg s u chunk).log = delivered s.log ++ done
      ∧ receivedBytes (TcpSocket.readNext cfg s u chunk).log = receivedBytes s.log ++ chunk := by
  have hbuf : (s.readBuffer.write u.length chunk).read 0 ((u ++ chunk).length - 0)
      = done.flatten ++ rest := by
    rw [Nat.sub_zero, h.read_write, hsplit]
  obtain ⟨log, hscan, hdel, hrec⟩ : ∃ log, readScan cfg s u chunk
      = ⟨log, (u ++ chunk).length - rest.length, false⟩
      ∧ delivered log = delivered (s.log ++ [.received chunk]) ++ done
      ∧ receivedBytes log = receivedBytes (s.log ++ [.received chunk]) := by
    rw [readScan]
    exact scan_packages hbuf (Nat.zero_le _) (Nat.le_refl _) hpkg hrest
  have hlen : (u ++ chunk).length = done.flatten.length + rest.length := by
    rw [hsplit, List.length_append]
  obtain ⟨hnext, hlog⟩ := h.readNext hscan (Nat.sub_le _ _) (by omega)
  have hdrop : (u ++ chunk).drop ((u ++ chunk).length - rest.length) = rest := by
    rw [hlen, Nat.add_sub_cancel, hsplit, List.drop_left]
  rw [hdrop] at hnext
  refine ⟨hnext, ?_, ?_⟩
  · rw [hlog, hdel]
    simp [delivered]
  · rw [hlog, hrec]
    simp [receivedBytes]

/-! ## Streams of packages that can be told from what stands behind them -/

/-- `handle_package` tells the length of each of the packages `ps` whatever stands behind it in the
buffer, and never takes a strict part of one for complete. -/
structure Recognises (cfg : Config) (ps : List (List UInt8)) : Prop where
  fits : ∀ p ∈ ps, 0 < p.length ∧ p.length ≤ cfg.kReadBufferSize
  whole : ∀ p ∈ ps, ∀ log tail, (p ++ tail).length ≤ cfg.kReadBufferSize →
    cfg.handlePackage log (p ++ tail) = p.length
  part : ∀ p ∈ ps, ∀ u, u ≠ [] → u <+: p → u.length < p.length → ∀ log tail,
    (u ++ tail).length ≤ cfg.kReadBufferSize →
      (cfg.handlePackage log (u ++ tail) ≤ 0
        ∨ (u.length : ℤ) < cfg.handlePackage log (u ++ tail))
      ∧ cfg.handlePackage log (u ++ tail) ≤ cfg.kReadBufferSize

section Recognised

variable {s s' : TcpSocket} {u chunk more : List UInt8} {ps cs : List (List UInt8)}

theorem Recognises.of_append {done : List (List UInt8)} (h : Recognises cfg (done ++ ps)) :
    Recognises cfg ps :=
  ⟨fun p hp ↦ h.fits p (List.mem_append_right _ hp),
    fun p hp ↦ h.whole p (List.mem_append_right _ hp),
    fun p hp ↦ h.part p (List.mem_append_right _ hp)⟩

/-- One read of such a stream: the packages it completes are delivered, and the socket holds the
part of the next one. -/
theorem Holding.readNext_recognised (h : Holding cfg s u) (hps : Recognises cfg ps)
    (hroom : (u ++ chunk).length ≤ cfg.kReadBufferSize)
    (hstream : u ++ chunk ++ more = ps.flatten) :
    ∃ done todo rest, ps = done ++ todo ∧ u ++ chunk = done.flatten ++ rest
      ∧ rest ++ more = todo.flatten ∧ Segments.Partial todo rest
      ∧ Holding cfg (TcpSocket.readNext cfg s u chunk) rest
      ∧ delivered (TcpSocket.readNext cfg s u chunk).log = delivered s.log ++ done := by
  obtain ⟨done, todo, rest, rfl, hsplit, hrest, hpart⟩ :=
    Segments.exists_split
      (show u ++ chunk ++ more = ps.flatten ++ [] by rw [hstream, List.append_nil])
  rw [List.append_nil] at hrest
  have hnext : rest ≠ [] → ∃ p ∈ todo, rest <+: p ∧ rest.length < p.length :=
    Segments.partial_prefix hpart hrest
  have hlt : rest.length < cfg.kReadBufferSize := by
    by_cases hne : rest = []
    · rw [hne]
      exact Nat.lt_of_le_of_lt (Nat.zero_le _) h.room
    · obtain ⟨p, hp, -, hlt⟩ := hnext hne
      have := (hps.fits p (List.mem_append_right _ hp)).2
      omega
  obtain ⟨hhold, hdel, -⟩ := h.readNext_packages hsplit
    (fun p hp ↦ ⟨(hps.fits p (List.mem_append_left _ hp)).1, fun log tail hlen ↦
      hps.whole p (List.mem_append_left _ hp) log tail (hlen ▸ hroom)⟩)
    (fun hne log ↦ by
      obtain ⟨p, hp, hpre, hlt⟩ := hnext hne
      obtain ⟨stale, hwin⟩ := h.last_window hsplit
      have hlen : (rest ++ stale).length ≤ cfg.kReadBufferSize := by
        rw [← hwin, Memory.length_read]
        exact hroom
      rw [hwin]
      exact hps.part p (List.mem_append_right _ hp) rest hne hpre hlt log stale hlen) hlt
  exact ⟨done, todo, rest, rfl, hsplit, hrest, hpart, hhold, hdel⟩

/-- **A stream that `handle_package` recognises is delivered however it is cut into reads.** After
any part of the stream, the packages that are whole have been delivered and the socket holds the
part of the next one. -/
theorem Holding.run_recognised (h : Holding cfg s u) (hps : Recognises cfg ps)
    (hu : Segments.Partial ps u) (hstream : u ++ cs.flatten ++ more = ps.flatten)
    (hrun : (system cfg).run s (readsOf cs) = some s') :
    ∃ done todo rest, ps = done ++ todo ∧ u ++ cs.flatten = done.flatten ++ rest
      ∧ rest ++ more = todo.flatten ∧ Segments.Partial todo rest ∧ Holding cfg s' rest
      ∧ delivered s'.log = delivered s.log ++ done := by
  induction cs generalizing s u ps with
  | nil =>
    obtain rfl := Option.some.inj hrun
    rw [List.flatten_nil, List.append_nil] at hstream
    exact ⟨[], ps, u, rfl, by simp, hstream, hu, h, by simp⟩
  | cons c cs ih =>
    rw [readsOf_cons, StepSystem.run_cons_eq_some] at hrun
    obtain ⟨t, hstep, hrest⟩ := hrun
    obtain ⟨-, hroom, rfl⟩ := h.step_iff.mp hstep
    rw [List.flatten_cons, ← List.append_assoc, List.append_assoc] at hstream
    obtain ⟨done, todo, rest, rfl, hsplit, hmore, hpart, hnext, hdel⟩ :=
      h.readNext_recognised hps hroom hstream
    obtain ⟨done', todo', rest', rfl, hsplit', hmore', hpart', hnext', hdel'⟩ :=
      ih hnext hps.of_append hpart (by rw [List.append_assoc, hmore]) hrest
    refine ⟨done ++ done', todo', rest', (List.append_assoc _ _ _).symm, ?_, hmore', hpart', hnext',
      ?_⟩
    · rw [List.flatten_cons, ← List.append_assoc, hsplit, List.append_assoc, hsplit',
        List.flatten_append, List.append_assoc]
    · rw [hdel', hdel, List.append_assoc]

end Recognised

/-! ## What is delivered was received

Whatever `handle_package` answers, and even when the socket is closed on the way, the packages
delivered are pieces of the received bytes in their order. -/

section Accounting

variable {s s' : TcpSocket}

/-- The packages delivered, and then the first `n` bytes of the buffer, were received in this
order. -/
def Accounted (s : TcpSocket) (n : ℕ) : Prop :=
  ((delivered s.log).flatten ++ s.readBuffer.read 0 n).Sublist (receivedBytes s.log)

theorem delivered_closingEvents (status : SocketStatus) :
    delivered (closingEvents status) = [] := by
  rw [closingEvents]
  split_ifs <;> rfl

theorem receivedBytes_closingEvents (status : SocketStatus) :
    receivedBytes (closingEvents status) = [] := by
  rw [closingEvents]
  split_ifs <;> rfl

theorem Accounted.mono {n k : ℕ} (h : Accounted s n) (hk : k ≤ n) : Accounted s k := by
  rw [Accounted] at h ⊢
  obtain ⟨r, rfl⟩ := Nat.exists_eq_add_of_le hk
  rw [Memory.read_add, ← List.append_assoc] at h
  exact (List.sublist_append_left _ _).trans h

/-- `do_close` empties the buffer of a socket that was not closed before. -/
theorem Accounted.doClose (h : Accounted s 0)
    (hst : ¬(s.socketStatus = .closing ∨ s.socketStatus = .closed)) :
    Accounted s.doClose s.doClose.readBufferPos := by
  rw [doClose_eq, if_neg hst]
  split_ifs
  · rw [Accounted] at h ⊢
    simpa [delivered_closingEvents, receivedBytes_closingEvents] using h
  · rw [Accounted] at h ⊢
    simpa [delivered_closingEvents, receivedBytes_closingEvents, delivered, receivedBytes] using h
  · exact h

theorem reads_doClose (s : TcpSocket) : s.doClose.reads = s.reads := by
  rw [doClose_eq]
  split_ifs <;> rfl

theorem receivedBytes_doClose (s : TcpSocket) :
    receivedBytes s.doClose.log = receivedBytes s.log := by
  rw [doClose_eq]
  split_ifs
  · rfl
  · simp [receivedBytes_closingEvents]
  · simp [receivedBytes_closingEvents, receivedBytes]
  · rfl

/-- A socket that is closed has no connection left. -/
def Attached (s : TcpSocket) : Prop :=
  s.connection = true → ¬(s.socketStatus = .closing ∨ s.socketStatus = .closed)

theorem attached_doClose (h : Attached s) : Attached s.doClose := by
  intro hconn
  rw [doClose_eq] at hconn ⊢
  split_ifs at hconn ⊢ with hst hc hre
  · exact h hconn
  · simp
  · exact absurd hconn hc

theorem scanned_consumes (s : TcpSocket) (nread : ℕ) : ∃ n, (s.scanned cfg nread).readPos = n
    ∧ n ≤ s.readBufferPos + nread
    ∧ (delivered (s.scanned cfg nread).log).flatten
      = (delivered s.log).flatten ++ s.readBuffer.read 0 n
    ∧ receivedBytes (s.scanned cfg nread).log = receivedBytes s.log := by
  obtain ⟨hle, seen, hlog, hrec, hdel⟩ := s.scanned_delivers cfg nread
  refine ⟨_, rfl, hle, ?_, ?_⟩
  · rw [hlog, delivered_append, List.flatten_append, hdel]
  · rw [hlog, receivedBytes_append, hrec, List.append_nil]

theorem Accounted.processData {nread : ℕ} (h : Accounted s (s.readBufferPos + nread))
    (hatt : Attached s) :
    Accounted (s.processData cfg nread) (s.processData cfg nread).readBufferPos := by
  obtain ⟨n, hpos, hle, hdel, hrec⟩ := s.scanned_consumes nread
  -- the loop moves the line between what is delivered and what is buffered
  have hmoved : ((delivered (s.scanned cfg nread).log).flatten
      ++ s.readBuffer.read n (s.readBufferPos + nread - n)).Sublist
        (receivedBytes (s.scanned cfg nread).log) := by
    have hsplit := s.readBuffer.read_add 0 n (s.readBufferPos + nread - n)
    rw [Nat.add_sub_cancel' hle, Nat.zero_add] at hsplit
    rw [hdel, hrec, List.append_assoc, ← hsplit]
    exact h
  cases hover : (s.scanned cfg nread).overlong with
  | true =>
    have hconn : s.connection = true := by
      by_contra hc
      rw [scanned, if_neg hc] at hover
      exact Bool.false_ne_true hover
    rw [processData_overlong hover]
    refine Accounted.doClose ?_ (hatt hconn)
    rw [Accounted, Memory.read_zero, List.append_nil]
    exact (List.sublist_append_left _ _).trans hmoved
  | false =>
    rw [Accounted, read_processData hover, processData_fits hover, hpos]
    exact hmoved

theorem attached_processData {nread : ℕ} (h : Attached s) : Attached (s.processData cfg nread) := by
  cases hover : (s.scanned cfg nread).overlong with
  | true =>
    rw [processData_overlong hover]
    exact attached_doClose h
  | false =>
    rw [processData_fits hover]
    exact h

theorem reads_processData (s : TcpSocket) (nread : ℕ) :
    (s.processData cfg nread).reads = s.reads := by
  cases hover : (s.scanned cfg nread).overlong with
  | true => rw [processData_overlong hover, reads_doClose]
  | false => rw [processData_fits hover]

theorem receivedBytes_processData (s : TcpSocket) (nread : ℕ) :
    receivedBytes (s.processData cfg nread).log = receivedBytes s.log := by
  obtain ⟨_, -, -, -, hrec⟩ := s.scanned_consumes nread
  cases hover : (s.scanned cfg nread).overlong with
  | true => rw [processData_overlong hover, receivedBytes_doClose, hrec]
  | false => rw [processData_fits hover, hrec]

theorem receivedBytes_doRead (s : TcpSocket) :
    receivedBytes (s.doRead cfg).log = receivedBytes s.log := by
  simp only [doRead]
  split_ifs
  · rfl
  · rw [receivedBytes_doClose, receivedBytes_processData]
  · rw [receivedBytes_processData]
  · rfl

theorem receivedBytes_readOk (s : TcpSocket) (off : ℕ) (chunk : List UInt8) :
    receivedBytes (s.readOk cfg off chunk).log = receivedBytes s.log ++ chunk := by
  rw [readOk, receivedBytes_doRead, receivedBytes_processData]
  simp [receivedBytes]

theorem receivedBytes_step {i : ℕ} {chunk : List UInt8}
    (hstep : (system cfg).step s (.readDone i (some chunk)) = some s') :
    receivedBytes s'.log = receivedBytes s.log ++ chunk := by
  cases fires_of_step hstep with
  | readOk i op chunk hop => exact receivedBytes_readOk _ _ _

theorem receivedBytes_run {cs : List (List UInt8)}
    (hrun : (system cfg).run s (readsOf cs) = some s') :
    receivedBytes s'.log = receivedBytes s.log ++ cs.flatten := by
  induction cs generalizing s with
  | nil => rw [← Option.some.inj hrun, List.flatten_nil, List.append_nil]
  | cons c cs ih =>
    obtain ⟨t, hstep, hrest⟩ := StepSystem.run_cons_eq_some.mp hrun
    rw [ih hrest, receivedBytes_step hstep, List.append_assoc, List.flatten_cons]

theorem along_stream {stream : List UInt8} {cs : List (List UInt8)}
    (h : receivedBytes s.log ++ cs.flatten <+: stream) :
    (system cfg).Along (fun s a ↦ ∀ i c, a = .readDone i (some c) →
      receivedBytes s.log ++ c <+: stream) s (readsOf cs) := by
  induction cs generalizing s with
  | nil => trivial
  | cons c cs ih =>
    intro t hstep
    rw [List.flatten_cons, ← List.append_assoc] at h
    constructor
    · rintro i c' hc
      obtain rfl : c = c' := Option.some.inj (Action.readDone.inj hc).2
      exact (List.prefix_append _ _).trans h
    · exact ih (by rw [receivedBytes_step hstep]; exact h)

/-- The invariant of a socket that only reads: at most one read is outstanding, for the room behind
the buffered bytes. -/
structure Flowing (cfg : Config) (s : TcpSocket) : Prop where
  accounted : Accounted s s.readBufferPos
  attached : Attached s
  reads : s.reads = [] ∨ s.reads = [⟨s.readBufferPos, cfg.kReadBufferSize - s.readBufferPos⟩]

theorem Flowing.doRead (hacc : Accounted s s.readBufferPos) (hatt : Attached s)
    (hreads : s.reads = []) : Flowing cfg (s.doRead cfg) := by
  simp only [TcpSocket.doRead]
  have hacc' : Accounted (s.processData cfg 0) (s.processData cfg 0).readBufferPos :=
    Accounted.processData hacc hatt
  have hatt' : Attached (s.processData cfg 0) := attached_processData hatt
  split_ifs
  · exact ⟨hacc, hatt, .inr (by rw [hreads]; rfl)⟩
  · refine ⟨?_, attached_doClose hatt', .inl (by rw [reads_doClose, reads_processData, hreads])⟩
    by_cases hst : (s.processData cfg 0).socketStatus = .closing
        ∨ (s.processData cfg 0).socketStatus = .closed
    · rw [doClose_eq, if_pos hst]
      exact hacc'
    · exact (hacc'.mono (Nat.zero_le _)).doClose hst
  · exact ⟨hacc', hatt', .inl (by rw [reads_processData, hreads])⟩
  · exact ⟨hacc, hatt, .inl hreads⟩

theorem Flowing.step {chunk : List UInt8} (h : Flowing cfg s)
    (hstep : (system cfg).step s (.readDone 0 (some chunk)) = some s') : Flowing cfg s' := by
  cases fires_of_step hstep with
  | readOk i op chunk hop =>
    obtain ⟨hreads, rfl⟩ : s.reads.eraseIdx 0 = []
        ∧ op = ⟨s.readBufferPos, cfg.kReadBufferSize - s.readBufferPos⟩ := by
      rcases h.reads with hnil | hone
      · rw [hnil] at hop
        exact absurd hop (by simp)
      · rw [hone] at hop ⊢
        exact ⟨rfl, (Option.some.inj hop).symm⟩
    refine Flowing.doRead (Accounted.processData ?_ h.attached)
      (attached_processData h.attached) (by rw [reads_processData]; exact hreads)
    have hacc := h.accounted
    rw [Accounted] at hacc ⊢
    simp only [delivered_append, receivedBytes_append, delivered, receivedBytes, List.append_nil]
    rw [Memory.read_write_append, ← List.append_assoc]
    exact hacc.append (List.Sublist.refl chunk)

/-- **The packages delivered are pieces of what was received, in order**, along any run of reads. -/
theorem Flowing.run {cs : List (List UInt8)} (h : Flowing cfg s)
    (hrun : (system cfg).run s (readsOf cs) = some s') : Flowing cfg s' := by
  induction cs generalizing s with
  | nil =>
    obtain rfl := Option.some.inj hrun
    exact h
  | cons c cs ih =>
    obtain ⟨t, hstep, hrest⟩ := StepSystem.run_cons_eq_some.mp hrun
    exact ih (h.step hstep) hrest

theorem Holding.flowing {u : List UInt8} (h : Holding cfg s u)
    (hlog : (delivered s.log).flatten ++ u = receivedBytes s.log) : Flowing cfg s := by
  refine ⟨?_, fun _ ↦ by simp [h.status], .inr (by rw [h.reads, h.pos])⟩
  rw [Accounted, h.pos, h.bytes, hlog]

end Accounting

end TcpSocket

end Knet.Tcp
