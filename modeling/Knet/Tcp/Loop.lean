import Knet.Tcp.Socket

/-!
# The loop of `process_data`

`process_data` cuts the first `read_buffer_pos` cells of `read_buffer` into packages, whatever
`handle_package` answers, and moves what is left to the front. `Loop` is its loop as the source has
it, with no bound on the number of rounds; every such loop ends, `scan` computes how, and what it
hands over are adjacent ranges at the front of the buffer.
-/

namespace Knet.Tcp

namespace TcpSocket

variable {cfg : Config}

/-- The loop over the first `pos` cells of `m`: begun at `readPos` with the history `log`, it hands
over the given ranges and ends as the given `Scan`. -/
inductive Loop (cfg : Config) (connection : Bool) (m : Memory UInt8) (pos : ℕ) :
    List Entry → ℕ → List (ℕ × ℕ) → Scan → Prop
  | exit {log readPos} (h : ¬(readPos < pos ∧ connection = true)) :
    Loop cfg connection m pos log readPos [] ⟨log, readPos, false⟩
  | stop {log readPos} {pkgLen : ℤ} (h : readPos < pos ∧ connection = true)
    (hlen : cfg.handlePackage log (m.read readPos pos) = pkgLen)
    (hstop : pkgLen ≤ 0 ∨ (pos : ℤ) - readPos < pkgLen) :
    Loop cfg connection m pos log readPos [] ⟨log ++ [.package (m.read readPos pos)], readPos,
      decide ((cfg.kReadBufferSize : ℤ) < pkgLen)⟩
  | take {log readPos} {n : ℕ} {ranges r} (h : readPos < pos ∧ connection = true)
    (hlen : cfg.handlePackage log (m.read readPos pos) = n) (hpos : 0 < n)
    (hfit : readPos + n ≤ pos)
    (hrest : Loop cfg connection m pos
      (log ++ [.package (m.read readPos pos), .data (m.read readPos n)]) (readPos + n) ranges r) :
    Loop cfg connection m pos log readPos ((readPos, n) :: ranges) r

section Loop

variable {connection : Bool} {m : Memory UInt8} {pos fuel readPos : ℕ} {log : List Entry}
  {ranges ranges' : List (ℕ × ℕ)} {r r' : Scan}

/-- What the loop has done when it ends: the ranges it handed over begin where it began and are
adjacent, and nothing else was delivered. -/
theorem Loop.result (h : Loop cfg connection m pos log readPos ranges r) (hle : readPos ≤ pos) :
    Memory.Tiles readPos r.readPos ranges ∧ r.readPos ≤ pos ∧
      ∃ seen, r.log = log ++ seen ∧ receivedBytes seen = []
        ∧ delivered seen = ranges.map fun range ↦ m.read range.1 range.2 := by
  induction h with
  | exit h => exact ⟨rfl, hle, [], by simp, rfl, rfl⟩
  | stop h hlen hstop => exact ⟨rfl, hle, [_], rfl, rfl, rfl⟩
  | @take log readPos n _ _ h hlen hpos hfit hrest ih =>
    obtain ⟨htiles, hle', seen, hlog, hrec, hdel⟩ := ih hfit
    refine ⟨⟨rfl, hpos, htiles⟩, hle',
      [.package (m.read readPos pos), .data (m.read readPos n)] ++ seen, ?_, ?_, ?_⟩
    · rw [hlog, List.append_assoc]
    · rw [receivedBytes_append, hrec]
      rfl
    · rw [delivered_append, hdel]
      rfl

theorem Loop.unique (h : Loop cfg connection m pos log readPos ranges r)
    (h' : Loop cfg connection m pos log readPos ranges' r') : ranges' = ranges ∧ r' = r := by
  induction h generalizing ranges' r' with
  | exit h =>
    cases h' with
    | exit => exact ⟨rfl, rfl⟩
    | stop h' => exact absurd h' h
    | take h' => exact absurd h' h
  | stop h hlen hstop =>
    subst hlen
    cases h' with
    | exit h' => exact absurd h h'
    | stop h' hlen' =>
      subst hlen'
      exact ⟨rfl, rfl⟩
    | take h' hlen' hpos hfit =>
      rw [hlen'] at hstop
      omega
  | take h hlen hpos hfit hrest ih =>
    cases h' with
    | exit h' => exact absurd h h'
    | stop h' hlen' hstop =>
      rw [← hlen', hlen] at hstop
      omega
    | take h' hlen' hpos' hfit' hrest' =>
      obtain rfl := Int.ofNat.inj (hlen'.symm.trans hlen)
      obtain ⟨rfl, rfl⟩ := ih hrest'
      exact ⟨rfl, rfl⟩

theorem exists_loop_scan (hfuel : pos - readPos ≤ fuel) :
    ∃ ranges, Loop cfg true m pos log readPos ranges (scan cfg m pos fuel log readPos) := by
  induction fuel generalizing log readPos with
  | zero => exact ⟨[], .exit (by omega)⟩
  | succ fuel ih =>
    rcases scan_cases cfg m pos log readPos with hx | ⟨hx, _, hlen, hstop⟩ | ⟨hx, n, hlen, hn, hfit⟩
    · rw [scan_exit hx]
      exact ⟨[], .exit (by omega)⟩
    · rw [scan_stop hx hlen hstop]
      exact ⟨[], .stop ⟨hx, rfl⟩ hlen hstop⟩
    · rw [scan_take hx hlen hn hfit]
      obtain ⟨ranges, hloop⟩ := @ih (readPos + n)
        (log ++ [.package (m.read readPos pos), .data (m.read readPos n)]) (by omega)
      exact ⟨(readPos, n) :: ranges, .take ⟨hx, rfl⟩ hlen hn hfit hloop⟩

theorem exists_loop_scanned (cfg : Config) (s : TcpSocket) (nread : ℕ) :
    ∃ ranges, Loop cfg s.connection s.readBuffer (s.readBufferPos + nread) s.log 0 ranges
      (s.scanned cfg nread) := by
  rw [scanned]
  split_ifs with hconn
  · rw [hconn]
    exact exists_loop_scan (Nat.sub_le _ _)
  · exact ⟨[], .exit fun h ↦ hconn h.2⟩

end Loop

/-- What `process_data(nread)` does with the buffer: its loop ends, in one way only, and the ranges
it hands over to `connection->process_data` are adjacent, not empty, and lie in the buffer. -/
def Cuts (cfg : Config) (s : TcpSocket) (nread : ℕ) : Prop :=
  ∃ ranges r, Loop cfg s.connection s.readBuffer (s.readBufferPos + nread) s.log 0 ranges r
    ∧ (∀ ranges' r', Loop cfg s.connection s.readBuffer (s.readBufferPos + nread) s.log 0 ranges' r'
        → ranges' = ranges ∧ r' = r)
    ∧ r = s.scanned cfg nread
    ∧ Memory.Tiles 0 r.readPos ranges ∧ r.readPos ≤ s.readBufferPos + nread
    ∧ delivered r.log
        = delivered s.log ++ ranges.map fun range ↦ s.readBuffer.read range.1 range.2

theorem cuts (cfg : Config) (s : TcpSocket) (nread : ℕ) : Cuts cfg s nread := by
  obtain ⟨ranges, hloop⟩ := exists_loop_scanned cfg s nread
  obtain ⟨htiles, hle, seen, hlog, -, hdel⟩ := hloop.result (Nat.zero_le _)
  refine ⟨ranges, _, hloop, fun _ _ h ↦ hloop.unique h, rfl, htiles, hle, ?_⟩
  rw [hlog, delivered_append, hdel]

/-- What the loop leaves is what stood in the buffer behind the packages it delivered. -/
theorem scanned_delivers (cfg : Config) (s : TcpSocket) (nread : ℕ) :
    (s.scanned cfg nread).readPos ≤ s.readBufferPos + nread ∧
      ∃ seen, (s.scanned cfg nread).log = s.log ++ seen ∧ receivedBytes seen = []
        ∧ (delivered seen).flatten = s.readBuffer.read 0 (s.scanned cfg nread).readPos := by
  obtain ⟨ranges, hloop⟩ := exists_loop_scanned cfg s nread
  obtain ⟨htiles, hle, seen, hlog, hrec, hdel⟩ := hloop.result (Nat.zero_le _)
  refine ⟨hle, seen, hlog, hrec, ?_⟩
  rw [hdel, Memory.flatten_read_of_tiles _ htiles, Nat.sub_zero]

/-- The move to the front: what is left in the buffer is what stood behind the last package. -/
theorem read_processData {s : TcpSocket} {nread : ℕ}
    (hfits : (s.scanned cfg nread).overlong = false) :
    (s.processData cfg nread).readBuffer.read 0 (s.processData cfg nread).readBufferPos
      = s.readBuffer.read (s.scanned cfg nread).readPos
        (s.readBufferPos + nread - (s.scanned cfg nread).readPos) := by
  rw [processData_fits hfits]
  dsimp only
  split_ifs with hlt
  · rw [Memory.read_move]
  · have hzero : s.readBufferPos + nread - (s.scanned cfg nread).readPos = 0 := by omega
    rw [hzero, Memory.read_zero, Memory.read_zero]

end TcpSocket

end Knet.Tcp
