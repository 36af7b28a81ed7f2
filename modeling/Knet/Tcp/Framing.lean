import Knet.Tcp.Reading

/-!
# Framing and the cuts of the stream

A framing function tells the length of the package at the head of the bytes it is given as soon as
the header is complete. Reading a stream of packages in arbitrary pieces should then deliver the
packages, whatever the pieces are.

`process_data` compares the answer with the bytes that are left, but passes `read_buffer_pos` as the
length in every round. From the second round on, `process_package` is therefore given stale bytes as
well. A read enters a second round exactly when it brings the end of a package and at least one byte
more, and that is where the line is: the socket behaves as the contract says on exactly those cuts
for which every package ends where a read ends (`EndsWithReads`).
-/

namespace Knet.Tcp

open TcpSocket

/-! ## The contract -/

/-- A framing function: `0` while the header is incomplete, then the length of the package, which
more bytes do not change. -/
structure PrefixDetermined (kReadBufferSize : ℕ) (f : List UInt8 → ℤ) : Prop where
  range : ∀ d, f d = 0 ∨ (0 < f d ∧ f d ≤ kReadBufferSize)
  stable : ∀ d tail, 0 < f d → f (d ++ tail) = f d

/-- A complete package. -/
def IsPackage (f : List UInt8 → ℤ) (p : List UInt8) : Prop := p ≠ [] ∧ f p = p.length

instance (f : List UInt8 → ℤ) (p : List UInt8) : Decidable (IsPackage f p) :=
  inferInstanceAs (Decidable (_ ∧ _))

/-- A package of which at least one byte is still missing. -/
def IsPartial (f : List UInt8 → ℤ) (t : List UInt8) : Prop :=
  ∃ more, more ≠ [] ∧ IsPackage f (t ++ more)

/-- Every call of `process_package` in a history is given exactly the received and not yet consumed
bytes, when the history starts with the unconsumed bytes `u`. -/
def CallsExact : List UInt8 → List Entry → Prop
  | _, [] => True
  | u, .received bytes :: log => CallsExact (u ++ bytes) log
  | u, .package given :: log => given = u ∧ CallsExact u log
  | u, .data bytes :: log => CallsExact (u.drop bytes.length) log
  | u, .event _ :: log => CallsExact u log
  | u, .handled _ :: log => CallsExact u log

/-- What the stream `ps.flatten ++ t` should have done to a socket that started in `s₀` with the
unconsumed bytes `u`, which count as part of the stream: every call of `process_package` was exact,
the packages were delivered in order and once each, the partial one is what the buffer holds, and
the socket is not closed. -/
structure Reassembles (u : List UInt8) (s₀ s : TcpSocket) (ps : List (List UInt8))
    (t : List UInt8) : Prop where
  history : ∃ log, s.log = s₀.log ++ log ∧ CallsExact u log ∧ delivered log = ps
  tail : s.readBuffer.read 0 s.readBufferPos = t
  status : s.socketStatus = .opened
  connection : s.connection = true
  isOpen : s.tcpSockOpen = true

/-- Every package ends where one of the reads ends. -/
def EndsWithReads (ps chunks : List (List UInt8)) : Prop :=
  ∀ k ≤ ps.length, ∃ j, (chunks.take j).flatten = (ps.take k).flatten

/-- The socket with a framing function for its `handle_package`. -/
def framed (kReadBufferSize : ℕ) (f : List UInt8 → ℤ) : Config := ⟨kReadBufferSize, fun _ d ↦ f d⟩

/-! ## One read -/

section OneRead

variable {K : ℕ} {f : List UInt8 → ℤ} {s : TcpSocket} {u c : List UInt8}

/-- A read after which the package at the head of the buffer is still incomplete. -/
theorem readNext_incomplete (h : Holding (framed K f) s u) (hc : 0 < c.length)
    (hroom : (u ++ c).length < K) (hlen : f (u ++ c) ≤ 0 ∨ ((u ++ c).length : ℤ) < f (u ++ c))
    (hK : f (u ++ c) ≤ K) :
    Holding (framed K f) (readNext (framed K f) s u c) (u ++ c)
      ∧ (readNext (framed K f) s u c).log = s.log ++ [.received c, .package (u ++ c)] := by
  have hscan : readScan (framed K f) s u c = ⟨s.log ++ [.received c, .package (u ++ c)], 0,
      decide ((K : ℤ) < f (u ++ c))⟩ := h.readScan_stop hc rfl hlen
  rw [decide_eq_false (show ¬(K : ℤ) < f (u ++ c) by omega)] at hscan
  exact h.readNext hscan (Nat.zero_le _) hroom

theorem readNext_exact (h : Holding (framed K f) s u) (hc : 0 < c.length)
    (hlen : f (u ++ c) = (u ++ c).length) :
    Holding (framed K f) (readNext (framed K f) s u c) []
      ∧ (readNext (framed K f) s u c).log
        = s.log ++ [.received c, .package (u ++ c), .data (u ++ c)] := by
  have hpos : 0 < (u ++ c).length := by rw [List.length_append]; omega
  have hscan := h.readScan_take hlen hpos (Nat.le_refl _)
  rw [scan_exit (Nat.le_refl _), List.take_length] at hscan
  have hK : 0 < K := Nat.lt_of_le_of_lt (Nat.zero_le _) h.room
  have hnext := h.readNext hscan (Nat.le_refl _) (by rw [Nat.sub_self]; exact hK)
  rwa [List.drop_length] at hnext

/-- A read that brings bytes behind the end of the package at the head of the buffer: the second
call of `process_package` is given as many bytes as the first. -/
theorem readNext_beyond (h : Holding (framed K f) s u) {n : ℕ} (hlen : f (u ++ c) = n)
    (hpos : 0 < n) (hlt : n < (u ++ c).length) :
    ∃ given log, (readNext (framed K f) s u c).log
        = s.log ++ .received c :: .package (u ++ c) :: .data ((u ++ c).take n)
          :: .package given :: log
      ∧ given.length = (u ++ c).length := by
  set m := s.readBuffer.write u.length c with hm
  set before := s.log ++ [.received c, .package (u ++ c), .data ((u ++ c).take n)] with hbefore
  have hscan := h.readScan_take hlen hpos (Nat.le_of_lt hlt)
  obtain ⟨k, hk⟩ : ∃ k, (u ++ c).length - 1 = k + 1 := ⟨(u ++ c).length - 2, by omega⟩
  -- the second round calls `process_package` again, whatever it answers
  have hround : before ++ [.package (m.read n (u ++ c).length)]
      <+: (readScan (framed K f) s u c).log := by
    rw [hscan, hk]
    rcases scan_cases (framed K f) m (u ++ c).length before n with hge | ⟨_, _, hl, hs⟩
        | ⟨_, _, hl, hp, hf⟩
    · omega
    · exact ⟨[], (List.append_nil _).trans (congrArg Scan.log (scan_stop hlt hl hs).symm)⟩
    · rw [scan_take hlt hl hp hf]
      refine prefix_log_scan _ _ _ _ ?_
      exact ⟨[_], by rw [List.append_assoc, List.singleton_append]⟩
  obtain ⟨more, hmore⟩ := hround.trans (h.log_readScan_prefix c)
  refine ⟨m.read n (u ++ c).length, more, ?_, Memory.length_read _ _ _⟩
  rw [← hmore, hbefore]
  simp

end OneRead

/-! ## What a framing function answers on a stream of packages -/

section Answers

variable {K : ℕ} {f : List UInt8 → ℤ} (hf : PrefixDetermined K f)
include hf

theorem PrefixDetermined.length_le {p : List UInt8} (hp : IsPackage f p) : p.length ≤ K := by
  have hlen := hp.2
  rcases hf.range p with h | h <;> omega

theorem PrefixDetermined.append {p : List UInt8} (hp : IsPackage f p) (tail : List UInt8) :
    f (p ++ tail) = p.length := by
  have hpos : 0 < p.length := List.length_pos_iff.mpr hp.1
  rw [hf.stable p tail (by rw [hp.2]; omega), hp.2]

theorem PrefixDetermined.incomplete {w : List UInt8} (hw : IsPartial f w) :
    (f w ≤ 0 ∨ (w.length : ℤ) < f w) ∧ f w ≤ K ∧ w.length < K := by
  obtain ⟨more, hmore, hpkg⟩ := hw
  have hlen : (w ++ more).length ≤ K := hf.length_le hpkg
  have hpos : 0 < more.length := List.length_pos_iff.mpr hmore
  rw [List.length_append] at hlen
  refine ⟨?_, by rcases hf.range w with h | h <;> omega, by omega⟩
  rcases hf.range w with h | ⟨h, -⟩
  · exact .inl (by omega)
  · -- the header is complete, so the answer is the length of the whole package
    have hwhole := hpkg.2
    rw [hf.stable w more h, List.length_append] at hwhole
    exact .inr (by omega)

end Answers

/-! ## Histories that start with one read -/

theorem callsExact_delivered (u c : List UInt8) (log : List Entry) :
    CallsExact u ([.received c, .package (u ++ c), .data (u ++ c)] ++ log) ↔ CallsExact [] log := by
  simp only [List.cons_append, List.nil_append, CallsExact, List.drop_length, true_and]

section Prepend

variable {u w : List UInt8} {s s₁ s' : TcpSocket} {ps qs : List (List UInt8)} {t : List UInt8}
  {pre : List Entry}

/-- When the entries `pre` are exact, deliver `qs` and lead from the unconsumed bytes `u` to `w`,
what remains to be shown starts at `w`. -/
theorem reassembles_prepend (hlog : s₁.log = s.log ++ pre) (hpre : s₁.log <+: s'.log)
    (hexact : ∀ log, CallsExact u (pre ++ log) ↔ CallsExact w log) (hdel : delivered pre = qs) :
    Reassembles u s s' (qs ++ ps) t ↔ Reassembles w s₁ s' ps t := by
  constructor
  · rintro ⟨⟨log, hl, hcalls, hd⟩, htail, hst, hconn, hopen⟩
    obtain ⟨rest, hrest⟩ := hpre
    have hsplit : log = pre ++ rest := by
      rw [← hrest, hlog, List.append_assoc] at hl
      exact (List.append_cancel_left hl).symm
    subst hsplit
    rw [delivered_append, hdel] at hd
    exact ⟨⟨rest, hrest.symm, (hexact rest).mp hcalls, List.append_cancel_left hd⟩, htail, hst,
      hconn, hopen⟩
  · rintro ⟨⟨log, hl, hcalls, hd⟩, htail, hst, hconn, hopen⟩
    refine ⟨⟨pre ++ log, ?_, (hexact log).mpr hcalls, ?_⟩, htail, hst, hconn, hopen⟩
    · rw [hl, hlog, List.append_assoc]
    · rw [delivered_append, hdel, hd]

end Prepend

/-! ## Runs of reads -/

/-- The cuts still to come: with `u` received and unconsumed, every package of `ps` ends where one
of the reads `chunks` ends. -/
def EndsAhead (u : List UInt8) (ps chunks : List (List UInt8)) : Prop :=
  ∀ k, 0 < k → k ≤ ps.length → ∃ j, u ++ (chunks.take j).flatten = (ps.take k).flatten

theorem endsWithReads_iff {ps chunks : List (List UInt8)} :
    EndsWithReads ps chunks ↔ EndsAhead [] ps chunks := by
  constructor
  · intro h k _ hk
    exact h k hk
  · intro h k hk
    rcases Nat.eq_zero_or_pos k with rfl | hpos
    · exact ⟨0, rfl⟩
    · exact h k hpos hk

theorem endsAhead_nil (u : List UInt8) (chunks : List (List UInt8)) : EndsAhead u [] chunks := by
  intro k hpos hk
  rw [List.length_nil] at hk
  omega

section Cuts

variable {u c p : List UInt8} {ps cs : List (List UInt8)}

/-- A package cannot end before the first read ahead when it is longer than what is there. -/
theorem flatten_take_ne (hu : u.length < p.length) {k : ℕ} (hk : 0 < k) :
    u ≠ ((p :: ps).take k).flatten := by
  intro h
  obtain ⟨k, rfl⟩ : ∃ n, k = n + 1 := ⟨k - 1, by omega⟩
  rw [List.take_succ_cons, List.flatten_cons] at h
  have := congrArg List.length h
  rw [List.length_append] at this
  omega

theorem endsAhead_incomplete (hu : u.length < p.length) :
    EndsAhead u (p :: ps) (c :: cs) ↔ EndsAhead (u ++ c) (p :: ps) cs := by
  constructor
  · intro h k hpos hk
    obtain ⟨j, hj⟩ := h k hpos hk
    cases j with
    | zero =>
      rw [List.take_zero, List.flatten_nil, List.append_nil] at hj
      exact absurd hj (flatten_take_ne hu hpos)
    | succ j =>
      rw [List.take_succ_cons, List.flatten_cons, ← List.append_assoc] at hj
      exact ⟨j, hj⟩
  · intro h k hpos hk
    obtain ⟨j, hj⟩ := h k hpos hk
    exact ⟨j + 1, by rw [List.take_succ_cons, List.flatten_cons, ← List.append_assoc, hj]⟩

theorem endsAhead_exact (hu : u.length < (u ++ c).length) :
    EndsAhead u ((u ++ c) :: ps) (c :: cs) ↔ EndsAhead [] ps cs := by
  rw [endsAhead_incomplete hu]
  constructor
  · intro h k hpos hk
    obtain ⟨j, hj⟩ := h (k + 1) (Nat.succ_pos k) (by rw [List.length_cons]; omega)
    rw [List.take_succ_cons, List.flatten_cons] at hj
    exact ⟨j, List.append_cancel_left hj⟩
  · intro h k hpos hk
    obtain ⟨k, rfl⟩ : ∃ n, k = n + 1 := ⟨k - 1, by omega⟩
    rw [List.length_cons] at hk
    rw [List.take_succ_cons, List.flatten_cons]
    rcases Nat.eq_zero_or_pos k with rfl | hpos'
    · exact ⟨0, by simp⟩
    · obtain ⟨j, hj⟩ := h k hpos' (by omega)
      exact ⟨j, by rw [← hj, List.nil_append]⟩

/-- A read that goes beyond the end of the package skips the only place where it could end. -/
theorem not_endsAhead_beyond (hu : u.length < p.length) (hbeyond : p.length < (u ++ c).length) :
    ¬EndsAhead u (p :: ps) (c :: cs) := by
  rw [endsAhead_incomplete hu]
  intro h
  obtain ⟨j, hj⟩ := h 1 Nat.one_pos (by rw [List.length_cons]; omega)
  rw [List.take_succ_cons, List.take_zero, List.flatten_cons, List.flatten_nil,
    List.append_nil] at hj
  have := congrArg List.length hj
  rw [List.length_append] at this
  omega

end Cuts

section Runs

variable {K : ℕ} {f : List UInt8 → ℤ}

theorem run_readsOf_cons {s s' : TcpSocket} {u c : List UInt8} {cs : List (List UInt8)}
    (h : Holding (framed K f) s u) :
    (system (framed K f)).run s (readsOf (c :: cs)) = some s' ↔
      0 < c.length ∧ (u ++ c).length ≤ K ∧
        (system (framed K f)).run (readNext (framed K f) s u c) (readsOf cs) = some s' := by
  rw [readsOf_cons, StepSystem.run_cons_eq_some]
  constructor
  · rintro ⟨t, hstep, hrun⟩
    obtain ⟨hc, hroom, rfl⟩ := h.step_iff.mp hstep
    exact ⟨hc, hroom, hrun⟩
  · rintro ⟨hc, hroom, hrun⟩
    exact ⟨_, h.step_iff.mpr ⟨hc, hroom, rfl⟩, hrun⟩

variable {s : TcpSocket} {u c t : List UInt8} {ps cs : List (List UInt8)}

/-- The step of the induction below for a read whose entries `pre` are as they should be. -/
theorem exists_run_cons {qs : List (List UInt8)} {w : List UInt8} {pre : List Entry}
    (h : Holding (framed K f) s u) (hc : 0 < c.length) (hroom : (u ++ c).length ≤ K)
    (hlog : (readNext (framed K f) s u c).log = s.log ++ pre)
    (hexact : ∀ log, CallsExact u (pre ++ log) ↔ CallsExact w log) (hdel : delivered pre = qs) :
    (∃ s', (system (framed K f)).run s (readsOf (c :: cs)) = some s'
        ∧ Reassembles u s s' (qs ++ ps) t) ↔
      ∃ s', (system (framed K f)).run (readNext (framed K f) s u c) (readsOf cs) = some s'
        ∧ Reassembles w (readNext (framed K f) s u c) s' ps t := by
  refine exists_congr fun s' ↦ ?_
  rw [run_readsOf_cons h]
  constructor
  · rintro ⟨⟨-, -, hrun⟩, hre⟩
    exact ⟨hrun, (reassembles_prepend hlog (log_prefix_run hrun) hexact hdel).mp hre⟩
  · rintro ⟨hrun, hre⟩
    exact ⟨⟨hc, hroom, hrun⟩, (reassembles_prepend hlog (log_prefix_run hrun) hexact hdel).mpr hre⟩

/-- After a read that goes beyond the end of a package no continuation is right: the second call of
`process_package` was given too much. -/
theorem not_reassembles_beyond (h : Holding (framed K f) s u) {n : ℕ} (hlen : f (u ++ c) = n)
    (hpos : 0 < n) (hlt : n < (u ++ c).length) {s' : TcpSocket}
    (hrun : (system (framed K f)).run s (readsOf (c :: cs)) = some s') :
    ¬Reassembles u s s' ps t := by
  rintro ⟨⟨log, hl, hcalls, -⟩, -, -, -, -⟩
  obtain ⟨-, -, hrest⟩ := (run_readsOf_cons h).mp hrun
  obtain ⟨given, more, hnext, hgiven⟩ := readNext_beyond h hlen hpos hlt
  obtain ⟨after, hafter⟩ := log_prefix_run hrest
  rw [hl, hnext, List.append_assoc] at hafter
  obtain rfl := List.append_cancel_left hafter
  obtain ⟨-, rfl, -⟩ := hcalls
  rw [List.length_drop, List.length_take] at hgiven
  omega

/-- What has arrived of a package that is not whole yet is a part of it. -/
theorem isPartial_of_length_lt {p x rest : List UInt8} (hp : IsPackage f p)
    (hpre : p <+: x ++ rest) (hshort : x.length < p.length) : IsPartial f x := by
  obtain ⟨more, rfl⟩ := List.prefix_of_prefix_length_le (List.prefix_append x rest) hpre
    (Nat.le_of_lt hshort)
  refine ⟨more, ?_, hp⟩
  rintro rfl
  rw [List.append_nil] at hshort
  exact Nat.lt_irrefl _ hshort

theorem isPartial_of_tail {x rest : List UInt8} (ht : t = [] ∨ IsPartial f t) (hx : 0 < x.length)
    (hstream : x ++ rest = t) : IsPartial f x := by
  rcases ht with rfl | ⟨more, hmore, hpkg⟩
  · have hnil := (List.append_eq_nil_iff.mp hstream).1
    rw [hnil] at hx
    exact absurd hx (Nat.lt_irrefl 0)
  · refine ⟨rest ++ more, fun hnil ↦ hmore (List.append_eq_nil_iff.mp hnil).2, ?_⟩
    rw [← List.append_assoc, hstream]
    exact hpkg

/-- A read that leaves the package at the head incomplete: the rest of the run decides. -/
theorem exists_run_incomplete (hf : PrefixDetermined K f) (h : Holding (framed K f) s u)
    (hc : 0 < c.length) (hpart : IsPartial f (u ++ c))
    (hends : EndsAhead u ps (c :: cs) ↔ EndsAhead (u ++ c) ps cs)
    (hrest : Holding (framed K f) (readNext (framed K f) s u c) (u ++ c) →
      ((∃ s', (system (framed K f)).run (readNext (framed K f) s u c) (readsOf cs) = some s'
        ∧ Reassembles (u ++ c) (readNext (framed K f) s u c) s' ps t)
          ↔ EndsAhead (u ++ c) ps cs)) :
    (∃ s', (system (framed K f)).run s (readsOf (c :: cs)) = some s' ∧ Reassembles u s s' ps t)
      ↔ EndsAhead u ps (c :: cs) := by
  obtain ⟨hlen, hK, hroom⟩ := hf.incomplete hpart
  obtain ⟨hnext, hlog⟩ := readNext_incomplete h hc hroom hlen hK
  rw [hends, ← hrest hnext]
  exact exists_run_cons h hc (Nat.le_of_lt hroom) hlog
    (fun log ↦ ⟨fun hx ↦ hx.2, fun hx ↦ ⟨rfl, hx⟩⟩) rfl

/-- The induction over the reads, from a socket that holds a strict part of the next package. -/
theorem exists_run_reassembles_iff (hf : PrefixDetermined K f) (hps : ∀ p ∈ ps, IsPackage f p)
    (ht : t = [] ∨ IsPartial f t) (h : Holding (framed K f) s u) (hu : Segments.Partial ps u)
    (hcs : ∀ c ∈ cs, c ≠ []) (hstream : u ++ cs.flatten = ps.flatten ++ t) :
    (∃ s', (system (framed K f)).run s (readsOf cs) = some s' ∧ Reassembles u s s' ps t)
      ↔ EndsAhead u ps cs := by
  induction cs generalizing s u ps with
  | nil =>
    rw [List.flatten_nil, List.append_nil] at hstream
    -- all of the stream is in the buffer, so no package is left
    obtain rfl : ps = [] := by
      cases ps with
      | nil => rfl
      | cons p ps =>
        have hlt := Segments.partial_cons.mp hu
        rw [hstream, List.flatten_cons, List.length_append, List.length_append] at hlt
        omega
    have htail : s.readBuffer.read 0 s.readBufferPos = t := by
      rw [h.pos, h.bytes, hstream, List.flatten_nil, List.nil_append]
    refine ⟨fun _ ↦ endsAhead_nil u [], fun _ ↦ ⟨s, rfl, ?_⟩⟩
    exact ⟨⟨[], (List.append_nil _).symm, trivial, rfl⟩, htail, h.status, h.connection, h.isOpen⟩
  | cons c cs ih =>
    have hc : 0 < c.length := List.length_pos_iff.mpr (hcs c List.mem_cons_self)
    have hcs' : ∀ c ∈ cs, c ≠ [] := fun d hd ↦ hcs d (List.mem_cons_of_mem _ hd)
    rw [List.flatten_cons, ← List.append_assoc] at hstream
    cases ps with
    | nil =>
      rw [List.flatten_nil, List.nil_append] at hstream
      have hx : 0 < (u ++ c).length := by
        rw [List.length_append]
        omega
      refine exists_run_incomplete hf h hc (isPartial_of_tail ht hx hstream)
        ⟨fun _ ↦ endsAhead_nil _ _, fun _ ↦ endsAhead_nil _ _⟩ fun hnext ↦ ?_
      exact ih hps hnext (Segments.partial_nil _) hcs' hstream
    | cons p ps =>
      have hp : IsPackage f p := hps p List.mem_cons_self
      have hlt : u.length < p.length := Segments.partial_cons.mp hu
      have hwhole : u ++ c ++ cs.flatten = p ++ (ps.flatten ++ t) := by
        rw [hstream, List.flatten_cons, List.append_assoc]
      have hpre : p <+: u ++ c ++ cs.flatten := ⟨_, hwhole.symm⟩
      rcases Nat.lt_trichotomy (u ++ c).length p.length with hshort | heq | hbeyond
      · -- the read ends before the package does
        refine exists_run_incomplete hf h hc (isPartial_of_length_lt hp hpre hshort)
          (endsAhead_incomplete hlt) fun hnext ↦ ?_
        exact ih hps hnext (Segments.partial_cons.mpr hshort) hcs' hstream
      · -- the read ends where the package does
        obtain ⟨hw, hrest⟩ := List.append_inj hwhole heq
        subst hw
        obtain ⟨hnext, hlog⟩ := readNext_exact h hc hp.2
        have hseg : Segments.Partial ps ([] : List UInt8) := by
          intro q qs hq
          exact List.length_pos_iff.mpr (hps q (hq ▸ by simp)).1
        rw [endsAhead_exact hlt,
          ← ih (fun q hq ↦ hps q (List.mem_cons_of_mem _ hq)) hnext hseg hcs' hrest]
        exact exists_run_cons h hc (hf.length_le hp) hlog (callsExact_delivered u c) rfl
      · -- the read brings bytes of the next package, which the loop passes on too
        obtain ⟨more, hmore⟩ := List.prefix_of_prefix_length_le hpre
          (List.prefix_append _ _) (Nat.le_of_lt hbeyond)
        have hpos : 0 < p.length := List.length_pos_iff.mpr hp.1
        have hlen : f (u ++ c) = p.length := by rw [← hmore, hf.append hp]
        constructor
        · rintro ⟨s', hrun, hre⟩
          exact absurd hre (not_reassembles_beyond h hlen hpos hbeyond hrun)
        · intro hends
          exact absurd hends (not_endsAhead_beyond hlt hbeyond)

/-! ## The contract, settled -/

/-- **When a stream of packages is reassembled.** For every prefix-determined `handle_package`,
every stream of packages with a partial one behind them and every way of cutting it into non-empty
reads: the reads can all be made and do what they should exactly when every package ends where a
read ends. -/
theorem reassembles_iff_endsWithReads (hf : PrefixDetermined K f) (hps : ∀ p ∈ ps, IsPackage f p)
    (ht : t = [] ∨ IsPartial f t) (h : Holding (framed K f) s []) (hcs : ∀ c ∈ cs, c ≠ [])
    (hstream : cs.flatten = ps.flatten ++ t) :
    (∃ s', (system (framed K f)).run s (readsOf cs) = some s' ∧ Reassembles [] s s' ps t)
      ↔ EndsWithReads ps cs := by
  have hseg : Segments.Partial ps ([] : List UInt8) := by
    intro p rest hp
    exact List.length_pos_iff.mpr (hps p (hp ▸ List.mem_cons_self)).1
  rw [endsWithReads_iff]
  exact exists_run_reassembles_iff hf hps ht h hseg hcs (by rw [List.nil_append, hstream])

/-- A package whose first byte is its length. -/
def lengthByte (d : List UInt8) : ℤ := ((d.headD 0).toNat : ℤ)

theorem prefixDetermined_lengthByte : PrefixDetermined kReadBufferSize lengthByte where
  range d := by
    have hlt := (d.headD 0).toNat_lt
    rcases Nat.eq_zero_or_pos (d.headD 0).toNat with h | h
    · exact .inl (by rw [lengthByte, h]; rfl)
    · exact .inr ⟨by rw [lengthByte]; omega, by rw [lengthByte, kReadBufferSize]; omega⟩
  stable d tail h := by
    cases d with
    | nil => exact absurd h (by decide)
    | cons b d => rfl

/-- Two packages of two bytes and the first byte of a third, in four reads. -/
theorem reassembles_four_reads :
    ∃ s', (system (framed kReadBufferSize lengthByte)).run
        (accepted.initRead (framed kReadBufferSize lengthByte))
        (readsOf [[2], [7], [2, 8], [3]]) = some s'
      ∧ Reassembles [] (accepted.initRead (framed kReadBufferSize lengthByte)) s'
        [[2, 7], [2, 8]] [3] := by
  refine (reassembles_iff_endsWithReads prefixDetermined_lengthByte (by decide)
    (.inr ⟨[1, 1], by decide, by decide⟩) (holding_accepted (Nat.succ_pos _)) (by decide)
    rfl).mpr ?_
  intro k hk
  match k, hk with
  | 0, _ => exact ⟨0, rfl⟩
  | 1, _ => exact ⟨2, rfl⟩
  | 2, _ => exact ⟨3, rfl⟩

/-- The same packages in one read: the second call of `process_package` is given four bytes, of
which two lie behind `read_buffer_pos`. -/
theorem overread_second_package :
    PrefixDetermined kReadBufferSize lengthByte
      ∧ (∀ p ∈ [[2, 7], [2, 8]], IsPackage lengthByte p)
      ∧ Holding (framed kReadBufferSize lengthByte)
        (accepted.initRead (framed kReadBufferSize lengthByte)) []
      ∧ [[2, 7, 2, 8]].flatten = [[2, 7], [2, 8]].flatten ++ ([] : List UInt8)
      ∧ ∃ s', (system (framed kReadBufferSize lengthByte)).run
          (accepted.initRead (framed kReadBufferSize lengthByte)) (readsOf [[2, 7, 2, 8]]) = some s'
        ∧ ¬Reassembles [] (accepted.initRead (framed kReadBufferSize lengthByte)) s'
          [[2, 7], [2, 8]] [] := by
  refine ⟨prefixDetermined_lengthByte, by decide, holding_accepted (Nat.succ_pos _), rfl, _, rfl,
    ?_⟩
  rintro ⟨⟨log, hlog, hcalls, -⟩, -⟩
  have hfull : (readNext (framed kReadBufferSize lengthByte)
      (accepted.initRead (framed kReadBufferSize lengthByte)) [] [2, 7, 2, 8]).log
      = (accepted.initRead (framed kReadBufferSize lengthByte)).log
        ++ [.received [2, 7, 2, 8], .package [2, 7, 2, 8], .data [2, 7], .package [2, 8, 0, 0],
          .data [2, 8]] := by
    decide
  obtain rfl := List.append_cancel_left (hfull.symm.trans hlog)
  exact absurd hcalls.2.1 (by decide)

end Runs

end Knet.Tcp
