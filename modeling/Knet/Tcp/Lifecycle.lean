import Knet.Tcp.Socket

/-!
# The life of a connection

What a connection is told should be a prefix of

  `(EVT_CONNECT (EVT_SEND | data)* EVT_DISCONNECT)* EVT_RELEASE`.

`WellBracketed` is this language. A history is followed through it by `Phase`: between sessions,
inside one, or released. The invariant `Tracks` says that the phase can be read off the members: the
connection is in a session exactly while the status is `SOCKET_OPEN`.

The code keeps that invariant only when steps come in the expected statuses (`Orderly`). `close`
tests the status when it is called and not when its task runs, and the test the task makes for
`EVT_DISCONNECT` comes right after it has set the status itself; `do_close` tells a connection that
never connected about its disconnect; and reads and writes that complete on a socket waiting to
reconnect are still delivered.
-/

namespace Knet.Tcp

/-! ## The language -/

/-- What may happen inside a session. -/
def Entry.InSession (e : Entry) : Prop := e = .event .send ∨ ∃ bytes, e = .data bytes

/-- One session, around what happens inside it. -/
def session (body : List Entry) : List Entry :=
  .event .connect :: (body ++ [.event .disconnect])

/-- The sessions of a connection and its release. -/
def lifetime (bodies : List (List Entry)) : List Entry :=
  (bodies.map session).flatten ++ [.event .release]

/-- A prefix of some life of a connection. -/
def WellBracketed (l : List Entry) : Prop :=
  ∃ bodies, (∀ b ∈ bodies, ∀ e ∈ b, e.InSession) ∧ l <+: lifetime bodies

/-- Whether the connection sees an entry of the history, or only the socket does. -/
def Entry.isObserved : Entry → Bool
  | .received _ => false
  | .package _ => false
  | .data _ => true
  | .event _ => true
  | .handled _ => true

/-- The sequence a connection receives. -/
def observed (log : List Entry) : List Entry := log.filter Entry.isObserved

/-! ### Phases -/

/-- Where in its life a connection is. -/
inductive Phase
  | idle
  | connected
  | released
  deriving DecidableEq, Repr

/-- The phase after an entry, or `none` when the entry does not fit. -/
def Phase.next : Phase → Entry → Option Phase
  | p, .received _ => some p
  | p, .package _ => some p
  | .idle, .event .connect => some .connected
  | .idle, .event .release => some .released
  | .connected, .event .send => some .connected
  | .connected, .data _ => some .connected
  | .connected, .event .disconnect => some .idle
  | _, _ => none

/-- The phase after a history that starts in `p`. -/
def phaseOf (p : Phase) : List Entry → Option Phase
  | [] => some p
  | e :: log => (p.next e).bind fun q ↦ phaseOf q log

theorem phaseOf_append (p : Phase) (l l' : List Entry) :
    phaseOf p (l ++ l') = (phaseOf p l).bind fun q ↦ phaseOf q l' := by
  induction l generalizing p with
  | nil => rfl
  | cons e l ih =>
    rw [List.cons_append, phaseOf, phaseOf, Option.bind_assoc]
    exact congrArg _ (funext fun q ↦ ih q)

theorem phaseOf_append_of_eq {p q : Phase} {l : List Entry} (h : phaseOf p l = some q)
    (l' : List Entry) : phaseOf p (l ++ l') = phaseOf q l' := by
  rw [phaseOf_append, h]
  rfl

/-- What may still come in a phase. -/
def Phase.Allows : Phase → List Entry → Prop
  | .idle, l => WellBracketed l
  | .connected, l => ∃ body bodies, (∀ e ∈ body, e.InSession)
      ∧ (∀ b ∈ bodies, ∀ e ∈ b, e.InSession)
      ∧ l <+: body ++ .event .disconnect :: lifetime bodies
  | .released, l => l = []

theorem allows_nil (p : Phase) : p.Allows [] := by
  cases p with
  | idle => exact ⟨[], by simp, List.nil_prefix⟩
  | connected => exact ⟨[], [], by simp, by simp, List.nil_prefix⟩
  | released => rfl

theorem allows_cons {p q : Phase} {e : Entry} {l : List Entry} (hnext : p.next e = some q)
    (h : q.Allows (observed l)) : p.Allows (observed (e :: l)) := by
  -- inside a session, and staying there
  have hbody : ∀ {e : Entry}, e.InSession → Phase.connected.Allows (observed l) →
      Phase.connected.Allows (e :: observed l) := by
    rintro e he ⟨body, bodies, hb, hbs, hpre⟩
    refine ⟨e :: body, bodies, ?_, hbs, List.cons_prefix_cons.mpr ⟨rfl, hpre⟩⟩
    intro x hx
    rcases List.mem_cons.mp hx with rfl | hx
    · exact he
    · exact hb x hx
  match p, e with
  | p, .received _ => exact Option.some.inj hnext ▸ h
  | p, .package _ => exact Option.some.inj hnext ▸ h
  | .idle, .event .connect =>
    obtain rfl := Option.some.inj hnext
    obtain ⟨body, bodies, hb, hbs, hpre⟩ := h
    refine ⟨body :: bodies, List.forall_mem_cons.mpr ⟨hb, hbs⟩, ?_⟩
    have hlife : lifetime (body :: bodies)
        = .event .connect :: (body ++ .event .disconnect :: lifetime bodies) := by
      simp [lifetime, session]
    rw [hlife]
    exact List.cons_prefix_cons.mpr ⟨rfl, hpre⟩
  | .idle, .event .release =>
    obtain rfl := Option.some.inj hnext
    have hnil : observed l = [] := h
    refine ⟨[], by simp, ?_⟩
    change .event .release :: observed l <+: _
    rw [hnil]
    exact List.prefix_refl _
  | .connected, .event .send =>
    obtain rfl := Option.some.inj hnext
    exact hbody (.inl rfl) h
  | .connected, .data bytes =>
    obtain rfl := Option.some.inj hnext
    exact hbody (.inr ⟨bytes, rfl⟩) h
  | .connected, .event .disconnect =>
    obtain rfl := Option.some.inj hnext
    obtain ⟨bodies, hbs, hpre⟩ := h
    exact ⟨[], bodies, by simp, hbs, List.cons_prefix_cons.mpr ⟨rfl, hpre⟩⟩
  | .idle, .data _ | .idle, .event .send | .idle, .event .disconnect | .idle, .handled _
  | .connected, .event .connect | .connected, .event .release | .connected, .handled _
  | .released, .data _ | .released, .event _ | .released, .handled _ =>
    exact absurd hnext (by simp [Phase.next])

/-- **A history that fits phase by phase is well bracketed.** -/
theorem allows_of_phaseOf {p q : Phase} {log : List Entry} (h : phaseOf p log = some q) :
    p.Allows (observed log) := by
  induction log generalizing p with
  | nil => exact allows_nil p
  | cons e log ih =>
    rw [phaseOf, Option.bind_eq_some_iff] at h
    obtain ⟨r, hnext, hrest⟩ := h
    exact allows_cons hnext (ih hrest)

namespace TcpSocket

variable {cfg : Config} {s t : TcpSocket}

/-! ## The phase of a socket -/

/-- The phase, as the members tell it. -/
def phase (s : TcpSocket) : Phase :=
  if s.connection then if s.socketStatus = .opened then .connected else .idle else .released

/-- The members tell the phase of the history. -/
def Tracks (s : TcpSocket) : Prop := phaseOf .idle s.log = some s.phase

theorem Tracks.of_eq (h : Tracks s) (hlog : t.log = s.log) (hphase : t.phase = s.phase) :
    Tracks t := by
  rw [Tracks, hlog, hphase]
  exact h

/-- Entries that lead from the phase of the state before to that of the state after. -/
theorem Tracks.append {l : List Entry} (h : Tracks s) (hlog : t.log = s.log ++ l)
    (hphase : phaseOf s.phase l = some t.phase) : Tracks t := by
  rw [Tracks, hlog, phaseOf_append_of_eq h, hphase]

theorem phase_opened (hconn : s.connection = true) (hst : s.socketStatus = .opened) :
    s.phase = .connected := by
  rw [phase, if_pos hconn, if_pos hst]

theorem phase_notOpened (hconn : s.connection = true) (hst : s.socketStatus ≠ .opened) :
    s.phase = .idle := by
  rw [phase, if_pos hconn, if_neg hst]

theorem phase_released (hconn : s.connection = false) : s.phase = .released := by
  rw [phase, hconn]
  rfl

theorem phase_doAsyncWrite (s : TcpSocket) (now : ℕ) : (s.doAsyncWrite now).phase = s.phase := by
  rw [phase, connection_doAsyncWrite, socketStatus_doAsyncWrite, phase]

/-- The statuses before a first session, in which `do_close` would report a disconnect. -/
def BeforeOpen (s : TcpSocket) : Prop :=
  s.socketStatus = .idle ∨ s.socketStatus = .init ∨ s.socketStatus = .connecting

instance (s : TcpSocket) : Decidable (BeforeOpen s) := inferInstanceAs (Decidable (_ ∨ _))

theorem Tracks.doClose (h : Tracks s) (hst : s.connection = true → ¬BeforeOpen s) :
    Tracks s.doClose := by
  rw [doClose_eq]
  split_ifs with hclosed hconn hre
  · exact h
  all_goals rw [not_or] at hclosed
  -- with a connection, the socket is open or waiting to reconnect
  · have hcase : s.socketStatus = .opened ∨ s.socketStatus = .reconnect := by
      have := hst hconn
      rcases hs : s.socketStatus <;> simp_all [BeforeOpen]
    refine h.append rfl ?_
    rcases hcase with hs | hs <;> simp [phase, hconn, hs, closingEvents, phaseOf, Phase.next]
  · have hcase : s.socketStatus = .opened ∨ s.socketStatus = .reconnect := by
      have := hst hconn
      rcases hs : s.socketStatus <;> simp_all [BeforeOpen]
    refine h.append (List.append_assoc _ _ _) ?_
    rcases hcase with hs | hs <;> simp [phase, hconn, hs, closingEvents, phaseOf, Phase.next]
  · rw [Bool.not_eq_true] at hconn
    refine h.of_eq rfl ?_
    rw [phase_released hconn]
    exact phase_released hconn

/-! ### Reading -/

theorem phaseOf_scan {m : Memory UInt8} {pos fuel readPos : ℕ} {log : List Entry}
    (h : phaseOf .idle log = some .connected) :
    phaseOf .idle (scan cfg m pos fuel log readPos).log = some .connected := by
  induction fuel generalizing log readPos with
  | zero => exact h
  | succ fuel ih =>
    rcases scan_cases cfg m pos log readPos with hx | ⟨hx, _, hlen, hstop⟩ | ⟨hx, n, hlen, hn, hfit⟩
    · rw [scan_exit hx]
      exact h
    · rw [scan_stop hx hlen hstop, phaseOf_append_of_eq h]
      rfl
    · rw [scan_take hx hlen hn hfit]
      refine ih ?_
      rw [phaseOf_append_of_eq h]
      rfl

/-- What `do_read` may find: an open socket, or an empty buffer after `do_close`. -/
def Settled (s : TcpSocket) : Prop :=
  s.connection = true → s.socketStatus = .opened ∨ (¬BeforeOpen s ∧ s.readBufferPos = 0)

theorem Settled.not_beforeOpen (h : Settled s) (hconn : s.connection = true) : ¬BeforeOpen s := by
  rcases h hconn with hs | ⟨hs, -⟩
  · simp [BeforeOpen, hs]
  · exact hs

theorem settled_doClose (hst : s.connection = true → s.socketStatus = .opened) :
    Settled s.doClose := by
  intro hconn
  right
  rw [doClose_eq] at hconn ⊢
  split_ifs at hconn ⊢ with hclosed hc hre
  · rw [hst hconn] at hclosed
    exact absurd hclosed (by simp)
  · simp [BeforeOpen]
  · exact absurd hconn hc

/-- The history the loop leaves, in a state whose connection is in a session or gone. -/
theorem Tracks.scanned {nread : ℕ} (h : Tracks s)
    (hst : s.connection = true → s.socketStatus = .opened) :
    phaseOf .idle (s.scanned cfg nread).log = some s.phase := by
  rw [TcpSocket.scanned]
  split_ifs with hconn
  · rw [phase_opened hconn (hst hconn)]
    exact phaseOf_scan ((phase_opened hconn (hst hconn)) ▸ h)
  · exact h

theorem Tracks.processData {nread : ℕ} (h : Tracks s)
    (hst : s.connection = true → s.socketStatus = .opened) :
    Tracks (s.processData cfg nread) ∧ Settled (s.processData cfg nread) := by
  have hscan : phaseOf .idle (s.scanned cfg nread).log = some s.phase := h.scanned hst
  cases hover : (s.scanned cfg nread).overlong with
  | true =>
    rw [processData_overlong hover]
    refine ⟨Tracks.doClose hscan fun hconn ↦ ?_, settled_doClose hst⟩
    have hopen := hst hconn
    simp [BeforeOpen, hopen]
  | false =>
    rw [processData_fits hover]
    exact ⟨hscan, fun hconn ↦ .inl (hst hconn)⟩

theorem processData_empty (hpos : s.readBufferPos = 0) :
    (s.processData cfg 0).log = s.log ∧ (s.processData cfg 0).socketStatus = s.socketStatus
      ∧ (s.processData cfg 0).connection = s.connection := by
  have hscan : s.scanned cfg 0 = ⟨s.log, 0, false⟩ := by
    rw [TcpSocket.scanned]
    split_ifs
    · exact scan_exit (by omega) _
    · rfl
  rw [processData_fits (by rw [hscan]), hscan]
  exact ⟨rfl, rfl, rfl⟩

theorem Tracks.doRead (h : Tracks s) (hset : Settled s) : Tracks (s.doRead cfg) := by
  -- a full buffer is offered to the loop once more
  have hdata : Tracks (s.processData cfg 0)
      ∧ ((s.processData cfg 0).connection = true → ¬BeforeOpen (s.processData cfg 0)) := by
    by_cases hst : s.connection = true → s.socketStatus = .opened
    · obtain ⟨htracks, hsettled⟩ := h.processData hst
      exact ⟨htracks, hsettled.not_beforeOpen⟩
    · rw [Classical.not_imp] at hst
      obtain ⟨hbefore, hpos⟩ := (hset hst.1).resolve_left hst.2
      obtain ⟨hlog, hstatus, hconn⟩ := processData_empty hpos
      refine ⟨h.of_eq hlog (by rw [phase, phase, hstatus, hconn]), fun _ ↦ ?_⟩
      rw [BeforeOpen, hstatus]
      exact hbefore
  simp only [TcpSocket.doRead]
  split_ifs
  · exact h
  · exact hdata.1.doClose hdata.2
  · exact hdata.1
  · exact h

theorem Tracks.readOk {off : ℕ} {chunk : List UInt8} (h : Tracks s)
    (hst : s.connection = true → s.socketStatus = .opened) :
    Tracks (s.readOk cfg off chunk) := by
  have hreceived : Tracks ({ s with
      readBuffer := s.readBuffer.write off chunk
      log := s.log ++ [.received chunk] } : TcpSocket) := by
    refine h.append rfl ?_
    cases hp : s.phase <;> simp [phaseOf, Phase.next] <;> exact hp.symm
  obtain ⟨hdata, hsettled⟩ := hreceived.processData hst
  exact hdata.doRead hsettled

/-! ### Connecting and closing -/

theorem Tracks.initRead (h : Tracks s)
    (hst : s.connection = true → s.socketStatus ≠ .opened) : Tracks (s.initRead cfg) := by
  rw [TcpSocket.initRead]
  split_ifs with hconn
  · refine Tracks.doRead (Tracks.append h rfl ?_) fun _ ↦ .inl rfl
    rw [phase_notOpened hconn (hst hconn)]
    exact congrArg some (phase_opened (by exact hconn) rfl).symm
  · exact h

theorem Tracks.leave (h : Tracks s) (hst : s.connection = true → s.socketStatus ≠ .opened)
    (hlog : t.log = s.log) (hconn : t.connection = s.connection)
    (hst' : t.socketStatus ≠ .opened) : Tracks t := by
  refine h.of_eq hlog ?_
  cases hc : s.connection with
  | true => rw [phase_notOpened hc (hst hc), phase_notOpened (hconn.trans hc) hst']
  | false => rw [phase_released hc, phase_released (hconn.trans hc)]

theorem Tracks.connect {resolved : Bool} (h : Tracks s)
    (hst : resolved = true → s.connection = true → s.socketStatus ≠ .opened) :
    Tracks (s.connect resolved) := by
  simp only [TcpSocket.connect]
  split_ifs with hres
  · exact h.leave (hst hres) rfl rfl (by simp)
  · exact h

theorem Tracks.closeTask {now : ℕ} (h : Tracks s)
    (hst : s.connection = true → s.socketStatus = .opened) : Tracks (s.closeTask now) := by
  rw [closeTask_eq]
  by_cases hconn : s.connection = true
  · have hphase := phase_opened hconn (hst hconn)
    rw [if_pos hconn]
    split_ifs
    all_goals
      refine h.append rfl ?_
      rw [hphase]
      simp [phase, phaseOf, Phase.next, closeTcpSock, hconn]
  · rw [if_neg hconn]
    rw [Bool.not_eq_true] at hconn
    exact h.of_eq rfl (by rw [phase_released hconn]; exact phase_released hconn)

/-! ## Runs -/

/-- The statuses in which a step keeps the life of a connection in order. A socket whose connection
has been released reports nothing and may do anything. -/
def Orderly (s : TcpSocket) : Action → Prop
  | .connect resolved => resolved = true → s.connection = true → s.socketStatus ≠ .opened
  | .timer resolved => resolved = true → s.connection = true → s.socketStatus = .opened →
      s.tcpSockOpen = true
  | .connectDone _ => s.connection = true → s.socketStatus ≠ .opened
  | .readDone _ (some _) => s.connection = true → s.socketStatus = .opened
  | .readDone _ none => s.connection = true → ¬BeforeOpen s
  | .writeDone _ true _ => s.connection = true → s.socketStatus = .opened
  | .writeDone _ false _ => s.connection = true → ¬BeforeOpen s
  | .runTask _ => s.posted.head? = some .close → s.connection = true → s.socketStatus = .opened
  | _ => True

instance decidableOrderly (s : TcpSocket) : ∀ a, Decidable (Orderly s a)
  | .connect _ | .timer _ | .connectDone _ | .readDone _ (some _) | .readDone _ none
  | .writeDone _ true _ | .writeDone _ false _ | .runTask _ => inferInstanceAs (Decidable (_ → _))
  | .initRead | .msend _ | .post | .take _ _ | .close | .enableReconnect | .disableReconnect =>
    isTrue trivial

/-- **An orderly step keeps track of the phase.** -/
theorem Tracks.step {a : Action} (h : Tracks s) (hstep : (system cfg).step s a = some t)
    (horder : Orderly s a) : Tracks t := by
  cases fires_of_step hstep with
  | initRead hinit => exact h.initRead fun _ ↦ by rw [hinit]; simp
  | connect resolved => exact h.connect horder
  | connectDone ok =>
    rw [connectDone]
    split_ifs
    · exact Tracks.initRead (h.of_eq rfl rfl) horder
    · exact h.leave horder rfl rfl (by simp)
  | readOk => exact Tracks.readOk (h.of_eq rfl rfl) horder
  | readError => exact Tracks.doClose (h.of_eq rfl rfl) horder
  | msend args =>
    rw [msend]
    split_ifs <;> exact h.of_eq rfl rfl
  | post => exact h.of_eq rfl rfl
  | doSend now =>
    rw [doSendTask]
    split_ifs
    · exact h.of_eq rfl rfl
    · exact h.of_eq (log_doAsyncWrite _ now) (phase_doAsyncWrite _ now)
  | closeTask now rest hposted =>
    exact Tracks.closeTask (h.of_eq rfl rfl) (horder (by rw [hposted]; rfl))
  | take => exact h.of_eq rfl rfl
  | writeOk i now w =>
    rw [writeOk]
    split_ifs with hconn
    · -- EVT_SEND is reported on a connection, which an orderly run has connected
      refine Tracks.append h (log_doAsyncWrite _ now) ?_
      have hphase : s.phase = .connected := phase_opened hconn (horder hconn)
      rw [phase_doAsyncWrite]
      change phaseOf s.phase [.event .send] = some s.phase
      rw [hphase]
      rfl
    · exact h.of_eq (log_doAsyncWrite _ now) (phase_doAsyncWrite _ now)
  | writeError => exact Tracks.doClose (h.of_eq rfl rfl) horder
  | close =>
    rw [close]
    split_ifs <;> exact h.of_eq rfl rfl
  | enableReconnect =>
    rw [enableReconnect]
    split_ifs <;> exact h.of_eq rfl rfl
  | disableReconnect => exact h.of_eq rfl rfl
  | timer resolved =>
    rw [timerFires]
    split_ifs with hbusy
    · exact h
    · -- the timer connects only what is not connected
      refine h.connect fun hres hconn hst ↦ hbusy ?_
      simp [isOpen, hst, horder hres hconn hst]

/-- **The life of a connection is well bracketed along every orderly run** of a new socket, in every
state it visits. -/
theorem wellBracketed_of_orderly {as : List Action} (hinit : s.socketStatus = .init)
    (hconn : s.connection = true) (hlog : s.log = [])
    (horder : (system cfg).Along Orderly s as) :
    (system cfg).Throughout (fun s ↦ WellBracketed (observed s.log)) s as := by
  refine StepSystem.throughout_of_invariant (I := Tracks) ?_
    (fun _ _ _ h hstep hc ↦ h.step hstep hc) (fun s h ↦ allows_of_phaseOf h) horder
  rw [Tracks, hlog, phase_notOpened hconn (by rw [hinit]; simp)]
  rfl

/-- Two sessions of a client that loses its server once, and its close. -/
theorem wellBracketed_two_sessions :
    (system wholeReads).Throughout (fun s ↦ WellBracketed (observed s.log)) {}
      [.connect true, .connectDone true, .enableReconnect, .msend [.view [1]], .post, .runTask 1,
        .writeDone 0 true 0, .readDone 0 (some [2]), .readDone 0 none, .timer true,
        .connectDone true, .disableReconnect, .close, .runTask 0] :=
  wellBracketed_of_orderly rfl rfl rfl (by decide)

/-- `close` on a socket that is still connecting: the connection is told about a disconnect it never
had a connect for. -/
theorem disconnect_without_connect :
    ∃ s, (system wholeReads).run {} [.connect true, .close, .runTask 0] = some s
      ∧ observed s.log = [.event .disconnect, .event .release]
      ∧ ¬WellBracketed (observed s.log) := by
  refine ⟨_, rfl, by decide, ?_⟩
  rintro ⟨bodies, -, hpre⟩
  change [.event .disconnect, .event .release] <+: lifetime bodies at hpre
  cases bodies with
  | nil => exact absurd hpre (by decide)
  | cons body bodies => simp [lifetime, session] at hpre

end TcpSocket

end Knet.Tcp
