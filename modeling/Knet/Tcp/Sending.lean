import Knet.Tcp.Socket

/-!
# The write pump

`msend` appends to `send_buffer` under the lock and posts a `do_send` task. The task, when nothing
is being written, swaps `send_buffer` with the empty `cache_buffer` and hands that to `async_write`;
the completion empties `cache_buffer` and does the same again. `is_writting` says that a write is
under way.

Three results about this pump, each over whole runs.

* While the socket stays open (`Undisturbed`), the pump is a queue, and `Pumping` is its invariant.
  Between the release of the lock in `msend` and the post that follows, data may wait with no task
  queued.
* Over errors, closes and reconnects the flag goes wrong in exactly two ways (`KeepsFlag`): a write
  that fails leaves it set, and the last write attempted by the task that `close` posts is made even
  when another write is under way.
* That last write is started and the socket closed in the same task, so that what was accepted is
  flushed when the operating system takes it at once (`FlushesAtOnce`).
-/

namespace Knet.Tcp

namespace TcpSocket

variable {cfg : Config} {s t : TcpSocket}

/-! ## The members that sending reads and writes -/

/-- The send side of a socket. -/
structure SendSide where
  connection : Bool
  tcpSockOpen : Bool
  sendBuffer : List UInt8
  cacheBuffer : List UInt8
  isWritting : Bool
  posted : List Task
  posting : ℕ
  writes : List WriteOp
  appended : List (List UInt8)
  issued : List (List UInt8)
  wire : List UInt8

/-- The send side of a state. -/
def sendSide (s : TcpSocket) : SendSide :=
  ⟨s.connection, s.tcpSockOpen, s.sendBuffer, s.cacheBuffer, s.isWritting, s.posted, s.posting,
    s.writes, s.appended, s.issued, s.wire⟩

/-! ### Closing leaves the open status -/

theorem socketStatus_doClose_ne (s : TcpSocket) : s.doClose.socketStatus ≠ .opened := by
  rw [doClose_eq]
  split_ifs with hst
  · rcases hst with h | h <;> simp [h]
  all_goals simp

theorem socketStatus_closeTask_ne (s : TcpSocket) (now : ℕ) :
    (s.closeTask now).socketStatus ≠ .opened := by
  rw [closeTask_eq]
  split_ifs <;> simp

/-! ### Reading does not touch the send side of a socket that stays open -/

theorem sendSide_processData {nread : ℕ} (h : (s.processData cfg nread).socketStatus = .opened) :
    (s.processData cfg nread).sendSide = s.sendSide := by
  cases hover : (s.scanned cfg nread).overlong with
  | true =>
    rw [processData_overlong hover] at h
    exact absurd h (socketStatus_doClose_ne _)
  | false => rw [processData_fits hover, sendSide, sendSide]

theorem sendSide_doRead (h : (s.doRead cfg).socketStatus = .opened) :
    (s.doRead cfg).sendSide = s.sendSide ∧ s.socketStatus = .opened := by
  simp only [doRead] at h ⊢
  split_ifs at h ⊢ with hopen hroom hfull
  · exact ⟨rfl, h⟩
  · exact absurd h (socketStatus_doClose_ne _)
  · refine ⟨sendSide_processData h, ?_⟩
    cases hover : (s.scanned cfg 0).overlong with
    | true =>
      rw [processData_overlong hover] at h
      exact absurd h (socketStatus_doClose_ne _)
    | false =>
      rw [processData_fits hover] at h
      exact h
  · exact ⟨rfl, h⟩

theorem sendSide_readOk {off : ℕ} {chunk : List UInt8}
    (h : (s.readOk cfg off chunk).socketStatus = .opened) :
    (s.readOk cfg off chunk).sendSide = s.sendSide := by
  obtain ⟨hread, hdata⟩ := sendSide_doRead h
  exact hread.trans (sendSide_processData hdata)

/-! ## Runs in which the socket stays open -/

/-- The actions of a connection that is neither failing nor being replaced. `close` is among them:
it only posts a task. -/
def Action.IsTraffic : Action → Prop
  | .msend _ | .post | .runTask _ | .take _ _ | .writeDone _ true _ | .readDone _ (some _)
  | .close | .enableReconnect | .disableReconnect | .timer _ => True
  | _ => False

instance decidableIsTraffic : ∀ a : Action, Decidable a.IsTraffic
  | .msend _ | .post | .runTask _ | .take _ _ | .writeDone _ true _ | .readDone _ (some _)
  | .close | .enableReconnect | .disableReconnect | .timer _ => isTrue trivial
  | .writeDone _ false _ | .readDone _ none | .initRead | .connect _ | .connectDone _ =>
    isFalse fun h ↦ h

/-- A step that is no error and after which the socket is still open. -/
def Undisturbed (cfg : Config) (s : TcpSocket) (a : Action) : Prop :=
  a.IsTraffic ∧ ∀ t, (system cfg).step s a = some t → t.socketStatus = .opened

instance (cfg : Config) (s : TcpSocket) (a : Action) : Decidable (Undisturbed cfg s a) :=
  have : Decidable (∀ t, (system cfg).step s a = some t → t.socketStatus = .opened) :=
    inferInstanceAs (Decidable (∀ t ∈ (system cfg).step s a, t.socketStatus = .opened))
  inferInstanceAs (Decidable (_ ∧ _))

/-- A socket that has just been opened. -/
structure FreshlyOpen (s : TcpSocket) : Prop where
  status : s.socketStatus = .opened
  connection : s.connection = true
  isOpen : s.tcpSockOpen = true
  sendBuffer : s.sendBuffer = []
  cacheBuffer : s.cacheBuffer = []
  isWritting : s.isWritting = false
  posted : s.posted = []
  posting : s.posting = 0
  writes : s.writes = []
  appended : s.appended = []
  issued : s.issued = []
  wire : s.wire = []

/-- **The invariant of the pump.** -/
structure Pumping (d : SendSide) : Prop where
  connection : d.connection = true
  isOpen : d.tcpSockOpen = true
  /-- The flag says how many writes are outstanding. -/
  count : d.writes.length = d.isWritting.toNat
  /-- An outstanding write was given what `cache_buffer` still holds. -/
  data : ∀ w ∈ d.writes, w.data = d.cacheBuffer
  idle : d.isWritting = false → d.cacheBuffer = []
  busy : d.isWritting = true → d.cacheBuffer ≠ []
  /-- What was appended has been issued or is in `send_buffer`, in this order. -/
  order : d.issued.flatten ++ d.sendBuffer = d.appended.flatten
  /-- What was issued has been taken or is about to be, in this order. -/
  taken : d.wire ++ (d.writes.map WriteOp.rest).flatten = d.issued.flatten
  waiting : d.sendBuffer ≠ [] → d.isWritting = true ∨ .doSend ∈ d.posted ∨ 0 < d.posting

theorem FreshlyOpen.pumping (h : FreshlyOpen s) : Pumping s.sendSide := by
  refine ⟨h.connection, h.isOpen, ?_, ?_, fun _ ↦ h.cacheBuffer, ?_, ?_, ?_, ?_⟩
  · simp [sendSide, h.writes, h.isWritting]
  · simp [sendSide, h.writes]
  · simp [sendSide, h.isWritting]
  · simp [sendSide, h.issued, h.appended, h.sendBuffer]
  · simp [sendSide, h.issued, h.wire, h.writes]
  · simp [sendSide, h.sendBuffer]

/-! ### One step of the pump -/

/-- `do_async_write` when nothing is outstanding: the next write starts, if there is anything. -/
theorem Pumping.doAsyncWrite (now : ℕ) (hconn : s.connection = true) (hopen : s.tcpSockOpen = true)
    (hwrites : s.writes = []) (hcache : s.cacheBuffer = [])
    (horder : s.issued.flatten ++ s.sendBuffer = s.appended.flatten)
    (htaken : s.wire = s.issued.flatten) : Pumping (s.doAsyncWrite now).sendSide := by
  by_cases hsend : s.sendBuffer = []
  · rw [doAsyncWrite_idle hsend hcache]
    refine ⟨hconn, hopen, ?_, ?_, fun _ ↦ hcache, ?_, horder, ?_, ?_⟩
    · simp [sendSide, hwrites]
    · simp [sendSide, hwrites]
    · simp [sendSide]
    · simp [sendSide, hwrites, htaken]
    · exact fun hne ↦ absurd hsend hne
  · rw [doAsyncWrite_swap hsend hcache, asyncWrite]
    refine ⟨hconn, hopen, ?_, ?_, ?_, fun _ ↦ hsend, ?_, ?_, ?_⟩
    · simp [sendSide, hwrites]
    · simp [sendSide, hwrites]
    · simp [sendSide]
    · simp [sendSide, horder]
    · simp [sendSide, hwrites, htaken, hopen, WriteOp.rest, List.append_assoc]
    · simp [sendSide]

theorem Pumping.writes_eq {i : ℕ} {w : WriteOp} (h : Pumping s.sendSide)
    (hw : s.writes[i]? = some w) : s.writes = [w] ∧ i = 0 ∧ s.isWritting = true := by
  have hcount : s.writes.length = s.isWritting.toNat := h.count
  obtain ⟨hlt, hget⟩ := List.getElem?_eq_some_iff.mp hw
  have hone : s.isWritting.toNat ≤ 1 := Bool.toNat_le _
  obtain ⟨v, hv⟩ := List.length_eq_one_iff.mp (show s.writes.length = 1 by omega)
  have hi : i = 0 := by omega
  subst hi
  have hvw : v = w := by simpa [hv] using hw
  refine ⟨hvw ▸ hv, rfl, ?_⟩
  cases hflag : s.isWritting with
  | true => rfl
  | false =>
    rw [hflag, Bool.toNat_false] at hcount
    omega

theorem Pumping.writes_nil (h : Pumping s.sendSide) (hflag : s.isWritting = false) :
    s.writes = [] := by
  have hcount : s.writes.length = s.isWritting.toNat := h.count
  rw [hflag, Bool.toNat_false] at hcount
  exact List.length_eq_zero_iff.mp hcount

theorem Pumping.msend (h : Pumping s.sendSide) (args : List Arg) :
    Pumping (s.msend args).sendSide := by
  rw [TcpSocket.msend]
  split_ifs
  · refine { h with order := ?_, waiting := fun _ ↦ .inr (.inr (Nat.succ_pos _)) }
    · have horder : s.issued.flatten ++ s.sendBuffer = s.appended.flatten := h.order
      simp only [sendSide, mpush_fst, List.flatten_append, List.flatten_singleton]
      rw [← List.append_assoc, horder]
  · exact h

/-- The write that was outstanding has been taken whole, and the next one starts. -/
theorem Pumping.writeOk {i : ℕ} {w : WriteOp} (now : ℕ) (h : Pumping s.sendSide)
    (hw : s.writes[i]? = some w) (hrest : w.rest = []) :
    Pumping (({ s with writes := s.writes.eraseIdx i }).writeOk now).sendSide := by
  obtain ⟨hwrites, rfl, -⟩ := h.writes_eq hw
  have htaken : s.wire = s.issued.flatten := by
    have := h.taken
    simp only [sendSide, hwrites, List.map_cons, List.map_nil, hrest, List.flatten_cons,
      List.flatten_nil, List.append_nil] at this
    exact this
  rw [TcpSocket.writeOk]
  refine Pumping.doAsyncWrite now ?_ ?_ ?_ rfl ?_ ?_
  all_goals split_ifs
  any_goals exact h.connection
  any_goals exact h.isOpen
  any_goals exact h.order
  any_goals exact htaken
  all_goals simp [processEvent, hwrites]

theorem Pumping.take {i : ℕ} {w : WriteOp} (n : ℕ) (h : Pumping s.sendSide)
    (hw : s.writes[i]? = some w) :
    Pumping ({ s with
      writes := s.writes.set i { w with sent := w.sent + min n w.rest.length }
      wire := s.wire ++ w.rest.take n } : TcpSocket).sendSide := by
  obtain ⟨hwrites, rfl, hflag⟩ := h.writes_eq hw
  have hrest : ({ w with sent := w.sent + min n w.rest.length } : WriteOp).rest
      = w.rest.drop n := by
    change w.data.drop (w.sent + min n (w.data.drop w.sent).length) = (w.data.drop w.sent).drop n
    rw [List.drop_drop, List.length_drop]
    rcases Nat.le_total n (w.data.length - w.sent) with hle | hge
    · rw [Nat.min_eq_left hle]
    · rw [Nat.min_eq_right hge, List.drop_eq_nil_of_le (by omega),
        List.drop_eq_nil_of_le (by omega)]
  refine { h with count := ?_, data := ?_, taken := ?_ }
  · simp [sendSide, hwrites, hflag]
  · have hdata : w.data = s.cacheBuffer := h.data w (by simp [sendSide, hwrites])
    simp [sendSide, hwrites, hdata]
  · have htaken := h.taken
    simp only [sendSide, hwrites, List.map_cons, List.map_nil, List.flatten_cons,
      List.flatten_nil, List.append_nil, List.set_cons_zero] at htaken ⊢
    rw [hrest, List.append_assoc, List.take_append_drop, htaken]

/-- **An undisturbed step keeps the pump going.** -/
theorem Pumping.step {a : Action} (h : Pumping s.sendSide)
    (hstep : (system cfg).step s a = some t) (hquiet : Undisturbed cfg s a) :
    Pumping t.sendSide := by
  obtain ⟨htraffic, hopen⟩ := hquiet
  have hstatus : t.socketStatus = .opened := hopen t hstep
  cases fires_of_step hstep with
  | initRead => exact htraffic.elim
  | connect => exact htraffic.elim
  | connectDone => exact htraffic.elim
  | readOk => exact (sendSide_readOk hstatus).symm ▸ h
  | readError => exact htraffic.elim
  | msend args => exact h.msend args
  | post hposting =>
    -- the task that will send is in the queue now
    exact { h with waiting := fun _ ↦ .inr (.inl (List.mem_append_right _ List.mem_cons_self)) }
  | doSend now rest hposted =>
    rw [doSendTask]
    split_ifs with hflag
    · -- a write is outstanding, and its completion sends what is left
      exact { h with waiting := fun _ ↦ .inl hflag }
    · rw [Bool.not_eq_true] at hflag
      have hwrites := h.writes_nil hflag
      have htaken := h.taken
      simp only [sendSide, hwrites, List.map_nil, List.flatten_nil, List.append_nil] at htaken
      exact Pumping.doAsyncWrite now h.connection h.isOpen hwrites (h.idle hflag) h.order htaken
  | closeTask now => exact absurd hstatus (socketStatus_closeTask_ne _ now)
  | take i n w hw => exact h.take n hw
  | writeOk i now w hw hrest => exact h.writeOk now hw hrest
  | writeError => exact htraffic.elim
  | close =>
    rw [TcpSocket.close]
    split_ifs
    · exact h
    · refine { h with waiting := ?_ }
      intro hne
      rcases h.waiting hne with hw | hp | hp
      · exact .inl hw
      · exact .inr (.inl (List.mem_append_left _ hp))
      · exact .inr (.inr hp)
  | enableReconnect =>
    rw [TcpSocket.enableReconnect]
    split_ifs <;> exact h
  | disableReconnect => exact h
  | timer resolved =>
    simp only [timerFires, TcpSocket.connect] at hstatus ⊢
    split_ifs at hstatus ⊢ <;> exact h

/-! ### The whole run -/

/-- What the asynchronous send path promises of a state. -/
structure SendsInOrder (s : TcpSocket) : Prop where
  /-- At most one write is outstanding. -/
  one : s.writes.length ≤ 1
  /-- `cache_buffer` is what an outstanding write was given. -/
  unchanged : ∀ w ∈ s.writes, w.data = s.cacheBuffer
  /-- The buffers given to `async_write`, then `send_buffer`, are what was appended. -/
  order : s.issued.flatten ++ s.sendBuffer = s.appended.flatten
  /-- Waiting data has a write outstanding, a `do_send` task queued, or a call of `msend` that has
  released the lock and is about to post its task. -/
  notStuck : s.sendBuffer ≠ [] → s.writes ≠ [] ∨ .doSend ∈ s.posted ∨ 0 < s.posting

theorem Pumping.sendsInOrder (h : Pumping s.sendSide) : SendsInOrder s := by
  have hcount : s.writes.length = s.isWritting.toNat := h.count
  refine ⟨hcount ▸ Bool.toNat_le _, h.data, h.order, fun hne ↦ ?_⟩
  rcases h.waiting hne with hw | hp
  · left
    intro hnil
    have hflag : s.isWritting = true := hw
    rw [hnil, hflag, List.length_nil, Bool.toNat_true] at hcount
    omega
  · exact .inr hp

theorem pumping_of_run {as : List Action} (hfresh : FreshlyOpen s)
    (hquiet : (system cfg).Along (Undisturbed cfg) s as)
    (hrun : (system cfg).run s as = some t) : Pumping t.sendSide :=
  StepSystem.invariant_of_run (I := fun s ↦ Pumping s.sendSide) hfresh.pumping
    (fun _ _ _ h hstep hc ↦ h.step hstep hc) hquiet hrun

/-- **The send path is a queue.** In every state of every run of a freshly opened socket that meets
no error and stays open, whatever the interleaving of appends, posted tasks, reads and completions:
the bytes handed to `async_write`, followed by `send_buffer`, are the bytes appended by `msend` in
lock order, with at most one write outstanding and no data stuck. -/
theorem sendsInOrder_of_run {as : List Action} (hfresh : FreshlyOpen s)
    (hquiet : (system cfg).Along (Undisturbed cfg) s as) :
    (system cfg).Throughout SendsInOrder s as :=
  StepSystem.throughout_of_invariant (I := fun s ↦ Pumping s.sendSide) hfresh.pumping
    (fun _ _ _ h hstep hc ↦ h.step hstep hc) (fun _ h ↦ h.sendsInOrder) hquiet

/-- A socket that has just been opened by its listener. -/
def opened : TcpSocket := accepted.initRead wholeReads

theorem freshlyOpen_opened : FreshlyOpen opened :=
  ⟨rfl, rfl, rfl, rfl, rfl, rfl, rfl, rfl, rfl, rfl, rfl, rfl⟩

/-- Two threads send while the first write is taken in pieces. -/
theorem sendsInOrder_two_sends :
    (system wholeReads).Throughout SendsInOrder opened
      [.msend [.view [1, 2, 3]], .post, .runTask 2, .msend [.value [4]], .take 0 1, .post,
        .runTask 0, .writeDone 0 true 1] :=
  sendsInOrder_of_run freshlyOpen_opened (by decide)

/-- Right after the append nothing is queued yet: the call of `msend` has released the lock and not
reached `do_send`. -/
theorem append_before_post :
    FreshlyOpen opened
      ∧ (system wholeReads).Along (Undisturbed wholeReads) opened [.msend [.view [1]]]
      ∧ ∃ s, (system wholeReads).run opened [.msend [.view [1]]] = some s
        ∧ ¬(s.sendBuffer ≠ [] → s.writes ≠ [] ∨ .doSend ∈ s.posted) :=
  ⟨freshlyOpen_opened, by decide, _, rfl, by decide⟩

/-! ## The flag over errors, closes and reconnects -/

/-- `is_writting` is set exactly when one write is outstanding, and never more than one is. -/
def FlagExact (s : TcpSocket) : Prop := s.writes.length = s.isWritting.toNat

/-- The pump is usable: the flag is exact, and a `do_send` task run on an open socket with data
waiting leaves a write outstanding. -/
def Usable (s : TcpSocket) : Prop :=
  FlagExact s ∧
    (s.socketStatus = .opened → s.sendBuffer ≠ [] → ∀ now, (s.doSendTask now).writes ≠ [])

/-- The steps after which the flag is still exact: a write does not fail, and the task posted by
`close` does not find data waiting while a write is under way. -/
def KeepsFlag (s : TcpSocket) : Action → Prop
  | .writeDone _ ok _ => ok = true
  | .runTask _ => s.posted.head? = some .close → s.connection = true → s.sendBuffer ≠ [] →
      s.isWritting = false
  | _ => True

instance decidableKeepsFlag (s : TcpSocket) : ∀ a, Decidable (KeepsFlag s a)
  | .writeDone _ ok _ => inferInstanceAs (Decidable (ok = true))
  | .runTask _ => inferInstanceAs (Decidable (_ → _))
  | .initRead | .connect _ | .connectDone _ | .readDone _ _ | .msend _ | .post | .take _ _
  | .close | .enableReconnect | .disableReconnect | .timer _ => isTrue trivial

/-- `do_async_write` with data in one of the two buffers starts a write. -/
theorem doAsyncWrite_starts (now : ℕ) (h : s.sendBuffer ≠ [] ∨ s.cacheBuffer ≠ []) :
    (s.doAsyncWrite now).writes.length = s.writes.length + 1
      ∧ (s.doAsyncWrite now).isWritting = true := by
  by_cases hc : s.cacheBuffer = []
  · have hs : s.sendBuffer ≠ [] := h.resolve_right fun hne ↦ hne hc
    rw [doAsyncWrite_swap hs hc, asyncWrite]
    exact ⟨List.length_append, rfl⟩
  · rw [doAsyncWrite_again hc, asyncWrite]
    exact ⟨List.length_append, rfl⟩

theorem flagExact_doAsyncWrite (now : ℕ) (hwrites : s.writes = []) :
    FlagExact (s.doAsyncWrite now) := by
  by_cases h : s.sendBuffer = [] ∧ s.cacheBuffer = []
  · rw [doAsyncWrite_idle h.1 h.2]
    simp [FlagExact, hwrites]
  · obtain ⟨hlen, hflag⟩ := doAsyncWrite_starts now (not_and_or.mp h)
    rw [FlagExact, hlen, hflag, hwrites]
    rfl

theorem usable_iff : Usable s ↔ FlagExact s := by
  refine ⟨fun h ↦ h.1, fun h ↦ ⟨h, fun _ hsend now ↦ ?_⟩⟩
  rw [doSendTask]
  split_ifs with hflag
  · intro hnil
    rw [FlagExact, hnil, hflag] at h
    exact absurd h (by decide)
  · obtain ⟨hlen, -⟩ := doAsyncWrite_starts now (.inl hsend)
    intro hnil
    rw [hnil, List.length_nil] at hlen
    omega

/-! ### What the other operations do to the flag and to the number of writes -/

/-- The number of outstanding writes, and the flag. -/
def writeCount (s : TcpSocket) : ℕ × Bool := (s.writes.length, s.isWritting)

theorem flagExact_congr (h : t.writeCount = s.writeCount) : FlagExact t ↔ FlagExact s := by
  obtain ⟨hlen, hflag⟩ := Prod.mk.inj h
  rw [FlagExact, FlagExact, hlen, hflag]

theorem writeCount_closeTcpSock (s : TcpSocket) : s.closeTcpSock.writeCount = s.writeCount := by
  simp [writeCount, closeTcpSock]

theorem writeCount_doClose (s : TcpSocket) : s.doClose.writeCount = s.writeCount := by
  rw [doClose_eq]
  split_ifs
  · rfl
  · rfl
  · exact writeCount_closeTcpSock s
  · exact writeCount_closeTcpSock s

theorem writeCount_processData (s : TcpSocket) (nread : ℕ) :
    (s.processData cfg nread).writeCount = s.writeCount := by
  cases hover : (s.scanned cfg nread).overlong with
  | true =>
    rw [processData_overlong hover, writeCount_doClose]
    rfl
  | false =>
    rw [processData_fits hover]
    rfl

theorem writeCount_doRead (s : TcpSocket) : (s.doRead cfg).writeCount = s.writeCount := by
  simp only [doRead]
  split_ifs
  · rfl
  · rw [writeCount_doClose, writeCount_processData]
  · rw [writeCount_processData]
  · rfl

theorem writeCount_readOk (s : TcpSocket) (off : ℕ) (chunk : List UInt8) :
    (s.readOk cfg off chunk).writeCount = s.writeCount := by
  rw [readOk, writeCount_doRead, writeCount_processData]
  rfl

theorem writeCount_initRead (s : TcpSocket) : (s.initRead cfg).writeCount = s.writeCount := by
  rw [initRead]
  split_ifs
  · rw [writeCount_doRead]
    rfl
  · rfl

theorem writeCount_connect (s : TcpSocket) (resolved : Bool) :
    (s.connect resolved).writeCount = s.writeCount := by
  simp only [connect]
  split_ifs
  · exact writeCount_closeTcpSock s
  · rfl

/-- The task posted by `close` starts a last write exactly when it finds data waiting. -/
theorem flagExact_closeTask_iff (now : ℕ) (h : FlagExact s) :
    FlagExact (s.closeTask now) ↔
      (s.connection = true → s.sendBuffer ≠ [] → s.isWritting = false) := by
  rw [closeTask_eq]
  by_cases hconn : s.connection = true
  · rw [if_pos hconn]
    by_cases hsend : s.sendBuffer = []
    · have hkeep : FlagExact s.closeTcpSock :=
        (flagExact_congr (writeCount_closeTcpSock s)).mpr h
      simp only [hsend, ne_eq, not_true_eq_false, ↓reduceIte, IsEmpty.forall_iff, implies_true,
        iff_true]
      split_ifs <;> exact hkeep
    · obtain ⟨hlen, hflag⟩ := doAsyncWrite_starts now (.inl hsend)
      have hcount : FlagExact (s.doAsyncWrite now).closeTcpSock ↔ s.isWritting = false := by
        rw [flagExact_congr (writeCount_closeTcpSock _), FlagExact, hlen, hflag, h]
        cases s.isWritting <;> simp
      simp only [ne_eq, hsend, not_false_eq_true, ↓reduceIte, hconn, forall_const]
      split_ifs <;> exact hcount
  · rw [if_neg hconn]
    refine ⟨fun _ hc ↦ absurd hc hconn, fun _ ↦ ?_⟩
    exact (flagExact_congr (writeCount_closeTcpSock s)).mpr h

/-- **One step, exactly.** From a state with an exact flag, the flag is exact after a step if and
only if the step is not one of the two that spoil it. -/
theorem flagExact_step_iff {a : Action} (h : FlagExact s)
    (hstep : (system cfg).step s a = some t) : FlagExact t ↔ KeepsFlag s a := by
  -- most steps leave the flag and the number of writes alone
  have hkeep : ∀ {t : TcpSocket}, t.writeCount = s.writeCount → (FlagExact t ↔ True) :=
    fun hcount ↦ iff_of_true ((flagExact_congr hcount).mpr h) trivial
  cases fires_of_step hstep with
  | initRead => exact hkeep (writeCount_initRead s)
  | connect resolved => exact hkeep (writeCount_connect s resolved)
  | connectDone ok =>
    cases ok with
    | true => exact hkeep (writeCount_initRead _)
    | false => exact hkeep (writeCount_closeTcpSock _)
  | readOk i op chunk => exact hkeep (writeCount_readOk _ op.off chunk)
  | readError => exact hkeep (writeCount_doClose _)
  | msend args =>
    refine hkeep ?_
    rw [msend]
    split_ifs <;> rfl
  | post => exact hkeep rfl
  | doSend now rest hposted =>
    have hcond : KeepsFlag s (.runTask now) := by
      intro hhead
      rw [hposted] at hhead
      exact absurd hhead (by simp)
    refine iff_of_true ?_ hcond
    rw [doSendTask]
    split_ifs with hflag
    · exact h
    · refine flagExact_doAsyncWrite now ?_
      rw [Bool.not_eq_true] at hflag
      rw [FlagExact, hflag] at h
      exact List.length_eq_zero_iff.mp h
  | closeTask now rest hposted =>
    rw [flagExact_closeTask_iff (s := { s with posted := rest }) now h, KeepsFlag, hposted]
    exact ⟨fun hx _ ↦ hx, fun hx ↦ hx rfl⟩
  | take i n w =>
    refine hkeep ?_
    rw [writeCount, List.length_set]
    rfl
  | writeOk i now w hw =>
    refine iff_of_true (flagExact_doAsyncWrite now ?_) rfl
    have hlt : i < s.writes.length := (List.getElem?_eq_some_iff.mp hw).1
    have hone : s.isWritting.toNat ≤ 1 := Bool.toNat_le _
    rw [FlagExact] at h
    have herase : s.writes.eraseIdx i = [] := by
      rw [← List.length_eq_zero_iff, List.length_eraseIdx_of_lt hlt]
      omega
    split_ifs <;> exact herase
  | writeError i now w hw =>
    -- the completion handler leaves the flag set
    refine iff_of_false ?_ (by simp [KeepsFlag])
    have hlt : i < s.writes.length := (List.getElem?_eq_some_iff.mp hw).1
    rw [writeError, flagExact_congr (writeCount_doClose _)]
    rw [FlagExact] at h ⊢
    change (s.writes.eraseIdx i).length ≠ s.isWritting.toNat
    rw [List.length_eraseIdx_of_lt hlt]
    omega
  | close =>
    refine hkeep ?_
    rw [close]
    split_ifs <;> rfl
  | enableReconnect =>
    refine hkeep ?_
    rw [enableReconnect]
    split_ifs <;> rfl
  | disableReconnect => exact hkeep rfl
  | timer resolved =>
    refine hkeep ?_
    rw [timerFires]
    split_ifs
    · rfl
    · exact writeCount_connect s resolved

/-- **When the pump stays usable.** Along a run of a socket that starts with no write under way,
whatever errors, closes and reconnects it meets, the pump is usable in every state exactly when no
write fails and the task posted by `close` never finds data waiting while a write is under way. -/
theorem usable_iff_along_keepsFlag {as : List Action} (hwrites : s.writes = [])
    (hflag : s.isWritting = false) :
    (system cfg).Throughout Usable s as ↔ (system cfg).Along KeepsFlag s as := by
  refine StepSystem.throughout_iff_along ?_ fun s a t h hstep ↦ ?_
  · exact usable_iff.mpr (by rw [FlagExact, hwrites, hflag]; rfl)
  · rw [usable_iff]
    exact flagExact_step_iff (usable_iff.mp h) hstep

/-- A write goes out, a read fails, the socket reconnects and sends again. -/
theorem usable_over_reconnect :
    (system wholeReads).Throughout Usable {}
      [.connect true, .connectDone true, .enableReconnect, .msend [.view [1]], .post, .runTask 1,
        .writeDone 0 true 0, .readDone 0 none, .timer true, .connectDone true, .msend [.view [2]],
        .post, .runTask 0] :=
  (usable_iff_along_keepsFlag rfl rfl).mpr (by decide)

/-- A write fails and the socket reconnects: it is open, data is waiting, no write is outstanding,
and the queued task does not start one. -/
theorem stuck_after_write_error :
    ∃ s, (system wholeReads).run {}
        [.connect true, .connectDone true, .enableReconnect, .msend [.view [1]], .post, .runTask 0,
          .writeDone 0 false 0, .timer true, .connectDone true, .msend [.view [2]], .post]
        = some s
      ∧ s.socketStatus = .opened ∧ s.sendBuffer ≠ [] ∧ s.writes = [] ∧ s.isWritting = true
      ∧ (∀ now, (s.doSendTask now).writes = []) ∧ ¬Usable s := by
  refine ⟨_, rfl, by decide, by decide, by decide, by decide, fun now ↦ rfl, fun h ↦ ?_⟩
  exact absurd h.1 (by unfold FlagExact; decide)

/-! ## The last write of a socket being closed -/

/-- When the task posted by `close` gets everything accepted onto the wire before it closes the
socket: nothing is waiting and the outstanding write, if there is one, has been taken whole; or no
write is outstanding and the operating system takes the last write at once; or a write is
outstanding, and what is taken at once of the second write of the same `cache_buffer` happens to be
the bytes that are missing. -/
def FlushesAtOnce (s : TcpSocket) (now : ℕ) : Prop :=
  (s.sendBuffer = [] ∧ ∀ w ∈ s.writes, w.rest = []) ∨
  (s.writes = [] ∧ s.sendBuffer.length ≤ now) ∨
  (s.sendBuffer ≠ [] ∧ ∃ w ∈ s.writes, s.cacheBuffer.take now = w.rest ++ s.sendBuffer)

instance (s : TcpSocket) (now : ℕ) : Decidable (FlushesAtOnce s now) :=
  inferInstanceAs (Decidable (_ ∨ _))

theorem appended_closeTask (s : TcpSocket) (now : ℕ) :
    (s.closeTask now).appended = s.appended := by
  rw [closeTask_eq]
  split_ifs
  any_goals exact appended_doAsyncWrite s now
  all_goals rfl

theorem tcpSockOpen_closeTask (s : TcpSocket) (now : ℕ) :
    (s.closeTask now).tcpSockOpen = false := by
  rw [closeTask_eq]
  split_ifs <;> rfl

theorem wire_asyncWrite (now : ℕ) (hopen : s.tcpSockOpen = true) :
    (s.asyncWrite now).wire = s.wire ++ s.cacheBuffer.take now := by
  rw [asyncWrite]
  simp only [hopen, ↓reduceIte, ← List.take_eq_take_min]

theorem wire_closeTask (now : ℕ) (hconn : s.connection = true) (hopen : s.tcpSockOpen = true) :
    (s.closeTask now).wire = s.wire ++
      if s.sendBuffer = [] then []
      else if s.cacheBuffer = [] then s.sendBuffer.take now else s.cacheBuffer.take now := by
  have hlast : (s.closeTask now).wire
      = (if s.sendBuffer ≠ [] then s.doAsyncWrite now else s).wire := by
    rw [closeTask_eq, if_pos hconn]
    split_ifs <;> rfl
  rw [hlast]
  by_cases hsend : s.sendBuffer = []
  · rw [if_neg (not_not_intro hsend), if_pos hsend, List.append_nil]
  · rw [if_pos hsend, if_neg hsend]
    split_ifs with hcache
    · rw [doAsyncWrite_swap hsend hcache]
      exact wire_asyncWrite now hopen
    · rw [doAsyncWrite_again hcache]
      exact wire_asyncWrite now hopen

/-- **The task posted by `close`, exactly.** -/
theorem Pumping.flushed_iff (now : ℕ) (rest : List Task) (h : Pumping s.sendSide) :
    (({ s with posted := rest }).closeTask now).wire = s.appended.flatten
      ↔ FlushesAtOnce s now := by
  have horder : s.issued.flatten ++ s.sendBuffer = s.appended.flatten := h.order
  have htaken : s.wire ++ (s.writes.map WriteOp.rest).flatten = s.issued.flatten := h.taken
  have hwire := wire_closeTask (s := { s with posted := rest }) now h.connection h.isOpen
  rw [hwire, ← horder, ← htaken, List.append_assoc]
  refine List.append_right_inj s.wire |>.trans ?_
  by_cases hsend : s.sendBuffer = []
  · -- no last write: what is outstanding must have been taken
    rw [if_pos hsend, hsend, List.append_nil, eq_comm, List.flatten_eq_nil_iff]
    constructor
    · intro hrests
      exact .inl ⟨hsend, fun w hw ↦ hrests _ (List.mem_map_of_mem hw)⟩
    · rintro (⟨-, hrests⟩ | ⟨hwrites, -⟩ | ⟨hne, -⟩) r hr
      · obtain ⟨w, hw, rfl⟩ := List.mem_map.mp hr
        exact hrests w hw
      · rw [hwrites] at hr
        exact absurd hr List.not_mem_nil
      · exact absurd hsend hne
  · rw [if_neg hsend]
    cases hflag : s.isWritting with
    | false =>
      -- the last write takes what there is room for
      have hwrites := h.writes_nil hflag
      have hcache : s.cacheBuffer = [] := h.idle hflag
      rw [if_pos hcache, hwrites, List.map_nil, List.flatten_nil, List.nil_append]
      constructor
      · intro htake
        have hlen := congrArg List.length htake
        rw [List.length_take] at hlen
        exact .inr (.inl ⟨hwrites, by omega⟩)
      · rintro (⟨hnil, -⟩ | ⟨-, hle⟩ | ⟨-, w, hw, -⟩)
        · exact absurd hnil hsend
        · exact List.take_of_length_le hle
        · rw [hwrites] at hw
          exact absurd hw List.not_mem_nil
    | true =>
      -- a write is outstanding, and the last one sends the bytes of that write again
      have hcount : s.writes.length = s.isWritting.toNat := h.count
      obtain ⟨w, hwrites⟩ := List.length_eq_one_iff.mp (by rw [hcount, hflag]; rfl)
      have hcache : s.cacheBuffer ≠ [] := h.busy hflag
      rw [if_neg hcache, hwrites]
      simp [FlushesAtOnce, hsend, hwrites]

/-- **When a closing connection has flushed what it accepted.** For every run of a freshly opened
socket up to the task posted by `close`, with no error and whatever pieces the operating system
takes the writes in: the task closes the socket, and everything `msend` accepted is on the wire by
then, once and in order, exactly when the task runs in a state that meets `FlushesAtOnce`. -/
theorem flushed_iff_flushesAtOnce {as : List Action} {u : TcpSocket} (now : ℕ)
    (hfresh : FreshlyOpen s) (hquiet : (system cfg).Along (Undisturbed cfg) s as)
    (hrun : (system cfg).run s as = some t) (hposted : t.posted.head? = some .close)
    (hstep : (system cfg).step t (.runTask now) = some u) :
    u.tcpSockOpen = false ∧ (u.wire = u.appended.flatten ↔ FlushesAtOnce t now) := by
  have hpump : Pumping t.sendSide := pumping_of_run hfresh hquiet hrun
  obtain ⟨rest, hrest⟩ := List.head?_eq_some_iff.mp hposted
  have hu : u = ({ t with posted := rest }).closeTask now := by
    rw [system_step, step, hrest] at hstep
    exact (Option.some.inj hstep).symm
  subst hu
  refine ⟨tcpSockOpen_closeTask _ now, ?_⟩
  rw [appended_closeTask]
  exact hpump.flushed_iff now rest

/-- Three bytes are sent and the socket is closed at once; the operating system takes them all when
the first write is started. -/
theorem flushed_short_message :
    ∃ t u, (system wholeReads).run opened
        [.msend [.view [1, 2, 3]], .post, .close, .runTask 8] = some t
      ∧ (system wholeReads).step t (.runTask 0) = some u ∧ u.tcpSockOpen = false
      ∧ u.wire = u.appended.flatten := by
  have hquiet : (system wholeReads).Along (Undisturbed wholeReads) opened
      [.msend [.view [1, 2, 3]], .post, .close, .runTask 8] := by decide
  obtain ⟨hclosed, hflushed⟩ :=
    flushed_iff_flushesAtOnce 0 freshlyOpen_opened hquiet rfl rfl rfl
  exact ⟨_, _, rfl, rfl, hclosed, hflushed.mpr (by decide)⟩

/-- Three bytes are sent and the socket is closed at once; the operating system takes the first of
them when the write is started, and no other. -/
theorem lost_at_close :
    FreshlyOpen opened
      ∧ (system wholeReads).Along (Undisturbed wholeReads) opened
        [.msend [.view [1, 2, 3]], .post, .close, .runTask 1]
      ∧ ∃ u, (system wholeReads).run opened
          [.msend [.view [1, 2, 3]], .post, .close, .runTask 1, .runTask 0] = some u
        ∧ u.tcpSockOpen = false ∧ u.results = [3] ∧ u.appended = [[1, 2, 3]] ∧ u.wire = [1] := by
  refine ⟨freshlyOpen_opened, by decide, _, rfl, ?_⟩
  decide

end TcpSocket

end Knet.Tcp
