import Knet.Http.Parser.Execute

/-!
# One byte at a time

What the parser is: a machine that takes one byte after the other and keeps what it has reported so
far. There are no marks and no loops here, and where a piece of data ends is of no importance, so
that two pieces of bytes in a row are as good as one (`feed_append`).

Between the states and the marks of the code there is this connection: what a state does with the
marks leaves that mark, and no other, which the next state begins with (`step_tidy`).
-/

namespace Knet.Http.Parser

open Pieces

/-! ## The machine -/

/-- A byte of the name of a header. -/
def byteHeaderField (p : Parser) (ch : UInt8) : Step :=
  if token ch ≠ 0 then ⟨p.matchField (token ch), [], .next⟩
  else if ch = ':'.toUInt8 then ⟨p.goto .headerValueDiscardWs, [.data .headerField], .next⟩
  else p.error .invalidHeaderToken

/-- A byte of the value of a header. -/
def byteHeaderValue (p : Parser) (ch : UInt8) : Step :=
  if ch = cr then ⟨p.goto .headerAlmostDone, [.data .headerValue], .next⟩
  else if ch = lf then
    ((p.goto .headerAlmostDone).headerAlmostDone ch).after [.dataNoadvance .headerValue]
  else if !p.lenientHttpHeaders ∧ !isHeaderChar ch then p.error .invalidHeaderToken
  else match p.matchValue ch with
  | none => p.error .invalidContentLength
  | some q => ⟨q, [], .next⟩

/-- A byte of a body of which the length is known. -/
def byteBody (p : Parser) (done : Parser → Step) : Step :=
  let q := { p with contentLength := p.contentLength - 1 }
  (if q.contentLength = 0 then done q else ⟨q, [], .next⟩).after [.mark .body]

/-- A byte that has been counted. -/
def byteStep (p : Parser) (ch : UInt8) : Step :=
  match p.state with
  | .headerField => p.byteHeaderField ch
  | .headerValue => p.byteHeaderValue ch
  | .bodyIdentity =>
    p.byteBody fun p ↦ ((p.goto .messageDone).messageDone).after [.dataThrough .body]
  | .chunkData => p.byteBody fun p ↦ ⟨p.goto .chunkDataAlmostDone, [], .next⟩
  | .bodyIdentityEof => ⟨p, [.mark .body], .next⟩
  | _ => p.step ch

/-- A byte. -/
def byte (p : Parser) (ch : UInt8) : Step :=
  let p := p.countByte
  if p.httpErrno ≠ .ok then ⟨p, [], .error⟩ else p.byteStep ch

/-- The mark that is set behind an operation, of which there is at most one; `none` if the operation
does not go with the mark before. -/
def Op.opens : Option Kind → Op → Option (Option Kind)
  | none, .mark kind => some (some kind)
  | some open', .mark kind => if open' = kind then some (some kind) else none
  | none, .data kind | none, .dataNoadvance kind => if kind = .body then some none else none
  | some open', .data kind | some open', .dataNoadvance kind
  | some open', .dataThrough kind => if open' = kind then some none else none
  | none, .notify _ | none, .notifyNoadvance _ => some none
  | _, _ => none

/-- The mark that is set behind a step. -/
def Step.opens (s : Step) (mark : Option Kind) : Option (Option Kind) := s.ops.foldlM Op.opens mark

section Report

variable (add : List Call → Call → List Call)

/-- The report of an operation: a piece begins where a mark is set. -/
def Op.report (p : Parser) (ch : UInt8) (mark : Option Kind) (tr : List Call) : Op → List Call
  | .mark kind => if mark = none then add tr (.data (p.tag kind) []) else tr
  | .data _ | .dataNoadvance _ => tr
  | .dataThrough _ => extend tr [ch]
  | .notify note | .notifyNoadvance note => add tr (.notify note)

def reports (p : Parser) (ch : UInt8) : List Op → Option Kind → List Call → List Call
  | [], _, tr => tr
  | op :: ops, mark, tr => reports p ch ops (op.opens mark).join (op.report add p ch mark tr)

/-- The report behind a step. The byte is data if a mark is set behind the step. -/
def Step.report (s : Step) (mark : Option Kind) (ch : UInt8) (tr : List Call) : List Call :=
  let tr := reports add s.parser ch s.ops mark tr
  if (s.opens mark).join = none then tr else extend tr [ch]

/-- What becomes of some bytes. -/
inductive Fed
  | running (p : Parser) (mark : Option Kind) (tr : List Call)
  /-- What is left belongs to another protocol. -/
  | exited (p : Parser) (tr : List Call) (rest : List UInt8)
  | failed
  deriving DecidableEq

/-- The bytes, one after the other. -/
def feed (p : Parser) (mark : Option Kind) (tr : List Call) : List UInt8 → Fed
  | [] => .running p mark tr
  | ch :: rest =>
    let s := p.byte ch
    match s.out with
    | .next => feed s.parser (s.opens mark).join (s.report add mark ch tr) rest
    | .exit => .exited s.parser (s.report add mark ch tr) rest
    | .error => .failed

/-- What becomes of the bytes behind a step. -/
def Step.fed (s : Step) (mark : Option Kind) (tr : List Call) (ch : UInt8) (rest : List UInt8) :
    Fed :=
  match s.out with
  | .next => s.parser.feed add (s.opens mark).join (s.report add mark ch tr) rest
  | .exit => .exited s.parser (s.report add mark ch tr) rest
  | .error => .failed

/-- More bytes. -/
def Fed.more (data : List UInt8) : Fed → Fed
  | .running p mark tr => p.feed add mark tr data
  | .exited p tr rest => .exited p tr (rest ++ data)
  | .failed => .failed

variable {add} {p : Parser} {mark : Option Kind} {tr : List Call}

theorem feed_cons {ch : UInt8} {rest : List UInt8} :
    p.feed add mark tr (ch :: rest) = (p.byte ch).fed add mark tr ch rest := rfl

theorem feed_append (data data' : List UInt8) :
    p.feed add mark tr (data ++ data') = (p.feed add mark tr data).more add data' := by
  induction data generalizing p mark tr with
  | nil => rfl
  | cons ch rest ih =>
    rw [List.cons_append, feed, feed]
    cases (p.byte ch).out with
    | next => exact ih
    | exit => rfl
    | error => rfl

end Report

/-! ## What a state leaves -/

/-- The states in which a number of bytes is left to be seen. -/
def State.sized : State → Bool
  | .bodyIdentity | .chunkData => true
  | _ => false

/-- Such a number is not zero. -/
def Sized (p : Parser) : Prop := p.state.sized = true → p.contentLength ≠ 0

/-- How a step ends that is no error: it says why it leaves the bytes behind it to somebody else. -/
def Step.Left (s : Step) : Prop :=
  s.out = .next ∨ (s.out = .exit ∧ s.parser.upgrade = true ∧ s.parser.state.mark = none)

/-- The step is an error, or it is none: then it leaves the mark that the next state begins with,
and no error, and no byte of a head is counted by it. -/
def Step.Tidy (s : Step) (mark : Option Kind) (errno : Errno) (nread : ℕ) : Prop :=
  (s.out = .error ∧ s.parser.httpErrno ≠ .ok)
    ∨ (s.Left ∧ s.opens mark = some s.parser.state.mark ∧ s.parser.httpErrno = errno
      ∧ s.parser.nread ≤ nread ∧ s.parser.Sized)

section Tidy

variable {s s' : Step} {mark mark' : Option Kind} {p : Parser} {errno : Errno} {nread : ℕ}

theorem tidy_error {e : Errno} (h : e ≠ .ok) : (p.error e).Tidy mark errno nread := .inl ⟨rfl, h⟩

theorem sized_of_state (h : p.state.sized = false) : p.Sized :=
  fun htrue ↦ absurd (h.symm.trans htrue) Bool.false_ne_true

theorem tidy_next (h : p.state.mark = mark) (hsized : p.state.sized = false) :
    Step.Tidy ⟨p, [], .next⟩ mark p.httpErrno p.nread :=
  .inr ⟨.inl rfl, congrArg some h.symm, rfl, Nat.le_refl _, sized_of_state hsized⟩

theorem tidy_stay {state : State} (h : p.state = state) (hsized : state.sized = false) :
    Step.Tidy ⟨p, [], .next⟩ state.mark p.httpErrno p.nread :=
  tidy_next (congrArg State.mark h) ((congrArg State.sized h).trans hsized)

theorem tidy_of_opens {ops : List Op} (h : Step.opens ⟨p, ops, .next⟩ mark = some p.state.mark)
    (hsized : p.state.sized = false) (hnread : p.nread ≤ nread) :
    Step.Tidy ⟨p, ops, .next⟩ mark p.httpErrno nread :=
  .inr ⟨.inl rfl, h, rfl, hnread, sized_of_state hsized⟩

theorem Step.Tidy.after {ops : List Op} (h : s.Tidy mark' errno nread)
    (hops : ops.foldlM Op.opens mark = some mark') : (s.after ops).Tidy mark errno nread := by
  refine h.imp_right fun ⟨hout, hopens, hrest⟩ ↦ ⟨hout, ?_, hrest⟩
  rw [Step.opens, Step.after, List.foldlM_append, hops]
  exact hopens

theorem Step.Tidy.ite {c : Prop} [Decidable c] (h : s.Tidy mark errno nread)
    (h' : s'.Tidy mark errno nread) : (if c then s else s').Tidy mark errno nread := by
  split_ifs
  · exact h
  · exact h'

theorem Step.Tidy.strictCheck {failed : Bool} (h : s.Tidy mark errno nread) :
    (p.strictCheck failed s).Tidy mark errno nread :=
  (tidy_error (by decide)).ite h

end Tidy

variable {p : Parser} {ch : UInt8}

theorem newMessage_spec : p.newMessage.mark = none ∧ p.newMessage.sized = false := by
  rw [newMessage, startState]
  split_ifs <;> exact ⟨rfl, rfl⟩

theorem tidy_messageDone : p.messageDone.Tidy none p.httpErrno p.nread := by
  have hleft : p.messageDone.Left := by
    cases hupgrade : p.upgrade with
    | false => exact .inl (by simp [messageDone, hupgrade])
    | true => exact .inr ⟨by simp [messageDone, hupgrade], hupgrade, newMessage_spec.1⟩
  refine .inr ⟨hleft, ?_, rfl, Nat.le_refl _, sized_of_state newMessage_spec.2⟩
  rw [messageDone, goto, newMessage_spec.1]
  rfl

theorem tidy_headersDone : (p.headersDone ch).Tidy none p.httpErrno p.nread := by
  have hcomplete : ∀ out, out = .next ∨ (out = .exit ∧ p.upgrade = true) → Step.Tidy
      ⟨{ p with nread := 0 : Parser }.goto { p with nread := 0 : Parser }.newMessage,
        [.notify .messageComplete], out⟩ none p.httpErrno p.nread := by
    intro out hout
    refine .inr ⟨hout.imp_right fun ⟨hexit, hupgrade⟩ ↦ ⟨hexit, hupgrade, newMessage_spec.1⟩, ?_,
      rfl, Nat.zero_le _, sized_of_state newMessage_spec.2⟩
    rw [goto, newMessage_spec.1]
    rfl
  have hgoto : ∀ state : State, state.mark = none →
      (state.sized = true → p.contentLength ≠ 0) →
      Step.Tidy ⟨{ p with nread := 0 : Parser }.goto state, [], .next⟩ none p.httpErrno p.nread :=
    fun state hmark hsized ↦
      .inr ⟨.inl rfl, congrArg some hmark.symm, rfl, Nat.zero_le _, hsized⟩
  rw [headersDone]
  refine Step.Tidy.strictCheck ?_
  dsimp only
  split_ifs with hupgrade _ _ hzero
  · exact hcomplete _ (.inr ⟨rfl, hupgrade.1⟩)
  · exact hcomplete _ (.inl rfl)
  · exact hgoto _ rfl fun h ↦ absurd h Bool.false_ne_true
  · exact hcomplete _ (.inl rfl)
  · exact hgoto _ rfl fun _ ↦ hzero
  · exact hcomplete _ (.inl rfl)
  · exact hgoto _ rfl fun h ↦ absurd h Bool.false_ne_true

theorem tidy_headersAlmostDone : (p.headersAlmostDone ch).Tidy none p.httpErrno p.nread := by
  rw [headersAlmostDone]
  refine Step.Tidy.strictCheck (Step.Tidy.ite ?_ ((tidy_error (by decide)).ite ?_))
  · exact tidy_messageDone.after rfl
  · exact tidy_headersDone.after rfl

theorem tidy_headerFieldStart : (p.headerFieldStart ch).Tidy none p.httpErrno p.nread := by
  rw [headerFieldStart]
  refine (tidy_next rfl rfl).ite (Step.Tidy.ite tidy_headersAlmostDone
    ((tidy_error (by decide)).ite ?_))
  exact tidy_of_opens rfl rfl (Nat.le_refl _)

theorem tidy_headerValueStart : (p.headerValueStart ch).Tidy none p.httpErrno p.nread := by
  have hgo : ∀ q : Parser, q.state = .headerValue → q.httpErrno = p.httpErrno →
      q.nread = p.nread → Step.Tidy ⟨q, [.mark .headerValue], .next⟩ none p.httpErrno p.nread := by
    intro q hq herrno hnread
    refine .inr ⟨.inl rfl, ?_, herrno, hnread.le, sized_of_state ?_⟩
    · rw [hq]
      rfl
    · rw [hq]
      rfl
  rw [headerValueStart]
  cases p.headerState
  case contentLength =>
    exact Step.Tidy.ite ((tidy_error (by decide)).after rfl)
      (Step.Tidy.ite ((tidy_error (by decide)).after rfl) (hgo _ rfl rfl rfl))
  all_goals exact hgo _ rfl rfl rfl

theorem tidy_headerValueLws : (p.headerValueLws ch).Tidy none p.httpErrno p.nread := by
  rw [headerValueLws]
  exact Step.Tidy.ite tidy_headerValueStart tidy_headerFieldStart

theorem tidy_headerAlmostDone : (p.headerAlmostDone ch).Tidy none p.httpErrno p.nread :=
  (tidy_error (by decide)).ite (tidy_next rfl rfl)

/-- The URL is at an end, or goes on. -/
def InUrl (s : State) : Prop := s = .dead ∨ (s.mark = some .url ∧ s.sized = false)

theorem inUrl_ite {c : Prop} [Decidable c] {s s' : State} (h : InUrl s) (h' : InUrl s') :
    InUrl (if c then s else s') := by
  split_ifs
  · exact h
  · exact h'

theorem inUrl_parseUrlChar (s : State) (ch : UInt8) : InUrl (parseUrlChar s ch) := by
  have hdead : InUrl .dead := .inl rfl
  have hon : ∀ {s : State}, s.mark = some .url → s.sized = false → InUrl s :=
    fun h h' ↦ .inr ⟨h, h'⟩
  unfold parseUrlChar
  refine inUrl_ite hdead (inUrl_ite hdead ?_)
  cases s
  case reqSpacesBeforeUrl | reqSchema | reqQueryStringStart | reqQueryString | reqFragmentStart =>
    exact inUrl_ite (hon rfl rfl) (inUrl_ite (hon rfl rfl) hdead)
  case reqSchemaSlash | reqSchemaSlashSlash | reqFragment => exact inUrl_ite (hon rfl rfl) hdead
  case reqServerStart | reqServer | reqServerWithAt =>
    exact inUrl_ite hdead (inUrl_ite (hon rfl rfl) (inUrl_ite (hon rfl rfl)
      (inUrl_ite (hon rfl rfl) (inUrl_ite (hon rfl rfl) hdead))))
  case reqPath =>
    exact inUrl_ite (hon rfl rfl) (inUrl_ite (hon rfl rfl) (inUrl_ite (hon rfl rfl) hdead))
  all_goals exact hdead

theorem tidy_urlChar : (p.urlChar ch).Tidy (some .url) p.httpErrno p.nread := by
  rw [urlChar]
  split_ifs with hdead
  · exact tidy_error (by decide)
  · obtain ⟨hmark, hsized⟩ := (inUrl_parseUrlChar p.state ch).resolve_left hdead
    exact tidy_next hmark hsized

theorem tidy_startReq (h : p.state = .startReq) :
    (p.startReq ch).Tidy none p.httpErrno p.nread := by
  rw [startReq]
  refine (tidy_stay h rfl).ite ((tidy_error (by decide)).ite ?_)
  cases firstMethod ch with
  | none => exact tidy_error (by decide)
  | some m => exact tidy_of_opens rfl rfl (Nat.le_refl _)

theorem tidy_reqMethod (h : p.state = .reqMethod) :
    (p.reqMethod ch).Tidy none p.httpErrno p.nread := by
  have hnext : ∀ m : Method, Step.Tidy ⟨{ p with method := m, index := p.index + 1 }, [], .next⟩
      none p.httpErrno p.nread :=
    fun m ↦ tidy_next (congrArg State.mark h) (congrArg State.sized h)
  rw [reqMethod]
  refine (tidy_error (by decide)).ite ((tidy_next rfl rfl).ite ((hnext p.method).ite
    (.ite ?_ (tidy_error (by decide)))))
  cases p.method.switch p.index ch with
  | none => exact tidy_error (by decide)
  | some m => exact hnext m

theorem tidy_reqUrl : (p.reqUrl ch).Tidy (some .url) p.httpErrno p.nread := by
  rw [reqUrl]
  refine Step.Tidy.ite (tidy_of_opens rfl rfl (Nat.le_refl _))
    (Step.Tidy.ite ?_ tidy_urlChar)
  split_ifs
  · exact tidy_of_opens rfl rfl (Nat.le_refl _)
  · exact tidy_of_opens rfl rfl (Nat.le_refl _)

theorem tidy_resStatus (h : p.state = .resStatus) :
    (p.resStatus ch).Tidy (some .status) p.httpErrno p.nread := by
  rw [resStatus]
  exact Step.Tidy.ite (tidy_of_opens rfl rfl (Nat.le_refl _))
    (Step.Tidy.ite (tidy_of_opens rfl rfl (Nat.le_refl _)) (tidy_stay h rfl))

theorem tidy_resStatusStart : (p.resStatusStart ch).Tidy none p.httpErrno p.nread := by
  rw [resStatusStart]
  exact Step.Tidy.ite ((tidy_resStatus rfl).after rfl)
    (tidy_of_opens rfl rfl (Nat.le_refl _))

theorem tidy_resStatusCode (h : p.state = .resStatusCode) :
    (p.resStatusCode ch).Tidy none p.httpErrno p.nread := by
  have hmore : ∀ code : ℕ,
      Step.Tidy ⟨{ p with statusCode := code }, [], .next⟩ none p.httpErrno p.nread :=
    fun code ↦ tidy_next (congrArg State.mark h) (congrArg State.sized h)
  rw [resStatusCode]
  exact Step.Tidy.ite
    ((tidy_next rfl rfl).ite (Step.Tidy.ite tidy_resStatusStart (tidy_error (by decide))))
    ((tidy_error (by decide)).ite (hmore _))

theorem tidy_chunkSize (h : p.state = .chunkSize) :
    (p.chunkSize ch).Tidy none p.httpErrno p.nread := by
  have hmore : ∀ n : UInt64,
      Step.Tidy ⟨{ p with contentLength := n }, [], .next⟩ none p.httpErrno p.nread :=
    fun n ↦ tidy_next (congrArg State.mark h) (congrArg State.sized h)
  rw [chunkSize]
  refine (tidy_next rfl rfl).ite ?_
  cases unhex ch with
  | none => exact (tidy_next rfl rfl).ite (tidy_error (by decide))
  | some digit => exact (tidy_error (by decide)).ite (hmore _)

theorem tidy_chunkSizeAlmostDone : (p.chunkSizeAlmostDone ch).Tidy none p.httpErrno p.nread := by
  rw [chunkSizeAlmostDone]
  refine Step.Tidy.strictCheck ?_
  dsimp only
  split_ifs with hzero
  · exact tidy_of_opens rfl rfl (Nat.zero_le _)
  · exact .inr ⟨.inl rfl, rfl, rfl, Nat.zero_le _, fun _ ↦ hzero⟩

/-- **Every state keeps to that.** The states that have loops are not meant here. -/
theorem step_tidy (hloop : p.state.sized = false) :
    (p.step ch).Tidy p.state.mark p.httpErrno p.nread := by
  rw [step]
  cases hstate : p.state
  case dead => exact (tidy_stay hstate rfl).ite (tidy_error (by decide))
  case startReqOrRes =>
    exact (tidy_stay hstate rfl).ite
      (Step.Tidy.ite (tidy_of_opens rfl rfl (Nat.le_refl _)) (tidy_startReq rfl))
  case resOrRespH =>
    exact (tidy_next rfl rfl).ite ((tidy_error (by decide)).ite (tidy_next rfl rfl))
  case startRes =>
    exact (tidy_stay hstate rfl).ite
      (Step.Tidy.ite (tidy_of_opens rfl rfl (Nat.le_refl _))
        (tidy_error (by decide)))
  case resH | resHT | resHTT | resHTTP | reqHttpH | reqHttpHT | reqHttpHTT | reqHttpI | reqHttpIC
      | reqHttpHTTP | resLineAlmostDone | headerValueDiscardWsAlmostDone =>
    exact (tidy_next rfl rfl).strictCheck
  case resHttpMajor | resHttpDot | resHttpMinor | resHttpEnd | reqHttpMajor | reqHttpDot
      | reqHttpMinor | reqLineAlmostDone =>
    exact (tidy_error (by decide)).ite (tidy_next rfl rfl)
  case resFirstStatusCode =>
    exact Step.Tidy.ite ((tidy_stay hstate rfl).ite (tidy_error (by decide))) (tidy_next rfl rfl)
  case resStatusCode => exact tidy_resStatusCode hstate
  case resStatusStart => exact tidy_resStatusStart
  case resStatus => exact tidy_resStatus hstate
  case startReq => exact tidy_startReq hstate
  case reqMethod => exact tidy_reqMethod hstate
  case reqSpacesBeforeUrl =>
    refine (tidy_stay hstate rfl).ite ?_
    split_ifs
    · exact tidy_urlChar.after rfl
    · exact tidy_urlChar.after rfl
  case reqSchema | reqSchemaSlash | reqSchemaSlashSlash | reqServerStart =>
    exact (tidy_error (by decide)).ite tidy_urlChar
  case reqServer | reqServerWithAt | reqPath | reqQueryStringStart | reqQueryString
      | reqFragmentStart | reqFragment =>
    exact tidy_reqUrl
  case reqHttpStart =>
    exact (tidy_stay hstate rfl).ite
      ((tidy_next rfl rfl).ite ((tidy_next rfl rfl).ite (tidy_error (by decide))))
  case reqHttpEnd =>
    exact (tidy_next rfl rfl).ite ((tidy_next rfl rfl).ite (tidy_error (by decide)))
  case headerFieldStart => exact tidy_headerFieldStart
  case headerValueDiscardWs =>
    exact (tidy_stay hstate rfl).ite
      ((tidy_next rfl rfl).ite ((tidy_next rfl rfl).ite tidy_headerValueStart))
  case headerValueDiscardLws =>
    exact (tidy_next rfl rfl).ite
      ((tidy_error (by decide)).ite (tidy_headerFieldStart.after rfl))
  case headerValueStart => exact tidy_headerValueStart
  case headerValueLws => exact tidy_headerValueLws
  case headerAlmostDone => exact tidy_headerAlmostDone
  case headersAlmostDone => exact tidy_headersAlmostDone
  case headersDone => exact tidy_headersDone
  case chunkSizeStart =>
    dsimp only
    cases unhex ch with
    | none => exact tidy_error (by decide)
    | some digit => exact tidy_next rfl rfl
  case chunkSize => exact tidy_chunkSize hstate
  case chunkParameters =>
    have hstay : Step.Tidy ⟨p, [], .next⟩ none p.httpErrno p.nread := tidy_stay hstate rfl
    exact (tidy_next rfl rfl).ite hstay
  case chunkSizeAlmostDone => exact tidy_chunkSizeAlmostDone
  case chunkDataAlmostDone =>
    exact (tidy_of_opens rfl rfl (Nat.le_refl _)).strictCheck
  case chunkDataDone => exact (tidy_of_opens rfl rfl (Nat.zero_le _)).strictCheck
  case messageDone => exact tidy_messageDone
  case headerField | headerValue | bodyIdentityEof => exact tidy_stay hstate rfl
  case bodyIdentity | chunkData =>
    rw [hstate] at hloop
    exact absurd hloop Bool.noConfusion

end Knet.Http.Parser
