import Knet.Http.Parser.Loops

/-!
# What `http_parser_execute` is

`http_parser_execute` does what the machine of the bytes does: it makes the calls that amount to its
report, and stops where it stops (`execute_settles`).

In between, the bytes behind a mark have not been reported by the code. What the calls so far and
the mark amount to is the report (`Tells`).
-/

namespace Knet.Http.Parser

open Pieces

/-! ## What the calls and the mark amount to -/

/-- The report is the calls so far, and the bytes from the mark on. -/
def Tells (add : List Call → Call → List Call) (data : List UInt8) (tr₀ : List Call) (x : Exec) :
    Option Kind → List Call → Prop
  | none, tr => x.marks = (fun _ ↦ none) ∧ (x.calls.map Prod.snd).foldl add tr₀ = tr
  | some kind, tr => ∃ m ≤ x.pos, x.marks = Function.update (fun _ ↦ none) kind (some m)
    ∧ add ((x.calls.map Prod.snd).foldl add tr₀)
      (.data (x.parser.tag kind) ((data.take x.pos).drop m)) = tr

theorem drop_take_add {data : List UInt8} {m pos n : ℕ} (hm : m ≤ pos) (hpos : pos ≤ data.length) :
    (data.take (pos + n)).drop m = (data.take pos).drop m ++ (data.drop pos).take n := by
  rw [List.take_add, List.drop_append_of_le_length (by rw [List.length_take]; omega)]

section Tells

variable {add : List Call → Call → List Call} {data : List UInt8} {tr₀ tr : List Call} {x : Exec}
  {mark mark' : Option Kind} {kind : Kind}

theorem Tells.marks_none (h : Tells add data tr₀ x none tr) : x.marks kind = none := by
  rw [h.1]

theorem Tells.parser {q : Parser} (h : Tells add data tr₀ x mark tr)
    (hq : ∀ kind, mark = some kind → q.tag kind = x.parser.tag kind) :
    Tells add data tr₀ { x with parser := q } mark tr := by
  cases mark with
  | none => exact h
  | some kind =>
    obtain ⟨m, hm, hmarks, htr⟩ := h
    refine ⟨m, hm, hmarks, ?_⟩
    rw [← htr, ← hq kind rfl]

theorem Tells.set (h : Tells add data tr₀ x none tr) :
    Tells add data tr₀ (x.mark kind) (some kind) (add tr (.data (x.parser.tag kind) [])) := by
  have hmark : x.mark kind
      = { x with marks := Function.update x.marks kind (some x.pos) } := by
    rw [Exec.mark, h.marks_none]
  have hnil : (data.take x.pos).drop x.pos = [] :=
    List.drop_eq_nil_of_le (List.length_take_le _ _)
  rw [hmark]
  refine ⟨x.pos, Nat.le_refl _, ?_, ?_⟩
  · rw [h.1]
  · dsimp only
    rw [hnil, h.2]

theorem Tells.set_again (h : Tells add data tr₀ x (some kind) tr) : x.mark kind = x := by
  obtain ⟨m, -, hmarks, -⟩ := h
  rw [Exec.mark, hmarks, Function.update_self]

theorem callbackData_frame {upTo er : ℕ} :
    (x.callbackData data kind upTo er).pos = x.pos
      ∧ (x.callbackData data kind upTo er).parser = x.parser := by
  rw [Exec.callbackData]
  split <;> exact ⟨rfl, rfl⟩

theorem op_frame (data : List UInt8) (x : Exec) (op : Op) :
    (x.op data op).pos = x.pos ∧ (x.op data op).parser = x.parser := by
  cases op with
  | mark kind =>
    rw [Exec.op, Exec.mark]
    split <;> exact ⟨rfl, rfl⟩
  | data kind | dataNoadvance kind | dataThrough kind => exact callbackData_frame
  | notify note | notifyNoadvance note => exact ⟨rfl, rfl⟩

theorem ops_frame (data : List UInt8) (x : Exec) (ops : List Op) :
    (ops.foldl (Exec.op data) x).pos = x.pos ∧ (ops.foldl (Exec.op data) x).parser = x.parser := by
  induction ops generalizing x with
  | nil => exact ⟨rfl, rfl⟩
  | cons op ops ih =>
    obtain ⟨hpos, hparser⟩ := op_frame data x op
    exact ⟨(ih _).1.trans hpos, (ih _).2.trans hparser⟩

theorem Tells.no_call {upTo er : ℕ} (h : Tells add data tr₀ x none tr) :
    x.callbackData data kind upTo er = x := by
  rw [Exec.callbackData, h.marks_none]

variable (hadd : Adds add)

include hadd

theorem Tells.endsIn (h : Tells add data tr₀ x (some kind) tr) : EndsIn (x.parser.tag kind) tr := by
  obtain ⟨m, -, -, rfl⟩ := h
  exact hadd.endsIn

theorem Tells.advance {n : ℕ} (h : Tells add data tr₀ x (some kind) tr)
    (hpos : x.pos ≤ data.length) :
    Tells add data tr₀ { x with pos := x.pos + n } (some kind)
      (extend tr ((data.drop x.pos).take n)) := by
  obtain ⟨m, hm, hmarks, rfl⟩ := h
  refine ⟨m, Nat.le_add_right_of_le hm, hmarks, ?_⟩
  rw [hadd.extend_data, ← drop_take_add hm hpos]

/-- The call for a mark, with the bytes up to here or with the present one too. -/
theorem Tells.callbackData {er n : ℕ} (h : Tells add data tr₀ x (some kind) tr)
    (hpos : x.pos ≤ data.length) :
    Tells add data tr₀ (x.callbackData data kind (x.pos + n) er) none
      (extend tr ((data.drop x.pos).take n)) := by
  obtain ⟨m, hm, hmarks, rfl⟩ := h
  have hmark : x.marks kind = some m := by rw [hmarks, Function.update_self]
  rw [Exec.callbackData, hmark]
  refine ⟨?_, ?_⟩
  · dsimp only
    rw [hmarks, Function.update_idem, Function.update_eq_self]
  · rw [List.map_append, List.map_singleton, List.foldl_append, List.foldl_cons, List.foldl_nil,
      hadd.extend_data, ← drop_take_add hm hpos]

theorem Tells.call {er : ℕ} (h : Tells add data tr₀ x (some kind) tr) (hpos : x.pos ≤ data.length) :
    Tells add data tr₀ (x.callbackData data kind x.pos er) none tr := by
  have hnone : Tells add data tr₀ (x.callbackData data kind (x.pos + 0) er) none
      (extend tr ((data.drop x.pos).take 0)) := h.callbackData hadd hpos
  rwa [List.take_zero, extend_nil] at hnone

omit hadd in
theorem Tells.callbackNotify {note : Note} {er : ℕ} (h : Tells add data tr₀ x none tr) :
    Tells add data tr₀ (x.callbackNotify note er) none (add tr (.notify note)) := by
  refine ⟨h.1, ?_⟩
  rw [Exec.callbackNotify, List.map_append, List.map_singleton, List.foldl_append, h.2]
  rfl

/-- **An operation adds to the calls and the mark what it adds to the report.** -/
theorem Tells.op {ch : UInt8} {op : Op} (h : Tells add data tr₀ x mark tr)
    (hch : data[x.pos]? = some ch) (hop : op.opens mark = some mark') :
    Tells add data tr₀ (x.op data op) mark' (op.report add x.parser ch mark tr) := by
  have hpos : x.pos < data.length := (List.getElem?_eq_some_iff.mp hch).1
  have hone : (data.drop x.pos).take 1 = [ch] := by
    rw [List.take_one, List.head?_drop, hch]
    rfl
  cases mark with
  | none =>
    cases op with
    | mark kind =>
      obtain rfl := Option.some.inj hop
      exact h.set
    | data kind | dataNoadvance kind =>
      rw [Op.opens] at hop
      split_ifs at hop
      obtain rfl := Option.some.inj hop
      rw [Exec.op, h.no_call]
      exact h
    | dataThrough kind => exact absurd hop (Option.some_ne_none _).symm
    | notify note | notifyNoadvance note =>
      obtain rfl := Option.some.inj hop
      exact h.callbackNotify
  | some open' =>
    cases op with
    | mark kind =>
      rw [Op.opens] at hop
      split_ifs at hop with hkind
      obtain rfl := Option.some.inj hop
      subst hkind
      rw [Exec.op, Op.report, if_neg (Option.some_ne_none _), h.set_again]
      exact h
    | data kind | dataNoadvance kind =>
      rw [Op.opens] at hop
      split_ifs at hop with hkind
      obtain rfl := Option.some.inj hop
      subst hkind
      exact h.call hadd hpos.le
    | dataThrough kind =>
      rw [Op.opens] at hop
      split_ifs at hop with hkind
      obtain rfl := Option.some.inj hop
      subst hkind
      have hthrough : Tells add data tr₀ (x.callbackData data open' (x.pos + 1) x.pos) none
          (extend tr ((data.drop x.pos).take 1)) := h.callbackData hadd hpos.le
      rwa [hone] at hthrough
    | notify note | notifyNoadvance note => exact absurd hop (Option.some_ne_none _).symm

theorem Tells.ops {ch : UInt8} {ops : List Op} (h : Tells add data tr₀ x mark tr)
    (hch : data[x.pos]? = some ch) (hops : ops.foldlM Op.opens mark = some mark') :
    Tells add data tr₀ (ops.foldl (Exec.op data) x) mark'
      (reports add x.parser ch ops mark tr) := by
  induction ops generalizing x mark tr with
  | nil =>
    obtain rfl := Option.some.inj hops
    exact h
  | cons op ops ih =>
    rw [List.foldlM_cons] at hops
    obtain ⟨mark₁, hop, hrest⟩ := Option.bind_eq_some_iff.mp hops
    obtain ⟨hpos, hparser⟩ := op_frame data x op
    have hnext := ih (h.op hadd hch hop) (hpos ▸ hch) hrest
    rw [hparser] at hnext
    rw [reports, hop]
    exact hnext

end Tells

/-! ## Between two bytes -/

/-- A parser that has not got stuck. -/
structure Sound (p : Parser) : Prop where
  errno : p.httpErrno = .ok
  nread : p.nread ≤ maxHeaderSize
  sized : p.Sized

/-- The states of a body, and the one in which the call for it is made. -/
def State.inBody : State → Bool
  | .bodyIdentity | .bodyIdentityEof | .chunkData | .chunkDataAlmostDone => true
  | _ => false

/-- The mark that is set before a byte: the one that the state begins with, or that of a body. -/
def Open (p : Parser) (mark : Option Kind) : Prop :=
  mark = p.state.mark ∨ (mark = some .body ∧ p.state.inBody = true)

/-- A report that the parser can go on with: what comes first is the piece that is not at an end. -/
structure Ready (p : Parser) (mark : Option Kind) (tr : List Call) : Prop where
  sound : p.Sound
  open' : Open p mark
  endsIn : ∀ kind, mark = some kind → EndsIn (p.tag kind) tr

/-- Before a byte the code and the machine are at one. -/
structure Meets (add : List Call → Call → List Call) (data : List UInt8) (tr₀ : List Call)
    (x : Exec) (mark : Option Kind) (tr : List Call) : Prop where
  sound : x.parser.Sound
  pos_le : x.pos ≤ data.length
  tells : Tells add data tr₀ x mark tr
  open' : Open x.parser mark

/-- The code returns what the machine ends with. -/
def Settles (add : List Call → Call → List Call) (data : List UInt8) (tr₀ : List Call)
    (r : Result) : Fed → Prop
  | .running p mark tr => r.parser = p ∧ r.parsed = data.length
    ∧ (r.calls.map Prod.snd).foldl add tr₀ = tr ∧ p.Ready mark tr
  | .exited p tr rest => r.parser = p ∧ r.parsed + rest.length = data.length
    ∧ (r.calls.map Prod.snd).foldl add tr₀ = tr ∧ p.httpErrno = .ok ∧ p.upgrade = true
  | .failed => r.parser.httpErrno ≠ .ok

/-- The code goes on where the machine goes on, or returns what it ends with. -/
def Follows (add : List Call → Call → List Call) (data : List UInt8) (tr₀ : List Call) (pos : ℕ)
    (fed : Fed) : Exec × Option ℕ → Prop
  | (x, none) => pos < x.pos
    ∧ ∃ mark tr, Meets add data tr₀ x mark tr ∧ fed = x.parser.feed add mark tr (data.drop x.pos)
  | (x, some n) => Settles add data tr₀ ⟨x.parser, x.calls, n⟩ fed

theorem inBody_mark {state : State} (h : state.inBody = true) : state.mark = none := by
  cases state
  case bodyIdentity | bodyIdentityEof | chunkData | chunkDataAlmostDone => rfl
  all_goals exact absurd h Bool.false_ne_true

section Rounds

variable {add : List Call → Call → List Call} {data : List UInt8} {tr₀ tr : List Call} {x : Exec}
  {mark mark' : Option Kind} {ch : UInt8} {p : Parser}

theorem Follows.mono {pos pos' : ℕ} {fed : Fed} {r : Exec × Option ℕ} (hle : pos ≤ pos')
    (h : Follows add data tr₀ pos' fed r) : Follows add data tr₀ pos fed r := by
  obtain ⟨y, out⟩ := r
  cases out with
  | none => exact h.imp_left hle.trans_lt
  | some n => exact h

theorem Open.eq_some {kind : Kind} (h : Open p mark) (hkind : p.state.mark = some kind) :
    mark = some kind := by
  rcases h with rfl | ⟨-, hbody⟩
  · exact hkind
  · exact absurd (hkind.symm.trans (inBody_mark hbody)) (Option.some_ne_none _)

theorem Meets.ready (hadd : Adds add) (h : Meets add data tr₀ x mark tr) :
    x.parser.Ready mark tr := by
  refine ⟨h.sound, h.open', ?_⟩
  rintro kind rfl
  exact h.tells.endsIn hadd

/-- How a step ends that is no error, with the marks in order. -/
structure Step.Lands (s : Step) (mark mark' : Option Kind) : Prop where
  left : s.Left
  opens : s.opens mark = some mark'
  sound : s.parser.Sound
  open' : mark' = s.parser.state.mark
    ∨ (s.out = .next ∧ mark' = some .body ∧ s.parser.state.inBody = true)

/-- **What the code of a state leaves is what the step of the machine leaves.** -/
theorem finish_follows {s : Step} (hadd : Adds add) (htells : Tells add data tr₀ x mark tr)
    (hch : data[x.pos]? = some ch)
    (htag : ∀ kind, mark = some kind → s.parser.tag kind = x.parser.tag kind)
    (hs : (s.out = .error ∧ s.parser.httpErrno ≠ .ok) ∨ s.Lands mark mark') :
    Follows add data tr₀ x.pos (s.fed add mark tr ch (data.drop (x.pos + 1)))
      (x.finish data s) := by
  have hpos : x.pos < data.length := (List.getElem?_eq_some_iff.mp hch).1
  have hone : (data.drop x.pos).take 1 = [ch] := by
    rw [List.take_one, List.head?_drop, hch]
    rfl
  obtain ⟨hpos', hparser⟩ := ops_frame data { x with parser := s.parser } s.ops
  rw [Exec.finish, Step.fed]
  rcases hs with ⟨hout, herrno⟩ | ⟨hleft, hopens, hsound, hopen⟩
  · rw [hout]
    dsimp only [Follows, Settles]
    rwa [hparser]
  · have hops := (htells.parser htag).ops hadd hch hopens
    generalize s.ops.foldl (Exec.op data) { x with parser := s.parser } = y at hpos' hparser hops ⊢
    dsimp only at hpos' hparser hops
    rw [Step.report, hopens, Option.join_some]
    rcases hleft with hout | ⟨hout, hupgrade, hmark⟩
    · -- the byte is data if a mark is set
      have htells' : Tells add data tr₀ { y with pos := y.pos + 1 } mark'
          (if mark' = none then reports add s.parser ch s.ops mark tr
            else extend (reports add s.parser ch s.ops mark tr) [ch]) := by
        cases mark' with
        | none => exact hops
        | some kind =>
          have hnext := hops.advance hadd (n := 1) (hpos'.trans_le hpos.le)
          rwa [hpos', hone, ← hpos'] at hnext
      rw [hout]
      refine ⟨?_, mark', _, ⟨?_, ?_, htells', ?_⟩, ?_⟩
      · exact hpos' ▸ Nat.lt_succ_self _
      · rwa [hparser]
      · exact hpos' ▸ hpos
      · rw [hparser]
        exact hopen.imp_right And.right
      · dsimp only
        rw [hparser, hpos']
    · obtain rfl : mark' = none :=
        hopen.elim (·.trans hmark) fun h ↦ absurd (hout.symm.trans h.1) Out.noConfusion
      rw [hout]
      refine ⟨hparser, ?_, hops.2, hsound.errno, hupgrade⟩
      rw [List.length_drop, hpos']
      dsimp only
      omega

/-- The states that have loops. -/
def State.loops : State → Bool
  | .headerField | .headerValue | .bodyIdentity | .chunkData | .bodyIdentityEof => true
  | _ => false

theorem byteStep_of_loops (h : p.state.loops = false) : p.byteStep ch = p.step ch := by
  rw [byteStep]
  cases hstate : p.state
  case headerField | headerValue | bodyIdentity | chunkData | bodyIdentityEof =>
    rw [hstate] at h
    exact absurd h.symm Bool.false_ne_true
  all_goals rfl

theorem switch_of_loops (h : x.parser.state.loops = false) :
    x.switch data ch = x.finish data (x.parser.step ch) := by
  rw [Exec.switch]
  cases hstate : x.parser.state
  case headerField | headerValue | bodyIdentity | chunkData | bodyIdentityEof =>
    rw [hstate] at h
    exact absurd h.symm Bool.false_ne_true
  all_goals rfl

theorem sized_le_loops {state : State} (h : state.loops = false) : state.sized = false := by
  cases state
  case bodyIdentity | chunkData => exact absurd h.symm Bool.false_ne_true
  all_goals rfl

theorem tag_of_ne {kind : Kind} {q : Parser} (h : kind ≠ .status) : q.tag kind = p.tag kind := by
  rw [tag, tag, if_neg h, if_neg h]

theorem step_tag {kind : Kind} (h : p.state.mark = some kind) :
    (p.step ch).parser.tag kind = p.tag kind := by
  by_cases hkind : kind = .status
  · subst hkind
    have hstate : p.state = .resStatus := by
      revert h
      cases p.state
      case resStatus => exact fun _ ↦ rfl
      all_goals exact fun h ↦ absurd h (by decide)
    have hcode : (p.step ch).parser.statusCode = p.statusCode := by
      rw [step, hstate]
      dsimp only [resStatus]
      split_ifs <;> rfl
    rw [tag, tag, hcode]
  · exact tag_of_ne hkind

theorem countByte_frame : p.countByte = { p with
    nread := p.countByte.nread, httpErrno := p.countByte.httpErrno } := by
  rw [countByte]
  split_ifs <;> rfl

theorem Sound.countByte (h : p.Sound) (herrno : p.countByte.httpErrno = .ok) :
    p.countByte.Sound := by
  refine ⟨herrno, ?_, ?_⟩
  · revert herrno
    rw [Parser.countByte]
    split_ifs with hparsing
    · rw [countHeaderSize]
      intro herrno
      by_contra hlt
      have herrno : (if maxHeaderSize < (p.nread + 1) % 2 ^ 32 then Errno.headerOverflow
          else p.httpErrno) = .ok := herrno
      rw [if_pos (Nat.lt_of_not_le hlt)] at herrno
      exact absurd herrno (by decide)
    · exact fun _ ↦ h.nread
  · have hsized := h.sized
    rw [countByte_frame]
    exact hsized

theorem drop_eq_cons (hch : data[x.pos]? = some ch) :
    data.drop x.pos = ch :: data.drop (x.pos + 1) := by
  obtain ⟨hlt, rfl⟩ := List.getElem?_eq_some_iff.mp hch
  exact List.drop_eq_getElem_cons hlt

/-- A step that keeps the marks in order, behind a byte that has been counted. -/
theorem Step.Tidy.lands {s : Step} {errno : Errno} {nread : ℕ} (h : s.Tidy mark errno nread)
    (herrno : errno = .ok) (hnread : nread ≤ maxHeaderSize) :
    (s.out = .error ∧ s.parser.httpErrno ≠ .ok) ∨ s.Lands mark s.parser.state.mark :=
  h.imp_right fun ⟨hleft, hopens, hsame, hle, hsized⟩ ↦
    ⟨hleft, hopens, ⟨hsame.trans herrno, hle.trans hnread, hsized⟩, .inl rfl⟩

/-- Where the mark of a body may be set still, the call for it is made. -/
theorem lands_chunkDataAlmostDone (hsound : p.Sound) (h : p.state = .chunkDataAlmostDone)
    (hmark : mark = none ∨ mark = some .body) :
    ((p.step ch).out = .error ∧ (p.step ch).parser.httpErrno ≠ .ok)
      ∨ (p.step ch).Lands mark none := by
  rw [step, h]
  dsimp only [strictCheck]
  split_ifs
  · exact .inl ⟨rfl, Errno.noConfusion⟩
  · have hopens : Step.opens ⟨p.goto .chunkDataDone, [.data .body], .next⟩ mark = some none := by
      rcases hmark with rfl | rfl <;> rfl
    exact .inr ⟨.inl rfl, hopens, ⟨hsound.errno, hsound.nread, sized_of_state rfl⟩, .inl rfl⟩

theorem step_lands (ch : UInt8) (hsound : p.Sound) (hopen : Open p mark)
    (hloops : p.state.loops = false) :
    ((p.step ch).out = .error ∧ (p.step ch).parser.httpErrno ≠ .ok)
      ∨ ∃ mark', (p.step ch).Lands mark mark' := by
  rcases hopen with rfl | ⟨rfl, hbody⟩
  · have htidy : (p.step ch).Tidy p.state.mark p.httpErrno p.nread :=
      step_tidy (sized_le_loops hloops)
    exact (htidy.lands hsound.errno hsound.nread).imp_right fun h ↦ ⟨_, h⟩
  · have hstate : p.state = .chunkDataAlmostDone := by
      cases hstate : p.state
      case chunkDataAlmostDone => rfl
      all_goals
        rw [hstate] at hbody hloops
        first | exact absurd hbody Bool.false_ne_true | exact absurd hloops.symm Bool.false_ne_true
    exact (lands_chunkDataAlmostDone hsound hstate (.inr rfl)).imp_right fun h ↦ ⟨_, h⟩

theorem step_follows (hadd : Adds add) (h : Meets add data tr₀ x mark tr)
    (hch : data[x.pos]? = some ch) (hloops : x.parser.state.loops = false) :
    Follows add data tr₀ x.pos (x.parser.feed add mark tr (data.drop x.pos)) (x.round data ch) := by
  obtain ⟨hsound, hpos, htells, hopen⟩ := h
  rw [drop_eq_cons hch, feed_cons, byte, Exec.round]
  dsimp only
  by_cases herrno : x.parser.countByte.httpErrno ≠ .ok
  · rw [if_pos herrno, if_pos herrno]
    exact herrno
  have hstate : x.parser.countByte.state = x.parser.state := by rw [countByte_frame]
  have htag : ∀ kind, mark = some kind → x.parser.countByte.tag kind = x.parser.tag kind := by
    intro kind _
    rw [countByte_frame]
    rfl
  have hloops' : x.parser.countByte.state.loops = false := by rwa [hstate]
  have hopen' : Open x.parser.countByte mark := by rwa [Open, hstate]
  have hsound' := hsound.countByte (not_not.mp herrno)
  have htells' := htells.parser htag
  rw [if_neg herrno, if_neg herrno, byteStep_of_loops hloops', switch_of_loops hloops']
  have hstep : ∀ kind, mark = some kind →
      (x.parser.countByte.step ch).parser.tag kind = x.parser.countByte.tag kind := by
    rintro kind rfl
    rcases hopen' with hmark | ⟨hbody, -⟩
    · exact step_tag hmark.symm
    · obtain rfl := Option.some.inj hbody
      exact tag_of_ne (by decide)
  rcases step_lands ch hsound' hopen' hloops' with herror | ⟨mark', hlands⟩
  · have hs : (_ ∧ _) ∨ (x.parser.countByte.step ch).Lands mark none := .inl herror
    exact finish_follows (x := { x with parser := x.parser.countByte }) hadd htells' hch hstep hs
  · exact finish_follows (x := { x with parser := x.parser.countByte }) hadd htells' hch hstep
      (.inr hlands)

theorem full_follows (hparsing : x.parser.state.parsingHeader = true)
    (hch : data[x.pos]? = some ch) (h : x.parser.nread = maxHeaderSize) :
    Follows add data tr₀ x.pos (x.parser.feed add mark tr (data.drop x.pos)) (x.round data ch) := by
  have herrno : x.parser.countByte.httpErrno ≠ .ok := by
    rw [countByte, if_pos hparsing, countHeaderSize_of_lt (by omega) (by rw [h]; decide)]
    decide
  rw [drop_eq_cons hch, feed_cons, byte, Exec.round]
  dsimp only
  rw [if_pos herrno, if_pos herrno]
  exact herrno

theorem round_of_lt (hparsing : x.parser.state.parsingHeader = true)
    (herrno : x.parser.httpErrno = .ok) (h : x.parser.nread < maxHeaderSize) :
    x.round data ch
      = { x with parser := { x.parser with nread := x.parser.nread + 1 } }.switch data ch := by
  have hcount : x.parser.countByte = { x.parser with nread := x.parser.nread + 1 } := by
    rw [countByte, if_pos hparsing, countHeaderSize_of_le h]
  rw [Exec.round, hcount]
  exact if_neg fun h ↦ h herrno

end Rounds

/-! ## The loops of a head -/

/-- A state with a loop is entered, with the first byte counted and `n` bytes of the head before
it. -/
structure Enters (add : List Call → Call → List Call) (data : List UInt8) (tr₀ : List Call)
    (x : Exec) (tr : List Call) (n : ℕ) (state : State) (kind : Kind) : Prop where
  adds : Adds add
  length_lt : data.length < 2 ^ 31
  pos_lt : x.pos < data.length
  state : x.parser.state = state
  errno : x.parser.httpErrno = .ok
  nread : x.parser.nread = n + 1
  lt : n < maxHeaderSize
  tells : Tells add data tr₀ x (some kind) tr

theorem sized_of_parsing {state : State} (h : state.parsingHeader = true) :
    state.sized = false := by
  cases state
  case bodyIdentity | chunkData => exact absurd h Bool.false_ne_true
  all_goals rfl

section Enters

variable {char : Parser → UInt8 → Option Parser} {state : State} {kind : Kind}
  {add : List Call → Call → List Call} {data : List UInt8} {tr₀ tr : List Call} {x : Exec}
  {n : ℕ} {taken left : List UInt8} {q : Parser} {ch : UInt8}

namespace Enters

theorem count_overflow {moved : ℕ} (h : Enters add data tr₀ x tr n state kind)
    (hq : q.nread = n + 1) (hlt : maxHeaderSize < n + 1 + moved) (hmoved : moved ≤ data.length) :
    (q.countHeaderSize moved).httpErrno ≠ .ok := by
  have hmax : maxHeaderSize = 81920 := rfl
  have hn := h.lt
  have hlen := h.length_lt
  rw [countHeaderSize_of_lt (hq ▸ hlt) (by omega)]
  exact Errno.noConfusion

variable (h : Enters add data tr₀ x tr n state kind) (hpasses : Passes char state kind)
  (htaken : taken.foldlM char x.parser = some q)

include h hpasses htaken

theorem sound {nread : ℕ} (hle : nread ≤ maxHeaderSize) : Sound { q with nread := nread } := by
  have hq : x.parser.Within q := hpasses.foldlM_within htaken
  have hstate : q.state = state := by rw [hq, ← h.state]
  refine ⟨?_, hle, sized_of_state ?_⟩
  · rw [hq]
    exact h.errno
  · exact sized_of_parsing (hstate ▸ hpasses.parsing)

theorem nread_eq : q.nread = n + 1 := by rw [hpasses.foldlM_within htaken, ← h.nread]

theorem count {moved : ℕ} (hle : n + 1 + moved ≤ maxHeaderSize) :
    q.countHeaderSize moved = { q with nread := n + 1 + moved } := by
  have hq := h.nread_eq hpasses htaken
  rw [countHeaderSize_of_le (hq ▸ hle), hq]

variable (hrest : data.drop x.pos = taken ++ left)

include hrest

theorem feed (hle : n + taken.length ≤ maxHeaderSize) :
    Parser.feed add { x.parser with nread := n } (some kind) tr (data.drop x.pos)
      = Parser.feed add { q with nread := n + taken.length } (some kind) (extend tr taken)
        left := by
  have htaken' := hpasses.foldlM_nread (n := n) htaken
  rw [hrest]
  exact hpasses.feed (p := { x.parser with nread := n }) (q := { q with nread := n }) h.state
    h.errno htaken' hle

theorem feed_overflow (hlt : maxHeaderSize < n + taken.length
    ∨ (maxHeaderSize ≤ n + taken.length ∧ left ≠ [])) :
    Parser.feed add { x.parser with nread := n } (some kind) tr (data.drop x.pos) = .failed := by
  have htaken' := hpasses.foldlM_nread (n := n) htaken
  rw [hrest]
  exact hpasses.feed_overflow (p := { x.parser with nread := n }) h.state h.errno htaken' h.lt.le
    hlt

theorem tells_behind (nread : ℕ) :
    Tells add data tr₀ { x with parser := { q with nread := nread }, pos := x.pos + taken.length }
      (some kind) (extend tr taken) := by
  have hq : x.parser.Within q := hpasses.foldlM_within htaken
  have hadvance := h.tells.advance h.adds (n := taken.length) h.pos_lt.le
  rw [hrest, List.take_left] at hadvance
  refine hadvance.parser (q := { q with nread := nread }) fun kind' _ ↦ ?_
  exact hq.tag kind'

/-- **The loop goes on to the end of the bytes.** -/
theorem all_follows (hleft : left = []) :
    Follows add data tr₀ x.pos
      (Parser.feed add { x.parser with nread := n } (some kind) tr (data.drop x.pos))
      (({ x with
          parser := q.countHeaderSize ((data.drop x.pos).length - 1)
          pos := x.pos + ((data.drop x.pos).length - 1) } : Exec).counted data
        ⟨q.countHeaderSize ((data.drop x.pos).length - 1), [], .next⟩) := by
  subst hleft
  have hlength : taken.length = data.length - x.pos := by
    rw [← List.length_drop, hrest, List.append_nil]
  have hpos := h.pos_lt
  have hmoved : (data.drop x.pos).length - 1 = taken.length - 1 := by
    rw [hrest, List.append_nil]
  rw [hmoved]
  by_cases hle : n + taken.length ≤ maxHeaderSize
  · have hcount : q.countHeaderSize (taken.length - 1)
        = { q with nread := n + 1 + (taken.length - 1) } := h.count hpasses htaken (by omega)
    have hnread : n + 1 + (taken.length - 1) = n + taken.length := by omega
    have hend : x.pos + (taken.length - 1) + 1 = x.pos + taken.length := by omega
    have hsound := h.sound hpasses htaken hle
    have htells := h.tells_behind hpasses htaken hrest (n + taken.length)
    have hstate : q.state.mark = some kind := by
      rw [hpasses.foldlM_within htaken]
      exact h.state ▸ hpasses.mark
    rw [hcount, hnread, h.feed hpasses htaken hrest hle, Exec.counted]
    rw [if_neg fun hne ↦ hne hsound.errno, Exec.finish]
    dsimp only [List.foldl_nil]
    rw [hend]
    refine ⟨by dsimp only; omega, some kind, _, ⟨hsound, by dsimp only; omega, htells, ?_⟩, ?_⟩
    · exact .inl hstate.symm
    · dsimp only
      rw [List.drop_eq_nil_of_le (by omega)]
  · have hne : (q.countHeaderSize (taken.length - 1)).httpErrno ≠ .ok :=
      h.count_overflow (h.nread_eq hpasses htaken) (by omega) (by omega)
    rw [h.feed_overflow hpasses htaken hrest (.inl (by omega)), Exec.counted, if_pos hne]
    exact hne

/-- **The loop stops at a byte that is an error**, or in a head that is too long. -/
theorem then_failed {left' : List UInt8} (hleft : left = ch :: left')
    (herror : ∀ nread, (Parser.byteStep { q with nread := nread } ch).out = .error) :
    Parser.feed add { x.parser with nread := n } (some kind) tr (data.drop x.pos) = .failed := by
  subst hleft
  by_cases hlt : n + taken.length < maxHeaderSize
  · have hstate : q.state = state := by rw [hpasses.foldlM_within htaken, ← h.state]
    have hbyte : ({ q with nread := n + taken.length } : Parser).byte ch = _ := byte_of_lt
      (hstate ▸ hpasses.parsing) (h.sound hpasses htaken hlt.le).errno hlt
    rw [h.feed hpasses htaken hrest hlt.le, feed_cons, hbyte, Step.fed, herror]
  · exact h.feed_overflow hpasses htaken hrest (.inr ⟨by omega, List.cons_ne_nil _ _⟩)

/-- **The loop stops at a byte**, which the code of the state looks at. -/
theorem then_follows {left' : List UInt8} {s : Step} (hleft : left = ch :: left')
    (hle : n + 1 + taken.length ≤ maxHeaderSize)
    (hs : Parser.byteStep { q with nread := n + 1 + taken.length } ch = s)
    (htag : s.parser.tag kind = q.tag kind)
    (htidy : s.Tidy (some kind) .ok (n + 1 + taken.length)) :
    Follows add data tr₀ x.pos
      (Parser.feed add { x.parser with nread := n } (some kind) tr (data.drop x.pos))
      (({ x with
          parser := { q with nread := n + 1 + taken.length }
          pos := x.pos + taken.length } : Exec).finish data s) := by
  subst hleft
  have hlt : n + taken.length < maxHeaderSize := by omega
  have hdrop : data.drop (x.pos + taken.length) = ch :: left' := by
    rw [← List.drop_drop, hrest, List.drop_left]
  have hch : data[x.pos + taken.length]? = some ch := by
    rw [← List.head?_drop, hdrop]
    rfl
  have hleft' : left' = data.drop (x.pos + taken.length + 1) := by
    rw [← List.drop_drop, hdrop]
    rfl
  have hstate : q.state = state := by rw [hpasses.foldlM_within htaken, ← h.state]
  have hbyte : Parser.byte { q with nread := n + taken.length } ch = s := by
    rw [byte_of_lt (p := { q with nread := n + taken.length }) (hstate ▸ hpasses.parsing)
      (h.sound hpasses htaken hlt.le).errno hlt, ← hs]
    dsimp only
    rw [Nat.add_right_comm]
  have hmark : q.state.mark = some kind := hstate ▸ hpasses.mark
  have hlands := htidy.lands rfl hle
  rw [h.feed hpasses htaken hrest hlt.le, feed_cons, hbyte]
  rw [hleft']
  refine Follows.mono (Nat.le_add_right x.pos taken.length) ?_
  refine finish_follows h.adds (h.tells_behind hpasses htaken hrest _) hch ?_ hlands
  intro kind' hkind'
  obtain rfl := Option.some.inj hkind'
  exact htag

end Enters

theorem headerField_follows (h : Enters add data tr₀ x tr n .headerField .headerField) :
    Follows add data tr₀ x.pos
      (Parser.feed add { x.parser with nread := n } (some .headerField) tr (data.drop x.pos))
      (x.headerField data) := by
  obtain ⟨taken, left, q, hrest, htaken, hloop, hhead⟩ :=
    fieldLoop_spec (data.drop x.pos).length x.parser (data.drop x.pos) (Nat.le_refl _)
  rw [Exec.headerField]
  dsimp only
  rw [hloop]
  cases left with
  | nil => exact h.all_follows passes_fieldChar htaken hrest rfl
  | cons ch left' =>
    have hmoved : (data.drop x.pos).length - (ch :: left').length = taken.length := by
      rw [hrest, List.length_append, Nat.add_sub_cancel]
    have hlen : taken.length ≤ data.length := by
      have := congrArg List.length hrest
      rw [List.length_drop, List.length_append] at this
      omega
    have htoken : token ch = 0 := hhead ch rfl
    dsimp only
    rw [hmoved]
    by_cases hle : n + 1 + taken.length ≤ maxHeaderSize
    · have hcount := h.count passes_fieldChar htaken hle
      have hsound := h.sound passes_fieldChar htaken hle
      have hq : q.state = .headerField := by
        rw [passes_fieldChar.foldlM_within htaken]
        exact h.state
      rw [hcount, Exec.counted, if_neg fun hne ↦ hne hsound.errno]
      refine h.then_follows passes_fieldChar htaken hrest rfl hle ?_ ?_ ?_
      · rw [byteStep_headerField (p := { q with nread := n + 1 + taken.length }) hq,
          byteHeaderField, if_neg (not_not.mpr htoken)]
      · split_ifs <;> rfl
      · have hcolon : Step.Tidy ⟨({ q with nread := n + 1 + taken.length } : Parser).goto
            .headerValueDiscardWs, [.data .headerField], .next⟩ (some .headerField) .ok
            (n + 1 + taken.length) :=
          .inr ⟨.inl rfl, rfl, hsound.errno, Nat.le_refl _, sized_of_state rfl⟩
        exact hcolon.ite (tidy_error (by decide))
    · have hne := h.count_overflow (h.nread_eq passes_fieldChar htaken) (by omega) hlen
      rw [h.feed_overflow passes_fieldChar htaken hrest (.inr ⟨by omega, List.cons_ne_nil _ _⟩),
        Exec.counted, if_pos hne]
      exact hne

theorem headerValue_error
    (hloop : valueLoop (data.drop x.pos).length x.parser (data.drop x.pos) = (q, ch :: left))
    (hne : q.httpErrno ≠ .ok) : Follows add data tr₀ x.pos .failed (x.headerValue data) := by
  rw [Exec.headerValue]
  dsimp only
  rw [hloop]
  dsimp only
  by_cases htoken : q.httpErrno = .invalidHeaderToken
  · rw [if_pos htoken]
    exact hne
  · rw [if_neg htoken, if_pos hne]
    exact hne

theorem Enters.value_overflow {state : State} (h : Enters add data tr₀ x tr n state kind)
    (hq : (valueLoop (data.drop x.pos).length x.parser (data.drop x.pos)).1.nread = n + 1)
    (hmoved : maxHeaderSize < (data.drop x.pos).length
      - (valueLoop (data.drop x.pos).length x.parser (data.drop x.pos)).2.length) :
    Follows add data tr₀ x.pos .failed (x.headerValue data) := by
  have hlen : (data.drop x.pos).length ≤ data.length := by
    rw [List.length_drop]
    exact Nat.sub_le _ _
  rw [Exec.headerValue]
  dsimp only
  generalize hloop : valueLoop (data.drop x.pos).length x.parser (data.drop x.pos) = r
    at hq hmoved ⊢
  obtain ⟨q, left⟩ := r
  cases left with
  | nil =>
    have hne : (q.countHeaderSize ((data.drop x.pos).length - 1)).httpErrno ≠ .ok :=
      h.count_overflow hq (by dsimp only [List.length_nil] at hmoved; omega) (by omega)
    dsimp only
    rw [Exec.counted, if_pos hne]
    exact hne
  | cons ch left =>
    dsimp only at hq hmoved ⊢
    have hmoved' : (data.drop x.pos).length - (ch :: left).length ≤ data.length :=
      (Nat.sub_le _ _).trans hlen
    generalize (data.drop x.pos).length - (ch :: left).length = moved at hmoved hmoved' ⊢
    have hne := h.count_overflow (q := q.goto .headerAlmostDone) hq (by omega) hmoved'
    split_ifs with htoken herrno hcr
    · exact fun hok ↦ absurd (htoken.symm.trans hok) (by decide)
    · exact herrno
    · rw [Exec.counted, callbackData_frame.2, if_pos hne]
      exact hne
    · exact hne

/-- A call that is made before the bytes are counted might as well be made behind that. -/
theorem counted_callbackData {p p' q : Parser} {marks : Kind → Option ℕ} {calls : List (ℕ × Call)}
    {pos pos' : ℕ} {fed : Fed} (htag : p'.tag kind = p.tag kind) (hok : p'.httpErrno = .ok)
    (h : Follows add data tr₀ pos' fed (Exec.finish data ⟨q, pos, marks, calls⟩
      ⟨p', [.data kind], .next⟩)) :
    Follows add data tr₀ pos' fed (Exec.counted data
      { Exec.callbackData data ⟨p, pos, marks, calls⟩ kind pos (pos + 1) with parser := p' }
      ⟨p', [], .next⟩) := by
  have heq : Exec.counted data
      { Exec.callbackData data ⟨p, pos, marks, calls⟩ kind pos (pos + 1) with parser := p' }
      ⟨p', [], .next⟩
        = Exec.finish data ⟨q, pos, marks, calls⟩ ⟨p', [.data kind], .next⟩ := by
    rw [Exec.counted, if_neg (not_not.mpr hok), Exec.finish, Exec.finish]
    simp only [List.foldl_cons, List.foldl_nil, Exec.op, Exec.callbackData]
    cases marks kind with
    | none => rfl
    | some m =>
      dsimp only
      rw [htag]
  rwa [heq]

theorem headerValue_follows (h : Enters add data tr₀ x tr n .headerValue .headerValue) :
    Follows add data tr₀ x.pos
      (Parser.feed add { x.parser with nread := n } (some .headerValue) tr (data.drop x.pos))
      (x.headerValue data) := by
  obtain ⟨hnread, hle, taken, left, q, hrest, htaken, hend⟩ :=
    valueLoop_spec (data.drop x.pos).length x.parser (data.drop x.pos) (Nat.le_refl _)
  rcases hend with ⟨hloop, hhead⟩ | ⟨hleft, htoo, hmoved⟩
  · cases left with
    | nil =>
      rw [Exec.headerValue]
      dsimp only
      rw [hloop]
      exact h.all_follows passes_valueChar htaken hrest rfl
    | cons ch left' =>
      have hmoved : (data.drop x.pos).length - (ch :: left').length = taken.length := by
        rw [hrest, List.length_append, Nat.add_sub_cancel]
      have hlen : taken.length ≤ data.length := by
        have := congrArg List.length hrest
        rw [List.length_drop, List.length_append] at this
        omega
      have hstop : valueChar q ch = none := hhead ch rfl
      by_cases hcrlf : ch = cr ∨ ch = lf
      · rw [valueEnd, if_pos hcrlf] at hloop
        rw [Exec.headerValue]
        dsimp only
        rw [hloop]
        dsimp only
        rw [hmoved]
        have hok : q.httpErrno = .ok := (h.sound passes_valueChar htaken h.lt.le).errno
        have hnread' : q.nread = n + 1 := h.nread_eq passes_valueChar htaken
        rw [if_neg (by rw [hok]; decide), if_neg (not_not.mpr hok), callbackData_frame.2]
        by_cases hle : n + 1 + taken.length ≤ maxHeaderSize
        · have hcount : (q.goto .headerAlmostDone).countHeaderSize taken.length
              = ({ q with nread := n + 1 + taken.length } : Parser).goto .headerAlmostDone := by
            rw [countHeaderSize_of_le (p := q.goto .headerAlmostDone) (hnread' ▸ hle)]
            dsimp only [goto]
            rw [hnread']
          have hsound := h.sound passes_valueChar htaken hle
          have hstate : q.state = .headerValue := by
            rw [passes_valueChar.foldlM_within htaken]
            exact h.state
          have hok' : (({ q with nread := n + 1 + taken.length } : Parser).goto
              .headerAlmostDone).httpErrno = .ok := hok
          rw [hcount]
          by_cases hcr : ch = cr
          · rw [if_pos hcr]
            refine counted_callbackData (p := q.goto .headerAlmostDone)
              (q := { q with nread := n + 1 + taken.length }) rfl hok' ?_
            refine h.then_follows passes_valueChar htaken hrest rfl hle ?_ ?_ ?_
            · rw [byteStep_headerValue (p := { q with nread := n + 1 + taken.length }) hstate,
                byteHeaderValue, if_pos hcr]
            · rfl
            · exact .inr ⟨.inl rfl, rfl, hok, Nat.le_refl _, sized_of_state rfl⟩
          · have hlf : ch = lf := hcrlf.resolve_left hcr
            have halmost : Step.Tidy ⟨({ q with nread := n + 1 + taken.length } : Parser).goto
                .headerValueLws, [], .next⟩ none .ok (n + 1 + taken.length) :=
              .inr ⟨.inl rfl, rfl, hok, Nat.le_refl _, sized_of_state rfl⟩
            rw [if_neg hcr, if_neg (not_not.mpr hok')]
            refine h.then_follows passes_valueChar htaken hrest rfl hle ?_ ?_ ?_
            · rw [byteStep_headerValue (p := { q with nread := n + 1 + taken.length }) hstate,
                byteHeaderValue, if_neg hcr, if_pos hlf]
            · rw [headerAlmostDone, if_neg (not_not.mpr hlf)]
              rfl
            · refine (?_ : Step.Tidy _ none _ _).after rfl
              rw [headerAlmostDone, if_neg (not_not.mpr hlf)]
              exact halmost
        · have hne := h.count_overflow (q := q.goto .headerAlmostDone) hnread' (by omega) hlen
          rw [h.feed_overflow passes_valueChar htaken hrest
            (.inr ⟨by omega, List.cons_ne_nil _ _⟩)]
          split_ifs
          · rw [Exec.counted]
            exact (if_pos hne).symm ▸ hne
          · exact hne
      · have hcr : ch ≠ cr := fun h ↦ hcrlf (.inl h)
        have hlf : ch ≠ lf := fun h ↦ hcrlf (.inr h)
        have hstate : q.state = .headerValue := by
          rw [passes_valueChar.foldlM_within htaken]
          exact h.state
        have herror : ∀ nread,
            (Parser.byteStep { q with nread := nread } ch).out = .error := by
          intro nread
          rw [byteStep_headerValue (p := { q with nread := nread }) hstate, byteHeaderValue,
            if_neg hcr, if_neg hlf]
          split_ifs with hinvalid
          · rfl
          · rw [valueChar, if_neg fun hstops ↦ hstops.elim hcr fun hstops ↦
              hstops.elim hlf hinvalid] at hstop
            rw [matchValue_nread, hstop]
            rfl
        rw [h.then_failed passes_valueChar htaken hrest rfl herror]
        rw [valueEnd, if_neg hcrlf] at hloop
        by_cases hinvalid : !q.lenientHttpHeaders ∧ !isHeaderChar ch
        · rw [if_pos hinvalid] at hloop
          exact headerValue_error hloop Errno.noConfusion
        · rw [if_neg hinvalid] at hloop
          exact headerValue_error hloop Errno.noConfusion
  · rw [h.feed_overflow passes_valueChar htaken hrest
      (.inr ⟨htoo.trans (Nat.le_add_left _ _), hleft⟩)]
    exact h.value_overflow (hnread.trans h.nread) hmoved

end Enters

/-! ## Bodies -/

section Bodies

variable {add : List Call → Call → List Call} {data : List UInt8} {tr₀ tr : List Call} {x : Exec}
  {mark mark' : Option Kind} {p : Parser} {n : ℕ}

theorem Tells.body (hadd : Adds add) (h : Tells add data tr₀ x mark tr)
    (hmark : mark = none ∨ mark = some .body) (hpos : x.pos ≤ data.length) (q : Parser) :
    Tells add data tr₀ { x.mark .body with parser := q, pos := x.pos + n } (some .body)
      (extend (opened add mark tr) ((data.drop x.pos).take n)) := by
  have hset : Tells add data tr₀ (x.mark .body) (some .body) (opened add mark tr) := by
    rcases hmark with rfl | rfl
    · exact h.set
    · rw [h.set_again]
      exact h
  have hframe : (x.mark .body).pos = x.pos ∧ (x.mark .body).parser = x.parser :=
    op_frame data x (.mark .body)
  have hadvance := (hset.advance hadd (n := n) (hframe.1.trans_le hpos)).parser (q := q)
    fun kind hkind ↦ by
      obtain rfl := Option.some.inj hkind
      exact tag_of_ne (by decide)
  rw [hframe.1] at hadvance
  exact hadvance

/-- **Some bytes of a body**, of which the code goes over all but the last without looking. Behind
`i` of them the parser is `q i`. -/
theorem marked_follows {q : ℕ → Parser} {s : Step} {k : ℕ} (hadd : Adds add)
    (h : Meets add data tr₀ x mark tr) (hlast : x.pos + k < data.length)
    (hmark : mark = none ∨ mark = some .body) (hzero : q 0 = x.parser)
    (hbyte : ∀ i < k, ∀ ch, (q i).byte ch = ⟨q (i + 1), [.mark .body], .next⟩)
    (hs : ∀ ch, (q k).byte ch = s.after [.mark .body]) (hlands : s.Lands (some .body) mark') :
    Follows add data tr₀ x.pos (x.parser.feed add mark tr (data.drop x.pos))
      (({ x.mark .body with parser := q k, pos := x.pos + k } : Exec).finish data s) := by
  have htaken : ((data.drop x.pos).take k).length = k := by
    rw [List.length_take, List.length_drop]
    omega
  obtain ⟨ch, hch⟩ : ∃ ch, data[x.pos + k]? = some ch := ⟨_, List.getElem?_eq_getElem hlast⟩
  have hdrop : data.drop x.pos
      = (data.drop x.pos).take k ++ ch :: data.drop (x.pos + k + 1) := by
    have hcons := drop_eq_cons (x := { x with pos := x.pos + k }) hch
    dsimp only at hcons
    rw [← hcons, ← List.drop_drop, List.take_append_drop]
  have hfeed : (q 0).feed add mark tr
      ((data.drop x.pos).take k ++ ch :: data.drop (x.pos + k + 1))
        = s.fed add (some .body) (extend (opened add mark tr) ((data.drop x.pos).take k)) ch
          (data.drop (x.pos + k + 1)) :=
    feed_opened hmark (by rwa [htaken]) (by rw [htaken]; exact hs ch)
  rw [← hdrop, hzero] at hfeed
  rw [hfeed]
  refine Follows.mono (Nat.le_add_right x.pos k) ?_
  refine finish_follows hadd (h.tells.body hadd hmark (by omega) (q k)) hch ?_ (.inr hlands)
  intro kind hkind
  obtain rfl := Option.some.inj hkind
  exact tag_of_ne (by decide)

theorem Open.of_inBody (h : Open p mark) (hbody : p.state.inBody = true) :
    mark = none ∨ mark = some .body :=
  h.imp (·.trans (inBody_mark hbody)) And.left

theorem eof_follows (hadd : Adds add) (h : Meets add data tr₀ x mark tr)
    (hpos : x.pos < data.length) (hstate : x.parser.state = .bodyIdentityEof) :
    Follows add data tr₀ x.pos (x.parser.feed add mark tr (data.drop x.pos))
      (({ (x.mark .body) with pos := data.length - 1 } : Exec).finish data
        ⟨x.parser, [], .next⟩) := by
  have hbody : x.parser.state.inBody = true := by rw [hstate]; rfl
  have hbyte : ∀ ch, x.parser.byte ch = ⟨x.parser, [.mark .body], .next⟩ := by
    intro ch
    rw [byte_of_not_parsing (by rw [hstate]; rfl) h.sound.errno, byteStep, hstate]
  have hlast : x.pos + (data.length - x.pos - 1) = data.length - 1 := by omega
  have hlands : Step.Lands ⟨x.parser, [], .next⟩ (some .body) (some .body) :=
    ⟨.inl rfl, rfl, h.sound, .inr ⟨rfl, rfl, hbody⟩⟩
  have hfollows := marked_follows (q := fun _ ↦ x.parser) (s := ⟨x.parser, [], .next⟩)
    (k := data.length - x.pos - 1) hadd h (by omega) (h.open'.of_inBody hbody) rfl
    (fun _ _ ch ↦ hbyte ch) (fun ch ↦ hbyte ch) hlands
  rw [hlast] at hfollows
  exact hfollows

theorem sized_spec {state : State} (h : state.sized = true) :
    state.inBody = true ∧ state.parsingHeader = false := by
  cases state
  case bodyIdentity | chunkData => exact ⟨rfl, rfl⟩
  all_goals exact absurd h Bool.false_ne_true

theorem toNat_sub_ofNat {c : UInt64} {i : ℕ} (h : i ≤ c.toNat) :
    (c - UInt64.ofNat i).toNat = c.toNat - i := by
  have hi : (UInt64.ofNat i).toNat = i := by
    rw [UInt64.toNat_ofNat']
    exact Nat.mod_eq_of_lt (h.trans_lt c.toNat_lt)
  rw [UInt64.toNat_sub_of_le _ _ (UInt64.le_iff_toNat_le.mpr (by rwa [hi])), hi]

/-- The parser behind some bytes of a body. -/
def afterBody (p : Parser) (i : ℕ) : Parser :=
  { p with contentLength := p.contentLength - UInt64.ofNat i }

theorem afterBody_succ {i : ℕ} (h : i + 1 ≤ p.contentLength.toNat) :
    { p.afterBody i with contentLength := (p.afterBody i).contentLength - 1 }
      = p.afterBody (i + 1) := by
  have hone : p.contentLength - UInt64.ofNat i - 1 = p.contentLength - UInt64.ofNat (i + 1) := by
    have hi := toNat_sub_ofNat (c := p.contentLength) (i := i) (by omega)
    apply UInt64.toNat.inj
    rw [toNat_sub_ofNat h, ← Nat.sub_sub, ← hi]
    exact toNat_sub_ofNat (c := p.contentLength - UInt64.ofNat i) (i := 1) (by omega)
  rw [afterBody, afterBody, ← hone]

theorem afterBody_ne_zero {i : ℕ} (h : i < p.contentLength.toNat) :
    (p.afterBody i).contentLength ≠ 0 := by
  intro hzero
  have := toNat_sub_ofNat (c := p.contentLength) (i := i) h.le
  rw [show p.contentLength - UInt64.ofNat i = 0 from hzero] at this
  exact absurd this (Nat.sub_pos_of_lt h).ne

theorem body_follows {done : Parser → Step} (hadd : Adds add) (h : Meets add data tr₀ x mark tr)
    (hpos : x.pos < data.length) (hsized : x.parser.state.sized = true)
    (hstep : ∀ (q : Parser) ch, q.state = x.parser.state → q.byteStep ch = q.byteBody done)
    (hdone : ∀ q : Parser, q.httpErrno = .ok → q.nread ≤ maxHeaderSize →
      ∃ mark', (done q).Lands (some .body) mark') :
    Follows add data tr₀ x.pos (x.parser.feed add mark tr (data.drop x.pos))
      (x.body data done) := by
  obtain ⟨hbody, hparsing⟩ := sized_spec hsized
  have hsome : x.parser.contentLength.toNat ≠ 0 :=
    fun hzero ↦ h.sound.sized hsized (UInt64.toNat.inj hzero)
  obtain ⟨k, hk⟩ : ∃ k, min x.parser.contentLength.toNat (data.length - x.pos) = k + 1 :=
    Nat.exists_eq_succ_of_ne_zero (by omega)
  have hbyte : ∀ i ≤ k, ∀ ch, (x.parser.afterBody i).byte ch
      = Step.after (if (x.parser.afterBody (i + 1)).contentLength = 0
          then done (x.parser.afterBody (i + 1)) else ⟨x.parser.afterBody (i + 1), [], .next⟩)
        [.mark .body] := by
    intro i hi ch
    rw [byte_of_not_parsing (p := x.parser.afterBody i) hparsing h.sound.errno,
      hstep (x.parser.afterBody i) ch rfl, byteBody, afterBody_succ (by omega)]
  have hmore : ∀ i < k, ∀ ch, (x.parser.afterBody i).byte ch
      = ⟨x.parser.afterBody (i + 1), [.mark .body], .next⟩ := by
    intro i hi ch
    rw [hbyte i hi.le, if_neg (afterBody_ne_zero (by omega))]
    rfl
  have hzero : x.parser.afterBody 0 = x.parser := by
    have : x.parser.contentLength - UInt64.ofNat 0 = x.parser.contentLength := UInt64.sub_zero _
    rw [afterBody, this]
  have hlands : ∃ mark', (if (x.parser.afterBody (k + 1)).contentLength = 0
      then done (x.parser.afterBody (k + 1))
      else ⟨x.parser.afterBody (k + 1), [], .next⟩ : Step).Lands (some .body) mark' := by
    split_ifs with hend
    · exact hdone _ h.sound.errno h.sound.nread
    · exact ⟨_, .inl rfl, rfl, ⟨h.sound.errno, h.sound.nread, fun _ ↦ hend⟩,
        .inr ⟨rfl, rfl, hbody⟩⟩
  obtain ⟨mark', hlands⟩ := hlands
  have hfollows := marked_follows (q := x.parser.afterBody) (k := k) hadd h (by omega)
    (h.open'.of_inBody hbody) hzero hmore (hbyte k (Nat.le_refl _)) hlands
  rw [Exec.body]
  dsimp only
  rw [hk]
  exact hfollows

end Bodies

/-! ## The loop over the bytes -/

section Loop

variable {add : List Call → Call → List Call} {data : List UInt8} {tr₀ tr : List Call} {x : Exec}
  {mark : Option Kind} {ch : UInt8}

/-- A state with a loop over a part of the head is entered with the first byte counted. -/
theorem Meets.enters {state : State} {kind : Kind} (hadd : Adds add)
    (h : Meets add data tr₀ x mark tr) (hlen : data.length < 2 ^ 31) (hpos : x.pos < data.length)
    (hstate : x.parser.state = state) (hkind : state.mark = some kind)
    (hlt : x.parser.nread < maxHeaderSize) :
    mark = some kind
      ∧ Enters add data tr₀ { x with parser := { x.parser with nread := x.parser.nread + 1 } } tr
        x.parser.nread state kind := by
  obtain rfl := h.open'.eq_some (hstate ▸ hkind)
  exact ⟨rfl, hadd, hlen, hpos, hstate, h.sound.errno, rfl, hlt, h.tells.parser fun _ _ ↦ rfl⟩

/-- **The code of every state does what the machine does.** -/
theorem round_follows (hadd : Adds add) (h : Meets add data tr₀ x mark tr)
    (hlen : data.length < 2 ^ 31) (hch : data[x.pos]? = some ch) :
    Follows add data tr₀ x.pos (x.parser.feed add mark tr (data.drop x.pos)) (x.round data ch) := by
  have hpos : x.pos < data.length := (List.getElem?_eq_some_iff.mp hch).1
  by_cases hloops : x.parser.state.loops = false
  · exact step_follows hadd h hch hloops
  have hround : x.parser.state.parsingHeader = false → x.round data ch = x.switch data ch := by
    intro hparsing
    have hcount : x.parser.countByte = x.parser := by
      rw [countByte, hparsing]
      rfl
    rw [Exec.round, hcount]
    exact if_neg (not_not.mpr h.sound.errno)
  cases hstate : x.parser.state
  case headerField =>
    have hparsing : x.parser.state.parsingHeader = true := by rw [hstate]; rfl
    rcases h.sound.nread.eq_or_lt with hfull | hlt
    · exact full_follows hparsing hch hfull
    · have hswitch : Exec.switch data
          { x with parser := { x.parser with nread := x.parser.nread + 1 } } ch
          = Exec.headerField data
            { x with parser := { x.parser with nread := x.parser.nread + 1 } } := by
        simp only [Exec.switch, hstate]
      rw [round_of_lt hparsing h.sound.errno hlt, hswitch]
      obtain ⟨rfl, henters⟩ := h.enters hadd hlen hpos hstate rfl hlt
      exact headerField_follows henters
  case headerValue =>
    have hparsing : x.parser.state.parsingHeader = true := by rw [hstate]; rfl
    rcases h.sound.nread.eq_or_lt with hfull | hlt
    · exact full_follows hparsing hch hfull
    · have hswitch : Exec.switch data
          { x with parser := { x.parser with nread := x.parser.nread + 1 } } ch
          = Exec.headerValue data
            { x with parser := { x.parser with nread := x.parser.nread + 1 } } := by
        simp only [Exec.switch, hstate]
      rw [round_of_lt hparsing h.sound.errno hlt, hswitch]
      obtain ⟨rfl, henters⟩ := h.enters hadd hlen hpos hstate rfl hlt
      exact headerValue_follows henters
  case bodyIdentity =>
    rw [hround (by rw [hstate]; rfl), Exec.switch, hstate]
    refine body_follows hadd h hpos (by rw [hstate]; rfl) ?_ ?_
    · intro q ch hq
      rw [byteStep, hq, hstate]
    · intro q hok hnread
      have hdone : Step.Tidy (((q.goto .messageDone).messageDone).after [.dataThrough .body])
          (some .body) q.httpErrno q.nread := tidy_messageDone.after rfl
      rcases hdone.lands hok hnread with ⟨hout, -⟩ | hlands
      · rw [Step.after, messageDone] at hout
        dsimp only at hout
        split_ifs at hout
      · exact ⟨_, hlands⟩
  case chunkData =>
    rw [hround (by rw [hstate]; rfl), Exec.switch, hstate]
    refine body_follows hadd h hpos (by rw [hstate]; rfl) ?_ ?_
    · intro q ch hq
      rw [byteStep, hq, hstate]
    · intro q hok hnread
      exact ⟨some .body, .inl rfl, rfl, ⟨hok, hnread, sized_of_state rfl⟩, .inr ⟨rfl, rfl, rfl⟩⟩
  case bodyIdentityEof =>
    rw [hround (by rw [hstate]; rfl), Exec.switch, hstate]
    exact eof_follows hadd h hpos hstate
  all_goals
    rw [hstate] at hloops
    exact absurd rfl hloops

/-- At the end of the bytes the calls are made for the marks that are left. -/
theorem Tells.leftover (hadd : Adds add) (h : Tells add data tr₀ x mark tr)
    (hpos : x.pos ≤ data.length) :
    (x.leftover data).parser = x.parser
      ∧ ((x.leftover data).calls.map Prod.snd).foldl add tr₀ = tr := by
  have hfold : ∀ (kinds : List Kind) (x : Exec) (mark : Option Kind),
      Tells add data tr₀ x mark tr → x.pos ≤ data.length →
      (∀ kind, mark = some kind → kind ∈ kinds) →
      (kinds.foldl (fun x kind ↦ x.callbackData data kind x.pos x.pos) x).parser = x.parser
        ∧ Tells add data tr₀ (kinds.foldl (fun x kind ↦ x.callbackData data kind x.pos x.pos) x)
          none tr := by
    intro kinds
    induction kinds with
    | nil =>
      intro x mark h hpos hmem
      cases mark with
      | none => exact ⟨rfl, h⟩
      | some kind => exact absurd (hmem kind rfl) List.not_mem_nil
    | cons kind kinds ih =>
      intro x mark h hpos hmem
      rw [List.foldl_cons]
      cases mark with
      | none =>
        rw [h.no_call]
        exact ih x none h hpos fun _ hkind ↦ absurd hkind.symm (Option.some_ne_none _)
      | some kind' =>
        by_cases hkind : kind' = kind
        · subst hkind
          have hcall : Tells add data tr₀ (x.callbackData data kind' x.pos x.pos) none tr :=
            h.call hadd hpos
          have hframe : (x.callbackData data kind' x.pos x.pos).pos = x.pos
              ∧ (x.callbackData data kind' x.pos x.pos).parser = x.parser := callbackData_frame
          obtain ⟨hparser, htells⟩ := ih _ none hcall (hframe.1.trans_le hpos)
            fun _ hkind ↦ absurd hkind.symm (Option.some_ne_none _)
          exact ⟨hparser.trans hframe.2, htells⟩
        · have hnone : x.callbackData data kind x.pos x.pos = x := by
            obtain ⟨m, -, hmarks, -⟩ := h
            rw [Exec.callbackData, hmarks, Function.update_of_ne (Ne.symm hkind)]
          rw [hnone]
          refine ih x (some kind') h hpos fun k hk ↦ ?_
          obtain rfl := Option.some.inj hk
          exact (List.mem_cons.mp (hmem _ rfl)).resolve_left hkind
  obtain ⟨hparser, htells⟩ := hfold [.headerField, .headerValue, .url, .body, .status] x mark h hpos
    fun kind _ ↦ by cases kind <;> decide
  exact ⟨hparser, htells.2⟩

theorem loop_settles (fuel : ℕ) (hadd : Adds add) (h : Meets add data tr₀ x mark tr)
    (hlen : data.length < 2 ^ 31) (hfuel : data.length - x.pos < fuel) :
    Settles add data tr₀ ⟨(x.loop data fuel).1.parser, (x.loop data fuel).1.calls,
      (x.loop data fuel).2⟩ (x.parser.feed add mark tr (data.drop x.pos)) := by
  induction fuel generalizing x mark tr with
  | zero => exact absurd hfuel (Nat.not_lt_zero _)
  | succ fuel ih =>
    rw [Exec.loop]
    cases hch : data[x.pos]? with
    | none =>
      have hle : data.length ≤ x.pos := List.getElem?_eq_none_iff.mp hch
      obtain ⟨hparser, hcalls⟩ := h.tells.leftover hadd h.pos_le
      rw [List.drop_eq_nil_of_le hle]
      exact ⟨hparser, rfl, hcalls, h.ready hadd⟩
    | some ch =>
      have hfollows := round_follows hadd h hlen hch
      have hpos : x.pos < data.length := (List.getElem?_eq_some_iff.mp hch).1
      dsimp only
      generalize x.round data ch = r at hfollows ⊢
      obtain ⟨y, out⟩ := r
      cases out with
      | none =>
        obtain ⟨hlt, mark', tr', hmeets, hfed⟩ := hfollows
        rw [hfed]
        exact ih hmeets (by omega)
      | some n => exact hfollows

end Loop

/-! ## The whole -/

section Execute

variable {add : List Call → Call → List Call} {data : List UInt8} {mark : Option Kind}
  {tr : List Call} {p : Parser}

/-- The piece that the bytes begin with, if the parser stands within one. -/
def begun (add : List Call → Call → List Call) (p : Parser) (tr : List Call) : List Call :=
  match p.state.mark with
  | none => tr
  | some kind => add tr (.data (p.tag kind) [])

theorem sound_init (type : MessageType) : (init type).Sound := by
  cases type
  all_goals exact ⟨rfl, Nat.zero_le _, sized_of_state rfl⟩

theorem mark_init (type : MessageType) : (init type).state.mark = none := by
  cases type
  all_goals rfl

/-- **`http_parser_execute` does what the machine does.** -/
theorem execute_settles (tr : List Call) (hadd : Adds add) (h : p.Sound) (hdata : data ≠ [])
    (hlen : data.length < 2 ^ 31) :
    Settles add data tr (p.execute data) (p.feed add p.state.mark (begun add p tr) data) := by
  have hmeets : Meets add data tr
      ⟨p, 0, fun kind ↦ if p.state.mark = some kind then some 0 else none, []⟩ p.state.mark
      (begun add p tr) := by
    refine ⟨h, Nat.zero_le _, ?_, .inl rfl⟩
    rw [begun]
    cases hmark : p.state.mark with
    | none => exact ⟨rfl, rfl⟩
    | some kind =>
      refine ⟨0, Nat.le_refl _, ?_, rfl⟩
      funext kind'
      rw [Function.update_apply]
      exact if_congr (Option.some_inj.trans eq_comm) rfl rfl
  rw [execute, if_neg (not_not.mpr h.errno), if_neg hdata]
  exact loop_settles _ hadd hmeets hlen (Nat.lt_succ_self _)

theorem execute_init_settles (tr : List Call) (hadd : Adds add) (type : MessageType)
    (hdata : data ≠ []) (hlen : data.length < 2 ^ 31) :
    Settles add data tr ((init type).execute data) ((init type).feed add none tr data) := by
  have h := execute_settles tr hadd (sound_init type) hdata hlen
  rw [begun, mark_init] at h
  exact h

/-- **The refinement.** On every input the code makes the calls of the machine, one by one and with
the same bytes, leaves the same parser and takes the same number of bytes; and it reports an error
on the inputs that are errors to the machine, and on no others. -/
theorem execute_refines (h : p.Sound) (hdata : data ≠ []) (hlen : data.length < 2 ^ 31) :
    match p.feed keep p.state.mark (begun keep p []) data with
    | .running q _ tr => (p.execute data).parser = q ∧ q.httpErrno = .ok
      ∧ (p.execute data).parsed = data.length ∧ (p.execute data).calls.map Prod.snd = tr.reverse
    | .exited q tr rest => (p.execute data).parser = q ∧ q.httpErrno = .ok
      ∧ (p.execute data).parsed + rest.length = data.length
      ∧ (p.execute data).calls.map Prod.snd = tr.reverse
    | .failed => (p.execute data).parser.httpErrno ≠ .ok := by
  have hsettles := execute_settles [] adds_keep h hdata hlen
  have hreverse : ∀ {calls tr : List Call}, calls.foldl keep [] = tr → calls = tr.reverse := by
    intro calls tr htr
    rw [foldl_keep, List.append_nil] at htr
    rw [← htr, List.reverse_reverse]
  cases hfed : p.feed keep p.state.mark (begun keep p []) data with
  | running q mark tr =>
    rw [hfed] at hsettles
    obtain ⟨hparser, hparsed, hcalls, hready⟩ := hsettles
    exact ⟨hparser, hready.sound.errno, hparsed, hreverse hcalls⟩
  | exited q tr rest =>
    rw [hfed] at hsettles
    obtain ⟨hparser, hparsed, hcalls, hok, -⟩ := hsettles
    exact ⟨hparser, hok, hparsed, hreverse hcalls⟩
  | failed =>
    rw [hfed] at hsettles
    exact hsettles

/-- A request with a body. -/
def post : List UInt8 := letters "POST /a HTTP/1.1\r\nHost: b\r\nContent-Length: 2\r\n\r\nhi"

/-- The calls for it, the last one first. -/
def postReport : List Call :=
  [.notify .messageComplete, .data (.body, 0) (letters "hi"), .notify .headersComplete,
    .data (.headerValue, 0) (letters "2"), .data (.headerField, 0) (letters "Content-Length"),
    .data (.headerValue, 0) (letters "b"), .data (.headerField, 0) (letters "Host"),
    .data (.url, 0) (letters "/a"), .notify .messageBegin]

/-- A URL, names, values and a body are scanned and reported whole. -/
theorem execute_refines_post :
    ((init .httpRequest).execute post).parsed = post.length
      ∧ ((init .httpRequest).execute post).calls.map Prod.snd = postReport.reverse := by
  obtain ⟨hdata, hlength⟩ : post ≠ [] ∧ post.length < 2 ^ 31 := by decide +kernel
  have hfed : (init .httpRequest).feed keep none [] post
      = .running ((init .httpRequest).execute post).parser none postReport := by
    decide +kernel
  have hsound := sound_init .httpRequest
  have hmark := mark_init .httpRequest
  -- the request as a variable, so that it is not computed again
  generalize init .httpRequest = p at *
  generalize post = data at *
  have h := execute_refines hsound hdata hlength
  rw [begun, hmark, hfed] at h
  exact h.2.2

/-- **Only an upgrade leaves bytes to somebody else.** -/
theorem upgrade_of_parsed_lt (h : p.Sound) (hdata : data ≠ []) (hlen : data.length < 2 ^ 31)
    (hok : (p.execute data).parser.httpErrno = .ok) :
    (p.execute data).parsed ≤ data.length
      ∧ ((p.execute data).parsed < data.length → (p.execute data).parser.upgrade = true) := by
  have hsettles := execute_settles [] adds_keep h hdata hlen
  cases hfed : p.feed keep p.state.mark (begun keep p []) data with
  | running q mark tr' =>
    rw [hfed] at hsettles
    obtain ⟨-, hparsed, -⟩ := hsettles
    exact ⟨hparsed.le, fun hlt ↦ absurd hparsed hlt.ne⟩
  | exited q tr' rest =>
    rw [hfed] at hsettles
    obtain ⟨hparser, hparsed, -, -, hupgrade⟩ := hsettles
    exact ⟨by omega, fun _ ↦ hparser ▸ hupgrade⟩
  | failed =>
    rw [hfed] at hsettles
    exact absurd hok hsettles

/-- The two bytes behind the head of a `CONNECT` are not touched. -/
theorem upgrade_of_parsed_lt_connect :
    let data := letters "CONNECT a HTTP/1.1\r\n\r\nxy"
    ((init .httpRequest).execute data).parsed = 22
      ∧ ((init .httpRequest).execute data).parser.upgrade = true := by
  intro data
  obtain ⟨hdata, hlength, hparsed, hok⟩ : data ≠ [] ∧ data.length = 24
      ∧ ((init .httpRequest).execute data).parsed = 22
      ∧ ((init .httpRequest).execute data).parser.httpErrno = .ok := by
    decide +kernel
  exact ⟨hparsed, (upgrade_of_parsed_lt (sound_init _) hdata (by rw [hlength]; decide) hok).2
    (by rw [hparsed, hlength]; decide)⟩

end Execute

end Knet.Http.Parser
