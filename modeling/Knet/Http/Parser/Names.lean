import Knet.Http.Parser.Refine

/-!
# Which header it is

The name of a header is compared with the names that the parser knows while its letters come in, one
state for each name, and three for the letters that two of the names have in common. What comes out
at the colon is the name itself, in which upper case is as good as lower case
(`Tracks.known_eq`).

The first letter of a name also concludes the line before: what its value has turned out to be is
noted, and a value without any byte is reported (`feed_concluded`).
-/

namespace Knet.Http.Parser

open Pieces
open HttpMessage (IsToken isTchar lower)

/-! ## The names that are known -/

theorem length_letters (text : String) : (letters text).length = text.length := by
  rw [letters, List.length_map, String.length_toList]

/-- The names that are known: in the one state a name is compared with it, in the other it has been
seen. -/
def names : List (String × HeaderState × HeaderState) :=
  [("connection", .matchingConnection, .connection),
    ("proxy-connection", .matchingProxyConnection, .connection),
    ("content-length", .matchingContentLength, .contentLength),
    ("transfer-encoding", .matchingTransferEncoding, .transferEncoding),
    ("upgrade", .matchingUpgrade, .upgrade)]

/-- What the value of a header with this name is about. -/
def about (name : List UInt8) : HeaderState :=
  ((names.find? fun x ↦ letters x.1 == name.map lower).map fun x ↦ x.2.2).getD .general

/-- What is made of a state behind a name: those in which not all of a name has been seen are as
good as none. -/
def HeaderState.known : HeaderState → HeaderState
  | .connection => .connection
  | .contentLength => .contentLength
  | .transferEncoding => .transferEncoding
  | .upgrade => .upgrade
  | _ => .general

theorem HeaderState.eq_of_known {state state' : HeaderState} (h : state.known = state')
    (hne : state' ≠ .general) : state = state' := by
  cases state <;> first | exact h | exact absurd h.symm hne

/-- What two of the names begin with, and the states that belong to it. -/
def beginnings : List (List UInt8 × HeaderState) :=
  [([99], .c), ([99, 111], .co), ([99, 111, 110], .con)]

/-- With what one name is left, and the states that belong to it. -/
def branches : List (List UInt8 × HeaderState) :=
  [([112], .matchingProxyConnection), ([116], .matchingTransferEncoding), ([117], .matchingUpgrade),
    ([99, 111, 110, 110], .matchingConnection), ([99, 111, 110, 116], .matchingContentLength)]

/-- The names, letter by letter: none is the beginning of another, and what the beginnings of the
names are. -/
theorem names_table :
    names.map (fun x ↦ letters x.1)
      = [[99, 111, 110, 110, 101, 99, 116, 105, 111, 110],
        [112, 114, 111, 120, 121, 45, 99, 111, 110, 110, 101, 99, 116, 105, 111, 110],
        [99, 111, 110, 116, 101, 110, 116, 45, 108, 101, 110, 103, 116, 104],
        [116, 114, 97, 110, 115, 102, 101, 114, 45, 101, 110, 99, 111, 100, 105, 110, 103],
        [117, 112, 103, 114, 97, 100, 101]]
      ∧ (∀ x ∈ names, ∀ y ∈ names, letters x.1 <+: letters y.1 → x = y)
      ∧ (∀ x ∈ names, names.find? (fun y ↦ letters y.1 == letters x.1) = some x)
      ∧ (∀ x ∈ names, letters x.1 ≠ [] ∧ (letters x.1).all isTchar = true)
      ∧ (∀ b ∈ beginnings, ∀ y ∈ names, b.1 ≠ letters y.1)
      ∧ ∀ b ∈ branches, ∃ x ∈ names, b.1 <+: letters x.1 ∧ b.1 ≠ letters x.1
        ∧ (∀ y ∈ names, b.1 <+: letters y.1 → y = x) ∧ x.2.1 = b.2 := by
  decide +kernel

theorem names_prefix : ∀ x ∈ names, ∀ y ∈ names, letters x.1 <+: letters y.1 → x = y :=
  names_table.2.1

theorem find_names : ∀ x ∈ names, names.find? (fun y ↦ letters y.1 == letters x.1) = some x :=
  names_table.2.2.1

theorem isToken_names : ∀ x ∈ names, IsToken (letters x.1) := by
  intro x hx
  obtain ⟨hne, hall⟩ := names_table.2.2.2.1 x hx
  exact ⟨hne, List.all_eq_true.mp hall⟩

theorem beginnings_ne : ∀ b ∈ beginnings, ∀ y ∈ names, b.1 ≠ letters y.1 :=
  names_table.2.2.2.2.1

/-! ## What is known of a name -/

/-- What the parser knows behind the letters `s` of a name. -/
inductive Tracks (p : Parser) (s : List UInt8) : Prop
  /-- Two of the names begin like this. -/
  | begun {state : HeaderState} (hs : (s, state) ∈ beginnings) (hstate : p.headerState = state)
    (hindex : p.index + 1 = s.length)
  /-- One of the names begins like this, and has more letters. -/
  | matching {x : String × HeaderState × HeaderState} (hx : x ∈ names) (hs : s <+: letters x.1)
    (hne : s ≠ letters x.1) (honly : ∀ y ∈ names, s <+: letters y.1 → y = x)
    (hstate : p.headerState = x.2.1) (hindex : p.index + 1 = s.length)
  /-- It is one of the names. -/
  | found {x : String × HeaderState × HeaderState} (hx : x ∈ names) (hs : s = letters x.1)
    (hstate : p.headerState = x.2.2)
  /-- None of the names begins like this. -/
  | other (hs : ∀ x ∈ names, ¬s <+: letters x.1) (hstate : p.headerState = .general)

section Tracks

variable {s : List UInt8} {p : Parser} {c : UInt8} {x : String × HeaderState × HeaderState}

theorem forall_names {P : List UInt8 → Prop} :
    (∀ x ∈ names, P (letters x.1)) ↔ ∀ w ∈ names.map (fun x ↦ letters x.1), P w :=
  List.forall_mem_map.symm

theorem matchField_matching (hx : x ∈ names) (hstate : p.headerState = x.2.1) :
    p.matchField c = p.matchNext x.1 c .general x.2.2 := by
  rw [matchField, hstate]
  simp only [names, List.mem_cons, List.not_mem_nil, or_false] at hx
  rcases hx with rfl | rfl | rfl | rfl | rfl <;> rfl

theorem matchField_found (hx : x ∈ names) (hstate : p.headerState = x.2.2) :
    (p.matchField c).headerState = .general := by
  rw [matchField, hstate]
  simp only [names, List.mem_cons, List.not_mem_nil, or_false] at hx
  rcases hx with rfl | rfl | rfl | rfl | rfl <;> rfl

theorem tracks_matchNext (hx : x ∈ names) (hs : s <+: letters x.1) (hne : s ≠ letters x.1)
    (honly : ∀ y ∈ names, s <+: letters y.1 → y = x) (hstate : p.headerState = x.2.1)
    (hindex : p.index + 1 = s.length) :
    (p.matchNext x.1 c .general x.2.2).Tracks (s ++ [c]) := by
  obtain ⟨rest, hrest⟩ := hs
  cases rest with
  | nil => exact absurd (hrest.symm.trans (List.append_nil s)).symm hne
  | cons d rest =>
    have hlength : x.1.length = s.length + (rest.length + 1) := by
      rw [← length_letters, ← hrest, List.length_append, List.length_cons]
    have hchar : charAt x.1 s.length = d := by
      have hat : charAt x.1 s.length = (s ++ d :: rest).getD s.length 0 := by
        rw [hrest]
        rfl
      rw [hat, List.getD_eq_getElem?_getD, List.getElem?_append_right (Nat.le_refl _), Nat.sub_self]
      rfl
    have hlt : ¬x.1.length < s.length := by omega
    rw [matchNext, hindex, hchar]
    simp only [hlt, false_or]
    by_cases hc : c = d
    · subst hc
      have hletters : letters x.1 = s ++ [c] ++ rest := by
        rw [List.append_assoc]
        exact hrest.symm
      rw [if_neg (not_not.mpr rfl)]
      by_cases hend : s.length = x.1.length - 1
      · have hnil : rest = [] := List.length_eq_zero_iff.mp (by omega)
        rw [if_pos hend]
        refine .found hx ?_ rfl
        rw [hletters, hnil, List.append_nil]
      · rw [if_neg hend]
        refine .matching hx ⟨rest, hletters.symm⟩ ?_ ?_ hstate ?_
        · intro heq
          have := congrArg List.length heq
          rw [length_letters, List.length_append, List.length_singleton] at this
          omega
        · exact fun y hy hprefix ↦ honly y hy ((List.prefix_append s [c]).trans hprefix)
        · rw [List.length_append]
          rfl
    · rw [if_pos hc]
      refine .other (fun y hy hprefix ↦ hc ?_) rfl
      obtain rfl := honly y hy ((List.prefix_append s [c]).trans hprefix)
      rw [← hrest, List.prefix_append_right_inj, List.cons_prefix_cons] at hprefix
      exact hprefix.1

theorem tracks_branch {state : HeaderState} (hb : (s, state) ∈ branches)
    (hstate : p.headerState = state) (hindex : p.index + 1 = s.length) : p.Tracks s := by
  obtain ⟨x, hx, hs, hne, honly, hmatching⟩ := names_table.2.2.2.2.2 _ hb
  exact .matching hx hs hne honly (hstate.trans hmatching.symm) hindex

theorem tracks_begun {state : HeaderState} (hs : (s, state) ∈ beginnings)
    (hstate : p.headerState = state) (hindex : p.index + 1 = s.length) :
    (p.matchField c).Tracks (s ++ [c]) := by
  simp only [beginnings, List.mem_cons, Prod.mk.injEq, List.not_mem_nil, or_false] at hs
  rw [matchField, hstate]
  rcases hs with ⟨rfl, rfl⟩ | ⟨rfl, rfl⟩ | ⟨rfl, rfl⟩
  · by_cases hc : c = 111
    · subst hc
      exact .begun (show ([99, 111], HeaderState.co) ∈ beginnings by decide) rfl
        (congrArg (· + 1) hindex)
    · refine .other ((forall_names (P := fun w ↦ ¬[99, c] <+: w)).mpr ?_) (if_neg hc)
      rw [names_table.1]
      simp [hc]
  · by_cases hc : c = 110
    · subst hc
      exact .begun (show ([99, 111, 110], HeaderState.con) ∈ beginnings by decide) rfl
        (congrArg (· + 1) hindex)
    · refine .other ((forall_names (P := fun w ↦ ¬[99, 111, c] <+: w)).mpr ?_) (if_neg hc)
      rw [names_table.1]
      simp [hc]
  · by_cases hc : c = 110 ∨ c = 116
    · rcases hc with rfl | rfl
      · exact tracks_branch (show (_, HeaderState.matchingConnection) ∈ branches by decide) rfl
          (congrArg (· + 1) hindex)
      · exact tracks_branch (show (_, HeaderState.matchingContentLength) ∈ branches by decide) rfl
          (congrArg (· + 1) hindex)
    · rw [not_or] at hc
      refine .other ((forall_names (P := fun w ↦ ¬[99, 111, 110, c] <+: w)).mpr ?_) ?_
      · rw [names_table.1]
        simp [hc]
      · exact (if_neg hc.1).trans (if_neg hc.2)

theorem Tracks.matchField (h : p.Tracks s) : (p.matchField c).Tracks (s ++ [c]) := by
  cases h with
  | begun hs hstate hindex => exact tracks_begun hs hstate hindex
  | matching hx hs hne honly hstate hindex =>
    rw [matchField_matching hx hstate]
    exact tracks_matchNext hx hs hne honly hstate hindex
  | found hx hs hstate =>
    refine .other (fun y hy hprefix ↦ ?_) (matchField_found hx hstate)
    obtain rfl := names_prefix _ hx y hy ((List.prefix_append _ [c]).trans (hs ▸ hprefix))
    have hle := hprefix.length_le
    rw [hs, List.length_append] at hle
    exact absurd hle (Nat.not_succ_le_self _)
  | other hs hstate =>
    refine .other (fun x hx hprefix ↦ hs x hx ((List.prefix_append s [c]).trans hprefix)) ?_
    rw [Parser.matchField, hstate]
    exact hstate

theorem tracks_first (hindex : p.index = 0) (hstate : p.headerState = firstHeaderState c) :
    p.Tracks [c] := by
  have hlength : p.index + 1 = [c].length := congrArg (· + 1) hindex
  by_cases hc : c = 99
  · subst hc
    exact .begun (show ([99], HeaderState.c) ∈ beginnings by decide) hstate hlength
  · by_cases hmore : c = 112 ∨ c = 116 ∨ c = 117
    · rcases hmore with rfl | rfl | rfl
      all_goals exact tracks_branch (by decide) hstate hlength
    · simp only [not_or] at hmore
      obtain ⟨hp, ht, hu⟩ := hmore
      refine .other ((forall_names (P := fun w ↦ ¬[c] <+: w)).mpr ?_) ?_
      · rw [names_table.1]
        simp [hc, hp, ht, hu]
      · rw [hstate, firstHeaderState]
        exact (if_neg hc).trans ((if_neg hp).trans ((if_neg ht).trans (if_neg hu)))

theorem find_names_eq_none (h : ∀ y ∈ names, s ≠ letters y.1) :
    names.find? (fun y ↦ letters y.1 == s) = none := by
  rw [List.find?_eq_none]
  exact fun y hy heq ↦ h y hy (beq_iff_eq.mp heq).symm

/-- The states that belong to names. -/
def HeaderState.ofName (state : HeaderState) : Prop :=
  state ≠ .contentLengthWs ∧ state ≠ .matchingConnectionTokenStart

theorem known_names : ∀ x ∈ names, x.2.1.known = .general ∧ x.2.2.known = x.2.2 := by
  decide

theorem known_beginnings : ∀ b ∈ beginnings, b.2.known = .general := by
  decide

theorem ofName_names : ∀ x ∈ names, x.2.1.ofName ∧ x.2.2.ofName := by
  unfold HeaderState.ofName
  decide

theorem ofName_beginnings : ∀ b ∈ beginnings, b.2.ofName := by
  unfold HeaderState.ofName
  decide

theorem Tracks.ofName (h : p.Tracks s) : p.headerState.ofName := by
  cases h with
  | begun hs hstate hindex => exact hstate ▸ ofName_beginnings _ hs
  | matching hx hs hne honly hstate hindex => exact hstate ▸ (ofName_names _ hx).1
  | found hx hs hstate => exact hstate ▸ (ofName_names _ hx).2
  | other hs hstate =>
    rw [hstate]
    exact ⟨HeaderState.noConfusion, HeaderState.noConfusion⟩

theorem headerValueStart_known (h : p.headerState.ofName) (ch : UInt8) :
    p.headerValueStart ch
      = ({ p with headerState := p.headerState.known } : Parser).headerValueStart ch := by
  obtain ⟨hws, hstart⟩ := h
  rw [headerValueStart, headerValueStart]
  cases hstate : p.headerState
  case contentLengthWs => exact absurd hstate hws
  case matchingConnectionTokenStart => exact absurd hstate hstart
  all_goals rfl

theorem Tracks.congr {q : Parser} (h : p.Tracks s) (hstate : q.headerState = p.headerState)
    (hindex : q.index = p.index) : q.Tracks s := by
  cases h with
  | begun hs hstate' hindex' => exact .begun hs (hstate.trans hstate') (hindex ▸ hindex')
  | matching hx hs hne honly hstate' hindex' =>
    exact .matching hx hs hne honly (hstate.trans hstate') (hindex ▸ hindex')
  | found hx hs hstate' => exact .found hx hs (hstate.trans hstate')
  | other hs hstate' => exact .other hs (hstate.trans hstate')

/-- **Behind the name it is known which one it was.** -/
theorem Tracks.known_eq {name : List UInt8} (h : p.Tracks (name.map lower)) :
    p.headerState.known = about name := by
  rw [about]
  generalize name.map lower = s at h
  cases h with
  | begun hs hstate hindex =>
    rw [hstate, known_beginnings _ hs, find_names_eq_none (beginnings_ne _ hs)]
    rfl
  | matching hx hs hne honly hstate hindex =>
    have hnone : ∀ y ∈ names, s ≠ letters y.1 := by
      intro y hy heq
      obtain rfl := honly y hy (heq ▸ List.prefix_refl _)
      exact hne heq
    rw [hstate, (known_names _ hx).1, find_names_eq_none hnone]
    rfl
  | found hx hs hstate =>
    rw [hstate, (known_names _ hx).2, hs, find_names _ hx]
    rfl
  | other hs hstate =>
    rw [hstate, find_names_eq_none fun y hy heq ↦ hs y hy (heq ▸ List.prefix_refl _)]
    rfl

theorem about_names {name : List UInt8} (hx : x ∈ names) (hname : name.map lower = letters x.1) :
    about name = x.2.2 := by
  rw [about, hname, find_names x hx]
  rfl

end Tracks

/-! ## Between two lines -/

/-- The states in which a line of a head may begin: behind the first line of a message, behind a
header, and behind a header without a value. -/
def State.beginsLine : State → Bool
  | .headerFieldStart | .headerValueLws | .headerValueDiscardLws => true
  | _ => false

/-- The parser when the line before is concluded. -/
def concluded (p : Parser) : Parser :=
  { p with
    state := .headerFieldStart
    flags := if p.state = .headerFieldStart then p.flags else p.flags.conclude p.headerState }

/-- The header before is a length, and has no value. -/
def LacksLength (p : Parser) : Prop :=
  p.state = .headerValueDiscardLws ∧ p.headerState = .contentLength

instance decidableLacksLength (p : Parser) : Decidable p.LacksLength :=
  inferInstanceAs (Decidable (_ ∧ _))

/-- The call for the value of the line before, if that has none. -/
def blankValue (p : Parser) : List Call :=
  if p.state = .headerValueDiscardLws then [.data (.headerValue, 0) []] else []

section Between

variable {add : List Call → Call → List Call} {p : Parser} {ch : UInt8} {rest : List UInt8}
  {tr : List Call}

theorem mark_of_beginsLine (h : p.state.beginsLine = true) : p.state.mark = none := by
  cases hstate : p.state
  case headerFieldStart | headerValueLws | headerValueDiscardLws => rfl
  all_goals exact absurd ((congrArg State.beginsLine hstate).symm.trans h) Bool.false_ne_true

theorem contentLength_conclude (f : Flags) (state : HeaderState) :
    (f.conclude state).contentLength = f.contentLength := by
  cases state <;> rfl

theorem contentLength_concluded : p.concluded.flags.contentLength = p.flags.contentLength := by
  rw [concluded]
  dsimp only
  split_ifs
  · rfl
  · exact contentLength_conclude _ _

theorem Sound.concluded (h : p.Sound) : p.concluded.Sound :=
  ⟨h.errno, h.nread, sized_of_state rfl⟩

theorem byte_beginsLine (h : p.state.beginsLine = true) (herrno : p.httpErrno = .ok)
    (hlt : p.nread < maxHeaderSize) :
    p.byte ch = ({ p with nread := p.nread + 1 } : Parser).step ch := by
  cases hstate : p.state
  case headerFieldStart | headerValueLws | headerValueDiscardLws =>
    rw [byte_of_lt (by rw [hstate]; rfl) herrno hlt, byteStep]
    simp only [hstate]
  all_goals exact absurd ((congrArg State.beginsLine hstate).symm.trans h) Bool.false_ne_true

theorem fed_after_blank (s : Step) :
    (s.after [.mark .headerValue, .dataNoadvance .headerValue]).fed add none tr ch rest
      = s.fed add none (add tr (.data (.headerValue, 0) [])) ch rest := rfl

/-- **The first byte of a line concludes the line before**, unless it is a space. -/
theorem feed_concluded (h : p.state.beginsLine = true) (herrno : p.httpErrno = .ok)
    (hlt : p.nread < maxHeaderSize) (hspace : ¬(ch = ' '.toUInt8 ∨ ch = 9)) :
    p.feed add none tr (ch :: rest)
      = if p.LacksLength then .failed
        else p.concluded.feed add none (p.blankValue.foldl add tr) (ch :: rest) := by
  have hconcluded : p.concluded.byte ch
      = ({ p.concluded with nread := p.nread + 1 } : Parser).headerFieldStart ch :=
    byte_beginsLine (p := p.concluded) rfl herrno hlt
  have hlacks : p.LacksLength → p.state = .headerValueDiscardLws := And.left
  rw [feed_cons, feed_cons, hconcluded, byte_beginsLine h herrno hlt, blankValue, concluded]
  cases hstate : p.state
  case headerFieldStart =>
    rw [if_neg (fun h ↦ State.noConfusion (hstate.symm.trans (hlacks h)))]
    simp only [step]
    rfl
  case headerValueLws =>
    rw [if_neg (fun h ↦ State.noConfusion (hstate.symm.trans (hlacks h)))]
    simp only [step, headerValueLws, if_neg hspace]
    rfl
  case headerValueDiscardLws =>
    simp only [step, headerValueDiscardLws, if_neg hspace]
    by_cases hlength : p.headerState = .contentLength
    · rw [if_pos hlength, if_pos ⟨hstate, hlength⟩]
      rfl
    · rw [if_neg hlength, if_neg fun h ↦ hlength h.2, fed_after_blank]
      rfl
  all_goals exact absurd ((congrArg State.beginsLine hstate).symm.trans h) Bool.false_ne_true

end Between

/-! ## The name of a header -/

section Name

variable {add : List Call → Call → List Call} {p : Parser} {name rest : List UInt8}
  {tr : List Call}

theorem token_of_isTchar {c : UInt8} (h : isTchar c = true) : token c = lower c ∧ token c ≠ 0 := by
  have htoken : token c = lower c := if_pos h
  refine ⟨htoken, ?_⟩
  rw [htoken, lower]
  rintro hzero
  split_ifs at hzero with hupper
  · simp only [Bool.and_eq_true, decide_eq_true_eq, UInt8.le_iff_toNat_le] at hupper
    have hnat := congrArg UInt8.toNat hzero
    rw [UInt8.toNat_add] at hnat
    have h65 : (65 : UInt8).toNat = 65 := rfl
    have h90 : (90 : UInt8).toNat = 90 := rfl
    have h32 : (32 : UInt8).toNat = 32 := rfl
    have h0 : (0 : UInt8).toNat = 0 := rfl
    omega
  · subst hzero
    exact absurd h (by decide)

/-- A name neither ends a line nor goes on with one. -/
theorem ne_of_isTchar {c : UInt8} (h : isTchar c = true) :
    c ≠ cr ∧ c ≠ lf ∧ ¬(c = ' '.toUInt8 ∨ c = 9) := by
  refine ⟨?_, ?_, ?_⟩
  · rintro rfl
    exact absurd h (by decide)
  · rintro rfl
    exact absurd h (by decide)
  · rintro (rfl | rfl)
    · exact absurd h (by decide)
    · exact absurd h (by decide)

theorem matchField_frame {c : UInt8} : p.matchField c
    = { p with headerState := (p.matchField c).headerState, index := (p.matchField c).index } := by
  unfold matchField matchNext
  dsimp only
  split <;> (try split_ifs) <;> rfl

theorem isTchar_of_lower {c : UInt8} (h : isTchar (lower c) = true) : isTchar c = true := by
  rw [lower] at h
  split_ifs at h with hupper
  · rw [isTchar, hupper]
    rfl
  · exact h

theorem isToken_of_lower {s : List UInt8} (h : name.map lower = s) (hs : IsToken s) :
    IsToken name := by
  refine ⟨?_, fun c hc ↦ isTchar_of_lower (hs.2 _ (h ▸ List.mem_map_of_mem hc))⟩
  rintro rfl
  exact hs.1 h.symm

theorem foldlM_fieldChar {s : List UInt8} (h : ∀ c ∈ name, isTchar c = true) (hs : p.Tracks s) :
    ∃ q, name.foldlM fieldChar p = some q ∧ q.Tracks (s ++ name.map lower)
      ∧ q = { p with headerState := q.headerState, index := q.index } := by
  induction name generalizing p s with
  | nil => exact ⟨p, rfl, by rwa [List.map_nil, List.append_nil], rfl⟩
  | cons c name ih =>
    obtain ⟨hc, hname⟩ := List.forall_mem_cons.mp h
    obtain ⟨hlower, hne⟩ := token_of_isTchar hc
    obtain ⟨q, hq, htracks, hframe⟩ := ih hname (hs.matchField (c := lower c))
    refine ⟨q, ?_, ?_, ?_⟩
    · rw [List.foldlM_cons, fieldChar, if_neg hne, hlower]
      exact hq
    · rwa [List.append_assoc] at htracks
    · rw [hframe, matchField_frame]

theorem feed_token (hadd : Adds add) (hname : IsToken name) (hstate : p.state = .headerFieldStart)
    (herrno : p.httpErrno = .ok) (hlt : p.nread + name.length < maxHeaderSize) :
    ∃ q : Parser, p.feed add none tr (name ++ 58 :: rest)
        = q.feed add none (add tr (.data (p.tag .headerField) name)) rest
      ∧ q.Tracks (name.map lower)
      ∧ q = { p with
          state := .headerValueDiscardWs, headerState := q.headerState, index := q.index
          nread := p.nread + name.length + 1 } := by
  obtain ⟨hne, hchars⟩ := hname
  obtain ⟨c, name, rfl⟩ := List.exists_cons_of_ne_nil hne
  obtain ⟨hc, hname⟩ := List.forall_mem_cons.mp hchars
  obtain ⟨hlower, htoken⟩ := token_of_isTchar hc
  rw [List.length_cons] at hlt
  obtain ⟨hcr, hlf, -⟩ := ne_of_isTchar hc
  -- the first letter
  obtain ⟨q₁, hq₁⟩ : ∃ q₁ : Parser, q₁ = { p with
      nread := p.nread + 1, index := 0, state := .headerField
      headerState := firstHeaderState (token c) } := ⟨_, rfl⟩
  have hfirst : p.byte c = ⟨q₁, [.mark .headerField], .next⟩ := by
    rw [byte_of_lt (by rw [hstate]; rfl) herrno (by omega), byteStep, hq₁]
    simp only [hstate, step, headerFieldStart, if_neg hcr, if_neg hlf, if_neg htoken]
  have htracks : q₁.Tracks [lower c] :=
    tracks_first (by rw [hq₁]) (by rw [hq₁, hlower])
  -- the other letters
  obtain ⟨q, hq, hbehind, hframe⟩ := foldlM_fieldChar hname htracks
  have hnread : q₁.nread = p.nread + 1 := by rw [hq₁]
  have hpassed : q₁.feed add (some .headerField)
      (extend (add tr (.data (p.tag .headerField) [])) [c]) (name ++ 58 :: rest) = _ :=
    passes_fieldChar.feed (by rw [hq₁]) (by rw [hq₁]; exact herrno) hq (by omega)
  -- the colon
  rw [hq₁] at hframe
  have hcolon : ({ q with nread := q₁.nread + name.length } : Parser).byte 58
      = ⟨{ q with nread := q₁.nread + name.length + 1, state := .headerValueDiscardWs },
        [.data .headerField], .next⟩ := by
    rw [byte_of_lt (by rw [hframe]; rfl) (by rw [hframe]; exact herrno) (by dsimp only; omega),
      byteStep_headerField (by rw [hframe])]
    rfl
  refine ⟨{ q with nread := q₁.nread + name.length + 1, state := .headerValueDiscardWs },
    ?_, hbehind.congr rfl rfl, ?_⟩
  · rw [List.cons_append, feed_cons, hfirst]
    refine hpassed.trans ?_
    rw [feed_cons, hcolon, extend_extend, hadd.extend_data]
    rfl
  · rw [hframe, hnread, List.length_cons, Nat.add_assoc p.nread 1, Nat.add_comm 1]

/-- **The name of a header and the colon**, wherever a line may begin. -/
theorem feed_name (hadd : Adds add) (hname : IsToken name) (hline : p.state.beginsLine = true)
    (herrno : p.httpErrno = .ok) (hlt : p.nread + name.length < maxHeaderSize) :
    ∃ q : Parser, p.feed add none tr (name ++ 58 :: rest)
        = (if p.LacksLength then .failed
          else q.feed add none
            (add (p.blankValue.foldl add tr) (.data (.headerField, 0) name)) rest)
      ∧ q.Tracks (name.map lower)
      ∧ q = { p.concluded with
          state := .headerValueDiscardWs, headerState := q.headerState, index := q.index
          nread := p.nread + name.length + 1 } := by
  obtain ⟨q, hq, htracks, hframe⟩ : ∃ q : Parser,
      p.concluded.feed add none (p.blankValue.foldl add tr) (name ++ 58 :: rest) = _ ∧ _ ∧ _ :=
    feed_token hadd hname rfl herrno hlt
  obtain ⟨c, name, rfl⟩ := List.exists_cons_of_ne_nil hname.1
  obtain ⟨-, -, hspace⟩ := ne_of_isTchar (hname.2 c List.mem_cons_self)
  have hfirst : p.feed add none tr (c :: (name ++ 58 :: rest)) = _ :=
    feed_concluded hline herrno (Nat.lt_of_le_of_lt (Nat.le_add_right _ _) hlt) hspace
  exact ⟨q, hfirst.trans (if_congr Iff.rfl rfl hq), htracks, hframe⟩

/-- **What is known behind the name of a header** is the name, in which upper case is as good as
lower case, whatever has been compared on the way: its value is read as that of a header with this
name. The line before is concluded, which only a length without a value can not be. -/
theorem execute_name (h : p.Sound) (hline : p.state.beginsLine = true) (hname : IsToken name)
    (hlt : p.nread + name.length < maxHeaderSize) :
    let r := p.execute (name ++ [58])
    (r.parser.httpErrno = .ok ↔ ¬p.LacksLength)
      ∧ (¬p.LacksLength →
        (∀ ch, r.parser.headerValueStart ch
            = ({ r.parser with headerState := about name } : Parser).headerValueStart ch)
          ∧ (about name ≠ .general → r.parser.headerState = about name)
          ∧ r.parsed = name.length + 1
          ∧ r.calls.map Prod.snd = p.blankValue ++ [.data (.headerField, 0) name]
          ∧ r.parser = { p.concluded with
              state := .headerValueDiscardWs, headerState := r.parser.headerState
              index := r.parser.index, nread := p.nread + name.length + 1 }) := by
  have hmax : maxHeaderSize = 81920 := rfl
  have hsettles := execute_settles [] adds_keep h
    (show name ++ [58] ≠ [] from List.append_ne_nil_of_right_ne_nil _ (List.cons_ne_nil _ _))
    (by rw [List.length_append, List.length_singleton]; omega)
  obtain ⟨q, hq, htracks, hframe⟩ : ∃ q : Parser, p.feed keep none [] (name ++ [58]) = _ ∧ _ ∧ _ :=
    feed_name adds_keep hname hline h.errno hlt
  rw [begun, mark_of_beginsLine hline] at hsettles
  dsimp only at hsettles ⊢
  rw [hq] at hsettles
  by_cases hlacks : p.LacksLength
  · rw [if_pos hlacks] at hsettles
    exact ⟨iff_of_false hsettles (not_not.mpr hlacks), fun hno ↦ absurd hlacks hno⟩
  rw [if_neg hlacks] at hsettles
  obtain ⟨hparser, hparsed, hcalls, hready⟩ := hsettles
  rw [hparser]
  refine ⟨iff_of_true hready.sound.errno hlacks, fun _ ↦ ⟨fun ch ↦ ?_,
    fun hne ↦ HeaderState.eq_of_known htracks.known_eq hne, ?_, ?_, hframe⟩⟩
  · rw [headerValueStart_known htracks.ofName, htracks.known_eq]
  · rw [hparsed, List.length_append]
    rfl
  · rw [foldl_keep, foldl_keep, List.append_nil, List.append_nil, List.reverse_eq_iff] at hcalls
    rw [hcalls, keep, List.reverse_cons, List.reverse_reverse]

/-- The parser behind the first line of a request. -/
def behindRequestLine : Parser :=
  { init .httpRequest with
    method := .get, state := .headerFieldStart, nread := 16, httpMajor := 1, httpMinor := 1
    contentLength := ullongMax }

/-- The parser behind a line `Connection: close`. -/
def behindClose : Parser :=
  { behindRequestLine with
    state := .headerValueLws, headerState := .connectionClose, index := 4, nread := 35 }

theorem behindClose_sound : behindClose.Sound :=
  ⟨rfl, by decide, fun h ↦ absurd h (by decide)⟩

/-- The letter case makes no difference, and the line before is concluded. -/
theorem execute_name_mixed_case :
    (behindClose.execute (letters "uPGRADE" ++ [58])).parser.headerState = .upgrade
      ∧ (behindClose.execute (letters "uPGRADE" ++ [58])).parser.flags.connectionClose = true := by
  have hletters : (letters "uPGRADE").map lower = letters "upgrade" := by decide +kernel
  have hx : ("upgrade", HeaderState.matchingUpgrade, HeaderState.upgrade) ∈ names := by decide
  have hlength : (letters "uPGRADE").length = 7 := length_letters _
  obtain ⟨-, hstate, -, -, hframe⟩ := (execute_name behindClose_sound rfl
    (isToken_of_lower hletters (isToken_names _ hx)) (by rw [hlength]; decide)).2 (by decide)
  rw [about_names hx hletters] at hstate
  refine ⟨hstate HeaderState.noConfusion, ?_⟩
  rw [hframe]
  rfl

end Name

end Knet.Http.Parser
