import Knet.Http.Parser.Bytes

/-!
# Many bytes at once

The loops over the name and the value of a header go on as long as the characters are such that one
byte after the other would be passed too. The machine of the bytes passes them with nothing but one
piece of data (`Passes.feed`), unless the head gets too long (`Passes.feed_overflow`).

Where nothing is looked for in a value, the code passes up to `max_header_size` bytes without
looking, and one byte more without looking at it at all. Then the head is too long.
-/

namespace Knet.Http.Parser

open Pieces

/-! ## The bytes that a loop goes over -/

/-- A byte of a name with which the name goes on. -/
def fieldChar (p : Parser) (ch : UInt8) : Option Parser :=
  if token ch = 0 then none else some (p.matchField (token ch))

/-- At this byte the loop over a value does not go on. -/
def Stops (lenient : Bool) (ch : UInt8) : Prop :=
  ch = cr ∨ ch = lf ∨ (!lenient ∧ !isHeaderChar ch)

instance (lenient : Bool) (ch : UInt8) : Decidable (Stops lenient ch) :=
  inferInstanceAs (Decidable (_ ∨ _))

/-- A byte of a value with which the value goes on. -/
def valueChar (p : Parser) (ch : UInt8) : Option Parser :=
  if Stops p.lenientHttpHeaders ch then none else p.matchValue ch

/-- The same but for what is found out about a header. -/
def Within (p q : Parser) : Prop :=
  q = { p with
    headerState := q.headerState, index := q.index, contentLength := q.contentLength
    flags := q.flags }

section Within

variable {p q : Parser} {c ch : UInt8} {n : ℕ}

theorem matchNext_within {text : String} {failed found : HeaderState} :
    p.Within (p.matchNext text c failed found) := by
  unfold Within matchNext
  dsimp only
  split_ifs <;> rfl

theorem matchField_within : p.Within (p.matchField c) := by
  unfold matchField
  split <;> first | exact matchNext_within | rfl

theorem matchValue_within (h : p.matchValue ch = some q) : p.Within q := by
  unfold matchValue at h
  dsimp only at h
  split at h <;> (try split_ifs at h) <;> obtain rfl := Option.some.inj h <;> first
    | exact matchNext_within
    | exact rfl

theorem matchNext_nread {text : String} {failed found : HeaderState} :
    ({ p with nread := n } : Parser).matchNext text c failed found
      = { p.matchNext text c failed found with nread := n } := by
  unfold matchNext
  dsimp only
  split_ifs <;> rfl

theorem matchField_nread :
    ({ p with nread := n } : Parser).matchField c = { p.matchField c with nread := n } := by
  obtain ⟨type, flags, state, headerState⟩ := p
  cases headerState <;> first | exact matchNext_nread | rfl

theorem matchValue_nread :
    ({ p with nread := n } : Parser).matchValue ch
      = (p.matchValue ch).map fun q ↦ { q with nread := n } := by
  obtain ⟨type, flags, state, headerState⟩ := p
  cases headerState <;> first
    | exact congrArg some matchNext_nread
    | rfl
    | (dsimp only [matchValue]; split_ifs <;> rfl)

end Within

/-- In this state the bytes are passed that `char` lets through, and belong to one piece of data. -/
structure Passes (char : Parser → UInt8 → Option Parser) (state : State) (kind : Kind) :
    Prop where
  mark : state.mark = some kind
  parsing : state.parsingHeader = true
  within : ∀ {p q : Parser} {ch}, char p ch = some q → p.Within q
  nread : ∀ {p : Parser} {ch n},
    char { p with nread := n } ch = (char p ch).map fun q ↦ { q with nread := n }
  byte : ∀ {p q : Parser} {ch}, p.state = state → p.httpErrno = .ok → p.nread < maxHeaderSize →
    char p ch = some q → p.byte ch = ⟨{ q with nread := p.nread + 1 }, [], .next⟩

theorem Within.tag {p q : Parser} (h : p.Within q) (kind : Kind) : q.tag kind = p.tag kind := by
  rw [h]
  rfl

/-! ## Counting -/

section Counting

variable {p : Parser} {v : ℕ}

theorem countHeaderSize_of_le (h : p.nread + v ≤ maxHeaderSize) :
    p.countHeaderSize v = { p with nread := p.nread + v } := by
  have hmod : (p.nread + v) % 2 ^ 32 = p.nread + v :=
    Nat.mod_eq_of_lt (h.trans_lt (by decide))
  rw [countHeaderSize, hmod, if_neg h.not_gt]

theorem countHeaderSize_of_lt (h : maxHeaderSize < p.nread + v) (hv : p.nread + v < 2 ^ 32) :
    (p.countHeaderSize v).httpErrno = .headerOverflow := by
  rw [countHeaderSize, Nat.mod_eq_of_lt hv]
  exact if_pos h

theorem byte_overflow {ch : UInt8} (hparsing : p.state.parsingHeader = true)
    (h : p.nread = maxHeaderSize) : (p.byte ch).out = .error := by
  have herrno : (p.countHeaderSize 1).httpErrno = .headerOverflow :=
    countHeaderSize_of_lt (by omega) (by rw [h]; decide)
  have hne : (p.countHeaderSize 1).httpErrno ≠ .ok := by
    rw [herrno]
    exact Errno.noConfusion
  simp only [byte, countByte, hparsing, if_true]
  rw [if_pos hne]

theorem feed_overflow {add : List Call → Call → List Call} {mark : Option Kind} {tr : List Call}
    {data : List UInt8} (hdata : data ≠ []) (hparsing : p.state.parsingHeader = true)
    (h : p.nread = maxHeaderSize) : p.feed add mark tr data = .failed := by
  obtain ⟨ch, rest, rfl⟩ := List.exists_cons_of_ne_nil hdata
  rw [feed]
  simp only [byte_overflow hparsing h]

end Counting

/-! ## Passing -/

theorem foldlM_cons_eq_some {char : Parser → UInt8 → Option Parser} {p q : Parser} {ch : UInt8}
    {taken : List UInt8} (h : (ch :: taken).foldlM char p = some q) :
    ∃ p', char p ch = some p' ∧ taken.foldlM char p' = some q := by
  rw [List.foldlM_cons] at h
  exact Option.bind_eq_some_iff.mp h

namespace Passes

variable {add : List Call → Call → List Call} {char : Parser → UInt8 → Option Parser}
  {state : State} {kind : Kind} (hpasses : Passes char state kind) {p q : Parser} {tr : List Call}
  {taken left : List UInt8}

include hpasses

theorem foldlM_nread {n : ℕ} (h : taken.foldlM char p = some q) :
    taken.foldlM char { p with nread := n } = some { q with nread := n } := by
  induction taken generalizing p with
  | nil => exact congrArg _ (congrArg (fun p : Parser ↦ { p with nread := n }) (Option.some.inj h))
  | cons ch taken ih =>
    obtain ⟨p', hchar, hrest⟩ := foldlM_cons_eq_some h
    rw [List.foldlM_cons, hpasses.nread, hchar]
    exact ih hrest

theorem foldlM_within (h : taken.foldlM char p = some q) : p.Within q := by
  induction taken generalizing p with
  | nil =>
    obtain rfl := Option.some.inj h
    rfl
  | cons ch taken ih =>
    obtain ⟨p', hchar, hrest⟩ := foldlM_cons_eq_some h
    have hq : p'.Within q := ih hrest
    have hp' : p.Within p' := hpasses.within hchar
    rw [Within] at hq hp' ⊢
    rw [hq, hp']

/-- **Many bytes are passed at once**, and are more of the same piece. -/
theorem feed (hstate : p.state = state) (herrno : p.httpErrno = .ok)
    (h : taken.foldlM char p = some q) (hle : p.nread + taken.length ≤ maxHeaderSize) :
    p.feed add (some kind) tr (taken ++ left)
      = Parser.feed add { q with nread := p.nread + taken.length } (some kind) (extend tr taken)
        left := by
  induction taken generalizing p q tr with
  | nil =>
    obtain rfl := Option.some.inj h
    rw [extend_nil]
    rfl
  | cons ch taken ih =>
    obtain ⟨p', hchar, hrest⟩ := foldlM_cons_eq_some h
    rw [List.length_cons] at hle
    have hwithin : p.Within p' := hpasses.within hchar
    have hstate' : p'.state = state := by rw [hwithin, ← hstate]
    have herrno' : p'.httpErrno = .ok := by rw [hwithin, ← herrno]
    have hnext := @ih { p' with nread := p.nread + 1 } _ (extend tr [ch]) hstate' herrno'
      (hpasses.foldlM_nread hrest) (by simp only; omega)
    rw [List.cons_append, feed_cons, hpasses.byte hstate herrno (by omega) hchar]
    refine hnext.trans ?_
    rw [extend_extend, List.length_cons]
    simp only [List.singleton_append, Nat.add_assoc, Nat.add_comm 1]

/-- **The head gets too long within these bytes.** -/
theorem feed_overflow (hstate : p.state = state) (herrno : p.httpErrno = .ok)
    (h : taken.foldlM char p = some q) (hnread : p.nread ≤ maxHeaderSize)
    (hlt : maxHeaderSize < p.nread + taken.length
      ∨ (maxHeaderSize ≤ p.nread + taken.length ∧ left ≠ [])) :
    p.feed add (some kind) tr (taken ++ left) = .failed := by
  -- the bytes are cut where the bound is
  have hcut : taken = taken.take (maxHeaderSize - p.nread)
      ++ taken.drop (maxHeaderSize - p.nread) := (List.take_append_drop _ _).symm
  obtain ⟨q', hq', -⟩ : ∃ q', (taken.take (maxHeaderSize - p.nread)).foldlM char p = some q'
      ∧ (taken.drop (maxHeaderSize - p.nread)).foldlM char q' = some q := by
    rw [hcut, List.foldlM_append] at h
    exact Option.bind_eq_some_iff.mp h
  have hlength : (taken.take (maxHeaderSize - p.nread)).length = maxHeaderSize - p.nread := by
    rw [List.length_take]
    omega
  have hleft : taken.drop (maxHeaderSize - p.nread) ++ left ≠ [] := by
    rcases hlt with hlt | ⟨-, hleft⟩
    · refine List.append_ne_nil_of_left_ne_nil ?_ _
      rw [Ne, List.drop_eq_nil_iff]
      omega
    · exact List.append_ne_nil_of_right_ne_nil _ hleft
  rw [hcut, List.append_assoc, hpasses.feed hstate herrno hq' (by omega)]
  refine Parser.feed_overflow hleft ?_ (by simp only; omega)
  have hwithin : p.Within q' := hpasses.foldlM_within hq'
  have hstate' : q'.state = state := by rw [hwithin, ← hstate]
  rw [← hpasses.parsing, ← hstate']

end Passes

theorem byte_of_lt {p : Parser} {ch : UInt8} (hparsing : p.state.parsingHeader = true)
    (herrno : p.httpErrno = .ok) (hlt : p.nread < maxHeaderSize) :
    p.byte ch = ({ p with nread := p.nread + 1 } : Parser).byteStep ch := by
  have hne : ¬({ p with nread := p.nread + 1 } : Parser).httpErrno ≠ .ok := fun h ↦ h herrno
  simp only [byte, countByte, hparsing, if_true, countHeaderSize_of_le (v := 1) hlt]
  rw [if_neg hne]

theorem byteStep_headerField {p : Parser} {ch : UInt8} (h : p.state = .headerField) :
    p.byteStep ch = p.byteHeaderField ch := by
  rw [byteStep, h]

theorem byteStep_headerValue {p : Parser} {ch : UInt8} (h : p.state = .headerValue) :
    p.byteStep ch = p.byteHeaderValue ch := by
  rw [byteStep, h]

theorem passes_fieldChar : Passes fieldChar .headerField .headerField where
  mark := rfl
  parsing := rfl
  within h := by
    unfold fieldChar at h
    split_ifs at h
    exact Option.some.inj h ▸ matchField_within
  nread := by
    intro p ch n
    unfold fieldChar
    split_ifs
    · rfl
    · exact congrArg some matchField_nread
  byte := by
    intro p q ch hstate herrno hlt h
    unfold fieldChar at h
    split_ifs at h with htoken
    obtain rfl := Option.some.inj h
    rw [byte_of_lt (by rw [hstate]; rfl) herrno hlt,
      byteStep_headerField (p := { p with nread := p.nread + 1 }) hstate, byteHeaderField,
      if_pos htoken, matchField_nread]

theorem passes_valueChar : Passes valueChar .headerValue .headerValue where
  mark := rfl
  parsing := rfl
  within h := by
    unfold valueChar at h
    split_ifs at h
    exact matchValue_within h
  nread := by
    intro p ch n
    unfold valueChar
    dsimp only
    split_ifs
    · rfl
    · exact matchValue_nread
  byte := by
    intro p q ch hstate herrno hlt h
    unfold valueChar at h
    split_ifs at h with hstops
    have hcr : ch ≠ cr := fun hch ↦ hstops (.inl hch)
    have hlf : ch ≠ lf := fun hch ↦ hstops (.inr (.inl hch))
    have hvalid : ¬(!p.lenientHttpHeaders ∧ !isHeaderChar ch) := fun hch ↦ hstops (.inr (.inr hch))
    rw [byte_of_lt (by rw [hstate]; rfl) herrno hlt,
      byteStep_headerValue (p := { p with nread := p.nread + 1 }) hstate, byteHeaderValue,
      if_neg hcr, if_neg hlf, if_neg hvalid, matchValue_nread, h]
    rfl

/-! ## The loops of the code -/

theorem skipTokens_spec (n : ℕ) (rest : List UInt8) :
    ∃ skipped, rest = skipped ++ skipTokens n rest ∧ ∀ ch ∈ skipped, token ch ≠ 0 := by
  induction n generalizing rest with
  | zero => exact ⟨[], rfl, fun _ h ↦ absurd h List.not_mem_nil⟩
  | succ n ih =>
    match rest with
    | [] => exact ⟨[], rfl, fun _ h ↦ absurd h List.not_mem_nil⟩
    | ch :: rest =>
      rw [skipTokens]
      split_ifs with htoken
      · exact ⟨[], rfl, fun _ h ↦ absurd h List.not_mem_nil⟩
      · obtain ⟨skipped, hrest, hskipped⟩ := ih rest
        refine ⟨ch :: skipped, congrArg (ch :: ·) hrest, ?_⟩
        exact List.forall_mem_cons.mpr ⟨htoken, hskipped⟩

theorem foldlM_fieldChar_general {p : Parser} {skipped : List UInt8}
    (hgeneral : p.headerState = .general) (h : ∀ ch ∈ skipped, token ch ≠ 0) :
    skipped.foldlM fieldChar p = some p := by
  induction skipped with
  | nil => rfl
  | cons ch skipped ih =>
    obtain ⟨htoken, hrest⟩ := List.forall_mem_cons.mp h
    have hchar : fieldChar p ch = some p := by
      rw [fieldChar, if_neg htoken, matchField, hgeneral]
    rw [List.foldlM_cons, hchar]
    exact ih hrest

/-- **The loop over a name passes what is passed byte by byte.** -/
theorem fieldLoop_spec (fuel : ℕ) (p : Parser) (rest : List UInt8) (h : rest.length ≤ fuel) :
    ∃ taken left q, rest = taken ++ left ∧ taken.foldlM fieldChar p = some q
      ∧ fieldLoop fuel p rest = (q, left) ∧ ∀ ch ∈ left.head?, token ch = 0 := by
  induction fuel generalizing p rest with
  | zero =>
    obtain rfl := List.length_eq_zero_iff.mp (Nat.le_zero.mp h)
    exact ⟨[], [], p, rfl, rfl, rfl, fun _ h ↦ absurd h (Option.not_mem_none _)⟩
  | succ fuel ih =>
    match rest with
    | [] => exact ⟨[], [], p, rfl, rfl, rfl, fun _ h ↦ absurd h (Option.not_mem_none _)⟩
    | ch :: rest =>
      rw [fieldLoop]
      have hle : rest.length ≤ fuel := Nat.le_of_succ_le_succ h
      split_ifs with htoken hgeneral
      · refine ⟨[], ch :: rest, p, rfl, rfl, rfl, fun ch' hch' ↦ ?_⟩
        rwa [← Option.some.inj hch']
      · obtain ⟨skipped, hrest, hskipped⟩ := skipTokens_spec (maxHeaderSize - 1) rest
        have hlength : (skipTokens (maxHeaderSize - 1) rest).length ≤ fuel := by
          have := congrArg List.length hrest
          rw [List.length_append] at this
          omega
        obtain ⟨taken, left, q, hleft, htaken, hloop, hhead⟩ := ih p _ hlength
        refine ⟨ch :: skipped ++ taken, left, q, ?_, ?_, hloop, hhead⟩
        · rw [List.append_assoc, ← hleft, List.cons_append, ← hrest]
        · rw [List.foldlM_append, foldlM_fieldChar_general hgeneral
            (List.forall_mem_cons.mpr ⟨htoken, hskipped⟩)]
          exact htaken
      · obtain ⟨taken, left, q, hleft, htaken, hloop, hhead⟩ :=
          ih (p.matchField (token ch)) rest hle
        refine ⟨ch :: taken, left, q, congrArg (ch :: ·) hleft, ?_, hloop, hhead⟩
        rw [List.foldlM_cons, fieldChar, if_neg htoken]
        exact htaken

theorem skipValue_spec (lenient : Bool) (n : ℕ) (rest : List UInt8) :
    ∃ skipped, rest = skipped ++ skipValue lenient n rest
      ∧ (∀ ch ∈ skipped, ¬Stops lenient ch)
      ∧ (skipped.length = n ∨ ∀ ch ∈ (skipValue lenient n rest).head?, Stops lenient ch) := by
  induction n generalizing rest with
  | zero => exact ⟨[], rfl, fun _ h ↦ absurd h List.not_mem_nil, .inl rfl⟩
  | succ n ih =>
    match rest with
    | [] =>
      exact ⟨[], rfl, fun _ h ↦ absurd h List.not_mem_nil,
        .inr fun _ h ↦ absurd h (Option.not_mem_none _)⟩
    | ch :: rest =>
      rw [skipValue]
      split_ifs with hstops
      · refine ⟨[], rfl, fun _ h ↦ absurd h List.not_mem_nil, .inr fun ch' hch' ↦ ?_⟩
        rwa [← Option.some.inj hch']
      · obtain ⟨skipped, hrest, hskipped, hend⟩ := ih rest
        exact ⟨ch :: skipped, congrArg (ch :: ·) hrest, List.forall_mem_cons.mpr ⟨hstops, hskipped⟩,
          hend.imp_left (congrArg (· + 1))⟩

theorem foldlM_valueChar_general {p : Parser} {skipped : List UInt8}
    (hgeneral : p.headerState = .general) (h : ∀ ch ∈ skipped, ¬Stops p.lenientHttpHeaders ch) :
    skipped.foldlM valueChar p = some p := by
  induction skipped with
  | nil => rfl
  | cons ch skipped ih =>
    obtain ⟨hch, hrest⟩ := List.forall_mem_cons.mp h
    have hchar : valueChar p ch = some p := by
      rw [valueChar, if_neg hch, matchValue, hgeneral]
    rw [List.foldlM_cons, hchar]
    exact ih hrest

/-- How the loop over a value ends where it does not go on. -/
def valueEnd (p : Parser) : List UInt8 → Parser × List UInt8
  | [] => (p, [])
  | ch :: left =>
    if ch = cr ∨ ch = lf then (p, ch :: left)
    else if !p.lenientHttpHeaders ∧ !isHeaderChar ch then
      ({ p with httpErrno := .invalidHeaderToken }, ch :: left)
    else (p.noLength, ch :: left)

/-- What is said of a value of which the loop leaves `r`: it ends where the bytes one by one do not
go on, or has gone over more than a head may have. -/
structure Valued (p : Parser) (rest : List UInt8) (r : Parser × List UInt8) : Prop where
  nread : r.1.nread = p.nread
  length_le : r.2.length ≤ rest.length
  passed : ∃ taken left q, rest = taken ++ left ∧ taken.foldlM valueChar p = some q
    ∧ ((r = valueEnd q left ∧ ∀ ch ∈ left.head?, valueChar q ch = none)
      ∨ (left ≠ [] ∧ maxHeaderSize ≤ taken.length ∧ maxHeaderSize < rest.length - r.2.length))

section Valued

variable {p q : Parser} {ch : UInt8} {skipped rest : List UInt8} {r : Parser × List UInt8}

theorem valued_nil : Valued p [] (p, []) :=
  ⟨rfl, Nat.le_refl _, [], [], p, rfl, rfl, .inl ⟨rfl, fun _ h ↦ absurd h (Option.not_mem_none _)⟩⟩

theorem valued_end (h : valueChar p ch = none) :
    Valued p (ch :: rest) (valueEnd p (ch :: rest)) := by
  refine ⟨?_, ?_, [], ch :: rest, p, rfl, rfl, .inl ⟨rfl, fun ch' hch' ↦ ?_⟩⟩
  · rw [valueEnd]
    split_ifs <;> rfl
  · rw [valueEnd]
    split_ifs <;> exact Nat.le_refl _
  · rwa [← Option.some.inj hch']

theorem Valued.append (hskipped : skipped.foldlM valueChar p = some q) (h : Valued q rest r) :
    Valued p (skipped ++ rest) r := by
  obtain ⟨hnread, hle, taken, left, q', rfl, htaken, hend⟩ := h
  refine ⟨?_, ?_, skipped ++ taken, left, q', (List.append_assoc _ _ _).symm, ?_, ?_⟩
  · rw [hnread, passes_valueChar.foldlM_within hskipped]
  · rw [List.length_append]
    omega
  · rw [List.foldlM_append, hskipped]
    exact htaken
  · refine hend.imp_right fun ⟨hleft, htoo, hmoved⟩ ↦ ⟨hleft, ?_, ?_⟩
    · rw [List.length_append]
      omega
    · rw [List.length_append]
      omega

end Valued

/-- **The loop over a value passes what is passed byte by byte**, or more than a head may have. -/
theorem valueLoop_spec (fuel : ℕ) (p : Parser) (rest : List UInt8) (h : rest.length ≤ fuel) :
    Valued p rest (valueLoop fuel p rest) := by
  induction fuel generalizing p rest with
  | zero =>
    obtain rfl := List.length_eq_zero_iff.mp (Nat.le_zero.mp h)
    exact valued_nil
  | succ fuel ih =>
    match rest with
    | [] => exact valued_nil
    | ch :: rest =>
      have hrest : rest.length ≤ fuel := Nat.le_of_succ_le_succ h
      by_cases hstops : Stops p.lenientHttpHeaders ch
      · have hend : valueLoop (fuel + 1) p (ch :: rest) = valueEnd p (ch :: rest) := by
          rw [valueLoop, valueEnd]
          by_cases hcrlf : ch = cr ∨ ch = lf
          · rw [if_pos hcrlf, if_pos hcrlf]
          · have hinvalid : !p.lenientHttpHeaders ∧ !isHeaderChar ch :=
              (hstops.resolve_left fun h ↦ hcrlf (.inl h)).resolve_left fun h ↦ hcrlf (.inr h)
            rw [if_neg hcrlf, if_neg hcrlf, if_pos hinvalid, if_pos hinvalid]
        rw [hend]
        exact valued_end (if_pos hstops)
      have hcrlf : ¬(ch = cr ∨ ch = lf) := fun h ↦ hstops (h.imp_right .inl)
      have hvalid : ¬(!p.lenientHttpHeaders ∧ !isHeaderChar ch) := fun h ↦ hstops (.inr (.inr h))
      rw [valueLoop, if_neg hcrlf, if_neg hvalid]
      by_cases hgeneral : p.headerState = .general
      · rw [if_pos hgeneral]
        obtain ⟨skipped, hskip, hpassed, hstop⟩ :=
          skipValue_spec p.lenientHttpHeaders maxHeaderSize (ch :: rest)
        generalize skipValue p.lenientHttpHeaders maxHeaderSize (ch :: rest) = left at hskip hstop ⊢
        have hfold := foldlM_valueChar_general hgeneral hpassed
        have hlength := congrArg List.length hskip
        rw [List.length_cons, List.length_append] at hlength
        have hsome : skipped ≠ [] := by
          rintro rfl
          rw [List.nil_append] at hskip
          rw [← hskip] at hstop
          exact hstops (hstop.resolve_left (by decide) ch rfl)
        have hpos := List.length_pos_of_ne_nil hsome
        rw [hskip]
        cases left with
        | nil => exact valued_nil.append hfold
        | cons ch' rest' =>
          rw [List.length_cons] at hlength
          dsimp only
          by_cases hall : rest.length = maxHeaderSize + rest'.length
          · -- more has been passed than a head may have
            rw [if_pos hall]
            have hmax : skipped.length = maxHeaderSize := by omega
            obtain ⟨hnread, hrest', -⟩ := ih p rest' (by omega)
            have htotal :
                (skipped ++ ch' :: rest').length = maxHeaderSize + (rest'.length + 1) := by
              rw [List.length_append, hmax, List.length_cons]
            refine ⟨hnread, by omega, skipped, ch' :: rest', p, rfl, hfold,
              .inr ⟨List.cons_ne_nil _ _, hmax.ge, by omega⟩⟩
          · rw [if_neg hall]
            have hstops' : Stops p.lenientHttpHeaders ch' :=
              hstop.resolve_left (fun hmax ↦ hall (by omega)) ch' rfl
            by_cases hcrlf' : ch' = cr ∨ ch' = lf
            · rw [if_pos hcrlf']
              exact (ih p (ch' :: rest') (by rw [List.length_cons]; omega)).append hfold
            · have hinvalid : !p.lenientHttpHeaders ∧ !isHeaderChar ch' :=
                (hstops'.resolve_left fun h ↦ hcrlf' (.inl h)).resolve_left
                  fun h ↦ hcrlf' (.inr h)
              have hend : valueEnd p (ch' :: rest')
                  = ({ p with httpErrno := .invalidHeaderToken }, ch' :: rest') := by
                rw [valueEnd, if_neg hcrlf', if_pos hinvalid]
              rw [if_neg hcrlf', ← hend]
              exact (valued_end (if_pos hstops')).append hfold
      · rw [if_neg hgeneral]
        have hmatch : valueChar p ch = p.matchValue ch := if_neg hstops
        cases hvalue : p.matchValue ch with
        | none =>
          have hend : valueEnd p (ch :: rest) = (p.noLength, ch :: rest) := by
            rw [valueEnd, if_neg hcrlf, if_neg hvalid]
          dsimp only
          rw [← hend]
          exact valued_end (hmatch.trans hvalue)
        | some q =>
          have hfold : [ch].foldlM valueChar p = some q := by
            rw [List.foldlM_cons, hmatch, hvalue]
            rfl
          exact (ih q rest hrest).append hfold

/-! ## Bodies -/

section Bodies

variable {add : List Call → Call → List Call} {mark : Option Kind} {tr : List Call} {ch : UInt8}
  {rest : List UInt8}

/-- The mark of a body is set, if it has not been before. -/
def opened (add : List Call → Call → List Call) (mark : Option Kind) (tr : List Call) : List Call :=
  if mark = none then add tr (.data (.body, 0) []) else tr

theorem fed_after_mark {s : Step} (hmark : mark = none ∨ mark = some .body) :
    (s.after [.mark .body]).fed add mark tr ch rest
      = s.fed add (some .body) (opened add mark tr) ch rest := by
  rcases hmark with rfl | rfl <;> rfl

/-- **Many bytes of a body are passed at once.** Behind `i` of them the parser is `q i`. -/
theorem feed_opened {q : ℕ → Parser} {s : Step} {taken : List UInt8}
    (hmark : mark = none ∨ mark = some .body)
    (hbyte : ∀ i < taken.length, ∀ ch, (q i).byte ch = ⟨q (i + 1), [.mark .body], .next⟩)
    (hs : (q taken.length).byte ch = s.after [.mark .body]) :
    (q 0).feed add mark tr (taken ++ ch :: rest)
      = s.fed add (some .body) (extend (opened add mark tr) taken) ch rest := by
  induction taken generalizing q mark tr with
  | nil =>
    rw [List.length_nil] at hs
    rw [List.nil_append, feed_cons, hs, fed_after_mark hmark, extend_nil]
  | cons c taken ih =>
    have hstep : Step.after ⟨q 1, [], .next⟩ [.mark .body] = ⟨q 1, [.mark .body], .next⟩ := rfl
    have hnext := @ih (some .body) (extend (opened add mark tr) [c]) (fun i ↦ q (i + 1)) (.inr rfl)
      (fun i hi ↦ hbyte (i + 1) (Nat.succ_lt_succ hi)) hs
    rw [List.cons_append, feed_cons, hbyte 0 (Nat.succ_pos _), ← hstep, fed_after_mark hmark]
    refine hnext.trans ?_
    rw [opened, if_neg (Option.some_ne_none _), extend_extend, List.singleton_append]

end Bodies

theorem byte_of_not_parsing {p : Parser} {ch : UInt8} (hparsing : p.state.parsingHeader = false)
    (herrno : p.httpErrno = .ok) : p.byte ch = p.byteStep ch := by
  simp only [byte, countByte, hparsing]
  exact if_neg fun h ↦ h herrno

end Knet.Http.Parser
