import Knet.Http.Parser.Names
import Knet.Lib.Numeral

/-!
# The length of a body

The value of a `Content-Length` header is read digit by digit. What is accepted is the number that
the digits stand for, and a number that is too great for the variable is an error
(`feed_contentLength`). So is a second header of this kind.
-/

namespace Knet.Http.Parser

open Pieces Numeral
open Text (isDigit)
open HttpMessage (IsToken isTchar isOws lower)

/-! ## Digits -/

section Digits

variable {add : List Call → Call → List Call} {p : Parser} {ch : UInt8} {tr : List Call}
  {ds rest : List UInt8}

/-- The number of a digit. -/
def digit (ch : UInt8) : ℕ := ch.toNat - 48

/-- The greatest number to which a digit is added. -/
def lengthBound : ℕ := 1844674407370955160

theorem isDigit_spec (h : isDigit ch = true) : 48 ≤ ch.toNat ∧ ch.toNat ≤ 57 := by
  simpa [isDigit, UInt8.le_iff_toNat_le] using h

theorem matchValue_digit (hstate : p.headerState = .contentLengthNum) (h : isDigit ch = true) :
    p.matchValue ch = (guarded 10 lengthBound p.contentLength.toNat (digit ch)).map fun n ↦
      { p with contentLength := UInt64.ofNat n } := by
  obtain ⟨hle, hge⟩ := isDigit_spec h
  have hspace : ch ≠ ' '.toUInt8 := by
    rintro rfl
    exact absurd h (by decide)
  have hnumber : isNumber ch = true := h
  have hguard : (ullongMax - 10) / 10 < p.contentLength ↔ lengthBound < p.contentLength.toNat := by
    rw [UInt64.lt_iff_toNat_lt]
    exact Iff.rfl
  have hzero : '0'.toUInt8 ≤ ch := UInt8.le_iff_toNat_le.mpr hle
  have hdigit : (ch - '0'.toUInt8).toUInt64.toNat = digit ch := by
    rw [UInt8.toNat_toUInt64, UInt8.toNat_sub_of_le _ _ hzero]
    rfl
  rw [matchValue, hstate]
  dsimp only
  rw [if_neg hspace, hnumber, guarded]
  by_cases hlt : lengthBound < p.contentLength.toNat
  · rw [if_pos hlt, if_pos (hguard.mpr hlt)]
    rfl
  · rw [if_neg hlt, if_neg (hguard.not.mpr hlt)]
    have hsum : p.contentLength * 10 + (ch - '0'.toUInt8).toUInt64
        = UInt64.ofNat (p.contentLength.toNat * 10 + digit ch) := by
      rw [← UInt64.toNat_inj, UInt64.toNat_add, UInt64.toNat_mul, hdigit, UInt64.toNat_ofNat']
      exact Nat.mod_add_mod _ _ _
    rw [hsum, ← hstate]
    rfl

theorem isTchar_of_isDigit (h : isDigit ch = true) : isTchar ch = true := by
  simp [isTchar, h]

theorem isHeaderChar_digit (h : isDigit ch = true) :
    ch ≠ cr ∧ ch ≠ lf ∧ isHeaderChar ch = true := by
  obtain ⟨hle, hge⟩ := isDigit_spec h
  obtain ⟨hcr, hlf, -⟩ := ne_of_isTchar (isTchar_of_isDigit h)
  refine ⟨hcr, hlf, ?_⟩
  · have h31 : (31 : UInt8) < ch := UInt8.lt_iff_toNat_lt.mpr (Nat.lt_of_lt_of_le (by decide) hle)
    have h127 : ch ≠ 127 := by
      rintro rfl
      exact absurd h (by decide)
    simp [isHeaderChar, h31, h127]

theorem feed_digits (hstate : p.state = .headerValue) (hheader : p.headerState = .contentLengthNum)
    (herrno : p.httpErrno = .ok) (hds : ∀ c ∈ ds, isDigit c = true)
    (hle : p.nread + ds.length ≤ maxHeaderSize) :
    p.feed add (some .headerValue) tr (ds ++ rest)
      = match (ds.map digit).foldlM (guarded 10 lengthBound) p.contentLength.toNat with
        | none => .failed
        | some n => Parser.feed add
            { p with contentLength := UInt64.ofNat n, nread := p.nread + ds.length }
            (some .headerValue) (extend tr ds) rest := by
  induction ds generalizing p tr with
  | nil =>
    rw [extend_nil, List.map_nil, List.foldlM_nil, List.nil_append]
    dsimp only [pure]
    rw [UInt64.ofNat_toNat]
    rfl
  | cons c ds ih =>
    obtain ⟨hc, hds⟩ := List.forall_mem_cons.mp hds
    rw [List.length_cons] at hle
    have hbyte : p.byte c = ({ p with nread := p.nread + 1 } : Parser).byteHeaderValue c := by
      rw [byte_of_lt (by rw [hstate]; rfl) herrno (by omega)]
      exact byteStep_headerValue hstate
    have hmatch : ({ p with nread := p.nread + 1 } : Parser).matchValue c = _ :=
      matchValue_digit hheader hc
    obtain ⟨hcr, hlf, hvalid⟩ := isHeaderChar_digit hc
    rw [List.cons_append, feed_cons, hbyte, byteHeaderValue, if_neg hcr, if_neg hlf,
      if_neg (by rw [hvalid]; simp), hmatch, List.map_cons, List.foldlM_cons]
    rw [guarded]
    split_ifs with hlt
    · rfl
    · dsimp only at hlt
      have hn : (UInt64.ofNat (p.contentLength.toNat * 10 + digit c)).toNat
          = p.contentLength.toNat * 10 + digit c := by
        have hd := isDigit_spec hc
        have hbound : lengthBound = 1844674407370955160 := rfl
        rw [UInt64.toNat_ofNat', Nat.mod_eq_of_lt]
        rw [digit]
        omega
      have hnext := @ih { p with
          nread := p.nread + 1
          contentLength := UInt64.ofNat (p.contentLength.toNat * 10 + digit c) }
        (extend tr [c]) hstate hheader herrno hds (by dsimp only; omega)
      refine hnext.trans ?_
      dsimp only
      rw [hn, extend_extend, List.length_cons, Nat.add_assoc, Nat.add_comm 1]
      rfl

/-- The numbers that are lengths are smaller. -/
def lengthLimit : ℕ := 2 ^ 64 - 6

theorem value_eq : Text.value ds = Numeral.value 10 0 (ds.map digit) := by
  rw [Text.value, Numeral.value, List.foldl_map]
  simp only [Nat.mul_comm, digit]

theorem foldlM_digits (hch : isDigit ch = true) (hds : ∀ c ∈ ds, isDigit c = true) :
    (ds.map digit).foldlM (guarded 10 lengthBound) (digit ch)
      = if Text.value (ch :: ds) < lengthLimit then some (Text.value (ch :: ds)) else none := by
  have hvalue : Text.value (ch :: ds) = Numeral.value 10 (digit ch) (ds.map digit) := by
    rw [value_eq, List.map_cons, value_cons, Nat.zero_mul, Nat.zero_add]
  have hdigit : ∀ {c : UInt8}, isDigit c = true → digit c < 10 := by
    intro c hc
    have hspec := isDigit_spec hc
    rw [digit]
    omega
  have hbound : lengthBound = 1844674407370955160 := rfl
  have hlimit : lengthLimit = 18446744073709551610 := rfl
  rw [hvalue]
  by_cases hnil : ds = []
  · have hlt : digit ch < lengthLimit := by
      have hten := hdigit hch
      omega
    subst hnil
    exact (if_pos hlt).symm
  · have hdigits : ∀ d ∈ ds.map digit, d < 10 :=
      List.forall_mem_map.mpr fun c hc ↦ hdigit (hds c hc)
    rw [foldlM_guarded (by decide) hdigits (mt List.map_eq_nil_iff.mp hnil)]
    exact if_congr (by omega) rfl rfl

theorem feed_ows {ows : List UInt8} (hstate : p.state = .headerValueDiscardWs)
    (herrno : p.httpErrno = .ok) (hows : ∀ c ∈ ows, isOws c = true)
    (hle : p.nread + ows.length ≤ maxHeaderSize) :
    p.feed add none tr (ows ++ rest)
      = Parser.feed add { p with nread := p.nread + ows.length } none tr rest := by
  induction ows generalizing p with
  | nil => rfl
  | cons c ows ih =>
    obtain ⟨hc, hrest⟩ := List.forall_mem_cons.mp hows
    rw [List.length_cons] at hle
    have hows : c = 9 ∨ c = 32 := by
      simpa [isOws] using hc
    have hspace : c = ' '.toUInt8 ∨ c = 9 := hows.symm
    have hbyte : p.byte c = ⟨{ p with nread := p.nread + 1 }, [], .next⟩ := by
      rw [byte_of_lt (by rw [hstate]; rfl) herrno (by omega), byteStep]
      simp only [hstate, step, headerValueDiscardWs, if_pos hspace]
    rw [List.cons_append, feed_cons, hbyte]
    refine (ih (p := { p with nread := p.nread + 1 }) hstate herrno hrest
      (by dsimp only; omega)).trans ?_
    rw [List.length_cons, Nat.add_assoc, Nat.add_comm 1]

theorem feed_crlf (hstate : p.state = .headerValue) (herrno : p.httpErrno = .ok)
    (hle : p.nread + 2 ≤ maxHeaderSize) :
    p.feed add (some .headerValue) tr (cr :: lf :: rest)
      = Parser.feed add { p with state := .headerValueLws, nread := p.nread + 2 } none tr rest := by
  have hcr : p.byte cr
      = ⟨{ p with nread := p.nread + 1, state := .headerAlmostDone }, [.data .headerValue],
        .next⟩ := by
    rw [byte_of_lt (by rw [hstate]; rfl) herrno (by omega)]
    exact byteStep_headerValue hstate
  have hlf : ({ p with nread := p.nread + 1, state := .headerAlmostDone } : Parser).byte lf
      = ⟨{ p with nread := p.nread + 2, state := .headerValueLws }, [], .next⟩ := by
    exact byte_of_lt (p := { p with nread := p.nread + 1, state := .headerAlmostDone }) rfl herrno
      (Nat.lt_of_lt_of_le (Nat.lt_succ_self _) hle)
  rw [feed_cons, hcr]
  change Parser.feed add _ none tr (lf :: rest) = _
  rw [feed_cons, hlf]
  rfl

theorem feed_length (hadd : Adds add) (hstate : p.state = .headerValueDiscardWs)
    (hheader : p.headerState = .contentLength) (herrno : p.httpErrno = .ok)
    (hch : isDigit ch = true) (hds : ∀ c ∈ ds, isDigit c = true)
    (hle : p.nread + ds.length + 3 ≤ maxHeaderSize) :
    p.feed add none tr (ch :: (ds ++ cr :: lf :: rest))
      = if p.flags.contentLength = false ∧ Text.value (ch :: ds) < lengthLimit then
          Parser.feed add { p with
            flags.contentLength := true
            contentLength := UInt64.ofNat (Text.value (ch :: ds))
            state := .headerValueLws, headerState := .contentLengthNum, index := 0
            nread := p.nread + ds.length + 3 } none
            (add tr (.data (p.tag .headerValue) (ch :: ds))) rest
        else .failed := by
  obtain ⟨hfour, -⟩ := isDigit_spec hch
  have hnumber : isNumber ch = true := hch
  obtain ⟨hcr, hlf, hspace⟩ := ne_of_isTchar (isTchar_of_isDigit hch)
  have hbyte : p.byte ch
      = ({ p with nread := p.nread + 1 } : Parser).headerValueStart ch := by
    rw [byte_of_lt (by rw [hstate]; rfl) herrno (by omega), byteStep]
    simp only [hstate, step, headerValueDiscardWs, if_neg hspace, if_neg hcr, if_neg hlf]
  rw [feed_cons, hbyte, headerValueStart]
  simp only [hheader, hnumber, Bool.not_true, Bool.false_eq_true, if_false]
  cases hflag : p.flags.contentLength with
  | true =>
    simp only [if_true, Bool.true_eq_false, false_and, if_false]
    rfl
  | false =>
    obtain ⟨q, hq⟩ : ∃ q : Parser, q = { p with
        nread := p.nread + 1, state := .headerValue, index := 0
        flags.contentLength := true, contentLength := (ch - '0'.toUInt8).toUInt64
        headerState := .contentLengthNum } := ⟨_, rfl⟩
    have hlength : q.contentLength.toNat = digit ch := by
      have hzero : '0'.toUInt8 ≤ ch := UInt8.le_iff_toNat_le.mpr hfour
      rw [hq, UInt8.toNat_toUInt64, UInt8.toNat_sub_of_le _ _ hzero]
      rfl
    have hnread : q.nread = p.nread + 1 := by rw [hq]
    have hfirst : Step.fed add ⟨q, [.mark .headerValue], .next⟩ none tr ch (ds ++ cr :: lf :: rest)
        = q.feed add (some .headerValue) (extend (add tr (.data (q.tag .headerValue) [])) [ch])
          (ds ++ cr :: lf :: rest) := rfl
    have hdigits : q.feed add (some .headerValue)
        (extend (add tr (.data (q.tag .headerValue) [])) [ch]) (ds ++ cr :: lf :: rest) = _ :=
      feed_digits (by rw [hq]) (by rw [hq]) (by rw [hq]; exact herrno) hds (by omega)
    rw [hlength, foldlM_digits hch hds] at hdigits
    simp only [Bool.false_eq_true, if_false, true_and]
    rw [← hq, hfirst, hdigits]
    split_ifs with hlt
    · dsimp only
      rw [extend_extend, hadd.extend_data]
      refine (feed_crlf (by rw [hq]) (by rw [hq]; exact herrno) (by dsimp only; omega)).trans ?_
      have hcount : q.nread + ds.length + 2 = p.nread + ds.length + 3 := by omega
      dsimp only
      rw [hcount, hq]
      rfl
    · rfl

end Digits

/-! ## The header -/

section Header

variable {p : Parser} {name ows digits : List UInt8}

/-- **A header with a length**, whatever the letter case of its name. -/
theorem feed_contentLength {add : List Call → Call → List Call} {tr : List Call} {ch : UInt8}
    {ds rest : List UInt8} (hadd : Adds add) (h : p.Sound) (hline : p.state.beginsLine = true)
    (hname : name.map lower = letters "content-length") (hows : ∀ c ∈ ows, isOws c = true)
    (hch : isDigit ch = true) (hds : ∀ c ∈ ds, isDigit c = true)
    (hle : p.nread + name.length + ows.length + ds.length + 4 ≤ maxHeaderSize) :
    ∃ q : Parser, p.feed add none tr (name ++ 58 :: (ows ++ ch :: (ds ++ cr :: lf :: rest)))
        = (if ¬p.LacksLength ∧ p.flags.contentLength = false
              ∧ Text.value (ch :: ds) < lengthLimit then
            q.feed add none (add (add (p.blankValue.foldl add tr) (.data (.headerField, 0) name))
              (.data (.headerValue, 0) (ch :: ds))) rest
          else .failed)
      ∧ q = { p.concluded with
          contentLength := UInt64.ofNat (Text.value (ch :: ds))
          flags.contentLength := true
          state := .headerValueLws, headerState := .contentLengthNum, index := 0
          nread := p.nread + name.length + ows.length + ds.length + 4 } := by
  have hx : ("content-length", HeaderState.matchingContentLength, HeaderState.contentLength)
      ∈ names := by
    decide
  have htoken : IsToken name := isToken_of_lower hname (isToken_names _ hx)
  obtain ⟨q, hq, htracks, hframe⟩ : ∃ q : Parser,
      p.feed add none tr (name ++ 58 :: (ows ++ ch :: (ds ++ cr :: lf :: rest))) = _ ∧ _ ∧ _ :=
    feed_name hadd htoken hline h.errno (by omega)
  have habout : about name = .contentLength := about_names hx hname
  have hheader : q.headerState = .contentLength :=
    HeaderState.eq_of_known (htracks.known_eq.trans habout) (by decide)
  have hnread : q.nread = p.nread + name.length + 1 := by rw [hframe]
  have hflags : q.flags.contentLength = p.flags.contentLength := by
    rw [hframe]
    exact contentLength_concluded
  have hcount : q.nread + ows.length + ds.length + 3
      = p.nread + name.length + ows.length + ds.length + 4 := by omega
  have hstate : q.state = .headerValueDiscardWs := by rw [hframe]
  have herrno : q.httpErrno = .ok := by
    rw [hframe]
    exact h.errno
  have hspace : q.feed add none (add (p.blankValue.foldl add tr) (.data (.headerField, 0) name))
      (ows ++ ch :: (ds ++ cr :: lf :: rest)) = _ := feed_ows hstate herrno hows (by omega)
  have hlength : Parser.feed add { q with nread := q.nread + ows.length } none
      (add (p.blankValue.foldl add tr) (.data (.headerField, 0) name))
      (ch :: (ds ++ cr :: lf :: rest)) = _ :=
    feed_length hadd hstate hheader herrno hch hds (by dsimp only; omega)
  have haccept : ∀ fed : Fed, (if p.LacksLength then .failed
        else if q.flags.contentLength = false ∧ Text.value (ch :: ds) < lengthLimit then fed
        else .failed)
      = if ¬p.LacksLength ∧ p.flags.contentLength = false
          ∧ Text.value (ch :: ds) < lengthLimit then fed
        else .failed := by
    intro fed
    by_cases hlacks : p.LacksLength
    · rw [if_pos hlacks, if_neg fun hok ↦ hok.1 hlacks]
    · rw [if_neg hlacks, hflags]
      exact if_congr (and_iff_right hlacks).symm rfl rfl
  refine ⟨_, hq.trans ((if_congr Iff.rfl rfl (hspace.trans hlength)).trans (haccept _)), ?_⟩
  dsimp only
  rw [hcount, hframe]

/-- **A length is the number that its digits stand for**, and a number that is too great is an
error, as a second length is, and as the line is behind a length without a value. -/
theorem execute_contentLength (h : p.Sound) (hline : p.state.beginsLine = true)
    (hname : name.map lower = letters "content-length") (hows : ∀ c ∈ ows, isOws c = true)
    (hne : digits ≠ []) (hdigits : ∀ c ∈ digits, isDigit c = true)
    (hle : p.nread + name.length + ows.length + digits.length + 3 ≤ maxHeaderSize) :
    let r := p.execute (name ++ 58 :: (ows ++ (digits ++ [cr, lf])))
    (r.parser.httpErrno = .ok ↔ ¬p.LacksLength ∧ p.flags.contentLength = false
        ∧ Text.value digits < lengthLimit)
      ∧ (r.parser.httpErrno = .ok → r.parser.contentLength.toNat = Text.value digits
        ∧ r.parser.flags = { p.concluded.flags with contentLength := true }
        ∧ r.parser.state = .headerValueLws
        ∧ r.calls.map Prod.snd = p.blankValue
          ++ [.data (.headerField, 0) name, .data (.headerValue, 0) digits]) := by
  obtain ⟨ch, ds, rfl⟩ := List.exists_cons_of_ne_nil hne
  obtain ⟨hch, hds⟩ := List.forall_mem_cons.mp hdigits
  have hmax : maxHeaderSize = 81920 := rfl
  rw [List.length_cons] at hle
  have hsettles := execute_settles [] adds_keep h
    (show name ++ 58 :: (ows ++ (ch :: ds ++ [cr, lf])) ≠ [] from
      List.append_ne_nil_of_right_ne_nil _ (List.cons_ne_nil _ _))
    (by simp only [List.length_append, List.length_cons, List.length_nil]; omega)
  obtain ⟨q, hq, hframe⟩ : ∃ q : Parser,
      p.feed keep none [] (name ++ 58 :: (ows ++ ch :: (ds ++ [cr, lf]))) = _ ∧ _ :=
    feed_contentLength adds_keep h hline hname hows hch hds (by omega)
  rw [begun, mark_of_beginsLine hline] at hsettles
  dsimp only at hsettles ⊢
  rw [List.cons_append, hq] at hsettles
  by_cases hok : ¬p.LacksLength ∧ p.flags.contentLength = false
      ∧ Text.value (ch :: ds) < lengthLimit
  · rw [if_pos hok] at hsettles
    obtain ⟨hparser, -, hcalls, hready⟩ := hsettles
    refine ⟨iff_of_true (hparser ▸ hready.sound.errno) hok, fun _ ↦ ⟨?_, ?_, ?_, ?_⟩⟩
    · rw [List.cons_append, hparser, hframe, UInt64.toNat_ofNat',
        Nat.mod_eq_of_lt (hok.2.2.trans (by decide))]
    · rw [List.cons_append, hparser, hframe]
    · rw [List.cons_append, hparser, hframe]
    · rw [foldl_keep, foldl_keep, List.append_nil, List.append_nil, List.reverse_eq_iff] at hcalls
      rw [List.cons_append, hcalls, keep, keep, List.reverse_cons, List.reverse_cons,
        List.reverse_reverse, List.append_assoc]
      rfl
  · rw [if_neg hok] at hsettles
    exact ⟨iff_of_false hsettles hok, fun hno ↦ absurd hno hsettles⟩

/-- Zeros before a number make no difference, and the line before is concluded. -/
theorem execute_contentLength_leading_zeros :
    let r := behindClose.execute (letters "CONTENT-length" ++ 58 :: ([32, 9] ++ ([48, 48, 55]
      ++ [cr, lf])))
    r.parser.contentLength.toNat = 7 ∧ r.parser.flags.connectionClose = true := by
  have hname : (letters "CONTENT-length").map lower = letters "content-length" := by
    decide +kernel
  have hlength : (letters "CONTENT-length").length = 14 := length_letters _
  have h := execute_contentLength behindClose_sound rfl hname
    (List.all_eq_true.mp (show [32, 9].all isOws = true by decide))
    (List.cons_ne_nil 48 [48, 55])
    (List.all_eq_true.mp (show [48, 48, 55].all isDigit = true by decide))
    (by rw [hlength]; decide)
  obtain ⟨hvalue, hflags, -⟩ := h.2 (h.1.mpr ⟨by decide, rfl, by decide⟩)
  dsimp only
  rw [hvalue, hflags]
  exact ⟨rfl, rfl⟩

end Header

end Knet.Http.Parser
