import Knet.Lib.Bytes
import Knet.Lib.Text
import Mathlib.Data.List.DropRight
import Mathlib.Data.List.Infix

/-!
# The grammar of HTTP messages

A message is a start line, field lines, an empty line and a body. The functions here read one
message that takes up a whole sequence of bytes, or say that it is none. They are strict about what
a sender may send: no line is folded, at most one field line gives the length of the body, and a
message with a transfer coding has no length. About the characters of targets and field values they
are as wide as they can be.

`head_lines` and `head_append` say how a head that is made of lines is taken apart again.
-/

namespace HttpMessage

open Bytes Text

/-! ## Characters -/

/-- Space, tab, and what else separates words. -/
def isSpace (c : UInt8) : Bool := (9 ≤ c && c ≤ 13) || c == 32

/-- Optional whitespace around a field value. -/
def isOws (c : UInt8) : Bool := c == 9 || c == 32

/-- A character of a token. -/
def isTchar (c : UInt8) : Bool :=
  (65 ≤ c && c ≤ 90) || (97 ≤ c && c ≤ 122) || isDigit c
    || c ∈ [33, 35, 36, 37, 38, 39, 42, 43, 45, 46, 94, 95, 96, 124, 126]

/-- A name. -/
def IsToken (s : List UInt8) : Prop := s ≠ [] ∧ ∀ c ∈ s, isTchar c = true

instance decidableIsToken (s : List UInt8) : Decidable (IsToken s) :=
  inferInstanceAs (Decidable (_ ∧ _))

/-- Part of one line. -/
def InLine (s : List UInt8) : Prop := 13 ∉ s ∧ 10 ∉ s

instance decidableInLine (s : List UInt8) : Decidable (InLine s) :=
  inferInstanceAs (Decidable (_ ∧ _))

/-- A letter, in lower case. -/
def lower (c : UInt8) : UInt8 := if 65 ≤ c && c ≤ 90 then c + 32 else c

/-- A number in decimal digits. -/
def readNumber (s : List UInt8) : Option ℕ :=
  if s ≠ [] ∧ s.all isDigit then some (value s) else none

/-- A number in hexadecimal digits. -/
def readHex : List UInt8 → Option ℕ
  | [] => none
  | s => s.foldl (fun n c ↦ n.bind fun n ↦
      if isDigit c then some (16 * n + (c.toNat - 48))
      else if 97 ≤ lower c && lower c ≤ 102 then some (16 * n + ((lower c).toNat - 87))
      else none) (some 0)

/-! ## Lines -/

/-- A line, with what was read of it already, and what follows it. -/
def line (cur : List UInt8) : List UInt8 → Option (List UInt8 × List UInt8)
  | [] => none
  | 13 :: 10 :: s => some (cur, s)
  | c :: s => line (cur ++ [c]) s

/-- The lines up to an empty one, with what was read of the first of them already, and what follows
the empty one. -/
def head : List UInt8 → List UInt8 → Option (List (List UInt8) × List UInt8)
  | _, [] => none
  | cur, 13 :: 10 :: s =>
    if cur = [] then some ([], s) else (head [] s).map fun r ↦ (cur :: r.1, r.2)
  | cur, c :: s => head (cur ++ [c]) s

/-- A field line: its name, and its value without the whitespace around it. -/
structure Field where
  name : List UInt8
  value : List UInt8
  deriving DecidableEq, Repr

/-- A text without the whitespace around it. -/
def trim (s : List UInt8) : List UInt8 := (s.dropWhile isOws).rdropWhile isOws

def readField (l : List UInt8) : Option Field :=
  match l.dropWhile (· != 58) with
  | [] => none
  | _ :: s =>
    let name := l.takeWhile (· != 58)
    if IsToken name ∧ InLine s then some ⟨name, trim s⟩ else none

/-- The field lines of a head, and what follows it. -/
def readFields (s : List UInt8) : Option (List Field × List UInt8) :=
  (head [] s).bind fun r ↦ (r.1.mapM readField).map fun fields ↦ (fields, r.2)

/-! ## Bodies -/

/-- The values of the fields of a name, which is given in lower case. -/
def valuesOf (name : List UInt8) (fields : List Field) : List (List UInt8) :=
  (fields.filter fun f ↦ f.name.map lower == name).map Field.value

/-- The values of `Content-Length`. -/
def lengths : List Field → List (List UInt8) := valuesOf (ofString "content-length")

/-- The values of `Transfer-Encoding`. -/
def codings : List Field → List (List UInt8) := valuesOf (ofString "transfer-encoding")

/-- The data of a body in chunks, which ends with a head of trailers. -/
def unchunk : ℕ → List UInt8 → Option (List UInt8)
  | 0, _ => none
  | fuel + 1, s =>
    match line [] s with
    | none => none
    | some (l, s) =>
      match readHex (l.takeWhile (· != 59)) with
      | none => none
      | some 0 => (readFields s).bind fun r ↦ if r.2 = [] then some [] else none
      | some n =>
        if n ≤ s.length ∧ (s.drop n).take 2 = [13, 10] then
          (unchunk fuel (s.drop (n + 2))).map (s.take n ++ ·)
        else none

/-- The body that `rest` is, if the field lines say how long it is or how it is coded, and `without`
if they say neither. -/
def readBody (fields : List Field) (rest : List UInt8) (without : Option (List UInt8)) :
    Option (List UInt8) :=
  match codings fields, lengths fields with
  | [], [] => without
  | [], [n] => if readNumber n = some rest.length then some rest else none
  | [coding], [] =>
    if coding.map lower = ofString "chunked" then unchunk (rest.length + 1) rest else none
  | _, _ => none

/-! ## Messages -/

structure Request where
  method : List UInt8
  target : List UInt8
  fields : List Field
  body : List UInt8
  deriving DecidableEq, Repr

structure Response where
  status : ℕ
  fields : List Field
  body : List UInt8
  deriving DecidableEq, Repr

/-- The method and the target of a request. -/
def readRequestLine (l : List UInt8) : Option (List UInt8 × List UInt8) :=
  match l.splitOn 32 with
  | [method, target, version] =>
    if IsToken method ∧ target ≠ [] ∧ target.all (fun c ↦ !isSpace c)
        ∧ version = ofString "HTTP/1.1" then some (method, target)
    else none
  | _ => none

/-- The code of a response. -/
def readStatusLine : List UInt8 → Option ℕ
  | 72 :: 84 :: 84 :: 80 :: 47 :: major :: 46 :: minor :: 32 :: a :: b :: c :: 32 :: reason =>
    if [major, minor, a, b, c].all isDigit ∧ InLine reason then some (value [a, b, c])
    else none
  | _ => none

/-- One request. Without a length it has no body. -/
def readRequest (s : List UInt8) : Option Request :=
  match head [] s with
  | some (l :: ls, rest) =>
    (readRequestLine l).bind fun start ↦ (ls.mapM readField).bind fun fields ↦
      (readBody fields rest (if rest = [] then some [] else none)).map fun body ↦
        ⟨start.1, start.2, fields, body⟩
  | _ => none

/-- The codes of responses that have no body whatever their fields say. -/
def bodiless (status : ℕ) : Bool := status < 200 || status == 204 || status == 304

/-- One response. Without a length its body ends where the connection does. -/
def readResponse (s : List UInt8) : Option Response :=
  match head [] s with
  | some (l :: ls, rest) =>
    (readStatusLine l).bind fun status ↦ (ls.mapM readField).bind fun fields ↦
      (if bodiless status then (if rest = [] then some [] else none)
        else readBody fields rest (some rest)).map fun body ↦ ⟨status, fields, body⟩
  | _ => none

/-! ## Heads that are made of lines -/

section Head

variable {cur l s : List UInt8}

theorem head_cons_of_ne {c : UInt8} (h : c ≠ 13) : head cur (c :: s) = head (cur ++ [c]) s := by
  rw [head]
  rintro s' rfl -
  exact h rfl

theorem head_append_of_not_mem (h : 13 ∉ l) : head cur (l ++ s) = head (cur ++ l) s := by
  induction l generalizing cur with
  | nil => rw [List.nil_append, List.append_nil]
  | cons c l ih =>
    have hc : c ≠ 13 := fun hc ↦ h (hc ▸ List.mem_cons_self)
    have hl : 13 ∉ l := fun hl ↦ h (List.mem_cons_of_mem _ hl)
    rw [List.cons_append, head_cons_of_ne hc, ih hl, List.append_assoc, List.singleton_append]

theorem head_line (hl : 13 ∉ l) (hne : l ≠ []) :
    head [] (l ++ 13 :: 10 :: s) = (head [] s).map fun r ↦ (l :: r.1, r.2) := by
  rw [head_append_of_not_mem hl, List.nil_append, head, if_neg hne]

/-- Lines and their ends. -/
def lines (ls : List (List UInt8)) : List UInt8 := ls.flatMap fun l ↦ l ++ [13, 10]

/-- **The lines of a head are read back.** -/
theorem head_lines {ls : List (List UInt8)} (h : ∀ l ∈ ls, 13 ∉ l ∧ l ≠ []) :
    head [] (lines ls ++ s) = (head [] s).map fun r ↦ (ls ++ r.1, r.2) := by
  induction ls with
  | nil =>
    rw [lines, List.flatMap_nil, List.nil_append]
    cases head [] s <;> rfl
  | cons l ls ih =>
    obtain ⟨hl, hrest⟩ := List.forall_mem_cons.mp h
    rw [lines, List.flatMap_cons, ← lines, List.append_assoc, List.append_assoc]
    rw [List.cons_append, List.cons_append, List.nil_append, head_line hl.1 hl.2, ih hrest]
    cases head [] s <;> rfl

/-- The end of a line is the end of `cur ++ s`, or there is nothing at all. -/
def Ended (cur s : List UInt8) : Prop := (s = [] ∧ cur = []) ∨ [13, 10] <:+ s

theorem Ended.of_cons {c : UInt8} (h : Ended cur (c :: s)) (hc : ¬(c = 13 ∧ s = [10])) :
    Ended (cur ++ [c]) s := by
  rcases h with ⟨hnil, -⟩ | h
  · exact absurd hnil (List.cons_ne_nil _ _)
  · rcases List.suffix_cons_iff.mp h with heq | h
    · simp only [List.cons.injEq] at heq
      exact absurd ⟨heq.1.symm, heq.2.symm⟩ hc
    · exact .inr h

theorem Ended.of_line (h : Ended cur (13 :: 10 :: s)) : Ended [] s := by
  rcases h with ⟨hnil, -⟩ | h
  · exact absurd hnil (List.cons_ne_nil _ _)
  · rcases List.suffix_cons_iff.mp h with heq | h
    · simp only [List.cons.injEq, true_and] at heq
      exact .inl ⟨heq.symm, rfl⟩
    · rcases List.suffix_cons_iff.mp h with heq | h
      · simp at heq
      · exact .inr h

theorem Ended.append {t : List UInt8} (hs : Ended [] s) (ht : Ended [] t) : Ended [] (s ++ t) := by
  rcases ht with ⟨rfl, -⟩ | ht
  · rwa [List.append_nil]
  · exact .inr (ht.trans (List.suffix_append _ _))

/-- **What a block of lines is to a head.** A block that ends with a line is, with an empty line
behind it, a head of its own. Either nothing follows that head; then the block is the first part of
any head that it stands in front of. Or there is an empty line in the block; then that ends the
head, whatever stands behind the block. -/
theorem head_append (h : Ended cur s) : ∃ ls,
    (head cur (s ++ [13, 10]) = some (ls, []) ∧
      ∀ t, head cur (s ++ t) = (head [] t).map fun r ↦ (ls ++ r.1, r.2)) ∨
    ∃ rest, head cur (s ++ [13, 10]) = some (ls, rest ++ [13, 10]) ∧
      ∀ t, head cur (s ++ t) = some (ls, rest ++ t) := by
  induction cur, s using head.induct with
  | case1 cur =>
    obtain ⟨-, rfl⟩ : ([] : List UInt8) = [] ∧ cur = [] := by
      rcases h with h | h
      · exact h
      · simp at h
    refine ⟨[], .inl ⟨by simp [head], fun t ↦ ?_⟩⟩
    rw [List.nil_append]
    cases head [] t <;> rfl
  | case2 s =>
    refine ⟨[], .inr ⟨s, ?_, fun t ↦ ?_⟩⟩
    · simp [head]
    · simp [head]
  | case3 cur s hcur ih =>
    obtain ⟨ls, ⟨hhead, happend⟩ | ⟨rest, hhead, happend⟩⟩ := ih h.of_line
    · refine ⟨cur :: ls, .inl ⟨?_, fun t ↦ ?_⟩⟩
      · rw [List.cons_append, List.cons_append, head, if_neg hcur, hhead]
        rfl
      · rw [List.cons_append, List.cons_append, head, if_neg hcur, happend]
        cases head [] t <;> rfl
    · refine ⟨cur :: ls, .inr ⟨rest, ?_, fun t ↦ ?_⟩⟩
      · rw [List.cons_append, List.cons_append, head, if_neg hcur, hhead]
        rfl
      · rw [List.cons_append, List.cons_append, head, if_neg hcur, happend]
        rfl
  | case4 cur c s hc ih =>
    -- `c` does not start the end of a line, also with something behind `s`
    have hne : ¬(c = 13 ∧ s = [10]) := by
      rintro ⟨rfl, rfl⟩
      exact hc [] rfl rfl
    have hend : Ended (cur ++ [c]) s := h.of_cons hne
    have hstep (t : List UInt8) : head cur (c :: s ++ t) = head (cur ++ [c]) (s ++ t) := by
      rw [List.cons_append, head]
      rintro s' rfl hs'
      cases s with
      | nil =>
        rcases hend with ⟨-, hnil⟩ | hend
        · simp at hnil
        · simp at hend
      | cons d s =>
        obtain ⟨rfl, -⟩ := List.cons.inj hs'
        exact hc s rfl rfl
    simp only [hstep]
    exact ih hend

end Head

/-! ## Fields -/

/-- No whitespace at either end. -/
def Trimmed (s : List UInt8) : Prop :=
  ∀ c, s.head? = some c ∨ s.getLast? = some c → isOws c = false

theorem trim_cons_space (s : List UInt8) : trim (32 :: s) = trim s := by
  rw [trim, List.dropWhile_cons_of_pos (by decide), trim]

theorem trim_eq_self_iff {s : List UInt8} : trim s = s ↔ Trimmed s := by
  constructor
  · intro h
    -- what is left after either step is no longer than what was there before
    have hsuffix := List.dropWhile_suffix (l := s) isOws
    have hprefix := List.rdropWhile_prefix (l := s.dropWhile isOws) isOws
    rw [trim] at h
    rw [h] at hprefix
    have hdrop : s.dropWhile isOws = s :=
      hsuffix.eq_of_length (Nat.le_antisymm hsuffix.length_le hprefix.length_le)
    rw [hdrop] at h
    rintro c (hc | hc)
    · cases s with
      | nil => exact absurd hc.symm (Option.some_ne_none c)
      | cons d s =>
        obtain rfl : d = c := Option.some.inj hc
        exact Bool.eq_false_iff.mpr (List.dropWhile_eq_self_iff.mp hdrop (Nat.succ_pos _))
    · have hne : s ≠ [] := by
        rintro rfl
        exact absurd hc.symm (Option.some_ne_none c)
      rw [List.getLast?_eq_some_getLast hne, Option.some.injEq] at hc
      rw [← hc]
      exact Bool.eq_false_iff.mpr (List.rdropWhile_eq_self_iff.mp h hne)
  · intro h
    have hdrop : s.dropWhile isOws = s := by
      cases s with
      | nil => rfl
      | cons c s => rw [List.dropWhile_cons_of_neg (by simp [h c (.inl rfl)])]
    rw [trim, hdrop, List.rdropWhile_eq_self_iff]
    intro hne
    exact Bool.eq_false_iff.mp (h _ (.inr (List.getLast?_eq_some_getLast hne)))

/-- A field line, as it is usually written. -/
def fieldLine (f : Field) : List UInt8 := f.name ++ 58 :: 32 :: f.value

theorem readField_fieldLine {f : Field} (hname : IsToken f.name) (hvalue : InLine f.value) :
    readField (fieldLine f) = some ⟨f.name, trim f.value⟩ := by
  have hcolon : ∀ c ∈ f.name, (c != 58) = true := by
    intro c hc
    have htchar := hname.2 c hc
    rw [bne_iff_ne]
    rintro rfl
    exact absurd htchar (by decide)
  have hline : InLine (32 :: f.value) := by
    obtain ⟨hcr, hlf⟩ := hvalue
    exact ⟨by simp [hcr], by simp [hlf]⟩
  rw [readField, fieldLine, List.dropWhile_append_of_pos hcolon,
    List.dropWhile_cons_of_neg (by decide)]
  simp only [List.takeWhile_append_of_pos hcolon]
  rw [List.takeWhile_cons_of_neg (by decide), List.append_nil, if_pos ⟨hname, hline⟩,
    trim_cons_space]

theorem mapM_fieldLine {fs : List Field} (h : ∀ f ∈ fs, IsToken f.name ∧ InLine f.value) :
    (fs.map fieldLine).mapM readField = some (fs.map fun f ↦ ⟨f.name, trim f.value⟩) := by
  induction fs with
  | nil => rfl
  | cons f fs ih =>
    obtain ⟨hf, hrest⟩ := List.forall_mem_cons.mp h
    rw [List.map_cons, List.mapM_cons, readField_fieldLine hf.1 hf.2, ih hrest]
    rfl

theorem not_mem_of_isToken {s : List UInt8} {c : UInt8} (h : IsToken s) (hc : isTchar c = false) :
    c ∉ s := by
  intro hmem
  exact absurd (hc.symm.trans (h.2 c hmem)) Bool.false_ne_true

theorem fieldLine_ok {f : Field} (hname : IsToken f.name) (hvalue : InLine f.value) :
    13 ∉ fieldLine f ∧ fieldLine f ≠ [] := by
  have hcr : 13 ∉ f.name := not_mem_of_isToken hname (by decide)
  exact ⟨by simp [fieldLine, hcr, hvalue.1], by simp [fieldLine]⟩

/-! ## Lengths -/

section Lengths

variable {fs : List Field} {name : List UInt8}

theorem valuesOf_eq_nil_iff : valuesOf name fs = [] ↔ ∀ f ∈ fs, f.name.map lower ≠ name := by
  rw [valuesOf, List.map_eq_nil_iff, List.filter_eq_nil_iff]
  simp only [beq_iff_eq, ne_eq]

/-- Fields of different names: what it takes for at most one of them to bear this name but for the
case, with a value of which `P` holds. -/
theorem valuesOf_atMostOne_iff (hnodup : (fs.map Field.name).Nodup) {P : List UInt8 → Prop} :
    (valuesOf name fs = [] ∨ ∃ v, valuesOf name fs = [v] ∧ P v) ↔
      (∀ f ∈ fs, f.name.map lower = name → P f.value) ∧
        ∀ f ∈ fs, ∀ g ∈ fs, f.name.map lower = name → g.name.map lower = name →
          f.name = g.name := by
  have hmem (f : Field) : f ∈ fs.filter (fun f ↦ f.name.map lower == name) ↔
      f ∈ fs ∧ f.name.map lower = name := by
    rw [List.mem_filter, beq_iff_eq]
  have hsub : ((fs.filter fun f ↦ f.name.map lower == name).map Field.name).Nodup :=
    hnodup.sublist (List.filter_sublist.map _)
  rw [valuesOf]
  generalize fs.filter (fun f ↦ f.name.map lower == name) = found at hmem hsub
  constructor
  · rintro (hnil | ⟨v, hone, hv⟩)
    · rw [List.map_eq_nil_iff] at hnil
      subst hnil
      refine ⟨fun f hf hname ↦ ?_, fun f hf g hg hname ↦ ?_⟩
      · exact absurd ((hmem f).mpr ⟨hf, hname⟩) List.not_mem_nil
      · exact absurd ((hmem f).mpr ⟨hf, hname⟩) List.not_mem_nil
    · obtain ⟨f₀, rfl, rfl⟩ := List.map_eq_singleton_iff.mp hone
      have honly : ∀ f ∈ fs, f.name.map lower = name → f = f₀ := fun f hf hname ↦
        List.mem_singleton.mp ((hmem f).mpr ⟨hf, hname⟩)
      refine ⟨fun f hf hname ↦ ?_, fun f hf g hg hname hname' ↦ ?_⟩
      · rwa [honly f hf hname]
      · rw [honly f hf hname, honly g hg hname']
  · rintro ⟨hvalue, hname⟩
    match found, hmem, hsub with
    | [], _, _ => exact .inl rfl
    | [f], hmem, _ =>
      obtain ⟨hf, hf'⟩ := (hmem f).mp List.mem_cons_self
      exact .inr ⟨f.value, rfl, hvalue f hf hf'⟩
    | f :: g :: _, hmem, hsub =>
      obtain ⟨hf, hf'⟩ := (hmem f).mp List.mem_cons_self
      obtain ⟨hg, hg'⟩ := (hmem g).mp (List.mem_cons_of_mem _ List.mem_cons_self)
      have hne := (List.nodup_cons.mp hsub).1
      rw [hname f hf g hg hf' hg'] at hne
      exact absurd List.mem_cons_self hne

theorem readBody_eq_some_iff {rest : List UInt8} (hrest : lengths fs = [] → rest = []) :
    readBody fs rest (if rest = [] then some [] else none) = some rest ↔
      codings fs = [] ∧
        (lengths fs = [] ∨ ∃ n, lengths fs = [n] ∧ readNumber n = some rest.length) := by
  rw [readBody]
  generalize codings fs = cs
  generalize lengths fs = ns at hrest ⊢
  match cs, ns with
  | [], [] => simp [hrest rfl]
  | [], [n] => simp
  | [], n :: n' :: ns => simp
  | [coding], [] =>
    rw [hrest rfl]
    simp [unchunk, line]
  | [coding], n :: ns => simp
  | coding :: coding' :: cs, ns => simp

theorem valuesOf_append (gs : List Field) :
    valuesOf name (fs ++ gs) = valuesOf name fs ++ valuesOf name gs := by
  rw [valuesOf, List.filter_append, List.map_append]
  rfl

/-- With one length, the body is all that follows the head, and as long as that says. -/
theorem readBody_of_lengths {n rest : List UInt8} (h : lengths fs = [n])
    (without : Option (List UInt8)) {body : List UInt8} :
    readBody fs rest without = some body ↔
      codings fs = [] ∧ body = rest ∧ readNumber n = some rest.length := by
  rw [readBody, h]
  cases codings fs with
  | nil =>
    simp only [true_and]
    split_ifs with hn
    · simp [hn, eq_comm]
    · simp [hn]
  | cons coding codings => simp

end Lengths

/-! ## Requests -/

theorem readRequestLine_eq {method target version : List UInt8} (hmethod : 32 ∉ method)
    (htarget : 32 ∉ target) (hversion : 32 ∉ version) :
    readRequestLine (method ++ 32 :: (target ++ 32 :: version)) =
      if IsToken method ∧ target ≠ [] ∧ target.all (fun c ↦ !isSpace c)
        ∧ version = ofString "HTTP/1.1" then some (method, target)
      else none := by
  have hsplit : (method ++ 32 :: (target ++ 32 :: version)).splitOn 32
      = [method, target, version] := by
    rw [List.splitOn_append_cons_self_of_not_mem hmethod,
      List.splitOn_append_cons_self_of_not_mem htarget, List.splitOn_eq_singleton hversion]
  rw [readRequestLine, hsplit]

/-- **A request that is made of lines is read line by line.** -/
theorem readRequest_lines {start rest : List UInt8} {fs : List Field}
    (hstart : 13 ∉ start ∧ start ≠ []) (hfs : ∀ f ∈ fs, IsToken f.name ∧ InLine f.value) :
    readRequest (lines (start :: fs.map fieldLine) ++ 13 :: 10 :: rest) =
      (readRequestLine start).bind fun r ↦
        (readBody (fs.map fun f ↦ ⟨f.name, trim f.value⟩) rest
          (if rest = [] then some [] else none)).map fun body ↦
          ⟨r.1, r.2, fs.map fun f ↦ ⟨f.name, trim f.value⟩, body⟩ := by
  have hlines : ∀ l ∈ start :: fs.map fieldLine, 13 ∉ l ∧ l ≠ [] := by
    refine List.forall_mem_cons.mpr ⟨hstart, ?_⟩
    intro l hl
    obtain ⟨f, hf, rfl⟩ := List.mem_map.mp hl
    exact fieldLine_ok (hfs f hf).1 (hfs f hf).2
  have hhead : head [] (lines (start :: fs.map fieldLine) ++ 13 :: 10 :: rest)
      = some (start :: fs.map fieldLine, rest) := by
    rw [head_lines hlines]
    simp [head]
  rw [readRequest, hhead]
  simp only [mapM_fieldLine hfs, Option.bind_some]

/-! ## Responses without a body -/

theorem mapM_append_eq_some {ls ls' : List (List UInt8)} {fs : List Field} :
    (ls ++ ls').mapM readField = some fs ↔
      ∃ gs gs', ls.mapM readField = some gs ∧ ls'.mapM readField = some gs' ∧ fs = gs ++ gs' := by
  rw [List.mapM_append]
  cases ls.mapM readField with
  | none => simp
  | some gs =>
    cases ls'.mapM readField with
    | none => simp
    | some gs' => simp [eq_comm]

theorem status_of_readResponse {start s : List UInt8} {m : Response}
    (hstart : 13 ∉ start ∧ start ≠ []) (h : readResponse (start ++ 13 :: 10 :: s) = some m) :
    readStatusLine start = some m.status := by
  rw [readResponse, head_line hstart.1 hstart.2] at h
  cases hhead : head [] s with
  | none =>
    rw [hhead] at h
    exact absurd h.symm (Option.some_ne_none m)
  | some r =>
    rw [hhead] at h
    simp only [Option.map_some, Option.bind_eq_some_iff, Option.map_eq_some_iff] at h
    obtain ⟨status, hstatus, _, _, _, _, rfl⟩ := h
    exact hstatus

/-- The response that is read has this code, a length that is right, and nothing else. -/
def ReadsEmpty (s : List UInt8) (status : ℕ) : Prop :=
  ∃ m, readResponse s = some m ∧ m.status = status
    ∧ (∃ n, lengths m.fields = [n] ∧ readNumber n = some m.body.length) ∧ m.body = []

theorem readsEmpty_of_head {s l rest : List UInt8} {ls : List (List UInt8)} {status : ℕ}
    (hhead : head [] s = some (l :: ls, rest)) (hstatus : bodiless status = false) :
    ReadsEmpty s status ↔ readStatusLine l = some status ∧ rest = [] ∧
      ∃ fs, ls.mapM readField = some fs ∧ codings fs = [] ∧
        ∃ n, lengths fs = [n] ∧ readNumber n = some 0 := by
  rw [ReadsEmpty, readResponse, hhead]
  simp only [Option.bind_eq_some_iff, Option.map_eq_some_iff]
  constructor
  · rintro ⟨m, ⟨code, hcode, fs, hfs, body, hbody, rfl⟩, rfl, ⟨n, hn, hnumber⟩, rfl⟩
    simp only [hstatus, Bool.false_eq_true, if_false, readBody_of_lengths hn] at hbody
    obtain ⟨hcoding, hrest, hlength⟩ := hbody
    exact ⟨hcode, hrest.symm, fs, hfs, hcoding, n, hn, hnumber⟩
  · rintro ⟨hcode, rfl, fs, hfs, hcoding, n, hn, hnumber⟩
    refine ⟨⟨status, fs, []⟩, ⟨status, hcode, fs, hfs, [], ?_, rfl⟩, rfl, ⟨n, hn, hnumber⟩, rfl⟩
    rw [hstatus, if_neg Bool.false_ne_true, readBody_of_lengths hn]
    exact ⟨hcoding, rfl, hnumber⟩

/-- **Responses without a body.** A response that consists of a start line, a block of lines, some
more field lines that say nothing about its length, and a content, is read as an empty one exactly
if the block is made of field lines that give the length `0`, and there is no content. -/
theorem readsEmpty_iff {start block content : List UInt8} {tail : List Field} {status : ℕ}
    (hstart : 13 ∉ start ∧ start ≠ []) (hblock : Ended [] block)
    (htail : ∀ f ∈ tail, IsToken f.name ∧ InLine f.value)
    (hlengths : lengths (tail.map fun f ↦ ⟨f.name, trim f.value⟩) = [])
    (hcodings : codings (tail.map fun f ↦ ⟨f.name, trim f.value⟩) = [])
    (hstatus : bodiless status = false) :
    ReadsEmpty (start ++ 13 :: 10 :: (block ++ (lines (tail.map fieldLine) ++ 13 :: 10 :: content)))
        status ↔
      readStatusLine start = some status ∧ content = [] ∧
        ∃ fs, readFields (block ++ [13, 10]) = some (fs, []) ∧ codings fs = [] ∧
          ∃ n, lengths fs = [n] ∧ readNumber n = some 0 := by
  have hlines : ∀ l ∈ tail.map fieldLine, 13 ∉ l ∧ l ≠ [] := by
    intro l hl
    obtain ⟨f, hf, rfl⟩ := List.mem_map.mp hl
    exact fieldLine_ok (htail f hf).1 (htail f hf).2
  have hhead : head [] (lines (tail.map fieldLine) ++ 13 :: 10 :: content)
      = some (tail.map fieldLine, content) := by
    rw [head_lines hlines]
    simp [head]
  obtain ⟨ls, ⟨hown, happend⟩ | ⟨rest, hown, happend⟩⟩ := head_append hblock
  · -- the block is the first part of the fields
    rw [readsEmpty_of_head (by rw [head_line hstart.1 hstart.2, happend, hhead]; rfl) hstatus,
      readFields, hown]
    simp only [mapM_append_eq_some, mapM_fieldLine htail, Option.bind_some, Option.map_eq_some_iff,
      Prod.mk.injEq, and_true, exists_eq_right]
    refine and_congr_right fun _ ↦ and_congr_right fun _ ↦ ?_
    constructor
    · rintro ⟨_, ⟨fs, fs', hfs, hfs', rfl⟩, hcoding, n, hn, hnumber⟩
      rw [Option.some.injEq] at hfs'
      subst hfs'
      rw [codings, valuesOf_append, ← codings, hcodings, List.append_nil] at hcoding
      rw [lengths, valuesOf_append, ← lengths, hlengths, List.append_nil] at hn
      exact ⟨fs, hfs, hcoding, n, hn, hnumber⟩
    · rintro ⟨fs, hfs, hcoding, n, hn, hnumber⟩
      refine ⟨_, ⟨fs, _, hfs, rfl, rfl⟩, ?_, n, ?_, hnumber⟩
      · rw [codings, valuesOf_append, ← codings, hcodings, hcoding, List.append_nil]
      · rw [lengths, valuesOf_append, ← lengths, hlengths, hn, List.append_nil]
  · -- the block ends the head, and the other lines would be a body
    rw [readsEmpty_of_head (by rw [head_line hstart.1 hstart.2, happend]; rfl) hstatus,
      readFields, hown]
    simp

end HttpMessage
