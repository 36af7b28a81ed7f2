import Knet.Lib.Bytes
import Knet.Lib.Text
import Mathlib.Data.Finmap
import Mathlib.Data.List.TakeWhile
import Mathlib.Algebra.Ring.Int.Defs

/-!
# Urls

`KNetUrl`: a protocol, a host, a port and parameters, with `parse` and `encode`.

The parameters are read by a loop over the characters behind the question mark. It keeps one flag,
which says whether a character belongs to a key, and turns it at every `=` and every `&`. The index
of the loop is a `uint32_t`: in a text of `2 ^ 32` characters or more the loop never ends, and in a
text of `2 ^ 32 - 1` characters without a question mark it starts over at the first character.

A text is the list of its characters. The parameters are a finite map; `encode` goes through it in
an order of its own, which is a list of its entries.
-/

namespace Knet.Utils

/-- A parameter: its key and its value. -/
abbrev Param := Σ _ : List UInt8, List UInt8

/-- The parameters of a url. -/
abbrev Params := Finmap fun _ : List UInt8 ↦ List UInt8

/-- A `KNetUrl`. -/
structure KNetUrl where
  protocol : List UInt8 := []
  host : List UInt8 := []
  port : UInt16 := 0
  params : Params := ∅

/-- `"://"`. -/
def schemeEnd : List UInt8 := [58, 47, 47]

/-! ## `std::stoi` -/

/-- `isspace`. -/
def isSpace (c : UInt8) : Bool := c = 32 || 9 ≤ c && c ≤ 13

/-- An optional sign, and what follows. -/
def signed : List UInt8 → ℤ × List UInt8
  | 45 :: p => (-1, p)
  | 43 :: p => (1, p)
  | p => (1, p)

/-- `std::stoi`, or `none` when it throws. What follows the digits is ignored. -/
def stoi (p : List UInt8) : Option ℤ :=
  let (sign, p) := signed (p.dropWhile isSpace)
  let digits := p.takeWhile Text.isDigit
  let n := sign * Text.value digits
  if digits = [] ∨ n < -2 ^ 31 ∨ 2 ^ 31 ≤ n then none else some n

/-- The cast to `uint16_t`. -/
def toPort (n : ℤ) : UInt16 := UInt16.ofNat (n % 2 ^ 16).toNat

/-! ## The parameters -/

/-- The variables of the loop over the parameters. -/
structure Scan where
  isKey : Bool := true
  key : List UInt8 := []
  value : List UInt8 := []
  params : Params := ∅

/-- One character. -/
def Scan.step (st : Scan) (c : UInt8) : Scan :=
  if c = 61 then { st with isKey := !st.isKey }
  else if c = 38 then
    { isKey := !st.isKey, key := [], value := [], params := st.params.insert st.key st.value }
  else if st.isKey then { st with key := st.key ++ [c] }
  else { st with value := st.value ++ [c] }

/-- The parameters when the text is through: the last one is kept if it has a key. -/
def Scan.finish (st : Scan) : Params :=
  if st.key ≠ [] then st.params.insert st.key st.value else st.params

/-- The loop, or `none` when it has not ended after `fuel` rounds. -/
def loop (channel : List UInt8) : ℕ → UInt32 → Scan → Option Scan
  | 0, _, _ => none
  | fuel + 1, i, st =>
    match channel[i.toNat]? with
    | some c => loop channel fuel (i + 1) (st.step c)
    | none => some st

/-! ## `parse` and `encode` -/

/-- How `parse` ends. -/
inductive Parsed
  /-- `std::stoi` has thrown. -/
  | threw
  | returned (ok : Bool) (url : KNetUrl)

/-- The host and the port, or `none` when `std::stoi` throws. -/
def hostPort (hostInfo : List UInt8) : Option (List UInt8 × UInt16) :=
  if 58 ∈ hostInfo then
    let p := hostInfo.drop (hostInfo.idxOf 58 + 1)
    let host := hostInfo.take (hostInfo.idxOf 58)
    if p = [] then some (host, 0) else (stoi p).map fun n ↦ (host, toPort n)
  else some (hostInfo, 0)

/-- `parse`, or `none` when its loop has not ended after `fuel` rounds. -/
def parse (fuel : ℕ) (channel : List UInt8) : Option Parsed :=
  match Text.find schemeEnd channel with
  | none => some (.returned false {})
  | some found =>
    let pos := found + 2
    let pPos := pos + (channel.drop pos).idxOf 63
    let hostInfo := (channel.drop (pos + 1)).take (pPos - (pos + 1))
    match hostPort hostInfo with
    | none => some .threw
    | some (host, port) =>
      (loop channel fuel (UInt32.ofNat (pPos + 1)) {}).map fun st ↦
        .returned true ⟨channel.take found, host, port, st.finish⟩

/-- `parse` comes to an end with this outcome. -/
def Returns (channel : List UInt8) (r : Parsed) : Prop := ∃ fuel, parse fuel channel = some r

/-- An entry of the parameters, as `encode` writes it. -/
def entryText (kv : Param) : List UInt8 := kv.1 ++ 61 :: (kv.2 ++ [38])

/-- The host and the port, as `encode` writes them. -/
def KNetUrl.hostInfo (u : KNetUrl) : List UInt8 :=
  u.host ++ if 0 < u.port then 58 :: Text.decimal u.port.toNat else []

/-- `encode`, going through the parameters in the order of `entries`. -/
def KNetUrl.encode (u : KNetUrl) (entries : AList fun _ : List UInt8 ↦ List UInt8) : List UInt8 :=
  (u.protocol ++ (schemeEnd ++ u.hostInfo))
    ++ if entries.entries = [] then [] else 63 :: entries.entries.flatMap entryText

/-! ## The loop -/

theorem toNat_next {channel : List UInt8} (hlen : channel.length < 2 ^ 32) {i : UInt32}
    (hi : i.toNat < channel.length) : (i + 1).toNat = i.toNat + 1 := by
  rw [UInt32.toNat_add]
  exact Nat.mod_eq_of_lt (by simpa using by omega)

/-- In a text that a 32-bit index can run through, the loop reads what stands from its first index
on. -/
theorem loop_eq_foldl {channel : List UInt8} (hlen : channel.length < 2 ^ 32) {fuel : ℕ}
    {i : UInt32} (hfuel : channel.length - i.toNat < fuel) (st : Scan) :
    loop channel fuel i st = some ((channel.drop i.toNat).foldl Scan.step st) := by
  induction fuel generalizing i st with
  | zero => exact absurd hfuel (Nat.not_lt_zero _)
  | succ fuel ih =>
    rw [loop]
    by_cases hi : i.toNat < channel.length
    · have hnext := toNat_next hlen hi
      rw [List.getElem?_eq_getElem hi, List.drop_eq_getElem_cons hi]
      dsimp only
      rw [ih (by omega), hnext]
      rfl
    · rw [List.getElem?_eq_none (by omega), List.drop_eq_nil_of_le (by omega)]
      rfl

theorem eq_foldl_of_loop {channel : List UInt8} (hlen : channel.length < 2 ^ 32) {fuel : ℕ}
    {i : UInt32} {st st' : Scan} (h : loop channel fuel i st = some st') :
    st' = (channel.drop i.toNat).foldl Scan.step st := by
  induction fuel generalizing i st with
  | zero => exact absurd h (by simp [loop])
  | succ fuel ih =>
    rw [loop] at h
    by_cases hi : i.toNat < channel.length
    · have hnext := toNat_next hlen hi
      rw [List.getElem?_eq_getElem hi] at h
      rw [ih h, hnext, List.drop_eq_getElem_cons hi]
      rfl
    · rw [List.getElem?_eq_none (by omega)] at h
      rw [List.drop_eq_nil_of_le (by omega)]
      exact (Option.some.inj h).symm

/-- In a longer text it never ends. -/
theorem loop_eq_none {channel : List UInt8} (hlen : 2 ^ 32 ≤ channel.length) (fuel : ℕ) (i : UInt32)
    (st : Scan) : loop channel fuel i st = none := by
  induction fuel generalizing i st with
  | zero => rfl
  | succ fuel ih =>
    have hi : i.toNat < channel.length := Nat.lt_of_lt_of_le i.toNat_lt hlen
    rw [loop, List.getElem?_eq_getElem hi]
    exact ih _ _

/-! ## Scanning -/

/-- The parameters that come from assignments one after the other. -/
def assigned (m : Params) (ps : List Param) : Params := ps.foldl (fun m kv ↦ m.insert kv.1 kv.2) m

theorem foldl_step_of_not_mem {t : List UInt8} (heq : 61 ∉ t) (hamp : 38 ∉ t) (st : Scan) :
    t.foldl Scan.step st
      = if st.isKey then { st with key := st.key ++ t }
        else { st with value := st.value ++ t } := by
  induction t generalizing st with
  | nil => simp
  | cons c t ih =>
    obtain ⟨hc, ht⟩ := List.ne_and_not_mem_of_not_mem_cons heq
    obtain ⟨hc', ht'⟩ := List.ne_and_not_mem_of_not_mem_cons hamp
    rw [List.foldl_cons, ih ht ht', Scan.step, if_neg hc.symm, if_neg hc'.symm]
    cases st.isKey <;> simp

theorem step_equals (st : Scan) : st.step 61 = { st with isKey := !st.isKey } := rfl

theorem step_ampersand (st : Scan) :
    st.step 38 = { isKey := !st.isKey, params := st.params.insert st.key st.value } := rfl

/-- The loop has just stored a parameter and expects a key. -/
def expectingKey (m : Params) : Scan := { params := m }

/-- **An entry that `encode` wrote is read back.** -/
theorem foldl_step_entryText {kv : Param} (hkey : 61 ∉ kv.1 ∧ 38 ∉ kv.1)
    (hvalue : 61 ∉ kv.2 ∧ 38 ∉ kv.2) (m : Params) :
    (entryText kv).foldl Scan.step (expectingKey m) = expectingKey (m.insert kv.1 kv.2) := by
  rw [entryText, List.foldl_append, foldl_step_of_not_mem hkey.1 hkey.2, List.foldl_cons,
    List.foldl_append]
  simp only [expectingKey, if_true, step_equals, List.nil_append]
  rw [foldl_step_of_not_mem hvalue.1 hvalue.2]
  rfl

theorem foldl_step_entries {ps : List Param}
    (h : ∀ kv ∈ ps, (61 ∉ kv.1 ∧ 38 ∉ kv.1) ∧ 61 ∉ kv.2 ∧ 38 ∉ kv.2) (m : Params) :
    (ps.flatMap entryText).foldl Scan.step (expectingKey m) = expectingKey (assigned m ps) := by
  induction ps generalizing m with
  | nil => rfl
  | cons kv ps ih =>
    obtain ⟨⟨hkey, hvalue⟩, hps⟩ := List.forall_mem_cons.mp h
    rw [List.flatMap_cons, List.foldl_append, foldl_step_entryText hkey hvalue, ih hps]
    rfl

theorem lookup_assigned {ps : List Param} (h : ps.NodupKeys) (m : Params) (k : List UInt8) :
    (assigned m ps).lookup k = (ps.dlookup k).or (m.lookup k) := by
  induction ps generalizing m with
  | nil => rfl
  | cons kv ps ih =>
    obtain ⟨key, value⟩ := kv
    obtain ⟨hkey, hps⟩ := List.nodupKeys_cons.mp h
    have hstep : assigned m (⟨key, value⟩ :: ps) = assigned (m.insert key value) ps := rfl
    rw [hstep, ih hps]
    by_cases hk : k = key
    · subst hk
      rw [List.dlookup_eq_none.mpr hkey, List.dlookup_cons_eq, Finmap.lookup_insert]
      rfl
    · have hcons : (⟨key, value⟩ :: ps : List Param).dlookup k = ps.dlookup k :=
        List.dlookup_cons_ne ps _ hk
      rw [hcons, Finmap.lookup_insert_of_ne _ hk]

theorem assigned_entries (l : AList fun _ : List UInt8 ↦ List UInt8) :
    assigned ∅ l.entries = l.toFinmap := by
  refine Finmap.ext_lookup fun k ↦ ?_
  rw [lookup_assigned l.nodupKeys, Finmap.lookup_empty, Option.or_none, Finmap.lookup_toFinmap]
  rfl

/-! ## What `parse` does with an address -/

theorem not_mem_schemeEnd : (58 : UInt8) ∉ [(47 : UInt8), 47] := by decide

/-- A text cut where `parse` cuts it: in front of the first `://`, behind it, and in front of the
question mark, if there is one. -/
structure Cut where
  protocol : List UInt8
  hostInfo : List UInt8
  rest : List UInt8
  protocol_ok : ¬schemeEnd <:+: protocol
  hostInfo_ok : 63 ∉ hostInfo
  rest_ok : rest = [] ∨ ∃ query, rest = 63 :: query

namespace Cut

variable (x : Cut)

/-- What stands in front of the question mark. -/
def front : List UInt8 := x.protocol ++ (schemeEnd ++ x.hostInfo)

def text : List UInt8 := x.front ++ x.rest

/-- The part of the text that the loop goes through. -/
def scanned : List UInt8 := x.text.drop ((x.front.length + 1) % 2 ^ 32)

theorem text_eq : x.text = x.protocol ++ (schemeEnd ++ (x.hostInfo ++ x.rest)) := by
  simp [text, front]

theorem find_text : Text.find schemeEnd x.text = some x.protocol.length := by
  rw [text_eq]
  exact Text.find_append not_mem_schemeEnd x.protocol_ok (x.hostInfo ++ x.rest)

theorem drop_text : x.text.drop (x.protocol.length + 2) = 47 :: (x.hostInfo ++ x.rest) := by
  rw [text_eq, ← List.drop_drop, List.drop_left]
  rfl

theorem idxOf_rest : (x.hostInfo ++ x.rest).idxOf 63 = x.hostInfo.length := by
  rw [List.idxOf_append_of_notMem x.hostInfo_ok]
  rcases x.rest_ok with h | ⟨query, h⟩
  · rw [h]
    rfl
  · rw [h, List.idxOf_cons_self]
    rfl

theorem length_front : x.front.length = x.protocol.length + 2 + (x.hostInfo.length + 1) := by
  rw [front, List.length_append, List.length_append, schemeEnd]
  simp only [List.length_cons, List.length_nil]
  omega

/-- **`parse` up to its loop.** -/
theorem parse_eq (fuel : ℕ) :
    parse fuel x.text = (hostPort x.hostInfo).elim (some .threw) fun hp ↦
      (loop x.text fuel (UInt32.ofNat (x.front.length + 1)) {}).map fun st ↦
        .returned true ⟨x.protocol, hp.1, hp.2, st.finish⟩ := by
  have hdrop : x.text.drop (x.protocol.length + 2 + 1) = x.hostInfo ++ x.rest := by
    rw [← List.drop_drop, drop_text]
    rfl
  have hidx : ((47 : UInt8) :: (x.hostInfo ++ x.rest)).idxOf 63 = x.hostInfo.length + 1 := by
    rw [List.idxOf_cons_ne _ (by decide), idxOf_rest]
  have hsub : x.protocol.length + 2 + (x.hostInfo.length + 1) - (x.protocol.length + 2 + 1)
      = x.hostInfo.length := by omega
  have htake : x.text.take x.protocol.length = x.protocol := by
    rw [text_eq, List.take_left]
  rw [parse, find_text]
  dsimp only
  rw [drop_text, hidx, hdrop, htake, length_front, hsub, List.take_left]
  cases hostPort x.hostInfo <;> rfl

variable {x} {host : List UInt8} {port : UInt16} (hhost : hostPort x.hostInfo = some (host, port))
include hhost

/-- **How `parse` ends** on a text that a 32-bit index can run through. -/
theorem returns_iff_of_lt (hlen : x.text.length < 2 ^ 32) (r : Parsed) :
    Returns x.text r
      ↔ r = .returned true ⟨x.protocol, host, port, (x.scanned.foldl Scan.step {}).finish⟩ := by
  have hstart : (UInt32.ofNat (x.front.length + 1)).toNat = (x.front.length + 1) % 2 ^ 32 :=
    UInt32.toNat_ofNat'
  constructor
  · rintro ⟨fuel, hfuel⟩
    rw [parse_eq, hhost, Option.elim_some] at hfuel
    obtain ⟨st, hst, rfl⟩ := Option.map_eq_some_iff.mp hfuel
    rw [eq_foldl_of_loop hlen hst, hstart]
    rfl
  · rintro rfl
    refine ⟨x.text.length + 1, ?_⟩
    rw [parse_eq, hhost, Option.elim_some, loop_eq_foldl hlen (by omega), hstart]
    rfl

theorem not_returns_of_le (hlen : 2 ^ 32 ≤ x.text.length) (r : Parsed) : ¬Returns x.text r := by
  rintro ⟨fuel, hfuel⟩
  rw [parse_eq, hhost, Option.elim_some, loop_eq_none hlen] at hfuel
  exact absurd hfuel (by simp)

end Cut

theorem Cut.scanned_query {x : Cut} {query : List UInt8} (h : x.rest = 63 :: query)
    (hlen : x.text.length < 2 ^ 32) : x.scanned = query := by
  have hlen' : x.text.length = x.front.length + (query.length + 1) := by
    rw [text, h, List.length_append, List.length_cons]
  rw [scanned, Nat.mod_eq_of_lt (by omega), text, h, ← List.drop_drop, List.drop_left]
  rfl

theorem Cut.scanned_nil {x : Cut} (h : x.rest = []) (hlen : x.text.length < 2 ^ 32 - 1) :
    x.scanned = [] := by
  have hlen' : x.text.length = x.front.length := by
    rw [text, h, List.append_nil]
  rw [scanned, Nat.mod_eq_of_lt (by omega)]
  exact List.drop_eq_nil_of_le (by omega)

theorem Cut.scanned_text {x : Cut} (h : x.rest = []) (hlen : x.text.length = 2 ^ 32 - 1) :
    x.scanned = x.text := by
  have hlen' : x.text.length = x.front.length := by
    rw [text, h, List.append_nil]
  rw [scanned, ← hlen', hlen]
  rfl

/-- The characters of the text belong to values, and no parameter ends in it. -/
def Unnamed : Bool → List UInt8 → Prop
  | _, [] => True
  | isKey, c :: t => if c = 61 then Unnamed (!isKey) t else c ≠ 38 ∧ isKey = false ∧ Unnamed isKey t

theorem insert_ne_empty (m : Params) (key value : List UInt8) : m.insert key value ≠ ∅ := by
  intro h
  have hlookup := Finmap.lookup_insert (a := key) (b := value) m
  rw [h, Finmap.lookup_empty] at hlookup
  exact absurd hlookup (by simp)

/-- A parameter was stored, or one with a key is being read. -/
def Scan.Named (st : Scan) : Prop := st.key ≠ [] ∨ st.params ≠ ∅

theorem Scan.Named.step {st : Scan} (h : st.Named) (c : UInt8) : (st.step c).Named := by
  rw [Scan.step]
  split_ifs
  · exact h
  · exact .inr (insert_ne_empty _ _ _)
  · exact .inl (by simp)
  · exact h

theorem Scan.Named.finish {st : Scan} (h : st.Named) (t : List UInt8) :
    (t.foldl Scan.step st).finish ≠ ∅ := by
  induction t generalizing st with
  | nil =>
    rw [List.foldl_nil, Scan.finish]
    split_ifs with hkey
    · exact insert_ne_empty _ _ _
    · exact h.resolve_left hkey
  | cons c t ih => exact ih (h.step c)

/-- **A text read as parameters gives none** exactly when all its characters belong to values. -/
theorem finish_eq_empty_iff (t : List UInt8) (isKey : Bool) (value : List UInt8) :
    (t.foldl Scan.step { isKey := isKey, value := value }).finish = ∅ ↔ Unnamed isKey t := by
  induction t generalizing isKey value with
  | nil => simp [Scan.finish, Unnamed]
  | cons c t ih =>
    rw [List.foldl_cons, Scan.step, Unnamed]
    split_ifs with heq hamp hkey
    · exact ih (!isKey) value
    · have hnamed : (Scan.step { isKey := isKey, value := value } 38).Named :=
        .inr (insert_ne_empty (∅ : Params) [] value)
      exact ⟨fun h ↦ absurd h (hnamed.finish t), fun h ↦ absurd hamp h.1⟩
    · refine ⟨fun h ↦ ?_, fun h ↦ absurd (hkey.symm.trans h.2.1) (by decide)⟩
      exact absurd h (Scan.Named.finish (.inl (by simp)) t)
    · rw [ih isKey]
      exact ⟨fun h ↦ ⟨hamp, by simpa using hkey, h⟩, fun h ↦ h.2.2⟩

/-- The text is not too long for the 32-bit index: it has fewer than `2 ^ 32 - 1` characters, or
just as many and a question mark, or just as many and none that could be taken for a key. -/
def InRange (t : List UInt8) (query : Bool) : Prop :=
  t.length < 2 ^ 32 - 1 ∨ t.length = 2 ^ 32 - 1 ∧ (query = true ∨ Unnamed true t)

/-- **What `parse` makes of a text cut in this way**: the fields are the parts, and the parameters
are those read behind the question mark, exactly when the text is not too long for the index. -/
theorem Cut.returns_iff {x : Cut} {host : List UInt8} {port : UInt16}
    (hhost : hostPort x.hostInfo = some (host, port)) {params : Params}
    (hnone : x.rest = [] → params = ∅) :
    Returns x.text (.returned true ⟨x.protocol, host, port, params⟩)
      ↔ InRange x.text (decide (x.rest ≠ []))
        ∧ ∀ query, x.rest = 63 :: query → (query.foldl Scan.step {}).finish = params := by
  rcases Nat.lt_or_ge x.text.length (2 ^ 32) with hlen | hlen
  · have hiff : Returns x.text (.returned true ⟨x.protocol, host, port, params⟩)
        ↔ (x.scanned.foldl Scan.step {}).finish = params := by
      rw [returns_iff_of_lt hhost hlen]
      simp only [Parsed.returned.injEq, KNetUrl.mk.injEq, true_and]
      exact eq_comm
    rw [hiff]
    rcases x.rest_ok with hrest | ⟨query, hrest⟩
    · rw [hnone hrest]
      simp only [InRange, hrest, ne_eq, not_true_eq_false, decide_false, Bool.false_eq_true,
        false_or, reduceCtorEq, IsEmpty.forall_iff, implies_true, and_true]
      rcases Nat.lt_or_ge x.text.length (2 ^ 32 - 1) with hlt | hge
      · rw [scanned_nil hrest hlt]
        exact ⟨fun _ ↦ .inl hlt, fun _ ↦ rfl⟩
      · have heq : x.text.length = 2 ^ 32 - 1 := by omega
        rw [scanned_text hrest heq, finish_eq_empty_iff]
        exact ⟨fun h ↦ .inr ⟨heq, h⟩, fun h ↦ (h.resolve_left (by omega)).2⟩
    · have hin : InRange x.text (decide (x.rest ≠ [])) := by
        simp only [InRange, hrest, ne_eq, reduceCtorEq, not_false_eq_true, decide_true, true_or,
          and_true]
        omega
      rw [scanned_query hrest hlen, and_iff_right hin, hrest]
      simp
  · refine ⟨fun h ↦ absurd h (not_returns_of_le hhost hlen _), fun h ↦ ?_⟩
    rcases h.1 with hin | hin <;> omega

/-! ## Numerals -/

theorem not_isDigit_of_mem {p : List UInt8} (h : ∀ c ∈ p, Text.isDigit c = true) {c : UInt8}
    (hc : Text.isDigit c = false) : c ∉ p :=
  fun hmem ↦ absurd ((h c hmem).symm.trans hc) (by decide)

theorem isSpace_of_isDigit {c : UInt8} (h : Text.isDigit c = true) : isSpace c = false := by
  rw [Text.isDigit, Bool.and_eq_true, decide_eq_true_iff, decide_eq_true_iff,
    UInt8.le_iff_toNat_le, UInt8.le_iff_toNat_le] at h
  have hc : ¬c = 32 := fun hc ↦ absurd (hc ▸ h.1) (by decide)
  have hle : ¬c ≤ 13 := by
    rw [UInt8.le_iff_toNat_le]
    have : (48 : UInt8).toNat = 48 := rfl
    have : (13 : UInt8).toNat = 13 := rfl
    omega
  simp [isSpace, hc, hle]

/-- **A numeral in the range of `int` is read.** -/
theorem stoi_of_isDigit {p : List UInt8} (hne : p ≠ []) (hp : ∀ c ∈ p, Text.isDigit c = true)
    (hrange : Text.value p < 2 ^ 31) : stoi p = some (Text.value p : ℤ) := by
  obtain ⟨c, t, rfl⟩ := List.exists_cons_of_ne_nil hne
  have hspace : (c :: t).dropWhile isSpace = c :: t := by
    rw [List.dropWhile_cons_of_neg]
    rw [isSpace_of_isDigit (hp c List.mem_cons_self)]
    decide
  have hminus : c ≠ 45 := fun h ↦ absurd (h ▸ hp c List.mem_cons_self) (by decide)
  have hplus : c ≠ 43 := fun h ↦ absurd (h ▸ hp c List.mem_cons_self) (by decide)
  have hsigned : signed (c :: t) = (1, c :: t) := by
    rw [signed.eq_def]
    split
    · exact absurd (List.cons.inj ‹_›).1 hminus
    · exact absurd (List.cons.inj ‹_›).1 hplus
    · rfl
  have htake : (c :: t).takeWhile Text.isDigit = c :: t := List.takeWhile_eq_self_iff.mpr hp
  rw [stoi, hspace, hsigned]
  dsimp only
  rw [htake, if_neg]
  · rw [one_mul]
  · simp only [List.cons_ne_nil, false_or, one_mul, not_or]
    omega

theorem toPort_natCast {n : ℕ} (h : n < 2 ^ 16) : toPort (n : ℤ) = UInt16.ofNat n := by
  rw [toPort]
  congr 1
  omega

/-- **The host and the port** of a text `host:port`. -/
theorem hostPort_of_port {host p : List UInt8} (hhost : 58 ∉ host) (hne : p ≠ [])
    (hp : ∀ c ∈ p, Text.isDigit c = true) (hrange : Text.value p < 2 ^ 16) :
    hostPort (host ++ 58 :: p) = some (host, UInt16.ofNat (Text.value p)) := by
  have hidx : (host ++ 58 :: p).idxOf 58 = host.length := by
    rw [List.idxOf_append_of_notMem hhost, List.idxOf_cons_self]
    rfl
  rw [hostPort, if_pos (by simp), hidx, List.take_left, ← List.drop_drop, List.drop_left]
  simp only [List.drop_succ_cons, List.drop_zero, hne, if_false]
  rw [stoi_of_isDigit hne hp (by omega), Option.map_some, toPort_natCast hrange]

theorem hostPort_of_not_mem {host : List UInt8} (hhost : 58 ∉ host) :
    hostPort host = some (host, 0) := if_neg hhost

/-! ## The round trip -/

/-- The url can be written so that it is read back: no `://` in the protocol, neither `:` nor `?` in
the host, neither `=` nor `&` in keys and values. -/
structure KNetUrl.Plain (u : KNetUrl) : Prop where
  protocol : ¬schemeEnd <:+: u.protocol
  host : 58 ∉ u.host ∧ 63 ∉ u.host
  params : ∀ key value, u.params.lookup key = some value →
    (61 ∉ key ∧ 38 ∉ key) ∧ 61 ∉ value ∧ 38 ∉ value

variable {u : KNetUrl} {entries : AList fun _ : List UInt8 ↦ List UInt8}

theorem hostPort_hostInfo (h : u.Plain) : hostPort u.hostInfo = some (u.host, u.port) := by
  rw [KNetUrl.hostInfo]
  split_ifs with hport
  · have hlt : Text.value (Text.decimal u.port.toNat) < 2 ^ 16 := by
      rw [Text.value_decimal]
      exact u.port.toNat_lt
    rw [hostPort_of_port h.host.1 (Text.decimal_ne_nil _) Text.isDigit_decimal hlt,
      Text.value_decimal, UInt16.ofNat_toNat]
  · have hzero : u.port = 0 := by
      rw [UInt16.lt_iff_toNat_lt, ← UInt16.toNat_inj] at *
      exact Nat.eq_zero_of_not_pos hport
    rw [List.append_nil, hostPort_of_not_mem h.host.1, hzero]

theorem not_mem_hostInfo (h : u.Plain) : 63 ∉ u.hostInfo := by
  rw [KNetUrl.hostInfo, List.mem_append, not_or]
  refine ⟨h.host.2, ?_⟩
  split_ifs
  · rw [List.mem_cons, not_or]
    exact ⟨by decide, not_isDigit_of_mem Text.isDigit_decimal (by decide)⟩
  · exact List.not_mem_nil

/-- What `encode` writes, cut as `parse` cuts it. -/
def encoded (h : u.Plain) (entries : AList fun _ : List UInt8 ↦ List UInt8) : Cut where
  protocol := u.protocol
  hostInfo := u.hostInfo
  rest := if entries.entries = [] then [] else 63 :: entries.entries.flatMap entryText
  protocol_ok := h.protocol
  hostInfo_ok := not_mem_hostInfo h
  rest_ok := by
    split_ifs
    · exact .inl rfl
    · exact .inr ⟨_, rfl⟩

theorem text_encoded (h : u.Plain) : (encoded h entries).text = u.encode entries := rfl

/-- Parameters without separators in them are read back from where `encode` wrote them. -/
theorem scanned_entries (h : u.Plain) (hentries : entries.toFinmap = u.params) :
    ((entries.entries.flatMap entryText).foldl Scan.step {}).finish = u.params := by
  have hplain : ∀ kv ∈ entries.entries,
      (61 ∉ kv.1 ∧ 38 ∉ kv.1) ∧ 61 ∉ kv.2 ∧ 38 ∉ kv.2 := by
    intro kv hkv
    refine h.params kv.1 kv.2 ?_
    rw [← hentries, Finmap.lookup_toFinmap]
    exact AList.mem_lookup_iff.mpr hkv
  have hscan := foldl_step_entries hplain ∅
  rw [assigned_entries, hentries] at hscan
  exact congrArg Scan.finish hscan

/-- **The round trip.** For every url without separators in its parts, and every order of its
parameters: `parse` reads back what `encode` wrote exactly when the text is not too long for the
index of the loop. -/
theorem parse_encode_iff (h : u.Plain) (hentries : entries.toFinmap = u.params) :
    Returns (u.encode entries) (.returned true u)
      ↔ InRange (u.encode entries) (decide (entries.entries ≠ [])) := by
  have hrest : (encoded h entries).rest = [] ↔ entries.entries = [] := by
    simp [encoded]
  have hnone : (encoded h entries).rest = [] → u.params = ∅ := by
    intro hnil
    rw [← hentries, ← assigned_entries, hrest.mp hnil]
    rfl
  have hread : ∀ query, (encoded h entries).rest = 63 :: query →
      (query.foldl Scan.step {}).finish = u.params := by
    intro query hquery
    have hne : entries.entries ≠ [] := by
      intro hnil
      rw [hrest.mpr hnil] at hquery
      exact absurd hquery (by simp)
    have hsame : 63 :: entries.entries.flatMap entryText = 63 :: query :=
      (if_neg hne).symm.trans hquery
    rw [← (List.cons.inj hsame).2]
    exact scanned_entries h hentries
  have hiff := Cut.returns_iff (x := encoded h entries) (hostPort_hostInfo h) hnone
  rw [and_iff_left hread, text_encoded] at hiff
  simp only [ne_eq, hrest] at hiff
  exact hiff

/-- `t://h:80` with the parameters `k=v` and `=`, in this order. -/
theorem parse_encode_two_params :
    let entries : AList fun _ : List UInt8 ↦ List UInt8 := 
      ⟨[⟨[107], [118]⟩, ⟨[], []⟩], by simp [List.NodupKeys, List.keys]⟩
    let u : KNetUrl := ⟨[116], [104], 80, entries.toFinmap⟩
    u.encode entries = Bytes.ofString "t://h:80?k=v&=&"
      ∧ Returns (u.encode entries) (.returned true u) := by
  intro entries u
  have hplain : u.Plain := by
    refine ⟨by decide, by decide, fun key value hlookup ↦ ?_⟩
    have hmem : (⟨key, value⟩ : Param) ∈ entries.entries :=
      AList.mem_lookup_iff.mp ((Finmap.lookup_toFinmap key entries).symm.trans hlookup)
    exact (by decide : ∀ kv ∈ entries.entries,
      (61 ∉ kv.1 ∧ 38 ∉ kv.1) ∧ 61 ∉ kv.2 ∧ 38 ∉ kv.2) _ hmem
  exact ⟨by decide, (parse_encode_iff hplain rfl).mpr (.inl (by decide))⟩

/-- With a host of `2 ^ 32` characters the loop over the parameters never ends. -/
theorem not_returns_of_long_host (h : u.Plain) (hlong : 2 ^ 32 ≤ u.host.length) (r : Parsed) :
    ¬Returns (u.encode entries) r := by
  have hlen : 2 ^ 32 ≤ (encoded h entries).text.length := by
    rw [text_encoded, KNetUrl.encode, List.length_append, List.length_append, List.length_append,
      KNetUrl.hostInfo, List.length_append]
    omega
  exact Cut.not_returns_of_le (hostPort_hostInfo h) hlen r

/-- A host of `2 ^ 32` letters. -/
theorem long_host_not_parsed :
    let u : KNetUrl := { host := List.replicate (2 ^ 32) 97 }
    u.Plain ∧ (∅ : AList fun _ : List UInt8 ↦ List UInt8).toFinmap = u.params
      ∧ ∀ r, ¬Returns (u.encode ∅) r := by
  intro u
  have hplain : u.Plain := by
    refine ⟨by decide, ⟨?_, ?_⟩, by simp [u]⟩
    · exact fun h ↦ absurd (List.eq_of_mem_replicate h) (by decide)
    · exact fun h ↦ absurd (List.eq_of_mem_replicate h) (by decide)
  have hlong : 2 ^ 32 ≤ u.host.length := Nat.le_of_eq List.length_replicate.symm
  exact ⟨hplain, rfl, not_returns_of_long_host hplain hlong⟩

end Knet.Utils
