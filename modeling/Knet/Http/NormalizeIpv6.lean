import Knet.Http.HttpUrl
import Knet.Lib.Checked
import Knet.Lib.Inet
import Knet.Lib.Runs

/-!
# `normalize_IPv6`

The address is split at its colons into at most ten tokens, the tokens are read into eight fields,
the fields behind the null field are moved to the end of the array, and the first longest run of
zeros is left out of the text that is written. `is_ipv6` has only looked at the characters and the
length; nothing checks that the tokens fit into their array, the fields into theirs, and that the
loop which moves them finds the null field on its way down.
-/

namespace Knet.Http.HttpUrl

open Bytes Checked Runs

/-- `build_error`. -/
inductive BuildError
  /-- `User info defined, but host is empty`. -/
  | userInfo
  /-- `Port defined, but host is empty`. -/
  | port
  /-- `The first segment of the relative path can't contain ':'`. -/
  | segment
  /-- `Path must start with '/' when host is not empty`. -/
  | path
  /-- `First query entry has no key`. -/
  | firstKey
  /-- `A query entry has no key`. -/
  | key
deriving DecidableEq

/-- `parse_error`, and `build_error`. -/
inductive ParseError
  /-- `URI is longer than 8000 characters`. -/
  | tooLong
  /-- `Path '…' in '…' is invalid`. -/
  | path (path : List UInt8)
  /-- `Scheme in '…' is invalid`. -/
  | scheme
  /-- `User info in '…' is invalid`. -/
  | userInfo
  /-- `Missing ] in '…'`. -/
  | missingBracket
  /-- `Host address in '…' is invalid`. -/
  | hostAddress
  /-- `Port '…' in '…' is invalid`. -/
  | port (port : List UInt8)
  /-- `Fragment '…' in '…' is invalid`. -/
  | fragment (fragment : List UInt8)
  /-- `Query key '…' in '…' is invalid`. -/
  | queryKey (key : List UInt8)
  /-- `Query value '…' in '…' is invalid`. -/
  | queryValue (val : List UInt8)
  /-- `Invalid percent encoding`. -/
  | percentEncoding
  /-- `IPv6 […] is invalid`. -/
  | ipv6 (address : List UInt8)
  /-- `Host is longer than 253 characters '…'`. -/
  | hostTooLong (host : List UInt8)
  /-- `Invalid IPv4 address '…'`. -/
  | invalidIpv4 (host : List UInt8)
  /-- `Invalid IPvFuture address '…'`. -/
  | invalidIpvFuture (host : List UInt8)
  /-- `Invalid IPv6 address '…'`. -/
  | invalidIpv6 (host : List UInt8)
  /-- `Invalid host '…'`. -/
  | invalidHost (host : List UInt8)
  /-- Thrown while a URL is built. -/
  | build (e : BuildError)
deriving DecidableEq

/-- What may go wrong on the way. -/
abbrev Checked := Except (Fault ParseError)

namespace NormalizeIpv6

/-! ## Tokens -/

/-- The loop over the characters `cs` from `p` on; the token begins at `b`. -/
def split : List UInt8 → (p : ℕ) → List ℕ → (i b : ℕ) → Checked (List ℕ × ℕ × ℕ)
  | [], _, tokens, i, b => .ok (tokens, i, b)
  | c :: cs, p, tokens, i, b =>
    if c = 58 then do
      let tokens ← store tokens i b
      split cs (p + 1) tokens (i + 1) (p + 1)
    else split cs (p + 1) tokens i b

/-- `tokens` and `ntokens`. -/
def tokenize (s : List UInt8) : Checked (List ℕ × ℕ) := do
  let p := if s.head? = some 58 then 1 else 0
  let e := if s.getLast? = some 58 then s.length - 1 else s.length
  let cs ← slice s p e
  let (tokens, i, b) ← split cs p (List.replicate 10 0) 0 p
  let (tokens, i) ← if i < 8 then do
      let tokens ← store tokens i b
      pure (tokens, i + 1)
    else pure (tokens, i)
  let tokens ← store tokens i e
  pure (tokens, i)

/-- The last token is an IPv4 address when it is longer than any field. -/
def ipv4Token (s : List UInt8) (tokens : List ℕ) (ntokens : ℕ) : Checked (Option (List UInt8)) := do
  let tokenEnd ← load tokens ntokens
  let last ← down ntokens
  let tokenBegin ← load tokens last
  if 5 < tokenEnd - tokenBegin then (slice s tokenBegin tokenEnd).map some else pure none

/-! ## Fields -/

/-- `get_hex_digit` as it is put into a field; what is no digit is `-1`. -/
def hexBits (c : UInt8) : UInt16 := ((getHexDigit c).map UInt8.toUInt16).getD 0xFFFF

/-- A token, read up to a colon. -/
def field (token : List UInt8) : UInt16 :=
  (token.takeWhile (· ≠ 58)).foldl (fun field c ↦ field <<< 4 ||| hexBits c) 0

/-- `null_pos`, `fields` and `nfields`, when `n` tokens are left from `i` on. -/
def decodeFields (s : List UInt8) (tokens : List ℕ) :
    (n i nullPos : ℕ) → List UInt16 → (nfields : ℕ) → Checked (ℕ × List UInt16 × ℕ)
  | 0, _, nullPos, fields, nfields => .ok (nullPos, fields, nfields)
  | n + 1, i, nullPos, fields, nfields => do
    let b ← load tokens i
    let e ← load tokens (i + 1)
    let token ← slice s b e
    if token = [] ∨ token.head? = some 58 then decodeFields s tokens n (i + 1) i fields nfields
    else do
      let fields ← store fields nfields (field token)
      decodeFields s tokens n (i + 1) nullPos fields (nfields + 1)

/-- `do fields[--last] = fields[--i]; while (i != null_pos)`. -/
def shift (nullPos : ℕ) : ℕ → List UInt16 → (last : ℕ) → Checked (List UInt16 × ℕ)
  | 0, _, _ => .error .outside
  | i + 1, fields, last => do
    let last ← down last
    let x ← load fields i
    let fields ← store fields last x
    if i ≠ nullPos then shift nullPos i fields last else pure (fields, last)

/-- `do fields[--last] = 0; while (last != null_pos)`. -/
def clear (nullPos : ℕ) : ℕ → List UInt16 → Checked (List UInt16)
  | 0, _ => .error .outside
  | last + 1, fields => do
    let fields ← store fields last 0
    if last ≠ nullPos then clear nullPos last fields else pure fields

/-- The fields behind the null field go to the end. -/
def expand (nullPos i nfields : ℕ) (fields : List UInt16) : Checked (List UInt16) :=
  if i < nfields then do
    let (fields, last) ← if i ≠ nullPos then shift nullPos i fields nfields
      else pure (fields, nfields)
    clear nullPos last fields
  else pure fields

/-! ## The text -/

/-- `null_pos` and `null_len` of the first longest run of zeros, when it is looked for from `i` on.
-/
def locate (fields : List UInt16) : (fuel i nullPos nullLen : ℕ) → Option (ℕ × ℕ)
  | 0, _, _, _ => none
  | fuel + 1, i, nullPos, nullLen =>
    let first := i + ((fields.drop i).takeWhile (· ≠ 0)).length
    if first = fields.length then some (nullPos, nullLen)
    else
      let i := first + ((fields.drop first).takeWhile (· = 0)).length
      let (nullPos, nullLen) :=
        if nullLen < i - first then (first, i - first) else (nullPos, nullLen)
      if i = fields.length then some (nullPos, nullLen) else locate fields fuel i nullPos nullLen

/-- `std::hex << field`. -/
def hex (field : UInt16) : List UInt8 := Inet.hexDigits 4 field.toNat

/-- Fields with a colon in front of each. -/
def colons (fields : List UInt16) : List UInt8 := fields.flatMap fun field ↦ 58 :: hex field

/-- The fields without those of the null field. -/
def encode (fields : List UInt16) (nullPos nullLen : ℕ) : List UInt8 :=
  if nullPos = 0 then 58 :: colons (fields.drop nullLen)
  else
    hex (fields.headD 0) ++ colons ((fields.take nullPos).drop 1) ++
      (if nullPos < fields.length then [58] else []) ++
      (if nullPos + nullLen = 8 ∧ nullLen ≠ 0 then [58] else []) ++
      colons (fields.drop (nullPos + nullLen))

end NormalizeIpv6

open NormalizeIpv6 in
/-- `normalize_IPv6`. -/
def normalizeIPv6 (s : List UInt8) : Checked (List UInt8) := do
  if !isIpv6 s then throw (.threw (.ipv6 s))
  if s = [58, 58] then return s
  let (tokens, ntokens) ← tokenize s
  let ipv4 ← ipv4Token s tokens ntokens
  let ntokens := if ipv4.isSome then ntokens - 1 else ntokens
  let (nullPos, fields, i) ← decodeFields s tokens ntokens 0 8 (List.replicate 8 0) 0
  let nfields := if ipv4.isSome then 6 else 8
  let fields ← expand nullPos i nfields fields
  let fields := fields.take nfields
  let some (nullPos, nullLen) := locate fields (nfields + 1) 0 nfields 0 | .error .outside
  let nullPos := if nullLen = 1 then nfields else nullPos
  return encode fields nullPos nullLen ++ (ipv4.map fun ipv4 ↦ 58 :: ipv4).getD []

namespace NormalizeIpv6

/-! ## Where the tokens are -/

/-- Where the pieces of a text begin when the first begins at `b`. -/
def starts (b : ℕ) : List (List UInt8) → List ℕ
  | [] => []
  | p :: ps => b :: starts (b + p.length + 1) ps

theorem length_starts (b : ℕ) (ps : List (List UInt8)) : (starts b ps).length = ps.length := by
  induction ps generalizing b with
  | nil => rfl
  | cons p ps ih => rw [starts, List.length_cons, ih, List.length_cons]

/-- The loop stores where each piece begins but the last one, and keeps that. -/
theorem split_eq {cs q : List UInt8} {qs : List (List UInt8)} {p b x : ℕ} {S : List ℕ}
    (done rest : List ℕ)
    (hq : cs.splitOn 58 = q :: qs) (hS : b :: starts (p + q.length + 1) qs = S ++ [x]) :
    split cs p (done ++ rest) done.length b =
      if qs.length ≤ rest.length then
        .ok (done ++ (S ++ rest.drop qs.length), done.length + qs.length, x)
      else .error .outside := by
  induction cs generalizing p b done rest q qs S with
  | nil =>
    obtain ⟨rfl, rfl⟩ := List.cons.inj hq
    obtain ⟨rfl, hx⟩ := List.append_inj' (show [] ++ [b] = S ++ [x] from hS) rfl
    obtain rfl : b = x := (List.cons.inj hx).1
    rw [split, List.length_nil, if_pos (Nat.zero_le _)]
    rfl
  | cons c cs ih =>
    rw [List.splitOn_cons_eq_if_modifyHead] at hq
    rw [split]
    obtain ⟨q', qs', hcs⟩ := List.exists_cons_of_ne_nil (List.splitOn_ne_nil 58 cs)
    by_cases hc : c = 58
    · rw [if_pos (by rw [hc]; rfl)] at hq
      obtain ⟨rfl, rfl⟩ := List.cons.inj hq
      rw [if_pos hc]
      rw [hcs, List.length_nil, Nat.add_zero, starts] at hS
      rcases S with _ | ⟨b', S⟩
      · exact absurd (congrArg List.length hS) (by simp)
      rw [List.cons_append] at hS
      obtain ⟨rfl, hS'⟩ := List.cons.inj hS
      rw [hcs, List.length_cons]
      rcases rest with _ | ⟨r, rest⟩
      · rw [List.append_nil, store_of_le le_rfl, error_bind, if_neg (by simp)]
      · have hnext := ih (done ++ [b]) rest hcs hS'
        rw [List.length_append, List.length_singleton,
          show done.length + 1 + qs'.length = done.length + (qs'.length + 1) by omega] at hnext
        rw [store_append rfl, ok_bind, List.append_cons, hnext, List.length_cons]
        simp only [Nat.add_le_add_iff_right, List.append_assoc, List.cons_append, List.nil_append,
          List.drop_succ_cons]
    · rw [if_neg (by simpa using hc), hcs, List.modifyHead_cons] at hq
      obtain ⟨rfl, rfl⟩ := List.cons.inj hq
      rw [if_neg hc]
      apply ih done rest hcs
      rw [← hS, List.length_cons]
      congr 2
      omega

/-- Pieces with the colons behind them. -/
def chunks : List (List UInt8) → List (List UInt8)
  | [] => []
  | [p] => [p]
  | p :: q :: ps => (p ++ [58]) :: chunks (q :: ps)

/-- The last two as one. -/
def mergeLast : List (List UInt8) → List (List UInt8)
  | [] => []
  | [p] => [p]
  | [p, q] => [p ++ q]
  | p :: q :: r :: ps => p :: mergeLast (q :: r :: ps)

/-- Where chunks begin, and where the last one ends. -/
def cuts (b : ℕ) : List (List UInt8) → List ℕ
  | [] => [b]
  | w :: ws => b :: cuts (b + w.length) ws

/-- The tokens: from nine pieces on, the last two are one. -/
def tokenTexts (ps : List (List UInt8)) : List (List UInt8) :=
  if ps.length ≤ 8 then chunks ps else mergeLast (chunks ps)

theorem length_chunks (ps : List (List UInt8)) : (chunks ps).length = ps.length := by
  induction ps using chunks.induct with
  | case1 => rfl
  | case2 p => rfl
  | case3 p q ps ih => rw [chunks, List.length_cons, ih]; rfl

theorem flatten_chunks (ps : List (List UInt8)) : (chunks ps).flatten = [58].intercalate ps := by
  induction ps using chunks.induct with
  | case1 => rfl
  | case2 p => rw [chunks, List.intercalate_singleton, List.flatten_singleton]
  | case3 p q ps ih => rw [chunks, List.flatten_cons, ih, List.intercalate_cons_cons]

theorem flatten_mergeLast (ws : List (List UInt8)) : (mergeLast ws).flatten = ws.flatten := by
  induction ws using mergeLast.induct with
  | case1 => rfl
  | case2 p => rfl
  | case3 p q => simp [mergeLast]
  | case4 p q r ps ih => rw [mergeLast, List.flatten_cons, ih, List.flatten_cons (l := p)]

theorem length_mergeLast {ws : List (List UInt8)} (h : 2 ≤ ws.length) :
    (mergeLast ws).length + 1 = ws.length := by
  induction ws using mergeLast.induct with
  | case1 => exact absurd h (by decide)
  | case2 p => exact absurd h (by simp)
  | case3 p q => rfl
  | case4 p q r ps ih =>
    rw [mergeLast, List.length_cons, ih (by simp), List.length_cons (a := p)]

theorem cuts_chunks (b : ℕ) {ps : List (List UInt8)} (h : ps ≠ []) :
    cuts b (chunks ps) = starts b ps ++ [b + ([58].intercalate ps).length] := by
  induction ps using chunks.induct generalizing b with
  | case1 => exact absurd rfl h
  | case2 p => rw [chunks, List.intercalate_singleton]; rfl
  | case3 p q ps ih =>
    rw [chunks, cuts, ih _ (List.cons_ne_nil _ _), List.intercalate_cons_cons]
    simp only [starts, List.length_append, List.length_singleton, List.cons_append, Nat.add_assoc]

theorem cuts_mergeLast {b x e : ℕ} {ws : List (List UInt8)} {K : List ℕ} (hws : 2 ≤ ws.length)
    (h : cuts b ws = K ++ [x, e]) : cuts b (mergeLast ws) = K ++ [e] := by
  induction ws using mergeLast.induct generalizing b K with
  | case1 => exact absurd hws (by decide)
  | case2 p => exact absurd hws (by simp)
  | case3 p q =>
    rcases K with _ | ⟨k, _ | ⟨k', K⟩⟩
    · exact absurd (congrArg List.length h) (by simp [cuts])
    · simp only [cuts, List.cons_append, List.nil_append, List.cons.injEq, and_true] at h
      obtain ⟨rfl, -, rfl⟩ := h
      rw [mergeLast, cuts, cuts, List.length_append, ← Nat.add_assoc]
      rfl
    · exact absurd (congrArg List.length h) (by simp [cuts])
  | case4 p q r ps ih =>
    rcases K with _ | ⟨k, K⟩
    · exact absurd (congrArg List.length h) (by simp [cuts])
    · rw [cuts, List.cons_append] at h
      obtain ⟨rfl, hK⟩ := List.cons.inj h
      rw [mergeLast, cuts, ih (by simp) hK, List.cons_append]

theorem flatten_tokenTexts (ps : List (List UInt8)) :
    (tokenTexts ps).flatten = [58].intercalate ps := by
  rw [tokenTexts]
  split_ifs
  · exact flatten_chunks ps
  · rw [flatten_mergeLast, flatten_chunks]

theorem tokenTexts_length {ps : List (List UInt8)} :
    (tokenTexts ps).length = if ps.length ≤ 8 then ps.length else ps.length - 1 := by
  rw [tokenTexts]
  split_ifs with h
  · exact length_chunks ps
  · have hlen := length_mergeLast (show 2 ≤ (chunks ps).length by rw [length_chunks]; omega)
    rw [length_chunks] at hlen
    omega

/-- **What is split** is the address without a colon at each end. -/
theorem slice_trim {s : List UInt8} (h : 2 ≤ s.length) :
    ∃ pre post, s = pre ++ (Inet.trim s ++ post) ∧
    pre.length = (if s.head? = some 58 then 1 else 0) ∧
    pre.length + (Inet.trim s).length =
      if s.getLast? = some 58 then s.length - 1 else s.length := by
  obtain ⟨c, t, rfl⟩ := List.exists_cons_of_ne_nil (List.ne_nil_of_length_pos (Nat.zero_lt_of_lt h))
  have ht : t ≠ [] := by
    rintro rfl
    exact absurd h (by simp)
  have hlast : (c :: t).getLast? = t.getLast? := List.getLast?_cons_of_ne_nil ht
  obtain ⟨pre, r, hr, hpre, hrlast, htrim⟩ : ∃ pre r, c :: t = pre ++ r ∧
      pre.length = (if (c :: t).head? = some 58 then 1 else 0) ∧
      r.getLast? = (c :: t).getLast? ∧
      Inet.trim (c :: t) = if r.getLast? = some 58 then r.dropLast else r := by
    by_cases hc : c = 58
    · exact ⟨[c], t, rfl, by simp [hc], hlast.symm, by simp [Inet.trim, hc]⟩
    · exact ⟨[], c :: t, rfl, by simp [hc], rfl, by simp [Inet.trim, hc]⟩
  rw [htrim, ← hrlast, ← hpre]
  by_cases hcolon : r.getLast? = some 58
  · rw [if_pos hcolon, if_pos hcolon, hr]
    obtain ⟨r, rfl⟩ := List.getLast?_eq_some_iff.mp hcolon
    refine ⟨pre, [58], by rw [List.dropLast_concat], rfl, ?_⟩
    rw [List.dropLast_concat]
    simp only [List.length_append, List.length_singleton, ← Nat.add_assoc, Nat.add_sub_cancel]
  · rw [if_neg hcolon, if_neg hcolon, hr]
    exact ⟨pre, [], by rw [List.append_nil], rfl, List.length_append.symm⟩

/-- **Tokens.** They are stored when there are at most ten pieces. -/
theorem tokenize_eq {s : List UInt8} (h : 2 ≤ s.length) :
    (10 < ((Inet.trim s).splitOn 58).length → tokenize s = .error .outside) ∧
    (((Inet.trim s).splitOn 58).length ≤ 10 → ∃ junk,
      tokenize s = .ok (cuts (if s.head? = some 58 then 1 else 0)
        (tokenTexts ((Inet.trim s).splitOn 58)) ++ junk,
        (tokenTexts ((Inet.trim s).splitOn 58)).length)) := by
  obtain ⟨pre, post, hs, hpre, hend⟩ := slice_trim h
  obtain ⟨q, qs, hps⟩ := List.exists_cons_of_ne_nil (List.splitOn_ne_nil 58 (Inet.trim s))
  have hslice := slice_append (ε := ParseError) (x := pre) (y := Inet.trim s) (z := post) hpre
    (hpre ▸ hend)
  rw [← hs] at hslice
  have hcuts := cuts_chunks pre.length (List.splitOn_ne_nil 58 (Inet.trim s))
  rw [List.intercalate_splitOn, hend] at hcuts
  rw [tokenize]
  dsimp only
  rw [hslice, ok_bind, ← hpre, tokenTexts_length]
  generalize (if s.getLast? = some 58 then s.length - 1 else s.length) = e at hcuts ⊢
  rw [hps] at hcuts ⊢
  obtain ⟨S, x, hS⟩ := (List.eq_nil_or_concat'
    (pre.length :: starts (pre.length + q.length + 1) qs)).resolve_left (List.cons_ne_nil _ _)
  have hlenS : S.length = qs.length := by
    have hlen := length_starts pre.length (q :: qs)
    rw [starts, hS, List.length_append, List.length_singleton, List.length_cons] at hlen
    exact Nat.succ.inj hlen
  have hsplit := split_eq [] (List.replicate 10 0) hps hS
  rw [List.nil_append, List.length_nil, List.length_replicate] at hsplit
  rw [starts, hS, List.append_assoc] at hcuts
  rw [hsplit, List.length_cons, Nat.zero_add, List.drop_replicate, List.nil_append]
  constructor
  · -- the end of the last token is the eleventh entry
    intro hlong
    by_cases hten : qs.length ≤ 10
    · rw [if_pos hten, ok_bind]
      dsimp only
      rw [if_neg (by omega)]
      have hlen : (S ++ List.replicate (10 - qs.length) 0).length ≤ qs.length := by
        rw [List.length_append, List.length_replicate]
        omega
      dsimp only [pure, Except.pure, Except.bind, bind]
      rw [store_of_le hlen]
    · rw [if_neg hten]
      rfl
  · intro hshort
    rw [if_pos (by omega), ok_bind]
    dsimp only
    by_cases height : qs.length < 8
    · obtain ⟨k, hk⟩ : ∃ k, 10 - qs.length = k + 1 + 1 := ⟨8 - qs.length, by omega⟩
      rw [if_pos height, hk, List.replicate_succ, List.replicate_succ, store_append hlenS, ok_bind]
      dsimp only [pure, Except.pure, Except.bind, bind]
      rw [List.append_cons, store_append (by simp [hlenS])]
      refine ⟨List.replicate k 0, ?_⟩
      rw [tokenTexts, if_pos (by rw [List.length_cons]; omega), hcuts, if_pos (by omega)]
      simp
    · obtain ⟨k, hk⟩ : ∃ k, 10 - qs.length = k + 1 := ⟨9 - qs.length, by omega⟩
      rw [if_neg height, hk, List.replicate_succ]
      dsimp only [pure, Except.pure, Except.bind, bind]
      rw [store_append hlenS]
      refine ⟨List.replicate k 0, ?_⟩
      rw [tokenTexts, if_neg (by rw [List.length_cons]; omega),
        cuts_mergeLast (by rw [length_chunks, List.length_cons]; omega) hcuts, if_neg (by omega)]
      simp

/-! ## What the fields are -/

/-- The token is read as the null field. -/
def isNull (token : List UInt8) : Bool := token = [] || token.head? = some 58

/-- The last null field among tokens that begin with the `i`th, or `nullPos`. -/
def lastNull : (i nullPos : ℕ) → List (List UInt8) → ℕ
  | _, nullPos, [] => nullPos
  | i, nullPos, token :: tokens =>
    lastNull (i + 1) (if isNull token then i else nullPos) tokens

/-- The fields of the tokens. -/
def values (tokens : List (List UInt8)) : List UInt16 :=
  (tokens.filter fun token ↦ !isNull token).map field

theorem values_cons (token : List UInt8) (tokens : List (List UInt8)) :
    values (token :: tokens) =
      if isNull token then values tokens else field token :: values tokens := by
  rw [values, List.filter_cons]
  by_cases h : isNull token <;> simp [h, values]

/-- **Fields.** They are stored when there are at most eight. -/
theorem decodeFields_eq {s pre post : List UInt8} {ws : List (List UInt8)} {n : ℕ}
    (nullPos : ℕ) (done junk : List ℕ) (vals free : List UInt16)
    (hs : s = pre ++ (ws.flatten ++ post)) (hn : n ≤ ws.length) :
    decodeFields s (done ++ (cuts pre.length ws ++ junk)) n done.length nullPos (vals ++ free)
        vals.length =
      if (values (ws.take n)).length ≤ free.length then
        .ok (lastNull done.length nullPos (ws.take n),
          vals ++ (values (ws.take n) ++ free.drop (values (ws.take n)).length),
          vals.length + (values (ws.take n)).length)
      else .error .outside := by
  induction n generalizing pre ws done nullPos vals free with
  | zero =>
    rw [decodeFields, List.take_zero]
    exact (if_pos (Nat.zero_le _)).symm
  | succ n ih =>
    obtain ⟨w, ws, rfl⟩ := List.exists_cons_of_ne_nil
      (List.ne_nil_of_length_pos (Nat.zero_lt_of_lt hn))
    have hnext : s = (pre ++ w) ++ (ws.flatten ++ post) := by
      rw [hs, List.flatten_cons]
      simp only [List.append_assoc]
    obtain ⟨e, he⟩ : ∃ es, cuts (pre.length + w.length) ws = (pre.length + w.length) :: es := by
      rcases ws with _ | ⟨v, ws⟩
      · exact ⟨_, rfl⟩
      · exact ⟨_, rfl⟩
    have hb : load (ε := ParseError) (done ++ (cuts pre.length (w :: ws) ++ junk)) done.length =
        .ok pre.length := load_append rfl
    have he' : load (ε := ParseError) (done ++ (cuts pre.length (w :: ws) ++ junk))
        (done.length + 1) = .ok (pre.length + w.length) := by
      rw [cuts, he, List.cons_append, List.append_cons, List.cons_append]
      exact load_append (by simp)
    have hslice : slice (ε := ParseError) s pre.length (pre.length + w.length) = .ok w := by
      rw [hs, List.flatten_cons, List.append_assoc]
      exact slice_append rfl rfl
    -- The token is done, and the text in front of the next one has grown by it.
    have hdone : done ++ (cuts pre.length (w :: ws) ++ junk) =
        (done ++ [pre.length]) ++ (cuts (pre ++ w).length ws ++ junk) := by
      rw [cuts, List.length_append]
      simp
    have hlen : (done ++ [pre.length]).length = done.length + 1 := by simp
    have hnull : (w = [] ∨ w.head? = some 58) ↔ isNull w = true := by simp [isNull]
    rw [decodeFields, hb, ok_bind, he', ok_bind, hslice, ok_bind, List.take_succ_cons, values_cons,
      lastNull, hdone, ← hlen]
    by_cases hw : isNull w = true
    · simp only [hnull, hw, if_true]
      exact ih done.length (done ++ [pre.length]) vals free hnext (Nat.le_of_succ_le_succ hn)
    · simp only [hnull, hw, Bool.false_eq_true, if_false]
      rcases free with _ | ⟨f, free⟩
      · rw [List.append_nil, store_of_le le_rfl, error_bind, if_neg (by simp)]
      · have hrest := ih nullPos (done ++ [pre.length]) (vals ++ [field w]) free hnext
          (Nat.le_of_succ_le_succ hn)
        have hvals : (vals ++ [field w]).length = vals.length + 1 := by simp
        rw [hvals] at hrest
        rw [store_append rfl, ok_bind, List.append_cons vals, hrest]
        simp only [List.length_cons, Nat.add_le_add_iff_right, List.drop_succ_cons, Nat.add_assoc,
          Nat.add_comm 1, List.append_assoc, List.nil_append, List.cons_append]

/-! ## The null field is opened -/

/-- The null field stands for all the fields that are missing. -/
def spread (nullPos nfields : ℕ) (vals : List UInt16) : List UInt16 :=
  if vals.length < nfields then
    vals.take nullPos ++ (List.replicate (nfields - vals.length) 0 ++ vals.drop nullPos)
  else vals.take nfields

/-- The loop goes past the null field when that is above. -/
theorem shift_of_lt {nullPos i : ℕ} (h : i < nullPos) (fields : List UInt16) (last : ℕ) :
    shift nullPos i fields last = .error .outside := by
  induction i generalizing fields last with
  | zero => rfl
  | succ i ih =>
    have hne : i ≠ nullPos := by omega
    rw [shift]
    rcases last with _ | last
    · rfl
    · rw [down, ok_bind, load]
      rcases fields[i]? with _ | x
      · rfl
      · dsimp only
        rw [ok_bind, store]
        split_ifs
        · exact ih (by omega) _ _
        · rfl

theorem shift_eq {a b c d : List UInt16} {last : ℕ} (hb : b ≠ [])
    (hlast : a.length + b.length + c.length = last) :
    ∃ c', shift a.length (a.length + b.length) (a ++ (b ++ (c ++ d))) last =
      .ok (a ++ (c' ++ (b ++ d)), last - b.length) ∧ c'.length = c.length := by
  induction b using List.reverseRecOn generalizing c d last with
  | nil => exact absurd rfl hb
  | append_singleton b x ih =>
    have hx :
        load (ε := ParseError) (a ++ (b ++ [x] ++ (c ++ d))) (a.length + b.length) = .ok x := by
      rw [List.append_assoc b, ← List.append_assoc a]
      exact load_append List.length_append
    -- the last field of `c` is overwritten, or `x` itself when nothing is between
    obtain ⟨c', hc', hstore⟩ : ∃ c' : List UInt16, c'.length = c.length ∧
        store (ε := ParseError) (a ++ (b ++ [x] ++ (c ++ d))) (last - 1) x =
          .ok (a ++ (b ++ (c' ++ (x :: d)))) := by
      rcases List.eq_nil_or_concat' c with rfl | ⟨c, y, rfl⟩
      · refine ⟨[], rfl, ?_⟩
        have hlen : (a ++ b).length = last - 1 := by
          simp only [List.length_append, List.length_singleton, List.length_nil] at hlast ⊢
          omega
        have hset := store_append (ε := ParseError) (a := a ++ b) (b := d) (y := x) (x := x) hlen
        simpa using hset
      · refine ⟨x :: c, by simp, ?_⟩
        have hlen : (a ++ (b ++ x :: c)).length = last - 1 := by
          simp only [List.length_append, List.length_cons, List.length_nil] at hlast ⊢
          omega
        have hset := store_append (ε := ParseError) (b := d) (y := y) (x := x) hlen
        simpa using hset
    have hdown : down (ε := ParseError) last = .ok (last - 1) := by
      rcases last with _ | last
      · simp at hlast
      · rfl
    rw [List.length_append, List.length_singleton, ← Nat.add_assoc, shift, hdown, ok_bind, hx,
      ok_bind, hstore, ok_bind]
    rcases eq_or_ne b [] with rfl | hb'
    · rw [if_neg (by simp)]
      exact ⟨c', rfl, hc'⟩
    · rw [if_pos (by simpa using hb')]
      simp only [List.length_append, List.length_singleton] at hlast
      obtain ⟨c'', hrun, hc''⟩ := ih (c := c') (d := x :: d) hb'
        (show a.length + b.length + c'.length = last - 1 by omega)
      refine ⟨c'', ?_, hc''.trans hc'⟩
      rw [hrun]
      simp only [List.append_assoc, List.singleton_append, Nat.sub_sub, Nat.add_comm 1]

theorem clear_eq {a c d : List UInt16} (hc : c ≠ []) :
    clear a.length (a.length + c.length) (a ++ (c ++ d)) =
      .ok (a ++ (List.replicate c.length 0 ++ d)) := by
  -- The loop goes down, so the slots are taken from the end.
  induction c using List.reverseRecOn generalizing d with
  | nil => exact absurd rfl hc
  | append_singleton c x ih =>
    rw [List.length_append, List.length_singleton, ← Nat.add_assoc, clear]
    have hstore := store_append (ε := ParseError) (b := d) (y := x) (x := 0)
      (show (a ++ c).length = a.length + c.length from List.length_append)
    simp only [List.append_assoc, List.cons_append, List.nil_append] at hstore ⊢
    rw [hstore, ok_bind]
    rcases eq_or_ne c [] with rfl | hc'
    · rw [if_neg (by simp)]
      rfl
    · rw [if_pos (by simpa using hc'), ih hc']
      rw [List.replicate_succ', List.append_assoc]
      rfl

/-- **The null field is found** unless it is above all fields that are there. -/
theorem expand_eq (nullPos nfields : ℕ) (vals free : List UInt16)
    (hsize : nfields ≤ vals.length + free.length) :
    (expand nullPos vals.length nfields (vals ++ free)).map (·.take nfields) =
      if vals.length < nfields ∧ vals.length < nullPos then .error .outside
      else .ok (spread nullPos nfields vals) := by
  rw [expand, spread]
  by_cases hlt : vals.length < nfields
  · rw [if_pos hlt, if_pos hlt]
    obtain ⟨c, d, rfl, hc⟩ : ∃ c d, free = c ++ d ∧ vals.length + c.length = nfields :=
      ⟨free.take (nfields - vals.length), free.drop (nfields - vals.length),
        (List.take_append_drop _ _).symm, by rw [List.length_take]; omega⟩
    have hcne : c ≠ [] := by
      rintro rfl
      simp only [List.length_nil] at hc
      omega
    -- Counting down from the number of fields passes the null field only when it is not above it.
    rcases lt_trichotomy vals.length nullPos with hnull | hnull | hnull
    · rw [if_pos hnull.ne, shift_of_lt hnull, if_pos ⟨hlt, hnull⟩]
      rfl
    · -- there is nothing to move
      subst hnull
      rw [if_neg (by simp), if_neg (fun h ↦ lt_irrefl _ h.2), List.take_length, List.drop_length,
        List.append_nil, ← hc]
      dsimp only [pure, Except.pure, Except.bind, bind]
      rw [clear_eq hcne, Except.map, ← List.append_assoc,
        List.take_left' (by rw [List.length_append, List.length_replicate]),
        Nat.add_sub_cancel_left]
    · obtain ⟨a, b, rfl, ha⟩ : ∃ a b, vals = a ++ b ∧ a.length = nullPos :=
        ⟨vals.take nullPos, vals.drop nullPos, (List.take_append_drop _ _).symm,
          List.length_take_of_le hnull.le⟩
      subst ha
      rw [List.length_append] at hc hnull hlt ⊢
      have hb : b ≠ [] := by
        rintro rfl
        simp at hnull
      obtain ⟨c', hshift, hc'⟩ := shift_eq (a := a) (d := d) hb hc
      have hc'ne : c' ≠ [] := by
        rintro rfl
        exact hcne (List.eq_nil_of_length_eq_zero hc'.symm)
      have hclear := clear_eq (a := a) (d := b ++ d) hc'ne
      rw [show a.length + c'.length = nfields - b.length by omega] at hclear
      rw [if_pos (by omega), if_neg (by omega), List.append_assoc, hshift, ok_bind]
      dsimp only
      rw [hclear, Except.map, List.take_left, List.drop_left,
        show nfields - (a.length + b.length) = c.length by omega, hc']
      congr 1
      rw [← List.append_assoc, ← List.append_assoc, List.take_left', List.append_assoc]
      simp only [List.length_append, List.length_replicate]
      omega
  · rw [if_neg hlt, if_neg hlt, if_neg (fun h ↦ hlt h.1)]
    dsimp only [pure, Except.pure, Except.map]
    rw [List.take_append_of_le_length (by omega)]

/-! ## The null field is chosen -/

/-- What has been found when the fields before `i` have been looked at: no run goes over `i`, and of
those before it this one is the first longest. -/
structure LocatedBelow (fields : List UInt16) (i nullPos nullLen : ℕ) : Prop where
  le : i ≤ fields.length
  border : ∀ a k, IsRun 0 fields a k → a < i → a + k ≤ i
  maximal : ∀ a k, IsRun 0 fields a k → a < i → k ≤ nullLen
  found : nullLen = 0 ∧ nullPos = fields.length ∨
    0 < nullLen ∧ nullPos < i ∧ IsRun 0 fields nullPos nullLen ∧
      ∀ a, IsRun 0 fields a nullLen → nullPos ≤ a

/-- The first longest run of zeros, or none behind the last field. -/
def Located (fields : List UInt16) (nullPos nullLen : ℕ) : Prop :=
  nullLen = 0 ∧ nullPos = fields.length ∧ IsFirstLongest 0 fields 0 0 ∨
    0 < nullLen ∧ IsFirstLongest 0 fields nullPos nullLen

theorem LocatedBelow.located {fields : List UInt16} {i nullPos nullLen : ℕ}
    (h : LocatedBelow fields i nullPos nullLen)
    (hrest : ∀ a k, IsRun 0 fields a k → i ≤ a → k = 0) : Located fields nullPos nullLen := by
  have hmax : ∀ a k, IsRun 0 fields a k → k ≤ nullLen := by
    intro a k hrun
    rcases Nat.lt_or_ge a i with hlt | hge
    · exact h.maximal a k hrun hlt
    · rw [hrest a k hrun hge]
      exact Nat.zero_le _
  rcases h.found with ⟨rfl, hpos⟩ | ⟨hpos, -, hrun, hfirst⟩
  · exact .inl ⟨rfl, hpos, isRun_zero, hmax, fun _ _ ↦ Nat.zero_le _⟩
  · exact .inr ⟨hpos, hrun, hmax, hfirst⟩

/-- **One round.** What is before `first` is not zero, what is from there on to `last` is. -/
theorem LocatedBelow.next {fields : List UInt16} {i first last nullPos nullLen : ℕ}
    (h : LocatedBelow fields i nullPos nullLen) (hi : i ≤ first) (hlast : first < last)
    (hskip : ∀ j, i ≤ j → j < first → fields[j]? ≠ some 0)
    (hrun : IsRun 0 fields first (last - first)) (hend : fields[last]? ≠ some 0) :
    LocatedBelow fields last (if nullLen < last - first then first else nullPos)
      (if nullLen < last - first then last - first else nullLen) := by
  have hborder : ∀ a k, IsRun 0 fields a k → a < last → a + k ≤ last := by
    intro a k ha hlt
    by_contra hover
    exact hend (ha last hlt.le (not_le.mp hover))
  -- a run that begins before `last` is one of those before, or part of the new one
  have hwhere : ∀ a k, IsRun 0 fields a k → 0 < k → a < last → a < i ∨ first ≤ a := by
    intro a k ha hk hlt
    by_contra hnot
    rw [not_or, not_lt, not_le] at hnot
    exact hskip a hnot.1 hnot.2 (ha a le_rfl (by omega))
  have hmax : ∀ a k, IsRun 0 fields a k → a < last → k ≤ max nullLen (last - first) := by
    intro a k ha hlt
    rcases Nat.eq_zero_or_pos k with rfl | hk
    · exact Nat.zero_le _
    · rcases hwhere a k ha hk hlt with hi | hi
      · exact (h.maximal a k ha hi).trans (le_max_left _ _)
      · have := hborder a k ha hlt
        exact le_trans (by omega) (le_max_right _ _)
  refine ⟨?_, hborder, ?_, ?_⟩
  · have := hrun.add_le_length (by omega)
    omega
  · intro a k ha hlt
    have := hmax a k ha hlt
    split_ifs <;> omega
  · split_ifs with hlen
    · refine .inr ⟨by omega, hlast, hrun, fun a ha ↦ ?_⟩
      by_contra hlt
      rcases hwhere a _ ha (by omega) (by omega) with hi | hi
      · exact absurd (h.maximal a _ ha hi) (by omega)
      · exact hlt hi
    · rcases h.found with ⟨hzero, -⟩ | ⟨hpos, hlt, hbest⟩
      · omega
      · exact .inr ⟨hpos, by omega, hbest⟩

/-- **The search ends** and finds the first longest run. -/
theorem locate_eq {fields : List UInt16} {fuel i nullPos nullLen : ℕ}
    (hfuel : fields.length < i + fuel) (h : LocatedBelow fields i nullPos nullLen) :
    ∃ nullPos' nullLen', locate fields fuel i nullPos nullLen = some (nullPos', nullLen') ∧
      Located fields nullPos' nullLen' := by
  induction fuel generalizing i nullPos nullLen with
  | zero => exact absurd h.le (by omega)
  | succ fuel ih =>
    have hle := h.le
    have hlen := ((fields.drop i).takeWhile_sublist fun x ↦ decide (x ≠ 0)).length_le
    obtain ⟨hskip, hstop⟩ := takeWhile_drop_spec (fun x : UInt16 ↦ decide (x ≠ 0)) fields i
    rw [locate]
    generalize hfirst : i + ((fields.drop i).takeWhile fun x ↦ decide (x ≠ 0)).length = first
      at hskip hstop ⊢
    have hi : i ≤ first := by omega
    have hskip' : ∀ j, i ≤ j → j < first → fields[j]? ≠ some 0 := by
      intro j hj hlt hzero
      obtain ⟨x, hx, hne⟩ := hskip j hj hlt
      rw [hx, Option.some.injEq] at hzero
      simp [hzero] at hne
    dsimp only
    -- No zero is left: the run found so far is the one, since none begins between `i` and the end.
    by_cases hend : first = fields.length
    · rw [if_pos hend]
      refine ⟨nullPos, nullLen, rfl, h.located fun a k hrun hge ↦ ?_⟩
      by_contra hk
      have := hrun.add_le_length (Nat.pos_of_ne_zero hk)
      exact hskip' a hge (by omega) (hrun a le_rfl (by omega))
    rw [if_neg hend]
    rw [List.length_drop] at hlen
    have hzero : fields[first]? = some 0 := by
      obtain ⟨x, hx⟩ : ∃ x, fields[first]? = some x :=
        ⟨fields[first], List.getElem?_eq_getElem (by omega)⟩
      have := hstop x hx
      rw [hx]
      simpa using this
    have hlen' := ((fields.drop first).takeWhile_sublist fun x ↦ decide (x = 0)).length_le
    obtain ⟨hzeros, hstop'⟩ := takeWhile_drop_spec (fun x : UInt16 ↦ decide (x = 0)) fields first
    generalize hlast : first + ((fields.drop first).takeWhile fun x ↦ decide (x = 0)).length = last
      at hzeros hstop' ⊢
    have hnot : fields[last]? ≠ some 0 := fun h ↦ by simpa using hstop' 0 h
    have hlt : first < last := by
      rcases Nat.eq_or_lt_of_le (show first ≤ last by omega) with heq | hlt
      · exact absurd (heq ▸ hzero) hnot
      · exact hlt
    have hrun : IsRun 0 fields first (last - first) := by
      intro j hj hlt
      obtain ⟨x, hx, hx0⟩ := hzeros j hj (by omega)
      rw [hx]
      simpa using hx0
    have hnext := h.next hi hlt hskip' hrun hnot
    rw [show (if nullLen < last - first then (first, last - first) else (nullPos, nullLen)) =
      (if nullLen < last - first then first else nullPos,
        if nullLen < last - first then last - first else nullLen) by split_ifs <;> rfl]
    dsimp only
    -- The run that ends with the fields is the last one to compare with.
    by_cases hall : last = fields.length
    · rw [if_pos hall]
      refine ⟨_, _, rfl, hnext.located fun a k hrun hge ↦ ?_⟩
      by_contra hk
      have := hrun.add_le_length (Nat.pos_of_ne_zero hk)
      omega
    · rw [if_neg hall]
      exact ih (by omega) hnext

theorem located_start (fields : List UInt16) :
    ∃ nullPos nullLen, locate fields (fields.length + 1) 0 fields.length 0 =
      some (nullPos, nullLen) ∧ Located fields nullPos nullLen :=
  locate_eq (by omega) ⟨Nat.zero_le _, fun _ _ _ h ↦ absurd h (Nat.not_lt_zero _),
    fun _ _ _ h ↦ absurd h (Nat.not_lt_zero _), .inl ⟨rfl, rfl⟩⟩

/-! ## The whole function -/

/-- The tokens of an address. -/
def tokensOf (s : List UInt8) : List (List UInt8) := tokenTexts ((Inet.trim s).splitOn 58)

/-- The last token is an IPv4 address when it is longer than any field. -/
def ipv4Of (s : List UInt8) : Option (List UInt8) :=
  if 5 < ((tokensOf s).getLastD []).length then some ((tokensOf s).getLastD []) else none

/-- The tokens that are fields. -/
def fieldTokens (s : List UInt8) : List (List UInt8) :=
  if (ipv4Of s).isSome then (tokensOf s).dropLast else tokensOf s

/-- How many fields there are to be. -/
def width (s : List UInt8) : ℕ := if (ipv4Of s).isSome then 6 else 8

/-- The fields of an address. -/
def fieldsOf (s : List UInt8) : List UInt16 :=
  spread (lastNull 0 8 (fieldTokens s)) (width s) (values (fieldTokens s))

/-- The arrays are large enough, and the null field is where it is looked for. -/
structure Holds (s : List UInt8) : Prop where
  tokens : ((Inet.trim s).splitOn 58).length ≤ 10
  fields : (values (fieldTokens s)).length ≤ 8
  nullField : (values (fieldTokens s)).length < width s →
    lastNull 0 8 (fieldTokens s) ≤ (values (fieldTokens s)).length

/-- The address with its first longest run of zeros left out. -/
def textOf (s : List UInt8) (nullPos nullLen : ℕ) : List UInt8 :=
  encode (fieldsOf s) (if nullLen = 1 then width s else nullPos) nullLen ++
    ((ipv4Of s).map fun ipv4 ↦ 58 :: ipv4).getD []

theorem tokensOf_ne_nil (s : List UInt8) : tokensOf s ≠ [] := by
  have hps := List.splitOn_ne_nil 58 (Inet.trim s)
  have hpos := List.length_pos_iff.mpr hps
  apply List.ne_nil_of_length_pos
  rw [tokensOf, tokenTexts_length]
  split_ifs <;> omega

theorem cuts_concat (b : ℕ) (ws : List (List UInt8)) (w : List UInt8) :
    ∃ C : List ℕ, C.length = ws.length ∧
      cuts b (ws ++ [w]) = C ++ [b + ws.flatten.length, b + ws.flatten.length + w.length] := by
  induction ws generalizing b with
  | nil => exact ⟨[], rfl, rfl⟩
  | cons v ws ih =>
    obtain ⟨C, hlen, hC⟩ := ih (b + v.length)
    refine ⟨b :: C, by rw [List.length_cons, hlen, List.length_cons], ?_⟩
    rw [List.cons_append, cuts, hC, List.flatten_cons, List.length_append, ← Nat.add_assoc]
    rfl

theorem ipv4Token_eq {s pre post last : List UInt8} {init : List (List UInt8)} (junk : List ℕ)
    (hs : s = pre ++ ((init ++ [last]).flatten ++ post)) :
    ipv4Token s (cuts pre.length (init ++ [last]) ++ junk) (init ++ [last]).length =
      .ok (if 5 < last.length then some last else none) := by
  obtain ⟨C, hC, hcuts⟩ := cuts_concat pre.length init last
  have hbegin : load (ε := ParseError) (cuts pre.length (init ++ [last]) ++ junk) init.length =
      .ok (pre.length + init.flatten.length) := by
    rw [hcuts, List.append_assoc]
    exact load_append hC
  have hend : load (ε := ParseError) (cuts pre.length (init ++ [last]) ++ junk)
      (init.length + 1) = .ok (pre.length + init.flatten.length + last.length) := by
    rw [hcuts, List.append_cons, List.append_assoc]
    exact load_append (by simp [hC])
  have hlast : slice (ε := ParseError) s (pre.length + init.flatten.length)
      (pre.length + init.flatten.length + last.length) = .ok last := by
    rw [hs, List.flatten_append, List.flatten_singleton, List.append_assoc, ← List.append_assoc pre]
    exact slice_append List.length_append rfl
  rw [ipv4Token, List.length_append, List.length_singleton, hend, ok_bind, down, ok_bind, hbegin,
    ok_bind, Nat.add_sub_cancel_left, hlast]
  split_ifs <;> rfl

theorem length_fieldsOf {s : List UInt8} (h : Holds s) : (fieldsOf s).length = width s := by
  rw [fieldsOf, spread]
  split_ifs with hlt
  · have := h.nullField hlt
    simp only [List.length_append, List.length_take, List.length_replicate, List.length_drop]
    omega
  · rw [List.length_take]
    omega

end NormalizeIpv6

open NormalizeIpv6

/-- **`normalize_IPv6`** neither stops nor goes on for ever when its arrays hold. -/
theorem normalizeIPv6_eq {s : List UInt8} (hs : isIpv6 s = true) (hne : s ≠ [58, 58]) :
    (¬Holds s → normalizeIPv6 s = .error .outside) ∧
    (Holds s → ∃ nullPos nullLen, Located (fieldsOf s) nullPos nullLen ∧
      normalizeIPv6 s = .ok (textOf s nullPos nullLen)) := by
  have hlen : 2 ≤ s.length := by
    simp only [isIpv6, Bool.and_eq_true, decide_eq_true_eq] at hs
    exact hs.1.1
  have htokens := tokenize_eq hlen
  rw [normalizeIPv6]
  simp only [hs, hne, Bool.not_true, Bool.false_eq_true, if_false]
  by_cases hten : ((Inet.trim s).splitOn 58).length ≤ 10
  · obtain ⟨junk, htok⟩ := htokens.2 hten
    obtain ⟨pre, post, hsplit, hpre, -⟩ := slice_trim hlen
    rw [← hpre, ← tokensOf] at htok
    obtain ⟨init, last, hws⟩ :=
      (List.eq_nil_or_concat' (tokensOf s)).resolve_left (tokensOf_ne_nil s)
    have hflatten := flatten_tokenTexts ((Inet.trim s).splitOn 58)
    rw [List.intercalate_splitOn, ← tokensOf] at hflatten
    have hflat : s = pre ++ ((tokensOf s).flatten ++ post) := hflatten.symm ▸ hsplit
    have hcount : (tokensOf s).length - 1 = init.length := by rw [hws, List.length_append]; rfl
    have hipv4 : ipv4Token s (cuts pre.length (tokensOf s) ++ junk) (tokensOf s).length =
        .ok (ipv4Of s) := by
      have hgetLast : (tokensOf s).getLastD [] = last := by rw [hws]; simp
      rw [ipv4Of, hgetLast, hws]
      exact ipv4Token_eq junk (hws ▸ hflat)
    -- An IPv4 address is the last token, and not read as a field.
    have htake :
        (tokensOf s).take (if (ipv4Of s).isSome then init.length else (tokensOf s).length) =
          fieldTokens s := by
      rw [fieldTokens]
      split_ifs
      · rw [hws, List.take_left, List.dropLast_concat]
      · exact List.take_length
    have hfields := decodeFields_eq (n := if (ipv4Of s).isSome then init.length else
        (tokensOf s).length) 8 [] junk [] (List.replicate 8 0) hflat (by
          split_ifs
          · rw [hws, List.length_append]; omega
          · exact le_rfl)
    rw [htake, List.nil_append, List.nil_append, List.nil_append, List.length_nil, List.length_nil,
      Nat.zero_add, List.length_replicate] at hfields
    rw [htok, ok_bind]
    dsimp only
    rw [hipv4, ok_bind, hcount, hfields]
    by_cases height : (values (fieldTokens s)).length ≤ 8
    · rw [if_pos height, ok_bind]
      dsimp only
      have hexpand := expand_eq (lastNull 0 8 (fieldTokens s)) (width s) (values (fieldTokens s))
        ((List.replicate 8 0).drop (values (fieldTokens s)).length) (by
          rw [List.length_drop, List.length_replicate, width]
          split_ifs <;> omega)
      rw [← width]
      rcases hexp : expand (lastNull 0 8 (fieldTokens s)) (values (fieldTokens s)).length (width s)
        (values (fieldTokens s) ++ (List.replicate 8 0).drop (values (fieldTokens s)).length)
        with e | fields
      · -- the null field is not found
        rw [hexp] at hexpand
        split_ifs at hexpand with hnull
        · rw [error_bind, ← Except.error.inj hexpand]
          exact ⟨fun _ ↦ rfl, fun h ↦ absurd (h.nullField hnull.1) (not_le.mpr hnull.2)⟩
        · exact absurd hexpand (by simp [Except.map])
      · rw [hexp] at hexpand
        split_ifs at hexpand with hnull
        · exact absurd hexpand (by simp [Except.map])
        · have hholds : Holds s := ⟨hten, height, fun hlt ↦ not_lt.mp fun h ↦ hnull ⟨hlt, h⟩⟩
          obtain ⟨nullPos, nullLen, hlocate, hlocated⟩ := located_start (fieldsOf s)
          rw [length_fieldsOf hholds] at hlocate
          have htakes : fields.take (width s) = fieldsOf s := Except.ok.inj hexpand
          rw [ok_bind, htakes, hlocate]
          exact ⟨fun h ↦ absurd hholds h, fun _ ↦ ⟨nullPos, nullLen, hlocated, rfl⟩⟩
    · rw [if_neg height, error_bind]
      exact ⟨fun _ ↦ rfl, fun h ↦ absurd h.fields height⟩
  · rw [htokens.1 (not_le.mp hten), error_bind]
    exact ⟨fun _ ↦ rfl, fun h ↦ absurd h.tokens hten⟩

end Knet.Http.HttpUrl
