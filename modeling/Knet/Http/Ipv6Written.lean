import Knet.Http.NormalizeIpv6
import Mathlib.Data.List.TakeWhile

/-!
# What `normalize_IPv6` reads and writes

`normalize_IPv6` takes a last token for an IPv4 address when it is longer than a group, whatever it
is. `Written` is an address where that token is such a text. Its fields are read from its text
(`Written.Ok.read`), and the text that is written for fields is that of their `canonical` address
(`textOf_eq`). So a canonical text is not changed (`normalizeIPv6_canonical`).
-/

namespace Knet.Http.HttpUrl.NormalizeIpv6

open Checked Inet Runs

/-! ## Addresses -/

/-- An address as it is written, perhaps with a last token that is no group. -/
structure Written where
  before : List Group
  after : Option (List Group)
  tail : Option (List UInt8)

/-- A group as a field. -/
def fieldOf (g : Group) : UInt16 := UInt16.ofNat g.value

namespace Written

variable (w : Written)

/-- The groups that are written. -/
def groups : List Group := w.before ++ w.after.getD []

/-- How many fields there are. -/
def width : ℕ := if w.tail.isSome then 6 else 8

/-- The text. -/
def text : List UInt8 :=
  match w.after with
  | none => [58].intercalate (w.before.map Group.digits ++ w.tail.toList)
  | some after => [58].intercalate (w.before.map Group.digits) ++
      58 :: 58 :: [58].intercalate (after.map Group.digits ++ w.tail.toList)

/-- The pieces that are groups, or empty for the two colons. -/
def groupPieces : List (List UInt8) :=
  match w.after with
  | none => w.before.map Group.digits
  | some after => w.before.map Group.digits ++ [] :: after.map Group.digits

/-- The fields. -/
def fields : List UInt16 :=
  w.before.map fieldOf ++ (List.replicate (w.width - w.groups.length) 0 ++
    (w.after.getD []).map fieldOf)

/-- The groups fit, and the last token is taken for what it is. -/
structure Ok : Prop where
  count : if w.after.isSome then w.groups.length < (if w.tail.isSome then 7 else 8)
    else w.groups.length = w.width
  tail : ∀ v ∈ w.tail, 5 < v.length ∧ 58 ∉ v

end Written

/-! ## Reading -/

theorem toNat_hexBits : ∀ c : UInt8, (hexDigit c).isSome = true →
    (hexBits c).toNat = (hexDigit c).getD 0 ∧ (hexDigit c).getD 0 < 16 :=
  Bytes.forall_byte (by decide +kernel)

theorem toNat_shift {x y : UInt16} (hx : x.toNat < 16 ^ 3) (hy : y.toNat < 16) :
    ((x <<< (4 : UInt16)) ||| y).toNat = 16 * x.toNat + y.toNat := by
  have hshift : (x <<< (4 : UInt16)).toNat = 2 ^ 4 * x.toNat := by
    rw [UInt16.toNat_shiftLeft, show (4 : UInt16).toNat % 16 = 4 from rfl, Nat.shiftLeft_eq,
      Nat.mod_eq_of_lt (by omega), Nat.mul_comm]
  rw [UInt16.toNat_or, hshift, ← Nat.two_pow_add_eq_or_of_lt hy]

theorem toNat_foldl_hexBits {s : List UInt8} (hex : ∀ c ∈ s, (hexDigit c).isSome = true)
    {x : UInt16} {k : ℕ} (hx : x.toNat < 16 ^ k) (hk : k + s.length ≤ 4) :
    (s.foldl (fun (field : UInt16) c ↦ field <<< 4 ||| hexBits c) x).toNat =
      s.foldl (fun n c ↦ 16 * n + (hexDigit c).getD 0) x.toNat := by
  -- `k` digits have been read; a fifth one would push the first out of the field.
  induction s generalizing x k with
  | nil => rfl
  | cons c s ih =>
    obtain ⟨hbits, hlt⟩ := toNat_hexBits c (hex c List.mem_cons_self)
    rw [List.length_cons] at hk
    have hx' : x.toNat < 16 ^ 3 := hx.trans_le (Nat.pow_le_pow_right (by decide) (by omega))
    have hstep := toNat_shift hx' (hbits ▸ hlt)
    rw [hbits] at hstep
    rw [List.foldl_cons, List.foldl_cons, ← hstep]
    exact ih (fun d hd ↦ hex d (List.mem_cons_of_mem _ hd)) (k := k + 1)
      (by rw [hstep, Nat.pow_succ]; omega) (by omega)

theorem field_digits (g : Group) : field g.digits = fieldOf g := by
  have hall : ∀ c ∈ g.digits, decide (c ≠ 58) = true := fun c hc ↦
    decide_eq_true fun heq ↦ g.not_mem hexDigit_colon (heq ▸ hc)
  apply UInt16.toNat_inj.mp
  rw [field, List.takeWhile_eq_self_iff.mpr hall,
    toNat_foldl_hexBits g.isHex (k := 0) (by decide) (by have := g.length_le; omega), fieldOf,
    UInt16.toNat_ofNat', Nat.mod_eq_of_lt (show g.value < 2 ^ 16 from g.value_lt)]
  rfl

theorem isNull_digits (g : Group) : isNull g.digits = false := by
  obtain ⟨c, ds, hds⟩ := List.exists_cons_of_ne_nil g.ne_nil
  have hc : c ≠ 58 := by
    rintro rfl
    exact g.not_mem hexDigit_colon (hds ▸ List.mem_cons_self)
  rw [isNull, hds]
  simpa using hc

theorem values_append (xs ys : List (List UInt8)) : values (xs ++ ys) = values xs ++ values ys := by
  rw [values, values, values, List.filter_append, List.map_append]

theorem values_digits (gs : List Group) : values (gs.map Group.digits) = gs.map fieldOf := by
  induction gs with
  | nil => rfl
  | cons g gs ih =>
    rw [List.map_cons, values_cons, isNull_digits, if_neg Bool.false_ne_true, ih,
      field_digits]
    rfl

theorem lastNull_append (i n : ℕ) (xs ys : List (List UInt8)) :
    lastNull i n (xs ++ ys) = lastNull (i + xs.length) (lastNull i n xs) ys := by
  induction xs generalizing i n with
  | nil => rfl
  | cons x xs ih =>
    rw [List.cons_append, lastNull, lastNull, ih, List.length_cons, Nat.add_right_comm,
      Nat.add_assoc]

theorem lastNull_digits (i n : ℕ) (gs : List Group) : lastNull i n (gs.map Group.digits) = n := by
  induction gs generalizing i with
  | nil => rfl
  | cons g gs ih =>
    rw [List.map_cons, lastNull, isNull_digits, if_neg Bool.false_ne_true, ih]

theorem isNull_colon (p : List UInt8) : isNull (p ++ [58]) = isNull p := by
  rcases p with _ | ⟨c, p⟩
  · rfl
  · rfl

theorem field_colon {p : List UInt8} (h : 58 ∉ p) : field (p ++ [58]) = field p := by
  have hall : ∀ c ∈ p, decide (c ≠ 58) = true := fun c hc ↦
    decide_eq_true fun heq ↦ h (heq ▸ hc)
  rw [field, field, List.takeWhile_append_of_pos hall, List.takeWhile_eq_self_iff.mpr hall]
  rw [List.takeWhile_cons_of_neg (by decide), List.append_nil]

theorem values_colon {ps : List (List UInt8)} (h : ∀ p ∈ ps, 58 ∉ p) :
    values (ps.map (· ++ [58])) = values ps := by
  induction ps with
  | nil => rfl
  | cons p ps ih =>
    rw [List.map_cons, values_cons, values_cons, isNull_colon, field_colon (h p List.mem_cons_self),
      ih fun q hq ↦ h q (List.mem_cons_of_mem _ hq)]

theorem lastNull_colon (i n : ℕ) (ps : List (List UInt8)) :
    lastNull i n (ps.map (· ++ [58])) = lastNull i n ps := by
  induction ps generalizing i n with
  | nil => rfl
  | cons p ps ih =>
    rw [List.map_cons, lastNull, lastNull, isNull_colon, ih]

theorem chunks_concat (ps : List (List UInt8)) (p : List UInt8) :
    chunks (ps ++ [p]) = ps.map (· ++ [58]) ++ [p] := by
  induction ps with
  | nil => rfl
  | cons q ps ih =>
    obtain ⟨r, rs, hrs⟩ := List.exists_cons_of_ne_nil (show ps ++ [p] ≠ [] by simp)
    rw [List.cons_append, hrs, chunks, ← hrs, ih]
    rfl

namespace Written

variable {w : Written}

theorem colon_not_mem_groupPieces : ∀ p ∈ w.groupPieces, 58 ∉ p := by
  have hdigits (gs : List Group) : ∀ p ∈ gs.map Group.digits, (58 : UInt8) ∉ p := by
    intro p hp
    obtain ⟨g, -, rfl⟩ := List.mem_map.mp hp
    exact g.not_mem hexDigit_colon
  rw [groupPieces]
  split
  · exact hdigits _
  · intro p hp
    rcases List.mem_append.mp hp with hp | hp
    · exact hdigits _ p hp
    · rcases List.mem_cons.mp hp with rfl | hp
      · exact List.not_mem_nil
      · exact hdigits _ p hp

theorem length_groupPieces : ∀ p ∈ w.groupPieces, p.length ≤ 4 := by
  have hdigits (gs : List Group) : ∀ p ∈ gs.map Group.digits, p.length ≤ 4 := by
    intro p hp
    obtain ⟨g, -, rfl⟩ := List.mem_map.mp hp
    exact g.length_le
  rw [groupPieces]
  split
  · exact hdigits _
  · intro p hp
    rcases List.mem_append.mp hp with hp | hp
    · exact hdigits _ p hp
    · rcases List.mem_cons.mp hp with rfl | hp
      · exact Nat.zero_le _
      · exact hdigits _ p hp

theorem values_groupPieces : values w.groupPieces = w.groups.map fieldOf := by
  rw [groupPieces, groups]
  split
  · next h => rw [values_digits, h, Option.getD_none, List.append_nil]
  · next h =>
    rw [values_append, values_digits, values_cons, if_pos (show isNull [] = true from rfl),
      values_digits, h, Option.getD_some, List.map_append]

theorem lastNull_groupPieces :
    lastNull 0 8 w.groupPieces = if w.after.isSome then w.before.length else 8 := by
  rw [groupPieces]
  split
  · next h => rw [lastNull_digits, h]; rfl
  · next h =>
    rw [lastNull_append, lastNull_digits, lastNull, lastNull_digits, h, Nat.zero_add,
      List.length_map]
    rfl

theorem Ok.length_pieces (h : w.Ok) : (w.groupPieces ++ w.tail.toList).length ≤ 8 := by
  have hcount := h.count
  rw [Written.groups, Written.width] at hcount
  rw [groupPieces]
  rcases hafter : w.after with _ | after <;> rcases htail : w.tail with _ | v <;>
    simp only [hafter, htail, Option.isSome_none, Option.isSome_some, Bool.false_eq_true, if_true,
      if_false, Option.getD_none, Option.getD_some, List.length_append, List.length_nil,
      List.length_map, List.length_cons, Option.toList_none, Option.toList_some] at hcount ⊢ <;>
      omega

theorem Ok.groupPieces_ne_nil (h : w.Ok) : w.groupPieces ≠ [] := by
  have hcount := h.count
  rw [groupPieces]
  split
  · next hafter =>
    intro hnil
    rw [List.map_eq_nil_iff] at hnil
    rw [hafter, if_neg (by decide), Written.groups, hnil, hafter, Written.width] at hcount
    split_ifs at hcount <;> exact absurd hcount (by decide)
  · simp

theorem Ok.tokens (h : w.Ok) {s : List UInt8}
    (hs : tokensOf s = chunks (w.groupPieces ++ w.tail.toList)) :
    ipv4Of s = w.tail ∧ values (fieldTokens s) = values w.groupPieces ∧
      lastNull 0 8 (fieldTokens s) = lastNull 0 8 w.groupPieces := by
  rcases htail : w.tail with _ | v
  · obtain ⟨qs, p, hqs⟩ := (List.eq_nil_or_concat' w.groupPieces).resolve_left h.groupPieces_ne_nil
    have hp : p.length ≤ 4 := w.length_groupPieces p (by rw [hqs]; simp)
    rw [htail, Option.toList_none, List.append_nil, hqs, chunks_concat] at hs
    have hipv4 : ipv4Of s = none := by
      rw [ipv4Of, hs, List.getLastD_concat, if_neg (by omega)]
    have hcolon : ∀ q ∈ qs, 58 ∉ q := fun q hq ↦
      colon_not_mem_groupPieces q (hqs ▸ List.mem_append_left [p] hq)
    rw [fieldTokens, hipv4, if_neg (by decide), hs, hqs, values_append, values_append,
      lastNull_append, lastNull_append, values_colon hcolon, lastNull_colon, List.length_map]
    exact ⟨rfl, rfl, rfl⟩
  · rw [htail, Option.toList_some, chunks_concat] at hs
    have hipv4 : ipv4Of s = some v := by
      rw [ipv4Of, hs, List.getLastD_concat, if_pos (h.tail v htail).1]
    rw [fieldTokens, hipv4, if_pos (show (some v).isSome = true from rfl), hs, List.dropLast_concat,
      values_colon colon_not_mem_groupPieces, lastNull_colon]
    exact ⟨rfl, rfl, rfl⟩

/-- **Reading.** The fields of an address are read, and its last token is. -/
theorem Ok.read {s : List UInt8} (h : w.Ok)
    (hs : (trim s).splitOn 58 = w.groupPieces ++ w.tail.toList) :
    ipv4Of s = w.tail ∧ fieldsOf s = w.fields ∧ Holds s := by
  have hlen := h.length_pieces
  have hcount := h.count
  obtain ⟨hipv4, hvalues, hlast⟩ := h.tokens (by rw [tokensOf, hs, tokenTexts, if_pos hlen])
  rw [values_groupPieces] at hvalues
  rw [lastNull_groupPieces] at hlast
  have hwidth : NormalizeIpv6.width s = w.width := by rw [NormalizeIpv6.width, hipv4, Written.width]
  have hgroups : w.groups.length = w.before.length + (w.after.getD []).length := by
    rw [Written.groups, List.length_append]
  refine ⟨hipv4, ?_, ?_⟩
  · rw [fieldsOf, hvalues, hlast, hwidth, spread, List.length_map, fields]
    by_cases hlt : w.groups.length < w.width
    · -- two colons
      have hafter : w.after.isSome = true := by
        by_contra hnot
        rw [if_neg hnot] at hcount
        exact absurd hcount hlt.ne
      rw [if_pos hlt, if_pos hafter, Written.groups, List.map_append,
        List.take_left' (List.length_map _), List.drop_left' (List.length_map _)]
    · have hle : w.groups.length ≤ w.width := by
        rw [Written.width] at hcount hlt ⊢
        split_ifs at hcount hlt ⊢ <;> omega
      rw [if_neg hlt, Nat.sub_eq_zero_of_le (not_lt.mp hlt), List.replicate_zero, List.nil_append,
        List.take_of_length_le (by rw [List.length_map]; exact hle), Written.groups,
        List.map_append]
  · refine ⟨by rw [hs]; omega, ?_, ?_⟩
    · rw [hvalues, List.length_map]
      rw [Written.width] at hcount
      split_ifs at hcount <;> omega
    · rw [hvalues, hlast, hwidth, List.length_map]
      intro hlt
      split_ifs with hafter
      · omega
      · rw [if_neg hafter] at hcount
        exact absurd hcount hlt.ne

theorem Ok.nil_not_mem_run (h : w.Ok) (gs : List Group) :
    [] ∉ gs.map Group.digits ++ w.tail.toList := by
  intro hmem
  rcases List.mem_append.mp hmem with hmem | hmem
  · obtain ⟨g, -, hg⟩ := List.mem_map.mp hmem
    exact g.ne_nil hg
  · exact absurd (h.tail [] (Option.mem_toList.mp hmem)).1 (by simp)

theorem Ok.colon_not_mem_run (h : w.Ok) (gs : List Group) :
    ∀ p ∈ gs.map Group.digits ++ w.tail.toList, (58 : UInt8) ∉ p := by
  intro p hp
  rcases List.mem_append.mp hp with hp | hp
  · obtain ⟨g, -, rfl⟩ := List.mem_map.mp hp
    exact g.not_mem hexDigit_colon
  · exact (h.tail p (Option.mem_toList.mp hp)).2

theorem Ok.splitOn_text (h : w.Ok) :
    (trim w.text).splitOn 58 = w.groupPieces ++ w.tail.toList := by
  have htrim : trim w.text = [58].intercalate (w.groupPieces ++ w.tail.toList) := by
    rw [text, groupPieces]
    split
    · exact trim_of_ne (head?_intercalate 58 (h.nil_not_mem_run _) (h.colon_not_mem_run _))
        (getLast?_intercalate 58 (h.nil_not_mem_run _) (h.colon_not_mem_run _))
    · rw [List.append_assoc, List.cons_append]
      exact trim_colons (fun hmem ↦ h.nil_not_mem_run _ (List.mem_append_left _ hmem))
        (h.nil_not_mem_run _) (fun p hp ↦ h.colon_not_mem_run _ p (List.mem_append_left _ hp))
        (h.colon_not_mem_run _)
  rw [htrim]
  apply List.splitOn_intercalate
  · intro p hp
    rcases List.mem_append.mp hp with hp | hp
    · exact colon_not_mem_groupPieces p hp
    · exact (h.tail p (Option.mem_toList.mp hp)).2
  · exact List.append_ne_nil_of_left_ne_nil h.groupPieces_ne_nil _

end Written

/-! ## Writing -/

/-- A field as a group. -/
def groupOf (x : UInt16) : Group := Group.ofNat x.toNat

/-- The address that is written for fields, where `nullLen` of them from `nullPos` on are the first
longest run of zeros. -/
def canonical (fields : List UInt16) (tail : Option (List UInt8)) (nullPos nullLen : ℕ) : Written :=
  if 2 ≤ nullLen then
    ⟨(fields.take nullPos).map groupOf, some ((fields.drop (nullPos + nullLen)).map groupOf), tail⟩
  else ⟨fields.map groupOf, none, tail⟩

/-- Fields to be written, six in front of a last token and eight otherwise. -/
structure Fields (fields : List UInt16) (tail : Option (List UInt8)) (nullPos nullLen : ℕ) :
    Prop where
  length : fields.length = if tail.isSome then 6 else 8
  tail : ∀ v ∈ tail, 5 < v.length ∧ 58 ∉ v
  located : Located fields nullPos nullLen

/-- The last token behind a colon. -/
def tailText (tail : Option (List UInt8)) : List UInt8 := (tail.map fun v ↦ 58 :: v).getD []

theorem fieldOf_groupOf (x : UInt16) : fieldOf (groupOf x) = x := by
  have hlt : x.toNat < 16 ^ 4 := x.toNat_lt
  rw [fieldOf, groupOf, Group.value_ofNat hlt, UInt16.ofNat_toNat]

theorem digits_groupOf (x : UInt16) : (groupOf x).digits = hex x := rfl

theorem colons_append_tailText {fields : List UInt16} {tail : Option (List UInt8)}
    (hne : (fields.map groupOf).map Group.digits ++ tail.toList ≠ []) :
    colons fields ++ tailText tail =
      58 :: [58].intercalate ((fields.map groupOf).map Group.digits ++ tail.toList) := by
  induction fields with
  | nil =>
    rcases tail with _ | v
    · exact absurd rfl hne
    · rw [List.map_nil, List.map_nil, List.nil_append, Option.toList_some,
        List.intercalate_singleton]
      rfl
  | cons x xs ih =>
    have hcons : colons (x :: xs) = 58 :: (hex x ++ colons xs) := rfl
    rw [hcons, List.cons_append, List.append_assoc, List.map_cons, List.map_cons, List.cons_append]
    rcases eq_or_ne ((xs.map groupOf).map Group.digits ++ tail.toList) [] with hnil | hxs
    · obtain ⟨hxs, htail⟩ := List.append_eq_nil_iff.mp hnil
      rw [hnil, List.intercalate_singleton]
      rw [List.map_eq_nil_iff, List.map_eq_nil_iff] at hxs
      rw [Option.toList_eq_nil_iff] at htail
      rw [hxs, htail, digits_groupOf]
      simp [colons, tailText]
    · rw [ih hxs, List.intercalate_cons_of_ne_nil hxs, digits_groupOf]
      simp

theorem hex_append_colons {fields : List UInt16} (hne : fields ≠ []) (tail : Option (List UInt8)) :
    hex (fields.headD 0) ++ (colons (fields.drop 1) ++ tailText tail) =
      [58].intercalate ((fields.map groupOf).map Group.digits ++ tail.toList) := by
  obtain ⟨x, xs, rfl⟩ := List.exists_cons_of_ne_nil hne
  have h := colons_append_tailText (show
    ((x :: xs).map groupOf).map Group.digits ++ tail.toList ≠ [] from List.cons_ne_nil _ _)
  rw [show colons (x :: xs) = 58 :: (hex x ++ colons xs) from rfl, List.cons_append,
    List.append_assoc] at h
  exact (List.cons.inj h).2

section Fields

variable {fields : List UInt16} {tail : Option (List UInt8)} {nullPos nullLen : ℕ}

theorem Fields.width_eq (h : Fields fields tail nullPos nullLen) :
    fields.length = 6 ∧ tail.isSome ∨ fields.length = 8 ∧ tail = none := by
  have hlen := h.length
  rcases tail with _ | v
  · exact .inr ⟨hlen, rfl⟩
  · exact .inl ⟨hlen, rfl⟩

theorem Fields.isRun (h : Fields fields tail nullPos nullLen) : IsRun 0 fields nullPos nullLen := by
  rcases h.located with ⟨rfl, -, -⟩ | ⟨-, hfirst⟩
  · exact isRun_zero
  · exact hfirst.run

theorem Fields.maximal (h : Fields fields tail nullPos nullLen) {a k : ℕ}
    (hrun : IsRun 0 fields a k) : k ≤ nullLen := by
  rcases h.located with ⟨rfl, -, hfirst⟩ | ⟨-, hfirst⟩
  · exact hfirst.maximal a k hrun
  · exact hfirst.maximal a k hrun

theorem Fields.le_length (h : Fields fields tail nullPos nullLen) :
    nullPos + nullLen ≤ fields.length := by
  rcases h.located with ⟨rfl, rfl, -⟩ | ⟨hpos, hfirst⟩
  · exact le_rfl
  · exact hfirst.run.add_le_length hpos

theorem Fields.canonical_ok (h : Fields fields tail nullPos nullLen) :
    (canonical fields tail nullPos nullLen).Ok := by
  have hlen := h.length
  have hle := h.le_length
  rw [canonical]
  split_ifs with htwo
  · refine ⟨?_, h.tail⟩
    simp only [Written.groups, Option.isSome_some, if_true, Option.getD_some, List.length_append,
      List.length_map, List.length_take, List.length_drop]
    split_ifs at hlen ⊢ <;> omega
  · refine ⟨?_, h.tail⟩
    simpa [Written.groups, Written.width] using hlen

theorem Fields.fields_canonical (h : Fields fields tail nullPos nullLen) :
    (canonical fields tail nullPos nullLen).fields = fields := by
  have hmap (xs : List UInt16) : (xs.map groupOf).map fieldOf = xs := by
    rw [List.map_map, show fieldOf ∘ groupOf = id from funext fieldOf_groupOf, List.map_id]
  have hlen := h.length
  have hle := h.le_length
  rw [canonical]
  split_ifs with htwo
  · have hcount :
        fields.length - (min nullPos fields.length + (fields.length - (nullPos + nullLen))) =
          nullLen := by omega
    simp only [Written.fields, Written.groups, Written.width, Option.getD_some, List.length_append,
      List.length_map, List.length_take, List.length_drop, hmap, ← hlen, hcount]
    exact h.isRun.eq_append.symm
  · simp only [Written.fields, Written.groups, Written.width, Option.getD_none, List.append_nil,
      List.length_map, hmap, ← hlen, Nat.sub_self, List.replicate_zero, List.map_nil]

theorem Fields.ne_nil (h : Fields fields tail nullPos nullLen) : fields ≠ [] := by
  rintro rfl
  rcases h.width_eq with ⟨hlen, -⟩ | ⟨hlen, -⟩ <;> exact absurd hlen (by decide)

/-- Something is behind the run unless it ends with the fields. -/
theorem Fields.behind_ne_nil (h : Fields fields tail nullPos nullLen)
    (hend : nullPos + nullLen ≠ 8) :
    ((fields.drop (nullPos + nullLen)).map groupOf).map Group.digits ++ tail.toList ≠ [] := by
  intro hnil
  simp only [List.append_eq_nil_iff, List.map_eq_nil_iff, Option.toList_eq_nil_iff,
    List.drop_eq_nil_iff] at hnil
  have hle := h.le_length
  rcases h.width_eq with ⟨-, htail⟩ | ⟨hlen, -⟩
  · rw [hnil.2] at htail
    exact absurd htail (by decide)
  · omega

theorem Fields.hex_before (h : Fields fields tail nullPos nullLen) (hpos : 0 < nullPos) :
    hex (fields.headD 0) ++ colons ((fields.take nullPos).drop 1) =
      [58].intercalate (((fields.take nullPos).map groupOf).map Group.digits) := by
  have htake : fields.take nullPos ≠ [] := by
    simp only [ne_eq, List.take_eq_nil_iff, h.ne_nil, or_false]
    omega
  have hbefore := hex_append_colons htake none
  rwa [show (fields.take nullPos).headD 0 = fields.headD 0 by
    rw [List.headD_eq_head?_getD, List.headD_eq_head?_getD, List.head?_take, if_neg hpos.ne'],
    show tailText none = [] from rfl, List.append_nil, Option.toList_none,
    List.append_nil] at hbefore

theorem Fields.encode_plain (h : Fields fields tail nullPos nullLen) (htwo : ¬2 ≤ nullLen) :
    encode fields (if nullLen = 1 then fields.length else nullPos) nullLen ++ tailText tail =
      [58].intercalate ((fields.map groupOf).map Group.digits ++ tail.toList) := by
  have hpos : (if nullLen = 1 then fields.length else nullPos) = fields.length := by
    split_ifs with hone
    · rfl
    · rcases h.located with ⟨-, hpos, -⟩ | ⟨hpos, -⟩
      · exact hpos
      · omega
  have hnot : ¬(fields.length + nullLen = 8 ∧ nullLen ≠ 0) := by
    rcases h.width_eq with ⟨hlen, -⟩ | ⟨hlen, -⟩ <;> omega
  rw [hpos, encode, if_neg (by simpa using h.ne_nil), if_neg (lt_irrefl _), if_neg hnot,
    List.take_length, List.drop_of_length_le (Nat.le_add_right _ _)]
  simp only [colons, List.flatMap_nil, List.append_nil, List.append_assoc]
  exact hex_append_colons h.ne_nil tail

/-- **Writing.** The text for fields is that of their canonical address. -/
theorem Fields.encode_eq (h : Fields fields tail nullPos nullLen) (hlt : nullLen < 8) :
    encode fields (if nullLen = 1 then fields.length else nullPos) nullLen ++ tailText tail =
      (canonical fields tail nullPos nullLen).text := by
  have hle := h.le_length
  rw [canonical]
  by_cases htwo : 2 ≤ nullLen
  · rw [if_pos htwo, if_neg (by omega), Written.text]
    dsimp only
    rcases Nat.eq_zero_or_pos nullPos with rfl | hpos
    · -- at the front
      have hrest := h.behind_ne_nil (by omega)
      rw [Nat.zero_add] at hrest
      rw [encode, if_pos rfl, List.cons_append, colons_append_tailText hrest, List.take_zero,
        List.map_nil, List.map_nil, List.intercalate_nil, List.nil_append, Nat.zero_add]
    · rw [encode, if_neg hpos.ne', h.hex_before hpos, if_pos (by omega)]
      by_cases hend : nullPos + nullLen = 8
      · -- at the end
        obtain ⟨hlen, rfl⟩ := h.width_eq.resolve_left fun hlen ↦ by omega
        have hdrop : fields.drop (nullPos + nullLen) = [] := List.drop_of_length_le (by omega)
        rw [if_pos ⟨hend, by omega⟩, hdrop]
        simp [colons, tailText]
      · rw [if_neg (fun h ↦ hend h.1), List.append_nil, List.append_assoc _ (colons _),
          colons_append_tailText (h.behind_ne_nil hend)]
        simp
  · rw [if_neg htwo, Written.text]
    exact h.encode_plain htwo

theorem Fields.unique (h : Fields fields tail nullPos nullLen) {nullPos' nullLen' : ℕ}
    (h' : Fields fields tail nullPos' nullLen') : nullPos' = nullPos ∧ nullLen' = nullLen := by
  rcases h.located with ⟨rfl, rfl, hfirst⟩ | ⟨hpos, hfirst⟩ <;>
    rcases h'.located with ⟨rfl, rfl, hfirst'⟩ | ⟨hpos', hfirst'⟩
  · exact ⟨rfl, rfl⟩
  · exact absurd (hfirst.length_unique hfirst') hpos'.ne
  · exact absurd (hfirst.length_unique hfirst') hpos.ne'
  · obtain rfl := hfirst.length_unique hfirst'
    exact ⟨hfirst'.unique hfirst, rfl⟩

theorem Fields.eq_eight (h : Fields fields tail nullPos nullLen) (height : ¬nullLen < 8) :
    nullLen = 8 ∧ nullPos = 0 ∧ fields.length = 8 ∧ tail = none := by
  have hle := h.le_length
  rcases h.width_eq with ⟨hlen, -⟩ | ⟨hlen, htail⟩
  · omega
  · exact ⟨by omega, by omega, hlen, htail⟩

end Fields

/-! ## The whole function -/

/-- **The result** is the canonical text, except that nothing is left of eight zeros. -/
theorem normalizeIPv6_fields {s : List UInt8} (hs : isIpv6 s = true) (hne : s ≠ [58, 58])
    (hholds : Holds s) (hcolon : ∀ v ∈ ipv4Of s, 58 ∉ v) :
    ∃ nullPos nullLen, Fields (fieldsOf s) (ipv4Of s) nullPos nullLen ∧
      normalizeIPv6 s = .ok (if nullLen < 8 then
        (canonical (fieldsOf s) (ipv4Of s) nullPos nullLen).text else [58]) := by
  obtain ⟨nullPos, nullLen, hloc, heq⟩ := (normalizeIPv6_eq hs hne).2 hholds
  have hlen := length_fieldsOf hholds
  have htail : ∀ v ∈ ipv4Of s, 5 < v.length ∧ 58 ∉ v := by
    intro v hv
    refine ⟨?_, hcolon v hv⟩
    rw [ipv4Of] at hv
    split_ifs at hv with hlong
    · rwa [← Option.some.inj hv]
    · exact absurd hv (Option.not_mem_none v)
  have hfields : Fields (fieldsOf s) (ipv4Of s) nullPos nullLen := ⟨hlen, htail, hloc⟩
  refine ⟨nullPos, nullLen, hfields, ?_⟩
  rw [heq, textOf, ← hlen]
  -- With eight zeros the loop that writes what is behind the run writes nothing, not even its
  -- colon.
  by_cases hlt : nullLen < 8
  · rw [if_pos hlt]
    exact congrArg Except.ok (hfields.encode_eq hlt)
  · obtain ⟨rfl, rfl, hlen, hnone⟩ := hfields.eq_eight hlt
    rw [if_neg hlt, hnone, if_neg (by decide), encode, if_pos rfl,
      List.drop_of_length_le hlen.le]
    rfl

/-- **A canonical text is not changed.** -/
theorem Fields.normalizeIPv6_canonical {fields : List UInt16} {tail : Option (List UInt8)}
    {nullPos nullLen : ℕ} (h : Fields fields tail nullPos nullLen) (hlt : nullLen < 8)
    (hs : isIpv6 (canonical fields tail nullPos nullLen).text = true) :
    normalizeIPv6 (canonical fields tail nullPos nullLen).text =
      .ok (canonical fields tail nullPos nullLen).text := by
  have hok := h.canonical_ok
  have htail : (canonical fields tail nullPos nullLen).tail = tail := by
    rw [canonical]
    split_ifs <;> rfl
  by_cases hne : (canonical fields tail nullPos nullLen).text = [58, 58]
  · rw [hne]
    rfl
  · obtain ⟨hipv4, hfields, hholds⟩ := hok.read hok.splitOn_text
    rw [h.fields_canonical] at hfields
    rw [htail] at hipv4
    obtain ⟨nullPos', nullLen', h', heq⟩ := normalizeIPv6_fields hs hne hholds fun v hv ↦
      (h.tail v (hipv4 ▸ hv)).2
    -- The same fields have been read, and the first longest run of zeros is one run only.
    rw [hipv4, hfields] at h' heq
    obtain ⟨rfl, rfl⟩ := h.unique h'
    rw [heq, if_pos hlt]

/-! ## Characters -/

theorem mem_colons {fields : List UInt16} {c : UInt8} (h : c ∈ colons fields) :
    c = 58 ∨ (hexDigit c).isSome = true := by
  obtain ⟨x, -, hc⟩ := List.mem_flatMap.mp h
  exact (List.mem_cons.mp hc).imp_right (isHex_hexDigits 4 x.toNat c)

theorem mem_encode {fields : List UInt16} {nullPos nullLen : ℕ} {c : UInt8}
    (h : c ∈ encode fields nullPos nullLen) : c = 58 ∨ (hexDigit c).isSome = true := by
  have hcolon (b : Prop) [Decidable b] (h : c ∈ if b then [58] else ([] : List UInt8)) :
      c = 58 := by
    split_ifs at h
    · exact List.mem_singleton.mp h
    · exact absurd h List.not_mem_nil
  rw [encode] at h
  by_cases hpos : nullPos = 0
  · rw [if_pos hpos] at h
    exact (List.mem_cons.mp h).elim .inl mem_colons
  · rw [if_neg hpos] at h
    simp only [List.mem_append] at h
    rcases h with (((h | h) | h) | h) | h
    · exact .inr (isHex_hexDigits 4 _ c h)
    · exact mem_colons h
    · exact .inl (hcolon _ h)
    · exact .inl (hcolon _ h)
    · exact mem_colons h

theorem mem_ipv4Of {s v : List UInt8} {c : UInt8} (hs : 2 ≤ s.length) (hv : v ∈ ipv4Of s)
    (hc : c ∈ v) : c ∈ s := by
  obtain ⟨pre, post, hsplit, -⟩ := slice_trim hs
  have hflatten := flatten_tokenTexts ((Inet.trim s).splitOn 58)
  rw [List.intercalate_splitOn, ← tokensOf] at hflatten
  rw [ipv4Of] at hv
  split_ifs at hv
  · obtain ⟨init, last, hlast⟩ :=
      (List.eq_nil_or_concat' (tokensOf s)).resolve_left (tokensOf_ne_nil s)
    have hv' : v = last := by
      rw [← Option.some.inj hv, hlast]
      simp
    rw [hsplit, ← hflatten, hlast, hv'.symm]
    simp [hc]
  · exact absurd hv (Option.not_mem_none v)

theorem normalizeIPv6_chars {s out : List UInt8} (h : normalizeIPv6 s = .ok out) :
    isIpv6 s = true ∧ ∀ c ∈ out, c = 58 ∨ (hexDigit c).isSome = true ∨ c ∈ s := by
  rcases hs : isIpv6 s with _ | _
  · rw [normalizeIPv6, hs] at h
    cases h
  · refine ⟨rfl, fun c hc ↦ ?_⟩
    have hlen : 2 ≤ s.length := by
      simp only [isIpv6, Bool.and_eq_true, decide_eq_true_eq] at hs
      exact hs.1.1
    by_cases hne : s = [58, 58]
    · subst hne
      cases h
      exact .inr (.inr hc)
    · obtain ⟨hnot, hholds⟩ := normalizeIPv6_eq hs hne
      by_cases hyes : Holds s
      · obtain ⟨nullPos, nullLen, -, heq⟩ := hholds hyes
        rw [← Except.ok.inj (heq.symm.trans h), textOf] at hc
        rcases List.mem_append.mp hc with hc | hc
        · exact (mem_encode hc).imp_right .inl
        · rcases hv : ipv4Of s with _ | v
          · rw [hv] at hc
            exact absurd hc List.not_mem_nil
          · rw [hv] at hc
            exact (List.mem_cons.mp hc).imp_right fun hc ↦ .inr (mem_ipv4Of hlen hv hc)
      · cases (hnot hyes).symm.trans h

end Knet.Http.HttpUrl.NormalizeIpv6
