import Knet.Lib.Runs
import Knet.Lib.Text
import Mathlib.Logic.Function.Basic

/-!
# Internet addresses

The grammars of the addresses in a URL. An IPv4 address is four numbers with dots between them. An
IPv6 address is eight groups of hexadecimal digits with colons between them; two colons in a row
stand for one group of zeros or more, once, and an IPv4 address may be written for the last two
groups.

A text is taken apart at its colons. When one colon is taken away at an end that has two, exactly
one piece is empty, and it is where the zeros are (`pieces_text`). So a text is written in one way
only (`text_inj`).
-/

namespace Inet

open Text

/-! ## Pieces -/

section Pieces

variable {α : Type*} (sep : α)

theorem intercalate_append {xs ys : List (List α)} (hx : xs ≠ []) (hy : ys ≠ []) :
    [sep].intercalate (xs ++ ys) = [sep].intercalate xs ++ sep :: [sep].intercalate ys := by
  induction xs with
  | nil => exact absurd rfl hx
  | cons x xs ih =>
    rcases eq_or_ne xs [] with rfl | hxs
    · rw [List.singleton_append, List.intercalate_cons_of_ne_nil hy, List.intercalate_singleton,
        List.append_assoc, List.singleton_append]
    · rw [List.cons_append, List.intercalate_cons_of_ne_nil (by simp [hxs]), ih hxs,
        List.intercalate_cons_of_ne_nil hxs]
      simp only [List.append_assoc]

theorem intercalate_ne_nil {xs : List (List α)} (hne : xs ≠ []) (h : [] ∉ xs) :
    [sep].intercalate xs ≠ [] := by
  obtain ⟨x, xs, rfl⟩ := List.exists_cons_of_ne_nil hne
  have hx : x ≠ [] := fun hx ↦ h (hx ▸ List.mem_cons_self)
  rcases eq_or_ne xs [] with rfl | hxs
  · rwa [List.intercalate_singleton]
  · rw [List.intercalate_cons_of_ne_nil hxs, List.append_assoc]
    exact List.append_ne_nil_of_left_ne_nil hx _

theorem head?_intercalate {xs : List (List α)} (h : [] ∉ xs) (hsep : ∀ x ∈ xs, sep ∉ x) :
    ([sep].intercalate xs).head? ≠ some sep := by
  rcases xs with _ | ⟨x, xs⟩
  · exact fun h ↦ by simp at h
  · obtain ⟨c, x, rfl⟩ := List.exists_cons_of_ne_nil (fun hx : x = [] ↦ h (hx ▸ List.mem_cons_self))
    have hc : c ≠ sep := fun hc ↦ hsep _ List.mem_cons_self (hc ▸ List.mem_cons_self)
    rcases eq_or_ne xs [] with rfl | hxs
    · rw [List.intercalate_singleton]
      simpa using hc
    · rw [List.intercalate_cons_of_ne_nil hxs]
      simpa using hc

theorem getLast?_intercalate {xs : List (List α)} (h : [] ∉ xs) (hsep : ∀ x ∈ xs, sep ∉ x) :
    ([sep].intercalate xs).getLast? ≠ some sep := by
  induction xs using List.reverseRecOn with
  | nil => exact fun h ↦ by simp at h
  | append_singleton xs x _ =>
    have hx : x ≠ [] := fun hx ↦ h (by simp [hx])
    have hlast : x.getLast? ≠ some sep := fun hlast ↦
      hsep x (by simp) (List.mem_of_getLast? hlast)
    rcases eq_or_ne xs [] with rfl | hxs
    · rwa [List.nil_append, List.intercalate_singleton]
    · rwa [intercalate_append sep hxs (by simp), List.intercalate_singleton,
        List.getLast?_append_of_ne_nil _ (by simp), List.getLast?_cons_of_ne_nil hx]

theorem not_mem_of_mem_splitOn [BEq α] [LawfulBEq α] {s : List α} :
    ∀ p ∈ s.splitOn sep, sep ∉ p := by
  induction s with
  | nil => simp
  | cons c s ih =>
    intro p hp
    rw [List.splitOn_cons_eq_if_modifyHead] at hp
    split_ifs at hp with hc
    · rcases List.mem_cons.mp hp with rfl | hp
      · exact List.not_mem_nil
      · exact ih p hp
    · obtain ⟨q, qs, hqs⟩ := List.exists_cons_of_ne_nil (List.splitOn_ne_nil sep s)
      rw [hqs] at hp ih
      rw [List.modifyHead_cons] at hp
      rcases List.mem_cons.mp hp with rfl | hp
      · rw [List.mem_cons, not_or]
        exact ⟨fun h ↦ hc (by rw [h, beq_self_eq_true]), ih q List.mem_cons_self⟩
      · exact ih p (List.mem_cons_of_mem _ hp)

theorem mem_intercalate {c : α} {xs : List (List α)} (h : c ∈ [sep].intercalate xs) :
    c = sep ∨ ∃ x ∈ xs, c ∈ x := by
  induction xs with
  | nil => simp at h
  | cons x xs ih =>
    rcases eq_or_ne xs [] with rfl | hxs
    · rw [List.intercalate_singleton] at h
      exact .inr ⟨x, List.mem_cons_self, h⟩
    · rw [List.intercalate_cons_of_ne_nil hxs, List.append_assoc, List.singleton_append] at h
      rcases List.mem_append.mp h with h | h
      · exact .inr ⟨x, List.mem_cons_self, h⟩
      · rcases List.mem_cons.mp h with rfl | h
        · exact .inl rfl
        · exact (ih h).imp_right fun ⟨y, hy, hc⟩ ↦ ⟨y, List.mem_cons_of_mem _ hy, hc⟩

theorem intercalate_concat {xs : List (List α)} (h : xs ≠ []) :
    [sep].intercalate xs ++ [sep] = xs.flatMap (· ++ [sep]) := by
  induction xs with
  | nil => exact absurd rfl h
  | cons x xs ih =>
    rcases eq_or_ne xs [] with rfl | hxs
    · rw [List.intercalate_singleton, List.flatMap_cons, List.flatMap_nil, List.append_nil]
    · rw [List.intercalate_cons_of_ne_nil hxs, List.append_assoc, ih hxs, List.flatMap_cons]

theorem length_intercalate {xs : List (List α)} (h : xs ≠ []) :
    ([sep].intercalate xs).length + 1 = (xs.flatMap (· ++ [sep])).length := by
  rw [← intercalate_concat sep h, List.length_append, List.length_singleton]

theorem length_intercalate_le (xs : List (List α)) :
    ([sep].intercalate xs).length ≤ (xs.flatMap (· ++ [sep])).length := by
  rcases eq_or_ne xs [] with rfl | hxs
  · exact le_rfl
  · rw [← length_intercalate sep hxs]
    exact Nat.le_succ _

end Pieces

/-! ## IPv4 -/

/-- Four numbers. -/
@[ext] structure Quad where
  a : ℕ
  b : ℕ
  c : ℕ
  d : ℕ

/-- The numerals with dots between them. -/
def Quad.text (q : Quad) : List UInt8 :=
  [46].intercalate [decimal q.a, decimal q.b, decimal q.c, decimal q.d]

/-- The numbers are bytes. -/
structure Quad.Valid (q : Quad) : Prop where
  a_le : q.a ≤ 255
  b_le : q.b ≤ 255
  c_le : q.c ≤ 255
  d_le : q.d ≤ 255

/-- The text of an IPv4 address. -/
def IsIpv4 (s : List UInt8) : Prop := ∃ q : Quad, q.Valid ∧ q.text = s

/-- A decimal number up to a bound. -/
def IsNumber (max : ℕ) (s : List UInt8) : Prop := ∃ n ≤ max, decimal n = s

theorem not_mem_decimal {c : UInt8} (hc : isDigit c = false) (n : ℕ) : c ∉ decimal n :=
  fun h ↦ by simp [isDigit_decimal c h] at hc

theorem Quad.text_eq (q : Quad) : q.text =
    decimal q.a ++ 46 :: (decimal q.b ++ 46 :: (decimal q.c ++ 46 :: decimal q.d)) := by
  simp [Quad.text, List.intercalate, List.intersperse]

theorem Quad.text_injective : Function.Injective Quad.text := by
  intro q r h
  have hsplit (q : Quad) :
      q.text.splitOn 46 = [decimal q.a, decimal q.b, decimal q.c, decimal q.d] := by
    apply List.splitOn_intercalate
    · have hdot := not_mem_decimal (show isDigit 46 = false by decide)
      simp [hdot]
    · exact List.cons_ne_nil _ _
  have heq := hsplit q ▸ h ▸ hsplit r
  simp only [List.cons.injEq, and_true, decimal_injective.eq_iff] at heq
  exact Quad.ext heq.1 heq.2.1 heq.2.2.1 heq.2.2.2

theorem Quad.mem_text {q : Quad} {c : UInt8} (h : c ∈ q.text) : c = 46 ∨ isDigit c = true := by
  rw [Quad.text_eq] at h
  simp only [List.mem_append, List.mem_cons] at h
  rcases h with h | rfl | h | rfl | h | rfl | h
  all_goals first | exact .inl rfl | exact .inr (isDigit_decimal c h)

theorem Quad.dot_mem_text (q : Quad) : (46 : UInt8) ∈ q.text := by
  rw [Quad.text_eq]
  simp

/-! ## IPv6 -/

/-- A hexadecimal digit. -/
def hexDigit (c : UInt8) : Option ℕ :=
  if 48 ≤ c && c ≤ 57 then some (c.toNat - 48)
  else if 65 ≤ c && c ≤ 70 then some (c.toNat - 55)
  else if 97 ≤ c && c ≤ 102 then some (c.toNat - 87)
  else none

/-- The hexadecimal digits of a number, at most `fuel` of them. -/
def hexDigits : ℕ → ℕ → List UInt8
  | 0, _ => []
  | fuel + 1, n =>
    (if n < 16 then [] else hexDigits fuel (n / 16)) ++
      [UInt8.ofNat (if n % 16 < 10 then 48 + n % 16 else 87 + n % 16)]

/-- A group as it is written. -/
@[ext] structure Group where
  digits : List UInt8
  ne_nil : digits ≠ []
  length_le : digits.length ≤ 4
  isHex : ∀ c ∈ digits, (hexDigit c).isSome = true

/-- The number that hexadecimal digits stand for. -/
def hexValue (s : List UInt8) : ℕ := s.foldl (fun n c ↦ 16 * n + (hexDigit c).getD 0) 0

/-- The number that a group stands for. -/
def Group.value (g : Group) : ℕ := hexValue g.digits

theorem hexValue_append (s r : List UInt8) :
    hexValue (s ++ r) = r.foldl (fun n c ↦ 16 * n + (hexDigit c).getD 0) (hexValue s) :=
  List.foldl_append

theorem hexDigit_ofNat : ∀ n < 16,
    hexDigit (UInt8.ofNat (if n % 16 < 10 then 48 + n % 16 else 87 + n % 16)) = some n := by
  decide

theorem hexDigit_last (n : ℕ) :
    hexDigit (UInt8.ofNat (if n % 16 < 10 then 48 + n % 16 else 87 + n % 16)) = some (n % 16) := by
  have h := hexDigit_ofNat (n % 16) (Nat.mod_lt _ (by decide))
  rwa [Nat.mod_mod] at h

theorem hexValue_hexDigits {fuel n : ℕ} (h : n < 16 ^ fuel) : hexValue (hexDigits fuel n) = n := by
  induction fuel generalizing n with
  | zero =>
    obtain rfl : n = 0 := by omega
    rfl
  | succ fuel ih =>
    rw [hexDigits, hexValue_append, List.foldl_cons, List.foldl_nil, hexDigit_last, Option.getD_some]
    split_ifs with hn
    · rw [Nat.mod_eq_of_lt hn]
      exact Nat.zero_add n
    · rw [ih (by rw [Nat.pow_succ] at h; omega)]
      exact Nat.div_add_mod n 16

theorem length_hexDigits_le (fuel n : ℕ) : (hexDigits fuel n).length ≤ fuel := by
  induction fuel generalizing n with
  | zero => rfl
  | succ fuel ih =>
    rw [hexDigits, List.length_append, List.length_singleton]
    split_ifs
    · exact Nat.succ_le_succ (Nat.zero_le _)
    · exact Nat.succ_le_succ (ih _)

theorem isHex_hexDigits (fuel n : ℕ) : ∀ c ∈ hexDigits fuel n, (hexDigit c).isSome = true := by
  induction fuel generalizing n with
  | zero => exact nofun
  | succ fuel ih =>
    intro c hc
    rw [hexDigits] at hc
    rcases List.mem_append.mp hc with hc | hc
    · split_ifs at hc
      · exact absurd hc List.not_mem_nil
      · exact ih _ c hc
    · rw [List.mem_singleton.mp hc, hexDigit_last]
      rfl

/-- The shortest group for a number. -/
def Group.ofNat (n : ℕ) : Group where
  digits := hexDigits 4 n
  ne_nil := by simp [hexDigits]
  length_le := length_hexDigits_le 4 n
  isHex := isHex_hexDigits 4 n

theorem Group.value_ofNat {n : ℕ} (h : n < 16 ^ 4) : (Group.ofNat n).value = n :=
  hexValue_hexDigits h

theorem foldl_hex_lt {s : List UInt8} {n k : ℕ} (hn : n < 16 ^ k) :
    s.foldl (fun n c ↦ 16 * n + (hexDigit c).getD 0) n < 16 ^ (k + s.length) := by
  induction s generalizing n k with
  | nil => exact hn
  | cons c s ih =>
    have hc : (hexDigit c).getD 0 < 16 := by
      have := c.toNat_lt
      rw [hexDigit]
      simp only [Bool.and_eq_true, decide_eq_true_eq, UInt8.le_iff_toNat_le]
      split_ifs with h h h
      · have := h.2; simp at this ⊢; omega
      · have := h.2; simp at this ⊢; omega
      · have := h.2; simp at this ⊢; omega
      · decide
    rw [List.foldl_cons, List.length_cons, Nat.add_comm s.length, ← Nat.add_assoc]
    exact ih (by rw [Nat.pow_succ]; omega)

theorem Group.value_lt (g : Group) : g.value < 16 ^ 4 := by
  have h := foldl_hex_lt (s := g.digits) (show 0 < 16 ^ 0 by decide)
  rw [Nat.zero_add] at h
  exact h.trans_le (Nat.pow_le_pow_right (by decide) g.length_le)

/-- An IPv6 address as it is written: groups, perhaps two colons and more groups, and perhaps an
IPv4 address for the last two. -/
structure Ipv6 where
  before : List Group
  after : Option (List Group)
  tail : Option Quad

namespace Ipv6

variable (t : Ipv6)

/-- The groups that are written. -/
def groups : List Group := t.before ++ t.after.getD []

/-- How many groups there are, an IPv4 address apart. -/
def width : ℕ := if t.tail.isSome then 6 else 8

/-- The IPv4 address as a piece. -/
def tailPieces : List (List UInt8) := (t.tail.map Quad.text).toList

/-- The text. -/
def text : List UInt8 :=
  match t.after with
  | none => [58].intercalate (t.before.map Group.digits ++ t.tailPieces)
  | some after => [58].intercalate (t.before.map Group.digits) ++
      58 :: 58 :: [58].intercalate (after.map Group.digits ++ t.tailPieces)

/-- The pieces of the text, where one of two colons at an end is not counted. -/
def pieces : List (List UInt8) :=
  match t.after with
  | none => t.before.map Group.digits ++ t.tailPieces
  | some after => t.before.map Group.digits ++ [] :: (after.map Group.digits ++ t.tailPieces)

/-- Two colons stand for one group at least, and there are all groups without them. -/
def Counted : Prop :=
  if t.after.isSome then t.groups.length < t.width else t.groups.length = t.width

/-- An IPv6 address. -/
structure Valid : Prop where
  counted : t.Counted
  tail : ∀ q ∈ t.tail, q.Valid

/-- The numbers of all groups, an IPv4 address apart. -/
def values : List ℕ :=
  t.before.map Group.value ++ List.replicate (t.width - t.groups.length) 0 ++
    (t.after.getD []).map Group.value

/-- The numbers of all eight groups. -/
def address : List ℕ :=
  t.values ++ (t.tail.map fun q ↦ [256 * q.a + q.b, 256 * q.c + q.d]).getD []

end Ipv6

/-- The text of an IPv6 address. -/
def IsIpv6 (s : List UInt8) : Prop := ∃ t : Ipv6, t.Valid ∧ t.text = s

/-- The first longest run of at least two groups of zeros is left out, and a shorter one is not. -/
def Ipv6.Compressed (t : Ipv6) : Prop :=
  match t.after with
  | none => ∀ i, ¬Runs.IsRun 0 t.values i 2
  | some _ => 2 ≤ t.width - t.groups.length ∧
      Runs.IsFirstLongest 0 t.values t.before.length (t.width - t.groups.length)

/-- Every group is the shortest one in lower case, and the first longest run of zeros is left out.
-/
structure Ipv6.Canonical (t : Ipv6) : Prop where
  digits : ∀ g ∈ t.groups, g.digits = hexDigits 4 g.value
  compressed : t.Compressed

/-- The text is that of this IPv6 address. -/
def Denotes (s : List UInt8) (address : List ℕ) : Prop :=
  ∃ t : Ipv6, t.Valid ∧ t.text = s ∧ t.address = address

/-- A text without the first colon at its front and the last one at its end. -/
def trim (s : List UInt8) : List UInt8 :=
  let s := if s.head? = some 58 then s.tail else s
  if s.getLast? = some 58 then s.dropLast else s

theorem hexDigit_colon : hexDigit 58 = none := rfl

theorem hexDigit_dot : hexDigit 46 = none := rfl

theorem Group.not_mem {c : UInt8} (hc : hexDigit c = none) (g : Group) : c ∉ g.digits :=
  fun h ↦ by simpa [hc] using g.isHex c h

namespace Ipv6

variable {t : Ipv6}

theorem colon_not_mem_tailPieces : ∀ p ∈ t.tailPieces, (58 : UInt8) ∉ p := by
  intro p hp hmem
  simp only [tailPieces, Option.mem_toList, Option.map_eq_some_iff] at hp
  obtain ⟨q, -, rfl⟩ := hp
  rcases Quad.mem_text hmem with h | h
  · exact absurd h (by decide)
  · exact absurd h (by decide)

theorem nil_not_mem_tailPieces : [] ∉ t.tailPieces := by
  intro hmem
  simp only [tailPieces, Option.mem_toList, Option.map_eq_some_iff] at hmem
  obtain ⟨q, -, hq⟩ := hmem
  exact absurd (hq ▸ q.dot_mem_text) List.not_mem_nil

/-- Groups, and perhaps an IPv4 address: the pieces on one side of the two colons. -/
theorem nil_not_mem_run {gs : List Group} : [] ∉ gs.map Group.digits ++ t.tailPieces := by
  rw [List.mem_append, not_or]
  refine ⟨fun hmem ↦ ?_, nil_not_mem_tailPieces⟩
  obtain ⟨g, -, hg⟩ := List.mem_map.mp hmem
  exact g.ne_nil hg

theorem colon_not_mem_run {gs : List Group} :
    ∀ p ∈ gs.map Group.digits ++ t.tailPieces, (58 : UInt8) ∉ p := by
  intro p hp
  rcases List.mem_append.mp hp with hp | hp
  · obtain ⟨g, -, rfl⟩ := List.mem_map.mp hp
    exact g.not_mem hexDigit_colon
  · exact colon_not_mem_tailPieces p hp

theorem colon_not_mem_pieces : ∀ p ∈ t.pieces, (58 : UInt8) ∉ p := by
  intro p hp
  rw [pieces] at hp
  split at hp
  · exact colon_not_mem_run p hp
  · rcases List.mem_append.mp hp with hp | hp
    · exact colon_not_mem_run (t := t) p (List.mem_append_left _ hp)
    · rcases List.mem_cons.mp hp with rfl | hp
      · exact List.not_mem_nil
      · exact colon_not_mem_run p hp

end Ipv6

/-! ### A text is written in one way -/

theorem trim_of_ne {s : List UInt8} (hhead : s.head? ≠ some 58) (hlast : s.getLast? ≠ some 58) :
    trim s = s := by
  simp only [trim, if_neg hhead, if_neg hlast]

theorem trim_colons {xs ys : List (List UInt8)} (hx : [] ∉ xs) (hy : [] ∉ ys)
    (hxc : ∀ p ∈ xs, (58 : UInt8) ∉ p) (hyc : ∀ p ∈ ys, (58 : UInt8) ∉ p) :
    trim ([58].intercalate xs ++ 58 :: 58 :: [58].intercalate ys) =
      [58].intercalate (xs ++ [] :: ys) := by
  have hlast := getLast?_intercalate 58 hy hyc
  have hhead := head?_intercalate 58 hx hxc
  have hempty (hys : ys ≠ []) : [58].intercalate ([] :: ys) = 58 :: [58].intercalate ys :=
    List.intercalate_cons_of_ne_nil hys
  rcases eq_or_ne xs [] with rfl | hxs
  · rcases eq_or_ne ys [] with rfl | hys
    · rfl
    · have hne := intercalate_ne_nil 58 hys hy
      rw [List.intercalate_nil, List.nil_append, List.nil_append, hempty hys, trim, List.head?_cons,
        if_pos rfl, List.tail_cons, List.getLast?_cons_of_ne_nil hne]
      exact if_neg hlast
  · have hne := intercalate_ne_nil 58 hxs hx
    have hhead (s : List UInt8) : ([58].intercalate xs ++ s).head? ≠ some 58 := by
      rwa [List.head?_append_of_ne_nil _ hne]
    rw [intercalate_append 58 hxs (List.cons_ne_nil _ _)]
    rcases eq_or_ne ys [] with rfl | hys
    · rw [trim, if_neg (hhead _), List.intercalate_singleton, List.intercalate_nil,
        List.getLast?_append_of_ne_nil _ (by simp), List.dropLast_append_of_ne_nil (by simp)]
      rfl
    · rw [hempty hys]
      apply trim_of_ne (hhead _)
      have hne := intercalate_ne_nil 58 hys hy
      rwa [List.getLast?_append_of_ne_nil _ (by simp), List.getLast?_cons_of_ne_nil (by simp),
        List.getLast?_cons_of_ne_nil hne]

namespace Ipv6

variable {t : Ipv6}

theorem trim_text : trim t.text = [58].intercalate t.pieces := by
  rw [text, pieces]
  split
  · exact trim_of_ne (head?_intercalate 58 nil_not_mem_run colon_not_mem_run)
      (getLast?_intercalate 58 nil_not_mem_run colon_not_mem_run)
  · have hbefore : [] ∉ t.before.map Group.digits := fun hmem ↦
      nil_not_mem_run (t := t) (List.mem_append_left _ hmem)
    have hcolon : ∀ p ∈ t.before.map Group.digits, (58 : UInt8) ∉ p := fun p hp ↦
      colon_not_mem_run (t := t) p (List.mem_append_left _ hp)
    exact trim_colons hbefore nil_not_mem_run hcolon colon_not_mem_run

theorem pieces_ne_nil (h : t.after = none → t.before ≠ []) : t.pieces ≠ [] := by
  rw [pieces]
  split
  · next hafter => simp [h hafter]
  · simp

theorem Counted.before_ne_nil (h : t.Counted) (hafter : t.after = none) : t.before ≠ [] := by
  intro hnil
  rw [Counted, hafter, if_neg (by decide), groups, hafter, hnil, width] at h
  split_ifs at h <;> exact absurd h (by decide)

/-- **Pieces.** The trimmed text falls into the groups, with an empty piece for the two colons. -/
theorem pieces_text (h : t.after = none → t.before ≠ []) :
    (trim t.text).splitOn 58 = t.pieces := by
  rw [trim_text]
  exact List.splitOn_intercalate 58 colon_not_mem_pieces (pieces_ne_nil h)

theorem tailPieces_none (h : t.tail = none) : t.tailPieces = [] := by rw [tailPieces, h]; rfl

theorem tailPieces_some {q : Quad} (h : t.tail = some q) : t.tailPieces = [q.text] := by
  rw [tailPieces, h]; rfl

theorem tailPieces_ne_cons (g : Group) (ps : List (List UInt8)) :
    t.tailPieces ≠ g.digits :: ps := by
  intro h
  rcases ht : t.tail with _ | q
  · rw [tailPieces_none ht] at h
    exact List.cons_ne_nil _ _ h.symm
  · rw [tailPieces_some ht] at h
    exact g.not_mem hexDigit_dot ((List.cons.inj h).1 ▸ q.dot_mem_text)

theorem tailPieces_inj {u : Ipv6} (h : t.tailPieces = u.tailPieces) : t.tail = u.tail := by
  rcases ht : t.tail with _ | q <;> rcases hu : u.tail with _ | r
  · rfl
  · rw [tailPieces_none ht, tailPieces_some hu] at h
    exact absurd h.symm (List.cons_ne_nil _ _)
  · rw [tailPieces_some ht, tailPieces_none hu] at h
    exact absurd h (List.cons_ne_nil _ _)
  · rw [tailPieces_some ht, tailPieces_some hu] at h
    rw [Quad.text_injective (List.cons.inj h).1]

theorem run_inj {u : Ipv6} {gs hs : List Group}
    (h : gs.map Group.digits ++ t.tailPieces = hs.map Group.digits ++ u.tailPieces) :
    gs = hs ∧ t.tail = u.tail := by
  induction gs generalizing hs with
  | nil =>
    rcases hs with _ | ⟨g, hs⟩
    · exact ⟨rfl, tailPieces_inj h⟩
    · exact absurd h (tailPieces_ne_cons g _)
  | cons g gs ih =>
    rcases hs with _ | ⟨g', hs⟩
    · exact absurd h.symm (tailPieces_ne_cons g _)
    · obtain ⟨hdigits, hrest⟩ := List.cons.inj h
      obtain ⟨rfl, htail⟩ := ih hrest
      exact ⟨by rw [Group.ext hdigits], htail⟩

theorem pieces_inj {u : Ipv6} (h : t.pieces = u.pieces) : t = u := by
  obtain ⟨before, after, tail⟩ := t
  obtain ⟨before', after', tail'⟩ := u
  have hnil (gs : List Group) : [] ∉ gs.map Group.digits := fun hmem ↦
    nil_not_mem_run (t := ⟨gs, none, none⟩) (List.mem_append_left _ hmem)
  have hrun (v : Ipv6) (gs hs : List Group) (ps : List (List UInt8))
      (h : gs.map Group.digits ++ v.tailPieces = hs.map Group.digits ++ [] :: ps) : False :=
    nil_not_mem_run (h ▸ List.mem_append_right _ List.mem_cons_self)
  rcases after with _ | after <;> rcases after' with _ | after'
  · obtain ⟨rfl, rfl⟩ := run_inj (t := ⟨_, none, tail⟩) (u := ⟨_, none, tail'⟩) h
    rfl
  · exact (hrun ⟨_, none, tail⟩ before before' _ h).elim
  · exact (hrun ⟨_, none, tail'⟩ before' before _ h.symm).elim
  · obtain ⟨hbefore, -, hrest⟩ :=
      (List.append_cons_inj_of_notMem (hnil before) (nil_not_mem_run (t := ⟨_, _, tail⟩))).mp h
    obtain ⟨rfl, rfl⟩ :=
      run_inj (t := ⟨_, some after, tail⟩) (u := ⟨_, some after', tail'⟩) hrest
    rw [List.map_injective_iff.mpr (fun _ _ ↦ Group.ext) hbefore]

/-- **A text is that of one address.** -/
theorem text_inj {u : Ipv6} (ht : t.after = none → t.before ≠ [])
    (hu : u.after = none → u.before ≠ []) (h : t.text = u.text) : t = u :=
  pieces_inj (by rw [← pieces_text ht, ← pieces_text hu, h])

end Ipv6

end Inet
