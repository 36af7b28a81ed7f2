import Mathlib.Algebra.Group.Nat.Defs
import Mathlib.Data.List.Induction
import Mathlib.Data.List.Infix
import Mathlib.Data.Nat.Basic

/-!
# Texts

Texts as lists of bytes: the first place of a pattern, decimal numerals.
-/

namespace Text

/-! ## The first place of a pattern -/

section

variable {α : Type*} [DecidableEq α]

/-- The first place at which the pattern stands. -/
def find (pat : List α) : List α → Option ℕ
  | [] => if pat = [] then some 0 else none
  | x :: s => if pat <+: x :: s then some 0 else (find pat s).map (· + 1)

theorem find_eq_none_iff {pat s : List α} : find pat s = none ↔ ¬pat <:+: s := by
  induction s with
  | nil =>
    rw [find, List.infix_nil]
    split_ifs with h <;> simp [h]
  | cons x s ih =>
    rw [find, List.infix_cons_iff]
    split_ifs with h
    · simp [h]
    · simp [h, ih]

omit [DecidableEq α] in
/-- A pattern whose first letter does not come again in it cannot overlap with itself. -/
theorem not_prefix_append {c x : α} {t p r : List α} (hc : c ∉ t) (h : ¬c :: t <:+: x :: p) :
    ¬c :: t <+: x :: (p ++ c :: r) := by
  intro hpre
  obtain ⟨rfl, ht⟩ := List.cons_prefix_cons.mp hpre
  have hpc : p ++ [c] <+: p ++ c :: r := ⟨r, by simp⟩
  rcases List.prefix_or_prefix_of_prefix ht hpc with hle | hle
  · rcases List.prefix_concat_iff.mp hle with heq | hle
    · exact hc (heq ▸ by simp)
    · exact h (List.cons_prefix_cons.mpr ⟨rfl, hle⟩).isInfix
  · exact hc (hle.subset (by simp))

/-- **The pattern is found right behind a text without it.** -/
theorem find_append {c : α} {t p : List α} (hc : c ∉ t) (h : ¬c :: t <:+: p) (r : List α) :
    find (c :: t) (p ++ (c :: t ++ r)) = some p.length := by
  induction p with
  | nil =>
    have hpre : c :: t <+: c :: (t ++ r) := ⟨r, rfl⟩
    rw [List.nil_append, List.cons_append, find, if_pos hpre]
    rfl
  | cons x p ih =>
    have hp : ¬c :: t <:+: p := fun hp ↦ h (List.infix_cons_iff.mpr (.inr hp))
    rw [List.cons_append, find, List.cons_append, if_neg (not_prefix_append hc h),
      ← List.cons_append, ih hp]
    rfl

end

/-! ## Decimal numerals -/

/-- A decimal digit. -/
def isDigit (c : UInt8) : Bool := 48 ≤ c && c ≤ 57

/-- The number that a text of digits stands for. -/
def value (s : List UInt8) : ℕ := s.foldl (fun n c ↦ 10 * n + (c.toNat - 48)) 0

/-- The digits of a number, at most `fuel` of them. -/
def digits : ℕ → ℕ → List UInt8
  | 0, _ => []
  | fuel + 1, n =>
    (if n < 10 then [] else digits fuel (n / 10)) ++ [UInt8.ofNat (48 + n % 10)]

/-- The decimal numeral of a number. -/
def decimal (n : ℕ) : List UInt8 := digits (n + 1) n

theorem toNat_digit {d : ℕ} (hd : d < 10) : (UInt8.ofNat (48 + d)).toNat = 48 + d := by
  rw [UInt8.toNat_ofNat', Nat.mod_eq_of_lt (by omega)]

theorem value_append_digit (s : List UInt8) {d : ℕ} (hd : d < 10) :
    value (s ++ [UInt8.ofNat (48 + d)]) = 10 * value s + d := by
  rw [value, List.foldl_append, List.foldl_cons, List.foldl_nil, toNat_digit hd, value]
  omega

theorem value_digits {fuel n : ℕ} (h : n < fuel) : value (digits fuel n) = n := by
  induction fuel generalizing n with
  | zero => omega
  | succ fuel ih =>
    rw [digits, value_append_digit _ (Nat.mod_lt _ (by decide))]
    split_ifs with hn
    · simp only [value, List.foldl_nil]
      omega
    · rw [ih (by omega)]
      omega

/-- **A numeral is read back.** -/
theorem value_decimal (n : ℕ) : value (decimal n) = n := value_digits (Nat.lt_succ_self n)

theorem isDigit_digits {fuel n : ℕ} : ∀ c ∈ digits fuel n, isDigit c = true := by
  induction fuel generalizing n with
  | zero => simp [digits]
  | succ fuel ih =>
    intro c hc
    rw [digits, List.mem_append, List.mem_singleton] at hc
    rcases hc with hc | rfl
    · split_ifs at hc
      · exact absurd hc List.not_mem_nil
      · exact ih c hc
    · have hlt : n % 10 < 10 := Nat.mod_lt _ (by decide)
      rw [isDigit, Bool.and_eq_true, decide_eq_true_iff, decide_eq_true_iff,
        UInt8.le_iff_toNat_le, UInt8.le_iff_toNat_le, toNat_digit hlt]
      exact ⟨Nat.le_add_right 48 _, Nat.add_le_add_left (Nat.le_of_lt_succ hlt) 48⟩

theorem isDigit_decimal {n : ℕ} : ∀ c ∈ decimal n, isDigit c = true := isDigit_digits

theorem decimal_ne_nil (n : ℕ) : decimal n ≠ [] := by
  rw [decimal, digits]
  simp

theorem value_append (s : List UInt8) (c : UInt8) :
    value (s ++ [c]) = 10 * value s + (c.toNat - 48) := by
  rw [value, List.foldl_append, List.foldl_cons, List.foldl_nil, value]

theorem isDigit_iff {c : UInt8} : isDigit c = true ↔ 48 ≤ c.toNat ∧ c.toNat ≤ 57 := by
  rw [isDigit, Bool.and_eq_true, decide_eq_true_iff, decide_eq_true_iff,
    UInt8.le_iff_toNat_le, UInt8.le_iff_toNat_le]
  rfl

theorem value_lt {s : List UInt8} (hs : ∀ c ∈ s, isDigit c = true) : value s < 10 ^ s.length := by
  induction s using List.reverseRecOn with
  | nil => decide
  | append_singleton s c ih =>
    have hc := isDigit_iff.mp (hs c (by simp))
    have hlt := ih fun d hd ↦ hs d (by simp [hd])
    rw [value_append, List.length_append, List.length_singleton, Nat.pow_succ]
    omega

theorem value_pos {s : List UInt8} (hs : ∀ c ∈ s, isDigit c = true) (hne : s ≠ [])
    (hzero : s.head? ≠ some 48) : 0 < value s := by
  induction s using List.reverseRecOn with
  | nil => exact absurd rfl hne
  | append_singleton s c ih =>
    rw [value_append]
    rcases eq_or_ne s [] with rfl | hs'
    · have hc := isDigit_iff.mp (hs c (by simp))
      have hc0 : c.toNat ≠ 48 := fun h ↦ hzero (congrArg some (UInt8.toNat_inj.mp h))
      omega
    · have hpos := ih (fun d hd ↦ hs d (by simp [hd])) hs' (by
        rwa [List.head?_append_of_ne_nil _ hs'] at hzero)
      omega

theorem digits_value {s : List UInt8} (hs : ∀ c ∈ s, isDigit c = true) (hne : s ≠ [])
    (hzero : s.head? ≠ some 48) {fuel : ℕ} (hfuel : value s < fuel) :
    digits fuel (value s) = s := by
  induction s using List.reverseRecOn generalizing fuel with
  | nil => exact absurd rfl hne
  | append_singleton s c ih =>
    have hc := isDigit_iff.mp (hs c (by simp))
    have hbyte : UInt8.ofNat (48 + (c.toNat - 48)) = c := by
      rw [Nat.add_sub_cancel' hc.1, UInt8.ofNat_toNat]
    rw [value_append] at hfuel ⊢
    obtain ⟨fuel, rfl⟩ := Nat.exists_eq_add_one.mpr (Nat.zero_lt_of_lt hfuel)
    rw [digits, Nat.mul_add_mod, Nat.mod_eq_of_lt (by omega), hbyte]
    congr 1
    rcases eq_or_ne s [] with rfl | hs'
    · exact if_pos (by simp only [value, List.foldl_nil]; omega)
    · have hhead : s.head? ≠ some 48 := by rwa [List.head?_append_of_ne_nil _ hs'] at hzero
      have hds : ∀ d ∈ s, isDigit d = true := fun d hd ↦ hs d (by simp [hd])
      have hpos := value_pos hds hs' hhead
      rw [if_neg (by omega), show (10 * value s + (c.toNat - 48)) / 10 = value s by omega]
      exact ih hds hs' hhead (by omega)

/-- **A text of digits is a numeral**, if it does not begin with a zero. -/
theorem decimal_value {s : List UInt8} (hs : ∀ c ∈ s, isDigit c = true) (hne : s ≠ [])
    (hzero : s.head? ≠ some 48) : decimal (value s) = s :=
  digits_value hs hne hzero (Nat.lt_succ_self _)

theorem decimal_injective : Function.Injective decimal :=
  Function.LeftInverse.injective value_decimal

theorem lt_of_length_decimal {n k : ℕ} (h : (decimal n).length ≤ k) : n < 10 ^ k := by
  rw [← value_decimal n]
  exact lt_of_lt_of_le (value_lt isDigit_decimal) (Nat.pow_le_pow_right (by decide) h)

theorem length_digits_le {fuel n k : ℕ} (h : n < 10 ^ (k + 1)) :
    (digits fuel n).length ≤ k + 1 := by
  induction fuel generalizing n k with
  | zero => exact Nat.zero_le _
  | succ fuel ih =>
    rw [digits, List.length_append, List.length_singleton]
    apply Nat.succ_le_succ
    split_ifs with hn
    · exact Nat.zero_le _
    · rcases k with _ | k
      · exact absurd h hn
      · exact ih (by rw [Nat.pow_succ] at h; omega)

theorem length_decimal_le {n k : ℕ} (h : n < 10 ^ (k + 1)) : (decimal n).length ≤ k + 1 :=
  length_digits_le h

theorem head_digits {fuel n : ℕ} (hpos : 0 < n) (hfuel : n < fuel) :
    (digits fuel n).head? ≠ some 48 := by
  induction fuel generalizing n with
  | zero => exact absurd hfuel (Nat.not_lt_zero n)
  | succ fuel ih =>
    rw [digits]
    split_ifs with hn
    · rw [List.nil_append, List.head?_cons, Nat.mod_eq_of_lt hn]
      intro h
      have hbyte := congrArg UInt8.toNat (Option.some.inj h)
      rw [toNat_digit hn] at hbyte
      have h48 : (48 : UInt8).toNat = 48 := rfl
      omega
    · have hne : digits fuel (n / 10) ≠ [] := by
        obtain ⟨fuel, rfl⟩ := Nat.exists_eq_add_one.mpr (show 0 < fuel by omega)
        simp [digits]
      rw [List.head?_append_of_ne_nil _ hne]
      exact ih (by omega) (by omega)

theorem head_decimal {n : ℕ} (hpos : 0 < n) : (decimal n).head? ≠ some 48 :=
  head_digits hpos (Nat.lt_succ_self n)

end Text
