import Knet.Http.ParseUrl
import Knet.Lib.Inet

/-!
# `normalize_path`

The elements of a path are read one after the other with `std::getline`, and those that stay are on
a stack. The element behind the last slash is treated on its own. `normalizePath` says the same with
the elements all at once (`normalizePathIn_eq`).

What comes out is `Normal`: nothing that is on the stack is empty or a dot segment, and the last
element is no dot segment. Such elements are read back as they are, so a normalised path is not
changed by normalising it again.
-/

namespace Knet.Http.HttpUrl

open Bytes

/-! ## The loop -/

/-- `std::getline(si, elem, '/')`: the element, and what is left when the end was not reached. -/
def getline (si : List UInt8) : List UInt8 × Option (List UInt8) :=
  ((cutAt [47] si).1, if (cutAt [47] si).2 = [] then none else some (cutAt [47] si).2.tail)

/-- An element in front of a slash. -/
def pushElem (elems : List (List UInt8)) (elem : List UInt8) : List (List UInt8) :=
  if elem = [] ∨ elem = ofString "." then elems
  else if elem = ofString ".." then elems.dropLast
  else elems ++ [elem]

/-- The loop: `elems` and the `elem` at the end, or `none` when it takes more rounds. -/
def readElems : (rounds : ℕ) → (si : List UInt8) → (elems : List (List UInt8)) →
    Option (List (List UInt8) × List UInt8)
  | 0, _, _ => none
  | rounds + 1, si, elems =>
    match (getline si).2 with
    | some si' => readElems rounds si' (pushElem elems (getline si).1)
    | none => some (elems, (getline si).1)

/-- The last element. -/
def pushLast (elems : List (List UInt8)) (elem : List UInt8) : List (List UInt8) :=
  if elem = ofString "." then elems ++ [[]]
  else if elem = ofString ".." then elems.dropLast
  else elems ++ [elem]

/-- `normalize_path`, or `none` when it takes more rounds. -/
def normalizePathIn (rounds : ℕ) (s : List UInt8) : Option (List UInt8) :=
  if s = [] then some s
  else (readElems rounds s []).map fun (elems, elem) ↦
    (if s.head? = some 47 then [47] else []) ++ [47].intercalate (pushLast elems elem)

theorem splitOn_getline (si : List UInt8) : si.splitOn 47 =
    match (getline si).2 with
    | some si' => (getline si).1 :: si'.splitOn 47
    | none => [(getline si).1] := by
  have happend := cutAt_append [47] si
  have hnot := not_mem_cutAt (List.mem_singleton_self (47 : UInt8)) si
  have hhead {c : UInt8} {t : List UInt8} := cutAt_head (q := [47]) (s := si) (c := c) (r := t)
  rw [getline]
  generalize cutAt [47] si = cut at happend hnot hhead
  obtain ⟨elem, r⟩ := cut
  dsimp only at happend hnot hhead ⊢
  have hall : ∀ c ∈ elem, (c == 47) = false := fun c hc ↦
    beq_eq_false_iff_ne.mpr fun heq ↦ hnot (heq ▸ hc)
  subst happend
  rcases r with _ | ⟨c, r⟩
  · rw [if_pos rfl, List.append_nil]
    exact List.splitOnP_eq_singleton hall
  · obtain rfl : c = 47 := List.mem_singleton.mp (hhead rfl)
    rw [if_neg (List.cons_ne_nil _ _), List.tail_cons]
    exact List.splitOnP_append_cons_of_forall_mem hall 47 rfl r

theorem length_getline {si si' : List UInt8} (h : (getline si).2 = some si') :
    si'.length < si.length := by
  rw [getline] at h
  split_ifs at h with hnil
  obtain rfl := Option.some.inj h
  have hle := (cutAt_suffix [47] si).length_le
  have hpos := List.length_pos_iff.mpr hnil
  rw [List.length_tail]
  omega

theorem pushAll_cons (elems rest : List (List UInt8)) (elem : List UInt8) :
    pushAll elems (elem :: rest) = pushAll (pushElem elems elem) rest := by
  rw [pushAll, pushElem]
  split_ifs <;> rfl

/-- **The loop ends**: every round but the last takes a slash. -/
theorem readElems_eq {rounds : ℕ} {si : List UInt8} (elems : List (List UInt8))
    (h : si.length < rounds) : readElems rounds si elems =
      some (pushAll elems (si.splitOn 47).dropLast, (si.splitOn 47).getLastD []) := by
  induction rounds generalizing si elems with
  | zero => exact absurd h (Nat.not_lt_zero _)
  | succ rounds ih =>
    -- `getline` takes one segment; without a slash behind it, that is the last one.
    rw [readElems, splitOn_getline]
    rcases hline : (getline si).2 with _ | si'
    · rfl
    · have hlen := length_getline hline
      obtain ⟨p, ps, hps⟩ := List.exists_cons_of_ne_nil (List.splitOn_ne_nil 47 si')
      dsimp only
      rw [ih _ (by omega), hps, List.dropLast_cons_of_ne_nil (List.cons_ne_nil _ _), pushAll_cons]
      rfl

theorem normalizePathIn_eq {rounds : ℕ} {s : List UInt8} (h : s.length < rounds) :
    normalizePathIn rounds s = some (normalizePath s) := by
  rw [normalizePathIn, normalizePath]
  split_ifs
  · rfl
  · rw [readElems_eq [] h]
    rfl
  · rw [readElems_eq [] h]
    rfl

/-! ## What is on the stack -/

/-- An element of a normalised path. -/
structure IsElem (elem : List UInt8) : Prop where
  ne_nil : elem ≠ []
  ne_dot : elem ≠ ofString "."
  ne_dots : elem ≠ ofString ".."
  slash : 47 ∉ elem

/-- The last element may be empty. -/
structure IsLast (elem : List UInt8) : Prop where
  ne_dot : elem ≠ ofString "."
  ne_dots : elem ≠ ofString ".."
  slash : 47 ∉ elem

/-- The elements of a normalised path. -/
structure Normal (elems : List (List UInt8)) : Prop where
  stack : ∀ elem ∈ elems.dropLast, IsElem elem
  last : ∀ elem ∈ elems.getLast?, IsLast elem

theorem IsElem.isLast {elem : List UInt8} (h : IsElem elem) : IsLast elem :=
  ⟨h.ne_dot, h.ne_dots, h.slash⟩

theorem isLast_nil : IsLast [] := ⟨by decide, by decide, List.not_mem_nil⟩

theorem normal_concat {elems : List (List UInt8)} {elem : List UInt8}
    (h : ∀ elem ∈ elems, IsElem elem) (hlast : IsLast elem) : Normal (elems ++ [elem]) := by
  constructor
  · rwa [List.dropLast_concat]
  · rw [List.getLast?_concat]
    rintro _ ⟨⟩
    exact hlast

theorem normal_of_forall {elems : List (List UInt8)} (h : ∀ elem ∈ elems, IsElem elem) :
    Normal elems :=
  ⟨fun elem hmem ↦ h elem (List.mem_of_mem_dropLast hmem),
    fun elem hmem ↦ (h elem (List.mem_of_getLast? hmem)).isLast⟩

theorem forall_pushElem {elems : List (List UInt8)} {elem : List UInt8}
    (h : ∀ elem ∈ elems, IsElem elem) (hslash : 47 ∉ elem) :
    ∀ elem' ∈ pushElem elems elem, IsElem elem' := by
  rw [pushElem]
  split_ifs with hskip hdots
  · exact h
  · exact fun elem' hmem ↦ h elem' (List.mem_of_mem_dropLast hmem)
  · rw [not_or] at hskip
    intro elem' hmem
    rcases List.mem_append.mp hmem with hmem | hmem
    · exact h elem' hmem
    · rw [List.mem_singleton.mp hmem]
      exact ⟨hskip.1, hskip.2, hdots, hslash⟩

theorem forall_pushAll {elems rest : List (List UInt8)} (h : ∀ elem ∈ elems, IsElem elem)
    (hslash : ∀ elem ∈ rest, 47 ∉ elem) : ∀ elem ∈ pushAll elems rest, IsElem elem := by
  induction rest generalizing elems with
  | nil => exact h
  | cons elem rest ih =>
    rw [pushAll_cons]
    exact ih (forall_pushElem h (hslash elem List.mem_cons_self))
      fun elem' hmem ↦ hslash elem' (List.mem_cons_of_mem _ hmem)

theorem normal_normalElems {elems : List (List UInt8)} (h : ∀ elem ∈ elems, 47 ∉ elem) :
    Normal (normalElems elems) := by
  have hstack : ∀ elem ∈ pushAll [] elems.dropLast, IsElem elem :=
    forall_pushAll (fun _ h ↦ absurd h List.not_mem_nil)
      fun elem hmem ↦ h elem (List.mem_of_mem_dropLast hmem)
  rw [normalElems]
  -- A last `.` leaves an empty element, a last `..` takes one away.
  split_ifs with hdot hdots
  · exact normal_concat hstack isLast_nil
  · exact normal_of_forall fun elem hmem ↦ hstack elem (List.mem_of_mem_dropLast hmem)
  · refine normal_concat hstack ⟨hdot, hdots, ?_⟩
    rcases List.eq_nil_or_concat' elems with rfl | ⟨init, last, rfl⟩
    · exact List.not_mem_nil
    · rw [List.getLastD_concat]
      exact h last (by simp)

/-! ## Reading it back -/

theorem pushAll_of_forall {elems rest : List (List UInt8)} (h : ∀ elem ∈ rest, IsElem elem) :
    pushAll elems rest = elems ++ rest := by
  induction rest generalizing elems with
  | nil => rw [pushAll, List.append_nil]
  | cons elem rest ih =>
    have helem := h elem List.mem_cons_self
    rw [pushAll_cons, pushElem, if_neg (not_or.mpr ⟨helem.ne_nil, helem.ne_dot⟩),
      if_neg helem.ne_dots, ih fun elem' hmem ↦ h elem' (List.mem_cons_of_mem _ hmem),
      List.append_assoc]
    rfl

theorem normalElems_of_normal {elems : List (List UInt8)} (h : Normal elems) (hne : elems ≠ []) :
    normalElems elems = elems := by
  obtain ⟨init, last, rfl⟩ := (List.eq_nil_or_concat' elems).resolve_left hne
  have hstack := h.stack
  have hlast := h.last last (by rw [List.getLast?_concat]; rfl)
  rw [List.dropLast_concat] at hstack
  rw [normalElems, List.getLastD_concat, List.dropLast_concat, pushAll_of_forall hstack,
    if_neg hlast.ne_dot, if_neg hlast.ne_dots]
  rfl

theorem normalElems_cons_nil {elems : List (List UInt8)} (hne : elems ≠ []) :
    normalElems ([] :: elems) = normalElems elems := by
  obtain ⟨init, last, rfl⟩ := (List.eq_nil_or_concat' elems).resolve_left hne
  rw [normalElems, normalElems, ← List.cons_append, List.dropLast_concat, List.dropLast_concat,
    List.getLastD_concat, List.getLastD_concat, pushAll_cons]
  rfl

theorem Normal.isLast {elems : List (List UInt8)} (h : Normal elems) :
    ∀ elem ∈ elems, IsLast elem := by
  intro elem hmem
  rcases List.eq_nil_or_concat' elems with rfl | ⟨init, last, rfl⟩
  · exact absurd hmem List.not_mem_nil
  · rcases List.mem_append.mp hmem with hmem | hmem
    · exact (h.stack elem (by rwa [List.dropLast_concat])).isLast
    · exact h.last elem (by rw [List.getLast?_concat, List.mem_singleton.mp hmem]; rfl)

/-! ## Segments -/

/-- The segments of the text for elements: no element is an empty segment. -/
def segments (elems : List (List UInt8)) : List (List UInt8) :=
  if elems = [] then [[]] else elems

theorem normal_segments {elems : List (List UInt8)} (h : Normal elems) :
    Normal (segments elems) := by
  rw [segments]
  split_ifs
  · exact normal_concat (fun _ h ↦ absurd h List.not_mem_nil) isLast_nil
  · exact h

theorem segments_ne_nil (elems : List (List UInt8)) : segments elems ≠ [] := by
  rw [segments]
  split_ifs with hnil
  · exact List.cons_ne_nil _ _
  · exact hnil

theorem intercalate_segments (elems : List (List UInt8)) :
    [47].intercalate (segments elems) = [47].intercalate elems := by
  rw [segments]
  split_ifs with hnil
  · rw [hnil]
    rfl
  · rfl

theorem splitOn_join {elems : List (List UInt8)} (h : Normal elems) :
    ([47].intercalate elems).splitOn 47 = segments elems := by
  rw [← intercalate_segments]
  exact List.splitOn_intercalate 47 (fun elem hmem ↦ ((normal_segments h).isLast elem hmem).slash)
    (segments_ne_nil elems)

theorem splitOn_slash (s : List UInt8) : (47 :: s).splitOn 47 = [] :: s.splitOn 47 := by
  rw [List.splitOn_cons_eq_if_modifyHead, if_pos (beq_self_eq_true (47 : UInt8))]

theorem head?_join {elems : List (List UInt8)} (h : Normal elems) :
    ([47].intercalate elems).head? ≠ some 47 := by
  have hhead {elem : List UInt8} (hslash : 47 ∉ elem) : elem.head? ≠ some 47 := fun hhead ↦
    hslash (List.mem_of_mem_head? hhead)
  -- Only an element that is not the last one is sure to have a character.
  rcases elems with _ | ⟨elem, _ | ⟨elem', elems⟩⟩
  · exact fun h ↦ by simp at h
  · rw [List.intercalate_singleton]
    exact hhead (h.isLast elem List.mem_cons_self).slash
  · have helem := h.stack elem (by rw [List.dropLast_cons_of_ne_nil (List.cons_ne_nil _ _)]; simp)
    rw [List.intercalate_cons_cons, List.append_assoc, List.head?_append_of_ne_nil _ helem.ne_nil]
    exact hhead helem.slash

/-- A path without dot segments and without empty segments, except one at the front and one at the
end; it is rooted when `p` is, and is not changed again. -/
structure Clean (p out : List UInt8) : Prop where
  leading : out.head? = some 47 ↔ p.head? = some 47
  noDots : ∀ seg ∈ out.splitOn 47, seg ≠ ofString "." ∧ seg ≠ ofString ".."
  noEmpty : ∀ seg ∈ (out.splitOn 47).tail.dropLast, seg ≠ []
  again : ∀ rounds, out.length < rounds → normalizePathIn rounds out = some out

theorem Clean.eq {p out : List UInt8} (h : Clean p out) : normalizePath out = out :=
  Option.some.inj
    ((normalizePathIn_eq (Nat.lt_succ_self _)).symm.trans (h.again _ (Nat.lt_succ_self _)))

theorem clean_relative {p : List UInt8} {elems : List (List UInt8)} (h : Normal elems)
    (hp : p.head? ≠ some 47) : Clean p ([47].intercalate elems) := by
  have hsplit := splitOn_join h
  have hnormal := normal_segments h
  have hhead := head?_join h
  refine ⟨iff_of_false hhead hp, fun seg hseg ↦ ?_, fun seg hseg ↦ ?_, fun rounds hrounds ↦ ?_⟩
  · rw [hsplit] at hseg
    exact ⟨(hnormal.isLast seg hseg).ne_dot, (hnormal.isLast seg hseg).ne_dots⟩
  · rw [hsplit, ← List.tail_dropLast] at hseg
    exact (hnormal.stack seg (List.mem_of_mem_tail hseg)).ne_nil
  · rw [normalizePathIn_eq hrounds, normalizePath]
    split_ifs with hnil
    · rfl
    · rw [hsplit, normalElems_of_normal hnormal (segments_ne_nil elems), intercalate_segments]
      rfl

theorem clean_rooted {p : List UInt8} {elems : List (List UInt8)} (h : Normal elems)
    (hp : p.head? = some 47) : Clean p (47 :: [47].intercalate elems) := by
  have hsplit := (splitOn_slash ([47].intercalate elems)).trans (congrArg _ (splitOn_join h))
  have hnormal := normal_segments h
  refine ⟨iff_of_true rfl hp, fun seg hseg ↦ ?_, fun seg hseg ↦ ?_, fun rounds hrounds ↦ ?_⟩
  · rw [hsplit] at hseg
    rcases List.mem_cons.mp hseg with rfl | hseg
    · exact ⟨isLast_nil.ne_dot, isLast_nil.ne_dots⟩
    · exact ⟨(hnormal.isLast seg hseg).ne_dot, (hnormal.isLast seg hseg).ne_dots⟩
  · rw [hsplit, List.tail_cons] at hseg
    exact (hnormal.stack seg hseg).ne_nil
  · rw [normalizePathIn_eq hrounds, normalizePath, if_neg (List.cons_ne_nil _ _), hsplit,
      normalElems_cons_nil (segments_ne_nil elems),
      normalElems_of_normal hnormal (segments_ne_nil elems), intercalate_segments]
    rfl

theorem clean_normalizePath (p : List UInt8) : Clean p (normalizePath p) := by
  have hnormal := normal_normalElems (Inet.not_mem_of_mem_splitOn 47 (s := p))
  rw [normalizePath]
  split_ifs with hnil hrooted
  · rw [hnil]
    exact clean_relative (normal_of_forall fun _ h ↦ absurd h List.not_mem_nil) nofun
  · exact clean_rooted hnormal hrooted
  · exact clean_relative hnormal hrooted

theorem single_normalizePath (p : List UInt8) : (normalizePath p).take 2 ≠ [47, 47] := by
  intro htake
  have hslashes : [47, 47] ++ (normalizePath p).drop 2 = normalizePath p :=
    htake ▸ List.take_append_drop 2 (normalizePath p)
  have hempty := (clean_normalizePath p).noEmpty
  rw [← hslashes, List.cons_append, List.cons_append, splitOn_slash, splitOn_slash, List.tail_cons,
    List.dropLast_cons_of_ne_nil (List.splitOn_ne_nil 47 _)] at hempty
  exact hempty [] List.mem_cons_self rfl

/-- **`normalize_path`** ends, and no segment of what it returns leads to the directory itself or to
the one above. -/
theorem normalizePath_clean (p : List UInt8) :
    ∃ out, (∀ rounds, p.length < rounds → normalizePathIn rounds p = some out) ∧ Clean p out :=
  ⟨normalizePath p, fun _ h ↦ normalizePathIn_eq h, clean_normalizePath p⟩

end Knet.Http.HttpUrl
