import Knet.Utils.Url

/-!
# The grammar of urls

The comment in front of `KNetUrl` gives a grammar,

```text
uri    = protocol "://" host [":" port] ["?" param *("&" param)]
param  = key "=" value
```

and this file compares `parse` with it. A text of the grammar is a `Uri`. Outside the grammar
`parse` gives up only when there is no `://`; whatever else is wrong is read somehow, or `std::stoi`
throws. Inside the grammar the flag of the loop goes astray at a value with `=` in it: every `=`
turns the flag, so that pieces of the value are taken for the key, and after an odd number of them
the next parameter is read the wrong way round (`asRead`).
-/

namespace Knet.Utils

/-- The text of a parameter. -/
def paramText (kv : Param) : List UInt8 := kv.1 ++ 61 :: kv.2

/-- The text of the parameters, with a trailing `&` or without. -/
def queryText : List Param → Bool → List UInt8
  | [], _ => []
  | kv :: ps, trailing =>
    paramText kv ++
      if ps = [] then if trailing then [38] else []
      else 38 :: queryText ps trailing

/-- A text of the grammar, by its parts. -/
structure Uri where
  protocol : List UInt8
  host : List UInt8
  /-- The digits of the port, if there is one. -/
  port : Option (List UInt8)
  /-- The parameters. There is no question mark when there are none. -/
  params : List Param
  /-- An `&` stands at the end. -/
  trailing : Bool
  protocol_ok : ¬schemeEnd <:+: protocol
  host_ok : 58 ∉ host ∧ 63 ∉ host
  port_ok : ∀ p ∈ port, p ≠ [] ∧ (∀ c ∈ p, Text.isDigit c = true) ∧ Text.value p ≤ 65535
  params_ok : ∀ kv ∈ params, kv.1 ≠ [] ∧ (61 ∉ kv.1 ∧ 38 ∉ kv.1) ∧ 38 ∉ kv.2
  trailing_ok : trailing = true → params ≠ []

namespace Uri

variable (u : Uri)

/-- The host and the port. -/
def hostInfo : List UInt8 := u.host ++ u.port.elim [] (58 :: ·)

/-- The text. -/
def text : List UInt8 :=
  (u.protocol ++ (schemeEnd ++ u.hostInfo))
    ++ if u.params = [] then [] else 63 :: queryText u.params u.trailing

/-- What the grammar says about the fields. -/
def url : KNetUrl where
  protocol := u.protocol
  host := u.host
  port := u.port.elim 0 fun p ↦ UInt16.ofNat (Text.value p)
  params := assigned ∅ u.params

end Uri

/-- **`parse` does what the grammar says**: it returns true with the fields of the grammar on a text
of the grammar, and false on every other. -/
def Conforms (s : List UInt8) : Prop :=
  (∀ u : Uri, u.text = s → Returns s (.returned true u.url))
    ∧ ((∀ u : Uri, u.text ≠ s) → ∃ url, Returns s (.returned false url))

/-! ## How the loop reads parameters -/

/-- The characters of a text that are taken for the key, and those that are taken for the value. -/
def split : Bool → List UInt8 → List UInt8 × List UInt8
  | _, [] => ([], [])
  | isKey, c :: t =>
    if c = 61 then split (!isKey) t
    else if isKey then (c :: (split isKey t).1, (split isKey t).2)
    else ((split isKey t).1, c :: (split isKey t).2)

/-- The flag behind a text. -/
def turned (isKey : Bool) (t : List UInt8) : Bool :=
  t.foldl (fun isKey c ↦ if c = 61 then !isKey else isKey) isKey

/-- The parameters as the loop reads them: the flag turns at every `=` and every `&`, and a last one
without `&` is dropped when no key is left of it. -/
def asRead : Bool → List Param → Bool → List Param
  | _, [], _ => []
  | isKey, kv :: ps, trailing =>
    let r := split isKey (paramText kv)
    if ps = [] then if trailing = true ∨ r.1 ≠ [] then [⟨r.1, r.2⟩] else []
    else ⟨r.1, r.2⟩ :: asRead (!turned isKey (paramText kv)) ps trailing

/-- The text can be read: it is not too long for the index of the loop, and no value has an `=` in
it, or the parameters as read make the same map all the same. -/
def Uri.Readable (u : Uri) : Prop :=
  InRange u.text (decide (u.params ≠ []))
    ∧ ((∀ kv ∈ u.params, 61 ∉ kv.2)
      ∨ assigned ∅ (asRead true u.params u.trailing) = assigned ∅ u.params)

theorem foldl_step_eq_split {t : List UInt8} (hamp : 38 ∉ t) (st : Scan) :
    t.foldl Scan.step st
      = { st with
          isKey := turned st.isKey t
          key := st.key ++ (split st.isKey t).1
          value := st.value ++ (split st.isKey t).2 } := by
  induction t generalizing st with
  | nil => simp [turned, split]
  | cons c t ih =>
    obtain ⟨hc, ht⟩ := List.ne_and_not_mem_of_not_mem_cons hamp
    rw [List.foldl_cons, ih ht, Scan.step]
    by_cases heq : c = 61
    · simp [heq, split, turned]
    · rw [if_neg heq, if_neg hc.symm]
      cases st.isKey <;> simp [heq, split, turned]

/-- **The loop reads the parameters as `asRead` says.** -/
theorem finish_queryText {ps : List Param} (hps : ∀ kv ∈ ps, 38 ∉ paramText kv) (trailing : Bool)
    (isKey : Bool) (m : Params) :
    ((queryText ps trailing).foldl Scan.step { isKey := isKey, params := m }).finish
      = assigned m (asRead isKey ps trailing) := by
  induction ps generalizing isKey m with
  | nil => simp [queryText, asRead, Scan.finish, assigned]
  | cons kv ps ih =>
    obtain ⟨hkv, hps⟩ := List.forall_mem_cons.mp hps
    rw [queryText, asRead, List.foldl_append, foldl_step_eq_split hkv]
    simp only [List.nil_append]
    by_cases hnil : ps = []
    · rw [if_pos hnil, if_pos hnil]
      cases trailing with
      | true =>
        simp only [if_true, true_or, List.foldl_cons, List.foldl_nil, step_ampersand]
        rfl
      | false =>
        simp only [Bool.false_eq_true, if_false, false_or, List.foldl_nil, Scan.finish]
        split_ifs <;> rfl
    · rw [if_neg hnil, if_neg hnil, List.foldl_cons, step_ampersand, ih hps]
      rfl

theorem ampersand_not_mem_paramText {kv : Param} (hkey : 38 ∉ kv.1) (hvalue : 38 ∉ kv.2) :
    38 ∉ paramText kv := by
  rw [paramText, List.mem_append, List.mem_cons]
  rintro (h | h | h)
  · exact hkey h
  · exact absurd h (by decide)
  · exact hvalue h

theorem split_paramText {kv : Param} (hkey : 61 ∉ kv.1 ∧ 38 ∉ kv.1) (hvalue : 61 ∉ kv.2)
    (hamp : 38 ∉ kv.2) :
    split true (paramText kv) = (kv.1, kv.2) ∧ turned true (paramText kv) = false := by
  have hparam : 38 ∉ paramText kv := ampersand_not_mem_paramText hkey.2 hamp
  have hread : (paramText kv).foldl Scan.step {}
      = { isKey := false, key := kv.1, value := kv.2 } := by
    rw [paramText, List.foldl_append, foldl_step_of_not_mem hkey.1 hkey.2, List.foldl_cons]
    simp only [if_true, step_equals, List.nil_append]
    rw [foldl_step_of_not_mem hvalue hamp]
    rfl
  rw [foldl_step_eq_split hparam] at hread
  obtain ⟨hturned, hfst, hsnd, -⟩ := Scan.mk.inj hread
  exact ⟨Prod.ext hfst hsnd, hturned⟩

theorem asRead_of_not_mem {ps : List Param}
    (hps : ∀ kv ∈ ps, kv.1 ≠ [] ∧ (61 ∉ kv.1 ∧ 38 ∉ kv.1) ∧ 38 ∉ kv.2)
    (hvalues : ∀ kv ∈ ps, 61 ∉ kv.2) (trailing : Bool) : asRead true ps trailing = ps := by
  induction ps with
  | nil => rfl
  | cons kv ps ih =>
    obtain ⟨⟨hne, hkey, hamp⟩, hps⟩ := List.forall_mem_cons.mp hps
    obtain ⟨hvalue, hvalues⟩ := List.forall_mem_cons.mp hvalues
    obtain ⟨hsplit, hturned⟩ := split_paramText hkey hvalue hamp
    rw [asRead, hsplit, hturned]
    dsimp only
    split_ifs with hnil hkept
    · rw [hnil]
    · exact absurd (.inr hne) hkept
    · exact congrArg (kv :: ·) (ih hps hvalues)

/-! ## Texts of the grammar -/

namespace Uri

variable (u : Uri)

theorem hostPort_hostInfo : hostPort u.hostInfo = some (u.url.host, u.url.port) := by
  rw [hostInfo, url]
  cases hport : u.port with
  | none =>
    rw [Option.elim_none, List.append_nil]
    exact hostPort_of_not_mem u.host_ok.1
  | some p =>
    obtain ⟨hne, hdigits, hle⟩ := u.port_ok p hport
    exact hostPort_of_port u.host_ok.1 hne hdigits (by omega)

theorem not_mem_hostInfo : 63 ∉ u.hostInfo := by
  rw [hostInfo, List.mem_append, not_or]
  refine ⟨u.host_ok.2, ?_⟩
  cases hport : u.port with
  | none => exact List.not_mem_nil
  | some p =>
    obtain ⟨-, hdigits, -⟩ := u.port_ok p hport
    rw [Option.elim_some, List.mem_cons, not_or]
    exact ⟨by decide, not_isDigit_of_mem hdigits (by decide)⟩

/-- The text, cut as `parse` cuts it. -/
def cut : Cut where
  protocol := u.protocol
  hostInfo := u.hostInfo
  rest := if u.params = [] then [] else 63 :: queryText u.params u.trailing
  protocol_ok := u.protocol_ok
  hostInfo_ok := u.not_mem_hostInfo
  rest_ok := by
    split_ifs
    · exact .inl rfl
    · exact .inr ⟨_, rfl⟩

theorem text_cut : u.cut.text = u.text := rfl

theorem not_mem_paramText : ∀ kv ∈ u.params, 38 ∉ paramText kv := by
  intro kv hkv
  obtain ⟨-, hkey, hamp⟩ := u.params_ok kv hkv
  exact ampersand_not_mem_paramText hkey.2 hamp

/-- The parameters as read make the map that the grammar says. -/
def SameMap : Prop := assigned ∅ (asRead true u.params u.trailing) = assigned ∅ u.params

theorem sameMap_of_not_mem (h : ∀ kv ∈ u.params, 61 ∉ kv.2) : u.SameMap := by
  rw [SameMap, asRead_of_not_mem u.params_ok h]

theorem readable_iff :
    u.Readable ↔ InRange u.text (decide (u.params ≠ [])) ∧ u.SameMap :=
  and_congr_right fun _ ↦ ⟨fun h ↦ h.elim u.sameMap_of_not_mem id, .inr⟩

/-- **A text of the grammar is read as the grammar says exactly when it is readable.** -/
theorem returns_iff_readable : Returns u.text (.returned true u.url) ↔ u.Readable := by
  have hrest : u.cut.rest = [] ↔ u.params = [] := by
    simp [cut]
  have hnone : u.cut.rest = [] → u.url.params = ∅ := by
    intro hnil
    rw [url, hrest.mp hnil]
    rfl
  have hread : (∀ query, u.cut.rest = 63 :: query →
      (query.foldl Scan.step {}).finish = u.url.params) ↔ u.SameMap := by
    by_cases hnil : u.params = []
    · have hsame : u.SameMap := u.sameMap_of_not_mem (by simp [hnil])
      simp [hrest.mpr hnil, hsame]
    · have hquery : u.cut.rest = 63 :: queryText u.params u.trailing := if_neg hnil
      rw [hquery]
      simp only [List.cons.injEq, true_and, forall_eq']
      rw [finish_queryText u.not_mem_paramText]
      rfl
  have hiff := Cut.returns_iff (x := u.cut) u.hostPort_hostInfo hnone
  rw [hread, text_cut] at hiff
  simp only [ne_eq, hrest] at hiff
  rw [readable_iff]
  exact hiff

end Uri

/-- `parse` returns false exactly when there is no `://`. -/
theorem returns_false_iff (s : List UInt8) :
    (∃ url, Returns s (.returned false url)) ↔ ¬schemeEnd <:+: s := by
  rw [← Text.find_eq_none_iff]
  constructor
  · rintro ⟨url, fuel, h⟩
    rw [parse] at h
    split at h
    · assumption
    · dsimp only at h
      split at h
      · exact absurd (Option.some.inj h) (by simp)
      · obtain ⟨st, -, hst⟩ := Option.map_eq_some_iff.mp h
        exact absurd (Parsed.returned.inj hst).1 (by decide)
  · intro h
    refine ⟨{}, 0, ?_⟩
    rw [parse, h]

/-- **`parse` and the grammar.** On every text, `parse` does what the grammar says exactly when the
text is readable, if it is one of the grammar, and has no `://` in it, if it is not. -/
theorem conforms_iff (s : List UInt8) :
    Conforms s ↔ (∀ u : Uri, u.text = s → u.Readable)
      ∧ ((∀ u : Uri, u.text ≠ s) → ¬schemeEnd <:+: s) := by
  rw [Conforms, returns_false_iff]
  refine and_congr_left fun _ ↦ forall_congr' fun u ↦ ?_
  constructor
  · rintro h rfl
    exact u.returns_iff_readable.mp (h rfl)
  · rintro h rfl
    exact u.returns_iff_readable.mpr (h rfl)

/-- `t://h?k=a=b`: the value is `a=b`, and the loop makes it the parameter `kb=a`. -/
theorem equals_in_value_misread : ¬Conforms (Bytes.ofString "t://h?k=a=b") := by
  intro h
  let u : Uri :=
    { protocol := [116], host := [104], port := none, params := [⟨[107], [97, 61, 98]⟩],
      trailing := false, protocol_ok := by decide, host_ok := by decide, port_ok := by simp,
      params_ok := by decide, trailing_ok := by decide }
  have hreadable := u.returns_iff_readable.mp (h.1 u (by decide))
  have hlookup := congrArg (Finmap.lookup [107]) (u.readable_iff.mp hreadable).2
  exact absurd hlookup (by decide)

end Knet.Utils
