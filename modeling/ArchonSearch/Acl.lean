import ArchonSearch.Py.Str

/-!
# Parsing a declared ACL

`acl.parse_acl_value` turns the YAML value of an `_acl` key into the ACL of a chunk: `none` is open
to every namespace, `some []` denies every namespace, and a non-empty list names the namespaces let
in. An author who declared anything meant a restriction, so an unusable declaration has to deny
rather than open.

The two halves of that promise are the two halves of `parseAclValue_failClosed`:

* the ACL is open **exactly** for a null and for a string of white space and
  commas – the separator-only string is blank by the parser's own reading, since
  it has no token, and its tests keep it open;
* every name let in is a valid namespace name that the declaration spells out
  (`Declares`), so dropping the unusable entries can only narrow
  what was declared.
-/

namespace ArchonSearch.Acl

open Py List

/-! ### YAML values -/

inductive YamlValue where
  /-- `null`, and an absent key. -/
  | null
  | bool : Bool → YamlValue
  | int : ℤ → YamlValue
  | float : String → YamlValue
  | str : String → YamlValue
  | list : List YamlValue → YamlValue
  | dict : List (YamlValue × YamlValue) → YamlValue
  | other : String → YamlValue

/-- `type(raw).__name__`. -/
def YamlValue.typeName : YamlValue → String
  | .null => "NoneType"
  | .bool _ => "bool"
  | .int _ => "int"
  | .float _ => "float"
  | .str _ => "str"
  | .list _ => "list"
  | .dict _ => "dict"
  | .other name => name

def YamlValue.str? : YamlValue → Option String
  | .str s => some s
  | _ => none

variable {s : String}

theorem YamlValue.str?_eq_some {v : YamlValue} : v.str? = some s ↔ v = .str s := by
  cases v <;> simp [YamlValue.str?]

/-! ### Namespace names -/

/-- The first character of a namespace name, `[a-zA-Z0-9]`. -/
def isNameStart (c : Char) : Bool :=
  ('a' ≤ c && c ≤ 'z') || ('A' ≤ c && c ≤ 'Z') || ('0' ≤ c && c ≤ '9')

/-- A later character of a namespace name, `[a-zA-Z0-9_-]`. -/
def isNameChar (c : Char) : Bool := isNameStart c || c == '_' || c == '-'

/-- `_NAMESPACE_RE.fullmatch`: a start character and at most 63 more. -/
def namespaceRe (name : String) : Bool :=
  match name.toList with
  | [] => false
  | c :: rest => isNameStart c && rest.all isNameChar && rest.length ≤ 63

/-- `is_acl_namespace_valid`: a namespace name that is not the reserved word. -/
def isAclNamespaceValid (name : String) : Bool := namespaceRe name && name != "deny-all"

/-! ### The parser -/

/-- The separators of a scalar ACL, `[,\n]`. -/
def isSeparator (c : Char) : Bool := c == ',' || c == '\n'

def scalarCandidates (raw : String) : List String :=
  ((reSplit isSeparator (strip raw)).filter fun t => strip t != "").map strip

/-- The second half of `parse_acl_value`, shared by scalars and lists: keep the
valid names among the *candidates*, or deny. -/
def resolveCandidates (candidates warnings : List String) (docPath : String) :
    Option (List String) × List String :=
  let denyAllEntries := candidates.filter fun c => c == "deny-all"
  let nonDenyAll := candidates.filter fun c => c != "deny-all"
  let valid := nonDenyAll.filter isAclNamespaceValid
  let invalidCount := nonDenyAll.length - valid.length
  if !valid.isEmpty then
    let warnings := if invalidCount ≠ 0 then
        warnings ++ [s!"_acl in {docPath} has {invalidCount} invalid namespace names (dropped)"]
      else warnings
    -- `deny-all` mixed with valid names is dropped
    let warnings := if !denyAllEntries.isEmpty then
        warnings ++ [s!"_acl in {docPath} contains 'deny-all' mixed with valid namespaces; " ++
          "'deny-all' dropped, using valid namespaces only"]
      else warnings
    (some valid, warnings)
  else if nonDenyAll.isEmpty then
    -- `deny-all` is the sole kind of entry
    (some [], warnings ++ [s!"_acl in {docPath} contains the reserved word 'deny-all' as a " ++
      "namespace name; interpreting as deny-all (acl: [])"])
  else if !denyAllEntries.isEmpty then
    (some [], warnings ++ [s!"_acl in {docPath} contains 'deny-all' mixed with invalid names; " ++
      "ambiguous — chunk denied"])
  else
    (some [], warnings ++ [s!"_acl in {docPath} has {invalidCount} invalid namespace names and " ++
      "no valid one; chunk denied"])

/-- `parse_acl_value`: the ACL a declaration gives, with its warnings. -/
def parseAclValue (raw : YamlValue) (docPath : String) : Option (List String) × List String :=
  match raw with
  | .null => (none, [])
  | .str s =>
    let candidates := scalarCandidates s
    -- a blank scalar: no restriction declared
    if candidates.isEmpty then (none, []) else resolveCandidates candidates [] docPath
  | .list items =>
    if items.length = 0 then (some [], [])
    else
      let candidates := items.filterMap YamlValue.str?
      let nonStrCount := items.length - candidates.length
      if nonStrCount ≠ 0 ∧ candidates.isEmpty then
        (some [], [s!"_acl in {docPath} has only non-string elements ({nonStrCount} dropped); " ++
          "chunk denied"])
      else
        resolveCandidates candidates
          (if nonStrCount ≠ 0 then
            [s!"_acl in {docPath} has {nonStrCount} non-string element(s) (dropped)"]
          else [])
          docPath
  | other =>
    (some [], [s!"_acl in {docPath} has invalid type {other.typeName} (ignored); chunk denied"])

/-! ### What the candidates are -/

/-- A scalar has no candidate exactly when it is made of white space and
commas. -/
theorem scalarCandidates_eq_nil_iff :
    scalarCandidates s = [] ↔ ∀ c ∈ s.toList, isSpace c = true ∨ c = ',' := by
  have hbl : scalarCandidates s = [] ↔
      ∀ t ∈ reSplit isSeparator (strip s), ∀ c ∈ t.toList, isSpace c = true := by
    simp [scalarCandidates, filter_eq_nil_iff, strip_eq_empty_iff]
  rw [hbl, forall_mem_reSplit]
  have hchar : ∀ c : Char, (isSeparator c = true ∨ isSpace c = true) ↔
      (isSpace c = true ∨ c = ',') := by
    intro c
    constructor
    · rintro (h | h)
      · rcases (by simpa [isSeparator] using h : c = ',' ∨ c = '\n') with rfl | rfl
        · exact Or.inr rfl
        · exact Or.inl (by decide)
      · exact Or.inl h
    · rintro (h | rfl)
      · exact Or.inr h
      · exact Or.inl (by decide)
  simp only [hchar]
  exact forall_mem_strip fun c hc => Or.inl hc

/-- **The second half of the parser keeps the valid candidates**: where none is
left the list it returns is the empty one, which denies. -/
theorem resolveCandidates_fst (candidates warnings : List String) (docPath : String) :
    (resolveCandidates candidates warnings docPath).1 =
      some ((candidates.filter fun c => c != "deny-all").filter isAclNamespaceValid) := by
  unfold resolveCandidates
  by_cases hv : ((candidates.filter fun c => c != "deny-all").filter isAclNamespaceValid) = []
  · rw [if_neg (by simp [hv]), hv]
    split_ifs <;> rfl
  · rw [if_pos (by simpa using hv)]

/-- The second half of the parser lets in valid candidates only. -/
theorem mem_of_resolveCandidates {candidates warnings names : List String} {docPath name : String}
    (h : (resolveCandidates candidates warnings docPath).1 = some names) (hnm : name ∈ names) :
    name ∈ candidates ∧ isAclNamespaceValid name = true := by
  rw [resolveCandidates_fst] at h
  cases h
  obtain ⟨hm, hval⟩ := mem_filter.mp hnm
  exact ⟨(mem_filter.mp hm).1, hval⟩

/-! ### The promise of the parser -/

/-- **What a declaration spells out**: the string elements of a list, the trimmed
tokens of a scalar, and nothing for any other value. -/
def Declares : YamlValue → String → Prop
  | .list items, name => .str name ∈ items
  | .str s, name => ∃ t ∈ reSplit isSeparator (strip s), name = strip t
  | _, _ => False

/-- **What is open**: a null, and a string of white space and commas. -/
theorem parseAclValue_eq_none_iff {raw : YamlValue} {docPath : String} :
    (parseAclValue raw docPath).1 = none ↔
      raw = .null ∨ ∃ s, raw = .str s ∧ ∀ c ∈ s.toList, isSpace c = true ∨ c = ',' := by
  cases raw with
  | null => simp [parseAclValue]
  | str s =>
    simp only [parseAclValue]
    by_cases hc : scalarCandidates s = []
    · rw [if_pos (List.isEmpty_iff.mpr hc)]
      simpa using scalarCandidates_eq_nil_iff.mp hc
    · rw [if_neg (mt List.isEmpty_iff.mp hc)]
      refine iff_of_false (by simp [resolveCandidates_fst]) ?_
      rintro (h | ⟨s', h, hbl⟩)
      · cases h
      · cases h
        exact hc (scalarCandidates_eq_nil_iff.mpr hbl)
  | list items =>
    simp only [parseAclValue]
    split_ifs with hemp hstr
    · simp
    · simp
    all_goals exact iff_of_false (by simp [resolveCandidates_fst]) (by simp)
  | bool b => simp [parseAclValue]
  | int n => simp [parseAclValue]
  | float x => simp [parseAclValue]
  | dict entries => simp [parseAclValue]
  | other name => simp [parseAclValue]

/-- **The parser fails closed.** The ACL is open only for a null and for a string
of white space and commas, and every name it lets in is a valid namespace name,
other than the reserved word, that the declaration spells out. -/
theorem parseAclValue_failClosed (raw : YamlValue) (docPath : String) :
    ((parseAclValue raw docPath).1 = none ↔
      raw = .null ∨ ∃ s, raw = .str s ∧ ∀ c ∈ s.toList, isSpace c = true ∨ c = ',') ∧
    ∀ names, (parseAclValue raw docPath).1 = some names → ∀ name ∈ names,
      namespaceRe name = true ∧ name ≠ "deny-all" ∧ Declares raw name := by
  have hval : ∀ name, isAclNamespaceValid name = true →
      namespaceRe name = true ∧ name ≠ "deny-all" := by
    intro name h
    simpa [isAclNamespaceValid] using h
  refine ⟨parseAclValue_eq_none_iff, ?_⟩
  cases raw with
  | null => simp [parseAclValue]
  | str s =>
    simp only [parseAclValue]
    by_cases hc : scalarCandidates s = []
    · rw [if_pos (List.isEmpty_iff.mpr hc)]
      simp
    · rw [if_neg (mt List.isEmpty_iff.mp hc)]
      intro names h name hnm
      obtain ⟨hcand, hv⟩ := mem_of_resolveCandidates h hnm
      obtain ⟨t, ht, rfl⟩ := mem_map.mp hcand
      exact ⟨(hval _ hv).1, (hval _ hv).2, t, (mem_filter.mp ht).1, rfl⟩
  | list items =>
    simp only [parseAclValue]
    split_ifs with hemp hstr
    · simp
    · simp
    all_goals
      intro names h name hnm
      obtain ⟨hcand, hv⟩ := mem_of_resolveCandidates h hnm
      obtain ⟨v, hm, hstr⟩ := mem_filterMap.mp hcand
      obtain rfl := YamlValue.str?_eq_some.mp hstr
      exact ⟨(hval _ hv).1, (hval _ hv).2, hm⟩
  | bool b => simp [parseAclValue]
  | int n => simp [parseAclValue]
  | float x => simp [parseAclValue]
  | dict entries => simp [parseAclValue]
  | other name => simp [parseAclValue]

/-- A list with one usable name: the rest of the declaration is dropped, and the
name is let in. -/
theorem parseAclValue_failClosed_mixed :
    (parseAclValue (.list [.int 42, .str "tenantA", .null]) "doc.md").1 = some ["tenantA"] ∧
      namespaceRe "tenantA" = true ∧ "tenantA" ≠ "deny-all" ∧
      Declares (.list [.int 42, .str "tenantA", .null]) "tenantA" :=
  ⟨by decide, (parseAclValue_failClosed (.list [.int 42, .str "tenantA", .null]) "doc.md").2
    ["tenantA"] (by decide) "tenantA" (by decide)⟩

/-- **A separator-only string is open**, though it is neither null nor made of
white space alone. -/
theorem parseAclValue_comma_open :
    ¬(∀ c ∈ (",").toList, isSpace c = true) ∧ (parseAclValue (.str ",") "doc.md").1 = none :=
  ⟨fun h => absurd (h ',' (by simp)) (by decide), by decide⟩

end ArchonSearch.Acl
