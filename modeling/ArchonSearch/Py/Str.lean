import Mathlib.Data.List.DropRight

/-!
# Python strings, as far as the parsers need them

The parsers of the server cut strings with three library calls: `str.isspace`,
`str.strip` and `re.split` on a one-character class. This file gives them the
meaning the Python documentation does, on `String`, and the two facts every use
of them rests on:

* `strip_eq_empty_iff` – a string strips to nothing exactly when
  it holds nothing but white space;
* `forall_mem_reSplit` – what holds of every character of every
  piece is what holds of every character that is not a separator.

A string is read through its list of characters; a lone surrogate, which a
Python string may hold and a Lean one may not, is outside the model.
-/

namespace ArchonSearch.Py

open List

/-! ### White space -/

/-- White space in the sense of `str.isspace`, the class `str.strip` removes. -/
def isSpace (c : Char) : Bool :=
  let n := c.toNat
  (0x09 ≤ n && n ≤ 0x0d) || (0x1c ≤ n && n ≤ 0x20) || n == 0x85 || n == 0xa0 || n == 0x1680 ||
    (0x2000 ≤ n && n ≤ 0x200a) || n == 0x2028 || n == 0x2029 || n == 0x202f || n == 0x205f ||
    n == 0x3000

/-- `str.strip` on the characters of a string. -/
def stripChars (s : List Char) : List Char := (s.dropWhile isSpace).rdropWhile isSpace

theorem stripChars_eq_nil_iff {s : List Char} :
    stripChars s = [] ↔ ∀ c ∈ s, isSpace c = true := by
  rw [stripChars, rdropWhile_eq_nil_iff]
  constructor
  · intro h c hc
    rw [← takeWhile_append_dropWhile (p := isSpace) (l := s)] at hc
    rcases mem_append.mp hc with hc | hc
    · exact mem_takeWhile_imp hc
    · exact h c hc
  · exact fun h c hc => h c ((dropWhile_suffix isSpace).subset hc)

/-- `str.strip`: the string without the white space at its two ends. -/
def strip (s : String) : String := String.ofList (stripChars s.toList)

@[simp] theorem toList_strip (s : String) : (strip s).toList = stripChars s.toList :=
  String.toList_ofList

variable {s : String}

/-- **A string strips to nothing exactly when it is blank.** -/
theorem strip_eq_empty_iff : strip s = "" ↔ ∀ c ∈ s.toList, isSpace c = true := by
  rw [← stripChars_eq_nil_iff, ← toList_strip, String.toList_eq_nil_iff]

/-- Stripping removes white space and nothing else: what holds of white space
holds of the whole string as soon as it holds of the stripped one. -/
theorem forall_mem_strip {P : Char → Prop} (hP : ∀ c, isSpace c = true → P c) :
    (∀ c ∈ (strip s).toList, P c) ↔ ∀ c ∈ s.toList, P c := by
  rw [toList_strip]
  constructor
  · intro h c hc
    rw [← takeWhile_append_dropWhile (p := isSpace) (l := s.toList)] at hc
    rcases mem_append.mp hc with hc | hc
    · exact hP c (mem_takeWhile_imp hc)
    · rw [← rdropWhile_append_rtakeWhile (p := isSpace) (l := s.toList.dropWhile isSpace)] at hc
      rcases mem_append.mp hc with hc | hc
      · exact h c hc
      · exact hP c (mem_rtakeWhile_imp hc)
  · exact fun h c hc => h c ((dropWhile_suffix isSpace).subset
      (( rdropWhile_prefix isSpace _).subset hc))

/-! ### Splitting on a class of characters -/

/-- `re.split` on a one-character class: the pieces between the separators, the
empty ones kept. -/
def reSplit (p : Char → Bool) (s : String) : List String :=
  (s.toList.splitOnP p).map String.ofList

variable {p : Char → Bool} {Q : Char → Prop}

theorem forall_mem_splitOnP {s : List Char} :
    (∀ t ∈ s.splitOnP p, ∀ c ∈ t, Q c) ↔ ∀ c ∈ s, p c = true ∨ Q c := by
  induction s with
  | nil => simp
  | cons a s ih =>
    rw [splitOnP_cons_eq_if_modifyHead]
    by_cases hp : p a = true
    · rw [if_pos hp]
      simp [hp, ih]
    · rw [if_neg hp]
      obtain ⟨t, ts, hts⟩ := exists_cons_of_ne_nil (splitOnP_ne_nil p s)
      rw [hts] at ih ⊢
      simp only [modifyHead_cons, forall_mem_cons] at ih ⊢
      rw [and_assoc, ih]
      simp [hp]

/-- **The characters of the pieces are the ones that are not separators.** -/
theorem forall_mem_reSplit :
    (∀ t ∈ reSplit p s, ∀ c ∈ t.toList, Q c) ↔ ∀ c ∈ s.toList, p c = true ∨ Q c := by
  rw [← forall_mem_splitOnP]
  simp [reSplit]

/-- What splits into one piece has no separator, and is that piece. -/
theorem splitOnP_eq_singleton_iff {cs piece : List Char} :
    cs.splitOnP p = [piece] ↔ cs = piece ∧ ∀ c ∈ cs, p c = false := by
  constructor
  · intro h
    have hfr : ∀ c ∈ cs, p c = false := by
      intro c hc
      by_contra hp
      obtain ⟨before, after, rfl⟩ := append_of_mem hc
      rw [splitOnP_append_cons _ _ (by simpa using hp)] at h
      have hlen := congrArg List.length h
      have hbef := length_pos_of_ne_nil (splitOnP_ne_nil p before)
      have haft := length_pos_of_ne_nil (splitOnP_ne_nil p after)
      rw [length_append, length_singleton] at hlen
      omega
    rw [splitOnP_eq_singleton hfr] at h
    exact ⟨singleton_inj.mp h, hfr⟩
  · rintro ⟨rfl, hfr⟩
    exact splitOnP_eq_singleton hfr

/-- Between two pieces there is a separator. -/
theorem exists_of_splitOnP_eq_append {cs : List Char} {l r : List (List Char)} (hl : l ≠ [])
    (hr : r ≠ []) (h : cs.splitOnP p = l ++ r) :
    ∃ a c b, cs = a ++ c :: b ∧ p c = true ∧ a.splitOnP p = l ∧ b.splitOnP p = r := by
  induction cs generalizing l with
  | nil =>
    have hlen := congrArg List.length h
    have hl := length_pos_of_ne_nil hl
    have hr := length_pos_of_ne_nil hr
    rw [splitOnP_nil, length_singleton, length_append] at hlen
    omega
  | cons d cs ih =>
    obtain ⟨w, l, rfl⟩ := exists_cons_of_ne_nil hl
    rw [splitOnP_cons_eq_if_modifyHead, cons_append] at h
    split at h
    · next hd =>
      obtain ⟨rfl, hcs⟩ := cons.inj h
      rcases eq_or_ne l [] with rfl | hl
      · exact ⟨[], d, cs, rfl, hd, splitOnP_nil, hcs⟩
      · obtain ⟨a, c, b, rfl, hc, ha, hb⟩ := ih hl hcs
        refine ⟨d :: a, c, b, rfl, hc, ?_, hb⟩
        rw [splitOnP_cons_eq_if_modifyHead, if_pos hd, ha]
    · next hd =>
      obtain ⟨v, rest, hv⟩ := exists_cons_of_ne_nil (splitOnP_ne_nil p cs)
      rw [hv, modifyHead_cons] at h
      obtain ⟨rfl, rfl⟩ := cons.inj h
      obtain ⟨a, c, b, rfl, hc, ha, hb⟩ := ih (cons_ne_nil v l) hv
      refine ⟨d :: a, c, b, rfl, hc, ?_, hb⟩
      rw [splitOnP_cons_eq_if_modifyHead, if_neg hd, ha, modifyHead_cons]

/-- Three lists that are not empty and make up a list of three. -/
theorem append_eq_three_iff {α : Type} {l m n : List α} {x y z : α} (hl : l ≠ []) (hm : m ≠ [])
    (hn : n ≠ []) : l ++ (m ++ n) = [x, y, z] ↔ l = [x] ∧ m = [y] ∧ n = [z] := by
  constructor
  · intro h
    have hlen := congrArg List.length h
    have hl := length_pos_of_ne_nil hl
    have hm := length_pos_of_ne_nil hm
    have hn := length_pos_of_ne_nil hn
    simp only [length_append, length_cons, length_nil] at hlen
    obtain ⟨a, rfl⟩ := length_eq_one_iff.mp (show l.length = 1 by omega)
    obtain ⟨b, rfl⟩ := length_eq_one_iff.mp (show m.length = 1 by omega)
    simpa using h
  · rintro ⟨rfl, rfl, rfl⟩
    rfl

/-- **Three strings with a separator between split into three pieces exactly when none of them has
the separator in it**, and then into themselves. -/
theorem reSplit_eq_three_iff {sep : Char} {a b c x y z : String}
    (hs : s.toList = a.toList ++ sep :: (b.toList ++ sep :: c.toList)) :
    reSplit (· = sep) s = [x, y, z] ↔
      (a = x ∧ sep ∉ a.toList) ∧ (b = y ∧ sep ∉ b.toList) ∧ (c = z ∧ sep ∉ c.toList) := by
  have hmap : reSplit (· = sep) s = [x, y, z] ↔
      s.toList.splitOnP (· = sep) = [x.toList, y.toList, z.toList] := by
    constructor
    · intro h
      simpa [reSplit] using congrArg (List.map String.toList) h
    · intro h
      simp [reSplit, h]
  have hfr {t : String} : (∀ d ∈ t.toList, decide (d = sep) = false) ↔ sep ∉ t.toList := by
    simp only [decide_eq_false_iff_not]
    exact ⟨fun h hm => h sep hm rfl, fun h d hd hdeq => h (hdeq ▸ hd)⟩
  rw [hmap, hs, splitOnP_append_cons _ _ (by simp), splitOnP_append_cons _ _ (by simp),
    append_eq_three_iff (splitOnP_ne_nil _ _) (splitOnP_ne_nil _ _) (splitOnP_ne_nil _ _)]
  simp only [splitOnP_eq_singleton_iff, String.toList_inj, hfr]

/-! ### Showing a string -/

def hexEscape (width : Nat) (c : Char) : List Char :=
  let digits := Nat.toDigits 16 c.toNat
  List.replicate (width - digits.length) '0' ++ digits

/-- A character in `repr`, between these quotes; `isPrintable` is `str.isprintable`, from the
tables of the interpreter. -/
def reprChar (isPrintable : Char → Bool) (quote c : Char) : List Char :=
  if c = quote ∨ c = '\\' then ['\\', c]
  else if c = '\t' then ['\\', 't']
  else if c = '\n' then ['\\', 'n']
  else if c = '\r' then ['\\', 'r']
  else if isPrintable c then [c]
  else if c.toNat < 0x100 then '\\' :: 'x' :: hexEscape 2 c
  else if c.toNat < 0x10000 then '\\' :: 'u' :: hexEscape 4 c
  else '\\' :: 'U' :: hexEscape 8 c

/-- `repr` of a string. -/
def reprStr (isPrintable : Char → Bool) (s : String) : String :=
  let quote := if s.toList.contains '\'' && !s.toList.contains '"' then '"' else '\''
  String.ofList (quote :: s.toList.flatMap (reprChar isPrintable quote) ++ [quote])

end ArchonSearch.Py
