import ArchonSearch.Descriptions.Write
import ArchonSearch.Lib.Scan

/-!
# Texts that are made storable

A description is one line of at most so many characters. The text of an answer and that of an
archive are collapsed to one line, and cut where they are too long: after the last sentence that
fits, before the last space where there is none, and at the limit where there is no space either
(`cut_trimToLastSentence`).

An import takes what is left, unless it is blank, and so stores nothing that a write refuses
(`normaliseDescriptionText_storable`). What a write takes exception to besides is gone with the
line breaks (`checkDescriptionText_eq_none`).
-/

namespace ArchonSearch.Descriptions

open Lib Py

/-! ### One line -/

inductive Character where
  | scalar : Char → Character
  | surrogate : Fin 0x800 → Character
  deriving DecidableEq

abbrev RawText := List Character

/-- The scalar values that `_DROPPED_CHARACTERS` matches. -/
def isDropped (c : Char) : Bool :=
  let n := c.toNat
  n ≤ 0x08 || (0x0e ≤ n && n ≤ 0x1b) || (0x7f ≤ n && n ≤ 0x84) || (0x86 ≤ n && n ≤ 0x9f)

/-- `_DROPPED_CHARACTERS.sub("", text)`, which leaves no surrogate. -/
def dropCharacters (text : RawText) : List Char :=
  text.filterMap fun
    | .scalar c => if isDropped c then none else some c
    | .surrogate _ => none

/-- `text.split()`. -/
def splitWords (text : List Char) : List (List Char) :=
  (text.splitOnP isSpace).filter fun word => !word.isEmpty

/-- `collapse_to_one_line`. -/
def collapseToOneLine (text : RawText) : String :=
  String.ofList ([' '].intercalate (splitWords (dropCharacters text)))

/-! ### Sentence ends -/

/-- `[.!?…]`. -/
def isTerminator (c : Char) : Bool := c == '.' || c == '!' || c == '?' || c == '…'

/-- `["')\]”’]`. -/
def isCloser (c : Char) : Bool :=
  c == '"' || c == '\'' || c == ')' || c == ']' || c == '”' || c == '’'

/-- `[。！？]`. -/
def isCjkTerminator (c : Char) : Bool := c == '。' || c == '！' || c == '？'

/-- How long the match of `_SENTENCE_END` is that begins here. The closing characters are taken as
far as they go: none of them is white space. -/
def sentenceMatch : List Char → Option ℕ
  | [] => none
  | c :: cs =>
    let closers := cs.takeWhile isCloser
    if isTerminator c && (cs.drop closers.length).head?.all isSpace then some (1 + closers.length)
    else if isCjkTerminator c then some 1
    else none

/-! ### Cutting -/

/-- `text.rfind(" ")`, or none where it is −1. -/
def rfindSpace (text : List Char) : Option ℕ :=
  match (text.rdropWhile (· ≠ ' ')).length with
  | 0 => none
  | n + 1 => some n

/-- `trim_to_last_sentence`. -/
def trimToLastSentence (text : String) : String :=
  let window := text.toList.take (maxDescriptionChars + 1)
  let sentenceEnds := (matchEnds sentenceMatch 0 0 window).filter (· ≤ maxDescriptionChars)
  match sentenceEnds.getLast? with
  | some sentenceEnd => String.ofList (text.toList.take sentenceEnd)
  | none =>
    match rfindSpace window with
    | some (lastSpace + 1) => String.ofList (text.toList.take (lastSpace + 1))
    | _ => String.ofList (text.toList.take maxDescriptionChars)

/-- `normalise_description_text`. -/
def normaliseDescriptionText (text : RawText) : String :=
  let oneLine := collapseToOneLine text
  let oneLine :=
    if maxDescriptionChars < oneLine.length then trimToLastSentence oneLine else oneLine
  if isBlank oneLine then "" else oneLine

/-! ### What is left in one line -/

section OneLine

variable {text : RawText} {c : Char}

/-- **One line of plain text**: it has no control characters, no white space but spaces, and none of
these at its start. -/
structure IsOneLine (text : String) : Prop where
  plain : ∀ c ∈ text.toList, c = ' ' ∨ isSpace c = false ∧ isDropped c = false
  head : text.toList.head? ≠ some ' '

theorem mem_splitWords {cs word : List Char} (h : word ∈ splitWords cs) :
    word ≠ [] ∧ ∀ c ∈ word, c ∈ cs ∧ isSpace c = false := by
  rw [splitWords, List.mem_filter] at h
  obtain ⟨hword, hne⟩ := h
  refine ⟨by simpa using hne, fun c hc => ?_⟩
  have hall : ∀ d ∈ cs, isSpace d = true ∨ (d ∈ cs ∧ isSpace d = false) := by
    intro d hd
    rcases hspace : isSpace d with - | -
    · exact Or.inr ⟨hd, rfl⟩
    · exact Or.inl rfl
  exact forall_mem_splitOnP.mpr hall word hword c hc

theorem mem_dropCharacters (h : c ∈ dropCharacters text) : isDropped c = false := by
  obtain ⟨d, -, hd⟩ := List.mem_filterMap.mp h
  rcases d with d | d
  · simp only [Option.ite_none_left_eq_some, Option.some.injEq] at hd
    obtain ⟨hdr, rfl⟩ := hd
    simpa using hdr
  · simp at hd

theorem mem_intercalate {words : List (List Char)} (h : c ∈ [' '].intercalate words) :
    c = ' ' ∨ ∃ word ∈ words, c ∈ word := by
  induction words with
  | nil => simp at h
  | cons word words ih =>
    by_cases hne : words = []
    · subst hne
      rw [List.intercalate_singleton] at h
      exact Or.inr ⟨word, List.mem_cons_self, h⟩
    · rw [List.intercalate_cons_of_ne_nil hne, List.append_assoc, List.mem_append,
        List.mem_append, List.mem_singleton] at h
      rcases h with h | h | h
      · exact Or.inr ⟨word, List.mem_cons_self, h⟩
      · exact Or.inl h
      · exact (ih h).imp_right fun ⟨w, hw, hc⟩ => ⟨w, List.mem_cons_of_mem _ hw, hc⟩

/-- **A text is collapsed to one line.** -/
theorem isOneLine_collapseToOneLine (text : RawText) : IsOneLine (collapseToOneLine text) := by
  constructor
  · intro c hc
    rw [collapseToOneLine, String.toList_ofList] at hc
    refine (mem_intercalate hc).imp_right fun ⟨word, hword, hm⟩ => ?_
    obtain ⟨-, hchars⟩ := mem_splitWords hword
    exact ⟨(hchars c hm).2, mem_dropCharacters (hchars c hm).1⟩
  · rw [collapseToOneLine, String.toList_ofList]
    rcases hws : splitWords (dropCharacters text) with - | ⟨word, words⟩
    · simp
    obtain ⟨hne, hchars⟩ := mem_splitWords (hws ▸ List.mem_cons_self : word ∈ _)
    obtain ⟨d, ds, rfl⟩ := List.exists_cons_of_ne_nil hne
    have hd : d ≠ ' ' := by
      rintro rfl
      exact absurd (hchars ' ' List.mem_cons_self).2 (by decide)
    have hhead : ([' '].intercalate ((d :: ds) :: words)).head? = some d := by
      rcases words with - | ⟨w, ws⟩
      · rw [List.intercalate_singleton]
        rfl
      · rw [List.intercalate_cons_cons]
        rfl
    simpa using hd

variable {line : String}

theorem IsOneLine.of_prefix {text : String} (h : IsOneLine line)
    (hpre : text.toList <+: line.toList) : IsOneLine text := by
  refine ⟨fun c hc => h.plain c (hpre.subset hc), ?_⟩
  obtain ⟨rest, hrs⟩ := hpre
  rcases htx : text.toList with - | ⟨c, cs⟩
  · simp
  · have hhead := h.head
    rw [← hrs, htx] at hhead
    exact hhead

/-- One line has none of the characters that a description may not have. -/
theorem IsOneLine.isNotPlainText_eq_false (h : IsOneLine line) :
    line.toList.any isNotPlainText = false := by
  rw [List.any_eq_false]
  intro c hc
  rcases h.plain c hc with rfl | ⟨hspace, hd⟩
  · decide
  · simp only [isSpace, isDropped, Bool.or_eq_false_iff, Bool.and_eq_false_iff,
      decide_eq_false_iff_not, beq_eq_false_iff_ne] at hspace hd
    simp only [isNotPlainText, Bool.or_eq_true, Bool.and_eq_true, decide_eq_true_eq, beq_iff_eq]
    omega

/-- **One line that is not blank is storable, if it is not too long.** -/
theorem checkDescriptionText_eq_none (h : IsOneLine line)
    (hlen : line.length ≤ maxDescriptionChars) :
    checkDescriptionText line = none ↔ isBlank line = false := by
  rw [checkDescriptionText, if_neg (by omega), h.isNotPlainText_eq_false]
  simp

end OneLine

/-! ### What the sentence ends are -/

section SentenceEnds

variable {text : List Char} {c : Char} {e n : ℕ}

/-- A sentence ends here: after a terminator and what closes with it, before white space or the end
of the text, or after a CJK terminator. -/
def IsSentenceEnd (text : List Char) (e : ℕ) : Prop :=
  ∃ head c closers tail, text = head ++ c :: (closers ++ tail) ∧
    e = head.length + 1 + closers.length ∧
    ((isTerminator c = true ∧ (∀ d ∈ closers, isCloser d = true) ∧
        ∀ d ∈ tail.head?, isSpace d = true) ∨
      isCjkTerminator c = true ∧ closers = [])

/-- What closes is no white space and ends no sentence. -/
theorem of_isCloser (h : isCloser c = true) :
    isSpace c = false ∧ isTerminator c = false ∧ isCjkTerminator c = false := by
  simp only [isCloser, Bool.or_eq_true, beq_iff_eq] at h
  rcases h with ((((rfl | rfl) | rfl) | rfl) | rfl) | rfl <;> decide

theorem isTerminator_of_isCjkTerminator (h : isCjkTerminator c = true) :
    isTerminator c = false := by
  simp only [isCjkTerminator, Bool.or_eq_true, beq_iff_eq] at h
  rcases h with (rfl | rfl) | rfl <;> decide

/-- Before white space, the closing characters end. -/
theorem takeWhile_isCloser {closers tail : List Char} (hclos : ∀ d ∈ closers, isCloser d = true)
    (htail : ∀ d ∈ tail.head?, isSpace d = true) :
    (closers ++ tail).takeWhile isCloser = closers := by
  have hn : tail.takeWhile isCloser = [] := by
    rcases tail with - | ⟨d, tail⟩
    · rfl
    · refine List.takeWhile_cons_of_neg fun hcloser => ?_
      exact absurd (htail d rfl) (by simp [(of_isCloser hcloser).1])
  rw [List.takeWhile_append_of_pos hclos, hn, List.append_nil]

/-- **A match is a sentence end.** -/
theorem sentenceMatch_eq_some_iff : sentenceMatch text = some n ↔
    ∃ c closers tail, text = c :: (closers ++ tail) ∧ n = 1 + closers.length ∧
      ((isTerminator c = true ∧ (∀ d ∈ closers, isCloser d = true) ∧
          ∀ d ∈ tail.head?, isSpace d = true) ∨
        isCjkTerminator c = true ∧ closers = []) := by
  constructor
  · intro h
    rcases text with - | ⟨c, cs⟩
    · simp [sentenceMatch] at h
    · simp only [sentenceMatch] at h
      split_ifs at h with hter hcjk <;> cases h
      · obtain ⟨hc, htail⟩ := Bool.and_eq_true_iff.mp hter
        refine ⟨c, cs.takeWhile isCloser, cs.drop (cs.takeWhile isCloser).length, ?_, rfl,
          Or.inl ⟨hc, fun d hd => List.mem_takeWhile_imp hd, fun d hd => ?_⟩⟩
        · rw [List.prefix_iff_eq_append.mp ( List.takeWhile_prefix _)]
        · rw [Option.mem_def.mp hd] at htail
          exact htail
      · exact ⟨c, [], cs, rfl, rfl, Or.inr ⟨hcjk, rfl⟩⟩
  · rintro ⟨c, closers, tail, rfl, rfl, ⟨hc, hclos, htail⟩ | ⟨hc, rfl⟩⟩
    · have hall : tail.head?.all isSpace = true := by
        rcases tail with - | ⟨d, tail⟩
        · rfl
        · exact htail d rfl
      simp only [sentenceMatch, takeWhile_isCloser hclos htail, List.drop_left, hc, hall]
      rfl
    · simp only [sentenceMatch, isTerminator_of_isCjkTerminator hc, hc]
      rfl

/-- No sentence end begins among the closing characters of another. -/
theorem separate_sentenceMatch : Separate sentenceMatch := by
  refine ⟨fun as n h => ?_, fun as n i h hpos hlt => ?_, rfl⟩
  · obtain ⟨c, closers, tail, -, rfl, -⟩ := sentenceMatch_eq_some_iff.mp h
    omega
  obtain ⟨c, closers, tail, rfl, rfl, ⟨-, hclos, -⟩ | ⟨-, rfl⟩⟩ :=
    sentenceMatch_eq_some_iff.mp h
  · obtain ⟨j, rfl⟩ : ∃ j, i = j + 1 := ⟨i - 1, by omega⟩
    have hj : j < closers.length := by omega
    obtain ⟨-, hter, hcjk⟩ := of_isCloser (hclos _ (List.getElem_mem hj))
    rw [List.drop_succ_cons, List.drop_append_of_le_length hj.le, List.drop_eq_getElem_cons hj,
      List.cons_append, sentenceMatch]
    simp [hter, hcjk]
  · simp only [List.length_nil] at hlt
    omega

/-- **The sentence ends are found.** -/
theorem mem_sentenceEnds_iff : e ∈ matchEnds sentenceMatch 0 0 text ↔ IsSentenceEnd text e := by
  rw [mem_matchEnds_iff separate_sentenceMatch]
  constructor
  · rintro ⟨i, n, hmat, rfl⟩
    obtain ⟨c, closers, tail, hd, rfl, he⟩ := sentenceMatch_eq_some_iff.mp hmat
    have hi : i < text.length := by
      by_contra hle
      rw [List.drop_eq_nil_of_le (by omega)] at hd
      simp at hd
    refine ⟨text.take i, c, closers, tail, ?_, ?_, he⟩
    · rw [← hd, List.take_append_drop]
    · rw [List.length_take]
      omega
  · rintro ⟨head, c, closers, tail, rfl, rfl, he⟩
    refine ⟨head.length, 1 + closers.length, ?_, by omega⟩
    rw [List.drop_left]
    exact sentenceMatch_eq_some_iff.mpr ⟨c, closers, tail, rfl, rfl, he⟩

/-- Inside a window, the sentence ends are those of the text. -/
theorem isSentenceEnd_take {size : ℕ} (he : e < size) (hsize : size ≤ text.length) :
    IsSentenceEnd (text.take size) e ↔ IsSentenceEnd text e := by
  constructor
  · rintro ⟨head, c, closers, tail, htake, rfl, hend⟩
    have hlen := congrArg List.length htake
    simp only [List.length_take, List.length_append, List.length_cons] at hlen
    rcases tail with - | ⟨d, tail⟩
    · simp only [List.length_nil] at hlen
      omega
    · refine ⟨head, c, closers, d :: tail ++ text.drop size, ?_, rfl, hend⟩
      conv_lhs => rw [← List.take_append_drop size text, htake]
      simp
  · rintro ⟨head, c, closers, tail, rfl, rfl, hend⟩
    obtain ⟨more, hmore⟩ : ∃ more, size = head.length + 1 + closers.length + (more + 1) :=
      ⟨size - (head.length + 1 + closers.length) - 1, by omega⟩
    refine ⟨head, c, closers, tail.take (more + 1), ?_, rfl, ?_⟩
    · have hsplit : head ++ c :: (closers ++ tail) = (head ++ c :: closers) ++ tail := by simp
      have hlen : (head ++ c :: closers).length = head.length + 1 + closers.length := by
        simp only [List.length_append, List.length_cons]
        omega
      rw [hsplit, hmore, ← hlen, List.take_length_add_append]
      simp
    · rcases tail with - | ⟨d, tail⟩
      · exact hend
      · exact hend

end SentenceEnds

/-! ### Where a text is cut -/

section Cut

variable {text : List Char} {i e : ℕ}

/-- A text ends, after its last space, in characters that are none. -/
theorem rdropWhile_ne_space (text : List Char) :
    ∃ rest, text = text.rdropWhile (· ≠ ' ') ++ rest ∧ (∀ c ∈ rest, c ≠ ' ') ∧
      (text.rdropWhile (· ≠ ' ') = [] ∨ ∃ front, text.rdropWhile (· ≠ ' ') = front ++ [' ']) := by
  refine ⟨text.rtakeWhile (· ≠ ' '), List.rdropWhile_append_rtakeWhile.symm,
    fun c hc => by simpa using List.mem_rtakeWhile_imp hc, ?_⟩
  have hl := List.rdropWhile_last_not (fun d : Char => decide (d ≠ ' ')) text
  rcases List.eq_nil_or_concat' (text.rdropWhile (· ≠ ' ')) with hnil | ⟨front, c, hfront⟩
  · exact Or.inl hnil
  · simp only [hfront] at hl
    have hc : c = ' ' := by simpa using hl (by simp)
    exact Or.inr ⟨front, by rw [hfront, hc]⟩

theorem rfindSpace_eq_some (h : rfindSpace text = some i) :
    text[i]? = some ' ' ∧ ∀ j : ℕ, text[j]? = some ' ' → j ≤ i := by
  obtain ⟨rest, htx, hrs, hnil | ⟨front, hfront⟩⟩ := rdropWhile_ne_space text
  · rw [rfindSpace, hnil] at h
    simp at h
  · rw [rfindSpace, hfront, List.length_append, List.length_singleton] at h
    cases h
    rw [hfront] at htx
    rw [htx]
    refine ⟨by simp, fun j hj => ?_⟩
    by_contra hlt
    rw [List.getElem?_append_right (by simp; omega)] at hj
    exact hrs _ (List.mem_of_getElem? hj) rfl

theorem rfindSpace_eq_none (h : rfindSpace text = none) (j : ℕ) : text[j]? ≠ some ' ' := by
  obtain ⟨rest, htx, hrs, hnil | ⟨front, hfront⟩⟩ := rdropWhile_ne_space text
  · intro hj
    rw [hnil, List.nil_append] at htx
    exact hrs _ (htx ▸ List.mem_of_getElem? hj) rfl
  · rw [rfindSpace, hfront] at h
    simp at h

/-- **Where a text is cut that is too long**: after its last sentence end in range; before the last
space in range, where there is no such end; at the limit, where there is no space either. -/
def CutsAt (text : List Char) (e : ℕ) : Prop :=
  (IsSentenceEnd text e ∧ ∀ f ≤ maxDescriptionChars, IsSentenceEnd text f → f ≤ e) ∨
    (∀ f ≤ maxDescriptionChars, ¬IsSentenceEnd text f) ∧
      ((text[e]? = some ' ' ∧ ∀ j ≤ maxDescriptionChars, text[j]? = some ' ' → j ≤ e) ∨
        (∀ j ≤ maxDescriptionChars, text[j]? ≠ some ' ') ∧ e = maxDescriptionChars)

/-- The sentence ends in range are those of the text. -/
theorem mem_filter_sentenceEnds_iff (hlong : maxDescriptionChars < text.length) :
    e ∈ (matchEnds sentenceMatch 0 0 (text.take (maxDescriptionChars + 1))).filter
      (· ≤ maxDescriptionChars) ↔ e ≤ maxDescriptionChars ∧ IsSentenceEnd text e := by
  rw [List.mem_filter, mem_sentenceEnds_iff, decide_eq_true_eq, and_comm]
  exact and_congr_right fun he => isSentenceEnd_take (by omega) (by omega)

/-- **A text that is too long is cut to a prefix that fits and is not empty**, at a sentence end, a
space or the limit. -/
theorem cut_trimToLastSentence {text : String} (hhead : text.toList.head? ≠ some ' ')
    (hlong : maxDescriptionChars < text.length) :
    ∃ e, 0 < e ∧ e ≤ maxDescriptionChars ∧
      trimToLastSentence text = String.ofList (text.toList.take e) ∧ CutsAt text.toList e := by
  have hlong : maxDescriptionChars < text.toList.length := hlong
  have hm (e : ℕ) := mem_filter_sentenceEnds_iff (e := e) hlong
  have hwin {j : ℕ} (hj : j ≤ maxDescriptionChars) :
      (text.toList.take (maxDescriptionChars + 1))[j]? = text.toList[j]? :=
    List.getElem?_take_of_lt (by omega)
  simp only [trimToLastSentence]
  generalize hes : (matchEnds sentenceMatch 0 0 (text.toList.take (maxDescriptionChars + 1))).filter
    (· ≤ maxDescriptionChars) = ends at hm
  have hsort : ends.Pairwise (· < ·) :=
    hes ▸ (pairwise_matchEnds separate_sentenceMatch.pos _ _ _).filter _
  rcases List.eq_nil_or_concat' ends with rfl | ⟨before, last, rfl⟩
  · have hn : ∀ f ≤ maxDescriptionChars, ¬IsSentenceEnd text.toList f := fun f hf he =>
      absurd ((hm f).mpr ⟨hf, he⟩) List.not_mem_nil
    rcases hfind : rfindSpace (text.toList.take (maxDescriptionChars + 1)) with - | _ | lastSpace
    · refine ⟨maxDescriptionChars, by decide, le_rfl, rfl, Or.inr ⟨hn, Or.inr ⟨?_, rfl⟩⟩⟩
      exact fun j hj => hwin hj ▸ rfindSpace_eq_none hfind j
    · have hz := (rfindSpace_eq_some hfind).1
      rw [hwin (Nat.zero_le _)] at hz
      exact absurd (List.head?_eq_getElem?.trans hz) hhead
    · obtain ⟨hspace, hl⟩ := rfindSpace_eq_some hfind
      have hle : lastSpace + 1 ≤ maxDescriptionChars := by
        have hlt := (List.getElem?_eq_some_iff.mp hspace).1
        rw [List.length_take] at hlt
        omega
      rw [hwin hle] at hspace
      exact ⟨lastSpace + 1, by omega, hle, rfl, Or.inr ⟨hn, Or.inl ⟨hspace, fun j hj hjs =>
        hl j ((hwin hj).trans hjs)⟩⟩⟩
  · obtain ⟨hle, he⟩ := (hm last).mp (by simp)
    obtain ⟨head, c, closers, tail, -, hl, -⟩ := id he
    refine ⟨last, by omega, hle, ?_, Or.inl ⟨he, fun f hf hf' => ?_⟩⟩
    · rw [List.getLast?_concat]
    · rcases List.mem_append.mp ((hm f).mpr ⟨hf, hf'⟩) with hbef | hsin
      · exact ((List.pairwise_append.mp hsort).2.2 f hbef last (by simp)).le
      · exact (List.mem_singleton.mp hsin).le

/-- A line with neither a sentence end nor a space in range is cut at the limit. -/
theorem trimToLastSentence_of_none (line : List Char)
    (hes : (matchEnds sentenceMatch 0 0 (line.take (maxDescriptionChars + 1))).filter
      (· ≤ maxDescriptionChars) = [])
    (hspace : rfindSpace (line.take (maxDescriptionChars + 1)) = none) :
    trimToLastSentence (String.ofList line) = String.ofList (line.take maxDescriptionChars) := by
  simp [trimToLastSentence, hes, hspace]

theorem IsOneLine.trimToLastSentence {line : String} (h : IsOneLine line)
    (hlong : maxDescriptionChars < line.length) :
    IsOneLine (trimToLastSentence line) ∧
      (trimToLastSentence line).length ≤ maxDescriptionChars := by
  obtain ⟨e, -, hle, heq, -⟩ := cut_trimToLastSentence h.head hlong
  rw [heq]
  constructor
  · exact h.of_prefix (by rw [String.toList_ofList]; exact List.take_prefix _ _)
  · rw [String.length_ofList, List.length_take]
    omega

end Cut

/-! ### What an import stores -/

/-- **What an import stores is nothing, or text that a write accepts.** -/
theorem normaliseDescriptionText_storable (text : RawText) :
    normaliseDescriptionText text = "" ∨
      checkDescriptionText (normaliseDescriptionText text) = none := by
  have hline := isOneLine_collapseToOneLine text
  have hsto : ∃ line, IsOneLine line ∧ line.length ≤ maxDescriptionChars ∧
      normaliseDescriptionText text = if isBlank line then "" else line := by
    by_cases hlong : maxDescriptionChars < (collapseToOneLine text).length
    · obtain ⟨htrim, hlen⟩ := hline.trimToLastSentence hlong
      exact ⟨_, htrim, hlen, by simp only [normaliseDescriptionText, if_pos hlong]⟩
    · exact ⟨_, hline, by omega, by simp only [normaliseDescriptionText, if_neg hlong]⟩
  obtain ⟨line, hline, hlen, heq⟩ := hsto
  rw [heq]
  split_ifs with hbl
  · exact Or.inl rfl
  · exact Or.inr ((checkDescriptionText_eq_none hline hlen).mpr (by simpa using hbl))

end ArchonSearch.Descriptions
