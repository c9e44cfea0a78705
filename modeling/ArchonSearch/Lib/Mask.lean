import Mathlib.Data.List.Infix
import ArchonSearch.Lib.Scan

/-!
# Masking words

Every occurrence of a word is replaced by a mark, which is bracketed by two letters that the words
to be masked do not have (`Maskable`). An occurrence of such a word never reaches over a bracket
(`infix_append_cons_iff`), so a replacement makes none that was not there before
(`infix_of_infix_replaceWord`), and it leaves none of its own word (`not_infix_replaceWord`):
several words may be replaced one after another, however they overlap.
-/

namespace ArchonSearch.Lib

open List

variable {α : Type*} [DecidableEq α]

def wordAt (word as : List α) : Option ℕ := if word <+: as then some word.length else none

def bracketed (opening : α) (label : List α) (closing : α) : List α :=
  opening :: (label ++ [closing])

def replaceWord (mark word text : List α) : List α := replaceMatches (wordAt word) mark 0 text

structure Maskable (opening : α) (label : List α) (closing : α) (word : List α) : Prop where
  ne_nil : word ≠ []
  opening_notMem : opening ∉ word
  closing_notMem : closing ∉ word
  not_infix : ¬word <:+: label

variable {opening closing bar : α} {label word other before after text : List α}

omit [DecidableEq α] in
theorem prefix_append_cons_iff (before : List α) (hbar : bar ∉ word) :
    word <+: before ++ bar :: after ↔ word <+: before := by
  refine ⟨fun h => ?_, fun h => h.trans (prefix_append _ _)⟩
  rcases Nat.lt_or_ge before.length word.length with hlt | hle
  · have hins : before ++ [bar] <+: word :=
      prefix_of_prefix_length_le ⟨after, by simp⟩ h (by simp; omega)
    exact absurd (hins.subset (by simp)) hbar
  · exact prefix_of_prefix_length_le h (prefix_append _ _) hle

omit [DecidableEq α] in
theorem infix_append_cons_iff (hbar : bar ∉ word) :
    word <:+: before ++ bar :: after ↔ word <:+: before ∨ word <:+: after := by
  induction before with
  | nil =>
    rw [nil_append, infix_cons_iff]
    refine or_congr_left ⟨fun h => ?_, fun h => ?_⟩
    · exact ((prefix_append_cons_iff [] hbar).mp h).isInfix
    · rw [infix_nil.mp h]
      exact nil_prefix
  | cons a before ih =>
    rw [cons_append, infix_cons_iff, infix_cons_iff, ih, ← cons_append,
      prefix_append_cons_iff _ hbar, or_assoc]

/-- A word without the brackets begins where it began. -/
theorem prefix_of_prefix_replaceWord (hopeni : opening ∉ word) :
    word <+: replaceWord (bracketed opening label closing) other text → word <+: text := by
  induction text generalizing word with
  | nil => exact id
  | cons a text ih =>
    unfold replaceWord replaceMatches
    split
    · intro h
      have hnil := (prefix_append_cons_iff [] hopeni).mp h
      rw [prefix_nil.mp hnil]
      exact nil_prefix
    · intro h
      cases word with
      | nil => exact nil_prefix
      | cons b word =>
        obtain ⟨rfl, hrs⟩ := cons_prefix_cons.mp h
        exact cons_prefix_cons.mpr ⟨rfl, ih (fun hm => hopeni (by simp [hm])) hrs⟩

variable (hword : Maskable opening label closing word)
include hword

omit [DecidableEq α] in
/-- **A mark is nowhere in the way of a word**: what is around it has the word, or nothing has. -/
theorem infix_mark_iff : word <:+: before ++ bracketed opening label closing ++ after ↔
    word <:+: before ∨ word <:+: after := by
  rw [bracketed, append_assoc, cons_append, append_assoc, singleton_append,
    infix_append_cons_iff hword.opening_notMem, infix_append_cons_iff hword.closing_notMem,
    or_iff_right hword.not_infix]

theorem infix_of_infix_replaceMatches (skip : ℕ) :
    word <:+: replaceMatches (wordAt other) (bracketed opening label closing) skip text →
      word <:+: text := by
  induction text generalizing skip with
  | nil => exact id
  | cons a text ih =>
    cases skip with
    | succ skip => exact fun h => (ih skip h).trans (suffix_cons a text).isInfix
    | zero =>
      intro h
      rw [replaceMatches] at h
      split at h
      · rw [← nil_append (bracketed _ _ _), infix_mark_iff hword] at h
        rcases h with h | h
        · exact absurd (infix_nil.mp h) hword.ne_nil
        · exact (ih _ h).trans (suffix_cons a text).isInfix
      · next hn =>
        rcases infix_cons_iff.mp h with hpre | hinf
        · have hmas :
              word <+: replaceWord (bracketed opening label closing) other (a :: text) := by
            rwa [replaceWord, replaceMatches, hn]
          exact (prefix_of_prefix_replaceWord hword.opening_notMem hmas).isInfix
        · exact (ih 0 hinf).trans (suffix_cons a text).isInfix

/-- **No word comes into being** where another one is replaced. -/
theorem infix_of_infix_replaceWord :
    word <:+: replaceWord (bracketed opening label closing) other text → word <:+: text :=
  infix_of_infix_replaceMatches hword 0

theorem not_infix_replaceMatches (skip : ℕ) :
    ¬word <:+: replaceMatches (wordAt word) (bracketed opening label closing) skip text := by
  induction text generalizing skip with
  | nil => exact fun h => hword.ne_nil (infix_nil.mp h)
  | cons a text ih =>
    cases skip with
    | succ skip => exact ih skip
    | zero =>
      intro h
      rw [replaceMatches] at h
      split at h
      · rw [← nil_append (bracketed _ _ _), infix_mark_iff hword] at h
        rcases h with h | h
        · exact hword.ne_nil (infix_nil.mp h)
        · exact ih _ h
      · next hn =>
        rcases infix_cons_iff.mp h with hpre | hinf
        · have hmas :
              word <+: replaceWord (bracketed opening label closing) word (a :: text) := by
            rwa [replaceWord, replaceMatches, hn]
          have hfnd := prefix_of_prefix_replaceWord hword.opening_notMem hmas
          rw [wordAt, if_pos hfnd] at hn
          cases hn
        · exact ih 0 hinf

/-- **No word is left** that was replaced. -/
theorem not_infix_replaceWord :
    ¬word <:+: replaceWord (bracketed opening label closing) word text :=
  not_infix_replaceMatches hword 0

end ArchonSearch.Lib
