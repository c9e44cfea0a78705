import Mathlib.Data.List.Infix

/-!
# Wildcard patterns

A pattern is a list of tokens, each of which stands for a single character or for any run of
characters. Globs and the patterns of SQL's `LIKE` are both of this form, and differ in how
their text is read.

A pattern that ends in the only run it has matches the words that begin with the rest of it
(`matches_literals_append_run`).
-/

namespace ArchonSearch.Lib.Wildcard

open List

inductive Token where
  | run
  | any
  | literal : Char → Token
  | oneOf : (negated : Bool) → List (Char × Char) → Token

def Token.test : Token → Char → Bool
  | run, _ | any, _ => true
  | literal c, d => c = d
  | oneOf negated ranges, d => negated != ranges.any fun (lo, hi) => lo ≤ d && d ≤ hi

def Matches : List Token → List Char → Bool
  | [], word => word.isEmpty
  | .run :: pattern, word => word.tails.any (Matches pattern)
  | _ :: _, [] => false
  | token :: pattern, c :: word => token.test c && Matches pattern word

theorem matches_literal_cons {c d : Char} {pattern : List Token} {word : List Char} :
    Matches (.literal c :: pattern) (d :: word) = true ↔ c = d ∧ Matches pattern word = true := by
  simp [Matches, Token.test]

theorem matches_run (word : List Char) : Matches [.run] word = true :=
  any_eq_true.mpr ⟨[], (mem_tails _ _).mpr nil_suffix, rfl⟩

/-- **Literals and then a run match the words that begin with them.** -/
theorem matches_literals_append_run {start word : List Char} :
    Matches (start.map .literal ++ [.run]) word = true ↔ start <+: word := by
  induction start generalizing word with
  | nil => exact iff_of_true (matches_run word) nil_prefix
  | cons c start ih =>
    cases word with
    | nil => simp [Matches]
    | cons d word =>
      rw [map_cons, cons_append, matches_literal_cons, ih, cons_prefix_cons]

end ArchonSearch.Lib.Wildcard
