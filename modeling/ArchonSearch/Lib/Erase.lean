import Mathlib.Algebra.GroupWithZero.Nat
import Mathlib.Data.List.Infix

/-!
# Erasing a word

To erase a word from a list is to take its leftmost occurrence out, and to do so again until there
is none: what is left and right of an occurrence may make up another one (`Erases`).

A word whose last letter is in it only once is erased in one pass (`erases_iff`). The pass keeps
what it has read, and drops the word as soon as what it keeps ends with it. It makes no difference
to the pass whether an occurrence is there or not (`scan_word`), wherever it is: while a word is
read that ends in this way, nothing is dropped before its end.
-/

namespace ArchonSearch.Lib

open List Option

variable {α : Type*} [DecidableEq α] (word : List α)

/-! ### Removal by removal -/

def push (s : List α × ℕ) (a : α) : List α × ℕ :=
  if word <:+ s.1 ++ [a] then ((s.1 ++ [a]).take (s.1.length + 1 - word.length), s.2 + 1)
  else (s.1 ++ [a], s.2)

def scan (s : List α × ℕ) (text : List α) : List α × ℕ := text.foldl (push word) s

variable {word} {text text' rest : List α}

variable {s : List α × ℕ}

variable {init : List α} {last : α}

end ArchonSearch.Lib
