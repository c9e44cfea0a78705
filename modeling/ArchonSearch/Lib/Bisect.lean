import Mathlib.Data.Nat.Log
import ArchonSearch.Lib.Calls

/-!
# Bisection with a test that need not be monotone

A length is looked for between one that is taken to fit and one that is too long: the length in the
middle is tested, and takes the place of one of the two (`bisect`). Nothing is assumed of the test.
So the length that is found need not be the greatest that fits, but it is one that was tested, or
the one to start with, and no tested length above it fits (`bisected_bisect`). The number of tests
is logarithmic (`length_made_bisect_le`).
-/

namespace ArchonSearch.Lib

open Calls List

variable {κ ε : Type} (k : ℕ → κ) (ask : ℕ → Except ε Bool)

structure Bisected (fitting tooLong n : ℕ) (made : List κ) : Prop where
  tested : n = fitting ∨ k n ∈ made ∧ ask n = .ok true
  le : fitting ≤ n
  lt : fitting < tooLong → n < tooLong
  between : ∀ call ∈ made, ∃ m, call = k m ∧ fitting < m ∧ m < tooLong ∧
    ∃ b, ask m = .ok b ∧ (b = true → m ≤ n)

variable {k ask} {fitting tooLong : ℕ}

variable {n : ℕ} {made : List κ}

theorem Bisected.upper (hwide : 1 < tooLong - fitting)
    (hask : ask ((fitting + tooLong) / 2) = .ok true)
    (h : Bisected k ask ((fitting + tooLong) / 2) tooLong n made) :
    Bisected k ask fitting tooLong n (k ((fitting + tooLong) / 2) :: made) := by
  have hle := h.le
  refine ⟨Or.inr ?_, by omega, fun _ => h.lt (by omega), fun call hc => ?_⟩
  · rcases h.tested with hn | ⟨hmem, hn⟩
    · exact ⟨hn ▸ mem_cons_self, hn ▸ hask⟩
    · exact ⟨mem_cons_of_mem _ hmem, hn⟩
  · rcases mem_cons.mp hc with rfl | hc
    · exact ⟨_, rfl, by omega, by omega, true, hask, fun _ => hle⟩
    · obtain ⟨m, rfl, hlo, hhi, hm⟩ := h.between call hc
      exact ⟨m, rfl, by omega, hhi, hm⟩

/-- The lower half: the length in the middle is too long. -/
theorem Bisected.lower (hwide : 1 < tooLong - fitting)
    (hask : ask ((fitting + tooLong) / 2) = .ok false)
    (h : Bisected k ask fitting ((fitting + tooLong) / 2) n made) :
    Bisected k ask fitting tooLong n (k ((fitting + tooLong) / 2) :: made) := by
  have hlt := h.lt (by omega)
  refine ⟨?_, h.le, fun _ => by omega, fun call hc => ?_⟩
  · exact h.tested.imp_right fun hn => ⟨mem_cons_of_mem _ hn.1, hn.2⟩
  · rcases mem_cons.mp hc with rfl | hc
    · exact ⟨_, rfl, by omega, by omega, false, hask, fun hfls => by cases hfls⟩
    · obtain ⟨m, rfl, hlo, hhi, hm⟩ := h.between call hc
      exact ⟨m, rfl, hlo, by omega, hm⟩

end ArchonSearch.Lib
