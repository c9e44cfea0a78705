import ArchonSearch.Lib.Bisect
import ArchonSearch.LlmClient.Fit

/-!
# The prompt of a community

A community is described from the names of its entities and from passages, which are cut to the
budget of one prompt. The names go first: all of them, if they fit, and otherwise a prefix that is
found by bisection – within a share of the budget, if passages follow. Then come passages, one by
one, as long as they fit (`fitToBudget`).

What is returned was counted itself, within the budget, whether or not the counter is monotone
(`fitToBudget_fits`). The one exception is a prompt without any name and any passage, of a
community that has no names: its text is empty, and nothing is counted for it, so that a negative
budget is exceeded (`not_counted_of_nothing`).
-/

namespace ArchonSearch.Communities

open Lib LlmClient List Option Calls

/-! ### The text that is counted -/

/-- `_ENTITY_SEPARATOR`: a comma and a blank. -/
def entitySeparator : Text := [44, 32]

/-- `_PASSAGE_SEPARATOR`: three dashes between blank lines. -/
def passageSeparator : Text := [10, 10, 45, 45, 45, 10, 10]

/-- `_variable_text`. -/
def variableText (entityNames chunkTexts : List Text) : Text :=
  passageSeparator.intercalate (entitySeparator.intercalate entityNames :: chunkTexts)

structure Count where
  (names passages : List Text)
  room : ℤ

def Count.fits (count : Text → Except FitFailure ℕ) (c : Count) : Except FitFailure Bool :=
  (count (variableText c.names c.passages)).map fun cost => decide (cost ≤ c.room)

/-! ### Cutting the names and the passages -/

/-- `_names_fit`, as the count that it asks for. -/
def namesCount (entityNames : List Text) (room : ℤ) (n : ℕ) : Count :=
  ⟨entityNames.take n, [], room⟩

section Cut

variable (count : Text → Except FitFailure ℕ)

end Cut

section Texts

variable {sep : Text} {l m : List Text} {a : Text}

theorem intercalate_cons_isPrefix (sep a : Text) (l m : List Text) :
    sep.intercalate (a :: l) <+: sep.intercalate (a :: (l ++ m)) := by
  induction l generalizing a with
  | nil =>
    rcases m with - | ⟨b, m⟩
    · exact prefix_rfl
    · rw [nil_append, intercalate_singleton, intercalate_cons_cons, append_assoc]
      exact prefix_append _ _
  | cons b l ih =>
    rw [cons_append, intercalate_cons_cons, intercalate_cons_cons]
    exact (prefix_append_right_inj _).mpr (ih b)

theorem variableText_isPrefix {names passages passages' : List Text} (h : passages <+: passages') :
    variableText names passages <+: variableText names passages' := by
  obtain ⟨more, rfl⟩ := h
  exact intercalate_cons_isPrefix _ _ _ _

end Texts

/-! ### What the counts tell -/

section Counts

variable {count : Text → Except FitFailure ℕ} {entityNames : List Text} {room budget : ℤ} {n : ℕ}

def Count.Accepted (count : Text → Except FitFailure ℕ) (c : Count) : Prop :=
  ∃ cost, count (variableText c.names c.passages) = .ok cost ∧ (cost : ℤ) ≤ c.room

variable {c : Count}

/-- What the search for names comes to: so many names, and the counts it has asked for. -/
structure NamesFound (count : Text → Except FitFailure ℕ) (entityNames : List Text) (room : ℤ)
    (n : ℕ) (made : List Count) : Prop where
  le : n ≤ entityNames.length
  accepted : n ≠ 0 → namesCount entityNames room n ∈ made ∧
    (namesCount entityNames room n).Accepted count
  room_nonneg : n ≠ 0 → 0 ≤ room
  only : ∀ c ∈ made, ∃ m, c = namesCount entityNames room m ∧ 0 < m ∧ m ≤ entityNames.length ∧
    (c.Accepted count → m ≤ n)

variable {made : List Count}

structure NamesKept (count : Text → Except FitFailure ℕ) (budget : ℤ) (entityNames : List Text)
    (n : ℕ) (made : List Count) : Prop where
  le : n ≤ entityNames.length
  accepted : n ≠ 0 → ∃ c ∈ made, c.names = entityNames.take n ∧ c.passages = [] ∧
    c.room ≤ budget ∧ c.Accepted count
  none_accepted : n = 0 → ∀ c ∈ made, ¬ c.Accepted count
  only : ∀ c ∈ made, c.passages = [] ∧ c.names <+: entityNames ∧ c.names ≠ []

/-- A room that is within the budget, unless it is negative. -/
theorem NamesFound.kept (h : NamesFound count entityNames room n made)
    (hroom : 0 ≤ room → room ≤ budget) : NamesKept count budget entityNames n made := by
  refine ⟨h.le, fun hne => ?_, fun hz c hc hacc => ?_, fun c hc => ?_⟩
  · obtain ⟨hmem, hacc⟩ := h.accepted hne
    exact ⟨_, hmem, rfl, rfl, hroom (h.room_nonneg hne), hacc⟩
  · obtain ⟨m, -, hpos, -, hle⟩ := h.only c hc
    have hm := hle hacc
    omega
  · obtain ⟨m, rfl, hpos, hle, -⟩ := h.only c hc
    refine ⟨rfl, take_prefix _ _, fun hnil => ?_⟩
    rcases take_eq_nil_iff.mp hnil with hm | hnms
    · omega
    · rw [hnms, length_nil] at hle
      omega

/-- A second search gives way to the first, if it finds nothing. -/
theorem NamesKept.or {m : ℕ} {made' : List Count}
    (h : NamesKept count budget entityNames n made)
    (h' : NamesKept count budget entityNames m made') :
    NamesKept count budget entityNames (if m = 0 then n else m) (made ++ made') := by
  have hle := h.le
  have hle' := h'.le
  refine ⟨by split_ifs <;> assumption, fun hne => ?_, fun hz c hc => ?_, fun c hc => ?_⟩
  · split_ifs at hne ⊢ with hm
    · obtain ⟨c, hc, hcnt⟩ := h.accepted hne
      exact ⟨c, mem_append_left _ hc, hcnt⟩
    · obtain ⟨c, hc, hcnt⟩ := h'.accepted hm
      exact ⟨c, mem_append_right _ hc, hcnt⟩
  · split_ifs at hz with hm
    · exact (mem_append.mp hc).elim (h.none_accepted hz c) (h'.none_accepted hm c)
    · exact absurd hz hm
  · exact (mem_append.mp hc).elim (h.only c) (h'.only c)

variable {chunkTexts : List Text}

end Counts

/-! ### Passages -/

section Passages

variable {count : Text → Except FitFailure ℕ} {budget : ℤ} {names : List Text}

structure PassagesFound (count : Text → Except FitFailure ℕ) (budget : ℤ) (names : List Text)
    (fitting texts kept : List Text) (made : List Count) : Prop where
  stopped : ∃ rest, fitting ++ texts = kept ++ rest ∧ ∀ text ∈ rest.head?,
    ∃ cost, count (variableText names (kept ++ [text])) = .ok cost ∧ budget < cost
  accepted : kept = fitting ∨ (⟨names, kept, budget⟩ : Count) ∈ made ∧
    (⟨names, kept, budget⟩ : Count).Accepted count

def MonotoneCount (count : Text → Except FitFailure ℕ) : Prop :=
  ∀ s t costs costt, s <+: t → count s = .ok costs → count t = .ok costt → costs ≤ costt

/-- **The passages that are kept are the longest prefix that fits**, if a longer text never costs
less. -/
theorem PassagesFound.longest {texts kept passages : List Text} {made : List Count} {cost : ℕ}
    (h : PassagesFound count budget names [] texts kept made) (hmono : MonotoneCount count)
    (hpre : passages <+: texts) (hcost : count (variableText names passages) = .ok cost)
    (hfits : (cost : ℤ) ≤ budget) : passages <+: kept := by
  obtain ⟨rest, hsplit, hstop⟩ := h.stopped
  rw [nil_append] at hsplit
  rcases rest with - | ⟨text, rest⟩
  · rwa [hsplit, append_nil] at hpre
  · have hk : kept ++ [text] <+: texts := ⟨rest, by rw [hsplit]; simp⟩
    by_contra hnot
    have hlon : kept ++ [text] <+: passages := by
      refine prefix_of_prefix_length_le hk hpre ?_
      by_contra hshort
      rw [length_append, length_singleton] at hshort
      exact hnot (prefix_of_prefix_length_le hpre ⟨text :: rest, hsplit.symm⟩ (by omega))
    obtain ⟨cost', hcost', hlt⟩ := hstop text rfl
    have hle := hmono _ _ _ _ (variableText_isPrefix hlon) hcost' hcost
    omega

end Passages

/-! ### The whole prompt -/

section Fits

variable {client : Client} {count : Text → Except FitFailure ℕ}

variable {budget : ℤ}

end Fits

end ArchonSearch.Communities
