import Mathlib.Logic.Function.Basic
import Mathlib.Tactic.SplitIfs

/-!
# One load of a key at a time

Callers ask for values that have to be loaded. The first that asks for a key registers an event
under it and loads the value; any other one that comes before it is done waits for that event. The
loader takes its registration back when it leaves, however it leaves, and sets the event.

`Registered` says that the registrations are those of the callers that load, one for each key, and
that nobody waits for an event that is neither set nor registered. It is kept by a caller that goes
on (`Registered.update`), that registers (`Registered.register`), and that leaves
(`Registered.leave`).
-/

namespace ArchonSearch.Lib

open Function

variable {ι κ ε γ : Type*}

/-- **The registrations are those of the callers that load**, of which `loads` tells the key and
the event, as `waits` does of a caller that waits. -/
structure Registered (loads waits : γ → Option (κ × ε)) (table : κ → Option ε) (isSet : ε → Bool)
    (call : ι → γ) : Prop where
  table_iff : ∀ k e, table k = some e ↔ ∃ i, loads (call i) = some (k, e)
  unique : ∀ i j k e e', loads (call i) = some (k, e) → loads (call j) = some (k, e') → i = j
  awaited : ∀ i k e, waits (call i) = some (k, e) → isSet e = true ∨ table k = some e

namespace Registered

variable [DecidableEq ι] [DecidableEq κ] {loads waits : γ → Option (κ × ε)}
  {table table' : κ → Option ε} {isSet : ε → Bool} {call : ι → γ} {i : ι} {c : γ} {k : κ} {e : ε}

omit [DecidableEq κ] in
/-- A caller goes on, and loads what it did. -/
theorem update (h : Registered loads waits table isSet call) (hloads : loads c = loads (call i))
    (hwt : ∀ k e, waits c = some (k, e) → isSet e = true ∨ table k = some e) :
    Registered loads waits table isSet (update call i c) := by
  have heq (j : ι) : loads (Function.update call i c j) = loads (call j) := by
    by_cases hj : j = i
    · rw [hj, update_self, hloads]
    · rw [update_of_ne hj]
  refine ⟨by simpa only [heq] using h.table_iff, by simpa only [heq] using h.unique,
    fun j k e hj => ?_⟩
  by_cases hji : j = i
  · rw [hji, update_self] at hj
    exact hwt k e hj
  · rw [update_of_ne hji] at hj
    exact h.awaited j k e hj

/-- **A caller registers a key** for which there is nothing. -/
theorem register (h : Registered loads waits table isSet call) (hfr : loads (call i) = none)
    (hn : table k = none) (hloads : loads c = some (k, e)) (hwt : waits c = none)
    (htab : ∀ k', table' k' = if k' = k then some e else table k') :
    Registered loads waits table' isSet (Function.update call i c) := by
  have hw (j : ι) (k' : κ) (e' : ε) : loads (Function.update call i c j) = some (k', e') ↔
      j = i ∧ k' = k ∧ e' = e ∨ loads (call j) = some (k', e') := by
    by_cases hj : j = i
    · simp [hj, hloads, hfr, eq_comm]
    · simp [hj]
  have hidle (j : ι) (e' : ε) : loads (call j) ≠ some (k, e') := fun hj => by
    cases hn.symm.trans ((h.table_iff k e').mpr ⟨j, hj⟩)
  refine ⟨fun k' e' => ?_, fun j j' k' e₁ e₂ hj hj' => ?_, fun j k' e' hj => ?_⟩
  · simp only [htab, hw]
    split_ifs with hk
    · simp [hk, hidle, eq_comm]
    · simp [hk, h.table_iff]
  · rcases (hw _ _ _).mp hj with ⟨rfl, rfl, -⟩ | hj
    · exact (((hw _ _ _).mp hj').resolve_right (hidle _ _)).1.symm
    · rcases (hw _ _ _).mp hj' with ⟨-, rfl, -⟩ | hj'
      · exact absurd hj (hidle _ _)
      · exact h.unique _ _ _ _ _ hj hj'
  · by_cases hji : j = i
    · rw [hji, update_self, hwt] at hj
      cases hj
    · rw [update_of_ne hji] at hj
      refine (h.awaited j k' e' hj).imp_right fun hs => ?_
      rw [htab, if_neg, hs]
      rintro rfl
      cases hn.symm.trans hs

/-- **A loader leaves**: its registration is taken back, and the event is set. -/
theorem leave [DecidableEq ε] (h : Registered loads waits table isSet call)
    (hi : loads (call i) = some (k, e)) (hloads : loads c = none) (hwt : waits c = none)
    (htab : ∀ k', table' k' = if k' = k then none else table k') :
    Registered loads waits table' (Function.update isSet e true) (Function.update call i c) := by
  have hleft (j : ι) (k' : κ) (e' : ε) : loads (Function.update call i c j) = some (k', e') ↔
      j ≠ i ∧ loads (call j) = some (k', e') := by
    by_cases hj : j = i
    · simp [hj, hloads]
    · simp [hj]
  refine ⟨fun k' e' => ?_, fun j j' k' e₁ e₂ hj hj' => ?_, fun j k' e' hj => ?_⟩
  · simp only [htab, hleft]
    split_ifs with hk
    · refine iff_of_false nofun ?_
      rintro ⟨j, hji, hj⟩
      exact hji (h.unique j i k e' e (hk ▸ hj) hi)
    · refine (h.table_iff k' e').trans (exists_congr fun j => (and_iff_right_of_imp ?_).symm)
      rintro hj rfl
      exact hk (congrArg Prod.fst (Option.some.inj (hj.symm.trans hi)))
  · exact h.unique _ _ _ _ _ ((hleft _ _ _).mp hj).2 ((hleft _ _ _).mp hj').2
  · by_cases hji : j = i
    · rw [hji, update_self, hwt] at hj
      cases hj
    · rw [update_of_ne hji] at hj
      by_cases he : e' = e
      · exact Or.inl (by rw [he, update_self])
      · rw [update_of_ne he, htab]
        refine (h.awaited j k' e' hj).imp_right fun hs => (if_neg ?_).trans hs
        -- under that key stands the event of this loader
        rintro rfl
        exact he (Option.some.inj (hs.symm.trans ((h.table_iff _ e).mpr ⟨i, hi⟩)))

end Registered

end ArchonSearch.Lib
