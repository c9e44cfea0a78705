import Mathlib.Data.Rat.Floor
import ArchonSearch.Lib.Run

/-!
# Input budgets

A prompt is sized ahead of its call: the budget of a query is what the window leaves beside the
answer, the template and some slack. A server that counts exactly gives `exactBudget`; where the
tokenizer is not known the tokens are estimated, and `estimatedBudget` divides the room by a
margin. A budget that is not used up leaves the whole prompt in the window (`exactBudget_fits`,
`estimatedBudget_fits`).

The tokens of a template are counted once and remembered, until the server may have changed. A
count that was asked of the old server is not remembered for the new one, so what the cache holds
are counts of the server that it has now (`counted_of_run`).
-/

namespace ArchonSearch.LlmClient

open Lib List Option

abbrev Text := List ℕ

/-! ### Windows -/

/-- `ContextWindowSource`. -/
inductive ContextWindowSource where
  | configured
  | probed
  | assumed

def ContextWindowSource.value : ContextWindowSource → String
  | .configured => "configured"
  | .probed => "probed"
  | .assumed => "assumed"

/-- `ContextWindowTokens`. -/
structure ContextWindowTokens where
  size : ℤ
  source : ContextWindowSource

/-- `InputBudget`, and a window as well: so many tokens, or no bound. -/
inductive Bounded (α : Type) where
  | unbounded
  | tokens : α → Bounded α

/-! ### Budgets -/

/-- `LLAMA_CPP_JOIN_SLACK_TOKENS`. -/
def llamaCppJoinSlackTokens : ℤ := 4

/-- `OLLAMA_CHAT_FRAMING_TOKENS`. -/
def ollamaChatFramingTokens : ℤ := 64

/-- `_ESTIMATE_MARGIN`, which is `OLLAMA_ESTIMATE_MARGIN` as the fraction that its text says. -/
def estimateMargin : ℚ := 1 / 5

/-- `exact_budget`, from the count of the template on. -/
def exactBudget (window : ContextWindowTokens) (templateTokens : ℕ) (maxOutputTokens : ℤ) : ℤ :=
  max 0 (window.size - maxOutputTokens - templateTokens - llamaCppJoinSlackTokens)

/-- `estimated_budget`, from the count of the template on. -/
def estimatedBudget (window : ContextWindowTokens) (templateTokens : ℕ) (maxOutputTokens : ℤ) :
    ℤ :=
  let roomInEstimateTokens : ℤ :=
    ⌊((window.size - maxOutputTokens - ollamaChatFramingTokens : ℤ) : ℚ) / (1 + estimateMargin)⌋
  max 0 (roomInEstimateTokens - templateTokens)

variable {window : ContextWindowTokens} {maxOutputTokens : ℤ}

/-- **A prompt within the exact budget fits**, with the slack and the answer. -/
theorem exactBudget_fits {templateTokens queryTokens : ℕ}
    (hpos : 0 < exactBudget window templateTokens maxOutputTokens)
    (hquery : queryTokens ≤ exactBudget window templateTokens maxOutputTokens) :
    templateTokens + queryTokens + llamaCppJoinSlackTokens + maxOutputTokens ≤ window.size := by
  unfold exactBudget at hpos hquery
  omega

/-- **A prompt within the estimated budget fits**, with the margin, the framing and the answer. -/
theorem estimatedBudget_fits {templateTokens queryTokens : ℕ}
    (hpos : 0 < estimatedBudget window templateTokens maxOutputTokens)
    (hquery : queryTokens ≤ estimatedBudget window templateTokens maxOutputTokens) :
    (1 + estimateMargin) * (templateTokens + queryTokens) + ollamaChatFramingTokens +
      maxOutputTokens ≤ window.size := by
  simp only [estimatedBudget] at hpos hquery
  set room := ((window.size - maxOutputTokens - ollamaChatFramingTokens : ℤ) : ℚ) with hroom
  have hmar : (0 : ℚ) < 1 + estimateMargin := by norm_num [estimateMargin]
  have hsum : (templateTokens + queryTokens : ℤ) ≤ ⌊room / (1 + estimateMargin)⌋ := by omega
  have hfloor : ((templateTokens + queryTokens : ℤ) : ℚ) ≤ room / (1 + estimateMargin) :=
    Int.le_floor.mp hsum
  rw [le_div_iff₀ hmar] at hfloor
  push_cast [hroom] at hfloor
  linarith

/-! ### The count of a template -/

/-- `MAX_CACHED_TEMPLATES`. -/
def maxCachedTemplates : ℕ := 64

/-- `TemplateCostCache`; the dictionary is the list of its items, the oldest first. -/
structure TemplateCostCache where
  costs : List (Text × ℕ) := []
  epoch : ℕ := 0

namespace TemplateCostCache

/-- `self._costs.get(text)`. -/
def get (cache : TemplateCostCache) (text : Text) : Option ℕ := cache.costs.lookup text

def setItem (text : Text) (cost : ℕ) : List (Text × ℕ) → List (Text × ℕ)
  | [] => [(text, cost)]
  | (text', cost') :: costs =>
    if text' = text then (text, cost) :: costs else (text', cost') :: setItem text cost costs

/-- `_remember`. -/
def remember (cache : TemplateCostCache) (text : Text) (cost epoch : ℕ) : TemplateCostCache :=
  if epoch ≠ cache.epoch then cache
  else
    let costs :=
      if (cache.get text).isNone ∧ maxCachedTemplates ≤ cache.costs.length then cache.costs.tail
      else cache.costs
    { cache with costs := setItem text cost costs }

/-- `clear`. -/
def clear (cache : TemplateCostCache) : TemplateCostCache :=
  { costs := [], epoch := cache.epoch + 1 }

end TemplateCostCache

/-- A cache, with the counts that have been asked for: the text, and the epoch it was asked in. -/
structure TemplateCosts (ι : Type) where
  cache : TemplateCostCache := {}
  inFlight : ι → Option (Text × ℕ) := fun _ => none

inductive CostEvent (ι : Type) where
  /-- `counted(text)` is called. -/
  | asks : ι → Text → CostEvent ι
  | answered : ι → CostEvent ι
  | failed : ι → CostEvent ι
  /-- `clear`: the server may have changed. -/
  | clear

/-- The state that an event leads to; `count` is what the server of an epoch counts. -/
def TemplateCosts.step {ι : Type} [DecidableEq ι] (count : ℕ → Text → ℕ) (s : TemplateCosts ι) :
    CostEvent ι → Option (TemplateCosts ι)
  | .asks i text =>
    match s.inFlight i, s.cache.get text with
    | some _, _ => none
    | none, some _ => some s
    | none, none =>
      some { s with inFlight := Function.update s.inFlight i (some (text, s.cache.epoch)) }
  | .answered i =>
    match s.inFlight i with
    | none => none
    | some (text, epoch) =>
      some {
        cache := s.cache.remember text (count epoch text) epoch
        inFlight := Function.update s.inFlight i none }
  | .failed i => some { s with inFlight := Function.update s.inFlight i none }
  | .clear => some { s with cache := s.cache.clear }

def TemplateCostCache.Counted (count : ℕ → Text → ℕ) (cache : TemplateCostCache) : Prop :=
  ∀ item ∈ cache.costs, item.2 = count cache.epoch item.1

variable {text : Text} {cost : ℕ}

theorem TemplateCostCache.mem_setItem {costs : List (Text × ℕ)}
    {item : Text × ℕ} (h : item ∈ setItem text cost costs) :
    item = (text, cost) ∨ item ∈ costs := by
  induction costs with
  | nil => exact Or.inl (mem_singleton.mp h)
  | cons first costs ih =>
    rw [setItem] at h
    split_ifs at h
    · rcases mem_cons.mp h with rfl | h
      · exact Or.inl rfl
      · exact Or.inr (mem_cons_of_mem _ h)
    · rcases mem_cons.mp h with rfl | h
      · exact Or.inr mem_cons_self
      · exact (ih h).imp_right (mem_cons_of_mem _)

variable {count : ℕ → Text → ℕ} {cache : TemplateCostCache}

theorem TemplateCostCache.Counted.remember
    (h : cache.Counted count) (text : Text) (epoch : ℕ) :
    (cache.remember text (count epoch text) epoch).Counted count := by
  unfold TemplateCostCache.remember
  split_ifs with hepoch hfull
  · exact h
  · intro item hitem
    rcases mem_setItem hitem with rfl | hitem
    · simp [not_not.mp hepoch]
    · exact h item (mem_of_mem_tail hitem)
  · intro item hitem
    rcases mem_setItem hitem with rfl | hitem
    · simp [not_not.mp hepoch]
    · exact h item hitem

/-- **What the cache holds are counts of the server that it has now**, in every run. -/
theorem counted_of_run {ι : Type} [DecidableEq ι]
    {events : List (CostEvent ι)} {s : TemplateCosts ι}
    (hr : run (TemplateCosts.step count) {} events = some s) : s.cache.Counted count := by
  refine run_invariant (I := fun s : TemplateCosts ι => s.cache.Counted count)
    (fun s e s' h hs => ?_) (fun item hitem => ?_) hr
  · cases e with
    | asks i text =>
      simp only [TemplateCosts.step] at hs
      split at hs
      · cases hs
      · exact some.inj hs ▸ h
      · exact some.inj hs ▸ h
    | answered i =>
      simp only [TemplateCosts.step] at hs
      split at hs
      · cases hs
      · exact some.inj hs ▸ h.remember _ _
    | failed i => exact some.inj hs ▸ h
    | clear =>
      cases hs
      exact fun item hitem => absurd hitem not_mem_nil
  · exact absurd hitem not_mem_nil

theorem TemplateCostCache.Counted.get
    (h : cache.Counted count) (hg : cache.get text = some cost) :
    cost = count cache.epoch text := by
  obtain ⟨before, after, hcos, -⟩ := lookup_eq_some_iff.mp hg
  exact h (text, cost) (by simp [hcos])

end ArchonSearch.LlmClient
