import ArchonSearch.LlmClient.Fit

/-!
# A sized prompt and its window

The two clients that size a query. `LlamaCppClient` asks its server for exact counts, and
remembers the count of a template for each thinking setting; `OllamaClient` counts itself, by an
estimate. Both bound a count without a request by the length of the text in bytes, and by one
more token for a prefix or for each run of digits.

A query that either of them lets through leaves the prompt and its answer in the window
(`fitQueryToWindow_fits`), be it counted or let through by its bound, and with the count of the
template remembered or not.
-/

namespace ArchonSearch.LlmClient

open Lib

/-! ### Bounds without a count -/

def utf8Size (c : ℕ) : ℕ :=
  if c < 0x80 then 1 else if c < 0x800 then 2 else if c < 0x10000 then 3 else 4

/-- `len(text.encode("utf-8", "surrogatepass"))`. -/
def utf8Length (text : Text) : ℕ := (text.map utf8Size).sum

/-- `[0-9]`. -/
def isDigit : ℕ → Bool := within 0x30 0x39

/-- `len(_DIGIT_RUN.findall(text))`: the digits that no digit follows. -/
def digitRuns : Text → ℕ
  | [] => 0
  | c :: text => (if isDigit c && !text.head?.any isDigit then 1 else 0) + digitRuns text

/-- `_SPM_DUMMY_PREFIX_TOKENS`. -/
def spmDummyPrefixTokens : ℕ := 1

/-- `LlamaCppClient.token_ceiling`. -/
def llamaCppTokenCeiling (text : Text) : ℕ := utf8Length text + spmDummyPrefixTokens

/-- `OllamaClient.token_ceiling`, which is `TokenCounter.ceiling`. -/
def ollamaTokenCeiling (text : Text) : ℕ := utf8Length text + digitRuns text

/-! ### The clients -/

/-- `ThinkSetting`. -/
inductive ThinkSetting where
  | default
  | on
  | off

def asked (count : Text → ℕ) (fails : Text → Option FitFailure) (text : Text) :
    Except FitFailure ℕ :=
  match fails text with
  | some e => .error e
  | none => .ok (count text)

/-- What `counted` of `memoize_async` returns. -/
def memoized (cache : TemplateCostCache) (count : Text → Except FitFailure ℕ) (text : Text) :
    Except FitFailure ℕ :=
  match cache.get text with
  | some cost => .ok cost
  | none => count text

/-- `LlamaCppClient`. -/
structure LlamaCppClient where
  window : ContextWindowTokens
  templateCosts : ThinkSetting → TemplateCostCache

/-- A server as a client sees it: the tokens of a text as it is and as one message, and which of
the two requests fail. -/
structure LlamaServer where
  plain : Text → ℕ
  plainFails : Text → Option FitFailure
  framed : ThinkSetting → Text → ℕ
  framedFails : ThinkSetting → Text → Option FitFailure

/-- `LlamaCppClient.input_budget`. -/
def LlamaCppClient.inputBudget (client : LlamaCppClient) (server : LlamaServer)
    (think : ThinkSetting) (templateText : Text) (maxOutputTokens : ℤ) :
    Except FitFailure (Bounded ℤ) :=
  (memoized (client.templateCosts think) (asked (server.framed think) (server.framedFails think))
    templateText).map fun templateTokens =>
      .tokens (exactBudget client.window templateTokens maxOutputTokens)

/-- What `LlamaCppClient` gives to the sizing of a query. -/
def LlamaCppClient.sizing (client : LlamaCppClient) (server : LlamaServer) : Client where
  inputBudget := client.inputBudget server .default
  contextWindow := .tokens client.window
  countTokens := some (asked server.plain server.plainFails)
  tokenCeiling := some llamaCppTokenCeiling

/-- `OllamaClient`. -/
structure OllamaClient where
  window : ContextWindowTokens
  /-- The cache of `_cached_template_count`. -/
  templateCosts : TemplateCostCache

/-- `OllamaClient.input_budget`, whose failure names the counter. -/
def OllamaClient.inputBudget (client : OllamaClient) (count : Text → ℕ)
    (fails : Text → Option String) (templateText : Text) (maxOutputTokens : ℤ) :
    Except FitFailure (Bounded ℤ) :=
  let failed (typeName : String) : FitFailure := .llmCallFailure "ollama"
    s!"cannot size the prompt: the gpt2 token counter failed ({typeName})"
  (memoized client.templateCosts (asked count fun text => (fails text).map failed)
    templateText).map fun templateTokens =>
      .tokens (estimatedBudget client.window templateTokens maxOutputTokens)

/-- What `OllamaClient` gives to the sizing of a query. -/
def OllamaClient.sizing (client : OllamaClient) (count : Text → ℕ)
    (fails : Text → Option String) : Client where
  inputBudget := client.inputBudget count fails
  contextWindow := .tokens client.window
  countTokens := some (asked count fun text => (fails text).map fun typeName =>
    .llmCallFailure "ollama" s!"cannot count tokens: the gpt2 token counter failed ({typeName})")
  tokenCeiling := some ollamaTokenCeiling

/-! ### What is let through fits -/

variable {fails : Text → Option FitFailure} {text : Text} {cost : ℕ}

theorem of_asked {count : Text → ℕ}
    (h : asked count fails text = .ok cost) : cost = count text := by
  unfold asked at h
  split at h
  · cases h
  · exact (Except.ok.inj h).symm

theorem of_memoized {cache : TemplateCostCache} {count : ℕ → Text → ℕ} (hcac : cache.Counted count)
    (h : memoized cache (asked (count cache.epoch) fails) text = .ok cost) :
    cost = count cache.epoch text := by
  unfold memoized at h
  split at h
  · rename_i cost' hg
    rw [← Except.ok.inj h]
    exact hcac.get hg
  · exact of_asked h

/-- **A query that is let through is within the budget**, if the bound of its count is one, and
one token bounds the empty text. -/
theorem le_budget_of_fits {isMark : ℕ → Bool} {client : Client} {count ceiling : Text → ℕ}
    {templateText query q : Text} {provider : String}
    {maxOutputTokens budget : ℤ}
    (hbud : client.inputBudget templateText maxOutputTokens = .ok (.tokens budget))
    (hcnt : client.countTokens = some (asked count fails))
    (hceil : client.tokenCeiling = some ceiling) (hemp : ceiling [] ≤ 1)
    (hbound : count q ≤ ceiling q)
    (h : fitQueryToWindow isMark client templateText query provider maxOutputTokens = .ok q) :
    0 < budget ∧ count q ≤ budget := by
  rcases fitQueryToWindow_cases h with hunb | ⟨budget', count', ceiling', hbud', hpos,
    hcnt', hceil', hcs⟩
  · rw [hbud] at hunb
    cases hunb
  · obtain rfl : budget = budget' := by
      simpa using hbud.symm.trans hbud'
    obtain rfl := Option.some.inj (hcnt.symm.trans hcnt')
    obtain rfl := Option.some.inj (hceil.symm.trans hceil')
    refine ⟨hpos, ?_⟩
    rcases hcs with hfast | ⟨cost, hcost, hle⟩ | ⟨rfl, -⟩
    · omega
    · rwa [of_asked hcost] at hle
    · omega

/-- **A sized prompt never overflows the window**: the query that a client lets through, the
template, what is held back for how the two are joined or framed, and the answer. -/
theorem fitQueryToWindow_fits {ι : Type} [DecidableEq ι] (isMark : ℕ → Bool)
    (templateText query q : Text) (provider : String) (maxOutputTokens : ℤ) :
    (∀ (client : LlamaCppClient) (server : ℕ → LlamaServer) (events : List (CostEvent ι))
        (s : TemplateCosts ι),
      run (TemplateCosts.step fun epoch => (server epoch).framed .default) {} events = some s →
      client.templateCosts .default = s.cache →
      (server s.cache.epoch).plain q ≤ llamaCppTokenCeiling q →
      fitQueryToWindow isMark (client.sizing (server s.cache.epoch)) templateText query provider
        maxOutputTokens = .ok q →
      (server s.cache.epoch).framed .default templateText + (server s.cache.epoch).plain q +
        llamaCppJoinSlackTokens + maxOutputTokens ≤ client.window.size) ∧
    ∀ (client : OllamaClient) (count : Text → ℕ) (fails : Text → Option String)
        (events : List (CostEvent ι)) (s : TemplateCosts ι),
      run (TemplateCosts.step fun _ => count) {} events = some s →
      client.templateCosts = s.cache →
      count q ≤ ollamaTokenCeiling q →
      fitQueryToWindow isMark (client.sizing count fails) templateText query provider
        maxOutputTokens = .ok q →
      (1 + estimateMargin) * (count templateText + count q) + ollamaChatFramingTokens +
        maxOutputTokens ≤ client.window.size := by
  constructor
  · intro client server events s hr hcac hbound hfit
    cases hcost : memoized (client.templateCosts .default) (asked
        ((server s.cache.epoch).framed .default) ((server s.cache.epoch).framedFails .default))
        templateText with
    | error e =>
      simp [fitQueryToWindow, LlamaCppClient.sizing, LlamaCppClient.inputBudget, hcost, bind,
        Except.bind, Except.map] at hfit
    | ok cost =>
      have hbud : (client.sizing (server s.cache.epoch)).inputBudget templateText
          maxOutputTokens = .ok (.tokens (exactBudget client.window cost maxOutputTokens)) := by
        simp only [LlamaCppClient.sizing, LlamaCppClient.inputBudget, hcost, Except.map]
      obtain ⟨hpos, hle⟩ := le_budget_of_fits hbud rfl rfl le_rfl hbound hfit
      rw [hcac] at hcost
      have hcntd : s.cache.Counted fun epoch => (server epoch).framed .default :=
        counted_of_run hr
      have htem := of_memoized hcntd hcost
      exact htem ▸ exactBudget_fits hpos hle
  · intro client count fails events s hr hcac hbound hfit
    cases hcost : memoized client.templateCosts (asked count fun text => (fails text).map
        fun typeName => .llmCallFailure "ollama"
          s!"cannot size the prompt: the gpt2 token counter failed ({typeName})")
        templateText with
    | error e =>
      simp [fitQueryToWindow, OllamaClient.sizing, OllamaClient.inputBudget, hcost, bind,
        Except.bind, Except.map] at hfit
    | ok cost =>
      have hbud : (client.sizing count fails).inputBudget templateText maxOutputTokens =
          .ok (.tokens (estimatedBudget client.window cost maxOutputTokens)) := by
        simp only [OllamaClient.sizing, OllamaClient.inputBudget, hcost, Except.map]
      obtain ⟨hpos, hle⟩ := le_budget_of_fits hbud rfl rfl (Nat.zero_le 1) hbound hfit
      rw [hcac] at hcost
      have hcntd : s.cache.Counted fun _ => count := counted_of_run hr
      have htem := of_memoized hcntd hcost
      exact htem ▸ estimatedBudget_fits hpos hle

/-! ### A query that is cut -/

/-- `one two three`, as a query. -/
def oneTwoThree : Text := "one two three".toList.map Char.toNat

def characterServer : LlamaServer where
  plain := List.length
  plainFails := fun _ => none
  framed := fun _ text => text.length + 2
  framedFails := fun _ _ => none

def templateCounted : List (CostEvent ℕ) := [.asks 0 [0x41, 0x42, 0x43], .answered 0]

/-- The first word fits a window of twenty tokens, and the whole of it one of a hundred. -/
theorem fitQueryToWindow_fits_oneTwoThree :
    (∃ q client, fitQueryToWindow (fun _ => false) (LlamaCppClient.sizing client characterServer)
        [0x41, 0x42, 0x43] oneTwoThree "llama_cpp" 5 = .ok q ∧ q.length = 3 ∧
      characterServer.framed .default [0x41, 0x42, 0x43] + q.length +
        llamaCppJoinSlackTokens + 5 ≤ client.window.size) ∧
    ∃ q client, fitQueryToWindow (fun _ => false) (OllamaClient.sizing client List.length
        fun _ => none) [0x41, 0x42, 0x43] oneTwoThree "ollama" 10 = .ok q ∧ q = oneTwoThree ∧
      (1 + estimateMargin) * ((3 : ℕ) + (13 : ℕ)) + ollamaChatFramingTokens + (10 : ℤ) ≤
        client.window.size := by
  constructor
  · refine ⟨"one".toList.map Char.toNat, ⟨⟨20, .probed⟩, fun _ => ⟨[([0x41, 0x42, 0x43], 5)], 0⟩⟩,
      by decide +kernel, by decide, ?_⟩
    exact (fitQueryToWindow_fits (fun _ => false) [0x41, 0x42, 0x43] oneTwoThree
      ("one".toList.map Char.toNat) "llama_cpp" 5).1
      ⟨⟨20, .probed⟩, fun _ => ⟨[([0x41, 0x42, 0x43], 5)], 0⟩⟩
      (fun _ => characterServer) templateCounted ⟨⟨[([0x41, 0x42, 0x43], 5)], 0⟩, _⟩ rfl rfl
      (by decide +kernel)
      (by decide +kernel)
  · refine ⟨oneTwoThree, ⟨⟨100, .configured⟩, ⟨[([0x41, 0x42, 0x43], 3)], 0⟩⟩,
      by decide +kernel, rfl, ?_⟩
    exact (fitQueryToWindow_fits (fun _ => false) [0x41, 0x42, 0x43] oneTwoThree oneTwoThree
      "ollama" 10).2 ⟨⟨100, .configured⟩, ⟨[([0x41, 0x42, 0x43], 3)], 0⟩⟩ List.length
      (fun _ => none) templateCounted ⟨⟨[([0x41, 0x42, 0x43], 3)], 0⟩, _⟩ rfl rfl
      (by decide +kernel) (by decide +kernel)

end ArchonSearch.LlmClient
