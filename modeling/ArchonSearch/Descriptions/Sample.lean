import ArchonSearch.Descriptions.Programs
import ArchonSearch.Lib.Calls
import ArchonSearch.LlmClient.Window

/-!
# The sample of a description

`_draw_sample` reads excerpts of the chunks of a collection, spaced evenly over all of them. Where
the input of the model is bounded, the excerpts are counted, and as long as they cost too much
fewer are drawn, at other positions. A model that may think is left some of its room for that, at
first; if not even one excerpt fits beside it, the sample gets all of the room and the model none.

Every round draws fewer excerpts than the one before, so there is a last one. The excerpts that are
returned are drawn in order from all over the collection, and what they cost and what the model may
answer beyond `ANSWER_RESERVE_TOKENS` is within the budget (`drawSample_fits`).

What the store returns and what the model counts may be different in each round.
-/

namespace ArchonSearch.Descriptions.Generator

open Lib LlmClient List

/-! ### What is asked for -/

inductive ProviderError where
  /-- `LlmCallFailure`. -/
  | callFailure (provider reason : String)
  | other (typeName : String)

inductive ReadError where
  /-- `StoreReadError`, by the name of the type of its cause. -/
  | storeRead (cause : String)
  | other (typeName : String)

/-- `_GenerationStopped`. -/
structure GenerationStopped where
  /-- `failed.reason`. -/
  reason : DescriptionFailureReason
  /-- `failed.detail`. -/
  detail : String
  providerFailure : Bool := false
  /-- Whether it is a `_WindowTooSmall`. -/
  isWindowTooSmall : Bool := false
  deriving DecidableEq

inductive SampleError where
  /-- `_GenerationStopped`. -/
  | stopped : GenerationStopped → SampleError
  | other : (typeName : String) → SampleError
  deriving DecidableEq

structure Replies where
  /-- `read_excerpts`, of the ids of chunks. -/
  readExcerpts : List String → Except ReadError (List String)
  countTokens : String → Except ProviderError ℕ

structure Env where
  listChunkIds : Except ReadError (List String)
  inputBudget : Except ProviderError (Bounded ℕ)
  contextWindow : Bounded ContextWindowTokens
  /-- The client is a `TokenCountingClient`. -/
  countsTokens : Bool
  replies : ℕ → Replies
  think : Option Bool
  maxSampleChunks : ℕ
  /-- `max_sample_chunks` is at least 1. -/
  maxSampleChunks_pos : 0 < maxSampleChunks

/-- `ANSWER_RESERVE_TOKENS`. -/
def answerReserveTokens : ℕ := 1024

/-- `DESCRIPTION_THINKING_HEADROOM_TOKENS`. -/
def descriptionThinkingHeadroomTokens : ℕ := 3072

/-- `_SAMPLE_SEPARATOR`. -/
def sampleSeparator : String := "\n\n---\n\n"

/-- `thinking_possible`. -/
def Env.thinkingPossible (env : Env) : Bool := env.think != some false

/-! ### Errors -/

def providerStep : ProviderError → SampleError
  | .callFailure provider reason =>
    .stopped ⟨.callFailed, s!"{provider}: {reason}", true, false⟩
  | .other typeName => .stopped ⟨.callFailed, s!"unexpected {typeName}", true, false⟩

/-- `_read_failed`, of a `StoreReadError`; other exceptions pass. -/
def readFailed : ReadError → SampleError
  | .storeRead cause =>
    .stopped ⟨.sampleReadFailed, s!"the chunks could not be read from the store ({cause})", false,
      false⟩
  | .other typeName => .other typeName

/-- `_no_open_chunk`. -/
def noOpenChunk (detail : String) : SampleError :=
  .stopped ⟨.noUnrestrictedChunks, detail, false, false⟩

/-- `_window_too_small`. -/
def windowTooSmall (window : Bounded ContextWindowTokens) (budget : ℕ) : SampleError :=
  let room := if budget = 0 then "the prompt and one excerpt" else "one excerpt"
  .stopped ⟨.callFailed, s!"the model's context window ({describeWindow window}) leaves " ++
    s!"{budget} input tokens, too little for {room}", false, true⟩

def SampleError.IsWindowTooSmall : SampleError → Prop
  | .stopped s => s.isWindowTooSmall = true
  | .other _ => False

instance : DecidablePred SampleError.IsWindowTooSmall
  | .stopped s => inferInstanceAs (Decidable (s.isWindowTooSmall = true))
  | .other _ => inferInstanceAs (Decidable False)

/-! ### Positions -/

/-- `(2 * j + 1) * total // (2 * count)`. -/
def samplePosition (total count j : ℕ) : ℕ := (2 * j + 1) * total / (2 * count)

def samplePositions (total count : ℕ) : List ℕ :=
  (List.range count).map (samplePosition total count)

/-- `_evenly_spaced`. -/
def evenlySpaced (chunkIds : List String) (count : ℕ) : List String :=
  (samplePositions chunkIds.length count).map fun i => chunkIds.getD i ""

section Positions

variable {total count j : ℕ}

theorem samplePosition_lt (htot : 0 < total) (hj : j < count) :
    samplePosition total count j < total := by
  rw [samplePosition, Nat.div_lt_iff_lt_mul (by omega), mul_comm]
  exact mul_lt_mul_of_pos_left (by omega) htot

/-- The positions of two consecutive picks are apart. -/
theorem samplePosition_lt_succ (hcount : 0 < count) (hle : count ≤ total) (j : ℕ) :
    samplePosition total count j < samplePosition total count (j + 1) := by
  have hs : (2 * j + 1) * total + 2 * count ≤ (2 * (j + 1) + 1) * total := by
    have hdoub := Nat.mul_le_mul_left 2 hle
    calc (2 * j + 1) * total + 2 * count ≤ (2 * j + 1) * total + 2 * total := by omega
      _ = (2 * (j + 1) + 1) * total := by ring
  have hpos : 0 < 2 * count := by omega
  calc samplePosition total count j
      < (2 * j + 1) * total / (2 * count) + 1 := Nat.lt_succ_self _
    _ = ((2 * j + 1) * total + 2 * count) / (2 * count) := (Nat.add_div_right _ hpos).symm
    _ ≤ samplePosition total count (j + 1) := Nat.div_le_div_right hs

/-- **The positions of a sample are in order.** -/
theorem pairwise_samplePositions (hle : count ≤ total) :
    (samplePositions total count).Pairwise (· < ·) := by
  rcases Nat.eq_zero_or_pos count with rfl | hpos
  · exact List.Pairwise.nil
  · have hmono : StrictMono (samplePosition total count) :=
      strictMono_nat_of_lt_succ (samplePosition_lt_succ hpos hle)
    exact pairwise_map.mpr (pairwise_lt_range.imp fun h => hmono h)

/-- **The positions of a sample are inside the list.** -/
theorem lt_of_mem_samplePositions {i : ℕ} (htot : 0 < total)
    (hi : i ∈ samplePositions total count) : i < total := by
  obtain ⟨j, hj, rfl⟩ := mem_map.mp hi
  exact samplePosition_lt htot (mem_range.mp hj)

end Positions

/-! ### Drawing and counting -/

structure Draw where
  count : ℕ
  excerpts : List String
  cost : ℕ

/-- `_read`. -/
def readPicks (replies : Replies) (picks : List String) : Except SampleError (List String) :=
  match replies.readExcerpts picks with
  | .error e => .error (readFailed e)
  | .ok [] => .error (noOpenChunk "none of the sampled chunks could be read as unrestricted text")
  | .ok excerpts => .ok excerpts

/-- `max(1, min(count - 1, count * budget // cost))`. -/
def nextCount (count budget cost : ℕ) : ℕ := max 1 (min (count - 1) (count * budget / cost))

theorem nextCount_pos (count budget cost : ℕ) : 0 < nextCount count budget cost :=
  lt_of_lt_of_le Nat.one_pos (le_max_left _ _)

theorem nextCount_lt {count : ℕ} (hpos : 0 < count) (hne : count ≠ 1) (budget cost : ℕ) :
    nextCount count budget cost < count := by
  have hmin : min (count - 1) (count * budget / cost) ≤ count - 1 := min_le_left _ _
  unfold nextCount
  omega

/-- The loop of `_fit`, from the round on that comes next. -/
def fitLoop (env : Env) (chunkIds : List String) (budget count round : ℕ) (_ : 0 < count) :
    Calls Draw SampleError (List String) :=
  match readPicks (env.replies round) (evenlySpaced chunkIds count) with
  | .error e => ⟨.error e, []⟩
  | .ok excerpts =>
    match (env.replies round).countTokens (sampleSeparator.intercalate excerpts) with
    | .error e => ⟨.error (providerStep e), []⟩
    | .ok cost =>
      if cost ≤ budget then ⟨.ok excerpts, [⟨count, excerpts, cost⟩]⟩
      else if hone : count = 1 then
        ⟨.error (windowTooSmall env.contextWindow budget), [⟨count, excerpts, cost⟩]⟩
      else
        let rest := fitLoop env chunkIds budget (nextCount count budget cost) (round + 1)
          (nextCount_pos _ _ _)
        ⟨rest.result, ⟨count, excerpts, cost⟩ :: rest.made⟩
termination_by count
decreasing_by exact nextCount_lt ‹0 < count› hone _ _

/-- `_fit`. -/
def fit (env : Env) (chunkIds : List String) (budget count round : ℕ) (hcount : 0 < count) :
    Calls Draw SampleError (List String) :=
  if budget = 0 then ⟨.error (windowTooSmall env.contextWindow budget), []⟩
  else if !env.countsTokens then
    ⟨.error (.stopped ⟨.callFailed,
      "the client sizes its input to a budget but cannot count tokens", false, false⟩), []⟩
  else fitLoop env chunkIds budget count round hcount

def fitBounded (env : Env) (chunkIds : List String) (budget count : ℕ) (hcount : 0 < count) :
    Calls Draw SampleError (List String × ℕ) :=
  let whole (round : ℕ) :=
    let fitted := fit env chunkIds budget count round hcount
    (⟨fitted.result.map fun excerpts => (excerpts, answerReserveTokens), fitted.made⟩ :
      Calls Draw SampleError (List String × ℕ))
  if env.thinkingPossible then
    let headroom := min descriptionThinkingHeadroomTokens (budget / 2)
    let fitted := fit env chunkIds (budget - headroom) count 0 hcount
    match fitted.result with
    | .ok excerpts => ⟨.ok (excerpts, answerReserveTokens + headroom), fitted.made⟩
    | .error e =>
      if e.IsWindowTooSmall then
        -- not even one excerpt fits beside the headroom: a small window keeps the sample
        let again := whole fitted.made.length
        ⟨again.result, fitted.made ++ again.made⟩
      else ⟨.error e, fitted.made⟩
  else whole 0

/-- `_draw_sample`: the excerpts and the answer ceiling, and the draws that were counted. -/
def drawSample (env : Env) : Calls Draw SampleError (List String × ℕ) :=
  match env.listChunkIds with
  | .error e => ⟨.error (readFailed e), []⟩
  | .ok chunkIds =>
    if hne : chunkIds = [] then
      ⟨.error (noOpenChunk "no unrestricted chunks to describe; set a description by hand"), []⟩
    else
      let count := min env.maxSampleChunks chunkIds.length
      match env.inputBudget with
      | .error e => ⟨.error (providerStep e), []⟩
      | .ok .unbounded =>
        let headroom := if env.thinkingPossible then descriptionThinkingHeadroomTokens else 0
        ⟨(readPicks (env.replies 0) (evenlySpaced chunkIds count)).map fun excerpts =>
          (excerpts, answerReserveTokens + headroom), []⟩
      | .ok (.tokens budget) =>
        fitBounded env chunkIds budget count
          (lt_min env.maxSampleChunks_pos (length_pos_of_ne_nil hne))

/-! ### What was counted -/

section Counted

variable {env : Env} {chunkIds : List String} {budget count round : ℕ} {hcount : 0 < count}

theorem exists_of_map_eq_ok {ε α β : Type} {f : α → β} {r : Except ε α} {b : β}
    (h : r.map f = .ok b) : ∃ a, r = .ok a ∧ f a = b := by
  rcases r with e | a
  · cases h
  · exact ⟨a, rfl, Except.ok.inj h⟩

theorem eq_error_of_map {ε α β : Type} {f : α → β} {r : Except ε α} {e : ε}
    (h : r.map f = .error e) : r = .error e := by
  rcases r with e' | a
  · exact congrArg _ (Except.error.inj h)
  · cases h

variable {replies : Replies}

theorem readPicks_eq_ok {picks excerpts : List String}
    (h : readPicks replies picks = .ok excerpts) : replies.readExcerpts picks = .ok excerpts := by
  unfold readPicks at h
  split at h
  · cases h
  · cases h
  · next found _ hrd => exact hrd.trans (congrArg _ (Except.ok.inj h))

theorem not_isWindowTooSmall_readFailed (e : ReadError) : ¬(readFailed e).IsWindowTooSmall := by
  rcases e with cause | typeName
  · exact Bool.false_ne_true
  · exact id

theorem not_isWindowTooSmall_providerStep (e : ProviderError) :
    ¬(providerStep e).IsWindowTooSmall := by
  rcases e with ⟨provider, reason⟩ | typeName <;> exact Bool.false_ne_true

variable {e : SampleError}

theorem not_isWindowTooSmall_of_readPicks {picks : List String}
    (h : readPicks replies picks = .error e) : ¬e.IsWindowTooSmall := by
  unfold readPicks at h
  split at h
  · rw [← Except.error.inj h]
    exact not_isWindowTooSmall_readFailed _
  · rw [← Except.error.inj h]
    exact Bool.false_ne_true
  · cases h

/-- **These draws were made**, in the rounds from this one on, each of at most so many chunks. -/
def Made (env : Env) (chunkIds : List String) (count round : ℕ) (draws : List Draw) : Prop :=
  ∀ i draw, draws[i]? = some draw → 0 < draw.count ∧ draw.count ≤ count ∧
    (env.replies (round + i)).readExcerpts (evenlySpaced chunkIds draw.count) = .ok draw.excerpts ∧
    (env.replies (round + i)).countTokens (sampleSeparator.intercalate draw.excerpts) =
      .ok draw.cost

theorem made_nil : Made env chunkIds count round [] := fun i draw h => by simp at h

theorem Made.cons {draw : Draw} {draws : List Draw} {count' : ℕ} (hle : count' ≤ count)
    (hpos : 0 < draw.count) (hdraw : draw.count ≤ count)
    (hrd : (env.replies round).readExcerpts (evenlySpaced chunkIds draw.count) = .ok draw.excerpts)
    (hcost : (env.replies round).countTokens (sampleSeparator.intercalate draw.excerpts) =
      .ok draw.cost)
    (h : Made env chunkIds count' (round + 1) draws) :
    Made env chunkIds count round (draw :: draws) := by
  intro i d hi
  rcases i with - | i
  · obtain rfl : draw = d := by simpa using hi
    exact ⟨hpos, hdraw, hrd, hcost⟩
  · obtain ⟨hdpos, hdle, hdread, hdcost⟩ := h i d (by simpa using hi)
    rw [show round + 1 + i = round + (i + 1) by omega] at hdread hdcost
    exact ⟨hdpos, hdle.trans hle, hdread, hdcost⟩

theorem Made.append {draws draws' : List Draw} (h : Made env chunkIds count round draws)
    (h' : Made env chunkIds count (round + draws.length) draws') :
    Made env chunkIds count round (draws ++ draws') := by
  intro i d hi
  rcases lt_or_ge i draws.length with hlt | hge
  · exact h i d (by rwa [getElem?_append_left hlt] at hi)
  · have hd := h' (i - draws.length) d (by rwa [getElem?_append_right hge] at hi)
    rwa [show round + draws.length + (i - draws.length) = round + i by omega] at hd

/-- **What a search for a fitting sample has come to.** -/
structure Searched (env : Env) (chunkIds : List String) (budget count round : ℕ)
    (run : Calls Draw SampleError (List String)) : Prop where
  made : Made env chunkIds count round run.made
  length_le : run.made.length ≤ count
  ok : ∀ excerpts, run.result = .ok excerpts →
    ∃ draw ∈ run.made, draw.excerpts = excerpts ∧ draw.cost ≤ budget
  tooSmall : ∀ e, run.result = .error e → e.IsWindowTooSmall →
    budget = 0 ∨ ∃ draw ∈ run.made, draw.count = 1 ∧ budget < draw.cost

theorem searched_of_error (he : ¬e.IsWindowTooSmall) :
    Searched env chunkIds budget count round ⟨.error e, []⟩ where
  made := made_nil
  length_le := Nat.zero_le _
  ok := fun _ h => by cases h
  tooSmall := fun _ h hsmall => absurd (Except.error.inj h ▸ hsmall) he

/-- **A round of the search**, and then the rest: the rounds get smaller. -/
theorem searched_fitLoop (env : Env) (chunkIds : List String) (budget count round : ℕ)
    (hcount : 0 < count) :
    Searched env chunkIds budget count round (fitLoop env chunkIds budget count round hcount) := by
  induction count using Nat.strong_induction_on generalizing round with
  | _ count ih =>
    rw [fitLoop]
    split
    · next e hrd => exact searched_of_error (not_isWindowTooSmall_of_readPicks hrd)
    next excerpts hrd =>
    split
    · next e hcost => exact searched_of_error (not_isWindowTooSmall_providerStep e)
    next cost hcost =>
    have hmade {draws : List Draw} {count' : ℕ} (hle : count' ≤ count)
        (h : Made env chunkIds count' (round + 1) draws) :
        Made env chunkIds count round (⟨count, excerpts, cost⟩ :: draws) :=
      .cons hle hcount le_rfl (readPicks_eq_ok hrd) hcost h
    split_ifs with hfits hone
    · refine ⟨hmade le_rfl made_nil, hcount, fun found hfnd => ?_, (fun e he _ => by cases he)⟩
      exact ⟨_, mem_singleton.mpr rfl, Except.ok.inj hfnd, hfits⟩
    · refine ⟨hmade le_rfl made_nil, hcount, (fun found hfnd => by cases hfnd), ?_⟩
      exact fun e _ _ => Or.inr ⟨_, mem_singleton.mpr rfl, hone, not_le.mp hfits⟩
    · have hlt := nextCount_lt hcount hone budget cost
      obtain ⟨hrs, hlen, hok, hsmall⟩ := ih _ hlt (round + 1) (nextCount_pos _ _ _)
      refine ⟨hmade hlt.le hrs, ?_, fun found hfnd => ?_, fun e he hwin => ?_⟩
      · exact (Nat.succ_le_succ hlen).trans hlt
      · obtain ⟨draw, hdraw, hexc, hle⟩ := hok found hfnd
        exact ⟨draw, mem_cons_of_mem _ hdraw, hexc, hle⟩
      · rcases hsmall e he hwin with hz | ⟨draw, hdraw, hsin, hover⟩
        · exact Or.inl hz
        · exact Or.inr ⟨draw, mem_cons_of_mem _ hdraw, hsin, hover⟩

theorem searched_fit (env : Env) (chunkIds : List String) (budget count round : ℕ)
    (hcount : 0 < count) :
    Searched env chunkIds budget count round (fit env chunkIds budget count round hcount) := by
  unfold fit
  split_ifs with hz hcnts
  · exact ⟨made_nil, Nat.zero_le _, (fun _ h => by cases h), fun _ _ _ => Or.inl hz⟩
  · exact searched_of_error Bool.false_ne_true
  · exact searched_fitLoop env chunkIds budget count round hcount

end Counted

/-! ### What is drawn -/

section Drawn

variable {env : Env} {chunkIds : List String} {budget count : ℕ} {hcount : 0 < count}

/-- **What drawing a sample within a budget has come to.** -/
structure Drawn (env : Env) (chunkIds : List String) (budget count : ℕ)
    (run : Calls Draw SampleError (List String × ℕ)) : Prop where
  made : Made env chunkIds count 0 run.made
  length_le : run.made.length ≤ 2 * count
  ok : ∀ excerpts ceiling, run.result = .ok (excerpts, ceiling) →
    ∃ draw ∈ run.made, draw.excerpts = excerpts ∧ answerReserveTokens ≤ ceiling ∧
      draw.cost + (ceiling - answerReserveTokens) ≤ budget
  tooSmall : ∀ e, run.result = .error e → e.IsWindowTooSmall →
    budget = 0 ∨ ∃ draw ∈ run.made, draw.count = 1 ∧ budget < draw.cost

/-- A search in all of the budget, after some draws. -/
theorem drawn_whole {draws : List Draw} {fitted : Calls Draw SampleError (List String)}
    (hdraws : Made env chunkIds count 0 draws) (hlen : draws.length ≤ count)
    (h : Searched env chunkIds budget count draws.length fitted) :
    Drawn env chunkIds budget count
      ⟨fitted.result.map fun excerpts => (excerpts, answerReserveTokens), draws ++ fitted.made⟩
    where
  made := hdraws.append (by rw [Nat.zero_add]; exact h.made)
  length_le := by
    have hle := h.length_le
    rw [length_append]
    omega
  ok excerpts ceiling hok := by
    obtain ⟨found, hfnd, hpr⟩ := exists_of_map_eq_ok hok
    obtain ⟨rfl, rfl⟩ := Prod.mk.inj hpr
    obtain ⟨draw, hdraw, hexc, hle⟩ := h.ok found hfnd
    exact ⟨draw, mem_append_right _ hdraw, hexc, le_rfl, by omega⟩
  tooSmall e he hsmall := by
    rcases h.tooSmall e (eq_error_of_map he) hsmall with
      hz | ⟨draw, hdraw, hone, hover⟩
    · exact Or.inl hz
    · exact Or.inr ⟨draw, mem_append_right _ hdraw, hone, hover⟩

theorem drawn_fitBounded (env : Env) (chunkIds : List String) (budget count : ℕ)
    (hcount : 0 < count) :
    Drawn env chunkIds budget count (fitBounded env chunkIds budget count hcount) := by
  unfold fitBounded
  dsimp only
  split_ifs
  · set headroom := min descriptionThinkingHeadroomTokens (budget / 2) with hhead
    have hhalf : headroom ≤ budget / 2 := min_le_right _ _
    have hfst := searched_fit env chunkIds (budget - headroom) count 0 hcount
    split
    · next excerpts hok =>
      refine ⟨hfst.made, ?_, fun found ceiling hfnd => ?_, (fun e he _ => by cases he)⟩
      · exact hfst.length_le.trans (by omega)
      · cases hfnd
        obtain ⟨draw, hdraw, hexc, hle⟩ := hfst.ok excerpts hok
        exact ⟨draw, hdraw, hexc, Nat.le_add_right _ _, by omega⟩
    · next e he =>
      split_ifs with hsmall
      · exact drawn_whole hfst.made hfst.length_le (searched_fit env chunkIds budget count _ _)
      · refine ⟨hfst.made, hfst.length_le.trans (by omega), (fun _ _ h => by cases h), ?_⟩
        exact fun e' he' hsmall' => absurd (Except.error.inj he' ▸ hsmall') hsmall
  · exact drawn_whole made_nil (Nat.zero_le _) (searched_fit env chunkIds budget count 0 hcount)

/-- **Excerpts are drawn in order**, at these positions of the list and in this round. -/
structure InOrder (env : Env) (chunkIds : List String) (positions : List ℕ) (round : ℕ)
    (excerpts : List String) : Prop where
  ne_nil : positions ≠ []
  increasing : positions.Pairwise (· < ·)
  inside : ∀ i ∈ positions, i < chunkIds.length
  read : (env.replies round).readExcerpts (positions.map fun i => chunkIds.getD i "") = .ok excerpts

theorem inOrder_samplePositions {round : ℕ} {excerpts : List String} (hcount : 0 < count)
    (hle : count ≤ chunkIds.length)
    (hrd : (env.replies round).readExcerpts (evenlySpaced chunkIds count) = .ok excerpts) :
    InOrder env chunkIds (samplePositions chunkIds.length count) round excerpts where
  ne_nil := fun h => by simp [samplePositions, hcount.ne'] at h
  increasing := pairwise_samplePositions hle
  inside := fun _ hi => lt_of_mem_samplePositions (hcount.trans_le hle) hi
  read := hrd

/-- **A sample is drawn in order and fits.** -/
structure SampleFits (env : Env) (chunkIds : List String) (budget : Bounded ℕ)
    (run : Calls Draw SampleError (List String × ℕ)) : Prop where
  length_le : run.made.length ≤ 2 * min env.maxSampleChunks chunkIds.length
  made : Made env chunkIds (min env.maxSampleChunks chunkIds.length) 0 run.made
  /-- The excerpts are drawn in order; with a budget, what they were counted at and what may be
  answered beyond the reserve are within it together. -/
  fits : ∀ excerpts ceiling, run.result = .ok (excerpts, ceiling) →
    ∃ positions round, InOrder env chunkIds positions round excerpts ∧
      answerReserveTokens ≤ ceiling ∧
      ∀ tokens, budget = .tokens tokens →
        ∃ cost, run.made[round]? = some ⟨positions.length, excerpts, cost⟩ ∧
          cost + (ceiling - answerReserveTokens) ≤ tokens
  tooSmall : ∀ e, run.result = .error e → e.IsWindowTooSmall →
    ∃ tokens, budget = .tokens tokens ∧
      (tokens = 0 ∨ ∃ draw ∈ run.made, draw.count = 1 ∧ tokens < draw.cost)

/-- **`_draw_sample` draws a sample that fits**, of any chunks and with any counter. -/
theorem drawSample_fits (env : Env) {chunkIds : List String} {budget : Bounded ℕ}
    (hids : env.listChunkIds = .ok chunkIds) (hne : chunkIds ≠ [])
    (hbudget : env.inputBudget = .ok budget) :
    SampleFits env chunkIds budget (drawSample env) := by
  have hpos : 0 < min env.maxSampleChunks chunkIds.length :=
    lt_min env.maxSampleChunks_pos (length_pos_of_ne_nil hne)
  have hle : min env.maxSampleChunks chunkIds.length ≤ chunkIds.length := min_le_right _ _
  unfold drawSample
  rw [hids]
  simp only [dif_neg hne, hbudget]
  rcases budget with - | tokens
  · refine ⟨Nat.zero_le _, made_nil, fun excerpts ceiling hok => ?_, fun e he hsmall => ?_⟩
    · obtain ⟨found, hfnd, hpr⟩ := exists_of_map_eq_ok hok
      cases hpr
      refine ⟨_, 0, inOrder_samplePositions hpos hle (readPicks_eq_ok hfnd),
        Nat.le_add_right _ _, fun tokens htok => ?_⟩
      cases htok
    · exact absurd hsmall (not_isWindowTooSmall_of_readPicks (eq_error_of_map he))
  · have hdrawn := drawn_fitBounded env chunkIds tokens _ hpos
    refine ⟨hdrawn.length_le, hdrawn.made, fun excerpts ceiling hok => ?_, fun e he hsmall => ?_⟩
    · obtain ⟨draw, hdraw, rfl, hres, hfits⟩ := hdrawn.ok excerpts ceiling hok
      obtain ⟨round, hround⟩ := mem_iff_getElem?.mp hdraw
      obtain ⟨hdpos, hdle, hrd, -⟩ := hdrawn.made round draw hround
      rw [Nat.zero_add] at hrd
      refine ⟨_, round, inOrder_samplePositions hdpos (hdle.trans hle) hrd, hres,
        fun tokens' htok => ⟨draw.cost, ?_, ?_⟩⟩
      · rw [hround, samplePositions, length_map, length_range]
      · cases htok
        exact hfits
    · exact ⟨tokens, rfl, hdrawn.tooSmall e he hsmall⟩

def plainEnv (excerptTokens budget : ℕ) (think : Option Bool) : Env where
  listChunkIds := .ok ["a", "b", "c", "d", "e", "f"]
  inputBudget := .ok (.tokens budget)
  contextWindow := .tokens ⟨8192, .configured⟩
  countsTokens := true
  replies _ := {
    readExcerpts := .ok
    countTokens := fun text => .ok (excerptTokens * (text.splitOn sampleSeparator).length) }
  think := think
  maxSampleChunks := 4
  maxSampleChunks_pos := by decide

/-- A model that may think gets half of a budget of 1000 tokens for that, and two excerpts of 200
tokens the other half. -/
theorem drawSample_fits_plainEnv :
    SampleFits (plainEnv 200 1000 none) ["a", "b", "c", "d", "e", "f"] (.tokens 1000)
      (drawSample (plainEnv 200 1000 none)) :=
  drawSample_fits (plainEnv 200 1000 none) rfl (by decide) rfl

end Drawn

end ArchonSearch.Descriptions.Generator
