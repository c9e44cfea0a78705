import ArchonSearch.LlmClient.Budget
import ArchonSearch.Py.Str

/-!
# Fitting a text to a budget

`fit_text_to_budget` keeps a head of a text that the count of its caller says fits. The first
candidate is the whole text, as far as it can matter; the next ones close in on the budget from
both sides, by the line through the last two counts, and each is cut before a space or, where there
is none in reach, at a place where no character is split. A text that is returned has been counted,
and within the budget (`fitTextToBudget_fits`); whatever the costs are, the search ends after a few
counts and never looks outside of the text (`fitTextToBudget_counts`).

`fit_query_to_window` is the whole sizing of a query: it asks for the budget of the template, and
returns a query whose bound is within the budget without a count. Any query it returns is within
the budget (`fitQueryToWindow_cases`).

What the Unicode tables say of a character – that it is a mark – is a parameter.
-/

namespace ArchonSearch.LlmClient

open Py

/-! ### Characters -/

/-- `str.isspace` of a code point. -/
def isSpaceCode (c : ℕ) : Bool := isSpace (Char.ofNat c)

def within (first last c : ℕ) : Bool := decide (first ≤ c) && decide (c ≤ last)

/-- `_is_regional_indicator`. -/
def isRegionalIndicator : ℕ → Bool := within 0x1f1e6 0x1f1ff

/-- `_FLAG_RUN_LOOKBACK_CHARS`. -/
def flagRunLookbackChars : ℕ := 64

/-- `_regional_indicators_before`. -/
def regionalIndicatorsBefore (text : Text) (index : ℕ) : ℕ :=
  (((text.take index).reverse.take flagRunLookbackChars).takeWhile isRegionalIndicator).length

/-- `character in _JOINERS`. -/
def isJoiner : ℕ → Bool := within 0x200c 0x200d

/-- `_is_cluster_boundary`, which is none where the text is indexed outside of it. -/
def isClusterBoundary (isMark : ℕ → Bool) (text : Text) (index : ℕ) : Option Bool := do
  let before ← text[index - 1]?
  let after ← text[index]?
  if within 0xd800 0xdbff before && within 0xdc00 0xdfff after then some false
  else if isJoiner before || isJoiner after || isMark after then some false
  else if within 0x1f3fb 0x1f3ff after || within 0xe0020 0xe007f after then some false
  else if isRegionalIndicator after && isRegionalIndicator before then
    some (regionalIndicatorsBefore text index % 2 == 0)
  else some true

/-! ### Heads -/

/-- The first index downwards at which the test succeeds, among so many; none where the text is
indexed outside of it. -/
def searchBack (test : ℕ → Option Bool) : ℕ → ℕ → Option (Option ℕ)
  | 0, _ => some none
  | steps + 1, index => do
    if ← test index then some (some index) else searchBack test steps (index - 1)

/-- `_WORD_LOOKBACK_CHARS`. -/
def wordLookbackChars : ℤ := 64

/-- `_CLUSTER_LOOKBACK_CHARS`. -/
def clusterLookbackChars : ℤ := 32

/-- `_cut_index`. -/
def cutIndex (isMark : ℕ → Bool) (text : Text) (position : ℤ) : Option ℤ := do
  let space ← searchBack (fun index => text[index]?.map isSpaceCode)
    (min position wordLookbackChars).toNat position.toNat
  match space with
  | some index => some index
  | none =>
    let boundary ← searchBack (isClusterBoundary isMark text)
      (min position clusterLookbackChars).toNat position.toNat
    some (boundary.elim position Nat.cast)

/-- `text[:stop]`. -/
def sliceTo (text : Text) (stop : ℤ) : Text :=
  text.take (if stop < 0 then text.length + stop else stop).toNat

/-- `_head`. -/
def head (isMark : ℕ → Bool) (text : Text) (position : ℤ) : Option Text :=
  if text.length ≤ position then some text
  else (cutIndex isMark text position).map fun index =>
    (sliceTo text index).rdropWhile isSpaceCode

/-! ### The search for a head -/

inductive FitFailure where
  | noRoomForInput (detail : String)
  | llmCallFailure (provider reason : String)
  | indexError
  deriving DecidableEq

/-- `MAX_FIT_COUNTS`. -/
def maxFitCounts : ℕ := 10

/-- `MAX_CHARS_PER_TOKEN`. -/
def maxCharsPerToken : ℤ := 16

/-- `_TARGET_FILL_PERCENT`. -/
def targetFillPercent : ℤ := 97

/-- `_ACCEPTED_FILL_PERCENT`. -/
def acceptedFillPercent : ℤ := 90

/-- `_PERCENT`. -/
def percent : ℤ := 100

/-- `_BRACKET_MARGIN_DIVISOR`. -/
def bracketMarginDivisor : ℤ := 8

/-- `_estimate_length`. -/
def estimateLength (length cost : ℤ) (previous : Option (ℤ × ℤ)) (target : ℤ) : ℤ :=
  let proportional := (length * target).fdiv (max cost 1)
  match previous with
  | none => proportional
  | some (previousLength, previousCost) =>
    if 0 < (length - previousLength) * (cost - previousCost) then
      length + ((target - cost) * (length - previousLength)).fdiv (cost - previousCost)
    else proportional

structure Bracket where
  best : Text
  ceiling : ℤ
  previous : Option (ℤ × ℤ)
  position : ℤ

def Bracket.next (b : Bracket) (budget : ℤ) (candidate : Text) (cost : ℕ) : Bracket :=
  let best := if cost ≤ budget then candidate else b.best
  let ceiling := if cost ≤ budget then b.ceiling else candidate.length
  let estimate := estimateLength candidate.length cost b.previous
    ((budget * targetFillPercent).fdiv percent)
  let margin := (ceiling - best.length).fdiv bracketMarginDivisor
  { best := best
    ceiling := ceiling
    previous := some (candidate.length, cost)
    position := min (max estimate (best.length + margin)) (ceiling - 1 - margin) }

/-- The loop of `fit_text_to_budget`, with so many counts left. -/
def fitLoop (isMark : ℕ → Bool) (text : Text) (budget reach : ℤ)
    (count : Text → Except FitFailure ℕ) : ℕ → Bracket → Except FitFailure Text
  | 0, b => .ok b.best
  | counts + 1, b =>
    match head isMark text b.position with
    | none => .error .indexError
    | some candidate =>
      if candidate.length ≤ b.best.length then .ok b.best
      else do
        let cost ← count candidate
        if cost ≤ budget ∧ (reach ≤ b.position ∨ budget * acceptedFillPercent ≤ cost * percent) then
          .ok candidate
        else fitLoop isMark text budget reach count counts (b.next budget candidate cost)

/-- `fit_text_to_budget`. -/
def fitTextToBudget (isMark : ℕ → Bool) (text : Text) (budget : Bounded ℤ)
    (count : Text → Except FitFailure ℕ) : Except FitFailure Text :=
  match budget with
  | .unbounded => .ok text
  | .tokens budget =>
    if text = [] then .ok text
    else if budget ≤ 0 then .ok []
    else
      let reach := min (text.length : ℤ) (budget * maxCharsPerToken)
      fitLoop isMark text budget reach count maxFitCounts
        { best := [], ceiling := reach + 1, previous := none, position := reach }

variable {count : Text → Except FitFailure ℕ} {isMark : ℕ → Bool}

/-- A head that the loop returns was there before it, or is counted and within the budget. -/
theorem fitLoop_fits {text : Text} {budget reach : ℤ} {fitted : Text} {counts : ℕ} {b : Bracket}
    (h : fitLoop isMark text budget reach count counts b = .ok fitted) :
    fitted = b.best ∨ ∃ cost, count fitted = .ok cost ∧ cost ≤ budget := by
  induction counts generalizing b with
  | zero => exact Or.inl (Except.ok.inj h).symm
  | succ counts ih =>
    rw [fitLoop] at h
    split at h
    · cases h
    rename_i candidate hhead
    split_ifs at h with hshort
    · exact Or.inl (Except.ok.inj h).symm
    cases hcnt : count candidate with
    | error e =>
      rw [hcnt] at h
      cases h
    | ok cost =>
      simp only [hcnt, bind, Except.bind] at h
      split_ifs at h with hg
      · cases h
        exact Or.inr ⟨cost, hcnt, hg.1⟩
      · rcases ih h with hbest | hcntd
        · simp only [Bracket.next] at hbest
          split_ifs at hbest with hcost
          · exact Or.inr ⟨cost, hbest ▸ hcnt, hcost⟩
          · exact Or.inl hbest
        · exact Or.inr hcntd

/-- **A text that is returned is empty, or counted and within the budget.** -/
theorem fitTextToBudget_fits {text fitted : Text} {budget : ℤ}
    (h : fitTextToBudget isMark text (.tokens budget) count = .ok fitted) :
    fitted = [] ∨ ∃ cost, count fitted = .ok cost ∧ cost ≤ budget := by
  simp only [fitTextToBudget] at h
  split_ifs at h with hemp hnot
  · exact Or.inl ((Except.ok.inj h).symm.trans hemp)
  · exact Or.inl (Except.ok.inj h).symm
  · exact fitLoop_fits h

/-! ### Every text is fitted -/

theorem searchBack_eq_some {test : ℕ → Option Bool} {index : ℕ}
    (h : ∀ i ≤ index, (test i).isSome = true) (steps : ℕ) :
    ∃ found, searchBack test steps index = some found ∧ ∀ i ∈ found, i ≤ index := by
  induction steps generalizing index with
  | zero => exact ⟨none, rfl, nofun⟩
  | succ steps ih =>
    obtain ⟨found, hfnd, hle⟩ := ih fun i hi => h i (hi.trans (Nat.sub_le index 1))
    obtain ⟨good, hg⟩ := Option.isSome_iff_exists.mp (h index le_rfl)
    cases good with
    | true =>
      refine ⟨some index, by simp [searchBack, hg], fun i hi => ?_⟩
      exact (Option.mem_some_iff.mp hi).ge
    | false =>
      refine ⟨found, by simp [searchBack, hg, hfnd], fun i hi => ?_⟩
      exact (hle i hi).trans (Nat.sub_le index 1)

variable {text : Text}

variable (isMark) in
theorem isSome_isClusterBoundary {index : ℕ} (h : index < text.length) :
    (isClusterBoundary isMark text index).isSome = true := by
  have hbef : index - 1 < text.length := by omega
  simp only [isClusterBoundary, List.getElem?_eq_getElem h, List.getElem?_eq_getElem hbef,
    Option.bind_eq_bind, Option.bind_some]
  split_ifs <;> rfl

variable (isMark) in
/-- A cut is made within the text, and not after the position. -/
theorem cutIndex_eq_some {position : ℕ} (h : position < text.length) :
    ∃ index : ℕ, cutIndex isMark text position = some ↑index ∧ index ≤ position := by
  have htx (i : ℕ) (hi : i ≤ position) : (text[i]?.map isSpaceCode).isSome = true := by
    simp [List.getElem?_eq_getElem (hi.trans_lt h)]
  obtain ⟨space, hspace, hle⟩ := searchBack_eq_some htx (min (position : ℤ) wordLookbackChars).toNat
  obtain ⟨boundary, hboun, hle'⟩ := searchBack_eq_some
    (fun i (hi : i ≤ position) => isSome_isClusterBoundary isMark (hi.trans_lt h))
    (min (position : ℤ) clusterLookbackChars).toNat
  simp only [cutIndex, Int.toNat_natCast, hspace, hboun, Option.bind_eq_bind, Option.bind_some]
  cases space with
  | some index => exact ⟨index, rfl, hle index rfl⟩
  | none =>
    cases boundary with
    | some index => exact ⟨index, rfl, hle' index rfl⟩
    | none => exact ⟨position, rfl, le_rfl⟩

variable (isMark text) in
theorem head_eq_some {position : ℤ} (h : 0 ≤ position) :
    ∃ candidate, head isMark text position = some candidate ∧ candidate <+: text ∧
      candidate.length ≤ position ∧ (text.length ≤ position → candidate = text) := by
  obtain ⟨position, rfl⟩ := Int.eq_ofNat_of_zero_le h
  by_cases hwh : (text.length : ℤ) ≤ position
  · exact ⟨text, if_pos hwh, List.prefix_rfl, hwh, fun _ => rfl⟩
  · obtain ⟨index, hind, hle⟩ :=
      cutIndex_eq_some isMark (Int.ofNat_lt.mp (Int.lt_of_not_ge hwh))
    have hslice : sliceTo text index = text.take index := by
      rw [sliceTo, if_neg (by omega), Int.toNat_natCast]
    have hcut := List.rdropWhile_prefix isSpaceCode (text.take index)
    refine ⟨_, by rw [head, if_neg hwh, hind, Option.map_some, hslice],
      hcut.trans ( List.take_prefix index text), ?_, fun hle => absurd hle hwh⟩
    have hlen := hcut.length_le.trans (List.length_take_le index text)
    omega

/-- The texts that are counted are `made`, in this order: the result depends on their counts alone,
and the first of them that fails ends it. -/
def Counts (fit : (Text → Except FitFailure ℕ) → Except FitFailure Text) (cost : Text → ℕ)
    (made : List Text) (fitted : Text) : Prop :=
  (∀ count, (∀ t ∈ made, count t = .ok (cost t)) → fit count = .ok fitted) ∧
    ∀ count before t after e, made = before ++ t :: after →
      (∀ t ∈ before, count t = .ok (cost t)) → count t = .error e → fit count = .error e

theorem Counts.nil {fit : (Text → Except FitFailure ℕ) → Except FitFailure Text}
    {cost : Text → ℕ} {fitted : Text} (h : ∀ count, fit count = .ok fitted) :
    Counts fit cost [] fitted := by
  refine ⟨fun count _ => h count, fun count before t after e hmade => ?_⟩
  cases before <;> cases hmade

theorem Counts.cons {fit : ℕ → (Text → Except FitFailure ℕ) → Except FitFailure Text}
    {cost : Text → ℕ} {t : Text} {made : List Text} {fitted : Text}
    (h : Counts (fit (cost t)) cost made fitted) :
    Counts (fun count => count t >>= fun n => fit n count) cost (t :: made) fitted := by
  refine ⟨fun count hcnt => ?_, fun count before t' after e hmade hbef hfa => ?_⟩
  · show (count t >>= fun n => fit n count) = _
    rw [hcnt t List.mem_cons_self]
    exact h.1 count fun t ht => hcnt t (List.mem_cons_of_mem _ ht)
  show (count t >>= fun n => fit n count) = _
  cases before with
  | nil =>
    cases hmade
    rw [hfa]
    rfl
  | cons t before =>
    cases hmade
    rw [hbef t List.mem_cons_self]
    exact h.2 count before t' after e rfl (fun t ht => hbef t (List.mem_cons_of_mem _ ht)) hfa

/-- What a bracket keeps: its head has been found to fit, and is shorter than its ceiling. -/
structure Bracket.Inv (text : Text) (reach : ℤ) (b : Bracket) : Prop where
  prefix_text : b.best <+: text
  lt_ceiling : b.best.length < b.ceiling
  ceiling_le : b.ceiling ≤ reach + 1
  nonneg : 0 ≤ b.position
  lt : b.position < b.ceiling

theorem Bracket.Inv.next {candidate : Text} {reach : ℤ} {b : Bracket} (h : b.Inv text reach)
    (budget : ℤ) (cost : ℕ) (hpre : candidate <+: text)
    (hlen : candidate.length ≤ b.position) (hlon : b.best.length < candidate.length) :
    (b.next budget candidate cost).Inv text reach := by
  obtain ⟨hbest, hceil, hreach, hnon, hlt⟩ := h
  have hmar (x : ℤ) : x.fdiv 8 = x / 8 := Int.fdiv_eq_ediv_of_nonneg x (by omega)
  have hopen : (if cost ≤ budget then candidate else b.best).length <
      (if cost ≤ budget then b.ceiling else (candidate.length : ℤ)) := by
    split_ifs <;> omega
  refine ⟨?_, hopen, ?_, ?_, ?_⟩ <;> simp only [Bracket.next, bracketMarginDivisor, hmar]
  · split_ifs
    · exact hpre
    · exact hbest
  · split_ifs <;> omega
  -- a margin is smaller than the open interval, so the next position is in it
  · omega
  · omega

variable (isMark) (budget : ℤ) (cost : Text → ℕ)

/-- The loop from a bracket returns its head, or a text that it counts. -/
theorem fitLoop_counts {reach : ℤ} (counts : ℕ) {b : Bracket} (h : b.Inv text reach) :
    ∃ made fitted, made.length ≤ counts ∧
      Counts (fun count => fitLoop isMark text budget reach count counts b) cost made fitted ∧
      fitted <+: text ∧ fitted.length ≤ reach ∧
      (fitted = b.best ∨ fitted ∈ made ∧ cost fitted ≤ budget) := by
  have hbest : b.best.length ≤ reach := Int.le_of_lt_add_one (h.lt_ceiling.trans_le h.ceiling_le)
  induction counts generalizing b with
  | zero => exact ⟨[], b.best, le_rfl, .nil fun _ => rfl, h.prefix_text, hbest, Or.inl rfl⟩
  | succ counts ih =>
    obtain ⟨candidate, hhead, hpre, hlen, -⟩ := head_eq_some isMark text h.nonneg
    have hreach : candidate.length ≤ reach :=
      hlen.trans (Int.le_of_lt_add_one (h.lt.trans_le h.ceiling_le))
    simp only [fitLoop, hhead]
    by_cases hshort : candidate.length ≤ b.best.length
    · simp only [if_pos hshort]
      exact ⟨[], b.best, Nat.zero_le _, .nil fun _ => rfl, h.prefix_text, hbest, Or.inl rfl⟩
    simp only [if_neg hshort]
    by_cases hg : cost candidate ≤ budget ∧
        (reach ≤ b.position ∨ budget * acceptedFillPercent ≤ cost candidate * percent)
    · exact ⟨[candidate], candidate, by simp, .cons (.nil fun count => if_pos hg), hpre,
        hreach, Or.inr ⟨by simp, hg.1⟩⟩
    have hx := h.next budget (cost candidate) hpre hlen (not_le.mp hshort)
    obtain ⟨made, fitted, hmade, hcnts, hfit, hle, hfrom⟩ := ih hx
      (Int.le_of_lt_add_one (hx.lt_ceiling.trans_le hx.ceiling_le))
    refine ⟨candidate :: made, fitted, by simpa using hmade, .cons ?_, hfit, hle, ?_⟩
    · simpa only [if_neg hg] using hcnts
    · rcases hfrom with rfl | ⟨hm, hcost⟩
      · simp only [Bracket.next]
        split_ifs with hcost
        · exact Or.inr ⟨List.mem_cons_self, hcost⟩
        · exact Or.inl rfl
      · exact Or.inr ⟨List.mem_cons_of_mem _ hm, hcost⟩

variable {isMark budget cost} in
/-- A text within reach that fits is returned at once. -/
theorem fitLoop_of_fits {b : Bracket} {counts : ℕ} (hpos : text.length ≤ b.position)
    (hlon : b.best.length < text.length) (hcost : cost text ≤ budget) :
    fitLoop isMark text budget text.length (fun t => .ok (cost t)) (counts + 1) b = .ok text := by
  simp only [fitLoop, head, if_pos hpos, if_neg (not_le.mpr hlon)]
  exact if_pos ⟨hcost, Or.inl hpos⟩

/-- **Every text is fitted**, with a bounded number of counts: what is returned is a prefix, no
longer than the budget allows for, which is empty or was counted and fits; and it is the text
itself if the text is no longer and fits. -/
theorem fitTextToBudget_counts (text : Text) :
    ∃ made fitted, made.length ≤ maxFitCounts ∧
      Counts (fitTextToBudget isMark text (.tokens budget)) cost made fitted ∧
      fitted <+: text ∧ fitted.length ≤ max budget 0 * maxCharsPerToken ∧
      (fitted = [] ∨ fitted ∈ made ∧ cost fitted ≤ budget) ∧
      (text.length ≤ budget * maxCharsPerToken → cost text ≤ budget → fitted = text) := by
  unfold fitTextToBudget maxCharsPerToken
  dsimp only
  by_cases hemp : text = []
  · refine ⟨[], [], Nat.zero_le _, .nil fun _ => ?_, List.nil_prefix, ?_, Or.inl rfl,
      fun _ _ => hemp.symm⟩
    · rw [if_pos hemp, hemp]
    · simp
  have hlen := List.length_pos_of_ne_nil hemp
  by_cases hbud : budget ≤ 0
  · refine ⟨[], [], Nat.zero_le _, .nil fun _ => ?_, List.nil_prefix, ?_, Or.inl rfl, ?_⟩
    · rw [if_neg hemp, if_pos hbud]
    · simp
    · omega
  simp only [if_neg hemp, if_neg hbud]
  generalize hreach : min (text.length : ℤ) (budget * 16) = reach
  have hnon : 0 ≤ reach := by omega
  have hst : Bracket.Inv text reach ⟨[], reach + 1, none, reach⟩ :=
    ⟨List.nil_prefix, Int.lt_add_one_of_le hnon, le_rfl, hnon, Int.lt_add_one_of_le le_rfl⟩
  obtain ⟨made, fitted, hmade, hcnts, hfit, hle, hfrom⟩ :=
    fitLoop_counts isMark budget cost maxFitCounts hst
  refine ⟨made, fitted, hmade, hcnts, hfit, by omega, hfrom, fun hwit hcost => ?_⟩
  have hwh := hcnts.1 (fun t => .ok (cost t)) fun _ _ => rfl
  obtain rfl : (text.length : ℤ) = reach := (min_eq_left hwit).symm.trans hreach
  exact Except.ok.inj (hwh.symm.trans (fitLoop_of_fits le_rfl hlen hcost))

/-- **A budget below 0** is no bound on a length. -/
theorem fitTextToBudget_negative :
    fitTextToBudget (fun _ => false) [97] (.tokens (-1)) (fun t => .ok t.length) = .ok [] ∧
      ¬(([] : Text).length : ℤ) ≤ -1 * maxCharsPerToken :=
  ⟨rfl, by decide⟩

variable {isMark}

/-! ### The sizing of a query -/

structure Client where
  /-- `input_budget`, of a template and an answer ceiling. -/
  inputBudget : Text → ℤ → Except FitFailure (Bounded ℤ)
  contextWindow : Bounded ContextWindowTokens
  /-- `count_tokens`, if the client has it. -/
  countTokens : Option (Text → Except FitFailure ℕ)
  /-- `token_ceiling`, if the client has it. -/
  tokenCeiling : Option (Text → ℕ)

/-- `describe_window`. -/
def describeWindow : Bounded ContextWindowTokens → String
  | .tokens window => s!"{window.size} tokens, {window.source.value}"
  | .unbounded => "unbounded"

/-- `_COUNTING_METHODS`, those that the client lacks. -/
def Client.missing (client : Client) : List String :=
  (if client.countTokens.isNone then ["count_tokens"] else []) ++
    if client.tokenCeiling.isNone then ["token_ceiling"] else []

/-- `fit_query_to_window`. -/
def fitQueryToWindow (isMark : ℕ → Bool) (client : Client) (templateText query : Text)
    (provider : String) (maxOutputTokens : ℤ) : Except FitFailure Text := do
  match ← client.inputBudget templateText maxOutputTokens with
  | .unbounded => return query
  | .tokens budget =>
    let noRoom := FitFailure.noRoomForInput (s!"the model's context window " ++
      s!"({describeWindow client.contextWindow}) leaves {budget} input tokens after the " ++
      s!"prompt and the {maxOutputTokens}-token answer, too little for the query")
    if 0 < budget then
      match client.countTokens, client.tokenCeiling with
      | some count, some ceiling =>
        if query.length ≤ budget ∧ ceiling query ≤ budget then return query
        let fitted ← fitTextToBudget isMark query (.tokens budget) count
        if fitted ≠ [] ∨ query = [] then return fitted
        throw noRoom
      | _, _ =>
        throw (.llmCallFailure provider (s!"the client sizes its input to a budget but has no " ++
          " and ".intercalate client.missing))
    throw noRoom

/-- **A query that is returned** is not bounded, or its bound is within a positive budget, or its
count is, or it is empty. -/
theorem fitQueryToWindow_cases {client : Client} {templateText query q : Text}
    {provider : String} {maxOutputTokens : ℤ}
    (h : fitQueryToWindow isMark client templateText query provider maxOutputTokens = .ok q) :
    client.inputBudget templateText maxOutputTokens = .ok .unbounded ∨
      ∃ budget count ceiling,
        client.inputBudget templateText maxOutputTokens = .ok (.tokens budget) ∧ 0 < budget ∧
        client.countTokens = some count ∧ client.tokenCeiling = some ceiling ∧
        (ceiling q ≤ budget ∨ (∃ cost, count q = .ok cost ∧ cost ≤ budget) ∨
          q = [] ∧ query = []) := by
  unfold fitQueryToWindow at h
  cases hbud : client.inputBudget templateText maxOutputTokens with
  | error e =>
    rw [hbud] at h
    cases h
  | ok window =>
    cases window with
    | unbounded => exact Or.inl rfl
    | tokens budget =>
      rw [hbud] at h
      simp only [bind, Except.bind] at h
      split_ifs at h with hpos
      · split at h
        · rename_i count ceiling hcnt hceil
          refine Or.inr ⟨budget, count, ceiling, rfl, hpos, hcnt, hceil, ?_⟩
          split_ifs at h with hfast
          · cases h
            exact Or.inl hfast.2
          cases hfit : fitTextToBudget isMark query (.tokens budget) count with
          | error e =>
            rw [hfit] at h
            cases h
          | ok fitted =>
            simp only [hfit] at h
            split_ifs at h with hk
            · cases h
              rcases fitTextToBudget_fits hfit with hnil | hcntd
              · exact Or.inr (Or.inr ⟨hnil, hk.resolve_left fun hne => hne hnil⟩)
              · exact Or.inr (Or.inl hcntd)
        · cases h

end ArchonSearch.LlmClient
