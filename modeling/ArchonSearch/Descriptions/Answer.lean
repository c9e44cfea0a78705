import ArchonSearch.Descriptions.Sample
import ArchonSearch.Descriptions.Text

/-!
# The answer of a model

What a model answers is cleaned: its thinking is removed, by three regular expressions, and what is
left is collapsed to one line. `_ask` takes an answer that is not empty and fits; otherwise it asks
once more, and cuts what is too long even then. What it returns is one line that fits
(`isOneLine_of_ask`), and hence can be stored if there is anything to be seen in it
(`descriptions_storable`).

That an answer is not empty does not say that there is: a zero-width space is returned, and refused
by the write (`zeroWidth_refused`). `\w` is a parameter, which the tables of the interpreter give.
-/

namespace ArchonSearch.Descriptions.Generator

open Lib Py

/-! ### Thinking -/

/-- `_THINKING_TAGS`. -/
def thinkingTags : List (List Char) :=
  ["think".toList, "thinking".toList, "thought".toList, "reasoning".toList]

/-- The character matches a small letter of a tag, under `re.IGNORECASE`. -/
def matchesLetter (letter c : Char) : Bool :=
  c == letter || c == letter.toUpper || (letter == 'i' && (c == 'İ' || c == 'ı')) ||
    (letter == 'k' && c == '\u212a') || (letter == 's' && c == 'ſ')

def loweredLetter (c : Char) : Char :=
  if c = 'İ' then 'i' else if c = '\u212a' then 'k' else c.toLower

def matchesAgain (letter c : Char) : Bool := loweredLetter letter == loweredLetter c

def matchLetters (same : Char → Char → Bool) : List Char → RawText → Option (List Char × RawText)
  | [], text => some ([], text)
  | letter :: letters, .scalar c :: text =>
    if same letter c then (matchLetters same letters text).map fun found => (c :: found.1, found.2)
    else none
  | _ :: _, _ => none

variable (isWord : Char → Bool)

/-- `\b`, after a letter. -/
def isBoundary : RawText → Bool
  | .scalar c :: _ => !isWord c
  | _ => true

/-- `<(tag)\b[^>]*>`: what the tag matches here, and what follows. -/
def openingTag (tag : List Char) : RawText → Option (List Char × RawText)
  | .scalar '<' :: text => do
    let (found, rest) ← matchLetters matchesLetter tag text
    match rest.dropWhile (· ≠ .scalar '>') with
    | _ :: after => if isBoundary isWord rest then some (found, after) else none
    | [] => none
  | _ => none

/-- `\s`. -/
def isSpaceCharacter : Character → Bool
  | .scalar c => isSpace c
  | .surrogate _ => false

/-- `</tag\s*>`: what follows. -/
def closingTag (same : Char → Char → Bool) (tag : List Char) : RawText → Option RawText
  | .scalar '<' :: .scalar '/' :: text => do
    let (_, rest) ← matchLetters same tag text
    match rest.dropWhile isSpaceCharacter with
    | .scalar '>' :: after => some after
    | _ => none
  | _ => none

/-- `_THINKING_BLOCK`: how long its match is here, up to the first closing tag that is the one of
the opening tag. -/
def thinkingBlock (text : RawText) : Option ℕ :=
  thinkingTags.findSome? fun tag => do
    let (found, rest) ← openingTag isWord tag text
    let after ← rest.tails.findSome? (closingTag matchesAgain found)
    some (text.length - after.length)

/-- `_THINKING_ORPHAN_CLOSE.sub("", text)`: what follows the last closing tag. -/
def dropOrphanClose (text : RawText) : RawText :=
  let rests := text.tails.reverse.findSome? fun rest =>
    thinkingTags.findSome? fun tag => closingTag matchesLetter tag rest
  rests.getD text

/-- `_THINKING_UNCLOSED.sub("", text)`: nothing, if the text begins with an opening tag. -/
def dropUnclosed (text : RawText) : RawText :=
  if thinkingTags.any fun tag => (openingTag isWord tag (text.dropWhile isSpaceCharacter)).isSome
  then [] else text

/-- `_clean_answer`. -/
def cleanAnswer (raw : RawText) : String :=
  let visible := replaceMatches (thinkingBlock isWord) [.scalar ' '] 0 raw
  collapseToOneLine (dropUnclosed isWord (dropOrphanClose visible))

/-! ### Asking -/

/-- `DescriptionGenerated`. -/
structure DescriptionGenerated where
  text : String
  trimmed : Bool := false
  deriving DecidableEq

/-- `_DESCRIPTION_PROMPT`, formatted. -/
def descriptionPrompt (name samples : String) : String :=
  "You are generating a concise description for a document collection named \"" ++
    name ++ "\".\n\n" ++
  "Below are sample excerpts from documents in this collection:\n\n" ++ samples ++ "\n\n" ++
  "Write 2-3 sentences that summarize what this collection contains and its purpose. " ++
  "Be specific about the topic and type of content. " ++
  s!"Output only the description as one line of plain text of at most {maxDescriptionChars} " ++
  "characters" ++
  " — no preamble, no explanation.\n"

/-- `_RETRY_REMINDER`. -/
def retryReminder : String :=
  s!"\n\nYour previous answer was empty or longer than {maxDescriptionChars} characters. " ++
  s!"Answer again in one line of at most {maxDescriptionChars} characters."

/-- `_NO_USABLE_OUTPUT_DETAIL`. -/
def noUsableOutputDetail : String :=
  "the model returned no usable text after one retry (empty, or only thinking); it may be a " ++
  "reasoning model: set `think` to false in [description] (local providers) so it answers directly"

structure LlmCallRequest where
  prompt : String
  maxOutputTokens : ℕ

variable (call : LlmCallRequest → Except ProviderError RawText)

/-- `_attempt`. -/
def attempt (prompt : String) (answerCeiling : ℕ) : Except SampleError String :=
  match call ⟨prompt, answerCeiling⟩ with
  | .ok raw => .ok (cleanAnswer isWord raw)
  | .error error => .error (providerStep error)

/-- `_ask`. -/
def ask (collection : String) (sample : List String) (answerCeiling : ℕ) :
    Except SampleError DescriptionGenerated := do
  let prompt := descriptionPrompt collection (sampleSeparator.intercalate sample)
  let first ← attempt isWord call prompt answerCeiling
  if first ≠ "" ∧ first.length ≤ maxDescriptionChars then .ok { text := first }
  else
    let second ← attempt isWord call (prompt ++ retryReminder) answerCeiling
    let cleaned := if second ≠ "" then second else first
    if cleaned = "" then
      .error (.stopped { reason := .unusableOutput, detail := noUsableOutputDetail })
    else if cleaned.length ≤ maxDescriptionChars then .ok { text := cleaned }
    else .ok { text := trimToLastSentence cleaned, trimmed := true }

/-! ### What comes of it -/

section Results

variable {isWord} {call} {collection prompt : String} {sample : List String} {answerCeiling : ℕ}
  {generated : DescriptionGenerated} {answer : String}

theorem isOneLine_of_attempt (h : attempt isWord call prompt answerCeiling = .ok answer) :
    IsOneLine answer := by
  rw [attempt] at h
  split at h
  · cases h
    exact isOneLine_collapseToOneLine _
  · simp at h

/-- **What is returned is one line that fits.** -/
theorem isOneLine_of_ask (h : ask isWord call collection sample answerCeiling = .ok generated) :
    IsOneLine generated.text ∧ generated.text.length ≤ maxDescriptionChars := by
  simp only [ask] at h
  rcases hfst : attempt isWord call
    (descriptionPrompt collection (sampleSeparator.intercalate sample)) answerCeiling
    with error | first
  · rw [hfst] at h
    exact absurd h (by simp [bind, Except.bind])
  rw [hfst] at h
  change (if first ≠ "" ∧ first.length ≤ maxDescriptionChars then _ else _) = _ at h
  split_ifs at h with htak
  · cases h
    exact ⟨isOneLine_of_attempt hfst, htak.2⟩
  rcases hsec : attempt isWord call
    (descriptionPrompt collection (sampleSeparator.intercalate sample) ++ retryReminder)
    answerCeiling with error | second
  · rw [hsec] at h
    exact absurd h (by simp [bind, Except.bind])
  rw [hsec] at h
  have hclean : IsOneLine (if second ≠ "" then second else first) := by
    split_ifs
    · exact isOneLine_of_attempt hsec
    · exact isOneLine_of_attempt hfst
  change (if (if second ≠ "" then second else first) = "" then _ else _) = _ at h
  generalize (if second ≠ "" then second else first) = cleaned at h hclean
  split_ifs at h with hemp hfits <;> cases h
  · exact ⟨hclean, hfits⟩
  · exact hclean.trimToLastSentence (by omega)

/-- **Descriptions are storable.** Whatever a model answers to the first call and to the retry,
what `_ask` returns is accepted by a write if there is anything to be seen in it. Whatever an
archive holds, an import stores nothing or text that is accepted. And one line that is too long is
cut to a prefix that fits and is not empty: after its last sentence end in range, before its last
space where there is none, and at the limit where there is no space. -/
theorem descriptions_storable (isWord : Char → Bool) :
    (∀ (call : LlmCallRequest → Except ProviderError RawText) (collection : String)
      (sample : List String) (answerCeiling : ℕ) (generated : DescriptionGenerated),
      ask isWord call collection sample answerCeiling = .ok generated →
      isBlank generated.text = false → checkDescriptionText generated.text = none) ∧
    (∀ text : RawText, normaliseDescriptionText text = "" ∨
      checkDescriptionText (normaliseDescriptionText text) = none) ∧
    ∀ line : String, IsOneLine line → maxDescriptionChars < line.length →
      trimToLastSentence line ≠ "" ∧ (trimToLastSentence line).toList <+: line.toList ∧
        (trimToLastSentence line).length ≤ maxDescriptionChars ∧
        CutsAt line.toList (trimToLastSentence line).length := by
  refine ⟨fun call collection sample answerCeiling generated h hvis => ?_,
    normaliseDescriptionText_storable, fun line hline hlong => ?_⟩
  · obtain ⟨hline, hlen⟩ := isOneLine_of_ask h
    exact (checkDescriptionText_eq_none hline hlen).mpr hvis
  obtain ⟨e, hpos, hle, heq, hcut⟩ := cut_trimToLastSentence hline.head hlong
  have hlong : maxDescriptionChars < line.toList.length := hlong
  have hlen : (trimToLastSentence line).length = e := by
    rw [heq, String.length_ofList, List.length_take]
    omega
  refine ⟨fun hemp => ?_, ?_, hlen ▸ hle, hlen ▸ hcut⟩
  · rw [hemp, String.length_empty] at hlen
    omega
  · rw [heq, String.toList_ofList]
    exact List.take_prefix _ _

end Results

def answers (text : String) (_ : LlmCallRequest) : Except ProviderError RawText :=
  .ok (text.toList.map .scalar)

theorem descriptions_storable_reports : checkDescriptionText "Annual reports." = none :=
  (descriptions_storable Char.isAlphanum).1 (answers "<think>hm</think> Annual\nreports.") "docs" []
    1024 { text := "Annual reports." } (by decide +kernel) (by decide +kernel)

/-- **A zero-width space is returned and refused**; and a line of 601 letters is cut at the limit,
where there is neither a sentence end nor a space. -/
theorem zeroWidth_refused :
    (ask Char.isAlphanum (answers "\u200b") "docs" [] 1024 = .ok { text := "\u200b" } ∧
      checkDescriptionText "\u200b" ≠ none) ∧
    trimToLastSentence (String.ofList (List.replicate 601 'x')) =
      String.ofList (List.replicate 600 'x') := by
  refine ⟨⟨by decide +kernel, by decide +kernel⟩, ?_⟩
  have hcut := trimToLastSentence_of_none (List.replicate 601 'x') (by decide +kernel)
    (by decide +kernel)
  rwa [List.take_replicate] at hcut

end ArchonSearch.Descriptions.Generator
