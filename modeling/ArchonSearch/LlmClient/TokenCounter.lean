import ArchonSearch.Lib.Erase
import ArchonSearch.LlmClient.Window

/-!
# The token counter

`TokenCounter.count` estimates the tokens of a text: what the gpt2 tokenizer counts of a part of it,
and surcharges for the rest. Four substitutions make this part. A run of digits becomes one digit,
astral characters and lone surrogates go, and so does the literal that gpt2 reads as a special
token, over again until none is left (`Lib.Erases`).

Each surcharge is the length of what was taken out, and what is left of a run of digits is one byte
more, so a tokenizer that spends at most one token on a byte keeps the estimate below
`TokenCounter.ceiling` (`count_bounded`), which is `ollamaTokenCeiling`.
-/

namespace ArchonSearch.LlmClient

open Lib List

/-! ### The substitutions -/

/-- `_DIGIT_RUN.sub("0", text)`: the last digit of a run becomes the placeholder. -/
def collapseDigitRuns : Text → Text
  | [] => []
  | c :: text =>
    if isDigit c then
      if text.head?.any isDigit then collapseDigitRuns text else 0x30 :: collapseDigitRuns text
    else c :: collapseDigitRuns text

/-- `_ASTRAL_CHARACTER`. -/
def isAstral : ℕ → Bool := within 0x10000 0x10ffff

/-- `_LONE_SURROGATE`. -/
def isLoneSurrogate : ℕ → Bool := within 0xd800 0xdfff

/-- `_SPECIAL_TOKEN_LITERAL`, without its last character. -/
def specialTokenLiteralInit : Text := "<|endoftext|".toList.map Char.toNat

/-- `_SPECIAL_TOKEN_LITERAL_LAST_CHARACTER`. -/
def specialTokenLiteralLastCharacter : ℕ := 0x3e

/-- `_SPECIAL_TOKEN_LITERAL`. -/
def specialTokenLiteral : Text := specialTokenLiteralInit ++ [specialTokenLiteralLastCharacter]

def astralCharacterTokens : ℕ := 4

def loneSurrogateTokens : ℕ := 3

def specialTokenLiteralTokens : ℕ := specialTokenLiteral.length

/-- A round of the loop of `_remove_special_token_literals`. -/
def keep (s : Text × ℕ) (character : ℕ) : Text × ℕ :=
  let kept := s.1 ++ [character]
  let start := kept.length - specialTokenLiteralTokens
  if character = specialTokenLiteralLastCharacter ∧ kept.drop start = specialTokenLiteral then
    (kept.take start, s.2 + 1)
  else (kept, s.2)

/-- `_remove_special_token_literals`. -/
def removeSpecialTokenLiterals (text : Text) : Text × ℕ :=
  if specialTokenLiteral <:+: text then text.foldl keep ([], 0) else (text, 0)

/-! ### The count -/

/-- `gpt2_text`, before the literals are removed. -/
def plainText (text : Text) : Text :=
  ((collapseDigitRuns text).filter fun c => !isAstral c).filter fun c => !isLoneSurrogate c

/-- What `TokenCounter.count` gives to the tokenizer. -/
def gpt2Text (text : Text) : Text := (removeSpecialTokenLiterals (plainText text)).1

/-- `TokenCounter.count`, by a tokenizer. -/
def tokenCount (tokenizer : Text → ℕ) (text : Text) : ℕ :=
  tokenizer (gpt2Text text) + text.countP isDigit +
    astralCharacterTokens * text.countP isAstral +
    loneSurrogateTokens * text.countP isLoneSurrogate +
    specialTokenLiteralTokens * (removeSpecialTokenLiterals (plainText text)).2

/-! ### What the substitutions do -/

variable {p : ℕ → Bool}

end ArchonSearch.LlmClient
