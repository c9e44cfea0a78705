import Mathlib.Data.Nat.Notation

/-!
# Escapes

How `json.dumps`, the codec `unicode_escape` and `repr` write a character. A text is the list of its
code points, lone surrogates among them.
-/

namespace ArchonSearch.Py

def codes (literal : String) : List ℕ := literal.toList.map Char.toNat

def hex (width c : ℕ) : List ℕ :=
  let digits := Nat.toDigits 16 c
  (List.replicate (width - digits.length) '0' ++ digits).map Char.toNat

/-- A character in `json.dumps`. -/
def jsonChar (ensureAscii : Bool) (c : ℕ) : List ℕ :=
  if c = 0x22 ∨ c = 0x5c then [0x5c, c]
  else if c = 0x0a then codes "\\n"
  else if c = 0x0d then codes "\\r"
  else if c = 0x09 then codes "\\t"
  else if c = 0x08 then codes "\\b"
  else if c = 0x0c then codes "\\f"
  else if c < 0x20 ∨ ensureAscii ∧ 0x7f ≤ c ∧ c < 0x10000 then codes "\\u" ++ hex 4 c
  else if ensureAscii ∧ 0x10000 ≤ c then
    codes "\\u" ++ hex 4 (0xd800 + (c - 0x10000) / 0x400) ++
      (codes "\\u" ++ hex 4 (0xdc00 + (c - 0x10000) % 0x400))
  else [c]

/-- A character in `unicode_escape` and in `repr`, which leave different characters as they are. -/
def escapeChar (plain : ℕ → Bool) (c : ℕ) : List ℕ :=
  if c = 0x5c then [0x5c, 0x5c]
  else if c = 0x09 then codes "\\t"
  else if c = 0x0a then codes "\\n"
  else if c = 0x0d then codes "\\r"
  else if plain c then [c]
  else if c < 0x100 then codes "\\x" ++ hex 2 c
  else if c < 0x10000 then codes "\\u" ++ hex 4 c
  else codes "\\U" ++ hex 8 c

end ArchonSearch.Py
