import ArchonSearch.Lib.Wildcard

/-!
# Python's `fnmatch`

`fnmatch.fnmatchcase` reads a glob: `*` is any run of characters, `?` any character,
`[seq]` a character in the sequence and `[!seq]` one that is not. A bracket that is not
closed stands for itself, and so does a closing one at the start of a sequence.
-/

namespace ArchonSearch.Py

open Lib.Wildcard

def seqRanges : List Char → List (Char × Char)
  | lo :: '-' :: hi :: seq => (lo, hi) :: seqRanges seq
  | c :: seq => (c, c) :: seqRanges seq
  | [] => []

def readSeq (glob : List Char) : Option (Token × List Char) :=
  let (negated, glob) :=
    match glob with
    | '!' :: rest => (true, rest)
    | _ => (false, glob)
  let (first, glob) :=
    match glob with
    | ']' :: rest => ([']'], rest)
    | _ => ([], glob)
  match glob.dropWhile (· ≠ ']') with
  | [] => none
  | _ :: rest => some (.oneOf negated (seqRanges (first ++ glob.takeWhile (· ≠ ']'))), rest)

/-- The tokens of a glob. Each takes a character at least, so that `fuel` is its length. -/
def readGlob : (fuel : ℕ) → List Char → List Token
  | 0, _ | _, [] => []
  | fuel + 1, '*' :: glob => .run :: readGlob fuel glob
  | fuel + 1, '?' :: glob => .any :: readGlob fuel glob
  | fuel + 1, '[' :: glob =>
    match readSeq glob with
    | some (token, rest) => token :: readGlob fuel rest
    | none => .literal '[' :: readGlob fuel glob
  | fuel + 1, c :: glob => .literal c :: readGlob fuel glob

/-- `fnmatch.fnmatchcase`. -/
def fnmatchcase (name glob : String) : Bool :=
  Matches (readGlob glob.toList.length glob.toList) name.toList

example : fnmatchcase "/srv/docs/a.md" "/srv/*/[!b-z].m?" = true := by decide +kernel

end ArchonSearch.Py
