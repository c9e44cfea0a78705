import ArchonSearch.Lib.Prefix

/-!
# Reading an export archive

The reader of `documents.jsonl` and the decoding of one document, as an import uses them.
A line is counted by one of two components: the reader counts the corrupt lines it skips,
the importer counts the documents that do not decode. Empty lines are counted by neither.

A generator is what is still to come of it: `Docs`. What a running `iter_docs` does next is read
off the lines that are left of the archive in `docs_cases`.
-/

namespace ArchonSearch.Import

/-! ### Lines -/

/-- `on_error`. -/
inductive OnError where
  | fail
  | skip

inductive CorruptReason where
  /-- It is longer than `IMPORT_DOC_LINE_MAX_BYTES`. -/
  | tooLarge
  | notJson
  | notObject

def CorruptReason.text : CorruptReason → String
  | tooLarge => "line exceeds the size limit"
  | notJson => "not valid UTF-8 JSON"
  | notObject => "not a JSON object"

/-- A line of `documents.jsonl`, as `json.loads` finds it. -/
inductive Line (δ : Type*) where
  | empty
  | text : Except CorruptReason δ → Line δ

/-- Why an import refuses an archive: the message of an `ArchiveRejectedError`, by the line
it names. -/
inductive Rejection where
  | corruptLine : (lineNumber : ℕ) → CorruptReason → Rejection
  | corruptVector : (lineNumber : ℕ) → Rejection
  /-- `_VectorDimensionError`. -/
  | dimension : (lineNumber : ℕ) → Rejection
  | nanComponent : (lineNumber : ℕ) → Rejection
  | noRoom : (lineNumber : ℕ) → Rejection
  | malformed : (lineNumber : ℕ) → Rejection

def Rejection.message : Rejection → String
  | corruptLine n reason => "Corrupt line " ++ toString n ++ ": " ++ reason.text
  | corruptVector n =>
    "corrupt doc (vector) at line " ++ toString n ++ ": missing or not base64-encoded float32"
  | dimension n =>
    "corrupt doc (vector) at line " ++ toString n ++
      ": its dimension differs from the archive's first valid document"
  | nanComponent n => "corrupt doc (vector) at line " ++ toString n ++ ": a component is NaN"
  | noRoom n =>
    "malformed doc at line " ++ toString n ++
      ": metadata has no room for the `_imported` marker (at most 50 fields)"
  | malformed n =>
    "malformed doc at line " ++ toString n ++ ": a required field is missing or has the wrong type"

/-! ### The reader -/

/-- A running `iter_docs`: what it will do from here on. -/
inductive Docs (δ : Type*) where
  /-- It ends, with this many `skipped_lines`. -/
  | done : (skippedLines : ℕ) → Docs δ
  | raised : Rejection → Docs δ
  /-- It yields a document, with `line_number` and `skipped_lines` as they are then. -/
  | yielded : δ → (lineNumber skippedLines : ℕ) → Docs δ → Docs δ

/-- The loop of `iter_docs`: `lineno` lines are read, `skip` non-empty ones are still to be
passed over, and `skippedLines` corrupt ones have been skipped. -/
def iterLines {δ : Type*} (onError : OnError) (lineno skip skippedLines : ℕ) :
    List (Line δ) → Docs δ
  | [] => .done skippedLines
  | .empty :: rest => iterLines onError (lineno + 1) skip skippedLines rest
  | .text parsed :: rest =>
    match skip, parsed with
    | n + 1, _ => iterLines onError (lineno + 1) n skippedLines rest
    | 0, .ok d =>
      .yielded d (lineno + 1) skippedLines (iterLines onError (lineno + 1) 0 skippedLines rest)
    | 0, .error reason =>
      match onError with
      | .fail => .raised (.corruptLine (lineno + 1) reason)
      | .skip => iterLines onError (lineno + 1) 0 (skippedLines + 1) rest

/-- `iter_docs`. -/
def iterDocs {δ : Type*} (lines : List (Line δ)) (skip : ℕ) (onError : OnError) : Docs δ :=
  iterLines onError 0 skip 0 lines

/-! ### Decoding -/

/-- A `ChunkRecord`: the fields an import looks at, and the others. -/
structure Chunk (β : Type*) where
  (chunkId indexedAt : String)
  /-- `vector`: float32 components. -/
  vector : List (BitVec 32)
  others : β

inductive FieldError where
  | noRoom
  | malformed

/-- The parts of the decoding that are left to the standard library and to
`validate_chunk_record`. -/
structure Decoder (δ β : Type*) where
  /-- The words of the base64 little-endian vector; none when it is missing, not base64, or
  not of whole words. -/
  words : δ → Option (List (BitVec 32))
  /-- `chunk_id`, `indexed_at` and the other fields. -/
  fields : δ → Except FieldError (String × String × β)

/-- `math.isnan` of a float32: the exponent is all ones and the fraction is not zero. -/
def isNan (w : BitVec 32) : Bool :=
  w.extractLsb' 23 8 == 255#8 && w.extractLsb' 0 23 != 0#23

variable {δ β : Type*} (decoder : Decoder δ β)

/-- `_decode_vector`; the dimension is checked before the components. -/
def decodeVector (d : δ) (lineNumber : ℕ) (embeddingDim : Option ℕ) :
    Except Rejection (List (BitVec 32)) :=
  match decoder.words d with
  | none => .error (.corruptVector lineNumber)
  | some floats =>
    if floats = [] then .error (.corruptVector lineNumber)
    else if embeddingDim ≠ none ∧ embeddingDim ≠ some floats.length then
      .error (.dimension lineNumber)
    else if floats.any isNan then .error (.nanComponent lineNumber)
    else .ok floats

/-- `_decode_chunk`. -/
def decodeChunk (d : δ) (lineNumber : ℕ) (embeddingDim : Option ℕ) :
    Except Rejection (Chunk β) :=
  match decodeVector decoder d lineNumber embeddingDim with
  | .error r => .error r
  | .ok floats =>
    match decoder.fields d with
    | .error .noRoom => .error (.noRoom lineNumber)
    | .error .malformed => .error (.malformed lineNumber)
    | .ok (chunkId, indexedAt, others) => .ok ⟨chunkId, indexedAt, floats, others⟩

/-- `_first_valid_chunk`, over a running `iter_docs`. -/
def firstValidChunk (onError : OnError) : Docs δ → Except Rejection (Option (Chunk β))
  | .done _ => .ok none
  | .raised r => .error r
  | .yielded d lineNumber _ rest =>
    match decodeChunk decoder d lineNumber none, onError with
    | .ok chunk, _ => .ok (some chunk)
    | .error _, .skip => firstValidChunk onError rest
    | .error r, .fail => .error r

/-! ### The valid documents -/

def nonEmpty (lines : List (Line δ)) : List (Except CorruptReason δ) :=
  lines.filterMap fun
    | .empty => none
    | .text parsed => some parsed

def validChunk? : Except CorruptReason δ → Option (Chunk β)
  | .error _ => none
  | .ok d => (decodeChunk decoder d 0 none).toOption

def validChunks (lines : List (Line δ)) : List (Chunk β) :=
  (nonEmpty lines).filterMap (validChunk? decoder)

variable {decoder} {embeddingDim : Option ℕ} {d : δ} {n : ℕ}

/-- Without a dimension to compare with, a vector is decoded as with one it has. -/
theorem decodeVector_none_of_ok {m : ℕ}
    {floats : List (BitVec 32)} (h : decodeVector decoder d n embeddingDim = .ok floats) :
    decodeVector decoder d m none = .ok floats := by
  unfold decodeVector at h ⊢
  cases hws : decoder.words d with
  | none => simp [hws] at h
  | some words =>
    simp only [hws] at h ⊢
    split_ifs at h with hemp hdim hnan
    cases h
    simp [hemp, hnan]

variable {r : Rejection}

/-- A vector that is refused for another reason than its dimension is refused without one. -/
theorem decodeVector_none_of_error {m : ℕ}
    (h : decodeVector decoder d n embeddingDim = .error r) (hr : ∀ n, r ≠ .dimension n) :
    ∃ r', decodeVector decoder d m none = .error r' := by
  unfold decodeVector at h ⊢
  cases hws : decoder.words d with
  | none => exact ⟨_, rfl⟩
  | some words =>
    simp only [hws] at h ⊢
    split_ifs at h with hemp hdim hnan
    · exact ⟨_, if_pos hemp⟩
    · exact absurd (Except.error.inj h).symm (hr n)
    · exact ⟨.nanComponent m, by simp [hemp, hnan]⟩

/-- A document that decodes with a given dimension is valid. -/
theorem validChunk?_of_ok {chunk : Chunk β}
    (h : decodeChunk decoder d n embeddingDim = .ok chunk) :
    validChunk? decoder (.ok d) = some chunk := by
  show (decodeChunk decoder d 0 none).toOption = some chunk
  unfold decodeChunk at h ⊢
  cases hvec : decodeVector decoder d n embeddingDim with
  | error r => simp [hvec] at h
  | ok floats =>
    rw [hvec] at h
    rw [decodeVector_none_of_ok hvec]
    rcases hflds : decoder.fields d with (- | -) | ⟨chunkId, indexedAt, others⟩ <;>
      rw [hflds] at h
    · cases h
    · cases h
    · cases h
      rfl

/-- A document that is refused for another reason than its dimension is not valid. -/
theorem validChunk?_of_error
    (h : decodeChunk decoder d n embeddingDim = .error r) (hr : ∀ n, r ≠ .dimension n) :
    validChunk? decoder (.ok d) = none := by
  show (decodeChunk decoder d 0 none).toOption = none
  unfold decodeChunk at h ⊢
  cases hvec : decodeVector decoder d n embeddingDim with
  | error r' =>
    rw [hvec] at h
    cases h
    obtain ⟨r', hr'⟩ := decodeVector_none_of_error hvec hr
    rw [hr']
    rfl
  | ok floats =>
    rw [hvec] at h
    rw [decodeVector_none_of_ok hvec]
    rcases hflds : decoder.fields d with (- | -) | ⟨chunkId, indexedAt, others⟩ <;>
      rw [hflds] at h
    · rfl
    · rfl
    · cases h

/-! ### What is left of a stream -/

/-- The running `iter_docs` has skipped so many corrupt lines, and these non-empty lines are
still to come. -/
def Remaining (onError : OnError) (docs : Docs δ) (skippedLines : ℕ)
    (rest : List (Except CorruptReason δ)) : Prop :=
  ∃ lineno skip lines, docs = iterLines onError lineno skip skippedLines lines ∧
    rest = (nonEmpty lines).drop skip

theorem remaining_iterDocs (lines : List (Line δ)) (skip : ℕ) (onError : OnError) :
    Remaining onError (iterDocs lines skip onError) 0 ((nonEmpty lines).drop skip) :=
  ⟨0, skip, lines, rfl, rfl⟩

/-- What a running `iter_docs` does next: it ends after corrupt lines only, it raises, or it
yields a document after corrupt lines. -/
theorem docs_cases (decoder : Decoder δ β) (onError : OnError) (lineno skip skippedLines : ℕ)
    (lines : List (Line δ)) :
    (iterLines onError lineno skip skippedLines lines =
        .done (skippedLines + ((nonEmpty lines).drop skip).length) ∧
      ((nonEmpty lines).drop skip).filterMap (validChunk? decoder) = []) ∨
    (∃ r, iterLines onError lineno skip skippedLines lines = .raised r) ∨
    ∃ d n corrupt rest, iterLines onError lineno skip skippedLines lines =
        .yielded d n (skippedLines + corrupt.length)
          (iterLines onError n 0 (skippedLines + corrupt.length) rest) ∧
      (nonEmpty lines).drop skip = corrupt ++ .ok d :: nonEmpty rest ∧
      corrupt.filterMap (validChunk? decoder) = [] := by
  induction lines generalizing lineno skip skippedLines with
  | nil => exact Or.inl (by simp [iterLines, nonEmpty])
  | cons line lines ih =>
    cases line with
    | empty => exact ih (lineno + 1) skip skippedLines
    | text parsed =>
      cases skip with
      | succ skip => exact ih (lineno + 1) skip skippedLines
      | zero =>
        cases parsed with
        | ok d => exact Or.inr (Or.inr ⟨d, lineno + 1, [], lines, rfl, rfl, rfl⟩)
        | error reason =>
          cases onError with
          | fail => exact Or.inr (Or.inl ⟨_, rfl⟩)
          | skip =>
            -- the corrupt line is counted, and joins those before the next document
            rcases ih (lineno + 1) 0 (skippedLines + 1) with ⟨hd, hn⟩ | hrsd |
              ⟨d, n, corrupt, rest, hyield, hlns, hcor⟩
            · refine Or.inl ⟨?_, hn⟩
              rw [show iterLines .skip lineno 0 skippedLines (.text (.error reason) :: lines) =
                iterLines .skip (lineno + 1) 0 (skippedLines + 1) lines from rfl, hd]
              simp only [nonEmpty, List.filterMap_cons, List.drop_zero, List.length_cons]
              congr 1
              omega
            · exact Or.inr (Or.inl hrsd)
            · refine Or.inr (Or.inr ⟨d, n, .error reason :: corrupt, rest, ?_, ?_, hcor⟩)
              · rw [show iterLines .skip lineno 0 skippedLines (.text (.error reason) :: lines) =
                  iterLines .skip (lineno + 1) 0 (skippedLines + 1) lines from rfl, hyield,
                  List.length_cons, Nat.add_assoc, Nat.add_comm 1]
              · exact congrArg (Except.error reason :: ·) hlns

variable {rest : List (Except CorruptReason δ)} {onError : OnError}

/-- A stream ends when only corrupt lines are left. -/
theorem Remaining.of_done {skippedLines : ℕ} (h : Remaining onError (.done n) skippedLines rest)
    (decoder : Decoder δ β) :
    n = skippedLines + rest.length ∧ rest.filterMap (validChunk? decoder) = [] := by
  obtain ⟨lineno, skip, lines, hdocs, rfl⟩ := h
  rcases docs_cases decoder onError lineno skip skippedLines lines with
    ⟨hd, hn⟩ | ⟨r, hrsd⟩ | ⟨d, n, corrupt, rest, hyield, -⟩
  · rw [hd] at hdocs
    exact ⟨Docs.done.inj hdocs, hn⟩
  · rw [hrsd] at hdocs
    cases hdocs
  · rw [hyield] at hdocs
    cases hdocs

/-- A stream yields the next document after corrupt lines. -/
theorem Remaining.of_yielded {skippedLines skippedLines' : ℕ}
    {docs : Docs δ}
    (h : Remaining onError (.yielded d n skippedLines' docs) skippedLines rest)
    (decoder : Decoder δ β) :
    ∃ corrupt rest', rest = corrupt ++ .ok d :: rest' ∧
      corrupt.filterMap (validChunk? decoder) = [] ∧
      skippedLines' = skippedLines + corrupt.length ∧
      Remaining onError docs skippedLines' rest' := by
  obtain ⟨lineno, skip, lines, hdocs, rfl⟩ := h
  rcases docs_cases decoder onError lineno skip skippedLines lines with
    ⟨hd, -⟩ | ⟨r, hrsd⟩ | ⟨d', n', corrupt, rest, hyield, hlns, hcor⟩
  · rw [hd] at hdocs
    cases hdocs
  · rw [hrsd] at hdocs
    cases hdocs
  · rw [hyield] at hdocs
    cases hdocs
    exact ⟨corrupt, nonEmpty rest, hlns, hcor, rfl, n, 0, rest, rfl, rfl⟩

end ArchonSearch.Import
