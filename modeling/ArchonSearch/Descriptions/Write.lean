import ArchonSearch.Py.Str
import ArchonSearch.Store.Centroid

/-!
# What a description write may change

The description of a collection is kept in its metadata row: the text, where it comes from, the
outcome of the last attempt to write one, when that was, the number of documents there were then,
and a vector of the text that queries are routed by. A write states for each of the six whether it
is kept, set or cleared; if it changes the text then it changes the source, the status and the
vector too, which is part of the type `DescriptionFields`.

A write of a generated description, and of a failure to generate one, is guarded by what the
generation started from. The guard compares four values and refuses any row whose description is
manual (`ExpectedState.refusal_eq_none_iff`).

A vector is known here by the model and the text that it was computed from. The writes of the
server leave a row in which the vector is one of the stored text
(`DescriptionFields.IsPaired.applyTo`).
-/

namespace ArchonSearch.Descriptions

open Py

/-! ### Texts -/

/-- `MAX_DESCRIPTION_CHARS`. -/
def maxDescriptionChars : ℕ := 600

/-- The ranges of the characters of the Unicode category `Cf`. -/
def formatRanges : List (ℕ × ℕ) :=
  [(0xad, 0xad), (0x600, 0x605), (0x61c, 0x61c), (0x6dd, 0x6dd), (0x70f, 0x70f), (0x890, 0x891),
    (0x8e2, 0x8e2), (0x180e, 0x180e), (0x200b, 0x200f), (0x202a, 0x202e), (0x2060, 0x2064),
    (0x2066, 0x206f), (0xfeff, 0xfeff), (0xfff9, 0xfffb), (0x110bd, 0x110bd), (0x110cd, 0x110cd),
    (0x13430, 0x1343f), (0x1bca0, 0x1bca3), (0x1d173, 0x1d17a), (0xe0001, 0xe0001),
    (0xe0020, 0xe007f)]

/-- `unicodedata.category(character) == _INVISIBLE_CATEGORY`. -/
def isInvisible (c : Char) : Bool := formatRanges.any fun r => r.1 ≤ c.toNat && c.toNat ≤ r.2

/-- `unicodedata.category(character) in _NOT_PLAIN_TEXT_CATEGORIES`. -/
def isNotPlainText (c : Char) : Bool :=
  let n := c.toNat
  n ≤ 0x1f || (0x7f ≤ n && n ≤ 0x9f) || n == 0x2028 || n == 0x2029

/-- `_is_blank`. -/
def isBlank (text : String) : Bool := text.toList.all fun c => isSpace c || isInvisible c

/-- `check_description_text`: the message of the `ValueError`, if it raises one. -/
def checkDescriptionText (text : String) : Option String :=
  let length := text.length
  if maxDescriptionChars < length then
    some s!"description has {length} characters; at most {maxDescriptionChars} are allowed"
  else if isBlank text then
    some "description cannot be set to blank text: clear it instead"
  else if text.toList.any isNotPlainText then
    some ("description must be one line of plain text: " ++
      "remove line breaks, tabs and control characters")
  else none

/-! ### The row -/

/-- `DescriptionSource`. -/
inductive DescriptionSource where
  | generated
  | manual
  deriving DecidableEq

/-- `DescriptionStoredStatus`. -/
inductive DescriptionStoredStatus where
  | ok
  | failed
  deriving DecidableEq

structure Embedding where
  (model text : String)
  deriving DecidableEq

/-- `CollectionMeta`, as it is read: the fields that the writers here read or write. Times are
of an arbitrary type. -/
structure CollectionMeta (n : ℕ) (τ : Type) extends Store.Centroid.CollectionMeta n where
  description : Option String := none
  descriptionSource : Option DescriptionSource := none
  descriptionStatus : Option DescriptionStoredStatus := none
  lastDescribed : Option τ := none
  describedAtDocCount : Option ℕ := none
  descriptionEmbedding : Option Embedding := none
  lastIndexed : Option τ := none
  pendingEmbeddingModel : Option String := none
  needsReindex : Bool := false
  reindexJobId : Option String := none
  defaultTtlSeconds : Option ℕ := none
  deriving DecidableEq

variable {n : ℕ} {τ : Type}

/-- `x or None`: an empty text and none are the same thing to the store. -/
def orNone (text : Option String) : Option String := text.filter fun t => t ≠ ""

/-- `_row_to_meta` of what was written: an empty text is read as none, and so is a sum that is
not finite. -/
def CollectionMeta.stored (m : CollectionMeta n τ) : CollectionMeta n τ :=
  { m with
    toCollectionMeta := m.toCollectionMeta.stored
    description := orNone m.description }

/-- The vector is one of the stored text. -/
def IsPaired (m : CollectionMeta n τ) : Prop :=
  ∀ v, m.descriptionEmbedding = some v → orNone m.description = some v.text

def CollectionMeta.bare (model : String) : CollectionMeta n τ := { activeEmbeddingModel := model }

theorem isPaired_bare {model : String} :
    ∀ m ∈ some (CollectionMeta.bare model : CollectionMeta n τ), IsPaired m := by
  rintro _ ⟨⟩ v ⟨⟩

/-! ### The guard -/

/-- `DescriptionWriteOutcome`. -/
inductive DescriptionWriteOutcome where
  | written
  | lockTimeout
  | collectionMissing
  | refusedManual
  | refusedStale
  deriving DecidableEq

/-- `ExpectedState`: the description state a generation started from. -/
@[ext] structure ExpectedState (τ : Type) where
  description : Option String
  source : Option DescriptionSource
  lastDescribed : Option τ
  status : Option DescriptionStoredStatus
  deriving DecidableEq

def ExpectedState.blank : ExpectedState τ := ⟨none, none, none, none⟩

def CollectionMeta.described (m : CollectionMeta n τ) : ExpectedState τ :=
  ⟨orNone m.description, m.descriptionSource, m.lastDescribed, m.descriptionStatus⟩

def described : Option (CollectionMeta n τ) → ExpectedState τ
  | some m => m.described
  | none => .blank

/-- `ExpectedState(meta.description, …)`. -/
def ExpectedState.ofMeta (m : CollectionMeta n τ) : ExpectedState τ :=
  ⟨m.description, m.descriptionSource, m.lastDescribed, m.descriptionStatus⟩

@[simp] theorem orNone_orNone (text : Option String) : orNone (orNone text) = orNone text := by
  simp [orNone, Option.filter_filter]

@[simp] theorem CollectionMeta.described_stored (m : CollectionMeta n τ) :
    m.stored.described = m.described := by
  simp [CollectionMeta.stored, CollectionMeta.described]

variable {m : CollectionMeta n τ}

theorem IsPaired.stored (hm : IsPaired m) : IsPaired m.stored := by
  intro v hv
  simpa [CollectionMeta.stored] using hm v hv

def ExpectedState.compared (e : ExpectedState τ) : ExpectedState τ :=
  { e with description := orNone e.description }

@[simp] theorem ExpectedState.compared_ofMeta (m : CollectionMeta n τ) :
    (ExpectedState.ofMeta m).compared = m.described := rfl

/-- `refusal`. -/
def ExpectedState.refusal [DecidableEq τ] (e : ExpectedState τ) (row : CollectionMeta n τ) :
    Option DescriptionWriteOutcome :=
  if row.descriptionSource = some .manual then some .refusedManual
  else if orNone row.description = orNone e.description ∧ row.descriptionSource = e.source ∧
      row.lastDescribed = e.lastDescribed ∧ row.descriptionStatus = e.status then none
  else some .refusedStale

/-- **The guard** lets a write pass exactly over a row that is not manual and holds the four
values that the generation started from. -/
theorem ExpectedState.refusal_eq_none_iff [DecidableEq τ] {e : ExpectedState τ}
    {row : CollectionMeta n τ} :
    e.refusal row = none ↔ row.descriptionSource ≠ some .manual ∧ row.described = e.compared := by
  unfold ExpectedState.refusal
  by_cases hman : row.descriptionSource = some .manual
  · simp [hman]
  · rw [if_neg hman, ite_eq_left_iff]
    simp only [reduceCtorEq, imp_false, not_not, ExpectedState.ext_iff, CollectionMeta.described,
      ExpectedState.compared]
    exact ⟨fun h => ⟨hman, h⟩, fun h => h.2⟩

theorem ExpectedState.refusal_cases [DecidableEq τ] (e : ExpectedState τ)
    (row : CollectionMeta n τ) :
    e.refusal row = none ∨ e.refusal row = some .refusedManual ∨
      e.refusal row = some .refusedStale := by
  unfold ExpectedState.refusal
  split_ifs
  · exact Or.inr (Or.inl rfl)
  · exact Or.inl rfl
  · exact Or.inr (Or.inr rfl)

/-! ### Writes -/

/-- `FieldChange`. -/
inductive FieldChange (α : Type) where
  | keep
  | set : α → FieldChange α
  | clear
  deriving DecidableEq

def FieldChange.over {α : Type} : FieldChange α → Option α → Option α
  | .keep, stored => stored
  | .set value, _ => some value
  | .clear, _ => none

/-- `DescriptionFields`, with what `__post_init__` refuses. -/
structure DescriptionFields (τ : Type) where
  description : FieldChange String
  source : FieldChange DescriptionSource
  status : FieldChange DescriptionStoredStatus
  lastDescribed : FieldChange τ
  describedAtDocCount : FieldChange ℕ
  descriptionEmbedding : FieldChange Embedding
  checked : ∀ text, description = .set text → checkDescriptionText text = none
  follows : description ≠ .keep → source ≠ .keep ∧ status ≠ .keep ∧ descriptionEmbedding ≠ .keep

/-- `apply_to`. -/
def DescriptionFields.applyTo (f : DescriptionFields τ) (m : CollectionMeta n τ) :
    CollectionMeta n τ :=
  { m with
    description := f.description.over m.description
    descriptionSource := f.source.over m.descriptionSource
    descriptionStatus := f.status.over m.descriptionStatus
    lastDescribed := f.lastDescribed.over m.lastDescribed
    describedAtDocCount := f.describedAtDocCount.over m.describedAtDocCount
    descriptionEmbedding := f.descriptionEmbedding.over m.descriptionEmbedding }

def DescriptionFields.IsPaired (f : DescriptionFields τ) : Prop :=
  ∀ v, f.descriptionEmbedding = .set v → f.description = .set v.text

variable {text : String}

theorem orNone_of_checkDescriptionText (h : checkDescriptionText text = none) :
    orNone (some text) = some text := by
  have hne : text ≠ "" := by
    rintro rfl
    revert h
    decide
  simp [orNone, hne]

/-- **A write of a text with its own vector leaves the row paired.** -/
theorem DescriptionFields.IsPaired.applyTo {f : DescriptionFields τ} (hf : f.IsPaired)
    (hm : Descriptions.IsPaired m) :
    Descriptions.IsPaired (f.applyTo m) := by
  intro v hv
  simp only [DescriptionFields.applyTo] at hv ⊢
  cases hvec : f.descriptionEmbedding with
  | clear =>
    rw [hvec] at hv
    cases hv
  | set w =>
    rw [hvec] at hv
    obtain rfl : w = v := Option.some.inj hv
    have htx := hf w hvec
    rw [htx]
    exact orNone_of_checkDescriptionText (f.checked _ htx)
  | keep =>
    -- then the text is kept too
    have htx : f.description = .keep := by
      by_contra hne
      exact (f.follows hne).2.2 hvec
    rw [hvec] at hv
    rw [htx]
    exact hm v hv

/-- `DescriptionChange`. -/
inductive DescriptionChange (τ : Type) where
  /-- `GeneratedChange`. -/
  | generated : (text : String) → (docCountAtGeneration : ℕ) → (expected : ExpectedState τ) →
      DescriptionChange τ
  /-- `ManualSetChange`. -/
  | manualSet : (text : String) → DescriptionChange τ
  /-- `ClearChange`. -/
  | clear
  /-- `ImportedChange`. -/
  | imported : (text : String) → (source : DescriptionSource) → DescriptionChange τ

/-- `_clear_fields`. -/
def clearFields : DescriptionFields τ where
  description := .clear
  source := .clear
  status := .clear
  lastDescribed := .clear
  describedAtDocCount := .clear
  descriptionEmbedding := .clear
  checked text h := by cases h
  follows _ := by simp

/-- `_text_fields`, for a text that has been checked. -/
def textFields (text : String) (source : DescriptionSource) (baseline : FieldChange ℕ) (now : τ)
    (vector : Option Embedding) (h : checkDescriptionText text = none) : DescriptionFields τ where
  description := .set text
  source := .set source
  status := .set .ok
  lastDescribed := .set now
  describedAtDocCount := baseline
  descriptionEmbedding := vector.elim .clear .set
  checked text' h' := by
    cases h'
    exact h
  follows _ := by cases vector <;> simp

/-- The fields of `record_failure`. -/
def failureFields : DescriptionFields τ where
  description := .keep
  source := .keep
  status := .set .failed
  lastDescribed := .keep
  describedAtDocCount := .keep
  descriptionEmbedding := .keep
  checked text h := by cases h
  follows h := absurd rfl h

theorem isPaired_clearFields : (clearFields : DescriptionFields τ).IsPaired := by
  intro v hv
  cases hv

theorem isPaired_failureFields : (failureFields : DescriptionFields τ).IsPaired := by
  intro v hv
  cases hv

theorem isPaired_textFields {source : DescriptionSource} {baseline : FieldChange ℕ}
    {now : τ} {vector : Option Embedding} {h : checkDescriptionText text = none}
    (hvec : ∀ v ∈ vector, v.text = text) :
    (textFields text source baseline now vector h).IsPaired := by
  intro v hv
  cases vector with
  | none => cases hv
  | some w =>
    obtain rfl : w = v := FieldChange.set.inj hv
    exact congrArg _ (hvec w rfl).symm

end ArchonSearch.Descriptions
