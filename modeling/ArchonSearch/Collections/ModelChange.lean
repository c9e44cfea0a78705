import ArchonSearch.Descriptions.Programs
import ArchonSearch.Jobs.Types

/-!
# The two ways to change the model of a collection

`PATCH /collections/{name}` and the tool `update_collection` change the embedding model of a
collection by the same rules, each in its own words: what the request makes of the metadata row is
`changeModel`, and the program of the `PATCH` does that (`replay_switchModel`).

The tool also compares the dimension of the stored vectors with that of the model that is asked
for, and refuses a model of another dimension. The `PATCH` does not: a reindex writes the table
anew. So the two agree exactly where this comparison does not matter (`sameAnswer_iff`): the
dimensions are the same, or there is no table, or both refuse for another reason.
-/

namespace ArchonSearch.Collections.ModelChange

open Descriptions Jobs Lib Async Py Option

variable {n : ℕ} {τ : Type} (isPrintable : Char → Bool)

/-! ### What both read -/

/-- `EMBEDDER_SPECS`: the models that are supported, with their dimensions. -/
structure EmbedderSpecs where
  specs : List (String × ℕ)
  named : ∀ spec ∈ specs, spec.1 ≠ ""

/-- `validate_embedding_model`: the dimension, or the text of the error. -/
def EmbedderSpecs.validateEmbeddingModel (r : EmbedderSpecs) (modelName : String) :
    Except String ℕ :=
  match r.specs.lookup modelName with
  | some dim => .ok dim
  | none =>
    let supported := ", ".intercalate ((r.specs.map Prod.fst).insertionSort (· ≤ ·))
    .error s!"unsupported model {reprStr isPrintable modelName}; supported: {supported}"

structure Found (n : ℕ) (τ : Type) where
  /-- `_all_collection_paths(config)`, the names. -/
  configured : List String
  row : Option (CollectionMeta n τ)
  /-- `job_store.get(…)`, the status. -/
  job : String → Option JobStatus
  lockAcquired : Bool
  chunkCount : ℕ
  /-- `get_stored_vector_dimension`. -/
  storedDim : Option ℕ
  specs : EmbedderSpecs

/-! ### What becomes of the row -/

/-- The branches on the model that is asked for: the row, and whether it is written. -/
def changeModel (row : CollectionMeta n τ) (requested : String) (staleCleared : Bool)
    (chunkCount : ℕ) : CollectionMeta n τ × Bool :=
  if row.activeEmbeddingModel = requested ∧ row.pendingEmbeddingModel = none then
    (row, staleCleared)
  else if row.pendingEmbeddingModel = some requested then (row, staleCleared)
  else if row.pendingEmbeddingModel.isSome ∧ row.activeEmbeddingModel = requested then
    ({ row with pendingEmbeddingModel := none, needsReindex := false, reindexJobId := none }, true)
  else if 0 < chunkCount then
    ({ row with pendingEmbeddingModel := some requested, needsReindex := true }, true)
  else
    ({ row with
        descriptionEmbedding := none
        activeEmbeddingModel := requested
        pendingEmbeddingModel := none
        needsReindex := false
        reindexJobId := none }, true)

def writeIf (stored : Option (CollectionMeta n τ)) (change : CollectionMeta n τ × Bool) :
    Option (CollectionMeta n τ) :=
  if change.2 then some change.1.stored else stored

def inProgress (job : String → Option JobStatus) (row : CollectionMeta n τ) : Bool :=
  (row.reindexJobId.bind job).any fun status => status = .running || status = .pending

/-! ### The two requests -/

inductive Answer (E α : Type) where
  | ok : α → Answer E α
  | refused : E → Answer E α

def Answer.isOk {E α : Type} : Answer E α → Bool
  | .ok _ => true
  | .refused _ => false

structure HttpError where
  statusCode : ℕ
  detail : String

/-- `McpErrorResponse`. -/
structure McpErrorResponse where
  (error code : String)

/-- `Collection … not found`. -/
def notFound (name : String) : String := s!"Collection {reprStr isPrintable name} not found"

def reindexInProgress : String :=
  "reindex in progress; wait for job to complete before changing embedding model"

/-- `STORE_BUSY_DETAIL`. -/
def storeBusyDetail : String :=
  "collection is busy with another write; retry after Retry-After seconds"

/-- The text of a `StoreBusyError`. -/
def storeBusyError : String := "store busy: lock acquisition exceeded 30.0s"

/-- `patch_collection`, of a body that sets `embedding_model` and nothing else: the answer, and
the row afterwards. -/
def patchCollection (found : Found n τ) (name requested : String) :
    Answer HttpError (CollectionMeta n τ) × Option (CollectionMeta n τ) :=
  -- the validator of the body
  if requested = "" then (.refused ⟨422, "embedding_model must not be empty string"⟩, found.row)
  else if name ∉ found.configured then (.refused ⟨404, notFound isPrintable name⟩, found.row)
  else if found.row = none then (.refused ⟨404, notFound isPrintable name⟩, found.row)
  else match found.specs.validateEmbeddingModel isPrintable requested with
    | .error e => (.refused ⟨422, e⟩, found.row)
    | .ok _ =>
      if found.lockAcquired = false then (.refused ⟨503, storeBusyDetail⟩, found.row)
      else match found.row with
        | none => (.refused ⟨404, notFound isPrintable name⟩, found.row)
        | some row =>
          if inProgress found.job row then (.refused ⟨409, reindexInProgress⟩, found.row)
          else
            let staleCleared := row.reindexJobId.isSome
            let change := changeModel { row with reindexJobId := none } requested staleCleared
              found.chunkCount
            (.ok change.1, writeIf found.row change)

/-- `update_collection`; a server without a config or a job table leaves out what needs one. -/
def updateCollection (config : Option (List String)) (jobStore : Option (String → Option JobStatus))
    (found : Found n τ) (collectionName embeddingModel : String) :
    Answer McpErrorResponse (CollectionMeta n τ) × Option (CollectionMeta n τ) :=
  if config.any fun names => decide (collectionName ∉ names) then
    (.refused ⟨notFound isPrintable collectionName, "not_found"⟩, found.row)
  else if found.row = none then
    (.refused ⟨notFound isPrintable collectionName, "not_found"⟩, found.row)
  else match found.specs.validateEmbeddingModel isPrintable embeddingModel with
    | .error e => (.refused ⟨e, "validation_error"⟩, found.row)
    | .ok newDim =>
      match found.storedDim.filter fun storedDim => storedDim ≠ newDim with
      | some storedDim =>
        (.refused ⟨s!"dimension mismatch: stored vectors have dimension {storedDim}, " ++
          s!"but model {reprStr isPrintable embeddingModel} produces dimension {newDim}",
          "validation_error"⟩,
          found.row)
      | none =>
        if found.lockAcquired = false then (.refused ⟨storeBusyError, "store_busy"⟩, found.row)
        else match found.row with
          | none => (.refused ⟨notFound isPrintable collectionName, "not_found"⟩, found.row)
          | some row =>
            match jobStore with
            | none =>
              let change := changeModel row embeddingModel false found.chunkCount
              (.ok change.1, writeIf found.row change)
            | some job =>
              if inProgress job row then (.refused ⟨reindexInProgress, "conflict"⟩, found.row)
              else
                let staleCleared := row.reindexJobId.isSome
                let change := changeModel { row with reindexJobId := none } embeddingModel
                  staleCleared found.chunkCount
                (.ok change.1, writeIf found.row change)

/-! ### The program of the `PATCH` -/

def replies (chunkCount : ℕ) (now : τ) : (op : Op n τ) → Except Raised (Ans op)
  | .getCollectionMeta | .readRow | .readMetaUnlocked => .ok none
  | .acquire | .embedOne _ _ | .jobIsActive | .versionHolds => .ok true
  | .readVectors => .ok []
  | .count => .ok chunkCount
  | .now => .ok now
  | .generate => .ok (.failed .callFailed "")
  | .release | .merge _ _ | .bumpDescriptionVersion | .deleteLegacy | .deleteRow | .writeChunks
  | .granted | .takeVersion | .rememberUnstoredFailure | .finish _ => .ok ()

def merged : Op n τ → Option (CollectionMeta n τ)
  | .merge _ row => some row
  | _ => none

/-- **The program of the `PATCH`** comes to this row, and merges it if it is to be written. -/
theorem replay_switchModel (row : CollectionMeta n τ) (requested : String) (staleCleared : Bool)
    (chunkCount : ℕ) (now : τ) :
    (replay (replies chunkCount now) (switchModel row requested staleCleared)).2 =
        .ok (changeModel row requested staleCleared chunkCount).1 ∧
      (replay (replies chunkCount now) (switchModel row requested staleCleared)).1.filterMap
          merged =
        if (changeModel row requested staleCleared chunkCount).2 then
          [(changeModel row requested staleCleared chunkCount).1] else [] := by
  by_cases heq : row.activeEmbeddingModel = requested ∧ row.pendingEmbeddingModel = none
  · rw [switchModel, if_pos (Or.inl heq), changeModel, if_pos heq]
    cases staleCleared <;> exact ⟨rfl, rfl⟩
  by_cases hpen : row.pendingEmbeddingModel = some requested
  · rw [switchModel, if_pos (Or.inr hpen), changeModel, if_neg heq, if_pos hpen]
    cases staleCleared <;> exact ⟨rfl, rfl⟩
  rw [switchModel, if_neg (not_or.mpr ⟨heq, hpen⟩), changeModel, if_neg heq, if_neg hpen]
  by_cases hact : row.activeEmbeddingModel = requested
  · -- another model is pending
    have hs : row.pendingEmbeddingModel.isSome = true :=
      isSome_iff_ne_none.mpr fun hn => heq ⟨hact, hn⟩
    rw [if_pos hact, if_pos ⟨hs, hact⟩]
    exact ⟨rfl, rfl⟩
  · rw [if_neg hact, if_neg fun h => hact h.2]
    cases chunkCount <;> exact ⟨rfl, rfl⟩

/-! ### What is refused -/

/-- The request is refused, whatever model it names. -/
def Found.RefusesAnyModel (found : Found n τ) (name : String) : Prop :=
  name ∉ found.configured ∨ found.lockAcquired = false ∨
    ∀ row ∈ found.row, inProgress found.job row = true

/-- The stored vectors have the dimension of the model, or there is no table. -/
def Found.Fits (found : Found n τ) (requested : String) : Prop :=
  ∀ dim ∈ found.specs.specs.lookup requested, ∀ storedDim ∈ found.storedDim, storedDim = dim

theorem EmbedderSpecs.lookup_empty (r : EmbedderSpecs) : r.specs.lookup "" = none := by
  rw [List.lookup_eq_none_iff]
  intro spec hspec
  simpa using (r.named spec hspec).symm

variable {isPrintable} {found : Found n τ} {name requested : String}

def Found.changed (found : Found n τ) (row : CollectionMeta n τ) (requested : String) :
    CollectionMeta n τ × Bool :=
  changeModel { row with reindexJobId := none } requested row.reindexJobId.isSome found.chunkCount

theorem Found.fits_of_lookup (h : found.specs.specs.lookup requested = none) :
    found.Fits requested := by
  intro dim hdim
  rw [h] at hdim
  cases hdim

/-- **A `PATCH`** is refused and leaves the row, or else changes it. -/
theorem patchCollection_cases :
    ((found.RefusesAnyModel name ∨ found.specs.specs.lookup requested = none) ∧
      ∃ e, patchCollection isPrintable found name requested = (.refused e, found.row)) ∨
    (¬found.RefusesAnyModel name ∧ found.specs.specs.lookup requested ≠ none ∧
      ∃ row, found.row = some row ∧ patchCollection isPrintable found name requested =
        (.ok (found.changed row requested).1,
          writeIf found.row (found.changed row requested))) := by
  by_cases hemp : requested = ""
  · refine Or.inl ⟨Or.inr ?_, _, if_pos hemp⟩
    rw [hemp, found.specs.lookup_empty]
  rw [patchCollection, if_neg hemp]
  by_cases hnm : name ∉ found.configured
  · exact Or.inl ⟨Or.inl (Or.inl hnm), _, if_pos hnm⟩
  rw [if_neg hnm]
  by_cases hr : found.row = none
  · exact Or.inl ⟨Or.inl (Or.inr (Or.inr (by simp [hr]))), _, if_pos hr⟩
  rw [if_neg hr]
  obtain ⟨row, hr⟩ := ne_none_iff_exists'.mp hr
  cases hspec : found.specs.specs.lookup requested with
  | none =>
    simp only [EmbedderSpecs.validateEmbeddingModel, hspec]
    exact Or.inl ⟨Or.inr trivial, _, rfl⟩
  | some dim =>
    simp only [EmbedderSpecs.validateEmbeddingModel, hspec, hr]
    by_cases hl : found.lockAcquired = false
    · exact Or.inl ⟨Or.inl (Or.inr (Or.inl hl)), _, if_pos hl⟩
    rw [if_neg hl]
    by_cases hbusy : inProgress found.job row = true
    · exact Or.inl ⟨Or.inl (Or.inr (Or.inr (by simpa [hr] using hbusy))), _, if_pos hbusy⟩
    rw [if_neg hbusy]
    refine Or.inr ⟨?_, by simp, row, rfl, rfl⟩
    rintro (h | h | h)
    · exact hnm h
    · exact hl h
    · exact hbusy (h row hr)

/-- **The tool** is refused and leaves the row, or else changes it. -/
theorem updateCollection_cases :
    ((found.RefusesAnyModel name ∨ found.specs.specs.lookup requested = none ∨
        ¬found.Fits requested) ∧
      ∃ e, updateCollection isPrintable (some found.configured) (some found.job) found name
        requested = (.refused e, found.row)) ∨
    (¬found.RefusesAnyModel name ∧ found.specs.specs.lookup requested ≠ none ∧
      found.Fits requested ∧ ∃ row, found.row = some row ∧
        updateCollection isPrintable (some found.configured) (some found.job) found name requested =
          (.ok (found.changed row requested).1,
            writeIf found.row (found.changed row requested))) := by
  simp only [updateCollection, any_some, decide_eq_true_eq]
  by_cases hnm : name ∉ found.configured
  · exact Or.inl ⟨Or.inl (Or.inl hnm), _, if_pos hnm⟩
  rw [if_neg hnm]
  by_cases hr : found.row = none
  · exact Or.inl ⟨Or.inl (Or.inr (Or.inr (by simp [hr]))), _, if_pos hr⟩
  rw [if_neg hr]
  obtain ⟨row, hr⟩ := ne_none_iff_exists'.mp hr
  cases hspec : found.specs.specs.lookup requested with
  | none =>
    simp only [EmbedderSpecs.validateEmbeddingModel, hspec]
    exact Or.inl ⟨Or.inr (Or.inl trivial), _, rfl⟩
  | some dim =>
    have hfits : found.Fits requested ↔
        found.storedDim.filter (fun storedDim => decide (storedDim ≠ dim)) = none := by
      rw [Found.Fits, hspec]
      simp
    simp only [EmbedderSpecs.validateEmbeddingModel, hspec, hr]
    cases hsto : found.storedDim.filter fun storedDim => decide (storedDim ≠ dim) with
    | some storedDim =>
      refine Or.inl ⟨Or.inr (Or.inr fun h => ?_), _, rfl⟩
      rw [hfits.mp h] at hsto
      cases hsto
    | none =>
      by_cases hl : found.lockAcquired = false
      · exact Or.inl ⟨Or.inl (Or.inr (Or.inl hl)), _, if_pos hl⟩
      rw [if_neg hl]
      by_cases hbusy : inProgress found.job row = true
      · exact Or.inl ⟨Or.inl (Or.inr (Or.inr (by simpa [hr] using hbusy))), _, if_pos hbusy⟩
      rw [if_neg hbusy]
      refine Or.inr ⟨?_, by simp, hfits.mpr hsto, row, rfl, rfl⟩
      rintro (h | h | h)
      · exact hnm h
      · exact hl h
      · exact hbusy (h row hr)

/-! ### Where they agree -/

/-- Both refuse and leave the row, or both succeed and leave the same row. -/
def Agree (isPrintable : Char → Bool) (found : Found n τ) (name requested : String) : Prop :=
  let patched := patchCollection isPrintable found name requested
  let updated := updateCollection isPrintable (some found.configured) (some found.job) found name
    requested
  (patched.1.isOk = false ∧ updated.1.isOk = false ∧ patched.2 = found.row ∧
      updated.2 = found.row) ∨
    (patched.1.isOk = true ∧ updated.1.isOk = true ∧ patched.2 = updated.2)

/-- **The two agree** exactly where the dimension of the stored vectors does not matter: it is that
of the model, or there is none, or the request is refused for another reason. -/
theorem sameAnswer_iff (isPrintable : Char → Bool) (found : Found n τ) (name requested : String) :
    Agree isPrintable found name requested ↔ found.Fits requested ∨ found.RefusesAnyModel name := by
  unfold Agree
  obtain ⟨href, e, hpat⟩ | ⟨hidle, hspec, row, hr, hpat⟩ :=
    @patchCollection_cases n τ isPrintable found name requested
  · rw [hpat]
    obtain ⟨-, e', hupd⟩ | ⟨hidle', hspec', -⟩ :=
      @updateCollection_cases n τ isPrintable found name requested
    · rw [hupd]
      refine iff_of_true (Or.inl ⟨rfl, rfl, rfl, rfl⟩) ?_
      exact href.symm.imp_left Found.fits_of_lookup
    · exact absurd href (not_or.mpr ⟨hidle', hspec'⟩)
  · rw [hpat]
    obtain ⟨href', e', hupd⟩ | ⟨-, -, hfits, row', hr', hupd⟩ :=
      @updateCollection_cases n τ isPrintable found name requested
    · -- the tool refuses because of the dimension
      have hfits : ¬found.Fits requested :=
        (href'.resolve_left hidle).resolve_left hspec
      rw [hupd]
      refine iff_of_false ?_ (not_or.mpr ⟨hfits, hidle⟩)
      rintro (⟨h, -⟩ | ⟨-, h, -⟩) <;> cases h
    · obtain rfl : row = row' := some.inj (hr.symm.trans hr')
      rw [hupd]
      exact iff_of_true (Or.inr ⟨rfl, rfl, rfl⟩) (Or.inl hfits)

/-- A table of vectors of dimension 384, and a model of dimension 768. -/
def smallVectors : Found 0 ℕ where
  configured := ["notes"]
  row := some { activeEmbeddingModel := "small", chunkCount := 1 }
  job _ := none
  lockAcquired := true
  chunkCount := 1
  storedDim := some 384
  specs := ⟨[("small", 384), ("base", 768)], by decide⟩

/-- The `PATCH` makes the model pending, and the tool refuses it. -/
theorem not_agree_smallVectors : ¬Agree (fun _ => true) smallVectors "notes" "base" := by
  rintro (⟨h, -⟩ | ⟨-, h, -⟩) <;> revert h <;> decide

end ArchonSearch.Collections.ModelChange
