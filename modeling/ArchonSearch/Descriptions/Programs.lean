import ArchonSearch.Descriptions.Write
import ArchonSearch.Lib.Async

/-!
# The writers of a metadata row

The functions of the server that write the metadata row of a collection, as programs over the
operations they await: the guarded write and what is built on it (set, clear, import, a
generation run), the recompute, the stamp of the last indexing, the totals kept by ingest and
delete, and the changes of a `PATCH`. What happens between two operations is the choice of
those that run beside.

One collection is looked at. The reads and writes of its row, and of the version that counts the
changes of its description, are operations on it (`Op`); what a model answers, what is in the table
of the chunks and whether a job is active are answered from outside.
-/

namespace ArchonSearch.Descriptions

open Lib Async

inductive Raised where
  /-- An `Exception`, by the name of its type. -/
  | error (typeName : String)
  /-- `CancelledError`. -/
  | cancelled
  deriving DecidableEq

/-! ### Generations -/

/-- `GenerationKind`. -/
inductive GenerationKind where
  | describe
  | ingest
  | backfill
  deriving DecidableEq

/-- `DescriptionFailureReason`. -/
inductive DescriptionFailureReason where
  | callFailed
  | unusableOutput
  | noUnrestrictedChunks
  | sampleReadFailed
  | saveFailed
  deriving DecidableEq

/-- `DescriptionOutcome`. -/
inductive DescriptionOutcome where
  /-- `DescriptionGenerated`. -/
  | generated (text : String)
  /-- `DescriptionFailed`. -/
  | failed (reason : DescriptionFailureReason) (detail : String)

/-- `GenerationResult`. -/
inductive GenerationResult where
  | generated
  | failed
  | alreadyRunning
  | refusedManual
  | superseded
  | shuttingDown
  | notRequired
  | dropped
  deriving DecidableEq

/-- `GenerationSettlement`. -/
structure GenerationSettlement where
  result : GenerationResult
  detail : Option String := none
  reason : Option DescriptionFailureReason := none
  deriving DecidableEq

/-! ### Operations -/

inductive Op (n : ℕ) (τ : Type) where
  /-- `get_collection_meta`, and a read of the row in general. -/
  | getCollectionMeta
  /-- `get_collection_meta` in `_read_row`: the row a generation starts from. -/
  | readRow
  /-- `_do_read_meta_unlocked`. -/
  | readMetaUnlocked
  /-- `wait_for(lock.acquire(), …)`: whether the lock was free in time. -/
  | acquire
  /-- `lock.release()`. -/
  | release
  /-- `merge_insert(…).execute(…)`; whether the write is counted, that is, has an
  `on_merged`. -/
  | merge : (counted : Bool) → (row : CollectionMeta n τ) → Op n τ
  | bumpDescriptionVersion
  /-- `_delete_legacy_null_namespace_meta`. -/
  | deleteLegacy
  /-- `table.delete(…)` of the row. -/
  | deleteRow
  /-- `embed_one`: whether the vector can be stored. -/
  | embedOne : (model text : String) → Op n τ
  | readVectors
  /-- `count_documents`, `count_chunks`. -/
  | count
  | writeChunks
  | jobIsActive
  /-- `datetime.now(UTC)`. -/
  | now
  /-- `await job.granted`. -/
  | granted
  /-- `generator.generate`. -/
  | generate
  /-- `job.version = description_version`. -/
  | takeVersion
  /-- `description_version == job.version`. -/
  | versionHolds
  | rememberUnstoredFailure
  | finish : GenerationSettlement → Op n τ
  deriving DecidableEq

variable {n : ℕ} {τ : Type}

@[reducible] def Ans : Op n τ → Type
  | .getCollectionMeta | .readRow | .readMetaUnlocked => Option (CollectionMeta n τ)
  | .acquire | .embedOne _ _ | .jobIsActive | .versionHolds => Bool
  | .readVectors => List (Store.Centroid.Vec n)
  | .count => ℕ
  | .now => τ
  | .generate => DescriptionOutcome
  | .release | .merge _ _ | .bumpDescriptionVersion | .deleteLegacy | .deleteRow | .writeChunks
  | .granted | .takeVersion | .rememberUnstoredFailure | .finish _ => Unit

@[reducible] def ops (n : ℕ) (τ : Type) : Signature := ⟨Op n τ, Ans⟩

/-- An `async` function of the server. -/
abbrev Program (n : ℕ) (τ α : Type) : Type := Async (ops n τ) Raised α

def ask (op : Op n τ) : Program n τ (Ans op) := perform (S := ops n τ) op

/-- `try: … except Exception`: the name of the exception, or the value. -/
def attempt {α : Type} (p : Program n τ α) : Program n τ (Except String α) :=
  tryCatch (do let a ← p; pure (.ok a)) fun
    | .error typeName => pure (.error typeName)
    | .cancelled => raise .cancelled

/-! ### The store -/

/-- `on_merged`, if there is one. -/
def onMerged : Bool → Program n τ Unit
  | true => ask .bumpDescriptionVersion
  | false => pure ()

/-- `_do_write_meta_unlocked`, and `update_collection_meta` under the lock of the caller. -/
def writeMetaUnlocked (counted : Bool) (row : CollectionMeta n τ) : Program n τ Unit := do
  ask (.merge counted row)
  onMerged counted
  ask .deleteLegacy

/-- The lock is acquired in time, and released however the body ends, or else it is busy. -/
def withLock {α : Type} (busy body : Program n τ α) : Program n τ α := do
  match ← ask .acquire with
  | false => busy
  | true => andFinally body (ask .release)

/-- `locked_collection_meta`. -/
def lockedCollectionMeta {α : Type} (body : Option (CollectionMeta n τ) → Program n τ α) :
    Program n τ α :=
  withLock (raise (.error "StoreBusyError")) do
    let row ← ask .getCollectionMeta
    body row

/-- `delete_collection_meta`. -/
def deleteCollectionMeta : Program n τ Unit := do
  match ← ask .getCollectionMeta with
  | none => pure ()
  | some _ =>
    ask .deleteRow
    ask .bumpDescriptionVersion

/-- `write_description`; no guard for `UNCONDITIONAL`. -/
def writeDescription [DecidableEq τ] (fields : DescriptionFields τ)
    (guard : Option (ExpectedState τ)) : Program n τ DescriptionWriteOutcome :=
  withLock (pure .lockTimeout) do
    match ← ask .readMetaUnlocked with
    | none => pure .collectionMissing
    | some row =>
      match guard.bind fun e => e.refusal row with
      | some refused => pure refused
      | none =>
        writeMetaUnlocked true (fields.applyTo row)
        pure .written

/-- `touch_last_indexed`. -/
def touchLastIndexed (lastIndexed : τ) : Program n τ Unit :=
  withLock (pure ()) do
    match ← ask .readMetaUnlocked with
    | none => pure ()
    | some existing => writeMetaUnlocked false { existing with lastIndexed := some lastIndexed }

/-- The row after `_do_update_meta_on_add`. -/
def updateMetaOnAdd (existing : Option (CollectionMeta n τ)) (batch : List (Store.Centroid.Vec n))
    (distinctDocCount : ℕ) (model : String) : CollectionMeta n τ :=
  let totals := Store.Centroid.updateMetaOnAdd (existing.map fun m => m.toCollectionMeta) batch
    distinctDocCount model
  match existing with
  | some m => { m with toCollectionMeta := totals }
  | none => { toCollectionMeta := totals }

/-- `ingest_chunks`, of a caller that names a model or does not. -/
def ingestChunks (model : Option String) (batch : List (Store.Centroid.Vec n))
    (distinctDocCount : ℕ) : Program n τ Unit :=
  withLock (raise (.error "StoreBusyError")) do
    let owned ← ask .readMetaUnlocked
    match model with
    | none => ask .writeChunks
    | some model =>
      match owned with
      | none =>
        -- the claim of a collection without an owner, undone if the rows do not land
        writeMetaUnlocked false { activeEmbeddingModel := model, needsRecompute := true }
        tryCatch (ask .writeChunks) fun e => do
          let _ ← attempt deleteCollectionMeta
          raise e
        writeMetaUnlocked false (updateMetaOnAdd none batch distinctDocCount model)
      | some _ =>
        ask .writeChunks
        let existing ← ask .readMetaUnlocked
        writeMetaUnlocked false (updateMetaOnAdd existing batch distinctDocCount model)

/-- `delete_document`, with `_do_subtract_meta_on_delete`. -/
def deleteDocument : Program n τ Unit :=
  withLock (raise (.error "StoreBusyError")) do
    let deleted ← ask .readVectors
    ask .writeChunks
    if deleted = [] then pure ()
    else
      match ← ask .readMetaUnlocked with
      | none => pure ()
      | some existing =>
        let now ← ask .now
        writeMetaUnlocked false { existing with
          toCollectionMeta :=
            Store.Centroid.subtractMetaOnDelete existing.toCollectionMeta deleted
          lastIndexed := some now }

/-- `DELETE` of the collection, as far as the row goes; also what an import does that
overwrites it. -/
def deleteCollection : Program n τ Unit :=
  withLock (raise (.error "StoreBusyError")) deleteCollectionMeta

/-! ### The description writer -/

/-- `row.active_embedding_model or default_embedding_model`. -/
def resolveModel (defaultModel : String) (row : CollectionMeta n τ) : String :=
  if row.activeEmbeddingModel = "" then defaultModel else row.activeEmbeddingModel

/-- `_embed`, and the embedding of `_legacy_description_vector`. -/
def embed (model text : String) : Program n τ (Option Embedding) := do
  match ← attempt (ask (.embedOne model text)) with
  | .ok true => pure (some ⟨model, text⟩)
  | _ => pure none

/-- `VectorOutcome`. -/
inductive VectorOutcome where
  | refreshed
  | removed
  | keptWithoutVector
  | untouched

/-- `WriteResult`. -/
structure WriteResult where
  outcome : DescriptionWriteOutcome
  vector : VectorOutcome

/-- `_vector_outcome`. -/
def vectorOutcome (outcome : DescriptionWriteOutcome) (written : VectorOutcome) : VectorOutcome :=
  if outcome = .written then written else .untouched

/-- `apply` of a change that sets a text. -/
def applyText [DecidableEq τ] (defaultModel text : String) (source : DescriptionSource)
    (baseline : FieldChange ℕ) (guard : Option (ExpectedState τ)) : Program n τ WriteResult :=
  if h : checkDescriptionText text = none then do
    match ← ask .getCollectionMeta with
    | none => pure ⟨.collectionMissing, .untouched⟩
    | some row =>
      let vector ← embed (resolveModel defaultModel row) text
      let now ← ask .now
      let outcome ← writeDescription (textFields text source baseline now vector h) guard
      let landed := if vector.isSome then .refreshed else .keptWithoutVector
      pure ⟨outcome, vectorOutcome outcome landed⟩
  else raise (.error "ValueError")

/-- `apply`. -/
def apply [DecidableEq τ] (defaultModel : String) : DescriptionChange τ → Program n τ WriteResult
  | .clear => do
    let outcome ← writeDescription clearFields none
    pure ⟨outcome, vectorOutcome outcome .removed⟩
  | .generated text count expected =>
    applyText defaultModel text .generated (.set count) (some expected)
  | .manualSet text => applyText defaultModel text .manual .keep none
  | .imported text source => applyText defaultModel text source .clear none

/-- `record_failure`. -/
def recordFailure [DecidableEq τ] (expected : ExpectedState τ) :
    Program n τ DescriptionWriteOutcome :=
  writeDescription failureFields (some expected)

/-! ### A generation run -/

/-- `ROW_READ_ATTEMPTS`. -/
def rowReadAttempts : ℕ := 3

/-- The loop of `_read_row`, with the row of the read before. -/
def readRowLoop : ℕ → Option (CollectionMeta n τ) → Program n τ (Option (CollectionMeta n τ))
  | 0, row => pure row
  | attempts + 1, _ => do
    ask .takeVersion
    let row ← ask .readRow
    match ← ask .versionHolds with
    | true => pure row
    | false => readRowLoop attempts row

/-- `_read_row`. -/
def readRow : Program n τ (Option (CollectionMeta n τ)) := readRowLoop rowReadAttempts none

/-- `_should_regenerate`; the ratio is a fifth. -/
def shouldRegenerate (docCount chunkCount : ℕ) (describedAtDocCount : Option ℕ) : Bool :=
  if chunkCount = 0 then false
  else
    match describedAtDocCount with
    | none => true
    | some described =>
      described = 0 || described ≤ 5 * ((docCount : ℤ) - described).natAbs

/-- `_refusal`. -/
def refusal (kind : GenerationKind) (row : CollectionMeta n τ) : Option GenerationResult :=
  if row.descriptionSource = some .manual then some .refusedManual
  else if kind = .ingest ∧
      shouldRegenerate row.docCount row.chunkCount row.describedAtDocCount = false then
    some .notRequired
  else if kind = .backfill ∧
      (orNone row.description ≠ none ∨ row.descriptionStatus = some .failed) then
    some .notRequired
  else none

/-- `_Draft`. -/
structure Draft (τ : Type) where
  outcome : DescriptionOutcome
  expected : ExpectedState τ
  docCount : ℕ

/-- `_generate`. -/
def generate : Program n τ DescriptionOutcome := do
  match ← attempt (ask .generate) with
  | .ok outcome => pure outcome
  | .error typeName => pure (.failed .callFailed s!"unexpected {typeName}")

/-- `_draft`; it releases the slot in the end, which is left to the account of the slot. -/
def draft (kind : GenerationKind) : Program n τ (GenerationSettlement ⊕ Draft τ) := do
  ask .granted
  match ← readRow with
  | none => pure (.inl ⟨.superseded, some "the collection no longer exists", none⟩)
  | some row =>
    match refusal kind row with
    | some result => pure (.inl ⟨result, none, none⟩)
    | none =>
      let outcome ← generate
      pure (.inr ⟨outcome, .ofMeta row, row.docCount⟩)

/-- `_RESULT_OF_REFUSED_FAILURE`. -/
def resultOfRefusedFailure : DescriptionWriteOutcome → Option GenerationResult
  | .refusedManual => some .refusedManual
  | .refusedStale => some .superseded
  | .collectionMissing => some .superseded
  | .written | .lockTimeout => none

/-- `_RESULT_OF_WRITE`. -/
def resultOfWrite : DescriptionWriteOutcome → Option GenerationResult
  | .written => some .generated
  | outcome => resultOfRefusedFailure outcome

/-- `_DETAIL_OF_DISCARDED_WRITE`. -/
def detailOfDiscardedWrite : DescriptionWriteOutcome → Option String
  | .refusedManual =>
    some "a manual description was set meanwhile; the generated text was discarded"
  | .refusedStale => some "the description changed meanwhile; the generated text was discarded"
  | .collectionMissing => some "the collection no longer exists"
  | .written | .lockTimeout => none

/-- `_record_failure` of the lifecycle. -/
def recordFailureOf [DecidableEq τ] (expected : ExpectedState τ)
    (reason : DescriptionFailureReason) (detail : String) : Program n τ GenerationSettlement := do
  match ← attempt (recordFailure expected) with
  | .error _ =>
    ask .rememberUnstoredFailure
    pure ⟨.failed, some detail, some reason⟩
  | .ok recorded =>
    if recorded = .lockTimeout then ask .rememberUnstoredFailure else pure ()
    pure ⟨(resultOfRefusedFailure recorded).getD .failed, some detail, some reason⟩

/-- `_COLLECTION_BUSY`. -/
def collectionBusy : String := "the collection was busy"

/-- `_land`. -/
def land [DecidableEq τ] (defaultModel : String) (draft : Draft τ) :
    Program n τ GenerationSettlement :=
  match draft.outcome with
  | .failed reason detail => recordFailureOf draft.expected reason detail
  | .generated text => do
    match ← attempt (apply defaultModel (.generated text draft.docCount draft.expected)) with
    | .error typeName =>
      recordFailureOf draft.expected .saveFailed s!"the description could not be saved ({typeName})"
    | .ok written =>
      match resultOfWrite written.outcome with
      | none =>
        -- a lock timeout, the one outcome the table has no result for
        recordFailureOf draft.expected .saveFailed
          s!"{collectionBusy}: the description could not be saved"
      | some result => pure ⟨result, detailOfDiscardedWrite written.outcome, none⟩

/-- The body of the `try` of `_run`, and its `except Exception`. -/
def settle [DecidableEq τ] (defaultModel : String) (kind : GenerationKind) :
    Program n τ GenerationSettlement := do
  let body : Program n τ GenerationSettlement := do
    match ← draft kind with
    | .inl settlement => pure settlement
    | .inr drafted => land defaultModel drafted
  match ← attempt body with
  | .ok settlement => pure settlement
  | .error typeName =>
    ask .rememberUnstoredFailure
    pure ⟨.failed, some s!"unexpected {typeName}", none⟩

/-- `_SHUTDOWN`. -/
def shutdown : GenerationSettlement := ⟨.shuttingDown, none, none⟩

/-- `_run`. -/
def runGeneration [DecidableEq τ] (defaultModel : String) (kind : GenerationKind) :
    Program n τ Unit := do
  let settlement ← tryCatch (settle defaultModel kind) fun _ => pure shutdown
  ask (.finish settlement)

/-! ### Other writers of the row -/

/-- `_legacy_description_vector`. -/
def legacyDescriptionVector (defaultModel embedder : String)
    (row : Option (CollectionMeta n τ)) : Program n τ (Option Embedding) :=
  match row with
  | none => pure none
  | some row =>
    match orNone row.description with
    | none => pure none
    | some text =>
      if row.descriptionEmbedding.isSome ∨ resolveModel defaultModel row ≠ embedder then pure none
      else embed embedder text

def repairedEmbedding (defaultModel embedder : String) (base : CollectionMeta n τ)
    (legacy : Option Embedding) : Option Embedding :=
  match base.descriptionEmbedding, legacy with
  | none, some v =>
    if base.description = some v.text ∧ resolveModel defaultModel base = embedder then some v
    else none
  | vector, _ => vector

/-- `recompute_collection_meta`. -/
def recomputeCollectionMeta (defaultModel embedder : String) (force : Bool) :
    Program n τ Unit := do
  let existing ← ask .getCollectionMeta
  if force = false ∧ existing.any fun m => !m.needsRecompute && m.mutationsSinceRecompute = 0 then
    pure ()
  else
    let vectors ← ask .readVectors
    if vectors = [] ∧ force = false ∧ existing = none then pure ()
    else
      let docCount ← ask .count
      let legacy ← legacyDescriptionVector defaultModel embedder existing
      lockedCollectionMeta fun locked =>
        if locked = none ∧ existing ≠ none then pure ()
        else
          let base := locked.getD { activeEmbeddingModel := embedder }
          let vector := repairedEmbedding defaultModel embedder base legacy
          if (base.mutationsSinceRecompute, base.needsRecompute) ≠
              Store.Centroid.scannedAt (existing.map fun m => m.toCollectionMeta) then
            if vector = base.descriptionEmbedding then pure ()
            else writeMetaUnlocked false { base with descriptionEmbedding := vector }
          else do
            let now ← ask .now
            writeMetaUnlocked false { base with
              toCollectionMeta :=
                Store.Centroid.recomputed base.toCollectionMeta vectors docCount
              lastIndexed := some now
              descriptionEmbedding := vector }

/-- The branches of `patch_collection` on the model asked for: the row as it goes on. -/
def switchModel (row : CollectionMeta n τ) (requested : String) (staleCleared : Bool) :
    Program n τ (CollectionMeta n τ) :=
  if (row.activeEmbeddingModel = requested ∧ row.pendingEmbeddingModel = none) ∨
      row.pendingEmbeddingModel = some requested then do
    if staleCleared then writeMetaUnlocked false row else pure ()
    pure row
  else if row.activeEmbeddingModel = requested then do
    let row := { row with
      pendingEmbeddingModel := none, needsReindex := false, reindexJobId := none }
    writeMetaUnlocked false row
    pure row
  else do
    let chunkCount ← ask .count
    let row :=
      if 0 < chunkCount then
        { row with pendingEmbeddingModel := some requested, needsReindex := true }
      else
        { row with
          descriptionEmbedding := none
          activeEmbeddingModel := requested
          pendingEmbeddingModel := none
          needsReindex := false
          reindexJobId := none }
    writeMetaUnlocked false row
    pure row

/-- The end of `patch_collection`: the lifetime, given as a number or as null, or else a row
that has to be written all the same. -/
def patchTtl (row : CollectionMeta n τ) (ttl : Option (Option ℕ)) (staleCleared : Bool) :
    Program n τ Unit :=
  match ttl with
  | some seconds => writeMetaUnlocked false { row with defaultTtlSeconds := seconds }
  | none => if staleCleared then writeMetaUnlocked false row else pure ()

/-- `patch_collection`, of a payload in which the model and the lifetime are given, given as
null, or absent. -/
def patchCollection (model : Option (Option String)) (ttl : Option (Option ℕ)) :
    Program n τ Unit :=
  lockedCollectionMeta fun
    | none => raise (.error "HTTPException")
    | some row => do
      let named := row.reindexJobId.isSome
      match model with
      | some (some requested) =>
        match ← (if named then ask .jobIsActive else pure false) with
        | true => pure ()
        | false =>
          let row ← switchModel { row with reindexJobId := none } requested named
          patchTtl row ttl false
      | some none => patchTtl row ttl false
      | none =>
        match ← (if named then ask .jobIsActive else pure true) with
        | true => patchTtl row ttl false
        | false => patchTtl { row with reindexJobId := none } ttl true

/-- `_ensure_meta_row`. -/
def ensureMetaRow (model : String) : Program n τ Bool :=
  lockedCollectionMeta fun
    | some _ => pure false
    | none => do
      writeMetaUnlocked false { activeEmbeddingModel := model }
      pure true

/-- `_remove_bare_meta_row`. -/
def removeBareMetaRow : Program n τ Unit := do
  let _ ← attempt (lockedCollectionMeta fun
    | none => pure ()
    | some row =>
      if row.docCount = 0 ∧ row.chunkCount = 0 then deleteCollectionMeta else pure ())
  pure ()

/-- `_restore_description`, of a text that has been normalised. -/
def restoreDescription [DecidableEq τ] (defaultModel model text : String)
    (source : DescriptionSource) : Program n τ Unit :=
  if text = "" then pure ()
  else do
    let created ← ensureMetaRow model
    let undo : Program n τ Unit := if created then removeBareMetaRow else pure ()
    let result ← tryCatch (apply defaultModel (.imported text source)) fun e => do
      undo
      raise e
    match result.outcome with
    | .written => pure ()
    | .lockTimeout =>
      undo
      raise (.error "RuntimeError")
    | _ => undo

/-! ### Calls -/

inductive Call (n : ℕ) (τ : Type) where
  | set : (text : String) → Call n τ
  | clear
  | restore : (model text : String) → (source : DescriptionSource) → Call n τ
  | recordFailure : (expected : ExpectedState τ) → Call n τ
  | generation : (kind : GenerationKind) → Call n τ
  /-- `recompute_collection_meta`. -/
  | recompute : (embedder : String) → (force : Bool) → Call n τ
  /-- `touch_last_indexed`. -/
  | touch : (lastIndexed : τ) → Call n τ
  /-- `ingest_chunks`. -/
  | ingest : (model : Option String) → (batch : List (Store.Centroid.Vec n)) →
      (distinctDocCount : ℕ) → Call n τ
  | deleteDocument
  /-- `patch_collection`. -/
  | patch : (model : Option (Option String)) → (ttl : Option (Option ℕ)) → Call n τ
  | deleteCollection
  deriving DecidableEq

def Call.program [DecidableEq τ] (defaultModel : String) : Call n τ → Program n τ Unit
  | .set text => do
    let _ ← apply defaultModel (.manualSet text)
    pure ()
  | .clear => do
    let _ ← apply defaultModel .clear
    pure ()
  | .restore model text source => restoreDescription defaultModel model text source
  | .recordFailure expected => do
    let _ ← Descriptions.recordFailure expected
    pure ()
  | .generation kind => runGeneration defaultModel kind
  | .recompute embedder force => recomputeCollectionMeta defaultModel embedder force
  | .touch lastIndexed => touchLastIndexed lastIndexed
  | .ingest model batch distinctDocCount => ingestChunks model batch distinctDocCount
  | .deleteDocument => Descriptions.deleteDocument
  | .patch model ttl => patchCollection model ttl
  | .deleteCollection => Descriptions.deleteCollection

def Call.IsAuthority : Call n τ → Prop
  | .set _ | .clear | .restore _ _ _ => True
  | _ => False

instance (c : Call n τ) : Decidable c.IsAuthority := by
  cases c <;> (unfold Call.IsAuthority; infer_instance)

end ArchonSearch.Descriptions
