import ArchonSearch.Jobs.Types

/-!
# The rows of the jobs file

`JobStore._write_atomic` turns a job into a row of the jobs file and `JobStore._load` turns a row
into a job. The encoder drops what is absent (`ingest_options`, the two markers) and tags the row
with a `job_type` by the class of the job; the decoder dispatches on that tag, puts defaults in,
re-types the enumerations and the options, and refuses a row with a key the class does not have.

The two agree: `decodeJob_encodeJob`.

Every exception of the decoder that `_load` expects has the same effect – the whole file counts as
corrupt – so a row that raises is simply `none`.
-/

namespace ArchonSearch.Jobs

open Py List Option

/-! ### Ingest options -/

namespace IngestOptions

/-- `dataclasses.asdict` of the options, as JSON. -/
def encode (o : IngestOptions) : Json :=
  .obj [("submitted_path", .str o.submittedPath), ("ingested_by", .str o.ingestedBy),
    ("chunk_ttl_seconds", o.chunkTtlSeconds.elim .null .int),
    ("chunk_scopes", o.chunkScopes.elim .null fun scopes => .arr (scopes.map .str))]

def strings? : List Json → Option (List String)
  | [] => some []
  | .str s :: rest => (strings? rest).map (s :: ·)
  | _ :: _ => none

@[simp] theorem strings?_map_str (scopes : List String) :
    strings? (scopes.map .str) = some scopes := by
  induction scopes with
  | nil => rfl
  | cons s scopes ih => simp [strings?, ih]

/-- The `chunk_scopes` of a row of options: absent, a list of strings, or unusable. -/
def scopes? : Json → Option (Option (List String))
  | .null => some none
  | .arr items => (strings? items).map some
  | _ => none

/-- The `chunk_ttl_seconds` of a row of options: absent, an integer, or unusable. -/
def ttl? : Json → Option (Option ℤ)
  | .null => some none
  | .int n => some (some n)
  | _ => none

def str? : Json → Option String
  | .str s => some s
  | _ => none

/-- The keys of `IngestOptions`. -/
def keys : List String := ["submitted_path", "ingested_by", "chunk_ttl_seconds", "chunk_scopes"]

/-- `_ingest_options_from_json`: the options of a row, none when there are none or when
they are unusable. -/
def ofJson? : Json → Option IngestOptions
  | .obj raw =>
    if raw.all fun e => keys.contains e.1 then do
      let scopes ← scopes? (Row.getD raw "chunk_scopes" .null)
      let submittedPath ← str? (← raw.lookup "submitted_path")
      let ingestedBy ← str? (← raw.lookup "ingested_by")
      let ttl ← ttl? (Row.getD raw "chunk_ttl_seconds" .null)
      some ⟨submittedPath, ingestedBy, ttl, scopes⟩
    else none
  | _ => none

theorem ofJson?_encode (o : IngestOptions) : ofJson? o.encode = some o := by
  obtain ⟨path, by_, ttl, scopes⟩ := o
  cases ttl <;> cases scopes <;>
    simp [encode, ofJson?, keys, Row.getD, lookup_cons, scopes?, str?, ttl?]

end IngestOptions

/-- `_flag_from_json`: only a JSON boolean sets a marker. -/
def flagFromJson : Json → Bool
  | .bool b => b
  | _ => false

/-! ### The encoder -/

namespace Payload

/-- The `job_type` of a class. -/
def jobType : Payload → String
  | ingest => "ingest"
  | reindex _ => "reindex"
  | delete _ => "delete"
  | exportJob _ _ => "export"
  | importJob _ => "import"
  | migration _ _ _ => "migration"
  | communityRebuild => "community_rebuild"
  | sync _ => "sync"
  | metadataReindex _ _ => "metadata_reindex"
  | description => "description"

def encode : Payload → Row
  | ingest => []
  | reindex targetEmbeddingModel => [("target_embedding_model", targetEmbeddingModel)]
  | delete deletedIds => [("deleted_ids", deletedIds)]
  | exportJob outputPath tmpPath => [("output_path", outputPath), ("tmp_path", tmpPath)]
  | importJob f =>
    [("archive_path", f.archivePath), ("force_overwrite", f.forceOverwrite),
      ("ignore_schema_version", f.ignoreSchemaVersion), ("on_error", f.onError),
      ("lines_consumed", f.linesConsumed), ("collection_claimed", f.collectionClaimed),
      ("collection_claim_revoked", f.collectionClaimRevoked)]
  | migration kind migrationsApplied backupConfirmed =>
    [("kind", .str kind.value), ("migrations_applied", migrationsApplied),
      ("backup_confirmed", backupConfirmed)]
  | communityRebuild => []
  | sync kind => [("kind", .str kind.value)]
  | metadataReindex kind dryRun => [("kind", .str kind.value), ("dry_run", dryRun)]
  | description => []

end Payload

def flagField (k : String) (flag : Bool) : Row :=
  optionalField k (if flag then some (.bool true) else none)

def encodeBase (j : Job) : Row :=
  [("job_id", j.jobId.toJson), ("status", .str j.status.value), ("created_at", j.createdAt),
    ("updated_at", j.updatedAt), ("result", j.result), ("error", j.error), ("namespace", j.ns),
    ("progress", j.progress), ("source", .str j.source.value), ("source_path", j.sourcePath),
    ("collection", j.collection), ("retry_count", j.retryCount)]

/-- The row `_write_atomic` writes for a job. -/
def encodeJob (j : Job) : Row :=
  encodeBase j ++ optionalField "ingest_options" (j.ingestOptions.map IngestOptions.encode) ++
    flagField "cancel_requested" j.cancelRequested ++
    flagField "cancelled_before_start" j.cancelledBeforeStart ++ j.payload.encode ++
    [("job_type", .str j.payload.jobType)]

/-! ### The decoder -/

/-- The keys of `IngestJob`. -/
def baseKeys : List String :=
  ["job_id", "status", "created_at", "updated_at", "result", "error", "namespace", "progress",
    "source", "source_path", "collection", "retry_count", "ingest_options", "cancel_requested",
    "cancelled_before_start"]

/-- `item.pop("job_type", "ingest")`. -/
def jobTypeOf (row : Row) : Json := Row.getD row "job_type" (.str "ingest")

/-- The fields of the class a row's `job_type` names, and the keys that class adds. An
unknown type is a plain ingest job. -/
def decodePayload (jobType : Json) (row : Row) : Option (Payload × List String) :=
  match jobType with
  | .str "export" =>
    some (.exportJob (Row.getD row "output_path" (.str "")) (Row.getD row "tmp_path" (.str "")),
      ["output_path", "tmp_path"])
  | .str "import" =>
    some (.importJob
      { archivePath := Row.getD row "archive_path" (.str "")
        forceOverwrite := Row.getD row "force_overwrite" (.bool false)
        ignoreSchemaVersion := Row.getD row "ignore_schema_version" (.bool false)
        onError := Row.getD row "on_error" (.str "fail")
        linesConsumed := Row.getD row "lines_consumed" (.int 0)
        collectionClaimed := Row.getD row "collection_claimed" (.bool false)
        collectionClaimRevoked := Row.getD row "collection_claim_revoked" (.bool false) },
      ["archive_path", "force_overwrite", "ignore_schema_version", "on_error", "lines_consumed",
        "collection_claimed", "collection_claim_revoked"])
  | .str "reindex" =>
    some (.reindex (Row.getD row "target_embedding_model" .null), ["target_embedding_model"])
  | .str "delete" => some (.delete (Row.getD row "deleted_ids" (.arr [])), ["deleted_ids"])
  | .str "migration" => do
    let kind ← MigrationKind.ofJson? (← row.lookup "kind")
    some (.migration kind (Row.getD row "migrations_applied" (.arr []))
      (Row.getD row "backup_confirmed" .null), ["kind", "migrations_applied", "backup_confirmed"])
  | .str "community_rebuild" => some (.communityRebuild, [])
  | .str "sync" => do
    let kind ← JobKind.ofJson? (← row.lookup "kind")
    some (.sync kind, ["kind"])
  | .str "metadata_reindex" => do
    let kind ← JobKind.ofJson? (← row.lookup "kind")
    some (.metadataReindex kind (Row.getD row "dry_run" (.bool false)), ["kind", "dry_run"])
  | .str "description" => some (.description, [])
  | _ => some (.ingest, [])

/-- The constructor call `Cls(**item)` refuses a key that is no field of the class. -/
def keysAllowed (row : Row) (extra : List String) : Bool :=
  row.all fun e => e.1 == "job_type" || baseKeys.contains e.1 || extra.contains e.1

def decodeJob (row : Row) : Option Job := do
  let status ← JobStatus.ofJson? (← row.lookup "status")
  let (payload, extra) ← decodePayload (jobTypeOf row) row
  let jobId ← row.lookup "job_id"
  let createdAt ← row.lookup "created_at"
  let updatedAt ← row.lookup "updated_at"
  let source ← IngestSource.ofJson? (Row.getD row "source" (.str "user"))
  -- the job id becomes a key of the store, so it must be hashable
  let jobId ← jobId.scalar?
  if keysAllowed row extra then
    some
      { jobId := jobId
        status := status
        createdAt := createdAt
        updatedAt := updatedAt
        result := Row.getD row "result" .null
        error := Row.getD row "error" .null
        ns := Row.getD row "namespace" (.str "default")
        progress := Row.getD row "progress" .null
        source := source
        sourcePath := Row.getD row "source_path" (.str "")
        collection := Row.getD row "collection" (.str "")
        retryCount := Row.getD row "retry_count" (.int 0)
        ingestOptions := (row.lookup "ingest_options").bind IngestOptions.ofJson?
        cancelRequested := flagFromJson (Row.getD row "cancel_requested" (.bool false))
        cancelledBeforeStart := flagFromJson (Row.getD row "cancelled_before_start" (.bool false))
        payload := payload }
  else none

/-! ### The round trip -/

section RoundTrip

variable (j : Job)

def Payload.extraKeys (p : Payload) : List String := p.encode.map Prod.fst

theorem lookup_encodeJob (k : String) : (encodeJob j).lookup k =
    ((encodeBase j).lookup k).or (
      (if k = "ingest_options" then j.ingestOptions.map IngestOptions.encode else none).or (
      (if k = "cancel_requested" ∧ j.cancelRequested = true then some (.bool true) else none).or (
      (if k = "cancelled_before_start" ∧ j.cancelledBeforeStart = true then some (.bool true)
        else none).or (
      (j.payload.encode.lookup k).or
      (if k = "job_type" then some (.str j.payload.jobType) else none))))) := by
  have hflag : ∀ (name : String) (flag : Bool), (flagField name flag).lookup k =
      if k = name ∧ flag = true then some (.bool true) else none := by
    intro name flag
    rw [flagField, lookup_optionalField]
    by_cases hk : k = name <;> simp [hk]
  have htype : List.lookup k [("job_type", Json.str j.payload.jobType)] =
      if k = "job_type" then some (.str j.payload.jobType) else none :=
    lookup_optionalField "job_type" k (some (.str j.payload.jobType))
  simp [encodeJob, lookup_append, hflag, htype, lookup_optionalField]

variable {j}

theorem mem_baseKeys_of_mem {e : String × Json} (he : e ∈ encodeBase j) : e.1 ∈ baseKeys := by
  have hks : (encodeBase j).map Prod.fst ⊆ baseKeys := by
    simp [encodeBase, baseKeys]
  exact hks (List.mem_map_of_mem he)

variable {k : String}

theorem lookup_of_base {v : Json} (h : (encodeBase j).lookup k = some v) :
    (encodeJob j).lookup k = some v := by
  rw [lookup_encodeJob, h, some_or]

theorem getD_of_base {v : Json} (h : (encodeBase j).lookup k = some v)
    (default : Json) : Row.getD (encodeJob j) k default = v := by
  rw [Row.getD, lookup_of_base h, getD_some]

variable (j)

theorem ingestOptions_encodeJob :
    ((encodeJob j).lookup "ingest_options").bind IngestOptions.ofJson? = j.ingestOptions := by
  have hpayl : j.payload.encode.lookup "ingest_options" = none := by
    cases j.payload <;> rfl
  rw [lookup_encodeJob, hpayl]
  cases h : j.ingestOptions <;> simp [encodeBase, lookup_cons, IngestOptions.ofJson?_encode]

theorem cancelRequested_encodeJob :
    flagFromJson (Row.getD (encodeJob j) "cancel_requested" (.bool false)) = j.cancelRequested := by
  have hpayl : j.payload.encode.lookup "cancel_requested" = none := by
    cases j.payload <;> rfl
  rw [Row.getD, lookup_encodeJob, hpayl]
  cases h : j.cancelRequested <;> simp [encodeBase, lookup_cons, flagFromJson]

theorem cancelledBeforeStart_encodeJob :
    flagFromJson (Row.getD (encodeJob j) "cancelled_before_start" (.bool false)) =
      j.cancelledBeforeStart := by
  have hpayl : j.payload.encode.lookup "cancelled_before_start" = none := by
    cases j.payload <;> rfl
  rw [Row.getD, lookup_encodeJob, hpayl]
  cases h : j.cancelledBeforeStart <;> simp [encodeBase, lookup_cons, flagFromJson]

theorem jobTypeOf_encodeJob : jobTypeOf (encodeJob j) = .str j.payload.jobType := by
  have hpayl : j.payload.encode.lookup "job_type" = none := by
    cases j.payload <;> rfl
  rw [jobTypeOf, Row.getD, lookup_encodeJob, hpayl]
  simp [encodeBase, lookup_cons]

theorem lookup_of_payload (hbase : baseKeys.contains k = false)
    (htype : k ≠ "job_type") : (encodeJob j).lookup k = j.payload.encode.lookup k := by
  have hne : ∀ k' ∈ baseKeys, k ≠ k' := by
    intro k' hk' h
    rw [h, contains_eq_mem] at hbase
    exact absurd hk' (of_decide_eq_false hbase)
  have hn : (encodeBase j).lookup k = none := by
    rw [lookup_eq_none_iff]
    intro e he
    refine bne_iff_ne.mpr (hne e.1 ?_)
    exact mem_baseKeys_of_mem he
  rw [lookup_encodeJob, hn, if_neg (hne "ingest_options" (by decide)),
    if_neg (fun h => hne "cancel_requested" (by decide) h.1),
    if_neg (fun h => hne "cancelled_before_start" (by decide) h.1), if_neg htype]
  simp

theorem decodePayload_encodeJob :
    decodePayload (jobTypeOf (encodeJob j)) (encodeJob j) =
      some (j.payload, j.payload.extraKeys) := by
  have hlook := fun k hbase htype => lookup_of_payload j (k := k) hbase htype
  rw [jobTypeOf_encodeJob]
  cases h : j.payload with
  | ingest => rfl
  | _ =>
    simp only [h] at hlook
    simp (disch := decide) [decodePayload, Payload.jobType, Payload.extraKeys, Payload.encode,
      Row.getD, hlook, lookup_cons]

theorem keysAllowed_encodeJob : keysAllowed (encodeJob j) j.payload.extraKeys = true := by
  rw [keysAllowed, List.all_eq_true]
  intro e he
  simp only [encodeJob, mem_append, mem_singleton] at he
  simp only [Bool.or_eq_true, beq_iff_eq, contains_eq_mem, decide_eq_true_eq]
  rcases he with ((((he | he) | he) | he) | he) | rfl
  · exact Or.inl (Or.inr (mem_baseKeys_of_mem he))
  · refine Or.inl (Or.inr ?_)
    rw [mem_optionalField he]
    decide
  · refine Or.inl (Or.inr ?_)
    rw [mem_optionalField he]
    decide
  · refine Or.inl (Or.inr ?_)
    rw [mem_optionalField he]
    decide
  · exact Or.inr (List.mem_map_of_mem he)
  · exact Or.inl (Or.inl rfl)

/-- **A row is read back as the job it was written for**, of the same class and with the
same fields. -/
theorem decodeJob_encodeJob : decodeJob (encodeJob j) = some j := by
  have hstat : (encodeJob j).lookup "status" = some (.str j.status.value) := lookup_of_base rfl
  have hid : (encodeJob j).lookup "job_id" = some j.jobId.toJson := lookup_of_base rfl
  have hcrd : (encodeJob j).lookup "created_at" = some j.createdAt := lookup_of_base rfl
  have hupd : (encodeJob j).lookup "updated_at" = some j.updatedAt := lookup_of_base rfl
  have hsrc : Row.getD (encodeJob j) "source" (.str "user") = .str j.source.value :=
    getD_of_base rfl _
  simp only [decodeJob, hstat, hid, hcrd, hupd, hsrc, decodePayload_encodeJob,
    bind_eq_bind, bind_some, JobStatus.ofJson?_value, IngestSource.ofJson?_value,
    Scalar.scalar?_toJson, keysAllowed_encodeJob, if_true, ingestOptions_encodeJob,
    cancelRequested_encodeJob, cancelledBeforeStart_encodeJob]
  rw [getD_of_base (k := "result") rfl, getD_of_base (k := "error") rfl,
    getD_of_base (k := "namespace") rfl, getD_of_base (k := "progress") rfl,
    getD_of_base (k := "source_path") rfl, getD_of_base (k := "collection") rfl,
    getD_of_base (k := "retry_count") rfl]

end RoundTrip

end ArchonSearch.Jobs
