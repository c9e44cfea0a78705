import ArchonSearch.Py.Json
import ArchonSearch.Lib.Keyed

/-!
# Jobs

The ten job classes of `types.py`: `IngestJob` and nine dataclasses that extend it. A job
is modelled by the fields of `IngestJob` and a payload that tells the class and holds the
fields the class adds. Fields that the server never checks when it loads a job file – a
time stamp, a collection name, a result – hold an arbitrary JSON value, which is what they
hold after a load; the ones it re-types on loading have their type.
-/

namespace ArchonSearch.Jobs

open Py

/-! ### Enumerations -/

/-- `JobStatus`. -/
inductive JobStatus where
  | pending
  | queued
  | running
  | done
  | failed
  | failedExpired
  | cancelled
  | cancelling
  deriving DecidableEq

namespace JobStatus

def value : JobStatus → String
  | pending => "PENDING"
  | queued => "QUEUED"
  | running => "RUNNING"
  | done => "DONE"
  | failed => "FAILED"
  | failedExpired => "FAILED_EXPIRED"
  | cancelled => "CANCELLED"
  | cancelling => "CANCELLING"

def members : List JobStatus :=
  [pending, queued, running, done, failed, failedExpired, cancelled, cancelling]

/-- `JobStatus(value)`. -/
def ofJson? : Json → Option JobStatus := enumOf members value

@[simp] theorem ofJson?_value (s : JobStatus) : ofJson? (.str s.value) = some s := by
  cases s <;> rfl

/-- `_TERMINAL_STATUSES`. -/
def terminal : JobStatus → Bool
  | done | failed | failedExpired | cancelled => true
  | _ => false

end JobStatus

/-- The values `IngestJob.source` may have. -/
inductive IngestSource where
  | user
  | backup
  | maintenance
  deriving DecidableEq

namespace IngestSource

def value : IngestSource → String
  | user => "user"
  | backup => "backup"
  | maintenance => "maintenance"

/-- The check of `IngestJob.__post_init__`. -/
def ofJson? : Json → Option IngestSource := enumOf [user, backup, maintenance] value

@[simp] theorem ofJson?_value (s : IngestSource) : ofJson? (.str s.value) = some s := by
  cases s <;> rfl

end IngestSource

/-- `MigrationKind`. -/
inductive MigrationKind where
  | inPlace
  | rewrite
  | exportRebuild

namespace MigrationKind

def value : MigrationKind → String
  | inPlace => "in_place"
  | rewrite => "rewrite"
  | exportRebuild => "export_rebuild"

/-- `MigrationKind(value)`. -/
def ofJson? : Json → Option MigrationKind := enumOf [inPlace, rewrite, exportRebuild] value

@[simp] theorem ofJson?_value (k : MigrationKind) : ofJson? (.str k.value) = some k := by
  cases k <;> rfl

end MigrationKind

/-- `JobKind`. -/
inductive JobKind where
  | sync
  | metadataReindex

namespace JobKind

def value : JobKind → String
  | sync => "sync"
  | metadataReindex => "metadata_reindex"

/-- `JobKind(value)`. -/
def ofJson? : Json → Option JobKind := enumOf [sync, metadataReindex] value

@[simp] theorem ofJson?_value (k : JobKind) : ofJson? (.str k.value) = some k := by
  cases k <;> rfl

end JobKind

/-! ### Jobs -/

/-- `IngestOptions`. -/
structure IngestOptions where
  submittedPath : String
  /-- The `X-Ingested-By` header. -/
  ingestedBy : String
  chunkTtlSeconds : Option ℤ := none
  chunkScopes : Option (List String) := none
  deriving DecidableEq

/-- The fields `ImportJob` adds. -/
structure ImportFields where
  archivePath : Json := .str ""
  forceOverwrite : Json := .bool false
  ignoreSchemaVersion : Json := .bool false
  onError : Json := .str "fail"
  /-- `lines_consumed`: the archive lines read so far, the resume position. -/
  linesConsumed : Json := .int 0
  /-- `collection_claimed`: a run of this job has claimed the collection. -/
  collectionClaimed : Json := .bool false
  /-- `collection_claim_revoked`: another import has claimed it since. -/
  collectionClaimRevoked : Json := .bool false

/-- The class of a job, with the fields it adds to `IngestJob`. -/
inductive Payload where
  /-- `IngestJob` itself. -/
  | ingest
  /-- `ReindexJob`. -/
  | reindex : (targetEmbeddingModel : Json) → Payload
  /-- `DeleteJob`. -/
  | delete : (deletedIds : Json) → Payload
  | exportJob : (outputPath tmpPath : Json) → Payload
  | importJob : ImportFields → Payload
  /-- `MigrationJob`. -/
  | migration : (kind : MigrationKind) → (migrationsApplied backupConfirmed : Json) → Payload
  /-- `CommunityRebuildJob`. -/
  | communityRebuild
  /-- `SyncJob`. -/
  | sync : (kind : JobKind) → Payload
  /-- `MetadataReindexJob`. -/
  | metadataReindex : (kind : JobKind) → (dryRun : Json) → Payload
  /-- `DescriptionJob`. -/
  | description

structure Job where
  /-- `job_id`: the key of the job in the store. -/
  jobId : Scalar
  status : JobStatus
  (createdAt updatedAt : Json)
  result : Json := .null
  error : Json := .null
  /-- `namespace`. -/
  ns : Json := .str "default"
  progress : Json := .null
  /-- `source`; `__post_init__` admits no other value. -/
  source : IngestSource := .user
  sourcePath : Json := .str ""
  collection : Json := .str ""
  retryCount : Json := .int 0
  ingestOptions : Option IngestOptions := none
  cancelRequested : Bool := false
  cancelledBeforeStart : Bool := false
  payload : Payload := .ingest

def Job.key (j : Job) : Key := j.jobId.key

/-- `is_base_ingest`: exactly `IngestJob`, none of its subclasses. -/
def Job.isBaseIngest (j : Job) : Bool :=
  match j.payload with
  | .ingest => true
  | _ => false

/-- The jobs of a store: a dictionary from `job_id`. -/
abbrev Table := Lib.Keyed Job.key

end ArchonSearch.Jobs
