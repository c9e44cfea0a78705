import ArchonSearch.DurableIo
import ArchonSearch.Jobs.Codec

/-!
# The job store

`jobs.store.JobStore` keeps the jobs in memory and mirrors them to a JSON file. Every
write evicts the terminal jobs that are older than the eviction age, then serializes what
is left; every load decodes the rows, completes what the previous process left unfinished
and evicts.

Time enters in two ways. The store stamps jobs with the text of the clock
(`datetime.now(UTC).isoformat()`) and compares stamps with the clock by parsing them back
(`datetime.fromisoformat`). The parser is a parameter, which maps a text to the instant of an aware
time in microseconds and to nothing when comparing it would raise; a `Reading` of the clock comes
with the fact that its text parses to its instant.
-/

namespace ArchonSearch.Jobs

open Py Lib

section Clock

variable (fromisoformat : String → Option ℤ)

/-- A reading of the clock, as `_now_iso` returns it. -/
structure Reading where
  /-- `datetime.now(UTC).isoformat()`. -/
  text : String
  instant : ℤ
  parses : fromisoformat text = some instant

/-! ### Eviction -/

/-- `_EVICTION_DAYS`, in microseconds. -/
def evictionAge : ℤ := 7 * 24 * 60 * 60 * 1000000

/-- The instant of a job's `updated_at`; none when comparing it with the clock raises. -/
def Job.updatedInstant? (j : Job) : Option ℤ :=
  match j.updatedAt with
  | .str s => fromisoformat s
  | _ => none

/-- A terminal job older than the eviction age at time `now`. -/
def Job.expired (now : ℤ) (j : Job) : Bool :=
  j.status.terminal && (match j.updatedInstant? fromisoformat with
    | some t => decide (t < now - evictionAge)
    | none => false)

def Timed (t : Table) : Prop :=
  ∀ j ∈ t.items, j.status.terminal = true → (j.updatedInstant? fromisoformat).isSome = true

instance (t : Table) : Decidable (Timed fromisoformat t) :=
  inferInstanceAs (Decidable (∀ j ∈ t.items, _ → _ = true))

/-- `_evict_old`: drop the expired jobs, or raise at one whose age cannot be told. -/
def evictOld (now : ℤ) (t : Table) : Option Table :=
  if Timed fromisoformat t then some (t.filter fun j => !j.expired fromisoformat now) else none

end Clock

/-! ### The file -/

inductive JobsFile where
  | missing
  | unparseable
  | json : Json → JobsFile

/-- The rows `_write_atomic` serializes. -/
def encodeTable (t : Table) : Json := .arr (t.items.map fun j => .obj (encodeJob j))

/-- The dictionaries `for item in raw` goes through; other values raise. -/
def rows? : Json → Option (List Row)
  | .arr items => items.mapM fun
    | .obj row => some row
    | _ => none
  | .obj [] => some []
  | .str "" => some []
  | _ => none

@[simp] theorem rows?_encodeTable (t : Table) :
    rows? (encodeTable t) = some (t.items.map encodeJob) := by
  simp only [rows?, encodeTable]
  induction t.items with
  | nil => rfl
  | cons j l ih => simp [ih]

def decodeTable (file : JobsFile) : Option Table :=
  match file with
  | .json v => ((rows? v).bind fun rows => rows.mapM decodeJob).map Keyed.ofList
  | _ => none

/-- **A written file decodes to the table it was written from.** -/
theorem decodeTable_encodeTable (t : Table) : decodeTable (.json (encodeTable t)) = some t := by
  have hrw : (t.items.map encodeJob).mapM decodeJob = some t.items := by
    induction t.items with
    | nil => rfl
    | cons j l ih => simp [ih, decodeJob_encodeJob]
  simp only [decodeTable, rows?_encodeTable, Option.bind_some, hrw, Option.map_some]
  exact congrArg some (Keyed.ext (Keyed.items_ofList t.nodup))

structure Store where
  jobs : Table
  /-- The file at `_path`. -/
  file : JobsFile

section Mutations

variable (fromisoformat : String → Option ℤ)

/-- `_write_atomic`: the store afterwards, and whether the call raised. The eviction
happens in memory before anything is written. -/
def writeAtomic (now : ℤ) (outcome : WriteOutcome) (s : Store) : Store × Bool :=
  match evictOld fromisoformat now s.jobs with
  | none => (s, true)
  | some jobs => (⟨jobs, outcome.publish s.file (.json (encodeTable jobs))⟩, outcome.raises)

/-- A change of the fields of a job other than its id, as `dataclasses.replace` makes it. -/
structure FieldUpdate where
  apply : Job → Job
  key_apply : ∀ j, (apply j).key = j.key

structure Attempt where
  /-- The reading of `_now_iso` that stamps the job. -/
  stamp : Reading fromisoformat
  now₁ : ℤ
  outcome₁ : WriteOutcome
  now₂ : ℤ
  outcome₂ : WriteOutcome

inductive CallResult where
  | unchanged
  | persisted
  /-- The persist failed and memory was rolled back; `rewritten` tells whether the
  corrective rewrite succeeded. -/
  | rolledBack (rewritten : Bool)
  deriving DecidableEq

variable {fromisoformat}

/-- Persist a new table; when that fails, restore the old jobs in memory and rewrite the
file from memory (`_rewrite_after_failed_persist`). -/
def persistOrRollback (a : Attempt fromisoformat) (s : Store) (new : Table)
    (restore : Table → Table) : Store × CallResult :=
  match writeAtomic fromisoformat a.now₁ a.outcome₁ { s with jobs := new } with
  | (s₁, false) => (s₁, .persisted)
  | (s₁, true) =>
    match writeAtomic fromisoformat a.now₂ a.outcome₂ { s₁ with jobs := restore s₁.jobs } with
    | (s₂, raised) => (s₂, .rolledBack !raised)

inductive PersistError where
  | notPersisted

structure CallOutcome (α : Type*) where
  store : Store
  result : CallResult
  returned : Except PersistError α

def reraise {α : Type*} (r : Store × CallResult) (value : α) : CallOutcome α where
  store := r.1
  result := r.2
  returned := match r.2 with
    | .rolledBack _ => .error .notPersisted
    | _ => .ok value

/-- `create_job`: store a new job; a failed persist removes it again. -/
def createJob (a : Attempt fromisoformat) (job : Job) (s : Store) : CallOutcome Job :=
  reraise (persistOrRollback a s (s.jobs.insert job) fun jobs => jobs.erase job.key) job

/-- The job `update` stores. -/
def stamped (r : Reading fromisoformat) (j : Job) : Job := { j with updatedAt := .str r.text }

/-- How `update` ended. -/
inductive UpdateResult where
  | updated
  /-- `KeyError`: there is no such job. -/
  | unknownJob
  | notPersisted

/-- `update`: apply the fields and persist; a failed persist keeps them in memory. -/
def update (r : Reading fromisoformat) (now : ℤ) (outcome : WriteOutcome) (jobId : Key)
    (fields : FieldUpdate) (s : Store) : Store × UpdateResult :=
  match s.jobs.get? jobId with
  | none => (s, .unknownJob)
  | some job =>
    match writeAtomic fromisoformat now outcome
        { s with jobs := s.jobs.insert (stamped r (fields.apply job)) } with
    | (s', false) => (s', .updated)
    | (s', true) => (s', .notPersisted)

def transitioned (r : Reading fromisoformat) (toStatus : JobStatus) (fields : FieldUpdate)
    (job : Job) : Job :=
  stamped r { fields.apply job with status := toStatus }

/-- `transition`: change the status if it is one of `fromStatuses`; a failed persist
restores the job. -/
def transition (a : Attempt fromisoformat) (jobId : Key) (fromStatuses : List JobStatus)
    (toStatus : JobStatus) (fields : FieldUpdate) (s : Store) : CallOutcome (Option Job) :=
  match s.jobs.get? jobId with
  | none => ⟨s, .unchanged, .ok none⟩
  | some job =>
    if job.status ∈ fromStatuses then
      let updated := transitioned a.stamp toStatus fields job
      reraise (persistOrRollback a s (s.jobs.insert updated) fun jobs => jobs.insert job)
        (some updated)
    else ⟨s, .unchanged, .ok none⟩

def isRetryCandidate (collection : String) (j : Job) : Bool :=
  j.isBaseIngest && (match j.collection with
    | .str c => c == collection
    | _ => false) && (j.status == .failed || j.status == .pending)

def cancelledRetry (r : Reading fromisoformat) (collection : String) (j : Job) : Job :=
  if isRetryCandidate collection j then stamped r { j with status := .cancelled } else j

@[simp] theorem key_cancelledRetry (r : Reading fromisoformat) (collection : String) (j : Job) :
    (cancelledRetry r collection j).key = j.key := by
  unfold cancelledRetry
  split_ifs <;> rfl

/-- `cancel_ingest_retries`: cancel the retry candidates of a dropped collection in one
write; a failed persist restores every one of them and is only logged. -/
def cancelIngestRetries (a : Attempt fromisoformat) (collection : String) (s : Store) :
    CallOutcome Unit :=
  let oldJobs := s.jobs.items.filter (isRetryCandidate collection)
  if oldJobs.isEmpty then ⟨s, .unchanged, .ok ()⟩
  else
    let r := persistOrRollback a s
      (s.jobs.map (cancelledRetry a.stamp collection) (key_cancelledRetry a.stamp collection))
      fun jobs => oldJobs.foldl Keyed.insert jobs
    ⟨r.1, r.2, .ok ()⟩

end Mutations

/-! ### Loading -/

/-- What `_load` does to a job the previous process left behind. -/
inductive Rewrite where
  | keep
  | cancelled
  | processRestart (armsGuard : Bool)
  | notStarted

/-- `_INGEST_FAMILY_JOB_TYPES`. -/
def ingestFamilyJobTypes : List String := ["ingest", "sync"]

/-- `_NOT_STARTED_ON_LOAD_JOB_TYPES`. -/
def notStartedOnLoadJobTypes : List String := ["ingest", "reindex"]

/-- `_NEVER_SCHEDULED_ON_LOAD_JOB_TYPES`. -/
def neverScheduledOnLoadJobTypes : List String :=
  ["community_rebuild", "metadata_reindex", "sync", "description"]

/-- The recovery branches of `_load`; testing an unhashable `job_type` raises. -/
def rewriteOf (jobType : Json) (j : Job) : Option Rewrite :=
  if j.status = .cancelling ∧ j.cancelledBeforeStart = true then some .cancelled
  else if j.status = .running ∨ j.status = .cancelling then
    (memStrings ingestFamilyJobTypes jobType).map .processRestart
  else if j.status = .pending then
    (memStrings notStartedOnLoadJobTypes jobType).map fun b => if b then .notStarted else .keep
  else if j.status = .queued then
    (memStrings neverScheduledOnLoadJobTypes jobType).map fun b => if b then .notStarted else .keep
  else some .keep

section Load

variable {fromisoformat : String → Option ℤ}

def Rewrite.apply (r : Reading fromisoformat) : Rewrite → Job → Job
  | keep, j => j
  | cancelled, j => stamped r { j with status := .cancelled }
  | processRestart _, j => stamped r { j with status := .failed, error := .str "process_restart" }
  | notStarted, j =>
    stamped r { j with
      status := .failed, error := .str "never started; the server restarted before it ran" }

def Rewrite.modifies : Rewrite → Bool
  | keep => false
  | _ => true

/-- Whether the rewrite latches `crashed_ingest_on_load`. -/
def Rewrite.latches : Rewrite → Bool
  | processRestart armsGuard => armsGuard
  | _ => false

@[simp] theorem Rewrite.key_apply (r : Reading fromisoformat) (w : Rewrite) (j : Job) :
    (w.apply r j).key = j.key := by
  cases w <;> rfl

/-- One turn of the loop of `_load`. -/
def loadRow (r : Reading fromisoformat) (row : Row) : Option (Job × Rewrite) := do
  let j ← decodeJob row
  let w ← rewriteOf (jobTypeOf row) j
  some (w.apply r j, w)

/-- The loop of `_load`; the clock may be read anew for every row. -/
def loadRows (readings : ℕ → Reading fromisoformat) : List Row → Option (List (Job × Rewrite))
  | [] => some []
  | row :: rows => do
    let e ← loadRow (readings 0) row
    let es ← loadRows (fun i => readings (i + 1)) rows
    some (e :: es)

/-- What `_load` returns and sets. -/
structure Loaded where
  jobs : Table
  modified : Bool
  /-- `crashed_ingest_on_load`. -/
  crashed : Bool

/-- `_load` on a file that parses as JSON; none when it takes the corrupt-file branch. The
guard is latched while the rows are read, before the eviction. -/
def load (readings : ℕ → Reading fromisoformat) (now : ℤ) (v : Json) : Option Loaded := do
  let rows ← rows? v
  let loaded ← loadRows readings rows
  let jobs : Table := Keyed.ofList (loaded.map Prod.fst)
  let kept ← evictOld fromisoformat now jobs
  some
    { jobs := kept
      modified := loaded.any (fun e => e.2.modifies) ||
        decide (kept.items.length < jobs.items.length)
      crashed := loaded.any fun e => e.2.latches }

/-- `_load`: a missing file is an empty store, and so is a corrupt one. -/
def loadFile (readings : ℕ → Reading fromisoformat) (now : ℤ) : JobsFile → Loaded
  | .json v => (load readings now v).getD ⟨Keyed.empty, false, false⟩
  | _ => ⟨Keyed.empty, false, false⟩

structure Opened where
  store : Store
  /-- `crashed_ingest_on_load`. -/
  crashed : Bool

/-- `JobStore.__init__`: load, and rewrite the file if the load changed anything. The store,
and whether that write raised. -/
def reopen (readings : ℕ → Reading fromisoformat) (now₁ now₂ : ℤ) (outcome : WriteOutcome)
    (file : JobsFile) : Opened × Bool :=
  let loaded := loadFile readings now₁ file
  if loaded.modified then
    match writeAtomic fromisoformat now₂ outcome ⟨loaded.jobs, file⟩ with
    | (s, raised) => (⟨s, loaded.crashed⟩, raised)
  else (⟨⟨loaded.jobs, file⟩, loaded.crashed⟩, false)

/-- `JobStore(path)`: none when the constructor raises. -/
def openStore (readings : ℕ → Reading fromisoformat) (now₁ now₂ : ℤ) (outcome : WriteOutcome)
    (file : JobsFile) : Option Opened :=
  match reopen readings now₁ now₂ outcome file with
  | (opened, false) => some opened
  | (_, true) => none

end Load

end ArchonSearch.Jobs
