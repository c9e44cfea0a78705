import Mathlib.Data.List.MinMax
import Mathlib.Data.Prod.Lex
import ArchonSearch.Jobs.Store
import ArchonSearch.Lib.Run

/-!
# Retrying failed ingests

A maintenance pass looks at the `FAILED` path ingests and creates a new job for some of them. How
often a path has been retried is written down nowhere: each retry carries its number, and a pass
finds the number of the last one among the jobs of the *retry key* that the job store still holds
(`History.of`). The job store forgets: every write drops the jobs that ended more than seven days
ago.

A job is what it was created with, its `Ticket`, and what becomes of it. The machine of this module
has the jobs in memory and in the file, and goes through a pass one call of the store at a time, so
that the process can die between any two of them. A call takes time, and its write fails before or
after it has replaced the file. The times of the rows that a restart rewrites are one, and the
health entries of the collections are left out: nothing reads them but `GET /status`.
-/

namespace ArchonSearch.Jobs.Retry

open Lib

/-! ### Jobs -/

structure Ticket where
  /-- `job_id`; numbers stand for the texts, which are compared. -/
  jobId : ℕ
  jobType : String
  /-- What `_created_at` reads from `created_at`, in microseconds. -/
  createdAt : Option ℤ
  /-- `namespace`. -/
  (ns collection sourcePath : String)
  source : IngestSource
  retryCount : ℕ
  ingestOptions : Option IngestOptions
  deriving DecidableEq

structure Record extends Ticket where
  status : JobStatus
  /-- `updated_at`, in microseconds. -/
  updatedAt : ℤ
  error : Option String := none
  cancelRequested : Bool := false
  cancelledBeforeStart : Bool := false
  deriving DecidableEq

def Record.key (r : Record) : ℕ := r.jobId

abbrev Table := Keyed Record.key

/-- `PROCESS_RESTART_ERROR`. -/
def processRestartError : String := "process_restart"

/-- `NOT_STARTED_BEFORE_RESTART_DETAIL`. -/
def notStartedBeforeRestartDetail : String :=
  "never started; the server restarted before it ran"

/-- `RETRY_DISPATCH_FAILED_DETAIL`. -/
def retryDispatchFailedDetail : String :=
  "maintenance retry could not be started; see the server log for details"

/-- `is_base_ingest`. -/
def Ticket.isBaseIngest (t : Ticket) : Bool := t.jobType == "ingest"

/-- `_retry_key`. -/
def retryKey (t : Ticket) : String := t.ns ++ "/" ++ t.collection ++ "/" ++ t.sourcePath

def ofKey (key : String) (t : Ticket) : Bool := t.sourcePath != "" && retryKey t == key

/-- `_unretriable_reason`. -/
def unretriableReason (r : Record) : Option String :=
  if r.ingestOptions = none then
    some "has no stored ingest options (its original request is unknown)"
  else if r.cancelRequested then some "was cancelled by a client (DELETE /jobs/{id})"
  else if r.error = some processRestartError then
    some <| "was running when the previous process died " ++
      "(a retry could re-enter the workload that killed it)"
  else none

/-- `_SUPERSEDING_STATUSES`. -/
def supersedingStatuses : List JobStatus := [.pending, .running, .done, .failed]

/-- `_supersedes`. -/
def supersedes (r : Record) : Bool := decide (r.status ∈ supersedingStatuses) || r.cancelRequested

/-! ### The history of a key -/

def lineage (keyJobs : List Record) : List (ℤ × Record) :=
  keyJobs.filterMap fun r => if supersedes r then r.createdAt.map fun c => (c, r) else none

def Rank : Type := ℤ ×ₗ Bool ×ₗ ℕ

instance : LinearOrder Rank := inferInstanceAs (LinearOrder (ℤ ×ₗ Bool ×ₗ ℕ))

def rank (p : ℤ × Record) : Rank :=
  toLex (p.1, toLex (p.2.status != .failed, p.2.jobId))

theorem rank_le_iff {p p' : ℤ × Record} : rank p ≤ rank p' ↔
    p.1 < p'.1 ∨ p.1 = p'.1 ∧ ((p.2.status != .failed) < (p'.2.status != .failed) ∨
      (p.2.status != .failed) = (p'.2.status != .failed) ∧ p.2.jobId ≤ p'.2.jobId) :=
  Prod.Lex.toLex_le_toLex.trans (or_congr_right (and_congr_right fun _ => Prod.Lex.toLex_le_toLex))

def origin (keyJobs : List Record) : Option ℤ :=
  match (((lineage keyJobs).filter fun p => p.2.source != .maintenance).map Prod.fst).max? with
  | some o => some o
  | none => ((lineage keyJobs).map Prod.fst).min?

def createdSince (o : Option ℤ) (r : Record) : Bool :=
  match o, r.createdAt with
  | some o, some c => decide (o ≤ c)
  | _, _ => false

def retriesFrom (o : Option ℤ) (keyJobs : List Record) : List Record :=
  keyJobs.filter fun r => r.source == .maintenance && createdSince o r

/-- `_RetryKeyHistory`. -/
structure History where
  latest : Option Record
  originCreated : Option ℤ
  failed : List Record
  attemptsUsed : ℕ

/-- `_RetryKeyHistory.of`. -/
def History.of (keyJobs : List Record) : History where
  latest := ((lineage keyJobs).argmax rank).map Prod.snd
  originCreated := origin keyJobs
  failed := keyJobs.filter fun r => r.isBaseIngest && r.status == .failed
  attemptsUsed := ((retriesFrom (origin keyJobs) keyJobs).map fun r => r.retryCount).max?.getD 0

/-! ### The store -/

structure Call where
  (stamp now₁ now₂ : ℤ)
  (outcome₁ outcome₂ : WriteOutcome)
  stamp_le : stamp ≤ now₁
  now₁_le : now₁ ≤ now₂

structure Store where
  (jobs saved : Table)

def Record.expired (now : ℤ) (r : Record) : Bool :=
  r.status.terminal && decide (r.updatedAt < now - evictionAge)

/-- `_evict_old`. -/
def evictOld (now : ℤ) (t : Table) : Table := t.filter fun r => !r.expired now

/-- `_write_atomic`, and whether it raised. -/
def writeAtomic (now : ℤ) (outcome : WriteOutcome) (s : Store) : Store × Bool :=
  let jobs := evictOld now s.jobs
  (⟨jobs, outcome.publish s.saved jobs⟩, outcome.raises)

def persistOrRollback (c : Call) (s : Store) (new : Table) (restore : Table → Table) :
    Store × Bool :=
  match writeAtomic c.now₁ c.outcome₁ { s with jobs := new } with
  | (s₁, false) => (s₁, true)
  | (s₁, true) => ((writeAtomic c.now₂ c.outcome₂ { s₁ with jobs := restore s₁.jobs }).1, false)

/-- `create_job`. -/
def createJob (c : Call) (r : Record) (s : Store) : Store × Bool :=
  persistOrRollback c s (s.jobs.insert r) fun jobs => jobs.erase r.key

structure Fields where
  status : JobStatus
  /-- `error`, if it is set. -/
  error : Option (Option String) := none
  /-- `cancel_requested` and `cancelled_before_start`, if they are set. -/
  cancel : Option Bool := none

def Record.replace (stamp : ℤ) (f : Fields) (r : Record) : Record :=
  { r with
    status := f.status
    updatedAt := stamp
    error := f.error.getD r.error
    cancelRequested := r.cancelRequested || f.cancel.isSome
    cancelledBeforeStart := f.cancel.getD r.cancelledBeforeStart }

/-- `update`: a failed persist keeps the change in memory. -/
def update (c : Call) (jobId : ℕ) (f : Fields) (s : Store) : Store :=
  match s.jobs.get? jobId with
  | none => s
  | some r =>
    (writeAtomic c.now₁ c.outcome₁ { s with jobs := s.jobs.insert (r.replace c.stamp f) }).1

/-- `transition`. -/
def transition (c : Call) (jobId : ℕ) (fromStatuses : List JobStatus) (f : Record → Fields)
    (s : Store) : Store :=
  match s.jobs.get? jobId with
  | none => s
  | some r =>
    if r.status ∈ fromStatuses then
      (persistOrRollback c s (s.jobs.insert (r.replace c.stamp (f r))) fun jobs =>
        jobs.insert r).1
    else s

/-- A job that `cancel_ingest_retries` cancels. -/
def isRetryCandidate (collection : String) (r : Record) : Bool :=
  r.isBaseIngest && r.collection == collection && (r.status == .failed || r.status == .pending)

/-- A job after `cancel_ingest_retries`. -/
def cancelledRetry (stamp : ℤ) (collection : String) (r : Record) : Record :=
  if isRetryCandidate collection r then r.replace stamp ⟨.cancelled, none, none⟩ else r

/-- `cancel_ingest_retries`. -/
def cancelIngestRetries (c : Call) (collection : String) (s : Store) : Store :=
  let oldJobs := s.jobs.items.filter (isRetryCandidate collection)
  if oldJobs.isEmpty then s
  else
    (persistOrRollback c s
      (s.jobs.map (cancelledRetry c.stamp collection) fun r => by
        unfold cancelledRetry
        split_ifs <;> rfl)
      fun jobs => oldJobs.foldl Keyed.insert jobs).1

/-- What `_load` makes of a job, if it rewrites it. -/
def recover? (stamp : ℤ) (r : Record) : Option Record :=
  if r.status = .cancelling ∧ r.cancelledBeforeStart = true then
    some (r.replace stamp ⟨.cancelled, none, none⟩)
  else if r.status = .running ∨ r.status = .cancelling then
    some (r.replace stamp ⟨.failed, some (some processRestartError), none⟩)
  else if r.status = .pending ∧ r.jobType ∈ notStartedOnLoadJobTypes ∨
      r.status = .queued ∧ r.jobType ∈ neverScheduledOnLoadJobTypes then
    some (r.replace stamp ⟨.failed, some (some notStartedBeforeRestartDetail), none⟩)
  else none

def recover (stamp : ℤ) (r : Record) : Record := (recover? stamp r).getD r

theorem ticket_recover (stamp : ℤ) (r : Record) : (recover stamp r).toTicket = r.toTicket := by
  unfold recover recover?
  split_ifs <;> rfl

theorem key_recover (stamp : ℤ) (r : Record) : (recover stamp r).key = r.key :=
  congrArg Ticket.jobId (ticket_recover stamp r)

/-- The jobs of the file, as `_load` leaves them in memory. -/
def loaded (c : Call) (saved : Table) : Table :=
  evictOld c.now₁ (saved.map (recover c.stamp) (key_recover c.stamp))

/-- What `_load` returns: it has rewritten or evicted a job. -/
def modified (c : Call) (saved : Table) : Bool :=
  saved.items.any (fun r => (recover? c.stamp r).isSome) ||
    decide ((loaded c saved).items.length < saved.items.length)

/-- `JobStore(path)`, and whether it raised. -/
def openStore (c : Call) (saved : Table) : Store × Bool :=
  if modified c saved then writeAtomic c.now₂ c.outcome₁ ⟨loaded c saved, saved⟩
  else (⟨loaded c saved, saved⟩, false)

/-! ### A pass -/

structure Config where
  failedIngestRetry : Bool
  (retryMaxAttempts retryMaxAgeHours : ℕ)
  exclude : List String

/-- `_is_excluded`. -/
def Config.isExcluded (cfg : Config) (ns col : String) : Bool :=
  cfg.exclude.any fun pattern =>
    if pattern.toList.contains '/' then pattern == ns ++ "/" ++ col else pattern == col

inductive Duty where
  | looking
  /-- `_end_retry_chain`: the jobs still to be expired. -/
  | expiring (jobIds : List ℕ)
  /-- `_start_retry_job`: the dispatch has raised, and that is to be written to the job. -/
  | failing (jobId : ℕ)

/-- A run of `_run_failed_ingest_retry`. -/
structure Pass where
  /-- `all_jobs`: the jobs when the pass began. -/
  allJobs : List Record
  now : ℤ
  rest : List Record
  seenKeys : List String
  duty : Duty

def Pass.keyJobs (p : Pass) (key : String) : List Record :=
  p.allJobs.filter fun r => ofKey key r.toTicket

/-- `cutoff`. -/
def Pass.cutoff (p : Pass) (cfg : Config) : ℤ :=
  p.now - cfg.retryMaxAgeHours * (60 * 60 * 1000000)

inductive Decision where
  | skip
  | leave
  | endChain (failed : List ℕ)
  | retry (attempt : ℕ)

/-- `_retry_or_end_chain`. -/
def retryOrEndChain (cfg : Config) (r : Record) (history : History) (cutoff : ℤ) : Decision :=
  let ended := .endChain (history.failed.map fun f => f.jobId)
  if (unretriableReason r).isSome then ended
  else match history.originCreated with
    | none => .leave
    | some o =>
      if o < cutoff then ended
      else if cfg.retryMaxAttempts ≤ history.attemptsUsed then ended
      else .retry (history.attemptsUsed + 1)

/-- `_is_superseded`. -/
def isSuperseded (r : Record) : Option Record → Bool
  | none => false
  | some latest => latest.jobId != r.jobId

/-- One turn of the loop of `_run_failed_ingest_retry`. -/
def Pass.decision (p : Pass) (cfg : Config) (r : Record) : Decision :=
  if !r.isBaseIngest || r.status != .failed then .skip
  else if r.sourcePath = "" then .skip
  else if retryKey r.toTicket ∈ p.seenKeys then .skip
  else if cfg.isExcluded r.ns r.collection then .leave
  else
    let history := History.of (p.keyJobs (retryKey r.toTicket))
    if isSuperseded r history.latest then .skip
    else retryOrEndChain cfg r history (p.cutoff cfg)

def Pass.mark (p : Pass) (r : Record) (rest : List Record) (duty : Duty) : Pass :=
  { p with rest := rest, seenKeys := retryKey r.toTicket :: p.seenKeys, duty := duty }

/-- The job that `_reenqueue_retry` creates. -/
def retryJob (stamp : ℤ) (jobId : ℕ) (r : Record) (attempt : ℕ) : Record where
  jobId := jobId
  jobType := "ingest"
  createdAt := some stamp
  ns := r.ns
  collection := r.collection
  sourcePath := r.sourcePath
  source := .maintenance
  retryCount := attempt
  ingestOptions := r.ingestOptions
  status := .pending
  updatedAt := stamp

/-! ### The machine -/

inductive Mode where
  | idle
  | pass : Pass → Mode
  | down

structure State where
  store : Store
  clock : ℤ
  mode : Mode
  entered : List Ticket

def State.init : State := ⟨⟨Keyed.empty, Keyed.empty⟩, 0, .idle, []⟩

inductive Event where
  /-- `POST /ingest`: a client submits a path, or a text, which has none. -/
  | submit : Call → (jobId : ℕ) → (ns collection sourcePath : String) → Option IngestOptions → Event
  | other : Call → (jobId : ℕ) → (jobType ns collection : String) → IngestSource → JobStatus → Event
  | claim : Call → (jobId : ℕ) → Event
  | finish : Call → (jobId : ℕ) → JobStatus → (error : Option String) → Event
  /-- `DELETE /jobs/{id}`. -/
  | cancel : Call → (jobId : ℕ) → Event
  | complete : Call → (jobId : ℕ) → Event
  /-- `DELETE /collections/{name}`. -/
  | drop : Call → (collection : String) → Event
  | write : Call → Event
  | restart : Call → Event
  | beginPass : (now : ℤ) → Event
  | look
  | reenqueue : Call → (jobId : ℕ) → (dispatched : Bool) → Event
  | expire : Call → Event
  | fail : Call → Event

def enter (jobs : Table) (entered : List Ticket) : List Ticket :=
  ((jobs.items.map fun r => r.toTicket).filter fun t =>
    decide (t.jobId ∉ entered.map fun u => u.jobId)) ++ entered

def State.after (s : State) (c : Call) (mode : Mode) (store : Store) : State :=
  ⟨store, c.now₂, mode, enter store.jobs s.entered⟩

def State.fresh (s : State) (jobId : ℕ) : Prop :=
  jobId ∉ s.entered.map (fun t => t.jobId) ∧ jobId ∉ s.store.saved.items.map fun r => r.jobId

instance (s : State) (jobId : ℕ) : Decidable (s.fresh jobId) :=
  inferInstanceAs (Decidable (_ ∧ _))

def State.call (s : State) (c : Call) (f : Store → Store) : Option State :=
  match s.mode with
  | .idle => if s.clock ≤ c.stamp then some (s.after c .idle (f s.store)) else none
  | _ => none

/-- A job of a class other than `IngestJob` has no path. -/
def otherJob (stamp : ℤ) (jobId : ℕ) (jobType ns collection : String) (source : IngestSource)
    (status : JobStatus) : Record where
  jobId := jobId
  jobType := jobType
  createdAt := some stamp
  ns := ns
  collection := collection
  sourcePath := ""
  source := source
  retryCount := 0
  ingestOptions := none
  status := status
  updatedAt := stamp

def submittedJob (stamp : ℤ) (jobId : ℕ) (ns collection sourcePath : String)
    (options : Option IngestOptions) : Record where
  jobId := jobId
  jobType := "ingest"
  createdAt := some stamp
  ns := ns
  collection := collection
  sourcePath := sourcePath
  source := .user
  retryCount := 0
  ingestOptions := options
  status := .pending
  updatedAt := stamp

def canFinish (jobs : Table) (jobId : ℕ) (status : JobStatus) : Bool :=
  (jobs.get? jobId).any (fun r => !r.status.terminal) &&
    decide (status ∈ [JobStatus.done, .failed, .cancelled])

def Pass.look (p : Pass) (cfg : Config) : Option Mode :=
  match p.duty, p.rest with
  | .looking, [] => some .idle
  | .looking, r :: rest =>
    match p.decision cfg r with
    | .skip => some (.pass { p with rest := rest })
    | .leave => some (.pass (p.mark r rest .looking))
    | .endChain failed => some (.pass (p.mark r rest (.expiring failed)))
    | .retry _ => none
  | .expiring [], _ => some (.pass { p with duty := .looking })
  | _, _ => none

def Pass.retries (p : Pass) (cfg : Config) : Option (Record × ℕ × List Record) :=
  match p.duty, p.rest with
  | .looking, r :: rest =>
    match p.decision cfg r with
    | .retry attempt => some (r, attempt, rest)
    | _ => none
  | _, _ => none

def step (cfg : Config) (s : State) : Event → Option State
  | .submit c jobId ns collection sourcePath options =>
    if s.fresh jobId then
      s.call c fun st =>
        (createJob c (submittedJob c.stamp jobId ns collection sourcePath options) st).1
    else none
  | .other c jobId jobType ns collection source status =>
    if s.fresh jobId ∧ jobType ≠ "ingest" ∧ source ≠ .maintenance ∧ status.terminal = false then
      s.call c fun st =>
        (createJob c (otherJob c.stamp jobId jobType ns collection source status) st).1
    else none
  | .claim c jobId => s.call c (transition c jobId [.pending] fun _ => ⟨.running, none, none⟩)
  | .finish c jobId status error =>
    if canFinish s.store.jobs jobId status then
      s.call c (update c jobId ⟨status, some error, none⟩)
    else none
  | .cancel c jobId =>
    s.call c (transition c jobId [.running, .pending] fun r =>
      ⟨.cancelling, none, some (r.status == .pending)⟩)
  | .complete c jobId =>
    s.call c (transition c jobId [.cancelling] fun _ => ⟨.cancelled, none, none⟩)
  | .drop c collection => s.call c (cancelIngestRetries c collection)
  | .write c => s.call c fun st => (writeAtomic c.now₁ c.outcome₁ st).1
  | .restart c =>
    if s.clock ≤ c.stamp then
      match openStore c s.store.saved with
      | (store, false) => some (s.after c .idle store)
      | (store, true) => some (s.after c .down { store with jobs := Keyed.empty })
    else none
  | .beginPass now =>
    match s.mode with
    | .idle =>
      if s.clock ≤ now then
        if cfg.failedIngestRetry then
          some { s with
            clock := now
            mode := .pass ⟨s.store.jobs.items, now, s.store.jobs.items, [], .looking⟩ }
        else some { s with clock := now }
      else none
    | _ => none
  | .look =>
    match s.mode with
    | .pass p => (p.look cfg).map fun mode => { s with mode := mode }
    | _ => none
  | .reenqueue c jobId dispatched =>
    match s.mode with
    | .pass p =>
      if s.fresh jobId ∧ s.clock ≤ c.stamp then
        (p.retries cfg).map fun x =>
          match createJob c (retryJob c.stamp jobId x.1 x.2.1) s.store with
          | (store, true) =>
            s.after c (.pass (p.mark x.1 x.2.2 (if dispatched then .looking else .failing jobId)))
              store
          | (store, false) => s.after c (.pass (p.mark x.1 x.2.2 .looking)) store
      else none
    | _ => none
  | .expire c =>
    match s.mode with
    | .pass p =>
      match p.duty with
      | .expiring (jobId :: jobIds) =>
        if s.clock ≤ c.stamp then
          some (s.after c (.pass { p with duty := .expiring jobIds })
            (transition c jobId [.failed] (fun _ => ⟨.failedExpired, none, none⟩) s.store))
        else none
      | _ => none
    | _ => none
  | .fail c =>
    match s.mode with
    | .pass p =>
      match p.duty with
      | .failing jobId =>
        if s.clock ≤ c.stamp then
          some (s.after c (.pass { p with duty := .looking })
            (update c jobId ⟨.failed, some (some retryDispatchFailedDetail), none⟩ s.store))
        else none
      | _ => none
    | _ => none

/-! ### What is counted -/

def isSubmission (key : String) (t : Ticket) : Bool := t.source == .user && ofKey key t

def isRetry (key : String) (t : Ticket) : Bool := t.source == .maintenance && ofKey key t

def retriesSince (key : String) (entered : List Ticket) : List Ticket :=
  (entered.takeWhile fun t => !isSubmission key t).filter (isRetry key)

end ArchonSearch.Jobs.Retry
