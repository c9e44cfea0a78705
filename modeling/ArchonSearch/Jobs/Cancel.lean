import ArchonSearch.Jobs.Pointer

/-!
# Cancelling a job

`DELETE /jobs/{id}` does not stop a task: it moves the job to `CANCELLING`, and the task is to find
that out and write `CANCELLED` when it stops. Seven routines drive seven kinds of job. An ingest,
an import and a reindex look for a cancel right before they write `DONE`, with nothing in between.
An export looks after each chunk, and then awaits the metadata of the collection; a migration, a
community rebuild and a metadata reindex never look.

The machine of this module has one job table, and a task for each job that is being driven; a task
stands at one of its awaits (`Stage`), and what it does from there to the next one is one event.
Whatever the interleaving, a job that is over stays as it is, unless it is resumed, expired or given
up with its collection; and a job whose cancel was accepted is never `DONE` before it has failed and
been resumed, exactly in the runs in which none of the four kinds above ends its work while its job
is `CANCELLING` (`honoured_iff`).
-/

namespace ArchonSearch.Jobs.Cancel

open Lib Pointer List Option

/-! ### Jobs and tasks -/

inductive Kind where
  /-- `IngestJob`. -/
  | ingest
  /-- `ReindexJob`. -/
  | reindex
  | exportJob
  | importJob
  /-- `MigrationJob`. -/
  | migration
  /-- `CommunityRebuildJob`. -/
  | communityRebuild
  /-- `MetadataReindexJob`. -/
  | metadataReindex
  deriving DecidableEq

def Kind.isBulk : Kind → Bool
  | exportJob | importJob | migration => true
  | ingest | reindex | communityRebuild | metadataReindex => false

structure Record where
  jobId : ℕ
  kind : Kind
  collection : String
  status : JobStatus

abbrev Table := Keyed Record.jobId

def rewrite (f : Record → JobStatus) (jobs : Table) : Table :=
  jobs.map (fun r => { r with status := f r }) fun _ => rfl

def setStatus (jobId : ℕ) (f : Record → JobStatus) : Table → Table :=
  rewrite fun r => if r.jobId = jobId then f r else r.status

inductive Stage where
  /-- `create_collection_job` records the pointer to the job. -/
  | recording
  /-- A retry waits for the lock of the collection: `_run_maintenance_retry`. -/
  | waiting
  | created
  /-- `_reindex_task` loads the embedder. -/
  | loading
  | working
  /-- `_export_task` reads the metadata, after the last chunk. -/
  | packaging
  /-- `_reindex_task` promotes the model. -/
  | promoting
  | clearing : Ending → Stage
  deriving DecidableEq

structure Task where
  jobId : ℕ
  kind : Kind
  stage : Stage
  deriving DecidableEq

inductive Outcome where
  | succeeds (saved : Bool)
  | fails
  | checks (saved : Bool)
  | stops
  deriving DecidableEq

inductive Write where
  | keep
  /-- `transition({PENDING}, RUNNING)`. -/
  | claim
  | ending : Ending → Write

def Write.apply : Write → JobStatus → JobStatus
  | keep, status => status
  | claim, status => if status = .pending then .running else status
  | ending e, status => e.apply status

structure Move where
  write : Write
  stage : Option Stage

def Move.finish (e : Ending) : Move := ⟨.ending e, none⟩

def Move.goOn (stage : Stage) : Move := ⟨.keep, some stage⟩

def Move.die : Move := ⟨.keep, none⟩

/-! ### What each task does -/

/-- `_claim_ingest`. -/
def claimIngest (status : Option JobStatus) (saved : Bool) : Move :=
  if status = some .pending then
    if saved then ⟨.claim, some .working⟩ else .finish (.write .failed)
  else .finish .cancelOnly

/-- `_default_ingest_task`, `_default_ingest_task_with_lock` and `_run_maintenance_retry`, which
do not await before the claim. -/
def ingestTask (status : Option JobStatus) : Stage → Outcome → Option Move
  | .waiting, .stops => some (.finish .cancelOnly)
  | .created, .stops => some .die
  | .waiting, .succeeds saved | .created, .succeeds saved => some (claimIngest status saved)
  | .working, .succeeds _ => some (.finish (.orCancel .done))
  | .working, .fails => some (.finish (.write .failed))
  | .working, .stops => some (.finish (.write .cancelled))
  | _, _ => none

/-- The guards of `_reindex_task`. -/
def guardReindex : Option JobStatus → Move
  | none | some .cancelling | some .cancelled => .goOn (.clearing .cancelOnly)
  | some _ => .goOn .loading

/-- `_claim_reindex`. -/
def claimReindex (status : Option JobStatus) (saved : Bool) : Move :=
  if status = some .pending then
    if saved then ⟨.claim, some .working⟩ else .goOn (.clearing (.orCancel .failed))
  else if status = some .running then .die
  else .goOn (.clearing .cancelOnly)

/-- `reindex_collection` and `_reindex_task`. -/
def reindexTask (status : Option JobStatus) : Stage → Outcome → Option Move
  | .recording, .succeeds _ => some (.goOn .created)
  -- `_reindex_not_recorded_500`
  | .recording, .fails => some (.finish (.write .failed))
  | .created, .succeeds _ => some (guardReindex status)
  | .loading, .succeeds saved => some (claimReindex status saved)
  | .loading, .fails => some (.goOn (.clearing (.orCancel .failed)))
  | .working, .succeeds _ =>
    if status = some .cancelling then some (.goOn (.clearing .cancelOnly))
    else some (.goOn .promoting)
  | .working, .fails => some (.goOn (.clearing (.write .failed)))
  | .working, .stops => some (.goOn (.clearing (.write .cancelled)))
  | .promoting, .succeeds _ => some (.finish (.orCancel .done))
  | .clearing e, .succeeds _ => some (.finish e)
  | _, .stops => some .die
  | _, _ => none

/-- The write of an end that, when it raises, is followed by that of `FAILED`. -/
def endOrFail (saved : Bool) (e : Ending) : Move :=
  .finish (if saved then e else .write .failed)

/-- `_export_task`. -/
def exportTask (status : Option JobStatus) : Stage → Outcome → Option Move
  | .working, .checks saved =>
    if status = some .cancelling then some (endOrFail saved (.write .cancelled))
    else some (.goOn .working)
  | .working, .succeeds _ => some (.goOn .packaging)
  | .packaging, .succeeds saved => some (endOrFail saved (.write .done))
  | .working, .fails | .packaging, .fails => some (.finish (.write .failed))
  | _, .stops => some .die
  | _, _ => none

/-- `_import_task`. -/
def importTask (status : Option JobStatus) : Stage → Outcome → Option Move
  | .working, .checks saved =>
    if status = some .cancelling then some (endOrFail saved (.write .cancelled))
    else some (.goOn .working)
  | .working, .succeeds saved => some (endOrFail saved (.orCancel .done))
  | .working, .fails => some (.finish (.write .failed))
  | .working, .stops => some .die
  | _, _ => none

/-- `_migration_task`. -/
def migrationTask : Stage → Outcome → Option Move
  | .working, .succeeds saved => some (endOrFail saved (.write .done))
  | .working, .fails => some (.finish (.write .failed))
  | .working, .stops => some .die
  | _, _ => none

/-- `rebuild_communities` and `_community_rebuild_task`. -/
def communityRebuildTask : Stage → Outcome → Option Move
  | .recording, .succeeds _ => some (.goOn .working)
  | .working, .succeeds _ => some (.goOn (.clearing (.write .done)))
  | .working, .fails => some (.goOn (.clearing (.write .failed)))
  | .clearing e, .succeeds _ => some (.finish e)
  | _, .stops => some .die
  | _, _ => none

/-- `reindex_metadata` and `_reindex_metadata_task`. -/
def metadataReindexTask : Stage → Outcome → Option Move
  | .recording, .succeeds _ => some (.goOn .working)
  | .working, .succeeds _ => some (.goOn (.clearing (.write .done)))
  | .working, .fails => some (.goOn (.clearing (.write .failed)))
  | .clearing e, .succeeds saved => some (endOrFail saved e)
  | _, .stops => some .die
  | _, _ => none

def Task.move (t : Task) (status : Option JobStatus) (o : Outcome) : Option Move :=
  match t.kind with
  | .ingest => ingestTask status t.stage o
  | .reindex => reindexTask status t.stage o
  | .exportJob => exportTask status t.stage o
  | .importJob => importTask status t.stage o
  | .migration => migrationTask t.stage o
  | .communityRebuild => communityRebuildTask t.stage o
  | .metadataReindex => metadataReindexTask t.stage o

/-! ### The process -/

inductive Request where
  /-- `POST /ingest`, `POST /collections/`. -/
  | ingest
  /-- `_reenqueue_retry`, whose dispatch may raise. -/
  | retry (dispatched : Bool)
  /-- `POST /collections/{name}/reindex`. -/
  | reindex
  /-- `POST /collections/{name}/export`, a backup. -/
  | exportJob
  /-- `POST /collections/{name}/import`. -/
  | importJob
  /-- `POST /collections/{name}/migrate`. -/
  | migration
  /-- `POST /graph/{collection}/rebuild-communities`. -/
  | communityRebuild
  /-- `POST /collections/{name}/reindex-metadata`; a preview records no pointer. -/
  | metadataReindex (dryRun : Bool)

def Request.kind : Request → Kind
  | ingest | retry _ => .ingest
  | reindex => .reindex
  | exportJob => .exportJob
  | importJob => .importJob
  | migration => .migration
  | communityRebuild => .communityRebuild
  | metadataReindex _ => .metadataReindex

def Request.status : Request → JobStatus
  | ingest | retry true | reindex => .pending
  | retry false => .failed
  | exportJob | importJob => .queued
  | migration | communityRebuild | metadataReindex _ => .running

def Request.stage : Request → Option Stage
  | ingest => some .created
  | retry true => some .waiting
  | reindex | communityRebuild | metadataReindex false => some .recording
  | migration | metadataReindex true => some .working
  | retry false | exportJob | importJob => none

structure State where
  jobs : Table
  tasks : List Task
  created : ℕ

inductive Event where
  | submit : Request → (collection : String) → Event
  | advance : Task → Outcome → Event
  /-- `DELETE /jobs/{id}`. -/
  | cancel : (jobId : ℕ) → Event
  /-- `POST /jobs/{id}/resume`. -/
  | resume : (jobId : ℕ) → Event
  /-- `JobScheduler._tick`, whose dispatch may raise. -/
  | promote : (jobId : ℕ) → (dispatched : Bool) → Event
  /-- `_end_retry_chain`. -/
  | expire : (jobId : ℕ) → Event
  /-- `refuse_active_job_or_fail_legacy`. -/
  | supersede : (jobId : ℕ) → Event
  /-- `cancel_ingest_retries`, for `DELETE /collections/{name}`. -/
  | deleteCollection : (collection : String) → Event
  /-- `_evict_old`. -/
  | evict : (jobId : ℕ) → Event

def State.statusOf (s : State) (jobId : ℕ) : Option JobStatus :=
  (s.jobs.get? jobId).map Record.status

def State.submit (s : State) (request : Request) (collection : String) : State where
  jobs := s.jobs.insert ⟨s.created, request.kind, collection, request.status⟩
  tasks := (request.stage.map fun stage => ⟨s.created, request.kind, stage⟩).toList ++ s.tasks
  created := s.created + 1

def State.moved (s : State) (t : Task) (m : Move) : State :=
  { s with
    jobs := setStatus t.jobId (fun r => m.write.apply r.status) s.jobs
    tasks := (m.stage.map fun stage => { t with stage := stage }).toList ++ s.tasks.erase t }

/-- `delete_job`, on a job: `transition(_ACTIVE_STATUSES, CANCELLING)`. -/
def Record.cancelled (r : Record) : JobStatus :=
  if r.status = .running ∨ r.status = .pending then .cancelling else r.status

/-- `resume_job`: `transition({FAILED}, QUEUED)`. -/
def Record.resumed (r : Record) : JobStatus :=
  if r.kind.isBulk = true ∧ r.status = .failed then .queued else r.status

/-- `_end_retry_chain`: `transition({FAILED}, FAILED_EXPIRED)`. -/
def Record.expired (r : Record) : JobStatus :=
  if r.kind = .ingest ∧ r.status = .failed then .failedExpired else r.status

/-- `refuse_active_job_or_fail_legacy`: a job that never runs is failed. -/
def Record.superseded (r : Record) : JobStatus :=
  if (r.kind = .communityRebuild ∨ r.kind = .metadataReindex) ∧
    (r.status = .queued ∨ r.status = .pending) then .failed else r.status

/-- `cancel_ingest_retries`. -/
def Record.givenUp (collection : String) (r : Record) : JobStatus :=
  if r.kind = .ingest ∧ r.collection = collection ∧ (r.status = .failed ∨ r.status = .pending)
  then .cancelled else r.status

/-- `_tick`: a job that waits for the scheduler is claimed, and its task spawned. -/
def State.promote (s : State) (jobId : ℕ) (dispatched : Bool) : Option State :=
  match s.jobs.get? jobId with
  | none => none
  | some r =>
    if r.kind.isBulk = true ∧ r.status = .queued then
      if dispatched then
        some { s with
          jobs := setStatus jobId (fun _ => .running) s.jobs
          tasks := ⟨jobId, r.kind, .working⟩ :: s.tasks }
      else some { s with jobs := setStatus jobId (fun _ => .failed) s.jobs }
    else none

/-- One event. A `transition` whose write raises changes nothing, so it is no event. -/
def step (s : State) : Event → Option State
  | .submit request collection => some (s.submit request collection)
  | .advance t o =>
    if t ∈ s.tasks then (t.move (s.statusOf t.jobId) o).map (s.moved t) else none
  | .cancel jobId => some { s with jobs := setStatus jobId Record.cancelled s.jobs }
  | .resume jobId => some { s with jobs := setStatus jobId Record.resumed s.jobs }
  | .promote jobId dispatched => s.promote jobId dispatched
  | .expire jobId => some { s with jobs := setStatus jobId Record.expired s.jobs }
  | .supersede jobId => some { s with jobs := setStatus jobId Record.superseded s.jobs }
  | .deleteCollection collection =>
    some { s with jobs := rewrite (Record.givenUp collection) s.jobs }
  | .evict jobId =>
    some { s with jobs := s.jobs.filter fun r => r.jobId ≠ jobId || !r.status.terminal }

/-- No task runs. -/
structure State.IsStart (s : State) : Prop where
  tasks_eq : s.tasks = []
  lt_created : ∀ r ∈ s.jobs, r.jobId < s.created

/-! ### The two laws -/

/-- **An accepted cancel is honoured** along the run: between a state in which a job is
`CANCELLING` and a later one in which it is `DONE`, it has failed and been resumed. -/
def Honoured (start : State) (events : List Event) : Prop :=
  ∀ before between after s t jobId, events = before ++ (between ++ after) →
    run step start before = some s → run step s between = some t →
    s.statusOf jobId = some .cancelling → t.statusOf jobId = some .done →
    ∃ first rest u, between = first ++ .resume jobId :: rest ∧
      run step s first = some u ∧ u.statusOf jobId = some .failed

inductive Reopens (jobId : ℕ) : Event → JobStatus → JobStatus → Prop where
  | resume : Reopens jobId (.resume jobId) .failed .queued
  | expire : Reopens jobId (.expire jobId) .failed .failedExpired
  | deleteCollection (collection : String) :
    Reopens jobId (.deleteCollection collection) .failed .cancelled

/-- **A job that is over stays as it is** along the run, apart from these changes. -/
def KeepsTerminal (start : State) (events : List Event) : Prop :=
  ∀ before e after s t jobId status status', events = before ++ e :: after →
    run step start before = some s → step s e = some t →
    s.statusOf jobId = some status → t.statusOf jobId = some status' →
    status.terminal = true → status' ≠ status → Reopens jobId e status status'

/-- A task that is about to write `DONE` without a look at its job. -/
def Task.endsBlindly (t : Task) (saved : Bool) : Bool :=
  match t.kind, t.stage with
  | .exportJob, .packaging | .migration, .working
  | .metadataReindex, .clearing (.write .done) => saved
  | .communityRebuild, .clearing (.write .done) => true
  | _, _ => false

/-- The work of an export, of a migration, of a community rebuild or of a metadata reindex ends
well while its job is `CANCELLING`; of an export, after the look at its last chunk. -/
def EndsCancelled (s : State) : Event → Prop
  | .advance t (.succeeds saved) =>
    t ∈ s.tasks ∧ t.endsBlindly saved = true ∧ s.statusOf t.jobId = some .cancelling
  | _ => False

/-! ### What a task may do -/

def IsOpen (kind : Kind) (status : JobStatus) : Prop :=
  status = .running ∨ status = .cancelling ∨ kind = .reindex ∧ status = .pending

def Task.mayFindOver (t : Task) : Bool :=
  match t.kind, t.stage with
  | .ingest, .waiting | .ingest, .created | .reindex, .clearing .cancelOnly => true
  | _, _ => false

/-- A reindex that clears its pointer first does not end `DONE`. -/
def Task.Fits (t : Task) : Prop :=
  t.kind = .reindex → t.stage ≠ .clearing (.write .done)

def heldBack : JobStatus → Bool
  | .cancelling | .cancelled | .failed | .failedExpired => true
  | .pending | .queued | .running | .done => false

/-- **What a task may do** to a job with this status. -/
structure Move.Lawful (m : Move) (t : Task) (status : JobStatus) (o : Outcome) : Prop where
  terminal : status.terminal = true → m.write.apply status = status
  cancelling : status = .cancelling → heldBack (m.write.apply status) = true ∨
    ∃ saved, o = .succeeds saved ∧ t.endsBlindly saved = true
  isOpen : ∀ stage, m.stage = some stage →
    ({ t with stage := stage } : Task).mayFindOver = true ∨ IsOpen t.kind (m.write.apply status)

theorem terminal_of_heldBack {status : JobStatus} (h : heldBack status = true)
    (hne : status ≠ .cancelling) : status.terminal = true := by
  cases status <;> first | rfl | exact absurd rfl hne | cases h

variable {t : Task} {status : JobStatus} {o : Outcome} {m : Move} {e : Ending} {kind : Kind}

theorem IsOpen.not_terminal (h : IsOpen kind status) :
    status.terminal = false := by
  rcases h with rfl | rfl | ⟨-, rfl⟩ <;> rfl

theorem lawful_die : Move.die.Lawful t status o where
  terminal _ := rfl
  cancelling h := Or.inl (by rw [h]; rfl)
  isOpen _ h := nomatch h

theorem lawful_goOn {stage : Stage}
    (hopen : ({ t with stage := stage } : Task).mayFindOver = true ∨ IsOpen t.kind status) :
    (Move.goOn stage).Lawful t status o where
  terminal _ := rfl
  cancelling h := Or.inl (by rw [h]; rfl)
  isOpen _ h := some.inj h ▸ hopen

theorem lawful_claim (hstat : status = .pending) :
    Move.Lawful ⟨.claim, some .working⟩ t status o where
  terminal h := by rw [hstat] at h; cases h
  cancelling h := by rw [hstat] at h; cases h
  isOpen _ h := Or.inr (by rw [hstat]; exact Or.inl rfl)

theorem lawful_cancelOnly : (Move.finish .cancelOnly).Lawful t status o where
  terminal h := by cases status <;> first | rfl | cases h
  cancelling h := Or.inl (by rw [h]; rfl)
  isOpen _ h := nomatch h

/-- Only an unconditional `DONE` overwrites a cancel. -/
theorem heldBack_apply (h : e ≠ .write .done) :
    heldBack (e.apply .cancelling) = true := by
  cases e with
  | write outcome => cases outcome <;> first | rfl | exact absurd rfl h
  | orCancel outcome => rfl
  | cancelOnly => rfl

theorem lawful_finish (hopen : status.terminal = false)
    (h : e ≠ .write .done ∨ ∃ saved, o = .succeeds saved ∧ t.endsBlindly saved = true) :
    (Move.finish e).Lawful t status o where
  terminal hter := by rw [hopen] at hter; cases hter
  cancelling hstat := h.imp_left fun he => hstat ▸ heldBack_apply he
  isOpen _ h := nomatch h

variable {jobId : ℕ} {stage : Stage} {saved : Bool}

theorem lawful_claimIngest : (claimIngest (some status) saved).Lawful t status o := by
  unfold claimIngest
  split_ifs with hpen
  · exact lawful_claim (some.inj hpen)
  · cases hpen
    exact lawful_finish rfl (Or.inl nofun)
  · exact lawful_cancelOnly

theorem ingestTask_lawful
    (hopen : (⟨jobId, .ingest, stage⟩ : Task).mayFindOver = true ∨ IsOpen .ingest status)
    (h : ingestTask (some status) stage o = some m) :
    m.Lawful ⟨jobId, .ingest, stage⟩ status o := by
  unfold ingestTask at h
  split at h <;> cases h
  · exact lawful_cancelOnly
  · exact lawful_die
  · exact lawful_claimIngest
  · exact lawful_claimIngest
  · exact lawful_finish (hopen.resolve_left nofun).not_terminal (Or.inl nofun)
  · exact lawful_finish (hopen.resolve_left nofun).not_terminal (Or.inl nofun)
  · exact lawful_finish (hopen.resolve_left nofun).not_terminal (Or.inl nofun)

theorem lawful_guardReindex (hopen : IsOpen .reindex status) :
    (guardReindex (some status)).Lawful ⟨jobId, .reindex, stage⟩ status o := by
  unfold guardReindex
  split
  · exact lawful_goOn (Or.inl rfl)
  · exact lawful_goOn (Or.inl rfl)
  · exact lawful_goOn (Or.inl rfl)
  · exact lawful_goOn (Or.inr hopen)

theorem lawful_claimReindex (hopen : IsOpen .reindex status) :
    (claimReindex (some status) saved).Lawful ⟨jobId, .reindex, stage⟩ status o := by
  unfold claimReindex
  split_ifs with hpen
  · exact lawful_claim (some.inj hpen)
  · exact lawful_goOn (Or.inr hopen)
  · exact lawful_die
  · exact lawful_goOn (Or.inl rfl)

theorem reindexTask_lawful (hfits : (⟨jobId, .reindex, stage⟩ : Task).Fits)
    (hopen : (⟨jobId, .reindex, stage⟩ : Task).mayFindOver = true ∨ IsOpen .reindex status)
    (h : reindexTask (some status) stage o = some m) :
    m.Lawful ⟨jobId, .reindex, stage⟩ status o := by
  unfold reindexTask at h
  split at h <;> try cases h
  · exact lawful_goOn (hopen.imp_left nofun)
  · exact lawful_finish (hopen.resolve_left nofun).not_terminal (Or.inl nofun)
  · exact lawful_guardReindex (hopen.resolve_left nofun)
  · exact lawful_claimReindex (hopen.resolve_left nofun)
  · exact lawful_goOn (hopen.imp_left nofun)
  · split_ifs at h <;> cases h
    · exact lawful_goOn (Or.inl rfl)
    · exact lawful_goOn (hopen.imp_left nofun)
  · exact lawful_goOn (hopen.imp_left nofun)
  · exact lawful_goOn (hopen.imp_left nofun)
  · exact lawful_finish (hopen.resolve_left nofun).not_terminal (Or.inl nofun)
  · rename_i e _
    cases e with
    | cancelOnly => exact lawful_cancelOnly
    | orCancel outcome => exact lawful_finish (hopen.resolve_left nofun).not_terminal (Or.inl nofun)
    | write outcome =>
      refine lawful_finish (hopen.resolve_left nofun).not_terminal (Or.inl fun he => hfits rfl ?_)
      rw [he]
  · exact lawful_die

theorem lawful_endOrFail (hopen : IsOpen t.kind status)
    (h : e ≠ .write .done ∨ o = .succeeds saved ∧ t.endsBlindly saved = saved) :
    (endOrFail saved e).Lawful t status o := by
  cases saved with
  | false => exact lawful_finish hopen.not_terminal (Or.inl nofun)
  | true => exact lawful_finish hopen.not_terminal (h.imp_right fun h => ⟨true, h⟩)

theorem exportTask_lawful
    (hopen : IsOpen .exportJob status)
    (h : exportTask (some status) stage o = some m) :
    m.Lawful ⟨jobId, .exportJob, stage⟩ status o := by
  unfold exportTask at h
  split at h <;> try cases h
  · split_ifs at h <;> cases h
    · exact lawful_endOrFail hopen (Or.inl nofun)
    · exact lawful_goOn (Or.inr hopen)
  · exact lawful_goOn (Or.inr hopen)
  · exact lawful_endOrFail hopen (Or.inr ⟨rfl, rfl⟩)
  · exact lawful_finish hopen.not_terminal (Or.inl nofun)
  · exact lawful_finish hopen.not_terminal (Or.inl nofun)
  · exact lawful_die

theorem importTask_lawful
    (hopen : IsOpen .importJob status)
    (h : importTask (some status) stage o = some m) :
    m.Lawful ⟨jobId, .importJob, stage⟩ status o := by
  unfold importTask at h
  split at h <;> try cases h
  · split_ifs at h <;> cases h
    · exact lawful_endOrFail hopen (Or.inl nofun)
    · exact lawful_goOn (Or.inr hopen)
  · exact lawful_endOrFail hopen (Or.inl nofun)
  · exact lawful_finish hopen.not_terminal (Or.inl nofun)
  · exact lawful_die

theorem migrationTask_lawful
    (hopen : IsOpen .migration status)
    (h : migrationTask stage o = some m) : m.Lawful ⟨jobId, .migration, stage⟩ status o := by
  unfold migrationTask at h
  split at h <;> cases h
  · exact lawful_endOrFail hopen (Or.inr ⟨rfl, rfl⟩)
  · exact lawful_finish hopen.not_terminal (Or.inl nofun)
  · exact lawful_die

theorem communityRebuildTask_lawful
    (hopen : IsOpen .communityRebuild status)
    (h : communityRebuildTask stage o = some m) :
    m.Lawful ⟨jobId, .communityRebuild, stage⟩ status o := by
  unfold communityRebuildTask at h
  split at h <;> cases h
  · exact lawful_goOn (Or.inr hopen)
  · exact lawful_goOn (Or.inr hopen)
  · exact lawful_goOn (Or.inr hopen)
  · rename_i e saved
    refine lawful_finish hopen.not_terminal ((em (e = .write .done)).symm.imp_right ?_)
    rintro rfl
    exact ⟨saved, rfl, rfl⟩
  · exact lawful_die

theorem metadataReindexTask_lawful
    (hopen : IsOpen .metadataReindex status)
    (h : metadataReindexTask stage o = some m) :
    m.Lawful ⟨jobId, .metadataReindex, stage⟩ status o := by
  unfold metadataReindexTask at h
  split at h <;> cases h
  · exact lawful_goOn (Or.inr hopen)
  · exact lawful_goOn (Or.inr hopen)
  · exact lawful_goOn (Or.inr hopen)
  · rename_i e saved
    refine lawful_endOrFail hopen ((em (e = .write .done)).symm.imp_right ?_)
    rintro rfl
    exact ⟨rfl, rfl⟩
  · exact lawful_die

/-- **Every task is lawful.** -/
theorem Task.move_lawful (hfits : t.Fits) (hopen : t.mayFindOver = true ∨ IsOpen t.kind status)
    (h : t.move (some status) o = some m) : m.Lawful t status o := by
  obtain ⟨jobId, kind, stage⟩ := t
  cases kind with
  | ingest => exact ingestTask_lawful hopen h
  | reindex => exact reindexTask_lawful hfits hopen h
  | exportJob => exact exportTask_lawful (hopen.resolve_left nofun) h
  | importJob => exact importTask_lawful (hopen.resolve_left nofun) h
  | migration => exact migrationTask_lawful (hopen.resolve_left nofun) h
  | communityRebuild => exact communityRebuildTask_lawful (hopen.resolve_left nofun) h
  | metadataReindex => exact metadataReindexTask_lawful (hopen.resolve_left nofun) h

theorem reindexTask_fits {status : Option JobStatus} (h : reindexTask status stage o = some m)
    {next : Stage} (hx : m.stage = some next) : next ≠ .clearing (.write .done) := by
  unfold reindexTask at h
  split at h <;> try cases h
  · cases hx
    exact nofun
  · cases hx
  · unfold guardReindex at hx
    split at hx <;> cases hx <;> exact nofun
  · unfold claimReindex at hx
    split_ifs at hx <;> cases hx <;> exact nofun
  · cases hx
    exact nofun
  · split_ifs at h <;> cases h <;> cases hx <;> exact nofun
  · cases hx
    exact nofun
  · cases hx
    exact nofun
  · cases hx
  · cases hx
  · cases hx

theorem Task.move_fits {status : Option JobStatus} (h : t.move status o = some m)
    (hx : m.stage = some stage) : ({ t with stage := stage } : Task).Fits := by
  obtain ⟨jobId, kind, stage⟩ := t
  rintro (rfl : kind = .reindex)
  exact reindexTask_fits h hx

/-! ### What the events keep -/

/-- **The tasks and the table agree.** -/
structure State.Sound (s : State) : Prop where
  lt_created : ∀ r ∈ s.jobs, r.jobId < s.created
  task_lt : ∀ t ∈ s.tasks, t.jobId < s.created
  nodup : (s.tasks.map Task.jobId).Nodup
  kind_eq : ∀ t ∈ s.tasks, ∀ r ∈ s.jobs, r.jobId = t.jobId → r.kind = t.kind
  isOpen : ∀ t ∈ s.tasks, ∀ r ∈ s.jobs, r.jobId = t.jobId →
    t.mayFindOver = true ∨ IsOpen t.kind r.status
  fits : ∀ t ∈ s.tasks, t.Fits

variable {s u : State} {jobs : Table} {f : Record → JobStatus} {r r' : Record} {ev : Event}

theorem State.IsStart.sound (h : s.IsStart) : s.Sound := by
  constructor
  · exact h.lt_created
  all_goals simp [h.tasks_eq]

theorem mem_rewrite : r' ∈ rewrite f jobs ↔ ∃ r ∈ jobs, { r with status := f r } = r' :=
  Keyed.mem_map

theorem get?_rewrite (f : Record → JobStatus) (jobs : Table) (jobId : ℕ) :
    (rewrite f jobs).get? jobId = (jobs.get? jobId).map fun r => { r with status := f r } :=
  Keyed.get?_map _ _ _ _

/-- What is written to the jobs leaves open what was open. -/
theorem State.Sound.rewrite (h : s.Sound)
    (hf : ∀ r ∈ s.jobs, IsOpen r.kind r.status → IsOpen r.kind (f r)) :
    State.Sound { s with jobs := rewrite f s.jobs } where
  lt_created r' hr' := by
    obtain ⟨r, hr, rfl⟩ := mem_rewrite.mp hr'
    exact h.lt_created r hr
  task_lt := h.task_lt
  nodup := h.nodup
  kind_eq t ht r' hr' hid := by
    obtain ⟨r, hr, rfl⟩ := mem_rewrite.mp hr'
    exact h.kind_eq t ht r hr hid
  isOpen t ht r' hr' hid := by
    obtain ⟨r, hr, rfl⟩ := mem_rewrite.mp hr'
    refine (h.isOpen t ht r hr hid).imp_right fun hopen => ?_
    rw [← h.kind_eq t ht r hr hid] at hopen ⊢
    exact hf r hr hopen
  fits := h.fits

theorem isOpen_cancelled {r : Record} (h : IsOpen r.kind r.status) : IsOpen r.kind r.cancelled := by
  unfold Record.cancelled
  split_ifs
  · exact Or.inr (Or.inl rfl)
  · exact h

/-- Of the jobs that wait only a reindex is open. -/
theorem IsOpen.kind_eq (h : IsOpen kind status)
    (hwt : status = .queued ∨ status = .pending ∨ status = .failed) : kind = .reindex := by
  rcases h with rfl | rfl | ⟨hk, -⟩
  · rcases hwt with h | h | h <;> cases h
  · rcases hwt with h | h | h <;> cases h
  · exact hk

theorem isOpen_resumed {r : Record} (h : IsOpen r.kind r.status) : r.resumed = r.status := by
  refine if_neg fun hif => ?_
  have hk := hif.1
  rw [h.kind_eq (Or.inr (Or.inr hif.2))] at hk
  cases hk

theorem isOpen_expired {r : Record} (h : IsOpen r.kind r.status) : r.expired = r.status := by
  refine if_neg fun hif => ?_
  cases hif.1.symm.trans (h.kind_eq (Or.inr (Or.inr hif.2)))

theorem isOpen_superseded {r : Record} (h : IsOpen r.kind r.status) :
    r.superseded = r.status := by
  refine if_neg ?_
  rintro ⟨hk, hstat⟩
  rw [h.kind_eq (hstat.imp_right Or.inl)] at hk
  rcases hk with hk | hk <;> cases hk

theorem isOpen_givenUp {r : Record} (collection : String) (h : IsOpen r.kind r.status) :
    r.givenUp collection = r.status := by
  refine if_neg ?_
  rintro ⟨hk, -, hstat⟩
  cases hk.symm.trans (h.kind_eq (Or.inr hstat.symm))

theorem State.Sound.setStatus {jobId : ℕ} (h : s.Sound)
    (hf : ∀ r ∈ s.jobs, r.jobId = jobId → IsOpen r.kind r.status → IsOpen r.kind (f r)) :
    State.Sound { s with jobs := setStatus jobId f s.jobs } := by
  refine h.rewrite fun r hr hopen => ?_
  split_ifs with hid
  · exact hf r hr hid hopen
  · exact hopen

theorem stage_ne_clearing {request : Request} (h : request.stage = some stage) :
    stage ≠ .clearing e := by
  unfold Request.stage at h
  split at h <;> cases h <;> exact nofun

theorem State.Sound.submit (h : s.Sound) (request : Request) (collection : String) :
    (s.submit request collection).Sound where
  lt_created r hr := by
    rcases Keyed.mem_insert.mp hr with rfl | ⟨hr, -⟩
    · exact Nat.lt_succ_self _
    · exact Nat.lt_succ_of_lt (h.lt_created r hr)
  task_lt t ht := by
    rcases mem_append.mp ht with ht | ht
    · obtain ⟨stage, -, rfl⟩ := map_eq_some_iff.mp (mem_toList.mp ht)
      exact Nat.lt_succ_self _
    · exact Nat.lt_succ_of_lt (h.task_lt t ht)
  nodup := by
    have hw : s.created ∉ s.tasks.map Task.jobId := by
      intro hm
      obtain ⟨t, ht, hid⟩ := List.mem_map.mp hm
      exact (h.task_lt t ht).ne hid
    unfold State.submit
    cases request.stage with
    | none => exact h.nodup
    | some stage => exact nodup_cons.mpr ⟨hw, h.nodup⟩
  kind_eq t ht r hr hid := by
    rcases mem_append.mp ht with ht | ht
    · obtain ⟨stage, -, rfl⟩ := map_eq_some_iff.mp (mem_toList.mp ht)
      rcases Keyed.mem_insert.mp hr with rfl | ⟨-, hne⟩
      · rfl
      · exact absurd hid hne
    · rcases Keyed.mem_insert.mp hr with rfl | ⟨hr, -⟩
      · exact absurd hid (h.task_lt t ht).ne'
      · exact h.kind_eq t ht r hr hid
  isOpen t ht r hr hid := by
    rcases mem_append.mp ht with ht | ht
    · obtain ⟨stage, hsg, rfl⟩ := map_eq_some_iff.mp (mem_toList.mp ht)
      rcases Keyed.mem_insert.mp hr with rfl | ⟨-, hne⟩
      · cases request with
        | ingest =>
          cases hsg
          exact Or.inl rfl
        | retry dispatched =>
          cases dispatched with
          | false => cases hsg
          | true =>
            cases hsg
            exact Or.inl rfl
        | reindex => exact Or.inr (Or.inr (Or.inr ⟨rfl, rfl⟩))
        | exportJob => cases hsg
        | importJob => cases hsg
        | migration => exact Or.inr (Or.inl rfl)
        | communityRebuild => exact Or.inr (Or.inl rfl)
        | metadataReindex dryRun => exact Or.inr (Or.inl rfl)
      · exact absurd hid hne
    · rcases Keyed.mem_insert.mp hr with rfl | ⟨hr, -⟩
      · exact absurd hid (h.task_lt t ht).ne'
      · exact h.isOpen t ht r hr hid
  fits t ht := by
    rcases mem_append.mp ht with ht | ht
    · obtain ⟨stage, hsg, rfl⟩ := map_eq_some_iff.mp (mem_toList.mp ht)
      exact fun _ => stage_ne_clearing hsg
    · exact h.fits t ht

/-- The record of a job that a task drives is found by its id. -/
theorem statusOf_eq (h : r ∈ s.jobs) : s.statusOf r.jobId = some r.status := by
  rw [State.statusOf, Keyed.get?_key h, map_some]

theorem State.Sound.moved (h : s.Sound) (ht : t ∈ s.tasks)
    (hm : t.move (s.statusOf t.jobId) o = some m) : (s.moved t m).Sound := by
  have hlaw : ∀ r ∈ s.jobs, r.jobId = t.jobId → m.Lawful t r.status o := by
    intro r hr hid
    rw [← hid, statusOf_eq hr] at hm
    exact Task.move_lawful (h.fits t ht) (h.isOpen t ht r hr hid) hm
  have hold : ∀ t' ∈ s.tasks.erase t, t' ∈ s.tasks ∧ t'.jobId ≠ t.jobId := by
    intro t' ht'
    refine ⟨mem_of_mem_erase ht', fun hid => ?_⟩
    obtain rfl := inj_on_of_nodup_map h.nodup (mem_of_mem_erase ht') ht hid
    exact (List.Nodup.not_mem_erase (List.Nodup.of_map _ h.nodup)) ht'
  constructor
  · intro r' hr'
    obtain ⟨r, hr, rfl⟩ := mem_rewrite.mp hr'
    exact h.lt_created r hr
  · intro t' ht'
    rcases mem_append.mp ht' with ht' | ht'
    · obtain ⟨stage, -, rfl⟩ := map_eq_some_iff.mp (mem_toList.mp ht')
      exact h.task_lt t ht
    · exact h.task_lt t' (hold t' ht').1
  · have hrs : ((s.tasks.erase t).map Task.jobId).Nodup :=
      h.nodup.sublist ((erase_sublist).map Task.jobId)
    unfold State.moved
    cases m.stage with
    | none => exact hrs
    | some stage =>
      refine nodup_cons.mpr ⟨fun hmem => ?_, hrs⟩
      obtain ⟨t', ht', hid⟩ := List.mem_map.mp hmem
      exact (hold t' ht').2 hid
  · intro t' ht' r' hr' hid
    obtain ⟨r, hr, rfl⟩ := mem_rewrite.mp hr'
    rcases mem_append.mp ht' with ht' | ht'
    · obtain ⟨stage, -, rfl⟩ := map_eq_some_iff.mp (mem_toList.mp ht')
      exact h.kind_eq t ht r hr hid
    · exact h.kind_eq t' (hold t' ht').1 r hr hid
  · intro t' ht' r' hr' hid
    obtain ⟨r, hr, rfl⟩ := mem_rewrite.mp hr'
    rcases mem_append.mp ht' with ht' | ht'
    · obtain ⟨stage, hsg, rfl⟩ := map_eq_some_iff.mp (mem_toList.mp ht')
      rw [if_pos (show r.jobId = t.jobId from hid)]
      exact (hlaw r hr hid).isOpen stage hsg
    · have hne : r.jobId ≠ t.jobId := fun heq => (hold t' ht').2 (hid.symm.trans heq)
      rw [if_neg hne]
      exact h.isOpen t' (hold t' ht').1 r hr hid
  · intro t' ht'
    rcases mem_append.mp ht' with ht' | ht'
    · obtain ⟨stage, hsg, rfl⟩ := map_eq_some_iff.mp (mem_toList.mp ht')
      exact Task.move_fits hm hsg
    · exact h.fits t' (hold t' ht').1

theorem mayFindOver_eq_false (h : t.kind.isBulk = true) : t.mayFindOver = false := by
  obtain ⟨jobId, kind, stage⟩ := t
  cases kind <;> first | rfl | cases h

/-- A job that waits for the scheduler has no task. -/
theorem State.Sound.notMem_of_queued (h : s.Sound) (hr : r ∈ s.jobs) (hbulk : r.kind.isBulk = true)
    (hqd : r.status = .queued) : r.jobId ∉ s.tasks.map Task.jobId := by
  intro hmem
  obtain ⟨t, ht, hid⟩ := List.mem_map.mp hmem
  have hk := h.kind_eq t ht r hr hid.symm
  have hover := mayFindOver_eq_false (hk ▸ hbulk)
  rcases h.isOpen t ht r hr hid.symm with hm | hopen
  · rw [hover] at hm
    cases hm
  · rw [hqd] at hopen
    rcases hopen with hopen | hopen | ⟨-, hopen⟩ <;> cases hopen

theorem State.Sound.promote (h : s.Sound) {jobId : ℕ} {dispatched : Bool}
    (hu : s.promote jobId dispatched = some u) : u.Sound := by
  unfold State.promote at hu
  split at hu
  · cases hu
  rename_i r hr
  obtain ⟨hm, rfl⟩ := Keyed.get?_eq_some_iff.mp hr
  split_ifs at hu with hif
  · cases hu
    have hnot := h.notMem_of_queued hm hif.1 hif.2
    have hst : State.Sound
        { s with jobs := Cancel.setStatus r.jobId (fun _ => .running) s.jobs } :=
      h.setStatus fun _ _ _ _ => Or.inl rfl
    constructor
    · exact hst.lt_created
    · intro t ht
      rcases mem_cons.mp ht with rfl | ht
      · exact h.lt_created r hm
      · exact h.task_lt t ht
    · exact nodup_cons.mpr ⟨hnot, h.nodup⟩
    · intro t ht r' hr' hid
      rcases mem_cons.mp ht with rfl | ht
      · obtain ⟨r₀, hr₀, rfl⟩ := mem_rewrite.mp hr'
        rw [Keyed.eq_of_key_eq hr₀ hm hid]
      · exact hst.kind_eq t ht r' hr' hid
    · intro t ht r' hr' hid
      rcases mem_cons.mp ht with rfl | ht
      · obtain ⟨r₀, hr₀, rfl⟩ := mem_rewrite.mp hr'
        exact Or.inr (Or.inl (if_pos hid))
      · exact hst.isOpen t ht r' hr' hid
    · intro t ht
      rcases mem_cons.mp ht with rfl | ht
      · exact fun _ => nofun
      · exact h.fits t ht
  · cases hu
    refine h.setStatus fun r' hr' hid hopen => ?_
    rw [Keyed.eq_of_key_eq hr' hm hid, hif.2] at hopen
    rcases hopen with hopen | hopen | ⟨-, hopen⟩ <;> cases hopen

/-- **One event keeps the tasks and the table in agreement.** -/
theorem sound_step (h : s.Sound) (hs : step s ev = some u) : u.Sound := by
  cases ev with
  | submit request collection =>
    cases hs
    exact h.submit request collection
  | advance t o =>
    simp only [step] at hs
    split_ifs at hs with ht
    obtain ⟨m, hm, rfl⟩ := map_eq_some_iff.mp hs
    exact h.moved ht hm
  | cancel jobId =>
    cases hs
    exact h.setStatus fun _ _ _ hopen => isOpen_cancelled hopen
  | resume jobId =>
    cases hs
    exact h.setStatus fun _ _ _ hopen => (isOpen_resumed hopen).symm ▸ hopen
  | promote jobId dispatched => exact h.promote hs
  | expire jobId =>
    cases hs
    exact h.setStatus fun _ _ _ hopen => (isOpen_expired hopen).symm ▸ hopen
  | supersede jobId =>
    cases hs
    exact h.setStatus fun _ _ _ hopen => (isOpen_superseded hopen).symm ▸ hopen
  | deleteCollection collection =>
    cases hs
    exact h.rewrite fun _ _ hopen => (isOpen_givenUp collection hopen).symm ▸ hopen
  | evict jobId =>
    cases hs
    constructor
    · exact fun r hr => h.lt_created r (Keyed.mem_filter.mp hr).1
    · exact h.task_lt
    · exact h.nodup
    · exact fun t ht r hr => h.kind_eq t ht r (Keyed.mem_filter.mp hr).1
    · exact fun t ht r hr => h.isOpen t ht r (Keyed.mem_filter.mp hr).1
    · exact h.fits

/-! ### How a status changes -/

variable {status' : JobStatus}

theorem eq_of_statusOf_rewrite (hr : r ∈ s.jobs)
    (hu : State.statusOf { s with jobs := rewrite f s.jobs } r.jobId = some status') :
    status' = f r := by
  rw [State.statusOf, get?_rewrite, Keyed.get?_key hr] at hu
  exact (some.inj hu).symm

theorem eq_of_statusOf_setStatus (hr : r ∈ s.jobs)
    (hu : State.statusOf { s with jobs := setStatus jobId f s.jobs } r.jobId = some status') :
    status' = if r.jobId = jobId then f r else r.status :=
  eq_of_statusOf_rewrite hr hu

/-- **How the status of a job changes** in one event. -/
inductive Changes (s : State) (r : Record) (ev : Event) (status' : JobStatus) : Prop where
  | stays : status' = r.status → Changes s r ev status'
  | moves (t : Task) (o : Outcome) (m : Move) : ev = .advance t o → t ∈ s.tasks →
    r.jobId = t.jobId → m.Lawful t r.status o → status' = m.write.apply r.status →
    Changes s r ev status'
  | begins : r.status.terminal = false → r.status ≠ .cancelling → Changes s r ev status'
  | reopens : Reopens r.jobId ev r.status status' → Changes s r ev status'

/-- What is written to one job changes it, or leaves the job as it is. -/
theorem changes_setStatus (hr : r ∈ s.jobs)
    (hf : r.jobId = jobId → f r ≠ r.status → Changes s r ev (f r))
    (hu : State.statusOf { s with jobs := setStatus jobId f s.jobs } r.jobId = some status') :
    Changes s r ev status' := by
  have hstat := eq_of_statusOf_setStatus hr hu
  by_cases heq : status' = r.status
  · exact .stays heq
  split_ifs at hstat with hid
  · subst hstat
    exact hf hid heq
  · exact absurd hstat heq

theorem changes_step (h : s.Sound) (hs : step s ev = some u)
    (hr : r ∈ s.jobs) (hu : u.statusOf r.jobId = some status') : Changes s r ev status' := by
  cases ev with
  | submit request collection =>
    cases hs
    have hg : (s.submit request collection).jobs.get? r.jobId = some r := by
      refine (Keyed.get?_insert _ _ _).trans ?_
      rw [if_neg (h.lt_created r hr).ne, Keyed.get?_key hr]
    rw [State.statusOf, hg] at hu
    exact .stays (some.inj hu).symm
  | advance t o =>
    simp only [step] at hs
    split_ifs at hs with ht
    obtain ⟨m, hm, rfl⟩ := map_eq_some_iff.mp hs
    have hstat := eq_of_statusOf_setStatus hr hu
    split_ifs at hstat with hid
    · rw [← hid, statusOf_eq hr] at hm
      have hlaw := Task.move_lawful (h.fits t ht) (h.isOpen t ht r hr hid) hm
      exact .moves t o m rfl ht hid hlaw hstat
    · exact .stays hstat
  | cancel jobId =>
    cases hs
    refine changes_setStatus hr (fun _ hne => ?_) hu
    rcases (ite_ne_right_iff.mp hne).1 with hact | hact <;>
      exact .begins (by rw [hact]; rfl) (by simp [hact])
  | resume jobId =>
    cases hs
    refine changes_setStatus hr (fun hid hne => ?_) hu
    have hfa := (ite_ne_right_iff.mp hne).1
    rw [Record.resumed, if_pos hfa, ← hid]
    exact .reopens (hfa.2 ▸ .resume)
  | promote jobId dispatched =>
    simp only [step, State.promote] at hs
    split at hs
    · cases hs
    rename_i r₀ hr₀
    obtain ⟨hmem, rfl⟩ := Keyed.get?_eq_some_iff.mp hr₀
    have hqd {status' : JobStatus} (hid : r.jobId = r₀.jobId)
        (hstat : r₀.status = .queued) :
        Changes s r (.promote r₀.jobId dispatched) status' := by
      obtain rfl := Keyed.eq_of_key_eq hr hmem hid
      exact .begins (by rw [hstat]; rfl) (by simp [hstat])
    split_ifs at hs with hif <;> cases hs
    · exact changes_setStatus hr (fun hid _ => hqd hid hif.2) hu
    · exact changes_setStatus hr (fun hid _ => hqd hid hif.2) hu
  | expire jobId =>
    cases hs
    refine changes_setStatus hr (fun hid hne => ?_) hu
    have hfa := (ite_ne_right_iff.mp hne).1
    rw [Record.expired, if_pos hfa, ← hid]
    exact .reopens (hfa.2 ▸ .expire)
  | supersede jobId =>
    cases hs
    refine changes_setStatus hr (fun _ hne => ?_) hu
    rcases (ite_ne_right_iff.mp hne).1.2 with hold | hold <;>
      exact .begins (by rw [hold]; rfl) (by simp [hold])
  | deleteCollection collection =>
    cases hs
    have hstat := eq_of_statusOf_rewrite hr hu
    unfold Record.givenUp at hstat
    split_ifs at hstat with hif
    · rcases hif.2.2 with hold | hold
      · exact .reopens (by rw [hold, hstat]; exact .deleteCollection collection)
      · exact .begins (by rw [hold]; rfl) (by simp [hold])
    · exact .stays hstat
  | evict jobId =>
    cases hs
    rw [State.statusOf, Keyed.get?_filter, Keyed.get?_key hr] at hu
    obtain ⟨r', hr', rfl⟩ := map_eq_some_iff.mp hu
    obtain ⟨hr', -⟩ := filter_eq_some_iff.mp hr'
    exact .stays (congrArg Record.status (some.inj hr').symm)

theorem mem_of_statusOf (h : s.statusOf jobId = some status) :
    ∃ r ∈ s.jobs, r.jobId = jobId ∧ r.status = status := by
  obtain ⟨r, hr, rfl⟩ := map_eq_some_iff.mp h
  obtain ⟨hr, hid⟩ := Keyed.get?_eq_some_iff.mp hr
  exact ⟨r, hr, hid, rfl⟩

/-- **A job that is over stays as it is**, or is reopened. -/
theorem reopens_step (h : s.Sound) (hst : step s ev = some u)
    (hs : s.statusOf jobId = some status) (hu : u.statusOf jobId = some status')
    (hter : status.terminal = true) (hne : status' ≠ status) :
    Reopens jobId ev status status' := by
  obtain ⟨r, hr, rfl, rfl⟩ := mem_of_statusOf hs
  cases changes_step h hst hr hu with
  | stays heq => exact absurd heq hne
  | moves t o m _ _ _ hlaw heq => exact absurd (heq.trans (hlaw.terminal hter)) hne
  | begins hopen => rw [hopen] at hter; cases hter
  | reopens hreop => exact hreop

/-- **A cancelled job is held back**, until it is resumed. -/
theorem heldBack_step (h : s.Sound) (hst : step s ev = some u)
    (hclean : ¬ EndsCancelled s ev) (hs : s.statusOf jobId = some status)
    (hu : u.statusOf jobId = some status') (hh : heldBack status = true) :
    heldBack status' = true ∨ ev = .resume jobId ∧ status = .failed := by
  obtain ⟨r, hr, rfl, rfl⟩ := mem_of_statusOf hs
  cases changes_step h hst hr hu with
  | stays heq => exact Or.inl (heq ▸ hh)
  | moves t o m hev ht hid hlaw heq =>
    by_cases hcang : r.status = .cancelling
    · rcases hlaw.cancelling hcang with hh | ⟨saved, rfl, hblind⟩
      · exact Or.inl (heq ▸ hh)
      · subst hev
        exact absurd ⟨ht, hblind, by rw [← hid, hs, hcang]⟩ hclean
    · rw [heq, hlaw.terminal (terminal_of_heldBack hh hcang)]
      exact Or.inl hh
  | begins hopen hcang =>
    rw [terminal_of_heldBack hh hcang] at hopen
    cases hopen
  | reopens hreop =>
    generalize r.status = status at hreop
    cases hreop with
    | resume => exact Or.inr ⟨rfl, rfl⟩
    | expire => exact Or.inl rfl
    | deleteCollection collection => exact Or.inl rfl

/-! ### Runs -/

theorem created_le_step (hs : step s ev = some u) : s.created ≤ u.created := by
  cases ev with
  | submit request collection =>
    cases hs
    exact Nat.le_succ _
  | advance t o =>
    simp only [step] at hs
    split_ifs at hs
    obtain ⟨m, -, rfl⟩ := map_eq_some_iff.mp hs
    exact le_rfl
  | promote jobId dispatched =>
    simp only [step, State.promote] at hs
    split at hs
    · cases hs
    · split_ifs at hs <;> cases hs <;> exact le_rfl
  | cancel | resume | expire | supersede | deleteCollection | evict =>
    cases hs
    exact le_rfl

theorem statusOf_eq_none_step (hst : step s ev = some u) (hlt : jobId < s.created)
    (hs : s.statusOf jobId = none) : u.statusOf jobId = none := by
  have hg : s.jobs.get? jobId = none := map_eq_none_iff.mp hs
  have hrew (f : Record → JobStatus) :
      ((rewrite f s.jobs).get? jobId).map Record.status = none := by
    rw [get?_rewrite, hg]
    rfl
  cases ev with
  | submit request collection =>
    cases hst
    refine map_eq_none_iff.mpr ((Keyed.get?_insert _ _ _).trans ?_)
    rw [if_neg hlt.ne, hg]
  | advance t o =>
    simp only [step] at hst
    split_ifs at hst
    obtain ⟨m, -, rfl⟩ := map_eq_some_iff.mp hst
    exact hrew _
  | promote jobId' dispatched =>
    simp only [step, State.promote] at hst
    split at hst
    · cases hst
    · split_ifs at hst <;> cases hst <;> exact hrew _
  | cancel | resume | expire | supersede | deleteCollection =>
    cases hst
    exact hrew _
  | evict jobId' =>
    cases hst
    rw [State.statusOf, Keyed.get?_filter, hg]
    rfl

variable {es : List Event}

theorem statusOf_eq_none_run (hr : run step s es = some u)
    (hlt : jobId < s.created) (hs : s.statusOf jobId = none) : u.statusOf jobId = none := by
  refine (run_invariant (I := fun s : State => jobId < s.created ∧ s.statusOf jobId = none)
    ?_ ⟨hlt, hs⟩ hr).2
  rintro s e s' ⟨hlt, hs⟩ hst
  exact ⟨hlt.trans_le (created_le_step hst), statusOf_eq_none_step hst hlt hs⟩

/-- A job that is held back is resumed before it is `DONE`. -/
theorem resumed_of_heldBack : ∀ {s : State} {status : JobStatus}, s.Sound →
    Along step (fun s ev => ¬ EndsCancelled s ev) s es → run step s es = some u →
    s.statusOf jobId = some status → heldBack status = true → u.statusOf jobId = some .done →
    ∃ first rest v, es = first ++ .resume jobId :: rest ∧ run step s first = some v ∧
      v.statusOf jobId = some .failed := by
  induction es with
  | nil =>
    intro s status _ _ hrun hs hh hu
    cases hrun
    rw [hs] at hu
    cases hu
    cases hh
  | cons e es ih =>
    intro s status hsd hclean hrun hs hh hu
    obtain ⟨s', hst, hrun⟩ := (run_cons_eq_some step).mp hrun
    cases hs' : s'.statusOf jobId with
    | none =>
      obtain ⟨r, hr, hid, -⟩ := mem_of_statusOf hs
      have hlt : jobId < s.created := hid ▸ hsd.lt_created r hr
      have hn := statusOf_eq_none_run hrun (hlt.trans_le (created_le_step hst)) hs'
      rw [hn] at hu
      cases hu
    | some status' =>
      rcases heldBack_step hsd hst hclean.1 hs hs' hh with hh' | ⟨rfl, rfl⟩
      · obtain ⟨first, rest, v, rfl, hv, hfa⟩ :=
          ih (sound_step hsd hst) (hclean.2 s' hst) hrun hs' hh' hu
        exact ⟨e :: first, rest, v, rfl, (run_cons_eq_some step).mpr ⟨s', hst, hv⟩, hfa⟩
      · exact ⟨[], es, s, rfl, rfl, hs⟩

theorem sound_run (hs : s.Sound) (hr : run step s es = some u) : u.Sound :=
  run_invariant (fun _ _ _ h hst => sound_step h hst) hs hr

/-- **In every run, a job that is over stays as it is**, unless it is resumed, its retries expire
or its collection is deleted. -/
theorem keepsTerminal (start : State) (hst : start.IsStart) (events : List Event) :
    KeepsTerminal start events := by
  intro before e after s t jobId status status' _ hr hstep hs ht hter hne
  exact reopens_step (sound_run hst.sound hr) hstep hs ht hter hne

/-- A task that does not look writes `DONE`. -/
theorem endsBlindly_move {saved : Bool} (status : Option JobStatus)
    (h : t.endsBlindly saved = true) :
    ∃ m, t.move status (.succeeds saved) = some m ∧ m.write = .ending (.write .done) := by
  obtain ⟨jobId, kind, stage⟩ := t
  unfold Task.endsBlindly at h
  split at h
  · rename_i hk hsg
    obtain rfl : kind = .exportJob := hk
    obtain rfl : stage = .packaging := hsg
    exact ⟨_, rfl, by rw [h]; rfl⟩
  · rename_i hk hsg
    obtain rfl : kind = .migration := hk
    obtain rfl : stage = .working := hsg
    exact ⟨_, rfl, by rw [h]; rfl⟩
  · rename_i hk hsg
    obtain rfl : kind = .metadataReindex := hk
    obtain rfl : stage = .clearing (.write .done) := hsg
    exact ⟨_, rfl, by rw [h]; rfl⟩
  · rename_i hk hsg
    obtain rfl : kind = .communityRebuild := hk
    obtain rfl : stage = .clearing (.write .done) := hsg
    exact ⟨_, rfl, rfl⟩
  · cases h

/-- An end that nobody looked before makes a cancelled job `DONE`. -/
theorem done_of_endsCancelled (h : EndsCancelled s ev) :
    ∃ t o u, ev = .advance t o ∧ step s ev = some u ∧
      s.statusOf t.jobId = some .cancelling ∧ u.statusOf t.jobId = some .done := by
  unfold EndsCancelled at h
  split at h
  · rename_i t saved
    obtain ⟨ht, hblind, hstat⟩ := h
    obtain ⟨m, hm, hw⟩ := endsBlindly_move (s.statusOf t.jobId) hblind
    refine ⟨t, _, s.moved t m, rfl, ?_, hstat, ?_⟩
    · simp only [step]
      rw [if_pos ht, hm, map_some]
    · obtain ⟨r, hr, hid, -⟩ := mem_of_statusOf hstat
      have hg : s.jobs.get? t.jobId = some r := Keyed.get?_eq_some_iff.mpr ⟨hr, hid⟩
      simp only [State.statusOf, State.moved, setStatus]
      rw [get?_rewrite, hg, map_some, map_some, if_pos hid, hw]
      rfl
  · exact h.elim

/-- **Jobs that are over stay so in every run, and an accepted cancel is honoured in exactly the
runs in which no export, migration, community rebuild or metadata reindex ends well while its job
is `CANCELLING`.** -/
theorem honoured_iff (start : State) (hstart : start.IsStart) (events : List Event) :
    Honoured start events ∧ KeepsTerminal start events ↔
      Along step (fun s ev => ¬ EndsCancelled s ev) start events := by
  constructor
  · rintro ⟨hhon, -⟩
    refine along_iff.mpr ?_
    intro before ev after s hes hr hends
    obtain ⟨t, o, u, rfl, hst, hs, hu⟩ := done_of_endsCancelled hends
    have hone : run step s [.advance t o] = some u := (run_cons_eq_some step).mpr ⟨u, hst, rfl⟩
    obtain ⟨first, rest, v, hsplit, -⟩ :=
      hhon before [.advance t o] after s u t.jobId hes hr hone hs hu
    -- the one event between the two states is no resume
    rcases first with _ | ⟨_, _ | ⟨_, _⟩⟩ <;> cases hsplit
  · intro hclean
    refine ⟨?_, keepsTerminal start hstart events⟩
    intro before between after s u jobId hes hr hbet hs hu
    have hrs := (hes ▸ hclean).after hr
    exact resumed_of_heldBack (sound_run hstart.sound hr) hrs.of_append hbet hs rfl hu

instance (s : State) (ev : Event) : Decidable (EndsCancelled s ev) := by
  unfold EndsCancelled
  split <;> infer_instance

def State.empty : State := ⟨Keyed.empty, [], 0⟩

theorem isStart_empty : State.empty.IsStart := ⟨rfl, fun _ h => absurd h (Keyed.notMem_empty _)⟩

def cancelledImport : List Event :=
  [.submit .importJob "docs", .promote 0 true, .cancel 0,
    .advance ⟨0, .importJob, .working⟩ (.succeeds true)]

theorem honoured_iff_cancelledImport :
    Honoured State.empty cancelledImport ∧ KeepsTerminal State.empty cancelledImport :=
  (honoured_iff State.empty isStart_empty cancelledImport).mpr (by decide +kernel)

def cancelledMigration : List Event :=
  [.submit .migration "docs", .cancel 0, .advance ⟨0, .migration, .working⟩ (.succeeds true)]

/-- **The cancel of a migration is accepted, and the migration ends `DONE`.** -/
theorem not_honoured_cancelledMigration :
    ¬ ∀ start : State, start.IsStart → ∀ events : List Event,
      Honoured start events ∧ KeepsTerminal start events := by
  intro h
  obtain ⟨s, hs, hcang, t, ht, hd⟩ : ∃ s ∈ run step State.empty (cancelledMigration.take 2),
      s.statusOf 0 = some .cancelling ∧ ∃ t ∈ run step s (cancelledMigration.drop 2),
        t.statusOf 0 = some .done := by
    decide +kernel
  obtain ⟨first, rest, v, hsplit, -⟩ := (h State.empty isStart_empty cancelledMigration).1
    _ _ [] s t 0 rfl hs ht hcang hd
  rcases first with _ | ⟨_, _ | ⟨_, _⟩⟩ <;> cases hsplit

end ArchonSearch.Jobs.Cancel
