import ArchonSearch.Jobs.Types

/-!
# Changing the embedding model of a collection

`PATCH /collections/{name}` does not change the model of a collection that has chunks: it records
the new one as pending and says that a reindex is needed. A reindex job ingests the directory of
the collection with the pending model, and makes it the active one when the ingest has returned.
Meanwhile clients ingest files, directories and inline documents, each with the model that was
the active one when the ingest was dispatched.

The machine of this module has the rows of the collection, each with the model that its vector
was computed with, its metadata row, its reindex jobs, and a task for each ingest and for each
reindex. What is done under the lock of the collection is one event: a document is deleted, a
batch of its chunks is added, the metadata row is changed. An ingest of a document deletes the old
rows and then adds the new ones; it may stop anywhere, and a document without chunks, or one that
cannot be read, is not touched at all.
-/

namespace ArchonSearch.Collections.Reindex

open Lib Jobs

/-! ### The collection -/

structure Row (δ : Type*) where
  /-- `doc_id`. -/
  doc : δ
  model : String
  deriving DecidableEq

/-- The fields of `CollectionMeta` about the model. -/
structure CollectionMeta where
  /-- `active_embedding_model`; blank is the default model. -/
  activeEmbeddingModel : String
  pendingEmbeddingModel : Option String := none
  needsReindex : Bool := false
  reindexJobId : Option ℕ := none
  deriving DecidableEq

/-- A `ReindexJob`. -/
structure Job where
  jobId : ℕ
  targetEmbeddingModel : Option String
  status : JobStatus
  cancelledBeforeStart : Bool := false

abbrev Table := Keyed Job.jobId

def statusOf (jobs : Table) (jobId : ℕ) : Option JobStatus := (jobs.get? jobId).map Job.status

def modifyJob (jobs : Table) (jobId : ℕ) (f : JobStatus → JobStatus) : Table :=
  jobs.map (fun job => if job.jobId = jobId then { job with status := f job.status } else job) (by
    intro job
    split <;> rfl)

/-- `_reindex_in_progress_409`: the row points at a job that is pending or running. -/
def refuses (jobs : Table) (row : CollectionMeta) : Bool :=
  (row.reindexJobId.bind (statusOf jobs)).any fun status =>
    status = .running || status = .pending

/-- `resolve_active_model`. -/
def resolveActiveModel (default : String) : Option CollectionMeta → String
  | none => default
  | some row => if row.activeEmbeddingModel = "" then default else row.activeEmbeddingModel

/-! ### Changes of the metadata row -/

/-- `patch_collection`, with a model. -/
def CollectionMeta.patch (row : CollectionMeta) (jobs : Table) (chunkCount : ℕ)
    (requested : String) : CollectionMeta :=
  if refuses jobs row then row
  else
    let row := { row with reindexJobId := none }
    if row.activeEmbeddingModel = requested ∧ row.pendingEmbeddingModel = none then row
    else if row.pendingEmbeddingModel = some requested then row
    else if row.activeEmbeddingModel = requested then
      { row with pendingEmbeddingModel := none, needsReindex := false }
    else if 0 < chunkCount then
      { row with pendingEmbeddingModel := some requested, needsReindex := true }
    else
      { row with
        activeEmbeddingModel := requested
        pendingEmbeddingModel := none
        needsReindex := false }

def CollectionMeta.clearPointer (row : CollectionMeta) (jobId : ℕ) : CollectionMeta :=
  if row.reindexJobId = some jobId then { row with reindexJobId := none } else row

/-- The model of a reindex becomes the active one. Where another model is pending by then, it
stays so. -/
def CollectionMeta.promote (row : CollectionMeta) (target : String) : CollectionMeta :=
  let row := { row with activeEmbeddingModel := target }
  if row.pendingEmbeddingModel = some target then
    { row with pendingEmbeddingModel := none, needsReindex := false }
  else if row.pendingEmbeddingModel.isSome then row
  else { row with needsReindex := false }

/-! ### Tasks -/

inductive Ending where
  /-- `_end_reindex_cancelled_or_failed`, with an error or without one. -/
  | requested (error : Bool)
  | cancelled
  | failed

def Ending.apply : Ending → JobStatus → JobStatus
  | requested error, status =>
    if status = .cancelling then .cancelled else if error then .failed else status
  | cancelled, _ => .cancelled
  | failed, _ => .failed

def Ending.done (status : JobStatus) : JobStatus :=
  if status = .cancelling then .cancelled else .done

inductive Stage (δ : Type*) where
  | created
  | loaded : (model : String) → Stage δ
  | writing : (model : String) → (covered : List δ) → (current : Option δ) → Stage δ
  | promoting : (model : String) → (covered : List δ) → Stage δ
  | ending : Ending → Stage δ

inductive Task (δ : Type*) where
  /-- `_dispatch_ingest`, with its model and the document it is at. -/
  | ingest : (model : String) → (current : Option δ) → Task δ
  /-- `_reindex_task`. -/
  | reindex : (jobId : ℕ) → (target : Option String) → Stage δ → Task δ

def Task.model {δ : Type*} : Task δ → Option String
  | ingest model _ => some model
  | reindex _ _ (.loaded model) => some model
  | reindex _ _ (.writing model _ _) | reindex _ _ (.promoting model _) => some model
  | reindex _ _ _ => none

/-- `target_model`. -/
def Task.target {δ : Type*} : Task δ → Option String
  | ingest _ _ => none
  | reindex _ target _ => target

def Task.current {δ : Type*} : Task δ → Option δ
  | ingest _ current => current
  | reindex _ _ (.writing _ _ current) => current
  | reindex _ _ _ => none

def Task.covered {δ : Type*} : Task δ → List δ
  | reindex _ _ (.writing _ covered _) | reindex _ _ (.promoting _ covered) => covered
  | _ => []

/-- The collection, its jobs, and the ingests and reindexes that run. -/
structure State (ι δ : Type*) where
  rows : List (Row δ)
  metadata : Option CollectionMeta
  jobs : Table
  nextJob : ℕ
  tasks : ι → Option (Task δ)
  reembedded : Bool

variable {ι δ : Type*}

def State.empty : State ι δ := ⟨[], none, Keyed.empty, 0, fun _ => none, false⟩

/-! ### Steps -/

inductive Outcome where
  | returned
  | raised
  | cancelled

inductive Event (ι δ : Type*) where
  /-- `PATCH /collections/{name}`, with a model that is supported. -/
  | patch : (requested : String) → Event ι δ
  | ingest : ι → Event ι δ
  | stub : ι → Event ι δ
  /-- `delete_document`, by an ingest of the document. -/
  | delete : ι → δ → Event ι δ
  /-- `ingest_chunks`, by an ingest of the document. -/
  | add : ι → (count : ℕ) → Event ι δ
  | finish : ι → Event ι δ
  /-- `POST /collections/{name}/reindex`; whether the pointer is written. -/
  | reindex : ι → (recorded : Bool) → Event ι δ
  | load : ι → (loads : Bool) → Event ι δ
  | claim : ι → (persisted : Bool) → Event ι δ
  | ingested : ι → Outcome → Event ι δ
  | promote : ι → (written : Bool) → Event ι δ
  | endTask : ι → (written : Bool) → Event ι δ
  /-- `DELETE /jobs/{id}`. -/
  | cancel : (jobId : ℕ) → Event ι δ
  | evict : (jobId : ℕ) → Event ι δ
  | crash

variable [DecidableEq ι] [DecidableEq δ]

def State.setTask (s : State ι δ) (i : ι) (task : Option (Task δ)) : State ι δ :=
  { s with tasks := Function.update s.tasks i task }

/-- `patch_collection`. It needs a metadata row and a configured path. -/
def State.patch (s : State ι δ) (configured : Bool) (requested : String) :
    Option (State ι δ) :=
  match s.metadata with
  | none => none
  | some row =>
    if configured = false ∨ requested = "" then none
    else
      let row' := row.patch s.jobs s.rows.length requested
      some { s with
        metadata := some row'
        -- a model that is pending anew finds the collection in order, or empty
        reembedded := s.reembedded && row.needsReindex && !s.rows.isEmpty }

def State.deleteDocument (s : State ι δ) (inside : δ → Bool) (i : ι) (doc : δ) :
    Option (State ι δ) :=
  let deleted : State ι δ := { s with rows := s.rows.filter fun row => row.doc ≠ doc }
  match s.tasks i with
  | some (.ingest model _) => some (deleted.setTask i (some (.ingest model (some doc))))
  | some (.reindex jobId target (.writing model covered _)) =>
    if inside doc then
      some (deleted.setTask i
        (some (.reindex jobId target (.writing model (doc :: covered) (some doc)))))
    else none
  | _ => none

def State.addChunks (s : State ι δ) (default : String) (i : ι) (count : ℕ) :
    Option (State ι δ) :=
  match s.tasks i with
  | none => none
  | some task =>
    match task.model, task.current with
    | some model, some doc =>
      some { s with
        rows := s.rows ++ List.replicate count ⟨doc, model⟩
        metadata := some (s.metadata.getD { activeEmbeddingModel := model })
        reembedded := s.reembedded || decide (model ≠ resolveActiveModel default s.metadata) }
    | _, _ => none

/-- `reindex_collection`. The target is the pending model. -/
def State.reindex (s : State ι δ) (i : ι) (recorded : Bool) : Option (State ι δ) :=
  match s.tasks i, s.metadata with
  | none, some row =>
    if refuses s.jobs row then none
    else
      let target := row.pendingEmbeddingModel
      let status := if recorded then JobStatus.pending else .failed
      let s := { s with
        jobs := s.jobs.insert ⟨s.nextJob, target, status, false⟩, nextJob := s.nextJob + 1 }
      if recorded then
        some ({ s with metadata := some { row with reindexJobId := some (s.nextJob - 1) } }.setTask
          i (some (.reindex (s.nextJob - 1) target .created)))
      else some s
  | _, _ => none

/-- `_reindex_task`, to its embedder. -/
def State.load (s : State ι δ) (default : String) (i : ι) (loads : Bool) : Option (State ι δ) :=
  match s.tasks i with
  | some (.reindex jobId target .created) =>
    let stage : Stage δ :=
      match statusOf s.jobs jobId with
      | none | some .cancelling | some .cancelled => .ending (.requested false)
      | some _ =>
        if loads then .loaded (target.getD (resolveActiveModel default s.metadata))
        else .ending (.requested true)
    some (s.setTask i (some (.reindex jobId target stage)))
  | _ => none

/-- `_claim_reindex`. Without a directory there is nothing to ingest. -/
def State.claim (s : State ι δ) (configured : Bool) (i : ι) (persisted : Bool) :
    Option (State ι δ) :=
  match s.tasks i with
  | some (.reindex jobId target (.loaded model)) =>
    match statusOf s.jobs jobId with
    | some .pending =>
      if persisted then
        let stage : Stage δ := if configured then .writing model [] none else .promoting model []
        some ({ s with jobs := modifyJob s.jobs jobId fun _ => .running }.setTask i
          (some (.reindex jobId target stage)))
      else some (s.setTask i (some (.reindex jobId target (.ending (.requested true)))))
    | some .running => some (s.setTask i none)
    | _ => some (s.setTask i (some (.reindex jobId target (.ending (.requested false)))))
  | _ => none

def State.ingested (s : State ι δ) (i : ι) (outcome : Outcome) : Option (State ι δ) :=
  match s.tasks i with
  | some (.reindex jobId target (.writing model covered _)) =>
    let stage : Stage δ :=
      match outcome with
      | .returned =>
        if statusOf s.jobs jobId = some .cancelling then .ending (.requested false)
        else .promoting model covered
      | .raised => .ending .failed
      | .cancelled => .ending .cancelled
    some (s.setTask i (some (.reindex jobId target stage)))
  | _ => none

def State.promoteRow (s : State ι δ) (configured : Bool) (jobId : ℕ) (target : Option String)
    (covered : List δ) : State ι δ :=
  match s.metadata, target with
  | some row, some model =>
    let row := row.clearPointer jobId
    if configured then
      { s with
        metadata := some (row.promote model)
        reembedded := s.rows.any fun row => !covered.contains row.doc }
    else { s with metadata := some row }
  | some row, none => { s with metadata := some (row.clearPointer jobId) }
  | none, _ => s

def State.promote (s : State ι δ) (configured : Bool) (i : ι) (written : Bool) :
    Option (State ι δ) :=
  match s.tasks i with
  | some (.reindex jobId target (.promoting _ covered)) =>
    let s := if written then s.promoteRow configured jobId target covered else s
    some ({ s with jobs := modifyJob s.jobs jobId Ending.done }.setTask i none)
  | _ => none

def State.endTask (s : State ι δ) (i : ι) (written : Bool) : Option (State ι δ) :=
  match s.tasks i with
  | some (.reindex jobId _ (.ending ending)) =>
    let metadata := if written then s.metadata.map fun row => row.clearPointer jobId
      else s.metadata
    some ({ s with
      metadata := metadata, jobs := modifyJob s.jobs jobId ending.apply }.setTask i none)
  | _ => none

/-- `delete_job`, for a reindex. -/
def Job.cancel (job : Job) : Job :=
  if job.status = .pending then { job with status := .cancelling, cancelledBeforeStart := true }
  else if job.status = .running then { job with status := .cancelling }
  else job

theorem Job.jobId_cancel (job : Job) : job.cancel.jobId = job.jobId := by
  unfold Job.cancel
  split_ifs
  · rfl
  · rfl
  · rfl

def Job.recover (job : Job) : Job :=
  if job.status = .cancelling ∧ job.cancelledBeforeStart = true then
    { job with status := .cancelled }
  else if job.status = .running ∨ job.status = .cancelling ∨ job.status = .pending then
    { job with status := .failed }
  else job

theorem Job.jobId_recover (job : Job) : job.recover.jobId = job.jobId := by
  unfold Job.recover
  split_ifs
  · rfl
  · rfl
  · rfl

/-- One step. `inside` are the documents of the configured directory, if there is one. -/
def step (default : String) (configured : Bool) (inside : δ → Bool) (s : State ι δ) :
    Event ι δ → Option (State ι δ)
  | .patch requested => s.patch configured requested
  | .ingest i =>
    match s.tasks i with
    | none => some (s.setTask i (some (.ingest (resolveActiveModel default s.metadata) none)))
    | some _ => none
  | .stub i =>
    match s.tasks i with
    | some (.ingest model none) => some ({ s with
        metadata := some (s.metadata.getD { activeEmbeddingModel := model }) }.setTask i none)
    | _ => none
  | .delete i doc => s.deleteDocument inside i doc
  | .add i count => s.addChunks default i count
  | .finish i =>
    match s.tasks i with
    | some (.ingest _ _) => some (s.setTask i none)
    | _ => none
  | .reindex i recorded => s.reindex i recorded
  | .load i loads => s.load default i loads
  | .claim i persisted => s.claim configured i persisted
  | .ingested i outcome => s.ingested i outcome
  | .promote i written => s.promote configured i written
  | .endTask i written => s.endTask i written
  | .cancel jobId => some { s with
      jobs := s.jobs.map (fun job => if job.jobId = jobId then job.cancel else job) (by
        intro job
        split
        · exact job.jobId_cancel
        · rfl) }
  | .evict jobId =>
    if (statusOf s.jobs jobId).any JobStatus.terminal then
      some { s with jobs := s.jobs.erase jobId }
    else none
  | .crash => some { s with
      jobs := s.jobs.map Job.recover Job.jobId_recover, tasks := fun _ => none }

end ArchonSearch.Collections.Reindex
