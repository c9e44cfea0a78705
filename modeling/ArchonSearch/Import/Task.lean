import ArchonSearch.DurableIo
import ArchonSearch.Lib.Run
import ArchonSearch.Jobs.Types
import ArchonSearch.Import.Archive

/-!
# The import worker

`_import_task` as a machine: a run of an import goes through the states of `Task`, and every step
is one call of the search store or one write of the job store – the places where a run can be cut
off, and where the runs of other jobs come in between. Between two such calls a run computes
without being interrupted.

The environment decides how a call ends (`Choice`): it returns, it raises before or after its
effect, and a write of the job store ends as `ArchonSearch.WriteOutcome` says. A raise ends the run
through its handler, which marks the job `FAILED`; a process that dies loses everything but the
jobs file and the collection. What a call that returns can do is said once, by `Setup.Returns`, and
every invariant goes by its cases.

All jobs here are imports of one collection. The chunk table holds its rows with the job
that wrote them, which nothing in the code looks at.
-/

namespace ArchonSearch.Import

open Jobs Option

/-! ### The stored job -/

inductive Phase where
  | validating
  | ingesting
  | indexing

/-- `progress`. -/
structure Progress where
  processed : ℕ
  /-- The `doc_count` of the manifest. -/
  total : ℤ
  phase : Phase

/-- `result`. -/
structure ImportResult where
  imported : ℕ
  skipped : ℤ
  /-- The `doc_count` of the manifest. -/
  totalInArchive : ℤ

/-- The fields of a stored `ImportJob` that a run changes. -/
structure ImportJob where
  status : JobStatus := .queued
  error : Option String := none
  progress : Option Progress := none
  result : Option ImportResult := none
  linesConsumed : ℕ := 0
  collectionClaimed : Bool := false
  collectionClaimRevoked : Bool := false

/-- `(job.progress or {}).get("processed", 0)`. -/
def ImportJob.processed (job : ImportJob) : ℕ := (job.progress.map Progress.processed).getD 0

/-- `update_progress`. -/
def ImportJob.reported (job : ImportJob) (p : Progress) : ImportJob :=
  { job with progress := some p }

/-- `update_progress`, with the lines consumed. -/
def ImportJob.checkpointed (job : ImportJob) (p : Progress) (linesConsumed : ℕ) : ImportJob :=
  { job.reported p with linesConsumed := linesConsumed }

/-- The own claim of `_claim_collection`. -/
def ImportJob.claimed (job : ImportJob) (p : Progress) (linesConsumed : ℕ) : ImportJob :=
  { job.checkpointed p linesConsumed with
    collectionClaimed := true
    collectionClaimRevoked := false }

/-- `_ResumePoint`. -/
structure ResumePoint where
  isResume : Bool
  processed : ℕ
  total : ℤ
  skip : ℕ

/-- `_FRESH_START`. -/
def freshStart : ResumePoint := ⟨false, 0, 0, 0⟩

/-- `_resume_point`. -/
def resumePoint (job : ImportJob) : ResumePoint :=
  if job.collectionClaimed = true ∨ 0 < job.processed then
    { isResume := true
      processed := job.processed
      total := (job.progress.map Progress.total).getD 0
      skip := max job.linesConsumed job.processed }
  else freshStart

/-- `_ImportCounters`. -/
structure ImportCounters where
  resume : ResumePoint
  stored : ℕ := 0
  skipped : ℕ := 0

namespace ImportCounters

/-- `processed`. -/
def processed (c : ImportCounters) : ℕ := c.resume.processed + c.stored

/-- `lines_consumed`. -/
def linesConsumed (c : ImportCounters) (readerSkippedLines : ℕ) : ℕ :=
  c.resume.skip + c.stored + c.skipped + readerSkippedLines

/-- `total_skipped`. -/
def totalSkipped (c : ImportCounters) (readerSkippedLines : ℕ) : ℤ :=
  c.linesConsumed readerSkippedLines - c.processed

end ImportCounters

/-! ### The imports of a collection -/

structure Archive (δ : Type*) where
  /-- `doc_count` of the manifest. -/
  docCount : ℤ
  hasDescription : Bool
  /-- `documents.jsonl`. -/
  lines : List (Line δ)

structure Setup (J δ β : Type*) where
  decoder : Decoder δ β
  collection : String
  ids : List J
  mem_ids : ∀ j, j ∈ ids
  jobId : J → String
  /-- `namespace`. -/
  ns : J → String
  /-- The archive at `archive_path`. -/
  archive : J → Archive δ
  forceOverwrite : J → Bool
  onError : J → OnError

variable {J δ β : Type*}

namespace Setup

variable (S : Setup J δ β) (j : J)

def firstChunk : Except Rejection (Option (Chunk β)) :=
  if 0 < (S.archive j).docCount then
    firstValidChunk S.decoder (S.onError j) (iterDocs (S.archive j).lines 0 (S.onError j))
  else .ok none

end Setup

/-- A row of the chunk table, with the job that wrote it; none for a row from elsewhere. -/
structure Stored (J β : Type*) where
  writer : Option J
  chunk : Chunk β

/-! ### The states of a run -/

/-- The two calls of `_ensure_collection_absent`. -/
inductive Guard where
  | fresh
  | restart

/-- The variables of `_ingest_docs`. -/
structure Loop (δ β : Type*) where
  counters : ImportCounters
  mayOverlap : Bool
  batch : List (Chunk β)
  /-- The running `iter_docs`. -/
  docs : Docs δ
  /-- `reader.skipped_lines`. -/
  skippedLines : ℕ
  embeddingDim : Option ℕ

namespace Loop

def linesConsumed (l : Loop δ β) : ℕ := l.counters.linesConsumed l.skippedLines

/-- `iter_docs` has moved on. -/
def advanced (l : Loop δ β) (docs : Docs δ) (skippedLines : ℕ) : Loop δ β :=
  { l with docs := docs, skippedLines := skippedLines }

/-- `batch.append(chunk)`. -/
def pushed (l : Loop δ β) (chunk : Chunk β) : Loop δ β := { l with batch := l.batch ++ [chunk] }

/-- `counters.skipped += 1`. -/
def rejected (l : Loop δ β) : Loop δ β :=
  { l with counters := { l.counters with skipped := l.counters.skipped + 1 } }

def flushed (l : Loop δ β) (mayOverlap : Bool) : Loop δ β :=
  { l with
    counters := { l.counters with stored := l.counters.stored + l.batch.length }
    mayOverlap := mayOverlap
    batch := [] }

end Loop

inductive Task (J δ β : Type*) where
  | starting
  | validating : ResumePoint → Task J δ β
  /-- `assert_collection_access`. -/
  | checkingAccess : Guard → Task J δ β
  /-- `acquire_collection_lock_or_503`. -/
  | locking : Guard → Task J δ β
  /-- `get_collection_meta`. -/
  | readingMeta : Guard → Task J δ β
  /-- `count_chunks`. -/
  | counting : Guard → Task J δ β
  /-- `drop_collection`; whether there was a metadata row. -/
  | dropping : (hasMeta : Bool) → Task J δ β
  /-- `delete_collection_meta`. -/
  | deletingMeta
  /-- `get_chunks_by_ids`, for the first valid document. -/
  | checkingOwner : ResumePoint → Chunk β → Task J δ β
  /-- `_claim_collection`, with the jobs still to be revoked. -/
  | claiming : ResumePoint → (embeddingDim : Option ℕ) → List J → Task J δ β
  /-- `ensure_collection`. -/
  | ensuring : ResumePoint → (embeddingDim : ℕ) → Task J δ β
  | reading : Loop δ β → Task J δ β
  /-- `stored_chunk_ids`; whether this is the last batch. -/
  | probing : Loop δ β → (last : Bool) → Task J δ β
  /-- `ingest_chunks`, of what is left of the batch; and what `may_overlap` becomes. -/
  | storing : Loop δ β → List (Chunk β) → (mayOverlap last : Bool) → Task J δ β
  | checkpointing : Loop δ β → Task J δ β
  | checkingCancel : Loop δ β → Task J δ β
  | recording : Loop δ β → Task J δ β
  | indexing : Loop δ β → Task J δ β
  | finishing : Loop δ β → Task J δ β
  | failing : (error : String) → Task J δ β

inductive Choice where
  | returns
  | writes : WriteOutcome → Choice
  /-- The call raises without its effect. The handler will report this error; `residue`
  tells whether a metadata row the call had written first is left behind. -/
  | raises : (error : String) → (residue : Bool) → Choice
  | raisesAfter : (error : String) → Choice

structure State (J δ β : Type*) where
  (mem file : J → ImportJob)
  tasks : J → Option (Task J δ β)
  owners : List String
  table : Option (List (Stored J β))
  lock : Option J
  /-- `config.jobs.checkpoint_interval`, of this process. -/
  checkpointInterval : ℕ
  disturbed : J → Bool

def State.rows (s : State J δ β) : List (Stored J β) := s.table.getD []

/-! ### One step of a run -/

/-- `IMPORT_FAILED_DETAIL`. -/
def importFailedDetail : String := "import failed; see the server log for details"

/-- `COLLECTION_UNAVAILABLE_DETAIL`. -/
def collectionUnavailableDetail : String := "collection name is not available to this namespace"

/-- `OVERWRITE_REFUSED_PREFIX`. -/
def overwriteRefusedPrefix : String := "force_overwrite refused: "

/-- `_require_collection_access`: a metadata row names the owners; without one, rows are the
default namespace's, and an empty collection is free. -/
def mayAccess (owners : List String) (rows : List (Stored J β)) (ns : String) : Bool :=
  if owners = [] then ns == "default" || rows.isEmpty else owners.contains ns

def addOwner (owners : List String) (ns : String) : List String :=
  if ns ∈ owners then owners else owners ++ [ns]

variable [DecidableEq J]

namespace State

def goto (s : State J δ β) (j : J) (t : Task J δ β) : State J δ β :=
  { s with tasks := Function.update s.tasks j (some t) }

/-- The `finally` of `_ensure_collection_absent`. -/
def release (s : State J δ β) (j : J) : State J δ β :=
  { s with lock := if s.lock = some j then none else s.lock }

def fail (s : State J δ β) (j : J) (error : String) : State J δ β :=
  (s.release j).goto j (.failing error)

/-- `JobStore.update` of one job: the change is in memory whatever becomes of the write, and
the write is one of the whole table. -/
def update (s : State J δ β) (k : J) (outcome : WriteOutcome) (fields : ImportJob → ImportJob) :
    State J δ β :=
  let mem := Function.update s.mem k (fields (s.mem k))
  { s with mem := mem, file := outcome.publish s.file mem }

/-- The run of `j` updates the job `k` and goes on if that does not raise. -/
def updateThen (s : State J δ β) (j k : J) (outcome : WriteOutcome)
    (fields : ImportJob → ImportJob) (next : Task J δ β) : State J δ β :=
  if outcome.raises then (s.update k outcome fields).fail j importFailedDetail
  else (s.update k outcome fields).goto j next

def updateLast (s : State J δ β) (j : J) (outcome : WriteOutcome)
    (fields : ImportJob → ImportJob) : State J δ β :=
  if outcome.raises then (s.update j outcome fields).fail j importFailedDetail
  else { s.update j outcome fields with tasks := Function.update s.tasks j none }

def disturb (s : State J δ β) (j : J) : State J δ β :=
  { s with disturbed := fun k => if k = j then s.disturbed k else true }

def append (s : State J δ β) (j : J) (ns : String) (chunks : List (Chunk β)) : State J δ β :=
  { s with
    table := some (s.rows ++ chunks.map fun c => ⟨some j, c⟩)
    owners := addOwner s.owners ns
    disturbed := Function.update s.disturbed j false }

/-- The batch is stored: `_store_batch_reporting_overlap`. -/
def store (s : State J δ β) (j : J) (l : Loop δ β) (last : Bool) : State J δ β :=
  if l.mayOverlap then s.goto j (.probing l last) else s.goto j (.storing l l.batch false last)

def stored (s : State J δ β) (j : J) (l : Loop δ β) (mayOverlap last : Bool) : State J δ β :=
  if last then s.goto j (.recording (l.flushed mayOverlap))
  else s.goto j (.checkpointing (l.flushed mayOverlap))

/-- `may_write_collection`, of an import. -/
def mayWrite (s : State J δ β) (k : J) : Bool :=
  (s.mem k).status == .running || (s.mem k).status == .cancelling

end State

namespace Setup

variable (S : Setup J δ β)

/-- `may_drop`. -/
def mayDrop (j : J) : Guard → Bool
  | .fresh => S.forceOverwrite j
  | .restart => false

/-- `refusal`. -/
def refusal : Guard → String
  | .fresh =>
    "collection '" ++ S.collection ++ "' already exists; use force_overwrite=true to overwrite"
  | .restart =>
    "collection '" ++ S.collection ++ "' already exists and was not written by this import; " ++
      "start a new import with force_overwrite=true"

/-- `find_active_collection_job`, for another job of the collection. -/
def findActive (s : State J δ β) (j : J) : Option J :=
  let active := S.ids.filter fun k => k ≠ j && s.mayWrite k
  (active.find? fun k => S.ns k == S.ns j).or active.head?

/-- `collection_job_in_progress_detail`. -/
def jobInProgressDetail (k : J) (ns : String) : String :=
  if S.ns k = ns then "job " ++ S.jobId k ++ " is in progress; retry after it completes"
  else "a job is in progress on this collection; retry after it completes"

/-- The jobs `_claim_collection` revokes. -/
def others (s : State J δ β) (j : J) : List J :=
  S.ids.filter fun k => k ≠ j && !(s.mem k).collectionClaimRevoked

/-- The archive may be imported: a fresh run checks that the collection does not exist, a
resume that it is the one it wrote. -/
def validated (s : State J δ β) (j : J) (resume : ResumePoint) : State J δ β :=
  if resume.isResume then
    match S.firstChunk j with
    | .error r => s.fail j r.message
    | .ok none => s.goto j (.checkingAccess .restart)
    | .ok (some c) => s.goto j (.checkingOwner resume c)
  else s.goto j (.checkingAccess .fresh)

def passed (s : State J δ β) (j : J) : State J δ β :=
  match S.firstChunk j with
  | .error r => s.fail j r.message
  | .ok first =>
    (s.release j).goto j (.claiming freshStart (first.map fun c => c.vector.length) (S.others s j))

def exists? (s : State J δ β) (j : J) (g : Guard) (hasMeta : Bool) : State J δ β :=
  if S.mayDrop j g then
    match S.findActive s j with
    | some k => s.fail j (overwriteRefusedPrefix ++ S.jobInProgressDetail k (S.ns j))
    | none => s.goto j (.dropping hasMeta)
  else s.fail j (S.refusal g)

def ingest (s : State J δ β) (j : J) (resume : ResumePoint) (embeddingDim : Option ℕ) :
    State J δ β :=
  s.goto j (.reading
    { counters := ⟨resume, 0, 0⟩
      mayOverlap := resume.isResume
      batch := []
      docs := iterDocs (S.archive j).lines resume.skip (S.onError j)
      skippedLines := 0
      embeddingDim := embeddingDim })

/-- A write of `_claim_collection`: of the next job to be revoked, or of the own claim. -/
def claim (s : State J δ β) (j : J) (resume : ResumePoint) (embeddingDim : Option ℕ)
    (others : List J) (outcome : WriteOutcome) : State J δ β :=
  match others with
  | k :: rest =>
    s.updateThen j k outcome (fun job => { job with collectionClaimRevoked := true })
      (.claiming resume embeddingDim rest)
  | [] =>
    let s' := (s.update j outcome fun job =>
      job.claimed ⟨resume.processed, (S.archive j).docCount, .validating⟩ resume.skip).disturb j
    if outcome.raises then s'.fail j importFailedDetail
    else
      match embeddingDim with
      | some n => s'.goto j (.ensuring resume n)
      | none => S.ingest s' j resume none

/-- One turn of the loop of `_ingest_docs`. -/
def read (s : State J δ β) (j : J) (l : Loop δ β) : State J δ β :=
  match l.docs with
  | .raised r => s.fail j r.message
  | .done n =>
    let l' := l.advanced (.done n) n
    if l.batch = [] then s.goto j (.recording l') else s.store j l' true
  | .yielded d lineNumber n docs =>
    let l' := l.advanced docs n
    match decodeChunk S.decoder d lineNumber l.embeddingDim, S.onError j with
    | .ok chunk, _ =>
      if s.checkpointInterval ≤ (l'.pushed chunk).batch.length then
        s.store j (l'.pushed chunk) false
      else s.goto j (.reading (l'.pushed chunk))
    | .error (.dimension n), _ => s.fail j (Rejection.dimension n).message
    | .error _, .skip => s.goto j (.reading l'.rejected)
    | .error r, .fail => s.fail j r.message

/-- The next step of the run of a job. None when the environment's answer does not fit, and
while a lock is waited for. -/
def taskStep (s : State J δ β) (j : J) : Task J δ β → Choice → Option (State J δ β)
  -- validating
  | .starting, .writes o =>
    let resume := resumePoint (s.mem j)
    some (s.updateThen j j o
      (fun job => job.reported ⟨resume.processed, resume.total, .validating⟩)
      (.validating resume))
  | .validating _, .raises e _ => some (s.fail j e)
  | .validating resume, .writes o =>
    let s' := s.update j o fun job =>
      job.reported ⟨resume.processed, (S.archive j).docCount, .validating⟩
    some (if o.raises then s'.fail j importFailedDetail else S.validated s' j resume)
  -- the collection exists guard
  | .checkingAccess g, .returns =>
    if mayAccess s.owners s.rows (S.ns j) then
      some (s.goto j (if S.mayDrop j g then .locking g else .readingMeta g))
    else some (s.fail j collectionUnavailableDetail)
  | .locking g, .returns =>
    if s.lock = none then some ({ s with lock := some j }.goto j (.readingMeta g)) else none
  | .readingMeta g, .returns =>
    if S.ns j ∈ s.owners then some (S.exists? s j g true) else some (s.goto j (.counting g))
  | .counting g, .returns =>
    if mayAccess s.owners s.rows (S.ns j) = false then some (s.fail j collectionUnavailableDetail)
    else if s.rows = [] then some (S.passed s j)
    else some (S.exists? s j g false)
  -- a missing table is passed over; the other error that is, a store without connection,
  -- does not occur while the server runs
  | .dropping hasMeta, .returns =>
    if mayAccess s.owners s.rows (S.ns j) = false then some (s.fail j collectionUnavailableDetail)
    else
      let s' := { s with table := none }.disturb j
      some (if hasMeta then s'.goto j .deletingMeta else S.passed s' j)
  | .deletingMeta, .returns => some (S.passed { s with owners := s.owners.erase (S.ns j) } j)
  -- the ownership check of a resume
  | .checkingOwner resume c, .returns =>
    let stored := s.rows.filter fun row => row.chunk.chunkId = c.chunkId
    if (s.mem j).collectionClaimRevoked = false ∧
        stored.any (fun row => row.chunk.indexedAt = c.indexedAt) = true then
      some (s.goto j (.claiming resume (some c.vector.length) (S.others s j)))
    else some (s.goto j (.checkingAccess .restart))
  -- the claim
  | .claiming resume dim others, .writes o => some (S.claim s j resume dim others o)
  | .ensuring resume dim, .returns =>
    if mayAccess s.owners s.rows (S.ns j) then
      some (S.ingest { s with table := some s.rows } j resume (some dim))
    else some (s.fail j importFailedDetail)
  -- ingesting
  | .reading l, .returns => some (S.read s j l)
  | .probing l last, .returns =>
    let stored := (l.batch.map Chunk.chunkId).filter fun id =>
      id ∈ s.rows.map fun row => row.chunk.chunkId
    let fresh := l.batch.filter fun c => c.chunkId ∉ stored
    some (s.goto j (.storing l fresh (!stored.isEmpty) last))
  | .storing l fresh mayOverlap last, .returns =>
    if fresh = [] then some (s.stored j l mayOverlap last)
    else if s.lock ≠ none then none
    else if mayAccess s.owners s.rows (S.ns j) = false then some (s.fail j importFailedDetail)
    else if s.table = none then some (s.fail j importFailedDetail)
    else some ((s.append j (S.ns j) fresh).stored j l mayOverlap last)
  | .storing _ fresh _ _, .raisesAfter e =>
    if fresh = [] ∨ s.lock ≠ none ∨ s.table = none then none
    else some ((s.append j (S.ns j) fresh).fail j e)
  | .checkpointing l, .writes o =>
    some (s.updateThen j j o
      (fun job => job.checkpointed
        ⟨l.counters.processed, (S.archive j).docCount, .ingesting⟩ l.linesConsumed)
      (.checkingCancel l))
  | .checkingCancel l, .returns =>
    if (s.mem j).status = .cancelling then none else some (s.goto j (.reading l))
  | .checkingCancel _, .writes o =>
    if (s.mem j).status = .cancelling then
      some (s.updateLast j o fun job => { job with status := .cancelled })
    else none
  -- indexing
  | .recording l, .writes o =>
    some (s.updateThen j j o
      (fun job => job.checkpointed
        ⟨l.counters.processed, (S.archive j).docCount, .indexing⟩ l.linesConsumed)
      (.indexing l))
  | .indexing l, .returns =>
    let hasMeta := l.embeddingDim.isSome ||
      (S.archive j).hasDescription && (s.mem j).status != .cancelling
    let s' := if hasMeta then { s with owners := addOwner s.owners (S.ns j) } else s
    some (s'.goto j (.finishing l))
  | .finishing l, .writes o =>
    if (s.mem j).status = .cancelling then
      some (s.updateLast j o fun job => { job with status := .cancelled })
    else
      some (s.updateLast j o fun job =>
        { job with
          status := .done
          result := some
            { imported := l.counters.processed
              skipped := l.counters.totalSkipped l.skippedLines
              totalInArchive := (S.archive j).docCount } })
  -- the handler, whose own write may fail
  | .failing e, .writes o =>
    some { s.update j o (fun job => { job with status := .failed, error := some e }) with
      tasks := Function.update s.tasks j none }
  -- calls that raise
  | .dropping _, .raisesAfter e => some (({ s with table := none }.disturb j).fail j e)
  | .deletingMeta, .raisesAfter e =>
    some ({ s with owners := s.owners.erase (S.ns j) }.fail j e)
  | .ensuring _ _, .raisesAfter e => some ({ s with table := some s.rows }.fail j e)
  | .checkingAccess _, .raises e _ | .locking _, .raises e _ | .readingMeta _, .raises e _
  | .counting _, .raises e _ | .dropping _, .raises e _ | .deletingMeta, .raises e _
  | .checkingOwner _ _, .raises e _ | .ensuring _ _, .raises e _ | .reading _, .raises e _
  | .probing _ _, .raises e _ => some (s.fail j e)
  | .storing _ _ _ _, .raises e residue | .indexing _, .raises e residue =>
    let s' := if residue then { s with owners := addOwner s.owners (S.ns j) } else s
    some (s'.fail j e)
  | _, _ => none

inductive Returns (S : Setup J δ β) (s : State J δ β) (j : J) :
    Task J δ β → State J δ β → Prop where
  | refused {t : Task J δ β} (error : String) : Returns S s j t (s.fail j error)
  | available (g : Guard) : Returns S s j (.checkingAccess g)
      (s.goto j (if S.mayDrop j g then .locking g else .readingMeta g))
  | locked (g : Guard) : s.lock = none →
      Returns S s j (.locking g) ({ s with lock := some j }.goto j (.readingMeta g))
  | hasMeta (g : Guard) : Returns S s j (.readingMeta g) (S.exists? s j g true)
  | noMeta (g : Guard) : Returns S s j (.readingMeta g) (s.goto j (.counting g))
  | absent (g : Guard) : s.rows = [] → Returns S s j (.counting g) (S.passed s j)
  | present (g : Guard) : Returns S s j (.counting g) (S.exists? s j g false)
  | droppedTable : Returns S s j (.dropping true)
      (({ s with table := none }.disturb j).goto j .deletingMeta)
  | dropped : Returns S s j (.dropping false) (S.passed ({ s with table := none }.disturb j) j)
  | deletedMeta : Returns S s j .deletingMeta
      (S.passed { s with owners := s.owners.erase (S.ns j) } j)
  | owner (r : ResumePoint) (c : Chunk β) : (s.mem j).collectionClaimRevoked = false →
      (∃ row ∈ s.rows, row.chunk.chunkId = c.chunkId ∧ row.chunk.indexedAt = c.indexedAt) →
      Returns S s j (.checkingOwner r c)
        (s.goto j (.claiming r (some c.vector.length) (S.others s j)))
  | notOwner (r : ResumePoint) (c : Chunk β) :
      Returns S s j (.checkingOwner r c) (s.goto j (.checkingAccess .restart))
  | ensured (r : ResumePoint) (dim : ℕ) : Returns S s j (.ensuring r dim)
      (S.ingest { s with table := some s.rows } j r (some dim))
  | read (l : Loop δ β) : Returns S s j (.reading l) (S.read s j l)
  | probed (l : Loop δ β) (last : Bool) (stored : List String) :
      stored = (l.batch.map Chunk.chunkId).filter
        (fun id => id ∈ s.rows.map fun row => row.chunk.chunkId) →
      Returns S s j (.probing l last)
        (s.goto j (.storing l (l.batch.filter fun c => c.chunkId ∉ stored) (!stored.isEmpty) last))
  | nothing (l : Loop δ β) (mayOverlap last : Bool) :
      Returns S s j (.storing l [] mayOverlap last) (s.stored j l mayOverlap last)
  | appended (l : Loop δ β) (fresh : List (Chunk β)) (mayOverlap last : Bool) :
      Returns S s j (.storing l fresh mayOverlap last)
        ((s.append j (S.ns j) fresh).stored j l mayOverlap last)
  | continued (l : Loop δ β) : Returns S s j (.checkingCancel l) (s.goto j (.reading l))
  | indexed (l : Loop δ β) (owners : List String) :
      Returns S s j (.indexing l) ({ s with owners := owners }.goto j (.finishing l))

variable {t : Task J δ β} {j : J}

theorem returns_of_taskStep {S : Setup J δ β} {s s' : State J δ β}
    (h : S.taskStep s j t .returns = some s') : S.Returns s j t s' := by
  cases t with
  | checkingAccess g =>
    simp only [taskStep] at h
    split at h <;> cases h
    · exact .available g
    · exact .refused _
  | locking g =>
    obtain ⟨hl, rfl⟩ := Lib.of_guard h
    exact .locked g hl
  | readingMeta g =>
    simp only [taskStep] at h
    split_ifs at h <;> cases h
    · exact .hasMeta g
    · exact .noMeta g
  | counting g =>
    simp only [taskStep] at h
    split_ifs at h with hacc hrw <;> cases h
    · exact .refused _
    · exact .absent g hrw
    · exact .present g
  | dropping hasMeta =>
    simp only [taskStep] at h
    split_ifs at h with hacc hmeta <;> cases h
    · exact .refused _
    · subst hmeta
      exact .droppedTable
    · obtain rfl : hasMeta = false := by simpa using hmeta
      exact .dropped
  | deletingMeta =>
    cases h
    exact .deletedMeta
  | checkingOwner r c =>
    simp only [taskStep] at h
    split_ifs at h with ho <;> cases h
    · obtain ⟨row, hr, hind⟩ := List.any_eq_true.mp ho.2
      obtain ⟨hr, hid⟩ := List.mem_filter.mp hr
      exact .owner r c ho.1 ⟨row, hr, of_decide_eq_true hid, of_decide_eq_true hind⟩
    · exact .notOwner r c
  | ensuring r dim =>
    simp only [taskStep] at h
    split_ifs at h <;> cases h
    · exact .ensured r dim
    · exact .refused _
  | reading l =>
    cases h
    exact .read l
  | probing l last =>
    cases h
    exact .probed l last _ rfl
  | storing l fresh mayOverlap last =>
    simp only [taskStep] at h
    split_ifs at h with hfr <;> cases h
    · subst hfr
      exact .nothing l mayOverlap last
    · exact .refused _
    · exact .refused _
    · exact .appended l fresh mayOverlap last
  | checkingCancel l =>
    simp only [taskStep] at h
    split_ifs at h
    cases h
    exact .continued l
  | indexing l =>
    cases h
    split_ifs
    · exact .indexed l (addOwner s.owners (S.ns j))
    · exact .indexed l s.owners
  | starting | validating _ | claiming _ _ _ | checkpointing _ | recording _ | finishing _
  | failing _ => cases h

variable {e : String}

/-- A call that raises without its effect: the run fails. -/
theorem taskStep_raises {S : Setup J δ β} {s s' : State J δ β} {residue : Bool}
    (h : S.taskStep s j t (.raises e residue) = some s') :
    ∃ owners, s' = { s with owners := owners }.fail j e := by
  cases t with
  | storing l fresh mayOverlap last | indexing l =>
    cases h
    cases residue with
    | false => exact ⟨s.owners, rfl⟩
    | true => exact ⟨addOwner s.owners (S.ns j), rfl⟩
  | starting | claiming _ _ _ | checkpointing _ | checkingCancel _ | recording _ | finishing _
  | failing _ => cases h
  | _ => exact ⟨s.owners, (some.inj h).symm⟩

theorem taskStep_raisesAfter {S : Setup J δ β} {s s' : State J δ β}
    (h : S.taskStep s j t (.raisesAfter e) = some s') :
    (∃ hasMeta, t = .dropping hasMeta ∧ s' = ({ s with table := none }.disturb j).fail j e) ∨
    (t = .deletingMeta ∧ s' = { s with owners := s.owners.erase (S.ns j) }.fail j e) ∨
    (∃ r dim, t = .ensuring r dim ∧ s' = { s with table := some s.rows }.fail j e) ∨
    ∃ l fresh mayOverlap last, t = .storing l fresh mayOverlap last ∧
      s' = (s.append j (S.ns j) fresh).fail j e := by
  cases t with
  | dropping hasMeta => exact Or.inl ⟨hasMeta, rfl, (some.inj h).symm⟩
  | deletingMeta => exact Or.inr (Or.inl ⟨rfl, (some.inj h).symm⟩)
  | ensuring r dim => exact Or.inr (Or.inr (Or.inl ⟨r, dim, rfl, (some.inj h).symm⟩))
  | storing l fresh mayOverlap last =>
    simp only [taskStep] at h
    split_ifs at h
    exact Or.inr (Or.inr (Or.inr ⟨l, fresh, mayOverlap, last, rfl, (some.inj h).symm⟩))
  | _ => cases h

end Setup

/-! ### The server -/

inductive Event (J : Type*) where
  | dispatch : J → (outcome rewrite : WriteOutcome) → Event J
  /-- `POST /jobs/{id}/resume`. -/
  | resume : J → (outcome rewrite : WriteOutcome) → Event J
  /-- `DELETE /jobs/{id}`. -/
  | cancel : J → (outcome rewrite : WriteOutcome) → Event J
  | task : J → Choice → Event J
  /-- The process dies, and another one starts with this `checkpoint_interval`. -/
  | restart : WriteOutcome → (checkpointInterval : ℕ) → Event J

/-- What `JobStore._load` makes of an import job. -/
def ImportJob.recovered (job : ImportJob) : ImportJob :=
  if job.status = .running ∨ job.status = .cancelling then
    { job with status := .failed, error := some "process_restart" }
  else job

/-- `JobStore.transition`, to a status: a failed write restores the job in memory and
rewrites the file. The state, and whether the call returned. -/
def State.transition (s : State J δ β) (k : J) (toStatus : JobStatus)
    (outcome rewrite : WriteOutcome) : State J δ β × Bool :=
  let s' := s.update k outcome fun job => { job with status := toStatus }
  if outcome.raises then
    ({ s' with mem := s.mem, file := rewrite.publish s'.file s.mem }, false)
  else (s', true)

namespace Setup

variable (S : Setup J δ β)

def step (s : State J δ β) : Event J → Option (State J δ β)
  | .dispatch j outcome rewrite =>
    if (s.mem j).status = .queued ∧ (s.tasks j).isNone then
      match s.transition j .running outcome rewrite with
      | (s', true) => some (s'.goto j .starting)
      | (s', false) => some s'
    else none
  | .resume j outcome rewrite =>
    if (s.mem j).status = .failed then some (s.transition j .queued outcome rewrite).1 else none
  | .cancel j outcome rewrite =>
    if (s.mem j).status = .running then some (s.transition j .cancelling outcome rewrite).1
    else none
  | .task j choice =>
    match s.tasks j with
    | some t => S.taskStep s j t choice
    | none => none
  | .restart outcome checkpointInterval =>
    let mem := fun k => (s.file k).recovered
    some
      { s with
        mem := mem
        file := outcome.publish s.file mem
        tasks := fun _ => none
        lock := none
        checkpointInterval := checkpointInterval }

end Setup

end ArchonSearch.Import
