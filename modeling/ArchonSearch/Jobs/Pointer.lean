import ArchonSearch.Lib.Run
import ArchonSearch.Jobs.Types

/-!
# One active job of a kind

A reindex, a metadata reindex and a community rebuild each record their job on the row of the
collection, and a request for another one is refused while the recorded job is active. The row
has many more writers, which read it, change other fields and write it back. What keeps the
guard honest is the lock of the collection: the row is read under it, written back as read, and
a job is created, or deleted from the row, while it is held. The tasks clear their pointer
before they end their job, but nothing can come between the release of the lock and the end.

Job statuses change without the lock: a request cancels a job, and a task claims one. Neither makes
a job active that was not. So whatever the holder of the lock has found out about jobs that are not
active still holds when it writes (`Accounts`), and `one_active` follows: no two jobs of one kind
are active, in any interleaving in which the writes of a pointer succeed.

The lock is that of `ArchonSearch.Store.Locks`; here it is what its holder is doing.
-/

namespace ArchonSearch.Jobs.Pointer

open Lib List Option

/-! ### Rows and jobs -/

/-- The kinds of job that a row can point at: `MetaJobPointer`. -/
inductive Kind where
  /-- `ReindexJob`, by `reindex_job_id`. -/
  | reindex
  /-- `MetadataReindexJob`, by `metadata_reindex_job_id`. -/
  | metadataReindex
  /-- `CommunityRebuildJob`, by `community_rebuild_job_id`. -/
  | communityRebuild
  deriving DecidableEq

structure Record where
  jobId : ℕ
  kind : Kind
  status : JobStatus
  /-- `dry_run`, of a metadata reindex. -/
  dryRun : Bool
  deriving DecidableEq

/-- The pointers of a `CollectionMeta`. -/
structure Row where
  (reindexJobId metadataReindexJobId communityRebuildJobId : Option ℕ)

def Row.empty : Row := ⟨none, none, none⟩

def Row.pointer (row : Row) : Kind → Option ℕ
  | .reindex => row.reindexJobId
  | .metadataReindex => row.metadataReindexJobId
  | .communityRebuild => row.communityRebuildJobId

/-- `dataclasses.replace` of a pointer. -/
def Row.withPointer (row : Row) (kind : Kind) (jobId : Option ℕ) : Row :=
  match kind with
  | .reindex => { row with reindexJobId := jobId }
  | .metadataReindex => { row with metadataReindexJobId := jobId }
  | .communityRebuild => { row with communityRebuildJobId := jobId }

@[simp] theorem Row.pointer_withPointer_self (row : Row) (kind : Kind) (jobId : Option ℕ) :
    (row.withPointer kind jobId).pointer kind = jobId := by
  cases kind <;> rfl

theorem Row.pointer_withPointer_of_ne (row : Row) {kind kind' : Kind} (h : kind' ≠ kind)
    (jobId : Option ℕ) : (row.withPointer kind jobId).pointer kind' = row.pointer kind' := by
  cases kind <;> cases kind' <;> first | rfl | exact absurd rfl h

/-- The statuses that the guard of a route refuses: `_REINDEX_METADATA_ACTIVE_STATUSES`,
`_REBUILD_ACTIVE_STATUSES`, and those of `_reindex_in_progress_409`. -/
def Kind.activeStatuses : Kind → List JobStatus
  | reindex => [.running, .pending]
  | metadataReindex | communityRebuild => [.running, .cancelling]

def Kind.created : Kind → JobStatus
  | reindex => .pending
  | metadataReindex | communityRebuild => .running

/-- **An active job** of a kind: it counts unless it is a preview. -/
def Record.IsActive (kind : Kind) (r : Record) : Prop :=
  r.kind = kind ∧ r.dryRun = false ∧ r.status ∈ kind.activeStatuses

abbrev Table := Keyed Record.jobId

def setStatus (jobs : Table) (jobId : ℕ) (f : JobStatus → JobStatus) : Table :=
  jobs.map (fun r => if r.jobId = jobId then { r with status := f r.status } else r) (by
    intro r
    split <;> rfl)

def pointsAt (jobs : Table) (pointer : Option ℕ) (statuses : List JobStatus) : Bool :=
  match pointer.bind jobs.get? with
  | none => false
  | some r => statuses.contains r.status

/-- The guard of a route: `_reindex_in_progress_409`, and the 409 of
`refuse_active_job_or_fail_legacy`. -/
def refuses (jobs : Table) (kind : Kind) (row : Row) : Bool :=
  pointsAt jobs (row.pointer kind) kind.activeStatuses

/-- `refuse_active_job_or_fail_legacy`: a job that is recorded and never runs is failed. -/
def failLegacy (jobs : Table) (kind : Kind) (row : Row) : Table :=
  match kind, row.pointer kind with
  | .reindex, _ => jobs
  | _, none => jobs
  | _, some jobId => setStatus jobs jobId fun status =>
      if status = .queued ∨ status = .pending then .failed else status

/-- `may_write_collection`. -/
def Record.mayWriteCollection (r : Record) : Bool :=
  match r.kind with
  | .reindex => r.status = .running || r.status = .cancelling || r.status = .pending
  | .metadataReindex => !r.dryRun && (r.status = .running || r.status = .cancelling)
  | .communityRebuild => r.status = .running || r.status = .cancelling

/-! ### How a task ends its job -/

inductive Outcome where
  | done
  | failed
  | cancelled
  deriving DecidableEq

def Outcome.status : Outcome → JobStatus
  | done => .done
  | failed => .failed
  | cancelled => .cancelled

inductive Ending where
  /-- `_persist_job_status`, whatever was requested. -/
  | write : Outcome → Ending
  /-- `_finish_requested_cancel`, or else the outcome. -/
  | orCancel : Outcome → Ending
  /-- `_finish_requested_cancel` alone: the job is over, or its cancel was requested. -/
  | cancelOnly
  deriving DecidableEq

def Ending.apply : Ending → JobStatus → JobStatus
  | write outcome, _ => outcome.status
  | orCancel outcome, status => if status = .cancelling then .cancelled else outcome.status
  | cancelOnly, status => if status = .cancelling then .cancelled else status

/-! ### The holder of the lock -/

inductive Purpose where
  /-- `create_collection_job`. -/
  | create : (kind : Kind) → (dryRun : Bool) → Purpose
  | endJob : (kind : Kind) → (jobId : ℕ) → Ending → Purpose
  /-- `patch_collection`. -/
  | patch : (changesModel : Bool) → Purpose
  | carry
  /-- `remove_collection`, or the drop of a sync. -/
  | drop
  deriving DecidableEq

inductive Turn where
  | read : Purpose → Turn
  | record : Row → Turn
  | clear : (kind : Kind) → (jobId : ℕ) → Ending → Row → Turn
  | write : Row → Turn
  | delete
  | leave
  | cleared : (kind : Kind) → (jobId : ℕ) → Ending → Turn
  | finish : (jobId : ℕ) → Ending → Turn

structure World where
  row : Option Row
  jobs : Table
  created : ℕ
  waiting : List Purpose
  turn : Option Turn

inductive Event where
  | check : Kind → Event
  | come : Purpose → Event
  | acquire : Purpose → Event
  | giveUp : Purpose → Event
  | read
  | write
  | leave
  /-- `DELETE /jobs/{id}`. -/
  | cancel : (jobId : ℕ) → Event
  /-- `_claim_reindex`. -/
  | claim : (jobId : ℕ) → Event
  /-- `_evict_old`. -/
  | evict : (jobId : ℕ) → Event

/-- A task ends a job that was created, and one that is not started when it only completes a
cancel. -/
def World.mayCome (s : World) : Purpose → Bool
  | .endJob _ jobId ending => jobId < s.created &&
      (ending ≠ .cancelOnly || !pointsAt s.jobs (some jobId) [.pending, .running])
  | _ => true

/-- `create_collection_job`, once the row is read and the guard has passed. -/
def World.createJob (s : World) (kind : Kind) (dryRun : Bool) (row : Row) : World :=
  let preview := dryRun && kind = .metadataReindex
  let jobs := failLegacy s.jobs kind row
  { s with
    jobs := jobs.insert ⟨s.created, kind, kind.created, preview⟩
    created := s.created + 1
    turn := some (if preview then .leave else .record (row.withPointer kind (some s.created))) }

def World.readRow (s : World) : Purpose → World
  | .create kind dryRun =>
    match s.row with
    | none => { s with turn := some .leave }
    | some row =>
      if refuses s.jobs kind row then { s with turn := some .leave }
      else s.createJob kind dryRun row
  | .endJob kind jobId ending =>
    match s.row with
    | none => { s with turn := some (.finish jobId ending) }
    | some row =>
      if row.pointer kind = some jobId then
        { s with turn := some (.clear kind jobId ending (row.withPointer kind none)) }
      else { s with turn := some (.finish jobId ending) }
  | .patch changesModel =>
    match s.row with
    | none => { s with turn := some .leave }
    | some row =>
      if refuses s.jobs .reindex row then
        { s with turn := some (if changesModel then .leave else .write row) }
      else { s with turn := some (.write (row.withPointer .reindex none)) }
  | .carry => { s with turn := some (.write (s.row.getD Row.empty)) }
  | .drop =>
    { s with
      turn := some (if s.jobs.items.any Record.mayWriteCollection then .leave else .delete) }

/-- One event. The write of a pointer cannot fail; other writes can, or are not made. -/
def step (s : World) : Event → Option World
  | .check kind =>
    match s.row with
    | none => some s
    | some row => some { s with jobs := failLegacy s.jobs kind row }
  | .come purpose =>
    if s.mayCome purpose then some { s with waiting := purpose :: s.waiting } else none
  | .acquire purpose =>
    if purpose ∈ s.waiting ∧ s.turn = none then
      some { s with waiting := s.waiting.erase purpose, turn := some (.read purpose) }
    else none
  | .giveUp purpose =>
    if purpose ∈ s.waiting then
      let s := { s with waiting := s.waiting.erase purpose }
      match purpose with
      | .endJob _ jobId ending =>
        some { s with jobs := setStatus s.jobs jobId ending.apply }
      | _ => some s
    else none
  | .read =>
    match s.turn with
    | some (.read purpose) => some (s.readRow purpose)
    | _ => none
  | .write =>
    match s.turn with
    | some (.record row) => some { s with row := some row, turn := some .leave }
    | some (.clear kind jobId ending row) =>
      some { s with row := some row, turn := some (.cleared kind jobId ending) }
    | some (.write row) => some { s with row := some row }
    | some .delete => some { s with row := none, turn := some .leave }
    -- a model is promoted, on the row as it was read
    | some (.finish _ _) => some s
    | _ => none
  | .leave =>
    match s.turn with
    | some (.cleared _ jobId ending) | some (.finish jobId ending)
    | some (.read (.endJob _ jobId ending)) =>
      some { s with jobs := setStatus s.jobs jobId ending.apply, turn := none }
    | some .leave | some (.write _) | some .delete | some (.read _) =>
      some { s with turn := none }
    | _ => none
  | .cancel jobId =>
    some { s with
      jobs := setStatus s.jobs jobId fun status =>
        if status = .running ∨ status = .pending then .cancelling else status }
  | .claim jobId =>
    match s.jobs.get? jobId with
    | some r =>
      if r.kind = .reindex then
        some { s with
          jobs := setStatus s.jobs jobId fun status =>
            if status = .pending then .running else status }
      else none
    | none => none
  | .evict jobId =>
    some { s with jobs := s.jobs.filter fun r => r.jobId ≠ jobId || !r.status.terminal }

/-- No job is active, and nobody has the lock or waits. -/
def World.IsQuiet (s : World) : Prop :=
  s.waiting = [] ∧ s.turn = none ∧ ∀ r ∈ s.jobs, r.status.terminal = true

/-! ### What a row accounts for -/

def pointerOf (row : Option Row) (kind : Kind) : Option ℕ := row.bind fun r => r.pointer kind

/-- **The row points at every active job.** -/
def Accounts (row : Option Row) (jobs : Table) : Prop :=
  ∀ kind, ∀ r ∈ jobs, r.IsActive kind → pointerOf row kind = some r.jobId

def NoneNew (jobs jobs' : Table) : Prop :=
  ∀ kind, ∀ r' ∈ jobs', r'.IsActive kind → ∃ r ∈ jobs, r.IsActive kind ∧ r.jobId = r'.jobId

def NoLegacy (jobs : Table) : Prop :=
  ∀ r ∈ jobs, r.kind ≠ .reindex → r.status ≠ .pending ∧ r.status ≠ .queued

variable {jobs jobs' : Table} {row : Option Row} {kind : Kind} {jobId : ℕ} {r : Record}
  {ending : Ending} {s s' : World}

theorem NoneNew.refl (jobs : Table) : NoneNew jobs jobs := fun _ r hr h => ⟨r, hr, h, rfl⟩

/-- A collection with an active job is not deleted. -/
theorem Record.IsActive.mayWriteCollection (h : r.IsActive kind) :
    r.mayWriteCollection = true := by
  obtain ⟨rfl, hdry, hstat⟩ := h
  unfold Record.mayWriteCollection
  cases hk : r.kind <;> rw [hk] at hstat <;>
    rcases mem_pair.mp hstat with hstat | hstat <;> simp [hstat, hdry]

theorem Accounts.of_noneNew (h : Accounts row jobs) (hw : NoneNew jobs jobs') :
    Accounts row jobs' := by
  intro kind r' hr' hact
  obtain ⟨r, hr, hact, hid⟩ := hw kind r' hr' hact
  rw [← hid]
  exact h kind r hr hact

variable {f : JobStatus → JobStatus}

theorem noneNew_setStatus (hf : ∀ r ∈ jobs, r.jobId = jobId →
    f r.status ∈ r.kind.activeStatuses → r.status ∈ r.kind.activeStatuses) :
    NoneNew jobs (setStatus jobs jobId f) := by
  intro kind r' hr' hact
  obtain ⟨r, hr, rfl⟩ := Keyed.mem_map.mp hr'
  refine ⟨r, hr, ?_⟩
  split_ifs at hact ⊢ with hid
  · obtain ⟨rfl, hdry, hstat⟩ := hact
    exact ⟨⟨rfl, hdry, hf r hr hid hstat⟩, rfl⟩
  · exact ⟨hact, rfl⟩

variable {status : JobStatus}

theorem notMem_activeStatuses (h : status.terminal = true) :
    status ∉ kind.activeStatuses := by
  cases kind <;> cases status <;> first | decide | cases h

theorem ne_of_terminal (h : status.terminal = true) :
    status ≠ .pending ∧ status ≠ .running ∧ status ≠ .queued := by
  cases status <;> first | decide | cases h

/-- A job is over after its end, if its end did not leave it as it was. -/
theorem terminal_apply (ending : Ending) (status : JobStatus) :
    (ending.apply status).terminal = true ∨
      ending = .cancelOnly ∧ status ≠ .cancelling ∧ ending.apply status = status := by
  have hout (outcome : Outcome) : outcome.status.terminal = true := by cases outcome <;> rfl
  cases ending with
  | write outcome => exact Or.inl (hout outcome)
  | orCancel outcome =>
    refine Or.inl ?_
    simp only [Ending.apply]
    split_ifs
    · rfl
    · exact hout outcome
  | cancelOnly =>
    by_cases hcang : status = .cancelling
    · rw [hcang]
      exact Or.inl rfl
    · exact Or.inr ⟨rfl, hcang, if_neg hcang⟩

theorem notMem_activeStatuses_apply
    (h : ending = .cancelOnly → status ≠ .pending ∧ status ≠ .running) :
    ending.apply status ∉ kind.activeStatuses := by
  rcases terminal_apply ending status with hter | ⟨hcan, hcang, heq⟩
  · exact notMem_activeStatuses hter
  · obtain ⟨hpen, hr⟩ := h hcan
    rw [heq]
    cases kind <;> simp [Kind.activeStatuses, hpen, hr, hcang]

/-- A job that is active after another one has ended is none of those that ended. -/
theorem mem_of_isActive_setStatus {jobs : Table} {jobId : ℕ} {ending : Ending} {r : Record}
    (hes : ending = .cancelOnly → ∀ r ∈ jobs, r.jobId = jobId →
      r.status ≠ .pending ∧ r.status ≠ .running)
    (hr : r ∈ setStatus jobs jobId ending.apply) (hact : r.IsActive kind) :
    r ∈ jobs ∧ r.jobId ≠ jobId := by
  obtain ⟨old, hold, rfl⟩ := Keyed.mem_map.mp hr
  split_ifs at hact ⊢ with hid
  · refine absurd hact.2.2 (notMem_activeStatuses_apply fun hcan => ?_)
    exact hes hcan old hold hid
  · exact ⟨hold, hid⟩

theorem refuses_eq_false (h : Accounts row jobs) {row' : Row} (hrw : row = some row')
    (hfls : refuses jobs kind row' = false) : ∀ r ∈ jobs, ¬r.IsActive kind := by
  intro r hr hact
  have hptr := h kind r hr hact
  rw [hrw] at hptr
  have hg : jobs.get? r.jobId = some r := Keyed.get?_key hr
  have hpoin : row'.pointer kind = some r.jobId := hptr
  unfold refuses pointsAt at hfls
  rw [hpoin, bind_some, hg] at hfls
  have hnot : r.status ∉ kind.activeStatuses := by simpa using hfls
  exact hnot hact.2.2

/-! ### The invariant -/

def EndsWell (jobs : Table) (jobId : ℕ) (ending : Ending) : Prop :=
  ending = .cancelOnly → ∀ r ∈ jobs, r.jobId = jobId → r.status ≠ .pending ∧ r.status ≠ .running

def Purpose.EndsWell (jobs : Table) : Purpose → Prop
  | endJob _ jobId ending => Pointer.EndsWell jobs jobId ending
  | _ => True

def Turn.Sound (row : Option Row) (jobs : Table) : Turn → Prop
  | read purpose => Accounts row jobs ∧ purpose.EndsWell jobs
  -- the job that was created is the only active one of its kind
  | record row' => Accounts (some row') jobs
  | clear kind jobId ending row' => Accounts row jobs ∧ pointerOf row kind = some jobId ∧
      (∀ kind', kind' ≠ kind → row'.pointer kind' = pointerOf row kind') ∧
      EndsWell jobs jobId ending
  | write row' => Accounts row jobs ∧ Accounts (some row') jobs
  | delete => Accounts row jobs ∧ Accounts none jobs
  | leave => Accounts row jobs
  -- the job whose pointer is cleared may be active until it ends
  | cleared kind jobId ending => EndsWell jobs jobId ending ∧
      ∀ kind', ∀ r ∈ jobs, r.IsActive kind' →
        if kind' = kind then r.jobId = jobId else pointerOf row kind' = some r.jobId
  | finish jobId ending => Accounts row jobs ∧ EndsWell jobs jobId ending

/-- The row accounts for the jobs, and what waits ends well. -/
structure World.Sound (s : World) : Prop where
  turn : match s.turn with
    | none => Accounts s.row s.jobs
    | some turn => turn.Sound s.row s.jobs
  waiting : ∀ purpose ∈ s.waiting, purpose.EndsWell s.jobs
  known : ∀ kind jobId ending, .endJob kind jobId ending ∈ s.waiting → jobId < s.created
  noLegacy : NoLegacy s.jobs

/-- **What happens to jobs without the lock**: none becomes active, none starts again, and
none comes to wait for a start. -/
structure Settles (jobs jobs' : Table) : Prop where
  noneNew : NoneNew jobs jobs'
  started : ∀ r' ∈ jobs', ∃ r ∈ jobs, r.jobId = r'.jobId ∧
    (r.status ≠ .pending ∧ r.status ≠ .running → r'.status ≠ .pending ∧ r'.status ≠ .running)
  noLegacy : NoLegacy jobs → NoLegacy jobs'

theorem EndsWell.settles (h : EndsWell jobs jobId ending) (hst : Settles jobs jobs') :
    EndsWell jobs' jobId ending := by
  intro hcan r' hr' hid
  obtain ⟨r, hr, heq, hstat⟩ := hst.started r' hr'
  exact hstat (h hcan r hr (heq.trans hid))

variable {purpose : Purpose}

theorem Purpose.EndsWell.settles (h : purpose.EndsWell jobs)
    (hst : Settles jobs jobs') : purpose.EndsWell jobs' := by
  cases purpose with
  | endJob kind jobId ending => exact Pointer.EndsWell.settles h hst
  | _ => trivial

variable {turn : Turn}

theorem Turn.Sound.settles (h : turn.Sound row jobs) (hst : Settles jobs jobs') :
    turn.Sound row jobs' := by
  have hacc {row : Option Row} (h : Accounts row jobs) : Accounts row jobs' :=
    h.of_noneNew hst.noneNew
  cases turn with
  | read purpose => exact ⟨hacc h.1, h.2.settles hst⟩
  | record row' => exact hacc h
  | clear kind jobId ending row' => exact ⟨hacc h.1, h.2.1, h.2.2.1, h.2.2.2.settles hst⟩
  | write row' => exact ⟨hacc h.1, hacc h.2⟩
  | delete => exact ⟨hacc h.1, hacc h.2⟩
  | leave => exact hacc h
  | finish jobId ending => exact ⟨hacc h.1, h.2.settles hst⟩
  | cleared kind jobId ending =>
    refine ⟨h.1.settles hst, fun kind' r' hr' hact => ?_⟩
    obtain ⟨r, hr, hact, hid⟩ := hst.noneNew kind' r' hr' hact
    rw [← hid]
    exact h.2 kind' r hr hact

theorem World.Sound.settles (h : s.Sound) (hst : Settles s.jobs jobs') :
    ({ s with jobs := jobs' } : World).Sound := by
  refine ⟨?_, fun purpose hm => (h.waiting purpose hm).settles hst, h.known,
    hst.noLegacy h.noLegacy⟩
  have ht := h.turn
  dsimp only
  split at ht
  · exact ht.of_noneNew hst.noneNew
  · exact ht.settles hst

theorem settles_setStatus (hleg : NoLegacy jobs)
    (hact : ∀ r ∈ jobs, r.jobId = jobId →
      f r.status ∈ r.kind.activeStatuses → r.status ∈ r.kind.activeStatuses)
    (hsta : ∀ status, status ≠ .pending ∧ status ≠ .running →
      f status ≠ .pending ∧ f status ≠ .running)
    (hqd : ∀ status, status ≠ .pending ∧ status ≠ .queued →
      f status ≠ .pending ∧ f status ≠ .queued) : Settles jobs (setStatus jobs jobId f) := by
  refine ⟨noneNew_setStatus hact, fun r' hr' => ?_, fun _ r' hr' hk => ?_⟩
  · obtain ⟨r, hr, rfl⟩ := Keyed.mem_map.mp hr'
    refine ⟨r, hr, ?_⟩
    split_ifs
    · exact ⟨rfl, hsta r.status⟩
    · exact ⟨rfl, id⟩
  · obtain ⟨r, hr, rfl⟩ := Keyed.mem_map.mp hr'
    split_ifs at hk ⊢
    · exact hqd r.status (hleg r hr hk)
    · exact hleg r hr hk

theorem settles_apply (hleg : NoLegacy jobs) (hes : EndsWell jobs jobId ending) :
    Settles jobs (setStatus jobs jobId ending.apply) := by
  refine settles_setStatus hleg (fun r hr hid hstat => ?_) (fun status h => ?_) fun status h => ?_
  · exact absurd hstat (notMem_activeStatuses_apply fun hcan => hes hcan r hr hid)
  · rcases terminal_apply ending status with hter | ⟨-, -, heq⟩
    · exact ⟨(ne_of_terminal hter).1, (ne_of_terminal hter).2.1⟩
    · rwa [heq]
  · rcases terminal_apply ending status with hter | ⟨-, -, heq⟩
    · exact ⟨(ne_of_terminal hter).1, (ne_of_terminal hter).2.2⟩
    · rwa [heq]

theorem settles_failLegacy (hleg : NoLegacy jobs) (row : Row) :
    Settles jobs (failLegacy jobs kind row) := by
  have hrefl : Settles jobs jobs :=
    ⟨NoneNew.refl jobs, fun r hr => ⟨r, hr, rfl, id⟩, id⟩
  unfold failLegacy
  split
  · exact hrefl
  · exact hrefl
  · refine settles_setStatus hleg (fun r _ _ hstat => ?_) (fun status h => ?_) fun status h => ?_
    · split_ifs at hstat
      · exact absurd hstat (notMem_activeStatuses rfl)
      · exact hstat
    all_goals
      split_ifs
      · decide
      · exact h

theorem settles_cancel (hleg : NoLegacy jobs) : Settles jobs (setStatus jobs jobId
    fun status => if status = .running ∨ status = .pending then .cancelling else status) := by
  refine settles_setStatus hleg (fun r hr _ hstat => ?_) (fun status h => ?_) fun status h => ?_
  · split_ifs at hstat with hcand
    · -- only a reindex waits for its start, and a reindex that is cancelled is not active
      cases hk : r.kind with
      | reindex =>
        rw [hk] at hstat
        simp [Kind.activeStatuses] at hstat
      | metadataReindex | communityRebuild =>
        have hsta := (hleg r hr (by rw [hk]; decide)).1
        simp [Kind.activeStatuses, hcand.resolve_right hsta]
    · exact hstat
  all_goals
    split_ifs
    · decide
    · exact h

theorem settles_claim (hleg : NoLegacy jobs) (hg : jobs.get? jobId = some r)
    (hk : r.kind = .reindex) : Settles jobs (setStatus jobs jobId
      fun status => if status = .pending then .running else status) := by
  refine settles_setStatus hleg (fun r' hr' hid hstat => ?_) (fun status h => ?_) fun status h => ?_
  · obtain ⟨hr, heq⟩ := Keyed.get?_eq_some_iff.mp hg
    obtain rfl := Keyed.eq_of_key_eq hr' hr (hid.trans heq.symm)
    split_ifs at hstat with hpen
    · rw [hk, hpen]
      decide
    · exact hstat
  · rw [if_neg h.1]
    exact h
  · rw [if_neg h.1]
    exact h

theorem settles_filter (p : Record → Bool) : Settles jobs (jobs.filter p) := by
  refine ⟨fun kind r hr hact => ?_, fun r hr => ?_, fun hleg r hr => ?_⟩
  · exact ⟨r, (Keyed.mem_filter.mp hr).1, hact, rfl⟩
  · exact ⟨r, (Keyed.mem_filter.mp hr).1, rfl, id⟩
  · exact hleg r (Keyed.mem_filter.mp hr).1

/-! ### One step -/

theorem World.Sound.setTurn (h : s.Sound) (ht : turn.Sound s.row s.jobs) :
    ({ s with turn := some turn } : World).Sound :=
  ⟨ht, h.waiting, h.known, h.noLegacy⟩

theorem created_ne (h : kind ≠ .reindex) : kind.created ≠ .pending ∧ kind.created ≠ .queued := by
  cases kind <;> first | decide | exact absurd rfl h

/-- **A job is created** where there is no active one of its kind. -/
theorem World.Sound.createJob (h : s.Sound) {row : Row} (hrw : s.row = some row)
    (hacc : Accounts s.row s.jobs) (hn : ∀ r ∈ s.jobs, ¬r.IsActive kind) (dryRun : Bool) :
    (s.createJob kind dryRun row).Sound := by
  have hst : Settles s.jobs (failLegacy s.jobs kind row) := settles_failLegacy h.noLegacy row
  have hold := hacc.of_noneNew hst.noneNew
  refine ⟨?_, fun purpose hm => ?_, fun kind' jobId ending hm => ?_, fun r hr hk => ?_⟩
  · -- the row that is written accounts for the new job, and for those of other kinds
    have hptr {kind' : Kind} {r : Record} (hr : r ∈ failLegacy s.jobs kind row)
        (hact : r.IsActive kind') : kind' ≠ kind ∧ row.pointer kind' = some r.jobId := by
      obtain ⟨r₀, hr₀, hact₀, -⟩ := hst.noneNew kind' r hr hact
      have hr' := hold kind' r hr hact
      rw [hrw] at hr'
      refine ⟨?_, hr'⟩
      rintro rfl
      exact hn r₀ hr₀ hact₀
    dsimp only [World.createJob]
    split_ifs with hprev
    · intro kind' r hr hact
      rcases Keyed.mem_insert.mp hr with rfl | ⟨hr, -⟩
      · exact absurd hact.2.1 (by simp [hprev])
      · exact hold kind' r hr hact
    · intro kind' r hr hact
      rcases Keyed.mem_insert.mp hr with rfl | ⟨hr, -⟩
      · obtain rfl : kind = kind' := hact.1
        exact row.pointer_withPointer_self kind _
      · obtain ⟨hne, heq⟩ := hptr hr hact
        exact (row.pointer_withPointer_of_ne hne _).trans heq
  · have hes := (h.waiting purpose hm).settles hst
    cases purpose with
    | endJob kind' jobId ending =>
      intro hcan r hr hid
      rcases Keyed.mem_insert.mp hr with rfl | ⟨hr, -⟩
      · exact absurd (h.known kind' jobId ending hm) (by simp [← hid])
      · exact hes hcan r hr hid
    | _ => trivial
  · exact Nat.lt_succ_of_lt (h.known kind' jobId ending hm)
  · rcases Keyed.mem_insert.mp hr with rfl | ⟨hr, -⟩
    · exact created_ne hk
    · exact hst.noLegacy h.noLegacy r hr hk

theorem World.Sound.readRow (h : s.Sound)
    (ht : s.turn = some (.read purpose)) : (s.readRow purpose).Sound := by
  obtain ⟨hacc, hes⟩ : Accounts s.row s.jobs ∧ purpose.EndsWell s.jobs := by
    have hsd := h.turn
    rw [ht] at hsd
    exact hsd
  cases purpose with
  | create kind dryRun =>
    simp only [World.readRow]
    split
    next hrw => exact h.setTurn hacc
    next row hrw =>
      split_ifs with href
      · exact h.setTurn hacc
      · exact h.createJob hrw hacc (refuses_eq_false hacc hrw (Bool.not_eq_true _ ▸ href)) dryRun
  | endJob kind jobId ending =>
    simp only [World.readRow]
    split
    next hrw => exact h.setTurn ⟨hacc, hes⟩
    next row hrw =>
      split_ifs with hptr
      · refine h.setTurn ⟨hacc, ?_, fun kind' hne => ?_, hes⟩
        · rw [hrw]
          exact hptr
        · rw [hrw]
          exact row.pointer_withPointer_of_ne hne none
      · exact h.setTurn ⟨hacc, hes⟩
  | patch changesModel =>
    simp only [World.readRow]
    split
    next hrw => exact h.setTurn hacc
    next row hrw =>
      split_ifs with href hchg
      · exact h.setTurn hacc
      · refine h.setTurn ⟨hacc, ?_⟩
        rw [← hrw]
        exact hacc
      · refine h.setTurn ⟨hacc, fun kind r hr hact => ?_⟩
        have hn := refuses_eq_false hacc hrw (Bool.not_eq_true _ ▸ href)
        have hne : kind ≠ .reindex := by
          rintro rfl
          exact hn r hr hact
        have hptr := hacc kind r hr hact
        rw [hrw] at hptr
        exact (row.pointer_withPointer_of_ne hne none).trans hptr
  | carry =>
    refine h.setTurn ⟨hacc, fun kind r hr hact => ?_⟩
    have hptr := hacc kind r hr hact
    cases hrw : s.row with
    | none =>
      rw [hrw] at hptr
      cases hptr
    | some row =>
      rw [hrw] at hptr
      exact hptr
  | drop =>
    simp only [World.readRow]
    split_ifs with hm
    · exact h.setTurn hacc
    · refine h.setTurn ⟨hacc, fun kind r hr hact => absurd ?_ hm⟩
      exact List.any_eq_true.mpr ⟨r, hr, hact.mayWriteCollection⟩

/-- **What a step preserves.** -/
theorem World.Sound.step (h : s.Sound) {event : Event} (hs : Pointer.step s event = some s') :
    s'.Sound := by
  have hsd := h.turn
  cases event with
  | check kind =>
    simp only [Pointer.step] at hs
    split at hs <;> cases hs
    · exact h
    · exact h.settles (settles_failLegacy h.noLegacy _)
  | come purpose =>
    obtain ⟨hmy, rfl⟩ := of_guard hs
    refine ⟨h.turn, fun purpose' hm => ?_, fun kind jobId ending hm => ?_, h.noLegacy⟩
    · rcases mem_cons.mp hm with rfl | hm
      · cases purpose' with
        | endJob kind jobId ending =>
          rintro rfl r hr rfl
          simp only [World.mayCome, ne_eq, not_true_eq_false, decide_false, Bool.false_or,
            Bool.and_eq_true, Bool.not_eq_true', pointsAt, bind_some,
            Keyed.get?_key hr] at hmy
          simpa using hmy.2
        | _ => trivial
      · exact h.waiting purpose' hm
    · rcases mem_cons.mp hm with rfl | hm
      · simp only [World.mayCome, Bool.and_eq_true, decide_eq_true_eq] at hmy
        exact hmy.1
      · exact h.known kind jobId ending hm
  | acquire purpose =>
    obtain ⟨hfr, rfl⟩ := of_guard hs
    rw [hfr.2] at hsd
    exact ⟨⟨hsd, h.waiting purpose hfr.1⟩,
      fun purpose' hm => h.waiting purpose' (mem_of_mem_erase hm),
      fun kind jobId ending hm => h.known kind jobId ending (mem_of_mem_erase hm),
      h.noLegacy⟩
  | giveUp purpose =>
    simp only [Pointer.step] at hs
    split_ifs at hs with hm
    have hgone : ({ s with waiting := s.waiting.erase purpose } : World).Sound :=
      ⟨h.turn, fun purpose' hm => h.waiting purpose' (mem_of_mem_erase hm),
        fun kind jobId ending hm => h.known kind jobId ending (mem_of_mem_erase hm),
        h.noLegacy⟩
    have hes := h.waiting purpose hm
    cases purpose with
    | endJob kind jobId ending =>
      cases hs
      exact hgone.settles (settles_apply h.noLegacy hes)
    | _ =>
      cases hs
      exact hgone
  | read =>
    simp only [Pointer.step] at hs
    split at hs <;> cases hs
    next purpose ht => exact h.readRow ht
  | write =>
    simp only [Pointer.step] at hs
    split at hs <;> cases hs
    next row ht =>
      rw [ht] at hsd
      exact ⟨hsd, h.waiting, h.known, h.noLegacy⟩
    next kind jobId ending row ht =>
      rw [ht] at hsd
      obtain ⟨hacc, hptr, hoth, hes⟩ := hsd
      refine ⟨⟨hes, fun kind' r hr hact => ?_⟩, h.waiting, h.known, h.noLegacy⟩
      have heq := hacc kind' r hr hact
      split_ifs with hk
      · rw [hk, hptr] at heq
        exact (some.inj heq).symm
      · exact (hoth kind' hk).trans heq
    next row ht =>
      rw [ht] at hsd
      refine ⟨?_, h.waiting, h.known, h.noLegacy⟩
      rw [ht]
      exact ⟨hsd.2, hsd.2⟩
    next ht =>
      rw [ht] at hsd
      exact ⟨hsd.2, h.waiting, h.known, h.noLegacy⟩
    next jobId ending ht => exact h
  | leave =>
    simp only [Pointer.step] at hs
    have hfr {jobs : Table} (hacc : Accounts s.row jobs) (hst : Settles s.jobs jobs) :
        ({ s with jobs := jobs, turn := none } : World).Sound :=
      ⟨hacc, fun purpose hm => (h.waiting purpose hm).settles hst, h.known, hst.noLegacy h.noLegacy⟩
    have he {jobId : ℕ} {ending : Ending} (hacc : Accounts s.row s.jobs)
        (hes : EndsWell s.jobs jobId ending) :
        ({ s with jobs := setStatus s.jobs jobId ending.apply, turn := none } : World).Sound :=
      have hst := settles_apply h.noLegacy hes
      hfr (hacc.of_noneNew hst.noneNew) hst
    have hrefl : Settles s.jobs s.jobs :=
      ⟨NoneNew.refl s.jobs, fun r hr => ⟨r, hr, rfl, id⟩, id⟩
    split at hs <;> cases hs
    next kind jobId ending ht =>
      rw [ht] at hsd
      refine hfr (fun kind' r' hr' hact => ?_) (settles_apply h.noLegacy hsd.1)
      obtain ⟨hm, hne⟩ := mem_of_isActive_setStatus hsd.1 hr' hact
      have hptr := hsd.2 kind' r' hm hact
      split_ifs at hptr with hk
      · exact absurd hptr hne
      · exact hptr
    next jobId ending ht =>
      rw [ht] at hsd
      exact he hsd.1 hsd.2
    next kind jobId ending ht =>
      rw [ht] at hsd
      exact he hsd.1 hsd.2
    next ht =>
      rw [ht] at hsd
      exact hfr hsd hrefl
    next row ht =>
      rw [ht] at hsd
      exact hfr hsd.1 hrefl
    next ht =>
      rw [ht] at hsd
      exact hfr hsd.1 hrefl
    next purpose hnot ht =>
      rw [ht] at hsd
      exact hfr hsd.1 hrefl
  | cancel jobId =>
    cases hs
    exact h.settles (settles_cancel h.noLegacy)
  | claim jobId =>
    simp only [Pointer.step] at hs
    split at hs
    · split_ifs at hs with hk
      cases hs
      exact h.settles (settles_claim h.noLegacy (by assumption) hk)
    · cases hs
  | evict jobId =>
    cases hs
    exact h.settles (settles_filter _)

theorem World.Sound.unique (h : s.Sound) {r r' : Record} (hr : r ∈ s.jobs) (hr' : r' ∈ s.jobs)
    (hact : r.IsActive kind) (hact' : r'.IsActive kind) : r.jobId = r'.jobId := by
  have hacc {row : Option Row} (h : Accounts row s.jobs) : r.jobId = r'.jobId :=
    some.inj ((h kind r hr hact).symm.trans (h kind r' hr' hact'))
  have ht := h.turn
  cases heq : s.turn with
  | none =>
    rw [heq] at ht
    exact hacc ht
  | some turn =>
    rw [heq] at ht
    cases turn with
    | read purpose => exact hacc ht.1
    | record row' => exact hacc ht
    | clear kind' jobId ending row' => exact hacc ht.1
    | write row' => exact hacc ht.1
    | delete => exact hacc ht.1
    | leave => exact hacc ht
    | finish jobId ending => exact hacc ht.1
    | cleared kind' jobId ending =>
      have hone := ht.2 kind r hr hact
      have htwo := ht.2 kind r' hr' hact'
      split_ifs at hone htwo with hk
      · exact hone.trans htwo.symm
      · exact some.inj (hone.symm.trans htwo)

theorem World.IsQuiet.sound (h : s.IsQuiet) : s.Sound := by
  obtain ⟨hwa, ht, hover⟩ := h
  refine ⟨?_, fun purpose hm => ?_, fun kind jobId ending hm => ?_, fun r hr _ => ?_⟩
  · rw [ht]
    intro kind r hr hact
    exact absurd hact.2.2 (notMem_activeStatuses (hover r hr))
  · rw [hwa] at hm
    cases hm
  · rw [hwa] at hm
    cases hm
  · have hne := ne_of_terminal (hover r hr)
    exact ⟨hne.1, hne.2.2⟩

/-- **No two jobs of a kind are active**, in any interleaving of the requests, the tasks, the
other writers of the row, the cancels and the deletions of the collection. -/
theorem one_active {t : World} {events : List Event} (hquiet : s.IsQuiet)
    (hrun : run step s events = some t) (kind : Kind) {r r' : Record} (hr : r ∈ t.jobs)
    (hr' : r' ∈ t.jobs) (hactive : r.IsActive kind) (hactive' : r'.IsActive kind) : r = r' := by
  have hsd : t.Sound := run_invariant (fun _ _ _ hI hs => World.Sound.step hI hs) hquiet.sound hrun
  exact Keyed.eq_of_key_eq hr hr' (hsd.unique hr hr' hactive hactive')

/-! ### Two requests -/

instance (kind : Kind) (r : Record) : Decidable (r.IsActive kind) :=
  inferInstanceAs (Decidable (_ ∧ _ ∧ _))

def sampleWorld : World := ⟨some Row.empty, Keyed.empty, 0, [], none⟩

/-- Two requests for a reindex are let in without the lock, and one is refused under it. -/
def twoRequests : List Event :=
  [.come (.create .reindex false), .come (.create .reindex false),
    .acquire (.create .reindex false), .read, .cancel 7, .write, .leave, .claim 0,
    .acquire (.create .reindex false), .read, .leave]

theorem one_active_twoRequests : ∃ t, run step sampleWorld twoRequests = some t ∧
    ∃ r ∈ t.jobs, r.IsActive .reindex ∧ ∀ r' ∈ t.jobs, r'.IsActive .reindex → r = r' := by
  obtain ⟨t, ht, hr⟩ : ∃ t ∈ run step sampleWorld twoRequests,
      ⟨0, .reindex, .running, false⟩ ∈ t.jobs := by
    decide +kernel
  have hq : sampleWorld.IsQuiet := ⟨rfl, rfl, fun _ h => absurd h (Keyed.notMem_empty _)⟩
  exact ⟨t, ht, _, hr, by decide, fun r' hr' hact' =>
    one_active hq ht .reindex hr hr' (by decide) hact'⟩

end ArchonSearch.Jobs.Pointer
