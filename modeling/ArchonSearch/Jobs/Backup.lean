import ArchonSearch.Jobs.Types
import ArchonSearch.Lib.Run

/-!
# Scheduled backups

A tick of the backup loop creates an export job for each collection, unless a backup of it is
already on its way. That is asked in two places. The loop tracks the jobs that it has created, and
drops those that are over; and it looks for a backup of the collection among the queued jobs. So it
overlooks a backup that runs and is not tracked: one that was queued when the server was restarted,
as the tracker is kept in memory, and one that had failed, was dropped, and has been resumed. And
nothing is asked when a failed backup is resumed, for which the next tick has created another one.

`oneLive_iff` says that there is nothing else: elsewhere at most one backup of each collection is
live (`Careful`).
-/

namespace ArchonSearch.Jobs.Backup

open Lib List Option

/-! ### Jobs -/

inductive Kind where
  | exportJob
  | importJob
  /-- `MigrationJob`. -/
  | migration
  deriving DecidableEq

abbrev Target := String × String

structure Record where
  jobId : ℕ
  kind : Kind
  source : IngestSource
  /-- `namespace` and `collection`. -/
  target : Target
  status : JobStatus
  deriving DecidableEq

/-- An export job with source `backup`. -/
def Record.isBackup (r : Record) : Bool := r.kind = .exportJob && r.source = .backup

/-- `QUEUED`, `RUNNING` or `CANCELLING`. -/
def isLive : JobStatus → Bool
  | .queued | .running | .cancelling => true
  | .pending | .done | .failed | .failedExpired | .cancelled => false

def Record.isLiveBackup (r : Record) : Bool := r.isBackup && isLive r.status

abbrev Table := Keyed Record.jobId

/-- `_in_flight`: the target of each job that is tracked. -/
abbrev Tracker := List (ℕ × Target)

structure State where
  jobs : Table
  inFlight : Tracker
  created : ℕ

/-! ### The loop -/

/-- `_is_excluded`. -/
def isExcluded (exclude : List String) (target : Target) : Bool :=
  exclude.any fun pattern =>
    if pattern.toList.contains '/' then pattern == target.1 ++ "/" ++ target.2
    else pattern == target.2

/-- `is_collection_in_flight`. -/
def State.isCollectionInFlight (s : State) (target : Target) : Bool :=
  s.inFlight.any fun entry => entry.2 = target

/-- `queued_backup_keys`. -/
def State.queuedBackupKeys (s : State) : List Target :=
  (s.jobs.items.filter fun r => r.status = .queued && r.source = .backup).map Record.target

/-- A collection that is listed, and whether `create_export` returns for it. -/
structure Entry where
  /-- `info.namespace` and `info.name`. -/
  target : Target
  saved : Bool

/-- `create_export` and `track`. -/
def State.create (s : State) (target : Target) : State where
  jobs := s.jobs.insert ⟨s.created, .exportJob, .backup, target, .queued⟩
  inFlight := s.inFlight ++ [(s.created, target)]
  created := s.created + 1

def State.enqueue (exclude : List String) (queued : List Target) (s : State) (e : Entry) : State :=
  if isExcluded exclude e.target || s.isCollectionInFlight e.target ||
    queued.contains e.target || !e.saved then s
  else s.create e.target

/-- `_run_one_tick`, and `trigger_backup` for the collections of a namespace. -/
def State.tick (exclude : List String) (s : State) (entries : List Entry) : State :=
  entries.foldl (State.enqueue exclude s.queuedBackupKeys) s

/-- The loop of `_drain_completed`, which ends if the state file of a backup that is done cannot
be written. -/
def drain (jobs : Table) (written : ℕ → Bool) : Tracker → Tracker
  | [] => []
  | entry :: entries =>
    match (jobs.get? entry.1).map Record.status with
    | none | some .failed | some .cancelled => drain jobs written entries
    | some .done => if written entry.1 then drain jobs written entries else entry :: entries
    | _ => entry :: drain jobs written entries

/-! ### The process -/

inductive Event where
  /-- A tick, or `POST /backup/trigger`. -/
  | tick : List Entry → Event
  /-- `_drain_completed`. -/
  | drain : (written : ℕ → Bool) → Event
  | submit : Kind → Target → Event
  | promote : (jobId : ℕ) → (dispatched : Bool) → Event
  /-- The task of a job ends it as `DONE`, `FAILED` or `CANCELLED`. -/
  | finish : (jobId : ℕ) → (status : JobStatus) → Event
  /-- `DELETE /jobs/{id}`. -/
  | cancel : (jobId : ℕ) → Event
  /-- `POST /jobs/{id}/resume`. -/
  | resume : (jobId : ℕ) → Event
  /-- `_evict_old`. -/
  | evict : (jobId : ℕ) → Event
  | restart

def rewrite (f : Record → JobStatus) (jobs : Table) : Table :=
  jobs.map (fun r => { r with status := f r }) fun _ => rfl

def setStatus (jobId : ℕ) (f : JobStatus → JobStatus) : Table → Table :=
  rewrite fun r => if r.jobId = jobId then f r.status else r.status

/-- `transition({QUEUED}, RUNNING)`, and `FAILED` if the dispatch raises. -/
def promoted (dispatched : Bool) (status : JobStatus) : JobStatus :=
  if status = .queued then if dispatched then .running else .failed else status

def finished (last status : JobStatus) : JobStatus :=
  if (status = .running ∨ status = .cancelling) ∧
    (last = .done ∨ last = .failed ∨ last = .cancelled) then last else status

/-- `transition(_ACTIVE_STATUSES, CANCELLING)`. -/
def cancelled (status : JobStatus) : JobStatus :=
  if status = .running ∨ status = .pending then .cancelling else status

/-- `transition({FAILED}, QUEUED)`. -/
def resumed (status : JobStatus) : JobStatus := if status = .failed then .queued else status

/-- What `_load` does: a job that ran has failed. -/
def reloaded (status : JobStatus) : JobStatus :=
  if status = .running ∨ status = .cancelling then .failed else status

def step (exclude : List String) (s : State) : Event → Option State
  | .tick entries => some (s.tick exclude entries)
  | .drain written => some { s with inFlight := Backup.drain s.jobs written s.inFlight }
  | .submit kind target =>
    some { s with
      jobs := s.jobs.insert ⟨s.created, kind, .user, target, .queued⟩
      created := s.created + 1 }
  | .promote jobId dispatched =>
    some { s with jobs := setStatus jobId (promoted dispatched) s.jobs }
  | .finish jobId status => some { s with jobs := setStatus jobId (finished status) s.jobs }
  | .cancel jobId => some { s with jobs := setStatus jobId cancelled s.jobs }
  | .resume jobId => some { s with jobs := setStatus jobId resumed s.jobs }
  | .evict jobId =>
    some { s with jobs := s.jobs.filter fun r => r.jobId ≠ jobId || !r.status.terminal }
  | .restart => some { s with jobs := rewrite (fun r => reloaded r.status) s.jobs, inFlight := [] }

def State.init : State := ⟨Keyed.empty, [], 0⟩

/-- **At most one live backup** of each collection. -/
def OneLive (s : State) : Prop :=
  ∀ r ∈ s.jobs, ∀ r' ∈ s.jobs, r.isLiveBackup = true → r'.isLiveBackup = true →
    r.target = r'.target → r = r'

def State.Asks (exclude : List String) (queued : List Target) (s : State) (entries : List Entry)
    (target : Target) : Prop :=
  ⟨target, true⟩ ∈ entries ∧ isExcluded exclude target = false ∧
    s.isCollectionInFlight target = false ∧ target ∉ queued

/-- No tick creates a backup of a collection while another one is running or being cancelled, and
no failed one is resumed while another one is live. -/
def Careful (exclude : List String) (s : State) : Event → Prop
  | .tick entries => ∀ r ∈ s.jobs, r.isBackup = true →
      s.Asks exclude s.queuedBackupKeys entries r.target →
      r.status ≠ .running ∧ r.status ≠ .cancelling
  | .resume jobId => ∀ r ∈ s.jobs, r.jobId = jobId → r.isBackup = true → r.status = .failed →
      ∀ r' ∈ s.jobs, r'.isLiveBackup = true → r'.target ≠ r.target
  | _ => True

/-! ### What a tick creates -/

variable {exclude : List String} {s s' : State} {e : Event} {entry : Entry}
  {entries : List Entry} {queued : List Target} {target : Target} {r r' : Record}

def State.Fresh (s : State) : Prop := ∀ r ∈ s.jobs, r.jobId < s.created

/-- What turns of the loop lead to: a new backup of each collection that they ask for. -/
structure Enqueued (exclude : List String) (queued : List Target) (entries : List Entry)
    (s s' : State) : Prop where
  kept : ∀ r ∈ s.jobs, r ∈ s'.jobs
  new : ∀ r ∈ s'.jobs, r ∈ s.jobs ∨ s.created ≤ r.jobId ∧ r.isBackup = true ∧
    r.status = .queued ∧ s.Asks exclude queued entries r.target
  unique : ∀ r ∈ s'.jobs, ∀ r' ∈ s'.jobs, s.created ≤ r.jobId → s.created ≤ r'.jobId →
    r.target = r'.target → r = r'
  asked : ∀ target, s.Asks exclude queued entries target →
    ∃ r ∈ s'.jobs, s.created ≤ r.jobId ∧ r.isLiveBackup = true ∧ r.target = target
  fresh : s'.Fresh

theorem State.Fresh.create (h : s.Fresh) (target : Target) : (s.create target).Fresh := by
  intro r hr
  rcases Keyed.mem_insert.mp hr with rfl | ⟨hr, -⟩
  · exact Nat.lt_succ_self _
  · exact Nat.lt_succ_of_lt (h r hr)

theorem isCollectionInFlight_create {t : Target} :
    (s.create t).isCollectionInFlight target = false ↔
      s.isCollectionInFlight target = false ∧ t ≠ target := by
  simp [State.isCollectionInFlight, State.create]

theorem asks_cons (h : (isExcluded exclude entry.target || s.isCollectionInFlight entry.target ||
      queued.contains entry.target || !entry.saved) = true) :
    s.Asks exclude queued (entry :: entries) target ↔ s.Asks exclude queued entries target := by
  refine ⟨fun hasks => ⟨?_, hasks.2⟩, fun hasks => ⟨mem_cons_of_mem _ hasks.1, hasks.2⟩⟩
  obtain ⟨hm, hexc, hflt, hqd⟩ := hasks
  refine (mem_cons.mp hm).resolve_left ?_
  rintro rfl
  simp [hexc, hflt, hqd] at h

/-- **The loop over the collections**: a collection is tracked once a backup of it was created, so
that no second one is. -/
theorem enqueued_foldl (entries : List Entry) (s : State) (h : s.Fresh) :
    Enqueued exclude queued entries s (entries.foldl (State.enqueue exclude queued) s) := by
  induction entries generalizing s with
  | nil =>
    refine ⟨fun r hr => hr, fun r hr => Or.inl hr, ?_, fun target hasks => ?_, h⟩
    · exact fun r hr r' _ hle => absurd (h r hr) (Nat.not_lt.mpr hle)
    · cases hasks.1
  | cons entry entries ih =>
    rw [foldl_cons]
    by_cases hskip : (isExcluded exclude entry.target || s.isCollectionInFlight entry.target ||
        queued.contains entry.target || !entry.saved) = true
    · have hstay : State.enqueue exclude queued s entry = s := if_pos hskip
      rw [hstay]
      have hlp := ih s h
      refine ⟨hlp.kept, fun r hr => ?_, hlp.unique, fun target hasks => ?_, hlp.fresh⟩
      · rcases hlp.new r hr with hold | ⟨hle, hbac, hstat, hasks⟩
        · exact Or.inl hold
        · exact Or.inr ⟨hle, hbac, hstat, (asks_cons hskip).mpr hasks⟩
      · exact hlp.asked target ((asks_cons hskip).mp hasks)
    · have hcreate : State.enqueue exclude queued s entry = s.create entry.target := if_neg hskip
      rw [hcreate]
      have hlp := ih (s.create entry.target) (h.create entry.target)
      obtain ⟨hask, hself⟩ : s.Asks exclude queued (entry :: entries) entry.target ∧
          entry.saved = true := by
        simp only [Bool.or_eq_true, not_or, Bool.not_eq_true, Bool.not_eq_true',
          Bool.not_eq_false] at hskip
        obtain ⟨⟨⟨hexc, hflt⟩, hqd⟩, hsav⟩ := hskip
        refine ⟨⟨?_, hexc, hflt, by simpa using hqd⟩, hsav⟩
        rw [← hsav]
        exact mem_cons_self
      -- the job of this turn
      have hm : (⟨s.created, .exportJob, .backup, entry.target, .queued⟩ : Record) ∈
          (s.create entry.target).jobs := Keyed.mem_insert.mpr (Or.inl rfl)
      have hlat {target : Target} (hasks : (s.create entry.target).Asks exclude queued entries
          target) : s.Asks exclude queued (entry :: entries) target ∧ entry.target ≠ target := by
        obtain ⟨hm, hexc, hflt, hqd⟩ := hasks
        obtain ⟨hflt, hne⟩ := isCollectionInFlight_create.mp hflt
        exact ⟨⟨mem_cons_of_mem _ hm, hexc, hflt, hqd⟩, hne⟩
      have hw : ∀ r ∈ (entries.foldl (State.enqueue exclude queued) (s.create entry.target)).jobs,
          r ∈ s.jobs ∨ r = ⟨s.created, .exportJob, .backup, entry.target, .queued⟩ ∨
            s.created + 1 ≤ r.jobId ∧ r.isBackup = true ∧ r.status = .queued ∧
              (s.create entry.target).Asks exclude queued entries r.target := by
        intro r hr
        rcases hlp.new r hr with hold | hask
        · rcases Keyed.mem_insert.mp hold with rfl | ⟨hold, -⟩
          · exact Or.inr (Or.inl rfl)
          · exact Or.inl hold
        · exact Or.inr (Or.inr hask)
      refine ⟨fun r hr => ?_, fun r hr => ?_, ?_, fun target hasks => ?_, hlp.fresh⟩
      · refine hlp.kept r (Keyed.mem_insert.mpr (Or.inr ⟨hr, ?_⟩))
        exact Nat.ne_of_lt (h r hr)
      · rcases hw r hr with hold | rfl | ⟨hle, hbac, hstat, hasks⟩
        · exact Or.inl hold
        · exact Or.inr ⟨le_rfl, rfl, rfl, hask⟩
        · exact Or.inr ⟨Nat.le_of_succ_le hle, hbac, hstat, (hlat hasks).1⟩
      · intro r hr r' hr' hle hle' heq
        rcases hw r hr with hold | rfl | ⟨hlt, -, -, hasks⟩
        · exact absurd (h r hold) (Nat.not_lt.mpr hle)
        · rcases hw r' hr' with hold | rfl | ⟨-, -, -, has'⟩
          · exact absurd (h r' hold) (Nat.not_lt.mpr hle')
          · rfl
          · exact absurd heq (hlat has').2
        · rcases hw r' hr' with hold | rfl | ⟨hlt', -, -, -⟩
          · exact absurd (h r' hold) (Nat.not_lt.mpr hle')
          · exact absurd heq.symm (hlat hasks).2
          · exact hlp.unique r hr r' hr' hlt hlt' heq
      · by_cases htgt : entry.target = target
        · exact ⟨_, hlp.kept _ hm, le_rfl, rfl, htgt⟩
        · obtain ⟨hasks, hexc, hflt, hqd⟩ := hasks
          have hrs : (⟨target, true⟩ : Entry) ∈ entries := by
            refine (mem_cons.mp hasks).resolve_left ?_
            rintro rfl
            exact htgt rfl
          obtain ⟨r, hr, hle, hli, heq⟩ := hlp.asked target
            ⟨hrs, hexc, isCollectionInFlight_create.mpr ⟨hflt, htgt⟩, hqd⟩
          exact ⟨r, hr, Nat.le_of_succ_le hle, hli, heq⟩

/-- **A tick** keeps one live backup of each collection exactly if it is careful. -/
theorem oneLive_tick_iff (h : OneLive s) (hfr : s.Fresh) (entries : List Entry) :
    OneLive (s.tick exclude entries) ↔ Careful exclude s (.tick entries) := by
  have hlp : Enqueued exclude s.queuedBackupKeys entries s (s.tick exclude entries) :=
    enqueued_foldl entries s hfr
  constructor
  · intro hone r hr hbac hwan
    obtain ⟨r', hr', hle, hli', heq⟩ := hlp.asked r.target hwan
    have hrs : isLive r.status = true → False := by
      intro hli
      have hsa := hone r (hlp.kept r hr) r' hr' (by simp [Record.isLiveBackup, hbac, hli])
        hli' heq.symm
      exact absurd (hfr r hr) (Nat.not_lt.mpr (hsa ▸ hle))
    exact ⟨fun hrun => hrs (by rw [hrun]; rfl), fun hcang => hrs (by rw [hcang]; rfl)⟩
  · intro hcar
    -- an old one of a collection that is asked for would be queued
    have hmix : ∀ r ∈ s.jobs, ∀ target, r.isLiveBackup = true → r.target = target →
        ¬s.Asks exclude s.queuedBackupKeys entries target := by
      rintro r hr - hli rfl hasks
      obtain ⟨hbac, hli⟩ := Bool.and_eq_true_iff.mp hli
      obtain ⟨hrun, hcang⟩ := hcar r hr hbac hasks
      have hqd : r.status = .queued := by
        cases hstat : r.status <;> simp_all [isLive]
      refine hasks.2.2.2 (List.mem_map_of_mem (mem_filter.mpr ⟨hr, ?_⟩))
      simp only [Record.isBackup, Bool.and_eq_true, decide_eq_true_eq] at hbac
      simp [hqd, hbac.2]
    intro r hr r' hr' hli hli' heq
    rcases hlp.new r hr with hold | ⟨hle, -, -, hasks⟩
    · rcases hlp.new r' hr' with ho' | ⟨-, -, -, has'⟩
      · exact h r hold r' ho' hli hli' heq
      · exact absurd has' (hmix r hold _ hli heq)
    · rcases hlp.new r' hr' with ho' | ⟨hle', -, -, -⟩
      · exact absurd hasks (hmix r' ho' _ hli' heq.symm)
      · exact hlp.unique r hr r' hr' hle hle' heq

/-! ### What the other events do -/

/-- The ids of new jobs are new, and each job was created as `QUEUED`. -/
structure Sound (s : State) : Prop where
  fresh : s.Fresh
  /-- No job is `PENDING`. -/
  created : ∀ r ∈ s.jobs, r.status ≠ .pending

variable {f : Record → JobStatus}

theorem mem_rewrite {jobs : Table} :
    r ∈ rewrite f jobs ↔ ∃ r₀ ∈ jobs, { r₀ with status := f r₀ } = r := Keyed.mem_map

/-- Statuses that are written anew keep a state sound. -/
theorem Sound.rewrite (h : Sound s)
    (hf : ∀ r ∈ s.jobs, r.status ≠ .pending → f r ≠ .pending) (inFlight : Tracker) :
    Sound { s with jobs := rewrite f s.jobs, inFlight := inFlight } := by
  constructor
  · intro r hr
    obtain ⟨r₀, hr₀, rfl⟩ := mem_rewrite.mp hr
    exact h.fresh r₀ hr₀
  · intro r hr
    obtain ⟨r₀, hr₀, rfl⟩ := mem_rewrite.mp hr
    exact hf r₀ hr₀ (h.created r₀ hr₀)

theorem Sound.setStatus {f : JobStatus → JobStatus} (h : Sound s)
    (hf : ∀ status, status ≠ .pending → f status ≠ .pending) (jobId : ℕ) :
    Sound { s with jobs := setStatus jobId f s.jobs } := by
  refine h.rewrite (fun r _ hr => ?_) s.inFlight
  split
  · exact hf r.status hr
  · exact hr

/-- **Every event** keeps a state sound. -/
theorem sound_step (h : Sound s) (hs : step exclude s e = some s') : Sound s' := by
  cases e <;> cases some.inj hs
  case tick entries =>
    have hlp : Enqueued exclude s.queuedBackupKeys entries s (s.tick exclude entries) :=
      enqueued_foldl entries s h.fresh
    refine ⟨hlp.fresh, fun r hr => ?_⟩
    rcases hlp.new r hr with hold | ⟨-, -, hstat, -⟩
    · exact h.created r hold
    · simp [hstat]
  case drain written => exact ⟨h.fresh, h.created⟩
  case submit kind target =>
    constructor
    · intro r hr
      rcases Keyed.mem_insert.mp hr with rfl | ⟨hr, -⟩
      · exact Nat.lt_succ_self _
      · exact Nat.lt_succ_of_lt (h.fresh r hr)
    · intro r hr
      rcases Keyed.mem_insert.mp hr with rfl | ⟨hr, -⟩
      · simp
      · exact h.created r hr
  case promote jobId dispatched =>
    refine h.setStatus (fun status hne => ?_) jobId
    unfold promoted
    split_ifs <;> first | exact hne | decide
  case finish jobId last =>
    refine h.setStatus (fun status hne => ?_) jobId
    unfold finished
    split
    next hl => rcases hl.2 with rfl | rfl | rfl <;> decide
    · exact hne
  case cancel jobId =>
    refine h.setStatus (fun status hne => ?_) jobId
    unfold cancelled
    split_ifs <;> first | exact hne | decide
  case resume jobId =>
    refine h.setStatus (fun status hne => ?_) jobId
    unfold resumed
    split_ifs <;> first | exact hne | decide
  case evict jobId =>
    exact ⟨fun r hr => h.fresh r (Keyed.mem_filter.mp hr).1,
      fun r hr => h.created r (Keyed.mem_filter.mp hr).1⟩
  case restart =>
    refine h.rewrite (fun r _ hne => ?_) []
    unfold reloaded
    split_ifs <;> first | exact hne | decide

/-- There is one live backup if each comes from one that was live before. -/
theorem OneLive.of_live (h : OneLive s)
    (hfrom : ∀ r ∈ s'.jobs, r.isLiveBackup = true →
      ∃ r₀ ∈ s.jobs, r₀.isLiveBackup = true ∧ r₀.jobId = r.jobId ∧ r₀.target = r.target) :
    OneLive s' := by
  intro r hr r' hr' hli hli' heq
  obtain ⟨r₀, hr₀, hli₀, hid, htgt⟩ := hfrom r hr hli
  obtain ⟨r₁, hr₁, hli₁, hid', htgt'⟩ := hfrom r' hr' hli'
  have hsa : r₀ = r₁ := h r₀ hr₀ r₁ hr₁ hli₀ hli₁ (by rw [htgt, htgt', heq])
  exact Keyed.eq_of_key_eq hr hr' (by rw [← hid, ← hid', hsa])

theorem OneLive.rewrite (h : OneLive s)
    (hf : ∀ r ∈ s.jobs, isLive (f r) = true → isLive r.status = true) (inFlight : Tracker) :
    OneLive { s with jobs := rewrite f s.jobs, inFlight := inFlight } := by
  refine h.of_live fun r hr hli => ?_
  obtain ⟨r₀, hr₀, rfl⟩ := mem_rewrite.mp hr
  obtain ⟨hbac, hli⟩ := Bool.and_eq_true_iff.mp hli
  exact ⟨r₀, hr₀, Bool.and_eq_true_iff.mpr ⟨hbac, hf r₀ hr₀ hli⟩, rfl, rfl⟩

theorem OneLive.setStatus {f : JobStatus → JobStatus} (h : OneLive s) (hsd : Sound s)
    (hf : ∀ status, status ≠ .pending → isLive (f status) = true → isLive status = true)
    (jobId : ℕ) : OneLive { s with jobs := setStatus jobId f s.jobs } := by
  refine h.rewrite (fun r hr hli => ?_) s.inFlight
  split at hli
  · exact hf r.status (hsd.created r hr) hli
  · exact hli

theorem mem_resumed {jobId : ℕ} : r ∈ setStatus jobId resumed s.jobs ↔
    ∃ r₀ ∈ s.jobs, r = if r₀.jobId = jobId ∧ r₀.status = .failed
      then { r₀ with status := .queued } else r₀ := by
  refine mem_rewrite.trans (exists_congr fun r₀ => and_congr_right fun _ => ?_)
  obtain ⟨id, kind, source, target, status⟩ := r₀
  by_cases hid : id = jobId <;> by_cases hfa : status = .failed <;>
    simp [resumed, hid, hfa, eq_comm]

/-- **A resume** keeps one live backup of each collection exactly if it is careful. -/
theorem oneLive_resume_iff (h : OneLive s) (jobId : ℕ) :
    OneLive { s with jobs := setStatus jobId resumed s.jobs } ↔
      Careful exclude s (.resume jobId) := by
  constructor
  · intro hone r hr hid hbac hfa r' hr' hli' heq
    have hstays : r'.status ≠ .failed := by
      intro hfa'
      simp [Record.isLiveBackup, hfa', isLive] at hli'
    have hsa := hone _ (mem_resumed.mpr ⟨r, hr, (if_pos ⟨hid, hfa⟩).symm⟩) r'
      (mem_resumed.mpr ⟨r', hr', (if_neg fun h => hstays h.2).symm⟩)
      (Bool.and_eq_true_iff.mpr ⟨hbac, rfl⟩) hli' heq.symm
    have hk : r.jobId = r'.jobId := by rw [← hsa]
    have hk : r = r' := Keyed.eq_of_key_eq hr hr' hk
    exact hstays (hk ▸ hfa)
  · intro hcar r hr r' hr' hli hli' heq
    obtain ⟨r₀, hr₀, rfl⟩ := mem_resumed.mp hr
    obtain ⟨r₁, hr₁, rfl⟩ := mem_resumed.mp hr'
    by_cases hfa : r₀.jobId = jobId ∧ r₀.status = .failed
    · rw [if_pos hfa] at hli heq ⊢
      have hbac : r₀.isBackup = true := (Bool.and_eq_true_iff.mp hli).1
      by_cases hfa' : r₁.jobId = jobId ∧ r₁.status = .failed
      · rw [if_pos hfa']
        have hk : r₀ = r₁ := Keyed.eq_of_key_eq hr₀ hr₁ (hfa.1.trans hfa'.1.symm)
        rw [hk]
      · rw [if_neg hfa'] at hli' heq
        exact absurd heq.symm (hcar r₀ hr₀ hfa.1 hbac hfa.2 r₁ hr₁ hli')
    · rw [if_neg hfa] at hli heq ⊢
      by_cases hfa' : r₁.jobId = jobId ∧ r₁.status = .failed
      · rw [if_pos hfa'] at hli' heq
        have hbac : r₁.isBackup = true := (Bool.and_eq_true_iff.mp hli').1
        exact absurd heq (hcar r₁ hr₁ hfa'.1 hbac hfa'.2 r₀ hr₀ hli)
      · rw [if_neg hfa'] at hli' heq ⊢
        exact h r₀ hr₀ r₁ hr₁ hli hli' heq

/-- **Every event** keeps one live backup of each collection exactly if it is careful. -/
theorem oneLive_step_iff (h : OneLive s) (hsd : Sound s)
    (hs : step exclude s e = some s') : OneLive s' ↔ Careful exclude s e := by
  cases e <;> cases some.inj hs
  case tick entries => exact oneLive_tick_iff h hsd.fresh entries
  case resume jobId => exact oneLive_resume_iff h jobId
  case drain written => exact iff_of_true h trivial
  case submit kind target =>
    refine iff_of_true (h.of_live fun r hr hli => ?_) trivial
    rcases Keyed.mem_insert.mp hr with rfl | ⟨hr, -⟩
    · simp [Record.isLiveBackup, Record.isBackup] at hli
    · exact ⟨r, hr, hli, rfl, rfl⟩
  case promote jobId dispatched =>
    refine iff_of_true (h.setStatus hsd (fun status _ hli => ?_) jobId) trivial
    unfold promoted at hli
    split at hli
    next hqd => rw [hqd]; rfl
    · exact hli
  case finish jobId last =>
    refine iff_of_true (h.setStatus hsd (fun status _ hli => ?_) jobId) trivial
    unfold finished at hli
    split at hli
    next hl => rcases hl.2 with rfl | rfl | rfl <;> cases hli
    · exact hli
  case cancel jobId =>
    refine iff_of_true (h.setStatus hsd (fun status hne hli => ?_) jobId) trivial
    unfold cancelled at hli
    split at hli
    next hact =>
      rw [hact.resolve_right hne]
      rfl
    · exact hli
  case evict jobId =>
    refine iff_of_true (h.of_live fun r hr hli => ?_) trivial
    exact ⟨r, (Keyed.mem_filter.mp hr).1, hli, rfl, rfl⟩
  case restart =>
    refine iff_of_true (h.rewrite (fun r _ hli => ?_) []) trivial
    unfold reloaded at hli
    split at hli
    · cases hli
    · exact hli

/-! ### Runs -/

theorem exists_step (exclude : List String) (s : State) (e : Event) :
    ∃ s', step exclude s e = some s' := by
  cases e <;> exact ⟨_, rfl⟩

theorem sound_init : Sound State.init := ⟨fun _ hr => absurd hr (Keyed.notMem_empty _),
  fun _ hr => absurd hr (Keyed.notMem_empty _)⟩

theorem oneLive_init : OneLive State.init := fun _ hr => absurd hr (Keyed.notMem_empty _)

/-- **At most one live backup of each collection** is kept by a run, in every state that it comes
to, exactly if all its events are careful. -/
theorem oneLive_iff (exclude : List String) (events : List Event) :
    (∀ before after t, events = before ++ after →
      run (step exclude) State.init before = some t → OneLive t) ↔
      Along (step exclude) (Careful exclude) State.init events := by
  have hsd {events : List Event} {t : State}
      (hr : run (step exclude) State.init events = some t) : Sound t :=
    run_invariant (fun _ _ _ => sound_step) sound_init hr
  constructor
  · intro hone
    refine along_iff.mpr fun before e after t heven hr => ?_
    obtain ⟨t', hs⟩ := exists_step exclude t e
    have hbef : OneLive t := hone before (e :: after) t heven hr
    refine (oneLive_step_iff hbef (hsd hr) hs).mp (hone (before ++ [e]) after t' ?_ ?_)
    · rw [heven, append_assoc, singleton_append]
    · exact (run_concat_eq_some _).mpr ⟨t, hr, hs⟩
  · rintro halong before after t rfl hr
    refine (run_invariant_along (I := fun s => Sound s ∧ OneLive s) ?_ halong.of_append
      ⟨sound_init, oneLive_init⟩ hr).2
    rintro s e s' hcar ⟨hsd, hone⟩ hs
    exact ⟨sound_step hsd hs, (oneLive_step_iff hone hsd hs).mpr hcar⟩

/-- A backup is queued when the server is restarted. It is promoted, and the next tick creates
another one. -/
theorem not_oneLive_restart : ∃ t, run (step []) State.init
    [.tick [⟨("default", "docs"), true⟩], .restart, .promote 0 true,
      .tick [⟨("default", "docs"), true⟩]] = some t ∧ ¬OneLive t := by
  refine ⟨_, rfl, fun hone => ?_⟩
  have heq := hone ⟨0, .exportJob, .backup, ("default", "docs"), .running⟩ (by decide)
    ⟨1, .exportJob, .backup, ("default", "docs"), .queued⟩ (by decide) rfl rfl rfl
  cases heq

end ArchonSearch.Jobs.Backup
