import ArchonSearch.Jobs.Recovery
import ArchonSearch.Lib.Run

/-!
# The crash-loop guard

A server that was killed in the middle of an ingest is not to start the same ingest again by itself:
its startup sync and the syncs of its file watcher stay off until an operator has run `POST /sync`
without errors. That there was a crash is written down in three places, one after the other. The
killed process leaves a row in the jobs file that says `RUNNING`. The next process finds it, keeps
the fact in memory (`crashed_ingest_on_load`), and writes the row back as `FAILED`. When it comes to
its decision about the startup sync, it writes a sentinel file, which only a clean `POST /sync`
removes.

Between the second write and the third, the fact is in memory only. A process that is killed there
takes it along, and so does every process that has no collections configured, as it decides nothing
and writes no sentinel. `Unforgotten` excludes these kills, and then the guard holds in every run
(`guarded_of_unforgotten`).

The jobs of a process may become any others at any time; every write is taken to succeed.
-/

namespace ArchonSearch.Jobs.CrashGuard

open Lib List Option

/-! ### The server -/

/-- `StartupSyncResult`. -/
inductive StartupSyncResult where
  | pending
  | done
  | failed
  | suppressed
  deriving DecidableEq

structure BootConfig where
  (pinnedCollections collections : List String)
  watch : Bool

/-- `all_cols`. -/
def BootConfig.allCols (c : BootConfig) : List String := c.pinnedCollections ++ c.collections

def BootConfig.watches (c : BootConfig) : Bool := c.watch && !c.allCols.isEmpty

inductive Stage where
  | loading
  | starting
  | serving
  deriving DecidableEq

structure Process where
  config : BootConfig
  stage : Stage
  jobs : Table
  (modified crashedIngestOnLoad : Bool)
  /-- `app.state.sync_result`. -/
  syncResult : Option StartupSyncResult
  startupSync : Bool

structure State where
  file : JobsFile
  sentinel : Bool
  process : Option Process
  /-- A process was killed while an ingest-family job was `RUNNING`, and no `POST /sync` has ended
  without errors since. -/
  crashPending : Bool

def State.init (file : JobsFile) (sentinel : Bool) : State := ⟨file, sentinel, none, false⟩

inductive Decision where
  | suppress
  | start
  | nothing
  deriving DecidableEq

/-- `sync_suppressed`, and the branches on it. -/
def Process.decision (p : Process) (sentinel : Bool) : Decision :=
  if p.config.allCols ≠ [] ∧ (p.crashedIngestOnLoad || sentinel) = true then .suppress
  else if p.config.allCols ≠ [] then .start
  else .nothing

/-- A job of `_INGEST_FAMILY_JOB_TYPES` that is `RUNNING`. -/
def isRunningIngest (j : Job) : Bool :=
  j.status == .running && ingestFamilyJobTypes.contains j.payload.jobType

def Process.runsIngest (p : Process) : Bool := p.jobs.items.any isRunningIngest

/-- One job of the process at least would be taken for a crash: an ingest that runs, or that is
being cancelled after it has started. -/
def Process.wouldLatch (p : Process) : Bool := p.jobs.items.any fun j => j.rewriteOnLoad.latches

section Machine

variable (fromisoformat : String → Option ℤ)

inductive Event where
  | boot : BootConfig → (ℕ → Reading fromisoformat) → ℤ → Event
  | persistLoad : ℤ → Event
  | mutate : ℤ → Table → Event
  | decideSync
  | startupSyncEnd : (clean : Bool) → Event
  | watch
  /-- The sync of a `POST /sync` ends, with errors or without. -/
  | manualSyncEnd : (clean : Bool) → Event
  | kill

variable {fromisoformat}

def Process.ofLoaded (c : BootConfig) (l : Loaded) : Process :=
  ⟨c, .loading, l.jobs, l.modified, l.crashed, none, false⟩

/-- The jobs of the process become these, and `_write_atomic` writes them. -/
def State.write (fromisoformat : String → Option ℤ) (s : State) (now : ℤ) (p : Process) :
    Option State :=
  match writeAtomic fromisoformat now .written ⟨p.jobs, s.file⟩ with
  | (store, false) =>
    some { s with file := store.file, process := some { p with jobs := store.jobs } }
  | (_, true) => none

def Process.decided (p : Process) (sentinel : Bool) : Process :=
  match p.decision sentinel with
  | .suppress => { p with stage := .serving, syncResult := some .suppressed }
  | .start => { p with stage := .serving, syncResult := some .pending, startupSync := true }
  | .nothing => { p with stage := .serving }

/-- `write_sync_suppressed_sentinel`, if the startup sync is suppressed. -/
def State.decide (s : State) (p : Process) : State :=
  { s with
    sentinel := s.sentinel || p.decision s.sentinel == .suppress
    process := some (p.decided s.sentinel) }

def Process.resumed (p : Process) : Process :=
  if p.syncResult = some .suppressed ∨ p.syncResult = some .failed then
    { p with syncResult := some .done }
  else p

/-- `_clear_degraded_sync_state`. -/
def State.clearDegradedSyncState (s : State) (p : Process) : State :=
  { s with sentinel := false, crashPending := false, process := some p.resumed }

def Process.startupSynced (p : Process) (clean : Bool) : Process :=
  { p with syncResult := some (if clean then .done else .failed), startupSync := false }

def step (s : State) : Event fromisoformat → Option State
  | .boot c readings now =>
    if s.process.isNone then
      some { s with process := some (Process.ofLoaded c (loadFile readings now s.file)) }
    else none
  | .persistLoad now =>
    s.process.bind fun p =>
      if p.stage = .loading then
        if p.modified then s.write fromisoformat now { p with stage := .starting }
        else some { s with process := some { p with stage := .starting } }
      else none
  | .mutate now jobs =>
    s.process.bind fun p =>
      if p.stage = .loading then none else s.write fromisoformat now { p with jobs := jobs }
  | .decideSync =>
    s.process.bind fun p => if p.stage = .starting then some (s.decide p) else none
  | .startupSyncEnd clean =>
    s.process.bind fun p =>
      if p.startupSync then some { s with process := some (p.startupSynced clean) } else none
  | .watch =>
    s.process.bind fun p =>
      if p.stage = .serving ∧ p.config.watches = true then some s else none
  | .manualSyncEnd clean =>
    s.process.bind fun p =>
      if p.stage = .serving then some (if clean then s.clearDegradedSyncState p else s) else none
  | .kill =>
    s.process.bind fun p =>
      some { s with process := none, crashPending := s.crashPending || p.runsIngest }

def StartsSync (s : State) : Event fromisoformat → Prop
  | .decideSync => ∃ p ∈ s.process, p.stage = .starting ∧ p.decision s.sentinel = .start
  | .watch => ∃ p ∈ s.process, p.stage = .serving ∧ p.config.watches = true ∧
      p.syncResult ≠ some .suppressed
  | _ => False

/-- **The guard holds.** While a crash is pending, no sync starts by itself. -/
def Guarded (fromisoformat : String → Option ℤ) (s : State) : Prop :=
  s.crashPending = true → ∀ ev : Event fromisoformat, ¬StartsSync s ev

/-- No process is killed while it alone knows of a crash that is pending: it has found the row of
the crash and written it back, the sentinel does not exist, and none of its own jobs would be taken
for a crash. -/
def Unforgotten (s : State) : Event fromisoformat → Prop
  | .kill => s.crashPending = true → ∀ p ∈ s.process, p.stage ≠ .loading →
      p.crashedIngestOnLoad = true → s.sentinel = true ∨ p.wouldLatch = true
  | _ => True

/-! ### What the jobs file tells -/

def Latching (fromisoformat : String → Option ℤ) (file : JobsFile) : Prop :=
  ∀ (readings : ℕ → Reading fromisoformat) (now : ℤ), (loadFile readings now file).crashed = true

/-- A written table tells of a crash if one of its jobs does. -/
theorem latching_encodeTable {t : Table} (ht : Timed fromisoformat t)
    (h : (t.items.any fun j => j.rewriteOnLoad.latches) = true) :
    Latching fromisoformat (.json (encodeTable t)) := by
  intro readings now
  obtain ⟨loaded, hl, -, hcras⟩ := load_encodeTable readings now ht
  rw [loadFile, hl, getD_some, hcras, h]

/-- Nothing that was loaded would be taken for a crash again. -/
theorem wouldLatch_ofLoaded (c : BootConfig) (readings : ℕ → Reading fromisoformat) (now : ℤ)
    (file : JobsFile) :
    (Process.ofLoaded c (loadFile readings now file)).wouldLatch = false := by
  change ((loadFile readings now file).jobs.items.any fun j => j.rewriteOnLoad.latches) = false
  rw [List.any_eq_false]
  intro j hj
  cases file with
  | missing => exact absurd hj not_mem_nil
  | unparseable => exact absurd hj not_mem_nil
  | json v =>
    cases hl : load readings now v with
    | none =>
      rw [loadFile, hl] at hj
      exact absurd hj not_mem_nil
    | some loaded =>
      rw [loadFile, hl] at hj
      obtain ⟨rows, -, hrw, -⟩ := load_cases hl
      obtain ⟨row, -, r, w, hr⟩ := loadRow_of_mem_loaded hl hrw hj
      rw [(settled_of_loadRow hr).rewriteOnLoad.1]
      exact Bool.false_ne_true

theorem write_eq_some {s s' : State} {now : ℤ} {p : Process}
    (h : s.write fromisoformat now p = some s') : ∃ jobs, Timed fromisoformat jobs ∧
      s' = { s with
        file := .json (encodeTable jobs), process := some { p with jobs := jobs } } := by
  rw [State.write] at h
  rcases hw : writeAtomic fromisoformat now .written ⟨p.jobs, s.file⟩ with ⟨store, - | -⟩
  · rw [hw] at h
    obtain ⟨hevict, hf⟩ := writeAtomic_returned hw
    refine ⟨store.jobs, Timed.evictOld hevict, ?_⟩
    rw [← hf]
    exact (some.inj h).symm
  · rw [hw] at h
    cases h

/-! ### The invariant -/

/-- The process has found the crash, or is about to. -/
structure Aware (fromisoformat : String → Option ℤ) (file : JobsFile) (sentinel : Bool)
    (p : Process) : Prop where
  loading : p.stage = .loading → sentinel = true ∨ Latching fromisoformat file
  found : sentinel = true ∨ p.crashedIngestOnLoad = true
  serving : p.stage = .serving → p.config.allCols ≠ [] →
    sentinel = true ∧ p.syncResult = some .suppressed
  startupSync : p.startupSync = false

structure Sound (fromisoformat : String → Option ℤ) (file : JobsFile)
    (sentinel crashPending : Bool) (p : Process) : Prop where
  latching : p.wouldLatch = true → Latching fromisoformat file
  aware : crashPending = true → Aware fromisoformat file sentinel p

/-- What holds between the steps: when no process runs, the disk tells of a pending crash. -/
def Inv (fromisoformat : String → Option ℤ) (s : State) : Prop :=
  match s.process with
  | none => s.crashPending = true → s.sentinel = true ∨ Latching fromisoformat s.file
  | some p => Sound fromisoformat s.file s.sentinel s.crashPending p

section Steps

variable {file file' : JobsFile} {sentinel crashPending : Bool} {p : Process}

/-- A process that boots finds what the disk tells. -/
theorem sound_boot (h : crashPending = true → sentinel = true ∨ Latching fromisoformat file)
    (c : BootConfig) (readings : ℕ → Reading fromisoformat) (now : ℤ) :
    Sound fromisoformat file sentinel crashPending
      (Process.ofLoaded c (loadFile readings now file)) where
  latching hlat := by
    rw [wouldLatch_ofLoaded] at hlat
    cases hlat
  aware hpen := by
    refine ⟨fun _ => h hpen, ?_, fun hser => (by cases hser), rfl⟩
    exact (h hpen).imp_right fun hlatc => hlatc readings now

/-- Past the load, what a process knows does not depend on its jobs. -/
theorem Aware.of_starting (h : Aware fromisoformat file sentinel p) (jobs : Table) :
    Aware fromisoformat file' sentinel { p with stage := .starting, jobs := jobs } :=
  ⟨fun hl => (by cases hl), h.found, fun hser => (by cases hser), h.startupSync⟩

theorem Aware.with_jobs (h : Aware fromisoformat file sentinel p) (hsg : p.stage ≠ .loading)
    (jobs : Table) : Aware fromisoformat file' sentinel { p with jobs := jobs } :=
  ⟨fun hl => absurd hl hsg, h.found, h.serving, h.startupSync⟩

/-- The decision suppresses what there is to sync when a crash is pending. -/
theorem Aware.decision (h : Aware fromisoformat file sentinel p) :
    p.decision sentinel = if p.config.allCols ≠ [] then .suppress else .nothing := by
  have hfnd : (p.crashedIngestOnLoad || sentinel) = true := by
    rcases h.found with hsen | hcras
    · rw [hsen, Bool.or_true]
    · rw [hcras, Bool.true_or]
  rw [Process.decision]
  by_cases hcols : p.config.allCols ≠ []
  · rw [if_pos ⟨hcols, hfnd⟩, if_pos hcols]
  · rw [if_neg fun hc => hcols hc.1, if_neg hcols, if_neg hcols]

theorem jobs_decided : (p.decided sentinel).jobs = p.jobs := by
  rw [Process.decided]
  cases p.decision sentinel <;> rfl

theorem Aware.decided (h : Aware fromisoformat file sentinel p) :
    Aware fromisoformat file (sentinel || p.decision sentinel == .suppress)
      (p.decided sentinel) := by
  rw [Process.decided, h.decision]
  by_cases hcols : p.config.allCols ≠ []
  · rw [if_pos hcols]
    exact ⟨fun hl => (by cases hl), .inl (Bool.or_true sentinel),
      fun _ _ => ⟨Bool.or_true sentinel, rfl⟩, h.startupSync⟩
  · rw [if_neg hcols]
    refine ⟨fun hl => (by cases hl), ?_, fun _ hc => absurd hc hcols, h.startupSync⟩
    exact h.found.imp_left fun hsen => (by rw [hsen]; rfl)

theorem Sound.decided (h : Sound fromisoformat file sentinel crashPending p) :
    Sound fromisoformat file (sentinel || p.decision sentinel == .suppress) crashPending
      (p.decided sentinel) where
  latching hlat := h.latching (by rwa [Process.wouldLatch, jobs_decided] at hlat)
  aware hpen := (h.aware hpen).decided

theorem latches_of_isRunningIngest {j : Job} (h : isRunningIngest j = true) :
    j.rewriteOnLoad.latches = true := by
  obtain ⟨hr, hfam⟩ := (Bool.and_eq_true_iff).mp h
  rw [Job.rewriteOnLoad, beq_iff_eq.mp hr]
  simpa [ingestFamilyJobTypes, Rewrite.latches] using hfam

theorem wouldLatch_of_runsIngest (h : p.runsIngest = true) : p.wouldLatch = true := by
  obtain ⟨j, hj, hruns⟩ := List.any_eq_true.mp h
  exact List.any_eq_true.mpr ⟨j, hj, latches_of_isRunningIngest hruns⟩

/-- What a killed process leaves: a running ingest is written, and what it knew of a pending crash
stands on the disk, if it was not the only one to know. -/
theorem Sound.kill (h : Sound fromisoformat file sentinel crashPending p)
    (hunf : crashPending = true → p.stage ≠ .loading → p.crashedIngestOnLoad = true →
      sentinel = true ∨ p.wouldLatch = true) (hpen : (crashPending || p.runsIngest) = true) :
    sentinel = true ∨ Latching fromisoformat file := by
  rcases Bool.or_eq_true_iff.mp hpen with hpen | hruns
  · have haware := h.aware hpen
    by_cases hsg : p.stage = .loading
    · exact haware.loading hsg
    · rcases haware.found with hsen | hcras
      · exact .inl hsen
      · exact (hunf hpen hsg hcras).imp_right h.latching
  · exact .inr (h.latching (wouldLatch_of_runsIngest hruns))

/-- A write makes the file tell of what the jobs tell. -/
theorem sound_write {s s' : State} {now : ℤ} (h : s.write fromisoformat now p = some s')
    (haware : ∀ (file : JobsFile) (jobs : Table), s.crashPending = true →
      Aware fromisoformat file s.sentinel { p with jobs := jobs }) : Inv fromisoformat s' := by
  obtain ⟨jobs, htim, rfl⟩ := write_eq_some h
  exact ⟨fun hlat => latching_encodeTable htim hlat, haware _ jobs⟩

theorem inv_clearDegradedSyncState {s : State}
    (h : Sound fromisoformat s.file s.sentinel s.crashPending p) :
    Inv fromisoformat (s.clearDegradedSyncState p) := by
  refine ⟨fun hlat => h.latching ?_, fun hpen => by cases hpen⟩
  rw [Process.resumed] at hlat
  split_ifs at hlat <;> exact hlat

end Steps

variable {s s' : State} {ev : Event fromisoformat}

theorem Inv.sound {p : Process} (h : Inv fromisoformat s) (hp : s.process = some p) :
    Sound fromisoformat s.file s.sentinel s.crashPending p := by
  rwa [Inv, hp] at h

/-- **One step keeps the invariant**, unless it kills the only process that knows. -/
theorem inv_step (hunf : Unforgotten s ev) (h : Inv fromisoformat s)
    (hs : step s ev = some s') : Inv fromisoformat s' := by
  cases ev with
  | boot c readings now =>
    obtain ⟨hn, hs'⟩ := ite_none_right_eq_some.mp hs
    cases hs'
    rw [Inv, isNone_iff_eq_none.mp hn] at h
    exact sound_boot h c readings now
  | persistLoad now =>
    obtain ⟨p, hp, hs'⟩ := bind_eq_some_iff.mp hs
    have hsd := h.sound hp
    split_ifs at hs' with hmod
    · exact sound_write hs' fun file jobs hpen => (hsd.aware hpen).of_starting jobs
    · cases hs'
      exact ⟨hsd.latching, fun hpen => (hsd.aware hpen).of_starting p.jobs⟩
  | mutate now jobs =>
    obtain ⟨p, hp, hs'⟩ := bind_eq_some_iff.mp hs
    split_ifs at hs' with hl
    have hsd := h.sound hp
    exact sound_write hs' fun file jobs hpen =>
      (hsd.aware hpen).with_jobs hl jobs
  | decideSync =>
    obtain ⟨p, hp, hs'⟩ := bind_eq_some_iff.mp hs
    obtain ⟨-, hs'⟩ := ite_none_right_eq_some.mp hs'
    cases hs'
    exact (h.sound hp).decided
  | startupSyncEnd clean =>
    obtain ⟨p, hp, hs'⟩ := bind_eq_some_iff.mp hs
    obtain ⟨hruns, hs'⟩ := ite_none_right_eq_some.mp hs'
    cases hs'
    have hsd := h.sound hp
    refine ⟨hsd.latching, fun hpen => ?_⟩
    -- no startup sync runs while a crash is pending
    rw [(hsd.aware hpen).startupSync] at hruns
    cases hruns
  | watch =>
    obtain ⟨p, hp, hs'⟩ := bind_eq_some_iff.mp hs
    obtain ⟨-, hs'⟩ := ite_none_right_eq_some.mp hs'
    exact some.inj hs' ▸ h
  | manualSyncEnd clean =>
    obtain ⟨p, hp, hs'⟩ := bind_eq_some_iff.mp hs
    obtain ⟨-, hs'⟩ := ite_none_right_eq_some.mp hs'
    cases hs'
    cases clean with
    | false => exact h
    | true => exact inv_clearDegradedSyncState (h.sound hp)
  | kill =>
    obtain ⟨p, hp, hs'⟩ := bind_eq_some_iff.mp hs
    cases hs'
    exact (h.sound hp).kill fun hpen => hunf hpen p hp

/-- While the crash is known, no sync starts by itself. -/
theorem Inv.guarded (h : Inv fromisoformat s) : Guarded fromisoformat s := by
  intro hpen ev hsts
  cases ev with
  | decideSync =>
    obtain ⟨p, hp, -, hdec⟩ := hsts
    rw [((h.sound hp).aware hpen).decision] at hdec
    split_ifs at hdec
  | watch =>
    obtain ⟨p, hp, hser, hwat, hres⟩ := hsts
    have hcols : p.config.allCols ≠ [] := by
      rw [BootConfig.watches, Bool.and_eq_true_iff] at hwat
      simpa using hwat.2
    exact hres (((h.sound hp).aware hpen).serving hser hcols).2
  | _ => exact hsts

/-- **Once a process was killed while an ingest ran, no boot starts a startup sync or a sync of
the watcher before a clean `POST /sync`**, in every run in which no process is killed that alone
knows of such a crash. -/
theorem guarded_of_unforgotten {file : JobsFile} {sentinel : Bool}
    {es : List (Event fromisoformat)}
    (hunforgotten : Along step Unforgotten (State.init file sentinel) es)
    (hrun : run step (State.init file sentinel) es = some s) : Guarded fromisoformat s :=
  (run_invariant_along (I := Inv fromisoformat) (fun _ _ _ hC h hs => inv_step hC h hs)
    hunforgotten (fun hpen => by cases hpen) hrun).guarded

end Machine

/-! ### Two restarts -/

instance (fromisoformat : String → Option ℤ) (s : State) (ev : Event fromisoformat) :
    Decidable (Unforgotten s ev) := by
  unfold Unforgotten
  split <;> infer_instance

def sampleConfig : BootConfig := ⟨[], ["/docs"], true⟩

def sampleStart : List (Event sampleFromisoformat) :=
  [.boot sampleConfig (fun _ => sampleReading) sampleReading.instant,
    .persistLoad sampleReading.instant]

def sampleCrash : List (Event sampleFromisoformat) :=
  sampleStart ++ [.decideSync, .mutate sampleReading.instant sampleTable, .kill]

/-- After the crash a process starts and decides; then it is killed, and another one starts. -/
theorem guarded_sample : ∃ s, run step (State.init .missing false)
      (sampleCrash ++ sampleStart ++ [.decideSync, .kill] ++ sampleStart) = some s ∧
    s.crashPending = true ∧ Guarded sampleFromisoformat s := by
  have hunf : Along step Unforgotten (State.init .missing false)
      (sampleCrash ++ sampleStart ++ [.decideSync, .kill] ++ sampleStart) := by
    decide
  exact ⟨_, rfl, rfl, guarded_of_unforgotten hunf rfl⟩

/-- The process that starts after the crash is killed before it decides, and the next one starts
its startup sync. -/
theorem not_guarded_sample : ∃ s, run step (State.init .missing false)
      (sampleCrash ++ sampleStart ++ [.kill] ++ sampleStart) = some s ∧
    s.crashPending = true ∧ ¬Guarded sampleFromisoformat s :=
  ⟨_, rfl, rfl, fun h => h rfl .decideSync ⟨_, rfl, rfl, rfl⟩⟩

end ArchonSearch.Jobs.CrashGuard
